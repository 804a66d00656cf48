import Mathlib
import GreenAgent.Lib.HashMap

namespace GreenAgent.HashMap
variable {K V : Type} [DecidableEq K] {m : HashMap K V}

-- The sum of a quantity over the values of a map.
def total (f : V → Int) (m : HashMap K V) : Int := (m.entries.map (fun e => f e.2)).sum

theorem erase_absent (absent : m.lookup k = none) : AList.erase k m = m :=
  AList.ext (List.kerase_of_notMem_keys (AList.lookup_eq_none.mp absent))

theorem insert_entries (m : HashMap K V) (k : K) (v : V) : (AList.insert k v m).entries = ⟨k,v⟩ :: (AList.erase k m).entries := rfl

theorem erase_split (found : m.lookup k = some v) : m.entries.Perm (⟨k,v⟩ :: (AList.erase k m).entries) := by
  rw [← insert_entries]
  refine List.lookup_ext m.nodupKeys (AList.insert k v m).nodupKeys (fun key value => ?_)
  change m.lookup key = some value ↔ (AList.insert k v m).lookup key = some value
  rw [lookup_insert]
  split
  · rename_i same
    rw [same,found]
  · rfl

theorem total_insert (f : V → Int) (new : V) : total f (AList.insert k new m) = f new + total f (AList.erase k m) := by
  unfold total
  rw [insert_entries,List.map_cons,List.sum_cons]

theorem total_add (f : V → Int) (new : V) (absent : m.lookup k = none) : total f (AList.insert k new m) = total f m + f new := by
  rw [total_insert,erase_absent absent]
  exact Int.add_comm _ _

theorem total_replace (f : V → Int) (new : V) (found : m.lookup k = some old) :
    total f (AList.insert k new m) + f old = total f m + f new := by
  have split : total f m = f old + total f (AList.erase k m) := ((erase_split found).map _).sum_eq
  rw [total_insert,split]
  omega

theorem insert_erased (m : HashMap K V) (k : K) (v : V) : AList.insert k v (AList.erase k m) = AList.insert k v m := by
  have twice : AList.erase k (AList.erase k m) = AList.erase k m := erase_absent (AList.lookup_erase k m)
  apply AList.ext
  rw [insert_entries,insert_entries,twice]

end GreenAgent.HashMap
