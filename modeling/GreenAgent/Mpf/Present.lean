import GreenAgent.Mpf.Completeness
import GreenAgent.Mpf.Recorded

namespace GreenAgent.Mpf
open Radix (Fan Splits child mem_child)

def Trie.entries (hash : Bytes → Digest) (trie : Trie) : Finset Entry := Mpf.entries (trie.mpfLeaves hash)

-- No two stored keys collide: the sixty-four digits tell them apart.
def Trie.Separated (hash : Bytes → Digest) (trie : Trie) : Prop := Set.InjOn hash {key | key ∈ trie.leaves}

variable {hash : Bytes → Digest}

theorem mem_mpfLeaves {trie : Trie} : leaf ∈ trie.mpfLeaves hash ↔
    ∃ key value, trie.leaves[key]? = some value ∧ leaf = ⟨key,hash key,value,hash value⟩ := by
  simp only [Trie.mpfLeaves,List.mem_map,Prod.exists,Std.ExtTreeMap.mem_toList_iff_getElem?_eq_some]
  constructor
  · rintro ⟨key,value,found,rfl⟩; exact ⟨key,value,found,rfl⟩
  · rintro ⟨key,value,found,rfl⟩; exact ⟨key,value,found,rfl⟩

theorem mem_trie_entries {trie : Trie} : e ∈ trie.entries hash ↔
    ∃ key value, trie.leaves[key]? = some value ∧ e = (hash key,hash value) := by
  simp only [Trie.entries,mem_entries,mem_mpfLeaves]
  constructor
  · rintro ⟨leaf,⟨key,value,found,rfl⟩,rfl⟩; exact ⟨key,value,found,rfl⟩
  · rintro ⟨key,value,found,rfl⟩; exact ⟨_,⟨key,value,found,rfl⟩,rfl⟩

theorem mem_of_found {leaves : Std.ExtTreeMap Bytes Bytes} (found : leaves[key]? = some value) : key ∈ leaves :=
  Std.ExtTreeMap.mem_iff_isSome_getElem?.mpr (by simp [found])

theorem Trie.Separated.bundle {trie : Trie} (separated : trie.Separated hash) : Bundle (trie.mpfLeaves hash) 0 := by
  refine ⟨⟨Nat.zero_le _,fun _ _ _ _ ix low => absurd low (Nat.not_lt_zero ix),?_⟩,?_⟩
  · intro e he e' he' different
    obtain ⟨key,value,found,rfl⟩ := mem_trie_entries.mp he
    obtain ⟨key',value',found',rfl⟩ := mem_trie_entries.mp he'
    apply path_diverges
    intro same
    have keys := separated (mem_of_found found) (mem_of_found found') same
    subst key'
    rw [found] at found'
    cases found'
    exact different rfl
  · simp only [Trie.mpfLeaves,List.map_map]
    apply List.Nodup.of_map Prod.fst
    rw [List.map_map,List.Nodup,List.pairwise_map]
    apply (Std.ExtTreeMap.distinct_keys_toList (t := trie.leaves)).imp_of_mem
    intro a b ha hb apart same
    rw [Std.ExtTreeMap.mem_toList_iff_getElem?_eq_some] at ha hb
    have keys := separated (mem_of_found ha) (mem_of_found hb) same
    exact apart (by rw [keys]; exact Std.ReflCmp.compare_self)

theorem Trie.Separated.root {trie : Trie} (separated : trie.Separated hash) :
    trie.root hash = .ok (treeRoot hash (trie.entries hash) 0) :=
  rootFor_eq separated.bundle (by omega)

theorem entries_insert {trie : Trie} (separated : Set.InjOn hash {k | k = key ∨ k ∈ trie.leaves}) :
    Trie.entries hash ⟨trie.leaves.insert key value⟩ = put (trie.entries hash) (hash key) (hash value) := by
  ext e
  simp only [mem_trie_entries,mem_put,Std.ExtTreeMap.getElem?_insert]
  constructor
  · rintro ⟨k,v,found,rfl⟩
    split at found
    · rename_i same
      cases Std.LawfulEqCmp.eq_of_compare same
      cases found
      exact .inl rfl
    · rename_i other
      refine .inr ⟨⟨k,v,found,rfl⟩,?_⟩
      intro collide
      have same := separated (.inr (mem_of_found found)) (.inl rfl) collide
      exact other (by rw [same]; exact Std.ReflCmp.compare_self)
  · rintro (rfl | ⟨⟨k,v,found,rfl⟩,other⟩)
    · exact ⟨key,value,by simp,rfl⟩
    · refine ⟨k,v,?_,rfl⟩
      rw [if_neg]
      · exact found
      · intro same
        cases Std.LawfulEqCmp.eq_of_compare same
        exact other rfl

theorem entries_erase {trie : Trie} (separated : trie.Separated hash) (stored : key ∈ trie.leaves) :
    Trie.entries hash ⟨trie.leaves.erase key⟩ = without (trie.entries hash) (hash key) := by
  ext e
  simp only [mem_trie_entries,mem_without,Std.ExtTreeMap.getElem?_erase]
  constructor
  · rintro ⟨k,v,found,rfl⟩
    split at found
    · cases found
    · rename_i other
      refine ⟨⟨k,v,found,rfl⟩,?_⟩
      intro collide
      have same := separated (mem_of_found found) stored collide
      exact other (by rw [same]; exact Std.ReflCmp.compare_self)
  · rintro ⟨⟨k,v,found,rfl⟩,other⟩
    refine ⟨k,v,?_,rfl⟩
    rw [if_neg]
    · exact found
    · intro same
      cases Std.LawfulEqCmp.eq_of_compare same
      exact other rfl

theorem erase_separated {trie : Trie} (separated : trie.Separated hash) :
    Trie.Separated hash ⟨trie.leaves.erase key⟩ := by
  intro a ha b hb same
  exact separated (Std.ExtTreeMap.mem_of_mem_erase ha) (Std.ExtTreeMap.mem_of_mem_erase hb) same

theorem insert_separated {trie : Trie} (separated : Set.InjOn hash {k | k = key ∨ k ∈ trie.leaves}) :
    Trie.Separated hash ⟨trie.leaves.insert key value⟩ := by
  have cover : ∀ k, k ∈ trie.leaves.insert key value → k = key ∨ k ∈ trie.leaves := by
    intro k member
    rcases Std.ExtTreeMap.mem_insert.mp member with same | stored
    · exact .inl (Std.LawfulEqCmp.eq_of_compare same).symm
    · exact .inr stored
  intro a ha b hb same
  exact separated (cover a ha) (cover b hb) same

theorem put_stored (separated : Fan digit 64 s 0) (stored : (path,value) ∈ s) : put s path value = s := by
  ext e
  rw [mem_put]
  constructor
  · rintro (rfl | ⟨member,_⟩)
    · exact stored
    · exact member
  · intro member
    by_cases own : e.1 = path
    · exact .inl (separated.same_entry member stored own)
    · exact .inr ⟨member,own⟩

theorem known_stored {trie : Trie} (separated : trie.Separated hash) (stored : key ∈ trie.leaves) :
    Set.InjOn hash {k | k = key ∨ k ∈ trie.leaves} := by
  have inside : ∀ k, k = key ∨ k ∈ trie.leaves → k ∈ trie.leaves := by
    rintro k (rfl | listed)
    · exact stored
    · exact listed
  exact fun a ha b hb same => separated (inside a ha) (inside b hb) same

theorem Trie.Separated.present {trie : Trie} (separated : trie.Separated hash) (stored : trie.leaves[key]? = some value) :
    ∃ proof, trie.proofForPresent hash key = .ok proof ∧ Complete hash (trie.entries hash) (hash key) 0 proof ∧
      including hash (hash key) (hash value) 0 proof = .ok (treeRoot hash (trie.entries hash) 0) := by
  have entry : (hash key,hash value) ∈ trie.entries hash := mem_trie_entries.mpr ⟨key,value,stored,rfl⟩
  obtain ⟨proof,made,complete⟩ := proofForPath_complete hash separated.bundle (show 65 ≤ 65+0 by omega)
    (fun _ _ ix low => absurd low (Nat.not_lt_zero ix)) (neverCut_present entry)
  change Complete hash (trie.entries hash) (hash key) 0 proof at complete
  have fan : Fan digit 64 (trie.entries hash) 0 := separated.bundle.fan
  refine ⟨proof,?_,complete,?_⟩
  · rw [Trie.proofForPresent,if_neg (by simp [mem_of_found stored])]
    exact made
  · rw [complete.included (hash value),put_stored fan entry]

theorem Trie.Separated.update_root {trie : Trie} (separated : trie.Separated hash) (stored : trie.leaves[key]? = some value)
    (made : trie.proofForPresent hash key = .ok proof) (new : Bytes) :
    including hash (hash key) (hash new) 0 proof = .ok (treeRoot hash (Trie.entries hash ⟨trie.leaves.insert key new⟩) 0) := by
  obtain ⟨proof',made',complete,_⟩ := separated.present stored
  cases made.symm.trans made'
  rw [entries_insert (known_stored separated (mem_of_found stored))]
  exact complete.included (hash new)

-- One generated proof serves lookup, update and deletion of a stored key.
theorem present_key_complete (hash : Bytes → Digest) (trie : Trie) (key value new : Bytes)
    (separated : Set.InjOn hash {k | k ∈ trie.leaves}) (stored : trie.leaves[key]? = some value) :
    ∃ proof root updated deleted, trie.proofForPresent hash key = .ok proof ∧ trie.root hash = .ok root ∧
      has hash root key value proof = true ∧
      Trie.root hash ⟨trie.leaves.insert key new⟩ = .ok updated ∧ update hash root key proof value new = .ok updated ∧
      Trie.root hash ⟨trie.leaves.erase key⟩ = .ok deleted ∧ delete hash root key value proof = .ok deleted ∧
      ((∀ k ∈ trie.leaves, k = key) → deleted = emptyRoot) := by
  have keys : trie.Separated hash := separated
  have member : key ∈ trie.leaves := mem_of_found stored
  have known := known_stored keys member
  obtain ⟨proof,made,complete,before⟩ := keys.present stored
  refine ⟨proof,_,_,_,made,keys.root,?_,(insert_separated known).root,?_,(erase_separated keys).root,?_,?_⟩
  · simp [has,before]
  · rw [update,before]
    simpa [bind,Except.bind] using keys.update_root stored made new
  · rw [delete,before,entries_erase keys member]
    simpa [bind,Except.bind] using complete.excluded
  · intro only
    rw [entries_erase keys member]
    have alone : without (trie.entries hash) (hash key) = ∅ := by
      rw [Finset.eq_empty_iff_forall_notMem]
      intro e inside
      obtain ⟨listed,foreign⟩ := mem_without.mp inside
      obtain ⟨k,v,found,rfl⟩ := mem_trie_entries.mp listed
      exact foreign (by rw [only k (mem_of_found found)])
    rw [alone,treeRoot_empty]

theorem recorded_separated {trie : Trie} (known : trie.leaves.keys.all isRecorded = true) : trie.Separated blake2b256 :=
  fun _ ha _ hb same => recorded_collisionless known (Std.ExtTreeMap.mem_keys.mpr ha) (Std.ExtTreeMap.mem_keys.mpr hb) same

theorem present_key_complete_pair : ∃ proof root updated deleted, pairTrie.proofForPresent blake2b256 [1] = .ok proof ∧
    pairTrie.root blake2b256 = .ok root ∧ has blake2b256 root [1] [7] proof = true ∧
    Trie.root blake2b256 ⟨pairTrie.leaves.insert [1] [8]⟩ = .ok updated ∧
    update blake2b256 root [1] proof [7] [8] = .ok updated ∧
    Trie.root blake2b256 ⟨pairTrie.leaves.erase [1]⟩ = .ok deleted ∧ delete blake2b256 root [1] [7] proof = .ok deleted ∧
    ((∀ k ∈ pairTrie.leaves, k = [1]) → deleted = emptyRoot) :=
  present_key_complete blake2b256 pairTrie [1] [7] [8] (recorded_separated (by decide +kernel)) (by decide)

end GreenAgent.Mpf
