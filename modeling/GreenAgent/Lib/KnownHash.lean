import Mathlib.Data.List.Nodup
import GreenAgent.Lib.BigEndian

namespace GreenAgent.KnownHash
open BigEndian

-- A hash of which finitely many values have been recorded. Strings and digests
-- are written as big-endian numbers, so that a record stays readable and cheap
-- to evaluate.
structure Record where
  length : Nat
  string : Nat
  digest : Nat

def find (records : List Record) (s : List UInt8) : Option Record :=
  records.find? (fun r => r.length == s.length && r.string == number s)

def digestNumber (records : List Record) (other : Nat) (s : List UInt8) : Nat :=
  match find records s with
  | some r => r.digest
  | none => other

theorem find_spec (found : find records s = some r) : r ∈ records ∧ r.length = s.length ∧ r.string = number s := by
  have holds := List.find?_some found
  simp only [Bool.and_eq_true,beq_iff_eq] at holds
  exact ⟨List.mem_of_find?_eq_some found,holds.1,holds.2⟩

-- Recorded digests that are pairwise distinct make the hash injective on the
-- recorded strings.
theorem digestNumber_inj (distinct : (records.map Record.digest).Nodup) (known : (find records a).isSome)
    (known' : (find records b).isSome) (same : digestNumber records other a = digestNumber records other b) : a = b := by
  obtain ⟨r,found⟩ := Option.isSome_iff_exists.mp known
  obtain ⟨q,found'⟩ := Option.isSome_iff_exists.mp known'
  obtain ⟨member,length,string⟩ := find_spec found
  obtain ⟨member',length',string'⟩ := find_spec found'
  simp only [digestNumber,found,found'] at same
  have equal : r = q := List.inj_on_of_nodup_map distinct member member' same
  subst q
  exact number_inj (length.symm.trans length') (string.symm.trans string')

theorem digestNumber_small (small : ∀ r ∈ records, r.digest < bound) (smallOther : other < bound) (s : List UInt8) :
    digestNumber records other s < bound := by
  unfold digestNumber
  split
  · rename_i r found
    exact small r (find_spec found).1
  · exact smallOther

end GreenAgent.KnownHash
