import Mathlib.Data.List.AList

namespace GreenAgent

-- A hash map as the finite map it stands for. The order of the entries is the
-- one iteration sees; statements about maps are made through `lookup`.
abbrev HashMap (K V : Type) := AList (fun _ : K => V)

attribute [grind =] Function.update_apply

namespace HashMap
variable {K V : Type} [DecidableEq K]

def retain (keep : K → V → Bool) (m : HashMap K V) : HashMap K V :=
  ⟨m.entries.filter (fun e => keep e.1 e.2),m.nodupKeys.sublist List.filter_sublist⟩

def values (m : HashMap K V) : List V := m.entries.map (fun e => e.2)

@[grind =] theorem lookup_insert (m : HashMap K V) (k key : K) (v : V) :
    (AList.insert k v m).lookup key = if key = k then some v else m.lookup key := by
  by_cases same : key = k
  · subst key; simp
  · simp [AList.lookup_insert_ne same,same]

@[grind =] theorem lookup_erase (m : HashMap K V) (k key : K) :
    (AList.erase k m).lookup key = if key = k then none else m.lookup key := by
  by_cases same : key = k
  · subst key; simp
  · simp [AList.lookup_erase_ne same,same]

theorem erase_length {m : HashMap K V} {k : K} {v : V} (found : m.lookup k = some v) : (m.erase k).keys.length + 1 = m.keys.length := by
  have member : k ∈ m.keys := AList.lookup_isSome.mp (Option.isSome_of_eq_some found)
  rw [AList.keys_erase,List.length_erase_of_mem member]
  exact Nat.sub_add_cancel (List.length_pos_of_mem member)

theorem erase_shorter {m : HashMap K V} {k : K} {v : V} (found : m.lookup k = some v) :
    (m.erase k).keys.length < m.keys.length := by
  rw [← erase_length found]
  exact Nat.lt_succ_self _

theorem mem_entries {m : HashMap K V} : (⟨k,v⟩ : Sigma fun _ : K => V) ∈ m.entries ↔ m.lookup k = some v :=
  AList.mem_lookup_iff.symm

theorem mem_values {m : HashMap K V} : v ∈ values m ↔ ∃ k, m.lookup k = some v := by
  constructor
  · intro member
    obtain ⟨⟨k,w⟩,inside,rfl⟩ := List.mem_map.mp member
    exact ⟨k,mem_entries.mp inside⟩
  · rintro ⟨k,found⟩
    exact List.mem_map.mpr ⟨⟨k,v⟩,mem_entries.mpr found,rfl⟩

@[grind =] theorem lookup_retain (keep : K → V → Bool) (m : HashMap K V) (k : K) :
    (retain keep m).lookup k = (m.lookup k).filter (keep k) := by
  apply Option.ext
  intro v
  have left : (retain keep m).lookup k = some v ↔ m.lookup k = some v ∧ keep k v = true := by
    rw [← mem_entries,← mem_entries]
    simp [retain]
  rw [left,Option.filter_eq_some_iff]

theorem lookup_collect {key : E → K} {value : E → V} {entries : List E} {m : HashMap K V}
    (found : (entries.foldl (fun map e => AList.insert (key e) (value e) map) m).lookup k = some v) :
    m.lookup k = some v ∨ ∃ e ∈ entries, key e = k ∧ value e = v := by
  induction entries generalizing m with
  | nil => exact .inl found
  | cons e entries ih =>
    rcases ih found with earlier | ⟨e',member,same⟩
    · rw [lookup_insert] at earlier
      split at earlier
      · rename_i same
        exact .inr ⟨e,List.mem_cons_self,same.symm,Option.some.inj earlier⟩
      · exact .inl earlier
    · exact .inr ⟨e',List.mem_cons_of_mem _ member,same⟩

theorem collect_keeps {key : E → K} {value : E → V} {entries : List E} {m : HashMap K V} (present : (m.lookup k).isSome = true) :
    ((entries.foldl (fun map e => AList.insert (key e) (value e) map) m).lookup k).isSome = true := by
  induction entries generalizing m with
  | nil => exact present
  | cons e entries ih =>
    apply ih
    rw [lookup_insert]
    split
    · rfl
    · exact present

theorem collect_found (key : E → K) (value : E → V) {entries : List E} (m : HashMap K V) (member : e ∈ entries) :
    ((entries.foldl (fun map e => AList.insert (key e) (value e) map) m).lookup (key e)).isSome = true := by
  induction entries generalizing m with
  | nil => cases member
  | cons first entries ih =>
    rcases List.mem_cons.mp member with rfl | later
    · rw [List.foldl_cons]
      apply collect_keeps
      rw [lookup_insert,if_pos rfl]
      rfl
    · exact ih _ later

theorem lookup_eraseAll (key : E → K) (entries : List E) (m : HashMap K V) (k : K) :
    (entries.foldl (fun map e => AList.erase (key e) map) m).lookup k = if k ∈ entries.map key then none else m.lookup k := by
  induction entries generalizing m with
  | nil => simp
  | cons e entries ih =>
    rw [List.foldl_cons,ih,lookup_erase]
    by_cases own : k = key e <;> by_cases later : k ∈ entries.map key <;> simp [own,later]

theorem lookup_insertAll (key : E → K) (value : E → V) (entries : List E) (m : HashMap K V) (k : K) :
    (entries.foldl (fun map e => AList.insert (key e) (value e) map) m).lookup k =
      ((entries.reverse.find? (fun e => key e = k)).map value).or (m.lookup k) := by
  induction entries generalizing m with
  | nil => simp
  | cons e entries ih =>
    rw [List.foldl_cons,ih,lookup_insert,List.reverse_cons,List.find?_append]
    cases found : entries.reverse.find? (fun e => key e = k) with
    | some later => simp
    | none =>
      by_cases own : k = key e
      · simp [own]
      · simp [own,Ne.symm own]

end HashMap
end GreenAgent
