import GreenAgent.Lib.HashMap
import Mathlib.Data.List.MinMax

namespace GreenAgent

-- A queue of items with priorities, through what `push` and `pop` do to the
-- priorities. Which one of several items of the highest priority is popped is
-- left open.
structure PriorityQueue (I W : Type) [DecidableEq I] [LE W] where
  Queue : Type
  priority : Queue → I → Option W
  len : Queue → Nat
  new : Queue
  push : Queue → I → W → Queue
  pop : Queue → Option ((I × W) × Queue)
  priority_new : ∀ i,priority new i = none
  priority_push : ∀ q i w j,priority (push q i w) j = if j = i then some w else priority q j
  pop_none : ∀ q i,pop q = none → priority q i = none
  pop_priority : ∀ q i w rest,pop q = some ((i,w),rest) → priority q i = some w
  pop_highest : ∀ q i w rest,pop q = some ((i,w),rest) → ∀ j v,priority q j = some v → v ≤ w
  pop_rest : ∀ q i w rest,pop q = some ((i,w),rest) → ∀ j,priority rest j = if j = i then none else priority q j
  pop_len : ∀ q e rest,pop q = some (e,rest) → len rest < len q

namespace PriorityQueue
variable {I W : Type} [DecidableEq I] [LinearOrder W]

def highest (m : HashMap I W) : Option (Sigma fun _ : I => W) := m.entries.argmax (fun e => e.2)

theorem highest_lookup {m : HashMap I W} (found : highest m = some e) : m.lookup e.1 = some e.2 :=
  HashMap.mem_entries.mp (List.argmax_mem found)

-- The queue that looks for the highest priority in a map of them.
def ofMap (I W : Type) [DecidableEq I] [LinearOrder W] : PriorityQueue I W where
  Queue := HashMap I W
  priority m i := m.lookup i
  len m := m.keys.length
  new := ∅
  push m i w := m.insert i w
  pop m := (highest m).map (fun e => ((e.1,e.2),m.erase e.1))
  priority_new i := AList.lookup_empty i
  priority_push m i w j := HashMap.lookup_insert m i j w
  pop_none m i none := by
    have empty : m.entries = [] := List.argmax_eq_none.mp (Option.map_eq_none_iff.mp none)
    refine Option.eq_none_iff_forall_not_mem.mpr (fun w found => ?_)
    have member := HashMap.mem_entries.mpr found
    rw [empty] at member
    cases member
  pop_priority m i w rest popped := by
    obtain ⟨e,found,same⟩ := Option.map_eq_some_iff.mp popped
    cases same
    exact highest_lookup found
  pop_highest m i w rest popped j v inside := by
    obtain ⟨e,found,same⟩ := Option.map_eq_some_iff.mp popped
    cases same
    exact List.le_of_mem_argmax (HashMap.mem_entries.mpr inside) found
  pop_rest m i w rest popped j := by
    obtain ⟨e,found,same⟩ := Option.map_eq_some_iff.mp popped
    cases same
    exact HashMap.lookup_erase m e.1 j
  pop_len m e rest popped := by
    obtain ⟨top,found,same⟩ := Option.map_eq_some_iff.mp popped
    cases same
    exact HashMap.erase_shorter (highest_lookup found)

end PriorityQueue
end GreenAgent
