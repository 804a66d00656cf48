import GreenAgent.Book.Restore

namespace GreenAgent.Book
open MarketTaker TakerBehaviour

section Sets
variable {T : Type} [Ord T]

-- A set contains a taker if one of its elements compares as equal to it.
def Holds (set : List T) (t : T) : Prop := ∃ x ∈ set, compare t x = .eq

variable [Std.TransOrd T] {set : List T} {t u : T}

theorem BTreeSet.holds_insert : Holds (BTreeSet.insert u set) t ↔ compare t u = .eq ∨ Holds set t := by
  induction set with
  | nil => simp [Holds,BTreeSet.insert]
  | cons first rest ih =>
    have split : Holds (first :: rest) t ↔ compare t first = .eq ∨ Holds rest t := by simp [Holds]
    unfold BTreeSet.insert
    cases compared : compare u first with
    | lt => simp [Holds]
    | eq =>
      -- the element stays, and stands for the new one as well
      have same : compare t u = .eq ↔ compare t first = .eq :=
        ⟨fun left => Std.TransCmp.eq_trans left compared,
         fun left => Std.TransCmp.eq_trans left (Std.OrientedCmp.eq_symm compared)⟩
      grind
    | gt =>
      have next : Holds (first :: BTreeSet.insert u rest) t ↔ compare t first = .eq ∨ Holds (BTreeSet.insert u rest) t := by
        simp [Holds]
      grind

theorem BTreeSet.holds_remove (ascending : Ascending set) :
    Holds (BTreeSet.remove u set) t ↔ compare t u ≠ .eq ∧ Holds set t := by
  constructor
  · rintro ⟨x,member,alike⟩
    obtain ⟨inside,apart⟩ := (BTreeSet.mem_remove ascending).mp member
    exact ⟨fun same => apart (Std.TransCmp.eq_trans (Std.OrientedCmp.eq_symm same) alike),x,inside,alike⟩
  · rintro ⟨apart,x,inside,alike⟩
    refine ⟨x,(BTreeSet.mem_remove ascending).mpr ⟨inside,?_⟩,alike⟩
    exact fun same => apart (Std.TransCmp.eq_trans alike (Std.OrientedCmp.eq_symm same))

theorem BTreeSet.holds_foldl (added : List T) :
    Holds (added.foldl (fun set t => BTreeSet.insert t set) set) t ↔ Holds added t ∨ Holds set t := by
  induction added generalizing set with
  | nil => simp [Holds]
  | cons first rest ih =>
    have split : Holds (first :: rest) t ↔ compare t first = .eq ∨ Holds rest t := by simp [Holds]
    rw [List.foldl_cons,ih,BTreeSet.holds_insert,split]
    exact or_left_comm.trans or_assoc.symm

theorem Ascending.foldl (ascending : Ascending set) (added : List T) :
    Ascending (added.foldl (fun set t => BTreeSet.insert t set) set) := by
  induction added generalizing set with
  | nil => exact ascending
  | cons first rest ih => exact ih (ascending.insert first)

end Sets

section
variable {T U : Type} [Ord T] [MarketTaker T U]

def MarketTakers.Has (takers : MarketTakers T) (t : T) : Prop := Holds (takers.onSide (side t)) t

-- What the clock is told to do.
inductive ClockOp (T : Type) where
  | add (t : T)
  | remove (t : T)
  | advance (time : Nat)

-- The takers that were added and not removed.
def ClockOp.held : ClockOp T → (T → Prop) → T → Prop
  | .add t,held => fun u => compare u t = .eq ∨ held u
  | .remove t,held => fun u => compare u t ≠ .eq ∧ held u
  | .advance _,held => held

def heldAfter (ops : List (ClockOp T)) : T → Prop := ops.foldl (fun held op => op.held held) (fun _ => False)

namespace Chronology

def Active (takers : Chronology T) (t : T) : Prop := takers.active.Has t

def slotAt (takers : Chronology T) (time : Nat) : MarketTakers T := (takers.inactive.lookup time).getD .new

def Inactive (takers : Chronology T) (t : T) : Prop := ∃ time, (takers.slotAt time).Has t

-- The lower time bound is absent or not after the current time.
def Due (takers : Chronology T) (t : T) : Prop := ∀ lower, (timeBounds t).lowerBound = some lower → lower ≤ takers.timeNow

def Timely (takers : Chronology T) (held : T → Prop) : Prop := ∀ t, held t → (takers.Active t ↔ takers.Due t)

end Chronology

variable [TakerBehaviour T]

def expires (t : T) (time : Nat) : Bool :=
  match withUpdatedTime t time with
  | .succ _ => false
  | .term _ => true

def ClockOp.apply : ClockOp T → Chronology T → Chronology T
  | .add t,takers => takers.addFragment t
  | .remove t,takers => takers.removeFragment t
  | .advance time,takers => takers.advanceClocks time

def clockAfter (start : Nat) (ops : List (ClockOp T)) : Chronology T :=
  ops.foldl (fun takers op => op.apply takers) ⟨start,.new,∅⟩

-- Takers that compare as equal are one taker, and one that is told the time
-- stays the taker it was.
@[grind cases eager] structure OneTaker (T : Type) {U : Type} [Ord T] [MarketTaker T U] [TakerBehaviour T] : Prop where
  sameSide : ∀ t u : T, compare t u = .eq → side t = side u
  sameBounds : ∀ t u : T, compare t u = .eq → timeBounds t = timeBounds u
  sameExpiry : ∀ (t u : T) (time : Nat), compare t u = .eq → expires t time = expires u time
  renewed : ∀ (t u : T) (time : Nat), withUpdatedTime t time = .succ u → compare t u = .eq

-- Times given to the clock do not decrease.
def Forward (start : Nat) (ops : List (ClockOp T)) : Prop :=
  ∀ before time, before ++ [.advance time] <+: ops → (clockAfter start before).timeNow ≤ time

@[grind cases eager] structure OnTime (start : Nat) (ops : List (ClockOp T)) : Prop where
  timely : ∀ before, before <+: ops → (clockAfter start before).Timely (heldAfter before)
  removed : ∀ before t, before ++ [.remove t] <+: ops →
    ¬(clockAfter start (before ++ [.remove t])).Active t ∧ ¬(clockAfter start (before ++ [.remove t])).Inactive t

-- No held taker becomes due strictly inside the jump, and none that is due
-- expires at its end.
def Chronology.Misses (takers : Chronology T) (held : T → Prop) (time : Nat) : Prop :=
  ∃ t, held t ∧ ((∃ lower, (timeBounds t).lowerBound = some lower ∧ takers.timeNow < lower ∧ lower < time) ∨
    (takers.Due t ∧ expires t time = true))

def NoneMissed (start : Nat) (ops : List (ClockOp T)) : Prop :=
  ∀ before time, before ++ [.advance time] <+: ops → ¬(clockAfter start before).Misses (heldAfter before) time

@[grind cases eager] structure MarketTakers.Placed (takers : MarketTakers T) (here : T → Prop) : Prop where
  sorted : takers.Sorted
  has : ∀ t, takers.Has t ↔ here t

-- Where the held takers are, as long as none was missed.
@[grind cases eager] structure Chronology.Kept (takers : Chronology T) (held : T → Prop) : Prop where
  active : takers.active.Placed (fun t => held t ∧ takers.Due t)
  slots : ∀ time, (takers.slotAt time).Placed (fun t =>
    held t ∧ (timeBounds t).lowerBound = some time ∧ takers.timeNow < time)

end

section Fragments
variable {T U : Type} [MarketTaker T U] {takers : Chronology T} {t : T}

theorem Chronology.not_due : ¬takers.Due t ↔ ∃ lower, (timeBounds t).lowerBound = some lower ∧ takers.timeNow < lower := by
  simp [Due]

variable [Ord T]

theorem MarketTakers.Placed.congr {takers : MarketTakers T} {here there : T → Prop} (placed : takers.Placed here)
    (same : ∀ t, here t ↔ there t) : takers.Placed there :=
  ⟨placed.sorted,fun t => (placed.has t).trans (same t)⟩

theorem MarketTakers.not_has_new (t : T) : ¬(MarketTakers.new : MarketTakers T).Has t := by
  rintro ⟨x,member,_⟩
  cases market : side t with
  | bid => rw [market] at member; cases member
  | ask => rw [market] at member; cases member

theorem MarketTakers.placed_new {here : T → Prop} (nowhere : ∀ t, ¬here t) : (MarketTakers.new : MarketTakers T).Placed here :=
  ⟨⟨List.Pairwise.nil,List.Pairwise.nil⟩,fun t => iff_of_false (not_has_new t) (nowhere t)⟩

theorem Chronology.Kept.timely {held : T → Prop} (kept : takers.Kept held) : takers.Timely held := by
  intro t isHeld
  exact (kept.active.has t).trans (and_iff_right isHeld)

theorem Chronology.Kept.absent {held : T → Prop} (kept : takers.Kept held) (out : ¬held t) : ¬takers.Active t ∧ ¬takers.Inactive t := by
  refine ⟨fun active => out ((kept.active.has t).mp active).1,?_⟩
  rintro ⟨time,slot⟩
  grind

namespace Chronology

theorem addFragment_due (due : takers.Due t) : takers.addFragment t = {takers with active:=takers.active.insert t} := by
  unfold addFragment
  cases bounded : (timeBounds t).lowerBound with
  | none => rfl
  | some lower => exact if_neg (Nat.not_lt.mpr (due lower bounded))

theorem removeFragment_due (due : takers.Due t) : takers.removeFragment t = {takers with active:=takers.active.remove t} := by
  unfold removeFragment
  cases bounded : (timeBounds t).lowerBound with
  | none => rfl
  | some lower => exact if_neg (Nat.not_lt.mpr (due lower bounded))

variable {lower : Nat} (bounded : (timeBounds t).lowerBound = some lower) (later : takers.timeNow < lower)
include bounded later

theorem addFragment_later : (takers.addFragment t).timeNow = takers.timeNow ∧ (takers.addFragment t).active = takers.active ∧
    ∀ time, (takers.addFragment t).slotAt time = if time = lower then (takers.slotAt lower).insert t else takers.slotAt time := by
  have added : takers.addFragment t = {takers with inactive:=addInactive takers.inactive lower t} := by
    unfold addFragment
    rw [bounded]
    exact if_pos later
  rw [added]
  refine ⟨rfl,rfl,fun time => ?_⟩
  unfold slotAt addInactive
  grind

theorem removeFragment_later : (takers.removeFragment t).timeNow = takers.timeNow ∧
    (takers.removeFragment t).active = takers.active ∧
    ∀ time, (takers.removeFragment t).slotAt time = if time = lower then (takers.slotAt lower).remove t else takers.slotAt time := by
  unfold removeFragment
  rw [bounded]
  simp only [later,if_true]
  cases found : takers.inactive.lookup lower with
  | none =>
    refine ⟨rfl,rfl,fun time => ?_⟩
    have empty : takers.slotAt lower = .new := by rw [slotAt,found,Option.getD_none]
    have nothing : (MarketTakers.new : MarketTakers T).remove t = .new := by
      unfold MarketTakers.remove
      split
      · rfl
      · rfl
    grind
  | some slot =>
    refine ⟨rfl,rfl,fun time => ?_⟩
    unfold slotAt
    grind

end Chronology

end Fragments

section Sides
variable {T U : Type} [Ord T] [MarketTaker T U] {takers : MarketTakers T}

theorem MarketTakers.sorted_iff : takers.Sorted ↔ ∀ side, Ascending (takers.onSide side) := by
  constructor
  · intro sorted side
    cases side with
    | bid => exact sorted.bids
    | ask => exact sorted.asks
  · exact fun sorted => ⟨sorted .ask,sorted .bid⟩

theorem MarketTakers.onSide_insert (u : T) (market : Side) :
    (takers.insert u).onSide market = if market = side u then BTreeSet.insert u (takers.onSide market) else takers.onSide market := by
  unfold MarketTakers.insert
  cases market with
  | bid => cases side u <;> rfl
  | ask => cases side u <;> rfl

theorem MarketTakers.onSide_remove (u : T) (market : Side) :
    (takers.remove u).onSide market = if market = side u then BTreeSet.remove u (takers.onSide market) else takers.onSide market := by
  unfold MarketTakers.remove
  cases market with
  | bid => cases side u <;> rfl
  | ask => cases side u <;> rfl

end Sides

section Steps
variable {T U : Type} [Ord T] [MarketTaker T U] [TakerBehaviour T] (one : OneTaker T)
variable {takers : MarketTakers T} {chronology : Chronology T} {held here : T → Prop} {t u : T}
include one

theorem OneTaker.due_congr (alike : compare t u = .eq) : chronology.Due t ↔ chronology.Due u := by
  unfold Chronology.Due
  rw [one.sameBounds t u alike]

variable [Std.TransOrd T]

theorem MarketTakers.Placed.insert (placed : takers.Placed here) (u : T) :
    (takers.insert u).Placed (fun t => compare t u = .eq ∨ here t) := by
  refine ⟨sorted_iff.mpr (fun market => ?_),fun t => ?_⟩
  · have sorted := sorted_iff.mp placed.sorted market
    rw [onSide_insert]
    split
    · exact sorted.insert u
    · exact sorted
  · rw [← placed.has t,Has,onSide_insert]
    split
    · exact BTreeSet.holds_insert
    · rename_i different
      have apart : compare t u ≠ .eq := fun same => different (one.sameSide t u same)
      simp [apart,Has]

theorem MarketTakers.Placed.remove (placed : takers.Placed here) (u : T) :
    (takers.remove u).Placed (fun t => compare t u ≠ .eq ∧ here t) := by
  have sorted := sorted_iff.mp placed.sorted
  refine ⟨sorted_iff.mpr (fun market => ?_),fun t => ?_⟩
  · rw [onSide_remove]
    split
    · exact (sorted market).sublist (BTreeSet.remove_sublist u _)
    · exact sorted market
  · rw [← placed.has t,Has,onSide_remove]
    split
    · exact BTreeSet.holds_remove (sorted _)
    · rename_i different
      have apart : compare t u ≠ .eq := fun same => different (one.sameSide t u same)
      simp [apart,Has]

theorem Chronology.Kept.add (kept : chronology.Kept held) (u : T) :
    (chronology.addFragment u).Kept (fun t => compare t u = .eq ∨ held t) := by
  by_cases due : chronology.Due u
  · rw [addFragment_due due]
    refine ⟨(kept.active.insert one u).congr (fun t => ?_),fun time => (kept.slots time).congr (fun t => ?_)⟩
    · have alike : compare t u = .eq → chronology.Due t := fun same => (one.due_congr same).mpr due
      tauto
    · have apart : (timeBounds t).lowerBound = some time → chronology.timeNow < time → compare t u ≠ .eq := by
        intro bounded later same
        exact Nat.not_lt.mpr ((one.due_congr same).mpr due time bounded) later
      grind
  · obtain ⟨lower,bounded,later⟩ := not_due.mp due
    obtain ⟨now,active,slots⟩ := addFragment_later bounded later
    have sameDue : ∀ t, (chronology.addFragment u).Due t ↔ chronology.Due t := fun t => by rw [Due,Due,now]
    constructor
    · rw [active]
      refine kept.active.congr (fun t => ?_)
      have apart : chronology.Due t → compare t u ≠ .eq := fun early same => due ((one.due_congr same).mp early)
      rw [sameDue]
      tauto
    · intro time
      rw [slots,now]
      have bound : ∀ t, compare t u = .eq → (timeBounds t).lowerBound = some lower := fun t same => by rw [one.sameBounds t u same,bounded]
      split
      · rename_i same
        subst time
        refine ((kept.slots lower).insert one u).congr (fun t => ?_)
        have := bound t
        tauto
      · rename_i different
        refine (kept.slots time).congr (fun t => ?_)
        grind

theorem Chronology.Kept.remove (kept : chronology.Kept held) (u : T) :
    (chronology.removeFragment u).Kept (fun t => compare t u ≠ .eq ∧ held t) := by
  by_cases due : chronology.Due u
  · rw [removeFragment_due due]
    refine ⟨(kept.active.remove one u).congr (fun t => and_assoc.symm),fun time => (kept.slots time).congr (fun t => ?_)⟩
    have apart : (timeBounds t).lowerBound = some time → chronology.timeNow < time → compare t u ≠ .eq := by
      intro bounded later same
      exact Nat.not_lt.mpr ((one.due_congr same).mpr due time bounded) later
    grind
  · obtain ⟨lower,bounded,later⟩ := not_due.mp due
    obtain ⟨now,active,slots⟩ := removeFragment_later bounded later
    constructor
    · rw [active]
      refine kept.active.congr (fun t => ?_)
      have apart : chronology.Due t → compare t u ≠ .eq := fun early same => due ((one.due_congr same).mp early)
      have sameDue : (chronology.removeFragment u).Due t ↔ chronology.Due t := by rw [Due,Due,now]
      rw [sameDue]
      tauto
    · intro time
      rw [slots,now]
      split
      · rename_i same
        subst time
        exact ((kept.slots lower).remove one u).congr (fun t => and_assoc.symm)
      · rename_i different
        refine (kept.slots time).congr (fun t => ?_)
        grind

theorem OneTaker.holds_updated (set : List T) (time : Nat) (t : T) :
    Holds (set.filterMap (fun t => match withUpdatedTime t time with | .succ t => some t | .term _ => none)) t ↔
      Holds set t ∧ expires t time = false := by
  constructor
  · rintro ⟨x,member,alike⟩
    obtain ⟨y,inside,updated⟩ := List.mem_filterMap.mp member
    cases result : withUpdatedTime y time with
    | term ended => rw [result] at updated; cases updated
    | succ z =>
      rw [result] at updated
      cases updated
      have same : compare t y = .eq := Std.TransCmp.eq_trans alike (Std.OrientedCmp.eq_symm (one.renewed y x time result))
      refine ⟨⟨y,inside,same⟩,?_⟩
      rw [one.sameExpiry t y time same]
      unfold expires
      rw [result]
  · rintro ⟨⟨y,inside,same⟩,stays⟩
    rw [one.sameExpiry t y time same,expires] at stays
    cases result : withUpdatedTime y time with
    | term ended => rw [result] at stays; cases stays
    | succ z =>
      refine ⟨z,List.mem_filterMap.mpr ⟨y,inside,by rw [result]⟩,?_⟩
      exact Std.TransCmp.eq_trans same (one.renewed y z time result)

theorem OneTaker.active_advance (chronology : Chronology T) (time : Nat) (t : T) :
    (chronology.advanceClocks time).Active t ↔ (chronology.Active t ∧ expires t time = false) ∨ (chronology.slotAt time).Has t := by
  unfold Chronology.Active MarketTakers.Has
  cases side t with
  | bid => exact (BTreeSet.holds_foldl _).trans (or_congr (one.holds_updated _ time t) Iff.rfl)
  | ask => exact (BTreeSet.holds_foldl _).trans (or_congr (one.holds_updated _ time t) Iff.rfl)

theorem Chronology.Kept.advance (kept : chronology.Kept held) (forward : chronology.timeNow ≤ time)
    (noneMissed : ¬chronology.Misses held time) : (chronology.advanceClocks time).Kept held := by
  have onTime : ∀ t lower, held t → (timeBounds t).lowerBound = some lower → lower ≤ chronology.timeNow ∨ time ≤ lower := by
    intro t lower isHeld bounded
    by_contra inside
    exact noneMissed ⟨t,isHeld,.inl ⟨lower,bounded,by omega,by omega⟩⟩
  have stays : ∀ t, held t → chronology.Due t → expires t time = false := by
    intro t isHeld due
    refine Bool.eq_false_iff.mpr (fun expired => ?_)
    exact noneMissed ⟨t,isHeld,.inr ⟨due,expired⟩⟩
  constructor
  · refine ⟨⟨(kept.slots time).sorted.asks.foldl _,(kept.slots time).sorted.bids.foldl _⟩,fun t => ?_⟩
    refine (one.active_advance chronology time t).trans ?_
    rw [(kept.slots time).has,Active,kept.active.has]
    constructor
    · rintro (⟨⟨isHeld,due⟩,_⟩ | ⟨isHeld,bounded,_⟩)
      · exact ⟨isHeld,fun lower bounded => Nat.le_trans (due lower bounded) forward⟩
      · refine ⟨isHeld,fun lower other => ?_⟩
        rw [bounded] at other
        exact Nat.le_of_eq (Option.some.inj other).symm
    · rintro ⟨isHeld,due⟩
      by_cases early : chronology.Due t
      · grind
      · obtain ⟨lower,bounded,later⟩ := not_due.mp early
        have upper : lower ≤ time := due lower bounded
        grind
  · intro other
    have slot : (chronology.advanceClocks time).slotAt other = if other = time then .new else chronology.slotAt other := by
      unfold slotAt advanceClocks
      grind
    change MarketTakers.Placed _ (fun t => held t ∧ (timeBounds t).lowerBound = some other ∧ time < other)
    rw [slot]
    split
    · rename_i same
      exact MarketTakers.placed_new (fun t placed => Nat.ne_of_gt placed.2.2 same)
    · rename_i different
      refine (kept.slots other).congr (fun t => ?_)
      grind

theorem Chronology.Kept.missed (kept : chronology.Kept held) (forward : chronology.timeNow ≤ time)
    (missed : chronology.Misses held time) : ¬(chronology.advanceClocks time).Timely held := by
  intro timely
  obtain ⟨t,isHeld,why⟩ := missed
  have due : (chronology.advanceClocks time).Due t := by
    intro lower bounded
    rcases why with ⟨_,other,_,before⟩ | ⟨early,_⟩
    · rw [bounded] at other
      cases other
      exact Nat.le_of_lt before
    · exact Nat.le_trans (early lower bounded) forward
  rcases (one.active_advance chronology time t).mp ((timely t isHeld).mpr due) with ⟨active,stays⟩ | slot
  · have early := ((kept.active.has t).mp active).2
    rcases why with ⟨lower,bounded,later,_⟩ | ⟨_,expired⟩
    · exact Nat.not_lt.mpr (early lower bounded) later
    grind
  · obtain ⟨_,exact',later⟩ := ((kept.slots time).has t).mp slot
    rcases why with ⟨lower,bounded,_,before⟩ | ⟨early,_⟩
    · grind
    · exact Nat.not_lt.mpr (early time exact') later

end Steps

section Runs
variable {T U : Type} [Ord T] [MarketTaker T U] [TakerBehaviour T] {ops : List (ClockOp T)}

theorem clockAfter_append (start : Nat) (ops : List (ClockOp T)) (op : ClockOp T) :
    clockAfter start (ops ++ [op]) = op.apply (clockAfter start ops) := List.foldl_concat ..

omit [MarketTaker T U] [TakerBehaviour T] in
theorem heldAfter_append (ops : List (ClockOp T)) (op : ClockOp T) : heldAfter (ops ++ [op]) = op.held (heldAfter ops) :=
  List.foldl_concat ..

variable [Std.TransOrd T] (one : OneTaker T)
include one

theorem kept_after (forward : Forward start ops) (noneMissed : NoneMissed start ops) :
    (clockAfter start ops).Kept (heldAfter ops) := by
  induction ops using List.reverseRecOn with
  | nil =>
    exact ⟨MarketTakers.placed_new (fun t held => held.1),fun time => MarketTakers.placed_new (fun t held => held.1)⟩
  | append_singleton ops op ih =>
    have shorter : ∀ before, before <+: ops → before <+: ops ++ [op] := fun before inside => inside.trans (List.prefix_append ops [op])
    have kept := ih (fun before time inside => forward before time (shorter _ inside))
      (fun before time inside => noneMissed before time (shorter _ inside))
    rw [clockAfter_append,heldAfter_append]
    cases op with
    | add t => exact kept.add one t
    | remove t => exact kept.remove one t
    | advance time => exact kept.advance one (forward ops time (List.prefix_refl _)) (noneMissed ops time (List.prefix_refl _))

theorem active_on_time_iff (forward : Forward start ops) : OnTime start ops ↔ NoneMissed start ops := by
  have shorter : ∀ before, before <+: ops → Forward start before := by
    intro before inside earlier time advanced
    exact forward earlier time (advanced.trans inside)
  constructor
  · -- by the length of the run: up to the first jump that misses a taker nothing is misplaced
    intro onTime before
    induction length : before.length using Nat.strong_induction_on generalizing before with
    | _ n ih =>
      intro time inside missed
      have start' : before <+: ops := (List.prefix_append before [.advance time]).trans inside
      have careful : NoneMissed start before := by
        intro earlier time' advanced
        refine ih earlier.length ?_ earlier rfl time' (advanced.trans start')
        have := advanced.length_le
        simp at this
        omega
      have kept := kept_after one (shorter before start') careful
      refine kept.missed one (forward before time inside) missed ?_
      have timely := onTime.timely _ inside
      rw [clockAfter_append,heldAfter_append] at timely
      exact timely
  · intro noneMissed
    have kept : ∀ before, before <+: ops → (clockAfter start before).Kept (heldAfter before) := by
      intro before inside
      exact kept_after one (shorter before inside) (fun earlier time advanced => noneMissed earlier time (advanced.trans inside))
    refine ⟨fun before inside => (kept before inside).timely,fun before t inside => (kept _ inside).absent ?_⟩
    rw [heldAfter_append]
    exact fun isHeld => isHeld.1 Std.ReflCmp.compare_self

end Runs

section
set_option linter.unusedVariables false

-- An order that opens at a time of its own.
structure TimedOrder where
  opens : Nat

instance : Ord TimedOrder := ⟨fun a b => compare a.opens b.opens⟩

instance : Std.TransOrd TimedOrder where
  eq_swap := Nat.instTransOrd.eq_swap
  isLE_trans := Nat.instTransOrd.isLE_trans

instance : MarketTaker TimedOrder Unit where
  side _ := .ask
  input _ := 1
  output _ := 0
  price _ := 1
  operatorFee _ _ := 0
  fee _ := 0
  budget _ := 0
  consumableBudget _ := 0
  marginalCostHint _ := ()
  minMarginalOutput _ := 1
  timeBounds order := .after order.opens

instance : TakerBehaviour TimedOrder where
  withUpdatedTime order _ := .succ order
  withAppliedTrade order _ _ := .succ order
  withBudgetCorrected order _ := (0,order)
  withFeeCharged order _ := order
  withOutputAdded order _ := order
  tryTerminate order := .succ order

theorem timedOrder_one : OneTaker TimedOrder where
  sameSide _ _ _ := rfl
  sameBounds t u alike := congrArg TimeBounds.after (Nat.compare_eq_eq.mp alike)
  sameExpiry _ _ _ _ := rfl
  renewed t u time updated := by
    cases updated
    exact Std.ReflCmp.compare_self

end

-- The clock jumps from 0 over the opening time 5 to 7.
def jumped : List (ClockOp TimedOrder) := [.add ⟨5⟩,.advance 7,.remove ⟨5⟩]

theorem single_jump {before : List (ClockOp TimedOrder)} {time jump : Nat}
    (inside : before ++ [.advance time] <+: [.add ⟨5⟩,.advance jump,.remove ⟨5⟩]) : before = [.add ⟨5⟩] ∧ time = jump := by
  obtain ⟨after,whole⟩ := inside
  match before with
  | [] => simp at whole
  | [_] => simp_all
  | [_,_] => simp at whole
  | _ :: _ :: _ :: _ => simp at whole

theorem activation_skipped : Forward 0 jumped ∧ ¬OnTime 0 jumped ∧
    heldAfter (jumped.take 2) ⟨5⟩ ∧ (clockAfter 0 (jumped.take 2)).Due ⟨5⟩ ∧ ¬(clockAfter 0 (jumped.take 2)).Active ⟨5⟩ ∧
    (clockAfter 0 jumped).Inactive ⟨5⟩ := by
  have isHeld : heldAfter (jumped.take 2) ⟨5⟩ := .inl rfl
  have due : (clockAfter 0 (jumped.take 2)).Due ⟨5⟩ := by
    intro lower bounded
    cases bounded
    decide
  have idle : ¬(clockAfter 0 (jumped.take 2)).Active ⟨5⟩ := by
    rintro ⟨x,member,_⟩
    cases member
  refine ⟨?_,?_,isHeld,due,idle,5,⟨5⟩,.head _,rfl⟩
  · intro before time inside
    obtain ⟨rfl,rfl⟩ := single_jump inside
    decide
  · intro onTime
    exact idle ((onTime.timely _ (List.take_prefix 2 jumped) ⟨5⟩ isHeld).mpr due)

theorem activation_in_time : OnTime 0 ([.add ⟨5⟩,.advance 5,.remove ⟨5⟩] : List (ClockOp TimedOrder)) := by
  refine (active_on_time_iff timedOrder_one ?_).mpr ?_
  · intro before time inside
    obtain ⟨rfl,rfl⟩ := single_jump inside
    decide
  · intro before time inside
    obtain ⟨rfl,rfl⟩ := single_jump inside
    rintro ⟨t,isHeld,⟨lower,bounded,later,early⟩ | ⟨_,expired⟩⟩
    · rcases isHeld with alike | never
      · cases bounded
        exact Nat.ne_of_lt early (Nat.compare_eq_eq.mp alike)
      · exact never
    · cases expired

end GreenAgent.Book
