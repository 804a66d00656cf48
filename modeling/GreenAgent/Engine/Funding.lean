import GreenAgent.Engine.Poll
import GreenAgent.Engine.Unspent
import GreenAgent.Book.Clock

namespace GreenAgent.Engine
open Book (Ascending BTreeSet.insert BTreeSet.remove)

class Has (B : Type) (V : outParam Type) where
  select : B → V

-- How a transaction deals with the funding it was given.
inductive FundingIo (B : Type) where
  | replaced (old new : B)
  | added (unused new : B)
  | notUsed (unused : B)

def FundingIo.intoEffects : FundingIo B → Option B × List (FundingEvent B)
  | .replaced old new => (none,[.consumed old,.produced new])
  | .added unused new => (some unused,[.produced new])
  | .notUsed unused => (some unused,[])

section
variable {B V : Type} [Ord B] [Ord V] [DecidableEq V] [Has B V]

def popFirst : List B → Option (B × List B)
  | [] => none
  | first :: rest => some (first,rest)

-- The versions are the elements of a set; two of them are sorted.
def popPreferredFunding (fundingPool : List B) : List V → Option (B × List B)
  | [a,b] =>
    let lower := if compare b a = .lt then b else a
    let upper := if compare b a = .lt then a else b
    match fundingPool.find? (fun funding => compare lower (Has.select funding) = .lt && compare (Has.select funding) upper = .lt) with
    | some candidate => some (candidate,BTreeSet.remove candidate fundingPool)
    | none => popFirst fundingPool
  | _ => popFirst fundingPool

def onFundingEvent (fundingPool : List B) : FundingEvent B → List B
  | .consumed funding => BTreeSet.remove funding fundingPool
  | .produced funding => BTreeSet.insert funding fundingPool

def producedBy : FundingEvent B → Option B
  | .consumed _ => none
  | .produced funding => some funding

def consumedBy : FundingEvent B → Option B
  | .consumed funding => some funding
  | .produced _ => none

def insertAll (fundingPool added : List B) : List B := added.foldl (fun set funding => BTreeSet.insert funding set) fundingPool

-- Effects are popped off the end.
def onFundingEffectsSuccess (fundingPool : List B) (effects : List (FundingEvent B)) : List B :=
  insertAll fundingPool (effects.reverse.filterMap producedBy)

def onFundingEffectsFailure (fundingPool : List B) (missing : Option (List V)) (effects : List (FundingEvent B)) : List B :=
  insertAll fundingPool ((effects.reverse.filterMap consumedBy).filter (fun funding => Has.select funding ∉ missing.getD []))

-- The part of an executor that deals with funding: the pool, and the effects of
-- the transaction that was sent and not answered yet.
structure FundingPart (B : Type) where
  fundingPool : List B
  pending : Option (List (FundingEvent B))

-- What the interpreter of recipes answers for the funding it is given.
inductive FundingUse (B : Type) where
  | replace (new : B)
  | add (new : B)
  | leave

def FundingUse.io (funding : B) : FundingUse B → FundingIo B
  | .replace new => .replaced funding new
  | .add new => .added funding new
  | .leave => .notUsed funding

-- The turns of `poll_next` that concern funding. The stream is not polled again
-- before the answer to its last transaction has been sent, and the answer is
-- looked at first.
inductive FundingStep (B V : Type) where
  | answered (answer : Answer V)
  | event (rolledBack : Bool) (event : FundingEvent B)
  | recipe (consumedVersions : List V) (use : FundingUse B)
  | backlog

namespace FundingPart

def execute (part : FundingPart B) (consumedVersions : List V) (use : FundingUse B) : FundingPart B :=
  match popPreferredFunding part.fundingPool consumedVersions with
  | none => part
  | some (funding,rest) =>
    let (unused,effects) := (use.io funding).intoEffects
    ⟨unused.elim rest (fun unused => BTreeSet.insert unused rest),some effects⟩

def step (part : FundingPart B) (s : FundingStep B V) : Option (FundingPart B) :=
  match s,part.pending with
  | .answered .accepted,some effects => some ⟨onFundingEffectsSuccess part.fundingPool effects,none⟩
  | .answered (.rejected missing),some effects => some ⟨onFundingEffectsFailure part.fundingPool missing effects,none⟩
  | .event _ event,none => some ⟨onFundingEvent part.fundingPool event,none⟩
  | .recipe consumedVersions use,none => some (part.execute consumedVersions use)
  | .backlog,none => some ⟨part.fundingPool,some []⟩
  | _,_ => none

end FundingPart

-- What has become of the accepted transactions: the bearers they consumed that no
-- rollback has brought back, and their events in the order of the chain.
structure Spendings (B : Type) where
  spent : List B
  settled : List (FundingEvent B)

def Spendings.after (past : Spendings B) (part : FundingPart B) : FundingStep B V → Spendings B
  | .answered .accepted =>
    let effects := part.pending.getD []
    ⟨effects.filterMap consumedBy ++ past.spent,past.settled ++ effects⟩
  | .event true (.produced funding) => {past with spent:=past.spent.filter (fun other => compare funding other ≠ .eq)}
  | _ => past

def fundingRun (start : List B) (steps : List (FundingStep B V)) : Option (FundingPart B × Spendings B) :=
  steps.foldlM (fun (state : FundingPart B × Spendings B) s => (state.1.step s).map (fun next => (next,state.2.after state.1 s)))
    (⟨start,none⟩,⟨[],[]⟩)

-- Every turn of a run, with the state it starts from.
def Along (holds : FundingPart B → Spendings B → FundingStep B V → Prop) (start : List B) (steps : List (FundingStep B V)) : Prop :=
  ∀ earlier s later part past,steps = earlier ++ s :: later → fundingRun start earlier = some (part,past) → holds part past s

-- The outputs of an accepted transaction did not exist before.
def NewOutputs (part : FundingPart B) (past : Spendings B) : FundingStep B V → Prop
  | .answered .accepted => ∀ effects,part.pending = some effects → ∀ new,.produced new ∈ effects →
      ¬Book.Holds past.spent new ∧ ∀ old,.consumed old ∈ effects → compare old new ≠ .eq
  | _ => True

@[grind cases eager] structure Legal (start : List B) (steps : List (FundingStep B V)) : Prop where
  runs : (fundingRun start steps).isSome
  fresh : Along NewOutputs start steps

-- No bearer is selected that an accepted transaction has consumed.
def SelectsUnspent (part : FundingPart B) (past : Spendings B) : FundingStep B V → Prop
  | .recipe consumedVersions _ => ∀ funding rest,popPreferredFunding part.fundingPool consumedVersions = some (funding,rest) →
      ¬Book.Holds past.spent funding
  | _ => True

-- The ledger reports an output before a transaction consumes it.
def Timely (_ : FundingPart B) (past : Spendings B) : FundingStep B V → Prop
  | .event false (.produced funding) => ¬Book.Holds past.spent funding
  | _ => True

-- What the executor does by itself, whatever the ledger reports.
def FundingStep.Own : FundingStep B V → Prop
  | .event _ _ => False
  | _ => True

-- Wherever the executor goes on from a point of the run, it selects nothing spent.
def NeverReuses (start : List B) (steps : List (FundingStep B V)) : Prop :=
  ∀ earlier later own,steps = earlier ++ later → (∀ s ∈ own,s.Own) → Legal start (earlier ++ own) → Along SelectsUnspent start (earlier ++ own)

theorem fundingRun_snoc (start : List B) (steps : List (FundingStep B V)) (s : FundingStep B V) : fundingRun start (steps ++ [s]) =
    (fundingRun start steps).bind (fun state => (state.1.step s).map (fun next => (next,state.2.after state.1 s))) := by
  simp [fundingRun,List.foldlM_append]

theorem Along.snoc {holds : FundingPart B → Spendings B → FundingStep B V → Prop} {start : List B} {steps : List (FundingStep B V)} {s : FundingStep B V} :
    Along holds start (steps ++ [s]) ↔ Along holds start steps ∧ ∀ part past,fundingRun start steps = some (part,past) → holds part past s := by
  constructor
  · intro along
    refine ⟨?_,fun part past run => along steps s [] part past rfl run⟩
    rintro earlier t later part past rfl run
    exact along earlier t (later ++ [s]) part past (by simp) run
  · rintro ⟨along,last⟩ earlier t later part past shape run
    rcases List.eq_nil_or_concat later with rfl | ⟨later,end_,rfl⟩
    · obtain ⟨rfl,same⟩ := List.append_inj' shape rfl
      cases same
      exact last part past run
    · rw [List.concat_eq_append,← List.cons_append,← List.append_assoc] at shape
      obtain ⟨rfl,same⟩ := List.append_inj' shape rfl
      exact along earlier t later part past rfl run

theorem Along.earlier {holds : FundingPart B → Spendings B → FundingStep B V → Prop} {start : List B} {earlier later : List (FundingStep B V)}
    (along : Along holds start (earlier ++ later)) : Along holds start earlier := by
  rintro before s after part past rfl run
  exact along before s (after ++ later) part past (by simp) run

theorem Along.own {start : List B} {steps own : List (FundingStep B V)} (timely : Along Timely start steps) (all : ∀ s ∈ own,s.Own) :
    Along Timely start (steps ++ own) := by
  induction own using List.reverseRecOn with
  | nil => rwa [List.append_nil]
  | append_singleton own s ih =>
    rw [← List.append_assoc]
    refine Along.snoc.mpr ⟨ih (fun t member => all t (List.mem_append_left _ member)),fun part past _ => ?_⟩
    have mine := all s (List.mem_append_right own List.mem_cons_self)
    cases s with
    | event => exact mine.elim
    | _ => trivial

theorem Legal.earlier {start : List B} {earlier later : List (FundingStep B V)} (legal : Legal start (earlier ++ later)) : Legal start earlier := by
  refine ⟨?_,legal.fresh.earlier⟩
  have runs := legal.runs
  rw [fundingRun,List.foldlM_append] at runs
  cases known : fundingRun start earlier with
  | none =>
    rw [fundingRun] at known
    rw [known] at runs
    cases runs
  | some => rfl

theorem Legal.snoc {start : List B} {steps : List (FundingStep B V)} {s : FundingStep B V} {part next : FundingPart B} {past : Spendings B}
    (legal : Legal start steps) (run : fundingRun start steps = some (part,past)) (stepped : part.step s = some next) (new : NewOutputs part past s) :
    Legal start (steps ++ [s]) ∧ fundingRun start (steps ++ [s]) = some (next,past.after part s) := by
  have after : fundingRun start (steps ++ [s]) = some (next,past.after part s) := by
    rw [fundingRun_snoc,run,Option.bind_some,stepped]
    rfl
  refine ⟨⟨Option.isSome_of_eq_some after,Along.snoc.mpr ⟨legal.fresh,?_⟩⟩,after⟩
  intro part' past' same
  cases run.symm.trans same
  exact new

end

theorem mem_produced {B : Type} {effects : List (FundingEvent B)} {b : B} (member : b ∈ effects.reverse.filterMap producedBy) : .produced b ∈ effects := by
  obtain ⟨effect,inside,made⟩ := List.mem_filterMap.mp member
  cases effect with
  | consumed => cases made
  | produced =>
    cases made
    exact List.mem_reverse.mp inside

theorem mem_consumed {B : Type} {effects : List (FundingEvent B)} {b : B} : b ∈ effects.filterMap consumedBy ↔ .consumed b ∈ effects := by
  constructor
  · intro member
    obtain ⟨effect,inside,made⟩ := List.mem_filterMap.mp member
    cases effect with
    | consumed =>
      cases made
      exact inside
    | produced => cases made
  · exact fun member => List.mem_filterMap.mpr ⟨_,member,rfl⟩

section
variable {B V : Type} [Ord B] [Std.TransOrd B]

-- No spent bearer is in the pool, nor about to come back into it.
@[grind cases eager] structure OutOfPool (part : FundingPart B) (past : Spendings B) : Prop where
  ascending : Ascending part.fundingPool
  apart : ∀ b,Book.Holds past.spent b → ¬Book.Holds part.fundingPool b
  unanswered : ∀ effects,part.pending = some effects → ∀ b,.consumed b ∈ effects → ¬Book.Holds part.fundingPool b ∧ ¬Book.Holds past.spent b

theorem holds_of_mem {set : List B} {b : B} (member : b ∈ set) : Book.Holds set b := ⟨b,member,Std.ReflCmp.compare_self⟩

theorem Holds.congr {set : List B} {a b : B} (held : Book.Holds set a) (same : compare b a = .eq) : Book.Holds set b := by
  obtain ⟨x,member,alike⟩ := held
  exact ⟨x,member,Std.TransCmp.eq_trans same alike⟩

theorem holds_insertAll {pool added : List B} {b : B} : Book.Holds (insertAll pool added) b ↔ Book.Holds added b ∨ Book.Holds pool b :=
  Book.BTreeSet.holds_foldl added

theorem OutOfPool.accepted {part : FundingPart B} {past : Spendings B} {effects : List (FundingEvent B)} (unspent : OutOfPool part past)
    (pending : part.pending = some effects) (new : ∀ b,.produced b ∈ effects → ¬Book.Holds past.spent b ∧ ∀ old,.consumed old ∈ effects → compare old b ≠ .eq) :
    OutOfPool ⟨onFundingEffectsSuccess part.fundingPool effects,none⟩ ⟨effects.filterMap consumedBy ++ past.spent,settled⟩ := by
  refine ⟨unspent.ascending.foldl _,?_,fun _ none => nomatch none⟩
  intro b spent held
  have split : Book.Holds past.spent b ∨ ∃ old,.consumed old ∈ effects ∧ compare b old = .eq := by
    obtain ⟨x,member,alike⟩ := spent
    rcases List.mem_append.mp member with member | member
    · exact .inr ⟨x,mem_consumed.mp member,alike⟩
    · exact .inl ⟨x,member,alike⟩
  rcases holds_insertAll.mp held with ⟨out,member,same⟩ | held
  · obtain ⟨unseen,apart⟩ := new out (mem_produced member)
    rcases split with spent | ⟨old,inside,alike⟩
    · exact unseen (Holds.congr spent (Std.OrientedCmp.eq_symm same))
    · exact apart old inside (Std.TransCmp.eq_trans (Std.OrientedCmp.eq_symm alike) same)
  · rcases split with spent | ⟨old,inside,alike⟩
    · exact unspent.apart b spent held
    · exact (unspent.unanswered effects pending old inside).1 (Holds.congr held (Std.OrientedCmp.eq_symm alike))

theorem OutOfPool.event {part : FundingPart B} {past : Spendings B} {funding : FundingEvent B} (unspent : OutOfPool part past)
    (timely : Timely part past (.event back funding : FundingStep B V)) :
    OutOfPool ⟨onFundingEvent part.fundingPool funding,none⟩ (past.after part (.event back funding : FundingStep B V)) := by
  cases funding with
  | consumed old =>
    have same : past.after part (.event back (.consumed old) : FundingStep B V) = past := by cases back <;> rfl
    rw [same]
    refine ⟨unspent.ascending.sublist (Book.BTreeSet.remove_sublist old _),?_,fun _ none => nomatch none⟩
    intro b spent held
    exact unspent.apart b spent ((Book.BTreeSet.holds_remove unspent.ascending).mp held).2
  | produced new =>
    refine ⟨unspent.ascending.insert new,?_,fun _ none => nomatch none⟩
    intro b spent held
    cases back with
    | false =>
      rcases Book.BTreeSet.holds_insert.mp held with same | held
      · exact timely (Holds.congr spent (Std.OrientedCmp.eq_symm same))
      · exact unspent.apart b spent held
    | true =>
      -- what the rollback brings back is no longer spent
      obtain ⟨x,member,alike⟩ := spent
      obtain ⟨inside,apart⟩ := List.mem_filter.mp member
      rcases Book.BTreeSet.holds_insert.mp held with same | held
      · exact of_decide_eq_true apart (Std.TransCmp.eq_trans (Std.OrientedCmp.eq_symm same) alike)
      · exact unspent.apart b ⟨x,inside,alike⟩ held

variable [Has B V]

theorem OutOfPool.rejected [DecidableEq V] {part : FundingPart B} {past : Spendings B} {effects : List (FundingEvent B)} (unspent : OutOfPool part past)
    (pending : part.pending = some effects) (missing : Option (List V)) :
    OutOfPool ⟨onFundingEffectsFailure part.fundingPool missing effects,none⟩ past := by
  refine ⟨unspent.ascending.foldl _,?_,fun _ none => nomatch none⟩
  intro b spent held
  rcases holds_insertAll.mp held with ⟨old,member,same⟩ | held
  · have inside := mem_consumed.mp (List.mem_of_mem_filter member)
    exact (unspent.unanswered effects pending old (List.mem_reverse.mp inside)).2 (Holds.congr spent (Std.OrientedCmp.eq_symm same))
  · exact unspent.apart b spent held

variable [Ord V]

theorem popPreferredFunding_some {pool rest : List B} {versions : List V} {b : B} (ascending : Ascending pool)
    (popped : popPreferredFunding pool versions = some (b,rest)) :
    b ∈ pool ∧ Ascending rest ∧ ∀ x,Book.Holds rest x ↔ compare x b ≠ .eq ∧ Book.Holds pool x := by
  have first : popFirst pool = some (b,rest) → b ∈ pool ∧ Ascending rest ∧ ∀ x,Book.Holds rest x ↔ compare x b ≠ .eq ∧ Book.Holds pool x := by
    intro popped
    cases pool with
    | nil => cases popped
    | cons head tail =>
      cases popped
      have removed : BTreeSet.remove b (b :: rest) = rest := by
        simp [BTreeSet.remove]
      refine ⟨List.mem_cons_self,ascending.of_cons,fun x => ?_⟩
      have held := Book.BTreeSet.holds_remove (t := x) (u := b) ascending
      rwa [removed] at held
  unfold popPreferredFunding at popped
  split at popped
  · dsimp only at popped
    split at popped
    · rename_i candidate found
      cases popped
      exact ⟨List.mem_of_find?_eq_some found,ascending.sublist (Book.BTreeSet.remove_sublist b pool),fun x => Book.BTreeSet.holds_remove ascending⟩
    · exact first popped
  · exact first popped

theorem OutOfPool.recipe {part : FundingPart B} {past : Spendings B} (unspent : OutOfPool part past) (versions : List V)
    (use : FundingUse B) : OutOfPool (part.execute versions use) past := by
  unfold FundingPart.execute
  split
  · exact unspent
  · rename_i b rest popped
    obtain ⟨member,ascending,left⟩ := popPreferredFunding_some unspent.ascending popped
    have own := unspent.apart b
    have returned : ∀ effects : List (FundingEvent B),(∀ x,.consumed x ∉ effects) → OutOfPool ⟨BTreeSet.insert b rest,some effects⟩ past := by
      intro effects keeps
      refine ⟨ascending.insert b,?_,fun _ same x inside => by cases same; exact absurd inside (keeps x)⟩
      intro x spent held
      rcases Book.BTreeSet.holds_insert.mp held with same | held
      · exact unspent.apart x spent (Holds.congr (holds_of_mem member) same)
      · exact unspent.apart x spent ((left x).mp held).2
    cases use with
    | replace new =>
      refine ⟨ascending,fun x spent held => unspent.apart x spent ((left x).mp held).2,?_⟩
      intro effects same x inside
      cases same
      have own : x = b := by simpa using inside
      subst own
      exact ⟨fun held => ((left x).mp held).1 Std.ReflCmp.compare_self,fun spent => unspent.apart x spent (holds_of_mem member)⟩
    | add new => exact returned _ (by simp)
    | leave => exact returned _ (by simp)

variable [DecidableEq V]

theorem OutOfPool.step {part next : FundingPart B} {past : Spendings B} {s : FundingStep B V} (out : OutOfPool part past) (stepped : part.step s = some next)
    (new : NewOutputs part past s) (timely : Timely part past s) : OutOfPool next (past.after part s) := by
  unfold FundingPart.step at stepped
  split at stepped
  · rename_i effects pending
    cases stepped
    have accepted : OutOfPool ⟨onFundingEffectsSuccess part.fundingPool effects,none⟩ ⟨effects.filterMap consumedBy ++ past.spent,past.settled ++ effects⟩ :=
      out.accepted pending (new effects pending)
    simpa [Spendings.after,pending] using accepted
  · rename_i missing effects pending
    cases stepped
    exact out.rejected pending missing
  · cases stepped
    exact out.event timely
  · rename_i versions use _
    cases stepped
    exact out.recipe versions use
  · cases stepped
    exact ⟨out.ascending,out.apart,fun _ same _ inside => by cases same; cases inside⟩
  · cases stepped

theorem Legal.outOfPool {start : List B} {steps : List (FundingStep B V)} {part : FundingPart B} {past : Spendings B} (ascending : Ascending start)
    (legal : Legal start steps) (timely : Along Timely start steps) (run : fundingRun start steps = some (part,past)) : OutOfPool part past := by
  induction steps using List.reverseRecOn generalizing part past with
  | nil =>
    cases run
    refine ⟨ascending,?_,fun _ none => nomatch none⟩
    rintro _ ⟨_,member,_⟩
    cases member
  | append_singleton steps s ih =>
    obtain ⟨before,timely⟩ := Along.snoc.mp timely
    obtain ⟨_,new⟩ := Along.snoc.mp legal.fresh
    rw [fundingRun_snoc] at run
    obtain ⟨⟨part,past⟩,earlier,run⟩ := Option.bind_eq_some_iff.mp run
    obtain ⟨next,stepped,made⟩ := Option.map_eq_some_iff.mp run
    cases made
    exact (ih legal.earlier before earlier).step stepped (new part past earlier) (timely part past earlier)

theorem selects_unspent {start : List B} {steps : List (FundingStep B V)} (ascending : Ascending start) (legal : Legal start steps)
    (timely : Along Timely start steps) : Along SelectsUnspent start steps := by
  rintro earlier s later part past rfl run
  have out := legal.earlier.outOfPool ascending timely.earlier run
  cases s with
  | recipe versions use =>
    intro funding rest popped spent
    exact out.apart funding spent (holds_of_mem (popPreferredFunding_some out.ascending popped).1)
  | _ => trivial

-- A spent bearer in the pool is selected once those before it are gone, which
-- the node may find missing.
theorem spent_selected {start pool : List B} {steps : List (FundingStep B V)} {past : Spendings B} {b : B} (legal : Legal start steps)
    (run : fundingRun start steps = some (⟨pool,none⟩,past)) (spent : Book.Holds past.spent b) (held : Book.Holds pool b) :
    ∃ own : List (FundingStep B V),(∀ s ∈ own,s.Own) ∧ Legal start (steps ++ own) ∧ ¬Along SelectsUnspent start (steps ++ own) := by
  induction pool generalizing steps with
  | nil =>
    obtain ⟨_,member,_⟩ := held
    cases member
  | cons first rest ih =>
    by_cases same : compare b first = .eq
    · obtain ⟨longer,_⟩ := legal.snoc (s := .recipe [] .leave) run rfl trivial
      refine ⟨[.recipe [] .leave],by simp [FundingStep.Own],longer,?_⟩
      intro along
      exact (Along.snoc.mp along).2 _ _ run first rest rfl (Holds.congr spent (Std.OrientedCmp.eq_symm same))
    · have executed : (⟨first :: rest,none⟩ : FundingPart B).step (.recipe ([] : List V) (.replace first))
          = some ⟨rest,some [.consumed first,.produced first]⟩ := rfl
      have rejected : (⟨rest,some [.consumed first,.produced first]⟩ : FundingPart B).step (.answered (.rejected (some [Has.select first])) : FundingStep B V)
          = some ⟨rest,none⟩ := by
        simp [FundingPart.step,onFundingEffectsFailure,insertAll,consumedBy,List.filterMap_cons]
      obtain ⟨sent,pending⟩ := legal.snoc run executed trivial
      obtain ⟨answered,left⟩ := sent.snoc pending rejected trivial
      have remains : Book.Holds rest b := by
        obtain ⟨x,member,alike⟩ := held
        rcases List.mem_cons.mp member with rfl | member
        · exact absurd alike same
        · exact ⟨x,member,alike⟩
      obtain ⟨own,all,longer,reused⟩ := ih answered left remains
      refine ⟨.recipe [] (.replace first) :: .answered (.rejected (some [Has.select first])) :: own,?_,?_,?_⟩
      · simpa [FundingStep.Own] using all
      · simpa using longer
      · simpa using reused

theorem funding_reuse_iff {start : List B} {steps : List (FundingStep B V)} (ascending : Ascending start) (legal : Legal start steps) :
    NeverReuses start steps ↔ Along Timely start steps := by
  constructor
  · intro never earlier s later part past shape run
    cases s with
    | event back funding => cases back with
      | true => cases funding <;> trivial
      | false => cases funding with
        | consumed old => trivial
        | produced new =>
          intro spent
          subst shape
          have before : Legal start (earlier ++ [FundingStep.event false (.produced new)]) := by
            rw [← List.singleton_append,← List.append_assoc] at legal
            exact legal.earlier
          have runs := before.runs
          rw [fundingRun_snoc,run] at runs
          cases pending : part.pending with
          | some effects => simp [FundingPart.step,pending] at runs
          | none =>
            have after : fundingRun start (earlier ++ [FundingStep.event false (.produced new)]) = some (⟨BTreeSet.insert new part.fundingPool,none⟩,past) := by
              rw [fundingRun_snoc,run,Option.bind_some]
              simp [FundingPart.step,pending,onFundingEvent,Spendings.after]
            have held : Book.Holds (BTreeSet.insert new part.fundingPool) new := Book.BTreeSet.holds_insert.mpr (.inl Std.ReflCmp.compare_self)
            obtain ⟨own,all,longer,reused⟩ := spent_selected before after spent held
            exact reused (never _ later own (by simp) all longer)
    | _ => trivial
  · rintro timely earlier later own rfl all longer
    exact selects_unspent ascending longer (timely.earlier.own all)

end

-- Outputs known by a number.
namespace NumberedFunding

instance : Has Nat Nat := ⟨id⟩

deriving instance DecidableEq for FundingEvent

def reported : List (FundingStep Nat Nat) → List (FundingEvent Nat)
  | .event false event :: rest => event :: reported rest
  | _ :: rest => reported rest
  | [] => []

-- The ledger reports the events of accepted transactions in their order.
def InChainOrder (start : List Nat) (steps : List (FundingStep Nat Nat)) : Prop :=
  ∀ k ∈ List.range (steps.length+1),
    (fundingRun start (steps.take k)).any (fun run => (reported (steps.take k)).isPrefixOf run.2.settled)

instance (start : List Nat) (steps : List (FundingStep Nat Nat)) : Decidable (InChainOrder start steps) :=
  List.decidableBAll _ _

def twoSent : List (FundingStep Nat Nat) := [.recipe [] (.replace 2),.answered .accepted,.recipe [] (.replace 3),.answered .accepted]

def lateReports : List (FundingStep Nat Nat) := twoSent ++ [FundingStep.event false (.consumed 1),FundingStep.event false (.produced 2)]

def oneByOne : List (FundingStep Nat Nat) :=
  [.recipe [] (.replace 2),.answered .accepted,.event false (.consumed 1),.event false (.produced 2),.recipe [] (.replace 3),.answered .accepted]

instance (set : List Nat) (b : Nat) : Decidable (Book.Holds set b) := inferInstanceAs (Decidable (∃ x ∈ set,compare b x = .eq))

theorem newOutputs_replaced {pool spent : List Nat} {settled : List (FundingEvent Nat)} (unseen : ¬Book.Holds spent new) (apart : compare old new ≠ .eq) :
    NewOutputs ⟨pool,some [.consumed old,.produced new]⟩ ⟨spent,settled⟩ (.answered .accepted : FundingStep Nat Nat) := by
  intro effects same out produced
  cases same
  have own : out = new := by simpa using produced
  subst own
  refine ⟨unseen,fun b consumed => ?_⟩
  have own : b = old := by simpa using consumed
  rwa [own]

theorem nothing_legal (start : List Nat) : Legal start ([] : List (FundingStep Nat Nat)) := by
  refine ⟨rfl,?_⟩
  intro earlier s later part past shape
  simp at shape

theorem sent_accepted {steps : List (FundingStep Nat Nat)} {start rest : List Nat} {past : Spendings Nat} (new : Nat) (legal : Legal start steps)
    (run : fundingRun start steps = some (⟨old :: rest,none⟩,past)) (unseen : ¬Book.Holds past.spent new) (apart : compare old new ≠ .eq) :
    Legal start (steps ++ [FundingStep.recipe [] (.replace new),FundingStep.answered .accepted]) ∧
      fundingRun start (steps ++ [FundingStep.recipe [] (.replace new),FundingStep.answered .accepted])
        = some (⟨BTreeSet.insert new rest,none⟩,⟨old :: past.spent,past.settled ++ [.consumed old,.produced new]⟩) := by
  have executed : (⟨old :: rest,none⟩ : FundingPart Nat).step (.recipe ([] : List Nat) (.replace new))
      = some ⟨rest,some [.consumed old,.produced new]⟩ := rfl
  obtain ⟨sent,pending⟩ := legal.snoc run executed trivial
  have answered := sent.snoc pending rfl (newOutputs_replaced unseen apart)
  rwa [List.append_assoc] at answered

theorem twoSent_legal : Legal [1] twoSent ∧
    fundingRun [1] twoSent = some (⟨[3],none⟩,⟨[2,1],[.consumed 1,.produced 2,.consumed 2,.produced 3]⟩) := by
  obtain ⟨first,run⟩ := sent_accepted 2 (nothing_legal [1]) rfl (by decide) (by decide)
  exact sent_accepted 3 first run (by decide) (by decide)

end NumberedFunding

-- An output is predicted, spent, and then reported: it is taken a second time.
open NumberedFunding in
theorem reported_after_spending : InChainOrder [1] lateReports ∧ Legal [1] (lateReports ++ [FundingStep.recipe [] (.replace 4)]) ∧
    (∃ rest past,fundingRun [1] lateReports = some (⟨2 :: rest,none⟩,past) ∧ .consumed 2 ∈ past.settled) ∧
    ¬Along SelectsUnspent [1] (lateReports ++ [FundingStep.recipe [] (.replace 4)]) := by
  obtain ⟨sent,run⟩ := twoSent_legal
  obtain ⟨removed,run⟩ := sent.snoc (s := .event false (.consumed 1)) run rfl trivial
  obtain ⟨added,run⟩ := removed.snoc (s := .event false (.produced 2)) run rfl trivial
  rw [List.append_assoc] at added run
  obtain ⟨again,_⟩ := added.snoc (s := .recipe [] (.replace 4)) run rfl trivial
  refine ⟨by decide,again,⟨_,_,run,by decide⟩,?_⟩
  intro along
  exact (Along.snoc.mp along).2 _ _ run 2 [3] rfl (by decide)

open NumberedFunding in
theorem reported_before_spending : Legal [1] oneByOne ∧ NeverReuses [1] oneByOne := by
  obtain ⟨sent,run⟩ := sent_accepted 2 (nothing_legal [1]) rfl (by decide) (by decide)
  obtain ⟨removed,run'⟩ := sent.snoc (s := .event false (.consumed 1)) run rfl trivial
  obtain ⟨added,run''⟩ := removed.snoc (s := .event false (.produced 2)) run' rfl trivial
  obtain ⟨legal,_⟩ := sent_accepted 3 added run'' (by decide) (by decide)
  refine ⟨legal,(funding_reuse_iff (List.pairwise_singleton _ _) legal).mpr ?_⟩
  have nothing : Along Timely [1] ([] : List (FundingStep Nat Nat)) := fun earlier s later part past shape => by simp at shape
  have accepted : Along Timely [1] [FundingStep.recipe [] (.replace 2),FundingStep.answered .accepted] := nothing.own (by simp [FundingStep.Own])
  have spent : Along Timely [1] ([FundingStep.recipe [] (.replace 2),FundingStep.answered .accepted] ++ [FundingStep.event false (.consumed 1)]) :=
    Along.snoc.mpr ⟨accepted,fun _ _ _ => trivial⟩
  have reported : Along Timely [1] ([FundingStep.recipe [] (.replace 2),FundingStep.answered .accepted,FundingStep.event false (.consumed 1)]
      ++ [FundingStep.event false (.produced 2)]) := by
    refine Along.snoc.mpr ⟨spent,fun part past same => ?_⟩
    cases run'.symm.trans same
    exact show ¬Book.Holds [1] 2 by decide
  exact reported.own (by simp [FundingStep.Own])

end GreenAgent.Engine
