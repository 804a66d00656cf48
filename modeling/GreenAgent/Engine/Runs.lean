import GreenAgent.Engine.Executor

namespace GreenAgent.Engine
open Book (Stable stableId TLBState HashOrder MarketTaker TakerBehaviour MarketMaker MakerBehavior)

-- What the executor reacts to. It is not polled between the submission of a
-- transaction and the answer to it.
inductive Input (P T M V B : Type) where
  | event (pair : P) (event : Channel (Transition (EvolvingEntity T M V B)))
  | focus (pair : P) (fuel : Nat) (orders : Nat → HashOrder) (funding : Option B)
  | accepted
  | rejected (missingInputs : Option (List V))

section
variable {P S V T M B U X : Type} [DecidableEq P] [DecidableEq S] [DecidableEq V] [Stable T S] [Stable M S] [QuasiPermanent T] [QuasiPermanent M]
  [Ord T] [MarketTaker T U] [TakerBehaviour T] [MarketMaker M T U] [MakerBehavior M T] [Add U] [Zero U] [LT U] [DecidableLT U]

def Executor.step (run : List (Execution T M B) → B → X → Option (List (ExecutionEff (EvolvingEntity T M V B)) × X))
    (exec : Executor P S V T M B U X) (input : Input P T M V B) : Option (Executor P S V T M B U X) :=
  match input,exec.pendingEffects with
  | .event pair event,none => exec.onPairEvent pair event
  | .focus pair fuel orders funding,none => exec.matchmake run fuel orders funding pair
  | .accepted,some effects => Executor.onExecutionEffectsSuccess {exec with pendingEffects:=none} effects
  | .rejected missing,some effects => Executor.onExecutionEffectsFailure {exec with pendingEffects:=none} missing effects
  | _,_ => none

-- The runs whose inputs all meet a condition on the state they come in.
inductive Reached (run : List (Execution T M B) → B → X → Option (List (ExecutionEff (EvolvingEntity T M V B)) × X))
    (meets : Executor P S V T M B U X → Input P T M V B → Prop) : Executor P S V T M B U X → Prop
  | new (time : Nat) (conf : Book.ExecutionConfig U) (context : X) : Reached run meets (.new time conf context)
  | step {exec next : Executor P S V T M B U X} {input : Input P T M V B} (before : Reached run meets exec) (met : meets exec input)
      (taken : exec.step run input = some next) : Reached run meets next

-- No version is brought by two entities.
def Respects (owner : V → S) (exec : Executor P S V T M B U X) : Input P T M V B → Prop
  | .event _ event => owner (version event.update.subject) = stableId event.update.subject
  | .accepted => ∀ effects, exec.pendingEffects = some effects → ∀ effect ∈ effects.pendingEffects,
      owner (version effect.transition.subject) = stableId effect.transition.subject
  | _ => True

end

theorem foldlM_keeps {f : σ → α → Option σ} {list : List α} {start last : σ} {motive : σ → Prop}
    (each : ∀ s a s', a ∈ list → motive s → f s a = some s' → motive s') (holds : motive start) (done : list.foldlM f start = some last) : motive last := by
  induction list generalizing start with
  | nil => grind
  | cons a list ih =>
    rw [List.foldlM_cons] at done
    obtain ⟨middle,first,rest⟩ := Option.bind_eq_some_iff.mp done
    grind

section Updates
variable {P S V T M B U X : Type} [DecidableEq S] [DecidableEq V] [Stable T S] [Stable M S] [QuasiPermanent T] [QuasiPermanent M]
  {owner : V → S} {exec : Executor P S V T M B U X}

theorem updateState_frame (update : Channel (Transition (EvolvingEntity T M V B))) :
    ∃ index filter, (exec.updateState update).1 = {exec with index:=index,skipFilter:=filter} := by
  unfold Executor.updateState
  cases update.update.change with
  | left spent =>
    simp only [Executor.onSpent]
    split
    · exact ⟨_,_,rfl⟩
    · split <;> exact ⟨_,_,rfl⟩
  | right new =>
    simp only [Executor.onState,Executor.observe]
    split
    · split <;> exact ⟨_,_,rfl⟩
    · exact ⟨_,_,rfl⟩
  | both old new =>
    simp only [Executor.onState,Executor.observe]
    split
    · split <;> exact ⟨_,_,rfl⟩
    · exact ⟨_,_,rfl⟩

theorem Owned.observe (owned : Owned owner exec.index) {new : EvolvingEntity T M V B} (own : owner (version new) = stableId new)
    (key : StateKey) (rolledBack : Option V) : Owned owner (exec.observe key rolledBack new).1.index := by
  unfold Executor.observe
  cases rolledBack with
  | none => exact owned.put key own
  | some ver => exact (owned.invalidate ver).put key own

theorem Owned.onState (owned : Owned owner exec.index) {new : EvolvingEntity T M V B} (own : owner (version new) = stableId new)
    (fromLedger fromMempool isRollback : Bool) (rolledBack : Option V) :
    Owned owner (exec.onState fromLedger fromMempool isRollback rolledBack new).1.index := by
  simp only [Executor.onState]
  split
  · split
    · have filtered : Owned owner ({exec with skipFilter:=exec.skipFilter.remove (version new)} : Executor P S V T M B U X).index := owned
      exact filtered.observe own _ rolledBack
    · exact owned.put _ own
  · exact owned.observe own _ rolledBack

theorem Owned.onSpent (owned : Owned owner exec.index) {spent : EvolvingEntity T M V B} (own : owner (version spent) = stableId spent)
    (fromLedger fromMempool : Bool) : Owned owner (exec.onSpent fromLedger fromMempool spent).1.index := by
  simp only [Executor.onSpent]
  split
  · exact owned.put .fallback own
  · split
    · exact owned.invalidate _
    · simp only
      split
      · exact owned.eliminate _
      · exact owned

theorem Owned.updateState (owned : Owned owner exec.index) {update : Channel (Transition (EvolvingEntity T M V B))}
    (own : owner (version update.update.subject) = stableId update.update.subject) : Owned owner (exec.updateState update).1.index := by
  unfold Transition.subject at own
  unfold Executor.updateState
  cases change : update.update.change with
  | left spent =>
    rw [change] at own
    exact owned.onSpent own _ _
  | right new =>
    rw [change] at own
    exact owned.onState own _ _ _ _
  | both old new =>
    rw [change] at own
    exact owned.onState own _ _ _ _

end Updates

section Books
variable {P S V T M B U X : Type} [DecidableEq P] {exec next : Executor P S V T M B U X}

-- Every book is settled, but for the one of a pair that awaits an answer.
def Quiet (busy : Option P) (exec : Executor P S V T M B U X) : Prop :=
  ∀ pair, busy ≠ some pair → ∃ state, exec.multiBook.getMut pair = .idle state

theorem Quiet.any (quiet : Quiet none exec) (busy : Option P) : Quiet busy exec := fun pair _ => quiet pair nofun

theorem getMut_set (books : MultiPair P T S M U) (pair other : P) (book : TLBState T S M) :
    (books.set pair book).getMut other = if other = pair then book else books.getMut other := by
  unfold MultiPair.set MultiPair.getMut
  simp only [HashMap.lookup_insert]
  split
  · rfl
  · rfl

theorem withBook_inv {pair : P} {f : TLBState T S M → Option (TLBState T S M)} (done : exec.withBook pair f = some next) :
    ∃ book, f (exec.multiBook.getMut pair) = some book ∧ next = {exec with multiBook:=exec.multiBook.set pair book} := by
  obtain ⟨book,found,rfl⟩ := Option.map_eq_some_iff.mp done
  exact ⟨book,found,rfl⟩

def Settles (f : TLBState T S M → Option (TLBState T S M)) : Prop := ∀ book next, f book = some next → ∃ state, next = .idle state

theorem Quiet.withBook {pair : P} {f : TLBState T S M → Option (TLBState T S M)} (quiet : Quiet (some pair) exec) (settles : Settles f)
    (done : exec.withBook pair f = some next) : Quiet none next := by
  obtain ⟨book,found,rfl⟩ := withBook_inv done
  intro other _
  simp only
  rw [getMut_set]
  split
  · exact settles _ _ found
  · rename_i apart
    exact quiet other (fun same => apart (Option.some.inj same).symm)

theorem settles_external (f : Book.IdleState T S M → Book.IdleState T S M) : Settles (requiringSettledState f) := by
  intro book next found
  cases book with
  | idle state => exact ⟨_,(Option.some.inj found).symm⟩
  | partialPreview state => cases found
  | preview state => cases found

end Books

section Settling
variable {S T M U : Type} [Ord T] [MarketTaker T U]

theorem settles_rollback : Settles (fun book : TLBState T S M => some (book.rollback .unstash)) := by
  intro book next found
  cases Option.some.inj found
  cases book with
  | idle state => exact ⟨state,rfl⟩
  | partialPreview state => exact ⟨_,rfl⟩
  | preview state => exact ⟨_,rfl⟩

theorem settles_commit : Settles (fun book : TLBState T S M => some book.commit) := by
  intro book next found
  cases Option.some.inj found
  cases book with
  | idle state => exact ⟨state,rfl⟩
  | partialPreview state => exact ⟨_,rfl⟩
  | preview state => exact ⟨_,rfl⟩

theorem settles_replace (old new : T) : Settles (fun book : TLBState T S M => (removeTaker old book).bind (updateTaker new)) := by
  intro book next found
  obtain ⟨middle,_,last⟩ := Option.bind_eq_some_iff.mp found
  exact settles_external _ _ _ last

end Settling

section Steps
variable {P S V T M B U X : Type} [DecidableEq P] [DecidableEq S] [DecidableEq V] [Stable T S] [Stable M S] [QuasiPermanent T] [QuasiPermanent M]
  {owner : V → S} {exec next : Executor P S V T M B U X}

@[grind cases eager] structure Sound (owner : V → S) (busy : Option P) (exec : Executor P S V T M B U X) : Prop where
  owned : Owned owner exec.index
  quiet : Quiet busy exec
  free : exec.pendingEffects = none

theorem Sound.withBook {pair : P} {f : TLBState T S M → Option (TLBState T S M)} (sound : Sound owner (some pair) exec) (settles : Settles f)
    (done : exec.withBook pair f = some next) : Sound owner none next := by
  have quiet := sound.quiet.withBook settles done
  obtain ⟨book,_,rfl⟩ := withBook_inv done
  exact ⟨sound.owned,quiet,sound.free⟩

theorem Sound.busy (sound : Sound owner none exec) (pair : P) : Sound owner (some pair) exec := ⟨sound.owned,sound.quiet.any _,sound.free⟩

variable [Ord T] [MarketTaker T U]

theorem Sound.syncBook {pair : P} {transition : Ior (Snapshot T M V) (Snapshot T M V)} (sound : Sound owner none exec)
    (done : exec.syncBook pair transition = some next) : Sound owner none next := by
  have busy := sound.busy pair
  match transition with
  | .left (.inl o) => exact busy.withBook (settles_external _) done
  | .left (.inr p) => exact busy.withBook (settles_external _) done
  | .both (.inl old) (.inl new) => exact busy.withBook (settles_replace _ _) done
  | .both (.inl old) (.inr new) => exact busy.withBook (settles_external _) done
  | .both (.inr old) (.inr new) => exact busy.withBook (settles_external _) done
  | .both (.inr old) (.inl new) => cases done
  | .right (.inl new) => exact busy.withBook (settles_external _) done
  | .right (.inr new) => exact busy.withBook (settles_external _) done

theorem Sound.syncAny {pair : P} {transition : Option (Ior (Snapshot T M V) (Snapshot T M V))} (sound : Sound owner none exec)
    (done : exec.syncAny pair transition = some next) : Sound owner none next := by
  cases transition with
  | none =>
    obtain rfl := Option.some.inj done
    exact sound
  | some change => exact sound.syncBook done

theorem Sound.event {pair : P} {event : Channel (Transition (EvolvingEntity T M V B))} (sound : Sound owner none exec)
    (own : owner (version event.update.subject) = stableId event.update.subject) (done : exec.onPairEvent pair event = some next) :
    Sound owner none next := by
  have updated : Sound owner none (exec.updateState event).1 := by
    have owned := sound.owned.updateState own
    obtain ⟨index,filter,same⟩ : ∃ index filter, (exec.updateState event).1 = {exec with index:=index,skipFilter:=filter} := updateState_frame event
    rw [same] at owned ⊢
    exact ⟨owned,sound.quiet,sound.free⟩
  exact updated.syncAny done

theorem Sound.effect {pair : P} {effect : ExecutionEff (EvolvingEntity T M V B)} (sound : Sound owner none exec)
    (own : owner (version effect.transition.subject) = stableId effect.transition.subject) (done : Executor.onEffect pair exec effect = some next) :
    Sound owner none next := by
  have filtered : Sound owner none ({exec with skipFilter:=exec.skipFilter.add (version effect.consumed)} : Executor P S V T M B U X) :=
    ⟨sound.owned,sound.quiet,sound.free⟩
  have brought : owner (version (Channel.localTxSubmit effect.transition).update.subject) =
      stableId (Channel.localTxSubmit effect.transition).update.subject := own
  exact filtered.event brought done

theorem Sound.invalidate {pair : P} {ver : V} (sound : Sound owner none exec) (done : exec.invalidateVersion pair ver = some next) :
    Sound owner none next := by
  unfold Executor.invalidateVersion at done
  split at done
  · cases done
  · have less : Sound owner none ({exec with index:=exec.index.invalidateVersion ver} : Executor P S V T M B U X) :=
      ⟨sound.owned.invalidate ver,sound.quiet,sound.free⟩
    exact less.syncAny done

theorem Sound.accepted {effects : ExecutionEffectsByPair P T M V B} (sound : Sound owner (some effects.pair) exec)
    (own : ∀ effect ∈ effects.pendingEffects, owner (version effect.transition.subject) = stableId effect.transition.subject)
    (done : exec.onExecutionEffectsSuccess effects = some next) : Sound owner none next := by
  simp only [Executor.onExecutionEffectsSuccess,Option.bind_eq_bind,Option.bind_eq_some_iff] at done
  obtain ⟨committed,first,rest⟩ := done
  refine foldlM_keeps ?_ (sound.withBook settles_commit first) rest
  intro exec effect next member sound done
  exact sound.effect (own effect (List.mem_reverse.mp member)) done

theorem Sound.rejected {missing : Option (List V)} {effects : ExecutionEffectsByPair P T M V B} (sound : Sound owner (some effects.pair) exec)
    (done : exec.onExecutionEffectsFailure missing effects = some next) : Sound owner none next := by
  simp only [Executor.onExecutionEffectsFailure,Option.bind_eq_bind,Option.bind_eq_some_iff] at done
  obtain ⟨restored,first,rest⟩ := done
  have settled := sound.withBook settles_rollback first
  cases missing with
  | some missing => exact foldlM_keeps (fun _ _ _ _ sound done => sound.invalidate done) settled rest
  | none =>
    refine foldlM_keeps ?_ settled rest
    intro exec order next _ sound done
    exact (sound.busy _).withBook (settles_external _) done

theorem Sound.orphaned {pair : P} {orphans : List (T ⊕ M)} (sound : Sound owner (some pair) exec) (done : exec.onLinkageFailure pair orphans = some next) :
    Sound owner none next := by
  simp only [Executor.onLinkageFailure,Option.bind_eq_bind,Option.bind_eq_some_iff] at done
  obtain ⟨restored,first,rest⟩ := done
  refine foldlM_keeps ?_ (sound.withBook settles_rollback first) rest
  intro exec orphan next _ sound done
  have busy := sound.busy pair
  cases orphan with
  | inl taker => exact busy.withBook (settles_external _) done
  | inr maker => exact busy.withBook (settles_external _) done

end Steps

section Runs
variable {P S V T M B U X : Type} [DecidableEq P] [DecidableEq S] [DecidableEq V] [Stable T S] [Stable M S] [QuasiPermanent T] [QuasiPermanent M]
  {owner : V → S} {exec next : Executor P S V T M B U X}

-- Between a submission and its answer only the book of the submission is in
-- preview.
def Standing (owner : V → S) (exec : Executor P S V T M B U X) : Prop :=
  Sound owner (exec.pendingEffects.map ExecutionEffectsByPair.pair) {exec with pendingEffects:=none}

theorem Sound.standing (sound : Sound owner none exec) : Standing owner exec := by
  unfold Standing
  rw [sound.free]
  exact ⟨sound.owned,sound.quiet,rfl⟩

variable [Ord T] [MarketTaker T U] [TakerBehaviour T] [MarketMaker M T U] [MakerBehavior M T] [Add U] [Zero U] [LT U] [DecidableLT U]
  {run : List (Execution T M B) → B → X → Option (List (ExecutionEff (EvolvingEntity T M V B)) × X)}

omit [QuasiPermanent T] [QuasiPermanent M] in
theorem attemptLoop_idle {steps fuel round : Nat} {conf : Book.ExecutionConfig U} {orders : Nat → HashOrder} {optimized : Bool}
    {state : TLBState T S M} {outcome : Book.Outcome T M S} (ended : Book.attemptLoop steps conf orders fuel round optimized state = some outcome)
    (refused : outcome.recipe = none) : ∃ idle, outcome.state = .idle idle := by
  induction fuel generalizing round optimized state with
  | zero => cases ended
  | succ fuel ih =>
    unfold Book.attemptLoop at ended
    split at ended
    · cases ended
    · split at ended
      · cases ended
        cases refused
      · cases ended
        exact settles_rollback _ _ rfl
      · exact ih ended
      · exact ih ended

theorem Sound.matched {pair : P} {fuel : Nat} {orders : Nat → HashOrder} {funding : Option B} (sound : Sound owner none exec)
    (done : exec.matchmake run fuel orders funding pair = some next) : Standing owner next := by
  unfold Executor.matchmake at done
  simp only [Option.bind_eq_bind,Option.bind_eq_some_iff] at done
  obtain ⟨outcome,ended,rest⟩ := done
  have previewed : Sound owner (some pair) ({exec with multiBook:=exec.multiBook.set pair outcome.state} : Executor P S V T M B U X) := by
    refine ⟨sound.owned,?_,sound.free⟩
    intro other apart
    simp only
    rw [getMut_set,if_neg (fun same => apart (congrArg some same).symm)]
    exact sound.quiet other nofun
  split at rest
  · rename_i refused
    obtain ⟨idle,settled⟩ := attemptLoop_idle ended refused
    obtain rfl := Option.some.inj rest
    refine Sound.standing ⟨sound.owned,?_,sound.free⟩
    intro other _
    simp only
    rw [getMut_set]
    split
    · exact ⟨idle,settled⟩
    · exact sound.quiet other nofun
  · split at rest
    · exact (previewed.orphaned rest).standing
    · split at rest
      · exact (previewed.withBook settles_rollback rest).standing
      · obtain ⟨⟨effects,context⟩,_,given⟩ := Option.bind_eq_some_iff.mp rest
        obtain rfl := Option.some.inj given
        exact ⟨previewed.owned,previewed.quiet,rfl⟩

theorem Standing.step {input : Input P T M V B} (standing : Standing owner exec) (met : Respects owner exec input) (taken : exec.step run input = some next) :
    Standing owner next := by
  unfold Standing at standing
  cases pending : exec.pendingEffects with
  | none =>
    have sound : Sound owner none exec := by
      rw [pending] at standing
      exact ⟨standing.owned,standing.quiet,pending⟩
    cases input with
    | event pair event =>
      simp only [Executor.step,pending] at taken
      exact (sound.event met taken).standing
    | focus pair fuel orders funding =>
      simp only [Executor.step,pending] at taken
      exact sound.matched taken
    | accepted => simp only [Executor.step,pending,reduceCtorEq] at taken
    | rejected missing => simp only [Executor.step,pending,reduceCtorEq] at taken
  | some effects =>
    rw [pending] at standing
    cases input with
    | event pair event => simp only [Executor.step,pending,reduceCtorEq] at taken
    | focus pair fuel orders funding => simp only [Executor.step,pending,reduceCtorEq] at taken
    | accepted =>
      simp only [Executor.step,pending] at taken
      exact (Sound.accepted standing (met effects pending) taken).standing
    | rejected missing =>
      simp only [Executor.step,pending] at taken
      exact (Sound.rejected standing taken).standing

theorem Reached.standing (reached : Reached run (Respects owner) exec) : Standing owner exec := by
  induction reached with
  | new time conf context => exact Sound.standing ⟨owned_new,fun pair _ => ⟨_,rfl⟩,rfl⟩
  | step _ met taken ih => exact ih.step met taken

end Runs
end GreenAgent.Engine
