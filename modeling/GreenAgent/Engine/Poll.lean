import GreenAgent.Engine.Isolation

namespace GreenAgent.Engine
open Book (Stable stableId TLBState HashOrder MarketTaker TakerBehaviour MarketMaker MakerBehavior)

-- The calls that change a book from outside.
inductive BookCall (T M : Type) where
  | updateTaker (t : T)
  | removeTaker (t : T)
  | updateMaker (maker : M)
  | removeMaker (maker : M)

-- What was sent and not answered yet: effects of a recipe, or the new pool and
-- the order of an operation of the backlog.
structure Pending (P T M V B : Type) where
  pair : P
  consumedVersions : List V
  effects : List (ExecutionEff (EvolvingEntity T M V B)) ⊕ (EvolvingEntity T M V B × V)

inductive Answer (V : Type) where
  | accepted
  | rejected (missingInputs : Option (List V))

-- The work of a poll in pieces that touch a book once at most.
inductive Task (P T M V B : Type) where
  | call (pair : P) (change : BookCall T M)
  | commit (pair : P)
  | rollback (pair : P)
  | event (pair : P) (update : Channel (Transition (EvolvingEntity T M V B)))
  | effect (pair : P) (eff : ExecutionEff (EvolvingEntity T M V B))
  | adopt (pool : EvolvingEntity T M V B) (order : V)
  | invalidate (pair : P) (versions : List V) (strict unknown : Bool)

-- Where `poll_next` is: not polled, or at one of the sources it looks at.
inductive Stage (P : Type) where
  | parked
  | feedback
  | upstream
  | funding
  | blocker
  | matchmaking
  | backlog (pair : P)

-- `execution_part_stream`. Whatever is pending is kept here and not in the field
-- of the executor. The focus set, the funding pool, the beacons and the backlogs
-- are left open: any pair may come next, with or without funding.
structure ExecutionPart (P S V T M B U X : Type) where
  exec : Executor P S V T M B U X
  pending : Option (Pending P T M V B)
  feedback : List (Answer V)
  submitting : Bool
  stage : Stage P
  agenda : List (Task P T M V B)

section
variable {P S V T M B U X : Type} [DecidableEq P] [DecidableEq S] [DecidableEq V] [Stable T S] [Stable M S] [QuasiPermanent T] [QuasiPermanent M]
  [Ord T] [MarketTaker T U] [TakerBehaviour T]

def BookCall.apply : BookCall T M → TLBState T S M → Option (TLBState T S M)
  | .updateTaker t => Engine.updateTaker t
  | .removeTaker t => Engine.removeTaker t
  | .updateMaker maker => Engine.updateMaker maker
  | .removeMaker maker => Engine.removeMaker maker

-- The calls of `sync_book`, one after another; `none` for its `unreachable!`.
def bookCalls : Ior (Snapshot T M V) (Snapshot T M V) → Option (List (BookCall T M))
  | .left (.inl o) => some [.removeTaker o.entity]
  | .left (.inr p) => some [.removeMaker p.entity]
  | .both (.inl old) (.inl new) => some [.removeTaker old.entity,.updateTaker new.entity]
  | .both _ (.inr new) => some [.updateMaker new.entity]
  | .both (.inr _) (.inl _) => none
  | .right (.inl new) => some [.updateTaker new.entity]
  | .right (.inr new) => some [.updateMaker new.entity]

def syncTasks (pair : P) : Option (Ior (Snapshot T M V) (Snapshot T M V)) → Option (List (Task P T M V B))
  | none => some []
  | some transition => (bookCalls transition).map (fun calls => calls.map (.call pair))

-- The executor after the task, and what the task leaves to do next; `none` where
-- the source panics.
def Task.run (exec : Executor P S V T M B U X) : Task P T M V B → Option (Executor P S V T M B U X × List (Task P T M V B))
  | .call pair change => (exec.withBook pair change.apply).map (fun exec => (exec,[]))
  | .commit pair => (exec.withBook pair (fun book => some book.commit)).map (fun exec => (exec,[]))
  | .rollback pair => (exec.withBook pair (fun book => some (book.rollback .unstash))).map (fun exec => (exec,[]))
  | .event pair update => (syncTasks pair (exec.updateState update).2).map (fun tasks => ((exec.updateState update).1,tasks))
  | .effect pair eff =>
    let exec := {exec with skipFilter:=exec.skipFilter.add (version eff.consumed)}
    (syncTasks pair (exec.updateState (.localTxSubmit eff.transition)).2).map (fun tasks =>
      ((exec.updateState (.localTxSubmit eff.transition)).1,tasks))
  | .adopt pool order =>
    let exec := {exec with skipFilter:=exec.skipFilter.add order}
    some ((exec.updateState (.localTxSubmit (.forward (.right pool)))).1,[])
  | .invalidate _ [] strict unknown => if strict && unknown then none else some (exec,[])
  | .invalidate pair (ver :: versions) strict unknown => match exec.index.getState ver with
    | none => some (exec,[.invalidate pair versions strict true])
    | some state =>
      let index := exec.index.invalidateVersion ver
      (syncTasks pair (toTransition (resolveState (stableId state) exec.index) (resolveState (stableId state) index))).map (fun tasks =>
        ({exec with index:=index},tasks ++ [.invalidate pair versions strict unknown]))

-- What the answer to a transaction leads to.
def aftermath (pending : Pending P T M V B) : Answer V → List (Task P T M V B)
  | .accepted => match pending.effects with
    | .inl effects => .commit pending.pair :: effects.reverse.map (.effect pending.pair)
    | .inr (pool,order) => [.adopt pool order]
  | .rejected (some missing) =>
    let relevant := missing.filter (fun ver => ver ∈ pending.consumedVersions)
    match pending.effects with
    | .inl _ => [.rollback pending.pair,.invalidate pending.pair relevant true false]
    | .inr _ => [.invalidate pending.pair relevant false false]
  | .rejected none => match pending.effects with
    | .inl effects => .rollback pending.pair :: (Executor.poisonous effects).map (fun order => .call pending.pair (.removeTaker order))
    | .inr _ => []

def orphanCall : T ⊕ M → BookCall T M
  | .inl taker => .removeTaker taker
  | .inr maker => .removeMaker maker

def ExecutionPart.new (time : Nat) (conf : Book.ExecutionConfig U) (context : X) : ExecutionPart P S V T M B U X :=
  ⟨.new time conf context,none,[],false,.parked,[]⟩

variable [MarketMaker M T U] [MakerBehavior M T] [Add U] [Zero U] [LT U] [DecidableLT U]

-- The steps of the stream, those of `poll_next` in the order of its loop. It is
-- polled again when the answer to the last transaction has been sent.
inductive Polls (run : List (Execution T M B) → B → X → Option (List (ExecutionEff (EvolvingEntity T M V B)) × X)) :
    ExecutionPart P S V T M B U X → ExecutionPart P S V T M B U X → Prop where
  | polled : Polls run ⟨exec,pending,feedback,false,.parked,[]⟩ ⟨exec,pending,feedback,false,.feedback,[]⟩
  | sent : Polls run ⟨exec,pending,feedback,true,stage,agenda⟩ ⟨exec,pending,feedback ++ [answer],false,stage,agenda⟩
  | task (done : task.run exec = some (exec',tasks)) :
      Polls run ⟨exec,pending,feedback,submitting,stage,task :: agenda⟩ ⟨exec',pending,feedback,submitting,stage,tasks ++ agenda⟩
  | free : Polls run ⟨exec,none,feedback,submitting,.feedback,[]⟩ ⟨exec,none,feedback,submitting,.upstream,[]⟩
  | unanswered : Polls run ⟨exec,some pending,[],submitting,.feedback,[]⟩ ⟨exec,some pending,[],submitting,.upstream,[]⟩
  | answered : Polls run ⟨exec,some pending,answer :: feedback,submitting,.feedback,[]⟩
      ⟨exec,none,feedback,submitting,.upstream,aftermath pending answer⟩
  | bookEvent : Polls run ⟨exec,pending,feedback,submitting,.upstream,[]⟩ ⟨exec,pending,feedback,submitting,.feedback,[.event pair event]⟩
  | backlogEvent : Polls run ⟨exec,pending,feedback,submitting,.upstream,[]⟩ ⟨exec,pending,feedback,submitting,.feedback,[]⟩
  | noEvent : Polls run ⟨exec,pending,feedback,submitting,.upstream,[]⟩ ⟨exec,pending,feedback,submitting,.funding,[]⟩
  | fundingEvent : Polls run ⟨exec,pending,feedback,submitting,.funding,[]⟩ ⟨exec,pending,feedback,submitting,.feedback,[]⟩
  | noFundingEvent : Polls run ⟨exec,pending,feedback,submitting,.funding,[]⟩ ⟨exec,pending,feedback,submitting,.blocker,[]⟩
  | blocked : Polls run ⟨exec,pending,feedback,submitting,.blocker,[]⟩ ⟨exec,pending,feedback,submitting,.parked,[]⟩
  | blockerChanged : Polls run ⟨exec,pending,feedback,submitting,.blocker,[]⟩ ⟨exec,pending,feedback,submitting,.feedback,[]⟩
  | synced : Polls run ⟨exec,pending,feedback,submitting,.blocker,[]⟩ ⟨exec,pending,feedback,submitting,.matchmaking,[]⟩
  | exhausted : Polls run ⟨exec,pending,feedback,submitting,.matchmaking,[]⟩ ⟨exec,pending,feedback,submitting,.parked,[]⟩
  | unmatched (tried : Book.attempt fuel exec.multiBook.context.conf orders (exec.multiBook.getMut pair) = some outcome) (none_found : outcome.recipe = none) :
      Polls run ⟨exec,pending,feedback,submitting,.matchmaking,[]⟩
        ⟨{exec with multiBook:=exec.multiBook.set pair outcome.state},pending,feedback,submitting,.backlog pair,[]⟩
  | orphaned (tried : Book.attempt fuel exec.multiBook.context.conf orders (exec.multiBook.getMut pair) = some outcome) (found : outcome.recipe = some recipe)
      (unlinked : exec.link recipe = .error orphans) :
      Polls run ⟨exec,pending,feedback,submitting,.matchmaking,[]⟩
        ⟨{exec with multiBook:=exec.multiBook.set pair outcome.state},pending,feedback,submitting,.backlog pair,
          .rollback pair :: orphans.map (fun orphan => .call pair (orphanCall orphan))⟩
  | unfunded (tried : Book.attempt fuel exec.multiBook.context.conf orders (exec.multiBook.getMut pair) = some outcome) (found : outcome.recipe = some recipe)
      (linked : exec.link recipe = .ok (executions,consumed)) :
      Polls run ⟨exec,pending,feedback,submitting,.matchmaking,[]⟩
        ⟨{exec with multiBook:=exec.multiBook.set pair outcome.state},pending,feedback,submitting,.backlog pair,[.rollback pair]⟩
  | emitted (tried : Book.attempt fuel exec.multiBook.context.conf orders (exec.multiBook.getMut pair) = some outcome) (found : outcome.recipe = some recipe)
      (linked : exec.link recipe = .ok (executions,consumed)) (interpreted : run executions funding exec.context = some (effects,context)) :
      Polls run ⟨exec,pending,feedback,submitting,.matchmaking,[]⟩
        ⟨{exec with multiBook:=exec.multiBook.set pair outcome.state,context:=context},some ⟨pair,consumed,.inl effects⟩,feedback,true,.parked,[]⟩
  | noOrder : Polls run ⟨exec,pending,feedback,submitting,.backlog pair,[]⟩ ⟨exec,pending,feedback,submitting,.matchmaking,[]⟩
  | specialized : Polls run ⟨exec,pending,feedback,submitting,.backlog pair,[]⟩
      ⟨exec,some ⟨pair,consumed,.inr (pool,order)⟩,feedback,true,.parked,[]⟩

inductive Polled (run : List (Execution T M B) → B → X → Option (List (ExecutionEff (EvolvingEntity T M V B)) × X)) :
    ExecutionPart P S V T M B U X → Prop where
  | new (time : Nat) (conf : Book.ExecutionConfig U) (context : X) : Polled run (.new time conf context)
  | step {part next : ExecutionPart P S V T M B U X} (before : Polled run part) (step : Polls run part next) : Polled run next

end

-- The pieces are those of the executor's own functions: `sync_book` is its
-- calls, and an event or an effect is done when its calls are.
section Pieces
variable {P S V T M B U X : Type} [DecidableEq P]

theorem withBook_twice (exec : Executor P S V T M B U X) (pair : P) (f g : TLBState T S M → Option (TLBState T S M)) :
    (exec.withBook pair f).bind (fun exec => exec.withBook pair g) = exec.withBook pair (fun book => (f book).bind g) := by
  unfold Executor.withBook
  cases found : f (exec.multiBook.getMut pair) with
  | none => simp [found]
  | some book =>
    simp only [found,Option.map_some,Option.bind_some,getMut_set,if_pos]
    congr 1
    funext next
    simp [MultiPair.set]

variable [DecidableEq S] [Stable M S] [Ord T] [MarketTaker T U]

def callBook (pair : P) (exec : Executor P S V T M B U X) (change : BookCall T M) : Option (Executor P S V T M B U X) := exec.withBook pair change.apply

theorem syncBook_calls (exec : Executor P S V T M B U X) (pair : P) (transition : Ior (Snapshot T M V) (Snapshot T M V)) :
    exec.syncBook pair transition = (bookCalls transition).bind (fun calls => calls.foldlM (callBook pair) exec) := by
  match transition with
  | .left (.inl o) => exact (bind_pure _).symm
  | .left (.inr p) => exact (bind_pure _).symm
  | .both (.inl old) (.inl new) => exact (withBook_twice ..).symm.trans (congrArg _ (funext (fun _ => (bind_pure _).symm)))
  | .both (.inl old) (.inr new) => exact (bind_pure _).symm
  | .both (.inr old) (.inr new) => exact (bind_pure _).symm
  | .both (.inr old) (.inl new) => rfl
  | .right (.inl new) => exact (bind_pure _).symm
  | .right (.inr new) => exact (bind_pure _).symm

variable [DecidableEq V] [Stable T S] [QuasiPermanent T] [QuasiPermanent M]

-- A task with the calls it leaves.
def Task.perform (exec : Executor P S V T M B U X) (task : Task P T M V B) : Option (Executor P S V T M B U X) :=
  (task.run exec).bind (fun done => done.2.foldlM (fun exec next => (next.run exec).map Prod.fst) done.1)

theorem syncTasks_perform (exec : Executor P S V T M B U X) (pair : P) (transition : Option (Ior (Snapshot T M V) (Snapshot T M V))) :
    (syncTasks pair transition).bind (fun tasks : List (Task P T M V B) => tasks.foldlM (fun exec next => (next.run exec).map Prod.fst) exec) =
      exec.syncAny pair transition := by
  have each : ∀ exec : Executor P S V T M B U X, ∀ change : BookCall T M,
      ((Task.call pair change : Task P T M V B).run exec).map Prod.fst = callBook pair exec change := by
    intro exec change
    simp only [Task.run,Option.map_map]
    exact Option.map_id'
  cases transition with
  | none => rfl
  | some transition =>
    simp only [syncTasks,Executor.syncAny,syncBook_calls,Option.bind_map]
    congr 1
    funext calls
    simp only [Function.comp,List.foldlM_map,each]

theorem event_perform (exec : Executor P S V T M B U X) (pair : P) (update : Channel (Transition (EvolvingEntity T M V B))) :
    (Task.event pair update).perform exec = exec.onPairEvent pair update := by
  simp only [Task.perform,Task.run,Option.bind_map]
  exact syncTasks_perform ..

theorem effect_perform (exec : Executor P S V T M B U X) (pair : P) (eff : ExecutionEff (EvolvingEntity T M V B)) :
    (Task.effect pair eff).perform exec = Executor.onEffect pair exec eff := by
  simp only [Task.perform,Task.run,Option.bind_map]
  exact syncTasks_perform ..

end Pieces

section Calm
variable {P S V T M B U X : Type} [DecidableEq P] {exec next : Executor P S V T M B U X}

-- The book that a task settles.
def Task.settling : Task P T M V B → Option P
  | .commit pair => some pair
  | .rollback pair => some pair
  | _ => none

def Pending.book (pending : Pending P T M V B) : Option P :=
  match pending.effects with
  | .inl _ => some pending.pair
  | .inr _ => none

-- The one book that may be in a preview.
def ExecutionPart.busy (part : ExecutionPart P S V T M B U X) : Option P :=
  match part.agenda with
  | task :: _ => task.settling
  | [] => part.pending.bind Pending.book

-- Nothing is done while an answer is awaited.
@[grind cases eager] structure Awaits (part : ExecutionPart P S V T M B U X) : Prop where
  agenda : part.agenda = []
  answer : part.submitting = true ∧ part.feedback = [] ∧ part.stage = .parked ∨
    part.submitting = false ∧ part.feedback.length = 1 ∧ (part.stage = .parked ∨ part.stage = .feedback)

@[grind cases eager] structure Calm (part : ExecutionPart P S V T M B U X) : Prop where
  quiet : Quiet part.busy part.exec
  plain : ∀ task ∈ part.agenda.tail, task.settling = none
  free : part.pending = none → part.submitting = false ∧ part.feedback = []
  waits : part.pending.isSome → Awaits part

omit [DecidableEq P] in
theorem syncTasks_plain {pair : P} {transition : Option (Ior (Snapshot T M V) (Snapshot T M V))} {tasks : List (Task P T M V B)}
    (made : syncTasks pair transition = some tasks) : ∀ task ∈ tasks, task.settling = none := by
  cases transition with
  | none =>
    obtain rfl := Option.some.inj made
    nofun
  | some transition =>
    obtain ⟨calls,_,rfl⟩ := Option.map_eq_some_iff.mp made
    intro task member
    obtain ⟨change,_,rfl⟩ := List.mem_map.mp member
    rfl

omit [DecidableEq P] in
theorem aftermath_settles [DecidableEq V] (pending : Pending P T M V B) (answer : Answer V) :
    (match aftermath pending answer with
      | task :: _ => task.settling
      | [] => none) = pending.book ∧ ∀ task ∈ (aftermath pending answer).tail, task.settling = none := by
  obtain ⟨pair,consumed,effects⟩ := pending
  have removals : ∀ orders : List T, ∀ task ∈ orders.map (fun order => (Task.call pair (.removeTaker order) : Task P T M V B)), task.settling = none := by
    intro orders task member
    obtain ⟨order,_,rfl⟩ := List.mem_map.mp member
    rfl
  cases effects with
  | inl effects =>
    cases answer with
    | accepted =>
      refine ⟨rfl,fun task member => ?_⟩
      obtain ⟨eff,_,rfl⟩ := List.mem_map.mp member
      rfl
    | rejected missing =>
      cases missing with
      | some missing =>
        refine ⟨rfl,fun task member => ?_⟩
        obtain rfl := List.mem_singleton.mp member
        rfl
      | none => exact ⟨rfl,removals _⟩
  | inr operation =>
    cases answer with
    | accepted => exact ⟨rfl,nofun⟩
    | rejected missing =>
      cases missing with
      | some missing => exact ⟨rfl,nofun⟩
      | none => exact ⟨rfl,nofun⟩

variable {part after : ExecutionPart P S V T M B U X}

-- Transactions sent whose answer has not been worked off.
def ExecutionPart.outstanding (part : ExecutionPart P S V T M B U X) : Nat := part.submitting.toNat + part.feedback.length

def Settled (part : ExecutionPart P S V T M B U X) (pair : P) : Prop := ∃ state, part.exec.multiBook.getMut pair = .idle state

theorem Calm.unpending (calm : Calm part) (polling : part.stage ≠ .parked ∧ part.stage ≠ .feedback) : part.pending = none := by
  cases pending : part.pending with
  | none => rfl
  | some sent =>
    have waits := calm.waits (by rw [pending]; rfl)
    rcases waits.answer with ⟨_,_,parked⟩ | ⟨_,_,parked | reading⟩
    · exact absurd parked polling.1
    · exact absurd parked polling.1
    · exact absurd reading polling.2

theorem Calm.move {exec : Executor P S V T M B U X} (calm : Calm ⟨exec,none,feedback,submitting,stage,agenda⟩) (next : Stage P) :
    Calm ⟨exec,none,feedback,submitting,next,agenda⟩ := ⟨calm.quiet,calm.plain,calm.free,nofun⟩

theorem Quiet.previewed (quiet : Quiet none exec) (pair : P) (book : TLBState T S M) :
    Quiet (some pair) ({exec with multiBook:=exec.multiBook.set pair book} : Executor P S V T M B U X) := by
  intro other apart
  simp only
  rw [getMut_set,if_neg (fun same => apart (congrArg some same).symm)]
  exact quiet other (by rintro ⟨⟩)

theorem Quiet.resettled (quiet : Quiet none exec) (pair : P) (state : Book.IdleState T S M) :
    Quiet none ({exec with multiBook:=exec.multiBook.set pair (.idle state)} : Executor P S V T M B U X) := by
  intro other _
  simp only
  rw [getMut_set]
  split
  · exact ⟨state,rfl⟩
  · exact quiet other (by rintro ⟨⟩)

theorem Calm.counted (calm : Calm part) : part.pending = none ∧ part.outstanding = 0 ∨ part.pending.isSome ∧ part.outstanding = 1 := by
  cases pending : part.pending with
  | none =>
    obtain ⟨ended,empty⟩ := calm.free pending
    left
    exact ⟨rfl,by rw [ExecutionPart.outstanding,ended,empty]; rfl⟩
  | some sent =>
    right
    refine ⟨rfl,?_⟩
    rcases (calm.waits (by rw [pending]; rfl)).answer with ⟨submitting,empty,_⟩ | ⟨ended,one,_⟩
    · rw [ExecutionPart.outstanding,submitting,empty]
      rfl
    · rw [ExecutionPart.outstanding,ended,one]
      rfl

variable [DecidableEq S] [DecidableEq V] [Stable T S] [Stable M S] [QuasiPermanent T] [QuasiPermanent M]

theorem Quiet.update (quiet : Quiet busy exec) (update : Channel (Transition (EvolvingEntity T M V B))) : Quiet busy (exec.updateState update).1 := by
  obtain ⟨index,filter,same⟩ : ∃ index filter, (exec.updateState update).1 = {exec with index:=index,skipFilter:=filter} := updateState_frame update
  rw [same]
  exact quiet

variable [Ord T] [MarketTaker T U]

theorem Quiet.task {task : Task P T M V B} {tasks : List (Task P T M V B)} (quiet : Quiet task.settling exec) (done : task.run exec = some (next,tasks)) :
    Quiet none next ∧ ∀ more ∈ tasks, more.settling = none := by
  cases task with
  | call pair change =>
    simp only [Task.run] at done
    obtain ⟨after,made,same⟩ := Option.map_eq_some_iff.mp done
    obtain ⟨rfl,rfl⟩ := Prod.mk.inj same
    have settles : Settles (change.apply : TLBState T S M → Option (TLBState T S M)) := by
      cases change <;> exact settles_external _
    exact ⟨(quiet.any _).withBook settles made,nofun⟩
  | commit pair =>
    simp only [Task.run] at done
    obtain ⟨after,made,same⟩ := Option.map_eq_some_iff.mp done
    obtain ⟨rfl,rfl⟩ := Prod.mk.inj same
    exact ⟨quiet.withBook settles_commit made,nofun⟩
  | rollback pair =>
    simp only [Task.run] at done
    obtain ⟨after,made,same⟩ := Option.map_eq_some_iff.mp done
    obtain ⟨rfl,rfl⟩ := Prod.mk.inj same
    exact ⟨quiet.withBook settles_rollback made,nofun⟩
  | event pair update =>
    simp only [Task.run] at done
    obtain ⟨after,made,same⟩ := Option.map_eq_some_iff.mp done
    obtain ⟨rfl,rfl⟩ := Prod.mk.inj same
    exact ⟨quiet.update update,syncTasks_plain made⟩
  | effect pair eff =>
    simp only [Task.run] at done
    obtain ⟨after,made,same⟩ := Option.map_eq_some_iff.mp done
    obtain ⟨rfl,rfl⟩ := Prod.mk.inj same
    have filtered : Quiet none ({exec with skipFilter:=exec.skipFilter.add (version eff.consumed)} : Executor P S V T M B U X) := quiet
    exact ⟨filtered.update _,syncTasks_plain made⟩
  | adopt pool order =>
    obtain ⟨rfl,rfl⟩ := Prod.mk.inj (Option.some.inj done)
    have filtered : Quiet none ({exec with skipFilter:=exec.skipFilter.add order} : Executor P S V T M B U X) := quiet
    exact ⟨filtered.update _,nofun⟩
  | invalidate pair versions strict unknown =>
    cases versions with
    | nil =>
      simp only [Task.run] at done
      split at done
      · cases done
      · obtain ⟨rfl,rfl⟩ := Prod.mk.inj (Option.some.inj done)
        exact ⟨quiet,nofun⟩
    | cons ver versions =>
      simp only [Task.run] at done
      split at done
      · obtain ⟨rfl,rfl⟩ := Prod.mk.inj (Option.some.inj done)
        refine ⟨quiet,fun more member => ?_⟩
        obtain rfl := List.mem_singleton.mp member
        rfl
      · obtain ⟨after,made,same⟩ := Option.map_eq_some_iff.mp done
        obtain ⟨rfl,rfl⟩ := Prod.mk.inj same
        refine ⟨quiet,fun more member => ?_⟩
        rcases List.mem_append.mp member with call | last
        · exact syncTasks_plain made more call
        · obtain rfl := List.mem_singleton.mp last
          rfl

theorem Calm.task {exec exec' : Executor P S V T M B U X} {task : Task P T M V B} (calm : Calm ⟨exec,pending,feedback,submitting,stage,task :: agenda⟩)
    (done : task.run exec = some (exec',tasks)) : Calm ⟨exec',pending,feedback,submitting,stage,tasks ++ agenda⟩ := by
  have none_pending : pending = none := by
    cases pending with
    | none => rfl
    | some sent => cases (calm.waits rfl).agenda
  subst none_pending
  obtain ⟨quiet,more⟩ := calm.quiet.task done
  have plain : ∀ task ∈ tasks ++ agenda, task.settling = none := by
    intro task member
    rcases List.mem_append.mp member with new | old
    · exact more task new
    · exact calm.plain task old
  refine ⟨?_,fun task member => plain task (List.mem_of_mem_tail member),calm.free,nofun⟩
  have settled : (⟨exec',none,feedback,submitting,stage,tasks ++ agenda⟩ : ExecutionPart P S V T M B U X).busy = none := by
    unfold ExecutionPart.busy
    cases list : tasks ++ agenda with
    | nil => rfl
    | cons first rest => exact plain first (list ▸ List.mem_cons_self)
  rw [settled]
  exact quiet

variable [TakerBehaviour T] [MarketMaker M T U] [MakerBehavior M T] [Add U] [Zero U] [LT U] [DecidableLT U]
  {run : List (Execution T M B) → B → X → Option (List (ExecutionEff (EvolvingEntity T M V B)) × X)}

theorem Calm.step (calm : Calm part) (step : Polls run part after) : Calm after := by
  cases step with
  | polled =>
    refine ⟨calm.quiet,calm.plain,calm.free,fun pending => ⟨rfl,?_⟩⟩
    rcases (calm.waits pending).answer with ⟨submitting,_⟩ | ⟨_,one,_⟩
    · cases submitting
    · exact .inr ⟨rfl,one,.inr rfl⟩
  | @sent exec pending feedback stage agenda answer =>
    cases pending with
    | none => cases (calm.free rfl).1
    | some sent =>
      have waits := calm.waits rfl
      rcases waits.answer with ⟨_,none_sent,parked⟩ | ⟨submitting,_⟩
      · refine ⟨calm.quiet,calm.plain,nofun,fun _ => ⟨waits.agenda,.inr ⟨rfl,?_,.inl parked⟩⟩⟩
        simp only at none_sent
        rw [none_sent]
        rfl
      · cases submitting
  | task done => exact calm.task done
  | free => exact calm.move _
  | unanswered =>
    rcases (calm.waits rfl).answer with ⟨_,_,parked⟩ | ⟨_,one,_⟩
    · cases parked
    · cases one
  | @answered exec pending answer feedback submitting =>
    obtain ⟨settles,plain⟩ := aftermath_settles pending answer
    refine ⟨?_,plain,fun _ => ?_,nofun⟩
    · have busy : (⟨exec,none,feedback,submitting,.upstream,aftermath pending answer⟩ : ExecutionPart P S V T M B U X).busy = pending.book := settles
      rw [busy]
      exact calm.quiet
    · rcases (calm.waits rfl).answer with ⟨_,_,parked⟩ | ⟨ended,one,_⟩
      · cases parked
      · exact ⟨ended,List.length_eq_zero_iff.mp (Nat.succ.inj one)⟩
  | bookEvent =>
    obtain rfl := calm.unpending ⟨nofun,nofun⟩
    exact ⟨calm.quiet,nofun,calm.free,nofun⟩
  | backlogEvent =>
    obtain rfl := calm.unpending ⟨nofun,nofun⟩
    exact calm.move _
  | noEvent =>
    obtain rfl := calm.unpending ⟨nofun,nofun⟩
    exact calm.move _
  | fundingEvent =>
    obtain rfl := calm.unpending ⟨nofun,nofun⟩
    exact calm.move _
  | noFundingEvent =>
    obtain rfl := calm.unpending ⟨nofun,nofun⟩
    exact calm.move _
  | blocked =>
    obtain rfl := calm.unpending ⟨nofun,nofun⟩
    exact calm.move _
  | blockerChanged =>
    obtain rfl := calm.unpending ⟨nofun,nofun⟩
    exact calm.move _
  | synced =>
    obtain rfl := calm.unpending ⟨nofun,nofun⟩
    exact calm.move _
  | exhausted =>
    obtain rfl := calm.unpending ⟨nofun,nofun⟩
    exact calm.move _
  | unmatched tried none_found =>
    obtain rfl := calm.unpending ⟨nofun,nofun⟩
    obtain ⟨idle,settled⟩ := attemptLoop_idle tried none_found
    rw [settled]
    exact ⟨calm.quiet.resettled _ idle,nofun,calm.free,nofun⟩
  | orphaned tried found unlinked =>
    obtain rfl := calm.unpending ⟨nofun,nofun⟩
    refine ⟨calm.quiet.previewed _ _,fun task member => ?_,calm.free,nofun⟩
    obtain ⟨orphan,_,rfl⟩ := List.mem_map.mp member
    rfl
  | unfunded tried found linked =>
    obtain rfl := calm.unpending ⟨nofun,nofun⟩
    exact ⟨calm.quiet.previewed _ _,nofun,calm.free,nofun⟩
  | emitted tried found linked interpreted =>
    obtain rfl := calm.unpending ⟨nofun,nofun⟩
    exact ⟨calm.quiet.previewed _ _,nofun,nofun,fun _ => ⟨rfl,.inl ⟨rfl,(calm.free rfl).2,rfl⟩⟩⟩
  | noOrder =>
    obtain rfl := calm.unpending ⟨nofun,nofun⟩
    exact calm.move _
  | specialized =>
    obtain rfl := calm.unpending ⟨nofun,nofun⟩
    exact ⟨calm.quiet,nofun,nofun,fun _ => ⟨rfl,.inl ⟨rfl,(calm.free rfl).2,rfl⟩⟩⟩

theorem Polled.calm (polled : Polled run part) : Calm part := by
  induction polled with
  | new time conf context => exact ⟨fun pair _ => ⟨_,rfl⟩,nofun,fun _ => ⟨rfl,rfl⟩,nofun⟩
  | step _ step ih => exact ih.step step

-- A call from outside finds the book settled, and so does an attempt; there is
-- one batch at most, and none is sent while another is pending.
theorem books_settled (polled : Polled run part) :
    (∀ pair change agenda, part.agenda = .call pair change :: agenda → Settled part pair) ∧
    (part.stage = .matchmaking → part.agenda = [] → ∀ pair, Settled part pair) ∧
    part.outstanding ≤ 1 ∧ (part.pending.isSome ↔ part.outstanding = 1) ∧
    (∀ after, Polls run part after → after.outstanding = part.outstanding + 1 → part.pending = none ∧ part.outstanding = 0) := by
  have calm := polled.calm
  have counted := calm.counted
  refine ⟨fun pair change agenda first => ?_,fun matching empty pair => ?_,?_,?_,fun after step more => ?_⟩
  · have busy : part.busy = none := by
      rw [ExecutionPart.busy,first]
      rfl
    exact calm.quiet pair (by rw [busy]; nofun)
  · have busy : part.busy = none := by
      rw [ExecutionPart.busy,empty,calm.unpending ⟨by rw [matching]; nofun,by rw [matching]; nofun⟩]
      rfl
    exact calm.quiet pair (by rw [busy]; nofun)
  · omega
  · rcases counted with ⟨none_pending,zero⟩ | ⟨pending,one⟩
    · rw [none_pending,zero]
      exact ⟨nofun,nofun⟩
    · exact ⟨fun _ => one,fun _ => pending⟩
  · rcases counted with nothing | ⟨_,one⟩
    · exact nothing
    · have counted' := (calm.step step).counted
      omega

end Calm

section Creation
variable {P S V T M B U X : Type} [DecidableEq P] [DecidableEq S] [DecidableEq V] [Stable T S] [Stable M S] [QuasiPermanent T] [QuasiPermanent M]
  [Ord T] [MarketTaker T U] {exec : Executor P S V T M B U X}

theorem creation_tasks {ver : V} (unfiltered : ver ∉ exec.skipFilter.filter) {order : T} (unknown : resolveState (stableId order) exec.index = none)
    (pair : P) (bearer : B) :
    ∃ exec', (Task.event pair (creation order ver bearer)).run exec = some (exec',[.call pair (.updateTaker order)]) := by
  have brought : exec.updateState (creation order ver bearer) =
      if ver ∈ exec.skipFilter.filter then ({exec with index:=exec.index.put .fallback (created order ver bearer)},none)
      else exec.observe .lastPredicted none (created order ver bearer) := rfl
  have before : resolveState (stableId (created order ver bearer : EvolvingEntity T M V B)) exec.index = none := unknown
  refine ⟨(exec.updateState (creation order ver bearer)).1,?_⟩
  unfold Task.run
  simp only [brought,if_neg unfiltered,Executor.observe,before,resolve_predicted]
  rfl

end Creation

section Sample
open Green.Recorded Pools.NoEstimates
open Account (AssetClass Token OutputRef FinalizedTxOut)
open Green (GreenOrder ExUnits sampleOrder)
open Pools (RoyaltyPool)

abbrev GreenPart := ExecutionPart (AssetClass × AssetClass) Token OutputRef GreenOrder RoyaltyPool (FinalizedTxOut Unit) ExUnits Unit

-- A new order is on its way to the book.
theorem books_settled_created :
    ∃ part : GreenPart, Polled neverRun part ∧ part.agenda = [.call orderPair (.updateTaker sampleOrder)] ∧ Settled part orderPair := by
  have parked : Polled neverRun (.new 0 Book.adaConf () : GreenPart) := .new 0 Book.adaConf ()
  have upstream := (parked.step .polled).step .free
  have brought : Polled neverRun (⟨fresh,none,[],false,.feedback,[.event orderPair (creation sampleOrder accountOutput ⟨(),accountOutput⟩)]⟩ : GreenPart) :=
    upstream.step .bookEvent
  have unfiltered : accountOutput ∉ fresh.skipFilter.filter := by decide
  have unknown : resolveState (Book.stableId sampleOrder) fresh.index = none := by decide
  obtain ⟨exec,created⟩ := creation_tasks unfiltered unknown orderPair (⟨(),accountOutput⟩ : FinalizedTxOut Unit)
  have called := brought.step (.task created)
  exact ⟨_,called,rfl,(books_settled called).1 _ _ _ rfl⟩

end Sample
end GreenAgent.Engine
