import GreenAgent.Account.Planning

namespace GreenAgent.Account

-- Every call ends by writing the file, if there is a path, or it has changed
-- nothing that the file holds.
def AccountIndex.Wrote (before after : AccountIndex O) : Prop :=
  after.persistence = before.persistence.map (fun _ => some after.persisted) ∨
    (after.persistence = before.persistence ∧ after.persisted = before.persisted)

section
variable {O : Type} {index middle after : AccountIndex O}

theorem AccountIndex.Wrote.on (wrote : index.Wrote after) : after.persistence.isSome = index.persistence.isSome := by
  rcases wrote with written | ⟨same,_⟩
  · rw [written,Option.isSome_map]
  · rw [same]

theorem persist_written (on : middle.persistence.isSome = index.persistence.isSome) :
    middle.persistAccountStores.persistence = index.persistence.map (fun _ => some middle.persistAccountStores.persisted) := by
  unfold AccountIndex.persistAccountStores
  cases file : middle.persistence with
  | none => simp_all
  | some _ =>
    rw [file] at on
    obtain ⟨_,path⟩ := Option.isSome_iff_exists.mp on.symm
    rw [path]
    rfl

theorem persist_wrote (on : middle.persistence.isSome = index.persistence.isSome) : index.Wrote middle.persistAccountStores :=
  .inl (persist_written on)

theorem bindIndexed_wrote (on : middle.persistence.isSome = index.persistence.isSome) (a : AccountId) (i : IndexedAccount O) :
    index.Wrote (middle.bindIndexed a i) := persist_wrote on

theorem observeConsumed_wrote (index : AccountIndex O) (r : OutputRef) : index.Wrote (index.observeConsumed r) := by
  unfold AccountIndex.observeConsumed AccountIndex.removeBoundOutput
  apply persist_wrote
  grind

theorem observeRemovedOutput_wrote (index : AccountIndex O) (r : OutputRef) : index.Wrote (index.observeRemovedOutput r) := by
  unfold AccountIndex.observeRemovedOutput AccountIndex.removeBoundOutput
  apply persist_wrote
  grind

theorem observeRollbackConsumed_wrote (index : AccountIndex O) (r : OutputRef) : index.Wrote (index.observeRollbackConsumed r) := by
  unfold AccountIndex.observeRollbackConsumed
  apply persist_wrote
  cases spent : index.rollbackBySpentRef.lookup r with
  | none => rfl
  | some entry =>
    have rebound : index.Wrote (AccountIndex.bindIndexed {index with rollbackBySpentRef:=index.rollbackBySpentRef.erase r} entry.1 entry.2) :=
      bindIndexed_wrote rfl entry.1 entry.2
    exact rebound.on

theorem observeCreatedOrUpdated_wrote (plain : index.Plain) (u : AlephAccountUtxo O) : index.Wrote (index.observeCreatedOrUpdated u) := by
  unfold AccountIndex.observeCreatedOrUpdated
  have predicted : index.predictedByOutputRef.lookup u.outputRef = none := by rw [plain.predicted]; rfl
  have attached : index.pendingSnapshotByOutputRef.lookup u.outputRef = none := by rw [plain.attached]; rfl
  simp only [predicted,attached,Option.isSome_none,Bool.false_eq_true,if_false]
  split
  · split
    · apply bindIndexed_wrote
      rfl
    · exact .inr ⟨rfl,rfl⟩
  · exact .inr ⟨rfl,rfl⟩

theorem observeProduced_wrote (plain : index.Plain) (spent : List OutputRef) (ids : List AccountId) (u : AlephAccountUtxo O) :
    index.Wrote (AccountIndex.observeProduced spent ids index u) := by
  unfold AccountIndex.observeProduced
  split
  · rename_i bound ok
    unfold AccountIndex.bindConfirmedStoreForConsumedRefs at ok
    dsimp only at ok
    split at ok
    · cases ok
    · split at ok
      · cases ok
      · cases ok
        apply persist_wrote
        apply AccountIndex.Wrote.on
        apply bindIndexed_wrote
        rfl
  · split
    · rename_i bound some_bound
      unfold AccountIndex.bindEmptySuccessorForConsumedAccount at some_bound
      split at some_bound
      · split at some_bound
        · cases some_bound
        · split at some_bound
          · cases some_bound
          · cases some_bound
            exact bindIndexed_wrote rfl _ _
      · cases some_bound
    · exact observeCreatedOrUpdated_wrote plain u

theorem bindExternalAccountIdOnce_wrote (index : AccountIndex O) (a : AccountId) (r : OutputRef) :
    index.Wrote (index.bindExternalAccountIdOnce a r).1 := by
  unfold AccountIndex.bindExternalAccountIdOnce
  split
  · exact .inr ⟨rfl,rfl⟩
  · split
    · exact .inr ⟨rfl,rfl⟩
    · split
      · exact .inr ⟨rfl,rfl⟩
      · dsimp only
        split
        · exact .inr ⟨rfl,rfl⟩
        · apply bindIndexed_wrote
          rfl

theorem PlanCall.Done.wrote {ext : Externals O} {call : PlanCall} (done : call.Done ext index a r after n base p) :
    after.persistence = index.persistence.map (fun _ => some after.persisted) := by
  have dropped : (index.removePendingSnapshotsFor a r).persistence = index.persistence := by
    unfold AccountIndex.removePendingSnapshotsFor
    dsimp only
    split <;> rfl
  have reserved : ((index.removePendingSnapshotsFor a r).reservePredictedStoreSnapshot a r p).1.persistence =
      index.persistence.map (fun _ => some ((index.removePendingSnapshotsFor a r).reservePredictedStoreSnapshot a r p).1.persisted) := by
    unfold AccountIndex.reservePredictedStoreSnapshot AccountIndex.removeBoundOutput
    apply persist_written
    grind
  grind

end
end GreenAgent.Account
