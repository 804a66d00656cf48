import GreenAgent.Account.Invariant
import GreenAgent.Account.Intact
import GreenAgent.Account.Written

namespace GreenAgent.Account
open Mpf (Bytes Digest)

-- The file holds what the index would write now; before the first write there
-- is nothing to be written.
def AccountIndex.Synced (index : AccountIndex O) : Prop :=
  index.persistence = some (some index.persisted) ∨
    (index.persistence = some none ∧ index.persisted.stores = [] ∧ index.persisted.pending = [])

-- All stores the index holds have the property.
@[grind cases eager] structure View.Stocked (Q : AccountStore → Prop) (v : View O) : Prop where
  bound : ∀ {a i}, v.bound a = some i → Q i.store
  taken : ∀ {r a i}, v.rollback r = some (a,i) → Q i.store
  planned : ∀ {n e}, v.snapshots n = some e → Q e.2.2
  loaded : ∀ {r a s}, v.persisted r = some (a,s) → Q s

namespace View.Stocked
variable {O : Type} {Q : AccountStore → Prop} {v : View O}

theorem bind (stocked : v.Stocked Q) (a : AccountId) (i : IndexedAccount O) (holds : Q i.store) : (v.bind a i).Stocked Q := by
  refine ⟨?_,stocked.taken,stocked.planned,stocked.loaded⟩
  intro b j found
  grind

theorem drop (stocked : v.Stocked Q) (gone : AccountId × OutputRef × AccountStore → Prop) [DecidablePred gone] :
    (v.dropSnapshots gone).Stocked Q :=
  ⟨stocked.bound,stocked.taken,fun found => stocked.planned (Option.filter_eq_some_iff.mp found).1,stocked.loaded⟩

theorem remove (stocked : v.Stocked Q) (r : OutputRef) : (v.remove r).Stocked Q := by
  refine ⟨?_,?_,?_,?_⟩
  · grind
  · intro r' a i found
    rw [View.remove_rollback] at found
    exact stocked.taken found
  · intro n e found
    rw [View.remove_snapshots] at found
    exact stocked.planned found
  · intro r' a s found
    rw [View.remove_persisted] at found
    exact stocked.loaded found

theorem consume (stocked : v.Stocked Q) (r : OutputRef) : (v.consume r).Stocked Q := by
  have removed := stocked.remove r
  refine ⟨removed.bound,?_,removed.planned,removed.loaded⟩
  intro r' a i found
  rw [View.consume_rollback] at found
  split at found
  · rcases Option.or_eq_some_iff.mp found with held | ⟨_,before⟩
    · unfold View.holder at held
      obtain ⟨b,_,held⟩ := Option.bind_eq_some_iff.mp held
      obtain ⟨j,bound,same⟩ := Option.map_eq_some_iff.mp held
      grind
    · exact stocked.taken before
  · exact stocked.taken found

theorem forget (stocked : v.Stocked Q) (r : OutputRef) :
    View.Stocked Q {v with rollback:=Function.update v.rollback r none} := by
  refine ⟨stocked.bound,?_,stocked.planned,stocked.loaded⟩
  intro r' a i found
  grind

theorem unconsume (stocked : v.Stocked Q) (r : OutputRef) : (v.unconsume r).Stocked Q := by
  unfold View.unconsume
  cases taken : v.rollback r with
  | none => exact stocked.drop _
  | some entry => exact ((stocked.forget r).bind entry.1 entry.2 (stocked.taken taken)).drop _

theorem plan (stocked : v.Stocked Q) (a : AccountId) (r : OutputRef) (p : AccountStore) (holds : Q p) : (v.plan a r p).Stocked Q := by
  refine ⟨?_,?_,?_,stocked.loaded⟩
  · grind
  · intro r' b i found
    rw [View.plan_rollback] at found
    split at found
    · rcases Option.or_eq_some_iff.mp found with held | ⟨_,before⟩
      · obtain ⟨j,bound,same⟩ := Option.map_eq_some_iff.mp held
        grind
      · exact stocked.taken before
    · exact stocked.taken found
  · intro n e found
    have entry := (View.plan_snapshots ..).mp found
    grind

theorem base (stocked : v.Stocked Q) (from_base : v.Base a r s) : Q s := by
  cases from_base with
  | bound bound _ => exact stocked.bound bound
  | replan _ _ taken _ => exact stocked.taken taken

theorem produce (stocked : v.Stocked Q) (empty : Q .empty) (step : View.Produce refs ids v u after) : after.Stocked Q := by
  cases step with
  | confirm agrees =>
    obtain ⟨⟨n,r,found,_⟩,_⟩ := agrees
    exact (stocked.drop _).bind _ _ (stocked.planned found)
  | empty _ _ => exact stocked.bind _ _ empty
  | create _ _ created =>
    cases created with
    | resume found _ =>
      have rest : View.Stocked Q {v with persisted:=Function.update v.persisted u.outputRef none} := by
        refine ⟨stocked.bound,stocked.taken,stocked.planned,?_⟩
        grind
      exact rest.bind _ _ (stocked.loaded found)
    | unbound _ => exact ⟨stocked.bound,stocked.taken,stocked.planned,stocked.loaded⟩

theorem external {index : AccountIndex O} (stocked : index.view.Stocked Q) (empty : Q .empty) (plain : index.Plain) (a : AccountId)
    (r : OutputRef) : (index.bindExternalAccountIdOnce a r).1.view.Stocked Q := by
  obtain ⟨same | ⟨u,_,_,_,_,bound⟩,_⟩ := bindExternalAccountIdOnce_view plain a r
  · rw [same]
    exact stocked
  · rw [bound]
    refine View.Stocked.bind ?_ a _ empty
    exact ⟨stocked.bound,stocked.taken,stocked.planned,stocked.loaded⟩

end View.Stocked

-- All stores the index holds have the property, and nothing was loaded.
@[grind cases eager] structure View.Stores (Q : AccountStore → Prop) (v : View O) : Prop where
  bound : ∀ {a i}, v.bound a = some i → Q i.store
  taken : ∀ {r a i}, v.rollback r = some (a,i) → Q i.store
  planned : ∀ {n e}, v.snapshots n = some e → Q e.2.2
  unloaded : ∀ r, v.persisted r = none

namespace View.Stores
variable {O : Type} {Q : AccountStore → Prop} {v w : View O}

theorem stocked (stores : v.Stores Q) : v.Stocked Q :=
  ⟨stores.bound,stores.taken,stores.planned,fun found => nomatch (stores.unloaded _).symm.trans found⟩

theorem step (stores : v.Stores Q) (stocked : w.Stocked Q) (same : w.persisted = v.persisted) : w.Stores Q :=
  ⟨stocked.bound,stocked.taken,stocked.planned,fun r => by rw [same]; exact stores.unloaded r⟩

theorem unconsume_persisted (v : View O) (r : OutputRef) : (v.unconsume r).persisted = v.persisted := by
  unfold View.unconsume
  cases v.rollback r <;> rfl

theorem produce (stores : v.Stores Q) (empty : Q .empty) (step : View.Produce refs ids v u after) : after.Stores Q := by
  refine stores.step (stores.stocked.produce empty step) ?_
  cases step with
  | confirm _ => rfl
  | empty _ _ => rfl
  | create _ _ created =>
    cases created with
    | resume found _ => cases (stores.unloaded _).symm.trans found
    | unbound _ => rfl

theorem external {index : AccountIndex O} (stores : index.view.Stores Q) (empty : Q .empty) (plain : index.Plain) (a : AccountId)
    (r : OutputRef) : (index.bindExternalAccountIdOnce a r).1.view.Stores Q := by
  refine stores.step (stores.stocked.external empty plain a r) ?_
  obtain ⟨same | ⟨u,_,_,_,_,bound⟩,_⟩ := bindExternalAccountIdOnce_view plain a r
  · rw [same]
  · rw [bound]
    rfl

end View.Stores

section Synced
variable {O : Type} {index : AccountIndex O}

theorem AccountIndex.Synced.on (synced : index.Synced) : index.persistence.isSome = true := by
  rcases synced with file | ⟨file,_⟩ <;> rw [file] <;> rfl

theorem AccountIndex.Synced.wrote {after : AccountIndex O} (synced : index.Synced) (wrote : index.Wrote after) : after.Synced := by
  rcases wrote with written | ⟨file,held⟩
  · obtain ⟨_,path⟩ := Option.isSome_iff_exists.mp synced.on
    rw [path] at written
    exact .inl written
  · unfold AccountIndex.Synced
    rw [file,held]
    exact synced

end Synced

-- What every call on the index keeps, at whatever point of a transaction.
@[grind cases eager] structure Kept (ext : Externals O) (txs : Digest → TxView O) (index : AccountIndex O) : Prop where
  plain : index.Plain
  sound : Sound ext txs index.view (fun _ => True) (fun _ => True)
  stores : index.view.Stores (AccountStore.Intact ext)
  synced : index.Synced

namespace Kept
variable {O : Type} {ext : Externals O} {txs : Digest → TxView O} {index : AccountIndex O}

theorem consumed (kept : Kept ext txs index) (r : OutputRef) : Kept ext txs (index.observeConsumed r) where
  plain := observeConsumed_plain kept.plain r
  sound := by
    rw [observeConsumed_view]
    exact (kept.sound.consume r).widen (fun _ _ => trivial) (fun _ _ => trivial)
  stores := by
    rw [observeConsumed_view]
    exact kept.stores.step (kept.stores.stocked.consume r) (View.consume_persisted ..)
  synced := kept.synced.wrote (observeConsumed_wrote index r)

theorem removed (kept : Kept ext txs index) (r : OutputRef) : Kept ext txs (index.observeRemovedOutput r) where
  plain := observeRemovedOutput_plain kept.plain r
  sound := by
    rw [observeRemovedOutput_view]
    exact (kept.sound.remove r).widen (fun _ _ => trivial) (fun _ _ => trivial)
  stores := by
    rw [observeRemovedOutput_view]
    exact kept.stores.step (kept.stores.stocked.remove r) (View.remove_persisted ..)
  synced := kept.synced.wrote (observeRemovedOutput_wrote index r)

theorem unconsumed (kept : Kept ext txs index) (r : OutputRef) : Kept ext txs (index.observeRollbackConsumed r) where
  plain := observeRollbackConsumed_plain kept.plain r
  sound := by
    rw [observeRollbackConsumed_view]
    exact (kept.sound.unconsume r).widen (fun _ _ => trivial) (fun _ _ => trivial)
  stores := by
    rw [observeRollbackConsumed_view]
    exact kept.stores.step (kept.stores.stocked.unconsume r) (View.Stores.unconsume_persisted ..)
  synced := kept.synced.wrote (observeRollbackConsumed_wrote index r)

theorem rebound (kept : Kept ext txs index) (taken : index.rollbackBySpentRef.lookup r = some (a,i)) :
    Kept ext txs (AccountIndex.bindIndexed {index with rollbackBySpentRef:=index.rollbackBySpentRef.erase r} a i) := by
  have erased : AccountIndex.view {index with rollbackBySpentRef:=index.rollbackBySpentRef.erase r} =
      {index.view with rollback:=Function.update index.view.rollback r none} := by
    simp only [AccountIndex.view,lookup_erase_fun]
  have record : index.view.rollback r = some (a,i) := taken
  refine ⟨?_,?_,?_,?_⟩
  · apply bindIndexed_plain
    exact ⟨kept.plain.predicted,kept.plain.attached⟩
  · rw [bindIndexed_view,erased]
    exact ((kept.sound.forget r).widen (fun _ _ => trivial) (fun _ _ => trivial)).bind a i (kept.sound.taken_carries record).2 trivial
  · rw [bindIndexed_view,erased]
    exact kept.stores.step ((kept.stores.stocked.forget r).bind a i (kept.stores.taken record)) rfl
  · refine kept.synced.wrote (bindIndexed_wrote ?_ a i)
    rfl

theorem produced (kept : Kept ext txs index) (spent : List OutputRef) (ids : List AccountId) (seen : Observed ext txs u) :
    Kept ext txs (AccountIndex.observeProduced spent ids index u) := by
  obtain ⟨step,plain⟩ := observeProduced_view kept.plain spent ids u
  exact ⟨plain,kept.sound.produce step (fun _ _ => trivial) trivial seen,kept.stores.produce empty_intact step,
    kept.synced.wrote (observeProduced_wrote kept.plain spent ids u)⟩

theorem external (kept : Kept ext txs index) (a : AccountId) (r : OutputRef) :
    Kept ext txs (index.bindExternalAccountIdOnce a r).1 where
  plain := (bindExternalAccountIdOnce_view kept.plain a r).2
  sound := kept.sound.external kept.plain a r
  stores := kept.stores.external empty_intact kept.plain a r
  synced := kept.synced.wrote (bindExternalAccountIdOnce_wrote index a r)

theorem plan {call : PlanCall} (kept : Kept ext txs index) (done : call.Done ext index a r after n base p)
    (free : Set.InjOn ext.blake2b256 {s | s ∈ call.strings ext base}) : Kept ext txs after := by
  have intact := predict_intact free (kept.stores.stocked.base done.from_base) done.predicted
  refine ⟨done.plain kept.plain,?_,?_,kept.synced.wrote (.inl done.wrote)⟩
  · rw [done.view.1]
    exact kept.sound.plan done.from_base p
  · rw [done.view.1]
    exact kept.stores.step (kept.stores.stocked.plan a r p intact) rfl

theorem fold {step : AccountIndex O → α → AccountIndex O} {list : List α}
    (keeps : ∀ {index}, Kept ext txs index → ∀ x ∈ list, Kept ext txs (step index x)) (kept : Kept ext txs index) :
    Kept ext txs (list.foldl step index) := by
  induction list generalizing index with
  | nil => exact kept
  | cons x list ih => simp_all

end Kept
end GreenAgent.Account
