import GreenAgent.Account.Rollback
import GreenAgent.Account.Recovery

namespace GreenAgent.Account
open Mpf (Bytes Digest emptyRoot digestOf bind_ok)

-- A process that follows the chain without a reorganisation. `seen` are the
-- transactions observed since `index`, newest first.
inductive Follows (ext : Externals O) (txs : Digest → TxView O) (hashed : Set Bytes) (chain : List (TxView O)) (index : AccountIndex O) :
    List (TxView O) → AccountIndex O → Prop where
  | start : Follows ext txs hashed chain index [] index
  | bind (prior : Follows ext txs hashed chain index seen now) (a : AccountId) (r : OutputRef) :
      Follows ext txs hashed chain index seen (now.bindExternalAccountIdOnce a r).1
  | plan (prior : Follows ext txs hashed chain index seen now) (call : PlanCall) (base : now.storeForPlanning a r = some store)
      (inside : ∀ s ∈ call.strings ext store, s ∈ hashed) (planned : call.run ext now a r = .ok (next,root,n)) :
      Follows ext txs hashed chain index seen next
  | apply (prior : Follows ext txs hashed chain index seen now) (fits : Fits txs (seen ++ chain) tx) :
      Follows ext txs hashed chain index (tx :: seen) (applyAccountEvents now (scanAccountEvents ext tx))

section
variable {O : Type} {ext : Externals O} {txs : Digest → TxView O} {hashed : Set Bytes} {index : AccountIndex O} {v : View O}

theorem Follows.run {seen chain : List (TxView O)} (run : Run ext txs hashed index chain) (follows : Follows ext txs hashed chain index seen now) :
    Run ext txs hashed now (seen ++ chain) := by
  induction follows with
  | start => exact run
  | bind _ a r ih => exact .bind ih a r
  | plan _ call base inside planned ih => exact .plan ih call base inside planned
  | apply _ fits ih => exact .apply ih fits

theorem Run.consistent (run : Run ext txs hashed index chain) : Consistent txs chain := by
  induction run with
  | fresh consistent => exact consistent
  | bind _ _ _ ih => exact ih
  | plan _ _ _ _ _ ih => exact ih
  | apply _ fits ih => exact .cons ih fits
  | revert _ ih => exact ih.tail.1

-- What a process that has never taken a transaction back keeps: both indexes
-- agree, and an account is bound, planned once, or waits for nothing.
@[grind cases eager] structure Steady (v : View O) : Prop where
  linked : ∀ {a i}, v.bound a = some i → v.owner i.utxo.reference = some a
  apart : ∀ {r a}, v.owner r = some a → v.unbound r = none
  taken : ∀ {r x}, v.rollback r = some x → v.owner r = none ∧ v.unbound r = none
  waiting : ∀ {a}, a ∈ v.pending → v.bound a = none
  planned : ∀ {n a r s}, v.snapshots n = some (a,r,s) → a ∈ v.pending
  single : ∀ {n n' a r s r' s'}, v.snapshots n = some (a,r,s) → v.snapshots n' = some (a,r',s') → n' = n
  unloaded : ∀ r, v.persisted r = none

theorem Steady.idle (steady : Steady v) (bound : v.bound a = some i) (n : Nat) (r : OutputRef) (s : AccountStore) :
    v.snapshots n ≠ some (a,r,s) := by
  intro plan
  cases bound.symm.trans (steady.waiting (steady.planned plan))

theorem bind_owner_unbound (unbound : v.bound a = none) (r : OutputRef) :
    (v.bind a i).owner r = if r = i.utxo.reference then some a else v.owner r := by
  simp only [View.bind,unbound,Function.update_apply]

theorem Steady.bind (steady : Steady v) (unbound : v.bound a = none) (unplanned : ∀ n r s, v.snapshots n ≠ some (a,r,s))
    (unowned : v.owner i.utxo.reference = none) (untaken : v.rollback i.utxo.reference = none) : Steady (v.bind a i) where
  linked := by
    intro b j found
    rw [View.bind_bound] at found
    rw [bind_owner_unbound unbound]
    grind
  apart := by
    intro r b found
    rw [bind_owner_unbound unbound] at found
    grind
  taken := by
    intro r x found
    rw [View.bind_rollback] at found
    rw [bind_owner_unbound unbound,View.bind_unbound]
    grind
  waiting := by grind
  planned := by
    intro n b r s found
    rw [View.bind_snapshots] at found
    grind
  single := steady.single
  unloaded := steady.unloaded

theorem Steady.drop (steady : Steady v) (gone : AccountId × OutputRef × AccountStore → Prop) [DecidablePred gone] :
    Steady (v.dropSnapshots gone) where
  linked := steady.linked
  apart := steady.apart
  taken := steady.taken
  waiting := steady.waiting
  planned := fun found => steady.planned (Option.filter_eq_some_iff.mp found).1
  single := fun one two => steady.single (Option.filter_eq_some_iff.mp one).1 (Option.filter_eq_some_iff.mp two).1
  unloaded := steady.unloaded

theorem Steady.consume (steady : Steady v) (r : OutputRef) : Steady (v.consume r) where
  linked := by grind
  apart := by grind
  taken := by grind
  waiting := by grind
  planned := by
    intro n a r' s found
    rw [View.consume_snapshots] at found
    grind
  single := by
    rw [View.consume_snapshots]
    exact steady.single
  unloaded := by
    rw [View.consume_persisted]
    exact steady.unloaded

theorem Steady.consumes (steady : Steady v) (refs : List OutputRef) : Steady (refs.foldl View.consume v) := by
  induction refs generalizing v with
  | nil => exact steady
  | cons r refs ih => exact ih (steady.consume r)

-- A plan starts from the output its account is bound at, or from one that
-- nobody owns any more.
theorem Steady.base_owner (steady : Steady v) (base : v.Base a r s) : (v.owner r = some a ∨ v.owner r = none) ∧ v.unbound r = none := by
  cases base with
  | bound bound at_ref => grind
  | replan _ _ taken _ => grind

theorem Steady.base_plans (steady : Steady v) (base : v.Base a r s) (plan : v.snapshots n = some (a,r',s')) : r' = r := by
  cases base with
  | bound bound _ => exact absurd plan (steady.idle bound n r' s')
  | replan _ _ _ pending => grind

theorem Steady.plan (steady : Steady v) (base : v.Base a r s) (p : AccountStore) : Steady (v.plan a r p) where
  linked := by
    intro b i found
    rw [View.plan_bound] at found
    split at found
    · cases found
    · rename_i other
      have owner := steady.linked found
      rw [View.plan_owner,if_neg,owner]
      rintro rfl
      rcases (steady.base_owner base).1 with own | unowned
      · grind
      · cases unowned.symm.trans owner
  apart := by grind
  taken := by
    intro r' x found
    rw [View.plan_owner,View.plan_unbound]
    by_cases same : r' = r
    · subst same
      rw [if_pos rfl]
      exact ⟨rfl,(steady.base_owner base).2⟩
    grind
  waiting := by grind
  planned := by
    intro n b r' s' found
    have found := (View.plan_snapshots ..).mp found
    grind
  single := by
    intro n n' b r₁ s₁ r₂ s₂ one two
    have one := (View.plan_snapshots ..).mp one
    have two := (View.plan_snapshots ..).mp two
    split at one <;> split at two
    · omega
    · cases one
      exact absurd ⟨rfl,steady.base_plans base two.1⟩ two.2
    · cases two
      exact absurd ⟨rfl,steady.base_plans base one.1⟩ one.2
    · exact steady.single one.1 two.1
  unloaded := steady.unloaded

theorem produce_snapshots (step : View.Produce refs ids v u after) (found : after.snapshots n = some e) : v.snapshots n = some e := by
  cases step with
  | confirm _ => exact (Option.filter_eq_some_iff.mp found).1
  | empty _ _ => exact found
  | create _ _ created => cases created <;> exact found

theorem produce_rollback (step : View.Produce refs ids v u after) : after.rollback = v.rollback := by
  cases step with
  | confirm _ => rfl
  | empty _ _ => rfl
  | create _ _ created => cases created <;> rfl

theorem produces_rollback (run : View.Produces refs ids v us after) : after.rollback = v.rollback := by
  induction run with
  | nil => rfl
  | cons first _ ih => exact ih.trans (produce_rollback first)

theorem bind_owner_elsewhere (other : r ≠ i.utxo.reference) (found : (v.bind a i).owner r = some b) : v.owner r = some b := by
  simp only [View.bind,Function.update_apply,if_neg other] at found
  cases bound : v.bound a with
  | none => simp_all
  | some previous =>
    simp only [bound,Function.update_apply] at found
    grind

theorem produce_owner {u : AlephAccountUtxo O} (step : View.Produce refs ids v u after) (other : r ≠ u.outputRef)
    (found : after.owner r = some b) : v.owner r = some b := by
  cases step with
  | confirm _ => exact bind_owner_elsewhere other found
  | empty _ _ => exact bind_owner_elsewhere other found
  | create _ _ created =>
    cases created with
    | resume _ _ => exact bind_owner_elsewhere other found
    | unbound _ => exact found

-- An output nobody has seen, and accounts whose outputs were spent without a plan.
@[grind cases eager] structure Unseen (v : View O) (ids : List AccountId) (r : OutputRef) : Prop where
  unowned : v.owner r = none
  untaken : v.rollback r = none
  unplanned : ∀ a ∈ ids, ∀ n r s, v.snapshots n ≠ some (a,r,s)

theorem Unseen.produce {u : AlephAccountUtxo O} (unseen : Unseen v ids r) (step : View.Produce refs ids v u after) (other : r ≠ u.outputRef) :
    Unseen after ids r where
  unowned := by
    apply Option.eq_none_iff_forall_ne_some.mpr
    intro b found
    cases unseen.unowned.symm.trans (produce_owner step other found)
  untaken := by
    rw [produce_rollback step]
    exact unseen.untaken
  unplanned := fun a member n r s found => unseen.unplanned a member n r s (produce_snapshots step found)

theorem Steady.produce {u : AlephAccountUtxo O} (steady : Steady v) (step : View.Produce refs ids v u after)
    (unseen : Unseen v ids u.outputRef) : Steady after := by
  cases step with
  | @confirm a s agrees =>
    obtain ⟨⟨n,r,found,inside,root⟩,_⟩ := agrees
    refine (steady.drop _).bind (steady.waiting (steady.planned found)) ?_ unseen.unowned unseen.untaken
    intro n' r' s' left
    obtain ⟨found',kept⟩ := Option.filter_eq_some_iff.mp left
    grind
  | empty _ sole =>
    obtain ⟨rfl,_,waits⟩ := sole
    exact steady.bind (steady.waiting waits) (unseen.unplanned _ (List.mem_singleton.mpr rfl)) unseen.unowned unseen.untaken
  | create _ _ created =>
    cases created with
    | resume found _ => cases (steady.unloaded u.outputRef).symm.trans found
    | unbound _ =>
      refine ⟨steady.linked,?_,?_,steady.waiting,steady.planned,steady.single,steady.unloaded⟩
      · intro r a found
        simp only [View.leaveUnbound,Function.update_apply]
        rw [if_neg]
        · exact steady.apart found
        · rintro rfl
          cases unseen.unowned.symm.trans found
      · intro r x found
        simp only [View.leaveUnbound,Function.update_apply]
        rw [if_neg]
        · exact steady.taken found
        · rintro rfl
          cases unseen.untaken.symm.trans found

theorem Steady.produces {us : List (AlephAccountUtxo O)} (steady : Steady v) (run : View.Produces refs ids v us after)
    (unseen : ∀ u ∈ us, Unseen v ids u.outputRef) (distinct : (us.map AlephAccountUtxo.outputRef).Nodup) : Steady after := by
  induction run with
  | nil => exact steady
  | @cons v u middle us after first rest ih =>
    rw [List.map_cons,List.nodup_cons] at distinct
    apply ih (steady.produce first (unseen u List.mem_cons_self)) _ distinct.2
    intro u' member
    apply (unseen u' (List.mem_cons_of_mem _ member)).produce first
    grind

theorem external_waiting (waits : a ∈ index.view.pending) (r : OutputRef) : (index.bindExternalAccountIdOnce a r).1 = index := by
  have waits : a ∈ index.pendingByAccountId := waits
  simp [AccountIndex.bindExternalAccountIdOnce,waits]

theorem Steady.external (plain : index.Plain) (sound : Sound ext txs index.view known spent) (steady : Steady index.view)
    (a : AccountId) (r : OutputRef) : Steady (index.bindExternalAccountIdOnce a r).1.view := by
  by_cases waits : a ∈ index.view.pending
  · rw [external_waiting waits]
    exact steady
  · obtain ⟨same | ⟨u,unbound,unowned,observed,_,bound⟩,_⟩ := bindExternalAccountIdOnce_view plain a r
    · rw [same]
      exact steady
    · rw [bound]
      obtain ⟨_,rfl,_⟩ := sound.unbound_known observed
      have untaken : index.view.rollback u.outputRef = none := by
        apply Option.eq_none_iff_forall_ne_some.mpr
        grind
      have erased : Steady {index.view with unbound:=Function.update index.view.unbound u.outputRef none} := by
        refine ⟨steady.linked,?_,?_,steady.waiting,steady.planned,steady.single,steady.unloaded⟩
        · grind
        grind
      exact erased.bind unbound (fun n r s found => waits (steady.planned found)) unowned untaken

theorem Follows.append {before last chain : List (TxView O)} (early : Follows ext txs hashed chain index before middle)
    (late : Follows ext txs hashed (before ++ chain) middle last final) : Follows ext txs hashed chain index (last ++ before) final := by
  induction late with
  | start => exact early
  | bind _ a r ih => exact .bind ih a r
  | plan _ call base inside planned ih => exact .plan ih call base inside planned
  | apply _ fits ih =>
    rw [← List.append_assoc] at fits
    exact .apply ih fits

-- A steady index whose outputs are all from the transactions it has seen.
@[grind cases eager] structure Settling (ext : Externals O) (txs : Digest → TxView O) (index : AccountIndex O) (seen : List (TxView O)) : Prop where
  plain : index.Plain
  sound : Sound ext txs index.view (Live seen) (fun _ => True)
  steady : Steady index.view
  recorded : ∀ {r x}, index.view.rollback r = some x → r ∈ produced seen

theorem live_mono {tx : TxView O} {seen : List (TxView O)} (live : Live seen r) (unspent : r ∉ tx.inputs) : Live (tx :: seen) r := by
  obtain ⟨made,kept⟩ := live
  refine ⟨List.mem_append_right _ made,?_⟩
  intro spent
  rcases List.mem_append.mp spent with here | before
  · exact unspent here
  · exact kept before

section Apply
variable {chain seen : List (TxView O)} {tx : TxView O}

theorem Settling.consumed_recorded (settling : Settling ext txs index seen) (nodup : tx.inputs.Nodup)
    (found : (tx.inputs.foldl View.consume index.view).rollback r = some x) : r ∈ produced seen := by
  rw [settling.sound.consumes_rollback nodup] at found
  split at found
  · rcases Option.or_eq_some_iff.mp found with held | ⟨_,earlier⟩
    · obtain ⟨owner,_⟩ := View.holder_some.mp held
      exact (settling.sound.owner_known owner).1
    · exact settling.recorded earlier
  · exact settling.recorded found

theorem Settling.listed (settling : Settling ext txs index seen) (listed : a ∈ index.view.spentIds tx.inputs) :
    ∃ i, index.view.bound a = some i ∧ i.utxo.reference ∈ tx.inputs := by
  obtain ⟨r,input,owner⟩ := List.mem_filterMap.mp (List.mem_dedup.mp listed)
  obtain ⟨i,bound,rfl⟩ := settling.sound.owned owner
  exact ⟨i,bound,input⟩

theorem Settling.unseen (settling : Settling ext txs index seen) (fits : Fits txs (seen ++ chain) tx) (member : u ∈ tx.accounts ext) :
    Unseen (tx.inputs.foldl View.consume index.view) (index.view.spentIds tx.inputs) u.outputRef := by
  have fresh : u.outputRef ∉ produced seen := by
    intro made
    apply fits.refs_new _ (mem_accounts member).1
    rw [produced_append]
    exact List.mem_append_left _ made
  refine ⟨?_,?_,?_⟩
  · apply Option.eq_none_iff_forall_ne_some.mpr
    intro b found
    rw [View.consumes_owner] at found
    split at found
    · cases found
    · exact fresh (settling.sound.owner_known found).1
  · apply Option.eq_none_iff_forall_ne_some.mpr
    intro x found
    exact fresh (settling.consumed_recorded fits.inputs_nodup found)
  · intro a listed n r s found
    rw [View.consumes_snapshots] at found
    obtain ⟨i,bound,_⟩ := settling.listed listed
    grind

theorem Settling.apply (settling : Settling ext txs index seen) (consistent : Consistent txs (seen ++ chain))
    (fits : Fits txs (seen ++ chain) tx) : Settling ext txs (applyAccountEvents index (scanAccountEvents ext tx)) (tx :: seen) := by
  obtain ⟨produces,plain⟩ := apply_view ext settling.plain fits.inputs_nodup
  have created : ∀ {r}, r ∈ tx.refs → Live (tx :: seen) r := by
    intro r made
    refine ⟨List.mem_append_left _ made,?_⟩
    intro spent
    rcases List.mem_append.mp spent with here | earlier
    · exact input_not_ref fits here made
    · refine fits.refs_new r made (consistent.consumed_produced ?_)
      rw [consumed_append]
      exact List.mem_append_left _ earlier
  refine ⟨plain,?_,?_,?_⟩
  · refine Sound.produces ?_ produces (fun _ _ => trivial) (fun u member => ⟨created (mem_accounts member).1,observed_accounts fits member⟩)
    exact (settling.sound.consumes tx.inputs).widen (fun r left => live_mono left.1 left.2) (fun _ _ => trivial)
  · exact (settling.steady.consumes tx.inputs).produces produces (fun u => settling.unseen fits) (accounts_nodup fits.refs_nodup)
  · intro r x found
    rw [produces_rollback produces] at found
    exact List.mem_append_right _ (settling.consumed_recorded fits.inputs_nodup found)

end Apply

theorem Settling.plan {call : PlanCall} (settling : Settling ext txs index seen) (done : call.Done ext index a r after n base p) :
    Settling ext txs after seen := by
  refine ⟨done.plain settling.plain,?_,?_,?_⟩
  · rw [done.view.1]
    exact settling.sound.plan done.from_base p
  · rw [done.view.1]
    exact settling.steady.plan done.from_base p
  · intro r' x found
    rw [done.view.1,View.plan_rollback] at found
    split at found
    · rename_i same
      subst same
      rcases Option.or_eq_some_iff.mp found with held | ⟨_,earlier⟩
      · obtain ⟨i,bound,_⟩ := Option.map_eq_some_iff.mp held
        cases done.from_base with
        | bound bound' at_ref =>
          have owner := settling.steady.linked bound'
          rw [at_ref] at owner
          exact (settling.sound.owner_known owner).1
        | replan unbound _ _ _ => cases unbound.symm.trans bound
      · exact settling.recorded earlier
    · exact settling.recorded found

theorem external_rollback (plain : index.Plain) (a : AccountId) (r : OutputRef) :
    (index.bindExternalAccountIdOnce a r).1.view.rollback = index.view.rollback := by
  obtain ⟨same | ⟨u,_,_,_,_,bound⟩,_⟩ := bindExternalAccountIdOnce_view plain a r
  · rw [same]
  · rw [bound]
    rfl

theorem Follows.settling {seen chain : List (TxView O)} (consistent : Consistent txs chain)
    (follows : Follows ext txs hashed chain {AccountIndex.default with persistence:=some none} seen now) : Settling ext txs now seen := by
  induction follows with
  | start =>
    have restarted : Restarted (AccountIndex.view {AccountIndex.default (O := O) with persistence:=some none}) :=
      ⟨rfl,rfl,rfl,rfl,nofun⟩
    refine ⟨⟨rfl,rfl⟩,restarted.sound ..,?_,?_⟩
    · refine ⟨?_,?_,?_,fun _ => rfl,?_,?_,fun _ => rfl⟩
      · intro a i found
        cases found
      · intro r a found
        cases found
      · intro r x found
        cases found
      · intro n a r s found
        cases found
      tauto
    · intro r x found
      cases found
  | bind _ a r ih =>
    refine ⟨(bindExternalAccountIdOnce_view ih.plain a r).2,ih.sound.external ih.plain a r,ih.steady.external ih.plain ih.sound a r,?_⟩
    intro r' x found
    rw [external_rollback ih.plain] at found
    exact ih.recorded found
  | plan _ call _ _ planned ih =>
    obtain ⟨_,_,done,_⟩ := call.run_ok planned
    exact ih.plan done
  | apply prior fits ih => exact ih.apply ((prior.run (.fresh consistent)).consistent) fits

-- An account stays where it is, or its plan from there does, until the output is spent.
inductive Keeps (v : View O) (a : AccountId) (i : IndexedAccount O) : Prop where
  | bound (found : v.bound a = some i) : Keeps v a i
  | planned (plan : v.snapshots n = some (a,i.utxo.reference,s)) : Keeps v a i

theorem Keeps.plans (keeps : Keeps v a i) (steady : Steady v) (plan : v.snapshots n = some (a,r,s)) : r = i.utxo.reference := by
  cases keeps with
  | bound found => exact absurd plan (steady.idle found n r s)
  | planned other => grind

theorem Keeps.produce {u : AlephAccountUtxo O} (keeps : Keeps v a i) (steady : Steady v) (step : View.Produce refs ids v u after)
    (unspent : i.utxo.reference ∉ refs) (unlisted : a ∉ ids) : Keeps after a i := by
  cases step with
  | @confirm b s agrees =>
    obtain ⟨⟨n,r,found,inside,root⟩,_⟩ := agrees
    have other : a ≠ b := by
      rintro rfl
      exact unspent (keeps.plans steady found ▸ inside)
    cases keeps with
    | bound bound => exact .bound (by rw [View.confirm,View.bind_bound,if_neg other]; exact bound)
    | planned plan => exact .planned (Option.filter_eq_some_iff.mpr ⟨plan,decide_eq_true (fun gone => unspent gone.1)⟩)
  | @empty b _ sole =>
    obtain ⟨rfl,_,_⟩ := sole
    have other : a ≠ b := fun same => unlisted (List.mem_singleton.mpr same)
    cases keeps with
    | bound bound => exact .bound (by rw [View.bind_bound,if_neg other]; exact bound)
    | planned plan => exact .planned plan
  | create _ _ created =>
    cases created with
    | resume found _ => cases (steady.unloaded u.outputRef).symm.trans found
    | unbound _ =>
      cases keeps with
      | bound bound => exact .bound bound
      | planned plan => exact .planned plan

theorem Keeps.produces {us : List (AlephAccountUtxo O)} (keeps : Keeps v a i) (steady : Steady v) (run : View.Produces refs ids v us after)
    (unseen : ∀ u ∈ us, Unseen v ids u.outputRef) (distinct : (us.map AlephAccountUtxo.outputRef).Nodup)
    (unspent : i.utxo.reference ∉ refs) (unlisted : a ∉ ids) : Keeps after a i := by
  induction run with
  | nil => exact keeps
  | @cons v u middle us after first rest ih =>
    rw [List.map_cons,List.nodup_cons] at distinct
    have here := unseen u List.mem_cons_self
    refine ih (keeps.produce steady first unspent unlisted) (steady.produce first here) ?_ distinct.2
    intro u' member
    apply (unseen u' (List.mem_cons_of_mem _ member)).produce first
    grind

theorem Keeps.unlisted {tx : TxView O} {seen : List (TxView O)} (keeps : Keeps index.view a i) (settling : Settling ext txs index seen)
    (unspent : i.utxo.reference ∉ tx.inputs) : a ∉ index.view.spentIds tx.inputs := by
  intro listed
  obtain ⟨j,bound,input⟩ := settling.listed listed
  cases keeps with
  | bound found => grind
  | planned plan => cases bound.symm.trans (settling.steady.waiting (settling.steady.planned plan))

theorem Keeps.apply {tx : TxView O} {seen chain : List (TxView O)} (keeps : Keeps index.view a i) (settling : Settling ext txs index seen)
    (fits : Fits txs (seen ++ chain) tx) (unspent : i.utxo.reference ∉ tx.inputs) :
    Keeps (applyAccountEvents index (scanAccountEvents ext tx)).view a i := by
  have unlisted := keeps.unlisted settling unspent
  have left : Keeps (tx.inputs.foldl View.consume index.view) a i := by
    cases keeps with
    | bound found =>
      refine .bound ?_
      rw [View.consumes_bound,if_neg]
      · exact found
      grind
    | planned plan => exact .planned ((congrFun (View.consumes_snapshots ..) _).trans plan)
  exact left.produces (settling.steady.consumes tx.inputs) (apply_view ext settling.plain fits.inputs_nodup).1
    (fun u => settling.unseen fits) (accounts_nodup fits.refs_nodup) unspent unlisted

theorem Keeps.plan {call : PlanCall} (keeps : Keeps index.view a i) (settling : Settling ext txs index seen)
    (done : call.Done ext index b r after n base p) : Keeps after.view a i := by
  rw [done.view.1]
  by_cases own : a = b
  · subst own
    -- the plan is the account's, so it starts where the account is kept
    have here : r = i.utxo.reference := by
      cases done.from_base with
      | bound bound at_ref =>
        cases keeps with
        | bound found => grind
        | planned plan => exact absurd plan (settling.steady.idle bound _ _ _)
      | replan _ _ _ pending => exact keeps.plans settling.steady pending
    subst here
    exact .planned ((View.plan_snapshots ..).mpr (show if index.view.next = index.view.next then _ else _ by rw [if_pos rfl]))
  · cases keeps with
    | bound found => exact .bound (by rw [View.plan_bound,if_neg own]; exact found)
    | @planned m s plan =>
      have old : m ≠ index.view.next := Nat.ne_of_lt (settling.sound.fresh plan)
      exact .planned ((View.plan_snapshots ..).mpr (by rw [if_neg old]; exact ⟨plan,fun gone => own gone.1⟩))

theorem Keeps.external {seen : List (TxView O)} (keeps : Keeps index.view a i) (settling : Settling ext txs index seen) (b : AccountId)
    (r : OutputRef) : Keeps (index.bindExternalAccountIdOnce b r).1.view a i := by
  obtain ⟨same | ⟨u,unbound,_,_,_,bound⟩,_⟩ := bindExternalAccountIdOnce_view settling.plain b r
  · rw [same]
    exact keeps
  · rw [bound]
    cases keeps with
    | bound found =>
      refine .bound ?_
      grind
    | planned plan => exact .planned plan

theorem Keeps.follows {before last chain : List (TxView O)} (consistent : Consistent txs chain)
    (early : Follows ext txs hashed chain {AccountIndex.default with persistence:=some none} before middle)
    (late : Follows ext txs hashed (before ++ chain) middle last final) (keeps : Keeps middle.view a i)
    (unspent : i.utxo.reference ∉ consumed last) : Keeps final.view a i := by
  induction late with
  | start => exact keeps
  | bind prior b r ih => exact (ih unspent).external ((early.append prior).settling consistent) b r
  | plan prior call _ _ planned ih =>
    obtain ⟨_,_,done,_⟩ := call.run_ok planned
    exact (ih unspent).plan ((early.append prior).settling consistent) done
  | apply prior fits ih =>
    rw [← List.append_assoc] at fits
    exact (ih (fun spent => unspent (List.mem_append_right _ spent))).apply ((early.append prior).settling consistent) fits
      (fun spent => unspent (List.mem_append_left _ spent))

end
end GreenAgent.Account
