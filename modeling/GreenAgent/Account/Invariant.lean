import GreenAgent.Account.Ledger

namespace GreenAgent.Account
open Mpf (Bytes Digest emptyRoot bind_ok)

-- The recorded output is the one its reference names, and its datum has the
-- root of the recorded store.
@[grind cases eager] structure Carries (ext : Externals O) (txs : Digest → TxView O) (i : IndexedAccount O) : Prop where
  named : outputAt txs i.utxo.reference = some i.utxo.output
  root : ∃ state, ext.accountState i.utxo.output = some state ∧ state.storeRoot = i.store.root

@[grind cases eager] structure Observed (ext : Externals O) (txs : Digest → TxView O) (u : AlephAccountUtxo O) : Prop where
  named : outputAt txs u.outputRef = some u.output
  parsed : ext.accountState u.output = some u.state

theorem Observed.carries {ext : Externals O} (seen : Observed ext txs u) (root : u.state.storeRoot = s.root) :
    Carries ext txs ⟨u.finalizedOutput,s⟩ := ⟨seen.named,u.state,seen.parsed,root⟩

-- What holds of every reached index. An account can be bound at an output that
-- `by_output_ref` no longer gives to it (a plan for another account of the same
-- output takes the entry), so only one direction of the link is kept.
@[grind cases eager] structure Sound (ext : Externals O) (txs : Digest → TxView O) (v : View O) (known spent : OutputRef → Prop) : Prop where
  owned : ∀ {r a}, v.owner r = some a → ∃ i, v.bound a = some i ∧ i.utxo.reference = r
  owner_known : ∀ {r a}, v.owner r = some a → known r
  bound_carries : ∀ {a i}, v.bound a = some i → Carries ext txs i
  unbound_known : ∀ {r u}, v.unbound r = some u → known r ∧ u.outputRef = r ∧ Observed ext txs u
  taken_carries : ∀ {r a i}, v.rollback r = some (a,i) → i.utxo.reference = r ∧ Carries ext txs i
  taken_cause : ∀ {r x}, v.rollback r = some x → spent r ∨ ∃ n b s, v.snapshots n = some (b,r,s)
  fresh : ∀ {n e}, v.snapshots n = some e → n < v.next

section
variable {O : Type} {ext : Externals O} {txs : Digest → TxView O} {v : View O} {known spent : OutputRef → Prop}

-- A reference that names an account output.
def AccountRef (ext : Externals O) (txs : Digest → TxView O) (r : OutputRef) : Prop :=
  ∃ o state, outputAt txs r = some o ∧ ext.accountState o = some state

theorem Carries.accountRef (carries : Carries ext txs i) : AccountRef ext txs i.utxo.reference := by
  obtain ⟨named,state,parsed,_⟩ := carries
  exact ⟨_,state,named,parsed⟩

theorem Sound.retarget (sound : Sound ext txs v known spent) (more : ∀ r, known r → AccountRef ext txs r → known' r)
    (same : ∀ r, spent r → spent' r) : Sound ext txs v known' spent' where
  owned := sound.owned
  owner_known := by
    intro r a found
    obtain ⟨i,bound,rfl⟩ := sound.owned found
    exact more _ (sound.owner_known found) (sound.bound_carries bound).accountRef
  bound_carries := sound.bound_carries
  unbound_known := by
    intro r u found
    obtain ⟨here,rfl,seen⟩ := sound.unbound_known found
    exact ⟨more _ here ⟨_,_,seen.named,seen.parsed⟩,rfl,seen⟩
  taken_carries := sound.taken_carries
  taken_cause := fun found => (sound.taken_cause found).imp_left (same _)
  fresh := sound.fresh

theorem Sound.widen (sound : Sound ext txs v known spent) (more : ∀ r, known r → known' r) (same : ∀ r, spent r → spent' r) :
    Sound ext txs v known' spent' := sound.retarget (fun r here _ => more r here) same

theorem Sound.bind_owner (sound : Sound ext txs v known spent) (found : (v.bind a i).owner r = some b) :
    (r = i.utxo.reference ∧ b = a) ∨ (b ≠ a ∧ v.owner r = some b) := by
  simp only [View.bind,Function.update_apply] at found
  split at found
  · grind
  · right
    cases bound : v.bound a with
    | none =>
      simp only [bound] at found
      grind
    | some previous =>
      simp only [bound,Function.update_apply] at found
      grind

theorem Sound.bind (sound : Sound ext txs v known spent) (a : AccountId) (i : IndexedAccount O) (carries : Carries ext txs i)
    (here : known i.utxo.reference) : Sound ext txs (v.bind a i) known spent where
  owned := by
    intro r b found
    rcases sound.bind_owner found with ⟨rfl,rfl⟩ | ⟨other,before⟩
    · exact ⟨i,by simp,rfl⟩
    grind
  owner_known := by
    intro r b found
    rcases sound.bind_owner found with ⟨rfl,_⟩ | ⟨_,before⟩
    · exact here
    · exact sound.owner_known before
  bound_carries := by grind
  unbound_known := by grind
  taken_carries := sound.taken_carries
  taken_cause := sound.taken_cause
  fresh := sound.fresh

-- A snapshot can go when the output it was planned from is spent or has no
-- rollback record to justify.
theorem Sound.drop (sound : Sound ext txs v known spent) (gone : AccountId × OutputRef × AccountStore → Prop) [DecidablePred gone]
    (safe : ∀ e, gone e → spent e.2.1 ∨ v.rollback e.2.1 = none) : Sound ext txs (v.dropSnapshots gone) known spent where
  owned := sound.owned
  owner_known := sound.owner_known
  bound_carries := sound.bound_carries
  unbound_known := sound.unbound_known
  taken_carries := sound.taken_carries
  taken_cause := by
    intro r x taken
    rcases sound.taken_cause taken with here | ⟨n,b,s,found⟩
    · exact .inl here
    · by_cases dropped : gone (b,r,s)
      · rcases safe _ dropped with here | absent
        · exact .inl here
        · cases absent.symm.trans taken
      · exact .inr ⟨n,b,s,by simp [View.dropSnapshots,found,Option.filter,dropped]⟩
  fresh := fun found => sound.fresh (Option.filter_eq_some_iff.mp found).1

theorem Sound.remove (sound : Sound ext txs v known spent) (r : OutputRef) :
    Sound ext txs (v.remove r) (fun r' => known r' ∧ r' ≠ r) spent where
  owned := by grind
  owner_known := by grind
  bound_carries := by grind
  unbound_known := by grind
  taken_carries := by
    intro r' a i found
    rw [View.remove_rollback] at found
    exact sound.taken_carries found
  taken_cause := by
    intro r' x found
    rw [View.remove_rollback] at found
    rw [View.remove_snapshots]
    exact sound.taken_cause found
  fresh := by
    intro n e found
    rw [View.remove_snapshots] at found
    grind

theorem Sound.consume (sound : Sound ext txs v known spent) (r : OutputRef) :
    Sound ext txs (v.consume r) (fun r' => known r' ∧ r' ≠ r) (fun r' => spent r' ∨ r' = r) where
  owned := (sound.remove r).owned
  owner_known := (sound.remove r).owner_known
  bound_carries := (sound.remove r).bound_carries
  unbound_known := (sound.remove r).unbound_known
  taken_carries := by
    intro r' a i found
    rw [View.consume_rollback] at found
    split at found
    · rename_i same
      subst same
      rcases Option.or_eq_some_iff.mp found with held | ⟨_,before⟩
      · unfold View.holder at held
        obtain ⟨a',owner,held⟩ := Option.bind_eq_some_iff.mp held
        grind
      · exact sound.taken_carries before
    · exact sound.taken_carries found
  taken_cause := by
    intro r' x found
    rw [View.consume_rollback] at found
    rw [View.consume_snapshots]
    grind
  fresh := (sound.remove r).fresh

theorem Sound.forget (sound : Sound ext txs v known spent) (r : OutputRef) :
    Sound ext txs {v with rollback:=Function.update v.rollback r none} known (fun r' => spent r' ∧ r' ≠ r) where
  owned := sound.owned
  owner_known := sound.owner_known
  bound_carries := sound.bound_carries
  unbound_known := sound.unbound_known
  taken_carries := by grind
  taken_cause := by grind
  fresh := sound.fresh

theorem Sound.unconsume (sound : Sound ext txs v known spent) (r : OutputRef) :
    Sound ext txs (v.unconsume r) (fun r' => known r' ∨ r' = r) (fun r' => spent r' ∧ r' ≠ r) := by
  unfold View.unconsume
  have forgotten : Sound ext txs {v with rollback:=Function.update v.rollback r none} (fun r' => known r' ∨ r' = r)
      (fun r' => spent r' ∧ r' ≠ r) := (sound.forget r).widen (fun _ => Or.inl) (fun _ => id)
  cases taken : v.rollback r with
  | none =>
    have same : {v with rollback:=Function.update v.rollback r none} = v := by
      rw [update_none_self _ taken]
    rw [same] at forgotten
    refine forgotten.drop _ ?_
    rintro e rfl
    exact .inr taken
  | some entry =>
    obtain ⟨a,i⟩ := entry
    obtain ⟨at_ref,carries⟩ := sound.taken_carries taken
    refine (forgotten.bind a i carries (.inr at_ref)).drop _ ?_
    rintro e rfl
    right
    simp

theorem Sound.plan (sound : Sound ext txs v known spent) (from_base : v.Base a r base) (p : AccountStore) :
    Sound ext txs (v.plan a r p) known spent where
  owned := by
    intro r' b found
    rw [View.plan_owner] at found
    split at found
    · cases found
    · rename_i other
      obtain ⟨i,bound,at_ref⟩ := sound.owned found
      refine ⟨i,?_,at_ref⟩
      rw [View.plan_bound,if_neg,bound]
      rintro rfl
      cases from_base with
      | bound bound' at_ref' => grind
      | replan unbound _ _ _ => cases unbound.symm.trans bound
  owner_known := by grind
  bound_carries := by grind
  unbound_known := sound.unbound_known
  taken_carries := by
    intro r' b i found
    rw [View.plan_rollback] at found
    split at found
    · rename_i same
      subst same
      rcases Option.or_eq_some_iff.mp found with held | ⟨_,before⟩
      · obtain ⟨j,bound,same⟩ := Option.map_eq_some_iff.mp held
        cases same
        cases from_base with
        | bound bound' at_ref => grind
        | replan unbound _ _ _ => cases unbound.symm.trans bound
      · exact sound.taken_carries before
    · exact sound.taken_carries found
  taken_cause := by
    intro r' x found
    by_cases same : r' = r
    · subst same
      exact .inr ⟨v.next,a,p,(View.plan_snapshots ..).mpr (by simp)⟩
    · rw [View.plan_rollback,if_neg same] at found
      rcases sound.taken_cause found with here | ⟨n,b,s,pending⟩
      · exact .inl here
      · refine .inr ⟨n,b,s,(View.plan_snapshots ..).mpr ?_⟩
        grind
  fresh := by
    intro n e found
    have found := (View.plan_snapshots ..).mp found
    grind

theorem Sound.unload (sound : Sound ext txs v known spent) (r : OutputRef) :
    Sound ext txs {v with persisted:=Function.update v.persisted r none} known spent :=
  ⟨sound.owned,sound.owner_known,sound.bound_carries,sound.unbound_known,sound.taken_carries,sound.taken_cause,sound.fresh⟩

theorem Sound.produce {u : AlephAccountUtxo O} (sound : Sound ext txs v known spent) (step : View.Produce refs ids v u after)
    (gone : ∀ r ∈ refs, spent r) (here : known u.outputRef) (seen : Observed ext txs u) : Sound ext txs after known spent := by
  cases step with
  | confirm agrees =>
    obtain ⟨⟨n,r,found,inside,root⟩,_⟩ := agrees
    refine (sound.drop _ ?_).bind _ _ (seen.carries root.symm) here
    grind
  | empty _ sole => exact sound.bind _ _ (seen.carries sole.2.1) here
  | create _ _ created =>
    cases created with
    | resume found root =>
      exact (sound.unload u.outputRef).bind _ _ (seen.carries root.symm) here
    | unbound _ =>
      refine ⟨sound.owned,sound.owner_known,sound.bound_carries,?_,sound.taken_carries,sound.taken_cause,sound.fresh⟩
      intro r u' found
      simp only [View.leaveUnbound,Function.update_apply] at found
      grind

theorem Sound.produces {us : List (AlephAccountUtxo O)} (sound : Sound ext txs v known spent)
    (run : View.Produces refs ids v us after) (gone : ∀ r ∈ refs, spent r)
    (here : ∀ u ∈ us, known u.outputRef ∧ Observed ext txs u) : Sound ext txs after known spent := by
  induction run with
  | nil => exact sound
  | @cons v u middle us after first rest ih =>
    have head := here u List.mem_cons_self
    exact ih (sound.produce first gone head.1 head.2) (fun u member => here u (List.mem_cons_of_mem _ member))

theorem Sound.consumes (sound : Sound ext txs v known spent) (refs : List OutputRef) :
    Sound ext txs (refs.foldl View.consume v) (fun r => known r ∧ r ∉ refs) (fun r => spent r ∨ r ∈ refs) := by
  induction refs generalizing v known spent with
  | nil => exact sound.widen (fun r here => ⟨here,List.not_mem_nil⟩) (fun r => Or.inl)
  | cons r refs ih =>
    refine (ih (sound.consume r)).widen ?_ ?_
    · grind
    grind

theorem Sound.unconsumes (sound : Sound ext txs v known spent) (refs : List OutputRef) :
    Sound ext txs (refs.foldl View.unconsume v) (fun r => known r ∨ r ∈ refs) (fun r => spent r ∧ r ∉ refs) := by
  induction refs generalizing v known spent with
  | nil => exact sound.widen (fun r => Or.inl) (fun r here => ⟨here,List.not_mem_nil⟩)
  | cons r refs ih =>
    refine (ih (sound.unconsume r)).widen ?_ ?_
    · grind
    grind

theorem Sound.removes (sound : Sound ext txs v known spent) (refs : List OutputRef) :
    Sound ext txs (refs.foldl View.remove v) (fun r => known r ∧ r ∉ refs) spent := by
  induction refs generalizing v known with
  | nil => exact sound.widen (fun r here => ⟨here,List.not_mem_nil⟩) (fun r => id)
  | cons r refs ih =>
    refine (ih (sound.remove r)).widen ?_ (fun r => id)
    grind

theorem Sound.unlist (sound : Sound ext txs v known spent) (r : OutputRef) :
    Sound ext txs {v with unbound:=Function.update v.unbound r none} known spent := by
  refine ⟨sound.owned,sound.owner_known,sound.bound_carries,?_,sound.taken_carries,sound.taken_cause,sound.fresh⟩
  intro r' u found
  grind

theorem Sound.external {index : AccountIndex O} (plain : index.Plain) (sound : Sound ext txs index.view known spent)
    (a : AccountId) (r : OutputRef) : Sound ext txs (index.bindExternalAccountIdOnce a r).1.view known spent := by
  obtain ⟨same | ⟨u,_,_,observed,root,bound⟩,_⟩ := bindExternalAccountIdOnce_view plain a r
  · rw [same]
    exact sound
  · rw [bound]
    obtain ⟨here,rfl,seen⟩ := sound.unbound_known observed
    exact (sound.unlist u.outputRef).bind a _ (seen.carries root) here

theorem observed_accounts {tx : TxView O} (fits : Fits txs chain tx) (member : u ∈ tx.accounts ext) : Observed ext txs u :=
  ⟨outputAt_account fits.named fits.refs_nodup member,(mem_accounts member).2⟩

theorem Sound.apply {index : AccountIndex O} (plain : index.Plain)
    (sound : Sound ext txs index.view (Live chain) (fun r => r ∈ consumed chain)) (consistent : Consistent txs chain)
    (fits : Fits txs chain tx) :
    Sound ext txs (applyAccountEvents index (scanAccountEvents ext tx)).view (Live (tx :: chain))
      (fun r => r ∈ consumed (tx :: chain)) := by
  have spent : Sound ext txs (tx.inputs.foldl View.consume index.view) (Live (tx :: chain))
      (fun r => r ∈ consumed (tx :: chain)) := by
    refine (sound.consumes tx.inputs).widen (fun r left => (live_cons consistent fits).mpr (.inl left)) ?_
    rintro r (before | here)
    · exact List.mem_append_right _ before
    · exact List.mem_append_left _ here
  refine spent.produces (apply_view ext plain fits.inputs_nodup).1 (fun r here => List.mem_append_left _ here) ?_
  intro u member
  exact ⟨(live_cons consistent fits).mpr (.inr (mem_accounts member).1),observed_accounts fits member⟩

theorem Sound.revert {index : AccountIndex O} (plain : index.Plain)
    (sound : Sound ext txs index.view (Live (tx :: chain)) (fun r => r ∈ consumed (tx :: chain)))
    (consistent : Consistent txs (tx :: chain)) :
    Sound ext txs (revertAccountEvents index (scanAccountEvents ext tx)).view (Live chain) (fun r => r ∈ consumed chain) := by
  obtain ⟨prior,fits⟩ := consistent.tail
  rw [(revert_view ext plain tx).1]
  refine ((sound.unconsumes tx.inputs).removes _).retarget ?_ ?_
  · rintro r ⟨here,absent⟩ ⟨o,state,named,parsed⟩
    rcases here with live | input
    · rcases (live_cons prior fits).mp live with ⟨before,_⟩ | created
      · exact before
      · exact absurd (List.mem_map.mpr ⟨_,account_of_ref fits.named created named parsed,rfl⟩) absent
    · exact fits.inputs_live r input
  · rintro r ⟨here,absent⟩
    exact (List.mem_append.mp here).resolve_left absent

theorem le_foldl_max (list : List Nat) (start : Nat) : start ≤ list.foldl max start ∧ ∀ n ∈ list, n ≤ list.foldl max start := by
  induction list generalizing start with
  | nil => simp
  | cons first rest ih => grind

-- After a restart nothing is bound, observed or taken until the chain says so.
@[grind cases eager] structure Restarted (v : View O) : Prop where
  bound : v.bound = fun _ => none
  owner : v.owner = fun _ => none
  unbound : v.unbound = fun _ => none
  rollback : v.rollback = fun _ => none
  fresh : ∀ {n e}, v.snapshots n = some e → n < v.next

theorem Restarted.sound (restarted : Restarted v) (ext : Externals O) (txs : Digest → TxView O) (known spent : OutputRef → Prop) :
    Sound ext txs v known spent := by
  obtain ⟨bound,owner,unbound,rollback,fresh⟩ := restarted
  refine ⟨?_,?_,?_,?_,?_,?_,fresh⟩ <;> simp [bound,owner,unbound,rollback]

theorem withPersistencePath_restarted (loaded : AccountIndex.withPersistencePath ext saved = .ok index) :
    Restarted index.view ∧ index.Plain := by
  unfold AccountIndex.withPersistencePath at loaded
  dsimp only at loaded
  split at loaded
  · cases loaded
  · cases loaded
    exact ⟨⟨rfl,rfl,rfl,rfl,nofun⟩,⟨rfl,rfl⟩⟩
  · rename_i state read
    cases loaded
    refine ⟨⟨rfl,rfl,rfl,rfl,?_⟩,⟨rfl,rfl⟩⟩
    intro n e found
    rcases HashMap.lookup_collect found with absent | ⟨entry,member,rfl,_⟩
    · cases absent
    · have large := (le_foldl_max (state.pending.map (fun entry => entry.1+1)) 0).2 _ (List.mem_map.mpr ⟨entry,member,rfl⟩)
      exact lt_of_lt_of_le (Nat.lt_succ_self _) (le_trans large (le_max_right _ _))

theorem Reached.sound {index : AccountIndex O} (reached : Reached ext txs index chain) :
    index.Plain ∧ Sound ext txs index.view (Live chain) (fun r => r ∈ consumed chain) := by
  induction reached with
  | fresh persistence _ =>
    have restarted : Restarted (AccountIndex.view
        {AccountIndex.default (O := O) with persistence:=persistence.map (fun _ => none)}) := ⟨rfl,rfl,rfl,rfl,nofun⟩
    exact ⟨⟨rfl,rfl⟩,restarted.sound ..⟩
  | bind prior a r ih => exact ⟨(bindExternalAccountIdOnce_view ih.1 a r).2,ih.2.external ih.1 a r⟩
  | plan prior call planned ih =>
    obtain ⟨base,p,done,_⟩ := call.run_ok planned
    refine ⟨done.plain ih.1,?_⟩
    rw [done.view.1]
    exact ih.2.plan done.from_base p
  | apply prior fits ih => exact ⟨(apply_view ext ih.1 fits.inputs_nodup).2,ih.2.apply ih.1 prior.consistent fits⟩
  | revert prior ih => exact ⟨(revert_view ext ih.1 _).2,ih.2.revert ih.1 prior.consistent⟩
  | restart _ _ loaded k _ =>
    obtain ⟨restarted,plain⟩ := withPersistencePath_restarted loaded
    exact ⟨plain,restarted.sound ..⟩

end
end GreenAgent.Account
