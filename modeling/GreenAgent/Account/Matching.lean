import GreenAgent.Account.Invariant

namespace GreenAgent.Account
open Mpf (Digest emptyRoot)

namespace View
variable {O : Type}

theorem fold_clears {step : View O → OutputRef → View O} {field : View O → OutputRef → Option β}
    (clears : ∀ v r r', field (step v r) r' = if r' = r then none else field v r') (v : View O) (refs : List OutputRef)
    (r : OutputRef) : field (refs.foldl step v) r = if r ∈ refs then none else field v r := by
  induction refs generalizing v with
  | nil => simp
  | cons first rest ih => grind

theorem fold_keeps {step : View O → OutputRef → View O} {field : View O → β} (keeps : ∀ v r, field (step v r) = field v)
    (v : View O) (refs : List OutputRef) : field (refs.foldl step v) = field v := by
  induction refs generalizing v with
  | nil => rfl
  | cons first rest ih => rw [List.foldl_cons,ih,keeps]

theorem fold_releases {step : View O → OutputRef → View O}
    (owner : ∀ v r r', (step v r).owner r' = if r' = r then none else v.owner r')
    (bound : ∀ v r b, (step v r).bound b = if v.owner r = some b then none else v.bound b) (v : View O) (refs : List OutputRef)
    (a : AccountId) : (refs.foldl step v).bound a = if ∃ r ∈ refs, v.owner r = some a then none else v.bound a := by
  induction refs generalizing v with
  | nil => simp
  | cons first rest ih =>
    rw [List.foldl_cons,ih]
    by_cases here : v.owner first = some a
    · simp_all
    · have same : (∃ r ∈ rest, (step v first).owner r = some a) ↔ ∃ r ∈ first :: rest, v.owner r = some a := by
        constructor
        · grind
        · grind
      simp only [same,bound,if_neg here]

section Consumed
variable (v : View O) (spent : List OutputRef)

theorem consumes_owner (r : OutputRef) : (spent.foldl consume v).owner r = if r ∈ spent then none else v.owner r :=
  fold_clears consume_owner v spent r

theorem consumes_unbound (r : OutputRef) : (spent.foldl consume v).unbound r = if r ∈ spent then none else v.unbound r :=
  fold_clears consume_unbound v spent r

theorem removes_unbound (r : OutputRef) : (spent.foldl remove v).unbound r = if r ∈ spent then none else v.unbound r :=
  fold_clears remove_unbound v spent r

theorem consumes_snapshots : (spent.foldl consume v).snapshots = v.snapshots := fold_keeps consume_snapshots v spent

theorem consumes_persisted : (spent.foldl consume v).persisted = v.persisted := fold_keeps consume_persisted v spent

theorem consumes_bound (a : AccountId) : (spent.foldl consume v).bound a =
    if ∃ r ∈ spent, v.owner r = some a then none else v.bound a := fold_releases consume_owner consume_bound v spent a

theorem removes_bound (a : AccountId) : (spent.foldl remove v).bound a =
    if ∃ r ∈ spent, v.owner r = some a then none else v.bound a := fold_releases remove_owner remove_bound v spent a

theorem consumes_pending (a : AccountId) : a ∈ (spent.foldl consume v).pending ↔ (∃ r ∈ spent, v.owner r = some a) ∨ a ∈ v.pending := by
  induction spent generalizing v with
  | nil => simp
  | cons first rest ih => grind

end Consumed

-- All tracked outputs among the spent ones belong to this account.
def SoleSpent (v : View O) (spent : List OutputRef) (a : AccountId) : Prop :=
  (∃ r ∈ spent, v.owner r = some a) ∧ ∀ r ∈ spent, ∀ b, v.owner r = some b → b = a

theorem spentIds_singleton (v : View O) (spent : List OutputRef) (a : AccountId) :
    v.spentIds spent = [a] ↔ v.SoleSpent spent a := by
  have member : ∀ b, b ∈ v.spentIds spent ↔ ∃ r ∈ spent, v.owner r = some b := by
    intro b
    simp [spentIds]
  constructor
  · intro one
    refine ⟨(member a).mp (by rw [one]; exact List.mem_singleton_self a),?_⟩
    intro r inside b owner
    have listed := (member b).mpr ⟨r,inside,owner⟩
    grind
  · rintro ⟨present,only⟩
    have same : ∀ b ∈ v.spentIds spent, b = a := by grind
    have nodup : (v.spentIds spent).Nodup := List.nodup_dedup _
    have listed := (member a).mpr present
    cases ids : v.spentIds spent with
    | nil => rw [ids] at listed; cases listed
    | cons first rest =>
      rw [ids] at nodup same
      obtain rfl := same first List.mem_cons_self
      cases rest with
      | nil => rfl
      | cons second rest => simp_all

-- Which account an output goes to, told from the state before the transaction:
-- `earlier` are the outputs handled before it, `held` the accounts they went to.
@[grind cases eager] structure Claim.Confirmed (v : View O) (spent : List OutputRef) (earlier : List (AlephAccountUtxo O)) (u : AlephAccountUtxo O)
    (a : AccountId) (s : AccountStore) : Prop where
  agrees : v.Agrees spent u.state.storeRoot a s
  first : ∀ e ∈ earlier, e.state.storeRoot ≠ u.state.storeRoot

inductive Claim (v : View O) (spent : List OutputRef) (earlier : List (AlephAccountUtxo O)) (held : AccountId → Prop)
    (u : AlephAccountUtxo O) : AccountId → AccountStore → Prop where
  | confirmed (here : Claim.Confirmed v spent earlier u a s) : Claim v spent earlier held u a s
  | empty (unmatched : ∀ b t, ¬Claim.Confirmed v spent earlier u b t) (sole : v.SoleSpent spent a)
      (root : u.state.storeRoot = emptyRoot) (waits : ¬held a) : Claim v spent earlier held u a .empty
  | resumed (unmatched : ∀ b t, ¬Claim.Confirmed v spent earlier u b t)
      (full : ∀ b, v.SoleSpent spent b → u.state.storeRoot = emptyRoot → held b)
      (found : v.persisted u.outputRef = some (a,s)) (root : s.root = u.state.storeRoot) : Claim v spent earlier held u a s

-- Lists of handled outputs have the last one first.
def Held (v : View O) (spent : List OutputRef) : List (AlephAccountUtxo O) → AccountId → Prop
  | [],_ => False
  | u :: earlier,a => (∃ s, Claim v spent earlier (v.Held spent earlier) u a s) ∨ v.Held spent earlier a

-- The last output that went to the account.
inductive Ends (v : View O) (spent : List OutputRef) : List (AlephAccountUtxo O) → AccountId → AlephAccountUtxo O → AccountStore → Prop where
  | here (claim : Claim v spent earlier (v.Held spent earlier) u a s) : Ends v spent (u :: earlier) a u s
  | before (passed : ∀ s, ¬Claim v spent earlier (v.Held spent earlier) u a s) (ends : Ends v spent earlier a u' s) :
      Ends v spent (u :: earlier) a u' s

theorem Claim.unique {v : View O} (one : Claim v spent earlier held u a s) (two : Claim v spent earlier held u b t) :
    b = a ∧ t = s := by
  cases one with
  | confirmed here =>
    cases two with
    | confirmed there => exact here.agrees.unique there.agrees
    | empty unmatched _ _ _ => exact absurd here (unmatched _ _)
    | resumed unmatched _ _ _ => exact absurd here (unmatched _ _)
  | empty unmatched sole root waits =>
    cases two with
    | confirmed there => exact absurd there (unmatched _ _)
    | empty _ sole' _ _ =>
      obtain ⟨⟨r,inside,owner⟩,_⟩ := sole'
      exact ⟨sole.2 r inside b owner,rfl⟩
    | resumed _ full _ _ => exact absurd (full a sole root) waits
  | resumed unmatched full found root =>
    cases two with
    | confirmed there => exact absurd there (unmatched _ _)
    | empty _ sole root' waits => exact absurd (full b sole root') waits
    | resumed _ _ found' _ => grind

theorem Ends.held {v : View O} (ends : Ends v spent handled a u s) : v.Held spent handled a := by
  induction ends with
  | here claim => exact .inl ⟨_,claim⟩
  | before _ _ ih => exact .inr ih

theorem Ends.mem {v : View O} (ends : Ends v spent handled a u s) : u ∈ handled := by
  induction ends with
  | here _ => exact List.mem_cons_self
  | before _ _ ih => exact List.mem_cons_of_mem _ ih

theorem Ends.unique {v : View O} (one : Ends v spent handled a u s) (two : Ends v spent handled a u' s') : u' = u ∧ s' = s := by
  induction one with
  | here claim =>
    cases two with
    | here claim' => exact ⟨rfl,(claim.unique claim').2⟩
    | before passed _ => exact absurd claim (passed _)
  | before passed _ ih =>
    cases two with
    | here claim' => exact absurd claim' (passed _)
    | before _ ends' => exact ih ends'

theorem Ends.same_output {v : View O} (one : Ends v spent handled a u s) (two : Ends v spent handled b u t) (nodup : handled.Nodup) :
    b = a := by
  induction one with
  | here claim =>
    cases two with
    | here claim' => exact (claim.unique claim').1
    | before _ ends' => exact absurd ends'.mem (List.nodup_cons.mp nodup).1
  | before _ ends ih =>
    cases two with
    | here claim' => exact absurd ends.mem (List.nodup_cons.mp nodup).1
    | before _ ends' => exact ih ends' (List.nodup_cons.mp nodup).2

theorem Ends.claim {v : View O} (ends : Ends v spent handled a u s) :
    ∃ later earlier, handled = later ++ u :: earlier ∧ Claim v spent earlier (v.Held spent earlier) u a s := by
  induction ends with
  | here claim => exact ⟨[],_,rfl,claim⟩
  | before _ _ ih => grind

theorem Held.claim {v : View O} (held : v.Held spent handled a) :
    ∃ u ∈ handled, ∃ earlier s, Claim v spent earlier (v.Held spent earlier) u a s := by
  induction handled with
  | nil => exact held.elim
  | cons u earlier ih =>
    rcases held with ⟨s,claim⟩ | before
    · grind
    grind

theorem Claim.ends {v : View O} (claim : Claim v spent earlier (v.Held spent earlier) u a s)
    (passed : ∀ e ∈ later, ∀ earlier held t, ¬Claim v spent earlier held e a t) : Ends v spent (later ++ u :: earlier) a u s := by
  induction later with
  | nil => exact .here claim
  | cons e later ih =>
    exact .before (passed e List.mem_cons_self _ _) (ih (fun e member => passed e (List.mem_cons_of_mem _ member)))

-- How the state in the middle of a transaction relates to the state before it.
@[grind cases eager] structure Progress (v : View O) (spent : List OutputRef) (handled : List (AlephAccountUtxo O)) (w : View O) : Prop where
  offers : ∀ root a s, w.Offers spent root a s ↔ v.Offers spent root a s ∧
    ¬∃ e ∈ handled, e.state.storeRoot = root ∧ ∃ b t, v.Agrees spent root b t
  persisted : ∀ r, (∀ e ∈ handled, e.outputRef ≠ r) → w.persisted r = v.persisted r
  waits : ∀ a, v.SoleSpent spent a → (a ∈ w.pending ↔ ¬v.Held spent handled a)
  bound : ∀ a, (∃ u s, v.Ends spent handled a u s ∧ w.bound a = some ⟨u.finalizedOutput,s⟩) ∨
    (¬v.Held spent handled a ∧ w.bound a = (spent.foldl consume v).bound a)
  owner : ∀ r b, w.owner r = some b → v.Held spent handled b ∨ (spent.foldl consume v).owner r = some b
  unbound : ∀ r, (∀ e ∈ handled, e.outputRef ≠ r) → w.unbound r = (spent.foldl consume v).unbound r
  rollback : w.rollback = (spent.foldl consume v).rollback
  snapshots : ∀ n e, w.snapshots n = some e → v.snapshots n = some e
  loaded : ∀ r x, w.persisted r = some x → v.persisted r = some x
  -- the account that got the last confirmed output has it as its own
  last : (∀ e ∈ handled, v.persisted e.outputRef = none) → (∃ e ∈ handled, ∃ a s, v.Agrees spent e.state.storeRoot a s) →
    ∃ a u s, v.Ends spent handled a u s ∧ v.Agrees spent u.state.storeRoot a s ∧ w.owner u.outputRef = some a

theorem Progress.start (v : View O) (spent : List OutputRef) : Progress v spent [] (spent.foldl consume v) where
  offers := by
    intro root a s
    simp only [Offers,consumes_snapshots,List.not_mem_nil,false_and,exists_false,not_false_eq_true,and_true]
  persisted := fun r _ => by rw [consumes_persisted]
  waits := by
    intro a sole
    simp only [consumes_pending,Held,not_false_eq_true,iff_true]
    exact .inl sole.1
  bound := fun a => .inr ⟨id,rfl⟩
  owner := fun r b found => .inr found
  unbound := fun r _ => rfl
  rollback := rfl
  snapshots := fun n e found => by rwa [consumes_snapshots] at found
  loaded := fun r x found => by rwa [consumes_persisted] at found
  last := fun _ ⟨_,impossible,_⟩ => by cases impossible

theorem Progress.agrees {v w : View O} (progress : Progress v spent handled w) : w.Agrees spent root a s ↔
    v.Agrees spent root a s ∧ ∀ e ∈ handled, e.state.storeRoot ≠ root := by
  constructor
  · rintro ⟨offered,only⟩
    obtain ⟨before,open_root⟩ := (progress.offers root a s).mp offered
    have agrees : v.Agrees spent root a s :=
      ⟨before,fun a' s' other => only a' s' ((progress.offers root a' s').mpr ⟨other,open_root⟩)⟩
    grind
  · rintro ⟨⟨offered,only⟩,first⟩
    refine ⟨(progress.offers root a s).mpr ⟨offered,fun ⟨e,member,same,_⟩ => first e member same⟩,?_⟩
    grind

theorem Progress.confirmed {v w : View O} (progress : Progress v spent handled w) :
    w.Agrees spent u.state.storeRoot a s ↔ Claim.Confirmed v spent handled u a s :=
  progress.agrees.trans ⟨fun ⟨agrees,first⟩ => ⟨agrees,first⟩,fun ⟨agrees,first⟩ => ⟨agrees,first⟩⟩

theorem Progress.sole {v w : View O} (progress : Progress v spent handled w) :
    w.Sole (v.spentIds spent) root a ↔ v.SoleSpent spent a ∧ root = emptyRoot ∧ ¬v.Held spent handled a := by
  unfold Sole
  rw [spentIds_singleton]
  grind

theorem Progress.offers_unmatched {v w : View O} (progress : Progress v spent handled w)
    (unmatched : ∀ b t, ¬Claim.Confirmed v spent handled u b t) :
    w.Offers spent root a s ↔ v.Offers spent root a s ∧
      ¬∃ e ∈ u :: handled, e.state.storeRoot = root ∧ ∃ b t, v.Agrees spent root b t := by
  rw [progress.offers]
  refine and_congr_right fun _ => not_congr ⟨?_,?_⟩
  · grind
  · rintro ⟨e,member,same,b,t,agrees⟩
    rcases List.mem_cons.mp member with rfl | earlier
    · by_contra fresh
      refine unmatched b t ⟨same ▸ agrees,fun e' earlier root => fresh ⟨e',earlier,root.trans same,b,t,agrees⟩⟩
    grind

theorem confirm_offers {w : View O} : (w.confirm spent u a s).Offers spent root a' s' ↔
    w.Offers spent root a' s' ∧ root ≠ u.state.storeRoot := by
  constructor
  · rintro ⟨n,r,found,inside,rfl⟩
    obtain ⟨before,kept⟩ := Option.filter_eq_some_iff.mp found
    exact ⟨⟨n,r,before,inside,rfl⟩,fun same => of_decide_eq_true kept ⟨inside,same⟩⟩
  · rintro ⟨⟨n,r,found,inside,rfl⟩,other⟩
    exact ⟨n,r,Option.filter_eq_some_iff.mpr ⟨found,decide_eq_true (fun gone => other gone.2)⟩,inside,rfl⟩

theorem Progress.offers_step {v w w' : View O} (progress : Progress v spent handled w)
    (step : Produce spent (v.spentIds spent) w u w') (root : Digest) (a : AccountId) (s : AccountStore) :
    w'.Offers spent root a s ↔ v.Offers spent root a s ∧
      ¬∃ e ∈ u :: handled, e.state.storeRoot = root ∧ ∃ b t, v.Agrees spent root b t := by
  cases step with
  | @confirm a' s' agrees =>
    have confirmed := progress.confirmed.mp agrees
    rw [confirm_offers,progress.offers]
    grind
  | empty disagree sole => exact progress.offers_unmatched fun b t here => disagree b t (progress.confirmed.mpr here)
  | create disagree several created =>
    have unmatched : ∀ b t, ¬Claim.Confirmed v spent handled u b t := fun b t here => disagree b t (progress.confirmed.mpr here)
    cases created with
    | resume found root => exact progress.offers_unmatched unmatched
    | unbound absent => exact progress.offers_unmatched unmatched

theorem Progress.persisted_step {v w w' : View O} (progress : Progress v spent handled w)
    (step : Produce spent (v.spentIds spent) w u w') (r : OutputRef) (others : ∀ e ∈ u :: handled, e.outputRef ≠ r) :
    w'.persisted r = v.persisted r := by
  have before := progress.persisted r (fun e member => others e (List.mem_cons_of_mem _ member))
  cases step with
  | confirm agrees => exact before
  | empty disagree sole => exact before
  | create disagree several created =>
    cases created with
    | resume found root =>
      have other : r ≠ u.outputRef := (others u List.mem_cons_self).symm
      simp only [resume,bind_persisted,Function.update_apply,if_neg other]
      exact before
    | unbound absent => exact before

-- Two states that differ in snapshots and loaded stores only.
@[grind cases eager] structure Alike (w w' : View O) : Prop where
  bound : w'.bound = w.bound
  owner : w'.owner = w.owner
  unbound : w'.unbound = w.unbound
  pending : w'.pending = w.pending
  rollback : w'.rollback = w.rollback
  snapshots : ∀ n e, w'.snapshots n = some e → w.snapshots n = some e
  loaded : ∀ r x, w'.persisted r = some x → w.persisted r = some x

theorem Alike.refl (w : View O) : Alike w w := ⟨rfl,rfl,rfl,rfl,rfl,fun _ _ => id,fun _ _ => id⟩

theorem Progress.outcome {v w w' : View O} (progress : Progress v spent handled w)
    (step : Produce spent (v.spentIds spent) w u w') (distinct : ∀ e ∈ handled, e.outputRef ≠ u.outputRef) :
    (∃ a s x, Claim v spent handled (v.Held spent handled) u a s ∧ Alike w x ∧ w' = x.bind a ⟨u.finalizedOutput,s⟩) ∨
      ((∀ b t, ¬Claim v spent handled (v.Held spent handled) u b t) ∧ w' = w.leaveUnbound u) := by
  cases step with
  | @confirm a s agrees =>
    exact .inl ⟨a,s,w.dropSnapshots (fun entry => entry.2.1 ∈ spent ∧ entry.2.2.root = u.state.storeRoot),
      .confirmed (progress.confirmed.mp agrees),⟨rfl,rfl,rfl,rfl,rfl,
        fun n e found => (Option.filter_eq_some_iff.mp found).1,fun _ _ => id⟩,rfl⟩
  | @empty a disagree sole =>
    obtain ⟨alone,root,waits⟩ := progress.sole.mp sole
    exact .inl ⟨a,.empty,w,.empty (fun b t here => disagree b t (progress.confirmed.mpr here)) alone root waits,.refl w,rfl⟩
  | create disagree several created =>
    have unmatched : ∀ b t, ¬Claim.Confirmed v spent handled u b t := fun b t here => disagree b t (progress.confirmed.mpr here)
    have full : ∀ b, v.SoleSpent spent b → u.state.storeRoot = emptyRoot → v.Held spent handled b := by
      intro b alone root
      by_contra free
      exact several b (progress.sole.mpr ⟨alone,root,free⟩)
    have saved := progress.persisted u.outputRef distinct
    cases created with
    | @resume a s found root =>
      exact .inl ⟨a,s,{w with persisted:=Function.update w.persisted u.outputRef none},
        .resumed unmatched full (saved ▸ found) root,⟨rfl,rfl,rfl,rfl,rfl,fun _ _ => id,fun r x kept => by
          simp only [Function.update_apply] at kept
          split at kept
          · cases kept
          · exact kept⟩,rfl⟩
    | unbound absent =>
      refine .inr ⟨?_,rfl⟩
      intro b t claim
      cases claim with
      | confirmed here => exact unmatched b t here
      | empty _ alone root waits => exact waits (full b alone root)
      | resumed _ _ found root => exact absent b t (saved ▸ found) root

theorem bind_owner_or {w : View O} (found : (w.bind a i).owner r = some b) : b = a ∨ w.owner r = some b := by
  simp only [bind,Function.update_apply] at found
  split at found
  · exact .inl (Option.some.inj found).symm
  · right
    cases bound : w.bound a with
    | none => simpa only [bound] using found
    | some previous =>
      simp only [bound,Function.update_apply] at found
      grind

theorem Progress.take {v w x : View O} (progress : Progress v spent handled w) (alike : Alike w x)
    (claim : Claim v spent handled (v.Held spent handled) u a s) (b : AccountId) :
    (∃ u' s', v.Ends spent (u :: handled) b u' s' ∧ (x.bind a ⟨u.finalizedOutput,s⟩).bound b = some ⟨u'.finalizedOutput,s'⟩) ∨
      (¬v.Held spent (u :: handled) b ∧ (x.bind a ⟨u.finalizedOutput,s⟩).bound b = (spent.foldl consume v).bound b) := by
  rw [bind_bound,alike.bound]
  by_cases same : b = a
  · subst same
    exact .inl ⟨u,s,.here claim,if_pos rfl⟩
  · have passed : ∀ t, ¬Claim v spent handled (v.Held spent handled) u b t := fun t other => same (claim.unique other).1
    rw [if_neg same]
    rcases progress.bound b with ⟨u',s',ends,at_u⟩ | ⟨free,still⟩
    · exact .inl ⟨u',s',.before passed ends,at_u⟩
    · exact .inr ⟨fun held => held.elim (fun ⟨t,other⟩ => passed t other) free,still⟩

theorem Claim.Confirmed.earlier {v : View O} (unmatched : ∀ b t, ¬Claim.Confirmed v spent handled u b t)
    (agreed : ∃ e ∈ u :: handled, ∃ a s, v.Agrees spent e.state.storeRoot a s) :
    ∃ e ∈ handled, ∃ a s, v.Agrees spent e.state.storeRoot a s := by
  obtain ⟨e,member,a,s,agrees⟩ := agreed
  rcases List.mem_cons.mp member with rfl | before
  · by_contra none
    exact unmatched a s ⟨agrees,fun e' listed same => none ⟨e',listed,a,s,same ▸ agrees⟩⟩
  · exact ⟨e,before,a,s,agrees⟩

-- A binding through the only spent account takes no output from anybody: the
-- account was unbound when its output was spent.
theorem Progress.last_take {v w x : View O} (progress : Progress v spent handled w) (alike : Alike w x)
    (claim : Claim v spent handled (v.Held spent handled) u a s) (distinct : ∀ e ∈ handled, e.outputRef ≠ u.outputRef)
    (fresh : ∀ e ∈ u :: handled, v.persisted e.outputRef = none)
    (agreed : ∃ e ∈ u :: handled, ∃ a s, v.Agrees spent e.state.storeRoot a s) :
    ∃ b u' t, v.Ends spent (u :: handled) b u' t ∧ v.Agrees spent u'.state.storeRoot b t ∧
      (x.bind a ⟨u.finalizedOutput,s⟩).owner u'.outputRef = some b := by
  have here := claim
  cases claim with
  | confirmed confirmed =>
    exact ⟨a,u,s,.here here,confirmed.agrees,by simp only [bind,AlephAccountUtxo.finalizedOutput,Function.update_self]⟩
  | empty unmatched sole _ waits =>
    obtain ⟨b,u',t,ends,agrees,owner⟩ := progress.last (fun e member => fresh e (List.mem_cons_of_mem _ member))
      (Claim.Confirmed.earlier unmatched agreed)
    have other : b ≠ a := by
      rintro rfl
      exact waits ends.held
    have unbound : x.bound a = none := by
      rw [alike.bound]
      rcases progress.bound a with ⟨_,_,ends',_⟩ | ⟨_,still⟩
      · exact absurd ends'.held waits
      · rw [still,consumes_bound,if_pos sole.1]
    refine ⟨b,u',t,.before (fun t' claim' => other (here.unique claim').1) ends,agrees,?_⟩
    simp only [bind,unbound,AlephAccountUtxo.finalizedOutput,Function.update_apply,if_neg (distinct u' ends.mem),alike.owner,owner]
  | resumed _ _ found _ => cases (fresh u List.mem_cons_self).symm.trans found

theorem Progress.step {v w w' : View O} (progress : Progress v spent handled w) (step : Produce spent (v.spentIds spent) w u w')
    (distinct : ∀ e ∈ handled, e.outputRef ≠ u.outputRef) : Progress v spent (u :: handled) w' := by
  have offers := progress.offers_step step
  have persisted := progress.persisted_step step
  rcases progress.outcome step distinct with ⟨a,s,x,claim,alike,rfl⟩ | ⟨passed,rfl⟩
  · refine ⟨offers,persisted,?_,progress.take alike claim,?_,?_,alike.rollback.trans progress.rollback,
      fun n e found => progress.snapshots n e (alike.snapshots n e found),
      fun r y found => progress.loaded r y (alike.loaded r y found),
      progress.last_take alike claim distinct⟩
    · intro b sole
      rw [bind_pending,alike.pending,progress.waits b sole]
      constructor
      · rintro ⟨other,free⟩ (⟨t,claim'⟩ | held)
        · exact other (claim.unique claim').1
        · exact free held
      · intro free
        refine ⟨?_,fun held => free (.inr held)⟩
        rintro rfl
        exact free (.inl ⟨s,claim⟩)
    · intro r b found
      rcases bind_owner_or found with rfl | before
      · exact .inl (.inl ⟨s,claim⟩)
      · rw [alike.owner] at before
        exact (progress.owner r b before).imp_left .inr
    · intro r others
      have other : r ≠ u.outputRef := (others u List.mem_cons_self).symm
      rw [bind_unbound,alike.unbound]
      exact (if_neg other).trans (progress.unbound r (fun e member => others e (List.mem_cons_of_mem _ member)))
  · have same : ∀ b, v.Held spent (u :: handled) b ↔ v.Held spent handled b :=
      fun b => ⟨fun held => held.elim (fun ⟨t,claim⟩ => absurd claim (passed b t)) id,.inr⟩
    refine ⟨offers,persisted,?_,?_,?_,?_,progress.rollback,progress.snapshots,progress.loaded,?_⟩
    · intro b alone
      rw [same]
      exact progress.waits b alone
    · intro b
      rcases progress.bound b with ⟨u',s',ends,at_u⟩ | ⟨free,still⟩
      · exact .inl ⟨u',s',.before (passed b) ends,at_u⟩
      · exact .inr ⟨fun held => free ((same b).mp held),still⟩
    · intro r b found
      exact (progress.owner r b found).imp_left .inr
    · intro r others
      have other : r ≠ u.outputRef := (others u List.mem_cons_self).symm
      simp only [leaveUnbound,Function.update_apply,if_neg other]
      grind
    · intro fresh agreed
      obtain ⟨a,u',s,ends,agrees,owner⟩ := progress.last (fun e member => fresh e (List.mem_cons_of_mem _ member))
        (Claim.Confirmed.earlier (fun b t here => passed b t (.confirmed here)) agreed)
      exact ⟨a,u',s,.before (passed a) ends,agrees,owner⟩

theorem Progress.run {v w w' : View O} (progress : Progress v spent handled w) (run : Produces spent (v.spentIds spent) w us w')
    (distinct : ((us.reverse ++ handled).map AlephAccountUtxo.outputRef).Nodup) : Progress v spent (us.reverse ++ handled) w' := by
  induction run generalizing handled with
  | nil => exact progress
  | @cons w u middle us after first rest ih =>
    simp only [List.reverse_cons,List.append_assoc,List.singleton_append] at distinct ⊢
    refine ih (progress.step first ?_) distinct
    grind

end View

theorem apply_progress {O : Type} (ext : Externals O) {index : AccountIndex O} {chain : List (TxView O)} {tx : TxView O}
    {txs : Digest → TxView O} (plain : index.Plain) (fits : Fits txs chain tx) :
    View.Progress index.view tx.inputs (tx.accounts ext).reverse (applyAccountEvents index (scanAccountEvents ext tx)).view := by
  have run := (View.Progress.start index.view tx.inputs).run (apply_view ext plain fits.inputs_nodup).1
  simp only [List.append_nil] at run
  apply run
  rw [List.map_reverse,List.nodup_reverse]
  exact accounts_nodup fits.refs_nodup

end GreenAgent.Account
