import GreenAgent.Tx.Steps
import GreenAgent.Account.Replanning
import GreenAgent.Book.Members
import GreenAgent.Green.Admission
import GreenAgent.Green.LimitPrice

namespace GreenAgent.Engine
open Book (Trans TerminalTake MatchmakingRecipe TakeInProgress MakeInProgress Stable stableId)

-- An instruction of a recipe and what it is linked to.
inductive LinkedTo [Stable T S] [Stable M S] (find : S → Option (V × B)) : TakeInProgress T ⊕ MakeInProgress M → Execution T M B → Prop where
  | take (found : find (stableId take.target) = some (ver,bearer)) : LinkedTo find (.inl take) (.inl ⟨⟨take.target,bearer⟩,take.result⟩)
  | make (found : find (stableId make.target) = some (ver,bearer)) : LinkedTo find (.inr make) (.inr ⟨⟨make.target,bearer⟩,make.result⟩)

section
variable {T M S V B : Type} [Stable T S] [Stable M S] {find : S → Option (V × B)}

theorem linkTargets_linked {instructions : List (TakeInProgress T ⊕ MakeInProgress M)} (linked : linkTargets find instructions = (done,versions,[])) :
    List.Forall₂ (LinkedTo find) instructions done := by
  induction instructions generalizing done versions with
  | nil =>
    cases linked
    exact .nil
  | cons instruction rest ih =>
    rcases later : linkTargets find rest with ⟨linked',versions',orphans⟩
    unfold linkTargets at linked
    rw [later] at linked
    cases instruction with
    | inl take =>
      cases found : find (stableId take.target) with
      | none => simp [found] at linked
      | some entry =>
        simp only [found] at linked
        cases linked
        exact .cons (.take found) (ih later)
    | inr make =>
      cases found : find (stableId make.target) with
      | none => simp [found] at linked
      | some entry =>
        simp only [found] at linked
        cases linked
        exact .cons (.make found) (ih later)

theorem link_linked {recipe : MatchmakingRecipe T M} (linked : link find recipe = .ok (done,versions)) :
    List.Forall₂ (LinkedTo find) recipe.instructions done := by
  unfold link at linked
  rcases later : linkTargets find recipe.instructions with ⟨linked',versions',orphans⟩
  rw [later] at linked
  simp only at linked
  split at linked
  · rename_i none
    cases linked
    rw [List.isEmpty_iff.mp none] at later
    exact linkTargets_linked later
  · cases linked

end
end GreenAgent.Engine

namespace GreenAgent.Account
open Mpf (Digest)

-- The outputs the index has for an account: the one it is bound to, and those
-- that plans of it wait on.
def View.Outputs (v : View O) (a : AccountId) (r : OutputRef) : Prop :=
  (∃ i,v.bound a = some i ∧ i.utxo.reference = r) ∨ ∃ n s,v.snapshots n = some (a,r,s)

section
variable {O : Type} {ext : Externals O} {index : AccountIndex O}

theorem View.Base.outputs {v : View O} (based : v.Base a r base) : v.Outputs a r := by
  cases based with
  | bound bound at_ref => exact .inl ⟨_,bound,at_ref⟩
  | replan _ _ _ pending => exact .inr ⟨_,_,pending⟩

theorem View.plan_outputs {v : View O} (based : v.Base a r base) (outputs : (v.plan a r p).Outputs b r') : v.Outputs b r' := by
  rcases outputs with ⟨i,bound,at_ref⟩ | ⟨n,s,pending⟩
  · rw [View.plan_bound] at bound
    split at bound
    · cases bound
    · exact .inl ⟨i,bound,at_ref⟩
  · have pending := (View.plan_snapshots ..).mp pending
    split at pending
    · cases pending
      exact based.outputs
    · exact .inr ⟨n,s,pending.1⟩

theorem Sound.base {txs : Digest → TxView O} (sound : Sound ext txs index.view known spent) (found : index.currentOrPendingBase a = some u) :
    index.view.Outputs a u.reference ∧ AccountRef ext txs u.reference := by
  have candidate := AccountIndex.currentOrPendingBase_candidate found
  cases bound : index.view.bound a with
  | some i =>
    obtain rfl := (candidate_bound bound).mp candidate
    exact ⟨.inl ⟨i,bound,rfl⟩,(sound.bound_carries bound).accountRef⟩
  | none =>
    obtain ⟨_,n,r,s,b,i,pending,taken,rfl⟩ := (candidate_unbound bound).mp candidate
    obtain ⟨rfl,carries⟩ := sound.taken_carries taken
    exact ⟨.inr ⟨n,s,pending⟩,carries.accountRef⟩

end
end GreenAgent.Account

namespace GreenAgent.Tx
open Mpf (Bytes Digest)
open Account (OutputRef AccountId AccountIndex AlephAccountUtxo Externals AssetClass PlanCall View Reached AccountRef TxView outputAt Token)
open Cardano (TransactionOutput)
open Green (GreenOrder)
open Pools (RoyaltyPool)
open Book (stableId Trans TerminalTake MatchmakingRecipe)
open Engine (LinkedTo)

section Values
variable {D : Type} {ctx : ExecContext D} {take : Take D} {amounts : TakeAmounts} {order : GreenOrder} {output after : TransactionOutput D}

-- What a take does to the holdings of its account.
def TakeAmounts.net (amounts : TakeAmounts) (order : GreenOrder) (asset : AssetClass) : Int :=
  (if asset = order.intention.outputAsset then (amounts.addedOutput.toNat : Int) else 0) -
    (if asset = .native then (amounts.removedInput.toNat : Int) + amounts.consumedFee.toNat else 0)

def Take.net (take : Take D) (asset : AssetClass) : Int :=
  ((takeAmounts take.inProgress).map (fun amounts => amounts.net take.target.entity asset)).getD 0

-- An order that buys ada pays its fee a second time.
def TakeAmounts.surcharge (amounts : TakeAmounts) (order : GreenOrder) (asset : AssetClass) : Int :=
  if order.intention.outputAsset = .native ∧ asset = .native then amounts.consumedFee.toNat else 0

theorem filled_quantity (filled : applyFullFillToAccountOutput output order amounts = some after)
    (small : amounts.removedInput.toNat + amounts.consumedFee.toNat < 2^64) (asset : AssetClass) :
    (after.value.quantity asset : Int) = output.value.quantity asset + amounts.net order asset - amounts.surcharge order asset := by
  obtain ⟨middle,taken,added⟩ := Option.bind_eq_some_iff.mp filled
  obtain ⟨less,others⟩ := Cardano.TransactionOutput.subAsset_quantity taken
  rw [UInt64.toNat_add,Nat.mod_eq_of_lt small] at less
  unfold TakeAmounts.net TakeAmounts.surcharge
  by_cases bought : order.intention.outputAsset = .native
  · rw [if_pos bought] at added
    obtain ⟨received,sub,added⟩ := Option.bind_eq_some_iff.mp added
    obtain ⟨covered,difference⟩ := U64.checkedSub_some.mp sub
    obtain ⟨more,rest⟩ := Cardano.TransactionOutput.addAsset_quantity added
    grind
  · rw [if_neg bought] at added
    obtain ⟨more,rest⟩ := Cardano.TransactionOutput.addAsset_quantity added
    grind

theorem takeAmounts_fee {take : Book.TakeInProgress GreenOrder} (measured : takeAmounts take = some amounts) :
    amounts.consumedFee.toNat = take.consumedFee ∧ take.consumedFee ≤ take.target.intention.feeLovelace.toNat := by
  obtain ⟨_,same⟩ := Option.ite_none_right_eq_some.mp measured
  cases same
  have small : take.consumedFee ≤ take.target.intention.feeLovelace.toNat := Nat.sub_le _ _
  exact ⟨U64.toNat_ofNat _ (le_trans small (U64.le_max _)),small⟩

-- What the order can take out of its account fits in a u64.
def Funded (order : GreenOrder) : Prop := order.intention.leavingAmount.toNat + order.intention.feeLovelace.toNat < 2^64

theorem Took.unwrapped {account : AlephAccountUtxo (TransactionOutput D)} {row : AccountTake D} {before after : Progress D}
    (took : Took ctx take amounts account row before after) (funded : Funded take.target.entity) :
    amounts.removedInput.toNat + amounts.consumedFee.toNat < 2^64 := by
  have bounded := UInt64.le_iff_toNat_le.mp took.executable.bounded
  obtain ⟨same,fee⟩ := takeAmounts_fee took.measured
  have total : Funded take.target.entity := funded
  unfold Funded at total
  have bound : take.inProgress.consumedFee ≤ take.target.entity.intention.feeLovelace.toNat := fee
  omega

theorem RowOf.value (row : RowOf ctx take io) (funded : Funded take.target.entity) :
    ∃ amounts,takeAmounts take.inProgress = some amounts ∧ ∀ asset,
      (io.2.value.quantity asset : Int) = io.1.utxo.value.quantity asset + take.net asset - amounts.surcharge take.target.entity asset := by
  obtain ⟨amounts,account,row,before,after,took,rfl⟩ := row
  obtain ⟨output,filled,same⟩ := took.filled
  refine ⟨amounts,took.measured,?_⟩
  intro asset
  have value := filled_quantity filled (took.unwrapped funded) asset
  have spent : row.spent.utxo = account.output := congrArg Account.FinalizedTxOut.output took.spent
  change (row.output.value.quantity asset : Int) = row.spent.utxo.value.quantity asset + _ - _
  rw [same,spent,value,Take.net,took.measured]
  rfl

end Values

section Planning
variable {O : Type} {ext : Externals O} {index next : AccountIndex O}

theorem Planned.reached {txs : Digest → TxView O} (planned : Planned ext a r index next) (reached : Reached ext txs index chain) :
    Reached ext txs next chain := by
  cases planned with
  | none => exact reached
  | call call _ ran => exact .plan reached call ran

theorem Planned.outputs (planned : Planned ext a r index next) (outputs : next.view.Outputs b r') : index.view.Outputs b r' := by
  cases planned with
  | none => exact outputs
  | call call _ ran =>
    obtain ⟨base,p,done,_⟩ := call.run_ok ran
    rw [done.view.1] at outputs
    exact View.plan_outputs done.from_base outputs

end Planning

section Runs
variable {D : Type} {ctx : ExecContext D} {txs : Digest → TxView (TransactionOutput D)}

-- Where the input of an instruction comes from: an output the index has for the
-- account of the order, or the output the pool is linked to.
inductive Spent (ctx : ExecContext D) (txs : Digest → TxView (TransactionOutput D)) (index : AccountIndex (TransactionOutput D)) :
    Instruction D → ScriptInputBlueprint D × TransactionOutput D → Prop where
  | take (own : index.view.Outputs take.target.entity.accountId io.1.reference) (account : AccountRef ctx.externals txs io.1.reference) :
      Spent ctx txs index (.inl take) io
  | make (bearer : io.1.finalized = make.target.bearer) : Spent ctx txs index (.inr make) io

theorem Took.planned {take : Take D} {before after : Progress D} (took : Took ctx take amounts account row before after) :
    Planned ctx.externals take.target.entity.accountId account.outputRef before.index after.index := by
  obtain ⟨root,authorised⟩ := took.authorised
  exact authorise_planned authorised

theorem Took.spends {take : Take D} {row : AccountTake D} {before after : Progress D} (took : Took ctx take amounts account row before after)
    (reached : Reached ctx.externals txs before.index chain) : Spent ctx txs before.index (.inl take) row.io := by
  obtain ⟨own,ref⟩ := reached.sound.2.base took.base
  have same : row.spent.reference = account.outputRef := congrArg Account.FinalizedTxOut.reference took.spent
  have own' : before.index.view.Outputs take.target.entity.accountId row.io.1.reference := by
    change before.index.view.Outputs _ row.spent.reference
    rw [same]
    exact own
  have ref' : AccountRef ctx.externals txs row.io.1.reference := by
    change AccountRef ctx.externals txs row.spent.reference
    rw [same]
    exact ref
  exact .take own' ref'

theorem Steps.spends {instructions : List (Instruction D)} {before after : Progress D} {rows : List (ScriptInputBlueprint D × TransactionOutput D)}
    (steps : Steps ctx instructions before rows after) (reached : Reached ctx.externals txs before.index chain) :
    List.Forall₂ (Spent ctx txs before.index) instructions rows := by
  induction steps with
  | done => exact .nil
  | @take take amounts account row before middle instructions rows after took rest ih =>
    refine .cons (took.spends reached) ((ih (took.planned.reached reached)).imp ?_)
    intro instruction io spent
    cases spent with
    | take own ref => exact .take (took.planned.outputs own) ref
    | make bearer => exact .make bearer
  | @make make io before middle instructions rows after made rest ih =>
    rw [made.index] at ih
    exact .cons (.make made.spent) (ih reached)

theorem pairwise_forall₂ {S : α → β → Prop} {Q : β → β → Prop} {xs : List α} {ys : List β} (related : List.Forall₂ S xs ys)
    (apart : xs.Pairwise (fun x x' => ∀ y y',S x y → S x' y' → Q y y')) : ys.Pairwise Q := by
  induction related with
  | nil => exact .nil
  | @cons x y xs ys first rest ih =>
    obtain ⟨head,tail⟩ := List.pairwise_cons.mp apart
    refine List.pairwise_cons.mpr ⟨?_,ih tail⟩
    intro y' member
    obtain ⟨i,small,rfl⟩ := List.getElem_of_mem member
    have small' : i < xs.length := rest.length_eq ▸ small
    exact head _ (List.getElem_mem small') y _ first (rest.get small' small)

end Runs

section Instructions
variable {D : Type} {instructions : List (Instruction D)}

-- No two orders of one account.
def Single (instructions : List (Instruction D)) : Prop := ∀ a,(takesOf a instructions).length ≤ 1

-- Orders that buy ada pay no fee.
def FeeOnce (instructions : List (Instruction D)) : Prop :=
  ∀ take : Take D,.inl take ∈ instructions → take.target.entity.intention.outputAsset = .native → take.inProgress.consumedFee = 0

-- Accounts with an order have no output in common.
def Apart (index : AccountIndex (TransactionOutput D)) (instructions : List (Instruction D)) : Prop :=
  ∀ a b,a ≠ b → takesOf a instructions ≠ [] → takesOf b instructions ≠ [] → ∀ r,index.view.Outputs a r → ¬index.view.Outputs b r

-- The outputs the pools are linked to are what their references name: outputs
-- of pools, each of the pool with its id.
@[grind cases eager] structure PoolBearers (ctx : ExecContext D) (txs : Digest → TxView (TransactionOutput D)) (poolOf : TransactionOutput D → Option Token)
    (make : Make D) : Prop where
  named : outputAt txs make.target.bearer.reference = some make.target.bearer.output
  pool : poolOf make.target.bearer.output = some make.target.entity.id
  script : ctx.externals.accountState make.target.bearer.output = none

-- Every input once, and one output for each account, with all that its orders
-- take out of it and bring to it.
@[grind cases eager] structure SpendsOnce (instructions : List (Instruction D)) (progress : Progress D) : Prop where
  distinct : progress.state.txBlueprint.references.Nodup
  accounts : ∀ a,takesOf a instructions ≠ [] → ∃ io,progress.rowsOf a = [io] ∧
    ∀ asset,(io.2.value.quantity asset : Int) = io.1.utxo.value.quantity asset + ((takesOf a instructions).map (Take.net · asset)).sum

theorem mem_takesOf {take : Take D} (member : .inl take ∈ instructions) : take ∈ takesOf take.target.entity.accountId instructions :=
  List.mem_filterMap.mpr ⟨.inl take,member,if_pos rfl⟩

theorem of_mem_takesOf {take : Take D} (member : take ∈ takesOf a instructions) :
    .inl take ∈ instructions ∧ take.target.entity.accountId = a := by
  obtain ⟨instruction,inside,found⟩ := List.mem_filterMap.mp member
  cases instruction with
  | inl other =>
    obtain ⟨mine,same⟩ := Option.ite_none_right_eq_some.mp found
    cases same
    exact ⟨inside,mine⟩
  | inr _ => cases found

theorem Single.accounts_apart (single : Single instructions) :
    instructions.Pairwise (fun x y => ∀ take take',x = .inl take → y = .inl take' →
      take.target.entity.accountId ≠ take'.target.entity.accountId) := by
  induction instructions with
  | nil => exact .nil
  | cons first rest ih =>
    refine List.pairwise_cons.mpr ⟨?_,ih ?_⟩
    · rintro _ member take take' rfl rfl same
      have two := single take.target.entity.accountId
      rw [takesOf_mine rfl,List.length_cons] at two
      have inside := mem_takesOf member
      grind
    · intro a
      exact le_trans (((List.sublist_cons_self first rest).filterMap _).length_le) (single a)

end Instructions

section Links
variable {D : Type} [Book.Stable GreenOrder Token] {find : Token → Option (V × Bearer D)} {linked : List (Instruction D)}
  {recipe : MatchmakingRecipe GreenOrder RoyaltyPool}

theorem linked_take (links : List.Forall₂ (LinkedTo find) instructions linked) {take : Take D} (member : .inl take ∈ linked) :
    .inl take.inProgress ∈ instructions := by
  induction links with
  | nil => cases member
  | cons first rest ih =>
    rcases List.mem_cons.mp member with same | later
    · subst same
      cases first
      exact List.mem_cons_self
    grind

theorem linked_pools (links : List.Forall₂ (LinkedTo find) recipe.instructions linked)
    (apart : (recipe.makes.map (fun make => make.target.id)).Nodup) :
    linked.Pairwise (fun x y => ∀ make make' : Make D,x = .inr make → y = .inr make' → make.target.entity.id ≠ make'.target.entity.id) := by
  have different := List.pairwise_filterMap.mp (List.pairwise_map.mp apart)
  refine pairwise_forall₂ links (different.imp ?_)
  rintro x y differ _ _ first second make make' rfl rfl
  cases first
  cases second
  exact differ _ rfl _ rfl

end Links

section Spending
variable {D : Type} {ctx : ExecContext D} {txs : Digest → TxView (TransactionOutput D)} {linked : List (Instruction D)} {progress : Progress D}
  {index : AccountIndex (TransactionOutput D)}

theorem spent_apart (single : Single linked) (outputs : Apart index linked) {poolOf : TransactionOutput D → Option Token}
    (bearers : ∀ make,.inr make ∈ linked → PoolBearers ctx txs poolOf make)
    (pools : linked.Pairwise (fun x y => ∀ make make' : Make D,x = .inr make → y = .inr make' → make.target.entity.id ≠ make'.target.entity.id)) :
    linked.Pairwise (fun x y => ∀ io io',Spent ctx txs index x io → Spent ctx txs index y io' → io.1.reference ≠ io'.1.reference) := by
  refine List.Pairwise.imp_of_mem ?_ (single.accounts_apart.and pools)
  rintro x y inside inside' ⟨accounts,ids⟩ io io' first second same
  -- an account output is not a pool output
  have crossed : ∀ {make : Make D} {one other : ScriptInputBlueprint D × TransactionOutput D},.inr make ∈ linked →
      one.1.finalized = make.target.bearer → AccountRef ctx.externals txs other.1.reference → one.1.reference ≠ other.1.reference := by
    intro make one other member bearer account same
    obtain ⟨output,state,named,parsed⟩ := account
    have pool := bearers make member
    have reference : one.1.reference = make.target.bearer.reference := congrArg Account.FinalizedTxOut.reference bearer
    grind
  cases first with
  | @take io take own account =>
    cases second with
    | @take io' take' own' account' =>
      refine outputs _ _ (accounts take take' rfl rfl) (List.ne_nil_of_mem (mem_takesOf inside)) (List.ne_nil_of_mem (mem_takesOf inside'))
        io.1.reference own ?_
      rw [same]
      exact own'
    | make bearer => exact crossed inside' bearer account same.symm
  | @make io make bearer =>
    cases second with
    | take own account => exact crossed inside bearer account same
    | @make io' make' bearer' =>
      have pool := bearers make inside
      have pool' := bearers make' inside'
      have reference : make.target.bearer.reference = make'.target.bearer.reference := by
        rw [← bearer,← bearer']
        exact same
      grind

theorem rows_single (rows : List.Forall₂ (RowOf ctx) (takesOf a linked) (progress.rowsOf a)) (some_take : takesOf a linked ≠ [])
    (single : (takesOf a linked).length ≤ 1) : ∃ take io,takesOf a linked = [take] ∧ progress.rowsOf a = [io] ∧ RowOf ctx take io := by
  match found : takesOf a linked,single with
  | [],_ => exact absurd found some_take
  | [take],_ =>
    rw [found] at rows
    cases rest : progress.rowsOf a with
    | nil =>
      rw [rest] at rows
      cases rows
    | cons io later => simp_all
  | _ :: _ :: _,long => simp at long

theorem execute_rows (executed : execute ctx linked index = some progress) (a : AccountId) :
    List.Forall₂ (RowOf ctx) (takesOf a linked) (progress.rowsOf a) := by
  obtain ⟨rows,steps⟩ := execute_steps executed
  obtain ⟨own,same,each⟩ := steps.rowsOf rfl a
  rw [same]
  exact each

theorem execute_references (executed : execute ctx linked index = some progress) (reached : Reached ctx.externals txs index chain)
    (apart : linked.Pairwise (fun x y => ∀ io io',Spent ctx txs index x io → Spent ctx txs index y io' → io.1.reference ≠ io'.1.reference)) :
    progress.state.txBlueprint.references.Nodup := by
  obtain ⟨rows,steps⟩ := execute_steps executed
  have all : progress.state.txBlueprint.scriptIo = rows := steps.scriptIo
  rw [TxBlueprint.references,all]
  exact List.pairwise_map.mpr (pairwise_forall₂ (steps.spends reached) apart)

theorem SpendsOnce.needs (once : SpendsOnce linked progress) (executed : execute ctx linked index = some progress)
    (funded : ∀ take : Take D,.inl take ∈ linked → Funded take.target.entity) : Single linked ∧ FeeOnce linked := by
  have single : Single linked := by
    intro a
    by_cases none : takesOf a linked = []
    · rw [none]
      exact Nat.zero_le _
    · obtain ⟨io,rows,_⟩ := once.accounts a none
      rw [(execute_rows executed a).length_eq,rows]
      exact le_rfl
  refine ⟨single,?_⟩
  intro take member ada
  have present := List.ne_nil_of_mem (mem_takesOf member)
  obtain ⟨only,io,takes,rows,row⟩ := rows_single (execute_rows executed _) present (single _)
  have same : take = only := List.mem_singleton.mp (takes ▸ mem_takesOf member)
  subst same
  obtain ⟨amounts,measured,value⟩ := row.value (funded take member)
  obtain ⟨io',rows',law⟩ := once.accounts _ present
  cases rows.symm.trans rows'
  have claimed := law .native
  rw [takes,List.map_singleton,List.sum_singleton] at claimed
  have actual := value .native
  rw [TakeAmounts.surcharge,if_pos ⟨ada,rfl⟩] at actual
  rw [← (takeAmounts_fee measured).1]
  omega

theorem SpendsOnce.of_single (single : Single linked) (feeOnce : FeeOnce linked) (executed : execute ctx linked index = some progress)
    (funded : ∀ take : Take D,.inl take ∈ linked → Funded take.target.entity) (distinct : progress.state.txBlueprint.references.Nodup) :
    SpendsOnce linked progress := by
  refine ⟨distinct,?_⟩
  intro a present
  obtain ⟨take,io,takes,rows,row⟩ := rows_single (execute_rows executed a) present (single a)
  obtain ⟨member,_⟩ := of_mem_takesOf (takes ▸ List.mem_singleton_self take)
  obtain ⟨amounts,measured,value⟩ := row.value (funded take member)
  refine ⟨io,rows,?_⟩
  intro asset
  rw [takes,List.map_singleton,List.sum_singleton,value asset,TakeAmounts.surcharge]
  split
  · rename_i both
    rw [(takeAmounts_fee measured).1,feeOnce take member both.1]
    omega
  · omega

end Spending

-- An order that was admitted, whatever has been filled of it since.
def Admitted (ext : Externals (TransactionOutput D)) (order : GreenOrder) : Prop :=
  ∃ config index raw admitted,Green.admitGreenIntent ext config index raw = .ok admitted ∧ order.intention = raw.intention

theorem Admitted.funded {ext : Externals (TransactionOutput D)} (admitted : Admitted ext order) : Funded order := by
  obtain ⟨config,index,raw,_,ok,same⟩ := admitted
  obtain ⟨account,admits,_⟩ := (Green.admit_ok_iff ext config index).mp ok
  unfold Funded
  rw [same]
  exact lt_of_le_of_lt admits.funds account.output.value.coin.toNat_lt

theorem admitted_lasting (ext : Externals (TransactionOutput D)) : Book.Lasting (Admitted ext) := by
  intro order removed added next _ traded admitted
  obtain ⟨config,index,raw,found,ok,same⟩ := admitted
  exact ⟨config,index,raw,found,ok,(Green.withAppliedTrade_succ traded).1.trans same⟩

section Recipes
variable [Pools.Estimates] [Green.TokenHash] {D : Type} {ctx : ExecContext D} {txs : Digest → TxView (TransactionOutput D)}
  {state : Book.TLBState GreenOrder Token RoyaltyPool} {linked : List (Instruction D)} {progress : Progress D}
  {index : AccountIndex (TransactionOutput D)} {find : Token → Option (V × Bearer D)} {poolOf : TransactionOutput D → Option Token}

theorem spends_once_iff_single {conf : Book.ExecutionConfig Green.ExUnits} (sound : Book.Sound (Admitted ctx.externals) state)
    (ran : Book.attempt (K := Token) fuel conf orders state = some outcome) (found : outcome.recipe = some recipe)
    (links : Engine.link find recipe = .ok (linked,versions)) (bearers : ∀ make,.inr make ∈ linked → PoolBearers ctx txs poolOf make)
    (reached : Reached ctx.externals txs index chain) (executed : execute ctx linked index = some progress) :
    (SpendsOnce linked progress → Single linked ∧ FeeOnce linked) ∧
      (Single linked ∧ FeeOnce linked ∧ Apart index linked → SpendsOnce linked progress) := by
  obtain ⟨takers,makes⟩ := Book.recipe_members (admitted_lasting ctx.externals) sound ran found
  have each := Engine.link_linked links
  have funded : ∀ take : Take D,.inl take ∈ linked → Funded take.target.entity := by
    intro take member
    have inside : take.inProgress ∈ recipe.takes := List.mem_filterMap.mpr ⟨_,linked_take each member,rfl⟩
    exact (takers _ inside).funded
  refine ⟨fun once => once.needs executed funded,?_⟩
  rintro ⟨single,feeOnce,outputs⟩
  exact .of_single single feeOnce executed funded
    (execute_references executed reached (spent_apart single outputs bearers (linked_pools each makes)))

end Recipes

-- An account of five ADA, a pool, and orders of the account's owner.
section Sample
open Green.Recorded Pools.NoEstimates
open Account (AlephAccountState)
open Book (adaPool adaConf inPlace)

def ownerRaw (digest : Nat) : Green.RawGreenIntent where
  accountId := ⟨Mpf.digestOf 1⟩
  originalIntentDigest := Mpf.digestOf digest
  intention := Green.sampleOrder.intention
  auth := .sig [] [] (List.replicate 64 0) []

def ownerOrder (digest : Nat) : GreenOrder := (ownerRaw digest).order

def ownerBook (digests : List Nat) : Book.TLBState GreenOrder Token RoyaltyPool :=
  .idle ⟨⟨0,⟨digests.map ownerOrder,[]⟩,∅⟩,AList.insert adaPool.id adaPool ∅⟩

def ownerToken : Token := ⟨.filled 1,[0x41]⟩

def ownerPool : TransactionOutput AlephAccountState := ⟨[0x71],⟨1000000000,AList.insert ownerToken 600000000 ∅⟩,none⟩

def ownerTx : TxView (TransactionOutput AlephAccountState) := ⟨Mpf.digestOf 5,[],[(0,Green.walletUtxo.output),(1,ownerPool)]⟩

def ownerTxs (h : Digest) : TxView (TransactionOutput AlephAccountState) := if h = Mpf.digestOf 5 then ownerTx else ⟨h,[],[]⟩

def ownerIndex : AccountIndex (TransactionOutput AlephAccountState) :=
  ((Account.applyAccountEvents .default (Account.scanAccountEvents Green.walletExternals ownerTx)).bindExternalAccountIdOnce
    ⟨Mpf.digestOf 1⟩ Green.walletUtxo.outputRef).1

def ownerContext : ExecContext AlephAccountState where
  datums := Green.walletDatums
  blake2b256 := Mpf.blake2b256
  proofToCbor := fun _ => [0x9f,0xff]
  operator := .filled 0
  allowGreenPartial := false
  accountValidator := ⟨.filled 4,⟨0,0⟩,⟨0,0⟩⟩
  batchWitness := ⟨.filled 3,⟨0,0⟩,⟨0,0⟩⟩
  poolValidator := fun _ => ⟨.filled 5,⟨0,0⟩,⟨0,0⟩⟩
  poolDatum := fun _ => some

def ownerBearer (id : Token) : Option (Unit × Bearer AlephAccountState) :=
  if id = adaPool.id then some ((),⟨ownerPool,⟨Mpf.digestOf 5,1⟩⟩) else some ((),Green.walletUtxo.finalizedOutput)

def ownerPoolId (output : TransactionOutput AlephAccountState) : Option Token := if output.address = [0x71] then some adaPool.id else none

theorem owner_reached : Reached ownerContext.externals ownerTxs ownerIndex [ownerTx] :=
  .bind (.apply (.fresh none .nil) ⟨rfl,by decide,by decide,by decide,by decide⟩) _ _

theorem owner_admitted (digest : Nat) : Admitted ownerContext.externals (ownerOrder digest) := by
  have admits : Green.Admits ownerContext.externals ⟨false⟩ ownerIndex (ownerRaw digest) Green.walletUtxo := by
    refine ⟨nofun,rfl,rfl,rfl,⟨0,?_,?_⟩,?_⟩
    · tauto
    · tauto
    · change (100 : UInt64).toNat + (10 : UInt64).toNat ≤ (5000000 : UInt64).toNat
      decide
  exact ⟨⟨false⟩,ownerIndex,ownerRaw digest,_,(Green.admit_ok_iff _ _ _).mpr ⟨_,admits,rfl⟩,rfl⟩

theorem ownerBook_sound (distinct : (digests.map ownerOrder).Pairwise (fun a b => stableId a ≠ stableId b)) :
    Book.Sound (Admitted ownerContext.externals) (ownerBook digests) := by
  have owned : ∀ order ∈ digests.map ownerOrder,∃ digest,ownerOrder digest = order := by grind
  refine Book.sound_idle ⟨?_,nofun⟩ ⟨?_,?_⟩ ?_
  · intro order member
    obtain ⟨digest,rfl⟩ := owned order member
    tauto
  · change (digests.map ownerOrder ++ []).Pairwise _
    rw [List.append_nil]
    exact distinct
  · intro order member
    obtain ⟨digest,rfl⟩ := owned order (List.append_nil (digests.map ownerOrder) ▸ member)
    exact owner_admitted digest
  · intro id pool found
    change (AList.insert adaPool.id adaPool ∅ : HashMap Token RoyaltyPool).lookup id = some pool at found
    rw [HashMap.lookup_insert] at found
    split at found
    · rename_i same
      rw [← Option.some.inj found,same]
      rfl
    · cases found

theorem owner_bearers (make : Make AlephAccountState) (bearer : make.target.bearer = ⟨ownerPool,⟨Mpf.digestOf 5,1⟩⟩)
    (pool : make.target.entity = adaPool) : PoolBearers ownerContext ownerTxs ownerPoolId make := by
  refine ⟨?_,?_,?_⟩ <;> rw [bearer]
  · rfl
  · rw [pool]
    rfl
  · rfl

def ownerLinked (takes : List (Book.TakeInProgress GreenOrder)) (amount : Nat) : List (Instruction AlephAccountState) :=
  takes.map (fun take => .inl ⟨⟨take.target,Green.walletUtxo.finalizedOutput⟩,take.result⟩) ++
    [.inr ⟨⟨adaPool,⟨ownerPool,⟨Mpf.digestOf 5,1⟩⟩⟩,.succ (adaPool.swap (.ask amount))⟩]

def ownerRecipe (takes : List (Book.TakeInProgress GreenOrder)) (amount : Nat) : MatchmakingRecipe GreenOrder RoyaltyPool :=
  ⟨takes.map .inl ++ [.inr ⟨adaPool,.succ (adaPool.swap (.ask amount))⟩]⟩

def bothTakes : List (Book.TakeInProgress GreenOrder) := [Green.sampleTake (ownerOrder 10) 100 59,Green.sampleTake (ownerOrder 11) 100 60]

theorem both_matched : (Book.attempt (K := Token) 10 adaConf (fun _ => inPlace) (ownerBook [10,11])).bind Book.Outcome.recipe =
    some (ownerRecipe bothTakes 200) := by decide +kernel

theorem owner_linked (orders : ∀ take ∈ takes,stableId take.target ≠ adaPool.id) (amount : Nat) :
    Engine.link ownerBearer (ownerRecipe takes amount) = .ok (ownerLinked takes amount,List.replicate (takes.length+1) ()) := by
  have targets : Engine.linkTargets ownerBearer (ownerRecipe takes amount).instructions =
      (ownerLinked takes amount,List.replicate (takes.length+1) (),[]) := by
    induction takes with
    | nil => rfl
    | cons take rest ih =>
      have later := ih (fun other member => orders other (List.mem_cons_of_mem _ member))
      have found : ownerBearer (stableId take.target) = some ((),Green.walletUtxo.finalizedOutput) := if_neg (orders take List.mem_cons_self)
      change Engine.linkTargets ownerBearer (.inl take :: (ownerRecipe rest amount).instructions) = _
      unfold Engine.linkTargets
      rw [later]
      simp only [found]
      rfl
  unfold Engine.link
  rw [targets]
  rfl

theorem both_references : (execute ownerContext (ownerLinked bothTakes 200) ownerIndex).map (fun progress => progress.state.txBlueprint.references) =
    some [⟨Mpf.digestOf 5,0⟩,⟨Mpf.digestOf 5,0⟩,⟨Mpf.digestOf 5,1⟩] := by decide

theorem owner_make (member : .inr make ∈ ownerLinked takes amount) : PoolBearers ownerContext ownerTxs ownerPoolId make := by
  rcases List.mem_append.mp member with take | pool
  · grind
  · cases List.mem_singleton.mp pool
    exact owner_bearers _ rfl rfl

-- Two orders of one account spend its output twice.
theorem account_spent_twice : Book.Sound (Admitted ownerContext.externals) (ownerBook [10,11]) ∧
    (∃ outcome,Book.attempt (K := Token) 10 adaConf (fun _ => inPlace) (ownerBook [10,11]) = some outcome ∧
      outcome.recipe = some (ownerRecipe bothTakes 200)) ∧
    Engine.link ownerBearer (ownerRecipe bothTakes 200) = .ok (ownerLinked bothTakes 200,[(),(),()]) ∧
    (∀ make,.inr make ∈ ownerLinked bothTakes 200 → PoolBearers ownerContext ownerTxs ownerPoolId make) ∧
    Reached ownerContext.externals ownerTxs ownerIndex [ownerTx] ∧
    ∃ progress,execute ownerContext (ownerLinked bothTakes 200) ownerIndex = some progress ∧ ¬SpendsOnce (ownerLinked bothTakes 200) progress := by
  obtain ⟨progress,executed,references⟩ := Option.map_eq_some_iff.mp both_references
  refine ⟨ownerBook_sound (by decide +kernel),Option.bind_eq_some_iff.mp both_matched,owner_linked (by decide +kernel) 200,
    fun _ member => owner_make member,owner_reached,progress,executed,?_⟩
  intro once
  have distinct := once.distinct
  rw [references] at distinct
  exact absurd distinct (by decide)

def oneTake : List (Book.TakeInProgress GreenOrder) := [Green.sampleTake (ownerOrder 10) 100 59]

theorem one_matched : (Book.attempt (K := Token) 10 adaConf (fun _ => inPlace) (ownerBook [10])).bind Book.Outcome.recipe =
    some (ownerRecipe oneTake 100) := by decide +kernel

theorem one_executed : (execute ownerContext (ownerLinked oneTake 100) ownerIndex).isSome = true := by decide

theorem one_account (present : takesOf a (ownerLinked oneTake 100) ≠ []) : a = ⟨Mpf.digestOf 1⟩ := by
  obtain ⟨take,member⟩ := List.exists_mem_of_ne_nil _ present
  obtain ⟨inside,rfl⟩ := of_mem_takesOf member
  rcases List.mem_cons.mp inside with same | later
  · cases same
    rfl
  · cases List.mem_singleton.mp later

theorem spends_once_alone : ∃ progress,execute ownerContext (ownerLinked oneTake 100) ownerIndex = some progress ∧
    SpendsOnce (ownerLinked oneTake 100) progress := by
  obtain ⟨outcome,ran,found⟩ := Option.bind_eq_some_iff.mp one_matched
  obtain ⟨progress,executed⟩ := Option.isSome_iff_exists.mp one_executed
  refine ⟨progress,executed,(spends_once_iff_single (ownerBook_sound (by decide +kernel)) ran found (owner_linked (by decide +kernel) 100)
    (fun _ member => owner_make member) owner_reached executed).2 ⟨?_,?_,?_⟩⟩
  · intro a
    by_cases mine : a = ⟨Mpf.digestOf 1⟩
    · subst mine
      decide
    · rw [not_imp_comm.mp one_account mine]
      exact Nat.zero_le _
  · intro take member ada
    rcases List.mem_cons.mp member with same | later
    · cases same
      cases ada
    · cases List.mem_singleton.mp later
  · intro a b different first second
    exact absurd ((one_account first).trans (one_account second).symm) different

end Sample
end GreenAgent.Tx
