import GreenAgent.Engine.Executor

namespace GreenAgent.Engine

inductive FilterOp (T : Type) where
  | add (a : T)
  | remove (a : T)
  | popBack

def FilterOp.added : FilterOp T → Option T
  | .add a => some a
  | _ => none

namespace CircularFilter
variable {T : Type} [DecidableEq T]

-- `add` of a filter with `size` slots, with the element it evicts. A filter
-- without slots has nothing to evict.
def addTo (size : Nat) (set : CircularFilter T) (a : T) : CircularFilter T × Option T :=
  if a ∈ set.filter then (set,none)
  else if set.buffer.length < size then (⟨set.buffer ++ [a],insert a set.filter⟩,none)
  else match set.buffer with
    | [] => (⟨[],insert a set.filter⟩,none)
    | evicted :: rest => (⟨rest ++ [a],(insert a set.filter).erase evicted⟩,some evicted)

def popBack (set : CircularFilter T) : CircularFilter T × Option T :=
  match set.buffer.getLast? with
  | none => (set,none)
  | some a => (⟨set.buffer.dropLast,set.filter.erase a⟩,some a)

def contains (set : CircularFilter T) (a : T) : Bool := decide (a ∈ set.filter)

theorem add_eq (set : CircularFilter T) (a : T) : set.add a = (set.addTo capacity a).1 := by
  unfold add addTo
  split
  · rfl
  · split
    · rfl
    · cases set.buffer <;> rfl

def apply (size : Nat) (set : CircularFilter T) : FilterOp T → CircularFilter T
  | .add a => (set.addTo size a).1
  | .remove a => set.remove a
  | .popBack => set.popBack.1

def runFrom (size : Nat) (set : CircularFilter T) (ops : List (FilterOp T)) : CircularFilter T := ops.foldl (apply size) set

def run (size : Nat) (ops : List (FilterOp T)) : CircularFilter T := runFrom size new ops

-- The element is neither removed nor popped.
def Spares (size : Nat) (a : T) : CircularFilter T → List (FilterOp T) → Prop
  | _,[] => True
  | set,op :: ops => (op ≠ .remove a ∧ (op = .popBack → set.popBack.2 ≠ some a)) ∧ Spares size a (set.apply size op) ops

def othersAdded (a : T) (ops : List (FilterOp T)) : Finset T := (ops.filterMap FilterOp.added).toFinset.erase a

-- What was added stays for as long as fewer elements follow than there are slots.
def Kept (size : Nat) (ops : List (FilterOp T)) : Prop :=
  ∀ before a later,ops = before ++ .add a :: later → Spares size a (run size (before ++ [.add a])) later → (othersAdded a later).card < size →
    (run size ops).contains a = true

-- What was removed is gone until it is added again.
def Gone (size : Nat) (ops : List (FilterOp T)) : Prop :=
  ∀ before a later,ops = before ++ .remove a :: later → .add a ∉ later → (run size ops).contains a = false

-- An element to be added has no entry in the buffer, or is there as the newest.
def Fresh (set : CircularFilter T) : FilterOp T → Prop
  | .add a => a ∉ set.buffer ∨ a ∈ set.filter ∧ set.buffer.getLast? = some a
  | _ => True

def FreshFrom (size : Nat) : CircularFilter T → List (FilterOp T) → Prop
  | _,[] => True
  | set,op :: ops => set.Fresh op ∧ FreshFrom size (set.apply size op) ops

-- At every point of a run, also if elements follow that were never added before.
def Keeps (size : Nat) (ops : List (FilterOp T)) : Prop :=
  ∀ before later (new : List T),ops = before ++ later → new.Nodup → (∀ x ∈ new,.add x ∉ before) →
    Kept size (before ++ new.map .add) ∧ Gone size (before ++ new.map .add)

theorem runFrom_append (size : Nat) (set : CircularFilter T) (ops more : List (FilterOp T)) :
    runFrom size set (ops ++ more) = runFrom size (runFrom size set ops) more := List.foldl_append

theorem FreshFrom.append {size : Nat} {set : CircularFilter T} {ops more : List (FilterOp T)} :
    FreshFrom size set (ops ++ more) ↔ FreshFrom size set ops ∧ FreshFrom size (runFrom size set ops) more := by
  induction ops generalizing set with
  | nil => simp [FreshFrom,runFrom]
  | cons op ops ih =>
    simp only [List.cons_append,FreshFrom,ih,and_assoc]
    rfl

theorem not_freshFrom {size : Nat} {set : CircularFilter T} {ops : List (FilterOp T)} (stale : ¬FreshFrom size set ops) :
    ∃ before a later,ops = before ++ .add a :: later ∧ FreshFrom size set before ∧ ¬(runFrom size set before).Fresh (.add a) := by
  induction ops generalizing set with
  | nil => exact absurd trivial stale
  | cons op ops ih =>
    by_cases first : set.Fresh op
    · obtain ⟨before,a,later,rfl,fresh,wrong⟩ := ih (fun rest => stale ⟨first,rest⟩)
      exact ⟨op :: before,a,later,rfl,⟨first,fresh⟩,wrong⟩
    · cases op with
      | add a => exact ⟨[],a,ops,rfl,trivial,first⟩
      | remove a => exact absurd trivial first
      | popBack => exact absurd trivial first

theorem add_cases (size : Nat) (set : CircularFilter T) (a : T) :
    (a ∈ set.filter ∧ set.apply size (.add a) = set) ∨
    (a ∉ set.filter ∧ set.buffer.length < size ∧ set.apply size (.add a) = ⟨set.buffer ++ [a],insert a set.filter⟩) ∨
    (a ∉ set.filter ∧ size ≤ 0 ∧ set.buffer = [] ∧ set.apply size (.add a) = ⟨[],insert a set.filter⟩) ∨
    (a ∉ set.filter ∧ size ≤ set.buffer.length ∧ ∃ oldest rest,set.buffer = oldest :: rest ∧
      set.apply size (.add a) = ⟨rest ++ [a],(insert a set.filter).erase oldest⟩) := by
  simp only [apply,addTo]
  by_cases known : a ∈ set.filter
  · exact .inl ⟨known,by rw [if_pos known]⟩
  · rw [if_neg known]
    by_cases room : set.buffer.length < size
    · exact .inr (.inl ⟨known,room,by rw [if_pos room]⟩)
    · rw [if_neg room]
      cases shape : set.buffer with
      | nil => exact .inr (.inr (.inl ⟨known,by simpa [shape] using room,rfl,rfl⟩))
      | cons oldest rest => exact .inr (.inr (.inr ⟨known,by simpa [shape] using room,oldest,rest,rfl,rfl⟩))

theorem popBack_cases (size : Nat) (set : CircularFilter T) : (set.buffer = [] ∧ set.apply size .popBack = set) ∨
    ∃ rest a,set.buffer = rest ++ [a] ∧ set.popBack.2 = some a ∧ set.apply size .popBack = ⟨rest,set.filter.erase a⟩ := by
  simp only [apply,popBack]
  rcases List.eq_nil_or_concat set.buffer with shape | ⟨rest,a,shape⟩
  · exact .inl ⟨shape,by rw [shape]; rfl⟩
  · exact .inr ⟨rest,a,by rw [shape,List.concat_eq_append],by simp [shape],by simp [shape]⟩

theorem apply_filter_add {size : Nat} {set : CircularFilter T} {op : FilterOp T} (inside : a ∈ (set.apply size op).filter) :
    a ∈ set.filter ∨ op = .add a := by
  cases op with
  | add b =>
    rcases add_cases size set b with ⟨_,same⟩ | ⟨_,_,same⟩ | ⟨_,_,_,same⟩ | ⟨_,_,_,_,_,same⟩
    all_goals rw [same] at inside
    · exact .inl inside
    · exact (Finset.mem_insert.mp inside).elim (fun new => .inr (by rw [new])) .inl
    · exact (Finset.mem_insert.mp inside).elim (fun new => .inr (by rw [new])) .inl
    · exact (Finset.mem_insert.mp (Finset.mem_of_mem_erase inside)).elim (fun new => .inr (by rw [new])) .inl
  | remove b => exact .inl (Finset.mem_of_mem_erase inside)
  | popBack =>
    rcases popBack_cases size set with ⟨_,same⟩ | ⟨_,_,_,_,same⟩
    all_goals rw [same] at inside
    · exact .inl inside
    · exact .inl (Finset.mem_of_mem_erase inside)

theorem apply_buffer_add {size : Nat} {set : CircularFilter T} {op : FilterOp T} (inside : a ∈ (set.apply size op).buffer) :
    a ∈ set.buffer ∨ op = .add a := by
  cases op with
  | add b =>
    rcases add_cases size set b with ⟨_,same⟩ | ⟨_,_,same⟩ | ⟨_,_,_,same⟩ | ⟨_,_,_,_,shape,same⟩
    all_goals rw [same] at inside
    · exact .inl inside
    · exact (List.mem_append.mp inside).elim .inl (fun new => .inr (by rw [List.mem_singleton.mp new]))
    · cases inside
    · rw [shape]
      exact (List.mem_append.mp inside).elim (fun old => .inl (List.mem_cons_of_mem _ old)) (fun new => .inr (by rw [List.mem_singleton.mp new]))
  | remove b => exact .inl inside
  | popBack =>
    rcases popBack_cases size set with ⟨_,same⟩ | ⟨_,_,shape,_,same⟩
    all_goals rw [same] at inside
    · exact .inl inside
    · exact .inl (by rw [shape]; exact List.mem_append_left _ inside)

theorem runFrom_added (size : Nat) (set : CircularFilter T) (ops : List (FilterOp T)) :
    (a ∈ (runFrom size set ops).filter → a ∈ set.filter ∨ .add a ∈ ops) ∧ (a ∈ (runFrom size set ops).buffer → a ∈ set.buffer ∨ .add a ∈ ops) := by
  induction ops generalizing set with
  | nil => exact ⟨.inl,.inl⟩
  | cons op ops ih =>
    obtain ⟨filter,buffer⟩ := ih (set.apply size op)
    refine ⟨fun inside => ?_,fun inside => ?_⟩
    · rcases filter inside with earlier | later
      · exact (apply_filter_add earlier).imp_right (fun own => by rw [own]; exact List.mem_cons_self)
      · exact .inr (List.mem_cons_of_mem _ later)
    · rcases buffer inside with earlier | later
      · exact (apply_buffer_add earlier).imp_right (fun own => by rw [own]; exact List.mem_cons_self)
      · exact .inr (List.mem_cons_of_mem _ later)

theorem gone (size : Nat) (ops : List (FilterOp T)) : Gone size ops := by
  rintro before a later rfl unadded
  unfold run
  rw [runFrom_append]
  refine decide_eq_false (fun inside => ?_)
  rcases (runFrom_added size _ later).1 inside with held | again
  · exact Finset.notMem_erase a _ held
  · exact unadded again

-- Entries are distinct as long as additions are fresh.
@[grind cases eager] structure Tidy (size : Nat) (set : CircularFilter T) : Prop where
  nodup : set.buffer.Nodup
  room : set.buffer.length ≤ size
  stored : 0 < size → ∀ a ∈ set.filter,a ∈ set.buffer

theorem Tidy.apply {size : Nat} {set : CircularFilter T} {op : FilterOp T} (tidy : Tidy size set) (fresh : set.Fresh op) :
    Tidy size (set.apply size op) := by
  cases op with
  | add a =>
    have unseen : a ∉ set.filter → a ∉ set.buffer := fun unknown => fresh.elim id (fun newest => absurd newest.1 unknown)
    rcases add_cases size set a with ⟨_,same⟩ | ⟨unknown,room,same⟩ | ⟨_,none,_,same⟩ | ⟨unknown,_,oldest,rest,shape,same⟩
    all_goals rw [same]
    · exact tidy
    · refine ⟨List.nodup_append'.mpr ⟨tidy.nodup,List.nodup_singleton a,?_⟩,?_,fun positive x inside => ?_⟩
      · exact List.disjoint_singleton.mpr (unseen unknown)
      · rw [List.length_append]
        exact room
      · rcases Finset.mem_insert.mp inside with rfl | inside
        · exact List.mem_append_right _ List.mem_cons_self
        · exact List.mem_append_left _ (tidy.stored positive x inside)
    · exact ⟨List.nodup_nil,Nat.zero_le _,fun positive => absurd positive none.not_gt⟩
    · have apart := unseen unknown
      obtain ⟨nodup,room,stored⟩ := tidy
      rw [shape] at apart nodup room stored
      refine ⟨List.nodup_append'.mpr ⟨(List.nodup_cons.mp nodup).2,List.nodup_singleton a,?_⟩,?_,fun positive x inside => ?_⟩
      · exact List.disjoint_singleton.mpr (fun inside => apart (List.mem_cons_of_mem _ inside))
      · rw [List.length_append]
        exact room
      · obtain ⟨other,inside⟩ := Finset.mem_erase.mp inside
        rcases Finset.mem_insert.mp inside with rfl | inside
        · exact List.mem_append_right _ List.mem_cons_self
        · exact List.mem_append_left _ ((List.mem_cons.mp (stored positive x inside)).resolve_left other)
  | remove a => exact ⟨tidy.nodup,tidy.room,fun positive x inside => tidy.stored positive x (Finset.mem_of_mem_erase inside)⟩
  | popBack =>
    rcases popBack_cases size set with ⟨_,same⟩ | ⟨rest,a,shape,_,same⟩
    all_goals rw [same]
    · exact tidy
    · obtain ⟨nodup,room,stored⟩ := tidy
      rw [shape] at nodup room stored
      rw [List.length_append] at room
      refine ⟨(List.nodup_append.mp nodup).1,Nat.le_of_succ_le room,fun positive x inside => ?_⟩
      obtain ⟨other,inside⟩ := Finset.mem_erase.mp inside
      exact (List.mem_append.mp (stored positive x inside)).resolve_right (fun last => other (List.mem_singleton.mp last))

theorem FreshFrom.tidy {size : Nat} {set : CircularFilter T} {ops : List (FilterOp T)} (fresh : FreshFrom size set ops) (tidy : Tidy size set) :
    Tidy size (runFrom size set ops) := by
  induction ops generalizing set with
  | nil => exact tidy
  | cons op ops ih => exact ih fresh.2 (tidy.apply fresh.1)

omit [DecidableEq T] in
theorem tidy_new (size : Nat) : Tidy size (new : CircularFilter T) := ⟨List.nodup_nil,Nat.zero_le _,fun _ _ inside => nomatch inside⟩

-- The element is held, and only those of `since` came after it.
@[grind cases eager] structure Holding (size : Nat) (a : T) (since : Finset T) (set : CircularFilter T) : Prop extends Tidy size set where
  inside : a ∈ set.filter
  place : ∃ front tail,set.buffer = front ++ a :: tail ∧ ∀ x ∈ tail,x ∈ since

omit [DecidableEq T] in
theorem Holding.mono {size : Nat} {a : T} {since more : Finset T} {set : CircularFilter T} (holding : Holding size a since set) (wider : since ⊆ more) :
    Holding size a more set := by
  obtain ⟨front,tail,shape,later⟩ := holding.place
  exact ⟨holding.toTidy,holding.inside,front,tail,shape,fun x member => wider (later x member)⟩

theorem Holding.add {size : Nat} {a b : T} {since : Finset T} {set : CircularFilter T} (holding : Holding size a since set)
    (fresh : set.Fresh (.add b)) (other : b ≠ a) (few : (insert b since).card < size) : Holding size a (insert b since) (set.apply size (.add b)) := by
  have tidy := holding.toTidy.apply fresh
  obtain ⟨front,tail,shape,later⟩ := holding.place
  have wider : ∀ x ∈ tail,x ∈ insert b since := fun x member => Finset.mem_insert_of_mem (later x member)
  have longer : ∀ x ∈ tail ++ [b],x ∈ insert b since := by
    intro x member
    rcases List.mem_append.mp member with member | member
    · exact wider x member
    · exact List.mem_singleton.mp member ▸ Finset.mem_insert_self b since
  rcases add_cases size set b with ⟨_,same⟩ | ⟨_,_,same⟩ | ⟨_,_,empty,_⟩ | ⟨unknown,full,oldest,rest,front',same⟩
  · rw [same]
    exact holding.mono (Finset.subset_insert b since)
  · rw [same] at tidy ⊢
    exact ⟨tidy,Finset.mem_insert_of_mem holding.inside,front,tail ++ [b],by simp [shape],longer⟩
  · rw [shape] at empty
    simp at empty
  · rw [same] at tidy ⊢
    cases front with
    | nil =>
      -- all slots behind the element are taken by others
      exfalso
      have unseen : b ∉ set.buffer := fresh.elim id (fun newest => absurd newest.1 unknown)
      rw [shape] at unseen full
      have nodup := holding.nodup
      rw [shape] at nodup
      have entries : (b :: tail).toFinset ⊆ insert b since := by
        intro x member
        rcases List.mem_cons.mp (List.mem_toFinset.mp member) with rfl | member
        · exact Finset.mem_insert_self x since
        · exact wider x member
      have distinct : (b :: tail).Nodup :=
        List.nodup_cons.mpr ⟨fun inside => unseen (List.mem_cons_of_mem _ inside),(List.nodup_cons.mp nodup).2⟩
      have enough := Finset.card_le_card entries
      rw [List.toFinset_card_of_nodup distinct] at enough
      simp only [List.nil_append,List.length_cons] at full enough
      omega
    | cons first front =>
      rw [shape] at front'
      cases front'
      have nodup := holding.nodup
      rw [shape] at nodup
      have apart : a ≠ oldest := by
        rintro rfl
        exact (List.nodup_cons.mp nodup).1 (List.mem_append_right front List.mem_cons_self)
      exact ⟨tidy,Finset.mem_erase.mpr ⟨apart,Finset.mem_insert_of_mem holding.inside⟩,front,tail ++ [b],by simp,longer⟩

theorem Holding.again {size : Nat} {a : T} {since : Finset T} {set : CircularFilter T} (holding : Holding size a since set) :
    Holding size a since (set.apply size (.add a)) := by
  have same : set.apply size (.add a) = set := by
    simp only [CircularFilter.apply,addTo,if_pos holding.inside]
  rwa [same]

theorem Holding.remove {size : Nat} {a b : T} {since : Finset T} {set : CircularFilter T} (holding : Holding size a since set) (other : b ≠ a) :
    Holding size a since (set.apply size (.remove b)) :=
  ⟨holding.toTidy.apply trivial,Finset.mem_erase.mpr ⟨other.symm,holding.inside⟩,holding.place⟩

theorem Holding.popBack {size : Nat} {a : T} {since : Finset T} {set : CircularFilter T} (holding : Holding size a since set)
    (spared : set.popBack.2 ≠ some a) : Holding size a since (set.apply size .popBack) := by
  have tidy : Tidy size (set.apply size .popBack) := holding.toTidy.apply trivial
  obtain ⟨front,tail,shape,later⟩ := holding.place
  rcases popBack_cases size set with ⟨_,same⟩ | ⟨rest,b,back,popped,same⟩
  · rw [same]
    exact holding
  · rw [same] at tidy ⊢
    have apart : a ≠ b := fun own => spared (popped.trans (congrArg some own.symm))
    rcases List.eq_nil_or_concat tail with rfl | ⟨tail,last,rfl⟩
    · exact absurd (List.append_inj' (shape.symm.trans back) rfl).2 (fun own => apart (List.cons.inj own).1)
    · rw [List.concat_eq_append,← List.cons_append,← List.append_assoc] at shape
      obtain ⟨rfl,_⟩ := List.append_inj' (shape.symm.trans back) rfl
      exact ⟨tidy,Finset.mem_erase.mpr ⟨apart,holding.inside⟩,front,tail,rfl,fun x member => later x (by simp [member])⟩

theorem Holding.run {size : Nat} {a : T} {since : Finset T} {set : CircularFilter T} {ops : List (FilterOp T)} (holding : Holding size a since set)
    (fresh : FreshFrom size set ops) (spares : Spares size a set ops) (few : (since ∪ othersAdded a ops).card < size) :
    a ∈ (runFrom size set ops).filter := by
  induction ops generalizing set since with
  | nil => exact holding.inside
  | cons op ops ih =>
    obtain ⟨first,fresh⟩ := fresh
    obtain ⟨⟨kept,popped⟩,spares⟩ := spares
    have rest : othersAdded a ops ⊆ othersAdded a (op :: ops) := by
      apply Finset.erase_subset_erase
      intro x member
      simp only [List.mem_toFinset,List.mem_filterMap] at member ⊢
      obtain ⟨op',inside,made⟩ := member
      exact ⟨op',List.mem_cons_of_mem _ inside,made⟩
    have fewer : (since ∪ othersAdded a ops).card < size := (Finset.card_le_card (Finset.union_subset_union_right rest)).trans_lt few
    cases op with
    | add b =>
      by_cases own : b = a
      · subst own
        exact ih holding.again fresh spares fewer
      · have counted : b ∈ othersAdded a (.add b :: ops) := by simp [othersAdded,FilterOp.added,own]
        have within : insert b since ∪ othersAdded a ops ⊆ since ∪ othersAdded a (.add b :: ops) := by
          intro x member
          rcases Finset.mem_union.mp member with member | member
          · rcases Finset.mem_insert.mp member with rfl | member
            · exact Finset.mem_union_right _ counted
            · exact Finset.mem_union_left _ member
          · exact Finset.mem_union_right _ (rest member)
        have total := (Finset.card_le_card within).trans_lt few
        exact ih (holding.add first own ((Finset.card_le_card Finset.subset_union_left).trans_lt total)) fresh spares total
    | remove b =>
      exact ih (holding.remove (fun own => kept (by rw [own]))) fresh spares fewer
    | popBack => exact ih (holding.popBack (popped rfl)) fresh spares fewer

theorem Fresh.holding {size : Nat} {a : T} {set : CircularFilter T} (fresh : set.Fresh (.add a)) (tidy : Tidy size set) (positive : 0 < size) :
    Holding size a ∅ (set.apply size (.add a)) := by
  have tidy' := tidy.apply fresh
  rcases add_cases size set a with ⟨known,same⟩ | ⟨_,_,same⟩ | ⟨_,none,_,_⟩ | ⟨unknown,_,oldest,rest,shape,same⟩
  · rw [same]
    refine ⟨tidy,known,?_⟩
    rcases fresh with absent | newest
    · exact absurd (tidy.stored positive a known) absent
    · obtain ⟨rest,shape⟩ := List.getLast?_eq_some_iff.mp newest.2
      exact ⟨rest,[],shape,fun _ member => nomatch member⟩
  · rw [same] at tidy' ⊢
    exact ⟨tidy',Finset.mem_insert_self _ _,set.buffer,[],rfl,fun _ member => nomatch member⟩
  · omega
  · rw [same] at tidy' ⊢
    have unseen : a ∉ set.buffer := fresh.elim id (fun newest => absurd newest.1 unknown)
    have apart : a ≠ oldest := fun own => unseen (by rw [shape,own]; exact List.mem_cons_self)
    exact ⟨tidy',Finset.mem_erase.mpr ⟨apart,Finset.mem_insert_self _ _⟩,rest,[],rfl,fun _ member => nomatch member⟩

theorem freshFrom_kept {size : Nat} {ops : List (FilterOp T)} (fresh : FreshFrom size new ops) : Kept size ops := by
  rintro before a later rfl spares few
  obtain ⟨earlier,first,rest⟩ := FreshFrom.append.mp fresh
  have start := first.holding (earlier.tidy (tidy_new size)) (Nat.zero_lt_of_lt few)
  have same : run size (before ++ [.add a]) = (runFrom size new before).apply size (.add a) := runFrom_append _ _ _ _
  rw [same] at spares
  have inside := start.run rest spares (by rwa [Finset.empty_union])
  have whole : run size (before ++ .add a :: later) = runFrom size ((runFrom size new before).apply size (.add a)) later := runFrom_append _ _ _ _
  rw [whole]
  exact decide_eq_true inside

theorem freshFrom_new {size : Nat} {before : List (FilterOp T)} {elements : List T} (nodup : elements.Nodup)
    (unseen : ∀ x ∈ elements,.add x ∉ before) : FreshFrom size (runFrom size new before) (elements.map .add) := by
  induction elements generalizing before with
  | nil => trivial
  | cons x elements ih =>
    obtain ⟨apart,nodup⟩ := List.nodup_cons.mp nodup
    refine ⟨.inl (fun inside => ?_),?_⟩
    · rcases (runFrom_added size new before).2 inside with empty | added
      · cases empty
      · exact unseen x List.mem_cons_self added
    · have rest : FreshFrom size (runFrom size new (before ++ [.add x])) (elements.map .add) := by
        apply ih nodup
        intro y member added
        rcases List.mem_append.mp added with added | added
        · exact unseen y (List.mem_cons_of_mem _ member) added
        · cases List.mem_singleton.mp added
          exact apart member
      rwa [runFrom_append] at rest

-- An entry that others follow is evicted by new elements, fewer than there are
-- slots.
theorem evicted_by_new [Infinite T] {size : Nat} {a : T} {set : CircularFilter T} {front tail : List T} (shape : set.buffer = front ++ a :: tail)
    (room : set.buffer.length ≤ size) (avoid : Finset T) (filter : set.filter ⊆ avoid) (own : a ∈ avoid) :
    ∃ elements : List T,elements.Nodup ∧ (∀ x ∈ elements,x ∉ avoid) ∧ elements.length ≤ size - set.buffer.length + front.length + 1 ∧
      a ∉ (runFrom size set (elements.map .add)).filter := by
  induction counted : size - set.buffer.length + front.length generalizing set front tail avoid with
  | zero =>
    obtain ⟨x,unseen⟩ := Infinite.exists_notMem_finset avoid
    have empty : front = [] := List.eq_nil_of_length_eq_zero (by omega)
    subst empty
    refine ⟨[x],List.nodup_singleton x,fun y member => List.mem_singleton.mp member ▸ unseen,by simp,?_⟩
    have differs : a ≠ x := fun same => unseen (same ▸ own)
    change a ∉ (set.apply size (.add x)).filter
    rcases add_cases size set x with ⟨known,_⟩ | ⟨_,small,_⟩ | ⟨_,_,none,_⟩ | ⟨_,_,oldest,rest,front',same⟩
    · exact absurd (filter known) unseen
    · omega
    · simp [shape] at none
    · rw [shape] at front'
      cases front'
      rw [same]
      exact Finset.notMem_erase _ _
  | succ turns ih =>
    obtain ⟨x,unseen⟩ := Infinite.exists_notMem_finset avoid
    have next : ∀ front' tail' : List T,(set.apply size (.add x)).buffer = front' ++ a :: tail' → (set.apply size (.add x)).buffer.length ≤ size →
        (set.apply size (.add x)).filter ⊆ insert x avoid → size - (set.apply size (.add x)).buffer.length + front'.length = turns →
        ∃ elements : List T,elements.Nodup ∧ (∀ y ∈ elements,y ∉ avoid) ∧ elements.length ≤ turns + 1 + 1 ∧
          a ∉ (runFrom size set (elements.map .add)).filter := by
      intro front' tail' shape' room' filter' fewer
      obtain ⟨elements,nodup,fresh,count,gone⟩ := ih shape' room' (insert x avoid) filter' (Finset.mem_insert_of_mem own) fewer
      refine ⟨x :: elements,List.nodup_cons.mpr ⟨fun member => fresh x member (Finset.mem_insert_self _ _),nodup⟩,?_,?_,gone⟩
      · intro y member
        rcases List.mem_cons.mp member with rfl | member
        · exact unseen
        · exact fun seen => fresh y member (Finset.mem_insert_of_mem seen)
      · rw [List.length_cons]
        omega
    rcases add_cases size set x with ⟨known,_⟩ | ⟨_,small,same⟩ | ⟨_,_,none,_⟩ | ⟨_,full,oldest,rest,front',same⟩
    · exact absurd (filter known) unseen
    · have wider : insert x set.filter ⊆ insert x avoid := Finset.insert_subset_insert x filter
      rw [same] at next
      refine next front (tail ++ [x]) (by simp [shape]) ?_ wider ?_
      · rw [List.length_append]
        exact small
      · rw [List.length_append,List.length_singleton]
        omega
    · simp [shape] at none
    · cases front with
      | nil =>
        simp only [List.length_nil] at counted
        omega
      | cons first front =>
        rw [shape,List.cons_append] at front'
        obtain ⟨rfl,rfl⟩ := List.cons.inj front'
        have wider : (insert x set.filter).erase first ⊆ insert x avoid := (Finset.erase_subset _ _).trans (Finset.insert_subset_insert x filter)
        rw [same] at next
        rw [shape] at room full counted
        simp only [List.length_append,List.length_cons,List.cons_append] at room full counted
        refine next front (tail ++ [x]) (by simp) ?_ wider ?_
        · simp only [List.length_append,List.length_cons,List.length_nil]
          omega
        · simp only [List.length_append,List.length_cons,List.length_nil]
          omega

theorem not_fresh_evicted [Infinite T] {size : Nat} {a : T} {set : CircularFilter T} (tidy : Tidy size set) (stale : ¬set.Fresh (.add a)) (avoid : Finset T) :
    ∃ elements : List T,elements.Nodup ∧ (∀ x ∈ elements,x ∉ avoid) ∧ elements.length < size ∧
      a ∉ (runFrom size (set.apply size (.add a)) (elements.map .add)).filter := by
  obtain ⟨entry,old⟩ := not_or.mp stale
  obtain ⟨front,tail,shape⟩ := List.append_of_mem (not_not.mp entry)
  have length : set.buffer.length = front.length + tail.length + 1 := by rw [shape]; simp; omega
  have room := tidy.room
  -- the element has an entry that is not the newest one
  have followed : ∀ (front tail : List T),(set.apply size (.add a)).buffer = front ++ a :: tail → tail ≠ [] →
      (set.apply size (.add a)).buffer.length ≤ size → ∃ elements : List T,elements.Nodup ∧ (∀ x ∈ elements,x ∉ avoid) ∧ elements.length < size ∧
        a ∉ (runFrom size (set.apply size (.add a)) (elements.map .add)).filter := by
    intro front tail shape behind room
    obtain ⟨elements,nodup,fresh,count,gone⟩ := evicted_by_new shape room (insert a (avoid ∪ (set.apply size (.add a)).filter))
      (Finset.subset_union_right.trans (Finset.subset_insert _ _)) (Finset.mem_insert_self _ _)
    refine ⟨elements,nodup,fun x member seen => ?_,?_,gone⟩
    · exact fresh x member (Finset.mem_insert_of_mem (Finset.mem_union_left _ seen))
    · have some_behind := List.length_pos_iff.mpr behind
      rw [shape] at room count
      simp only [List.length_append,List.length_cons] at room count
      omega
  rcases add_cases size set a with ⟨known,same⟩ | ⟨_,small,same⟩ | ⟨_,_,empty,_⟩ | ⟨_,full,oldest,rest,front',same⟩
  · refine followed front tail (by rw [same,shape]) ?_ (by rw [same]; exact room)
    rintro rfl
    exact old ⟨known,by rw [shape]; simp⟩
  · refine followed front (tail ++ [a]) (by rw [same,shape]; simp) (by simp) ?_
    rw [same,List.length_append]
    exact small
  · simp [shape] at empty
  · cases front with
    | nil =>
      -- the entry makes room for the new one, and takes the element out
      rw [shape,List.nil_append] at front'
      obtain ⟨rfl,rfl⟩ := List.cons.inj front'
      have positive : 0 < size := by omega
      refine ⟨[],List.nodup_nil,fun x member => absurd member List.not_mem_nil,positive,?_⟩
      change a ∉ (set.apply size (.add a)).filter
      rw [same]
      exact Finset.notMem_erase _ _
    | cons first front =>
      rw [shape,List.cons_append] at front'
      obtain ⟨rfl,rfl⟩ := List.cons.inj front'
      refine followed front (tail ++ [a]) (by rw [same]; simp) (by simp) ?_
      rw [same]
      simp only [List.length_append,List.length_cons,List.length_nil] at length ⊢
      omega

theorem spares_kept {size : Nat} {a : T} {set : CircularFilter T} {ops : List (FilterOp T)} (kept : .remove a ∉ ops) (unpopped : .popBack ∉ ops) :
    Spares size a set ops := by
  induction ops generalizing set with
  | nil => trivial
  | cons op ops ih =>
    refine ⟨⟨fun own => kept (by rw [own]; exact List.mem_cons_self),fun own => ?_⟩,ih (fun member => kept (List.mem_cons_of_mem _ member)) ?_⟩
    · exact absurd (by rw [own]; exact List.mem_cons_self) unpopped
    · exact fun member => unpopped (List.mem_cons_of_mem _ member)

theorem spares_new (size : Nat) (a : T) (set : CircularFilter T) (elements : List T) : Spares size a set (elements.map .add) :=
  spares_kept (by simp) (by simp)

theorem othersAdded_new (a : T) (elements : List T) : (othersAdded a (elements.map .add)).card ≤ elements.length := by
  have all : (elements.map FilterOp.add).filterMap FilterOp.added = elements := by
    rw [List.filterMap_map]
    exact List.filterMap_some
  unfold othersAdded
  rw [all]
  exact (Finset.card_le_card (Finset.erase_subset _ _)).trans (List.toFinset_card_le elements)

theorem filter_keeps_iff (size : Nat) (ops : List (FilterOp T)) :
    (FreshFrom size new ops → Keeps size ops) ∧ (Infinite T → Keeps size ops → FreshFrom size new ops) := by
  refine ⟨fun fresh => ?_,fun infinite keeps => ?_⟩
  · rintro before later elements rfl nodup unseen
    obtain ⟨earlier,_⟩ := FreshFrom.append.mp fresh
    exact ⟨freshFrom_kept (FreshFrom.append.mpr ⟨earlier,freshFrom_new nodup unseen⟩),gone size _⟩
  · by_contra stale
    obtain ⟨before,a,later,rfl,earlier,wrong⟩ := not_freshFrom stale
    obtain ⟨elements,nodup,fresh,count,lost⟩ := not_fresh_evicted (earlier.tidy (tidy_new size)) wrong ((before ++ [FilterOp.add a]).filterMap FilterOp.added).toFinset
    have unseen : ∀ x ∈ elements,.add x ∉ before ++ [.add a] := by
      intro x member added
      exact fresh x member (List.mem_toFinset.mpr (List.mem_filterMap.mpr ⟨_,added,rfl⟩))
    obtain ⟨kept,_⟩ := keeps (before ++ [.add a]) later elements (by simp) nodup unseen
    have inside := kept before a (elements.map .add) (by simp) (spares_new _ _ _ _) ((othersAdded_new a elements).trans_lt count)
    rw [run,runFrom_append,runFrom_append] at inside
    exact lost (of_decide_eq_true inside)

-- An element removed and added again is forgotten with its first entry, and one
-- added twice with its only one.
theorem readded_forgotten :
    (run 2 [.add 0,.remove 0,.add 0,.add 1]).contains 0 = false ∧ (run 3 [.add 0,.add 1,.add 2,.add 0,.add 3]).contains 0 = false ∧
    ¬Kept 2 [FilterOp.add 0,.remove 0,.add 0,.add 1] ∧ ¬Kept 3 [FilterOp.add 0,.add 1,.add 2,.add 0,.add 3] := by
  have second : (run 2 [.add 0,.remove 0,.add 0,.add 1]).contains 0 = false := by decide
  have third : (run 3 [.add 0,.add 1,.add 2,.add 0,.add 3]).contains 0 = false := by decide
  refine ⟨second,third,fun kept => ?_,fun kept => ?_⟩
  · cases (kept [.add 0,.remove 0] 0 [.add 1] rfl (spares_new 2 0 _ [1]) (by decide)).symm.trans second
  · cases (kept [.add 0,.add 1,.add 2] 0 [.add 3] rfl (spares_new 3 0 _ [3]) (by decide)).symm.trans third

end CircularFilter

end GreenAgent.Engine
