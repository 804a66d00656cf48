import GreenAgent.Mpf.Generated

namespace GreenAgent.Mpf
open Radix (Fan Splits child mem_child)

def without (s : Finset Entry) (path : Digest) : Finset Entry := s.filter (fun e => e.1 ≠ path)

def put (s : Finset Entry) (path value : Digest) : Finset Entry := Insert.insert (path,value) (without s path)

-- Stored entries that share the first `depth` digits of the path.
def sharing (s : Finset Entry) (path : Digest) (depth : Nat) : Finset Entry :=
  s.filter (fun e => ∀ ix < depth, digit e.1 ix = digit path ix)

-- The path never leaves the tree inside a compressed run of digits: where all
-- of at least two stored paths go on alike, it goes on with them.
def NeverCut (s : Finset Entry) (path : Digest) : Prop :=
  ∀ depth < 64, 2 ≤ (sharing s path depth).card →
    (∀ e ∈ sharing s path depth, ∀ e' ∈ sharing s path depth, digit e.1 depth = digit e'.1 depth) →
    ∀ e ∈ sharing s path depth, digit path depth = digit e.1 depth

def Along (s : Finset Entry) (path : Digest) (depth : Nat) : Prop := ∀ e ∈ s, ∀ ix < depth, digit path ix = digit e.1 ix

variable {hash : Bytes → Digest} {s t : Finset Entry}

@[simp] theorem mem_without : e ∈ without s path ↔ e ∈ s ∧ e.1 ≠ path := by simp [without]

@[simp] theorem mem_put : e ∈ put s path value ↔ e = (path,value) ∨ e ∈ s ∧ e.1 ≠ path := by simp [put]

@[simp] theorem mem_sharing : e ∈ sharing s path depth ↔ e ∈ s ∧ ∀ ix < depth, digit e.1 ix = digit path ix := by
  simp [sharing]

theorem without_subset : without s path ⊆ s := Finset.filter_subset ..

theorem without_missing (missing : ∀ e ∈ s, e.1 ≠ path) : without s path = s :=
  Finset.filter_true_of_mem missing

theorem child_put : child digit (put s path value) split nib =
    if nib = digit path split then put (child digit s split nib) path value else child digit s split nib := by
  split
  · subst nib
    ext e
    simp only [mem_child,mem_put]
    constructor
    · rintro ⟨rfl | ⟨member,other⟩,same⟩
      · exact .inl rfl
      · exact .inr ⟨⟨member,same⟩,other⟩
    · rintro (rfl | ⟨⟨member,same⟩,other⟩)
      · exact ⟨.inl rfl,rfl⟩
      · exact ⟨.inr ⟨member,other⟩,same⟩
  · rename_i off
    ext e
    simp only [mem_child,mem_put]
    constructor
    · rintro ⟨rfl | ⟨member,other⟩,same⟩
      · exact absurd same.symm off
      · exact ⟨member,same⟩
    · rintro ⟨member,same⟩
      refine ⟨.inr ⟨member,?_⟩,same⟩
      intro equal
      exact off (by rw [← same,equal])

theorem child_without : child digit (without s path) split nib =
    if nib = digit path split then without (child digit s split nib) path else child digit s split nib := by
  split
  · ext e
    simp only [mem_child,mem_without]
    tauto
  · rename_i off
    ext e
    simp only [mem_child,mem_without]
    constructor
    · rintro ⟨⟨member,_⟩,same⟩
      exact ⟨member,same⟩
    · rintro ⟨member,same⟩
      refine ⟨⟨member,?_⟩,same⟩
      intro equal
      exact off (by rw [← same,equal])

theorem treeChildren_put : treeChildren hash (put s path value) split =
    Function.update (treeChildren hash s split) (digit path split)
      (treeRoot hash (put (child digit s split (digit path split)) path value) (split+1)) := by
  funext nib
  by_cases here : nib = digit path split
  · subst nib; simp [treeChildren,child_put]
  · simp [treeChildren,child_put,here]

theorem treeChildren_without : treeChildren hash (without s path) split =
    Function.update (treeChildren hash s split) (digit path split)
      (treeRoot hash (without (child digit s split (digit path split)) path) (split+1)) := by
  funext nib
  by_cases here : nib = digit path split
  · subst nib; simp [treeChildren,child_without]
  · simp [treeChildren,child_without,here]

theorem splits_put (splits : Splits digit s cursor split) (along : Along s path split) :
    Splits digit (put s path value) cursor split := by
  have toPath : ∀ e ∈ put s path value, ∀ ix < split, digit e.1 ix = digit path ix := by
    intro e member ix below
    rcases mem_put.mp member with rfl | ⟨stored,_⟩
    · rfl
    · exact (along e stored ix below).symm
  have lift : ∀ e ∈ s, ∃ e' ∈ put s path value, e'.1 = e.1 := by
    intro e member
    by_cases own : e.1 = path
    · exact ⟨(path,value),by simp,own.symm⟩
    · exact ⟨e,by simp [member,own],rfl⟩
  refine ⟨splits.lower,?_,?_⟩
  · intro e he e' he' ix below
    rw [toPath e he ix below,toPath e' he' ix below]
  · obtain ⟨e,he,e',he',apart⟩ := splits.apart
    obtain ⟨f,hf,equal⟩ := lift e he
    obtain ⟨f',hf',equal'⟩ := lift e' he'
    exact ⟨f,hf,f',hf',by rw [equal,equal']; exact apart⟩

theorem splits_without (splits : Splits digit s cursor split) (he : e ∈ without s path) (he' : e' ∈ without s path)
    (apart : digit e.1 split ≠ digit e'.1 split) : Splits digit (without s path) cursor split :=
  ⟨splits.lower,fun f hf f' hf' => splits.agree f (without_subset hf) f' (without_subset hf'),e,he,e',he',apart⟩

theorem including_step (opens : Opens hash s path cursor split step) (splits : Splits digit (put s path value) cursor split)
    (inner : including hash path value (split+1) rest =
      .ok (treeRoot hash (put (child digit s split (digit path split)) path value) (split+1))) :
    including hash path value cursor (step :: rest) = .ok (treeRoot hash (put s path value) cursor) := by
  rw [including_cons,opens.reach]
  refine ⟨_,inner,?_⟩
  rw [opens.root,treeRoot_split splits (show (path,value) ∈ put s path value by simp),treeChildren_put]

theorem excluding_step (opens : Opens hash s path cursor split step) (more : step.isBranch = true ∨ rest ≠ [])
    (along : Along s path split) (splits : Splits digit (without s path) cursor split)
    (inner : excluding hash path (split+1) rest =
      .ok (treeRoot hash (without (child digit s split (digit path split)) path) (split+1))) :
    excluding hash path cursor (step :: rest) = .ok (treeRoot hash (without s path) cursor) := by
  rw [excluding_cons more,opens.reach]
  refine ⟨_,inner,?_⟩
  obtain ⟨e,member,_⟩ := splits.apart
  have label : digits path cursor split = digits e.1 cursor split :=
    digits_congr (fun ix _ below => along e (without_subset member) ix below)
  rw [opens.root,treeRoot_split splits member,treeChildren_without,label]

theorem firstDivergence_ok (same : ∀ ix < split, digit lhs ix = digit rhs ix) (apart : digit lhs split ≠ digit rhs split)
    (lower : cursor ≤ split) (bound : split < 64) : firstDivergence lhs rhs cursor = .ok split := by
  have search : ∀ count start, start ≤ split → split < start+count → start+count ≤ 64 →
      (List.range' start count).find? (fun ix => decide (nibble lhs ix ≠ nibble rhs ix)) = some split := by
    intro count
    induction count with
    | zero => intro start; omega
    | succ count ih =>
      intro start below above room
      rw [List.range'_succ,List.find?_cons,nibble_ok (by omega),nibble_ok (by omega)]
      by_cases here : start = split
      · subst start; simp [apart]
      · simp only [same start (by omega),ne_eq,not_true_eq_false,decide_false]
        exact ih (start+1) (by omega) (by omega) (by omega)
  rw [firstDivergence,search (64-cursor) cursor lower (by omega) (by omega)]

theorem NeverCut.along (never : NeverCut s path) (splits : Splits digit s cursor split) (fan : Fan digit 64 s cursor)
    (start : Along s path cursor) : Along s path split := by
  have below := splits.below fan
  -- One digit at a time: all entries still share the path, so they decide its next digit.
  have walk : ∀ depth, cursor ≤ depth → depth ≤ split → Along s path depth := by
    intro depth lower
    induction depth, lower using Nat.le_induction with
    | base => intro _; exact start
    | succ depth lower ih =>
      intro upper
      have sofar := ih (by omega)
      have everyone : sharing s path depth = s := by
        apply Finset.filter_true_of_mem
        intro e member ix bound
        exact (sofar e member ix bound).symm
      have next := never depth (by omega) (by rw [everyone]; exact splits.two)
        (by rw [everyone]; intro e he e' he'; exact splits.agree e he e' he' depth (by omega))
      rw [everyone] at next
      intro e member ix bound
      rcases Nat.lt_succ_iff_lt_or_eq.mp bound with less | rfl
      · exact sofar e member ix less
      · exact next e member
  exact walk split splits.lower (Nat.le_refl _)

theorem Along.child (along : Along s path split) : Along (child digit s split (digit path split)) path (split+1) := by
  intro e member ix bound
  obtain ⟨stored,same⟩ := mem_child.mp member
  rcases Nat.lt_succ_iff_lt_or_eq.mp bound with less | rfl
  · exact along e stored ix less
  · exact same.symm

theorem sharing_child (deeper : split < depth) :
    sharing (child digit s split (digit path split)) path depth = sharing s path depth := by
  ext e
  simp only [mem_sharing,mem_child]
  constructor
  · rintro ⟨⟨stored,_⟩,shared⟩; exact ⟨stored,shared⟩
  · rintro ⟨stored,shared⟩; exact ⟨⟨stored,shared split deeper⟩,shared⟩

theorem NeverCut.child (never : NeverCut s path) (along : Along s path split) :
    NeverCut (child digit s split (digit path split)) path := by
  intro depth bound two alike e member
  rcases Nat.lt_or_ge split depth with deeper | shallow
  · rw [sharing_child deeper] at two alike member
    exact never depth bound two alike e member
  · exact along.child e (mem_sharing.mp member).1 depth (by omega)

theorem neverCut_present (member : e ∈ s) : NeverCut s e.1 := by
  intro depth _ _ alike e' shared
  exact alike e (mem_sharing.mpr ⟨member,fun _ _ => rfl⟩) e' shared

-- The proof generated for a path, and what both verifiers make of it.
@[grind cases eager] structure Complete (hash : Bytes → Digest) (s : Finset Entry) (path : Digest) (cursor : Nat)
    (proof : List ProofStep) : Prop where
  included : ∀ value, including hash path value cursor proof = .ok (treeRoot hash (put s path value) cursor)
  excluded : excluding hash path cursor proof = .ok (treeRoot hash (without s path) cursor)
  closed : proof = [] ↔ without s path = ∅

theorem complete_closed (bound : cursor ≤ 64) (alone : without s path = ∅) : Complete hash s path cursor [] := by
  refine ⟨?_,?_,by simp [alone]⟩
  · intro value
    have only : put s path value = {(path,value)} := by simp [put,alone]
    simp only [including]
    rw [ensureCursor_ok bound,suffix_ok bound,only,treeRoot_single]
    rfl
  · simp only [excluding]
    rw [ensureCursor_ok bound,alone,treeRoot_empty]
    rfl

theorem complete_leaf (hash : Bytes → Digest) (value : Digest) (different : key ≠ path) (along : Along {(key,value)} path cursor) :
    ∃ split, firstDivergence path key cursor = .ok split ∧
      Complete hash {(key,value)} path cursor [.leaf (split-cursor) key value] := by
  obtain ⟨any,anyBound,anyApart⟩ := path_diverges (Ne.symm different)
  have some : ∃ ix, digit path ix ≠ digit key ix := ⟨any,anyApart⟩
  let split := Nat.find some
  have apart : digit path split ≠ digit key split := Nat.find_spec some
  have same : ∀ ix < split, digit path ix = digit key ix := fun ix below => by
    by_contra differ
    exact Nat.find_min some below differ
  have below : split < 64 := Nat.lt_of_le_of_lt (Nat.find_min' some anyApart) anyBound
  have lower : cursor ≤ split := by
    by_contra early
    exact apart (along (key,value) (by simp) split (by omega))
  have only : child digit {(key,value)} split (digit key split) = {(key,value)} := by
    ext e; simp only [mem_child,Finset.mem_singleton]
    constructor
    · exact And.left
    · rintro rfl; exact ⟨rfl,rfl⟩
  have offside : ∀ ix, ix ≠ digit key split → child digit {(key,value)} split ix = ∅ := by
    intro ix off
    ext e; simp only [mem_child,Finset.mem_singleton,Finset.notMem_empty,iff_false,not_and]
    rintro rfl equal; exact off equal.symm
  have opens : Opens hash {(key,value)} path cursor split (.leaf (split-cursor) key value) :=
    leaf_opens lower below (digit_lt key split) (Ne.symm apart) (fun ix _ off => offside ix off) only
  have stays : without {(key,value)} path = {(key,value)} := without_missing (by simpa using different)
  refine ⟨split,firstDivergence_ok same apart lower below,?_,?_,by simp [stays]⟩
  · intro new
    apply including_step opens
    · refine ⟨lower,?_,(path,new),by simp,(key,value),by simp [different],apart⟩
      have toPath : ∀ e ∈ put {(key,value)} path new, ∀ ix < split, digit e.1 ix = digit path ix := by
        intro e member ix less
        rcases mem_put.mp member with rfl | ⟨stored,_⟩
        · rfl
        · rw [Finset.mem_singleton.mp stored]; exact (same ix less).symm
      intro e he e' he' ix less
      rw [toPath e he ix less,toPath e' he' ix less]
    · have empty : child digit {(key,value)} split (digit path split) = ∅ := offside _ apart
      rw [empty]
      exact (complete_closed (show split+1 ≤ 64 by omega) (by rfl)).included new
  · rcases opens.shape with ⟨branch,_⟩ | ⟨_,nib,other,sparse,last⟩
    · cases branch
    · have here : nib = digit key split := by
        by_contra off
        have empty := sparse (digit key split) (Ne.symm apart) (Ne.symm off)
        rw [only] at empty
        simp at empty
      rw [last (by intro e member ix less; rw [Finset.mem_singleton.mp member]; exact same ix less),here,only,stays]

theorem complete_split (splits : Splits digit s cursor split) (along : Along s path split)
    (opens : Opens hash s path cursor split step)
    (inner : Complete hash (child digit s split (digit path split)) path (split+1) rest) :
    Complete hash s path cursor (step :: rest) := by
  have away : ∀ nib, nib ≠ digit path split → ∀ e ∈ child digit s split nib, e ∈ without s path := by
    intro nib off e member
    obtain ⟨stored,same⟩ := mem_child.mp member
    refine mem_without.mpr ⟨stored,?_⟩
    intro own
    exact off (by rw [← same,own])
  have filled : without s path ≠ ∅ := by
    obtain ⟨e,he,e',he',apart⟩ := splits.apart
    rcases Classical.em (e.1 = path) with own | other
    · exact Finset.ne_empty_of_mem (mem_without.mpr ⟨he',fun own' => apart (by rw [own,own'])⟩)
    · exact Finset.ne_empty_of_mem (mem_without.mpr ⟨he,other⟩)
  refine ⟨?_,?_,by simp [filled]⟩
  · intro value
    exact including_step opens (splits_put splits along) (inner.included value)
  · rcases opens.shape with ⟨branch,i,j,apart,⟨offI,someI⟩,⟨offJ,someJ⟩⟩ | ⟨notBranch,nib,other,sparse,last⟩
    · obtain ⟨e,he⟩ := Finset.nonempty_iff_ne_empty.mpr someI
      obtain ⟨e',he'⟩ := Finset.nonempty_iff_ne_empty.mpr someJ
      refine excluding_step opens (.inl branch) along (splits_without splits (away i offI e he) (away j offJ e' he') ?_)
        inner.excluded
      rw [(mem_child.mp he).2,(mem_child.mp he').2]
      exact apart
    · by_cases closed : rest = []
      · -- Nothing but the path itself on its own side: the node collapses into its other child.
        have alone := inner.closed.mp closed
        have collapsed : without s path = child digit s split nib := by
          apply Finset.Subset.antisymm
          · intro e member
            obtain ⟨stored,foreign⟩ := mem_without.mp member
            by_cases here : digit e.1 split = nib
            · exact mem_child.mpr ⟨stored,here⟩
            · exfalso
              by_cases own : digit e.1 split = digit path split
              · have inside : e ∈ without (child digit s split (digit path split)) path :=
                  mem_without.mpr ⟨mem_child.mpr ⟨stored,own⟩,foreign⟩
                rw [alone] at inside
                simp at inside
              · have empty := sparse _ own here
                exact Finset.ne_empty_of_mem (child_of_digit e stored) empty
          · exact away nib other
        rw [closed,last along,collapsed]
      · have remains : without (child digit s split (digit path split)) path ≠ ∅ := fun alone => closed (inner.closed.mpr alone)
        obtain ⟨w,hw⟩ := Finset.nonempty_iff_ne_empty.mpr remains
        obtain ⟨inside,foreign⟩ := mem_without.mp hw
        obtain ⟨stored,same⟩ := mem_child.mp inside
        obtain ⟨e,he,e',he',apart⟩ := splits.apart
        obtain ⟨f,hf,off⟩ : ∃ f ∈ s, digit f.1 split ≠ digit path split := by
          by_cases first : digit e.1 split = digit path split
          · exact ⟨e',he',fun second => apart (by rw [first,second])⟩
          · exact ⟨e,he,first⟩
        refine excluding_step opens (.inr closed) along
          (splits_without splits (mem_without.mpr ⟨stored,foreign⟩) (away _ off f (child_of_digit f hf)) ?_) inner.excluded
        rw [same]
        exact Ne.symm off

theorem proofForPath_split (bundle : Bundle (first :: second :: rest) cursor) (enough : 65 ≤ fuel+1+cursor)
    (splits : Splits digit (entries (first :: second :: rest)) cursor split)
    (generated : proofStepForBranch hash fuel path cursor split (digit path split)
      (group (first :: second :: rest) split) = .ok step) :
    proofForPath hash path (fuel+1) (first :: second :: rest) cursor =
      proofForPath hash path fuel (group (first :: second :: rest) split (digit path split)) (split+1) >>=
        fun tail => .ok (step :: tail) := by
  have lower := splits.lower
  have below := splits.below bundle.fan
  rw [proofForPath,commonSplit_ok bundle splits]
  simp only [propagate,bind,Except.bind,nibble_ok below,childGroups_ok below,generated]
  split
  · rename_i none
    rw [List.isEmpty_iff.mp none]
    cases fuel with
    | zero => omega
    | succ fuel => rfl
  · rfl

theorem proofForPath_complete (hash : Bytes → Digest) (bundle : Bundle leaves cursor) (enough : 65 ≤ fuel+cursor)
    (start : Along (entries leaves) path cursor) (never : NeverCut (entries leaves) path) :
    ∃ proof, proofForPath hash path fuel leaves cursor = .ok proof ∧ Complete hash (entries leaves) path cursor proof := by
  induction fuel generalizing leaves cursor with
  | zero => have bound := bundle.fan.bound; omega
  | succ fuel ih =>
    match leaves with
    | [] => exact ⟨[],rfl,complete_closed bundle.fan.bound rfl⟩
    | [leaf] =>
      by_cases own : leaf.path = path
      · refine ⟨[],by simp [proofForPath,own],complete_closed bundle.fan.bound ?_⟩
        simp [without,Finset.filter_singleton,Leaf.entry,own]
      · obtain ⟨split,found,complete⟩ := complete_leaf hash leaf.valueHash own start
        refine ⟨_,?_,complete⟩
        rw [proofForPath,if_neg own,found]
        rfl
    | first :: second :: rest =>
      obtain ⟨split,splits⟩ := bundle.splits
      have lower := splits.lower
      have below := splits.below bundle.fan
      have along := never.along splits bundle.fan start
      obtain ⟨step,generated,opens⟩ := step_generated hash bundle splits (show 65 ≤ fuel+split+1 by omega) path
      have inner : Bundle (group (first :: second :: rest) split (digit path split)) (split+1) := bundle.group splits
      obtain ⟨proof,made,complete⟩ := ih inner (by omega) (by rw [entries_group]; exact along.child)
        (by rw [entries_group]; exact never.child along)
      rw [entries_group] at complete
      refine ⟨step :: proof,?_,complete_split splits along opens complete⟩
      rw [proofForPath_split bundle enough splits generated,made]
      rfl

end GreenAgent.Mpf
