import GreenAgent.Mpf.Hashed

namespace GreenAgent.Mpf
open Radix (Fan Splits child mem_child)

-- The two parts a non-empty subtree along the path hashes: its label bytes and
-- the digest under them.
inductive Content (hash : Bytes → Digest) (path : Digest) (s : Finset Entry) (cursor : Nat) : Bytes → Digest → Prop where
  | leaf (value : Digest) (only : s = {(path,value)}) : Content hash path s cursor (suffixBytes path cursor) value
  | node (split : Nat) (splits : Splits digit s cursor split) : Content hash path s cursor (digits path cursor split)
      (merkle16Roots hash (treeChildren hash s split))

-- The digest a list of steps claims for a subtree in which the path is missing.
inductive Claims (hash : Bytes → Digest) (path : Digest) : Nat → List ProofStep → Digest → Prop where
  | nothing (bound : cursor ≤ 64) : Claims hash path cursor [] emptyRoot
  | leaf (bound : cursor ≤ 64) :
      Claims hash path cursor [.leaf skip key value] (combine hash (suffixBytes key cursor) value.bytes)
  | fork (bound : cursor+skip ≤ 64) (low : ¬neighbor.nibble > 15) : Claims hash path cursor [.fork skip neighbor]
      (combine hash (digits path cursor (cursor+skip) ++ neighbor.nibble :: neighbor.prefixNibbles) neighbor.root.bytes)
  | step (more : step.isBranch = true ∨ rest ≠ []) (below : Claims hash path (cursor+step.skip+1) rest root)
      (bound : cursor+step.skip < 64) (fits : StepFits path (cursor+step.skip) step) :
      Claims hash path cursor (step :: rest)
        (combine hash (digits path cursor (cursor+step.skip)) (stepTop hash path (cursor+step.skip) step root).bytes)

-- A proof replays the tree along a stored path: its steps tell the truth down
-- to some node, and the last one copies what that node itself hashes. A stored
-- value can also be a Merkle node in disguise, continued by further steps.
inductive Replays (hash : Bytes → Digest) (path : Digest) : Finset Entry → Nat → List ProofStep → Prop where
  | copyLeaf (content : Content hash path s cursor label body) (same : suffixBytes key cursor = label) :
      Replays hash path s cursor [.leaf skip key body]
  | copyFork (content : Content hash path s cursor label body) (bound : cursor+skip ≤ 64) (low : ¬nib > 15)
      (same : digits path cursor (cursor+skip) ++ nib :: rest = label) :
      Replays hash path s cursor [.fork skip ⟨nib,rest,body⟩]
  | descend (more : step.isBranch = true ∨ rest ≠ []) (splits : Splits digit s cursor (cursor+step.skip))
      (truthful : StepOf hash path (cursor+step.skip) (treeChildren hash s (cursor+step.skip)) step)
      (deeper : Replays hash path (child digit s (cursor+step.skip) (digit path (cursor+step.skip)))
        (cursor+step.skip+1) rest) : Replays hash path s cursor (step :: rest)
  | disguise (more : step.isBranch = true ∨ rest ≠ []) (bound : cursor+step.skip < 64)
      (same : digits path cursor (cursor+step.skip) = suffixBytes path cursor)
      (fits : StepFits path (cursor+step.skip) step) (below : Claims hash path (cursor+step.skip+1) rest root) :
      Replays hash path {(path,stepTop hash path (cursor+step.skip) step root)} cursor (step :: rest)

variable {hash : Bytes → Digest} {s : Finset Entry}

theorem claims_iff : Claims hash path cursor proof root ↔ excluding hash path cursor proof = .ok root := by
  constructor
  · intro claims
    induction claims with
    | nothing bound => simp only [excluding]; rw [ensureCursor_ok bound]; rfl
    | leaf bound => exact excluding_last_leaf.mpr ⟨bound,rfl⟩
    | fork bound low => exact excluding_last_fork.mpr ⟨bound,low,rfl⟩
    | step more _ bound fits ih => exact (excluding_cons more).mpr ⟨_,ih,stepRoot_ok_iff.mpr ⟨bound,fits,rfl⟩⟩
  · induction proof generalizing cursor root with
    | nil =>
      intro accepted
      have bound := excluding_bound accepted
      simp only [excluding] at accepted
      rw [ensureCursor_ok bound] at accepted
      cases accepted
      exact .nothing bound
    | cons step rest ih =>
      intro accepted
      by_cases more : step.isBranch = true ∨ rest ≠ []
      · obtain ⟨inner,below,here⟩ := (excluding_cons more).mp accepted
        obtain ⟨bound,fits,rfl⟩ := stepRoot_ok_iff.mp here
        exact .step more (ih below) bound fits
      · obtain ⟨notBranch,last⟩ := not_or.mp more
        have none : rest = [] := by simpa using last
        subst none
        cases step with
        | branch => exact absurd rfl notBranch
        | fork skip neighbor =>
          obtain ⟨bound,low,rfl⟩ := excluding_last_fork.mp accepted
          exact .fork bound low
        | leaf skip key value =>
          obtain ⟨bound,rfl⟩ := excluding_last_leaf.mp accepted
          exact .leaf bound

theorem Content.root (content : Content hash path s cursor label body) (stored : (path,value) ∈ s) :
    treeRoot hash s cursor = combine hash label body.bytes := by
  cases content with
  | leaf value only => rw [only,treeRoot_single]
  | node split splits => rw [treeRoot_split splits stored]

theorem content_exists (hash : Bytes → Digest) (bundle : Bundle leaves cursor) (stored : (path,value) ∈ entries leaves) (enough : 65 ≤ fuel+cursor) :
    ∃ label body, Content hash path (entries leaves) cursor label body ∧
      label ++ body.bytes ∈ rootStrings hash fuel leaves cursor := by
  match fuel,leaves with
  | 0,_ => have bound := bundle.fan.bound; omega
  | _+1,[] => simp at stored
  | _+1,[leaf] =>
    have same : leaf.entry = (path,value) := by simpa [eq_comm] using stored
    refine ⟨_,_,.leaf value (by simp [same]),?_⟩
    cases same
    simp [rootStrings]
  | fuel+1,first :: second :: rest =>
    obtain ⟨split,splits⟩ := bundle.splits
    refine ⟨_,_,.node split splits,?_⟩
    have head := entry_mem (List.mem_cons_self : first ∈ first :: second :: rest)
    have label : digits path cursor split = digits first.path cursor split :=
      digits_congr (fun ix _ low => splits.agree _ stored _ head ix low)
    rw [rootStrings_split bundle enough splits,label]
    simp

theorem Replays.nonempty (replays : Replays hash path s cursor proof) : proof ≠ [] := by
  cases replays <;> simp

theorem Replays.accepted (replays : Replays hash path s cursor proof) (fan : Fan digit 64 s cursor) (stored : (path,value) ∈ s) :
    excluding hash path cursor proof = .ok (treeRoot hash s cursor) := by
  induction replays generalizing value with
  | copyLeaf content same => rw [excluding_last_leaf,content.root stored,same]; exact ⟨fan.bound,rfl⟩
  | copyFork content inside low same => rw [excluding_last_fork,content.root stored,← same]; exact ⟨inside,low,rfl⟩
  | @descend step rest s cursor more splits truthful deeper ih =>
    obtain ⟨fits,top⟩ := stepTop_of truthful
    have below := ih (splits.child_fan fan) (mem_child.mpr ⟨stored,rfl⟩)
    rw [excluding_cons more]
    refine ⟨_,below,stepRoot_ok_iff.mpr ⟨splits.below fan,fits,?_⟩⟩
    rw [treeRoot_split splits stored,← top]
    rfl
  | @disguise step rest cursor root more inside same fits below =>
    rw [excluding_cons more,treeRoot_single,← same]
    exact ⟨root,claims_iff.mp below,stepRoot_ok_iff.mpr ⟨inside,fits,rfl⟩⟩

theorem digits_same_end (same : digits path cursor next = digits path cursor split) (lower : cursor ≤ next) (lower' : cursor ≤ split) :
    next = split := by
  have lengths := congrArg List.length same
  rw [digits_length,digits_length] at lengths
  omega

theorem replays_of_accepted (nonzero : ∀ s, hash s ≠ emptyRoot) (bundle : Bundle leaves cursor)
    (enough : 65 ≤ fuel+cursor) (stored : (path,value) ∈ entries leaves)
    (free : Collisionless hash (rootStrings hash fuel leaves cursor ++ excludingStrings hash path cursor proof))
    (accepted : excluding hash path cursor proof = .ok (treeRoot hash (entries leaves) cursor)) :
    Replays hash path (entries leaves) cursor proof := by
  induction proof generalizing leaves cursor fuel with
  | nil =>
    obtain ⟨label,body,content,_⟩ := content_exists hash bundle stored enough
    have claims := claims_iff.mpr accepted
    rw [content.root stored] at claims
    generalize equal : combine hash label body.bytes = root at claims
    cases claims
    exact absurd equal (nonzero _)
  | cons step rest ih =>
    obtain ⟨label,body,content,listed⟩ := content_exists hash bundle stored enough
    by_cases more : step.isBranch = true ∨ rest ≠ []
    · obtain ⟨root,below,here⟩ := (excluding_cons more).mp accepted
      obtain ⟨bound,fits,equal⟩ := stepRoot_ok_iff.mp here
      rw [content.root stored] at equal
      rw [excludingStrings_cons more below] at free
      have strings := free (List.mem_append_left _ listed) (List.mem_append_right _ (by simp [stepStrings])) equal
      obtain ⟨label',top⟩ := append_digest_inj strings
      cases content with
      | leaf value only =>
        rw [only,top]
        exact .disguise more bound label'.symm fits (claims_iff.mpr below)
      | node split splits =>
        have reach : cursor+step.skip = split := (digits_same_end label' splits.lower (Nat.le_add_right ..)).symm
        obtain ⟨merkle,less,enough',deeper⟩ := rootStrings_node hash bundle enough splits
        rw [reach] at top
        obtain ⟨truthful,child⟩ := stepTop_binds free (reach ▸ fits) reach
          (fun x inside => List.mem_append_right _ (List.mem_append_left _ inside))
          (fun x inside => List.mem_append_left _ (merkle x inside)) top.symm
        subst reach
        apply Replays.descend more splits truthful
        rw [← entries_group]
        apply ih (bundle.group splits) enough' (by rw [entries_group]; exact mem_child.mpr ⟨stored,rfl⟩)
        · apply free.mono
          intro x inside
          rcases List.mem_append.mp inside with inside | inside
          · exact List.mem_append_left _ (deeper _ (digit_lt path _) x inside)
          · exact List.mem_append_right _ (List.mem_append_right _ inside)
        · rw [below,child,entries_group]
          rfl
    · obtain ⟨notBranch,last⟩ := not_or.mp more
      have none : rest = [] := by simpa using last
      subst none
      rw [content.root stored] at accepted
      cases step with
      | branch => exact absurd rfl notBranch
      | fork skip neighbor =>
        obtain ⟨bound,low,equal⟩ := excluding_last_fork.mp accepted
        have strings := free (List.mem_append_left _ listed) (List.mem_append_right _ (by simp [excludingStrings])) equal
        obtain ⟨rfl,rfl⟩ := append_digest_inj strings
        exact .copyFork content bound low rfl
      | leaf skip key value =>
        obtain ⟨bound,equal⟩ := excluding_last_leaf.mp accepted
        have strings := free (List.mem_append_left _ listed) (List.mem_append_right _ (by simp [excludingStrings])) equal
        obtain ⟨rfl,rfl⟩ := append_digest_inj strings
        exact .copyLeaf content rfl

def exclusionAttempt (hash : Bytes → Digest) (trie : Trie) (key : Bytes) (proof : List ProofStep) : List Bytes :=
  trie.strings hash ++ exclusionStrings hash (hash key) proof

-- A stored key is safe from exactly the proofs that do not replay its path.
theorem exclusion_sound_iff (hash : Bytes → Digest) (trie : Trie) (key stored value : Bytes) (proof : List ProofStep)
    (free : Set.InjOn hash {s | s ∈ exclusionAttempt hash trie key proof}) (nonzero : ∀ s, hash s ≠ emptyRoot)
    (present : trie.leaves[key]? = some stored) :
    ∃ root, trie.root hash = .ok root ∧
      ((miss hash root key proof = false ∧ ∃ error, insert hash root key value proof = .error error) ↔
        ¬Replays hash (hash key) (trie.entries hash) 0 proof) := by
  have listed : Collisionless hash (trie.strings hash) :=
    Collisionless.mono free (fun x member => List.mem_append_left _ member)
  have keys := Trie.separated_of_strings listed
  have entry : (hash key,hash stored) ∈ trie.entries hash := mem_trie_entries.mpr ⟨key,stored,present,rfl⟩
  have fan : Fan digit 64 (trie.entries hash) 0 := keys.bundle.fan
  refine ⟨_,keys.root,?_⟩
  constructor
  · rintro ⟨rejected,_⟩ replays
    have accepted := replays.accepted fan entry
    simp [miss,accepted] at rejected
  · intro fresh
    have rejected : excluding hash (hash key) 0 proof ≠ .ok (treeRoot hash (trie.entries hash) 0) := by
      intro accepted
      apply fresh
      refine replays_of_accepted nonzero keys.bundle (show 65 ≤ 65+0 by omega) entry ?_ accepted
      apply Collisionless.mono free
      intro x member
      rcases List.mem_append.mp member with inside | inside
      · simp [exclusionAttempt,Trie.strings,inside]
      · have hashed : x ∈ exclusionStrings hash (hash key) proof := by simpa [exclusionStrings,accepted] using inside
        exact List.mem_append_right _ hashed
    refine ⟨by simpa [miss] using rejected,?_⟩
    cases outcome : excluding hash (hash key) 0 proof with
    | error error => exact ⟨error,by rw [insert,outcome]; rfl⟩
    | ok root =>
      have other : root ≠ treeRoot hash (trie.entries hash) 0 := fun same => rejected (by rw [outcome,same])
      exact ⟨.invalidProof,by rw [insert,outcome]; simp [bind,Except.bind,other]⟩

theorem exclusion_sound_empty_proof : ∃ root, soleTrie.root blake2b256 = .ok root ∧
    miss blake2b256 root [1] [] = false ∧ ∃ error, insert blake2b256 root [1] [8] [] = .error error := by
  obtain ⟨root,rooted,sound⟩ := exclusion_sound_iff blake2b256 soleTrie [1] [7] [8] []
    (recorded_collisionless (by decide +kernel)) blake2b256_ne_empty (by decide)
  exact ⟨root,rooted,sound.mpr (fun replays => replays.nonempty rfl)⟩

def replayedLeaf : List ProofStep := [.leaf 0 (blake2b256 [1]) (blake2b256 [7])]

-- One stored key, and a proof that shows it as its own neighbour.
theorem stored_key_reported_missing :
    Set.InjOn blake2b256 {s | s ∈ exclusionAttempt blake2b256 soleTrie [1] replayedLeaf} ∧
    (∀ s, blake2b256 s ≠ emptyRoot) ∧ soleTrie.leaves[([1] : Bytes)]? = some [7] ∧
      ∃ root, soleTrie.root blake2b256 = .ok root ∧ miss blake2b256 root [1] replayedLeaf = true := by
  refine ⟨recorded_collisionless (by decide +kernel),blake2b256_ne_empty,by decide,?_⟩
  have accepted : (soleTrie.root blake2b256).toOption.map (fun root => miss blake2b256 root [1] replayedLeaf) = some true := by decide +kernel
  cases rooted : soleTrie.root blake2b256 with
  | ok root =>
    rw [rooted] at accepted
    exact ⟨root,rfl,Option.some.inj accepted⟩
  | error fault =>
    rw [rooted] at accepted
    cases accepted

end GreenAgent.Mpf
