import GreenAgent.Mpf.Hashed

namespace GreenAgent.Mpf
open Radix (Fan Splits child mem_child)

variable {hash : Bytes → Digest} {s : Finset Entry}

theorem neverCut_of_child (splits : Splits digit s cursor split) (along : Along s path split)
    (never : NeverCut (child digit s split (digit path split)) path) : NeverCut s path := by
  intro depth bound two alike e member
  obtain ⟨stored,shared⟩ := mem_sharing.mp member
  rcases Nat.lt_trichotomy depth split with shallow | rfl | deeper
  · exact along e stored depth shallow
  · -- At the split itself the stored paths are not alike.
    have everyone : ∀ f ∈ s, f ∈ sharing s path depth :=
      fun f hf => mem_sharing.mpr ⟨hf,fun ix low => (along f hf ix low).symm⟩
    obtain ⟨f,hf,f',hf',apart⟩ := splits.apart
    exact absurd (alike f (everyone f hf) f' (everyone f' hf')) apart
  · rw [← sharing_child deeper] at two alike member
    exact never depth bound two alike e member

theorem proofForPath_open (missing : ∀ leaf ∈ leaves, leaf.path ≠ path) (filled : leaves ≠ []) :
    proofForPath hash path fuel leaves cursor ≠ .ok [] := by
  intro made
  match fuel,leaves with
  | 0,_ => cases made
  | _+1,[] => exact filled rfl
  | _+1,[leaf] =>
    rw [proofForPath,if_neg (missing leaf (by simp))] at made
    obtain ⟨_,_,result⟩ := bind_ok.mp made
    cases result
  | _+1,first :: second :: rest =>
    rw [proofForPath] at made
    simp only [bind_ok] at made
    obtain ⟨_,_,_,_,_,_,_,_,result⟩ := made
    split at result
    · cases result
    · obtain ⟨_,_,impossible⟩ := bind_ok.mp result
      cases impossible

-- The generator's own proof is accepted by the exclusion check only if the
-- path was never cut: an accepted step repeats the digits of the stored prefix.
theorem excluded_neverCut (bundle : Bundle leaves cursor) (enough : 65 ≤ fuel+cursor)
    (start : Along (entries leaves) path cursor) (missing : ∀ leaf ∈ leaves, leaf.path ≠ path)
    (made : proofForPath hash path fuel leaves cursor = .ok proof)
    (free : Collisionless hash (rootStrings hash fuel leaves cursor ++ excludingStrings hash path cursor proof))
    (accepted : excluding hash path cursor proof = .ok (treeRoot hash (entries leaves) cursor)) :
    NeverCut (entries leaves) path := by
  induction fuel generalizing leaves cursor proof with
  | zero => have bound := bundle.fan.bound; omega
  | succ fuel ih =>
    have few : (entries leaves).card < 2 → NeverCut (entries leaves) path := by
      intro small depth _ two
      have less : (sharing (entries leaves) path depth).card ≤ (entries leaves).card := Finset.card_filter_le ..
      omega
    match leaves with
    | [] => exact few (by simp)
    | [leaf] => exact few (by simp)
    | first :: second :: rest =>
      obtain ⟨split,splits⟩ := bundle.splits
      have lower := splits.lower
      have below := splits.below bundle.fan
      obtain ⟨step,generated,opens⟩ := step_generated hash bundle splits (show 65 ≤ fuel+split+1 by omega) path
      rw [proofForPath_split bundle enough splits generated] at made
      obtain ⟨tail,inner,result⟩ := bind_ok.mp made
      cases result
      have away : ∀ leaf ∈ group (first :: second :: rest) split (digit path split), leaf.path ≠ path :=
        fun leaf member => missing leaf (List.mem_of_mem_filter member)
      have more : step.isBranch = true ∨ tail ≠ [] := by
        rcases opens.shape with ⟨branch,_⟩ | ⟨_,nib,_,sparse,_⟩
        · exact .inl branch
        · refine .inr ?_
          rintro rfl
          refine proofForPath_open away ?_ inner
          intro none
          apply own_child_filled splits sparse
          rw [← entries_group,none]
          rfl
      obtain ⟨root,under,here⟩ := (excluding_cons more).mp accepted
      rw [rootStrings_split bundle enough splits,excludingStrings_cons more under] at free
      have head := entry_mem (List.mem_cons_self : first ∈ first :: second :: rest)
      obtain ⟨label,top⟩ := step_binds free splits head (by simp [Leaf.entry]) (by simp; tauto) here
      obtain ⟨_,entry⟩ := stepTop_binds free opens.fits opens.reach (by simp; tauto) (by simp; tauto) (opens.reach ▸ top)
      rw [opens.reach] at label under free
      have along : Along (entries (first :: second :: rest)) path split := by
        intro e member ix low
        rcases Nat.lt_or_ge ix cursor with early | late
        · exact start e member ix early
        · rw [digits_inj label ix late low]
          exact splits.agree _ head e member ix low
      apply neverCut_of_child splits along
      rw [← entries_group]
      apply ih (bundle.group splits) (by omega) (by rw [entries_group]; exact along.child) away inner
      · apply free.mono
        intro x member
        rcases List.mem_append.mp member with inside | inside
        · have listed : x ∈ (List.range 16).flatMap (fun nib =>
              rootStrings hash fuel (group (first :: second :: rest) split nib) (split+1)) :=
            List.mem_flatMap.mpr ⟨digit path split,List.mem_range.mpr (digit_lt path split),inside⟩
          simp [listed]
        · simp [inside]
      · rw [entries_group,under,entry]
        rfl

def insertionStrings (hash : Bytes → Digest) (trie : Trie) (key value : Bytes) : List Bytes :=
  key :: value :: (trie.strings hash ++ Trie.strings hash ⟨trie.leaves.insert key value⟩ ++
    match trie.proofForMissing hash key with
    | .error _ => []
    | .ok proof => exclusionStrings hash (hash key) proof ++ inclusionStrings hash (hash key) (hash value) proof)

def InsertionComplete (hash : Bytes → Digest) (trie : Trie) (key value : Bytes) : Prop :=
  ∃ proof root extended, trie.proofForMissing hash key = .ok proof ∧ trie.root hash = .ok root ∧
    Trie.root hash ⟨trie.leaves.insert key value⟩ = .ok extended ∧
    miss hash root key proof = true ∧ insert hash root key value proof = .ok extended

theorem missing_path {trie : Trie} (separated : Set.InjOn hash {k | k = key ∨ k ∈ trie.leaves}) (absent : key ∉ trie.leaves) :
    ∀ e ∈ trie.entries hash, e.1 ≠ hash key := by
  intro e member same
  obtain ⟨k,v,found,rfl⟩ := mem_trie_entries.mp member
  have equal := separated (.inr (mem_of_found found)) (.inl rfl) same
  exact absent (by rw [← equal]; exact mem_of_found found)

-- What the hash being free of collisions on the strings of one insertion gives.
@[grind cases eager] structure Insertable (hash : Bytes → Digest) (trie : Trie) (key : Bytes) : Prop where
  keys : trie.Separated hash
  known : Set.InjOn hash {k | k = key ∨ k ∈ trie.leaves}
  missing : ∀ e ∈ trie.entries hash, e.1 ≠ hash key
  generated : trie.proofForMissing hash key = proofForPath hash (hash key) 65 (trie.mpfLeaves hash) 0

theorem along_start : Along s path 0 := fun _ _ ix low => absurd low (Nat.not_lt_zero ix)

section
variable {trie : Trie} (free : Set.InjOn hash {s | s ∈ insertionStrings hash trie key value}) (absent : key ∉ trie.leaves)
include free absent

theorem insertable : Insertable hash trie key := by
  have listed : Collisionless hash (trie.strings hash) :=
    Collisionless.mono free (fun x member => by simp [insertionStrings,member])
  have known : Set.InjOn hash {k | k = key ∨ k ∈ trie.leaves} := by
    have cover : ∀ k, k = key ∨ k ∈ trie.leaves → k ∈ insertionStrings hash trie key value := by
      rintro k (rfl | stored)
      · simp [insertionStrings]
      · simp [insertionStrings,Trie.mem_strings stored]
    exact fun a ha b hb same => free (cover a ha) (cover b hb) same
  refine ⟨Trie.separated_of_strings listed,known,missing_path known absent,?_⟩
  rw [Trie.proofForMissing,if_neg (by simpa using absent)]

theorem accepted_neverCut (made : trie.proofForMissing hash key = .ok proof)
    (accepted : excluding hash (hash key) 0 proof = .ok (treeRoot hash (trie.entries hash) 0)) :
    NeverCut (trie.entries hash) (hash key) := by
  have ready := insertable free absent
  refine excluded_neverCut ready.keys.bundle (by omega) along_start ?_ (ready.generated ▸ made) ?_ accepted
  · intro leaf member
    exact ready.missing leaf.entry (entry_mem member)
  · apply Collisionless.mono free
    intro x member
    rcases List.mem_append.mp member with inside | inside
    · simp [insertionStrings,Trie.strings,inside]
    · have hashed : x ∈ exclusionStrings hash (hash key) proof := by simpa [exclusionStrings,accepted] using inside
      simp [insertionStrings,made,hashed]

end

theorem Insertable.complete {trie : Trie} (ready : Insertable hash trie key) (never : NeverCut (trie.entries hash) (hash key))
    (value : Bytes) : ∃ proof, trie.proofForMissing hash key = .ok proof ∧
      excluding hash (hash key) 0 proof = .ok (treeRoot hash (trie.entries hash) 0) ∧
      including hash (hash key) (hash value) 0 proof =
        .ok (treeRoot hash (Trie.entries hash ⟨trie.leaves.insert key value⟩) 0) := by
  obtain ⟨proof,made,complete⟩ := proofForPath_complete hash ready.keys.bundle (show 65 ≤ 65+0 by omega) along_start never
  change Complete hash (trie.entries hash) (hash key) 0 proof at complete
  have excluded := complete.excluded
  rw [without_missing ready.missing] at excluded
  exact ⟨proof,ready.generated.trans made,excluded,by rw [entries_insert ready.known]; exact complete.included (hash value)⟩

theorem insert_ok {trie : Trie} (free : Set.InjOn hash {s | s ∈ insertionStrings hash trie key value}) (absent : key ∉ trie.leaves)
    (made : trie.proofForMissing hash key = .ok proof) (rooted : trie.root hash = .ok root)
    (inserted : insert hash root key value proof = .ok next) : Trie.root hash ⟨trie.leaves.insert key value⟩ = .ok next := by
  have ready := insertable free absent
  rw [ready.keys.root] at rooted
  cases rooted
  obtain ⟨found,accepted,inserted⟩ := bind_ok.mp inserted
  split at inserted
  · cases inserted
  · rename_i same
    rw [not_not.mp same] at accepted
    obtain ⟨proof',made',_,included⟩ := ready.complete (accepted_neverCut free absent made accepted) value
    cases made.symm.trans made'
    rw [(insert_separated ready.known).root]
    cases included.symm.trans inserted
    rfl

-- Exactly the tries in which the missing path is never cut: then the generated
-- proof is accepted and yields the root of the extended trie.
theorem insertion_complete_iff (hash : Bytes → Digest) (trie : Trie) (key value : Bytes)
    (free : Set.InjOn hash {s | s ∈ insertionStrings hash trie key value}) (absent : key ∉ trie.leaves) :
    InsertionComplete hash trie key value ↔ NeverCut (trie.entries hash) (hash key) := by
  have ready := insertable free absent
  constructor
  · rintro ⟨proof,root,extended,made,rooted,_,missed,_⟩
    rw [ready.keys.root] at rooted
    cases rooted
    exact accepted_neverCut free absent made (by simpa [miss] using missed)
  · intro never
    obtain ⟨proof,made,excluded,included⟩ := ready.complete never value
    refine ⟨proof,_,_,made,ready.keys.root,(insert_separated ready.known).root,by simp [miss,excluded],?_⟩
    rw [insert,excluded]
    simpa [bind,Except.bind] using included

theorem insertion_complete_sole : InsertionComplete blake2b256 soleTrie [3] [7] := by
  refine (insertion_complete_iff blake2b256 soleTrie [3] [7] (recorded_collisionless (by decide +kernel)) (by decide)).mpr ?_
  intro depth _ two
  have one : (soleTrie.entries blake2b256).card = 1 := by decide +kernel
  have less : (sharing (soleTrie.entries blake2b256) (blake2b256 [3]) depth).card ≤ 1 :=
    one ▸ Finset.card_filter_le ..
  omega

-- The stored paths start e8 and ee, the missing one 03: it leaves inside the
-- shared first digit, and its own proof is rejected.
theorem cut_path_rejected :
    Set.InjOn blake2b256 {s | s ∈ insertionStrings blake2b256 pairTrie [0] [7]} ∧ [0] ∉ pairTrie.leaves ∧
      ¬InsertionComplete blake2b256 pairTrie [0] [7] := by
  refine ⟨recorded_collisionless (by decide +kernel),by decide,?_⟩
  rintro ⟨proof,root,extended,made,rooted,_,missed,_⟩
  have rejected : (match pairTrie.proofForMissing blake2b256 [0],pairTrie.root blake2b256 with
      | .ok proof,.ok root => miss blake2b256 root [0] proof
      | _,_ => false) = false := by decide +kernel
  rw [made,rooted] at rejected
  simp only [missed] at rejected
  cases rejected

end GreenAgent.Mpf
