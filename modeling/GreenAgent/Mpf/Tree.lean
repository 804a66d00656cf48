import GreenAgent.Lib.Merkle
import GreenAgent.Lib.Radix
import GreenAgent.Mpf.Paths

namespace GreenAgent.Mpf
open Radix (Fan Splits child mem_child)

-- The purpose of the trie code: the root of a compressed tree over a finite set
-- of (path, value hash) entries, independent of any order of the leaves.
abbrev Entry := Digest × Digest

def Leaf.entry (leaf : Leaf) : Entry := (leaf.path,leaf.valueHash)

def entries (leaves : List Leaf) : Finset Entry := (leaves.map Leaf.entry).toFinset

def hasher (hash : Bytes → Digest) : Radix.Hasher Digest Digest Digest digit where
  empty := emptyRoot
  leaf := fun path value cursor => combine hash (suffixBytes path cursor) value.bytes
  fork := fun path cursor split roots => combine hash (digits path cursor split) (merkle16Roots hash roots).bytes
  fork_label := by
    intro p q c d roots same
    rw [digits_congr same]

noncomputable def treeRoot (hash : Bytes → Digest) (s : Finset Entry) (cursor : Nat) : Digest :=
  Radix.root (hasher hash) s cursor

@[simp] theorem treeRoot_empty {hash : Bytes → Digest} : treeRoot hash ∅ cursor = emptyRoot := Radix.root_empty _

@[simp] theorem treeRoot_single {hash : Bytes → Digest} (path value : Digest) :
    treeRoot hash {(path,value)} cursor = combine hash (suffixBytes path cursor) value.bytes :=
  Radix.root_single _ _ _

noncomputable def treeChildren (hash : Bytes → Digest) (s : Finset Entry) (split : Nat) : Nat → Digest :=
  fun nib => treeRoot hash (child digit s split nib) (split+1)

variable {hash : Bytes → Digest}

theorem treeRoot_split (splits : Splits digit s cursor split) (member : e ∈ s) :
    treeRoot hash s cursor =
      combine hash (digits e.1 cursor split) (merkle16Roots hash (treeChildren hash s split)).bytes :=
  Radix.root_split _ splits member

-- Leaves of one subtree, without repetition.
@[grind cases eager] structure Bundle (leaves : List Leaf) (cursor : Nat) : Prop where
  fan : Fan digit 64 (entries leaves) cursor
  nodup : (leaves.map Leaf.entry).Nodup

@[simp] theorem mem_entries : e ∈ entries leaves ↔ ∃ leaf ∈ leaves, leaf.entry = e := by
  simp [entries]

theorem entry_mem (member : leaf ∈ leaves) : leaf.entry ∈ entries leaves :=
  mem_entries.mpr ⟨leaf,member,rfl⟩

@[simp] theorem entries_nil : entries [] = ∅ := rfl

@[simp] theorem entries_single (leaf : Leaf) : entries [leaf] = {leaf.entry} := rfl

theorem entries_card (bundle : Bundle leaves cursor) : (entries leaves).card = leaves.length := by
  rw [entries,List.toFinset_card_of_nodup bundle.nodup,List.length_map]

theorem Bundle.splits (bundle : Bundle (first :: second :: rest) cursor) :
    ∃ split, Splits digit (entries (first :: second :: rest)) cursor split := by
  apply bundle.fan.splits
  rw [entries_card bundle]
  simp

def group (leaves : List Leaf) (split nib : Nat) : List Leaf :=
  leaves.filter (fun leaf => decide (digit leaf.path split = nib))

theorem entries_group : entries (group leaves split nib) = child digit (entries leaves) split nib := by
  ext e
  simp only [mem_entries,group,List.mem_filter,decide_eq_true_eq,mem_child]
  constructor
  · rintro ⟨leaf,⟨member,nib⟩,rfl⟩
    exact ⟨⟨leaf,member,rfl⟩,nib⟩
  · rintro ⟨⟨leaf,member,rfl⟩,nib⟩
    exact ⟨leaf,⟨member,nib⟩,rfl⟩

theorem Bundle.group (bundle : Bundle leaves cursor) (splits : Splits digit (entries leaves) cursor split) :
    Bundle (group leaves split nib) (split+1) := by
  refine ⟨?_,?_⟩
  · rw [entries_group]
    exact splits.child_fan bundle.fan
  · exact bundle.nodup.sublist (List.Sublist.map _ List.filter_sublist)

theorem group_empty_iff : (group leaves split nib).isEmpty = true ↔ child digit (entries leaves) split nib = ∅ := by
  rw [← entries_group,List.isEmpty_iff]
  constructor
  · intro empty; rw [empty]; rfl
  · intro empty
    rw [List.eq_nil_iff_forall_not_mem]
    intro leaf member
    have entry := entry_mem member
    rw [empty] at entry
    simp at entry

theorem commonSplitLoop_ok (low : ∀ ix, start ≤ ix → ix < split → ∀ leaf ∈ leaves, digit leaf.path ix = digit first.path ix)
    (apart : ∃ leaf ∈ leaves, digit leaf.path split ≠ digit first.path split)
    (lower : start ≤ split) (upper : split < start+count) (bound : start+count ≤ 64) :
    commonSplitLoop first leaves (List.range' start count) = .ok split := by
  induction count generalizing start with
  | zero => omega
  | succ count ih =>
    rw [List.range'_succ,commonSplitLoop,nibble_ok (by omega)]
    change (if _ then _ else _) = _
    have test : (leaves.any fun leaf => decide (nibble leaf.path start ≠ .ok (digit first.path start))) = true ↔
        ∃ leaf ∈ leaves, digit leaf.path start ≠ digit first.path start := by
      rw [List.any_eq_true]
      simp [nibble_ok (show start < 64 by omega)]
    by_cases here : start = split
    · subst start
      rw [if_pos (test.mpr apart)]
      rfl
    · rw [if_neg]
      · exact ih (fun ix below => low ix (by omega)) (by omega) (by omega) (by omega)
      · rw [test]
        rintro ⟨leaf,member,differ⟩
        exact differ (low start (Nat.le_refl _) (by omega) leaf member)

theorem commonSplit_ok (bundle : Bundle leaves cursor) (splits : Splits digit (entries leaves) cursor split) :
    commonSplit leaves cursor = .ok split := by
  cases leaves with
  | nil =>
    obtain ⟨e,he,_⟩ := splits.apart
    simp at he
  | cons first rest =>
    have below := splits.below bundle.fan
    have head := entry_mem (List.mem_cons_self : first ∈ first :: rest)
    have lower := splits.lower
    apply commonSplitLoop_ok
    · intro ix _ upper leaf member
      exact splits.agree _ (entry_mem member) _ head ix upper
    · by_contra none
      push Not at none
      obtain ⟨e,he,e',he',apart⟩ := splits.apart
      obtain ⟨leaf,member,rfl⟩ := mem_entries.mp he
      obtain ⟨leaf',member',rfl⟩ := mem_entries.mp he'
      exact apart ((none leaf member).trans (none leaf' member').symm)
    · exact splits.lower
    · omega
    · omega

theorem childGroups_ok (bound : split < 64) : childGroups leaves split = .ok (group leaves split) := by
  have general : ∀ children : Nat → List Leaf, leaves.foldlM (fun children leaf => do
      let nib ← nibble leaf.path split
      return Function.update children nib (children nib ++ [leaf])) children =
        (Except.ok (fun nib => children nib ++ group leaves split nib) : Except MpfError _) := by
    induction leaves with
    | nil => intro children; simp [group,pure,Except.pure]
    | cons leaf rest ih =>
      intro children
      rw [List.foldlM_cons,nibble_ok bound]
      refine (ih _).trans ?_
      congr 1
      funext nib
      by_cases here : digit leaf.path split = nib
      · subst nib; simp [group]
      · rw [Function.update_of_ne (Ne.symm here)]; simp [group,here]
  exact general (fun _ => [])

theorem collectRoots_ok (every : ∀ ix, roots ix = .ok (values ix)) : collectRoots roots = .ok values := by
  have same : roots = fun ix => .ok (values ix) := funext every
  subst same
  simp [collectRoots]

-- Refinement: with one unit of fuel for every nibble still to read, the code's
-- recursion returns the root of the set of its leaves and never panics.
theorem rootFor_eq (bundle : Bundle leaves cursor) (enough : 65 ≤ fuel+cursor) :
    rootFor hash fuel leaves cursor = .ok (treeRoot hash (entries leaves) cursor) := by
  induction fuel generalizing leaves cursor with
  | zero => have bound := bundle.fan.bound; omega
  | succ fuel ih =>
    match leaves with
    | [] => simp [rootFor]
    | [leaf] =>
      rw [rootFor,suffix_ok bundle.fan.bound]
      simp only [expect,entries_single,Leaf.entry,treeRoot_single]
      rfl
    | first :: second :: rest =>
      obtain ⟨split,splits⟩ := bundle.splits
      have below := splits.below bundle.fan
      have lower := splits.lower
      have inner : ∀ nib, rootFor hash fuel (group (first :: second :: rest) split nib) (split+1) =
          .ok (treeChildren hash (entries (first :: second :: rest)) split nib) := by
        intro nib
        rw [ih (bundle.group splits) (by omega),entries_group]
        rfl
      rw [rootFor,commonSplit_ok bundle splits]
      simp only [expect,childGroups_ok below,nibbles_ok lower (Nat.le_of_lt below),bind,Except.bind,
        collectRoots_ok inner]
      rw [treeRoot_split splits (entry_mem (List.mem_cons_self : first ∈ first :: second :: rest))]
      rfl

theorem childRoots_ok (bundle : Bundle leaves cursor) (splits : Splits digit (entries leaves) cursor split)
    (enough : 65 ≤ fuel+split+1) :
    childRoots hash fuel (group leaves split) (split+1) = .ok (treeChildren hash (entries leaves) split) := by
  apply collectRoots_ok
  intro nib
  rw [rootFor_eq (bundle.group splits) (by omega),entries_group]
  rfl

end GreenAgent.Mpf
