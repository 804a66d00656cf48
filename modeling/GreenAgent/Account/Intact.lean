import GreenAgent.Account.Planning
import GreenAgent.Mpf.Insertion

namespace GreenAgent.Account
open Mpf (Bytes Digest Trie emptyRoot bind_ok)

-- The leaves hash to the root, which is what loading a saved store checks.
def AccountStore.Intact (ext : Externals O) (store : AccountStore) : Prop :=
  (trieFromLeaves store.leaves).root ext.blake2b256 = .ok store.root

section
variable {O : Type} {ext : Externals O} {store p : AccountStore}

theorem trieFromLeaves_insert (leaves : Std.ExtTreeMap Bytes StoredIntentLeaf) (key : Bytes) (leaf : StoredIntentLeaf) :
    trieFromLeaves (leaves.insert key leaf) = ⟨(trieFromLeaves leaves).leaves.insert key leaf.digest.bytes⟩ := by
  unfold trieFromLeaves
  congr 1
  grind

theorem trieFromLeaves_found (leaves : Std.ExtTreeMap Bytes StoredIntentLeaf) (key : Bytes) :
    (trieFromLeaves leaves).leaves[key]? = leaves[key]?.map (fun leaf : StoredIntentLeaf => leaf.digest.bytes) := by
  simp only [trieFromLeaves,Std.ExtTreeMap.getElem?_map]

theorem empty_intact : AccountStore.Intact ext .empty := by
  have none : (trieFromLeaves ∅).mpfLeaves ext.blake2b256 = [] := by tauto
  unfold AccountStore.Intact Trie.root AccountStore.empty
  rw [none]
  rfl

theorem fromFault_ok {x : Except Mpf.Fault α} : fromFault x = .ok y ↔ x = .ok y := by
  cases x with
  | ok value => simp [fromFault]
  | error fault => cases fault <;> simp [fromFault]

theorem pendingLeafWith_ok (found : store.pendingLeafWith key oldDigest = .ok leaf) :
    store.leaves[key]? = some leaf ∧ leaf.digest = oldDigest := by
  unfold AccountStore.pendingLeafWith at found
  split at found
  · cases found
  grind

theorem insertRemaining_intact (intact : store.Intact ext)
    (free : Set.InjOn ext.blake2b256 {s | s ∈ Mpf.insertionStrings ext.blake2b256 (trieFromLeaves store.leaves) key (intent.digest ext).bytes})
    (changed : store.insertRemaining ext key orderId intent = .ok (p,delta)) : p.Intact ext := by
  unfold AccountStore.insertRemaining at changed
  split at changed
  · cases changed
  · rename_i absent
    obtain ⟨proof,made,changed⟩ := bind_ok.mp changed
    obtain ⟨root,inserted,changed⟩ := bind_ok.mp changed
    cases changed
    have missing : key ∉ (trieFromLeaves store.leaves).leaves := by
      simpa [trieFromLeaves] using absent
    unfold AccountStore.Intact
    rw [trieFromLeaves_insert]
    exact Mpf.insert_ok free missing (fromFault_ok.mp made) intact (unsupported_ok.mp inserted)

theorem updateRemaining_intact (separated : (trieFromLeaves store.leaves).Separated ext.blake2b256)
    (changed : store.updateRemaining ext key oldDigest intent = .ok (p,delta)) : p.Intact ext := by
  unfold AccountStore.updateRemaining at changed
  obtain ⟨proof,made,changed⟩ := bind_ok.mp changed
  obtain ⟨leaf,found,changed⟩ := bind_ok.mp changed
  obtain ⟨root,updated,changed⟩ := bind_ok.mp changed
  cases changed
  obtain ⟨at_key,rfl⟩ := pendingLeafWith_ok found
  have stored : (trieFromLeaves store.leaves).leaves[key]? = some leaf.digest.bytes := by rw [trieFromLeaves_found,at_key]; rfl
  obtain ⟨old,_,updated⟩ := bind_ok.mp (unsupported_ok.mp updated)
  split at updated
  · cases updated
  · unfold AccountStore.Intact
    rw [trieFromLeaves_insert,
      (Mpf.insert_separated (Mpf.known_stored separated (Mpf.mem_of_found stored))).root]
    have included := separated.update_root stored (fromFault_ok.mp made) (intent.digest ext).bytes
    grind

theorem markCompleted_intact (intact : store.Intact ext) (changed : store.markCompleted ext key oldDigest = .ok (p,completion)) :
    p.Intact ext := by
  unfold AccountStore.markCompleted at changed
  obtain ⟨proof,_,changed⟩ := bind_ok.mp changed
  obtain ⟨leaf,found,changed⟩ := bind_ok.mp changed
  split at changed
  · obtain ⟨_,_,impossible⟩ := bind_ok.mp changed
    cases impossible
  · cases changed
    -- the digests under the keys are the same
    have same : trieFromLeaves (store.leaves.insert key {leaf with status:=.completed}) = trieFromLeaves store.leaves := by
      obtain ⟨at_key,_⟩ := pendingLeafWith_ok found
      unfold trieFromLeaves
      congr 1
      grind
    unfold AccountStore.Intact
    rw [same]
    exact intact

-- The strings a planner call hashes.
def PlanCall.strings (ext : Externals O) (store : AccountStore) : PlanCall → List Bytes
  | .sigInsert _ key intent => Mpf.insertionStrings ext.blake2b256 (trieFromLeaves store.leaves) key (intent.digest ext).bytes
  | .pathUpdate _ _ _ | .pathCompletion _ _ => (trieFromLeaves store.leaves).strings ext.blake2b256

theorem predict_intact {call : PlanCall} (free : Set.InjOn ext.blake2b256 {s | s ∈ call.strings ext store}) (intact : store.Intact ext)
    (predicted : call.predict ext store = .ok p) : p.Intact ext := by
  cases call with
  | sigInsert orderId key intent =>
    obtain ⟨⟨_,_⟩,changed,rfl⟩ := map_ok.mp predicted
    exact insertRemaining_intact intact free changed
  | pathUpdate key oldDigest intent =>
    obtain ⟨⟨_,_⟩,changed,rfl⟩ := map_ok.mp predicted
    exact updateRemaining_intact (Mpf.Trie.separated_of_strings free) changed
  | pathCompletion key oldDigest =>
    obtain ⟨⟨_,_⟩,changed,rfl⟩ := map_ok.mp predicted
    exact markCompleted_intact intact changed

theorem collect_other {V : Type} {list : List (Bytes × V)} {m : Std.ExtTreeMap Bytes V} (others : ∀ e ∈ list, e.1 ≠ k) :
    (list.foldl (fun map e => map.insert e.1 e.2) m)[k]? = m[k]? := by
  induction list generalizing m with
  | nil => rfl
  | cons e list ih => grind

theorem collect_here {V : Type} {list : List (Bytes × V)} {m : Std.ExtTreeMap Bytes V} {k : Bytes} {v : V} (distinct : (list.map Prod.fst).Nodup)
    (member : (k,v) ∈ list) : (list.foldl (fun map e => map.insert e.1 e.2) m)[k]? = some v := by
  induction list generalizing m with
  | nil => cases member
  | cons e list ih =>
    rw [List.map_cons,List.nodup_cons] at distinct
    rcases List.mem_cons.mp member with rfl | later
    · rw [List.foldl_cons,collect_other,Std.ExtTreeMap.getElem?_insert_self]
      grind
    · exact ih distinct.2 later

theorem collect_toList {V : Type} (m : Std.ExtTreeMap Bytes V) : m.toList.foldl (fun map e => map.insert e.1 e.2) ∅ = m := by
  apply Std.ExtTreeMap.ext_getElem?
  intro k
  cases found : m[k]? with
  | some v =>
    refine collect_here ?_ (Std.ExtTreeMap.mem_toList_iff_getElem?_eq_some.mpr found)
    rw [Std.ExtTreeMap.map_fst_toList_eq_keys]
    exact Std.ExtTreeMap.nodup_keys
  | none =>
    rw [collect_other]
    · exact Std.ExtTreeMap.getElem?_empty
    grind

theorem fromSnapshot_snapshotLeaves (intact : store.Intact ext) :
    AccountStore.fromSnapshot ext store.root store.snapshotLeaves = .ok store := by
  have rebuilt : store.snapshotLeaves.foldl (fun map leaf =>
      map.insert leaf.key ⟨leaf.canonicalOrderId,leaf.intent,leaf.digest,leaf.status⟩) (∅ : Std.ExtTreeMap Bytes StoredIntentLeaf) =
      store.leaves := by
    rw [AccountStore.snapshotLeaves,List.foldl_map]
    exact collect_toList store.leaves
  unfold AccountStore.fromSnapshot
  rw [rebuilt]
  refine bind_ok.mpr ⟨store.root,fromFault_ok.mpr intact,?_⟩
  rw [if_neg (not_not_intro rfl)]
  rfl

end
end GreenAgent.Account
