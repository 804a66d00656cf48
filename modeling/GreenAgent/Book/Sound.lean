import GreenAgent.Book.Steps

namespace GreenAgent.Book
open MarketTaker TakerBehaviour

def Keyed [Stable M L] [DecidableEq L] (makers : MarketMakers L M) : Prop := ∀ id m, makers.lookup id = some m → stableId m = id

namespace TLBState
variable {T M L U : Type} [Ord T] [MarketTaker T U]

-- The active takers and the makers that a rollback starts from.
def intactTakers : TLBState T L M → MarketTakers T
  | .idle state => state.takers.active
  | .partialPreview state => state.takersIntact.active
  | .preview state => state.takersIntact.active

def intactMakers : TLBState T L M → MarketMakers L M
  | .idle state => state.makers
  | .partialPreview state => state.makersIntact
  | .preview state => state.makersIntact

-- The takers `intactTakers` is put together from.
def members : TLBState T L M → List T
  | .idle state => state.takers.active.all
  | .partialPreview state => state.consumedActiveTakers ++ state.takersPreview.active.all
  | .preview state => state.takersIntact.active.all

theorem intactTakers_subperm (state : TLBState T L M) : state.intactTakers.all.Subperm state.members := by
  cases state with
  | idle settled => exact .refl _
  | preview shown => exact .refl _
  | partialPreview busy =>
    have back := MarketTakers.insertAll_subperm busy.consumedActiveTakers.reverse busy.takersPreview.active
    exact back.trans ((List.reverse_perm _).append_right _).subperm

end TLBState

section Frames
variable {T M L U : Type}

theorem pickMakerById_found [DecidableEq L] (state : TLBState T L M) (id : L) : (state.pickMakerById id).1 = state.pools.lookup id := by
  cases state <;> rfl

theorem pickMakerById_pools [DecidableEq L] (state : TLBState T L M) (id : L) : (state.pickMakerById id).2.pools = AList.erase id state.pools := by
  cases state <;> rfl

theorem pickMakerById_active [DecidableEq L] (state : TLBState T L M) (id : L) : (state.pickMakerById id).2.activeFragments = state.activeFragments := by
  cases state <;> rfl

variable [Ord T] [MarketTaker T U]

theorem moveIntoPreview_active (state : TLBState T L M) : state.moveIntoPreview.activeTakersPreview = state.activeFragments := by
  cases state <;> rfl

theorem moveIntoPreview_pools (state : TLBState T L M) : state.moveIntoPreview.makersPreview = state.pools := by
  cases state <;> rfl

theorem preAddTaker_cases (state : TLBState T L M) (t : T) :
    (∃ changes, state.preAddTaker t = .preview {state.moveIntoPreview with inactiveTakersChangeset:=changes}) ∨
      state.preAddTaker t = .preview {state.moveIntoPreview with activeTakersPreview:=state.activeFragments.insert t} := by
  rw [← moveIntoPreview_active state]
  unfold TLBState.preAddTaker
  grind

theorem preAddTaker_pools (state : TLBState T L M) (t : T) : (state.preAddTaker t).pools = state.pools := by
  rcases preAddTaker_cases state t with ⟨_,added⟩ | added
  · rw [added]
    exact moveIntoPreview_pools state
  · rw [added]
    exact moveIntoPreview_pools state

theorem preAddTaker_active (state : TLBState T L M) (t : T) :
    (state.preAddTaker t).activeFragments.all.Subperm (t :: state.activeFragments.all) := by
  rcases preAddTaker_cases state t with ⟨_,added⟩ | added
  · rw [added]
    change state.moveIntoPreview.activeTakersPreview.all.Subperm _
    rw [moveIntoPreview_active]
    exact (List.sublist_cons_self _ _).subperm
  · rw [added]
    exact state.activeFragments.insert_subperm t

theorem preAddMaker_active [DecidableEq L] [Stable M L] (state : TLBState T L M) (maker : M) : (state.preAddMaker maker).activeFragments = state.activeFragments :=
  moveIntoPreview_active state

theorem preAddMaker_pools [DecidableEq L] [Stable M L] (state : TLBState T L M) (maker : M) :
    (state.preAddMaker maker).pools = AList.insert (stableId maker) maker state.pools := by
  rw [← moveIntoPreview_pools state]
  rfl

end Frames

-- The state holds one taker and one maker for each id, and every taker stands on
-- its own side; the same is true of what a rollback starts from.
@[grind cases eager] structure Sound [Ord T] [MarketTaker T U] [Stable T K] [Stable M L] [DecidableEq L] (P : T → Prop) (state : TLBState T L M) : Prop where
  sided : state.activeFragments.Sided
  intactSided : state.intactTakers.Sided
  active : Orderly P state.activeFragments.all
  members : Orderly P state.members
  keyed : Keyed state.pools
  intactKeyed : Keyed state.intactMakers

section
variable {T K M L U : Type} [DecidableEq L] [Ord T] [Stable T K] [Stable M L] [MarketTaker T U] {P : T → Prop} {state : TLBState T L M}

theorem sound_idle {settled : IdleState T L M} (sided : settled.takers.active.Sided) (orderly : Orderly P settled.takers.active.all)
    (keyed : Keyed settled.makers) : Sound P (.idle settled) :=
  ⟨sided,sided,orderly,orderly,keyed,keyed⟩

theorem Keyed.erase {makers : MarketMakers L M} (keyed : Keyed makers) (id : L) : Keyed (AList.erase id makers) := by
  intro key m found
  rw [HashMap.lookup_erase] at found
  split at found
  · cases found
  · exact keyed key m found

theorem Keyed.insert {makers : MarketMakers L M} (keyed : Keyed makers) (maker : M) : Keyed (AList.insert (stableId maker) maker makers) := by
  intro key m found
  rw [HashMap.lookup_insert] at found
  split at found
  · grind
  · exact keyed key m found

-- A taker has been picked from the active ones.
@[grind cases eager] structure Freed (P : T → Prop) (state : TLBState T L M) (t : T) (free : TLBState T L M) : Prop where
  sound : Sound P free
  split : state.activeFragments.all.Perm (t :: free.activeFragments.all)
  pools : free.pools = state.pools

theorem Sound.pick {f : MarketTakers T → Option T × MarketTakers T} (sound : Sound P state) (picks : Picks f)
    (picked : state.pickActiveTaker f = (some t,free)) : Freed P state t free := by
  have without := picks state.activeFragments sound.sided
  cases state with
  | idle settled =>
    simp only [TLBState.activeFragments,TLBState.pickActiveTaker] at without picked
    cases chosen : f settled.takers.active with
    | mk choice rest =>
      rw [chosen] at without picked
      cases choice with
      | none => cases picked
      | some taker =>
        obtain ⟨same,rfl⟩ := Prod.mk.inj picked
        obtain rfl := Option.some.inj same
        have split : settled.takers.active.all.Perm (taker :: rest.all) := without.split
        refine ⟨⟨without.sided,without.sided.insert taker,?_,?_,sound.keyed,sound.intactKeyed⟩,split,rfl⟩
        · exact (orderly_cons.mp (sound.active.perm split)).2.2
        · exact sound.active.perm split
  | partialPreview busy =>
    simp only [TLBState.activeFragments,TLBState.pickActiveTaker] at without picked
    cases chosen : f busy.takersPreview.active with
    | mk choice rest =>
      rw [chosen] at without picked
      cases choice with
      | none => cases picked
      | some taker =>
        obtain ⟨same,rfl⟩ := Prod.mk.inj picked
        obtain rfl := Option.some.inj same
        have split : busy.takersPreview.active.all.Perm (taker :: rest.all) := without.split
        refine ⟨⟨without.sided,without.sided.insertAll _,?_,?_,sound.keyed,sound.intactKeyed⟩,split,rfl⟩
        · exact (orderly_cons.mp (sound.active.perm split)).2.2
        · refine sound.members.perm ?_
          simp only [TLBState.members,List.append_assoc,List.singleton_append]
          exact split.append_left _
  | preview shown =>
    simp only [TLBState.activeFragments,TLBState.pickActiveTaker] at without picked
    cases chosen : f shown.activeTakersPreview with
    | mk choice rest =>
      rw [chosen] at without picked
      obtain ⟨rfl,rfl⟩ := Prod.mk.inj picked
      have split : shown.activeTakersPreview.all.Perm (t :: rest.all) := without.split
      exact ⟨⟨without.sided,sound.intactSided,(orderly_cons.mp (sound.active.perm split)).2.2,sound.members,sound.keyed,sound.intactKeyed⟩,split,rfl⟩

theorem Sound.pick_none {f : MarketTakers T → Option T × MarketTakers T} (sound : Sound P state) (picks : Picks f)
    (picked : state.pickActiveTaker f = (none,free)) : free = state := by
  have without := picks state.activeFragments sound.sided
  cases state with
  | idle settled =>
    simp only [TLBState.activeFragments,TLBState.pickActiveTaker] at without picked
    cases chosen : f settled.takers.active with
    | mk choice rest =>
      rw [chosen] at without picked
      cases choice with
      | some taker => cases picked
      | none => simp_all
  | partialPreview busy =>
    simp only [TLBState.activeFragments,TLBState.pickActiveTaker] at without picked
    cases chosen : f busy.takersPreview.active with
    | mk choice rest =>
      rw [chosen] at without picked
      cases choice with
      | some taker => cases picked
      | none => simp_all
  | preview shown =>
    simp only [TLBState.activeFragments,TLBState.pickActiveTaker] at without picked
    cases chosen : f shown.activeTakersPreview with
    | mk choice rest => simp_all

theorem Freed.orderly (freed : Freed P state t free) (sound : Sound P state) : Orderly P (t :: free.activeFragments.all) :=
  sound.active.perm freed.split

theorem Sound.takeMaker (sound : Sound P state) (id : L) : Sound P (state.pickMakerById id).2 := by
  cases state with
  | idle settled => exact ⟨sound.sided,sound.intactSided,sound.active,sound.members,sound.keyed.erase id,sound.intactKeyed⟩
  | partialPreview busy => exact ⟨sound.sided,sound.intactSided,sound.active,sound.members,sound.keyed.erase id,sound.intactKeyed⟩
  | preview shown => exact ⟨sound.sided,sound.intactSided,sound.active,sound.members,sound.keyed.erase id,sound.intactKeyed⟩

theorem Sound.shown (sound : Sound P state) : Sound P (.preview state.moveIntoPreview) := by
  have members : Orderly P state.intactTakers.all := sound.members.mono state.intactTakers_subperm
  cases state with
  | idle settled => exact ⟨sound.sided,sound.intactSided,sound.active,members,sound.keyed,sound.intactKeyed⟩
  | partialPreview busy => exact ⟨sound.sided,sound.intactSided,sound.active,members,sound.keyed,sound.intactKeyed⟩
  | preview shown => exact sound

theorem Sound.addTaker (sound : Sound P state) (fits : Orderly P (t :: state.activeFragments.all)) : Sound P (state.preAddTaker t) := by
  have shown := sound.shown
  have active := fits.mono (preAddTaker_active state t)
  rcases preAddTaker_cases state t with ⟨_,added⟩ | added
  · rw [added] at active ⊢
    exact ⟨shown.sided,shown.intactSided,active,shown.members,shown.keyed,shown.intactKeyed⟩
  · rw [added] at active ⊢
    exact ⟨sound.sided.insert t,shown.intactSided,active,shown.members,shown.keyed,shown.intactKeyed⟩

theorem Sound.addMaker (sound : Sound P state) (maker : M) : Sound P (state.preAddMaker maker) := by
  have shown := sound.shown
  exact ⟨shown.sided,shown.intactSided,shown.active,shown.members,shown.keyed.insert maker,shown.intactKeyed⟩

theorem rollback_stash_sound (sided : takers.active.Sided) (orderly : Orderly P takers.active.all) {makers : MarketMakers L M} (keyed : Keyed makers)
    (stashed removed : List T) : Sound P (rollbackTo takers stashed makers (.stash removed)) := by
  have less := MarketTakers.removeAll_sublist removed takers.active
  unfold rollbackTo
  simp only
  split
  · exact sound_idle (sided.removeAll removed) (orderly.mono less.subperm) keyed
  · exact ⟨sided.removeAll removed,sided.removeAll removed,orderly.mono less.subperm,orderly.mono less.subperm,keyed,keyed⟩

theorem Sound.rollback (sound : Sound P state) (removed : List T) : Sound P (state.rollback (.stash removed)) := by
  have orderly : Orderly P state.intactTakers.all := sound.members.mono state.intactTakers_subperm
  cases state with
  | idle settled => exact sound
  | partialPreview busy => exact rollback_stash_sound sound.intactSided orderly sound.intactKeyed _ _
  | preview shown => exact rollback_stash_sound sound.intactSided orderly sound.intactKeyed _ _

end
end GreenAgent.Book
