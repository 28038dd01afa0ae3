import StarryX.Library.Machine

/-! The release of unlinked inodes.

Who uses a regular file shares an `InodeSlot`, which a weak map finds while somebody holds it. When the last of them
drops it, the slot takes the lock of the filesystem and frees the inode if that has no link. Before it has the lock a
lookup may make a second slot: `freed_unused` says in which runs no inode is freed twice or in use, and in
`freed_in_use` the file of a second slot is unlinked in that window. -/
namespace StarryX.Fs.Ext4
open Library Function

/-- The life of a slot: `live` counts its other references, `dropping` waits for the lock. -/
inductive SlotPhase where
  | unborn
  | live (others : Nat)
  | dropping
  | releasing
  | gone
  deriving DecidableEq

/-- It is made, and its release is not done. -/
def SlotPhase.pending : SlotPhase → Bool
  | live _ | dropping | releasing => true
  | _ => false

/-- `slots` is the weak map, `locked` tells whether a release holds the filesystem. -/
structure InodeSlots (ι : Type) where
  phase : ι → SlotPhase
  ino : ι → UInt32
  slots : UInt32 → Option ι
  locked : Bool
  nlink : UInt32 → Nat
  inUse : UInt32 → Bool

/-- `create` and `lookup` come with a slot to make; `free` is whether freeing an inode succeeds. -/
inductive SlotLabel (ι : Type) where
  | create (i : ι) (ino : UInt32)
  | lookup (i : ι) (ino : UInt32)
  | unlink (ino : UInt32)
  | clone (i : ι)
  | drop (i : ι)
  | lock (i : ι)
  | releaseUnlinked (i : ι) (free : Bool)

namespace InodeSlots
variable {ι : Type} {s t : InodeSlots ι}

/-- At most one slot of the inode waits for its release. -/
def Single (s : InodeSlots ι) (ino : UInt32) : Prop :=
  ∀ i j, (s.phase i).pending = true → (s.phase j).pending = true → s.ino i = ino → s.ino j = ino → i = j

/-- What the slots know of the inodes. -/
structure Kept (s : InodeSlots ι) : Prop where
  single : ∀ ino, s.nlink ino = 0 → s.Single ino
  unlinked : ∀ ino, s.inUse ino = false → s.nlink ino = 0
  unheld : ∀ i, (s.phase i).pending = true → s.inUse (s.ino i) = true

/-- After mounting there are no slots. -/
structure Mounted (s : InodeSlots ι) : Prop where
  unborn : ∀ i, s.phase i = .unborn
  unlinked : ∀ ino, s.inUse ino = false → s.nlink ino = 0

open SlotPhase (pending)

theorem Mounted.kept (h : s.Mounted) : s.Kept :=
  ⟨by simp [Single, h.unborn, pending], h.unlinked, by simp [h.unborn, pending]⟩

/-- A new inode is in use and has a link. -/
theorem Kept.created (h : s.Kept) (ino : UInt32) :
    Kept {s with inUse := update s.inUse ino true, nlink := update s.nlink ino 1} := by
  refine ⟨fun ino' hno => ?_, fun ino' hno => ?_, fun i hi => ?_⟩
  · obtain ⟨-, hone⟩ | ⟨-, hold⟩ := update_cases hno
    · cases hone
    · exact h.single ino' hold
  · obtain ⟨-, htrue⟩ | ⟨hne, hold⟩ := update_cases hno
    · cases htrue
    · exact (update_of_ne hne ..).trans (h.unlinked ino' hold)
  · simp only [update_apply]
    split
    · rfl
    · exact h.unheld i hi

theorem Kept.unlinks (h : s.Kept) {ino : UInt32} (hfi : s.nlink ino = 1 → s.Single ino) (hl : 0 < s.nlink ino) :
    Kept {s with nlink := update s.nlink ino (s.nlink ino - 1)} := by
  refine ⟨fun ino' hno => ?_, fun ino' hno => ?_, h.unheld⟩
  · obtain ⟨rfl, hlast⟩ | ⟨-, hold⟩ := update_cases hno
    · exact hfi (by omega)
    · exact h.single ino' hold
  · have hold := h.unlinked ino' hno
    simp only [update_apply]
    split
    next heq => rw [← heq, hold]
    · exact hold

variable [DecidableEq ι]

/-- Takes the slot that the map still finds, or makes `i`. -/
def inodeSlot (i : ι) (ino : UInt32) (s : InodeSlots ι) : InodeSlots ι :=
  match (s.slots ino).map fun j => (j, s.phase j) with
  | some (j, .live n) => {s with phase := update s.phase j (.live (n + 1))}
  | _ => {s with
    phase := update s.phase i (.live 0)
    ino := update s.ino i ino
    slots := update s.slots ino (some i)}

def step : SlotLabel ι → InodeSlots ι → Option (InodeSlots ι)
  | .create i ino, s =>
    if s.locked = false ∧ s.inUse ino = false ∧ s.phase i = .unborn then some (inodeSlot i ino {s with
      inUse := update s.inUse ino true
      nlink := update s.nlink ino 1})
    else none
  | .lookup i ino, s =>
    if s.locked = false ∧ 0 < s.nlink ino ∧ s.phase i = .unborn then some (inodeSlot i ino s) else none
  | .unlink ino, s =>
    if s.locked = false ∧ 0 < s.nlink ino then some {s with nlink := update s.nlink ino (s.nlink ino - 1)}
    else none
  | .clone i, s => match s.phase i with
    | .live n => some {s with phase := update s.phase i (.live (n + 1))}
    | _ => none
  | .drop i, s => match s.phase i with
    | .live (n + 1) => some {s with phase := update s.phase i (.live n)}
    | .live 0 => some {s with phase := update s.phase i .dropping}
    | _ => none
  | .lock i, s =>
    if s.locked = false ∧ s.phase i = .dropping then some {s with
      phase := update s.phase i .releasing
      locked := true}
    else none
  | .releaseUnlinked i free, s =>
    if s.phase i = .releasing then some {s with
      phase := update s.phase i .gone
      locked := false
      inUse := if s.nlink (s.ino i) = 0 ∧ free = true then update s.inUse (s.ino i) false else s.inUse}
    else none

def machine : Machine (InodeSlots ι) (SlotLabel ι) := ⟨step⟩

/-- The last link of a file goes while it has one slot at most. -/
def Fine : SlotLabel ι → InodeSlots ι → Prop
  | .unlink ino, s => s.nlink ino = 1 → s.Single ino
  | _, _ => True

/-! ### What a step keeps -/

/-- A slot goes on waiting for its release, or stops. -/
theorem Kept.phase (h : s.Kept) (i : ι) {phase : SlotPhase} (hp : phase.pending → (s.phase i).pending) :
    Kept {s with phase := update s.phase i phase} := by
  have hold : ∀ j, (update s.phase i phase j).pending → (s.phase j).pending := by
    intro j hj
    obtain ⟨rfl, hnew⟩ | ⟨-, hold⟩ := update_map_cases pending hj
    · exact hp hnew
    · exact hold
  exact ⟨fun ino hno j k hj hk => h.single ino hno j k (hold j hj) (hold k hk), h.unlinked, fun j hj => h.unheld j (hold j hj)⟩

theorem Kept.inodeSlot {i : ι} {ino : UInt32} (h : s.Kept) (hl : 0 < s.nlink ino) : (inodeSlot i ino s).Kept := by
  unfold InodeSlots.inodeSlot
  split
  next j n heq =>
    obtain ⟨j', -, hpair⟩ := Option.map_eq_some_iff.mp heq
    obtain ⟨rfl, hph⟩ := Prod.mk.inj hpair
    exact h.phase _ fun _ => by rw [hph]; rfl
  · -- The new slot is of an inode that has a link.
    refine ⟨fun ino' hno j k hj hk hji hki => ?_, h.unlinked, fun j hj => ?_⟩
    · have hother : ∀ j, (update s.ino i ino) j = ino' → j ≠ i := by
        rintro j hji rfl
        rw [update_self] at hji
        rw [← hji] at hno
        exact hl.ne' hno
      have hj' := hother j hji
      have hk' := hother k hki
      simp only [update_of_ne hj', update_of_ne hk'] at hj hk hji hki
      exact h.single ino' hno j k hj hk hji hki
    · by_cases hji : j = i
      · subst hji
        simp only [update_self]
        exact Bool.of_not_eq_false fun hno => hl.ne' (h.unlinked ino hno)
      · simp only [update_of_ne hji] at hj ⊢
        exact h.unheld j hj

/-- The releaser is the only slot of an inode without links, so none is left when that is freed. -/
theorem Kept.releases (h : s.Kept) {i : ι} (hi : s.phase i = .releasing) (free : Bool) :
    Kept {s with
      phase := update s.phase i .gone
      inUse := if s.nlink (s.ino i) = 0 ∧ free = true then update s.inUse (s.ino i) false else s.inUse} := by
  have hgo : Kept {s with phase := update s.phase i .gone} := h.phase i nofun
  split
  next hfree =>
    refine ⟨hgo.single, fun ino hno => ?_, fun j hj => ?_⟩
    · obtain ⟨rfl, -⟩ | ⟨-, hold⟩ := update_cases hno
      · exact hfree.1
      · exact h.unlinked ino hold
    · obtain ⟨hji, hold⟩ := update_map_ne pending hj nofun
      refine (update_of_ne (fun heq => hji ?_) ..).trans (h.unheld j hold)
      exact h.single _ hfree.1 j i hold (by rw [hi]; rfl) heq rfl
  · exact hgo

theorem Kept.step (l : SlotLabel ι) (s t : InodeSlots ι) (h : s.Kept) (hfi : Fine l s)
    (hst : machine.step l s = some t) : t.Kept := by
  cases l with
  | create i ino =>
    obtain ⟨-, rfl⟩ := by simpa [machine, InodeSlots.step] using hst
    exact (h.created ino).inodeSlot (by simp)
  | lookup i ino =>
    obtain ⟨⟨-, hl, -⟩, rfl⟩ := by simpa [machine, InodeSlots.step] using hst
    exact h.inodeSlot hl
  | unlink ino =>
    obtain ⟨⟨-, hl⟩, rfl⟩ := by simpa [machine, InodeSlots.step] using hst
    exact h.unlinks hfi hl
  | clone i =>
    simp only [machine, InodeSlots.step] at hst
    split at hst <;> cases hst
    next hph => exact h.phase i fun _ => by rw [hph]; rfl
  | drop i =>
    simp only [machine, InodeSlots.step] at hst
    split at hst <;> cases hst
    next hph => exact h.phase i fun _ => by rw [hph]; rfl
    next hph => exact h.phase i fun _ => by rw [hph]; rfl
  | lock i =>
    obtain ⟨⟨-, hph⟩, rfl⟩ := by simpa [machine, InodeSlots.step] using hst
    have hlk : Kept {s with phase := update s.phase i .releasing} := h.phase i fun _ => by rw [hph]; rfl
    exact {hlk with}
  | releaseUnlinked i free =>
    obtain ⟨hi, rfl⟩ := by simpa [machine, InodeSlots.step] using hst
    have hre := h.releases hi free
    exact {hre with}

/-- **A release that frees an inode finds it in use and without a live slot**, in every run in which files lose their
last link while they have one slot at most. Since a freed inode is not in use until it is created again, none is freed
twice. -/
theorem freed_unused (labels : List (SlotLabel ι)) (h0 : s.Mounted) (hfi : machine.Meets Fine s labels)
    (hrun : machine.run s labels = some t) {i : ι} (hi : t.phase i = .releasing) (hl : t.nlink (t.ino i) = 0) :
    t.inUse (t.ino i) = true ∧ ∀ j n, t.phase j = .live n → t.ino j ≠ t.ino i := by
  obtain ⟨hs, -, huh⟩ : t.Kept := Machine.run_induct_under Kept.step labels h0.kept hfi hrun
  have hp : (t.phase i).pending := by simp [hi, pending]
  refine ⟨huh i hp, fun j n hj he => ?_⟩
  have hji : j = i := hs _ hl j i (by simp [hj, pending]) hp he rfl
  rw [hji, hi] at hj
  cases hj

/-- Every inode has one link. -/
def linked : InodeSlots Bool := ⟨fun _ => .unborn, fun _ => 0, fun _ => none, false, fun _ => 1, fun _ => true⟩

theorem freed_unused_last : ∃ t, machine.run linked [.lookup false 12, .unlink 12, .drop false, .lock false] = some t ∧
    t.nlink 12 = 0 ∧ t.inUse 12 = true ∧ ∀ j n, t.phase j = .live n → t.ino j ≠ 12 := by
  have h0 : linked.Mounted := ⟨fun _ => rfl, fun _ h => by cases h⟩
  refine ⟨_, rfl, rfl, freed_unused [.lookup false 12, .unlink 12, .drop false, .lock false] h0 ?_ rfl (i := false) rfl rfl⟩
  refine ⟨trivial, fun _ h => ?_⟩
  cases h
  refine ⟨fun _ => by unfold Single; decide, fun _ h => ?_⟩
  cases h
  exact ⟨trivial, fun _ h => by cases h; exact ⟨trivial, fun _ _ => trivial⟩⟩

/-- The second slot is made and its file unlinked before the first has the lock. -/
theorem freed_in_use : (machine.run linked [.lookup false 12, .drop false, .lookup true 12, .unlink 12, .lock false]).map
    (fun s => (s.phase false, s.nlink 12, s.phase true, s.ino true)) = some (.releasing, 0, .live 0, 12) := by
  decide +kernel

end InodeSlots
end StarryX.Fs.Ext4
