import StarryX.Library.Machine

/-! Inodes that are lost.

An inode without links goes back to the allocator when its last node is gone: a regular file when its nodes drop the
slot they share, a directory when it is unlinked. `Inode::new` gives no other node a slot, and `create` leaves the inode
it allocated behind if it cannot add the name. `released_iff` says in which runs nothing is lost.

A node is a cached entry, an open file or the backing of a page cache. `create`, `link` and `lookup` make one with
`Inode::new`; `DirNode::unlink` looks the entry up, unlinks it and drops the node, and `rename` does so with the name it
replaces. These are steps of their own here. -/
namespace StarryX.Fs.Ext4
open Library Function

inductive InodeType where
  | fifo | characterDevice | directory | blockDevice | regularFile | symlink | socket
  deriving DecidableEq

/-- `slots` counts the live nodes that share the slot of an inode, `nodes` those without a slot. -/
structure Inodes where
  kind : UInt32 → InodeType
  inUse : UInt32 → Bool
  nlink : UInt32 → Nat
  slots : UInt32 → Nat
  nodes : UInt32 → Nat

/-- `added` is whether the name can be added, `free` whether the inode can be freed. -/
inductive InodeLabel where
  | create (ino : UInt32) (ty : InodeType) (added : Bool)
  | link (ino : UInt32)
  | new (ino : UInt32)
  | unlink (ino : UInt32) (free : Bool)
  | dropSlot (ino : UInt32) (free : Bool)
  | dropNode (ino : UInt32)

namespace Inodes
variable {s t : Inodes} {ino : UInt32}

def new (ino : UInt32) (s : Inodes) : Inodes :=
  let file := s.kind ino = .regularFile
  {s with
    slots := update s.slots ino (s.slots ino + if file then 1 else 0)
    nodes := update s.nodes ino (s.nodes ino + if file then 0 else 1)}

def create (ino : UInt32) (ty : InodeType) (added : Bool) (s : Inodes) : Inodes :=
  {s with
    kind := update s.kind ino ty
    inUse := update s.inUse ino true
    nlink := update s.nlink ino (if !added then 0 else if ty = .directory then 2 else 1)}

def unlink (ino : UInt32) (free : Bool) (s : Inodes) : Inodes :=
  let dir := s.kind ino = .directory
  {s with
    inUse := update s.inUse ino (if dir ∧ free then false else s.inUse ino)
    nlink := update s.nlink ino (if dir then 0 else s.nlink ino - 1)}

/-- The last node calls `release_unlinked`. -/
def dropSlot (ino : UInt32) (free : Bool) (s : Inodes) : Inodes :=
  {s with
    inUse := update s.inUse ino (if s.slots ino = 1 ∧ s.nlink ino = 0 ∧ free then false else s.inUse ino)
    slots := update s.slots ino (s.slots ino - 1)}

/-- The live nodes of an inode. -/
def live (s : Inodes) (ino : UInt32) : Nat := s.slots ino + s.nodes ino

def step : InodeLabel → Inodes → Option Inodes
  | .create ino ty added, s => if s.inUse ino = false then some (s.create ino ty added) else none
  | .link ino, s =>
    if 0 < s.live ino ∧ s.kind ino ≠ .directory then some {s with nlink := update s.nlink ino (s.nlink ino + 1)}
    else none
  | .new ino, s => if 0 < s.nlink ino then some (s.new ino) else none
  | .unlink ino free, s => if 0 < s.nlink ino then some (s.unlink ino free) else none
  | .dropSlot ino free, s => if 0 < s.slots ino then some (s.dropSlot ino free) else none
  | .dropNode ino, s =>
    if 0 < s.nodes ino then some {s with nodes := update s.nodes ino (s.nodes ino - 1)} else none

def machine : Machine Inodes InodeLabel := ⟨step⟩

def Released (s : Inodes) : Prop := ∀ ino, s.nlink ino = 0 → s.live ino = 0 → s.inUse ino = false

/-- A name can be added to a new inode, and a step that takes the last link or the last node of an inode in use frees
it: it unlinks a directory, or it drops the slot of a file. -/
def Fine : InodeLabel → Inodes → Prop
  | .create ino _ added, s => s.inUse ino = false → s.live ino = 0 → added = true
  | .unlink ino free, s => 0 < s.nlink ino → s.live ino = 0 → s.inUse ino = true →
    if s.kind ino = .directory then free = true else s.nlink ino ≠ 1
  | .dropSlot ino free, s => s.slots ino = 1 → s.live ino = 1 → s.nlink ino = 0 → s.inUse ino = true → free = true
  | .dropNode ino, s => s.nodes ino = 1 → s.live ino = 1 → s.nlink ino = 0 → s.inUse ino = false
  | _, _ => True

/-- What becomes of the inode of the step decides. -/
theorem Released.iff_at (h : s.Released) (ino : UInt32)
    (hsame : ∀ i, i ≠ ino → t.nlink i = s.nlink i ∧ t.live i = s.live i ∧ t.inUse i = s.inUse i) :
    t.Released ↔ (t.nlink ino = 0 → t.live ino = 0 → t.inUse ino = false) := by
  refine ⟨fun ht => ht ino, fun hat i => ?_⟩
  by_cases hi : i = ino
  · exact hi ▸ hat
  · obtain ⟨hl, hn, hu⟩ := hsame i hi
    rw [hl, hn, hu]
    exact h i

theorem step_released (l : InodeLabel) (s t : Inodes) (h : s.Released) (hst : machine.step l s = some t) :
    t.Released ↔ Fine l s := by
  cases l with
  | create ino ty added =>
    obtain ⟨hfr, rfl⟩ : s.inUse ino = false ∧ s.create ino ty added = t := by simpa [machine, step] using hst
    rw [h.iff_at ino fun i hi => by simp [Inodes.create, live, hi]]
    -- It is in use now, so that it must have a link.
    simp only [Inodes.create, live, update_self, Fine]
    cases added <;> cases hty : decide (ty = .directory) <;> simp_all
  | link ino =>
    obtain ⟨⟨hlive, -⟩, rfl⟩ := by simpa [machine, step] using hst
    rw [h.iff_at ino fun i hi => by simp [live, hi]]
    simp [Fine]
  | new ino =>
    obtain ⟨hl, rfl⟩ := by simpa [machine, step] using hst
    rw [h.iff_at ino fun i hi => by simp [Inodes.new, live, hi]]
    -- A new node is for an inode that has a link.
    simp [Inodes.new, Fine, hl.ne']
  | unlink ino free =>
    obtain ⟨hl, rfl⟩ := by simpa [machine, step] using hst
    rw [h.iff_at ino fun i hi => by simp [Inodes.unlink, live, hi]]
    simp only [Inodes.unlink, live, update_self, Fine]
    by_cases hdir : s.kind ino = .directory
    · cases free <;> simp [hdir, hl]
    · have hlast : s.nlink ino - 1 = 0 ↔ s.nlink ino = 1 := by omega
      cases hu : s.inUse ino <;> simp [hdir, hl, hlast]
      tauto
  | dropSlot ino free =>
    obtain ⟨hs, rfl⟩ := by simpa [machine, step] using hst
    rw [h.iff_at ino fun i hi => by simp [Inodes.dropSlot, live, hi]]
    have hlast : s.slots ino - 1 + s.nodes ino = 0 ↔ s.slots ino = 1 ∧ s.slots ino + s.nodes ino = 1 := by omega
    simp only [Inodes.dropSlot, live, update_self, Fine, hlast]
    cases free <;> cases hu : s.inUse ino <;> simp <;> tauto
  | dropNode ino =>
    obtain ⟨hn, rfl⟩ := by simpa [machine, step] using hst
    rw [h.iff_at ino fun i hi => by simp [live, hi]]
    have hlast : s.slots ino + (s.nodes ino - 1) = 0 ↔ s.nodes ino = 1 ∧ s.slots ino + s.nodes ino = 1 := by omega
    simp only [live, update_self, Fine, hlast]
    tauto

/-- **Every inode without links and nodes is released** along a run from a state where this is so just if names can be
added and every step that leaves such an inode behind frees it. -/
theorem released_iff (labels : List InodeLabel) (h : s.Released) :
    machine.Always Released s labels ↔ machine.Meets Fine s labels := by
  refine Machine.always_iff_meets (fun _ h => h) (fun l s t h hfi hst => ?_) (fun l s t h hst => ?_) (fun l s hno => ?_)
    labels h
  · exact (step_released l s t h hst).mpr hfi
  · exact (step_released l s t h hst).mp
  · cases l <;> simp only [machine, step] at hno <;> grind [Fine]

/-- A disk without inodes. -/
def formatted : Inodes := ⟨fun _ => .regularFile, fun _ => false, fun _ => 0, fun _ => 0, fun _ => 0⟩

theorem released_iff_file :
    machine.Always Released formatted
      [.create 12 .regularFile true, .new 12, .unlink 12 true, .dropSlot 12 true] := by
  refine (released_iff _ fun _ _ _ => rfl).mpr ⟨fun _ _ => rfl, fun t ht => ?_⟩
  cases ht
  refine ⟨trivial, fun t ht => ?_⟩
  cases ht
  refine ⟨fun _ hno => absurd hno (by decide), fun t ht => ?_⟩
  cases ht
  exact ⟨fun _ _ _ _ => rfl, fun _ _ => trivial⟩

/-- A symbolic link is made, unlinked and forgotten. -/
theorem symlink_lost : (machine.run formatted [.create 12 .symlink true, .new 12, .unlink 12 true, .dropNode 12]).map
    (fun s => (s.nlink 12, s.live 12, s.inUse 12)) = some (0, 0, true) := by decide +kernel

end Inodes
end StarryX.Fs.Ext4
