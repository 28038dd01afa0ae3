import StarryX.Errno

/-! Names and paths, and the moves that `rename` refuses.

In one mount a directory entry is known by its path, and its parent by the path without the last
name. `Location::rename` walks up from the destination and refuses the move if it meets the
directory that holds the source. What it should look for is the source itself: `refused_right_iff`
says which moves are treated right all the same. -/
namespace StarryX.Fs

/-! ### Names -/

/-- Compared byte by byte. -/
abbrev Str := List UInt8

def dot : Str := [0x2e]
def dotdot : Str := [0x2e, 0x2e]
def maxNameLen : Nat := 255

def verifyEntryName (name : Str) : LinuxResult Unit :=
  if name = dot ∨ name = dotdot then .error .einval
  else if maxNameLen < name.length then .error .enametoolong
  else .ok ()

def legal (name : Str) : Bool := (verifyEntryName name).isOk

theorem legal_ne {n : Str} (h : legal n) : n ≠ dot ∧ n ≠ dotdot := by
  unfold legal verifyEntryName at h
  split at h
  · cases h
  next hdo =>
    exact not_or.mp hdo

/-! ### Entries of one mount -/

/-- The names from an entry up to the root of the mount. -/
abbrev Path := List Str

inductive NodeType where
  | directory
  | other
  deriving DecidableEq

/-- What is at a path. Only directories have something below them. -/
structure Tree where
  kind : Path → Option NodeType
  root : kind [] = some .directory
  closed : ∀ name path, (kind (name :: path)).isSome → kind path = some .directory

/-- The walk from an entry to the root. -/
def isAncestorOf (self : Path) : Path → Bool
  | [] => [] == self
  | name :: parent => name :: parent == self || isAncestorOf self parent

structure Location where
  mountpoint : Nat
  entry : Path
  deriving DecidableEq

namespace Location

def asDir (t : Tree) (location : Location) : LinuxResult Path :=
  if t.kind location.entry = some .directory then .ok location.entry else .error .enotdir

/-- `dirRename` is the rename of the directory node. -/
def rename (t : Tree) (dirRename : Path → Str → Path → Str → LinuxResult Unit) (self : Location) (srcName : Str)
    (dstDir : Location) (dstName : Str) : LinuxResult Unit :=
  if self.mountpoint ≠ dstDir.mountpoint then .error .exdev
  else if self ≠ dstDir ∧ isAncestorOf self.entry dstDir.entry then .error .einval
  else do
    let src ← self.asDir t
    let dst ← dstDir.asDir t
    dirRename src srcName dst dstName

end Location

/-! ### Moves -/

/-- An entry, and a directory to move it to. -/
structure Move (t : Tree) where
  mountpoint : Nat
  srcDir : Path
  srcName : Str
  dstDir : Path
  dstName : Str
  src : (t.kind (srcName :: srcDir)).isSome
  dst : t.kind dstDir = some .directory

namespace Move
variable {t : Tree}

def source (m : Move t) : Path := m.srcName :: m.srcDir

def rename (m : Move t) (dirRename : Path → Str → Path → Str → LinuxResult Unit) : LinuxResult Unit :=
  Location.rename t dirRename ⟨m.mountpoint, m.srcDir⟩ m.srcName ⟨m.mountpoint, m.dstDir⟩ m.dstName

/-- The move fails with `EINVAL` whatever the directories say to it. -/
def Refused (m : Move t) : Prop := ∀ dirRename, m.rename dirRename = .error .einval

/-- The source is a directory, and the destination is that directory or below it. -/
def IntoItself (m : Move t) : Prop := t.kind m.source = some .directory ∧ m.source <:+ m.dstDir

end Move

theorem isAncestorOf_iff (self o : Path) : isAncestorOf self o ↔ self <:+ o := by
  induction o with
  | nil =>
    rw [isAncestorOf, beq_iff_eq, List.suffix_nil]
    exact eq_comm
  | cons n p ih =>
    rw [isAncestorOf, Bool.or_eq_true, beq_iff_eq, ih, List.suffix_cons_iff]
    exact or_congr_left eq_comm

/-- What is above a directory, or is one, is a directory. -/
theorem Tree.kind_suffix (t : Tree) {above below : Path} (h : above <:+ below) (hb : t.kind below = some .directory) :
    t.kind above = some .directory := by
  induction below with
  | nil =>
    rw [List.suffix_nil.mp h]
    exact hb
  | cons n p ih =>
    obtain rfl | hpar := List.suffix_cons_iff.mp h
    · exact hb
    · exact ih hpar (t.closed n p (by simp [hb]))

namespace Move
variable {t : Tree} (m : Move t)

theorem intoItself_iff : m.IntoItself ↔ m.source <:+ m.dstDir :=
  and_iff_right_of_imp fun h => t.kind_suffix h m.dst

/-- Just the moves out of a directory into one below it are refused. -/
theorem refused_iff : m.Refused ↔ m.srcDir ≠ m.dstDir ∧ m.srcDir <:+ m.dstDir := by
  have hsrc : t.kind m.srcDir = some .directory := t.closed m.srcName m.srcDir m.src
  have hre : ∀ dirRename, m.rename dirRename = if m.srcDir ≠ m.dstDir ∧ m.srcDir <:+ m.dstDir then .error .einval
      else dirRename m.srcDir m.srcName m.dstDir m.dstName := by
    intro dirRename
    simp only [rename, Location.rename, Location.asDir, hsrc, m.dst, isAncestorOf_iff, ne_eq, Location.mk.injEq, true_and]
    rfl
  constructor
  · intro href
    by_contra hpa
    have hans := href fun _ _ _ _ => .ok ()
    rw [hre, if_neg hpa] at hans
    cases hans
  · intro href dirRename
    rw [hre, if_pos href]

/-- **The moves that are refused as they should be are those into the source itself or below it, and
those that do not go from a directory into one below it.** -/
theorem refused_right_iff :
    (m.Refused ↔ m.IntoItself) ↔ m.source <:+ m.dstDir ∨ ¬ (m.srcDir ≠ m.dstDir ∧ m.srcDir <:+ m.dstDir) := by
  rw [refused_iff, intoItself_iff]
  have hinto : m.source <:+ m.dstDir → m.srcDir ≠ m.dstDir ∧ m.srcDir <:+ m.dstDir := by
    intro h
    refine ⟨fun hsame => ?_, (List.suffix_cons _ _).trans h⟩
    have hlen := h.length_le
    rw [← hsame] at hlen
    exact absurd hlen (by simp [source])
  tauto

end Move

/-- Root, with a directory and a file in it. -/
def twoEntries : Tree where
  kind
    | [] => some .directory
    | [name] => if name = [0x64] then some .directory else if name = [0x66] then some .other else none
    | _ => none
  root := rfl
  closed := by
    intro name path h
    match path with
    | [] => rfl
    | _ :: _ => cases h

/-- `rename("/f", "/d/f")`. -/
def fileIntoSubdirectory : Move twoEntries := ⟨0, [], [0x66], [[0x64]], [0x66], rfl, rfl⟩

/-- A file that is moved into a directory beside it. -/
theorem refused_wrong : fileIntoSubdirectory.Refused ∧ ¬ fileIntoSubdirectory.IntoItself := by
  rw [Move.refused_iff, Move.intoItself_iff]
  decide

end StarryX.Fs
