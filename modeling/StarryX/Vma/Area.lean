import StarryX.Library.SortedMap
import StarryX.Mm.AddressSpace

/-! Virtual memory areas.

An area says what the addresses of a range are for: the flags, whether stores stay local, and
where its pages come from. `locate` is what an area says of one address. Slicing an area, and
fusing two neighbours, keep what is said of every address: `checkedSlice_locate` and
`fuse_locate`. -/
namespace StarryX.Vma
open Library Mm

/-! ### Ranges of addresses -/

/-- `VirtAddrRange`: `new` refuses a start behind the end. -/
structure VirtAddrRange where
  start : Nat
  stop : Nat
  le : start ≤ stop
  deriving DecidableEq

namespace VirtAddrRange

def size (r : VirtAddrRange) : Nat := r.stop - r.start

def contains (r : VirtAddrRange) (address : Nat) : Bool := r.start ≤ address && address < r.stop

def containsRange (r other : VirtAddrRange) : Bool := r.start ≤ other.start && other.stop ≤ r.stop

def overlaps (r other : VirtAddrRange) : Bool := r.start < other.stop && other.start < r.stop

variable {r : VirtAddrRange}

theorem contains_iff {addr : Nat} : r.contains addr ↔ r.start ≤ addr ∧ addr < r.stop := by
  simp [contains]

variable {o : VirtAddrRange}

theorem containsRange_iff : r.containsRange o ↔ r.start ≤ o.start ∧ o.stop ≤ r.stop := by
  simp [containsRange]

theorem overlaps_iff : r.overlaps o ↔ r.start < o.stop ∧ o.start < r.stop := by
  simp [overlaps]

theorem overlaps_false_iff : r.overlaps o = false ↔ o.stop ≤ r.start ∨ r.stop ≤ o.start := by
  rw [← Bool.not_eq_true, overlaps_iff]
  omega

end VirtAddrRange

/-! ### Areas -/

/-- Where the pages of an area come from. An object is known by its id. -/
inductive Source where
  | zero
  | static (frames : StaticFrameRange)
  | object (id offset : Nat)

structure Backing where
  source : Source
  isPrivate : Bool

structure VmArea where
  range : VirtAddrRange
  flags : MappingFlags
  pageSize : PageSize
  backing : Backing

namespace Backing

def shifted (backing : Backing) (delta size : Nat) : Option Backing :=
  match backing.source with
  | .zero => some {backing with source := .zero}
  | .static frames =>
    match frames.subrange delta size with
    | .ok frames => some {backing with source := .static frames}
    | .error _ => none
  | .object id offset =>
    if offset + delta < 2 ^ 64 then some {backing with source := .object id (offset + delta)} else none

def canMerge (backing next : Backing) (leftSize : Nat) : Bool :=
  if backing.isPrivate != next.isPrivate then false
  else
    match backing.source, next.source with
    | .zero, .zero => true
    | .object left leftOffset, .object right rightOffset =>
      left == right && decide (leftOffset + leftSize < 2 ^ 64) && leftOffset + leftSize == rightOffset
    | _, _ => false

/-- The object, and the offset in it. -/
def objectAt (backing : Backing) (delta : Nat) : Option (Nat × Nat) :=
  match backing.source with
  | .object id offset => if offset + delta < 2 ^ 64 then some (offset + delta, id) else none
  | _ => none

end Backing

namespace VmArea

/-- The part of a range that the area covers. -/
def overlapWith (area : VmArea) (range : VirtAddrRange) (h : area.range.overlaps range = true) : VirtAddrRange where
  start := max area.range.start range.start
  stop := min area.range.stop range.stop
  le := by
    have := VirtAddrRange.overlaps_iff.mp h
    have := area.range.le
    have := range.le
    omega

def checkedSlice (area : VmArea) (range : VirtAddrRange) (flags : MappingFlags) : Option VmArea :=
  if area.range.containsRange range && range.start % area.pageSize.bytes == 0 &&
      range.size % area.pageSize.bytes == 0 then
    (area.backing.shifted (range.start - area.range.start) range.size).map fun backing =>
      ⟨range, flags, area.pageSize, backing⟩
  else none

def canMerge (left right : VmArea) : Bool :=
  if left.range.stop != right.range.start || left.flags != right.flags || left.pageSize != right.pageSize then false
  else left.backing.canMerge right.backing left.range.size

/-- The left one of two neighbours, with the range of both. -/
def fuse (left right : VmArea) (h : left.canMerge right = true) : VmArea :=
  {left with
    range.start := left.range.start
    range.stop := right.range.stop
    range.le := by
      have hmeet : left.range.stop = right.range.start := by
        unfold canMerge at h
        split at h
        · cases h
        · simp_all
      have := left.range.le
      have := right.range.le
      omega}

end VmArea

/-! ### What an area says of an address -/

/-- A place in a source. -/
inductive Origin where
  | zero
  | static (physical : Nat) (allowed : MappingFlags)
  | object (id offset : Nat)

structure Location where
  flags : MappingFlags
  isPrivate : Bool
  pageSize : PageSize
  origin : Origin

def Source.at (source : Source) (delta : Nat) : Origin :=
  match source with
  | .zero => .zero
  | .static frames => .static (frames.start + delta) frames.allowedFlags
  | .object id offset => .object id (offset + delta)

namespace VmArea

def locate (area : VmArea) (address : Nat) : Location :=
  ⟨area.flags, area.backing.isPrivate, area.pageSize, area.backing.source.at (address - area.range.start)⟩

end VmArea

/-- A shifted source says of an address what it said before. -/
theorem Backing.shifted_at {backing next : Backing} {delta size : Nat} (h : backing.shifted delta size = some next)
    (rest : Nat) : next.isPrivate = backing.isPrivate ∧ next.source.at rest = backing.source.at (delta + rest) := by
  unfold Backing.shifted at h
  split at h
  next hsrc =>
    cases h
    exact ⟨rfl, by rw [hsrc]; rfl⟩
  next frames hsrc =>
    split at h
    next part hpt =>
      cases h
      unfold StaticFrameRange.subrange at hpt
      split at hpt
      · rw [← Except.ok.inj hpt, hsrc]
        simp [Source.at, Nat.add_assoc]
      · cases hpt
    · cases h
  next id offset hsrc =>
    split at h
    · cases h
      rw [hsrc]
      simp [Source.at, Nat.add_assoc]
    · cases h

namespace VmArea

variable {range : VirtAddrRange} {flags : MappingFlags}

theorem checkedSlice_eq {a slice : VmArea} (h : a.checkedSlice range flags = some slice) :
    a.range.start ≤ range.start ∧ range.stop ≤ a.range.stop ∧ range.start % a.pageSize.bytes = 0 ∧
      range.size % a.pageSize.bytes = 0 ∧ slice.range = range ∧ slice.flags = flags ∧
      slice.pageSize = a.pageSize ∧
      a.backing.shifted (range.start - a.range.start) range.size = some slice.backing := by
  unfold checkedSlice at h
  split at h
  next hins =>
    simp only [Bool.and_eq_true, beq_iff_eq, VirtAddrRange.containsRange_iff] at hins
    obtain ⟨backing, hb, rfl⟩ := Option.map_eq_some_iff.mp h
    exact ⟨hins.1.1.1, hins.1.1.2, hins.1.2, hins.2, rfl, rfl, rfl, hb⟩
  · cases h

/-- A slice says of its addresses what the area said, with its own flags. -/
theorem checkedSlice_locate {a slice : VmArea}
    (h : a.checkedSlice range flags = some slice) {addr : Nat} (ha : range.start ≤ addr) :
    slice.locate addr = {a.locate addr with flags := flags} := by
  obtain ⟨hst, -, -, -, hra, hf, hz, hsh⟩ := checkedSlice_eq h
  obtain ⟨hp, hat⟩ := Backing.shifted_at hsh (addr - range.start)
  have hde : range.start - a.range.start + (addr - range.start) = addr - a.range.start := by omega
  unfold locate
  rw [hra, hf, hz, hp, hat, hde]

theorem canMerge_eq {left right : VmArea} (h : left.canMerge right) :
    left.range.stop = right.range.start ∧ left.flags = right.flags ∧ left.pageSize = right.pageSize ∧
      left.backing.canMerge right.backing left.range.size := by
  unfold canMerge at h
  split at h
  · cases h
  next heq =>
    simp only [Bool.or_eq_true, bne_iff_ne, not_or, not_not] at heq
    exact ⟨heq.1.1, heq.1.2, heq.2, h⟩

end VmArea

theorem Backing.canMerge_at {left right : Backing} {size : Nat} (h : left.canMerge right size) (rest : Nat) :
    left.isPrivate = right.isPrivate ∧ left.source.at (size + rest) = right.source.at rest := by
  unfold Backing.canMerge at h
  split at h
  · cases h
  next hp =>
    simp only [bne_iff_ne, not_not] at hp
    refine ⟨hp, ?_⟩
    split at h
    next hlt hr =>
      rw [hlt, hr]
      rfl
    next id offset id' offset' hlt hr =>
      simp only [Bool.and_eq_true, beq_iff_eq] at h
      rw [hlt, hr, h.1.1, ← h.2]
      simp [Source.at, Nat.add_assoc]
    · cases h

namespace VmArea

/-- A fused area says of every address what the one of the two did that had it. -/
theorem fuse_locate {left right : VmArea} (h : left.canMerge right) (addr : Nat) :
    (left.fuse right h).locate addr =
      if addr < right.range.start then left.locate addr else right.locate addr := by
  obtain ⟨hme, hf, hz, hb⟩ := canMerge_eq h
  have hle := left.range.le
  split
  · rfl
  · have hde : addr - left.range.start = left.range.size + (addr - right.range.start) := by
      unfold VirtAddrRange.size
      omega
    obtain ⟨hp, hat⟩ := Backing.canMerge_at hb (addr - right.range.start)
    show (⟨left.flags, left.backing.isPrivate, left.pageSize,
      left.backing.source.at (addr - left.range.start)⟩ : Location) = _
    rw [hde, hat, hf, hp, hz]
    rfl

end VmArea

end StarryX.Vma
