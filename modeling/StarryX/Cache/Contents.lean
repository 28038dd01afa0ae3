import StarryX.Cache.Page
import StarryX.Library.Bytes

/-! Frames, the file they are pages of, and the chunks of a transfer.

A frame is the bytes of one page, and `window` cuts a page out of a file. A copy into a
frame is the store into the file, seen through the page's window; pages do not overlap. -/
namespace StarryX.Cache
open Library

abbrev Byte := UInt8

abbrev Frame := Fin pageSize → Byte

/-- The bytes of a file that belong to one page. -/
def window (bytes : Nat → Byte) (index : Nat) : Frame := fun b => bytes (index * pageSize + b)

/-- `Frame::write_bytes`. -/
def Frame.writeBytes (frame : Frame) (offset count : Nat) (source : Nat → Byte) : Frame := fun b =>
  if offset ≤ b ∧ b < offset + count then source (b - offset) else frame b

/-- `Frame::read_bytes`, one byte of it. -/
def Frame.readByte (frame : Frame) (offset : Nat) : Byte :=
  if h : offset < pageSize then frame ⟨offset, h⟩ else 0

/-- A transfer of `total` bytes at `offset`, of which `done` are through. The rest is cut
into `page_chunks`; the current chunk starts at `position`. -/
structure Span where
  offset : Nat
  total : Nat
  done : Nat
  deriving DecidableEq

namespace Span

def position (s : Span) : Nat := s.offset + s.done

def index (s : Span) : Nat := pageIndex s.position

def inPage (s : Span) : Nat := pageOffset s.position

def length (s : Span) : Nat := min (pageSize - s.inPage) (s.total - s.done)

def fullPage (s : Span) : Bool := s.inPage == 0 && s.length == pageSize

def advance (s : Span) : Span := {s with done := s.done + s.length}

end Span

/-- What `load_page` finds in the backing, read up to the sampled length. -/
def loadFrame (backing : Nat → Byte) (index length : Nat) : Frame := fun b =>
  if index * pageSize + b < length then backing (index * pageSize + b) else 0

/-- `write_snapshot` with a sampled length: the part of the page inside the file goes out. -/
def writeSnapshot (backing : Bytes Byte) (index length : Nat) (snapshot : Frame) : Bytes Byte :=
  let offset := index * pageSize
  if length ≤ offset then backing
  else backing.writeAt offset (min pageSize (length - offset)) snapshot.readByte

theorem window_eq_iff {f g : Nat → Byte} {k : Nat} :
    window f k = window g k ↔ ∀ b : Fin pageSize, f (k * pageSize + b) = g (k * pageSize + b) :=
  funext_iff

/-- A page that is loaded is a window of the file, if the file has nothing past the length. -/
theorem loadFrame_eq_window {backing file : Nat → Byte} {k length : Nat}
    (hins : ∀ b : Fin pageSize, backing (k * pageSize + b) = file (k * pageSize + b))
    (hpa : ∀ b : Fin pageSize, length ≤ k * pageSize + b → file (k * pageSize + b) = 0) :
    loadFrame backing k length = window file k := by
  funext b
  unfold loadFrame
  split
  · exact hins b
  · exact (hpa b (by omega)).symm

/-- The chunk of a transfer starts in its page and stays there. -/
theorem Span.chunk_bounds (s : Span) :
    s.position = s.index * pageSize + s.inPage ∧ s.inPage + s.length ≤ pageSize := by
  have hdiv := Nat.div_add_mod s.position pageSize
  have hmod := Nat.mod_lt s.position (show 0 < pageSize by decide)
  simp only [Span.inPage, Span.length, pageOffset]
  constructor
  · rw [Nat.mul_comm]
    exact hdiv.symm
  · omega

theorem Span.length_le (span : Span) : span.length ≤ span.total - span.done := Nat.min_le_right _ _

theorem Span.length_pos {span : Span} (h : span.done < span.total) : 0 < span.length := by
  have := Nat.mod_lt span.position (show 0 < pageSize by decide)
  simp only [Span.length, Span.inPage, pageOffset]
  omega

/-- The page that a length ends in reaches past it. -/
theorem page_tail (n b : Nat) : pageIndex n * pageSize + b < n ↔ b < pageOffset n := by
  simp only [pageIndex, pageOffset, pageSize]
  omega

/-- Any other page that starts below a length ends below it. -/
theorem page_below {k n : Nat} (hk : k * pageSize < n) (hne : k ≠ pageIndex n) (b : Fin pageSize) :
    k * pageSize + b < n := by
  have hle : k ≤ n / pageSize := (Nat.le_div_iff_mul_le (by decide)).mpr hk.le
  have hnx : (k + 1) * pageSize ≤ n :=
    (Nat.le_div_iff_mul_le (by decide)).mp (Nat.lt_of_le_of_ne hle hne)
  rw [Nat.succ_mul] at hnx
  exact (Nat.add_lt_add_left b.isLt _).trans_le hnx

theorem page_disjoint {k k' x : Nat} (hne : k' ≠ k) (b : Fin pageSize)
    (h : k * pageSize ≤ x ∧ x < k * pageSize + pageSize) : x ≠ k' * pageSize + b := by
  have hb := b.isLt
  simp only [pageSize] at h hb ⊢
  omega

/-- A store inside one page leaves the others. -/
theorem window_overlay_other {f g : Nat → Byte} {k k' start count : Nat} (hne : k' ≠ k)
    (hst : k * pageSize ≤ start) (hend : start + count ≤ k * pageSize + pageSize) :
    window (overlay f start count g) k' = window f k' := by
  refine window_eq_iff.mpr fun b => overlay_outside fun hin => ?_
  exact page_disjoint hne b ⟨by omega, by omega⟩ rfl

/-- A copy into a frame is the store in the file. -/
theorem window_overlay_same (f g : Nat → Byte) (k off count : Nat) :
    window (overlay f (k * pageSize + off) count g) k = (window f k).writeBytes off count g := by
  funext b
  simp only [window, overlay, Frame.writeBytes]
  by_cases h : off ≤ b.val ∧ b.val < off + count
  · rw [if_pos h, if_pos (by omega)]
    congr 1
    omega
  · rw [if_neg h, if_neg (by omega)]

theorem readByte_window (f : Nat → Byte) (k : Nat) {b : Nat} (hb : b < pageSize) :
    (window f k).readByte b = f (k * pageSize + b) := by
  simp [Frame.readByte, hb, window]

section Snapshot
variable {backing : Bytes Byte} {snapshot : Frame} {k n : Nat}

/-- Writing a snapshot out reaches no other page of the backing. -/
theorem writeSnapshot_other {k' : Nat} (hne : k' ≠ k) :
    window (writeSnapshot backing k n snapshot).get k' = window backing.get k' := by
  simp only [writeSnapshot]
  split
  · rfl
  · exact window_overlay_other hne le_rfl (by omega)

/-- Writing a snapshot out puts its part below the sampled length there and leaves the rest. -/
theorem writeSnapshot_same (b : Fin pageSize) :
    (writeSnapshot backing k n snapshot).get (k * pageSize + b) =
      if k * pageSize + b < n then snapshot b else backing.get (k * pageSize + b) := by
  simp only [writeSnapshot]
  by_cases hin : k * pageSize + b < n
  · rw [if_pos hin, if_neg (by omega)]
    refine (overlay_inside ⟨by omega, by omega⟩).trans ?_
    simp [Frame.readByte]
  · split
    · rfl
    · exact overlay_outside (by omega)

theorem writeSnapshot_size : (writeSnapshot backing k n snapshot).size ≤ max backing.size n := by
  simp only [writeSnapshot]
  split
  · omega
  · show max backing.size _ ≤ _
    omega

end Snapshot

end StarryX.Cache
