import Mathlib.Data.UInt

/-! Finite strings with a zero tail.

A `Bytes α` is a length and its cells, with zero past the length, so that two of them are
equal exactly if they have the same length and the same cells. Storing past the end fills
the gap with zeros; cutting and extending by `setLen` reads as zero afterwards. `overlay` is
the store on bare functions, for parts of a string that are held elsewhere. -/
namespace StarryX.Library
variable {α : Type}

/-- `count` cells of `source` laid over `base` from `start` on. -/
def overlay (base : Nat → α) (start count : Nat) (source : Nat → α) : Nat → α := fun i =>
  if start ≤ i ∧ i < start + count then source (i - start) else base i

theorem overlay_inside {base src : Nat → α} {start count i : Nat} (h : start ≤ i ∧ i < start + count) :
    overlay base start count src i = src (i - start) :=
  if_pos h

theorem overlay_outside {base src : Nat → α} {start count i : Nat}
    (h : ¬(start ≤ i ∧ i < start + count)) : overlay base start count src i = base i :=
  if_neg h

theorem overlay_zero (base src : Nat → α) (start : Nat) : overlay base start 0 src = base := by
  funext i
  exact overlay_outside (by omega)

/-- Laying on a second piece right after the first. -/
theorem overlay_append (base src : Nat → α) (start count more : Nat) :
    overlay (overlay base start count src) (start + count) more (fun j => src (count + j)) =
      overlay base start (count + more) src := by
  funext i
  simp only [overlay]
  by_cases hsecond : start + count ≤ i ∧ i < start + count + more
  · rw [if_pos hsecond, if_pos (by omega)]
    congr 1
    omega
  · rw [if_neg hsecond]
    by_cases hfi : start ≤ i ∧ i < start + count
    · rw [if_pos hfi, if_pos (by omega)]
    · rw [if_neg hfi, if_neg (by omega)]

structure Bytes (α : Type) [Zero α] where
  size : Nat
  get : Nat → α
  beyond : ∀ i, size ≤ i → get i = 0

namespace Bytes
variable [Zero α]

@[ext]
theorem ext {a b : Bytes α} (hsi : a.size = b.size) (hget : ∀ i, a.get i = b.get i) : a = b := by
  cases a
  cases b
  obtain rfl : _ = _ := hsi
  obtain rfl : _ = _ := funext hget
  rfl

def empty : Bytes α := ⟨0, fun _ => 0, fun _ _ => rfl⟩

/-- `size` cells that all hold `value`. -/
def fill (size : Nat) (value : α) : Bytes α where
  size := size
  get := fun i => if i < size then value else 0
  beyond := fun _ h => if_neg (Nat.not_lt.mpr h)

/-- Stores `count` cells of `source` from `start` on and extends the string to hold them. -/
def writeAt (b : Bytes α) (start count : Nat) (source : Nat → α) : Bytes α where
  size := max b.size (start + count)
  get := overlay b.get start count source
  beyond := fun i h => by
    rw [overlay_outside (by omega)]
    exact b.beyond i (by omega)

/-- Cuts the string to `size`, or extends it with zeros. -/
def setLen (b : Bytes α) (size : Nat) : Bytes α where
  size := size
  get := fun i => if i < size then b.get i else 0
  beyond := fun _ h => if_neg (Nat.not_lt.mpr h)

/-- What is there of the `count` cells from `start` on. -/
def readAt (b : Bytes α) (start count : Nat) : Bytes α where
  size := min count (b.size - start)
  get := fun i => if i < min count (b.size - start) then b.get (start + i) else 0
  beyond := fun _ h => if_neg (Nat.not_lt.mpr h)

/-- Extending a string changes no cell. -/
theorem setLen_get {b : Bytes α} {size : Nat} (h : b.size ≤ size) (i : Nat) :
    (b.setLen size).get i = b.get i := by
  show (if i < size then b.get i else 0) = b.get i
  split
  · rfl
  · exact (b.beyond i (by omega)).symm

end Bytes

end StarryX.Library
