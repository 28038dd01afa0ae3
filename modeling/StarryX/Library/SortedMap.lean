import Mathlib.Data.List.Pairwise
import Mathlib.Data.UInt

/-! Finite maps kept as lists in the order of their keys.

The list of a `SortedMap` is what an in-order walk over a search tree yields, so code that
walks a tree, or a range of it, is modelled by code on `entries`. Each operation has one
lemma that says what `get?` finds afterwards; `mem_entries` goes back to the walk. -/
namespace StarryX.Library
open List (mem_cons pairwise_cons)

structure SortedMap (α : Type) where
  entries : List (Nat × α)
  sorted : entries.Pairwise fun a b => a.1 < b.1

namespace SortedMap
variable {α : Type}

def empty : SortedMap α := ⟨[], .nil⟩

def get? (m : SortedMap α) (k : Nat) : Option α := (m.entries.find? fun e => e.1 == k).map (·.2)

/-- Keys are unique. -/
theorem key_unique (m : SortedMap α) {a b : Nat × α} (ha : a ∈ m.entries) (hb : b ∈ m.entries)
    (h : a.1 = b.1) : a = b := by
  have : Std.Symm fun a b : Nat × α => a.1 ≠ b.1 := ⟨fun _ _ h => h.symm⟩
  by_contra hne
  exact (m.sorted.imp fun h => h.ne).forall ha hb hne h

variable {k : Nat} {m : SortedMap α} {v : α} {l : List (Nat × α)} (weight : α → Nat)

/-- What is found is what the walk meets. -/
theorem get?_eq_some : m.get? k = some v ↔ (k, v) ∈ m.entries := by
  unfold get?
  constructor
  · intro h
    obtain ⟨e, he, rfl⟩ := Option.map_eq_some_iff.mp h
    have hkey : e.1 = k := by simpa using List.find?_some he
    rw [← hkey]
    exact List.mem_of_find?_eq_some he
  · intro h
    cases hfd : m.entries.find? fun e => e.1 == k with
    | none => exact absurd (List.find?_eq_none.mp hfd _ h) (by simp)
    | some e =>
      have hkey : e.1 = k := by simpa using List.find?_some hfd
      have he := m.key_unique (List.mem_of_find?_eq_some hfd) h hkey
      rw [Option.map_some, he]

theorem get?_eq_none : m.get? k = none ↔ ∀ v, (k, v) ∉ m.entries := by
  rw [Option.eq_none_iff_forall_ne_some]
  exact forall_congr' fun v => not_congr get?_eq_some

/-! ### Filtering -/

def filter (m : SortedMap α) (p : Nat → α → Bool) : SortedMap α :=
  ⟨m.entries.filter fun e => p e.1 e.2, m.sorted.filter _⟩

theorem get?_filter (m : SortedMap α) (p : Nat → α → Bool) (k : Nat) :
    (m.filter p).get? k = (m.get? k).filter (p k) := by
  ext v
  rw [get?_eq_some, Option.filter_eq_some_iff, get?_eq_some]
  exact List.mem_filter

def erase (m : SortedMap α) (k : Nat) : SortedMap α := m.filter fun k' _ => k' != k

theorem get?_erase (m : SortedMap α) (k k' : Nat) :
    (m.erase k).get? k' = if k' = k then none else m.get? k' := by
  rw [erase, get?_filter]
  by_cases h : k' = k
  · cases m.get? k' <;> simp [h]
  · cases m.get? k' <;> simp [h]

/-! ### Changing values in place -/

def modify (m : SortedMap α) (k : Nat) (f : α → α) : SortedMap α where
  entries := m.entries.map fun e => (e.1, if e.1 = k then f e.2 else e.2)
  sorted := m.sorted.map _ fun _ _ h => h

theorem get?_modify (m : SortedMap α) (k : Nat) (f : α → α) (k' : Nat) :
    (m.modify k f).get? k' = if k' = k then (m.get? k').map f else m.get? k' := by
  have hfd : (m.modify k f).get? k' =
      (m.entries.find? fun e => e.1 == k').map fun e => if e.1 = k then f e.2 else e.2 := by
    unfold get? modify
    rw [List.find?_map, Option.map_map]
    rfl
  rw [hfd]
  unfold get?
  cases he : m.entries.find? fun e => e.1 == k' with
  | none => simp
  | some e =>
    have hkey : e.1 = k' := by simpa using List.find?_some he
    subst hkey
    by_cases h : e.1 = k
    · simp [h]
    · simp [h]

/-! ### Inserting -/

def insertEntry (k : Nat) (v : α) : List (Nat × α) → List (Nat × α)
  | [] => [(k, v)]
  | e :: rest =>
    if k < e.1 then (k, v) :: e :: rest
    else if k = e.1 then (k, v) :: rest
    else e :: insertEntry k v rest

theorem mem_insertEntry (hl : l.Pairwise fun a b => a.1 < b.1) {e : Nat × α} :
    e ∈ insertEntry k v l ↔ e = (k, v) ∨ e ∈ l ∧ e.1 ≠ k := by
  induction l with
  | nil => simp [insertEntry]
  | cons a rest ih =>
    obtain ⟨hhd, hrs⟩ := pairwise_cons.mp hl
    unfold insertEntry
    split
    next hlt =>
      have hall : ∀ b ∈ a :: rest, b.1 ≠ k := by
        intro b hb
        obtain rfl | hb := mem_cons.mp hb
        · omega
        · have := hhd b hb
          omega
      rw [mem_cons]
      exact or_congr_right ⟨fun h => ⟨h, hall e h⟩, And.left⟩
    · split_ifs with heq
      · subst heq
        have hall : ∀ b ∈ rest, b.1 ≠ a.1 := fun b hb => (hhd b hb).ne.symm
        rw [mem_cons]
        refine or_congr_right ⟨fun h => ⟨.tail _ h, hall e h⟩, fun h => ?_⟩
        obtain rfl | hr := mem_cons.mp h.1
        · exact absurd rfl h.2
        · exact hr
      · rw [mem_cons, ih hrs, mem_cons]
        constructor
        · rintro (rfl | rfl | ⟨hr, hk⟩)
          · exact .inr ⟨.inl rfl, .symm heq⟩
          · exact .inl rfl
          · exact .inr ⟨.inr hr, hk⟩
        · rintro (rfl | ⟨rfl | hr, hk⟩)
          · exact .inr (.inl rfl)
          · exact .inl rfl
          · exact .inr (.inr ⟨hr, hk⟩)

theorem insertEntry_sorted (k : Nat) (v : α) (hl : l.Pairwise fun a b => a.1 < b.1) :
    (insertEntry k v l).Pairwise fun a b => a.1 < b.1 := by
  induction l with
  | nil => simp [insertEntry]
  | cons a rest ih =>
    obtain ⟨hhd, hrs⟩ := pairwise_cons.mp hl
    unfold insertEntry
    split
    next hlt =>
      refine pairwise_cons.mpr ⟨fun b hb => ?_, hl⟩
      obtain rfl | hb := mem_cons.mp hb
      · exact hlt
      · exact Nat.lt_trans hlt (hhd b hb)
    · split
      next heq =>
        subst heq
        exact pairwise_cons.mpr ⟨hhd, hrs⟩
      next hnlt hne =>
        refine pairwise_cons.mpr ⟨fun b hb => ?_, ih hrs⟩
        obtain rfl | ⟨hb, -⟩ := (mem_insertEntry hrs).mp hb
        · exact Nat.lt_of_le_of_ne (not_lt.mp hnlt) (Ne.symm hne)
        · exact hhd b hb

def insert (m : SortedMap α) (k : Nat) (v : α) : SortedMap α :=
  ⟨insertEntry k v m.entries, insertEntry_sorted k v m.sorted⟩

theorem get?_insert (m : SortedMap α) (k : Nat) (v : α) (k' : Nat) :
    (m.insert k v).get? k' = if k' = k then some v else m.get? k' := by
  ext w
  rw [get?_eq_some]
  refine (mem_insertEntry m.sorted).trans ?_
  by_cases h : k' = k
  · subst h
    simp [eq_comm]
  · simp [h, get?_eq_some]

/-! ### Sums over the values -/

/-- The sum of a weight over all values. -/
def total (m : SortedMap α) (weight : α → Nat) : Nat := (m.entries.map fun e => weight e.2).sum

theorem total_filter_add (m : SortedMap α) (p : Nat → α → Bool) (weight : α → Nat) :
    (m.filter p).total weight + (m.filter fun k v => !p k v).total weight = m.total weight := by
  simp only [total, filter]
  induction m.entries with
  | nil => rfl
  | cons e rest ih =>
    cases hp : p e.1 e.2 with
    | true =>
      simp only [List.filter_cons, hp, Bool.not_true, Bool.false_eq_true, if_true, if_false, List.map_cons,
        List.sum_cons]
      omega
    | false =>
      simp only [List.filter_cons, hp, Bool.not_false, Bool.false_eq_true, if_true, if_false, List.map_cons,
        List.sum_cons]
      omega

theorem total_congr {f g : α → Nat} (h : ∀ k v, m.get? k = some v → f v = g v) : m.total f = m.total g := by
  unfold total
  congr 1
  exact List.map_congr_left fun e he => h e.1 e.2 (get?_eq_some.mpr he)

/-- Maps that find the same are the same. -/
theorem ext_get? {n : SortedMap α} (h : ∀ k, m.get? k = n.get? k) : m = n := by
  have hmem : ∀ e, e ∈ m.entries ↔ e ∈ n.entries := by
    intro e
    rw [← get?_eq_some, ← get?_eq_some, h]
  cases m
  cases n
  congr 1
  exact List.Pairwise.eq_of_mem_iff ‹_› ‹_› hmem

theorem modify_modify (m : SortedMap α) (k : Nat) (f g : α → α) :
    (m.modify k f).modify k g = m.modify k fun v => g (f v) := by
  apply ext_get?
  intro k'
  rw [get?_modify, get?_modify, get?_modify]
  by_cases hk : k' = k
  · rw [if_pos hk, if_pos hk, if_pos hk, Option.map_map]
    rfl
  · rw [if_neg hk, if_neg hk, if_neg hk]

/-- A key that is there counts once. -/
theorem total_filter_key (h : m.get? k = some v) :
    (m.filter fun k' _ => !(k' != k)).total weight = weight v := by
  have hone : (m.filter fun k' _ => !(k' != k)) = ⟨[(k, v)], List.pairwise_singleton _ _⟩ := by
    apply ext_get?
    intro k'
    have hri : (⟨[(k, v)], List.pairwise_singleton _ _⟩ : SortedMap α).get? k' =
        if k' = k then some v else none := by
      by_cases hk : k' = k
      · simp [get?, hk]
      · simp [get?, hk, Ne.symm hk]
    rw [get?_filter, hri]
    by_cases hk : k' = k
    · rw [hk, h]
      simp
    · cases m.get? k' <;> simp [hk]
  rw [hone]
  simp [total]

theorem total_erase (h : m.get? k = some v) :
    (m.erase k).total weight + weight v = m.total weight := by
  rw [← total_filter_add m (fun k' _ => k' != k) weight, total_filter_key weight h]
  rfl

theorem total_erase_absent (h : m.get? k = none) : (m.erase k).total weight = m.total weight := by
  congr 1
  apply ext_get?
  intro k'
  rw [get?_erase]
  by_cases hk : k' = k
  · rw [if_pos hk, hk, h]
  · rw [if_neg hk]

theorem total_modify (f : α → α) (weight : α → Nat) (h : m.get? k = some v) :
    (m.modify k f).total weight + weight v = m.total weight + weight (f v) := by
  have hth : (m.modify k f).get? k = some (f v) := by
    rw [get?_modify, if_pos rfl, h]
    rfl
  have hrs : (m.modify k f).erase k = m.erase k := by
    apply ext_get?
    intro k'
    rw [get?_erase, get?_erase, get?_modify]
    by_cases hk : k' = k
    · rw [if_pos hk, if_pos hk]
    · rw [if_neg hk, if_neg hk, if_neg hk]
  have hnew := total_erase weight hth
  have hold := total_erase weight h
  rw [hrs] at hnew
  omega

theorem total_insert (v : α) (weight : α → Nat) (h : m.get? k = none) :
    (m.insert k v).total weight = m.total weight + weight v := by
  have hrs : (m.insert k v).erase k = m.erase k := by
    apply ext_get?
    intro k'
    rw [get?_erase, get?_erase, get?_insert]
    by_cases hk : k' = k
    · rw [if_pos hk, if_pos hk]
    · rw [if_neg hk, if_neg hk, if_neg hk]
  have hnew := total_erase weight ((get?_insert m k v k).trans (if_pos rfl))
  rw [hrs, total_erase_absent weight h] at hnew
  omega

end SortedMap

end StarryX.Library
