import Mathlib.Data.List.Pairwise
import Mathlib.Data.UInt

/-! B-trees, and what a search in one finds.

A node is written as the scan over it: at each key a search ends, goes down to the left of the key,
or goes on in the node. Heights and numbers of keys are part of the type, so that what is not
balanced or not filled cannot be written. How the entries are spread over nodes is left open.

A search is given by a `probe`, which says how what is searched compares to a key. `find_eq` is for a
probe that fits the order of the entries: then the spread does not matter. `find_eq_scan` is for one
that may not: while the search stays with the first entries it is a walk over them. -/
namespace StarryX.Library
open List (mem_cons pairwise_cons)

def minLen : Nat := 5
def capacity : Nat := 11

/-- A node of some height, from a key on, and the number of keys from there. -/
inductive BNode (κ α : Type) : Nat → Nat → Type
  | nil : BNode κ α 0 0
  | leaf {n : Nat} (key : κ) (value : α) (rest : BNode κ α 0 n) : BNode κ α 0 (n + 1)
  | last {h n : Nat} (child : BNode κ α h n) (filled : minLen ≤ n ∧ n ≤ capacity) : BNode κ α (h + 1) 0
  | node {h m n : Nat} (child : BNode κ α h m) (filled : minLen ≤ m ∧ m ≤ capacity) (key : κ) (value : α)
    (rest : BNode κ α (h + 1) n) : BNode κ α (h + 1) (n + 1)

structure BTree (κ α : Type) where
  height : Nat
  len : Nat
  root : BNode κ α height len
  filled : len ≤ capacity ∧ (0 < height → 0 < len)

variable {κ α : Type}

namespace BNode

def toList {h n : Nat} : BNode κ α h n → List (κ × α)
  | .nil => []
  | .leaf key value rest => (key, value) :: rest.toList
  | .last child _ => child.toList
  | .node child _ key value rest => child.toList ++ (key, value) :: rest.toList

def find (probe : κ → Ordering) {h n : Nat} : BNode κ α h n → Option α
  | .nil => none
  | .leaf key value rest =>
    match probe key with
    | .lt => none
    | .eq => some value
    | .gt => rest.find probe
  | .last child _ => child.find probe
  | .node child _ key value rest =>
    match probe key with
    | .lt => child.find probe
    | .eq => some value
    | .gt => rest.find probe

theorem le_length_toList {h n : Nat} (t : BNode κ α h n) : n ≤ t.toList.length := by
  induction t with
  | nil => exact le_rfl
  | leaf key value rest ih => simpa [toList] using ih
  | last child filled ih => exact Nat.zero_le _
  | node child filled key value rest ihchild ih =>
    simp only [toList, List.length_append, List.length_cons]
    omega

end BNode

/-! ### Searches that fit -/

/-- What is searched is after some of the entries, and before all that follow the first it is not after. -/
def Fits (probe : κ → Ordering) (entries : List (κ × α)) : Prop :=
  entries.Pairwise fun a b => probe a.1 ≠ .gt → probe b.1 = .lt

def firstEq (probe : κ → Ordering) (entries : List (κ × α)) : Option α :=
  (entries.find? fun e => probe e.1 == .eq).map (·.2)

section Fits
variable {probe : κ → Ordering} {es : List (κ × α)}

theorem firstEq_append (pre post : List (κ × α)) :
    firstEq probe (pre ++ post) = (firstEq probe pre).or (firstEq probe post) := by
  simp only [firstEq, List.find?_append]
  cases pre.find? fun e => probe e.1 == .eq <;> rfl

theorem firstEq_eq_none (h : ∀ e ∈ es, probe e.1 ≠ .eq) : firstEq probe es = none := by
  simpa [firstEq] using h

theorem firstEq_cons (key : κ) (value : α) (rest : List (κ × α)) :
    firstEq probe ((key, value) :: rest) = if probe key = .eq then some value else firstEq probe rest := by
  by_cases heq : probe key = .eq
  · simp [firstEq, heq]
  · simp [firstEq, heq]

theorem BNode.find_eq {h n : Nat} (t : BNode κ α h n) (hfit : Fits probe t.toList) :
    t.find probe = firstEq probe t.toList := by
  induction t with
  | nil => rfl
  | leaf key value rest ih =>
    obtain ⟨hhd, hr⟩ := pairwise_cons.mp hfit
    rw [find, toList, firstEq_cons]
    cases hkey : probe key with
    | lt =>
      rw [if_neg (by simp), firstEq_eq_none]
      intro e he
      simp [hhd e he (by simp [hkey])]
    | eq => rw [if_pos rfl]
    | gt => rw [if_neg (by simp), ih hr]
  | last child filled ih => exact ih hfit
  | node child filled key value rest ihchild ih =>
    obtain ⟨hc, hla, hac⟩ := List.pairwise_append.mp hfit
    obtain ⟨hhd, hr⟩ := pairwise_cons.mp hla
    -- What is not before the key is after everything below it.
    have hbe : probe key ≠ .lt → firstEq probe child.toList = none := by
      intro hkey
      refine firstEq_eq_none fun e he heq => hkey ?_
      exact hac e he (key, value) List.mem_cons_self (by simp [heq])
    rw [find, toList, firstEq_append, firstEq_cons]
    cases hkey : probe key with
    | lt =>
      have hno : firstEq probe rest.toList = none := by
        refine firstEq_eq_none fun e he => ?_
        simp [hhd e he (by simp [hkey])]
      rw [if_neg (by simp), hno, Option.or_none, ihchild hc]
    | eq => rw [if_pos rfl, hbe (by simp [hkey]), Option.none_or]
    | gt => rw [if_neg (by simp), hbe (by simp [hkey]), Option.none_or, ih hr]

end Fits

/-! ### Searches that may not -/

/-- A walk over the entries, up to the first that is not before what is searched. -/
def scan (probe : κ → Ordering) : List (κ × α) → Option α
  | [] => none
  | (key, value) :: rest =>
    match probe key with
    | .lt => none
    | .eq => some value
    | .gt => scan probe rest

/-- The first entries are in one leaf. -/
theorem BNode.find_eq_scan {probe : κ → Ordering} {h n : Nat} (t : BNode κ α h n) {first rest : List (κ × α)}
    (hs : t.toList = first ++ rest) (hlen : first.length ≤ minLen) (hss : ∃ e ∈ first, probe e.1 ≠ .gt)
    (hr : ∀ e ∈ rest, probe e.1 = .lt) : t.find probe = scan probe first := by
  induction t generalizing first rest with
  | nil =>
    obtain ⟨e, he, -⟩ := hss
    have hem := (List.append_eq_nil_iff.mp hs.symm).1
    simp [hem] at he
  | leaf key value others ih =>
    cases first with
    | nil => simp at hss
    | cons e first =>
      obtain ⟨rfl, hos⟩ := List.cons.inj hs
      rw [find, scan]
      cases hkey : probe key with
      | lt => rfl
      | eq => rfl
      | gt =>
        refine ih hos (Nat.le_of_succ_le hlen) ?_ hr
        simpa [hkey] using hss
  | last child filled ih => exact ih hs hlen hss hr
  | node child filled key value others ihchild ih =>
    have hlo : first.length ≤ child.toList.length :=
      hlen.trans (filled.1.trans child.le_length_toList)
    have hc : ∃ mid, child.toList = first ++ mid ∧ rest = mid ++ (key, value) :: others.toList := by
      obtain ⟨mid, hf, hos⟩ | hmid := List.append_eq_append_iff.mp hs
      · have hem : mid = [] := by
          have hle := congrArg List.length hf
          rw [List.length_append] at hle
          exact List.eq_nil_of_length_eq_zero (by omega)
        subst hem
        exact ⟨[], by simpa using hf.symm, by simpa using hos.symm⟩
      · exact hmid
    obtain ⟨mid, hmid, rfl⟩ := hc
    have hkey : probe key = .lt := hr (key, value) (by simp)
    rw [find, hkey]
    exact ihchild hmid hlen hss fun e he => hr e (List.mem_append_left _ he)

namespace BTree

def toList (t : BTree κ α) : List (κ × α) := t.root.toList

def find (t : BTree κ α) (probe : κ → Ordering) : Option α := t.root.find probe

end BTree

/-! ### Entries in order -/

/-- Puts a value under a key, in the place of the one that is there. -/
def insertSorted [Ord κ] (key : κ) (value : α) : List (κ × α) → List (κ × α)
  | [] => [(key, value)]
  | e :: rest =>
    match compare key e.1 with
    | .lt => (key, value) :: e :: rest
    | .eq => (e.1, value) :: rest
    | .gt => e :: insertSorted key value rest

def Sorted [Ord κ] (entries : List (κ × α)) : Prop := entries.Pairwise fun a b => compare a.1 b.1 = .lt

section Sorted
variable [Ord κ] [Std.TransOrd κ] [Std.LawfulEqOrd κ] {es : List (κ × α)} {key : κ} {value : α}

/-- The new entry, and the others as they were. -/
theorem mem_insertSorted (h : Sorted es) {e : κ × α} :
    e ∈ insertSorted key value es ↔ e = (key, value) ∨ e.1 ≠ key ∧ e ∈ es := by
  induction es with
  | nil => simp [insertSorted]
  | cons d rest ih =>
    obtain ⟨hhd, hr⟩ := pairwise_cons.mp h
    rw [insertSorted]
    cases hcmp : compare key d.1 with
    | lt =>
      have ho : ∀ b ∈ d :: rest, b.1 ≠ key := by
        intro b hb hsm
        have hlt : compare key b.1 = .lt := by
          obtain rfl | hb := mem_cons.mp hb
          · exact hcmp
          · exact Std.TransCmp.lt_trans hcmp (hhd b hb)
        rw [hsm, Std.ReflOrd.compare_self] at hlt
        cases hlt
      rw [mem_cons]
      exact or_congr_right (iff_and_self.mpr (ho e))
    | eq =>
      have hkey : key = d.1 := Std.compare_eq_iff_eq.mp hcmp
      have ho : ∀ b ∈ rest, b.1 ≠ key := by
        intro b hb hsm
        have hlt := hhd b hb
        rw [hsm, hkey, Std.ReflOrd.compare_self] at hlt
        cases hlt
      simp only [mem_cons, hkey]
      refine or_congr_right ⟨fun he => ⟨hkey ▸ ho e he, .inr he⟩, fun ⟨hne, he⟩ => ?_⟩
      obtain rfl | he := he
      · exact absurd rfl hne
      · exact he
    | gt =>
      have hne : d.1 ≠ key := by
        intro hsm
        rw [hsm, Std.ReflOrd.compare_self] at hcmp
        cases hcmp
      simp only [mem_cons, ih hr]
      constructor
      · rintro (rfl | rfl | ⟨ho, he⟩)
        · exact .inr ⟨hne, .inl rfl⟩
        · exact .inl rfl
        · exact .inr ⟨ho, .inr he⟩
      · rintro (rfl | ⟨ho, rfl | he⟩)
        · exact .inr (.inl rfl)
        · exact .inl rfl
        · exact .inr (.inr ⟨ho, he⟩)

theorem Sorted.insertSorted (h : Sorted es) : Sorted (insertSorted key value es) := by
  induction es with
  | nil => exact List.pairwise_singleton _ _
  | cons d rest ih =>
    obtain ⟨hhd, hr⟩ := pairwise_cons.mp h
    rw [Library.insertSorted]
    cases hcmp : compare key d.1 with
    | lt =>
      refine pairwise_cons.mpr ⟨fun b hb => ?_, h⟩
      obtain rfl | hb := mem_cons.mp hb
      · exact hcmp
      · exact Std.TransCmp.lt_trans hcmp (hhd b hb)
    | eq => exact pairwise_cons.mpr ⟨hhd, hr⟩
    | gt =>
      refine pairwise_cons.mpr ⟨fun b hb => ?_, ih hr⟩
      obtain rfl | ⟨-, hb⟩ := (mem_insertSorted hr).mp hb
      · exact Std.OrientedCmp.gt_iff_lt.mp hcmp
      · exact hhd b hb

omit [Std.LawfulEqOrd κ] in
/-- The least key comes first, and the others after it. -/
theorem Sorted.head (h : Sorted es) (hmem : (key, value) ∈ es)
    (hle : ∀ e ∈ es, e.1 ≠ key → compare key e.1 = .lt) :
    ∃ rest, es = (key, value) :: rest ∧ Sorted rest ∧ ∀ e, e ∈ rest ↔ e ∈ es ∧ e.1 ≠ key := by
  cases es with
  | nil => cases hmem
  | cons d rest =>
    obtain ⟨hhd, hr⟩ := pairwise_cons.mp h
    have ho : ∀ e ∈ rest, d.1 ≠ e.1 := by
      intro e he hsm
      have hlt := hhd e he
      rw [hsm, Std.ReflOrd.compare_self] at hlt
      cases hlt
    have hf : d = (key, value) := by
      obtain hf | hl := mem_cons.mp hmem
      · exact hf.symm
      · have hgt := Std.OrientedCmp.gt_iff_lt.mpr (hle d List.mem_cons_self (ho _ hl))
        rw [hhd _ hl] at hgt
        cases hgt
    subst hf
    refine ⟨rest, rfl, hr, fun e => ⟨fun he => ⟨.tail _ he, (ho e he).symm⟩, fun he => ?_⟩⟩
    obtain rfl | hl := mem_cons.mp he.1
    · exact absurd rfl he.2
    · exact hl

end Sorted

end StarryX.Library
