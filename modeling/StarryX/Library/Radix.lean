import Mathlib.Algebra.BigOperators.Fin
import StarryX.Library.Machine

/-! Radix trees with values at several depths.

A `Radix n m α d` branches `n` ways on each of `d` digits, and a value may sit early, at
depth `m` and below, where it covers every key that shares its leading digits. A key is a
digit per depth. `get?` finds the value that covers a key; `set` changes the node at one
depth of a path; `grow` makes the branches down to it, as far as memory lasts. `total` adds
up a weight over the values. Each operation has a lemma for `get?` and one for `total`. -/
namespace StarryX.Library
open Function

inductive Radix (n m : Nat) (α : Type) : Nat → Type
  | empty {d : Nat} : Radix n m α d
  | leaf {d : Nat} (low : d ≤ m) (value : α) : Radix n m α d
  | branch {d : Nat} (children : Fin n → Radix n m α d) : Radix n m α (d + 1)

/-- How far `grow` came: to the node, out of memory, or to a value in its way. -/
inductive Growth (α : Type) where
  | reached (free : Bool)
  | starved
  | blocked (value : α)

namespace Radix
variable {n m : Nat} {α : Type}

/-- The value that covers a key, and its depth. -/
def get? {d : Nat} (t : Radix n m α d) (key : Nat → Fin n) : Option (Nat × α) :=
  match d, t with
  | _, .empty => none
  | d, .leaf _ value => some (d, value)
  | d + 1, .branch children => (children (key d)).get? key

def isEmpty {d : Nat} : Radix n m α d → Bool
  | .empty => true
  | _ => false

/-- What a node without branches holds. -/
def ofOption {d : Nat} (low : d ≤ m) : Option α → Radix n m α d
  | none => .empty
  | some value => .leaf low value

/-- What stands at one depth of a path, if it is no branch. -/
def content (depth : Nat) {d : Nat} (t : Radix n m α d) (key : Nat → Fin n) : Option (Option α) :=
  match d, t with
  | d, .empty => if d = depth then some none else none
  | d, .leaf _ value => if d = depth then some (some value) else none
  | d + 1, .branch children => if d + 1 = depth then none else (children (key d)).content depth key

/-- Changes the node at one depth of a path. -/
def set (depth : Nat) (low : depth ≤ m) (new : Option α) {d : Nat} (t : Radix n m α d) (key : Nat → Fin n) :
    Radix n m α d :=
  match d, t with
  | d, .empty => if h : d = depth then ofOption (h ▸ low) new else .empty
  | d, .leaf low' value => if h : d = depth then ofOption (h ▸ low) new else .leaf low' value
  | d + 1, .branch children =>
    if d + 1 = depth then .branch children
    else .branch (update children (key d) ((children (key d)).set depth low new key))

/-- Makes the branches of a path down to a depth. Each takes an allocation: `memory` answers
them in turn, and `asked` counts. -/
def grow (memory : Nat → Bool) (depth : Nat) (key : Nat → Fin n) :
    (d : Nat) → Radix n m α d → Nat → Radix n m α d × Nat × Growth α
  | 0, t, asked => (t, asked, .reached t.isEmpty)
  | d + 1, t, asked =>
    if d + 1 = depth then (t, asked, .reached t.isEmpty)
    else
      match t with
      | .leaf low value => (.leaf low value, asked, .blocked value)
      | .empty =>
        if memory asked then
          let r := grow memory depth key d .empty (asked + 1)
          (.branch (update (fun _ => .empty) (key d) r.1), r.2)
        else (.empty, asked + 1, .starved)
      | .branch children =>
        let r := grow memory depth key d (children (key d)) asked
        (.branch (update children (key d) r.1), r.2)

/-- A weight, added up over all values. -/
def total (weight : α → Nat) {d : Nat} : Radix n m α d → Nat
  | .empty => 0
  | .leaf _ value => weight value
  | .branch children => ∑ i, (children i).total weight

/-! ### Setting a node -/

/-- Two keys lead to the same node of a depth. -/
def Agree (depth d : Nat) (key key' : Nat → Fin n) : Prop := ∀ k, depth ≤ k → k < d → key' k = key k

instance (depth d : Nat) (key key' : Nat → Fin n) : Decidable (Agree depth d key key') :=
  decidable_of_iff (∀ k, k < d → depth ≤ k → key' k = key k)
    ⟨fun h k hlow hk => h k hk hlow, fun h k hk hlow => h k hlow hk⟩

variable {d depth : Nat} {key : Nat → Fin n} {t : Radix n m α d} {value : α}

theorem get?_depth (h : t.get? key = some (depth, value)) : depth ≤ d ∧ depth ≤ m := by
  induction t with
  | empty => cases h
  | leaf low a =>
    cases h
    exact ⟨le_rfl, low⟩
  | branch cs ih =>
    obtain ⟨hle, hm⟩ := ih _ h
    exact ⟨Nat.le_succ_of_le hle, hm⟩

variable {old : Option α} (weight : α → Nat)

theorem content_depth (h : t.content depth key = some old) : depth ≤ d := by
  induction t with
  | empty | leaf _ _ =>
    unfold content at h
    split at h
    · omega
    · cases h
  | branch cs ih =>
    unfold content at h
    split at h
    · cases h
    · exact Nat.le_succ_of_le (ih _ h)

theorem content_of_get? (h : t.get? key = some (depth, value)) : t.content depth key = some (some value) := by
  induction t with
  | empty => cases h
  | leaf low a =>
    cases h
    exact if_pos rfl
  | branch cs ih =>
    have hle := (get?_depth (t := cs (key _)) h).1
    unfold content
    rw [if_neg (by omega)]
    exact ih _ h

theorem get?_ofOption (low : d ≤ m) (new : Option α) (key : Nat → Fin n) :
    (ofOption low new).get? key = new.map fun value => (d, value) := by
  cases new <;> rfl

theorem total_ofOption (low : d ≤ m) (new : Option α) :
    (ofOption low new : Radix n m α d).total weight = new.elim 0 weight := by
  cases new <;> rfl

theorem Agree.self (d : Nat) (key key' : Nat → Fin n) : Agree d d key key' := fun _ hlow hk =>
  absurd hk (Nat.not_lt.mpr hlow)

variable {key' : Nat → Fin n} (mem : Nat → Bool) (low : depth ≤ m) (new : Option α)

/-- One more digit to agree on. -/
theorem agree_succ (h : depth ≤ d) : Agree depth (d + 1) key key' ↔ key' d = key d ∧ Agree depth d key key' := by
  constructor
  · exact fun hall => ⟨hall d h (Nat.lt_succ_self d), fun k hlow hk => hall k hlow (Nat.lt_succ_of_lt hk)⟩
  · intro ⟨hla, hall⟩ k hlow hk
    obtain hlt | rfl := Nat.lt_succ_iff_lt_or_eq.mp hk
    · exact hall k hlow hlt
    · exact hla

/-! Only the digits below the depth of a tree matter. -/

section
variable (h : ∀ k, k < d → key k = key' k)
include h

theorem get?_congr : t.get? key = t.get? key' := by
  induction t with
  | empty => rfl
  | leaf low a => rfl
  | branch cs ih =>
    show (cs (key _)).get? key = (cs (key' _)).get? key'
    rw [← h _ (Nat.lt_succ_self _)]
    exact ih _ fun k hk => h k (Nat.lt_succ_of_lt hk)

theorem content_congr : t.content depth key = t.content depth key' := by
  induction t with
  | empty => rfl
  | leaf low a => rfl
  | branch cs ih =>
    unfold content
    rw [← h _ (Nat.lt_succ_self _), ih _ fun k hk => h k (Nat.lt_succ_of_lt hk)]

theorem set_congr : t.set depth low new key = t.set depth low new key' := by
  induction t with
  | empty => rfl
  | leaf low' a => rfl
  | branch cs ih =>
    unfold set
    rw [← h _ (Nat.lt_succ_self _), ih _ fun k hk => h k (Nat.lt_succ_of_lt hk)]

end

/-- What stands at a depth is what the keys that lead there find. -/
theorem get?_of_content (h : t.content depth key = some old) (hag : Agree depth d key key') :
    t.get? key' = old.map fun value => (depth, value) := by
  induction t with
  | empty =>
    unfold content at h
    split at h
    · rw [← Option.some.inj h]
      rfl
    · cases h
  | leaf low a =>
    unfold content at h
    split at h
    next heq =>
      rw [← Option.some.inj h, ← heq]
      rfl
    · cases h
  | branch cs ih =>
    unfold content at h
    split at h
    · cases h
    · obtain ⟨hdg, hrs⟩ := (agree_succ (content_depth h)).mp hag
      show (cs (key' _)).get? key' = _
      rw [hdg]
      exact ih _ h hrs

/-- A set node covers the keys that lead to it, and the others see no change. -/
theorem get?_set (h : t.content depth key = some old) (key' : Nat → Fin n) :
    (t.set depth low new key).get? key' =
      if Agree depth d key key' then new.map fun value => (depth, value) else t.get? key' := by
  induction t with
  | empty | leaf _ _ =>
    unfold content at h
    split at h
    next heq =>
      subst heq
      simp [set, get?_ofOption, Agree.self]
    · cases h
  | branch cs ih =>
    rename_i d
    unfold content at h
    split at h
    · cases h
    next hne =>
      have hle : depth ≤ d := content_depth h
      unfold set
      rw [if_neg hne]
      show (update cs (key d) _ (key' d)).get? key' = _
      by_cases hdg : key' d = key d
      · rw [hdg, update_self, ih _ h]
        refine if_congr ?_ rfl ?_
        · rw [agree_succ hle]
          exact ⟨fun hall => ⟨hdg, hall⟩, And.right⟩
        · show _ = (cs (key' d)).get? key'
          rw [hdg]
      · rw [update_of_ne hdg, if_neg fun hall => hdg ((agree_succ hle).mp hall).1]
        rfl

open Finset (mem_univ sum_congr univ)

theorem total_branch_update (cs : Fin n → Radix n m α d) (i : Fin n) (t : Radix n m α d) :
    (branch (update cs i t)).total weight + (cs i).total weight =
      (branch cs).total weight + t.total weight := by
  show (∑ j, (update cs i t j).total weight) + _ = (∑ j, (cs j).total weight) + _
  have hsum := Finset.add_sum_erase univ (fun j => (cs j).total weight) (mem_univ i)
  have hsum' := Finset.add_sum_erase univ (fun j => (update cs i t j).total weight) (mem_univ i)
  have hrs : ∑ j ∈ univ.erase i, (update cs i t j).total weight =
      ∑ j ∈ univ.erase i, (cs j).total weight :=
    sum_congr rfl fun j hj => by rw [update_of_ne (Finset.ne_of_mem_erase hj)]
  simp only [update_self] at hsum'
  omega

/-- The sum changes by what was taken out and what was put in. -/
theorem total_set (h : t.content depth key = some old) :
    (t.set depth low new key).total weight + old.elim 0 weight = t.total weight + new.elim 0 weight := by
  induction t with
  | empty =>
    unfold content at h
    split at h
    next heq =>
      subst heq
      cases h
      simp [set, total_ofOption, total]
    · cases h
  | leaf low' a =>
    unfold content at h
    split at h
    next heq =>
      subst heq
      cases h
      simp [set, total_ofOption, total, Nat.add_comm]
    · cases h
  | branch cs ih =>
    rename_i d
    unfold content at h
    split at h
    · cases h
    next hne =>
      unfold set
      rw [if_neg hne]
      have hc := ih _ h
      have hsum := total_branch_update weight cs (key d) ((cs (key d)).set depth low new key)
      omega

/-- A tree that finds nothing weighs nothing. -/
theorem total_of_get?_none (key₀ : Nat → Fin n) (h : ∀ key, t.get? key = none) :
    t.total weight = 0 := by
  induction t with
  | empty => rfl
  | leaf low a => exact nomatch h key₀
  | branch cs ih =>
    rename_i d
    refine Finset.sum_eq_zero fun i _ => ih i fun key => ?_
    have hth := h (update key d i)
    rw [get?, update_self] at hth
    rw [← hth]
    exact get?_congr fun k hk => (update_of_ne hk.ne i key).symm

/-- The sum is one over what is found. -/
theorem total_of_get?_eq {t' : Radix n m α d} (key₀ : Nat → Fin n)
    (h : ∀ key, t.get? key = t'.get? key) : t.total weight = t'.total weight := by
  induction t with
  | empty => exact (total_of_get?_none weight key₀ fun key => (h key).symm).symm
  | leaf low a =>
    cases t' with
    | empty => exact nomatch h key₀
    | leaf low' a' =>
      cases h key₀
      rfl
    | branch cs =>
      have hde := (get?_depth (t := cs (key₀ _)) (h key₀).symm).1
      omega
  | branch cs ih =>
    rename_i d
    have hc : ∀ (c : Fin n → Radix n m α d) i key, (c i).get? key = (branch c).get? (update key d i) := by
      intro c i key
      rw [get?, update_self]
      exact get?_congr fun k hk => (update_of_ne hk.ne i key).symm
    cases t' with
    | empty => exact total_of_get?_none weight key₀ fun key => h key
    | leaf low' a' =>
      have hde := (get?_depth (t := cs (key₀ _)) (h key₀)).1
      omega
    | branch children' =>
      refine sum_congr rfl fun i _ => ih i fun key => ?_
      rw [hc, hc, h]

/-! ### Growing a path -/

/-- What depends on a child only through what it is of the child is not changed by new empty branches. -/
theorem grow_keeps {γ : Type} (F : ∀ d, Radix n m α d → γ) (mem : Nat → Bool) (depth : Nat) (key : Nat → Fin n)
    (hem : ∀ d, F (d + 1) (.branch fun _ => .empty) = F (d + 1) .empty)
    (hup : ∀ d cs c, F d c = F d (cs (key d)) →
      F (d + 1) (.branch (update cs (key d) c)) = F (d + 1) (.branch cs)) (d : Nat) :
    ∀ t asked, F d (grow mem depth key d t asked).1 = F d t := by
  induction d with
  | zero => exact fun _ _ => rfl
  | succ d ih =>
    intro t asked
    unfold grow
    split
    · rfl
    · split
      · rfl
      · split
        · exact (hup d (fun _ => .empty) _ (ih .empty (asked + 1))).trans (hem d)
        · rfl
      · exact hup d _ _ (ih _ asked)

theorem get?_grow (depth : Nat) (key key' : Nat → Fin n) (d : Nat) (t : Radix n m α d)
    (asked : Nat) : (grow mem depth key d t asked).1.get? key' = t.get? key' :=
  grow_keeps (fun _ t => t.get? key') mem depth key (fun _ => rfl)
    (fun d _ _ hc => update_map_eq (fun c : Radix n m α d => c.get? key') hc (key' d)) d t asked

theorem total_grow (depth : Nat) (key : Nat → Fin n) (d : Nat)
    (t : Radix n m α d) (asked : Nat) : (grow mem depth key d t asked).1.total weight = t.total weight := by
  refine grow_keeps (fun _ t => t.total weight) mem depth key (fun _ => by simp [total]) (fun d cs c hc => ?_) d t asked
  have hsum := total_branch_update weight cs (key d) c
  omega

/-- A free node that was reached can be set. -/
theorem content_grow (depth : Nat) (key : Nat → Fin n) (d : Nat) (hle : depth ≤ d) :
    ∀ (t : Radix n m α d) asked, (grow mem depth key d t asked).2.2 = .reached true →
      (grow mem depth key d t asked).1.content depth key = some none := by
  have hfr : ∀ {d : Nat} {t : Radix n m α d}, d = depth → (.reached t.isEmpty : Growth α) = .reached true →
      t.content depth key = some none := by
    intro d t hd h
    cases t with
    | empty => exact if_pos hd
    | leaf _ _ | branch _ => exact absurd h (by simp [isEmpty])
  induction d with
  | zero => exact fun t asked h => hfr (by omega) h
  | succ d ih =>
    intro t asked h
    by_cases heq : d + 1 = depth
    · unfold grow at h ⊢
      rw [if_pos heq] at h ⊢
      exact hfr heq h
    · have hc : ∀ (cs : Fin n → Radix n m α d) asked,
          (grow mem depth key d (cs (key d)) asked).2.2 = .reached true →
          (Radix.branch (update cs (key d)
            (grow mem depth key d (cs (key d)) asked).1)).content depth key = some none := by
        intro cs asked hr
        unfold content
        rw [if_neg heq, update_self]
        exact ih (by omega) _ _ hr
      unfold grow at h ⊢
      rw [if_neg heq] at h ⊢
      cases t with
      | leaf low value => cases h
      | empty =>
        by_cases hm : mem asked
        · simp only [hm] at h ⊢
          exact hc (fun _ => .empty) (asked + 1) h
        · simp only [hm] at h
          cases h
      | branch cs => exact hc cs asked h

end Radix

end StarryX.Library
