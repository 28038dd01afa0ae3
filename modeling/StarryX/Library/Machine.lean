import Mathlib.Data.UInt

/-! Machines whose labels may be disabled, and their runs.

A concurrent program is a `Machine`: a label names who moves and what the environment
answers, and `step` says what that does, or `none` where it cannot happen. A run is a
list of labels, so "every interleaving" is "every list". An invariant is proved once per
step and carried to runs by `run_induct`; `run_induct_under` does the same for runs
whose labels all meet a condition in the state they start from. `always_of_meets` and
`meets_of_always` compare such runs with the ones all of whose states are good.

`count` is for machines over a family of threads: how many of them are in a given
phase, and how one thread's move changes that. -/
namespace StarryX.Library
open Function

/-- What a label does in a state; `none` where it cannot happen. -/
structure Machine (σ α : Type) where
  step : α → σ → Option σ

namespace Machine
variable {σ α : Type} (m : Machine σ α)

def run (s : σ) : List α → Option σ
  | [] => some s
  | a :: rest => (m.step a s).bind (fun t => run t rest)

/-- Every label of the run meets `ok` in the state it starts from. -/
def Meets (ok : α → σ → Prop) (s : σ) : List α → Prop
  | [] => True
  | a :: rest => ok a s ∧ ∀ t, m.step a s = some t → Meets ok t rest

/-- Whether a given run meets a decidable condition can be computed. -/
instance decidableMeets (ok : α → σ → Prop) [∀ a s, Decidable (ok a s)] :
    (s : σ) → (labels : List α) → Decidable (m.Meets ok s labels)
  | _, [] => .isTrue trivial
  | s, a :: rest =>
    match h : m.step a s with
    | none => decidable_of_iff (ok a s) ⟨fun ha => ⟨ha, fun t ht => by rw [h] at ht; cases ht⟩, And.left⟩
    | some u =>
      have := decidableMeets ok u rest
      decidable_of_iff (ok a s ∧ m.Meets ok u rest)
        ⟨fun ha => ⟨ha.1, fun t ht => by rw [h] at ht; exact Option.some.inj ht ▸ ha.2⟩,
          fun ha => ⟨ha.1, ha.2 u h⟩⟩

/-- Every state that the run goes through is good. -/
def Always (good : σ → Prop) (s : σ) : List α → Prop
  | [] => good s
  | a :: rest => good s ∧ ∀ t, m.step a s = some t → Always good t rest

variable {m} {Inv good : σ → Prop} {ok : α → σ → Prop} {s : σ}

/-- What every permitted step preserves, every run whose labels are permitted preserves. -/
theorem run_induct_under (hst : ∀ a s t, Inv s → ok a s → m.step a s = some t → Inv t)
    (ls : List α) {t : σ} (hs : Inv s) (hok : m.Meets ok s ls)
    (hrun : m.run s ls = some t) : Inv t := by
  induction ls generalizing s with
  | nil =>
    cases hrun
    exact hs
  | cons a rest ih =>
    obtain ⟨u, hu, hr⟩ := Option.bind_eq_some_iff.mp hrun
    exact ih (hst a s u hs hok.1 hu) (hok.2 u hu) hr

theorem meets_trivial (s : σ) (ls : List α) : m.Meets (fun _ _ => True) s ls := by
  induction ls generalizing s with
  | nil => trivial
  | cons a rest ih => exact ⟨trivial, fun t _ => ih t⟩

/-- What every step preserves, every run preserves. -/
theorem run_induct (hst : ∀ a s t, Inv s → m.step a s = some t → Inv t)
    (ls : List α) {t : σ} (hs : Inv s) (hrun : m.run s ls = some t) : Inv t :=
  run_induct_under (fun a s t h _ => hst a s t h) ls hs (meets_trivial s ls) hrun

theorem always_head {ls : List α} (h : m.Always good s ls) : good s := by
  cases ls with
  | nil => exact h
  | cons a rest => exact h.1

/-- A run of permitted steps stays good where the invariant that they preserve is good. -/
theorem always_of_meets
    (hst : ∀ a s t, Inv s → ok a s → m.step a s = some t → Inv t) (hg : ∀ s, Inv s → good s)
    (ls : List α) (hs : Inv s) (hok : m.Meets ok s ls) : m.Always good s ls := by
  induction ls generalizing s with
  | nil => exact hg s hs
  | cons a rest ih => exact ⟨hg s hs, fun t ht => ih (hst a s t hs hok.1 ht) (hok.2 t ht)⟩

/-- If a step into a good state is permitted, a run that stays good has permitted steps only. -/
theorem meets_of_always
    (hst : ∀ a s t, Inv s → m.step a s = some t → Inv t) (hsd : ∀ a s, m.step a s = none → ok a s)
    (hok : ∀ a s t, Inv s → m.step a s = some t → good t → ok a s)
    (ls : List α) (hs : Inv s) (hal : m.Always good s ls) : m.Meets ok s ls := by
  induction ls generalizing s with
  | nil => trivial
  | cons a rest ih =>
    refine ⟨?_, fun t ht => ih (hst a s t hs ht) (hal.2 t ht)⟩
    cases ha : m.step a s with
    | none => exact hsd a s ha
    | some t =>
      have hg : good t := always_head (hal.2 t ha)
      exact hok a s t hs ha hg

/-- Where a step from the invariant is permitted just when it ends in a good state, and the invariant
survives permitted steps, the runs that stay good are the ones with permitted steps only. -/
theorem always_iff_meets (hg : ∀ s, Inv s → good s)
    (hst : ∀ a s t, Inv s → ok a s → m.step a s = some t → Inv t)
    (hok : ∀ a s t, Inv s → m.step a s = some t → good t → ok a s) (hsd : ∀ a s, m.step a s = none → ok a s)
    (ls : List α) (hs : Inv s) : m.Always good s ls ↔ m.Meets ok s ls := by
  refine ⟨fun hal => ?_, always_of_meets hst hg ls hs⟩
  induction ls generalizing s with
  | nil => trivial
  | cons a rest ih =>
    cases ha : m.step a s with
    | none => exact ⟨hsd a s ha, fun t ht => by rw [ha] at ht; cases ht⟩
    | some t =>
      have hr := hal.2 t ha
      have hpe : ok a s := hok a s t hs ha (always_head hr)
      refine ⟨hpe, fun u hu => ?_⟩
      cases ha.symm.trans hu
      exact ih (hst a s t hs hpe ha) hr

/-- The same of a machine that never stops. -/
theorem always_iff_meets_of_total {next : α → σ → σ}
    (hn : ∀ a s, m.step a s = some (next a s)) (hg : ∀ s, Inv s → good s)
    (hst : ∀ a s, Inv s → ok a s → Inv (next a s)) (hok : ∀ a s, Inv s → good (next a s) → ok a s)
    (ls : List α) (hs : Inv s) : m.Always good s ls ↔ m.Meets ok s ls := by
  refine always_iff_meets hg (fun a s t h hpe ht => ?_) (fun a s t h ht hg => ?_) (fun a s hno => ?_) ls hs
  · cases (hn a s).symm.trans ht
    exact hst a s h hpe
  · cases (hn a s).symm.trans ht
    exact hok a s h hg
  · cases (hn a s).symm.trans hno

/-- Two properties that come with an invariant, each of which brings it through a step, hold along
the same runs. -/
theorem always_iff_always {p q : σ → Prop} (hp : ∀ s, Inv s → p s) (hq : ∀ s, Inv s → q s)
    (hst : ∀ a s t, Inv s → m.step a s = some t → p t → Inv t)
    (hsq : ∀ a s t, Inv s → m.step a s = some t → q t → Inv t) (ls : List α) (hs : Inv s) :
    m.Always p s ls ↔ m.Always q s ls := by
  induction ls generalizing s with
  | nil => exact iff_of_true (hp s hs) (hq s hs)
  | cons a rest ih =>
    refine and_congr (iff_of_true (hp s hs) (hq s hs)) (forall₂_congr fun t ht => ?_)
    exact ⟨fun h => (ih (hst a s t hs ht (always_head h))).mp h,
      fun h => (ih (hsq a s t hs ht (always_head h))).mpr h⟩

/-- Conditions that say the same where the invariant holds permit the same runs. -/
theorem meets_congr {ok' : α → σ → Prop} (hst : ∀ a s t, Inv s → m.step a s = some t → Inv t)
    (hiff : ∀ a s, Inv s → (ok a s ↔ ok' a s)) (ls : List α) (hs : Inv s) :
    m.Meets ok s ls ↔ m.Meets ok' s ls := by
  induction ls generalizing s with
  | nil => exact .rfl
  | cons a rest ih =>
    exact and_congr (hiff a s hs) (forall_congr' fun t => forall_congr' fun ht => ih (hst a s t hs ht))

end Machine

/-! ### Counting the threads of a family -/

/-- A value of an updated family is the new one or an old one elsewhere. -/
theorem update_cases {ι τ : Type} [DecidableEq ι] {f : ι → τ} {i j : ι} {x y : τ}
    (h : update f i x j = y) : j = i ∧ x = y ∨ j ≠ i ∧ f j = y := by
  by_cases hji : j = i
  · subst hji
    exact .inl ⟨rfl, by rwa [update_self] at h⟩
  · exact .inr ⟨hji, by rwa [update_of_ne hji] at h⟩

theorem update_eq_iff_of_ne {ι τ : Type} [DecidableEq ι] {f : ι → τ} {i j : ι} {x y : τ} (hi : f i ≠ y) (hx : x ≠ y) :
    update f i x j = y ↔ f j = y := by
  by_cases hji : j = i
  · rw [hji, update_self, iff_of_false hx hi]
  · rw [update_of_ne hji]

theorem update_eq_self_iff {ι τ : Type} [DecidableEq ι] {f : ι → τ} {i j : ι} {y : τ} :
    update f i y j = y ↔ j = i ∨ f j = y := by
  by_cases hji : j = i
  · rw [hji, update_self, eq_self, true_iff]
    exact .inl rfl
  · rw [update_of_ne hji, or_iff_right hji]

theorem update_eq_iff_lose {ι τ : Type} [DecidableEq ι] {f : ι → τ} {i j : ι} {x y : τ} (hx : x ≠ y) :
    update f i x j = y ↔ j ≠ i ∧ f j = y := by
  refine ⟨fun h => (update_cases h).resolve_left fun hnew => hx hnew.2, fun h => (update_of_ne h.1 ..).trans h.2⟩

/-- The same for what a function of the values says. -/
theorem update_map_cases {ι τ γ : Type} [DecidableEq ι] {f : ι → τ} (g : τ → γ) {i j : ι} {x : τ} {y : γ}
    (h : g (update f i x j) = y) : j = i ∧ g x = y ∨ j ≠ i ∧ g (f j) = y := by
  obtain ⟨hji, hx⟩ | ⟨hji, hf⟩ := update_cases (f := f) (x := x) rfl
  · exact .inl ⟨hji, by rw [hx, h]⟩
  · exact .inr ⟨hji, by rw [hf, h]⟩

/-- A value that the new one does not give is an old one elsewhere. -/
theorem update_map_ne {ι τ γ : Type} [DecidableEq ι] {f : ι → τ} (g : τ → γ) {i j : ι} {x : τ} {y : γ}
    (h : g (update f i x j) = y) (hx : g x ≠ y) : j ≠ i ∧ g (f j) = y :=
  (update_map_cases g h).resolve_left fun hnew => hx hnew.2

/-- What the new value gives as the old one did is given everywhere as it was. -/
theorem update_map_eq {ι τ γ : Type} [DecidableEq ι] {f : ι → τ} (g : τ → γ) {i : ι} {x : τ} (h : g x = g (f i))
    (j : ι) : g (update f i x j) = g (f j) := by
  by_cases hji : j = i
  · rw [hji, update_self, h]
  · rw [update_of_ne hji]

section Count
variable {ι τ : Type} [Fintype ι] {p : τ → Bool} {f : ι → τ}

/-- How many threads satisfy `p`. -/
def count (p : τ → Bool) (f : ι → τ) : Nat := (Finset.univ.filter fun i => p (f i)).card

theorem count_eq_zero : count p f = 0 ↔ ∀ i, p (f i) = false := by
  simp [count]

theorem count_congr {κ : Type} {q : κ → Bool} {g : ι → κ}
    (h : ∀ i, p (f i) = q (g i)) : count p f = count q g := by
  simp [count, h]

theorem count_pos {i : ι} (h : p (f i)) : 0 < count p f :=
  Finset.card_pos.mpr ⟨i, by simpa using h⟩

theorem exists_of_count_pos (h : 0 < count p f) : ∃ i, p (f i) := by
  obtain ⟨i, hi⟩ := Finset.card_pos.mp h
  exact ⟨i, by simpa using hi⟩

/-- Two different threads satisfying `p` count two. -/
theorem two_le_count {i j : ι} (hne : i ≠ j) (hi : p (f i)) (hj : p (f j)) : 2 ≤ count p f := by
  classical
  have hsub : ({i, j} : Finset ι) ⊆ Finset.univ.filter fun k => p (f k) := by
    intro k hk
    obtain rfl | hk := Finset.mem_insert.mp hk
    · simpa using hi
    · rw [Finset.mem_singleton] at hk
      simpa [hk] using hj
  calc 2 = ({i, j} : Finset ι).card := (Finset.card_pair hne).symm
    _ ≤ count p f := Finset.card_le_card hsub

variable [DecidableEq ι]

/-- One thread's move changes the count by what that thread contributes. -/
theorem count_update (p : τ → Bool) (f : ι → τ) (i : ι) (x : τ) :
    count p (update f i x) + (p (f i)).toNat = count p f + (p x).toNat := by
  have hr : (Finset.univ.filter fun j => p (update f i x j)).erase i =
      (Finset.univ.filter fun j => p (f j)).erase i := by
    ext j
    simp only [Finset.mem_erase, Finset.mem_filter]
    constructor
    · rintro ⟨hne, h⟩
      exact ⟨hne, by rwa [update_of_ne hne] at h⟩
    · rintro ⟨hne, h⟩
      exact ⟨hne, by rwa [update_of_ne hne]⟩
  have hsp : ∀ g : ι → τ, count p g =
      ((Finset.univ.filter fun j => p (g j)).erase i).card + (p (g i)).toNat := by
    intro g
    cases h : p (g i)
    · rw [Finset.erase_eq_of_notMem (by simp [h])]
      rfl
    · exact (Finset.card_erase_add_one (by simp [h])).symm
  rw [hsp (update f i x), hsp f, hr, update_self]
  omega

variable {p : τ → Bool} {f : ι → τ} {i : ι} {x : τ}

/-- A move that does not change what the thread contributes. -/
theorem count_update_of_eq (h : p x = p (f i)) : count p (update f i x) = count p f := count_congr (update_map_eq p h)

theorem count_gain (hold : p (f i) = false) (hnew : p x) : count p (update f i x) = count p f + 1 := by
  simpa [hold, hnew] using count_update p f i x

theorem count_lose (hold : p (f i)) (hnew : p x = false) : count p (update f i x) + 1 = count p f := by
  simpa [hold, hnew] using count_update p f i x

end Count

end StarryX.Library
