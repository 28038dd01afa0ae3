import Mathlib.Data.UInt

/-! Pre- and postconditions for programs with a state and errors.

A program is an `EStateM`: it ends with a value or with an error, and its changes to the
state stay in either case. `Triple P x Q E` is total: from a state where `P` holds, `x`
ends in `Q` with a value or in `E` with an error. There is a rule per way of building a
program, loops are done by induction on what they run over. Where the outcome itself is
known, `bind_ok` and `bind_error` compute it step by step. -/
namespace StarryX.Library
variable {ε σ α β : Type}

def Triple (P : σ → Prop) (x : EStateM ε σ α) (Q : α → σ → Prop) (E : ε → σ → Prop) : Prop :=
  ∀ s, P s → match x s with
    | .ok a t => Q a t
    | .error e t => E e t

/-- The program started in a given state. -/
abbrev Runs (s : σ) (x : EStateM ε σ α) (Q : α → σ → Prop) (E : ε → σ → Prop) : Prop := Triple (fun t => t = s) x Q E

/-- The outcome of a program as a value. -/
def attempt (x : EStateM ε σ α) : EStateM ε σ (Except ε α) := fun s =>
  match x s with
  | .ok a t => .ok (.ok a) t
  | .error e t => .ok (.error e) t

/-- A program on a part of the state. -/
def zoom {τ : Type} (part : σ → τ) (put : σ → τ → σ) (x : EStateM ε τ α) : EStateM ε σ α := fun s =>
  match x (part s) with
  | .ok a t => .ok a (put s t)
  | .error e t => .error e (put s t)

variable {P P' : σ → Prop} {Q Q' R : α → σ → Prop} {E : ε → σ → Prop} {x : EStateM ε σ α} {f : α → EStateM ε σ β}
  {S : β → σ → Prop} {a : α} {e : ε}

theorem Triple.pure (h : ∀ s, P s → Q a s) : Triple P (pure a) Q E := h

theorem Triple.any : Triple P x (fun _ _ => True) fun _ _ => True := by
  intro s _
  cases x s <;> trivial

theorem Triple.skip : Triple P (Pure.pure a) (fun _ => P) E := fun _ hs => hs

theorem Triple.throw (h : ∀ s, P s → E e s) : Triple P (throw e) Q E := h

section Outcome
variable {s t : σ} (hx : Triple P x Q E) (hs : P s)
include hx hs

theorem Triple.ok (hrun : x s = .ok a t) : Q a t := by
  have h := hx s hs
  rwa [hrun] at h

theorem Triple.error (hrun : x s = .error e t) : E e t := by
  have h := hx s hs
  rwa [hrun] at h

end Outcome

section
variable {E' : ε → σ → Prop} (hx : Triple P x Q E)
include hx

theorem Triple.imp (hP : ∀ s, P' s → P s) (hQ : ∀ a s, Q a s → Q' a s) : Triple P' x Q' E := by
  intro s hs
  cases hrun : x s with
  | ok a t => exact hQ a t (hx.ok (hP s hs) hrun)
  | error e t => exact hx.error (hP s hs) hrun

theorem Triple.pre (hP : ∀ s, P' s → P s) : Triple P' x Q E := hx.imp hP fun _ _ h => h

theorem Triple.post (hQ : ∀ a s, Q a s → Q' a s) : Triple P x Q' E := hx.imp (fun _ h => h) hQ

theorem Triple.fail (hE : ∀ e s, E e s → E' e s) : Triple P x Q E' := by
  intro s hs
  cases hrun : x s with
  | ok a t => exact hx.ok hs hrun
  | error e t => exact hE e t (hx.error hs hrun)

theorem Triple.bind (hf : ∀ a, Triple (Q a) (f a) S E) : Triple P (x >>= f) S E := by
  intro s hs
  show match EStateM.bind x f s with
    | .ok a t => S a t
    | .error e t => E e t
  unfold EStateM.bind
  cases hrun : x s with
  | ok a t => exact hf a t (hx.ok hs hrun)
  | error e t => exact hx.error hs hrun

theorem Triple.map {f : α → β} (hf : ∀ a s, Q a s → S (f a) s) : Triple P (f <$> x) S E := by
  exact hx.bind fun a => .pure (hf a)

end

theorem Triple.get : Triple P get (fun a s => a = s ∧ P s) E := fun _ hs => ⟨rfl, hs⟩

theorem Triple.read {f : σ → EStateM ε σ β} (h : ∀ s, Triple P (f s) S E) :
    Triple P (MonadState.get >>= f) S E := .bind .get fun s => (h s).pre fun _ ht => ht.2

theorem Triple.modify {f : σ → σ} {Q : PUnit → σ → Prop} (h : ∀ s, P s → Q ⟨⟩ (f s)) :
    Triple P (modify f) Q E := h

theorem Triple.modifyGet {f : σ → α × σ} (h : ∀ s, P s → Q (f s).1 (f s).2) :
    Triple P (modifyGet f) Q E := h

theorem Triple.attempt {F : ε → σ → Prop} (hx : Triple P x Q E) :
    Triple P (Library.attempt x) (fun r s => match r with | .ok a => Q a s | .error e => E e s) F := by
  intro s hs
  unfold Library.attempt
  cases hrun : x s with
  | ok a t => exact hx.ok hs hrun
  | error e t => exact hx.error hs hrun

theorem Triple.zoom {τ : Type} {part : σ → τ} {put : σ → τ → σ} {y : EStateM ε τ α} {s₀ : σ} {R : α → τ → Prop}
    {F : ε → τ → Prop} (hy : Runs (part s₀) y R F) (hQ : ∀ a t, R a t → Q a (put s₀ t))
    (hE : ∀ e t, F e t → E e (put s₀ t)) : Runs s₀ (Library.zoom part put y) Q E := by
  rintro s rfl
  unfold Library.zoom
  cases hrun : y (part s) with
  | ok a t => exact hQ a t (hy.ok rfl hrun)
  | error e t => exact hE e t (hy.error rfl hrun)

/-! ### From one state on -/

theorem Triple.start (h : ∀ s, P s → Runs s x Q E) : Triple P x Q E :=
  fun s hs => h s hs s rfl

variable {s : σ} {S : β → σ → Prop}

theorem Triple.next (hx : Triple P x Q E)
    (hf : ∀ a s, Q a s → Runs s (f a) S E) : Triple P (x >>= f) S E := hx.bind fun a => .start (hf a)

/-- Back to a condition that the state meets. -/
theorem Triple.resume (hx : Triple P x Q E) (hs : P s) : Runs s x Q E :=
  fun _ ht => ht ▸ hx s hs

theorem Triple.stay (hs : Q a s) : Runs s (Pure.pure a) Q E := fun _ ht => ht ▸ hs

theorem Triple.pure_bind (h : Triple P (f a) S E) : Triple P (Pure.pure a >>= f) S E := h

theorem Triple.get_bind {f : σ → EStateM ε σ β} (h : Runs s (f s) S E) :
    Runs s (MonadState.get >>= f) S E := by
  intro t ht
  subst ht
  exact h t rfl

theorem Triple.modify_bind {g : σ → σ} {f : PUnit → EStateM ε σ β} (h : Runs (g s) (f ⟨⟩) S E) :
    Runs s (MonadStateOf.modifyGet (fun s => (⟨⟩, g s)) >>= f) S E := by
  intro t ht
  subst ht
  exact h (g t) rfl

/-! ### Runs -/

section Runs
variable {f : α → EStateM ε σ β} {a : α} {e : ε} {t : σ}

theorem bind_ok (h : x s = .ok a t) : (x >>= f) s = f a t := by
  show EStateM.bind x f s = _
  rw [EStateM.bind, h]

theorem bind_error (h : x s = .error e t) : (x >>= f) s = .error e t := by
  show EStateM.bind x f s = _
  rw [EStateM.bind, h]

theorem attempt_ok (h : x s = .ok a t) : attempt x s = .ok (.ok a) t := by
  rw [Library.attempt, h]

theorem attempt_error (h : x s = .error e t) : attempt x s = .ok (.error e) t := by
  rw [Library.attempt, h]

end Runs

/-! ### Loops -/

/-- A loop over evenly spaced numbers, with what holds before each. -/
theorem Triple.forM_range' {f : Nat → EStateM ε σ PUnit} {step : Nat} (n : Nat) :
    ∀ start (I : Nat → σ → Prop),
      (∀ k, k < n → Triple (I k) (f (start + k * step)) (fun _ => I (k + 1)) E) →
      Triple (I 0) ((List.range' start n step).forM f) (fun _ => I n) E := by
  induction n with
  | zero => exact fun start I _ => .skip
  | succ n ih =>
    intro start I h
    refine .bind (Q := fun _ => I 1) ?_ fun _ => ?_
    · have hfi := h 0 (Nat.succ_pos n)
      rwa [Nat.zero_mul, Nat.add_zero] at hfi
    · refine ih (start + step) (fun k => I (k + 1)) fun k hk => ?_
      have hne := h (k + 1) (Nat.succ_lt_succ hk)
      rwa [Nat.succ_mul, Nat.add_comm (k * step), ← Nat.add_assoc] at hne

/-- A loop over a list, with what each turn keeps. -/
theorem Triple.forM {f : α → EStateM ε σ PUnit} (xs : List α) (h : ∀ a ∈ xs, Triple P (f a) (fun _ => P) E) :
    Triple P (xs.forM f) (fun _ => P) E := by
  induction xs with
  | nil => exact .skip
  | cons a rest ih =>
    exact (h a List.mem_cons_self).bind fun _ => ih fun b hb => h b (List.mem_cons_of_mem a hb)

/-! ### Results -/

/-- A computation that succeeds does so step by step. -/
theorem except_bind_ok {r : Except ε α} {f : α → Except ε β} {b : β} (h : (r >>= f) = .ok b) :
    ∃ a, r = .ok a ∧ f a = .ok b := by
  cases r with
  | ok a => exact ⟨a, rfl, h⟩
  | error e => cases h

end StarryX.Library
