import StarryX.Library.Machine

/-! The entries of a futex table.

A guard keeps its entry in the table. Its drop takes the entry out under the lock of the table, if nothing is queued
and no other reference is left, and gives up its own reference after that. `entries_whole` says in which runs entries
stay while they are needed and no longer, and in `entry_stays` the drops of two guards overlap, so that each sees the
reference of the other. -/
namespace StarryX.Task
open Library Function

/-- A guard of a key and an entry; `dropped` has yet to give up its reference. -/
inductive GuardPhase (κ : Type) where
  | none
  | live (key : κ) (entry : Nat)
  | dropped (entry : Nat)
  deriving DecidableEq

def GuardPhase.inner {κ : Type} : GuardPhase κ → Option Nat
  | none => .none
  | live _ e | dropped e => some e

/-- `idle` tells whether nothing was queued when the last guard of the entry was dropped. -/
structure GuardedTable (κ γ τ : Type) where
  table : κ → Option Nat
  next : Nat
  guards : γ → GuardPhase κ
  wq : Nat → List τ
  idle : Nat → Bool

/-- Guards are `i` and `j`. A waiter may `leave` when its time is over. -/
inductive TableLabel (κ γ τ : Type) where
  | get (i : γ) (key : κ)
  | getOrInsert (i : γ) (key : κ)
  | enqueue (i : γ) (t : τ)
  | wake (i : γ) (n : Nat)
  | requeue (i j : γ) (n : Nat)
  | leave (entry : Nat) (t : τ)
  | drop (i : γ)
  | release (i : γ)

namespace GuardedTable
variable {κ γ τ : Type} [DecidableEq κ] [Fintype γ] [DecidableEq γ] [DecidableEq τ] {s t : GuardedTable κ γ τ}

def step : TableLabel κ γ τ → GuardedTable κ γ τ → Option (GuardedTable κ γ τ)
  | .get i key, s => match s.guards i, s.table key with
    | .none, some e => some {s with guards := Function.update s.guards i (.live key e)}
    | _, _ => none
  | .getOrInsert i key, s => match s.guards i, s.table key with
    | .none, some e => some {s with guards := Function.update s.guards i (.live key e)}
    | .none, none => some {s with
      table := Function.update s.table key (some s.next)
      next := s.next + 1
      guards := Function.update s.guards i (.live key s.next)}
    | _, _ => none
  | .enqueue i t, s => match s.guards i with
    | .live _ e => some {s with wq := Function.update s.wq e (s.wq e ++ [t])}
    | _ => none
  | .wake i n, s => match s.guards i with
    | .live _ e => some {s with wq := Function.update s.wq e ((s.wq e).drop n)}
    | _ => none
  | .requeue i j n, s => match s.guards i, s.guards j with
    | .live _ e, .live _ e' =>
      let rest := Function.update s.wq e ((s.wq e).drop n)
      some {s with wq := Function.update rest e' (rest e' ++ (s.wq e).take n)}
    | _, _ => none
  | .leave e t, s => some {s with wq := Function.update s.wq e ((s.wq e).erase t)}
  | .drop i, s => match s.guards i with
    | .live key e => some {s with
      table := if s.table key = some e ∧ (∀ j, (s.guards j).inner = some e → j = i) ∧ s.wq e = []
        then Function.update s.table key none else s.table
      guards := Function.update s.guards i (.dropped e)
      idle := Function.update s.idle e (s.wq e).isEmpty}
    | _ => none
  | .release i, s => match s.guards i with
    | .dropped _ => some {s with guards := Function.update s.guards i .none}
    | _ => none

def machine : Machine (GuardedTable κ γ τ) (TableLabel κ γ τ) := ⟨step⟩

/-- No other guard of the entry is on its way out. -/
def Fine : TableLabel κ γ τ → GuardedTable κ γ τ → Prop
  | .drop i, s => ∀ key e, s.guards i = .live key e → ∀ j, s.guards j ≠ .dropped e
  | _, _ => True

/-- The table knows the entries that are guarded or waited for, each under one key. -/
structure Found (s : GuardedTable κ γ τ) : Prop where
  fresh : ∀ key e, s.table key = some e → e < s.next
  single : ∀ key key' e, s.table key = some e → s.table key' = some e → key = key'
  guarded : ∀ i key e, s.guards i = .live key e → s.table key = some e
  queued : ∀ e, s.wq e ≠ [] → ∃ key, s.table key = some e

/-- An entry whose last guard was dropped with nothing queued is not in the table. -/
structure Kept (s : GuardedTable κ γ τ) : Prop extends Found s where
  unborn : ∀ e, s.idle e = true → e < s.next
  used : ∀ key e, s.table key = some e → s.idle e = true → ∃ i, s.guards i = .live key e

def initial : GuardedTable κ γ τ := ⟨fun _ => none, 0, fun _ => .none, fun _ => [], fun _ => false⟩

/-! ### What a step does to the table -/

section Found
variable {i : γ} {key : κ} {e : Nat} {n : Nat}

omit [DecidableEq κ] [Fintype γ] [DecidableEq γ] [DecidableEq τ] in
/-- Queues change, but only of guarded entries does one begin. -/
theorem Found.queue (h : s.Found) {wq : Nat → List τ}
    (hwq : ∀ e, wq e ≠ [] → s.wq e ≠ [] ∨ ∃ i key, s.guards i = .live key e) : Found {s with wq := wq} where
  __ := h
  queued := fun e he => (hwq e he).elim (h.queued e) fun ⟨i, key, hi⟩ => ⟨key, h.guarded i key e hi⟩

omit [DecidableEq κ] [Fintype γ] [DecidableEq τ] in
theorem Found.guard (h : s.Found) (i : γ) {phase : GuardPhase κ}
    (hph : ∀ key e, phase = .live key e → s.table key = some e) :
    Found {s with guards := Function.update s.guards i phase} where
  __ := h
  guarded := fun j key e hj => by
    obtain ⟨-, hnew⟩ | ⟨-, hold⟩ := update_cases hj
    · exact hph key e hnew
    · exact h.guarded j key e hold

omit [Fintype γ] [DecidableEq γ] [DecidableEq τ] in
theorem Found.insert (h : s.Found) (hno : s.table key = none) :
    Found {s with table := Function.update s.table key (some s.next), next := s.next + 1} := by
  have hold : ∀ key' e, s.table key' = some e → Function.update s.table key (some s.next) key' = some e := by
    intro key' e hk
    refine (update_of_ne (fun heq => ?_) ..).trans hk
    rw [heq, hno] at hk
    cases hk
  refine ⟨fun key' e hk => ?_, fun key' key'' e hk hk' => ?_, fun i key' e hi => hold _ _ (h.guarded i key' e hi), fun e he => ?_⟩
  · obtain ⟨-, hnew⟩ | ⟨-, hk⟩ := update_cases hk
    · cases hnew
      exact Nat.lt_succ_self _
    · exact Nat.lt_succ_of_lt (h.fresh key' e hk)
  · -- The new entry has a number of its own.
    have hfresh : ∀ key', s.table key' ≠ some s.next := fun key' hk => Nat.lt_irrefl _ (h.fresh key' _ hk)
    obtain ⟨heq, hnew⟩ | ⟨-, ho⟩ := update_cases hk <;> obtain ⟨heq', hnew'⟩ | ⟨-, ho'⟩ := update_cases hk'
    · exact heq.trans heq'.symm
    · exact absurd (ho'.trans hnew.symm) (hfresh _)
    · exact absurd (ho.trans hnew'.symm) (hfresh _)
    · exact h.single key' key'' e ho ho'
  · obtain ⟨key', hk⟩ := h.queued e he
    exact ⟨key', hold key' e hk⟩

omit [Fintype γ] [DecidableEq γ] [DecidableEq τ] in
/-- An entry without guards and without waiters leaves the table. -/
theorem Found.remove (h : s.Found) (hk : s.table key = some e) (hlast : ∀ i key', s.guards i ≠ .live key' e)
    (hwq : s.wq e = []) : Found {s with table := Function.update s.table key none} := by
  have hold : ∀ key' e', s.table key' = some e' → e' ≠ e → Function.update s.table key none key' = some e' := by
    intro key' e' hk' hne
    refine (update_of_ne (fun heq => hne ?_) ..).trans hk'
    exact Option.some.inj (hk'.symm.trans (heq ▸ hk))
  have hsub : ∀ key' e', Function.update s.table key none key' = some e' → s.table key' = some e' :=
    fun key' e' hk' => (update_map_ne id hk' nofun).2
  refine ⟨fun key' e' hk' => h.fresh key' e' (hsub _ _ hk'), fun key' key'' e' hk' hk'' => h.single key' key'' e' (hsub _ _ hk') (hsub _ _ hk''),
    fun i key' e' hi => hold key' e' (h.guarded i key' e' hi) ?_, fun e' he' => ?_⟩
  · rintro rfl
    exact hlast i key' hi
  · obtain ⟨key', hk'⟩ := h.queued e' he'
    refine ⟨key', hold key' e' hk' ?_⟩
    rintro rfl
    exact he' hwq

omit [DecidableEq τ] in
/-- The drop of a guard: it is no guard any more, and then its entry may leave. -/
theorem Found.drop (h : s.Found) {idle : Nat → Bool} :
    Found {s with
      table := if s.table key = some e ∧ (∀ j, (s.guards j).inner = some e → j = i) ∧ s.wq e = []
        then Function.update s.table key none else s.table
      guards := Function.update s.guards i (.dropped e)
      idle := idle} := by
  have hg : Found {s with guards := Function.update s.guards i (.dropped e)} := h.guard i nofun
  split
  next hrm =>
    obtain ⟨hk, hso, hwq⟩ := hrm
    have hre := hg.remove hk (fun j key' hj => ?_) hwq
    · exact {hre with}
    · obtain ⟨hne, hold⟩ := update_map_ne id hj nofun
      exact hne (hso j (by rw [show s.guards j = _ from hold]; rfl))
  · exact {hg with}

omit [DecidableEq κ] [Fintype γ] [DecidableEq γ] [DecidableEq τ] in
/-- What stays in a queue was in it. -/
theorem Found.dequeue (h : s.Found) (e : Nat) {l : List τ} (hl : l ≠ [] → s.wq e ≠ []) :
    Found {s with wq := Function.update s.wq e l} := by
  refine h.queue fun e' he' => .inl ?_
  by_cases heq : e' = e
  · rw [heq, update_self] at he'
    exact heq ▸ hl he'
  · rwa [update_of_ne heq] at he'

end Found

theorem Found.step (l : TableLabel κ γ τ) (h : s.Found) (hst : machine.step l s = some t) : t.Found := by
  cases l with
  | leave e t =>
    cases hst
    exact h.dequeue e fun hne hno => hne (by rw [hno]; rfl)
  | get i key =>
    simp only [machine, GuardedTable.step] at hst
    split at hst <;> cases hst
    next e _ hk => exact h.guard i fun key' e' heq => by cases heq; exact hk
  | getOrInsert i key =>
    simp only [machine, GuardedTable.step] at hst
    split at hst <;> cases hst
    next e _ hk => exact h.guard i fun key' e' heq => by cases heq; exact hk
    next _ hno => exact (h.insert hno).guard i fun key' e' heq => by cases heq; exact update_self ..
  | enqueue i t =>
    simp only [machine, GuardedTable.step] at hst
    split at hst <;> cases hst
    next key e hi =>
      refine h.queue fun e' he' => ?_
      by_cases heq : e' = e
      · exact .inr ⟨i, key, heq ▸ hi⟩
      · exact .inl (by rwa [update_of_ne heq] at he')
  | wake i n =>
    simp only [machine, GuardedTable.step] at hst
    split at hst <;> cases hst
    exact h.dequeue _ fun hne hno => hne (by rw [hno, List.drop_nil])
  | requeue i j n =>
    simp only [machine, GuardedTable.step] at hst
    split at hst <;> cases hst
    next key e key' e' hi hj =>
      have hdq := h.dequeue e (l := (s.wq e).drop n) fun hne hno => hne (by rw [hno, List.drop_nil])
      refine hdq.queue fun e'' he'' => ?_
      by_cases heq : e'' = e'
      · exact .inr ⟨j, key', heq ▸ hj⟩
      · exact .inl (by rwa [update_of_ne heq] at he'')
  | drop i =>
    simp only [machine, GuardedTable.step] at hst
    split at hst <;> cases hst
    next key e hi => exact h.drop
  | release i =>
    simp only [machine, GuardedTable.step] at hst
    split at hst <;> cases hst
    exact h.guard i nofun

/-! ### Entries that are not needed -/

omit [DecidableEq κ] [Fintype γ] [DecidableEq τ] in
/-- A live guard is not lost where another begins or a dropped one ends. -/
theorem guard_stays {i : γ} {phase : GuardPhase κ} (hi : ∀ key e, s.guards i ≠ .live key e) {key : κ} {e : Nat}
    (h : ∃ j, s.guards j = .live key e) : ∃ j, Function.update s.guards i phase j = .live key e := by
  obtain ⟨j, hj⟩ := h
  have hne : j ≠ i := fun heq => hi key e (heq ▸ hj)
  exact ⟨j, (update_of_ne hne ..).trans hj⟩

/-- The last guard of an entry with nothing queued takes it along. -/
theorem Kept.drop {i : γ} (h : s.Kept) (hfi : Fine (.drop i) s) (hst : machine.step (.drop i) s = some t) : t.Kept := by
  have hfd := h.toFound.step (.drop i) hst
  simp only [machine, GuardedTable.step] at hst
  split at hst <;> cases hst
  next key e hi =>
    refine ⟨hfd, fun e' he' => ?_, fun key' e' hk' he' => ?_⟩
    · obtain ⟨rfl, -⟩ | ⟨-, hold⟩ := update_cases he'
      · exact h.fresh key e' (h.guarded i key e' hi)
      · exact h.unborn e' hold
    · have hold : s.table key' = some e' := by
        dsimp only at hk'
        split at hk'
        · exact (update_map_ne id hk' nofun).2
        · exact hk'
      obtain ⟨rfl, hem⟩ | ⟨hne, hid⟩ := update_cases he'
      · -- The entry stayed, so there is another reference, and it is not one on its way out.
        have hkey : key' = key := h.single key' key e' hold (h.guarded i key e' hi)
        subst hkey
        obtain ⟨j, hj, hji⟩ : ∃ j, (s.guards j).inner = some e' ∧ j ≠ i := by
          by_contra hno
          have hso : ∀ j, (s.guards j).inner = some e' → j = i := fun j hj => by_contra fun hji => hno ⟨j, hj, hji⟩
          rw [if_pos ⟨hold, hso, List.isEmpty_iff.mp hem⟩] at hk'
          exact absurd (hk'.symm.trans (update_self ..)) nofun
        refine ⟨j, (update_of_ne hji ..).trans ?_⟩
        cases hph : s.guards j with
        | none => rw [hph] at hj; cases hj
        | dropped e =>
          rw [hph] at hj
          cases hj
          exact absurd hph (hfi key' _ hi j)
        | live key'' e =>
          rw [hph] at hj
          cases hj
          rw [h.single key'' key' _ (h.guarded j key'' _ hph) hold]
      · obtain ⟨j, hj⟩ := h.used key' e' hold hid
        refine ⟨j, (update_of_ne (fun heq => hne ?_) ..).trans hj⟩
        rw [heq, hi] at hj
        cases hj
        rfl

theorem Kept.step (l : TableLabel κ γ τ) (s t : GuardedTable κ γ τ) (h : s.Kept) (hfi : Fine l s)
    (hst : machine.step l s = some t) : t.Kept := by
  have hfd := h.toFound.step l hst
  cases l with
  | leave e t =>
    cases hst
    exact ⟨hfd, h.unborn, h.used⟩
  | enqueue i t | wake i n | requeue i j n =>
    simp only [machine, GuardedTable.step] at hst
    split at hst <;> cases hst
    exact ⟨hfd, h.unborn, h.used⟩
  | get i key =>
    simp only [machine, GuardedTable.step] at hst
    split at hst <;> cases hst
    next hi _ => exact ⟨hfd, h.unborn, fun key' e' hk he => guard_stays (by rw [hi]; nofun) (h.used key' e' hk he)⟩
  | getOrInsert i key =>
    simp only [machine, GuardedTable.step] at hst
    split at hst <;> cases hst
    next hi _ => exact ⟨hfd, h.unborn, fun key' e' hk he => guard_stays (by rw [hi]; nofun) (h.used key' e' hk he)⟩
    next hi _ =>
      refine ⟨hfd, fun e' he => Nat.lt_succ_of_lt (h.unborn e' he), fun key' e' hk he => ?_⟩
      obtain ⟨-, hnew⟩ | ⟨-, hold⟩ := update_cases hk
      · -- A new entry was never idle.
        cases hnew
        exact absurd (h.unborn _ he) (Nat.lt_irrefl _)
      · exact guard_stays (by rw [hi]; nofun) (h.used key' e' hold he)
  | drop i => exact h.drop hfi hst
  | release i =>
    simp only [machine, GuardedTable.step] at hst
    split at hst <;> cases hst
    next hi => exact ⟨hfd, h.unborn, fun key' e' hk he => guard_stays (by rw [hi]; nofun) (h.used key' e' hk he)⟩

omit [DecidableEq κ] [Fintype γ] [DecidableEq γ] [DecidableEq τ] in
theorem initial_kept : (initial : GuardedTable κ γ τ).Kept where
  fresh := nofun
  single := nofun
  guarded := nofun
  queued := fun _ he => absurd rfl he
  unborn := nofun
  used := nofun

/-- **Guards of a key share an entry, which is in the table while a guard is live or a task is queued, and is gone when
its last guard is dropped with nothing queued**, in runs in which drops of guards of one entry do not overlap. -/
theorem entries_whole (labels : List (TableLabel κ γ τ)) (hfi : machine.Meets Fine initial labels)
    (hrun : machine.run initial labels = some t) :
    (∀ i j key e e', t.guards i = .live key e → t.guards j = .live key e' → e = e') ∧
      (∀ i key e, t.guards i = .live key e → t.table key = some e) ∧
      (∀ e, t.wq e ≠ [] → ∃ key, t.table key = some e) ∧
      ∀ key e, t.table key = some e → t.idle e = true → ∃ i, t.guards i = .live key e := by
  have h : t.Kept := Machine.run_induct_under Kept.step labels initial_kept hfi hrun
  refine ⟨fun i j key e e' hi hj => ?_, h.guarded, h.queued, h.used⟩
  exact Option.some.inj ((h.guarded i key e hi).symm.trans (h.guarded j key e' hj))

/-- Two guards of one key. -/
def shared : List (TableLabel Unit Bool Unit) := [.getOrInsert false (), .get true ()]

/-- A task is queued and woken up, and the guards are dropped one after the other. -/
def droppedInTurn : List (TableLabel Unit Bool Unit) :=
  shared ++ [.enqueue false (), .drop false, .release false, .wake true 1, .drop true, .release true]

theorem entries_whole_dropped : machine.Meets Fine initial droppedInTurn ∧
    ∃ t, machine.run initial droppedInTurn = some t ∧ t.idle 0 = true ∧ t.table () ≠ some 0 := by
  have hfine : machine.Meets Fine initial droppedInTurn := by
    simp [droppedInTurn, shared, Machine.Meets, Fine, machine, step, initial, Function.update, GuardPhase.inner]
  refine ⟨hfine, _, rfl, rfl, fun hk => ?_⟩
  obtain ⟨i, hi⟩ := (entries_whole droppedInTurn hfine rfl).2.2.2 () 0 hk rfl
  exact absurd hi (by revert i; decide)

/-- Each of the two drops still sees the reference of the other guard. -/
theorem entry_stays :
    ∃ t, machine.run initial (shared ++ [.drop false, .drop true, .release false, .release true]) = some t ∧
    t.table () = some 0 ∧ t.wq 0 = [] ∧ t.idle 0 = true ∧ ∀ i, t.guards i = .none :=
  ⟨_, rfl, by decide, rfl, rfl, by decide⟩

/-- **No waiter is out of reach**, whether drops of guards overlap or not. -/
theorem entries_found (labels : List (TableLabel κ γ τ)) : machine.Always Found (initial : GuardedTable κ γ τ) labels :=
  Machine.always_of_meets (fun l _ _ h _ hst => h.step l hst) (fun _ h => h) labels initial_kept.toFound
    (Machine.meets_trivial _ _)

end GuardedTable
end StarryX.Task
