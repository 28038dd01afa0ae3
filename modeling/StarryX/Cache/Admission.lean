import StarryX.Errno
import StarryX.Library.Machine

/-! The gate between mapping operations and `resize`.

Every read, write, sync and page acquisition of a mapping enters through
`enter_operation` — load the gate, count, load the gate again — and leaves through
`MappingOperation::drop`. `resize` closes the gate with a swap, waits until nobody is
counted, and opens it again on each of its exits. The atomic loads, stores, swaps and
counter updates are the steps here, one label each, and the wait queue's check, its
reservation and going to sleep are one step, as they are under the queue's lock.

`resize_admission` is the contract: while a resize has seen the count at zero and has
not reopened, nobody is admitted; one resize at a time holds the gate and the others
are turned away with nothing changed; and whoever closed the gate opens it exactly once. -/
namespace StarryX.Cache.Admission
open Library Function

/-- Where one call stands. The comment of each phase says what happens next. -/
inductive Phase where
  | idle
  /-- `enter_operation` read the gate open; next it counts itself. -/
  | entering
  /-- Counted; next it reads the gate again. -/
  | counted
  /-- The second read saw the gate closed; next it takes its count back. -/
  | refused
  /-- It was the last one counted; next it notifies the drain queue. -/
  | refusedLast
  | admitted
  /-- `MappingOperation::drop` was the last one counted; next it reads the gate. -/
  | leavingLast
  /-- The gate is closed; next it notifies the drain queue. -/
  | leavingNotify
  /-- `resize` was called; next it swaps the gate. -/
  | resizing (newLen : Nat)
  /-- It closed the gate; next it looks at the count under the queue's lock. -/
  | draining (newLen : Nat)
  /-- It found somebody counted and sleeps in the drain queue. -/
  | sleeping (newLen : Nat)
  /-- It saw the count at zero; next it samples the length and reserves its slot. -/
  | drained (newLen : Nat)
  /-- The slot is reserved; next it validates the observers of a shrink. -/
  | reserved (oldLen newLen : Nat)
  /-- Observers are invalidated; next it waits for the tail pages. -/
  | invalidated (newLen : Nat)
  /-- Next it sets the length of the backing. -/
  | truncating (newLen : Nat)
  /-- The backing has the new length; next it stores the logical size. -/
  | committing (newLen : Nat)
  /-- Next it stores the gate open, returning `result` afterwards; `sawZero` says whether
  this is an exit after the drain. -/
  | reopening (sawZero : Bool) (result : LinuxResult Unit)
  /-- The gate is open; next it notifies the drain queue. -/
  | reopened (result : LinuxResult Unit)
  | returned (result : LinuxResult Unit)

namespace Phase

/-- One of those `active_operations` counts. -/
def counts : Phase → Bool
  | .counted | .refused | .admitted => true
  | _ => false

/-- About to wake the drain queue, or to decide whether to. -/
def notifies : Phase → Bool
  | .refusedLast | .leavingLast | .leavingNotify => true
  | _ => false

/-- A resize between closing the gate and storing it open. -/
def pastGate : Phase → Bool
  | .draining _ | .sleeping _ | .drained _ | .reserved .. | .invalidated _ | .truncating _
  | .committing _ | .reopening .. => true
  | _ => false

/-- A resize between seeing the count at zero and storing the gate open. -/
def exclusive : Phase → Bool
  | .drained _ | .reserved .. | .invalidated _ | .truncating _ | .committing _ => true
  | .reopening sawZero _ => sawZero
  | _ => false

/-- How far a resize past the gate is from storing it open. -/
def left : Phase → Nat
  | .draining _ | .sleeping _ => 6
  | .drained _ => 5
  | .reserved .. => 4
  | .invalidated _ => 3
  | .truncating _ => 2
  | .committing _ => 1
  | _ => 0

/-- Being woken: back to looking at the count. -/
def wake : Phase → Phase
  | .sleeping newLen => .draining newLen
  | phase => phase

end Phase

/-- The gate, the counter and the lengths, and the calls that use them. `closes` and
`reopens` are history: how often each caller closed and opened the gate. -/
structure State (ι : Type) where
  acceptingOperations : Bool
  activeOperations : Nat
  logicalSize : Nat
  backingLen : Nat
  phase : ι → Phase
  closes : ι → Nat
  reopens : ι → Nat

/-- What a call does next: begin, take its next step, or have that step fail — an
allocation, an observer's validation or the backing, whichever the step asks. -/
inductive Action where
  | enter
  | leave
  | resize (newLen : Nat)
  | step
  | fail (error : LinuxError)

section Machine
variable {ι : Type} [DecidableEq ι]

def initial (length : Nat) : State ι :=
  { acceptingOperations := true
    activeOperations := 0
    logicalSize := length
    backingLen := length
    phase := fun _ => .idle
    closes := fun _ => 0
    reopens := fun _ => 0 }

def goto (s : State ι) (i : ι) (phase : Phase) : State ι :=
  {s with phase := update s.phase i phase}

/-- `drain_wait.notify_all`: every sleeping resize looks at the count again. -/
def notifyDrain (s : State ι) : State ι := {s with phase := fun i => (s.phase i).wake}

/-- `enter_operation` and `MappingOperation::drop`. -/
def operationStep (i : ι) (action : Action) (s : State ι) : Option (State ι) :=
  match s.phase i, action with
  | .idle, .enter =>
    some (goto s i (if s.acceptingOperations then .entering else .returned (.error .eagain)))
  | .entering, .step =>
    some (goto {s with activeOperations := s.activeOperations + 1} i .counted)
  | .counted, .step => some (goto s i (if s.acceptingOperations then .admitted else .refused))
  | .refused, .step =>
    some (goto {s with activeOperations := s.activeOperations - 1} i
      (if s.activeOperations = 1 then .refusedLast else .returned (.error .eagain)))
  | .refusedLast, .step => some (goto (notifyDrain s) i (.returned (.error .eagain)))
  | .admitted, .leave =>
    some (goto {s with activeOperations := s.activeOperations - 1} i
      (if s.activeOperations = 1 then .leavingLast else .returned (.ok ())))
  | .leavingLast, .step =>
    some (goto s i (if s.acceptingOperations then .returned (.ok ()) else .leavingNotify))
  | .leavingNotify, .step => some (goto (notifyDrain s) i (.returned (.ok ())))
  | .returned _, .leave => some (goto s i .idle)
  | _, _ => none

/-- `resize` and `resize_inactive`. -/
def resizeStep (i : ι) (action : Action) (s : State ι) : Option (State ι) :=
  match s.phase i, action with
  | .idle, .resize newLen => some (goto s i (.resizing newLen))
  | .resizing newLen, .step =>
    -- `swap(false)`: the previous value decides whether this call holds the gate.
    if s.acceptingOperations then
      some (goto {s with
        acceptingOperations := false
        closes := update s.closes i (s.closes i + 1)} i (.draining newLen))
    else some (goto s i (.returned (.error .eagain)))
  | .draining newLen, .step =>
    some (goto s i (if s.activeOperations = 0 then .drained newLen else .sleeping newLen))
  -- The wait reserves a slot only when it has to sleep.
  | .draining _, .fail .enomem =>
    if s.activeOperations = 0 then none else some (goto s i (.reopening false (.error .enomem)))
  | .drained newLen, .step => some (goto s i (.reserved s.logicalSize newLen))
  | .drained _, .fail .enomem => some (goto s i (.reopening true (.error .enomem)))
  | .reserved oldLen newLen, .step =>
    some (goto s i (if newLen < oldLen then .invalidated newLen else .truncating newLen))
  -- Validation happens only for a shrink.
  | .reserved oldLen newLen, .fail error =>
    if newLen < oldLen then some (goto s i (.reopening true (.error error))) else none
  | .invalidated newLen, .step => some (goto s i (.truncating newLen))
  | .truncating newLen, .step => some (goto {s with backingLen := newLen} i (.committing newLen))
  | .truncating _, .fail error => some (goto s i (.reopening true (.error error)))
  | .committing newLen, .step =>
    some (goto {s with logicalSize := newLen} i (.reopening true (.ok ())))
  | .reopening _ result, .step =>
    some (goto {s with
      acceptingOperations := true
      reopens := update s.reopens i (s.reopens i + 1)} i (.reopened result))
  | .reopened result, .step => some (goto (notifyDrain s) i (.returned result))
  | _, _ => none

def step (label : ι × Action) (s : State ι) : Option (State ι) :=
  (operationStep label.1 label.2 s).or (resizeStep label.1 label.2 s)

def machine : Machine (State ι) (ι × Action) := ⟨step⟩

end Machine

/-! ### What every step preserves -/

section Proofs
variable {ι : Type} [Fintype ι] {s t : State ι} (len : Nat)

/-- The counter counts the counted; the gate is closed exactly while one resize holds it;
nobody is admitted beside a resize that saw the count at zero; every close that is not
still pending was undone once; and a resize sleeps only while somebody will wake it. -/
structure Inv (s : State ι) : Prop where
  active : s.activeOperations = count Phase.counts s.phase
  gate : count Phase.pastGate s.phase = (!s.acceptingOperations).toNat
  alone : ∀ r, (s.phase r).exclusive = true → ∀ i, s.phase i ≠ .admitted
  history : ∀ i, s.closes i = s.reopens i + (s.phase i).pastGate.toNat
  wakes : ∀ r newLen, s.phase r = .sleeping newLen →
    0 < s.activeOperations ∨ ∃ i, (s.phase i).notifies = true

theorem initial_inv : Inv (initial len : State ι) where
  active := (count_eq_zero.mpr fun _ => rfl).symm
  gate := count_eq_zero.mpr fun _ => rfl
  alone := nofun
  history := fun _ => rfl
  wakes := nofun

/-- While the gate is open no resize is past it. -/
theorem Inv.open_gate (h : Inv s) (hop : s.acceptingOperations) (r : ι) :
    (s.phase r).pastGate = false := by
  have hz := h.gate
  rw [hop] at hz
  exact count_eq_zero.mp hz r

variable {p : Phase}

theorem Phase.exclusive_pastGate (h : p.exclusive) : p.pastGate := by
  cases p <;> first | rfl | cases h

theorem Phase.wake_counts (p : Phase) : p.wake.counts = p.counts := by cases p <;> rfl

theorem Phase.wake_pastGate (p : Phase) : p.wake.pastGate = p.pastGate := by cases p <;> rfl

theorem Phase.wake_exclusive (p : Phase) : p.wake.exclusive = p.exclusive := by cases p <;> rfl

theorem Phase.wake_admitted (h : p.wake = .admitted) : p = .admitted := by
  cases p <;> first | rfl | cases h

open Phase (counts pastGate wake wake_pastGate)

/-- A notification leaves nobody asleep. -/
theorem notifyDrain_awake {ι : Type} (s : State ι) (r : ι) (n : Nat) :
    (notifyDrain s).phase r ≠ .sleeping n :=
  by cases h : s.phase r <;> simp [notifyDrain, h, wake]

theorem Inv.notifyDrain (h : Inv s) : Inv (notifyDrain s) where
  active := h.active.trans (count_congr fun i => (Phase.wake_counts (s.phase i)).symm)
  gate := (count_congr fun i => wake_pastGate (s.phase i)).trans h.gate
  alone := fun r hr i hi => h.alone r (by rw [← hr]; exact (Phase.wake_exclusive _).symm) i
    (Phase.wake_admitted hi)
  history := fun i => by
    show s.closes i = s.reopens i + (s.phase i).wake.pastGate.toNat
    rw [wake_pastGate]
    exact h.history i
  wakes := fun r n hr => absurd hr (notifyDrain_awake s r n)

variable [DecidableEq ι] {i : ι} {q : Phase}

/-- One call's move. `a`, `g`, `c` and `r` are the counter, the gate and the caller's two
histories after it; the hypotheses are what the move owes the invariant. -/
theorem Inv.move (h : Inv s) (i : ι) {a l b c r : Nat} {g : Bool}
    (hact : a + (s.phase i).counts.toNat = s.activeOperations + p.counts.toNat)
    (hga : (!g).toNat + (s.phase i).pastGate.toNat = (!s.acceptingOperations).toNat + p.pastGate.toNat)
    (had : p = .admitted → s.acceptingOperations)
    (hel : p.exclusive → (s.phase i).exclusive ∨ s.activeOperations = 0)
    (hhi : c = r + p.pastGate.toNat) (hsl : ∀ n, p = .sleeping n → 0 < a)
    (hwa : (∃ j n, s.phase j = .sleeping n) →
      0 < a ∨ p.notifies ∨ a = s.activeOperations ∧ (s.phase i).notifies = false) :
    Inv (goto {s with
      activeOperations := a
      acceptingOperations := g
      logicalSize := l
      backingLen := b
      closes := update s.closes i c
      reopens := update s.reopens i r} i p) where
  active := by
    have := count_update counts s.phase i p
    have := h.active
    simp only [goto]
    omega
  gate := by
    have := count_update pastGate s.phase i p
    have := h.gate
    simp only [goto]
    omega
  alone := by
    intro j hj k hk
    have hj : (update s.phase i p j).exclusive := hj
    -- Whoever is exclusive after the move, nobody else was admitted before it, and the
    -- mover is admitted only through an open gate.
    obtain ⟨rfl, hmi⟩ | ⟨-, hk⟩ := update_cases hk
    · have hop := had hmi
      obtain ⟨-, hq⟩ | ⟨-, hold⟩ := update_cases (rfl : update s.phase k p j = _)
      · rw [← hq, hmi] at hj
        cases hj
      · rw [← hold] at hj
        have := h.open_gate hop j
        rw [Phase.exclusive_pastGate hj] at this
        cases this
    · obtain ⟨rfl, hq⟩ | ⟨-, hold⟩ := update_cases (rfl : update s.phase i p j = _)
      · obtain hex | hz := hel (hq ▸ hj)
        · exact h.alone j hex k hk
        · have := h.active
          rw [hz] at this
          have := count_eq_zero.mp this.symm k
          rw [hk] at this
          cases this
      · exact h.alone j (hold ▸ hj) k hk
  history := by
    intro j
    by_cases hji : j = i
    · subst hji
      simpa only [goto, update_self] using hhi
    · simpa only [goto, update_of_ne hji] using h.history j
  wakes := by
    intro j n hj
    obtain ⟨-, hq⟩ | ⟨-, hj⟩ := update_cases hj
    · exact .inl (hsl n hq)
    · obtain ha | hp | ⟨ha, hold⟩ := hwa ⟨j, n, hj⟩
      · exact .inl ha
      · exact .inr ⟨i, by simpa only [goto, update_self] using hp⟩
      · obtain hpos | ⟨k, hk⟩ := h.wakes j n hj
        · exact .inl (ha ▸ hpos)
        · have hki : k ≠ i := by
            rintro rfl
            rw [hold] at hk
            cases hk
          exact .inr ⟨k, by simpa only [goto, update_of_ne hki] using hk⟩

/-- A move that leaves the gate and the caller's history alone. -/
theorem Inv.quiet (h : Inv s) (i : ι) {a l b : Nat}
    (hact : a + (s.phase i).counts.toNat = s.activeOperations + p.counts.toNat)
    (hga : p.pastGate = (s.phase i).pastGate) (had : p = .admitted → s.acceptingOperations)
    (hel : p.exclusive → (s.phase i).exclusive ∨ s.activeOperations = 0)
    (hsl : ∀ n, p = .sleeping n → 0 < a) (hwa : (∃ j n, s.phase j = .sleeping n) →
      0 < a ∨ p.notifies ∨ a = s.activeOperations ∧ (s.phase i).notifies = false) :
    Inv (goto {s with activeOperations := a, logicalSize := l, backingLen := b} i p) := by
  have := h.move i (l := l) (b := b) (c := s.closes i)
    hact (by rw [hga]) had hel (by rw [hga]; exact h.history i) hsl hwa
  simpa only [update_eq_self] using this

/-- A move that only changes the phase, and not by entering or leaving a group the
invariant counts. -/
theorem Inv.pass (h : Inv s) (hp : s.phase i = p) (hcs : q.counts = p.counts)
    (hga : q.pastGate = p.pastGate) (hel : q.exclusive → p.exclusive)
    (hno : p.notifies = false) (hpl : q ≠ .admitted ∧ ∀ n, q ≠ .sleeping n) : Inv (goto s i q) := by
  subst hp
  exact h.quiet i (by rw [hcs]) hga (fun ha => absurd ha hpl.1)
    (fun he => .inl (hel he)) (fun n hn => absurd hn (hpl.2 n))
    (fun _ => .inr (.inr ⟨rfl, hno⟩))

/-- The last step of a notification: nobody sleeps any more. -/
theorem Inv.notified (h : Inv s) (hp : s.phase i = p)
    (hp' : p.counts = false ∧ p.pastGate = false) (hq : q.counts = false ∧ q.pastGate = false)
    (hpl : q ≠ .admitted ∧ q.exclusive = false ∧ ∀ n, q ≠ .sleeping n) :
    Inv (goto (Admission.notifyDrain s) i q) := by
  have hwa : ((Admission.notifyDrain s).phase i).counts = false ∧
      ((Admission.notifyDrain s).phase i).pastGate = false := by
    show (s.phase i).wake.counts = false ∧ (s.phase i).wake.pastGate = false
    rw [Phase.wake_counts, wake_pastGate, hp]
    exact hp'
  refine h.notifyDrain.quiet i ?_ ?_ (fun ha => absurd ha hpl.1) ?_
    (fun n hn => absurd hn (hpl.2.2 n)) ?_
  · rw [hwa.1, hq.1]
    rfl
  · rw [hwa.2, hq.2]
  · intro he
    rw [hpl.2.1] at he
    cases he
  · rintro ⟨j, n, hj⟩
    exact absurd hj (notifyDrain_awake s j n)

/-- Phases an operation passes through after taking its count back. -/
def Phase.outside (p : Phase) : Prop :=
  p.counts = false ∧ p.pastGate = false ∧ p.exclusive = false ∧ p ≠ .admitted ∧ ∀ n, p ≠ .sleeping n

/-- Taking a count back: the last one counted goes on to notify. -/
theorem Inv.uncount (h : Inv s) {last done : Phase} (hp : s.phase i = p) (hcs : p.counts)
    (hga : p.pastGate = false) (hla : last.outside) (hno : last.notifies) (hdo : done.outside) :
    Inv (goto {s with activeOperations := s.activeOperations - 1} i
      (if s.activeOperations = 1 then last else done)) := by
  subst hp
  have hpos : 0 < s.activeOperations := h.active ▸ count_pos hcs
  split
  case isTrue hone =>
    obtain ⟨hc, hg, he, ha, hs⟩ := hla
    refine h.quiet i ?_ (hg.trans hga.symm) (fun h => absurd h ha) ?_ (fun n h => absurd h (hs n))
      (fun _ => .inr (.inl hno))
    · rw [hcs, hc]
      simp only [Bool.toNat_true, Bool.toNat_false]
      omega
    · rw [he]
      exact nofun
  case isFalse hmany =>
    obtain ⟨hc, hg, he, ha, hs⟩ := hdo
    refine h.quiet i ?_ (hg.trans hga.symm) (fun h => absurd h ha) ?_ (fun n h => absurd h (hs n))
      (fun _ => .inl (by omega))
    · rw [hcs, hc]
      simp only [Bool.toNat_true, Bool.toNat_false]
      omega
    · rw [he]
      exact nofun

theorem operationStep_inv (i : ι) (action : Action) (h : Inv s)
    (hst : operationStep i action s = some t) : Inv t := by
  unfold operationStep at hst
  split at hst
  case h_1 hp =>
    cases hst
    split <;> exact h.pass hp rfl rfl nofun rfl ⟨nofun, nofun⟩
  case h_2 hp =>
    cases hst
    refine h.quiet i ?_ ?_ nofun nofun nofun (fun _ => .inl (Nat.succ_pos _)) <;>
      simp [hp, counts, pastGate]
  case h_3 hp =>
    cases hst
    split
    case isTrue hopen =>
      refine h.quiet i ?_ ?_ (fun _ => hopen) nofun nofun ?_ <;>
        simp [hp, counts, pastGate, Phase.notifies]
    case isFalse => exact h.pass hp rfl rfl nofun rfl ⟨nofun, nofun⟩
  case h_4 hp =>
    cases hst
    exact h.uncount hp rfl rfl ⟨rfl, rfl, rfl, nofun, nofun⟩ rfl ⟨rfl, rfl, rfl, nofun, nofun⟩
  case h_5 hp =>
    cases hst
    exact h.notified hp ⟨rfl, rfl⟩ ⟨rfl, rfl⟩ ⟨nofun, rfl, nofun⟩
  case h_6 hp =>
    cases hst
    exact h.uncount hp rfl rfl ⟨rfl, rfl, rfl, nofun, nofun⟩ rfl ⟨rfl, rfl, rfl, nofun, nofun⟩
  case h_7 hp =>
    cases hst
    split
    case isTrue hopen =>
      -- Through an open gate there is no resize asleep, so nobody is owed a wake-up.
      refine h.quiet i (by rw [hp]; rfl) (by rw [hp]; rfl) nofun nofun nofun ?_
      rintro ⟨j, n, hj⟩
      have := h.open_gate hopen j
      rw [hj] at this
      cases this
    case isFalse =>
      exact h.quiet i (by rw [hp]; rfl) (by rw [hp]; rfl) nofun nofun nofun
        (fun _ => .inr (.inl rfl))
  case h_8 hp =>
    cases hst
    exact h.notified hp ⟨rfl, rfl⟩ ⟨rfl, rfl⟩ ⟨nofun, rfl, nofun⟩
  case h_9 hp =>
    cases hst
    exact h.pass hp rfl rfl nofun rfl ⟨nofun, nofun⟩
  case h_10 => cases hst

theorem resizeStep_inv (i : ι) (action : Action) (h : Inv s)
    (hst : resizeStep i action s = some t) : Inv t := by
  unfold resizeStep at hst
  split at hst
  case h_2 newLen hp =>
    split at hst
    case isTrue hop =>
      cases hst
      have hhi := h.history i
      rw [hp] at hhi
      have := h.move i (p := .draining newLen) (g := false) (l := s.logicalSize)
        (b := s.backingLen) (c := s.closes i + 1) (r := s.reopens i) (by rw [hp]; rfl)
        (by rw [hp, hop]; rfl) nofun nofun (by rw [hhi]; rfl) nofun
        (fun _ => .inr (.inr ⟨rfl, by rw [hp]; rfl⟩))
      simpa only [update_eq_self] using this
    case isFalse =>
      cases hst
      exact h.pass hp rfl rfl nofun rfl ⟨nofun, nofun⟩
  case h_3 hp =>
    cases hst
    split
    case isTrue hz =>
      exact h.quiet i (by rw [hp]; rfl) (by rw [hp]; rfl) nofun (fun _ => .inr hz) nofun
        (fun _ => .inr (.inr ⟨rfl, by rw [hp]; rfl⟩))
    case isFalse hpos =>
      exact h.quiet i (by rw [hp]; rfl) (by rw [hp]; rfl) nofun nofun
        (fun _ _ => Nat.pos_of_ne_zero hpos) (fun _ => .inl (Nat.pos_of_ne_zero hpos))
  case h_4 hp =>
    split at hst
    · cases hst
    · cases hst
      exact h.pass hp rfl rfl nofun rfl ⟨nofun, nofun⟩
  case h_7 hp =>
    cases hst
    split <;> exact h.pass hp rfl rfl (fun _ => rfl) rfl ⟨nofun, nofun⟩
  case h_8 hp =>
    split at hst
    · cases hst
      exact h.pass hp rfl rfl (fun _ => rfl) rfl ⟨nofun, nofun⟩
    · cases hst
  case h_10 hp =>
    cases hst
    exact h.quiet i (by rw [hp]; rfl) (by rw [hp]; rfl) nofun (fun _ => .inl (by rw [hp]; rfl)) nofun
      (fun _ => .inr (.inr ⟨rfl, by rw [hp]; rfl⟩))
  case h_12 hp =>
    cases hst
    exact h.quiet i (by rw [hp]; rfl) (by rw [hp]; rfl) nofun (fun _ => .inl (by rw [hp]; rfl)) nofun
      (fun _ => .inr (.inr ⟨rfl, by rw [hp]; rfl⟩))
  case h_13 result hp =>
    cases hst
    have hhi := h.history i
    rw [hp] at hhi
    have hcl : s.acceptingOperations = false := by
      cases hg : s.acceptingOperations
      · rfl
      · have := h.open_gate hg i
        rw [hp] at this
        cases this
    have := h.move i (p := .reopened result) (g := true) (l := s.logicalSize)
      (b := s.backingLen) (c := s.closes i) (by rw [hp]; rfl)
      (by rw [hp, hcl]; rfl) nofun nofun (by rw [hhi]; rfl) nofun
      (fun _ => .inr (.inr ⟨rfl, by rw [hp]; rfl⟩))
    simpa only [update_eq_self] using this
  case h_14 hp =>
    cases hst
    exact h.notified hp ⟨rfl, rfl⟩ ⟨rfl, rfl⟩ ⟨nofun, rfl, nofun⟩
  case h_15 => cases hst
  -- Every other step only moves this call on, past the gate or still before it.
  all_goals
    rename_i hp
    cases hst
    exact h.pass hp rfl rfl (fun he => by first | rfl | exact nomatch he) rfl ⟨nofun, nofun⟩

theorem step_inv (l : ι × Action) (s t : State ι) (h : Inv s) (hst : step l s = some t) :
    Inv t := by
  obtain hop | ⟨_, hre⟩ := Option.or_eq_some_iff.mp hst
  · exact operationStep_inv l.1 l.2 h hop
  · exact resizeStep_inv l.1 l.2 h hre

/-- Every state any interleaving reaches. -/
theorem run_inv (ls : List (ι × Action)) (h : machine.run (initial len) ls = some s) : Inv s :=
  Machine.run_induct step_inv ls (initial_inv len) h

omit [Fintype ι] in
/-- Past the gate a call that is not asleep can always go on, and each of its steps, failing ones
too, brings it nearer to opening the gate, or puts it to sleep behind somebody counted. -/
theorem pastGate_progress {r : ι} (hr : (s.phase r).pastGate) (haw : ∀ n, s.phase r ≠ .sleeping n) :
    (step (r, .step) s).isSome ∧ ∀ action t, step (r, action) s = some t →
      if (s.phase r).left = 0 then t.acceptingOperations = true ∧ t.reopens r = s.reopens r + 1
      else (t.phase r).pastGate = true ∧
        ((t.phase r).left < (s.phase r).left ∨ 0 < s.activeOperations ∧ ∃ n, t.phase r = .sleeping n) := by
  have hop : ∀ action, operationStep r action s = none := by
    intro action
    cases hp : s.phase r <;> simp [hp, pastGate] at hr <;> simp [operationStep, hp]
  simp only [step, hop, Option.none_or]
  refine ⟨?_, fun action t hst => ?_⟩
  · cases hp : s.phase r with
    | sleeping n => exact absurd hp (haw n)
    | _ => simp [hp, pastGate] at hr <;> simp [resizeStep, hp]
  unfold resizeStep at hst
  split at hst
  case h_1 hp | h_2 hp | h_14 hp =>
    rw [hp] at hr
    cases hr
  case h_3 hp =>
    -- The only step that may not come nearer, and only while somebody is counted.
    cases hst
    by_cases hz : s.activeOperations = 0
    · simp [hp, hz, goto, Phase.left, pastGate]
    · simp [hp, hz, goto, Phase.left, pastGate, Nat.pos_of_ne_zero hz]
  case h_4 hp | h_8 hp =>
    split at hst <;> cases hst
    simp [hp, goto, Phase.left, pastGate]
  case h_7 oldLen newLen hp =>
    cases hst
    by_cases hlt : newLen < oldLen <;> simp [hp, hlt, goto, Phase.left, pastGate]
  case h_15 => cases hst
  all_goals
    rename_i hp
    cases hst
    simp [hp, goto, Phase.left, pastGate]

/-- **Resize admission.** In every state any interleaving of operations and resizes
reaches: beside a resize that saw the count at zero and has not reopened nobody is
admitted; at most one resize is past the gate, and another that reaches it meanwhile is
turned away with `EAGAIN` and nothing else changed; every time a caller closed the gate
it opened it once, unless that call still holds it; a closed gate has a holder, who is
never asleep without somebody left to wake it; and a holder that is not asleep has a step,
and each of its steps, whether it fails or not, brings it nearer to opening the gate. -/
theorem resize_admission (length : Nat) (labels : List (ι × Action))
    (hrun : machine.run (initial length) labels = some s) :
    (∀ r, (s.phase r).exclusive = true → ∀ i, s.phase i ≠ .admitted) ∧
      (∀ r r', (s.phase r).pastGate = true → (s.phase r').pastGate = true → r = r') ∧
      (∀ r i newLen, (s.phase r).pastGate = true → s.phase i = .resizing newLen →
        step (i, .step) s = some (goto s i (.returned (.error .eagain)))) ∧
      (∀ i, s.closes i = s.reopens i + (s.phase i).pastGate.toNat) ∧
      (s.acceptingOperations = false → ∃ r, (s.phase r).pastGate = true ∧
        ∀ newLen, s.phase r = .sleeping newLen →
          0 < s.activeOperations ∨ ∃ i, (s.phase i).notifies = true) ∧
      ∀ r, (s.phase r).pastGate = true → (∀ newLen, s.phase r ≠ .sleeping newLen) →
        (step (r, .step) s).isSome = true ∧ ∀ action t, step (r, action) s = some t →
          if (s.phase r).left = 0 then t.acceptingOperations = true ∧ t.reopens r = s.reopens r + 1
          else (t.phase r).pastGate = true ∧ ((t.phase r).left < (s.phase r).left ∨
            0 < s.activeOperations ∧ ∃ newLen, t.phase r = .sleeping newLen) := by
  have h := run_inv length labels hrun
  refine ⟨h.alone, ?_, ?_, h.history, ?_, fun r => pastGate_progress⟩
  · intro r r' hr hr'
    by_contra hne
    have := two_le_count hne hr hr'
    have := h.gate
    have := Bool.toNat_le (!s.acceptingOperations)
    omega
  · intro r i newLen hr hi
    have hcl : s.acceptingOperations = false := by
      cases hg : s.acceptingOperations
      · rfl
      · rw [h.open_gate hg r] at hr
        cases hr
    simp [step, operationStep, resizeStep, hi, hcl]
  · intro hcl
    have hone := h.gate
    rw [hcl] at hone
    obtain ⟨r, hr⟩ := exists_of_count_pos (hone ▸ Nat.one_pos : 0 < count pastGate s.phase)
    exact ⟨r, hr, h.wakes r⟩

/-- One operation is admitted, leaves and drains the gate for a resize; a second resize
comes while the first one holds it. -/
def contended : List (Fin 3 × Action) :=
  [(0, .enter), (0, .step), (0, .step), (1, .resize 4), (1, .step), (1, .step), (0, .leave),
    (0, .step), (0, .step), (1, .step), (2, .resize 6), (2, .step)]

theorem resize_admission_contended : ∃ s : State (Fin 3),
    machine.run (initial 8) contended = some s ∧ s.phase 1 = .drained 4 ∧
      s.phase 2 = .returned (.error .eagain) ∧ ∀ i, s.phase i ≠ .admitted :=
  ⟨_, rfl, rfl, rfl, (resize_admission 8 contended rfl).1 1 rfl⟩

end Proofs

end StarryX.Cache.Admission
