import StarryX.Errno
import StarryX.Library.Machine

/-! Shutting the cache down.

Cache operations run under a permit: load the flag, count, load the flag again. `shutdown`
clears the flag with a swap and moves the lifecycle on; the flush it asks for is done by the
worker if one is running, and by `shutdown` itself otherwise. The atomic loads, swaps and
counter updates are the steps here, one label each, and so is what is done under the lock of
the lifecycle. A notification only decides when a waiter looks again; here it may look again
at any time, so notifications are no steps.

`shutdown_protocol` is the contract: one flush at most, with no permit held when it starts
and none granted later; and what the calls of `shutdown` return. -/
namespace StarryX.Cache.Shutdown
open Library Function
open Bool (toNat_false toNat_true)

inductive Lifecycle where
  | running
  | closing
  | closed
  deriving DecidableEq

/-- Where a call of `permit`, and the drop of what it gave, stands. -/
inductive Stage where
  /-- Next it reads the flag. -/
  | asked
  /-- Next it counts itself. -/
  | loaded
  /-- Next it reads the flag again. -/
  | counted
  /-- Next it takes its count back. -/
  | refused
  /-- Granted; the drop takes the count back. -/
  | held

/-- Where `shutdown_flush` stands. -/
inductive Flush where
  /-- Next it looks whether anybody is counted. -/
  | draining
  /-- It writes back and reclaims. -/
  | writing
  /-- Next it reads `resident_pages`, unless writing back failed. -/
  | reclaimed (writeback : LinuxResult Unit)
  /-- No page was resident; next it reads `dirty_pages`. -/
  | residentClear
  | ended (result : LinuxResult Unit)

/-- Where one call stands. -/
inductive Phase where
  | idle
  | operation (stage : Stage)
  /-- `run_worker` was called; next it looks at the lifecycle. -/
  | starting
  /-- `wait_for_work`; next it reads the epoch. -/
  | waiting (seenEpoch : Nat)
  /-- Next it looks at the lifecycle. -/
  | checking (seenEpoch epoch : Nat)
  | asleep (seenEpoch epoch : Nat)
  | maintaining (seenEpoch : Nat) (stage : Stage)
  /-- The flush, by the worker or by a call of `shutdown`. -/
  | flushing (worker : Bool) (flush : Flush)
  /-- `shutdown` was called; next it swaps the flag. -/
  | swapping
  /-- Next it moves the lifecycle on. -/
  | closing
  /-- Next it looks for the result of the flush. -/
  | awaiting
  /-- Next it takes the result. -/
  | taking
  | panicked

namespace Stage

def counts : Stage → Bool
  | .counted | .refused | .held => true
  | _ => false

def holds : Stage → Bool
  | .held => true
  | _ => false

end Stage

namespace Phase

/-- One of those `active_operations` counts. -/
def counts : Phase → Bool
  | .operation stage | .maintaining _ stage => stage.counts
  | _ => false

def holds : Phase → Bool
  | .operation stage | .maintaining _ stage => stage.holds
  | _ => false

/-- A call that goes on to the flush once the lifecycle is past `Running`. -/
def mayFlush : Phase → Bool
  | .waiting _ | .checking .. | .asleep .. | .maintaining .. | .flushing _ .draining => true
  | _ => false

def inFlush : Phase → Bool
  | .flushing .. => true
  | _ => false

/-- The flush between its start and what it last reads. -/
def measuring : Phase → Bool
  | .flushing _ .writing | .flushing _ (.reclaimed _) | .flushing _ .residentClear => true
  | _ => false

/-- A `shutdown` that cleared the flag. -/
def first : Phase → Bool
  | .closing | .awaiting | .taking => true
  | .flushing worker _ => !worker
  | _ => false

def clear : Phase → Bool
  | .flushing _ .residentClear => true
  | _ => false

/-- The flush went well. -/
def clean : Phase → Bool
  | .flushing _ (.ended (.ok ())) => true
  | _ => false

end Phase

/-- The manager, and the calls that use it. The last five fields are history: how many flushes
started, the two counters at the last read of a flush, how many calls of `shutdown` reached
the flag, the rank of each of these, and what the calls returned. -/
structure State (ι : Type) where
  acceptingOperations : Bool
  activeOperations : Nat
  lifecycle : Lifecycle
  workerRunning : Bool
  workerResult : Option (LinuxResult Unit)
  progressEpoch : Nat
  residentPages : Nat
  dirtyPages : Nat
  phase : ι → Phase
  flushes : Nat
  observed : Option (Nat × Nat)
  calls : Nat
  rank : ι → Nat
  outcomes : List (Nat × LinuxResult Unit)

/-- What a call does next: begin, take its next step, or, in the middle of one, change the
counters. `written` is how the writeback of the flush ends. -/
inductive Action where
  | operation
  | runWorker
  | shutdown
  | step
  | count (resident dirty : Nat)
  | written (writeback : LinuxResult Unit)
  | wake

section Machine
variable {ι : Type} [DecidableEq ι]

def initial : State ι :=
  { acceptingOperations := true
    activeOperations := 0
    lifecycle := .running
    workerRunning := false
    workerResult := none
    progressEpoch := 0
    residentPages := 0
    dirtyPages := 0
    phase := fun _ => .idle
    flushes := 0
    observed := none
    calls := 0
    rank := fun _ => 0
    outcomes := [] }

def goto (s : State ι) (i : ι) (phase : Phase) : State ι :=
  {s with phase := update s.phase i phase}

def finish (s : State ι) (i : ι) (result : LinuxResult Unit) : State ι :=
  goto {s with outcomes := s.outcomes ++ [(s.rank i, result)]} i .idle

/-- `permit` and `OperationPermit::drop`. `place` says where the call stands. -/
def permitStep (place : Stage → Phase) (after : Phase) (i : ι) (stage : Stage) (s : State ι) : State ι :=
  match stage with
  | .asked => goto s i (if s.acceptingOperations then place .loaded else after)
  | .loaded => goto {s with activeOperations := s.activeOperations + 1} i (place .counted)
  | .counted => goto s i (place (if s.acceptingOperations then .held else .refused))
  | .refused | .held => goto {s with activeOperations := s.activeOperations - 1} i after

/-- `run_worker` and `wait_for_work`; the permit is that of `maintain`. -/
def workerStep (i : ι) (s : State ι) : Option (State ι) :=
  match s.phase i with
  | .starting =>
    if s.lifecycle ≠ .running then some (goto s i .idle)
    else if s.workerRunning then some (goto s i .panicked)
    else some (goto {s with workerRunning := true} i (.waiting 0))
  | .waiting seen => some (goto s i (.checking seen s.progressEpoch))
  | .checking seen epoch =>
    if s.lifecycle ≠ .running then some (goto s i (.flushing true .draining))
    else some (goto s i (if seen ≠ epoch then .maintaining epoch .asked else .asleep seen epoch))
  | .asleep seen epoch =>
    if s.lifecycle ≠ .running ∨ s.progressEpoch ≠ epoch then some (goto s i (.waiting seen)) else none
  | .maintaining seen stage => some (permitStep (.maintaining seen) (.waiting seen) i stage s)
  | _ => none

/-- `shutdown_flush`, and storing its result. -/
def flushStep (i : ι) (worker : Bool) (flush : Flush) (s : State ι) : Option (State ι) :=
  match flush with
  | .draining =>
    if s.activeOperations = 0 then
      some (goto {s with flushes := s.flushes + 1} i (.flushing worker .writing))
    else none
  | .writing => none
  | .reclaimed (.error e) => some (goto s i (.flushing worker (.ended (.error e))))
  | .reclaimed (.ok ()) =>
    if s.residentPages ≠ 0 then
      some (goto {s with observed := some (s.residentPages, s.dirtyPages)} i
        (.flushing worker (.ended (.error .ebusy))))
    else some (goto s i (.flushing worker .residentClear))
  | .residentClear =>
    some (goto {s with observed := some (s.residentPages, s.dirtyPages)} i
      (.flushing worker (.ended (if s.dirtyPages ≠ 0 then .error .ebusy else .ok ()))))
  | .ended result =>
    if worker then some (goto {s with workerRunning := false, workerResult := some result} i .idle)
    else some (goto {s with workerResult := some result} i .awaiting)

def shutdownStep (i : ι) (s : State ι) : Option (State ι) :=
  match s.phase i with
  | .swapping =>
    -- The rank of a call is how many reached the flag before it.
    let t := {s with calls := s.calls + 1, rank := update s.rank i s.calls}
    if s.acceptingOperations then some (goto {t with acceptingOperations := false} i .closing)
    else some (finish t i (.error .eshutdown))
  | .closing =>
    if s.lifecycle ≠ .running then some (finish s i (.error .eshutdown))
    else some (goto {s with lifecycle := .closing} i
      (if s.workerRunning then .awaiting else .flushing false .draining))
  | .awaiting =>
    if s.activeOperations = 0 ∧ s.workerResult.isSome then some (goto s i .taking) else none
  | .taking =>
    if s.lifecycle ≠ .closing then some (finish s i (.error .eshutdown))
    else
      match s.workerResult with
      | none => some (goto s i .panicked)
      | some result => some (finish {s with workerResult := none, lifecycle := .closed} i result)
  | _ => none

/-- Pages become resident under a permit, or in the flush; they may go, and become dirty or
clean, at any time. -/
def mayCount (phase : Phase) (s : State ι) (resident : Nat) : Bool :=
  phase.holds || (match phase with | .flushing _ .writing => true | _ => false) ||
    decide (resident ≤ s.residentPages)

def step (label : ι × Action) (s : State ι) : Option (State ι) :=
  let i := label.1
  match label.2, s.phase i with
  | .operation, .idle => some (goto s i (.operation .asked))
  | .runWorker, .idle => some (goto s i .starting)
  | .shutdown, .idle => some (goto s i .swapping)
  | .step, .operation stage => some (permitStep .operation .idle i stage s)
  | .step, .flushing worker flush => flushStep i worker flush s
  | .step, _ => (workerStep i s).or (shutdownStep i s)
  | .count resident dirty, phase =>
    if mayCount phase s resident then some {s with residentPages := resident, dirtyPages := dirty} else none
  | .written writeback, .flushing worker .writing => some (goto s i (.flushing worker (.reclaimed writeback)))
  | .wake, _ => some {s with progressEpoch := s.progressEpoch + 1}
  | _, _ => none

def machine : Machine (State ι) (ι × Action) := ⟨step⟩

end Machine

/-! ### The invariant -/

section Inv
variable {ι : Type} [Fintype ι] {s : State ι} {i : ι} {p : Phase}

/-- The counter counts the counted; the flag is clear once a `shutdown` was there, and the
lifecycle does not move on before that. There is one flush, done or to be done, as soon as the
lifecycle is past `Running`, and from its start nobody holds a permit. A good result was
measured: both counters were zero. -/
structure Inv (s : State ι) : Prop where
  active : s.activeOperations = count Phase.counts s.phase
  gate : s.acceptingOperations = decide (s.calls = 0)
  closed : s.lifecycle ≠ .running → s.calls ≠ 0
  tickets : s.flushes + count Phase.mayFlush s.phase =
    if s.lifecycle = .running then s.workerRunning.toNat else 1
  unflushed : s.lifecycle = .running → s.flushes = 0
  inFlush : ∀ i, (s.phase i).inFlush = true → s.lifecycle ≠ .running
  alone : 0 < s.flushes → ∀ i, (s.phase i).holds = false
  measuring : count Phase.measuring s.phase + s.observed.isSome.toNat ≤ s.flushes
  clear : ∀ i, (s.phase i).clear = true → s.residentPages = 0
  result : s.workerResult = some (.ok ()) → s.observed = some (0, 0)
  clean : ∀ i, (s.phase i).clean = true → s.observed = some (0, 0)
  rank : ∀ i, (s.phase i).first = true → s.rank i = 0 ∧ s.calls ≠ 0
  outcomes : ∀ o ∈ s.outcomes, (o.1 = 0 → o.2 = .ok () → s.observed = some (0, 0)) ∧
    (o.1 ≠ 0 → o.2 = .error .eshutdown)

theorem initial_inv : Inv (initial : State ι) where
  active := (count_eq_zero.mpr fun _ => rfl).symm
  gate := rfl
  closed := fun h => absurd rfl h
  tickets := by
    have hn : count Phase.mayFlush (initial : State ι).phase = 0 := count_eq_zero.mpr fun _ => rfl
    rw [hn]
    rfl
  unflushed := fun _ => rfl
  inFlush := nofun
  alone := fun h => absurd h (Nat.lt_irrefl 0)
  measuring := by
    have hn : count Phase.measuring (initial : State ι).phase = 0 := count_eq_zero.mpr fun _ => rfl
    rw [hn]
    exact Nat.le_refl 0
  clear := nofun
  result := nofun
  clean := nofun
  rank := nofun
  outcomes := nofun

namespace Inv

section
variable (h : Inv s)
include h

theorem flushes_le_one : s.flushes ≤ 1 := by
  have hti := h.tickets
  have := Bool.toNat_le s.workerRunning
  split at hti <;> omega

/-- Nothing is observed before a flush has measured. -/
theorem unobserved (hi : (s.phase i).measuring) : s.observed = none := by
  have hpos := count_pos hi
  have hle := h.measuring
  have := h.flushes_le_one
  cases hobserved : s.observed with
  | none => rfl
  | some o =>
    rw [hobserved] at hle
    simp only [Option.isSome_some, toNat_true] at hle
    omega

theorem flushes_pos (hi : (s.phase i).measuring) : 0 < s.flushes := by
  have := count_pos hi
  have := h.measuring
  omega

/-- There is one flush at a time. -/
theorem measuring_unique {i j : ι} (hi : (s.phase i).measuring)
    (hj : (s.phase j).measuring) : i = j := by
  by_contra hne
  have := two_le_count hne hi hj
  have := h.measuring
  have := h.flushes_le_one
  omega

theorem open_unflushed (hop : s.acceptingOperations) :
    s.calls = 0 ∧ s.lifecycle = .running ∧ s.flushes = 0 := by
  have hca : s.calls = 0 := by
    rw [h.gate] at hop
    exact of_decide_eq_true hop
  have hru : s.lifecycle = .running := by
    by_contra hcs
    exact h.closed hcs hca
  exact ⟨hca, hru, h.unflushed hru⟩

end

end Inv

theorem Phase.counts_of_holds (h : p.holds) : p.counts := by
  cases p with
  | operation stage | maintaining _ stage =>
    cases stage with
    | held => rfl
    | _ => cases h
  | _ => cases h

/-- Who holds a permit is counted. -/
theorem Inv.none_held (h : Inv s) (hact : s.activeOperations = 0) (i : ι) : (s.phase i).holds = false := by
  have hcts : (s.phase i).counts = false := count_eq_zero.mp (h.active.symm.trans hact) i
  by_contra hho
  rw [Phase.counts_of_holds (Bool.eq_true_of_not_eq_false hho)] at hcts
  cases hcts

theorem Phase.measuring_of_clear (h : p.clear) : p.measuring := by
  unfold Phase.clear at h
  split at h
  · rfl
  · cases h

end Inv

/-! ### What a step can do -/

/-- What the invariant asks of a phase. -/
structure Traits where
  counts : Bool
  holds : Bool
  mayFlush : Bool
  inFlush : Bool
  measuring : Bool
  first : Bool
  clear : Bool
  clean : Bool

def Phase.traits (p : Phase) : Traits :=
  ⟨p.counts, p.holds, p.mayFlush, p.inFlush, p.measuring, p.first, p.clear, p.clean⟩

section Proofs
variable {ι : Type} [DecidableEq ι]

/-- The moves of one call, by what they do to its traits and to the manager. -/
inductive Move (s : State ι) (i : ι) : State ι → Prop
  | pass {p : Phase} (hp : p.traits = (s.phase i).traits) : Move s i (goto s i p)
  | enter {p : Phase} (hold : (s.phase i).counts = false) (hp : p.traits = {(s.phase i).traits with counts := true}) :
    Move s i (goto {s with activeOperations := s.activeOperations + 1} i p)
  | grant {p : Phase} (hopen : s.acceptingOperations = true)
    (hp : p.traits = {(s.phase i).traits with holds := true}) : Move s i (goto s i p)
  | leave {p : Phase} (hold : (s.phase i).counts = true)
    (hp : p.traits = {(s.phase i).traits with counts := false, holds := false}) :
    Move s i (goto {s with activeOperations := s.activeOperations - 1} i p)
  | start {p : Phase} (hru : s.lifecycle = .running) (hid : s.workerRunning = false)
    (hold : (s.phase i).mayFlush = false) (hp : p.traits = {(s.phase i).traits with mayFlush := true}) :
    Move s i (goto {s with workerRunning := true} i p)
  | drain {p : Phase} (hcs : s.lifecycle ≠ .running) (hp : p.traits = {(s.phase i).traits with inFlush := true}) :
    Move s i (goto s i p)
  | flush {p : Phase} (hact : s.activeOperations = 0) (hmay : (s.phase i).mayFlush = true)
    (hin : (s.phase i).inFlush = true) (hold : (s.phase i).measuring = false)
    (hp : p.traits = {(s.phase i).traits with mayFlush := false, measuring := true}) :
    Move s i (goto {s with flushes := s.flushes + 1} i p)
  | count {resident dirty : Nat}
    (hmay : resident ≤ s.residentPages ∨ (s.phase i).holds = true ∨
      (s.phase i).measuring = true ∧ (s.phase i).clear = false) :
    Move s i {s with residentPages := resident, dirtyPages := dirty}
  | residentClear {p : Phase} (h0 : s.residentPages = 0) (hp : p.traits = {(s.phase i).traits with clear := true}) :
    Move s i (goto s i p)
  | observe {p : Phase} {clean : Bool} (hold : (s.phase i).measuring = true)
    (hcl : clean = true → (s.phase i).clear = true ∧ s.dirtyPages = 0)
    (hp : p.traits = {(s.phase i).traits with measuring := false, clear := false, clean := clean}) :
    Move s i (goto {s with observed := some (s.residentPages, s.dirtyPages)} i p)
  | fail {p : Phase} (hold : (s.phase i).measuring = true)
    (hp : p.traits = {(s.phase i).traits with measuring := false}) : Move s i (goto s i p)
  | store {p : Phase} {running : Bool} {result : LinuxResult Unit} (hin : (s.phase i).inFlush = true)
    (hcl : result = .ok () → (s.phase i).clean = true)
    (hp : p.traits = {(s.phase i).traits with inFlush := false, clean := false}) :
    Move s i (goto {s with workerRunning := running, workerResult := some result} i p)
  | swap {p : Phase} (hopen : s.acceptingOperations = true) (hp : p.traits = {(s.phase i).traits with first := true}) :
    Move s i (goto {s with
      calls := s.calls + 1, rank := update s.rank i s.calls, acceptingOperations := false} i p)
  | late {p : Phase} (hcs : s.acceptingOperations = false) (hold : (s.phase i).first = false)
    (hp : p.traits = (s.phase i).traits) :
    Move s i (goto {s with
      calls := s.calls + 1
      rank := update s.rank i s.calls
      outcomes := s.outcomes ++ [(s.calls, .error .eshutdown)]} i p)
  | close {p : Phase} (hru : s.lifecycle = .running) (hf : (s.phase i).first = true)
    (hold : (s.phase i).mayFlush = false)
    (hp : p.traits = {(s.phase i).traits with mayFlush := !s.workerRunning, inFlush := !s.workerRunning}) :
    Move s i (goto {s with lifecycle := .closing} i p)
  | give {p : Phase} (hp : p.traits = {(s.phase i).traits with first := false}) :
    Move s i (goto {s with outcomes := s.outcomes ++ [(s.rank i, .error .eshutdown)]} i p)
  | take {p : Phase} {result : LinuxResult Unit} (hclosing : s.lifecycle = .closing) (hf : (s.phase i).first = true)
    (hres : s.workerResult = some result) (hp : p.traits = {(s.phase i).traits with first := false}) :
    Move s i (goto {s with
      workerResult := none, lifecycle := .closed, outcomes := s.outcomes ++ [(s.rank i, result)]} i p)
  | panic {p : Phase} (hp : p.traits = {(s.phase i).traits with first := false}) : Move s i (goto s i p)
  | wake : Move s i {s with progressEpoch := s.progressEpoch + 1}

variable {s t : State ι} {i : ι}

open Traits (clear counts first holds mayFlush measuring)

/-- The steps of a permit, wherever it is asked for. -/
theorem permitStep_move {place : Stage → Phase} {post : Phase} {stage : Stage} (hi : s.phase i = place stage)
    (hpl : ∀ stage, (place stage).traits = {post.traits with counts := stage.counts, holds := stage.holds})
    (ha : post.traits = {post.traits with counts := false, holds := false}) :
    Move s i (permitStep place post i stage s) := by
  have hold := hpl stage
  rw [← hi] at hold
  cases stage with
  | asked =>
    show Move s i (goto s i (if s.acceptingOperations then place .loaded else post))
    split
    · exact .pass ((hpl .loaded).trans hold.symm)
    · exact .pass (ha.trans hold.symm)
  | loaded => exact .enter (congrArg counts hold) (by rw [hpl, hold]; rfl)
  | counted =>
    show Move s i (goto s i (place (if s.acceptingOperations then .held else .refused)))
    cases hopen : s.acceptingOperations with
    | true => exact .grant hopen (by rw [hpl, hold]; rfl)
    | false => exact .pass (by rw [hpl, hold]; rfl)
  | refused | held => exact .leave (congrArg counts hold) (by rw [hold]; exact ha)

theorem workerStep_move (h : workerStep i s = some t) : Move s i t := by
  unfold workerStep at h
  split at h
  case h_1 hi =>
    split at h
    · cases h
      exact .pass (by rw [hi]; rfl)
    next hru =>
      split at h <;> cases h
      · exact .pass (by rw [hi]; rfl)
      next hid =>
        exact .start (not_not.mp hru) (by simpa using hid) (by rw [hi]; rfl) (by rw [hi]; rfl)
  case h_2 hi =>
    cases h
    exact .pass (by rw [hi]; rfl)
  case h_3 hi =>
    split at h <;> cases h
    next hcs =>
      exact .drain hcs (by rw [hi]; rfl)
    · split <;> exact .pass (by rw [hi]; rfl)
  case h_4 hi =>
    split at h <;> cases h
    exact .pass (by rw [hi]; rfl)
  case h_5 hi =>
    cases h
    exact permitStep_move hi (fun _ => rfl) rfl
  case h_6 => cases h

theorem flushStep_move {worker : Bool} {flush : Flush} (hi : s.phase i = .flushing worker flush)
    (h : flushStep i worker flush s = some t) : Move s i t := by
  cases flush with
  | draining =>
    have h : (if s.activeOperations = 0 then _ else _) = some t := h
    split at h <;> cases h
    rename_i hact
    exact .flush hact (by rw [hi]; rfl) (by rw [hi]; rfl) (by rw [hi]; rfl) (by rw [hi]; rfl)
  | writing => cases h
  | reclaimed writeback =>
    cases writeback with
    | error e =>
      cases h
      exact .fail (by rw [hi]; rfl) (by rw [hi]; rfl)
    | ok =>
      have h : (if s.residentPages ≠ 0 then _ else _) = some t := h
      split at h <;> cases h
      · exact @Move.observe ι _ s i _ false (by rw [hi]; rfl) nofun (by rw [hi]; rfl)
      next h0 =>
        exact .residentClear (not_not.mp h0) (by rw [hi]; rfl)
  | residentClear =>
    cases h
    by_cases hd : s.dirtyPages = 0
    · rw [if_neg (not_not.mpr hd)]
      exact @Move.observe ι _ s i _ true (by rw [hi]; rfl) (fun _ => ⟨by rw [hi]; rfl, hd⟩) (by rw [hi]; rfl)
    · rw [if_pos hd]
      exact @Move.observe ι _ s i _ false (by rw [hi]; rfl) nofun (by rw [hi]; rfl)
  | ended res =>
    have hcl : res = .ok () → (s.phase i).clean := by
      rintro rfl
      rw [hi]
      rfl
    cases worker <;> cases h <;> exact .store (by rw [hi]; rfl) hcl (by rw [hi]; rfl)

theorem shutdownStep_move (h : shutdownStep i s = some t) : Move s i t := by
  unfold shutdownStep at h
  split at h
  case h_1 hi =>
    split at h <;> cases h
    next hop =>
      exact .swap hop (by rw [hi]; rfl)
    next hcs =>
      have hla := Move.late (p := .idle) (by simpa using hcs) (by rw [hi]; rfl) (by rw [hi]; rfl)
      simpa [finish] using hla
  case h_2 hi =>
    split at h <;> cases h
    · exact .give (by rw [hi]; rfl)
    next hru =>
      refine .close (not_not.mp hru) (by rw [hi]; rfl) (by rw [hi]; rfl) ?_
      rw [hi]
      cases s.workerRunning <;> rfl
  case h_3 hi =>
    split at h <;> cases h
    exact .pass (by rw [hi]; rfl)
  case h_4 hi =>
    split at h
    · cases h
      exact .give (by rw [hi]; rfl)
    next hcl =>
      split at h <;> cases h
      · exact .panic (by rw [hi]; rfl)
      next result hres =>
        exact .take (not_not.mp hcl) (by rw [hi]; rfl) hres (by rw [hi]; rfl)
  case h_5 => cases h

omit [DecidableEq ι] in
theorem mayCount_cases {resident : Nat} (h : mayCount (s.phase i) s resident) :
    resident ≤ s.residentPages ∨ (s.phase i).holds ∨
      (s.phase i).measuring ∧ (s.phase i).clear = false := by
  unfold mayCount at h
  simp only [Bool.or_eq_true, decide_eq_true_eq] at h
  obtain (h | h) | h := h
  · exact .inr (.inl h)
  · split at h
    next hi =>
      exact .inr (.inr (by rw [hi]; exact ⟨rfl, rfl⟩))
    · cases h
  · exact .inl h

/-- Every step is a move of the call it names. -/
theorem step_move {l : ι × Action} (h : step l s = some t) : Move s l.1 t := by
  unfold step at h
  dsimp only at h
  split at h
  case h_4 hi =>
    cases h
    exact permitStep_move hi (fun _ => rfl) rfl
  case h_5 hi => exact flushStep_move hi h
  case h_6 =>
    obtain h | ⟨-, h⟩ := Option.or_eq_some_iff.mp h
    · exact workerStep_move h
    · exact shutdownStep_move h
  case h_7 =>
    split at h <;> cases h
    rename_i hmay
    exact .count (mayCount_cases hmay)
  case h_9 =>
    cases h
    exact .wake
  case h_10 => cases h
  all_goals
    rename_i hi
    cases h
    exact .pass (by rw [hi]; rfl)

/-! ### What every step preserves -/

variable [Fintype ι]

namespace Move

section
variable (hm : Move s i t) (h : Inv s)
include hm h

theorem active : t.activeOperations = Library.count Phase.counts t.phase := by
  have hact := h.active
  cases hm with
  | count | wake => exact hact
  | enter hold hp => exact (congrArg (· + 1) hact).trans (count_gain hold (congrArg counts hp)).symm
  | leave hold hp =>
    exact Nat.sub_eq_of_eq_add (hact.trans (count_lose hold (congrArg counts hp)).symm)
  | _ =>
    rename_i hp
    have heq := congrArg counts hp
    apply hact.trans (.symm _)
    exact count_update_of_eq heq

theorem gate :
    t.acceptingOperations = decide (t.calls = 0) ∧ (t.lifecycle ≠ .running → t.calls ≠ 0) := by
  cases hm with
  | swap => exact ⟨rfl, fun _ => Nat.succ_ne_zero _⟩
  | late hcs => exact ⟨hcs, fun _ => Nat.succ_ne_zero _⟩
  | close _ hf => exact ⟨h.gate, fun _ => (h.rank i hf).2⟩
  | take hcl => exact ⟨h.gate, fun _ => h.closed (by rw [hcl]; exact nofun)⟩
  | _ => exact ⟨h.gate, h.closed⟩

theorem tickets : t.flushes + Library.count Phase.mayFlush t.phase =
    if t.lifecycle = .running then t.workerRunning.toNat else 1 := by
  have hti := h.tickets
  cases hm with
  | count | wake => exact hti
  | @start p hru hid hold hp =>
    have hnew : p.mayFlush := congrArg mayFlush hp
    have hc := count_gain hold hnew
    simp only [hru, hid, if_true, toNat_false] at hti
    simp only [goto, hru, if_true, toNat_true]
    omega
  | @flush p hact hmay hin hold hp =>
    have hnew : p.mayFlush = false := congrArg mayFlush hp
    have hc := count_lose hmay hnew
    show s.flushes + 1 + Library.count Phase.mayFlush (update s.phase i p) =
      if s.lifecycle = .running then s.workerRunning.toNat else 1
    omega
  | @close p hru hf hold hp =>
    have hnew : p.mayFlush = !s.workerRunning := congrArg mayFlush hp
    have hc := count_update Phase.mayFlush s.phase i p
    rw [if_pos hru] at hti
    show s.flushes + _ = 1
    cases hwo : s.workerRunning <;>
      simp only [hold, hnew, hwo, Bool.not_true, Bool.not_false, toNat_true] at hc hti
    all_goals
      simp only [goto]
      omega
  | @store p running res hin hcl hp =>
    have hcs := h.inFlush i hin
    rw [if_neg hcs] at hti
    show s.flushes + _ = if s.lifecycle = .running then _ else 1
    rw [if_neg hcs, ← hti]
    have heq := congrArg mayFlush hp
    apply congrArg
    exact count_update_of_eq heq
  | @take p res hclosing hf hres hp =>
    rw [hclosing] at hti
    have heq := congrArg mayFlush hp
    apply Eq.trans _ hti
    apply congrArg
    exact count_update_of_eq heq
  | _ =>
    rename_i hp
    have heq := congrArg mayFlush hp
    apply Eq.trans _ hti
    apply congrArg
    exact count_update_of_eq heq

theorem unflushed : t.lifecycle = .running → t.flushes = 0 := by
  cases hm with
  | flush _ _ hin => exact fun hru => absurd hru (h.inFlush i hin)
  | close | take => exact nofun
  | _ => exact h.unflushed

theorem inFlush : ∀ j, (t.phase j).inFlush → t.lifecycle ≠ .running := by
  intro j hj
  cases hm with
  | count | wake => exact h.inFlush j hj
  | close | take => exact nofun
  | drain hcs => exact hcs
  | @store p running res hin hcl hp => exact h.inFlush i hin
  | _ =>
    rename_i hp
    exact h.inFlush j ((update_map_eq Phase.inFlush (congrArg Traits.inFlush hp) j).symm.trans hj)

theorem alone : 0 < t.flushes → ∀ j, (t.phase j).holds = false := by
  intro hpos j
  cases hm with
  | count | wake => exact h.alone hpos j
  | grant hop =>
    obtain ⟨-, -, h0⟩ := h.open_unflushed hop
    exact absurd h0 hpos.ne'
  | @leave p hold hp =>
    obtain ⟨-, hnew⟩ | ⟨-, hold⟩ := update_map_cases Phase.holds (rfl : ((goto _ i p).phase j).holds = _)
    · exact hnew.symm.trans (congrArg holds hp)
    · exact hold.symm.trans (h.alone hpos j)
  | @flush p hact hmay hin hold hp =>
    exact (update_map_eq Phase.holds (congrArg holds hp) j).trans (h.none_held hact j)
  | _ =>
    rename_i hp
    exact (update_map_eq Phase.holds (congrArg holds hp) j).trans (h.alone hpos j)

theorem measuring :
    Library.count Phase.measuring t.phase + t.observed.isSome.toNat ≤ t.flushes := by
  have hle := h.measuring
  cases hm with
  | count | wake => exact hle
  | @flush p hact hmay hin hold hp =>
    have hnew : p.measuring := congrArg measuring hp
    have hc := count_gain hold hnew
    simp only [goto]
    omega
  | @observe p clean hold hcl hp =>
    have hnew : p.measuring = false := congrArg measuring hp
    have hc := count_lose hold hnew
    simp only [goto, Option.isSome_some, toNat_true]
    omega
  | @fail p hold hp =>
    have hnew : p.measuring = false := congrArg measuring hp
    have hc := count_lose hold hnew
    simp only [goto]
    omega
  | _ =>
    rename_i hp
    have heq := congrArg measuring hp
    apply (Nat.le_of_eq _).trans hle
    apply congrArg (· + s.observed.isSome.toNat)
    exact count_update_of_eq heq

theorem clear : ∀ j, (t.phase j).clear → t.residentPages = 0 := by
  intro j hj
  cases hm with
  | wake => exact h.clear j hj
  | @count resident dirty hmay =>
    have hme := Phase.measuring_of_clear hj
    obtain hle | hho | ⟨hmi, hnot⟩ := hmay
    · exact Nat.le_zero.mp (h.clear j hj ▸ hle)
    · rw [h.alone (h.flushes_pos hme) i] at hho
      cases hho
    · obtain rfl := h.measuring_unique hmi hme
      cases hnot.symm.trans hj
  | residentClear h0 => exact h0
  | @observe p clean hold hcl hp =>
    obtain ⟨-, hnew⟩ | ⟨-, hold⟩ := update_map_cases Phase.clear hj
    · exact nomatch hnew.symm.trans (congrArg clear hp)
    · exact h.clear j hold
  | _ =>
    rename_i hp
    exact h.clear j ((update_map_eq Phase.clear (congrArg clear hp) j).symm.trans hj)

/-- What was observed stays. -/
theorem observed {o : Nat × Nat} (ho : s.observed = some o) : t.observed = some o := by
  cases hm with
  | observe hold => exact nomatch (h.unobserved hold).symm.trans ho
  | _ => exact ho

theorem result : t.workerResult = some (.ok ()) → t.observed = some (0, 0) := by
  intro hres
  cases hm with
  | store hin hcl => exact h.clean i (hcl (Option.some.inj hres))
  | take => cases hres
  | observe hold => exact nomatch (h.unobserved hold).symm.trans (h.result hres)
  | _ => exact h.result hres

theorem clean : ∀ j, (t.phase j).clean → t.observed = some (0, 0) := by
  intro j hj
  cases hm with
  | count | wake => exact h.clean j hj
  | @observe p clean hold hcl hp =>
    obtain ⟨-, hnew⟩ | ⟨-, hoth⟩ := update_map_cases Phase.clean hj
    · obtain ⟨hcr, hd⟩ := hcl ((congrArg Traits.clean hp).symm.trans hnew)
      show some (s.residentPages, s.dirtyPages) = _
      rw [h.clear i hcr, hd]
    · exact nomatch (h.unobserved hold).symm.trans (h.clean j hoth)
  | @store p running res hin hcl hp =>
    obtain ⟨-, hnew⟩ | ⟨-, hoth⟩ := update_map_cases Phase.clean hj
    · exact nomatch hnew.symm.trans (congrArg Traits.clean hp)
    · exact h.clean j hoth
  | _ =>
    rename_i hp
    exact h.clean j ((update_map_eq Phase.clean (congrArg Traits.clean hp) j).symm.trans hj)

theorem rank : ∀ j, (t.phase j).first → t.rank j = 0 ∧ t.calls ≠ 0 := by
  intro j hj
  cases hm with
  | count | wake => exact h.rank j hj
  | @swap p hopen hp =>
    refine ⟨?_, Nat.succ_ne_zero _⟩
    show update s.rank i s.calls j = 0
    obtain ⟨rfl, -⟩ | ⟨hne, hold⟩ := update_map_cases Phase.first hj
    · rw [update_self]
      exact (h.open_unflushed hopen).1
    · rw [update_of_ne hne]
      exact (h.rank j hold).1
  | @late p hcs hf hp =>
    refine ⟨?_, Nat.succ_ne_zero _⟩
    show update s.rank i s.calls j = 0
    obtain ⟨-, hnew⟩ | ⟨hne, hold⟩ := update_map_cases Phase.first hj
    · exact nomatch hnew.symm.trans ((congrArg first hp).trans hf)
    · rw [update_of_ne hne]
      exact (h.rank j hold).1
  | @give p hp | @panic p hp | @take p res hclosing hf hres hp =>
    obtain ⟨-, hnew⟩ | ⟨-, hold⟩ := update_map_cases Phase.first hj
    · exact nomatch hnew.symm.trans (congrArg first hp)
    · exact h.rank j hold
  | _ =>
    rename_i hp
    exact h.rank j ((update_map_eq Phase.first (congrArg first hp) j).symm.trans hj)

theorem outcomes : ∀ o ∈ t.outcomes,
    (o.1 = 0 → o.2 = .ok () → t.observed = some (0, 0)) ∧ (o.1 ≠ 0 → o.2 = .error .eshutdown) := by
  have hold : ∀ o ∈ s.outcomes, (o.1 = 0 → o.2 = .ok () → t.observed = some (0, 0)) ∧
      (o.1 ≠ 0 → o.2 = .error .eshutdown) :=
    fun o ho => ⟨fun hz hok => hm.observed h ((h.outcomes o ho).1 hz hok), (h.outcomes o ho).2⟩
  intro o ho
  cases hm with
  | late _ | give =>
    obtain ho | ho := List.mem_append.mp ho
    · exact hold o ho
    · rw [List.mem_singleton.mp ho]
      exact ⟨nofun, fun _ => rfl⟩
  | @take p res hclosing hf hres hp =>
    obtain ho | ho := List.mem_append.mp ho
    · exact hold o ho
    · rw [List.mem_singleton.mp ho]
      refine ⟨fun _ hok => h.result (hok ▸ hres), fun hne => absurd (h.rank i hf).1 hne⟩
  | _ => exact hold o ho

end

end Move

theorem step_inv (l : ι × Action) (s t : State ι) (h : Inv s) (hst : step l s = some t) : Inv t := by
  have hm := step_move hst
  exact
    { active := hm.active h
      gate := (hm.gate h).1
      closed := (hm.gate h).2
      tickets := hm.tickets h
      unflushed := hm.unflushed h
      inFlush := hm.inFlush h
      alone := hm.alone h
      measuring := hm.measuring h
      clear := hm.clear h
      result := hm.result h
      clean := hm.clean h
      rank := hm.rank h
      outcomes := hm.outcomes h }

/-- Every state any interleaving reaches. -/
theorem run_inv (ls : List (ι × Action)) (h : machine.run initial ls = some s) : Inv s :=
  Machine.run_induct step_inv ls initial_inv h

/-- **Shutting down.** In every state any interleaving of operations, workers and calls of
`shutdown` reaches: at most one flush has started; the step that starts it finds no permit
held, and from then on none is granted; the first call of `shutdown`, the one of rank 0,
returned `Ok` only after both counters were zero at the end of the flush, and all others
returned `ESHUTDOWN`. -/
theorem shutdown_protocol (labels : List (ι × Action)) (hrun : machine.run initial labels = some s) :
    s.flushes ≤ 1 ∧
      (∀ label t, step label s = some t → s.flushes < t.flushes → ∀ i, (s.phase i).holds = false) ∧
      (0 < s.flushes → ∀ i, (s.phase i).holds = false) ∧
      (∀ o ∈ s.outcomes, o.1 = 0 → o.2 = .ok () → s.observed = some (0, 0)) ∧
      (∀ o ∈ s.outcomes, o.1 ≠ 0 → o.2 = .error .eshutdown) := by
  have h := run_inv labels hrun
  refine ⟨h.flushes_le_one, ?_, h.alone, fun o ho => (h.outcomes o ho).1, fun o ho => (h.outcomes o ho).2⟩
  intro label t hst hlt
  cases step_move hst with
  | flush hact => exact h.none_held hact
  | _ => exact absurd hlt (Nat.lt_irrefl _)

/-- An operation is under way when the worker starts and a call of `shutdown` comes; a second
call comes before the worker has flushed. -/
def closeUnderLoad : List (Fin 4 × Action) :=
  [(0, .operation), (0, .step), (0, .step), (0, .step), (1, .runWorker), (1, .step), (2, .shutdown), (2, .step),
    (0, .count 2 1), (2, .step), (0, .step), (1, .step), (1, .step), (1, .step), (3, .shutdown), (3, .step),
    (1, .count 0 0), (1, .written (.ok ())), (1, .step), (1, .step), (1, .step), (2, .step), (2, .step)]

theorem shutdown_protocol_under_load : ∃ s : State (Fin 4), machine.run initial closeUnderLoad = some s ∧
    s.outcomes = [(1, .error .eshutdown), (0, .ok ())] ∧ s.observed = some (0, 0) ∧ s.flushes ≤ 1 := by
  have hrun : ∃ s : State (Fin 4), machine.run initial closeUnderLoad = some s := ⟨_, rfl⟩
  obtain ⟨s, hs⟩ := hrun
  have houtcomes : s.outcomes = [(1, .error .eshutdown), (0, .ok ())] := by
    cases hs
    rfl
  obtain ⟨hle, -, -, hcl, -⟩ := shutdown_protocol closeUnderLoad hs
  exact ⟨s, hs, houtcomes, hcl (0, .ok ()) (by rw [houtcomes]; simp) rfl rfl, hle⟩

end Proofs

end StarryX.Cache.Shutdown
