import StarryX.Library.Machine

/-! The sleeping mutex.

`RawMutex` keeps the id of its owner in a word, which `lock` and `try_lock` compare and exchange and `unlock` swaps. Who
finds it owned looks once more with the wait queue locked and then sleeps there; who has swapped wakes the first sleeper.
`mutex_safe` holds in every interleaving of these steps. -/
namespace StarryX.Task
open Library

/-- Ids count from one, and zero is no owner. -/
def taskId (i : Nat) : Nat := i + 1

/-- Where a task is: about to exchange, about to look, about to sleep with the queue locked, asleep, between `lock` and
`unlock`, past the swap. `woken` if it was notified and has not found an owner since. -/
inductive MutexPhase where
  | idle
  | trying (woken : Bool)
  | waiting (woken : Bool)
  | blocking
  | asleep
  | holding
  | notifying
  deriving DecidableEq

namespace MutexPhase

/-- Neither the owner's id nor the wait queue tells of the task. -/
def apart : MutexPhase → Bool
  | idle | trying _ | waiting _ | notifying => true
  | blocking | asleep | holding => false

/-- The task was woken, or has yet to wake one. -/
def wakes : MutexPhase → Bool
  | trying woken | waiting woken => woken
  | notifying => true
  | _ => false

theorem wakes_iff {phase : MutexPhase} :
    phase.wakes = true ↔ phase = .trying true ∨ phase = .waiting true ∨ phase = .notifying := by
  cases phase <;> simp [wakes]

end MutexPhase

structure RawMutex where
  wq : List Nat
  wqLock : Option Nat
  ownerId : Nat
  phase : Nat → MutexPhase

/-- `weak` if `compare_exchange_weak` fails by itself. -/
inductive MutexLabel where
  | lock (i : Nat)
  | exchange (i : Nat) (weak : Bool)
  | look (i : Nat)
  | sleep (i : Nat)
  | tryLock (i : Nat)
  | unlock (i : Nat)
  | notifyOne (i : Nat)

namespace RawMutex

def new : RawMutex := ⟨[], none, 0, fun _ => .idle⟩

/-- Where an assertion of the code fails there is no step. -/
def step : MutexLabel → RawMutex → Option RawMutex
  | .lock i, s =>
    if s.phase i = .idle then some {s with phase := Function.update s.phase i (.trying false)} else none
  | .exchange i weak, s => match s.phase i with
    | .trying woken =>
      if s.ownerId = 0 ∧ weak = false then
        some {s with phase := Function.update s.phase i .holding, ownerId := taskId i}
      else if s.ownerId = taskId i then none
      else some {s with phase := Function.update s.phase i (.waiting (woken && s.ownerId == 0))}
    | _ => none
  | .look i, s => match s.phase i, s.wqLock with
    | .waiting woken, none =>
      if s.ownerId = 0 then some {s with phase := Function.update s.phase i (.trying woken)}
      else some {s with phase := Function.update s.phase i .blocking, wqLock := some i}
    | _, _ => none
  | .sleep i, s =>
    if s.phase i = .blocking then
      some {s with phase := Function.update s.phase i .asleep, wq := s.wq ++ [i], wqLock := none}
    else none
  | .tryLock i, s =>
    if s.phase i ≠ .idle then none
    else if s.ownerId = 0 then some {s with phase := Function.update s.phase i .holding, ownerId := taskId i}
    else some s
  | .unlock i, s =>
    if s.phase i = .holding ∧ s.ownerId = taskId i then
      some {s with phase := Function.update s.phase i .notifying, ownerId := 0}
    else none
  | .notifyOne i, s =>
    if s.phase i ≠ .notifying ∨ s.wqLock ≠ none then none
    else match s.wq with
      | [] => some {s with phase := Function.update s.phase i .idle}
      | j :: rest => some {s with
        phase := Function.update (Function.update s.phase i .idle) j (.waiting true)
        wq := rest}

def machine : Machine RawMutex MutexLabel := ⟨step⟩

/-- The owner holds the mutex and nobody else does, the queue holds who sleeps, and while the mutex is free and somebody
sleeps there is a task that was woken or that has yet to wake one. -/
structure Safe (s : RawMutex) : Prop where
  owner : ∀ i, s.phase i = .holding ↔ s.ownerId = taskId i
  alone : ∀ i j, s.phase i = .holding → s.phase j = .holding → i = j
  locked : ∀ i, s.wqLock = some i ↔ s.phase i = .blocking
  queued : ∀ i, i ∈ s.wq ↔ s.phase i = .asleep
  nodup : s.wq.Nodup
  awake : s.ownerId = 0 → ∀ i, s.phase i = .asleep ∨ s.phase i = .blocking →
    ∃ j, s.phase j = .trying true ∨ s.phase j = .waiting true ∨ s.phase j = .notifying

namespace Safe
variable {s : RawMutex} {i : Nat}

theorem alone_of_owner (how : ∀ i, s.phase i = .holding ↔ s.ownerId = taskId i) (i j : Nat) (hi : s.phase i = .holding)
    (hj : s.phase j = .holding) : i = j :=
  Nat.succ_inj.mp (((how i).mp hi).symm.trans ((how j).mp hj))

theorem not_taskId (h : s.Safe) (hi : (s.phase i).apart) : s.ownerId ≠ taskId i := fun heq => by
  rw [(h.owner i).mpr heq] at hi
  cases hi

theorem phase_iff (hi : (s.phase i).apart) (phase q : MutexPhase) (hp : phase ≠ q) (hq : q.apart = false) (j : Nat) :
    Function.update s.phase i phase j = q ↔ s.phase j = q := by
  refine update_eq_iff_of_ne (fun heq => ?_) hp
  rw [heq, hq] at hi
  cases hi

/-- A task goes on outside the mutex and its queue; if somebody sleeps while the mutex is free it does not lose its wake-up. -/
theorem moves (h : s.Safe) {phase : MutexPhase} (hi : (s.phase i).apart) (hp : phase.apart)
    (hwa : s.ownerId = 0 → ∀ j, s.phase j = .asleep ∨ s.phase j = .blocking → (s.phase i).wakes → phase.wakes) :
    Safe {s with phase := Function.update s.phase i phase} := by
  have hsame : ∀ q : MutexPhase, q.apart = false → ∀ j, Function.update s.phase i phase j = q ↔ s.phase j = q :=
    fun q hq => phase_iff hi _ q (fun heq => nomatch (heq ▸ hp).symm.trans hq) hq
  have how := fun j => (hsame .holding rfl j).trans (h.owner j)
  refine ⟨how, alone_of_owner how, fun j => (h.locked j).trans (hsame .blocking rfl j).symm,
    fun j => (h.queued j).trans (hsame .asleep rfl j).symm, h.nodup, fun hfree j hj => ?_⟩
  rw [hsame .asleep rfl, hsame .blocking rfl] at hj
  obtain ⟨k, hk⟩ := h.awake hfree j hj
  by_cases hki : k = i
  · subst hki
    refine ⟨k, ?_⟩
    simp only [Function.update_self]
    exact MutexPhase.wakes_iff.mp (hwa hfree j hj (MutexPhase.wakes_iff.mpr hk))
  · exact ⟨k, by simpa only [Function.update_of_ne hki] using hk⟩

/-- The exchange of a free owner's word. -/
theorem takes (h : s.Safe) (hi : (s.phase i).apart) (hfree : s.ownerId = 0) :
    Safe {s with phase := Function.update s.phase i .holding, ownerId := taskId i} := by
  have hno : ∀ j, s.phase j ≠ .holding := fun j hj => nomatch hfree.symm.trans ((h.owner j).mp hj)
  have how : ∀ j, Function.update s.phase i .holding j = .holding ↔ taskId i = taskId j := by
    intro j
    rw [update_eq_self_iff, or_iff_left (hno j)]
    exact eq_comm.trans Nat.succ_inj.symm
  exact ⟨how, alone_of_owner how, fun j => (h.locked j).trans (phase_iff hi .holding .blocking nofun rfl j).symm,
    fun j => (h.queued j).trans (phase_iff hi .holding .asleep nofun rfl j).symm, h.nodup, nofun⟩

theorem unlocks (h : s.Safe) (hi : s.phase i = .holding) :
    Safe {s with phase := Function.update s.phase i .notifying, ownerId := 0} := by
  have hsame : ∀ q : MutexPhase, q ≠ .holding → q ≠ .notifying → ∀ j,
      Function.update s.phase i .notifying j = q ↔ s.phase j = q :=
    fun q hq hqn j => update_eq_iff_of_ne (hi ▸ hq.symm) hqn.symm
  have hno : ∀ j, Function.update s.phase i .notifying j ≠ .holding := by
    intro j hj
    rcases update_cases hj with ⟨-, heq⟩ | ⟨hji, hj⟩
    · cases heq
    · exact hji (h.alone j i hj hi)
  refine ⟨fun j => iff_of_false (hno j) nofun, fun j _ hj => absurd hj (hno j),
    fun j => (h.locked j).trans (hsame .blocking nofun nofun j).symm,
    fun j => (h.queued j).trans (hsame .asleep nofun nofun j).symm, h.nodup, fun _ _ _ => ⟨i, ?_⟩⟩
  exact .inr (.inr (Function.update_self ..))

/-- The task has looked and found an owner, with the queue locked. -/
theorem blocks (h : s.Safe) (hi : (s.phase i).apart) (hwq : s.wqLock = none) (howned : s.ownerId ≠ 0) :
    Safe {s with phase := Function.update s.phase i .blocking, wqLock := some i} := by
  have how := fun j => (phase_iff hi .blocking .holding nofun rfl j).trans (h.owner j)
  have hno : ∀ j, s.phase j ≠ .blocking := fun j hj => nomatch hwq.symm.trans ((h.locked j).mpr hj)
  refine ⟨how, alone_of_owner how, fun j => ?_, fun j => (h.queued j).trans (phase_iff hi .blocking .asleep nofun rfl j).symm, h.nodup,
    fun hfree => absurd hfree howned⟩
  rw [update_eq_self_iff, or_iff_left (hno j)]
  exact Option.some_inj.trans eq_comm

theorem sleeps (h : s.Safe) (hi : s.phase i = .blocking) :
    Safe {s with phase := Function.update s.phase i .asleep, wq := s.wq ++ [i], wqLock := none} := by
  have hnot : i ∉ s.wq := fun hmem => nomatch hi.symm.trans ((h.queued i).mp hmem)
  have hsame : ∀ q : MutexPhase, q ≠ .blocking → q ≠ .asleep → ∀ j,
      Function.update s.phase i .asleep j = q ↔ s.phase j = q :=
    fun q hq hqn j => update_eq_iff_of_ne (hi ▸ hq.symm) hqn.symm
  have how := fun j => (hsame .holding nofun nofun j).trans (h.owner j)
  refine ⟨how, alone_of_owner how, fun j => iff_of_false nofun fun hj => ?_, fun j => ?_,
    List.nodup_append.mpr ⟨h.nodup, List.nodup_singleton i, ?_⟩, fun hfree j _ => ?_⟩
  · -- The queue's lock was this task's, so nobody else was about to sleep.
    obtain ⟨hji, hj⟩ := (update_cases hj).resolve_left nofun
    exact hji (Option.some_inj.mp (((h.locked j).mpr hj).symm.trans ((h.locked i).mpr hi)))
  · rw [List.mem_append, List.mem_singleton, update_eq_self_iff, h.queued j, or_comm]
  · rintro j hj k hk rfl
    exact hnot (List.mem_singleton.mp hk ▸ hj)
  · obtain ⟨k, hk⟩ := h.awake hfree i (.inr hi)
    have hki : k ≠ i := by
      rintro rfl
      simp [hi] at hk
    exact ⟨k, by simpa only [Function.update_of_ne hki] using hk⟩

/-- The first sleeper is awake now. -/
theorem notifies (h : s.Safe) {j : Nat} {rest : List Nat} (hi : s.phase i = .notifying) (hwq : s.wq = j :: rest) :
    Safe {s with phase := Function.update (Function.update s.phase i .idle) j (.waiting true), wq := rest} := by
  have hj : s.phase j = .asleep := (h.queued j).mp (hwq ▸ .head _)
  have hnd := List.nodup_cons.mp (hwq ▸ h.nodup)
  have hji : j ≠ i := by
    rintro rfl
    cases hi.symm.trans hj
  have hsame : ∀ q : MutexPhase, q ≠ .asleep → q.apart = false → ∀ k,
      Function.update (Function.update s.phase i .idle) j (.waiting true) k = q ↔ s.phase k = q := by
    intro q hq hqa k
    rw [update_eq_iff_of_ne, update_eq_iff_of_ne]
    · rintro heq
      rw [← heq, hi] at hqa
      cases hqa
    · rintro rfl
      cases hqa
    · rw [Function.update_of_ne hji, hj]
      exact hq.symm
    · rintro rfl
      cases hqa
  have how := fun k => (hsame .holding nofun rfl k).trans (h.owner k)
  refine ⟨how, alone_of_owner how, fun k => (h.locked k).trans (hsame .blocking nofun rfl k).symm, fun k => ?_, hnd.2,
    fun _ _ _ => ⟨j, .inr (.inl (Function.update_self ..))⟩⟩
  have hasleep : Function.update (Function.update s.phase i .idle) j (.waiting true) k = .asleep ↔ k ≠ j ∧ k ∈ s.wq := by
    rw [update_eq_iff_lose (by decide), update_eq_iff_of_ne (by rw [hi]; decide) (by decide), h.queued k]
  rw [hasleep, hwq, List.mem_cons]
  exact ⟨fun hk => ⟨fun hkj => hnd.1 (hkj ▸ hk), .inr hk⟩, fun hk => hk.2.resolve_left hk.1⟩

theorem step (l : MutexLabel) (s t : RawMutex) (h : s.Safe) (hst : machine.step l s = some t) : t.Safe := by
  cases l with
  | lock i =>
    obtain ⟨hi, heq⟩ := Option.ite_none_right_eq_some.mp hst
    cases heq
    exact h.moves (by rw [hi]; rfl) rfl fun _ _ _ hw => by rw [hi] at hw; cases hw
  | exchange i weak =>
    simp only [machine, RawMutex.step] at hst
    split at hst
    case h_2 => cases hst
    case h_1 woken hi =>
    have hap : (s.phase i).apart := by rw [hi]; rfl
    rw [if_neg (h.not_taskId hap)] at hst
    split_ifs at hst with hfree <;> cases hst
    · exact h.takes hap hfree.1
    · exact h.moves hap rfl fun hno _ _ hw => by rw [hi] at hw; simpa [hno, MutexPhase.wakes] using hw
  | look i =>
    simp only [machine, RawMutex.step] at hst
    split at hst
    case h_2 => cases hst
    case h_1 woken hi hlo =>
    have hap : (s.phase i).apart := by rw [hi]; rfl
    split_ifs at hst with hfree <;> cases hst
    · exact h.moves hap rfl fun _ _ _ hw => by rwa [hi] at hw
    · exact h.blocks hap hlo hfree
  | sleep i =>
    obtain ⟨hi, heq⟩ := Option.ite_none_right_eq_some.mp hst
    cases heq
    exact h.sleeps hi
  | tryLock i =>
    obtain ⟨hi, heq⟩ := Option.ite_none_left_eq_some.mp hst
    split_ifs at heq with hfree <;> cases heq
    · exact h.takes (by rw [not_not.mp hi]; rfl) hfree
    · exact h
  | unlock i =>
    obtain ⟨hi, heq⟩ := Option.ite_none_right_eq_some.mp hst
    cases heq
    exact h.unlocks hi.1
  | notifyOne i =>
    obtain ⟨hi, heq⟩ := Option.ite_none_left_eq_some.mp hst
    obtain ⟨hph, hlo⟩ := not_or.mp hi
    split at heq <;> cases heq
    case h_1 hwq =>
      -- Nobody sleeps or is about to.
      refine h.moves (by rw [not_not.mp hph]; rfl) rfl fun _ j hj => absurd hj ?_
      rw [← h.queued j, ← h.locked j, hwq, not_not.mp hlo]
      exact not_or.mpr ⟨List.not_mem_nil, nofun⟩
    case h_2 hwq => exact h.notifies (not_not.mp hph) hwq

end Safe

/-- **One task holds the mutex, and no wake-up is lost**, in every run. -/
theorem mutex_safe (labels : List MutexLabel) {s : RawMutex} (hrun : machine.run new labels = some s) : s.Safe := by
  have h0 : new.Safe := ⟨by simp [new, taskId], by simp [new], by simp [new], by simp [new], .nil, by simp [new]⟩
  exact Machine.run_induct Safe.step labels h0 hrun

/-- Task 0 has the mutex, task 1 goes to sleep, and task 0 has yet to wake it. -/
def contended : List MutexLabel := [.tryLock 0, .lock 1, .exchange 1 false, .look 1, .unlock 0, .sleep 1]

theorem mutex_safe_contended : ∃ s, machine.run new contended = some s ∧ s.wq = [1] ∧ s.ownerId = 0 ∧ s.Safe :=
  ⟨_, rfl, rfl, rfl, mutex_safe contended rfl⟩

end RawMutex
end StarryX.Task
