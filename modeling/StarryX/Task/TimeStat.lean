import StarryX.Library.Machine

/-! The time of a thread.

The hooks of mode and task switches charge the time since `kernel_timestamp` and count the interval timer down by it.
`switch_into_user_mode` does not move that timestamp, so the next entry to the kernel charges the time before it once
more, as user time. `charged_iff` says in which runs of the hooks the charges are exact. -/
namespace StarryX.Task
open Library

inductive TimerType where
  | none | real | virtual | prof
  deriving DecidableEq

/-- `sent` counts the SIGALRM of the timer. -/
structure TimeStat where
  utime : Nat
  stime : Nat
  userTimestamp : Nat
  kernelTimestamp : Nat
  timerType : TimerType
  timerInterval : Nat
  timerRemained : Nat
  sent : Nat

inductive Mode where
  | user | kernel | off
  deriving DecidableEq

inductive TimeHook where
  | intoKernel | intoUser | fromOld | toNew
  deriving DecidableEq

namespace TimeStat
variable (now : Nat) (s : TimeStat)

def reset : TimeStat := {s with utime := 0, stime := 0, userTimestamp := 0, kernelTimestamp := now}

def updateTimer (delta : Nat) : TimeStat :=
  if s.timerRemained = 0 then s
  else if delta < s.timerRemained then {s with timerRemained := s.timerRemained - delta}
  else {s with timerRemained := 0, sent := s.sent + 1}

def switchIntoKernelMode : TimeStat :=
  let delta := now - s.kernelTimestamp
  let s := {s with utime := s.utime + delta, kernelTimestamp := now}
  if s.timerType ≠ .none then s.updateTimer delta else s

def switchIntoUserMode : TimeStat :=
  let delta := now - s.kernelTimestamp
  let s := {s with stime := s.stime + delta, userTimestamp := now}
  if s.timerType = .real ∨ s.timerType = .prof then s.updateTimer delta else s

def switchFromOldTask : TimeStat :=
  let delta := now - s.kernelTimestamp
  let s := {s with stime := s.stime + delta, kernelTimestamp := now}
  if s.timerType = .real ∨ s.timerType = .prof then s.updateTimer delta else s

def switchToNewTask : TimeStat :=
  let delta := now - s.kernelTimestamp
  let s := {s with kernelTimestamp := now}
  if s.timerType = .real then s.updateTimer delta else s

def call : TimeHook → TimeStat
  | .intoKernel => s.switchIntoKernelMode now
  | .intoUser => s.switchIntoUserMode now
  | .fromOld => s.switchFromOldTask now
  | .toNew => s.switchToNewTask now

theorem updateTimer_charges (delta : Nat) : (s.updateTimer delta).utime = s.utime ∧
    (s.updateTimer delta).stime = s.stime ∧ (s.updateTimer delta).kernelTimestamp = s.kernelTimestamp := by
  unfold updateTimer
  split_ifs <;> simp

/-- What a hook charges, to whom, and which timestamp it leaves. -/
theorem call_charges (hook : TimeHook) :
    (s.call now hook).utime = s.utime + (if hook = .intoKernel then now - s.kernelTimestamp else 0) ∧
    (s.call now hook).stime =
      s.stime + (if hook = .intoUser ∨ hook = .fromOld then now - s.kernelTimestamp else 0) ∧
    (s.call now hook).kernelTimestamp = if hook = .intoUser then s.kernelTimestamp else now := by
  cases hook <;>
    simp only [call, switchIntoKernelMode, switchIntoUserMode, switchFromOldTask, switchToNewTask] <;>
    split_ifs <;> simp_all [updateTimer_charges]

end TimeStat

/-- A thread since the reset of its time: the mode it is in, since when, and the time it spent in each mode. -/
structure TimedThread where
  time : TimeStat
  mode : Mode
  since : Nat
  user : Nat
  kernel : Nat

namespace TimedThread

/-- A hook leaves one mode for another. -/
def modes : TimeHook → Mode × Mode
  | .intoKernel => (.user, .kernel)
  | .intoUser => (.kernel, .user)
  | .fromOld => (.kernel, .off)
  | .toNew => (.off, .kernel)

def step : TimeHook × Nat → TimedThread → Option TimedThread
  | (hook, now), s =>
    if s.mode = (modes hook).1 ∧ s.since ≤ now then some {
      time := s.time.call now hook
      mode := (modes hook).2
      since := now
      user := s.user + if s.mode = .user then now - s.since else 0
      kernel := s.kernel + if s.mode = .kernel then now - s.since else 0}
    else none

def machine : Machine TimedThread (TimeHook × Nat) := ⟨step⟩

def started (time : TimeStat) (now : Nat) : TimedThread := ⟨time.reset now, .kernel, now, 0, 0⟩

def Charged (s : TimedThread) : Prop := s.time.utime = s.user ∧ s.time.stime = s.kernel

/-- The kernel is entered from user mode with the timestamp of the entry to user mode. -/
def Fine : TimeHook × Nat → TimedThread → Prop
  | (hook, now), s => hook = .intoKernel → s.mode = .user → s.since ≤ now → s.time.kernelTimestamp = s.since

structure Inv (s : TimedThread) : Prop where
  charged : s.Charged
  stamped : s.mode ≠ .user → s.time.kernelTimestamp = s.since
  earlier : s.time.kernelTimestamp ≤ s.since

theorem Inv.step {s t : TimedThread} {l : TimeHook × Nat} (h : s.Inv) (hst : machine.step l s = some t) :
    (Fine l s → t.Inv) ∧ (t.Charged → Fine l s) := by
  obtain ⟨hook, now⟩ := l
  obtain ⟨hch, hsd, he⟩ := h
  simp only [machine, TimedThread.step, Option.ite_none_right_eq_some, Option.some.injEq] at hst
  obtain ⟨⟨hm, hle⟩, rfl⟩ := hst
  obtain ⟨hut, hst, hkt⟩ := s.time.call_charges now hook
  cases hook <;> simp only [modes] at hm <;> simp at hut hst hkt hsd hch <;>
    refine ⟨fun hfi => ⟨?_, ?_, ?_⟩, fun hcd => ?_⟩ <;> simp_all [Charged, Fine, modes]
  all_goals omega

/-- **The times of a thread are exact** after each hook just if no time in the kernel precedes one in user mode that
ends. -/
theorem charged_iff (time : TimeStat) (now : Nat) (labels : List (TimeHook × Nat)) :
    machine.Always Charged (started time now) labels ↔ machine.Meets Fine (started time now) labels := by
  refine Machine.always_iff_meets (fun _ h => Inv.charged h) (fun l s t h hfi hst => (h.step hst).1 hfi)
    (fun l s t h hst => (h.step hst).2) (fun l s hno hk hm hle => ?_) labels
    ⟨⟨rfl, rfl⟩, fun _ => rfl, le_rfl⟩
  simp [machine, step, modes, hk, hm, hle] at hno

/-- Five in the kernel and two in user mode. -/
theorem kernel_time_twice : (machine.run (started ⟨0, 0, 0, 0, .none, 0, 0, 0⟩ 0) [(.intoUser, 5), (.intoKernel, 7)]).map
    (fun s => (s.time.utime, s.user)) = some (7, 2) := by decide

end TimedThread
end StarryX.Task
