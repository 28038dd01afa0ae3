import StarryX.Errno
import StarryX.Library.Machine

/-! The counter of an eventfd.

A round of the loop of `read` or `write` is a step; if the counter is empty or too full the call tries again, or fails.
The limits disagree. `write` refuses 2^64 - 2, which it should take, and takes 2^64 - 1; it fills the counter up to
2^64 - 1, and `poll` asks for more room than a write of 1 needs. `lawful_iff` says in which runs none of this shows. -/
namespace StarryX.Fs
open Library

def maxU64 : Nat := 2 ^ 64 - 1

structure EventFd where
  counter : Nat
  semaphore : Bool
  nonblocking : Bool

/-- The call returns, or it yields and tries again. -/
inductive EventRound where
  | done (result : LinuxResult Nat)
  | again

def EventRound.value : EventRound → Nat
  | .done (.ok value) => value
  | _ => 0

inductive EventCall where
  | read (len : Nat) (signals : Bool)
  | write (len : Nat) (value : UInt64) (signals : Bool)
  | poll

namespace EventFd
variable (fd : EventFd)

def retry (signals : Bool) : EventFd × EventRound :=
  (fd, if fd.nonblocking then .done (.error .eagain) else if signals then .done (.error .eintr) else .again)

/-- The result is the value read. -/
def read (len : Nat) (signals : Bool) : EventFd × EventRound :=
  if len < 8 then (fd, .done (.error .einval))
  else if fd.counter = 0 then fd.retry signals
  else if fd.semaphore then ({fd with counter := fd.counter - 1}, .done (.ok 1))
  else ({fd with counter := 0}, .done (.ok fd.counter))

/-- The result is the value written. -/
def write (len : Nat) (value : UInt64) (signals : Bool) : EventFd × EventRound :=
  if len < 8 then (fd, .done (.error .einval))
  else if value.toNat = 0 ∨ value.toNat = 0xfffffffffffffffe then (fd, .done (.error .einval))
  else if maxU64 - value.toNat < fd.counter then fd.retry signals
  else ({fd with counter := fd.counter + value.toNat}, .done (.ok value.toNat))

/-- Whether one can read, and write. -/
def poll : Bool × Bool := (decide (0 < fd.counter), decide (fd.counter < maxU64 - 1))

/-- What is asked of a call: a write of a value that fits is done, one of 0 or 2^64 - 1 changes nothing and does not wait,
and `poll` says whether 1 can be written. -/
def Answered : EventCall → Prop
  | .read .. => True
  | .write len value signals =>
    (8 ≤ len → value.toNat ≠ 0 → fd.counter + value.toNat < maxU64 →
      (fd.write len value signals).2 = .done (.ok value.toNat)) ∧
    (value.toNat = 0 ∨ value.toNat = maxU64 → (fd.write len value signals).1 = fd ∧ (fd.write len value signals).2 ≠ .again)
  | .poll => fd.poll.2 = true ↔ (fd.write 8 1 false).2 = .done (.ok 1)

/-- 2^64 - 2 is not written to an empty counter, nothing fills it up to 2^64 - 1, a write of that value may fail, and
the counter is not at 2^64 - 2 for `poll`. -/
def Fine : EventCall → Prop
  | .read .. => True
  | .write len value signals => 8 ≤ len → value.toNat ≠ 0 →
    if value.toNat = maxU64 - 1 then fd.counter ≠ 0
    else fd.counter + value.toNat ≠ maxU64 ∧ (value.toNat = maxU64 → fd.nonblocking = true ∨ signals = true)
  | .poll => fd.counter ≠ maxU64 - 1

theorem write_cases (len : Nat) (v : UInt64) (signals : Bool) :
    ((len < 8 ∨ v.toNat = 0 ∨ v.toNat = maxU64 - 1) ∧ fd.write len v signals = (fd, .done (.error .einval))) ∨
    (8 ≤ len ∧ v.toNat ≠ 0 ∧ v.toNat ≠ maxU64 - 1) ∧
      (maxU64 < fd.counter + v.toNat ∧ fd.write len v signals = fd.retry signals ∨
        fd.counter + v.toNat ≤ maxU64 ∧
          fd.write len v signals = ({fd with counter := fd.counter + v.toNat}, .done (.ok v.toNat))) := by
  have := v.toNat_lt
  unfold write maxU64
  split_ifs with hle hva hro
  · exact .inl ⟨.inl hle, rfl⟩
  · exact .inl ⟨.inr hva, rfl⟩
  · exact .inr ⟨⟨Nat.not_lt.mp hle, not_or.mp hva⟩, .inl ⟨by omega, rfl⟩⟩
  · exact .inr ⟨⟨Nat.not_lt.mp hle, not_or.mp hva⟩, .inr ⟨by omega, rfl⟩⟩

theorem retry_again (signals : Bool) : (fd.retry signals).2 ≠ .again ↔ fd.nonblocking = true ∨ signals = true := by
  unfold retry
  cases hno : fd.nonblocking <;> cases signals <;> simp

/-- A write is answered and leaves room just if it is fine. -/
theorem write_answered (hbd : fd.counter < maxU64) (len : Nat) (v : UInt64) (signals : Bool) :
    (fd.write len v signals).1.counter < maxU64 ∧ fd.Answered (.write len v signals) ↔ fd.Fine (.write len v signals) := by
  have hmax : 1 < maxU64 := by decide
  obtain ⟨hbad, heq⟩ | ⟨⟨hle, hnz, hne⟩, ⟨hno, heq⟩ | ⟨hro, heq⟩⟩ := fd.write_cases len v signals <;>
    simp only [Answered, Fine, heq]
  · -- It is refused, and should not be if it is 2^64 - 2 and fits.
    have hanswer : EventRound.done (.error .einval) ≠ .done (.ok v.toNat) ∧ EventRound.done (.error .einval) ≠ .again :=
      ⟨nofun, nofun⟩
    simp only [hbd, hanswer.1, hanswer.2, true_and, imp_false, ne_eq, not_false_eq_true, implies_true, and_true, not_lt]
    split_ifs <;> omega
  · -- It finds no room, and tries again unless it may fail.
    have hfd : (fd.retry signals).1 = fd := rfl
    simp only [hfd, hbd, true_and, retry_again, if_neg hne]
    exact ⟨fun h _ _ => ⟨by omega, fun hv => h.2 (.inr hv)⟩, fun h => ⟨by omega, fun hv => (h hle hnz).2 (hv.resolve_left hnz)⟩⟩
  · -- It is done, and must not fill the counter up.
    simp only [if_neg hne]
    refine ⟨fun h _ _ => ⟨Nat.ne_of_lt h.1, fun hv => ?_⟩, fun h => ?_⟩
    · have := h.1
      omega
    · have := (h hle hnz).1
      exact ⟨by omega, fun _ _ _ => trivial, by omega⟩

theorem poll_answered (hbd : fd.counter < maxU64) : fd.Answered .poll ↔ fd.Fine .poll := by
  have hwr : (fd.write 8 1 false).2 = .done (.ok 1) := by
    obtain ⟨hbad, -⟩ | ⟨-, ⟨hno, -⟩ | ⟨-, heq⟩⟩ := fd.write_cases 8 1 false
    · exact absurd hbad (by decide)
    · exact absurd hno (Nat.not_lt.mpr hbd)
    · rw [heq]
      rfl
  simp only [Answered, Fine, hwr, iff_true, poll, decide_eq_true_eq]
  omega

/-- What is read was in the counter. -/
theorem read_balance (len : Nat) (signals : Bool) :
    (fd.read len signals).1.counter + (fd.read len signals).2.value = fd.counter := by
  unfold read retry
  split_ifs <;> simp_all [EventRound.value]
  omega

/-- What is written is added to it. -/
theorem write_balance (len : Nat) (v : UInt64) (signals : Bool) :
    (fd.write len v signals).1.counter = fd.counter + (fd.write len v signals).2.value := by
  obtain ⟨-, heq⟩ | ⟨-, ⟨-, heq⟩ | ⟨-, heq⟩⟩ := fd.write_cases len v signals <;> rw [heq]
  · rfl
  · unfold retry
    split_ifs <;> rfl
  · rfl

theorem write_le (hle : fd.counter ≤ maxU64) (len : Nat) (v : UInt64) (signals : Bool) :
    (fd.write len v signals).1.counter ≤ maxU64 := by
  obtain ⟨-, heq⟩ | ⟨-, ⟨-, heq⟩ | ⟨hro, heq⟩⟩ := fd.write_cases len v signals <;> rw [heq]
  exacts [hle, hle, hro]

end EventFd

/-- `written` and `taken` add up the values of the calls that returned; `last` is the last call, and where it began. -/
structure EventRun where
  fd : EventFd
  written : Nat
  taken : Nat
  last : Option (EventCall × EventFd)

namespace EventRun

def next : EventCall → EventRun → EventRun
  | call@(.read len signals), ⟨fd, written, taken, _⟩ =>
    ⟨(fd.read len signals).1, written, taken + (fd.read len signals).2.value, some (call, fd)⟩
  | call@(.write len v signals), ⟨fd, written, taken, _⟩ =>
    ⟨(fd.write len v signals).1, written + (fd.write len v signals).2.value, taken, some (call, fd)⟩
  | .poll, s => {s with last := some (.poll, s.fd)}

def machine : Machine EventRun EventCall := ⟨fun call s => some (next call s)⟩

def opened (initval : UInt32) (semaphore nonblocking : Bool) : EventRun :=
  ⟨⟨initval.toNat, semaphore, nonblocking⟩, 0, 0, none⟩

structure Lawful (initval : Nat) (s : EventRun) : Prop where
  balance : s.fd.counter + s.taken = initval + s.written
  bound : s.fd.counter < maxU64
  answered : ∀ c ∈ s.last, c.2.Answered c.1

theorem lawful_next {initval : Nat} {s : EventRun} (h : s.Lawful initval) (call : EventCall) :
    (next call s).Lawful initval ↔ s.fd.Fine call := by
  have hbal := h.balance
  cases call with
  | read len signals =>
    have hre := s.fd.read_balance len signals
    refine iff_of_true ⟨?_, ?_, fun c hc => ?_⟩ trivial
    · simp only [next]
      omega
    · exact Nat.lt_of_le_of_lt (Nat.le.intro hre) h.bound
    · cases hc
      trivial
  | write len v signals =>
    have hwr := s.fd.write_balance len v signals
    rw [← s.fd.write_answered h.bound len v signals]
    refine ⟨fun ht => ⟨ht.bound, ht.answered _ rfl⟩, fun ht => ⟨?_, ht.1, fun c hc => ?_⟩⟩
    · simp only [next]
      omega
    · cases hc
      exact ht.2
  | poll =>
    rw [← s.fd.poll_answered h.bound]
    refine ⟨fun ht => ht.answered _ rfl, fun ht => ⟨hbal, h.bound, fun c hc => ?_⟩⟩
    cases hc
    exact ht

/-- **The counter is what was written and not read**, stays below 2^64 - 1 and every call is answered as it should be,
along a run just if each call is fine. -/
theorem lawful_iff (initval : UInt32) (semaphore nonblocking : Bool) (calls : List EventCall) :
    machine.Always (Lawful initval.toNat) (opened initval semaphore nonblocking) calls ↔
      machine.Meets (fun call s => s.fd.Fine call) (opened initval semaphore nonblocking) calls := by
  refine Machine.always_iff_meets_of_total (fun _ _ => rfl) (fun _ h => h)
    (fun call s h => (lawful_next h call).mpr) (fun call s h => (lawful_next h call).mp) calls ⟨rfl, ?_, nofun⟩
  exact Nat.lt_trans initval.toNat_lt (by decide)

/-- The largest value is written to an empty counter. -/
theorem counter_past_bound : (machine.run (opened 0 false false) [.write 8 0xffffffffffffffff false]).map (·.fd.counter) =
    some (2 ^ 64 - 1) := by decide

/-- **No count is lost**, and the counter never wraps, whatever the calls. -/
theorem counter_balanced (initval : UInt32) (semaphore nonblocking : Bool) (calls : List EventCall) :
    machine.Always (fun s => s.fd.counter + s.taken = initval.toNat + s.written ∧ s.fd.counter ≤ maxU64)
      (opened initval semaphore nonblocking) calls := by
  have hle : initval.toNat ≤ maxU64 := initval.toNat_lt.le.trans (by decide)
  refine Machine.always_of_meets (fun call s t h _ hst => ?_) (fun _ h => h) calls ⟨rfl, hle⟩ (Machine.meets_trivial _ _)
  cases hst
  cases call with
  | poll => exact h
  | read len signals =>
    have hre := s.fd.read_balance len signals
    simp only [next]
    omega
  | write len v signals =>
    have hwr := s.fd.write_balance len v signals
    exact ⟨by simp only [next]; omega, s.fd.write_le h.2 len v signals⟩

end EventRun
end StarryX.Fs
