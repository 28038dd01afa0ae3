import StarryX.Errno
import StarryX.Library.Hoare
import StarryX.Library.Machine

/-! Signal masks.

Four places write the mask of a thread: `rt_sigprocmask`, `rt_sigsuspend`, the delivery of a signal to
a handler, and `rt_sigreturn`, which takes it from a frame in user memory. Only `rt_sigsuspend` leaves
out the two signals that must not be blocked, so they stay unblocked in runs whose masks do without
them (`fatal_never_blocked`), and not in others (`sigprocmask_blocks_kill`).

A step is what is done under the lock of the mask and of the actions. What a frame holds is the user's
to choose, so frames are no part of the state. -/
namespace StarryX.Task
open Library
open Option (some.inj)

/-! ### Signals and sets -/

structure Signo where
  number : Nat
  positive : 1 ≤ number
  bounded : number ≤ 64
  deriving DecidableEq

variable {n o : Signo}

namespace Signo

def fromRepr (repr : Nat) : Option Signo :=
  if h : 1 ≤ repr ∧ repr ≤ 64 then some ⟨repr, h.1, h.2⟩ else none

def sigkill : Signo := ⟨9, by decide, by decide⟩

def sigstop : Signo := ⟨19, by decide, by decide⟩

theorem bit_lt (n : Signo) : n.number - 1 < 64 := by
  have := n.bounded
  omega

theorem eq_of_bit (h : n.number - 1 = o.number - 1) : o = n := by
  cases n
  cases o
  simp only [mk.injEq] at *
  omega

def isRealtime (signo : Signo) : Bool := 32 ≤ signo.number

end Signo

abbrev SignalSet := BitVec 64

namespace SignalSet

def signoBit (signo : Signo) : SignalSet := 1#64 <<< (signo.number - 1)

def has (set : SignalSet) (signo : Signo) : Bool := set &&& signoBit signo != 0

def add (set : SignalSet) (signo : Signo) : SignalSet := if has set signo then set else set ||| signoBit signo

def remove (set : SignalSet) (signo : Signo) : SignalSet := if has set signo then set &&& ~~~signoBit signo else set

variable (set : SignalSet)

theorem has_eq (n : Signo) : has set n = set.getLsbD (n.number - 1) := by
  unfold has signoBit
  rw [← BitVec.twoPow_eq, BitVec.and_twoPow]
  cases set.getLsbD (n.number - 1) with
  | false => rfl
  | true =>
    have hne : BitVec.twoPow 64 (n.number - 1) ≠ 0#64 := by
      intro h
      have hbit := congrArg (fun b : BitVec 64 => b.getLsbD (n.number - 1)) h
      simp [n.bit_lt] at hbit
    simpa using hne

@[simp]
theorem has_zero (n : Signo) : has 0 n = false := by
  rw [has_eq]
  exact BitVec.getLsbD_zero

@[simp]
theorem has_or (a b : SignalSet) (n : Signo) : has (a ||| b) n = (has a n || has b n) := by
  simp [has_eq]

theorem has_andNot (a b : SignalSet) (n : Signo) : has (a &&& ~~~b) n = (has a n && !has b n) := by
  simp [has_eq, n.bit_lt]

/-- Different signals have different bits. -/
theorem has_signoBit (n o : Signo) : has (signoBit n) o = decide (o = n) := by
  rw [has_eq, signoBit, ← BitVec.twoPow_eq]
  by_cases h : o = n
  · subst h
    simp [o.bit_lt]
  · have hne : n.number - 1 ≠ o.number - 1 := mt Signo.eq_of_bit h
    simp [h, hne]

theorem has_add (n o : Signo) : has (add set n) o = (has set o || decide (o = n)) := by
  unfold add
  split
  · by_cases h : o = n
    · subst h
      simp_all
    · simp [h]
  · rw [has_or, has_signoBit]

theorem has_remove (n o : Signo) : has (remove set n) o = (has set o && !decide (o = n)) := by
  unfold remove
  split
  · rw [has_andNot, has_signoBit]
  · by_cases h : o = n
    · subst h
      simp_all
    · simp [h]

/-- Neither of the two signals that must not be blocked. -/
def Clean (set : SignalSet) : Prop := has set .sigkill = false ∧ has set .sigstop = false

instance (set : SignalSet) : Decidable (Clean set) := inferInstanceAs (Decidable (_ ∧ _))

theorem clean_zero : Clean 0 := ⟨has_zero _, has_zero _⟩

variable {a : SignalSet}

theorem Clean.or {b : SignalSet} (ha : Clean a) (hb : Clean b) : Clean (a ||| b) := by
  simp [Clean, ha.1, ha.2, hb.1, hb.2]

theorem Clean.add (ha : Clean a) (hki : n ≠ .sigkill) (hst : n ≠ .sigstop) : Clean (add a n) := by
  simp [Clean, has_add, ha.1, ha.2, hki.symm, hst.symm]

theorem clean_remove (a : SignalSet) : Clean (remove (remove a .sigkill) .sigstop) := by
  simp [Clean, has_remove]

end SignalSet

/-! ### Actions -/

inductive SignalDisposition where
  | default
  | ignore
  | handler (address : Nat)
  deriving DecidableEq

abbrev SignalActionFlags := BitVec 64

namespace SignalActionFlags

def nodefer : SignalActionFlags := 0x40000000

def resethand : SignalActionFlags := 0x80000000

def onstack : SignalActionFlags := 0x08000000

/-- `SIGINFO`, `NODEFER`, `RESETHAND`, `RESTART`, `ONSTACK`, `NOCLDSTOP` and `RESTORER`. -/
def all : SignalActionFlags := 0x4 ||| nodefer ||| resethand ||| 0x10000000 ||| onstack ||| 0x20000000 ||| 0x4000000

def fromBits (bits : BitVec 64) : Option SignalActionFlags := if bits &&& ~~~all = 0 then some bits else none

def contains (flags other : SignalActionFlags) : Bool := flags &&& other == other

end SignalActionFlags

/-- A `SignalAction`. No call sets its restorer. -/
structure SignalAction where
  flags : SignalActionFlags
  mask : SignalSet
  disposition : SignalDisposition
  deriving DecidableEq

namespace SignalAction

def default : SignalAction := ⟨0, 0, .default⟩

def fromRawParts (handler : Nat) (flags : BitVec 64) (mask : SignalSet) : LinuxResult SignalAction :=
  match SignalActionFlags.fromBits flags with
  | none => .error .einval
  | some flags =>
    .ok ⟨flags, mask,
      match handler with
      | 0 => .default
      | 1 => .ignore
      | address => .handler address⟩

end SignalAction

abbrev SignalActions := Signo → SignalAction

inductive DefaultSignalAction where
  | terminate
  | ignore
  | coreDump
  | stop
  | continue
  deriving DecidableEq

def Signo.defaultAction (signo : Signo) : DefaultSignalAction :=
  match signo.number with
  | 3 | 4 | 5 | 6 | 7 | 8 | 11 | 24 | 25 | 31 => .coreDump
  | 17 | 23 | 28 => .ignore
  | 18 => .continue
  | 19 | 20 | 21 | 22 => .stop
  | number => if number < 32 then .terminate else .ignore

inductive SignalOSAction where
  | terminate
  | coreDump
  | stop
  | continue
  | handler
  deriving DecidableEq

/-! ### Pending signals -/

/-- The pending signals, one entry for each instance. A standard signal is there once at most. -/
abbrev PendingSignals := List Signo

def PendingSignals.put (pending : PendingSignals) (signo : Signo) : PendingSignals :=
  if !signo.isRealtime && pending.contains signo then pending else pending ++ [signo]

/-- The lowest signal of the mask comes first. -/
def PendingSignals.dequeue (pending : PendingSignals) (mask : SignalSet) : Option (Signo × PendingSignals) :=
  ((List.range 64).findSome? fun bit =>
    pending.find? fun signo => signo.number == bit + 1 && SignalSet.has mask signo).map fun signo =>
      (signo, pending.erase signo)

/-! ### Frames -/

/-- The registers that signals use. -/
structure TrapFrame where
  ip : Nat
  sp : Nat
  ra : Nat
  arg0 : Nat
  arg1 : Nat
  arg2 : Nat
  deriving DecidableEq

structure SignalStack where
  sp : Nat
  flags : Nat
  size : Nat

namespace SignalStack

def default : SignalStack := ⟨0, 2, 0⟩

def disabled (stack : SignalStack) : Bool := stack.flags == 2

end SignalStack

/-- A `SignalFrame`; `sigmask` is in its `ucontext`. -/
structure SignalFrame where
  sigmask : SignalSet
  siginfo : Signo
  tf : TrapFrame
  deriving DecidableEq

/-- The layout of a `SignalFrame` and the addresses at which it can be stored. At another the store faults again and again:
the trap handler sends SIGSEGV and goes back to it. -/
structure FrameMemory where
  size : Nat
  align : Nat
  siginfo : Nat
  ucontext : Nat
  writable : Nat → Bool

/-- Where the frame goes. -/
def FrameMemory.place (memory : FrameMemory) (sp : Nat) : Nat :=
  let address := (sp + (2 ^ 64 - memory.size)) % 2 ^ 64
  address - address % memory.align

/-! ### Threads -/

/-- The signal state of a process. Its actions may be another process's too. -/
structure ProcessSignals (τ : Type) where
  pending : PendingSignals
  table : τ
  defaultRestorer : Nat

structure ThreadSignals (κ : Type) where
  process : κ
  pending : PendingSignals
  blocked : SignalSet
  stack : SignalStack

structure Signals (ι κ τ : Type) where
  threads : ι → ThreadSignals κ
  processes : κ → ProcessSignals τ
  actions : τ → SignalActions

/-- What `check_signals` works on. -/
structure Delivery where
  thread : PendingSignals
  process : PendingSignals
  blocked : SignalSet
  stack : SignalStack
  restorer : Nat
  tf : TrapFrame
  /-- The frame in user memory. -/
  stored : Option (Nat × SignalFrame)

def Delivery.dequeue (d : Delivery) (mask : SignalSet) : Option (Signo × Delivery) :=
  match PendingSignals.dequeue d.thread mask with
  | some (signo, rest) => some (signo, {d with thread := rest})
  | none => (PendingSignals.dequeue d.process mask).map fun found => (found.1, {d with process := found.2})

/-- The address of the frame for a handler. -/
def Delivery.frame (d : Delivery) (memory : FrameMemory) (action : SignalAction) : Nat :=
  memory.place (if d.stack.disabled || !action.flags.contains .onstack then d.tf.sp else d.stack.sp)

/-- `none` if it does not return: it faults at the frame, or the assertion of the mutex fails, since with `RESETHAND` the
actions are locked a second time. -/
def handleSignal (memory : FrameMemory) (restoreBlocked : SignalSet) (signo : Signo) (action : SignalAction) (d : Delivery) :
    Option (Option SignalOSAction × Delivery) :=
  match action.disposition with
  | .default =>
    some (match signo.defaultAction with
      | .terminate => some .terminate
      | .coreDump => some .coreDump
      | .stop => some .stop
      | .ignore => none
      | .continue => some .continue, d)
  | .ignore => some (none, d)
  | .handler address =>
    let frame := d.frame memory action
    if !memory.writable frame then none
    else if action.flags.contains .resethand then none
    else
      let addBlocked := if action.flags.contains .nodefer then action.mask else SignalSet.add action.mask signo
      some (some .handler, {d with
        blocked := d.blocked ||| addBlocked
        tf := ⟨address, frame, d.restorer, signo.number, frame + memory.siginfo, frame + memory.ucontext⟩
        stored := some (frame, ⟨restoreBlocked, signo, d.tf⟩)})

section Check
variable (memory : FrameMemory) (actions : SignalActions)

/-- The loop of `check_signals`; `fuel` is more than the number of pending signals. -/
def checkLoop (restoreBlocked mask : SignalSet) : (fuel : Nat) → Delivery → Option (Option SignalOSAction × Delivery)
  | 0, d => some (none, d)
  | fuel + 1, d =>
    match d.dequeue mask with
    | none => some (none, d)
    | some (signo, d) =>
      match handleSignal memory restoreBlocked signo (actions signo) d with
      | none => none
      | some (some action, d) => some (some action, d)
      | some (none, d) => checkLoop restoreBlocked mask fuel d

def checkSignals (restoreBlocked : Option SignalSet) (d : Delivery) : Option (Option SignalOSAction × Delivery) :=
  checkLoop memory actions (restoreBlocked.getD d.blocked) (~~~d.blocked) (d.thread.length + d.process.length + 1) d

end Check

/-! ### Calls -/

def sizeOfSet : Nat := 8

/-- Of RISC-V. -/
def minsigstksz : Nat := 2048

def checkSigsetSize (size : Nat) : LinuxResult Unit := if size ≠ sizeOfSet then .error .einval else .ok ()

/-- The number is cut to a byte. -/
def parseSigno (signo : Nat) : LinuxResult Signo :=
  match Signo.fromRepr (signo % 256) with
  | some signo => .ok signo
  | none => .error .einval

/-- The new mask. `oldset` and `set` are the accesses to user memory, `none` where the pointer is null. -/
def sysRtSigprocmask (how : Nat) (set : LinuxResult (Option SignalSet)) (oldset : LinuxResult Unit) (sigsetsize : Nat)
    (blocked : SignalSet) : LinuxResult SignalSet := do
  checkSigsetSize sigsetsize
  oldset
  match ← set with
  | none => pure blocked
  | some set =>
    match how with
    | 0 => pure (blocked ||| set)
    | 1 => pure (blocked &&& ~~~set)
    | 2 => pure set
    | _ => .error .einval

structure UserSignalAction where
  handler : Nat
  flags : BitVec 64
  mask : SignalSet

/-- The new actions. -/
def sysRtSigaction (signo : Nat) (act : LinuxResult (Option UserSignalAction)) (oldact : LinuxResult Unit)
    (sigsetsize : Nat) (actions : SignalActions) : LinuxResult SignalActions := do
  checkSigsetSize sigsetsize
  let signo ← parseSigno signo
  if signo = .sigkill ∨ signo = .sigstop then .error .einval
  else do
    oldact
    match ← act with
    | none => pure actions
    | some act => do
      let action ← SignalAction.fromRawParts act.handler act.flags act.mask
      pure (Function.update actions signo action)

/-- The mask while `rt_sigsuspend` waits. -/
def sysRtSigsuspend (set : LinuxResult SignalSet) (sigsetsize : Nat) : LinuxResult SignalSet := do
  checkSigsetSize sigsetsize
  let set ← set
  pure (SignalSet.remove (SignalSet.remove set .sigkill) .sigstop)

/-- The new stack; `readable` is the access to the whole of it. -/
def sysSigaltstack (ss : LinuxResult (Option SignalStack)) (oldSs readable : LinuxResult Unit) (stack : SignalStack) :
    LinuxResult SignalStack := do
  oldSs
  match ← ss with
  | none => pure stack
  | some ss =>
    if ss.size ≤ minsigstksz then .error .enomem
    else do
      readable
      pure ss

/-! ### Runs -/

inductive SignalLabel (ι κ : Type) where
  | sigprocmask (t : ι) (how : Nat) (set : LinuxResult (Option SignalSet)) (oldset : LinuxResult Unit) (sigsetsize : Nat)
  | sigaction (t : ι) (signo : Nat) (act : LinuxResult (Option UserSignalAction)) (oldact : LinuxResult Unit)
      (sigsetsize : Nat)
  | sigsuspend (t : ι) (set : LinuxResult SignalSet) (sigsetsize : Nat)
  /-- The mask is what the frame holds by then. -/
  | sigreturn (t : ι) (sigmask : SignalSet)
  | sendThread (t : ι) (signo : Signo)
  | sendProcess (k : κ) (signo : Signo)
  | sigaltstack (t : ι) (ss : LinuxResult (Option SignalStack)) (oldSs readable : LinuxResult Unit)
  /-- After a trap, or in the loop of `rt_sigsuspend`. -/
  | checkSignals (t : ι) (memory : FrameMemory) (tf : TrapFrame) (restoreBlocked : Option SignalSet)

namespace Signals
variable {ι κ τ : Type} [DecidableEq ι] [DecidableEq κ] [DecidableEq τ]

def setThread (s : Signals ι κ τ) (t : ι) (thread : ThreadSignals κ) : Signals ι κ τ :=
  {s with threads := Function.update s.threads t thread}

/-- A call that fails changes nothing. -/
def setBlocked (s : Signals ι κ τ) (t : ι) : LinuxResult SignalSet → Signals ι κ τ
  | .ok blocked => s.setThread t {s.threads t with blocked := blocked}
  | .error _ => s

def check (s : Signals ι κ τ) (t : ι) (memory : FrameMemory) (tf : TrapFrame) (restoreBlocked : Option SignalSet) :
    Option (Signals ι κ τ) :=
  let thread := s.threads t
  let process := s.processes thread.process
  (Task.checkSignals memory (s.actions process.table) restoreBlocked
    ⟨thread.pending, process.pending, thread.blocked, thread.stack, process.defaultRestorer, tf, none⟩).map fun found =>
    {s with
      threads := Function.update s.threads t {thread with pending := found.2.thread, blocked := found.2.blocked}
      processes := Function.update s.processes thread.process {process with pending := found.2.process}}

def step (s : Signals ι κ τ) : SignalLabel ι κ → Option (Signals ι κ τ)
  | .sigprocmask t how set oldset sigsetsize =>
    some (s.setBlocked t (sysRtSigprocmask how set oldset sigsetsize (s.threads t).blocked))
  | .sigaction t signo act oldact sigsetsize =>
    let table := (s.processes (s.threads t).process).table
    match sysRtSigaction signo act oldact sigsetsize (s.actions table) with
    | .ok actions => some {s with actions := Function.update s.actions table actions}
    | .error _ => some s
  | .sigsuspend t set sigsetsize =>
    some (s.setBlocked t (sysRtSigsuspend set sigsetsize))
  | .sigreturn t sigmask => some (s.setThread t {s.threads t with blocked := sigmask})
  | .sendThread t signo => some (s.setThread t {s.threads t with pending := (s.threads t).pending.put signo})
  | .sendProcess k signo =>
    some {s with processes := Function.update s.processes k {s.processes k with pending := (s.processes k).pending.put signo}}
  | .sigaltstack t ss oldSs readable =>
    match sysSigaltstack ss oldSs readable (s.threads t).stack with
    | .ok stack => some (s.setThread t {s.threads t with stack := stack})
    | .error _ => some s
  | .checkSignals t memory tf restoreBlocked => s.check t memory tf restoreBlocked

def machine : Machine (Signals ι κ τ) (SignalLabel ι κ) := ⟨fun label s => s.step label⟩

/-- Nothing is blocked, and no signal has an action of its own. -/
structure Initial (s : Signals ι κ τ) : Prop where
  blocked : ∀ t, (s.threads t).blocked = 0
  actions : ∀ k signo, s.actions k signo = .default

/-! ### What stays unblocked -/

/-- The masks that the label brings from user memory leave the two signals out. -/
def Spares : SignalLabel ι κ → Prop
  | .sigprocmask _ how (.ok (some set)) _ _ => how = 1 ∨ SignalSet.Clean set
  | .sigaction _ _ (.ok (some act)) _ _ => SignalSet.Clean act.mask
  | .sigreturn _ sigmask => SignalSet.Clean sigmask
  | _ => True

/-- An action that blocks neither of the two, and is not for one of them if it is a handler. -/
structure Harmless (signo : Signo) (action : SignalAction) : Prop where
  mask : SignalSet.Clean action.mask
  fatal : signo = .sigkill ∨ signo = .sigstop → action.disposition = .default

structure Unblocked (s : Signals ι κ τ) : Prop where
  blocked : ∀ t, SignalSet.Clean (s.threads t).blocked
  actions : ∀ k signo, Harmless signo (s.actions k signo)

omit [DecidableEq ι] [DecidableEq κ] [DecidableEq τ] in
theorem Initial.unblocked {s : Signals ι κ τ} (h : s.Initial) : s.Unblocked where
  blocked := fun t => by rw [h.blocked t]; exact SignalSet.clean_zero
  actions := fun k n => by rw [h.actions k n]; exact ⟨SignalSet.clean_zero, fun _ => rfl⟩

end Signals

variable {r : Option SignalOSAction} {memory : FrameMemory} {keep : SignalSet}

theorem handleSignal_clean {action : SignalAction} {d d' : Delivery} (hac : Signals.Harmless n action)
    (hd : SignalSet.Clean d.blocked) (h : handleSignal memory keep n action d = some (r, d')) : SignalSet.Clean d'.blocked := by
  unfold handleSignal at h
  cases hdisp : action.disposition with
  | default | ignore =>
    rw [hdisp] at h
    cases h
    exact hd
  | handler addr =>
    rw [hdisp] at h
    dsimp only at h
    split_ifs at h
    all_goals
      cases h
      refine hd.or ?_
      have hor : ¬ (n = .sigkill ∨ n = .sigstop) := fun hfa => nomatch hdisp.symm.trans (hac.fatal hfa)
      first | exact hac.mask | exact hac.mask.add (mt .inl hor) (mt .inr hor)

variable {acts : SignalActions}

/-- The loop blocks no more than its last action. -/
theorem checkLoop_clean (hac : ∀ n, Signals.Harmless n (acts n)) (mask : SignalSet) (fuel : Nat)
    {d d' : Delivery} (hd : SignalSet.Clean d.blocked) (h : checkLoop memory acts keep mask fuel d = some (r, d')) :
    SignalSet.Clean d'.blocked := by
  induction fuel generalizing d with
  | zero =>
    cases h
    exact hd
  | succ fuel ih =>
    unfold checkLoop at h
    split at h
    · cases h
      exact hd
    next n e hde =>
      have he : SignalSet.Clean e.blocked := by
        unfold Delivery.dequeue at hde
        split at hde
        · cases hde
          exact hd
        · obtain ⟨found, -, hfo⟩ := Option.map_eq_some_iff.mp hde
          obtain ⟨-, rfl⟩ := Prod.mk.inj hfo
          exact hd
      split at h
      · cases h
      next action e' hha =>
        cases h
        exact handleSignal_clean (hac n) he hha
      next e' hha =>
        exact ih (handleSignal_clean (hac n) he hha) h

variable {sigsetsize : Nat}

open Except (ok)

theorem sysRtSigprocmask_clean {how : Nat} {set : LinuxResult (Option SignalSet)} {oldset : LinuxResult Unit}
    {blocked new : SignalSet} (hbl : SignalSet.Clean blocked)
    (hset : ∀ c, set = .ok (some c) → how = 1 ∨ SignalSet.Clean c)
    (h : sysRtSigprocmask how set oldset sigsetsize blocked = .ok new) : SignalSet.Clean new := by
  obtain ⟨_, -, h⟩ := except_bind_ok h
  obtain ⟨_, -, h⟩ := except_bind_ok h
  obtain ⟨c, hch, h⟩ := except_bind_ok h
  cases c with
  | none => exact ok.inj h ▸ hbl
  | some c =>
    have hc := hset c hch
    dsimp only at h
    split at h
    · exact ok.inj h ▸ hbl.or (hc.resolve_left nofun)
    · exact ok.inj h ▸ by simp [SignalSet.Clean, SignalSet.has_andNot, hbl.1, hbl.2]
    · exact ok.inj h ▸ hc.resolve_left nofun
    · cases h

theorem sysRtSigaction_harmless {n : Nat} {act : LinuxResult (Option UserSignalAction)}
    {oldact : LinuxResult Unit} {new : SignalActions} (hacts : ∀ n, Signals.Harmless n (acts n))
    (hact : ∀ c, act = .ok (some c) → SignalSet.Clean c.mask)
    (h : sysRtSigaction n act oldact sigsetsize acts = .ok new) (o : Signo) :
    Signals.Harmless o (new o) := by
  obtain ⟨_, -, h⟩ := except_bind_ok h
  obtain ⟨n, -, h⟩ := except_bind_ok h
  split at h
  · cases h
  next hor =>
    obtain ⟨_, -, h⟩ := except_bind_ok h
    obtain ⟨c, hch, h⟩ := except_bind_ok h
    cases c with
    | none => exact ok.inj h ▸ hacts o
    | some c =>
      obtain ⟨action, hac, h⟩ := except_bind_ok h
      obtain rfl := ok.inj h
      by_cases hot : o = n
      · subst hot
        rw [Function.update_self]
        unfold SignalAction.fromRawParts at hac
        split at hac
        · cases hac
        · obtain rfl := ok.inj hac
          exact ⟨hact c hch, fun hfa => absurd hfa hor⟩
      · rw [Function.update_of_ne hot]
        exact hacts o

theorem sysRtSigsuspend_clean {set : LinuxResult SignalSet} {new : SignalSet}
    (h : sysRtSigsuspend set sigsetsize = .ok new) : SignalSet.Clean new := by
  obtain ⟨_, -, h⟩ := except_bind_ok h
  obtain ⟨c, -, h⟩ := except_bind_ok h
  exact ok.inj h ▸ SignalSet.clean_remove c

namespace Signals
variable {ι κ τ : Type} [DecidableEq ι] [DecidableEq κ] [DecidableEq τ] {s s' : Signals ι κ τ}

omit [DecidableEq κ] [DecidableEq τ] in
theorem Unblocked.setThread (h : s.Unblocked) (t : ι) {th : ThreadSignals κ} (hthr : SignalSet.Clean th.blocked) :
    (s.setThread t th).Unblocked where
  blocked := by
    intro u
    show SignalSet.Clean (Function.update s.threads t th u).blocked
    by_cases hu : u = t
    · subst hu
      rwa [Function.update_self]
    · rw [Function.update_of_ne hu]
      exact h.blocked u
  actions := h.actions

omit [DecidableEq κ] [DecidableEq τ] in
theorem Unblocked.setBlocked (h : s.Unblocked) (t : ι) {res : LinuxResult SignalSet}
    (hres : ∀ blocked, res = .ok blocked → SignalSet.Clean blocked) : (s.setBlocked t res).Unblocked := by
  cases res with
  | ok blocked => exact h.setThread t (hres blocked rfl)
  | error e => exact h

theorem Unblocked.step (h : s.Unblocked) {l : SignalLabel ι κ} (hla : Spares l) (hst : s.step l = some s') :
    s'.Unblocked := by
  cases l with
  | sigprocmask t how set oldset sigsetsize =>
    refine some.inj hst ▸ h.setBlocked t fun blocked hnew => ?_
    refine sysRtSigprocmask_clean (h.blocked t) (fun c hch => ?_) hnew
    subst hch
    exact hla
  | sigaction t n act oldact sigsetsize =>
    unfold Signals.step at hst
    dsimp only at hst
    split at hst
    next acts hnew =>
      cases hst
      refine ⟨h.blocked, fun k o => ?_⟩
      show Harmless o (Function.update s.actions _ acts k o)
      by_cases hk : k = (s.processes (s.threads t).process).table
      · subst hk
        rw [Function.update_self]
        refine sysRtSigaction_harmless (h.actions _) (fun c hch => ?_) hnew o
        subst hch
        exact hla
      · rw [Function.update_of_ne hk]
        exact h.actions k o
    · exact some.inj hst ▸ h
  | sigsuspend t set sigsetsize =>
    exact some.inj hst ▸ h.setBlocked t fun blocked hnew => sysRtSigsuspend_clean hnew
  | sigreturn t sigmask => exact some.inj hst ▸ h.setThread t hla
  | sendThread t n => exact some.inj hst ▸ h.setThread t (h.blocked t)
  | sendProcess k n => exact some.inj hst ▸ {h with}
  | sigaltstack t ss oldSs readable =>
    unfold Signals.step at hst
    dsimp only at hst
    split at hst
    · exact some.inj hst ▸ h.setThread t (h.blocked t)
    · exact some.inj hst ▸ h
  | checkSignals t =>
    obtain ⟨⟨r, d⟩, hck, hst⟩ := Option.map_eq_some_iff.mp hst
    obtain rfl := hst
    have hc := checkLoop_clean (h.actions _) _ _ (h.blocked t) hck
    have hthr : (s.setThread t {s.threads t with pending := d.thread, blocked := d.blocked}).Unblocked :=
      h.setThread t hc
    exact {hthr with}

/-- **SIGKILL and SIGSTOP stay unblocked** in every run in which the masks that come from user memory
leave them out. -/
theorem fatal_never_blocked {labels : List (SignalLabel ι κ)} (hinitial : s.Initial)
    (hlabels : machine.Meets (fun label _ => Spares label) s labels) (hrun : machine.run s labels = some s') (t : ι) :
    SignalSet.has (s'.threads t).blocked .sigkill = false ∧ SignalSet.has (s'.threads t).blocked .sigstop = false := by
  have h : s'.Unblocked := Machine.run_induct_under (fun _ s _ (h : s.Unblocked) hlabel hst => h.step hlabel hst) labels
    hinitial.unblocked hlabels hrun
  exact h.blocked t

/-- One thread. -/
def single : Signals Unit Unit Unit := ⟨fun _ => ⟨(), [], 0, .default⟩, fun _ => ⟨[], (), 0⟩, fun _ _ => .default⟩

/-- A handler for SIGUSR1 that blocks SIGINT is entered and left. -/
def handled : List (SignalLabel Unit Unit) :=
  [.sigaction () 10 (.ok (some ⟨0x1000, 0, 2⟩)) (.ok ()) 8, .sendProcess () ⟨10, by decide, by decide⟩,
    .checkSignals () ⟨0x400, 16, 0x300, 0, fun _ => true⟩ ⟨0x1000, 0x8000, 0, 0, 0, 0⟩ none,
    .sigprocmask () 0 (.ok (some 4)) (.ok ()) 8, .sigreturn () 0]

theorem fatal_never_blocked_handled :
    ∃ s', machine.run single handled = some s' ∧ SignalSet.has (s'.threads ()).blocked .sigkill = false ∧
      SignalSet.has (s'.threads ()).blocked .sigstop = false := by
  have hruns : (machine.run single handled).isSome := by decide
  obtain ⟨s', hrun⟩ := Option.isSome_iff_exists.mp hruns
  have hmask : SignalSet.Clean 2 := by decide
  have hset : SignalSet.Clean 4 := by decide
  have hspare : machine.Meets (fun label _ => Spares label) single handled :=
    ⟨hmask, fun _ _ => ⟨trivial, fun _ _ => ⟨trivial, fun _ _ => ⟨.inr hset, fun _ _ =>
      ⟨SignalSet.clean_zero, fun _ _ => trivial⟩⟩⟩⟩⟩
  exact ⟨s', hrun, fatal_never_blocked ⟨fun _ => rfl, fun _ _ => rfl⟩ hspare hrun ()⟩

/-- `rt_sigprocmask(SIG_BLOCK, {SIGKILL})` does what it is asked. -/
theorem sigprocmask_blocks_kill :
    ∃ s', single.Initial ∧ machine.run single [.sigprocmask () 0 (.ok (some (SignalSet.signoBit .sigkill))) (.ok ()) 8] = some s' ∧
      SignalSet.has (s'.threads ()).blocked .sigkill = true :=
  ⟨_, ⟨fun _ => rfl, fun _ _ => rfl⟩, rfl, by decide⟩

end Signals

/-! ### Delivery -/

section Delivering
variable {mask : SignalSet} {d d' : Delivery} {p : Signo → Prop} {n : Signo}

def PendingSignals.Lowest (p : Signo → Prop) (pending : PendingSignals) (signo : Signo) : Prop :=
  p signo ∧ signo ∈ pending ∧ ∀ other ∈ pending, p other → signo.number ≤ other.number

/-- The first signal with the property: of the thread before of the process, and the lowest number of each. -/
def Delivery.First (p : Signo → Prop) (d : Delivery) (signo : Signo) : Prop :=
  d.thread.Lowest p signo ∨ (∀ other ∈ d.thread, ¬ p other) ∧ d.process.Lowest p signo

/-- The next signal that is not blocked. -/
def Delivery.Next (mask : SignalSet) : Delivery → Signo → Prop := First (mask.has ·)

/-- One instance less. -/
def Delivery.take (d : Delivery) (signo : Signo) : Delivery :=
  if signo ∈ d.thread then {d with thread := d.thread.erase signo} else {d with process := d.process.erase signo}

def SignalAction.Ignores (action : SignalAction) (signo : Signo) : Prop :=
  action.disposition = .ignore ∨ action.disposition = .default ∧ signo.defaultAction = .ignore

/-- What the action does with the registers: a handler gets the signal, and those before are in the frame on its stack. -/
def SignalAction.Enters (action : SignalAction) (signo : Signo) (before after : TrapFrame)
    (old new : Option (Nat × SignalFrame)) : Prop :=
  match action.disposition with
  | .handler address =>
    after.ip = address ∧ after.arg0 = signo.number ∧ ∃ sigmask, new = some (after.sp, ⟨sigmask, signo, before⟩)
  | _ => after = before ∧ new = old

/-- What it does with the mask. -/
def SignalAction.Blocks (action : SignalAction) (signo : Signo) (before after : SignalSet) : Prop :=
  match action.disposition with
  | .handler _ => ∀ other, after.has other ↔ before.has other ∨ action.mask.has other ∨
      action.flags.contains .nodefer = false ∧ other = signo
  | _ => after = before

/-- The signal is not blocked and has an effect. -/
def Acts (actions : SignalActions) (mask : SignalSet) (signo : Signo) : Prop :=
  mask.has signo ∧ ¬ (actions signo).Ignores signo

/-- Ignored signals are taken in order, up to the first with an effect. -/
inductive Delivered (actions : SignalActions) (mask : SignalSet) : Delivery → Option SignalOSAction → Delivery → Prop
  | idle {d : Delivery} : (∀ signo ∈ d.thread ++ d.process, ¬ mask.has signo) → Delivered actions mask d none d
  | skip {d d' : Delivery} {signo : Signo} {r : Option SignalOSAction} : d.Next mask signo → (actions signo).Ignores signo →
      Delivered actions mask (d.take signo) r d' → Delivered actions mask d r d'
  | effect {d : Delivery} {signo : Signo} {act : SignalOSAction} {blocked : SignalSet} {tf : TrapFrame}
      {stored : Option (Nat × SignalFrame)} : d.Next mask signo → ¬ (actions signo).Ignores signo →
      (actions signo).Blocks signo d.blocked blocked →
      (actions signo).Enters signo d.tf tf d.stored stored →
      Delivered actions mask d (some act) {d.take signo with blocked, tf, stored}

/-- A handler for once, or one whose frame cannot be stored. -/
def SignalAction.stuck (action : SignalAction) (memory : FrameMemory) (d : Delivery) : Bool :=
  match action.disposition with
  | .handler _ => action.flags.contains .resethand || !memory.writable (d.frame memory action)
  | _ => false

theorem findSome?_range {α : Type} {f : Nat → Option α} {n : Nat} {a : α} (h : (List.range n).findSome? f = some a) :
    ∃ i < n, f i = some a ∧ ∀ j < i, f j = none := by
  induction n with
  | zero => cases h
  | succ n ih =>
    rw [List.range_succ, List.findSome?_append, Option.or_eq_some_iff] at h
    obtain h | ⟨hno, h⟩ := h
    · obtain ⟨i, hi, hf⟩ := ih h
      exact ⟨i, by omega, hf⟩
    · refine ⟨n, Nat.lt_succ_self n, by simpa using h, fun j hj => ?_⟩
      exact List.findSome?_eq_none_iff.mp hno j (List.mem_range.mpr hj)

theorem PendingSignals.dequeue_cases (pending : PendingSignals) (mask : SignalSet) :
    (∀ n ∈ pending, ¬ mask.has n) ∧ dequeue pending mask = none ∨
      ∃ n, pending.Lowest (mask.has ·) n ∧ dequeue pending mask = some (n, pending.erase n) := by
  unfold dequeue
  cases hfi : (List.range 64).findSome? fun bit =>
      pending.find? fun n => n.number == bit + 1 && mask.has n with
  | none =>
    refine .inl ⟨fun n hin => ?_, rfl⟩
    have hno := List.findSome?_eq_none_iff.mp hfi (n.number - 1) (List.mem_range.mpr n.bit_lt)
    have := n.positive
    grind
  | some n =>
    obtain ⟨bit, -, hat, hbe⟩ := findSome?_range hfi
    have hhas := List.find?_some hat
    refine .inr ⟨n, ⟨by simp_all, List.mem_of_find?_eq_some hat, fun o hin hot => ?_⟩, rfl⟩
    by_contra hlt
    have := o.positive
    have hno := List.find?_eq_none.mp (hbe (o.number - 1) (by grind)) o hin
    grind

theorem Delivery.dequeue_cases (d : Delivery) (mask : SignalSet) :
    (∀ n ∈ d.thread ++ d.process, ¬ mask.has n) ∧ d.dequeue mask = none ∨
      ∃ n, d.Next mask n ∧ d.dequeue mask = some (n, d.take n) := by
  unfold dequeue take
  obtain ⟨hno, hde⟩ | ⟨n, hlow, hde⟩ := PendingSignals.dequeue_cases d.thread mask
  · obtain ⟨hno', hde'⟩ | ⟨n, hlow, hde'⟩ := PendingSignals.dequeue_cases d.process mask
    · exact .inl ⟨by grind, by simp [hde, hde']⟩
    · have hnot : n ∉ d.thread := fun h => hno n h hlow.1
      exact .inr ⟨n, .inr ⟨hno, hlow⟩, by simp [hde, hde', hnot]⟩
  · exact .inr ⟨n, .inl hlow, by simp [hde, hlow.2.1]⟩

theorem handleSignal_eq (memory : FrameMemory) (keep : SignalSet) (n : Signo) (action : SignalAction) (d : Delivery) :
    (action.Ignores n ∧ handleSignal memory keep n action d = some (none, d)) ∨ ¬ action.Ignores n ∧
      if action.stuck memory d then handleSignal memory keep n action d = none
      else ∃ act blocked tf stored, action.Blocks n d.blocked blocked ∧ action.Enters n d.tf tf d.stored stored ∧
        handleSignal memory keep n action d = some (some act, {d with blocked, tf, stored}) := by
  unfold handleSignal SignalAction.Ignores SignalAction.stuck SignalAction.Blocks SignalAction.Enters
  cases action.disposition with
  | default => cases n.defaultAction <;> simp
  | ignore => simp
  | handler addr =>
    cases hwr : memory.writable (d.frame memory action)
    · simp [hwr]
    · by_cases hre : action.flags.contains .resethand
      · simp [hwr, hre]
      · by_cases hno : action.flags.contains .nodefer <;> simp [hwr, hno, hre, SignalSet.has_add]

theorem Delivery.First.unique (h : d.First p n) (h' : d.First p o) : n = o := by
  have hle : n.number = o.number := by
    unfold First PendingSignals.Lowest at h h'
    grind
  cases n
  cases o
  simpa using hle

/-- Taking a signal without the property. -/
theorem Delivery.first_take (hno : ¬ p n) (other : Signo) :
    (d.take n).First p other ↔ d.First p other := by
  unfold First PendingSignals.Lowest take
  split <;> grind

theorem Delivery.take_length (h : d.First p n) :
    (d.take n).thread.length + (d.take n).process.length < d.thread.length + d.process.length := by
  unfold First PendingSignals.Lowest at h
  unfold take
  split <;> grind

theorem Delivery.take_stuck (d : Delivery) (action : SignalAction) :
    action.stuck memory (d.take n) = action.stuck memory d := by
  unfold take
  split <;> rfl

theorem Delivery.First.of_next (h : d.Next mask n) (hno : ¬ (acts n).Ignores n) : d.First (Acts acts mask) n := by
  unfold Delivery.Next at h
  grind [Delivery.First, PendingSignals.Lowest, Acts]

theorem checkLoop_delivers {fuel : Nat} (hfu : d.thread.length + d.process.length < fuel) :
    match checkLoop memory acts keep mask fuel d with
    | none => ∃ n, d.First (Acts acts mask) n ∧ (acts n).stuck memory d
    | some (r, d') => Delivered acts mask d r d' ∧
      ∀ n, d.First (Acts acts mask) n → (acts n).stuck memory d = false := by
  induction fuel generalizing d with
  | zero => omega
  | succ fuel ih =>
    unfold checkLoop
    obtain ⟨hno, hde⟩ | ⟨n, hf, hde⟩ := d.dequeue_cases mask
    · rw [hde]
      exact ⟨.idle hno, fun n h => by grind [Delivery.First, PendingSignals.Lowest, Acts]⟩
    · rw [hde]
      obtain ⟨hig, hha⟩ | ⟨hno, hha⟩ := handleSignal_eq memory keep n (acts n) (d.take n)
      · have hnot : ¬ Acts acts mask n := fun h => h.2 hig
        have hrest := ih (d := d.take n) (by have := Delivery.take_length hf; omega)
        simp only [Delivery.first_take hnot, Delivery.take_stuck] at hrest
        split at hrest <;> simp_all
        exact .skip hf hig hrest.1
      · rw [Delivery.take_stuck] at hha
        cases hst : (acts n).stuck memory d with
        | true =>
          simp only [hst, if_true] at hha
          simp only [hha]
          exact ⟨n, Delivery.First.of_next hf hno, hst⟩
        | false =>
          simp only [hst] at hha
          obtain ⟨act, blocked, tf, stored, hbl, hen, hha⟩ := hha
          simp only [hha]
          have hsa : (d.take n).blocked = d.blocked ∧ (d.take n).tf = d.tf ∧ (d.take n).stored = d.stored := by
            unfold Delivery.take
            split <;> exact ⟨rfl, rfl, rfl⟩
          rw [hsa.1] at hbl
          rw [hsa.2.1, hsa.2.2] at hen
          exact ⟨.effect hf hno hbl hen, fun o h => (Delivery.First.of_next hf hno).unique h ▸ hst⟩

/-- **A signal is delivered as it ought to be** just if the first one with an effect has no handler for once, and none whose
frame cannot be stored: for the one the table of actions is locked a second time, and the other faults forever. -/
theorem checkSignals_delivers_iff (memory : FrameMemory) (actions : SignalActions) (restoreBlocked : Option SignalSet)
    (d : Delivery) :
    (∃ r d', checkSignals memory actions restoreBlocked d = some (r, d') ∧ Delivered actions (~~~d.blocked) d r d') ↔
      ∀ signo, d.First (Acts actions (~~~d.blocked)) signo → (actions signo).stuck memory d = false := by
  have hrun : match checkSignals memory actions restoreBlocked d with | none => _ | some (r, d') => _ :=
    checkLoop_delivers (Nat.lt_succ_self _)
  split at hrun
  next hck =>
    obtain ⟨signo, hf, hst⟩ := hrun
    constructor
    · rintro ⟨r, d', hd, -⟩
      cases hck.symm.trans hd
    · intro h
      cases hst.symm.trans (h signo hf)
  next hck =>
    exact iff_of_true ⟨_, _, hck, hrun.1⟩ hrun.2

def Signo.sigusr1 : Signo := ⟨10, by decide, by decide⟩

/-- On a stack that can be written. -/
theorem once_locks_twice : checkSignals ⟨0x400, 16, 0x300, 0, fun _ => true⟩ (fun _ => ⟨.resethand, 0, .handler 0x1000⟩)
    none ⟨[.sigusr1], [], 0, .default, 0x2000, ⟨0x3000, 0x8000, 0, 0, 0, 0⟩, none⟩ = none := by
  decide

end Delivering

end StarryX.Task
