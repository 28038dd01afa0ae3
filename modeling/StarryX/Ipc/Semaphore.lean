import Mathlib.Algebra.BigOperators.Group.Finset.Basic
import StarryX.Errno
import StarryX.Library.Hoare
import StarryX.Library.Machine

/-! System V semaphores.

A `semop` call enters its first critical section once: there it fails, performs its
operations, or leaves them in the set's waiting queue. A call that has performed them
enters a second section that walks the queue for the others (`wakeUpProcesses`); a call
that waits polls the set until it can perform its operations itself. Every section holds
the one lock of the IPC manager, so each is a label of `Semops.machine`.

Both the walk and the poll perform a waiting call's operations, and neither looks for the
other. `semop_exactly_once` is what holds as long as no walk finds an entry it can perform:
a call that succeeds is applied once, a call that fails is not applied, and a value is its
initial one plus what the completed calls add. -/
namespace StarryX.Ipc
open Library Function

abbrev Pid := Nat

/-- The largest value of a semaphore. -/
def semvmx : Int := 32767

/-- The most operations of one call. -/
def semopm : Nat := 32

structure SemBuf where
  semNum : Nat
  semOp : Int
  semFlg : Nat
  deriving DecidableEq, Repr

/-- `IPC_NOWAIT` is 0o4000. -/
def SemBuf.nowait (op : SemBuf) : Bool := op.semFlg.testBit 11

structure Semaphore where
  semval : Int
  sempid : Pid
  semncnt : Nat
  semzcnt : Nat
  deriving DecidableEq, Repr

/-- An entry of the waiting queue. `call` names the call that left it, which the source
does not record. -/
structure WaitingProcess (ι : Type) where
  call : ι
  pid : Pid
  operations : List SemBuf

structure SemSet (ι : Type) where
  semaphores : List Semaphore
  waitingQueue : List (WaitingProcess ι)

/-! ### Operations on the semaphores -/

/-- Each operation changes the semaphore it names. -/
def updateEach (change : SemBuf → Semaphore → Semaphore) (operations : List SemBuf) (semaphores : List Semaphore) :
    List Semaphore :=
  operations.foldl (fun semaphores op => semaphores.modify op.semNum (change op)) semaphores

/-- The 16-bit counters of waiting calls. -/
def Semaphore.countWaiting (change : Nat → Nat) (op : SemBuf) (s : Semaphore) : Semaphore :=
  if op.semOp < 0 then {s with semncnt := change s.semncnt}
  else if op.semOp = 0 then {s with semzcnt := change s.semzcnt}
  else s

def increment (n : Nat) : Nat := (n + 1) % 2 ^ 16

/-- A release build wraps below zero. -/
def decrement (n : Nat) : Nat := (n + (2 ^ 16 - 1)) % 2 ^ 16

/-- `canPerformOperations` has checked that no 16-bit value overflows on the way. -/
def Semaphore.operate (pid : Pid) (op : SemBuf) (s : Semaphore) : Semaphore :=
  {s with semval := s.semval + op.semOp, sempid := pid}

/-- The values the operations lead to, if none leaves the range on the way. -/
def tempValues : List SemBuf → List Int → Option (List Int)
  | [], values => some values
  | op :: rest, values =>
    match values[op.semNum]? with
    | none => none
    | some value =>
      if value + op.semOp < 0 ∨ value + op.semOp > semvmx then none
      else tempValues rest (values.set op.semNum (value + op.semOp))

namespace SemSet
variable {ι : Type}

def canPerformOperations (set : SemSet ι) (operations : List SemBuf) : Bool :=
  match tempValues operations (set.semaphores.map (·.semval)) with
  | none => false
  | some values => operations.all fun op => !(op.semOp == 0 && values.getD op.semNum 0 != 0)

def performOperations (set : SemSet ι) (operations : List SemBuf) (pid : Pid) : LinuxResult (SemSet ι) :=
  if !set.canPerformOperations operations then .error .eagain
  else
    .ok {set with
      semaphores := updateEach (.operate pid) operations
        (updateEach (.countWaiting decrement) operations set.semaphores)}

def addWaitingProcess (set : SemSet ι) (call : ι) (pid : Pid) (operations : List SemBuf) : SemSet ι where
  semaphores := updateEach (.countWaiting increment) operations set.semaphores
  waitingQueue := set.waitingQueue ++ [⟨call, pid, operations⟩]

/-- The walk over the queue: `remaining` keeps the entries that cannot go on yet,
`performed` the calls whose operations the walk performed. -/
def wakeLoop : List (WaitingProcess ι) → List Semaphore → List (WaitingProcess ι) → List ι → SemSet ι × List ι
  | [], semaphores, remaining, performed => (⟨semaphores, remaining⟩, performed)
  | entry :: queue, semaphores, remaining, performed =>
    let set : SemSet ι := ⟨semaphores, queue⟩
    if set.canPerformOperations entry.operations then
      match set.performOperations entry.operations entry.pid with
      | .error _ => wakeLoop queue semaphores (remaining ++ [entry]) performed
      | .ok set' => wakeLoop queue set'.semaphores remaining (performed ++ [entry.call])
    else wakeLoop queue semaphores (remaining ++ [entry]) performed

def wakeUpProcesses (set : SemSet ι) : SemSet ι × List ι :=
  wakeLoop set.waitingQueue set.semaphores [] []

/-- The first section: `true` for a call that has to wait. -/
def tryPerform (set : Option (SemSet ι)) (call : ι) (pid : Pid) (operations : List SemBuf) :
    LinuxResult (SemSet ι × Bool) := do
  let set ← set.elim (.error .einval) .ok
  if operations.any fun op => set.semaphores.length ≤ op.semNum then .error .efbig
  else if !set.canPerformOperations operations then
    if operations.any (·.nowait) then .error .eagain
    else pure (set.addWaitingProcess call pid operations, true)
  else do
    let set ← set.performOperations operations pid
    pure (set, false)

/-- One round of the waiter's loop: `true` when it has performed its operations. -/
def poll (set : Option (SemSet ι)) (pid : Pid) (operations : List SemBuf) : LinuxResult (SemSet ι × Bool) := do
  let set ← set.elim (.error .eidrm) .ok
  if set.canPerformOperations operations then do
    let set ← set.performOperations operations pid
    pure (set, true)
  else pure (set, false)

end SemSet

/-- The operations of a call, read one by one from user memory. -/
def readOperations (nsops : Nat) (read : Nat → LinuxResult SemBuf) : LinuxResult (List SemBuf) :=
  if nsops = 0 ∨ nsops > semopm then .error .einval else (List.range nsops).mapM read

/-! ### The calls -/

/-- Where a call is. -/
inductive Phase where
  | ready
  | waiting
  | performed
  | returned (result : LinuxResult Unit)
  deriving DecidableEq

/-- A call; `applied` counts how often its operations have been performed, by whomever. -/
structure Semop where
  pid : Pid
  operations : List SemBuf
  phase : Phase
  applied : Nat

/-- One set and the calls on it. A removed set is `none`. -/
structure Semops (ι : Type) where
  set : Option (SemSet ι)
  calls : ι → Semop

/-- Who moves: a call enters, a call that has performed its operations wakes the others
up and returns, a waiting call polls, `IPC_RMID` removes the set. -/
inductive SemLabel (ι : Type) where
  | enter (i : ι) (pid : Pid) (nsops : Nat) (read : Nat → LinuxResult SemBuf)
  | wakeUp (i : ι)
  | poll (i : ι)
  | remove

namespace Semops
variable {ι : Type} [DecidableEq ι]

def setCall (s : Semops ι) (i : ι) (call : Semop) : Semops ι := {s with calls := update s.calls i call}

/-- The call returns. -/
def returns (s : Semops ι) (i : ι) (result : LinuxResult Unit) : Semops ι :=
  s.setCall i {s.calls i with phase := .returned result}

def enter (s : Semops ι) (i : ι) (pid : Pid) (nsops : Nat) (read : Nat → LinuxResult SemBuf) : Semops ι :=
  match readOperations nsops read with
  | .error e => s.returns i (.error e)
  | .ok operations =>
    match SemSet.tryPerform s.set i pid operations with
    | .error e => s.returns i (.error e)
    | .ok (set, true) => {s with set := some set}.setCall i ⟨pid, operations, .waiting, (s.calls i).applied⟩
    | .ok (set, false) => {s with set := some set}.setCall i ⟨pid, operations, .performed, (s.calls i).applied + 1⟩

/-- The walk counts for every call it performs. -/
def wakeUp (s : Semops ι) (i : ι) : Semops ι :=
  match s.set with
  | none => s.returns i (.ok ())
  | some set =>
    let (set, performed) := set.wakeUpProcesses
    let calls := fun j => {s.calls j with applied := (s.calls j).applied + performed.count j}
    Semops.returns ⟨some set, calls⟩ i (.ok ())

def poll (s : Semops ι) (i : ι) : Semops ι :=
  match SemSet.poll s.set (s.calls i).pid (s.calls i).operations with
  | .error e => s.returns i (.error e)
  | .ok (_, false) => s
  | .ok (set, true) =>
    {s with set := some set}.setCall i
      {s.calls i with phase := .returned (.ok ()), applied := (s.calls i).applied + 1}

def step : SemLabel ι → Semops ι → Option (Semops ι)
  | .enter i pid nsops read, s => if (s.calls i).phase = .ready then some (s.enter i pid nsops read) else none
  | .wakeUp i, s => if (s.calls i).phase = .performed then some (s.wakeUp i) else none
  | .poll i, s => if (s.calls i).phase = .waiting then some (s.poll i) else none
  | .remove, s => some {s with set := none}

def machine : Machine (Semops ι) (SemLabel ι) := ⟨step⟩

/-- A set whose queue is empty, and calls that have not begun. -/
def initial (semaphores : List Semaphore) : Semops ι :=
  ⟨some ⟨semaphores, []⟩, fun _ => ⟨0, [], .ready, 0⟩⟩

end Semops

/-! ### What performing operations adds -/

/-- What the operations add to semaphore `n`. -/
def delta (n : Nat) (operations : List SemBuf) : Int :=
  ((operations.filter (·.semNum == n)).map (·.semOp)).sum

/-- The value of semaphore `n`. -/
def value (semaphores : List Semaphore) (n : Nat) : Option Int := semaphores[n]?.map (·.semval)

/-- A fold whose steps add `d` to the value they touch adds the sum. -/
theorem value_updateEach {c : SemBuf → Semaphore → Semaphore} (d : SemBuf → Int)
    (hchg : ∀ op s, (c op s).semval = s.semval + d op) (ops : List SemBuf)
    (sems : List Semaphore) (n : Nat) :
    value (updateEach c ops sems) n =
      (value sems n).map (· + ((ops.filter (·.semNum == n)).map d).sum) := by
  induction ops generalizing sems with
  | nil => simp [updateEach]
  | cons op rest ih =>
    have hrs := ih (sems.modify op.semNum (c op))
    rw [updateEach, List.foldl_cons]
    rw [updateEach] at hrs
    rw [hrs, value, value]
    by_cases hn : op.semNum = n
    · simp [hn, hchg, Function.comp_def, Int.add_assoc]
    · simp [hn]

variable (c : Nat → Nat)

theorem countWaiting_semval (op : SemBuf) (s : Semaphore) :
    (s.countWaiting c op).semval = s.semval + 0 := by
  unfold Semaphore.countWaiting
  split
  · simp
  · split <;> simp

theorem value_countWaiting (ops : List SemBuf) (sems : List Semaphore) (n : Nat) :
    value (updateEach (.countWaiting c) ops sems) n = value sems n := by
  simp [value_updateEach (fun _ => 0) (countWaiting_semval c)]

theorem value_operate (pid : Pid) (ops : List SemBuf) (sems : List Semaphore) (n : Nat) :
    value (updateEach (.operate pid) ops sems) n = (value sems n).map (· + delta n ops) :=
  value_updateEach (·.semOp) (fun _ _ => rfl) ops sems n

namespace SemSet
variable {ι : Type} {set set' : SemSet ι} {ops : List SemBuf} {pid : Pid} {cur : Option (SemSet ι)}

open Except (ok)

/-- Operations are performed as a whole. -/
theorem performOperations_ok (h : set.performOperations ops pid = .ok set') (n : Nat) :
    value set'.semaphores n = (value set.semaphores n).map (· + delta n ops) := by
  unfold performOperations at h
  split at h
  · cases h
  · obtain rfl := ok.inj h
    simp [value_operate, value_countWaiting]

/-- No entry of the queue can be performed. -/
def Idle (set : SemSet ι) : Prop := ∀ entry ∈ set.waitingQueue, set.canPerformOperations entry.operations = false

instance : Decidable set.Idle := inferInstanceAs (Decidable (∀ entry ∈ set.waitingQueue, _))

/-- The walk over entries that cannot be performed keeps them all. -/
theorem wakeLoop_idle {q : List (WaitingProcess ι)} {sems : List Semaphore} (rem : List (WaitingProcess ι)) (performed : List ι)
    (h : ∀ e ∈ q, (⟨sems, []⟩ : SemSet ι).canPerformOperations e.operations = false) :
    wakeLoop q sems rem performed = (⟨sems, rem ++ q⟩, performed) := by
  induction q generalizing rem with
  | nil => rw [wakeLoop, List.append_nil]
  | cons e q ih =>
    have hno : ¬ (⟨sems, q⟩ : SemSet ι).canPerformOperations e.operations := Bool.not_eq_true _ ▸ h e List.mem_cons_self
    rw [wakeLoop, if_neg hno, ih _ fun e he => h e (List.mem_cons_of_mem _ he), List.append_assoc, List.singleton_append]

theorem Idle.wakeUpProcesses (h : set.Idle) : set.wakeUpProcesses = (set, []) := wakeLoop_idle [] [] h

/-- A call that enters performs its operations or waits. -/
theorem tryPerform_ok {c : ι} {waits : Bool}
    (h : tryPerform cur c pid ops = .ok (set', waits)) : ∃ set, cur = some set ∧
      if waits then set' = set.addWaitingProcess c pid ops else set.performOperations ops pid = .ok set' := by
  cases cur with
  | none => cases h
  | some set =>
    refine ⟨set, rfl, ?_⟩
    replace h : (if ops.any fun op => set.semaphores.length ≤ op.semNum then .error .efbig
      else if !set.canPerformOperations ops then
        if ops.any (·.nowait) then .error .eagain
        else pure (set.addWaitingProcess c pid ops, true)
      else do
        let set ← set.performOperations ops pid
        pure (set, false) : LinuxResult (SemSet ι × Bool)) = .ok (set', waits) := h
    split at h
    · cases h
    · split at h
      · split at h
        · cases h
        · obtain ⟨rfl, rfl⟩ := Prod.mk.inj (ok.inj h)
          rfl
      · obtain ⟨performed, hpe, hpu⟩ := except_bind_ok h
        obtain ⟨rfl, rfl⟩ := Prod.mk.inj (ok.inj hpu)
        exact hpe

/-- A round of the loop performs the operations or changes nothing. -/
theorem poll_ok {completed : Bool}
    (h : poll cur pid ops = .ok (set', completed)) : ∃ set, cur = some set ∧
      if completed then set.performOperations ops pid = .ok set' else set' = set := by
  cases cur with
  | none => cases h
  | some set =>
    refine ⟨set, rfl, ?_⟩
    replace h : (if set.canPerformOperations ops then do
        let set ← set.performOperations ops pid
        pure (set, true)
      else pure (set, false)) = .ok (set', completed) := h
    split at h
    · obtain ⟨performed, hpe, hpu⟩ := except_bind_ok h
      obtain ⟨rfl, rfl⟩ := Prod.mk.inj (ok.inj hpu)
      exact hpe
    · obtain ⟨rfl, rfl⟩ := Prod.mk.inj (ok.inj h)
      rfl

end SemSet

/-! ### Counting applications -/

/-- The call's operations count as performed: it has returned success, or is about to. -/
def Semop.completed (call : Semop) : Bool := call.phase = .performed ∨ call.phase = .returned (.ok ())

/-- What a call adds to semaphore `n`. -/
def Semop.contribution (n : Nat) (call : Semop) : Int := if call.completed then delta n call.operations else 0

open Semop (completed contribution)

theorem Semop.contribution_pending {c : Semop} (h : c.completed = false) (n : Nat) : c.contribution n = 0 := by
  simp [contribution, h]

namespace Semops
variable {ι : Type} [DecidableEq ι]

/-- A walk begins only where no entry can be performed. -/
def Quiet : SemLabel ι → Semops ι → Prop
  | .wakeUp _, s => ∀ set ∈ s.set, set.Idle
  | _, _ => True

instance (label : SemLabel ι) (s : Semops ι) : Decidable (Quiet label s) := by
  cases label <;> unfold Quiet <;> infer_instance

variable [Fintype ι]

/-- Completed calls count once and the others not at all, and the values add up. -/
structure Counted (semaphores : List Semaphore) (s : Semops ι) : Prop where
  applied : ∀ i, (s.calls i).applied = if (s.calls i).completed then 1 else 0
  values : ∀ set, s.set = some set → ∀ n,
    value set.semaphores n = (value semaphores n).map (· + ∑ i, (s.calls i).contribution n)

variable {sems : List Semaphore} {s s' : Semops ι}

/-- A sum over the calls when one of them changes. -/
theorem sum_update {M : Type} [AddCommMonoid M] (f : Semop → M) (cs : ι → Semop) (i : ι) (c : Semop) :
    ∑ j, f (update cs i c j) + f (cs i) = ∑ j, f (cs j) + f c := by
  have hot : ∀ j ∈ Finset.univ.erase i, f (update cs i c j) = f (cs j) := fun j hj => by
    rw [update_of_ne (Finset.ne_of_mem_erase hj)]
  rw [← Finset.sum_erase_add Finset.univ _ (Finset.mem_univ i), Finset.sum_congr rfl hot, update_self, add_right_comm,
    Finset.sum_erase_add Finset.univ _ (Finset.mem_univ i)]

section
variable (h : Counted sems s) {i : ι}
include h

/-- A call moves, and the set changes by what the move adds. -/
theorem Counted.move (i : ι) (c : Semop) (set : Option (SemSet ι))
    (happ : c.applied = if c.completed then 1 else 0)
    (hset : ∀ new, set = some new → ∃ old, s.set = some old ∧ ∀ n, value new.semaphores n =
      (value old.semaphores n).map (· + (c.contribution n - (s.calls i).contribution n))) :
    Counted sems ⟨set, update s.calls i c⟩ where
  applied := fun j => by
    by_cases hj : j = i
    · subst hj
      simpa using happ
    · simpa [hj] using h.applied j
  values := fun new hnew n => by
    obtain ⟨old, hold, hva⟩ := hset new hnew
    have hsum := sum_update (·.contribution n) s.calls i c
    rw [hva, h.values old hold, Option.map_map]
    congr 1
    funext value
    dsimp only [comp_apply] at hsum ⊢
    omega

/-- A call that did not count returns an error. -/
theorem Counted.fail (hph : (s.calls i).completed = false) (e : LinuxError) :
    Counted sems (s.returns i (.error e)) := by
  have happ := h.applied i
  rw [hph] at happ
  refine h.move i _ s.set happ fun new hnew => ⟨new, hnew, fun n => ?_⟩
  rw [Semop.contribution_pending hph, Semop.contribution_pending (by simp [completed])]
  simp

theorem Counted.enter (hph : (s.calls i).phase = .ready) (pid : Pid)
    (nsops : Nat) (read : Nat → LinuxResult SemBuf) : Counted sems (s.enter i pid nsops read) := by
  have hpe : (s.calls i).completed = false := by simp [completed, hph]
  have happ : (s.calls i).applied = 0 := by simpa [hpe] using h.applied i
  unfold Semops.enter
  split
  · exact h.fail hpe _
  · split
    · exact h.fail hpe _
    · next htry =>
      refine h.move i _ _ happ fun new hnew => ?_
      cases hnew
      obtain ⟨old, hold, rfl⟩ := SemSet.tryPerform_ok htry
      refine ⟨old, hold, fun n => ?_⟩
      simp [SemSet.addWaitingProcess, value_countWaiting, contribution, completed, hph]
    · next htry =>
      refine h.move i _ _ (by simp [happ, completed]) fun new hnew => ?_
      cases hnew
      obtain ⟨old, hold, hd⟩ := SemSet.tryPerform_ok htry
      refine ⟨old, hold, fun n => ?_⟩
      simpa [contribution, completed, hph] using SemSet.performOperations_ok hd n

theorem Counted.poll (hph : (s.calls i).phase = .waiting) : Counted sems (s.poll i) := by
  have hpe : (s.calls i).completed = false := by simp [completed, hph]
  have happ : (s.calls i).applied = 0 := by simpa [hpe] using h.applied i
  unfold Semops.poll
  split
  · exact h.fail hpe _
  · exact h
  · next hpo =>
    refine h.move i _ _ (by simp [happ, completed]) fun new hnew => ?_
    cases hnew
    obtain ⟨old, hold, hd⟩ := SemSet.poll_ok hpo
    refine ⟨old, hold, fun n => ?_⟩
    simpa [contribution, completed, hph] using SemSet.performOperations_ok hd n

/-- The walk of a call that has performed its operations, where it finds nothing to perform. -/
theorem Counted.wakeUp (hph : (s.calls i).phase = .performed)
    (hqu : ∀ set ∈ s.set, set.Idle) : Counted sems (s.wakeUp i) := by
  have happ : (s.calls i).applied = 1 := by simpa [completed, hph] using h.applied i
  unfold Semops.wakeUp
  cases hset : s.set with
  | none =>
    refine h.move i _ s.set (by simp [happ, completed]) fun new hnew => ?_
    cases hset.symm.trans hnew
  | some set =>
    have hwa := (hqu set hset).wakeUpProcesses
    have hca : (fun j => {s.calls j with applied := (s.calls j).applied + set.wakeUpProcesses.2.count j}) = s.calls := by
      funext j
      simp [hwa]
    dsimp only
    rw [hca, hwa]
    refine h.move i _ _ (by simp [happ, completed]) fun new hnew => ?_
    cases hnew
    refine ⟨set, hset, fun n => ?_⟩
    simp [contribution, completed, hph]

theorem Counted.step {l : SemLabel ι} (hqu : Quiet l s)
    (hst : machine.step l s = some s') : Counted sems s' := by
  cases l with
  | enter i pid nsops read =>
    obtain ⟨hph, hnx⟩ := Option.ite_none_right_eq_some.mp hst
    cases hnx
    exact h.enter hph pid nsops read
  | wakeUp i =>
    obtain ⟨hph, hnx⟩ := Option.ite_none_right_eq_some.mp hst
    cases hnx
    exact h.wakeUp hph hqu
  | poll i =>
    obtain ⟨hph, hnx⟩ := Option.ite_none_right_eq_some.mp hst
    cases hnx
    exact h.poll hph
  | remove =>
    cases hst
    exact ⟨h.applied, nofun⟩

end

omit [DecidableEq ι] in
theorem counted_initial (sems : List Semaphore) : Counted sems (initial sems : Semops ι) where
  applied := fun _ => rfl
  values := fun set hset n => by
    cases hset
    simp [initial, contribution, completed]

/-- **Semaphore operations happen exactly once** in every run in which no walk performs a
queued entry: what returns success was applied once, what returns an error was not, and
each value is its initial one plus what the completed calls add. -/
theorem semop_exactly_once (semaphores : List Semaphore) {labels : List (SemLabel ι)}
    (hquiet : machine.Meets Quiet (initial semaphores) labels)
    (hrun : machine.run (initial semaphores) labels = some s') :
    (∀ i, (s'.calls i).phase = .returned (.ok ()) → (s'.calls i).applied = 1) ∧
      (∀ i e, (s'.calls i).phase = .returned (.error e) → (s'.calls i).applied = 0) ∧
      ∀ set, s'.set = some set → ∀ n,
        value set.semaphores n = (value semaphores n).map (· + ∑ i, (s'.calls i).contribution n) := by
  have h : Counted semaphores s' :=
    Machine.run_induct_under (fun _ s _ (h : Counted semaphores s) hlabel hst => h.step hlabel hst) labels
      (counted_initial semaphores) hquiet hrun
  refine ⟨fun i hph => ?_, fun i e hph => ?_, h.values⟩
  · simpa [completed, hph] using h.applied i
  · simpa [completed, hph] using h.applied i

/-- One operation on the first semaphore. -/
def single (semOp : Int) : Nat → LinuxResult SemBuf := fun _ => .ok ⟨0, semOp, 0⟩

/-- The first call waits for a unit that the second adds, and takes it before the second walks
the queue. -/
def taken : List (SemLabel Bool) :=
  [.enter false 7 1 (single (-1)), .enter true 8 1 (single 1), .poll false, .wakeUp true]

theorem semop_exactly_once_taken : ∃ s', machine.run (initial [⟨0, 0, 0, 0⟩]) taken = some s' ∧
    (s'.calls false).phase = .returned (.ok ()) ∧ (s'.calls false).applied = 1 := by
  have hrun : (machine.run (initial [⟨0, 0, 0, 0⟩]) taken).isSome := by decide +kernel
  obtain ⟨s', hs'⟩ := Option.isSome_iff_exists.mp hrun
  have hph : (machine.run (initial [⟨0, 0, 0, 0⟩]) taken).map (fun s => (s.calls false).phase) =
      some (.returned (.ok ())) := by decide +kernel
  rw [hs'] at hph
  exact ⟨s', hs', Option.some.inj hph,
    (semop_exactly_once [⟨0, 0, 0, 0⟩] (by decide +kernel) hs').1 false (Option.some.inj hph)⟩

/-- The second call adds two units and its walk performs the waiting call's operation. -/
def takenTwice : List (SemLabel Bool) :=
  [.enter false 7 1 (single (-1)), .enter true 8 1 (single 2), .wakeUp true, .poll false]

/-- The waiting call is applied twice, by the walk and by its own loop: a success that took
two units. The value is 0 where the completed calls add up to 1. -/
theorem semop_applied_twice :
    (machine.run (initial [⟨0, 0, 0, 0⟩]) takenTwice).map (fun s => ((s.calls false).phase, (s.calls false).applied)) =
        some (.returned (.ok ()), 2) ∧
      (machine.run (initial [⟨0, 0, 0, 0⟩]) takenTwice).map (fun s =>
        (s.set.bind fun set => value set.semaphores 0, ∑ i, (s.calls i).contribution 0)) = some (some 0, 1) := by
  decide +kernel

end Semops
end StarryX.Ipc
