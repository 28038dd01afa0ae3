import StarryX.Errno
import StarryX.Vma.Layout

/-! Futexes.

`sys_futex` and the exit of a thread find a wait queue by a key: the address of a private
word, or the object behind a shared one and the offset in it. A table maps keys to entries,
a guard keeps its entry in the table, and an entry without guards and without waiters is
removed. A waiter compares the word once, before it has the queue, and blocks under the
queue's lock without looking again. `FUTEX_REQUEUE` wakes some tasks of a queue and moves others
to a second one. `Futexes.machine` runs any number of threads of any number of processes
through these steps, with user stores and changes of the mappings anywhere in between.

Every process has a table of its own, and `sys_futex` never looks elsewhere:
`wake_meets_iff` says which lookups reach the queue of a waiter on a shared word.
`wait_enqueues_expected` is what keeps wake-ups from being lost. -/
namespace StarryX.Task
open Library Vma
open Option (some.inj)

/-! ### Keys and tables -/

inductive FutexKey where
  | privateAt (address : Nat)
  | sharedAt (object offset : Nat)
  deriving DecidableEq, Repr

abbrev TableKey := Nat × Nat

namespace FutexKey

def new (areas : AreaMap) (address : Nat) : FutexKey :=
  match sharedObjectAt areas address with
  | some (object, offset) => .sharedAt object offset
  | none => .privateAt address

def tableKey : FutexKey → TableKey
  | .privateAt address => (0, address)
  | .sharedAt object offset => (object, offset)

end FutexKey

/-- A process's own `futex_table`, or `SHARED_FUTEX_TABLE`. -/
inductive FutexTable (ι : Type) where
  | process (i : ι)
  | shared
  deriving DecidableEq

def futexTableFor {ι : Type} (i : ι) : FutexKey → FutexTable ι
  | .privateAt _ => .process i
  | .sharedAt .. => .shared

/-- A wait queue; `holder` has its lock. -/
structure FutexEntry (τ : Type) where
  wq : List τ
  holder : Option τ
  ownerDead : Bool

def FutexEntry.new {τ : Type} : FutexEntry τ := ⟨[], none, false⟩

structure FutexGuard (ι : Type) where
  table : FutexTable ι
  key : TableKey
  entry : Nat
  deriving DecidableEq

/-! ### Calls -/

/-- `FUTEX_WAIT`, or `FUTEX_WAIT_BITSET` with its bitset; `timed` with a timeout. -/
structure WaitCall where
  address : Nat
  value : Nat
  timed : Bool
  bitset : Option Nat
  deriving DecidableEq

/-- The calls that wake: `FUTEX_WAKE` (or `FUTEX_WAKE_BITSET`), the robust list of an exiting
thread, and its `clear_child_tid`. -/
inductive WakeCall where
  | futex (address value : Nat) (bitset : Option Nat)
  | robust (address : Nat)
  | exit (address : Nat)
  deriving DecidableEq

namespace WakeCall

def address : WakeCall → Nat
  | .futex address _ _ => address
  | .robust address => address
  | .exit address => address

/-- Where the call looks for the key. -/
def table {ι : Type} (i : ι) (key : FutexKey) : WakeCall → FutexTable ι
  | .futex .. => .process i
  | .robust _ => .process i
  | .exit _ => futexTableFor i key

/-- How many tasks the call takes from the queue. The closure of `FUTEX_WAKE_BITSET` reads the
bitset of the running thread, which is the waker: it accepts every task or none. -/
def count (own : Nat) : WakeCall → Nat
  | .futex _ value none => value
  | .futex _ value (some mask) => if own &&& mask = 0 then 0 else value
  | .robust _ => 1
  | .exit _ => 1

end WakeCall

/-- `FUTEX_REQUEUE`, or `FUTEX_CMP_REQUEUE` with the word that it expects. -/
structure RequeueCall where
  address : Nat
  value : Nat
  address2 : Nat
  value2 : Nat
  expected : Option Nat
  deriving DecidableEq

/-- What the call checks before it looks anything up; `word` is what is read. -/
def RequeueCall.check (call : RequeueCall) (word : LinuxResult Nat) : LinuxResult Unit :=
  if 2 ^ 31 ≤ call.value then .error .einval
  else
    match call.expected.elim (.ok false) fun expected => word.map (· != expected) with
    | .error e => .error e
    | .ok true => .error .eagain
    | .ok false => if 2 ^ 31 ≤ call.value2 then .error .einval else .ok ()

/-- A waiting call with its key, and the word as it was read. -/
structure Waiting where
  call : WaitCall
  key : FutexKey
  word : Nat
  deriving DecidableEq

/-- Where a thread is. `queued` remembers the word at the moment the thread was enqueued, and a blocked
thread is `moved` when it was taken to another queue. A requeue looks up the first queue, then the
second; it wakes tasks one by one, carries others over, and drops its two guards. -/
inductive FutexPhase (ι τ : Type) where
  | ready (last : LinuxResult Nat)
  | keyed (call : WaitCall) (key : FutexKey)
  | checked (w : Waiting)
  | holding (w : Waiting) (guard : FutexGuard ι)
  | locked (w : Waiting) (guard : FutexGuard ι)
  | queued (w : Waiting) (guard : FutexGuard ι) (seen : Nat)
  | moved (w : Waiting) (guard : FutexGuard ι)
  | expired (w : Waiting) (guard : FutexGuard ι)
  | notified (w : Waiting) (guard : FutexGuard ι)
  | waking (call : WakeCall) (guard : FutexGuard ι)
  | seeking (call : RequeueCall)
  | targeting (call : RequeueCall) (source : Option (FutexGuard ι))
  | shifting (call : RequeueCall) (target source : FutexGuard ι) (count : Nat)
  | carrying (tasks : List τ) (target source : FutexGuard ι) (count : Nat)
  | droppingTarget (target source : FutexGuard ι) (result : LinuxResult Nat)
  | droppedTarget (target source : FutexGuard ι) (result : LinuxResult Nat)
  | dropping (guard : FutexGuard ι) (result : LinuxResult Nat)
  | dropped (guard : FutexGuard ι) (result : LinuxResult Nat)
  deriving DecidableEq

namespace FutexPhase
variable {ι τ : Type}

/-- The guards that the thread has not begun to drop. -/
def guards : FutexPhase ι τ → List (FutexGuard ι)
  | .ready _ | .keyed .. | .checked _ | .dropped .. | .seeking _ => []
  | .holding _ guard | .locked _ guard | .queued _ guard _ | .moved _ guard | .expired _ guard | .notified _ guard
  | .waking _ guard | .dropping guard _ => [guard]
  | .targeting _ source => source.toList
  | .shifting _ target source _ | .carrying _ target source _ | .droppingTarget target source _ => [target, source]
  | .droppedTarget _ source _ => [source]

/-- The entries that the thread keeps references to. -/
def refs : FutexPhase ι τ → List Nat
  | .dropped guard _ => [guard.entry]
  | .droppedTarget target source _ => [target.entry, source.entry]
  | phase => phase.guards.map (·.entry)

/-- The waiting call that has a guard. -/
def waits : FutexPhase ι τ → Option (Waiting × FutexGuard ι)
  | .holding w guard | .locked w guard | .queued w guard _ | .moved w guard | .expired w guard | .notified w guard =>
    some (w, guard)
  | _ => none

/-- A task taken from a queue goes on. -/
def notify : FutexPhase ι τ → FutexPhase ι τ
  | .queued w guard _ | .moved w guard | .expired w guard => .notified w guard
  | phase => phase

/-- A task taken from a queue is on its way to another. -/
def move : FutexPhase ι τ → FutexPhase ι τ
  | .queued w guard _ => .moved w guard
  | phase => phase

end FutexPhase

/-! ### The machine -/

/-- The mappings and words of every process, the tables, and the threads. `memory i a` is what
process `i` reads at `a`. -/
structure Futexes (ι τ : Type) where
  areas : ι → AreaMap
  memory : ι → Nat → Nat
  tables : FutexTable ι → TableKey → Option Nat
  entries : Nat → FutexEntry τ
  next : Nat
  bitsets : τ → Nat
  threads : τ → FutexPhase ι τ

/-- What a waiting call does once it has its guard: its deadline passes before it has blocked, it
takes the queue's lock, it blocks, its timer fires, it leaves the queue after that, it goes on after
a wake-up (`late` behind the deadline). -/
inductive WaitMove where
  | expire
  | lock
  | enqueue
  | alarm
  | cancel
  | resume (late : Bool)
  deriving DecidableEq

/-- A move of the waiting call changes its phase and the entry of its guard. -/
def WaitMove.advance {ι τ : Type} [DecidableEq τ] (t : τ) (memory : Nat → Nat) (entry : FutexEntry τ) :
    WaitMove → FutexPhase ι τ → Option (FutexPhase ι τ × FutexEntry τ)
  | .expire, .holding w guard =>
    if w.call.timed then some (.dropping guard (.error .etimedout), entry) else none
  | .lock, .holding w guard =>
    if entry.holder = none then some (.locked w guard, {entry with holder := some t}) else none
  | .enqueue, .locked w guard =>
    -- `condition` compares the word that was read before, not the word in memory.
    if w.word ≠ w.call.value then some (.dropping guard (.error .eagain), {entry with holder := none})
    else some (.queued w guard (memory w.call.address), {entry with wq := entry.wq ++ [t], holder := none})
  | .alarm, .queued w guard _ | .alarm, .moved w guard => if w.call.timed then some (.expired w guard, entry) else none
  | .cancel, .expired _ guard =>
    if entry.holder = none then
      some (.dropping guard (.error .etimedout), {entry with wq := entry.wq.filter (· ≠ t)})
    else none
  | .resume late, .notified w guard =>
    if late then
      if w.call.timed then some (.dropping guard (.error .etimedout), entry) else none
    else if entry.holder ≠ none then none
    else if entry.ownerDead then some (.dropping guard (.error .eownerdead), {entry with ownerDead := false})
    else some (.dropping guard (.ok 0), entry)
  | _, _ => none

/-- Who moves. `store` and `remap` are user code and other calls; the rest are the steps of a
waiting call, of a waking call, of a requeue, and of a guard's drop. -/
inductive FutexLabel (ι τ : Type) where
  | store (memory : ι → Nat → Nat)
  | remap (areas : ι → AreaMap)
  | wait (t : τ) (call : WaitCall)
  | check (t : τ) (fault : Option LinuxError)
  | acquire (t : τ) (fault : Option LinuxError)
  | move (t : τ) (move : WaitMove)
  | wake (t : τ) (call : WakeCall)
  | notify (t : τ)
  | requeue (t : τ) (call : RequeueCall) (fault : Option LinuxError)
  | seek (t : τ)
  | target (t : τ)
  | shift (t : τ)
  | settle (t : τ)
  | drop (t : τ)
  | release (t : τ)

namespace Futexes
variable {ι τ : Type} [DecidableEq ι] [DecidableEq τ]

def setPhase (s : Futexes ι τ) (t : τ) (phase : FutexPhase ι τ) : Futexes ι τ :=
  {s with threads := Function.update s.threads t phase}

def setEntry (s : Futexes ι τ) (e : Nat) (entry : FutexEntry τ) : Futexes ι τ :=
  {s with entries := Function.update s.entries e entry}

/-- The tables with one slot changed. -/
def setSlot (s : Futexes ι τ) (table : FutexTable ι) (key : TableKey) (slot : Option Nat) : Futexes ι τ :=
  {s with tables := Function.update s.tables table (Function.update (s.tables table) key slot)}

/-- `FutexTable::get_or_insert`. -/
def getOrInsert (s : Futexes ι τ) (table : FutexTable ι) (key : TableKey) : Futexes ι τ × FutexGuard ι :=
  match s.tables table key with
  | some e => (s, ⟨table, key, e⟩)
  | none =>
    ({(s.setSlot table key (some s.next)).setEntry s.next .new with next := s.next + 1}, ⟨table, key, s.next⟩)

/-- `FutexTable::get` of a waking call. -/
def lookup (s : Futexes ι τ) (i : ι) (call : WakeCall) : Option Nat :=
  let key := FutexKey.new (s.areas i) call.address
  s.tables (call.table i key) key.tableKey

/-- Whether the guard of thread `t` is the only one of its entry. -/
def soleGuard [Fintype τ] (s : Futexes ι τ) (t : τ) (guard : FutexGuard ι) : Bool :=
  decide (∀ u, (s.threads u).refs.count guard.entry = if u = t then 1 else 0)

/-- `Drop` of a guard: an entry that nothing uses leaves the table. Nobody has the queue's lock
then, because its holder has a guard. -/
def dropGuard [Fintype τ] (s : Futexes ι τ) (t : τ) (guard : FutexGuard ι) : Futexes ι τ :=
  if s.tables guard.table guard.key = some guard.entry ∧ s.soleGuard t guard ∧ (s.entries guard.entry).wq = [] then
    s.setSlot guard.table guard.key none
  else s

/-- `notify_all_if` and `notify_one`: the first tasks of the queue go on. The robust list marks
the entry first. -/
def notify (s : Futexes ι τ) (guard : FutexGuard ι) (call : WakeCall) (count : Nat) : Futexes ι τ :=
  let entry := s.entries guard.entry
  let ownerDead := match call with
    | .robust _ => true
    | _ => entry.ownerDead
  {s.setEntry guard.entry {entry with wq := entry.wq.drop count, ownerDead := ownerDead} with
    threads := fun u => if u ∈ entry.wq.take count then (s.threads u).notify else s.threads u}

/-- The first half of `WaitQueue::requeue`: tasks leave the queue. -/
def drain (s : Futexes ι τ) (guard : FutexGuard ι) (count : Nat) : Futexes ι τ :=
  let entry := s.entries guard.entry
  {s.setEntry guard.entry {entry with wq := entry.wq.drop count} with
    threads := fun u => if u ∈ entry.wq.take count then (s.threads u).move else s.threads u}

variable [Fintype τ] (process : τ → ι)

/-- One turn of a requeue at the first queue: `notify_one`, until enough tasks are woken or none is left, and then
tasks are taken along. -/
def shift (s : Futexes ι τ) (t : τ) (call : RequeueCall) (target source : FutexGuard ι) (count : Nat) : Futexes ι τ :=
  if count < call.value then
    match (s.entries source.entry).wq with
    | [] => s.setPhase t (.droppingTarget target source (.ok count))
    | _ :: _ => (s.notify source (.futex call.address 1 none) 1).setPhase t (.shifting call target source (count + 1))
  else
    (s.drain source call.value2).setPhase t
      (.carrying ((s.entries source.entry).wq.take call.value2) target source count)

def step : FutexLabel ι τ → Futexes ι τ → Option (Futexes ι τ)
  | .store memory, s => some {s with memory := memory}
  | .remap areas, s => some {s with areas := areas}
  | .wait t call, s =>
    match s.threads t with
    | .ready _ => some (s.setPhase t (.keyed call (.new (s.areas (process t)) call.address)))
    | _ => none
  | .check t fault, s =>
    match s.threads t with
    | .keyed call key =>
      match fault with
      | some e => some (s.setPhase t (.ready (.error e)))
      | none =>
        let word := s.memory (process t) call.address
        if word ≠ call.value then some (s.setPhase t (.ready (.error .eagain)))
        else some (s.setPhase t (.checked ⟨call, key, word⟩))
    | _ => none
  | .acquire t fault, s =>
    match s.threads t with
    | .checked w =>
      match fault with
      | some e => some (s.setPhase t (.ready (.error e)))
      | none =>
        let (s', guard) := s.getOrInsert (.process (process t)) w.key.tableKey
        some {s'.setPhase t (.holding w guard) with
          bitsets := Function.update s.bitsets t (w.call.bitset.getD (s.bitsets t))}
    | _ => none
  | .move t move, s =>
    match (s.threads t).waits with
    | none => none
    | some (_, guard) =>
      (move.advance t (s.memory (process t)) (s.entries guard.entry) (s.threads t)).map fun (phase, entry) =>
        (s.setEntry guard.entry entry).setPhase t phase
  | .wake t call, s =>
    match s.threads t with
    | .ready _ =>
      let key := FutexKey.new (s.areas (process t)) call.address
      match s.lookup (process t) call with
      | none => some (s.setPhase t (.ready (.ok 0)))
      | some e => some (s.setPhase t (.waking call ⟨call.table (process t) key, key.tableKey, e⟩))
    | _ => none
  | .notify t, s =>
    match s.threads t with
    | .waking call guard =>
      if (s.entries guard.entry).holder = none then
        let count := call.count (s.bitsets t)
        let woken := min count (s.entries guard.entry).wq.length
        some ((s.notify guard call count).setPhase t (.dropping guard (.ok woken)))
      else none
    | _ => none
  | .requeue t call fault, s =>
    match s.threads t with
    | .ready _ =>
      match call.check (fault.elim (.ok (s.memory (process t) call.address)) .error) with
      | .error e => some (s.setPhase t (.ready (.error e)))
      | .ok () => some (s.setPhase t (.seeking call))
    | _ => none
  | .seek t, s =>
    match s.threads t with
    | .seeking call =>
      let key := (FutexKey.new (s.areas (process t)) call.address).tableKey
      some (s.setPhase t (.targeting call ((s.tables (.process (process t)) key).map (⟨.process (process t), key, ·⟩))))
    | _ => none
  | .target t, s =>
    match s.threads t with
    | .targeting call source =>
      let key := (FutexKey.new (s.areas (process t)) call.address2).tableKey
      let (s', target) := s.getOrInsert (.process (process t)) key
      match source with
      | none => some (s'.setPhase t (.dropping target (.ok 0)))
      | some source => some (s'.setPhase t (.shifting call target source 0))
    | _ => none
  | .shift t, s =>
    match s.threads t with
    | .shifting call target source count =>
      if (s.entries source.entry).holder = none then some (s.shift t call target source count) else none
    | _ => none
  | .settle t, s =>
    match s.threads t with
    | .carrying tasks target source count =>
      let entry := s.entries target.entry
      if tasks = [] ∨ entry.holder = none then
        some ((s.setEntry target.entry {entry with wq := entry.wq ++ tasks}).setPhase t
          (.droppingTarget target source (.ok (count + tasks.length))))
      else none
    | _ => none
  | .drop t, s =>
    match s.threads t with
    | .droppingTarget target source result =>
      some ((s.dropGuard t target).setPhase t (.droppedTarget target source result))
    | .dropping guard result => some ((s.dropGuard t guard).setPhase t (.dropped guard result))
    | _ => none
  | .release t, s =>
    match s.threads t with
    | .droppedTarget _ source result => some (s.setPhase t (.dropping source result))
    | .dropped _ result => some (s.setPhase t (.ready result))
    | _ => none

def machine : Machine (Futexes ι τ) (FutexLabel ι τ) := ⟨step process⟩

/-- Empty tables, and threads that are in no call. -/
def initial (areas : ι → AreaMap) (memory : ι → Nat → Nat) : Futexes ι τ where
  areas := areas
  memory := memory
  tables := fun _ _ => none
  entries := fun _ => .new
  next := 0
  bitsets := fun _ => 0
  threads := fun _ => .ready (.ok 0)

end Futexes

/-! ### Guards keep their entries -/

variable {w : Waiting}

namespace FutexPhase
variable {ι τ : Type} {phase : FutexPhase ι τ} {g : FutexGuard ι}

/-- The waiting call that has compared the word and is not in the queue yet. -/
def pending : FutexPhase ι τ → Option Waiting
  | .checked w | .holding w _ | .locked w _ => some w
  | _ => none

@[simp] theorem guards_notify (phase : FutexPhase ι τ) : phase.notify.guards = phase.guards := by
  cases phase <;> rfl

@[simp] theorem waits_notify (phase : FutexPhase ι τ) : phase.notify.waits = phase.waits := by
  cases phase <;> rfl

@[simp] theorem pending_notify (phase : FutexPhase ι τ) : phase.notify.pending = phase.pending := by
  cases phase <;> rfl

@[simp] theorem guards_move (phase : FutexPhase ι τ) : phase.move.guards = phase.guards := by
  cases phase <;> rfl

@[simp] theorem waits_move (phase : FutexPhase ι τ) : phase.move.waits = phase.waits := by
  cases phase <;> rfl

@[simp] theorem pending_move (phase : FutexPhase ι τ) : phase.move.pending = phase.pending := by
  cases phase <;> rfl

/-- The references are those of the guards, and of the one that is being dropped. -/
theorem refs_of_guards (h : g ∈ phase.guards) : g.entry ∈ phase.refs := by
  have hall : ∀ phase : FutexPhase ι τ, (phase.guards.map (·.entry)).Sublist phase.refs := by
    intro phase
    cases phase <;> simp [refs, guards]
  exact (hall phase).subset (List.mem_map_of_mem h)

/-- The thread is in no waiting call, or has yet to compare its word. -/
def Outside (phase : FutexPhase ι τ) : Prop := phase.waits = none ∧ phase.pending = none

theorem guards_of_waits (h : phase.waits = some (w, g)) : phase.guards = [g] := by
  cases phase <;> simp_all [FutexPhase.guards, FutexPhase.waits]

end FutexPhase

/-- What a move of a waiting call can do. -/
structure WaitMove.Spec {ι τ : Type} (t : τ) (memory : Nat → Nat) (phase phase' : FutexPhase ι τ)
    (entry entry' : FutexEntry τ) : Prop where
  guards : phase'.guards = phase.guards
  waits : ∀ found, phase'.waits = some found → phase.waits = some found
  pending : ∀ w, phase'.pending = some w → phase.pending = some w
  others : ∀ u, u ≠ t → u ∈ entry.wq → u ∈ entry'.wq
  queued : ∀ w guard seen, phase' = .queued w guard seen →
    phase.pending = some w ∧ seen = memory w.call.address ∧ t ∈ entry'.wq

theorem WaitMove.advance_spec {ι τ : Type} [DecidableEq τ] {t : τ} {mem : Nat → Nat} {e entry' : FutexEntry τ}
    {move : WaitMove} {phase phase' : FutexPhase ι τ} (h : move.advance t mem e phase = some (phase', entry')) :
    WaitMove.Spec t mem phase phase' e entry' := by
  unfold WaitMove.advance at h
  repeat' split at h
  all_goals cases h
  all_goals constructor <;> simp_all [FutexPhase.guards, FutexPhase.waits, FutexPhase.pending]

namespace Futexes
variable {ι τ : Type} {process : τ → ι} {s s' : Futexes ι τ} {phase : FutexPhase ι τ}

/-- A guard's entry is in its slot, no entry is in two slots, and a waiter's slot is in the table of
its own process. -/
structure Linked (process : τ → ι) (s : Futexes ι τ) : Prop where
  held : ∀ t, ∀ guard ∈ (s.threads t).guards, s.tables guard.table guard.key = some guard.entry
  distinct : ∀ table key table' key' e, s.tables table key = some e → s.tables table' key' = some e →
    table = table' ∧ key = key'
  old : ∀ table key e, s.tables table key = some e → e < s.next
  own : ∀ t w guard, (s.threads t).waits = some (w, guard) →
    guard.table = .process (process t) ∧ guard.key = w.key.tableKey

theorem Linked.setEntry (h : Linked process s) (e : Nat) (entry : FutexEntry τ) : Linked process (s.setEntry e entry) :=
  {h with}

section Threads
variable [DecidableEq τ]

/-- A thread moves to a phase whose guards are in their slots. -/
theorem Linked.setPhase (h : Linked process s) (t : τ)
    (hg : ∀ g ∈ phase.guards, s.tables g.table g.key = some g.entry)
    (hwa : ∀ w g, phase.waits = some (w, g) →
      g.table = .process (process t) ∧ g.key = w.key.tableKey) : Linked process (s.setPhase t phase) where
  held := fun u g hu => by
    obtain ⟨_, hnew⟩ | ⟨_, hold⟩ := update_map_cases (f := s.threads) (fun phase => g ∈ phase.guards) (eq_true hu)
    · exact hg g (of_eq_true hnew)
    · exact h.held u g (of_eq_true hold)
  __ := h
  own := fun u w g hu => by
    obtain ⟨rfl, hnew⟩ | ⟨_, hold⟩ := update_map_cases FutexPhase.waits hu
    · exact hwa w g hnew
    · exact h.own u w g hold

/-- A thread keeps its guards, or gives them up. -/
theorem Linked.keep (h : Linked process s) (t : τ) (hg : ∀ g ∈ phase.guards, g ∈ (s.threads t).guards)
    (hwa : ∀ found, phase.waits = some found → (s.threads t).waits = some found) :
    Linked process (s.setPhase t phase) :=
  h.setPhase t (fun g hnew => h.held t g (hg g hnew)) fun w g hnew =>
    h.own t w g (hwa (w, g) hnew)

omit [DecidableEq τ] in
/-- Threads go on or are moved; their guards stay. -/
theorem Linked.of_threads (h : Linked process s) {threads : τ → FutexPhase ι τ} {entries : Nat → FutexEntry τ}
    (hth : ∀ t, (threads t).guards = (s.threads t).guards ∧ (threads t).waits = (s.threads t).waits) :
    Linked process {s with threads := threads, entries := entries} where
  held := fun t g hg => h.held t g ((hth t).1 ▸ hg)
  __ := h
  own := fun t w g hg => h.own t w g ((hth t).2 ▸ hg)

theorem Linked.notify (h : Linked process s) (g : FutexGuard ι) (c : WakeCall) (count : Nat) :
    Linked process (s.notify g c count) :=
  h.of_threads fun t => by split <;> simp

theorem Linked.drain (h : Linked process s) (g : FutexGuard ι) (count : Nat) : Linked process (s.drain g count) :=
  h.of_threads fun t => by split <;> simp

end Threads

variable [DecidableEq ι] {slot : Option Nat}

theorem setSlot_cases {table table' : FutexTable ι} {key key' : TableKey} {e : Nat}
    (h : (s.setSlot table key slot).tables table' key' = some e) :
    table' = table ∧ key' = key ∧ slot = some e ∨ (¬(table' = table ∧ key' = key)) ∧ s.tables table' key' = some e := by
  by_cases hta : table' = table
  · subst hta
    have hs : Function.update (s.tables table') key slot key' = some e := by
      simpa [setSlot] using h
    obtain ⟨hkey, hnew⟩ | ⟨hkey, hold⟩ := update_cases hs
    · exact .inl ⟨rfl, hkey, hnew⟩
    · exact .inr ⟨fun hbo => hkey hbo.2, hold⟩
  · exact .inr ⟨fun hbo => hta hbo.1, by simpa [setSlot, hta] using h⟩

theorem setSlot_other {table table' : FutexTable ι} {key key' : TableKey}
    (h : ¬(table' = table ∧ key' = key)) : (s.setSlot table key slot).tables table' key' = s.tables table' key' := by
  by_cases hta : table' = table
  · subst hta
    have hkey : key' ≠ key := fun hkey => h ⟨rfl, hkey⟩
    simp [setSlot, hkey]
  · simp [setSlot, hta]

@[simp] theorem setSlot_self (table : FutexTable ι) (key : TableKey) (slot : Option Nat) :
    (s.setSlot table key slot).tables table key = slot := by
  simp [setSlot]

/-- The entry found or made is in the slot of the guard. -/
theorem Linked.getOrInsert (h : Linked process s) (table : FutexTable ι) (key : TableKey) :
    Linked process (s.getOrInsert table key).1 ∧
      (s.getOrInsert table key).2.table = table ∧ (s.getOrInsert table key).2.key = key ∧
      (s.getOrInsert table key).1.tables table key = some (s.getOrInsert table key).2.entry := by
  unfold Futexes.getOrInsert
  split
  · next e he => exact ⟨h, rfl, rfl, he⟩
  · next hno =>
    refine ⟨⟨fun t g hg => ?_, fun table' key' table'' key'' e he he' => ?_, fun table' key' e he => ?_, h.own⟩,
      rfl, rfl, setSlot_self ..⟩
    · have hh := h.held t g hg
      refine (setSlot_other fun heq => ?_).trans hh
      rw [heq.1, heq.2, hno] at hh
      cases hh
    · rcases setSlot_cases he with ⟨rfl, rfl, hnew⟩ | ⟨_, hold⟩ <;> rcases setSlot_cases he' with ⟨rfl, rfl, hnew'⟩ | ⟨_, hold'⟩
      · exact ⟨rfl, rfl⟩
      · exact absurd (h.old _ _ _ hold') (by rw [← some.inj hnew]; exact Nat.lt_irrefl _)
      · exact absurd (h.old _ _ _ hold) (by rw [← some.inj hnew']; exact Nat.lt_irrefl _)
      · exact h.distinct _ _ _ _ _ hold hold'
    · obtain ⟨_, _, hnew⟩ | ⟨_, hold⟩ := setSlot_cases he
      · exact some.inj hnew ▸ Nat.lt_succ_self s.next
      · exact Nat.lt_succ_of_lt (h.old _ _ _ hold)

variable [DecidableEq τ] [Fintype τ] {g : FutexGuard ι} {t : τ}

/-- Only the last guard removes an entry. -/
theorem Linked.dropGuard (h : Linked process s) (hph : phase.Outside) (hg : (s.threads t).guards = g :: phase.guards)
    (hrf : (s.threads t).refs = (s.threads t).guards.map (·.entry)) :
    Linked process ((s.dropGuard t g).setPhase t phase) := by
  unfold Futexes.dropGuard
  split
  · next hun =>
    obtain ⟨hs, hso, _⟩ := hun
    have hso := of_decide_eq_true hso
    refine ⟨fun u o hu => ?_, fun table key table' key' e he he' => ?_, fun table key e he => ?_, fun u w o hu => ?_⟩
    · -- The other guards are of other entries, or this one would not be the last.
      obtain ⟨hold, hne⟩ : o ∈ (s.threads u).guards ∧ o.entry ≠ g.entry := by
        obtain ⟨rfl, hnew⟩ | ⟨hut, hold⟩ := update_map_cases (f := s.threads) (fun phase => o ∈ phase.guards) (eq_true hu)
        · have hnew := of_eq_true hnew
          refine ⟨hg ▸ List.mem_cons_of_mem g hnew, fun heq => ?_⟩
          have hct := hso u
          rw [if_pos rfl, hrf, hg, List.map_cons, List.count_cons_self, Nat.add_eq_right, List.count_eq_zero] at hct
          exact hct (heq ▸ List.mem_map_of_mem hnew)
        · have hold := of_eq_true hold
          refine ⟨hold, fun heq => ?_⟩
          have hct := hso u
          rw [if_neg hut, List.count_eq_zero] at hct
          exact hct (heq ▸ FutexPhase.refs_of_guards hold)
      have hh := h.held u o hold
      refine (setSlot_other fun heq => ?_).trans hh
      rw [heq.1, heq.2, hs] at hh
      exact hne (some.inj hh).symm
    · obtain ⟨_, _, hnew⟩ | ⟨_, hold⟩ := setSlot_cases he
      · cases hnew
      · obtain ⟨_, _, hnew⟩ | ⟨_, hold'⟩ := setSlot_cases he'
        · cases hnew
        · exact h.distinct _ _ _ _ _ hold hold'
    · obtain ⟨_, _, hnew⟩ | ⟨_, hold⟩ := setSlot_cases he
      · cases hnew
      · exact h.old _ _ _ hold
    · obtain ⟨-, hold⟩ := update_map_ne FutexPhase.waits hu (by rw [hph.1]; nofun)
      exact h.own u w o hold
  · exact h.keep t (fun o ho => hg ▸ List.mem_cons_of_mem g ho) (by rw [hph.1]; nofun)

variable (process s) in
/-- What a step can do. -/
inductive Change : FutexLabel ι τ → Futexes ι τ → Prop
  | store (mem) : Change (.store mem) {s with memory := mem}
  | remap (l areas) : Change l {s with areas := areas}
  | pass (l t phase) (hph : phase.Outside)
    (hg : ∀ g ∈ phase.guards, g ∈ (s.threads t).guards ∨ s.tables g.table g.key = some g.entry) :
    Change l (s.setPhase t phase)
  | check (l t c key word) (hwo : s.memory (process t) c.address = c.value) :
    Change l (s.setPhase t (.checked ⟨c, key, word⟩))
  | acquire (l t w bits) (hph : s.threads t = .checked w) :
    Change l {(s.getOrInsert (.process (process t)) w.key.tableKey).1.setPhase t
      (.holding w (s.getOrInsert (.process (process t)) w.key.tableKey).2) with bitsets := bits}
  | target (l t key phase) (hph : phase.Outside)
    (hg : ∀ g ∈ phase.guards, g ∈ (s.threads t).guards ∨ g = (s.getOrInsert (.process (process t)) key).2) :
    Change l ((s.getOrInsert (.process (process t)) key).1.setPhase t phase)
  | move (l t w g phase e) (hg : (s.threads t).waits = some (w, g))
    (hsc : WaitMove.Spec t (s.memory (process t)) (s.threads t) phase (s.entries g.entry) e) :
    Change l ((s.setEntry g.entry e).setPhase t phase)
  | notify (l t c g count phase) (hph : phase.Outside) (hg : ∀ g ∈ phase.guards, g ∈ (s.threads t).guards) :
    Change l ((s.notify g c count).setPhase t phase)
  | drain (l t g count phase) (hph : phase.Outside) (hg : ∀ g ∈ phase.guards, g ∈ (s.threads t).guards) :
    Change l ((s.drain g count).setPhase t phase)
  | settle (l t e tasks phase) (hph : phase.Outside) (hg : ∀ g ∈ phase.guards, g ∈ (s.threads t).guards) :
    Change l ((s.setEntry e {s.entries e with wq := (s.entries e).wq ++ tasks}).setPhase t phase)
  | drop (l t g phase) (hph : phase.Outside) (hg : (s.threads t).guards = g :: phase.guards)
    (hrf : (s.threads t).refs = (s.threads t).guards.map (·.entry)) :
    Change l ((s.dropGuard t g).setPhase t phase)

variable {l : FutexLabel ι τ}

open Futexes (lookup setEntry step)

theorem change_of_step (hst : (machine process).step l s = some s') : Change process s l s' := by
  cases l with
  | store | remap =>
    cases hst
    constructor
  | move t move =>
    simp only [machine, step] at hst
    split at hst
    · cases hst
    next w g hg =>
      obtain ⟨⟨phase, e⟩, had, rfl⟩ := Option.map_eq_some_iff.mp hst
      exact .move _ t w g phase e hg (WaitMove.advance_spec had)
  | check t fault =>
    simp only [machine, step] at hst
    repeat' split at hst
    all_goals cases hst
    · exact .pass _ _ _ ⟨rfl, rfl⟩ nofun
    · exact .pass _ _ _ ⟨rfl, rfl⟩ nofun
    next hwo => exact .check _ t _ _ _ (Decidable.not_not.mp hwo)
  | acquire t fault =>
    simp only [machine, step] at hst
    repeat' split at hst
    all_goals cases hst
    · exact .pass _ _ _ ⟨rfl, rfl⟩ nofun
    next hph _ => exact .acquire _ t _ _ hph
  | wait t call | requeue t call fault =>
    simp only [machine, step] at hst
    repeat' split at hst
    all_goals cases hst
    all_goals exact .pass _ _ _ ⟨rfl, rfl⟩ nofun
  | wake t call =>
    simp only [machine, step] at hst
    repeat' split at hst
    all_goals cases hst
    · exact .pass _ _ _ ⟨rfl, rfl⟩ nofun
    next hlook => exact .pass _ _ _ ⟨rfl, rfl⟩ fun g hg => .inr (by cases List.mem_singleton.mp hg; exact hlook)
  | seek t =>
    simp only [machine, step] at hst
    split at hst <;> cases hst
    refine .pass _ _ _ ⟨rfl, rfl⟩ fun g hg => .inr ?_
    obtain ⟨e, he, rfl⟩ := Option.map_eq_some_iff.mp (Option.mem_toList.mp hg)
    exact he
  | target t =>
    simp only [machine, step] at hst
    split at hst
    next call source hph =>
      cases source with
      | none =>
        cases hst
        exact .target _ t _ _ ⟨rfl, rfl⟩ fun g hg => .inr (List.mem_singleton.mp hg)
      | some source =>
        cases hst
        refine .target _ t _ _ ⟨rfl, rfl⟩ fun g hg => ?_
        obtain rfl | hg := List.mem_cons.mp hg
        · exact .inr rfl
        · exact .inl (by rw [hph]; exact hg)
    · cases hst
  | notify t =>
    simp only [machine, step] at hst
    repeat' split at hst
    all_goals cases hst
    next hph _ => exact .notify _ t _ _ _ _ ⟨rfl, rfl⟩ fun g hg => by rw [hph]; exact hg
  | shift t =>
    simp only [machine, step] at hst
    repeat' split at hst
    all_goals cases hst
    next call target source count hph _ =>
      have hg : ∀ g ∈ [target, source], g ∈ (s.threads t).guards := fun g hg => by rw [hph]; exact hg
      unfold Futexes.shift
      split
      · split
        · exact .pass _ t _ ⟨rfl, rfl⟩ fun g hin => .inl (hg g hin)
        · exact .notify _ t _ _ _ _ ⟨rfl, rfl⟩ hg
      · exact .drain _ t _ _ _ ⟨rfl, rfl⟩ hg
  | settle t =>
    simp only [machine, step] at hst
    repeat' split at hst
    all_goals cases hst
    next hph _ => exact .settle _ t _ _ _ ⟨rfl, rfl⟩ fun g hg => by rw [hph]; exact hg
  | drop t =>
    simp only [machine, step] at hst
    split at hst <;> cases hst
    all_goals
      next hph => exact .drop _ t _ _ ⟨rfl, rfl⟩ (by rw [hph]; rfl) (by rw [hph]; rfl)
  | release t =>
    simp only [machine, step] at hst
    split at hst <;> cases hst
    next hph => exact .pass _ _ _ ⟨rfl, rfl⟩ fun g hg => .inl (by rw [hph]; exact hg)
    · exact .pass _ _ _ ⟨rfl, rfl⟩ nofun

omit [DecidableEq τ] [Fintype τ] in
theorem getOrInsert_frame (s : Futexes ι τ) (table : FutexTable ι) (key : TableKey) :
    (s.getOrInsert table key).1.threads = s.threads ∧ (s.getOrInsert table key).1.memory = s.memory := by
  unfold Futexes.getOrInsert
  split <;> exact ⟨rfl, rfl⟩

theorem Linked.step (h : Linked process s) (hst : (machine process).step l s = some s') :
    Linked process s' := by
  cases change_of_step hst with
  | store | remap => exact {h with}
  | pass _ t phase hph hg =>
    refine h.setPhase t (fun g hin => (hg g hin).elim (h.held t g) id) ?_
    rw [hph.1]
    nofun
  | check _ t => exact h.keep t nofun nofun
  | acquire _ t w _ _ =>
    obtain ⟨hli, hta, hkey, hs⟩ := h.getOrInsert (.process (process t)) w.key.tableKey
    have hph : Linked process ((s.getOrInsert (.process (process t)) w.key.tableKey).1.setPhase t
        (.holding w (s.getOrInsert (.process (process t)) w.key.tableKey).2)) := by
      refine hli.setPhase t (fun g hnew => ?_) fun w' g hnew => ?_
      · cases List.mem_singleton.mp hnew
        rw [hta, hkey, hs]
      · cases hnew
        exact ⟨hta, hkey⟩
    exact {hph with}
  | target _ t key phase hph hg =>
    obtain ⟨hli, hta, hkey, hs⟩ := h.getOrInsert (.process (process t)) key
    refine hli.setPhase t (fun g hin => ?_) (by rw [hph.1]; nofun)
    obtain hold | rfl := hg g hin
    · refine hli.held t g ?_
      rw [(getOrInsert_frame s _ _).1]
      exact hold
    · rw [hta, hkey, hs]
  | move _ t w g phase e hg hsc => exact (h.setEntry _ _).keep t (fun g hnew => hsc.guards ▸ hnew) hsc.waits
  | notify _ t c g count phase hph hg =>
    have hli := h.notify g c count
    refine hli.setPhase t (fun o ho => h.held t o (hg o ho)) (by rw [hph.1]; nofun)
  | drain _ t g count phase hph hg =>
    have hli := h.drain g count
    refine hli.setPhase t (fun o ho => h.held t o (hg o ho)) (by rw [hph.1]; nofun)
  | settle _ t e tasks phase hph hg => exact (h.setEntry _ _).keep t hg (by rw [hph.1]; nofun)
  | drop _ t g phase hph hg hrf => exact h.dropGuard hph hg hrf

omit [DecidableEq ι] [DecidableEq τ] [Fintype τ] in
theorem linked_initial (areas : ι → AreaMap) (mem : ι → Nat → Nat) :
    Linked process (initial areas mem) :=
  ⟨fun _ _ h => (nomatch h), fun _ _ _ _ _ h => (nomatch h), fun _ _ _ h => (nomatch h), fun _ _ _ h => (nomatch h)⟩

variable {areas : ι → AreaMap} {labels : List (FutexLabel ι τ)} {mem : ι → Nat → Nat} {q : List τ}

theorem Linked.run (hrun : (machine process).run (initial areas mem) labels = some s) : Linked process s :=
  Machine.run_induct (fun _ _ _ h hst => h.step hst) labels (linked_initial areas mem) hrun

/-! ### Who meets a waiter -/

omit [DecidableEq ι] [DecidableEq τ] [Fintype τ] in
/-- A lookup finds the entry of a waiter when it is for the waiter's slot. -/
theorem Linked.lookup_iff (h : Linked process s)
    (hwa : (s.threads t).waits = some (w, g)) {i : ι} {c : WakeCall} {key : FutexKey}
    (hkey : FutexKey.new (s.areas i) c.address = key) :
    s.lookup i c = some g.entry ↔ c.table i key = .process (process t) ∧ key.tableKey = w.key.tableKey := by
  obtain ⟨hta, hs⟩ := h.own t w g hwa
  have hh := h.held t g (by rw [FutexPhase.guards_of_waits hwa]; exact .head _)
  rw [hta, hs] at hh
  have hlo : s.lookup i c = s.tables (c.table i key) key.tableKey := by
    simp [lookup, hkey]
  rw [hlo]
  constructor
  · exact fun hf => h.distinct _ _ _ _ _ hf hh
  · rintro ⟨heq, hsa'⟩
    rw [heq, hsa', hh]

/-- **Shared futexes meet within a process only.** In every run a waking call reaches the queue of a
waiter on the same word of a shared object exactly if it comes from the waiter's process, through
`sys_futex` or the robust list; private words of different processes never share a queue. -/
theorem wake_meets_iff {areas : ι → AreaMap} {memory : ι → Nat → Nat} {labels : List (FutexLabel ι τ)}
    (hrun : (machine process).run (initial areas memory) labels = some s) {t : τ} {w : Waiting}
    {guard : FutexGuard ι} {seen : Nat} (hqueued : s.threads t = .queued w guard seen) :
    (∀ object offset, w.key = .sharedAt object offset → ∀ i call, FutexKey.new (s.areas i) call.address = w.key →
      (s.lookup i call = some guard.entry ↔ i = process t ∧ ∀ address, call ≠ .exit address)) ∧
    (∀ address, w.key = .privateAt address → ∀ i, i ≠ process t →
      (∀ call address', FutexKey.new (s.areas i) call.address = .privateAt address' →
        s.lookup i call ≠ some guard.entry) ∧
      ∀ t' w' guard' seen' address', process t' = i → s.threads t' = .queued w' guard' seen' →
        w'.key = .privateAt address' → guard'.entry ≠ guard.entry) := by
  have h : Linked process s := .run hrun
  have hwaits : (s.threads t).waits = some (w, guard) := by rw [hqueued]; rfl
  refine ⟨fun object offset hshared i call hkey => ?_, fun address _ i ho => ⟨fun call address' hkey hf => ?_, ?_⟩⟩
  · rw [h.lookup_iff hwaits hkey, hshared]
    cases call <;> simp [WakeCall.table, futexTableFor]
  · have htable := ((h.lookup_iff hwaits hkey).mp hf).1
    cases call <;> exact ho (FutexTable.process.inj htable)
  · rintro t' w' guard' seen' address' rfl hqueued' _ heq
    have hwaits' : (s.threads t').waits = some (w', guard') := by rw [hqueued']; rfl
    have hh := h.held t guard (by rw [hqueued]; exact .head _)
    have hheld' := h.held t' guard' (by rw [hqueued']; exact .head _)
    have hs := (h.distinct _ _ _ _ _ hh (heq ▸ hheld')).1
    rw [(h.own t w guard hwaits).1, (h.own t' w' guard' hwaits').1] at hs
    exact ho (FutexTable.process.inj hs).symm

/-- The first page of object 5, shared, at `start`. -/
def objectArea (start : Nat) : VmArea where
  range := .fromStartSize start 0x1000
  flags := ⟨true, true, false, true, false, false, false, false⟩
  pageSize := .size4K
  backing := ⟨.object 5 0, false⟩

/-- Two processes map the object, at different addresses. -/
def mapped (i : Bool) : AreaMap :=
  let start := if i then 0x8000 else 0x1000
  SortedMap.empty.insert start (objectArea start)

/-- The first word reads zero. -/
def waitForZero (address : Nat) : WaitCall := ⟨address, 0, false, none⟩

/-- The thread of the first process blocks on the first word. -/
def blocked : List (FutexLabel Bool Bool) :=
  [.wait false (waitForZero 0x1000), .check false none, .acquire false none, .move false .lock, .move false .enqueue]

/-- The state it blocks in, with what two wake-ups for its word look up. -/
theorem blocked_state : ((machine id).run (initial mapped fun _ _ => 0) blocked).map (fun s =>
      (s.threads false, FutexKey.new (s.areas true) 0x8000, s.lookup false (.futex 0x1000 1 none),
        s.lookup true (.futex 0x8000 1 none), s.lookup false (.exit 0x1000))) =
    some (.queued ⟨waitForZero 0x1000, .sharedAt 5 0, 0⟩ ⟨.process false, (5, 0), 0⟩ 0, .sharedAt 5 0, some 0, none, none) := by
  decide +kernel

theorem wake_meets_own_process : ∃ s, (machine id).run (initial mapped fun _ _ => 0) blocked = some s ∧
    s.lookup false (.futex 0x1000 1 none) = some 0 := by
  obtain ⟨s, hrun, hsta⟩ := Option.map_eq_some_iff.mp blocked_state
  have hars : ((machine id).run (initial mapped fun _ _ => 0) blocked).map (fun s => FutexKey.new (s.areas false) 0x1000) =
      some (.sharedAt 5 0) := by decide +kernel
  rw [hrun] at hars
  exact ⟨s, hrun, ((wake_meets_iff hrun (Prod.mk.inj hsta).1).1 5 0 rfl false (.futex 0x1000 1 none)
    (some.inj hars)).mpr ⟨rfl, fun _ => nofun⟩⟩

/-- The wake-up from the other process looks into its own table and finds no queue, and so does the
`clear_child_tid` wake-up of the waiter's own process, in the shared table. -/
theorem shared_wake_misses : ∃ s guard seen, (machine id).run (initial mapped fun _ _ => 0) blocked = some s ∧
    s.threads false = .queued ⟨waitForZero 0x1000, .sharedAt 5 0, 0⟩ guard seen ∧
    FutexKey.new (s.areas true) 0x8000 = .sharedAt 5 0 ∧
    s.lookup true (.futex 0x8000 1 none) = none ∧ s.lookup false (.exit 0x1000) = none := by
  obtain ⟨s, hrun, hsta⟩ := Option.map_eq_some_iff.mp blocked_state
  simp only [Prod.mk.injEq] at hsta
  obtain ⟨hqueued, hkey, _, ho, hexit⟩ := hsta
  exact ⟨s, _, _, hrun, hqueued, hkey, ho, hexit⟩

/-! ### Waiters are enqueued at the expected value -/

/-- A waiter that has compared its word still finds the value there, and a blocked one was enqueued at
it and is in its queue. -/
structure Awaits (process : τ → ι) (s : Futexes ι τ) : Prop where
  pending : ∀ t w, (s.threads t).pending = some w → s.memory (process t) w.call.address = w.call.value
  queued : ∀ t w guard seen, s.threads t = .queued w guard seen →
    t ∈ (s.entries guard.entry).wq ∧ seen = w.call.value

/-- No store changes the word of a waiter between its comparison and its enqueuing. -/
def Stable (process : τ → ι) : FutexLabel ι τ → Futexes ι τ → Prop
  | .store memory, s => ∀ t, ∀ w ∈ (s.threads t).pending,
      memory (process t) w.call.address = s.memory (process t) w.call.address
  | _, _ => True

instance (label : FutexLabel ι τ) (s : Futexes ι τ) : Decidable (Stable process label s) := by
  cases label <;> unfold Stable <;> infer_instance

section
variable (h : Awaits process s)
include h

omit [DecidableEq ι] [Fintype τ] in
/-- A thread that is not in a queue moves. -/
theorem Awaits.setPhase (t : τ)
    (hpe : ∀ w, phase.pending = some w → s.memory (process t) w.call.address = w.call.value)
    (hqu : ∀ w g seen, phase ≠ .queued w g seen) : Awaits process (s.setPhase t phase) where
  pending := fun u w hu => by
    obtain ⟨rfl, hnew⟩ | ⟨_, hold⟩ := update_map_cases FutexPhase.pending hu
    · exact hpe w hnew
    · exact h.pending u w hold
  queued := fun u w g seen hu => by
    obtain ⟨_, hnew⟩ | ⟨_, hold⟩ := update_cases hu
    · exact absurd hnew (hqu w g seen)
    · exact h.queued u w g seen hold

omit [DecidableEq ι] [Fintype τ] in
theorem Awaits.outside (t : τ) (hph : phase.Outside) : Awaits process (s.setPhase t phase) := by
  refine h.setPhase t (by rw [hph.2]; nofun) fun w g seen hq => ?_
  rw [hq] at hph
  cases hph.1

omit [DecidableEq τ] [Fintype τ] in
/-- A new entry is nobody's queue yet. -/
theorem Awaits.getOrInsert (hli : Linked process s) (table : FutexTable ι) (key : TableKey) :
    Awaits process (s.getOrInsert table key).1 := by
  unfold Futexes.getOrInsert
  split
  · exact h
  · refine ⟨h.pending, fun t w g seen ht => ?_⟩
    have hg : g ∈ (s.threads t).guards := by
      have hph : s.threads t = .queued w g seen := ht
      rw [hph]
      exact .head _
    have hne : g.entry ≠ s.next := (hli.old _ _ _ (hli.held t g hg)).ne
    simpa [setEntry, Futexes.setSlot, hne] using h.queued t w g seen ht

omit [DecidableEq ι] [Fintype τ] in
theorem Awaits.advance {e : FutexEntry τ} (hg : (s.threads t).waits = some (w, g))
    (hsc : WaitMove.Spec t (s.memory (process t)) (s.threads t) phase (s.entries g.entry) e) :
    Awaits process ((s.setEntry g.entry e).setPhase t phase) where
  pending := fun u w hu => by
    obtain ⟨rfl, hnew⟩ | ⟨_, hold⟩ := update_map_cases FutexPhase.pending hu
    · exact h.pending u w (hsc.pending w hnew)
    · exact h.pending u w hold
  queued := fun u w o seen hu => by
    obtain ⟨rfl, hnew⟩ | ⟨hne, hold⟩ := update_cases hu
    · obtain ⟨hpe, hse, hmem⟩ := hsc.queued w o seen hnew
      have heq : o = g := by
        have ho := hsc.guards.trans (FutexPhase.guards_of_waits hg)
        rw [hnew] at ho
        exact (List.cons.inj ho).1
      subst heq
      exact ⟨by simpa [setEntry, Futexes.setPhase] using hmem, hse.trans (h.pending u w hpe)⟩
    · obtain ⟨hmem, hse⟩ := h.queued u w o seen hold
      refine ⟨?_, hse⟩
      by_cases hent : o.entry = g.entry
      · rw [hent] at hmem ⊢
        simpa [setEntry, Futexes.setPhase] using hsc.others u hne hmem
      · simpa [setEntry, Futexes.setPhase, hent] using hmem

omit [DecidableEq ι] [Fintype τ] in
/-- Who is still blocked was not among the tasks taken. -/
theorem Awaits.dequeue {f : FutexPhase ι τ → FutexPhase ι τ} {e : FutexEntry τ} {count : Nat}
    (hpe : ∀ phase, (f phase).pending = phase.pending) (hqu : ∀ phase w g seen, f phase ≠ .queued w g seen)
    (hwq : e.wq = (s.entries g.entry).wq.drop count) :
    Awaits process {s.setEntry g.entry e with
      threads := fun u => if u ∈ (s.entries g.entry).wq.take count then f (s.threads u) else s.threads u} where
  pending := fun t w ht => by
    refine h.pending t w ?_
    dsimp only at ht
    split at ht
    · exact hpe _ ▸ ht
    · exact ht
  queued := fun t w o seen ht => by
    dsimp only at ht
    split at ht
    · exact absurd ht (hqu _ w o seen)
    · next hle =>
      obtain ⟨hmem, hse⟩ := h.queued t w o seen ht
      refine ⟨?_, hse⟩
      by_cases hent : o.entry = g.entry
      · rw [hent] at hmem ⊢
        rw [← List.take_append_drop count (s.entries g.entry).wq, List.mem_append] at hmem
        simpa [setEntry, hwq] using hmem.resolve_left hle
      · simpa [setEntry, hent] using hmem

omit [DecidableEq ι] [Fintype τ] in
theorem Awaits.notify (g : FutexGuard ι) (c : WakeCall) (count : Nat) : Awaits process (s.notify g c count) :=
  h.dequeue FutexPhase.pending_notify (fun phase w g seen hq => by cases phase <;> cases hq) rfl

omit [DecidableEq ι] [Fintype τ] in
theorem Awaits.drain (g : FutexGuard ι) (count : Nat) : Awaits process (s.drain g count) :=
  h.dequeue FutexPhase.pending_move (fun phase w g seen hq => by cases phase <;> cases hq) rfl

omit [DecidableEq ι] [DecidableEq τ] [Fintype τ] in
/-- Tasks are added to a queue. -/
theorem Awaits.settle (e : Nat) (tasks : List τ) :
    Awaits process (s.setEntry e {s.entries e with wq := (s.entries e).wq ++ tasks}) where
  pending := h.pending
  queued := fun t w o seen ht => by
    obtain ⟨hmem, hse⟩ := h.queued t w o seen ht
    refine ⟨?_, hse⟩
    by_cases hent : o.entry = e
    · rw [hent] at hmem ⊢
      simp [setEntry, hmem]
    · simpa [setEntry, hent] using hmem

theorem Awaits.dropGuard (t : τ) (g : FutexGuard ι) : Awaits process (s.dropGuard t g) := by
  unfold Futexes.dropGuard
  split
  · exact {h with}
  · exact h

theorem Awaits.step (hli : Linked process s)
    (hse : Stable process l s) (hst : (machine process).step l s = some s') : Awaits process s' := by
  cases change_of_step hst with
  | store => exact ⟨fun t w hw => (hse t w hw).trans (h.pending t w hw), h.queued⟩
  | remap => exact {h with}
  | pass _ t phase hph _ => exact h.outside t hph
  | check _ t _ _ _ hwo =>
    refine h.setPhase t (fun w hnew => ?_) nofun
    cases hnew
    exact hwo
  | acquire _ t w _ hph =>
    have hwo : s.memory (process t) w.call.address = w.call.value := h.pending t w (by rw [hph]; rfl)
    have haw : Awaits process ((s.getOrInsert (.process (process t)) w.key.tableKey).1.setPhase t
        (.holding w (s.getOrInsert (.process (process t)) w.key.tableKey).2)) := by
      refine (h.getOrInsert hli _ _).setPhase t (fun w' hnew => ?_) nofun
      cases hnew
      rw [(getOrInsert_frame s _ _).2, hwo]
    exact {haw with}
  | target _ t _ _ hph _ => exact (h.getOrInsert hli _ _).outside t hph
  | move _ _ _ _ _ _ hg hsc => exact h.advance hg hsc
  | notify _ t _ _ _ _ hph _ => exact (h.notify _ _ _).outside t hph
  | drain _ t _ _ _ hph _ => exact (h.drain _ _).outside t hph
  | settle _ t _ _ _ hph _ => exact (h.settle _ _).outside t hph
  | drop _ t _ _ hph => exact (h.dropGuard t _).outside t hph

end

theorem Awaits.run (hse : (machine process).Meets (Stable process) (initial areas mem) labels)
    (hrun : (machine process).run (initial areas mem) labels = some s) : Linked process s ∧ Awaits process s := by
  have hin : Linked process (initial areas mem) ∧ Awaits process (initial areas mem) :=
    ⟨linked_initial areas mem, ⟨fun _ _ h => (nomatch h), fun _ _ _ _ h => (nomatch h)⟩⟩
  exact Machine.run_induct_under
    (fun _ s _ (h : Linked process s ∧ Awaits process s) hlabel hst => ⟨h.1.step hst, h.2.step h.1 hlabel hst⟩)
    labels hin hse hrun

/-- A wake-up for as many tasks as are in its queue leaves nobody blocked there. -/
theorem notify_wakes (hli : Linked process s) (haw : Awaits process s) {u : τ} {c : WakeCall}
    (hwk : s.threads u = .waking c g) (hct : (s.entries g.entry).wq.length ≤ c.count (s.bitsets u))
    (hst : (machine process).step (.notify u) s = some s') {o : FutexGuard ι} {seen : Nat}
    (ht : s'.threads t = .queued w o seen) : ¬(o.table = g.table ∧ o.key = g.key) := by
  rintro ⟨hta, hkey⟩
  have hs : s'.tables g.table g.key = some o.entry := by
    rw [← hta, ← hkey]
    exact (hli.step hst).held t o (by rw [ht]; exact .head _)
  have hse : Stable process (.notify u) s := trivial
  have hmem := ((haw.step hli hse hst).queued t w o seen ht).1
  simp only [machine, step, hwk] at hst
  obtain ⟨_, hn⟩ := Option.ite_none_right_eq_some.mp hst
  cases hn
  have hh : s.tables g.table g.key = some g.entry := hli.held u g (by rw [hwk]; exact .head _)
  have hent : o.entry = g.entry := some.inj (hs.symm.trans hh)
  rw [hent] at hmem
  simp [Futexes.notify, setEntry, Futexes.setPhase, List.drop_eq_nil_of_le hct] at hmem

/-- **No wake-up is lost** in a run in which no store changes a waiter's word between its comparison
and its enqueuing. Who blocks was enqueued at the expected value. A waking call that looks for the key
of a waiter in the table of its process finds its queue; and when it comes to notify, whatever happened
meanwhile, it leaves nobody blocked there, if it is for as many tasks as are in the queue. -/
theorem wait_enqueues_expected {areas : ι → AreaMap} {memory : ι → Nat → Nat} {labels : List (FutexLabel ι τ)}
    (hstable : (machine process).Meets (Stable process) (initial areas memory) labels)
    (hrun : (machine process).run (initial areas memory) labels = some s) :
    (∀ t w guard seen, s.threads t = .queued w guard seen → seen = w.call.value) ∧
      ∀ t w guard seen u call key s₁, s.threads t = .queued w guard seen →
        FutexKey.new (s.areas (process u)) call.address = key → call.table (process u) key = .process (process t) →
        key.tableKey = w.key.tableKey → (machine process).step (.wake u call) s = some s₁ →
        s₁.threads u = .waking call guard ∧
          ∀ middle s₂ s₃, (machine process).Meets (Stable process) s₁ middle → (machine process).run s₁ middle = some s₂ →
            s₂.threads u = .waking call guard → (s₂.entries guard.entry).wq.length ≤ call.count (s₂.bitsets u) →
            (machine process).step (.notify u) s₂ = some s₃ →
            ∀ t' w' guard' seen', s₃.threads t' = .queued w' guard' seen' →
              ¬(guard'.table = guard.table ∧ guard'.key = guard.key) := by
  obtain ⟨hlink, hawaits⟩ := Awaits.run hstable hrun
  refine ⟨fun t w guard seen ht => (hawaits.queued t w guard seen ht).2, ?_⟩
  intro t w guard seen u call key s₁ ht hkey htable hslot hwake
  have hwaits : (s.threads t).waits = some (w, guard) := by rw [ht]; rfl
  obtain ⟨howntable, hownkey⟩ := hlink.own t w guard hwaits
  have hlook := (hlink.lookup_iff hwaits hkey).mpr ⟨htable, hslot⟩
  have hstable₁ : Stable process (.wake u call) s := trivial
  have hlink₁ := hlink.step hwake
  have hawaits₁ := hawaits.step hlink hstable₁ hwake
  refine ⟨?_, fun middle s₂ s₃ hmeets hmiddle hwaking hcount hnotify t' w' guard' seen' ht' => ?_⟩
  · simp only [machine, step] at hwake
    split at hwake
    · rw [hlook, hkey] at hwake
      cases hwake
      refine (Function.update_self ..).trans ?_
      rw [htable, hslot, ← howntable, ← hownkey]
    · cases hwake
  · obtain ⟨hlink₂, hawaits₂⟩ := Machine.run_induct_under
      (fun _ s _ (h : Linked process s ∧ Awaits process s) hlabel hst => ⟨h.1.step hst, h.2.step h.1 hlabel hst⟩)
      middle ⟨hlink₁, hawaits₁⟩ hmeets hmiddle
    exact notify_wakes hlink₂ hawaits₂ hwaking hcount hnotify ht'

/-- The word becomes one after the waiter has blocked. -/
def storedLate : List (FutexLabel Bool Bool) := blocked ++ [.store fun _ _ => 1]

/-- The other thread wakes the waiter up; in between the word changes again. -/
theorem wait_enqueues_expected_late : ∃ s s₁ s₂ s₃ w guard,
    (machine fun _ => false).run (initial mapped fun _ _ => 0) storedLate = some s ∧
    s.threads false = .queued w guard w.call.value ∧
    (machine fun _ => false).step (.wake true (.futex 0x1000 1 none)) s = some s₁ ∧
    (machine fun _ => false).step (.store fun _ _ => 2) s₁ = some s₂ ∧
    (machine fun _ => false).step (.notify true) s₂ = some s₃ ∧ ∀ seen, s₃.threads false ≠ .queued w guard seen := by
  let w : Waiting := ⟨waitForZero 0x1000, .sharedAt 5 0, 0⟩
  let guard : FutexGuard Bool := ⟨.process false, (5, 0), 0⟩
  have hsta : ((machine fun _ => false).run (initial mapped fun _ _ => 0) storedLate).bind (fun s =>
      ((machine fun _ => false).step (.wake true (.futex 0x1000 1 none)) s).bind fun s₁ =>
      ((machine fun _ => false).step (.store fun _ _ => 2) s₁).bind fun s₂ =>
      ((machine fun _ => false).step (.notify true) s₂).map fun _ =>
        decide (s.threads false = .queued w guard 0 ∧ FutexKey.new (s.areas false) 0x1000 = .sharedAt 5 0 ∧
          s₂.threads true = .waking (.futex 0x1000 1 none) guard ∧ (s₂.entries 0).wq.length ≤ 1 ∧
          Stable (fun _ => false) (.store fun _ _ => 2) s₁)) = some true := by
    decide +kernel
  obtain ⟨s, hrun, hr⟩ := Option.bind_eq_some_iff.mp hsta
  obtain ⟨s₁, hwake, hr⟩ := Option.bind_eq_some_iff.mp hr
  obtain ⟨s₂, hstore, hr⟩ := Option.bind_eq_some_iff.mp hr
  obtain ⟨s₃, hnotify, hfacts⟩ := Option.map_eq_some_iff.mp hr
  obtain ⟨hqueued, hkey, hwaking, hlen, hstable⟩ := of_decide_eq_true hfacts
  obtain ⟨-, hwoken⟩ := wait_enqueues_expected (by decide +kernel) hrun
  obtain ⟨-, hleaves⟩ := hwoken false w guard 0 true (.futex 0x1000 1 none) _ s₁ hqueued hkey rfl rfl hwake
  refine ⟨s, s₁, s₂, s₃, w, guard, hrun, hqueued, hwake, hstore, hnotify, fun seen hstill => ?_⟩
  refine hleaves [.store fun _ _ => 2] s₂ s₃ ?_ ?_ hwaking hlen hnotify false w guard seen hstill ⟨rfl, rfl⟩
  · exact ⟨hstable, fun _ _ => trivial⟩
  · exact Option.bind_eq_some_iff.mpr ⟨s₂, hstore, rfl⟩

/-- The word becomes one between the comparison and the enqueuing, and the wake-up finds no queue. -/
def storedEarly : List (FutexLabel Bool Bool) :=
  [.wait false (waitForZero 0x1000), .check false none, .store fun _ _ => 1, .wake true (.futex 0x1000 1 none),
    .acquire false none, .move false .lock, .move false .enqueue]

/-- The waiter for zero is enqueued at one, behind the wake-up that announced it. -/
theorem wake_up_lost :
    ((machine fun _ => false).run (initial mapped fun _ _ => 0) storedEarly).map (fun s => (s.threads false, s.threads true)) =
      some (.queued ⟨waitForZero 0x1000, .sharedAt 5 0, 0⟩ ⟨.process false, (5, 0), 0⟩ 1, .ready (.ok 0)) := by
  decide +kernel

/-! ### Bitsets -/

/-- What a call without a bitset stands for. -/
def allOnes : Nat := 2 ^ 32 - 1

/-- The bitset that the waiter gave meets the mask. -/
def meets (s : Futexes ι τ) (mask : Option Nat) (u : τ) : Bool :=
  (s.threads u).waits.any fun found => found.1.call.bitset.getD allOnes &&& mask.getD allOnes != 0

/-- The tasks that a wake-up is for, in the order of the queue. -/
def chosen (s : Futexes ι τ) (queue : List τ) (value : Nat) (mask : Option Nat) : List τ :=
  (queue.filter (s.meets mask)).take value

/-- Those go on, the others stay in order, and the call returns their number. -/
def woken (s : Futexes ι τ) (t : τ) (guard : FutexGuard ι) (chosen : List τ) : Futexes ι τ :=
  let entry := s.entries guard.entry
  setPhase {s.setEntry guard.entry {entry with wq := entry.wq.filter (· ∉ chosen)} with
    threads := fun u => if u ∈ chosen then (s.threads u).notify else s.threads u} t (.dropping guard (.ok chosen.length))

omit [Fintype τ] in
theorem filter_notMem_take (hnd : q.Nodup) (n : Nat) : q.filter (· ∉ q.take n) = q.drop n := by
  have hsp := List.filter_append (p := (· ∉ q.take n)) (q.take n) (q.drop n)
  rw [List.take_append_drop] at hsp
  rw [hsp, List.filter_eq_nil_iff.mpr (by simp), List.nil_append, List.filter_eq_self]
  exact fun u hu => decide_eq_true fun hin => List.disjoint_take_drop hnd (Nat.le_refl n) hin hu

omit [DecidableEq τ] [Fintype τ] in
theorem take_filter_of_take {p : τ → Bool} {n : Nat} (h : ∀ u ∈ q.take n, p u) :
    (q.filter p).take n = q.take n := by
  induction q generalizing n with
  | nil => rfl
  | cons u rest ih =>
    cases n with
    | zero => rfl
    | succ n =>
      rw [List.filter_cons_of_pos (h u (.head _)), List.take_succ_cons, List.take_succ_cons,
        ih fun v hv => h v (List.mem_cons_of_mem u hv)]

/-- **A wake-up goes by the bitsets of the waiters** just if the bitset of the waker meets the mask as those of the first
waiters do, or neither it nor any of them does. -/
theorem wake_selects_iff {t : τ} {guard : FutexGuard ι} {address value : Nat} {mask : Option Nat}
    (ht : s.threads t = .waking (.futex address value mask) guard) (hnd : (s.entries guard.entry).wq.Nodup)
    (hst : (machine process).step (.notify t) s = some s') :
    s' = s.woken t guard (s.chosen (s.entries guard.entry).wq value mask) ↔
      if mask.all (s.bitsets t &&& · != 0) then ∀ u ∈ (s.entries guard.entry).wq.take value, s.meets mask u = true
      else value = 0 ∨ ∀ u ∈ (s.entries guard.entry).wq, s.meets mask u = false := by
  have hct : (WakeCall.futex address value mask).count (s.bitsets t) =
      if mask.all (s.bitsets t &&& · != 0) then value else 0 := by
    cases mask <;> simp [WakeCall.count]
  simp only [machine, step, ht, Option.ite_none_right_eq_some, Option.some.injEq, hct] at hst
  obtain ⟨-, rfl⟩ := hst
  split_ifs with hown
  · refine ⟨fun h u hu => ?_, fun h => ?_⟩
    · -- One of the first waiters that is not chosen would be both taken and left.
      by_contra hno
      have hl := congrArg (fun s => (s.entries guard.entry).wq) h
      simp only [notify, woken, setPhase, setEntry, Function.update_self] at hl
      refine List.disjoint_take_drop hnd le_rfl hu (hl ▸ List.mem_filter.mpr ⟨List.mem_of_mem_take hu, ?_⟩)
      exact decide_eq_true fun hin => hno (List.mem_filter.mp (List.mem_of_mem_take hin)).2
    · rw [chosen, take_filter_of_take h, woken, filter_notMem_take hnd, List.length_take]
      rfl
  · have hno : (value = 0 ∨ ∀ u ∈ (s.entries guard.entry).wq, s.meets mask u = false) ↔
        s.chosen (s.entries guard.entry).wq value mask = [] := by
      simp [chosen]
    rw [hno]
    refine ⟨fun h => ?_, fun h => ?_⟩
    · have hl := congrArg (fun s => s.threads t) h
      simp only [woken, setPhase, Function.update_self, FutexPhase.dropping.injEq, Except.ok.injEq] at hl
      exact List.eq_nil_of_length_eq_zero (hl.2.symm.trans (Nat.zero_min _))
    · rw [h]
      simp [woken, notify]

/-- Three threads wait with bitsets 1, 3 and 4, and the last, whose own bitset is 1, wakes two up for mask 1. -/
def threeWaiters : Futexes Bool (Bool × Bool) :=
  let guard : FutexGuard Bool := ⟨.process false, (5, 0), 0⟩
  let bitsets (t : Bool × Bool) : Nat := if t = (false, true) then 3 else if t = (true, false) then 4 else 1
  {setEntry (initial mapped fun _ _ => 0) 0 ⟨[(false, false), (false, true), (true, false)], none, false⟩ with
    bitsets
    threads := fun t => if t = (true, true) then .waking (.futex 0x1000 2 (some 1)) guard else
      .queued ⟨⟨0x1000, 0, false, some (bitsets t)⟩, .sharedAt 5 0, 0⟩ guard 0}

theorem wake_selects_two : ∃ s', (machine fun _ => false).step (.notify (true, true)) threeWaiters = some s' ∧
    s' = threeWaiters.woken (true, true) ⟨.process false, (5, 0), 0⟩ [(false, false), (false, true)] :=
  have hst : (machine fun _ => false).step (.notify (true, true)) threeWaiters = some _ := rfl
  have ht : threeWaiters.threads (true, true) = .waking (.futex 0x1000 2 (some 1)) ⟨.process false, (5, 0), 0⟩ := rfl
  ⟨_, hst, (wake_selects_iff ht (by decide) hst).mpr (by decide)⟩

/-- Thread `false` waits with bitset 1, and the other wakes it up for this mask. -/
def bitsetWake (mask : Option Nat) : Futexes Bool Bool :=
  let guard := ⟨.process false, (5, 0), 0⟩
  (setEntry (initial mapped fun _ _ => 0) 0 ⟨[false], none, false⟩).setPhase false
    (.queued ⟨⟨0x1000, 0, false, some 1⟩, .sharedAt 5 0, 0⟩ guard 0) |>.setPhase true (.waking (.futex 0x1000 1 mask) guard)

/-- The waker has no bitset of its own. -/
theorem bitset_wake_misses : ((machine id).step (.notify true) (bitsetWake (some 1))).map (fun s =>
    ((bitsetWake (some 1)).meets (some 1) false, (s.entries 0).wq, s.threads true)) =
      some (true, [false], .dropping ⟨.process false, (5, 0), 0⟩ (.ok 0)) := by
  decide +kernel

end Futexes
end StarryX.Task
