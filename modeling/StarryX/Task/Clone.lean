import StarryX.Task.Credentials
import StarryX.Task.Signals
import StarryX.Task.Tree
import StarryX.Vma.Isolation

/-! Making processes and ending them.

`clone` puts a new process together from its caller: by the flags, the address space, the
descriptors and the signal actions are shared, copied, or begun anew. When the last thread of a
process ends, `exit` unmaps its areas and clears its descriptors, whoever else uses them.

`clone_inherits_iff` states when the new process starts with what its caller has, and
`exit_frame_iff` when the end of a process leaves another one alone, in every state that
clones, exits and the calls in between can lead to. -/
namespace StarryX.Task
open Library Mm Vma
open Function (update_of_ne update_self)
open Option (bind_eq_some_iff map_eq_some_iff some.inj)

/-! ### Arguments -/

namespace CloneFlags

def vm : BitVec 32 := 0x100
def fs : BitVec 32 := 0x200
def files : BitVec 32 := 0x400
def sighand : BitVec 32 := 0x800
def pidfd : BitVec 32 := 0x1000
def vfork : BitVec 32 := 0x4000
def parent : BitVec 32 := 0x8000
def thread : BitVec 32 := 0x10000
def newns : BitVec 32 := 0x20000
def parentSettid : BitVec 32 := 0x100000
def childCleartid : BitVec 32 := 0x200000
def childSettid : BitVec 32 := 0x1000000
def newipc : BitVec 32 := 0x8000000

def contains (flags other : BitVec 32) : Bool := flags &&& other == other

end CloneFlags

open CloneFlags in
/-- The combinations that are refused. -/
def checkCloneFlags (flags : BitVec 32) (exitSignal : Nat) : LinuxResult Unit :=
  if exitSignal ≠ 0 ∧ contains flags (thread ||| parent) then .error .einval
  else if contains flags sighand ∧ ¬contains flags vm then .error .einval
  else if contains flags thread ∧ ¬contains flags (vm ||| sighand) then .error .einval
  else if contains flags fs ∧ contains flags newns then .error .einval
  else if contains flags newipc then .error .eopnotsupp
  else .ok ()

/-- The errors of what `clone` calls on the way; `space` is of a new address space. -/
structure CloneFaults where
  pidfd : Option LinuxError
  childTid : Option LinuxError
  parentTid : Option LinuxError
  space : Option LinuxError
  sharedMemory : Option LinuxError

/-- The arguments, the number of the new task, and the index of a new address space. -/
structure CloneArgs (ι : Type) where
  flags : BitVec 32
  exitSignal : Nat
  childTid : Nat
  tid : Pid
  space : ι
  faults : CloneFaults

open CloneFlags in
/-- What `clone` checks before it makes anything. -/
def checkClone {ι : Type} (args : CloneArgs ι) : LinuxResult Unit := do
  checkCloneFlags args.flags args.exitSignal
  if contains args.flags pidfd then args.faults.pidfd.elim (.ok ()) .error
  if contains args.flags childSettid then args.faults.childTid.elim (.ok ()) .error
  if contains args.flags parentSettid then args.faults.parentTid.elim (.ok ()) .error

/-! ### Processes -/

structure Rlimit where
  current : BitVec 64
  max : BitVec 64
  deriving DecidableEq

abbrev Rlimits := Fin 16 → Rlimit

/-- Open files by descriptor, and which of them `exec` closes. -/
structure FdTable where
  inner : Nat → Option Nat
  flags : Nat → Bool

namespace FdTable

def copyInner (table : FdTable) : FdTable where
  inner := table.inner
  flags := fun fd => (table.inner fd).isSome && table.flags fd

def clear (table : FdTable) : FdTable := {table with inner := fun _ => none}

theorem clear_eq_self_iff (table : FdTable) : table.clear = table ↔ ∀ fd, table.inner fd = none := by
  refine ⟨fun h fd => ?_, fun h => ?_⟩
  · rw [← h]
    rfl
  · unfold clear
    rw [← funext h]

end FdTable

def ProcessCredentials.default : ProcessCredentials := ⟨⟨0, 0, 0, 0⟩, ⟨0, 0, 0, 0⟩, []⟩

/-- The data of a process. Its address space, descriptors and signal actions are handles. -/
structure XProcess (ι : Type) where
  space : ι
  files : Nat
  actions : Nat
  exitSignal : Option Signo
  defaultRestorer : Nat
  rlimits : Rlimits
  credentials : ProcessCredentials

structure XThread where
  process : Pid
  blocked : SignalSet
  clearChildTid : Nat

/-- All processes and threads, with what their handles stand for. The init process is the kernel's own
and has no data. -/
structure Tasks (arch : Arch) (ι : Type) where
  initProc : Pid
  system : System arch ι
  fdTables : Nat → FdTable
  nextFdTable : Nat
  signalActions : Nat → SignalActions
  nextActions : Nat
  processes : Pid → Option (XProcess ι)
  parents : Pid → Option Pid
  threads : Pid → Option XThread
  nextTid : Pid

namespace Tasks
variable {arch : Arch} {ι : Type}

/-- Whether the thread group of a process has a member. -/
def hasThread (s : Tasks arch ι) (p : Pid) : Bool :=
  decide (∃ u < s.nextTid, (s.threads u).map (·.process) = some p)

/-- `Process::parent`, while the parent is there. -/
def getParent (s : Tasks arch ι) (p : Pid) : Option Pid :=
  (s.parents p).filter fun q => q == s.initProc || (s.processes q).isSome

section Model
variable [DecidableEq ι]

/-! ### Clone -/

/-- The address space of the new process: the caller's, or a copy at an index that is free. -/
def cloneSpace (s : System arch ι) (i j : ι) (shared : Bool) : Option (System arch ι × LinuxResult ι) :=
  if shared then some (s, .ok i)
  else
    match s.spaces i, s.spaces j with
    | some space, none =>
      match Vma.tryClone i j ⟨s.kernel, space⟩ with
      | .ok child v => some ((s.setSpace i v.kernel (some v.space)).setSpace j v.kernel (some child), .ok j)
      | .error (.error e) v => some (s.setSpace i v.kernel (some v.space), .error (linuxError e))
      | .error .panic _ => none
    | _, _ => none

open CloneFlags in
/-- The process that the new one gets as its parent. -/
def chooseParent (s : Tasks arch ι) (p : Pid) (flags : BitVec 32) : Option Pid :=
  if contains flags parent then s.getParent p else some p

open CloneFlags in
/-- With `SIGHAND` the actions of the parent are shared, if it has data. -/
def chooseActions (s : Tasks arch ι) (parentPid : Pid) (flags : BitVec 32) : Tasks arch ι × Nat :=
  match if contains flags sighand then (s.processes parentPid).map (·.actions) else none with
  | some actions => (s, actions)
  | none =>
    ({s with
      signalActions := Function.update s.signalActions s.nextActions fun _ => .default
      nextActions := s.nextActions + 1}, s.nextActions)

/-- With `FILES` the descriptors of the caller are shared. -/
def chooseFiles (s : Tasks arch ι) (caller : XProcess ι) (flags : BitVec 32) : Tasks arch ι × Nat :=
  if CloneFlags.contains flags CloneFlags.files then (s, caller.files)
  else
    ({s with
      fdTables := Function.update s.fdTables s.nextFdTable (s.fdTables caller.files).copyInner
      nextFdTable := s.nextFdTable + 1}, s.nextFdTable)

/-- `XProcess::new` for the new process, and its place in the tree. -/
def buildProcess (s : Tasks arch ι) (caller : XProcess ι) (parentPid : Pid) (args : CloneArgs ι) (space : ι) :
    Tasks arch ι :=
  let actions := s.chooseActions parentPid args.flags
  let files := actions.1.chooseFiles caller args.flags
  {files.1 with
    processes := Function.update s.processes args.tid (some {
      space := space
      files := files.2
      actions := actions.2
      exitSignal := Signo.fromRepr (args.exitSignal % 256)
      defaultRestorer := caller.defaultRestorer
      rlimits := caller.rlimits
      credentials := .default })
    parents := Function.update s.parents args.tid (some parentPid)}

open CloneFlags in
/-- The branch of `do_clone` that makes a process. -/
def newProcess (s : Tasks arch ι) (p : Pid) (caller : XProcess ι) (args : CloneArgs ι) :
    Option (Tasks arch ι × LinuxResult Pid) :=
  match s.chooseParent p args.flags with
  | none => some (s, .error .einval)
  | some parentPid =>
    let shared := contains args.flags vm && !contains args.flags vfork
    match cloneSpace s.system caller.space args.space shared with
    | none => none
    | some (system, .error e) => some ({s with system := system}, .error e)
    | some (system, .ok space) =>
      match (if shared then none else args.faults.space).or args.faults.sharedMemory with
      | some e =>
        -- the new process is dropped, and with it an address space of its own
        (if shared then some system else system.drop space).map fun system => ({s with system := system}, .error e)
      | none => some ({s with system := system}.buildProcess caller parentPid args space, .ok args.tid)

/-- `add_thread_to_table` of a new thread. -/
def newThread (s : Tasks arch ι) (process : Pid) (args : CloneArgs ι) : Tasks arch ι :=
  {s with
    threads := Function.update s.threads args.tid (some {
      process := process
      blocked := 0
      clearChildTid := if CloneFlags.contains args.flags CloneFlags.childCleartid then args.childTid else 0 })
    nextTid := args.tid + 1}

/-- `do_clone` by the thread `t`. Numbers only grow. -/
def doClone (s : Tasks arch ι) (t : Pid) (args : CloneArgs ι) : Option (Tasks arch ι × LinuxResult Pid) := do
  let thread ← s.threads t
  let caller ← s.processes thread.process
  guard (s.nextTid ≤ args.tid)
  match checkClone args with
  | .error e => some (s, .error e)
  | .ok () =>
    if CloneFlags.contains args.flags CloneFlags.thread then
      some (s.newThread thread.process args, .ok args.tid)
    else
      match ← s.newProcess thread.process caller args with
      | (s, .error e) => some (s, .error e)
      | (s, .ok process) => some (s.newThread process args, .ok args.tid)

/-! ### Exit -/

/-- What the last thread of a process releases; an error of `unmap_user_areas` is only logged. The
children go to `reaper`. -/
def release (s : Tasks arch ι) (p : Pid) (process : XProcess ι) (reaper : Pid) : Option (Tasks arch ι) :=
  (s.system.call process.space (Vma.unmapUserAreas process.space)).map fun system =>
    {s with
      system := system
      parents := fun q => if s.parents q = some p then some reaper else s.parents q
      fdTables := Function.update s.fdTables process.files (s.fdTables process.files).clear}

/-- `do_exit` of the thread `t`, from `thread.exit` on. -/
def doExit (s : Tasks arch ι) (t reaper : Pid) : Option (Tasks arch ι) := do
  let thread ← s.threads t
  let process ← s.processes thread.process
  let s := {s with threads := Function.update s.threads t none}
  if s.hasThread thread.process then some s else s.release thread.process process reaper

/-! ### Runs -/

/-- Threads clone and exit, zombies are reaped, and other calls change memory, descriptors, actions,
masks and the data of processes. -/
inductive TaskLabel (arch : Arch) (ι : Type) where
  | clone (t : Pid) (args : CloneArgs ι)
  | exit (t reaper : Pid)
  | reap (p : Pid)
  | memory (op : Op arch ι)
  | setFiles (table : Nat) (new : FdTable)
  | setActions (table : Nat) (new : SignalActions)
  | setBlocked (t : Pid) (blocked : SignalSet)
  | setData (p : Pid) (rlimits : Rlimits) (credentials : ProcessCredentials)

def step : TaskLabel arch ι → Tasks arch ι → Option (Tasks arch ι)
  | .clone t args, s => (s.doClone t args).map Prod.fst
  | .exit t reaper, s => s.doExit t reaper
  | .reap p, s =>
    if s.hasThread p then none else some {s with processes := Function.update s.processes p none}
  | .memory op, s => (s.system.step op).map fun system => {s with system := system}
  | .setFiles table new, s => some {s with fdTables := Function.update s.fdTables table new}
  | .setActions table new, s => some {s with signalActions := Function.update s.signalActions table new}
  | .setBlocked t blocked, s =>
    (s.threads t).map fun thread =>
      {s with threads := Function.update s.threads t (some {thread with blocked := blocked})}
  | .setData p rlimits credentials, s =>
    (s.processes p).map fun process =>
      let process := {process with rlimits := rlimits, credentials := credentials}
      {s with processes := Function.update s.processes p (some process)}

def machine : Machine (Tasks arch ι) (TaskLabel arch ι) := ⟨step⟩

end Model

/-- One process with one thread, forked from the init process of a kernel without address spaces. -/
def initial (k : Kernel arch ι) (initProc init : Pid) (space : ι) (rlimits : Rlimits) : Tasks arch ι where
  initProc := initProc
  system := ⟨k.fresh, fun _ => none⟩
  fdTables := fun _ => ⟨fun _ => none, fun _ => false⟩
  nextFdTable := 1
  signalActions := fun _ _ => .default
  nextActions := 1
  processes := Function.update (fun _ => none) init (some ⟨space, 0, 0, none, 0, rlimits, .default⟩)
  parents := Function.update (fun _ => none) init (some initProc)
  threads := Function.update (fun _ => none) init (some ⟨init, 0, 0⟩)
  nextTid := init + 1

/-! ### What clone does -/

variable {s s' : Tasks arch ι} {p t ppid : Pid} {c data : XProcess ι} {args : CloneArgs ι} {flags : BitVec 32}

theorem chooseFiles_actions (s : Tasks arch ι) (c : XProcess ι) (flags : BitVec 32) :
    (s.chooseFiles c flags).1.signalActions = s.signalActions := by
  unfold chooseFiles
  split
  · rfl
  · rfl

open CloneFlags (contains sighand thread)

/-- The actions that a new process starts with: those of the parent, or none are set. -/
def startActions (s : Tasks arch ι) (parentPid : Pid) (flags : BitVec 32) : SignalActions :=
  match if contains flags sighand then s.processes parentPid else none with
  | some data => s.signalActions data.actions
  | none => fun _ => .default

theorem chooseActions_actions (s : Tasks arch ι) (ppid : Pid) (flags : BitVec 32) :
    (s.chooseActions ppid flags).1.signalActions (s.chooseActions ppid flags).2 = s.startActions ppid flags := by
  unfold chooseActions startActions
  cases contains flags sighand with
  | false => exact update_self ..
  | true =>
    cases s.processes ppid with
    | none => exact update_self ..
    | some data => rfl

/-- Nothing that exists changes, but for a process of the same number. -/
theorem buildProcess_frame (s : Tasks arch ι) (c : XProcess ι) (ppid : Pid) (args : CloneArgs ι) (sp : ι) :
    ∃ acts nextActions files nextFiles child, s.buildProcess c ppid args sp = {s with
      signalActions := acts
      nextActions := nextActions
      fdTables := files
      nextFdTable := nextFiles
      processes := Function.update s.processes args.tid (some child)
      parents := Function.update s.parents args.tid (some ppid)} := by
  unfold buildProcess chooseFiles chooseActions
  split <;> split <;> exact ⟨_, _, _, _, _, rfl⟩

theorem buildProcess_nextTid (s : Tasks arch ι) (c : XProcess ι) (ppid : Pid) (args : CloneArgs ι)
    (sp : ι) : (s.buildProcess c ppid args sp).nextTid = s.nextTid := by
  obtain ⟨acts, nextActions, files, nextFiles, child, hbt⟩ := buildProcess_frame s c ppid args sp
  rw [hbt]

/-- The new process begins without credentials and with the limits of the caller. -/
theorem buildProcess_data (s : Tasks arch ι) (c : XProcess ι) (ppid : Pid) (args : CloneArgs ι)
    (sp : ι) : ∃ child, (s.buildProcess c ppid args sp).processes args.tid = some child ∧
      child.credentials = .default ∧ child.rlimits = c.rlimits ∧
      (s.buildProcess c ppid args sp).signalActions child.actions = s.startActions ppid args.flags := by
  refine ⟨_, update_self .., rfl, rfl, ?_⟩
  rw [← chooseActions_actions]
  exact congrFun (chooseFiles_actions _ c args.flags) _

section Steps
variable [DecidableEq ι] {r : LinuxResult Pid}

theorem doClone_cases (h : s.doClone t args = some (s', r)) :
    ∃ th c, s.threads t = some th ∧ s.processes th.process = some c ∧ s.nextTid ≤ args.tid ∧
      ((s' = s ∧ ∃ e, r = .error e) ∨
        (contains args.flags thread ∧ s' = s.newThread th.process args) ∨
        contains args.flags thread = false ∧ ∃ u made,
          s.newProcess th.process c args = some (u, made) ∧
            ((s' = u ∧ ∃ e, made = .error e ∧ r = .error e) ∨
              ∃ q, made = .ok q ∧ r = .ok args.tid ∧ s' = u.newThread q args)) := by
  obtain ⟨th, htd, h⟩ := bind_eq_some_iff.mp h
  obtain ⟨c, hca, h⟩ := bind_eq_some_iff.mp h
  obtain ⟨_, hgu, h⟩ := bind_eq_some_iff.mp h
  refine ⟨th, c, htd, hca, (Option.guard_eq_some' _).mp hgu, ?_⟩
  split at h
  · cases h
    exact .inl ⟨rfl, _, rfl⟩
  · split at h
    · next hth =>
      cases h
      exact .inr (.inl ⟨hth, rfl⟩)
    · next hth =>
      obtain ⟨⟨u, made⟩, hmd, h⟩ := bind_eq_some_iff.mp h
      refine .inr (.inr ⟨Bool.eq_false_iff.mpr hth, u, made, hmd, ?_⟩)
      cases made with
      | error e =>
        cases h
        exact .inl ⟨rfl, e, rfl, rfl⟩
      | ok q =>
        cases h
        exact .inr ⟨q, rfl, rfl, rfl⟩

/-- A new process is built, or only the address spaces have been worked on. -/
theorem newProcess_cases (Inv : System arch ι → Prop) (hinv : Inv s.system)
    (hcn : ∀ i j shared sys made, cloneSpace s.system i j shared = some (sys, made) → Inv sys)
    (hdp : ∀ sys system' i, Inv sys → sys.drop i = some system' → Inv system')
    (h : s.newProcess p c args = some (s', r)) :
    ∃ sys, Inv sys ∧ (((∃ e, r = .error e) ∧ s' = {s with system := sys}) ∨
      ∃ ppid sp, s.chooseParent p args.flags = some ppid ∧ r = .ok args.tid ∧
        s' = {s with system := sys}.buildProcess c ppid args sp) := by
  unfold newProcess at h
  split at h
  · cases h
    exact ⟨s.system, hinv, .inl ⟨⟨_, rfl⟩, rfl⟩⟩
  · next ppid hpar =>
    dsimp only at h
    split at h
    · cases h
    · next sys e hsp =>
      cases h
      exact ⟨sys, hcn _ _ _ _ _ hsp, .inl ⟨⟨_, rfl⟩, rfl⟩⟩
    · next sys sp hsp =>
      have hcl := hcn _ _ _ _ _ hsp
      split at h
      · next e hfa =>
        obtain ⟨system', hdr, hnx⟩ := map_eq_some_iff.mp h
        obtain ⟨rfl, rfl⟩ := Prod.mk.inj hnx
        refine ⟨system', ?_, .inl ⟨⟨_, rfl⟩, rfl⟩⟩
        split at hdr
        · exact some.inj hdr ▸ hcl
        · exact hdp _ _ _ hcl hdr
      · cases h
        exact ⟨sys, hcl, .inr ⟨ppid, sp, hpar, rfl, rfl⟩⟩

/-! ### Inheriting -/

/-- The child starts with what its caller has. -/
structure Inherits (s s' : Tasks arch ι) (thread childThread : XThread) (caller child : XProcess ι) : Prop where
  credentials : child.credentials = caller.credentials
  actions : s'.signalActions child.actions = s.signalActions caller.actions
  blocked : childThread.blocked = thread.blocked
  rlimits : child.rlimits = caller.rlimits

open CloneFlags in
/-- **A new process inherits from its caller when the caller has default credentials and an empty mask,
and its actions are the ones that the flags give**: without `SIGHAND`, or from a parent that has no data,
the default ones, and otherwise the parent's. -/
theorem clone_inherits_iff (s s' : Tasks arch ι) (t q : Pid) (args : CloneArgs ι)
    (hprocess : contains args.flags CloneFlags.thread = false) (h : s.doClone t args = some (s', .ok q)) :
    ∃ thread childThread caller child parentPid, s.threads t = some thread ∧ s.processes thread.process = some caller ∧
      s'.threads q = some childThread ∧ childThread.process = q ∧ s'.processes q = some child ∧
      s.chooseParent thread.process args.flags = some parentPid ∧
      (Inherits s s' thread childThread caller child ↔
        caller.credentials = .default ∧ thread.blocked = 0 ∧
          (contains args.flags sighand = false → ∀ signo, s.signalActions caller.actions signo = .default) ∧
          (contains args.flags sighand = true → s.processes parentPid = none →
            ∀ signo, s.signalActions caller.actions signo = .default) ∧
          (contains args.flags sighand = true → ∀ data, s.processes parentPid = some data →
            s.signalActions data.actions = s.signalActions caller.actions)) := by
  obtain ⟨thread, caller, hthread, hca, -, hcs⟩ := doClone_cases h
  obtain ⟨-, e, herr⟩ | ⟨hthreads, -⟩ | ⟨-, u, made, hmd, hcs⟩ := hcs
  · cases herr
  · cases hthreads.symm.trans hprocess
  obtain ⟨-, e, -, herr⟩ | ⟨q', rfl, hq, rfl⟩ := hcs
  · cases herr
  obtain ⟨system, -, hcs⟩ := newProcess_cases (fun _ => True) trivial
    (fun _ _ _ _ _ _ => trivial) (fun _ _ _ _ _ => trivial) hmd
  obtain ⟨⟨e, herr⟩, -⟩ | ⟨parentPid, space, hpar, hq', rfl⟩ := hcs
  · cases herr
  obtain rfl : q = args.tid := Except.ok.inj hq
  obtain rfl : q' = args.tid := Except.ok.inj hq'
  obtain ⟨child, hc, hcredentials, hrlimits, hacts⟩ :=
    buildProcess_data {s with system := system} caller parentPid args space
  refine ⟨thread, _, caller, child, parentPid, hthread, hca, update_self .., rfl, hc, hpar, ?_⟩
  have hstart : s.startActions parentPid args.flags = s.signalActions caller.actions ↔
      (contains args.flags sighand = false → ∀ signo, s.signalActions caller.actions signo = .default) ∧
      (contains args.flags sighand = true → s.processes parentPid = none →
        ∀ signo, s.signalActions caller.actions signo = .default) ∧
      (contains args.flags sighand = true → ∀ data, s.processes parentPid = some data →
        s.signalActions data.actions = s.signalActions caller.actions) := by
    unfold startActions
    cases contains args.flags sighand <;> cases s.processes parentPid <;> simp [funext_iff, eq_comm]
  constructor
  · intro hinh
    exact ⟨hinh.credentials.symm.trans hcredentials, hinh.blocked.symm, hstart.mp (hacts.symm.trans hinh.actions)⟩
  · rintro ⟨hdefault, hblocked, hsame⟩
    exact ⟨hcredentials.trans hdefault.symm, hacts.trans (hstart.mpr hsame), hblocked.symm, hrlimits⟩

end Steps

def noLimits : Rlimits := fun _ => ⟨0, 0⟩

/-- The first process maps a page and opens a file. -/
def opened : List (TaskLabel sv39 Bool) :=
  [.memory (.newEmpty false userRange), .memory (.map false 0x1000 0x1000 readWrite (.anonymous true)),
    .setFiles 0 ⟨fun fd => if fd = 0 then some 0 else none, fun _ => false⟩]

/-- `clone` to a process of this number, which is to send `SIGCHLD`. -/
def cloneArgs (tid : Pid) (flags : BitVec 32) : CloneArgs Bool := ⟨flags, 17, 0, tid, true, ⟨none, none, none, none, none⟩⟩

/-- The first process ignores a signal, has limits, and makes a process with the same actions. -/
def shared : List (TaskLabel sv39 Bool) :=
  opened ++ [.setActions 0 fun signo => if signo = .sigusr1 then ⟨0, 0, .ignore⟩ else .default,
    .setData 1 (fun _ => ⟨8, 16⟩) .default, .clone 1 (cloneArgs 2 (CloneFlags.vm ||| CloneFlags.sighand))]

open CloneFlags in
/-- The second process makes a sibling, which gets the actions of their parent. -/
theorem clone_inherits_iff_sibling :
    ∃ s s' thread childThread caller child, machine.run (initial smallKernel 0 1 false noLimits) shared = some s ∧
      s.doClone 2 (cloneArgs 3 (vm ||| sighand ||| parent)) = some (s', .ok 3) ∧
      s.threads 2 = some thread ∧ s.processes thread.process = some caller ∧
      s.signalActions caller.actions .sigusr1 = ⟨0, 0, .ignore⟩ ∧ caller.rlimits 0 = ⟨8, 16⟩ ∧
      Inherits s s' thread childThread caller child := by
  have hruns : ((machine.run (initial smallKernel 0 1 false noLimits) shared).bind fun s =>
      (s.threads 2).bind fun thread => (s.processes thread.process).bind fun caller => (s.processes 1).bind fun data =>
        (s.doClone 2 (cloneArgs 3 (vm ||| sighand ||| parent))).map fun made =>
          (decide (thread.blocked = 0 ∧ caller.credentials = .default ∧ data.actions = caller.actions ∧
            s.chooseParent thread.process (vm ||| sighand ||| parent) = some 1 ∧
            s.signalActions caller.actions .sigusr1 = ⟨0, 0, .ignore⟩ ∧ caller.rlimits 0 = ⟨8, 16⟩), made.2)) =
      some (true, .ok 3) := by
    decide +kernel
  obtain ⟨s, hrun, hr⟩ := bind_eq_some_iff.mp hruns
  obtain ⟨thread, hthread, hr⟩ := bind_eq_some_iff.mp hr
  obtain ⟨caller, hca, hr⟩ := bind_eq_some_iff.mp hr
  obtain ⟨data, hdata, hr⟩ := bind_eq_some_iff.mp hr
  obtain ⟨⟨s', made⟩, hcn, hfacts⟩ := map_eq_some_iff.mp hr
  obtain ⟨hdecided, rfl⟩ := Prod.mk.inj hfacts
  obtain ⟨hblocked, hdefault, hsame, hfirst, hacts, hlimits⟩ := of_decide_eq_true hdecided
  obtain ⟨thread', childThread, caller', child, parentPid, hthread', hcaller', -, -, hc, hpar, hiff⟩ :=
    clone_inherits_iff s s' 2 3 (cloneArgs 3 (vm ||| sighand ||| parent)) (by decide) hcn
  cases hthread.symm.trans hthread'
  cases hca.symm.trans hcaller'
  cases hfirst.symm.trans hpar
  refine ⟨s, s', thread, childThread, caller, child, hrun, hcn, hthread, hca, hacts, hlimits,
    hiff.mpr ⟨hdefault, hblocked, fun hn => absurd hn (by decide), fun _ hn => ?_, fun _ data' hdata' => ?_⟩⟩
  · cases hn.symm.trans hdata
  · cases hdata.symm.trans hdata'
    rw [hsame]

/-- A process of user 1000 forks, and the child is root. -/
theorem forked_as_root :
    ∃ s s' caller child, s.processes 1 = some caller ∧ s'.processes 2 = some child ∧
      machine.run (initial smallKernel 0 1 false noLimits)
        (opened ++ [.setData 1 noLimits ⟨⟨1000, 1000, 1000, 1000⟩, ⟨1000, 1000, 1000, 1000⟩, []⟩]) = some s ∧
      s.doClone 1 (cloneArgs 2 0) = some (s', .ok 2) ∧
      caller.credentials.user.effective = 1000 ∧ child.credentials.user.effective = 0 := by
  have hruns : ((machine.run (initial smallKernel 0 1 false noLimits)
      (opened ++ [.setData 1 noLimits ⟨⟨1000, 1000, 1000, 1000⟩, ⟨1000, 1000, 1000, 1000⟩, []⟩])).bind fun s =>
        (s.processes 1).bind fun caller => (s.doClone 1 (cloneArgs 2 0)).bind fun made =>
          (made.1.processes 2).map fun child =>
            (made.2, caller.credentials.user.effective, child.credentials.user.effective)) = some (.ok 2, 1000, 0) := by
    decide +kernel
  obtain ⟨s, hrun, hr⟩ := bind_eq_some_iff.mp hruns
  obtain ⟨caller, hca, hr⟩ := bind_eq_some_iff.mp hr
  obtain ⟨⟨s', made⟩, hcn, hr⟩ := bind_eq_some_iff.mp hr
  obtain ⟨child, hc, hfacts⟩ := map_eq_some_iff.mp hr
  obtain ⟨rfl, hids⟩ := Prod.mk.inj hfacts
  obtain ⟨huser, hroot⟩ := Prod.mk.inj hids
  exact ⟨s, s', caller, child, hca, hc, hrun, hcn, huser, hroot⟩

/-! ### Whole runs -/

section Runs
variable [DecidableEq ι] {r : LinuxResult Pid} [Fintype ι] {th : XThread} {reaper : Pid}

/-- The address spaces are sound, threads are numbered, and each has a process. -/
structure Sound (s : Tasks arch ι) : Prop where
  system : s.system.Sound
  numbered : ∀ u, s.nextTid ≤ u → s.threads u = none
  owned : ∀ u thread, s.threads u = some thread → ∃ process, s.processes thread.process = some process

theorem cloneSpace_sound {sys system' : System arch ι} {i j : ι} {shared : Bool} {made : LinuxResult ι}
    (hs : sys.Sound) (h : cloneSpace sys i j shared = some (system', made)) : system'.Sound := by
  unfold cloneSpace at h
  split at h
  · exact (Prod.mk.inj (some.inj h)).1 ▸ hs
  · refine hs.tryClone (i := i) (j := j) ?_
    unfold System.tryClone
    cases hsp : sys.spaces i with
    | none =>
      rw [hsp] at h
      cases h
    | some sp =>
      cases hfr : sys.spaces j with
      | some _ =>
        rw [hsp, hfr] at h
        cases h
      | none =>
        rw [hsp, hfr] at h
        dsimp only at h ⊢
        cases hrun : Vma.tryClone i j ⟨sys.kernel, sp⟩ with
        | ok child v =>
          rw [hrun] at h
          rw [← (Prod.mk.inj (some.inj h)).1]
        | error e v =>
          rw [hrun] at h
          cases e with
          | panic => cases h
          | error code => rw [← (Prod.mk.inj (some.inj h)).1]

omit [DecidableEq ι] in
theorem Sound.lt_nextTid (h : s.Sound) (hth : s.threads t = some th) : t < s.nextTid := by
  refine not_le.mp fun hle => ?_
  exact nomatch (h.numbered t hle).symm.trans hth

omit [DecidableEq ι] in
theorem Sound.hasThread (h : s.Sound) (hth : s.threads t = some th) : s.hasThread th.process :=
  decide_eq_true ⟨t, h.lt_nextTid hth, by rw [hth]; rfl⟩

omit [DecidableEq ι] in
theorem Sound.newThread (h : s.Sound) (hf : s.nextTid ≤ args.tid) (hpr : s.processes p = some data) :
    (s.newThread p args).Sound where
  system := h.system
  numbered := by
    intro u hu
    have hlt : args.tid < u := hu
    have hu : s.nextTid ≤ u := (Nat.lt_of_le_of_lt hf hlt).le
    exact (update_of_ne hlt.ne' ..).trans (h.numbered u hu)
  owned := by
    intro u th hth
    obtain ⟨-, hnew⟩ | ⟨-, hold⟩ := update_cases hth
    · cases hnew
      exact ⟨data, hpr⟩
    · exact h.owned u th hold

omit [DecidableEq ι] in
theorem Sound.buildProcess (h : s.Sound) (c : XProcess ι) (ppid : Pid) (args : CloneArgs ι) (sp : ι) :
    (s.buildProcess c ppid args sp).Sound := by
  obtain ⟨acts, nextActions, files, nextFiles, child, hbt⟩ := buildProcess_frame s c ppid args sp
  rw [hbt]
  refine ⟨h.system, h.numbered, fun u th hth => ?_⟩
  by_cases hnew : th.process = args.tid
  · exact ⟨_, by rw [hnew]; exact update_self ..⟩
  · obtain ⟨proc, hpr⟩ := h.owned u th hth
    exact ⟨proc, (update_of_ne hnew ..).trans hpr⟩

theorem Sound.clone (h : s.Sound) (hst : s.doClone t args = some (s', r)) : s'.Sound := by
  obtain ⟨th, c, -, hca, hf, hcs⟩ := doClone_cases hst
  obtain ⟨rfl, -⟩ | ⟨-, rfl⟩ | ⟨-, u, made, hmd, hcs⟩ := hcs
  · exact h
  · exact h.newThread hf hca
  obtain ⟨sys, hsy, hbt⟩ := newProcess_cases System.Sound h.system
    (fun _ _ _ _ _ => cloneSpace_sound h.system) (fun _ _ _ => .drop) hmd
  have hs : Sound {s with system := sys} := {h with system := hsy}
  obtain ⟨⟨e, rfl⟩, rfl⟩ | ⟨ppid, sp, -, rfl, rfl⟩ := hbt
  · obtain ⟨rfl, -⟩ | ⟨q, hok, -⟩ := hcs
    · exact hs
    · cases hok
  · obtain ⟨-, e, herr, -⟩ | ⟨q, hok, -, rfl⟩ := hcs
    · cases herr
    · obtain rfl : args.tid = q := Except.ok.inj hok
      have hnx := buildProcess_nextTid {s with system := sys} c ppid args sp
      exact (hs.buildProcess c ppid args sp).newThread (hnx.trans_le hf) (update_self ..)

omit [Fintype ι] in
theorem doExit_cases (h : s.doExit t reaper = some s') :
    ∃ th proc, s.threads t = some th ∧ s.processes th.process = some proc ∧
      (s' = {s with threads := Function.update s.threads t none} ∨
        Tasks.release {s with threads := Function.update s.threads t none} th.process proc reaper =
          some s') := by
  obtain ⟨th, hth, h⟩ := bind_eq_some_iff.mp h
  obtain ⟨proc, hpr, h⟩ := bind_eq_some_iff.mp h
  refine ⟨th, proc, hth, hpr, ?_⟩
  dsimp only at h
  split at h
  · exact .inl (some.inj h).symm
  · exact .inr h

omit [DecidableEq ι] in
theorem Sound.removeThread (h : s.Sound) (t : Pid) : Sound {s with threads := Function.update s.threads t none} where
  system := h.system
  numbered := by
    intro u hu
    by_cases hut : u = t
    · exact hut ▸ update_self ..
    · exact (update_of_ne hut ..).trans (h.numbered u hu)
  owned := by
    intro u th hth
    obtain ⟨-, hold⟩ := update_map_ne id hth nofun
    exact h.owned u th hold

theorem Sound.exit (h : s.Sound) (hst : s.doExit t reaper = some s') : s'.Sound := by
  obtain ⟨th, proc, -, -, rfl | hrel⟩ := doExit_cases hst
  · exact h.removeThread t
  · obtain ⟨sys, hca, rfl⟩ := map_eq_some_iff.mp hrel
    exact {h.removeThread t with system := h.system.step (.unmapUserAreas proc.space) hca}

theorem Sound.step (h : s.Sound) {l : TaskLabel arch ι} (hst : machine.step l s = some s') : s'.Sound := by
  cases l with
  | clone t args =>
    obtain ⟨⟨_, r⟩, hcn, rfl⟩ := map_eq_some_iff.mp hst
    exact h.clone hcn
  | exit t reaper => exact h.exit hst
  | reap p =>
    obtain ⟨hn, hnx⟩ := Option.ite_none_left_eq_some.mp hst
    cases hnx
    refine {h with owned := fun u th hth => ?_}
    -- a process with a thread is not reaped
    have hne : th.process ≠ p := fun hp => hn (hp ▸ h.hasThread hth)
    obtain ⟨proc, hpr⟩ := h.owned u th hth
    exact ⟨proc, (update_of_ne hne ..).trans hpr⟩
  | memory op =>
    obtain ⟨system, hop, rfl⟩ := map_eq_some_iff.mp hst
    exact {h with system := h.system.step op hop}
  | setFiles _ _ | setActions _ _ =>
    cases hst
    exact {h with}
  | setBlocked t blocked =>
    obtain ⟨th, hth, rfl⟩ := map_eq_some_iff.mp hst
    refine {h with numbered := fun u hu => ?_, owned := fun u new hnew => ?_}
    · have hne : u ≠ t := fun hut => Nat.not_le_of_lt (h.lt_nextTid hth) (hut ▸ hu)
      exact (update_of_ne hne ..).trans (h.numbered u hu)
    · obtain ⟨-, hset⟩ | ⟨-, hold⟩ := update_cases hnew
      · cases hset
        exact h.owned t th hth
      · exact h.owned u new hold
  | setData p rlimits creds =>
    obtain ⟨data, hda, rfl⟩ := map_eq_some_iff.mp hst
    refine {h with owned := fun u th hth => ?_}
    by_cases hp : th.process = p
    · exact ⟨_, by rw [hp]; exact update_self ..⟩
    · obtain ⟨proc, hpr⟩ := h.owned u th hth
      exact ⟨proc, (update_of_ne hp ..).trans hpr⟩

omit [DecidableEq ι] in
theorem initial_sound (k : Kernel arch ι) (initProc init : Pid) (sp : ι) (rlimits : Rlimits) :
    (initial k initProc init sp rlimits).Sound where
  system := k.fresh_sound
  numbered := by
    intro u hu
    have hlt : init < u := hu
    dsimp only [initial]
    exact update_of_ne hlt.ne' ..
  owned := by
    intro u th hth
    dsimp only [initial] at hth ⊢
    obtain ⟨-, hnew⟩ | ⟨-, hold⟩ := update_cases hth
    · cases hnew
      exact ⟨_, update_self ..⟩
    · cases hold

/-! ### The end of a process -/

/-- A process has the same areas, contents and descriptors. -/
structure Keeps (s s' : Tasks arch ι) (process : XProcess ι) : Prop where
  areas : (s'.system.spaces process.space).map (·.areas) = (s.system.spaces process.space).map (·.areas)
  bytes : ∀ v, v < arch.span →
    userByte s'.system.kernel.memory process.space v = userByte s.system.kernel.memory process.space v
  files : s'.fdTables process.files = s.fdTables process.files

theorem Sound.release (h : s.Sound) (p : Pid) (exited : XProcess ι) (reaper : Pid) :
    ∃ s', s.release p exited reaper = some s' ∧ ∀ proc, Keeps s s' proc ↔
      (proc.space = exited.space → ∀ sp, s.system.spaces exited.space = some sp → sp.areas = .empty) ∧
      (proc.files = exited.files → ∀ fd, (s.fdTables exited.files).inner fd = none) := by
  obtain ⟨sys, hca, hars, hos⟩ := h.system.unmapUserAreas exited.space
  have hs : sys.Sound := h.system.step (.unmapUserAreas exited.space) hca
  refine ⟨_, map_eq_some_iff.mpr ⟨sys, hca, rfl⟩, fun proc => ⟨fun hke => ⟨?_, ?_⟩, ?_⟩⟩
  · intro heq sp hsp
    have hkp := hke.areas
    rw [heq, hsp] at hkp
    rw [hsp] at hars
    exact (some.inj (hars.symm.trans hkp)).symm
  · intro heq
    refine (FdTable.clear_eq_self_iff _).mp ?_
    have hkp := hke.files
    rw [heq] at hkp
    exact (update_self ..).symm.trans hkp
  · rintro ⟨hsps, hfi⟩
    refine ⟨?_, ?_, ?_⟩
    · by_cases heq : proc.space = exited.space
      · rw [heq, hars]
        cases hsp : s.system.spaces exited.space with
        | none => rfl
        | some sp => exact congrArg some (hsps heq sp hsp).symm
      · exact congrArg _ (hos _ heq).1
    · intro v hv
      by_cases heq : proc.space = exited.space
      · have hem : ∀ sp, sys.spaces exited.space = some sp → sp.areas = .empty := by
          intro sp hsp
          rw [hsp] at hars
          obtain ⟨_, -, hnew⟩ := map_eq_some_iff.mp hars.symm
          exact hnew.symm
        rw [heq, h.system.userByte_eq_none (hsps heq) hv]
        exact hs.userByte_eq_none hem hv
      · exact (hos _ heq).2 v hv
    · by_cases heq : proc.files = exited.files
      · rw [heq]
        exact (update_self ..).trans ((FdTable.clear_eq_self_iff _).mpr (hfi heq))
      · exact update_of_ne heq ..

/-- **The end of a process leaves another one alone if and only if they share no address space with areas and no
descriptors that are open.** -/
theorem exit_frame_iff (k : Kernel arch ι) (initProc init : Pid) (space : ι) (rlimits : Rlimits)
    (labels : List (TaskLabel arch ι)) (hrun : machine.run (initial k initProc init space rlimits) labels = some s)
    {thread : XThread} (hthread : s.threads t = some thread) (reaper : Pid)
    (hlast : ∀ u other, s.threads u = some other → other.process = thread.process → u = t) :
    ∃ exited s', s.processes thread.process = some exited ∧ s.doExit t reaper = some s' ∧
      ∀ u other process, s.threads u = some other → other.process ≠ thread.process →
        s.processes other.process = some process →
        (Keeps s s' process ↔
          (process.space = exited.space → ∀ space, s.system.spaces exited.space = some space → space.areas = .empty) ∧
          (process.files = exited.files → ∀ fd, (s.fdTables exited.files).inner fd = none)) := by
  have h := @Machine.run_induct _ _ machine Sound _ (fun _ _ _ h hst => h.step hst) labels _
    (initial_sound k initProc init space rlimits) hrun
  obtain ⟨exited, hexited⟩ := h.owned t thread hthread
  have hgone : Tasks.hasThread {s with threads := Function.update s.threads t none} thread.process = false := by
    refine decide_eq_false fun ⟨u, _, hu⟩ => ?_
    obtain ⟨other, ho, hprocess⟩ := map_eq_some_iff.mp hu
    obtain ⟨hne, hold⟩ := update_map_ne id ho nofun
    exact hne (hlast u other hold hprocess)
  obtain ⟨s', hrel, hkeeps⟩ := (h.removeThread t).release thread.process exited reaper
  refine ⟨exited, s', hexited, ?_, fun _ _ process _ _ _ => ⟨fun hk => ?_, fun hk => ?_⟩⟩
  · unfold doExit
    simp only [hthread, hexited, hgone, Option.bind_eq_bind, Option.bind_some]
    exact hrel
  · exact (hkeeps process).mp {hk with}
  · have hkp := (hkeeps process).mpr hk
    exact {hkp with}

end Runs

theorem exit_frame_iff_forked :
    ∃ s s' process, machine.run (initial smallKernel 0 1 false noLimits) (opened ++ [.clone 1 (cloneArgs 2 0)]) = some s ∧
      s.doExit 2 1 = some s' ∧ s.processes 1 = some process ∧ Keeps s s' process := by
  have hruns : ((machine.run (initial smallKernel 0 1 false noLimits) (opened ++ [.clone 1 (cloneArgs 2 0)])).bind fun s =>
      (s.threads 1).bind fun other => (s.threads 2).bind fun thread =>
        (s.processes other.process).bind fun process => (s.processes thread.process).map fun exited =>
          decide (other.process = 1 ∧ thread.process = 2 ∧ process.space ≠ exited.space ∧ process.files ≠ exited.files ∧
            ∀ u < s.nextTid, (s.threads u).map (·.process) = some 2 → u = 2)) = some true := by
    decide +kernel
  obtain ⟨s, hrun, hr⟩ := bind_eq_some_iff.mp hruns
  obtain ⟨other, ho, hr⟩ := bind_eq_some_iff.mp hr
  obtain ⟨thread, hthread, hr⟩ := bind_eq_some_iff.mp hr
  obtain ⟨process, hprocess, hr⟩ := bind_eq_some_iff.mp hr
  obtain ⟨exited, hexited, hfacts⟩ := map_eq_some_iff.mp hr
  obtain ⟨hfi, hsecond, hsps, hfiles, hlast⟩ := of_decide_eq_true hfacts
  have h := @Machine.run_induct _ _ machine Sound _ (fun _ _ _ h hst => h.step hst) _ _
    (initial_sound smallKernel 0 1 false noLimits) hrun
  obtain ⟨exited', s', hexited', hexit, hiff⟩ := exit_frame_iff smallKernel 0 1 false noLimits _ hrun hthread 1
    fun u other hu heq => hlast u (h.lt_nextTid hu) (by rw [hu, Option.map_some, heq, hsecond])
  cases hexited.symm.trans hexited'
  refine ⟨s, s', process, hrun, hexit, hfi ▸ hprocess, (hiff 1 other process ho ?_ hprocess).mpr ⟨?_, ?_⟩⟩
  · rw [hfi, hsecond]
    decide
  · exact fun heq => absurd heq hsps
  · exact fun heq => absurd heq hfiles

open CloneFlags in
/-- The child shares memory and descriptors, and takes them with it. -/
theorem exit_empties_parent :
    ∃ s s' process,
      machine.run (initial smallKernel 0 1 false noLimits) (opened ++ [.clone 1 (cloneArgs 2 (vm ||| files))]) = some s ∧
      s.doExit 2 1 = some s' ∧ s.hasThread 1 = true ∧ s.processes 1 = some process ∧
      userByte s.system.kernel.memory process.space 0x1000 = some 0 ∧
      userByte s'.system.kernel.memory process.space 0x1000 = none ∧
      (s.fdTables process.files).inner 0 = some 0 ∧ (s'.fdTables process.files).inner 0 = none := by
  have hruns : ((machine.run (initial smallKernel 0 1 false noLimits)
      (opened ++ [.clone 1 (cloneArgs 2 (vm ||| files))])).bind fun s => (s.processes 1).bind fun process =>
        (s.doExit 2 1).map fun s' => decide (s.hasThread 1 ∧
          userByte s.system.kernel.memory process.space 0x1000 = some 0 ∧
          userByte s'.system.kernel.memory process.space 0x1000 = none ∧
          (s.fdTables process.files).inner 0 = some 0 ∧ (s'.fdTables process.files).inner 0 = none)) = some true := by
    decide +kernel
  obtain ⟨s, hrun, hr⟩ := bind_eq_some_iff.mp hruns
  obtain ⟨process, hprocess, hr⟩ := bind_eq_some_iff.mp hr
  obtain ⟨s', hexit, hfacts⟩ := map_eq_some_iff.mp hr
  obtain ⟨hlive, hr⟩ := of_decide_eq_true hfacts
  exact ⟨s, s', process, hrun, hexit, hlive, hprocess, hr⟩

end Tasks
end StarryX.Task
