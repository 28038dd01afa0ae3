import StarryX.Errno
import StarryX.Task.Tree

/-! Waiting for children.

`sys_wait4` takes a snapshot of the children that the call asks for, looks for a zombie among
them until it finds one, frees it and copies its exit code out. The snapshot, the search, the
removal and the copy are steps of their own with no lock across them, and the threads of the
parent run them side by side (`Waiters.machine`).

Two calls that watch one child can both find it. `wait_reaps_once` is what holds as long as no
call begins to watch a child that another one watches: a child is freed at most once, and its
status is returned by one call. -/
namespace StarryX.Task
open Library

/-! ### Arguments -/

inductive WaitPid where
  | any
  | pid (pid : Pid)
  | pgid (pgid : Pid)
  deriving DecidableEq

structure WaitOptions where
  bits : BitVec 32
  deriving DecidableEq

namespace WaitOptions

def wnohang : BitVec 32 := 0x1
def wuntraced : BitVec 32 := 0x2
def wexited : BitVec 32 := 0x4
def wcontinued : BitVec 32 := 0x8
def wnowait : BitVec 32 := 0x1000000
def wnothread : BitVec 32 := 0x20000000
def wall : BitVec 32 := 0x40000000
def wclone : BitVec 32 := 0x80000000

def all : BitVec 32 := wnohang ||| wuntraced ||| wexited ||| wcontinued ||| wnowait ||| wnothread ||| wall ||| wclone

/-- Unknown bits are refused. -/
def fromBits (bits : BitVec 32) : Option WaitOptions := if bits &&& ~~~all = 0 then some ⟨bits⟩ else none

def contains (options : WaitOptions) (flag : BitVec 32) : Bool := options.bits &&& flag == flag

end WaitOptions

/-- Which children a call asks for; `own` is the group of the caller. -/
def WaitPid.new (own : Pid) (pid : Int) : LinuxResult WaitPid :=
  if pid = -1 then .ok .any
  else if pid = 0 then .ok (.pgid own)
  else if pid > 0 then .ok (.pid pid.toNat)
  else if pid = -2 ^ 31 then .error .esrch
  else .ok (.pgid (-pid).toNat)

/-- A child. A clone child is one whose exit signal is not SIGCHLD. -/
structure ChildProcess where
  zombie : Bool
  exitCode : Int
  pgid : Pid
  cloneChild : Bool

def WaitPid.apply (pid : Pid) (child : ChildProcess) : WaitPid → Bool
  | .any => true
  | .pid wanted => pid == wanted
  | .pgid wanted => child.pgid == wanted

/-! ### The calls -/

/-- Where a call is. `status` is the child whose exit code it has copied out. -/
inductive WaitPhase where
  | ready
  | scanning (options : WaitOptions) (children : List Pid)
  | blocked (options : WaitOptions) (children : List Pid)
  | found (options : WaitOptions) (child : Pid)
  | reaped (child : Pid)
  | returned (result : LinuxResult Nat) (status : Option (Pid × Int))
  deriving DecidableEq

/-- The parent's children map, the processes, and the calls. `known` are the numbers given out so
far; `frees` counts the calls of `free` for each process. -/
structure Waiters (ι : Type) where
  pgid : Pid
  children : List Pid
  known : Pid → Bool
  process : Pid → ChildProcess
  frees : Pid → Nat
  calls : ι → WaitPhase

inductive WaitLabel (ι : Type) where
  | fork (child : Pid) (cloneChild : Bool)
  | exit (child : Pid) (code : Int)
  | setpgid (child pgid : Pid)
  | call (i : ι) (pid : Int) (options : BitVec 32)
  | scan (i : ι)
  | wake (i : ι)
  | free (i : ι)
  | write (i : ι) (fault : Option LinuxError)

namespace Waiters
variable {ι : Type}

/-- The snapshot of a call. -/
def matching (s : Waiters ι) (pid : WaitPid) (options : WaitOptions) : List Pid :=
  (s.children.filter fun child => pid.apply child (s.process child)).filter fun child =>
    options.contains WaitOptions.wall || options.contains WaitOptions.wclone == (s.process child).cloneChild

/-- What a call begins with. -/
def arguments (s : Waiters ι) (pid : Int) (options : BitVec 32) : LinuxResult (WaitPid × WaitOptions) := do
  let options ← (WaitOptions.fromBits options).elim (.error .einval) .ok
  let pid ← WaitPid.new s.pgid pid
  pure (pid, options)

/-- The phase after the snapshot. -/
def begin (s : Waiters ι) (pid : Int) (options : BitVec 32) : WaitPhase :=
  match s.arguments pid options with
  | .error e => .returned (.error e) none
  | .ok (pid, options) =>
    if s.matching pid options = [] then .returned (.error .echild) none
    else .scanning options (s.matching pid options)

variable [DecidableEq ι]

def setCall (s : Waiters ι) (i : ι) (phase : WaitPhase) : Waiters ι :=
  {s with calls := Function.update s.calls i phase}

def step : WaitLabel ι → Waiters ι → Option (Waiters ι)
  | .fork child cloneChild, s =>
    if s.known child then none
    else
      some {s with
        known := Function.update s.known child true
        children := s.children.orderedInsert (· ≤ ·) child
        process := Function.update s.process child ⟨false, 0, s.pgid, cloneChild⟩}
  | .exit child code, s =>
    if s.known child ∧ (s.process child).zombie = false then
      some {s with process := Function.update s.process child {s.process child with zombie := true, exitCode := code}}
    else none
  | .setpgid child pgid, s =>
    some {s with process := Function.update s.process child {s.process child with pgid := pgid}}
  | .call i pid options, s => if s.calls i = .ready then some (s.setCall i (s.begin pid options)) else none
  | .scan i, s =>
    match s.calls i with
    | .scanning options children =>
      match children.find? fun child => (s.process child).zombie with
      | some child => some (s.setCall i (.found options child))
      | none =>
        if options.contains WaitOptions.wnohang then some (s.setCall i (.returned (.ok 0) none))
        else some (s.setCall i (.blocked options children))
    | _ => none
  | .wake i, s =>
    match s.calls i with
    | .blocked options children =>
      if children.any fun child => (s.process child).zombie then some (s.setCall i (.scanning options children)) else none
    | _ => none
  | .free i, s =>
    match s.calls i with
    | .found options child =>
      if options.contains WaitOptions.wnowait then some (s.setCall i (.reaped child))
      else
        some ({s with
          children := s.children.filter (· ≠ child)
          frees := Function.update s.frees child (s.frees child + 1)}.setCall i (.reaped child))
    | _ => none
  | .write i fault, s =>
    match s.calls i with
    | .reaped child =>
      match fault with
      | some e => some (s.setCall i (.returned (.error e) none))
      | none => some (s.setCall i (.returned (.ok child) (some (child, (s.process child).exitCode))))
    | _ => none

def machine : Machine (Waiters ι) (WaitLabel ι) := ⟨step⟩

/-- A parent without children. -/
def initial (pgid : Pid) : Waiters ι where
  pgid := pgid
  children := []
  known := fun _ => false
  process := fun _ => ⟨false, 0, pgid, false⟩
  frees := fun _ => 0
  calls := fun _ => .ready

end Waiters

/-! ### Who watches a child -/

/-- The children that a call may still free. -/
def WaitPhase.watched : WaitPhase → List Pid
  | .scanning _ children | .blocked _ children => children
  | .found _ child => [child]
  | .ready | .reaped _ | .returned .. => []

/-- The child that a call has freed and reports. -/
def WaitPhase.taken : WaitPhase → Option Pid
  | .reaped child => some child
  | .returned _ status => status.map Prod.fst
  | _ => none

/-- The options of a call in progress. -/
def WaitPhase.reaps : WaitPhase → Bool
  | .scanning options _ | .blocked options _ | .found options _ => !options.contains WaitOptions.wnowait
  | .ready | .reaped _ | .returned .. => true

namespace Waiters
variable {ι : Type}

/-- A call begins without `WNOWAIT`, and watches no child that another call watches. -/
def Alone : WaitLabel ι → Waiters ι → Prop
  | .call _ pid options, s => (s.begin pid options).reaps = true ∧
      ∀ j, ∀ child ∈ (s.begin pid options).watched, child ∉ (s.calls j).watched
  | _, _ => True

instance [Fintype ι] (label : WaitLabel ι) (s : Waiters ι) : Decidable (Alone label s) := by
  cases label <;> unfold Alone <;> infer_instance

/-- Watched children are in the map, unfreed and watched by one call; a child that a call has taken is
freed once, by that call. -/
structure Reaping (s : Waiters ι) : Prop where
  known : ∀ child ∈ s.children, s.known child = true
  fresh : ∀ child, s.known child = false → s.frees child = 0
  kept : ∀ child ∈ s.children, s.frees child = 0
  watched : ∀ i, ∀ child ∈ (s.calls i).watched, child ∈ s.children
  reaps : ∀ i, (s.calls i).reaps = true
  alone : ∀ i j child, child ∈ (s.calls i).watched → child ∈ (s.calls j).watched → i = j
  taken : ∀ i child, (s.calls i).taken = some child → s.frees child = 1
  one : ∀ i j child, (s.calls i).taken = some child → (s.calls j).taken = some child → i = j
  atMost : ∀ child, s.frees child ≤ 1

variable [DecidableEq ι] {s s' : Waiters ι}

namespace Reaping

section
variable (h : s.Reaping) {phase : WaitPhase} {i : ι}
include h

/-- A call moves: what it watches it watched before, and it takes nothing new. -/
theorem setCall (hre : phase.reaps) (hwa : ∀ c ∈ phase.watched, c ∈ (s.calls i).watched)
    (htk : ∀ c, phase.taken = some c → (s.calls i).taken = some c) : (s.setCall i phase).Reaping := by
  have hold : ∀ j, ∀ c ∈ ((s.setCall i phase).calls j).watched, c ∈ (s.calls j).watched := fun j c hc => by
    by_cases hji : j = i
    · subst hji
      exact hwa c (by simpa [Waiters.setCall] using hc)
    · simpa [Waiters.setCall, hji] using hc
  have hold' : ∀ j c, ((s.setCall i phase).calls j).taken = some c → (s.calls j).taken = some c := by
    intro j c hc
    obtain ⟨rfl, hnew⟩ | ⟨_, heq⟩ := update_map_cases WaitPhase.taken hc
    · exact htk c hnew
    · exact heq
  exact {h with
    watched := fun j c hc => h.watched j c (hold j c hc)
    reaps := fun j => by
      by_cases hji : j = i
      · simpa [Waiters.setCall, hji] using hre
      · simpa [Waiters.setCall, hji] using h.reaps j
    alone := fun j k c hj hk => h.alone j k c (hold j c hj) (hold k c hk)
    taken := fun j c hj => h.taken j c (hold' j c hj)
    one := fun j k c hj hk => h.one j k c (hold' j c hj) (hold' k c hk)}

/-- A call begins on a snapshot that nobody watches. -/
theorem call (hre : phase.reaps)
    (hmap : ∀ c ∈ phase.watched, c ∈ s.children) (htk : phase.taken = none)
    (hal : ∀ j, ∀ c ∈ phase.watched, c ∉ (s.calls j).watched) : (s.setCall i phase).Reaping := by
  have hcs : ∀ j, ∀ c ∈ ((s.setCall i phase).calls j).watched,
      j = i ∧ c ∈ phase.watched ∨ j ≠ i ∧ c ∈ (s.calls j).watched := fun j c hc => by
    by_cases hji : j = i
    · exact .inl ⟨hji, by simpa [Waiters.setCall, hji] using hc⟩
    · exact .inr ⟨hji, by simpa [Waiters.setCall, hji] using hc⟩
  have hold : ∀ j c, ((s.setCall i phase).calls j).taken = some c → (s.calls j).taken = some c := by
    intro j c hc
    obtain ⟨_, hnew⟩ | ⟨_, heq⟩ := update_map_cases WaitPhase.taken hc
    · cases htk.symm.trans hnew
    · exact heq
  refine {h with
    watched := fun j c hc => ?_
    reaps := fun j => ?_
    alone := fun j k c hj hk => ?_
    taken := fun j c hj => h.taken j c (hold j c hj)
    one := fun j k c hj hk => h.one j k c (hold j c hj) (hold k c hk)}
  · obtain ⟨_, hnew⟩ | ⟨_, heq⟩ := hcs j c hc
    · exact hmap c hnew
    · exact h.watched j c heq
  · by_cases hji : j = i
    · simpa [Waiters.setCall, hji] using hre
    · simpa [Waiters.setCall, hji] using h.reaps j
  · rcases hcs j c hj with ⟨hji, hnew⟩ | ⟨_, hj⟩ <;> rcases hcs k c hk with ⟨hki, hnew'⟩ | ⟨_, hk⟩
    · exact hji.trans hki.symm
    · exact absurd hk (hal k c hnew)
    · exact absurd hj (hal j c hnew')
    · exact h.alone j k c hj hk

/-- A call frees the child it has found, which nobody else watches. -/
theorem free {opts : WaitOptions} {c : Pid} (hph : s.calls i = .found opts c) : ({s with
      children := s.children.filter (· ≠ c)
      frees := Function.update s.frees c (s.frees c + 1)}.setCall i (.reaped c)).Reaping := by
  have hmi : c ∈ (s.calls i).watched := by simp [hph, WaitPhase.watched]
  have hz : s.frees c = 0 := h.kept c (h.watched i c hmi)
  have hfr : ∀ o, o ≠ c → Function.update s.frees c (s.frees c + 1) o = s.frees o :=
    fun o hne => Function.update_of_ne hne ..
  have hse : Function.update s.frees c (s.frees c + 1) c = 1 := by simp [hz]
  have hmap : ∀ o, o ∈ s.children.filter (· ≠ c) ↔ o ∈ s.children ∧ o ≠ c := by simp
  have hno : ∀ j, (s.calls j).taken ≠ some c := fun j hj => by
    have := h.taken j c hj
    rw [hz] at this
    cases this
  have hwa : ∀ j, ∀ o ∈ (Function.update s.calls i (.reaped c) j).watched,
      j ≠ i ∧ o ∈ (s.calls j).watched := fun j o ho => by
    by_cases hji : j = i
    · simp [hji, WaitPhase.watched] at ho
    · exact ⟨hji, by simpa [hji] using ho⟩
  refine ⟨fun o ho => h.known o ((hmap o).mp ho).1, fun o ho => ?_, fun o ho => ?_,
    fun j o hj => ?_, fun j => ?_, fun j k o hj hk => h.alone j k o (hwa j o hj).2 (hwa k o hk).2,
    fun j o hj => ?_, fun j k o hj hk => ?_, fun o => ?_⟩
  · have hne : o ≠ c := fun heq => by
      have := h.known c (h.watched i c hmi)
      rw [← heq] at this
      cases this.symm.trans ho
    exact (hfr o hne).trans (h.fresh o ho)
  · obtain ⟨hin, hne⟩ := (hmap o).mp ho
    exact (hfr o hne).trans (h.kept o hin)
  · obtain ⟨hji, hold⟩ := hwa j o hj
    have hne : o ≠ c := fun heq => hji (h.alone j i c (heq ▸ hold) hmi)
    exact (hmap o).mpr ⟨h.watched j o hold, hne⟩
  · by_cases hji : j = i
    · simp [Waiters.setCall, hji, WaitPhase.reaps]
    · simpa [Waiters.setCall, hji] using h.reaps j
  · obtain ⟨_, hnew⟩ | ⟨_, hold⟩ := update_map_cases WaitPhase.taken hj
    · cases hnew
      exact hse
    · have hne : o ≠ c := fun heq => hno j (heq ▸ hold)
      exact (hfr o hne).trans (h.taken j o hold)
  · rcases update_map_cases WaitPhase.taken hj with ⟨hji, hnew⟩ | ⟨_, hold⟩ <;>
      obtain ⟨hki, hnew'⟩ | ⟨_, hold'⟩ := update_map_cases WaitPhase.taken hk
    · exact hji.trans hki.symm
    · cases hnew
      exact absurd hold' (hno k)
    · cases hnew'
      exact absurd hold (hno j)
    · exact h.one j k o hold hold'
  · show Function.update s.frees c (s.frees c + 1) o ≤ 1
    by_cases hne : o = c
    · rw [hne, hse]
    · rw [hfr o hne]
      exact h.atMost o

theorem step {l : WaitLabel ι} (hal : Alone l s) (hst : machine.step l s = some s') :
    s'.Reaping := by
  cases l with
  | fork c cloneChild =>
    obtain ⟨hnew, hn⟩ := Option.ite_none_left_eq_some.mp hst
    cases hn
    have hnew : s.known c = false := Bool.eq_false_iff.mpr hnew
    refine {h with
      known := fun o ho => ?_
      fresh := fun o ho => ?_
      kept := fun o ho => ?_
      watched := fun i o ho => (List.mem_orderedInsert _).mpr (.inr (h.watched i o ho))}
    · by_cases heq : o = c
      · simp [heq]
      · simpa [heq] using h.known o (((List.mem_orderedInsert _).mp ho).resolve_left heq)
    · by_cases heq : o = c
      · simp [heq] at ho
      · exact h.fresh o (by simpa [heq] using ho)
    · obtain rfl | hold := (List.mem_orderedInsert _).mp ho
      · exact h.fresh o hnew
      · exact h.kept o hold
  | exit c code =>
    obtain ⟨_, hn⟩ := Option.ite_none_right_eq_some.mp hst
    cases hn
    exact {h with}
  | setpgid c pgid =>
    cases hst
    exact {h with}
  | call i pid opts =>
    obtain ⟨_, hn⟩ := Option.ite_none_right_eq_some.mp hst
    cases hn
    refine h.call hal.1 (fun c hc => ?_) ?_ hal.2
    · unfold Waiters.begin at hc
      split at hc
      · cases hc
      · split at hc
        · cases hc
        · exact List.mem_of_mem_filter (List.mem_of_mem_filter hc)
    · unfold Waiters.begin
      split
      · rfl
      · split <;> rfl
  | scan i =>
    simp only [machine, Waiters.step] at hst
    split at hst
    · next opts children hph =>
      have hre := h.reaps i
      rw [hph] at hre
      split at hst
      · next c hfi =>
        cases hst
        refine h.setCall hre (fun o ho => ?_) fun _ => nofun
        obtain rfl : o = c := by simpa [WaitPhase.watched] using ho
        rw [hph]
        exact List.mem_of_find?_eq_some hfi
      · split at hst <;> cases hst
        · exact h.setCall rfl nofun fun _ => nofun
        · exact h.setCall hre (fun _ ho => by rw [hph]; exact ho) fun _ => nofun
    · cases hst
  | wake i =>
    simp only [machine, Waiters.step] at hst
    split at hst
    · next opts children hph =>
      obtain ⟨_, hn⟩ := Option.ite_none_right_eq_some.mp hst
      cases hn
      have hre := h.reaps i
      rw [hph] at hre
      exact h.setCall hre (fun _ ho => by rw [hph]; exact ho) fun _ => nofun
    · cases hst
  | free i =>
    simp only [machine, Waiters.step] at hst
    split at hst
    · next opts c hph =>
      have hre := h.reaps i
      rw [hph] at hre
      have hfr : opts.contains WaitOptions.wnowait = false := by simpa [WaitPhase.reaps] using hre
      rw [if_neg (by simp [hfr])] at hst
      cases hst
      exact h.free hph
    · cases hst
  | write i fault =>
    simp only [machine, Waiters.step] at hst
    split at hst
    · next c hph =>
      split at hst <;> cases hst
      · exact h.setCall rfl nofun fun _ => nofun
      · refine h.setCall rfl nofun fun o ho => ?_
        rw [hph]
        exact ho
    · cases hst

end

end Reaping

omit [DecidableEq ι] in
theorem initial_reaping (pgid : Pid) : (initial pgid : Waiters ι).Reaping where
  known := nofun
  fresh := fun _ _ => rfl
  kept := nofun
  watched := nofun
  reaps := fun _ => rfl
  alone := nofun
  taken := nofun
  one := nofun
  atMost := fun _ => Nat.zero_le _

/-- **A child is reaped once** in every run in which no call begins to watch a child that another one
watches: it is freed at most once, and one call returns its status, having freed it. -/
theorem wait_reaps_once {pgid : Pid} {labels : List (WaitLabel ι)} (hal : machine.Meets Alone (initial pgid) labels)
    (hrun : machine.run (initial pgid) labels = some s) (child : Pid) :
    s.frees child ≤ 1 ∧
      (∀ i result code, s.calls i = .returned result (some (child, code)) → s.frees child = 1) ∧
      ∀ i j result result' code code', s.calls i = .returned result (some (child, code)) →
        s.calls j = .returned result' (some (child, code')) → i = j := by
  have h : s.Reaping := Machine.run_induct_under (fun _ s _ (h : s.Reaping) hlabel hst => h.step hlabel hst) labels
    (initial_reaping pgid) hal hrun
  have htk : ∀ i result code, s.calls i = .returned result (some (child, code)) → (s.calls i).taken = some child :=
    fun i result code hi => by rw [hi]; rfl
  exact ⟨h.atMost child, fun i result code hi => h.taken i child (htk i result code hi),
    fun i j result result' code code' hi hj => h.one i j child (htk i result code hi) (htk j result' code' hj)⟩

/-- Two threads wait for two children, each for its own. -/
def apart : List (WaitLabel Bool) :=
  [.fork 5 false, .fork 6 false, .call false 5 0, .call true 6 0, .exit 6 1, .exit 5 0, .scan true, .scan false,
    .free false, .free true, .write true none, .write false none]

theorem wait_reaps_once_apart : ∃ s : Waiters Bool, machine.run (initial 1) apart = some s ∧ s.frees 5 = 1 := by
  have hstate : (machine.run (initial 1) apart).map (fun s => s.calls false) = some (.returned (.ok 5) (some (5, 0))) := by
    decide +kernel
  obtain ⟨s, hrun, hph⟩ := Option.map_eq_some_iff.mp hstate
  exact ⟨s, hrun, (wait_reaps_once (by decide +kernel) hrun 5).2.1 false _ _ hph⟩

/-- Two threads wait for any child. -/
def together : List (WaitLabel Bool) :=
  [.fork 5 false, .call false (-1) 0, .call true (-1) 0, .exit 5 7, .scan false, .scan true, .free false, .free true,
    .write false none, .write true none]

/-- Both return the status of the one child, and both free it. -/
theorem reaped_twice : (machine.run (initial 1) together).map (fun s => (s.calls false, s.calls true, s.frees 5)) =
    some (.returned (.ok 5) (some (5, 7)), .returned (.ok 5) (some (5, 7)), 2) := by
  decide +kernel

end Waiters
end StarryX.Task
