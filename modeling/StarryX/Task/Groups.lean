import StarryX.Errno
import StarryX.Task.Tree

/-! Process groups and sessions.

Groups and sessions are objects that processes keep alive. `setsid` and `setpgid` make new
ones, and two tables of weak references find them by their number. Only `add_thread_to_table`
writes to the tables, when the first thread of a new process is added.

So a group that `setsid` or `setpgid` has made is in no table, at least until a process is
forked into it. `lookup_right_iff` says it exactly: in a run, the lookups are right in every
state if and only if no step makes a group. -/
namespace StarryX.Task
open Library
open Option (some.inj)

structure ProcessGroup where
  pgid : Pid
  session : Nat

/-- A process that has not been reaped. -/
structure GroupMember where
  group : Nat
  zombie : Bool

/-- Processes by number; group and session objects by identity, with the next fresh one. -/
structure Groups where
  nextPid : Pid
  nextGroup : Nat
  nextSession : Nat
  process : Pid → Option GroupMember
  group : Nat → ProcessGroup
  sid : Nat → Pid
  groupTable : Pid → Option Nat
  sessionTable : Pid → Option Nat

inductive GroupLabel where
  | fork (parent pid : Pid)
  | setsid (p : Pid)
  | setpgid (caller pid pgid : Pid)
  | exit (p : Pid)
  | reap (p : Pid)
  deriving DecidableEq

namespace Groups

/-- The group that a process keeps alive. -/
def groupOf (s : Groups) (p : Pid) : Option Nat := (s.process p).map (·.group)

def sessionOf (s : Groups) (p : Pid) : Option Nat := (s.groupOf p).map fun g => (s.group g).session

/-- A weak reference can be upgraded while a process keeps the object. -/
def groupAlive (s : Groups) (g : Nat) : Bool := decide (∃ p < s.nextPid, s.groupOf p = some g)

def sessionAlive (s : Groups) (x : Nat) : Bool := decide (∃ p < s.nextPid, s.sessionOf p = some x)

/-- What `PROCESS_GROUP_TABLE` finds. -/
def findGroup (s : Groups) (pgid : Pid) : Option Nat := (s.groupTable pgid).filter s.groupAlive

def findSession (s : Groups) (sid : Pid) : Option Nat := (s.sessionTable sid).filter s.sessionAlive

def getProcessGroup (s : Groups) (pgid : Pid) : LinuxResult Nat := (s.findGroup pgid).elim (.error .esrch) .ok

def getSession (s : Groups) (sid : Pid) : LinuxResult Nat := (s.findSession sid).elim (.error .esrch) .ok

/-- `get_process`; every process is in its table from its first thread on. -/
def getProcess (s : Groups) (caller pid : Pid) : LinuxResult Pid :=
  if pid = 2 ^ 32 - 1 then .error .einval
  else if pid = 0 then .ok caller
  else if (s.process pid).isSome then .ok pid
  else .error .esrch

/-- The end of `add_thread_to_table`, for the first thread of a process in group `g`. -/
def addToTables (s : Groups) (g : Nat) : Groups :=
  let pgid := (s.group g).pgid
  if (s.findGroup pgid).isSome then s
  else
    let s := {s with groupTable := Function.update s.groupTable pgid (some g)}
    let x := (s.group g).session
    if (s.findSession (s.sid x)).isSome then s
    else {s with sessionTable := Function.update s.sessionTable (s.sid x) (some x)}

def setGroup (s : Groups) (p : Pid) (member : GroupMember) (g : Nat) : Groups :=
  {s with process := Function.update s.process p (some {member with group := g})}

/-- `ProcessGroup::new` in the session `x`, and the move to it. -/
def createGroupIn (s : Groups) (p : Pid) (member : GroupMember) (x : Nat) : Groups :=
  {s with
    group := Function.update s.group s.nextGroup ⟨p, x⟩
    nextGroup := s.nextGroup + 1}.setGroup p member s.nextGroup

def createGroup (s : Groups) (p : Pid) (member : GroupMember) : Groups :=
  if (s.group member.group).pgid = p then s
  else s.createGroupIn p member (s.group member.group).session

def createSession (s : Groups) (p : Pid) (member : GroupMember) : Groups :=
  if s.sid (s.group member.group).session = p then s
  else
    {s with
      sid := Function.update s.sid s.nextSession p
      nextSession := s.nextSession + 1}.createGroupIn p member s.nextSession

def moveToGroup (s : Groups) (p : Pid) (member : GroupMember) (g : Nat) : Groups :=
  if member.group = g then s
  else if (s.group member.group).session ≠ (s.group g).session then s
  else s.setGroup p member g

def sysSetsid (s : Groups) (p : Pid) (member : GroupMember) : Groups :=
  if (s.group member.group).pgid = p then s else s.createSession p member

def sysSetpgid (s : Groups) (caller pid pgid : Pid) : Groups :=
  match s.getProcess caller pid with
  | .error _ => s
  | .ok p =>
    match s.process p with
    | none => s
    | some member =>
      if pgid = 0 then s.createGroup p member
      else
        match s.getProcessGroup pgid with
        | .error _ => s
        | .ok g => s.moveToGroup p member g

/-- A failed call changes nothing. -/
def step : GroupLabel → Groups → Option Groups
  | .fork parent pid, s =>
    match s.process parent with
    | some member =>
      if s.nextPid ≤ pid then
        let s := {s with process := Function.update s.process pid (some ⟨member.group, false⟩), nextPid := pid + 1}
        some (s.addToTables member.group)
      else none
    | none => none
  | .setsid p, s =>
    match s.process p with
    | some member => if member.zombie then none else some (s.sysSetsid p member)
    | none => none
  | .setpgid caller pid pgid, s =>
    match s.process caller with
    | some member => if member.zombie then none else some (s.sysSetpgid caller pid pgid)
    | none => none
  | .exit p, s =>
    match s.process p with
    | some member => some {s with process := Function.update s.process p (some {member with zombie := true})}
    | none => none
  | .reap p, s =>
    match s.process p with
    | some member => if member.zombie then some {s with process := Function.update s.process p none} else none
    | none => none

def machine : Machine Groups GroupLabel := ⟨step⟩

/-- The init process in a group and a session of its own, which are in the tables. -/
def initial (init : Pid) : Groups where
  nextPid := init + 1
  nextGroup := 1
  nextSession := 1
  process := fun p => if p = init then some ⟨0, false⟩ else none
  group := fun _ => ⟨init, 0⟩
  sid := fun _ => init
  groupTable := fun pgid => if pgid = init then some 0 else none
  sessionTable := fun sid => if sid = init then some 0 else none

/-- The lookups are right: a process's group and session are found under their numbers, and two groups
in use have different numbers. -/
structure Right (s : Groups) : Prop where
  group : ∀ p g, s.groupOf p = some g → s.getProcessGroup (s.group g).pgid = .ok g
  session : ∀ p x, s.sessionOf p = some x → s.getSession (s.sid x) = .ok x
  distinct : ∀ p q g g', s.groupOf p = some g → s.groupOf q = some g' → (s.group g).pgid = (s.group g').pgid → g = g'

/-- The call makes a group: it is made for a process that leads none, and by `setsid` no session either. -/
def creates (label : GroupLabel) (s : Groups) : Bool :=
  match label with
  | .setsid p => (s.process p).any fun member =>
    !member.zombie && (s.group member.group).pgid != p && s.sid (s.group member.group).session != p
  | .setpgid caller pid pgid =>
    pgid == 0 && (s.process caller).any (!·.zombie) &&
      match s.getProcess caller pid with
      | .ok p => (s.process p).any fun member => (s.group member.group).pgid != p
      | .error _ => false
  | _ => false

/-! ### What a step can do -/

/-- A process joins its parent's group. -/
def join (s : Groups) (pid : Pid) (g : Nat) : Groups :=
  {s with process := Function.update s.process pid (some ⟨g, false⟩), nextPid := pid + 1}

/-- What a step does, and whether it makes a group. -/
inductive Change (s : Groups) : Bool → Groups → Prop where
  | same : Change s false s
  | fork {parent pid : Pid} {member : GroupMember} (hpar : s.process parent = some member) (hpid : s.nextPid ≤ pid) :
      Change s false ((s.join pid member.group).addToTables member.group)
  | status {p : Pid} {member : GroupMember} {new : Option GroupMember} (hp : s.process p = some member)
      (hnew : ∀ m, new = some m → m.group = member.group) :
      Change s false {s with process := Function.update s.process p new}
  | move {p : Pid} {member : GroupMember} {g : Nat} (hp : s.process p = some member) (halive : s.groupAlive g = true) :
      Change s false (s.setGroup p member g)
  | create {p : Pid} {member : GroupMember} {sid : Nat → Pid} {nextSession x : Nat} (hp : s.process p = some member) :
      Change s true ({s with sid := sid, nextSession := nextSession}.createGroupIn p member x)

variable {s s' : Groups} {init : Pid}

/-- The tables get the group, or have one under its number. -/
theorem addToTables_cases (s : Groups) (g : Nat) : s.addToTables g = s ∨ ∃ sessionTable, s.addToTables g =
    {s with groupTable := Function.update s.groupTable (s.group g).pgid (some g), sessionTable := sessionTable} := by
  unfold addToTables
  dsimp only
  split
  · exact .inl rfl
  · split
    · exact .inr ⟨_, rfl⟩
    · exact .inr ⟨_, rfl⟩

variable {p : Pid}

theorem sysSetsid_change {m : GroupMember} (hp : s.process p = some m) :
    s.Change ((s.group m.group).pgid != p && s.sid (s.group m.group).session != p) (s.sysSetsid p m) := by
  unfold sysSetsid createSession
  by_cases hpg : (s.group m.group).pgid = p
  · rw [if_pos hpg, bne_eq_false_iff_eq.mpr hpg]
    exact .same
  · rw [if_neg hpg, bne_iff_ne.mpr hpg]
    by_cases hsi : s.sid (s.group m.group).session = p
    · rw [if_pos hsi, bne_eq_false_iff_eq.mpr hsi]
      exact .same
    · rw [if_neg hsi, bne_iff_ne.mpr hsi]
      exact .create hp

theorem groupAlive_of_getProcessGroup {pgid : Pid} {g : Nat} (hg : s.getProcessGroup pgid = .ok g) : s.groupAlive g := by
  unfold getProcessGroup at hg
  cases hfd : s.findGroup pgid with
  | none => exact nomatch hfd ▸ hg
  | some found =>
    rw [hfd] at hg
    obtain rfl := Except.ok.inj hg
    exact (Option.filter_eq_some_iff.mp hfd).2

theorem sysSetpgid_change {c : Pid} (hc : (s.process c).any (!·.zombie)) (pid pgid : Pid) :
    s.Change (creates (.setpgid c pid pgid) s) (s.sysSetpgid c pid pgid) := by
  unfold sysSetpgid creates
  cases hpr : s.getProcess c pid with
  | error e => simpa [hpr] using Change.same
  | ok p =>
    cases hp : s.process p with
    | none => simpa [hpr, hp] using Change.same
    | some member =>
      by_cases hze : pgid = 0
      · unfold createGroup
        by_cases hpg : (s.group member.group).pgid = p
        · simpa [hpr, hp, hze, hpg] using Change.same
        · simp only [hpr, hp, hze, if_pos, if_neg hpg, bne_iff_ne.mpr hpg, hc, beq_self_eq_true, Option.any_some, Bool.and_self]
          exact .create hp
      · simp only [hp, if_neg hze, beq_eq_false_iff_ne.mpr hze, Bool.false_and]
        split
        · exact .same
        · next g hg =>
          unfold moveToGroup
          split_ifs
          · exact .same
          · exact .same
          · exact .move hp (groupAlive_of_getProcessGroup hg)

theorem step_change {l : GroupLabel} (hst : machine.step l s = some s') : s.Change (creates l s) s' := by
  cases l with
  | fork parent pid =>
    simp only [machine, step] at hst
    split at hst
    · next member hpar =>
      obtain ⟨hpid, hn⟩ := Option.ite_none_right_eq_some.mp hst
      cases hn
      exact .fork hpar hpid
    · cases hst
  | setsid p =>
    simp only [machine, step] at hst
    split at hst
    · next member hp =>
      obtain ⟨hz, hn⟩ := Option.ite_none_left_eq_some.mp hst
      simpa [creates, hp, hz, some.inj hn] using sysSetsid_change hp
    · cases hst
  | setpgid c pid pgid =>
    simp only [machine, step] at hst
    split at hst
    · next member hc =>
      obtain ⟨hz, hn⟩ := Option.ite_none_left_eq_some.mp hst
      exact some.inj hn ▸ sysSetpgid_change (by simpa [hc] using hz) pid pgid
    · cases hst
  | exit p =>
    simp only [machine, step] at hst
    split at hst
    · next member hp =>
      cases hst
      exact .status hp fun m hm => by rw [← some.inj hm]
    · cases hst
  | reap p =>
    simp only [machine, step] at hst
    split at hst
    · next member hp =>
      obtain ⟨_, hn⟩ := Option.ite_none_right_eq_some.mp hst
      cases hn
      exact .status hp fun _ => nofun
    · cases hst

/-! ### Without new groups -/

/-- Everything is in the first group and session, and they are in the tables. -/
structure Single (init : Pid) (s : Groups) : Prop where
  range : ∀ p, s.groupOf p ≠ none → p < s.nextPid
  only : ∀ p g, s.groupOf p = some g → g = 0
  group : s.group 0 = ⟨init, 0⟩
  sid : s.sid 0 = init
  groupTable : s.groupTable init = some 0
  sessionTable : s.sessionTable init = some 0

variable {new : Option GroupMember} {g : Nat}

namespace Single

section
variable (h : s.Single init)
include h

theorem groupAlive (hp : s.groupOf p = some g) : s.groupAlive 0 := by
  obtain rfl := h.only p g hp
  exact decide_eq_true ⟨p, h.range p (by simp [hp]), hp⟩

theorem findGroup (hp : s.groupOf p = some g) : s.findGroup init = some 0 :=
  Option.filter_eq_some_iff.mpr ⟨h.groupTable, h.groupAlive hp⟩

theorem right : s.Right where
  group := fun p g hp => by
    obtain rfl := h.only p g hp
    rw [h.group, getProcessGroup, h.findGroup hp]
    rfl
  session := fun p x hx => by
    obtain ⟨g, hp, hg⟩ := Option.map_eq_some_iff.mp hx
    obtain rfl := h.only p g hp
    rw [h.group] at hg
    obtain rfl := hg
    have hal : s.sessionAlive 0 := decide_eq_true ⟨p, h.range p (by simp [hp]), hx⟩
    have hfd : s.findSession init = some 0 := Option.filter_eq_some_iff.mpr ⟨h.sessionTable, hal⟩
    rw [h.sid, getSession, hfd]
    rfl
  distinct := fun p q g g' hp hq _ => (h.only p g hp).trans (h.only q g' hq).symm

/-- The tables already have the group of a new process. -/
theorem addToTables (hp : s.groupOf p = some 0) : s.addToTables 0 = s := by
  simp [Groups.addToTables, h.group, h.findGroup hp]

theorem join {pid : Pid} (hpid : s.nextPid ≤ pid) : (s.join pid 0).Single init where
  range := fun p hp => by
    by_cases heq : p = pid
    · exact heq ▸ Nat.lt_succ_self p
    · have hold : s.groupOf p ≠ none := by simpa [Groups.join, groupOf, heq] using hp
      exact Nat.lt_succ_of_lt ((h.range p hold).trans_le hpid)
  only := fun p g hp => by
    by_cases heq : p = pid
    · simpa [Groups.join, groupOf, heq, eq_comm] using hp
    · exact h.only p g (by simpa [Groups.join, groupOf, heq] using hp)
  __ := h

/-- A process that exists changes, and stays in the group. -/
theorem update {member : GroupMember} (hp : s.process p = some member)
    (hnew : ∀ m, new = some m → m.group = 0) : {s with process := Function.update s.process p new}.Single init := by
  have hcs : ∀ q g, ({s with process := Function.update s.process p new}).groupOf q = some g →
      g = 0 ∧ s.groupOf q ≠ none := fun q g hq => by
    by_cases heq : q = p
    · subst heq
      obtain ⟨m, hm, rfl⟩ := Option.map_eq_some_iff.mp hq
      exact ⟨hnew m (by simpa using hm), by simp [groupOf, hp]⟩
    · have hold : s.groupOf q = some g := by simpa [groupOf, heq] using hq
      exact ⟨h.only q g hold, by simp [hold]⟩
  refine {h with
    range := fun q hq => ?_
    only := fun q g hq => (hcs q g hq).1}
  obtain ⟨g, hg⟩ := Option.ne_none_iff_exists'.mp hq
  exact h.range q (hcs q g hg).2

theorem change (hchg : s.Change false s') : s'.Single init := by
  have hz : ∀ p member, s.process p = some member → member.group = 0 :=
    fun p member hp => h.only p _ (by simp [groupOf, hp])
  cases hchg with
  | same => exact h
  | @fork parent pid member hpar hpid =>
    have hjo := h.join hpid
    rw [hz parent member hpar, hjo.addToTables (show (s.join pid 0).groupOf pid = some 0 by
      simp [groupOf, Groups.join])]
    exact hjo
  | @status p member new hp hnew =>
    exact h.update hp fun m hm => (hnew m hm).trans (hz p member hp)
  | @move p member g hp halive =>
    obtain ⟨q, _, hq⟩ := of_decide_eq_true halive
    obtain rfl := h.only q g hq
    refine h.update hp fun m hm => ?_
    rw [← some.inj hm]

end

end Single

theorem initial_single (init : Pid) : (initial init).Single init where
  range := fun p hp => by
    by_cases heq : p = init
    · exact heq ▸ Nat.lt_succ_self p
    · simp [groupOf, initial, heq] at hp
  only := fun p g hp => by
    by_cases heq : p = init
    · simpa [groupOf, initial, heq, eq_comm] using hp
    · simp [groupOf, initial, heq] at hp
  group := rfl
  sid := rfl
  groupTable := if_pos rfl
  sessionTable := if_pos rfl

/-! ### A new group is in no table -/

/-- The tables and the processes know only groups that exist. -/
structure Old (s : Groups) : Prop where
  table : ∀ pgid g, s.groupTable pgid = some g → g < s.nextGroup
  member : ∀ p g, s.groupOf p = some g → g < s.nextGroup

namespace Old

theorem addToTables (h : s.Old) (hg : g < s.nextGroup) : (s.addToTables g).Old := by
  have hta : ∀ pgid g', Function.update s.groupTable (s.group g).pgid (some g) pgid = some g' → g' < s.nextGroup := by
    intro pgid g' hg'
    obtain ⟨_, hnew⟩ | ⟨_, hold⟩ := update_cases hg'
    · exact some.inj hnew ▸ hg
    · exact h.table pgid g' hold
  obtain heq | ⟨sessionTable, hnew⟩ := s.addToTables_cases g
  · exact heq.symm ▸ h
  · exact hnew.symm ▸ ⟨hta, h.member⟩

/-- A process changes to a group that exists. -/
theorem update (h : s.Old) (hnew : ∀ m, new = some m → m.group < s.nextGroup) :
    ∀ q g, (Function.update s.process p new q).map (·.group) = some g → g < s.nextGroup := fun q g hq => by
  obtain ⟨_, hg⟩ | ⟨_, hold⟩ := update_map_cases (Option.map GroupMember.group) hq
  · obtain ⟨m, hm, rfl⟩ := Option.map_eq_some_iff.mp hg
    exact hnew m hm
  · exact h.member q g hold

theorem change {creates : Bool} (h : s.Old) (hchg : s.Change creates s') : s'.Old := by
  have hold : ∀ p member, s.process p = some member → member.group < s.nextGroup :=
    fun p member hp => h.member p _ (by simp [groupOf, hp])
  cases hchg with
  | same => exact h
  | @fork parent pid member hpar hpid =>
    have hjo : (s.join pid member.group).Old :=
      ⟨h.table, h.update fun m hm => by rw [← some.inj hm]; exact hold parent member hpar⟩
    exact hjo.addToTables (hold parent member hpar)
  | @status p member new hp hnew => exact ⟨h.table, h.update fun m hm => hnew m hm ▸ hold p member hp⟩
  | @move p member g hp halive =>
    obtain ⟨q, _, hq⟩ := of_decide_eq_true halive
    exact ⟨h.table, h.update fun m hm => by rw [← some.inj hm]; exact h.member q g hq⟩
  | @create p member sid nextSession x hp =>
    refine ⟨fun pgid g hg => Nat.lt_succ_of_lt (h.table pgid g hg), fun q g hq => ?_⟩
    obtain ⟨_, hg⟩ | ⟨_, hg⟩ := update_map_cases (Option.map GroupMember.group) hq
    · exact some.inj hg ▸ Nat.lt_succ_self s.nextGroup
    · exact Nat.lt_succ_of_lt (h.member q g hg)

/-- A step that makes a group does not end in a right state: the lookup of the new one is wrong. -/
theorem not_right (h : s.Old) (hchg : s.Change true s') : ¬ s'.Right := by
  intro hr
  cases hchg with
  | @create p m sid nextSession x hp =>
    have hgr := hr.group p s.nextGroup (by simp [createGroupIn, setGroup, groupOf])
    unfold getProcessGroup at hgr
    generalize hfd : Groups.findGroup _ _ = found at hgr
    cases found with
    | none => cases hgr
    | some g =>
      obtain rfl := Except.ok.inj hgr
      exact absurd (h.table _ _ (Option.filter_eq_some_iff.mp hfd).1) (Nat.lt_irrefl _)

end Old

theorem initial_old (init : Pid) : (initial init).Old := by
  refine ⟨fun pgid g hg => ?_, fun p g hp => (initial_single init).only p g hp ▸ Nat.one_pos⟩
  obtain ⟨-, hg⟩ := Option.ite_none_right_eq_some.mp hg
  exact some.inj hg ▸ Nat.one_pos

theorem creates_of_none {l : GroupLabel} (hno : machine.step l s = none) : creates l s = false := by
  cases l with
  | setsid p => cases hp : s.process p <;> simp_all [machine, step, creates]
  | setpgid c pid pgid => cases hp : s.process c <;> simp_all [machine, step, creates]
  | fork parent pid => rfl
  | exit p => rfl
  | reap p => rfl

/-- **Lookups are right exactly without new groups**: in a run from the init process, every process
finds its own group and session in every state, and groups in use have different numbers, if and only
if no step of the run makes a group. -/
theorem lookup_right_iff (init : Pid) (labels : List GroupLabel) :
    machine.Always Right (initial init) labels ↔ machine.Meets (fun label s => creates label s = false) (initial init) labels := by
  constructor
  · refine @Machine.meets_of_always _ _ machine Old Right _ _ (fun _ _ _ h hst => h.change (step_change hst))
      (fun _ _ => creates_of_none) (fun label s s' h hst hr => ?_) labels (initial_old init)
    have hchg := step_change hst
    cases hcr : creates label s with
    | false => rfl
    | true => exact absurd hr (h.not_right (hcr ▸ hchg))
  · refine @Machine.always_of_meets _ _ machine (Single init) Right _ _ (fun label s s' h hok hst => ?_)
      (fun _ h => h.right) labels (initial_single init)
    exact h.change (hok ▸ step_change hst)

/-- Process 2 becomes the leader of a session. -/
def newSession : List GroupLabel := [.fork 1 2, .setsid 2]

/-- Its group and its session are found nowhere. -/
theorem session_not_found : (machine.run (initial 1) newSession).map (fun s =>
      ((s.groupOf 2).map fun g => (s.group g).pgid, s.getProcessGroup 2, s.getSession 2)) =
    some (some 2, .error .esrch, .error .esrch) := by
  decide +kernel

end Groups
end StarryX.Task
