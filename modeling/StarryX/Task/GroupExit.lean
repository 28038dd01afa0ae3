import StarryX.Library.Machine

/-! Exiting as a group.

In `do_exit` a thread stores its code in the record of its group and leaves it, and one that called
`exit_group` marks the group only after that; codes are no longer stored once the group is marked.
`group_status` says in which runs the first `exit_group` decides what `wait4` reports, and in
`group_status_lost` another thread exits between the two steps. -/
namespace StarryX.Task
open Library

/-- How far a thread is in `do_exit`; `last` if it left no other behind. -/
inductive LeavePhase where
  | running
  | exiting (code : Int32) (group : Bool)
  | exited (group last : Bool)
  | marking (group : Bool)
  | gone
  deriving DecidableEq

namespace LeavePhase

/-- `Thread::exit` is done. -/
def stored : LeavePhase → Bool
  | running | exiting _ _ => false
  | _ => true

def group : LeavePhase → Bool
  | exiting _ group | exited group _ | marking group => group
  | _ => false

end LeavePhase

/-- The threads of a process and what they share; `leader` is who called `exit_group` first, and its code. -/
structure ThreadGroup (ι : Type) where
  phase : ι → LeavePhase
  exitCode : Int32
  groupExited : Bool
  isZombie : Bool
  leader : Option (ι × Int32)

/-- `sys_exit_group(c)` is `doExit` with `c << 8` and `group`. -/
inductive ExitLabel (ι : Type) where
  | doExit (i : ι) (code : Int32) (group : Bool)
  | step (i : ι)

namespace ThreadGroup
variable {ι : Type} [Fintype ι] [DecidableEq ι]

def step : ExitLabel ι → ThreadGroup ι → Option (ThreadGroup ι)
  | .doExit i code group, s =>
    if s.phase i = .running then some {s with
      phase := Function.update s.phase i (.exiting code group)
      leader := if group = true ∧ s.leader = none then some (i, code) else s.leader}
    else none
  | .step i, s => match s.phase i with
    | .exiting code group => some {s with
      phase := Function.update s.phase i (.exited group (decide (∀ j, j ≠ i → (s.phase j).stored = true)))
      exitCode := if s.groupExited then s.exitCode else code}
    | .exited group last => some {s with
      phase := Function.update s.phase i (.marking group)
      isZombie := s.isZombie || last}
    | .marking group => some {s with
      phase := Function.update s.phase i .gone
      groupExited := s.groupExited || group}
    | _ => none

def machine : Machine (ThreadGroup ι) (ExitLabel ι) := ⟨step⟩

def initial : ThreadGroup ι := ⟨fun _ => .running, 0, false, false, none⟩

/-- Nobody stores another code between the leader's two steps, and nobody marks the group before them. -/
def fine : ExitLabel ι → ThreadGroup ι → Bool
  | .doExit _ _ _, _ => true
  | .step j, s => match s.leader, s.phase j with
    | some (i, code), .exiting other _ => i == j || !(s.phase i).stored || s.groupExited || other == code
    | some (i, _), .marking group => i == j || !group || (s.phase i).stored
    | _, _ => true

/-- What the threads know of the leader. -/
structure Led (s : ThreadGroup ι) : Prop where
  first : s.leader = none → s.groupExited = false ∧ ∀ i, (s.phase i).group = false
  decides : ∀ i code, s.leader = some (i, code) → (s.phase i).stored → s.exitCode = code
  leads : ∀ i code, s.leader = some (i, code) → (s.phase i).stored = false →
    s.groupExited = false ∧ s.phase i = .exiting code true

/-- The process is a zombie, or the last thread makes it one, just if all have left. -/
structure Counted (s : ThreadGroup ι) : Prop where
  last : ∀ i group, s.phase i = .exited group true → ∀ j, (s.phase j).stored
  zombie : s.isZombie → ∀ j, (s.phase j).stored
  left : (∀ j, (s.phase j).stored) → s.isZombie ∨ ∃ j group, s.phase j = .exited group true

omit [Fintype ι] [DecidableEq ι] in
theorem initial_counted (i : ι) : (initial : ThreadGroup ι).Counted := ⟨nofun, nofun, fun h => nomatch h i⟩

variable {s t : ThreadGroup ι} {i : ι}

omit [Fintype ι] in
/-- A thread that does not store its code, and is not on its way to make the process a zombie, changes nothing here. -/
theorem Counted.moves (h : s.Counted) {phase : LeavePhase} (ht : t.phase = Function.update s.phase i phase)
    (hz : t.isZombie = s.isZombie) (hst : phase.stored = (s.phase i).stored) (hi : ∀ group, s.phase i ≠ .exited group true)
    (hp : ∀ group, phase ≠ .exited group true) : t.Counted := by
  have hstored : ∀ j, (t.phase j).stored = (s.phase j).stored := ht ▸ update_map_eq LeavePhase.stored hst
  have hlast : ∀ j group, t.phase j = .exited group true ↔ s.phase j = .exited group true :=
    fun j group => ht ▸ update_eq_iff_of_ne (hi group) (hp group)
  refine ⟨fun j group => ?_, ?_, ?_⟩
  · simpa only [hlast, hstored] using h.last j group
  · simpa only [hz, hstored] using h.zombie
  · simpa only [hz, hlast, hstored] using h.left

/-- `Thread::exit`. -/
theorem Counted.leaves (h : s.Counted) {code : Int32} {group : Bool} (hi : s.phase i = .exiting code group)
    (ht : t.phase = Function.update s.phase i (.exited group (decide (∀ j, j ≠ i → (s.phase j).stored = true))))
    (hz : t.isZombie = s.isZombie) : t.Counted := by
  have hnot : ¬∀ j, (s.phase j).stored := fun hall => by simpa [hi, LeavePhase.stored] using hall i
  have hself : (t.phase i).stored := by rw [ht, Function.update_self]; rfl
  have hother : ∀ j, j ≠ i → t.phase j = s.phase j := fun j hji => by rw [ht, Function.update_of_ne hji]
  refine ⟨fun j g hj => ?_, fun hzo => absurd (h.zombie (hz ▸ hzo)) hnot, fun hall => .inr ⟨i, group, ?_⟩⟩
  · by_cases hji : j = i
    · rw [hji, ht, Function.update_self, LeavePhase.exited.injEq, decide_eq_true_eq] at hj
      intro k
      by_cases hki : k = i
      · exact hki ▸ hself
      · exact hother k hki ▸ hj.2 k hki
    · exact absurd (h.last j g (hother j hji ▸ hj)) hnot
  · rw [ht, Function.update_self, decide_eq_true fun j hji => hother j hji ▸ hall j]

omit [Fintype ι] in
theorem Counted.becomes_zombie (h : s.Counted) {group group' : Bool} (hi : s.phase i = .exited group true)
    (ht : t.phase = Function.update s.phase i (.marking group')) (hz : t.isZombie = true) : t.Counted := by
  have hst : ∀ j, (t.phase j).stored = (s.phase j).stored := ht ▸ update_map_eq LeavePhase.stored (hi ▸ rfl)
  have hall : ∀ j, (t.phase j).stored := fun j => (hst j).trans (h.last i group hi j)
  exact ⟨fun _ _ _ => hall, fun _ => hall, fun _ => .inl hz⟩

theorem Counted.step (l : ExitLabel ι) (s t : ThreadGroup ι) (h : s.Counted) (hst : machine.step l s = some t) :
    t.Counted := by
  cases l with
  | doExit i code group =>
    obtain ⟨hi, heq⟩ := Option.ite_none_right_eq_some.mp hst
    cases heq
    exact h.moves rfl rfl (hi ▸ rfl) (hi ▸ nofun) nofun
  | step i =>
    simp only [machine, ThreadGroup.step] at hst
    split at hst <;> cases hst
    case h_1 hi => exact h.leaves hi rfl rfl
    case h_2 last hi =>
      cases last with
      | false => exact h.moves rfl (Bool.or_false _) (hi ▸ rfl) (hi ▸ nofun) nofun
      | true => exact h.becomes_zombie hi rfl (Bool.or_true _)
    case h_3 hi => exact h.moves rfl rfl (hi ▸ rfl) (hi ▸ nofun) nofun

omit [Fintype ι] in
theorem Led.doExit (h : s.Led) {code : Int32} {group : Bool} (hi : s.phase i = .running)
    (ht : t.phase = Function.update s.phase i (.exiting code group)) (hec : t.exitCode = s.exitCode)
    (hge : t.groupExited = s.groupExited)
    (hle : t.leader = if group = true ∧ s.leader = none then some (i, code) else s.leader) : t.Led := by
  -- The leader is not the thread that has just begun, unless it leads now.
  have hold : ∀ j c, s.leader = some (j, c) → t.phase j = s.phase j := fun j c hj => by
    rw [ht, Function.update_of_ne]
    rintro rfl
    exact nomatch hi.symm.trans (h.leads j c hj (hi ▸ rfl)).2
  by_cases hg : group = true ∧ s.leader = none
  · rw [if_pos hg] at hle
    refine ⟨fun hno => absurd (hle.symm.trans hno) nofun, fun j c hj hst => ?_, fun j c hj _ => ?_⟩ <;> cases hle.symm.trans hj
    · rw [ht, Function.update_self] at hst
      cases hst
    · rw [ht, Function.update_self, hg.1, hge]
      exact ⟨(h.first hg.2).1, rfl⟩
  · rw [if_neg hg] at hle
    refine ⟨fun hno => ⟨hge ▸ (h.first (hle ▸ hno)).1, fun j => Bool.eq_false_iff.mpr fun hj => ?_⟩,
      fun j c hj hst => ?_, fun j c hj hst => ?_⟩
    · rw [hle] at hno
      rw [ht] at hj
      rcases update_map_cases LeavePhase.group hj with ⟨-, hgr⟩ | ⟨-, hj⟩
      · exact hg ⟨hgr, hno⟩
      · exact nomatch ((h.first hno).2 j).symm.trans hj
    all_goals rw [hle] at hj; rw [hold j c hj] at hst
    · exact hec.trans (h.decides j c hj hst)
    · rw [hge, hold j c hj]
      exact h.leads j c hj hst

omit [Fintype ι] in
/-- A step of a thread that has stored its code with it. What it may do to the code and the mark is said for the leader, for
a leader that has stored its code, and for one that has not. -/
theorem Led.moves (h : s.Led) {phase : LeavePhase} (ht : t.phase = Function.update s.phase i phase)
    (hle : t.leader = s.leader) (hgr : phase.group → (s.phase i).group) (hst : phase.stored)
    (hno : s.leader = none → t.groupExited = s.groupExited) (hself : ∀ code, s.leader = some (i, code) → t.exitCode = code)
    (hcode : ∀ j code, s.leader = some (j, code) → j ≠ i → (s.phase j).stored → t.exitCode = s.exitCode ∨ t.exitCode = code)
    (hmark : ∀ j code, s.leader = some (j, code) → j ≠ i → (s.phase j).stored = false → t.groupExited = s.groupExited) :
    t.Led := by
  have hother : ∀ j, j ≠ i → t.phase j = s.phase j := fun j hji => by rw [ht, Function.update_of_ne hji]
  refine ⟨fun hnone => ?_, fun j code hj hsj => ?_, fun j code hj hsj => ?_⟩ <;> rw [hle] at *
  · obtain ⟨hnge, hngr⟩ := h.first hnone
    refine ⟨(hno hnone).trans hnge, fun j => Bool.eq_false_iff.mpr fun hj => ?_⟩
    rw [ht] at hj
    rcases update_map_cases LeavePhase.group hj with ⟨-, hp⟩ | ⟨-, hj⟩
    · exact nomatch (hngr i).symm.trans (hgr hp)
    · exact nomatch (hngr j).symm.trans hj
  · by_cases hji : j = i
    · exact hself code (hji ▸ hj)
    · rw [hother j hji] at hsj
      exact (hcode j code hj hji hsj).elim (·.trans (h.decides j code hj hsj)) id
  · have hji : j ≠ i := by
      rintro rfl
      rw [ht, Function.update_self, hst] at hsj
      cases hsj
    rw [hother j hji] at hsj ⊢
    rw [hmark j code hj hji hsj]
    exact h.leads j code hj hsj

theorem Led.step (l : ExitLabel ι) (s t : ThreadGroup ι) (h : s.Led) (hfi : fine l s)
    (hst : machine.step l s = some t) : t.Led := by
  cases l with
  | doExit i code group =>
    obtain ⟨hi, heq⟩ := Option.ite_none_right_eq_some.mp hst
    cases heq
    exact h.doExit hi rfl rfl rfl rfl
  | step i =>
    simp only [machine, ThreadGroup.step] at hst
    split at hst <;> cases hst
    case h_1 code group hi =>
      refine h.moves rfl rfl (by rw [hi]; exact id) rfl (fun _ => rfl) (fun c hc => ?_) (fun j c hc hji hsj => ?_)
        fun _ _ _ _ _ => rfl
      · obtain ⟨hge, hph⟩ := h.leads i c hc (hi ▸ rfl)
        cases hi.symm.trans hph
        rw [hge]
        rfl
      · -- `fine` leaves the code to the leader, unless it can no longer be changed or is the leader's own.
        simp only [fine, hc, hi, hsj, Bool.not_true, Bool.or_false, Bool.or_eq_true, beq_iff_eq] at hfi
        rcases hfi with (hij | hge) | hco
        · exact absurd hij hji
        · exact .inl (if_pos hge)
        · rw [hco]
          exact (ite_eq_or_eq ..).imp id id
    case h_2 hi =>
      exact h.moves rfl rfl (by rw [hi]; exact id) rfl (fun _ => rfl) (fun c hc => h.decides i c hc (hi ▸ rfl))
        (fun _ _ _ _ _ => .inl rfl) fun _ _ _ _ _ => rfl
    case h_3 group hi =>
      refine h.moves rfl rfl nofun rfl (fun hno => ?_) (fun c hc => h.decides i c hc (hi ▸ rfl))
        (fun _ _ _ _ _ => .inl rfl) fun j c hc hji hsj => ?_
      · have hg := (h.first hno).2 i
        rw [hi] at hg
        exact (congrArg _ hg).trans (Bool.or_false _)
      · -- and the mark, until the leader has stored its code.
        simp only [fine, hc, hi, hsj, Bool.or_false, Bool.or_eq_true, beq_iff_eq, Bool.not_eq_true'] at hfi
        rw [hfi.resolve_left hji]
        exact Bool.or_false _

/-- **The first `exit_group` decides the status**, in every run in which nobody stores another code between its two steps
and nobody marks the group before them. -/
theorem group_status (labels : List (ExitLabel ι)) (hfi : machine.Meets (fun label s => fine label s = true) initial labels)
    (hrun : machine.run initial labels = some s) (hz : s.isZombie = true) {i : ι} {code : Int32}
    (hl : s.leader = some (i, code)) : s.exitCode = code := by
  have hled : s.Led := Machine.run_induct_under Led.step labels
    ⟨fun _ => ⟨rfl, fun _ => rfl⟩, by simp [initial], by simp [initial]⟩ hfi hrun
  have hcount : s.Counted := Machine.run_induct Counted.step labels (initial_counted i) hrun
  exact hled.decides i code hl (hcount.zombie hz i)

/-- Thread `false` calls `exit_group(7)` and marks the group, and thread `true` exits with 1. -/
def marked : List (ExitLabel Bool) :=
  [.doExit false 0x700 true, .doExit true 0x100 false, .step false, .step false, .step false, .step true, .step true]

theorem group_status_marked : ∃ s : ThreadGroup Bool, machine.run initial marked = some s ∧
    s.isZombie = true ∧ s.exitCode = 0x700 :=
  ⟨_, rfl, rfl, group_status marked (by decide) rfl rfl rfl⟩

/-- Thread `true` exits before the group is marked. -/
theorem group_status_lost : (machine.run (initial : ThreadGroup Bool) [.doExit false 0x700 true,
    .doExit true 0x100 false, .step false, .step true, .step true]).map (fun s => (s.isZombie, s.leader, s.exitCode)) =
      some (true, some (false, 0x700), 0x100) := by
  decide +kernel

/-- **A process becomes a zombie with its last thread**. -/
theorem zombie_at_last (i : ι) (labels : List (ExitLabel ι)) : machine.Always Counted (initial : ThreadGroup ι) labels :=
  Machine.always_of_meets (fun l s t h _ => Counted.step l s t h) (fun _ h => h) labels (initial_counted i)
    (Machine.meets_trivial _ _)

end ThreadGroup
end StarryX.Task
