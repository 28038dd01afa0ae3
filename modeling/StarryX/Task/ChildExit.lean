import StarryX.Task.Tree

/-! Sleeping for a child.

`sys_wait4` takes its children once, and looks for a zombie among them until it finds one; in between it sleeps in
`child_exit_wq`. A child that exits marks itself a zombie, then reads who its parent is, and then wakes the parent's queue.
`wait_wakes` says that nobody sleeps over a zombie in runs in which no child that a call asks for joins the process during
the call; in `wait_sleeps_on` one does. -/
namespace StarryX.Task
open Library

/-- How far a process is in `do_exit`; `here` if the parent that it read is the one that waits. -/
inductive ExitStage where
  | alive
  | zombie
  | announcing (here : Bool)
  | done
  deriving DecidableEq

/-- A call of `sys_wait4`: whom it asks for, and the children that it took. -/
inductive SleepPhase where
  | ready
  | scanning (wants : Pid → Bool) (children : List Pid)
  | checking (wants : Pid → Bool) (children : List Pid)
  | asleep (wants : Pid → Bool) (children : List Pid)

namespace SleepPhase

def taken : SleepPhase → Option ((Pid → Bool) × List Pid)
  | ready => none
  | scanning wants children | checking wants children | asleep wants children => some (wants, children)

def woken : SleepPhase → SleepPhase
  | asleep wants children => checking wants children
  | phase => phase

variable (phase : SleepPhase)

theorem taken_woken : phase.woken.taken = phase.taken := by cases phase <;> rfl

theorem woken_ne (wants : Pid → Bool) (cs : List Pid) : phase.woken ≠ .asleep wants cs := by
  cases phase <;> simp [woken]

end SleepPhase

/-- The children of a process, who has it as its parent, and its calls. -/
structure Household (ι : Type) where
  children : List Pid
  linked : Pid → Bool
  stage : Pid → ExitStage
  calls : ι → SleepPhase

/-- A child joins by a fork of another thread, or as an orphan. `keep` is `WNOWAIT`. -/
inductive SleepLabel (ι : Type) where
  | join (child : Pid)
  | exit (child : Pid)
  | readParent (child : Pid)
  | notify (child : Pid)
  | call (i : ι) (wants : Pid → Bool)
  | scan (i : ι) (keep : Bool)
  | check (i : ι)

namespace Household
variable {ι : Type} [DecidableEq ι]

def step : SleepLabel ι → Household ι → Option (Household ι)
  | .join child, s =>
    if s.linked child then none
    else some {s with
      linked := Function.update s.linked child true
      children := s.children.orderedInsert (· ≤ ·) child}
  | .exit child, s => if s.stage child = .alive then some {s with stage := Function.update s.stage child .zombie} else none
  | .readParent child, s =>
    if s.stage child = .zombie then some {s with stage := Function.update s.stage child (.announcing (s.linked child))} else none
  | .notify child, s => match s.stage child with
    | .announcing here => some {s with
      stage := Function.update s.stage child .done
      calls := fun i => if here then (s.calls i).woken else s.calls i}
    | _ => none
  | .call i wants, s => match s.calls i with
    | .ready => if s.children.filter wants = [] then some s
      else some {s with calls := Function.update s.calls i (.scanning wants (s.children.filter wants))}
    | _ => none
  | .scan i keep, s => match s.calls i with
    | .scanning wants children => match children.find? fun child => s.stage child ≠ .alive with
      | some child => some {s with
        children := if keep then s.children else s.children.filter (· ≠ child)
        calls := Function.update s.calls i .ready}
      | none => some {s with calls := Function.update s.calls i (.checking wants children)}
    | _ => none
  -- `wait_until` looks again under the lock of the queue.
  | .check i, s => match s.calls i with
    | .checking wants children =>
      if children.any fun child => s.stage child ≠ .alive then some {s with calls := Function.update s.calls i (.scanning wants children)}
      else some {s with calls := Function.update s.calls i (.asleep wants children)}
    | _ => none

def machine : Machine (Household ι) (SleepLabel ι) := ⟨step⟩

def initial : Household ι := ⟨[], fun _ => false, fun _ => .alive, fun _ => .ready⟩

/-- No child joins that a call asks for. -/
def Fine : SleepLabel ι → Household ι → Prop
  | .join child, s => ∀ i wants children, (s.calls i).taken = some (wants, children) → wants child = false
  | _, _ => True

/-- The process is alive, or it has exited and is on its way to wake the queue. -/
def Announced (s : Household ι) (child : Pid) : Prop :=
  s.stage child = .alive ∨ s.stage child = .zombie ∧ s.linked child = true ∨ s.stage child = .announcing true

structure Watched (s : Household ι) : Prop where
  linked : ∀ child ∈ s.children, s.linked child = true
  taken : ∀ i wants children, (s.calls i).taken = some (wants, children) → ∀ child ∈ children, s.linked child = true
  complete : ∀ i wants children, (s.calls i).taken = some (wants, children) →
    ∀ child ∈ s.children, wants child = true → child ∈ children
  asleep : ∀ i wants children, s.calls i = .asleep wants children → ∀ child ∈ children, s.Announced child

namespace Watched
variable {s t : Household ι} {i : ι}

omit [DecidableEq ι] in
theorem join (h : s.Watched) {c : Pid} (hfi : ∀ i wants cs, (s.calls i).taken = some (wants, cs) → wants c = false) :
    Watched {s with
      linked := Function.update s.linked c true
      children := s.children.orderedInsert (· ≤ ·) c} := by
  have hmono : ∀ child, s.linked child = true → Function.update s.linked c true child = true :=
    fun child hc => update_eq_self_iff.mpr (.inr hc)
  refine ⟨fun child hc => ?_, fun i wants cs hi child hc => hmono child (h.taken i wants cs hi child hc),
    fun i wants cs hi child hc hw => ?_, fun i wants cs hi child hc => ?_⟩
  · rcases (List.mem_orderedInsert _).mp hc with rfl | hc
    · exact Function.update_self ..
    · exact hmono child (h.linked child hc)
  · rcases (List.mem_orderedInsert _).mp hc with rfl | hc
    · exact nomatch (hfi i wants cs hi).symm.trans hw
    · exact h.complete i wants cs hi child hc hw
  · exact (h.asleep i wants cs hi child hc).imp_right (.imp_left (.imp_right (hmono child)))

omit [DecidableEq ι] in
theorem linked_of_asleep (h : s.Watched) {wants : Pid → Bool} {cs : List Pid} (hi : s.calls i = .asleep wants cs) {c : Pid}
    (hc : c ∈ cs) : s.linked c = true :=
  h.taken i wants cs (by rw [hi]; rfl) c hc

omit [DecidableEq ι] in
/-- A child exits, and what a sleeping call took stays announced. -/
theorem exits (h : s.Watched) {stage : Pid → ExitStage} {calls : ι → SleepPhase}
    (hta : ∀ i, (calls i).taken = (s.calls i).taken)
    (has : ∀ i wants cs, calls i = .asleep wants cs → s.calls i = .asleep wants cs ∧
      ∀ c ∈ cs, s.linked c = true → s.Announced c → Announced {s with stage, calls} c) :
    Watched {s with stage, calls} := by
  refine ⟨h.linked, fun i wants cs hi => h.taken i wants cs (hta i ▸ hi), fun i wants cs hi => h.complete i wants cs (hta i ▸ hi),
    fun i wants cs hi c hc => ?_⟩
  obtain ⟨hold, hkeep⟩ := has i wants cs hi
  exact hkeep c hc (h.linked_of_asleep hold hc) (h.asleep i wants cs hold c hc)

/-- A call goes on: what it has taken is complete, and if it sleeps all of that is alive. -/
theorem goes (h : s.Watched) {phase : SleepPhase} {children : List Pid} (hch : ∀ c ∈ children, c ∈ s.children)
    (hta : ∀ wants cs, phase.taken = some (wants, cs) →
      (∀ c ∈ cs, s.linked c = true) ∧ ∀ c ∈ s.children, wants c = true → c ∈ cs)
    (has : ∀ wants cs, phase = .asleep wants cs → ∀ c ∈ cs, s.stage c = .alive) :
    Watched {s with children, calls := Function.update s.calls i phase} := by
  refine ⟨fun c hc => h.linked c (hch c hc), fun j wants cs hj => ?_, fun j wants cs hj c hc => ?_, fun j wants cs hj => ?_⟩
  · rcases update_map_cases SleepPhase.taken hj with ⟨-, hp⟩ | ⟨-, hj⟩
    · exact (hta wants cs hp).1
    · exact h.taken j wants cs hj
  · rcases update_map_cases SleepPhase.taken hj with ⟨-, hp⟩ | ⟨-, hj⟩
    · exact (hta wants cs hp).2 c (hch c hc)
    · exact h.complete j wants cs hj c (hch c hc)
  · rcases update_cases hj with ⟨-, hp⟩ | ⟨-, hj⟩
    · exact fun c hc => .inl (has wants cs hp c hc)
    · exact h.asleep j wants cs hj

/-- The same for a call that keeps what it has taken. -/
theorem keeps (h : s.Watched) {phase : SleepPhase} {wants : Pid → Bool} {cs : List Pid}
    (hi : (s.calls i).taken = some (wants, cs)) (hta : phase.taken = some (wants, cs))
    (has : ∀ wants cs, phase = .asleep wants cs → ∀ c ∈ cs, s.stage c = .alive) :
    Watched {s with calls := Function.update s.calls i phase} :=
  h.goes (fun _ => id) (fun _ _ hp => by cases hta.symm.trans hp; exact ⟨h.taken i wants cs hi, h.complete i wants cs hi⟩) has

theorem step (l : SleepLabel ι) (s t : Household ι) (h : s.Watched) (hfi : Fine l s)
    (hst : machine.step l s = some t) : t.Watched := by
  cases l with
  | join c =>
    obtain ⟨-, heq⟩ := Option.ite_none_left_eq_some.mp hst
    cases heq
    exact h.join hfi
  | exit c =>
    obtain ⟨hc, heq⟩ := Option.ite_none_right_eq_some.mp hst
    cases heq
    refine h.exits (fun _ => rfl) fun i wants cs hi => ⟨hi, fun child _ hl han => ?_⟩
    grind [Announced]
  | readParent c =>
    obtain ⟨hc, heq⟩ := Option.ite_none_right_eq_some.mp hst
    cases heq
    refine h.exits (fun _ => rfl) fun i wants cs hi => ⟨hi, fun child _ hl han => ?_⟩
    grind [Announced]
  | notify c =>
    simp only [machine, Household.step] at hst
    split at hst <;> cases hst
    case h_1 here hc =>
    refine h.exits (fun i => ?_) fun i wants cs hi => ?_
    · cases here
      · rfl
      · exact SleepPhase.taken_woken _
    · cases here with
      | true => exact absurd hi (SleepPhase.woken_ne _ wants cs)
      | false =>
        refine ⟨hi, fun child _ hl han => ?_⟩
        grind [Announced]
  | call i wants =>
    simp only [machine, Household.step] at hst
    split at hst
    case h_2 => cases hst
    split at hst <;> cases hst
    · exact h
    · refine h.goes (fun _ => id) (fun _ _ hp => ?_) nofun
      cases hp
      exact ⟨fun c hc => h.linked c (List.mem_filter.mp hc).1, fun c hc hw => List.mem_filter.mpr ⟨hc, hw⟩⟩
  | scan i keep =>
    simp only [machine, Household.step] at hst
    split at hst
    case h_2 => cases hst
    case h_1 hi =>
    split at hst <;> cases hst
    · refine h.goes (fun c hc => ?_) nofun nofun
      cases keep
      · exact (List.mem_filter.mp hc).1
      · exact hc
    · exact h.keeps (by rw [hi]; rfl) rfl nofun
  | check i =>
    simp only [machine, Household.step] at hst
    split at hst
    case h_2 => cases hst
    case h_1 hi =>
    split_ifs at hst with hany <;> cases hst
    · exact h.keeps (by rw [hi]; rfl) rfl nofun
    · refine h.keeps (by rw [hi]; rfl) rfl fun _ _ hp c hc => ?_
      cases hp
      simpa using fun hal => hany (List.any_eq_true.mpr ⟨c, hc, decide_eq_true hal⟩)

end Watched

/-- **Nobody sleeps over a zombie** in runs in which no child joins that a call asks for: a child of the process that a
sleeping call asks for is alive, or is on its way to wake it. -/
theorem wait_wakes (labels : List (SleepLabel ι)) (hfi : machine.Meets Fine initial labels) {s : Household ι}
    (hrun : machine.run initial labels = some s) (i : ι) (wants : Pid → Bool) (children : List Pid)
    (hi : s.calls i = .asleep wants children) (child : Pid) (hc : child ∈ s.children) (hw : wants child = true) :
    s.Announced child := by
  have h : s.Watched := Machine.run_induct_under Watched.step labels
    ⟨by simp [initial], by simp [initial, SleepPhase.taken], by simp [initial], by simp [initial]⟩ hfi hrun
  exact h.asleep i wants children hi child (h.complete i wants children (by rw [hi]; rfl) child hc hw)

/-- A call takes child 5 and goes to sleep. -/
def sleeper : List (SleepLabel Unit) := [.join 5, .call () fun _ => true, .scan () false, .check ()]

theorem wait_wakes_five : ∃ s : Household Unit, machine.run initial (sleeper ++ [.exit 5]) = some s ∧
    s.stage 5 = .zombie ∧ s.Announced 5 := by
  refine ⟨_, rfl, rfl, wait_wakes (sleeper ++ [.exit 5]) ?_ rfl () (fun _ => true) [5] rfl 5 (.head _) rfl⟩
  simp [sleeper, Machine.Meets, Fine, initial, SleepPhase.taken]

/-- Child 6 joins and exits while the call sleeps. -/
theorem wait_sleeps_on : ∃ s : Household Unit,
    machine.run initial (sleeper ++ [.join 6, .exit 6, .readParent 6, .notify 6, .check ()]) = some s ∧
      s.calls () = .asleep (fun _ => true) [5] ∧ 6 ∈ s.children ∧ ¬ s.Announced 6 := by
  refine ⟨_, rfl, rfl, ?_, ?_⟩
  · decide
  · simp [Announced]

end Household
end StarryX.Task
