import StarryX.Library.Machine

/-! The process tree.

A process keeps its children alive in a map and names its parent by a weak reference. `fork`
chooses the parent of a new process, `build` puts it into the parent's map, and `exit` gives
the children of a process to the nearest ancestor that takes them: it holds the lock of its
own map, and walks up from its parent, one candidate's lock at a time. `free` reads the parent
and then removes the process from its map. All of these are steps of `ProcessTree.machine`, so
other processes come in between.

`process_tree` is what the tree keeps to as long as nothing is built under a process that has
exited, and nothing is freed before its exit has finished. A walk that nobody changed the tree
under ends at the nearest live subreaper, or at init. -/
namespace StarryX.Task
open Library
open Function (update_of_ne)
open Option (ite_none_right_eq_some)

abbrev Pid := Nat

/-- Where `exit` is. `clean` says that no other process has changed the tree since it began. -/
inductive ExitPhase where
  | running
  | begun (clean : Bool)
  | walking (ancestor : Option Pid) (clean : Bool)
  | failed (candidate : Pid) (clean : Bool)
  | done
  deriving DecidableEq

namespace ExitPhase

/-- `exit` has the lock of the process's own children. -/
def locked : ExitPhase → Bool
  | .begun _ | .walking .. | .failed .. => true
  | .running | .done => false

/-- The process that the walk has a reference to. -/
def holds : ExitPhase → Option Pid
  | .walking ancestor _ => ancestor
  | .failed candidate _ => some candidate
  | .running | .begun _ | .done => none

def stale : ExitPhase → ExitPhase
  | .begun _ => .begun false
  | .walking ancestor _ => .walking ancestor false
  | .failed candidate _ => .failed candidate false
  | phase => phase

end ExitPhase

/-- Every process by its number. `built` says which exist; `builders` are the new processes with the
parent that `fork` chose, `freeing` the calls of `free` that have read the parent. A dropped process
has no references left. -/
structure ProcessTree where
  init : Pid
  next : Pid
  built : Pid → Bool
  zombie : Pid → Bool
  subreaper : Pid → Bool
  parent : Pid → Option Pid
  children : Pid → Pid → Bool
  phase : Pid → ExitPhase
  freed : Pid → Bool
  dropped : Pid → Bool
  builders : List (Pid × Pid)
  freeing : List (Pid × Pid)

inductive TreeLabel where
  | fork (p pid : Pid)
  | build (pid p : Pid)
  | setChildSubreaper (p : Pid) (enabled : Bool)
  | exit (p : Pid)
  | look (p : Pid)
  | visit (p : Pid)
  | climb (p : Pid)
  | freeLook (p : Pid)
  | freeRemove (p parent : Pid)
  | drop (p : Pid)
  deriving DecidableEq

/-- The search of `exit`, from the candidate `ancestor` on. -/
inductive NearestReaper (init : Pid) (accepts : Pid → Bool) (parent : Pid → Option Pid) : Option Pid → Pid → Prop where
  | orphan : NearestReaper init accepts parent none init
  | here {a : Pid} (h : accepts a = true) : NearestReaper init accepts parent (some a) a
  | above {a r : Pid} (h : accepts a = false) (hrs : NearestReaper init accepts parent (parent a) r) :
      NearestReaper init accepts parent (some a) r

/-- Following parents leads to init. -/
inductive ReachesInit (init : Pid) (parent : Pid → Option Pid) : Pid → Prop where
  | init : ReachesInit init parent init
  | up {p q : Pid} (h : parent p = some q) (hrs : ReachesInit init parent q) : ReachesInit init parent p

namespace ProcessTree

/-- `Process::parent`: the weak reference, if the parent is still there. -/
def getParent (s : ProcessTree) (p : Pid) : Option Pid := (s.parent p).filter (!s.dropped ·)

/-- Whether the walk stops at a candidate. -/
def accepts (s : ProcessTree) (a : Pid) : Bool := a == s.init || (s.subreaper a && !s.zombie a)

/-- The nearest live subreaper above, or init. -/
def Nearest (s : ProcessTree) : Option Pid → Pid → Prop := NearestReaper s.init s.accepts s.getParent

/-- The children map of `p` can be locked by others. -/
def unlocked (s : ProcessTree) (p : Pid) : Bool := !(s.phase p).locked

/-- One process moves, and the walks of the others are no longer undisturbed. -/
def disturb (s : ProcessTree) (p : Pid) (phase : ExitPhase) : ProcessTree :=
  {s with phase := fun q => if q = p then phase else (s.phase q).stale}

def setPhase (s : ProcessTree) (p : Pid) (phase : ExitPhase) : ProcessTree :=
  {s with phase := Function.update s.phase p phase}

/-- All children of `p` move to `reaper`. -/
def adopt (s : ProcessTree) (p reaper : Pid) : ProcessTree :=
  {s with
    parent := fun c => if s.children p c then some reaper else s.parent c
    children := fun q c =>
      if q = p then false else if q = reaper then s.children reaper c || s.children p c else s.children q c}

def build (s : ProcessTree) (pid p : Pid) : ProcessTree :=
  {s with
    built := Function.update s.built pid true
    parent := Function.update s.parent pid (some p)
    children := fun q c => (q == p && c == pid) || s.children q c
    builders := s.builders.erase (pid, p)}

/-- Nobody has a strong reference to `p`. -/
def unreferenced (s : ProcessTree) (p : Pid) : Bool :=
  decide (∀ q < s.next, s.children q p = false ∧ (s.phase q).holds ≠ some p) &&
    s.builders.all (·.2 != p) && s.freeing.all (·.2 != p)

def step : TreeLabel → ProcessTree → Option ProcessTree
  | .fork p pid, s =>
    if s.built p ∧ s.dropped p = false ∧ s.next ≤ pid then
      some {s with builders := (pid, p) :: s.builders, next := pid + 1}
    else none
  | .build pid p, s => if (pid, p) ∈ s.builders ∧ s.unlocked p then some (s.build pid p) else none
  | .setChildSubreaper p enabled, s =>
    if s.built p ∧ s.phase p = .running then
      some ({s with subreaper := Function.update s.subreaper p enabled}.disturb p .running)
    else none
  | .exit p, s =>
    if s.built p ∧ p ≠ s.init ∧ s.phase p = .running then
      some ({s with zombie := Function.update s.zombie p true}.disturb p (.begun true))
    else none
  | .look p, s =>
    match s.phase p with
    | .begun clean => some (s.setPhase p (.walking (s.getParent p) clean))
    | _ => none
  | .visit p, s =>
    match s.phase p with
    | .walking ancestor clean =>
      let candidate := ancestor.getD s.init
      if s.unlocked candidate then
        if s.accepts candidate then some ((s.adopt p candidate).disturb p .done)
        else some (s.setPhase p (.failed candidate clean))
      else none
    | _ => none
  | .climb p, s =>
    match s.phase p with
    | .failed candidate clean => some (s.setPhase p (.walking (s.getParent candidate) clean))
    | _ => none
  | .freeLook p, s =>
    if s.built p ∧ s.zombie p then
      match s.getParent p with
      | none => some {s with freed := Function.update s.freed p true}
      | some q => some {s with freeing := (p, q) :: s.freeing}
    else none
  | .freeRemove p q, s =>
    if (p, q) ∈ s.freeing ∧ s.unlocked q then
      some {s with
        children := Function.update s.children q (Function.update (s.children q) p false)
        freed := Function.update s.freed p true
        freeing := s.freeing.erase (p, q)}
    else none
  | .drop p, s =>
    if s.freed p ∧ s.phase p = .done ∧ s.unreferenced p then
      some ({s with dropped := Function.update s.dropped p true}.disturb p .done)
    else none

def machine : Machine ProcessTree TreeLabel := ⟨step⟩

/-- Only the init process. -/
def initial (init : Pid) : ProcessTree where
  init := init
  next := init + 1
  built := fun p => p == init
  zombie := fun _ => false
  subreaper := fun _ => false
  parent := fun _ => none
  children := fun _ _ => false
  phase := fun _ => .running
  freed := fun _ => false
  dropped := fun _ => false
  builders := []
  freeing := []

/-- A process is built under a parent that has not exited, and freed when its exit has finished. -/
def Fair : TreeLabel → ProcessTree → Prop
  | .build _ p, s => s.zombie p = false
  | .freeLook p, s => s.phase p = .done
  | _, _ => True

instance (label : TreeLabel) (s : ProcessTree) : Decidable (Fair label s) := by
  cases label <;> unfold Fair <;> infer_instance

end ProcessTree

/-! ### The shape of the tree -/

variable {phase : ExitPhase}

namespace ExitPhase

@[simp] theorem stale_eq_running : phase.stale = .running ↔ phase = .running := by
  cases phase <;> simp [stale]

@[simp] theorem stale_eq_done : phase.stale = .done ↔ phase = .done := by
  cases phase <;> simp [stale]

@[simp] theorem holds_stale (phase : ExitPhase) : phase.stale.holds = phase.holds := by
  cases phase <;> rfl

end ExitPhase

variable {p pid init : Pid} {label : TreeLabel}

open ProcessTree (accepts getParent setPhase step)

namespace ProcessTree
variable {s s' : ProcessTree}

/-- What holds of a tree. Parents have smaller numbers, and a process is only in its parent's map. -/
structure Sound (s : ProcessTree) : Prop where
  root : s.built s.init = true ∧ s.phase s.init = .running
  range : ∀ p, s.built p = true → s.init ≤ p ∧ p < s.next
  absent : ∀ p, s.built p = false → s.parent p = none ∧ s.phase p = .running ∧ s.freed p = false
  zombie : ∀ p, s.zombie p = true ↔ s.phase p ≠ .running
  linked : ∀ q c, s.children q c = true → s.parent c = some q
  older : ∀ p q, s.parent p = some q → s.built q = true ∧ q < p
  kept : ∀ p, s.built p = true → p ≠ s.init → s.freed p = false → ∃ q, s.parent p = some q ∧ s.children q p = true
  empty : ∀ p, s.phase p = .done → ∀ c, s.children p c = false
  freed : ∀ p, s.freed p = true → s.phase p = .done
  dropped : ∀ p, s.dropped p = true → s.freed p = true
  walk : ∀ p a, (s.phase p).holds = some a → s.built a = true ∧ a < p
  builders : ∀ b ∈ s.builders, s.built b.1 = false ∧ s.init ≤ b.1 ∧ b.1 < s.next ∧ s.built b.2 = true ∧ b.2 < b.1
  fresh : (s.builders.map Prod.fst).Nodup
  freeing : ∀ f ∈ s.freeing, s.phase f.1 = .done

theorem initial_sound (init : Pid) : (initial init).Sound where
  root := by simp [initial]
  range := fun p hp => by
    obtain rfl : p = init := by simpa [initial] using hp
    exact ⟨le_rfl, Nat.lt_succ_self _⟩
  absent := fun _ _ => ⟨rfl, rfl, rfl⟩
  zombie := fun _ => by simp [initial]
  linked := nofun
  older := nofun
  kept := fun p hp hne => absurd (by simpa [initial] using hp) hne
  empty := nofun
  freed := nofun
  dropped := nofun
  walk := nofun
  builders := nofun
  fresh := List.nodup_nil
  freeing := nofun

namespace Sound

variable {q : Pid}

section
variable (h : s.Sound)
include h

/-- Nothing is in the map of a process that does not exist, and nothing that does not exist is in one. -/
theorem child_built {c : Pid} (hc : s.children q c) : s.built c := by
  cases hbt : s.built c
  · have hpar := h.linked q c hc
    rw [(h.absent c hbt).1] at hpar
    cases hpar
  · rfl

theorem unique {r c : Pid} (hq : s.children q c) (hr : s.children r c) : q = r :=
  Option.some.inj ((h.linked q c hq).symm.trans (h.linked r c hr))

/-- The phases change, but no exit is taken back. -/
theorem rephase {zombie : Pid → Bool} {phase : Pid → ExitPhase} (hzo : ∀ q, zombie q ↔ phase q ≠ .running)
    (hid : ∀ q, q = s.init ∨ s.built q = false → s.phase q = .running → phase q = .running)
    (hd : ∀ q, s.phase q = .done → phase q = .done) (he : ∀ q, phase q = .done → ∀ c, s.children q c = false)
    (hwa : ∀ q a, (phase q).holds = some a → s.built a ∧ a < q) :
    {s with zombie := zombie, phase := phase}.Sound :=
  {h with
    root := ⟨h.root.1, hid _ (.inl rfl) h.root.2⟩
    absent := fun p hp => ⟨(h.absent p hp).1, hid p (.inr hp) (h.absent p hp).2.1, (h.absent p hp).2.2⟩
    zombie := hzo
    empty := he
    freed := fun p hp => hd p (h.freed p hp)
    walk := hwa
    freeing := fun f hf => hd _ (h.freeing f hf)}

/-- One process moves, and the walks of the others are no longer undisturbed. -/
theorem disturb (zombie : Pid → Bool) (ho : ∀ q, q ≠ p → zombie q = s.zombie q)
    (hse : zombie p ↔ phase ≠ .running)
    (hid : p = s.init ∨ s.built p = false → s.phase p = .running → phase = .running)
    (hd : s.phase p = .done → phase = .done) (he : phase = .done → ∀ c, s.children p c = false)
    (hho : phase.holds = none) : ({s with zombie := zombie}.disturb p phase).Sound := by
  refine h.rephase (fun q => ?_) (fun q => ?_) (fun q => ?_) (fun q => ?_) fun q a hq => ?_
  all_goals by_cases hqp : q = p
  · simpa [hqp] using hse
  · simpa [hqp, ho q hqp] using h.zombie q
  · simpa [hqp] using hid
  · simp [hqp]
  · simpa [hqp] using hd
  · simp [hqp]
  · simpa [hqp] using he
  · simpa [hqp] using h.empty q
  · simp [hqp, hho] at hq
  · exact h.walk q a (by simpa [hqp] using hq)

/-- A process moves within its exit. -/
theorem setPhase (hold : (s.phase p).locked) (hnew : phase.locked)
    (hho : ∀ a, phase.holds = some a → s.built a ∧ a < p) : (s.setPhase p phase).Sound := by
  have hlk : ∀ o : ExitPhase, o.locked → o ≠ .running ∧ o ≠ .done := fun o ho => by
    cases o <;> simp_all [ExitPhase.locked]
  refine h.rephase (fun q => ?_) (fun q => ?_) (fun q => ?_) (fun q => ?_) fun q a hq => ?_
  all_goals by_cases hqp : q = p
  · simp [hqp, hlk _ hnew, h.zombie, hlk _ hold]
  · simpa [hqp] using h.zombie q
  · simp [hqp, hlk _ hold]
  · simp [hqp]
  · simp [hqp, hlk _ hold]
  · simp [hqp]
  · simp [hqp, hlk _ hnew]
  · simpa [hqp] using h.empty q
  · exact hqp ▸ hho a (by simpa [hqp] using hq)
  · exact h.walk q a (by simpa [hqp] using hq)

theorem fork (hp : s.built p) (hpid : s.next ≤ pid) :
    {s with builders := (pid, p) :: s.builders, next := pid + 1}.Sound := by
  have hlo : ∀ q, q < s.next → q < pid := fun q hq => hq.trans_le hpid
  have hgr : ∀ q, q < s.next → q < pid + 1 := fun q hq => Nat.lt_succ_of_lt (hlo q hq)
  have hnew : s.built pid = false := by
    cases hbt : s.built pid
    · rfl
    · exact absurd (hlo pid (h.range pid hbt).2) (Nat.lt_irrefl pid)
  refine {h with
    range := fun q hq => ⟨(h.range q hq).1, hgr q (h.range q hq).2⟩
    builders := fun b hb => ?_
    fresh := List.nodup_cons.mpr ⟨fun hmem => ?_, h.fresh⟩}
  · obtain rfl | hb := List.mem_cons.mp hb
    · exact ⟨hnew, (hlo _ (h.range s.init h.root.1).2).le, Nat.lt_succ_self pid, hp,
        hlo p (h.range p hp).2⟩
    · obtain ⟨habs, hin, hlt, hrs⟩ := h.builders b hb
      exact ⟨habs, hin, hgr _ hlt, hrs⟩
  · obtain ⟨b, hb, heq⟩ := List.mem_map.mp hmem
    exact (hlo b.1 (h.builders b hb).2.2.1).ne heq

/-- A process is built under a parent that has not exited. -/
theorem build (hbld : (pid, p) ∈ s.builders) (hpar : s.phase p = .running) :
    (s.build pid p).Sound := by
  obtain ⟨habs, hin, hlt, hbt, holder⟩ := h.builders _ hbld
  have hbu : ∀ q, (s.build pid p).built q ↔ q = pid ∨ s.built q := fun q => by
    by_cases hq : q = pid <;> simp [ProcessTree.build, hq]
  have hpa : ∀ q, q ≠ pid → (s.build pid p).parent q = s.parent q := fun q hq => update_of_ne hq ..
  have hpr : (s.build pid p).parent pid = some p := Function.update_self ..
  have hch : ∀ q c, (s.build pid p).children q c ↔ q = p ∧ c = pid ∨ s.children q c := fun q c => by
    simp [ProcessTree.build]
  refine {h with
    root := ⟨(hbu _).mpr (.inr h.root.1), h.root.2⟩
    range := fun q hq => ?_
    absent := fun q hq => ?_
    linked := fun q c hc => ?_
    older := fun q r hq => ?_
    kept := fun q hq hne hfe => ?_
    empty := fun q hq c => ?_
    walk := fun q a hq => ⟨(hbu a).mpr (.inr (h.walk q a hq).1), (h.walk q a hq).2⟩
    builders := fun b hb => ?_
    fresh := h.fresh.sublist (List.erase_sublist.map _)}
  · obtain rfl | hq := (hbu q).mp hq
    · exact ⟨hin, hlt⟩
    · exact h.range q hq
  · have hne : q ≠ pid := fun heq => by simp [(hbu q).mpr (.inl heq)] at hq
    have hold : s.built q = false := by
      cases hold : s.built q
      · rfl
      · simp [(hbu q).mpr (.inr hold)] at hq
    exact ⟨(hpa q hne).trans (h.absent q hold).1, (h.absent q hold).2⟩
  · obtain ⟨rfl, rfl⟩ | hc := (hch q c).mp hc
    · exact hpr
    · have hne : c ≠ pid := fun heq => by
        have := h.child_built hc
        rw [heq, habs] at this
        cases this
      exact (hpa c hne).trans (h.linked q c hc)
  · by_cases hne : q = pid
    · subst hne
      cases hpr.symm.trans hq
      exact ⟨(hbu _).mpr (.inr hbt), holder⟩
    · obtain ⟨hr, hlt⟩ := h.older q r ((hpa q hne).symm.trans hq)
      exact ⟨(hbu r).mpr (.inr hr), hlt⟩
  · obtain rfl | hq := (hbu q).mp hq
    · exact ⟨p, hpr, (hch p q).mpr (.inl ⟨rfl, rfl⟩)⟩
    · obtain ⟨r, hr, hc⟩ := h.kept q hq hne hfe
      have hne : q ≠ pid := fun heq => by rw [heq, habs] at hq; cases hq
      exact ⟨r, (hpa q hne).trans hr, (hch r q).mpr (.inr hc)⟩
  · cases hc : (s.build pid p).children q c
    · rfl
    · obtain ⟨rfl, _⟩ | hc := (hch q c).mp hc
      · cases hpar.symm.trans hq
      · rw [h.empty q hq c] at hc
        cases hc
  · obtain ⟨ho, hb⟩ := (List.Nodup.mem_erase_iff h.fresh.of_map).mp hb
    obtain ⟨hab', hin', hlt', hbu', holder'⟩ := h.builders b hb
    have hne : b.1 ≠ pid := mt (List.inj_on_of_nodup_map h.fresh hb hbld) ho
    exact ⟨(update_of_ne hne ..).trans hab', hin', hlt', (hbu _).mpr (.inr hbu'), holder'⟩

/-- The children move to a process that is older and running. -/
theorem adopt {reaper : Pid} (hbt : s.built reaper) (holder : reaper < p)
    (hru : s.phase reaper = .running) : (s.adopt p reaper).Sound := by
  have hmv : ∀ q c, s.children q c → q ≠ p → s.children p c = false := fun q c hc hqp =>
    Bool.eq_false_iff.mpr (mt (h.unique hc) hqp)
  refine {h with
    absent := fun q hq => ?_
    linked := fun q c hc => ?_
    older := fun c q hq => ?_
    kept := fun c hc hne hfe => ?_
    empty := fun q hq c => ?_}
  · obtain ⟨hpar, hrs⟩ := h.absent q hq
    have hno : s.children p q = false := Bool.eq_false_iff.mpr fun hpq => by
      cases (h.child_built hpq).symm.trans hq
    exact ⟨by simp [ProcessTree.adopt, hno, hpar], hrs⟩
  · dsimp only [ProcessTree.adopt] at hc ⊢
    by_cases hqp : q = p
    · simp [hqp] at hc
    · by_cases hqr : q = reaper
      · subst hqr
        rw [if_neg hqp, if_pos rfl, Bool.or_eq_true] at hc
        obtain hc | hc := hc
        · rw [hmv q c hc hqp]
          exact h.linked q c hc
        · rw [if_pos hc]
      · rw [if_neg hqp, if_neg hqr] at hc
        rw [hmv q c hc hqp]
        exact h.linked q c hc
  · dsimp only [ProcessTree.adopt] at hq
    split at hq
    · next hpc =>
      cases hq
      exact ⟨hbt, Nat.lt_trans holder (h.older c p (h.linked p c hpc)).2⟩
    · exact h.older c q hq
  · obtain ⟨q, hq, hqc⟩ := h.kept c hc hne hfe
    dsimp only [ProcessTree.adopt]
    by_cases hqp : q = p
    · subst hqp
      exact ⟨reaper, if_pos hqc, by simp [hqc, Nat.ne_of_lt holder]⟩
    · refine ⟨q, by simpa [hmv q c hqc hqp] using hq, ?_⟩
      by_cases hqr : q = reaper
      · subst hqr
        simp [hqp, hqc]
      · simp [hqp, hqr, hqc]
  · have hqr : q ≠ reaper := fun hqr => by cases (hqr ▸ hru).symm.trans hq
    simp [ProcessTree.adopt, hqr, h.empty q hq c]

/-- A process whose exit is over is freed. -/
theorem free (hd : s.phase p = .done) : {s with freed := Function.update s.freed p true}.Sound := by
  refine {h with
    absent := fun r hr => ?_
    kept := fun c hc hne hfe => ?_
    freed := fun r hr => ?_
    dropped := fun r hr => ?_}
  · obtain ⟨hpar, hph, hfe⟩ := h.absent r hr
    have hrp : r ≠ p := fun hrp => by rw [hrp, hd] at hph; cases hph
    exact ⟨hpar, hph, (update_of_ne hrp ..).trans hfe⟩
  · have hcp : c ≠ p := fun hcp => by simp [hcp] at hfe
    exact h.kept c hc hne ((update_of_ne hcp ..).symm.trans hfe)
  · obtain ⟨rfl, _⟩ | ⟨_, hold⟩ := update_cases hr
    · exact hd
    · exact h.freed r hold
  · by_cases hrp : r = p
    · simp [hrp]
    · simpa [hrp] using h.dropped r hr

/-- It leaves the map of the parent that `free` read. -/
theorem freeRemove (hmem : (p, q) ∈ s.freeing) : {s with
      children := Function.update s.children q (Function.update (s.children q) p false)
      freed := Function.update s.freed p true
      freeing := s.freeing.erase (p, q)}.Sound := by
  have hfr := h.free (h.freeing _ hmem)
  have hkp : ∀ r c, Function.update s.children q (Function.update (s.children q) p false) r c ↔
      s.children r c ∧ ¬ (r = q ∧ c = p) := fun r c => by
    by_cases hrq : r = q
    · subst hrq
      by_cases hcp : c = p <;> simp [hcp]
    · simp [hrq]
  refine {hfr with
    linked := fun r c hc => h.linked r c ((hkp r c).mp hc).1
    kept := fun c hc hne hfe => ?_
    empty := fun r hr c => Bool.eq_false_iff.mpr fun hc => absurd ((hkp r c).mp hc).1 (by simp [h.empty r hr c])
    freeing := fun f hf => h.freeing f (List.mem_of_mem_erase hf)}
  obtain ⟨r, hr, hrc⟩ := hfr.kept c hc hne hfe
  refine ⟨r, hr, (hkp r c).mpr ⟨hrc, fun hbo => ?_⟩⟩
  simp [hbo.2] at hfe

/-- A parent that the walk finds is older. -/
theorem getParent_older (hq : s.getParent p = some q) : s.built q ∧ q < p :=
  h.older p q (Option.filter_eq_some_iff.mp hq).1

/-- Who takes children is running and older than the exiting process. -/
theorem candidate {ancestor : Option Pid} {clean : Bool} (hph : s.phase p = .walking ancestor clean) :
    s.built (ancestor.getD s.init) ∧ ancestor.getD s.init < p := by
  cases ancestor with
  | some a => exact h.walk p a (by rw [hph]; rfl)
  | none =>
    have hp : s.built p := by
      cases hp : s.built p
      · exact nomatch hph.symm.trans (h.absent p hp).2.1
      · rfl
    have hne : s.init ≠ p := fun hne => by rw [← hne, h.root.2] at hph; cases hph
    exact ⟨h.root.1, Nat.lt_of_le_of_ne (h.range p hp).1 hne⟩

theorem accepts_running {a : Pid} (ha : s.accepts a) : s.phase a = .running := by
  simp only [accepts, Bool.or_eq_true, beq_iff_eq, Bool.and_eq_true] at ha
  obtain rfl | ⟨_, hal⟩ := ha
  · exact h.root.2
  · by_contra hph
    rw [(h.zombie a).mpr hph] at hal
    cases hal

theorem step (hfa : Fair label s) (hst : machine.step label s = some s') : s'.Sound := by
  cases label with
  | fork p pid =>
    obtain ⟨⟨hp, _, hpid⟩, hn⟩ := ite_none_right_eq_some.mp hst
    cases hn
    exact h.fork hp hpid
  | build pid p =>
    obtain ⟨⟨hbld, _⟩, hn⟩ := ite_none_right_eq_some.mp hst
    cases hn
    have hal : s.zombie p = false := hfa
    have hpar : s.phase p = .running := by
      by_contra hph
      rw [(h.zombie p).mpr hph] at hal
      cases hal
    exact h.build hbld hpar
  | setChildSubreaper p enabled =>
    obtain ⟨⟨_, hph⟩, hn⟩ := ite_none_right_eq_some.mp hst
    cases hn
    have heq : {s with subreaper := Function.update s.subreaper p enabled}.Sound := {h with}
    exact heq.disturb s.zombie (fun _ _ => rfl) (by simp [h.zombie, hph]) (fun _ _ => rfl) (by simp [hph]) nofun rfl
  | exit p =>
    obtain ⟨⟨hp, hne, hph⟩, hn⟩ := ite_none_right_eq_some.mp hst
    cases hn
    refine h.disturb (Function.update s.zombie p true) (fun q hq => update_of_ne hq ..) (by simp) ?_ (by simp [hph]) nofun rfl
    simp [hne, hp]
  | look p =>
    simp only [machine, step] at hst
    split at hst
    · next hph =>
      cases hst
      exact h.setPhase (by rw [hph]; rfl) rfl fun a ha => h.getParent_older ha
    · cases hst
  | visit p =>
    simp only [machine, step] at hst
    split at hst
    · next hph =>
      obtain ⟨_, hn⟩ := ite_none_right_eq_some.mp hst
      obtain ⟨hbt, holder⟩ := h.candidate hph
      split at hn <;> cases hn
      · next hacc =>
        refine (h.adopt hbt holder (h.accepts_running hacc)).disturb s.zombie (fun _ _ => rfl) ?_ ?_ (fun _ => rfl) ?_ rfl
        · simp [h.zombie, hph]
        · simp [ProcessTree.adopt, hph]
        · simp [ProcessTree.adopt]
      · refine h.setPhase (by rw [hph]; rfl) rfl fun a ha => ?_
        cases ha
        exact ⟨hbt, holder⟩
    · cases hst
  | climb p =>
    simp only [machine, step] at hst
    split at hst
    · next candidate _ hph =>
      cases hst
      obtain ⟨_, holder⟩ := h.walk p candidate (by rw [hph]; rfl)
      refine h.setPhase (by rw [hph]; rfl) rfl fun a ha => ?_
      obtain ⟨hbt, hab⟩ := h.getParent_older ha
      exact ⟨hbt, Nat.lt_trans hab holder⟩
    · cases hst
  | freeLook p =>
    obtain ⟨_, hn⟩ := ite_none_right_eq_some.mp hst
    have hd : s.phase p = .done := hfa
    split at hn <;> cases hn
    · exact h.free hd
    · refine {h with freeing := fun f hf => ?_}
      obtain rfl | hf := List.mem_cons.mp hf
      · exact hd
      · exact h.freeing f hf
  | freeRemove p q =>
    obtain ⟨⟨hmem, _⟩, hn⟩ := ite_none_right_eq_some.mp hst
    cases hn
    exact h.freeRemove hmem
  | drop p =>
    obtain ⟨⟨hfe, hph, _⟩, hn⟩ := ite_none_right_eq_some.mp hst
    cases hn
    have hdr : {s with dropped := Function.update s.dropped p true}.Sound := {h with
      dropped := fun q hq => by
        obtain ⟨rfl, _⟩ | ⟨_, hold⟩ := update_cases hq
        · exact hfe
        · exact h.dropped q hold}
    exact hdr.disturb s.zombie (fun _ _ => rfl) (by simp [h.zombie, hph]) (by simp [hph]) (fun _ => rfl)
      (fun _ => h.empty p hph) rfl

/-- The parent of a process that is not freed is still there. -/
theorem getParent_kept (hq : s.parent p = some q) (hc : s.children q p) :
    s.getParent p = some q ∧ s.freed q = false := by
  have hno : s.freed q = false := by
    cases hfe : s.freed q
    · rfl
    · rw [h.empty q (h.freed q hfe) p] at hc
      cases hc
  have hhe : s.dropped q = false := by
    cases hdrop : s.dropped q
    · rfl
    · rw [h.dropped q hdrop] at hno
      cases hno
  exact ⟨Option.filter_eq_some_iff.mpr ⟨hq, by simp [hhe]⟩, hno⟩

/-- Parents are older, so following them ends, and it ends at init. -/
theorem reachesInit (p : Pid) (hp : s.built p) (hfe : s.freed p = false) :
    ReachesInit s.init s.getParent p := by
  induction p using Nat.strong_induction_on with
  | _ p ih =>
    by_cases hinit : p = s.init
    · exact hinit ▸ .init
    · obtain ⟨q, hq, hc⟩ := h.kept p hp hinit hfe
      obtain ⟨hpar, hno⟩ := h.getParent_kept hq hc
      obtain ⟨hbt, holder⟩ := h.older p q hq
      exact .up hpar (ih q holder hbt hno)

end

end Sound

/-! ### Undisturbed walks -/

end ProcessTree

/-- Where two trees agree on the processes the search passes, it ends alike. -/
theorem NearestReaper.transfer {accepts accepts' : Pid → Bool} {parent parent' : Pid → Option Pid}
    {kn : Pid → Prop} (hag : ∀ a, kn a → accepts' a = accepts a ∧ parent' a = parent a)
    (hcl : ∀ a b, kn a → parent a = some b → kn b) {start : Option Pid} {r : Pid}
    (hsrt : ∀ a, start = some a → kn a) (h : NearestReaper init accepts parent start r) :
    NearestReaper init accepts' parent' start r := by
  induction h with
  | orphan => exact .orphan
  | @here a hacc => exact .here ((hag a (hsrt a rfl)).1.trans hacc)
  | @above a r hacc _ ih =>
    obtain ⟨heq, hpar⟩ := hag a (hsrt a rfl)
    refine .above (heq.trans hacc) ?_
    rw [hpar]
    exact ih fun b hb => hcl a b (hsrt a rfl) hb

namespace ProcessTree
variable {s s' : ProcessTree}

/-- What an undisturbed walk would end at from where it is, is nearest to the process. -/
structure Aimed (s : ProcessTree) : Prop where
  walking : ∀ p a, s.phase p = .walking a true → ∀ r, s.Nearest a r → s.Nearest (s.getParent p) r
  failed : ∀ p a, s.phase p = .failed a true →
    s.accepts a = false ∧ ∀ r, s.Nearest (some a) r → s.Nearest (s.getParent p) r

namespace Aimed

/-- After a step that disturbs the others there is no undisturbed walk but the mover's. -/
theorem disturb (s : ProcessTree) (p : Pid) (hph : phase.holds = none) (hwa : ∀ a, phase ≠ .walking a true) :
    (s.disturb p phase).Aimed where
  walking := fun q a hq => by
    by_cases hqp : q = p
    · simp only [ProcessTree.disturb, hqp] at hq
      exact absurd hq (hwa a)
    · simp only [ProcessTree.disturb, hqp] at hq
      cases hold : s.phase q <;> simp [hold, ExitPhase.stale] at hq
  failed := fun q a hq => by
    by_cases hqp : q = p
    · simp only [ProcessTree.disturb, hqp, if_true] at hq
      rw [hq] at hph
      cases hph
    · simp only [ProcessTree.disturb, hqp] at hq
      cases hold : s.phase q <;> simp [hold, ExitPhase.stale] at hq

theorem build (h : s.Aimed) (hs : s.Sound) (hbld : (pid, p) ∈ s.builders) : (s.build pid p).Aimed := by
  obtain ⟨habs, _⟩ := hs.builders _ hbld
  have hne : ∀ a, s.built a → a ≠ pid := fun a ha heq => by
    rw [heq, habs] at ha
    cases ha
  have hag : ∀ a, s.built a → (s.build pid p).accepts a = s.accepts a ∧ (s.build pid p).getParent a = s.getParent a :=
    fun a ha => ⟨rfl, by simp [getParent, ProcessTree.build, hne a ha]⟩
  have hcl : ∀ a b, s.built a → s.getParent a = some b → s.built b :=
    fun a b _ hb => (hs.getParent_older hb).1
  have hcl' : ∀ a b, s.built a → (s.build pid p).getParent a = some b → s.built b :=
    fun a b ha hb => hcl a b ha ((hag a ha).2 ▸ hb)
  have hba : ∀ a, s.built a → s.accepts a = (s.build pid p).accepts a ∧ s.getParent a = (s.build pid p).getParent a :=
    fun a ha => ⟨(hag a ha).1.symm, (hag a ha).2.symm⟩
  have hse : ∀ q, s.phase q ≠ .running → s.built q := fun q hq => by
    cases hbt : s.built q
    · exact absurd (hs.absent q hbt).2.1 hq
    · rfl
  -- A search from a known process does not meet the new one.
  have hkp : ∀ q start, s.phase q ≠ .running → (∀ a, start = some a → s.built a) →
      (∀ r, s.Nearest start r → s.Nearest (s.getParent q) r) →
      ∀ r, (s.build pid p).Nearest start r → (s.build pid p).Nearest ((s.build pid p).getParent q) r := by
    intro q start hq hsrt hold r hr
    rw [(hag q (hse q hq)).2]
    exact (hold r (hr.transfer hba hcl' hsrt)).transfer hag hcl fun b hb => (hs.getParent_older hb).1
  refine ⟨fun q a hq => ?_, fun q a hq => ?_⟩
  · have hq : s.phase q = .walking a true := hq
    exact hkp q a (by simp [hq]) (fun b hb => (hs.walk q b (by rw [hq, hb]; rfl)).1) (h.walking q a hq)
  · have hq : s.phase q = .failed a true := hq
    obtain ⟨hacc, hold⟩ := h.failed q a hq
    exact ⟨hacc, hkp q (some a) (by simp [hq])
      (fun b hb => (hs.walk q b (by rw [hq, ← Option.some.inj hb]; rfl)).1) hold⟩

theorem setPhase (h : s.Aimed)
    (hwa : ∀ a, phase = .walking a true → ∀ r, s.Nearest a r → s.Nearest (s.getParent p) r)
    (hfa : ∀ a, phase = .failed a true →
      s.accepts a = false ∧ ∀ r, s.Nearest (some a) r → s.Nearest (s.getParent p) r) : (s.setPhase p phase).Aimed where
  walking := fun q a hq => by
    obtain ⟨rfl, hnew⟩ | ⟨_, hold⟩ := update_cases hq
    · exact hwa a hnew
    · exact h.walking q a hold
  failed := fun q a hq => by
    obtain ⟨rfl, hnew⟩ | ⟨_, hold⟩ := update_cases hq
    · exact hfa a hnew
    · exact h.failed q a hold

theorem step (h : s.Aimed) (hs : s.Sound) (hst : machine.step label s = some s') : s'.Aimed := by
  cases label with
  | fork _ _ | freeRemove _ _ =>
    obtain ⟨_, hn⟩ := ite_none_right_eq_some.mp hst
    cases hn
    exact {h with}
  | build pid p =>
    obtain ⟨⟨hbld, _⟩, hn⟩ := ite_none_right_eq_some.mp hst
    cases hn
    exact h.build hs hbld
  | setChildSubreaper p _ | exit p | drop p =>
    obtain ⟨_, hn⟩ := ite_none_right_eq_some.mp hst
    cases hn
    exact .disturb _ p rfl fun _ => nofun
  | look p =>
    simp only [machine, step] at hst
    split at hst
    · cases hst
      refine h.setPhase (fun a ha r hr => ?_) fun _ => nofun
      rw [(ExitPhase.walking.inj ha).1]
      exact hr
    · cases hst
  | visit p =>
    simp only [machine, step] at hst
    split at hst
    · next ancestor clean hph =>
      obtain ⟨_, hn⟩ := ite_none_right_eq_some.mp hst
      split at hn <;> cases hn
      · exact .disturb _ p rfl fun _ => nofun
      · next href =>
        refine h.setPhase (fun _ => nofun) fun a ha => ?_
        obtain ⟨rfl, rfl⟩ := ExitPhase.failed.inj ha
        cases ancestor with
        | none => simp [accepts] at href
        | some a => exact ⟨Bool.eq_false_iff.mpr href, h.walking p (some a) hph⟩
    · cases hst
  | climb p =>
    simp only [machine, step] at hst
    split at hst
    · next candidate clean hph =>
      cases hst
      refine h.setPhase (fun a ha r hr => ?_) fun _ => nofun
      obtain ⟨rfl, rfl⟩ := ExitPhase.walking.inj ha
      obtain ⟨href, hab⟩ := h.failed p candidate hph
      exact hab r (.above href hr)
    · cases hst
  | freeLook p =>
    obtain ⟨_, hn⟩ := ite_none_right_eq_some.mp hst
    split at hn <;> cases hn
    · exact {h with}
    · exact {h with}

end Aimed

variable {labels : List TreeLabel}

theorem Sound.run (hfa : machine.Meets Fair (initial init) labels)
    (hrun : machine.run (initial init) labels = some s) : s.Sound ∧ s.Aimed := by
  have hin : (initial init).Sound ∧ (initial init).Aimed := ⟨initial_sound init, ⟨fun _ _ => nofun, fun _ _ => nofun⟩⟩
  exact Machine.run_induct_under
    (fun _ (s : ProcessTree) _ (h : s.Sound ∧ s.Aimed) hla hst => ⟨h.1.step hla hst, h.2.step h.1 hst⟩) labels hin hfa hrun

/-- **The process tree** in every run that builds processes under parents that have not exited, and
frees processes whose exit has finished: a process that is not freed is in the map of its parent and
in no other, parents lead to init, an exited process has no children, and an undisturbed walk gives
the children to the nearest live subreaper above, or to init. -/
theorem process_tree {init : Pid} {labels : List TreeLabel} (hfair : machine.Meets Fair (initial init) labels)
    (hrun : machine.run (initial init) labels = some s) :
    (∀ p, s.built p = true → p ≠ s.init → s.freed p = false →
      ∃ q, s.getParent p = some q ∧ ∀ r, s.children r p = true ↔ r = q) ∧
    (∀ p, s.built p = true → s.freed p = false → ReachesInit s.init s.getParent p) ∧
    (∀ p, s.phase p = .done → ∀ c, s.children p c = false) ∧
    (∀ p a s', s.phase p = .walking a true → machine.step (.visit p) s = some s' → s'.phase p = .done →
      ∃ reaper, s.Nearest (s.getParent p) reaper ∧
        ∀ c, s.children p c = true → s'.getParent c = some reaper ∧ s'.children reaper c = true) := by
  obtain ⟨hs, haimed⟩ := Sound.run hfair hrun
  refine ⟨fun p hp hne hfe => ?_, fun p hp hfe => hs.reachesInit p hp hfe, hs.empty, ?_⟩
  · obtain ⟨q, hq, hc⟩ := hs.kept p hp hne hfe
    refine ⟨q, (hs.getParent_kept hq hc).1, fun r => ⟨fun hr => hs.unique hr hc, ?_⟩⟩
    rintro rfl
    exact hc
  · intro p a s' hph hst hd
    have hlabel : Fair (.visit p) s := trivial
    have hsound' : s'.Sound := hs.step hlabel hst
    simp only [machine, step, hph] at hst
    obtain ⟨_, hn⟩ := ite_none_right_eq_some.mp hst
    obtain ⟨_, holder⟩ := hs.candidate hph
    split at hn <;> cases hn
    · next hacc =>
      refine ⟨a.getD s.init, haimed.walking p a hph _ ?_, fun c hc => ?_⟩
      · cases a with
        | none => exact .orphan
        | some a => exact .here hacc
      · have hpar : ((s.adopt p (a.getD s.init)).disturb p .done).parent c = some (a.getD s.init) := if_pos hc
        have hmap : ((s.adopt p (a.getD s.init)).disturb p .done).children (a.getD s.init) c := by
          simp [ProcessTree.disturb, ProcessTree.adopt, holder.ne, hc]
        exact ⟨(hsound'.getParent_kept hpar hmap).1, hmap⟩
    · simp [setPhase] at hd

/-- Process 2 makes process 3 and exits. -/
def orphaned : List TreeLabel :=
  [.fork 1 2, .build 2 1, .fork 2 3, .build 3 2, .exit 2, .look 2, .visit 2]

theorem process_tree_orphaned : ∃ s, machine.run (initial 1) orphaned = some s ∧
    ∃ q, s.getParent 3 = some q ∧ ∀ r, s.children r 3 = true ↔ r = q := by
  have hstate : (machine.run (initial 1) orphaned).map (fun s => (s.built 3, s.init, s.freed 3)) = some (true, 1, false) := by
    decide +kernel
  obtain ⟨s, hrun, hfacts⟩ := Option.map_eq_some_iff.mp hstate
  simp only [Prod.mk.injEq] at hfacts
  obtain ⟨hbt, hinit, hfe⟩ := hfacts
  exact ⟨s, hrun, (process_tree (by decide +kernel) hrun).1 3 hbt (by rw [hinit]; decide) hfe⟩

/-- Process 2 exits between `fork` and `build`. -/
def builtLate : List TreeLabel :=
  [.fork 1 2, .build 2 1, .fork 2 3, .exit 2, .look 2, .visit 2, .build 3 2]

/-- The exited process has a child, which nobody will adopt. -/
theorem exited_has_child :
    (machine.run (initial 1) builtLate).map (fun s => (s.phase 2, s.children 2 3)) = some (.done, true) := by
  decide +kernel

end ProcessTree
end StarryX.Task
