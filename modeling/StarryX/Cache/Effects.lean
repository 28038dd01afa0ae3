import StarryX.Cache.Concurrent

/-! What one step of a thread on a mapping does.

`Phase` projections say what a thread has in hand, `covered` and `filled` are the conditions
under which results hold, and `step_effect` says once what a covered step can do: `Effect`
has a constructor for each change of the shared state and one, `move`, for all the steps
that change nothing but where the thread stands. -/
namespace StarryX.Cache.Concurrent
open Library DirtySequence Function

/-! ### What a thread's phase says -/

/-- The index of the page a job has published zeroed and is still to fill. -/
def Job.refills : Job → Option Nat
  | .read _ => none
  | .write w => if w.zeroed && w.span.fullPage then some w.span.index else none

/-- The part of an unfinished write that has been copied. -/
def Job.written : Job → Option Span
  | .read _ => none
  | .write w => some w.span

def Job.reading : Job → Option Reading
  | .read r => some r
  | .write _ => none

def Task.written : Task → Option Span
  | .throttle w => some w.span
  | _ => none

namespace Phase

/-- The page under this thread's lease. -/
def holds : Phase → Option Nat
  | .leased _ object | .copied _ object | .dropping _ object => some object
  | _ => none

/-- The page a lease holder is working on, with the index it asked for. -/
def uses : Phase → Option (Nat × Nat)
  | .leased job object => some (job.span.index, object)
  | .copied w object => some (w.span.index, object)
  | _ => none

/-- A writer that has copied and not yet marked the page dirty. -/
def stored : Phase → Option Nat
  | .copied _ object => some object
  | _ => none

def flight : Phase → Option (Nat × Flight Frame)
  | .flying object flight _ | .sampled object flight _ _ | .wrote object flight _ => some (object, flight)
  | _ => none

def flies (p : Phase) : Option Nat := p.flight.map (·.1)

/-- A size sampled for a call of the backing. -/
def cut : Phase → Option Nat
  | .sampled _ _ length _ | .settingLen length => some length
  | _ => none

def clips : Phase → Option (Nat × Flight Frame × Nat)
  | .sampled object flight length _ => some (object, flight, length)
  | _ => none

def refills : Phase → Option Nat
  | .acquiring job | .waiting job _ | .allocating job _ | .sizing job _ _ | .loaded job _ _
  | .loadFailed job _ | .failing job | .leased job _ => job.refills
  | _ => none

def written : Phase → Option Span
  | .chunk job | .acquiring job | .waiting job _ | .allocating job _ | .sizing job _ _ | .loaded job _ _
  | .loadFailed job _ | .failing job | .leased job _ | .dropping job _ => job.written
  | .copied w _ => some w.span.advance
  | .finishing w => some w.span
  | .writeback _ _ task | .stalled _ _ task | .flying _ _ task | .sampled _ _ _ task | .wrote _ _ task =>
    task.written
  | _ => none

/-- The load attempt a thread owns, by page index. -/
def loads : Phase → Option (Nat × Nat)
  | .allocating job attempt | .sizing job attempt _ | .loaded job attempt _ => some (job.span.index, attempt)
  | _ => none

/-- What a loader has sampled, and what it has read. -/
def sized : Phase → Option (Nat × Nat × Nat)
  | .sizing job attempt length => some (job.span.index, attempt, length)
  | _ => none

def fetched : Phase → Option (Nat × Nat × Frame)
  | .loaded job attempt frame => if job.zeroOnMiss then none else some (job.span.index, attempt, frame)
  | _ => none

theorem fetched_loaded {job : Job} {att k a : Nat} {frame f : Frame}
    (h : (loaded job att frame).fetched = some (k, a, f)) : job.span.index = k ∧ att = a ∧ frame = f := by
  simp only [fetched, Option.ite_none_left_eq_some, Option.some.injEq, Prod.mk.injEq] at h
  exact h.2

/-- The read a thread is in, with nothing read before it has sampled the size. -/
def reading : Phase → Option Reading
  | .opening offset _ base => some ⟨⟨offset, 0, 0⟩, fun _ => 0, base⟩
  | .chunk job | .acquiring job | .waiting job _ | .allocating job _ | .sizing job _ _ | .loaded job _ _
  | .loadFailed job _ | .failing job | .leased job _ | .dropping job _ => job.reading
  | .returned r => some r
  | _ => none

/-- What a read has returned. -/
def result : Phase → Option Reading
  | .returned r => some r
  | _ => none

/-- The write has copied a byte of page `index` at or past `length`. -/
def copiedPast (p : Phase) (index length : Nat) : Bool :=
  match p.written with
  | none => false
  | some span =>
    max span.offset (max length (index * pageSize)) < min (span.offset + span.done) ((index + 1) * pageSize)

end Phase

section Conditions
variable {ι : Type} [Fintype ι]

/-- A writeback's size sample covers what unfinished writes have copied into its page, a
sync's sampled size still covers the backing, and no write fails that has published a
zeroed page for the chunk it fails at. -/
def covered (label : ι × Action) (s : State ι) : Bool :=
  match label.2, s.phase label.1 with
  | .step, .flying object _ _ =>
    decide (∀ j, (s.phase j).copiedPast (s.page object).index s.logicalSize = false)
  | .step, .settingLen length => decide (s.backing.size ≤ length)
  | .step, .failing (.write w) => !w.zeroed
  | _, _ => true

/-- A read's copy is not from a page some write has published zeroed and is still to fill. -/
def filled (label : ι × Action) (s : State ι) : Bool :=
  match label.2, s.phase label.1 with
  | .step, .leased (.read _) object => decide (∀ j, (s.phase j).refills ≠ some (s.page object).index)
  | _, _ => true

end Conditions

/-! ### What a step can do -/

/-- A move of one thread that changes nothing but where it stands: leases and loads are kept or
given up, there is no flight, and nothing it owes is forgotten. -/
structure Quiet (p q : Phase) : Prop where
  holds : q.holds = p.holds
  uses : q.uses = p.uses ∨ q.uses = none
  stored : q.stored = p.stored
  flight : q.flight = none ∧ p.flight = none
  cut : q.cut = none
  clips : q.clips = none
  refills : ∀ index, p.refills = some index → q.refills = some index
  written : ∀ span, p.written = some span → 0 < span.done → q.written = some span
  loads : q.loads = p.loads ∨ q.loads = none
  sized : q.sized = none
  fetched : q.fetched = none
  result : q.result = none
  reading : ∀ r, q.reading = some r → ∃ r', p.reading = some r' ∧ r'.base = r.base ∧
    (r' = r ∨ r.span.done = 0)

inductive Effect {ι : Type} [DecidableEq ι] (s : State ι) (i : ι) : State ι → Prop where
  | same : Effect s i s
  | move (q : Phase) (quiet : Quiet (s.phase i) q) : Effect s i (goto s i q)
  | open (offset count : Nat) (at_ : s.phase i = .idle) :
    Effect s i (goto s i (.opening offset count s.history))
  | lease (job : Job) (object : Nat) (state : PageState) (at_ : s.phase i = .acquiring job)
      (slot : s.slot job.span.index = .resident object)
      (taken : (s.page object).state.takeLease = .ok state) :
    Effect s i (goto (setState s object state) i (.leased job object))
  | reserve (job : Job) (at_ : s.phase i = .acquiring job) (slot : s.slot job.span.index = .absent) :
    Effect s i (goto {setSlot s job.span.index (.loading s.nextAttempt) with
      nextAttempt := s.nextAttempt + 1} i (.allocating job s.nextAttempt))
  | size (job : Job) (attempt : Nat) (at_ : s.phase i = .allocating job attempt) :
    Effect s i (goto s i (.sizing job attempt s.logicalSize))
  | fetch (job : Job) (attempt length : Nat) (at_ : s.phase i = .sizing job attempt length) :
    Effect s i (goto s i (.loaded job attempt (loadFrame s.backing.get job.span.index length)))
  | publish (job : Job) (attempt : Nat) (frame : Frame) (at_ : s.phase i = .loaded job attempt frame)
      (slot : s.slot job.span.index = .loading attempt) :
    Effect s i (goto {setSlot (setPage s s.nextPage ⟨job.span.index, frame, .clean, 0⟩) job.span.index
        (.resident s.nextPage) with
      nextPage := s.nextPage + 1
      attempt := update s.attempt attempt (some true)} i (.acquiring job.published))
  | refuse (attempt : Nat) (outcome : Option Bool) (q : Phase) (quiet : Quiet (s.phase i) q) :
    Effect s i (goto {s with attempt := update s.attempt attempt outcome} i q)
  | abandon (index attempt : Nat) (outcome : Option Bool) (q : Phase) (quiet : Quiet (s.phase i) q)
      (slot : s.slot index = .loading attempt) :
    Effect s i (goto (setSlot {s with attempt := update s.attempt attempt outcome} index .absent) i q)
  | finish (r : Reading) (at_ : s.phase i = .chunk (.read r)) (done : r.span.total ≤ r.span.done) :
    Effect s i (goto s i (.returned r))
  | readChunk (r : Reading) (object : Nat) (at_ : s.phase i = .leased (.read r) object) :
    Effect s i (goto s i (.dropping (.read (Concurrent.readChunk r (s.page object).frame)) object))
  | copy (w : Writing) (object : Nat) (at_ : s.phase i = .leased (.write w) object) :
    Effect s i (goto (writeChunk s w object) i (.copied w object))
  | mark (w : Writing) (object : Nat) (state : PageState) (at_ : s.phase i = .copied w object)
      (marked : (s.page object).state.markDirty = .ok state) :
    Effect s i (goto (setState s object state) i
      (.dropping (.write {w with span := w.span.advance, zeroed := false}) object))
  | drop (job : Job) (object : Nat) (at_ : s.phase i = .dropping job object) :
    Effect s i (goto (setState s object (s.page object).state.dropLease) i (.chunk job))
  | extend (w : Writing) (at_ : s.phase i = .finishing w) :
    Effect s i (goto {s with logicalSize := max s.logicalSize (w.span.offset + w.span.done)} i .idle)
  | claim (object : Nat) (explicit : Bool) (task : Task) (at_ : s.phase i = .writeback object explicit task)
      (submit : (s.page object).state.writebackAction explicit = .submit) :
    Effect s i (goto (setState s object (s.page object).state.claim) i
      (.flying object ⟨(s.page object).state.dirtySeq, (s.page object).frame, (s.page object).stores, none⟩ task))
  | sample (object : Nat) (flight : Flight Frame) (task : Task) (at_ : s.phase i = .flying object flight task)
      (covers : ∀ j, (s.phase j).copiedPast (s.page object).index s.logicalSize = false) :
    Effect s i (goto s i (.sampled object flight s.logicalSize task))
  | land (object : Nat) (flight : Flight Frame) (length : Nat) (task : Task)
      (at_ : s.phase i = .sampled object flight length task) :
    Effect s i (goto {s with backing := writeSnapshot s.backing (s.page object).index length flight.snapshot} i
      (.wrote object {flight with outcome := some true} task))
  | report (object : Nat) (flight : Flight Frame) (task : Task) (at_ : s.phase i = .wrote object flight task) :
    Effect s i (goto (setState s object ((s.page object).state.report flight.seq true)) i task.resume)
  | target (at_ : s.phase i = .syncing [] false) : Effect s i (goto s i (.settingLen s.logicalSize))
  | setLen (length : Nat) (at_ : s.phase i = .settingLen length) (covers : s.backing.size ≤ length) :
    Effect s i (goto {s with backing := s.backing.setLen length} i .idle)
  | reclaim (index object : Nat) (slot : s.slot index = .resident object)
      (free : (s.page object).state.reclaimable = true) : Effect s i (setSlot s index .absent)

section Inversion
variable {ι : Type} [DecidableEq ι] {s t : State ι} {i : ι} {p q : Phase} (task : Task)

/-- Neither a lease nor a flight in hand. -/
structure Free (p : Phase) : Prop where
  holds : p.holds = none
  stored : p.stored = none
  flight : p.flight = none

/-- Nothing in hand at all. -/
structure Bare (p : Phase) : Prop where
  holds : p.holds = none
  uses : p.uses = none
  stored : p.stored = none
  flight : p.flight = none
  cut : p.cut = none
  clips : p.clips = none
  loads : p.loads = none
  sized : p.sized = none
  fetched : p.fetched = none
  result : p.result = none

theorem Bare.of (h : (p.holds, p.uses, p.stored, p.flight, p.cut, p.clips, p.loads, p.sized, p.fetched,
    p.result) = (none, none, none, none, none, none, none, none, none, none)) : Bare p := by
  simp only [Prod.mk.injEq] at h
  obtain ⟨h₁, h₂, h₃, h₄, h₅, h₆, h₇, h₈, h₉, h⟩ := h
  exact ⟨h₁, h₂, h₃, h₄, h₅, h₆, h₇, h₈, h₉, h⟩

/-- A thread with nothing in hand before or after only has to keep what it owes. -/
theorem Quiet.of_bare (hp : Free p) (hq : Bare q)
    (hrf : ∀ idx, p.refills = some idx → q.refills = some idx)
    (hwr : ∀ span, p.written = some span → 0 < span.done → q.written = some span)
    (hrd : ∀ r, q.reading = some r → ∃ r', p.reading = some r' ∧ r'.base = r.base ∧
      (r' = r ∨ r.span.done = 0)) : Quiet p q where
  holds := hq.holds.trans hp.holds.symm
  uses := .inr hq.uses
  stored := hq.stored.trans hp.stored.symm
  flight := ⟨hq.flight, hp.flight⟩
  __ := hq
  refills := hrf
  written := hwr
  loads := .inr hq.loads
  reading := hrd

/-- A job moves on, in another phase. -/
theorem Quiet.job (hp : Free p) (hq : Bare q)
    (hrf : p.refills = q.refills ∨ p.refills = none) (hwr : p.written = q.written)
    (hrd : p.reading = q.reading) : Quiet p q := by
  refine .of_bare hp hq (fun idx h => ?_) (fun span h _ => hwr ▸ h) fun r h =>
    ⟨r, hrd.trans h, rfl, .inl rfl⟩
  obtain hr | hr := hrf
  · exact hr ▸ h
  · cases hr.symm.trans h

/-- Where a thread has nothing in hand before and after, its move is the whole effect. -/
theorem Effect.bare (hp : s.phase i = p) (hrf : ∀ idx, p.refills = some idx → q.refills = some idx)
    (hwr : ∀ span, p.written = some span → 0 < span.done → q.written = some span)
    (hrd : ∀ r, q.reading = some r → ∃ r', p.reading = some r' ∧ r'.base = r.base ∧ (r' = r ∨ r.span.done = 0))
    (hfr : Free p) (hba : Bare q) : Effect s i (goto s i q) :=
  .move q (hp ▸ .of_bare hfr hba hrf hwr hrd)

theorem Effect.job (hp : s.phase i = p) (hrf : p.refills = q.refills ∨ p.refills = none)
    (hwr : p.written = q.written) (hrd : p.reading = q.reading) (hfr : Free p) (hba : Bare q) :
    Effect s i (goto s i q) :=
  .move q (hp ▸ .job hfr hba hrf hwr hrd)

theorem Task.resume_bare : Bare task.resume := by cases task <;> constructor <;> rfl

theorem Task.resume_owes : task.resume.written = task.written ∧ task.resume.refills = none ∧
    task.resume.reading = none := by cases task <;> exact ⟨rfl, rfl, rfl⟩

theorem loadStep_effect (h : loadStep s i = some t) : Effect s i t := by
  unfold loadStep at h
  split at h
  case h_1 job hp =>
    unfold acquireStep at h
    split at h
    case h_1 obj hs =>
      split at h
      · cases h
        exact .lease job obj _ hp hs (by assumption)
      · cases h
    case h_2 att _ =>
      cases h
      exact .job hp (.inl rfl) rfl rfl ⟨rfl, rfl, rfl⟩ (.of rfl)
    case h_3 hs =>
      cases h
      exact .reserve job hp hs
  case h_2 job att hp =>
    split at h
    · cases h
      exact .job hp (.inl rfl) rfl rfl ⟨rfl, rfl, rfl⟩ (.of rfl)
    · cases h
      exact .job hp (.inl rfl) rfl rfl ⟨rfl, rfl, rfl⟩ (.of rfl)
    · cases h
  case h_3 job att hp =>
    split_ifs at h with hze
    · cases h
      refine .move _ ?_
      rw [hp]
      refine ⟨rfl, .inl rfl, rfl, ⟨rfl, rfl⟩, rfl, rfl, fun _ h => h, fun _ h _ => h, .inl rfl, rfl, ?_, rfl,
        fun r h => ⟨r, h, rfl, .inl rfl⟩⟩
      simp [Phase.fetched, hze]
    · cases h
      exact .size job att hp
  case h_4 job att length hp =>
    cases h
    exact .fetch job att length hp
  case h_5 job att frame hp =>
    cases h
    unfold publishStep
    split_ifs with hs
    · exact .publish job att frame hp hs
    · refine .refuse att _ _ ?_
      rw [hp]
      exact .job ⟨rfl, rfl, rfl⟩ (.of rfl) (.inl rfl) rfl rfl
  case h_6 job att hp =>
    cases h
    have hqu : Quiet (s.phase i) (.failing job) := by
      rw [hp]
      exact .job ⟨rfl, rfl, rfl⟩ (.of rfl) (.inl rfl) rfl rfl
    unfold abandonStep
    split_ifs with hs
    · exact .abandon _ att _ _ hqu hs
    · exact .refuse att _ _ hqu
  case h_7 => cases h

theorem copyStep_effect (hok : ∀ w, s.phase i = .failing (.write w) → w.zeroed = false)
    (h : copyStep s i = some t) : Effect s i t := by
  unfold copyStep at h
  split at h
  case h_1 offset count base hp =>
    split at h
    · cases h
      exact .bare hp nofun nofun nofun ⟨rfl, rfl, rfl⟩ (.of rfl)
    · cases h
      refine .bare hp nofun nofun (fun r hr => ?_) ⟨rfl, rfl, rfl⟩ (.of rfl)
      cases hr
      exact ⟨_, rfl, rfl, .inr rfl⟩
  case h_2 job hp =>
    split at h
    · cases h
      exact .job hp (.inr rfl) rfl rfl ⟨rfl, rfl, rfl⟩ (.of rfl)
    next hd =>
      cases job with
      | read r =>
        cases h
        exact .finish r hp (not_lt.mp hd)
      | write w =>
        cases h
        exact .job hp (.inr rfl) rfl rfl ⟨rfl, rfl, rfl⟩ (.of rfl)
  case h_3 r obj hp =>
    cases h
    exact .readChunk r obj hp
  case h_4 w obj hp =>
    cases h
    exact .copy w obj hp
  case h_5 w obj hp =>
    split at h
    · cases h
      exact .mark w obj _ hp (by assumption)
    · cases h
  case h_6 job obj hp =>
    cases h
    exact .drop job obj hp
  case h_7 r hp =>
    cases h
    exact .bare hp nofun nofun nofun ⟨rfl, rfl, rfl⟩ (.of rfl)
  case h_8 w hp =>
    cases h
    have hrf : ∀ idx, (Phase.failing (.write w)).refills = some idx → False := by
      simp [Phase.refills, Job.refills, hok w hp]
    split_ifs with hd
    · refine .bare hp (fun _ h => (hrf _ h).elim) (fun span h hpos => ?_) nofun ⟨rfl, rfl, rfl⟩ (.of rfl)
      cases h
      exact absurd hpos (by omega)
    · exact .bare hp (fun _ h => (hrf _ h).elim) (fun _ h _ => h) nofun ⟨rfl, rfl, rfl⟩ (.of rfl)
  case h_9 w hp =>
    cases h
    exact .extend w hp
  case h_10 => cases h

theorem writebackStep_effect (hok : ∀ obj f task, s.phase i = .flying obj f task →
      ∀ j, (s.phase j).copiedPast (s.page obj).index s.logicalSize = false)
    (h : writebackStep s i = some t) : Effect s i t := by
  unfold writebackStep at h
  split at h
  case h_1 obj expl task hp =>
    obtain ⟨hwr, hrf, hrd⟩ := task.resume_owes
    simp only at h
    split at h
    · cases h
      exact .job hp (.inr rfl) hwr.symm hrd.symm (by constructor <;> rfl) task.resume_bare
    · cases h
      exact .job hp (.inr rfl) rfl rfl ⟨rfl, rfl, rfl⟩ (.of rfl)
    · cases h
      exact .claim obj expl task hp (by assumption)
  case h_2 obj expl task hp =>
    split at h
    · cases h
      exact .job hp (.inr rfl) rfl rfl ⟨rfl, rfl, rfl⟩ (.of rfl)
    · cases h
  case h_3 obj f task hp =>
    cases h
    exact .sample obj f task hp (hok obj f task hp)
  case h_4 obj f length task hp =>
    cases h
    exact .land obj f length task hp
  case h_5 obj f task hp =>
    cases h
    exact .report obj f task hp
  case h_6 => cases h

theorem syncStep_effect (hok : ∀ len, s.phase i = .settingLen len → s.backing.size ≤ len)
    (h : syncStep s i = some t) : Effect s i t := by
  unfold syncStep at h
  split at h
  case h_1 obj rest failed hp =>
    cases h
    exact .job hp (.inr rfl) rfl rfl ⟨rfl, rfl, rfl⟩ (.of rfl)
  case h_2 hp =>
    cases h
    exact .job hp (.inr rfl) rfl rfl ⟨rfl, rfl, rfl⟩ (.of rfl)
  case h_3 hp =>
    cases h
    exact .target hp
  case h_4 len hp =>
    cases h
    exact .setLen len hp (hok len hp)
  case h_5 => cases h

theorem callStep_effect {a : Action} (h : callStep s i a = some t) : Effect s i t := by
  unfold callStep at h
  split at h
  case h_1 offset count hp =>
    cases h
    exact .open offset count hp
  case h_2 offset src hp =>
    split at h
    · cases h
      exact .bare hp nofun nofun nofun ⟨rfl, rfl, rfl⟩ (.of rfl)
    · cases h
      exact .same
  case h_7 => cases h
  all_goals
    rename_i hp
    cases h
    exact .bare hp nofun (fun _ h _ => h) nofun ⟨rfl, rfl, rfl⟩ (.of rfl)

theorem failStep_effect (h : failStep s i = some t) : Effect s i t := by
  unfold failStep at h
  split at h
  case h_1 w hp =>
    cases h
    exact .job hp (.inr rfl) rfl rfl ⟨rfl, rfl, rfl⟩ (.of rfl)
  case h_5 obj expl rest failed hp =>
    cases h
    exact .job hp (.inr rfl) rfl rfl ⟨rfl, rfl, rfl⟩ (.of rfl)
  case h_6 obj expl task _ hp =>
    obtain ⟨hwr, hrf, hrd⟩ := task.resume_owes
    cases h
    exact .job hp (.inr rfl) hwr.symm hrd.symm (by constructor <;> rfl) task.resume_bare
  case h_7 => cases h
  all_goals
    rename_i hp
    cases h
    exact .job hp (.inl rfl) rfl rfl ⟨rfl, rfl, rfl⟩ (.of rfl)

theorem reclaimStep_effect {idx : Nat} (h : reclaimStep s idx = some t) : Effect s i t := by
  unfold reclaimStep at h
  split at h
  next obj hs =>
    split_ifs at h with hfr
    · cases h
      exact .reclaim idx obj hs hfr
    · cases h
      exact .same
  · cases h
    exact .same

/-- **What a covered step can do.** -/
theorem step_effect [Fintype ι] {l : ι × Action} (hok : covered l s)
    (h : step l s = some t) : Effect s l.1 t := by
  obtain ⟨i, action⟩ := l
  cases action with
  | step =>
    obtain hjob | ⟨-, hre⟩ := Option.or_eq_some_iff.mp h
    · obtain hlo | ⟨-, hco⟩ := Option.or_eq_some_iff.mp hjob
      · exact loadStep_effect hlo
      · refine copyStep_effect (fun w hp => ?_) hco
        simpa [covered, hp] using hok
    · obtain hwr | ⟨-, hsy⟩ := Option.or_eq_some_iff.mp hre
      · refine writebackStep_effect (fun obj f task hp => ?_) hwr
        simpa [covered, hp] using hok
      · refine syncStep_effect (fun len hp => ?_) hsy
        simpa [covered, hp] using hok
  | fail => exact failStep_effect h
  | reclaim idx => exact reclaimStep_effect h
  | read | write | sync | writeback | throttle | leave =>
    exact callStep_effect h

end Inversion

end StarryX.Cache.Concurrent
