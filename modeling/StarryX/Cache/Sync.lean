import StarryX.Cache.Page
import StarryX.Library.Machine

/-! What `sync_range` may say.

An explicit sync writes back the pages of its range one by one, sets the backing's length,
syncs it, and returns what its cursor finds in the mapping's error history. Other parties
go on meanwhile: they dirty pages, write them back and record errors, load and reclaim
pages and extend the file. The machine here is one caller with one cursor, calling any
number of times, between any steps of the others; a step may fail wherever the code can.

The outcome has two channels, the caller's `first_error` and the recorded history, and only
the second decides between `Ok` and `Err`. `sync_honest_iff` is exact: a returning call is
honest unless a wait for another writeback failed for lack of memory and no error was
recorded behind the cursor — then it says `Ok` without having set the length or synced
(`sync_hides_failed_wait`). Each recorded epoch is in any case reported once. -/
namespace StarryX.Cache.Sync
open Library Function
open List (mem_cons mem_filter mem_map)
open Option (ite_none_right_eq_some map_eq_some_iff)

/-- A section of a page's lock that some other party runs. -/
inductive PageSection where
  | takeLease
  | dropLease
  | markDirty
  | takeGuard
  | dropGuard
  | claim (explicit : Bool)
  | report (outcome : Option LinuxError)

/-- Where the caller stands, from admission on. `rest` are the collected pages still to write back and
`firstError` is the local error channel. -/
inductive Phase where
  | idle
  | collecting (start stop : Nat)
  | buffering (pages : List Nat)
  | writing (rest : List Nat) (firstError : Option LinuxError)
  /-- Another writeback of the first page is in flight. -/
  | waiting (page : Nat) (rest : List Nat) (firstError : Option LinuxError)
  | flying (page seq : Nat) (rest : List Nat) (firstError : Option LinuxError)
  | wrote (page seq : Nat) (outcome : Option LinuxError) (rest : List Nat) (firstError : Option LinuxError)
  | settingLen (length : Nat)
  | syncing
  | recording (error : LinuxError)
  | consuming (firstError : Option LinuxError)
  | returned (result : LinuxResult Unit)

/-- No call is past admission. -/
def Phase.isOutside : Phase → Bool
  | .idle | .returned _ => true
  | _ => false

/-- Pages are objects, told apart from the tree that holds them: a caller may keep one that
has been reclaimed. The last block is history: the pages the current call owes with their
dirty sequences, what it got done, and the epochs the cursor has reported. -/
structure State where
  page : Nat → PageState
  tree : List (Nat × Nat)
  nextPage : Nat
  flight : Nat → Option Nat
  logicalSize : Nat
  backingLen : Nat
  errorSeq : Nat
  lastError : Option LinuxError
  seenSequence : Nat
  phase : Phase
  due : List (Nat × Nat)
  lenSet : Bool
  synced : Bool
  waitFailed : Bool
  reports : List (Nat × Nat)

inductive Action where
  | other (page : Nat) (change : PageSection)
  | recordError (error : LinuxError)
  | load (index : Nat)
  | reclaim (index : Nat)
  | extend (size : Nat)
  | resize (size : Nat)
  | call (start stop : Nat)
  | refuse (error : LinuxError)
  | step
  | fail (error : LinuxError)

/-- A mapping with no page resident and a cursor made from it. -/
def initial (length errors : Nat) : State :=
  { page := fun _ => .clean
    tree := []
    nextPage := 0
    flight := fun _ => none
    logicalSize := length
    backingLen := length
    errorSeq := errors
    lastError := none
    seenSequence := errors
    phase := .idle
    due := []
    lenSet := false
    synced := false
    waitFailed := false
    reports := [] }

def setPage (s : State) (page : Nat) (state : PageState) : State :=
  {s with page := update s.page page state}

/-- `resident_pages`: the objects of the range `start..stop`. -/
def residentPages (s : State) (start stop : Nat) : List Nat :=
  if stop ≤ start then []
  else
    (s.tree.filter fun entry =>
      pageIndex start ≤ entry.1 && entry.1 ≤ pageIndex (stop - 1)).map (·.2)

/-- `record_error`; the sequence running out is an `expect`. -/
def recordError (s : State) (error : LinuxError) : Option State :=
  if s.errorSeq + 1 < 2 ^ 64 then some {s with errorSeq := s.errorSeq + 1, lastError := some error}
  else none

/-- Another party's section of one page. -/
def otherStep (s : State) (page : Nat) : PageSection → Option State
  | .takeLease => (s.page page).takeLease.toOption.map (setPage s page)
  | .dropLease => some (setPage s page (s.page page).dropLease)
  | .markDirty => (s.page page).markDirty.toOption.map (setPage s page)
  | .takeGuard => (s.page page).takeGuard.toOption.map (setPage s page)
  | .dropGuard => (s.page page).dropGuard.toOption.map (setPage s page)
  | .claim explicit =>
    if (s.page page).writebackAction explicit = .submit then
      some {setPage s page (s.page page).claim with
        flight := update s.flight page (some (s.page page).dirtySeq)}
    else some s
  | .report outcome =>
    match s.flight page with
    | none => none
    | some seq =>
      let s' := {setPage s page ((s.page page).report seq outcome.isNone) with
        flight := update s.flight page none}
      match outcome with
      | none => some s'
      | some error => recordError s' error

/-- The rest of what other parties do to the mapping. -/
def mappingStep (s : State) : Action → Option State
  | .other page change => if page < s.nextPage then otherStep s page change else none
  | .recordError error => recordError s error
  | .load index =>
    if s.tree.any (·.1 == index) then some s
    else
      some {setPage s s.nextPage .clean with
        tree := (index, s.nextPage) :: s.tree
        nextPage := s.nextPage + 1}
  | .reclaim index =>
    some {s with tree := s.tree.filter fun entry => entry.1 != index || !(s.page entry.2).reclaimable}
  | .extend size => some {s with logicalSize := max s.logicalSize size}
  | .resize size =>
    -- A resize waits for every admitted operation, so it falls between two calls.
    if s.phase.isOutside then
      some {s with
        tree := s.tree.filter fun entry => entry.1 * pageSize < size
        logicalSize := size
        backingLen := size}
    else none
  | _ => none

/-- The caller takes its next step. -/
def syncStep (s : State) : Option State :=
  match s.phase with
  | .collecting start stop => some {s with phase := .buffering (residentPages s start stop)}
  | .buffering pages => some {s with phase := .writing pages none}
  | .writing [] none => some {s with phase := .settingLen s.logicalSize}
  | .writing [] (some error) => some {s with phase := .consuming (some error)}
  | .writing (page :: rest) firstError =>
    match (s.page page).writebackAction true with
    | .skip => some {s with phase := .writing rest firstError}
    | .wait => some {s with phase := .waiting page rest firstError}
    | .submit =>
      some {setPage s page (s.page page).claim with
        phase := .flying page (s.page page).dirtySeq rest firstError}
  | .waiting page rest firstError =>
    if (s.page page).writebackSeq = none then some {s with phase := .writing (page :: rest) firstError}
    else some s
  | .flying page seq rest firstError => some {s with phase := .wrote page seq none rest firstError}
  | .wrote page seq none rest firstError =>
    some {setPage s page ((s.page page).report seq true) with phase := .writing rest firstError}
  | .wrote page seq (some error) rest firstError =>
    (recordError (setPage s page ((s.page page).report seq false)) error).map fun s' =>
      {s' with phase := .writing rest (firstError.or (some error))}
  | .settingLen length => some {s with backingLen := length, lenSet := true, phase := .syncing}
  | .syncing => some {s with synced := true, phase := .consuming none}
  | .recording error =>
    (recordError s error).map fun s' => {s' with phase := .consuming (some error)}
  | .consuming firstError =>
    if s.errorSeq = s.seenSequence then some {s with phase := .returned (.ok ())}
    else
      some {s with
        seenSequence := s.errorSeq
        reports := s.reports ++ [(s.seenSequence, s.errorSeq)]
        phase := .returned (.error (firstError.getD (s.lastError.getD .eio)))}
  | .idle | .returned _ => none

/-- The caller's next step fails: an allocation, a wait's reservation, or the backing. -/
def failStep (s : State) (error : LinuxError) : Option State :=
  match s.phase with
  | .collecting .. | .buffering _ =>
    if error = .enomem then some {s with phase := .returned (.error error)} else none
  | .waiting page rest firstError =>
    if error = .enomem ∧ (s.page page).writebackSeq ≠ none then
      some {s with waitFailed := true, phase := .writing rest (firstError.or (some error))}
    else none
  | .flying page seq rest firstError => some {s with phase := .wrote page seq (some error) rest firstError}
  | .settingLen _ => some {s with phase := .recording error}
  | .syncing => some {s with phase := .recording error}
  | _ => none

/-- The dirty pages of the range, with the sequence the call owes for each. -/
def dueAt (s : State) (start stop : Nat) : List (Nat × Nat) :=
  ((residentPages s start stop).filter fun page => (s.page page).isDirty).map fun page =>
    (page, (s.page page).dirtySeq)

/-- The call is admitted. -/
def beginCall (s : State) (start stop : Nat) : State :=
  {s with
    phase := .collecting start stop
    due := dueAt s start stop
    lenSet := false
    synced := false
    waitFailed := false}

/-- The call is turned away: the manager is shutting down or a resize has the gate. -/
def refuseCall (s : State) (error : LinuxError) : State :=
  {s with
    phase := .returned (.error error)
    due := []
    lenSet := false
    synced := false
    waitFailed := false}

def step (label : Action) (s : State) : Option State :=
  match label with
  | .call start stop => if s.phase.isOutside then some (beginCall s start stop) else none
  | .refuse error => if s.phase.isOutside then some (refuseCall s error) else none
  | .step => syncStep s
  | .fail error => failStep s error
  | other => mappingStep s other

def machine : Machine State Action := ⟨step⟩

/-- What returning `Ok` promises: every page owed is persisted up to its sequence at the
call, the length was set and the backing synced, and the cursor has seen every error. -/
def Honest (s : State) : Prop :=
  (∀ entry ∈ s.due, entry.2 ≤ (s.page entry.1).persistedSeq) ∧ s.lenSet = true ∧ s.synced = true ∧
    s.errorSeq = s.seenSequence

/-- How often the cursor has reported an epoch. -/
def reported (s : State) (epoch : Nat) : Nat :=
  (s.reports.filter fun report => report.1 < epoch && epoch ≤ report.2).length

/-! ### What the others can do -/

/-- The other parties move: sequences only grow, and while the caller collects, a page
leaves the tree only clean. -/
structure Later (s t : State) : Prop where
  phase : t.phase = s.phase
  due : t.due = s.due
  flags : t.lenSet = s.lenSet ∧ t.synced = s.synced ∧ t.waitFailed = s.waitFailed
  cursor : t.seenSequence = s.seenSequence ∧ t.reports = s.reports
  errors : s.errorSeq ≤ t.errorSeq
  pages : s.nextPage ≤ t.nextPage
  grows : ∀ page < s.nextPage, (s.page page).dirtySeq ≤ (t.page page).dirtySeq ∧
    (s.page page).persistedSeq ≤ (t.page page).persistedSeq
  tree : ∀ entry ∈ t.tree, entry ∈ s.tree ∨ entry.2 < t.nextPage
  kept : s.phase.isOutside = false → ∀ entry ∈ s.tree,
    entry ∈ t.tree ∨ (t.page entry.2).dirtySeq ≤ (t.page entry.2).persistedSeq

variable {page : Nat} {state : PageState} {error : LinuxError}

section Later
variable {s t u : State}

theorem later_refl (s : State) : Later s s where
  phase := rfl
  due := rfl
  flags := ⟨rfl, rfl, rfl⟩
  cursor := ⟨rfl, rfl⟩
  errors := le_rfl
  pages := le_rfl
  grows := fun _ _ => ⟨le_rfl, le_rfl⟩
  tree := fun _ h => .inl h
  kept := fun _ _ h => .inl h

/-- A page section that lowers no sequence is such a move. -/
theorem later_setPage (hdi : (s.page page).dirtySeq ≤ state.dirtySeq)
    (hpe : (s.page page).persistedSeq ≤ state.persistedSeq) (f : Nat → Option Nat) :
    Later s {setPage s page state with flight := f} where
  __ := later_refl s
  grows := by
    intro p _
    by_cases hp : p = page
    · subst hp
      simpa [setPage] using ⟨hdi, hpe⟩
    · simp [setPage, hp]
  kept := fun _ _ h => .inl h

theorem later_recordError (hl : Later s t) (h : recordError t error = some u) : Later s u := by
  unfold recordError at h
  split at h
  · cases h
    exact {hl with errors := Nat.le_succ_of_le hl.errors}
  · cases h

/-- A section that may be refused leaves the page to one that lowers no sequence. -/
theorem later_section {next : Except Stop PageState}
    (hn : ∀ state, next = .ok state → (s.page page).dirtySeq ≤ state.dirtySeq ∧
      (s.page page).persistedSeq ≤ state.persistedSeq) (h : next.toOption.map (setPage s page) = some t) : Later s t := by
  cases next with
  | error stop => cases h
  | ok state =>
    cases h
    exact later_setPage (hn state rfl).1 (hn state rfl).2 s.flight

theorem report_grows (p : PageState) (seq : Nat) (succeeded : Bool) :
    p.dirtySeq = (p.report seq succeeded).dirtySeq ∧ p.persistedSeq ≤ (p.report seq succeeded).persistedSeq := by
  cases succeeded
  · exact ⟨rfl, le_rfl⟩
  · exact ⟨rfl, Nat.le_max_left _ _⟩

theorem otherStep_later {c : PageSection} (h : otherStep s page c = some t) : Later s t := by
  cases c with
  | takeLease =>
    refine later_section (fun state hsta => ?_) h
    rw [PageState.takeLease_eq hsta]
    exact ⟨le_rfl, le_rfl⟩
  | dropLease =>
    cases h
    refine later_setPage ?_ ?_ s.flight <;> exact le_rfl
  | markDirty =>
    refine later_section (fun state hsta => ?_) h
    rw [PageState.markDirty_eq hsta]
    exact ⟨Nat.le_succ _, le_rfl⟩
  | takeGuard =>
    refine later_section (fun state hsta => ?_) h
    rw [PageState.takeGuard_eq hsta]
    exact ⟨Nat.le_succ _, le_rfl⟩
  | dropGuard =>
    refine later_section (fun state hsta => ?_) h
    rw [PageState.dropGuard_eq hsta]
    exact ⟨Nat.le_succ _, le_rfl⟩
  | claim expl =>
    simp only [otherStep] at h
    split at h
    · cases h
      refine later_setPage ?_ ?_ _ <;> exact le_rfl
    · cases h
      exact later_refl s
  | report out =>
    simp only [otherStep] at h
    split at h
    · cases h
    next seq _ =>
      have hgr := report_grows (s.page page) seq out.isNone
      have hl := later_setPage hgr.1.le hgr.2 (update s.flight page none)
      split at h
      · cases h
        exact hl
      · exact later_recordError hl h

theorem mappingStep_later {label : Action} (h : mappingStep s label = some t) : Later s t := by
  have hs := later_refl s
  cases label with
  | other page change =>
    simp only [mappingStep] at h
    split at h
    · exact otherStep_later h
    · cases h
  | recordError error => exact later_recordError hs h
  | load idx =>
    simp only [mappingStep] at h
    split at h
    · cases h
      exact hs
    · cases h
      refine ⟨rfl, rfl, ⟨rfl, rfl, rfl⟩, ⟨rfl, rfl⟩, le_rfl, Nat.le_succ _, fun page hpg => ?_,
        fun entry he => ?_, fun _ entry he => .inl (.tail _ he)⟩
      · simp [setPage, Nat.ne_of_lt hpg]
      · obtain rfl | he := mem_cons.mp he
        · exact .inr (Nat.lt_succ_self _)
        · exact .inl he
  | reclaim idx =>
    cases h
    refine {hs with tree := fun entry he => .inl (mem_filter.mp he).1, kept := ?_}
    intro _ entry he
    by_cases hfr : (s.page entry.2).reclaimable
    · right
      simp only [PageState.reclaimable, Bool.and_eq_true, Bool.not_eq_true'] at hfr
      exact (PageState.isDirty_eq_false.mp hfr.1.1.1).1
    · left
      exact mem_filter.mpr ⟨he, by simp [hfr]⟩
  | extend size =>
    cases h
    exact {hs with}
  | resize size =>
    simp only [mappingStep] at h
    split at h
    next hout =>
      cases h
      exact {hs with
        tree := fun entry he => .inl (mem_filter.mp he).1
        kept := fun hin => absurd hin (by simp [hout])}
    · cases h
  | call | refuse | step | fail => cases h

end Later

/-! ### What a call keeps -/

/-- The collected pages whose writeback has not begun. -/
def remaining (s : State) : List Nat :=
  match s.phase with
  | .collecting start stop => residentPages s start stop
  | .buffering pages => pages
  | .writing rest _ => rest
  | .waiting page rest _ => page :: rest
  | .flying _ _ rest _ | .wrote _ _ _ rest _ => rest
  | _ => []

/-- The sequence a writeback of the caller has claimed. -/
def Phase.claimed : Phase → Option (Nat × Nat)
  | .flying page seq _ _ => some (page, seq)
  | .wrote page seq none _ _ => some (page, seq)
  | _ => none

/-- The call has met an error, recorded or not. -/
def Phase.failed : Phase → Bool
  | .writing _ firstError | .waiting _ _ firstError | .flying _ _ _ firstError
  | .consuming firstError => firstError.isSome
  | .wrote _ _ outcome _ firstError => outcome.isSome || firstError.isSome
  | .recording _ => true
  | _ => false

/-- A page owed is still to come, under way, persisted far enough, or the call has failed. -/
def Owed (s : State) (entry : Nat × Nat) : Prop :=
  entry.1 ∈ remaining s ∨ (∃ seq, s.phase.claimed = some (entry.1, seq) ∧ entry.2 ≤ seq) ∨
    entry.2 ≤ (s.page entry.1).persistedSeq ∨ s.phase.failed = true

/-- While pages are written back, the local channel is fed by failed waits and by errors
that are recorded as well. -/
def Channel (s : State) (firstError : Option LinuxError) : Prop :=
  s.lenSet = false ∧ (s.waitFailed = true → firstError ≠ none) ∧
    (firstError ≠ none → s.waitFailed = true ∨ s.seenSequence < s.errorSeq)

/-- What the caller has done and met when it stands at a phase. -/
def Standing (s : State) : Prop :=
  match s.phase with
  | .idle | .returned _ => True
  | .collecting .. | .buffering _ => s.lenSet = false ∧ s.waitFailed = false
  | .writing _ firstError | .waiting _ _ firstError | .flying _ _ _ firstError
  | .wrote _ _ _ _ firstError => Channel s firstError
  | .settingLen _ | .recording _ => s.waitFailed = false
  | .syncing => s.waitFailed = false ∧ s.lenSet = true
  | .consuming none => s.waitFailed = false ∧ s.lenSet = true ∧ s.synced = true
  | .consuming (some _) => s.waitFailed = true ∧ s.lenSet = false ∨ s.seenSequence < s.errorSeq

structure Inv (first : Nat) (s : State) : Prop where
  seen : s.seenSequence ≤ s.errorSeq
  tree : ∀ entry ∈ s.tree, entry.2 < s.nextPage
  due : ∀ entry ∈ s.due, entry.1 < s.nextPage ∧ entry.2 ≤ (s.page entry.1).dirtySeq
  owed : s.phase.isOutside = false → ∀ entry ∈ s.due, Owed s entry
  standing : Standing s
  epochs : first ≤ s.seenSequence ∧
    ∀ epoch, reported s epoch = if first < epoch ∧ epoch ≤ s.seenSequence then 1 else 0

variable {result : LinuxResult Unit}

section Invariant
variable {first : Nat} {s t : State}

theorem initial_inv (len errors : Nat) : Inv errors (initial len errors) where
  seen := le_rfl
  tree := nofun
  due := nofun
  owed := nofun
  standing := trivial
  epochs := by
    refine ⟨le_rfl, fun epoch => ?_⟩
    have hno : ¬(errors < epoch ∧ epoch ≤ errors) := by omega
    simp [reported, initial, hno]

theorem Standing.later (hl : Later s t) (h : Standing s) : Standing t := by
  obtain ⟨hlen, hsy, hwa⟩ := hl.flags
  have her := hl.errors
  have hcu := hl.cursor.1
  unfold Standing at h ⊢
  rw [hl.phase]
  unfold Channel at h ⊢
  split <;> grind

/-- While the caller collects, a page it owes is still in the tree or clean. -/
theorem Owed.later {e : Nat × Nat} (hl : Later s t) (hac : s.phase.isOutside = false)
    (hlt : e.1 < s.nextPage) (hseq : e.2 ≤ (s.page e.1).dirtySeq) (h : Owed s e) :
    Owed t e := by
  obtain ⟨hdi, hpe⟩ := hl.grows e.1 hlt
  unfold Owed at h ⊢
  rw [hl.phase]
  obtain hin | hcm | hd | hfl := h
  · unfold remaining at hin ⊢
    rw [hl.phase]
    split at hin
    case h_1 start stop hp =>
      unfold residentPages at hin ⊢
      split at hin
      · cases hin
      next hra =>
        rw [if_neg hra]
        obtain ⟨found, hfo, hobj⟩ := mem_map.mp hin
        obtain ⟨hmem, hix⟩ := mem_filter.mp hfo
        obtain hke | hcl := hl.kept hac found hmem
        · exact .inl (mem_map.mpr ⟨found, mem_filter.mpr ⟨hke, hix⟩, hobj⟩)
        · rw [hobj] at hcl
          exact .inr (.inr (.inl (by omega)))
    all_goals exact .inl hin
  · exact .inr (.inl hcm)
  · exact .inr (.inr (.inl (hd.trans hpe)))
  · exact .inr (.inr (.inr hfl))

/-- The other parties keep the invariant. -/
theorem Inv.later (hl : Later s t) (h : Inv first s) : Inv first t where
  seen := by
    rw [hl.cursor.1]
    exact h.seen.trans hl.errors
  tree := by
    intro e he
    obtain hold | hnew := hl.tree e he
    · exact (h.tree e hold).trans_le hl.pages
    · exact hnew
  due := by
    intro e he
    rw [hl.due] at he
    obtain ⟨hlt, hseq⟩ := h.due e he
    exact ⟨hlt.trans_le hl.pages, hseq.trans (hl.grows e.1 hlt).1⟩
  owed := by
    intro hac e he
    rw [hl.phase] at hac
    rw [hl.due] at he
    obtain ⟨hlt, hseq⟩ := h.due e he
    exact .later hl hac hlt hseq (h.owed hac e he)
  standing := h.standing.later hl
  epochs := by
    unfold reported
    rw [hl.cursor.1, hl.cursor.2]
    exact h.epochs

/-- A move of the caller other than consuming: the history is left alone. -/
structure Moves (s t : State) : Prop where
  tree : t.tree = s.tree ∧ t.nextPage = s.nextPage
  due : t.due = s.due
  cursor : t.seenSequence = s.seenSequence ∧ t.reports = s.reports
  errors : s.errorSeq ≤ t.errorSeq
  dirty : ∀ page, (t.page page).dirtySeq = (s.page page).dirtySeq

theorem Moves.same (h : (t.tree, t.nextPage, t.due, t.seenSequence, t.reports, t.errorSeq, t.page) =
    (s.tree, s.nextPage, s.due, s.seenSequence, s.reports, s.errorSeq, s.page)) : Moves s t := by
  simp only [Prod.mk.injEq] at h
  obtain ⟨htr, hn, hdue, hse, hre, her, hpg⟩ := h
  exact ⟨⟨htr, hn⟩, hdue, ⟨hse, hre⟩, her.ge, fun _ => by rw [hpg]⟩

theorem Inv.moves (h : Inv first s)
    (hod : ∀ e ∈ s.due, e.2 ≤ (s.page e.1).dirtySeq → Owed s e → Owed t e)
    (hac : s.phase.isOutside = false) (hsd : Standing t) (hmo : Moves s t) :
    Inv first t where
  seen := by
    rw [hmo.cursor.1]
    exact h.seen.trans hmo.errors
  tree := by
    rw [hmo.tree.1, hmo.tree.2]
    exact h.tree
  due := by
    intro e he
    rw [hmo.due] at he
    rw [hmo.tree.2, hmo.dirty]
    exact h.due e he
  owed := by
    intro _ e he
    rw [hmo.due] at he
    exact hod e he (h.due e he).2 (h.owed hac e he)
  standing := hsd
  epochs := by
    unfold reported
    rw [hmo.cursor.1, hmo.cursor.2]
    exact h.epochs

theorem setPage_dirty (h : state.dirtySeq = (s.page page).dirtySeq) (o : Nat) :
    ((setPage s page state).page o).dirtySeq = (s.page o).dirtySeq := by
  by_cases ho : o = page
  · subst ho
    simpa [setPage] using h
  · simp [setPage, ho]

theorem setPage_persisted (h : (s.page page).persistedSeq ≤ state.persistedSeq) (o : Nat) :
    (s.page o).persistedSeq ≤ ((setPage s page state).page o).persistedSeq := by
  by_cases ho : o = page
  · subst ho
    simpa [setPage] using h
  · simp [setPage, ho]

theorem recordError_eq (h : recordError s error = some t) :
    t = {s with errorSeq := s.errorSeq + 1, lastError := some error} := by
  unfold recordError at h
  split at h
  · exact (Option.some.inj h).symm
  · cases h

variable {err : Option LinuxError}

open Phase (claimed failed isOutside)

section
variable (h : Inv first s) {rest : List Nat}
include h

/-- The first section of `writeback_page`, by the action it finds. -/
theorem writing_inv (hp : s.phase = .writing (page :: rest) err)
    (hst : syncStep s = some t) : Inv first t := by
  have hac : s.phase.isOutside = false := by rw [hp]; rfl
  have hch : Channel s err := by simpa only [Standing, hp] using h.standing
  simp only [syncStep, hp] at hst
  split at hst
  case h_1 hact =>
    cases hst
    refine h.moves ?_ hac hch (.same rfl)
    intro e _ hseq hod
    simp only [Owed, remaining, hp] at hod ⊢
    obtain hin | hcm | hd := hod
    · obtain rfl | hin := mem_cons.mp hin
      · have hcl := (PageState.isDirty_eq_false.mp (PageState.skip_clean hact)).1
        exact .inr (.inr (.inl (by omega)))
      · exact .inl hin
    · obtain ⟨_, hcm, _⟩ := hcm
      cases hcm
    · exact .inr (.inr hd)
  case h_2 =>
    cases hst
    refine h.moves ?_ hac hch (.same rfl)
    intro e _ _ hod
    simpa only [Owed, remaining, hp, claimed, failed] using hod
  case h_3 =>
    cases hst
    refine h.moves ?_ hac hch ⟨⟨rfl, rfl⟩, rfl, ⟨rfl, rfl⟩, le_rfl, setPage_dirty rfl⟩
    intro e _ hseq hod
    simp only [Owed, remaining, hp] at hod ⊢
    obtain hin | hcm | hd | hfl := hod
    · obtain rfl | hin := mem_cons.mp hin
      · exact .inr (.inl ⟨_, rfl, hseq⟩)
      · exact .inl hin
    · obtain ⟨_, hcm, _⟩ := hcm
      cases hcm
    · refine .inr (.inr (.inl (Nat.le_trans hd ?_)))
      refine setPage_persisted ?_ e.1
      exact le_rfl
    · exact .inr (.inr (.inr hfl))

/-- The second section of `writeback_page`, after the backing took the snapshot or not. -/
theorem wrote_inv {seq : Nat} {out : Option LinuxError}
    (hp : s.phase = .wrote page seq out rest err) (hst : syncStep s = some t) : Inv first t := by
  have hac : s.phase.isOutside = false := by rw [hp]; rfl
  have hch : Channel s err := by simpa only [Standing, hp] using h.standing
  have hre := fun succeeded => report_grows (s.page page) seq succeeded
  cases out with
  | none =>
    simp only [syncStep, hp] at hst
    cases hst
    refine h.moves ?_ hac hch ⟨⟨rfl, rfl⟩, rfl, ⟨rfl, rfl⟩, le_rfl, setPage_dirty (hre true).1.symm⟩
    intro e _ _ hod
    simp only [Owed, remaining, hp, failed] at hod ⊢
    obtain hin | hcm | hd | hfl := hod
    · exact .inl hin
    · obtain ⟨_, hcm, hle⟩ := hcm
      cases hcm
      refine .inr (.inr (.inl (Nat.le_trans hle ?_)))
      simp [setPage, PageState.report]
    · exact .inr (.inr (.inl (hd.trans (setPage_persisted (hre true).2 e.1))))
    · exact .inr (.inr (.inr (by simpa using hfl)))
  | some error =>
    simp only [syncStep, hp] at hst
    obtain ⟨u, hu, rfl⟩ := map_eq_some_iff.mp hst
    rw [recordError_eq hu]
    refine h.moves ?_ hac ?_
      ⟨⟨rfl, rfl⟩, rfl, ⟨rfl, rfl⟩, Nat.le_succ _, setPage_dirty (hre false).1.symm⟩
    · intro e _ _ _
      exact .inr (.inr (.inr (by cases err <;> rfl)))
    · obtain ⟨hlen, hwa, _⟩ := hch
      refine ⟨hlen, fun _ => by cases err <;> exact nofun, fun _ => .inr ?_⟩
      exact Nat.lt_succ_of_le h.seen

/-- `consume_error` reports every epoch between the cursor and the recorded one. -/
theorem consuming_inv (hp : s.phase = .consuming err) (hst : syncStep s = some t) :
    Inv first t := by
  simp only [syncStep, hp] at hst
  split at hst
  · cases hst
    exact {h with owed := nofun, standing := trivial}
  · cases hst
    obtain ⟨hfi, hep⟩ := h.epochs
    have hse := h.seen
    refine ⟨le_rfl, h.tree, h.due, nofun, trivial, hfi.trans hse, fun epoch => ?_⟩
    have hold := hep epoch
    simp only [reported, List.filter_append, List.length_append] at hold ⊢
    rw [hold]
    by_cases hnew : s.seenSequence < epoch ∧ epoch ≤ s.errorSeq
    · have hdue : first < epoch ∧ epoch ≤ s.errorSeq := by omega
      simp [hdue, hnew]
    · have hsa : (first < epoch ∧ epoch ≤ s.errorSeq) ↔ (first < epoch ∧ epoch ≤ s.seenSequence) := by
        omega
      simp [hsa, hnew]

/-- A step of the caller that touches no page and drops nothing it owes. -/
theorem Inv.onward (hph : remaining t = remaining s ∧ t.phase.claimed = s.phase.claimed ∧
      t.phase.failed = s.phase.failed ∧ s.phase.isOutside = false) (hsd : Standing t)
    (hmo : Moves s t) (hpg : t.page = s.page) : Inv first t := by
  obtain ⟨hle, hcm, hfl, hac⟩ := hph
  refine h.moves (fun e _ _ hod => ?_) hac hsd hmo
  unfold Owed at hod ⊢
  rwa [hle, hcm, hfl, hpg]

theorem syncStep_inv (hst : syncStep s = some t) : Inv first t := by
  have hsd := h.standing
  cases hp : s.phase with
  | idle | returned result => simp [syncStep, hp] at hst
  | consuming err => exact consuming_inv h hp hst
  | wrote page seq out rest err => exact wrote_inv h hp hst
  | collecting _ _ | flying _ _ _ _ =>
    simp only [syncStep, hp, Standing] at hst hsd
    cases hst
    refine h.onward ?_ hsd (.same rfl) rfl
    simp [remaining, hp, claimed, failed, isOutside]
  | buffering pages =>
    simp only [syncStep, hp, Standing] at hst hsd
    cases hst
    refine h.onward ?_ ?_ (.same rfl) rfl
    · simp [remaining, hp, claimed, failed, isOutside]
    · exact ⟨hsd.1, fun hwa => absurd hwa (by simp [hsd.2]), fun hne => absurd rfl hne⟩
  | writing rest err =>
    cases rest with
    | cons page rest => exact writing_inv h hp hst
    | nil =>
      simp only [Standing, hp] at hsd
      obtain ⟨hlen, hwa, her⟩ := hsd
      cases err with
      | none =>
        simp only [syncStep, hp] at hst
        cases hst
        refine h.onward ?_ ?_ (.same rfl) rfl
        · simp [remaining, hp, claimed, failed, isOutside]
        · simpa [Standing] using hwa
      | some error =>
        simp only [syncStep, hp] at hst
        cases hst
        refine h.onward ?_ ?_ (.same rfl) rfl
        · simp [remaining, hp, claimed, failed, isOutside]
        · exact (her nofun).imp (fun hfl => ⟨hfl, hlen⟩) id
  | waiting page rest err =>
    simp only [syncStep, hp, Standing] at hst hsd
    split at hst
    · cases hst
      refine h.onward ?_ hsd (.same rfl) rfl
      simp [remaining, hp, claimed, failed, isOutside]
    · cases hst
      exact h
  | settingLen len =>
    simp only [syncStep, hp, Standing] at hst hsd
    cases hst
    refine h.onward ?_ ⟨hsd, rfl⟩ (.same rfl) rfl
    simp [remaining, hp, claimed, failed, isOutside]
  | syncing =>
    simp only [syncStep, hp, Standing] at hst hsd
    cases hst
    refine h.onward ?_ ⟨hsd.1, hsd.2, rfl⟩ (.same rfl) rfl
    simp [remaining, hp, claimed, failed, isOutside]
  | recording error =>
    simp only [syncStep, hp] at hst
    obtain ⟨u, hu, rfl⟩ := map_eq_some_iff.mp hst
    rw [recordError_eq hu]
    refine h.onward ?_ (.inr (Nat.lt_succ_of_le h.seen)) ⟨⟨rfl, rfl⟩, rfl, ⟨rfl, rfl⟩, Nat.le_succ _, fun _ => rfl⟩ rfl
    simp [remaining, hp, claimed, failed, isOutside]

/-- A failing step leaves the call failed, or the mapping to be told. -/
theorem failStep_inv (hst : failStep s error = some t) : Inv first t := by
  have hsd := h.standing
  cases hp : s.phase with
  | idle | returned _ | writing _ _ | wrote _ _ _ _ _ | recording _ | consuming _ =>
    simp [failStep, hp] at hst
  | collecting _ _ | buffering _ =>
    simp only [failStep, hp, ite_none_right_eq_some] at hst
    obtain ⟨_, hst⟩ := hst
    cases hst
    exact {h with owed := nofun, standing := trivial}
  | waiting page rest err =>
    simp only [failStep, hp, Standing, ite_none_right_eq_some] at hst hsd
    obtain ⟨_, hst⟩ := hst
    cases hst
    refine h.moves ?_ (by rw [hp]; rfl) ?_ (.same rfl)
    · exact fun _ _ _ _ => .inr (.inr (.inr (by cases err <;> rfl)))
    · exact ⟨hsd.1, fun _ => by cases err <;> exact nofun, fun _ => .inl rfl⟩
  | flying _ _ _ _ | settingLen _ =>
    simp only [failStep, hp, Standing] at hst hsd
    cases hst
    refine h.moves ?_ (by rw [hp]; rfl) hsd (.same rfl)
    exact fun _ _ _ _ => .inr (.inr (.inr rfl))
  | syncing =>
    simp only [failStep, hp, Standing] at hst hsd
    cases hst
    refine h.moves ?_ (by rw [hp]; rfl) hsd.1 (.same rfl)
    exact fun _ _ _ _ => .inr (.inr (.inr rfl))

/-- At admission the call owes the dirty pages it is about to collect. -/
theorem beginCall_inv (start stop : Nat) : Inv first (beginCall s start stop) := by
  have hdue : ∀ e ∈ dueAt s start stop,
      e.1 ∈ residentPages s start stop ∧ e.2 = (s.page e.1).dirtySeq := by
    intro e he
    obtain ⟨page, hpg, rfl⟩ := mem_map.mp he
    exact ⟨(mem_filter.mp hpg).1, rfl⟩
  have hres : ∀ page ∈ residentPages s start stop, page < s.nextPage := by
    intro page hpg
    unfold residentPages at hpg
    split at hpg
    · cases hpg
    · obtain ⟨e, he, rfl⟩ := mem_map.mp hpg
      exact h.tree e (mem_filter.mp he).1
  refine ⟨h.seen, h.tree, fun e he => ?_, fun _ e he => ?_, ⟨rfl, rfl⟩, h.epochs⟩
  · obtain ⟨hin, hseq⟩ := hdue e he
    exact ⟨hres e.1 hin, hseq.le⟩
  · exact .inl (hdue e he).1

end

theorem step_inv (label : Action) (s t : State) (h : Inv first s) (hst : step label s = some t) :
    Inv first t := by
  cases label with
  | call start stop =>
    obtain ⟨_, hst⟩ := ite_none_right_eq_some.mp hst
    cases hst
    exact beginCall_inv h start stop
  | refuse error =>
    obtain ⟨_, hst⟩ := ite_none_right_eq_some.mp hst
    cases hst
    exact {h with due := nofun, owed := nofun, standing := trivial}
  | step => exact syncStep_inv h hst
  | fail error => exact failStep_inv h hst
  | other | recordError | load | reclaim | extend | resize =>
    simp only [step] at hst
    exact h.later (mappingStep_later hst)

theorem run_inv {len errors : Nat} {ls : List Action}
    (hrun : machine.run (initial len errors) ls = some s) : Inv errors s :=
  Machine.run_induct step_inv ls (initial_inv len errors) hrun

/-! ### What a returning call says -/

/-- Only `consume_error` returns `Ok`, and only with nothing new behind the cursor. -/
theorem consuming_returns (hp : s.phase = .consuming err) (hst : syncStep s = some t)
    (hret : t.phase = .returned result) :
    result = .ok () ∧ s.errorSeq = s.seenSequence ∧ t = {s with phase := .returned (.ok ())} ∨
      result ≠ .ok () ∧ s.errorSeq ≠ s.seenSequence := by
  simp only [syncStep, hp] at hst
  split_ifs at hst with hse
  · cases hst
    cases hret
    exact .inl ⟨rfl, hse, rfl⟩
  · cases hst
    cases hret
    exact .inr ⟨nofun, hse⟩

/-- The caller leaves only through `consume_error`. -/
theorem syncStep_returns (hst : syncStep s = some t) (hret : t.phase = .returned result) :
    ∃ err, s.phase = .consuming err := by
  unfold syncStep at hst
  split at hst
  case h_13 err hp => exact ⟨err, hp⟩
  case h_5 =>
    split at hst <;> cases hst <;> cases hret
  case h_6 hp =>
    split at hst
    · cases hst
      cases hret
    · cases hst
      cases hp.symm.trans hret
  case h_9 | h_12 =>
    obtain ⟨u, _, rfl⟩ := map_eq_some_iff.mp hst
    cases hret
  all_goals cases hst <;> cases hret

/-- A failing step makes the call return only before any page is written, with that error. -/
theorem failStep_returns (h : Inv first s) (hst : failStep s error = some t) (hret : t.phase = .returned result) :
    result ≠ .ok () ∧ s.waitFailed = false := by
  have hsd := h.standing
  cases hp : s.phase with
  | collecting | buffering =>
    simp only [failStep, hp, Standing, ite_none_right_eq_some] at hst hsd
    obtain ⟨_, hst⟩ := hst
    cases hst
    cases hret
    exact ⟨nofun, hsd.2⟩
  | waiting =>
    simp only [failStep, hp, ite_none_right_eq_some] at hst
    obtain ⟨_, hst⟩ := hst
    cases hst
    cases hret
  | flying | settingLen | syncing =>
    simp only [failStep, hp] at hst
    cases hst
    cases hret
  | idle | returned | writing | wrote | recording | consuming => simp [failStep, hp] at hst

/-- With nothing new behind the cursor, the returning call is honest exactly if no wait failed. -/
theorem consuming_honest (h : Inv first s) (hp : s.phase = .consuming err)
    (hse : s.errorSeq = s.seenSequence) : Honest {s with phase := .returned (.ok ())} ↔ s.waitFailed = false := by
  have hsd := h.standing
  have hod := h.owed (by rw [hp]; rfl)
  cases err with
  | none =>
    simp only [Standing, hp] at hsd
    refine ⟨fun _ => hsd.1, fun _ => ⟨fun e he => ?_, hsd.2.1, hsd.2.2, hse⟩⟩
    simpa [Owed, remaining, hp, claimed, failed] using hod e he
  | some error =>
    simp only [Standing, hp] at hsd
    obtain ⟨hwa, hlen⟩ | hnew := hsd
    · constructor
      · rintro ⟨_, hset, _⟩
        exact absurd (hlen.symm.trans hset) nofun
      · intro hno
        exact absurd (hno.symm.trans hwa) nofun
    · exact absurd hse (by omega)

end Invariant

/-- **When `sync_range` tells the truth.** In every run, a call that returns is honest exactly
if no wait of it failed for lack of memory or an error had been recorded behind its cursor;
and each epoch recorded since the cursor was made is reported once, up to the cursor. -/
theorem sync_honest_iff (length errors : Nat) (labels : List Action) (label : Action) {s t : State}
    {result : LinuxResult Unit} (hrun : machine.run (initial length errors) labels = some s)
    (hactive : s.phase.isOutside = false) (hstep : machine.step label s = some t)
    (hret : t.phase = .returned result) :
    ((result = .ok () → Honest t) ↔ (s.waitFailed = false ∨ s.errorSeq ≠ s.seenSequence)) ∧
      ∀ epoch, reported t epoch = if errors < epoch ∧ epoch ≤ t.seenSequence then 1 else 0 := by
  have hinv := run_inv hrun
  refine ⟨?_, (step_inv label s t hinv hstep).epochs.2⟩
  replace hstep : step label s = some t := hstep
  cases label with
  | call _ _ | refuse _ => simp [step, hactive] at hstep
  | step =>
    obtain ⟨firstError, hp⟩ := syncStep_returns hstep hret
    obtain ⟨rfl, hse, rfl⟩ | ⟨herr, hnew⟩ := consuming_returns hp hstep hret
    · simpa [hse] using consuming_honest hinv hp hse
    · exact ⟨fun _ => .inr hnew, fun _ hok => absurd hok herr⟩
  | fail error =>
    obtain ⟨herr, hwait⟩ := failStep_returns hinv hstep hret
    exact ⟨fun _ => .inl hwait, fun _ hok => absurd hok herr⟩
  | other | recordError | load | reclaim | extend | resize =>
    simp only [step] at hstep
    rw [← (mappingStep_later hstep).phase, hret] at hactive
    cases hactive

/-- One page is dirtied and another party's writeback of it is in flight when the sync comes. -/
def overtaken : List Action :=
  [.load 0, .other 0 .takeLease, .other 0 .markDirty, .other 0 .dropLease, .extend 10,
    .other 0 (.claim false), .call 0 10, .step, .step, .step]

/-- The other writeback fails, the sync retries it and then sets the length and syncs. -/
def retried : List Action :=
  overtaken ++ [.other 0 (.report (some .eio)), .step, .step, .step, .step, .step, .step, .step]

theorem sync_honest_iff_retried :
    ∃ s t, machine.run (initial 0 3) retried = some s ∧ s.phase.isOutside = false ∧
      machine.step .step s = some t ∧ t.phase = .returned (.error .eio) ∧
      ((Except.error LinuxError.eio = (.ok () : LinuxResult Unit) → Honest t) ↔
        (s.waitFailed = false ∨ s.errorSeq ≠ s.seenSequence)) ∧
      ∀ epoch, reported t epoch = if 3 < epoch ∧ epoch ≤ t.seenSequence then 1 else 0 :=
  ⟨_, _, rfl, rfl, rfl, rfl, sync_honest_iff 0 3 retried .step rfl rfl rfl rfl⟩

/-- The wait for the other writeback fails for lack of memory. Nothing is recorded, so the
call says `Ok`; the page is not persisted, the length not set and the backing not synced. -/
def failedWait : List Action := overtaken ++ [.fail .enomem, .step, .step]

theorem sync_hides_failed_wait :
    ∃ s, machine.run (initial 0 3) failedWait = some s ∧ s.phase = .returned (.ok ()) ∧ s.due = [(0, 1)] ∧
      (s.page 0).persistedSeq = 0 ∧ s.backingLen = 0 ∧ s.logicalSize = 10 ∧ s.lenSet = false ∧
      s.synced = false ∧ ¬Honest s :=
  ⟨_, rfl, rfl, rfl, rfl, rfl, rfl, rfl, rfl, fun h => nomatch h.2.1⟩

end StarryX.Cache.Sync
