import StarryX.Cache.Contents
import StarryX.Cache.DirtySequence

/-! Many threads on one file mapping.

Any number of threads call `read_at`, `write_at` and `sync_range` on a mapping, run
background writebacks of its pages, and reclaim clean pages, in any order. A step is one
section of the page-tree lock or of a page's lock, one copy into or out of a frame, one
sample or update of the logical size, or one call of the backing, which does not fail.
Allocation may fail wherever the code allocates, and a resize is not running.

`Phase` is where a thread stands; a writeback comes back to the `Task` that ran it, which
for the dirty throttle is the middle of a write. `history` is kept for stating results: the
copies writers have made into frames, newest first, so that `contents` is the value most
recently written to each byte. -/
namespace StarryX.Cache.Concurrent
open Library DirtySequence Function

/-- A writer's copy of `count` bytes to a position of the file. -/
structure Copy where
  position : Nat
  count : Nat
  bytes : Nat → Byte

/-- The value most recently written to each byte. -/
def contents (start : Nat → Byte) : List Copy → Nat → Byte
  | [] => start
  | copy :: older => overlay (contents start older) copy.position copy.count copy.bytes

/-! ### Jobs -/

/-- A `read_at`: what it has read so far, and the history when it started. -/
structure Reading where
  span : Span
  bytes : Nat → Byte
  base : List Copy

/-- A `write_at`. `zeroed` says that for its current chunk it has published a zeroed page. -/
structure Writing where
  span : Span
  source : Bytes Byte
  zeroed : Bool

inductive Job where
  | read (r : Reading)
  | write (w : Writing)

def Job.span : Job → Span
  | .read r => r.span
  | .write w => w.span

/-- The flag `acquire_page_inner` gets: a full-page write need not load what it replaces. -/
def Job.zeroOnMiss : Job → Bool
  | .read _ => false
  | .write w => w.span.fullPage

/-- The job has published the page it loaded. -/
def Job.published : Job → Job
  | .read r => .read r
  | .write w => .write {w with zeroed := w.zeroed || w.span.fullPage}

/-- What a writeback returns to. -/
inductive Task where
  | background
  | sync (rest : List Nat) (failed : Bool)
  | throttle (w : Writing)

inductive Phase where
  | idle
  /-- `read_at` before it samples the size. -/
  | opening (offset count : Nat) (base : List Copy)
  | chunk (job : Job)
  | acquiring (job : Job)
  | waiting (job : Job) (attempt : Nat)
  | allocating (job : Job) (attempt : Nat)
  | sizing (job : Job) (attempt length : Nat)
  | loaded (job : Job) (attempt : Nat) (frame : Frame)
  | loadFailed (job : Job) (attempt : Nat)
  | failing (job : Job)
  | leased (job : Job) (object : Nat)
  /-- Between the copy into the frame and `mark_dirty`. -/
  | copied (w : Writing) (object : Nat)
  | dropping (job : Job) (object : Nat)
  | finishing (w : Writing)
  | returned (r : Reading)
  | writeback (object : Nat) (explicit : Bool) (task : Task)
  | stalled (object : Nat) (explicit : Bool) (task : Task)
  | flying (object : Nat) (flight : Flight Frame) (task : Task)
  /-- `write_snapshot` after it sampled the size. -/
  | sampled (object : Nat) (flight : Flight Frame) (length : Nat) (task : Task)
  | wrote (object : Nat) (flight : Flight Frame) (task : Task)
  | syncing (rest : List Nat) (failed : Bool)
  | settingLen (length : Nat)

def Phase.isIdle : Phase → Bool
  | .idle => true
  | _ => false

inductive Slot where
  | absent
  | loading (attempt : Nat)
  | resident (object : Nat)
  deriving DecidableEq

/-- A `CachedPage`; `stores` counts the copies into its frame. -/
structure Page where
  index : Nat
  frame : Frame
  state : PageState
  stores : Nat

structure State (ι : Type) where
  page : Nat → Page
  nextPage : Nat
  slot : Nat → Slot
  attempt : Nat → Option Bool
  nextAttempt : Nat
  backing : Bytes Byte
  logicalSize : Nat
  start : Nat → Byte
  history : List Copy
  phase : ι → Phase

inductive Action where
  | read (offset count : Nat)
  | write (offset : Nat) (source : Bytes Byte)
  | sync (start stop : Nat)
  | writeback (object : Nat) (explicit : Bool)
  | throttle (object : Nat)
  | reclaim (index : Nat)
  | step
  | fail
  | leave

section Machine
variable {ι : Type} [DecidableEq ι]

/-- A mapping just created over a file, with nothing cached. -/
def initial (file : Bytes Byte) : State ι :=
  { page := fun _ => ⟨0, fun _ => 0, .clean, 0⟩
    nextPage := 0
    slot := fun _ => .absent
    attempt := fun _ => none
    nextAttempt := 0
    backing := file
    logicalSize := file.size
    start := file.get
    history := []
    phase := fun _ => .idle }

def goto (s : State ι) (i : ι) (phase : Phase) : State ι :=
  {s with phase := update s.phase i phase}

def setPage (s : State ι) (object : Nat) (page : Page) : State ι :=
  {s with page := update s.page object page}

def setSlot (s : State ι) (index : Nat) (slot : Slot) : State ι :=
  {s with slot := update s.slot index slot}

/-- One section of a page's lock. -/
def setState (s : State ι) (object : Nat) (state : PageState) : State ι :=
  setPage s object {s.page object with state := state}

/-! ### Reading and writing -/

/-- The section of `acquire_page_inner` under the page-tree lock. A lease count that runs
over is left out: it takes `2 ^ 32` threads. -/
def acquireStep (s : State ι) (i : ι) (job : Job) : Option (State ι) :=
  match s.slot job.span.index with
  | .resident object =>
    match (s.page object).state.takeLease with
    | .ok state => some (goto (setState s object state) i (.leased job object))
    | .error _ => none
  | .loading attempt => some (goto s i (.waiting job attempt))
  | .absent =>
    some (goto {setSlot s job.span.index (.loading s.nextAttempt) with
      nextAttempt := s.nextAttempt + 1} i (.allocating job s.nextAttempt))

/-- `finish_load` with a page. -/
def publishStep (s : State ι) (i : ι) (job : Job) (attempt : Nat) (frame : Frame) : State ι :=
  if s.slot job.span.index = .loading attempt then
    goto {setSlot (setPage s s.nextPage ⟨job.span.index, frame, .clean, 0⟩) job.span.index
        (.resident s.nextPage) with
      nextPage := s.nextPage + 1
      attempt := update s.attempt attempt (some true)} i (.acquiring job.published)
  else goto {s with attempt := update s.attempt attempt (some false)} i (.failing job)

/-- `finish_load` with an error. -/
def abandonStep (s : State ι) (i : ι) (job : Job) (attempt : Nat) : State ι :=
  let s' := {s with attempt := update s.attempt attempt (some false)}
  if s.slot job.span.index = .loading attempt then goto (setSlot s' job.span.index .absent) i (.failing job)
  else goto s' i (.failing job)

def loadStep (s : State ι) (i : ι) : Option (State ι) :=
  match s.phase i with
  | .acquiring job => acquireStep s i job
  | .waiting job attempt =>
    match s.attempt attempt with
    | some true => some (goto s i (.acquiring job))
    | some false => some (goto s i (.failing job))
    | none => none
  | .allocating job attempt =>
    if job.zeroOnMiss then some (goto s i (.loaded job attempt fun _ => 0))
    else some (goto s i (.sizing job attempt s.logicalSize))
  | .sizing job attempt length =>
    some (goto s i (.loaded job attempt (loadFrame s.backing.get job.span.index length)))
  | .loaded job attempt frame => some (publishStep s i job attempt frame)
  | .loadFailed job attempt => some (abandonStep s i job attempt)
  | _ => none

/-- The chunk of the source a write copies now. -/
def Writing.copy (w : Writing) : Copy :=
  ⟨w.span.position, w.span.length, fun j => w.source.get (w.span.done + j)⟩

def readChunk (r : Reading) (frame : Frame) : Reading :=
  {r with
    bytes := overlay r.bytes r.span.done r.span.length fun j => frame.readByte (r.span.inPage + j)
    span := r.span.advance}

def writeChunk (s : State ι) (w : Writing) (object : Nat) : State ι :=
  let page := s.page object
  {setPage s object {page with
      frame := page.frame.writeBytes w.span.inPage w.span.length w.copy.bytes
      stores := page.stores + 1} with
    history := w.copy :: s.history}

/-- The loops of `read_at` and `write_at_inner`. -/
def copyStep (s : State ι) (i : ι) : Option (State ι) :=
  match s.phase i with
  | .opening offset count base =>
    if count = 0 ∨ s.logicalSize ≤ offset then some (goto s i .idle)
    else
      some (goto s i
        (.chunk (.read ⟨⟨offset, min count (s.logicalSize - offset), 0⟩, fun _ => 0, base⟩)))
  | .chunk job =>
    if job.span.done < job.span.total then some (goto s i (.acquiring job))
    else
      match job with
      | .read r => some (goto s i (.returned r))
      | .write w => some (goto s i (.finishing w))
  | .leased (.read r) object =>
    some (goto s i (.dropping (.read (readChunk r (s.page object).frame)) object))
  | .leased (.write w) object => some (goto (writeChunk s w object) i (.copied w object))
  | .copied w object =>
    match (s.page object).state.markDirty with
    | .ok state =>
      some (goto (setState s object state) i
        (.dropping (.write {w with span := w.span.advance, zeroed := false}) object))
    | .error _ => none
  | .dropping job object =>
    some (goto (setState s object (s.page object).state.dropLease) i (.chunk job))
  | .failing (.read _) => some (goto s i .idle)
  | .failing (.write w) => some (goto s i (if w.span.done = 0 then .idle else .finishing w))
  | .finishing w =>
    some (goto {s with logicalSize := max s.logicalSize (w.span.offset + w.span.done)} i .idle)
  | _ => none

/-! ### Writing back -/

def Task.resume : Task → Phase
  | .background => .idle
  | .sync rest failed => .syncing rest failed
  | .throttle w => .chunk (.write w)

/-- `writeback_page` and `write_snapshot`. -/
def writebackStep (s : State ι) (i : ι) : Option (State ι) :=
  match s.phase i with
  | .writeback object explicit task =>
    let page := s.page object
    match page.state.writebackAction explicit with
    | .skip => some (goto s i task.resume)
    | .wait => some (goto s i (.stalled object explicit task))
    | .submit =>
      some (goto (setState s object page.state.claim) i
        (.flying object ⟨page.state.dirtySeq, page.frame, page.stores, none⟩ task))
  | .stalled object explicit task =>
    if (s.page object).state.writebackSeq = none then some (goto s i (.writeback object explicit task))
    else none
  | .flying object flight task => some (goto s i (.sampled object flight s.logicalSize task))
  | .sampled object flight length task =>
    some (goto {s with backing := writeSnapshot s.backing (s.page object).index length flight.snapshot} i
      (.wrote object {flight with outcome := some true} task))
  | .wrote object flight task =>
    some (goto (setState s object ((s.page object).state.report flight.seq true)) i task.resume)
  | _ => none

/-- `resident_pages`. -/
def residentPages (s : State ι) (start stop : Nat) : List Nat :=
  if stop ≤ start then []
  else
    (List.range' (pageIndex start) (pageIndex (stop - 1) + 1 - pageIndex start)).filterMap fun index =>
      match s.slot index with
      | .resident object => some object
      | _ => none

def syncStep (s : State ι) (i : ι) : Option (State ι) :=
  match s.phase i with
  | .syncing (object :: rest) failed => some (goto s i (.writeback object true (.sync rest failed)))
  | .syncing [] true => some (goto s i .idle)
  | .syncing [] false => some (goto s i (.settingLen s.logicalSize))
  | .settingLen length => some (goto {s with backing := s.backing.setLen length} i .idle)
  | _ => none

/-! ### Calls, failures and reclaim -/

def callStep (s : State ι) (i : ι) (action : Action) : Option (State ι) :=
  match s.phase i, action with
  | .idle, .read offset count => some (goto s i (.opening offset count s.history))
  | .idle, .write offset source =>
    if offset + source.size < 2 ^ 64 then
      some (goto s i (.chunk (.write ⟨⟨offset, source.size, 0⟩, source, false⟩)))
    else some s
  | .idle, .sync start stop => some (goto s i (.syncing (residentPages s start stop) false))
  | .idle, .writeback object explicit => some (goto s i (.writeback object explicit .background))
  | .chunk (.write w), .throttle object => some (goto s i (.writeback object false (.throttle w)))
  | .returned _, .leave => some (goto s i .idle)
  | _, _ => none

/-- An allocation fails: of the throttle's batch, a frame, a candidate slot or a wait slot. -/
def failStep (s : State ι) (i : ι) : Option (State ι) :=
  match s.phase i with
  | .chunk (.write w) => some (goto s i (.failing (.write w)))
  | .waiting job _ => some (goto s i (.failing job))
  | .allocating job attempt => some (goto s i (.loadFailed job attempt))
  | .loaded job attempt _ => some (goto s i (.loadFailed job attempt))
  | .stalled _ _ (.sync rest _) => some (goto s i (.syncing rest true))
  | .stalled _ _ task => some (goto s i task.resume)
  | _ => none

/-- `try_reclaim`: a clean page nobody uses leaves the tree. -/
def reclaimStep (s : State ι) (index : Nat) : Option (State ι) :=
  match s.slot index with
  | .resident object =>
    if (s.page object).state.reclaimable then some (setSlot s index .absent) else some s
  | _ => some s

def step (label : ι × Action) (s : State ι) : Option (State ι) :=
  let i := label.1
  match label.2 with
  | .step =>
    ((loadStep s i).or (copyStep s i)).or ((writebackStep s i).or (syncStep s i))
  | .fail => failStep s i
  | .reclaim index => reclaimStep s index
  | action => callStep s i action

def machine : Machine (State ι) (ι × Action) := ⟨step⟩

end Machine

end StarryX.Cache.Concurrent
