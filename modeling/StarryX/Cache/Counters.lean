import StarryX.Cache.Manager

/-! The cache as its counters see it.

Whatever adds, removes, dirties or cleans a page adjusts `resident_pages` and `dirty_pages`
of the manager and `dirty_pages` of the mapping. The model here has all that those
adjustments depend on: the states of the pages, the leases and shared-write guards that
callers hold from one operation to the next, frames that mappings share, and backings and
allocations that may fail. What a page holds is left out, and so is what a sync reports.

A page that a truncation removes while a lease or a guard refers to it lives on as an
orphan. An operation that would wait for somebody else's lease never completes. -/
namespace StarryX.Cache.Accounting
open Library
open Manager (CachePolicy wrappingAdd wrappingSub)

structure CachedPage where
  object : Nat
  state : PageState
  referenced : Bool

/-- `owned` says that someone outside the manager holds the mapping. -/
structure FileMapping where
  owned : Bool
  logicalSize : Nat
  pages : SortedMap CachedPage
  dirtyPages : Nat
  writebackCursor : Nat

/-- A reference to a page: in a lease, a guard or the clock. -/
structure PageRef where
  mapping : Nat
  index : Nat
  object : Nat
  deriving DecidableEq

/-- `nextId` is the next number of `allocate_object_id`, `shared` says of which pages there are
clones of the frame; `answers` decides what may fail: allocations, the backings, the observers. -/
structure CacheManager where
  policy : CachePolicy
  registry : SortedMap FileMapping
  orphans : SortedMap CachedPage
  candidates : List PageRef
  writebackResume : Nat
  residentPages : Nat
  dirtyPages : Nat
  nextPage : Nat
  nextId : Nat
  shared : Nat → Bool
  answers : Nat → Bool
  asked : Nat

/-- How an operation ends early. -/
inductive Ending where
  | stop (stop : Stop)
  | blocked

abbrev Prog := EStateM Ending CacheManager

def fail {α : Type} (code : LinuxError) : Prog α := throw (.stop (.error code))

def answer : Prog Bool := modifyGet fun s => (s.answers s.asked, {s with asked := s.asked + 1})

def reserve : Prog Unit := do
  if ← answer then pure () else fail .enomem

def getMapping (id : Nat) : Prog FileMapping := do
  match (← get).registry.get? id with
  | some m => pure m
  | none => throw (.stop .panic)

def modifyMapping (id : Nat) (f : FileMapping → FileMapping) : Prog Unit :=
  modify fun s => {s with registry := s.registry.modify id f}

def FileMapping.modifyPage (m : FileMapping) (index : Nat) (f : CachedPage → CachedPage) : FileMapping :=
  {m with pages := m.pages.modify index f}

/-- `Frame::is_unique`. -/
def CacheManager.unique (s : CacheManager) (page : CachedPage) : Bool := !s.shared page.object

namespace PageRef

/-- The page, if it is still in its mapping. -/
def resident (r : PageRef) (s : CacheManager) : Option CachedPage :=
  ((s.registry.get? r.mapping).bind fun m => m.pages.get? r.index).filter fun p => p.object == r.object

/-- The page, if it has left its mapping and somebody still refers to it. -/
def orphan (r : PageRef) (s : CacheManager) : Option CachedPage :=
  (s.orphans.get? r.object).filter fun p => p.state.leases != 0 || p.state.sharedGuardGroups != 0

/-- `Weak::upgrade`. -/
def page (r : PageRef) (s : CacheManager) : Option CachedPage := (r.resident s).or (r.orphan s)

/-- Changes the page where it is. -/
def modifyPage (r : PageRef) (f : CachedPage → CachedPage) : Prog Unit := modify fun s =>
  if (r.resident s).isSome then {s with registry := s.registry.modify r.mapping fun m => m.modifyPage r.index f}
  else {s with orphans := s.orphans.modify r.object f}

end PageRef

/-! ### Counting -/

def noteDirtied (id : Nat) : Prog Unit := do
  modifyMapping id fun m => {m with dirtyPages := wrappingAdd m.dirtyPages 1}
  modify fun s => {s with dirtyPages := wrappingAdd s.dirtyPages 1}

def noteCleaned (id : Nat) : Prog Unit := do
  modifyMapping id fun m => {m with dirtyPages := wrappingSub m.dirtyPages 1}
  modify fun s => {s with dirtyPages := wrappingSub s.dirtyPages 1}

/-- `remove_resident`. -/
def removeResident (resident dirty : Nat) : Prog Unit := modify fun s => {s with
  residentPages := wrappingSub s.residentPages resident
  dirtyPages := wrappingSub s.dirtyPages dirty}

/-- `tally`, of removed pages: how many there are, and how many of them are dirty. -/
def tally (pages : SortedMap CachedPage) : Nat × Nat :=
  (pages.total fun _ => 1, pages.total fun p => p.state.isDirty.toNat)

/-! ### Reclaim -/

def pruneMapping (id : Nat) : Prog Unit := modify fun s =>
  match s.registry.get? id with
  | some m => if m.pages.entries.isEmpty && !m.owned then {s with registry := s.registry.erase id} else s
  | none => s

/-- `CacheManager::try_reclaim`; a page whose mapping is gone counts as reclaimed. -/
def tryReclaim (r : PageRef) : Prog Bool := do
  let s ← get
  match s.registry.get? r.mapping, r.resident s with
  | none, _ => pure true
  | some _, none => pure false
  | some _, some page =>
    if page.state.reclaimable && s.unique page then
      modifyMapping r.mapping fun m => {m with pages := m.pages.erase r.index}
      removeResident 1 0
      pruneMapping r.mapping
      pure true
    else pure false

def popCandidate : Prog (Option PageRef) := modifyGet fun s =>
  (s.candidates.head?, {s with candidates := s.candidates.tail})

def pushCandidate (r : PageRef) : Prog Unit := modify fun s => {s with candidates := s.candidates ++ [r]}

def requeue (r : PageRef) : Prog Unit := do
  if ← answer then pushCandidate r else pure ()

def secondChance (r : PageRef) (page : CachedPage) : Prog Bool :=
  if page.referenced then pure false else tryReclaim r

/-- One turn of the clock. -/
def reclaimOne : Prog Bool := do
  match ← popCandidate with
  | none => pure false
  | some r =>
    match r.page (← get) with
    | none => pure false
    | some page =>
      r.modifyPage fun p => {p with referenced := false}
      if ← secondChance r page then pure true
      else
        requeue r
        pure false

def reclaimLoop (target : Nat) : Nat → Nat → Prog Nat
  | 0, reclaimed => pure reclaimed
  | budget + 1, reclaimed =>
    if reclaimed < target then do
      let one ← reclaimOne
      reclaimLoop target budget (reclaimed + one.toNat)
    else pure reclaimed

def reclaimClean (targetPages : Nat) : Prog Nat := do
  reclaimLoop targetPages (2 * (← get).candidates.length) 0

/-- `PageSlot::is_reclaimable`. -/
def CacheManager.reclaimable (s : CacheManager) (page : CachedPage) : Bool :=
  page.state.reclaimable && s.unique page

def pruneLoop : List Nat → Nat → Prog Nat
  | [], reclaimed => pure reclaimed
  | id :: rest, reclaimed => do
    let s ← get
    match s.registry.get? id with
    | none => pruneLoop rest reclaimed
    | some m =>
      if m.owned then pruneLoop rest reclaimed
      else
        let idle := m.pages.filter fun _ page => s.reclaimable page
        modifyMapping id fun m => {m with pages := m.pages.filter fun _ page => !s.reclaimable page}
        pruneMapping id
        pruneLoop rest (reclaimed + idle.total fun _ => 1)

def pruneCandidates : Prog Unit := modify fun s =>
  {s with candidates := s.candidates.filter fun r => (r.page s).isSome}

def pruneIdleMappings : Prog Nat := do
  reserve
  let reclaimed ← pruneLoop ((← get).registry.entries.map (·.1)) 0
  removeResident reclaimed 0
  pruneCandidates
  pure reclaimed

/-- `PageSlot::is_idle`. -/
def CacheManager.idle (s : CacheManager) (page : CachedPage) : Bool := page.state.isQuiet && s.unique page

def discardUnowned (key : Nat) : Prog Bool := do
  let s ← get
  match s.registry.get? key with
  | none => pure true
  | some m =>
    if m.owned then pure false
    else if m.pages.entries.all fun e => s.idle e.2 then
      modify fun s => {s with registry := s.registry.erase key}
      removeResident (tally m.pages).1 (tally m.pages).2
      pruneCandidates
      pure true
    else pure false

/-! ### Writeback -/

/-- `write_snapshot`: there is nothing to write of a page past the end. -/
def writeSnapshot (m : FileMapping) (index : Nat) : Prog Bool :=
  if m.logicalSize ≤ index * pageSize then pure true else answer

/-- The second half of `writeback_page`. -/
def reportWriteback (id index : Nat) (page : CachedPage) (succeeded : Bool) : Prog Unit := do
  let state := page.state.claim.report page.state.dirtySeq succeeded
  modifyMapping id fun m => m.modifyPage index fun p => {p with state := state}
  if page.state.isDirty && !state.isDirty then noteCleaned id else pure ()

/-- `writeback_page`. A wait can only end in its failure: there is nobody else to report. -/
def writebackPage (id index : Nat) (explicit : Bool) : Prog Bool := do
  match (← get).registry.get? id with
  | none => pure false
  | some m =>
    match m.pages.get? index with
    | none => pure false
    | some page =>
      match page.state.writebackAction explicit with
      | .skip => pure false
      | .wait => fail .enomem
      | .submit =>
        let succeeded ← writeSnapshot m index
        reportWriteback id index page succeeded
        if succeeded then pure true else fail .eio

def collectDirty (limit : Nat) : List (Nat × CachedPage) → List Nat → List Nat × Nat
  | [], batch => (batch, 0)
  | (index, page) :: rest, batch =>
    if batch.length = limit then (batch, index)
    else collectDirty limit rest (if page.state.isDirty then batch ++ [index] else batch)

def dirtyBatch (id : Nat) (m : FileMapping) (maxPages : Nat) : Prog (List Nat) := do
  reserve
  let (later, earlier) := m.pages.entries.partition fun e => m.writebackCursor ≤ e.1
  let (batch, next) := collectDirty (min maxPages m.dirtyPages) (later ++ earlier) []
  modifyMapping id fun m => {m with writebackCursor := next}
  pure batch

def residentPages (m : FileMapping) (start stop : Nat) : Prog (List Nat) := do
  if stop ≤ start then pure []
  else
    reserve
    pure ((m.pages.entries.filter fun e => pageIndex start ≤ e.1 && e.1 ≤ pageIndex (stop - 1)).map (·.1))

def writebackLoop (id maxPages : Nat) (explicit : Bool) : List Nat → Nat → Prog Nat
  | [], written => pure written
  | index :: rest, written =>
    if written = maxPages then pure written
    else do
      let one ← writebackPage id index explicit
      writebackLoop id maxPages explicit rest (written + one.toNat)

def writebackPages (id : Nat) (m : FileMapping) (maxPages : Nat) (explicit : Bool) : Prog (List Nat) :=
  if explicit then residentPages m 0 m.logicalSize else dirtyBatch id m maxPages

def writebackSome (id maxPages : Nat) (explicit : Bool) : Prog Nat := do
  match (← get).registry.get? id with
  | none => pure 0
  | some m =>
    if maxPages = 0 then pure 0
    else if !explicit && m.dirtyPages == 0 then pure 0
    else
      let pages ← writebackPages id m maxPages explicit
      reserve
      writebackLoop id maxPages explicit pages 0

def batchLoop (maxPages : Nat) (explicit : Bool) : List Nat → Nat → Prog Nat
  | [], written => pure written
  | id :: rest, written =>
    if written = maxPages then pure written
    else do
      let pages ← writebackSome id (maxPages - written) explicit
      modify fun s => {s with writebackResume := id}
      batchLoop maxPages explicit rest (written + pages)

def writebackInner (maxPages : Nat) (explicit : Bool) : Prog Nat := do
  reserve
  let s ← get
  let mappings := s.registry.entries.map (·.1)
  let pivot := (mappings.findIdx? fun id => s.writebackResume < id).getD 0
  batchLoop maxPages explicit (mappings.drop pivot ++ mappings.take pivot) 0

def throttleDirty : Prog Unit := do
  let s ← get
  if s.dirtyPages < s.policy.dirtyLimit then pure ()
  else
    let _ ← writebackInner s.policy.writebackBatchPages false
    pure ()

/-- The pages of a `sync_range`; a page that fails does not keep the others from going out. -/
def syncLoop (id : Nat) : List Nat → Bool → Prog Bool
  | [], failed => pure failed
  | index :: rest, failed => do
    match ← attempt (writebackPage id index true) with
    | .ok _ => syncLoop id rest failed
    | .error (.stop (.error _)) => syncLoop id rest true
    | .error ending => throw ending

/-- `sync_range` with `wait`. -/
def syncRange (id start stop : Nat) : Prog Unit := do
  let pages ← residentPages (← getMapping id) start stop
  reserve
  if ← syncLoop id pages false then pure ()
  else
    let _ ← answer
    pure ()

/-! ### Reading and writing -/

def allocateFrame : Prog Unit := do
  if ← answer then pure ()
  else
    let _ ← reclaimClean 1
    reserve

/-- The part of `load_page` that reads the backing. -/
def readBacking (id index : Nat) : Prog Unit := do
  if 2 ^ 64 ≤ index * pageSize then fail .efbig
  else if (← getMapping id).logicalSize ≤ index * pageSize then pure ()
  else if ← answer then pure ()
  else fail .eio

def fillFrame (id index : Nat) (zeroOnMiss : Bool) : Prog Unit :=
  if zeroOnMiss then pure () else readBacking id index

def loadPage (id index : Nat) (zeroOnMiss : Bool) : Prog CachedPage := do
  allocateFrame
  fillFrame id index zeroOnMiss
  let object := (← get).nextPage
  modify fun s => {s with nextPage := s.nextPage + 1}
  reserve
  pushCandidate ⟨id, index, object⟩
  pure ⟨object, .clean, true⟩

/-- `finish_load`. -/
def finishLoad (id index : Nat) (page : CachedPage) : Prog Unit := do
  modifyMapping id fun m => {m with pages := m.pages.insert index page}
  modify fun s => {s with residentPages := wrappingAdd s.residentPages 1}

/-- `lease_locked`, on a resident page. -/
def leasePage (id index : Nat) : Prog PageRef := do
  match (← getMapping id).pages.get? index with
  | none => throw (.stop .panic)
  | some page =>
    match page.state.takeLease with
    | .error stop => throw (.stop stop)
    | .ok state =>
      modifyMapping id fun m => m.modifyPage index fun p => {p with state := state, referenced := true}
      pure ⟨id, index, page.object⟩

def acquirePageInner (id index : Nat) (zeroOnMiss : Bool) : Prog PageRef := do
  let m ← getMapping id
  if (m.pages.get? index).isNone then
    finishLoad id index (← loadPage id index zeroOnMiss)
    leasePage id index
  else leasePage id index

/-- `PageLease::drop`. -/
def dropLease (r : PageRef) : Prog Unit := r.modifyPage fun p => {p with state := p.state.dropLease}

/-- A section that dirties a page, and the note if the page was clean. -/
def dirtying (r : PageRef) (change : PageState → Except Stop PageState) : Prog Unit := do
  match r.page (← get) with
  | none => throw (.stop .panic)
  | some page =>
    match change page.state with
    | .error stop => throw (.stop stop)
    | .ok state =>
      r.modifyPage fun p => {p with state := state}
      if page.state.isDirty then pure () else noteDirtied r.mapping

/-- `FileMapping::mark_dirty`. -/
def markDirty (r : PageRef) : Prog Unit := dirtying r PageState.markDirty

def readLoop (id : Nat) : Nat → Span → Prog Unit
  | 0, _ => pure ()
  | fuel + 1, span =>
    if span.done < span.total then do
      let lease ← acquirePageInner id span.index false
      dropLease lease
      readLoop id fuel span.advance
    else pure ()

def readAt (id offset count : Nat) : Prog Unit := do
  let m ← getMapping id
  if count = 0 ∨ m.logicalSize ≤ offset then pure ()
  else
    let total := min count (m.logicalSize - offset)
    readLoop id total ⟨offset, total, 0⟩

def writeChunk (id : Nat) (span : Span) : Prog Unit := do
  throttleDirty
  let lease ← acquirePageInner id span.index span.fullPage
  markDirty lease
  dropLease lease

def writeLoop (id : Nat) : Nat → Span → Prog Nat
  | 0, span => pure span.done
  | fuel + 1, span =>
    if span.done < span.total then do
      match ← attempt (writeChunk id span) with
      | .ok () => writeLoop id fuel span.advance
      | .error (.stop (.error code)) => if span.done = 0 then fail code else pure span.done
      | .error ending => throw ending
    else pure span.done

def writeAt (id offset count : Nat) : Prog Unit := do
  if offset + count < 2 ^ 64 then
    let copied ← writeLoop id count ⟨offset, count, 0⟩
    modifyMapping id fun m => {m with logicalSize := max m.logicalSize (offset + copied)}
  else fail .efbig

def append (id count : Nat) : Prog Unit := do
  writeAt id (← getMapping id).logicalSize count

/-! ### Guards -/

/-- `shared_write_guard`, once the throttle let it pass. -/
def takeGuard (r : PageRef) : Prog Unit := dirtying r PageState.takeGuard

/-- `shared_write_guard` on a lease, if there is one; the mapping may have gone. -/
def sharedWriteGuard (r : PageRef) : Prog Unit := do
  let s ← get
  match r.page s with
  | none => pure ()
  | some page =>
    if page.state.leases = 0 then pure ()
    else if (s.registry.get? r.mapping).isNone then fail .eshutdown
    else
      throttleDirty
      takeGuard r

/-- `SharedWriteGuard::drop`, of a guard if there is one. -/
def dropGuard (r : PageRef) : Prog Unit := do
  match r.page (← get) with
  | none => pure ()
  | some page =>
    if page.state.sharedGuardGroups = 0 then pure ()
    else
      match page.state.dropGuard with
      | .error stop => throw (.stop stop)
      | .ok state => r.modifyPage fun p => {p with state := state}

def dropGuards : List PageRef → Prog Unit
  | [] => pure ()
  | r :: rest => do
    dropGuard r
    dropGuards rest

/-! ### Truncation -/

/-- `is_idle_for_resize`; guards are not looked at. -/
def CacheManager.idleForResize (s : CacheManager) (page : CachedPage) : Bool :=
  page.state.leases == 0 && page.state.writebackSeq.isNone && s.unique page

/-- `range_is_drained`. -/
def CacheManager.drained (s : CacheManager) (m : FileMapping) (start stop : Nat) : Bool :=
  m.pages.entries.all fun e =>
    !(pageIndex start ≤ e.1 && e.1 ≤ pageIndex (stop - 1)) || s.idleForResize e.2

/-- Adds removed pages to the orphans. -/
def orphaned (pages : List (Nat × CachedPage)) (orphans : SortedMap CachedPage) : SortedMap CachedPage :=
  pages.foldl (fun kept e => kept.insert e.2.object e.2) orphans

/-- `commit_shrink`: every page from `new_len.div_ceil(PAGE_SIZE)` on goes. -/
def commitShrink (id newLen : Nat) : Prog Unit := do
  let m ← getMapping id
  let removed := m.pages.filter fun index _ => decide (newLen ≤ index * pageSize)
  modify fun s => {s with orphans := orphaned removed.entries s.orphans}
  modifyMapping id fun m => {m with
    pages := m.pages.filter fun index _ => !decide (newLen ≤ index * pageSize)
    dirtyPages := wrappingSub m.dirtyPages (tally removed).2}
  removeResident (tally removed).1 (tally removed).2

/-- The part of `resize_inactive` before the backing is cut: `invalidated` are the guards the
observers let go, and the wait for leases in the range ends only if there are none. -/
def invalidate (id newLen : Nat) (invalidated : List PageRef) : Prog Unit := do
  let oldLen := (← getMapping id).logicalSize
  if newLen < oldLen then
    reserve
    if ← answer then
      dropGuards invalidated
      if (← get).drained (← getMapping id) newLen oldLen then pure () else throw .blocked
    else fail .enomem
  else pure ()

def resize (id newLen : Nat) (invalidated : List PageRef) : Prog Unit := do
  let oldLen := (← getMapping id).logicalSize
  reserve
  invalidate id newLen invalidated
  if ← answer then
    if newLen < oldLen then commitShrink id newLen else pure ()
    modifyMapping id fun m => {m with logicalSize := newLen}
  else fail .eio

/-! ### Operations -/

/-- Someone who holds the mapping. -/
def asOwner (id : Nat) (x : Prog Unit) : Prog Unit := do
  match (← get).registry.get? id with
  | some m => if m.owned then x else pure ()
  | none => pure ()

/-- `create_mapping`. Its id is a new one; other objects may have got some in between. -/
def createMapping (id length : Nat) : Prog Unit := modify fun s =>
  if id < s.nextId || (s.registry.get? id).isSome then s
  else {s with registry := s.registry.insert id ⟨true, length, .empty, 0, 0⟩, nextId := id + 1}

/-- `mapping_for`, where the slot of the file has its mapping. -/
def reopen (id : Nat) : Prog Unit := modifyMapping id fun m => {m with owned := true}

def release (id : Nat) : Prog Unit := do
  modifyMapping id fun m => {m with owned := false}
  pruneMapping id

/-- A lease that its holder drops. -/
def dropHeld (r : PageRef) : Prog Unit := do
  match r.page (← get) with
  | none => pure ()
  | some page => if page.state.leases = 0 then pure () else dropLease r

inductive Op where
  | create (id length : Nat)
  | reopen (id : Nat)
  | release (id : Nat)
  | read (id offset count : Nat)
  | write (id offset count : Nat)
  | append (id count : Nat)
  | acquire (id index : Nat)
  | drop (r : PageRef)
  | guard (r : PageRef)
  | unguard (r : PageRef)
  | share (object : Nat) (shared : Bool)
  | writeback (maxPages : Nat) (explicit : Bool)
  | sync (id start stop : Nat)
  | resize (id newLen : Nat) (invalidated : List PageRef)
  | reclaim (targetPages : Nat)
  | prune
  | discard (key : Nat)

def Op.perform : Op → Prog Unit
  | .create id length => createMapping id length
  | .reopen id => Accounting.reopen id
  | .release id => Accounting.release id
  | .read id offset count => asOwner id (readAt id offset count)
  | .write id offset count => asOwner id (writeAt id offset count)
  | .append id count => asOwner id (Accounting.append id count)
  | .acquire id index => asOwner id ((fun _ => ()) <$> acquirePageInner id index false)
  | .drop r => dropHeld r
  | .guard r => sharedWriteGuard r
  | .unguard r => dropGuard r
  | .share object shared => modify fun s => {s with shared := Function.update s.shared object shared}
  | .writeback maxPages explicit => (fun _ => ()) <$> writebackInner maxPages explicit
  | .sync id start stop => asOwner id (syncRange id start stop)
  | .resize id newLen invalidated => asOwner id (Accounting.resize id newLen invalidated)
  | .reclaim targetPages => (fun _ => ()) <$> reclaimClean targetPages
  | .prune => (fun _ => ()) <$> pruneIdleMappings
  | .discard key => (fun _ => ()) <$> discardUnowned key

/-- The state after an operation that completes, with success or an error. -/
def step (s : CacheManager) (op : Op) : Option CacheManager :=
  match op.perform s with
  | .ok _ t => some t
  | .error (.stop (.error _)) t => some t
  | .error _ _ => none

def run (s : CacheManager) : List Op → Option CacheManager
  | [] => some s
  | op :: rest => (step s op).bind fun t => run t rest

/-- `CacheManager::new`. -/
def CacheManager.new (policy : CachePolicy) (answers : Nat → Bool) : CacheManager where
  policy := policy
  registry := .empty
  orphans := .empty
  candidates := []
  writebackResume := 0
  residentPages := 0
  dirtyPages := 0
  nextPage := 0
  nextId := 0
  shared := fun _ => false
  answers := answers
  asked := 0

end StarryX.Cache.Accounting
