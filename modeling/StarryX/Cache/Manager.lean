import StarryX.Cache.Contents
import StarryX.Library.Hoare
import StarryX.Library.SortedMap

/-! The page cache, one operation after the other.

A `CacheManager` over any number of mappings, with operations run to their end: reads,
writes with the dirty throttle in their middle, appends, truncations, explicit syncs,
background writeback batches, the clock reclaim and pruning. A mapping's backing is a
plain byte array that does not fail; `memory` answers each allocation that may fail.

Nothing runs beside an operation, so a page is leased only while it is copied, a writeback
is claimed and reported in one go, no wait blocks and admission is open. `clipped` is a
history variable: some writeback has cut off bytes of its page that were not zero. -/
namespace StarryX.Cache.Manager
open Library

structure CachePolicy where
  freeLow : Nat
  freeHigh : Nat
  dirtyBackground : Nat
  dirtyLimit : Nat
  writebackBatchPages : Nat

def CachePolicy.validate (p : CachePolicy) : LinuxResult CachePolicy :=
  if p.freeLow > p.freeHigh ∨ p.dirtyBackground > p.dirtyLimit ∨ p.writebackBatchPages = 0 then .error .einval
  else .ok p

/-- A `CachedPage`; `object` tells it from other pages there have been at its index. -/
structure CachedPage where
  object : Nat
  frame : Frame
  state : PageState
  referenced : Bool

/-- `owned` says that someone outside the manager holds the mapping. -/
structure FileMapping where
  owned : Bool
  backing : Bytes Byte
  logicalSize : Nat
  pages : SortedMap CachedPage
  dirtyPages : Nat
  writebackCursor : Nat

/-- A weak reference in the clock. -/
structure Candidate where
  mapping : Nat
  index : Nat
  object : Nat

structure CacheManager where
  policy : CachePolicy
  registry : SortedMap FileMapping
  candidates : List Candidate
  writebackResume : Nat
  residentPages : Nat
  dirtyPages : Nat
  nextPage : Nat
  memory : Nat → Bool
  asked : Nat
  clipped : Bool

abbrev Prog := EStateM Stop CacheManager

/-- `fetch_add` and `fetch_sub` on a `usize`. -/
def wrappingAdd (a b : Nat) : Nat := (a + b) % 2 ^ 64

def wrappingSub (a b : Nat) : Nat := (a + (2 ^ 64 - b % 2 ^ 64)) % 2 ^ 64

/-- The answer to the next allocation that may fail. -/
def allocated : Prog Bool := modifyGet fun s => (s.memory s.asked, {s with asked := s.asked + 1})

/-- A `try_reserve` or `try_new`. -/
def reserve : Prog Unit := do
  if ← allocated then pure () else throw (.error .enomem)

def getMapping (id : Nat) : Prog FileMapping := do
  match (← get).registry.get? id with
  | some m => pure m
  | none => throw .panic

def modifyMapping (id : Nat) (f : FileMapping → FileMapping) : Prog Unit :=
  modify fun s => {s with registry := s.registry.modify id f}

def FileMapping.modifyPage (m : FileMapping) (index : Nat) (f : CachedPage → CachedPage) : FileMapping :=
  {m with pages := m.pages.modify index f}

/-! ### Reclaim -/

def pruneMapping (id : Nat) : Prog Unit := modify fun s =>
  match s.registry.get? id with
  | some m => if m.pages.entries.isEmpty && !m.owned then {s with registry := s.registry.erase id} else s
  | none => s

def tryReclaim (id index : Nat) (page : CachedPage) : Prog Bool :=
  if page.state.reclaimable then do
    modifyMapping id fun m => {m with pages := m.pages.erase index}
    modify fun s => {s with residentPages := wrappingSub s.residentPages 1}
    pruneMapping id
    pure true
  else pure false

def popCandidate : Prog (Option Candidate) := modifyGet fun s =>
  (s.candidates.head?, {s with candidates := s.candidates.tail})

def pushCandidate (c : Candidate) : Prog Unit := modify fun s => {s with candidates := s.candidates ++ [c]}

/-- `Weak::upgrade` of a candidate. -/
def Candidate.page (c : Candidate) (s : CacheManager) : Option CachedPage :=
  ((s.registry.get? c.mapping).bind fun m => m.pages.get? c.index).filter fun p => p.object == c.object

/-- Puts a candidate back if there is room. -/
def requeue (c : Candidate) : Prog Unit := do
  if ← allocated then pushCandidate c else pure ()

/-- The second chance of a page that was referenced. -/
def secondChance (c : Candidate) (page : CachedPage) : Prog Bool :=
  if page.referenced then pure false else tryReclaim c.mapping c.index page

/-- One turn of the clock. -/
def reclaimOne : Prog Bool := do
  match ← popCandidate with
  | none => pure false
  | some c =>
    match c.page (← get) with
    | none => pure false
    | some page =>
      modifyMapping c.mapping fun m => m.modifyPage c.index fun p => {p with referenced := false}
      let reclaimed ← secondChance c page
      if reclaimed then pure true
      else
        requeue c
        pure false

def reclaimLoop (target : Nat) : Nat → Nat → Prog Nat
  | 0, reclaimed => pure reclaimed
  | budget + 1, reclaimed =>
    if reclaimed < target then do
      let one ← reclaimOne
      reclaimLoop target budget (reclaimed + one.toNat)
    else pure reclaimed

def reclaimClean (targetPages : Nat) : Prog Nat := do
  reclaimLoop targetPages (2 * (← get).candidates.length) 0

def FileMapping.reclaimIdlePages (m : FileMapping) : FileMapping :=
  {m with pages := m.pages.filter fun _ page => !page.state.reclaimable}

def pruneLoop : List Nat → Nat → Prog Nat
  | [], reclaimed => pure reclaimed
  | id :: rest, reclaimed => do
    match (← get).registry.get? id with
    | none => pruneLoop rest reclaimed
    | some m =>
      if m.owned then pruneLoop rest reclaimed
      else
        modifyMapping id FileMapping.reclaimIdlePages
        pruneMapping id
        pruneLoop rest (reclaimed + (m.pages.entries.length - m.reclaimIdlePages.pages.entries.length))

def pruneIdleMappings : Prog Nat := do
  reserve
  let reclaimed ← pruneLoop ((← get).registry.entries.map (·.1)) 0
  modify fun s => {s with
    residentPages := wrappingSub s.residentPages reclaimed
    candidates := s.candidates.filter fun c => (c.page s).isSome}
  pure reclaimed

/-! ### Writeback -/

/-- Bytes of the frame past the logical size that are not zero. -/
def cutsOff (frame : Frame) (index length : Nat) : Bool :=
  decide (length < (index + 1) * pageSize) &&
    !decide (∀ b : Fin pageSize, length ≤ index * pageSize + b → frame b = 0)

/-- A submitted page: claimed, written out as far as the file goes, and reported. -/
def FileMapping.submit (m : FileMapping) (index : Nat) (page : CachedPage) : FileMapping :=
  let reported := page.state.claim.report page.state.dirtySeq true
  {m with
    backing := writeSnapshot m.backing index m.logicalSize page.frame
    pages := m.pages.modify index fun p => {p with state := reported}
    dirtyPages := if reported.isDirty then m.dirtyPages else wrappingSub m.dirtyPages 1}

/-- `writeback_page`. A wait can only end in its failure: there is nobody else to report. -/
def writebackPage (id index : Nat) (explicit : Bool) : Prog Bool := do
  match (← get).registry.get? id with
  | none => pure false
  | some m =>
    match m.pages.get? index with
    | none => pure false
    | some page =>
      match page.state.writebackAction explicit with
      | .skip => pure false
      | .wait => throw (.error .enomem)
      | .submit =>
        modify fun s => {s with
          clipped := s.clipped || cutsOff page.frame index m.logicalSize
          registry := s.registry.modify id fun m => m.submit index page
          dirtyPages := if (page.state.claim.report page.state.dirtySeq true).isDirty then s.dirtyPages
            else wrappingSub s.dirtyPages 1}
        pure true

/-- `dirty_batch`'s walk: the batch, and where the next one resumes. -/
def collectDirty (limit : Nat) : List (Nat × CachedPage) → List Nat → List Nat × Nat
  | [], batch => (batch, 0)
  | (index, page) :: rest, batch =>
    if batch.length = limit then (batch, index)
    else collectDirty limit rest (if page.state.isDirty then batch ++ [index] else batch)

def dirtyBatch (id : Nat) (m : FileMapping) (maxPages : Nat) : Prog (List Nat) := do
  reserve
  let (later, earlier) := m.pages.entries.partition fun e => m.writebackCursor ≤ e.1
  let (batch, next) := collectDirty (min maxPages m.dirtyPages) (later ++ earlier) []
  modifyMapping id fun m => {m with writebackCursor := next}
  pure batch

def residentPages (m : FileMapping) (start stop : Nat) : Prog (List Nat) := do
  if stop ≤ start then pure []
  else
    reserve
    pure ((m.pages.entries.filter fun e => pageIndex start ≤ e.1 && e.1 ≤ pageIndex (stop - 1)).map (·.1))

def writebackLoop (id maxPages : Nat) (explicit : Bool) : List Nat → Nat → Prog Nat
  | [], written => pure written
  | index :: rest, written =>
    if written = maxPages then pure written
    else do
      let one ← writebackPage id index explicit
      writebackLoop id maxPages explicit rest (written + one.toNat)

/-- The pages one call of `writeback_some` goes through. -/
def writebackPages (id : Nat) (m : FileMapping) (maxPages : Nat) (explicit : Bool) : Prog (List Nat) :=
  if explicit then residentPages m 0 m.logicalSize else dirtyBatch id m maxPages

def writebackSome (id maxPages : Nat) (explicit : Bool) : Prog Nat := do
  match (← get).registry.get? id with
  | none => pure 0
  | some m =>
    if maxPages = 0 then pure 0
    else if !explicit && m.dirtyPages == 0 then pure 0
    else
      let pages ← writebackPages id m maxPages explicit
      reserve
      writebackLoop id maxPages explicit pages 0

def batchLoop (maxPages : Nat) (explicit : Bool) : List Nat → Nat → Prog Nat
  | [], written => pure written
  | id :: rest, written =>
    if written = maxPages then pure written
    else do
      let pages ← writebackSome id (maxPages - written) explicit
      modify fun s => {s with writebackResume := id}
      batchLoop maxPages explicit rest (written + pages)

def writebackInner (maxPages : Nat) (explicit : Bool) : Prog Nat := do
  reserve
  let s ← get
  let mappings := s.registry.entries.map (·.1)
  let pivot := (mappings.findIdx? fun id => s.writebackResume < id).getD 0
  batchLoop maxPages explicit (mappings.drop pivot ++ mappings.take pivot) 0

def throttleDirty : Prog Unit := do
  let s ← get
  if s.dirtyPages < s.policy.dirtyLimit then pure ()
  else
    let _ ← writebackInner s.policy.writebackBatchPages false
    pure ()

/-! ### Reading and writing -/

def allocateFrame : Prog Unit := do
  if ← allocated then pure ()
  else
    let _ ← reclaimClean 1
    reserve

def loadPage (id index : Nat) (zeroOnMiss : Bool) : Prog CachedPage := do
  allocateFrame
  let m ← getMapping id
  let frame := if zeroOnMiss then fun _ => 0 else loadFrame m.backing.get index m.logicalSize
  let object := (← get).nextPage
  modify fun s => {s with nextPage := s.nextPage + 1}
  reserve
  pushCandidate ⟨id, index, object⟩
  pure ⟨object, frame, .clean, true⟩

/-- A miss of `acquire_page_inner`: the page is loaded and published. -/
def publishPage (id index : Nat) (zeroOnMiss : Bool) : Prog Unit := do
  let page ← loadPage id index zeroOnMiss
  modifyMapping id fun m => {m with pages := m.pages.insert index page}
  modify fun s => {s with residentPages := wrappingAdd s.residentPages 1}

/-- `lease_locked`, on a resident page. -/
def leasePage (id index : Nat) : Prog CachedPage := do
  match (← getMapping id).pages.get? index with
  | none => throw .panic
  | some page =>
    match page.state.takeLease with
    | .error stop => throw stop
    | .ok state =>
      modifyMapping id fun m => m.modifyPage index fun p => {p with state := state, referenced := true}
      pure {page with state := state, referenced := true}

def acquirePageInner (id index : Nat) (zeroOnMiss : Bool) : Prog CachedPage := do
  let m ← getMapping id
  if (m.pages.get? index).isNone then
    publishPage id index zeroOnMiss
    leasePage id index
  else leasePage id index

def dropLease (id index : Nat) : Prog Unit :=
  modifyMapping id fun m => m.modifyPage index fun p => {p with state := p.state.dropLease}

/-- `mark_dirty` and `note_dirtied`. -/
def markDirty (id index : Nat) (page : CachedPage) : Prog Unit :=
  match page.state.markDirty with
  | .error stop => throw stop
  | .ok state => do
    modifyMapping id fun m =>
      {m.modifyPage index fun p => {p with state := state} with
        dirtyPages := if page.state.isDirty then m.dirtyPages else wrappingAdd m.dirtyPages 1}
    modify fun s => {s with
      dirtyPages := if page.state.isDirty then s.dirtyPages else wrappingAdd s.dirtyPages 1}

def readLoop (id : Nat) : Nat → Span → (Nat → Byte) → Prog (Nat → Byte)
  | 0, _, bytes => pure bytes
  | fuel + 1, span, bytes =>
    if span.done < span.total then do
      let page ← acquirePageInner id span.index false
      dropLease id span.index
      readLoop id fuel span.advance
        (overlay bytes span.done span.length fun j => page.frame.readByte (span.inPage + j))
    else pure bytes

/-- `read_at`; each chunk takes at least a byte, so `count` turns are enough. -/
def readAt (id offset count : Nat) : Prog (Bytes Byte) := do
  let m ← getMapping id
  if count = 0 ∨ m.logicalSize ≤ offset then pure .empty
  else
    let total := min count (m.logicalSize - offset)
    let bytes ← readLoop id total ⟨offset, total, 0⟩ fun _ => 0
    pure (Bytes.empty.writeAt 0 total bytes)

/-- One step of the loop of `write_at_inner`. -/
def writeChunk (id : Nat) (source : Bytes Byte) (span : Span) : Prog Unit := do
  throttleDirty
  let page ← acquirePageInner id span.index span.fullPage
  modifyMapping id fun m => m.modifyPage span.index fun p =>
    {p with frame := p.frame.writeBytes span.inPage span.length fun j => source.get (span.done + j)}
  markDirty id span.index page
  dropLease id span.index

def writeLoop (id : Nat) (source : Bytes Byte) : Nat → Span → Prog Nat
  | 0, span => pure span.done
  | fuel + 1, span =>
    if span.done < span.total then do
      match ← attempt (writeChunk id source span) with
      | .ok () => writeLoop id source fuel span.advance
      | .error .panic => throw .panic
      | .error (.error code) => if span.done = 0 then throw (.error code) else pure span.done
    else pure span.done

def writeAtInner (id : Nat) (source : Bytes Byte) (offset : Nat) : Prog Nat := do
  if offset + source.size < 2 ^ 64 then
    let copied ← writeLoop id source source.size ⟨offset, source.size, 0⟩
    modifyMapping id fun m => {m with logicalSize := max m.logicalSize (offset + copied)}
    pure copied
  else throw (.error .efbig)

def append (id : Nat) (source : Bytes Byte) : Prog (Nat × Nat) := do
  let offset := (← getMapping id).logicalSize
  let written ← writeAtInner id source offset
  pure (written, offset + written)

/-! ### Truncation and sync -/

/-- The bytes of the last page past the new length are zeroed. -/
def CachedPage.zeroTail (page : CachedPage) (newLen : Nat) : CachedPage :=
  let tail := pageOffset newLen
  if tail = 0 then page else {page with frame := page.frame.writeBytes tail (pageSize - tail) fun _ => 0}

/-- `commit_shrink` on the pages: those from `newLen.div_ceil(PAGE_SIZE)` on are dropped. -/
def FileMapping.commitShrink (m : FileMapping) (newLen : Nat) : FileMapping :=
  let zeroed := m.pages.modify (pageIndex newLen) fun p => p.zeroTail newLen
  {m with pages := zeroed.filter fun index _ => decide (index * pageSize < newLen)}

/-- `resize` with admission closed: no page is in use, and there is no observer. -/
def resize (id newLen : Nat) : Prog Unit := do
  let m ← getMapping id
  reserve
  let removed := m.pages.entries.filter fun e => newLen < m.logicalSize && newLen ≤ e.1 * pageSize
  let dirty := (removed.filter fun e => e.2.state.isDirty).length
  modifyMapping id fun m =>
    let m := {m with backing := m.backing.setLen newLen}
    let m := if newLen < m.logicalSize then m.commitShrink newLen else m
    {m with logicalSize := newLen, dirtyPages := wrappingSub m.dirtyPages dirty}
  modify fun s => {s with
    residentPages := wrappingSub s.residentPages removed.length
    dirtyPages := wrappingSub s.dirtyPages dirty}

def syncLoop (id : Nat) : List Nat → Prog Unit
  | [] => pure ()
  | index :: rest => do
    let _ ← writebackPage id index true
    syncLoop id rest

/-- `sync_range` with `wait`; no error is ever recorded, so there is none to report. -/
def syncRange (id start stop : Nat) : Prog Unit := do
  let pages ← residentPages (← getMapping id) start stop
  reserve
  syncLoop id pages
  modifyMapping id fun m => {m with backing := m.backing.setLen m.logicalSize}

/-! ### Operations -/

/-- The last owner gives `release_hint` and lets the mapping go. -/
def release (id : Nat) : Prog Unit := do
  modifyMapping id fun m => {m with owned := false}
  pruneMapping id

inductive Op where
  | write (id offset : Nat) (source : Bytes Byte)
  | append (id : Nat) (source : Bytes Byte)
  | read (id offset count : Nat)
  | resize (id newLen : Nat)
  | sync (id start stop : Nat)
  | writeback (maxPages : Nat)
  | reclaim (targetPages : Nat)
  | prune
  | release (id : Nat)

inductive Outcome where
  | wrote (count : Nat)
  | appended (count stop : Nat)
  | bytes (bytes : Bytes Byte)
  | done
  | failed (code : LinuxError)

def Op.perform : Op → Prog Outcome
  | .write id offset source => .wrote <$> writeAtInner id source offset
  | .append id source => (fun r => .appended r.1 r.2) <$> Manager.append id source
  | .read id offset count => .bytes <$> readAt id offset count
  | .resize id newLen => (fun _ => .done) <$> Manager.resize id newLen
  | .sync id start stop => (fun _ => .done) <$> syncRange id start stop
  | .writeback maxPages => (fun _ => .done) <$> writebackInner maxPages false
  | .reclaim targetPages => (fun _ => .done) <$> reclaimClean targetPages
  | .prune => (fun _ => .done) <$> pruneIdleMappings
  | .release id => (fun _ => .done) <$> Manager.release id

/-- What operations said, in order, the last state, and whether a panic cut the run short. -/
structure Run where
  trace : List (Op × Outcome)
  state : CacheManager
  panicked : Bool

def Run.after (entry : Op × Outcome) (r : Run) : Run := {r with trace := entry :: r.trace}

def run (s : CacheManager) : List Op → Run
  | [] => ⟨[], s, false⟩
  | op :: rest =>
    match op.perform s with
    | .ok outcome t => (run t rest).after (op, outcome)
    | .error (.error code) t => (run t rest).after (op, .failed code)
    | .error .panic t => ⟨[], t, true⟩

end StarryX.Cache.Manager
