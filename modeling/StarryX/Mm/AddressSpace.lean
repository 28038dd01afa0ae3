import StarryX.Mm.Frame

/-! A hardware address space.

Each operation checks its range, asks the page table, and moves references between handles and
leaves. The page tables live in the memory, one per index, because the leaves of all of them
count as owners of a frame. A frame that is passed to an operation goes with it: where the
operation fails, the frame is dropped. -/
namespace StarryX.Mm
open Library Function

/-! ### Flags -/

/-- What stands behind a leaf. -/
inductive FrameKind where
  | alloc
  | static
  deriving DecidableEq

namespace FrameKind

def fromFlags (flags : MappingFlags) : FrameKind := if flags.allocFrame then .alloc else .static

def apply : FrameKind → MappingFlags → MappingFlags
  | .alloc, flags => {flags with allocFrame := true}
  | .static, flags => {flags with allocFrame := false}

end FrameKind

namespace MappingFlags

def contains (flags other : MappingFlags) : Bool :=
  (flags.read || !other.read) && (flags.write || !other.write) && (flags.execute || !other.execute) &&
    (flags.user || !other.user) && (flags.device || !other.device) && (flags.uncached || !other.uncached) &&
    (flags.allocFrame || !other.allocFrame) && (flags.protNone || !other.protNone)

def hasLeafAccess (flags : MappingFlags) : Bool := flags.read || flags.write || flags.execute

end MappingFlags

/-- RISC-V has no leaf that may only be written. -/
def pteFlags (arch : Arch) (kind : FrameKind) (flags : MappingFlags) : Except XError MappingFlags :=
  let flags := kind.apply {flags with protNone := false}
  if !flags.hasLeafAccess then .ok {flags with protNone := true}
  else if arch.riscv && !(flags.read || flags.execute) then .error .invalidInput
  else .ok flags

/-! ### Frames that are never freed -/

structure StaticFrameRange where
  start : Nat
  size : Nat
  allowedFlags : MappingFlags
  nonempty : 0 < size
  bounded : start + size < 2 ^ 64

namespace StaticFrameRange

def allows (frames : StaticFrameRange) (flags : MappingFlags) : Bool :=
  frames.allowedFlags.contains {flags with user := false, allocFrame := false, protNone := false}

def subrange (frames : StaticFrameRange) (offset size : Nat) : Except XError StaticFrameRange :=
  if h : 0 < size ∧ offset + size ≤ frames.size then
    .ok ⟨frames.start + offset, size, frames.allowedFlags, h.1, by
      have := frames.bounded
      omega⟩
  else .error .invalidInput

end StaticFrameRange

section Model
variable {arch : Arch} {ι : Type}

/-! ### Results -/

def ofResult {α : Type} : Except XError α → Prog arch ι α
  | .ok a => pure a
  | .error e => throw (.error e)

def pagingError : PagingError → XError
  | .noMemory => .noMemory
  | .alreadyMapped => .alreadyExists
  | .notMapped => .badAddress
  | .notAligned => .invalidInput
  | .mappedToHugePage => .invalidInput

def ofPaging {α : Type} : Except PagingError α → Prog arch ι α
  | .ok a => pure a
  | .error e => throw (.error (pagingError e))

def require (condition : Bool) (e : XError) : Prog arch ι Unit :=
  if condition then pure () else throw (.error e)

/-- A failure is a bug of the kernel. -/
def expect {α : Type} (x : Prog arch ι α) : Prog arch ι α := do
  match ← attempt x with
  | .ok a => pure a
  | .error _ => throw .panic

/-- A frame that an operation took along is dropped when it fails. -/
def orDrop {α : Type} (frame : Frame) (x : Prog arch ι α) : Prog arch ι α := do
  match ← attempt x with
  | .ok a => pure a
  | .error (.error e) => do
    dropFrame frame
    throw (.error e)
  | .error .panic => throw .panic

/-- A request for memory that is no frame. -/
def reserve : Prog arch ι Unit := do
  if ← modifyGet fun s => (s.grants s.requests, {s with requests := s.requests + 1}) then pure ()
  else throw (.error .noMemory)

/-! ### The page table of a space -/

variable [DecidableEq ι]

def pageTable (i : ι) : Prog arch ι (PageTable arch) := do
  let s ← get
  pure (s.spaces i).pageTable

def Memory.setPageTable (s : Memory arch ι) (i : ι) (t : PageTable arch) : Memory arch ι :=
  {s with spaces := update s.spaces i {s.spaces i with pageTable := t}}

def queryPage (i : ι) (vaddr : Nat) : Prog arch ι (Except PagingError (Nat × MappingFlags × PageSize)) := do
  let t ← pageTable i
  pure (t.query vaddr)

def mapPage (i : ι) (vaddr target : Nat) (size : PageSize) (flags : MappingFlags) :
    Prog arch ι (Except PagingError Unit) := modifyGet fun s =>
  let (t, requests, r) := (s.spaces i).pageTable.map s.grants s.requests vaddr target size flags
  (r, {s.setPageTable i t with requests := requests})

/-- An operation on a leaf that is there. -/
def editPage {β : Type} (i : ι) (edit : PageTable arch → Except PagingError (PageTable arch × β)) :
    Prog arch ι (Except PagingError β) := modifyGet fun s =>
  match edit (s.spaces i).pageTable with
  | .ok (t, b) => (.ok b, s.setPageTable i t)
  | .error e => (.error e, s)

def remapPage (i : ι) (vaddr paddr : Nat) (flags : MappingFlags) : Prog arch ι (Except PagingError PageSize) :=
  editPage i fun t => t.remap vaddr paddr flags

def protectPage (i : ι) (vaddr : Nat) (flags : MappingFlags) : Prog arch ι (Except PagingError PageSize) :=
  editPage i fun t => t.protect vaddr flags

def unmapPage (i : ι) (vaddr : Nat) : Prog arch ι (Except PagingError (Nat × PageSize)) :=
  editPage i fun t => t.unmap vaddr

/-! ### Ranges -/

def AddressSpace.containsRange (a : AddressSpace arch) (start size : Nat) : Bool :=
  a.range.start ≤ start && start + size ≤ a.range.start + a.range.size

def validateRange (i : ι) (start size : Nat) (pageSize : PageSize) : Prog arch ι Unit := do
  let s ← get
  require (size != 0 && start % pageSize.bytes == 0 && size % pageSize.bytes == 0 &&
    (s.spaces i).containsRange start size) .invalidInput

/-- `PageIter::new`. -/
def pageIter (start stop : Nat) (pageSize : PageSize) : Option (List Nat) :=
  if start % pageSize.bytes = 0 ∧ stop % pageSize.bytes = 0 then
    some (List.range' start ((stop - start) / pageSize.bytes) pageSize.bytes)
  else none

def forPages (start stop : Nat) (pageSize : PageSize) (f : Nat → Prog arch ι Unit) : Prog arch ι Unit :=
  match pageIter start stop pageSize with
  | some pages => pages.forM f
  | none => throw (.error .invalidInput)

/-! ### Mapping -/

def refuseMapped (i : ι) (address : Nat) : Prog arch ι Unit := do
  match ← queryPage i address with
  | .ok _ => throw (.error .alreadyExists)
  | .error _ => pure ()

/-- Takes a leaf back that a failed operation made. -/
def removeInstalled (i : ι) (address : Nat) : Prog arch ι Unit := do
  match ← unmapPage i address with
  | .ok _ => pure ()
  | .error _ => throw .panic

def mapStaticPage (i : ι) (start physicalStart : Nat) (pageSize : PageSize) (flags : MappingFlags) (address : Nat) :
    Prog arch ι Unit := do
  match ← mapPage i address (physicalStart + (address - start)) pageSize flags with
  | .ok _ => pure ()
  | .error e => do
    expect (forPages start address pageSize (removeInstalled i))
    throw (.error (pagingError e))

def mapStaticRange (i : ι) (start : Nat) (frames : StaticFrameRange) (flags : MappingFlags)
    (pageSize : PageSize) : Prog arch ι Unit := do
  validateRange i start frames.size pageSize
  require (frames.start % pageSize.bytes == 0 && frames.allows flags) .invalidInput
  forPages start (start + frames.size) pageSize (refuseMapped i)
  let flags ← ofResult (pteFlags arch .static flags)
  forPages start (start + frames.size) pageSize (mapStaticPage i start frames.start pageSize flags)

def mapFrame (i : ι) (address : Nat) (frame : Frame) (flags : MappingFlags) : Prog arch ι Unit :=
  orDrop frame do
    validateRange i address PageSize.size4K.bytes .size4K
    refuseMapped i address
    let flags ← ofResult (pteFlags arch .alloc flags)
    ofPaging (← mapPage i address frame.paddr .size4K flags)
    let _ ← intoPte frame

def replaceFrame (i : ι) (address : Nat) (expected replacement : Frame) (flags : MappingFlags) :
    Prog arch ι Unit :=
  orDrop replacement do
    let address := address - address % PageSize.size4K.bytes
    let (mapped, current, pageSize) ← ofPaging (← queryPage i address)
    require (mapped == expected.paddr && pageSize == .size4K && current.allocFrame) .badState
    let flags ← ofResult (pteFlags arch .alloc flags)
    let _ ← ofPaging (← remapPage i address replacement.paddr flags)
    let _ ← intoPte replacement
    let old ← expect (takeFromPte mapped)
    dropFrame old

/-! ### Checking and unmapping a range -/

/-- What the visitor of `preflight_range` has against a leaf. -/
def leafError (start stop : Nat) (kind : FrameKind) (pageSize : PageSize) (visit : Visit) :
    Prog arch ι (Option XError) := do
  if 2 ^ 64 ≤ visit.address + visit.size.bytes then pure (some .invalidInput)
  else if visit.address < start ∨ stop < visit.address + visit.size.bytes then pure (some .invalidInput)
  else if FrameKind.fromFlags visit.leaf.flags ≠ kind ∨ visit.size ≠ pageSize then pure (some .badState)
  else
    match kind with
    | .static => pure none
    | .alloc =>
      match ← attempt (validatePte visit.leaf.paddr) with
      | .ok _ => pure none
      | .error (.error e) => pure (some e)
      | .error .panic => throw .panic

/-- The last error found counts. -/
def leafErrors (start stop : Nat) (kind : FrameKind) (pageSize : PageSize) :
    List Visit → Option XError → Prog arch ι (Option XError)
  | [], found => pure found
  | visit :: rest, found => do
    let e ← leafError start stop kind pageSize visit
    leafErrors start stop kind pageSize rest (e.or found)

def walkLeaves (i : ι) (start size : Nat) : Prog arch ι (List Visit) := do
  let t ← pageTable i
  ofPaging (t.walkLeafRange start size)

/-- The number of leaves in a range. -/
def preflightRange (i : ι) (start size : Nat) (kind : FrameKind) (pageSize : PageSize) : Prog arch ι Nat := do
  validateRange i start size pageSize
  let visits ← walkLeaves i start size
  match ← leafErrors start (start + size) kind pageSize visits none with
  | some e => throw (.error e)
  | none => pure visits.length

def unmapLeaf (i : ι) (kind : FrameKind) (pageSize : PageSize) (address : Nat) : Prog arch ι Unit := do
  match ← unmapPage i address with
  | .error .notMapped => pure ()
  | .error _ => throw .panic
  | .ok (physical, actualSize) =>
    if actualSize = pageSize then
      match kind with
      | .static => pure ()
      | .alloc => do
        let frame ← expect (takeFromPte physical)
        dropFrame frame
    else throw .panic

def unmapRange (i : ι) (start size : Nat) (kind : FrameKind) (pageSize : PageSize) : Prog arch ι Unit := do
  let _ ← preflightRange i start size kind pageSize
  forPages start (start + size) pageSize (unmapLeaf i kind pageSize)

def unmapStaticRange (i : ι) (start size : Nat) (pageSize : PageSize) : Prog arch ι Unit :=
  unmapRange i start size .static pageSize

def unmapAllocRange (i : ι) (start size : Nat) : Prog arch ι Unit := unmapRange i start size .alloc .size4K

/-! ### Looking at leaves -/

def cloneLeaf (visit : Visit) : Prog arch ι (Nat × Frame × MappingFlags) := do
  require (FrameKind.fromFlags visit.leaf.flags == .alloc && visit.size == .size4K) .badState
  let frame ← cloneFromPte visit.leaf.paddr
  pure (visit.address, frame, {visit.leaf.flags with allocFrame := false, protNone := false})

def dropFrames (frames : List Frame) : Prog arch ι Unit := frames.forM dropFrame

/-- `mapped_frames`, from the leaves on: the frames it has are dropped on an error. -/
def cloneLeaves : List Visit → List (Nat × Frame × MappingFlags) → Prog arch ι (List (Nat × Frame × MappingFlags))
  | [], frames => pure frames
  | visit :: rest, frames => do
    match ← attempt (cloneLeaf visit) with
    | .ok mapped => cloneLeaves rest (frames ++ [mapped])
    | .error e => do
      dropFrames (frames.map fun mapped => mapped.2.1)
      throw e

def mappedFrames (i : ι) (start stop : Nat) : Prog arch ι (List (Nat × Frame × MappingFlags)) := do
  let visits ← walkLeaves i start (stop - start)
  cloneLeaves visits []

def mappingFlags (i : ι) (address : Nat) : Prog arch ι (Option MappingFlags) := do
  match ← queryPage i address with
  | .ok (_, flags, _) => pure (some flags)
  | .error _ => pure none

/-- A handle, unless the leaf is the only owner. -/
def frameIfShared (i : ι) (address : Nat) : Prog arch ι (Option Frame) := do
  let (physical, flags, pageSize) ← ofPaging (← queryPage i address)
  require (FrameKind.fromFlags flags == .alloc && pageSize == .size4K) .badState
  let physical := physical - physical % pageSize.bytes
  if ← pteIsUnique physical then pure none
  else do
    let frame ← cloneFromPte physical
    pure (some frame)

/-! ### Changing flags -/

def protectLeaf (i : ι) (flags : MappingFlags) (address : Nat) : Prog arch ι Unit := do
  match ← protectPage i address flags with
  | .error .notMapped => pure ()
  | .error _ => throw .panic
  | .ok actualSize => if actualSize = .size4K then pure () else throw .panic

def protectAllocRange (i : ι) (start size : Nat) (flags : MappingFlags) : Prog arch ι Unit := do
  let _ ← preflightRange i start size .alloc .size4K
  let flags ← ofResult (pteFlags arch .alloc flags)
  forPages start (start + size) .size4K (protectLeaf i flags)

def protectAllocPage (i : ι) (address : Nat) (flags : MappingFlags) : Prog arch ι Unit :=
  protectAllocRange i (address - address % PageSize.size4K.bytes) PageSize.size4K.bytes flags

structure ProtectionChange where
  address : Nat
  oldFlags : MappingFlags
  newFlags : MappingFlags

namespace ProtectionTransaction

/-- The changes for the leaves of a range. -/
def prepare (kind : FrameKind) (newFlags : Nat → Nat → Prog arch ι MappingFlags) :
    List Visit → Prog arch ι (List ProtectionChange)
  | [] => pure []
  | visit :: rest => do
    let flags ← newFlags visit.address visit.leaf.paddr
    let flags ← ofResult (pteFlags arch kind flags)
    let changes ← prepare kind newFlags rest
    pure (⟨visit.address, visit.leaf.flags, flags⟩ :: changes)

def apply (i : ι) (change : ProtectionChange) : Prog arch ι Unit := do
  match ← protectPage i change.address change.newFlags with
  | .ok _ => pure ()
  | .error _ => throw .panic

/-- `protect_range`: no leaf changes before all changes are known. -/
def protectRange (i : ι) (start size : Nat) (kind : FrameKind) (pageSize : PageSize) (expectedLeafCount : Option Nat)
    (newFlags : Nat → Nat → Prog arch ι MappingFlags) : Prog arch ι (List ProtectionChange) := do
  let leafCount ← preflightRange i start size kind pageSize
  require (expectedLeafCount.all fun expected => expected == leafCount) .badState
  reserve
  let visits ← walkLeaves i start size
  let changes ← prepare kind newFlags visits
  changes.forM (apply i)
  pure changes

def protectAllocRange (i : ι) (start size : Nat) (flags : MappingFlags) : Prog arch ι (List ProtectionChange) :=
  protectRange i start size .alloc .size4K none fun _ _ => pure flags

def protectAllocRangeWith (i : ι) (start size : Nat) (flags : Bool → MappingFlags) :
    Prog arch ι (List ProtectionChange) :=
  protectRange i start size .alloc .size4K none fun _ physical => do
    let exclusive ← pteIsUnique physical
    pure (flags exclusive)

def protectStaticRange (i : ι) (start : Nat) (frames : StaticFrameRange) (flags : MappingFlags)
    (pageSize : PageSize) : Prog arch ι (List ProtectionChange) := do
  validateRange i start frames.size pageSize
  require (frames.allows flags) .permissionDenied
  protectRange i start frames.size .static pageSize (some (frames.size / pageSize.bytes)) fun address physical =>
    if physical = frames.start + (address - start) then pure flags else throw (.error .badState)

def restore (i : ι) (change : ProtectionChange) : Prog arch ι Unit := do
  match ← protectPage i change.address change.oldFlags with
  | .ok _ => pure ()
  | .error _ => throw .panic

/-- A transaction: its parts in turn, and all undone where one fails. -/
def run (i : ι) : List (Prog arch ι (List ProtectionChange)) → List ProtectionChange → Prog arch ι Unit
  | [], _ => pure ()
  | part :: rest, changes => do
    match ← attempt part with
    | .ok more => run i rest (changes ++ more)
    | .error e => do
      changes.reverse.forM (restore i)
      throw e

end ProtectionTransaction

/-! ### Bytes -/

def Memory.byteAt (s : Memory arch ι) (physical : Nat) : UInt8 :=
  s.bytes (physical - physical % frameSize) ⟨physical % frameSize, Nat.mod_lt _ (by decide)⟩

def Memory.setByte (s : Memory arch ι) (physical : Nat) (byte : UInt8) : Memory arch ι :=
  let frame := physical - physical % frameSize
  {s with bytes := update s.bytes frame fun offset =>
    if offset.val = physical % frameSize then byte else s.bytes frame offset}

def writePhysical (physical : Nat) : List UInt8 → Prog arch ι Unit
  | [] => pure ()
  | byte :: rest => do
    modify fun s => s.setByte physical byte
    writePhysical (physical + 1) rest

/-- What `process_bytes` asks of the leaf that it copies from or to. -/
def copyable (access : MappingFlags) (kind : Option FrameKind) (flags : MappingFlags) : Bool :=
  flags.contains access && !flags.device && kind.all fun kind => FrameKind.fromFlags flags == kind

/-- The loop of `process_bytes`; `left` bytes are still to be copied, and `fuel` is at least as
many. -/
def processChunks (i : ι) (access : MappingFlags) (kind : Option FrameKind)
    (copy : Nat → Nat → Nat → Prog arch ι Unit) : (fuel address copied left : Nat) → Prog arch ι Unit
  | 0, _, _, _ => pure ()
  | fuel + 1, address, copied, left =>
    if left = 0 then pure ()
    else do
      let (physical, flags, pageSize) ← ofPaging (← queryPage i address)
      require (copyable access kind flags) .permissionDenied
      let count := min (pageSize.bytes - address % pageSize.bytes) left
      copy physical copied count
      processChunks i access kind copy fuel (address + count) (copied + count) (left - count)

def processBytes (i : ι) (start size : Nat) (access : MappingFlags) (kind : Option FrameKind)
    (copy : Nat → Nat → Nat → Prog arch ι Unit) : Prog arch ι Unit :=
  if size = 0 then pure ()
  else do
    let s ← get
    require ((s.spaces i).containsRange start size) .invalidInput
    processChunks i access kind copy size start 0 size

def writeAccess : MappingFlags := ⟨false, true, false, false, false, false, false, false⟩

def writeAllocBytes (i : ι) (start : Nat) (input : List UInt8) : Prog arch ι Unit :=
  processBytes i start input.length writeAccess (some .alloc) fun physical offset count =>
    writePhysical physical ((input.drop offset).take count)

/-! ### Making and dropping -/

/-- `new_user`, for one hart. The root table is a request for memory. -/
def newUser (i : ι) (range : UserRange arch) : Prog arch ι Unit := do
  reserve
  modify fun s => {s with spaces := update s.spaces i ⟨range, .new⟩}

/-- `AddressSpace::drop`: leaves that own a frame must be gone. -/
def dropAddressSpace (i : ι) : Prog arch ι Unit := do
  let s ← get
  let visits ← expect (walkLeaves i (s.spaces i).range.start (s.spaces i).range.size)
  if visits.any fun visit => FrameKind.fromFlags visit.leaf.flags == .alloc then throw .panic
  else modify fun s => {s with spaces := update s.spaces i {s.spaces i with pageTable := .new}}

end Model

end StarryX.Mm
