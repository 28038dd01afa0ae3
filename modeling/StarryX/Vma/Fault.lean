import StarryX.Errno
import StarryX.Vma.Layout

/-! Page faults.

A user space has areas, which say what its addresses are for, and a page table, which is filled by
faults. The pages of an object come from its provider. What a provider answers is given call by
call: it may load and drop pages of its own before it answers, and it has a handle to every frame
it supplies. A guard keeps a page writable for the time it is recorded. -/
namespace StarryX.Vma
open Library Mm

/-! ### State -/

/-- A `VmPageGuard`: whose it is does not matter here. -/
structure Guard where
  id : Nat
  deriving DecidableEq

/-- `LinuxError::from`. -/
def linuxError : XError → LinuxError
  | .noMemory => .enomem
  | .alreadyExists => .eexist
  | .badAddress | .badState => .efault
  | .invalidInput | .invalidData => .einval
  | .permissionDenied => .eacces
  | .unsupported => .enosys
  | .wouldBlock => .eagain
  | .io => .eio

/-- A `VmSpace`, but for its page table. User space lies in the lower half. -/
structure VmSpace (arch : Arch) where
  range : UserRange arch
  areas : AreaMap
  writeGuards : List (Nat × Guard)

/-- A frame that an object has a handle to. -/
structure Kept where
  object : Nat
  frame : Frame

/-- What objects do on their own. A handle is given by its position among those kept. -/
inductive Act where
  | load (object : Nat) (bytes : FrameBytes)
  | store (k : Nat) (bytes : FrameBytes)
  | forget (k : Nat)

/-- The answer to one call of `page`: what is done before, and a handle with a guard. -/
structure Reply where
  acts : List Act
  result : LinuxResult (Nat × Option Guard)

/-- What the address spaces share. An object is known by its id; `calls` counts the calls to
objects, and their answers may depend on all arguments. -/
structure Kernel (arch : Arch) (ι : Type) where
  memory : Memory arch ι
  guarded : Nat → Bool
  kept : List Kept
  lengths : (call object : Nat) → LinuxResult Nat
  replies : (call object index : Nat) → (write : Bool) → Reply
  calls : Nat

/-- What a method of `VmSpace` works on. -/
structure Vm (arch : Arch) (ι : Type) where
  kernel : Kernel arch ι
  space : VmSpace arch

abbrev KProg (arch : Arch) (ι : Type) := EStateM XStop (Kernel arch ι)

abbrev VProg (arch : Arch) (ι : Type) := EStateM XStop (Vm arch ι)

section Model
variable {arch : Arch} {ι : Type}

def Kernel.onMemory {α : Type} (x : Prog arch ι α) : KProg arch ι α :=
  zoom Kernel.memory (fun k memory => {k with memory := memory}) x

def onKernel {α : Type} (x : KProg arch ι α) : VProg arch ι α :=
  zoom Vm.kernel (fun v kernel => {v with kernel := kernel}) x

def onMemory {α : Type} (x : Prog arch ι α) : VProg arch ι α := onKernel (Kernel.onMemory x)

/-- A call whose error is looked at. -/
def tryMemory {α : Type} (x : Prog arch ι α) : VProg arch ι (Except XError α) := do
  match ← attempt (onMemory x) with
  | .ok a => pure (.ok a)
  | .error (.error e) => pure (.error e)
  | .error .panic => throw .panic

def ofExcept {α : Type} : Except XError α → VProg arch ι α
  | .ok a => pure a
  | .error e => throw (.error e)

/-- A value that the code expects to be there. -/
def ofOption {α : Type} : Option α → VProg arch ι α
  | some a => pure a
  | none => throw .panic

/-! ### Objects -/

def fill (frame : Frame) (bytes : FrameBytes) : Prog arch ι Unit :=
  modify fun s => {s with bytes := Function.update s.bytes frame.paddr bytes}

def Act.perform : Act → KProg arch ι Unit
  | .load object bytes => do
    match ← Kernel.onMemory allocateZeroed with
    | none => pure ()
    | some frame => do
      Kernel.onMemory (fill frame bytes)
      modify fun k => {k with kept := ⟨object, frame⟩ :: k.kept}
  | .store k bytes => do
    match (← get).kept[k]? with
    | none => pure ()
    | some kept => Kernel.onMemory (fill kept.frame bytes)
  | .forget k => do
    match (← get).kept[k]? with
    | none => pure ()
    | some kept => do
      modify fun s => {s with kept := s.kept.eraseIdx k}
      Kernel.onMemory (dropFrame kept.frame)

/-- `VmObject::byte_len`. -/
def byteLen (object : Nat) : KProg arch ι (LinuxResult Nat) :=
  modifyGet fun k => (k.lengths k.calls object, {k with calls := k.calls + 1})

/-- `VmObject::page`: the frame is a clone of one that the object keeps. -/
def page (object index : Nat) (write : Bool) : KProg arch ι (LinuxResult (Frame × Option Guard)) := do
  let reply ← modifyGet fun k => (k.replies k.calls object index write, {k with calls := k.calls + 1})
  reply.acts.forM Act.perform
  match reply.result with
  | .error e => pure (.error e)
  | .ok (k, guard) =>
    match ((← get).kept[k]?).filter fun kept => kept.object == object with
    | none => pure (.error .efault)
    | some kept => do
      let frame ← Kernel.onMemory (cloneFrame kept.frame)
      pure (.ok (frame, guard))

/-! ### Guards -/

/-- In the order of the addresses. -/
def insertGuard (address : Nat) (guard : Guard) : List (Nat × Guard) → List (Nat × Guard)
  | [] => [(address, guard)]
  | e :: rest => if e.1 < address then e :: insertGuard address guard rest else (address, guard) :: e :: rest

def insertWriteGuard (address : Nat) (guard : Guard) : VProg arch ι Unit :=
  modify fun v => {v with space.writeGuards := insertGuard address guard v.space.writeGuards}

def dropWriteGuards (range : VirtAddrRange) : VProg arch ι Unit :=
  modify fun v => {v with space.writeGuards := v.space.writeGuards.filter fun e => !range.contains e.1}

/-- Whether there is room for the guard, if any. -/
def reserveWriteGuard (guard : Option Guard) : VProg arch ι Bool :=
  match guard with
  | none => pure true
  | some _ => do
    match ← tryMemory reserve with
    | .ok _ => pure true
    | .error _ => pure false

def recordGuard (address : Nat) : Option Guard → VProg arch ι Unit
  | none => pure ()
  | some guard => insertWriteGuard address guard

/-! ### Resolving a fault -/

inductive FaultResolution where
  | resolved
  | retry
  | segv
  | bus
  | noMemory
  deriving DecidableEq

def FaultResolution.fromPageError : LinuxError → FaultResolution
  | .eagain => .retry
  | .enomem => .noMemory
  | _ => .bus

/-- What a failed change of a leaf means. -/
def FaultResolution.fromResult : Except XError Unit → FaultResolution
  | .ok _ => .resolved
  | .error .noMemory => .noMemory
  | .error _ => .segv

def MappingFlags.withoutWrite (flags : MappingFlags) : MappingFlags := {flags with write := false}

/-- Room for the guard, one change of a leaf, and then the guard. `unused` is what dropping the
change does if it is not made. -/
def commitPage (address : Nat) (guard : Option Guard) (pteChange unused : Prog arch ι Unit) :
    VProg arch ι FaultResolution := do
  if ← reserveWriteGuard guard then
    match ← tryMemory pteChange with
    | .ok _ => do
      recordGuard address guard
      pure .resolved
    | .error e => pure (.fromResult (.error e))
  else do
    onMemory unused
    pure .noMemory

variable [DecidableEq ι]

def installPage (i : ι) (address : Nat) (frame : Frame) (flags : MappingFlags) (guard : Option Guard) :
    VProg arch ι FaultResolution :=
  commitPage address guard (mapFrame i address frame flags) (dropFrame frame)

def resolvePrivateWrite (i : ι) (address : Nat) (flags : MappingFlags) : VProg arch ι FaultResolution := do
  match ← tryMemory (frameIfShared i address) with
  | .ok none =>
    match ← tryMemory (protectAllocPage i address flags) with
    | .ok _ => pure .resolved
    | .error _ => pure .segv
  | .ok (some current) =>
    match ← onMemory (deepCopy current) with
    | none => do
      onMemory (dropFrame current)
      pure .noMemory
    | some replacement => do
      let r ← tryMemory (replaceFrame i address current replacement flags)
      onMemory (dropFrame current)
      pure (.fromResult r)
  | .error _ => pure .segv

/-- What `resolve_object_fault` does with the page it was supplied. -/
def installSupplied (i : ι) (address : Nat) (area : VmArea) (guarded isPrivate writing : Bool) (frame : Frame)
    (guard : Option Guard) : VProg arch ι FaultResolution :=
  if isPrivate then
    if !writing then installPage i address frame (MappingFlags.withoutWrite area.flags) none
    else do
      match ← onMemory (deepCopy frame) with
      | none => do
        onMemory (dropFrame frame)
        pure .noMemory
      | some copy => do
        let r ← installPage i address copy area.flags none
        onMemory (dropFrame frame)
        pure r
  else
    installPage i address frame (if guarded && guard.isNone then MappingFlags.withoutWrite area.flags else area.flags) guard

def resolveObjectFault (i : ι) (address : Nat) (area : VmArea) (object sourceOffset : Nat) (isPrivate : Bool)
    (access : MappingFlags) : VProg arch ι FaultResolution := do
  let objectOffset := sourceOffset + (address - area.range.start)
  if 2 ^ 64 ≤ objectOffset then pure .bus
  else
    match ← onKernel (byteLen object) with
    | .error e => pure (.fromPageError e)
    | .ok objectLen =>
      if objectLen ≤ objectOffset then pure .bus
      else
        match ← onKernel (page object (objectOffset / frameSize) (!isPrivate && access.write)) with
        | .error e => pure (.fromPageError e)
        | .ok (frame, guard) => do
          let v ← get
          installSupplied i address area (v.kernel.guarded object) isPrivate access.write frame guard

def upgradeSharedWrite (i : ι) (address : Nat) (area : VmArea) (object objectOffset : Nat) :
    VProg arch ι FaultResolution := do
  match ← onKernel (page object (objectOffset / frameSize) true) with
  | .error e => pure (.fromPageError e)
  | .ok (frame, guard) => do
    let v ← get
    if v.kernel.guarded object && guard.isNone then do
      onMemory (dropFrame frame)
      pure .bus
    else do
      let r ← commitPage address guard (protectAllocPage i address area.flags) (pure ())
      onMemory (dropFrame frame)
      pure r

/-- `Backing::resolve_fault`. -/
def resolveFault (i : ι) (area : VmArea) (address : Nat) (access : MappingFlags) : VProg arch ι FaultResolution :=
  match area.backing.source with
  | .zero => do
    match ← onMemory allocateZeroed with
    | none => pure .noMemory
    | some frame => do
      let r ← tryMemory (mapFrame i address frame area.flags)
      pure (.fromResult r)
  | .object object offset => resolveObjectFault i address area object offset area.backing.isPrivate access
  | .static _ => pure .segv

/-- A fault on a page that is there. -/
def resolveResident (i : ι) (area : VmArea) (address : Nat) (flags access : MappingFlags) :
    VProg arch ι FaultResolution :=
  if flags.contains access then pure .resolved
  else if !access.write then pure .segv
  else if area.backing.isPrivate then resolvePrivateWrite i address area.flags
  else
    match area.backing.objectAt (address - area.range.start) with
    | none => pure .segv
    | some (offset, object) => upgradeSharedWrite i address area object offset

def handlePageFault (i : ι) (address : Nat) (access : MappingFlags) : VProg arch ι FaultResolution := do
  let v ← get
  match areaAt v.space.areas address with
  | none => pure .segv
  | some area =>
    if area.flags.contains access then do
      let page := address - address % area.pageSize.bytes
      match ← onMemory (mappingFlags i page) with
      | some flags => resolveResident i area page flags access
      | none => resolveFault i area page access
    else pure .segv

/-! ### Populating -/

def VmSpace.virtRange (space : VmSpace arch) : VirtAddrRange := .fromStartSize space.range.start space.range.size

def populatePage (i : ι) (access : MappingFlags) (address : Nat) : VProg arch ι Unit := do
  match ← handlePageFault i address access with
  | .resolved => pure ()
  | .retry => throw (.error .wouldBlock)
  | .noMemory => throw (.error .noMemory)
  | .segv => throw (.error .badAddress)
  | .bus => throw (.error .io)

def populateArea (i : ι) (start size : Nat) (access : MappingFlags) : VProg arch ι Unit := do
  let v ← get
  let range ← ofExcept (validateRange v.space.virtRange start size .size4K)
  if checkRegionAccess v.space.areas access range.size range.start range.stop then
    match pageIter range.start range.stop .size4K with
    | some pages => pages.forM (populatePage i access)
    | none => throw (.error .invalidInput)
  else throw (.error .noMemory)

end Model

end StarryX.Vma
