import StarryX.Vma.Fault

/-! User address spaces.

The operations of a `VmSpace` check their request against the areas, change the page table, and
keep areas and guards in step. `System` is a kernel with any number of spaces, and `System.run` a
run of operations on them in any order: an operation that fails leaves what it left, and a panic
ends the run. -/
namespace StarryX.Vma
open Library Mm

/-! ### What an area is made with -/

/-- A `Backend` as its constructors make it. -/
inductive Backend where
  | staticFrames (frames : StaticFrameRange) (pageSize : PageSize)
  | anonymous (populate : Bool)
  | object (id offset : Nat) (isPrivate populate : Bool)

def Backend.prepare (size : Nat) : Backend → Except XError (PageSize × Backing × Bool)
  | .staticFrames frames pageSize =>
    if frames.size ≠ size then .error .invalidInput else .ok (pageSize, ⟨.static frames, false⟩, false)
  | .anonymous populate => .ok (.size4K, ⟨.zero, true⟩, populate)
  | .object id offset isPrivate populate =>
    if offset % PageSize.size4K.bytes ≠ 0 ∨ 2 ^ 64 ≤ offset + size then .error .invalidInput
    else .ok (.size4K, ⟨.object id offset, isPrivate⟩, populate)

/-- `Backing::requires_write_guard`. -/
def Backing.requiresWriteGuard (guarded : Nat → Bool) (backing : Backing) : Bool :=
  !backing.isPrivate &&
    match backing.source with
    | .object id _ => guarded id
    | _ => false

theorem requiresWriteGuard_private {guarded : Nat → Bool} {backing : Backing} (h : backing.isPrivate) :
    backing.requiresWriteGuard guarded = false := by
  simp [Backing.requiresWriteGuard, h]

section Model
variable {arch : Arch} {ι : Type} [DecidableEq ι]

/-! ### The leaves of an area -/

namespace VmArea

def map (i : ι) (area : VmArea) : Prog arch ι Unit :=
  match area.backing.source with
  | .static frames => mapStaticRange i area.range.start frames area.flags area.pageSize
  | _ => pure ()

def unmap (i : ι) (area : VmArea) (range : VirtAddrRange) : Prog arch ι Unit :=
  match area.backing.source with
  | .static _ => unmapStaticRange i range.start range.size area.pageSize
  | _ => unmapAllocRange i range.start range.size

def protect (i : ι) (guarded : Nat → Bool) (area : VmArea) (range : VirtAddrRange) (flags : MappingFlags) :
    Prog arch ι (List ProtectionChange) :=
  match area.backing.source with
  | .static frames => do
    let part ← ofResult (frames.subrange (range.start - area.range.start) range.size)
    ProtectionTransaction.protectStaticRange i range.start part flags area.pageSize
  | _ =>
    if !flags.write then ProtectionTransaction.protectAllocRange i range.start range.size flags
    else if area.backing.isPrivate then
      ProtectionTransaction.protectAllocRangeWith i range.start range.size fun exclusive =>
        if exclusive then flags else MappingFlags.withoutWrite flags
    else if area.backing.requiresWriteGuard guarded then
      ProtectionTransaction.protectAllocRange i range.start range.size (MappingFlags.withoutWrite flags)
    else ProtectionTransaction.protectAllocRange i range.start range.size flags

/-- The loop of `map_child`; the frames that it does not come to are dropped. -/
def installAll (j : ι) (isPrivate : Bool) : List (Nat × Frame × MappingFlags) → Prog arch ι Unit
  | [] => pure ()
  | (address, frame, flags) :: rest => do
    match ← attempt (mapFrame j address frame (if isPrivate then MappingFlags.withoutWrite flags else flags)) with
    | .ok _ => installAll j isPrivate rest
    | .error e => do
      dropFrames (rest.map fun mapped => mapped.2.1)
      throw e

def mapChild (i j : ι) (area : VmArea) : Prog arch ι Unit :=
  match area.backing.source with
  | .static frames => mapStaticRange j area.range.start frames area.flags area.pageSize
  | _ => do
    let frames ← mappedFrames i area.range.start area.range.stop
    installAll j area.backing.isPrivate frames

def protectParentAfterFork (i : ι) (area : VmArea) : Prog arch ι (List ProtectionChange) :=
  if area.backing.isPrivate && area.flags.write then
    ProtectionTransaction.protectAllocRange i area.range.start area.range.size (MappingFlags.withoutWrite area.flags)
  else pure []

end VmArea

/-! ### Mapping and unmapping -/

def unmapAreas (i : ι) (areas : List VmArea) : Prog arch ι Unit := areas.forM fun area => area.unmap i area.range

/-- A mapping that could not be populated is taken back. -/
def undoMap (i : ι) (start : Nat) (range : VirtAddrRange) : VProg arch ι Unit := do
  let v ← get
  let area ← ofOption (v.space.areas.get? start)
  modify fun v => {v with space.areas := v.space.areas.erase start}
  onMemory (expect (area.unmap i range))

def map (i : ι) (start size : Nat) (flags : MappingFlags) (backend : Backend) : VProg arch ι Unit := do
  let v ← get
  let (pageSize, backing, populate) ← ofExcept (backend.prepare size)
  let range ← ofExcept (validateNewArea v.space.virtRange v.space.areas start size pageSize)
  onMemory (VmArea.map i ⟨range, flags, pageSize, backing⟩)
  let areas ← ofOption (insertArea v.space.areas ⟨range, flags, pageSize, backing⟩)
  modify fun v => {v with space.areas := areas}
  if populate then do
    match ← attempt (populateArea i start size flags) with
    | .ok _ => pure ()
    | .error .panic => throw .panic
    | .error (.error e) => do
      undoMap i start range
      throw (.error e)
  else pure ()

/-- The areas of a list that meet a range, with the parts in which they do. -/
def overlaps (range : VirtAddrRange) : List VmArea → List (VmArea × VirtAddrRange)
  | [] => []
  | area :: rest =>
    if h : area.range.overlaps range then (area, area.overlapWith range h) :: overlaps range rest
    else overlaps range rest

def unmap (i : ι) (start size : Nat) : VProg arch ι Unit := do
  let v ← get
  let removed ← ofExcept (validateRange v.space.virtRange start size .size4K)
  ofExcept (validateSplitOffsets v.space.areas removed)
  onMemory ((overlaps removed (values v.space.areas)).forM fun part => part.1.unmap i part.2)
  let areas ← ofOption (retainOutside v.space.areas removed)
  modify fun v => {v with space.areas := areas}
  dropWriteGuards removed

def unmapUserAreas (i : ι) : VProg arch ι Unit := do
  let v ← get
  onMemory (unmapAreas i (values v.space.areas))
  modify fun v => {v with space.areas := .empty, space.writeGuards := []}

/-! ### Protecting -/

def protect (i : ι) (start size : Nat) (flags : MappingFlags) : VProg arch ι Unit := do
  let v ← get
  let changed ← ofExcept (validateRange v.space.virtRange start size .size4K)
  if checkRegionAccess v.space.areas ⟨false, false, false, false, false, false, false, false⟩ changed.size changed.start
      changed.stop then do
    ofExcept (validateSplitOffsets v.space.areas changed)
    let committed ← ofOption (committedAreas v.space.areas changed flags)
    onMemory (ProtectionTransaction.run i ((overlaps changed (values v.space.areas)).map fun part =>
      part.1.protect i v.kernel.guarded part.2 flags) [])
    modify fun v => {v with space.areas := committed}
    dropWriteGuards changed
  else throw (.error .noMemory)

/-! ### Forking -/

/-- From the room for the guards to the commit of the parent's transaction. -/
def buildChild (i j : ι) (space : VmSpace arch) : Prog arch ι Unit := do
  if space.writeGuards.isEmpty then pure () else reserve
  (values space.areas).forM (VmArea.mapChild i j)
  ProtectionTransaction.run i ((values space.areas).map (VmArea.protectParentAfterFork i)) []

/-- `VmSpace::drop`, and the page table's. -/
def dropSpace (i : ι) (areas : List VmArea) : Prog arch ι Unit := do
  expect (unmapAreas i areas)
  dropAddressSpace i

/-- The child's page table is that of `j`. -/
def tryClone (i j : ι) : VProg arch ι (VmSpace arch) := do
  let v ← get
  onMemory (newUser j v.space.range)
  match ← attempt (onMemory (buildChild i j v.space)) with
  | .ok _ => pure v.space
  | .error .panic => throw .panic
  | .error (.error e) => do
    onMemory (dropSpace j (values v.space.areas))
    throw (.error e)

/-! ### Bytes -/

def readAccess : MappingFlags := ⟨true, false, false, false, false, false, false, false⟩

def writeBytes (i : ι) (start : Nat) (input : List UInt8) : VProg arch ι Unit :=
  if input.length = 0 then pure ()
  else if 2 ^ 64 ≤ start + input.length then throw (.error .invalidInput)
  else do
    let v ← get
    if checkRegionAccess v.space.areas writeAccess input.length start (start + input.length) then
      onMemory (writeAllocBytes i start input)
    else throw (.error .permissionDenied)

/-! ### Invalidation -/

/-- The addresses of an area whose bytes come from a range of an object; `None` is an `expect`. -/
def invalidatedRange (area : VmArea) (id start stop : Nat) : Option (Option VirtAddrRange) :=
  match area.backing.objectAt 0 with
  | none => some none
  | some (areaOffset, object) =>
    if object ≠ id then some none
    else if 2 ^ 64 ≤ areaOffset + area.range.size then none
    else
      let overlapStart := max areaOffset start
      let overlapStop := min (areaOffset + area.range.size) stop
      if overlapStop ≤ overlapStart then some none
      else
        let first := area.range.start + (overlapStart - areaOffset)
        let last := area.range.start + (overlapStop - areaOffset)
        if 2 ^ 64 ≤ last then none
        else
          let first := first - first % frameSize
          let last := min ((last + (frameSize - 1)) % 2 ^ 64 / frameSize * frameSize) area.range.stop
          if h : first ≤ last then some (some ⟨first, last, h⟩) else none

def validateAllocRange (i : ι) (start size : Nat) : Prog arch ι Unit := do
  let _ ← preflightRange i start size .alloc .size4K

def validateObjectRange (i : ι) (id start stop : Nat) : VProg arch ι Unit :=
  if stop ≤ start then pure ()
  else do
    let v ← get
    (values v.space.areas).forM fun area => do
      match ← ofOption (invalidatedRange area id start stop) with
      | none => pure ()
      | some invalidated => onMemory (validateAllocRange i invalidated.start invalidated.size)

def unmapObjectArea (i : ι) (id start stop : Nat) (area : VmArea) : VProg arch ι Unit := do
  match ← ofOption (invalidatedRange area id start stop) with
  | none => pure ()
  | some invalidated => do
    onMemory (expect (area.unmap i invalidated))
    dropWriteGuards invalidated

def unmapObjectRange (i : ι) (id start stop : Nat) : VProg arch ι Unit := do
  let v ← get
  (values v.space.areas).forM (unmapObjectArea i id start stop)

end Model

/-! ### Runs -/

/-- Static frames are none of the allocator's: making a `StaticFrameRange` is unsafe. -/
def Backend.isSound {arch : Arch} {ι : Type} (memory : Memory arch ι) : Backend → Bool
  | .staticFrames frames _ =>
    frames.start + frames.size ≤ memory.base || memory.base + memory.frameCount * frameSize ≤ frames.start
  | _ => true

/-- A kernel with its user spaces. -/
structure System (arch : Arch) (ι : Type) where
  kernel : Kernel arch ι
  spaces : ι → Option (VmSpace arch)

inductive Op (arch : Arch) (ι : Type) where
  | newEmpty (i : ι) (range : UserRange arch)
  | map (i : ι) (start size : Nat) (flags : MappingFlags) (backend : Backend)
  | unmap (i : ι) (start size : Nat)
  | protect (i : ι) (start size : Nat) (flags : MappingFlags)
  | handlePageFault (i : ι) (address : Nat) (access : MappingFlags)
  | populateArea (i : ι) (start size : Nat) (access : MappingFlags)
  | writeBytes (i : ι) (start : Nat) (input : List UInt8)
  | tryClone (i j : ι)
  | unmapUserAreas (i : ι)
  | unmapObjectRange (i : ι) (id start stop : Nat)
  | drop (i : ι)
  | objects (acts : List Act)

namespace System
variable {arch : Arch} {ι : Type} [DecidableEq ι]

def setSpace (s : System arch ι) (i : ι) (kernel : Kernel arch ι) (space : Option (VmSpace arch)) : System arch ι :=
  ⟨kernel, Function.update s.spaces i space⟩

/-- A method of a space that exists. -/
def call {α : Type} (s : System arch ι) (i : ι) (x : VProg arch ι α) : Option (System arch ι) :=
  match s.spaces i with
  | none => some s
  | some space =>
    match x ⟨s.kernel, space⟩ with
    | .ok _ v => some (s.setSpace i v.kernel (some v.space))
    | .error (.error _) v => some (s.setSpace i v.kernel (some v.space))
    | .error .panic _ => none

/-- A space at an index that is free. -/
def newEmpty (s : System arch ι) (i : ι) (range : UserRange arch) : Option (System arch ι) :=
  match s.spaces i with
  | some _ => some s
  | none =>
    match Kernel.onMemory (newUser i range) s.kernel with
    | .ok _ kernel => some (s.setSpace i kernel (some ⟨range, .empty, []⟩))
    | .error (.error _) kernel => some {s with kernel := kernel}
    | .error .panic _ => none

/-- The child comes to an index that is free. -/
def tryClone (s : System arch ι) (i j : ι) : Option (System arch ι) :=
  match s.spaces i, s.spaces j with
  | some space, none =>
    match Vma.tryClone i j ⟨s.kernel, space⟩ with
    | .ok child v => some ((s.setSpace i v.kernel (some v.space)).setSpace j v.kernel (some child))
    | .error (.error _) v => some (s.setSpace i v.kernel (some v.space))
    | .error .panic _ => none
  | _, _ => some s

def drop (s : System arch ι) (i : ι) : Option (System arch ι) :=
  match s.spaces i with
  | none => some s
  | some space =>
    match Kernel.onMemory (dropSpace i (values space.areas)) s.kernel with
    | .ok _ kernel => some (s.setSpace i kernel none)
    | .error _ _ => none

/-- Between the calls objects do as they like. -/
def objects (s : System arch ι) (acts : List Act) : Option (System arch ι) :=
  match (acts.forM Act.perform : KProg arch ι Unit) s.kernel with
  | .ok _ kernel => some {s with kernel := kernel}
  | .error _ _ => none

def step (s : System arch ι) : Op arch ι → Option (System arch ι)
  | .newEmpty i range => s.newEmpty i range
  | .map i start size flags backend =>
    if backend.isSound s.kernel.memory then s.call i (Vma.map i start size flags backend) else some s
  | .unmap i start size => s.call i (Vma.unmap i start size)
  | .protect i start size flags => s.call i (Vma.protect i start size flags)
  | .handlePageFault i address access => s.call i (Vma.handlePageFault i address access)
  | .populateArea i start size access => s.call i (Vma.populateArea i start size access)
  | .writeBytes i start input => s.call i (Vma.writeBytes i start input)
  | .tryClone i j => s.tryClone i j
  | .unmapUserAreas i => s.call i (Vma.unmapUserAreas i)
  | .unmapObjectRange i id start stop => s.call i (Vma.unmapObjectRange i id start stop)
  | .drop i => s.drop i
  | .objects acts => s.objects acts

def run (s : System arch ι) : List (Op arch ι) → Option (System arch ι)
  | [] => some s
  | op :: rest => (s.step op).bind fun s => s.run rest

end System

end StarryX.Vma
