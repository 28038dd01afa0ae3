import StarryX.Library.Hoare
import StarryX.Mm.PageTable

/-! Counted physical frames.

The frame database has a reference count per frame of physical memory, and the page allocator
knows which frames are out. A `Frame` is a handle; a leaf of a page table that carries
`ALLOC_FRAME` is an owner as well, and `into_pte` and `take_from_pte` pass ownership between
the two without touching the count. `handles` counts the live handles, `allocs` and `frees`
what went through the allocator; the code does not read them.

`Inv` says that a state is the one a `World` describes: what each address maps, the counts, the
handles and what the frames hold, while the allocator has exactly the counted frames out. Each
function here has one specification that tells the world it leaves. -/
namespace StarryX.Mm
open Library Function

inductive XError where
  | noMemory
  | alreadyExists
  | badAddress
  | invalidInput
  | badState
  | permissionDenied
  | unsupported
  | wouldBlock
  | io
  | invalidData
  deriving DecidableEq

/-- How a call that does not return ends. -/
inductive XStop where
  | error (code : XError)
  | panic
  deriving DecidableEq

theorem XStop.error_ne_panic (code : XError) : XStop.error code ≠ .panic := nofun

/-- `PAGE_SIZE_4K`. -/
def frameSize : Nat := 4096

abbrev FrameBytes := Fin frameSize → UInt8

/-- A counted handle. -/
structure Frame where
  paddr : Nat
  deriving DecidableEq

/-- A `VirtAddrRange` for user memory, which lies in the lower half. -/
structure UserRange (arch : Arch) where
  start : Nat
  size : Nat
  low : start + size ≤ arch.span / 2

structure AddressSpace (arch : Arch) where
  range : UserRange arch
  pageTable : PageTable arch

/-- Physical memory, and the address spaces over it. `answers` are the page allocator's to the
requests for a frame, and `grants` those to the other requests for memory, as for a table. -/
structure Memory (arch : Arch) (ι : Type) where
  base : Nat
  frameCount : Nat
  aligned : base % frameSize = 0
  refCount : Nat → Nat
  live : Nat → Bool
  bytes : Nat → FrameBytes
  answers : Nat → Option Nat
  asked : Nat
  grants : Nat → Bool
  requests : Nat
  handles : Nat → Nat
  allocs : Nat → Nat
  frees : Nat → Nat
  spaces : ι → AddressSpace arch

abbrev Prog (arch : Arch) (ι : Type) := EStateM XStop (Memory arch ι)

section Model
variable {arch : Arch} {ι : Type}

/-! ### The reference count -/

namespace FrameMeta

def claim (count : Nat) : Option Nat := if count = 0 then some 1 else none

def tryGet (count : Nat) : Option Nat := if count ≠ 0 ∧ count ≠ 2 ^ 32 - 1 then some (count + 1) else none

/-- The count without one reference, and whether that was the last. -/
def put (count : Nat) : Option (Nat × Bool) := if count = 0 then none else some (count - 1, count == 1)

end FrameMeta

/-- `FrameDatabase::metadata` finds something. -/
def Memory.inDatabase (s : Memory arch ι) (paddr : Nat) : Bool :=
  s.base ≤ paddr && (paddr - s.base) % frameSize == 0 && (paddr - s.base) / frameSize < s.frameCount

def setCount (paddr count : Nat) : Prog arch ι Unit :=
  modify fun s => {s with refCount := update s.refCount paddr count}

def addHandle (paddr : Nat) : Prog arch ι Unit :=
  modify fun s => {s with handles := update s.handles paddr (s.handles paddr + 1)}

def forgetHandle (paddr : Nat) : Prog arch ι Unit :=
  modify fun s => {s with handles := update s.handles paddr (s.handles paddr - 1)}

/-! ### The page allocator -/

/-- A page that is out is not handed out again. -/
def allocPages : Prog arch ι (Option Nat) := modifyGet fun s =>
  match s.answers s.asked with
  | some p =>
    if s.live p then (none, {s with asked := s.asked + 1})
    else (some p, {s with
      asked := s.asked + 1
      live := update s.live p true
      allocs := update s.allocs p (s.allocs p + 1)})
  | none => (none, {s with asked := s.asked + 1})

/-- Giving back a page that is not out corrupts the allocator. -/
def deallocPages (paddr : Nat) : Prog arch ι Unit := do
  if (← get).live paddr then
    modify fun s => {s with
      live := update s.live paddr false
      frees := update s.frees paddr (s.frees paddr + 1)}
  else throw .panic

/-! ### Handles -/

def allocateZeroed : Prog arch ι (Option Frame) := do
  match ← allocPages with
  | none => pure none
  | some p =>
    let s ← get
    if s.inDatabase p then
      match FrameMeta.claim (s.refCount p) with
      | none => throw .panic
      | some count =>
        modify fun s => {s with
          refCount := update s.refCount p count
          bytes := update s.bytes p fun _ => 0
          handles := update s.handles p (s.handles p + 1)}
        pure (some ⟨p⟩)
    else
      deallocPages p
      pure none

def releaseReference (paddr : Nat) : Prog arch ι Unit := do
  let s ← get
  if s.inDatabase paddr then
    match FrameMeta.put (s.refCount paddr) with
    | none => throw .panic
    | some (count, last) =>
      setCount paddr count
      if last then deallocPages paddr else pure ()
  else throw .panic

/-- `Frame::drop`. -/
def dropFrame (frame : Frame) : Prog arch ι Unit := do
  forgetHandle frame.paddr
  releaseReference frame.paddr

/-- `Frame::clone`. -/
def cloneFrame (frame : Frame) : Prog arch ι Frame := do
  let s ← get
  if s.inDatabase frame.paddr then
    match FrameMeta.tryGet (s.refCount frame.paddr) with
    | none => throw .panic
    | some count =>
      setCount frame.paddr count
      addHandle frame.paddr
      pure frame
  else throw .panic

def deepCopy (frame : Frame) : Prog arch ι (Option Frame) := do
  match ← allocateZeroed with
  | none => pure none
  | some copy =>
    modify fun s => {s with bytes := update s.bytes copy.paddr (s.bytes frame.paddr)}
    pure (some copy)

/-- The reference goes into a leaf: the handle is forgotten, not dropped. -/
def intoPte (frame : Frame) : Prog arch ι Nat := do
  forgetHandle frame.paddr
  pure frame.paddr

def cloneFromPte (paddr : Nat) : Prog arch ι Frame := do
  let s ← get
  if s.inDatabase paddr then
    match FrameMeta.tryGet (s.refCount paddr) with
    | none => throw (.error .badState)
    | some count =>
      setCount paddr count
      addHandle paddr
      pure ⟨paddr⟩
  else throw (.error .badAddress)

/-- `live_metadata`, and the count it finds. -/
def liveMetadata (paddr : Nat) : Prog arch ι Nat := do
  let s ← get
  if s.inDatabase paddr then
    if s.refCount paddr = 0 then throw (.error .badState) else pure (s.refCount paddr)
  else throw (.error .badAddress)

def pteIsUnique (paddr : Nat) : Prog arch ι Bool := do
  let count ← liveMetadata paddr
  pure (count == 1)

def validatePte (paddr : Nat) : Prog arch ι Unit := do
  let _ ← liveMetadata paddr
  pure ()

/-- The reference of a removed leaf becomes a handle again. -/
def takeFromPte (paddr : Nat) : Prog arch ι Frame := do
  validatePte paddr
  addHandle paddr
  pure ⟨paddr⟩

end Model

/-! ### Worlds -/

/-- What the proofs say of a state. `mapped` counts the leaves that own a frame, `frames` are
those of the database. -/
structure World (ι : Type) where
  ranges : ι → Nat × Nat
  view : ι → Nat → Option (Nat × Leaf)
  handles : Nat → Nat
  refs : Nat → Nat
  mapped : Nat → Nat
  bytes : Nat → FrameBytes
  frames : Nat → Bool
  allocs : Nat → Nat

/-- A leaf that owns a frame. -/
def owns (paddr : Nat) (leaf : Leaf) : Nat := if leaf.flags.allocFrame = true ∧ leaf.paddr = paddr then 1 else 0

section Worlds
variable {arch : Arch} {ι : Type}

/-- The leaves of all address spaces that own a frame. -/
def Memory.mapped [Fintype ι] (s : Memory arch ι) (paddr : Nat) : Nat :=
  ∑ i, PageTable.leaves (owns paddr) (s.spaces i).pageTable

structure Inv [Fintype ι] (w : World ι) (s : Memory arch ι) : Prop where
  ranges : ∀ i, ((s.spaces i).range.start, (s.spaces i).range.size) = w.ranges i
  view : ∀ i vaddr, vaddr < arch.span → (s.spaces i).pageTable.leafAt vaddr = w.view i vaddr
  handles : s.handles = w.handles
  refs : s.refCount = w.refs
  mapped : ∀ p, s.mapped p = w.mapped p
  bytes : s.bytes = w.bytes
  live : ∀ p, s.live p = true ↔ 0 < w.refs p
  frames : ∀ p, s.inDatabase p = w.frames p
  known : ∀ p, 0 < w.refs p → w.frames p = true
  history : ∀ p, s.allocs p = s.frees p + (s.live p).toNat
  allocs : ∀ p, w.frames p = true → s.allocs p = w.allocs p

namespace World

/-- Every reference has its owner. -/
def Balanced (w : World ι) : Prop := ∀ p, w.refs p = w.handles p + w.mapped p

def alloc (w : World ι) (p : Nat) : World ι :=
  {w with
    refs := update w.refs p 1
    handles := update w.handles p (w.handles p + 1)
    bytes := update w.bytes p fun _ => 0
    allocs := update w.allocs p (w.allocs p + 1)}

def drop (w : World ι) (p : Nat) : World ι :=
  {w with
    refs := update w.refs p (w.refs p - 1)
    handles := update w.handles p (w.handles p - 1)}

def clone (w : World ι) (p : Nat) : World ι :=
  {w with
    refs := update w.refs p (w.refs p + 1)
    handles := update w.handles p (w.handles p + 1)}

/-- A handle for the reference of a leaf. -/
def take (w : World ι) (p : Nat) : World ι := {w with handles := update w.handles p (w.handles p + 1)}

/-- A leaf for the reference of a handle. -/
def forget (w : World ι) (p : Nat) : World ι := {w with handles := update w.handles p (w.handles p - 1)}

end World

variable [Fintype ι] {w : World ι} {s : Memory arch ι} {E : XStop → Memory arch ι → Prop}

theorem Inv.of_eq {t : Memory arch ι} (h : Inv w s) (hsps : t.spaces = s.spaces) (hha : t.handles = s.handles)
    (hrf : t.refCount = s.refCount) (hby : t.bytes = s.bytes) (hlv : t.live = s.live)
    (hba : t.base = s.base) (hc : t.frameCount = s.frameCount) (hal : t.allocs = s.allocs)
    (hfr : t.frees = s.frees) : Inv w t where
  ranges := hsps ▸ h.ranges
  view := hsps ▸ h.view
  handles := hha.trans h.handles
  refs := hrf.trans h.refs
  mapped := by
    intro p
    rw [← h.mapped p]
    simp [Memory.mapped, hsps]
  bytes := hby.trans h.bytes
  live := hlv ▸ h.live
  frames := by
    intro p
    rw [← h.frames p]
    simp [Memory.inDatabase, hba, hc]
  known := h.known
  history := by
    rw [hal, hfr, hlv]
    exact h.history
  allocs := hal ▸ h.allocs

variable {p count : Nat} {f : Frame}

/-- A frame that is out has a reference, and is out in the allocator too. -/
theorem Inv.not_live (h : Inv w s) (hp : s.live p = false) : w.refs p = 0 := by
  by_contra hne
  have := (h.live p).mpr (Nat.pos_of_ne_zero hne)
  rw [hp] at this
  cases this

theorem Inv.inDatabase (h : Inv w s) (hp : 0 < w.refs p) : s.inDatabase p :=
  (h.frames p).trans (h.known p hp)

omit [Fintype ι] in
/-- The frames of the database are aligned. -/
theorem Memory.aligned_of_known (h : s.inDatabase p) : p % frameSize = 0 := by
  simp only [Memory.inDatabase, Bool.and_eq_true, decide_eq_true_eq, beq_iff_eq] at h
  have hba := s.aligned
  obtain ⟨⟨hle, hmod⟩, -⟩ := h
  unfold frameSize at hmod hba ⊢
  omega

theorem setCount_spec (p count : Nat) (hc : 0 < count) (hp : 0 < w.refs p) :
    Triple (Inv w) (setCount p count) (fun _ => Inv {w with refs := update w.refs p count}) E := by
  refine .modify fun s h => {h with refs := ?_, live := fun q => ?_, known := fun q hq => ?_}
  · rw [h.refs]
  · show s.live q ↔ 0 < update w.refs p count q
    by_cases hqp : q = p
    · subst hqp
      rw [update_self]
      exact ⟨fun _ => hc, fun _ => (h.live q).mpr hp⟩
    · rw [update_of_ne hqp]
      exact h.live q
  · refine h.known q ?_
    by_cases hqp : q = p
    · exact hqp ▸ hp
    · have hq : 0 < update w.refs p count q := hq
      rwa [update_of_ne hqp] at hq

theorem addHandle_spec (p : Nat) : Triple (Inv w) (addHandle p) (fun _ => Inv (w.take p)) E :=
  .modify fun s h => {h with handles := by simp [World.take, h.handles]}

theorem forgetHandle_spec (p : Nat) : Triple (Inv w) (forgetHandle p) (fun _ => Inv (w.forget p)) E :=
  .modify fun s h => {h with handles := by simp [World.forget, h.handles]}

/-- A page has just left the allocator. -/
def Taken (w : World ι) (p : Nat) (s : Memory arch ι) : Prop :=
  ∃ t, Inv w t ∧ t.live p = false ∧ s = {t with
    asked := t.asked + 1
    live := update t.live p true
    allocs := update t.allocs p (t.allocs p + 1)}

theorem allocPages_spec :
    Triple (Inv w) allocPages (fun r s => r.elim (Inv w s) fun p => Taken w p s) E := by
  refine .modifyGet fun s h => ?_
  cases hans : s.answers s.asked with
  | none => exact h.of_eq rfl rfl rfl rfl rfl rfl rfl rfl rfl
  | some p =>
    cases hlv : s.live p with
    | true =>
      simp only [hlv]
      exact h.of_eq rfl rfl rfl rfl rfl rfl rfl rfl rfl
    | false =>
      simp only [hlv]
      exact ⟨s, h, hlv, rfl⟩

/-- The page goes back unused. -/
theorem deallocPages_taken (hp : w.frames p = false) :
    Triple (Taken w p) (deallocPages p) (fun _ => Inv w) E := by
  refine .bind .get fun t => ?_
  cases hlv : t.live p with
  | true =>
    refine .modify fun s h => ?_
    obtain ⟨-, u, hu, hfr, rfl⟩ := h
    refine {hu with live := fun q => ?_, history := fun q => ?_, allocs := fun q hq => ?_}
    · rw [update_idem, ← hfr, update_eq_self]
      exact hu.live q
    · have hold := hu.history q
      by_cases hqp : q = p
      · subst hqp
        simp only [update_self, Bool.toNat_false]
        rw [hfr] at hold
        simp only [Bool.toNat_false] at hold
        omega
      · simp only [update_of_ne hqp]
        exact hold
    · have hqp : q ≠ p := by
        rintro rfl
        exact absurd hq (by rw [hp]; exact Bool.false_ne_true)
      show update u.allocs p (u.allocs p + 1) q = _
      rw [update_of_ne hqp]
      exact hu.allocs q hq
  | false =>
    refine .throw fun s h => ?_
    obtain ⟨rfl, u, hu, hfr, rfl⟩ := h
    simp at hlv

open FrameMeta (claim put tryGet)

/-- A new frame has one reference, one handle and no bytes but zeros. -/
theorem allocateZeroed_spec : Triple (Inv w) allocateZeroed
      (fun r s => r.elim (Inv w s) fun f => Inv (w.alloc f.paddr) s ∧ w.refs f.paddr = 0 ∧
        f.paddr % frameSize = 0) E := by
  refine allocPages_spec.bind fun r => ?_
  cases r with
  | none => exact .pure fun s h => h
  | some p =>
    refine .bind .get fun t => ?_
    split_ifs with hkn
    · cases hcm : claim (t.refCount p) with
      | none =>
        refine .throw fun s h => ?_
        obtain ⟨rfl, u, hu, hfr, rfl⟩ := h
        have hrf : u.refCount p = 0 := by
          rw [hu.refs]
          exact hu.not_live hfr
        simp [claim, hrf] at hcm
      | some count =>
        have hc : count = 1 := by
          unfold claim at hcm
          split at hcm
          · exact (Option.some.inj hcm).symm
          · exact nomatch hcm
        subst hc
        refine .bind (.modify fun s h => ?_) fun _ => .pure fun s h => h
        obtain ⟨rfl, u, hu, hfr, rfl⟩ := h
        refine ⟨?_, hu.not_live hfr, Memory.aligned_of_known hkn⟩
        have hf : w.frames p := (hu.frames p).symm.trans hkn
        refine {hu with
          handles := by simp [World.alloc, hu.handles]
          refs := by simp [World.alloc, hu.refs]
          bytes := by simp [World.alloc, hu.bytes]
          live := fun q => ?_
          known := fun q hq => ?_
          history := fun q => ?_
          allocs := fun q hq => ?_}
        · show update u.live p true q ↔ 0 < update w.refs p 1 q
          by_cases hqp : q = p
          · simp [hqp]
          · rw [update_of_ne hqp, update_of_ne hqp]
            exact hu.live q
        · by_cases hqp : q = p
          · rw [hqp]
            exact hf
          · have hq : 0 < update w.refs p 1 q := hq
            rw [update_of_ne hqp] at hq
            exact hu.known q hq
        · show update u.allocs p (u.allocs p + 1) q = u.frees q + (update u.live p true q).toNat
          have hold := hu.history q
          by_cases hqp : q = p
          · subst hqp
            rw [hfr] at hold
            simp [hold]
          · rw [update_of_ne hqp, update_of_ne hqp]
            exact hold
        · show update u.allocs p (u.allocs p + 1) q = update w.allocs p (w.allocs p + 1) q
          by_cases hqp : q = p
          · subst hqp
            rw [update_self, update_self, hu.allocs q hq]
          · rw [update_of_ne hqp, update_of_ne hqp]
            exact hu.allocs q hq
    · refine .start fun s h => ?_
      obtain ⟨rfl, htk⟩ := h
      have hf : w.frames p = false := by
        obtain ⟨u, hu, -, rfl⟩ := htk
        rw [← hu.frames p]
        exact Bool.not_eq_true _ ▸ hkn
      exact .resume ((deallocPages_taken hf).bind fun _ => .pure fun _ h => h) htk

/-- One reference less; the last one gives the frame back. -/
theorem releaseReference_spec (hp : 0 < w.refs p) : Triple (Inv w) (releaseReference p)
      (fun _ => Inv {w with refs := update w.refs p (w.refs p - 1)}) E := by
  refine .start fun s h => .get_bind ?_
  have hput : put (s.refCount p) = some (w.refs p - 1, w.refs p == 1) := by
    rw [h.refs]
    exact if_neg (Nat.pos_iff_ne_zero.mp hp)
  rw [if_pos (h.inDatabase hp), hput]
  refine .modify_bind ?_
  by_cases hla : w.refs p = 1
  · rw [if_pos (beq_iff_eq.mpr hla)]
    refine .get_bind ?_
    rw [if_pos ((h.live p).mpr hp)]
    refine .modify fun t ht => ?_
    subst ht
    refine {h with refs := ?_, live := fun q => ?_, known := fun q hq => ?_, history := fun q => ?_}
    · rw [h.refs]
    · show update s.live p false q ↔ 0 < update w.refs p (w.refs p - 1) q
      by_cases hqp : q = p
      · simp [hqp, hla]
      · rw [update_of_ne hqp, update_of_ne hqp]
        exact h.live q
    · refine h.known q ?_
      by_cases hqp : q = p
      · exact hqp ▸ hp
      · have hq : 0 < update w.refs p (w.refs p - 1) q := hq
        rwa [update_of_ne hqp] at hq
    · show s.allocs q = update s.frees p (s.frees p + 1) q + (update s.live p false q).toNat
      have hold := h.history q
      by_cases hqp : q = p
      · subst hqp
        rw [(h.live q).mpr hp] at hold
        simp [hold]
      · rw [update_of_ne hqp, update_of_ne hqp]
        exact hold
  · rw [if_neg (mt beq_iff_eq.mp hla)]
    refine .pure fun t ht => ?_
    subst ht
    exact setCount_spec (E := E) p (w.refs p - 1) (by omega) hp s h

theorem dropFrame_spec (hp : 0 < w.refs f.paddr) :
    Triple (Inv w) (dropFrame f) (fun _ => Inv (w.drop f.paddr)) E :=
  (forgetHandle_spec f.paddr).bind fun _ => releaseReference_spec hp

theorem tryGet_of_pos (hp : 0 < count) (hro : count ≠ 2 ^ 32 - 1) :
    tryGet count = some (count + 1) :=
  if_pos ⟨Nat.pos_iff_ne_zero.mp hp, hro⟩

theorem tryGet_of_full (hfu : count = 2 ^ 32 - 1) : tryGet count = none :=
  if_neg fun hbo => hbo.2 hfu

theorem cloneFrame_spec (hp : 0 < w.refs f.paddr)
    (hE : ∀ s, Inv w s → w.refs f.paddr = 2 ^ 32 - 1 → E .panic s) :
    Triple (Inv w) (cloneFrame f) (fun r s => r = f ∧ Inv (w.clone f.paddr) s) E := by
  refine .start fun s h => .get_bind ?_
  rw [if_pos (h.inDatabase hp), h.refs]
  by_cases hfu : w.refs f.paddr = 2 ^ 32 - 1
  · rw [tryGet_of_full hfu]
    exact .throw fun t ht => ht ▸ hE s h hfu
  · rw [tryGet_of_pos hp hfu]
    refine .resume ?_ h
    refine (setCount_spec _ _ (Nat.succ_pos _) hp).bind fun _ => (addHandle_spec _).bind fun _ => ?_
    exact .pure fun t ht => ⟨rfl, ht⟩

/-- As `cloneFrame_spec`, but a full count is an error. -/
theorem cloneFromPte_spec (hp : 0 < w.refs p) (hE : ∀ s, Inv w s → E (.error .badState) s) :
    Triple (Inv w) (cloneFromPte p) (fun r s => r = ⟨p⟩ ∧ Inv (w.clone p) s) E := by
  refine .start fun s h => .get_bind ?_
  rw [if_pos (h.inDatabase hp), h.refs]
  by_cases hfu : w.refs p = 2 ^ 32 - 1
  · rw [tryGet_of_full hfu]
    exact .throw fun t ht => ht ▸ hE s h
  · rw [tryGet_of_pos hp hfu]
    refine .resume ?_ h
    refine (setCount_spec _ _ (Nat.succ_pos _) hp).bind fun _ => (addHandle_spec _).bind fun _ => ?_
    exact .pure fun t ht => ⟨rfl, ht⟩

/-- A copy is a frame of its own. -/
theorem deepCopy_spec (f : Frame) : Triple (Inv w) (deepCopy f)
      (fun r s => r.elim (Inv w s) fun copy => w.refs copy.paddr = 0 ∧ copy.paddr % frameSize = 0 ∧
        Inv {w.alloc copy.paddr with
          bytes := update w.bytes copy.paddr ((w.alloc copy.paddr).bytes f.paddr)} s) E := by
  refine allocateZeroed_spec.bind fun r => ?_
  cases r with
  | none => exact .pure fun s h => h
  | some copy =>
    refine .bind (Q := fun _ s => w.refs copy.paddr = 0 ∧ copy.paddr % frameSize = 0 ∧
      Inv {w.alloc copy.paddr with
        bytes := update w.bytes copy.paddr ((w.alloc copy.paddr).bytes f.paddr)} s)
      (.modify fun s h => ?_) fun _ => .pure fun s h => h
    obtain ⟨hinv, hfr, hal⟩ := h
    refine ⟨hfr, hal, {hinv with bytes := ?_}⟩
    rw [hinv.bytes]
    exact update_idem _ _ _

theorem intoPte_spec (f : Frame) : Triple (Inv w) (intoPte f) (fun _ => Inv (w.forget f.paddr)) E :=
  (forgetHandle_spec f.paddr).bind fun _ => .skip

theorem liveMetadata_spec (hE : ∀ code s, Inv w s → w.refs p = 0 → E (.error code) s) :
    Triple (Inv w) (liveMetadata p) (fun r s => r = w.refs p ∧ 0 < w.refs p ∧ Inv w s) E := by
  refine .start fun s h => .get_bind ?_
  rw [h.refs]
  split
  · split_ifs with hz
    · exact .throw fun t ht => ht ▸ hE _ s h hz
    · exact .pure fun t ht => ⟨rfl, Nat.pos_of_ne_zero hz, ht ▸ h⟩
  next hun =>
    refine .throw fun t ht => ht ▸ hE _ s h ?_
    by_contra hpos
    exact hun (h.inDatabase (Nat.pos_of_ne_zero hpos))

theorem takeFromPte_spec (hp : 0 < w.refs p) :
    Triple (Inv w) (takeFromPte p) (fun r s => r = ⟨p⟩ ∧ Inv (w.take p) s) E := by
  have hlv : Triple (Inv w) (liveMetadata p) (fun r s => r = w.refs p ∧ 0 < w.refs p ∧ Inv w s) E :=
    liveMetadata_spec fun _ _ _ hz => absurd hz (Nat.pos_iff_ne_zero.mp hp)
  refine .bind (hlv.bind fun _ => .pure (Q := fun _ => Inv w) fun _ h => h.2.2) fun _ => ?_
  exact (addHandle_spec p).bind fun _ => .pure fun _ h => ⟨rfl, h⟩

end Worlds

end StarryX.Mm
