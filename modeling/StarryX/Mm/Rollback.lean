import StarryX.Mm.Ownership
import StarryX.Mm.Protection

/-! Calls on one transaction, some of which fail.

Ranges may overlap. Each call that succeeds notes the flags that it found, so undoing the notes from the last to the first
goes back through the tables that the calls started from. `transaction_exact` says what is left when the transaction is
dropped or committed. -/
namespace StarryX.Mm
open Library
open ProtectionTransaction (restore)

inductive ProtectCall where
  | allocRange (start size : Nat) (flags : MappingFlags)
  | allocRangeWith (start size : Nat) (flags : Bool → MappingFlags)
  | staticRange (start : Nat) (frames : StaticFrameRange) (flags : MappingFlags) (pageSize : PageSize)

namespace ProtectCall

def start : ProtectCall → Nat
  | allocRange start .. | allocRangeWith start .. | staticRange start .. => start

def stop : ProtectCall → Nat
  | allocRange start size _ | allocRangeWith start size _ => start + size
  | staticRange start frames .. => start + frames.size

def kind : ProtectCall → FrameKind
  | staticRange .. => .static
  | _ => .alloc

/-- The flags for a frame, by whether it has one owner. -/
def flags : ProtectCall → Bool → MappingFlags
  | allocRange _ _ flags, _ | staticRange _ _ flags _, _ => flags
  | allocRangeWith _ _ flags, exclusive => flags exclusive

/-- What a call makes of a leaf. -/
def paint (arch : Arch) (refs : Nat → Nat) (v : Nat) (leaf : Leaf) (call : ProtectCall) : Leaf :=
  if call.start ≤ v ∧ v < call.stop then
    match pteFlags arch call.kind (call.flags (refs leaf.paddr == 1)) with
    | .ok new => {leaf with flags := arch.stored new}
    | .error _ => leaf
  else leaf

variable {arch : Arch} {ι : Type} [DecidableEq ι]

def perform (i : ι) : ProtectCall → Prog arch ι (List ProtectionChange)
  | allocRange start size flags => ProtectionTransaction.protectAllocRange i start size flags
  | allocRangeWith start size flags => ProtectionTransaction.protectAllocRangeWith i start size flags
  | staticRange start frames flags pageSize => ProtectionTransaction.protectStaticRange i start frames flags pageSize

end ProtectCall

namespace ProtectionTransaction
variable {arch : Arch} {ι : Type} [DecidableEq ι]

/-- The calls that succeed, with their notes. -/
def perform (i : ι) : List ProtectCall → Prog arch ι (List (ProtectCall × List ProtectionChange))
  | [] => pure []
  | call :: rest => do
    match ← attempt (call.perform i) with
    | .ok changes => do
      let later ← perform i rest
      pure ((call, changes) :: later)
    | .error (.error _) => perform i rest
    | .error .panic => throw .panic

def drop (i : ι) (committed : Bool) (changes : List ProtectionChange) : Prog arch ι Unit :=
  if committed then pure () else changes.reverse.forM (restore i)

end ProtectionTransaction

section Transactions
variable {arch : Arch} {ι : Type} [Fintype ι] [DecidableEq ι] {w : World ι} {s : Memory arch ι} {i : ι}

theorem ProtectCall.works (h : Inv w s) (hbal : w.Balanced) (hstd : w.Stored arch i) (call : ProtectCall) :
    (⟨call.start, call.stop, call.kind, fun phys given => given = call.flags (w.refs phys == 1), call.perform i⟩ :
      Part arch ι).Works w i :=
  match call with
  | allocRange _ _ flags => protectAllocRange_works h hbal hstd flags
  | allocRangeWith _ _ flags => protectAllocRangeWith_works h hbal hstd flags
  | staticRange _ frames flags _ => protectStaticRange_works h hbal hstd frames flags

/-- The notes of a call, undone in any order. -/
theorem Repainted.undo {start stop : Nat} {kind : FrameKind} {allowed : Nat → MappingFlags → Prop}
    {hue : Nat → Option MappingFlags} {cs : List ProtectionChange}
    (h : Repainted arch w i start stop kind allowed (fun _ => none) hue cs) :
    Triple (Inv (w.tint i hue)) (cs.reverse.forM (restore i) : Prog arch ι Unit) (fun _ => Inv w)
      fun _ _ => False := by
  refine restore_spec _ (fun c hc => h.noted c (List.mem_reverse.mp hc)) h.tintable fun v hv => ?_
  obtain ⟨c, hc, hcov⟩ := h.accounted v hv
  exact ⟨c, List.mem_reverse.mpr hc, hcov⟩

theorem perform_exact (calls : List ProtectCall) : ∀ w : World ι, w.Balanced → w.Stored arch i →
    Triple (Inv w) (ProtectionTransaction.perform i calls : Prog arch ι _)
      (fun done t => ∃ w', Inv w' t ∧ (∀ v, w'.view i v = (w.view i v).map fun found =>
          (found.1, (done.map Prod.fst).foldl (ProtectCall.paint arch w.refs v) found.2)) ∧
        Triple (Inv w') ((done.flatMap Prod.snd).reverse.forM (restore i) : Prog arch ι Unit)
          (fun _ => Inv w) fun _ _ => False)
      fun _ _ => False := by
  induction calls with
  | nil => exact fun w _ _ => .pure fun s hs => ⟨w, hs, fun v => by simp, .skip⟩
  | cons call rest ih =>
    intro w hbal hstd
    refine .start fun s h => ?_
    have hwk := call.works h hbal hstd (fun _ => none) (fun _ _ _ _ h => nomatch h) fun _ _ _ => rfl
    rw [World.tint_none] at hwk
    refine .bind (hwk.resume h).attempt fun r => ?_
    match r with
    | .error .panic => exact fun t ht => absurd rfl ht.1
    | .error (.error e) => exact (ih w hbal hstd).pre fun t ht => ht.2
    | .ok cs =>
      refine .start fun t ⟨hue, ht, hre⟩ => ?_
      have hpt : ∀ v, (w.tint i hue).view i v =
          (w.view i v).map fun found => (found.1, call.paint arch w.refs v found.2) := by
        intro v
        rw [World.tint_view]
        cases hl : w.view i v with
        | none => rfl
        | some found =>
          unfold ProtectCall.paint
          dsimp only [Option.map_some]
          split_ifs with hin
          · obtain ⟨flags, new, rfl, hpte, hhue⟩ := hre.inside v _ _ hin.1 hin.2 hl
            rw [hhue, hpte]
            rfl
          · rw [hre.outside v hin]
            rfl
      have hstd' : (w.tint i hue).Stored arch i := by
        intro v lvl l hl
        rw [hpt] at hl
        obtain ⟨found, hf, heq⟩ := Option.map_eq_some_iff.mp hl
        cases heq
        unfold ProtectCall.paint
        split
        · split
          · exact stored_stored arch _
          · exact hstd v _ _ hf
        · exact hstd v _ _ hf
      refine .resume (.bind (ih (w.tint i hue) hbal hstd') fun later => .pure fun u ⟨w', hu, hv, hun⟩ => ?_) ht
      refine ⟨w', hu, fun v => ?_, ?_⟩
      · rw [hv, hpt, Option.map_map]
        rfl
      · rw [List.flatMap_cons, List.reverse_append, List.forM_eq_forM, List.forM_append]
        exact hun.bind fun _ => hre.undo

/-- **Dropping a transaction takes every leaf back to the flags it had, and committing it leaves each with the flags of
the last call that changed it**, whatever calls are made and whichever of them fail. -/
theorem transaction_exact (h : Inv w s) (hbal : w.Balanced) (hstd : w.Stored arch i) (calls : List ProtectCall) :
    ∃ done t u, ProtectionTransaction.perform i calls s = .ok done t ∧
      ProtectionTransaction.drop i false (done.flatMap Prod.snd) t = .ok () u ∧
      (∀ v, (u.spaces i).pageTable.leafAt v = (s.spaces i).pageTable.leafAt v) ∧
      ProtectionTransaction.drop i true (done.flatMap Prod.snd) t = .ok () t ∧
      ∀ v, v < arch.span → (t.spaces i).pageTable.leafAt v = ((s.spaces i).pageTable.leafAt v).map fun found =>
        (found.1, (done.map Prod.fst).foldl (ProtectCall.paint arch s.refCount v) found.2) := by
  have hrun := perform_exact calls w hbal hstd s h
  cases hp : (ProtectionTransaction.perform i calls : Prog arch ι _) s with
  | error e t =>
    rw [hp] at hrun
    exact hrun.elim
  | ok done t =>
    rw [hp] at hrun
    obtain ⟨w', ht, hv, hun⟩ := hrun
    have hdr := hun t ht
    cases hd : (((done.flatMap Prod.snd).reverse.forM (restore i)) : Prog arch ι Unit) t with
    | error e u =>
      rw [hd] at hdr
      exact hdr.elim
    | ok _ u =>
      rw [hd] at hdr
      refine ⟨done, t, u, rfl, hd, fun v => ?_, rfl, fun v hlt => ?_⟩
      · have hlt : v % arch.span < arch.span := Nat.mod_lt _ (Nat.pow_pos (by decide))
        rw [← PageTable.leafAt_mod, hdr.view i _ hlt, ← h.view i _ hlt, PageTable.leafAt_mod]
      · rw [ht.view i v hlt, hv, h.view i v hlt, h.refs]

/-- The memory can begin a transaction. -/
def Begins (i : ι) (held : List Frame) (s : Memory arch ι) : Prop := ∃ w, Inv w s ∧ w.Owned held ∧ w.Stored arch i

variable {held : List Frame} {f : Frame} {E : XStop → Memory arch ι → Prop}

omit [DecidableEq ι] in
theorem allocateZeroed_begins :
    Triple (Begins i held) (allocateZeroed : Prog arch ι _) (fun r s => ∀ f, r = some f → Begins i (f :: held) s) E := by
  refine .start fun s ⟨w, h, ho, hstd⟩ => .resume (allocateZeroed_spec.post fun r t hr f hf => ?_) h
  subst hf
  exact ⟨_, hr.1, (ho.alloc hr.2.1).1, hstd⟩

omit [DecidableEq ι] in
theorem cloneFrame_begins (hE : ∀ e s, E e s) : Triple (Begins i (f :: held)) (cloneFrame f : Prog arch ι _)
    (fun r s => r = f ∧ Begins i (f :: f :: held) s) E := by
  refine .start fun s ⟨w, h, ho, hstd⟩ => ?_
  have hp := ho.refs_pos (k := 0) rfl
  refine .resume ((cloneFrame_spec hp fun s _ _ => hE _ s).post fun r t hr => ⟨hr.1, _, hr.2, ?_, hstd⟩) h
  have hlive : ∀ g ∈ [f], 0 < w.refs g.paddr := by simpa using hp
  show ((w.hold []).clone f.paddr).Owned _
  rw [w.hold_clone]
  exact (ho.hold hlive).1

theorem mapFrame_begins (hE : ∀ e s, E e s) {addr : Nat} {flags : MappingFlags} : Triple (Begins i (f :: held))
    (mapFrame i addr f flags : Prog arch ι _) (fun _ => Begins i held) E := by
  refine .start fun s ⟨w, h, ho, hstd⟩ => ?_
  refine .resume ((mapFrame_spec (ho.refs_pos (k := 0) rfl) fun _ s _ => hE _ s).post ?_) h
  rintro _ u ⟨leafFlags, hpte, -, hno, hu⟩
  refine ⟨_, hu, (ho.map (k := 0) rfl hno (fromFlags_alloc.mp (pteFlags_kind hpte))).1, fun v level leaf hv => ?_⟩
  simp only [World.forget, World.setLeaf, Function.update_self] at hv
  split at hv
  · cases hv
    exact stored_stored arch _
  · exact hstd v level leaf hv

end Transactions

/-- A page of its own, and two of one frame. -/
def mapPages : Prog sv39 Unit Unit := do
  match ← allocateZeroed with
  | none => throw .panic
  | some single => do
    mapFrame () 0x1000 single readWrite
    match ← allocateZeroed with
    | none => throw .panic
    | some shared => do
      let copy ← cloneFrame shared
      mapFrame () 0x2000 shared readWrite
      mapFrame () 0x3000 copy readWrite

theorem mapPages_begins : Triple (Begins () []) mapPages (fun _ => Begins () []) fun _ _ => True := by
  have hE : ∀ (e : XStop) (s : Memory sv39 Unit), True := fun _ _ => trivial
  refine .bind allocateZeroed_begins fun r => ?_
  cases r with
  | none => exact .throw fun _ _ => trivial
  | some single =>
    refine .bind ((mapFrame_begins hE).pre fun s hs => hs single rfl) fun _ => .bind allocateZeroed_begins fun r => ?_
    cases r with
    | none => exact .throw fun _ _ => trivial
    | some shared =>
      refine .bind ((cloneFrame_begins hE).pre fun s hs => hs shared rfl) fun copy => .start fun s ⟨hcopy, hs⟩ => ?_
      subst hcopy
      exact .resume (.bind (mapFrame_begins hE) fun _ => mapFrame_begins hE) hs

def readOnly : MappingFlags := {readWrite with write := false}

/-- All three pages become read-only, and the first two inaccessible. The last call fails at the second page, whose frame is
shared: it is to be written only. -/
def overlapping : List ProtectCall :=
  [.allocRange 0x1000 0x3000 readOnly, .allocRange 0x1000 0x2000 {readOnly with read := false},
    .allocRangeWith 0x1000 0x3000 fun exclusive => if exclusive then readWrite else {readWrite with read := false}]

def mayRead (s : Memory sv39 Unit) (vaddr : Nat) : Option Bool := ((s.spaces ()).pageTable.leafAt vaddr).map (·.2.flags.read)

theorem transaction_exact_overlapping : ∃ s done t u, mapPages smallMemory.fresh = .ok () s ∧
    ProtectionTransaction.perform () overlapping s = .ok done t ∧ done.map (fun d => d.2.length) = [3, 2] ∧
    [0x1000, 0x2000, 0x3000].map (mayRead t) = [some false, some false, some true] ∧
    ProtectionTransaction.drop () false (done.flatMap Prod.snd) t = .ok () u ∧
    ∀ v, (u.spaces ()).pageTable.leafAt v = (s.spaces ()).pageTable.leafAt v := by
  have hruns : (match mapPages smallMemory.fresh with
      | .ok _ s => match ProtectionTransaction.perform () overlapping s with
        | .ok done t => decide (done.map (fun d => d.2.length) = [3, 2] ∧
          [0x1000, 0x2000, 0x3000].map (mayRead t) = [some false, some false, some true])
        | .error .. => false
      | .error .. => false) = true := by decide +kernel
  have hbegin : Begins () [] smallMemory.fresh := ⟨_, smallMemory.fresh_inv, ⟨fun _ => rfl, fun _ => rfl⟩, nofun⟩
  cases hs : mapPages smallMemory.fresh with
  | error => simp [hs] at hruns
  | ok _ s =>
    obtain ⟨w, h, ho, hstd⟩ := mapPages_begins.ok hbegin hs
    obtain ⟨done, t, u, hp, hd, hu, -⟩ := transaction_exact h ho.balanced hstd overlapping
    simp only [hs, hp, decide_eq_true_eq] at hruns
    exact ⟨s, done, t, u, rfl, hp, hruns.1, hruns.2, hd, hu⟩

end StarryX.Mm
