import StarryX.Vma.Changes

/-! Forking, making and dropping spaces.

The child of a fork gets the leaves of its parent first: from then on the parent's private pages are
shared, while its leaves may still be written, until one transaction takes that flag from all of
them. `Copied` says what holds in between. Where the fork fails, the child's leaves go, and with
them every reference that was made for it. -/
namespace StarryX.Vma
open Library Mm Function
open VirtAddrRange (contains_iff)
open MappingFlags (access contains withoutWrite)
open VmArea (installAll kind locate mapChild)

section Forking
variable {arch : Arch} {ι : Type} [Fintype ι] [DecidableEq ι] {w w' w'' : World ι} {base held : List Frame}
  {k : Kernel arch ι} {m : Memory arch ι} {i j : ι} {sps : ι → Option (VmSpace arch)} {areas : List VmArea}
  {area : VmArea} {bounds : VirtAddrRange}

/-! ### The leaves of a child -/

/-- A leaf of the child: it has no more than its area allows, and than the parent's leaf has. -/
structure Inherits (arch : Arch) (w : World ι) (i : ι) (area : VmArea) (a level : Nat) (leaf : Leaf) : Prop where
  stored : arch.stored leaf.flags = leaf.flags
  level : level = area.pageSize.level
  kind : FrameKind.fromFlags leaf.flags = area.kind
  static : (area.locate a).origin.isStatic = true → Foreign w.frames leaf.paddr area.pageSize.bytes
  flags : area.flags.contains (MappingFlags.access leaf.flags) = true
  shared : area.backing.isPrivate = true → leaf.flags.write = false
  tracked : area.kind = .alloc → leaf.flags.write = true →
    ∃ level' old, w.view i a = some (level', old) ∧ old.flags.write = true

/-- While the child is made. `w` is the state before. -/
structure Copied (arch : Arch) (w w' : World ι) (i j : ι) (areas : List VmArea) : Prop where
  ranges : w'.ranges = w.ranges
  frames : w'.frames = w.frames
  other : ∀ l a, l ≠ j → w'.view l a = w.view l a
  child : ∀ a level leaf, w'.view j a = some (level, leaf) →
    ∃ area ∈ areas, area.range.contains a = true ∧ Inherits arch w i area a level leaf
  refs : ∀ p, (∀ a level leaf, w.view i a = some (level, leaf) → leaf.flags.allocFrame = true → leaf.paddr ≠ p) →
    w'.refs p = w.refs p

/-- `frames` are the handles that the fork still has. -/
def Copying (w : World ι) (i j : ι) (areas : List VmArea) (base frames : List Frame) (m : Memory arch ι) : Prop :=
  ∃ w', Copied arch w w' i j areas ∧ w'.Owned (frames ++ base) ∧ Inv w' m

omit [Fintype ι] [DecidableEq ι] in
theorem copied_nothing (hfr : ∀ a, w.view j a = none) (areas : List VmArea) : Copied arch w w i j areas :=
  ⟨rfl, rfl, fun _ _ _ => rfl, fun a _ _ hlf => (nomatch (hfr a).symm.trans hlf), fun _ _ => rfl⟩

omit [Fintype ι] [DecidableEq ι] in
/-- References of the parent's frames come and go. -/
theorem Copied.rerefer (h : Copied arch w w' i j areas) (hrs : w''.ranges = w'.ranges) (hfs : w''.frames = w'.frames)
    (hv : w''.view = w'.view)
    (hrf : ∀ p, (∀ a lvl l, w.view i a = some (lvl, l) → l.flags.allocFrame → l.paddr ≠ p) →
      w''.refs p = w'.refs p) : Copied arch w w'' i j areas where
  ranges := hrs.trans h.ranges
  frames := hfs.trans h.frames
  other := by rw [hv]; exact h.other
  child := by rw [hv]; exact h.child
  refs := fun p hp => (hrf p hp).trans (h.refs p hp)

/-- A frame of one of the parent's leaves. -/
def OfParent (w : World ι) (i : ι) (frame : Frame) : Prop :=
  ∃ a level leaf, w.view i a = some (level, leaf) ∧ leaf.flags.allocFrame = true ∧ leaf.paddr = frame.paddr

omit [Fintype ι] [DecidableEq ι] in
theorem OfParent.ne {f : Frame} (h : OfParent w i f) {p : Nat}
    (hp : ∀ a lvl l, w.view i a = some (lvl, l) → l.flags.allocFrame → l.paddr ≠ p) :
    p ≠ f.paddr := by
  obtain ⟨a, lvl, l, hlf, hal, hpa⟩ := h
  exact fun heq => hp a lvl l hlf hal (hpa.trans heq.symm)

variable {E : XStop → Memory arch ι → Prop}

omit [DecidableEq ι] in
theorem dropFrames_copying (fs : List Frame) (hfs : ∀ f ∈ fs, OfParent w i f) :
    Triple (Copying w i j areas base fs) (dropFrames fs)
      (fun _ => Copying w i j areas base []) E := by
  induction fs with
  | nil => exact .skip
  | cons f rest ih =>
    refine .bind ?_ fun _ =>
      ih fun o hoth => hfs o (.tail _ hoth)
    refine .start fun s ⟨w', hc, ho, hs⟩ => .resume ?_ hs
    refine (dropFrame_spec (ho.refs_pos (k := 0) rfl)).post fun _ m hm => ?_
    refine ⟨w'.drop f.paddr, hc.rerefer rfl rfl rfl fun p hp => ?_, ho.drop_head, hm⟩
    exact update_of_ne ((hfs f (.head _)).ne hp) ..

/-- What `mapped_frames` names in an area. -/
structure Snapped (w : World ι) (i : ι) (area : VmArea) (mapped : Nat × Frame × MappingFlags) : Prop where
  aligned : mapped.1 % frameSize = 0
  above : area.range.start ≤ mapped.1
  below : mapped.1 + frameSize ≤ area.range.stop
  leaf : ∃ leaf, w.view i mapped.1 = some (0, leaf) ∧ leaf.flags.allocFrame = true ∧
    mapped.2 = (⟨leaf.paddr⟩, {leaf.flags with allocFrame := false, protNone := false})

variable {mapped : Nat × Frame × MappingFlags} {sp : VmSpace arch} {s : Memory arch ι} {r : UserRange arch}

omit [Fintype ι] [DecidableEq ι] in
theorem Snapped.ofParent (h : Snapped w i area mapped) : OfParent w i mapped.2.1 := by
  obtain ⟨l, hlf, hal, heq⟩ := h.leaf
  exact ⟨mapped.1, 0, l, hlf, hal, by rw [heq]⟩

/-- One page of the child. -/
theorem Copied.page (hw : Inv w s) (hc : Copied arch w w' i j areas) (har : area ∈ areas)
    (hz : area.pageSize = .size4K) (hki : area.kind = .alloc) (hspa : area.range.stop ≤ arch.span)
    (hsrc : ∀ a, (area.locate a).origin.isStatic = false)
    (haw : ∀ a lvl leaf, area.range.contains a → w.view i a = some (lvl, leaf) →
      area.flags.contains (access leaf.flags)) (hsn : Snapped w i area mapped)
    {leafFlags : MappingFlags}
    (hgv : pteFlags arch .alloc (if area.backing.isPrivate then withoutWrite mapped.2.2 else mapped.2.2) =
      .ok leafFlags) :
    Copied arch w ((w'.setLeaf j mapped.1 .size4K (some ⟨mapped.2.1.paddr, arch.stored leafFlags⟩)).forget
      mapped.2.1.paddr) i j areas := by
  obtain ⟨leaf, hlf, hal, heq⟩ := hsn.leaf
  obtain ⟨hacc, hwr⟩ := pteFlags_access hgv
  have hf : mapped.2.2 = {leaf.flags with allocFrame := false, protNone := false} := by rw [heq]
  refine ⟨hc.ranges, hc.frames, fun l a hl => ?_, fun a lvl new hnew => ?_, hc.refs⟩
  · rw [← hc.other l a hl]
    show update w'.view j _ l a = _
    rw [update_of_ne hl]
  · obtain hold | ⟨-, hpa, rfl, rfl⟩ := onlyPage_setLeaf w' j mapped.1 _ j a lvl new hnew
    · exact hc.child a lvl new hold
    · have hin := (samePage4K_iff hsn.aligned).mp hpa
      have hab := hsn.above
      have hlo := hsn.below
      have hco : area.range.contains a := contains_iff.mpr (by omega)
      have hh : w.view i a = some (0, leaf) := hw.coherent (by omega) (by omega) hlf hpa
      have hgr : area.flags.contains (access
          (if area.backing.isPrivate then withoutWrite mapped.2.2 else mapped.2.2)) := by
        refine contains_trans (haw a 0 leaf hco hh) ?_
        rw [hf]
        split
        · simp [contains, access, withoutWrite]
        · simp [contains, access]
      refine ⟨area, har, hco, stored_stored arch leafFlags, congrArg PageSize.level hz.symm, ?_,
        fun hst => absurd hst (ne_true_of_eq_false (hsrc a)), contains_trans hgr hacc, fun hpv => ?_,
        fun _ hbit => ⟨0, leaf, hh, ?_⟩⟩
      · rw [hki]
        exact pteFlags_kind hgv
      · rw [if_pos hpv] at hwr
        cases hbit : (arch.stored leafFlags).write with
        | false => rfl
        | true => exact absurd (hwr hbit) Bool.false_ne_true
      · have hbit := hwr hbit
        rw [hf] at hbit
        split at hbit
        · exact absurd hbit Bool.false_ne_true
        · exact hbit

/-- What is needed of an area to copy its leaves. -/
structure Copyable (arch : Arch) (w : World ι) (i : ι) (areas : List VmArea) (area : VmArea) : Prop where
  mem : area ∈ areas
  backed : area.Backed w.frames
  startAligned : area.range.start % area.pageSize.bytes = 0
  stopAligned : area.range.stop % area.pageSize.bytes = 0
  low : area.range.stop ≤ arch.span / 2
  allowed : ∀ a level leaf, area.range.contains a = true → w.view i a = some (level, leaf) →
    area.flags.contains (MappingFlags.access leaf.flags) = true

section Children
variable {s : Memory arch ι} (hw : Inv w s) (hij : i ≠ j) (har : Copyable arch w i areas area)
include hw har

theorem installAll_copying (hki : area.kind = .alloc) (mapped : List (Nat × Frame × MappingFlags))
    (hmp : ∀ each ∈ mapped, Snapped w i area each) :
    Triple (Copying w i j areas base (mapped.map fun each => each.2.1))
      (installAll j area.backing.isPrivate mapped : Prog arch ι Unit) (fun _ => Copying w i j areas base [])
      (fun e m => e ≠ .panic ∧ Copying w i j areas base [] m) := by
  have hsrc : ∀ a, (area.locate a).origin.isStatic = false := by
    intro a
    unfold kind at hki
    unfold locate Source.at
    cases hb : area.backing.source with
    | static range =>
      rw [hb] at hki
      cases hki
    | zero => rfl
    | object id off => rfl
  induction mapped with
  | nil => exact .skip
  | cons each rest ih =>
    obtain ⟨address, f, flags⟩ := each
    have hsn := hmp _ (.head _)
    have hre : ∀ f ∈ rest.map fun each => each.2.1, OfParent w i f := by
      intro f hfe
      obtain ⟨each, hea, rfl⟩ := List.mem_map.mp hfe
      exact (hmp each (.tail _ hea)).ofParent
    refine .start fun t ⟨w', hc, ho, ht⟩ => .resume ?_ ht
    have hmap : Triple (Inv w') (mapFrame j address f
        (if area.backing.isPrivate then withoutWrite flags else flags) : Prog arch ι Unit) _
        fun e m => e ≠ .panic ∧ Inv (w'.drop f.paddr) m :=
      mapFrame_spec (ho.refs_pos (k := 0) rfl) fun code m hm => ⟨nofun, hm⟩
    refine .bind hmap.attempt fun r => ?_
    match r with
    | .ok _ =>
      refine (ih fun o hoth => hmp o (.tail _ hoth)).pre (fun m hm => ?_)
      obtain ⟨leafFlags, hgv, -, hfr, hm⟩ := hm
      refine ⟨_, hc.page hw har.mem (har.backed.paged 0 (hsrc 0)) hki ?_ hsrc har.allowed hsn hgv,
        (ho.map (k := 0) rfl hfr (fromFlags_alloc.mp (pteFlags_kind hgv))).1, hm⟩
      have := har.low
      omega
    | .error e =>
      refine .start fun t ⟨he, ht⟩ => ?_
      refine .resume (P := Copying w i j areas base (rest.map fun each => each.2.1)) ?_ ⟨w'.drop f.paddr,
        hc.rerefer rfl rfl rfl fun p hp => update_of_ne (hsn.ofParent.ne hp) ..,
        ho.drop_head, ht⟩
      exact (dropFrames_copying _ hre).bind fun _ => .throw fun m hm => ⟨he, hm⟩

include hij

/-- **The leaves of one area**, for the child. -/
theorem mapChild_copying :
    Triple (Copying w i j areas base []) (area.mapChild i j : Prog arch ι Unit) (fun _ => Copying w i j areas base [])
      (fun e m => e ≠ .panic ∧ Copying w i j areas base [] m) := by
  refine .start fun t ⟨w', hc, ho, ht⟩ => .resume ?_ ht
  have hpa : area.kind = .alloc → Triple (Inv w') (do
        let fs ← mappedFrames i area.range.start area.range.stop
        installAll j area.backing.isPrivate fs : Prog arch ι Unit) (fun _ => Copying w i j areas base [])
      (fun e m => e ≠ .panic ∧ Copying w i j areas base [] m) := by
    intro hki
    have hz : area.pageSize.bytes = frameSize := by
      rw [har.backed.paged 0 ?_]
      · rfl
      · unfold kind at hki
        unfold locate Source.at
        cases hb : area.backing.source with
        | static r =>
          rw [hb] at hki
          cases hki
        | zero => rfl
        | object id off => rfl
    refine .next (mappedFrames_spec ho.balanced fun code m hm => ⟨nofun, w', hc, ho, hm⟩) fun all t ⟨ht, hlv, hle⟩ => ?_
    have hsn : ∀ each ∈ all, Snapped w i area each := by
      intro each hea
      obtain ⟨leaf, hlf, hac, hal, hlow, hhi, heq⟩ := hle area.range.le har.low each hea
      rw [hc.other i each.1 hij] at hlf
      have hsrt := har.startAligned
      have hstp := har.stopAligned
      rw [hz] at hsrt hstp
      refine ⟨hal, ?_, aligned_le .size4K hal hstp hhi, leaf, hlf, hac, heq⟩
      by_contra hlo
      have := aligned_le .size4K hal hsrt (not_le.mp hlo)
      omega
    refine .resume (installAll_copying hw har hki all hsn)
      ⟨w'.hold (all.map fun each => each.2.1.paddr), hc.rerefer rfl rfl rfl fun p hp => ?_, ?_, ht⟩
    · show w'.refs p + (all.map fun each => each.2.1.paddr).count p = w'.refs p
      have hn : (all.map fun each => each.2.1.paddr).count p = 0 := by
        refine List.count_eq_zero.mpr fun hmem => ?_
        obtain ⟨each, hea, heq⟩ := List.mem_map.mp hmem
        exact (hsn each hea).ofParent.ne hp heq.symm
      rw [hn, Nat.add_zero]
    · have hlv : ∀ f ∈ all.map fun each => each.2.1, 0 < w'.refs f.paddr := List.forall_mem_map.mpr hlv
      have hhe := (ho.hold hlv).1
      rwa [List.map_map] at hhe
  unfold mapChild
  cases hb : area.backing.source with
  | zero | object _ _ => exact hpa (by rw [kind, hb])
  | static r =>
    refine ((mapStaticRange_mapped hb (hc.frames ▸ har.backed)).fail fun e m hm =>
      ⟨hm.1, w', hc, ho, hm.2⟩).post fun _ m ⟨w'', hmp, hm⟩ => ⟨w'', ?_, ?_, hm⟩
    · refine ⟨hmp.ranges.trans hc.ranges, hmp.frames.trans hc.frames, fun l a hl => ?_,
        fun a level leaf hlf => ?_, fun p hp => by rw [hmp.refs, hc.refs p hp]⟩
      · rw [hmp.other l a fun hbo => hl hbo.1, hc.other l a hl]
      · by_cases hin : area.range.contains a
        · obtain ⟨hstd, hsv⟩ := hmp.new a level leaf hin hlf
          have hsv := hsv (fun _ => false) []
          have hst : (area.locate a).origin.isStatic := by
            unfold locate Source.at
            rw [hb]
            rfl
          have hki : area.kind = .static := by rw [kind, hb]
          obtain ⟨-, -, hsh, -⟩ := har.backed.static hst
          refine ⟨area, har.mem, hin, hstd, hsv.level, ?_, fun _ => ?_, hsv.flags,
            fun hpv => (nomatch hsh.symm.trans hpv), fun hac => (nomatch hki.symm.trans hac)⟩
          · rw [hki]
            refine fromFlags_static.mpr (hsv.kind.trans ?_)
            rw [hst]
            rfl
          · have hfor := hsv.static hst
            rw [hmp.frames, hc.frames] at hfor
            exact hfor
        · exact hc.child a level leaf ((hmp.other j a fun hbo => hin hbo.2).symm.trans hlf)
    · refine ⟨fun p => ?_, fun p => ?_⟩
      · rw [hmp.refs, hmp.handles, hmp.mapped]
        exact ho.balanced p
      · rw [hmp.handles]
        exact ho.handles p

end Children

/-! ### The parent -/

/-- The part of the parent's transaction for one area. -/
def parentPart (i : ι) (area : VmArea) : Part arch ι where
  start := area.range.start
  stop := if area.backing.isPrivate && area.flags.write then area.range.stop else area.range.start
  kind := .alloc
  allowed := fun _ given => given = MappingFlags.withoutWrite area.flags
  prog := area.protectParentAfterFork i

theorem parentPart_works (h : Inv w s) (hbal : w.Balanced) (hstd : w.Stored arch i)
    (area : VmArea) : (parentPart i area : Part arch ι).Works w i := by
  unfold parentPart VmArea.protectParentAfterFork
  split
  · have hwks : (⟨area.range.start, area.range.start + area.range.size, .alloc,
        fun _ given => given = withoutWrite area.flags, ProtectionTransaction.protectAllocRange i
          area.range.start area.range.size (withoutWrite area.flags)⟩ : Part arch ι).Works w i :=
      protectAllocRange_works h hbal hstd _
    rwa [show area.range.start + area.range.size = area.range.stop from Nat.add_sub_cancel' area.range.le] at hwks
  · exact nothing_works _ _ _

omit [Fintype ι] in
theorem parentParts_ordered (h : Tiled bounds areas) :
    (areas.map (parentPart i : VmArea → Part arch ι)).Pairwise fun a b => a.stop ≤ b.start := by
  refine List.pairwise_map.mpr (h.ordered.imp fun {a b} hab => ?_)
  show (if _ then _ else _) ≤ b.range.start
  split
  · exact hab
  · exact a.range.le.trans hab

/-- **The child is made and the parent write-protected**, or both are as they were but for the child's
leaves. -/
theorem buildChild_spec (base : List Frame) (hw : Inv w s) (hij : i ≠ j) (hstd : w.Stored arch i)
    (hfm : sp.Formed) (hare : ∀ area ∈ values sp.areas, Copyable arch w i (values sp.areas) area) :
    Triple (Copying w i j (values sp.areas) base []) (buildChild i j sp : Prog arch ι Unit)
      (fun _ m => ∃ w' hue, Copied arch w w' i j (values sp.areas) ∧ w'.Owned base ∧
        Coloured arch w' i ((values sp.areas).map (parentPart i)) (fun _ => none) hue ∧ Inv (w'.tint i hue) m)
      (fun e m => e ≠ .panic ∧ Copying w i j (values sp.areas) base [] m) := by
  have hro : Triple (Copying w i j (values sp.areas) base [])
      (if sp.writeGuards.isEmpty then pure () else reserve : Prog arch ι Unit)
      (fun _ => Copying w i j (values sp.areas) base [])
      (fun e m => e ≠ .panic ∧ Copying w i j (values sp.areas) base [] m) := by
    split
    · exact .skip
    · refine .start fun t ⟨w', hc, ho, ht⟩ => .resume ?_ ht
      exact (reserve_spec fun m hm => ⟨nofun, w', hc, ho, hm⟩).post fun _ m hm =>
        ⟨w', hc, ho, hm⟩
  have hch : ∀ l : List VmArea, (∀ area ∈ l, Copyable arch w i (values sp.areas) area) →
      Triple (Copying w i j (values sp.areas) base []) (l.forM (mapChild i j) : Prog arch ι Unit)
        (fun _ => Copying w i j (values sp.areas) base [])
        (fun e m => e ≠ .panic ∧ Copying w i j (values sp.areas) base [] m) := by
    intro l hl
    induction l with
    | nil => exact .skip
    | cons area rest ih =>
      exact (mapChild_copying hw hij (hl area (.head _))).bind fun _ =>
        ih fun o hoth => hl o (.tail _ hoth)
  have hbu : (buildChild i j sp) = (do
      (if sp.writeGuards.isEmpty then pure () else reserve)
      (values sp.areas).forM (mapChild i j)
      ProtectionTransaction.run i ((values sp.areas).map (VmArea.protectParentAfterFork i)) []) := by
    unfold buildChild
    split <;> rfl
  rw [hbu]
  refine hro.bind fun _ => (hch _ hare).next fun _ t ⟨w', hc, ho, ht⟩ => .resume ?_ ht
  have hst' : w'.Stored arch i := fun a level leaf hlf => hstd a level leaf ((hc.other i a hij).symm.trans hlf)
  have hwks : ∀ part ∈ (values sp.areas).map (parentPart i : VmArea → Part arch ι), part.Works w' i :=
    List.forall_mem_map.mpr fun area _ => parentPart_works ht ho.balanced hst' area
  have hrun := run_spec hwks (parentParts_ordered hfm.tiled)
  rw [List.map_map] at hrun
  refine (hrun.fail fun e m hm => ⟨hm.1, w', hc, ho, hm.2⟩).post fun _ m ⟨hue, hm, hcol⟩ => ?_
  exact ⟨w', hue, hc, ho, hcol, hm⟩

/-! ### After a fork -/

section Forked
variable {sp : VmSpace arch} (h : Good w held k sps) (hsp : sps i = some sp)
include h hsp

omit [DecidableEq ι] in
theorem Good.copyable (hin : area ∈ values sp.areas) : Copyable arch w i (values sp.areas) area := by
  have hfi := (h.formed i sp hsp).tiled.fine area hin
  refine ⟨hin, h.backed i sp hsp area hin, hfi.startAligned, hfi.stopAligned, ?_, fun a lvl l hh hlf => ?_⟩
  · have hlo := hfi.below
    have hstp : sp.virtRange.stop = sp.range.start + sp.range.size := rfl
    have := sp.range.low
    omega
  · exact (h.areaOf hsp hin hh hlf).flags

omit [DecidableEq ι] in
/-- A leaf of the child has what the parent's guards allow. -/
theorem Good.inherited (hin : area ∈ values sp.areas) {a level : Nat} {leaf : Leaf}
    (hh : area.range.contains a) (hinh : Inherits arch w i area a level leaf) (hfs : w'.frames = w.frames) :
    Serves k.guarded w' sp.writeGuards a (area.locate a) level leaf where
  __ := hinh
  kind := area.locate_kind a hinh.kind
  static := fun hst => hfs ▸ hinh.static hst
  alone := fun hpv hwe => nomatch (hinh.shared hpv).symm.trans hwe
  tracked := by
    intro hnd hwe
    have hki : area.kind = .alloc := by
      rw [locate_needsGuard] at hnd
      unfold Backing.requiresWriteGuard at hnd
      unfold kind
      cases hsrc : area.backing.source with
      | static r =>
        rw [hsrc, Bool.and_false] at hnd
        cases hnd
      | zero => rfl
      | object id off => rfl
    obtain ⟨level', old, hold, hwr⟩ := hinh.tracked hki hwe
    exact (h.areaOf hsp hin hh hold).tracked hnd hwr

omit hsp in
/-- The only owners in other spaces stay so: the parent has none of their frames. -/
theorem Good.copied_alone (hc : Copied arch w w' i j areas) {l : ι} (hl : l ≠ i) {a lvl : Nat} {leaf : Leaf}
    (hlf : w.view l a = some (lvl, leaf)) (hal : leaf.flags.allocFrame) (hone : w.refs leaf.paddr = 1) :
    w'.refs leaf.paddr ≤ 1 := by
  rw [hc.refs leaf.paddr fun b level' old hold hal' hsa => ?_, hone]
  have htwo := h.memory.two_leaves (h.inside hlf) (h.inside hold) hlf hold hal hal' hsa fun heq =>
    absurd heq.symm hl
  have := h.owned.balanced leaf.paddr
  omega

/-- **After a fork** no private page may be written, neither by the parent nor by the child. -/
theorem Good.forked (hij : i ≠ j) (hrs : w.ranges j = (sp.range.start, sp.range.size))
    (hc : Copied arch w w' i j (values sp.areas)) (ho : w'.Owned (held ++ k.frames))
    {hue : Nat → Option MappingFlags}
    (hcol : Coloured arch w' i ((values sp.areas).map (parentPart i)) (fun _ => none) hue)
    (hm : Inv (w'.tint i hue) m) :
    Good (w'.tint i hue) held (k.withMemory m) (update sps j (some sp)) := by
  have hfm := h.formed i sp hsp
  refine h.change hm {ho with} rfl hc.frames (fun l o hoth => ?_) fun l a level leaf hlf => ?_
  · obtain ⟨rfl, hnew⟩ | ⟨-, hoth⟩ := update_cases hoth
    · cases hnew
      exact ⟨hc.ranges ▸ hrs, hfm, hc.frames ▸ h.backed i _ hsp⟩
    · exact ⟨hc.ranges ▸ h.ranges l o hoth, h.formed l o hoth, hc.frames ▸ h.backed l o hoth⟩
  · by_cases hl : l = j
    · subst hl
      have hlf : w'.view l a = some (level, leaf) := by
        simpa only [World.tint, update_of_ne (.symm hij)] using hlf
      obtain ⟨area, har, hin, hinh⟩ := hc.child a level leaf hlf
      refine .inr ⟨hinh.stored, sp, area.locate a, update_self .., ?_, ?_⟩
      · exact (lookup_eq_some hfm).mpr ⟨area, har, hin, rfl⟩
      · exact h.inherited hsp har hin hinh hc.frames
    · by_cases hi : l = i
      · subst hi
        rw [World.tint_view, hc.other l a hl] at hlf
        obtain ⟨⟨level', old⟩, hold, heq⟩ := Option.map_eq_some_iff.mp hlf
        obtain ⟨rfl, rfl⟩ := Prod.mk.inj heq
        have hsl := (hc.other l a hl).trans hold
        cases hhue : hue a with
        | none =>
          refine .inl ⟨hold, fun o loc hoth hloc => ⟨fun hpv hwe _ => ?_, ?_⟩⟩
          · -- such a leaf was part of the transaction
            cases hsp.symm.trans hoth
            obtain ⟨area, har, hin, rfl⟩ := (lookup_eq_some hfm).mp hloc
            have haw := (h.areaOf hsp har hin hold).flags
            have hwr : area.flags.write := by
              simp only [contains, access, Bool.and_eq_true] at haw
              have hwe : old.flags.write := hwe
              simpa [hwe, locate] using haw.1.1.1.1.1.1.2
            have hin := contains_iff.mp hin
            have hstp : (parentPart l area : Part arch ι).stop = area.range.stop := by
              show (if _ then _ else _) = _
              rw [hwr, show area.backing.isPrivate from hpv]
              rfl
            obtain ⟨given, new, -, -, hso⟩ := hcol.inside _ (List.mem_map_of_mem har) a level' old hin.1
              (hstp ▸ hin.2) hsl
            exact absurd (hhue.symm.trans hso).symm (Option.some_ne_none _)
          · exact ⟨o, (update_of_ne hl ..).trans hoth, hloc, fun g hgd => ⟨g, hgd⟩⟩
        | some flags =>
          obtain ⟨part, hpt, ha⟩ : ∃ part ∈ (values sp.areas).map (parentPart l), part.start ≤ a ∧ a < part.stop := by
            by_contra hn
            have hpl := hcol.outside a fun part hpt hin => hn ⟨part, hpt, hin⟩
            exact Option.some_ne_none flags (hhue.symm.trans hpl)
          obtain ⟨area, har, rfl⟩ := List.mem_map.mp hpt
          have hli : a < if area.backing.isPrivate && area.flags.write then area.range.stop else area.range.start := ha.2
          have hlow : area.range.start ≤ a := ha.1
          split_ifs at hli with hbo
          · rw [Bool.and_eq_true] at hbo
            have hin : area.range.contains a := contains_iff.mpr ⟨hlow, hli⟩
            obtain ⟨given, new, hgv, hf, hso⟩ := hcol.inside _ hpt a level' old ha.1 ha.2 hsl
            cases hhue.symm.trans hso
            obtain ⟨hacc, hwe⟩ := pteFlags_access hf
            have hsv := h.areaOf hsp har hin hold
            have hun : (arch.stored new).write = false := by
              cases hbit : (arch.stored new).write with
              | false => rfl
              | true =>
                have hbit := hwe hbit
                rw [show given = _ from hgv] at hbit
                exact absurd hbit Bool.false_ne_true
            have hst := (h.backed l sp hsp area har).notStatic a hbo.1
            refine .inr ⟨stored_stored arch new, sp, area.locate a, (update_of_ne hl ..).trans hsp,
              (lookup_eq_some hfm).mpr ⟨area, har, hin, rfl⟩, hsv.level, ?_, hc.frames ▸ hsv.static, ?_,
              fun _ hbit => absurd hbit (ne_true_of_eq_false hun), fun _ hbit => absurd hbit (ne_true_of_eq_false hun)⟩
            · rw [hst]
              exact fromFlags_alloc.mp (pteFlags_kind hf)
            · rw [show given = _ from hgv] at hacc
              exact contains_trans (contains_withoutWrite area.flags) hacc
          · omega
      · have hlf : w'.view l a = some (level, leaf) := by
          simpa only [World.tint, update_of_ne hi] using hlf
        have hold := (hc.other l a hl).symm.trans hlf
        refine .inl ⟨hold, fun o loc hoth hloc => ⟨fun hpv hwe hone => ?_, ?_⟩⟩
        · obtain ⟨other', location', hot', hloc', hsv⟩ := h.served l a level leaf hold
          cases hoth.symm.trans hot'
          cases hloc.symm.trans hloc'
          exact h.copied_alone hc hi hold (hsv.alone hpv hwe).1 hone
        · exact ⟨o, (update_of_ne hl ..).trans hoth, hloc, fun g hgd => ⟨g, hgd⟩⟩

end Forked

/-! ### A fork that fails -/

/-- **The child's leaves go**, and with them the references that were made for it. -/
theorem dropChild_spec (h : Good w held k sps) (hsp : sps i = some sp)
    (hij : i ≠ j) (hrs : w.ranges j = (sp.range.start, sp.range.size)) (hfr : ∀ a, w.view j a = none)
    (hc : Copied arch w w' i j (values sp.areas)) (ho : w'.Owned (held ++ k.frames)) :
    Triple (Inv w') (dropSpace j (values sp.areas))
      (fun _ m => ∃ w'', w''.view = w.view ∧ w''.refs = w.refs ∧ Good w'' held (k.withMemory m) sps) E := by
  have hfm := h.formed i sp hsp
  have hee : ∀ area ∈ values sp.areas, Erasable w' j area area.range := by
    intro area har
    refine ⟨(hfm.tiled.fine area har).isPart.fits (hfm.tiled.fine area har) (hc.ranges ▸ hrs),
      fun a hlow hhi level leaf hlf => ?_⟩
    obtain ⟨o, hoth, hin, hinh⟩ := hc.child a level leaf hlf
    have hh : area.range.contains a :=
      contains_iff.mpr ⟨hlow, (Nat.add_sub_cancel' area.range.le) ▸ hhi⟩
    obtain rfl := hfm.tiled.unique hoth har hin hh
    exact ⟨hinh.level, hinh.kind⟩
  have hunm : Triple (Inv w') (unmapAreas j (values sp.areas) : Prog arch ι Unit) _ fun _ _ => False :=
    unmapAreas_spec _ (h.backed i sp hsp) ho.balanced hee fun a hout => by
      cases hlf : w'.view j a with
      | none => rfl
      | some found =>
        obtain ⟨area, har, hin, -⟩ := hc.child a found.1 found.2 hlf
        exact absurd ⟨area, har, hin⟩ hout
  refine (expect_spec hunm).bind fun _ => .start fun t ⟨w'', her, ht⟩ => .resume ?_ ht
  refine (dropAddressSpace_spec fun a _ => her.gone a trivial).post fun _ m hm => ?_
  have hv : w''.view = w.view := by
    funext l a
    by_cases hl : l = j
    · subst hl
      rw [her.gone a trivial, hfr a]
    · rw [her.kept l a fun hbo => hl hbo.1, hc.other l a hl]
  have howned'' := (ho.released her.toReleased).1
  have hmp := hm.mapped_eq h.memory fun l a _ => by rw [hv]
  have hrf : w''.refs = w.refs := by
    funext p
    rw [howned''.balanced p, h.owned.balanced p, howned''.handles p, h.owned.handles p, hmp]
  refine ⟨w'', hv, hrf, h.unseen hm howned'' rfl (her.ranges.trans hc.ranges)
    (her.frames.trans hc.frames) (spares_of_eq hrf) hv⟩

/-! ### Spaces come and go -/

/-- A space that has its page table. -/
def withRange (w : World ι) (j : ι) (range : UserRange arch) : World ι :=
  {w with ranges := update w.ranges j (range.start, range.size)}

omit [DecidableEq ι] in
/-- Where there is no space there are no leaves. -/
theorem Good.absent (h : Good w held k sps) (hn : sps j = none) (a : Nat) : w.view j a = none := by
  cases hlf : w.view j a with
  | none => rfl
  | some found =>
    obtain ⟨sp, loc, hsp, -⟩ := h.served j a found.1 found.2 hlf
    cases hn.symm.trans hsp

/-- A page table without a space. -/
theorem Good.renewed (h : Good w held k sps) (hn : sps j = none)
    (hm : Inv (withRange w j r) m) : Good (withRange w j r) held (k.withMemory m) sps := by
  refine h.change hm ⟨h.owned.balanced, h.owned.handles⟩ rfl rfl (fun l sp hsp => ?_)
    fun l a lvl leaf hlf => .inl (h.stays (spares_of_eq rfl) hlf)
  have hl : l ≠ j := by
    rintro rfl
    cases hn.symm.trans hsp
  exact ⟨(update_of_ne hl ..).trans (h.ranges l sp hsp), h.formed l sp hsp, h.backed l sp hsp⟩

variable {v : Vm arch ι}

/-- A state with the leaves and the reference counts of another. -/
def Restored (w : World ι) (held : List Frame) (i : ι) (spaces : ι → Option (VmSpace arch)) (v t : Vm arch ι) : Prop :=
  ∃ w' m, t = v.withMemory m ∧ w'.view = w.view ∧ w'.refs = w.refs ∧ Sits w' held i spaces t

/-- **A fork** gives the child the areas and the guards of its parent, or changes nothing. -/
theorem tryClone_spec (h : Sits w held i sps v) (hij : i ≠ j) (hn : sps j = none) :
    Runs v (tryClone i j) (fun c t => c = v.space ∧ ∃ w' m, t = v.withMemory m ∧
        Good w' held t.kernel (update (update sps i (some v.space)) j (some v.space)))
      (fun e t => e ≠ .panic ∧ Restored w held i sps v t) := by
  have hsp : update sps i (some v.space) i = some v.space := update_self ..
  have hn : update sps i (some v.space) j = none := (update_of_ne hij.symm ..).trans hn
  have hfr := Good.absent h hn
  refine .get_bind (.bind (onMemory_spec h.memory
    (newUser_spec (fun a _ => hfr a) v.space.range (E := fun e m => e ≠ .panic ∧ Inv w m) fun m hm => ⟨nofun, hm⟩)
    (Q := fun _ t => ∃ m, t = v.withMemory m ∧ Inv (withRange w j v.space.range) m) (fun _ m hm => ⟨m, rfl, hm⟩)
    fun e m hm => ⟨hm.1, w, m, rfl, rfl, rfl, .sameWorld h hm.2⟩) fun _ => .start fun t ⟨m, ht, hm⟩ => ?_)
  subst ht
  have hg := Good.renewed h hn hm
  have hrs : (withRange w j v.space.range).ranges j = (v.space.range.start, v.space.range.size) := update_self ..
  have hbu := buildChild_spec (held ++ v.kernel.frames) hm hij (hg.stored i) h.formed fun area har =>
    hg.copyable hsp har
  have hrun : Runs (v.withMemory m) (onMemory (buildChild i j v.space))
      (fun _ t => ∃ w' m', t = v.withMemory m' ∧
        Good w' held t.kernel (update (update sps i (some v.space)) j (some v.space)))
      (fun e t => e ≠ .panic ∧ ∃ m', t = v.withMemory m' ∧
        Copying (withRange w j v.space.range) i j (values v.space.areas) (held ++ v.kernel.frames) [] m') := by
    refine onMemory_spec hm
      (hbu.pre (fun t ht => ⟨_, copied_nothing (hg.absent hn) _, hg.owned, ht⟩)) (fun _ m' hm' => ?_)
      fun e m' hm' => ⟨hm'.1, m', rfl, hm'.2⟩
    obtain ⟨w', hue, hc, ho, hcol, hm'⟩ := hm'
    exact ⟨_, m', rfl, hg.forked hsp hij hrs hc ho hcol hm'⟩
  refine .bind hrun.attempt fun r => ?_
  match r with
  | .ok _ => exact .pure fun t ht => ⟨rfl, ht⟩
  | .error .panic => exact .throw fun t ht => absurd rfl ht.1
  | .error (.error e) =>
    refine .start fun t ⟨_, m', ht, w', hc, ho, hm'⟩ => ?_
    subst ht
    have hdr : Triple (Inv w') (dropSpace j (values v.space.areas)) _ fun _ _ => False :=
      dropChild_spec hg hsp hij hrs hfr hc ho
    refine .bind (onMemory_total hm' hdr
      fun _ m'' hm'' => ?_) fun _ => .throw fun t ht => ⟨nofun, ht⟩
    obtain ⟨w'', hv, hrf, hgood''⟩ := hm''
    exact ⟨w'', m'', rfl, hv, hrf, hgood''⟩

section
variable (h : Good w held k sps)
include h

/-- A space without areas. -/
theorem Good.opened (hn : sps j = none) (hm : Inv (withRange w j r) m) :
    Good (withRange w j r) held (k.withMemory m) (update sps j (some ⟨r, .empty, []⟩)) := by
  have hg := h.renewed hn hm
  refine hg.change hm hg.owned rfl rfl (fun l sp hsp => ?_) fun l a lvl leaf hlf => .inl ⟨hlf, ?_⟩
  · obtain ⟨rfl, hnew⟩ | ⟨-, hsp⟩ := update_cases hsp
    · cases hnew
      exact ⟨update_self .., wellFormed_empty, fun _ h => absurd h List.not_mem_nil⟩
    · exact hg.laid hsp
  · intro sp loc hsp hloc
    have hl : l ≠ j := by
      rintro rfl
      cases hn.symm.trans hsp
    exact ⟨fun _ _ hone => hone.le, sp, (update_of_ne hl ..).trans hsp, hloc, fun g hgd => ⟨g, hgd⟩⟩

/-- A space without leaves may go. -/
theorem Good.closed (hsp : sps i = some sp) (her : Erased w w' i fun _ => True) (hm : Inv w' m) :
    Good w' held (k.withMemory m) (update sps i none) := by
  have hg := h.shrunk hsp her hm ⟨sp.range, .empty, []⟩ rfl wellFormed_empty
    (fun _ h => absurd h List.not_mem_nil) (fun _ _ hout => absurd trivial hout) fun _ _ hout => absurd trivial hout
  refine hg.change hm hg.owned rfl rfl (fun l o hoth => ?_) fun l a lvl leaf hlf => .inl ⟨hlf, ?_⟩
  · obtain ⟨hl, hold⟩ := update_map_ne id hoth nofun
    exact hg.laid ((update_of_ne hl ..).trans hold)
  · intro o loc hoth hloc
    have hl : l ≠ i := by
      rintro rfl
      exact nomatch (her.gone a trivial).symm.trans hlf
    rw [update_of_ne hl] at hoth
    exact ⟨fun _ _ hone => hone.le, o, (update_of_ne hl ..).trans hoth, hloc, fun g hgd => ⟨g, hgd⟩⟩

theorem dropSpace_spec (hsp : sps i = some sp) : Triple (Inv w) (dropSpace i (values sp.areas))
      (fun _ m => ∃ w', Good w' held (k.withMemory m) (update sps i none)) E := by
  have hunm : Triple (Inv w) (unmapAreas i (values sp.areas)) _ fun _ _ => False :=
    h.unmapAreas hsp
  refine (expect_spec hunm).bind fun _ => .start fun t ⟨w', her, ht⟩ => .resume ?_ ht
  exact (dropAddressSpace_spec fun a _ => her.gone a trivial).post fun _ m hm =>
    ⟨w', h.closed hsp her hm⟩

end

/-! ### Bytes -/

theorem writeBytes_spec (h : Sits w held i sps v) (start : Nat) (input : List UInt8) :
    Runs v (writeBytes i start input)
      (fun _ t => ∃ m bs, t = v.withMemory m ∧ Sits {w with bytes := bs} held i sps t)
      (fun e t => e ≠ .panic ∧ ∃ m bs, t = v.withMemory m ∧ Sits {w with bytes := bs} held i sps t) := by
  unfold writeBytes
  split
  · exact .pure fun t ht => ⟨v.kernel.memory, w.bytes, ht, ht ▸ h⟩
  split
  · exact .throw fun t ht => ⟨XStop.error_ne_panic _, v.kernel.memory, w.bytes, ht, ht ▸ h⟩
  refine .get_bind ?_
  split
  · refine onMemory_spec h.memory ((writeAllocBytes_spec (E := fun e m => e ≠ .panic ∧ Rewritten w m)
      (fun code m hm => ⟨XStop.error_ne_panic code, hm⟩) start input).pre (fun m hm => ⟨w.bytes, hm⟩)) (fun _ m hm => ?_)
      fun e m hm => ⟨hm.1, ?_⟩
    · obtain ⟨bs, hm⟩ := hm
      exact ⟨m, bs, rfl, .bytes h hm⟩
    · obtain ⟨bs, hm⟩ := hm.2
      exact ⟨m, bs, rfl, .bytes h hm⟩
  · exact .throw fun t ht => ⟨XStop.error_ne_panic _, v.kernel.memory, w.bytes, ht, ht ▸ h⟩

end Forking

end StarryX.Vma
