import StarryX.Vma.Resolve

/-! Mapping, unmapping and protecting.

Each operation on a space keeps every leaf in order, and one that fails leaves all leaves as they
were. Unmapping cannot fail once the range is accepted, because every leaf of an area is of the
kind and the size that the area says. -/
namespace StarryX.Vma
open Library Mm Function
open List (forall_mem_map mem_cons mem_cons_of_mem mem_cons_self)
open Option (isSome_iff_exists isSome_map map_some)
open VirtAddrRange (contains_iff fromStartSize overlaps_iff size)
open VmArea (locate overlapWith retained slice unmap)
open ProtectionTransaction (protectAllocRange protectAllocRangeWith protectStaticRange)

section Changing
variable {arch : Arch} {ι : Type} [Fintype ι] [DecidableEq ι] {w w' w'' : World ι} {held : List Frame}
  {k : Kernel arch ι} {v t : Vm arch ι} {m : Memory arch ι} {i : ι} {sps : ι → Option (VmSpace arch)}

/-! ### Taking leaves out -/

/-- The leaves of a set of addresses are gone, with their references. -/
structure Erased (w w' : World ι) (i : ι) (S : Nat → Prop) : Prop extends World.Released w w' where
  gone : ∀ a, S a → w'.view i a = none
  kept : ∀ j a, ¬ (j = i ∧ S a) → w'.view j a = w.view j a

omit [Fintype ι] [DecidableEq ι] in
theorem Erased.none (w : World ι) (i : ι) : Erased w w i fun _ => False :=
  ⟨.refl w, fun _ h => h.elim, fun _ _ _ => rfl⟩

variable {S T : Nat → Prop} {r : VirtAddrRange} {area : VmArea} {flags : MappingFlags}

omit [Fintype ι] [DecidableEq ι] in
theorem Erased.trans (h : Erased w w' i S) (h' : Erased w' w'' i T) : Erased w w'' i fun a => S a ∨ T a where
  toReleased := h.toReleased.trans h'.toReleased
  gone := by
    intro a ha
    by_cases hT : T a
    · exact h'.gone a hT
    · rw [h'.kept i a fun hbo => hT hbo.2]
      exact h.gone a (ha.resolve_right hT)
  kept := by
    intro j a hout
    rw [h'.kept j a fun hbo => hout ⟨hbo.1, .inr hbo.2⟩, h.kept j a fun hbo => hout ⟨hbo.1, .inl hbo.2⟩]

omit [Fintype ι] [DecidableEq ι] in
/-- A larger set, if there is nothing more in it. -/
theorem Erased.widen (h : Erased w w' i S) (hsub : ∀ a, S a → T a) (hmo : ∀ a, T a → ¬ S a → w.view i a = .none) :
    Erased w w' i T where
  toReleased := h.toReleased
  gone := by
    intro a ha
    by_cases hS : S a
    · exact h.gone a hS
    · rw [h.kept i a fun hbo => hS hbo.2, hmo a ha hS]
  kept := fun j a hout => h.kept j a fun hbo => hout ⟨hbo.1, hsub a hbo.2⟩

omit [Fintype ι] in
theorem Erased.of_removed {start stop : Nat} (h : w.Removed w' i start stop) :
    Erased w w' i fun a => start ≤ a ∧ a < stop where
  toReleased := h.toReleased
  gone := by
    intro a ha
    rw [h.view, update_self, if_pos ha]
  kept := by
    intro j a hout
    rw [h.view]
    by_cases hj : j = i
    · subst hj
      rw [update_self, if_neg fun hin => hout ⟨rfl, hin⟩]
    · rw [update_of_ne hj]

/-- What stands behind the leaves of an area. -/
def VmArea.kind (area : VmArea) : FrameKind :=
  match area.backing.source with
  | .static _ => .static
  | _ => .alloc

theorem VmArea.locate_kind (area : VmArea) (a : Nat)
    (h : FrameKind.fromFlags flags = area.kind) : flags.allocFrame = !(area.locate a).origin.isStatic := by
  unfold VmArea.kind at h
  unfold locate Source.at
  cases hsrc : area.backing.source with
  | static physical =>
    rw [hsrc] at h
    exact fromFlags_static.mp h
  | zero | object _ _ =>
    rw [hsrc] at h
    exact fromFlags_alloc.mp h

/-- The leaves in a range can be unmapped as those of an area. -/
structure Erasable (w : World ι) (i : ι) (area : VmArea) (range : VirtAddrRange) : Prop where
  fits : w.Fits i range.start range.size area.pageSize
  uniform : w.Uniform i range.start range.size area.kind area.pageSize

omit [Fintype ι] [DecidableEq ι] in
theorem Erased.erasable (h : Erased w w' i S)
    (hera : Erasable w i area r) : Erasable w' i area r where
  fits := by
    obtain ⟨hnem, hst, hz, hab, hlo⟩ := hera.fits
    exact ⟨hnem, hst, hz, h.ranges ▸ hab, h.ranges ▸ hlo⟩
  uniform := by
    intro a hlow hhi lvl leaf hl
    have hout : ¬ (i = i ∧ S a) := fun hbo => nomatch (h.gone a hbo.2).symm.trans hl
    exact hera.uniform a hlow hhi lvl leaf ((h.kept i a hout).symm.trans hl)

variable {fs : Nat → Bool}

omit [Fintype ι] in
theorem VmArea.unmap_eq (h : area.Backed fs) (r : VirtAddrRange) :
    (area.unmap i r : Prog arch ι Unit) = unmapRange i r.start r.size area.kind area.pageSize := by
  unfold unmap VmArea.kind
  unfold VmArea.Backed at h
  cases hsrc : area.backing.source with
  | static r => rfl
  | zero =>
    rw [hsrc] at h
    simp only [h.2]
    rfl
  | object id off =>
    rw [hsrc] at h
    simp only [h.1]
    rfl

/-- **Unmapping a part of an area** cannot fail. -/
theorem VmArea.unmap_spec {E : XStop → Memory arch ι → Prop}
    (hbk : area.Backed fs) (hbal : w.Balanced) (hera : Erasable w i area r) :
    Triple (Inv w) (area.unmap i r : Prog arch ι Unit)
      (fun _ m => ∃ w', Erased w w' i (fun a => r.contains a) ∧ Inv w' m) E := by
  rw [VmArea.unmap_eq hbk]
  refine (unmapRange_spec hbal fun code s _ hnot => ?_).post fun _ m hm => ?_
  · exact absurd ⟨hera.fits, hera.uniform⟩ hnot
  · obtain ⟨-, -, w', hrem, -, hm⟩ := hm
    refine ⟨w', (Erased.of_removed hrem).widen (fun a ha => ?_) (fun a ha hnot => absurd ?_ hnot), hm⟩
    all_goals
      have hz : r.start + r.size = r.stop := Nat.add_sub_cancel' r.le
      simp only [hz] at *
    · exact contains_iff.mpr ha
    · exact contains_iff.mp ha

/-- All of several parts. -/
theorem unmapParts_spec {E : XStop → Memory arch ι → Prop} (parts : List (VmArea × VirtAddrRange))
    (hbk : ∀ part ∈ parts, part.1.Backed fs) (hbal : w.Balanced)
    (hera : ∀ part ∈ parts, Erasable w i part.1 part.2) :
    Triple (Inv w) (parts.forM fun part => part.1.unmap i part.2 : Prog arch ι Unit)
      (fun _ m => ∃ w', Erased w w' i (fun a => ∃ part ∈ parts, part.2.contains a) ∧ Inv w' m) E := by
  induction parts generalizing w with
  | nil =>
    refine .pure fun m hm => ⟨w, (Erased.none w i).widen (fun _ h => h.elim) ?_, hm⟩
    rintro a ⟨part, hp, -⟩
    exact absurd hp List.not_mem_nil
  | cons part rest ih =>
    refine .next (VmArea.unmap_spec (hbk part (.head _)) hbal
      (hera part (.head _))) fun _ s ⟨w', her, hs⟩ => .resume ?_ hs
    refine (ih (fun part hp => hbk part (.tail _ hp)) (her.balanced hbal)
      fun part hp => her.erasable (hera part (.tail _ hp))).post
      fun _ m ⟨w'', her', hm⟩ => ⟨w'', (her.trans her').widen ?_ ?_, hm⟩
    · rintro a (ha | ⟨o, hoth, ha⟩)
      · exact ⟨part, .head _, ha⟩
      · exact ⟨o, .tail _ hoth, ha⟩
    · rintro a ⟨o, hoth, ha⟩ hnot
      obtain rfl | hoth := mem_cons.mp hoth
      · exact absurd (.inl ha) hnot
      · exact absurd (.inr ⟨o, hoth, ha⟩) hnot

/-! ### Parts of areas -/

variable {a : Nat} {bounds : VirtAddrRange}

section Parts
variable {sp : VmSpace arch} {area : VmArea} {r : VirtAddrRange}

/-- A part of an area, on page bounds. -/
structure VmArea.IsPart (area : VmArea) (range : VirtAddrRange) : Prop where
  nonempty : range.start < range.stop
  startAligned : range.start % area.pageSize.bytes = 0
  stopAligned : range.stop % area.pageSize.bytes = 0
  above : area.range.start ≤ range.start
  below : range.stop ≤ area.range.stop

theorem VmArea.Fine.isPart (h : area.Fine bounds) : area.IsPart area.range :=
  ⟨h.nonempty, h.startAligned, h.stopAligned, le_rfl, le_rfl⟩

omit [DecidableEq ι] in
theorem Good.areaOf (h : Good w held k sps) (hsp : sps i = some sp) (har : area ∈ values sp.areas)
    {lvl : Nat} {leaf : Leaf} (hin : area.range.contains a) (hl : w.view i a = some (lvl, leaf)) :
    Serves k.guarded w sp.writeGuards a (area.locate a) lvl leaf := by
  obtain ⟨space', loc, hsp', hloc, hsv⟩ := h.served i a lvl leaf hl
  cases hsp.symm.trans hsp'
  have hh := (lookup_eq_some (h.formed i sp hsp)).mpr ⟨area, har, hin, rfl⟩
  cases hh.symm.trans hloc
  exact hsv

omit [Fintype ι] [DecidableEq ι] in
/-- A part of an area lies in its space. -/
theorem VmArea.IsPart.fits (hp : area.IsPart r) (hfi : area.Fine sp.virtRange)
    (hrgs : w.ranges i = (sp.range.start, sp.range.size)) : w.Fits i r.start r.size area.pageSize := by
  have hst : sp.virtRange.start = sp.range.start := rfl
  have hstp : sp.virtRange.stop = sp.range.start + sp.range.size := rfl
  have hsum : r.start + r.size = r.stop := Nat.add_sub_cancel' r.le
  refine ⟨?_, hp.startAligned, ?_, ?_, ?_⟩
  · have := hp.nonempty
    omega
  · have hdvd := Nat.dvd_sub (Nat.dvd_of_mod_eq_zero hp.stopAligned) (Nat.dvd_of_mod_eq_zero hp.startAligned)
    exact Nat.mod_eq_zero_of_dvd hdvd
  · rw [hrgs]
    exact hst ▸ hfi.above.trans hp.above
  · rw [hrgs, hsum]
    exact hstp ▸ hp.below.trans hfi.below

omit [DecidableEq ι] in
/-- The leaves of an area are as it says. -/
theorem Good.erasable (h : Good w held k sps) (hsp : sps i = some sp) (har : area ∈ values sp.areas)
    (hp : area.IsPart r) : Erasable w i area r := by
  have hfi := (h.formed i sp hsp).tiled.fine area har
  refine ⟨hp.fits hfi (h.ranges i sp hsp), fun a hlow hhi lvl leaf hl => ?_⟩
  have hsum : r.start + r.size = r.stop := Nat.add_sub_cancel' r.le
  have hin : area.range.contains a :=
    contains_iff.mpr ⟨hp.above.trans hlow, (hsum ▸ hhi).trans_le hp.below⟩
  have hsv := h.areaOf hsp har hin hl
  refine ⟨hsv.level, ?_⟩
  have hki := hsv.kind
  unfold locate Source.at at hki
  unfold VmArea.kind FrameKind.fromFlags
  rw [hki]
  cases area.backing.source <;> rfl

/-- **Leaves go**, and the areas and guards of other addresses stay. -/
theorem Good.shrunk (h : Good w held k sps) (hsp : sps i = some sp) (her : Erased w w' i S)
    (hm : Inv w' m) (space' : VmSpace arch) (hrg : space'.range = sp.range) (hfo : space'.Formed)
    (hbk : AllBacked w.frames (values space'.areas))
    (hlk : ∀ a loc, ¬ S a → lookup sp.areas a = some loc → lookup space'.areas a = some loc)
    (hgu : ∀ a g, ¬ S a → (a - a % frameSize, g) ∈ sp.writeGuards →
      (a - a % frameSize, g) ∈ space'.writeGuards) :
    Good w' held (k.withMemory m) (update sps i (some space')) := by
  refine h.changeAt hsp hm (h.owned.released her.toReleased).1 her.ranges her.frames (spares_of_le her.toReleased.refs_le) hrg
    hfo hbk fun j a lvl leaf hl => .inl ?_
  have hout : ¬ (j = i ∧ S a) := by
    rintro ⟨rfl, hS⟩
    cases (her.gone a hS).symm.trans hl
  refine ⟨(her.kept j a hout).symm.trans hl, ?_⟩
  rintro rfl loc hloc
  have hnot : ¬ S a := fun hS => hout ⟨rfl, hS⟩
  exact ⟨hlk a loc hnot hloc, fun g => hgu a g hnot⟩

/-- Dropping the guards of a range of pages keeps those of all other pages. -/
theorem guard_kept (hstp : r.stop % frameSize = 0) (hout : ¬ r.contains a) {g : Guard}
    {guards : List (Nat × Guard)} (hmem : (a - a % frameSize, g) ∈ guards) :
    (a - a % frameSize, g) ∈ guards.filter fun e => !r.contains e.1 := by
  refine List.mem_filter.mpr ⟨hmem, ?_⟩
  rw [Bool.not_eq_true']
  by_contra hin
  have hin := contains_iff.mp (Bool.eq_true_of_not_eq_false hin)
  refine hout (contains_iff.mpr ⟨hin.1.trans (Nat.sub_le _ _), ?_⟩)
  by_contra hover
  have := page_le (not_lt.mp hover) hstp
  omega

end Parts

/-! ### Unmapping -/

variable {l : List VmArea} {part : VmArea × VirtAddrRange}

section Unmapping
variable {areas : AreaMap} {bounds changed : VirtAddrRange} {area : VmArea} {start size : Nat}

omit [Fintype ι] [DecidableEq ι]

theorem validateSplitOffsets_ok (h : validateSplitOffsets areas changed = .ok ()) (har : area ∈ values areas)
    (hme : area.range.overlaps changed) :
    (area.before changed).isSome ∧ (area.behind changed).isSome := by
  unfold validateSplitOffsets at h
  split at h
  next hall =>
    have hth := List.all_eq_true.mp hall area har
    simpa [hme] using hth
  · cases h

theorem VmArea.slice_isSome {first last : Nat} (h : (area.slice first last flags).isSome) :
    first % area.pageSize.bytes = 0 ∧ last % area.pageSize.bytes = 0 := by
  obtain ⟨part, hp⟩ := isSome_iff_exists.mp h
  unfold slice at hp
  split at hp
  next hle =>
    obtain ⟨-, -, hfi, hz, -⟩ := VmArea.checkedSlice_eq hp
    refine ⟨hfi, ?_⟩
    have hsum := Nat.dvd_add (Nat.dvd_of_mod_eq_zero hfi) (Nat.dvd_of_mod_eq_zero hz)
    rw [show first + size ⟨first, last, hle⟩ = last from Nat.add_sub_cancel' hle] at hsum
    exact Nat.mod_eq_zero_of_dvd hsum
  · cases hp

/-- Where an area may be split, what is cut out is a part of it. -/
theorem VmArea.Fine.overlap (hfi : area.Fine bounds) (hchg : changed.start < changed.stop)
    (hme : area.range.overlaps changed) (hbef : (area.before changed).isSome)
    (hbeh : (area.behind changed).isSome) : area.IsPart (area.overlapWith changed hme) := by
  have hbo := overlaps_iff.mp hme
  have hnem := hfi.nonempty
  refine ⟨by simp only [overlapWith]; omega, ?_, ?_, Nat.le_max_left _ _, Nat.min_le_left _ _⟩
  · show max area.range.start changed.start % _ = 0
    by_cases hlt : area.range.start < changed.start
    · rw [Nat.max_eq_right hlt.le]
      unfold VmArea.before at hbef
      rw [if_pos hlt, isSome_map] at hbef
      exact (VmArea.slice_isSome hbef).2
    · rw [Nat.max_eq_left (not_lt.mp hlt)]
      exact hfi.startAligned
  · show min area.range.stop changed.stop % _ = 0
    by_cases hlt : changed.stop < area.range.stop
    · rw [Nat.min_eq_right hlt.le]
      unfold VmArea.behind at hbeh
      rw [if_pos hlt, isSome_map] at hbeh
      exact (VmArea.slice_isSome hbeh).1
    · rw [Nat.min_eq_left (not_lt.mp hlt)]
      exact hfi.stopAligned

theorem mem_overlaps : part ∈ overlaps changed l ↔ part.1 ∈ l ∧ ∃ h : part.1.range.overlaps changed,
      part.2 = part.1.overlapWith changed h := by
  induction l with
  | nil => simp [overlaps]
  | cons area rest ih =>
    unfold overlaps
    split_ifs with hme
    · rw [mem_cons, ih, mem_cons]
      constructor
      · rintro (rfl | ⟨hmem, hp⟩)
        · exact ⟨.inl rfl, hme, rfl⟩
        · exact ⟨.inr hmem, hp⟩
      · rintro ⟨rfl | hmem, hp, heq⟩
        · exact .inl (Prod.ext rfl heq)
        · exact .inr ⟨hmem, hp, heq⟩
    · rw [ih, mem_cons]
      constructor
      · exact fun ⟨hmem, hp⟩ => ⟨.inr hmem, hp⟩
      · rintro ⟨rfl | hmem, hp, heq⟩
        · exact absurd hp hme
        · exact ⟨hmem, hp, heq⟩

/-- The parts cover what the areas have of the range. -/
theorem overlaps_cover : (∃ part ∈ overlaps changed l, part.2.contains a) ↔
      changed.contains a ∧ ∃ area ∈ l, area.range.contains a := by
  constructor
  · rintro ⟨part, hp, ha⟩
    obtain ⟨hmem, hme, heq⟩ := mem_overlaps.mp hp
    rw [heq] at ha
    have ha := contains_iff.mp ha
    simp only [overlapWith] at ha
    exact ⟨contains_iff.mpr (by omega), part.1, hmem, contains_iff.mpr (by omega)⟩
  · rintro ⟨hchg, area, hmem, har⟩
    have hchg := contains_iff.mp hchg
    have har := contains_iff.mp har
    have hme : area.range.overlaps changed := overlaps_iff.mpr (by omega)
    refine ⟨(area, area.overlapWith changed hme), mem_overlaps.mpr ⟨hmem, hme, rfl⟩, ?_⟩
    refine contains_iff.mpr ?_
    simp only [overlapWith]
    omega

theorem retainOutside_isSome (h : WellFormed bounds areas) (hspl : validateSplitOffsets areas changed = .ok ()) :
    ∃ kept, retainOutside areas changed = some kept := by
  have hso : ∀ area ∈ values areas, (retained changed area).isSome := by
    intro area har
    unfold retained
    split_ifs with hme
    · obtain ⟨hbef, hbeh⟩ := validateSplitOffsets_ok hspl har hme
      obtain ⟨left, hle⟩ := isSome_iff_exists.mp hbef
      obtain ⟨right, hrt⟩ := isSome_iff_exists.mp hbeh
      rw [hle, hrt]
      rfl
    · rfl
  obtain ⟨parts, hps⟩ := splitAll_some hso
  have hti := splitAll_tiled hps h.tiled fun area har here hh =>
    ((h.tiled.fine area har).retained hh).1
  unfold retainOutside
  rw [hps]
  show ∃ kept, (parts.foldlM insertArea .empty >>= fun kept => some (mergedAreaMap kept)) = some kept
  rw [foldlM_insertArea isTree_empty hti]
  exact ⟨_, rfl⟩

end Unmapping

section Operations
variable {start size : Nat} {E : XStop → Vm arch ι → Prop} {sp : VmSpace arch} {areas : AreaMap}
  {changed : VirtAddrRange}

section Steps
variable {α β : Type} {E : XStop → Vm arch ι → Prop} {Q : β → Vm arch ι → Prop} {f : α → VProg arch ι β}

omit [Fintype ι] [DecidableEq ι] in
theorem ofExcept_bind {r : Except XError α} (hE : ∀ e, E (.error e) v)
    (hf : ∀ a, r = .ok a → Runs v (f a) Q E) : Runs v (ofExcept r >>= f) Q E := by
  cases r with
  | ok a => exact hf a rfl
  | error e => exact fun t ht => ht ▸ hE e

omit [Fintype ι] [DecidableEq ι] in
theorem ofOption_bind {r : Option α} {a : α} (hr : r = some a)
    (hf : Runs v (f a) Q E) : Runs v (ofOption r >>= f) Q E := by
  rw [hr]
  exact hf

end Steps

theorem Accepted.pages (h : Accepted r start size .size4K) :
    start < start + size ∧ (start + size) % frameSize = 0 :=
  ⟨Nat.lt_add_of_pos_right (Nat.pos_of_ne_zero h.nonempty), Nat.mod_eq_zero_of_dvd
    (Nat.dvd_add (Nat.dvd_of_mod_eq_zero h.startAligned) (Nat.dvd_of_mod_eq_zero h.sizeAligned))⟩

/-- The parts of the areas in a range that may be split. -/
theorem Sits.parts (h : Sits w held i sps v) (hchg : changed.start < changed.stop)
    (hspl : validateSplitOffsets v.space.areas changed = .ok ())
    (hp : part ∈ overlaps changed (values v.space.areas)) :
    part.1 ∈ values v.space.areas ∧ part.1.Backed w.frames ∧ part.1.IsPart part.2 := by
  obtain ⟨hmem, hme, heq⟩ := mem_overlaps.mp hp
  obtain ⟨hbef, hbeh⟩ := validateSplitOffsets_ok hspl hmem hme
  exact ⟨hmem, h.backed _ hmem, heq ▸ (h.formed.tiled.fine _ hmem).overlap hchg hme hbef hbeh⟩

/-- **Unmapping** fails before anything is changed, or not at all. -/
theorem unmap_spec (h : Sits w held i sps v) :
    Runs v (unmap i start size) (fun _ t => ∃ w', Sits w' held i sps t)
      (fun e t => e ≠ .panic ∧ t = v) := by
  refine .get_bind (ofExcept_bind (fun e => ⟨nofun, rfl⟩) fun removed hrem => ?_)
  obtain ⟨rfl, hacc⟩ := validateRange_ok hrem
  refine ofExcept_bind (fun e => ⟨nofun, rfl⟩) fun _ hspl => ?_
  obtain ⟨hnem, hstp⟩ := hacc.pages
  obtain ⟨kept, hk⟩ := retainOutside_isSome h.formed hspl
  obtain ⟨hfo, hlk⟩ := retainOutside_wellFormed h.formed hk
  refine .bind (onMemory_total h.memory (unmapParts_spec _ (fun part hp => (h.parts hnem hspl hp).2.1)
      h.owned.balanced fun part hp => Good.erasable h (update_self ..) (h.parts hnem hspl hp).1
        (h.parts hnem hspl hp).2.2)
    (Q := fun _ t => ∃ m w', t = v.withMemory m ∧
      Erased w w' i (fun a => (fromStartSize start size).contains a) ∧ Inv w' m)
    fun _ m ⟨w', her, hm⟩ => ⟨m, w', rfl, her.widen ?_ ?_, hm⟩) fun _ => ?_
  · exact fun a ha => (overlaps_cover.mp ha).1
  · intro a ha hnot
    cases hl : w.view i a with
    | none => rfl
    | some found =>
      -- a leaf lies in an area, and so in one of the parts
      obtain ⟨area, har, hin, -⟩ := h.areaOf hl
      exact absurd (overlaps_cover.mpr ⟨ha, area, har, hin⟩) hnot
  · refine .start fun t ⟨m, w', ht, her, hm⟩ => ?_
    subst ht
    refine ofOption_bind hk (.modify_bind (.modify fun t ht => ?_))
    subst ht
    refine ⟨w', .ofUpdate (.shrunk h (update_self ..) her hm ⟨v.space.range, kept,
      v.space.writeGuards.filter fun e => !(fromStartSize start size).contains e.1⟩ rfl hfo
      (retainOutside_backed h.formed h.backed hk) (fun a loc hout hloc => ?_) fun a g hout hmem => ?_)⟩
    · rw [hlk, if_neg hout, hloc]
    · exact guard_kept hstp hout hmem

/-! ### All areas -/

omit [DecidableEq ι] in
/-- No leaf of a space lies outside its areas. -/
theorem Good.none_outside (h : Good w held k sps) (hsp : sps i = some sp)
    (hout : ¬ ∃ area ∈ values sp.areas, area.range.contains a) : w.view i a = none := by
  cases hl : w.view i a with
  | none => rfl
  | some found =>
    obtain ⟨space', loc, hsp', hloc, -⟩ := h.served i a found.1 found.2 hl
    cases hsp.symm.trans hsp'
    obtain ⟨area, har, hin, -⟩ := (lookup_eq_some (h.formed i sp hsp)).mp hloc
    exact absurd ⟨area, har, hin⟩ hout

theorem unmapAreas_spec {E : XStop → Memory arch ι → Prop} (areas : List VmArea)
    (hbk : ∀ area ∈ areas, area.Backed fs) (hbal : w.Balanced)
    (hera : ∀ area ∈ areas, Erasable w i area area.range)
    (hn : ∀ a, (¬ ∃ area ∈ areas, area.range.contains a) → w.view i a = none) :
    Triple (Inv w) (unmapAreas i areas) (fun _ m => ∃ w', Erased w w' i (fun _ => True) ∧ Inv w' m)
      E := by
  have hps : Triple (Inv w) ((areas.map fun area => (area, area.range)).forM fun part => part.1.unmap i part.2) _ E :=
    unmapParts_spec _ (forall_mem_map.mpr hbk) hbal (forall_mem_map.mpr hera)
  rw [List.forM_eq_forM, List.forM_map] at hps
  refine hps.post fun _ m ⟨w', her, hm⟩ => ⟨w', her.widen (fun _ _ => trivial) ?_, hm⟩
  intro a _ hnot
  refine hn a fun ⟨area, har, hin⟩ => hnot ⟨(area, area.range), List.mem_map_of_mem har, hin⟩

theorem Good.unmapAreas (h : Good w held k sps) (hsp : sps i = some sp)
    {E : XStop → Memory arch ι → Prop} :
    Triple (Inv w) (Vma.unmapAreas i (values sp.areas))
      (fun _ m => ∃ w', Erased w w' i (fun _ => True) ∧ Inv w' m) E :=
  unmapAreas_spec _ (h.backed i sp hsp) h.owned.balanced
    (fun area har => h.erasable hsp har ((h.formed i sp hsp).tiled.fine area har).isPart)
    fun _ hout => h.none_outside hsp hout

/-- All areas go, with their leaves and references. -/
theorem unmapUserAreas_spec (h : Sits w held i sps v) : Runs v (unmapUserAreas i)
      (fun _ t => ∃ w', Erased w w' i (fun _ => True) ∧ Sits w' held i sps t ∧ t.space.areas = .empty) (fun _ _ => False) := by
  refine .get_bind (.bind (onMemory_total h.memory (Good.unmapAreas h (update_self ..))
    (Q := fun _ t => ∃ m w', t = v.withMemory m ∧ Erased w w' i (fun _ => True) ∧ Inv w' m)
    fun _ m ⟨w', her, hm⟩ => ⟨m, w', rfl, her, hm⟩) fun _ => .modify fun t ⟨m, w', ht, her, hm⟩ => ?_)
  subst ht
  exact ⟨w', her, .ofUpdate (.shrunk h (update_self ..) her hm ⟨v.space.range, .empty, []⟩ rfl
    wellFormed_empty (fun _ h => absurd h List.not_mem_nil) (fun _ _ hout => absurd trivial hout)
    fun _ _ hout => absurd trivial hout), rfl⟩

/-! ### Protecting -/

section Protecting
variable {area : VmArea} {r : VirtAddrRange} {flags : MappingFlags}

/-- The flags that `protect` gives to a leaf. -/
structure Grants (guarded : Nat → Bool) (w : World ι) (area : VmArea) (flags : MappingFlags) (physical : Nat)
    (given : MappingFlags) : Prop where
  flags : flags.contains (MappingFlags.access given) = true
  alone : area.backing.isPrivate = true → given.write = true → w.refs physical = 1
  tracked : area.backing.requiresWriteGuard guarded = true → given.write = false

theorem Part.Works.weaken {start stop : Nat} {kind : FrameKind} {allowed allowed' : Nat → MappingFlags → Prop}
    {prog : Prog arch ι (List ProtectionChange)} (h : (⟨start, stop, kind, allowed, prog⟩ : Part arch ι).Works w i)
    (hal : ∀ phys given, allowed phys given → allowed' phys given) :
    (⟨start, stop, kind, allowed', prog⟩ : Part arch ι).Works w i := by
  intro hue hti hfr
  refine (h hue hti hfr).post fun cs m ⟨hue', hm, hpa⟩ => ⟨hue', hm, ?_⟩
  refine {hpa with inside := fun a lvl leaf hlow hhi hl => ?_}
  obtain ⟨given, new, hgv, hrs⟩ := hpa.inside a lvl leaf hlow hhi hl
  exact ⟨given, new, hal _ _ hgv, hrs⟩

open MappingFlags (withoutWrite)

/-- `VmArea.protect` gives no leaf a flag that it must not have. -/
theorem protect_works (h : Sits w held i sps v) (hbk : area.Backed w.frames) (flags : MappingFlags) :
    (⟨r.start, r.stop, area.kind, Grants v.kernel.guarded w area flags,
      area.protect i v.kernel.guarded r flags⟩ : Part arch ι).Works w i := by
  have hsum : r.start + r.size = r.stop := Nat.add_sub_cancel' r.le
  have hstd := Good.stored h i
  unfold VmArea.protect VmArea.kind
  unfold VmArea.Backed at hbk
  -- the four ways for frames of the allocator
  have hal : ∀ given, Grants v.kernel.guarded w area flags 0 given → (given.write → area.backing.isPrivate = false) →
      (⟨r.start, r.stop, .alloc, Grants v.kernel.guarded w area flags,
        protectAllocRange i r.start r.size given⟩ : Part arch ι).Works w i := by
    intro given hgr hsh
    have hwks : (⟨r.start, r.start + r.size, .alloc, fun _ given' => given' = given,
        protectAllocRange i r.start r.size given⟩ : Part arch ι).Works w i :=
      protectAllocRange_works h.memory h.owned.balanced hstd given
    rw [hsum] at hwks
    refine Part.Works.weaken hwks fun physical given' heq => heq ▸ ⟨hgr.flags, fun hpv hw => ?_, hgr.tracked⟩
    exact absurd hpv (ne_true_of_eq_false (hsh hw))
  have hpa : (⟨r.start, r.stop, .alloc, Grants v.kernel.guarded w area flags,
      (if !flags.write then protectAllocRange i r.start r.size flags
        else if area.backing.isPrivate then
          protectAllocRangeWith i r.start r.size fun exclusive =>
            if exclusive then flags else withoutWrite flags
        else if area.backing.requiresWriteGuard v.kernel.guarded then
          protectAllocRange i r.start r.size (withoutWrite flags)
        else protectAllocRange i r.start r.size flags)⟩ : Part arch ι).Works w i := by
    split
    next hw =>
      have hw : flags.write = false := by simpa using hw
      exact hal flags ⟨contains_access flags, fun _ hbit => absurd hbit (ne_true_of_eq_false hw),
        fun _ => hw⟩ fun hbit => absurd hbit (ne_true_of_eq_false hw)
    · split
      next hpv =>
        have hwks : (⟨r.start, r.start + r.size, .alloc, fun physical given => given =
              if w.refs physical == 1 then flags else withoutWrite flags,
            protectAllocRangeWith i r.start r.size fun exclusive =>
              if exclusive then flags else withoutWrite flags⟩ : Part arch ι).Works w i :=
          protectAllocRangeWith_works h.memory h.owned.balanced hstd _
        rw [hsum] at hwks
        refine Part.Works.weaken hwks fun physical given heq => ?_
        subst heq
        have hung : area.backing.requiresWriteGuard v.kernel.guarded = false := requiresWriteGuard_private hpv
        by_cases hone : w.refs physical = 1
        · rw [if_pos (beq_iff_eq.mpr hone)]
          exact ⟨contains_access flags, fun _ _ => hone, fun hnd => absurd hnd (ne_true_of_eq_false hung)⟩
        · rw [if_neg (mt beq_iff_eq.mp hone)]
          exact ⟨contains_withoutWrite flags, fun _ hw => absurd hw Bool.false_ne_true, fun _ => rfl⟩
      next hsh =>
        have hsh : area.backing.isPrivate = false := by simpa using hsh
        split
        · exact hal _ ⟨contains_withoutWrite flags, fun _ hw => absurd hw Bool.false_ne_true, fun _ => rfl⟩ fun _ => hsh
        next hung =>
          exact hal _ ⟨contains_access flags, fun hbit => absurd hbit (ne_true_of_eq_false hsh),
            fun hnd => absurd hnd hung⟩ fun _ => hsh
  cases hsrc : area.backing.source with
  | zero | object _ _ => exact hpa
  | static fs =>
    rw [hsrc] at hbk
    intro hue hti hfr
    show Triple _ (ofResult (fs.subrange (r.start - area.range.start) r.size) >>= _) _ _
    cases hsub : fs.subrange (r.start - area.range.start) r.size with
    | error e => exact fun m hm => ⟨XStop.error_ne_panic e, hm⟩
    | ok part =>
      have hz : part.size = r.size := by
        unfold StaticFrameRange.subrange at hsub
        split at hsub
        · rw [← Except.ok.inj hsub]
        · cases hsub
      have hwks : (⟨r.start, r.start + part.size, .static, fun _ given => given = flags,
          protectStaticRange i r.start part flags area.pageSize⟩ : Part arch ι).Works w i :=
        protectStaticRange_works h.memory h.owned.balanced hstd part flags
      rw [hz, hsum] at hwks
      refine Part.Works.weaken hwks (fun physical given heq => ?_) hue hti hfr
      rw [show given = flags from heq]
      refine ⟨contains_access flags, fun hpv => absurd hpv (ne_true_of_eq_false hbk.1), fun hnd => ?_⟩
      unfold Backing.requiresWriteGuard at hnd
      rw [hsrc, Bool.and_false] at hnd
      exact absurd hnd Bool.false_ne_true

theorem VmArea.Backed.checkedSlice_isSome (hbk : area.Backed fs) (hp : area.IsPart r)
    (flags : MappingFlags) : (area.checkedSlice r flags).isSome := by
  have hnem := hp.nonempty
  have hab := hp.above
  have hlo := hp.below
  have hz : r.size % area.pageSize.bytes = 0 :=
    Nat.mod_eq_zero_of_dvd (Nat.dvd_sub (Nat.dvd_of_mod_eq_zero hp.stopAligned)
      (Nat.dvd_of_mod_eq_zero hp.startAligned))
  have hco : area.range.containsRange r := VirtAddrRange.containsRange_iff.mpr ⟨hab, hlo⟩
  have har : area.range.size = area.range.stop - area.range.start := rfl
  have hrg : r.size = r.stop - r.start := rfl
  unfold VmArea.checkedSlice
  rw [hco, hp.startAligned, hz]
  unfold Backing.shifted
  unfold VmArea.Backed at hbk
  cases hsrc : area.backing.source with
  | zero => rfl
  | static physical =>
    rw [hsrc] at hbk
    have hins : 0 < r.size ∧ r.start - area.range.start + r.size ≤ physical.size := by omega
    simp only [StaticFrameRange.subrange, dif_pos hins]
    rfl
  | object id off =>
    rw [hsrc] at hbk
    have hins : off + (r.start - area.range.start) < 2 ^ 64 := by omega
    simp only [if_pos hins]
    rfl

theorem committedAreas_isSome (h : WellFormed bounds areas)
    (hbk : AllBacked fs (values areas)) (hchg : changed.start < changed.stop)
    (hspl : validateSplitOffsets areas changed = .ok ()) (flags : MappingFlags) :
    ∃ committed, committedAreas areas changed flags = some committed := by
  have hso : ∀ area ∈ values areas, (VmArea.recoloured changed flags area).isSome := by
    intro area har
    unfold VmArea.recoloured
    split_ifs with hme
    · obtain ⟨hbef, hbeh⟩ := validateSplitOffsets_ok hspl har hme
      have hp := (h.tiled.fine area har).overlap hchg hme hbef hbeh
      obtain ⟨left, hle⟩ := isSome_iff_exists.mp hbef
      obtain ⟨middle, hmid⟩ := isSome_iff_exists.mp ((hbk area har).checkedSlice_isSome hp flags)
      obtain ⟨right, hrt⟩ := isSome_iff_exists.mp hbeh
      rw [hle, hmid, hrt]
      rfl
    · rfl
  obtain ⟨parts, hps⟩ := splitAll_some hso
  unfold committedAreas
  rw [hps]
  exact ⟨_, rfl⟩

theorem overlaps_ordered (h : Tiled bounds l) :
    (overlaps changed l).Pairwise fun a b => a.2.stop ≤ b.2.start := by
  induction l with
  | nil => exact .nil
  | cons area rest ih =>
    obtain ⟨-, hbeh, hrs⟩ := tiled_cons.mp h
    unfold overlaps
    split
    · refine .cons (fun part hp => ?_) (ih hrs)
      obtain ⟨hmem, hme, heq⟩ := mem_overlaps.mp hp
      have := hbeh part.1 hmem
      rw [heq]
      simp only [overlapWith]
      omega
    · exact ih hrs

/-- **Flags change**, and with them the areas. -/
theorem Good.tinted (h : Good w held k sps) (hsp : sps i = some sp)
    {hue : Nat → Option MappingFlags} (hm : Inv (w.tint i hue) m) (space' : VmSpace arch)
    (hrg : space'.range = sp.range) (hfo : space'.Formed) (hbk : AllBacked w.frames (values space'.areas))
    (hst : ∀ a lvl leaf loc, hue a = none → w.view i a = some (lvl, leaf) →
      lookup sp.areas a = some loc → lookup space'.areas a = some loc ∧
        ∀ g, (a - a % frameSize, g) ∈ sp.writeGuards → (a - a % frameSize, g) ∈ space'.writeGuards)
    (hnew : ∀ a flags lvl leaf, hue a = some flags → w.view i a = some (lvl, leaf) → arch.stored flags = flags ∧
      ∃ loc, lookup space'.areas a = some loc ∧
        Serves k.guarded w space'.writeGuards a loc lvl {leaf with flags := flags}) :
    Good (w.tint i hue) held (k.withMemory m) (update sps i (some space')) := by
  refine h.changeAt hsp hm ⟨h.owned.balanced, h.owned.handles⟩ rfl rfl (spares_of_eq rfl) hrg hfo hbk
    fun j a lvl leaf hl => ?_
  by_cases hj : j = i
  · subst hj
    rw [World.tint_view] at hl
    obtain ⟨⟨level', old⟩, hold, heq⟩ := Option.map_eq_some_iff.mp hl
    obtain ⟨rfl, rfl⟩ := Prod.mk.inj heq
    cases hhue : hue a with
    | none => exact .inl ⟨hold, fun _ loc => hst a level' old loc hhue hold⟩
    | some flags =>
      obtain ⟨hstd, loc, hloc, hsv⟩ := hnew a flags level' old hhue hold
      exact .inr ⟨rfl, hstd, loc, hloc, hsv.level, hsv.kind, hsv.static, hsv.flags,
        hsv.alone, hsv.tracked⟩
  · refine .inl ⟨?_, fun heq => absurd heq hj⟩
    simpa only [World.tint, update_of_ne hj] using hl

/-- An error that leaves the leaves, the references, the areas and the guards as they were. -/
def Untouched (w : World ι) (v : Vm arch ι) (e : XStop) (t : Vm arch ι) : Prop :=
  e ≠ .panic ∧ ∃ m, t = v.withMemory m ∧ Inv w m

/-- **Protecting** changes all leaves of the range and the areas, or nothing. -/
theorem protect_spec (h : Sits w held i sps v) (flags : MappingFlags) :
    Runs v (protect i start size flags) (fun _ t => ∃ w', Sits w' held i sps t) (Untouched w v) := by
  have hfl : ∀ e, Untouched w v (.error e) v := fun e => ⟨nofun, v.kernel.memory, rfl, h.memory⟩
  refine .get_bind (ofExcept_bind hfl fun changed hchg => ?_)
  obtain ⟨rfl, hacc⟩ := validateRange_ok hchg
  split
  · refine ofExcept_bind hfl fun _ hspl => ?_
    obtain ⟨hnem, hstp⟩ := hacc.pages
    obtain ⟨committed, hcom⟩ := committedAreas_isSome h.formed h.backed hnem hspl flags
    obtain ⟨hfo, hlk⟩ := committedAreas_wellFormed h.formed hnem hcom
    refine ofOption_bind hcom ?_
    have hwks : ∀ part ∈ (overlaps (.fromStartSize start size) (values v.space.areas)).map
        fun part => (⟨part.2.start, part.2.stop, part.1.kind, Grants v.kernel.guarded w part.1 flags,
          part.1.protect i v.kernel.guarded part.2 flags⟩ : Part arch ι), part.Works w i :=
      forall_mem_map.mpr fun part hp => protect_works h (h.parts hnem hspl hp).2.1 flags
    have hrun := run_spec hwks (List.pairwise_map.mpr (overlaps_ordered h.formed.tiled))
    rw [List.map_map] at hrun
    refine .next (onMemory_spec h.memory hrun (Q := fun _ t => ∃ m hue, t = v.withMemory m ∧
        Inv (w.tint i hue) m ∧ Coloured arch w i _ (fun _ => none) hue)
      (fun _ m ⟨hue, hm, hcol⟩ => ⟨m, hue, rfl, hm, hcol⟩) fun e m hm => ⟨hm.1, m, rfl, hm.2⟩) fun _ t ⟨m, hue, ht, hm, hcol⟩ => ?_
    subst ht
    refine .modify_bind (.modify fun t ht => ?_)
    subst ht
    have hco : ∀ a, hue a ≠ none → (fromStartSize start size).contains a := by
      intro a hso
      by_contra hout
      refine hso (hcol.outside a (forall_mem_map.mpr fun part hp hin => hout ?_))
      exact (overlaps_cover.mp ⟨part, hp, contains_iff.mpr hin⟩).1
    refine ⟨_, .ofUpdate (.tinted h (update_self ..) hm ⟨v.space.range, committed,
      v.space.writeGuards.filter fun e => !(fromStartSize start size).contains e.1⟩ rfl hfo
      (committedAreas_backed h.formed h.backed hnem hcom) (fun a level leaf loc hhue hl hloc => ?_)
      fun a new level leaf hhue hl => ?_)⟩
    · -- a leaf with its old flags lies outside of the range
      have hout : ¬ (fromStartSize start size).contains a := by
        intro hin
        obtain ⟨area, har, hh, -⟩ := h.areaOf hl
        obtain ⟨part, hp, ha⟩ := overlaps_cover.mpr ⟨hin, area, har, hh⟩
        have ha := contains_iff.mp ha
        obtain ⟨given, new, -, -, hso⟩ := hcol.inside _ (List.mem_map_of_mem hp) a level leaf ha.1 ha.2 hl
        cases hhue.symm.trans hso
      refine ⟨?_, fun g hg => guard_kept hstp hout hg⟩
      rw [hlk, hloc, map_some, Location.recoloured, if_neg hout]
    · have hin := hco a fun hn => nomatch hn.symm.trans hhue
      obtain ⟨area, har, hh, hsv⟩ := h.areaOf hl
      obtain ⟨part, hp, ha⟩ := overlaps_cover.mpr ⟨hin, area, har, hh⟩
      have hins := contains_iff.mp ha
      obtain ⟨given, stored, hgr, hgv, hso⟩ :=
        hcol.inside _ (List.mem_map_of_mem hp) a level leaf hins.1 hins.2 hl
      cases hhue.symm.trans hso
      obtain ⟨hmem, -, his⟩ := h.parts hnem hspl hp
      have hth : part.1.range.contains a :=
        contains_iff.mpr ⟨his.above.trans hins.1, hins.2.trans_le his.below⟩
      have hsm : part.1 = area := Option.some.inj (((areaAt_eq_some h.formed).mpr ⟨hmem, hth⟩).symm.trans
        ((areaAt_eq_some h.formed).mpr ⟨har, hh⟩))
      rw [hsm] at hgr hgv
      obtain ⟨hac, hw⟩ := pteFlags_access hgv
      have hloc : lookup v.space.areas a = some (area.locate a) :=
        (lookup_eq_some h.formed).mpr ⟨area, har, hh, rfl⟩
      refine ⟨stored_stored arch stored, {area.locate a with flags := flags}, ?_, hsv.level, ?_, hsv.static,
        contains_trans hgr.flags hac, fun hpv hbit => ?_, fun hnd hbit => ?_⟩
      · rw [hlk, hloc, map_some, Location.recoloured, if_pos hin]
      · exact area.locate_kind a (pteFlags_kind hgv)
      · refine ⟨?_, hgr.alone hpv (hw hbit)⟩
        rw [area.locate_kind a (pteFlags_kind hgv), (h.backed area har).notStatic a hpv]
        rfl
      · have hun := hgr.tracked ((locate_needsGuard v.kernel.guarded area a).symm.trans hnd)
        exact nomatch hun.symm.trans (hw hbit)
  · exact fun t ht => ht ▸ hfl _

end Protecting

/-! ### Mapping -/

section Mapping
variable {area : VmArea} {flags : MappingFlags} {b : Backend}

omit [Fintype ι] [DecidableEq ι] in
/-- Static frames are not the allocator's. -/
theorem foreign_of_sound {mem : Memory arch ι} (hfs : ∀ p, mem.inDatabase p = fs p)
    {r : StaticFrameRange} {ps : PageSize}
    (hso : (Backend.staticFrames r ps).isSound mem) :
    Foreign fs r.start r.size := by
  intro off hoff
  rw [← hfs]
  have hbo : r.start + r.size ≤ mem.base ∨ mem.base + mem.frameCount * frameSize ≤ r.start := by
    simpa [Backend.isSound] using hso
  cases hin : mem.inDatabase (r.start + off - (r.start + off) % frameSize) with
  | false => rfl
  | true =>
    simp only [Memory.inDatabase, Bool.and_eq_true, decide_eq_true_eq] at hin
    obtain ⟨⟨hlow, -⟩, hhi⟩ := hin
    obtain hlo | hab := hbo
    · omega
    · have hal : (mem.base + mem.frameCount * frameSize) % frameSize = 0 := by
        rw [Nat.add_mul_mod_self_right, mem.aligned]
      have hpa := page_le (hab.trans (Nat.le_add_right r.start off)) hal
      have hhi := Nat.lt_mul_of_div_lt hhi (by decide)
      omega

omit [Fintype ι] [DecidableEq ι] in
theorem Backend.backed {memory : Memory arch ι} (hfs : ∀ p, memory.inDatabase p = fs p)
    (hso : b.isSound memory) {pageSize : PageSize} {backing : Backing} {populate : Bool}
    (hpr : b.prepare size = .ok (pageSize, backing, populate)) :
    (⟨.fromStartSize start size, flags, pageSize, backing⟩ : VmArea).Backed fs := by
  have hz : (fromStartSize start size).size = size := Nat.add_sub_cancel_left start size
  unfold Backend.prepare at hpr
  cases b with
  | staticFrames r _ =>
    dsimp only at hpr
    split at hpr
    · cases hpr
    next heq =>
      obtain ⟨rfl, rfl, rfl⟩ := by simpa using hpr
      exact ⟨rfl, by rw [hz]; exact not_not.mp heq, foreign_of_sound hfs hso⟩
  | anonymous populate =>
    obtain ⟨rfl, rfl, rfl⟩ := by simpa using hpr
    exact ⟨rfl, rfl⟩
  | object id off isPrivate populate =>
    dsimp only at hpr
    split at hpr
    · cases hpr
    next hva =>
      obtain ⟨rfl, rfl, rfl⟩ := by simpa using hpr
      refine ⟨rfl, ?_, ?_⟩
      · by_contra hoff
        exact hva (.inl hoff)
      · show off + (fromStartSize start size).size < 2 ^ 64
        omega

/-- The leaves of a new area are there. -/
structure Mapped (arch : Arch) (w w' : World ι) (i : ι) (area : VmArea) : Prop where
  ranges : w'.ranges = w.ranges
  handles : w'.handles = w.handles
  refs : w'.refs = w.refs
  mapped : w'.mapped = w.mapped
  frames : w'.frames = w.frames
  other : ∀ j a, ¬ (j = i ∧ area.range.contains a = true) → w'.view j a = w.view j a
  new : ∀ a level leaf, area.range.contains a = true → w'.view i a = some (level, leaf) →
    arch.stored leaf.flags = leaf.flags ∧ ∀ guarded guards, Serves guarded w' guards a (area.locate a) level leaf

omit [Fintype ι] [DecidableEq ι] in
theorem mapped_none (hfr : ∀ a, area.range.contains a → w.view i a = none) : Mapped arch w w i area :=
  ⟨rfl, rfl, rfl, rfl, rfl, fun _ _ _ => rfl, fun a _ _ hin hl => nomatch (hfr a hin).symm.trans hl⟩

/-- **The leaves of a static area** have what the area says. -/
theorem mapStaticRange_mapped {r : StaticFrameRange} (hsrc : area.backing.source = .static r)
    (hbk : area.Backed w.frames) :
    Triple (Inv w) (mapStaticRange i area.range.start r area.flags area.pageSize : Prog arch ι Unit)
      (fun _ m => ∃ w', Mapped arch w w' i area ∧ Inv w' m) (fun e m => e ≠ .panic ∧ Inv w m) := by
  unfold VmArea.Backed at hbk
  rw [hsrc] at hbk
  obtain ⟨hsh, hz, hfor⟩ := hbk
  have hstp : area.range.start + r.size = area.range.stop := by
    rw [hz]
    exact Nat.add_sub_cancel' area.range.le
  have hst : ∀ a, (area.locate a).origin.isStatic := by
    intro a
    unfold locate Source.at
    rw [hsrc]
    rfl
  refine (mapStaticRange_spec fun code m hm => ⟨XStop.error_ne_panic code, hm⟩).post fun _ m ⟨leafFlags, hgv, _, hfi, _, hm⟩ => ?_
  obtain ⟨hac, hw⟩ := pteFlags_access hgv
  rw [hstp] at hm
  refine ⟨w.paint i area.range.start area.range.stop (staticLeaf area.range.start r.start area.pageSize
    (arch.stored leafFlags)) area.pageSize, ⟨rfl, rfl, rfl, rfl, rfl, fun j a hout => ?_, fun a lvl leaf hin hl => ?_⟩, hm⟩
  · simp only [World.paint]
    by_cases hj : j = i
    · subst hj
      rw [update_self, if_neg fun hin => hout ⟨rfl, contains_iff.mpr hin⟩]
    · rw [update_of_ne hj]
  · have hin := contains_iff.mp hin
    simp only [World.paint, update_self, if_pos hin] at hl
    cases hl
    have hki := fromFlags_static.mp (pteFlags_kind hgv)
    refine ⟨stored_stored arch leafFlags, fun guarded guards => ⟨rfl, ?_, fun _ => ?_, ?_, fun hpv => ?_, fun hnd => ?_⟩⟩
    · rw [hst]
      exact hki
    · -- the page of the leaf lies inside the range
      refine hfor.part ?_
      have hpa : (a - area.range.start - (a - area.range.start) % area.pageSize.bytes) % area.pageSize.bytes = 0 :=
        Nat.mod_eq_zero_of_dvd (Nat.dvd_sub_mod _)
      exact aligned_le area.pageSize hpa hfi.sizeAligned (by omega)
    · exact contains_trans (contains_access area.flags) hac
    · exact absurd hpv (ne_true_of_eq_false hsh)
    · rw [locate_needsGuard, Backing.requiresWriteGuard, hsrc, Bool.and_false] at hnd
      exact absurd hnd Bool.false_ne_true

theorem VmArea.map_spec (hbk : area.Backed w.frames)
    (hfr : ∀ a, area.range.contains a → w.view i a = none) :
    Triple (Inv w) (area.map i : Prog arch ι Unit) (fun _ m => ∃ w', Mapped arch w w' i area ∧ Inv w' m)
      (fun e m => e ≠ .panic ∧ Inv w m) := by
  unfold VmArea.map
  cases hsrc : area.backing.source with
  | static r => exact mapStaticRange_mapped hsrc hbk
  | zero | object _ _ => exact .pure fun m hm => ⟨w, mapped_none hfr, hm⟩

/-- **An area comes**, with its leaves. -/
theorem Good.grown (h : Good w held k sps) (hsp : sps i = some sp)
    (hmap : Mapped arch w w' i area) (hm : Inv w' m) (hfi : area.Fine sp.virtRange)
    (hap : ∀ b ∈ values sp.areas, b.range.overlaps area.range = false) (hbk : area.Backed w.frames) :
    Good w' held (k.withMemory m)
      (update sps i (some {sp with areas := sp.areas.insert area.range.start area})) := by
  have hfo := h.formed i sp hsp
  obtain ⟨hfo', hlk⟩ := hfo.insert hfi hap
  have hod : w'.Owned (held ++ k.frames) := by
    refine ⟨fun p => ?_, fun p => ?_⟩
    · rw [hmap.refs, hmap.handles, hmap.mapped]
      exact h.owned.balanced p
    · rw [hmap.handles]
      exact h.owned.handles p
  refine h.changeAt hsp hm hod hmap.ranges hmap.frames (spares_of_eq hmap.refs) rfl hfo'
    (fun b hb => ?_) fun j a level leaf hl => ?_
  · obtain rfl | hb := (hfo.mem_insert hfi hap).mp hb
    · exact hbk
    · exact h.backed i sp hsp b hb
  · by_cases hnew : j = i ∧ area.range.contains a
    · obtain ⟨rfl, hin⟩ := hnew
      obtain ⟨hstd, hsv⟩ := hmap.new a level leaf hin hl
      refine .inr ⟨rfl, hstd, area.locate a, ?_, hsv _ _⟩
      rw [hlk, if_pos hin]
    · refine .inl ⟨(hmap.other j a hnew).symm.trans hl, ?_⟩
      rintro rfl loc hloc
      refine ⟨?_, fun _ hg => hg⟩
      rw [hlk, if_neg fun hin => hnew ⟨rfl, hin⟩, hloc]

/-- What is left of a mapping that could not be populated: no leaf and no area, but the guards that
were recorded on the way. -/
def Undone (i : ι) (spaces : ι → Option (VmSpace arch)) (held : List Frame) (w : World ι) (v t : Vm arch ι) : Prop :=
  ∃ w', Sits w' held i spaces t ∧ w'.view = w.view ∧ SameAreas v t

/-- Taking a new area back with all its leaves. -/
theorem undoMap_spec (h : Sits w held i sps v)
    (hfo : WellFormed v.space.virtRange areas) (hfi : area.Fine v.space.virtRange)
    (hap : ∀ b ∈ values areas, b.range.overlaps area.range = false) (hbk : AllBacked w.frames (values areas))
    (hars : v.space.areas = areas.insert area.range.start area) :
    Runs v (undoMap i area.range.start area.range)
      (fun _ t => ∃ w' m, t = {v.withMemory m with space.areas := areas} ∧
        Erased w w' i (fun a => area.range.contains a) ∧ Sits w' held i sps t) E := by
  obtain ⟨-, hlk⟩ := hfo.insert hfi hap
  have hget : v.space.areas.get? area.range.start = some area := by
    rw [hars, SortedMap.get?_insert, if_pos rfl]
  have hee : v.space.areas.erase area.range.start = areas := by
    rw [hars]
    exact (insertArea_some (hfo.insertArea_eq hfi hap)).2
  have hmem : area ∈ values v.space.areas := by
    rw [hars]
    exact (hfo.mem_insert hfi hap).mpr (.inl rfl)
  refine .get_bind (ofOption_bind hget (.modify_bind ?_))
  rw [hee]
  have hunm : Triple (Inv w) (area.unmap i area.range : Prog arch ι Unit) _ fun _ _ => False :=
    VmArea.unmap_spec (h.backed area hmem) h.owned.balanced
      (Good.erasable h (update_self ..) hmem hfi.isPart)
  refine onMemory_total h.memory (expect_spec hunm) fun _ m ⟨w', her, hm⟩ => ⟨w', m, rfl, her, ?_⟩
  refine .ofUpdate (.shrunk h (update_self ..) her hm {v.space with areas := areas} rfl
    hfo hbk (fun a loc hout hloc => ?_) fun _ _ _ hg => hg)
  rw [hars, hlk, if_neg hout] at hloc
  exact hloc

/-- The state of a new area that is yet to be populated. -/
structure Added (i : ι) (spaces : ι → Option (VmSpace arch)) (start size : Nat) (held : List Frame) (w : World ι)
    (v : Vm arch ι) (w' : World ι) (t : Vm arch ι) (area : VmArea) : Prop where
  sits : Sits w' held i spaces t
  within : Within i start (start + size) w w'
  state : ∃ m, t = {v.withMemory m with space.areas := v.space.areas.insert area.range.start area}
  range : area.range = .fromStartSize start size
  fine : area.Fine v.space.virtRange
  apart : ∀ b ∈ values v.space.areas, b.range.overlaps area.range = false

omit [DecidableEq ι] in
/-- There is nothing yet where an area is added. -/
theorem Good.free (h : Good w held k sps) (hsp : sps i = some sp)
    (hap : ∀ b ∈ values sp.areas, b.range.overlaps area.range = false) (hin : area.range.contains a) :
    w.view i a = none := by
  refine h.none_outside hsp fun ⟨b, hb, hbin⟩ => ?_
  have := VirtAddrRange.overlaps_false_iff.mp (hap b hb)
  have := contains_iff.mp hin
  have := contains_iff.mp hbin
  omega

section
variable (h : Sits w held i sps v)
include h

/-- **A new area is taken back** with its leaves, whatever of it has been populated. -/
theorem Added.undone {w₁ w₂ : World ι} {v₁ t : Vm arch ι} (had : Added i sps start size held w v w₁ v₁ area)
    (hwk : Worked i sps start (start + size) held w₁ v₁ w₂ t) :
    Runs t (undoMap i start (.fromStartSize start size)) (fun _ => Undone i sps held w v) E := by
  obtain ⟨m₁, hsta⟩ := had.state
  have hrg := had.range
  have hsm := hwk.same
  rw [hsta] at hsm
  have hvi : t.space.virtRange = v.space.virtRange := by
    unfold VmSpace.virtRange
    rw [hsm.1]
    rfl
  have hfs := hwk.within.frames.trans had.within.frames
  have hun := undoMap_spec (E := E) hwk.sits
    (hvi ▸ h.formed) (hvi ▸ had.fine) had.apart (hfs ▸ h.backed) hsm.2
  rw [hrg] at hun
  refine hun.post fun _ u ⟨w₃, m₃, hu, her, hsi⟩ => ⟨w₃, hsi, ?_, ?_⟩
  · funext j a
    by_cases hin : j = i ∧ area.range.contains a
    · obtain ⟨rfl, hin⟩ := hin
      rw [her.gone a (hrg ▸ hin), Good.free h (update_self ..) had.apart hin]
    · have hout : ¬ (j = i ∧ start ≤ a ∧ a < start + size) := fun hbo =>
        hin ⟨hbo.1, hrg ▸ contains_iff.mpr hbo.2⟩
      rw [her.kept j a (hrg ▸ hin), hwk.within.view j a hout, had.within.view j a hout]
  · rw [hu]
    exact ⟨hsm.1, rfl⟩

/-- **Mapping** adds the area with its leaves, or neither. -/
theorem map_spec (hso : b.isSound v.kernel.memory) :
    Runs v (map i start size flags b) (fun _ t => ∃ w', Sits w' held i sps t)
      (Fails (Undone i sps held w v)) := by
  have hfl : ∀ e m, e ≠ .panic → Inv w m → Fails (Undone i sps held w v) e (v.withMemory m) := fun e m he hm =>
    .inl ⟨he, w, .sameWorld h hm, rfl, sameAreas_self v⟩
  have hfl' : ∀ e, Fails (Undone i sps held w v) (.error e) v := fun e => hfl _ _ (XStop.error_ne_panic e) h.memory
  refine .get_bind (ofExcept_bind hfl' fun prepared hpr => ?_)
  obtain ⟨pageSize, backing, populate⟩ := prepared
  refine ofExcept_bind hfl' fun r hrg => ?_
  obtain ⟨rfl, hacc, hap⟩ := validateNewArea_ok hrg
  have hbk : (⟨.fromStartSize start size, flags, pageSize, backing⟩ : VmArea).Backed w.frames :=
    Backend.backed h.memory.frames hso hpr
  have hfi := hacc.fine flags backing
  refine .next (onMemory_spec h.memory (VmArea.map_spec hbk fun a hin => Good.free h (update_self ..) hap hin)
    (Q := fun _ t => ∃ m w', t = v.withMemory m ∧ Mapped arch w w' i _ ∧ Inv w' m)
    (fun _ m ⟨w', hmap, hm⟩ => ⟨m, w', rfl, hmap, hm⟩) fun e m hm => hfl e m hm.1 hm.2) fun _ t ⟨m, w', ht, hmap, hm⟩ => ?_
  subst ht
  refine ofOption_bind (h.formed.insertArea_eq hfi hap) (.modify_bind ?_)
  have had : Added i sps start size held w v w' {v.withMemory m with space.areas := _} ⟨_, flags, pageSize, backing⟩ :=
    ⟨.ofUpdate (.grown h (update_self ..) hmap hm hfi hap hbk),
      ⟨fun j a hout => hmap.other j a fun hin => hout ⟨hin.1, contains_iff.mp hin.2⟩, hmap.frames⟩, ⟨m, rfl⟩, rfl, hfi, hap⟩
  cases populate with
  | false => exact .stay ⟨w', had.sits⟩
  | true =>
    refine .bind (populateArea_spec had.sits start size flags).attempt fun r => ?_
    match r with
    | .ok _ => exact .pure fun t ⟨w', ht⟩ => ⟨w', ht.sits⟩
    | .error .panic =>
      refine .throw fun t ht => ?_
      obtain ⟨hpa, -⟩ | hst := ht
      · exact absurd rfl hpa
      · exact .inr hst
    | .error (.error e) =>
      refine .start fun t ht => ?_
      obtain ⟨-, w₂, hwk⟩ | ⟨hpa, -⟩ := ht
      · exact (had.undone h hwk).bind fun _ => .throw fun u hu => .inl ⟨XStop.error_ne_panic e, hu⟩
      · exact absurd hpa (XStop.error_ne_panic e)

end

end Mapping

/-! ### Invalidation -/

section Invalidation
variable {area : VmArea} {bounds : VirtAddrRange} {id first last : Nat}

/-- The page of an object that an offset lies in meets a range of the object. -/
def MeetsRange (first last offset : Nat) : Prop :=
  offset - offset % frameSize < last ∧ first < offset - offset % frameSize + frameSize

/-- An address of an area whose page of the object meets a range of it. -/
def VmArea.Hit (area : VmArea) (id first last a : Nat) : Prop :=
  area.range.contains a = true ∧ first < last ∧ ∃ offset, (area.locate a).origin = .object id offset ∧ MeetsRange first last offset

def VmSpace.Hit (space : VmSpace arch) (id first last a : Nat) : Prop :=
  ∃ area ∈ values space.areas, area.Hit id first last a

/-- The addresses that are invalidated: a part of the area, of just the pages that meet the range. -/
theorem invalidatedRange_spec (hfi : area.Fine bounds) (hbk : area.Backed fs)
    (hlow : area.range.stop < 2 ^ 63) (id : Nat) :
    ∃ r, invalidatedRange area id first last = some r ∧ (∀ part, r = some part → area.IsPart part) ∧
      ∀ a, (∃ part, r = some part ∧ part.contains a) ↔ area.Hit id first last a := by
  have hn : ∀ part, none = some part → area.IsPart part :=
    fun part hp => absurd hp.symm (Option.some_ne_none part)
  unfold invalidatedRange Backing.objectAt VmArea.Hit
  unfold VmArea.Backed at hbk
  cases hsrc : area.backing.source with
  | zero | static _ => exact ⟨none, rfl, hn, fun a => by simp [locate, Source.at, hsrc]⟩
  | object object base =>
    rw [hsrc] at hbk
    obtain ⟨hz, hba, hbo⟩ := hbk
    have hby : area.pageSize.bytes = 4096 := by rw [hz]; rfl
    have hfm : frameSize = 4096 := rfl
    have har : area.range.size = area.range.stop - area.range.start := rfl
    have hst := hfi.startAligned
    have hstp := hfi.stopAligned
    rw [hby] at hst hstp
    rw [hfm] at hba
    have hor : ∀ a off, (area.locate a).origin = .object id off ↔
        object = id ∧ base + (a - area.range.start) = off := by
      simp [locate, Source.at, hsrc]
    dsimp only
    rw [if_pos (by omega), Nat.add_zero]
    dsimp only
    by_cases hid : object = id
    · rw [if_neg (not_not.mpr hid), if_neg (by omega)]
      simp only [hor, hid, true_and, contains_iff, MeetsRange, hfm]
      by_cases hem : min (base + area.range.size) last ≤ max base first
      · rw [if_pos hem]
        refine ⟨none, rfl, hn, fun a => ⟨by simp, fun h => ?_⟩⟩
        -- no page of the area meets the range
        omega
      · rw [if_neg hem, if_neg (by omega)]
        have hle : area.range.start + (max base first - base) -
              (area.range.start + (max base first - base)) % 4096 ≤
            min ((area.range.start + (min (base + area.range.size) last - base) + (4096 - 1)) % 2 ^ 64 /
              4096 * 4096) area.range.stop := by omega
        rw [dif_pos hle]
        refine ⟨_, rfl, fun part hp => ?_, fun a => ?_⟩
        · cases hp
          constructor
          all_goals
            simp only [hby]
            omega
        · simp only [Option.some.injEq, exists_eq_left']
          omega
    · rw [if_pos hid]
      exact ⟨none, rfl, hn, fun a => by simp [hor, hid]⟩

/-- The addresses of an object's range in a list of areas. -/
def Invalidated (areas : List VmArea) (id first last a : Nat) : Prop :=
  ∃ area ∈ areas, ∃ part, invalidatedRange area id first last = some (some part) ∧ part.contains a = true

/-- What an invalidation leaves: the leaves and guards of a set of addresses are gone. -/
structure Cleared (i : ι) (spaces : ι → Option (VmSpace arch)) (held : List Frame) (S : Nat → Prop) (w : World ι)
    (v : Vm arch ι) (w' : World ι) (t : Vm arch ι) : Prop where
  sits : Sits w' held i spaces t
  erased : Erased w w' i S
  state : ∃ m guards, t = {v.withMemory m with space.writeGuards := guards}
  guards : ∀ e, e ∈ t.space.writeGuards ↔ e ∈ v.space.writeGuards ∧ ¬ S e.1

theorem Cleared.none (h : Sits w held i sps v) (hS : ∀ a, ¬ S a) : Cleared i sps held S w v w v where
  sits := h
  erased := (Erased.none w i).widen (fun _ h => h.elim) fun a ha => absurd ha (hS a)
  state := ⟨v.kernel.memory, v.space.writeGuards, rfl⟩
  guards := by simp [hS]

theorem Sits.area_low (h : Sits w held i sps v) (har : area ∈ values v.space.areas) : area.range.stop < 2 ^ 63 := by
  have hlo := (h.formed.tiled.fine area har).below
  have hstp : v.space.virtRange.stop = v.space.range.start + v.space.range.size := rfl
  have := v.space.range.low
  have := PageTable.span_lt arch
  omega

theorem unmapObjectArea_spec (h : Sits w held i sps v) (har : area ∈ values v.space.areas) :
    Runs v (unmapObjectArea i id first last area)
      (fun _ t => ∃ w', Cleared i sps held (Invalidated [area] id first last) w v w' t) E := by
  obtain ⟨r, hr, hp, -⟩ := invalidatedRange_spec (h.formed.tiled.fine area har) (h.backed area har) (h.area_low har) id
  refine ofOption_bind hr ?_
  cases r with
  | none =>
    exact .stay ⟨w, .none h fun a => by simp [Invalidated, hr]⟩
  | some part =>
    have his := hp part rfl
    have hby : area.pageSize = .size4K := by
      unfold invalidatedRange Backing.objectAt at hr
      refine (h.backed area har).paged 0 ?_
      unfold locate Source.at
      cases hsrc : area.backing.source with
      | zero => rfl
      | object object base => rfl
      | static range =>
        rw [hsrc] at hr
        cases hr
    have hset : (fun a => part.contains a = true) = Invalidated [area] id first last := by
      funext a
      simp [Invalidated, hr]
    have hunm : Triple (Inv w) (area.unmap i part : Prog arch ι Unit) _ fun _ _ => False :=
      VmArea.unmap_spec (h.backed area har) h.owned.balanced
        (Good.erasable h (update_self ..) har his)
    refine .bind (onMemory_total h.memory (expect_spec hunm)
      (Q := fun _ t => ∃ m w', t = v.withMemory m ∧ Erased w w' i (fun a => part.contains a) ∧ Inv w' m)
      fun _ m ⟨w', her, hm⟩ => ⟨m, w', rfl, her, hm⟩) fun _ => .modify fun t ⟨m, w', ht, her, hm⟩ => ?_
    subst ht
    refine ⟨w', .ofUpdate (.shrunk h (update_self ..) her hm {v.space with
      writeGuards := v.space.writeGuards.filter fun e => !part.contains e.1} rfl h.formed h.backed
      (fun _ _ _ hloc => hloc) fun a g hout hg => guard_kept ?_ hout hg), hset ▸ her, ⟨m, _, rfl⟩, fun e => ?_⟩
    · have hstp := his.stopAligned
      rw [hby] at hstp
      exact hstp
    · rw [← hset]
      simp [Vm.withMemory]

theorem Cleared.trans {u : Vm arch ι} (h : Cleared i sps held S w v w' t) (h' : Cleared i sps held T w' t w'' u) :
    Cleared i sps held (fun a => S a ∨ T a) w v w'' u where
  sits := h'.sits
  erased := h.erased.trans h'.erased
  state := by
    obtain ⟨m, guards, rfl⟩ := h.state
    obtain ⟨m', guards', rfl⟩ := h'.state
    exact ⟨m', guards', rfl⟩
  guards := by
    intro e
    rw [h'.guards, h.guards, not_or, and_assoc]

theorem unmapObjectAreas_spec (areas : List VmArea)
    (h : Sits w held i sps v) (hars : ∀ area ∈ areas, area ∈ values v.space.areas) :
    Runs v (areas.forM (unmapObjectArea i id first last))
      (fun _ t => ∃ w', Cleared i sps held (Invalidated areas id first last) w v w' t) E := by
  induction areas generalizing w v with
  | nil => exact .stay ⟨w, .none h fun a => by simp [Invalidated]⟩
  | cons area rest ih =>
    refine (unmapObjectArea_spec h (hars area (.head _))).next fun _ t ⟨w', hclr⟩ => ?_
    obtain ⟨m, guards, hsta⟩ := hclr.state
    refine (ih hclr.sits fun o hoth => ?_).post fun _ u ⟨w'', hcl'⟩ => ⟨w'', ?_⟩
    · rw [hsta]
      exact hars o (.tail _ hoth)
    · have hset : (fun a => Invalidated [area] id first last a ∨ Invalidated rest id first last a) =
          Invalidated (area :: rest) id first last := by
        funext a
        simp [Invalidated]
      exact hset ▸ hclr.trans hcl'

/-- **Invalidation** cannot fail, and takes out exactly the leaves of the object's range. -/
theorem unmapObjectRange_spec (h : Sits w held i sps v) : Runs v (unmapObjectRange i id first last)
      (fun _ t => ∃ w', Cleared i sps held (Invalidated (values v.space.areas) id first last) w v w' t) E :=
  .get_bind (unmapObjectAreas_spec _ h fun _ har => har)

theorem invalidated_iff (h : Sits w held i sps v) (a : Nat) :
    Invalidated (values v.space.areas) id first last a ↔ v.space.Hit id first last a := by
  refine exists_congr fun area => and_congr_right fun har => ?_
  obtain ⟨r, hr, -, hhit⟩ := invalidatedRange_spec (h.formed.tiled.fine area har) (h.backed area har) (h.area_low har) id
  rw [← hhit, hr]
  simp

/-- The check changes nothing but memory that nobody sees. -/
theorem validateObjectRange_spec (h : Sits w held i sps v) :
    Runs v (validateObjectRange i id first last) (fun _ t => ∃ m, t = v.withMemory m ∧ Inv w m)
      fun _ _ => True := by
  have hm : ∃ m, v = v.withMemory m ∧ Inv w m := ⟨v.kernel.memory, rfl, h.memory⟩
  unfold validateObjectRange
  split
  · exact .stay hm
  · refine .get_bind (.resume (.forM _ fun area _ => ?_) hm)
    cases invalidatedRange area id first last with
    | none => exact .throw fun _ _ => trivial
    | some r =>
      cases r with
      | none => exact .skip
      | some part =>
        refine .start fun t ⟨m, ht, hm⟩ => ?_
        subst ht
        have hpre : Triple (Inv w) (validateAllocRange i part.start part.size : Prog arch ι Unit) (fun _ => Inv w)
            fun _ _ => True :=
          .bind (preflightRange_spec h.owned.balanced fun _ _ _ _ => trivial) fun _ => .pure fun _ hm => hm.1
        exact onMemory_spec hm hpre (fun _ m hm => ⟨m, rfl, hm⟩) fun _ _ _ => trivial

end Invalidation

end Operations

end Changing

end StarryX.Vma
