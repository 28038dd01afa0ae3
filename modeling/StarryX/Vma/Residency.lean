import StarryX.Mm.Protection
import StarryX.Vma.Pointwise

/-! What the leaves of the page tables are.

A leaf `Serves` the place that its area names: it has the area's page size and no flag that the area
has not; if it may be written, a private one is the only owner of its frame, and one of a guarded
object has a guard on record. `Good` says that of all leaves of all spaces, and that every reference
to a frame belongs to a leaf, to an object, or to the operation under way (`held`). Each lemma here
is one kind of change that keeps it. -/
namespace StarryX.Vma
open Library Mm Function
open Option (bind_eq_some_iff)
open MappingFlags (contains withoutWrite)

/-! ### One leaf -/

/-- The flags of a leaf without the two that the kernel keeps there for itself. -/
def MappingFlags.access (flags : MappingFlags) : MappingFlags := {flags with allocFrame := false, protNone := false}

def Origin.isStatic : Origin → Bool
  | .static _ _ => true
  | _ => false

/-- A page of a guarded object, written through. -/
def Location.needsGuard (guarded : Nat → Bool) (location : Location) : Bool :=
  !location.isPrivate &&
    match location.origin with
    | .object id _ => guarded id
    | _ => false

/-- The physical page of a leaf holds no frame of the allocator. -/
def Foreign (frames : Nat → Bool) (paddr size : Nat) : Prop :=
  ∀ offset, offset < size → frames (paddr + offset - (paddr + offset) % frameSize) = false

section Leaves
variable {ι : Type}

structure Serves (guarded : Nat → Bool) (w : World ι) (guards : List (Nat × Guard)) (address : Nat)
    (location : Location) (level : Nat) (leaf : Leaf) : Prop where
  level : level = location.pageSize.level
  kind : leaf.flags.allocFrame = !location.origin.isStatic
  static : location.origin.isStatic = true → Foreign w.frames leaf.paddr location.pageSize.bytes
  flags : location.flags.contains (MappingFlags.access leaf.flags) = true
  alone : location.isPrivate = true → leaf.flags.write = true →
    leaf.flags.allocFrame = true ∧ w.refs leaf.paddr = 1
  tracked : location.needsGuard guarded = true → leaf.flags.write = true →
    ∃ guard, (address - address % frameSize, guard) ∈ guards

/-- No leaf that is the only owner of its frame comes to share it. -/
def World.Spares (w w' : World ι) : Prop := ∀ p, w.refs p = 1 → 0 < w.mapped p → w'.refs p ≤ 1

end Leaves

/-! ### Flags -/

theorem contains_trans {a b c : MappingFlags} (h : a.contains b) (h' : b.contains c) :
    a.contains c := by
  simp only [contains] at *
  grind

open MappingFlags (access)

theorem contains_access (flags : MappingFlags) : flags.contains (access flags) := by
  simp [contains, access]

theorem contains_withoutWrite (flags : MappingFlags) :
    flags.contains (access (withoutWrite flags)) := by
  simp [contains, access, withoutWrite]

variable {flags : MappingFlags} {addr : Nat}

/-- A leaf has no more flags than it was made with. -/
theorem pteFlags_access {arch : Arch} {kind : FrameKind} {new : MappingFlags} (h : pteFlags arch kind flags = .ok new) :
    (access flags).contains (access (arch.stored new)) ∧
      ((arch.stored new).write → flags.write) := by
  have hnew : new.write = flags.write ∧ new.read = flags.read ∧ new.execute = flags.execute ∧
      new.user = flags.user ∧ new.device = flags.device ∧ new.uncached = flags.uncached := by
    unfold pteFlags at h
    cases kind <;> dsimp only [FrameKind.apply] at h <;> split at h
    all_goals first
      | (rw [← Except.ok.inj h]; exact ⟨rfl, rfl, rfl, rfl, rfl, rfl⟩)
      | (split at h
         · cases h
         · rw [← Except.ok.inj h]; exact ⟨rfl, rfl, rfl, rfl, rfl, rfl⟩)
  obtain ⟨hw, hre, hee, hus, hde, hun⟩ := hnew
  unfold Arch.stored access contains
  split
  · simp
  · cases hbit : flags.uncached <;> split <;> simp [hw, hre, hee, hus, hde, hun, hbit]

/-! ### Areas -/

/-- Where the pages of an area come from fits the area. -/
def VmArea.Backed (frames : Nat → Bool) (area : VmArea) : Prop :=
  match area.backing.source with
  | .zero => area.backing.isPrivate = true ∧ area.pageSize = .size4K
  | .static range => area.backing.isPrivate = false ∧ range.size = area.range.size ∧ Foreign frames range.start range.size
  | .object _ offset => area.pageSize = .size4K ∧ offset % frameSize = 0 ∧ offset + area.range.size < 2 ^ 64

open VirtAddrRange (contains_iff size)

section Backed
variable {fs : Nat → Bool} {a : VmArea} {r : VirtAddrRange}

/-- An area over static frames. -/
theorem VmArea.Backed.static (h : a.Backed fs) (hsrc : (a.locate addr).origin.isStatic) :
    ∃ r, a.backing.source = .static r ∧ a.backing.isPrivate = false ∧
      r.size = a.range.size ∧ Foreign fs r.start r.size := by
  unfold VmArea.Backed at h
  unfold VmArea.locate Source.at at hsrc
  cases hbk : a.backing.source with
  | static r =>
    rw [hbk] at h
    exact ⟨r, rfl, h⟩
  | zero | object _ _ =>
    rw [hbk] at hsrc
    cases hsrc

theorem VmArea.Backed.notStatic (h : a.Backed fs) (addr : Nat)
    (hpv : a.backing.isPrivate) : (a.locate addr).origin.isStatic = false := by
  cases hsrc : (a.locate addr).origin.isStatic with
  | false => rfl
  | true =>
    obtain ⟨r, -, hsh, -⟩ := h.static hsrc
    cases hsh.symm.trans hpv

/-- Any other area has small pages. -/
theorem VmArea.Backed.paged (h : a.Backed fs) (addr : Nat)
    (hsrc : (a.locate addr).origin.isStatic = false) : a.pageSize = .size4K := by
  unfold VmArea.Backed at h
  unfold VmArea.locate Source.at at hsrc
  cases hbk : a.backing.source with
  | zero =>
    rw [hbk] at h
    exact h.2
  | object id off =>
    rw [hbk] at h
    exact h.1
  | static r =>
    rw [hbk] at hsrc
    cases hsrc

theorem Foreign.part {paddr size off part : Nat} (h : Foreign fs paddr size) (hle : off + part ≤ size) :
    Foreign fs (paddr + off) part := by
  intro k hk
  have := h (off + k) (by omega)
  rwa [← Nat.add_assoc] at this

theorem VmArea.Backed.checkedSlice {part : VmArea} {cut : VirtAddrRange}
    (h : a.Backed fs) (hf : a.Fine r) (hpt : a.checkedSlice cut flags = some part) :
    part.Backed fs := by
  obtain ⟨hlow, hhi, hst, hsi, hrg, -, hpg, hshi⟩ := VmArea.checkedSlice_eq hpt
  unfold VmArea.Backed at h ⊢
  unfold Backing.shifted at hshi
  cases hsrc : a.backing.source with
  | zero =>
    rw [hsrc] at h hshi
    rw [← Option.some.inj hshi, hpg]
    exact h
  | static r =>
    rw [hsrc] at h hshi
    obtain ⟨hsh, hwh, hfor⟩ := h
    dsimp only at hshi
    cases hsub : r.subrange (cut.start - a.range.start) cut.size with
    | error e =>
      rw [hsub] at hshi
      cases hshi
    | ok sub =>
      rw [hsub] at hshi
      unfold StaticFrameRange.subrange at hsub
      split at hsub
      next hins =>
        rw [← Option.some.inj hshi]
        obtain rfl := Except.ok.inj hsub
        exact ⟨hsh, by rw [hrg], hfor.part hins.2⟩
      · cases hsub
  | object id off =>
    rw [hsrc] at h hshi
    obtain ⟨hfo, hal, hbd⟩ := h
    dsimp only at hshi
    split at hshi
    · rw [← Option.some.inj hshi, hpg, hrg]
      refine ⟨hfo, ?_, ?_⟩
      · have hfst := hf.startAligned
        rw [hfo] at hst hfst
        have hst : cut.start % frameSize = 0 := hst
        have hfst : a.range.start % frameSize = 0 := hfst
        unfold frameSize at *
        omega
      · unfold size at hbd ⊢
        omega
    · cases hshi

theorem VmArea.Backed.fuse {left right : VmArea} (hlt : left.Backed fs) (hr : right.Backed fs)
    (h : left.canMerge right) : (left.fuse right h).Backed fs := by
  obtain ⟨hme, -, -, hmg⟩ := VmArea.canMerge_eq h
  unfold Backing.canMerge at hmg
  split at hmg
  · cases hmg
  · unfold VmArea.Backed at hlt hr ⊢
    show match left.backing.source with
      | .zero => _
      | .static _ => _
      | .object _ off => _ ∧ _ ∧ off + (right.range.stop - left.range.start) < 2 ^ 64
    cases hsrc : left.backing.source with
    | zero =>
      rw [hsrc] at hlt
      exact hlt
    | static r =>
      rw [hsrc] at hmg
      cases hmg
    | object id off =>
      rw [hsrc] at hlt hmg
      cases hoth : right.backing.source with
      | zero | static _ =>
        rw [hoth] at hmg
        cases hmg
      | object id' offset' =>
        rw [hoth] at hr hmg
        simp only [Bool.and_eq_true, beq_iff_eq] at hmg
        refine ⟨hlt.1, hlt.2.1, ?_⟩
        have hbd := hr.2.2
        have hne := hmg.2
        unfold size at hbd hne
        omega

/-- All areas of a tree. -/
def AllBacked (frames : Nat → Bool) (l : List VmArea) : Prop := ∀ area ∈ l, area.Backed frames

variable {l : List VmArea}

theorem fuseAll_backed {cur : VmArea} (h : AllBacked fs (cur :: l)) :
    AllBacked fs (fuseAll cur l) := by
  induction l generalizing cur with
  | nil => exact h
  | cons a rest ih =>
    have hcur := h cur (.head _)
    have ha := h a (.tail _ List.mem_cons_self)
    have hre : AllBacked fs rest := fun b hb => h b (.tail _ (List.mem_cons_of_mem _ hb))
    unfold fuseAll
    split_ifs with hmg
    · refine ih fun b hb => ?_
      obtain rfl | hb := List.mem_cons.mp hb
      · exact hcur.fuse ha hmg
      · exact hre b hb
    · intro b hb
      obtain rfl | hb := List.mem_cons.mp hb
      · exact hcur
      · refine ih (fun b hb => ?_) b hb
        obtain rfl | hb := List.mem_cons.mp hb
        · exact ha
        · exact hre b hb

theorem fused_backed (h : AllBacked fs l) : AllBacked fs (fused l) := by
  cases l with
  | nil => exact h
  | cons a rest => exact fuseAll_backed h

/-- A tree built anew from backed parts. -/
theorem rebuilt_backed {parts : List VmArea} (htd : Tiled r parts)
    (h : AllBacked fs parts) : AllBacked fs (values
      (mergedAreaMap (parts.foldl (fun areas a => areas.insert a.range.start a) .empty))) := by
  have htr : IsTree ([] ++ parts) _ := isTree_foldl isTree_empty htd
  have hva : values _ = parts := htr.values_eq
  rw [← hva] at htd
  rw [(mergedAreaMap_isTree htd).values_eq, hva]
  exact fused_backed h

section Parts
variable {r : VirtAddrRange} {a : VmArea} {cut : VirtAddrRange} {parts : List VmArea}

section
variable (h : a.Backed fs) (hf : a.Fine r)
include h hf

theorem VmArea.Backed.slice {start stop : Nat}
    (hps : ((a.slice start stop flags).map fun part => [part]) = some parts) : AllBacked fs parts := by
  obtain ⟨part, hpt, rfl⟩ := Option.map_eq_some_iff.mp hps
  unfold VmArea.slice at hpt
  split at hpt
  · intro b hb
    rw [List.mem_singleton.mp hb]
    exact h.checkedSlice hf hpt
  · cases hpt

theorem VmArea.Backed.before (hps : a.before cut = some parts) : AllBacked fs parts := by
  unfold VmArea.before at hps
  split at hps
  · exact h.slice hf hps
  · cases hps
    exact fun _ hb => absurd hb List.not_mem_nil

theorem VmArea.Backed.behind (hps : a.behind cut = some parts) : AllBacked fs parts := by
  unfold VmArea.behind at hps
  split at hps
  · exact h.slice hf hps
  · cases hps
    exact fun _ hb => absurd hb List.not_mem_nil

end

theorem AllBacked.append {l' : List VmArea} (h : AllBacked fs l) (h' : AllBacked fs l') :
    AllBacked fs (l ++ l') := fun b hb => (List.mem_append.mp hb).elim (h b) (h' b)

theorem VmArea.Backed.retained (h : a.Backed fs) (hf : a.Fine r)
    (hps : a.retained cut = some parts) : AllBacked fs parts := by
  unfold VmArea.retained at hps
  split at hps
  · obtain ⟨left, hlt, hps⟩ := bind_eq_some_iff.mp hps
    obtain ⟨right, hr, hps⟩ := bind_eq_some_iff.mp hps
    cases hps
    exact (h.before hf hlt).append (h.behind hf hr)
  · cases hps
    exact fun b hb => List.mem_singleton.mp hb ▸ h

theorem VmArea.Backed.recoloured (h : a.Backed fs) (hf : a.Fine r)
    (hps : a.recoloured cut flags = some parts) : AllBacked fs parts := by
  unfold VmArea.recoloured at hps
  split at hps
  · obtain ⟨left, hlt, hps⟩ := bind_eq_some_iff.mp hps
    obtain ⟨middle, hmid, hps⟩ := bind_eq_some_iff.mp hps
    obtain ⟨right, hr, hps⟩ := bind_eq_some_iff.mp hps
    cases hps
    refine (h.before hf hlt).append fun b hb => ?_
    obtain rfl | hb := List.mem_cons.mp hb
    · exact h.checkedSlice hf hmid
    · exact h.behind hf hr b hb
  · cases hps
    exact fun b hb => List.mem_singleton.mp hb ▸ h

end Parts

section Trees
variable {r : VirtAddrRange} {areas : AreaMap}

theorem retainOutside_backed (h : WellFormed r areas) (hba : AllBacked fs (values areas))
    {removed : VirtAddrRange} {kept : AreaMap} (hkp : retainOutside areas removed = some kept) :
    AllBacked fs (values kept) := by
  obtain ⟨parts, hps, hkp⟩ := bind_eq_some_iff.mp hkp
  obtain ⟨inserted, hin, hkp⟩ := bind_eq_some_iff.mp hkp
  cases hkp
  have htd := splitAll_tiled hps h.tiled fun a ha here hh =>
    ((h.tiled.fine a ha).retained hh).1
  rw [foldlM_insertArea isTree_empty htd] at hin
  cases hin
  refine rebuilt_backed htd fun b hb => ?_
  obtain ⟨a, ha, here, hh, hb⟩ := (splitAll_mem hps).mp hb
  exact (hba a ha).retained (h.tiled.fine a ha) hh b hb

theorem committedAreas_backed (h : WellFormed r areas) (hba : AllBacked fs (values areas))
    {changed : VirtAddrRange} (hchg : changed.start < changed.stop) {committed : AreaMap}
    (hcom : committedAreas areas changed flags = some committed) : AllBacked fs (values committed) := by
  obtain ⟨parts, hps, hcom⟩ := bind_eq_some_iff.mp hcom
  cases hcom
  have htd := splitAll_tiled hps h.tiled fun a ha here hh =>
    ((h.tiled.fine a ha).recoloured hchg hh).1
  refine rebuilt_backed htd fun b hb => ?_
  obtain ⟨a, ha, here, hh, hb⟩ := (splitAll_mem hps).mp hb
  exact (hba a ha).recoloured (h.tiled.fine a ha) hh b hb

end Trees

end Backed

/-! ### All spaces -/

section Goods
variable {arch : Arch} {ι : Type}

/-- Every leaf serves the place that the areas of its space name. -/
def Served (guarded : Nat → Bool) (w : World ι) (spaces : ι → Option (VmSpace arch)) : Prop :=
  ∀ i v level leaf, w.view i v = some (level, leaf) → ∃ space location, spaces i = some space ∧
    lookup space.areas v = some location ∧ Serves guarded w space.writeGuards v location level leaf

def Kernel.frames (k : Kernel arch ι) : List Frame := k.kept.map Kept.frame

structure Good [Fintype ι] (w : World ι) (held : List Frame) (k : Kernel arch ι) (spaces : ι → Option (VmSpace arch)) :
    Prop where
  memory : Inv w k.memory
  owned : w.Owned (held ++ k.frames)
  ranges : ∀ i space, spaces i = some space → w.ranges i = (space.range.start, space.range.size)
  formed : ∀ i space, spaces i = some space → space.Formed
  backed : ∀ i space, spaces i = some space → AllBacked w.frames (values space.areas)
  served : Served k.guarded w spaces
  stored : ∀ i, w.Stored arch i

variable [Fintype ι] {w w' : World ι} {held held' : List Frame} {k k' : Kernel arch ι}
  {sps : ι → Option (VmSpace arch)} {guards : List (Nat × Guard)} {leaf : Leaf} {guarded : Nat → Bool} {i : ι}
  {v lvl : Nat} {sp : VmSpace arch} {loc : Location}

/-- A leaf lies in the lower half. -/
theorem Good.inside (h : Good w held k sps)
    (hl : w.view i v = some (lvl, leaf)) : v < arch.span := by
  obtain ⟨sp, loc, hsp, hloc, -⟩ := h.served i v lvl leaf hl
  obtain ⟨a, ha, hin, -⟩ := (lookup_eq_some (h.formed i sp hsp)).mp hloc
  have hin := contains_iff.mp hin
  have hbe := ((h.formed i sp hsp).tiled.fine a ha).below
  have hlow := sp.range.low
  have hst : sp.virtRange.stop = sp.range.start + sp.range.size := rfl
  omega

/-- A private leaf that may be written owns its frame. -/
theorem Good.owner (h : Good w held k sps)
    (hl : w.view i v = some (lvl, leaf)) (hsp : sps i = some sp)
    (hloc : lookup sp.areas v = some loc) (hpv : loc.isPrivate)
    (hw : leaf.flags.write) : 0 < w.mapped leaf.paddr := by
  obtain ⟨space', loc', hsp', hloc', hsv⟩ := h.served i v lvl leaf hl
  cases hsp.symm.trans hsp'
  cases hloc.symm.trans hloc'
  exact h.memory.mapped_pos (h.inside hl) hl (hsv.alone hpv hw).1

/-- The only owner of a frame stays so, unless a reference is made. -/
theorem Serves.spared (hsv : Serves guarded w guards addr loc lvl leaf) (hfs : w'.frames = w.frames)
    (hlo : loc.isPrivate → leaf.flags.write → w.refs leaf.paddr = 1 → w'.refs leaf.paddr ≤ 1)
    (h' : Inv w' k'.memory) (hbal' : w'.Balanced) (hv : v < arch.span) (hle' : w'.view i v = some (lvl, leaf)) :
    Serves guarded w' guards addr loc lvl leaf where
  __ := hsv
  static := hfs ▸ hsv.static
  alone := by
    intro hpv hw
    obtain ⟨hal, hone⟩ := hsv.alone hpv hw
    have hle := hlo hpv hw hone
    have hpos := h'.refs_pos hbal' hv hle' hal
    exact ⟨hal, by omega⟩

/-- A leaf stays, and so does what is said of its place; if it is the only owner, it stays that. -/
def Stays (w w' : World ι) (spaces spaces' : ι → Option (VmSpace arch)) (i : ι) (v level : Nat) (leaf : Leaf) : Prop :=
  w.view i v = some (level, leaf) ∧ ∀ space location, spaces i = some space → lookup space.areas v = some location →
    (location.isPrivate = true → leaf.flags.write = true → w.refs leaf.paddr = 1 → w'.refs leaf.paddr ≤ 1) ∧
    ∃ space', spaces' i = some space' ∧ lookup space'.areas v = some location ∧
      ∀ guard, (v - v % frameSize, guard) ∈ space.writeGuards → ∃ guard', (v - v % frameSize, guard') ∈ space'.writeGuards

/-- A leaf is new, and serves. -/
def Comes (guarded : Nat → Bool) (w' : World ι) (spaces' : ι → Option (VmSpace arch)) (i : ι) (v level : Nat)
    (leaf : Leaf) : Prop :=
  arch.stored leaf.flags = leaf.flags ∧ ∃ space location, spaces' i = some space ∧
    lookup space.areas v = some location ∧ Serves guarded w' space.writeGuards v location level leaf

/-- What the areas of a space keep to. -/
structure Laid (w : World ι) (i : ι) (space : VmSpace arch) : Prop where
  ranges : w.ranges i = (space.range.start, space.range.size)
  formed : space.Formed
  backed : AllBacked w.frames (values space.areas)

section
variable (h : Good w held k sps)
include h

theorem Good.laid (hsp : sps i = some sp) : Laid w i sp :=
  ⟨h.ranges i sp hsp, h.formed i sp hsp, h.backed i sp hsp⟩

/-- **A change of leaves and areas**: leaves that stay keep what they have, and the others serve. -/
theorem Good.change {spaces' : ι → Option (VmSpace arch)} (hmem : Inv w' k'.memory)
    (ho : w'.Owned (held' ++ k'.frames)) (hgrd : k'.guarded = k.guarded) (hfs : w'.frames = w.frames)
    (hla : ∀ i sp, spaces' i = some sp → Laid w' i sp)
    (hls : ∀ i v lvl leaf, w'.view i v = some (lvl, leaf) →
      Stays w w' sps spaces' i v lvl leaf ∨ Comes k.guarded w' spaces' i v lvl leaf) :
    Good w' held' k' spaces' where
  memory := hmem
  owned := ho
  ranges := fun i sp hsp => (hla i sp hsp).ranges
  formed := fun i sp hsp => (hla i sp hsp).formed
  backed := fun i sp hsp => (hla i sp hsp).backed
  served := by
    intro i v lvl leaf hl
    rw [hgrd]
    obtain ⟨hold, hst⟩ | ⟨-, hnew⟩ := hls i v lvl leaf hl
    · obtain ⟨sp, loc, hsp, hloc, hsv⟩ := h.served i v lvl leaf hold
      obtain ⟨hlo, space', hsp', hloc', hgs⟩ := hst sp loc hsp hloc
      have hse := hsv.spared hfs hlo hmem ho.balanced (h.inside hold) hl
      refine ⟨space', loc, hsp', hloc', {hse with tracked := fun hnd hw => ?_}⟩
      obtain ⟨g, hg⟩ := hse.tracked hnd hw
      exact hgs g hg
    · exact hnew
  stored := by
    intro i v lvl leaf hl
    obtain ⟨hold, -⟩ | ⟨hnew, -⟩ := hls i v lvl leaf hl
    · exact h.stored i v lvl leaf hold
    · exact hnew

/-- Nothing changes but references, and those spare the only owners. -/
theorem Good.stays (hspares : World.Spares w w')
    (hl : w.view i v = some (lvl, leaf)) : Stays w w' sps sps i v lvl leaf := by
  refine ⟨hl, fun sp loc hsp hloc => ⟨fun hpv hw hone => ?_, sp, hsp, hloc, fun g hg => ⟨g, hg⟩⟩⟩
  exact hspares _ hone (h.owner hl hsp hloc hpv hw)

end

section
variable (h : Good w held k sps) (hmem : Inv w' k'.memory) (ho : w'.Owned (held' ++ k'.frames))
  (hgrd : k'.guarded = k.guarded) (hrs : w'.ranges = w.ranges) (hfs : w'.frames = w.frames)
  (hspares : World.Spares w w')
include h hmem ho hgrd hrs hfs hspares

/-- A change of leaves only. -/
theorem Good.step (hls : ∀ i v lvl leaf, w'.view i v = some (lvl, leaf) →
      w.view i v = some (lvl, leaf) ∨ Comes k.guarded w' sps i v lvl leaf) :
    Good w' held' k' sps :=
  h.change hmem ho hgrd hfs
    (fun i sp hsp => ⟨hrs ▸ h.ranges i sp hsp, h.formed i sp hsp, hfs ▸ h.backed i sp hsp⟩)
    fun i v lvl leaf hl => (hls i v lvl leaf hl).imp (h.stays hspares) id

/-- A change that no leaf sees. -/
theorem Good.unseen (hvi : w'.view = w.view) : Good w' held' k' sps :=
  h.step hmem ho hgrd hrs hfs hspares fun _ _ _ _ hl => .inl (hvi ▸ hl)

end

omit [Fintype ι] in
theorem spares_of_le (h : ∀ p, w'.refs p ≤ w.refs p) : World.Spares w w' := by
  intro p hone _
  have := h p
  omega

omit [Fintype ι] in
theorem spares_of_eq (h : w'.refs = w.refs) : World.Spares w w' := spares_of_le fun p => (congrFun h p).le

/-! ### References that come and go -/

/-- The kernel with another memory. -/
def Kernel.withMemory (k : Kernel arch ι) (memory : Memory arch ι) : Kernel arch ι := {k with memory := memory}

variable {m : Memory arch ι} {f : Frame} {bs : Nat → FrameBytes}

theorem Good.alloc (h : Good w held k sps) (f : Frame) (hfr : w.refs f.paddr = 0)
    (hm : Inv {w.alloc f.paddr with bytes := bs} m) :
    Good {w.alloc f.paddr with bytes := bs} (f :: held) (k.withMemory m) sps := by
  obtain ⟨ho, -⟩ := h.owned.alloc hfr
  refine h.unseen hm {ho with} rfl rfl rfl (fun p hone _ => ?_) rfl
  show update w.refs f.paddr 1 p ≤ 1
  by_cases hp : p = f.paddr
  · rw [hp, update_self]
  · rw [update_of_ne hp, hone]

omit [Fintype ι] in
theorem drop_refs_le (w : World ι) (p q : Nat) : (w.drop p).refs q ≤ w.refs q := by
  simp only [World.drop, update_apply]
  split_ifs with h
  · rw [h]
    exact Nat.sub_le _ _
  · exact le_rfl

theorem Good.drop (h : Good w (f :: held) k sps) (hm : Inv (w.drop f.paddr) m) :
    Good (w.drop f.paddr) held (k.withMemory m) sps := by
  exact h.unseen hm h.owned.drop_head rfl rfl rfl (spares_of_le (drop_refs_le w _)) rfl

/-- An object drops a handle. -/
theorem Good.forget (h : Good w held k sps) {n : Nat} {kept : Kept} (hn : k.kept[n]? = some kept)
    (hm : Inv (w.drop kept.frame.paddr) m) :
    Good (w.drop kept.frame.paddr) held {k with kept := k.kept.eraseIdx n, memory := m} sps := by
  have hfr : (held ++ k.frames)[held.length + n]? = some kept.frame := by
    rw [List.getElem?_append_right (Nat.le_add_right _ _), Nat.add_sub_cancel_left, Kernel.frames, List.getElem?_map, hn]
    rfl
  obtain ⟨ho, -⟩ := h.owned.drop hfr
  refine h.unseen hm ?_ rfl rfl rfl (spares_of_le (drop_refs_le w _)) rfl
  rw [List.eraseIdx_append_of_length_le (Nat.le_add_right _ _), Nat.add_sub_cancel_left] at ho
  show World.Owned _ (held ++ (k.kept.eraseIdx n).map Kept.frame)
  rwa [← List.eraseIdx_map]

/-- An object takes a handle over. -/
theorem Good.keep (h : Good w (f :: held) k sps) (obj : Nat) :
    Good w held {k with kept := ⟨obj, f⟩ :: k.kept} sps :=
  h.unseen h.memory (h.owned.perm List.perm_middle.symm) rfl rfl rfl (spares_of_eq rfl) rfl

/-- One handle more. It is not to a frame with a single owner that is a leaf. -/
theorem Good.clone (h : Good w held k sps) (f : Frame) (hp : 0 < w.refs f.paddr)
    (hsh : 0 < w.handles f.paddr ∨ w.refs f.paddr ≠ 1) (hm : Inv (w.clone f.paddr) m) :
    Good (w.clone f.paddr) (f :: held) (k.withMemory m) sps := by
  have hli : ∀ o ∈ [f], 0 < w.refs o.paddr := by simpa using hp
  have ho := (h.owned.hold hli).1
  have hcn := w.hold_clone [] f.paddr
  rw [List.map_singleton, ← List.nil_append [f.paddr], ← hcn] at ho
  refine h.unseen hm ho rfl rfl rfl (fun p hone hmap => ?_) rfl
  have hne : p ≠ f.paddr := by
    rintro rfl
    have := h.owned.balanced f.paddr
    omega
  show update w.refs f.paddr _ p ≤ 1
  rw [update_of_ne hne, hone]

theorem Good.bytes (h : Good w held k sps) (hm : Inv {w with bytes := bs} m) :
    Good {w with bytes := bs} held (k.withMemory m) sps :=
  h.unseen hm ⟨h.owned.balanced, h.owned.handles⟩ rfl rfl rfl (spares_of_eq rfl) rfl

/-- A memory of which nothing more is said. -/
theorem Good.sameWorld (h : Good w held k sps) (hm : Inv w m) : Good w held (k.withMemory m) sps :=
  h.unseen hm h.owned rfl rfl rfl (spares_of_eq rfl) rfl

/-! ### A page of an area -/

/-- A page that faults fill. -/
structure Spot (space : VmSpace arch) (area : VmArea) (address : Nat) : Prop where
  mem : area ∈ values space.areas
  size : area.pageSize = .size4K
  aligned : address % frameSize = 0
  above : area.range.start ≤ address
  below : address + frameSize ≤ area.range.stop

omit [Fintype ι] in
/-- The places of a page differ only in where they lie. -/
theorem Serves.samePage {area : VmArea}
    (h : Serves guarded w guards addr (area.locate addr) lvl leaf)
    (hpg : v - v % frameSize = addr - addr % frameSize) :
    Serves guarded w guards v (area.locate v) lvl leaf := by
  have hsta : (area.locate v).origin.isStatic = (area.locate addr).origin.isStatic := by
    unfold VmArea.locate Source.at
    cases area.backing.source <;> rfl
  have hnd : (area.locate v).needsGuard guarded = (area.locate addr).needsGuard guarded := by
    unfold VmArea.locate Source.at Location.needsGuard
    cases area.backing.source <;> rfl
  refine ⟨h.level, hsta ▸ h.kind, fun hbit => h.static (hsta ▸ hbit), h.flags, h.alone, fun hbit hw => ?_⟩
  rw [hpg]
  exact h.tracked (hnd ▸ hbit) hw

open PageSize (level size4K)

theorem samePage4K_iff (h : addr % frameSize = 0) :
    PageTable.SamePage size4K.level addr v ↔ addr ≤ v ∧ v < addr + frameSize := samePage_iff h

theorem samePage_start (hal : addr % frameSize = 0)
    (hpg : PageTable.SamePage size4K.level addr v) : v - v % frameSize = addr - addr % frameSize := by
  have hin := (samePage4K_iff hal).mp hpg
  have hmod : v % frameSize = v - addr := by
    have hsum : v = addr + (v - addr) := by omega
    rw [hsum, Nat.add_mod, hal, Nat.zero_add, Nat.mod_mod, Nat.mod_eq_of_lt (by omega)]
    omega
  omega

variable [DecidableEq ι] {i : ι} {sp : VmSpace arch} {a : VmArea} {addr : Nat} {new : Leaf}

/-- The leaves after a change of one page. -/
def OnlyPage (w w' : World ι) (i : ι) (address : Nat) (new : Leaf) : Prop :=
  ∀ j v level leaf, w'.view j v = some (level, leaf) → w.view j v = some (level, leaf) ∨
    j = i ∧ PageTable.SamePage PageSize.size4K.level address v ∧ level = 0 ∧ leaf = new

omit [Fintype ι] in
theorem onlyPage_setLeaf (w : World ι) (i : ι) (addr : Nat) (new : Leaf) :
    OnlyPage w (w.setLeaf i addr .size4K (some new)) i addr new := by
  intro j v lvl leaf hl
  by_cases hj : j = i
  · subst hj
    have hl : (if PageTable.SamePage size4K.level addr v then some (size4K.level, new)
        else w.view j v) = some (lvl, leaf) := by
      simpa only [World.setLeaf, update_self, Option.map_some] using hl
    split_ifs at hl with hpg
    · cases hl
      exact .inr ⟨rfl, hpg, rfl, rfl⟩
    · exact .inl hl
  · refine .inl ?_
    simpa only [World.setLeaf, update_of_ne hj] using hl

/-- **One space changes**, and the leaves of the others stay. -/
theorem Good.changeAt (h : Good w held k sps) (hsp : sps i = some sp) (hm : Inv w' m)
    (ho : w'.Owned (held' ++ k.frames)) (hrs : w'.ranges = w.ranges) (hfs : w'.frames = w.frames)
    (hspares : World.Spares w w') {space' : VmSpace arch} (hrg : space'.range = sp.range)
    (hfm : space'.Formed) (hba : AllBacked w.frames (values space'.areas))
    (hls : ∀ j v lvl leaf, w'.view j v = some (lvl, leaf) →
      (w.view j v = some (lvl, leaf) ∧ (j = i → ∀ loc, lookup sp.areas v = some loc →
        lookup space'.areas v = some loc ∧ ∀ g, (v - v % frameSize, g) ∈ sp.writeGuards →
          (v - v % frameSize, g) ∈ space'.writeGuards)) ∨
      j = i ∧ arch.stored leaf.flags = leaf.flags ∧ ∃ loc, lookup space'.areas v = some loc ∧
        Serves k.guarded w' space'.writeGuards v loc lvl leaf) :
    Good w' held' (k.withMemory m) (update sps i (some space')) := by
  refine h.change hm ho rfl hfs (fun j o hoth => ?_) fun j v lvl leaf hl => ?_
  · obtain ⟨rfl, hnew⟩ | ⟨-, hoth⟩ := update_cases hoth
    · cases hnew
      exact ⟨by rw [hrs, h.ranges j sp hsp, hrg], hfm, hfs ▸ hba⟩
    · exact ⟨hrs ▸ h.ranges j o hoth, h.formed j o hoth, hfs ▸ h.backed j o hoth⟩
  · obtain ⟨hold, hkp⟩ | ⟨rfl, hstd, loc, hloc, hsv⟩ := hls j v lvl leaf hl
    · refine .inl ⟨hold, fun o loc hoth hloc => ⟨fun hpv hw hone => ?_, ?_⟩⟩
      · exact hspares _ hone (h.owner hold hoth hloc hpv hw)
      by_cases hj : j = i
      · subst hj
        cases hsp.symm.trans hoth
        obtain ⟨hloc', hgs⟩ := hkp rfl loc hloc
        exact ⟨space', update_self .., hloc', fun g hg => ⟨g, hgs g hg⟩⟩
      · exact ⟨o, (update_of_ne hj ..).trans hoth, hloc, fun g hg => ⟨g, hg⟩⟩
    · exact .inr ⟨hstd, space', loc, update_self .., hloc, hsv⟩

/-- **One page gets another leaf**, and guards may be added for it. -/
theorem Good.page (h : Good w held k sps) (hsp : sps i = some sp) (hm : Inv w' m)
    (ho : w'.Owned (held' ++ k.frames)) (hrs : w'.ranges = w.ranges) (hfs : w'.frames = w.frames)
    (hspares : World.Spares w w') (hon : OnlyPage w w' i addr new) (hs : Spot sp a addr)
    (hgs : ∀ e ∈ sp.writeGuards, e ∈ guards)
    (hstd : arch.stored new.flags = new.flags)
    (hsv : Serves k.guarded w' guards addr (a.locate addr) 0 new) :
    Good w' held' (k.withMemory m) (update sps i (some {sp with writeGuards := guards})) := by
  have hfm := h.formed i sp hsp
  refine h.changeAt hsp hm ho hrs hfs hspares rfl hfm (h.backed i sp hsp) fun j v lvl leaf hl => ?_
  obtain hold | ⟨rfl, hpg, rfl, rfl⟩ := hon j v lvl leaf hl
  · exact .inl ⟨hold, fun _ _ hloc => ⟨hloc, fun g => hgs _⟩⟩
  · have hin := (samePage4K_iff hs.aligned).mp hpg
    refine .inr ⟨rfl, hstd, a.locate v, ?_, hsv.samePage (samePage_start hs.aligned hpg)⟩
    refine (lookup_eq_some hfm).mpr ⟨a, hs.mem, contains_iff.mpr ?_, rfl⟩
    exact ⟨hs.above.trans hin.1, hin.2.trans_le hs.below⟩

theorem locate_needsGuard (guarded : Nat → Bool) (a : VmArea) (addr : Nat) :
    (a.locate addr).needsGuard guarded = a.backing.requiresWriteGuard guarded := by
  unfold VmArea.locate Source.at Location.needsGuard Backing.requiresWriteGuard
  cases a.backing.source <;> rfl

omit [Fintype ι] [DecidableEq ι] in
/-- What a leaf over a frame of the allocator must keep to. -/
theorem Spot.serves (hs : Spot sp a addr)
    (hsrc : (a.locate addr).origin.isStatic = false) (hal : new.flags.allocFrame)
    (hfg : a.flags.contains (access new.flags))
    (hlo : a.backing.isPrivate → new.flags.write → w.refs new.paddr = 1)
    (htr : a.backing.requiresWriteGuard guarded → new.flags.write → ∃ g, (addr, g) ∈ guards) :
    Serves guarded w guards addr (a.locate addr) 0 new where
  level := congrArg level hs.size.symm
  kind := by rw [hsrc, hal]; rfl
  static := fun hbit => nomatch hsrc.symm.trans hbit
  flags := hfg
  alone := fun hpv hw => ⟨hal, hlo hpv hw⟩
  tracked := by
    rw [locate_needsGuard, hs.aligned]
    exact htr

/-- A handle becomes a leaf. -/
theorem Good.mapped (h : Good w (f :: held) k sps) (hsp : sps i = some sp)
    (hs : Spot sp a addr) (hfr : w.view i addr = none) (hal : flags.allocFrame)
    (hgs : ∀ e ∈ sp.writeGuards, e ∈ guards)
    (hstd : arch.stored flags = flags)
    (hsv : Serves k.guarded w guards addr (a.locate addr) 0 ⟨f.paddr, flags⟩)
    (hm : Inv ((w.setLeaf i addr .size4K (some ⟨f.paddr, flags⟩)).forget f.paddr) m) :
    Good ((w.setLeaf i addr .size4K (some ⟨f.paddr, flags⟩)).forget f.paddr) held (k.withMemory m)
      (update sps i (some {sp with writeGuards := guards})) := by
  have ho : (w.setLeaf i addr .size4K (some ⟨f.paddr, flags⟩)).forget f.paddr |>.Owned (held ++ k.frames) :=
    (h.owned.map (k := 0) rfl hfr hal).1
  exact h.page hsp hm ho rfl rfl (spares_of_eq rfl) (onlyPage_setLeaf w i addr _) hs
    hgs hstd {hsv with}

/-- A leaf gets other flags. -/
theorem Good.reflagged (h : Good w held k sps) (hsp : sps i = some sp) (hs : Spot sp a addr)
    (hl : w.view i addr = some (0, leaf)) (hal : flags.allocFrame = leaf.flags.allocFrame)
    (hgs : ∀ e ∈ sp.writeGuards, e ∈ guards)
    (hstd : arch.stored flags = flags)
    (hsv : Serves k.guarded w guards addr (a.locate addr) 0 {leaf with flags := flags})
    (hm : Inv (w.setLeaf i addr .size4K (some {leaf with flags := flags})) m) :
    Good (w.setLeaf i addr .size4K (some {leaf with flags := flags})) held (k.withMemory m)
      (update sps i (some {sp with writeGuards := guards})) := by
  have hmap : (w.setLeaf i addr .size4K (some {leaf with flags := flags})).mapped = w.mapped := by
    funext p
    have hh : w.view i addr = some (size4K.level, leaf) := hl
    have hle := h.memory.leaf_le (h.inside hl) hh p
    have hsa : owns p {leaf with flags := flags} = owns p leaf := by simp only [owns, hal]
    simp only [World.setLeaf, hl, Option.elim_some]
    omega
  have ho : (w.setLeaf i addr .size4K (some {leaf with flags := flags})).Owned (held ++ k.frames) :=
    ⟨fun p => hmap ▸ h.owned.balanced p, h.owned.handles⟩
  exact h.page hsp hm ho rfl rfl (spares_of_eq rfl) (onlyPage_setLeaf w i addr _) hs
    hgs hstd {hsv with}

/-- The world in which a leaf has another frame. -/
def replacedLeaf (w : World ι) (i : ι) (address : Nat) (leaf : Leaf) (frame : Frame) (flags : MappingFlags) : World ι :=
  (((w.setLeaf i address .size4K (some ⟨frame.paddr, flags⟩)).forget frame.paddr).take leaf.paddr).drop leaf.paddr

/-- A handle that nothing else shares takes the place of a frame that others share. -/
theorem Good.replaced (h : Good w (f :: held) k sps) (hsp : sps i = some sp)
    (hs : Spot sp a addr) (hsrc : (a.locate addr).origin.isStatic = false)
    (hl : w.view i addr = some (0, leaf)) (hold : leaf.flags.allocFrame) (hne : leaf.paddr ≠ f.paddr)
    (hlo : w.refs f.paddr = 1) (hal : flags.allocFrame) (hstd : arch.stored flags = flags)
    (hfg : a.flags.contains (access flags)) (hpv : a.backing.isPrivate)
    (hm : Inv (replacedLeaf w i addr leaf f flags) m) :
    Good (replacedLeaf w i addr leaf f flags) held (k.withMemory m) (update sps i (some sp)) := by
  have hmap := h.memory.mapped_pos (h.inside hl) hl hold
  have ho : (replacedLeaf w i addr leaf f flags).Owned (held ++ k.frames) :=
    (h.owned.replace (k := 0) rfl hl hold hmap hal).1
  refine h.page hsp hm ho rfl rfl (spares_of_le (drop_refs_le (.take _ _) _))
    (onlyPage_setLeaf w i addr _) hs (fun _ he => he) hstd
    (hs.serves hsrc hal hfg (fun _ _ => ?_) fun hnd => ?_)
  · exact (update_of_ne (.symm hne) ..).trans hlo
  · simp [Backing.requiresWriteGuard, hpv] at hnd

end Goods

end StarryX.Vma
