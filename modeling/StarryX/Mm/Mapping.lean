import StarryX.Mm.AddressSpace
import Mathlib.Algebra.Order.BigOperators.Group.Finset

/-! What the operations on an address space do.

Each operation has a specification in terms of worlds: how the leaves change, and what becomes
of the references. -/
namespace StarryX.Mm
open Library Function
open Option (elim_none elim_some)
open PageSize (level_ofLevel ofLevel ofLevel_level size4K)
open PageTable (content_of_leafAt getEntry_some leaves protect query_ok remap setEntry_spec unmap unmap_ok)
open FrameKind (fromFlags)

namespace World
variable {ι : Type}

/-- A range of pages inside an address space. -/
structure Fits (w : World ι) (i : ι) (start size : Nat) (pageSize : PageSize) : Prop where
  nonempty : size ≠ 0
  startAligned : start % pageSize.bytes = 0
  sizeAligned : size % pageSize.bytes = 0
  above : (w.ranges i).1 ≤ start
  below : start + size ≤ (w.ranges i).1 + (w.ranges i).2

/-- Another leaf for a page, or none. -/
def setLeaf [DecidableEq ι] (w : World ι) (i : ι) (vaddr : Nat) (size : PageSize) (new : Option Leaf) : World ι :=
  {w with
    view := update w.view i fun v =>
      if PageTable.SamePage size.level vaddr v then new.map fun leaf => (size.level, leaf) else w.view i v
    mapped := fun p => w.mapped p - ((w.view i vaddr).elim 0 fun found => owns p found.2) + new.elim 0 (owns p)}

end World

variable {ps : PageSize}

section Tables
variable {arch : Arch} {ι : Type} [Fintype ι] {w : World ι} {s : Memory arch ι}
  {E : XStop → Memory arch ι → Prop} {i : ι} {va : Nat} {size : PageSize} {l : Leaf}

/-! ### The tables of a state -/

theorem Inv.low (h : Inv w s) (i : ι) : (w.ranges i).1 + (w.ranges i).2 ≤ arch.span / 2 := by
  rw [← h.ranges i]
  exact (s.spaces i).range.low

theorem Inv.fits_low (h : Inv w s) {start size : Nat} (hfit : w.Fits i start size ps) :
    start + size ≤ arch.span / 2 :=
  hfit.below.trans (h.low i)

variable [DecidableEq ι] {t : PageTable arch}

open Finset (mem_univ univ)

theorem Memory.mapped_setPageTable (s : Memory arch ι) (i : ι) (t : PageTable arch) (p : Nat) :
    (s.setPageTable i t).mapped p + leaves (owns p) (s.spaces i).pageTable =
      s.mapped p + leaves (owns p) t := by
  have hnew := Finset.add_sum_erase univ
    (fun j => leaves (owns p) ((s.setPageTable i t).spaces j).pageTable) (mem_univ i)
  have hold := Finset.add_sum_erase univ
    (fun j => leaves (owns p) (s.spaces j).pageTable) (mem_univ i)
  have hre : ∑ j ∈ univ.erase i, leaves (owns p) ((s.setPageTable i t).spaces j).pageTable =
      ∑ j ∈ univ.erase i, leaves (owns p) (s.spaces j).pageTable := by
    refine Finset.sum_congr rfl fun j hj => ?_
    simp [Memory.setPageTable, update_of_ne (Finset.ne_of_mem_erase hj)]
  have hse : ((s.setPageTable i t).spaces i).pageTable = t := by simp [Memory.setPageTable]
  simp only [hse] at hnew
  unfold Memory.mapped
  omega

theorem Inv.setPageTable (h : Inv w s) {view : Nat → Option (Nat × Leaf)} {mapped : Nat → Nat}
    (hvw : ∀ v, v < arch.span → t.leafAt v = view v)
    (hmap : ∀ p, mapped p + leaves (owns p) (s.spaces i).pageTable =
      w.mapped p + leaves (owns p) t) :
    Inv {w with view := update w.view i view, mapped := mapped} (s.setPageTable i t) where
  ranges := by
    intro j
    rw [← h.ranges j]
    by_cases hj : j = i
    · subst hj
      simp [Memory.setPageTable]
    · simp [Memory.setPageTable, hj]
  view := by
    intro j v hv
    by_cases hj : j = i
    · subst hj
      simp [Memory.setPageTable, hvw v hv]
    · simp [Memory.setPageTable, hj, h.view j v hv]
  __ := h
  mapped := by
    intro p
    have hsum := s.mapped_setPageTable i t p
    have hnew := hmap p
    have hold := h.mapped p
    show (s.setPageTable i t).mapped p = mapped p
    omega

/-- Tables that map the same. -/
theorem Inv.sameTable (h : Inv w s) (hvw : ∀ v, t.leafAt v = (s.spaces i).pageTable.leafAt v)
    (hls : ∀ weight, leaves weight t = leaves weight (s.spaces i).pageTable) :
    Inv w (s.setPageTable i t) := by
  have hset : Inv {w with view := update w.view i (w.view i), mapped := w.mapped} (s.setPageTable i t) :=
    h.setPageTable (fun v hv => (hvw v).trans (h.view i v hv)) fun p => by rw [hls]
  rwa [update_eq_self] at hset

/-! ### One entry -/

omit [DecidableEq ι] in
/-- A leaf is counted. -/
theorem Inv.leaf_le (h : Inv w s) (hv : va < arch.span) (hl : w.view i va = some (size.level, l)) (p : Nat) :
    owns p l ≤ leaves (owns p) (s.spaces i).pageTable ∧
      leaves (owns p) (s.spaces i).pageTable ≤ w.mapped p := by
  constructor
  · have hco := content_of_leafAt ((h.view i va hv).trans hl)
    have hrem := (setEntry_spec hco none hv).2 (owns p)
    simp only [elim_some, elim_none] at hrem
    omega
  · rw [← h.mapped p]
    exact Finset.single_le_sum (f := fun j => leaves (owns p) (s.spaces j).pageTable)
      (fun _ _ => Nat.zero_le _) (mem_univ i)

theorem Inv.setEntry (h : Inv w s) (hv : va < arch.span) (hl : w.view i va = some (size.level, l))
    (new : Option Leaf) :
    Inv (w.setLeaf i va size new) (s.setPageTable i ((s.spaces i).pageTable.setEntry va size new)) := by
  have hco := content_of_leafAt ((h.view i va hv).trans hl)
  rw [level_ofLevel size.level_le] at hco
  obtain ⟨hvw, hls⟩ := setEntry_spec hco new hv
  refine h.setPageTable (fun v hv' => ?_) fun p => ?_
  · rw [hvw v hv', h.view i v hv']
  · have hcn := hls (owns p)
    obtain ⟨hone, hall⟩ := h.leaf_le hv hl p
    rw [hl]
    simp only [elim_some] at hcn ⊢
    omega

section
variable (hv : va < arch.span)
include hv

omit [DecidableEq ι] in
theorem queryPage_spec : Triple (Inv w) (queryPage i va) (fun r s => Inv w s ∧ match r with
        | .ok (p, flags, size) => ∃ l, w.view i va = some (size.level, l) ∧
            p = l.paddr + va % size.bytes ∧ flags = l.flags
        | .error _ => w.view i va = none) E := by
  intro s h
  rw [← h.view i va hv]
  refine ⟨h, ?_⟩
  cases hquery : (s.spaces i).pageTable.query va with
  | ok found => exact query_ok hquery
  | error e => exact PageTable.query_error hquery

/-- A page is mapped where there was none. -/
theorem mapPage_spec (tgt : Nat) (size : PageSize) (flags : MappingFlags) :
    Triple (Inv w) (mapPage i va tgt size flags) (fun r s => match r with
        | .ok _ => (∀ v, v < arch.span → PageTable.SamePage size.level va v → w.view i v = none) ∧
            Inv (w.setLeaf i va size (some ⟨tgt - tgt % size.bytes, arch.stored flags⟩)) s
        | .error _ => Inv w s) E := by
  refine .modifyGet fun s h => ?_
  have hsc := (s.spaces i).pageTable.map_spec s.grants s.requests va tgt size flags hv
  obtain ⟨⟨t, requests, r⟩, hr⟩ : ∃ r, r =
    (s.spaces i).pageTable.map s.grants s.requests va tgt size flags := ⟨_, rfl⟩
  simp only [← hr] at hsc ⊢
  cases r with
  | error e => exact (h.sameTable hsc.1 hsc.2).of_eq rfl rfl rfl rfl rfl rfl rfl rfl rfl
  | ok _ =>
    obtain ⟨hfr, hvw, hls⟩ := hsc
    have hfr : ∀ v, v < arch.span → PageTable.SamePage size.level va v → w.view i v = none :=
      fun v hv' hpg => (h.view i v hv').symm.trans (hfr v hv' hpg)
    refine ⟨hfr, ?_⟩
    have hset : Inv (w.setLeaf i va size (some ⟨tgt - tgt % size.bytes, arch.stored flags⟩))
        (s.setPageTable i t) := by
      refine h.setPageTable (fun v hv' => ?_) fun p => ?_
      · rw [hvw v hv', h.view i v hv']
        rfl
      · rw [hfr va hv rfl, hls]
        simp only [elim_none, elim_some]
        omega
    exact hset.of_eq rfl rfl rfl rfl rfl rfl rfl rfl rfl

theorem unmapPage_spec : Triple (Inv w) (unmapPage i va) (fun r s => match r with
        | .ok (p, size) => ∃ l, w.view i va = some (size.level, l) ∧ p = l.paddr ∧
            Inv (w.setLeaf i va size none) s
        | .error e => e = .notMapped ∧ w.view i va = none ∧ Inv w s) E := by
  refine .modifyGet fun s h => ?_
  cases hunm : (s.spaces i).pageTable.unmap va with
  | ok found =>
    obtain ⟨t, p, size⟩ := found
    obtain ⟨l, hl, hp, rfl⟩ := unmap_ok hunm
    rw [h.view i va hv] at hl
    simp only [hunm]
    exact ⟨l, hl, hp, h.setEntry hv hl none⟩
  | error e =>
    simp only [hunm]
    refine ⟨PageTable.unmap_error hunm, ?_, h⟩
    rw [← h.view i va hv]
    exact PageTable.getEntry_none fun l size he => by simp [unmap, he] at hunm

theorem remapPage_spec (hl : w.view i va = some (size.level, l)) (paddr : Nat)
    (flags : MappingFlags) :
    Triple (Inv w) (remapPage i va paddr flags)
      (fun r s => r = .ok size ∧ Inv (w.setLeaf i va size (some ⟨paddr, arch.stored flags⟩)) s) E := by
  refine .modifyGet fun s h => ?_
  have he := getEntry_some.mpr ((h.view i va hv).trans hl)
  simp only [remap, he, true_and]
  exact h.setEntry hv hl _

theorem protectPage_spec (hl : w.view i va = some (size.level, l)) (flags : MappingFlags) :
    Triple (Inv w) (protectPage i va flags)
      (fun r s => r = .ok size ∧ Inv (w.setLeaf i va size (some {l with flags := arch.stored flags})) s) E := by
  refine .modifyGet fun s h => ?_
  have he := getEntry_some.mpr ((h.view i va hv).trans hl)
  simp only [protect, he, true_and]
  exact h.setEntry hv hl _

end

end Tables

/-! ### Pages -/

theorem PageSize.bytes_pos (size : PageSize) : 0 < size.bytes := Nat.pow_pos (by decide)

variable {addr v : Nat}

theorem samePage_iff {size : PageSize} (h : addr % size.bytes = 0) :
    PageTable.SamePage size.level addr v ↔ addr ≤ v ∧ v < addr + size.bytes := by
  show v / size.bytes = addr / size.bytes ↔ _
  obtain ⟨k, rfl⟩ := Nat.dvd_of_mod_eq_zero h
  rw [Nat.mul_div_cancel_left k size.bytes_pos, Nat.div_eq_iff size.bytes_pos, Nat.mul_comm k]
  have := size.bytes_pos
  omega

/-! ### Flags of leaves -/

variable {flags : MappingFlags} {α : Type}

theorem fromFlags_alloc : fromFlags flags = .alloc ↔ flags.allocFrame := by
  unfold fromFlags
  split <;> simp_all

theorem fromFlags_static : fromFlags flags = .static ↔ flags.allocFrame = false := by
  unfold fromFlags
  split <;> simp_all

theorem stored_allocFrame (arch : Arch) (flags : MappingFlags) :
    (arch.stored flags).allocFrame = flags.allocFrame := by
  unfold Arch.stored
  split
  · rfl
  · split <;> rfl

/-- A leaf says what stands behind it. -/
theorem pteFlags_kind {arch : Arch} {kind : FrameKind} {leafFlags : MappingFlags}
    (h : pteFlags arch kind flags = .ok leafFlags) : fromFlags (arch.stored leafFlags) = kind := by
  have hap : leafFlags.allocFrame = (kind.apply flags).allocFrame := by
    unfold pteFlags at h
    cases kind <;> dsimp only at h <;> split at h
    all_goals first
      | rw [← Except.ok.inj h]; rfl
      | split at h
        · cases h
        · rw [← Except.ok.inj h]; rfl
  unfold fromFlags
  rw [stored_allocFrame, hap]
  cases kind <;> rfl

section Programs
variable {arch : Arch} {ι : Type} {E : XStop → Memory arch ι → Prop} {P : Memory arch ι → Prop}

theorem require_spec {condition : Bool} {e : XError}
    (hE : ∀ s, P s → condition = false → E (.error e) s) :
    Triple P (require condition e) (fun _ s => P s ∧ condition) E := by
  cases condition with
  | true => exact .pure fun s hs => ⟨hs, rfl⟩
  | false => exact .throw fun s hs => hE s hs rfl

theorem ofResult_spec (r : Except XError α) (hE : ∀ e s, P s → r = .error e → E (.error e) s) :
    Triple P (ofResult r) (fun a s => P s ∧ r = .ok a) E := by
  cases r with
  | ok a => exact .pure fun s hs => ⟨hs, rfl⟩
  | error e => exact .throw fun s hs => hE e s hs rfl

theorem expect_spec {Q : α → Memory arch ι → Prop} {x : Prog arch ι α}
    (hx : Triple P x Q fun _ _ => False) : Triple P (expect x) Q E := by
  refine .bind hx.attempt fun r => ?_
  cases r with
  | ok a => exact .pure fun s hs => hs
  | error e => exact fun s hs => hs.elim

/-- A loop over the pages of a range. -/
theorem forPages_spec {n start : Nat} {f : Nat → Prog arch ι Unit} {I : Nat → Memory arch ι → Prop}
    (hal : start % ps.bytes = 0)
    (h : ∀ k, k < n → Triple (I k) (f (start + k * ps.bytes)) (fun _ => I (k + 1)) E) :
    Triple (I 0) (forPages start (start + n * ps.bytes) ps f) (fun _ => I n) E := by
  have hpa : pageIter start (start + n * ps.bytes) ps = some (List.range' start n ps.bytes) := by
    unfold pageIter
    rw [if_pos ⟨hal, by rw [Nat.add_mul_mod_self_right, hal]⟩, Nat.add_sub_cancel_left,
      Nat.mul_div_cancel n ps.bytes_pos]
  unfold forPages
  rw [hpa]
  exact .forM_range' n start I h

end Programs

variable {l : Leaf} {level : Nat}

section Ranges
variable {arch : Arch} {ι : Type} [Fintype ι] {w : World ι} {s : Memory arch ι}
  {E : XStop → Memory arch ι → Prop} {i : ι} {start : Nat} {ps : PageSize}

/-- All addresses of a page see its leaf. -/
theorem Inv.coherent (h : Inv w s) {v' : Nat} (hv : v < arch.span) (hv' : v' < arch.span)
    (hl : w.view i v = some (level, l)) (hpg : PageTable.SamePage level v v') :
    w.view i v' = some (level, l) := by
  have hfo := (h.view i v hv).trans hl
  have hlow := (Radix.get?_depth hfo).2
  have hco := content_of_leafAt hfo
  rw [← h.view i v' hv']
  have hse := PageTable.leafAt_of_content hco hv hv' (by rwa [level_ofLevel hlow])
  rwa [level_ofLevel hlow] at hse

theorem validateRange_spec {size : Nat}
    (hE : ∀ s, Inv w s → ¬ w.Fits i start size ps → E (.error .invalidInput) s) :
    Triple (Inv w) (validateRange i start size ps)
      (fun _ s => Inv w s ∧ w.Fits i start size ps) E := by
  refine .start fun s h => .get_bind ?_
  have hiff : (size != 0 && start % ps.bytes == 0 && size % ps.bytes == 0 &&
      (s.spaces i).containsRange start size) ↔ w.Fits i start size ps := by
    have hst : (s.spaces i).range.start = (w.ranges i).1 := congrArg Prod.fst (h.ranges i)
    have hz : (s.spaces i).range.size = (w.ranges i).2 := congrArg Prod.snd (h.ranges i)
    simp only [AddressSpace.containsRange, Bool.and_eq_true, bne_iff_ne, beq_iff_eq, decide_eq_true_eq]
    rw [hst, hz]
    exact ⟨fun ⟨⟨⟨hne, ha⟩, hs⟩, hab, hbe⟩ => ⟨hne, ha, hs, hab, hbe⟩,
      fun hfit => ⟨⟨⟨hfit.nonempty, hfit.startAligned⟩, hfit.sizeAligned⟩, hfit.above, hfit.below⟩⟩
  refine (require_spec fun t ht hfa => ?_).post fun _ t ht => ?_
  · refine ht ▸ hE s h fun hfit => ?_
    rw [hiff.mpr hfit] at hfa
    cases hfa
  · exact ⟨ht.1 ▸ h, hiff.mp ht.2⟩

end Ranges

section Operations
variable {arch : Arch} {ι : Type} [Fintype ι] [DecidableEq ι] {w : World ι} {s : Memory arch ι}
  {E : XStop → Memory arch ι → Prop} {i : ι} {start : Nat} {ps : PageSize} {leaves : Nat → Leaf} {f : Frame}

/-! ### Owned frames -/

omit [DecidableEq ι] in
theorem Inv.mapped_pos (h : Inv w s) (hv : v < arch.span) (hl : w.view i v = some (level, l))
    (hal : l.flags.allocFrame) : 0 < w.mapped l.paddr := by
  have hlow := (Radix.get?_depth ((h.view i v hv).trans hl)).2
  rw [← level_ofLevel hlow] at hl
  obtain ⟨hone, hall⟩ := h.leaf_le hv hl l.paddr
  have hse : owns l.paddr l = 1 := if_pos ⟨hal, rfl⟩
  omega

/-- Two leaves that own a frame have a reference each. -/
theorem Inv.two_leaves (h : Inv w s) {j : ι} {v' level' : Nat} {leaf' : Leaf} (hv : v < arch.span)
    (hv' : v' < arch.span) (hl : w.view i v = some (level, l)) (hle' : w.view j v' = some (level', leaf'))
    (hal : l.flags.allocFrame) (hal' : leaf'.flags.allocFrame)
    (hpa : leaf'.paddr = l.paddr) (hot : j = i → ¬ PageTable.SamePage level v v') : 2 ≤ w.mapped l.paddr := by
  have hlow := (Radix.get?_depth ((h.view i v hv).trans hl)).2
  have hhe : w.view i v = some ((ofLevel level).level, l) := by rw [level_ofLevel hlow, hl]
  -- without the first leaf, the second one still owns the frame
  have hwi := h.setEntry hv hhe none
  have hst : (w.setLeaf i v (ofLevel level) none).view j v' = some (level', leaf') := by
    simp only [World.setLeaf]
    by_cases hj : j = i
    · subst hj
      rw [update_self, level_ofLevel hlow, if_neg (hot rfl), hle']
    · rw [update_of_ne hj, hle']
  have hpos := hwi.mapped_pos hv' hst hal'
  have hse : owns l.paddr l = 1 := if_pos ⟨hal, rfl⟩
  rw [hpa] at hpos
  simp only [World.setLeaf, hl, elim_some, elim_none] at hpos
  omega

omit [DecidableEq ι] in
/-- A leaf that owns a frame has its reference. -/
theorem Inv.refs_pos (h : Inv w s) (hbal : w.Balanced) (hv : v < arch.span)
    (hl : w.view i v = some (level, l)) (hal : l.flags.allocFrame) : 0 < w.refs l.paddr := by
  have := h.mapped_pos hv hl hal
  rw [hbal l.paddr]
  omega

omit [DecidableEq ι] in
theorem Inv.aligned (h : Inv w s) {p : Nat} (hp : 0 < w.refs p) : p % frameSize = 0 :=
  Memory.aligned_of_known (h.inDatabase hp)

omit [DecidableEq ι] in
theorem orDrop_spec {P : Memory arch ι → Prop} {Q : α → Memory arch ι → Prop}
    {x : Prog arch ι α} (hp : 0 < w.refs f.paddr)
    (hx : Triple P x Q fun e s => e ≠ .panic ∧ Inv w s)
    (hE : ∀ code s, Inv (w.drop f.paddr) s → E (.error code) s) : Triple P (orDrop f x) Q E := by
  refine .bind hx.attempt fun r => ?_
  match r with
  | .ok a => exact .pure fun s hs => hs
  | .error (.error code) =>
    refine ((dropFrame_spec hp).pre (fun s hs => hs.2)).bind fun _ => ?_
    exact .throw fun s hs => hE code s hs
  | .error .panic => exact fun s hs => absurd rfl hs.1

omit [DecidableEq ι] in
theorem refuseMapped_spec (hv : addr < arch.span) (hE : ∀ code s, Inv w s → E (.error code) s) :
    Triple (Inv w) (refuseMapped i addr) (fun _ s => Inv w s ∧ w.view i addr = none) E := by
  refine (queryPage_spec hv).bind fun r => ?_
  cases r with
  | ok found => exact .throw fun s hs => hE _ s hs.1
  | error e => exact .skip

theorem mapFrame_spec (hp : 0 < w.refs f.paddr)
    (hE : ∀ code s, Inv (w.drop f.paddr) s → E (.error code) s) :
    Triple (Inv w) (mapFrame i addr f flags)
      (fun _ s => ∃ leafFlags, pteFlags arch .alloc flags = .ok leafFlags ∧
        w.Fits i addr size4K.bytes .size4K ∧ w.view i addr = none ∧
        Inv ((w.setLeaf i addr .size4K (some ⟨f.paddr, arch.stored leafFlags⟩)).forget f.paddr) s) E := by
  refine orDrop_spec hp (.bind (validateRange_spec fun s hs _ => ⟨nofun, hs⟩) fun _ => ?_) hE
  refine .start fun s ⟨h, hfit⟩ => ?_
  have hha := h.fits_low hfit
  have hal := h.aligned hp
  have hv : addr < arch.span := by
    have := size4K.bytes_pos
    omega
  refine .resume ?_ h
  refine (refuseMapped_spec hv fun code s hs => ⟨nofun, hs⟩).bind fun _ => ?_
  refine .next (ofResult_spec _ fun e s hs _ => ⟨nofun, hs.1⟩) fun leafFlags s ⟨⟨h, hfr⟩, hf⟩ => ?_
  refine .resume ?_ h
  refine (mapPage_spec hv f.paddr .size4K leafFlags).bind fun r => ?_
  cases r with
  | error e => exact .throw fun s hs => ⟨nofun, hs⟩
  | ok _ =>
    refine .bind (.pure fun s hs => hs.2) fun _ => (intoPte_spec f).bind fun _ => ?_
    refine .pure fun s hs => ⟨leafFlags, hf, hfit, hfr, ?_⟩
    have htgt : f.paddr - f.paddr % size4K.bytes = f.paddr := by
      show f.paddr - f.paddr % frameSize = _
      rw [hal, Nat.sub_zero]
    rwa [htgt] at hs

theorem replaceFrame_spec {expected replacement : Frame} (hbal : w.Balanced) (hp : 0 < w.refs replacement.paddr)
    (hv : addr < arch.span) (hE : ∀ code s, Inv (w.drop replacement.paddr) s → E (.error code) s) :
    Triple (Inv w) (replaceFrame i addr expected replacement flags)
      (fun _ s => ∃ leafFlags l, pteFlags arch .alloc flags = .ok leafFlags ∧
        w.view i (addr - addr % size4K.bytes) = some (0, l) ∧ l.paddr = expected.paddr ∧
        l.flags.allocFrame ∧ 0 < w.mapped l.paddr ∧
        Inv ((((w.setLeaf i (addr - addr % size4K.bytes) .size4K
          (some ⟨replacement.paddr, arch.stored leafFlags⟩)).forget replacement.paddr).take l.paddr).drop
            l.paddr) s) E := by
  have hpg : addr - addr % size4K.bytes < arch.span := (Nat.sub_le _ _).trans_lt hv
  generalize had : addr - addr % size4K.bytes = page at hpg
  refine orDrop_spec hp ?_ hE
  rw [had]
  refine (queryPage_spec hpg).bind fun r => ?_
  cases r with
  | error e => exact fun s hs => ⟨nofun, hs.1⟩
  | ok found =>
    obtain ⟨mapped, cur, found⟩ := found
    refine .start fun s ⟨h, l, hl, hmap, hcur⟩ => ?_
    refine .resume (.pure_bind ?_) h
    refine .bind (require_spec fun s hs _ => ⟨nofun, hs⟩) fun _ => ?_
    refine .next (ofResult_spec _ fun e s hs _ => ⟨nofun, hs.1⟩) fun leafFlags s ⟨⟨h, hma⟩, hf⟩ => ?_
    simp only [Bool.and_eq_true, beq_iff_eq] at hma
    obtain ⟨⟨hexp, rfl⟩, hal⟩ := hma
    have hph : mapped = l.paddr := by
      rw [hmap, ← had, Nat.sub_mod_eq_zero_of_mod_eq (Nat.mod_mod _ _).symm, Nat.add_zero]
    rw [hcur] at hal
    have hpos : 0 < w.refs mapped := hph ▸ h.refs_pos hbal hpg hl hal
    have hco := h.mapped_pos hpg hl hal
    refine .resume ?_ h
    refine (remapPage_spec hpg hl replacement.paddr leafFlags).next fun r s h => ?_
    obtain ⟨rfl, hset⟩ := h
    refine .resume (.pure_bind ?_) hset
    refine (intoPte_spec replacement).bind fun _ => ?_
    refine .next (expect_spec (takeFromPte_spec hpos)) fun old s h => ?_
    obtain ⟨rfl, hta⟩ := h
    refine .resume ?_ hta
    refine .post (dropFrame_spec ?_) fun _ s hs => ?_
    · exact hpos
    · subst hph
      exact ⟨leafFlags, l, hf, hl, hexp, hal, hco, hs⟩

omit [Fintype ι] in
/-- Addresses that the tables cannot tell apart. -/
theorem replaceFrame_mod (i : ι) (addr : Nat) (expected replacement : Frame) (flags : MappingFlags) :
    (replaceFrame i (addr % arch.span) expected replacement flags : Prog arch ι Unit) =
      replaceFrame i addr expected replacement flags := by
  have hpg : addr % arch.span - addr % arch.span % size4K.bytes =
      (addr - addr % size4K.bytes) % arch.span := by
    obtain ⟨k, hk⟩ := PageTable.bytes_dvd_span arch .size4K
    rw [Nat.mod_mod_of_dvd _ ⟨k, hk⟩, hk, Nat.mod_mul, Nat.add_sub_cancel_left]
    have hdo : addr - addr % size4K.bytes = size4K.bytes * (addr / size4K.bytes) := by
      have := Nat.div_add_mod addr size4K.bytes
      omega
    rw [hdo, Nat.mul_mod_mul_left]
  unfold replaceFrame queryPage remapPage
  rw [hpg]
  simp [PageTable.query_mod, PageTable.remap_mod]

/-! ### Static ranges -/

omit [Fintype ι] in
/-- A leaf that owns nothing, where there was none. -/
theorem World.setLeaf_static {va : Nat} (hfr : w.view i va = none) (hsta : l.flags.allocFrame = false) :
    w.setLeaf i va ps (some l) = {w with
      view := update w.view i fun v =>
        if PageTable.SamePage ps.level va v then some (ps.level, l) else w.view i v} := by
  simp [World.setLeaf, hfr, owns, hsta]

/-- The leaves of a static range, as far as they are there. -/
def World.paint (w : World ι) (i : ι) (start stop : Nat) (leaves : Nat → Leaf) (pageSize : PageSize) : World ι :=
  {w with view := update w.view i fun v =>
    if start ≤ v ∧ v < stop then some (pageSize.level, leaves v) else w.view i v}

omit [Fintype ι] in
theorem World.paint_empty (w : World ι) (i : ι) (start : Nat) (leaves : Nat → Leaf) (ps : PageSize) :
    w.paint i start start leaves ps = w := by
  have hvw : (fun v => if start ≤ v ∧ v < start then some (ps.level, leaves v) else w.view i v) = w.view i := by
    funext v
    rw [if_neg (by omega)]
  unfold World.paint
  rw [hvw, update_eq_self]

omit [Fintype ι] in
/-- One page more. -/
theorem World.setLeaf_paint {first stop : Nat} (hle : first ≤ stop)
    (hal : stop % ps.bytes = 0) (hfr : w.view i stop = none) (hsta : l.flags.allocFrame = false)
    (hls : ∀ v, stop ≤ v → v < stop + ps.bytes → leaves v = l) :
    (w.paint i first stop leaves ps).setLeaf i stop ps (some l) =
      w.paint i first (stop + ps.bytes) leaves ps := by
  have hpa : (w.paint i first stop leaves ps).view i stop = none := by
    simp [World.paint, hfr]
  rw [World.setLeaf_static hpa hsta]
  unfold World.paint
  simp only [update_idem, update_self]
  congr 2
  funext v
  have hpg := samePage_iff (v := v) hal
  by_cases hin : stop ≤ v ∧ v < stop + ps.bytes
  · rw [if_pos (hpg.mpr hin), if_pos ⟨by omega, hin.2⟩, hls v hin.1 hin.2]
  · rw [if_neg (mt hpg.mp hin)]
    refine if_congr ?_ rfl rfl
    omega

omit [Fintype ι] in
/-- One page less. -/
theorem World.setLeaf_unpaint {first stop : Nat}
    (hlt : first + ps.bytes ≤ stop) (hal : first % ps.bytes = 0)
    (hfr : ∀ v, first ≤ v → v < first + ps.bytes → w.view i v = none)
    (hsta : (leaves first).flags.allocFrame = false) :
    (w.paint i first stop leaves ps).setLeaf i first ps none =
      w.paint i (first + ps.bytes) stop leaves ps := by
  have hpos := ps.bytes_pos
  have hpa : (w.paint i first stop leaves ps).view i first = some (ps.level, leaves first) := by
    have hin : first ≤ first ∧ first < stop := by omega
    simp only [World.paint, update_self]
    rw [if_pos hin]
  unfold World.setLeaf
  rw [hpa]
  unfold World.paint
  simp only [update_idem, update_self, Option.map_none, elim_some, owns, hsta]
  congr 2
  funext v
  have hpg := samePage_iff (v := v) hal
  by_cases hin : first ≤ v ∧ v < first + ps.bytes
  · rw [if_pos (hpg.mpr hin), if_neg (by omega), hfr v hin.1 hin.2]
  · rw [if_neg (mt hpg.mp hin)]
    refine if_congr ?_ rfl rfl
    omega

section Static
variable {leaves : Nat → Leaf} {n : Nat}

/-- Taking the installed pages back. -/
theorem removeInstalled_spec (hal : start % ps.bytes = 0) (hsn : start + n * ps.bytes ≤ arch.span)
    (hfr : ∀ v, start ≤ v → v < start + n * ps.bytes → w.view i v = none)
    (hsta : ∀ v, (leaves v).flags.allocFrame = false) :
    Triple (Inv (w.paint i start (start + n * ps.bytes) leaves ps))
      (forPages start (start + n * ps.bytes) ps (removeInstalled i))
      (fun _ => Inv w) E := by
  refine .imp (forPages_spec (I := fun k =>
    Inv (w.paint i (start + k * ps.bytes) (start + n * ps.bytes) leaves ps)) hal
      fun k hk => ?_) (fun s hs => ?_) fun _ s hs => ?_
  · have hpos := ps.bytes_pos
    have hst : (k + 1) * ps.bytes ≤ n * ps.bytes := Nat.mul_le_mul_right _ hk
    rw [Nat.succ_mul] at hst
    have hpg : (start + k * ps.bytes) % ps.bytes = 0 := by
      rw [Nat.add_mul_mod_self_right, hal]
    refine (unmapPage_spec (by omega)).bind fun r => ?_
    have hth : (w.paint i (start + k * ps.bytes) (start + n * ps.bytes) leaves ps).view i
        (start + k * ps.bytes) = some (ps.level, leaves (start + k * ps.bytes)) := by
      have hin : start + k * ps.bytes ≤ start + k * ps.bytes ∧
        start + k * ps.bytes < start + n * ps.bytes := by omega
      simp only [World.paint, update_self]
      rw [if_pos hin]
    cases r with
    | error e =>
      refine .throw fun s hs => ?_
      rw [hs.2.1] at hth
      cases hth
    | ok found =>
      refine .pure fun s ⟨l, hl, _, hset⟩ => ?_
      obtain ⟨hle, -⟩ := Prod.mk.inj (Option.some.inj (hth.symm.trans hl))
      have hz : found.2 = ps := by
        rw [← ofLevel_level found.2, ← hle, ofLevel_level]
      rw [hz, World.setLeaf_unpaint (by omega) hpg (fun v hlow hh => hfr v (by omega) (by omega))
        (hsta _)] at hset
      rwa [Nat.succ_mul, ← Nat.add_assoc]
  · rwa [Nat.zero_mul]
  · rwa [World.paint_empty] at hs

/-- Before page `k` of a static range is mapped. -/
def Painted (w : World ι) (i : ι) (start : Nat) (pageSize : PageSize) (leaves : Nat → Leaf) (k : Nat)
    (s : Memory arch ι) : Prop :=
  (∀ v, start ≤ v → v < start + k * pageSize.bytes → w.view i v = none) ∧
    Inv (w.paint i start (start + k * pageSize.bytes) leaves pageSize) s

/-- The leaf that maps an address of a static range. -/
def staticLeaf (start physical : Nat) (pageSize : PageSize) (flags : MappingFlags) (v : Nat) : Leaf :=
  ⟨physical + (v - start - (v - start) % pageSize.bytes), flags⟩

omit [DecidableEq ι] in
theorem staticLeaf_page {phys k : Nat} (hlow : start + k * ps.bytes ≤ v)
    (hh : v < start + k * ps.bytes + ps.bytes) :
    staticLeaf start phys ps flags v = ⟨phys + k * ps.bytes, flags⟩ := by
  obtain ⟨r, rfl⟩ := Nat.exists_eq_add_of_le hlow
  have hr : r < ps.bytes := by omega
  have hoff : start + k * ps.bytes + r - start = k * ps.bytes + r := by omega
  unfold staticLeaf
  rw [hoff, Nat.mul_add_mod_of_lt hr, Nat.add_sub_cancel]

theorem mapStaticPage_spec {phys k : Nat} (hal : start % ps.bytes = 0)
    (hph : phys % ps.bytes = 0) (hsn : start + (k + 1) * ps.bytes ≤ arch.span)
    (hsta : flags.allocFrame = false) (hE : ∀ code s, Inv w s → E (.error code) s) :
    Triple (Painted w i start ps (staticLeaf start phys ps (arch.stored flags)) k)
      (mapStaticPage i start phys ps flags (start + k * ps.bytes))
      (fun _ => Painted w i start ps (staticLeaf start phys ps (arch.stored flags)) (k + 1)) E := by
  have hpos := ps.bytes_pos
  rw [Nat.succ_mul] at hsn
  have hsta : (arch.stored flags).allocFrame = false := (stored_allocFrame arch flags).trans hsta
  have hpg : (start + k * ps.bytes) % ps.bytes = 0 := by
    rw [Nat.add_mul_mod_self_right, hal]
  refine .start fun s ⟨hfr, h⟩ => ?_
  refine .resume ?_ h
  refine (mapPage_spec (by omega) _ ps flags).bind fun r => ?_
  cases r with
  | error e =>
    refine .bind (expect_spec (removeInstalled_spec hal (by omega) hfr fun v => hsta)) fun _ => ?_
    exact .throw fun s hs => hE _ s hs
  | ok _ =>
    refine .pure fun s ⟨hno, hset⟩ => ?_
    have hno : ∀ v, start + k * ps.bytes ≤ v → v < start + k * ps.bytes + ps.bytes →
        w.view i v = none := by
      intro v hlow hh
      have hun := hno v (by omega) ((samePage_iff hpg).mpr ⟨hlow, hh⟩)
      simp only [World.paint, update_self] at hun
      rwa [if_neg (by omega)] at hun
    have htgt : phys + (start + k * ps.bytes - start) = phys + k * ps.bytes := by omega
    have hpa : (w.paint i start (start + k * ps.bytes)
        (staticLeaf start phys ps (arch.stored flags)) ps).setLeaf i (start + k * ps.bytes)
          ps (some ⟨phys + k * ps.bytes, arch.stored flags⟩) = _ :=
      World.setLeaf_paint (Nat.le_add_right _ _) hpg (hno _ le_rfl (by omega)) hsta
        fun v hlow hh => staticLeaf_page hlow hh
    rw [htgt, Nat.add_mul_mod_self_right, hph, Nat.sub_zero, hpa] at hset
    unfold Painted
    rw [Nat.succ_mul, ← Nat.add_assoc]
    refine ⟨fun v hlow hh => ?_, hset⟩
    by_cases hv : v < start + k * ps.bytes
    · exact hfr v hlow hv
    · exact hno v (by omega) hh

/-- A static range is mapped as a whole or not at all, and no count changes. -/
theorem mapStaticRange_spec {fs : StaticFrameRange} (hE : ∀ code s, Inv w s → E (.error code) s) :
    Triple (Inv w) (mapStaticRange i start fs flags ps)
      (fun _ s => ∃ leafFlags, pteFlags arch .static flags = .ok leafFlags ∧ fs.allows flags ∧
        w.Fits i start fs.size ps ∧
        (∀ v, start ≤ v → v < start + fs.size → w.view i v = none) ∧
        Inv (w.paint i start (start + fs.size)
          (staticLeaf start fs.start ps (arch.stored leafFlags)) ps) s) E := by
  refine .bind (validateRange_spec fun s hs _ => hE _ s hs) fun _ => ?_
  refine .next (require_spec fun s hs _ => hE _ s hs.1) fun _ s ⟨⟨h, hfit⟩, haw⟩ => ?_
  simp only [Bool.and_eq_true, beq_iff_eq] at haw
  obtain ⟨hph, haw⟩ := haw
  have hha := h.fits_low hfit
  obtain ⟨n, hn⟩ : ∃ n, fs.size = n * ps.bytes :=
    (Nat.dvd_of_mod_eq_zero hfit.sizeAligned).imp fun n hn => hn.trans (Nat.mul_comm _ _)
  rw [hn] at hha ⊢
  have hst : ∀ k, k < n → start + (k + 1) * ps.bytes ≤ arch.span := by
    intro k hk
    have hle : (k + 1) * ps.bytes ≤ n * ps.bytes := Nat.mul_le_mul_right _ hk
    omega
  refine .resume ?_ h
  refine .bind (forPages_spec (I := fun _ => Inv w) hfit.startAligned fun k hk => ?_) fun _ => ?_
  · have hk := hst k hk
    rw [Nat.succ_mul] at hk
    have := ps.bytes_pos
    exact (refuseMapped_spec (by omega) hE).post fun _ s hs => hs.1
  · refine .next (ofResult_spec _ fun e s hs _ => hE _ s hs) fun leafFlags s ⟨h, hf⟩ => ?_
    have hsta : leafFlags.allocFrame = false := by
      rw [← stored_allocFrame arch]
      exact fromFlags_static.mp (pteFlags_kind hf)
    refine .resume (.imp (forPages_spec hfit.startAligned fun k hk =>
      mapStaticPage_spec hfit.startAligned hph (hst k hk) hsta hE) (fun s hs => ?_) fun _ s hs => ?_) h
    · refine ⟨fun v hlow hh => by omega, ?_⟩
      rwa [Nat.zero_mul, Nat.add_zero, World.paint_empty]
    · refine ⟨leafFlags, hf, haw, ?_, hs.1, hs.2⟩
      rwa [← hn]

end Static

end Operations

end StarryX.Mm
