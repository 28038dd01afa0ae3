import StarryX.Mm.Mapping

/-! Operations on all leaves of a range.

`preflight_range` looks at every leaf first; what passes it can be unmapped without a failure.
`mapped_frames` takes a handle of each frame it finds, and gives all of them back on an error. -/
namespace StarryX.Mm
open Library Function
open World (drop mk setLeaf take)

namespace World
variable {ι : Type}

/-- Every leaf of a range has the kind and the size expected. -/
def Uniform (w : World ι) (i : ι) (start size : Nat) (kind : FrameKind) (pageSize : PageSize) : Prop :=
  ∀ v, start ≤ v → v < start + size → ∀ level leaf, w.view i v = some (level, leaf) →
    level = pageSize.level ∧ FrameKind.fromFlags leaf.flags = kind

/-- Leaves gave their references back, and nothing else happened. -/
structure Released (w w' : World ι) : Prop where
  ranges : w'.ranges = w.ranges
  handles : w'.handles = w.handles
  bytes : w'.bytes = w.bytes
  frames : w'.frames = w.frames
  allocs : w'.allocs = w.allocs
  refs : ∀ p, w'.refs p + w.mapped p = w.refs p + w'.mapped p
  fewer : ∀ p, w'.mapped p ≤ w.mapped p

theorem Released.refl (w : World ι) : Released w w := ⟨rfl, rfl, rfl, rfl, rfl, fun _ => rfl, fun _ => le_rfl⟩

theorem Released.trans {w w' w'' : World ι} (h : Released w w') (h' : Released w' w'') : Released w w'' where
  ranges := h'.ranges.trans h.ranges
  handles := h'.handles.trans h.handles
  bytes := h'.bytes.trans h.bytes
  frames := h'.frames.trans h.frames
  allocs := h'.allocs.trans h.allocs
  refs := by
    intro p
    have := h.refs p
    have := h'.refs p
    omega
  fewer := fun p => (h'.fewer p).trans (h.fewer p)

theorem Released.balanced {w w' : World ι} (h : Released w w') (hbal : w.Balanced) : w'.Balanced := by
  intro p
  have := h.refs p
  have := hbal p
  rw [h.handles]
  omega

theorem Released.refs_le {w w' : World ι} (h : Released w w') (p : Nat) : w'.refs p ≤ w.refs p := by
  have := h.refs p
  have := h.fewer p
  omega

end World

section Preflight
variable {arch : Arch} {ι : Type} [Fintype ι] {w : World ι} {s : Memory arch ι}
  {E : XStop → Memory arch ι → Prop} {i : ι} {start size : Nat} {kind : FrameKind} {ps : PageSize}

/-! ### The check -/

/-- What `preflight_range` wants of a leaf. -/
structure LeafFine (w : World ι) (start stop : Nat) (kind : FrameKind) (pageSize : PageSize) (visit : Visit) : Prop where
  bounded : visit.address + visit.size.bytes < 2 ^ 64
  above : start ≤ visit.address
  below : visit.address + visit.size.bytes ≤ stop
  kind : FrameKind.fromFlags visit.leaf.flags = kind
  size : visit.size = pageSize
  live : FrameKind.fromFlags visit.leaf.flags = .alloc → 0 < w.refs visit.leaf.paddr

theorem validatePte_spec (p : Nat) : Triple (Inv w) (attempt (validatePte p))
      (fun r s => Inv w s ∧ match r with
        | .ok _ => 0 < w.refs p
        | .error e => w.refs p = 0 ∧ e ≠ .panic) E := by
  have hva : Triple (Inv w) (validatePte p : Prog arch ι Unit) (fun _ s => Inv w s ∧ 0 < w.refs p)
      fun e s => Inv w s ∧ w.refs p = 0 ∧ e ≠ .panic := by
    refine (liveMetadata_spec fun code s hs hze => ⟨hs, hze, nofun⟩).bind fun _ => ?_
    exact .pure fun s hs => ⟨hs.2.2, hs.2.1⟩
  refine hva.attempt.post fun r s hs => ?_
  cases r with
  | ok a => exact hs
  | error e => exact hs

theorem leafError_spec (v : Visit) : Triple (Inv w) (leafError start (start + size) kind ps v)
      (fun r s => Inv w s ∧ (r = none ↔ LeafFine w start (start + size) kind ps v)) E := by
  unfold leafError
  split
  · exact .pure fun s hs => ⟨hs, nofun, fun hf => absurd hf.bounded (by omega)⟩
  · split
    · exact .pure fun s hs => ⟨hs, nofun, fun hf => by
        have := hf.above
        have := hf.below
        omega⟩
    · split
      next hwr =>
        exact .pure fun s hs => ⟨hs, nofun, fun hf => absurd hwr (by simp [hf.kind, hf.size])⟩
      next hbo hins hr =>
        simp only [not_or, not_not, Nat.not_lt] at hins hr
        cases kind with
        | static =>
          refine .pure fun s hs => ⟨hs, fun _ => ?_, fun _ => rfl⟩
          refine ⟨by omega, hins.1, hins.2, hr.1, hr.2, fun hal => ?_⟩
          rw [hr.1] at hal
          cases hal
        | alloc =>
          refine (validatePte_spec v.leaf.paddr).bind fun r => ?_
          match r with
          | .ok _ =>
            refine .pure fun s hs => ⟨hs.1, fun _ => ?_, fun _ => rfl⟩
            exact ⟨by omega, hins.1, hins.2, hr.1, hr.2, fun _ => hs.2⟩
          | .error (.error e) =>
            refine .pure fun s hs => ⟨hs.1, nofun, fun hf => ?_⟩
            exact absurd (hf.live hr.1) (Nat.not_lt.mpr hs.2.1.le)
          | .error .panic => exact fun s hs => absurd rfl hs.2.2

theorem leafErrors_spec (vs : List Visit) (found : Option XError) :
    Triple (Inv w) (leafErrors start (start + size) kind ps vs found) (fun r s => Inv w s ∧
        (r = none ↔ found = none ∧ ∀ v ∈ vs, LeafFine w start (start + size) kind ps v)) E := by
  induction vs generalizing found with
  | nil => exact .pure fun s hs => ⟨hs, by simp⟩
  | cons v rest ih =>
    refine (leafError_spec v).next fun e s ⟨h, he⟩ => ?_
    refine .resume ((ih (e.or found)).post fun r s hs => ⟨hs.1, hs.2.trans ?_⟩) h
    rw [Option.or_eq_none_iff, he, List.forall_mem_cons]
    exact ⟨fun ⟨⟨hf, hno⟩, hrs⟩ => ⟨hno, hf, hrs⟩, fun ⟨hno, hf, hrs⟩ => ⟨⟨hf, hno⟩, hrs⟩⟩

theorem walkLeaves_spec (i : ι) (start size : Nat) (hE : ∀ code s, Inv w s → 2 ^ 64 ≤ start + size → E (.error code) s) :
    Triple (Inv w) (walkLeaves i start size)
      (fun vs s => Inv w s ∧ (s.spaces i).pageTable.walkLeafRange start size = .ok vs) E := by
  refine .start fun s h => .get_bind (.pure_bind ?_)
  cases hwalk : (s.spaces i).pageTable.walkLeafRange start size with
  | ok vs => exact .pure fun t ht => ⟨ht ▸ h, ht ▸ hwalk⟩
  | error e => exact .throw fun t ht => ht ▸ hE _ s h (PageTable.walkLeafRange_error hwalk).2

/-- Pages do not overlap. -/
theorem aligned_le {a b : Nat} (ps : PageSize) (ha : a % ps.bytes = 0) (hb : b % ps.bytes = 0)
    (hlt : a < b) : a + ps.bytes ≤ b := by
  obtain ⟨x, rfl⟩ := Nat.dvd_of_mod_eq_zero ha
  obtain ⟨y, rfl⟩ := Nat.dvd_of_mod_eq_zero hb
  have hxy : x + 1 ≤ y := Nat.lt_of_mul_lt_mul_left hlt
  calc ps.bytes * x + ps.bytes = ps.bytes * (x + 1) := by rw [Nat.mul_succ]
    _ ≤ ps.bytes * y := Nat.mul_le_mul_left _ hxy

theorem PageSize.level_injective {a b : PageSize} (h : a.level = b.level) : a = b := by
  rw [← PageSize.ofLevel_level a, h, PageSize.ofLevel_level]

/-- The visited leaves are fine exactly if all leaves of the range are as expected. -/
theorem visits_fine_iff (h : Inv w s) (hbal : w.Balanced) (hfit : w.Fits i start size ps)
    {vs : List Visit} (hwa : (s.spaces i).pageTable.walkLeafRange start size = .ok vs) :
    (∀ visit ∈ vs, LeafFine w start (start + size) kind ps visit) ↔
      w.Uniform i start size kind ps := by
  have hha := h.fits_low hfit
  obtain ⟨hso, hco⟩ := PageTable.mem_walkLeafRange hwa hha
  constructor
  · intro hf v hlow hhi lvl l hl
    have hfd := (h.view i v (by omega)).trans hl
    have hth := hf _ (hco v lvl l hlow hhi hfd)
    refine ⟨?_, hth.kind⟩
    rw [← hth.size, PageSize.level_ofLevel (Radix.get?_depth hfd).2]
  · intro huni visit hvi
    obtain ⟨hl, hal, hme, hbef⟩ := hso visit hvi
    have hsn : visit.address < arch.span := by omega
    have hvw : w.view i visit.address = some (visit.size.level, visit.leaf) :=
      (h.view i visit.address hsn).symm.trans hl
    -- the leaf is seen from inside the range, so it is one of the expected ones
    have hins : w.view i (max start visit.address) = some (visit.size.level, visit.leaf) := by
      refine h.coherent hsn (by omega) hvw ((samePage_iff hal).mpr ?_)
      have := visit.size.bytes_pos
      omega
    have hnem := hfit.nonempty
    obtain ⟨hlv, hki⟩ := huni (max start visit.address) (by omega) (by omega) _ _ hins
    have hz := PageSize.level_injective hlv
    rw [hz] at hal hme
    have hsp : (start + size) % ps.bytes = 0 := by
      rw [Nat.add_mod, hfit.startAligned, hfit.sizeAligned]
      exact Nat.zero_mod _
    have hab : start ≤ visit.address := by
      by_contra hbe
      have := aligned_le ps hal hfit.startAligned (not_le.mp hbe)
      omega
    have hbe := aligned_le ps hal hsp hbef
    have := PageTable.span_lt arch
    refine ⟨by rw [hz]; omega, hab, by rwa [hz], hki, hz, fun hac => ?_⟩
    exact h.refs_pos hbal hsn hvw (fromFlags_alloc.mp hac)

/-- `preflight_range` accepts exactly the ranges whose leaves are all as expected. -/
theorem preflightRange_spec (hbal : w.Balanced)
    (hE : ∀ code s, Inv w s → ¬ (w.Fits i start size ps ∧ w.Uniform i start size kind ps) →
      E (.error code) s) :
    Triple (Inv w) (preflightRange i start size kind ps)
      (fun _ s => Inv w s ∧ w.Fits i start size ps ∧ w.Uniform i start size kind ps) E := by
  refine .next (validateRange_spec fun s hs hnot => hE _ s hs fun hbo => hnot hbo.1) fun _ s ⟨h, hfit⟩ => ?_
  have hha := h.fits_low hfit
  have hsn := PageTable.span_lt arch
  refine .resume ?_ h
  refine (walkLeaves_spec i start size fun code s hs hla => by omega).next fun vs s ⟨h, hwa⟩ => ?_
  have hiff : (∀ v ∈ vs, LeafFine w start (start + size) kind ps v) ↔
      w.Uniform i start size kind ps := visits_fine_iff h hbal hfit hwa
  refine .resume ?_ h
  refine (leafErrors_spec vs none).bind fun r => ?_
  cases r with
  | none =>
    refine .pure fun s hs => ⟨hs.1, hfit, ?_⟩
    exact hiff.mp (hs.2.mp rfl).2
  | some e =>
    refine .throw fun s hs => hE _ s hs.1 fun hbo => ?_
    exact nomatch hs.2.mpr ⟨rfl, hiff.mpr hbo.2⟩

end Preflight

/-! ### Unmapping -/

section Unmapping
variable {arch : Arch} {ι : Type} [Fintype ι] [DecidableEq ι] {w : World ι} {s : Memory arch ι}
  {E : XStop → Memory arch ι → Prop} {i : ι} {start size va : Nat} {kind : FrameKind} {ps : PageSize} {l : Leaf}

/-- The leaves of a space below some address of a range are gone. -/
structure World.Removed (w w' : World ι) (i : ι) (start stop : Nat) : Prop extends World.Released w w' where
  view : w'.view = update w.view i fun v => if start ≤ v ∧ v < stop then none else w.view i v

omit [Fintype ι] in
theorem World.Removed.refl (w : World ι) (i : ι) (start : Nat) : w.Removed w i start start where
  toReleased := .refl w
  view := by
    have heq : (fun v => if start ≤ v ∧ v < start then none else w.view i v) = w.view i := by
      funext v
      rw [if_neg (by omega)]
    rw [heq, update_eq_self]

/-- A leaf goes, with what it owned. -/
theorem Inv.released (h : Inv w s) (hbal : w.Balanced) (hv : va < arch.span)
    (hl : w.view i va = some (ps.level, l)) (hal : l.flags.allocFrame) :
    w.Released (((w.setLeaf i va ps none).take l.paddr).drop l.paddr) := by
  obtain ⟨hone, hall⟩ := h.leaf_le hv hl l.paddr
  have hse : owns l.paddr l = 1 := if_pos ⟨hal, rfl⟩
  have hrf := h.refs_pos hbal hv hl hal
  refine ⟨rfl, ?_, rfl, rfl, rfl, fun p => ?_, fun p => ?_⟩
  · simp [setLeaf, take, drop]
  · simp only [setLeaf, take, drop, hl, Option.elim_some, Option.elim_none]
    by_cases hp : p = l.paddr
    · subst hp
      rw [update_self]
      omega
    · have hot : owns p l = 0 := if_neg fun hbo => hp hbo.2.symm
      rw [update_of_ne hp]
      omega
  · simp only [setLeaf, take, drop, Option.elim_none]
    omega

omit [Fintype ι] in
theorem World.setLeaf_released (hl : w.view i va = some (ps.level, l))
    (hst : l.flags.allocFrame = false) :
    w.Released (w.setLeaf i va ps none) ∧ (w.setLeaf i va ps none).mapped = w.mapped := by
  have hmap : (w.setLeaf i va ps none).mapped = w.mapped := by
    funext p
    simp [setLeaf, hl, owns, hst]
  exact ⟨⟨rfl, rfl, rfl, rfl, rfl, fun p => by rw [hmap]; rfl, fun p => by rw [hmap]⟩, hmap⟩

omit [Fintype ι] in
/-- One page more. -/
theorem World.Removed.step {w' w'' : World ι} {stop : Nat} (h : w.Removed w' i start stop) (hle : start ≤ stop)
    (hal : stop % ps.bytes = 0) (hrel : w'.Released w'')
    (hvw : w''.view = update w'.view i fun v =>
      if PageTable.SamePage ps.level stop v then none else w'.view i v) :
    w.Removed w'' i start (stop + ps.bytes) where
  toReleased := h.toReleased.trans hrel
  view := by
    rw [hvw, h.view]
    simp only [update_idem, update_self]
    congr 1
    funext v
    have hpg := samePage_iff (v := v) hal
    by_cases hin : stop ≤ v ∧ v < stop + ps.bytes
    · rw [if_pos (hpg.mpr hin), if_pos ⟨by omega, hin.2⟩]
    · rw [if_neg (mt hpg.mp hin)]
      refine if_congr ?_ rfl rfl
      omega

/-- While the pages of a range are unmapped. -/
def Unmapping (w : World ι) (i : ι) (start stop : Nat) (kind : FrameKind) (s : Memory arch ι) : Prop :=
  ∃ w', w.Removed w' i start stop ∧ (kind = .static → w'.mapped = w.mapped) ∧ Inv w' s

theorem unmapLeaf_spec {addr : Nat} (hbal : w.Balanced) (hle : start ≤ addr)
    (hal : addr % ps.bytes = 0) (hsp : addr + ps.bytes ≤ start + size)
    (hsn : start + size ≤ arch.span) (huni : w.Uniform i start size kind ps) :
    Triple (Unmapping w i start addr kind) (unmapLeaf i kind ps addr)
      (fun _ => Unmapping w i start (addr + ps.bytes) kind) E := by
  have hpos := ps.bytes_pos
  refine .start fun s ⟨w', hrem, hst, h⟩ => ?_
  have hhe : ∀ v, addr ≤ v → w'.view i v = w.view i v := by
    intro v hv
    rw [hrem.view, update_self, if_neg (by omega)]
  refine .resume ?_ h
  refine (unmapPage_spec (by omega)).bind fun r => ?_
  match r with
  | .error e =>
    -- nothing is mapped at the first address, so nothing in the page is
    refine .start fun s h => ?_
    obtain ⟨rfl, hno, h⟩ := h
    refine .pure fun t ht => ⟨w', ?_, hst, ht ▸ h⟩
    refine hrem.step hle hal (.refl w') ?_
    have heq : (fun v => if PageTable.SamePage ps.level addr v then none else w'.view i v) =
        w'.view i := by
      funext v
      by_cases hpg : PageTable.SamePage ps.level addr v
      · rw [if_pos hpg]
        have hin := (samePage_iff hal).mp hpg
        cases hfd : w'.view i v with
        | none => rfl
        | some found =>
          obtain ⟨lvl, l⟩ := found
          have hlv := (huni v (by omega) (by omega) lvl l ((hhe v hin.1).symm.trans hfd)).1
          rw [h.coherent (by omega) (by omega) hfd (by rw [hlv]; exact hpg.symm)] at hno
          cases hno
      · rw [if_neg hpg]
    rw [heq, update_eq_self]
  | .ok (physical, actual) =>
    refine .start fun s h' => ?_
    obtain ⟨l, hl, rfl, h'⟩ := h'
    obtain ⟨hlv, hki⟩ := huni addr hle (by omega) _ _ ((hhe addr le_rfl).symm.trans hl)
    obtain rfl := PageSize.level_injective hlv
    show Triple _ (if actual = actual then _ else _) _ _
    rw [if_pos rfl]
    cases kind with
    | static =>
      have hbit := fromFlags_static.mp hki
      obtain ⟨hrel, hmap⟩ := World.setLeaf_released hl hbit
      refine .pure fun t ht => ⟨_, hrem.step hle hal hrel rfl, ?_, ht ▸ h'⟩
      exact fun _ => hmap.trans (hst rfl)
    | alloc =>
      have hbit := fromFlags_alloc.mp hki
      have hbal' := hrem.balanced hbal
      have hrel := h.released hbal' (by omega) hl hbit
      have hrf := h.refs_pos hbal' (by omega) hl hbit
      refine .resume ?_ h'
      refine .next (expect_spec (takeFromPte_spec hrf)) fun f s h'' => ?_
      obtain ⟨rfl, h''⟩ := h''
      refine .resume ?_ h''
      refine .post (dropFrame_spec ?_) fun _ s hs => ?_
      · exact hrf
      · exact ⟨_, hrem.step hle hal hrel rfl, nofun, hs⟩

/-- **Unmapping** succeeds on exactly the ranges that fit and hold the expected leaves, and takes
all of them out. -/
theorem unmapRange_spec (hbal : w.Balanced)
    (hE : ∀ code s, Inv w s → ¬ (w.Fits i start size ps ∧ w.Uniform i start size kind ps) →
      E (.error code) s) :
    Triple (Inv w) (unmapRange i start size kind ps)
      (fun _ s => w.Fits i start size ps ∧ w.Uniform i start size kind ps ∧
        Unmapping w i start (start + size) kind s) E := by
  refine (preflightRange_spec hbal hE).next fun _ s ⟨h, hfit, huni⟩ => ?_
  have hha := h.fits_low hfit
  obtain ⟨n, hn⟩ : ∃ n, size = n * ps.bytes :=
    (Nat.dvd_of_mod_eq_zero hfit.sizeAligned).imp fun n hn => hn.trans (Nat.mul_comm _ _)
  refine .resume ?_ h
  rw [hn]
  refine .imp (forPages_spec (I := fun k => Unmapping w i start (start + k * ps.bytes) kind)
    hfit.startAligned fun k hk => ?_) (fun s hs => ?_) fun _ s hs => ?_
  · have hle : (k + 1) * ps.bytes ≤ n * ps.bytes := Nat.mul_le_mul_right _ hk
    rw [Nat.succ_mul] at hle
    have hpg : (start + k * ps.bytes) % ps.bytes = 0 := by
      rw [Nat.add_mul_mod_self_right, hfit.startAligned]
    rw [Nat.succ_mul, ← Nat.add_assoc]
    exact unmapLeaf_spec hbal (by omega) hpg (by omega) (by omega) huni
  · rw [Nat.zero_mul]
    exact ⟨w, .refl w i start, fun _ => rfl, hs⟩
  · exact ⟨hn ▸ hfit, hn ▸ huni, hs⟩

end Unmapping

/-! ### Handles for the frames of a range -/

namespace World
variable {ι : Type} (w : World ι) (fs : List Nat)

/-- A handle more for each frame of a list. -/
def hold (w : World ι) (frames : List Nat) : World ι :=
  {w with
    refs := fun p => w.refs p + frames.count p
    handles := fun p => w.handles p + frames.count p}

theorem hold_clone (p : Nat) : (w.hold fs).clone p = w.hold (fs ++ [p]) := by
  simp only [hold, clone, mk.injEq, true_and, and_true]
  constructor
  all_goals
    funext q
    by_cases hq : q = p
    · subst hq
      simp [Nat.add_assoc]
    · simp [hq, Ne.symm hq]

theorem hold_drop (p : Nat) : (w.hold (p :: fs)).drop p = w.hold fs := by
  simp only [hold, drop, mk.injEq, true_and, and_true]
  constructor
  all_goals
    funext q
    by_cases hq : q = p
    · subst hq
      simp
    · simp [hq, Ne.symm hq]

theorem hold_balanced {w : World ι} (h : w.Balanced) (fs : List Nat) : (w.hold fs).Balanced := by
  intro p
  have := h p
  show w.refs p + fs.count p = w.handles p + fs.count p + w.mapped p
  omega

end World

section Snapshot
variable {arch : Arch} {ι : Type} [Fintype ι] {w : World ι} {s : Memory arch ι}
  {E : XStop → Memory arch ι → Prop} {i : ι} {start stop : Nat}

theorem dropFrames_spec (fs : List Frame) :
    Triple (Inv (w.hold (fs.map Frame.paddr))) (dropFrames fs) (fun _ => Inv w) E := by
  induction fs with
  | nil => exact .skip
  | cons f rest ih =>
    refine .bind (dropFrame_spec ?_) fun _ => ?_
    · simp [World.hold]
    · rw [List.map_cons, World.hold_drop]
      exact ih

/-- What `mapped_frames` says of a leaf. -/
def Snapshot (visit : Visit) (mapped : Nat × Frame × MappingFlags) : Prop :=
  visit.leaf.flags.allocFrame = true ∧ visit.size = .size4K ∧ mapped =
    (visit.address, ⟨visit.leaf.paddr⟩, {visit.leaf.flags with allocFrame := false, protNone := false})

theorem cloneLeaf_spec {v : Visit} (hli : v.leaf.flags.allocFrame → 0 < w.refs v.leaf.paddr) :
    Triple (Inv w) (cloneLeaf v : Prog arch ι _)
      (fun mapped s => Snapshot v mapped ∧ Inv (w.clone v.leaf.paddr) s)
      (fun e s => e ≠ .panic ∧ Inv w s) := by
  refine .next (require_spec fun s hs _ => ⟨nofun, hs⟩) fun _ s ⟨h, hexp⟩ => ?_
  simp only [Bool.and_eq_true, beq_iff_eq] at hexp
  have hal := fromFlags_alloc.mp hexp.1
  refine .resume ?_ h
  refine (cloneFromPte_spec (hli hal) fun s hs => ⟨nofun, hs⟩).bind fun f => ?_
  refine .pure fun s hs => ?_
  obtain ⟨rfl, hcl⟩ := hs
  exact ⟨⟨hal, hexp.2, rfl⟩, hcl⟩

theorem cloneLeaves_spec (hE : ∀ code s, Inv w s → E (.error code) s) (vs : List Visit)
    (hli : ∀ v ∈ vs, v.leaf.flags.allocFrame → 0 < w.refs v.leaf.paddr)
    (fs : List (Nat × Frame × MappingFlags)) :
    Triple (Inv (w.hold (fs.map fun mapped => mapped.2.1.paddr))) (cloneLeaves vs fs : Prog arch ι _)
      (fun all s => Inv (w.hold (all.map fun mapped => mapped.2.1.paddr)) s ∧
        ∀ mapped ∈ all, mapped ∈ fs ∨ ∃ v ∈ vs, Snapshot v mapped) E := by
  induction vs generalizing fs with
  | nil => exact .pure fun s hs => ⟨hs, fun mapped hmap => .inl hmap⟩
  | cons v rest ih =>
    have hth : v.leaf.flags.allocFrame →
        0 < (w.hold (fs.map fun mapped => mapped.2.1.paddr)).refs v.leaf.paddr := fun hal =>
      (hli v List.mem_cons_self hal).trans_le (Nat.le_add_right _ _)
    refine .bind (cloneLeaf_spec hth).attempt fun r => ?_
    match r with
    | .ok mapped =>
      refine .start fun s ⟨hsn, h⟩ => ?_
      have hpa : mapped.2.1.paddr = v.leaf.paddr := by rw [hsn.2.2]
      have hmo := ih (fun v hvi => hli v (.tail _ hvi)) (fs ++ [mapped])
      rw [World.hold_clone] at h
      rw [List.map_append, List.map_singleton, hpa] at hmo
      refine .resume (hmo.post fun all s hs => ⟨hs.1, fun m hm => ?_⟩) h
      obtain hold | ⟨visit', hvi', hm⟩ := hs.2 m hm
      · obtain hbef | hnew := List.mem_append.mp hold
        · exact .inl hbef
        · rw [List.mem_singleton.mp hnew]
          exact .inr ⟨v, .head _, hsn⟩
      · exact .inr ⟨visit', .tail _ hvi', hm⟩
    | .error (.error code) =>
      have hdr : Triple _ (dropFrames (fs.map fun mapped => mapped.2.1))
        (fun _ => Inv w) E := dropFrames_spec _
      rw [List.map_map] at hdr
      refine .bind (hdr.pre (fun s hs => hs.2)) fun _ => ?_
      exact .throw fun s hs => hE code s hs
    | .error .panic => exact fun s hs => absurd rfl hs.1

/-- `mapped_frames` takes one handle of each frame it names. -/
theorem mappedFrames_spec (hbal : w.Balanced) (hE : ∀ code s, Inv w s → E (.error code) s) :
    Triple (Inv w) (mappedFrames i start stop)
      (fun all s => Inv (w.hold (all.map fun mapped => mapped.2.1.paddr)) s ∧
        (∀ mapped ∈ all, 0 < w.refs mapped.2.1.paddr) ∧
        (start ≤ stop → stop ≤ arch.span / 2 → ∀ mapped ∈ all, ∃ l, w.view i mapped.1 = some (0, l) ∧
          l.flags.allocFrame ∧ mapped.1 % PageSize.size4K.bytes = 0 ∧
          start < mapped.1 + PageSize.size4K.bytes ∧ mapped.1 < stop ∧
          mapped.2 = (⟨l.paddr⟩, {l.flags with allocFrame := false, protNone := false}))) E := by
  refine (walkLeaves_spec i start (stop - start) fun code s hs _ => hE code s hs).next fun vs s ⟨h, hwa⟩ => ?_
  have hli : ∀ visit ∈ vs, visit.leaf.flags.allocFrame → 0 < w.refs visit.leaf.paddr := by
    intro visit hvi hac
    obtain ⟨v, hv, hl, -⟩ := ((PageTable.walkLeafRange_ok hwa).mem visit).mp hvi
    exact h.refs_pos hbal hv ((h.view i v hv).symm.trans hl) hac
  refine .resume ((cloneLeaves_spec hE vs hli []).post fun all t ht => ?_) h
  refine ⟨ht.1, fun mapped hmap => ?_, fun hle hha mapped hmap => ?_⟩
  all_goals obtain hno | ⟨visit, hvi, hac, hz, rfl⟩ := ht.2 mapped hmap
  · cases hno
  · exact hli visit hvi hac
  · cases hno
  · obtain ⟨hl, hal, hme, hbef⟩ := (PageTable.mem_walkLeafRange hwa (by omega)).1 visit hvi
    rw [hz] at hl hal hme
    refine ⟨visit.leaf, ?_, hac, hal, hme, by omega, rfl⟩
    exact (h.view i _ (by omega)).symm.trans hl

end Snapshot

/-! ### Bytes -/

section Bytes
variable {arch : Arch} {ι : Type} [Fintype ι] {w : World ι} {E : XStop → Memory arch ι → Prop} {i : ι}

/-- Only bytes have changed. -/
def Rewritten (w : World ι) (s : Memory arch ι) : Prop := ∃ bytes, Inv {w with bytes := bytes} s

theorem writePhysical_spec (physical : Nat) (input : List UInt8) :
    Triple (Rewritten w) (writePhysical physical input) (fun _ => Rewritten w) E := by
  induction input generalizing physical with
  | nil => exact .skip
  | cons byte rest ih =>
    refine .bind (.modify fun s ⟨bs, hs⟩ => ?_) fun _ => ih (physical + 1)
    exact ⟨(s.setByte physical byte).bytes, {hs with bytes := rfl}⟩

variable {copy : Nat → Nat → Nat → Prog arch ι Unit} {kind : Option FrameKind}

section
variable (hE : ∀ code s, Rewritten w s → E (.error code) s)
  (hc : ∀ physical copied count, Triple (Rewritten w) (copy physical copied count) (fun _ => Rewritten w) E)
  {acc : MappingFlags}
include hE hc

theorem processChunks_spec (fuel : Nat) : ∀ addr copied left, addr + left ≤ arch.span →
      Triple (Rewritten w) (processChunks i acc kind copy fuel addr copied left) (fun _ => Rewritten w) E := by
  induction fuel with
  | zero => exact fun _ _ _ _ => .skip
  | succ fuel ih =>
    intro addr copied left hsn
    unfold processChunks
    split
    · exact .skip
    · refine .start fun s ⟨bs, hs⟩ => .resume ?_ hs
      refine (queryPage_spec (by omega)).bind fun r => ?_
      cases r with
      | error e => exact .throw fun s hs => hE _ s ⟨bs, hs.1⟩
      | ok found =>
        obtain ⟨physical, flags, ps⟩ := found
        refine .imp (P := Rewritten w) (.pure_bind ?_) (fun s hs => ⟨bs, hs.1⟩) fun _ _ h => h
        refine .bind (require_spec fun s hs _ => hE _ s hs) fun _ => ?_
        refine .imp ?_ (fun s hs => hs.1) fun _ _ h => h
        refine (hc physical copied _).bind fun _ => ih _ _ _ ?_
        omega

/-- `process_bytes` touches nothing that its copy does not. -/
theorem processBytes_spec (start size : Nat) :
    Triple (Rewritten w) (processBytes i start size acc kind copy) (fun _ => Rewritten w) E := by
  unfold processBytes
  split
  · exact .skip
  · refine .start fun s ⟨bs, hs⟩ => .get_bind ?_
    refine .resume (P := Rewritten w) ?_ ⟨bs, hs⟩
    refine .next (require_spec fun s hs _ => hE _ s hs) fun _ t ⟨ht, hco⟩ => .resume ?_ ht
    refine processChunks_spec hE hc size start 0 size ?_
    have hlow := (s.spaces i).range.low
    simp only [AddressSpace.containsRange, Bool.and_eq_true, decide_eq_true_eq] at hco
    omega

end

theorem writeAllocBytes_spec (hE : ∀ code s, Rewritten w s → E (.error code) s) (start : Nat) (input : List UInt8) :
    Triple (Rewritten w) (writeAllocBytes i start input) (fun _ => Rewritten w) E :=
  processBytes_spec hE (fun _ _ _ => writePhysical_spec _ _) start input.length

end Bytes

end StarryX.Mm
