import StarryX.Mm.Ranges

/-! Changing the flags of leaves.

A `ProtectionTransaction` changes leaves range by range, and notes the flags each had. Where one
range fails, all notes are undone, and the tables are as they were: `run_spec`. The state in between
is the one it started from, `tint`ed with the flags changed so far; undoing a note takes the tint
off a page again, so that the order of the notes does not matter. -/
namespace StarryX.Mm
open Library Function
open List (mem_cons mem_cons_of_mem mem_cons_self not_mem_nil)
open ProtectionTransaction (apply prepare protectRange protectStaticRange restore run)
open PageSize (size4K)

variable {flags : MappingFlags} {l : Leaf}

section Single
variable {arch : Arch} {ι : Type} [Fintype ι] [DecidableEq ι] {w : World ι} {s : Memory arch ι}
  {E : XStop → Memory arch ι → Prop} {i : ι} {va : Nat}

/-! ### Looking at one leaf -/

omit [DecidableEq ι] in
theorem mappingFlags_spec (hv : va < arch.span) : Triple (Inv w) (mappingFlags i va)
      (fun r s => Inv w s ∧ r = (w.view i va).map fun found => found.2.flags) E := by
  refine (queryPage_spec hv).bind fun r => ?_
  cases r with
  | error e =>
    refine .pure fun s hs => ⟨hs.1, ?_⟩
    rw [hs.2]
    rfl
  | ok found =>
    refine .pure fun s ⟨hs, l, hl, _, hfg⟩ => ?_
    refine ⟨hs, ?_⟩
    rw [hl, hfg]
    rfl

omit [DecidableEq ι] in
theorem pteIsUnique_spec {p : Nat} (hE : ∀ code s, Inv w s → w.refs p = 0 → E (.error code) s) :
    Triple (Inv w) (pteIsUnique p) (fun r s => Inv w s ∧ (r ↔ w.refs p = 1)) E := by
  refine (liveMetadata_spec hE).bind fun count => .pure fun s hs => ?_
  obtain ⟨rfl, -, hs⟩ := hs
  exact ⟨hs, beq_iff_eq⟩

/-- What `frame_if_shared` finds. -/
def SharedOrAlone (w : World ι) (i : ι) (vaddr : Nat) (found : Option Frame) (s : Memory arch ι) : Prop :=
  ∃ leaf, w.view i vaddr = some (0, leaf) ∧ leaf.flags.allocFrame = true ∧
    match found with
    | none => w.refs leaf.paddr = 1 ∧ Inv w s
    | some frame => frame = ⟨leaf.paddr⟩ ∧ w.refs leaf.paddr ≠ 1 ∧ Inv (w.clone leaf.paddr) s

omit [DecidableEq ι] in
theorem frameIfShared_spec (hbal : w.Balanced) (hv : va < arch.span)
    (hE : ∀ code s, Inv w s → E (.error code) s) :
    Triple (Inv w) (frameIfShared i va) (SharedOrAlone w i va) E := by
  refine (queryPage_spec hv).bind fun r => ?_
  cases r with
  | error e => exact fun s hs => hE _ s hs.1
  | ok found =>
    obtain ⟨phys, flags, ps⟩ := found
    refine .start fun s ⟨h, l, hl, hph, hfg⟩ => ?_
    refine .resume (.pure_bind ?_) h
    refine .next (require_spec fun s hs _ => hE _ s hs) fun _ s ⟨h, hma⟩ => ?_
    simp only [Bool.and_eq_true, beq_iff_eq] at hma
    obtain ⟨hki, rfl⟩ := hma
    have ha : l.flags.allocFrame := by
      rw [← hfg]
      exact fromFlags_alloc.mp hki
    have hpos := h.refs_pos hbal hv hl ha
    have hpg : phys - phys % size4K.bytes = l.paddr := by
      have hal := h.aligned hpos
      have hoff : va % size4K.bytes < frameSize := Nat.mod_lt _ (by decide)
      have hmod : phys % size4K.bytes = va % size4K.bytes := by
        show phys % frameSize = _
        rw [hph, Nat.add_mod, hal, Nat.zero_add, Nat.mod_mod, Nat.mod_eq_of_lt hoff]
      rw [hmod, hph, Nat.add_sub_cancel]
    refine .resume ?_ h
    rw [hpg]
    refine (pteIsUnique_spec fun code s hs _ => hE code s hs).bind fun alone => ?_
    cases alone with
    | true => exact .pure fun s hs => ⟨l, hl, ha, hs.2.mp rfl, hs.1⟩
    | false =>
      refine .start fun s hs => .resume ?_ hs.1
      have hsh : w.refs l.paddr ≠ 1 := fun hone => nomatch hs.2.mpr hone
      refine (cloneFromPte_spec hpos fun s hs => hE _ s hs).bind fun f => .pure fun s hs => ?_
      exact ⟨l, hl, ha, hs.1, hsh, hs.2⟩

/-- The flags of one page. -/
theorem protectAllocPage_spec (hbal : w.Balanced) (hal : va % size4K.bytes = 0)
    (hv : va < arch.span) (hl : w.view i va = some (0, l)) (hE : ∀ code s, Inv w s → E (.error code) s) :
    Triple (Inv w) (protectAllocPage i va flags)
      (fun _ s => ∃ new, pteFlags arch .alloc flags = .ok new ∧
        Inv (w.setLeaf i va .size4K (some {l with flags := arch.stored new})) s) E := by
  unfold protectAllocPage
  rw [hal]
  refine .bind (preflightRange_spec hbal fun code s hs _ => hE code s hs) fun _ => ?_
  refine .bind (ofResult_spec _ fun e s hs _ => hE e s hs.1) fun new => .start fun s ⟨⟨h, _, _⟩, hnew⟩ => ?_
  have hlo : Triple (Inv w) (forPages va (va + 1 * size4K.bytes) .size4K (protectLeaf i new) :
      Prog arch ι Unit) (fun _ => Inv (w.setLeaf i va .size4K (some {l with flags := arch.stored new}))) E := by
    refine forPages_spec (I := fun k => if k = 0 then Inv w else
      Inv (w.setLeaf i va .size4K (some {l with flags := arch.stored new}))) hal fun k hk => ?_
    obtain rfl : k = 0 := by omega
    have hl : w.view i va = some (size4K.level, l) := hl
    refine (protectPage_spec hv hl new).bind fun r => .start fun s h => ?_
    obtain ⟨rfl, h⟩ := h
    exact .stay h
  exact .resume (hlo.post fun _ s hs => ⟨new, hnew, hs⟩) h

end Single

/-! ### Spaces that come and go -/

section Spaces
variable {arch : Arch} {ι : Type} [Fintype ι] [DecidableEq ι] {w : World ι} {s : Memory arch ι}
  {E : XStop → Memory arch ι → Prop} {i : ι}

omit [DecidableEq ι] in
/-- What is mapped decides how many leaves own a frame. -/
theorem Inv.mapped_eq {w' : World ι} {s' : Memory arch ι} (h : Inv w s) (h' : Inv w' s')
    (hvw : ∀ i v, v < arch.span → w.view i v = w'.view i v) : w.mapped = w'.mapped := by
  funext p
  rw [← h.mapped p, ← h'.mapped p]
  refine Finset.sum_congr rfl fun i _ => PageTable.leaves_of_leafAt_eq _ fun v hv => ?_
  rw [h.view i v hv, h'.view i v hv, hvw i v hv]

/-- A table without leaves can be exchanged for a new one. -/
theorem Inv.renew (h : Inv w s) (hfr : ∀ v, v < arch.span → w.view i v = none) (r : UserRange arch) :
    Inv {w with ranges := update w.ranges i (r.start, r.size)}
      {s with spaces := update s.spaces i ⟨r, .new⟩} := by
  have hl : ∀ v, v < arch.span → (s.spaces i).pageTable.leafAt v = (.new : PageTable arch).leafAt v :=
    fun v hv => ((h.view i v hv).trans (hfr v hv)).trans (PageTable.leafAt_new v).symm
  refine {h with ranges := fun j => ?_, view := fun j v hv => ?_, mapped := fun p => ?_, frames := ?_}
  · by_cases hj : j = i
    · subst hj
      simp
    · simp [hj, h.ranges j]
  · by_cases hj : j = i
    · subst hj
      simp only [update_self]
      rw [PageTable.leafAt_new, hfr v hv]
    · simp [hj, h.view j v hv]
  · rw [← h.mapped p]
    refine Finset.sum_congr rfl fun j _ => ?_
    by_cases hj : j = i
    · subst hj
      simp only [update_self]
      exact (PageTable.leaves_of_leafAt_eq _ hl).symm
    · simp [hj]
  · exact h.frames

omit [DecidableEq ι] in
theorem reserve_spec (hE : ∀ s, Inv w s → E (.error .noMemory) s) :
    Triple (Inv w) reserve (fun _ => Inv w) E := by
  refine .bind (.modifyGet (Q := fun _ => Inv w) fun s h => ?_) fun granted => ?_
  · exact h.of_eq rfl rfl rfl rfl rfl rfl rfl rfl rfl
  · cases granted with
    | true => exact .skip
    | false => exact .throw fun s hs => hE s hs

section
variable (hfr : ∀ v, v < arch.span → w.view i v = none)
include hfr

theorem newUser_spec (r : UserRange arch) (hE : ∀ s, Inv w s → E (.error .noMemory) s) :
    Triple (Inv w) (newUser i r)
      (fun _ => Inv {w with ranges := update w.ranges i (r.start, r.size)}) E := by
  exact (reserve_spec hE).bind fun _ => .modify fun s h => h.renew hfr r

theorem dropAddressSpace_spec : Triple (Inv w) (dropAddressSpace i) (fun _ => Inv w) E := by
  refine .start fun s h => .get_bind (.resume ?_ h)
  have hlow := (s.spaces i).range.low
  have hsn := PageTable.span_lt arch
  have hwa : Triple (Inv w) (walkLeaves i (s.spaces i).range.start (s.spaces i).range.size : Prog arch ι _)
      (fun vs t => Inv w t ∧ vs = []) fun _ _ => False := by
    refine (walkLeaves_spec i _ _ fun code t ht hla => by omega).post fun vs t ht => ⟨ht.1, ?_⟩
    refine List.eq_nil_iff_forall_not_mem.mpr fun visit hvi => ?_
    obtain ⟨v, hv, hl, -⟩ := ((PageTable.walkLeafRange_ok ht.2).mem visit).mp hvi
    cases (hfr v hv).symm.trans ((ht.1.view i v hv).symm.trans hl)
  refine .bind (expect_spec hwa) fun vs => .start fun t ht => ?_
  obtain ⟨ht, rfl⟩ := ht
  refine .modify fun u hu => ?_
  subst hu
  have hnew := ht.renew hfr (u.spaces i).range
  rwa [ht.ranges i, update_eq_self] at hnew

end

end Spaces

/-! ### Tinted worlds -/

section Tint
variable {arch : Arch} {ι : Type} [DecidableEq ι] {w : World ι} {i : ι} {hue : Nat → Option MappingFlags}

/-- The leaves of a space with other flags, where there are some. -/
def World.tint (w : World ι) (i : ι) (hue : Nat → Option MappingFlags) : World ι :=
  {w with view := update w.view i fun v =>
    (w.view i v).map fun found => (found.1, {found.2 with flags := (hue v).getD found.2.flags})}

theorem World.tint_none (w : World ι) (i : ι) : w.tint i (fun _ => none) = w := by
  have hvw : (fun v => (w.view i v).map fun found =>
      (found.1, ({found.2 with flags := none.getD found.2.flags}))) = w.view i := by
    funext v
    cases w.view i v <;> rfl
  unfold World.tint
  rw [hvw, update_eq_self]

theorem World.tint_view (v : Nat) : (w.tint i hue).view i v =
    (w.view i v).map fun found => (found.1, {found.2 with flags := (hue v).getD found.2.flags}) := by
  simp [World.tint]

/-- What owns a frame is left to own it. -/
def World.Tintable (w : World ι) (i : ι) (hue : Nat → Option MappingFlags) : Prop :=
  ∀ v flags level leaf, hue v = some flags → w.view i v = some (level, leaf) →
    flags.allocFrame = leaf.flags.allocFrame

/-- A page of one leaf. -/
structure World.Page (w : World ι) (i : ι) (address : Nat) (size : PageSize) (leaf : Leaf) : Prop where
  aligned : address % size.bytes = 0
  leaf : ∀ v, PageTable.SamePage size.level address v → w.view i v = some (size.level, leaf)

variable {addr : Nat} {size : PageSize} {s : Memory arch ι}

omit [DecidableEq ι] in
theorem World.Page.here (h : w.Page i addr size l) : w.view i addr = some (size.level, l) := h.leaf addr rfl

omit [DecidableEq ι] in
/-- Pages do not reach over the end of the tables. -/
theorem Inv.page [Fintype ι] (h : Inv w s) (hv : addr < arch.span)
    (hal : addr % size.bytes = 0) (hl : w.view i addr = some (size.level, l)) :
    w.Page i addr size l where
  aligned := hal
  leaf := by
    intro v heq
    refine h.coherent hv ?_ hl heq
    have hin := (samePage_iff hal).mp heq
    have hsn : arch.span % size.bytes = 0 := Nat.mod_eq_zero_of_dvd (PageTable.bytes_dvd_span arch size)
    have := aligned_le size hal hsn hv
    omega

/-- Another tint for a page. -/
def retint (hue : Nat → Option MappingFlags) (address : Nat) (size : PageSize) (flags : Option MappingFlags) (v : Nat) :
    Option MappingFlags :=
  if PageTable.SamePage size.level address v then flags else hue v

variable {new : Option MappingFlags} {E : XStop → Memory arch ι → Prop}

theorem World.setLeaf_tint [Fintype ι] (h : Inv (w.tint i hue) s) (hv : addr < arch.span)
    (hpg : w.Page i addr size l) (hti : w.Tintable i hue) (hnew : new.getD l.flags = flags)
    (ha : flags.allocFrame = l.flags.allocFrame) :
    (w.tint i hue).setLeaf i addr size (some {l with flags := flags}) =
      w.tint i (retint hue addr size new) := by
  have hl : (w.tint i hue).view i addr =
      some (size.level, {l with flags := (hue addr).getD l.flags}) := by
    rw [World.tint_view, hpg.here]
    rfl
  have heq : ∀ p, owns p {l with flags := (hue addr).getD l.flags} = owns p {l with flags := flags} := by
    intro p
    have hold : ((hue addr).getD l.flags).allocFrame = l.flags.allocFrame := by
      cases htinted : hue addr with
      | none => rfl
      | some tinted => exact hti addr tinted _ _ htinted hpg.here
    unfold owns
    rw [hold, ha]
  have hmap : (fun p => (w.tint i hue).mapped p -
      (((w.tint i hue).view i addr).elim 0 fun found => owns p found.2) +
        (some ({l with flags := flags})).elim 0 (owns p)) = w.mapped := by
    funext p
    obtain ⟨hone, hall⟩ := h.leaf_le hv hl p
    rw [hl]
    simp only [Option.elim_some]
    rw [← heq]
    show w.mapped p - _ + _ = w.mapped p
    have hall : _ ≤ w.mapped p := hall
    omega
  unfold World.setLeaf
  rw [hmap]
  unfold World.tint
  simp only [update_idem, update_self]
  congr 2
  funext v
  unfold retint
  by_cases hin : PageTable.SamePage size.level addr v
  · rw [if_pos hin, if_pos hin, hpg.leaf v hin, ← hnew]
    rfl
  · rw [if_neg hin, if_neg hin]

theorem protectPage_tint [Fintype ι] (hv : addr < arch.span)
    (hpg : w.Page i addr size l) (hti : w.Tintable i hue) (hnew : new.getD l.flags = arch.stored flags)
    (ha : (arch.stored flags).allocFrame = l.flags.allocFrame) :
    Triple (Inv (w.tint i hue)) (protectPage i addr flags)
      (fun r s => r = .ok size ∧ Inv (w.tint i (retint hue addr size new)) s) E := by
  have hl : (w.tint i hue).view i addr =
      some (size.level, {l with flags := (hue addr).getD l.flags}) := by
    rw [World.tint_view, hpg.here]
    rfl
  refine .start fun s h => .resume (.post (protectPage_spec hv hl flags) fun r t ht => ⟨ht.1, ?_⟩) h
  rw [← World.setLeaf_tint h hv hpg hti hnew ha]
  exact ht.2

omit [DecidableEq ι] in
theorem World.Tintable.retint (hti : w.Tintable i hue) (hpg : w.Page i addr size l)
    (hnew : ∀ flags, new = some flags → flags.allocFrame = l.flags.allocFrame) :
    w.Tintable i (Mm.retint hue addr size new) := by
  intro v flags lvl found hfg hf
  unfold Mm.retint at hfg
  split_ifs at hfg with hin
  · rw [hpg.leaf v hin] at hf
    cases hf
    exact hnew flags hfg
  · exact hti v flags lvl found hfg hf

/-! ### Notes -/

/-- A note of the flags that a leaf had. -/
structure Noted (arch : Arch) (w : World ι) (i : ι) (change : ProtectionChange) (size : PageSize) (leaf : Leaf) : Prop where
  inside : change.address < arch.span
  page : w.Page i change.address size leaf
  old : change.oldFlags = leaf.flags
  stored : arch.stored leaf.flags = leaf.flags
  owner : (arch.stored change.newFlags).allocFrame = leaf.flags.allocFrame

/-- A note is about the page of an address. -/
def ProtectionChange.Covers (change : ProtectionChange) (w : World ι) (i : ι) (v : Nat) : Prop :=
  ∀ size leaf, w.Page i change.address size leaf → PageTable.SamePage size.level change.address v

omit [DecidableEq ι] in
theorem Noted.covers {c : ProtectionChange} (h : Noted arch w i c size l) {v : Nat}
    (hin : PageTable.SamePage size.level c.address v) : c.Covers w i v := by
  intro size' leaf' hpg
  obtain ⟨hle, -⟩ := Prod.mk.inj (Option.some.inj (hpg.here.symm.trans h.page.here))
  rwa [hle]

/-- Where a tint is, there is a note. -/
def Accounted (w : World ι) (i : ι) (hue : Nat → Option MappingFlags) (changes : List ProtectionChange) : Prop :=
  ∀ v, hue v ≠ none → ∃ change ∈ changes, change.Covers w i v

section
variable (cs : List ProtectionChange) (hnoted : ∀ c ∈ cs, ∃ size l, Noted arch w i c size l)
  (hti : w.Tintable i hue)
include cs hnoted hti

/-- Undoing all notes, in any order. -/
theorem restore_spec [Fintype ι] (hac : Accounted w i hue cs) :
    Triple (Inv (w.tint i hue)) (cs.forM (restore i)) (fun _ => Inv w) E := by
  induction cs generalizing hue with
  | nil =>
    have hn : hue = fun _ => none := by
      funext v
      by_contra hso
      obtain ⟨c, hchg, -⟩ := hac v hso
      cases hchg
    refine .pure fun s hs => ?_
    rwa [hn, World.tint_none] at hs
  | cons c rest ih =>
    obtain ⟨size, l, hno⟩ := hnoted c (.head _)
    have hba : arch.stored c.oldFlags = l.flags := by rw [hno.old, hno.stored]
    refine .bind (Q := fun _ => Inv (w.tint i (retint hue c.address size none))) ?_ fun _ => ?_
    · have hn : none.getD l.flags = arch.stored c.oldFlags := hba.symm
      refine .next (protectPage_tint hno.inside hno.page hti hn (by rw [hba])) fun r s h => ?_
      obtain ⟨rfl, h⟩ := h
      exact .stay h
    · refine ih (fun c hchg => hnoted c (.tail _ hchg)) (hti.retint hno.page nofun) fun v hso => ?_
      unfold retint at hso
      split at hso
      · exact absurd rfl hso
      next hout =>
        obtain ⟨found, hf, hcov⟩ := hac v hso
        obtain rfl | hf := mem_cons.mp hf
        · exact absurd (hcov size l hno.page) hout
        · exact ⟨found, hf, hcov⟩

/-- Changing the leaves as planned. -/
theorem apply_spec [Fintype ι] : Triple (Inv (w.tint i hue)) (cs.forM (apply i))
      (fun _ s => ∃ hue', Inv (w.tint i hue') s ∧ w.Tintable i hue' ∧ ∀ v,
        (∃ c ∈ cs, c.Covers w i v ∧ hue' v = some (arch.stored c.newFlags)) ∨
          hue' v = hue v ∧ ∀ c ∈ cs, ¬ c.Covers w i v) E := by
  induction cs generalizing hue with
  | nil => exact .pure fun s hs => ⟨hue, hs, hti, fun v => .inr ⟨rfl, fun _ h => absurd h not_mem_nil⟩⟩
  | cons c rest ih =>
    obtain ⟨size, l, hno⟩ := hnoted c (.head _)
    have hnew : (some (arch.stored c.newFlags)).getD l.flags = arch.stored c.newFlags := rfl
    refine .bind (Q := fun _ => Inv (w.tint i (retint hue c.address size
      (some (arch.stored c.newFlags))))) ?_ fun _ => ?_
    · refine .next (protectPage_tint hno.inside hno.page hti hnew hno.owner) fun r s h => ?_
      obtain ⟨rfl, h⟩ := h
      exact .stay h
    · have hti' : w.Tintable i (retint hue c.address size (some (arch.stored c.newFlags))) :=
        hti.retint hno.page fun flags hfg => Option.some.inj hfg ▸ hno.owner
      refine (ih (fun c hchg => hnoted c (.tail _ hchg)) hti').post
        fun _ s ⟨hue', hs, htint'', hp⟩ => ?_
      refine ⟨hue', hs, htint'', fun v => ?_⟩
      obtain ⟨found, hf, hcov, hhue⟩ | ⟨heq, hn⟩ := hp v
      · exact .inl ⟨found, .tail _ hf, hcov, hhue⟩
      · unfold retint at heq
        split_ifs at heq with hin
        · exact .inl ⟨c, .head _, hno.covers hin, heq⟩
        · refine .inr ⟨heq, fun found hf hcov => ?_⟩
          obtain rfl | hf := mem_cons.mp hf
          · exact hin (hcov size l hno.page)
          · exact hn found hf hcov

end

end Tint

/-! ### One range of a transaction -/

section Range
variable {arch : Arch} {ι : Type} [Fintype ι] {w : World ι} {E : XStop → Memory arch ι → Prop} {i : ι}
  {start size : Nat} {kind : FrameKind} {ps : PageSize} {hue : Nat → Option MappingFlags}
  {allowed : Nat → MappingFlags → Prop}

/-- A change that was planned for a leaf. -/
def Prepared (arch : Arch) (kind : FrameKind) (allowed : Nat → MappingFlags → Prop) (visit : Visit)
    (change : ProtectionChange) : Prop :=
  change.address = visit.address ∧ change.oldFlags = visit.leaf.flags ∧
    ∃ flags, allowed visit.leaf.paddr flags ∧ pteFlags arch kind flags = .ok change.newFlags

variable {newFlags : Nat → Nat → Prog arch ι MappingFlags}

theorem prepare_spec (hE : ∀ code s, Inv w s → E (.error code) s)
    (hnew : ∀ addr phys, Triple (Inv w) (newFlags addr phys)
      (fun flags s => Inv w s ∧ allowed phys flags) E) (vs : List Visit) :
    Triple (Inv w) (prepare kind newFlags vs)
      (fun cs s => Inv w s ∧ (∀ c ∈ cs, ∃ v ∈ vs, Prepared arch kind allowed v c) ∧
        ∀ v ∈ vs, ∃ c ∈ cs, Prepared arch kind allowed v c) E := by
  induction vs with
  | nil =>
    exact .pure fun s hs => ⟨hs, fun _ h => absurd h not_mem_nil, fun _ h => absurd h not_mem_nil⟩
  | cons v rest ih =>
    refine (hnew v.address v.leaf.paddr).bind fun flags => ?_
    refine .next (ofResult_spec _ fun e s hs _ => hE e s hs.1) fun new s ⟨⟨h, haw⟩, hpte⟩ => ?_
    have hpr : Prepared arch kind allowed v ⟨v.address, v.leaf.flags, new⟩ :=
      ⟨rfl, rfl, flags, haw, hpte⟩
    refine .resume ?_ h
    refine ih.bind fun cs => .pure fun s hs => ⟨hs.1, fun c hchg => ?_, fun found hf => ?_⟩
    · obtain rfl | hchg := mem_cons.mp hchg
      · exact ⟨v, .head _, hpr⟩
      · obtain ⟨found, hf, hpr⟩ := hs.2.1 c hchg
        exact ⟨found, .tail _ hf, hpr⟩
    · obtain rfl | hf := mem_cons.mp hf
      · exact ⟨_, .head _, hpr⟩
      · obtain ⟨c, hchg, hpr⟩ := hs.2.2 found hf
        exact ⟨c, .tail _ hchg, hpr⟩

variable [DecidableEq ι]

/-- What one range of a transaction does to the tint. -/
structure Repainted (arch : Arch) (w : World ι) (i : ι) (start stop : Nat) (kind : FrameKind)
    (allowed : Nat → MappingFlags → Prop) (hue hue' : Nat → Option MappingFlags) (changes : List ProtectionChange) :
    Prop where
  tintable : w.Tintable i hue'
  noted : ∀ change ∈ changes, ∃ size leaf, Noted arch w i change size leaf
  outside : ∀ v, ¬ (start ≤ v ∧ v < stop) → hue' v = hue v
  inside : ∀ v level leaf, start ≤ v → v < stop → w.view i v = some (level, leaf) →
    ∃ flags new, allowed leaf.paddr flags ∧ pteFlags arch kind flags = .ok new ∧ hue' v = some (arch.stored new)
  accounted : ∀ v, hue' v ≠ hue v → ∃ change ∈ changes, change.Covers w i v

theorem stored_stored (arch : Arch) (flags : MappingFlags) : arch.stored (arch.stored flags) = arch.stored flags := by
  unfold Arch.stored
  by_cases hno : flags.protNone
  · simp [hno]
  · cases hriscv : arch.riscv <;> simp [hno]

/-- The tables have flags as they give them back. -/
def World.Stored (w : World ι) (arch : Arch) (i : ι) : Prop :=
  ∀ v level leaf, w.view i v = some (level, leaf) → arch.stored leaf.flags = leaf.flags

/-- **A range of a transaction** changes all of its leaves or none. -/
theorem protectRange_spec {s₀ : Memory arch ι} (h₀ : Inv w s₀) (hbal : w.Balanced) (hstd : w.Stored arch i)
    (hti : w.Tintable i hue) (hfr : ∀ v, start ≤ v → v < start + size → hue v = none) {expected : Option Nat}
    (hnew : ∀ addr phys, Triple (Inv (w.tint i hue)) (newFlags addr phys)
      (fun flags s => Inv (w.tint i hue) s ∧ allowed phys flags)
      (fun e s => e ≠ .panic ∧ Inv (w.tint i hue) s)) :
    Triple (Inv (w.tint i hue)) (protectRange i start size kind ps expected newFlags)
      (fun cs s => ∃ hue', Inv (w.tint i hue') s ∧
        Repainted arch w i start (start + size) kind allowed hue hue' cs)
      (fun e s => e ≠ .panic ∧ Inv (w.tint i hue) s) := by
  have hbal' : (w.tint i hue).Balanced := hbal
  refine .bind (preflightRange_spec hbal' fun code s hs _ => ⟨nofun, hs⟩) fun leafCount => ?_
  refine .next (require_spec fun s hs _ => ⟨nofun, hs.1⟩) fun _ s ⟨⟨h, hft, huni⟩, _⟩ => ?_
  have hha := h.fits_low hft
  refine .resume ?_ h
  refine .bind (reserve_spec fun s hs => ⟨nofun, hs⟩) fun _ => ?_
  refine (walkLeaves_spec i start size fun code s hs _ => ⟨nofun, hs⟩).next fun vs s ⟨h, hwa⟩ => ?_
  have hfi : ∀ visit ∈ vs, LeafFine (w.tint i hue) start (start + size) kind ps visit :=
    (visits_fine_iff h hbal' hft hwa).mpr huni
  obtain ⟨hso, hcm⟩ := PageTable.mem_walkLeafRange hwa hha
  -- a leaf of the range has no tint yet, so what the walk finds is what was there first
  have hun : ∀ v, start ≤ v → v < start + size → (w.tint i hue).view i v = w.view i v := by
    intro v hlow hh
    rw [World.tint_view, hfr v hlow hh]
    cases w.view i v <;> rfl
  have hvis : ∀ visit ∈ vs, visit.address < arch.span ∧ w.Page i visit.address ps visit.leaf := by
    intro visit hvi
    obtain ⟨hl, hal, -, hbef⟩ := hso visit hvi
    have hth := hfi visit hvi
    have hv : visit.address < arch.span := by omega
    refine ⟨hv, h₀.page hv (hth.size ▸ hal) ?_⟩
    rw [← hun _ hth.above hbef, ← hth.size, ← h.view i _ hv, hl]
  have hre : ∀ v lvl l, start ≤ v → v < start + size → w.view i v = some (lvl, l) →
      ∃ visit ∈ vs, PageTable.SamePage ps.level visit.address v := by
    intro v lvl l hlow hh hl
    rw [← hun v hlow hh] at hl
    obtain ⟨rfl, -⟩ := huni v hlow hh lvl l hl
    refine ⟨_, hcm v _ l hlow hh ((h.view i v (by omega)).trans hl), ?_⟩
    exact (Nat.mul_div_cancel _ ps.bytes_pos).symm
  have hno : ∀ visit ∈ vs, ∀ c, Prepared arch kind allowed visit c →
      Noted arch w i c ps visit.leaf := by
    rintro visit hvi c ⟨had, hold, flags, -, hpte⟩
    obtain ⟨hv, hpg⟩ := hvis visit hvi
    have hki := pteFlags_kind hpte
    rw [← (hfi visit hvi).kind] at hki
    refine ⟨had ▸ hv, had ▸ hpg, hold, hstd _ _ _ hpg.here, ?_⟩
    unfold FrameKind.fromFlags at hki
    cases hbit : visit.leaf.flags.allocFrame <;> cases hbit' : (arch.stored c.newFlags).allocFrame <;>
      simp_all
  refine .resume ?_ h
  refine .next (prepare_spec (fun code s hs => ⟨nofun, hs⟩) hnew vs) fun cs s ⟨h, hpl, hall⟩ => ?_
  have hnoted : ∀ c ∈ cs, ∃ size l, Noted arch w i c size l := by
    intro c hchg
    obtain ⟨visit, hvi, hpr⟩ := hpl c hchg
    exact ⟨ps, visit.leaf, hno visit hvi c hpr⟩
  refine .resume ?_ h
  refine (apply_spec cs hnoted hti).bind fun _ => .pure fun s ⟨hue', hs, hti', hp⟩ => ?_
  -- a change covers the page of its leaf, which lies in the range
  have hco : ∀ c ∈ cs, ∀ v, c.Covers w i v → ∃ visit ∈ vs,
      Prepared arch kind allowed visit c ∧ start ≤ v ∧ v < start + size ∧
        w.view i v = some (ps.level, visit.leaf) := by
    intro c hchg v hcov
    obtain ⟨visit, hvi, hpr⟩ := hpl c hchg
    have hnt := hno visit hvi c hpr
    have hin := hcov ps visit.leaf hnt.page
    have hbo := (samePage_iff hnt.page.aligned).mp hin
    have hth := hfi visit hvi
    have hab := hth.above
    have hbe := hth.below
    rw [hth.size, ← hpr.1] at hbe
    rw [← hpr.1] at hab
    exact ⟨visit, hvi, hpr, by omega, by omega, hnt.page.leaf v hin⟩
  refine ⟨hue', hs, hti', hnoted, fun v hout => ?_, fun v lvl l hlow hh hl => ?_, fun v hdi => ?_⟩
  · obtain ⟨c, hchg, hcov, -⟩ | ⟨heq, -⟩ := hp v
    · obtain ⟨-, -, -, hlow, hh, -⟩ := hco c hchg v hcov
      exact absurd ⟨hlow, hh⟩ hout
    · exact heq
  · obtain ⟨c, hchg, hcov, hhue⟩ | ⟨-, hn⟩ := hp v
    · obtain ⟨visit, -, ⟨-, -, flags, haw, hpte⟩, -, -, hvw⟩ := hco c hchg v hcov
      cases hl.symm.trans hvw
      exact ⟨flags, c.newFlags, haw, hpte, hhue⟩
    · -- the walk is complete, so there was a change for this page
      obtain ⟨visit, hvi, hin⟩ := hre v lvl l hlow hh hl
      obtain ⟨c, hchg, hpr⟩ := hall visit hvi
      exact absurd ((hno visit hvi c hpr).covers (hpr.1 ▸ hin)) (hn c hchg)
  · obtain ⟨c, hchg, hcov, -⟩ | ⟨heq, -⟩ := hp v
    · exact ⟨c, hchg, hcov⟩
    · exact absurd heq hdi

/-! ### Whole transactions -/

/-- A range of a transaction, and the flags that its leaves may get. -/
structure Part (arch : Arch) (ι : Type) where
  start : Nat
  stop : Nat
  kind : FrameKind
  allowed : Nat → MappingFlags → Prop
  prog : Prog arch ι (List ProtectionChange)

/-- A part does its work from any state of a transaction that has not come to its range. -/
def Part.Works (part : Part arch ι) (w : World ι) (i : ι) : Prop :=
  ∀ hue, w.Tintable i hue → (∀ v, part.start ≤ v → v < part.stop → hue v = none) →
    Triple (Inv (w.tint i hue)) part.prog
      (fun changes s => ∃ hue', Inv (w.tint i hue') s ∧
        Repainted arch w i part.start part.stop part.kind part.allowed hue hue' changes)
      (fun e s => e ≠ .panic ∧ Inv (w.tint i hue) s)

/-- All leaves of the parts have new flags, and no others. -/
structure Coloured (arch : Arch) (w : World ι) (i : ι) (parts : List (Part arch ι)) (hue hue' : Nat → Option MappingFlags) :
    Prop where
  tintable : w.Tintable i hue'
  inside : ∀ part ∈ parts, ∀ v level leaf, part.start ≤ v → v < part.stop → w.view i v = some (level, leaf) →
    ∃ flags new, part.allowed leaf.paddr flags ∧ pteFlags arch part.kind flags = .ok new ∧
      hue' v = some (arch.stored new)
  outside : ∀ v, (∀ part ∈ parts, ¬ (part.start ≤ v ∧ v < part.stop)) → hue' v = hue v

variable {parts : List (Part arch ι)}

theorem run_parts (hwks : ∀ part ∈ parts, part.Works w i) (hord : parts.Pairwise fun a b => a.stop ≤ b.start)
    (cs : List ProtectionChange) (hnoted : ∀ c ∈ cs, ∃ size l, Noted arch w i c size l)
    (hti : w.Tintable i hue) (hac : Accounted w i hue cs)
    (hfr : ∀ part ∈ parts, ∀ v, part.start ≤ v → v < part.stop → hue v = none) :
    Triple (Inv (w.tint i hue)) (run i (parts.map Part.prog) cs)
      (fun _ s => ∃ hue', Inv (w.tint i hue') s ∧ Coloured arch w i parts hue hue')
      (fun e s => e ≠ .panic ∧ Inv w s) := by
  induction parts generalizing hue cs with
  | nil =>
    exact .pure fun s hs => ⟨hue, hs, hti, fun _ h => absurd h not_mem_nil, fun v _ => rfl⟩
  | cons part rest ih =>
    obtain ⟨hfs, hre⟩ := List.pairwise_cons.mp hord
    have hth := hwks part (.head _) hue hti (hfr part (.head _))
    refine .bind hth.attempt fun r => ?_
    cases r with
    | error e =>
      refine .start fun s ⟨he, h⟩ => ?_
      refine .resume ?_ h
      have hun : Triple (Inv (w.tint i hue)) (cs.reverse.forM (restore i) : Prog arch ι Unit)
          (fun _ => Inv w) (fun e s => e ≠ .panic ∧ Inv w s) := by
        refine restore_spec _ (fun c hchg => hnoted c (List.mem_reverse.mp hchg)) hti fun v hv => ?_
        obtain ⟨c, hchg, hcov⟩ := hac v hv
        exact ⟨c, List.mem_reverse.mpr hchg, hcov⟩
      exact hun.bind fun _ => .throw fun t ht => ⟨he, ht⟩
    | ok more =>
      refine .start fun s ⟨hue₁, h, hpa⟩ => ?_
      have hla : ∀ part' ∈ rest, ∀ v, part'.start ≤ v → v < part'.stop → hue₁ v = hue v := by
        intro part' hpa' v hlow hh
        have := hfs part' hpa'
        exact hpa.outside v (by omega)
      refine .resume (.post (ih (fun part hpr => hwks part (.tail _ hpr)) hre
        (cs ++ more) (fun c hchg => ?_) hpa.tintable (fun v hv => ?_)
        fun part' hpa' v hlow hh => ?_) fun _ s hs => ?_) h
      · obtain hchg | hchg := List.mem_append.mp hchg
        · exact hnoted c hchg
        · exact hpa.noted c hchg
      · by_cases heq : hue₁ v = hue v
        · obtain ⟨c, hchg, hcov⟩ := hac v (heq ▸ hv)
          exact ⟨c, List.mem_append_left _ hchg, hcov⟩
        · obtain ⟨c, hchg, hcov⟩ := hpa.accounted v heq
          exact ⟨c, List.mem_append_right _ hchg, hcov⟩
      · rw [hla part' hpa' v hlow hh]
        exact hfr part' (.tail _ hpa') v hlow hh
      · obtain ⟨hue', hs, hpn⟩ := hs
        refine ⟨hue', hs, hpn.tintable, fun part' hpa' v lvl l hlow hh hl => ?_, fun v hout => ?_⟩
        · obtain rfl | hpa' := mem_cons.mp hpa'
          · obtain ⟨flags, new, haw, hpte, hhue⟩ := hpa.inside v lvl l hlow hh hl
            refine ⟨flags, new, haw, hpte, ?_⟩
            rw [hpn.outside v fun o ho hin => ?_, hhue]
            have := hfs o ho
            omega
          · exact hpn.inside part' hpa' v lvl l hlow hh hl
        · rw [hpn.outside v fun o ho => hout o (.tail _ ho)]
          exact hpa.outside v (hout part (.head _))

/-- **A transaction** that fails has changed nothing. -/
theorem run_spec (hwks : ∀ part ∈ parts, part.Works w i) (hord : parts.Pairwise fun a b => a.stop ≤ b.start) :
    Triple (Inv w) (run i (parts.map Part.prog) [])
      (fun _ s => ∃ hue, Inv (w.tint i hue) s ∧ Coloured arch w i parts (fun _ => none) hue)
      (fun e s => e ≠ .panic ∧ Inv w s) := by
  have hti : w.Tintable i fun _ => none := fun _ _ _ _ h => nomatch h
  have hrun := run_parts hwks hord [] (fun _ h => absurd h not_mem_nil) hti (fun _ h => absurd rfl h)
    fun _ _ _ _ _ => rfl
  rwa [World.tint_none] at hrun

/-! The parts that there are. -/

section Parts
variable {s₀ : Memory arch ι} (h₀ : Inv w s₀) (hbal : w.Balanced) (hstd : w.Stored arch i)
include h₀ hbal hstd

theorem protectAllocRange_works (flags : MappingFlags) :
    (⟨start, start + size, .alloc, fun _ given => given = flags,
      ProtectionTransaction.protectAllocRange i start size flags⟩ : Part arch ι).Works w i := fun _ hti hfr =>
  protectRange_spec h₀ hbal hstd hti hfr fun _ _ => .pure fun _ hs => ⟨hs, rfl⟩

theorem protectAllocRangeWith_works (flags : Bool → MappingFlags) :
    (⟨start, start + size, .alloc, fun phys given => given = flags (w.refs phys == 1),
      ProtectionTransaction.protectAllocRangeWith i start size flags⟩ : Part arch ι).Works w i := by
  intro hue hti hfr
  refine protectRange_spec h₀ hbal hstd hti hfr fun addr phys => ?_
  refine .bind (pteIsUnique_spec fun code s hs _ => ⟨nofun, hs⟩) fun exclusive => .pure fun s hs => ⟨hs.1, ?_⟩
  congr 1
  exact Bool.eq_iff_iff.mpr (hs.2.trans beq_iff_eq.symm)

theorem protectStaticRange_works (fs : StaticFrameRange) (flags : MappingFlags) :
    (⟨start, start + fs.size, .static, fun _ given => given = flags,
      protectStaticRange i start fs flags ps⟩ : Part arch ι).Works w i := by
  intro hue hti hfr
  refine .bind (validateRange_spec fun s hs _ => ⟨nofun, hs⟩) fun _ => ?_
  refine .bind (require_spec fun s hs _ => ⟨nofun, hs.1⟩) fun _ => ?_
  refine .pre (protectRange_spec h₀ hbal hstd hti hfr fun addr phys => ?_) (fun s hs => hs.1.1)
  split
  · exact .pure fun s hs => ⟨hs, rfl⟩
  · exact .throw fun s hs => ⟨nofun, hs⟩

omit h₀ hbal hstd in
/-- A part that does nothing. -/
theorem nothing_works (start : Nat) (kind : FrameKind) (allowed : Nat → MappingFlags → Prop) :
    (⟨start, start, kind, allowed, pure []⟩ : Part arch ι).Works w i := fun hue hti _ =>
  .pure fun _ hs => ⟨hue, hs, hti, fun _ h => absurd h not_mem_nil, fun _ _ => rfl,
    fun _ _ _ hlow hh _ => absurd hh (Nat.not_lt.mpr hlow), fun _ h => absurd rfl h⟩

end Parts

end Range

end StarryX.Mm
