import StarryX.Mm.Ownership
import StarryX.Vma.Space

/-! The areas as a function of addresses.

What a space says of an address is `lookup`. Each operation changes it on the range it was called
with and nowhere else, whatever areas it splits and joins: `areas_pointwise`, for every space that
a run can come to. Memory, objects and faults have no part in it: none of them touches the areas,
so nothing is assumed of them. -/
namespace StarryX.Vma
open Library Mm Function
open Option (some.inj)
open VirtAddrRange (contains_iff overlaps_false_iff)

section Layouts
variable {range r : VirtAddrRange} {areas : AreaMap} {start size : Nat} {ps : PageSize}

/-! ### Requests -/

/-- What `validate_range` accepts. -/
structure Accepted (range : VirtAddrRange) (start size : Nat) (pageSize : PageSize) : Prop where
  nonempty : size ≠ 0
  startAligned : start % pageSize.bytes = 0
  sizeAligned : size % pageSize.bytes = 0
  bounded : start + size < 2 ^ 64
  above : range.start ≤ start
  below : start + size ≤ range.stop

theorem validateRange_ok (h : validateRange range start size ps = .ok r) :
    r = .fromStartSize start size ∧ Accepted range start size ps := by
  unfold validateRange at h
  split at h
  · cases h
  next hal =>
    simp only [not_or, not_not] at hal
    split at h
    · cases h
    · split at h
      next hbo hins =>
        obtain ⟨hab, hbe⟩ := VirtAddrRange.containsRange_iff.mp hins
        exact ⟨(Except.ok.inj h).symm, hal.1, hal.2.1, hal.2.2, not_le.mp hbo, hab, hbe⟩
      · cases h

theorem validateNewArea_ok (h : validateNewArea range areas start size ps = .ok r) :
    r = .fromStartSize start size ∧ Accepted range start size ps ∧
      ∀ a ∈ values areas, a.range.overlaps r = false := by
  unfold validateNewArea at h
  cases hva : validateRange range start size ps with
  | error e =>
    rw [hva] at h
    cases h
  | ok new =>
    rw [hva] at h
    have h : (if (values areas).any fun a => a.range.overlaps new then Except.error XError.alreadyExists
      else .ok new) = .ok r := h
    split at h
    · cases h
    next hap =>
      obtain rfl := Except.ok.inj h
      refine ⟨(validateRange_ok hva).1, (validateRange_ok hva).2, fun a ha => ?_⟩
      rw [← Bool.not_eq_true]
      exact fun hov => hap (List.any_eq_true.mpr ⟨a, ha, hov⟩)

theorem Accepted.fine (h : Accepted range start size ps) (flags : MappingFlags) (backing : Backing) :
    (⟨.fromStartSize start size, flags, ps, backing⟩ : VmArea).Fine range := by
  have hnem := h.nonempty
  refine ⟨?_, h.startAligned, ?_, h.above, h.below⟩
  · show start < start + size
    omega
  · show (start + size) % ps.bytes = 0
    rw [Nat.add_mod, h.startAligned, h.sizeAligned]
    exact Nat.zero_mod _

/-- `check_region_access` looks at every address of the range. -/
theorem checkRegionAccess_iff (h : WellFormed range areas) (acc : MappingFlags) {fuel stop : Nat}
    (hfu : stop - start ≤ fuel) :
    checkRegionAccess areas acc fuel start stop ↔ ∀ addr, start ≤ addr → addr < stop →
      ∃ loc, lookup areas addr = some loc ∧ loc.flags.contains acc := by
  induction fuel generalizing start with
  | zero => exact ⟨fun _ addr hlow hh => by omega, fun _ => rfl⟩
  | succ fuel ih =>
    unfold checkRegionAccess
    split
    · exact ⟨fun _ addr hlow hh => by omega, fun _ => rfl⟩
    next hlt =>
      cases ha : areaAt areas start with
      | none =>
        refine ⟨nofun, fun hall => ?_⟩
        obtain ⟨loc, hloc, -⟩ := hall start le_rfl (by omega)
        rw [lookup, ha] at hloc
        cases hloc
      | some a =>
        obtain ⟨hmem, hin⟩ := (areaAt_eq_some h).mp ha
        have hin := contains_iff.mp hin
        have hhe : ∀ addr, start ≤ addr → addr < a.range.stop →
            lookup areas addr = some (a.locate addr) := fun addr hlow hh =>
          (lookup_eq_some h).mpr ⟨a, hmem, contains_iff.mpr ⟨by omega, hh⟩, rfl⟩
        rw [Bool.and_eq_true, ih (by omega)]
        constructor
        · rintro ⟨hfg, hrs⟩ addr hlow hh
          by_cases hth : addr < a.range.stop
          · exact ⟨_, hhe addr hlow hth, hfg⟩
          · exact hrs addr (by omega) hh
        · intro hall
          obtain ⟨loc, hloc, hfg⟩ := hall start le_rfl (by omega)
          rw [hhe start le_rfl hin.2] at hloc
          cases hloc
          exact ⟨hfg, fun addr hlow hh => hall addr (by omega) hh⟩

/-! ### One area more -/

section Insert
variable (h : WellFormed range areas) {a : VmArea} (hfi : a.Fine range)
  (hap : ∀ b ∈ values areas, b.range.overlaps a.range = false)
include h hfi hap

/-- An area with the same start would overlap. -/
theorem WellFormed.start_free : ∀ e ∈ areas.entries, e.1 ≠ a.range.start := by
  intro e he
  have := overlaps_false_iff.mp (hap e.2 (List.mem_map_of_mem he))
  have := (h.fine e he).nonempty
  have := hfi.nonempty
  have := h.keyed e he
  omega

theorem WellFormed.insertArea_eq : insertArea areas a = some (areas.insert a.range.start a) := by
  have hn : areas.get? a.range.start = none :=
    SortedMap.get?_eq_none.mpr fun b hb => h.start_free hfi hap _ hb rfl
  rw [insertArea, hn]
  rfl

theorem WellFormed.mem_insert {b : VmArea} :
    b ∈ values (areas.insert a.range.start a) ↔ b = a ∨ b ∈ values areas := by
  constructor
  · intro hb
    obtain ⟨e, he, rfl⟩ := List.mem_map.mp hb
    obtain rfl | ⟨he, -⟩ := (SortedMap.mem_insertEntry areas.sorted).mp he
    · exact .inl rfl
    · exact .inr (List.mem_map_of_mem he)
  · rintro (rfl | hb)
    · exact List.mem_map.mpr ⟨_, (SortedMap.mem_insertEntry areas.sorted).mpr (.inl rfl), rfl⟩
    · obtain ⟨e, he, rfl⟩ := List.mem_map.mp hb
      exact List.mem_map.mpr
        ⟨e, (SortedMap.mem_insertEntry areas.sorted).mpr (.inr ⟨he, h.start_free hfi hap e he⟩), rfl⟩

theorem WellFormed.insert : WellFormed range (areas.insert a.range.start a) ∧
      ∀ addr, lookup (areas.insert a.range.start a) addr =
        if a.range.contains addr then some (a.locate addr) else lookup areas addr := by
  have hmem : ∀ e, e ∈ (areas.insert a.range.start a).entries ↔
      e = (a.range.start, a) ∨ e ∈ areas.entries ∧ e.1 ≠ a.range.start :=
    fun e => SortedMap.mem_insertEntry areas.sorted
  have hnew : ∀ e ∈ areas.entries, e.2.range.overlaps a.range = false := fun e he =>
    hap e.2 (List.mem_map_of_mem he)
  have hfm : WellFormed range (areas.insert a.range.start a) := by
    refine ⟨fun e he => ?_, fun e he => ?_, fun e he e' he' hne => ?_⟩
    · obtain rfl | ⟨he, -⟩ := (hmem e).mp he
      · rfl
      · exact h.keyed e he
    · obtain rfl | ⟨he, -⟩ := (hmem e).mp he
      · exact hfi
      · exact h.fine e he
    · obtain rfl | ⟨he, -⟩ := (hmem e).mp he
      · obtain rfl | ⟨he', -⟩ := (hmem e').mp he'
        · exact absurd rfl hne
        · exact overlaps_false_iff.mpr (overlaps_false_iff.mp (hnew e' he')).symm
      · obtain rfl | ⟨he', -⟩ := (hmem e').mp he'
        · exact hnew e he
        · exact h.disjoint e he e' he' hne
  refine ⟨hfm, fun addr => ?_⟩
  ext location
  rw [lookup_eq_some hfm]
  by_cases hin : a.range.contains addr
  · rw [if_pos hin]
    constructor
    · rintro ⟨b, hb, hbin, hloc⟩
      obtain rfl | hb := (h.mem_insert hfi hap).mp hb
      · exact congrArg some hloc
      · have := overlaps_false_iff.mp (hap b hb)
        have := contains_iff.mp hin
        have := contains_iff.mp hbin
        omega
    · intro hloc
      exact ⟨a, (h.mem_insert hfi hap).mpr (.inl rfl), hin, some.inj hloc⟩
  · rw [if_neg hin, lookup_eq_some h]
    constructor
    · rintro ⟨b, hb, hbin, hloc⟩
      obtain rfl | hb := (h.mem_insert hfi hap).mp hb
      · exact absurd hbin hin
      · exact ⟨b, hb, hbin, hloc⟩
    · rintro ⟨b, hb, hbin, hloc⟩
      exact ⟨b, (h.mem_insert hfi hap).mpr (.inr hb), hbin, hloc⟩

end Insert

theorem wellFormed_empty : WellFormed range .empty :=
  ⟨fun _ h => absurd h List.not_mem_nil, fun _ h => absurd h List.not_mem_nil, fun _ h => absurd h List.not_mem_nil⟩

/-- An area that was just inserted can be taken out again. -/
theorem insertArea_some {a : VmArea} {inserted : AreaMap} (h : insertArea areas a = some inserted) :
    inserted = areas.insert a.range.start a ∧ inserted.erase a.range.start = areas := by
  unfold insertArea at h
  split at h
  next hn =>
    cases h
    refine ⟨rfl, SortedMap.ext_get? fun k => ?_⟩
    rw [SortedMap.get?_erase, SortedMap.get?_insert]
    by_cases hk : k = a.range.start
    · rw [if_pos hk, hk, Option.isNone_iff_eq_none.mp hn]
    · rw [if_neg hk, if_neg hk]
  · cases h

end Layouts

/-! ### What does not touch the areas -/

section Areas
variable {arch : Arch} {ι : Type} {α β : Type} {x : VProg arch ι α}

/-- The areas of a space and the range they lie in are as before. -/
def SameAreas (v t : Vm arch ι) : Prop := t.space.range = v.space.range ∧ t.space.areas = v.space.areas

/-- A program that leaves the areas alone, whether it fails or not. -/
def Keeps (x : VProg arch ι α) : Prop := ∀ v, Triple (SameAreas v) x (fun _ => SameAreas v) (fun _ => SameAreas v)

theorem Keeps.bind {f : α → VProg arch ι β} (hx : Keeps x) (hf : ∀ a, Keeps (f a)) :
    Keeps (x >>= f) := fun v => (hx v).bind fun a => hf a v

theorem keeps_pure (a : α) : Keeps (pure a : VProg arch ι α) := fun _ => .skip

theorem keeps_throw (e : XStop) : Keeps (throw e : VProg arch ι α) := fun _ => Triple.throw fun _ h => h

theorem keeps_get : Keeps (get : VProg arch ι (Vm arch ι)) := fun _ _ h => h

theorem keeps_onKernel (x : KProg arch ι α) : Keeps (onKernel x) := by
  refine fun v => .start fun t ht => .zoom (R := fun _ _ => True) (F := fun _ _ => True) ?_
    (fun _ _ _ => ht) fun _ _ _ => ht
  intro s _
  split <;> trivial

theorem keeps_onMemory (x : Prog arch ι α) : Keeps (onMemory x) := keeps_onKernel _

theorem Keeps.attempt (hx : Keeps x) : Keeps (attempt x) := by
  intro v
  refine ((hx v).attempt).post fun r t ht => ?_
  cases r with
  | ok a => exact ht
  | error e => exact ht

theorem keeps_tryMemory (x : Prog arch ι α) : Keeps (tryMemory x : VProg arch ι _) := by
  refine (keeps_onMemory x).attempt.bind fun r => ?_
  match r with
  | .ok a => exact keeps_pure _
  | .error (.error e) => exact keeps_pure _
  | .error .panic => exact keeps_throw _

theorem keeps_recordGuard (addr : Nat) (g : Option Guard) : Keeps (recordGuard addr g : VProg arch ι Unit) := by
  cases g with
  | none => exact keeps_pure ()
  | some g => exact fun v => .modify fun t ht => ht

theorem keeps_commitPage (addr : Nat) (g : Option Guard) (c unused : Prog arch ι Unit) :
    Keeps (commitPage addr g c unused : VProg arch ι _) := by
  have hre : Keeps (reserveWriteGuard g : VProg arch ι Bool) := by
    cases g with
    | none => exact keeps_pure true
    | some g =>
      refine (keeps_tryMemory _).bind fun r => ?_
      cases r with
      | ok _ | error _ => exact keeps_pure _
  refine hre.bind fun reserved => ?_
  cases reserved with
  | true =>
    refine (keeps_tryMemory c).bind fun r => ?_
    cases r with
    | ok a => exact (keeps_recordGuard addr g).bind fun _ => keeps_pure _
    | error e => exact keeps_pure _
  | false => exact (keeps_onMemory unused).bind fun _ => keeps_pure _

variable [DecidableEq ι] (i : ι)

theorem keeps_installSupplied (addr : Nat) (a : VmArea) (guarded isPrivate writing : Bool) (f : Frame)
    (g : Option Guard) :
    Keeps (installSupplied i addr a guarded isPrivate writing f g : VProg arch ι _) := by
  cases isPrivate with
  | false => exact keeps_commitPage _ _ _ _
  | true =>
    cases writing with
    | false => exact keeps_commitPage _ _ _ _
    | true =>
      refine (keeps_onMemory (deepCopy f)).bind fun copy => ?_
      cases copy with
      | none => exact (keeps_onMemory _).bind fun _ => keeps_pure _
      | some copy => exact (keeps_commitPage _ _ _ _).bind fun r => (keeps_onMemory _).bind fun _ => keeps_pure r

theorem keeps_resolveObjectFault (addr : Nat) (a : VmArea) (obj off : Nat) (isPrivate : Bool)
    (acc : MappingFlags) :
    Keeps (resolveObjectFault i addr a obj off isPrivate acc : VProg arch ι _) := by
  show Keeps (if 2 ^ 64 ≤ _ then _ else _)
  split
  · exact keeps_pure _
  · refine (keeps_onKernel (byteLen obj)).bind fun len => ?_
    cases len with
    | error e => exact keeps_pure _
    | ok len =>
      show Keeps (if len ≤ _ then _ else _)
      split
      · exact keeps_pure _
      · refine (keeps_onKernel _).bind fun supplied => ?_
        cases supplied with
        | error e => exact keeps_pure _
        | ok supplied => exact keeps_get.bind fun v => keeps_installSupplied i _ _ _ _ _ _ _

theorem keeps_upgradeSharedWrite (addr : Nat) (a : VmArea) (obj off : Nat) :
    Keeps (upgradeSharedWrite i addr a obj off : VProg arch ι _) := by
  refine (keeps_onKernel _).bind fun supplied => ?_
  cases supplied with
  | error e => exact keeps_pure _
  | ok supplied =>
    refine keeps_get.bind fun v => ?_
    split
    · exact (keeps_onMemory _).bind fun _ => keeps_pure _
    · exact (keeps_commitPage _ _ _ _).bind fun r => (keeps_onMemory _).bind fun _ => keeps_pure r

theorem keeps_resolvePrivateWrite (addr : Nat) (flags : MappingFlags) :
    Keeps (resolvePrivateWrite i addr flags : VProg arch ι _) := by
  refine (keeps_tryMemory _).bind fun shared => ?_
  match shared with
  | .error e => exact keeps_pure _
  | .ok none =>
    refine (keeps_tryMemory _).bind fun r => ?_
    cases r with
    | ok _ | error _ => exact keeps_pure _
  | .ok (some cur) =>
    refine (keeps_onMemory _).bind fun copy => ?_
    cases copy with
    | none => exact (keeps_onMemory _).bind fun _ => keeps_pure _
    | some copy => exact (keeps_tryMemory _).bind fun r => (keeps_onMemory _).bind fun _ => keeps_pure _

theorem keeps_resolveFault (a : VmArea) (addr : Nat) (acc : MappingFlags) :
    Keeps (resolveFault i a addr acc : VProg arch ι _) := by
  unfold resolveFault
  split
  · refine (keeps_onMemory _).bind fun f => ?_
    cases f with
    | none => exact keeps_pure _
    | some f => exact (keeps_tryMemory _).bind fun r => keeps_pure _
  · exact keeps_resolveObjectFault i _ _ _ _ _ _
  · exact keeps_pure _

theorem keeps_handlePageFault (addr : Nat) (acc : MappingFlags) :
    Keeps (handlePageFault i addr acc : VProg arch ι _) := by
  refine keeps_get.bind fun v => ?_
  cases areaAt v.space.areas addr with
  | none => exact keeps_pure _
  | some a =>
    show Keeps (if a.flags.contains acc then _ else _)
    split
    · refine (keeps_onMemory _).bind fun resident => ?_
      cases resident with
      | none => exact keeps_resolveFault i _ _ _
      | some flags =>
        show Keeps (resolveResident i a _ flags acc)
        unfold resolveResident
        split
        · exact keeps_pure _
        · split
          · exact keeps_pure _
          · split
            · exact keeps_resolvePrivateWrite i _ _
            · split
              · exact keeps_pure _
              · exact keeps_upgradeSharedWrite i _ _ _ _
    · exact keeps_pure _

omit [DecidableEq ι] in
theorem keeps_forM (l : List β) {f : β → VProg arch ι Unit} (hf : ∀ b ∈ l, Keeps (f b)) : Keeps (l.forM f) := by
  induction l with
  | nil => exact keeps_pure ()
  | cons b rest ih =>
    exact (hf b (.head _)).bind fun _ => ih fun b hb => hf b (.tail _ hb)

omit [DecidableEq ι] in
theorem keeps_ofExcept (r : Except XError α) : Keeps (ofExcept r : VProg arch ι α) := by
  cases r with
  | ok a => exact keeps_pure a
  | error e => exact keeps_throw _

omit [DecidableEq ι] in
theorem keeps_ofOption (r : Option α) : Keeps (ofOption r : VProg arch ι α) := by
  cases r with
  | some a => exact keeps_pure a
  | none => exact keeps_throw _

theorem keeps_populateArea (start size : Nat) (acc : MappingFlags) :
    Keeps (populateArea i start size acc : VProg arch ι Unit) := by
  refine keeps_get.bind fun v => (keeps_ofExcept _).bind fun range => ?_
  split
  · cases pageIter range.start range.stop .size4K with
    | none => exact keeps_throw _
    | some pages =>
      refine keeps_forM pages fun addr _ => (keeps_handlePageFault i addr acc).bind fun r => ?_
      cases r with
      | resolved => exact keeps_pure ()
      | retry | noMemory | segv | bus => exact keeps_throw _
  · exact keeps_throw _

omit [DecidableEq ι] in
theorem keeps_writeBytes (start : Nat) (input : List UInt8) : Keeps (writeBytes i start input : VProg arch ι Unit) := by
  unfold writeBytes
  split
  · exact keeps_pure ()
  · split
    · exact keeps_throw _
    · refine keeps_get.bind fun v => ?_
      split
      · exact keeps_onMemory _
      · exact keeps_throw _

theorem keeps_unmapObjectRange (id start stop : Nat) :
    Keeps (unmapObjectRange i id start stop : VProg arch ι Unit) := by
  refine keeps_get.bind fun v => keeps_forM _ fun a _ => (keeps_ofOption _).bind fun invalidated => ?_
  cases invalidated with
  | none => exact keeps_pure ()
  | some invalidated => exact (keeps_onMemory _).bind fun _ _ => .modify fun _ ht => ht

end Areas

/-! ### What the operations do to the areas -/

variable {α : Type}

section Operations
variable {arch : Arch} {ι : Type} {v : Vm arch ι} {i : ι} {start size : Nat}

def VmSpace.Formed (space : VmSpace arch) : Prop := WellFormed space.virtRange space.areas

/-- A space says something else of the addresses now. -/
structure Becomes (v t : Vm arch ι) (said : Nat → Option Location) : Prop where
  range : t.space.range = v.space.range
  formed : t.space.Formed
  lookup : ∀ address, lookup t.space.areas address = said address

variable {E : XStop → Vm arch ι → Prop} {P : Vm arch ι → Prop}

theorem ofExcept_areas (r : Except XError α) (hE : ∀ e t, P t → r = .error e → E (.error e) t) :
    Triple P (ofExcept r) (fun a t => P t ∧ r = .ok a) E := by
  cases r with
  | ok a => exact .pure fun t ht => ⟨ht, rfl⟩
  | error e => exact .throw fun t ht => hE e t ht rfl

theorem ofOption_areas (r : Option α) (hE : ∀ t, P t → r = none → E .panic t) :
    Triple P (ofOption r) (fun a t => P t ∧ r = some a) E := by
  cases r with
  | some a => exact .pure fun t ht => ⟨ht, rfl⟩
  | none => exact .throw fun t ht => hE t ht rfl

variable {said : Nat → Option Location} {areas : AreaMap} {t : Vm arch ι}

/-- The areas are put in place, and the guards follow. -/
theorem Becomes.of_same {u : Vm arch ι} (h : Becomes v t said) (heq : SameAreas t u) :
    Becomes v u said := by
  obtain ⟨hr, hars⟩ := heq
  refine ⟨hr.trans h.range, ?_, fun addr => hars ▸ h.lookup addr⟩
  unfold VmSpace.Formed VmSpace.virtRange
  rw [hr, hars]
  exact h.formed

/-- The new areas are put in place. -/
theorem SameAreas.becomes (ht : SameAreas v t)
    (hfm : WellFormed v.space.virtRange areas) (hlk : ∀ addr, lookup areas addr = said addr) :
    Becomes v {t with space.areas := areas} said := by
  refine ⟨ht.1, ?_, hlk⟩
  show WellFormed (.fromStartSize t.space.range.start t.space.range.size) areas
  rw [ht.1]
  exact hfm

theorem sameAreas_self (v : Vm arch ι) : SameAreas v v := ⟨rfl, rfl⟩

section Changes
variable [DecidableEq ι]

/-- What `unmap` leaves. -/
def unmapped (areas : AreaMap) (start size address : Nat) : Option Location :=
  if (VirtAddrRange.fromStartSize start size).contains address then none else lookup areas address

theorem unmap_areas (h : v.space.Formed) : Runs v (unmap i start size : VProg arch ι Unit)
      (fun _ t => Becomes v t (unmapped v.space.areas start size)) (fun _ t => SameAreas v t) := by
  refine .get_bind (.resume ?_ (sameAreas_self v))
  refine .next (ofExcept_areas _ fun _ _ ht _ => ht) fun removed t ⟨ht, hva⟩ => ?_
  obtain ⟨rfl, -⟩ := validateRange_ok hva
  refine .resume ?_ ht
  refine (keeps_ofExcept _ v).bind fun _ => (keeps_onMemory _ v).bind fun _ => ?_
  refine .next (ofOption_areas _ fun _ ht _ => ht) fun kept t ⟨ht, hke⟩ => ?_
  obtain ⟨hfm, hlk⟩ := retainOutside_wellFormed h hke
  refine .modify_bind (.modify fun u hu => ?_)
  exact hu ▸ (ht.becomes hfm hlk).of_same ⟨rfl, rfl⟩

/-- What `protect` leaves. -/
def recoloured (areas : AreaMap) (start size : Nat) (flags : MappingFlags) (address : Nat) : Option Location :=
  (lookup areas address).map (Location.recoloured (.fromStartSize start size) flags address)

theorem protect_areas (h : v.space.Formed) (flags : MappingFlags) :
    Runs v (protect i start size flags : VProg arch ι Unit)
      (fun _ t => (∀ addr, start ≤ addr → addr < start + size → (lookup v.space.areas addr).isSome) ∧
        Becomes v t (recoloured v.space.areas start size flags)) (fun _ t => SameAreas v t) := by
  refine .get_bind (.resume ?_ (sameAreas_self v))
  refine .next (ofExcept_areas _ fun _ _ ht _ => ht) fun changed t ⟨ht, hva⟩ => ?_
  obtain ⟨rfl, hacc⟩ := validateRange_ok hva
  split_ifs with hcov
  · have hcov := (checkRegionAccess_iff h _ le_rfl).mp hcov
    have hso : ∀ addr, start ≤ addr → addr < start + size → (lookup v.space.areas addr).isSome := by
      intro addr hlow hh
      obtain ⟨loc, hloc, -⟩ := hcov addr hlow hh
      rw [hloc]
      rfl
    have hnem := hacc.nonempty
    refine .resume ?_ ht
    refine (keeps_ofExcept _ v).bind fun _ => .next (ofOption_areas _ fun _ ht _ => ht) fun committed t ⟨ht, hcom⟩ => ?_
    obtain ⟨hfm, hlk⟩ := committedAreas_wellFormed h (by show start < start + size; omega) hcom
    refine .resume ?_ ht
    refine (keeps_onMemory _ v).bind fun _ => .start fun t ht => ?_
    refine .modify_bind (.modify fun u hu => ⟨hso, ?_⟩)
    exact hu ▸ (ht.becomes hfm hlk).of_same ⟨rfl, rfl⟩
  · exact .throw fun u hu => hu ▸ ht

/-- What `map` leaves: the new area has its bytes at the same distance from the start. -/
def added (areas : AreaMap) (start size : Nat) (flags : MappingFlags) (pageSize : PageSize) (backing : Backing)
    (address : Nat) : Option Location :=
  if (VirtAddrRange.fromStartSize start size).contains address then
    some ⟨flags, backing.isPrivate, pageSize, backing.source.at (address - start)⟩
  else lookup areas address

theorem undoMap_areas {range : VirtAddrRange} (hars : areas.erase start = v.space.areas) :
    Triple (fun t : Vm arch ι => t.space.range = v.space.range ∧ t.space.areas = areas) (undoMap i start range)
      (fun _ t => SameAreas v t) (fun e t => e = .panic ∨ SameAreas v t) := by
  refine .start fun t ht => .get_bind (.bind (ofOption_areas _ fun _ _ _ => .inl rfl) fun a => ?_)
  refine .start fun u hu => ?_
  obtain ⟨rfl, -⟩ := hu
  refine .modify_bind (.resume (P := SameAreas v) ?_ ⟨ht.1, ?_⟩)
  · exact ((keeps_onMemory _ v).fail fun _ _ h => .inr h)
  · rw [ht.2, hars]

theorem map_areas (h : v.space.Formed) (flags : MappingFlags) (backend : Backend) :
    Runs v (map i start size flags backend)
      (fun _ t => ∃ ps backing populate, backend.prepare size = .ok (ps, backing, populate) ∧
        (∀ addr, start ≤ addr → addr < start + size → lookup v.space.areas addr = none) ∧
        Becomes v t (added v.space.areas start size flags ps backing))
      (fun e t => e = .panic ∨ SameAreas v t) := by
  refine .get_bind (.resume ?_ (sameAreas_self v))
  refine .bind (ofExcept_areas _ fun _ _ ht _ => .inr ht) fun ⟨ps, backing, populate⟩ => ?_
  refine .start fun t ⟨ht, hpr⟩ => ?_
  refine .resume ?_ ht
  refine .next (ofExcept_areas _ fun _ _ ht _ => .inr ht) fun new t ⟨ht, hva⟩ => ?_
  obtain ⟨rfl, hacc, hap⟩ := validateNewArea_ok hva
  obtain ⟨hfm, hlk⟩ := h.insert (hacc.fine flags backing) hap
  refine .resume ?_ ht
  refine ((keeps_onMemory _ v).fail fun _ _ ht => .inr ht).bind fun _ => ?_
  refine .bind (ofOption_areas _ fun _ _ _ => .inl rfl) fun inserted => .start fun t ⟨ht, hit⟩ => ?_
  obtain ⟨rfl, her⟩ := insertArea_some hit
  have hbe := ht.becomes hfm hlk
  have hfr : ∀ addr, start ≤ addr → addr < start + size → lookup v.space.areas addr = none := by
    intro addr hlow hh
    by_contra hso
    obtain ⟨loc, hloc⟩ := Option.ne_none_iff_exists'.mp hso
    obtain ⟨a, ha, hin, -⟩ := (lookup_eq_some h).mp hloc
    have := overlaps_false_iff.mp (hap a ha)
    have hin := contains_iff.mp hin
    have hst : (VirtAddrRange.fromStartSize start size).start = start := rfl
    have hsp : (VirtAddrRange.fromStartSize start size).stop = start + size := rfl
    omega
  refine .modify_bind ?_
  cases populate with
  | false => exact .pure fun u hu => ⟨ps, backing, false, hpr, hfr, hu ▸ hbe⟩
  | true =>
    refine .resume ?_ (sameAreas_self _)
    refine .bind (keeps_populateArea i start size flags _).attempt fun r => ?_
    match r with
    | .ok _ => exact .pure fun u hu => ⟨ps, backing, true, hpr, hfr, hbe.of_same hu⟩
    | .error .panic => exact .throw fun u hu => .inl rfl
    | .error (.error e) =>
      refine .bind ((undoMap_areas her).pre (fun u hu => ?_)) fun _ => ?_
      · exact ⟨hu.1.trans ht.1, hu.2⟩
      · exact .throw fun u hu => .inr hu

theorem unmapUserAreas_areas (v : Vm arch ι) :
    Runs v (unmapUserAreas i) (fun _ t => Becomes v t fun _ => none)
      (fun _ t => SameAreas v t) := by
  refine .get_bind (.resume ?_ (sameAreas_self v))
  refine (keeps_onMemory _ v).bind fun _ => .modify fun t ht => ?_
  exact ⟨ht.1, wellFormed_empty, fun _ => rfl⟩

theorem tryClone_areas (j : ι) (v : Vm arch ι) : Runs v (tryClone i j)
      (fun c t => SameAreas v t ∧ c.range = v.space.range ∧ c.areas = v.space.areas)
      (fun _ t => SameAreas v t) := by
  refine .get_bind (.resume ?_ (sameAreas_self v))
  refine (keeps_onMemory _ v).bind fun _ => ?_
  refine .bind (keeps_onMemory _ v).attempt fun r => ?_
  match r with
  | .ok _ => exact .pure fun t ht => ⟨ht, rfl, rfl⟩
  | .error .panic => exact .throw fun t ht => ht
  | .error (.error e) => exact (keeps_onMemory _ v).bind fun _ => .throw fun t ht => ht

/-- What the operations on a space do to its areas. -/
structure Pointwise (i : ι) (v : Vm arch ι) : Prop where
  map : ∀ start size flags backend, Triple (fun t => t = v) (Vma.map i start size flags backend)
    (fun _ t => ∃ pageSize backing populate, backend.prepare size = .ok (pageSize, backing, populate) ∧
      (∀ address, start ≤ address → address < start + size → lookup v.space.areas address = none) ∧
      Becomes v t (added v.space.areas start size flags pageSize backing))
    (fun e t => e = .panic ∨ SameAreas v t)
  unmap : ∀ start size, Triple (fun t => t = v) (Vma.unmap i start size)
    (fun _ t => Becomes v t (unmapped v.space.areas start size)) (fun _ t => SameAreas v t)
  protect : ∀ start size flags, Triple (fun t => t = v) (Vma.protect i start size flags)
    (fun _ t => (∀ address, start ≤ address → address < start + size → (lookup v.space.areas address).isSome) ∧
      Becomes v t (recoloured v.space.areas start size flags)) (fun _ t => SameAreas v t)
  tryClone : ∀ j, Triple (fun t => t = v) (Vma.tryClone i j)
    (fun child t => SameAreas v t ∧ child.range = v.space.range ∧ child.areas = v.space.areas)
    (fun _ t => SameAreas v t)
  unmapUserAreas : Triple (fun t => t = v) (Vma.unmapUserAreas i) (fun _ t => Becomes v t fun _ => none)
    (fun _ t => SameAreas v t)

theorem VmSpace.Formed.pointwise (i : ι) (h : v.space.Formed) : Pointwise i v where
  map := fun _ _ flags backend => map_areas h flags backend
  unmap := fun _ _ => unmap_areas h
  protect := fun _ _ flags => protect_areas h flags
  tryClone := fun j => tryClone_areas j v
  unmapUserAreas := unmapUserAreas_areas v

end Changes

end Operations

/-! ### Runs -/

section Runs
variable {arch : Arch} {ι : Type} [DecidableEq ι] {s s' : System arch ι} {i : ι} {x : VProg arch ι α}

def System.Formed (s : System arch ι) : Prop := ∀ i space, s.spaces i = some space → space.Formed

omit [DecidableEq ι] in
theorem SameAreas.formed {v t : Vm arch ι} (h : SameAreas v t) (hv : v.space.Formed) : t.space.Formed := by
  unfold VmSpace.Formed VmSpace.virtRange
  rw [h.1, h.2]
  exact hv

section
variable (h : s.Formed)
include h

theorem System.Formed.setSpace (kernel : Kernel arch ι) {sp : Option (VmSpace arch)}
    (hsp : ∀ new, sp = some new → new.Formed) : (s.setSpace i kernel sp).Formed := by
  intro j found hfd
  obtain ⟨-, hnew⟩ | ⟨-, hold⟩ := update_cases hfd
  · exact hsp found hnew
  · exact h j found hold

theorem System.Formed.call (hx : ∀ v : Vm arch ι, v.space.Formed →
      Runs v x (fun _ t => t.space.Formed) (fun e t => e = .panic ∨ t.space.Formed))
    (hca : s.call i x = some s') : s'.Formed := by
  unfold System.call at hca
  cases hsp : s.spaces i with
  | none =>
    rw [hsp] at hca
    exact some.inj hca ▸ h
  | some sp =>
    have hs := hx ⟨s.kernel, sp⟩ (h i sp hsp) _ rfl
    rw [hsp] at hca
    dsimp only at hca
    cases hrun : x ⟨s.kernel, sp⟩ with
    | ok a v =>
      rw [hrun] at hs hca
      exact some.inj hca ▸ h.setSpace v.kernel fun new hnew => some.inj hnew ▸ hs
    | error e v =>
      rw [hrun] at hs hca
      cases e with
      | panic => cases hca
      | error code =>
        exact some.inj hca ▸ h.setSpace v.kernel fun new hnew =>
          some.inj hnew ▸ hs.resolve_left nofun

theorem System.Formed.keeps (hx : Keeps x) (hca : s.call i x = some s') : s'.Formed :=
  h.call (fun v hv => .resume (((hx v).fail fun _ _ ht => .inr (ht.formed hv)).post
    fun _ _ ht => ht.formed hv) (sameAreas_self v)) hca

theorem System.Formed.step (op : Op arch ι) (hst : s.step op = some s') : s'.Formed := by
  cases op with
  | newEmpty i range =>
    have hst : s.newEmpty i range = some s' := hst
    unfold System.newEmpty at hst
    split at hst
    · exact some.inj hst ▸ h
    · split at hst
      · exact some.inj hst ▸ h.setSpace _ fun new hnew => some.inj hnew ▸ wellFormed_empty
      · exact some.inj hst ▸ h
      · cases hst
  | map i start size flags backend =>
    have hst : (if backend.isSound s.kernel.memory then s.call i (map i start size flags backend) else some s) =
      some s' := hst
    split at hst
    case isFalse => exact some.inj hst ▸ h
    refine h.call (fun v hv => ((map_areas hv flags backend).fail fun e t ht => ?_).post
      fun _ t ht => ?_) hst
    · exact ht.imp id fun ht => ht.formed hv
    · obtain ⟨_, _, _, -, -, hbe⟩ := ht
      exact hbe.formed
  | unmap i start size =>
    exact h.call (fun v hv => ((unmap_areas hv).fail fun e t ht => .inr (ht.formed hv)).post
      fun _ t ht => ht.formed) hst
  | protect i start size flags =>
    exact h.call (fun v hv => ((protect_areas hv flags).fail fun e t ht => .inr (ht.formed hv)).post
      fun _ t ht => ht.2.formed) hst
  | handlePageFault i addr acc => exact h.keeps (keeps_handlePageFault i addr acc) hst
  | populateArea i start size acc => exact h.keeps (keeps_populateArea i start size acc) hst
  | writeBytes i start input => exact h.keeps (keeps_writeBytes i start input) hst
  | tryClone i j =>
    have hst : s.tryClone i j = some s' := hst
    unfold System.tryClone at hst
    split at hst
    next sp hsp hfr =>
      have hs := tryClone_areas (i := i) j ⟨s.kernel, sp⟩ _ rfl
      split at hst
      next child v hrun =>
        rw [hrun] at hs
        obtain ⟨heq, hr, hars⟩ := hs
        have hch : child.Formed := by
          unfold VmSpace.Formed VmSpace.virtRange
          rw [hr, hars]
          exact h i sp hsp
        refine some.inj hst ▸ (h.setSpace _ fun new hnew => ?_).setSpace _ fun new hnew => ?_
        · exact some.inj hnew ▸ heq.formed (h i sp hsp)
        · exact some.inj hnew ▸ hch
      next e v hrun =>
        rw [hrun] at hs
        refine some.inj hst ▸ h.setSpace _ fun new hnew => ?_
        exact some.inj hnew ▸ hs.formed (h i sp hsp)
      · cases hst
    · exact some.inj hst ▸ h
  | unmapUserAreas i =>
    exact h.call (fun v hv => ((unmapUserAreas_areas v).fail fun e t ht => .inr (ht.formed hv)).post
      fun _ t ht => ht.formed) hst
  | unmapObjectRange i id start stop => exact h.keeps (keeps_unmapObjectRange i id start stop) hst
  | drop i =>
    have hst : s.drop i = some s' := hst
    unfold System.drop at hst
    split at hst
    · exact some.inj hst ▸ h
    · split at hst
      · exact some.inj hst ▸ h.setSpace _ nofun
      · cases hst
  | objects acts =>
    have hst : s.objects acts = some s' := hst
    unfold System.objects at hst
    split at hst
    · exact some.inj hst ▸ h
    · cases hst

theorem System.Formed.run {ops : List (Op arch ι)} (hrun : s.run ops = some s') : s'.Formed := by
  induction ops generalizing s with
  | nil => exact some.inj hrun ▸ h
  | cons op rest ih =>
    obtain ⟨t, hst, hrs⟩ := Option.bind_eq_some_iff.mp hrun
    exact ih (h.step op hst) hrs

end

/-- **Areas are a function of addresses**: in every space of every run they are well-formed, each
operation changes what they say of the addresses of its range and of no others, and joining
neighbours changes nothing. -/
theorem areas_pointwise (hempty : ∀ i, s.spaces i = none) {ops : List (Op arch ι)} (hrun : s.run ops = some s')
    {space : VmSpace arch} (hspace : s'.spaces i = some space) :
    space.Formed ∧ (∀ kernel, Pointwise i (⟨kernel, space⟩ : Vm arch ι)) ∧
      ∀ range areas, WellFormed range areas → ∀ address, lookup (mergedAreaMap areas) address = lookup areas address := by
  have hfm : s.Formed := fun i space hso => by
    rw [hempty i] at hso
    cases hso
  have h := hfm.run hrun i space hspace
  exact ⟨h, fun kernel => VmSpace.Formed.pointwise i h, fun range areas h address => lookup_mergedAreaMap h address⟩

end Runs

/-- Four frames and two spaces. The one object has no pages. -/
def smallKernel : Kernel sv39 Bool where
  memory := {
    base := 0x80000000
    frameCount := 4
    aligned := smallBase_aligned
    refCount := fun _ => 0
    live := fun _ => false
    bytes := fun _ _ => 0
    answers := fun n => some (0x80000000 + 4096 * n)
    asked := 0
    grants := fun _ => true
    requests := 0
    handles := fun _ => 0
    allocs := fun _ => 0
    frees := fun _ => 0
    spaces := fun _ => ⟨userRange, .new⟩ }
  guarded := fun _ => true
  kept := []
  lengths := fun _ _ => .ok 0
  replies := fun _ _ _ _ => ⟨[], .error .eio⟩
  calls := 0

/-- An area is split by a change of flags, joined again and cut, and the space is forked. -/
theorem areas_pointwise_split :
    ∃ s' space, System.run ⟨smallKernel, fun _ => none⟩ [.newEmpty false userRange,
        .map false 0x1000 0x4000 readWrite (.anonymous true), .protect false 0x2000 0x1000 (MappingFlags.withoutWrite readWrite),
        .protect false 0x2000 0x1000 readWrite, .unmap false 0x3000 0x1000, .tryClone false true] = some s' ∧
      s'.spaces true = some space ∧ space.Formed ∧ (∀ kernel, Pointwise true (⟨kernel, space⟩ : Vm sv39 Bool)) ∧
      ∀ range areas, WellFormed range areas → ∀ address, lookup (mergedAreaMap areas) address = lookup areas address := by
  have hruns : ((System.run ⟨smallKernel, fun _ => none⟩ [.newEmpty false userRange,
      .map false 0x1000 0x4000 readWrite (.anonymous true), .protect false 0x2000 0x1000 (MappingFlags.withoutWrite readWrite),
      .protect false 0x2000 0x1000 readWrite, .unmap false 0x3000 0x1000, .tryClone false true]).bind fun s' =>
        s'.spaces true).isSome := by decide +kernel
  obtain ⟨space, hspace⟩ := Option.isSome_iff_exists.mp hruns
  obtain ⟨s', hrun, hspace⟩ := Option.bind_eq_some_iff.mp hspace
  exact ⟨s', space, hrun, hspace, areas_pointwise (fun _ => rfl) hrun hspace⟩

end StarryX.Vma
