import StarryX.Vma.Layout

/-! The search for a free area.

`find_free_area` goes once through the areas and moves its candidate behind each one that is in the
way. `Free` says which addresses would do, and `Answers` that the lowest of them was found.
`findFreeArea_answers`: it is, in every space that ends a page below the top of the addresses, as
those of the kernel do (`userSpace`). Rounding up is done by another crate, and `AlignsUp` is what
is asked of it. -/
namespace StarryX.Vma
open Mm

/-! ### The search -/

/-- What `align_up` is to do where it does not go past the top of the addresses. -/
def AlignsUp (alignUp : Nat → PageSize → Nat) : Prop := ∀ address pageSize, address + pageSize.bytes ≤ 2 ^ 64 →
  IsLeast {a | a % pageSize.bytes = 0 ∧ address ≤ a} (alignUp address pageSize)

section Program
variable (alignUp : Nat → PageSize → Nat)

/-- What is left to check behind the last area. -/
def lastCandidate (candidate size stop : Nat) : Option Nat :=
  if candidate + size < 2 ^ 64 ∧ candidate + size ≤ stop then some candidate else none

/-- The loop over the areas, up to the end of the search. -/
def findFreeLoop (size stop : Nat) (pageSize : PageSize) : (candidate : Nat) → List VmArea → Option Nat
  | candidate, [] => lastCandidate candidate size stop
  | candidate, area :: rest =>
    if area.range.stop ≤ candidate then findFreeLoop size stop pageSize candidate rest
    else if stop ≤ area.range.start then lastCandidate candidate size stop
    else if candidate + size < 2 ^ 64 ∧ candidate + size ≤ area.range.start ∧ candidate + size ≤ stop then
      some candidate
    else findFreeLoop size stop pageSize (alignUp area.range.stop pageSize) rest

def findFreeArea (range : VirtAddrRange) (areas : AreaMap) (hint size : Nat) (limit : VirtAddrRange)
    (pageSize : PageSize) : Option Nat :=
  if size = 0 ∨ size % pageSize.bytes ≠ 0 then none
  else
    let searchStart := max limit.start range.start
    let searchEnd := min limit.stop range.stop
    if searchEnd ≤ searchStart then none
    else findFreeLoop alignUp size searchEnd pageSize (alignUp (max hint searchStart) pageSize) (values areas)

end Program

/-! ### What it is to find -/

/-- There is room at the address: it is aligned, not below the hint, and what would be mapped lies
inside the limit and the space and meets no area. -/
structure Free (range : VirtAddrRange) (areas : AreaMap) (hint size : Nat) (limit : VirtAddrRange)
    (pageSize : PageSize) (address : Nat) : Prop where
  aligned : address % pageSize.bytes = 0
  above : hint ≤ address
  limited : limit.start ≤ address ∧ address + size ≤ limit.stop
  inside : range.start ≤ address ∧ address + size ≤ range.stop
  apart : ∀ area ∈ values areas, area.range.stop ≤ address ∨ address + size ≤ area.range.start

/-- The lowest address that will do, or nothing if none does. -/
def Answers (free : Nat → Prop) : Option Nat → Prop
  | some address => IsLeast {a | free a} address
  | none => ∀ address, ¬ free address

theorem answers_congr {free free' : Nat → Prop} (h : ∀ a, free a ↔ free' a) (answer : Option Nat) :
    Answers free answer ↔ Answers free' answer := by
  rw [funext fun a => propext (h a)]

section Search
variable {alignUp : Nat → PageSize → Nat} {ps : PageSize} {size stop cand addr : Nat} {rest l : List VmArea} {area : VmArea}

/-- An aligned address leaves room for a page below the top. -/
theorem aligned_room (ha : cand % ps.bytes = 0) (h : cand < 2 ^ 64) : cand + ps.bytes ≤ 2 ^ 64 := by
  obtain ⟨n, hn⟩ : ps.bytes ∣ 2 ^ 64 := Nat.pow_dvd_pow 2 (by have := ps.level_le; omega)
  obtain ⟨k, rfl⟩ := Nat.dvd_of_mod_eq_zero ha
  rw [hn] at h ⊢
  have hlt : k < n := Nat.lt_of_mul_lt_mul_left h
  calc ps.bytes * k + ps.bytes = ps.bytes * (k + 1) := (Nat.mul_succ _ _).symm
    _ ≤ ps.bytes * n := Nat.mul_le_mul_left _ hlt

theorem AlignsUp.le_iff (hup : AlignsUp alignUp) (h : addr + ps.bytes ≤ 2 ^ 64) {a : Nat} (ha : a % ps.bytes = 0) :
    alignUp addr ps ≤ a ↔ addr ≤ a :=
  ⟨fun hle => (hup addr ps h).1.2.trans hle, fun hle => (hup addr ps h).2 ⟨ha, hle⟩⟩

/-! ### The loop -/

/-- What the loop looks for among the areas that are left. -/
structure Gap (size stop : Nat) (pageSize : PageSize) (candidate : Nat) (l : List VmArea) (address : Nat) : Prop where
  aligned : address % pageSize.bytes = 0
  above : candidate ≤ address
  below : address + size ≤ stop
  apart : ∀ area ∈ l, area.range.stop ≤ address ∨ address + size ≤ area.range.start

theorem answers_lastCandidate (hsp : stop < 2 ^ 64) (hal : cand % ps.bytes = 0)
    (hl : ∀ area ∈ l, stop ≤ area.range.start) :
    Answers (Gap size stop ps cand l) (lastCandidate cand size stop) := by
  unfold lastCandidate
  split_ifs with hfit
  · exact ⟨⟨hal, le_rfl, hfit.2, fun area har => .inr (hfit.2.trans (hl area har))⟩, fun _ ha => ha.above⟩
  · intro a ha
    have hab := ha.above
    have hlo := ha.below
    omega

/-- An area below the candidate is not in the way. -/
theorem gap_skip (h : area.range.stop ≤ cand) (a : Nat) :
    Gap size stop ps cand (area :: rest) a ↔ Gap size stop ps cand rest a := by
  refine ⟨fun ha => ⟨ha.aligned, ha.above, ha.below, (List.forall_mem_cons.mp ha.apart).2⟩, fun ha => ?_⟩
  exact ⟨ha.aligned, ha.above, ha.below, List.forall_mem_cons.mpr ⟨.inl (h.trans ha.above), ha.apart⟩⟩

/-- Room before an area would have been taken, so what is left is behind it. -/
theorem gap_advance (hup : AlignsUp alignUp) (hsp : stop < 2 ^ 64) (hbeh : cand < area.range.stop)
    (htk : ¬ (cand + size < 2 ^ 64 ∧ cand + size ≤ area.range.start ∧ cand + size ≤ stop))
    (hrm : area.range.stop + ps.bytes ≤ 2 ^ 64) (a : Nat) :
    Gap size stop ps cand (area :: rest) a ↔ Gap size stop ps (alignUp area.range.stop ps) rest a := by
  constructor
  · intro ha
    have hab := ha.above
    have hlo := ha.below
    obtain ⟨har, hre⟩ := List.forall_mem_cons.mp ha.apart
    have hend : area.range.stop ≤ a := by omega
    exact ⟨ha.aligned, (hup.le_iff hrm ha.aligned).mpr hend, hlo, hre⟩
  · intro ha
    have hend := (hup.le_iff hrm ha.aligned).mp ha.above
    exact ⟨ha.aligned, by omega, ha.below, List.forall_mem_cons.mpr ⟨.inl hend, ha.apart⟩⟩

theorem findFreeLoop_answers (hup : AlignsUp alignUp) {r : VirtAddrRange} (hra : r.stop + ps.bytes ≤ 2 ^ 64)
    (hsp : stop ≤ r.stop) (hl : Tiled r l) : ∀ cand, cand % ps.bytes = 0 →
      Answers (Gap size stop ps cand l) (findFreeLoop alignUp size stop ps cand l) := by
  have hpos : 0 < ps.bytes := Nat.pow_pos (by decide)
  induction l with
  | nil => exact fun cand hal => answers_lastCandidate (by omega) hal fun _ h => absurd h List.not_mem_nil
  | cons area rest ih =>
    intro cand hal
    obtain ⟨hfi, hbeh, htd⟩ := tiled_cons.mp hl
    have hlo := hfi.below
    have hnem := hfi.nonempty
    unfold findFreeLoop
    split
    next hsk =>
      rw [answers_congr (gap_skip hsk)]
      exact ih htd cand hal
    split
    next hpa =>
      refine answers_lastCandidate (by omega) hal fun b hb => ?_
      obtain rfl | hb := List.mem_cons.mp hb
      · exact hpa
      · have := hbeh b hb
        omega
    split
    next htk =>
      refine ⟨⟨hal, le_rfl, htk.2.2, List.forall_mem_cons.mpr ⟨.inr htk.2.1, fun b hb => .inr ?_⟩⟩, fun a ha => ha.above⟩
      have := hbeh b hb
      omega
    next hsk hpa htk =>
      have hend : area.range.stop + ps.bytes ≤ 2 ^ 64 := by omega
      rw [answers_congr (gap_advance hup (by omega) (by omega) htk hend)]
      exact ih htd _ (hup _ ps hend).1.1

end Search

/-- **The search finds the lowest free address**, and none just when there is none. -/
theorem findFreeArea_answers {alignUp : Nat → PageSize → Nat} (hup : AlignsUp alignUp) {range : VirtAddrRange}
    {areas : AreaMap} (h : WellFormed range areas) (hint size : Nat) (limit : VirtAddrRange) (pageSize : PageSize)
    (hrange : range.stop + pageSize.bytes ≤ 2 ^ 64) (hhint : hint < 2 ^ 64 ∧ hint % pageSize.bytes = 0)
    (hsize : 0 < size ∧ size % pageSize.bytes = 0) :
    Answers (Free range areas hint size limit pageSize) (findFreeArea alignUp range areas hint size limit pageSize) := by
  unfold findFreeArea
  rw [if_neg (by omega)]
  dsimp only
  split_ifs with hempty
  · intro a ha
    have hlimited := ha.limited
    have hins := ha.inside
    omega
  · have hst : max hint (max limit.start range.start) + pageSize.bytes ≤ 2 ^ 64 := by
      have := aligned_room hhint.2 hhint.1
      omega
    have hgap : ∀ a, Free range areas hint size limit pageSize a ↔ Gap size (min limit.stop range.stop) pageSize
        (alignUp (max hint (max limit.start range.start)) pageSize) (values areas) a := by
      intro a
      constructor
      · rintro ⟨ha, hab, hlimited, hins, hap⟩
        exact ⟨ha, (hup.le_iff hst ha).mpr (by omega), by omega, hap⟩
      · rintro ⟨ha, hab, hlo, hap⟩
        have := (hup.le_iff hst ha).mp hab
        exact ⟨ha, by omega, by omega, by omega, hap⟩
    rw [answers_congr hgap]
    exact findFreeLoop_answers hup hrange (Nat.min_le_right ..) h.tiled _ (hup _ _ hst).1.1

/-- Every space of the kernel. -/
def userSpace : VirtAddrRange := ⟨0x1000, 0x1000 + 0x3f_ffff_f000, by decide⟩

def roundUp (address : Nat) (pageSize : PageSize) : Nat := (address + (pageSize.bytes - 1)) / pageSize.bytes * pageSize.bytes

theorem roundUp_alignsUp : AlignsUp roundUp := by
  intro address pageSize _
  have hpos : 0 < pageSize.bytes := Nat.pow_pos (by decide)
  have hdiv := Nat.div_add_mod' (address + (pageSize.bytes - 1)) pageSize.bytes
  have hlt := Nat.mod_lt (address + (pageSize.bytes - 1)) hpos
  refine ⟨⟨Nat.mul_mod_left .., by unfold roundUp; omega⟩, ?_⟩
  rintro a ⟨ha, hle⟩
  obtain ⟨k, rfl⟩ := Nat.dvd_of_mod_eq_zero ha
  rw [roundUp, Nat.mul_comm _ pageSize.bytes]
  refine Nat.mul_le_mul_left _ (Nat.lt_succ_iff.mp ((Nat.div_lt_iff_lt_mul hpos).mpr ?_))
  rw [Nat.succ_mul, Nat.mul_comm k]
  omega

def smallArea (range : VirtAddrRange) : VmArea :=
  ⟨range, ⟨true, true, false, true, false, false, false, false⟩, .size4K, ⟨.zero, true⟩⟩

/-- Two areas with a page between them. -/
def twoAreas : AreaMap :=
  .insert (.insert .empty 0x2000 (smallArea ⟨0x2000, 0x4000, by decide⟩)) 0x5000 (smallArea ⟨0x5000, 0x6000, by decide⟩)

theorem twoAreas_wellFormed : WellFormed userSpace twoAreas := by
  refine Tiled.wellFormed (l := [smallArea ⟨0x2000, 0x4000, by decide⟩, smallArea ⟨0x5000, 0x6000, by decide⟩]) ?_ rfl
  refine tiled_cons.mpr ⟨by constructor <;> decide, by simp [smallArea], ?_⟩
  exact tiled_cons.mpr ⟨by constructor <;> decide, fun _ h => absurd h List.not_mem_nil, tiled_nil⟩

/-- The hint lies in the first area, and the page behind it is not enough. -/
theorem findFreeArea_behind :
    findFreeArea roundUp userSpace twoAreas 0x3000 0x2000 ⟨0x1000, 0x9000, by decide⟩ .size4K = some 0x6000 ∧
    Answers (Free userSpace twoAreas 0x3000 0x2000 ⟨0x1000, 0x9000, by decide⟩ .size4K)
      (findFreeArea roundUp userSpace twoAreas 0x3000 0x2000 ⟨0x1000, 0x9000, by decide⟩ .size4K) :=
  ⟨by decide +kernel, findFreeArea_answers roundUp_alignsUp twoAreas_wellFormed _ _ _ _ (by decide) (by decide) (by decide)⟩

end StarryX.Vma
