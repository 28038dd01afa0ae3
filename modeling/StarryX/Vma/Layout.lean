import StarryX.Vma.Area

/-! The areas of an address space.

They are kept in a tree, by their first address. `unmap` and `protect` build the tree anew from the
parts of its areas, and join neighbours afterwards. `lookup` is the function from addresses that a
tree stands for: `lookup_retainOutside`, `lookup_committedAreas` and `lookup_mergedAreaMap` say what
becomes of it, and `WellFormed` what every tree keeps to. -/
namespace StarryX.Vma
open Library Mm
open List (append_cons mem_append mem_cons mem_cons_of_mem mem_cons_self mem_map mem_singleton not_mem_nil
  pairwise_append)
open Option (bind_eq_some_iff map_eq_some_iff)
open VirtAddrRange (contains_iff overlaps_false_iff overlaps_iff)

abbrev AreaMap := SortedMap VmArea

/-! ### Looking up -/

def values (areas : AreaMap) : List VmArea := areas.entries.map Prod.snd

/-- `area_at`: the last area that does not start behind the address. -/
def areaAt (areas : AreaMap) (address : Nat) : Option VmArea :=
  ((areas.entries.filter fun e => e.1 ≤ address).getLast?.map Prod.snd).filter fun area => area.range.contains address

/-- What the area of an address says of it. -/
def lookup (areas : AreaMap) (address : Nat) : Option Location := (areaAt areas address).map fun area => area.locate address

/-- The object that a shared area shows at the address, and the offset in it. -/
def sharedObjectAt (areas : AreaMap) (address : Nat) : Option (Nat × Nat) :=
  (areaAt areas address).bind fun area =>
    if area.backing.isPrivate then none
    else (area.backing.objectAt (address - area.range.start)).map fun found => (found.2, found.1)

/-- The loop of `check_region_access`. Each round moves the start, so `fuel` is at most the size. -/
def checkRegionAccess (areas : AreaMap) (access : MappingFlags) : (fuel start stop : Nat) → Bool
  | 0, _, _ => true
  | fuel + 1, start, stop =>
    if stop ≤ start then true
    else
      match areaAt areas start with
      | none => false
      | some area => area.flags.contains access && checkRegionAccess areas access fuel (min area.range.stop stop) stop

/-! ### Checking a request -/

def VirtAddrRange.fromStartSize (start size : Nat) : VirtAddrRange := ⟨start, start + size, Nat.le_add_right _ _⟩

def validateRange (range : VirtAddrRange) (start size : Nat) (pageSize : PageSize) : Except XError VirtAddrRange :=
  if size = 0 ∨ start % pageSize.bytes ≠ 0 ∨ size % pageSize.bytes ≠ 0 then .error .invalidInput
  else if 2 ^ 64 ≤ start + size then .error .invalidInput
  else if range.containsRange (.fromStartSize start size) then .ok (.fromStartSize start size)
  else .error .invalidInput

def validateNewArea (range : VirtAddrRange) (areas : AreaMap) (start size : Nat) (pageSize : PageSize) :
    Except XError VirtAddrRange := do
  let new ← validateRange range start size pageSize
  if (values areas).any fun area => area.range.overlaps new then .error .alreadyExists else .ok new

/-- A slice between two addresses; `VirtAddrRange::new` wants them in order. -/
def VmArea.slice (area : VmArea) (start stop : Nat) (flags : MappingFlags) : Option VmArea :=
  if h : start ≤ stop then area.checkedSlice ⟨start, stop, h⟩ flags else none

/-- The part of an area before a range. -/
def VmArea.before (area : VmArea) (cut : VirtAddrRange) : Option (List VmArea) :=
  if area.range.start < cut.start then (area.slice area.range.start cut.start area.flags).map fun left => [left]
  else some []

/-- The part of an area behind a range. -/
def VmArea.behind (area : VmArea) (cut : VirtAddrRange) : Option (List VmArea) :=
  if cut.stop < area.range.stop then (area.slice cut.stop area.range.stop area.flags).map fun right => [right]
  else some []

def validateSplitOffsets (areas : AreaMap) (changed : VirtAddrRange) : Except XError Unit :=
  if (values areas).all fun area => !area.range.overlaps changed ||
      ((area.before changed).isSome && (area.behind changed).isSome) then .ok ()
  else .error .invalidInput

/-! ### Building a tree anew -/

/-- `None` is the `debug_assert!`. -/
def insertArea (areas : AreaMap) (area : VmArea) : Option AreaMap :=
  if (areas.get? area.range.start).isNone then some (areas.insert area.range.start area) else none

/-- The parts of all areas in turn; `None` where a slice was expected. -/
def splitAll (split : VmArea → Option (List VmArea)) : List VmArea → Option (List VmArea)
  | [] => some []
  | area :: rest => do
    let parts ← split area
    let more ← splitAll split rest
    some (parts ++ more)

/-- What `retain_outside` keeps of an area. -/
def VmArea.retained (removed : VirtAddrRange) (area : VmArea) : Option (List VmArea) :=
  if area.range.overlaps removed then do
    let left ← area.before removed
    let right ← area.behind removed
    some (left ++ right)
  else some [area]

/-- What `protect` makes of an area. -/
def VmArea.recoloured (changed : VirtAddrRange) (flags : MappingFlags) (area : VmArea) : Option (List VmArea) :=
  if h : area.range.overlaps changed then do
    let left ← area.before changed
    let middle ← area.checkedSlice (area.overlapWith changed h) flags
    let right ← area.behind changed
    some (left ++ middle :: right)
  else some [area]

/-- The loop of `merged_area_map`, with the area that may still grow. -/
def mergeLoop (merged : AreaMap) (current : VmArea) : List VmArea → AreaMap
  | [] => merged.insert current.range.start current
  | area :: rest =>
    if h : current.canMerge area = true then mergeLoop merged (current.fuse area h) rest
    else mergeLoop (merged.insert current.range.start current) area rest

def mergedAreaMap (old : AreaMap) : AreaMap :=
  match values old with
  | [] => .empty
  | area :: rest => mergeLoop .empty area rest

def retainOutside (areas : AreaMap) (removed : VirtAddrRange) : Option AreaMap := do
  let parts ← splitAll (VmArea.retained removed) (values areas)
  let kept ← parts.foldlM insertArea .empty
  some (mergedAreaMap kept)

/-- The tree that `protect` prepares. -/
def committedAreas (areas : AreaMap) (changed : VirtAddrRange) (flags : MappingFlags) : Option AreaMap := do
  let parts ← splitAll (VmArea.recoloured changed flags) (values areas)
  some (mergedAreaMap (parts.foldl (fun areas area => areas.insert area.range.start area) .empty))

/-! ### Well-formed trees -/

/-- What an area keeps to by itself, in a space of some range. -/
structure VmArea.Fine (range : VirtAddrRange) (area : VmArea) : Prop where
  nonempty : area.range.start < area.range.stop
  startAligned : area.range.start % area.pageSize.bytes = 0
  stopAligned : area.range.stop % area.pageSize.bytes = 0
  above : range.start ≤ area.range.start
  below : area.range.stop ≤ range.stop

structure WellFormed (range : VirtAddrRange) (areas : AreaMap) : Prop where
  keyed : ∀ e ∈ areas.entries, e.1 = e.2.range.start
  fine : ∀ e ∈ areas.entries, e.2.Fine range
  disjoint : ∀ e ∈ areas.entries, ∀ e' ∈ areas.entries, e ≠ e' → e.2.range.overlaps e'.2.range = false

/-- Areas one behind the other. -/
structure Tiled (range : VirtAddrRange) (l : List VmArea) : Prop where
  fine : ∀ area ∈ l, area.Fine range
  ordered : l.Pairwise fun a b => a.range.stop ≤ b.range.start

/-- What a list of areas says of an address. -/
def Tells (l : List VmArea) (address : Nat) (location : Location) : Prop :=
  ∃ area ∈ l, area.range.contains address = true ∧ area.locate address = location

variable {addr : Nat} {loc : Location}

theorem tells_nil : ¬ Tells [] addr loc := by
  rintro ⟨area, hmem, -⟩
  cases hmem

variable {area : VmArea}

theorem tells_cons {l : List VmArea} : Tells (area :: l) addr loc ↔
      area.range.contains addr ∧ area.locate addr = loc ∨ Tells l addr loc := by
  constructor
  · rintro ⟨b, hb, htl⟩
    obtain rfl | hb := mem_cons.mp hb
    · exact .inl htl
    · exact .inr ⟨b, hb, htl⟩
  · rintro (htl | ⟨b, hb, htl⟩)
    · exact ⟨area, .head _, htl⟩
    · exact ⟨b, .tail _ hb, htl⟩

theorem tells_append {l l' : List VmArea} :
    Tells (l ++ l') addr loc ↔ Tells l addr loc ∨ Tells l' addr loc := by
  induction l with
  | nil => exact ⟨.inr, fun h => h.resolve_left tells_nil⟩
  | cons area l ih => rw [List.cons_append, tells_cons, tells_cons, ih, or_assoc]

section Tiles
variable {r : VirtAddrRange} {l : List VmArea} {areas : AreaMap} {addr : Nat} {loc : Location}

theorem tiled_nil : Tiled r [] := ⟨fun _ h => absurd h not_mem_nil, .nil⟩

theorem tiled_cons :
    Tiled r (area :: l) ↔ area.Fine r ∧ (∀ b ∈ l, area.range.stop ≤ b.range.start) ∧ Tiled r l := by
  constructor
  · intro h
    obtain ⟨hfst, hrs⟩ := List.pairwise_cons.mp h.ordered
    exact ⟨h.fine area (.head _), hfst, fun b hb => h.fine b (.tail _ hb), hrs⟩
  · rintro ⟨hf, hfst, hrs⟩
    refine ⟨fun b hb => ?_, List.pairwise_cons.mpr ⟨hfst, hrs.ordered⟩⟩
    obtain rfl | hb := mem_cons.mp hb
    · exact hf
    · exact hrs.fine b hb

theorem WellFormed.tiled (h : WellFormed r areas) : Tiled r (values areas) := by
  refine ⟨fun area har => ?_, ?_⟩
  · obtain ⟨e, he, rfl⟩ := mem_map.mp har
    exact h.fine e he
  · refine List.pairwise_map.mpr (areas.sorted.imp_of_mem fun {a b} ha hb hlt => ?_)
    have hne : a ≠ b := fun hab => absurd (hab ▸ hlt) (Nat.lt_irrefl _)
    have hap := overlaps_false_iff.mp (h.disjoint a ha b hb hne)
    rw [h.keyed a ha, h.keyed b hb] at hlt
    have := (h.fine b hb).nonempty
    omega

/-- The tree of a list of areas. -/
def IsTree (l : List VmArea) (areas : AreaMap) : Prop :=
  areas.entries = l.map fun area => (area.range.start, area)

theorem IsTree.values_eq (h : IsTree l areas) : values areas = l := by
  unfold values
  rw [h, List.map_map]
  exact List.map_id' l

theorem Tiled.wellFormed (h : Tiled r l) (htr : IsTree l areas) : WellFormed r areas := by
  have hent : ∀ e ∈ areas.entries, e.2 ∈ l ∧ e.1 = e.2.range.start := by
    intro e he
    rw [htr] at he
    obtain ⟨area, har, rfl⟩ := mem_map.mp he
    exact ⟨har, rfl⟩
  refine ⟨fun e he => (hent e he).2, fun e he => h.fine _ (hent e he).1, fun e he e' he' hne => ?_⟩
  have hsy : Std.Symm fun a b : VmArea => a.range.overlaps b.range = false := by
    refine ⟨fun a b hab => ?_⟩
    rw [overlaps_false_iff] at hab ⊢
    exact hab.symm
  have hap : l.Pairwise fun a b => a.range.overlaps b.range = false := by
    refine h.ordered.imp fun {a b} hab => overlaps_false_iff.mpr (.inr hab)
  refine hap.forall (hent e he).1 (hent e' he').1 fun hsm => hne ?_
  exact Prod.ext ((hent e he).2.trans (by rw [hsm, (hent e' he').2])) hsm

/-- `area_at` finds the area that contains the address. -/
theorem areaAt_eq_some (h : WellFormed r areas) :
    areaAt areas addr = some area ↔ area ∈ values areas ∧ area.range.contains addr := by
  unfold areaAt
  rw [Option.filter_eq_some_iff]
  refine and_congr_left fun hco => ?_
  obtain ⟨hlow, hhi⟩ := contains_iff.mp hco
  constructor
  · intro hla
    obtain ⟨e, he, rfl⟩ := map_eq_some_iff.mp hla
    exact mem_map.mpr ⟨e, (List.mem_filter.mp (List.mem_of_getLast? he)).1, rfl⟩
  · intro har
    obtain ⟨e, he, rfl⟩ := mem_map.mp har
    have hkey := h.keyed e he
    have hfd : e ∈ areas.entries.filter fun e => e.1 ≤ addr :=
      List.mem_filter.mpr ⟨he, decide_eq_true (by omega)⟩
    obtain ⟨last, hla⟩ : ∃ last, (areas.entries.filter fun e => e.1 ≤ addr).getLast? = some last :=
      Option.isSome_iff_exists.mp (List.getLast?_isSome.mpr (List.ne_nil_of_mem hfd))
    obtain ⟨hmem, hle⟩ := List.mem_filter.mp (List.mem_of_getLast? hla)
    have hkey' := h.keyed last hmem
    rw [hla]
    -- a later area that starts before the address would overlap this one
    by_contra hne
    have hne : e ≠ last := fun hsm => hne (hsm ▸ rfl)
    have hap := overlaps_false_iff.mp (h.disjoint e he last hmem hne)
    have hbef : e.1 < last.1 := by
      obtain ⟨init, hin⟩ := List.getLast?_eq_some_iff.mp hla
      have hso := areas.sorted.filter fun e => decide (e.1 ≤ addr)
      rw [hin] at hfd hso
      obtain hin | hsm := mem_append.mp hfd
      · exact (pairwise_append.mp hso).2.2 e hin last (.head _)
      · exact absurd (mem_singleton.mp hsm) hne
    have hnem := (h.fine last hmem).nonempty
    have hle := of_decide_eq_true hle
    omega

theorem lookup_eq_some (h : WellFormed r areas) :
    lookup areas addr = some loc ↔ Tells (values areas) addr loc := by
  unfold lookup
  rw [map_eq_some_iff]
  refine exists_congr fun area => ?_
  rw [areaAt_eq_some h, and_assoc]

/-! ### Inserting in order -/

theorem insertEntry_last {α : Type} {k : Nat} {v : α} {l : List (Nat × α)} (h : ∀ e ∈ l, e.1 < k) :
    SortedMap.insertEntry k v l = l ++ [(k, v)] := by
  induction l with
  | nil => rfl
  | cons e rest ih =>
    have hlt := h e (.head _)
    unfold SortedMap.insertEntry
    rw [if_neg (by omega), if_neg (by omega), ih fun e he => h e (.tail _ he)]
    rfl

theorem IsTree.insert (h : IsTree l areas) (hla : ∀ b ∈ l, b.range.start < area.range.start) :
    IsTree (l ++ [area]) (areas.insert area.range.start area) := by
  show SortedMap.insertEntry _ _ areas.entries = _
  rw [h, insertEntry_last, List.map_append]
  · rfl
  · intro e he
    obtain ⟨b, hb, rfl⟩ := mem_map.mp he
    exact hla b hb

theorem IsTree.insertArea (h : IsTree l areas) (hla : ∀ b ∈ l, b.range.start < area.range.start) :
    insertArea areas area = some (areas.insert area.range.start area) := by
  unfold Vma.insertArea
  rw [if_pos]
  rw [Option.isNone_iff_eq_none, SortedMap.get?_eq_none]
  intro v hv
  rw [h] at hv
  obtain ⟨b, hb, heq⟩ := mem_map.mp hv
  have := hla b hb
  have := congrArg Prod.fst heq
  omega

/-- An address lies in one area. -/
theorem Tiled.unique (h : Tiled r l) {a b : VmArea} (ha : a ∈ l) (hb : b ∈ l)
    (hin : a.range.contains addr) (hin' : b.range.contains addr) : a = b := by
  have hin := contains_iff.mp hin
  have hin' := contains_iff.mp hin'
  by_contra hne
  have hap : l.Pairwise fun a b : VmArea => a.range.stop ≤ b.range.start ∨ b.range.stop ≤ a.range.start :=
    h.ordered.imp .inl
  have : Std.Symm fun a b : VmArea => a.range.stop ≤ b.range.start ∨ b.range.stop ≤ a.range.start :=
    ⟨fun _ _ h => h.symm⟩
  rcases hap.forall ha hb hne with hle | hle <;> omega

theorem Tiled.starts_lt {rest : List VmArea} (h : Tiled r (l ++ area :: rest)) :
    ∀ b ∈ l, b.range.start < area.range.start := by
  intro b hb
  have hbef := (pairwise_append.mp h.ordered).2.2 b hb area (.head _)
  have := (h.fine b (List.mem_append_left _ hb)).nonempty
  omega

variable {parts : List VmArea}

theorem isTree_foldl (htr : IsTree l areas) (h : Tiled r (l ++ parts)) :
    IsTree (l ++ parts) (parts.foldl (fun areas area => areas.insert area.range.start area) areas) := by
  induction parts generalizing l areas with
  | nil => rwa [List.append_nil]
  | cons area rest ih =>
    rw [append_cons] at h ⊢
    refine ih (htr.insert ?_) h
    rw [← append_cons] at h
    exact h.starts_lt

theorem foldlM_insertArea (htr : IsTree l areas) (h : Tiled r (l ++ parts)) :
    parts.foldlM insertArea areas =
      some (parts.foldl (fun areas area => areas.insert area.range.start area) areas) := by
  induction parts generalizing l areas with
  | nil => rfl
  | cons area rest ih =>
    have hla := h.starts_lt
    rw [append_cons] at h
    rw [List.foldlM_cons, htr.insertArea hla]
    exact ih (htr.insert hla) h

/-! ### Merging -/

/-- The areas that `merged_area_map` ends with. -/
def fuseAll (current : VmArea) : List VmArea → List VmArea
  | [] => [current]
  | area :: rest => if h : current.canMerge area = true then fuseAll (current.fuse area h) rest else current :: fuseAll area rest

/-- A fused area is as fine as its parts. -/
theorem VmArea.Fine.fuse {left right : VmArea} (hle : left.Fine r) (hr : right.Fine r)
    (h : left.canMerge right) : (left.fuse right h).Fine r := by
  obtain ⟨hme, -, hz, -⟩ := VmArea.canMerge_eq h
  have hlf := hle.nonempty
  have hri := hr.nonempty
  refine ⟨?_, hle.startAligned, ?_, hle.above, hr.below⟩
  · show left.range.start < right.range.stop
    omega
  · show right.range.stop % left.pageSize.bytes = 0
    rw [hz]
    exact hr.stopAligned

variable {cur : VmArea}

theorem fuseAll_tiled (h : Tiled r (cur :: l)) :
    Tiled r (fuseAll cur l) ∧ ∀ b ∈ fuseAll cur l, cur.range.start ≤ b.range.start := by
  induction l generalizing cur with
  | nil =>
    refine ⟨h, fun b hb => ?_⟩
    rw [mem_singleton.mp hb]
  | cons area rest ih =>
    obtain ⟨hcur, hfst, hrs⟩ := tiled_cons.mp h
    obtain ⟨har, hbeh, hta⟩ := tiled_cons.mp hrs
    unfold fuseAll
    split_ifs with hmg
    · exact ih (tiled_cons.mpr ⟨hcur.fuse har hmg, hbeh, hta⟩)
    · obtain ⟨hfu, hst⟩ := ih hrs
      have hme := hfst area (.head _)
      refine ⟨tiled_cons.mpr ⟨hcur, fun b hb => hme.trans (hst b hb), hfu⟩, fun b hb => ?_⟩
      obtain rfl | hb := mem_cons.mp hb
      · exact le_rfl
      · have := hst b hb
        have := hcur.nonempty
        omega

/-- Fusing keeps what is said of every address. -/
theorem fuseAll_tells (h : Tiled r (cur :: l)) :
    Tells (fuseAll cur l) addr loc ↔ Tells (cur :: l) addr loc := by
  induction l generalizing cur with
  | nil => exact .rfl
  | cons area rest ih =>
    obtain ⟨hcur, hfst, hrs⟩ := tiled_cons.mp h
    obtain ⟨har, hbeh, hta⟩ := tiled_cons.mp hrs
    unfold fuseAll
    split_ifs with hmg
    · rw [ih (tiled_cons.mpr ⟨hcur.fuse har hmg, hbeh, hta⟩), tells_cons, tells_cons, tells_cons, ← or_assoc]
      refine or_congr_left ?_
      have hme := (VmArea.canMerge_eq hmg).1
      have hle := hcur.nonempty
      have hr := har.nonempty
      rw [VmArea.fuse_locate, contains_iff, contains_iff, contains_iff]
      show (cur.range.start ≤ addr ∧ addr < area.range.stop) ∧ _ ↔ _
      split
      · constructor
        · exact fun ⟨hin, htl⟩ => .inl ⟨by omega, htl⟩
        · rintro (⟨hin, htl⟩ | ⟨hin, htl⟩)
          · exact ⟨by omega, htl⟩
          · omega
      · constructor
        · exact fun ⟨hin, htl⟩ => .inr ⟨by omega, htl⟩
        · rintro (⟨hin, htl⟩ | ⟨hin, htl⟩)
          · omega
          · exact ⟨by omega, htl⟩
    · rw [tells_cons, ih hrs, ← tells_cons]

theorem mergeLoop_isTree {done : List VmArea} (htr : IsTree done areas) (h : Tiled r (done ++ cur :: l)) :
    IsTree (done ++ fuseAll cur l) (mergeLoop areas cur l) := by
  induction l generalizing cur done areas with
  | nil => exact htr.insert h.starts_lt
  | cons area rest ih =>
    unfold mergeLoop fuseAll
    split_ifs with hmg
    · refine ih htr ?_
      obtain ⟨hdo, hta, hac⟩ := pairwise_append.mp h.ordered
      have hco : Tiled r (cur :: area :: rest) :=
        ⟨fun b hb => h.fine b (List.mem_append_right _ hb), hta⟩
      obtain ⟨hcur, hfst, hrs⟩ := tiled_cons.mp hco
      obtain ⟨har, hbeh, hta⟩ := tiled_cons.mp hrs
      have hfu : Tiled r (cur.fuse area hmg :: rest) :=
        tiled_cons.mpr ⟨hcur.fuse har hmg, hbeh, hta⟩
      refine ⟨fun b hb => ?_, pairwise_append.mpr ⟨hdo, hfu.ordered, fun a ha b hb => ?_⟩⟩
      · obtain hb | hb := mem_append.mp hb
        · exact h.fine b (List.mem_append_left _ hb)
        · exact hfu.fine b hb
      · obtain rfl | hb := mem_cons.mp hb
        · exact hac a ha cur (.head _)
        · exact hac a ha b (.tail _ (mem_cons_of_mem _ hb))
    · rw [append_cons done cur (fuseAll area rest)]
      refine ih (htr.insert h.starts_lt) ?_
      rwa [← append_cons]

/-- What `merged_area_map` makes of the areas one behind the other. -/
def fused : List VmArea → List VmArea
  | [] => []
  | area :: rest => fuseAll area rest

theorem isTree_empty : IsTree [] .empty := rfl

theorem mergedAreaMap_isTree (h : Tiled r (values areas)) : IsTree (fused (values areas)) (mergedAreaMap areas) := by
  unfold mergedAreaMap
  cases hvalues : values areas with
  | nil => exact isTree_empty
  | cons area rest =>
    rw [hvalues] at h
    exact mergeLoop_isTree isTree_empty h

theorem fused_tiled (h : Tiled r l) : Tiled r (fused l) := by
  cases l with
  | nil => exact h
  | cons area rest => exact (fuseAll_tiled h).1

theorem fused_tells (h : Tiled r l) : Tells (fused l) addr loc ↔ Tells l addr loc := by
  cases l with
  | nil => exact .rfl
  | cons area rest => exact fuseAll_tells h

theorem WellFormed.merged (h : WellFormed r areas) : WellFormed r (mergedAreaMap areas) :=
  (fused_tiled h.tiled).wellFormed (mergedAreaMap_isTree h.tiled)

/-- **Merging** keeps what is said of every address. -/
theorem lookup_mergedAreaMap (h : WellFormed r areas) (addr : Nat) :
    lookup (mergedAreaMap areas) addr = lookup areas addr := by
  ext loc
  rw [lookup_eq_some h.merged, lookup_eq_some h, (mergedAreaMap_isTree h.tiled).values_eq]
  exact fused_tells h.tiled

/-! ### Cutting -/

variable {flags : MappingFlags} {part : VmArea}

/-- A slice is as fine as the area. -/
theorem VmArea.Fine.checkedSlice {cut : VirtAddrRange} (hf : area.Fine r)
    (h : area.checkedSlice cut flags = some part) (hso : cut.start < cut.stop) :
    part.Fine r ∧ part.range = cut := by
  obtain ⟨hlow, hhi, hst, hz, hrg, -, hpa, -⟩ := VmArea.checkedSlice_eq h
  have hsp : cut.stop % area.pageSize.bytes = 0 := by
    have hsum : cut.stop = cut.start + cut.size := by
      unfold VirtAddrRange.size
      omega
    rw [hsum, Nat.add_mod, hst, hz]
    exact Nat.zero_mod _
  have hab := hf.above
  have hbe := hf.below
  refine ⟨⟨?_, ?_, ?_, ?_, ?_⟩, hrg⟩
  all_goals rw [hrg]
  · exact hso
  · rwa [hpa]
  · rwa [hpa]
  · omega
  · omega

/-- Parts of an area: what they are, and what they say. -/
structure VmArea.Cut (range : VirtAddrRange) (area : VmArea) (start stop : Nat) (flags : MappingFlags)
    (parts : List VmArea) : Prop where
  tiled : Tiled range parts
  inside : ∀ b ∈ parts, start ≤ b.range.start ∧ b.range.stop ≤ stop
  tells : ∀ address location, Tells parts address location ↔
    (start ≤ address ∧ address < stop) ∧ {area.locate address with flags := flags} = location

theorem VmArea.Fine.cut {cut : VirtAddrRange} (hf : area.Fine r)
    (h : area.checkedSlice cut flags = some part) (hso : cut.start < cut.stop) :
    area.Cut r cut.start cut.stop flags [part] := by
  obtain ⟨hpt, hrg⟩ := hf.checkedSlice h hso
  refine ⟨tiled_cons.mpr ⟨hpt, fun _ hb => absurd hb not_mem_nil, tiled_nil⟩, fun b hb => ?_,
    fun addr loc => ?_⟩
  · rw [mem_singleton.mp hb, hrg]
    exact ⟨le_rfl, le_rfl⟩
  · rw [tells_cons, or_iff_left tells_nil, contains_iff, hrg]
    exact and_congr_right fun hin => by rw [VmArea.checkedSlice_locate h hin.1]

theorem VmArea.cut_nil {start stop : Nat} (h : stop ≤ start) : area.Cut r start stop flags [] :=
  ⟨tiled_nil, fun _ hb => absurd hb not_mem_nil, fun _ _ => ⟨fun h => absurd h tells_nil, by omega⟩⟩

theorem VmArea.Fine.slice {start stop : Nat} (hf : area.Fine r)
    (h : ((area.slice start stop area.flags).map fun part => [part]) = some parts) (hso : start < stop) :
    area.Cut r start stop area.flags parts := by
  obtain ⟨part, hpt, rfl⟩ := map_eq_some_iff.mp h
  unfold VmArea.slice at hpt
  rw [dif_pos hso.le] at hpt
  exact hf.cut hpt hso

theorem VmArea.Fine.before {cut : VirtAddrRange} (hf : area.Fine r) (h : area.before cut = some parts) :
    area.Cut r area.range.start cut.start area.flags parts := by
  unfold VmArea.before at h
  split_ifs at h with hlt
  · exact hf.slice h hlt
  · cases h
    exact VmArea.cut_nil (by omega)

theorem VmArea.Fine.behind {cut : VirtAddrRange} (hf : area.Fine r) (h : area.behind cut = some parts) :
    area.Cut r cut.stop area.range.stop area.flags parts := by
  unfold VmArea.behind at h
  split_ifs at h with hlt
  · exact hf.slice h hlt
  · cases h
    exact VmArea.cut_nil (by omega)

theorem Tiled.append {l' : List VmArea} (h : Tiled r l) (h' : Tiled r l')
    (hac : ∀ a ∈ l, ∀ b ∈ l', a.range.stop ≤ b.range.start) : Tiled r (l ++ l') := by
  refine ⟨fun b hb => ?_, pairwise_append.mpr ⟨h.ordered, h'.ordered, hac⟩⟩
  obtain hb | hb := mem_append.mp hb
  · exact h.fine b hb
  · exact h'.fine b hb

/-- The parts of an area stay in it. -/
structure VmArea.Parts (range : VirtAddrRange) (area : VmArea) (parts : List VmArea) : Prop where
  tiled : Tiled range parts
  inside : ∀ b ∈ parts, area.range.start ≤ b.range.start ∧ b.range.stop ≤ area.range.stop

theorem VmArea.parts_self (hf : area.Fine r) : area.Parts r [area] := by
  refine ⟨tiled_cons.mpr ⟨hf, fun _ hb => absurd hb not_mem_nil, tiled_nil⟩, fun b hb => ?_⟩
  rw [mem_singleton.mp hb]
  exact ⟨le_rfl, le_rfl⟩

variable {removed : VirtAddrRange}

/-- `retain_outside` keeps of an area what the removed range leaves. -/
theorem VmArea.Fine.retained (hf : area.Fine r) (h : area.retained removed = some parts) :
    area.Parts r parts ∧ ∀ addr loc, Tells parts addr loc ↔
      (area.range.contains addr ∧ area.locate addr = loc) ∧ removed.contains addr = false := by
  unfold VmArea.retained at h
  split_ifs at h with hov
  · obtain ⟨hlow, hhi⟩ := overlaps_iff.mp hov
    obtain ⟨left, hlf, h⟩ := bind_eq_some_iff.mp h
    obtain ⟨right, hr, h⟩ := bind_eq_some_iff.mp h
    cases h
    have hlf := hf.before hlf
    have hr := hf.behind hr
    have hle := removed.le
    refine ⟨⟨hlf.tiled.append hr.tiled fun a ha b hb => ?_, fun b hb => ?_⟩, fun addr loc => ?_⟩
    · have := hlf.inside a ha
      have := hr.inside b hb
      omega
    · obtain hb | hb := mem_append.mp hb
      · have := hlf.inside b hb
        omega
      · have := hr.inside b hb
        omega
    · have hsm : ({area.locate addr with flags := area.flags}) = area.locate addr := rfl
      rw [tells_append, hlf.tells, hr.tells, ← or_and_right, and_right_comm, ← Bool.not_eq_true,
        contains_iff, contains_iff]
      exact and_congr_left fun _ => by omega
  · cases h
    have hap := overlaps_false_iff.mp (Bool.not_eq_true _ ▸ hov)
    refine ⟨VmArea.parts_self hf, fun addr loc => ?_⟩
    rw [tells_cons, or_iff_left tells_nil]
    refine ⟨fun htl => ⟨htl, ?_⟩, fun htl => htl.1⟩
    have hin := contains_iff.mp htl.1
    rw [← Bool.not_eq_true, contains_iff]
    omega

/-- What `protect` says of an address. -/
def Location.recoloured (changed : VirtAddrRange) (flags : MappingFlags) (address : Nat) (location : Location) :
    Location :=
  if changed.contains address then {location with flags := flags} else location

variable {changed : VirtAddrRange}

theorem VmArea.Fine.recoloured (hf : area.Fine r) (hchg : changed.start < changed.stop)
    (h : area.recoloured changed flags = some parts) :
    area.Parts r parts ∧ ∀ addr loc, Tells parts addr loc ↔ area.range.contains addr ∧
        (area.locate addr).recoloured changed flags addr = loc := by
  unfold VmArea.recoloured at h
  split_ifs at h with hov
  · obtain ⟨hlow, hhi⟩ := overlaps_iff.mp hov
    obtain ⟨left, hle, h⟩ := bind_eq_some_iff.mp h
    obtain ⟨middle, hmid, h⟩ := bind_eq_some_iff.mp h
    obtain ⟨right, hr, h⟩ := bind_eq_some_iff.mp h
    cases h
    have hnem := hf.nonempty
    have hle := hf.before hle
    have hr := hf.behind hr
    have hmid := hf.cut hmid (by show max _ _ < min _ _; omega)
    have hst : (area.overlapWith changed hov).start = max area.range.start changed.start := rfl
    have hsp : (area.overlapWith changed hov).stop = min area.range.stop changed.stop := rfl
    have hta : Tiled r (middle :: right) := hmid.tiled.append hr.tiled fun a ha b hb => by
      have := hmid.inside a ha
      have := hr.inside b hb
      omega
    have hac : ∀ a ∈ left, ∀ b ∈ middle :: right, a.range.stop ≤ b.range.start := by
      intro a ha b hb
      have := hle.inside a ha
      obtain rfl | hb := mem_cons.mp hb
      · have := hmid.inside b (.head _)
        omega
      · have := hr.inside b hb
        omega
    refine ⟨⟨hle.tiled.append hta hac, fun b hb => ?_⟩, fun addr loc => ?_⟩
    · obtain hb | hb := mem_append.mp hb
      · have := hle.inside b hb
        omega
      · obtain rfl | hb := mem_cons.mp hb
        · have := hmid.inside b (.head _)
          omega
        · have := hr.inside b hb
          omega
    · have hsm : ({area.locate addr with flags := area.flags}) = area.locate addr := rfl
      rw [tells_append, show middle :: right = [middle] ++ right from rfl, tells_append, hle.tells, hmid.tells,
        hr.tells, contains_iff]
      unfold Location.recoloured
      by_cases hin : changed.contains addr
      · rw [if_pos hin]
        have := contains_iff.mp hin
        constructor
        · rintro (⟨hin, -⟩ | ⟨hin, htl⟩ | ⟨hin, -⟩)
          · omega
          · exact ⟨by omega, htl⟩
          · omega
        · exact fun ⟨hin, htl⟩ => .inr (.inl ⟨by omega, htl⟩)
      · rw [if_neg hin]
        rw [contains_iff] at hin
        constructor
        · rintro (⟨hin, htl⟩ | ⟨hin, -⟩ | ⟨hin, htl⟩)
          · exact ⟨by omega, htl⟩
          · omega
          · exact ⟨by omega, htl⟩
        · rintro ⟨hin, htl⟩
          by_cases hle : addr < changed.start
          · exact .inl ⟨by omega, htl⟩
          · exact .inr (.inr ⟨by omega, htl⟩)
  · cases h
    have hap := overlaps_false_iff.mp (Bool.not_eq_true _ ▸ hov)
    refine ⟨VmArea.parts_self hf, fun addr loc => ?_⟩
    rw [tells_cons, or_iff_left tells_nil]
    refine and_congr_right fun hin => ?_
    have hin := contains_iff.mp hin
    unfold Location.recoloured
    rw [if_neg]
    rw [contains_iff]
    omega

/-! ### All areas in turn -/

variable {split : VmArea → Option (List VmArea)}

theorem splitAll_mem (h : splitAll split l = some parts) {b : VmArea} :
    b ∈ parts ↔ ∃ area ∈ l, ∃ here, split area = some here ∧ b ∈ here := by
  induction l generalizing parts with
  | nil =>
    cases h
    simp
  | cons area rest ih =>
    obtain ⟨here, hh, h⟩ := bind_eq_some_iff.mp h
    obtain ⟨more, hmo, h⟩ := bind_eq_some_iff.mp h
    cases h
    simp [ih hmo, hh]

theorem splitAll_tiled (h : splitAll split l = some parts) (htd : Tiled r l)
    (hs : ∀ area ∈ l, ∀ here, split area = some here → area.Parts r here) : Tiled r parts := by
  induction l generalizing parts with
  | nil =>
    cases h
    exact tiled_nil
  | cons area rest ih =>
    obtain ⟨here, hh, h⟩ := bind_eq_some_iff.mp h
    obtain ⟨more, hmo, h⟩ := bind_eq_some_iff.mp h
    cases h
    obtain ⟨-, hfst, hrs⟩ := tiled_cons.mp htd
    have hp := hs area (.head _) here hh
    have hs := fun area har => hs area (.tail _ har)
    refine hp.tiled.append (ih hmo hrs hs) fun a ha b hb => ?_
    obtain ⟨area', har', here', hhe', hb⟩ := (splitAll_mem hmo).mp hb
    have := (hp.inside a ha).2
    have := ((hs area' har' here' hhe').inside b hb).1
    have := hfst area' har'
    omega

theorem splitAll_tells (h : splitAll split l = some parts) :
    Tells parts addr loc ↔ ∃ area ∈ l, ∃ here, split area = some here ∧ Tells here addr loc := by
  constructor
  · rintro ⟨b, hb, htl⟩
    obtain ⟨area, har, here, hh, hb⟩ := (splitAll_mem h).mp hb
    exact ⟨area, har, here, hh, b, hb, htl⟩
  · rintro ⟨area, har, here, hh, b, hb, htl⟩
    exact ⟨b, (splitAll_mem h).mpr ⟨area, har, here, hh, hb⟩, htl⟩

/-- The parts are there if each area can be split. -/
theorem splitAll_some (h : ∀ area ∈ l, (split area).isSome) : ∃ parts, splitAll split l = some parts := by
  induction l with
  | nil => exact ⟨[], rfl⟩
  | cons area rest ih =>
    obtain ⟨here, hh⟩ := Option.isSome_iff_exists.mp (h area (.head _))
    obtain ⟨more, hmo⟩ := ih fun area har => h area (.tail _ har)
    refine ⟨here ++ more, ?_⟩
    unfold splitAll
    rw [hh, hmo]
    rfl

theorem splitAll_isSome (h : splitAll split l = some parts) (har : area ∈ l) : ∃ here, split area = some here := by
  induction l generalizing parts with
  | nil => cases har
  | cons first rest ih =>
    obtain ⟨here, hh, h⟩ := bind_eq_some_iff.mp h
    obtain ⟨more, hmo, -⟩ := bind_eq_some_iff.mp h
    obtain rfl | har := mem_cons.mp har
    · exact ⟨here, hh⟩
    · exact ih hmo har

/-- A tree built anew and merged. -/
theorem rebuilt_wellFormed (h : Tiled r parts) :
    WellFormed r (mergedAreaMap (parts.foldl (fun areas area => areas.insert area.range.start area) .empty)) ∧
      ∀ addr loc, lookup
        (mergedAreaMap (parts.foldl (fun areas area => areas.insert area.range.start area) .empty)) addr =
          some loc ↔ Tells parts addr loc := by
  have htr : IsTree ([] ++ parts) _ := isTree_foldl isTree_empty h
  have hfm := h.wellFormed htr
  refine ⟨hfm.merged, fun addr loc => ?_⟩
  rw [lookup_mergedAreaMap hfm, lookup_eq_some hfm, htr.values_eq]
  exact .rfl

/-- **Unmapping** takes the removed addresses out of the tree. -/
theorem retainOutside_wellFormed (h : WellFormed r areas) {kept : AreaMap}
    (hk : retainOutside areas removed = some kept) :
    WellFormed r kept ∧ ∀ addr, lookup kept addr =
      if removed.contains addr then none else lookup areas addr := by
  obtain ⟨parts, hp, hk⟩ := bind_eq_some_iff.mp hk
  obtain ⟨inserted, hit, hk⟩ := bind_eq_some_iff.mp hk
  cases hk
  have hs := fun area har here (hh : area.retained removed = some here) =>
    (h.tiled.fine area har).retained hh
  have htd := splitAll_tiled hp h.tiled fun area har here hh => (hs area har here hh).1
  rw [foldlM_insertArea isTree_empty htd] at hit
  cases hit
  obtain ⟨hfm, htl⟩ := rebuilt_wellFormed htd
  refine ⟨hfm, fun addr => ?_⟩
  ext loc
  rw [htl, splitAll_tells hp]
  constructor
  · rintro ⟨area, har, here, hh, hloc⟩
    obtain ⟨⟨hin, hloc⟩, hout⟩ := ((hs area har here hh).2 addr loc).mp hloc
    rw [hout]
    exact (lookup_eq_some h).mpr ⟨area, har, hin, hloc⟩
  · intro hloc
    cases hout : removed.contains addr with
    | true =>
      rw [hout] at hloc
      cases hloc
    | false =>
      rw [hout] at hloc
      obtain ⟨area, har, hin, hloc⟩ := (lookup_eq_some h).mp hloc
      obtain ⟨here, hh⟩ := splitAll_isSome hp har
      exact ⟨area, har, here, hh, ((hs area har here hh).2 addr loc).mpr ⟨⟨hin, hloc⟩, hout⟩⟩

/-- **Protecting** changes the flags of the addresses of a range. -/
theorem committedAreas_wellFormed (h : WellFormed r areas) (hchg : changed.start < changed.stop)
    {committed : AreaMap} (hcom : committedAreas areas changed flags = some committed) :
    WellFormed r committed ∧ ∀ addr, lookup committed addr =
      (lookup areas addr).map (Location.recoloured changed flags addr) := by
  obtain ⟨parts, hp, hcom⟩ := bind_eq_some_iff.mp hcom
  cases hcom
  have hs := fun area har here (hh : area.recoloured changed flags = some here) =>
    (h.tiled.fine area har).recoloured hchg hh
  have htd := splitAll_tiled hp h.tiled fun area har here hh => (hs area har here hh).1
  obtain ⟨hfm, htl⟩ := rebuilt_wellFormed htd
  refine ⟨hfm, fun addr => ?_⟩
  ext loc
  rw [htl, splitAll_tells hp, map_eq_some_iff]
  constructor
  · rintro ⟨area, har, here, hh, hloc⟩
    obtain ⟨hin, hloc⟩ := ((hs area har here hh).2 addr loc).mp hloc
    exact ⟨_, (lookup_eq_some h).mpr ⟨area, har, hin, rfl⟩, hloc⟩
  · rintro ⟨old, hold, hloc⟩
    obtain ⟨area, har, hin, rfl⟩ := (lookup_eq_some h).mp hold
    obtain ⟨here, hh⟩ := splitAll_isSome hp har
    exact ⟨area, har, here, hh, ((hs area har here hh).2 addr loc).mpr ⟨hin, hloc⟩⟩

end Tiles

end StarryX.Vma
