import StarryX.Library.Radix
import Mathlib.Tactic.Ring

/-! The hardware page table.

A `PageTable64` is a radix tree of tables with 512 entries, whose leaves map 4K pages, or 2M
and 1G pages further up. An `Arch` says how many levels there are and what the entries can
express. Every operation is the source's: the walk of one address, the walk that makes the
tables it misses, and the walk over all leaves of a range.

`leafAt` is the function a page table stands for, and `leaves` a sum over its leaves. The
operations are known by what they do to these two: `map_spec`, `setEntry_spec` and
`walkLeafRange_exact`. -/
namespace StarryX.Mm
open Library Function

structure MappingFlags where
  read : Bool
  write : Bool
  execute : Bool
  user : Bool
  device : Bool
  uncached : Bool
  allocFrame : Bool
  protNone : Bool
  deriving DecidableEq

inductive PagingError where
  | noMemory
  | notAligned
  | notMapped
  | alreadyMapped
  | mappedToHugePage
  deriving DecidableEq

inductive PageSize where
  | size4K
  | size2M
  | size1G
  deriving DecidableEq

namespace PageSize

def level : PageSize → Nat
  | .size4K => 0
  | .size2M => 1
  | .size1G => 2

def ofLevel : Nat → PageSize
  | 0 => .size4K
  | 1 => .size2M
  | _ => .size1G

def bytes (size : PageSize) : Nat := 2 ^ (12 + 9 * size.level)

variable (size : PageSize)

theorem level_le : size.level ≤ 2 := by
  cases size <;> decide

theorem ofLevel_level : ofLevel size.level = size := by
  cases size <;> rfl

theorem level_ofLevel {l : Nat} (h : l ≤ 2) : (ofLevel l).level = l := by
  match l, h with
  | 0, _ => rfl
  | 1, _ => rfl
  | 2, _ => rfl

end PageSize

/-- What differs between the targets: Sv39 has three levels, the other has four. `top` is the
level of the entries of the root table. -/
structure Arch where
  top : Nat
  riscv : Bool
  tall : 2 ≤ top
  narrow : 12 + 9 * (top + 1) < 64

/-- The size of what the tables can map; the upper half belongs to the kernel. -/
def Arch.span (arch : Arch) : Nat := 2 ^ (12 + 9 * (arch.top + 1))

/-- The flags an entry gives back for those it was made with. -/
def Arch.stored (arch : Arch) (flags : MappingFlags) : MappingFlags :=
  if flags.protNone then
    ⟨false, false, false, false, false, false, flags.allocFrame, true⟩
  else if arch.riscv then {flags with device := false, uncached := false}
  else {flags with uncached := flags.uncached && !flags.device}

/-- An entry that maps a page. -/
structure Leaf where
  paddr : Nat
  flags : MappingFlags

/-- `p1_index` to `p4_index`. -/
def digit (vaddr level : Nat) : Fin 512 := ⟨vaddr / 2 ^ (12 + 9 * level) % 512, Nat.mod_lt _ (by decide)⟩

structure PageTable (arch : Arch) where
  root : Fin 512 → Radix 512 2 Leaf arch.top

/-- One call of the visitor of `walk_leaf_range`. -/
structure Visit where
  address : Nat
  leaf : Leaf
  size : PageSize

namespace PageTable
variable {arch : Arch}

/-- `try_new`, once the root table is there. -/
def new : PageTable arch := ⟨fun _ => .empty⟩

def tree (t : PageTable arch) : Radix 512 2 Leaf (arch.top + 1) := .branch t.root

/-- `get_entry`: only a last-level entry may be found unused. -/
def getEntry (t : PageTable arch) (vaddr : Nat) : Except PagingError (Option Leaf × PageSize) :=
  match t.tree.get? (digit vaddr) with
  | some (level, leaf) => .ok (some leaf, .ofLevel level)
  | none =>
    match t.tree.content 0 (digit vaddr) with
    | some _ => .ok (none, .size4K)
    | none => .error .notMapped

/-- Writes the entry of a page. -/
def setEntry (t : PageTable arch) (vaddr : Nat) (size : PageSize) (new : Option Leaf) : PageTable arch :=
  let i := digit vaddr arch.top
  ⟨update t.root i ((t.root i).set size.level size.level_le new (digit vaddr))⟩

def query (t : PageTable arch) (vaddr : Nat) : Except PagingError (Nat × MappingFlags × PageSize) :=
  match t.getEntry vaddr with
  | .ok (some leaf, size) => .ok (leaf.paddr + vaddr % size.bytes, leaf.flags, size)
  | .ok (none, _) => .error .notMapped
  | .error e => .error e

/-- `map`, with `get_entry_mut_or_create`. The tables it made stay when it fails. -/
def map (t : PageTable arch) (memory : Nat → Bool) (asked vaddr target : Nat) (size : PageSize)
    (flags : MappingFlags) : PageTable arch × Nat × Except PagingError Unit :=
  let i := digit vaddr arch.top
  let (child, asked, growth) := Radix.grow memory size.level (digit vaddr) arch.top (t.root i) asked
  let t : PageTable arch := ⟨update t.root i child⟩
  match growth with
  | .starved => (t, asked, .error .noMemory)
  | .blocked leaf => (t, asked, .error (if leaf.paddr = 0 then .notMapped else .mappedToHugePage))
  | .reached false => (t, asked, .error .alreadyMapped)
  | .reached true =>
    (t.setEntry vaddr size (some ⟨target - target % size.bytes, arch.stored flags⟩), asked, .ok ())

def remap (t : PageTable arch) (vaddr paddr : Nat) (flags : MappingFlags) :
    Except PagingError (PageTable arch × PageSize) :=
  match t.getEntry vaddr with
  | .ok (_, size) => .ok (t.setEntry vaddr size (some ⟨paddr, arch.stored flags⟩), size)
  | .error e => .error e

def protect (t : PageTable arch) (vaddr : Nat) (flags : MappingFlags) :
    Except PagingError (PageTable arch × PageSize) :=
  match t.getEntry vaddr with
  | .ok (some leaf, size) => .ok (t.setEntry vaddr size (some {leaf with flags := arch.stored flags}), size)
  | .ok (none, _) => .error .notMapped
  | .error e => .error e

def unmap (t : PageTable arch) (vaddr : Nat) : Except PagingError (PageTable arch × Nat × PageSize) :=
  match t.getEntry vaddr with
  | .ok (some leaf, size) => .ok (t.setEntry vaddr size none, leaf.paddr, size)
  | .ok (none, _) => .error .notMapped
  | .error e => .error e

/-- `canonicalize_vaddr`: the sign bit fills the bits above. -/
def canonicalizeVaddr (arch : Arch) (raw : Nat) : Nat :=
  if raw / (arch.span / 2) % 2 = 0 then raw else raw + (2 ^ 64 - arch.span)

/-- What starts at `raw` and belongs to a level lies outside the range. -/
def outside (arch : Arch) (start stop raw level : Nat) : Bool :=
  let entryStart := canonicalizeVaddr arch raw
  let entryEnd := min (entryStart + 2 ^ (12 + 9 * level)) (2 ^ 64 - 1)
  entryEnd ≤ start || stop ≤ entryStart

/-- `walk_leaf_range_recursive`, from one entry on. -/
def walkEntry (arch : Arch) (start stop : Nat) {d : Nat} (t : Radix 512 2 Leaf d) (raw : Nat) : List Visit :=
  match d, t with
  | _, .empty => []
  | d, .leaf _ leaf =>
    if outside arch start stop raw d then [] else [⟨canonicalizeVaddr arch raw, leaf, .ofLevel d⟩]
  | d + 1, .branch children =>
    if outside arch start stop raw (d + 1) then []
    else (List.finRange 512).flatMap fun i => walkEntry arch start stop (children i) (raw + i * 2 ^ (12 + 9 * d))

/-- `walk_leaf_range`: the leaves it visits, in order. -/
def walkLeafRange (t : PageTable arch) (start size : Nat) : Except PagingError (List Visit) :=
  if size = 0 then .ok []
  else if start + size < 2 ^ 64 then
    .ok ((List.finRange 512).flatMap fun i =>
      walkEntry arch start (start + size) (t.root i) (i * 2 ^ (12 + 9 * arch.top)))
  else .error .notAligned

/-! ### What a page table stands for -/

/-- The leaf that maps an address, and its level. -/
def leafAt (t : PageTable arch) (vaddr : Nat) : Option (Nat × Leaf) := t.tree.get? (digit vaddr)

/-- A weight, added up over the leaves. -/
def leaves (weight : Leaf → Nat) (t : PageTable arch) : Nat := t.tree.total weight

/-- Two addresses belong to one page of a level. -/
def SamePage (level vaddr vaddr' : Nat) : Prop := vaddr' / 2 ^ (12 + 9 * level) = vaddr / 2 ^ (12 + 9 * level)

instance (level vaddr vaddr' : Nat) : Decidable (SamePage level vaddr vaddr') := Nat.decEq _ _

open Nat (add_zero div_eq_of_lt mod_eq_of_lt mul_add_div mul_add_mod pow_add two_pow_pos)

theorem pow_level (lvl : Nat) : 2 ^ (12 + 9 * (lvl + 1)) = 2 ^ (12 + 9 * lvl) * 512 := by
  rw [show 12 + 9 * (lvl + 1) = 12 + 9 * lvl + 9 by ring, pow_add]

theorem div_level (va lvl : Nat) : va / 2 ^ (12 + 9 * lvl) =
    512 * (va / 2 ^ (12 + 9 * (lvl + 1))) + (digit va lvl) := by
  rw [pow_level, ← Nat.div_div_eq_div_mul]
  exact (Nat.div_add_mod _ 512).symm

variable {va vaddr' : Nat}

/-- The digits from a level on tell the pages of that level apart. -/
theorem agree_iff {top : Nat} (hv : va < 2 ^ (12 + 9 * top)) (hv' : vaddr' < 2 ^ (12 + 9 * top)) (j : Nat) :
    ∀ lvl, lvl + j = top →
      (Radix.Agree lvl top (digit va) (digit vaddr') ↔ SamePage lvl va vaddr') := by
  induction j with
  | zero =>
    intro lvl hlv
    obtain rfl : lvl = top := hlv
    refine ⟨fun _ => ?_, fun _ => .self _ _ _⟩
    rw [SamePage, div_eq_of_lt hv, div_eq_of_lt hv']
  | succ j ih =>
    intro lvl hlv
    have hne := ih (lvl + 1) (by omega)
    have hd := div_level va lvl
    have hd' := div_level vaddr' lvl
    constructor
    · intro hall
      have hup : SamePage (lvl + 1) va vaddr' :=
        hne.mp fun k hlow hk => hall k (Nat.le_of_succ_le hlow) hk
      have hdg : digit vaddr' lvl = digit va lvl := hall lvl le_rfl (by omega)
      rw [SamePage, hd, hd', hup, hdg]
    · intro heq
      rw [SamePage] at heq
      have hup : SamePage (lvl + 1) va vaddr' := by
        unfold SamePage
        omega
      have hdg : digit vaddr' lvl = digit va lvl := Fin.ext (by omega)
      intro k hlow hk
      obtain hlt | rfl := Nat.lt_or_eq_of_le hlow
      · exact hne.mpr hup k hlt hk
      · exact hdg

theorem tree_setEntry (t : PageTable arch) (va : Nat) (size : PageSize) (new : Option Leaf) :
    (t.setEntry va size new).tree = t.tree.set size.level size.level_le new (digit va) := by
  have hta := arch.tall
  have hlow := size.level_le
  unfold tree Radix.set
  rw [if_neg (by omega)]
  rfl

variable {size : PageSize} {t t' : PageTable arch} {old : Option Leaf} {e : PagingError} {paddr lvl : Nat}
  (weight : Leaf → Nat) {l : Leaf}

section
variable (h : t.tree.content size.level (digit va) = some old)
include h

/-- What a written entry changes. -/
theorem setEntry_spec (new : Option Leaf) (hv : va < arch.span) :
    (∀ vaddr', vaddr' < arch.span → (t.setEntry va size new).leafAt vaddr' =
      if SamePage size.level va vaddr' then new.map fun l => (size.level, l) else t.leafAt vaddr') ∧
    ∀ weight, leaves weight (t.setEntry va size new) + old.elim 0 weight =
      leaves weight t + new.elim 0 weight := by
  have hta := arch.tall
  have hlow := size.level_le
  constructor
  · intro vaddr' hv'
    unfold leafAt
    rw [tree_setEntry, Radix.get?_set _ _ h]
    exact if_congr (agree_iff hv hv' (arch.top + 1 - size.level) size.level (by omega)) rfl rfl
  · intro weight
    unfold leaves
    rw [tree_setEntry]
    exact Radix.total_set weight _ new h

/-- An entry is seen from all of its page. -/
theorem leafAt_of_content
    (hv : va < arch.span) (hv' : vaddr' < arch.span) (hpg : SamePage size.level va vaddr') :
    t.leafAt vaddr' = old.map fun l => (size.level, l) := by
  have hta := arch.tall
  have hlow := size.level_le
  exact Radix.get?_of_content h
    ((agree_iff hv hv' (arch.top + 1 - size.level) size.level (by omega)).mpr hpg)

end

open Radix (get?_congr get?_depth grow)

theorem content_of_leafAt (h : t.leafAt va = some (lvl, l)) :
    t.tree.content (PageSize.ofLevel lvl).level (digit va) = some (some l) := by
  rw [PageSize.level_ofLevel (get?_depth h).2]
  exact Radix.content_of_get? h

/-! ### The operations on one address -/

open Except (error ok)

theorem getEntry_some :
    t.getEntry va = .ok (some l, size) ↔ t.leafAt va = some (size.level, l) := by
  cases h : t.tree.get? (digit va) with
  | none => cases hc : t.tree.content 0 (digit va) <;> simp [getEntry, leafAt, h, hc]
  | some found =>
    obtain ⟨lvl, leaf'⟩ := found
    have hlow := (get?_depth h).2
    have he : t.getEntry va = .ok (some leaf', .ofLevel lvl) := by simp [getEntry, h]
    have hl : t.leafAt va = some (lvl, leaf') := h
    rw [he, hl]
    constructor
    · intro heq
      obtain ⟨hl, hz⟩ := Prod.mk.inj (ok.inj heq)
      rw [← hz, PageSize.level_ofLevel hlow, Option.some.inj hl]
    · intro heq
      cases heq
      rw [PageSize.ofLevel_level]

theorem getEntry_none (h : ∀ l size, t.getEntry va ≠ .ok (some l, size)) : t.leafAt va = none := by
  cases hfound : t.leafAt va with
  | none => rfl
  | some found =>
    obtain ⟨lvl, l⟩ := found
    have hlow := (get?_depth hfound).2
    refine absurd (getEntry_some.mpr ?_) (h l (.ofLevel lvl))
    rw [hfound, PageSize.level_ofLevel hlow]

theorem query_ok {flags : MappingFlags} (h : t.query va = .ok (paddr, flags, size)) :
    ∃ l, t.leafAt va = some (size.level, l) ∧ paddr = l.paddr + va % size.bytes ∧
      flags = l.flags := by
  unfold query at h
  split at h
  next l size' he =>
    obtain ⟨hp, hrs⟩ := Prod.mk.inj (ok.inj h)
    obtain ⟨hf, rfl⟩ := Prod.mk.inj hrs
    exact ⟨l, getEntry_some.mp he, hp.symm, hf.symm⟩
  · cases h
  · cases h

theorem query_error (h : t.query va = .error e) : t.leafAt va = none := by
  refine getEntry_none fun l size he => ?_
  simp [query, he] at h

theorem unmap_ok (h : t.unmap va = .ok (t', paddr, size)) :
    ∃ l, t.leafAt va = some (size.level, l) ∧ paddr = l.paddr ∧ t' = t.setEntry va size none := by
  unfold unmap at h
  split at h
  next l size' he =>
    obtain ⟨ht, hrs⟩ := Prod.mk.inj (ok.inj h)
    obtain ⟨hp, rfl⟩ := Prod.mk.inj hrs
    exact ⟨l, getEntry_some.mp he, hp.symm, ht.symm⟩
  · cases h
  · cases h

/-- Unmapping fails only where nothing is mapped. -/
theorem unmap_error (h : t.unmap va = .error e) : e = .notMapped := by
  unfold unmap getEntry at h
  split at h
  · cases h
  · exact (error.inj h).symm
  next e' he =>
    split at he
    · cases he
    · split at he
      · cases he
      · rw [← error.inj h, ← error.inj he]

/-! The tables read no more of an address than they can map. -/

theorem digit_mod {n : Nat} (h : lvl < n) : digit (va % 2 ^ (12 + 9 * n)) lvl = digit va lvl := by
  obtain ⟨j, rfl⟩ := Nat.exists_eq_add_of_lt h
  apply Fin.ext
  show va % 2 ^ (12 + 9 * (lvl + j + 1)) / 2 ^ (12 + 9 * lvl) % 512 = va / 2 ^ (12 + 9 * lvl) % 512
  rw [show 12 + 9 * (lvl + j + 1) = (12 + 9 * lvl) + (9 + 9 * j) by ring, pow_add, Nat.mod_mul_right_div_self,
    Nat.pow_add 2 9]
  exact Nat.mod_mul_right_mod _ _ _

theorem leafAt_mod (t : PageTable arch) (va : Nat) : t.leafAt (va % arch.span) = t.leafAt va :=
  get?_congr fun _ => digit_mod

theorem leafAt_new (va : Nat) : (new : PageTable arch).leafAt va = none := rfl

theorem leaves_new : leaves weight (new : PageTable arch) = 0 := by
  simp [leaves, tree, new, Radix.total]

/-- Any digits are those of an address. -/
theorem exists_digits (key : Nat → Fin 512) (n : Nat) : ∃ va, ∀ lvl, lvl < n → digit va lvl = key lvl := by
  induction n with
  | zero => exact ⟨0, fun lvl h => absurd h (Nat.not_lt_zero _)⟩
  | succ n ih =>
    obtain ⟨va, hdi⟩ := ih
    refine ⟨2 ^ (12 + 9 * n) * key n + va % 2 ^ (12 + 9 * n), fun lvl hlv => ?_⟩
    obtain hlv | rfl := Nat.lt_succ_iff_lt_or_eq.mp hlv
    · rw [← digit_mod hlv, mul_add_mod, Nat.mod_mod, digit_mod hlv, hdi lvl hlv]
    · refine Fin.ext (?_ : _ / _ % 512 = _)
      have hpos := two_pow_pos (12 + 9 * lvl)
      rw [mul_add_div hpos, div_eq_of_lt (Nat.mod_lt _ hpos), add_zero, mod_eq_of_lt (key lvl).isLt]

/-- Tables that map the same have the same leaves. -/
theorem leaves_of_leafAt_eq
    (h : ∀ va, va < arch.span → t.leafAt va = t'.leafAt va) : leaves weight t = leaves weight t' := by
  refine Radix.total_of_get?_eq weight (fun _ => 0) fun key => ?_
  obtain ⟨va, hdi⟩ := exists_digits key (arch.top + 1)
  have hkey : ∀ k, k < arch.top + 1 → key k = digit va k := fun k hk => (hdi k hk).symm
  rw [get?_congr hkey, get?_congr hkey]
  show t.leafAt va = t'.leafAt va
  rw [← leafAt_mod t, ← leafAt_mod t']
  exact h _ (Nat.mod_lt _ (two_pow_pos _))

theorem getEntry_mod (t : PageTable arch) (va : Nat) : t.getEntry (va % arch.span) = t.getEntry va := by
  have hkey : ∀ k, k < arch.top + 1 → digit (va % arch.span) k = digit va k := fun _ => digit_mod
  unfold getEntry
  rw [get?_congr hkey, Radix.content_congr hkey]

theorem setEntry_mod (t : PageTable arch) (va : Nat) (size : PageSize) (new : Option Leaf) :
    t.setEntry (va % arch.span) size new = t.setEntry va size new := by
  unfold setEntry
  dsimp only
  rw [Arch.span, digit_mod (Nat.lt_succ_self _),
    Radix.set_congr size.level_le new fun k hk => digit_mod (hk.trans (Nat.lt_succ_self _))]

theorem bytes_dvd_span (arch : Arch) (size : PageSize) : size.bytes ∣ arch.span := by
  have hta := arch.tall
  have hlow := size.level_le
  exact Nat.pow_dvd_pow 2 (by omega)

theorem query_mod (t : PageTable arch) (va : Nat) : t.query (va % arch.span) = t.query va := by
  unfold query
  rw [getEntry_mod]
  cases t.getEntry va with
  | error e => rfl
  | ok found =>
    obtain ⟨l, size⟩ := found
    cases l with
    | none => rfl
    | some l =>
      dsimp only
      rw [Nat.mod_mod_of_dvd _ (bytes_dvd_span arch size)]

theorem remap_mod (t : PageTable arch) (va paddr : Nat) (flags : MappingFlags) :
    t.remap (va % arch.span) paddr flags = t.remap va paddr flags := by
  unfold remap
  simp [getEntry_mod, setEntry_mod]

/-- The tables made on the way change no mapping. -/
theorem grow_spec {mem : Nat → Bool} {asked asked' : Nat} {c : Radix 512 2 Leaf arch.top}
    {growth : Growth Leaf}
    (h : grow mem size.level (digit va) arch.top (t.root (digit va arch.top)) asked =
      (c, asked', growth)) :
    (∀ vaddr', (⟨update t.root (digit va arch.top) c⟩ : PageTable arch).leafAt vaddr' =
      t.leafAt vaddr') ∧
    (∀ weight, leaves weight ⟨update t.root (digit va arch.top) c⟩ = leaves weight t) ∧
    (growth = .reached true →
      (⟨update t.root (digit va arch.top) c⟩ : PageTable arch).tree.content size.level
        (digit va) = some none) := by
  have hta := arch.tall
  have hlow := size.level_le
  have hro : grow mem size.level (digit va) (arch.top + 1) t.tree asked =
      (.branch (update t.root (digit va arch.top) c), asked', growth) := by
    unfold grow
    rw [if_neg (by omega)]
    simp [tree, h]
  have hget := fun key => Radix.get?_grow mem size.level (digit va) key (arch.top + 1) t.tree asked
  have hto := fun weight =>
    Radix.total_grow weight mem size.level (digit va) (arch.top + 1) t.tree asked
  have hco := Radix.content_grow mem size.level (digit va) (arch.top + 1) (by omega) t.tree asked
  rw [hro] at hco
  simp only [hro] at hget hto
  exact ⟨fun vaddr' => hget (digit vaddr'), hto, hco⟩

/-- What `map` leaves: nothing changed for the addresses, or the page is mapped. -/
theorem map_spec (t : PageTable arch) (mem : Nat → Bool) (asked va tgt : Nat) (size : PageSize)
    (flags : MappingFlags) (hv : va < arch.span) :
    match t.map mem asked va tgt size flags with
    | (t', _, .error _) => (∀ vaddr', t'.leafAt vaddr' = t.leafAt vaddr') ∧
        ∀ weight, leaves weight t' = leaves weight t
    | (t', _, .ok _) =>
      (∀ vaddr', vaddr' < arch.span → SamePage size.level va vaddr' → t.leafAt vaddr' = none) ∧
      (∀ vaddr', vaddr' < arch.span → t'.leafAt vaddr' = if SamePage size.level va vaddr' then
          some (size.level, ⟨tgt - tgt % size.bytes, arch.stored flags⟩) else t.leafAt vaddr') ∧
      ∀ weight, leaves weight t' =
        leaves weight t + weight ⟨tgt - tgt % size.bytes, arch.stored flags⟩ := by
  obtain ⟨⟨c, asked', growth⟩, hg⟩ : ∃ g, g =
    grow mem size.level (digit va) arch.top (t.root (digit va arch.top)) asked := ⟨_, rfl⟩
  obtain ⟨hl, hls, hfr⟩ := grow_spec hg.symm
  unfold map
  simp only [← hg]
  cases growth with
  | starved | blocked _ => exact ⟨hl, hls⟩
  | reached free =>
    cases free with
    | false => exact ⟨hl, hls⟩
    | true =>
      have hset := setEntry_spec (hfr rfl) (some ⟨tgt - tgt % size.bytes, arch.stored flags⟩) hv
      refine ⟨fun vaddr' hv' hpg => ?_, fun vaddr' hv' => ?_, fun weight => ?_⟩
      · rw [← hl vaddr']
        exact leafAt_of_content (hfr rfl) hv hv' hpg
      · rw [← hl vaddr']
        exact hset.1 vaddr' hv'
      · rw [← hls weight]
        simpa only [Option.elim_none, Option.elim_some, add_zero] using hset.2 weight

/-! ### The walk over a range -/

theorem span_lt (arch : Arch) : arch.span < 2 ^ 64 := Nat.pow_lt_pow_right (by decide) arch.narrow

/-- The lower half is canonical as it is. -/
theorem canonicalize_low (h : va < arch.span / 2) : canonicalizeVaddr arch va = va := by
  rw [canonicalizeVaddr, if_pos]
  rw [div_eq_of_lt h]

theorem le_canonicalize (va : Nat) : va ≤ canonicalizeVaddr arch va := by
  unfold canonicalizeVaddr
  split <;> omega

/-- The order of the addresses stays. -/
theorem canonicalize_lt (h : va < vaddr') (hv : vaddr' < arch.span) :
    canonicalizeVaddr arch va < canonicalizeVaddr arch vaddr' := by
  have hsn := span_lt arch
  have hsp : arch.span = _ := pow_level _
  have hle : va / (arch.span / 2) ≤ vaddr' / (arch.span / 2) := Nat.div_le_div_right h.le
  have hlt : vaddr' / (arch.span / 2) < 2 := Nat.div_lt_of_lt_mul (by omega)
  unfold canonicalizeVaddr
  generalize va / (arch.span / 2) = a at *
  generalize vaddr' / (arch.span / 2) = b at *
  split <;> split <;> omega

variable {d q : Nat}

/-- An entry is moved as a whole. -/
theorem canonicalize_entry (hd : d ≤ arch.top) (hva : va / 2 ^ (12 + 9 * d) = q) :
    canonicalizeVaddr arch va = canonicalizeVaddr arch (q * 2 ^ (12 + 9 * d)) + va % 2 ^ (12 + 9 * d) := by
  obtain ⟨m, hm⟩ : 2 ^ (12 + 9 * d) ∣ arch.span / 2 := by
    rw [show arch.span = _ from pow_level _, Nat.mul_div_assoc _ (by decide)]
    exact dvd_mul_of_dvd_left (Nat.pow_dvd_pow 2 (by omega)) _
  have hmod := Nat.div_add_mod' va (2 ^ (12 + 9 * d))
  rw [hva] at hmod
  unfold canonicalizeVaddr
  rw [hm, ← Nat.div_div_eq_div_mul, ← Nat.div_div_eq_div_mul, hva, Nat.mul_div_cancel _ (two_pow_pos _)]
  split <;> omega

/-- The entry of a page starts before it. -/
theorem base_le (va : Nat) {lvl : Nat} (h : lvl ≤ d) :
    va / 2 ^ (12 + 9 * d) * 2 ^ (12 + 9 * d) ≤ va / 2 ^ (12 + 9 * lvl) * 2 ^ (12 + 9 * lvl) := by
  obtain ⟨m, hm⟩ : 2 ^ (12 + 9 * lvl) ∣ 2 ^ (12 + 9 * d) := Nat.pow_dvd_pow 2 (by omega)
  rw [hm, ← Nat.div_div_eq_div_mul, Nat.mul_comm (2 ^ (12 + 9 * lvl)), ← Nat.mul_assoc]
  exact Nat.mul_le_mul_right _ (Nat.div_mul_le_self _ _)

theorem child_raw (i : Fin 512) : q * 2 ^ (12 + 9 * (d + 1)) + i * 2 ^ (12 + 9 * d) = (512 * q + i) * 2 ^ (12 + 9 * d) := by
  rw [pow_level]
  ring

theorem div_parent {i : Fin 512} (h : va / 2 ^ (12 + 9 * d) = 512 * q + i) : va / 2 ^ (12 + 9 * (d + 1)) = q := by
  have hdl := div_level va d
  omega

variable {start stop : Nat} {vs : List Visit} {v : Visit}

/-- A visit is of a leaf that has this address in the range. -/
structure Meets (arch : Arch) (start stop : Nat) (v : Visit) (va : Nat) : Prop where
  address : v.address = canonicalizeVaddr arch (va / v.size.bytes * v.size.bytes)
  above : start ≤ canonicalizeVaddr arch va
  below : canonicalizeVaddr arch va < stop

/-- The visits of the leaves that have one of some addresses in the range: each once, in order. -/
structure Exact (arch : Arch) (start stop : Nat) (t : Radix 512 2 Leaf d) (here : Nat → Prop) (vs : List Visit) : Prop where
  sorted : vs.Pairwise (·.address < ·.address)
  mem : ∀ v, v ∈ vs ↔ ∃ va, here va ∧ t.get? (digit va) = some (v.size.level, v.leaf) ∧ Meets arch start stop v va

theorem exact_children {children : Fin 512 → Radix 512 2 Leaf d} {walk : Fin 512 → List Visit}
    {here : Nat → Prop} (hh : ∀ va, here va ↔ va / 2 ^ (12 + 9 * (d + 1)) = q)
    (hsp : ∀ va, here va → va < arch.span)
    (h : ∀ i : Fin 512, Exact arch start stop (children i) (· / 2 ^ (12 + 9 * d) = 512 * q + i) (walk i)) :
    Exact arch start stop (.branch children) here ((List.finRange 512).flatMap walk) := by
  refine ⟨List.pairwise_flatMap.mpr ⟨fun i _ => (h i).sorted, ?_⟩, fun v => ?_⟩
  · refine (List.pairwise_lt_finRange 512).imp fun {i j} hij x hx y hy => ?_
    obtain ⟨va, hva, -, hx⟩ := ((h i).mem x).mp hx
    obtain ⟨vb, hvb, hget, hy⟩ := ((h j).mem y).mp hy
    rw [hx.address, hy.address]
    refine canonicalize_lt ?_ ((Nat.div_mul_le_self _ _).trans_lt (hsp vb ((hh vb).mpr (div_parent hvb))))
    calc va / x.size.bytes * x.size.bytes ≤ va := Nat.div_mul_le_self _ _
      _ < (512 * q + j) * 2 ^ (12 + 9 * d) := (Nat.div_lt_iff_lt_mul (two_pow_pos _)).mp (by omega)
      _ ≤ vb / y.size.bytes * y.size.bytes := hvb ▸ base_le vb (get?_depth hget).1
  · rw [List.mem_flatMap]
    constructor
    · rintro ⟨i, -, hi⟩
      obtain ⟨va, hva, hget, hme⟩ := ((h i).mem v).mp hi
      have hdl := div_level va d
      have hdg : digit va d = i := Fin.ext (by omega)
      refine ⟨va, (hh va).mpr (div_parent hva), ?_, hme⟩
      rw [Radix.get?, hdg]
      exact hget
    · rintro ⟨va, hva, hget, hme⟩
      refine ⟨digit va d, List.mem_finRange _, ((h _).mem v).mpr ⟨va, ?_, hget, hme⟩⟩
      rw [div_level, (hh va).mp hva]

theorem exact_nil {t : Radix 512 2 Leaf d} (hd : d ≤ arch.top) (hst : stop < 2 ^ 64)
    (hout : outside arch start stop (q * 2 ^ (12 + 9 * d)) d = true) :
    Exact arch start stop t (· / 2 ^ (12 + 9 * d) = q) [] := by
  refine ⟨.nil, fun v => ⟨nofun, fun ⟨va, hva, _, hme⟩ => ?_⟩⟩
  have hca := canonicalize_entry hd hva
  have hmod := Nat.mod_lt va (two_pow_pos (12 + 9 * d))
  have hab := hme.above
  have hbe := hme.below
  simp only [outside, Bool.or_eq_true, decide_eq_true_eq] at hout
  omega

theorem walkEntry_exact (hne : start < stop) (hst : stop < 2 ^ 64) (t : Radix 512 2 Leaf d) :
    d ≤ arch.top → ∀ q, (∀ va, va / 2 ^ (12 + 9 * d) = q → va < arch.span) →
      Exact arch start stop t (· / 2 ^ (12 + 9 * d) = q) (walkEntry arch start stop t (q * 2 ^ (12 + 9 * d))) := by
  induction t with
  | empty => exact fun _ _ _ => ⟨.nil, fun v => ⟨nofun, fun ⟨_, _, h, _⟩ => nomatch h⟩⟩
  | leaf low leaf =>
    rename_i d
    intro hd q hsp
    have hz := PageSize.level_ofLevel low
    unfold walkEntry
    split
    next hout => exact exact_nil hd hst hout
    next hin =>
      refine ⟨List.pairwise_singleton _ _, fun v => List.mem_singleton.trans ⟨?_, ?_⟩⟩
      · rintro rfl
        -- The first address of the leaf that is in the range.
        simp only [outside, Bool.or_eq_true, decide_eq_true_eq] at hin
        have hr : start - canonicalizeVaddr arch (q * 2 ^ (12 + 9 * d)) < 2 ^ (12 + 9 * d) := by
          have hpos := two_pow_pos (12 + 9 * d)
          omega
        have hva : (2 ^ (12 + 9 * d) * q + (start - canonicalizeVaddr arch (q * 2 ^ (12 + 9 * d)))) / 2 ^ (12 + 9 * d) = q := by
          rw [mul_add_div (two_pow_pos _), div_eq_of_lt hr, add_zero]
        have hca := canonicalize_entry hd hva
        rw [mul_add_mod, mod_eq_of_lt hr] at hca
        refine ⟨_, hva, ?_, ?_, by omega, by omega⟩
        · rw [hz, Radix.get?]
        · rw [PageSize.bytes, hz, hva]
      · rintro ⟨va, hva, hget, hme⟩
        obtain ⟨hlv, hlf⟩ := Prod.mk.inj (Option.some.inj hget)
        have had : v.address = canonicalizeVaddr arch (q * 2 ^ (12 + 9 * d)) := by
          rw [hme.address, PageSize.bytes, ← hlv, hva]
        rw [← had, hlf, hlv, PageSize.ofLevel_level]
  | branch children ih =>
    rename_i d
    intro hd q hsp
    unfold walkEntry
    split
    next hout => exact exact_nil hd hst hout
    · simp only [child_raw]
      exact exact_children (fun _ => .rfl) hsp fun i => ih i (by omega) _ fun va hva => hsp va (div_parent hva)

theorem walkLeafRange_ok {size : Nat} (h : t.walkLeafRange start size = .ok vs) :
    Exact arch start (start + size) t.tree (· < arch.span) vs := by
  unfold walkLeafRange at h
  split at h
  next hsz =>
    obtain rfl := ok.inj h
    refine ⟨.nil, fun v => ⟨nofun, fun ⟨va, _, _, hme⟩ => ?_⟩⟩
    exact absurd (hme.above.trans_lt hme.below) (by omega)
  · split at h
    next hsz hlt =>
      obtain rfl := ok.inj h
      have hne : start < start + size := by omega
      have hsp := fun va => (Nat.div_eq_zero_iff_lt (two_pow_pos (12 + 9 * (arch.top + 1))) (x := va)).symm
      refine exact_children hsp (fun _ => id) fun i => ?_
      have hex := walkEntry_exact hne hlt (t.root i) le_rfl (512 * 0 + i) fun va hva => (hsp va).mpr (div_parent hva)
      simpa only [Nat.mul_zero, Nat.zero_add] using hex
    · cases h

theorem walkLeafRange_error {size : Nat} (h : t.walkLeafRange start size = .error e) :
    e = .notAligned ∧ 2 ^ 64 ≤ start + size := by
  unfold walkLeafRange at h
  split at h
  · cases h
  · split at h <;> cases h
    exact ⟨rfl, by omega⟩

/-- **The walk is exact**: each leaf of the range once and in order. Only an end that overflows is an error. -/
theorem walkLeafRange_exact (t : PageTable arch) (start size : Nat) :
    match t.walkLeafRange start size with
    | .error e => e = .notAligned ∧ 2 ^ 64 ≤ start + size
    | .ok vs => Exact arch start (start + size) t.tree (· < arch.span) vs := by
  split
  next h => exact walkLeafRange_error h
  next h => exact walkLeafRange_ok h

/-- In the lower half the addresses are those of the pages. -/
theorem mem_walkLeafRange {size : Nat} (h : t.walkLeafRange start size = .ok vs)
    (hlow : start + size ≤ arch.span / 2) :
    (∀ v ∈ vs, t.leafAt v.address = some (v.size.level, v.leaf) ∧
      v.address % v.size.bytes = 0 ∧ start < v.address + v.size.bytes ∧
      v.address < start + size) ∧
    ∀ va lvl l, start ≤ va → va < start + size → t.leafAt va = some (lvl, l) →
      ⟨va / 2 ^ (12 + 9 * lvl) * 2 ^ (12 + 9 * lvl), l, .ofLevel lvl⟩ ∈ vs := by
  refine ⟨fun v hvi => ?_, fun va lvl l hsrt hsp hl => ?_⟩
  · obtain ⟨va, hv, hl, had, hab, hbe⟩ := ((walkLeafRange_ok h).mem v).mp hvi
    have hha := (le_canonicalize va).trans_lt hbe
    have hle := Nat.div_mul_le_self va v.size.bytes
    have hlt : va < va / v.size.bytes * v.size.bytes + v.size.bytes := Nat.lt_div_mul_add (two_pow_pos _)
    rw [canonicalize_low (by omega)] at had hab hbe
    rw [had]
    refine ⟨?_, Nat.mul_mod_left _ _, by omega, by omega⟩
    exact leafAt_of_content (Radix.content_of_get? hl) hv (by omega) (Nat.mul_div_cancel _ (two_pow_pos _))
  · have hz := PageSize.level_ofLevel (get?_depth hl).2
    have hlo := canonicalize_low (hsp.trans_le hlow)
    refine ((walkLeafRange_ok h).mem _).mpr ⟨va, by omega, hz.symm ▸ hl, ?_, by omega, by omega⟩
    rw [PageSize.bytes, hz, canonicalize_low ((Nat.div_mul_le_self _ _).trans_lt (by omega))]

/-- **Unmapping undoes mapping**, from any address of the page, for what an entry can hold. -/
theorem unmap_undoes_map (t : PageTable arch) (mem : Nat → Bool) (asked : Nat) (tgt : Fin (2 ^ 48)) (size : PageSize)
    (flags : {f : MappingFlags // f.read || f.execute || f.protNone}) (va : Fin arch.span) :
    match t.map mem asked va tgt size flags with
    | (t', _, .error _) => ∀ x, t'.leafAt x = t.leafAt x
    | (t', _, .ok _) => ∀ x : Fin arch.span, SamePage size.level va x →
      t'.query x = .ok (tgt - tgt % size.bytes + x % size.bytes, arch.stored flags, size) ∧
      ∃ t'', t'.unmap x = .ok (t'', tgt - tgt % size.bytes, size) ∧ ∀ y : Fin arch.span, t''.leafAt y = t.leafAt y := by
  have hsp := t.map_spec mem asked va tgt size flags va.isLt
  split at hsp
  · exact hsp.1
  next t' _ _ _ =>
    obtain ⟨hfree, hmap, -⟩ := hsp
    intro x hx
    have hl := (hmap x x.isLt).trans (if_pos hx)
    have he := getEntry_some.mpr hl
    have hco := content_of_leafAt hl
    rw [PageSize.ofLevel_level] at hco
    refine ⟨by rw [query, he], t'.setEntry x size none, by rw [unmap, he], fun y => ?_⟩
    have hxy : SamePage size.level x y ↔ SamePage size.level va y := by rw [SamePage, SamePage, hx]
    rw [(setEntry_spec hco none x.isLt).1 y y.isLt]
    split
    next h => exact (hfree y y.isLt (hxy.mp h)).symm
    next h => rw [hmap y y.isLt, if_neg (mt hxy.mpr h)]

end PageTable

end StarryX.Mm
