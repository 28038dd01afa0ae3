import StarryX.Fs.Path
import StarryX.Library.BTree
import StarryX.Library.Machine

/-! Directories of tmpfs.

A directory keeps its entries in a `BTreeMap`, under file names that are ordered with "." and ".."
first. It is searched with plain strings, which are compared byte by byte. The two orders differ on
names that come before ".." as strings, so that a search for such a name may go the wrong way.

`directory_iff` says that the directories are maps, in every state of a run, just if no such name is
ever bound. How `BTreeMap` spreads entries over nodes is part of the label, and so is the number of a
new inode. -/
namespace StarryX.Fs.Tmpfs
open Library Std Function
open Option (ite_none_right_eq_some)

/-! ### File names -/

structure FileName where
  name : Str
  deriving DecidableEq

def FileName.priority (n : FileName) : Nat := if n.name = dot then 0 else if n.name = dotdot then 1 else 2

instance : Ord FileName := ⟨compareLex (compareOn FileName.priority) (compareOn FileName.name)⟩

instance : TransOrd FileName := inferInstanceAs (TransCmp (compareLex (compareOn FileName.priority) (compareOn FileName.name)))

theorem FileName.compare_eq (a b : FileName) :
    compare a b = (compare a.priority b.priority).then (compare a.name b.name) := rfl

instance : LawfulEqOrd FileName where
  compare_self := by simp
  eq_of_compare := by
    intro a b h
    rw [FileName.compare_eq, Ordering.then_eq_eq] at h
    have hnm : a.name = b.name := Std.compare_eq_iff_eq.mp h.2
    cases a
    cases b
    exact congrArg FileName.mk hnm

/-! ### The filesystem -/

abbrev DirContent := BTree FileName Nat

inductive Content where
  | file
  | dir (entries : DirContent)

/-- The inodes that references to them keep. -/
def Content.refs : Content → List Nat
  | .file => []
  | .dir entries => entries.toList.map (·.2)

structure MemoryFs where
  inodes : TreeMap Nat Content

/-- A search with a string. -/
def get (entries : DirContent) (name : Str) : Option Nat := entries.find fun key => compare name key.name

/-- A new directory. -/
def dots (ino parent : Nat) : DirContent where
  height := 0
  len := 2
  root := .leaf ⟨dot⟩ ino (.leaf ⟨dotdot⟩ parent .nil)
  filled := ⟨Nat.le_of_ble_eq_true rfl, fun h => absurd h (Nat.lt_irrefl 0)⟩

def removed (name : Str) (entries : List (FileName × Nat)) : List (FileName × Nat) :=
  entries.filter fun e => e.1.name ≠ name

namespace MemoryFs

def new : MemoryFs := ⟨(∅ : TreeMap Nat Content).insert 1 (.dir (dots 1 1))⟩

def asDir (fs : MemoryFs) (ino : Nat) : LinuxResult DirContent :=
  match fs.inodes[ino]? with
  | some (.dir entries) => .ok entries
  | _ => .error .enotdir

def setDir (fs : MemoryFs) (dir : Nat) (entries : DirContent) : MemoryFs :=
  ⟨fs.inodes.insert dir (.dir entries)⟩

def lookup (fs : MemoryFs) (dir : Nat) (name : Str) : LinuxResult Nat :=
  match fs.asDir dir with
  | .error e => .error e
  | .ok entries => (get entries name).elim (.error .enoent) .ok

/-- `MemoryInode::new`. -/
def alloc (fs : MemoryFs) (parent ino : Nat) (isDir : Bool) : MemoryFs :=
  ⟨fs.inodes.insert ino (if isDir then .dir (dots ino parent) else .file)⟩

/-- `none` is an answer of the environment that cannot be: a number in use, or other entries. -/
def create (fs : MemoryFs) (dir : Nat) (name : Str) (isDir : Bool) (ino : Nat) (spread : DirContent) :
    Option (MemoryFs × LinuxResult Unit) :=
  match fs.asDir dir with
  | .error e => some (fs, .error e)
  | .ok entries =>
    if (get entries name).isSome then some (fs, .error .eexist)
    else if fs.inodes[ino]?.isNone ∧ spread.toList = insertSorted ⟨name⟩ ino entries.toList then
      some ((fs.alloc dir ino isDir).setDir dir spread, .ok ())
    else none

def link (fs : MemoryFs) (dir : Nat) (name : Str) (target : Nat) (spread : DirContent) :
    Option (MemoryFs × LinuxResult Unit) :=
  match fs.asDir dir with
  | .error e => some (fs, .error e)
  | .ok entries =>
    if (get entries name).isSome then some (fs, .error .eexist)
    else if fs.inodes[target]?.isSome ∧ spread.toList = insertSorted ⟨name⟩ target entries.toList then
      some (fs.setDir dir spread, .ok ())
    else none

/-- Whether `unlink` refuses. A directory that is linked into itself would be locked twice. -/
def unlinkable (fs : MemoryFs) (dir ino : Nat) : Option (LinuxResult Unit) :=
  match fs.inodes[ino]? with
  | some (.dir children) =>
    if ino = dir then none else if 2 < children.toList.length then some (.error .enotempty) else some (.ok ())
  | _ => some (.ok ())

def unlink (fs : MemoryFs) (dir : Nat) (name : Str) (spread : DirContent) : Option (MemoryFs × LinuxResult Unit) :=
  match fs.asDir dir with
  | .error e => some (fs, .error e)
  | .ok entries =>
    match get entries name with
    | none => some (fs, .error .enoent)
    | some ino =>
      match fs.unlinkable dir ino with
      | none => none
      | some (.error e) => some (fs, .error e)
      | some (.ok ()) =>
        if spread.toList = removed name entries.toList then some (fs.setDir dir spread, .ok ()) else none

/-- The part of `rename` after the two names were found not to be one inode. -/
def move (fs : MemoryFs) (src : Nat) (srcName : Str) (dst : Nat) (dstName : Str) (without spread : DirContent) :
    Option (MemoryFs × LinuxResult Unit) :=
  match fs.asDir src with
  | .error e => some (fs, .error e)
  | .ok entries =>
    match get entries srcName with
    | none => some (fs, .error .enoent)
    | some ino =>
      if without.toList = removed srcName entries.toList then
        let fs := fs.setDir src without
        match fs.asDir dst with
        | .error e => some (fs, .error e)
        | .ok others =>
          if spread.toList = insertSorted ⟨dstName⟩ ino others.toList then some (fs.setDir dst spread, .ok ())
          else none
      else none

def rename (fs : MemoryFs) (src : Nat) (srcName : Str) (dst : Nat) (dstName : Str) (without spread : DirContent) :
    Option (MemoryFs × LinuxResult Unit) :=
  match fs.lookup dst dstName with
  | .error _ => fs.move src srcName dst dstName without spread
  | .ok entry =>
    match fs.lookup src srcName with
    | .error e => some (fs, .error e)
    | .ok srcEntry =>
      if entry = srcEntry then some (fs, .ok ()) else fs.move src srcName dst dstName without spread

/-- An inode that nothing refers to may leave the slab. -/
def release (fs : MemoryFs) (ino : Nat) : Option MemoryFs :=
  if fs.inodes.toList.all fun e => !e.2.refs.contains ino then some ⟨fs.inodes.erase ino⟩ else none

end MemoryFs

/-! ### Runs -/

inductive Label where
  | create (dir : Nat) (name : Str) (isDir : Bool) (ino : Nat) (spread : DirContent)
  | link (dir : Nat) (name : Str) (target : Nat) (spread : DirContent)
  | unlink (dir : Nat) (name : Str) (spread : DirContent)
  | rename (src : Nat) (srcName : Str) (dst : Nat) (dstName : Str) (without spread : DirContent)
  | release (ino : Nat)

/-- What names are bound to, directory by directory. -/
abbrev Bindings := Nat → Str → Option Nat

def Bindings.set (b : Bindings) (dir : Nat) (name : Str) (ino : Option Nat) : Bindings :=
  update b dir (update (b dir) name ino)

/-- What an operation that succeeds is to do. -/
def Bindings.apply (b : Bindings) : Label → Bindings
  | .create dir name isDir ino _ =>
    let b : Bindings := if isDir then
      update b ino fun name => if name = dot then some ino else if name = dotdot then some dir else none
    else b
    b.set dir name (some ino)
  | .link dir name target _ => b.set dir name (some target)
  | .unlink dir name _ => b.set dir name none
  | .rename src srcName dst dstName _ _ =>
    if b src srcName = b dst dstName then b
    else (b.set src srcName none).set dst dstName (b src srcName)
  | .release _ => b

/-- `bindings` is what the operations that succeeded have bound. -/
structure Tracked where
  fs : MemoryFs
  bindings : Bindings

namespace Tracked

def initial : Tracked :=
  ⟨.new, fun _ name => if name = dot ∨ name = dotdot then some 1 else none⟩

/-- The VFS passes on legal names, and renames into directories only. -/
def perform (fs : MemoryFs) : Label → Option (MemoryFs × LinuxResult Unit)
  | .create dir name isDir ino spread => if legal name then fs.create dir name isDir ino spread else none
  | .link dir name target spread => if legal name then fs.link dir name target spread else none
  | .unlink dir name spread => if legal name then fs.unlink dir name spread else none
  | .rename src srcName dst dstName without spread =>
    if legal srcName && legal dstName && (fs.asDir dst).isOk then fs.rename src srcName dst dstName without spread else none
  | .release ino => (fs.release ino).map fun fs => (fs, .ok ())

def after (s : Tracked) (label : Label) : MemoryFs × LinuxResult Unit → Tracked
  | (fs, .ok ()) => ⟨fs, s.bindings.apply label⟩
  | (fs, .error _) => ⟨fs, s.bindings⟩

def step (s : Tracked) (label : Label) : Option Tracked := (perform s.fs label).map (s.after label)

def machine : Machine Tracked Label := ⟨fun label s => s.step label⟩

/-- The directories are maps: what is found is what is bound, and is there, and cannot be created. -/
def Good (s : Tracked) : Prop :=
  ∀ dir entries, s.fs.inodes[dir]? = some (.dir entries) → ∀ name,
    s.fs.lookup dir name = (s.bindings dir name).elim (.error .enoent) .ok ∧
    ∀ ino, s.bindings dir name = some ino → s.fs.inodes[ino]?.isSome ∧
      ∀ isDir new spread, s.fs.create dir name isDir new spread = some (s.fs, .error .eexist)

end Tracked

/-- A name before ".." as a string, other than ".". -/
def Early (name : Str) : Prop := compare name dotdot = .lt ∧ name ≠ dot

def Tracked.NoneEarly (s : Tracked) : Prop :=
  ∀ (dir : Nat) entries, s.fs.inodes[dir]? = some (.dir entries) → ∀ name, (s.bindings dir name).isSome → ¬ Early name

/-! ### The two orders -/

section Orders
variable {a b : FileName} {n : Str}

theorem not_early_dot : ¬ Early dot := fun h => h.2 rfl

theorem not_early_dotdot : ¬ Early dotdot := by
  intro h
  have hlt := h.1
  cases hlt

/-- A name that is neither early nor "." is ".." or after it. -/
theorem dotdot_lt (hnm : ¬ Early n) (hdot : n ≠ dot) (hdd : n ≠ dotdot) : compare dotdot n = .lt := by
  cases hcmp : compare n dotdot with
  | lt => exact absurd ⟨hcmp, hdot⟩ hnm
  | eq => exact absurd (Std.compare_eq_iff_eq.mp hcmp) hdd
  | gt => exact OrientedCmp.gt_iff_lt.mp hcmp

theorem dot_lt_dotdot : compare dot dotdot = .lt := by decide

theorem priority_cases (n : FileName) : n.name = dot ∧ n.priority = 0 ∨ n.name = dotdot ∧ n.priority = 1 ∨
    n.name ≠ dot ∧ n.name ≠ dotdot ∧ n.priority = 2 := by
  unfold FileName.priority
  by_cases hdot : n.name = dot
  · exact .inl ⟨hdot, if_pos hdot⟩
  · by_cases hdd : n.name = dotdot
    · simp [hdd, show dotdot ≠ dot by decide]
    · simp [hdot, hdd]

/-- Up to a name that is not early, the order of file names is the one of strings. -/
theorem compare_name_lt (h : compare a b = .lt) (hb : ¬ Early b.name) : compare a.name b.name = .lt := by
  rw [FileName.compare_eq, Ordering.then_eq_lt] at h
  obtain hpr | ⟨-, hnm⟩ := h
  · rw [Nat.compare_eq_lt] at hpr
    rcases priority_cases a with ⟨ha, hpa⟩ | ⟨ha, hpa⟩ | ⟨-, -, hpa⟩ <;>
      rcases priority_cases b with ⟨hb, hpb⟩ | ⟨hb, hpb⟩ | ⟨hbt, hbd, hpb⟩ <;> try omega
    · rw [ha, hb]
      exact dot_lt_dotdot
    · rw [ha]
      exact TransCmp.lt_trans dot_lt_dotdot (dotdot_lt hb hbt hbd)
    · rw [ha]
      exact dotdot_lt hb hbt hbd
  · exact hnm

/-- "." and ".." come first. -/
theorem dot_first (h : a.name ≠ dot) : compare (⟨dot⟩) a = .lt := by
  have hdot : (⟨dot⟩ : FileName).priority = 0 := rfl
  rw [FileName.compare_eq, Ordering.then_eq_lt, Nat.compare_eq_lt]
  obtain ⟨ha, -⟩ | ⟨-, hpa⟩ | ⟨-, -, hpa⟩ := priority_cases a
  · exact absurd ha h
  · omega
  · omega

theorem dotdot_second (hdot : a.name ≠ dot) (hdd : a.name ≠ dotdot) : compare (⟨dotdot⟩) a = .lt := by
  have hse : (⟨dotdot⟩ : FileName).priority = 1 := rfl
  rw [FileName.compare_eq, Ordering.then_eq_lt, Nat.compare_eq_lt]
  obtain ⟨ha, -⟩ | ⟨ha, -⟩ | ⟨-, -, hpa⟩ := priority_cases a
  · exact absurd ha hdot
  · exact absurd ha hdd
  · omega

/-- After those two the order is the one of strings. -/
theorem compare_third (hat : a.name ≠ dot) (had : a.name ≠ dotdot) (hbt : b.name ≠ dot)
    (hbd : b.name ≠ dotdot) : compare a b = compare a.name b.name := by
  have hpr : a.priority = b.priority := by
    obtain ⟨ha, -⟩ | ⟨ha, -⟩ | ⟨-, -, hpa⟩ := priority_cases a
    · exact absurd ha hat
    · exact absurd ha had
    · obtain ⟨hb, -⟩ | ⟨hb, -⟩ | ⟨-, -, hpb⟩ := priority_cases b
      · exact absurd hb hbt
      · exact absurd hb hbd
      · rw [hpa, hpb]
  rw [FileName.compare_eq, hpr, ReflOrd.compare_self]
  rfl

end Orders

/-! ### One directory -/

/-- The entries are in order, they are what is bound, and refer to inodes that are there. -/
structure DirInv (live : Nat → Prop) (entries : DirContent) (b : Str → Option Nat) : Prop where
  sorted : Sorted entries.toList
  bound : ∀ name ino, ((⟨name⟩, ino) : FileName × Nat) ∈ entries.toList ↔ b name = some ino
  dots : (b dot).isSome ∧ (b dotdot).isSome
  live : ∀ name ino, b name = some ino → live ino

variable {p : Nat}

section Directory
variable {live : Nat → Prop} {es spread : DirContent} {b : Str → Option Nat} {n : Str} {ino : Nat}

section
variable (h : DirInv live es b)
include h

theorem DirInv.mono {live' : Nat → Prop} (hlv : ∀ ino, live ino → live' ino) : DirInv live' es b :=
  {h with live := fun n ino hnm => hlv ino (h.live n ino hnm)}

/-- Where no early name is bound, a search finds what is bound. -/
theorem DirInv.get_eq (hno : ∀ n, (b n).isSome → ¬ Early n) (n : Str) : get es n = b n := by
  have hbd : ∀ e ∈ es.toList, b e.1.name = some e.2 := fun e he => (h.bound e.1.name e.2).mp he
  have hfi : Fits (fun key : FileName => compare n key.name) es.toList := by
    refine h.sorted.imp_of_mem fun {c d} hc hd hlt hle => ?_
    have hstr := compare_name_lt hlt (hno d.1.name (by simp [hbd d hd]))
    cases hcmp : compare n c.1.name with
    | lt => exact TransCmp.lt_trans hcmp hstr
    | eq => rwa [Std.compare_eq_iff_eq.mp hcmp]
    | gt => exact absurd hcmp hle
  rw [get, BTree.find, BNode.find_eq _ hfi]
  unfold firstEq
  cases hf : es.root.toList.find? fun e => compare n e.1.name == .eq with
  | none =>
    cases hnm : b n with
    | none => rfl
    | some ino =>
      have hmi := List.find?_eq_none.mp hf _ ((h.bound n ino).mpr hnm)
      simp at hmi
  | some e =>
    have heq : n = e.1.name := by simpa using List.find?_some hf
    rw [heq]
    exact (hbd e (List.mem_of_find?_eq_some hf)).symm

/-- The only early name that is bound is not found: it is in the first leaf, behind "." and "..". -/
theorem DirInv.get_early (hea : Early n) (hnm : (b n).isSome)
    (hon : ∀ o, (b o).isSome → Early o → o = n) : get es n = none := by
  have hbd : ∀ e ∈ es.toList, (b e.1.name).isSome := by
    intro e he
    simp [(h.bound e.1.name e.2).mp he]
  have hmem : ∀ o, (b o).isSome → ∃ ino, ((⟨o⟩, ino)) ∈ es.toList := by
    intro o ho
    obtain ⟨ino, hino⟩ := Option.isSome_iff_exists.mp ho
    exact ⟨ino, (h.bound o ino).mpr hino⟩
  have hne : ∀ {c : FileName} {o : Str}, c ≠ ⟨o⟩ → c.name ≠ o := by
    intro c o hc heq
    exact hc (congrArg FileName.mk heq)
  have hnt : n ≠ dotdot := fun heq => not_early_dotdot (heq ▸ hea)
  obtain ⟨i, hdot⟩ := hmem dot h.dots.1
  obtain ⟨j, hdd⟩ := hmem dotdot h.dots.2
  obtain ⟨k, hth⟩ := hmem n hnm
  obtain ⟨rest₁, hsplit₁, hsorted₁, hrest₁⟩ := h.sorted.head hdot fun e _ ho => dot_first (hne ho)
  obtain ⟨rest₂, hsplit₂, hsorted₂, hrest₂⟩ := hsorted₁.head ((hrest₁ _).mpr ⟨hdd, show (⟨dotdot⟩ : FileName) ≠ ⟨dot⟩ by decide⟩)
    fun e he ho => dotdot_second (hne ((hrest₁ e).mp he).2) (hne ho)
  -- All that follow are bound and not early.
  have hla : ∀ e ∈ rest₂, e.1 ≠ ⟨n⟩ → compare n e.1.name = .lt := by
    intro e he ho
    obtain ⟨hmem₁, hno⟩ := (hrest₂ e).mp he
    obtain ⟨hmem, hnot⟩ := (hrest₁ e).mp hmem₁
    have hny : ¬ Early e.1.name := fun he => hne ho (hon _ (hbd e hmem) he)
    exact TransCmp.lt_trans hea.1 (dotdot_lt hny (hne hnot) (hne hno))
  have hthird₂ : ((⟨n⟩, k)) ∈ rest₂ := by
    refine (hrest₂ _).mpr ⟨(hrest₁ _).mpr ⟨hth, ?_⟩, ?_⟩
    · exact fun heq => hea.2 (FileName.mk.inj heq)
    · exact mt FileName.mk.inj hnt
  obtain ⟨rest₃, hsplit₃, -, hrest₃⟩ := hsorted₂.head hthird₂ fun e he ho => by
    obtain ⟨hmem₁, hno⟩ := (hrest₂ e).mp he
    rw [compare_third hea.2 hnt (hne ((hrest₁ e).mp hmem₁).2) (hne hno)]
    exact hla e he ho
  have hsp : es.root.toList = [(⟨dot⟩, i), (⟨dotdot⟩, j), (⟨n⟩, k)] ++ rest₃ := by
    have hall : es.root.toList = (⟨dot⟩, i) :: rest₁ := hsplit₁
    rw [hall, hsplit₂, hsplit₃]
    rfl
  rw [get, BTree.find, BNode.find_eq_scan _ hsp (Nat.le_of_ble_eq_true rfl) ⟨(⟨n⟩, k), by simp, by simp⟩
    fun e he => hla e ((hrest₃ e).mp he).1 ((hrest₃ e).mp he).2]
  simp only [scan]
  cases hcmp : compare n dot with
  | lt => rfl
  | eq => exact absurd (Std.compare_eq_iff_eq.mp hcmp) hea.2
  | gt => simp [hea.1]

theorem DirInv.insert (hl : legal n) (hino : live ino)
    (hsp : spread.toList = insertSorted ⟨n⟩ ino es.toList) :
    DirInv live spread (update b n (some ino)) := by
  obtain ⟨hdot, hdd⟩ := legal_ne hl
  refine ⟨hsp ▸ h.sorted.insertSorted, fun o i => ?_, ?_, fun o i ho => ?_⟩
  · rw [hsp, mem_insertSorted h.sorted, h.bound]
    by_cases heq : o = n
    · simp [heq, eq_comm]
    · simp [heq]
  · rw [update_of_ne hdot.symm, update_of_ne hdd.symm]
    exact h.dots
  · obtain ⟨-, hnew⟩ | ⟨-, hold⟩ := update_cases ho
    · exact Option.some.inj hnew ▸ hino
    · exact h.live o i hold

theorem DirInv.remove (hl : legal n)
    (hsp : spread.toList = removed n es.toList) : DirInv live spread (update b n none) := by
  obtain ⟨hdot, hdd⟩ := legal_ne hl
  refine ⟨hsp ▸ h.sorted.filter _, fun o i => ?_, ?_, fun o i ho => ?_⟩
  · rw [hsp, removed, List.mem_filter, h.bound]
    by_cases heq : o = n
    · simp [heq]
    · simp [heq]
  · rw [update_of_ne hdot.symm, update_of_ne hdd.symm]
    exact h.dots
  · obtain ⟨-, hold⟩ := update_map_ne id ho nofun
    exact h.live o i hold

end

theorem dirInv_dots (hino : live ino) (hpar : live p) : DirInv live (dots ino p) fun n =>
    if n = dot then some ino else if n = dotdot then some p else none := by
  have hli : (dots ino p).toList = [(⟨dot⟩, ino), (⟨dotdot⟩, p)] := rfl
  have hne : dotdot ≠ dot := by decide
  refine ⟨?_, fun n i => ?_, ?_, fun n i hnm => ?_⟩
  · rw [hli, Sorted, List.pairwise_pair]
    exact dot_first hne
  · rw [hli]
    by_cases hdot : n = dot
    · simp [hdot, hne.symm, eq_comm]
    · by_cases hdd : n = dotdot
      · simp [hdd, hne.symm, eq_comm]
      · simp [hdot, hdd]
  · simp [hne]
  · split at hnm
    · cases hnm
      exact hino
    · obtain ⟨-, hpa⟩ := ite_none_right_eq_some.mp hnm
      cases hpa
      exact hpar

end Directory

/-! ### What the operations do -/

namespace MemoryFs
variable {fs fs' : MemoryFs} {dir ino target src dst : Nat} {n srcName dstName : Str} {isDir : Bool}
  {spread without es : DirContent} {result : LinuxResult Unit}

@[simp]
theorem inodes_setDir (fs : MemoryFs) (dir : Nat) (es : DirContent) (i : Nat) :
    (fs.setDir dir es).inodes[i]? = if dir = i then some (.dir es) else fs.inodes[i]? := by
  simp [setDir, TreeMap.getElem?_insert]

@[simp]
theorem inodes_alloc (fs : MemoryFs) (p ino : Nat) (isDir : Bool) (i : Nat) :
    (fs.alloc p ino isDir).inodes[i]? =
      if ino = i then some (if isDir then .dir (dots ino p) else .file) else fs.inodes[i]? := by
  simp [alloc, TreeMap.getElem?_insert]

theorem asDir_eq_ok : fs.asDir dir = .ok es ↔ fs.inodes[dir]? = some (.dir es) := by
  unfold asDir
  split
  next found hf =>
    simp [hf]
  next ho =>
    refine ⟨fun h => (by cases h), fun h => absurd h (ho es)⟩

theorem exists_of_isOk (h : (fs.asDir dir).isOk) : ∃ es, fs.inodes[dir]? = some (.dir es) := by
  cases hf : fs.asDir dir with
  | error e =>
    rw [hf] at h
    cases h
  | ok es => exact ⟨es, asDir_eq_ok.mp hf⟩

theorem lookup_eq (h : fs.inodes[dir]? = some (.dir es)) (n : Str) :
    fs.lookup dir n = (get es n).elim (.error .enoent) .ok := by
  rw [lookup, asDir_eq_ok.mpr h]

theorem create_cases (h : fs.create dir n isDir ino spread = some (fs', result)) :
    (∃ e, result = .error e ∧ fs' = fs) ∨ ∃ es, fs.inodes[dir]? = some (.dir es) ∧ fs.inodes[ino]? = none ∧
      spread.toList = insertSorted ⟨n⟩ ino es.toList ∧ result = .ok () ∧
      fs' = (fs.alloc dir ino isDir).setDir dir spread := by
  unfold create at h
  split at h
  · cases h
    exact .inl ⟨_, rfl, rfl⟩
  next es hes =>
    split at h
    · cases h
      exact .inl ⟨_, rfl, rfl⟩
    · obtain ⟨⟨hva, hsp⟩, hdn⟩ := ite_none_right_eq_some.mp h
      cases hdn
      exact .inr ⟨es, asDir_eq_ok.mp hes, by simpa using hva, hsp, rfl, rfl⟩

theorem link_cases (h : fs.link dir n target spread = some (fs', result)) :
    (∃ e, result = .error e ∧ fs' = fs) ∨ ∃ es, fs.inodes[dir]? = some (.dir es) ∧
      fs.inodes[target]?.isSome ∧ spread.toList = insertSorted ⟨n⟩ target es.toList ∧ result = .ok () ∧
      fs' = fs.setDir dir spread := by
  unfold link at h
  split at h
  · cases h
    exact .inl ⟨_, rfl, rfl⟩
  next es hes =>
    split at h
    · cases h
      exact .inl ⟨_, rfl, rfl⟩
    · obtain ⟨⟨htgt, hsp⟩, hdn⟩ := ite_none_right_eq_some.mp h
      cases hdn
      exact .inr ⟨es, asDir_eq_ok.mp hes, htgt, hsp, rfl, rfl⟩

theorem unlink_cases (h : fs.unlink dir n spread = some (fs', result)) :
    (∃ e, result = .error e ∧ fs' = fs) ∨ ∃ es, fs.inodes[dir]? = some (.dir es) ∧
      spread.toList = removed n es.toList ∧ result = .ok () ∧ fs' = fs.setDir dir spread := by
  unfold unlink at h
  split at h
  · cases h
    exact .inl ⟨_, rfl, rfl⟩
  next es hes =>
    split at h
    · cases h
      exact .inl ⟨_, rfl, rfl⟩
    · split at h
      · cases h
      · cases h
        exact .inl ⟨_, rfl, rfl⟩
      · obtain ⟨hsp, hdn⟩ := ite_none_right_eq_some.mp h
        cases hdn
        exact .inr ⟨es, asDir_eq_ok.mp hes, hsp, rfl, rfl⟩

/-- A move into a directory fails early, or it takes the entry out of one and puts it into the other. -/
theorem move_cases (hdst : (fs.asDir dst).isOk) (h : fs.move src srcName dst dstName without spread = some (fs', result)) :
    (∃ e, result = .error e ∧ fs' = fs) ∨ ∃ es ino others, fs.inodes[src]? = some (.dir es) ∧
      get es srcName = some ino ∧ without.toList = removed srcName es.toList ∧
      (fs.setDir src without).inodes[dst]? = some (.dir others) ∧
      spread.toList = insertSorted ⟨dstName⟩ ino others.toList ∧ result = .ok () ∧
      fs' = (fs.setDir src without).setDir dst spread := by
  unfold move at h
  split at h
  · cases h
    exact .inl ⟨_, rfl, rfl⟩
  next es hes =>
    split at h
    · cases h
      exact .inl ⟨_, rfl, rfl⟩
    next ino hino =>
      obtain ⟨hwi, h⟩ := ite_none_right_eq_some.mp h
      -- A directory is still one when its entries are set.
      obtain ⟨others, hos⟩ : ∃ others, (fs.setDir src without).asDir dst = .ok others := by
        by_cases heq : src = dst
        · exact ⟨without, asDir_eq_ok.mpr (by rw [inodes_setDir, if_pos heq])⟩
        · obtain ⟨others, hos⟩ := exists_of_isOk hdst
          exact ⟨others, asDir_eq_ok.mpr (by rw [inodes_setDir, if_neg heq, hos])⟩
      simp only [hos] at h
      obtain ⟨hsp, hdn⟩ := ite_none_right_eq_some.mp h
      cases hdn
      exact .inr ⟨es, ino, others, asDir_eq_ok.mp hes, hino, hwi, asDir_eq_ok.mp hos, hsp, rfl, rfl⟩

/-- Two names of one inode are left alone, and the others are moved. -/
theorem rename_cases (h : fs.rename src srcName dst dstName without spread = some (fs', result)) :
    (∃ e, result = .error e ∧ fs' = fs) ∨
    (∃ ino, fs.lookup dst dstName = .ok ino ∧ fs.lookup src srcName = .ok ino ∧ result = .ok () ∧ fs' = fs) ∨
    (∀ ino, fs.lookup dst dstName = .ok ino → fs.lookup src srcName ≠ .ok ino) ∧
      fs.move src srcName dst dstName without spread = some (fs', result) := by
  unfold rename at h
  split at h
  next e hdst =>
    refine .inr (.inr ⟨fun ino hino => ?_, h⟩)
    rw [hdst] at hino
    cases hino
  next entry hdst =>
    split at h
    · cases h
      exact .inl ⟨_, rfl, rfl⟩
    next srcEntry hsrc =>
      split_ifs at h with heq
      · cases h
        exact .inr (.inl ⟨entry, hdst, heq ▸ hsrc, rfl, rfl⟩)
      · refine .inr (.inr ⟨fun ino hino hsrc' => heq ?_, h⟩)
        exact (Except.ok.inj (hdst.symm.trans hino)).trans (Except.ok.inj (hsrc'.symm.trans hsrc))

end MemoryFs

/-! ### Steps -/

namespace Tracked
variable {s t : Tracked} {dir ino : Nat} {n : Str} {es spread : DirContent} {isDir : Bool} {b : Str → Option Nat}

def Live (s : Tracked) (ino : Nat) : Prop := s.fs.inodes[ino]?.isSome

def Inv (s : Tracked) : Prop :=
  ∀ (dir : Nat) entries, s.fs.inodes[dir]? = some (.dir entries) → DirInv s.Live entries (s.bindings dir)

theorem Inv.get_eq (h : s.Inv) (hno : s.NoneEarly) (hes : s.fs.inodes[dir]? = some (.dir es)) (n : Str) :
    get es n = s.bindings dir n :=
  (h dir es hes).get_eq (hno dir es hes) n

open MemoryFs (asDir_eq_ok create inodes_setDir lookup lookup_eq new)

theorem Inv.bound_of_lookup (h : s.Inv) (hno : s.NoneEarly) (hlk : s.fs.lookup dir n = .ok ino) :
    s.bindings dir n = some ino := by
  unfold lookup at hlk
  split at hlk
  · cases hlk
  next es hes =>
    rw [h.get_eq hno (asDir_eq_ok.mp hes)] at hlk
    cases hnm : s.bindings dir n with
    | none =>
      rw [hnm] at hlk
      cases hlk
    | some i =>
      rw [hnm] at hlk
      cases hlk
      rfl

theorem Inv.good (h : s.Inv) (hno : s.NoneEarly) : s.Good := by
  intro dir es hes n
  have hget := h.get_eq hno hes n
  refine ⟨by rw [lookup_eq hes, hget], fun ino hino => ⟨(h dir es hes).live n ino hino, ?_⟩⟩
  intro isDir new spread
  simp [create, asDir_eq_ok.mpr hes, hget, hino]

/-- `t` has the names of `s`, and one more. -/
def OneMore (s t : Tracked) (dir : Nat) (name : Str) : Prop :=
  ∀ (d : Nat) entries, t.fs.inodes[d]? = some (.dir entries) → ∀ n, (t.bindings d n).isSome →
    (d = dir ∧ n = name) ∨ n = dot ∨ n = dotdot ∨
      ∃ before, s.fs.inodes[d]? = some (.dir before) ∧ (s.bindings d n).isSome

/-- If all is still found, the name that was added is not early. -/
theorem noneEarly_of_good (hone : OneMore s t dir name) (hno : s.NoneEarly) (h : t.Inv) (hg : t.Good) :
    t.NoneEarly := by
  have hold : ∀ d es, t.fs.inodes[d]? = some (.dir es) → ∀ n, (t.bindings d n).isSome → Early n →
      d = dir ∧ n = name := by
    intro d es hes n hn hea
    obtain hnew | rfl | rfl | ⟨pre, hbef, hbd⟩ := hone d es hes n hn
    · exact hnew
    · exact absurd hea not_early_dot
    · exact absurd hea not_early_dotdot
    · exact absurd hea (hno d pre hbef n hbd)
  intro d es hes n hn hea
  have hmi := (h d es hes).get_early hea hn fun o ho hot => by
    rw [(hold d es hes o ho hot).2, (hold d es hes n hn hea).2]
  obtain ⟨i, hi⟩ := Option.isSome_iff_exists.mp hn
  have hf := (hg d es hes n).1
  rw [lookup_eq hes, hmi, hi] at hf
  cases hf

/-- `t` has no more names than `s`. -/
def NoMore (s t : Tracked) : Prop :=
  ∀ (d : Nat) entries, t.fs.inodes[d]? = some (.dir entries) → ∀ n, (t.bindings d n).isSome →
    n = dot ∨ n = dotdot ∨ ∃ before, s.fs.inodes[d]? = some (.dir before) ∧ (s.bindings d n).isSome

theorem NoMore.refl (s : Tracked) : NoMore s s := fun _ es hes _ hn => .inr (.inr ⟨es, hes, hn⟩)

theorem NoMore.oneMore (h : NoMore s t) (dir : Nat) (name : Str) : OneMore s t dir name :=
  fun d es hes n hn => .inr (h d es hes n hn)

theorem NoMore.trans_oneMore {u : Tracked} (h : NoMore s u) (hone : OneMore u t dir n) : OneMore s t dir n := by
  intro d es hes n hn
  obtain hnew | hdot | hdd | ⟨pre, hbef, hbd⟩ := hone d es hes n hn
  · exact .inl hnew
  · exact .inr (.inl hdot)
  · exact .inr (.inr (.inl hdd))
  · exact .inr (h d pre hbef n hbd)

/-- A directory gets other entries. -/
def put (s : Tracked) (dir : Nat) (entries : DirContent) (b : Str → Option Nat) : Tracked :=
  ⟨s.fs.setDir dir entries, update s.bindings dir b⟩

theorem live_put (h : s.Live ino) : (s.put dir es b).Live ino := by
  unfold Live put
  rw [inodes_setDir]
  split
  · rfl
  · exact h

theorem Inv.put (h : s.Inv) (hdir : DirInv s.Live es b) : (s.put dir es b).Inv := by
  intro d found hf
  have hf : (s.fs.setDir dir es).inodes[d]? = some (.dir found) := hf
  rw [inodes_setDir] at hf
  show DirInv _ found (update s.bindings dir b d)
  split_ifs at hf with hd
  · cases hf
    rw [← hd, update_self]
    exact hdir.mono fun _ => live_put
  · rw [update_of_ne (.symm hd)]
    exact (h d found hf).mono fun _ => live_put

theorem oneMore_put {ino : Option Nat} (hes : s.fs.inodes[dir]? = some (.dir es)) :
    OneMore s (s.put dir spread (update (s.bindings dir) name ino)) dir name := by
  intro d found hf n hn
  have hf : (s.fs.setDir dir spread).inodes[d]? = some (.dir found) := hf
  have hn : (update s.bindings dir (update (s.bindings dir) name ino) d n).isSome := hn
  rw [inodes_setDir] at hf
  split_ifs at hf with hd
  · subst hd
    rw [update_self] at hn
    by_cases hnm : n = name
    · exact .inl ⟨rfl, hnm⟩
    · rw [update_of_ne hnm] at hn
      exact .inr (.inr (.inr ⟨es, hes, hn⟩))
  · rw [update_of_ne (.symm hd)] at hn
    exact .inr (.inr (.inr ⟨found, hf, hn⟩))

theorem noMore_put (hes : s.fs.inodes[dir]? = some (.dir es)) :
    NoMore s (s.put dir spread (update (s.bindings dir) n none)) := by
  intro d found hf n hn
  obtain ⟨rfl, rfl⟩ | hold := oneMore_put hes d found hf n hn
  · simp [put] at hn
  · exact hold

/-- A new inode. -/
def allocated (s : Tracked) (parent ino : Nat) (isDir : Bool) : Tracked :=
  ⟨s.fs.alloc parent ino isDir, if isDir then
    update s.bindings ino fun name => if name = dot then some ino else if name = dotdot then some parent else none
  else s.bindings⟩

theorem inodes_allocated (s : Tracked) (p ino : Nat) (isDir : Bool) (i : Nat) :
    (s.allocated p ino isDir).fs.inodes[i]? =
      if ino = i then some (if isDir then .dir (dots ino p) else .file) else s.fs.inodes[i]? :=
  s.fs.inodes_alloc p ino isDir i

theorem live_allocated {new : Nat} (h : s.Live ino) : (s.allocated p new isDir).Live ino := by
  unfold Live
  rw [inodes_allocated]
  split
  · rfl
  · exact h

theorem live_self : (s.allocated p ino isDir).Live ino := by
  unfold Live
  rw [inodes_allocated, if_pos rfl]
  rfl

theorem Inv.allocated (h : s.Inv) (hpar : s.Live p) : (s.allocated p ino isDir).Inv := by
  intro d found hf
  have hlv : ∀ i, s.Live i → (s.allocated p ino isDir).Live i := fun _ => live_allocated
  rw [inodes_allocated] at hf
  split at hf
  next hd =>
    cases isDir with
    | false => cases hf
    | true =>
      cases hf
      subst hd
      show DirInv _ _ (update s.bindings ino _ ino)
      rw [update_self]
      exact dirInv_dots live_self (hlv p hpar)
  next hd =>
    have hbi : (s.allocated p ino isDir).bindings d = s.bindings d := by
      unfold Tracked.allocated
      split
      · exact update_of_ne (.symm hd) _ _
      · rfl
    rw [hbi]
    exact (h d found hf).mono hlv

theorem noMore_allocated : NoMore s (s.allocated p ino isDir) := by
  intro d found hf n hn
  rw [inodes_allocated] at hf
  split at hf
  next hd =>
    cases isDir with
    | false => cases hf
    | true =>
      subst hd
      simp only [allocated, if_true, update_self] at hn
      split at hn
      next hdot =>
        exact .inl hdot
      · split_ifs at hn with hdd
        · exact .inr (.inl hdd)
        · cases hn
  next hd =>
    have hbi : (s.allocated p ino isDir).bindings d = s.bindings d := by
      unfold allocated
      split
      · exact update_of_ne (.symm hd) _ _
      · rfl
    rw [hbi] at hn
    exact .inr (.inr ⟨found, hf, hn⟩)

theorem Inv.release (h : s.Inv) {fs : MemoryFs} (hrel : s.fs.release ino = some fs) :
    Inv ⟨fs, s.bindings⟩ ∧ NoMore s ⟨fs, s.bindings⟩ := by
  obtain ⟨hun, hdn⟩ := ite_none_right_eq_some.mp hrel
  cases hdn
  have hf : ∀ (d : Nat) found, (s.fs.inodes.erase ino)[d]? = some (.dir found) → s.fs.inodes[d]? = some (.dir found) := by
    intro d found hd
    rw [TreeMap.getElem?_erase] at hd
    exact (Option.ite_none_left_eq_some.mp hd).2
  constructor
  · intro d found hd
    have hdir := h d found (hf d found hd)
    refine {hdir with live := fun n i hn => ?_}
    -- A reference is left, so it was not this inode.
    have ho : ino ≠ i := by
      intro heq
      have hre := List.all_eq_true.mp hun _ (TreeMap.mem_toList_iff_getElem?_eq_some.mpr (hf d found hd))
      have hmem : ino ∈ (Content.dir found).refs :=
        List.mem_map.mpr ⟨(⟨n⟩, i), (hdir.bound n i).mpr hn, heq.symm⟩
      simp [hmem] at hre
    have hlv := hdir.live n i hn
    simp only [Live, TreeMap.getElem?_erase, Std.compare_eq_iff_eq, if_neg ho]
    exact hlv
  · intro d found hd n hn
    exact .inr (.inr ⟨found, hf d found hd, hn⟩)

/-- What a step does: an error and nothing else, or one name more. -/
theorem Inv.step (h : s.Inv) (hno : s.NoneEarly) {l : Label} (hst : s.step l = some t) :
    t.Inv ∧ ∃ dir n, OneMore s t dir n := by
  obtain ⟨⟨fs, result⟩, hpe, rfl⟩ := Option.map_eq_some_iff.mp hst
  have hun : s.Inv ∧ ∃ dir n, OneMore s s dir n := ⟨h, 0, dot, (NoMore.refl s).oneMore 0 dot⟩
  cases l with
  | create dir n isDir ino spread =>
    obtain ⟨hl, hcr⟩ := ite_none_right_eq_some.mp hpe
    obtain ⟨e, rfl, rfl⟩ | ⟨es, hes, hino, hsp, rfl, rfl⟩ := MemoryFs.create_cases hcr
    · exact hun
    · have hdir : ino ≠ dir := by
        intro heq
        rw [heq, hes] at hino
        cases hino
      have hal : (s.allocated dir ino isDir).Inv := h.allocated (by simp [Live, hes])
      have hen' : (s.allocated dir ino isDir).fs.inodes[dir]? = some (.dir es) := by
        rw [inodes_allocated, if_neg hdir, hes]
      have hput : ((s.allocated dir ino isDir).put dir spread _).Inv :=
        hal.put ((hal dir es hen').insert hl live_self hsp)
      exact ⟨hput, dir, n, noMore_allocated.trans_oneMore (oneMore_put hen')⟩
  | link dir n target spread =>
    obtain ⟨hl, hli⟩ := ite_none_right_eq_some.mp hpe
    obtain ⟨e, rfl, rfl⟩ | ⟨es, hes, htgt, hsp, rfl, rfl⟩ := MemoryFs.link_cases hli
    · exact hun
    · exact ⟨h.put ((h dir es hes).insert hl htgt hsp), dir, n, oneMore_put hes⟩
  | unlink dir n spread =>
    obtain ⟨hl, huk⟩ := ite_none_right_eq_some.mp hpe
    obtain ⟨e, rfl, rfl⟩ | ⟨es, hes, hsp, rfl, rfl⟩ := MemoryFs.unlink_cases huk
    · exact hun
    · exact ⟨h.put ((h dir es hes).remove hl hsp), dir, n, oneMore_put hes⟩
  | rename src srcName dst dstName without spread =>
    obtain ⟨hgd, hre⟩ := ite_none_right_eq_some.mp hpe
    simp only [Bool.and_eq_true] at hgd
    obtain ⟨⟨hsr, hds⟩, hdst⟩ := hgd
    obtain ⟨e, rfl, rfl⟩ | ⟨ino, hdd, hsd, rfl, rfl⟩ | ⟨hdi, hmo⟩ := MemoryFs.rename_cases hre
    · exact hun
    · have heq : s.bindings.apply (.rename src srcName dst dstName without spread) = s.bindings :=
        if_pos ((h.bound_of_lookup hno hsd).trans (h.bound_of_lookup hno hdd).symm)
      simp only [after, heq]
      exact hun
    · rcases MemoryFs.move_cases hdst hmo with
        ⟨e, rfl, rfl⟩ | ⟨es, ino, others, hes, hino, hwi, hos, hsp, rfl, rfl⟩
      · exact hun
      · have hbd : s.bindings src srcName = some ino := (h.get_eq hno hes srcName).symm.trans hino
        have hap : s.bindings.apply (.rename src srcName dst dstName without spread) =
            (s.bindings.set src srcName none).set dst dstName (some ino) := by
          rw [Bindings.apply, if_neg, hbd]
          intro heq
          rw [hbd] at heq
          obtain ⟨cs, hch⟩ := MemoryFs.exists_of_isOk hdst
          refine hdi ino ?_ ?_
          · rw [lookup_eq hch, h.get_eq hno hch, ← heq, Option.elim_some]
          · rw [lookup_eq hes, hino, Option.elim_some]
        simp only [after, hap]
        have hrem : (s.put src without (update (s.bindings src) srcName none)).Inv :=
          h.put ((h src es hes).remove hsr hwi)
        have hlv : (s.put src without (update (s.bindings src) srcName none)).Live ino :=
          live_put ((h src es hes).live srcName ino hbd)
        exact ⟨hrem.put ((hrem dst others hos).insert hds hlv hsp), dst, dstName,
          (noMore_put hes).trans_oneMore (oneMore_put hos)⟩
  | release ino =>
    obtain ⟨fs', hrel, hpa⟩ := Option.map_eq_some_iff.mp hpe
    cases hpa
    obtain ⟨hinv, hnm⟩ := h.release hrel
    exact ⟨hinv, 0, dot, hnm.oneMore 0 dot⟩

theorem inv_initial : initial.Inv ∧ initial.NoneEarly := by
  have hro : ∀ dir es, initial.fs.inodes[dir]? = some (.dir es) → dir = 1 ∧ es = dots 1 1 := by
    intro dir es hes
    simp only [initial, new, TreeMap.getElem?_insert, Std.compare_eq_iff_eq] at hes
    obtain ⟨hdir, hdo⟩ := ite_none_right_eq_some.mp hes
    cases hdo
    exact ⟨hdir.symm, rfl⟩
  constructor
  · intro dir es hes
    obtain ⟨rfl, rfl⟩ := hro dir es hes
    have hlv : initial.Live 1 := by
      simp [Live, initial, new]
    have hbi : initial.bindings 1 = fun n => if n = dot then some 1 else if n = dotdot then some 1 else none := by
      funext n
      by_cases hdot : n = dot <;> simp [initial, hdot]
    rw [hbi]
    exact dirInv_dots hlv hlv
  · intro dir es _ n hnm
    have hnm : (if n = dot ∨ n = dotdot then some 1 else none).isSome := hnm
    split_ifs at hnm with hdo
    · obtain rfl | rfl := hdo
      · exact not_early_dot
      · exact not_early_dotdot
    · cases hnm

/-- **The directories are maps in every state of a run just if no name before ".." is bound in any.** -/
theorem directory_iff (labels : List Label) :
    machine.Always Good initial labels ↔ machine.Always NoneEarly initial labels := by
  have hg : ∀ s : Tracked, s.Inv ∧ s.NoneEarly → s.Good := fun s h => h.1.good h.2
  refine Machine.always_iff_always hg (fun s h => h.2) (fun label s t h hst hg => ?_)
    (fun label s t h hst hno => ⟨(h.1.step h.2 hst).1, hno⟩) labels inv_initial
  obtain ⟨hinv, dir, name, hone⟩ := h.1.step h.2 hst
  exact ⟨hinv, noneEarly_of_good hone h.2 hinv hg⟩

/-- The root with a file besides. -/
def rootWith (name : Str) (ino : Nat) : DirContent where
  height := 0
  len := 3
  root := .leaf ⟨dot⟩ 1 (.leaf ⟨dotdot⟩ 1 (.leaf ⟨name⟩ ino .nil))
  filled := ⟨Nat.le_of_ble_eq_true rfl, fun h => absurd h (Nat.lt_irrefl 0)⟩

/-- "-a" is created and not found, and is created again in the place of the first. -/
theorem directory_wrong :
    ∃ s, machine.run initial [.create 1 [0x2d, 0x61] false 2 (rootWith [0x2d, 0x61] 2)] = some s ∧
      s.bindings 1 [0x2d, 0x61] = some 2 ∧ s.fs.lookup 1 [0x2d, 0x61] = .error .enoent ∧
      (s.fs.create 1 [0x2d, 0x61] false 3 (rootWith [0x2d, 0x61] 3)).map (·.2) = some (.ok ()) ∧ ¬ s.Good := by
  refine ⟨_, rfl, by decide +kernel, by decide +kernel, by decide +kernel, fun h => ?_⟩
  exact absurd (h 1 (rootWith [0x2d, 0x61] 2) rfl [0x2d, 0x61]).1 (by decide +kernel)

end Tracked

end StarryX.Fs.Tmpfs
