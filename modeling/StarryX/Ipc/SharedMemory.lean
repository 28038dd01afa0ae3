import StarryX.Errno
import StarryX.Vma.Layout

/-! Shared-memory segments and who is attached to them.

That a process has a segment attached is written down three times: in the segment, with a count;
in a table of the process, from segments to addresses and back; and in the address space. The
calls change one after the other, and some change only one. `books_iff` says which steps keep the
books right.

Of an address space only `shared_object_at` is kept: the object and the offset behind an address.
Where a free range is looked for, and whether mapping and unmapping fail, is part of the label. -/
namespace StarryX.Ipc.SharedMemory
open Library Std Function
open Vma (VirtAddrRange)
open List (foldl_cons mem_cons mem_map)
open TreeMap (getElem?_erase getElem?_insert mem_toList_iff_getElem?_eq_some)

/-! ### Two-way maps -/

structure BiBTreeMap (κ β : Type) [Ord κ] [Ord β] where
  forward : TreeMap κ β
  reverse : TreeMap β κ

open Option (bind_some ext some)

namespace BiBTreeMap
variable {κ β : Type} [Ord κ] [Ord β]

def new : BiBTreeMap κ β := ⟨∅, ∅⟩

/-- The two pairs that share a side with the new one go. -/
def insert (m : BiBTreeMap κ β) (key : κ) (value : β) : BiBTreeMap κ β :=
  let forward := (m.reverse[value]?).elim m.forward m.forward.erase
  let reverse := m.reverse.insert value key
  ⟨forward.insert key value, (forward[key]?).elim reverse reverse.erase⟩

def removeByValue (m : BiBTreeMap κ β) (value : β) : BiBTreeMap κ β :=
  (m.reverse[value]?).elim m fun key => ⟨m.forward.erase key, m.reverse.erase value⟩

/-- The two sides say the same. -/
def Paired (m : BiBTreeMap κ β) : Prop :=
  ∀ (key : κ) (value : β), m.forward[key]? = some value ↔ m.reverse[value]? = some key

variable {m : BiBTreeMap κ β} {key : κ} {value : β}

theorem insert_fresh (hkey : m.forward[key]? = none) (hval : m.reverse[value]? = none) :
    m.insert key value = ⟨m.forward.insert key value, m.reverse.insert value key⟩ := by
  simp [insert, hkey, hval]

variable [TransOrd κ] [LawfulEqOrd κ] [TransOrd β] [LawfulEqOrd β]

omit [LawfulEqOrd κ] [LawfulEqOrd β] in
theorem paired_new : (new : BiBTreeMap κ β).Paired := by
  intro key value
  simp [new]

theorem Paired.insert (h : m.Paired) (hkey : m.forward[key]? = none) (hval : m.reverse[value]? = none) :
    (m.insert key value).Paired := by
  intro key' value'
  rw [insert_fresh hkey hval]
  simp only [getElem?_insert]
  by_cases hk : key = key'
  · subst hk
    by_cases hv : value = value'
    · simp [hv]
    · simp [← h key value', hkey]
  · by_cases hv : value = value'
    · subst hv
      simp [h key' value, hval]
    · simp [hk, hv, h key' value']

theorem Paired.removeByValue (h : m.Paired) : (m.removeByValue value).Paired := by
  cases hkey : m.reverse[value]? with
  | none => rwa [BiBTreeMap.removeByValue, hkey]
  | some key =>
    intro key' value'
    rw [BiBTreeMap.removeByValue, hkey, Option.elim_some]
    simp only [getElem?_erase]
    by_cases hk : key = key'
    · subst hk
      by_cases hv : value = value'
      · simp [hv]
      · have ho : m.reverse[value']? ≠ some key := by
          intro heq
          exact hv (some.inj (((h key value).mpr hkey).symm.trans ((h key value').mpr heq)))
        simp [ho]
    · by_cases hv : value = value'
      · subst hv
        have ho : m.forward[key']? ≠ some value := by
          intro heq
          exact hk (some.inj (hkey.symm.trans ((h key' value).mp heq)))
        simp [ho]
      · simp [hk, hv, h key' value']

/-- Pairs that share no side are all there after they are inserted one by one. -/
theorem foldl_insert {pairs : List (κ × β)} (hpa : pairs.Pairwise fun a b => a.1 ≠ b.1 ∧ a.2 ≠ b.2) (h : m.Paired)
    (hke : ∀ e ∈ pairs, m.forward[e.1]? = none) (hva : ∀ e ∈ pairs, m.reverse[e.2]? = none) :
    (pairs.foldl (fun m e => m.insert e.1 e.2) m).Paired ∧ ∀ key value,
      (pairs.foldl (fun m e => m.insert e.1 e.2) m).forward[key]? = some value ↔
        m.forward[key]? = some value ∨ (key, value) ∈ pairs := by
  induction pairs generalizing m with
  | nil => exact ⟨h, by simp⟩
  | cons e rest ih =>
    obtain ⟨hhd, hr⟩ := List.pairwise_cons.mp hpa
    have hkey := hke e (.head _)
    have hval := hva e (.head _)
    have hin := insert_fresh hkey hval
    rw [foldl_cons]
    obtain ⟨hpd, hf⟩ := ih hr (h.insert hkey hval) (fun a ha => by
        rw [hin]
        simp [getElem?_insert, (hhd a ha).1, hke a (.tail _ ha)])
      (fun a ha => by
        rw [hin]
        simp [getElem?_insert, (hhd a ha).2, hva a (.tail _ ha)])
    refine ⟨hpd, fun key value => ?_⟩
    rw [hf, hin]
    simp only [getElem?_insert, mem_cons, Prod.ext_iff]
    by_cases hk : e.1 = key
    · subst hk
      simp [hkey, eq_comm]
    · simp [hk, Ne.symm hk]

/-- A copy of a two-way map that is made pair by pair. -/
theorem Paired.copy (h : m.Paired) :
    (m.forward.toList.foldl (fun m e => m.insert e.1 e.2) new).Paired ∧ ∀ key : κ,
      (m.forward.toList.foldl (fun m e => m.insert e.1 e.2) new).forward[key]? = m.forward[key]? := by
  have hdi : m.forward.toList.Pairwise fun a b => a.1 ≠ b.1 ∧ a.2 ≠ b.2 := by
    refine m.forward.distinct_keys_toList.imp_of_mem fun {a b} ha hb hne => ?_
    rw [Std.compare_eq_iff_eq] at hne
    refine ⟨hne, fun heq => hne ?_⟩
    have ha := (h _ _).mp (mem_toList_iff_getElem?_eq_some.mp ha)
    have hb := (h _ _).mp (mem_toList_iff_getElem?_eq_some.mp hb)
    rw [heq] at ha
    exact some.inj (ha.symm.trans hb)
  obtain ⟨hpd, hf⟩ := foldl_insert hdi paired_new (by simp [new]) (by simp [new])
  refine ⟨hpd, fun key => ext fun value => ?_⟩
  rw [hf]
  simp [new]

end BiBTreeMap

/-! ### Segments -/

structure ShmInfo where
  key : Int32
  mode : Nat
  segsz : Nat
  nattch : UInt16

/-- `created` is the key that `shmget` was called with. -/
structure ShmSegment where
  shmid : Int32
  pageNum : Nat
  vaRange : TreeMap Nat VirtAddrRange
  object : Option Nat
  rmid : Bool
  mappingFlags : Nat
  shmidDs : ShmInfo
  created : Int32

def pageSize4K : Nat := 4096
def shmMin : Nat := 1
def shmMax : Nat := 2 ^ 64 - 1 - 2 ^ 24

/-- The sum wraps in a release build. -/
def alignUp4k (size : Nat) : Nat := (size + (pageSize4K - 1)) % 2 ^ 64 / pageSize4K * pageSize4K

namespace ShmSegment

def new (key shmid : Int32) (size mappingFlags : Nat) : ShmSegment where
  shmid := shmid
  pageNum := alignUp4k size / pageSize4K
  vaRange := ∅
  object := none
  rmid := false
  mappingFlags := mappingFlags
  shmidDs := ⟨key, mappingFlags, size, 0⟩
  created := key

def tryUpdate (segment : ShmSegment) (size mappingFlags : Nat) : LinuxResult Int32 :=
  if size ≠ segment.shmidDs.segsz ∨ mappingFlags ≠ segment.shmidDs.mode then .error .einval
  else .ok segment.shmid

def isAttached (segment : ShmSegment) (pid : Nat) : Bool := segment.vaRange.contains pid

/-- The count wraps in a release build. -/
def attached (segment : ShmSegment) (pid : Nat) (range : VirtAddrRange) : ShmSegment :=
  {segment with
    vaRange := segment.vaRange.insert pid range
    shmidDs.nattch := segment.shmidDs.nattch + 1}

/-- The count saturates. -/
def detached (segment : ShmSegment) (pid : Nat) : ShmSegment :=
  {segment with
    vaRange := segment.vaRange.erase pid
    shmidDs.nattch := if segment.shmidDs.nattch = 0 then 0 else segment.shmidDs.nattch - 1}

def attachProcess (segment : ShmSegment) (pid : Nat) (range : VirtAddrRange) : LinuxResult ShmSegment :=
  if segment.isAttached pid then .error .einval else .ok (segment.attached pid range)

def detachProcess (segment : ShmSegment) (pid : Nat) : LinuxResult ShmSegment :=
  if segment.isAttached pid then .ok (segment.detached pid) else .error .einval

def shouldRemove (segment : ShmSegment) : Bool := segment.rmid && segment.vaRange.size == 0

end ShmSegment

/-! ### The manager -/

structure ShmManager where
  index : TreeMap Int32 Int32
  segments : TreeMap Int32 ShmSegment
  pidShmidVaddr : TreeMap Nat (BiBTreeMap Int32 Nat)
  nextIpcid : Int32

def ipcPrivate : Int32 := 0
def shmMni : Nat := 4096
def shmAll : Nat := 2 ^ 64 - 1 - 2 ^ 24

namespace ShmManager

def new : ShmManager := ⟨∅, ∅, ∅, 0⟩

def totalPages (m : ShmManager) : Nat := m.segments.foldl (fun pages _ segment => pages + segment.pageNum) 0

def validateSegmentParams (m : ShmManager) (size : Nat) : LinuxResult Unit :=
  if ¬ (shmMin ≤ size ∧ size ≤ shmMax) then .error .einval
  else if shmAll < m.totalPages + alignUp4k size / pageSize4K then .error .enospc
  else if shmMni ≤ m.segments.size then .error .enospc
  else .ok ()

def insertShmidVaddr (m : ShmManager) (pid : Nat) (shmid : Int32) (vaddr : Nat) : ShmManager :=
  {m with pidShmidVaddr := m.pidShmidVaddr.insert pid (((m.pidShmidVaddr[pid]?).getD .new).insert shmid vaddr)}

def removeShmaddr (m : ShmManager) (pid shmaddr : Nat) : ShmManager :=
  match m.pidShmidVaddr[pid]? with
  | none => m
  | some map =>
    let map := map.removeByValue shmaddr
    {m with pidShmidVaddr :=
      if map.forward.isEmpty then m.pidShmidVaddr.erase pid else m.pidShmidVaddr.insert pid map}

/-- The key that the segment's record holds now is the one that goes. -/
def removeShmid (m : ShmManager) (shmid : Int32) : ShmManager :=
  match m.segments[shmid]? with
  | none => m
  | some segment => {m with
    index := m.index.erase segment.shmidDs.key
    segments := m.segments.erase shmid}

def cleanupOrphanedSegments (m : ShmManager) : ShmManager :=
  ((m.segments.toList.filter fun e => e.2.shouldRemove).map (·.1)).foldl removeShmid m

def setSegment (m : ShmManager) (shmid : Int32) (segment : ShmSegment) : ShmManager :=
  {m with segments := m.segments.insert shmid segment}

/-- One segment, if it is still there. -/
def detachSegment (pid : Nat) (m : ShmManager) (shmid : Int32) : ShmManager :=
  match m.segments[shmid]? with
  | none => m
  | some segment =>
    match segment.detachProcess pid with
    | .error _ => m
    | .ok segment => m.setSegment shmid segment

def detachProcess (m : ShmManager) (pid : Nat) : ShmManager :=
  match m.pidShmidVaddr[pid]? with
  | none => m.cleanupOrphanedSegments
  | some mappings =>
    let m := {m with pidShmidVaddr := m.pidShmidVaddr.erase pid}
    (mappings.forward.keys.foldl (detachSegment pid) m).cleanupOrphanedSegments

structure InheritedAttachment where
  shmid : Int32
  vaddr : Nat
  range : VirtAddrRange

/-- What the parent has attached; the child must not be there yet. -/
def collectAttachments (m : ShmManager) (parent child : Nat) :
    List (Int32 × Nat) → LinuxResult (List InheritedAttachment)
  | [] => .ok []
  | (shmid, vaddr) :: rest =>
    match m.segments[shmid]? with
    | none => .error .einval
    | some segment =>
      if segment.isAttached child then .error .einval
      else match segment.vaRange[parent]? with
        | none => .error .einval
        | some range => (collectAttachments m parent child rest).map (⟨shmid, vaddr, range⟩ :: ·)

/-- `attached` are the ones to take back if one fails. -/
def attachEach (child : Nat) (attached : List InheritedAttachment) (m : ShmManager) :
    List InheritedAttachment → ShmManager × LinuxResult Unit
  | [] => (m, .ok ())
  | attachment :: rest =>
    match m.segments[attachment.shmid]? with
    | none => (m, .error .einval)
    | some segment =>
      match segment.attachProcess child attachment.range with
      | .error e => ((attached.map (·.shmid)).foldl (detachSegment child) m, .error e)
      | .ok segment => attachEach child (attachment :: attached) (m.setSegment attachment.shmid segment) rest

def inheritProcess (m : ShmManager) (parent child : Nat) : ShmManager × LinuxResult Unit :=
  if m.pidShmidVaddr.contains child then (m, .error .einval)
  else match m.pidShmidVaddr[parent]? with
    | none => (m, .ok ())
    | some mappings =>
      match m.collectAttachments parent child mappings.forward.toList with
      | .error e => (m, .error e)
      | .ok attachments =>
        match attachEach child [] m attachments with
        | (m, .error e) => (m, .error e)
        | (m, .ok ()) =>
          let mappings := attachments.foldl (fun map attachment => map.insert attachment.shmid attachment.vaddr) .new
          ({m with pidShmidVaddr := m.pidShmidVaddr.insert child mappings}, .ok ())

end ShmManager

/-! ### Calls -/

/-- `spaceOf` is the address space of a process, and `sharedObjectAt` what is mapped in it. -/
structure Shm where
  manager : ShmManager
  spaceOf : Nat → Option Nat
  sharedObjectAt : Nat → Nat → Option (Nat × Nat)
  nextSpace : Nat
  nextObject : Nat

/-- `SHM_R` and `SHM_W` to `READ` and `WRITE`, besides `USER`. -/
def convertShmFlagsToMapping (shmflg : Nat) : Nat :=
  8 ||| (if shmflg % 2 ^ 32 &&& 0o400 ≠ 0 then 1 else 0) ||| (if shmflg % 2 ^ 32 &&& 0o200 ≠ 0 then 2 else 0)

def ShmManager.createSegment (m : ShmManager) (key : Int32) (size shmflg : Nat) : ShmManager :=
  {m with
    nextIpcid := m.nextIpcid + 1
    index := m.index.insert key m.nextIpcid
    segments := m.segments.insert m.nextIpcid (.new key m.nextIpcid size (convertShmFlagsToMapping shmflg))}

def ShmManager.sysShmget (m : ShmManager) (key : Int32) (size shmflg : Nat) : ShmManager × LinuxResult Int32 :=
  if alignUp4k size / pageSize4K = 0 then (m, .error .einval)
  else match m.validateSegmentParams size with
    | .error e => (m, .error e)
    | .ok () =>
      match if key = ipcPrivate then none else m.index[key]? with
      | some shmid =>
        match m.segments[shmid]? with
        | none => (m, .error .einval)
        | some segment => (m, segment.tryUpdate size (convertShmFlagsToMapping shmflg))
      | none => (m.createSegment key size shmflg, .ok m.nextIpcid)

def mapRange (at' : Nat → Option (Nat × Nat)) (range : VirtAddrRange) (object : Nat) : Nat → Option (Nat × Nat) :=
  fun address => if range.contains address then some (object, address - range.start) else at' address

def unmapRange (at' : Nat → Option (Nat × Nat)) (range : VirtAddrRange) : Nat → Option (Nat × Nat) :=
  fun address => if range.contains address then none else at' address

/-- What the search comes up with is free. -/
def findMappingAddress (at' : Nat → Option (Nat × Nat)) (candidate : Option Nat) (length : Nat) : Option Nat :=
  candidate.filter fun start => decide (∀ i, i < length → at' (start + i) = none)

namespace Shm

def setMapped (s : Shm) (space : Nat) (at' : Nat → Option (Nat × Nat)) : Shm :=
  {s with sharedObjectAt := update s.sharedObjectAt space at'}

/-- The mapping is made and written into the books. -/
def attachAt (s : Shm) (pid space : Nat) (shmid : Int32) (segment : ShmSegment) (start : Nat) : Shm :=
  let range := VirtAddrRange.fromStartSize start (segment.pageNum * pageSize4K)
  let object := segment.object.getD s.nextObject
  {s.setMapped space (mapRange (s.sharedObjectAt space) range object) with
    nextObject := s.nextObject + 1
    manager := (s.manager.setSegment shmid ({segment with object := some object}.attached pid range)).insertShmidVaddr
      pid segment.shmid start}

/-- `candidate` is what the search for a free range answers, and `fails` whether mapping does. A
process that is not attached yet can be, so that `attach_process` does not fail. -/
def sysShmat (s : Shm) (pid space : Nat) (shmid : Int32) (candidate : Option Nat) (fails : Option LinuxError) :
    Shm × LinuxResult Nat :=
  match s.manager.segments[shmid]? with
  | none => (s, .error .einval)
  | some segment =>
    if segment.isAttached pid then (s, .error .einval)
    else match findMappingAddress (s.sharedObjectAt space) candidate (segment.pageNum * pageSize4K) with
      | none => (s, .error .enomem)
      | some start =>
        match fails with
        | some e => (s, .error e)
        | none => (s.attachAt pid space shmid segment start, .ok start)

/-- The mapping is gone and the books forget it, and the segment if it waited for that. -/
def detachAt (s : Shm) (pid space shmaddr : Nat) (shmid : Int32) (segment : ShmSegment) (range : VirtAddrRange) : Shm :=
  let m := (s.manager.removeShmaddr pid shmaddr).setSegment shmid (segment.detached pid)
  {s.setMapped space (unmapRange (s.sharedObjectAt space) range) with
    manager := if (segment.detached pid).shouldRemove then m.removeShmid shmid else m}

/-- A process that has a range is attached, so that `detach_process` does not fail. -/
def sysShmdt (s : Shm) (pid space shmaddr : Nat) (fails : Option LinuxError) : Shm × LinuxResult Unit :=
  match (s.manager.pidShmidVaddr[pid]?).bind (·.reverse[shmaddr]?) with
  | none => (s, .error .einval)
  | some shmid =>
    match s.manager.segments[shmid]? with
    | none => (s, .error .einval)
    | some segment =>
      match segment.vaRange[pid]? with
      | none => (s, .error .einval)
      | some range =>
        match fails with
        | some e => (s, .error e)
        | none => (s.detachAt pid space shmaddr shmid segment range, .ok ())

def modifySegment (s : Shm) (shmid : Int32) (f : ShmSegment → ShmSegment) : Shm :=
  {s with manager.segments := s.manager.segments.modify shmid f}

/-- `IPC_SET` with what was read from the user's buffer. -/
def ctlSet (s : Shm) (shmid : Int32) (info : ShmInfo) : Shm :=
  s.modifySegment shmid fun segment => {segment with shmidDs := info}

/-- `IPC_RMID`. -/
def ctlRmid (s : Shm) (shmid : Int32) : Shm :=
  s.modifySegment shmid fun segment => {segment with rmid := true}

/-- `CLONE_VM` without `CLONE_VFORK` shares the space; otherwise the child gets a copy. -/
def addProcess (s : Shm) (space child : Nat) (shared : Bool) : Shm :=
  if shared then {s with spaceOf := update s.spaceOf child (some space)}
  else {s with
    spaceOf := update s.spaceOf child (some s.nextSpace)
    sharedObjectAt := update s.sharedObjectAt s.nextSpace (s.sharedObjectAt space)
    nextSpace := s.nextSpace + 1}

def doClone (s : Shm) (parent space child : Nat) (shared : Bool) : Shm × LinuxResult Unit :=
  match s.manager.inheritProcess parent child with
  | (m, .error e) => ({s with manager := m}, .error e)
  | (m, .ok ()) => ({s.addProcess space child shared with manager := m}, .ok ())

/-- The last thread of a process. `unmapped` is whether its areas could be removed. -/
def doExit (s : Shm) (pid space : Nat) (unmapped : Bool) : Shm :=
  let s := if unmapped then s.setMapped space fun _ => none else s
  {s with manager := s.manager.detachProcess pid, spaceOf := update s.spaceOf pid none}

end Shm

inductive ShmLabel where
  | shmget (key : Int32) (size shmflg : Nat)
  | shmat (pid : Nat) (shmid : Int32) (candidate : Option Nat) (fails : Option LinuxError)
  | shmdt (pid shmaddr : Nat) (fails : Option LinuxError)
  | ipcSet (shmid : Int32) (info : ShmInfo)
  | ipcStat (shmid : Int32)
  | ipcRmid (shmid : Int32)
  | fork (parent child : Nat) (shared : Bool)
  | exec (pid : Nat)
  | munmap (pid : Nat) (range : VirtAddrRange)
  | exit (pid : Nat) (unmapped : Bool)

namespace Shm

/-- Calls of processes that are not there, and children with a pid in use, change nothing. -/
def step (s : Shm) : ShmLabel → Shm
  | .shmget key size shmflg => {s with manager := (s.manager.sysShmget key size shmflg).1}
  | .shmat pid shmid candidate fails =>
    (s.spaceOf pid).elim s fun space => (s.sysShmat pid space shmid candidate fails).1
  | .shmdt pid shmaddr fails => (s.spaceOf pid).elim s fun space => (s.sysShmdt pid space shmaddr fails).1
  | .ipcSet shmid info => s.ctlSet shmid info
  | .ipcStat _ => s
  | .ipcRmid shmid => s.ctlRmid shmid
  | .fork parent child shared => (s.spaceOf parent).elim s fun space =>
    if (s.spaceOf child).isSome then s else (s.doClone parent space child shared).1
  | .exec pid => (s.spaceOf pid).elim s fun space => s.setMapped space fun _ => none
  | .munmap pid range => (s.spaceOf pid).elim s fun space =>
    s.setMapped space (unmapRange (s.sharedObjectAt space) range)
  | .exit pid unmapped => (s.spaceOf pid).elim s fun space => s.doExit pid space unmapped

def machine : Machine Shm ShmLabel := ⟨fun label s => some (s.step label)⟩

/-- One process and no segment. -/
def initial (pid : Nat) : Shm :=
  ⟨.new, fun other => if other = pid then some 0 else none, fun _ _ => none, 1, 0⟩

end Shm

/-! ### What is found afterwards -/

variable (s : Shm)

theorem Shm.segments_modifySegment (shmid id : Int32) (f : ShmSegment → ShmSegment) :
    (s.modifySegment shmid f).manager.segments[id]? =
      (s.manager.segments[id]?).map fun seg => if shmid = id then f seg else seg := by
  simp only [modifySegment, TreeMap.getElem?_modify]
  by_cases hid : shmid = id
  · simp [hid]
  · simp [hid]

theorem Shm.sysShmat_cases (pid sp : Nat) (id : Int32) (cand : Option Nat) (fails : Option LinuxError) :
    (∃ e, s.sysShmat pid sp id cand fails = (s, .error e)) ∨
      ∃ seg start, cand = some start ∧ fails = none ∧ s.manager.segments[id]? = some seg ∧ seg.isAttached pid = false ∧
        (∀ i, i < seg.pageNum * pageSize4K → s.sharedObjectAt sp (start + i) = none) ∧
        s.sysShmat pid sp id cand fails = (s.attachAt pid sp id seg start, .ok start) := by
  unfold sysShmat
  split
  · exact .inl ⟨_, rfl⟩
  next seg hseg =>
    split
    · exact .inl ⟨_, rfl⟩
    next hfr =>
      split
      · exact .inl ⟨_, rfl⟩
      next start hst =>
        split
        · exact .inl ⟨_, rfl⟩
        · obtain ⟨hcand, hunm⟩ := Option.filter_eq_some_iff.mp hst
          exact .inr ⟨seg, start, hcand, rfl, hseg, by simpa using hfr, of_decide_eq_true hunm, rfl⟩

variable {id : Int32} {seg : ShmSegment} {pid : Nat}

/-- With a free range, `shmat` attaches. -/
theorem Shm.sysShmat_ok {s : Shm} {sp start : Nat}
    (hseg : s.manager.segments[id]? = some seg) (hfr : seg.isAttached pid = false)
    (hunm : ∀ i, i < seg.pageNum * pageSize4K → s.sharedObjectAt sp (start + i) = none) :
    s.sysShmat pid sp id (some start) none = (s.attachAt pid sp id seg start, .ok start) := by
  have hf : findMappingAddress (s.sharedObjectAt sp) (some start) (seg.pageNum * pageSize4K) = some start :=
    Option.filter_some_pos (decide_eq_true hunm)
  simp [sysShmat, hseg, hfr, hf]

theorem Shm.sysShmdt_cases (pid sp shmaddr : Nat) (fails : Option LinuxError) :
    (∃ e, s.sysShmdt pid sp shmaddr fails = (s, .error e)) ∨
      ∃ map id seg r, fails = none ∧ s.manager.pidShmidVaddr[pid]? = some map ∧ map.reverse[shmaddr]? = some id ∧
        s.manager.segments[id]? = some seg ∧ seg.vaRange[pid]? = some r ∧
        s.sysShmdt pid sp shmaddr fails = (s.detachAt pid sp shmaddr id seg r, .ok ()) := by
  unfold sysShmdt
  split
  · exact .inl ⟨_, rfl⟩
  next id hsh =>
    split
    · exact .inl ⟨_, rfl⟩
    next seg hseg =>
      split
      · exact .inl ⟨_, rfl⟩
      next r hrg =>
        split
        · exact .inl ⟨_, rfl⟩
        · obtain ⟨map, hmap, hrev⟩ := Option.bind_eq_some_iff.mp hsh
          exact .inr ⟨map, id, seg, r, rfl, hmap, hrev, hseg, hrg, rfl⟩

section
variable {seg : ShmSegment} {pid : Nat}

theorem ShmSegment.size_detached (h : seg.isAttached pid) :
    (seg.detached pid).vaRange.size = seg.vaRange.size - 1 := by
  rw [isAttached] at h
  simp [detached, TreeMap.size_erase, h]

theorem ShmSegment.size_pos (h : seg.isAttached pid) : seg.vaRange.size ≠ 0 := by
  intro hz
  rw [isAttached, TreeMap.contains_of_isEmpty (by rw [TreeMap.isEmpty_eq_size_eq_zero, hz]; rfl)] at h
  cases h

end

namespace ShmManager
variable {m : ShmManager} (c : Nat)

theorem segments_removeShmaddr (m : ShmManager) (pid shmaddr : Nat) : (m.removeShmaddr pid shmaddr).segments = m.segments := by
  unfold removeShmaddr
  split <;> rfl

@[simp]
theorem segments_setSegment (m : ShmManager) (shmid id : Int32) (seg : ShmSegment) :
    (m.setSegment shmid seg).segments[id]? = if shmid = id then some seg else m.segments[id]? := by
  simp [setSegment, getElem?_insert]

/-! #### Creating -/

/-- The limits leave room for one more segment of the size. -/
def HasRoom (m : ShmManager) (size : Nat) : Prop :=
  m.totalPages + alignUp4k size / pageSize4K ≤ shmAll ∧ m.segments.size < shmMni

/-- A size that there can be, room for it, and no segment under the key: what `shmget` creates. -/
def Creates (m : ShmManager) (key : Int32) (size : Nat) : Prop :=
  (shmMin ≤ size ∧ size ≤ shmMax) ∧ m.HasRoom size ∧ (key = ipcPrivate ∨ m.index[key]? = none)

theorem pages_pos {size : Nat} (h : shmMin ≤ size ∧ size ≤ shmMax) : 0 < alignUp4k size / pageSize4K := by
  simp only [alignUp4k, pageSize4K, shmMin, shmMax] at *
  omega

theorem validateSegmentParams_ok {size : Nat} (h : shmMin ≤ size ∧ size ≤ shmMax) (hroom : m.HasRoom size) :
    m.validateSegmentParams size = .ok () := by
  rw [validateSegmentParams, if_neg (not_not.mpr h), if_neg hroom.1.not_gt, if_neg hroom.2.not_ge]

theorem of_validateSegmentParams {size : Nat} (h : m.validateSegmentParams size = .ok ()) :
    (shmMin ≤ size ∧ size ≤ shmMax) ∧ m.HasRoom size := by
  unfold validateSegmentParams at h
  split_ifs at h with hsize hpages hcount
  exact ⟨hsize, Nat.le_of_not_lt hpages, Nat.lt_of_not_le hcount⟩

/-- `shmget` answers from what is there, or it puts a new segment under the next id. -/
theorem sysShmget_cases (m : ShmManager) (key : Int32) (size shmflg : Nat) :
    ¬ m.Creates key size ∧ (∃ answer, m.sysShmget key size shmflg = (m, answer) ∧ ∀ id, answer = .ok id →
      ∃ shmid seg, m.index[key]? = some shmid ∧ m.segments[shmid]? = some seg ∧ id = seg.shmid) ∨
    m.Creates key size ∧ m.sysShmget key size shmflg = (m.createSegment key size shmflg, .ok m.nextIpcid) := by
  cases hva : m.validateSegmentParams size with
  | error e =>
    refine .inl ⟨fun hcr => ?_, .error (if alignUp4k size / pageSize4K = 0 then .einval else e), ?_, nofun⟩
    · rw [validateSegmentParams_ok hcr.1 hcr.2.1] at hva
      cases hva
    · unfold sysShmget
      split
      · rfl
      · rw [hva]
  | ok =>
    obtain ⟨hsize, hroom⟩ := of_validateSegmentParams hva
    simp only [sysShmget, if_neg (pages_pos hsize).ne', hva]
    split
    next shmid hf =>
      obtain ⟨hkey, hi⟩ := Option.ite_none_left_eq_some.mp hf
      have hno : ¬ m.Creates key size := fun hcr => hcr.2.2.elim hkey fun hn => by cases hi.symm.trans hn
      split
      · exact .inl ⟨hno, _, rfl, nofun⟩
      next seg hseg =>
        refine .inl ⟨hno, _, rfl, fun id hok => ⟨shmid, seg, hi, hseg, ?_⟩⟩
        unfold ShmSegment.tryUpdate at hok
        split at hok <;> cases hok
        rfl
    next hfr =>
      refine .inr ⟨⟨hsize, hroom, or_iff_not_imp_left.mpr fun hkey => ?_⟩, rfl⟩
      rwa [if_neg hkey] at hfr

theorem segments_createSegment (m : ShmManager) (key : Int32) (size shmflg : Nat) (id : Int32) :
    (m.createSegment key size shmflg).segments[id]? = if m.nextIpcid = id
      then some (.new key m.nextIpcid size (convertShmFlagsToMapping shmflg)) else m.segments[id]? := by
  simp [createSegment, getElem?_insert]

/-! #### Removing -/

theorem segments_removeShmid (m : ShmManager) (shmid id : Int32) :
    (m.removeShmid shmid).segments[id]? = if shmid = id then none else m.segments[id]? := by
  unfold removeShmid
  cases hseg : m.segments[shmid]? with
  | none =>
    by_cases hid : shmid = id
    · rw [if_pos hid, ← hid, hseg]
    · rw [if_neg hid]
  | some seg => simp [getElem?_erase]

@[simp]
theorem pidShmidVaddr_removeShmid (m : ShmManager) (id : Int32) :
    (m.removeShmid id).pidShmidVaddr = m.pidShmidVaddr := by
  unfold removeShmid
  cases m.segments[id]? <;> rfl

theorem segments_foldl_removeShmid (m : ShmManager) (ids : List Int32) (id : Int32) :
    (ids.foldl removeShmid m).segments[id]? = if id ∈ ids then none else m.segments[id]? := by
  induction ids generalizing m with
  | nil => simp
  | cons shmid rest ih =>
    rw [foldl_cons, ih, segments_removeShmid]
    by_cases hr : id ∈ rest
    · simp [hr]
    · simp [hr, eq_comm]

@[simp]
theorem pidShmidVaddr_foldl_removeShmid (m : ShmManager) (ids : List Int32) :
    (ids.foldl removeShmid m).pidShmidVaddr = m.pidShmidVaddr := by
  induction ids generalizing m with
  | nil => rfl
  | cons id rest ih => rw [foldl_cons, ih, pidShmidVaddr_removeShmid]

theorem mem_orphans : id ∈ (m.segments.toList.filter fun e => e.2.shouldRemove).map (·.1) ↔
    ∃ seg, m.segments[id]? = some seg ∧ seg.shouldRemove := by
  simp

theorem segments_cleanupOrphanedSegments (m : ShmManager) (id : Int32) :
    m.cleanupOrphanedSegments.segments[id]? = (m.segments[id]?).filter fun seg => !seg.shouldRemove := by
  rw [cleanupOrphanedSegments, segments_foldl_removeShmid]
  simp only [mem_orphans]
  cases hseg : m.segments[id]? with
  | none => simp
  | some seg =>
    cases hrem : seg.shouldRemove <;> simp [hrem, Option.filter]

@[simp]
theorem pidShmidVaddr_cleanupOrphanedSegments (m : ShmManager) :
    m.cleanupOrphanedSegments.pidShmidVaddr = m.pidShmidVaddr := pidShmidVaddr_foldl_removeShmid _ _

/-- Where the segment says that the process has it. -/
def attachment (m : ShmManager) (id : Int32) (pid : Nat) : Option VirtAddrRange :=
  (m.segments[id]?).bind (·.vaRange[pid]?)

/-- Where the table of the process says so. -/
def vaddr (m : ShmManager) (pid : Nat) (id : Int32) : Option Nat := (m.pidShmidVaddr[pid]?).bind (·.forward[id]?)

theorem attachment_eq_some {r : VirtAddrRange} :
    m.attachment id pid = some r ↔ ∃ seg, m.segments[id]? = some seg ∧ seg.vaRange[pid]? = some r :=
  Option.bind_eq_some_iff

theorem attachment_of (h : m.segments[id]? = some seg) (pid : Nat) :
    m.attachment id pid = seg.vaRange[pid]? := by rw [attachment, h, bind_some]

theorem vaddr_of {map : BiBTreeMap Int32 Nat} (h : m.pidShmidVaddr[pid]? = some map)
    (id : Int32) : m.vaddr pid id = map.forward[id]? := by rw [vaddr, h, bind_some]

/-! #### Detaching -/

theorem segments_detachSegment (pid : Nat) (m : ShmManager) (shmid id : Int32) :
    (detachSegment pid m shmid).segments[id]? = (m.segments[id]?).map fun seg =>
      if shmid = id ∧ seg.isAttached pid then seg.detached pid else seg := by
  unfold detachSegment
  cases hseg : m.segments[shmid]? with
  | none =>
    by_cases hid : shmid = id
    · rw [← hid, hseg, Option.map_none]
    · simp [hid]
  | some seg =>
    by_cases hatt : seg.isAttached pid
    · simp only [ShmSegment.detachProcess, if_pos hatt]
      by_cases hid : shmid = id
      · simp [← hid, hseg, hatt]
      · simp [hid]
    · simp only [ShmSegment.detachProcess, if_neg hatt]
      by_cases hid : shmid = id
      · simp [← hid, hseg, hatt]
      · simp [hid]

theorem isAttached_detached (seg : ShmSegment) (pid : Nat) : (seg.detached pid).isAttached pid = false := by
  simp [ShmSegment.isAttached, ShmSegment.detached]

theorem segments_foldl_detachSegment (pid : Nat) (m : ShmManager) (ids : List Int32) (id : Int32) :
    (ids.foldl (detachSegment pid) m).segments[id]? = (m.segments[id]?).map fun seg =>
      if id ∈ ids ∧ seg.isAttached pid then seg.detached pid else seg := by
  induction ids generalizing m with
  | nil => simp
  | cons shmid rest ih =>
    rw [foldl_cons, ih, segments_detachSegment, Option.map_map]
    congr 1
    funext seg
    by_cases hid : shmid = id
    · by_cases hatt : seg.isAttached pid
      · simp [hid, hatt, isAttached_detached]
      · simp [hatt]
    · simp [hid, Ne.symm hid]

@[simp]
theorem foldl_detachSegment_kept (pid : Nat) (m : ShmManager) (ids : List Int32) :
    (ids.foldl (detachSegment pid) m).pidShmidVaddr = m.pidShmidVaddr ∧
      (ids.foldl (detachSegment pid) m).index = m.index := by
  induction ids generalizing m with
  | nil => exact ⟨rfl, rfl⟩
  | cons id rest ih =>
    have hone : (detachSegment pid m id).pidShmidVaddr = m.pidShmidVaddr ∧
        (detachSegment pid m id).index = m.index := by
      unfold detachSegment
      split
      · exact ⟨rfl, rfl⟩
      · split <;> exact ⟨rfl, rfl⟩
    rw [foldl_cons, (ih _).1, (ih _).2]
    exact hone

theorem segments_detachProcess (m : ShmManager) (pid : Nat) (id : Int32) :
    (m.detachProcess pid).segments[id]? = ((m.segments[id]?).map fun seg =>
      if (m.vaddr pid id).isSome ∧ seg.isAttached pid then seg.detached pid else seg).filter fun seg => !seg.shouldRemove := by
  unfold detachProcess vaddr
  split
  next hno => simp [segments_cleanupOrphanedSegments, hno]
  next maps hmap =>
    rw [segments_cleanupOrphanedSegments, segments_foldl_detachSegment, hmap]
    simp only [TreeMap.mem_keys, TreeMap.mem_iff_isSome_getElem?, bind_some]

/-! #### Inheriting -/

theorem collectAttachments_ok {p c : Nat} {mappings : List (Int32 × Nat)}
    {atts : List InheritedAttachment} (h : m.collectAttachments p c mappings = .ok atts) :
    atts.map (fun a => (a.shmid, a.vaddr)) = mappings ∧ ∀ a ∈ atts, ∃ seg,
      m.segments[a.shmid]? = some seg ∧ seg.isAttached c = false ∧ seg.vaRange[p]? = some a.range := by
  induction mappings generalizing atts with
  | nil =>
    cases h
    exact ⟨rfl, by simp⟩
  | cons e rest ih =>
    unfold collectAttachments at h
    split at h
    · cases h
    next seg hseg =>
      split at h
      · cases h
      next hfh =>
        split at h
        · cases h
        next range hrg =>
          cases hr : m.collectAttachments p c rest with
          | error e =>
            rw [hr] at h
            cases h
          | ok others =>
            rw [hr] at h
            cases h
            obtain ⟨hmap, hall⟩ := ih hr
            refine ⟨by rw [List.map_cons, hmap], fun a ha => ?_⟩
            obtain rfl | ha := mem_cons.mp ha
            · exact ⟨seg, hseg, by simpa using hfh, hrg⟩
            · exact hall a ha

/-- Nothing has to be taken back. -/
theorem attachEach_ok (attached atts : List InheritedAttachment) (m : ShmManager)
    (hdi : (atts.map (·.shmid)).Nodup)
    (hfh : ∀ a ∈ atts, ∃ seg, m.segments[a.shmid]? = some seg ∧ seg.isAttached c = false) :
    ∃ m', attachEach c attached m atts = (m', .ok ()) ∧ m' = {m with segments := m'.segments} ∧
      (∀ id, id ∉ atts.map (·.shmid) → m'.segments[id]? = m.segments[id]?) ∧
      ∀ a ∈ atts, m'.segments[a.shmid]? = (m.segments[a.shmid]?).map (·.attached c a.range) := by
  induction atts generalizing attached m with
  | nil => exact ⟨m, rfl, rfl, fun _ _ => rfl, by simp⟩
  | cons a rest ih =>
    obtain ⟨hhd, hr⟩ := List.nodup_cons.mp hdi
    obtain ⟨seg, hseg, hfr⟩ := hfh a (.head _)
    have ho : ∀ b ∈ rest, a.shmid ≠ b.shmid := fun b hb heq =>
      hhd (mem_map.mpr ⟨b, hb, heq.symm⟩)
    obtain ⟨m', hrun, hm, heq, hdo⟩ := ih (a :: attached)
      (m.setSegment a.shmid (seg.attached c a.range)) hr fun b hb => by
        rw [segments_setSegment, if_neg (ho b hb)]
        exact hfh b (.tail _ hb)
    refine ⟨m', ?_, hm, fun id hid => ?_, fun b hb => ?_⟩
    · rw [attachEach, hseg]
      simp only [ShmSegment.attachProcess, hfr]
      exact hrun
    · rw [List.map_cons, mem_cons, not_or] at hid
      rw [heq id hid.2, segments_setSegment, if_neg (Ne.symm hid.1)]
    · obtain rfl | hb := mem_cons.mp hb
      · rw [heq _ hhd, segments_setSegment, if_pos rfl, hseg, Option.map_some]
      · rw [hdo b hb, segments_setSegment, if_neg (ho b hb)]

/-- The child has what the parent has, at the same places. -/
structure Inherited (parent child : Nat) (m m' : ShmManager) : Prop where
  index : m'.index = m.index
  nextIpcid : m'.nextIpcid = m.nextIpcid
  fresh : m.pidShmidVaddr[child]? = none
  others : ∀ pid : Nat, pid ≠ child → m'.pidShmidVaddr[pid]? = m.pidShmidVaddr[pid]?
  paired : ∀ map, m'.pidShmidVaddr[child]? = some map → map.Paired
  vaddr : ∀ id, m'.vaddr child id = m.vaddr parent id
  attached : ∀ id address, m.vaddr parent id = some address → ∃ segment range, m.segments[id]? = some segment ∧
    segment.isAttached child = false ∧ segment.vaRange[parent]? = some range ∧
    m'.segments[id]? = some (segment.attached child range)
  kept : ∀ id : Int32, m.vaddr parent id = none → m'.segments[id]? = m.segments[id]?

open ShmManager (vaddr)

theorem inheritProcess_cases {p : Nat} (hpd : ∀ map, m.pidShmidVaddr[p]? = some map → map.Paired) :
    (∃ e, m.inheritProcess p c = (m, .error e) ∧ (m.pidShmidVaddr.contains c ∨
      ∃ map, m.pidShmidVaddr[p]? = some map ∧ m.collectAttachments p c map.forward.toList = .error e)) ∨
      ∃ m', m.inheritProcess p c = (m', .ok ()) ∧ Inherited p c m m' := by
  unfold inheritProcess
  split
  next hch =>
    exact .inl ⟨_, rfl, .inl hch⟩
  next hch =>
    have hfh : m.pidShmidVaddr[c]? = none := by
      rwa [TreeMap.contains_eq_isSome_getElem?, Option.not_isSome_iff_eq_none] at hch
    split
    next hpar =>
      refine .inr ⟨m, rfl, rfl, rfl, hfh, fun _ _ => rfl, ?_, fun id => ?_, fun id addr had => ?_, fun _ _ => rfl⟩
      · intro map hmap
        rw [hfh] at hmap
        cases hmap
      · rw [vaddr, vaddr, hfh, hpar]
      · rw [vaddr, hpar] at had
        cases had
    next mappings hpar =>
      split
      next e hfl =>
        exact .inl ⟨_, rfl, .inr ⟨mappings, hpar, hfl⟩⟩
      next attachments hco =>
        obtain ⟨hmap, hall⟩ := collectAttachments_ok hco
        have hids : attachments.map (·.shmid) = mappings.forward.keys := by
          rw [← TreeMap.map_fst_toList_eq_keys, ← hmap, List.map_map]
          rfl
        obtain ⟨m', hrun, hm, hke, hatt⟩ := attachEach_ok c [] attachments m
          (hids ▸ TreeMap.nodup_keys) fun a ha => by
            obtain ⟨seg, hseg, hfr, -⟩ := hall a ha
            exact ⟨seg, hseg, hfr⟩
        have hcp : attachments.foldl (fun map a => map.insert a.shmid a.vaddr) BiBTreeMap.new =
            mappings.forward.toList.foldl (fun map e => map.insert e.1 e.2) .new := by
          rw [← hmap, List.foldl_map]
        obtain ⟨hpa, heq⟩ := (hpd mappings hpar).copy
        have hvd : ∀ id, m.vaddr p id = mappings.forward[id]? := by
          intro id
          rw [vaddr_of hpar]
        rw [hrun]
        refine .inr ⟨_, rfl, by rw [hm], by rw [hm], hfh, fun pid hpid => ?_, fun map hf => ?_, fun id => ?_,
          fun id addr had => ?_, fun id hno => ?_⟩
        · rw [hm]
          simp [getElem?_insert, Ne.symm hpid]
        · simp only [TreeMap.getElem?_insert_self, some.injEq] at hf
          rw [← hf, hcp]
          exact hpa
        · rw [hvd, vaddr, TreeMap.getElem?_insert_self, hcp]
          exact heq id
        · rw [hvd] at had
          have hmem : (id, addr) ∈ attachments.map fun a => (a.shmid, a.vaddr) := by
            rw [hmap]
            exact mem_toList_iff_getElem?_eq_some.mpr had
          obtain ⟨a, ha, hpr⟩ := mem_map.mp hmem
          cases hpr
          obtain ⟨seg, hseg, hfr, hrg⟩ := hall a ha
          exact ⟨seg, a.range, hseg, hfr, hrg, by rw [hatt a ha, hseg]; rfl⟩
        · apply hke id
          rw [hids, TreeMap.mem_keys, TreeMap.mem_iff_isSome_getElem?, ← hvd, hno]
          exact Bool.false_ne_true

/-- The tables and the segments tell the same attachments. -/
structure Agrees (m : ShmManager) : Prop where
  paired : ∀ (pid : Nat) map, m.pidShmidVaddr[pid]? = some map → map.Paired
  recorded : ∀ id pid, (m.attachment id pid).map (·.start) = m.vaddr pid id

theorem collectAttachments_isOk (m : ShmManager) (p c : Nat) (mappings : List (Int32 × Nat))
    (h : ∀ e ∈ mappings, m.attachment e.1 c = none ∧ ∃ r, m.attachment e.1 p = some r) :
    ∃ atts, m.collectAttachments p c mappings = .ok atts := by
  induction mappings with
  | nil => exact ⟨[], rfl⟩
  | cons e rest ih =>
    obtain ⟨⟨hc, r, hp⟩, hr⟩ := List.forall_mem_cons.mp h
    obtain ⟨seg, hseg, hrg⟩ := attachment_eq_some.mp hp
    obtain ⟨others, hot⟩ := ih hr
    have hfr : c ∉ seg.vaRange := by simpa [attachment, hseg] using hc
    exact ⟨⟨e.1, e.2, r⟩ :: others,
      by simp [collectAttachments, hseg, ShmSegment.isAttached, hfr, hrg, hot, Except.map]⟩

/-- A fork gives the child all that the parent has attached and counts it, or it changes nothing. -/
def Atomic (m : ShmManager) (parent child : Nat) : Prop :=
  match m.inheritProcess parent child with
  | (m', .error _) => m' = m
  | (m', .ok ()) => Inherited parent child m m' ∧ ∀ (id : Int32) segment, m.segments[id]? = some segment →
    segment.isAttached parent = true → ∀ segment', m'.segments[id]? = some segment' →
    segment'.shmidDs.nattch.toNat = segment.shmidDs.nattch.toNat + 1

/-- Where tables and segments agree, a fork fails only over a child that is there already. -/
theorem Agrees.inheritProcess_cases (h : m.Agrees) (p c : Nat) :
    m.pidShmidVaddr.contains c = true ∧ (∃ e, m.inheritProcess p c = (m, .error e)) ∨
      m.pidShmidVaddr.contains c = false ∧ ∃ m', m.inheritProcess p c = (m', .ok ()) ∧ Inherited p c m m' := by
  obtain ⟨e, hfl, hchild | ⟨map, hmap, hcollect⟩⟩ | ⟨m', hd, hinh⟩ := ShmManager.inheritProcess_cases c (h.paired p)
  · exact .inl ⟨hchild, e, hfl⟩
  · refine .inl ⟨by_contra fun hchild => ?_, e, hfl⟩
    obtain ⟨_, hok⟩ := m.collectAttachments_isOk p c map.forward.toList fun e he => by
      have hpar := h.recorded e.1 p
      have hc := h.recorded e.1 c
      rw [vaddr_of hmap, mem_toList_iff_getElem?_eq_some.mp he] at hpar
      rw [TreeMap.contains_eq_isSome_getElem?, Option.not_isSome_iff_eq_none] at hchild
      rw [vaddr, hchild] at hc
      obtain ⟨range, hr, -⟩ := Option.map_eq_some_iff.mp hpar
      exact ⟨Option.map_eq_none_iff.mp hc, range, hr⟩
    cases hcollect.symm.trans hok
  · exact .inr ⟨by simp [TreeMap.contains_eq_isSome_getElem?, hinh.fresh], m', hd, hinh⟩

/-- **Attachments are inherited atomically** just when the child is there already or no count is at its end. -/
theorem inheritProcess_atomic_iff (h : m.Agrees) (parent child : Nat) : m.Atomic parent child ↔
    m.pidShmidVaddr.contains child = true ∨ ∀ (id : Int32) segment, m.segments[id]? = some segment →
      segment.isAttached parent = true → segment.shmidDs.nattch ≠ 65535 := by
  unfold Atomic
  obtain ⟨hchild, e, hfl⟩ | ⟨hchild, m', hd, hinh⟩ := h.inheritProcess_cases parent child
  · simp [hfl, hchild]
  · simp only [hd, hinh, true_and, hchild, Bool.false_eq_true, false_or]
    refine forall₄_congr fun id segment hseg hatt => ?_
    have hvd := h.recorded id parent
    rw [attachment_of hseg] at hvd
    obtain ⟨range, hr⟩ := Option.isSome_iff_exists.mp (TreeMap.contains_eq_isSome_getElem?.symm.trans hatt)
    rw [hr] at hvd
    obtain ⟨segment', range', hseg', -, -, ha⟩ := hinh.attached id _ hvd.symm
    cases hseg.symm.trans hseg'
    have hlt := segment.shmidDs.nattch.toNat_lt
    simp only [ha, some.injEq, forall_eq', ShmSegment.attached, UInt16.toNat_add, ne_eq, ← UInt16.toNat_inj,
      UInt16.toNat_ofNat]
    omega

/-- One page that process 1 has. -/
def onePageOf (id : Int32) (start : Nat) (nattch : UInt16) : ShmSegment :=
  ⟨id, 1, TreeMap.insert ∅ 1 (.fromStartSize start 4096), none, false, 0, ⟨0, 0, 1, nattch⟩, 0⟩

/-- Process 1 has two segments, the first of which counts `nattch`. -/
def twoAttached (nattch : UInt16) : ShmManager where
  index := ∅
  segments := (TreeMap.insert ∅ 0 (onePageOf 0 4096 nattch)).insert 1 (onePageOf 1 8192 1)
  pidShmidVaddr := TreeMap.insert ∅ 1 ((BiBTreeMap.new.insert 0 4096).insert 1 8192)
  nextIpcid := 2

theorem agrees_twoAttached (nattch : UInt16) : (twoAttached nattch).Agrees where
  paired pid map hmap := by
    simp only [twoAttached, getElem?_insert] at hmap
    split at hmap
    · cases hmap
      exact (BiBTreeMap.paired_new.insert rfl rfl).insert rfl rfl
    · cases hmap
  recorded id pid := by
    have hrange : ∀ id start count, (onePageOf id start count).vaRange[pid]? =
        if 1 = pid then some (.fromStartSize start 4096) else none := by
      intro id start count
      simp [onePageOf, getElem?_insert]
    have htable : (((BiBTreeMap.new : BiBTreeMap Int32 Nat).insert 0 4096).insert 1 8192).forward[id]? =
        if 1 = id then some 8192 else if 0 = id then some 4096 else none := by
      rw [BiBTreeMap.insert_fresh rfl rfl, BiBTreeMap.insert_fresh rfl rfl]
      simp [getElem?_insert, BiBTreeMap.new]
    rw [attachment, vaddr]
    simp only [twoAttached, getElem?_insert, Std.compare_eq_iff_eq]
    by_cases hpid : 1 = pid
    · rw [if_pos hpid, bind_some, htable]
      split
      · rw [bind_some, hrange, if_pos hpid]
        rfl
      · split
        · rw [bind_some, hrange, if_pos hpid]
          rfl
        · rfl
    · rw [if_neg hpid]
      split
      · rw [bind_some, hrange, if_neg hpid]
        rfl
      · split
        · rw [bind_some, hrange, if_neg hpid]
          rfl
        · rfl

theorem inheritProcess_atomic_two : (twoAttached 1).Atomic 1 2 := by
  refine (inheritProcess_atomic_iff (agrees_twoAttached 1) 1 2).mpr (.inr fun id segment hseg _ => ?_)
  simp only [twoAttached, getElem?_insert] at hseg
  split at hseg
  · cases hseg
    decide
  · split at hseg <;> cases hseg
    decide

theorem inheritProcess_wraps : (twoAttached 65535).Agrees ∧ ¬ (twoAttached 65535).Atomic 1 2 := by
  refine ⟨agrees_twoAttached _, fun h => ?_⟩
  exact absurd (h.2 0 _ rfl rfl _ rfl) (by decide)

end ShmManager

end StarryX.Ipc.SharedMemory
