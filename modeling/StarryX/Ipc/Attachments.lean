import StarryX.Ipc.SharedMemory

/-! The books of shared memory, and which steps keep them.

`Books` says that the count of a segment, its map of processes, the tables of the processes and
their address spaces agree, and that no removed segment is kept without need. `Fine` says of a
step what it must not do: overwrite the count (`IPC_SET`), mark a segment that nobody has attached
(`IPC_RMID`), take attached memory away behind the books (`munmap`, `exec`, and what a process does
to a space that it shares), take the id of an attached segment, or count past 65535. `books_iff`: the
books are right all along a run just when each of its steps is fine. -/
namespace StarryX.Ipc.SharedMemory
open Library Std Function
open Vma (VirtAddrRange)
open Option (bind_none getD_some ite_none_left_eq_some map_eq_none_iff map_eq_some_iff map_some some.inj)
open ShmManager (attachment attachment_eq_some attachment_of detachProcess pidShmidVaddr_cleanupOrphanedSegments removeShmaddr segments_setSegment vaddr vaddr_of)
open TreeMap (getElem?_emptyc getElem?_erase getElem?_insert)

/-! ### The books -/

namespace Shm

/-- The process has the object at the range, from its beginning on. -/
def Maps (s : Shm) (pid : Nat) (object : Option Nat) (range : VirtAddrRange) : Prop :=
  ∃ space id, s.spaceOf pid = some space ∧ object = some id ∧ ∀ address, range.contains address = true →
    s.sharedObjectAt space address = some (id, address - range.start)

structure Books (s : Shm) : Prop where
  counted : ∀ (id : Int32) segment, s.manager.segments[id]? = some segment → segment.shmidDs.nattch.toNat = segment.vaRange.size
  recorded : ∀ id pid, (s.manager.attachment id pid).map (·.start) = s.manager.vaddr pid id
  mapped : ∀ (id : Int32) segment (pid : Nat) range, s.manager.segments[id]? = some segment → segment.vaRange[pid]? = some range →
    s.Maps pid segment.object range
  swept : ∀ (id : Int32) segment, s.manager.segments[id]? = some segment → segment.rmid = true → segment.vaRange.size ≠ 0

/-- What is so besides, in states with right books. -/
structure Sane (s : Shm) : Prop where
  named : ∀ (id : Int32) segment, s.manager.segments[id]? = some segment → segment.shmid = id
  nonempty : ∀ (id : Int32) segment, s.manager.segments[id]? = some segment → 0 < segment.pageNum
  sized : ∀ (id : Int32) segment (pid : Nat) range, s.manager.segments[id]? = some segment → segment.vaRange[pid]? = some range →
    range.stop = range.start + segment.pageNum * pageSize4K
  paired : ∀ (pid : Nat) map, s.manager.pidShmidVaddr[pid]? = some map → map.Paired
  objects : ∀ (id : Int32) segment object, s.manager.segments[id]? = some segment → segment.object = some object →
    object < s.nextObject
  distinct : ∀ (id : Int32) segment (id' : Int32) segment' object, s.manager.segments[id]? = some segment →
    s.manager.segments[id']? = some segment' → segment.object = some object → segment'.object = some object → id = id'
  spaces : ∀ pid space, s.spaceOf pid = some space → space < s.nextSpace

/-- Nothing that these processes have attached in the space lies at the addresses. -/
def Spared (s : Shm) (space : Nat) (who gone : Nat → Prop) : Prop :=
  ∀ pid id range, who pid → s.spaceOf pid = some space → s.manager.attachment id pid = some range →
    ∀ address, range.contains address = true → ¬ gone address

/-- The most attachments that the count can tell. -/
def maxAttached : Nat := 2 ^ 16 - 1

/-- What a step must not do to the books. -/
def Fine : ShmLabel → Shm → Prop
  | .shmget key size _, s => s.manager.Creates key size →
    ∀ old, s.manager.segments[s.manager.nextIpcid]? = some old → old.vaRange.size = 0
  | .shmat pid shmid candidate fails, s => ∀ space start segment, s.spaceOf pid = some space → candidate = some start →
    fails = none → s.manager.segments[shmid]? = some segment → segment.isAttached pid = false →
    (∀ i, i < segment.pageNum * pageSize4K → s.sharedObjectAt space (start + i) = none) →
    segment.vaRange.size < maxAttached
  | .shmdt pid shmaddr fails, s => ∀ space id range, s.spaceOf pid = some space → fails = none →
    s.manager.vaddr pid id = some shmaddr → s.manager.attachment id pid = some range →
    s.Spared space (· ≠ pid) (range.contains · = true)
  | .ipcSet shmid info, s => ∀ segment, s.manager.segments[shmid]? = some segment →
    info.nattch.toNat = segment.vaRange.size
  | .ipcStat _, _ => True
  | .ipcRmid shmid, s => ∀ segment, s.manager.segments[shmid]? = some segment → segment.vaRange.size ≠ 0
  | .fork parent child _, s => (s.spaceOf parent).isSome = true → s.spaceOf child = none →
    s.manager.pidShmidVaddr.contains child = false → ∀ (id : Int32) segment, s.manager.segments[id]? = some segment →
    segment.isAttached parent = true → segment.vaRange.size < maxAttached
  | .exec pid, s => ∀ space, s.spaceOf pid = some space → s.Spared space (fun _ => True) fun _ => True
  | .munmap pid range, s => ∀ space, s.spaceOf pid = some space →
    s.Spared space (fun _ => True) (range.contains · = true)
  | .exit pid unmapped, s => ∀ space, s.spaceOf pid = some space → unmapped = true →
    s.Spared space (· ≠ pid) fun _ => True

end Shm

/-! ### Segments -/

namespace ShmSegment
variable (seg : ShmSegment) (pid pid' : Nat) (r : VirtAddrRange)

theorem isAttached_eq : seg.isAttached pid = (seg.vaRange[pid]?).isSome :=
  TreeMap.contains_eq_isSome_getElem?

@[simp]
theorem vaRange_attached :
    (seg.attached pid r).vaRange[pid']? = if pid = pid' then some r else seg.vaRange[pid']? := by
  simp [attached, getElem?_insert]

@[simp]
theorem vaRange_detached :
    (seg.detached pid).vaRange[pid']? = if pid = pid' then none else seg.vaRange[pid']? := by
  simp [detached, getElem?_erase]

variable {seg pid}

theorem size_attached (h : seg.isAttached pid = false) :
    (seg.attached pid r).vaRange.size = seg.vaRange.size + 1 := by
  rw [isAttached] at h
  simp [attached, TreeMap.size_insert, h]

theorem none_of_size_zero (h : seg.vaRange.size = 0) (pid : Nat) : seg.vaRange[pid]? = none := by
  by_contra hso
  exact size_pos (by rw [isAttached_eq, Option.isSome_iff_ne_none]; exact hso) h

section
variable (hct : seg.shmidDs.nattch.toNat = seg.vaRange.size)
include hct

/-- Counting one more is right if the count does not wrap. -/
theorem counted_attached_iff (h : seg.isAttached pid = false) :
    (seg.attached pid r).shmidDs.nattch.toNat = (seg.attached pid r).vaRange.size ↔
      seg.vaRange.size < Shm.maxAttached := by
  have hc : (seg.attached pid r).shmidDs.nattch.toNat = (seg.shmidDs.nattch.toNat + 1) % 2 ^ 16 :=
    UInt16.toNat_add _ _
  have hb := seg.shmidDs.nattch.toNat_lt
  rw [size_attached r h, Shm.maxAttached]
  omega

theorem counted_detached (h : seg.isAttached pid) :
    (seg.detached pid).shmidDs.nattch.toNat = (seg.detached pid).vaRange.size := by
  have hpos := size_pos h
  have hne : seg.shmidDs.nattch ≠ 0 := by
    intro hz
    rw [hz] at hct
    exact hpos hct.symm
  have hone : 1 ≤ seg.shmidDs.nattch := by
    rw [UInt16.le_iff_toNat_le, hct]
    exact Nat.one_le_iff_ne_zero.mpr hpos
  rw [size_detached h, ← hct]
  show (if seg.shmidDs.nattch = 0 then 0 else seg.shmidDs.nattch - 1).toNat = _
  rw [if_neg hne, UInt16.toNat_sub_of_le _ _ hone]
  rfl

end

end ShmSegment

namespace Shm
variable {s s' : Shm} {id : Int32} {seg new : ShmSegment} {r : VirtAddrRange} {obj : Option Nat} {l : ShmLabel}
  {pid pid' : Nat} (old : ShmSegment)

structure Inv (s : Shm) : Prop where
  books : s.Books
  sane : s.Sane

/-- What the books say of one segment. -/
structure Good (s : Shm) (segment : ShmSegment) : Prop where
  counted : segment.shmidDs.nattch.toNat = segment.vaRange.size
  mapped : ∀ (pid : Nat) range, segment.vaRange[pid]? = some range → s.Maps pid segment.object range
  swept : segment.rmid = true → segment.vaRange.size ≠ 0

theorem Books.good (h : s.Books) (hseg : s.manager.segments[id]? = some seg) : s.Good seg :=
  ⟨h.counted id seg hseg, fun pid r => h.mapped id seg pid r hseg, h.swept id seg hseg⟩

theorem Books.of_good (hg : ∀ (id : Int32) seg, s.manager.segments[id]? = some seg → s.Good seg)
    (hrec : ∀ id pid, (s.manager.attachment id pid).map (·.start) = s.manager.vaddr pid id) : s.Books :=
  ⟨fun id seg h => (hg id seg h).counted, hrec, fun id seg pid r h => (hg id seg h).mapped pid r,
    fun id seg h => (hg id seg h).swept⟩

open ShmManager (segments_removeShmaddr)
open ShmSegment (counted_attached_iff counted_detached isAttached_eq none_of_size_zero shouldRemove size_attached vaRange_attached vaRange_detached)

theorem Books.isAttached_iff (h : s.Books) (hseg : s.manager.segments[id]? = some seg) :
    seg.isAttached pid ↔ ∃ addr, s.manager.vaddr pid id = some addr := by
  rw [isAttached_eq, ← h.recorded, attachment_of hseg]
  cases seg.vaRange[pid]? <;> simp

/-- The step is fine just when the books are right after it, and the rest of the invariant stays. -/
def Keeps (label : ShmLabel) (s t : Shm) : Prop := (t.Books ↔ Fine label s) ∧ t.Sane

theorem Inv.stay (h : s.Inv) (hfi : Fine l s) : Keeps l s s := ⟨iff_of_true h.books hfi, h.sane⟩

/-! ### Segments that stay -/

/-- The segment is an older one, with ranges that it had. -/
structure From (new old : ShmSegment) : Prop where
  shmid : new.shmid = old.shmid
  pageNum : new.pageNum = old.pageNum
  object : new.object = old.object
  ranges : ∀ (pid : Nat) range, new.vaRange[pid]? = some range → ∃ pid' : Nat, old.vaRange[pid']? = some range

theorem From.refl (seg : ShmSegment) : From seg seg := ⟨rfl, rfl, rfl, fun pid _ h => ⟨pid, h⟩⟩

theorem from_detached (pid : Nat) : From (old.detached pid) old := by
  refine ⟨rfl, rfl, rfl, fun pid' r hr => ⟨pid', ?_⟩⟩
  rw [vaRange_detached] at hr
  exact (ite_none_left_eq_some.mp hr).2

theorem from_attached {old : ShmSegment} {p : Nat} (c : Nat)
    (h : old.vaRange[p]? = some r) : From (old.attached c r) old := by
  refine ⟨rfl, rfl, rfl, fun pid range' hr => ?_⟩
  rw [vaRange_attached] at hr
  split at hr
  · exact ⟨p, h.trans hr⟩
  · exact ⟨pid, hr⟩

theorem Sane.of_from (h : s.Sane) (hfm : ∀ (id : Int32) new, s'.manager.segments[id]? = some new →
      ∃ old, s.manager.segments[id]? = some old ∧ From new old)
    (hpd : ∀ (pid : Nat) map, s'.manager.pidShmidVaddr[pid]? = some map → map.Paired)
    (hob : s'.nextObject = s.nextObject)
    (hsps : ∀ pid sp, s'.spaceOf pid = some sp → sp < s'.nextSpace) : s'.Sane where
  named := by
    intro id new hnew
    obtain ⟨old, hold, heq⟩ := hfm id new hnew
    rw [heq.shmid]
    exact h.named id old hold
  nonempty := by
    intro id new hnew
    obtain ⟨old, hold, heq⟩ := hfm id new hnew
    rw [heq.pageNum]
    exact h.nonempty id old hold
  sized := by
    intro id new pid r hnew hr
    obtain ⟨old, hold, heq⟩ := hfm id new hnew
    obtain ⟨pid', hra'⟩ := heq.ranges pid r hr
    rw [heq.pageNum]
    exact h.sized id old pid' r hold hra'
  paired := hpd
  objects := by
    intro id new obj hnew hobj
    obtain ⟨old, hold, heq⟩ := hfm id new hnew
    rw [hob]
    exact h.objects id old obj hold (heq.object ▸ hobj)
  distinct := by
    intro id new id' new' obj hnew hnew' hobj hobj'
    obtain ⟨old, hold, heq⟩ := hfm id new hnew
    obtain ⟨old', hold', hsa'⟩ := hfm id' new' hnew'
    exact h.distinct id old id' old' obj hold hold' (heq.object ▸ hobj) (hsa'.object ▸ hobj')
  spaces := hsps

/-! ### Address spaces -/

section Mapped
variable {sp : Nat} {at' : Nat → Option (Nat × Nat)} {gone : Nat → Prop} {pid : Nat} {obj : Option Nat}
  {r : VirtAddrRange}

/-- What is unmapped of a space takes away the attachments that it meets. -/
theorem maps_setMapped_iff (hgo : ∀ addr, gone addr → at' addr = none)
    (hk : ∀ addr, ¬ gone addr → at' addr = s.sharedObjectAt sp addr) (h : s.Maps pid obj r) :
    (s.setMapped sp at').Maps pid obj r ↔
      (s.spaceOf pid = some sp → ∀ addr, r.contains addr → ¬ gone addr) := by
  obtain ⟨own, id, hsp, hobj, hat⟩ := h
  constructor
  · intro hma heq addr hin hgs
    obtain ⟨own', id', hsp', -, hat'⟩ := hma
    cases hsp'.symm.trans heq
    have hfo := hat' addr hin
    simp [setMapped, hgo addr hgs] at hfo
  · intro hse
    refine ⟨own, id, hsp, hobj, fun addr hin => ?_⟩
    by_cases hown : own = sp
    · subst hown
      simp [setMapped, hk addr (hse hsp addr hin), hat addr hin]
    · simp [setMapped, update_of_ne hown, hat addr hin]

theorem Inv.keeps_unmap (h : s.Inv) (hgo : ∀ addr, gone addr → at' addr = none)
    (hk : ∀ addr, ¬ gone addr → at' addr = s.sharedObjectAt sp addr)
    (hfi : Fine l s ↔ s.Spared sp (fun _ => True) gone) : Keeps l s (s.setMapped sp at') := by
  refine ⟨.trans ⟨?_, ?_⟩ hfi.symm,
    h.sane.of_from (fun _ new hnew => ⟨new, hnew, .refl new⟩) h.sane.paired rfl h.sane.spaces⟩
  · intro hbo pid id r _ hsp hatt
    obtain ⟨seg, hseg, hr⟩ := attachment_eq_some.mp hatt
    exact (maps_setMapped_iff hgo hk ((h.books.good hseg).mapped pid r hr)).mp
      (hbo.mapped id seg pid r hseg hr) hsp
  · intro hse
    refine .of_good (fun id seg hseg => ?_) h.books.recorded
    have hg := h.books.good hseg
    refine ⟨hg.counted, fun pid r hr => ?_, hg.swept⟩
    apply (maps_setMapped_iff hgo hk (hg.mapped pid r hr)).mpr
    intro hsp
    exact hse pid id r trivial hsp (attachment_eq_some.mpr ⟨seg, hseg, hr⟩)

end Mapped

/-- The call of a process that has a space. -/
theorem Inv.keeps_call (h : s.Inv) {f : Nat → Shm}
    (hst : s.step l = (s.spaceOf pid).elim s f) (hn : s.spaceOf pid = none → Fine l s)
    (hso : ∀ sp, s.spaceOf pid = some sp → Keeps l s (f sp)) : Keeps l s (s.step l) := by
  rw [hst]
  cases hsp : s.spaceOf pid with
  | none => exact h.stay (hn hsp)
  | some sp => exact hso sp hsp

/-! ### `IPC_SET` and `IPC_RMID` -/

section Control
variable {shmid : Int32} {f : ShmSegment → ShmSegment}

/-- The step leaves the attachments of a segment alone. -/
structure Keeping (f : ShmSegment → ShmSegment) : Prop where
  shmid : ∀ segment, (f segment).shmid = segment.shmid
  pageNum : ∀ segment, (f segment).pageNum = segment.pageNum
  vaRange : ∀ segment, (f segment).vaRange = segment.vaRange
  object : ∀ segment, (f segment).object = segment.object

theorem attachment_modifySegment (hf : Keeping f) (id : Int32) (pid : Nat) :
    (s.modifySegment shmid f).manager.attachment id pid = s.manager.attachment id pid := by
  rw [attachment, segments_modifySegment]
  cases hseg : s.manager.segments[id]? with
  | none => simp [attachment, hseg]
  | some seg =>
    by_cases hid : shmid = id
    · simp [attachment, hseg, hid, hf.vaRange]
    · simp [attachment, hseg, hid]

/-- A segment of the new state comes from one of the old. -/
theorem modifySegment_before (h : (s.modifySegment shmid f).manager.segments[id]? = some seg) :
    ∃ old, s.manager.segments[id]? = some old ∧ seg = if shmid = id then f old else old := by
  rw [segments_modifySegment] at h
  obtain ⟨old, hold, rfl⟩ := map_eq_some_iff.mp h
  exact ⟨old, hold, rfl⟩

theorem Inv.keeps_modifySegment (h : s.Inv) (hf : Keeping f) (hfi : Fine l s ↔
      ∀ seg, s.manager.segments[shmid]? = some seg →
        (f seg).shmidDs.nattch.toNat = seg.vaRange.size ∧ ((f seg).rmid → seg.vaRange.size ≠ 0)) :
    Keeps l s (s.modifySegment shmid f) := by
  refine ⟨.trans ⟨?_, ?_⟩ hfi.symm, h.sane.of_from (fun id new hnew => ?_) h.sane.paired rfl h.sane.spaces⟩
  · intro hbo seg hseg
    have hnew : (s.modifySegment shmid f).manager.segments[shmid]? = some (f seg) := by
      rw [segments_modifySegment, hseg, map_some, if_pos rfl]
    have hg := hbo.good hnew
    rw [← hf.vaRange]
    exact ⟨hg.counted, hg.swept⟩
  · intro hone
    refine .of_good (fun id new hnew => ?_) fun id pid => ?_
    swap
    · rw [attachment_modifySegment hf]
      exact h.books.recorded id pid
    obtain ⟨old, hold, rfl⟩ := modifySegment_before hnew
    split_ifs with hid
    · obtain ⟨hct, hsw⟩ := hone old (hid ▸ hold)
      refine ⟨hf.vaRange old ▸ hct, fun pid r hr => ?_, hf.vaRange old ▸ hsw⟩
      rw [hf.vaRange] at hr
      rw [hf.object]
      exact h.books.mapped id old pid r hold hr
    · have hg := h.books.good hold
      exact {hg with}
  · obtain ⟨old, hold, rfl⟩ := modifySegment_before hnew
    refine ⟨old, hold, ?_⟩
    split
    · exact ⟨hf.shmid old, hf.pageNum old, hf.object old, fun pid r hr => ⟨pid, by rwa [hf.vaRange] at hr⟩⟩
    · exact .refl old

theorem Inv.keeps_ipcRmid (h : s.Inv) (shmid : Int32) : Keeps (.ipcRmid shmid) s (s.step (.ipcRmid shmid)) := by
  refine h.keeps_modifySegment (f := fun seg => {seg with rmid := true})
    ⟨fun _ => rfl, fun _ => rfl, fun _ => rfl, fun _ => rfl⟩ ?_
  refine forall_congr' fun seg => forall_congr' fun hseg => ?_
  rw [and_iff_right (h.books.counted shmid seg hseg)]
  exact ⟨fun h _ => h, fun h => h rfl⟩

end Control

/-! ### Detaching -/

open Option (bind_some filter some)

section Detach
variable {m : ShmManager} {pid : Nat}

/-- `detach_process` goes by the table of the process, which has just its attachments. -/
theorem segments_detachProcess (hrec : ∀ id, (m.attachment id pid).map (·.start) = m.vaddr pid id) (id : Int32) :
    (m.detachProcess pid).segments[id]? = ((m.segments[id]?).map fun seg =>
      if seg.isAttached pid then seg.detached pid else seg).filter fun seg => !seg.shouldRemove := by
  rw [ShmManager.segments_detachProcess]
  cases hseg : m.segments[id]? with
  | none => rfl
  | some seg =>
    have hatt : seg.isAttached pid = (m.vaddr pid id).isSome := by
      rw [isAttached_eq, ← hrec, attachment_of hseg, Option.isSome_map]
    simp [hatt]

theorem vaddr_detachProcess (m : ShmManager) (pid pid' : Nat) (id : Int32) :
    (m.detachProcess pid).vaddr pid' id = if pid = pid' then none else m.vaddr pid' id := by
  unfold detachProcess vaddr
  cases hmap : m.pidShmidVaddr[pid]? with
  | none =>
    rw [pidShmidVaddr_cleanupOrphanedSegments]
    by_cases hpid : pid = pid'
    · simp [← hpid, hmap]
    · simp [hpid]
  | some maps =>
    simp only [pidShmidVaddr_cleanupOrphanedSegments, (ShmManager.foldl_detachSegment_kept _ _ _).1,
      getElem?_erase]
    by_cases hpid : pid = pid'
    · simp [hpid]
    · simp [hpid]

/-- A segment that is left comes from one that was there. -/
theorem detachProcess_before (hrec : ∀ id, (m.attachment id pid).map (·.start) = m.vaddr pid id)
    (h : (m.detachProcess pid).segments[id]? = some seg) :
    ∃ old, m.segments[id]? = some old ∧ seg.shouldRemove = false ∧
      seg = if old.isAttached pid then old.detached pid else old := by
  rw [segments_detachProcess hrec] at h
  obtain ⟨hmap, hk⟩ := Option.filter_eq_some_iff.mp h
  obtain ⟨old, hold, hnew⟩ := map_eq_some_iff.mp hmap
  exact ⟨old, hold, by simpa using hk, hnew.symm⟩

theorem vaRange_detachIf (pid pid' : Nat) :
    (if old.isAttached pid then old.detached pid else old).vaRange[pid']? =
      if pid = pid' then none else old.vaRange[pid']? := by
  split
  · exact vaRange_detached old pid pid'
  next hfr =>
    by_cases hpid : pid = pid'
    · rw [isAttached_eq, Option.not_isSome_iff_eq_none] at hfr
      rw [if_pos hpid, ← hpid, hfr]
    · rw [if_neg hpid]

/-- A segment that goes has no attachment left. -/
theorem vaRange_filter (seg : ShmSegment) (pid : Nat) :
    ((some seg).filter fun seg => !seg.shouldRemove).bind (·.vaRange[pid]?) = seg.vaRange[pid]? := by
  cases hrem : seg.shouldRemove with
  | false => rw [Option.filter_some_pos (by rw [hrem]; rfl), bind_some]
  | true =>
    rw [Option.filter_some_neg (by rw [hrem]; decide), bind_none]
    simp only [shouldRemove, Bool.and_eq_true, beq_iff_eq] at hrem
    rw [none_of_size_zero hrem.2]

theorem from_detachIf (pid : Nat) : From (if old.isAttached pid then old.detached pid else old) old := by
  split
  · exact from_detached old pid
  · exact .refl old

theorem attachment_detachProcess (hrec : ∀ id, (m.attachment id pid).map (·.start) = m.vaddr pid id) (id : Int32)
    (pid' : Nat) : (m.detachProcess pid).attachment id pid' = if pid = pid' then none else m.attachment id pid' := by
  rw [attachment, segments_detachProcess hrec, attachment]
  cases hseg : m.segments[id]? with
  | none => simp
  | some old => rw [map_some, bind_some, ← vaRange_detachIf, vaRange_filter]

theorem maps_doExit_iff {sp : Nat} {unmapped : Bool}
    (hne : pid' ≠ pid) (h : s.Maps pid' obj r) : (s.doExit pid sp unmapped).Maps pid' obj r ↔
      (unmapped → s.spaceOf pid' = some sp → ∀ addr, r.contains addr → ¬ True) := by
  have heq : ∀ t : Shm, (Maps {t with
      manager := t.manager.detachProcess pid
      spaceOf := update t.spaceOf pid none} pid' obj r ↔ t.Maps pid' obj r) := by
    intro t
    simp [Maps, update_of_ne hne]
  unfold doExit
  cases unmapped with
  | false =>
    rw [heq]
    exact iff_of_true h fun hfa => absurd hfa Bool.false_ne_true
  | true =>
    rw [if_pos rfl, heq, maps_setMapped_iff (fun _ _ => rfl) (fun _ hnot => absurd trivial hnot) h]
    exact ⟨fun h _ => h, fun h => h rfl⟩

theorem manager_doExit (s : Shm) (pid sp : Nat) (unmapped : Bool) :
    (s.doExit pid sp unmapped).manager = s.manager.detachProcess pid := by
  cases unmapped <;> rfl

theorem Inv.keeps_exit (h : s.Inv) (pid : Nat) (unmapped : Bool) :
    Keeps (.exit pid unmapped) s (s.step (.exit pid unmapped)) := by
  refine h.keeps_call rfl (fun hn => by simp [Fine, hn]) fun sp hsp => ⟨⟨?_, ?_⟩, ?_⟩
  · intro hbo space' hsp' hunm pid' id r hne hown hatt
    cases hsp.symm.trans hsp'
    obtain ⟨old, hold, hr⟩ := attachment_eq_some.mp hatt
    have ha : (s.doExit pid sp unmapped).manager.attachment id pid' = some r := by
      rw [manager_doExit, attachment_detachProcess (h.books.recorded · pid), if_neg (Ne.symm hne), hatt]
    obtain ⟨seg, hseg, hra'⟩ := attachment_eq_some.mp ha
    have hma := hbo.mapped id seg pid' r hseg hra'
    obtain ⟨old', hold', -, hnew⟩ := detachProcess_before (h.books.recorded · pid) (manager_doExit .. ▸ hseg)
    cases hold.symm.trans hold'
    rw [hnew, (from_detachIf old pid).object] at hma
    exact (maps_doExit_iff hne (h.books.mapped id old pid' r hold hr)).mp hma hunm hown
  · intro hfi
    refine .of_good (fun id seg hseg => ?_) fun id pid' => ?_
    · rw [manager_doExit] at hseg
      obtain ⟨old, hold, hk, rfl⟩ := detachProcess_before (h.books.recorded · pid) hseg
      refine ⟨?_, fun pid' r hr => ?_, fun hrm hz => ?_⟩
      · split_ifs with hatt
        · exact counted_detached (h.books.counted id old hold) hatt
        · exact h.books.counted id old hold
      · rw [vaRange_detachIf] at hr
        obtain ⟨hne, hr⟩ := ite_none_left_eq_some.mp hr
        rw [(from_detachIf old pid).object]
        apply (maps_doExit_iff (.symm hne) (h.books.mapped id old pid' r hold hr)).mpr
        intro hunm hown
        exact hfi sp hsp hunm pid' id r (.symm hne) hown (attachment_eq_some.mpr ⟨old, hold, hr⟩)
      · simp [shouldRemove, hrm, hz] at hk
    · rw [manager_doExit, attachment_detachProcess (h.books.recorded · pid), vaddr_detachProcess]
      split
      · rfl
      · exact h.books.recorded id pid'
  · refine h.sane.of_from (fun id new hnew => ?_) (fun pid' map hmap => ?_) ?_ fun pid' own hown => ?_
    · rw [manager_doExit] at hnew
      obtain ⟨old, hold, -, rfl⟩ := detachProcess_before (h.books.recorded · pid) hnew
      exact ⟨old, hold, from_detachIf old pid⟩
    · rw [manager_doExit, detachProcess] at hmap
      split at hmap
      · rw [pidShmidVaddr_cleanupOrphanedSegments] at hmap
        exact h.sane.paired pid' map hmap
      · rw [pidShmidVaddr_cleanupOrphanedSegments, (ShmManager.foldl_detachSegment_kept _ _ _).1,
          getElem?_erase] at hmap
        exact h.sane.paired pid' map (ite_none_left_eq_some.mp hmap).2
    · cases unmapped <;> rfl
    · have hsps : (s.doExit pid sp unmapped).spaceOf = update s.spaceOf pid none ∧
          (s.doExit pid sp unmapped).nextSpace = s.nextSpace := by
        cases unmapped <;> exact ⟨rfl, rfl⟩
      rw [hsps.1] at hown
      rw [hsps.2]
      obtain ⟨-, hn⟩ | ⟨-, hown⟩ := update_cases hown
      · cases hn
      · exact h.sane.spaces pid' own hown

end Detach

/-! ### `shmget` -/

section Get
variable {m : ShmManager} {key : Int32} {size shmflg : Nat}

theorem vaRange_new (key shmid : Int32) (size mappingFlags pid : Nat) :
    (ShmSegment.new key shmid size mappingFlags).vaRange[pid]? = none := getElem?_emptyc

theorem attachment_createSegment (m : ShmManager) (key : Int32) (size shmflg : Nat) (id : Int32) (pid : Nat) :
    (m.createSegment key size shmflg).attachment id pid = if m.nextIpcid = id then none else m.attachment id pid := by
  rw [attachment, ShmManager.segments_createSegment]
  split
  · exact vaRange_new _ _ _ _ _
  · rfl

theorem size_eq_zero (h : ∀ pid : Nat, seg.vaRange[pid]? = none) : seg.vaRange.size = 0 := by
  have he : seg.vaRange.isEmpty := by
    rw [TreeMap.isEmpty_iff_forall_contains]
    intro pid
    rw [TreeMap.contains_eq_isSome_getElem?, h]
    rfl
  simpa [TreeMap.isEmpty_eq_size_eq_zero] using he

/-- A segment after `shmget` is the new one or an old one. -/
theorem createSegment_before (h : (m.createSegment key size shmflg).segments[id]? = some seg) :
    (m.nextIpcid = id ∧ seg = .new key m.nextIpcid size (convertShmFlagsToMapping shmflg)) ∨
      m.segments[id]? = some seg := by
  rw [ShmManager.segments_createSegment] at h
  split_ifs at h with hid
  · exact .inl ⟨hid, (some.inj h).symm⟩
  · exact .inr h

theorem Books.createSegment_iff (h : s.Books) : Books {s with manager := s.manager.createSegment key size shmflg} ↔
    ∀ old, s.manager.segments[s.manager.nextIpcid]? = some old → old.vaRange.size = 0 := by
  constructor
  · intro hbo old hold
    apply size_eq_zero
    intro pid
    have hn := hbo.recorded s.manager.nextIpcid pid
    rw [attachment_createSegment, if_pos rfl] at hn
    have hrec := h.recorded s.manager.nextIpcid pid
    rw [attachment_of hold] at hrec
    exact map_eq_none_iff.mp (hrec.trans hn.symm)
  · intro hun
    refine .of_good (fun id seg hseg => ?_) fun id pid => ?_
    · obtain ⟨-, rfl⟩ | hold := createSegment_before hseg
      · refine ⟨rfl, fun pid r hr => ?_, fun h => by cases h⟩
        rw [vaRange_new] at hr
        cases hr
      · have hg := h.good hold
        exact {hg with}
    · rw [attachment_createSegment]
      split_ifs with hid
      · show none = s.manager.vaddr pid id
        rw [← h.recorded id pid, attachment, ← hid]
        cases hold : s.manager.segments[s.manager.nextIpcid]? with
        | none => rfl
        | some old => rw [bind_some, none_of_size_zero (hun old hold), Option.map_none]
      · exact h.recorded id pid

theorem Sane.createSegment (h : s.Sane) (hp : 0 < alignUp4k size / pageSize4K) :
    Sane {s with manager := s.manager.createSegment key size shmflg} := by
  refine ⟨fun id seg hseg => ?_, fun id seg hseg => ?_, fun id seg pid r hseg hr => ?_,
    h.paired, fun id seg obj hseg hobj => ?_,
    fun id seg id' seg' obj hseg hseg' hobj hobj' => ?_, h.spaces⟩
  · obtain ⟨hid, rfl⟩ | hold := createSegment_before hseg
    · exact hid
    · exact h.named id seg hold
  · obtain ⟨-, rfl⟩ | hold := createSegment_before hseg
    · exact hp
    · exact h.nonempty id seg hold
  · obtain ⟨-, rfl⟩ | hold := createSegment_before hseg
    · rw [vaRange_new] at hr
      cases hr
    · exact h.sized id seg pid r hold hr
  · obtain ⟨-, rfl⟩ | hold := createSegment_before hseg
    · cases hobj
    · exact h.objects id seg obj hold hobj
  · obtain ⟨-, rfl⟩ | hold := createSegment_before hseg
    · cases hobj
    · obtain ⟨-, rfl⟩ | hold' := createSegment_before hseg'
      · cases hobj'
      · exact h.distinct id seg id' seg' obj hold hold' hobj hobj'

theorem Inv.keeps_shmget (h : s.Inv) (key : Int32) (size shmflg : Nat) :
    Keeps (.shmget key size shmflg) s (s.step (.shmget key size shmflg)) := by
  show Keeps _ s {s with manager := (s.manager.sysShmget key size shmflg).1}
  obtain ⟨hno, _, heq, -⟩ | ⟨hcr, hmd⟩ := s.manager.sysShmget_cases key size shmflg
  · rw [heq]
    exact h.stay fun hcr => absurd hcr hno
  · rw [hmd]
    refine ⟨?_, h.sane.createSegment (ShmManager.pages_pos hcr.1)⟩
    rw [h.books.createSegment_iff, Fine, forall_prop_of_true hcr]

end Get

/-! ### `shmat` -/

section Attach
variable {pid sp start : Nat} {shmid : Int32} {seg : ShmSegment}

/-- The segment that `shmat` leaves behind. -/
def attachedSegment (s : Shm) (pid start : Nat) (segment : ShmSegment) : ShmSegment :=
  {segment with object := some (segment.object.getD s.nextObject)}.attached pid
    (.fromStartSize start (segment.pageNum * pageSize4K))

theorem segments_attachAt (s : Shm) (pid sp start : Nat) (shmid : Int32) (seg : ShmSegment) (id : Int32) :
    (s.attachAt pid sp shmid seg start).manager.segments[id]? =
      if shmid = id then some (s.attachedSegment pid start seg) else s.manager.segments[id]? :=
  segments_setSegment _ _ _ _

/-- A segment after `shmat` is the attached one or an old one. -/
theorem attachAt_before (h : (s.attachAt pid sp shmid seg start).manager.segments[id]? = some new) :
    (shmid = id ∧ new = s.attachedSegment pid start seg) ∨ s.manager.segments[id]? = some new := by
  rw [segments_attachAt] at h
  split_ifs at h with hid
  · exact .inl ⟨hid, (some.inj h).symm⟩
  · exact .inr h

/-- What was mapped still is: the new mapping lies where nothing was. -/
theorem Maps.attachAt (h : s.Maps pid' obj r)
    (hunm : ∀ i, i < seg.pageNum * pageSize4K → s.sharedObjectAt sp (start + i) = none) :
    (s.attachAt pid sp shmid seg start).Maps pid' obj r := by
  obtain ⟨own, id, hown, hobj, hat⟩ := h
  refine ⟨own, id, hown, hobj, fun addr hin => ?_⟩
  by_cases heq : own = sp
  · subst heq
    have hth := hat addr hin
    have hout : ¬ (VirtAddrRange.fromStartSize start (seg.pageNum * pageSize4K)).contains addr := by
      intro hins
      obtain ⟨hlow, hhi⟩ := VirtAddrRange.contains_iff.mp hins
      have hlow : start ≤ addr := hlow
      have hhi : addr < start + seg.pageNum * pageSize4K := hhi
      have hn := hunm (addr - start) (by omega)
      rw [Nat.add_sub_cancel' hlow, hth] at hn
      cases hn
    simp [Shm.attachAt, setMapped, mapRange, if_neg hout, hth]
  · simp [Shm.attachAt, setMapped, update_of_ne heq, hat addr hin]

variable (h : s.Inv) (hsp : s.spaceOf pid = some sp) (hseg : s.manager.segments[shmid]? = some seg)
  (hfr : seg.isAttached pid = false)
  (hunm : ∀ i, i < seg.pageNum * pageSize4K → s.sharedObjectAt sp (start + i) = none)

include hseg in
theorem attachment_attachAt (id : Int32) (pid' : Nat) :
    (s.attachAt pid sp shmid seg start).manager.attachment id pid' =
      if shmid = id ∧ pid = pid' then some (.fromStartSize start (seg.pageNum * pageSize4K))
      else s.manager.attachment id pid' := by
  rw [attachment, segments_attachAt]
  by_cases hid : shmid = id
  · subst hid
    rw [attachedSegment, attachment_of hseg]
    simp
  · rw [if_neg hid, if_neg fun h => hid h.1]
    rfl

include h hsp hseg hfr hunm

/-- A free address is not in the table. -/
theorem Inv.table_fresh : ((s.manager.pidShmidVaddr[pid]?).getD .new).Paired ∧
    ((s.manager.pidShmidVaddr[pid]?).getD .new).forward[shmid]? = none ∧
    ((s.manager.pidShmidVaddr[pid]?).getD .new).reverse[start]? = none := by
  cases hmap : s.manager.pidShmidVaddr[pid]? with
  | none => exact ⟨BiBTreeMap.paired_new, getElem?_emptyc, getElem?_emptyc⟩
  | some map =>
    have hpd := h.sane.paired pid map hmap
    have hvd := vaddr_of hmap
    refine ⟨hpd, ?_, ?_⟩
    · rw [isAttached_eq, Option.isSome_eq_false_iff, Option.isNone_iff_eq_none] at hfr
      rw [getD_some, ← hvd, ← h.books.recorded, attachment_of hseg, hfr]
      rfl
    · cases hrev : map.reverse[start]? with
      | none => exact hrev
      | some id =>
        -- Another segment would be mapped where the range is free.
        have hth : s.manager.vaddr pid id = some start := by
          rw [hvd]
          exact (hpd id start).mpr hrev
        rw [← h.books.recorded] at hth
        obtain ⟨r, hr, hsta⟩ := map_eq_some_iff.mp hth
        obtain ⟨o, ho, hr⟩ := attachment_eq_some.mp hr
        obtain ⟨own, obj, hown, -, hat⟩ := h.books.mapped id o pid r ho hr
        cases hsp.symm.trans hown
        have hst := h.sane.sized id o pid r ho hr
        have hp := h.sane.nonempty id o ho
        have hpa' := h.sane.nonempty shmid seg hseg
        have hfi := hat start (VirtAddrRange.contains_iff.mpr ⟨by omega, by rw [hst, pageSize4K]; omega⟩)
        have hn := hunm 0 (by rw [pageSize4K]; omega)
        rw [Nat.add_zero, hfi] at hn
        cases hn

theorem Inv.vaddr_attachAt (id : Int32) (pid' : Nat) : (s.attachAt pid sp shmid seg start).manager.vaddr pid' id =
    if shmid = id ∧ pid = pid' then some start else s.manager.vaddr pid' id := by
  obtain ⟨-, hkey, hval⟩ := h.table_fresh hsp hseg hfr hunm
  show ((s.manager.pidShmidVaddr.insert pid
    (((s.manager.pidShmidVaddr[pid]?).getD .new).insert seg.shmid start))[pid']?).bind (·.forward[id]?) = _
  rw [h.sane.named shmid seg hseg, BiBTreeMap.insert_fresh hkey hval]
  simp only [getElem?_insert, Std.compare_eq_iff_eq]
  by_cases hpid : pid = pid'
  · subst hpid
    rw [if_pos rfl, bind_some]
    simp only [getElem?_insert, Std.compare_eq_iff_eq, and_true]
    split
    · rfl
    · rw [vaddr]
      cases s.manager.pidShmidVaddr[pid]? with
      | none => exact getElem?_emptyc
      | some map => rfl
  · rw [if_neg hpid, if_neg fun h => hpid h.2]
    rfl

theorem Inv.good_attached (hb : seg.vaRange.size < maxAttached) :
    (s.attachAt pid sp shmid seg start).Good (s.attachedSegment pid start seg) := by
  have hg := h.books.good hseg
  refine ⟨(counted_attached_iff _ hg.counted hfr).mpr hb, fun pid' r hr => ?_, fun _ => ?_⟩
  · rw [attachedSegment, vaRange_attached] at hr
    split_ifs at hr with hpid
    · cases hr
      refine ⟨sp, _, hpid ▸ hsp, rfl, fun addr hin => ?_⟩
      simp [attachAt, setMapped, mapRange, if_pos hin]
    · have hma := hg.mapped pid' r hr
      have ⟨_, obj, _, hobj, _⟩ := hma
      have hk : (s.attachedSegment pid start seg).object = seg.object := by
        rw [hobj]
        show some (seg.object.getD s.nextObject) = _
        rw [hobj, getD_some]
      rw [hk]
      exact hma.attachAt hunm
  · have hsi : (s.attachedSegment pid start seg).vaRange.size = seg.vaRange.size + 1 :=
      size_attached _ hfr
    rw [hsi]
    exact Nat.succ_ne_zero _

theorem Inv.attachAt_iff : (s.attachAt pid sp shmid seg start).Books ↔ seg.vaRange.size < maxAttached := by
  constructor
  · intro hbo
    have hct := hbo.counted shmid (s.attachedSegment pid start seg) (by rw [segments_attachAt, if_pos rfl])
    exact (counted_attached_iff _ (h.books.counted shmid seg hseg) hfr).mp hct
  · intro hb
    refine .of_good (fun id new hnew => ?_) fun id pid' => ?_
    · obtain ⟨-, rfl⟩ | hold := attachAt_before hnew
      · exact h.good_attached hsp hseg hfr hunm hb
      · have hg := h.books.good hold
        exact {hg with mapped := fun pid' r hr => (hg.mapped pid' r hr).attachAt hunm}
    · rw [attachment_attachAt hseg, h.vaddr_attachAt hsp hseg hfr hunm]
      split
      · rfl
      · exact h.books.recorded id pid'

theorem Inv.sane_attachAt : (s.attachAt pid sp shmid seg start).Sane := by
  have hobj : ∀ id old obj, s.manager.segments[id]? = some old → old.object = some obj →
      seg.object.getD s.nextObject = obj → shmid = id := by
    intro id old obj hold hobj heq
    cases hmine : seg.object with
    | none =>
      rw [hmine] at heq
      exact absurd heq (h.sane.objects id old obj hold hobj).ne'
    | some mine =>
      rw [hmine] at heq
      exact h.sane.distinct shmid seg id old obj hseg hold (heq ▸ hmine) hobj
  refine ⟨fun id new hnew => ?_, fun id new hnew => ?_, fun id new pid' r hnew hr => ?_, fun pid' map hmap => ?_,
    fun id new obj hnew hno => ?_, fun id new id' new' obj hnew hnew' hno hne' => ?_,
    h.sane.spaces⟩
  · obtain ⟨hid, rfl⟩ | hold := attachAt_before hnew
    · exact (h.sane.named shmid seg hseg).trans hid
    · exact h.sane.named id new hold
  · obtain ⟨-, rfl⟩ | hold := attachAt_before hnew
    · exact h.sane.nonempty shmid seg hseg
    · exact h.sane.nonempty id new hold
  · obtain ⟨-, rfl⟩ | hold := attachAt_before hnew
    · rw [attachedSegment, vaRange_attached] at hr
      split at hr
      · cases hr
        rfl
      · exact h.sane.sized shmid seg pid' r hseg hr
    · exact h.sane.sized id new pid' r hold hr
  · obtain ⟨hpd, hkey, hval⟩ := h.table_fresh hsp hseg hfr hunm
    have hmap : (s.manager.pidShmidVaddr.insert pid
        (((s.manager.pidShmidVaddr[pid]?).getD .new).insert seg.shmid start))[pid']? = some map := hmap
    rw [getElem?_insert, h.sane.named shmid seg hseg] at hmap
    split at hmap
    · cases hmap
      exact hpd.insert hkey hval
    · exact h.sane.paired pid' map hmap
  · obtain ⟨-, rfl⟩ | hold := attachAt_before hnew
    · cases hno
      cases hmine : seg.object with
      | none => exact Nat.lt_succ_self _
      | some mine => exact Nat.lt_succ_of_lt (h.sane.objects shmid seg mine hseg hmine)
    · exact Nat.lt_succ_of_lt (h.sane.objects id new obj hold hno)
  · obtain ⟨hid, rfl⟩ | hold := attachAt_before hnew
    · obtain ⟨hid', -⟩ | hold' := attachAt_before hnew'
      · exact hid.symm.trans hid'
      · exact hid.symm.trans (hobj id' new' obj hold' hne' (some.inj hno))
    · obtain ⟨hid', rfl⟩ | hold' := attachAt_before hnew'
      · exact (hobj id new obj hold hno (some.inj hne')).symm.trans hid'
      · exact h.sane.distinct id new id' new' obj hold hold' hno hne'

omit hsp hseg hfr hunm

theorem Inv.keeps_shmat (pid : Nat) (shmid : Int32) (cand : Option Nat) (fails : Option LinuxError) :
    Keeps (.shmat pid shmid cand fails) s (s.step (.shmat pid shmid cand fails)) := by
  refine h.keeps_call rfl (fun hn => by simp [Fine, hn]) fun sp hsp => ?_
  obtain ⟨e, hfl⟩ | ⟨seg, start, rfl, rfl, hseg, hfr, hunm, hd⟩ := s.sysShmat_cases pid sp shmid cand fails
  · rw [hfl]
    refine h.stay fun sp' start seg hsp' hcand hfails hseg hfr hunm => ?_
    cases hsp.symm.trans hsp'
    rw [hcand, hfails, sysShmat_ok hseg hfr hunm] at hfl
    cases (Prod.mk.inj hfl).2
  · rw [hd]
    refine ⟨(h.attachAt_iff hsp hseg hfr hunm).trans ⟨fun hb _ _ seg' _ _ _ hseg' _ _ => ?_, fun hfi => ?_⟩,
      h.sane_attachAt hsp hseg hfr hunm⟩
    · cases hseg.symm.trans hseg'
      exact hb
    · exact hfi sp start seg hsp rfl rfl hseg hfr hunm

end Attach

/-! ### `shmdt` -/

section DetachOne
variable {pid sp shmaddr : Nat} {shmid : Int32} {seg : ShmSegment} {r : VirtAddrRange}
  {map : BiBTreeMap Int32 Nat}

theorem vaddr_removeShmaddr {m : ShmManager} (hmap : m.pidShmidVaddr[pid]? = some map)
    (hrev : map.reverse[shmaddr]? = some shmid) (id : Int32) (pid' : Nat) :
    (m.removeShmaddr pid shmaddr).vaddr pid' id = if shmid = id ∧ pid = pid' then none else m.vaddr pid' id := by
  have hfo : ∀ id : Int32, (map.removeByValue shmaddr).forward[id]? = if shmid = id then none else map.forward[id]? := by
    intro id
    rw [BiBTreeMap.removeByValue, hrev]
    simp [getElem?_erase]
  rw [vaddr, removeShmaddr, hmap]
  by_cases hpid : pid = pid'
  · subst hpid
    rw [vaddr_of hmap]
    simp only [and_true]
    rw [← hfo]
    split_ifs with he
    · rw [TreeMap.getElem?_erase_self, bind_none, TreeMap.getElem?_of_isEmpty he]
    · rw [TreeMap.getElem?_insert_self, bind_some]
  · rw [vaddr]
    show ((if (map.removeByValue shmaddr).forward.isEmpty then _ else _)[pid']?).bind _ = _
    split <;> simp [getElem?_erase, getElem?_insert, hpid]

theorem segments_detachAt (s : Shm) (pid sp shmaddr : Nat) (shmid : Int32) (seg : ShmSegment) (r : VirtAddrRange)
    (id : Int32) : (s.detachAt pid sp shmaddr shmid seg r).manager.segments[id]? =
      if shmid = id then (some (seg.detached pid)).filter fun seg => !seg.shouldRemove
      else s.manager.segments[id]? := by
  unfold detachAt
  cases hrem : (seg.detached pid).shouldRemove with
  | true =>
    simp only [if_true, ShmManager.segments_removeShmid, segments_setSegment, segments_removeShmaddr]
    by_cases hid : shmid = id
    · simp [hid, hrem, filter]
    · simp [hid]
  | false =>
    simp only [Bool.false_eq_true, if_false, segments_setSegment, segments_removeShmaddr]
    by_cases hid : shmid = id
    · simp [hrem, filter]
    · simp [hid]

theorem vaddr_detachAt (s : Shm) (hmap : s.manager.pidShmidVaddr[pid]? = some map)
    (hrev : map.reverse[shmaddr]? = some shmid) (id : Int32) (pid' : Nat) :
    (s.detachAt pid sp shmaddr shmid seg r).manager.vaddr pid' id =
      if shmid = id ∧ pid = pid' then none else s.manager.vaddr pid' id := by
  rw [← vaddr_removeShmaddr hmap hrev]
  unfold detachAt
  cases (seg.detached pid).shouldRemove with
  | true => simp only [if_true, vaddr, ShmManager.pidShmidVaddr_removeShmid, ShmManager.setSegment]
  | false => rfl

/-- A segment that is left comes from one that was there. -/
theorem detachAt_before (hseg : s.manager.segments[shmid]? = some seg)
    (h : (s.detachAt pid sp shmaddr shmid seg r).manager.segments[id]? = some new) :
    ∃ old, s.manager.segments[id]? = some old ∧ From new old ∧
      ((shmid = id ∧ old = seg ∧ new = seg.detached pid ∧ new.shouldRemove = false) ∨ new = old) := by
  rw [segments_detachAt] at h
  split_ifs at h with hid
  · obtain ⟨hnew, hk⟩ := Option.filter_eq_some_iff.mp h
    cases hnew
    exact ⟨seg, hid ▸ hseg, from_detached seg pid, .inl ⟨hid, rfl, rfl, by simpa using hk⟩⟩
  · exact ⟨new, h, .refl new, .inr rfl⟩

theorem attachment_detachAt (hseg : s.manager.segments[shmid]? = some seg) (id : Int32) (pid' : Nat) :
    (s.detachAt pid sp shmaddr shmid seg r).manager.attachment id pid' =
      if shmid = id ∧ pid = pid' then none else s.manager.attachment id pid' := by
  rw [attachment, segments_detachAt]
  by_cases hid : shmid = id
  · subst hid
    rw [if_pos rfl, attachment_of hseg]
    simp only [true_and]
    rw [← vaRange_detached, vaRange_filter]
  · rw [if_neg hid, if_neg fun h => hid h.1]
    rfl

/-- Two segments of one process do not overlap. -/
theorem Inv.apart (h : s.Inv) {id' : Int32} {o : ShmSegment} {range' : VirtAddrRange} {addr : Nat}
    (hseg : s.manager.segments[id]? = some seg) (hr : seg.vaRange[pid]? = some r)
    (ho : s.manager.segments[id']? = some o) (hra' : o.vaRange[pid]? = some range')
    (hin : r.contains addr) (hin' : range'.contains addr) : id = id' := by
  obtain ⟨own, obj, hown, hobj, hat⟩ := h.books.mapped id seg pid r hseg hr
  obtain ⟨own', object', hown', hobj', hat'⟩ := h.books.mapped id' o pid range' ho hra'
  cases hown.symm.trans hown'
  have heq := some.inj ((hat addr hin).symm.trans (hat' addr hin'))
  exact h.sane.distinct id seg id' o obj hseg ho hobj (hobj'.trans (by rw [(Prod.mk.inj heq).1]))

variable (h : s.Inv) (hmap : s.manager.pidShmidVaddr[pid]? = some map)
  (hrev : map.reverse[shmaddr]? = some shmid) (hseg : s.manager.segments[shmid]? = some seg)
  (hr : seg.vaRange[pid]? = some r)
include h hmap hrev hseg hr

theorem Inv.detachAt_iff : (s.detachAt pid sp shmaddr shmid seg r).Books ↔
    s.Spared sp (· ≠ pid) (r.contains ·) := by
  have hatt : seg.isAttached pid := by rw [isAttached_eq, hr]; rfl
  have hma : ∀ pid' obj range', s.Maps pid' obj range' →
      ((s.detachAt pid sp shmaddr shmid seg r).Maps pid' obj range' ↔
        (s.spaceOf pid' = some sp → ∀ addr, range'.contains addr → ¬ r.contains addr)) :=
    fun pid' obj range' hold => maps_setMapped_iff (fun _ hin => if_pos hin) (fun _ hout => if_neg hout) hold
  constructor
  · intro hbo pid' id range' hne hown hth
    have ha : (s.detachAt pid sp shmaddr shmid seg r).manager.attachment id pid' = some range' := by
      rw [attachment_detachAt hseg, if_neg fun h => hne h.2.symm, hth]
    obtain ⟨new, hnew, hra'⟩ := attachment_eq_some.mp ha
    have hk := hbo.mapped id new pid' range' hnew hra'
    obtain ⟨old, hold, hfm, -⟩ := detachAt_before hseg hnew
    rw [attachment_of hold] at hth
    rw [hfm.object] at hk
    exact (hma _ _ _ (h.books.mapped id old pid' range' hold hth)).mp hk hown
  · intro hse
    refine .of_good (fun id new hnew => ?_) fun id pid' => ?_
    · obtain ⟨old, hold, hfm, hcs⟩ := detachAt_before hseg hnew
      refine ⟨?_, fun pid' range' hra' => ?_, fun hrm => ?_⟩
      · obtain ⟨-, rfl, rfl, -⟩ | rfl := hcs
        · exact counted_detached (h.books.counted id old hold) hatt
        · exact h.books.counted id new hold
      · have hatm := attachment_eq_some.mpr ⟨new, hnew, hra'⟩
        rw [attachment_detachAt hseg] at hatm
        obtain ⟨ho, hatm⟩ := ite_none_left_eq_some.mp hatm
        have hrange'' := (attachment_of hold pid').symm.trans hatm
        rw [hfm.object, hma _ _ _ (h.books.mapped id old pid' range' hold hrange'')]
        intro hown addr hin hgo
        by_cases hpid : pid' = pid
        · subst hpid
          exact ho ⟨h.apart hseg hr hold hrange'' hgo hin, rfl⟩
        · exact hse pid' id range' hpid hown hatm addr hin hgo
      · obtain ⟨-, -, -, hk⟩ | rfl := hcs
        · intro hz
          simp [shouldRemove, hrm, hz] at hk
        · exact h.books.swept id new hold hrm
    · rw [attachment_detachAt hseg, vaddr_detachAt s hmap hrev]
      split
      · rfl
      · exact h.books.recorded id pid'

omit hmap hrev hr in
theorem Inv.sane_detachAt : (s.detachAt pid sp shmaddr shmid seg r).Sane := by
  refine h.sane.of_from (fun id new hnew => ?_) (fun pid' map hmap => ?_) rfl h.sane.spaces
  · obtain ⟨old, hold, hfm, -⟩ := detachAt_before hseg hnew
    exact ⟨old, hold, hfm⟩
  · have hta : (s.detachAt pid sp shmaddr shmid seg r).manager.pidShmidVaddr =
        (s.manager.removeShmaddr pid shmaddr).pidShmidVaddr := by
      unfold detachAt
      cases (seg.detached pid).shouldRemove with
      | true => exact ShmManager.pidShmidVaddr_removeShmid _ _
      | false => rfl
    rw [hta, removeShmaddr] at hmap
    split at hmap
    · exact h.sane.paired pid' map hmap
    next old hold =>
      have hmap : (if (old.removeByValue shmaddr).forward.isEmpty then s.manager.pidShmidVaddr.erase pid
        else s.manager.pidShmidVaddr.insert pid (old.removeByValue shmaddr))[pid']? = some map := hmap
      split at hmap
      · rw [getElem?_erase] at hmap
        exact h.sane.paired pid' map (ite_none_left_eq_some.mp hmap).2
      · rw [getElem?_insert] at hmap
        split at hmap
        · cases hmap
          exact (h.sane.paired pid old hold).removeByValue
        · exact h.sane.paired pid' map hmap

omit hmap hrev hseg hr

theorem Inv.keeps_shmdt (pid shmaddr : Nat) (fails : Option LinuxError) :
    Keeps (.shmdt pid shmaddr fails) s (s.step (.shmdt pid shmaddr fails)) := by
  refine h.keeps_call rfl (fun hn => by simp [Fine, hn]) fun sp hsp => ?_
  rcases s.sysShmdt_cases pid sp shmaddr fails with
    ⟨e, hfl⟩ | ⟨map, shmid, seg, r, rfl, hmap, hrev, hseg, hr, hd⟩
  · rw [hfl]
    refine h.stay fun sp' id r _ hfails hvd hatt => ?_
    -- What the table and the segment agree on can be detached.
    obtain ⟨map, hmap, hfo⟩ := Option.bind_eq_some_iff.mp hvd
    obtain ⟨seg, hseg, hr⟩ := attachment_eq_some.mp hatt
    have hrev := (h.sane.paired pid map hmap id shmaddr).mp hfo
    simp [sysShmdt, hmap, hrev, hseg, hr, hfails] at hfl
  · have hvd : ∀ id, s.manager.vaddr pid id = some shmaddr ↔ id = shmid := by
      intro id
      rw [vaddr_of hmap, h.sane.paired pid map hmap, hrev, some.injEq, eq_comm]
    rw [hd]
    refine ⟨(h.detachAt_iff hmap hrev hseg hr).trans ⟨fun hse space' id range' hsp' _ hth hatm => ?_,
      fun hfi => ?_⟩, h.sane_detachAt hseg⟩
    · cases hsp.symm.trans hsp'
      obtain rfl := (hvd id).mp hth
      rw [attachment_of hseg] at hatm
      cases hr.symm.trans hatm
      exact hse
    · exact hfi sp shmid r hsp rfl ((hvd shmid).mpr rfl)
        (attachment_eq_some.mpr ⟨seg, hseg, hr⟩)

end DetachOne

/-! ### `fork` -/

section Fork
variable {p c sp : Nat} {shared : Bool} {m : ShmManager}

theorem Maps.addProcess (h : s.Maps pid obj r)
    (hsps : ∀ pid sp, s.spaceOf pid = some sp → sp < s.nextSpace) (hpid : pid ≠ c) :
    Maps {s.addProcess sp c shared with manager := m} pid obj r := by
  obtain ⟨own, id, hown, hobj, hat⟩ := h
  refine ⟨own, id, ?_, hobj, fun addr hin => ?_⟩
  · cases shared <;> simp [Shm.addProcess, update_of_ne hpid, hown]
  · have hold : own ≠ s.nextSpace := (hsps pid own hown).ne
    cases shared <;> simp [Shm.addProcess, update_of_ne hold, hat addr hin]

/-- The child sees in its space, own or shared, what the parent sees. -/
theorem Maps.inherited (h : s.Maps p obj r) (hsp : s.spaceOf p = some sp) :
    Maps {s.addProcess sp c shared with manager := m} c obj r := by
  obtain ⟨own, id, hown, hobj, hat⟩ := h
  cases hsp.symm.trans hown
  cases shared with
  | true => exact ⟨sp, id, update_self _ _ _, hobj, hat⟩
  | false =>
    refine ⟨s.nextSpace, id, update_self _ _ _, hobj, fun addr hin => ?_⟩
    simp [Shm.addProcess, hat addr hin]

theorem Inherited.vaddr_eq {m m' : ShmManager} (hinh : ShmManager.Inherited p c m m') (id : Int32) (pid : Nat) :
    m'.vaddr pid id = if pid = c then m.vaddr p id else m.vaddr pid id := by
  split_ifs with hpid
  · rw [hpid, hinh.vaddr]
  · rw [vaddr, hinh.others pid hpid]
    rfl

theorem Inherited.attachment_eq (h : s.Books) (hinh : ShmManager.Inherited p c s.manager m) (id : Int32)
    (pid : Nat) : m.attachment id pid =
      if pid = c then s.manager.attachment id p else s.manager.attachment id pid := by
  have hfh : s.manager.attachment id c = none := by
    have hrec := h.recorded id c
    rw [vaddr, hinh.fresh] at hrec
    exact map_eq_none_iff.mp hrec
  cases hvd : s.manager.vaddr p id with
  | none =>
    have hpar : s.manager.attachment id p = none :=
      map_eq_none_iff.mp ((h.recorded id p).trans hvd)
    rw [hpar, attachment, hinh.kept id hvd]
    split_ifs with hpid
    · rw [hpid]
      exact hfh
    · rfl
  | some addr =>
    obtain ⟨seg, r, hseg, -, hr, ha⟩ := hinh.attached id addr hvd
    rw [attachment_of ha, vaRange_attached]
    by_cases hpid : pid = c
    · rw [if_pos hpid.symm, if_pos hpid, attachment_of hseg, hr]
    · rw [if_neg (Ne.symm hpid), if_neg hpid, attachment_of hseg]

/-- A segment after the fork is an old one, with the child in it if the parent is. -/
theorem Inherited.before (hinh : ShmManager.Inherited p c s.manager m)
    (hnew : m.segments[id]? = some new) : ∃ old, s.manager.segments[id]? = some old ∧ From new old ∧ (new = old ∨
      ∃ r, old.vaRange[p]? = some r ∧ old.isAttached c = false ∧ new = old.attached c r) := by
  cases hvd : s.manager.vaddr p id with
  | none => exact ⟨new, by rw [← hinh.kept id hvd, hnew], .refl new, .inl rfl⟩
  | some addr =>
    obtain ⟨seg, r, hseg, hfr, hr, ha⟩ := hinh.attached id addr hvd
    cases hnew.symm.trans ha
    exact ⟨seg, hseg, from_attached c hr, .inr ⟨r, hr, hfr, rfl⟩⟩

variable (h : s.Inv) (hsp : s.spaceOf p = some sp)
  (hinh : ShmManager.Inherited p c s.manager m)
include h hsp hinh

theorem Inv.inherit_iff : Books {s.addProcess sp c shared with manager := m} ↔ ∀ (id : Int32) seg,
    s.manager.segments[id]? = some seg → seg.isAttached p → seg.vaRange.size < maxAttached := by
  constructor
  · intro hbo id seg hseg hatt
    obtain ⟨addr, hvd⟩ := (h.books.isAttached_iff hseg).mp hatt
    obtain ⟨seg', r, hseg', hfr, -, ha⟩ := hinh.attached id addr hvd
    cases hseg.symm.trans hseg'
    exact (counted_attached_iff r (h.books.counted id seg hseg) hfr).mp (hbo.counted id _ ha)
  · intro hb
    refine .of_good (fun id new hnew => ?_) fun id pid => ?_
    · obtain ⟨old, hold, hfm, hcs⟩ := Inherited.before hinh hnew
      refine ⟨?_, fun pid r hr => ?_, fun hrm => ?_⟩
      · obtain rfl | ⟨r, hr, hfr, rfl⟩ := hcs
        · exact h.books.counted id new hold
        · apply (counted_attached_iff r (h.books.counted id old hold) hfr).mpr
          exact hb id old hold (by rw [isAttached_eq, hr]; rfl)
      · have hatm := attachment_eq_some.mpr ⟨new, hnew, hr⟩
        rw [Inherited.attachment_eq h.books hinh] at hatm
        rw [hfm.object]
        split_ifs at hatm with hpid <;> rw [attachment_of hold] at hatm
        · exact hpid ▸ (h.books.mapped id old p r hold hatm).inherited hsp
        · exact (h.books.mapped id old pid r hold hatm).addProcess h.sane.spaces hpid
      · obtain rfl | ⟨r, -, hfr, rfl⟩ := hcs
        · exact h.books.swept id new hold hrm
        · rw [size_attached r hfr]
          exact Nat.succ_ne_zero _
    · show (m.attachment id pid).map _ = m.vaddr pid id
      rw [Inherited.attachment_eq h.books hinh, Inherited.vaddr_eq hinh]
      split
      · exact h.books.recorded id p
      · exact h.books.recorded id pid

theorem Inv.sane_inherit : Sane {s.addProcess sp c shared with manager := m} := by
  refine h.sane.of_from (fun id new hnew => ?_) (fun pid map hmap => ?_) (by cases shared <;> rfl) fun pid own hown => ?_
  · obtain ⟨old, hold, hfm, -⟩ := Inherited.before hinh hnew
    exact ⟨old, hold, hfm⟩
  · by_cases hpid : pid = c
    · subst hpid
      exact hinh.paired map hmap
    · exact h.sane.paired pid map ((hinh.others pid hpid).symm.trans hmap)
  · have hold := h.sane.spaces p sp hsp
    cases shared with
    | true =>
      obtain ⟨-, hso⟩ | ⟨-, hown⟩ := update_cases hown
      · exact some.inj hso ▸ hold
      · exact h.sane.spaces pid own hown
    | false =>
      obtain ⟨-, hso⟩ | ⟨-, hown⟩ := update_cases hown
      · exact some.inj hso ▸ Nat.lt_succ_self _
      · exact Nat.lt_succ_of_lt (h.sane.spaces pid own hown)

omit hsp hinh

theorem Inv.keeps_fork (p c : Nat) (shared : Bool) :
    Keeps (.fork p c shared) s (s.step (.fork p c shared)) := by
  refine h.keeps_call rfl (fun hn => by simp [Fine, hn]) fun sp hsp => ?_
  cases hch : s.spaceOf c with
  | some o => exact h.stay (by simp [Fine, hch])
  | none =>
    rw [Option.isSome_none, if_neg Bool.false_ne_true, doClone]
    have hagree : s.manager.Agrees := ⟨h.sane.paired, h.books.recorded⟩
    obtain ⟨hth, e, hfl⟩ | ⟨hfr, m, hd, hinh⟩ := hagree.inheritProcess_cases p c
    · rw [hfl]
      exact h.stay fun _ _ hfr => absurd (hth.symm.trans hfr) Bool.noConfusion
    · rw [hd]
      refine ⟨?_, h.sane_inherit hsp hinh⟩
      rw [h.inherit_iff hsp hinh]
      simp only [Fine, hsp, hch, hfr, Option.isSome_some, forall_const]

end Fork

/-! ### Steps and runs -/

theorem Inv.keeps_step (h : s.Inv) (l : ShmLabel) : Keeps l s (s.step l) := by
  cases l with
  | shmget key size shmflg => exact h.keeps_shmget key size shmflg
  | shmat pid shmid cand fails => exact h.keeps_shmat pid shmid cand fails
  | shmdt pid shmaddr fails => exact h.keeps_shmdt pid shmaddr fails
  | ipcSet shmid info =>
    refine h.keeps_modifySegment (f := fun seg => {seg with shmidDs := info})
      ⟨fun _ => rfl, fun _ => rfl, fun _ => rfl, fun _ => rfl⟩ ?_
    refine forall_congr' fun seg => forall_congr' fun hseg => ?_
    exact (and_iff_left (h.books.swept shmid seg hseg)).symm
  | ipcStat shmid => exact h.stay trivial
  | ipcRmid shmid => exact h.keeps_ipcRmid shmid
  | fork p c shared => exact h.keeps_fork p c shared
  | exec pid =>
    refine h.keeps_call rfl (fun hn => by simp [Fine, hn]) fun sp hsp => ?_
    exact h.keeps_unmap (fun _ _ => rfl) (fun _ hnot => absurd trivial hnot) (by simp [Fine, hsp])
  | munmap pid r =>
    refine h.keeps_call rfl (fun hn => by simp [Fine, hn]) fun sp hsp => ?_
    exact h.keeps_unmap (fun _ hin => if_pos hin) (fun _ hout => if_neg hout) (by simp [Fine, hsp])
  | exit pid unmapped => exact h.keeps_exit pid unmapped

theorem inv_initial (pid : Nat) : (initial pid).Inv := by
  have hn : ∀ id : Int32, (initial pid).manager.segments[id]? = none := fun _ => getElem?_emptyc
  have he : ∀ o : Nat, (initial pid).manager.pidShmidVaddr[o]? = none := fun _ => getElem?_emptyc
  have hatm : ∀ id o, (initial pid).manager.attachment id o = none := by
    intro id o
    rw [attachment, hn, bind_none]
  have hsps : ∀ o sp, (initial pid).spaceOf o = some sp → sp < (initial pid).nextSpace := by
    intro o sp hsp
    obtain ⟨-, hz⟩ := Option.ite_none_right_eq_some.mp hsp
    exact some.inj hz ▸ Nat.zero_lt_one
  refine ⟨⟨?_, fun id o => ?_, ?_, ?_⟩, ⟨?_, ?_, ?_, ?_, ?_, ?_, hsps⟩⟩
  all_goals simp [hn, he, hatm, vaddr]

/-- **The books are right** all along a run just when each of its steps is fine. -/
theorem books_iff (pid : Nat) (labels : List ShmLabel) :
    machine.Always Books (initial pid) labels ↔ machine.Meets Fine (initial pid) labels := by
  exact Machine.always_iff_meets_of_total (fun _ _ => rfl) (fun s h => h.books)
    (fun label s h hfi => ⟨(h.keeps_step label).1.mpr hfi, (h.keeps_step label).2⟩)
    (fun label s h hbooks => (h.keeps_step label).1.mp hbooks) labels (inv_initial pid)

/-- One page, under the key 7. -/
def onePage : Shm := (initial 1).step (.shmget 7 1 0o600)

theorem onePage_attached : onePage.step (.shmat 1 0 (some 4096) none) =
    onePage.attachAt 1 0 0 (.new 7 0 1 (convertShmFlagsToMapping 0o600)) 4096 := by
  have hsp : onePage.spaceOf 1 = some 0 := rfl
  have hseg : onePage.manager.segments[(0 : Int32)]? = some (.new 7 0 1 (convertShmFlagsToMapping 0o600)) := rfl
  rw [step, hsp, Option.elim_some, sysShmat_ok hseg rfl fun _ _ => rfl]

/-- A segment that is attached and then unmapped, one that is removed when nobody has it attached,
and one whose count is overwritten. -/
theorem books_wrong :
    (∃ s, machine.run (initial 1) [.shmget 7 1 0o600, .shmat 1 0 (some 4096) none, .munmap 1 (.fromStartSize 4096 4096)] =
      some s ∧ ¬ s.Books) ∧
    (∃ s, machine.run (initial 1) [.shmget 7 1 0o600, .ipcRmid 0] = some s ∧ ¬ s.Books) ∧
    ∃ s, machine.run (initial 1) [.shmget 7 1 0o600, .ipcSet 0 ⟨7, 0, 1, 5⟩] = some s ∧ ¬ s.Books := by
  refine ⟨⟨_, rfl, fun h => ?_⟩, ⟨_, rfl, fun h => ?_⟩, ⟨_, rfl, fun h => ?_⟩⟩
  · replace h : ((onePage.step (.shmat 1 0 (some 4096) none)).step (.munmap 1 (.fromStartSize 4096 4096))).Books := h
    rw [onePage_attached] at h
    generalize hs : Shm.step _ _ = s at h
    have hatm : s.manager.attachment 0 1 = some (.fromStartSize 4096 4096) := by
      rw [← hs]
      decide +kernel
    have hgo : s.spaceOf 1 = some 0 ∧ s.sharedObjectAt 0 4096 = none := by
      rw [← hs]
      decide +kernel
    obtain ⟨segment, hseg, hr⟩ := attachment_eq_some.mp hatm
    obtain ⟨space, object, hsp, -, hat⟩ := h.mapped 0 segment 1 _ hseg hr
    cases hgo.1.symm.trans hsp
    exact Option.some_ne_none _ ((hat 4096 (by decide)).symm.trans hgo.2)
  · generalize hs : Shm.step _ _ = s at h
    have hmarked : (s.manager.segments[(0 : Int32)]?).map (fun segment => (segment.rmid, segment.vaRange.size)) =
        some (true, 0) := by
      rw [← hs]
      decide +kernel
    obtain ⟨segment, hseg, hpair⟩ := map_eq_some_iff.mp hmarked
    exact h.swept 0 segment hseg (Prod.mk.inj hpair).1 (Prod.mk.inj hpair).2
  · generalize hs : Shm.step _ _ = s at h
    have hc : (s.manager.segments[(0 : Int32)]?).map
        (fun segment => (segment.shmidDs.nattch.toNat, segment.vaRange.size)) = some (5, 0) := by
      rw [← hs]
      decide +kernel
    obtain ⟨segment, hseg, hpair⟩ := map_eq_some_iff.mp hc
    have hct := h.counted 0 segment hseg
    rw [(Prod.mk.inj hpair).1, (Prod.mk.inj hpair).2] at hct
    exact absurd hct (by decide)

end Shm

end StarryX.Ipc.SharedMemory
