import Mathlib.Logic.Function.Basic
import StarryX.Errno

/-! Calls about another process.

`prlimit64` and `get_robust_list` look up the caller's pointers in the memory of the process that they
are about. `confined_iff` says for which arguments no memory but the caller's is read or written: where
that process has the memory of the caller, or the call comes to no access. -/
namespace StarryX.Syscall
open Function

/-! ### User memory -/

/-- The memory of an address space. -/
structure UserMemory where
  byte : Nat → UInt8
  readable : Nat → Bool
  writable : Nat → Bool

def userSpaceBase : Nat := 0x1000

def userSpaceSize : Nat := 0x3ffffff000

/-- Areas lie in the user's range only. -/
def Reaches (addr len : Nat) : Prop := addr % 8 = 0 ∧ userSpaceBase ≤ addr ∧ addr + len ≤ userSpaceBase + userSpaceSize

instance (addr len : Nat) : Decidable (Reaches addr len) := inferInstanceAs (Decidable (_ ∧ _))

def encode (n k : Nat) : UInt8 := .ofNat (n / 256 ^ k)

def decode (bytes : Nat → UInt8) : Nat := (List.range 8).foldr (fun k n => (bytes k).toNat + 256 * n) 0

namespace UserMemory
variable (m : UserMemory) (limit : Nat × Nat) (new old list head size : Nat)

def read (addr len : Nat) : LinuxResult (Nat → UInt8) :=
  if Reaches addr len ∧ ∀ k < len, m.readable (addr + k) then .ok fun k => m.byte (addr + k) else .error .efault

def write (addr len : Nat) (value : Nat → UInt8) : LinuxResult UserMemory :=
  if Reaches addr len ∧ ∀ k < len, m.writable (addr + k) then
    .ok {m with byte := fun a => if addr ≤ a ∧ a < addr + len then value (a - addr) else m.byte a}
  else .error .efault

/-- The old limit is told, and its memory is read before. -/
def oldLimit : LinuxResult UserMemory :=
  if old = 0 then .ok m
  else
    match m.read old 16 with
    | .error e => .error e
    | .ok _ => m.write old 16 fun k => if k < 8 then encode limit.1 k else encode limit.2 (k - 8)

/-- What `prlimit64` returns, and the memory and the limit after it. -/
def prlimit64 : LinuxResult Unit × UserMemory × (Nat × Nat) :=
  match m.oldLimit limit old with
  | .error e => (.error e, m, limit)
  | .ok m =>
    if new = 0 then (.ok (), m, limit)
    else
      match m.read new 16 with
      | .error e => (.error e, m, limit)
      | .ok bytes =>
        let new := (decode bytes, decode fun k => bytes (k + 8))
        if new.2 < new.1 then (.error .einval, m, limit) else (.ok (), m, if new.2 ≤ limit.2 then new else limit)

/-- The head of the list and its size are written one after the other. -/
def getRobustList : LinuxResult Unit × UserMemory :=
  match m.write head 8 (encode list) with
  | .error e => (.error e, m)
  | .ok m =>
    match m.write size 8 (encode 24) with
    | .error e => (.error e, m)
    | .ok m => (.ok (), m)

end UserMemory

/-! ### Calls -/

/-- Processes, threads and address spaces. -/
structure Targets (ι τ κ : Type) where
  currentThread : τ
  process : τ → ι
  uspace : ι → κ
  processTable : Nat → Option ι
  threadTable : Nat → Option τ
  /-- The current limit and the greatest. -/
  rlimits : ι → Nat → Nat × Nat
  robustListHead : τ → Nat
  memory : κ → UserMemory

namespace Targets
variable {ι τ κ : Type} [DecidableEq ι] [DecidableEq κ] (s : Targets ι τ κ)

def lookup {α : Type} (table : Nat → Option α) (current : α) (id : Nat) : LinuxResult α :=
  if id = 2 ^ 32 - 1 then .error .einval
  else if id = 0 then .ok current
  else (table id).elim (.error .esrch) .ok

def getThread (tid : Nat) : LinuxResult τ := lookup s.threadTable s.currentThread tid

def getProcess (pid : Nat) : LinuxResult ι := lookup s.processTable (s.process s.currentThread) pid

def rlimNlimits : Nat := 16

def sysPrlimit64 (pid resource newLimit oldLimit : Nat) : LinuxResult Unit × Targets ι τ κ :=
  if rlimNlimits ≤ resource then (.error .einval, s)
  else
    match s.getProcess pid with
    | .error e => (.error e, s)
    | .ok p =>
      let space := s.uspace p
      let found := (s.memory space).prlimit64 (s.rlimits p resource) newLimit oldLimit
      (found.1, {s with
        memory := update s.memory space found.2.1
        rlimits := update s.rlimits p (update (s.rlimits p) resource found.2.2)})

def sysGetRobustList (tid head size : Nat) : LinuxResult Unit × Targets ι τ κ :=
  match s.getThread tid with
  | .error e => (.error e, s)
  | .ok t =>
    let space := s.uspace (s.process t)
    let found := (s.memory space).getRobustList (s.robustListHead t) head size
    (found.1, {s with memory := update s.memory space found.2})

end Targets

/-! ### Confinement -/

namespace UserMemory
variable {m : UserMemory} {limit : Nat × Nat} {new old list head size : Nat}

/-- All bytes are the same, and all that are reached can be used, or none. -/
def uniform (b : UInt8) (free : Bool) : UserMemory := ⟨fun _ => b, fun _ => free, fun _ => free⟩

theorem forall_lt_free {n : Nat} {free : Bool} : (∀ k < n + 1, free) ↔ free :=
  ⟨fun h => h 0 (Nat.succ_pos n), fun h _ _ => h⟩

theorem prlimit64_memory : (m.prlimit64 limit new old).2.1 = (m.oldLimit limit old).toOption.getD m := by
  unfold prlimit64
  cases m.oldLimit limit old with
  | error e => rfl
  | ok m' =>
    dsimp only
    repeat' split
    all_goals rfl

theorem prlimit64_const_iff :
    (∃ r, ∀ m : UserMemory, ((m.prlimit64 limit new old).1, (m.prlimit64 limit new old).2.1) = (r, m)) ↔
    if old = 0 then new = 0 ∨ ¬ Reaches new 16 else ¬ Reaches old 16 := by
  constructor
  · rintro ⟨r, hr⟩
    split_ifs with hold
    · by_contra hno
      obtain ⟨hnew, hre⟩ := not_or.mp hno
      have hze : decode (fun _ => 0) = 0 := by decide
      have hret := fun free => congrArg Prod.fst (hr (uniform 0 free))
      simp only [prlimit64, oldLimit, read, uniform, hold, hnew, not_not.mp hre, forall_lt_free] at hret
      have hok := hret true
      have hbad := hret false
      simp [hze] at hok hbad
      cases hok.trans hbad.symm
    · intro hre
      have hch := congrArg (·.2.byte old) (hr (uniform (encode limit.1 0 + 1) true))
      simp [prlimit64_memory, oldLimit, read, write, uniform, hold, hre, Except.toOption] at hch
  · intro h
    refine ⟨if old = 0 ∧ new = 0 then .ok () else .error .efault, fun m => ?_⟩
    split_ifs at h with hold
    · by_cases hnew : new = 0 <;> simp_all [prlimit64, oldLimit, read]
    · simp [prlimit64, oldLimit, read, hold, h]

theorem getRobustList_const_iff : (∃ r, ∀ m : UserMemory, m.getRobustList list head size = (r, m)) ↔ ¬ Reaches head 8 := by
  constructor
  · rintro ⟨r, hr⟩ hre
    have hch := fun free => hr (uniform (encode list 0 + 1) free)
    simp only [getRobustList, write, uniform, hre, true_and, forall_lt_free] at hch
    have hok := hch true
    have hbad := congrArg Prod.fst (hch false)
    by_cases hsi : Reaches size 8
    · simp [hsi] at hok hbad
      cases hok.1.trans hbad.symm
    · have hch := congrArg (·.2.byte head) hok
      simp [hsi] at hch
  · intro h
    exact ⟨.error .efault, fun m => by simp [getRobustList, write, h]⟩

end UserMemory

namespace Targets
variable {ι τ κ : Type} [DecidableEq κ] (s : Targets ι τ κ)

/-- The memory of the caller. -/
def own : κ := s.uspace (s.process s.currentThread)

/-- With any memory, the call changes no memory but the caller's, and what it returns and leaves there does not depend
on any other. -/
def Confined (call : Targets ι τ κ → LinuxResult Unit × Targets ι τ κ) : Prop :=
  ∀ mem, (∀ k ≠ s.own, (call {s with memory := mem}).2.memory k = mem k) ∧
    ∀ mem', mem' s.own = mem s.own → (call {s with memory := mem'}).1 = (call {s with memory := mem}).1 ∧
      (call {s with memory := mem'}).2.memory s.own = (call {s with memory := mem}).2.memory s.own

variable {s}

/-- A call on the memory of one space. -/
theorem confined_iff_of_space {c : Targets ι τ κ → LinuxResult Unit × Targets ι τ κ} (k : κ)
    (f : UserMemory → LinuxResult Unit × UserMemory) (hcall : ∀ mem, (c {s with memory := mem}).1 = (f (mem k)).1 ∧
      (c {s with memory := mem}).2.memory = update mem k (f (mem k)).2) :
    s.Confined c ↔ k = s.own ∨ ∃ r, ∀ m, f m = (r, m) := by
  simp only [Confined, hcall]
  constructor
  · intro h
    by_cases hk : k = s.own
    · exact .inl hk
    · refine .inr ⟨(f (s.memory k)).1, fun m => Prod.ext ?_ ?_⟩
      · simpa using ((h s.memory).2 (update s.memory k m) (update_of_ne (Ne.symm hk) _ _)).1
      · simpa using (h fun _ => m).1 k hk
  · rintro (rfl | ⟨r, hr⟩) mem
    · exact ⟨fun k hk => update_of_ne hk _ _, fun mem' hm => by simp [hm]⟩
    · simp [hr]

/-- **The memory that a call uses is the caller's** just if the call fails before it uses any, or the process has it. -/
theorem confined_iff [DecidableEq ι] (s : Targets ι τ κ) :
    (∀ pid resource newLimit oldLimit, s.Confined (·.sysPrlimit64 pid resource newLimit oldLimit) ↔
      (resource < rlimNlimits → ∀ p, s.getProcess pid = .ok p → s.uspace p = s.own ∨
        if oldLimit = 0 then newLimit = 0 ∨ ¬ Reaches newLimit 16 else ¬ Reaches oldLimit 16)) ∧
    ∀ tid head size, s.Confined (·.sysGetRobustList tid head size) ↔
      ∀ t, s.getThread tid = .ok t → s.uspace (s.process t) = s.own ∨ ¬ Reaches head 8 := by
  refine ⟨fun pid resource newLimit oldLimit => ?_, fun tid head size => ?_⟩
  · have hg : ∀ mem, getProcess {s with memory := mem} pid = s.getProcess pid := fun _ => rfl
    by_cases hres : rlimNlimits ≤ resource
    · simp [Confined, sysPrlimit64, hres, Nat.not_lt.mpr hres]
    · cases hp : s.getProcess pid with
      | error e => simp [Confined, sysPrlimit64, hres, hg, hp]
      | ok p =>
        let after := fun m : UserMemory => m.prlimit64 (s.rlimits p resource) newLimit oldLimit
        rw [confined_iff_of_space (s.uspace p) (fun m => ((after m).1, (after m).2.1)), UserMemory.prlimit64_const_iff]
        · simp [not_le.mp hres]
        · intro mem
          simp [sysPrlimit64, hres, hg, hp, after]
  · have hg : ∀ mem, getThread {s with memory := mem} tid = s.getThread tid := fun _ => rfl
    cases ht : s.getThread tid with
    | error e => simp [Confined, sysGetRobustList, hg, ht]
    | ok t =>
      rw [confined_iff_of_space (s.uspace (s.process t)) (·.getRobustList (s.robustListHead t) head size),
        UserMemory.getRobustList_const_iff]
      · simp
      · intro mem
        simp [sysGetRobustList, hg, ht]

/-- Process `true` calls; `false` is 5, and all memory can be used. -/
def pair : Targets Bool Bool Bool := ⟨true, id, id, fun pid => if pid = 5 then some false else .none, fun _ => .none,
  fun _ _ => (8, 8), fun _ => 0, fun _ => .uniform 0 true⟩

/-- The limit of the other process is written to its own memory. -/
theorem prlimit64_writes_target : let after := pair.sysPrlimit64 5 3 0 0x2000
    after.1 = .ok () ∧ (after.2.memory false).byte 0x2000 = 8 ∧ (after.2.memory true).byte 0x2000 = 0 := by
  decide +kernel

end Targets
end StarryX.Syscall
