import StarryX.Errno

/-! The state of one cached page, section by section.

Everything `xcache` knows about a page besides its bytes is a `PageState` behind one lock.
Each definition here is what one acquisition of that lock does: taking and dropping a
lease, marking the page dirty, taking and dropping a shared-write guard, claiming a
writeback and reporting its outcome. Sequence numbers are `u64` and the two counts `u32`;
where the code checks an increment, so does the model. -/
namespace StarryX.Cache

/-- `PAGE_SIZE`: a cached page is one frame. -/
def pageSize : Nat := 4096

def pageIndex (offset : Nat) : Nat := offset / pageSize

def pageOffset (offset : Nat) : Nat := offset % pageSize

structure PageState where
  leases : Nat
  dirtySeq : Nat
  submittedSeq : Nat
  persistedSeq : Nat
  writebackSeq : Option Nat
  failedSeq : Option Nat
  sharedGuardGroups : Nat
  deriving DecidableEq, Repr

/-- What writeback owes a page. -/
inductive WritebackAction where
  | skip
  | wait
  | submit
  deriving DecidableEq, Repr

namespace PageState

def clean : PageState :=
  { leases := 0
    dirtySeq := 0
    submittedSeq := 0
    persistedSeq := 0
    writebackSeq := none
    failedSeq := none
    sharedGuardGroups := 0 }

/-- The next dirty sequence; the counter running out is an `expect`. -/
def markDirty (s : PageState) : Except Stop PageState :=
  if s.dirtySeq + 1 < 2 ^ 64 then .ok {s with dirtySeq := s.dirtySeq + 1, failedSeq := none}
  else .error .panic

def isDirty (s : PageState) : Bool := s.persistedSeq < s.dirtySeq || s.sharedGuardGroups != 0

def reclaimable (s : PageState) : Bool :=
  !s.isDirty && s.writebackSeq.isNone && s.leases == 0 && s.sharedGuardGroups == 0

def isQuiet (s : PageState) : Bool :=
  s.leases == 0 && s.writebackSeq.isNone && s.sharedGuardGroups == 0

def writebackAction (s : PageState) (explicit : Bool) : WritebackAction :=
  if !s.isDirty then .skip
  -- Another writeback owns the current data: only an explicit sync must see its outcome.
  else if s.writebackSeq.isSome then (if explicit then .wait else .skip)
  else
    let retryWouldRepeat := s.failedSeq == some s.dirtySeq
    let guardHoldsData := s.sharedGuardGroups != 0 && s.submittedSeq == s.dirtySeq
    if !explicit && (retryWouldRepeat || guardHoldsData) then .skip else .submit

/-- `lease_locked`. -/
def takeLease (s : PageState) : Except Stop PageState :=
  if s.leases + 1 < 2 ^ 32 then .ok {s with leases := s.leases + 1} else .error (.error .eoverflow)

/-- `PageLease::drop`. -/
def dropLease (s : PageState) : PageState := {s with leases := s.leases - 1}

/-- The section of `shared_write_guard`: one more guard, and the page is dirty from now on. -/
def takeGuard (s : PageState) : Except Stop PageState :=
  if s.sharedGuardGroups + 1 < 2 ^ 32 then
    markDirty {s with sharedGuardGroups := s.sharedGuardGroups + 1}
  else .error (.error .eoverflow)

/-- `SharedWriteGuard::drop`: the stores made through the guard end here, so the page is
dirtied once more. -/
def dropGuard (s : PageState) : Except Stop PageState :=
  markDirty {s with sharedGuardGroups := s.sharedGuardGroups - 1}

/-- The first section of `writeback_page`, once it decided to submit: the sequence the
snapshot belongs to is claimed under the same lock. -/
def claim (s : PageState) : PageState :=
  {s with submittedSeq := s.dirtySeq, writebackSeq := some s.dirtySeq}

/-- The second section of `writeback_page`, after writing out the snapshot of `pageSeq`. -/
def report (s : PageState) (pageSeq : Nat) (succeeded : Bool) : PageState :=
  if succeeded then
    {s with
      writebackSeq := none
      persistedSeq := max s.persistedSeq pageSeq
      failedSeq := if s.failedSeq.any (· ≤ pageSeq) then none else s.failedSeq}
  else {s with writebackSeq := none, failedSeq := some pageSeq}

/-! ### What the sections do to dirtiness -/

variable {s t : PageState}

theorem isDirty_eq_false : s.isDirty = false ↔ s.dirtySeq ≤ s.persistedSeq ∧ s.sharedGuardGroups = 0 := by
  simp [isDirty]

theorem isDirty_eq_true : s.isDirty ↔ s.persistedSeq < s.dirtySeq ∨ s.sharedGuardGroups ≠ 0 := by
  simp [isDirty]

theorem markDirty_eq (h : s.markDirty = .ok t) :
    t = {s with dirtySeq := s.dirtySeq + 1, failedSeq := none} := by
  unfold markDirty at h
  split at h
  · exact (Except.ok.inj h).symm
  · cases h

theorem takeGuard_eq (h : s.takeGuard = .ok t) : t = {s with
      sharedGuardGroups := s.sharedGuardGroups + 1, dirtySeq := s.dirtySeq + 1, failedSeq := none} := by
  unfold takeGuard at h
  split at h
  · exact markDirty_eq h
  · cases h

theorem dropGuard_eq (h : s.dropGuard = .ok t) : t = {s with
      sharedGuardGroups := s.sharedGuardGroups - 1, dirtySeq := s.dirtySeq + 1, failedSeq := none} :=
  markDirty_eq h

theorem takeLease_eq (h : s.takeLease = .ok t) : t = {s with leases := s.leases + 1} := by
  unfold takeLease at h
  split at h
  · exact (Except.ok.inj h).symm
  · cases h

/-- Only a dirty page nobody is writing back is submitted. -/
theorem submit_dirty {expl : Bool} (h : s.writebackAction expl = .submit) :
    s.isDirty ∧ s.writebackSeq = none := by
  unfold writebackAction at h
  split at h
  · cases h
  next hd =>
    split at h
    · split at h <;> cases h
    next hid =>
      exact ⟨by simpa using hd, by simpa using hid⟩

/-- An explicit sync passes over a page only if it is clean. -/
theorem skip_clean (h : s.writebackAction true = .skip) : s.isDirty = false := by
  cases hd : s.isDirty with
  | false => rfl
  | true =>
    simp only [writebackAction, hd] at h
    split at h
    next hcl =>
      cases hcl
    · split at h <;> cases h

end PageState

end StarryX.Cache
