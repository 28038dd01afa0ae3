import StarryX.Errno
import StarryX.Library.Hoare

/-! The ids of a process and the calls that set them.

A call that is refused may already have stored some of the ids it was given, so a call ends with the
state it leaves in either case. Each call asks one of the ids whether the caller is root: `setuid` and
`setgid` the real user id, the calls for the file system and `setgroups` the effective user id, and the
others the effective id of their own kind. That last choice lets a process without privileges take any
group once one of its groups is 0 (`ids_confined_iff`). -/
namespace StarryX.Task
open Library

/-- The ids of one kind: `uid`, `euid`, `suid` and `fsuid`, or the same of groups. -/
structure Ids where
  real : UInt32
  effective : UInt32
  saved : UInt32
  fs : UInt32
  deriving DecidableEq

structure ProcessCredentials where
  user : Ids
  group : Ids
  supGroup : List UInt32
  deriving DecidableEq

inductive IdKind where
  | user
  | group
  deriving DecidableEq

namespace ProcessCredentials

def ids (c : ProcessCredentials) : IdKind → Ids
  | .user => c.user
  | .group => c.group

def setIds (c : ProcessCredentials) (kind : IdKind) (ids : Ids) : ProcessCredentials :=
  match kind with
  | .user => {c with user := ids}
  | .group => {c with group := ids}

end ProcessCredentials

abbrev CredProg := EStateM LinuxError ProcessCredentials

/-! ### The calls -/

def update (kind : IdKind) (change : Ids → Ids) : CredProg Unit :=
  modify fun c => c.setIds kind (change (c.ids kind))

/-- An argument of -1 leaves an id as it is. -/
def assign (kind : IdKind) (id : Int32) (put : UInt32 → Ids → Ids) : CredProg Unit :=
  if id ≠ -1 then update kind (put id.toUInt32) else pure ()

/-- The same without privileges: the new id must be one of some. -/
def assignOneOf (kind : IdKind) (id : Int32) (allowed : List Int32) (put : UInt32 → Ids → Ids) : CredProg Unit :=
  if id ≠ -1 then
    if id ∈ allowed then update kind (put id.toUInt32) else throw .eperm
  else pure ()

/-- `setuid` and `setgid`: both ask for the real user id. -/
def setId (kind : IdKind) (id : UInt32) : CredProg Unit := do
  let process ← get
  if process.user.real = 0 then update kind fun _ => ⟨id, id, id, id⟩
  else if id = (process.ids kind).real ∨ id = (process.ids kind).saved then
    update kind fun ids => {ids with effective := id, fs := id}
  else throw .eperm

def sysSetuid : UInt32 → CredProg Unit := setId .user

def sysSetgid : UInt32 → CredProg Unit := setId .group

/-- `setfsuid` and `setfsgid`: both ask for the effective user id, and never fail. -/
def setFsId (kind : IdKind) (id : Int32) : CredProg UInt32 := do
  let process ← get
  let ids := process.ids kind
  if process.user.effective = 0 then assign kind id fun id ids => {ids with fs := id}
  else if id ∈ [ids.real.toInt32, ids.effective.toInt32, ids.saved.toInt32, ids.fs.toInt32] then
    update kind fun ids => {ids with fs := id.toUInt32}
  else pure ()
  pure ids.fs

def sysSetfsuid : Int32 → CredProg UInt32 := setFsId .user

def sysSetfsgid : Int32 → CredProg UInt32 := setFsId .group

/-- `setreuid` and `setregid`. -/
def setReIds (kind : IdKind) (real effective : Int32) : CredProg Unit := do
  let process ← get
  let origin := process.ids kind
  if origin.effective = 0 then do
    assign kind real fun id ids => {ids with real := id}
    assign kind effective fun id ids => {ids with effective := id}
  else do
    assignOneOf kind real [origin.real.toInt32, origin.effective.toInt32] fun id ids => {ids with real := id}
    assignOneOf kind effective [origin.real.toInt32, origin.saved.toInt32, origin.effective.toInt32] fun id ids =>
      {ids with effective := id, fs := id}
  if real ≠ -1 ∨ effective ≠ -1 ∧ effective ≠ origin.real.toInt32 then
    update kind fun ids => {ids with saved := ids.effective}
  else pure ()

def sysSetreuid : Int32 → Int32 → CredProg Unit := setReIds .user

def sysSetregid : Int32 → Int32 → CredProg Unit := setReIds .group

/-- `setresuid` and `setresgid`. -/
def setResIds (kind : IdKind) (real effective saved : Int32) : CredProg Unit := do
  let process ← get
  let origin := process.ids kind
  if origin.effective = 0 then do
    assign kind real fun id ids => {ids with real := id}
    assign kind effective fun id ids => {ids with effective := id}
    assign kind saved fun id ids => {ids with saved := id}
  else do
    assignOneOf kind real [origin.real.toInt32, origin.effective.toInt32] fun id ids => {ids with real := id}
    assignOneOf kind effective [origin.real.toInt32, origin.saved.toInt32, origin.effective.toInt32] fun id ids =>
      {ids with effective := id, fs := id}
    assignOneOf kind saved [origin.real.toInt32, origin.saved.toInt32, origin.effective.toInt32] fun id ids =>
      {ids with saved := id}

def sysSetresuid : Int32 → Int32 → Int32 → CredProg Unit := setResIds .user

def sysSetresgid : Int32 → Int32 → Int32 → CredProg Unit := setResIds .group

def ngroupsMax : Nat := 32

/-- `list` are the words that can be read at the pointer. They are read into the vector that is there,
which keeps its length. -/
def sysSetgroups (size : Nat) (list : List UInt32) : CredProg Unit :=
  if ngroupsMax < size then throw .einval
  else do
    let process ← get
    if process.user.effective ≠ 0 then throw .eperm
    else if size = 0 then modify fun c => {c with supGroup := []}
    else if list.length < process.supGroup.length then throw .efault
    else modify fun c => {c with supGroup := list.take c.supGroup.length}

inductive Call where
  | setuid (uid : UInt32)
  | setgid (gid : UInt32)
  | setreuid (uid euid : Int32)
  | setregid (gid egid : Int32)
  | setresuid (uid euid suid : Int32)
  | setresgid (gid egid sgid : Int32)
  | setfsuid (fsuid : Int32)
  | setfsgid (fsgid : Int32)
  | setgroups (size : Nat) (list : List UInt32)

def Call.perform : Call → CredProg Unit
  | .setuid uid => sysSetuid uid
  | .setgid gid => sysSetgid gid
  | .setreuid uid euid => sysSetreuid uid euid
  | .setregid gid egid => sysSetregid gid egid
  | .setresuid uid euid suid => sysSetresuid uid euid suid
  | .setresgid gid egid sgid => sysSetresgid gid egid sgid
  | .setfsuid fsuid => discard (sysSetfsuid fsuid)
  | .setfsgid fsgid => discard (sysSetfsgid fsgid)
  | .setgroups size list => sysSetgroups size list

/-- The credentials after a call, whatever it returned. -/
def Call.after (call : Call) (c : ProcessCredentials) : ProcessCredentials :=
  match call.perform c with
  | .ok _ c => c
  | .error _ c => c

def runCalls (calls : List Call) (c : ProcessCredentials) : ProcessCredentials :=
  calls.foldl (fun c call => call.after c) c

variable {c : ProcessCredentials} {ids : Ids} {allowed : List Int32}

section Refusals
variable {kind : IdKind} {kept : ProcessCredentials → Prop}

/-! ### Refused calls -/

@[simp] theorem ids_setIds (c : ProcessCredentials) (kind : IdKind) (ids : Ids) : (c.setIds kind ids).ids kind = ids := by
  cases kind <;> rfl

@[simp] theorem setIds_setIds (c : ProcessCredentials) (kind : IdKind) (ids ids' : Ids) :
    (c.setIds kind ids).setIds kind ids' = c.setIds kind ids' := by
  cases kind <;> rfl

/-- An unprivileged caller is refused the id. -/
def Refused (id : Int32) (allowed : List Int32) : Prop := id ≠ -1 ∧ id ∉ allowed

/-- Storing the argument changes one of the ids. -/
def Differs (id : Int32) (old : List UInt32) : Prop := id ≠ -1 ∧ ∃ o ∈ old, id.toUInt32 ≠ o

/-- A refusal behind an assignment, with -1 for an id that the call does not take. -/
def Ids.Split (o : Ids) (real effective saved : Int32) : Prop :=
  o.effective ≠ 0 ∧ ¬ Refused real [o.real.toInt32, o.effective.toInt32] ∧
    (Refused effective [o.real.toInt32, o.saved.toInt32, o.effective.toInt32] ∧ Differs real [o.real] ∨
      ¬ Refused effective [o.real.toInt32, o.saved.toInt32, o.effective.toInt32] ∧
      Refused saved [o.real.toInt32, o.saved.toInt32, o.effective.toInt32] ∧
      (Differs real [o.real] ∨ Differs effective [o.effective, o.fs]))

/-- The ids whose arguments are -1 stay. -/
def Unnamed (args : List (Int32 × (Ids → UInt32))) (old new : Ids) : Prop := ∀ a ∈ args, a.1 = -1 → a.2 new = a.2 old

/-- A call that fails has changed no id, and one that succeeds leaves what `kept` says. -/
def Outcome (kept : ProcessCredentials → Prop) (c : ProcessCredentials) :
    EStateM.Result LinuxError ProcessCredentials Unit → Prop
  | .error _ c' => c'.user = c.user ∧ c'.group = c.group
  | .ok _ c' => kept c'

theorem outcome_setIds {e : LinuxError} :
    Outcome kept c (.error e (c.setIds kind ids)) ↔ ids = c.ids kind := by
  cases kind <;> simp [Outcome, ProcessCredentials.setIds, ProcessCredentials.ids]

section Runs
variable (kind : IdKind) (id : Int32) (put : UInt32 → Ids → Ids) (c : ProcessCredentials)

theorem update_run (change : Ids → Ids) : update kind change c = .ok () (c.setIds kind (change (c.ids kind))) := rfl

theorem pure_run : (pure () : CredProg Unit) c = .ok () (c.setIds kind (c.ids kind)) := by cases kind <;> rfl

theorem assign_run :
    assign kind id put c = .ok () (c.setIds kind (if id = -1 then c.ids kind else put id.toUInt32 (c.ids kind))) := by
  unfold assign
  by_cases hid : id = -1
  · simp [hid, pure_run kind]
  · simp [hid, update_run]

theorem assignOneOf_run (allowed : List Int32) [Decidable (Refused id allowed)] :
    assignOneOf kind id allowed put c = if Refused id allowed then .error .eperm c
      else .ok () (c.setIds kind (if id = -1 then c.ids kind else put id.toUInt32 (c.ids kind))) := by
  unfold assignOneOf Refused
  by_cases hid : id = -1
  · simp [hid, pure_run kind]
  · by_cases hin : id ∈ allowed
    · simp [hid, hin, update_run]
    · simp [hid, hin]
      rfl

end Runs

/-- The ids after both have been stored. -/
def Ids.named (o : Ids) (real effective : Int32) : Ids :=
  ⟨if real = -1 then o.real else real.toUInt32, if effective = -1 then o.effective else effective.toUInt32, o.saved,
    if effective = -1 then o.fs else effective.toUInt32⟩

theorem Ids.named_eq {o : Ids} {real eff : Int32} :
    o.named real eff = o ↔ ¬ Differs real [o.real] ∧ ¬ Differs eff [o.effective, o.fs] := by
  cases o
  by_cases hid : real = -1 <;> by_cases hid' : eff = -1 <;> simp [Ids.named, Differs, hid']

/-- The first two ids of a call without privileges. -/
theorem assignBoth_outcome {real eff : Int32} {allowed' : List Int32} {rest : CredProg Unit} :
    Outcome kept c ((do
      assignOneOf kind real allowed fun id ids => {ids with real := id}
      assignOneOf kind eff allowed' fun id ids => {ids with effective := id, fs := id}
      rest : CredProg Unit) c) ↔ Refused real allowed ∨
        Refused eff allowed' ∧ ¬ Differs real [(c.ids kind).real] ∨
        ¬ Refused eff allowed' ∧ Outcome kept c (rest (c.setIds kind ((c.ids kind).named real eff))) := by
  classical
  simp only [bind, EStateM.bind, assignOneOf_run]
  by_cases hreal : Refused real allowed
  · simp [hreal, Outcome]
  · by_cases heff : Refused eff allowed'
    · simp only [hreal, heff]
      by_cases hid : real = -1
      · simp [outcome_setIds, Differs, hid]
      · cases hold : c.ids kind
        simp [outcome_setIds, Differs, hold]
    · simp only [hreal, heff, Ids.named]
      by_cases hid : real = -1 <;> by_cases hid' : eff = -1 <;> simp [hid, hid']

theorem setReIds_outcome (kind : IdKind) (real eff : Int32) :
    Outcome (fun c' => Unnamed [(real, Ids.real), (eff, Ids.effective)] (c.ids kind) (c'.ids kind)) c
      (setReIds kind real eff c) ↔ ¬ (c.ids kind).Split real eff (-1) := by
  show Outcome _ c ((if (c.ids kind).effective = 0 then _ else _ : CredProg Unit) c) ↔ _
  unfold Ids.Split
  by_cases hro : (c.ids kind).effective = 0
  · rw [if_pos hro]
    simp only [bind, EStateM.bind, assign_run]
    split_ifs <;> simp_all [Outcome, Unnamed, update_run, pure_run kind]
  · rw [if_neg hro, assignBoth_outcome]
    have hno : ∀ allowed, ¬ Refused (-1) allowed := fun _ h => h.1 rfl
    split_ifs
    all_goals
      simp_all [Outcome, Unnamed, update_run, pure_run kind]
      try tauto

theorem setResIds_outcome (kind : IdKind) (real eff saved : Int32) :
    Outcome (fun c' => Unnamed [(real, Ids.real), (eff, Ids.effective), (saved, Ids.saved)] (c.ids kind) (c'.ids kind)) c
      (setResIds kind real eff saved c) ↔ ¬ (c.ids kind).Split real eff saved := by
  classical
  show Outcome _ c ((if (c.ids kind).effective = 0 then _ else _ : CredProg Unit) c) ↔ _
  unfold Ids.Split
  by_cases hro : (c.ids kind).effective = 0
  · rw [if_pos hro]
    simp only [bind, EStateM.bind, assign_run]
    split_ifs <;> simp_all [Outcome, Unnamed]
  · rw [if_neg hro, assignBoth_outcome, assignOneOf_run]
    split_ifs with href
    · rw [outcome_setIds, Ids.named_eq]
      tauto
    all_goals
      simp_all [Outcome, Unnamed]
      try tauto

theorem setId_outcome (kind : IdKind) (id : UInt32) : Outcome (fun _ => True) c (setId kind id c) := by
  show Outcome _ c ((if c.user.real = 0 then _ else if _ then _ else _ : CredProg Unit) c)
  split_ifs
  · trivial
  · trivial
  · exact ⟨rfl, rfl⟩

/-- **A refused call changes no id**, of `setuid` and `setgid` always, and of `setreuid`, `setregid`, `setresuid` and
`setresgid` unless an argument is refused behind one that was stored. A call that succeeds leaves the ids whose
arguments are -1, but for the saved one of the first two and the one of the file system. -/
theorem refused_ids_iff (c : ProcessCredentials) (kind : IdKind) :
    (∀ id, Outcome (fun _ => True) c (setId kind id c)) ∧
    (∀ real effective, Outcome (fun c' => Unnamed [(real, Ids.real), (effective, Ids.effective)] (c.ids kind) (c'.ids kind))
      c (setReIds kind real effective c) ↔ ¬ (c.ids kind).Split real effective (-1)) ∧
    ∀ real effective saved, Outcome (fun c' => Unnamed [(real, Ids.real), (effective, Ids.effective), (saved, Ids.saved)]
      (c.ids kind) (c'.ids kind)) c (setResIds kind real effective saved c) ↔ ¬ (c.ids kind).Split real effective saved :=
  ⟨setId_outcome kind, setReIds_outcome kind, setResIds_outcome kind⟩

/-- A process whose real id is not its effective one. -/
def switched : ProcessCredentials := ⟨⟨1000, 1001, 1001, 1001⟩, ⟨100, 100, 100, 100⟩, []⟩

/-- The effective id becomes the real one, and then root's is refused. -/
theorem setreuid_stops_halfway : ¬ Outcome (fun c => Unnamed [(1001, Ids.real), (0, Ids.effective)] switched.user c.user)
    switched (sysSetreuid 1001 0 switched) := by
  exact fun h => absurd h.1 (by decide)

end Refusals

/-! ### Where ids come from -/

/-- Ids of one kind, taken from those held; the one of the file system from a larger set. -/
structure Drawn (held fsHeld : UInt32 → Prop) (ids : Ids) : Prop where
  real : held ids.real
  effective : held ids.effective
  saved : held ids.saved
  fs : fsHeld ids.fs

structure Confined (held fsHeld : IdKind → UInt32 → Prop) (supGroup : List UInt32) (c : ProcessCredentials) : Prop where
  drawn : ∀ kind, Drawn (held kind) (fsHeld kind) (c.ids kind)
  supGroup : c.supGroup = supGroup

section Confined
variable {held fsHeld : IdKind → UInt32 → Prop} {supGroup : List UInt32} {kind : IdKind} {α : Type}

/-- What a program of these keeps, whatever it returns. -/
def Keeps {α : Type} (held fsHeld : IdKind → UInt32 → Prop) (supGroup : List UInt32) (x : CredProg α) : Prop :=
  Triple (Confined held fsHeld supGroup) x (fun _ => Confined held fsHeld supGroup) (fun _ => Confined held fsHeld supGroup)

theorem Keeps.bind {β : Type} {x : CredProg α} {f : α → CredProg β} (hx : Keeps held fsHeld supGroup x)
    (hf : ∀ a, Keeps held fsHeld supGroup (f a)) : Keeps held fsHeld supGroup (x >>= f) :=
  Triple.bind hx hf

theorem keeps_pure (a : α) : Keeps held fsHeld supGroup (pure a) := .skip

theorem keeps_throw (e : LinuxError) : Keeps held fsHeld supGroup (throw e : CredProg α) :=
  .throw fun _ h => h

theorem update_keeps {change : Ids → Ids}
    (hchg : ∀ ids, Drawn (held kind) (fsHeld kind) ids → Drawn (held kind) (fsHeld kind) (change ids)) :
    Keeps held fsHeld supGroup (update kind change) := by
  refine .modify fun c h => ⟨fun o => ?_, ?_⟩
  · cases kind with
    | user =>
      cases o with
      | user => exact hchg _ (h.drawn .user)
      | group => exact h.drawn .group
    | group =>
      cases o with
      | user => exact h.drawn .user
      | group => exact hchg _ (h.drawn .group)
  · cases kind with
    | user | group => exact h.supGroup

variable {id : Int32} {put : UInt32 → Ids → Ids}

theorem assign_keeps (hput : id ≠ -1 → ∀ ids, Drawn (held kind) (fsHeld kind) ids →
      Drawn (held kind) (fsHeld kind) (put id.toUInt32 ids)) : Keeps held fsHeld supGroup (assign kind id put) := by
  unfold assign
  split
  · exact update_keeps (hput ‹_›)
  · exact keeps_pure ()

theorem assignOneOf_keeps (hput : id ∈ allowed → ∀ ids, Drawn (held kind) (fsHeld kind) ids →
      Drawn (held kind) (fsHeld kind) (put id.toUInt32 ids)) :
    Keeps held fsHeld supGroup (assignOneOf kind id allowed put) := by
  unfold assignOneOf
  split
  · split
    · exact update_keeps (hput ‹_›)
    · exact keeps_throw _
  · exact keeps_pure ()

/-- An argument equal to an id that is held. -/
theorem toUInt32_of_mem {P : UInt32 → Prop} (ids : List UInt32) (hids : ∀ id ∈ ids, P id)
    (h : id ∈ ids.map UInt32.toInt32) : P id.toUInt32 := by
  obtain ⟨old, hold, rfl⟩ := List.mem_map.mp h
  exact hids old hold

/-- The ids that an unprivileged caller may take as its real one. -/
theorem Drawn.ofPair (h : Drawn (held kind) (fsHeld kind) ids)
    (hid : id ∈ [ids.real.toInt32, ids.effective.toInt32]) : held kind id.toUInt32 := by
  refine toUInt32_of_mem [ids.real, ids.effective] ?_ hid
  simp [h.real, h.effective]

theorem Drawn.ofTriple (h : Drawn (held kind) (fsHeld kind) ids)
    (hid : id ∈ [ids.real.toInt32, ids.saved.toInt32, ids.effective.toInt32]) : held kind id.toUInt32 := by
  refine toUInt32_of_mem [ids.real, ids.saved, ids.effective] ?_ hid
  simp [h.real, h.saved, h.effective]

variable (hsub : ∀ kind id, held kind id → fsHeld kind id)
include hsub

theorem Drawn.all (kind : IdKind) (h : Drawn (held kind) (fsHeld kind) ids) :
    ∀ id ∈ [ids.real, ids.effective, ids.saved, ids.fs], fsHeld kind id := by
  simp [hsub kind _ h.real, hsub kind _ h.effective, hsub kind _ h.saved, h.fs]

section Families
variable (hro : ∀ kind, held kind 0 → ∀ id : Int32, id ≠ -1 → held kind id.toUInt32)
include hro

theorem setReIds_keeps (real eff : Int32) : Keeps held fsHeld supGroup (setReIds kind real eff) := by
  have hsa : Keeps held fsHeld supGroup (update kind fun ids => {ids with saved := ids.effective}) :=
    update_keeps fun ids h => {h with saved := h.effective}
  refine .start fun c hc => .get_bind (.resume ?_ hc)
  have hdr := hc.drawn kind
  show Keeps held fsHeld supGroup (if _ then _ else _)
  split
  · have hany := hro kind (‹(c.ids kind).effective = 0› ▸ hdr.effective)
    refine .bind (assign_keeps fun hid ids h => ?_) fun _ => .bind (assign_keeps fun hid ids h => ?_) fun _ => ?_
    · exact {h with real := hany _ hid}
    · exact {h with effective := hany _ hid}
    · split
      · exact hsa
      · exact keeps_pure ()
  · refine .bind (assignOneOf_keeps fun hid ids h => ?_) fun _ =>
      Keeps.bind (assignOneOf_keeps fun hid ids h => ?_) fun _ => ?_
    · exact {h with real := hdr.ofPair hid}
    · exact ⟨h.real, hdr.ofTriple hid, h.saved, hsub kind _ (hdr.ofTriple hid)⟩
    · split
      · exact hsa
      · exact keeps_pure ()

theorem setResIds_keeps (real eff saved : Int32) :
    Keeps held fsHeld supGroup (setResIds kind real eff saved) := by
  refine .start fun c hc => .get_bind (.resume ?_ hc)
  have hdr := hc.drawn kind
  show Keeps held fsHeld supGroup (if _ then _ else _)
  split
  · have hany := hro kind (‹(c.ids kind).effective = 0› ▸ hdr.effective)
    refine .bind (assign_keeps fun hid ids h => ?_) fun _ => .bind (assign_keeps fun hid ids h => ?_) fun _ =>
      assign_keeps fun hid ids h => ?_
    · exact {h with real := hany _ hid}
    · exact {h with effective := hany _ hid}
    · exact {h with saved := hany _ hid}
  · refine .bind (assignOneOf_keeps fun hid ids h => ?_) fun _ =>
      Keeps.bind (assignOneOf_keeps fun hid ids h => ?_) fun _ => assignOneOf_keeps fun hid ids h => ?_
    · exact {h with real := hdr.ofPair hid}
    · exact ⟨h.real, hdr.ofTriple hid, h.saved, hsub kind _ (hdr.ofTriple hid)⟩
    · exact {h with saved := hdr.ofTriple hid}

end Families

variable (huser : ¬ held .user 0)
include huser

/-- `setuid` and `setgid` take one of the ids that are held, unless the real user id is 0. -/
theorem setId_keeps (id : UInt32) : Keeps held fsHeld supGroup (setId kind id) := by
  refine .start fun c hc => .get_bind (.resume ?_ hc)
  have hro : c.user.real ≠ 0 := fun h => huser (h ▸ (hc.drawn .user).real)
  rw [if_neg hro]
  split
  · have hid : held kind id := by
      rename_i hid
      obtain rfl | rfl := hid
      · exact (hc.drawn kind).real
      · exact (hc.drawn kind).saved
    exact update_keeps fun ids h => ⟨h.real, hid, h.saved, hsub kind id hid⟩
  · exact keeps_throw _

theorem setFsId_keeps (id : Int32) : Keeps held fsHeld supGroup (setFsId kind id) := by
  refine .start fun c hc => .get_bind (.resume ?_ hc)
  have hro : c.user.effective ≠ 0 := fun h => huser (h ▸ (hc.drawn .user).effective)
  rw [if_neg hro]
  split
  · have hid : fsHeld kind id.toUInt32 := toUInt32_of_mem _ (Drawn.all hsub kind (hc.drawn kind)) ‹_›
    refine .bind ?_ fun _ => keeps_pure _
    exact update_keeps fun ids h => {h with fs := hid}
  · exact keeps_pure _

omit hsub in
theorem sysSetgroups_keeps (size : Nat) (list : List UInt32) : Keeps held fsHeld supGroup (sysSetgroups size list) := by
  unfold sysSetgroups
  split
  · exact keeps_throw _
  · refine .start fun c hc => .get_bind (.resume ?_ hc)
    have hro : c.user.effective ≠ 0 := fun h => huser (h ▸ (hc.drawn .user).effective)
    rw [if_pos hro]
    exact keeps_throw _

section
variable (hro : ∀ kind, held kind 0 → ∀ id : Int32, id ≠ -1 → held kind id.toUInt32)
include hro

/-- Where no user id is 0, and no group id is unless all may be had, each call keeps to the ids held. -/
theorem Call.perform_keeps (call : Call) : Keeps held fsHeld supGroup call.perform := by
  cases call with
  | setuid uid | setgid uid => exact setId_keeps hsub huser uid
  | setreuid uid euid | setregid uid euid => exact setReIds_keeps hsub hro uid euid
  | setresuid uid euid suid | setresgid uid euid suid => exact setResIds_keeps hsub hro uid euid suid
  | setfsuid fsuid | setfsgid fsuid => exact .map (setFsId_keeps hsub huser fsuid) fun _ _ h => h
  | setgroups size list => exact sysSetgroups_keeps huser size list

theorem runCalls_confined (cs : List Call) (hc : Confined held fsHeld supGroup c) :
    Confined held fsHeld supGroup (runCalls cs c) := by
  induction cs generalizing c with
  | nil => exact hc
  | cons call rest ih =>
    refine ih ?_
    have hca := Call.perform_keeps hsub huser hro call c hc
    show Confined held fsHeld supGroup (call.after c)
    unfold Call.after
    cases hrun : call.perform c with
    | ok _ _ | error _ _ =>
      rw [hrun] at hca
      exact hca

end

end Confined

/-! ### Escalation -/

namespace ProcessCredentials

def userIds (c : ProcessCredentials) : List UInt32 := [c.user.real, c.user.effective, c.user.saved, c.user.fs]

def groupIds (c : ProcessCredentials) : List UInt32 :=
  [c.group.real, c.group.effective, c.group.saved, c.group.fs] ++ c.supGroup

/-- Every id held is one that was held before. -/
def Within (c c' : ProcessCredentials) : Prop :=
  (∀ id ∈ c'.userIds, id ∈ c.userIds) ∧ ∀ id ∈ c'.groupIds, id ∈ c.groupIds

/-- None of the group ids that calls look at is root's. -/
def NoRootGroup (c : ProcessCredentials) : Prop := c.group.real ≠ 0 ∧ c.group.effective ≠ 0 ∧ c.group.saved ≠ 0

end ProcessCredentials

/-- A process with one of root's groups can make it the effective one, -/
theorem setresgid_takes_root (h : ¬ c.NoRootGroup) : ((Call.setresgid (-1) 0 (-1)).after c).group.effective = 0 := by
  have hal : 0 ∈ [c.group.real.toInt32, c.group.saved.toInt32, c.group.effective.toInt32] := by
    simp only [ProcessCredentials.NoRootGroup, not_and_or, not_not] at h
    rcases h with h | h | h <;> simp [h]
  classical
  show (match (if c.group.effective = 0 then _ else _ : CredProg Unit) c with | .ok _ c => c | .error _ c => c).group.effective = 0
  split_ifs
  · rfl
  · simp_all [bind, EStateM.bind, assignOneOf_run, Refused, ProcessCredentials.ids]
    rfl

/-- and then take any group as its real one. -/
theorem setresgid_takes_any (h : c.group.effective = 0) {id : UInt32} (hid : id.toInt32 ≠ -1) :
    ((Call.setresgid id.toInt32 (-1) (-1)).after c).group.real = id := by
  show (match (if c.group.effective = 0 then _ else _ : CredProg Unit) c with | .ok _ c => c | .error _ c => c).group.real = id
  rw [if_pos h]
  simp [bind, EStateM.bind, assign_run, ProcessCredentials.setIds, ProcessCredentials.ids, hid]

/-- Without root's user ids, what calls can reach is what the groups allow. -/
theorem within_of_groups (huser : c.user.real ≠ 0 ∧ c.user.effective ≠ 0 ∧ c.user.saved ≠ 0) (groups : UInt32 → Prop)
    (hgr : ∀ id, groups id → id ∈ c.groupIds) (hdr : Drawn groups (· ∈ c.groupIds) c.group)
    (hro : groups 0 → ∀ id : Int32, id ≠ -1 → groups id.toUInt32) (cs : List Call) : c.Within (runCalls cs c) := by
  let held : IdKind → UInt32 → Prop
    | .user => (· ∈ [c.user.real, c.user.effective, c.user.saved])
    | .group => groups
  let fsHeld : IdKind → UInt32 → Prop
    | .user => (· ∈ c.userIds)
    | .group => (· ∈ c.groupIds)
  have hz : ¬ held .user 0 := by
    intro h
    have h : 0 ∈ [c.user.real, c.user.effective, c.user.saved] := h
    simp only [List.mem_cons, List.not_mem_nil, or_false] at h
    obtain h | h | h := h
    · exact huser.1 h.symm
    · exact huser.2.1 h.symm
    · exact huser.2.2 h.symm
  have hsub : ∀ kind id, held kind id → fsHeld kind id := by
    intro kind id h
    cases kind with
    | user => exact List.mem_append_left [c.user.fs] h
    | group => exact hgr id h
  have hany : ∀ kind, held kind 0 → ∀ id : Int32, id ≠ -1 → held kind id.toUInt32 := by
    intro kind h
    cases kind with
    | user => exact absurd h hz
    | group => exact hro h
  have hst : Confined held fsHeld c.supGroup c := by
    refine ⟨fun kind => ?_, rfl⟩
    cases kind with
    | user => constructor <;> simp [held, fsHeld, ProcessCredentials.ids, ProcessCredentials.userIds]
    | group => exact hdr
  have hend := runCalls_confined hsub hz hany cs hst
  refine ⟨Drawn.all hsub .user (hend.drawn .user), fun id hid => ?_⟩
  obtain hid | hid := List.mem_append.mp hid
  · exact Drawn.all hsub .group (hend.drawn .group) id hid
  · rw [hend.supGroup] at hid
    exact List.mem_append_right _ hid

/-- **Ids are confined** to those a process held at the start if and only if none of its groups is 0
among those that calls look at, or there is no other group to take. -/
theorem ids_confined_iff (c : ProcessCredentials) (huid : c.user.real ≠ 0) (heuid : c.user.effective ≠ 0)
    (hsuid : c.user.saved ≠ 0) :
    (∀ calls, c.Within (runCalls calls c)) ↔ c.NoRootGroup ∨ ∀ id : UInt32, id.toInt32 ≠ -1 → id ∈ c.groupIds := by
  have hfs : c.group.fs ∈ c.groupIds := by simp [ProcessCredentials.groupIds]
  constructor
  · intro hwithin
    by_contra hnot
    simp only [not_or, not_forall] at hnot
    obtain ⟨hro, id, hid, hnew⟩ := hnot
    let calls : List Call := [.setresgid (-1) 0 (-1), .setresgid id.toInt32 (-1) (-1)]
    have hreal : (runCalls calls c).group.real = id := setresgid_takes_any (setresgid_takes_root hro) hid
    have hmem : (runCalls calls c).group.real ∈ (runCalls calls c).groupIds :=
      List.mem_append_left _ (.head _)
    rw [hreal] at hmem
    exact hnew ((hwithin calls).2 id hmem)
  · rintro (hro | hall) calls
    · refine within_of_groups ⟨huid, heuid, hsuid⟩ (· ∈ [c.group.real, c.group.effective, c.group.saved])
        (fun id hid => ?_) ⟨?_, ?_, ?_, hfs⟩ (fun hz => ?_) calls
      · exact List.mem_append_left _ (List.mem_append_left [c.group.fs] hid)
      · simp
      · simp
      · simp
      · obtain ⟨hreal, heff, hsaved⟩ := hro
        simp only [List.mem_cons, List.not_mem_nil, or_false] at hz
        obtain h | h | h := hz
        · exact absurd h.symm hreal
        · exact absurd h.symm heff
        · exact absurd h.symm hsaved
    · refine within_of_groups ⟨huid, heuid, hsuid⟩ (· ∈ c.groupIds) (fun id hid => hid) ⟨?_, ?_, ?_, hfs⟩
        (fun _ id hid => hall _ (by rwa [Int32.toInt32_toUInt32])) calls
      all_goals simp [ProcessCredentials.groupIds]

/-- An unprivileged process that still has root's groups. -/
def leftGroups : ProcessCredentials := ⟨⟨1000, 1000, 1000, 1000⟩, ⟨0, 0, 0, 0⟩, []⟩

/-- It takes group 7, which it never held. -/
theorem ids_not_confined :
    (leftGroups.user.real ≠ 0 ∧ leftGroups.user.effective ≠ 0 ∧ leftGroups.user.saved ≠ 0) ∧
      7 ∉ leftGroups.groupIds ∧ 7 ∈ (runCalls [.setresgid 7 7 7] leftGroups).groupIds := by
  decide

theorem ids_confined_iff_unprivileged :
    (⟨⟨1000, 1000, 1000, 1000⟩, ⟨100, 100, 100, 100⟩, [27]⟩ : ProcessCredentials).NoRootGroup ∧
      ∀ calls, (⟨⟨1000, 1000, 1000, 1000⟩, ⟨100, 100, 100, 100⟩, [27]⟩ : ProcessCredentials).Within
        (runCalls calls ⟨⟨1000, 1000, 1000, 1000⟩, ⟨100, 100, 100, 100⟩, [27]⟩) := by
  have hgroups : (⟨⟨1000, 1000, 1000, 1000⟩, ⟨100, 100, 100, 100⟩, [27]⟩ : ProcessCredentials).NoRootGroup := by
    unfold ProcessCredentials.NoRootGroup
    decide
  exact ⟨hgroups, (ids_confined_iff _ (by decide) (by decide) (by decide)).mpr (.inl hgroups)⟩

end StarryX.Task
