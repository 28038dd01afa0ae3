import StarryX.Fs.Locks

/-! Which directory renames get through.

A virtual directory must not be listed while its cache is locked, on tmpfs no rename may get past the
checks, and on ext4 what is forgotten afterwards must not include one of the two directories:
`Call.right_iff`. What the checks overlook is in `Call.sound_iff`. -/
namespace StarryX.Fs.Locks
open Library
open Tmpfs (DirContent FileName)

/-! ### The types -/

/-- The directory is empty, for the filesystem it is of. -/
def Childless (env : Env) (w : World) : Node → Prop
  | ⟨.ext4, ino⟩ => env.hasChildren ino = .ok false
  | ⟨.tmpfs, ino⟩ => ((w.content ino).toList.any fun e => isChild e.1.name) = false
  | ⟨.virt, ino⟩ => (env.names ino).find? isChild = none

def TypesPass (env : Env) (w : World) (src dst : Entry) : Prop :=
  match src.node, dst.node with
  | some _, some dir => Childless env w (w.node dir)
  | none, some _ => False
  | _, none => True

/-- A virtual directory is to be listed whose cache is locked. -/
structure ListsLocked (env : Env) (w : World) (src dst : Entry) (dir ino : Nat) (name : Str) : Prop where
  src : src.node.isSome
  dst : dst.node = some dir
  held : .cache dir ∈ w.held
  node : w.node dir = ⟨.virt, ino⟩
  listed : (env.names ino).find? isChild = some name
  short : name.length ≤ maxNameLen

variable {e : LinuxError} {n : Node} {name : Str}

section Types
variable {env : Env} {w : World} {src dst : Entry} {α : Type} {l : Lock}

/-- The program fails, and the directories are as they were. -/
def Fails (x : LockM α) (w : World) : Prop := ∃ e t, x w = .error (.error e) t ∧ t.content = w.content

theorem locked_reply_ok {r : LinuxResult α} {a : α} (hfr : l ∉ w.held) (h : r = .ok a) :
    locked l (reply r) w = .ok a w := by
  rw [h]
  exact locked_ok hfr rfl

theorem locked_reply_error {r : LinuxResult α} (hfr : l ∉ w.held) (h : r = .error e) :
    locked l (reply r) w = .error (.error e) w := by
  rw [h]
  exact locked_error hfr rfl

variable {dir : Nat}

theorem hasChildren_childless (hfr : w.OnlyCaches) (h : Childless env w n) :
    hasChildren env dir n w = .ok false w := by
  obtain ⟨kind, ino⟩ := n
  cases kind with
  | ext4 => exact locked_reply_ok (filesystem_free hfr) h
  | tmpfs =>
    refine locked_ok (content_free hfr ino) ?_
    show EStateM.Result.ok ((w.content ino).toList.any fun e => isChild e.1.name) _ = _
    rw [h]
  | virt =>
    show listed env dir ((env.names ino).find? isChild) w = _
    rw [h]
    rfl

theorem onlyCaches_hold (hfr : w.OnlyCaches) (node : Nat) : (w.hold (.cache node)).OnlyCaches := by
  intro l hl
  obtain rfl | hl := List.mem_cons.mp hl
  · exact ⟨node, rfl⟩
  · exact hfr l hl

theorem lookup_locked (hsh : name.length ≤ maxNameLen) :
    lookup env dir name = locked (.cache dir) (lookupLocked env dir name) := if_neg (Nat.not_lt.mpr hsh)

theorem looked_content {node : Nat} : (looked env w node name).content = w.content := by
  unfold looked
  split
  · unfold remember withEntry
    split <;> rfl
  · rfl

/-- A name of a directory that is not locked is looked up without a panic. -/
theorem listed_free (hfr : w.OnlyCaches) (hh : name.length ≤ maxNameLen → .cache dir ∉ w.held) :
    (∃ t, listed env dir (some name) w = .ok true t ∧ t.content = w.content) ∨ Fails (listed env dir (some name)) w := by
  have hli : listed env dir (some name) = (lookup env dir name >>= fun _ => pure true) := rfl
  rw [hli, Fails]
  by_cases hsh : name.length ≤ maxNameLen
  · rw [lookup_locked hsh]
    have hca := onlyCaches_hold hfr dir
    cases hpe : peek env (w.hold (.cache dir)) dir name with
    | ok entry => exact .inl ⟨_, bind_ok (locked_run_ok (hh hsh) (lookupLocked_ok hca hpe)), looked_content⟩
    | error e => exact .inr ⟨e, _, bind_error (locked_run_error (hh hsh) (lookupLocked_error hca hpe)), looked_content⟩
  · refine .inr ⟨.enametoolong, w, bind_error ?_, rfl⟩
    rw [lookup, if_pos (Nat.not_le.mp hsh)]
    rfl

theorem hasChildren_occupied (hfr : w.OnlyCaches) (h : ¬ Childless env w n)
    (hh : ∀ ino name, n = ⟨.virt, ino⟩ → (env.names ino).find? isChild = some name → name.length ≤ maxNameLen →
      .cache dir ∉ w.held) :
    (∃ t, hasChildren env dir n w = .ok true t ∧ t.content = w.content) ∨ Fails (hasChildren env dir n) w := by
  obtain ⟨kind, ino⟩ := n
  cases kind with
  | ext4 =>
    cases hreply : env.hasChildren ino with
    | ok answer =>
      cases answer with
      | true => exact .inl ⟨w, locked_reply_ok (filesystem_free hfr) hreply, rfl⟩
      | false => exact absurd hreply h
    | error e => exact .inr ⟨e, w, locked_reply_error (filesystem_free hfr) hreply, rfl⟩
  | tmpfs =>
    have hany : ((w.content ino).toList.any fun e => isChild e.1.name) := Bool.not_eq_false _ ▸ h
    refine .inl ⟨w, locked_ok (content_free hfr ino) ?_, rfl⟩
    show EStateM.Result.ok ((w.content ino).toList.any fun e => isChild e.1.name) _ = _
    rw [hany]
  | virt =>
    show (∃ t, listed env dir ((env.names ino).find? isChild) w = .ok true t ∧ _) ∨
      Fails (listed env dir ((env.names ino).find? isChild)) w
    cases hfd : (env.names ino).find? isChild with
    | none => exact absurd hfd h
    | some name => exact listed_free hfr (hh ino name rfl hfd)

theorem checkTypes_dirs {node : Nat} (hsrc : src.node = some node) (hdst : dst.node = some dir) :
    checkTypes env src dst w = (hasChildren env dir (w.node dir) >>= fun occupied =>
      if occupied then throw (.error .enotempty) else pure ()) w := by
  unfold checkTypes
  rw [hsrc, hdst]
  rfl

theorem checkTypes_passes (hfr : w.OnlyCaches) (h : TypesPass env w src dst) : checkTypes env src dst w = .ok () w := by
  unfold TypesPass at h
  cases hdst : dst.node with
  | none =>
    unfold checkTypes
    rw [hdst]
    cases src.node <;> rfl
  | some dir =>
    rw [hdst] at h
    cases hsrc : src.node with
    | none =>
      rw [hsrc] at h
      exact h.elim
    | some node =>
      rw [hsrc] at h
      rw [checkTypes_dirs hsrc hdst, bind_ok (hasChildren_childless hfr h)]
      rfl

theorem checkTypes_lists {ino : Nat} (h : ListsLocked env w src dst dir ino name) :
    Panics (checkTypes env src dst) w := by
  obtain ⟨node, hsrc⟩ := Option.isSome_iff_exists.mp h.src
  have hli : Panics (listed env dir (some name)) w := by
    refine .bind ?_
    rw [lookup_locked h.short]
    exact locked_held h.held
  have hch : Panics (hasChildren env dir (w.node dir)) w := by
    rw [h.node]
    show Panics (listed env dir ((env.names ino).find? isChild)) w
    rwa [h.listed]
  rw [Panics, checkTypes_dirs hsrc h.dst]
  exact hch.bind

theorem checkTypes_fails (hfr : w.OnlyCaches) (h : ¬ TypesPass env w src dst)
    (hli : ∀ dir ino name, ¬ ListsLocked env w src dst dir ino name) : Fails (checkTypes env src dst) w := by
  unfold TypesPass at h
  cases hdst : dst.node with
  | none => cases hsrc : src.node <;> simp [hdst] at h
  | some dir =>
    cases hsrc : src.node with
    | none =>
      unfold checkTypes
      rw [hsrc, hdst]
      exact ⟨.eisdir, w, rfl, rfl⟩
    | some node =>
      rw [hsrc, hdst] at h
      have hh : ∀ ino name, w.node dir = ⟨.virt, ino⟩ → (env.names ino).find? isChild = some name →
          name.length ≤ maxNameLen → .cache dir ∉ w.held := fun ino name hnd hfd hsh hmem =>
        hli dir ino name ⟨by rw [hsrc]; rfl, hdst, hmem, hnd, hfd, hsh⟩
      rw [Fails, checkTypes_dirs hsrc hdst]
      obtain ⟨t, ht, hsm⟩ | ⟨e, t, ht, hsm⟩ := hasChildren_occupied hfr h hh
      · exact ⟨.enotempty, t, bind_ok ht, hsm⟩
      · exact ⟨e, t, bind_error ht, hsm⟩

end Types

/-! ### The call -/

section Growing
variable {env : Env} {w : World} {node : Nat} {name : Str}

/-- Lookups make new `DirNode`s and leave the others. -/
structure Grown (w t : World) : Prop where
  held : t.held = w.held
  next : w.next ≤ t.next
  node : ∀ x, x < w.next → t.node x = w.node x
  younger : Younger w → Younger t

theorem grown_remembered (kind : Kind) (ino : Nat) (hnd : node < w.next) :
    Grown w (remember (withEntry env w kind ino) node name (entryFor env w ino)) := by
  unfold withEntry entryFor
  cases env.isDir ino with
  | false =>
    refine ⟨rfl, le_rfl, fun _ _ => rfl, fun hyg => hyg.sub rfl fun x y hy => ?_⟩
    by_cases hx : x = node
    · simpa [remember, kids, hx] using hy
    · simpa [remember, kids, hx] using hy
  | true =>
    refine ⟨rfl, Nat.le_succ _, fun x hx => Function.update_of_ne hx.ne _ _, fun hyg x y hy => ?_⟩
    have hne : node ≠ w.next := hnd.ne
    show x < y ∧ y < w.next + 1
    by_cases hx : x = node
    · have hy' : y = w.next ∨ y ∈ kids w.cache node := by simpa [remember, kids, hx, Function.update_of_ne hne] using hy
      obtain rfl | hy' := hy'
      · omega
      · have := hyg _ _ hy'
        omega
    · by_cases hnew : x = w.next
      · simp [remember, kids, hnew, hne.symm] at hy
      · have hy' : y ∈ kids w.cache x := by simpa [remember, kids, hx, hnew] using hy
        have := hyg _ _ hy'
        omega

theorem looked_grown (hnd : node < w.next) : Grown w (looked env w node name) := by
  unfold looked
  split
  · exact grown_remembered _ _ hnd
  · exact ⟨rfl, le_rfl, fun _ _ => rfl, id⟩

end Growing

/-- A rename by a task that holds no lock. -/
structure Call where
  world : World
  src : Nat
  srcName : Str
  dst : Nat
  dstName : Str
  idle : world.held = []
  younger : Younger world
  srcMade : src < world.next
  dstMade : dst < world.next

namespace Call
variable (env : Env) (c : Call)

def run : EStateM.Result Stop World Unit := rename env c.src c.srcName c.dst c.dstName c.world

def Legal : Prop := legal c.srcName = true ∧ legal c.dstName = true

def locked : World := {c.world with held := heldBy c.src c.dst}

def srcEntry : LinuxResult Entry := peek env c.locked c.src c.srcName

def srcSeen : World := looked env c.locked c.src c.srcName

def dstEntry : LinuxResult Entry := peek env (c.srcSeen env) c.dst c.dstName

/-- Both names have been looked up. -/
def seen : World := looked env (c.srcSeen env) c.dst c.dstName

/-- The rename gets past the checks of the VFS. -/
def Passes : Prop :=
  c.Legal ∧ ∃ src, c.srcEntry env = .ok src ∧ ∀ dst, c.dstEntry env = .ok dst → TypesPass env (c.seen env) src dst

/-- Its check lists a virtual directory whose cache is locked. -/
def CallsBack : Prop :=
  c.Legal ∧ ∃ src dst dir ino name, c.srcEntry env = .ok src ∧ c.dstEntry env = .ok dst ∧
    ListsLocked env (c.seen env) src dst dir ino name

def Both (kind : Kind) : Prop := (c.world.node c.src).kind = kind ∧ (c.world.node c.dst).kind = kind

def OnTmpfs : Prop := c.Passes env ∧ c.Both .tmpfs

/-- It moves something on ext4, and then forgets a directory whose cache is locked. -/
def ForgetsLocked : Prop :=
  c.Passes env ∧ c.Both .ext4 ∧ env.rename = .ok () ∧ LeadsToLocked (c.seen env) c.src c.srcName c.dst c.dstName

/-- The name has moved on tmpfs, and a directory knows its new parent. -/
def Moved (after : World) : Prop :=
  let src := (c.world.node c.src).ino
  let dst := (c.world.node c.dst).ino
  ∃ child, Tmpfs.get (c.world.content src) c.srcName = some child ∧ Tmpfs.get (after.content dst) c.dstName = some child ∧
    (Tmpfs.get (c.world.content dst) c.dstName ≠ some child → Tmpfs.get (after.content src) c.srcName = none) ∧
    (env.isDir child = true → Tmpfs.get (after.content child) dotdot = some dst)

/-- No lock is taken twice, and on tmpfs the rename does its work. -/
structure Right : Prop where
  free : ∀ after, c.run env ≠ .error .panic after
  moves : ∀ after, c.Both .tmpfs → c.run env = .ok () after → c.Moved env after

end Call

section Calls
variable {env : Env} {c : Call} {w t : World} {src dst : Nat} {srcName dstName : Str} {m : Node}

theorem opsRename_ext4 (hfr : w.OnlyCaches) (h : n.kind = .ext4 ∧ m.kind = .ext4) :
    opsRename env srcName dst dstName n m w = match env.rename with
      | .ok () => .ok () w
      | .error e => .error (.error e) w := by
  obtain ⟨_, i⟩ := n
  obtain ⟨_, j⟩ := m
  obtain ⟨⟨⟩, ⟨⟩⟩ := h
  cases hreply : env.rename with
  | ok _ => exact locked_reply_ok (filesystem_free hfr) hreply
  | error e => exact locked_reply_error (filesystem_free hfr) hreply

/-- `MemoryNode::rename` looks the destination up in the `DirNode` that its caller has locked. -/
theorem opsRename_tmpfs (hh : .cache dst ∈ w.held) (hnm : dstName.length ≤ maxNameLen)
    (h : n.kind = .tmpfs ∧ m.kind = .tmpfs) : Panics (opsRename env srcName dst dstName n m) w := by
  obtain ⟨_, i⟩ := n
  obtain ⟨_, j⟩ := m
  obtain ⟨⟨⟩, ⟨⟩⟩ := h
  refine .bind (.caught ?_)
  rw [lookup_locked hnm]
  exact locked_held hh

theorem opsRename_refused (hext4 : ¬ (n.kind = .ext4 ∧ m.kind = .ext4))
    (htm : ¬ (n.kind = .tmpfs ∧ m.kind = .tmpfs)) :
    ∃ e, opsRename env srcName dst dstName n m w = .error (.error e) w := by
  obtain ⟨kind, i⟩ := n
  obtain ⟨kind', j⟩ := m
  cases kind with
  | virt => exact ⟨.erofs, rfl⟩
  | ext4 =>
    cases kind' with
    | ext4 => exact absurd ⟨rfl, rfl⟩ hext4
    | tmpfs | virt => exact ⟨.einval, rfl⟩
  | tmpfs =>
    cases kind' with
    | tmpfs => exact absurd ⟨rfl, rfl⟩ htm
    | ext4 | virt => exact ⟨.einval, rfl⟩

theorem short_of_legal (h : legal name) : name.length ≤ maxNameLen := by
  unfold legal verifyEntryName at h
  split at h
  · cases h
  · split at h
    · cases h
    next hlo =>
      exact Nat.not_lt.mp hlo

theorem seen_grown : Grown c.locked (c.seen env) := by
  have hsrc : Grown c.locked (c.srcSeen env) := looked_grown c.srcMade
  have hdst : Grown (c.srcSeen env) (c.seen env) := looked_grown (c.dstMade.trans_le hsrc.next)
  exact ⟨hdst.held.trans hsrc.held, hsrc.next.trans hdst.next,
    fun x hx => (hdst.node x (hx.trans_le hsrc.next)).trans (hsrc.node x hx), hdst.younger ∘ hsrc.younger⟩

theorem onlyCaches_of_heldBy (h : w.held = heldBy src dst) : w.OnlyCaches := by
  intro l hl
  rw [h, heldBy] at hl
  split at hl
  · exact ⟨src, List.mem_singleton.mp hl⟩
  · obtain rfl | hl := List.mem_cons.mp hl
    · exact ⟨dst, rfl⟩
    · exact ⟨src, List.mem_singleton.mp hl⟩

theorem seen_onlyCaches : (c.seen env).OnlyCaches := onlyCaches_of_heldBy seen_grown.held

theorem srcSeen_onlyCaches : (c.srcSeen env).OnlyCaches := by
  have hgr : Grown c.locked (c.srcSeen env) := looked_grown c.srcMade
  exact onlyCaches_of_heldBy hgr.held

theorem seen_content : (c.seen env).content = c.world.content := looked_content.trans looked_content

/-- The checks that are made before the filesystem is called. -/
def Call.check (env : Env) (c : Call) : LockM Unit := do
  let src ← lookupLocked env c.src c.srcName
  checked env src (← caught (lookupLocked env c.dst c.dstName))

/-- What is left once the types have been checked. -/
def Call.finish (env : Env) (c : Call) : LockM Unit := do
  opsRename env c.srcName c.dst c.dstName ((← get).node c.src) ((← get).node c.dst)
  forgetBoth c.src c.srcName c.dst c.dstName

def Call.body (env : Env) (c : Call) : LockM Unit := renameLocked env c.src c.srcName c.dst c.dstName

theorem body_eq : c.body env = (c.check env >>= fun _ => c.finish env) := by
  unfold Call.check
  simp only [bind_assoc]
  rfl

theorem caught_dst : caught (lookupLocked env c.dst c.dstName) (c.srcSeen env) =
    .ok (c.dstEntry env).toOption (c.seen env) := by
  cases hdst : c.dstEntry env with
  | ok entry =>
    rw [caught, bind_ok (attempt_ok (lookupLocked_ok srcSeen_onlyCaches hdst))]
    rfl
  | error e =>
    rw [caught, bind_ok (attempt_error (lookupLocked_error srcSeen_onlyCaches hdst))]
    rfl

theorem check_run {s : Entry} (hsrc : c.srcEntry env = .ok s) :
    c.check env c.locked = checked env s (c.dstEntry env).toOption (c.seen env) := by
  have hfi : lookupLocked env c.src c.srcName c.locked = .ok s (c.srcSeen env) :=
    lookupLocked_ok (onlyCaches_of_heldBy rfl) hsrc
  exact (bind_ok hfi).trans (bind_ok caught_dst)

theorem check_passes (h : c.Passes env) : c.check env c.locked = .ok () (c.seen env) := by
  obtain ⟨-, s, hsrc, hty⟩ := h
  rw [check_run hsrc]
  cases hdst : c.dstEntry env with
  | ok d => exact checkTypes_passes seen_onlyCaches (hty d hdst)
  | error e => rfl

theorem check_callsBack (h : c.CallsBack env) : Panics (c.check env) c.locked := by
  obtain ⟨-, s, d, dir, ino, name, hsrc, hdst, hli⟩ := h
  rw [Panics, check_run hsrc, hdst]
  exact checkTypes_lists hli

theorem check_refused (hleg : c.Legal) (h : ¬ c.Passes env) (hbk : ¬ c.CallsBack env) : Fails (c.check env) c.locked := by
  cases hsrc : c.srcEntry env with
  | error e => exact ⟨e, _, bind_error (lookupLocked_error (onlyCaches_of_heldBy rfl) hsrc), looked_content⟩
  | ok s =>
    have hpa : ¬ ∀ d, c.dstEntry env = .ok d → TypesPass env (c.seen env) s d := fun hty => h ⟨hleg, s, hsrc, hty⟩
    obtain ⟨d, hpa⟩ := not_forall.mp hpa
    obtain ⟨hdst, hty⟩ := Classical.not_imp.mp hpa
    obtain ⟨e, t, hrun, hsm⟩ := checkTypes_fails seen_onlyCaches hty fun dir ino name hli =>
      hbk ⟨hleg, s, d, dir, ino, name, hsrc, hdst, hli⟩
    rw [Fails, check_run hsrc, hdst]
    exact ⟨e, t, hrun, hsm.trans seen_content⟩

/-- Past the checks, the filesystem is next. -/
theorem body_passes (h : c.Passes env) : c.body env c.locked = c.finish env (c.seen env) := by
  rw [body_eq, bind_ok (check_passes h)]

theorem seen_both (env : Env) {kind : Kind} :
    ((c.seen env).node c.src).kind = kind ∧ ((c.seen env).node c.dst).kind = kind ↔ c.Both kind := by
  rw [Call.Both, seen_grown.node c.src c.srcMade, seen_grown.node c.dst c.dstMade]
  rfl

theorem finish_run (w : World) : c.finish env w =
    (opsRename env c.srcName c.dst c.dstName (w.node c.src) (w.node c.dst) >>= fun _ =>
      forgetBoth c.src c.srcName c.dst c.dstName) w := rfl

theorem finish_tmpfs (hleg : c.Legal) (h : c.Both .tmpfs) : Panics (c.finish env) (c.seen env) := by
  have hh : .cache c.dst ∈ (c.seen env).held := by
    rw [seen_grown.held]
    exact mem_heldBy.mpr (.inr rfl)
  exact (opsRename_tmpfs hh (short_of_legal hleg.2) ((seen_both env).mpr h)).bind

theorem finish_ext4 (h : c.Both .ext4) : c.finish env (c.seen env) = match env.rename with
    | .ok () => forgetBoth c.src c.srcName c.dst c.dstName (c.seen env)
    | .error e => .error (.error e) (c.seen env) := by
  have hrun : opsRename env c.srcName c.dst c.dstName _ _ (c.seen env) = _ :=
    opsRename_ext4 seen_onlyCaches ((seen_both env).mpr h)
  rw [finish_run]
  cases hreply : env.rename with
  | ok _ =>
    rw [hreply] at hrun
    exact bind_ok hrun
  | error e =>
    rw [hreply] at hrun
    exact bind_error hrun

theorem finish_refused (hext4 : ¬ c.Both .ext4) (htm : ¬ c.Both .tmpfs) :
    ∃ e, c.finish env (c.seen env) = .error (.error e) (c.seen env) := by
  obtain ⟨e, he⟩ : ∃ e, opsRename env c.srcName c.dst c.dstName _ _ (c.seen env) = .error (.error e) (c.seen env) :=
    opsRename_refused (mt (seen_both env).mp hext4) (mt (seen_both env).mp htm)
  exact ⟨e, (finish_run _).trans (bind_error he)⟩

theorem verify_run (h : legal name) : verify name w = .ok () w := by
  unfold legal at h
  unfold verify
  cases hnm : verifyEntryName name with
  | ok _ => rfl
  | error e =>
    rw [hnm] at h
    cases h

theorem verify_error (h : ¬ legal name) : ∃ e, verify name w = .error (.error e) w := by
  unfold legal at h
  unfold verify
  cases hnm : verifyEntryName name with
  | ok _ =>
    rw [hnm] at h
    exact absurd rfl h
  | error e => exact ⟨e, rfl⟩

theorem run_illegal (h : ¬ c.Legal) : ∃ e, c.run env = .error (.error e) c.world := by
  unfold Call.run rename
  by_cases hsrc : legal c.srcName
  · rw [bind_ok (verify_run hsrc)]
    obtain ⟨e, he⟩ : ∃ e, verify c.dstName c.world = .error (.error e) c.world := verify_error fun hdst => h ⟨hsrc, hdst⟩
    exact ⟨e, bind_error he⟩
  · obtain ⟨e, he⟩ : ∃ e, verify c.srcName c.world = .error (.error e) c.world := verify_error hsrc
    exact ⟨e, bind_error he⟩

/-- The two cache locks are all that is around the rest. -/
theorem run_legal (hleg : c.Legal) :
    (c.src = c.dst ∧ c.run env = locked (.cache c.src) (c.body env) c.world ∧ c.locked = c.world.hold (.cache c.src)) ∨
    (c.src ≠ c.dst ∧ c.run env = locked (.cache c.src) (locked (.cache c.dst) (c.body env)) c.world ∧
      c.locked = (c.world.hold (.cache c.src)).hold (.cache c.dst)) := by
  have hid := c.idle
  unfold Call.run rename Call.locked heldBy World.hold
  rw [bind_ok (verify_run hleg.1), bind_ok (verify_run hleg.2), hid]
  by_cases heq : c.src = c.dst
  · rw [if_pos heq, if_pos heq]
    exact .inl ⟨heq, rfl, rfl⟩
  · rw [if_neg heq, if_neg heq]
    exact .inr ⟨heq, rfl, rfl⟩

theorem src_free : .cache c.src ∉ c.world.held := by
  rw [c.idle]
  exact List.not_mem_nil

theorem dst_free (h : c.src ≠ c.dst) : .cache c.dst ∉ (c.world.hold (.cache c.src)).held := by
  rw [held_hold, c.idle, List.mem_singleton]
  exact mt Lock.cache.inj h.symm

theorem run_of_body_ok (hleg : c.Legal) (h : c.body env c.locked = .ok () t) : ∃ t', c.run env = .ok () t' := by
  obtain ⟨-, hrun, hlk⟩ | ⟨hne, hrun, hlk⟩ := @run_legal env c hleg
  · rw [hlk] at h
    exact ⟨_, hrun.trans (locked_run_ok src_free h)⟩
  · rw [hlk] at h
    exact ⟨_, hrun.trans (locked_run_ok src_free (locked_run_ok (dst_free hne) h))⟩

theorem run_of_body_error {stop : Stop} (hleg : c.Legal) (h : c.body env c.locked = .error stop t) :
    ∃ t', c.run env = .error stop t' ∧ t'.content = t.content := by
  obtain ⟨-, hrun, hlk⟩ | ⟨hne, hrun, hlk⟩ := @run_legal env c hleg
  · rw [hlk] at h
    exact ⟨_, hrun.trans (locked_run_error src_free h), rfl⟩
  · rw [hlk] at h
    exact ⟨_, hrun.trans (locked_run_error src_free (locked_run_error (dst_free hne) h)), rfl⟩

/-! ### Which renames get through -/

theorem run_panics (h : c.CallsBack env ∨ c.OnTmpfs env ∨ c.ForgetsLocked env) : ∃ t, c.run env = .error .panic t := by
  obtain ⟨hleg, t, ht⟩ : c.Legal ∧ Panics (c.body env) c.locked := by
    obtain hbk | ⟨hps, htm⟩ | ⟨hps, hext4, hre, hle⟩ := h
    · refine ⟨hbk.1, ?_⟩
      rw [body_eq]
      exact (check_callsBack hbk).bind
    · rw [Panics, body_passes hps]
      exact ⟨hps.1, finish_tmpfs hps.1 htm⟩
    · rw [Panics, body_passes hps, finish_ext4 hext4, hre]
      exact ⟨hps.1, forgetBoth_panics (seen_grown.younger c.younger) seen_grown.held hle⟩
  obtain ⟨t', ht', -⟩ := run_of_body_error hleg ht
  exact ⟨t', ht'⟩

theorem run_refused (h : ¬ c.Passes env) (hbk : ¬ c.CallsBack env) :
    ∃ e t, c.run env = .error (.error e) t ∧ t.content = c.world.content := by
  by_cases hleg : c.Legal
  · obtain ⟨e, t, ht, hsm⟩ := check_refused hleg h hbk
    obtain ⟨t', ht', hsm'⟩ := run_of_body_error hleg (body_eq ▸ bind_error ht)
    exact ⟨e, t', ht', hsm'.trans hsm⟩
  · obtain ⟨e, he⟩ := @run_illegal env c hleg
    exact ⟨e, c.world, he, rfl⟩

theorem run_ends (hps : c.Passes env) (htm : ¬ c.OnTmpfs env) (hfo : ¬ c.ForgetsLocked env) :
    (∃ t, c.run env = .ok () t) ∨ ∃ e t, c.run env = .error (.error e) t := by
  have hbd := body_passes hps
  by_cases hext4 : c.Both .ext4
  · have hfi := @finish_ext4 env c hext4
    cases hre : env.rename with
    | ok _ =>
      obtain ⟨t, ht⟩ := forgetBoth_ok (seen_grown.younger c.younger) seen_grown.held fun hle =>
        hfo ⟨hps, hext4, hre, hle⟩
      rw [hre] at hfi
      exact .inl (run_of_body_ok hps.1 (hbd.trans (hfi.trans ht)))
    | error e =>
      rw [hre] at hfi
      obtain ⟨t, ht, -⟩ := run_of_body_error hps.1 (hbd.trans hfi)
      exact .inr ⟨e, t, ht⟩
  · obtain ⟨e, he⟩ := @finish_refused env c hext4 fun hbo => htm ⟨hps, hbo⟩
    obtain ⟨t, ht, -⟩ := run_of_body_error hps.1 (hbd.trans he)
    exact .inr ⟨e, t, ht⟩

/-- **A rename never takes a lock twice, and does its work on tmpfs, exactly if it lists no locked directory, gets
nowhere on tmpfs, and forgets no locked directory on ext4.** -/
theorem Call.right_iff (env : Env) (c : Call) :
    c.Right env ↔ ¬ c.CallsBack env ∧ ¬ c.OnTmpfs env ∧ ¬ c.ForgetsLocked env := by
  constructor
  · intro hr
    have hfr : ¬ (c.CallsBack env ∨ c.OnTmpfs env ∨ c.ForgetsLocked env) := by
      intro h
      obtain ⟨t, ht⟩ := run_panics h
      exact hr.free t ht
    simpa only [not_or] using hfr
  · rintro ⟨hbk, htmpfs, hforgets⟩
    by_cases hps : c.Passes env
    · constructor
      · intro after hpanic
        obtain ⟨t, ht⟩ | ⟨e, t, ht⟩ := run_ends hps htmpfs hforgets
        · rw [hpanic] at ht
          cases ht
        · rw [hpanic] at ht
          cases ht
      · exact fun after hbo => absurd ⟨hps, hbo⟩ htmpfs
    · obtain ⟨e, t, ht, -⟩ := run_refused hps hbk
      constructor
      · intro after hpanic
        rw [hpanic] at ht
        cases ht
      · intro after _ hok
        rw [hok] at ht
        cases ht

/-! ### What the filesystem is asked -/

/-- The filesystem's own `rename` is called. -/
def Call.Asks (env : Env) (c : Call) : Prop := c.Legal ∧ ∃ t, c.check env c.locked = .ok () t

/-- What the contract of `DirNodeOps::rename` allows: the destination is absent, both are directories and it is empty with
nothing mounted on it, or neither is a directory. -/
def Call.Allowed (env : Env) (c : Call) (mounted : Nat → Prop) : Prop :=
  ∃ src, c.srcEntry env = .ok src ∧ match c.dstEntry env with
    | .error e => e = .enoent
    | .ok dst => match src.node, dst.node with
      | some _, some dir => Childless env (c.seen env) ((c.seen env).node dir) ∧ ¬ mounted dir
      | none, none => True
      | _, _ => False

/-- What the checks let through: a destination that could not be looked up, a file that a directory is to replace, a directory
with a mount. -/
def Call.Overlooks (env : Env) (c : Call) (mounted : Nat → Prop) : Prop :=
  c.Passes env ∧ match c.dstEntry env with
    | .error e => e ≠ .enoent
    | .ok dst => match dst.node with
      | none => ∃ src, c.srcEntry env = .ok src ∧ src.node.isSome
      | some dir => mounted dir

/-- The filesystem is asked for what it allows; anything else is an error, and the directories stay. -/
structure Call.Sound (env : Env) (c : Call) (mounted : Nat → Prop) : Prop where
  asked : c.Asks env → c.Allowed env mounted
  refused : ¬ c.Allowed env mounted → ∃ e t, c.run env = .error (.error e) t ∧ t.content = c.world.content

variable {mounted : Nat → Prop}

theorem asks_iff : c.Asks env ↔ c.Passes env := by
  constructor
  · rintro ⟨hleg, t, ht⟩
    by_contra hps
    by_cases hbk : c.CallsBack env
    · obtain ⟨t', ht'⟩ := check_callsBack hbk
      rw [ht] at ht'
      cases ht'
    · obtain ⟨e, t', ht', -⟩ := check_refused hleg hps hbk
      rw [ht] at ht'
      cases ht'
  · exact fun hps => ⟨hps.1, _, check_passes hps⟩

theorem allowed_iff (hps : c.Passes env) : c.Allowed env mounted ↔ ¬ c.Overlooks env mounted := by
  have ⟨_, src, hsrc, hty⟩ := hps
  unfold Call.Allowed Call.Overlooks
  rw [hsrc]
  cases hdst : c.dstEntry env with
  | error e => simp [hps]
  | ok dst =>
    have hpa := hty dst hdst
    unfold TypesPass at hpa
    cases hs : src.node <;> cases hd : dst.node <;> simp_all

theorem not_allowed_of_callsBack (h : c.CallsBack env) : ¬ c.Allowed env mounted := by
  rintro ⟨src', hsrc', hal⟩
  obtain ⟨-, src, dst, dir, ino, name, hsrc, hdst, hli⟩ := h
  obtain ⟨node, hnd⟩ := Option.isSome_iff_exists.mp hli.src
  cases hsrc.symm.trans hsrc'
  simp only [hdst, hnd, hli.dst, hli.node, Childless, hli.listed, reduceCtorEq, false_and] at hal

end Calls

/-! ### Renames that bring the kernel down -/

def leaf : (entries : List (FileName × Nat)) → BNode FileName Nat 0 entries.length
  | [] => .nil
  | e :: rest => .leaf e.1 e.2 (leaf rest)

/-- A few entries, in one leaf. -/
def oneLeaf (entries : List (FileName × Nat)) : DirContent :=
  if h : entries.length ≤ capacity then ⟨0, _, leaf entries, h, fun hpos => absurd hpos (Nat.lt_irrefl 0)⟩ else Tmpfs.dots 1 1

/-- A tmpfs with a directory "d" (inode 2) and a file "a" (inode 3) in its root. -/
def tmp : World where
  held := []
  next := 2
  node := fun n => ⟨.tmpfs, n + 1⟩
  cache := fun _ => []
  content := fun ino => if ino = 1 then oneLeaf [(⟨dot⟩, 1), (⟨dotdot⟩, 1), (⟨[0x61]⟩, 3), (⟨[0x64]⟩, 2)] else Tmpfs.dots ino 1

theorem younger_tmp : Younger tmp := fun _ _ h => absurd h List.not_mem_nil

/-- `rename("/tmp/a", "/tmp/b")`. -/
def tmpCall : Call := ⟨tmp, 0, [0x61], 0, [0x62], rfl, younger_tmp, Nat.zero_lt_two, Nat.zero_lt_two⟩

def tmpEnv : Env := ⟨fun ino => ino == 2, fun _ _ => .error .enoent, fun _ => .ok false, fun _ => [], .ok (), oneLeaf⟩

/-- A virtual directory "s" (inode 2) with a directory "k" (inode 3) in it, as far as they are cached. -/
def proc : World where
  held := []
  next := 2
  node := fun n => ⟨.virt, n + 1⟩
  cache := fun n => if n = 0 then [([0x73], ⟨2, some 1⟩)] else []
  content := fun ino => Tmpfs.dots ino 1

theorem younger_proc : Younger proc := by
  intro a b h
  by_cases ha : a = 0
  · have hb : b = 1 := by simpa [kids, proc, ha] using h
    rw [ha, hb]
    exact ⟨Nat.zero_lt_one, Nat.one_lt_two⟩
  · simp [kids, proc, ha] at h

/-- `rename("/proc/s/k", "/proc/s")`. -/
def procCall : Call := ⟨proc, 1, [0x6b], 0, [0x73], rfl, younger_proc, Nat.one_lt_two, Nat.zero_lt_two⟩

def procEnv : Env := ⟨fun _ => true, fun _ _ => .ok 3, fun _ => .ok false, fun _ => [[0x6b]], .ok (), oneLeaf⟩

/-- Both renames panic. Without the `DirNode`, `MemoryNode::rename` still locks one directory twice, and a directory that it
moves keeps its "..". -/
theorem rename_locks_wrong :
    ¬ tmpCall.Right tmpEnv ∧ ¬ procCall.Right procEnv ∧ (∃ t, moveContent tmpEnv 1 [0x61] 1 [0x62] tmp = .error .panic t) ∧
    ∃ t, moveContent tmpEnv 1 [0x64] 4 [0x64] tmp = .ok () t ∧ Tmpfs.get (t.content 2) dotdot = some 1 := by
  refine ⟨fun hr => ?_, fun hr => ?_, ⟨_, rfl⟩, _, rfl, rfl⟩
  · exact hr.free _ rfl
  · exact hr.free _ rfl

/-! ### Renames that the contract forbids -/

/-- An ext4 root with a directory "d", a file "f", a cached directory "s", and a block that cannot be read. -/
def disk : World := {proc with node := fun n => ⟨.ext4, n + 1⟩}

def diskEnv : Env where
  isDir ino := ino != 4
  lookup _ name := if name = [0x64] then .ok 3 else if name = [0x66] then .ok 4 else .error .eio
  hasChildren _ := .ok false
  names _ := []
  rename := .ok ()
  spread := oneLeaf

/-- `rename` of "/d" to another name in the root. -/
def diskCall (name : Str) : Call := ⟨disk, 0, [0x64], 0, name, rfl, younger_proc, Nat.zero_lt_two, Nat.zero_lt_two⟩

end StarryX.Fs.Locks
