import StarryX.Fs.Tmpfs
import StarryX.Library.Hoare

/-! The locks of a directory rename.

`DirNode::rename` keeps the cache locks of both directories while it calls the filesystem, and some
filesystems call the `DirNode` back. A task that takes a lock it holds panics. Here are the programs,
what their lookups do, and what it takes to forget a directory: `forgetBoth_panics` and
`forgetBoth_ok` say that the caches must not lead from it to one of the two that are locked. -/
namespace StarryX.Fs.Locks
open Library Function
open Tmpfs (DirContent FileName)

/-! ### What is locked -/

inductive Lock where
  | cache (node : Nat)
  | content (ino : Nat)
  | filesystem
  deriving DecidableEq

inductive Kind where
  | ext4 | tmpfs | virt
  deriving DecidableEq

/-- The operations behind a `DirNode`. -/
structure Node where
  kind : Kind
  ino : Nat

/-- A `DirEntry`: its inode, and its `DirNode` if it is a directory. -/
structure Entry where
  ino : Nat
  node : Option Nat

/-- What the task holds, the `DirNode`s made so far with their caches, and the directories of tmpfs. -/
structure World where
  held : List Lock
  next : Nat
  node : Nat → Node
  cache : Nat → List (Str × Entry)
  content : Nat → DirContent

abbrev LockM := EStateM Stop World

/-- What ext4 and the virtual directories answer, which inodes are directories, and how tmpfs spreads entries over nodes. -/
structure Env where
  isDir : Nat → Bool
  lookup : Nat → Str → LinuxResult Nat
  hasChildren : Nat → LinuxResult Bool
  names : Nat → List Str
  rename : LinuxResult Unit
  spread : List (FileName × Nat) → DirContent

/-! ### The programs -/

/-- `RawMutex::lock` when no other task has it: it asserts that the caller does not. -/
def lock (l : Lock) : LockM Unit := fun w =>
  if l ∈ w.held then .error .panic w else .ok () {w with held := l :: w.held}

def unlock (l : Lock) : LockM Unit := modify fun w => {w with held := w.held.erase l}

/-- A guard is dropped on every way out. -/
def locked {α : Type} (l : Lock) (body : LockM α) : LockM α := do
  lock l
  match ← attempt body with
  | .ok a => do
    unlock l
    pure a
  | .error stop => do
    unlock l
    throw stop

def reply {α : Type} : LinuxResult α → LockM α
  | .ok a => pure a
  | .error e => throw (.error e)

/-- `if let Ok(..)`: errors are dropped, panics are not. -/
def caught {α : Type} (x : LockM α) : LockM (Option α) := do
  match ← attempt x with
  | .ok a => pure (some a)
  | .error (.error _) => pure none
  | .error .panic => throw .panic

section Program
variable (env : Env)

def entryFor (w : World) (ino : Nat) : Entry := ⟨ino, if env.isDir ino then some w.next else none⟩

def withEntry (w : World) (kind : Kind) (ino : Nat) : World :=
  if env.isDir ino then
    {w with
      next := w.next + 1
      node := update w.node w.next ⟨kind, ino⟩
      cache := update w.cache w.next []}
  else w

/-- A directory gets a `DirNode` of its own. -/
def newEntry (kind : Kind) (ino : Nat) : LockM Entry := fun w => .ok (entryFor env w ino) (withEntry env w kind ino)

def orNotFound : Option Nat → LinuxResult Nat
  | some ino => .ok ino
  | none => .error .enoent

def makeEntry (kind : Kind) (found : LinuxResult Nat) : LockM Entry := do newEntry env kind (← reply found)

/-- `lookup` of the operations. -/
def opsLookup (name : Str) : Node → LockM Entry
  | ⟨.ext4, ino⟩ => locked .filesystem (makeEntry env .ext4 (env.lookup ino name))
  | ⟨.tmpfs, ino⟩ => locked (.content ino) (do
      makeEntry env .tmpfs (orNotFound (Tmpfs.get ((← get).content ino) name)))
  | ⟨.virt, ino⟩ => makeEntry env .virt (env.lookup ino name)

def lookupLocked (node : Nat) (name : Str) : LockM Entry := do
  match ((← get).cache node).lookup name with
  | some entry => pure entry
  | none => do
    let entry ← opsLookup env name ((← get).node node)
    modify fun w => {w with cache := update w.cache node ((name, entry) :: w.cache node)}
    pure entry

/-- `DirNode::lookup`. -/
def lookup (node : Nat) (name : Str) : LockM Entry :=
  if maxNameLen < name.length then throw (.error .enametoolong)
  else locked (.cache node) (lookupLocked env node name)

def isChild (name : Str) : Bool := name ≠ dot && name ≠ dotdot

/-- The first name is enough. -/
def listed (node : Nat) : Option Str → LockM Bool
  | some name => do
    let _ ← lookup env node name
    pure true
  | none => pure false

/-- `has_children`. A virtual directory looks up each name that it lists. -/
def hasChildren (node : Nat) : Node → LockM Bool
  | ⟨.ext4, ino⟩ => locked .filesystem (reply (env.hasChildren ino))
  | ⟨.tmpfs, ino⟩ => locked (.content ino) (do pure (((← get).content ino).toList.any fun e => isChild e.1.name))
  | ⟨.virt, ino⟩ => listed env node ((env.names ino).find? isChild)

def checkTypes (src dst : Entry) : LockM Unit :=
  match src.node, dst.node with
  | some _, some dir => do if ← hasChildren env dir ((← get).node dir) then throw (.error .enotempty) else pure ()
  | none, some _ => throw (.error .eisdir)
  | _, none => pure ()

def insertContent (ino : Nat) (name : Str) (child : Nat) : LockM Unit :=
  modify fun w => {w with
    content := update w.content ino (env.spread (insertSorted ⟨name⟩ child (w.content ino).toList))}

def removeContent (ino : Nat) (name : Str) : LockM Nat := do
  let child ← reply (orNotFound (Tmpfs.get ((← get).content ino) name))
  modify fun w => {w with content := update w.content ino (env.spread (Tmpfs.removed name (w.content ino).toList))}
  pure child

def moveContent (src : Nat) (srcName : Str) (dst : Nat) (dstName : Str) : LockM Unit :=
  locked (.content src) (do
    let child ← removeContent env src srcName
    locked (.content dst) (insertContent env dst dstName child))

/-- `MemoryNode::rename`. -/
def memoryRename (src : Nat) (srcName : Str) (dst : Nat) (dstName : Str) (dstNode : Nat) : LockM Unit := do
  match ← caught (lookup env dstNode dstName) with
  | some entry =>
    let srcEntry ← opsLookup env srcName ⟨.tmpfs, src⟩
    if entry.ino = srcEntry.ino then pure () else moveContent env src srcName dst dstName
  | none => moveContent env src srcName dst dstName

/-- `rename` of the operations. Both directories must be of one implementation. -/
def opsRename (srcName : Str) (dstNode : Nat) (dstName : Str) : Node → Node → LockM Unit
  | ⟨.ext4, _⟩, ⟨.ext4, _⟩ => locked .filesystem (reply env.rename)
  | ⟨.tmpfs, src⟩, ⟨.tmpfs, dst⟩ => memoryRename env src srcName dst dstName dstNode
  | ⟨.virt, _⟩, _ => throw (.error .erofs)
  | _, _ => throw (.error .einval)

/-- The cached directories in a directory. -/
def kids (cache : Nat → List (Str × Entry)) (node : Nat) : List Nat := (cache node).filterMap (·.2.node)

/-- `forget`: the lock stays while the children are forgotten. A child is younger than its parent, so that the number of
`DirNode`s bounds the depth. -/
def forget : Nat → Nat → LockM Unit
  | 0, _ => pure ()
  | fuel + 1, node => locked (.cache node) (do
      let children := kids (← get).cache node
      modify fun w => {w with cache := update w.cache node []}
      children.forM (forget fuel))

def forgetEntry (node : Nat) (name : Str) : LockM Unit := do
  let w ← get
  modify fun w => {w with cache := update w.cache node ((w.cache node).eraseP fun e => e.1 == name)}
  match ((w.cache node).lookup name).bind (·.node) with
  | some dir => forget w.next dir
  | none => pure ()

def verify (name : Str) : LockM Unit := reply (verifyEntryName name)

def checked (src : Entry) : Option Entry → LockM Unit
  | some dst => checkTypes env src dst
  | none => pure ()

def forgetBoth (src : Nat) (srcName : Str) (dst : Nat) (dstName : Str) : LockM Unit := do
  forgetEntry src srcName
  forgetEntry dst dstName

/-- `DirNode::rename`, with the caches locked. -/
def renameLocked (src : Nat) (srcName : Str) (dst : Nat) (dstName : Str) : LockM Unit := do
  let srcEntry ← lookupLocked env src srcName
  checked env srcEntry (← caught (lookupLocked env dst dstName))
  opsRename env srcName dst dstName ((← get).node src) ((← get).node dst)
  forgetBoth src srcName dst dstName

def rename (src : Nat) (srcName : Str) (dst : Nat) (dstName : Str) : LockM Unit := do
  verify srcName
  verify dstName
  locked (.cache src)
    (if src = dst then renameLocked env src srcName dst dstName
    else locked (.cache dst) (renameLocked env src srcName dst dstName))

end Program

/-! ### Runs -/

section Runs
variable {α β : Type} {w t : World} {l : Lock} {body : LockM α} {stop : Stop} {f : α → LockM β} {a : α}

def Panics (x : LockM α) (w : World) : Prop := ∃ t, x w = .error .panic t

theorem Panics.bind (h : Panics body w) : Panics (body >>= f) w := by
  obtain ⟨t, ht⟩ := h
  exact ⟨t, bind_error ht⟩

theorem Panics.after (h : body w = .ok a t) (hf : Panics (f a) t) : Panics (body >>= f) w := by
  obtain ⟨t', ht'⟩ := hf
  exact ⟨t', (bind_ok h).trans ht'⟩

def World.hold (w : World) (l : Lock) : World := {w with held := l :: w.held}

@[simp]
theorem held_hold : (w.hold l).held = l :: w.held := rfl

theorem lock_free (h : l ∉ w.held) : lock l w = .ok () (w.hold l) := by
  rw [lock, if_neg h]
  rfl

theorem locked_held (h : l ∈ w.held) : Panics (locked l body) w := by
  refine ⟨w, bind_error ?_⟩
  rw [lock, if_pos h]

theorem locked_run_ok (h : l ∉ w.held) (hrun : body (w.hold l) = .ok a t) :
    locked l body w = .ok a {t with held := t.held.erase l} := by
  rw [locked, bind_ok (lock_free h), bind_ok (attempt_ok hrun)]
  rfl

theorem locked_run_error (h : l ∉ w.held) (hrun : body (w.hold l) = .error stop t) :
    locked l body w = .error stop {t with held := t.held.erase l} := by
  rw [locked, bind_ok (lock_free h), bind_ok (attempt_error hrun)]
  rfl

theorem erase_hold : ({t.hold l with held := (t.hold l).held.erase l}) = t := by
  rw [held_hold, List.erase_cons_head]
  rfl

theorem locked_ok (h : l ∉ w.held) (hrun : body (w.hold l) = .ok a (t.hold l)) : locked l body w = .ok a t :=
  (locked_run_ok h hrun).trans (congrArg _ erase_hold)

theorem locked_error (h : l ∉ w.held) (hrun : body (w.hold l) = .error stop (t.hold l)) : locked l body w = .error stop t :=
  (locked_run_error h hrun).trans (congrArg _ erase_hold)

theorem Panics.locked (h : Panics body (w.hold l)) : Panics (locked l body) w := by
  by_cases hh : l ∈ w.held
  · exact locked_held hh
  · obtain ⟨t, ht⟩ := h
    exact ⟨_, locked_run_error hh ht⟩

theorem Panics.caught (h : Panics body w) : Panics (caught body) w := by
  obtain ⟨t, ht⟩ := h
  refine ⟨t, ?_⟩
  rw [Locks.caught, bind_ok (attempt_error ht)]
  rfl

end Runs

/-! ### Lookups -/

/-- Only caches are locked. -/
def World.OnlyCaches (w : World) : Prop := ∀ l ∈ w.held, ∃ node, l = .cache node

variable {entry : Entry} {n : Str}

section Lookups
variable {env : Env} {w : World} {node ino : Nat} {n : Str} {e : LinuxError}

theorem content_free (h : w.OnlyCaches) (ino : Nat) : .content ino ∉ w.held := by
  intro hmem
  obtain ⟨node, hnd⟩ := h _ hmem
  cases hnd

theorem filesystem_free (h : w.OnlyCaches) : .filesystem ∉ w.held := by
  intro hmem
  obtain ⟨node, hnd⟩ := h _ hmem
  cases hnd

/-- What the operations find. -/
def answer (env : Env) (w : World) (name : Str) : Node → LinuxResult Nat
  | ⟨.tmpfs, ino⟩ => orNotFound (Tmpfs.get (w.content ino) name)
  | ⟨_, ino⟩ => env.lookup ino name

variable {found : LinuxResult Nat}

theorem makeEntry_hold (l : Lock) (kind : Kind) (h : found = .ok ino) :
    makeEntry env kind found (w.hold l) = .ok (entryFor env w ino) ((withEntry env w kind ino).hold l) := by
  rw [h]
  show EStateM.Result.ok (entryFor env w ino) (withEntry env (w.hold l) kind ino) = _
  unfold withEntry
  split <;> rfl

theorem makeEntry_error (kind : Kind) (h : found = .error e) : makeEntry env kind found w = .error (.error e) w := by
  rw [h]
  rfl

theorem opsLookup_ok {n : Node} (hfr : w.OnlyCaches) (h : answer env w name n = .ok ino) :
    opsLookup env name n w = .ok (entryFor env w ino) (withEntry env w n.kind ino) := by
  obtain ⟨kind, dir⟩ := n
  cases kind with
  | ext4 => exact locked_ok (filesystem_free hfr) (makeEntry_hold .filesystem .ext4 h)
  | tmpfs => exact locked_ok (content_free hfr dir) (makeEntry_hold (.content dir) .tmpfs h)
  | virt =>
    simp only [answer] at h
    rw [opsLookup, h]
    rfl

theorem opsLookup_error {n : Node} (hfr : w.OnlyCaches) (h : answer env w name n = .error e) :
    opsLookup env name n w = .error (.error e) w := by
  obtain ⟨kind, dir⟩ := n
  cases kind with
  | ext4 => exact locked_error (filesystem_free hfr) (makeEntry_error .ext4 h)
  | tmpfs => exact locked_error (content_free hfr dir) (makeEntry_error .tmpfs h)
  | virt => exact makeEntry_error .virt h

def remember (w : World) (node : Nat) (name : Str) (entry : Entry) : World :=
  {w with cache := update w.cache node ((name, entry) :: w.cache node)}

/-- What a lookup gives, and the world it leaves. -/
def peek (env : Env) (w : World) (node : Nat) (name : Str) : LinuxResult Entry :=
  match (w.cache node).lookup name with
  | some entry => .ok entry
  | none => (answer env w name (w.node node)).map (entryFor env w)

def looked (env : Env) (w : World) (node : Nat) (name : Str) : World :=
  match (w.cache node).lookup name, answer env w name (w.node node) with
  | none, .ok ino => remember (withEntry env w (w.node node).kind ino) node name (entryFor env w ino)
  | _, _ => w

theorem lookupLocked_missed (h : (w.cache node).lookup n = none) : lookupLocked env node n w = (do
    let entry ← opsLookup env n (w.node node)
    modify fun w => {w with cache := update w.cache node ((n, entry) :: w.cache node)}
    pure entry : LockM Entry) w := by
  show (match (w.cache node).lookup n with | some entry => pure entry | none => _ : LockM Entry) w = _
  rw [h]
  rfl

theorem lookupLocked_run (hfr : w.OnlyCaches) : lookupLocked env node n w = match peek env w node n with
    | .ok entry => .ok entry (looked env w node n)
    | .error e => .error (.error e) (looked env w node n) := by
  unfold peek looked
  cases hcache : (w.cache node).lookup n with
  | some cached =>
    show (match (w.cache node).lookup n with | some entry => pure entry | none => _ : LockM Entry) w = _
    rw [hcache]
    rfl
  | none =>
    rw [lookupLocked_missed hcache]
    cases hans : answer env w n (w.node node) with
    | ok ino =>
      rw [bind_ok (opsLookup_ok hfr hans)]
      rfl
    | error e =>
      rw [bind_error (opsLookup_error hfr hans)]
      rfl

theorem lookupLocked_ok (hfr : w.OnlyCaches) (h : peek env w node n = .ok entry) :
    lookupLocked env node n w = .ok entry (looked env w node n) := by
  rw [lookupLocked_run hfr, h]

theorem lookupLocked_error (hfr : w.OnlyCaches) (h : peek env w node n = .error e) :
    lookupLocked env node n w = .error (.error e) (looked env w node n) := by
  rw [lookupLocked_run hfr, h]

end Lookups

/-! ### Forgetting -/

section Forgetting

abbrev Cache := Nat → List (Str × Entry)

def Reaches (cache : Cache) : Nat → Nat → Prop := Relation.ReflTransGen fun a b => b ∈ kids cache a

/-- Children are made after their parents. -/
def Younger (w : World) : Prop := ∀ a b, b ∈ kids w.cache a → a < b ∧ b < w.next

/-- A directory below this one is locked. -/
def HeldBelow (w : World) (node : Nat) : Prop := ∃ h, .cache h ∈ w.held ∧ Reaches w.cache node h

variable {cache cache' : Cache} {w t : World} {a z node c x : Nat} {roots : List Nat}

theorem Reaches.le (hyg : Younger w) (h : Reaches w.cache a z) : a ≤ z := by
  induction h with
  | refl => exact Nat.le_refl a
  | tail _ hch ih => exact ih.trans (Nat.le_of_lt (hyg _ _ hch).1)

theorem Reaches.mono (hsub : ∀ x, kids cache' x ⊆ kids cache x) (h : Reaches cache' a z) : Reaches cache a z :=
  Relation.ReflTransGen.mono (fun x _ hch => hsub x hch) _ _ h

/-- A way stays if the caches on it do. -/
theorem Reaches.kept (h : Reaches cache a z)
    (hk : ∀ x, x ≠ z → Reaches cache a x → Reaches cache x z → cache' x = cache x) : Reaches cache' a z := by
  induction h using Relation.ReflTransGen.head_induction_on with
  | refl => exact .refl
  | @head a b hch hrs ih =>
    by_cases ha : a = z
    · rw [ha]
      exact .refl
    · refine .head ?_ (ih fun x hne hx => hk x hne (.head hch hx))
      have hsm := hk a ha .refl (.head hch hrs)
      simpa [kids, hsm] using hch

/-- The caches below some directories may have been emptied. -/
structure Forgot (roots : List Nat) (w t : World) : Prop where
  held : t.held = w.held
  next : t.next = w.next
  cache : ∀ x, t.cache x = w.cache x ∨ t.cache x = [] ∧ ∃ r ∈ roots, Reaches w.cache r x

theorem Younger.sub (h : Younger w) (hnx : t.next = w.next) (hsub : ∀ x, kids t.cache x ⊆ kids w.cache x) : Younger t := by
  intro a b hch
  rw [hnx]
  exact h a b (hsub a hch)

theorem Forgot.sub (h : Forgot roots w t) (x : Nat) : kids t.cache x ⊆ kids w.cache x := by
  obtain hsm | ⟨hem, -⟩ := h.cache x
  · simp [kids, hsm]
  · simp [kids, hem]

theorem Forgot.heldBelow (h : Forgot roots w t) (hh : HeldBelow t a) : HeldBelow w a := by
  obtain ⟨z, hz, hre⟩ := hh
  exact ⟨z, h.held ▸ hz, hre.mono h.sub⟩

/-- What was forgotten led to no lock. -/
theorem Forgot.heldBelow_of (h : Forgot [c] w t) (hfr : ¬ HeldBelow w c) (hh : HeldBelow w a) : HeldBelow t a := by
  obtain ⟨z, hz, hre⟩ := hh
  refine ⟨z, h.held ▸ hz, hre.kept fun x _ _ hx => ?_⟩
  obtain hsm | ⟨-, r, hr, hb⟩ := h.cache x
  · exact hsm
  · rw [List.mem_singleton.mp hr] at hb
    exact absurd ⟨z, hz, hb.trans hx⟩ hfr

/-- What forgetting does, if this much fuel is enough. -/
def ForgetSpec (fuel : Nat) : Prop := ∀ (w : World) (node : Nat), Younger w → w.next ≤ fuel + node → node < w.next →
  (HeldBelow w node → Panics (forget fuel node) w) ∧
  (¬ HeldBelow w node → ∃ t, forget fuel node w = .ok () t ∧ Forgot [node] w t)

theorem forgetAll_spec {fuel : Nat} (hs : ForgetSpec fuel) (cs : List Nat) : ∀ w : World, Younger w →
    (∀ c ∈ cs, w.next ≤ fuel + c ∧ c < w.next) →
    ((∃ c ∈ cs, HeldBelow w c) → Panics (cs.forM (forget fuel)) w) ∧
    ((∀ c ∈ cs, ¬ HeldBelow w c) → ∃ t, cs.forM (forget fuel) w = .ok () t ∧ Forgot cs w t) := by
  induction cs with
  | nil =>
    intro w _ _
    refine ⟨fun ⟨c, hc, _⟩ => absurd hc List.not_mem_nil, fun _ => ⟨w, rfl, rfl, rfl, fun x => .inl rfl⟩⟩
  | cons c rest ih =>
    intro w hyg hbo
    obtain ⟨hfu, hc⟩ := hbo c (.head _)
    obtain ⟨hpa, hfo⟩ := hs w c hyg hfu hc
    by_cases hh : HeldBelow w c
    · refine ⟨fun _ => (hpa hh).bind, fun hfr => absurd hh (hfr c (.head _))⟩
    · obtain ⟨t, hrun, hfg⟩ := hfo hh
      have hrs := ih t (hyg.sub hfg.next hfg.sub) (by
        rw [hfg.next]
        exact fun c' hc' => hbo c' (.tail _ hc'))
      constructor
      · rintro ⟨c', hc', hb⟩
        obtain rfl | hc' := List.mem_cons.mp hc'
        · exact absurd hb hh
        · exact (hrs.1 ⟨c', hc', hfg.heldBelow_of hh hb⟩).after hrun
      · intro hfr
        obtain ⟨t', hrun', hfo'⟩ := hrs.2 fun c' hc' hb =>
          hfr c' (.tail _ hc') (hfg.heldBelow hb)
        refine ⟨t', (bind_ok hrun).trans hrun', hfo'.held.trans hfg.held, hfo'.next.trans hfg.next, fun x => ?_⟩
        obtain hsm | ⟨hem, r, hr, hb⟩ := hfo'.cache x
        · rw [hsm]
          exact (hfg.cache x).imp_right fun ⟨hem, r, hr, hb⟩ =>
            ⟨hem, r, List.mem_cons.mpr (.inl (List.mem_singleton.mp hr)), hb⟩
        · exact .inr ⟨hem, r, .tail _ hr, hb.mono hfg.sub⟩

/-- A directory that is being forgotten: locked, with its cache taken. -/
def taken (w : World) (node : Nat) : World := {w.hold (.cache node) with cache := update w.cache node []}

theorem taken_self : (taken w node).cache node = [] := update_self _ _ _

theorem taken_of_ne (hx : x ≠ node) : (taken w node).cache x = w.cache x := update_of_ne hx _ _

theorem taken_sub (x : Nat) : kids (taken w node).cache x ⊆ kids w.cache x := by
  by_cases hx : x = node
  · rw [hx, kids, taken_self]
    exact List.nil_subset _
  · rw [kids, taken_of_ne hx]
    exact .refl _

/-- Below a child nothing has changed. -/
theorem heldBelow_taken (hyg : Younger w) (hc : c ∈ kids w.cache node) :
    HeldBelow (taken w node) c ↔ HeldBelow w c := by
  have hlt := (hyg _ _ hc).1
  constructor
  · rintro ⟨z, hz, hre⟩
    have hb : Reaches w.cache c z := hre.mono taken_sub
    obtain hse | hz := List.mem_cons.mp hz
    · have hle := hb.le hyg
      rw [Lock.cache.inj hse] at hle
      exact absurd hlt (Nat.not_lt.mpr hle)
    · exact ⟨z, hz, hb⟩
  · rintro ⟨z, hz, hre⟩
    refine ⟨z, .tail _ hz, hre.kept fun x _ hx _ => ?_⟩
    have hne : x ≠ node := (Nat.lt_of_lt_of_le hlt (hx.le hyg)).ne'
    exact taken_of_ne hne

theorem heldBelow_iff (hfr : .cache node ∉ w.held) : HeldBelow w node ↔ ∃ c ∈ kids w.cache node, HeldBelow w c := by
  constructor
  · rintro ⟨z, hz, hre⟩
    obtain rfl | ⟨c, hc, hrs⟩ := Relation.ReflTransGen.cases_head hre
    · exact absurd hz hfr
    · exact ⟨c, hc, z, hz, hrs⟩
  · rintro ⟨c, hc, z, hz, hrs⟩
    exact ⟨z, hz, .head hc hrs⟩

theorem forget_spec (fuel : Nat) : ForgetSpec fuel := by
  induction fuel with
  | zero =>
    intro w node _ hfu hnd
    omega
  | succ fuel ih =>
    intro w node hyg hfu hnd
    by_cases hh : .cache node ∈ w.held
    · exact ⟨fun _ => locked_held hh, fun hfr => absurd ⟨node, hh, .refl⟩ hfr⟩
    have hrun : (do
        let cs := kids (← get).cache node
        modify fun w => {w with cache := update w.cache node []}
        cs.forM (forget fuel) : LockM Unit) (w.hold (.cache node)) =
          (kids w.cache node).forM (forget fuel) (taken w node) := rfl
    have hall := forgetAll_spec ih (kids w.cache node) (taken w node) (hyg.sub rfl taken_sub) fun c hc => by
      have hbo := hyg _ _ hc
      show w.next ≤ fuel + c ∧ c < w.next
      omega
    rw [heldBelow_iff hh]
    constructor
    · rintro ⟨c, hc, hb⟩
      obtain ⟨t, ht⟩ := hall.1 ⟨c, hc, (heldBelow_taken hyg hc).mpr hb⟩
      exact .locked ⟨t, hrun.trans ht⟩
    · intro hn
      obtain ⟨t, ht, hfg⟩ := hall.2 fun c hc hb => hn ⟨c, hc, (heldBelow_taken hyg hc).mp hb⟩
      have hho : t = ({t with held := w.held}).hold (.cache node) := by
        have hsm := hfg.held
        cases t
        cases hsm
        rfl
      refine ⟨{t with held := w.held}, locked_ok hh (hrun.trans (ht.trans (hho ▸ rfl))), rfl, hfg.next, fun x => ?_⟩
      obtain hsm | ⟨hem, r, hr, hb⟩ := hfg.cache x
      · by_cases hx : x = node
        · refine .inr ⟨?_, node, List.mem_singleton_self node, hx ▸ .refl⟩
          rw [hsm, hx, taken_self]
        · exact .inl (hsm.trans (taken_of_ne hx))
      · exact .inr ⟨hem, node, List.mem_singleton_self node, .head hr (hb.mono taken_sub)⟩

/-- The `DirNode` a cache has for a name. -/
def entryDir (w : World) (node : Nat) (name : Str) : Option Nat := ((w.cache node).lookup name).bind (·.node)

theorem mem_of_lookup {es : List (Str × Entry)} (h : es.lookup n = some entry) :
    (n, entry) ∈ es := by
  induction es with
  | nil => cases h
  | cons e rest ih =>
    rw [List.lookup_cons] at h
    split at h
    next heq =>
      cases h
      rw [eq_of_beq heq]
      exact .head _
    · exact .tail _ (ih h)

theorem kid_of_entryDir (h : entryDir w node n = some c) : c ∈ kids w.cache node := by
  obtain ⟨entry, he, hc⟩ := Option.bind_eq_some_iff.mp h
  exact List.mem_filterMap.mpr ⟨_, mem_of_lookup he, hc⟩

/-- A cache without one of its entries. -/
def dropped (w : World) (node : Nat) (name : Str) : World :=
  {w with cache := update w.cache node ((w.cache node).eraseP fun e => e.1 == name)}

theorem dropped_of_ne (hx : x ≠ node) : (dropped w node n).cache x = w.cache x :=
  update_of_ne hx _ _

theorem dropped_sub (x : Nat) : kids (dropped w node n).cache x ⊆ kids w.cache x := by
  by_cases hx : x = node
  · have hse : (dropped w node n).cache node = (w.cache node).eraseP fun e => e.1 == n := update_self _ _ _
    rw [hx, kids, hse]
    exact (List.eraseP_sublist.filterMap _).subset
  · rw [kids, dropped_of_ne hx]
    exact .refl _

theorem heldBelow_dropped (hyg : Younger w) (hc : c ∈ kids w.cache node) :
    HeldBelow (dropped w node n) c ↔ HeldBelow w c := by
  have hlt := (hyg _ _ hc).1
  constructor
  · rintro ⟨z, hz, hre⟩
    exact ⟨z, hz, hre.mono dropped_sub⟩
  · rintro ⟨z, hz, hre⟩
    refine ⟨z, hz, hre.kept fun x _ hx _ => dropped_of_ne ?_⟩
    exact (Nat.lt_of_lt_of_le hlt (hx.le hyg)).ne'

theorem forgetEntry_none (h : entryDir w node n = none) :
    forgetEntry node n w = .ok () (dropped w node n) := by
  show (match entryDir w node n with | some dir => forget w.next dir | none => pure () : LockM Unit) (dropped w node n) = _
  rw [h]
  rfl

theorem forgetEntry_some (h : entryDir w node n = some c) :
    forgetEntry node n w = forget w.next c (dropped w node n) := by
  show (match entryDir w node n with | some dir => forget w.next dir | none => pure () : LockM Unit) (dropped w node n) = _
  rw [h]

theorem forgetEntry_spec (hyg : Younger w) (h : entryDir w node n = some c) :
    (HeldBelow w c → Panics (forgetEntry node n) w) ∧
    (¬ HeldBelow w c → ∃ t, forgetEntry node n w = .ok () t ∧ Forgot [c] (dropped w node n) t) := by
  have hc := kid_of_entryDir h
  have hnx := (hyg _ _ hc).2
  have hs := forget_spec w.next (dropped w node n) c (hyg.sub rfl dropped_sub) (Nat.le_add_right _ _) hnx
  rw [heldBelow_dropped hyg hc] at hs
  rw [Panics, forgetEntry_some h]
  exact hs

end Forgetting

/-! ### Forgetting both names -/

def heldBy (src dst : Nat) : List Lock := if src = dst then [.cache src] else [.cache dst, .cache src]

theorem mem_heldBy {src dst z : Nat} : .cache z ∈ heldBy src dst ↔ z = src ∨ z = dst := by
  unfold heldBy
  split_ifs with hsm
  · simp [hsm]
  · simp [or_comm]

/-- The caches lead from what is forgotten to a directory that is locked. -/
def LeadsToLocked (w : World) (src : Nat) (srcName : Str) (dst : Nat) (dstName : Str) : Prop :=
  (∃ c, entryDir w src srcName = some c ∧ Reaches w.cache c dst) ∨
  (∃ c, entryDir w dst dstName = some c ∧ Reaches w.cache c src)

section Both
variable {w t : World} {src dst c : Nat} {srcName dstName : Str}

theorem lt_of_entryDir (hyg : Younger w) {node : Nat} (h : entryDir w node n = some c) : node < c :=
  (hyg _ _ (kid_of_entryDir h)).1

/-- What the first of the two leaves. -/
structure Dropped (src dst : Nat) (w t : World) : Prop where
  held : t.held = w.held
  next : t.next = w.next
  sub : ∀ x, kids t.cache x ⊆ kids w.cache x
  older : ∀ x, x < src → t.cache x = w.cache x
  dst : dst ≠ src → t.cache dst = w.cache dst

section
variable (hyg : Younger w) (hh : w.held = heldBy src dst)
include hyg hh

theorem forgetEntry_src (hfr : ∀ c, entryDir w src srcName = some c → ¬ Reaches w.cache c dst) :
    ∃ t, forgetEntry src srcName w = .ok () t ∧ Dropped src dst w t := by
  cases he : entryDir w src srcName with
  | none =>
    exact ⟨_, forgetEntry_none he, rfl, rfl, dropped_sub, fun x hx => dropped_of_ne hx.ne, dropped_of_ne⟩
  | some c =>
    have hlt := lt_of_entryDir hyg he
    have hn : ¬ HeldBelow w c := by
      rintro ⟨z, hz, hre⟩
      rw [hh, mem_heldBy] at hz
      obtain rfl | rfl := hz
      · exact absurd (hre.le hyg) (Nat.not_le.mpr hlt)
      · exact hfr c he hre
    obtain ⟨t, hrun, hfg⟩ := (forgetEntry_spec hyg he).2 hn
    have hk : ∀ x, ¬ Reaches w.cache c x → x ≠ src → t.cache x = w.cache x := by
      intro x hx hne
      obtain hsm | ⟨-, r, hr, hb⟩ := hfg.cache x
      · rw [hsm, dropped_of_ne hne]
      · rw [List.mem_singleton.mp hr] at hb
        exact absurd (hb.mono dropped_sub) hx
    refine ⟨t, hrun, hfg.held, hfg.next, fun x y hy => dropped_sub x (hfg.sub x hy),
      fun x hx => ?_, ?_⟩
    · refine hk x (fun hre => ?_) hx.ne
      exact absurd (hre.le hyg) (Nat.not_le.mpr (Nat.lt_trans hx hlt))
    · exact hk dst (hfr c he)

theorem forgetEntry_dst (h : Dropped src dst w t)
    (hfr : ∀ c, entryDir w dst dstName = some c → ¬ Reaches w.cache c src) : ∃ t', forgetEntry dst dstName t = .ok () t' := by
  have hyo' : Younger t := hyg.sub h.next h.sub
  cases he : entryDir t dst dstName with
  | none => exact ⟨_, forgetEntry_none he⟩
  | some c =>
    have hlt := lt_of_entryDir hyo' he
    have hn : ¬ HeldBelow t c := by
      rintro ⟨z, hz, hre⟩
      have hle := hre.le hyo'
      rw [h.held, hh, mem_heldBy] at hz
      obtain rfl | rfl := hz
      · by_cases hsm : dst = z
        · exact absurd hle (Nat.not_le.mpr (hsm ▸ hlt))
        · rw [entryDir, h.dst hsm] at he
          exact hfr c he (hre.mono h.sub)
      · exact absurd hle (Nat.not_le.mpr hlt)
    obtain ⟨t', hrun, -⟩ := (forgetEntry_spec hyo' he).2 hn
    exact ⟨t', hrun⟩

theorem forgetEntry_dst_panics (h : Dropped src dst w t)
    (he : entryDir w dst dstName = some c) (hre : Reaches w.cache c src) : Panics (forgetEntry dst dstName) t := by
  have hne : dst ≠ src := by
    rintro rfl
    exact absurd (hre.le hyg) (Nat.not_le.mpr (lt_of_entryDir hyg he))
  have hen' : entryDir t dst dstName = some c := by rw [entryDir, h.dst hne, ← entryDir, he]
  have hyo' : Younger t := hyg.sub h.next h.sub
  refine (forgetEntry_spec hyo' hen').1 ⟨src, ?_, hre.kept fun x hx _ hb => h.older x ?_⟩
  · rw [h.held, hh, mem_heldBy]
    exact .inl rfl
  · exact Nat.lt_of_le_of_ne (hb.le hyg) hx

theorem forgetBoth_panics
    (h : LeadsToLocked w src srcName dst dstName) : Panics (forgetBoth src srcName dst dstName) w := by
  by_cases hsrc : ∃ c, entryDir w src srcName = some c ∧ Reaches w.cache c dst
  · obtain ⟨c, he, hre⟩ := hsrc
    refine ((forgetEntry_spec hyg he).1 ⟨dst, ?_, hre⟩).bind
    rw [hh, mem_heldBy]
    exact .inr rfl
  · obtain ⟨c, he, hre⟩ := h.resolve_left hsrc
    obtain ⟨t, hrun, hdr⟩ := forgetEntry_src hyg hh fun c he hre => hsrc ⟨c, he, hre⟩
    exact (forgetEntry_dst_panics hyg hh hdr he hre).after hrun

theorem forgetBoth_ok
    (h : ¬ LeadsToLocked w src srcName dst dstName) : ∃ t, forgetBoth src srcName dst dstName w = .ok () t := by
  obtain ⟨hsrc, hdst⟩ := not_or.mp h
  obtain ⟨t, hrun, hdr⟩ := forgetEntry_src hyg hh fun c he hre => hsrc ⟨c, he, hre⟩
  obtain ⟨t', hrun'⟩ := forgetEntry_dst hyg hh hdr fun c he hre => hdst ⟨c, he, hre⟩
  exact ⟨t', (bind_ok hrun).trans hrun'⟩

end

end Both

end StarryX.Fs.Locks
