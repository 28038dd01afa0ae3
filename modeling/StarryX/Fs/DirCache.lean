import StarryX.Fs.Locks
import StarryX.Library.Machine

/-! The entry caches of directories.

Each `DirNode` caches what it has looked up or made. A directory that was renamed gets a new `DirNode`
at the next lookup, while the old one may still be held, so that two caches describe one directory.
`coherent_of_safe` says in which runs every cache agrees with the filesystem: where no operation changes a
name that another `DirNode` of the same directory has cached, and none fails after it changed a name
that its own `DirNode` may have cached.

The filesystem is any one whose operations change at most the names they are given. -/
namespace StarryX.Fs.DirCache
open Library Function
open Locks (Entry Cache kids)
open List (lookup_cons mem_cons_of_mem mem_singleton)

/-! ### The programs -/

/-- The `DirNode`s made so far, the inode and the cache of each, and what the filesystem finds. -/
structure Vfs where
  next : Nat
  ino : Nat → Nat
  cache : Cache
  fs : Nat → Str → Option Nat

abbrev VfsM := EStateM LinuxError Vfs

/-- What the filesystem answers to one call: which inodes are directories, whether its lookups and its check for children
fail, what the operation returns, and what the names are bound to afterwards. An operation that the call does not come to
leaves them as they are. -/
structure Answers where
  dir : Nat → Bool
  fault : Option LinuxError
  dstFault : Option LinuxError
  occupied : LinuxResult Bool
  result : LinuxResult Nat
  bound : Option Nat
  srcBound : Option Nat
  metadata : LinuxResult Unit

def reply {α : Type} : LinuxResult α → VfsM α
  | .ok a => pure a
  | .error e => throw e

def faulty : Option LinuxError → VfsM Unit
  | none => pure ()
  | some e => throw e

def orNotFound : Option Nat → VfsM Nat
  | some ino => pure ino
  | none => throw .enoent

def opsLookup (fault : Option LinuxError) (node : Nat) (name : Str) : VfsM Nat := do
  faulty fault
  let s ← get
  orNotFound (s.fs (s.ino node) name)

section Program
variable (a : Answers)

/-- A directory gets a `DirNode` of its own. -/
def newEntry (ino : Nat) : VfsM Entry := fun s =>
  if a.dir ino then
    .ok ⟨ino, some s.next⟩
      {s with
        next := s.next + 1
        ino := update s.ino s.next ino
        cache := update s.cache s.next []}
  else .ok ⟨ino, none⟩ s

def remembered (cache : Cache) (node : Nat) (name : Str) (entry : Entry) : Cache :=
  update cache node ((name, entry) :: (cache node).filter fun e => e.1 != name)

def remember (node : Nat) (name : Str) (entry : Entry) : VfsM Unit :=
  modify fun s => {s with cache := remembered s.cache node name entry}

def orElseLookup (fault : Option LinuxError) (node : Nat) (name : Str) : Option Entry → VfsM Entry
  | some entry => pure entry
  | none => do
    let entry ← newEntry a (← opsLookup fault node name)
    remember node name entry
    pure entry

def lookupLocked (fault : Option LinuxError) (node : Nat) (name : Str) : VfsM Entry := do
  orElseLookup a fault node name (((← get).cache node).lookup name)

def lookup (node : Nat) (name : Str) : VfsM Unit :=
  if maxNameLen < name.length then throw .enametoolong
  else do
    let _ ← lookupLocked a a.fault node name

/-- The filesystem binds a name, or gives it up. -/
def rebind (fs : Nat → Str → Option Nat) (dir : Nat) (name : Str) (bound : Option Nat) : Nat → Str → Option Nat :=
  fun d n => if d = dir ∧ n = name then bound else fs d n

def bindName (node : Nat) (name : Str) (bound : Option Nat) : VfsM Unit :=
  modify fun s => {s with fs := rebind s.fs (s.ino node) name bound}

/-- `create_locked`, and what `link` does. -/
def bindEntry (node : Nat) (name : Str) : VfsM Unit := do
  bindName node name a.bound
  let entry ← newEntry a (← reply a.result)
  remember node name entry

def verify (name : Str) : VfsM Unit := reply (verifyEntryName name)

def create (node : Nat) (name : Str) : VfsM Unit := do
  verify name
  bindEntry a node name

def link (node : Nat) (name : Str) : VfsM Unit := do
  verify name
  bindEntry a node name

/-- Children are younger than their parents, so that the number of `DirNode`s is fuel enough. -/
def forget : Nat → Nat → Cache → Cache
  | 0, _, cache => cache
  | fuel + 1, node, cache =>
    (kids cache node).foldl (fun cache child => forget fuel child cache) (update cache node [])

def forgetDir (fuel : Nat) (cache : Cache) : Option Nat → Cache
  | some dir => forget fuel dir cache
  | none => cache

def dropName (cache : Cache) (node : Nat) (name : Str) : Cache :=
  update cache node ((cache node).filter fun e => e.1 != name)

def forgetEntry (node : Nat) (name : Str) : VfsM Unit := modify fun s =>
  {s with cache := forgetDir s.next (dropName s.cache node name) (((s.cache node).lookup name).bind (·.node))}

def checkKind : Bool → Bool → VfsM Unit
  | true, false => throw .eisdir
  | false, true => throw .enotdir
  | _, _ => pure ()

def unlink (node : Nat) (name : Str) (isDir : Bool) : VfsM Unit := do
  verify name
  let entry ← lookupLocked a a.fault node name
  checkKind entry.node.isSome isDir
  bindName node name a.bound
  let _ ← reply a.result
  forgetEntry node name

/-- What is asked of a destination that is there. -/
def checkNodes : Option Nat → Option Nat → VfsM Unit
  | some _, some _ => do if ← reply a.occupied then throw .enotempty else pure ()
  | none, some _ => throw .eisdir
  | _, none => pure ()

def checkTypes (src : Entry) : Except LinuxError Entry → VfsM Unit
  | .error _ => pure ()
  | .ok dst => checkNodes a src.node dst.node

def rename (src : Nat) (srcName : Str) (dst : Nat) (dstName : Str) : VfsM Unit := do
  verify srcName
  verify dstName
  let entry ← lookupLocked a a.fault src srcName
  checkTypes a entry (← attempt (lookupLocked a a.dstFault dst dstName))
  bindName src srcName a.srcBound
  bindName dst dstName a.bound
  let _ ← reply a.result
  forgetEntry src srcName
  forgetEntry dst dstName

/-- A file that is made may get an owner; its entry stays if that fails. -/
def openMissing (node : Nat) (name : Str) (create user : Bool) (e : LinuxError) : VfsM Unit :=
  if e = .enoent ∧ create then do
    bindEntry a node name
    if user then reply a.metadata else pure ()
  else throw e

def openFileOrCreate (node : Nat) (name : Str) (create createNew user : Bool) : VfsM Unit := do
  verify name
  match ← attempt (lookupLocked a a.fault node name) with
  | .ok _ => if createNew then throw .eexist else pure ()
  | .error e => openMissing a node name create user e

end Program

/-! ### Runs -/

inductive Op where
  | lookup (node : Nat) (name : Str)
  | create (node : Nat) (name : Str)
  | link (node : Nat) (name : Str)
  | unlink (node : Nat) (name : Str) (isDir : Bool)
  | rename (src : Nat) (srcName : Str) (dst : Nat) (dstName : Str)
  | openFileOrCreate (node : Nat) (name : Str) (create createNew user : Bool)

/-- The `DirNode`s it goes through. -/
def Op.nodes : Op → List Nat
  | .lookup node _ | .create node _ | .link node _ | .unlink node _ _ | .openFileOrCreate node _ _ _ _ => [node]
  | .rename src _ dst _ => [src, dst]

structure Label where
  op : Op
  answers : Answers

def Label.program (l : Label) : VfsM Unit :=
  match l.op with
  | .lookup node name => lookup l.answers node name
  | .create node name => create l.answers node name
  | .link node name => link l.answers node name
  | .unlink node name isDir => unlink l.answers node name isDir
  | .rename src srcName dst dstName => rename l.answers src srcName dst dstName
  | .openFileOrCreate node name create createNew user => openFileOrCreate l.answers node name create createNew user

def final : EStateM.Result LinuxError Vfs Unit → Vfs
  | .ok _ t => t
  | .error _ t => t

/-- Any sequence of calls, on `DirNode`s that have been made. -/
def machine : Machine Vfs Label :=
  ⟨fun l s => if ∀ node ∈ l.op.nodes, node < s.next then some (final (l.program s)) else none⟩

/-- The root directory of a filesystem. -/
def mounted (fs : Nat → Str → Option Nat) (root : Nat) : Vfs := ⟨1, fun _ => root, fun _ => [], fs⟩

/-! ### The rule -/

/-- What a cache has, the filesystem would find. -/
def Coherent (s : Vfs) : Prop :=
  ∀ node name entry, (s.cache node).lookup name = some entry → s.fs (s.ino node) name = some entry.ino

/-- No other `DirNode` of the same directory has the name. -/
def Alone (s : Vfs) (node : Nat) (name : Str) : Prop :=
  ∀ other, other < s.next → other ≠ node → s.ino other = s.ino node → ((s.cache other).lookup name).isNone

/-- The filesystem is asked to make an entry. One that is made is what the name is bound to; else, unless the name stays
bound as it was, it is not cached. In no case it changes under another `DirNode`. -/
def MakeSafe (s : Vfs) (a : Answers) (node : Nat) (name : Str) : Prop :=
  (a.result.isOk = true → a.bound = a.result.toOption) ∧
  (a.bound = s.fs (s.ino node) name ∨ Alone s node name ∧ (a.result.isOk = true ∨ ((s.cache node).lookup name).isNone))

/-- The filesystem is asked to give up or to move a name that may be cached by then. It stays bound as it was, or the
operation succeeds and no other `DirNode` has it. -/
def MoveSafe (s : Vfs) (a : Answers) (fs : Nat → Str → Option Nat) (node : Nat) (name : Str) : Prop :=
  fs (s.ino node) name = s.fs (s.ino node) name ∨ a.result.isOk = true ∧ Alone s node name

def unlinked (s : Vfs) (a : Answers) (node : Nat) (name : Str) : Nat → Str → Option Nat :=
  rebind s.fs (s.ino node) name a.bound

def renamed (s : Vfs) (a : Answers) (src : Nat) (srcName : Str) (dst : Nat) (dstName : Str) : Nat → Str → Option Nat :=
  rebind (rebind s.fs (s.ino src) srcName a.srcBound) (s.ino dst) dstName a.bound

def Safe : Label → Vfs → Prop
  | ⟨.lookup _ _, _⟩, _ => True
  | ⟨.create node name, a⟩, s | ⟨.link node name, a⟩, s | ⟨.openFileOrCreate node name _ _ _, a⟩, s => MakeSafe s a node name
  | ⟨.unlink node name _, a⟩, s => MoveSafe s a (unlinked s a node name) node name
  | ⟨.rename src srcName dst dstName, a⟩, s => MoveSafe s a (renamed s a src srcName dst dstName) src srcName ∧
    MoveSafe s a (renamed s a src srcName dst dstName) dst dstName

instance (s : Vfs) (node : Nat) (name : Str) : Decidable (Alone s node name) := inferInstanceAs (Decidable (∀ _, _ → _))

instance (s : Vfs) (a : Answers) (fs : Nat → Str → Option Nat) (node : Nat) (name : Str) :
    Decidable (MoveSafe s a fs node name) := inferInstanceAs (Decidable (_ ∨ _))

instance : (l : Label) → (s : Vfs) → Decidable (Safe l s)
  | ⟨.lookup _ _, _⟩, _ => .isTrue trivial
  | ⟨.create _ _, _⟩, _ | ⟨.link _ _, _⟩, _ | ⟨.openFileOrCreate _ _ _ _ _, _⟩, _ | ⟨.rename _ _ _ _, _⟩, _ =>
    inferInstanceAs (Decidable (_ ∧ _))
  | ⟨.unlink _ _ _, _⟩, _ => inferInstanceAs (Decidable (_ ∨ _))

/-! ### Smaller caches -/

section Caches
variable {cache cache' : Cache} {entries : List (Str × Entry)} {name n : Str} {e : Entry}

theorem lookup_filter : (entries.filter fun e => e.1 != name).lookup n = if n = name then none else entries.lookup n := by
  induction entries with
  | nil => exact (ite_self none).symm
  | cons e rest ih =>
    obtain ⟨key, value⟩ := e
    by_cases hkey : key = name
    · rw [List.filter_cons_of_neg (by simpa using hkey), ih, lookup_cons]
      by_cases hn : n = name
      · rw [if_pos hn, if_pos hn]
      · rw [if_neg hn, if_neg hn, beq_false_of_ne (hkey ▸ hn)]
    · rw [List.filter_cons_of_pos (by simpa using hkey), lookup_cons, lookup_cons, ih]
      by_cases hn : n = key
      · simp [hn, hkey]
      · rw [beq_false_of_ne hn]

theorem lookup_remember {node x : Nat} :
    (remembered cache node name e x).lookup n = if x = node ∧ n = name then some e else (cache x).lookup n := by
  unfold remembered
  by_cases hx : x = node
  · subst hx
    rw [update_self, lookup_cons, lookup_filter]
    by_cases hn : n = name
    · simp [hn]
    · simp [hn, beq_false_of_ne hn]
  · rw [update_of_ne hx, if_neg fun h => hx h.1]

theorem lookup_remembered {node x : Nat} {e' : Entry} (h : (remembered cache node name e x).lookup n = some e') :
    x = node ∧ n = name ∧ e' = e ∨ ¬(x = node ∧ n = name) ∧ (cache x).lookup n = some e' := by
  rw [lookup_remember] at h
  split at h
  · rename_i hsame
    exact .inl ⟨hsame.1, hsame.2, (Option.some.inj h).symm⟩
  · exact .inr ⟨‹_›, h⟩

/-- Fewer entries. -/
def Sub (cache' cache : Cache) : Prop :=
  ∀ node name entry, (cache' node).lookup name = some entry → (cache node).lookup name = some entry

theorem Sub.trans {cache'' : Cache} (h : Sub cache'' cache') (h' : Sub cache' cache) : Sub cache'' cache :=
  fun node name e he => h' node name e (h node name e he)

theorem sub_emptied (cache : Cache) (node : Nat) : Sub (update cache node []) cache := by
  intro x n e h
  by_cases hx : x = node
  · rw [hx, update_self] at h
    cases h
  · rwa [update_of_ne hx] at h

theorem sub_dropName (cache : Cache) (node : Nat) (name : Str) : Sub (dropName cache node name) cache := by
  intro x n e h
  unfold dropName at h
  by_cases hx : x = node
  · rw [hx, update_self] at h
    rw [lookup_filter] at h
    rw [hx]
    exact (Option.ite_none_left_eq_some.mp h).2
  · rwa [update_of_ne hx] at h

theorem sub_foldl {f : Cache → Nat → Cache} (hf : ∀ cache c, Sub (f cache c) cache) (cs : List Nat)
    (cache : Cache) : Sub (cs.foldl f cache) cache := by
  induction cs generalizing cache with
  | nil => exact fun _ _ _ h => h
  | cons c rest ih => exact (ih (f cache c)).trans (hf cache c)

theorem sub_forget (fuel node : Nat) (cache : Cache) : Sub (forget fuel node cache) cache := by
  induction fuel generalizing node cache with
  | zero => exact fun _ _ _ h => h
  | succ fuel ih => exact (sub_foldl (fun cache c => ih c cache) _ _).trans (sub_emptied cache node)

theorem sub_forgetDir (fuel : Nat) (cache : Cache) (dir : Option Nat) : Sub (forgetDir fuel cache dir) cache := by
  cases dir with
  | none => exact fun _ _ _ h => h
  | some dir => exact sub_forget fuel dir cache

end Caches

/-! ### What a call may change -/

/-- The caches agree with the filesystem, and only `DirNode`s that were made have one. -/
structure Sound (s : Vfs) : Prop where
  coherent : Coherent s
  made : ∀ node name entry, (s.cache node).lookup name = some entry → node < s.next

/-- A call on `s` has come to `t`. The filesystem finds `fs`, and the caches have only what the filesystem had at the start,
cached by then or looked up since. -/
structure Bound (s : Vfs) (fs : Nat → Str → Option Nat) (looked : List (Nat × Str)) (t : Vfs) : Prop where
  next : s.next ≤ t.next
  ino : ∀ node, node < s.next → t.ino node = s.ino node
  fs : t.fs = fs
  cache : ∀ node name entry, (t.cache node).lookup name = some entry → node < s.next ∧
    s.fs (s.ino node) name = some entry.ino ∧ ((s.cache node).lookup name = some entry ∨ (node, name) ∈ looked)

section Calls
variable {s t : Vfs} {fs : Nat → Str → Option Nat} {looked : List (Nat × Str)} {node : Nat} {name : Str} {a : Answers}
  {E : LinuxError → Vfs → Prop}

theorem Sound.start (h : Sound s) : Bound s s.fs [] s where
  next := le_rfl
  ino _ _ := rfl
  fs := rfl
  cache node name e he := ⟨h.made node name e he, h.coherent node name e he, .inl he⟩

theorem Bound.sound (h : Bound s fs looked t)
    (hsame : ∀ x n e, (t.cache x).lookup n = some e → fs (s.ino x) n = s.fs (s.ino x) n) : Sound t := by
  refine ⟨fun x n e he => ?_, fun x n e he => Nat.lt_of_lt_of_le (h.cache x n e he).1 h.next⟩
  obtain ⟨hx, hfs, -⟩ := h.cache x n e he
  rw [h.ino x hx, h.fs, hsame x n e he, hfs]

/-- So far it has only looked. -/
theorem Bound.unchanged (h : Bound s s.fs looked t) : Sound t := h.sound fun _ _ _ _ => rfl

/-- A cached name is bound as at the start if it has not changed, or if no other `DirNode` had it. -/
theorem Bound.same (h : Bound s fs looked t) {x : Nat} {e : Entry} (he : (t.cache x).lookup name = some e)
    (hino : s.ino x = s.ino node)
    (hal : fs (s.ino node) name = s.fs (s.ino node) name ∨ Alone s node name ∧ x ≠ node ∧ (x, name) ∉ looked) :
    fs (s.ino x) name = s.fs (s.ino x) name := by
  obtain hfs | ⟨hal, hne, hlo⟩ := hal
  · rw [hino, hfs]
  · obtain ⟨hx, -, hold⟩ := h.cache x name e he
    have hnone := hal x hx hne hino
    rw [hold.resolve_right hlo] at hnone
    cases hnone

theorem rebind_self {dir : Nat} {bound : Option Nat} : rebind fs dir name bound dir name = bound := if_pos ⟨rfl, rfl⟩

theorem rebind_of_ne {dir d : Nat} {n : Str} {bound : Option Nat} (h : ¬(d = dir ∧ n = name)) :
    rebind fs dir name bound d n = fs d n := if_neg h

variable {P : Vfs → Prop} {entry : Entry} {fault : Option LinuxError} {α : Type}

theorem reply_triple {r : LinuxResult α} :
    Triple P (reply r) (fun v t => r = .ok v ∧ P t) (fun e t => r = .error e ∧ P t) := by
  cases r with
  | ok a => exact .pure fun _ h => ⟨rfl, h⟩
  | error e => exact .throw fun _ h => ⟨rfl, h⟩

/-! ### Looking -/

/-- A new `DirNode` has nothing cached. -/
theorem newEntry_triple (ino : Nat) : Triple (Bound s fs looked) (newEntry a ino)
    (fun entry t => entry.ino = ino ∧ Bound s fs looked t) E := by
  intro t h
  unfold newEntry
  by_cases hdir : a.dir ino
  · rw [if_pos hdir]
    refine ⟨rfl, h.next.trans (Nat.le_succ _), fun x hx => ?_, h.fs, fun x n e he => ?_⟩
    · rw [← h.ino x hx]
      exact update_of_ne (Nat.lt_of_lt_of_le hx h.next).ne _ _
    · exact h.cache x n e (sub_emptied t.cache t.next x n e he)
  · rw [if_neg hdir]
    exact ⟨rfl, h⟩

/-- What is remembered of a name that was bound so from the start. -/
theorem Bound.remember (h : Bound s fs looked t) (hnd : node < s.next)
    (hb : s.fs (s.ino node) name = some entry.ino) :
    Bound s fs ((node, name) :: looked) {t with cache := remembered t.cache node name entry} where
  next := h.next
  ino := h.ino
  fs := h.fs
  cache x n e he := by
    obtain ⟨rfl, rfl, rfl⟩ | he := lookup_remembered he
    · exact ⟨hnd, hb, .inr (.head _)⟩
    · obtain ⟨hx, hfs, hold⟩ := h.cache x n e he.2
      exact ⟨hx, hfs, hold.imp_right (mem_cons_of_mem _)⟩

theorem Bound.weaken (h : Bound s fs looked t) (p : Nat × Str) : Bound s fs (p :: looked) t :=
  {h with cache := fun x n e he => (h.cache x n e he).imp_right (.imp_right (.imp_right (mem_cons_of_mem _)))}

theorem opsLookup_triple (hnd : node < s.next) : Triple (Bound s s.fs looked) (opsLookup fault node name)
    (fun ino t => s.fs (s.ino node) name = some ino ∧ Bound s s.fs looked t) (fun _ => Bound s s.fs looked) := by
  intro t h
  cases fault with
  | some e => exact h
  | none =>
    have hrun : opsLookup none node name t = orNotFound (s.fs (s.ino node) name) t := by
      rw [← h.ino node hnd, ← h.fs]
      rfl
    rw [hrun]
    cases s.fs (s.ino node) name with
    | some ino => exact ⟨rfl, h⟩
    | none => exact h

theorem lookupLocked_triple (hnd : node < s.next) : Triple (Bound s s.fs looked) (lookupLocked a fault node name)
    (fun _ => Bound s s.fs ((node, name) :: looked)) (fun _ => Bound s s.fs looked) := by
  refine .start fun t h => .get_bind ?_
  cases (t.cache node).lookup name with
  | some e => exact .stay (h.weaken _)
  | none =>
    refine .next ((opsLookup_triple hnd).resume h) fun ino t' ⟨hb, h'⟩ => ?_
    refine .next ((newEntry_triple ino).resume h') fun e t'' ⟨hino, h''⟩ => ?_
    exact .modify_bind (.stay (h''.remember hnd (hino ▸ hb)))

/-! ### Changing a name -/

/-- The operation came to its end with the caches right, whether it failed or not. -/
def Ends (P : Vfs → Prop) (x : VfsM α) : Prop := Triple P x (fun _ => Sound) (fun _ => Sound)

/-- A first part that only looks. -/
theorem Ends.after {x : VfsM α} {f : α → VfsM Unit} {Q : α → Vfs → Prop}
    (hx : Triple (Bound s s.fs looked) x Q (fun _ => Bound s s.fs looked)) (hf : ∀ r, Ends (Q r) (f r)) :
    Ends (Bound s s.fs looked) (x >>= f) :=
  .bind (hx.fail fun _ _ h => h.unchanged) hf

/-- A first part that only checks. -/
theorem Ends.check {x : VfsM α} {f : α → VfsM Unit} (hx : ∀ P, Triple P x (fun _ => P) (fun _ => P))
    (hf : ∀ r, Ends (Bound s s.fs looked) (f r)) : Ends (Bound s s.fs looked) (x >>= f) := .after (hx _) hf

theorem reply_checks (r : LinuxResult α) (P : Vfs → Prop) : Triple P (reply r) (fun _ => P) (fun _ => P) :=
  (reply_triple.fail fun _ _ h => h.2).post fun _ _ h => h.2

theorem bindName_triple (bound : Option Nat) (hnd : node < s.next) : Triple (Bound s fs looked) (bindName node name bound)
    (fun _ => Bound s (rebind fs (s.ino node) name bound) looked) E :=
  .modify fun t h => {h with fs := by rw [h.ino node hnd, h.fs]}

/-- A cached name is bound as at the start, if the one that was made is so too, or is cached by nobody else. -/
theorem Bound.made {bound : Option Nat} {x : Nat} {n : Str} {e : Entry}
    (h : Bound s (rebind s.fs (s.ino node) name bound) [] t) (he : (t.cache x).lookup n = some e)
    (hal : bound = s.fs (s.ino node) name ∨ Alone s node name ∧ ¬(x = node ∧ n = name)) :
    rebind s.fs (s.ino node) name bound (s.ino x) n = s.fs (s.ino x) n := by
  by_cases hin : s.ino x = s.ino node ∧ n = name
  · obtain ⟨hino, rfl⟩ := hin
    refine h.same he hino (hal.imp (fun hb => rebind_self.trans hb) fun ⟨hal, hne⟩ => ?_)
    exact ⟨hal, fun hx => hne ⟨hx, rfl⟩, List.not_mem_nil⟩
  · exact rebind_of_ne hin

theorem bindEntry_ends (hnd : node < s.next) (hsa : MakeSafe s a node name) :
    Ends (Bound s s.fs []) (bindEntry a node name) := by
  obtain ⟨hmade, hsa⟩ := hsa
  refine .bind (bindName_triple a.bound hnd) fun _ => ?_
  refine .bind (reply_triple.fail fun err t ⟨hre, h⟩ => ?_) fun ino => .start fun t ⟨hre, h⟩ => ?_ <;> rw [hre] at hmade hsa
  · refine h.sound fun x n e he => h.made he (hsa.imp_right fun ⟨hal, hno⟩ => ⟨hal, ?_⟩)
    rintro ⟨rfl, rfl⟩
    rw [(h.cache x n e he).2.2.resolve_right List.not_mem_nil] at hno
    cases hno <;> contradiction
  · refine .next ((newEntry_triple ino).resume h) fun entry t' ⟨hino, h'⟩ => .modify fun u hu => ?_
    subst hu
    refine ⟨fun x n e he => ?_, fun x n e he => ?_⟩ <;> obtain ⟨rfl, rfl, rfl⟩ | ⟨hne, he⟩ := lookup_remembered he
    · simp only [h'.ino x hnd, h'.fs, rebind_self, hmade rfl, hino, Except.toOption]
    · simp only [h'.ino x (h'.cache x n e he).1, h'.fs]
      rw [h'.made he (hsa.imp_right fun hal => ⟨hal.1, hne⟩), (h'.cache x n e he).2.1]
    · exact Nat.lt_of_lt_of_le hnd h'.next
    · exact Nat.lt_of_lt_of_le (h'.cache x n e he).1 h'.next

theorem lookup_forgotten (cache : Cache) (fuel : Nat) (dir : Option Nat) {x : Nat} {n : Str} {e : Entry}
    (h : (forgetDir fuel (dropName cache node name) dir x).lookup n = some e) :
    ¬(x = node ∧ n = name) ∧ (cache x).lookup n = some e := by
  have hdrop := sub_forgetDir _ _ _ x n e h
  refine ⟨?_, sub_dropName _ _ _ x n e hdrop⟩
  rintro ⟨rfl, rfl⟩
  rw [dropName, update_self, lookup_filter, if_pos rfl] at hdrop
  cases hdrop

/-- These names are cached by their `DirNode`s no more. -/
def Forgotten (gone : List (Nat × Str)) (t : Vfs) : Prop :=
  ∀ node name entry, (t.cache node).lookup name = some entry → (node, name) ∉ gone

theorem forgetEntry_triple (gone : List (Nat × Str)) :
    Triple (fun t => Bound s fs looked t ∧ Forgotten gone t) (forgetEntry node name)
      (fun _ t => Bound s fs looked t ∧ Forgotten ((node, name) :: gone) t) E := by
  refine .modify fun t ⟨h, hgone⟩ => ⟨{h with cache := fun x n e he => ?_}, fun x n e he => ?_⟩
  · exact h.cache x n e (lookup_forgotten _ _ _ he).2
  · obtain ⟨hne, hold⟩ := lookup_forgotten _ _ _ he
    rw [List.mem_cons, Prod.mk.injEq]
    exact not_or.mpr ⟨hne, hgone x n e hold⟩

/-- The names in `moved` were looked up and bound anew. If that succeeded they are forgotten. -/
theorem commit_ends {moved : List (Nat × Str)} {tail : VfsM Unit}
    (hfs : ∀ d n, (∀ p ∈ moved, ¬(d = s.ino p.1 ∧ n = p.2)) → fs d n = s.fs d n)
    (hsa : ∀ p ∈ moved, MoveSafe s a fs p.1 p.2)
    (htail : Triple (Bound s fs moved) tail (fun _ t => Bound s fs moved t ∧ Forgotten moved t) (fun _ => Sound)) :
    Ends (Bound s fs moved) (reply a.result >>= fun _ => tail) := by
  have hsound : ∀ t, Bound s fs moved t → (a.result.isOk = true → Forgotten moved t) → Sound t := by
    refine fun t h hgone => h.sound fun x n e he => ?_
    by_cases hin : ∃ p ∈ moved, s.ino x = s.ino p.1 ∧ n = p.2
    · obtain ⟨p, hp, hino, rfl⟩ := hin
      refine h.same he hino ((hsa p hp).imp_right fun ⟨hok, hal⟩ => ?_)
      have hnot := hgone hok x p.2 e he
      exact ⟨hal, fun hx => hnot (hx ▸ hp), hnot⟩
    · exact hfs _ _ fun p hp heq => hin ⟨p, hp, heq⟩
  refine .bind (reply_triple.fail fun e t ⟨hre, h⟩ => hsound t h fun hok => ?_) fun _ => ?_
  · rw [hre] at hok
    cases hok
  · exact htail.imp (fun _ h => h.2) fun _ t ⟨h, hgone⟩ => hsound t h fun _ => hgone

theorem checkKind_checks (isDir wanted : Bool) (P : Vfs → Prop) :
    Triple P (checkKind isDir wanted) (fun _ => P) (fun _ => P) := by
  cases isDir <;> cases wanted <;> exact fun _ h => h

theorem unlink_ends (isDir : Bool) (hnd : node < s.next) (hsa : MoveSafe s a (unlinked s a node name) node name) :
    Ends (Bound s s.fs []) (unlink a node name isDir) := by
  refine .check (reply_checks _) fun _ => .after (lookupLocked_triple hnd) fun entry => .check (checkKind_checks _ _) fun _ => ?_
  refine .bind (bindName_triple a.bound hnd) fun _ => commit_ends (fun d n hno => ?_) (fun p hp => ?_) ?_
  · exact rebind_of_ne (hno _ (.head _))
  · cases mem_singleton.mp hp
    exact hsa
  · exact (forgetEntry_triple []).pre fun _ h => ⟨h, fun _ _ _ _ => List.not_mem_nil⟩

theorem checkTypes_checks (entry : Entry) (dst : Except LinuxError Entry) (P : Vfs → Prop) :
    Triple P (checkTypes a entry dst) (fun _ => P) (fun _ => P) := by
  obtain e | ⟨ino, dir⟩ := dst
  · exact .skip
  obtain ⟨ino', dir'⟩ := entry
  cases dir <;> cases dir'
  · exact .skip
  · exact .skip
  · exact .throw fun _ h => h
  · refine .bind (reply_checks a.occupied P) fun occupied => ?_
    cases occupied
    · exact .skip
    · exact .throw fun _ h => h

theorem rename_ends {src dst : Nat} {srcName dstName : Str} (hsrc : src < s.next) (hdst : dst < s.next)
    (hsa : Safe ⟨.rename src srcName dst dstName, a⟩ s) : Ends (Bound s s.fs []) (rename a src srcName dst dstName) := by
  refine .check (reply_checks _) fun _ => .check (reply_checks _) fun _ => .after (lookupLocked_triple hsrc) fun entry => ?_
  refine .bind (Q := fun _ => Bound s s.fs [(dst, dstName), (src, srcName)]) ((lookupLocked_triple hdst).attempt.post
    fun found t h => ?_) fun found => Ends.check (checkTypes_checks _ _) fun _ => ?_
  · cases found with
    | ok e => exact h
    | error e => exact h.weaken _
  · refine .bind (bindName_triple a.srcBound hsrc) fun _ => .bind (bindName_triple a.bound hdst) fun _ => ?_
    refine commit_ends (fun d n hno => ?_) (fun p hp => ?_) ?_
    · rw [rebind_of_ne (hno _ (.head _)), rebind_of_ne (hno _ (.tail _ (.head _)))]
    · obtain rfl | hp := List.mem_cons.mp hp
      · exact hsa.2
      · cases mem_singleton.mp hp
        exact hsa.1
    · refine .bind ((forgetEntry_triple []).pre fun _ h => ⟨h, fun _ _ _ _ => List.not_mem_nil⟩) fun _ => ?_
      exact forgetEntry_triple [(src, srcName)]

theorem openMissing_ends (create user : Bool) (e : LinuxError) (hnd : node < s.next) (hsa : MakeSafe s a node name) :
    Ends (Bound s s.fs []) (openMissing a node name create user e) := by
  unfold openMissing
  split
  · refine .bind (bindEntry_ends hnd hsa) fun _ => ?_
    split
    · exact reply_checks _ _
    · exact .skip
  · exact .throw fun _ h => h.unchanged

theorem openFileOrCreate_ends (create createNew user : Bool) (hnd : node < s.next) (hsa : MakeSafe s a node name) :
    Ends (Bound s s.fs []) (openFileOrCreate a node name create createNew user) := by
  refine .check (reply_checks _) fun _ => .bind (lookupLocked_triple hnd).attempt fun found => ?_
  cases found with
  | ok entry =>
    refine Triple.pre (P := Sound) ?_ fun _ h => Bound.unchanged h
    show Triple _ (if createNew then throw LinuxError.eexist else pure ()) _ _
    split
    · exact .throw fun _ h => h
    · exact .skip
  | error e => exact openMissing_ends create user e hnd hsa

theorem lookup_ends (hnd : node < s.next) : Ends (Bound s s.fs []) (lookup a node name) := by
  unfold lookup
  split
  · exact .throw fun _ h => h.unchanged
  · exact .after (lookupLocked_triple hnd) fun _ => .pure fun _ h => h.unchanged

theorem program_ends (l : Label) (hmd : ∀ node ∈ l.op.nodes, node < s.next) (hsa : Safe l s) :
    Ends (Bound s s.fs []) l.program := by
  obtain ⟨op, a⟩ := l
  cases op with
  | lookup node name => exact lookup_ends (hmd node (.head _))
  | create node name | link node name => exact .check (reply_checks _) fun _ => bindEntry_ends (hmd node (.head _)) hsa
  | unlink node name isDir => exact unlink_ends isDir (hmd node (.head _)) hsa
  | rename src srcName dst dstName => exact rename_ends (hmd src (.head _)) (hmd dst (.tail _ (.head _))) hsa
  | openFileOrCreate node name create createNew user =>
    exact openFileOrCreate_ends create createNew user (hmd node (.head _)) hsa

end Calls

theorem step_sound {s t : Vfs} {l : Label} (h : Sound s) (hsa : Safe l s) (hst : machine.step l s = some t) : Sound t := by
  obtain ⟨hmd, hrun⟩ := Option.ite_none_right_eq_some.mp hst
  have hend := program_ends l hmd hsa s h.start
  rw [← Option.some.inj hrun]
  cases hres : l.program s with
  | ok _ _ | error _ _ =>
    rw [hres] at hend
    exact hend

/-- **Every cache agrees with the filesystem throughout a run** in which each call is safe: its operation changes no name
that another `DirNode` of the directory has cached, nor, if it fails, one that its own may have. -/
theorem coherent_of_safe (fs : Nat → Str → Option Nat) (root : Nat) (labels : List Label)
    (hsa : machine.Meets Safe (mounted fs root) labels) : machine.Always Coherent (mounted fs root) labels :=
  Machine.always_of_meets (fun _ _ _ h hsa hst => step_sound h hsa hst) (fun _ h => h.coherent) labels ⟨nofun, nofun⟩ hsa

/-! ### A name that is gone -/

/-- The root (inode 2) with a directory "a" (inode 12) that has a file "f" (inode 13). -/
def oneFile (dir : Nat) (name : Str) : Option Nat :=
  if dir = 2 ∧ name = [0x61] then some 12 else if dir = 12 ∧ name = [0x66] then some 13 else none

/-- Nothing fails. -/
def answers (result : Nat) (bound : Option Nat) : Answers :=
  ⟨fun ino => ino == 12, none, none, .ok false, .ok result, bound, none, .ok ()⟩

/-- "f" is removed from "a", which is renamed to "b" and gets a new file "g"; removing that fails. -/
def renewed : List Label :=
  [⟨.lookup 0 [0x61], answers 0 none⟩, ⟨.lookup 1 [0x66], answers 0 none⟩, ⟨.unlink 1 [0x66] false, answers 0 none⟩,
    ⟨.rename 0 [0x61] 0 [0x62], answers 0 (some 12)⟩, ⟨.lookup 0 [0x62], answers 0 none⟩,
    ⟨.create 2 [0x67], answers 14 (some 14)⟩,
    ⟨.unlink 2 [0x67] false, {answers 0 (some 14) with result := .error .eio}⟩]

theorem coherent_of_safe_renewed : (∃ s, machine.run (mounted oneFile 2) renewed = some s ∧ s.ino 1 = s.ino 2 ∧
      (s.cache 2).lookup [0x67] = some ⟨14, none⟩) ∧ machine.Always Coherent (mounted oneFile 2) renewed :=
  ⟨⟨_, rfl, rfl, rfl⟩, coherent_of_safe oneFile 2 renewed (by decide +kernel)⟩

/-- "a" is looked up and held, as a working directory is, and renamed to "b". "f" is looked up through the old `DirNode`, and
removed through the new one. -/
def moved : List Label :=
  [⟨.lookup 0 [0x61], answers 0 none⟩, ⟨.rename 0 [0x61] 0 [0x62], answers 0 (some 12)⟩, ⟨.lookup 0 [0x62], answers 0 none⟩,
    ⟨.lookup 1 [0x66], answers 0 none⟩, ⟨.unlink 2 [0x66] false, answers 0 none⟩]

theorem coherent_wrong : ∃ s, machine.run (mounted oneFile 2) moved = some s ∧ ¬ Coherent s ∧
    (s.cache 1).lookup [0x66] = some ⟨13, none⟩ ∧ s.fs (s.ino 1) [0x66] = none := by
  refine ⟨_, rfl, fun hcoherent => ?_, rfl, rfl⟩
  have hstale := hcoherent 1 [0x66] ⟨13, none⟩ rfl
  cases hstale

end StarryX.Fs.DirCache
