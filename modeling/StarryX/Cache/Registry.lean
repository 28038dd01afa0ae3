import StarryX.Library.Machine

/-! Who keeps a mapping with dirty pages alive.

A file's cache slot holds its mapping weakly; the manager's registry holds it strongly,
and drops it when a prune finds it idle. `prune_mapping` looks at the page tree under
the mapping's lock, lets it go, takes the registry's lock and reads the strong count
there: two means the registry and the pruner. Opens, closes, the worker's two kinds of
pruning, and writeback run here in any order, with every lock section and every read of
a strong count a step of its own.

The two tests of a prune are not one. `prune_forgets_dirty_mapping` is a run in which
another handle is opened, written and closed between them, and the mapping goes with its
dirty page. `dirty_is_registered` is the rest: in a run where every removal still finds
the tree empty, a mapping with a dirty page is always in the registry. -/
namespace StarryX.Cache.Registry
open Library Function

/-- The resident pages of one mapping: index, and whether it is dirty. -/
abbrev Pages := List (Nat × Bool)

def Pages.set (pages : Pages) (index : Nat) (dirty : Bool) : Pages :=
  (index, dirty) :: pages.filter (·.1 != index)

def Pages.hasDirty (pages : Pages) : Bool := pages.any (·.2)

/-- Where one thread stands; in every phase but `idle` it holds an `Arc` of mapping `k`. -/
inductive Phase (κ : Type) where
  | idle
  /-- `mapping_for` upgraded the slot's weak reference; next `ensure_registered`. -/
  | upgraded (k : κ)
  /-- An open file. -/
  | opened (k : κ)
  /-- `prune_mapping`: next it tests `has_no_pages`. -/
  | pruning (k : κ)
  /-- It saw no page; next it takes the registry's lock. -/
  | tested (k : κ)
  /-- Next it reads the strong count. -/
  | locked (k : κ)
  /-- Next it removes the entry if the count was two, and unlocks. -/
  | counted (k : κ) (two : Bool)
  /-- Next it drops its `Arc`. -/
  | dropping (k : κ)
  /-- `prune_idle_mappings` holds a clone from the registry; next it reads the count. -/
  | scanning (k : κ)
  /-- The count was two; next it reclaims the idle pages. -/
  | scanned (k : κ)
  /-- `reclaim_clean` upgraded the page's mapping; next it tries to reclaim the page. -/
  | reclaiming (k : κ) (index : Nat)
  /-- Writeback holds a clone from the registry. -/
  | writingBack (k : κ)
  deriving DecidableEq

namespace Phase
variable {κ : Type} [DecidableEq κ]

/-- The mapping an `Arc` is held of. -/
def mapping : Phase κ → Option κ
  | .idle => none
  | .upgraded k | .opened k | .pruning k | .tested k | .locked k | .counted k _ | .dropping k
  | .scanning k | .scanned k | .reclaiming k _ | .writingBack k => some k

def holdsLock : Phase κ → Bool
  | .locked _ | .counted .. => true
  | _ => false

def holds (k : κ) (p : Phase κ) : Bool := p.mapping == some k

end Phase

/-- `created` says which mappings exist at all: ids are never reused. `lock` is the
holder of the registry's lock between two steps. -/
structure State (ι κ : Type) where
  created : κ → Bool
  registered : κ → Bool
  pages : κ → Pages
  lock : Option ι
  phase : ι → Phase κ

inductive Action (κ : Type) where
  /-- `create_mapping` for a file without a live mapping. -/
  | create (k : κ)
  | upgrade (k : κ)
  | ensureRegistered
  /-- `ensure_registered` was refused by the shutdown gate. -/
  | refused
  | load (index : Nat)
  | write (index : Nat)
  | persist (index : Nat)
  | close
  | scan (k : κ)
  | reclaim (k : κ) (index : Nat)
  | writeback (k : κ)
  /-- The next step; `busy` are the pages something else still uses. -/
  | step (busy : List Nat)

section Machine
variable {ι κ : Type} [Fintype ι] [DecidableEq ι] [DecidableEq κ]

def initial : State ι κ :=
  { created := fun _ => false
    registered := fun _ => false
    pages := fun _ => []
    lock := none
    phase := fun _ => .idle }

/-- `Arc::strong_count`: the registry's reference and one for each thread that holds one. -/
def strongCount (s : State ι κ) (k : κ) : Nat := (s.registered k).toNat + count (Phase.holds k) s.phase

def hasNoPages (s : State ι κ) (k : κ) : Bool := (s.pages k).isEmpty

def goto (s : State ι κ) (i : ι) (phase : Phase κ) : State ι κ :=
  {s with phase := update s.phase i phase}

def setPages (s : State ι κ) (k : κ) (pages : Pages) : State ι κ :=
  {s with pages := update s.pages k pages}

def setRegistered (s : State ι κ) (k : κ) (registered : Bool) : State ι κ :=
  {s with registered := update s.registered k registered}

/-- Opening, using and closing a file. -/
def handleStep (i : ι) (action : Action κ) (s : State ι κ) : Option (State ι κ) :=
  match s.phase i, action with
  | .idle, .create k =>
    if s.created k || s.lock.isSome then none
    else some (goto (setRegistered {s with created := update s.created k true} k true) i (.opened k))
  | .idle, .upgrade k => if strongCount s k = 0 then none else some (goto s i (.upgraded k))
  | .upgraded k, .ensureRegistered =>
    if s.lock.isSome then none else some (goto (setRegistered s k true) i (.opened k))
  | .upgraded k, .refused => some (goto s i (.dropping k))
  | .opened k, .load index =>
    if (s.pages k).any (·.1 == index) then some s else some (setPages s k ((s.pages k).set index false))
  | .opened k, .write index => some (setPages s k ((s.pages k).set index true))
  | .opened k, .persist index => some (setPages s k ((s.pages k).map fun p => (p.1, p.2 && p.1 != index)))
  | .opened k, .close => some (goto s i (.pruning k))
  | _, _ => none

/-- `prune_mapping`, from the test of the page tree to dropping the `Arc`. -/
def pruneStep (i : ι) (action : Action κ) (s : State ι κ) : Option (State ι κ) :=
  match s.phase i, action with
  | .pruning k, .step _ => some (goto s i (if hasNoPages s k then .tested k else .dropping k))
  | .tested k, .step _ =>
    if s.lock.isSome then none else some (goto {s with lock := some i} i (.locked k))
  | .locked k, .step _ => some (goto s i (.counted k (s.registered k && strongCount s k == 2)))
  | .counted k two, .step _ =>
    some (goto {setRegistered s k (s.registered k && !two) with lock := none} i (.dropping k))
  | .dropping _, .step _ => some (goto s i .idle)
  | _, _ => none

/-- The worker: both kinds of pruning, and writeback. -/
def workerStep (i : ι) (action : Action κ) (s : State ι κ) : Option (State ι κ) :=
  match s.phase i, action with
  | .idle, .scan k => if s.lock.isSome || !s.registered k then none else some (goto s i (.scanning k))
  | .scanning k, .step _ => some (goto s i (if strongCount s k = 2 then .scanned k else .dropping k))
  | .scanned k, .step busy =>
    some (goto (setPages s k ((s.pages k).filter fun p => p.2 || busy.contains p.1)) i (.pruning k))
  | .idle, .reclaim k index =>
    if strongCount s k = 0 then none else some (goto s i (.reclaiming k index))
  | .reclaiming k index, .step busy =>
    if (s.pages k).contains (index, false) && !busy.contains index then
      some (goto (setPages s k ((s.pages k).filter (· != (index, false)))) i (.pruning k))
    else some (goto s i (.dropping k))
  | .idle, .writeback k =>
    if s.lock.isSome || !s.registered k then none else some (goto s i (.writingBack k))
  | .writingBack k, .persist index =>
    some (setPages s k ((s.pages k).map fun p => (p.1, p.2 && p.1 != index)))
  | .writingBack k, .step _ => some (goto s i (.dropping k))
  | _, _ => none

def step (label : ι × Action κ) (s : State ι κ) : Option (State ι κ) :=
  (handleStep label.1 label.2 s).or ((pruneStep label.1 label.2 s).or (workerStep label.1 label.2 s))

def machine : Machine (State ι κ) (ι × Action κ) := ⟨step⟩

/-- The step is no removal of a mapping that has got a page since its prune looked. -/
def stillEmpty (label : ι × Action κ) (s : State ι κ) : Bool :=
  match s.phase label.1 with
  | .counted k true => hasNoPages s k
  | _ => true

end Machine

/-! ### A run whose removals are honest keeps every dirty mapping -/

section Pages
variable {pages : Pages}

theorem Pages.hasDirty_filter {q : Nat × Bool → Bool} (h : Pages.hasDirty (pages.filter q)) :
    pages.hasDirty := by
  obtain ⟨p, hp, hd⟩ := List.any_eq_true.mp h
  exact List.any_eq_true.mpr ⟨p, (List.mem_filter.mp hp).1, hd⟩

theorem Pages.hasDirty_persist {idx : Nat}
    (h : Pages.hasDirty (pages.map fun p => (p.1, p.2 && p.1 != idx))) : pages.hasDirty := by
  obtain ⟨p, hp, hd⟩ := List.any_eq_true.mp h
  obtain ⟨o, ho, rfl⟩ := List.mem_map.mp hp
  exact List.any_eq_true.mpr ⟨o, ho, (Bool.and_eq_true_iff.mp hd).1⟩

theorem Pages.hasDirty_of_isEmpty (h : List.isEmpty pages) : pages.hasDirty = false := by
  rw [List.isEmpty_iff.mp h]
  rfl

end Pages

section Proofs
variable {ι κ : Type} {s t : State ι κ}

/-- Dirty mappings and open files are registered; the lock has the holder its phase says;
and between reading a count of two and removing the entry, nobody has the file open. -/
structure Inv (s : State ι κ) : Prop where
  dirty : ∀ k, (s.pages k).hasDirty = true → s.registered k = true
  opened : ∀ i k, s.phase i = .opened k → s.registered k = true
  lock : ∀ i, (s.phase i).holdsLock = true → s.lock = some i
  alone : ∀ i k, s.phase i = .counted k true → s.registered k = true ∧ ∀ j, s.phase j ≠ .opened k

theorem initial_inv : Inv (initial : State ι κ) :=
  ⟨nofun, nofun, nofun, nofun⟩

/-- With the lock free no prune is between its count and its removal. -/
theorem Inv.unlocked (h : Inv s) (hfr : s.lock = none) (i : ι) : (s.phase i).holdsLock = false := by
  cases hi : (s.phase i).holdsLock
  · rfl
  · have := h.lock i hi
    rw [hfr] at this
    cases this

variable [DecidableEq ι] {q : Phase κ}

/-- Moving on to a phase that is not an open file, and past a count of two only when it is
one. -/
theorem Inv.pass (h : Inv s) (i : ι) {lock : Option ι} (hop : ∀ k, q ≠ .opened k)
    (hco : ∀ k, q = .counted k true → s.registered k ∧ ∀ j, s.phase j ≠ .opened k)
    (hlo : q.holdsLock → lock = some i)
    (hos : ∀ j, j ≠ i → (s.phase j).holdsLock → lock = some j) :
    Inv (goto {s with lock := lock} i q) where
  dirty := h.dirty
  opened := by
    intro j k hj
    obtain ⟨-, hq⟩ | ⟨-, hj⟩ := update_cases hj
    · exact absurd hq (hop k)
    · exact h.opened j k hj
  lock := by
    intro j hj
    obtain ⟨rfl, hq⟩ | ⟨hne, hold⟩ := update_cases (rfl : (goto _ i q).phase j = _)
    · exact hlo (hq ▸ hj)
    · exact hos j hne (hold ▸ hj)
  alone := by
    intro j k hj
    have hal : s.registered k ∧ ∀ l, s.phase l ≠ .opened k := by
      obtain ⟨-, hq⟩ | ⟨-, hj⟩ := update_cases hj
      · exact hco k hq
      · exact h.alone j k hj
    refine ⟨hal.1, fun l hl => ?_⟩
    obtain ⟨-, hq⟩ | ⟨-, hl⟩ := update_cases hl
    · exact hop k hq
    · exact hal.2 l hl

/-- Moving on outside the lock. -/
theorem Inv.leave (h : Inv s) (i : ι) (hop : ∀ k, q ≠ .opened k)
    (hlo : q.holdsLock = false) : Inv (goto s i q) :=
  h.pass i hop (by rintro k rfl; exact nomatch hlo) (by rw [hlo]; exact nofun) (fun j _ => h.lock j)

variable [DecidableEq κ] {i : ι} {k : κ}

omit [DecidableEq ι] in
/-- Pages may lose their dirt at any time, and gain it where the mapping is registered. -/
theorem Inv.setPages (h : Inv s) (k : κ) {pages : Pages}
    (hd : pages.hasDirty → (s.pages k).hasDirty ∨ s.registered k) :
    Inv (setPages s k pages) where
  dirty := by
    intro k' hk'
    obtain ⟨rfl, hp⟩ | ⟨-, hp⟩ := update_cases (rfl : (Registry.setPages s k pages).pages k' = _)
    · exact (hd (hp ▸ hk')).elim (h.dirty k') id
    · exact h.dirty k' (hp ▸ hk')
  __ := h

/-- Registering is a section of the registry's lock, so no count is pending. -/
theorem Inv.register (h : Inv s) (i : ι) (k : κ) (hfr : s.lock = none) {created : κ → Bool} :
    Inv (goto (setRegistered {s with created := created} k true) i (.opened k)) := by
  have hkp : ∀ k', s.registered k' → update s.registered k true k' := by
    intro k' hk'
    obtain ⟨-, hr⟩ | ⟨-, hr⟩ := update_cases (rfl : update s.registered k true k' = _)
    · exact hr.symm
    · exact hr ▸ hk'
  refine ⟨fun k' hk' => hkp k' (h.dirty k' hk'), ?_, ?_, ?_⟩
  · intro j k' hj
    obtain ⟨-, hq⟩ | ⟨-, hj⟩ := update_cases hj
    · cases hq
      exact update_self ..
    · exact hkp k' (h.opened j k' hj)
  · intro j hj
    obtain ⟨-, hj⟩ := update_map_ne Phase.holdsLock hj nofun
    exact absurd ((h.unlocked hfr j).symm.trans hj) nofun
  · intro j k' hj
    obtain ⟨-, hj⟩ := update_map_ne id hj nofun
    have := h.unlocked hfr j
    rw [show s.phase j = _ from hj] at this
    cases this

/-- A removal that still finds the tree empty forgets nothing. -/
theorem Inv.unregister (h : Inv s) {two : Bool} (hi : s.phase i = .counted k two)
    (hem : two → (s.pages k).isEmpty) :
    Inv (goto {setRegistered s k (s.registered k && !two) with lock := none} i (.dropping k)) := by
  -- The only other holder of the lock would be this pruner itself.
  have hos : ∀ j, j ≠ i → (s.phase j).holdsLock = false := by
    intro j hne
    cases hj : (s.phase j).holdsLock
    · rfl
    · have hmi := h.lock i (by rw [hi]; rfl)
      rw [h.lock j hj] at hmi
      exact absurd (Option.some.inj hmi) hne
  have hkp : ∀ k', s.registered k' → (k' = k → two = false) →
      update s.registered k (s.registered k && !two) k' := by
    intro k' hk' hli
    rcases update_cases (rfl : update s.registered k (s.registered k && !two) k' = _) with
      ⟨rfl, hr⟩ | ⟨-, hr⟩
    · rw [← hr, hk', hli rfl]
      rfl
    · exact hr ▸ hk'
  refine ⟨?_, ?_, ?_, ?_⟩
  · intro k' hk'
    refine hkp k' (h.dirty k' hk') ?_
    rintro rfl
    cases two with
    | false => rfl
    | true =>
      have := Pages.hasDirty_of_isEmpty (hem rfl)
      rw [show (s.pages k').hasDirty from hk'] at this
      cases this
  · intro j k' hj
    obtain ⟨-, hop⟩ := update_map_ne id hj nofun
    refine hkp k' (h.opened j k' hop) ?_
    rintro rfl
    cases two with
    | false => rfl
    | true => exact absurd hop ((h.alone i k' hi).2 j)
  · intro j hj
    obtain ⟨hne, hj⟩ := update_map_ne Phase.holdsLock hj nofun
    exact absurd ((hos j hne).symm.trans hj) nofun
  · intro j k' hj
    obtain ⟨hne, hj⟩ := update_map_ne id hj nofun
    have := hos j hne
    rw [show s.phase j = _ from hj] at this
    cases this

theorem handleStep_inv [Fintype ι] (i : ι) (a : Action κ) (h : Inv s)
    (hst : handleStep i a s = some t) : Inv t := by
  unfold handleStep at hst
  split at hst
  case h_1 k hp =>
    split at hst
    · cases hst
    next hfr =>
      cases hst
      simp only [Bool.or_eq_true, not_or, Bool.not_eq_true, Option.isSome_eq_false_iff,
        Option.isNone_iff_eq_none] at hfr
      exact h.register i k hfr.2
  case h_2 hp =>
    split at hst
    · cases hst
    · cases hst
      exact h.leave i nofun rfl
  case h_3 k hp =>
    split at hst
    · cases hst
    next hfr =>
      cases hst
      exact h.register i k (by simpa using hfr)
  case h_4 hp =>
    cases hst
    exact h.leave i nofun rfl
  case h_5 hp =>
    split at hst
    · cases hst
      exact h
    · cases hst
      exact h.setPages _ (fun hd => .inl (Pages.hasDirty_filter hd))
  case h_6 k index hp =>
    cases hst
    exact h.setPages _ (fun _ => .inr (h.opened i k hp))
  case h_7 hp =>
    cases hst
    exact h.setPages _ (fun hd => .inl (Pages.hasDirty_persist hd))
  case h_8 hp =>
    cases hst
    exact h.leave i nofun rfl
  case h_9 => cases hst

theorem workerStep_inv [Fintype ι] (i : ι) (a : Action κ) (h : Inv s)
    (hst : workerStep i a s = some t) : Inv t := by
  unfold workerStep at hst
  split at hst
  case h_2 hp =>
    cases hst
    split <;> exact h.leave i nofun rfl
  case h_3 hp =>
    cases hst
    exact (h.setPages _ (fun hd => .inl (Pages.hasDirty_filter hd))).leave i nofun rfl
  case h_5 hp =>
    split at hst
    · cases hst
      exact (h.setPages _ (fun hd => .inl (Pages.hasDirty_filter hd))).leave i nofun rfl
    · cases hst
      exact h.leave i nofun rfl
  case h_7 hp =>
    cases hst
    exact h.setPages _ (fun hd => .inl (Pages.hasDirty_persist hd))
  case h_8 hp =>
    cases hst
    exact h.leave i nofun rfl
  case h_9 => cases hst
  all_goals
    split at hst
    · cases hst
    · cases hst
      exact h.leave i nofun rfl

variable [Fintype ι]

omit [DecidableEq ι] in
/-- A count of two is the registry and the pruner: nobody has the file open. -/
theorem Inv.count_two (hi : s.phase i = .locked k)
    (htwo : (s.registered k && strongCount s k == 2)) :
    s.registered k ∧ ∀ j, s.phase j ≠ .opened k := by
  obtain ⟨hreg, hco⟩ := Bool.and_eq_true_iff.mp htwo
  refine ⟨hreg, fun j hj => ?_⟩
  have hne : i ≠ j := by
    rintro rfl
    rw [hi] at hj
    cases hj
  have htwo : 2 ≤ count (Phase.holds k) s.phase :=
    two_le_count hne (by rw [hi]; simp [Phase.holds, Phase.mapping])
      (by rw [hj]; simp [Phase.holds, Phase.mapping])
  have : strongCount s k = 2 := by simpa using hco
  rw [strongCount, hreg] at this
  simp only [Bool.toNat_true] at this
  omega

theorem pruneStep_inv (i : ι) (a : Action κ) (h : Inv s) (hok : stillEmpty (i, a) s)
    (hst : pruneStep i a s = some t) : Inv t := by
  unfold pruneStep at hst
  split at hst
  case h_1 hp =>
    cases hst
    split <;> exact h.leave i nofun rfl
  case h_2 hp =>
    split at hst
    · cases hst
    next hfr =>
      cases hst
      refine h.pass i nofun nofun (fun _ => rfl) (fun j _ hj => ?_)
      rw [h.unlocked (by simpa using hfr) j] at hj
      cases hj
  case h_3 k busy hp =>
    cases hst
    refine h.pass i nofun ?_ (fun _ => h.lock i (by rw [hp]; rfl)) (fun j _ => h.lock j)
    intro k' hq
    obtain ⟨rfl, htwo⟩ := Phase.counted.inj hq
    exact Inv.count_two hp htwo
  case h_4 k two busy hp =>
    cases hst
    refine h.unregister hp ?_
    rintro rfl
    simpa only [stillEmpty, hp, hasNoPages] using hok
  case h_5 hp =>
    cases hst
    exact h.leave i nofun rfl
  case h_6 => cases hst

theorem step_inv (l : ι × Action κ) (s t : State ι κ) (h : Inv s) (hok : stillEmpty l s)
    (hst : step l s = some t) : Inv t := by
  obtain hha | ⟨-, hre⟩ := Option.or_eq_some_iff.mp hst
  · exact handleStep_inv l.1 l.2 h hha
  · obtain hpr | ⟨-, hwo⟩ := Option.or_eq_some_iff.mp hre
    · exact pruneStep_inv l.1 l.2 h hok hpr
    · exact workerStep_inv l.1 l.2 h hwo

/-- **A mapping with dirty data is never forgotten**, in any run whose removals all still
find the page tree empty: it is in the registry, so an `Arc` of it is left. -/
theorem dirty_is_registered (labels : List (ι × Action κ))
    (hok : machine.Meets (fun label s => stillEmpty label s = true) initial labels)
    (hrun : machine.run initial labels = some s) (k : κ) (hdirty : (s.pages k).hasDirty = true) :
    s.registered k = true ∧ 0 < strongCount s k := by
  have h := Machine.run_induct_under step_inv labels initial_inv hok hrun
  have hreg := h.dirty k hdirty
  refine ⟨hreg, ?_⟩
  rw [strongCount, hreg]
  exact Nat.zero_lt_one.trans_le (Nat.le_add_right ..)

end Proofs

/-- The first thread closes the file and sees no page; the second opens it, writes a page and
closes it; then the first reads a count of two. -/
def staleTest : List (Bool × Action Unit) :=
  [(false, .create ()), (false, .close), (false, .step []), (true, .upgrade ()), (true, .ensureRegistered),
    (true, .write 0), (true, .close), (true, .step []), (true, .step []), (false, .step []), (false, .step []),
    (false, .step []), (false, .step [])]

/-- The mapping ends unregistered, with no `Arc` left and a dirty page. -/
theorem prune_forgets_dirty_mapping : ∃ s : State Bool Unit,
    machine.run initial staleTest = some s ∧ (s.pages ()).hasDirty = true ∧
      s.registered () = false ∧ strongCount s () = 0 :=
  ⟨_, rfl, rfl, rfl, by decide⟩

/-- The prune of one mapping finds no page and removes it; that of the other finds what was written and keeps it. -/
def onePruned : List (Bool × Action Bool) :=
  [(true, .create true), (true, .write 0), (false, .create false), (false, .close), (false, .step []), (false, .step []),
    (false, .step []), (false, .step []), (true, .close), (true, .step []), (false, .step []), (true, .step [])]

theorem dirty_is_registered_kept : ∃ s : State Bool Bool,
    machine.run initial onePruned = some s ∧ s.created false = true ∧ s.registered false = false ∧
      s.registered true = true ∧ 0 < strongCount s true :=
  ⟨_, rfl, rfl, rfl, dirty_is_registered onePruned (by decide) rfl true rfl⟩

end StarryX.Cache.Registry
