import StarryX.Cache.Counters

/-! The counters are right.

`Accounts` says that a manager's counters are the numbers they stand for, as `usize`s. Every
operation keeps it, one lemma `keeps_…` per function, with one exception: a guard that is
taken on a clean page which has left its mapping is counted, and the page is not. A run that
never does this ends with the right counts (`counters_account`). -/
namespace StarryX.Cache.Accounting
open Library
open Option (some.inj)
open Manager (wrappingAdd wrappingSub)
open Bool (and_eq_true false_eq_true)
open SortedMap (ext_get? get?_erase get?_filter get?_insert get?_modify total total_erase total_filter_add total_insert total_modify)

/-- The pages of a mapping. -/
def FileMapping.resident (m : FileMapping) : Nat := m.pages.total fun _ => 1

/-- The dirty pages of a mapping. -/
def FileMapping.dirty (m : FileMapping) : Nat := m.pages.total fun p => p.state.isDirty.toNat

/-- The counters count. -/
structure Accounts (s : CacheManager) : Prop where
  resident : s.residentPages = s.registry.total FileMapping.resident % 2 ^ 64
  dirty : s.dirtyPages = s.registry.total FileMapping.dirty % 2 ^ 64
  mappings : ∀ id m, s.registry.get? id = some m → m.dirtyPages = m.dirty % 2 ^ 64

/-- The page that is at an index of a mapping. -/
def CacheManager.objectAt (s : CacheManager) (id index : Nat) : Option Nat :=
  ((s.registry.get? id).bind fun m => m.pages.get? index).map (·.object)

/-- Someone holds the mapping. -/
def CacheManager.holds (s : CacheManager) (id : Nat) : Bool := (s.registry.get? id).any (·.owned)

/-- A page in its mapping, or one that left it dirty: a guard on it adds no dirty page that
is not there. -/
def PageRef.Attached (r : PageRef) (s : CacheManager) : Prop :=
  s.objectAt r.mapping r.index = some r.object ∨ ∃ p, r.orphan s = some p ∧ p.state.isDirty = true

/-- What somebody is about to use. -/
inductive Use where
  | nothing
  | page (r : PageRef)
  | vacancy (id index : Nat)

def Use.Holds : Use → CacheManager → Prop
  | .nothing, _ => True
  | .page r, s => r.Attached s
  | .vacancy id index, s => s.objectAt id index = none

/-- What the running operation relies on: the page it uses, and a mapping its caller holds. -/
structure Focus where
  use : Use
  owner : Option Nat

def Focus.Holds (focus : Focus) (s : CacheManager) : Prop :=
  focus.use.Holds s ∧ ∀ id, focus.owner = some id → s.holds id = true

/-- Pages may go meanwhile. -/
def Focus.Loose (focus : Focus) : Prop := ∀ r, focus.use ≠ .page r

/-- The counters, with `owed` pages that have gone but are still counted. -/
structure Inv (focus : Focus) (owed : Nat) (s : CacheManager) : Prop where
  resident : s.residentPages = (s.registry.total FileMapping.resident + owed) % 2 ^ 64
  dirty : s.dirtyPages = s.registry.total FileMapping.dirty % 2 ^ 64
  mappings : ∀ id m, s.registry.get? id = some m → m.dirtyPages = m.dirty % 2 ^ 64
  ordered : ∀ id m, s.registry.get? id = some m → ∀ k p, m.pages.get? k = some p →
    p.state.persistedSeq ≤ p.state.dirtySeq
  focused : focus.Holds s

/-- Errors leave the counts right; a panic and a wait without end do not complete. -/
def Fails (focus : Focus) : Ending → CacheManager → Prop
  | .stop (.error _), s => Inv focus 0 s
  | _, _ => True

def Keeps {α : Type} (focus : Focus) (x : Prog α) : Prop :=
  Triple (Inv focus 0) x (fun _ => Inv focus 0) (Fails focus)

variable {focus : Focus} {owed : Nat} {s t : CacheManager}

theorem recount {a c n : Nat} (ha : a = c % 2 ^ 64) (hc : n = c) : a = n % 2 ^ 64 := hc ▸ ha

/-! ### Pages and mappings -/

theorem modifyPage_resident (m : FileMapping) (k : Nat) (f : CachedPage → CachedPage) :
    (m.modifyPage k f).resident = m.resident := by
  simp [FileMapping.resident, FileMapping.modifyPage, total, SortedMap.modify, Function.comp_def]

variable {k : Nat} {m : FileMapping} {p : CachedPage}

/-- A page changed in place is still the page it was. -/
theorem modifyPage_get (m : FileMapping) (k : Nat) (f : CachedPage → CachedPage) (k' : Nat) :
    (m.modifyPage k f).pages.get? k' = if k' = k then (m.pages.get? k').map f else m.pages.get? k' :=
  get?_modify m.pages k f k'

variable {r : PageRef}

theorem resident_eq_some : r.resident s = some p ↔
      ∃ m, s.registry.get? r.mapping = some m ∧ m.pages.get? r.index = some p ∧ p.object = r.object := by
  unfold PageRef.resident
  rw [Option.filter_eq_some_iff, Option.bind_eq_some_iff]
  simp only [beq_iff_eq]
  constructor
  · rintro ⟨⟨m, hm, hp⟩, hobj⟩
    exact ⟨m, hm, hp, hobj⟩
  · rintro ⟨m, hm, hp, hobj⟩
    exact ⟨⟨m, hm, hp⟩, hobj⟩

variable {id : Nat}

open CacheManager (holds objectAt reclaimable)

theorem objectAt_some (h : s.registry.get? id = some m) : s.objectAt id k = (m.pages.get? k).map (·.object) := by
  simp [objectAt, h]

/-- What holds of the pages that are there holds as long as they are the same. -/
theorem Focus.Holds.same (h : focus.Holds s) (hor : t.orphans = s.orphans)
    (hob : ∀ id k, t.objectAt id k = s.objectAt id k) (hh : ∀ id, t.holds id = s.holds id) :
    focus.Holds t := by
  refine ⟨?_, fun id hid => (hh id).trans (h.2 id hid)⟩
  have huse := h.1
  cases huses : focus.use with
  | nothing => trivial
  | vacancy id k =>
    rw [huses] at huse
    exact (hob id k).trans huse
  | page r =>
    rw [huses] at huse
    obtain hin | ⟨p, hp, hd⟩ := huse
    · exact .inl ((hob _ _).trans hin)
    · refine .inr ⟨p, ?_, hd⟩
      unfold PageRef.orphan at hp ⊢
      rwa [hor]

theorem Focus.Holds.fewer (h : focus.Holds s) (hlo : focus.Loose)
    (hob : ∀ id k, t.objectAt id k = s.objectAt id k ∨ t.objectAt id k = none)
    (hh : ∀ id, s.holds id → t.holds id) : focus.Holds t := by
  refine ⟨?_, fun id hid => hh id (h.2 id hid)⟩
  have huse := h.1
  cases huses : focus.use with
  | nothing => trivial
  | page r => exact absurd huses (hlo r)
  | vacancy id k =>
    rw [huses] at huse
    exact (hob id k).elim (fun heq => heq.trans huse) fun hno => hno

variable {f : FileMapping → FileMapping} {owed' : Nat}

/-- One mapping changes. -/
theorem objectAt_modify (hm : s.registry.get? id = some m) (hreg : t.registry = s.registry.modify id f)
    (id' k : Nat) :
    t.objectAt id' k = if id' = id then ((f m).pages.get? k).map (·.object) else s.objectAt id' k := by
  unfold objectAt
  rw [hreg, get?_modify]
  split_ifs with hid
  · rw [hid, hm]
    rfl
  · rfl

theorem holds_modify (hreg : t.registry = s.registry.modify id f)
    (hown : ∀ m, s.registry.get? id = some m → (f m).owned = m.owned) (id' : Nat) : t.holds id' = s.holds id' := by
  unfold holds
  rw [hreg, get?_modify]
  split_ifs with hid
  · subst hid
    cases hm : s.registry.get? id' with
    | none => rfl
    | some m => exact hown m hm
  · rfl

/-- Fields that do not count may change. -/
theorem Inv.of_eq (h : Inv focus owed s) (hreg : t.registry = s.registry) (hor : t.orphans = s.orphans)
    (hres : t.residentPages = s.residentPages) (hd : t.dirtyPages = s.dirtyPages) :
    Inv focus owed t where
  resident := by rw [hres, hreg, h.resident]
  dirty := by rw [hd, hreg, h.dirty]
  mappings := by rw [hreg]; exact h.mappings
  ordered := by rw [hreg]; exact h.ordered
  focused := by
    refine h.focused.same hor (fun id k => ?_) fun id => ?_
    · rw [objectAt, hreg]
      rfl
    · rw [holds, hreg]
      rfl

/-- One mapping changes, and the counters with it. -/
theorem Inv.modify (h : Inv focus owed s) (hm : s.registry.get? id = some m)
    (hreg : t.registry = s.registry.modify id f)
    (hres : ∀ n, n + m.resident = s.registry.total FileMapping.resident + (f m).resident →
      t.residentPages = (n + owed') % 2 ^ 64)
    (hd : ∀ n, n + m.dirty = s.registry.total FileMapping.dirty + (f m).dirty → t.dirtyPages = n % 2 ^ 64)
    (hmap : (f m).dirtyPages = (f m).dirty % 2 ^ 64)
    (hord : ∀ k p, (f m).pages.get? k = some p → p.state.persistedSeq ≤ p.state.dirtySeq)
    (hfo : focus.Holds s → focus.Holds t) : Inv focus owed' t := by
  have hfd : ∀ id' m', t.registry.get? id' = some m' →
      (id' = id ∧ m' = f m) ∨ s.registry.get? id' = some m' := by
    intro id' m' hm'
    rw [hreg, get?_modify] at hm'
    split at hm'
    next hid =>
      rw [hid, hm] at hm'
      exact .inl ⟨hid, (some.inj hm').symm⟩
    · exact .inr hm'
  refine ⟨?_, ?_, fun id' m' hm' => ?_, fun id' m' hm' => ?_, hfo h.focused⟩
  · rw [hreg]
    exact hres _ (total_modify f FileMapping.resident hm)
  · rw [hreg]
    exact hd _ (total_modify f FileMapping.dirty hm)
  · obtain ⟨-, rfl⟩ | hold := hfd id' m' hm'
    · exact hmap
    · exact h.mappings id' m' hold
  · obtain ⟨-, rfl⟩ | hold := hfd id' m' hm'
    · exact hord
    · exact h.ordered id' m' hold

/-- Where a mapping is not registered, changing it changes nothing. -/
theorem modify_absent (h : s.registry.get? id = none) : s.registry.modify id f = s.registry := by
  apply ext_get?
  intro k
  rw [get?_modify]
  split_ifs with hk
  · rw [hk, h]
    rfl
  · rfl

variable {g : CachedPage → CachedPage}

section
variable (h : Inv focus owed s) (hm : s.registry.get? id = some m) (hp : m.pages.get? k = some p)
include h hm hp

/-- The counts that a change of one page calls for. -/
theorem Inv.setPage
    (hreg : t.registry = s.registry.modify id f) (hpgs : (f m).pages = (m.modifyPage k g).pages)
    (hor : t.orphans = s.orphans) (hown : (f m).owned = m.owned) (hobj : ∀ q, (g q).object = q.object)
    (hord : (g p).state.persistedSeq ≤ (g p).state.dirtySeq) (hres : t.residentPages = s.residentPages)
    (hd : (t.dirtyPages + p.state.isDirty.toNat) % 2 ^ 64 = (s.dirtyPages + (g p).state.isDirty.toNat) % 2 ^ 64 ∧
      t.dirtyPages < 2 ^ 64) (hmap : ((f m).dirtyPages + p.state.isDirty.toNat) % 2 ^ 64 =
      (m.dirtyPages + (g p).state.isDirty.toNat) % 2 ^ 64 ∧ (f m).dirtyPages < 2 ^ 64) : Inv focus owed t := by
  have heq : (f m).resident = m.resident :=
    (congrArg (fun pages => total pages _) hpgs).trans (modifyPage_resident m k g)
  have hc : (f m).dirty + p.state.isDirty.toNat = m.dirty + (g p).state.isDirty.toNat :=
    (congrArg (fun pages => total pages _ + _) hpgs).trans (total_modify g _ hp)
  have hget : ∀ k', (f m).pages.get? k' = if k' = k then (m.pages.get? k').map g else m.pages.get? k' := by
    intro k'
    rw [hpgs, modifyPage_get]
  have hsd := h.dirty
  have hmd := h.mappings id m hm
  refine h.modify hm hreg (fun n hn => ?_) (fun n hn => ?_) ?_ (fun k' p' hp' => ?_) fun hfo => ?_
  · exact hres.trans (recount h.resident (by omega))
  · omega
  · omega
  · rw [hget] at hp'
    split at hp'
    next hk =>
      rw [hk, hp] at hp'
      rw [← some.inj hp']
      exact hord
    · exact h.ordered id m hm k' p' hp'
  · refine hfo.same hor (fun id' k' => ?_) (holds_modify hreg fun m' hm' => ?_)
    · rw [objectAt_modify hm hreg]
      split_ifs with hid
      · rw [hid, objectAt_some hm, hget]
        split
        · rw [Option.map_map]
          congr 1
          funext q
          exact hobj q
        · rfl
      · rfl
    · rw [← some.inj (hm.symm.trans hm')]
      exact hown

/-- A page changes in ways that leave it as clean or as dirty as it was. -/
theorem Inv.touch
    (hobj : ∀ q, (g q).object = q.object) (hord : (g p).state.persistedSeq ≤ (g p).state.dirtySeq)
    (hd : (g p).state.isDirty = p.state.isDirty) :
    Inv focus owed {s with registry := s.registry.modify id fun m => m.modifyPage k g} := by
  have hs := h.dirty
  have hmap := h.mappings id m hm
  refine h.setPage (f := fun m => m.modifyPage k g) hm hp rfl rfl rfl rfl hobj hord rfl ⟨?_, ?_⟩ ⟨?_, ?_⟩
  · rw [hd]
  · show s.dirtyPages < _
    omega
  · show (m.dirtyPages + _) % _ = _
    rw [hd]
  · show m.dirtyPages < _
    omega

/-- A page becomes dirty or clean, and it is noted. -/
theorem Inv.noted {c : Nat → Nat} (hobj : ∀ q, (g q).object = q.object)
    (hord : (g p).state.persistedSeq ≤ (g p).state.dirtySeq) (hc : ∀ n, n < 2 ^ 64 → c n < 2 ^ 64 ∧
      (c n + p.state.isDirty.toNat) % 2 ^ 64 = (n + (g p).state.isDirty.toNat) % 2 ^ 64) :
    Inv focus owed {s with
      registry := (s.registry.modify id fun m => m.modifyPage k g).modify id fun m =>
        {m with dirtyPages := c m.dirtyPages}
      dirtyPages := c s.dirtyPages} := by
  have hs := hc s.dirtyPages (h.dirty ▸ Nat.mod_lt _ (by decide))
  have hmap := hc m.dirtyPages (h.mappings id m hm ▸ Nat.mod_lt _ (by decide))
  rw [SortedMap.modify_modify]
  exact h.setPage (f := fun m => {m.modifyPage k g with dirtyPages := c m.dirtyPages}) hm hp rfl rfl rfl
    rfl hobj hord rfl ⟨hs.2, hs.1⟩ ⟨hmap.2, hmap.1⟩

end

/-- Orphans do not count. -/
theorem Inv.touchOrphan {obj : Nat} (h : Inv focus owed s) (hlo : focus.Loose) :
    Inv focus owed {s with orphans := s.orphans.modify obj g} :=
  {h with focused := h.focused.fewer hlo (fun _ _ => .inl rfl) fun _ h => h}

variable {E : Ending → CacheManager → Prop} {P : CacheManager → Prop}

theorem answer_spec (hP : ∀ s, P s → P {s with asked := s.asked + 1}) : Triple P answer (fun _ => P) E :=
  .modifyGet fun s hs => hP s hs

theorem keeps_answer : Keeps focus answer := answer_spec fun _ h => h.of_eq rfl rfl rfl rfl

theorem keeps_reserve : Keeps focus reserve := by
  refine keeps_answer.bind fun b => ?_
  cases b with
  | true => exact .skip
  | false => exact .throw fun _ h => h

theorem getMapping_spec : Triple P (getMapping id) (fun m s => P s ∧ s.registry.get? id = some m) (Fails focus) := by
  refine .bind .get fun t => ?_
  cases hm : t.registry.get? id with
  | some m => exact .pure fun s h => ⟨h.2, h.1 ▸ hm⟩
  | none => exact .throw fun _ _ => trivial

/-- Where only the mapping is looked at, its being registered need not be kept. -/
theorem getMapping_bind {α : Type} {F : FileMapping → Prog α} {Q : α → CacheManager → Prop}
    (h : ∀ m, Triple P (F m) Q (Fails focus)) : Triple P (getMapping id >>= F) Q (Fails focus) :=
  getMapping_spec.bind fun m => (h m).pre fun _ h => h.1

/-- However a page's lock refuses, nothing has changed yet. -/
theorem Fails.stop (h : Inv focus 0 s) (stop : Stop) : Fails focus (.stop stop) s := by
  cases stop with
  | panic => trivial
  | error code => exact h

theorem Fails.imp {focus' : Focus} {ending : Ending} (hinv : Inv focus 0 s → Inv focus' 0 s)
    (h : Fails focus ending s) : Fails focus' ending s := by
  cases ending with
  | blocked => trivial
  | stop stop =>
    cases stop with
    | panic => trivial
    | error code => exact hinv h

/-! ### Reclaim -/

/-- What is counted can be counted off. -/
theorem wrappingSub_of {a b c n : Nat} (ha : a = c % 2 ^ 64) (hc : n + b = c) : wrappingSub a b = n % 2 ^ 64 := by
  unfold wrappingSub
  omega

section Loose
variable (hlo : focus.Loose)
include hlo

/-- A mapping goes with all its pages. -/
theorem Inv.erase (h : Inv focus owed s) (hm : s.registry.get? id = some m) (hun : m.owned = false)
    (hreg : t.registry = s.registry.erase id)
    (hres : ∀ n, n + m.resident = s.registry.total FileMapping.resident → t.residentPages = (n + owed) % 2 ^ 64)
    (hd : ∀ n, n + m.dirty = s.registry.total FileMapping.dirty → t.dirtyPages = n % 2 ^ 64) :
    Inv focus owed t := by
  have hfd : ∀ id' m', t.registry.get? id' = some m' → s.registry.get? id' = some m' := by
    intro id' m' hm'
    rw [hreg, get?_erase] at hm'
    split at hm'
    · cases hm'
    · exact hm'
  refine ⟨?_, ?_, fun id' m' hm' => h.mappings id' m' (hfd id' m' hm'),
    fun id' m' hm' => h.ordered id' m' (hfd id' m' hm'), h.focused.fewer hlo (fun id' k => ?_) fun id' hh => ?_⟩
  · rw [hreg]
    exact hres _ (total_erase _ hm)
  · rw [hreg]
    exact hd _ (total_erase _ hm)
  · unfold objectAt
    rw [hreg, get?_erase]
    split
    · exact .inr rfl
    · exact .inl rfl
  · unfold holds at hh ⊢
    rw [hreg, get?_erase]
    split_ifs with hid
    · rw [hid, hm, Option.any_some, hun] at hh
      cases hh
    · exact hh

theorem pruneMapping_spec (id : Nat) :
    Triple (Inv focus owed) (pruneMapping id) (fun _ => Inv focus owed) (Fails focus) := by
  refine .modify fun s h => ?_
  split
  next m hm =>
    split_ifs with hid
    · simp only [and_eq_true, List.isEmpty_iff, Bool.not_eq_true'] at hid
      have hno : ∀ weight, m.pages.total weight = 0 := fun weight => by
        simp [total, hid.1]
      have hres : m.resident = 0 := hno _
      have hd : m.dirty = 0 := hno _
      refine h.erase hlo hm hid.2 rfl (fun n hn => ?_) fun n hn => ?_
      · exact recount h.resident (by omega)
      · exact recount h.dirty (by omega)
    · exact h
  · exact h

/-- Clean pages go. -/
theorem Inv.filterPages {keep : Nat → CachedPage → Bool} (h : Inv focus owed s)
    (hm : s.registry.get? id = some m)
    (hcl : ∀ k p, m.pages.get? k = some p → keep k p = false → p.state.isDirty = false)
    (hreg : t.registry = s.registry.modify id fun m => {m with pages := m.pages.filter keep})
    (hd : t.dirtyPages = s.dirtyPages)
    (hres : ∀ n, n + (m.pages.filter fun k p => !keep k p).total (fun _ => 1) =
      s.registry.total FileMapping.resident → t.residentPages = (n + owed') % 2 ^ 64) : Inv focus owed' t := by
  have hsp := total_filter_add m.pages keep
  have hg : (m.pages.filter fun k p => !keep k p).total (fun p => p.state.isDirty.toNat) = 0 := by
    refine (SortedMap.total_congr (g := fun _ => 0) fun k p hp => ?_).trans (by simp [total])
    rw [get?_filter, Option.filter_eq_some_iff] at hp
    rw [hcl k p hp.1 (by simpa using hp.2)]
    rfl
  have heq : FileMapping.dirty {m with pages := m.pages.filter keep} = m.dirty := by
    have := hsp fun p => p.state.isDirty.toNat
    rw [hg] at this
    exact this
  refine h.modify hm hreg (fun n hn => hres n ?_) (fun n hn => ?_) ?_ (fun k p hp => ?_) fun hfo => ?_
  · have := hsp fun _ => 1
    have hm' : m.resident = m.pages.total fun _ => 1 := rfl
    have hf : FileMapping.resident {m with pages := m.pages.filter keep} =
      (m.pages.filter keep).total fun _ => 1 := rfl
    omega
  · exact hd.trans (recount h.dirty (by omega))
  · rw [heq]
    exact h.mappings id m hm
  · have hp := (get?_filter m.pages keep k).symm.trans hp
    rw [Option.filter_eq_some_iff] at hp
    exact h.ordered id m hm k p hp.1
  · refine hfo.fewer hlo (fun id' k => ?_) fun id' => (holds_modify hreg (fun _ _ => rfl) id').trans
    rw [objectAt_modify hm hreg]
    split_ifs with hid
    · rw [hid, objectAt_some hm]
      rw [get?_filter]
      cases m.pages.get? k with
      | none => exact .inr rfl
      | some p => cases hkeep : keep k p <;> simp
    · exact .inl rfl

omit hlo in
theorem reclaimable_clean {state : PageState} (h : state.reclaimable) : state.isDirty = false := by
  simp only [PageState.reclaimable, and_eq_true, Bool.not_eq_true'] at h
  exact h.1.1.1

theorem keeps_tryReclaim (r : PageRef) : Keeps focus (tryReclaim r) := by
  refine .start fun s h => .get_bind ?_
  cases hm : s.registry.get? r.mapping with
  | none => exact .stay h
  | some m =>
    cases hr : r.resident s with
    | none => exact .stay h
    | some page =>
      by_cases hrdy : (page.state.reclaimable && s.unique page)
      · simp only [hrdy]
        obtain ⟨m', hm', hp, -⟩ := resident_eq_some.mp hr
        cases hm.symm.trans hm'
        have hcl := reclaimable_clean (Bool.and_eq_true_iff.mp hrdy).1
        refine .modify_bind (.modify_bind (.resume (P := Inv focus 0) ?_ ?_))
        · exact (pruneMapping_spec hlo r.mapping).bind fun _ => .skip
        · refine h.filterPages hlo hm (fun k p hk hg => ?_) rfl ?_ fun n hn => ?_
          · have hkey : k = r.index := by simpa using hg
            rw [hkey, hp] at hk
            rwa [← some.inj hk]
          · exact (wrappingSub_of h.dirty rfl).trans h.dirty.symm
          · have hone := SortedMap.total_filter_key (fun _ => 1) hp
            exact wrappingSub_of h.resident (by omega)
      · simp only [hrdy]
        exact .stay h

omit hlo in
theorem keeps_requeue (r : PageRef) : Keeps focus (requeue r) := by
  refine keeps_answer.bind fun b => ?_
  cases b with
  | true => exact .modify fun _ h => h.of_eq rfl rfl rfl rfl
  | false => exact .skip

/-- A reference that sees a page changes it without making it clean or dirty. -/
theorem modifyPage_touch (h : Inv focus owed s) (hp : r.page s = some p) (hobj : ∀ q, (g q).object = q.object)
    (heq : p.state.persistedSeq ≤ p.state.dirtySeq →
      (g p).state.persistedSeq ≤ (g p).state.dirtySeq ∧ (g p).state.isDirty = p.state.isDirty) :
    Runs s (r.modifyPage g) (fun _ => Inv focus owed) E := by
  refine .modify fun t ht => ?_
  subst ht
  cases hr : r.resident t with
  | some q =>
    obtain ⟨m, hm, hk, -⟩ := resident_eq_some.mp hr
    obtain rfl : q = p := by
      rw [PageRef.page, hr] at hp
      exact some.inj hp
    obtain ⟨hord, hd⟩ := heq (h.ordered _ m hm _ q hk)
    exact h.touch hm hk hobj hord hd
  | none => exact h.touchOrphan hlo

theorem keeps_reclaimOne : Keeps focus reclaimOne := by
  refine .bind (Q := fun _ => Inv focus 0) (.modifyGet fun _ h => h.of_eq rfl rfl rfl rfl) fun r? => ?_
  cases r? with
  | none => exact .skip
  | some r =>
    refine .start fun s h => .get_bind ?_
    cases hp : r.page s with
    | none => exact .stay h
    | some page =>
      refine .bind (modifyPage_touch hlo h hp (fun _ => rfl) fun hord => ⟨hord, rfl⟩) fun _ => ?_
      refine .bind (Q := fun _ => Inv focus 0) ?_ fun reclaimed => ?_
      · unfold secondChance
        split
        · exact .skip
        · exact keeps_tryReclaim hlo r
      · split
        · exact .skip
        · exact (keeps_requeue r).bind fun _ => .skip

theorem keeps_reclaimLoop (tgt budget : Nat) : ∀ reclaimed, Keeps focus (reclaimLoop tgt budget reclaimed) := by
  induction budget with
  | zero => exact fun _ => .skip
  | succ budget ih =>
    intro reclaimed
    unfold reclaimLoop
    split
    · exact (keeps_reclaimOne hlo).bind fun one => ih (reclaimed + one.toNat)
    · exact .skip

theorem keeps_reclaimClean (targetPages : Nat) : Keeps focus (reclaimClean targetPages) :=
  .read fun _ => keeps_reclaimLoop hlo targetPages _ 0

/-- The pages that pruning takes are owed until the end. -/
theorem pruneLoop_spec (ids : List Nat) : ∀ reclaimed,
    Triple (Inv focus reclaimed) (pruneLoop ids reclaimed) (fun n => Inv focus n) (Fails focus) := by
  induction ids with
  | nil => exact fun reclaimed => .pure fun _ h => h
  | cons id rest ih =>
    intro reclaimed
    refine .start fun s h => .get_bind ?_
    cases hm : s.registry.get? id with
    | none => exact .resume (ih reclaimed) h
    | some m =>
      cases ho : m.owned with
      | true =>
        simp only [ho]
        exact .resume (ih reclaimed) h
      | false =>
        simp only [ho]
        refine .modify_bind (.resume ((pruneMapping_spec hlo id).bind fun _ => ih _) ?_)
        refine h.filterPages hlo hm (fun k p _ hg => ?_) rfl rfl fun n hn => ?_
        · simp only [Bool.not_eq_false', reclaimable, and_eq_true] at hg
          exact reclaimable_clean hg.1
        · simp only [Bool.not_not] at hn
          have := h.resident
          show s.residentPages = _
          omega

theorem keeps_pruneIdleMappings : Keeps focus pruneIdleMappings := by
  refine keeps_reserve.bind fun _ => .read fun t => .bind (pruneLoop_spec hlo _ 0) fun reclaimed => ?_
  refine .bind (Q := fun _ => Inv focus 0) (.modify fun s h => ?_) fun _ => ?_
  · refine ⟨?_, ?_, h.mappings, h.ordered, h.focused.fewer hlo (fun _ _ => .inl rfl) fun _ h => h⟩
    · exact wrappingSub_of h.resident rfl
    · exact wrappingSub_of h.dirty rfl
  · refine .bind (Q := fun _ => Inv focus 0) (.modify fun _ h => h.of_eq rfl rfl rfl rfl) fun _ => ?_
    exact .skip

theorem keeps_discardUnowned (key : Nat) : Keeps focus (discardUnowned key) := by
  refine .start fun s h => .get_bind ?_
  cases hm : s.registry.get? key with
  | none => exact .stay h
  | some m =>
    cases ho : m.owned with
    | true =>
      simp only [ho]
      exact .stay h
    | false =>
      simp only [ho, false_eq_true, if_false]
      split
      · refine .modify_bind (.modify_bind (.modify_bind (.pure fun t ht => ?_)))
        subst ht
        refine h.erase hlo hm ho rfl (fun n hn => ?_) fun n hn => ?_
        · exact wrappingSub_of h.resident hn
        · exact wrappingSub_of h.dirty hn
      · exact .stay h

end Loose

/-! ### Writeback -/

variable {page : CachedPage} {idx : Nat} (cap : Nat) (expl : Bool)

/-- A report makes a page clean only if no guard is left, and then it is counted off. -/
theorem reportWriteback_spec (succeeded : Bool) (hd : page.state.isDirty) :
    Triple (fun s => Inv focus 0 s ∧ s.registry.get? id = some m ∧ m.pages.get? idx = some page)
      (reportWriteback id idx page succeeded) (fun _ => Inv focus 0) E := by
  refine .start fun s ⟨h, hm, hp⟩ => ?_
  generalize hsta : page.state.claim.report page.state.dirtySeq succeeded = state
  have hord : state.persistedSeq ≤ state.dirtySeq := by
    have := h.ordered id m hm idx page hp
    rw [← hsta]
    cases succeeded
    · exact this
    · show max page.state.persistedSeq page.state.dirtySeq ≤ page.state.dirtySeq
      omega
  unfold reportWriteback
  simp only [hsta, hd]
  refine .modify_bind ?_
  cases hnew : state.isDirty with
  | true =>
    refine .pure fun t ht => ?_
    subst ht
    exact h.touch hm hp (fun _ => rfl) hord (hnew.trans hd.symm)
  | false =>
    refine .modify_bind (.modify fun t ht => ?_)
    subst ht
    refine h.noted (c := (wrappingSub · 1)) hm hp (fun _ => rfl) hord fun n hn => ?_
    simp only [hd, hnew, Bool.toNat_true, Bool.toNat_false, wrappingSub]
    omega

theorem keeps_writebackPage (id idx : Nat) (expl : Bool) : Keeps focus (writebackPage id idx expl) := by
  refine .start fun s h => .get_bind ?_
  cases hm : s.registry.get? id with
  | none => exact .stay h
  | some m =>
    cases hp : m.pages.get? idx with
    | none =>
      simp only [hp]
      exact .stay h
    | some page =>
      simp only [hp]
      cases hact : page.state.writebackAction expl with
      | skip => exact .stay h
      | wait => exact .throw fun _ ht => ht ▸ h
      | submit =>
        let P := fun t : CacheManager => Inv focus 0 t ∧ t.registry.get? id = some m ∧ m.pages.get? idx = some page
        refine .bind (Q := fun _ => P) ?_ fun succeeded => ?_
        · refine .resume (P := P) ?_ ⟨h, hm, hp⟩
          unfold writeSnapshot
          split
          · exact .skip
          · exact answer_spec fun s h => ⟨h.1.of_eq rfl rfl rfl rfl, h.2⟩
        · refine (reportWriteback_spec succeeded (PageState.submit_dirty hact).1).bind fun _ => ?_
          cases succeeded with
          | true => exact .skip
          | false => exact .throw fun _ h => h

theorem keeps_writebackLoop (id cap : Nat) (expl : Bool) (pages : List Nat) :
    ∀ w, Keeps focus (writebackLoop id cap expl pages w) := by
  induction pages with
  | nil => exact fun _ => .skip
  | cons idx rest ih =>
    intro w
    unfold writebackLoop
    split
    · exact .skip
    · exact (keeps_writebackPage id idx expl).bind fun one => ih (w + one.toNat)

theorem keeps_residentPages (m : FileMapping) (start stop : Nat) : Keeps focus (residentPages m start stop) := by
  unfold residentPages
  split
  · exact .skip
  · exact keeps_reserve.bind fun _ => .skip

/-- A mapping changes in nothing that counts. -/
theorem keeps_modifyMapping (hpgs : ∀ m, (f m).pages = m.pages) (hd : ∀ m, (f m).dirtyPages = m.dirtyPages)
    (hown : ∀ m, (f m).owned = m.owned) : Keeps focus (modifyMapping id f) := by
  refine .modify fun s h => ?_
  cases hm : s.registry.get? id with
  | none => exact h.of_eq (modify_absent hm) rfl rfl rfl
  | some m =>
    have heq : ∀ weight, (f m).pages.total weight = m.pages.total weight := fun weight => by rw [hpgs]
    have hres : (f m).resident = m.resident := heq _
    have hc : (f m).dirty = m.dirty := heq _
    refine h.modify hm rfl (fun n hn => ?_) (fun n hn => ?_) ?_ (fun k p hp => ?_) fun hfo => ?_
    · exact recount h.resident (by omega)
    · exact recount h.dirty (by omega)
    · rw [hd, hc]
      exact h.mappings id m hm
    · rw [hpgs] at hp
      exact h.ordered id m hm k p hp
    · refine hfo.same rfl (fun id' k => ?_) (holds_modify rfl fun m _ => hown m)
      rw [objectAt_modify hm rfl]
      split_ifs with hid
      · rw [hid, objectAt_some hm, hpgs]
      · rfl

theorem keeps_dirtyBatch (id : Nat) (m : FileMapping) (cap : Nat) : Keeps focus (dirtyBatch id m cap) := by
  refine keeps_reserve.bind fun _ => ?_
  exact .bind (keeps_modifyMapping (fun _ => rfl) (fun _ => rfl) fun _ => rfl) fun _ => .skip

theorem keeps_writebackPages (id : Nat) (m : FileMapping) (cap : Nat) (expl : Bool) :
    Keeps focus (writebackPages id m cap expl) := by
  unfold writebackPages
  split
  · exact keeps_residentPages m 0 m.logicalSize
  · exact keeps_dirtyBatch id m cap

theorem keeps_writebackSome (id cap : Nat) (expl : Bool) : Keeps focus (writebackSome id cap expl) := by
  refine .read fun t => ?_
  cases t.registry.get? id with
  | none => exact .skip
  | some m =>
    simp only
    split
    · exact .skip
    · split
      · exact .skip
      · refine (keeps_writebackPages id m cap expl).bind fun pages => keeps_reserve.bind fun _ => ?_
        exact keeps_writebackLoop id cap expl pages 0

theorem keeps_batchLoop (ids : List Nat) : ∀ w, Keeps focus (batchLoop cap expl ids w) := by
  induction ids with
  | nil => exact fun _ => .skip
  | cons id rest ih =>
    intro w
    unfold batchLoop
    split
    · exact .skip
    · refine (keeps_writebackSome id (cap - w) expl).bind fun pages => ?_
      exact .bind (Q := fun _ => Inv focus 0) (.modify fun _ h => h.of_eq rfl rfl rfl rfl)
        fun _ => ih (w + pages)

theorem keeps_writebackInner : Keeps focus (writebackInner cap expl) :=
  keeps_reserve.bind fun _ => .read fun _ => keeps_batchLoop cap expl _ 0

theorem keeps_throttleDirty : Keeps focus throttleDirty := by
  refine .read fun t => ?_
  split
  · exact .skip
  · exact (keeps_writebackInner _ false).bind fun _ => .skip

theorem keeps_syncLoop (id : Nat) (pages : List Nat) : ∀ failed, Keeps focus (syncLoop id pages failed) := by
  induction pages with
  | nil => exact fun _ => .skip
  | cons idx rest ih =>
    intro failed
    refine .bind (keeps_writebackPage id idx true).attempt fun r => ?_
    cases r with
    | ok _ => exact ih failed
    | error ending =>
      cases ending with
      | blocked => exact .throw fun _ _ => trivial
      | stop stop =>
        cases stop with
        | error code => exact ih true
        | panic => exact .throw fun _ _ => trivial

theorem keeps_syncRange (id start stop : Nat) : Keeps focus (syncRange id start stop) := by
  refine getMapping_bind fun m => ?_
  refine (keeps_residentPages m start stop).bind fun pages => keeps_reserve.bind fun _ => ?_
  refine (keeps_syncLoop id pages false).bind fun failed => ?_
  split
  · exact .skip
  · exact keeps_answer.bind fun _ => .skip

/-! ### Reading and writing -/

section Loading
variable (hlo : focus.Loose)
include hlo

theorem keeps_allocateFrame : Keeps focus allocateFrame := by
  refine keeps_answer.bind fun b => ?_
  cases b with
  | true => exact .skip
  | false => exact (keeps_reclaimClean hlo 1).bind fun _ => keeps_reserve

omit hlo in
theorem keeps_fillFrame (id idx : Nat) (zeroOnMiss : Bool) : Keeps focus (fillFrame id idx zeroOnMiss) := by
  unfold fillFrame
  split
  · exact .skip
  · unfold readBacking
    split
    · exact .throw fun _ h => h
    · refine getMapping_bind fun m => ?_
      split
      · exact .skip
      · refine keeps_answer.bind fun b => ?_
        cases b with
        | true => exact .skip
        | false => exact .throw fun _ h => h

theorem loadPage_spec (id idx : Nat) (zeroOnMiss : Bool) :
    Triple (Inv focus 0) (loadPage id idx zeroOnMiss) (fun page s => Inv focus 0 s ∧ page.state = .clean)
      (Fails focus) := by
  refine (keeps_allocateFrame hlo).bind fun _ => (keeps_fillFrame id idx zeroOnMiss).bind fun _ => ?_
  refine .read fun t => .bind (Q := fun _ => Inv focus 0) (.modify fun _ h => h.of_eq rfl rfl rfl rfl) fun _ => ?_
  refine keeps_reserve.bind fun _ => ?_
  exact .bind (Q := fun _ => Inv focus 0) (.modify fun _ h => h.of_eq rfl rfl rfl rfl)
    fun _ => .pure fun _ h => ⟨h, rfl⟩

end Loading

section Using
variable {use : Use} {own : Option Nat}

theorem loose_nothing : Focus.Loose ⟨.nothing, own⟩ := nofun

theorem Inv.unfocus (h : Inv ⟨use, own⟩ owed s) : Inv ⟨.nothing, own⟩ owed s :=
  {h with focused := ⟨trivial, h.focused.2⟩}

/-- A page that is published is one more resident page. -/
theorem finishLoad_spec (hpg : page.state = .clean) :
    Triple (Inv ⟨.vacancy id idx, some id⟩ 0) (finishLoad id idx page)
      (fun _ => Inv ⟨.nothing, some id⟩ 0) E := by
  refine .start fun s h => .modify_bind (.modify fun t ht => ?_)
  subst ht
  have hva : s.objectAt id idx = none := h.focused.1
  obtain ⟨m, hm, -⟩ := (Option.any_eq_true _ _).mp (h.focused.2 id rfl)
  rw [objectAt_some hm, Option.map_eq_none_iff] at hva
  have hin := fun weight => total_insert page weight hva
  have hres : FileMapping.resident {m with pages := m.pages.insert idx page} = m.resident + 1 := hin _
  have hd : FileMapping.dirty {m with pages := m.pages.insert idx page} = m.dirty := by
    refine (hin _).trans ?_
    rw [hpg]
    rfl
  have hc := h.resident
  refine h.unfocus.modify (f := fun m => {m with pages := m.pages.insert idx page}) hm rfl (fun n hn => ?_)
    (fun n hn => ?_) ?_ (fun k p hp => ?_) fun hfo => ⟨trivial, fun id' hid => ?_⟩
  · show wrappingAdd s.residentPages 1 = _
    unfold wrappingAdd
    omega
  · exact recount h.dirty (by omega)
  · rw [hd]
    exact h.mappings id m hm
  · have hp := (get?_insert m.pages idx page k).symm.trans hp
    split at hp
    · rw [← some.inj hp, hpg]
      exact le_rfl
    · exact h.ordered id m hm k p hp
  · refine (holds_modify (f := fun m => {m with pages := m.pages.insert idx page}) rfl ?_ id').trans
      (hfo.2 id' hid)
    exact fun _ _ => rfl

/-- A lease refers to a page that is in its mapping. -/
theorem leasePage_spec (id idx : Nat) :
    Triple (Inv ⟨.nothing, own⟩ 0) (leasePage id idx) (fun r => Inv ⟨.page r, own⟩ 0)
      (Fails ⟨.nothing, own⟩) := by
  refine getMapping_spec.bind fun m => .start fun s ⟨h, hm⟩ => ?_
  cases hp : m.pages.get? idx with
  | none => exact .throw fun _ _ => trivial
  | some page =>
    cases hlease : page.state.takeLease with
    | error stop =>
      simp only [hlease]
      exact .throw fun t ht => ht ▸ .stop h stop
    | ok state =>
      simp only [hlease]
      refine .modify_bind (.pure fun t ht => ?_)
      subst ht
      have hsta := PageState.takeLease_eq hlease
      have hord := h.ordered id m hm idx page hp
      have hin : Inv ⟨.page ⟨id, idx, page.object⟩, own⟩ 0 s :=
        {h with focused := ⟨.inl (by rw [objectAt_some hm, hp]; rfl), h.focused.2⟩}
      refine hin.touch hm hp (fun _ => rfl) ?_ ?_
      · rw [hsta]
        exact hord
      · rw [hsta]
        rfl

theorem acquirePageInner_spec (id idx : Nat) (zeroOnMiss : Bool) :
    Triple (Inv ⟨.nothing, some id⟩ 0) (acquirePageInner id idx zeroOnMiss)
      (fun r => Inv ⟨.page r, some id⟩ 0) (Fails ⟨.nothing, some id⟩) := by
  refine getMapping_spec.bind fun m => ?_
  split_ifs with habs
  · refine .bind (Q := fun page s => Inv ⟨.vacancy id idx, some id⟩ 0 s ∧ page.state = .clean) ?_ fun page => ?_
    · have hlo : Focus.Loose ⟨.vacancy id idx, some id⟩ := nofun
      refine .fail ((loadPage_spec hlo id idx zeroOnMiss).pre fun s h => ?_) fun _ _ => .imp .unfocus
      refine {h.1 with focused := ⟨?_, h.1.focused.2⟩}
      show s.objectAt id idx = none
      rw [objectAt_some h.2, Option.isNone_iff_eq_none.mp habs]
      rfl
    · intro s h
      exact Triple.bind (finishLoad_spec h.2) (fun _ => leasePage_spec id idx) s h.1
  · exact (leasePage_spec id idx).pre fun _ h => h.1

theorem dropLease_spec (r : PageRef) :
    Triple (Inv ⟨.nothing, own⟩ 0) (dropLease r) (fun _ => Inv ⟨.nothing, own⟩ 0) E := by
  refine .modify fun t h => ?_
  cases hr : r.resident t with
  | some q =>
    obtain ⟨m, hm, hk, -⟩ := resident_eq_some.mp hr
    exact h.touch hm hk (fun _ => rfl) (h.ordered _ m hm _ q hk) rfl
  | none => exact h.touchOrphan loose_nothing

omit own in
theorem resident_isSome_iff : (r.resident s).isSome ↔ s.objectAt r.mapping r.index = some r.object := by
  rw [Option.isSome_iff_exists]
  constructor
  · rintro ⟨p, hp⟩
    obtain ⟨m, hm, hk, hobj⟩ := resident_eq_some.mp hp
    rw [objectAt_some hm, hk, Option.map_some, hobj]
  · intro h
    cases hm : s.registry.get? r.mapping with
    | none =>
      simp [objectAt, hm] at h
    | some m =>
      rw [objectAt_some hm] at h
      obtain ⟨p, hp, hobj⟩ := Option.map_eq_some_iff.mp h
      exact ⟨p, resident_eq_some.mpr ⟨m, hm, hp, hobj⟩⟩

/-- Where the page of a reference is. -/
theorem page_cases (h : r.page s = some page) :
    (∃ m, s.registry.get? r.mapping = some m ∧ m.pages.get? r.index = some page ∧ r.resident s = some page) ∨
      r.resident s = none ∧ r.orphan s = some page := by
  unfold PageRef.page at h
  cases hr : r.resident s with
  | none =>
    rw [hr] at h
    exact .inr ⟨rfl, h⟩
  | some p =>
    rw [hr] at h
    cases h
    obtain ⟨m, hm, hk, -⟩ := resident_eq_some.mp hr
    exact .inl ⟨m, hm, hk, rfl⟩

/-- A page that is dirtied is noted if it was clean. -/
theorem dirtying_spec {change : PageState → Except Stop PageState} (hchg : ∀ old state, change old = .ok state →
      state.persistedSeq = old.persistedSeq ∧ state.dirtySeq = old.dirtySeq + 1) :
    Triple (Inv ⟨.page r, own⟩ 0) (dirtying r change) (fun _ => Inv ⟨.nothing, own⟩ 0) (Fails ⟨.nothing, own⟩) := by
  refine .start fun s h => .get_bind ?_
  cases hpg : r.page s with
  | none => exact .throw fun _ _ => trivial
  | some page =>
    cases hsta : change page.state with
    | error stop =>
      simp only [hsta]
      exact .throw fun t ht => ht ▸ .stop h.unfocus stop
    | ok state =>
      simp only [hsta]
      obtain ⟨hpe, hseq⟩ := hchg page.state state hsta
      refine .modify_bind ?_
      obtain ⟨m, hm, hk, hr⟩ | ⟨hr, hor⟩ := page_cases hpg
      · simp only [hr]
        have hold := h.ordered _ m hm _ page hk
        have hord : state.persistedSeq ≤ state.dirtySeq := by omega
        have hd : state.isDirty := PageState.isDirty_eq_true.mpr (.inl (by omega))
        cases hwas : page.state.isDirty with
        | true =>
          refine .pure fun t ht => ?_
          subst ht
          exact h.unfocus.touch hm hk (fun _ => rfl) hord (hd.trans hwas.symm)
        | false =>
          refine .modify_bind (.modify fun t ht => ?_)
          subst ht
          refine h.unfocus.noted (c := (wrappingAdd · 1)) hm hk (fun _ => rfl) hord fun n hn => ?_
          simp only [hd, hwas, Bool.toNat_true, Bool.toNat_false, wrappingAdd]
          omega
      · -- Only a page that left its mapping dirty can be in use here, and it is not noted again.
        have hwas : page.state.isDirty := by
          obtain hin | ⟨p, hp, hd⟩ := h.focused.1
          · rw [← resident_isSome_iff, hr] at hin
            cases hin
          · rw [hor] at hp
            rwa [some.inj hp]
        simp only [hr, hwas]
        refine .pure fun t ht => ?_
        subst ht
        exact h.unfocus.touchOrphan loose_nothing

theorem markDirty_spec (r : PageRef) :
    Triple (Inv ⟨.page r, own⟩ 0) (markDirty r) (fun _ => Inv ⟨.nothing, own⟩ 0) (Fails ⟨.nothing, own⟩) := by
  refine dirtying_spec fun old state h => ?_
  rw [PageState.markDirty_eq h]
  exact ⟨rfl, rfl⟩

theorem takeGuard_spec (r : PageRef) :
    Triple (Inv ⟨.page r, own⟩ 0) (takeGuard r) (fun _ => Inv ⟨.nothing, own⟩ 0) (Fails ⟨.nothing, own⟩) := by
  refine dirtying_spec fun old state h => ?_
  rw [PageState.takeGuard_eq h]
  exact ⟨rfl, rfl⟩

/-! ### Transfers -/

theorem keeps_readLoop (id fuel : Nat) : ∀ span, Keeps ⟨.nothing, some id⟩ (readLoop id fuel span) := by
  induction fuel with
  | zero => exact fun _ => .skip
  | succ fuel ih =>
    intro span
    unfold readLoop
    split
    · refine (acquirePageInner_spec id span.index false).bind fun lease => ?_
      exact .bind ((dropLease_spec lease).pre (fun _ h => h.unfocus)) fun _ => ih span.advance
    · exact .skip

theorem keeps_readAt (id off count : Nat) : Keeps ⟨.nothing, some id⟩ (readAt id off count) := by
  refine getMapping_bind fun m => ?_
  split
  · exact .skip
  · exact keeps_readLoop id _ _

theorem keeps_writeChunk (id : Nat) (span : Span) : Keeps ⟨.nothing, some id⟩ (writeChunk id span) := by
  refine keeps_throttleDirty.bind fun _ => (acquirePageInner_spec id span.index span.fullPage).bind fun lease => ?_
  exact (markDirty_spec lease).bind fun _ => dropLease_spec lease

theorem keeps_writeLoop (id fuel : Nat) : ∀ span, Keeps ⟨.nothing, some id⟩ (writeLoop id fuel span) := by
  induction fuel with
  | zero => exact fun _ => .skip
  | succ fuel ih =>
    intro span
    unfold writeLoop
    split
    · refine .bind (keeps_writeChunk id span).attempt fun r => ?_
      cases r with
      | ok _ => exact ih span.advance
      | error ending =>
        cases ending with
        | blocked => exact .throw fun _ _ => trivial
        | stop stop =>
          cases stop with
          | panic => exact .throw fun _ _ => trivial
          | error code =>
            simp only
            split
            · exact .throw fun _ h => h
            · exact .skip
    · exact .skip

theorem keeps_writeAt (id off count : Nat) : Keeps ⟨.nothing, some id⟩ (writeAt id off count) := by
  unfold writeAt
  split
  · refine (keeps_writeLoop id count _).bind fun copied => ?_
    exact keeps_modifyMapping (fun _ => rfl) (fun _ => rfl) fun _ => rfl
  · exact .throw fun _ h => h

/-! ### Guards and truncation -/

theorem keeps_dropGuard (r : PageRef) : Keeps ⟨.nothing, own⟩ (dropGuard r) := by
  refine .start fun s h => .get_bind ?_
  cases hpg : r.page s with
  | none => exact .stay h
  | some page =>
    simp only
    split
    · exact .stay h
    next hgrd =>
      cases hdrop : page.state.dropGuard with
      | error stop => exact .throw fun t ht => ht ▸ .stop h stop
      | ok state =>
        -- The guard made the page dirty, and the drop leaves it so.
        refine modifyPage_touch loose_nothing h hpg (fun _ => rfl) fun hold => ?_
        have hsta := PageState.dropGuard_eq hdrop
        have hwas : page.state.isDirty := PageState.isDirty_eq_true.mpr (.inr hgrd)
        have hseq : state.persistedSeq < state.dirtySeq := by
          rw [hsta]
          exact Nat.lt_succ_of_le hold
        exact ⟨hseq.le, (PageState.isDirty_eq_true.mpr (.inl hseq)).trans hwas.symm⟩

theorem keeps_dropGuards (refs : List PageRef) : Keeps ⟨.nothing, own⟩ (dropGuards refs) := by
  induction refs with
  | nil => exact .skip
  | cons r rest ih => exact (keeps_dropGuard r).bind fun _ => ih

theorem keeps_sharedWriteGuard (r : PageRef) :
    Triple (Inv ⟨.page r, own⟩ 0) (sharedWriteGuard r) (fun _ => Inv ⟨.nothing, own⟩ 0)
      (Fails ⟨.nothing, own⟩) := by
  refine .read fun t => ?_
  cases r.page t with
  | none => exact .pure fun _ h => h.unfocus
  | some page =>
    simp only
    split
    · exact .pure fun _ h => h.unfocus
    · split
      · exact .throw fun _ h => h.unfocus
      · exact .bind (.fail keeps_throttleDirty fun _ _ => .imp .unfocus) fun _ => takeGuard_spec r

/-- What is cut off is counted off. -/
theorem commitShrink_spec (id newLen : Nat) : Keeps ⟨.nothing, own⟩ (commitShrink id newLen) := by
  refine getMapping_spec.bind fun m => .start fun s ⟨h, hm⟩ => ?_
  let gone := fun index (_ : CachedPage) => decide (newLen ≤ index * pageSize)
  let cut := fun m' : FileMapping => {m' with
    pages := m'.pages.filter fun index p => !gone index p
    dirtyPages := wrappingSub m'.dirtyPages (tally (m.pages.filter gone)).2}
  refine .modify_bind (.modify_bind (.modify fun t ht => ?_))
  subst ht
  have hsp := total_filter_add m.pages gone
  have hres : (tally (m.pages.filter gone)).1 + (cut m).resident = m.resident := hsp fun _ => 1
  have hd : (tally (m.pages.filter gone)).2 + (cut m).dirty = m.dirty :=
    hsp fun p => p.state.isDirty.toNat
  refine h.modify (f := cut) hm rfl (fun n hn => ?_) (fun n hn => ?_) ?_ (fun k p hp => ?_)
    fun hfo => ⟨trivial, fun id' hid => ?_⟩
  · exact wrappingSub_of (b := (tally (m.pages.filter gone)).1) h.resident (by omega)
  · exact wrappingSub_of (b := (tally (m.pages.filter gone)).2) h.dirty (by omega)
  · exact wrappingSub_of (h.mappings id m hm) (by omega)
  · have hp := (get?_filter m.pages _ k).symm.trans hp
    rw [Option.filter_eq_some_iff] at hp
    exact h.ordered id m hm k p hp.1
  · exact (holds_modify (f := cut) rfl (fun _ _ => rfl) id').trans (hfo.2 id' hid)

theorem keeps_invalidate (id n : Nat) (invalidated : List PageRef) :
    Keeps ⟨.nothing, own⟩ (invalidate id n invalidated) := by
  refine getMapping_bind fun m => ?_
  show Triple _ (if n < m.logicalSize then _ else _) _ _
  split
  · refine keeps_reserve.bind fun _ => keeps_answer.bind fun valid => ?_
    cases valid with
    | false => exact .throw fun _ h => h
    | true =>
      refine (keeps_dropGuards invalidated).bind fun _ => .bind .get fun t => ?_
      refine getMapping_spec.bind fun m' => ?_
      split
      · exact .pure fun _ h => h.1.2
      · exact .throw fun _ _ => trivial
  · exact .skip

theorem keeps_resize (id n : Nat) (invalidated : List PageRef) :
    Keeps ⟨.nothing, own⟩ (resize id n invalidated) := by
  refine getMapping_bind fun m => ?_
  refine keeps_reserve.bind fun _ => (keeps_invalidate id n invalidated).bind fun _ => ?_
  refine keeps_answer.bind fun done => ?_
  cases done with
  | false => exact .throw fun _ h => h
  | true =>
    have hsh : ∀ _ : Unit, Keeps ⟨.nothing, own⟩ (modifyMapping id fun m => {m with logicalSize := n}) :=
      fun _ => keeps_modifyMapping (fun _ => rfl) (fun _ => rfl) fun _ => rfl
    show Triple _ (if n < m.logicalSize then _ else _) _ _
    split
    · exact (commitShrink_spec id n).bind hsh
    · exact hsh ⟨⟩

end Using

/-! ### Runs -/

/-- The state is right between operations. -/
abbrev AtRest : CacheManager → Prop := Inv ⟨.nothing, none⟩ 0

/-- An operation on a mapping by someone who holds it. -/
theorem keeps_asOwner {x : Prog Unit} (hx : Keeps ⟨.nothing, some id⟩ x) :
    Keeps ⟨.nothing, none⟩ (asOwner id x) := by
  have hfo : ∀ s, Inv ⟨.nothing, some id⟩ 0 s → AtRest s := fun s h =>
    {h with focused := ⟨trivial, nofun⟩}
  refine .start fun s h => .get_bind ?_
  cases hm : s.registry.get? id with
  | none => exact .stay h
  | some m =>
    cases hown : m.owned with
    | false =>
      simp only [hown]
      exact .stay h
    | true =>
      simp only [hown]
      have hh : s.holds id := by simp [holds, hm, hown]
      have hst : Inv ⟨.nothing, some id⟩ 0 s :=
        {h with focused := ⟨trivial, fun id' hid => some.inj hid ▸ hh⟩}
      exact .resume (.fail (hx.post fun _ => hfo) fun _ t => .imp (hfo t)) hst

theorem keeps_createMapping (id len : Nat) : Keeps ⟨.nothing, none⟩ (createMapping id len) := by
  refine .modify fun s h => ?_
  split
  · exact h
  next habs =>
    have habs : s.registry.get? id = none := Option.not_isSome_iff_eq_none.mp fun h => habs (by simp [h])
    have hin := fun weight => total_insert (⟨true, len, .empty, 0, 0⟩) weight habs
    have hfd : ∀ id' m, (s.registry.insert id ⟨true, len, .empty, 0, 0⟩).get? id' = some m →
        m = ⟨true, len, .empty, 0, 0⟩ ∨ s.registry.get? id' = some m := by
      intro id' m hm
      rw [get?_insert] at hm
      split at hm
      · exact .inl (some.inj hm).symm
      · exact .inr hm
    refine ⟨?_, ?_, fun id' m hm => ?_, fun id' m hm k p hp => ?_, trivial, nofun⟩
    · rw [hin]
      exact h.resident
    · rw [hin]
      exact h.dirty
    · obtain rfl | hold := hfd id' m hm
      · rfl
      · exact h.mappings id' m hold
    · obtain rfl | hold := hfd id' m hm
      · cases hp
      · exact h.ordered id' m hold k p hp

theorem keeps_setOwned (id : Nat) (owned : Bool) :
    Keeps ⟨.nothing, none⟩ (modifyMapping id fun m => {m with owned := owned}) := by
  let own := fun m : FileMapping => {m with owned := owned}
  refine .modify fun s h => ?_
  cases hm : s.registry.get? id with
  | none => exact h.of_eq (modify_absent (f := own) hm) rfl rfl rfl
  | some m =>
    refine h.modify (f := own) hm rfl (fun n hn => ?_) (fun n hn => ?_) (h.mappings id m hm) (h.ordered id m hm)
      fun _ => ⟨trivial, nofun⟩
    · exact recount h.resident (Nat.add_right_cancel hn)
    · exact recount h.dirty (Nat.add_right_cancel hn)

theorem keeps_release (id : Nat) : Keeps ⟨.nothing, none⟩ (release id) :=
  (keeps_setOwned id false).bind fun _ => pruneMapping_spec loose_nothing id

theorem keeps_dropHeld (r : PageRef) : Keeps ⟨.nothing, none⟩ (dropHeld r) := by
  refine .read fun t => ?_
  cases r.page t with
  | none => exact .skip
  | some page =>
    simp only
    split
    · exact .skip
    · exact dropLease_spec r

/-- A guard is taken on a clean page that has left a mapping which is still there. -/
def PageRef.detached (r : PageRef) (s : CacheManager) : Bool :=
  (r.resident s).isNone && (r.orphan s).any (fun p => !p.state.isDirty) && (s.registry.get? r.mapping).isSome

/-- No guard is taken on such a page. -/
def Op.attached (s : CacheManager) : Op → Bool
  | .guard r => !r.detached s
  | _ => true

def attached (s : CacheManager) : List Op → Bool
  | [] => true
  | op :: rest => op.attached s && (step s op).all fun t => attached t rest

theorem keeps_guard (h : AtRest s) (hatt : r.detached s = false) :
    Runs s (sharedWriteGuard r) (fun _ => AtRest) (Fails ⟨.nothing, none⟩) := by
  by_cases huse : r.Attached s
  · exact .resume (keeps_sharedWriteGuard r) {h with focused := ⟨huse, nofun⟩}
  · -- There is no such page, or its mapping is gone: nothing happens.
    have hg : r.resident s = none := by
      rw [← Option.not_isSome_iff_eq_none, resident_isSome_iff]
      exact mt .inl huse
    refine .get_bind ?_
    cases hor : r.orphan s with
    | none =>
      simp only [PageRef.page, hg, hor]
      exact .stay h
    | some page =>
      have hcl : page.state.isDirty = false := by
        rw [← Bool.not_eq_true]
        exact fun hd => huse (.inr ⟨page, hor, hd⟩)
      have hmap : (s.registry.get? r.mapping).isNone := by
        simpa [PageRef.detached, hg, hor, hcl] using hatt
      simp only [PageRef.page, hg, hor, Option.none_or]
      split
      · exact .stay h
      · exact .throw fun _ ht => ht ▸ h

theorem step_atRest {op : Op} (h : AtRest s) (hatt : op.attached s) (hst : step s op = some t) :
    AtRest t := by
  have hpe : Runs s op.perform (fun _ => AtRest) (Fails ⟨.nothing, none⟩) := by
    cases op with
    | create id len => exact .resume (keeps_createMapping id len) h
    | reopen id => exact .resume (keeps_setOwned id true) h
    | release id => exact .resume (keeps_release id) h
    | read id off count => exact .resume (keeps_asOwner (keeps_readAt id off count)) h
    | write id off count => exact .resume (keeps_asOwner (keeps_writeAt id off count)) h
    | append id count => exact .resume (keeps_asOwner (getMapping_bind fun m => keeps_writeAt id m.logicalSize count)) h
    | acquire id idx =>
      refine .resume (keeps_asOwner ?_) h
      exact (acquirePageInner_spec id idx false).map fun _ _ h => h.unfocus
    | drop r => exact .resume (keeps_dropHeld r) h
    | guard r => exact keeps_guard h (by simpa [Op.attached] using hatt)
    | unguard r => exact .resume (keeps_dropGuard r) h
    | share obj shared => exact .resume (.modify fun _ h => h.of_eq rfl rfl rfl rfl) h
    | writeback cap expl => exact .resume ((keeps_writebackInner cap expl).map fun _ _ h => h) h
    | sync id start stop => exact .resume (keeps_asOwner (keeps_syncRange id start stop)) h
    | resize id n invalidated => exact .resume (keeps_asOwner (keeps_resize id n invalidated)) h
    | reclaim targetPages =>
      exact .resume ((keeps_reclaimClean loose_nothing targetPages).map fun _ _ h => h) h
    | prune => exact .resume ((keeps_pruneIdleMappings loose_nothing).map fun _ _ h => h) h
    | discard key => exact .resume ((keeps_discardUnowned loose_nothing key).map fun _ _ h => h) h
  have hend := hpe s rfl
  unfold step at hst
  cases hrun : op.perform s with
  | ok a u =>
    rw [hrun] at hend hst
    exact some.inj hst ▸ hend
  | error ending u =>
    rw [hrun] at hend hst
    cases ending with
    | blocked => cases hst
    | stop stop =>
      cases stop with
      | panic => cases hst
      | error code => exact some.inj hst ▸ hend

theorem run_atRest (ops : List Op) : ∀ {s t : CacheManager}, AtRest s → attached s ops →
    run s ops = some t → AtRest t := by
  induction ops with
  | nil => exact fun h _ hrun => some.inj hrun ▸ h
  | cons op rest ih =>
    intro s t h hatt hrun
    obtain ⟨u, hst, hre⟩ := Option.bind_eq_some_iff.mp hrun
    unfold attached at hatt
    rw [hst, and_eq_true] at hatt
    exact ih (step_atRest h hatt.1 hst) hatt.2 hre

theorem new_atRest (policy : Manager.CachePolicy) (answers : Nat → Bool) : AtRest (.new policy answers) :=
  ⟨rfl, rfl, nofun, nofun, trivial, nofun⟩

/-- **The counters count.** After any operations that completed, in success or in failure, if
none of them took a shared-write guard on a clean page that had left its mapping:
`resident_pages` is the number of resident pages over all registered mappings, `dirty_pages`
the number of dirty ones, and each mapping counts its own, all as `usize`s. -/
theorem counters_account (policy : Manager.CachePolicy) (answers : Nat → Bool) (ops : List Op) {s : CacheManager}
    (hatt : attached (.new policy answers) ops = true) (hrun : run (.new policy answers) ops = some s) :
    Accounts s :=
  have h := run_atRest ops (new_atRest policy answers) hatt hrun
  ⟨h.resident, h.dirty, h.mappings⟩

/-- A manager that lets two pages be dirty and is refused nothing. -/
def twoPages : CacheManager := .new ⟨0, 0, 1, 2, 1⟩ fun _ => true

/-- Two pages are written, one of them mapped shared; the file is closed and opened again, flushed and cut off. -/
def sharing : List Op :=
  [.create 0 0, .write 0 0 5000, .acquire 0 1, .guard ⟨0, 1, 1⟩, .drop ⟨0, 1, 1⟩, .release 0, .reopen 0, .sync 0 0 5000,
    .resize 0 100 [⟨0, 1, 1⟩], .reclaim 4]

theorem counters_account_shared :
    attached twoPages sharing = true ∧ ∃ s, run twoPages sharing = some s ∧ Accounts s := by
  have hatt : attached twoPages sharing := by decide +kernel
  have hruns : (run twoPages sharing).isSome := by decide +kernel
  obtain ⟨s, hs⟩ := Option.isSome_iff_exists.mp hruns
  exact ⟨hatt, s, hs, counters_account _ _ sharing hatt hs⟩

/-- A page past the end of the file is leased, the file is cut, and then the lease is used. -/
def detaching : List Op := [.create 0 8192, .acquire 0 5, .resize 0 4096 [], .guard ⟨0, 5, 0⟩]

/-- A dirty page is counted, and there is no page at all. -/
theorem guard_counts_dropped_page :
    ∃ s, run twoPages detaching = some s ∧ s.dirtyPages = 1 ∧ s.registry.total FileMapping.dirty = 0 ∧
      s.registry.total FileMapping.resident = 0 := by
  have hrun : (run twoPages detaching).any (fun s => s.dirtyPages == 1 &&
      s.registry.total FileMapping.dirty == 0 && s.registry.total FileMapping.resident == 0) := by
    decide +kernel
  obtain ⟨s, hs, hcs⟩ := (Option.any_eq_true _ _).mp hrun
  simp only [and_eq_true, beq_iff_eq] at hcs
  exact ⟨s, hs, hcs.1.1, hcs.1.2, hcs.2⟩

end StarryX.Cache.Accounting
