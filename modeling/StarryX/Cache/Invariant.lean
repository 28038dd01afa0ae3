import StarryX.Cache.Manager

/-! What the cache keeps while it works in the background.

A `World` is what an assertion about a manager speaks of: the contents and size each file
should have, the page that is worked on, and what is known of the run so far.
`Inv` ties a manager to a world: a resident frame is the file's page, and where a page is
clean or absent the backing is. All of it is claimed only as long as nothing was cut off.
`Reclaims` and `WritesBack` say what an assertion must bear to survive reclaim, pruning and
writeback, whatever it says of the pages; `Inv` does (`writesBack_inv`). -/
namespace StarryX.Cache.Manager
open Library
open SortedMap (get?_filter get?_modify)

/-- `target` is the page being worked on: it may be known to be absent, its bytes may be
unaccounted for, and it has `held` leases. -/
structure World where
  owned : Nat → Bool
  contents : Nat → Nat → Byte
  sizes : Nat → Nat
  memory : Nat → Bool
  known : Prop
  target : Option (Nat × Nat)
  missing : Bool
  stale : Bool
  held : Nat

def World.leases (w : World) (id index : Nat) : Nat := if w.target = some (id, index) then w.held else 0

/-- The bytes of a page are accounted for. -/
def World.Fresh (w : World) (id index : Nat) : Prop := w.target = some (id, index) → w.stale = false

/-- A page that nobody writes back and no mapping writes to. -/
structure Idle (leases : Nat) (s : PageState) : Prop where
  leases : s.leases = leases
  writeback : s.writebackSeq = none
  guards : s.sharedGuardGroups = 0
  persisted : s.persistedSeq ≤ s.dirtySeq

/-- Cache and backing of a mapping together hold the file. -/
structure Mirrors (w : World) (id : Nat) (m : FileMapping) : Prop where
  size : m.logicalSize = w.sizes id
  backing : m.backing.size ≤ m.logicalSize
  frames : ∀ k p, m.pages.get? k = some p → w.Fresh id k → p.frame = window (w.contents id) k
  clean : ∀ k p, m.pages.get? k = some p → w.Fresh id k → p.state.isDirty = false →
    window m.backing.get k = window (w.contents id) k
  absent : ∀ k, m.pages.get? k = none → window m.backing.get k = window (w.contents id) k

structure MapOk (w : World) (clipped : Bool) (id : Nat) (m : FileMapping) : Prop where
  idle : ∀ k p, m.pages.get? k = some p → Idle (w.leases id k) p.state
  missing : ∀ k, w.target = some (id, k) → w.missing = true → m.pages.get? k = none
  mirrors : clipped = false → Mirrors w id m

structure Inv (w : World) (s : CacheManager) : Prop where
  memory : s.memory = w.memory
  owned : ∀ id, w.owned id = true → ∃ m, s.registry.get? id = some m ∧ m.owned = true
  mappings : ∀ id m, s.registry.get? id = some m → MapOk w s.clipped id m
  known : s.clipped = false → w.known

/-- Only an allocation that failed makes the cache fail. -/
def Starved (w : World) : Prop := ∃ n, w.memory n = false

/-- What a page in the registry is known to be. -/
def Holds (id index : Nat) (φ : CachedPage → Prop) (s : CacheManager) : Prop :=
  ∃ m p, s.registry.get? id = some m ∧ m.pages.get? index = some p ∧ φ p

/-- A dirty sequence has used up its 64 bits. -/
def Worn (s : CacheManager) : Prop := ∃ id index, Holds id index (fun p => 2 ^ 64 ≤ p.state.dirtySeq + 1) s

/-- A failure leaves the world as it was; a panic can only be a dirty sequence that ran out. -/
def Fails (w : World) : Stop → CacheManager → Prop
  | .panic, s => Worn s ∧ (s.clipped = false → w.known)
  | .error _, s => Inv w s ∧ Starved w

variable {w : World} {s : CacheManager}

/-! ### Changes of the registry -/

/-- Fields no assertion speaks of may change. -/
theorem Inv.of_eq {t : CacheManager} (h : Inv w s)
    (heq : (t.memory, t.registry, t.clipped) = (s.memory, s.registry, s.clipped)) : Inv w t := by
  simp only [Prod.mk.injEq] at heq
  obtain ⟨hmem, hreg, hcl⟩ := heq
  constructor
  · exact hmem.trans h.memory
  · rw [hreg]
    exact h.owned
  · rw [hreg, hcl]
    exact h.mappings
  · rw [hcl]
    exact h.known

variable {f : FileMapping → FileMapping} {id : Nat}

/-- One mapping changes; `w'` may differ from `w` only in what it says of that mapping. -/
theorem Inv.modify {w' : World} (h : Inv w s) (hmem : w'.memory = w.memory) (hod : w'.owned = w.owned)
    (hkn : w.known → w'.known) (ho : ∀ id' m, id' ≠ id → MapOk w s.clipped id' m → MapOk w' s.clipped id' m)
    (hf : ∀ m, s.registry.get? id = some m → MapOk w s.clipped id m →
      MapOk w' s.clipped id (f m) ∧ (f m).owned = m.owned) : Inv w' {s with registry := s.registry.modify id f} where
  memory := h.memory.trans hmem.symm
  owned := by
    intro id' hid'
    obtain ⟨m, hm, hmo⟩ := h.owned id' (hod ▸ hid')
    rw [get?_modify, hm]
    by_cases hid : id' = id
    · subst hid
      exact ⟨f m, by simp, (hf m hm (h.mappings id' m hm)).2.trans hmo⟩
    · exact ⟨m, by simp [hid], hmo⟩
  mappings := by
    intro id' m' hm'
    have hm : (s.registry.modify id f).get? id' = some m' := hm'
    rw [get?_modify] at hm
    by_cases hid : id' = id
    · subst hid
      rw [if_pos rfl] at hm
      obtain ⟨m, hget, rfl⟩ := Option.map_eq_some_iff.mp hm
      exact (hf m hget (h.mappings id' m hget)).1
    · rw [if_neg hid] at hm
      exact ho id' m' hid (h.mappings id' m' hm)
  known := fun hc => hkn (h.known hc)

/-- One mapping changes and the world stays. -/
theorem Inv.modify_same (h : Inv w s) (hf : ∀ m, s.registry.get? id = some m → MapOk w s.clipped id m →
      MapOk w s.clipped id (f m) ∧ (f m).owned = m.owned) : Inv w {s with registry := s.registry.modify id f} :=
  h.modify rfl rfl (fun hk => hk) (fun _ _ _ hm => hm) hf

variable {clipped : Bool} {m : FileMapping}

variable {k : Nat}

theorem fresh_of_settled (hw : w.stale = false) (id k : Nat) : w.Fresh id k := fun _ => hw

/-! ### Reclaim and pruning -/

/-- A mapping loses pages that may go, and nothing else that an assertion speaks of. -/
structure Thins (m m' : FileMapping) : Prop where
  owned : m'.owned = m.owned
  size : m'.logicalSize = m.logicalSize
  backing : m'.backing = m.backing
  kept : ∀ k p', m'.pages.get? k = some p' → ∃ p, m.pages.get? k = some p ∧ p'.frame = p.frame ∧ p'.state = p.state
  gone : ∀ k p, m.pages.get? k = some p → m'.pages.get? k = none → p.state.reclaimable = true

/-- What an assertion must bear so that reclaim and pruning keep it. -/
structure Reclaims (P : CacheManager → Prop) (E : Stop → CacheManager → Prop) : Prop where
  other : ∀ {s t}, P s → (t.memory, t.registry, t.clipped) = (s.memory, s.registry, s.clipped) → P t
  short : ∀ {s n}, P s → s.memory n = false → E (.error .enomem) s
  prune : ∀ {s id m}, P s → s.registry.get? id = some m → m.owned = false → P {s with registry := s.registry.erase id}
  thin : ∀ {s id} {f : FileMapping → FileMapping}, P s → (∀ m, s.registry.get? id = some m → Thins m (f m)) →
    P {s with registry := s.registry.modify id f}

theorem Thins.filter {keep : Nat → CachedPage → Bool}
    (hke : ∀ k p, m.pages.get? k = some p → keep k p = false → p.state.reclaimable) :
    Thins m {m with pages := m.pages.filter keep} := by
  refine ⟨rfl, rfl, rfl, fun k p' hp' => ?_, fun k p hp hg => ?_⟩
  · have hp : (m.pages.filter keep).get? k = some p' := hp'
    rw [get?_filter, Option.filter_eq_some_iff] at hp
    exact ⟨p', hp.1, rfl, rfl⟩
  · have hn : (m.pages.filter keep).get? k = none := hg
    rw [get?_filter, hp] at hn
    refine hke k p hp ?_
    cases hk : keep k p with
    | false => rfl
    | true => simp [hk] at hn

theorem Thins.modifyPage {f : CachedPage → CachedPage} (hfm : ∀ p, (f p).frame = p.frame)
    (hs : ∀ p, (f p).state = p.state) : Thins m (m.modifyPage k f) := by
  refine ⟨rfl, rfl, rfl, fun k' p' hp' => ?_, fun k' p hp hg => ?_⟩
  · have hp : (m.pages.modify k f).get? k' = some p' := hp'
    rw [get?_modify] at hp
    split at hp
    · obtain ⟨p, hget, rfl⟩ := Option.map_eq_some_iff.mp hp
      exact ⟨p, hget, hfm p, hs p⟩
    · exact ⟨p', hp, rfl, rfl⟩
  · have hn : (m.pages.modify k f).get? k' = none := hg
    rw [get?_modify, hp] at hn
    split at hn <;> cases hn

/-- The pages stay as they are. -/
theorem Thins.of_pages {m' : FileMapping} (ho : m'.owned = m.owned) (hz : m'.logicalSize = m.logicalSize)
    (hbk : m'.backing = m.backing) (hpgs : m'.pages = m.pages) : Thins m m' := by
  refine ⟨ho, hz, hbk, fun k p hp => ⟨p, hpgs ▸ hp, rfl, rfl⟩, fun k p hp hg => ?_⟩
  rw [hpgs, hp] at hg
  cases hg

theorem Candidate.page_eq_some {page : CachedPage} {c : Candidate} (h : c.page s = some page) :
    Holds c.mapping c.index (fun p => p = page) s := by
  obtain ⟨hfd, -⟩ := Option.filter_eq_some_iff.mp h
  obtain ⟨m, hm, hp⟩ := Option.bind_eq_some_iff.mp hfd
  exact ⟨m, page, hm, hp, rfl⟩

section Holds
variable {p : CachedPage}

/-- A mapping changes in place, and one of its pages is as told. -/
theorem Holds.modify {φ : CachedPage → Prop} (hm : s.registry.get? id = some m)
    (hp : (f m).pages.get? k = some p) (hφ : φ p) : Holds id k φ {s with registry := s.registry.modify id f} := by
  refine ⟨f m, p, ?_, hp, hφ⟩
  rw [get?_modify, if_pos rfl, hm]
  rfl

/-- A page that is there is changed in place. -/
theorem modifyPage_get {idx : Nat} (g : CachedPage → CachedPage) (hp : m.pages.get? idx = some p)
    (k : Nat) : (m.modifyPage idx g).pages.get? k = if k = idx then some (g p) else m.pages.get? k := by
  refine (get?_modify m.pages idx g k).trans ?_
  by_cases hk : k = idx
  · rw [if_pos hk, if_pos hk, hk, hp]
    rfl
  · rw [if_neg hk, if_neg hk]

end Holds

namespace Reclaims
variable {P : CacheManager → Prop} {E : Stop → CacheManager → Prop} (h : Reclaims P E)
include h

theorem allocated : Triple P allocated (fun b s => P s ∧ (b = false → E (.error .enomem) s)) E :=
  .modifyGet fun s hs => ⟨h.other hs rfl, fun hb => h.short (n := s.asked) (h.other hs rfl) hb⟩

theorem reserve : Triple P reserve (fun _ => P) E := by
  refine .bind h.allocated fun b => ?_
  cases b with
  | true => exact .pure fun _ hs => hs.1
  | false => exact .throw fun _ hs => hs.2 rfl

theorem requeue (c : Candidate) : Triple P (requeue c) (fun _ => P) E := by
  refine .bind h.allocated fun b => ?_
  cases b with
  | true => exact .modify fun _ hs => h.other hs.1 rfl
  | false => exact .pure fun _ hs => hs.1

/-- Only a mapping that nobody owns is dropped. -/
theorem pruneMapping (id : Nat) : Triple P (pruneMapping id) (fun _ => P) E := by
  refine .modify fun s hs => ?_
  split
  next m hm =>
    split_ifs with hid
    · simp only [Bool.and_eq_true, Bool.not_eq_true'] at hid
      exact h.prune hs hm hid.2
    · exact hs
  · exact hs

theorem tryReclaim (id idx : Nat) (page : CachedPage) :
    Triple (fun s => P s ∧ Holds id idx (fun p => p.state = page.state) s) (tryReclaim id idx page) (fun _ => P) E := by
  unfold Manager.tryReclaim
  split_ifs with hr
  · refine .bind (Q := fun _ => P) (.modify fun s ⟨hs, m, p, hm, hp, hst⟩ => ?_) fun _ => ?_
    · refine h.thin hs fun m' hm' => ?_
      cases hm.symm.trans hm'
      refine .filter fun k p' hp' hk => ?_
      have hkey : k = idx := by simpa using hk
      rw [hkey, hp] at hp'
      rw [← Option.some.inj hp', hst]
      exact hr
    · refine .bind (Q := fun _ => P) (.modify fun _ hs => h.other hs rfl) fun _ => ?_
      exact (h.pruneMapping id).bind fun _ => .skip
  · exact .pure fun _ hs => hs.1

theorem secondChance (c : Candidate) (page : CachedPage) :
    Triple (fun s => P s ∧ Holds c.mapping c.index (fun p => p.state = page.state) s)
      (secondChance c page) (fun _ => P) E := by
  unfold Manager.secondChance
  split
  · exact .pure fun _ hs => hs.1
  · exact h.tryReclaim c.mapping c.index page

theorem reclaimOne : Triple P reclaimOne (fun _ => P) E := by
  refine .bind (Q := fun _ => P) (.modifyGet fun _ hs => h.other hs rfl) fun c? => ?_
  cases c? with
  | none => exact .skip
  | some c =>
    refine .bind .get fun t => ?_
    cases hpage : c.page t with
    | none => exact .pure fun _ hs => hs.2
    | some page =>
      refine .bind (Q := fun _ s => P s ∧ Holds c.mapping c.index (fun p => p.state = page.state) s)
        (.modify fun s ⟨ht, hs⟩ => ?_) fun _ => ?_
      · subst ht
        refine ⟨h.thin hs fun m _ => .modifyPage (fun _ => rfl) fun _ => rfl, ?_⟩
        obtain ⟨m, p, hm, hp, rfl⟩ := Candidate.page_eq_some hpage
        exact .modify hm ((modifyPage_get _ hp _).trans (if_pos rfl)) rfl
      · refine (h.secondChance c page).bind fun reclaimed => ?_
        split
        · exact .skip
        · exact (h.requeue c).bind fun _ => .skip

theorem reclaimLoop (tgt budget : Nat) : ∀ reclaimed, Triple P (reclaimLoop tgt budget reclaimed) (fun _ => P) E := by
  induction budget with
  | zero => exact fun _ => .skip
  | succ budget ih =>
    intro reclaimed
    unfold Manager.reclaimLoop
    split
    · exact h.reclaimOne.bind fun one => ih (reclaimed + one.toNat)
    · exact .skip

theorem reclaimClean (targetPages : Nat) : Triple P (reclaimClean targetPages) (fun _ => P) E :=
  .read fun _ => h.reclaimLoop targetPages _ 0

theorem allocateFrame : Triple P allocateFrame (fun _ => P) E := by
  refine .bind h.allocated fun b => ?_
  cases b with
  | true => exact .pure fun _ hs => hs.1
  | false => exact .bind ((h.reclaimClean 1).pre fun _ hs => hs.1) fun _ => h.reserve

theorem pruneLoop (ids : List Nat) : ∀ reclaimed, Triple P (pruneLoop ids reclaimed) (fun _ => P) E := by
  induction ids with
  | nil => exact fun _ => .skip
  | cons id rest ih =>
    intro reclaimed
    refine .read fun t => ?_
    cases t.registry.get? id with
    | none => exact ih reclaimed
    | some m =>
      show Triple _ (if m.owned then Manager.pruneLoop rest reclaimed else _) _ _
      split
      · exact ih reclaimed
      · refine .bind (Q := fun _ => P) (.modify fun s hs => ?_) fun _ => ?_
        · exact h.thin hs fun m' _ => .filter fun k p hp hk => by simpa using hk
        · exact (h.pruneMapping id).bind fun _ => ih _

theorem pruneIdleMappings : Triple P pruneIdleMappings (fun _ => P) E := by
  refine h.reserve.bind fun _ => .read fun t => (h.pruneLoop _ 0).bind fun reclaimed => ?_
  exact .bind (Q := fun _ => P) (.modify fun _ hs => h.other hs rfl) fun _ => .skip

theorem residentPages (m : FileMapping) (start stop : Nat) : Triple P (residentPages m start stop) (fun _ => P) E := by
  unfold Manager.residentPages
  split
  · exact .skip
  · exact h.reserve.bind fun _ => .skip

theorem dirtyBatch (id : Nat) (m : FileMapping) (cap : Nat) : Triple P (dirtyBatch id m cap) (fun _ => P) E := by
  refine h.reserve.bind fun _ => .bind (.modify fun s hs => ?_) fun _ => .skip
  exact h.thin hs fun m' _ => .of_pages rfl rfl rfl rfl

end Reclaims

/-! ### Writeback -/

/-- What an assertion must bear so that writeback keeps it too. -/
structure WritesBack (P : CacheManager → Prop) (E : Stop → CacheManager → Prop) : Prop extends Reclaims P E where
  submit : ∀ {s id m idx page}, P s → s.registry.get? id = some m → m.pages.get? idx = some page →
    P {s with
      clipped := s.clipped || cutsOff page.frame idx m.logicalSize
      registry := s.registry.modify id fun m => m.submit idx page}
  wait : ∀ {s id m idx page expl}, P s → s.registry.get? id = some m → m.pages.get? idx = some page →
    page.state.writebackAction expl = .wait → E (.error .enomem) s

namespace WritesBack
variable {P : CacheManager → Prop} {E : Stop → CacheManager → Prop} (h : WritesBack P E)
include h

theorem writebackPage (id idx : Nat) (expl : Bool) : Triple P (writebackPage id idx expl) (fun _ => P) E := by
  refine .start fun s hs => .get_bind (.resume (P := fun t => t = s ∧ P t) ?_ ⟨rfl, hs⟩)
  cases hm : s.registry.get? id with
  | none => exact .pure fun _ ht => ht.2
  | some m =>
    cases hp : m.pages.get? idx with
    | none =>
      simp only [hp]
      exact .pure fun _ ht => ht.2
    | some page =>
      simp only [hp]
      cases hact : page.state.writebackAction expl with
      | skip => exact .pure fun _ ht => ht.2
      | wait => exact .throw fun t ht => ht.1 ▸ h.wait hs hm hp hact
      | submit =>
        refine .bind (.modify fun t ht => h.other (h.submit ht.2 (ht.1 ▸ hm) hp) ?_) fun _ => .skip
        rfl

theorem writebackLoop (id cap : Nat) (expl : Bool) (pages : List Nat) :
    ∀ written, Triple P (writebackLoop id cap expl pages written) (fun _ => P) E := by
  induction pages with
  | nil => exact fun _ => .skip
  | cons idx rest ih =>
    intro written
    unfold Manager.writebackLoop
    split
    · exact .skip
    · exact (h.writebackPage id idx expl).bind fun one => ih (written + one.toNat)

theorem writebackPages (id : Nat) (m : FileMapping) (cap : Nat) (expl : Bool) :
    Triple P (writebackPages id m cap expl) (fun _ => P) E := by
  unfold Manager.writebackPages
  split
  · exact h.residentPages m 0 m.logicalSize
  · exact h.dirtyBatch id m cap

theorem writebackSome (id cap : Nat) (expl : Bool) : Triple P (writebackSome id cap expl) (fun _ => P) E := by
  refine .read fun t => ?_
  cases t.registry.get? id with
  | none => exact .skip
  | some m =>
    show Triple _ (if cap = 0 then _ else _) _ _
    split
    · exact .skip
    · split
      · exact .skip
      · refine (h.writebackPages id m cap expl).bind fun pages => ?_
        exact h.reserve.bind fun _ => h.writebackLoop id cap expl pages 0

theorem batchLoop (cap : Nat) (expl : Bool) (ids : List Nat) :
    ∀ written, Triple P (batchLoop cap expl ids written) (fun _ => P) E := by
  induction ids with
  | nil => exact fun _ => .skip
  | cons id rest ih =>
    intro written
    unfold Manager.batchLoop
    split
    · exact .skip
    · refine (h.writebackSome id _ expl).bind fun pages => ?_
      exact .bind (Q := fun _ => P) (.modify fun _ hs => h.other hs rfl) fun _ => ih (written + pages)

theorem writebackInner (cap : Nat) (expl : Bool) : Triple P (writebackInner cap expl) (fun _ => P) E :=
  h.reserve.bind fun _ => .read fun _ => h.batchLoop cap expl _ 0

theorem throttleDirty : Triple P throttleDirty (fun _ => P) E := by
  refine .read fun t => ?_
  split
  · exact .skip
  · exact (h.writebackInner _ false).bind fun _ => .skip

theorem syncLoop (id : Nat) (pages : List Nat) : Triple P (syncLoop id pages) (fun _ => P) E := by
  induction pages with
  | nil => exact .skip
  | cons idx rest ih => exact (h.writebackPage id idx true).bind fun _ => ih

end WritesBack

/-! ### The world in the background -/

variable {page : CachedPage} {st : PageState} {n : Nat}

/-- Pages of a mapping may change in ways the world does not speak of, and clean ones may go. -/
theorem MapOk.thin {m' : FileMapping} (h : MapOk w clipped id m) (ht : Thins m m') (hfr : ∀ k, w.Fresh id k) :
    MapOk w clipped id m' := by
  refine ⟨fun k p' hp' => ?_, fun k htgt hms => ?_, fun hc => ?_⟩
  · obtain ⟨p, hp, -, hst⟩ := ht.kept k p' hp'
    rw [hst]
    exact h.idle k p hp
  · refine Option.eq_none_iff_forall_ne_some.mpr fun p' hp' => ?_
    obtain ⟨p, hp, -, -⟩ := ht.kept k p' hp'
    exact absurd (hp.symm.trans (h.missing k htgt hms)) nofun
  · have hm := h.mirrors hc
    refine ⟨ht.size.trans hm.size, ?_, fun k p' hp' hfh => ?_, fun k p' hp' hfh hcl => ?_, fun k hk => ?_⟩
    · rw [ht.backing, ht.size]
      exact hm.backing
    · obtain ⟨p, hp, hfr, -⟩ := ht.kept k p' hp'
      rw [hfr]
      exact hm.frames k p hp hfh
    · obtain ⟨p, hp, -, hst⟩ := ht.kept k p' hp'
      rw [ht.backing]
      exact hm.clean k p hp hfh (hst ▸ hcl)
    · rw [ht.backing]
      cases hp : m.pages.get? k with
      | none => exact hm.absent k hp
      | some p =>
        have hcl := ht.gone k p hp hk
        simp only [PageState.reclaimable, Bool.and_eq_true, Bool.not_eq_true'] at hcl
        exact hm.clean k p hp (hfr k) hcl.1.1.1

/-- Nothing cut off means the page is zero past the file. -/
theorem cutsOff_eq_false {frame : Frame} {idx len : Nat} (h : cutsOff frame idx len = false)
    (b : Fin pageSize) (hb : len ≤ idx * pageSize + b) : frame b = 0 := by
  simp only [cutsOff, Bool.and_eq_false_iff, decide_eq_false_iff_not, Bool.not_eq_false',
    decide_eq_true_eq] at h
  obtain h | h := h
  · have := b.isLt
    simp only [pageSize] at h hb this
    omega
  · exact h b hb

/-- A reported writeback leaves the page clean. -/
theorem report_clean (h : Idle n st) :
    Idle n (st.claim.report st.dirtySeq true) ∧ (st.claim.report st.dirtySeq true).isDirty = false := by
  refine ⟨⟨h.leases, rfl, h.guards, ?_⟩, PageState.isDirty_eq_false.mpr ⟨?_, h.guards⟩⟩
  · exact Nat.max_le.mpr ⟨h.persisted, le_rfl⟩
  · exact Nat.le_max_right _ _

/-- What a writeback that cuts nothing off puts into the backing is the page. -/
theorem submit_backing (hz : m.backing.size ≤ m.logicalSize) (hcut : cutsOff page.frame k m.logicalSize = false) :
    window (m.submit k page).backing.get k = page.frame := by
  funext b
  show (writeSnapshot m.backing k m.logicalSize page.frame).get (k * pageSize + b) = page.frame b
  rw [writeSnapshot_same]
  split
  · rfl
  next hpa =>
    rw [cutsOff_eq_false hcut b (by omega)]
    exact m.backing.beyond _ (by omega)

/-- The pages after one was submitted. -/
theorem submit_get {p' : CachedPage} {k' : Nat} (hp : m.pages.get? k = some page)
    (hp' : (m.submit k page).pages.get? k' = some p') :
    (k' = k ∧ p'.frame = page.frame ∧ p'.state = page.state.claim.report page.state.dirtySeq true) ∨
      (k' ≠ k ∧ m.pages.get? k' = some p') := by
  have hfd := (get?_modify m.pages k _ k').symm.trans hp'
  by_cases hk : k' = k
  · subst hk
    rw [if_pos rfl, hp] at hfd
    cases hfd
    exact .inl ⟨rfl, rfl, rfl⟩
  · rw [if_neg hk] at hfd
    exact .inr ⟨hk, hfd⟩

/-- A page of a mapping that mirrors its file is written back, and nothing of it is cut off. -/
theorem MapOk.submit (h : MapOk w clipped id m) (hp : m.pages.get? k = some page) (hfh : w.Fresh id k) :
    MapOk w (clipped || cutsOff page.frame k m.logicalSize) id (m.submit k page) := by
  have hcl := report_clean (h.idle k page hp)
  refine ⟨fun k' p' hp' => ?_, fun k' htgt hms => ?_, fun hc => ?_⟩
  · obtain ⟨rfl, -, hst⟩ | ⟨-, hold⟩ := submit_get hp hp'
    · rw [hst]
      exact hcl.1
    · exact h.idle k' p' hold
  · refine (get?_modify m.pages k _ k').trans ?_
    rw [h.missing k' htgt hms]
    split <;> rfl
  · obtain ⟨hnot, hcut⟩ := Bool.or_eq_false_iff.mp hc
    have hm := h.mirrors hnot
    have hsm : window (m.submit k page).backing.get k = window (w.contents id) k :=
      (submit_backing hm.backing hcut).trans (hm.frames k page hp hfh)
    have ho : ∀ k', k' ≠ k → window (m.submit k page).backing.get k' = window m.backing.get k' :=
      fun k' hk => writeSnapshot_other hk
    refine ⟨hm.size, ?_, fun k' p' hp' hf => ?_, fun k' p' hp' hf hd => ?_, fun k' hk' => ?_⟩
    · exact writeSnapshot_size.trans (Nat.max_le.mpr ⟨hm.backing, le_rfl⟩)
    · obtain ⟨rfl, hfr, -⟩ | ⟨-, hold⟩ := submit_get hp hp'
      · rw [hfr]
        exact hm.frames k' page hp hf
      · exact hm.frames k' p' hold hf
    · obtain ⟨rfl, -, -⟩ | ⟨hk, hold⟩ := submit_get hp hp'
      · exact hsm
      · rw [ho k' hk]
        exact hm.clean k' p' hold hf hd
    · have hn := (get?_modify m.pages k _ k').symm.trans hk'
      by_cases hk : k' = k
      · subst hk
        exact hsm
      · rw [if_neg hk] at hn
        rw [ho k' hk]
        exact hm.absent k' hn

/-- What held before holds still if more was cut off. -/
theorem MapOk.clip {cut : Bool} (h : MapOk w clipped id m) : MapOk w (clipped || cut) id m :=
  ⟨h.idle, h.missing, fun hc => h.mirrors (Bool.or_eq_false_iff.mp hc).1⟩

theorem Inv.clip (h : Inv w s) (cut : Bool) : Inv w {s with clipped := s.clipped || cut} :=
  ⟨h.memory, h.owned, fun id m hm => (h.mappings id m hm).clip,
    fun hc => h.known (Bool.or_eq_false_iff.mp hc).1⟩

theorem Idle.never_waits {expl : Bool} (h : Idle n st) : st.writebackAction expl ≠ .wait := by
  simp only [PageState.writebackAction, h.writeback]
  split_ifs <;> simp_all

/-- Reclaim, pruning and writeback keep a world whose pages are all accounted for. -/
theorem writesBack_inv (hw : w.stale = false) : WritesBack (Inv w) (Fails w) where
  other := fun h heq => h.of_eq heq
  short := fun {s n} h hn => ⟨h, n, h.memory ▸ hn⟩
  prune := by
    intro s id m h hm hun
    have hfi : ∀ id', (s.registry.erase id).get? id' = if id' = id then none else s.registry.get? id' :=
      fun id' => SortedMap.get?_erase _ _ _
    refine ⟨h.memory, fun id' hid' => ?_, fun id' m' hm' => ?_, h.known⟩
    · obtain ⟨m', hm', ho'⟩ := h.owned id' hid'
      have hne : id' ≠ id := by
        intro heq
        rw [heq, hm] at hm'
        rw [Option.some.inj hm', ho'] at hun
        cases hun
      exact ⟨m', ((hfi id').trans (if_neg hne)).trans hm', ho'⟩
    · have hfd := (hfi id').symm.trans hm'
      split at hfd
      · cases hfd
      · exact h.mappings id' m' hfd
  thin := by
    intro s id f h hf
    refine h.modify_same fun m hm hok => ⟨hok.thin (hf m hm) fun k => fresh_of_settled hw id k, (hf m hm).owned⟩
  submit := by
    intro s id m idx page h hm hp
    refine (h.clip _).modify_same fun m' hm' _ => ?_
    cases hm.symm.trans hm'
    exact ⟨(h.mappings id m hm).submit hp (fresh_of_settled hw id idx), rfl⟩
  wait := by
    intro s id m idx page expl h hm hp hact
    exact absurd hact ((h.mappings id m hm).idle idx page hp).never_waits

end StarryX.Cache.Manager
