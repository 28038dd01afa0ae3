import StarryX.Cache.Refinement

/-! What the backing of a file holds of its cache.

Besides the operations, histories have what shared mappings do: a page is faulted in for writing under
a guard, stored to, and unmapped. `Backed` is kept by all of it: the backing is never longer than the
file, and as long as no writeback cut bytes off, a resident page that is not dirty is the backing's. -/
namespace StarryX.Cache.Manager
open Library
open SortedMap (get?_erase get?_insert get?_modify)

/-! ### Histories -/

/-- `FileVmObject::page` for a shared mapping that writes: the guard is taken on a leased page. -/
def pageForWrite (id index : Nat) : Prog Unit := do
  let page ← acquirePageInner id index false
  match page.state.takeGuard with
  | .error stop =>
    dropLease id index
    throw stop
  | .ok state =>
    modifyMapping id fun m =>
      {m.modifyPage index fun p => {p with state := state} with
        dirtyPages := if page.state.isDirty then m.dirtyPages else wrappingAdd m.dirtyPages 1}
    modify fun s => {s with
      dirtyPages := if page.state.isDirty then s.dirtyPages else wrappingAdd s.dirtyPages 1}
    dropLease id index

/-- A store through a shared mapping; there is a writable leaf only under a guard. -/
def store (id index : Nat) (offset : Fin pageSize) (byte : Byte) : Prog Unit :=
  modifyMapping id fun m => m.modifyPage index fun p =>
    if p.state.sharedGuardGroups = 0 then p else {p with frame := Function.update p.frame offset byte}

/-- `SharedWriteGuard::drop`. The page was dirty and stays so. -/
def dropGuard (id index : Nat) : Prog Unit := do
  match (← getMapping id).pages.get? index with
  | none => pure ()
  | some page =>
    if page.state.sharedGuardGroups = 0 then pure ()
    else
      match page.state.dropGuard with
      | .error stop => throw stop
      | .ok state => modifyMapping id fun m => m.modifyPage index fun p => {p with state := state}

/-- What the observers of a mapping do before it is cut: no leaf in the range survives, and
no guard. -/
def invalidate (id newLen : Nat) : Prog Unit := do
  let m ← getMapping id
  if newLen < m.logicalSize then
    (m.pages.entries.filter fun e => pageIndex newLen ≤ e.1 && e.1 ≤ pageIndex (m.logicalSize - 1)).forM
      fun e => (List.range e.2.state.sharedGuardGroups).forM fun _ => dropGuard id e.1
  else pure ()

inductive Event where
  | op (op : Op)
  | fault (id index : Nat)
  | store (id index : Nat) (offset : Fin pageSize) (byte : Byte)
  | unmap (id index : Nat)

def Event.perform : Event → Prog Unit
  | .op (.resize id newLen) => do
    invalidate id newLen
    resize id newLen
  | .op other => (fun _ => ()) <$> other.perform
  | .fault id index => pageForWrite id index
  | .store id index offset byte => Manager.store id index offset byte
  | .unmap id index => dropGuard id index

/-- The state a history leaves. What fails on the way leaves what it has done, a panic ends it all. -/
def history (s : CacheManager) : List Event → Option CacheManager
  | [] => some s
  | e :: rest =>
    match e.perform s with
    | .ok _ t => history t rest
    | .error (.error _) t => history t rest
    | .error .panic _ => none

/-! ### Backed pages -/

/-- The clean pages of a mapping are the backing's, apart from those that are still to be filled. -/
structure FileMapping.IsBacked (clipped : Bool) (unfilled : Nat → Prop) (m : FileMapping) : Prop where
  size : m.backing.size ≤ m.logicalSize
  ordered : ∀ k p, m.pages.get? k = some p → p.state.persistedSeq ≤ p.state.dirtySeq
  clean : clipped = false → ∀ k p, m.pages.get? k = some p → ¬unfilled k → p.state.isDirty = false →
    p.frame = window m.backing.get k

def Backed (unfilled : Option (Nat × Nat)) (s : CacheManager) : Prop :=
  ∀ id m, s.registry.get? id = some m → m.IsBacked s.clipped fun k => unfilled = some (id, k)

/-- An error leaves the pages backed; of a panic nothing is said. -/
def BackedUnlessPanic (e : Stop) (s : CacheManager) : Prop := e ≠ .panic → Backed none s

section Backed
variable {s t : CacheManager} {u u' : Option (Nat × Nat)} {id idx k : Nat} {m m' : FileMapping} {clipped : Bool}
  {v v' : Nat → Prop} {f : FileMapping → FileMapping} {page : CachedPage}

theorem Backed.of_eq (h : Backed u s) (hreg : t.registry = s.registry) (hcl : t.clipped = s.clipped) : Backed u t := by
  unfold Backed
  rw [hreg, hcl]
  exact h

theorem FileMapping.IsBacked.fill (h : m.IsBacked clipped v) (hv : ∀ k, v k → v' k) : m.IsBacked clipped v' :=
  ⟨h.size, h.ordered, fun hc k p hp hk => h.clean hc k p hp fun hvk => hk (hv k hvk)⟩

theorem Backed.fill (h : Backed none s) : Backed u s := fun id m hm => (h id m hm).fill nofun

theorem Backed.modify (h : Backed u s) (hu : ∀ id' k, id' ≠ id → u = some (id', k) → u' = some (id', k))
    (hf : ∀ m, s.registry.get? id = some m → m.IsBacked s.clipped (fun k => u = some (id, k)) →
      (f m).IsBacked s.clipped fun k => u' = some (id, k)) : Backed u' {s with registry := s.registry.modify id f} := by
  intro id' m' hm'
  have hm' := (get?_modify s.registry id f id').symm.trans hm'
  split at hm'
  next hid =>
    obtain ⟨m, hm, rfl⟩ := Option.map_eq_some_iff.mp hm'
    subst hid
    exact hf m hm (h id' m hm)
  next hid => exact (h id' m' hm').fill fun k => hu id' k hid

/-- One page is put in place, or none. -/
theorem FileMapping.IsBacked.put (idx : Nat) (h : m.IsBacked clipped v) (hz : m.logicalSize ≤ m'.logicalSize)
    (hbk : m'.backing = m.backing) (hv : ∀ k, k ≠ idx → v k → v' k)
    (hpgs : ∀ k p', m'.pages.get? k = some p' → (m.pages.get? k = some p' ∧ k ≠ idx) ∨
      (k = idx ∧ p'.state.persistedSeq ≤ p'.state.dirtySeq ∧
        (clipped = false → ¬v' idx → p'.state.isDirty = false → p'.frame = window m.backing.get idx))) :
    m'.IsBacked clipped v' := by
  refine ⟨?_, fun k p' hp' => ?_, fun hc k p' hp' hk hd => ?_⟩
  · rw [hbk]
    exact h.size.trans hz
  · obtain ⟨hp, -⟩ | ⟨-, ho, -⟩ := hpgs k p' hp'
    · exact h.ordered k p' hp
    · exact ho
  · rw [hbk]
    obtain ⟨hp, hne⟩ | ⟨rfl, -, hcl⟩ := hpgs k p' hp'
    · exact h.clean hc k p' hp (fun hvk => hk (hv k hne hvk)) hd
    · exact hcl hc hk hd

/-- A page changes in place. -/
theorem FileMapping.IsBacked.modifyPage {g : CachedPage → CachedPage} (h : m.IsBacked clipped v)
    (hv : ∀ k, k ≠ idx → v k → v' k)
    (hg : ∀ p, m.pages.get? idx = some p → (g p).state.persistedSeq ≤ (g p).state.dirtySeq ∧
      (clipped = false → ¬v' idx → (g p).state.isDirty = false → (g p).frame = window m.backing.get idx)) :
    (m.modifyPage idx g).IsBacked clipped v' := by
  refine h.put idx le_rfl rfl hv fun k p' hp' => ?_
  have hp' := (get?_modify m.pages idx g k).symm.trans hp'
  split at hp'
  next hk =>
    obtain ⟨p, hp, rfl⟩ := Option.map_eq_some_iff.mp hp'
    exact .inr ⟨hk, hg p (hk ▸ hp)⟩
  next hk => exact .inl ⟨hp', hk⟩

/-- The lease count changes, and the mark of use. -/
theorem FileMapping.IsBacked.touch {g : CachedPage → CachedPage} (h : m.IsBacked clipped v)
    (hfm : ∀ p, (g p).frame = p.frame)
    (hst : ∀ p, m.pages.get? idx = some p → (g p).state.persistedSeq = p.state.persistedSeq ∧
      (g p).state.dirtySeq = p.state.dirtySeq ∧ (g p).state.isDirty = p.state.isDirty) :
    (m.modifyPage idx g).IsBacked clipped v := by
  refine h.modifyPage (fun _ _ hk => hk) fun p hp => ?_
  obtain ⟨hpe, hdi, hd⟩ := hst p hp
  refine ⟨?_, fun hc hk hcl => ?_⟩
  · rw [hpe, hdi]
    exact h.ordered idx p hp
  · rw [hfm]
    exact h.clean hc idx p hp hk (hd ▸ hcl)

theorem FileMapping.IsBacked.thin (h : m.IsBacked clipped v) (ht : Thins m m') : m'.IsBacked clipped v := by
  refine ⟨?_, fun k p' hp' => ?_, fun hc k p' hp' hk hd => ?_⟩
  · rw [ht.backing, ht.size]
    exact h.size
  · obtain ⟨p, hp, -, hst⟩ := ht.kept k p' hp'
    rw [hst]
    exact h.ordered k p hp
  · obtain ⟨p, hp, hfm, hst⟩ := ht.kept k p' hp'
    rw [hfm, ht.backing]
    exact h.clean hc k p hp hk (hst ▸ hd)

theorem FileMapping.IsBacked.submit (h : m.IsBacked clipped v) (hp : m.pages.get? k = some page) :
    (m.submit k page).IsBacked (clipped || cutsOff page.frame k m.logicalSize) v := by
  refine ⟨writeSnapshot_size.trans (Nat.max_le.mpr ⟨h.size, le_rfl⟩), fun k' p' hp' => ?_, fun hc k' p' hp' hk hd => ?_⟩
  · obtain ⟨rfl, -, hst⟩ | ⟨-, hold⟩ := submit_get hp hp'
    · rw [hst]
      exact Nat.max_le.mpr ⟨h.ordered k' page hp, le_rfl⟩
    · exact h.ordered k' p' hold
  · obtain ⟨hnot, hcut⟩ := Bool.or_eq_false_iff.mp hc
    obtain ⟨rfl, hfm, -⟩ | ⟨hne, hold⟩ := submit_get hp hp'
    · rw [hfm, submit_backing h.size hcut]
    · rw [h.clean hnot k' p' hold hk hd]
      exact (writeSnapshot_other hne).symm

theorem writesBack_backed : WritesBack (Backed none) BackedUnlessPanic where
  other := by
    intro s t h heq
    simp only [Prod.mk.injEq] at heq
    exact h.of_eq heq.2.1 heq.2.2
  short := fun h _ _ => h
  prune := by
    intro s id m h hm _ id' m' hm'
    have hm' := (get?_erase s.registry id id').symm.trans hm'
    split at hm'
    · cases hm'
    · exact h id' m' hm'
  thin := fun h hf => h.modify (fun _ _ _ hu => hu) fun m hm hb => hb.thin (hf m hm)
  submit := by
    intro s id m idx page h hm hp
    have hcl : Backed none {s with clipped := s.clipped || cutsOff page.frame idx m.logicalSize} := fun id' m' hm' =>
      have hb := h id' m' hm'
      ⟨hb.size, hb.ordered, fun hc => hb.clean (Bool.or_eq_false_iff.mp hc).1⟩
    refine hcl.modify (fun _ _ _ hu => hu) fun m' hm' _ => ?_
    cases hm.symm.trans hm'
    exact (h id m hm).submit hp
  wait := fun h _ _ _ _ => h

/-! ### Reading and writing -/

/-- Of a mapping that is not there nothing is said. -/
theorem getMapping_backed {P : CacheManager → Prop} :
    Triple P (getMapping id) (fun m s => P s ∧ s.registry.get? id = some m) BackedUnlessPanic := by
  refine .bind .get fun t => ?_
  cases hm : t.registry.get? id with
  | some m => exact .pure fun s h => ⟨h.2, h.1 ▸ hm⟩
  | none => exact .throw fun _ _ hne => absurd rfl hne

/-- A page as it is published: the backing's, unless it is to be filled. -/
def Published (id idx : Nat) (zeroOnMiss : Bool) : Option (Nat × Nat) := if zeroOnMiss then some (id, idx) else none

theorem loadPage_backed (id idx : Nat) (zeroOnMiss : Bool) :
    Triple (Backed none) (loadPage id idx zeroOnMiss)
      (fun page s => Backed none s ∧ page.state = .clean ∧
        (zeroOnMiss = false → ∀ m, s.registry.get? id = some m → page.frame = window m.backing.get idx))
      BackedUnlessPanic := by
  refine writesBack_backed.allocateFrame.bind fun _ => getMapping_backed.bind fun m => .bind .get fun t => ?_
  have hld : ∀ s, Backed none s → s.registry.get? id = some m →
      loadFrame m.backing.get idx m.logicalSize = window m.backing.get idx := by
    intro s h hm
    refine loadFrame_eq_window (fun _ => rfl) fun b hb => m.backing.beyond _ ?_
    have := (h id m hm).size
    omega
  refine .bind (Q := fun _ s => Backed none s ∧ s.registry.get? id = some m) (.modify fun s h => h.2) fun _ => ?_
  refine .bind (Q := fun _ s => Backed none s ∧ s.registry.get? id = some m) ?_ fun _ => ?_
  · refine .bind (.modifyGet (Q := fun _ s => Backed none s ∧ s.registry.get? id = some m) fun s h => h) fun b => ?_
    cases b with
    | true => exact .skip
    | false => exact .throw fun _ h _ => h.1
  · refine .bind (Q := fun _ s => Backed none s ∧ s.registry.get? id = some m) (.modify fun s h => h) fun _ => ?_
    refine .pure fun s h => ⟨h.1, rfl, fun hz m' hm' => ?_⟩
    cases h.2.symm.trans hm'
    simp only [hz]
    exact hld s h.1 h.2

theorem publishPage_backed (id idx : Nat) (zeroOnMiss : Bool) :
    Triple (Backed none) (publishPage id idx zeroOnMiss)
      (fun _ s => Backed (Published id idx zeroOnMiss) s ∧ ∀ m p, s.registry.get? id = some m →
        m.pages.get? idx = some p → p.state = .clean) BackedUnlessPanic := by
  refine (loadPage_backed id idx zeroOnMiss).bind fun page => ?_
  refine .bind (Q := fun _ s => Backed (Published id idx zeroOnMiss) s ∧ ∀ m p, s.registry.get? id = some m →
    m.pages.get? idx = some p → p.state = .clean) (.modify fun s ⟨h, hst, hld⟩ => ⟨?_, fun m p hm hp => ?_⟩)
    fun _ => .modify fun _ h => h
  · refine h.modify nofun fun m hm hb => hb.put idx le_rfl rfl nofun fun k p' hp' => ?_
    have hp' := (get?_insert m.pages idx page k).symm.trans hp'
    split at hp'
    next hk =>
      cases hp'
      refine .inr ⟨hk, by rw [hst]; exact le_rfl, fun _ hnot _ => hld ?_ m hm⟩
      cases zeroOnMiss with
      | false => rfl
      | true => exact absurd rfl hnot
    next hk => exact .inl ⟨hp', hk⟩
  · have hm := (get?_modify s.registry id _ id).symm.trans hm
    rw [if_pos rfl] at hm
    obtain ⟨m, -, rfl⟩ := Option.map_eq_some_iff.mp hm
    have hp := (get?_insert m.pages idx page idx).symm.trans hp
    rw [if_pos rfl] at hp
    rw [← Option.some.inj hp]
    exact hst

theorem leasePage_backed :
    Triple (fun s => Backed u s ∧ (u = none ∨ ∀ m p, s.registry.get? id = some m →
        m.pages.get? idx = some p → p.state = .clean)) (leasePage id idx)
      (fun page s => Backed u s ∧ Holds id idx (fun p => p = page) s) BackedUnlessPanic := by
  refine getMapping_backed.bind fun m => ?_
  cases hp : m.pages.get? idx with
  | none => exact .throw fun _ _ hne => absurd rfl hne
  | some page =>
    cases hlease : page.state.takeLease with
    | error stop =>
      simp only [hlease]
      refine .throw fun s ⟨⟨h, hu⟩, hm⟩ _ => ?_
      obtain rfl | hcl := hu
      · exact h
      · rw [hcl m page hm hp] at hlease
        cases hlease
    | ok state =>
      simp only [hlease]
      have hst := PageState.takeLease_eq hlease
      refine .bind (Q := fun _ s => Backed u s ∧
        Holds id idx (fun p => p = {page with state := state, referenced := true}) s)
        (.modify fun s ⟨⟨h, _⟩, hm⟩ => ⟨?_, ?_⟩) fun _ => .pure fun _ h => h
      · refine h.modify (fun _ _ _ hu => hu) fun m' hm' hb => hb.touch (fun _ => rfl) fun p hp' => ?_
        cases hm.symm.trans hm'
        cases hp.symm.trans hp'
        rw [hst]
        exact ⟨rfl, rfl, rfl⟩
      · exact .modify hm ((modifyPage_get _ hp _).trans (if_pos rfl)) rfl

theorem acquirePageInner_backed (id idx : Nat) (zeroOnMiss : Bool) :
    Triple (Backed none) (acquirePageInner id idx zeroOnMiss)
      (fun page s => Backed (Published id idx zeroOnMiss) s ∧ Holds id idx (fun p => p = page) s) BackedUnlessPanic := by
  refine getMapping_backed.bind fun m => ?_
  split
  · refine .bind ((publishPage_backed id idx zeroOnMiss).pre fun _ h => h.1) fun _ => ?_
    exact leasePage_backed.pre fun s h => ⟨h.1, .inr h.2⟩
  · exact (leasePage_backed (u := none)).imp (fun s h => ⟨h.1, .inl rfl⟩) fun page s h => ⟨h.1.fill, h.2⟩

theorem dropLease_backed (id idx : Nat) : Triple (Backed none) (dropLease id idx) (fun _ => Backed none) BackedUnlessPanic :=
  .modify fun _ h => h.modify (fun _ _ _ hu => hu) fun _ _ hb => hb.touch (fun _ => rfl) fun _ _ => ⟨rfl, rfl, rfl⟩

/-- A page that becomes dirty need not be the backing's. -/
theorem Backed.dirtied {state : PageState} {n : FileMapping → Nat} (h : Backed u s) (hu : ∀ id' k, u = some (id', k) → id' = id ∧ k = idx)
    (hm : s.registry.get? id = some m) (hp : m.pages.get? idx = some page)
    (hpe : state.persistedSeq = page.state.persistedSeq) (hdi : state.dirtySeq = page.state.dirtySeq + 1) :
    Backed none {s with registry := s.registry.modify id fun m =>
      {m.modifyPage idx fun p => {p with state := state} with dirtyPages := n m}} := by
  refine h.modify (fun id' k hne heq => absurd (hu id' k heq).1 hne) fun m' hm' hb => ?_
  cases hm.symm.trans hm'
  have hlt : state.persistedSeq < state.dirtySeq := by
    have := hb.ordered idx page hp
    omega
  have hmp : (m.modifyPage idx fun p => {p with state := state}).IsBacked s.clipped fun k => none = some (id, k) :=
    hb.modifyPage (fun k hne heq => absurd (hu id k heq).2 hne) fun p _ =>
      ⟨hlt.le, fun _ _ hd => absurd (PageState.isDirty_eq_false.mp hd).1 (Nat.not_le.mpr hlt)⟩
  exact ⟨hmp.size, hmp.ordered, hmp.clean⟩

theorem writeChunk_backed (id : Nat) (src : Bytes Byte) (span : Span) :
    Triple (Backed none) (writeChunk id src span) (fun _ => Backed none) BackedUnlessPanic := by
  refine writesBack_backed.throttleDirty.bind fun _ => (acquirePageInner_backed _ _ _).bind fun page => ?_
  refine .bind (Q := fun _ s => Backed (some (id, span.index)) s ∧ Holds id span.index (fun p => p.state = page.state) s)
    (.modify fun s ⟨h, m, p, hm, hp, heq⟩ => ⟨?_, .modify hm ((modifyPage_get _ hp _).trans (if_pos rfl)) (heq ▸ rfl)⟩)
    fun _ => ?_
  · refine h.modify (fun id' k hne heq => ?_) fun m' _ hb => hb.modifyPage (fun k hne heq => ?_) fun p hp =>
      ⟨hb.ordered _ p hp, fun _ hnot => absurd rfl hnot⟩
    all_goals
      unfold Published at heq
      split at heq
      · cases heq
        exact absurd rfl hne
      · cases heq
  · refine .bind ?_ fun _ => dropLease_backed id span.index
    unfold markDirty
    split
    next stop hstop =>
      refine .throw fun s _ hne => absurd ?_ hne
      unfold PageState.markDirty at hstop
      split at hstop
      · cases hstop
      · exact (Except.error.inj hstop).symm
    next state hstate =>
      have hst := PageState.markDirty_eq hstate
      refine .bind (Q := fun _ => Backed none) (.modify fun s ⟨h, m, p, hm, hp, heq⟩ => ?_) fun _ => .modify fun _ h => h
      exact h.dirtied (fun id' k heq => by cases heq; exact ⟨rfl, rfl⟩) hm hp (by rw [hst, heq]) (by rw [hst, heq])

theorem writeLoop_backed (id : Nat) (src : Bytes Byte) (fuel : Nat) :
    ∀ span, Triple (Backed none) (writeLoop id src fuel span) (fun _ => Backed none) BackedUnlessPanic := by
  induction fuel with
  | zero => exact fun _ => .skip
  | succ fuel ih =>
    intro span
    unfold writeLoop
    split
    · refine .bind (writeChunk_backed id src span).attempt fun r => ?_
      obtain (code | _) | ⟨⟩ := r
      · refine .pre (P := Backed none) ?_ fun _ h => h (Stop.error_ne_panic code)
        show Triple _ (if span.done = 0 then _ else _) _ _
        split
        · exact .throw fun _ h _ => h
        · exact .skip
      · exact .throw fun _ _ hne => absurd rfl hne
      · exact ih span.advance
    · exact .skip

theorem writeAtInner_backed (id : Nat) (src : Bytes Byte) (off : Nat) :
    Triple (Backed none) (writeAtInner id src off) (fun _ => Backed none) BackedUnlessPanic := by
  unfold writeAtInner
  split
  · refine (writeLoop_backed id src _ _).bind fun n => .bind (Q := fun _ => Backed none) (.modify fun s h => ?_) fun _ => .skip
    refine h.modify (fun _ _ _ hu => hu) fun m _ hb => ⟨hb.size.trans (Nat.le_max_left _ _), hb.ordered, hb.clean⟩
  · exact .throw fun _ h _ => h

theorem readLoop_backed (id fuel : Nat) :
    ∀ span bs, Triple (Backed none) (readLoop id fuel span bs) (fun _ => Backed none) BackedUnlessPanic := by
  induction fuel with
  | zero => exact fun _ _ => .skip
  | succ fuel ih =>
    intro span bs
    unfold readLoop
    split
    · exact .bind ((acquirePageInner_backed id _ false).post fun _ _ h => h.1) fun page =>
        (dropLease_backed id _).bind fun _ => ih _ _
    · exact .skip

/-! ### The other operations -/

/-- Cutting and extending a file goes to its backing first. -/
theorem resize_backed (id n : Nat) : Triple (Backed none) (resize id n) (fun _ => Backed none) BackedUnlessPanic := by
  refine getMapping_backed.bind fun _ => .bind (writesBack_backed.reserve.pre fun _ h => h.1) fun _ => ?_
  refine .bind (Q := fun _ => Backed none) (.modify fun s h => ?_) fun _ => .modify fun _ h => h
  refine h.modify (fun _ _ _ hu => hu) fun m _ hb => ?_
  by_cases hshrink : n < m.logicalSize
  · simp only [hshrink]
    refine ⟨le_rfl, fun k p' hp' => ?_, fun hc k p' hp' hk hd => ?_⟩
    · obtain ⟨p, hp, hst, -⟩ := commitShrink_page hp'
      rw [hst]
      exact hb.ordered k p hp
    · obtain ⟨p, hp, hst, hfm⟩ := commitShrink_page hp'
      funext b
      rw [hfm, hb.clean hc k p hp hk (hst ▸ hd)]
      rfl
  · simp only [hshrink]
    have hbk : (m.backing.setLen n).get = m.backing.get :=
      funext (Bytes.setLen_get (hb.size.trans (not_lt.mp hshrink)))
    refine ⟨le_rfl, hb.ordered, fun hc k p hp hk hd => ?_⟩
    rw [hb.clean hc k p hp hk hd, ← hbk]
    rfl

theorem syncRange_backed (id start stop : Nat) :
    Triple (Backed none) (syncRange id start stop) (fun _ => Backed none) BackedUnlessPanic := by
  refine getMapping_backed.bind fun m => .bind ((writesBack_backed.residentPages m start stop).pre fun _ h => h.1) fun pages => ?_
  refine writesBack_backed.reserve.bind fun _ => (writesBack_backed.syncLoop id pages).bind fun _ => .modify fun s h => ?_
  refine h.modify (fun _ _ _ hu => hu) fun m _ hb => ⟨le_rfl, hb.ordered, fun hc k p hp hk hd => ?_⟩
  rw [hb.clean hc k p hp hk hd, ← funext (Bytes.setLen_get hb.size)]

theorem perform_backed (op : Op) : Triple (Backed none) op.perform (fun _ => Backed none) BackedUnlessPanic := by
  cases op with
  | write id off src => exact .map (writeAtInner_backed id src off) fun _ _ h => h
  | append id src =>
    refine .map (.bind getMapping_backed fun m => ?_) fun _ _ h => h
    exact .bind ((writeAtInner_backed id src _).pre fun _ h => h.1) fun _ => .skip
  | read id off count =>
    refine .map (.bind getMapping_backed fun m => ?_) fun _ _ h => h
    split
    · exact .pure fun _ h => h.1
    · exact .bind ((readLoop_backed id _ _ _).pre fun _ h => h.1) fun _ => .skip
  | resize id n => exact .map (resize_backed id n) fun _ _ h => h
  | sync id start stop => exact .map (syncRange_backed id start stop) fun _ _ h => h
  | writeback cap => exact .map (writesBack_backed.writebackInner cap false) fun _ _ h => h
  | reclaim n => exact .map (writesBack_backed.reclaimClean n) fun _ _ h => h
  | prune => exact .map writesBack_backed.pruneIdleMappings fun _ _ h => h
  | release id =>
    refine .map (.bind (Q := fun _ => Backed none) (.modify fun s h => ?_) fun _ => writesBack_backed.pruneMapping id)
      fun _ _ h => h
    exact h.modify (fun _ _ _ hu => hu) fun m _ hb => ⟨hb.size, hb.ordered, hb.clean⟩

/-! ### Shared mappings -/

theorem pageForWrite_backed (id idx : Nat) :
    Triple (Backed none) (pageForWrite id idx) (fun _ => Backed none) BackedUnlessPanic := by
  refine (acquirePageInner_backed id idx false).bind fun page => ?_
  split
  · refine .bind ((dropLease_backed id idx).pre fun _ h => h.1) fun _ => .throw fun _ h _ => h
  next state hstate =>
    have hst := PageState.takeGuard_eq hstate
    refine .bind (Q := fun _ => Backed none) (.modify fun s ⟨h, m, p, hm, hp, heq⟩ => ?_) fun _ => ?_
    · exact h.dirtied nofun hm hp (by rw [hst, heq]) (by rw [hst, heq])
    · exact .bind (Q := fun _ => Backed none) (.modify fun _ h => h) fun _ => dropLease_backed id idx

/-- A page that is stored to is dirty. -/
theorem store_backed (id idx : Nat) (offset : Fin pageSize) (byte : Byte) :
    Triple (Backed none) (store id idx offset byte) (fun _ => Backed none) BackedUnlessPanic := by
  refine .modify fun s h => h.modify (fun _ _ _ hu => hu) fun m _ hb => hb.modifyPage (fun _ _ hk => hk) fun p hp => ?_
  split
  · exact ⟨hb.ordered idx p hp, fun hc hk hd => hb.clean hc idx p hp hk hd⟩
  next hguard => exact ⟨hb.ordered idx p hp, fun _ _ hd => absurd (PageState.isDirty_eq_false.mp hd).2 hguard⟩

theorem dropGuard_backed (id idx : Nat) :
    Triple (Backed none) (dropGuard id idx) (fun _ => Backed none) BackedUnlessPanic := by
  refine getMapping_backed.bind fun m => ?_
  cases hp : m.pages.get? idx with
  | none => exact .pure fun _ h => h.1
  | some page =>
    show Triple _ (if _ then _ else _) _ _
    split
    · exact .pure fun _ h => h.1
    · split
      · exact .throw fun _ h _ => h.1
      next state hstate =>
        have hst := PageState.dropGuard_eq hstate
        refine .modify fun s h => ?_
        exact h.1.dirtied (n := fun m => m.dirtyPages) nofun h.2 hp (by rw [hst]) (by rw [hst])

theorem event_backed (event : Event) : Triple (Backed none) event.perform (fun _ => Backed none) BackedUnlessPanic := by
  match event with
  | .op (.resize id n) =>
    refine .bind (.bind getMapping_backed fun m => ?_) fun _ => resize_backed id n
    split
    · refine .pre (.forM _ fun e _ => .forM _ fun _ _ => dropGuard_backed id e.1) fun _ h => h.1
    · exact .pure fun _ h => h.1
  | .op (.write _ _ _) | .op (.append _ _) | .op (.read _ _ _) | .op (.sync _ _ _) | .op (.writeback _)
  | .op (.reclaim _) | .op .prune | .op (.release _) => exact .map (perform_backed _) fun _ _ h => h
  | .fault id index => exact pageForWrite_backed id index
  | .store id index offset byte => exact store_backed id index offset byte
  | .unmap id index => exact dropGuard_backed id index

theorem history_backed (events : List Event) : ∀ {s t}, Backed none s → history s events = some t → Backed none t := by
  induction events with
  | nil =>
    intro s t h hrun
    cases hrun
    exact h
  | cons event rest ih =>
    intro s t h hrun
    have hev := event_backed event s h
    unfold history at hrun
    cases hp : event.perform s with
    | ok _ s' =>
      rw [hp] at hev hrun
      exact ih hev hrun
    | error stop s' =>
      rw [hp] at hev hrun
      cases stop with
      | error code => exact ih (hev nofun) hrun
      | panic => cases hrun

theorem over_backed (policy : CachePolicy) (files : Nat → Bytes Byte) (n : Nat) (mem : Nat → Bool) :
    Backed none (.over policy files n mem) := by
  intro id m hm
  have hm := (registryOver_get files n id).symm.trans hm
  split at hm
  · cases hm
    exact ⟨le_rfl, nofun, nofun⟩
  · cases hm

end Backed
end StarryX.Cache.Manager
