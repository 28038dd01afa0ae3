import StarryX.Cache.Invariant

/-! Copies between callers and cached pages.

A transfer works on one page at a time. `World.work` is a world in the middle of that: the
page may be missing, or leased with its bytes still to come, and the file already has the
contents it gets. `Inv.enter`, `Inv.put` and `Inv.leave` go in, along and out; with them
`writeLoop_spec` says that a write stores what it reports, and `readLoop_spec` that a read
returns the file. -/
namespace StarryX.Cache.Manager
open Library
open Option (some.inj)
variable {w : World} {s : CacheManager}

/-! ### Worlds on the way -/

/-- A file has other contents. -/
def World.store (w : World) (id : Nat) (bytes : Nat → Byte) : World :=
  {w with contents := Function.update w.contents id bytes}

/-- A page of a file that has these contents is worked on. -/
def World.work (w : World) (id index : Nat) (bytes : Nat → Byte) (missing stale : Bool) (held : Nat) : World :=
  {w.store id bytes with target := some (id, index), missing := missing, stale := stale, held := held}

/-- More is known of the run. -/
def World.learn (w : World) (q : Prop) : World := {w with known := w.known ∧ q}

@[simp]
theorem World.store_self (w : World) (id : Nat) : w.store id (w.contents id) = w := by
  simp [World.store]

theorem World.store_store (w : World) (id : Nat) (a b : Nat → Byte) :
    (w.store id a).store id b = w.store id b := by
  simp [World.store]

variable {m : FileMapping} {q : Prop} {e : Stop}

/-- Two worlds say the same of a mapping. -/
theorem MapOk.congr {w' : World} {clipped : Bool} {id : Nat} (h : MapOk w clipped id m)
    (hco : w'.contents id = w.contents id) (hsi : w'.sizes id = w.sizes id)
    (hle : ∀ k, w'.leases id k = w.leases id k) (hfr : ∀ k, w'.Fresh id k → w.Fresh id k)
    (hmi : ∀ k, w'.target = some (id, k) → w'.missing → m.pages.get? k = none) :
    MapOk w' clipped id m := by
  refine ⟨fun k p hp => (hle k).symm ▸ h.idle k p hp, hmi, fun hc => ?_⟩
  have hm := h.mirrors hc
  refine ⟨hm.size.trans hsi.symm, hm.backing, fun k p hp hf => ?_, fun k p hp hf hd => ?_, fun k hk => ?_⟩
  · rw [hco]
    exact hm.frames k p hp (hfr k hf)
  · rw [hco]
    exact hm.clean k p hp (hfr k hf) hd
  · rw [hco]
    exact hm.absent k hk

theorem Inv.learn (h : Inv w s) (hq : s.clipped = false → q) : Inv (w.learn q) s where
  __ := h
  mappings := fun id m hm =>
    (h.mappings id m hm).congr rfl rfl (fun _ => rfl) (fun _ hf => hf) (h.mappings id m hm).missing
  known := fun hc => ⟨h.known hc, hq hc⟩

theorem Inv.unlearn (h : Inv (w.learn q) s) : Inv w s where
  __ := h
  mappings := fun id m hm =>
    (h.mappings id m hm).congr rfl rfl (fun _ => rfl) (fun _ hf => hf) (h.mappings id m hm).missing
  known := fun hc => (h.known hc).1

theorem Fails.unlearn (h : Fails (w.learn q) e s) : Fails w e s := by
  cases e with
  | panic => exact ⟨h.1, fun hc => (h.2 hc).1⟩
  | error code => exact ⟨h.1.unlearn, h.2⟩

section Work
variable {id idx : Nat} {bs : Nat → Byte} {missing stale : Bool} {held id' : Nat} {p : CachedPage}

theorem World.work_contents (w : World) : (w.work id idx bs missing stale held).contents id = bs := by
  simp [World.work, World.store]

theorem World.work_contents_other (w : World) (hne : id' ≠ id) :
    (w.work id idx bs missing stale held).contents id' = w.contents id' := by
  simp [World.work, World.store, hne]

theorem World.work_leases (w : World) (k : Nat) :
    (w.work id idx bs missing stale held).leases id k = if k = idx then held else 0 := by
  simp [World.work, World.leases, eq_comm]

theorem World.work_leases_other (w : World) (hne : id' ≠ id) (k : Nat) :
    (w.work id idx bs missing stale held).leases id' k = 0 := by
  simp [World.work, World.leases, hne.symm]

theorem World.work_target {k : Nat}
    (h : (w.work id idx bs missing stale held).target = some (id', k)) : id' = id ∧ k = idx := by
  cases h
  exact ⟨rfl, rfl⟩

/-- Work begins at a page that is there, or at one that is not. -/
theorem Inv.enter (hw : w.target = none) (h : Inv w s)
    (hmi : missing → ∀ m, s.registry.get? id = some m → m.pages.get? idx = none) :
    Inv (w.work id idx (w.contents id) missing stale 0) s where
  __ := h
  mappings := by
    intro id' m hm
    refine (h.mappings id' m hm).congr ?_ rfl (fun k => ?_) (fun k _ => ?_) fun k hk hms => ?_
    · simp [World.work]
    · simp [World.leases, World.work, hw]
    · simp [World.Fresh, hw]
    · obtain ⟨rfl, rfl⟩ := World.work_target hk
      exact hmi hms m hm

/-- Work ends, and the file has the new contents. -/
theorem Inv.leave (hw : w.target = none) (h : Inv (w.work id idx bs missing false 0) s) :
    Inv (w.store id bs) s where
  __ := h
  mappings := by
    intro id' m hm
    refine (h.mappings id' m hm).congr rfl rfl (fun k => ?_) (fun k _ => fun _ => rfl) fun k hk => ?_
    · simp [World.leases, World.work, World.store, hw]
    · have hn : w.target = some (id', k) := hk
      rw [hw] at hn
      cases hn

theorem Fails.leave (hw : w.target = none)
    (h : Fails (w.work id idx (w.contents id) missing false 0) e s) : Fails w e s := by
  cases e with
  | panic => exact h
  | error code =>
    have hinv := h.1.leave hw
    rw [World.store_self] at hinv
    exact ⟨hinv, h.2⟩

/-- Work goes on: the page is put in place, and the file has what the page then holds. -/
theorem Inv.put {bytes' : Nat → Byte} {stale' : Bool} {held' : Nat} {p' : CachedPage} {f : FileMapping → FileMapping}
    (h : Inv (w.work id idx bs missing stale held) s) (hm : s.registry.get? id = some m)
    (hod : (f m).owned = m.owned) (hsi : (f m).logicalSize = m.logicalSize)
    (hbk : (f m).backing = m.backing)
    (hpgs : ∀ k, (f m).pages.get? k = if k = idx then some p' else m.pages.get? k)
    (hby : ∀ k, k ≠ idx → window bytes' k = window bs k) (hid : Idle held' p'.state)
    (hfr : stale' = false → s.clipped = false → p'.frame = window bytes' idx ∧
      (p'.state.isDirty = false → window m.backing.get idx = window bytes' idx)) :
    Inv (w.work id idx bytes' false stale' held') {s with registry := s.registry.modify id f} := by
  refine h.modify rfl rfl (fun hk => hk) (fun id' m' hne hok => ?_) fun m' hm' hok => ?_
  · refine hok.congr ?_ rfl (fun k => ?_) (fun k _ hk => ?_) fun k hk => ?_
    · rw [World.work_contents_other w hne, World.work_contents_other w hne]
    · rw [World.work_leases_other w hne, World.work_leases_other w hne]
    · exact absurd (World.work_target hk).1 hne
    · exact absurd (World.work_target hk).1 hne
  · cases hm.symm.trans hm'
    refine ⟨⟨fun k p hp => ?_, fun _ _ hms => absurd hms nofun, fun hc => ?_⟩, hod⟩
    · rw [hpgs k] at hp
      rw [World.work_leases]
      by_cases hk : k = idx
      · rw [if_pos hk] at hp ⊢
        rw [← some.inj hp]
        exact hid
      · rw [if_neg hk] at hp ⊢
        have hold := hok.idle k p hp
        rw [World.work_leases, if_neg hk] at hold
        exact hold
    · have hmi := hok.mirrors hc
      have hot : ∀ k, k ≠ idx → (w.work id idx bs missing stale held).Fresh id k :=
        fun k hk htgt => absurd (World.work_target htgt).2 hk
      refine ⟨hsi.trans hmi.size, by rw [hbk, hsi]; exact hmi.backing, ?_, ?_, ?_⟩
      · intro k p hp hf
        rw [hpgs k] at hp
        rw [World.work_contents]
        by_cases hk : k = idx
        · subst hk
          rw [if_pos rfl] at hp
          rw [← some.inj hp]
          exact (hfr (hf rfl) hc).1
        · rw [if_neg hk] at hp
          have hold := hmi.frames k p hp (hot k hk)
          rw [World.work_contents] at hold
          rw [hold, hby k hk]
      · intro k p hp hf hd
        rw [hpgs k] at hp
        rw [World.work_contents, hbk]
        by_cases hk : k = idx
        · subst hk
          rw [if_pos rfl] at hp
          rw [← some.inj hp] at hd
          exact (hfr (hf rfl) hc).2 hd
        · rw [if_neg hk] at hp
          have hold := hmi.clean k p hp (hot k hk) hd
          rw [World.work_contents] at hold
          rw [hold, hby k hk]
      · intro k hg
        rw [hpgs k] at hg
        rw [World.work_contents, hbk]
        by_cases hk : k = idx
        · rw [if_pos hk] at hg
          cases hg
        · rw [if_neg hk] at hg
          have hold := hmi.absent k hg
          rw [World.work_contents] at hold
          rw [hold, hby k hk]

/-- What the world says of the page it works on, once its bytes are accounted for. -/
theorem Inv.target_fresh (h : Inv (w.work id idx bs missing false held) s)
    (hm : s.registry.get? id = some m) (hp : m.pages.get? idx = some p) (hc : s.clipped = false) :
    p.frame = window bs idx ∧ (p.state.isDirty = false → window m.backing.get idx = window bs idx) := by
  have hmi := (h.mappings id m hm).mirrors hc
  have hfm := hmi.frames idx p hp fun _ => rfl
  have hcl := hmi.clean idx p hp fun _ => rfl
  rw [World.work_contents] at hfm hcl
  exact ⟨hfm, hcl⟩

theorem Inv.target_idle (h : Inv (w.work id idx bs missing stale held) s)
    (hm : s.registry.get? id = some m) (hp : m.pages.get? idx = some p) : Idle held p.state := by
  have hid := (h.mappings id m hm).idle idx p hp
  rw [World.work_leases, if_pos rfl] at hid
  exact hid

end Work

/-! ### Pages -/

section Pages
variable {id idx : Nat} {bs : Nat → Byte}

variable {E : Stop → CacheManager → Prop} (span : Span)

theorem getMapping_found {P : CacheManager → Prop} (hP : ∀ s, P s → ∃ m, s.registry.get? id = some m) :
    Triple P (getMapping id) (fun m s => P s ∧ s.registry.get? id = some m) E := by
  refine .bind .get fun t => ?_
  cases hm : t.registry.get? id with
  | some m => exact .pure fun s h => ⟨h.2, h.1 ▸ hm⟩
  | none =>
    refine .throw fun s h => ?_
    obtain ⟨rfl, hs⟩ := h
    obtain ⟨m, hfo⟩ := hP t hs
    rw [hm] at hfo
    cases hfo

/-- An owned mapping is there. -/
theorem getMapping_spec (ho : w.owned id) :
    Triple (Inv w) (getMapping id) (fun m s => Inv w s ∧ s.registry.get? id = some m) E := by
  refine getMapping_found fun s h => ?_
  obtain ⟨m, hm, -⟩ := h.owned id ho
  exact ⟨m, hm⟩

/-- What a miss loads is the page of the file. -/
theorem load_absent (h : Inv (w.work id idx bs true false 0) s) (hm : s.registry.get? id = some m)
    (hc : s.clipped = false) :
    loadFrame m.backing.get idx m.logicalSize = window bs idx ∧
      window m.backing.get idx = window bs idx := by
  have hok := h.mappings id m hm
  have hmi := hok.mirrors hc
  have habs := hmi.absent idx (hok.missing idx rfl rfl)
  rw [World.work_contents] at habs
  refine ⟨?_, habs⟩
  rw [← habs]
  funext b
  show (if _ then _ else _) = m.backing.get (idx * pageSize + b)
  split
  · rfl
  · have hbk := hmi.backing
    exact (m.backing.beyond _ (by omega)).symm

/-- What is known of a page that was loaded. -/
def Loaded (bytes : Nat → Byte) (index : Nat) (zeroOnMiss : Bool) (page : CachedPage) : Prop :=
  zeroOnMiss = false → page.frame = window bytes index

theorem loadPage_spec (ho : w.owned id) (zeroOnMiss : Bool) :
    Triple (Inv (w.work id idx bs true false 0)) (loadPage id idx zeroOnMiss)
      (fun page s => Inv ((w.work id idx bs true false 0).learn (Loaded bs idx zeroOnMiss page)) s ∧
        page.state = .clean)
      (Fails (w.work id idx bs true false 0)) := by
  refine (writesBack_inv rfl).allocateFrame.bind fun _ => (getMapping_spec (w := w.work id idx bs true false 0) ho).bind fun m => ?_
  refine .bind .get fun t => ?_
  generalize hfm : (if zeroOnMiss then fun _ => 0 else loadFrame m.backing.get idx m.logicalSize) = f
  let q := Loaded bs idx zeroOnMiss ⟨t.nextPage, f, .clean, true⟩
  refine .bind (Q := fun _ => Inv ((w.work id idx bs true false 0).learn q))
    (.modify fun s h => ?_) fun _ => ?_
  · obtain ⟨rfl, hinv, hm⟩ := h
    refine (hinv.learn fun hc hz => ?_).of_eq rfl
    rw [hz] at hfm
    exact hfm.symm.trans (load_absent hinv hm hc).1
  · refine .fail (E := Fails ((w.work id idx bs true false 0).learn q)) ?_ fun _ _ => .unlearn
    refine (writesBack_inv rfl).reserve.bind fun _ => .bind (Q := fun _ => Inv ((w.work id idx bs true false 0).learn q))
      (.modify fun _ h => h.of_eq rfl) fun _ => ?_
    exact .pure fun _ h => ⟨h, rfl⟩

theorem publishPage_spec (ho : w.owned id) (zeroOnMiss : Bool) :
    Triple (Inv (w.work id idx bs true false 0)) (publishPage id idx zeroOnMiss)
      (fun _ s => Inv (w.work id idx bs false zeroOnMiss 0) s ∧ Holds id idx (fun _ => True) s)
      (Fails (w.work id idx bs true false 0)) := by
  refine (loadPage_spec ho zeroOnMiss).bind fun page => ?_
  refine .bind (Q := fun _ s => Inv (w.work id idx bs false zeroOnMiss 0) s ∧
    Holds id idx (fun _ => True) s) (.modify fun s h => ?_) fun _ => ?_
  · obtain ⟨hkn, hcl⟩ := h
    have hinv := hkn.unlearn
    obtain ⟨m, hm, -⟩ := hinv.owned id ho
    refine ⟨hinv.put hm rfl rfl rfl (fun k => SortedMap.get?_insert _ _ _ _) (fun _ _ => rfl) ?_ ?_, ?_⟩
    · rw [hcl]
      exact ⟨rfl, rfl, rfl, le_rfl⟩
    · exact fun hz hc => ⟨(hkn.known hc).2 hz, fun _ => (load_absent hinv hm hc).2⟩
    · exact .modify hm ((SortedMap.get?_insert _ _ _ _).trans (if_pos rfl)) trivial
  · exact .modify fun _ h => ⟨h.1.of_eq rfl, h.2⟩

theorem leasePage_spec {stale : Bool} :
    Triple (fun s => Inv (w.work id idx bs false stale 0) s ∧ Holds id idx (fun _ => True) s)
      (leasePage id idx)
      (fun page s => Inv (w.work id idx bs false stale 1) s ∧ Holds id idx (fun p => p = page) s) E := by
  refine (getMapping_found fun s h => ?_).bind fun m => ?_
  · obtain ⟨-, m, -, hm, -⟩ := h
    exact ⟨m, hm⟩
  · cases hp : m.pages.get? idx with
    | none =>
      refine .throw fun s ⟨⟨_, m', p, hm', hp', _⟩, hm⟩ => ?_
      rw [← some.inj (hm.symm.trans hm'), hp] at hp'
      exact nomatch hp'
    | some page =>
      cases hlease : page.state.takeLease with
      | error stop =>
        simp only [hlease]
        refine .throw fun s h => ?_
        have hid := h.1.1.target_idle h.2 hp
        simp [PageState.takeLease, hid.leases] at hlease
      | ok state =>
        simp only [hlease]
        have hsta := PageState.takeLease_eq hlease
        refine .bind (Q := fun _ s => Inv (w.work id idx bs false stale 1) s ∧
          Holds id idx (fun p => p = {page with state := state, referenced := true}) s)
          (.modify fun s h => ?_) fun _ => .pure fun _ h => h
        obtain ⟨⟨hinv, -⟩, hm⟩ := h
        have hid := hinv.target_idle hm hp
        refine ⟨hinv.put hm rfl rfl rfl (modifyPage_get _ hp) (fun _ _ => rfl) ?_ fun hfr hc => ?_, ?_⟩
        · rw [hsta]
          exact {hid with leases := congrArg (· + 1) hid.leases}
        · subst hfr
          have hpg := hinv.target_fresh hm hp hc
          rw [hsta]
          exact hpg
        · exact .modify hm ((modifyPage_get _ hp _).trans (if_pos rfl)) rfl

/-- An acquired page is leased; unless it is about to be overwritten, it holds the file. -/
theorem acquirePageInner_spec (hw : w.target = none) (ho : w.owned id) (zeroOnMiss : Bool) :
    Triple (Inv w) (acquirePageInner id idx zeroOnMiss)
      (fun page s => Inv (w.work id idx (w.contents id) false zeroOnMiss 1) s ∧
        Holds id idx (fun p => p = page) s) (Fails w) := by
  refine (getMapping_spec ho).bind fun m => ?_
  cases hp : m.pages.get? idx with
  | none =>
    refine .bind (.pre (.fail (publishPage_spec ho zeroOnMiss) fun e s h => h.leave hw)
      (fun s h => ?_)) fun _ => leasePage_spec
    · exact h.1.enter hw fun _ m' hm' => by rwa [← some.inj (h.2.symm.trans hm')]
  | some page =>
    refine leasePage_spec.pre (fun s h => ?_)
    exact ⟨h.1.enter hw nofun, m, page, h.2, hp, trivial⟩

/-- The lease of a page whose bytes are accounted for is dropped. -/
theorem dropLease_spec (hw : w.target = none) (bs : Nat → Byte) :
    Triple (fun s => Inv (w.work id idx bs false false 1) s ∧ Holds id idx (fun _ => True) s)
      (dropLease id idx) (fun _ => Inv (w.store id bs)) E := by
  refine .modify fun s ⟨hinv, m, p, hm, hp, _⟩ => ?_
  have hid := hinv.target_idle hm hp
  refine (hinv.put hm rfl rfl rfl (modifyPage_get _ hp) (fun _ _ => rfl) ?_ fun _ hc => ?_).leave hw
  · exact {hid with leases := congrArg (· - 1) hid.leases}
  · have hpg := hinv.target_fresh hm hp hc
    exact hpg

/-! ### Writing -/

/-- The leased page already has the bytes that the file gets. -/
def Copied (bytes : Nat → Byte) (id index : Nat) (page : CachedPage) (s : CacheManager) : Prop :=
  Holds id index (fun p => p.state = page.state ∧ (s.clipped = false → p.frame = window bytes index)) s

theorem markDirty_spec (page : CachedPage) :
    Triple (fun s => Inv (w.work id idx bs false true 1) s ∧ Copied bs id idx page s)
      (markDirty id idx page)
      (fun _ s => Inv (w.work id idx bs false false 1) s ∧ Holds id idx (fun _ => True) s) (Fails w) := by
  unfold markDirty
  cases hmark : page.state.markDirty with
  | error stop =>
    have hwo : stop = .panic ∧ 2 ^ 64 ≤ page.state.dirtySeq + 1 := by
      unfold PageState.markDirty at hmark
      split at hmark
      · cases hmark
      next hla =>
        exact ⟨(Except.error.inj hmark).symm, not_lt.mp hla⟩
    refine .throw fun s ⟨hinv, m, p, hm, hp, hsta, _⟩ => ?_
    rw [← hsta] at hwo
    rw [hwo.1]
    exact ⟨⟨id, idx, m, p, hm, hp, hwo.2⟩, hinv.known⟩
  | ok state =>
    have hma := PageState.markDirty_eq hmark
    refine .bind (Q := fun _ s => Inv (w.work id idx bs false false 1) s ∧
      Holds id idx (fun _ => True) s) (.modify fun s h => ?_) fun _ => ?_
    · obtain ⟨hinv, m, p, hm, hp, hsta, hfm⟩ := h
      have hid := hinv.target_idle hm hp
      rw [hsta] at hid
      refine ⟨hinv.put hm rfl rfl rfl (modifyPage_get _ hp) (fun _ _ => rfl) ?_ fun _ hc => ⟨hfm hc, ?_⟩, ?_⟩
      · rw [hma]
        exact {hid with persisted := Nat.le_succ_of_le hid.persisted}
      · intro hcl
        have hle := (PageState.isDirty_eq_false.mp hcl).1
        have hpe := hid.persisted
        simp only [hma] at hle
        omega
      · exact .modify hm ((modifyPage_get _ hp _).trans (if_pos rfl)) trivial
    · exact .modify fun _ h => ⟨h.1.of_eq rfl, h.2⟩

/-- A chunk laid over its page. -/
theorem copy_frame {frame : Frame} {f g : Nat → Byte}
    (hfm : span.fullPage = false → frame = window f span.index) :
    frame.writeBytes span.inPage span.length g =
      window (overlay f span.position span.length g) span.index := by
  rw [span.chunk_bounds.1, window_overlay_same]
  cases hfu : span.fullPage with
  | false => rw [hfm hfu]
  | true =>
    simp only [Span.fullPage, Bool.and_eq_true, beq_iff_eq] at hfu
    funext b
    simp only [Frame.writeBytes]
    rw [if_pos (by omega), if_pos (by omega)]

theorem writeChunk_spec (hw : w.target = none) (hs : w.stale = false) (ho : w.owned id)
    (src : Bytes Byte) (span : Span) :
    Triple (Inv w) (writeChunk id src span)
      (fun _ => Inv (w.store id (overlay (w.contents id) span.position span.length
        fun j => src.get (span.done + j)))) (Fails w) := by
  generalize hby : overlay (w.contents id) span.position span.length
    (fun j => src.get (span.done + j)) = bytes'
  refine (writesBack_inv hs).throttleDirty.bind fun _ => (acquirePageInner_spec hw ho span.fullPage).bind fun page => ?_
  refine .bind (Q := fun _ s => Inv (w.work id span.index bytes' false true 1) s ∧
    Copied bytes' id span.index page s) (.modify fun s h => ?_) fun _ => ?_
  · obtain ⟨hinv, m, p, hm, hp, rfl⟩ := h
    have hfm : s.clipped = false → p.frame.writeBytes span.inPage span.length
        (fun j => src.get (span.done + j)) = window bytes' span.index := by
      intro hc
      rw [← hby]
      refine copy_frame span fun hpa => ?_
      rw [hpa] at hinv
      exact (hinv.target_fresh hm hp hc).1
    have hid := hinv.target_idle hm hp
    refine ⟨hinv.put hm rfl rfl rfl (modifyPage_get _ hp) (fun k hk => ?_) hid nofun, ?_⟩
    · rw [← hby]
      have hbo := span.chunk_bounds
      exact window_overlay_other hk (by omega) (by omega)
    · exact .modify hm ((modifyPage_get _ hp _).trans (if_pos rfl)) ⟨rfl, hfm⟩
  · exact (markDirty_spec page).bind fun _ => dropLease_spec hw bytes'

/-- The world with the first bytes of a write in it. -/
def World.wrote (w : World) (id offset count : Nat) (source : Bytes Byte) : World :=
  w.store id (overlay (w.contents id) offset count source.get)

theorem World.wrote_zero (w : World) (id off : Nat) (src : Bytes Byte) :
    w.wrote id off 0 src = w := by
  rw [World.wrote, overlay_zero, World.store_self]

/-- The next chunk of a write. -/
theorem World.wrote_advance (w : World) (id : Nat) (src : Bytes Byte) (span : Span) :
    (w.wrote id span.offset span.done src).store id
        (overlay ((w.wrote id span.offset span.done src).contents id) span.position span.length
          fun j => src.get (span.done + j)) =
      w.wrote id span.offset span.advance.done src := by
  have hco : (w.wrote id span.offset span.done src).contents id =
      overlay (w.contents id) span.offset span.done src.get := by
    simp [World.wrote, World.store]
  rw [hco, Span.position, overlay_append, World.wrote, World.store_store]
  rfl

/-- A write stores what it reports, and it stops early only for want of memory. -/
theorem writeLoop_spec (hw : w.target = none) (hs : w.stale = false) (ho : w.owned id)
    (src : Bytes Byte) (fuel : Nat) : ∀ span : Span, span.done ≤ span.total → span.total - span.done ≤ fuel →
    Triple (Inv (w.wrote id span.offset span.done src)) (writeLoop id src fuel span)
      (fun n s => Inv (w.wrote id span.offset n src) s ∧ n ≤ span.total ∧ (n = span.total ∨ Starved w))
      (Fails w) := by
  induction fuel with
  | zero =>
    intro span hle hfu
    have hend : span.done = span.total := by omega
    exact .pure fun s h => ⟨h, hle, .inl hend⟩
  | succ fuel ih =>
    intro span hle hfu
    unfold writeLoop
    split
    next hmo =>
      have hlen := span.length_le
      have hpos := Span.length_pos hmo
      have hch := writeChunk_spec (w := w.wrote id span.offset span.done src) hw hs ho src span
      refine .bind hch.attempt fun r => ?_
      cases r with
      | ok _ =>
        rw [World.wrote_advance]
        refine ih span.advance ?_ ?_
        · show span.done + span.length ≤ span.total
          omega
        · show span.total - (span.done + span.length) ≤ fuel
          omega
      | error stop =>
        cases stop with
        | panic => exact .throw fun s h => h
        | error code =>
          show Triple _ (if span.done = 0 then _ else _) _ _
          by_cases hn : span.done = 0
          · rw [if_pos hn]
            refine .throw fun s h => ?_
            rw [hn, World.wrote_zero] at h
            exact h
          · rw [if_neg hn]
            exact .pure fun s h => ⟨h.1, hle, .inr h.2⟩
    · exact .pure fun s h => ⟨h, hle, .inl (by omega)⟩

/-! ### Reading -/

/-- The bytes a read has fetched so far are the file's. -/
def Fetched (contents : Nat → Byte) (offset count : Nat) (bytes : Nat → Byte) : Prop :=
  ∀ i, i < count → bytes i = contents (offset + i)

/-- The next chunk of a read. -/
theorem fetch_chunk {contents bs : Nat → Byte} {f : Frame}
    (hby : Fetched contents span.offset span.done bs)
    (hfm : ∀ b : Fin pageSize, span.index * pageSize + b < span.position + span.length →
      f b = contents (span.index * pageSize + b)) :
    Fetched contents span.offset span.advance.done
      (overlay bs span.done span.length fun j => f.readByte (span.inPage + j)) := by
  intro i hi
  have hi : i < span.done + span.length := hi
  obtain ⟨hpo, hpg⟩ := span.chunk_bounds
  have hst : span.position = span.offset + span.done := rfl
  by_cases hnew : span.done ≤ i
  · have hin : span.inPage + (i - span.done) < pageSize := by omega
    rw [overlay_inside ⟨hnew, hi⟩, Frame.readByte, dif_pos hin, hfm _ (by show _ + (_ + _) < _; omega)]
    congr 1
    show span.index * pageSize + (span.inPage + (i - span.done)) = _
    omega
  · rw [overlay_outside (by omega)]
    exact hby i (by omega)

/-- A read returns what the file has. -/
theorem readLoop_spec (hw : w.target = none) (ho : w.owned id) (fuel : Nat) :
    ∀ span bs, span.done ≤ span.total → span.total - span.done ≤ fuel →
    Triple (Inv (w.learn (Fetched (w.contents id) span.offset span.done bs))) (readLoop id fuel span bs)
      (fun r => Inv (w.learn (Fetched (w.contents id) span.offset span.total r))) (Fails w) := by
  induction fuel with
  | zero =>
    intro span bs hle hfu
    have hend : span.done = span.total := by omega
    exact .pure fun s h => hend ▸ h
  | succ fuel ih =>
    intro span bs hle hfu
    unfold readLoop
    split_ifs with hmo
    · have hlen := span.length_le
      have hpos := Span.length_pos hmo
      let W := w.learn (Fetched (w.contents id) span.offset span.done bs)
      refine .bind (.fail (acquirePageInner_spec (w := W) hw ho false) fun _ _ => .unlearn)
        fun page => ?_
      let q := page.frame = window (w.contents id) span.index
      refine .bind (.imp (dropLease_spec (w := W.learn q) hw (w.contents id)) (fun s h => ?_) fun _ s h => ?_)
        fun _ => ih span.advance _ ?_ ?_
      · obtain ⟨hinv, m, p, hm, hp, rfl⟩ := h
        exact ⟨hinv.learn fun hc => (hinv.target_fresh hm hp hc).1, m, p, hm, hp, trivial⟩
      · have hinv : Inv (W.learn q) s := by
          rw [← World.store_self (W.learn q) id]
          exact h
        refine hinv.unlearn.unlearn.learn fun hc => ?_
        exact fetch_chunk span (hinv.known hc).1.2 fun b _ => congrFun (hinv.known hc).2 b
      · show span.done + span.length ≤ span.total
        omega
      · show span.total - (span.done + span.length) ≤ fuel
        omega
    · have hend : span.done = span.total := by omega
      exact .pure fun s h => hend ▸ h

end Pages

end StarryX.Cache.Manager
