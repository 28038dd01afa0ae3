import StarryX.Cache.Leases

/-! What concurrent calls on one mapping keep.

Between a full-page write publishing a zeroed page and filling it, that page holds bytes
nobody wrote; everywhere else a resident frame is the file's contents, a clean or absent
page is the backing's, and a writeback that is still current carries the contents.

Three things can break this. A writeback may sample the size before a write that has
already copied past it publishes its end; a sync may cut the backing to a size sampled
before another write extended the file; and a full-page write may run out of memory after
its zeroed page was dirtied, written back and reclaimed. `covered` forbids exactly these
steps. `sync_keeps_persisted` and `read_sees_old_or_new` hold in every run without them, the
second if no read copies from a page that is still to be filled; `sync_truncates_persisted`
and `read_sees_unwritten_zeros` are runs with one such step. -/
namespace StarryX.Cache.Concurrent
open Library DirtySequence Function

variable {p q : Phase}

open Phase (clips fetched reading refills result)

section Sizes
variable {ι : Type} [Fintype ι] [DecidableEq ι] {s t : State ι} {i : ι}

/-! ### Sizes and samples -/

/-- The file as it was last written, byte by byte. -/
def State.file (s : State ι) : Nat → Byte := contents s.start s.history

/-- The backing never outgrows the logical size, a sample never does, what lies past a
writeback's sample is zero in the backing, and bytes past the logical size are either
zero or of an unfinished write. -/
structure Sizes (s : State ι) : Prop where
  backing : s.backing.size ≤ s.logicalSize
  cut : ∀ i n, (s.phase i).cut = some n → n ≤ s.logicalSize
  clip : ∀ i o f n, (s.phase i).clips = some (o, f, n) → ∀ b : Fin pageSize,
    n ≤ (s.page o).index * pageSize + b → s.backing.get ((s.page o).index * pageSize + b) = 0
  written : ∀ x, s.logicalSize ≤ x → s.file x = 0 ∨
    ∃ j span, (s.phase j).written = some span ∧ span.offset ≤ x ∧ x < span.offset + span.done

omit [Fintype ι] [DecidableEq ι] in
theorem initial_sizes (file : Bytes Byte) : Sizes (initial file : State ι) where
  backing := le_rfl
  cut := nofun
  clip := nofun
  written := fun x hx => .inl (file.beyond x hx)

theorem clips_flight {o n : Nat} {f : Flight Frame} (h : p.clips = some (o, f, n)) : p.flight = some (o, f) := by
  unfold clips at h
  split at h
  · cases h
    rfl
  · cases h

omit [Fintype ι] in
theorem written_keep (hph : t.phase = update s.phase i q) {x : Nat}
    (hq : ∀ span, (s.phase i).written = some span → 0 < span.done → q.written = some span)
    (h : ∃ j span, (s.phase j).written = some span ∧ span.offset ≤ x ∧ x < span.offset + span.done) :
    ∃ j span, (t.phase j).written = some span ∧ span.offset ≤ x ∧ x < span.offset + span.done := by
  obtain ⟨j, span, hj, hle, hlt⟩ := h
  refine ⟨j, span, ?_, hle, hlt⟩
  rw [hph]
  by_cases hji : j = i
  · subst hji
    rw [update_self]
    exact hq span hj (by omega)
  · rwa [update_of_ne hji]

omit [Fintype ι] in
/-- One thread moves; sizes, backing and file stay. -/
theorem Sizes.move (h : Sizes s) (hph : t.phase = update s.phase i q)
    (hpg : ∀ j o f, (s.phase j).flight = some (o, f) → (t.page o).index = (s.page o).index)
    (heq : t.backing = s.backing ∧ t.logicalSize = s.logicalSize ∧ t.file = s.file)
    (hcut : ∀ n, q.cut = some n → n ≤ s.logicalSize)
    (hcl : ∀ o f n, q.clips = some (o, f, n) → (s.phase i).flight = some (o, f) ∧ n = s.logicalSize)
    (hwr : ∀ span, (s.phase i).written = some span → 0 < span.done → q.written = some span) : Sizes t := by
  obtain ⟨hbk, hsz, hfi⟩ := heq
  refine ⟨?_, fun j n hj => ?_, fun j o f n hj b hb => ?_, fun x hx => ?_⟩
  · rw [hbk, hsz]
    exact h.backing
  · rw [hph] at hj
    rw [hsz]
    obtain ⟨-, hq⟩ | ⟨-, hj⟩ := update_map_cases Phase.cut hj
    · exact hcut n hq
    · exact h.cut j n hj
  · rw [hph] at hj
    rw [hbk]
    obtain ⟨-, hq⟩ | ⟨-, hj⟩ := update_map_cases clips hj
    · obtain ⟨hfl, rfl⟩ := hcl o f n hq
      have hle := h.backing
      exact s.backing.beyond _ (by omega)
    · rw [hpg j o f (clips_flight hj)] at hb ⊢
      exact h.clip j o f n hj b hb
  · rw [hsz] at hx
    rw [hfi]
    exact (h.written x hx).imp_right (written_keep hph hwr)

omit [Fintype ι] in
/-- The same for a thread known to be at `p`, going where no sample is held. -/
theorem Sizes.at (h : Sizes s) (hp : s.phase i = p) (hph : t.phase = update s.phase i q)
    (hpg : ∀ j o f, (s.phase j).flight = some (o, f) → (t.page o).index = (s.page o).index)
    (heq : t.backing = s.backing ∧ t.logicalSize = s.logicalSize ∧ t.file = s.file)
    (hcut : q.cut = none ∧ q.clips = none)
    (hwr : ∀ span, p.written = some span → 0 < span.done → q.written = some span) : Sizes t := by
  subst hp
  exact h.move hph hpg heq (fun n hn => nomatch hcut.1.symm.trans hn)
    (fun o f n hn => nomatch hcut.2.symm.trans hn) hwr

omit [Fintype ι] [DecidableEq ι] in
/-- A section of a page's lock leaves its place, its frame and its count of stores. -/
theorem setState_page (s : State ι) (o : Nat) (state : PageState) (o' : Nat) :
    ((setState s o state).page o').index = (s.page o').index ∧
      ((setState s o state).page o').frame = (s.page o').frame ∧
      ((setState s o state).page o').stores = (s.page o').stores := by
  by_cases ho : o' = o
  · subst ho
    simp [setState, setPage]
  · simp [setState, setPage, ho]

omit [Fintype ι] [DecidableEq ι] in
theorem writeChunk_index (s : State ι) (w : Writing) (o o' : Nat) :
    ((writeChunk s w o).page o').index = (s.page o').index := by
  by_cases ho : o' = o
  · subst ho
    simp [writeChunk, setPage]
  · simp [writeChunk, setPage, ho]

theorem Sizes.effect (hsh : Shape s) (h : Sizes s) (heff : Effect s i t) : Sizes t := by
  cases heff with
  | same => exact h
  | move q quiet | refuse att outcome q quiet | abandon idx att outcome q quiet slot =>
    exact h.move rfl (fun _ _ _ _ => rfl) ⟨rfl, rfl, rfl⟩ (fun n hn => nomatch quiet.cut.symm.trans hn)
      (fun o f n hn => nomatch quiet.clips.symm.trans hn) quiet.written
  | «open» _ _ at_ | finish _ at_ _ | readChunk _ _ at_ =>
    exact h.at at_ rfl (fun _ _ _ _ => rfl) ⟨rfl, rfl, rfl⟩ ⟨rfl, rfl⟩ nofun
  | reserve _ at_ _ | size _ _ at_ | fetch _ _ _ at_ =>
    exact h.at at_ rfl (fun _ _ _ _ => rfl) ⟨rfl, rfl, rfl⟩ ⟨rfl, rfl⟩ fun _ h _ => h
  | publish job att frame at_ slot =>
    refine h.at at_ rfl (fun j o f hj => ?_) ⟨rfl, rfl, rfl⟩ ⟨rfl, rfl⟩ fun _ h _ => ?_
    · have hlt := (hsh.resident _ o (hsh.flown hj)).1
      exact congrArg Page.index (update_of_ne hlt.ne _ _)
    · cases job <;> exact h
  | lease _ obj _ at_ _ _ | mark _ obj _ at_ _ | drop _ obj at_ | claim obj _ _ at_ _ =>
    exact h.at at_ rfl (fun _ o _ _ => (setState_page s obj _ o).1) ⟨rfl, rfl, rfl⟩ ⟨rfl, rfl⟩ fun _ h _ => h
  | report obj flight task at_ =>
    refine h.at at_ rfl (fun _ o _ _ => (setState_page s obj _ o).1) ⟨rfl, rfl, rfl⟩
      ⟨task.resume_bare.cut, task.resume_bare.clips⟩ fun span hsn _ => ?_
    rw [task.resume_owes.1]
    exact hsn
  | reclaim idx obj slot free => exact {h with}
  | target at_ =>
    refine h.move rfl (fun _ _ _ _ => rfl) ⟨rfl, rfl, rfl⟩ (fun n hn => ?_) nofun (by rw [at_]; nofun)
    cases hn
    exact le_rfl
  | sample obj flight task at_ covers =>
    refine h.move rfl (fun _ _ _ _ => rfl) ⟨rfl, rfl, rfl⟩ (fun n hn => ?_) (fun o f n hn => ?_) ?_
    · cases hn
      exact le_rfl
    · cases hn
      rw [at_]
      exact ⟨rfl, rfl⟩
    · rw [at_]
      exact fun _ h _ => h
  | extend w at_ =>
    have hph : (goto {s with logicalSize := max s.logicalSize (w.span.offset + w.span.done)} i .idle).phase =
      update s.phase i .idle := rfl
    refine ⟨h.backing.trans (Nat.le_max_left _ _), fun j n hj => ?_, fun j o f n hj => ?_, fun x hx => ?_⟩
    · obtain ⟨-, hj⟩ := update_map_ne Phase.cut hj nofun
      exact (h.cut j n hj).trans (Nat.le_max_left _ _)
    · obtain ⟨-, hj⟩ := update_map_ne clips hj nofun
      exact h.clip j o f n hj
    · replace hx : max s.logicalSize (w.span.offset + w.span.done) ≤ x := hx
      refine (h.written x (by omega)).imp_right fun ⟨j, span, hj, hle, hlt⟩ => ?_
      refine ⟨j, span, ?_, hle, hlt⟩
      rw [hph, update_of_ne]
      · exact hj
      · rintro rfl
        rw [at_] at hj
        cases hj
        omega
  | setLen len at_ covers =>
    have hcut := h.cut i len (by rw [at_]; rfl)
    refine ⟨hcut, fun j n hj => ?_, fun j o f n hj b hb => ?_, fun x hx => ?_⟩
    · obtain ⟨-, hj⟩ := update_map_ne Phase.cut hj nofun
      exact h.cut j n hj
    · obtain ⟨-, hj⟩ := update_map_ne clips hj nofun
      exact (Bytes.setLen_get covers _).trans (h.clip j o f n hj b hb)
    · exact (h.written x hx).imp_right (written_keep rfl (by rw [at_]; nofun))
  | land obj flight len task at_ =>
    have hfl : (s.phase i).flight = some (obj, flight) := by rw [at_]; rfl
    have hcut := h.cut i len (by rw [at_]; rfl)
    have hbk := h.backing
    refine ⟨?_, fun j n hj => ?_, fun j o f n hj b hb => ?_, fun x hx => ?_⟩
    · exact writeSnapshot_size.trans (Nat.max_le.mpr ⟨hbk, hcut⟩)
    · obtain ⟨-, hj⟩ := update_map_ne Phase.cut hj nofun
      exact h.cut j n hj
    · obtain ⟨hji, hj⟩ := update_map_ne clips hj nofun
      have hne : (s.page o).index ≠ (s.page obj).index := by
        intro hix
        have heq := (hsh.flown hfl).symm.trans (hix ▸ hsh.flown (clips_flight hj))
        cases heq
        exact hji (hsh.flight_unique (clips_flight hj) hfl)
      exact (window_eq_iff.mp (writeSnapshot_other hne) b).trans (h.clip j o f n hj b hb)
    · exact (h.written x hx).imp_right (written_keep rfl (by rw [at_]; exact fun _ h _ => h))
  | copy w obj at_ =>
    refine ⟨h.backing, fun j n hj => ?_, fun j o f n hj b hb => ?_, fun x hx => ?_⟩
    · obtain ⟨-, hj⟩ := update_map_ne Phase.cut hj nofun
      exact h.cut j n hj
    · obtain ⟨-, hj⟩ := update_map_ne clips hj nofun
      have hix : ((goto (writeChunk s w obj) i (.copied w obj)).page o).index = (s.page o).index :=
        writeChunk_index s w obj o
      rw [hix] at hb ⊢
      exact h.clip j o f n hj b hb
    · have hco : ((goto (writeChunk s w obj) i (.copied w obj)).phase i).written =
          some w.span.advance := by simp [goto, Phase.written]
      by_cases hin : w.span.position ≤ x ∧ x < w.span.position + w.span.length
      · refine .inr ⟨i, w.span.advance, hco, ?_, ?_⟩ <;>
          simp only [Span.position, Span.advance] at hin ⊢ <;> omega
      · have hfi : (goto (writeChunk s w obj) i (.copied w obj)).file x = s.file x :=
          overlay_outside hin
        rw [hfi]
        refine (h.written x hx).imp_right fun ⟨j, span, hj, hle, hlt⟩ => ?_
        by_cases hji : j = i
        · subst hji
          rw [at_] at hj
          cases hj
          exact ⟨j, _, hco, hle, by simp only [Span.advance]; omega⟩
        · exact ⟨j, span, by simpa [goto, writeChunk, setPage, hji] using hj, hle, hlt⟩

end Sizes

/-! ### Bytes -/

variable {k : Nat} {f : Frame}

section Bytes
variable {ι : Type} {s : State ι}

/-- What a thread standing at `p` carries is right, unless its page is being refilled: the
snapshot of a current flight is the file, and so is the backing once it has landed; past a
sampled size the file is zero; and a loader has the file's bytes. -/
structure Carries (s : State ι) (p : Phase) : Prop where
  flying : ∀ o f, p.flight = some (o, f) → ¬s.Refilling (s.page o).index → f.stores = (s.page o).stores →
    f.snapshot = window s.file (s.page o).index ∧
      (f.outcome = some true → window s.backing.get (s.page o).index = window s.file (s.page o).index)
  clipped : ∀ o f n, p.clips = some (o, f, n) → ¬s.Refilling (s.page o).index →
    f.stores = (s.page o).stores → ∀ b : Fin pageSize, n ≤ (s.page o).index * pageSize + b →
    s.file ((s.page o).index * pageSize + b) = 0
  landed : ∀ o f task, p = .wrote o f task → f.outcome = some true
  attempts : ∀ k a, p.loads = some (k, a) → a < s.nextAttempt
  sized : ∀ k a n, p.sized = some (k, a, n) → s.slot k = .loading a → ¬s.Refilling k →
    ∀ b : Fin pageSize, n ≤ k * pageSize + b → s.file (k * pageSize + b) = 0
  fetched : ∀ k a frame, p.fetched = some (k, a, frame) → s.slot k = .loading a → ¬s.Refilling k →
    frame = window s.file k

/-- A resident frame is the file, and a clean or absent page is the backing, unless the page
is being refilled. -/
structure Data (s : State ι) : Prop where
  frames : ∀ k o, s.slot k = .resident o → ¬s.Refilling k → (s.page o).frame = window s.file k
  clean : ∀ k o, s.slot k = .resident o → ¬s.Refilling k → (s.page o).state.isDirty = false →
    ¬s.Pending o → window s.backing.get k = window s.file k
  absent : ∀ k, (∀ o, s.slot k ≠ .resident o) → ¬s.Refilling k → window s.backing.get k = window s.file k
  threads : ∀ i, Carries s (s.phase i)

theorem Carries.bare (hfl : p.flight = none) (hcl : p.clips = none) (hlo : p.loads = none)
    (hsi : p.sized = none) (hfe : p.fetched = none) (hwr : ∀ o f task, p ≠ .wrote o f task) : Carries s p where
  flying := fun _ _ h => nomatch hfl.symm.trans h
  clipped := fun _ _ _ h => nomatch hcl.symm.trans h
  landed := fun o f task h => absurd h (hwr o f task)
  attempts := fun _ _ h => nomatch hlo.symm.trans h
  sized := fun _ _ _ h => nomatch hsi.symm.trans h
  fetched := fun _ _ _ h => nomatch hfe.symm.trans h

theorem Bare.carries (h : Bare p) : Carries s p := by
  refine .bare h.flight h.clips h.loads h.sized h.fetched ?_
  rintro o f task rfl
  cases h.flight

theorem initial_data (file : Bytes Byte) : Data (initial file : State ι) where
  frames := nofun
  clean := nofun
  absent := fun _ _ _ => rfl
  threads := fun _ => Bare.carries (by constructor <;> rfl)

variable {s t : State ι} {i : ι}

theorem loads_of_sized {a n : Nat} (h : p.sized = some (k, a, n)) : p.loads = some (k, a) := by
  unfold Phase.sized at h
  split at h
  · cases h
    rfl
  · cases h

theorem loads_of_fetched {a : Nat} (h : p.fetched = some (k, a, f)) : p.loads = some (k, a) := by
  unfold fetched at h
  split at h
  · split at h
    · cases h
    · cases h
      rfl
  · cases h

/-- What a change of the shared state has to keep for a thread that stays where it is. -/
structure Steady (s t : State ι) (p : Phase) : Prop where
  file : t.file = s.file
  backing : t.backing.get = s.backing.get
  page : ∀ o f, p.flight = some (o, f) → (t.page o).index = (s.page o).index ∧ (t.page o).stores = (s.page o).stores
  attempts : s.nextAttempt ≤ t.nextAttempt
  slot : ∀ k a, t.slot k = .loading a → s.slot k = .loading a ∨ s.nextAttempt ≤ a
  refilling : ∀ k, s.Refilling k → t.Refilling k

theorem Carries.steady (hsdy : Steady s t p) (h : Carries s p) : Carries t p where
  flying := by
    intro o f hf hre hst
    obtain ⟨hix, hct⟩ := hsdy.page o f hf
    rw [hix] at hre ⊢
    rw [hsdy.file, hsdy.backing]
    exact h.flying o f hf (mt (hsdy.refilling _) hre) (hst.trans hct)
  clipped := by
    intro o f n hcl hre hst b hb
    obtain ⟨hix, hct⟩ := hsdy.page o f (clips_flight hcl)
    rw [hix] at hre hb ⊢
    rw [hsdy.file]
    exact h.clipped o f n hcl (mt (hsdy.refilling _) hre) (hst.trans hct) b hb
  landed := h.landed
  attempts := fun k a hlo => (h.attempts k a hlo).trans_le hsdy.attempts
  sized := by
    intro k a n hsi hsl hre
    rw [hsdy.file]
    obtain hs | hfr := hsdy.slot k a hsl
    · exact h.sized k a n hsi hs (mt (hsdy.refilling _) hre)
    · exact absurd (h.attempts k a (loads_of_sized hsi)) (by omega)
  fetched := by
    intro k a frame hfe hsl hre
    rw [hsdy.file]
    obtain hs | hfr := hsdy.slot k a hsl
    · exact h.fetched k a frame hfe hs (mt (hsdy.refilling _) hre)
    · exact absurd (h.attempts k a (loads_of_fetched hfe)) (by omega)

/-- A quiet move gives up what it carried or keeps it. -/
theorem Carries.quiet (hq : Quiet p q) (h : Carries s p) : Carries s q where
  flying := fun _ _ hf => nomatch hq.flight.1.symm.trans hf
  clipped := fun _ _ _ hc => nomatch hq.clips.symm.trans hc
  landed := by
    rintro o f task rfl
    cases hq.flight.1
  attempts := by
    intro k a hlo
    obtain heq | hno := hq.loads
    · exact h.attempts k a (heq.symm.trans hlo)
    · cases hno.symm.trans hlo
  sized := fun _ _ _ hs => nomatch hq.sized.symm.trans hs
  fetched := fun _ _ _ hf => nomatch hq.fetched.symm.trans hf

variable [DecidableEq ι]

theorem refilling_keep (hph : t.phase = update s.phase i q)
    (hq : (s.phase i).refills = some k → q.refills = some k) (h : s.Refilling k) : t.Refilling k := by
  obtain ⟨j, hj⟩ := h
  refine ⟨j, ?_⟩
  rw [hph]
  by_cases hji : j = i
  · subst hji
    rw [update_self]
    exact hq hj
  · rwa [update_of_ne hji]

/-- One thread moves, the tree, the file and the backing stay, and pages change at most in
their state. -/
theorem Data.move (h : Data s) (hph : t.phase = update s.phase i q)
    (heq : t.file = s.file ∧ t.backing.get = s.backing.get ∧ t.slot = s.slot ∧ t.nextAttempt = s.nextAttempt)
    (hpg : ∀ o, (t.page o).index = (s.page o).index ∧ (t.page o).frame = (s.page o).frame ∧
      (t.page o).stores = (s.page o).stores) (hrf : ∀ k, (s.phase i).refills = some k → q.refills = some k)
    (hcl : ∀ k o, s.slot k = .resident o → ¬s.Refilling k → (t.page o).state.isDirty = false →
      ¬t.Pending o → window s.backing.get k = window s.file k) (hca : Carries s q) : Data t := by
  obtain ⟨hfi, hbk, hsl, hat⟩ := heq
  have hkp : ∀ k, s.Refilling k → t.Refilling k := fun k => refilling_keep hph (hrf k)
  have hsdy : ∀ p, Steady s t p := fun p =>
    ⟨hfi, hbk, fun o f _ => ⟨(hpg o).1, (hpg o).2.2⟩, hat.symm.le,
      fun k a hk => .inl (hsl ▸ hk), hkp⟩
  refine ⟨fun k o hk hr => ?_, fun k o hk hr => ?_, fun k hk hr => ?_, fun j => ?_⟩
  · rw [hsl] at hk
    rw [(hpg o).2.1, hfi]
    exact h.frames k o hk (mt (hkp k) hr)
  · rw [hsl] at hk
    rw [hfi, hbk]
    exact hcl k o hk (mt (hkp k) hr)
  · rw [hsl] at hk
    rw [hfi, hbk]
    exact h.absent k hk (mt (hkp k) hr)
  · rw [hph]
    by_cases hji : j = i
    · subst hji
      rw [update_self]
      exact hca.steady (hsdy q)
    · rw [update_of_ne hji]
      exact (h.threads j).steady (hsdy _)

end Bytes

variable {obj : Nat} {job : Job}

section BytesKept
variable {ι : Type} [Fintype ι] [DecidableEq ι] {s t : State ι} {i : ι} {x : Slot}

omit [Fintype ι] in
/-- A move that touches no page's state. -/
theorem Data.stay (h : Data s) (hp : s.phase i = p) (hph : t.phase = update s.phase i q)
    (heq : t.file = s.file ∧ t.backing.get = s.backing.get ∧ t.slot = s.slot ∧ t.nextAttempt = s.nextAttempt)
    (hpg : t.page = s.page) (hrf : ∀ k, p.refills = some k → q.refills = some k)
    (hstd : q.stored = p.stored) (hca : Carries s q) : Data t := by
  subst hp
  refine h.move hph heq (fun o => by rw [hpg]; exact ⟨rfl, rfl, rfl⟩) hrf
    (fun k o hk hr hcl hpe => ?_) hca
  rw [hpg] at hcl
  exact h.clean k o hk hr hcl (mt (pending_keep hph hstd.trans) hpe)

omit [Fintype ι] in
/-- A section of a page's lock after which the page is clean only if it was. -/
theorem Data.section (h : Data s) {o : Nat} {state : PageState} (hp : s.phase i = p)
    (hrf : ∀ k, p.refills = some k → q.refills = some k) (hca : Carries s q)
    (hstd : ∀ o', o' ≠ o → p.stored = some o' → q.stored = some o')
    (hcl : ∀ k, s.slot k = .resident o → ¬s.Refilling k → state.isDirty = false →
      ¬(goto (setState s o state) i q).Pending o → window s.backing.get k = window s.file k) :
    Data (goto (setState s o state) i q) := by
  subst hp
  refine h.move rfl ⟨rfl, rfl, rfl, rfl⟩ (setState_page s o state) hrf (fun k o' hk hr hd hpe => ?_)
    hca
  by_cases ho : o' = o
  · subst ho
    refine hcl k hk hr ?_ hpe
    simpa [goto, setState, setPage] using hd
  · refine h.clean k o' hk hr ?_ (mt (pending_keep rfl (hstd o' ho)) hpe)
    simpa [goto, setState, setPage, ho] using hd

omit [Fintype ι] [DecidableEq ι] in
/-- While a page is loading or absent and not being refilled, the file past the logical size
is zero there. -/
theorem Data.zero_past_size (h : Data s) (hszs : Sizes s) (hk : ∀ o, s.slot k ≠ .resident o) (hr : ¬s.Refilling k)
    (b : Fin pageSize) (hb : s.logicalSize ≤ k * pageSize + b) : s.file (k * pageSize + b) = 0 := by
  have hbk := hszs.backing
  rw [← window_eq_iff.mp (h.absent k hk hr) b]
  exact s.backing.beyond _ (by omega)

omit [Fintype ι] [DecidableEq ι] in
/-- A covered sample leaves nothing of its page past it. -/
theorem Sizes.zero_past_sample (h : Sizes s) (covers : ∀ j, (s.phase j).copiedPast k s.logicalSize = false)
    (b : Fin pageSize) (hb : s.logicalSize ≤ k * pageSize + b) : s.file (k * pageSize + b) = 0 := by
  obtain h0 | ⟨j, span, hj, hle, hlt⟩ := h.written _ hb
  · exact h0
  · have hco := covers j
    simp only [Phase.copiedPast, hj, decide_eq_false_iff_not, Nat.add_mul] at hco
    omega

theorem Data.copy (hsh : Shape s) (h : Data s) {w : Writing} (hp : s.phase i = .leased (.write w) obj) :
    Data (goto (writeChunk s w obj) i (.copied w obj)) := by
  obtain ⟨hpo, hbo⟩ := w.span.chunk_bounds
  have hix : (s.page obj).index = w.span.index := hsh.uses i _ _ (by rw [hp]; rfl)
  have hsl : s.slot w.span.index = .resident obj := by
    rw [← hix]
    exact hsh.held (by rw [hp]; rfl)
  set u := goto (writeChunk s w obj) i (.copied w obj) with hu
  have hoth : ∀ k, k ≠ w.span.index → window u.file k = window s.file k := by
    intro k hk
    refine window_overlay_other hk ?_ ?_
    · show w.span.index * pageSize ≤ w.span.position
      omega
    · show w.span.position + w.span.length ≤ _
      omega
  have hkp : ∀ k, k ≠ w.span.index → s.Refilling k → u.Refilling k := by
    intro k hk
    refine refilling_keep rfl fun hr => ?_
    rw [hp] at hr
    simp only [refills, Job.refills, Option.ite_none_right_eq_some] at hr
    exact absurd (Option.some.inj hr.2).symm hk
  have hpe : u.Pending obj := ⟨i, by simp [hu, goto, Phase.stored]⟩
  have hpg : ∀ o, o ≠ obj → u.page o = s.page o := by
    intro o ho
    simp [hu, goto, writeChunk, setPage, ho]
  refine ⟨fun k o hk hr => ?_, fun k o hk hr hd hn => ?_, fun k hk hr => ?_, fun j => ?_⟩
  · by_cases hkw : k = w.span.index
    · subst hkw
      cases hsl.symm.trans hk
      have hfm : (u.page obj).frame =
          (s.page obj).frame.writeBytes w.span.inPage w.span.length w.copy.bytes := by
        simp [hu, goto, writeChunk, setPage]
      have hfi : window u.file w.span.index =
          (window s.file w.span.index).writeBytes w.span.inPage w.span.length w.copy.bytes := by
        rw [← window_overlay_same, ← hpo]
        rfl
      rw [hfm, hfi]
      by_cases hs : s.Refilling w.span.index
      · -- Only this thread can have been refilling the page, so its chunk is the whole page.
        obtain ⟨j, hj⟩ := hs
        have hji : j = i := by
          by_contra hji
          exact hr ⟨j, by simpa [hu, goto, writeChunk, setPage, hji] using hj⟩
        subst hji
        rw [hp] at hj
        simp only [refills, Job.refills, Option.ite_none_right_eq_some, Span.fullPage,
          Bool.and_eq_true, beq_iff_eq] at hj
        funext b
        simp [Frame.writeBytes, hj.1.2.1, hj.1.2.2]
      · rw [h.frames _ _ hk hs]
    · have ho : o ≠ obj := by
        rintro rfl
        exact hkw ((hsh.resident k _ hk).2.symm.trans hix)
      rw [hpg o ho, hoth k hkw]
      exact h.frames k o hk (mt (hkp k hkw) hr)
  · have ho : o ≠ obj := by
      rintro rfl
      exact hn hpe
    have hkw : k ≠ w.span.index := by
      rintro rfl
      cases hsl.symm.trans hk
      exact ho rfl
    rw [hoth k hkw]
    rw [hpg o ho] at hd
    refine h.clean k o hk (mt (hkp k hkw) hr) hd (mt (pending_keep rfl ?_) hn)
    rw [hp]
    rintro ⟨⟩
  · have hkw : k ≠ w.span.index := by
      rintro rfl
      exact hk obj hsl
    rw [hoth k hkw]
    exact h.absent k hk (mt (hkp k hkw) hr)
  · have hca : Carries u (s.phase j) := by
      have hj := h.threads j
      have hst : ∀ f, (s.phase j).flight = some (obj, f) → f.stores ≠ (u.page obj).stores := by
        intro f hf
        have hss : (u.page obj).stores = (s.page obj).stores + 1 := by
          simp [hu, goto, writeChunk, setPage]
        rw [hss]
        exact (hsh.claimed j obj f hf).overtaken
      have hfar : ∀ o f, (s.phase j).flight = some (o, f) → o ≠ obj → (s.page o).index ≠ w.span.index := by
        intro o f hf ho hi
        have hres := hsh.flown hf
        rw [hi, hsl] at hres
        cases hres
        exact ho rfl
      have hlo : ∀ k a, s.slot k = .loading a → k ≠ w.span.index := by
        rintro k a hk rfl
        cases hsl.symm.trans hk
      refine ⟨fun o f hf hr hs => ?_, fun o f n hc hr hs b hb => ?_, hj.landed, hj.attempts,
        fun k a n hz hk hr b hb => ?_, fun k a frame hf hk hr => ?_⟩
      · by_cases ho : o = obj
        · subst ho
          exact absurd hs (hst f hf)
        · have hkw := hfar o f hf ho
          rw [hpg o ho] at hr hs ⊢
          rw [hoth _ hkw]
          exact hj.flying o f hf (mt (hkp _ hkw) hr) hs
      · by_cases ho : o = obj
        · subst ho
          exact absurd hs (hst f (clips_flight hc))
        · have hkw := hfar o f (clips_flight hc) ho
          rw [hpg o ho] at hr hs hb ⊢
          rw [window_eq_iff.mp (hoth _ hkw) b]
          exact hj.clipped o f n hc (mt (hkp _ hkw) hr) hs b hb
      · have hkw := hlo k a hk
        rw [window_eq_iff.mp (hoth _ hkw) b]
        exact hj.sized k a n hz hk (mt (hkp _ hkw) hr) b hb
      · have hkw := hlo k a hk
        rw [hoth _ hkw]
        exact hj.fetched k a frame hf hk (mt (hkp _ hkw) hr)
    by_cases hji : j = i
    · subst hji
      have hq : u.phase j = .copied w obj := by simp [hu, goto]
      rw [hq]
      refine .bare rfl rfl rfl rfl rfl ?_
      rintro o f task ⟨⟩
    · have hq : u.phase j = s.phase j := by simp [hu, goto, writeChunk, setPage, hji]
      rw [hq]
      exact hca

/-- Writing a snapshot out: the page it belongs to stays dirty until the report. -/
theorem Data.land (hsh : Shape s) (hszs : Sizes s) (h : Data s) {len : Nat} {flight : Flight Frame}
    {task : Task} (hp : s.phase i = .sampled obj flight len task) :
    Data (goto {s with backing := writeSnapshot s.backing (s.page obj).index len flight.snapshot} i
      (.wrote obj {flight with outcome := some true} task)) := by
  have hfl : (s.phase i).flight = some (obj, flight) := by rw [hp]; rfl
  have hcl : (s.phase i).clips = some (obj, flight, len) := by rw [hp]; rfl
  have hres := hsh.flown hfl
  have hdi := (hsh.claimed i obj flight hfl).dirty
  set u := goto {s with backing := writeSnapshot s.backing (s.page obj).index len flight.snapshot} i
    (.wrote obj {flight with outcome := some true} task) with hu
  have hkp : ∀ k, s.Refilling k → u.Refilling k := by
    refine fun k => refilling_keep rfl ?_
    rw [hp]
    rintro ⟨⟩
  have hoth : ∀ k, k ≠ (s.page obj).index → window u.backing.get k = window s.backing.get k :=
    fun k hk => writeSnapshot_other hk
  refine ⟨fun k o hk hr => h.frames k o hk (mt (hkp k) hr), fun k o hk hr hd hn => ?_,
    fun k hk hr => ?_, fun j => ?_⟩
  · have hkw : k ≠ (s.page obj).index := by
      rintro rfl
      cases hres.symm.trans hk
      cases hdi.symm.trans hd
    rw [hoth k hkw]
    refine h.clean k o hk (mt (hkp k) hr) hd (mt (pending_keep rfl ?_) hn)
    rw [hp]
    rintro ⟨⟩
  · have hkw : k ≠ (s.page obj).index := by
      rintro rfl
      exact hk obj hres
    rw [hoth k hkw]
    exact h.absent k hk (mt (hkp k) hr)
  · by_cases hji : j = i
    · subst hji
      have hq : u.phase j = .wrote obj {flight with outcome := some true} task := by simp [hu, goto]
      rw [hq]
      refine ⟨fun o f hf hr hs => ?_, ?_, fun o f task' hw => ?_, ?_, ?_, ?_⟩
      · cases hf
        have hsn := ((h.threads j).flying obj flight hfl (mt (hkp _) hr) hs).1
        refine ⟨hsn, fun _ => window_eq_iff.mpr fun b => ?_⟩
        refine (writeSnapshot_same b).trans ?_
        split
        · rw [hsn]
          rfl
        next hpa =>
          have h0 := hszs.clip j obj flight len hcl b (by omega)
          have hfi := (h.threads j).clipped obj flight len hcl (mt (hkp _) hr) hs b (by omega)
          exact h0.trans hfi.symm
      · rintro o f n ⟨⟩
      · cases hw
        rfl
      · rintro k a ⟨⟩
      · rintro k a n ⟨⟩
      · rintro k a frame ⟨⟩
    · have hq : u.phase j = s.phase j := by simp [hu, goto, hji]
      have hj := h.threads j
      rw [hq]
      refine ⟨fun o f hf hr hs => ?_, fun o f n hc hr hs => ?_, hj.landed, hj.attempts,
        fun k a n hz hk hr => hj.sized k a n hz hk (mt (hkp k) hr),
        fun k a frame hf hk hr => hj.fetched k a frame hf hk (mt (hkp k) hr)⟩
      · have hkw : (s.page o).index ≠ (s.page obj).index := by
          intro hix
          have heq := hres.symm.trans (hix ▸ hsh.flown hf)
          cases heq
          exact hji (hsh.flight_unique hf hfl)
        have hold := hj.flying o f hf (mt (hkp _) hr) hs
        exact ⟨hold.1, fun ho => (hoth _ hkw).trans (hold.2 ho)⟩
      · exact hj.clipped o f n hc (mt (hkp _) hr) hs

omit [Fintype ι] in
/-- A slot is vacated or reserved; no thread's load is touched. -/
theorem steady_slot (hph : t.phase = update s.phase i q)
    (heq : t.file = s.file ∧ t.backing.get = s.backing.get ∧ t.page = s.page ∧ s.nextAttempt ≤ t.nextAttempt)
    (hsl : t.slot = update s.slot k x) (hx : x = .absent ∨ x = .loading s.nextAttempt)
    (hrf : ∀ k, (s.phase i).refills = some k → q.refills = some k) (p : Phase) : Steady s t p := by
  obtain ⟨hfi, hbk, hpg, hat⟩ := heq
  refine ⟨hfi, hbk, fun o f _ => by rw [hpg]; exact ⟨rfl, rfl⟩, hat, fun k' a hk => ?_,
    fun k => refilling_keep hph (hrf k)⟩
  rw [hsl] at hk
  obtain ⟨-, hnew⟩ | ⟨-, hold⟩ := update_cases hk
  · obtain rfl | rfl := hx
    · cases hnew
    · cases hnew
      exact .inr le_rfl
  · exact .inl hold

omit [Fintype ι] in
/-- A page that leaves the tree is the backing's. -/
theorem Data.slot (h : Data s) (hph : t.phase = update s.phase i q)
    (heq : t.file = s.file ∧ t.backing.get = s.backing.get ∧ t.page = s.page ∧ s.nextAttempt ≤ t.nextAttempt)
    (hsl : t.slot = update s.slot k x) (hx : x = .absent ∨ x = .loading s.nextAttempt)
    (hgo : ∀ o, s.slot k = .resident o → ¬s.Refilling k → window s.backing.get k = window s.file k)
    (hrf : ∀ k, (s.phase i).refills = some k → q.refills = some k) (hstd : q.stored = (s.phase i).stored)
    (hca : (∀ p, Steady s t p) → Carries t q) : Data t := by
  have hsdy := steady_slot hph heq hsl hx hrf
  obtain ⟨hfi, hbk, hpg, hat⟩ := heq
  have hkp : ∀ k, s.Refilling k → t.Refilling k := fun k => refilling_keep hph (hrf k)
  have hres : ∀ k o, t.slot k = .resident o → s.slot k = .resident o := by
    intro k' o hk
    rw [hsl] at hk
    obtain ⟨-, hnew⟩ | ⟨-, hold⟩ := update_cases hk
    · rcases hx with rfl | rfl <;> cases hnew
    · exact hold
  refine ⟨fun k o hk hr => ?_, fun k o hk hr hd hn => ?_, fun k' hk hr => ?_, fun j => ?_⟩
  · rw [hpg, hfi]
    exact h.frames k o (hres k o hk) (mt (hkp k) hr)
  · rw [hfi, hbk]
    rw [hpg] at hd
    exact h.clean k o (hres k o hk) (mt (hkp k) hr) hd fun hs =>
      hn (pending_keep hph hstd.trans hs)
  · rw [hfi, hbk]
    by_cases hkk : k' = k
    · subst hkk
      by_cases ho : ∃ o, s.slot k' = .resident o
      · obtain ⟨o, ho⟩ := ho
        exact hgo o ho (mt (hkp _) hr)
      · exact h.absent k' (fun o hs => ho ⟨o, hs⟩) (mt (hkp _) hr)
    · rw [hsl, update_of_ne hkk] at hk
      exact h.absent k' hk (mt (hkp _) hr)
  · rw [hph]
    by_cases hji : j = i
    · subst hji
      rw [update_self]
      exact hca hsdy
    · rw [update_of_ne hji]
      exact (h.threads j).steady (hsdy _)

/-- A page enters the tree, loaded or to be refilled. -/
theorem Data.publish (hsh : Shape s) (h : Data s) {attempt : Nat}
    (hp : s.phase i = .loaded job attempt frame) (hsl : s.slot job.span.index = .loading attempt) :
    Data (goto {setSlot (setPage s s.nextPage ⟨job.span.index, frame, .clean, 0⟩) job.span.index
        (.resident s.nextPage) with
      nextPage := s.nextPage + 1
      attempt := update s.attempt attempt (some true)} i (.acquiring job.published)) := by
  set u := goto {setSlot (setPage s s.nextPage ⟨job.span.index, frame, .clean, 0⟩) job.span.index
        (.resident s.nextPage) with
      nextPage := s.nextPage + 1
      attempt := update s.attempt attempt (some true)} i (.acquiring job.published) with hu
  have hkp : ∀ k, s.Refilling k → u.Refilling k := by
    refine fun k => refilling_keep rfl fun hr => ?_
    rw [hp] at hr
    cases job with
    | read r => cases hr
    | write w =>
      simp only [refills, Job.refills, Job.published, Option.ite_none_right_eq_some, Bool.and_eq_true] at hr ⊢
      simp [hr.1.2, hr.2]
  have hva : ∀ o, s.slot job.span.index ≠ .resident o := by
    intro o ho
    cases hsl.symm.trans ho
  have hold : ∀ k o, s.slot k = .resident o → u.page o = s.page o := by
    intro k o hk
    have hlt := (hsh.resident k o hk).1
    simp [hu, goto, setSlot, setPage, Nat.ne_of_lt hlt]
  have hss : ∀ k, k ≠ job.span.index → u.slot k = s.slot k := by
    intro k hk
    simp [hu, goto, setSlot, setPage, hk]
  have hnew : u.slot job.span.index = .resident s.nextPage := by simp [hu, goto, setSlot]
  have hpe : ∀ o, s.Pending o → u.Pending o := by
    refine fun o => pending_keep rfl ?_
    rw [hp]
    rintro ⟨⟩
  refine ⟨fun k o hk hr => ?_, fun k o hk hr hd hn => ?_, fun k hk hr => ?_, fun j => ?_⟩
  · by_cases hki : k = job.span.index
    · subst hki
      cases hnew.symm.trans hk
      have hfm : (u.page s.nextPage).frame = frame := by simp [hu, goto, setSlot, setPage]
      rw [hfm]
      have h0 : job.zeroOnMiss = false := by
        by_contra h0
        refine hr ⟨i, ?_⟩
        cases job with
        | read r => exact absurd rfl h0
        | write w =>
          simp only [Job.zeroOnMiss] at h0
          simp [hu, goto, refills, Job.refills, Job.published, h0, Job.span]
      refine (h.threads i).fetched _ attempt frame ?_ hsl (mt (hkp _) hr)
      rw [hp]
      simp [fetched, h0]
    · rw [hss k hki] at hk
      rw [hold k o hk]
      exact h.frames k o hk (mt (hkp k) hr)
  · by_cases hki : k = job.span.index
    · subst hki
      exact h.absent _ hva (mt (hkp _) hr)
    · rw [hss k hki] at hk
      rw [hold k o hk] at hd
      exact h.clean k o hk (mt (hkp k) hr) hd (mt (hpe o) hn)
  · have hki : k ≠ job.span.index := by
      rintro rfl
      exact hk _ hnew
    rw [hss k hki] at hk
    exact h.absent k hk (mt (hkp k) hr)
  · by_cases hji : j = i
    · subst hji
      have hq : u.phase j = .acquiring job.published := by simp [hu, goto]
      rw [hq]
      exact Bare.carries (by constructor <;> rfl)
    · have hq : u.phase j = s.phase j := by simp [hu, goto, setSlot, setPage, hji]
      rw [hq]
      refine .steady (s := s) ⟨rfl, rfl, fun o f hf => ?_, le_rfl, fun k a hk => ?_, hkp⟩
        (h.threads j)
      · rw [hold _ o (hsh.flown hf)]
        exact ⟨rfl, rfl⟩
      · by_cases hki : k = job.span.index
        · subst hki
          cases hnew.symm.trans hk
        · rw [hss k hki] at hk
          exact .inl hk

/-- Every covered step keeps the bytes. -/
theorem Data.effect (hsh : Shape s) (hszs : Sizes s) (h : Data s) (heff : Effect s i t) : Data t := by
  have hi := h.threads i
  cases heff with
  | same => exact h
  | move q quiet | refuse att outcome q quiet =>
    exact h.stay rfl rfl ⟨rfl, rfl, rfl, rfl⟩ rfl quiet.refills quiet.stored (hi.quiet quiet)
  | abandon idx att outcome q quiet slot =>
    exact h.slot rfl ⟨rfl, rfl, rfl, le_rfl⟩ rfl (.inl rfl) (by rw [slot]; nofun) quiet.refills
      quiet.stored fun hsdy => (hi.quiet quiet).steady (hsdy q)
  | «open» _ _ at_ | finish _ at_ _ | readChunk _ _ at_ | extend _ at_ | target at_ =>
    exact h.stay at_ rfl ⟨rfl, rfl, rfl, rfl⟩ rfl nofun rfl (.bare rfl rfl rfl rfl rfl nofun)
  | setLen len at_ covers =>
    exact h.stay at_ rfl ⟨rfl, funext (Bytes.setLen_get covers), rfl, rfl⟩ rfl nofun rfl
      (.bare rfl rfl rfl rfl rfl nofun)
  | size job att at_ =>
    rw [at_] at hi
    refine h.stay at_ rfl ⟨rfl, rfl, rfl, rfl⟩ rfl (fun _ h => h) rfl
      ⟨nofun, nofun, nofun, hi.attempts, fun k a n hz hk hr => ?_, nofun⟩
    cases hz
    exact h.zero_past_size hszs (by rw [hk]; nofun) hr
  | fetch job att len at_ =>
    rw [at_] at hi
    refine h.stay at_ rfl ⟨rfl, rfl, rfl, rfl⟩ rfl (fun _ h => h) rfl
      ⟨nofun, nofun, nofun, hi.attempts, nofun, fun k a frame hf hk hr => ?_⟩
    obtain ⟨rfl, rfl, rfl⟩ := Phase.fetched_loaded hf
    exact loadFrame_eq_window (window_eq_iff.mp (h.absent _ (by rw [hk]; nofun) hr)) (hi.sized _ _ _ rfl hk hr)
  | reserve job at_ slot =>
    refine h.slot rfl ⟨rfl, rfl, rfl, Nat.le_succ _⟩ rfl (.inr rfl) (by rw [slot]; nofun)
      (by rw [at_]; exact fun _ h => h) (by rw [at_]; rfl) fun _ =>
      ⟨nofun, nofun, nofun, fun k a hlo => ?_, nofun, nofun⟩
    cases hlo
    exact Nat.lt_succ_self _
  | publish job att frame at_ slot => exact h.publish hsh at_ slot
  | copy w obj at_ => exact h.copy hsh at_
  | land obj flight len task at_ => exact h.land hsh hszs at_
  | sample obj flight task at_ covers =>
    rw [at_] at hi
    refine h.stay at_ rfl ⟨rfl, rfl, rfl, rfl⟩ rfl nofun rfl
      ⟨hi.flying, fun o f n hc _ _ => ?_, nofun, nofun, nofun, nofun⟩
    cases hc
    exact hszs.zero_past_sample covers
  | lease job obj state at_ slot taken =>
    rw [PageState.takeLease_eq taken]
    refine h.section at_ (fun _ h => h) (.bare rfl rfl rfl rfl rfl nofun) nofun fun k hk hr hd hn => ?_
    exact h.clean k obj hk hr hd (mt (pending_keep rfl (by rw [at_]; nofun)) hn)
  | drop job obj at_ =>
    refine h.section at_ nofun (.bare rfl rfl rfl rfl rfl nofun) nofun fun k hk hr hd hn => ?_
    exact h.clean k obj hk hr hd (mt (pending_keep rfl (by rw [at_]; nofun)) hn)
  | mark w obj state at_ marked =>
    have hle := (hsh.ordered obj).2
    rw [PageState.markDirty_eq marked]
    refine h.section at_ nofun (.bare rfl rfl rfl rfl rfl nofun) (fun o' ho hs => ?_) fun k hk hr hd hn => ?_
    · cases hs
      exact absurd rfl ho
    · have hseq : (s.page obj).state.dirtySeq + 1 ≤ (s.page obj).state.persistedSeq :=
        (PageState.isDirty_eq_false.mp hd).1
      omega
  | claim obj expl task at_ submit =>
    have hdi := (PageState.submit_dirty submit).1
    refine h.section at_ nofun ⟨fun o f hf hr _ => ?_, nofun, nofun, nofun, nofun, nofun⟩ nofun
      fun k hk hr hd hn => ?_
    · cases hf
      refine ⟨h.frames _ _ ?_ hr, nofun⟩
      by_contra hsl
      exact nomatch hdi.symm.trans (reclaimable_iff.mp (hsh.stale obj hsl)).1
    · cases hdi.symm.trans hd
  | report obj flight task at_ =>
    have hfl : (s.phase i).flight = some (obj, flight) := by rw [at_]; rfl
    have hcm := hsh.claimed i obj flight hfl
    refine h.section at_ nofun task.resume_bare.carries nofun fun k hk hr hd hn => ?_
    obtain ⟨-, hseq, hgu⟩ := hcm.report_clean hd
    have hst := hcm.current hgu hseq (mt (pending_keep rfl (by rw [at_]; nofun)) hn)
    have hix := (hsh.resident k obj hk).2
    rw [← hix] at hr ⊢
    exact (hi.flying obj flight hfl hr hst).2 (hi.landed _ _ _ at_)
  | reclaim idx obj slot free =>
    obtain ⟨hcl, -, hls, -⟩ := reclaimable_iff.mp free
    have hph := (update_eq_self i s.phase).symm
    refine h.slot hph ⟨rfl, rfl, rfl, le_rfl⟩ rfl (.inl rfl) (fun o hk hr => ?_) (fun _ h => h) rfl
      fun hsdy => hi.steady (hsdy _)
    cases slot.symm.trans hk
    refine h.clean idx obj hk hr hcl ?_
    rintro ⟨j, hj⟩
    have hpos := count_pos (p := fun p => p.holds == some obj) (f := s.phase) (i := j)
      (by simp [stored_holds hj])
    rw [← hsh.leases] at hpos
    omega

end BytesKept

/-! ### What a read has seen -/

/-- A value a read may return for byte `x`: what it held when the read started, or what a
write has copied to it since. -/
def OldOrNew (start : Nat → Byte) (base newer : List Copy) (x : Nat) (value : Byte) : Prop :=
  value = contents start base x ∨
    ∃ copy ∈ newer, (copy.position ≤ x ∧ x < copy.position + copy.count) ∧ value = copy.bytes (x - copy.position)

theorem OldOrNew.later {start : Nat → Byte} {base newer : List Copy} {x : Nat} {value : Byte} (copy : Copy)
    (h : OldOrNew start base newer x value) : OldOrNew start base (copy :: newer) x value := by
  refine h.imp_right fun ⟨c, hc, hre⟩ => ?_
  exact ⟨c, .tail _ hc, hre⟩

/-- The contents at any later time are such a value. -/
theorem contents_oldOrNew (start : Nat → Byte) (base newer : List Copy) (x : Nat) :
    OldOrNew start base newer x (contents start (newer ++ base) x) := by
  induction newer with
  | nil => exact .inl rfl
  | cons copy newer ih =>
    by_cases hin : copy.position ≤ x ∧ x < copy.position + copy.count
    · exact .inr ⟨copy, .head _, hin, overlay_inside hin⟩
    · have heq : contents start (copy :: newer ++ base) x = contents start (newer ++ base) x :=
        overlay_outside hin
      rw [heq]
      exact ih.later copy

section Reads
variable {ι : Type} [DecidableEq ι] {s t : State ι} {i : ι}

/-- What a read has so far is old or new, byte by byte. -/
def Reading.Honest (r : Reading) (s : State ι) : Prop :=
  ∃ newer, s.history = newer ++ r.base ∧
    ∀ j < r.span.done, OldOrNew s.start r.base newer (r.span.offset + j) (r.bytes j)

structure Reads (s : State ι) : Prop where
  honest : ∀ i r, (s.phase i).reading = some r → r.Honest s
  complete : ∀ i r, (s.phase i).result = some r → r.span.total ≤ r.span.done

/-- One thread moves and no copy is made. -/
theorem Reads.move (h : Reads s) (hph : t.phase = update s.phase i q)
    (heq : t.history = s.history ∧ t.start = s.start) (hq : ∀ r, q.reading = some r → r.Honest s)
    (hre : ∀ r, q.result = some r → r.span.total ≤ r.span.done) : Reads t := by
  have hkp : ∀ r : Reading, r.Honest s → r.Honest t := by
    intro r hr
    unfold Reading.Honest
    rw [heq.1, heq.2]
    exact hr
  refine ⟨fun j r hj => hkp r ?_, fun j r hj => ?_⟩
  · rw [hph] at hj
    obtain ⟨-, hq'⟩ | ⟨-, hj⟩ := update_map_cases reading hj
    · exact hq r hq'
    · exact h.honest j r hj
  · rw [hph] at hj
    obtain ⟨-, hq'⟩ | ⟨-, hj⟩ := update_map_cases result hj
    · exact hre r hq'
    · exact h.complete j r hj

/-- The same for a thread known to be at `p`, whose read stays as it is. -/
theorem Reads.at (h : Reads s) (hp : s.phase i = p) (hph : t.phase = update s.phase i q)
    (heq : t.history = s.history ∧ t.start = s.start) (hq : q.reading = p.reading ∨ q.reading = none)
    (hre : q.result = none) : Reads t := by
  subst hp
  refine h.move hph heq (fun r hr => ?_) fun r hr => nomatch hre.symm.trans hr
  obtain heq | hno := hq
  · exact h.honest i r (heq.symm.trans hr)
  · cases hno.symm.trans hr

theorem Reads.quiet (h : Reads s) (hqu : Quiet (s.phase i) q) (hph : t.phase = update s.phase i q)
    (heq : t.history = s.history ∧ t.start = s.start) : Reads t := by
  refine h.move hph heq (fun r hr => ?_) fun r hr => nomatch hqu.result.symm.trans hr
  obtain ⟨r', hr', hba, hnew⟩ := hqu.reading r hr
  obtain ⟨newer, hhi, hby⟩ := h.honest i r' hr'
  obtain rfl | h0 := hnew
  · exact ⟨newer, hhi, hby⟩
  · exact ⟨newer, hba ▸ hhi, fun j hj => absurd hj (by omega)⟩

omit [DecidableEq ι] in
/-- A chunk copied out of a frame that is the file's keeps the read honest. -/
theorem Reading.Honest.chunk {r : Reading} (h : r.Honest s) (hfm : f = window s.file r.span.index) :
    (readChunk r f).Honest s := by
  obtain ⟨newer, hhi, hby⟩ := h
  obtain ⟨hpo, hbo⟩ := r.span.chunk_bounds
  refine ⟨newer, hhi, fun j hj => ?_⟩
  replace hj : j < r.span.done + r.span.length := hj
  by_cases hnew : r.span.done ≤ j ∧ j < r.span.done + r.span.length
  · have hval : (readChunk r f).bytes j = s.file (r.span.offset + j) := by
      show overlay r.bytes r.span.done r.span.length (fun j => f.readByte (r.span.inPage + j)) j = _
      rw [overlay_inside hnew, hfm, readByte_window _ _ (by omega)]
      congr 1
      simp only [Span.position] at hpo
      omega
    rw [hval]
    unfold State.file
    rw [hhi]
    exact contents_oldOrNew _ _ _ _
  · have hval : (readChunk r f).bytes j = r.bytes j := by
      show overlay r.bytes r.span.done r.span.length (fun j => f.readByte (r.span.inPage + j)) j = _
      rw [overlay_outside hnew]
    rw [hval]
    exact hby j (by omega)

theorem Reads.effect [Fintype ι] (hsh : Shape s) (hda : Data s) (h : Reads s) (heff : Effect s i t)
    (hfi : ∀ r obj, s.phase i = .leased (.read r) obj → t.phase i ≠ s.phase i →
      ¬s.Refilling (s.page obj).index) : Reads t := by
  cases heff with
  | same => exact h
  | move q quiet | refuse att outcome q quiet | abandon idx att outcome q quiet slot =>
    exact h.quiet quiet rfl ⟨rfl, rfl⟩
  | «open» offset count at_ =>
    refine h.move rfl ⟨rfl, rfl⟩ (fun r hr => ?_) nofun
    cases hr
    exact ⟨[], rfl, nofun⟩
  | publish job att f at_ slot =>
    refine h.at at_ rfl ⟨rfl, rfl⟩ (.inl ?_) rfl
    cases job <;> rfl
  | finish r at_ done =>
    refine h.move rfl ⟨rfl, rfl⟩ (fun r' hr => ?_) fun r' hr => ?_
    · cases hr
      exact h.honest i r (by rw [at_]; rfl)
    · cases hr
      exact done
  | readChunk r obj at_ =>
    refine h.move rfl ⟨rfl, rfl⟩ (fun r' hr => ?_) nofun
    cases hr
    have hix := hsh.uses i r.span.index obj (by rw [at_]; rfl)
    refine (h.honest i r (by rw [at_]; rfl)).chunk ?_
    rw [← hix]
    refine hda.frames _ obj (hsh.held (by rw [at_]; rfl)) (hfi r obj at_ ?_)
    simp [goto, at_]
  | copy w obj at_ =>
    have hkp : ∀ r : Reading, r.Honest s → r.Honest (goto (writeChunk s w obj) i (.copied w obj)) := by
      rintro r ⟨newer, hhi, hby⟩
      exact ⟨w.copy :: newer, congrArg (w.copy :: ·) hhi, fun j hj => (hby j hj).later w.copy⟩
    refine ⟨fun j r hj => hkp r ?_, fun j r hj => ?_⟩
    · obtain ⟨-, hj⟩ := update_map_ne reading hj (by rintro ⟨⟩)
      exact h.honest j r hj
    · obtain ⟨-, hj⟩ := update_map_ne result hj (by rintro ⟨⟩)
      exact h.complete j r hj
  | report obj flight task at_ =>
    exact h.at at_ rfl ⟨rfl, rfl⟩ (.inr task.resume_owes.2.2) task.resume_bare.result
  | reclaim idx obj slot free => exact {h with}
  | lease _ _ _ at_ | reserve _ at_ | size _ _ at_ | fetch _ _ _ at_ | mark _ _ _ at_ | drop _ _ at_
  | extend _ at_ | claim _ _ _ at_ | sample _ _ _ at_ | land _ _ _ _ at_ | target at_ | setLen _ at_ =>
    exact h.at at_ rfl ⟨rfl, rfl⟩ (.inl rfl) rfl

end Reads

/-! ### Runs -/

section Runs
variable {ι : Type} [Fintype ι] [DecidableEq ι] {s t : State ι} {file : Bytes Byte} (l : ι × Action)

structure Coherent (file : Bytes Byte) (s : State ι) : Prop where
  shape : Shape s
  sizes : Sizes s
  data : Data s
  start : s.start = file.get

omit [DecidableEq ι] in
theorem initial_coherent (file : Bytes Byte) : Coherent file (initial file : State ι) :=
  ⟨initial_shape file, initial_sizes file, initial_data file, rfl⟩

theorem step_coherent (s t : State ι) (h : Coherent file s)
    (hok : covered l s) (hst : machine.step l s = some t) : Coherent file t := by
  have heff := step_effect hok hst
  refine ⟨h.shape.effect heff, h.sizes.effect h.shape heff, h.data.effect h.shape h.sizes heff, ?_⟩
  rw [← h.start]
  cases heff <;> rfl

/-- **A sync never destroys persisted data**, in any run whose steps are covered: with no
operation in progress, a byte of a clean or absent page has, in the backing, the value most
recently written to it. -/
theorem sync_keeps_persisted (file : Bytes Byte) (labels : List (ι × Action))
    (hok : machine.Meets (fun label s => covered label s = true) (initial file) labels)
    (hrun : machine.run (initial file) labels = some s) (hidle : ∀ i, (s.phase i).isIdle = true) (x : Nat)
    (hclean : ∀ object, s.slot (pageIndex x) = .resident object → (s.page object).state.isDirty = false) :
    s.backing.get x = contents file.get s.history x := by
  have h := Machine.run_induct_under step_coherent labels (initial_coherent file) hok hrun
  have hno : ∀ i, s.phase i = .idle := by
    intro i
    cases hp : s.phase i <;> first | rfl | exact nomatch hp ▸ hidle i
  have hrefill : ¬s.Refilling (pageIndex x) := by
    rintro ⟨j, hj⟩
    rw [hno j] at hj
    cases hj
  have hwindow : window s.backing.get (pageIndex x) = window s.file (pageIndex x) := by
    by_cases hres : ∃ object, s.slot (pageIndex x) = .resident object
    · obtain ⟨object, hobj⟩ := hres
      refine h.data.clean _ object hobj hrefill (hclean object hobj) ?_
      rintro ⟨j, hj⟩
      rw [hno j] at hj
      cases hj
    · exact h.data.absent _ (fun object hobj => hres ⟨object, hobj⟩) hrefill
  have hlt := Nat.mod_lt x (show 0 < pageSize by decide)
  have hx : pageIndex x * pageSize + x % pageSize = x := by
    rw [Nat.mul_comm]
    exact Nat.div_add_mod x pageSize
  have hbyte := window_eq_iff.mp hwindow ⟨x % pageSize, hlt⟩
  rw [hx, State.file, h.start] at hbyte
  exact hbyte

omit [Fintype ι] in
/-- A thread about to copy moves by its own step only. -/
theorem leased_waits {i : ι} {a : Action} (hp : s.phase i = .leased job obj)
    (hact : a ≠ .step) (hst : step (i, a) s = some t) : t.phase i = s.phase i := by
  cases a with
  | step => exact absurd rfl hact
  | fail => simp [step, failStep, hp] at hst
  | reclaim idx =>
    simp only [step, reclaimStep] at hst
    split at hst
    · split at hst <;> cases hst <;> rfl
    · cases hst
      rfl
  | read | write | sync | writeback | throttle | leave => simp [step, callStep, hp] at hst

theorem step_reads (s t : State ι) (h : Coherent file s ∧ Reads s)
    (hok : (covered l s && filled l s)) (hst : machine.step l s = some t) :
    Coherent file t ∧ Reads t := by
  obtain ⟨hcov, hfi⟩ := Bool.and_eq_true_iff.mp hok
  refine ⟨step_coherent l s t h.1 hcov hst, ?_⟩
  refine h.2.effect h.1.shape h.1.data (step_effect hcov hst) fun r obj hp hmo => ?_
  obtain ⟨i, a⟩ := l
  by_cases hact : a = .step
  · subst hact
    simp only [filled, hp, decide_eq_true_eq] at hfi
    rintro ⟨j, hj⟩
    exact hfi j hj
  · exact absurd (leased_waits hp hact hst) hmo

/-- **A read sees old or new bytes**, in any run whose steps are covered and whose reads copy
from no page that is still to be filled. -/
theorem read_sees_old_or_new (file : Bytes Byte) (labels : List (ι × Action))
    (hok : machine.Meets (fun label s => (covered label s && filled label s) = true) (initial file) labels)
    (hrun : machine.run (initial file) labels = some s) (i : ι) (r : Reading)
    (hret : s.phase i = .returned r) (j : Nat) (hj : j < r.span.total) :
    ∃ newer, s.history = newer ++ r.base ∧
      OldOrNew file.get r.base newer (r.span.offset + j) (r.bytes j) := by
  have h := Machine.run_induct_under step_reads labels
    (⟨initial_coherent file, nofun, nofun⟩ : Coherent file (initial file) ∧ Reads (initial file)) hok hrun
  obtain ⟨newer, hhi, hby⟩ := h.2.honest i r (by rw [hret]; rfl)
  refine ⟨newer, hhi, ?_⟩
  rw [← h.1.start]
  exact hby j (hj.trans_le (h.2.complete i r (by rw [hret]; rfl)))

end Runs

/-- Thread 1 writes one byte at the start of the file and then writes its page back. -/
def writeOne : List (Fin 2 × Action) :=
  (1, .write 0 (.fill 1 7)) :: List.replicate 11 (1, .step) ++ (1, .writeback 0 true) :: List.replicate 4 (1, .step)

/-- The sync comes after the write. -/
def syncAfter : List (Fin 2 × Action) := writeOne ++ [(0, .sync 0 1), (0, .step), (0, .step), (0, .step), (0, .step)]

theorem sync_keeps_persisted_after : ∃ s : State (Fin 2), machine.run (initial .empty) syncAfter = some s ∧
    s.backing.get 0 = contents (Bytes.empty : Bytes Byte).get s.history 0 :=
  ⟨_, rfl, sync_keeps_persisted .empty syncAfter (by decide) rfl (by decide) 0 fun _ h => by cases h; rfl⟩

/-- The sync samples the size of the empty file before the write and sets the length after
the page was written back. -/
def syncAround : List (Fin 2 × Action) :=
  [(0, .sync 0 0), (0, .step)] ++ writeOne ++ [(0, .step)]

theorem sync_truncates_persisted : ∃ s : State (Fin 2), machine.run (initial .empty) syncAround = some s ∧
    (∀ i, (s.phase i).isIdle = true) ∧ s.logicalSize = 1 ∧ s.slot 0 = .resident 0 ∧
    (s.page 0).state.isDirty = false ∧ s.backing.get 0 = 0 ∧
    contents (Bytes.empty : Bytes Byte).get s.history 0 = 7 :=
  ⟨_, rfl, by decide, rfl, rfl, rfl, rfl, rfl⟩

/-- Thread 1 overwrites the byte while thread 0 reads it. -/
def readDuring : List (Fin 2 × Action) :=
  [(0, .read 0 1), (0, .step), (1, .write 0 (.fill 1 9))] ++ List.replicate 7 (1, .step) ++
    List.replicate 5 (0, .step)

theorem read_sees_old_or_new_during : ∃ (s : State (Fin 2)) (r : Reading),
    machine.run (initial (.fill 1 7)) readDuring = some s ∧ s.phase 0 = .returned r ∧
    ∃ newer, s.history = newer ++ r.base ∧ OldOrNew (Bytes.fill 1 7).get r.base newer (r.span.offset + 0) (r.bytes 0) :=
  ⟨_, _, rfl, rfl, read_sees_old_or_new (.fill 1 7) readDuring (by decide) rfl 0 _ rfl 0 (by decide)⟩

/-- Thread 1 is to overwrite a whole page and has published it zeroed when thread 0 reads. -/
def readZeroed : List (Fin 2 × Action) :=
  (1, .write 0 (.fill pageSize 9)) :: List.replicate 4 (1, .step) ++
    (0, .read 0 1) :: List.replicate 6 (0, .step)

theorem read_sees_unwritten_zeros : ∃ (s : State (Fin 2)) (r : Reading),
    machine.run (initial (.fill pageSize 7)) readZeroed = some s ∧ s.phase 0 = .returned r ∧
    r.span.total = 1 ∧ r.bytes 0 = 0 ∧ s.history = r.base ∧
    contents (Bytes.fill pageSize 7).get r.base 0 = 7 :=
  ⟨_, _, rfl, rfl, rfl, rfl, rfl, rfl⟩

end StarryX.Cache.Concurrent
