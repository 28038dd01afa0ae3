import StarryX.Cache.Effects

/-! Who has a page of a mapping in hand.

`Shape` ties the counts in a page's state to the threads: a lease for each holder, a claimed
sequence for the one writeback in flight. A page that is in nobody's hands may leave the
tree; any other is in it, at its own index. -/
namespace StarryX.Cache.Concurrent
open Library DirtySequence Function
open Phase (flies holds)

/-- Some writer is between its copy into the page and its `mark_dirty`. -/
def State.Pending {ι : Type} (s : State ι) (object : Nat) : Prop := ∃ j, (s.phase j).stored = some object

/-- Some write has published a zeroed page for `index` and is still to fill it. -/
def State.Refilling {ι : Type} (s : State ι) (index : Nat) : Prop := ∃ j, (s.phase j).refills = some index

structure Shape {ι : Type} [Fintype ι] (s : State ι) : Prop where
  leases : ∀ o, (s.page o).state.leases = count (fun p => p.holds == some o) s.phase
  flights : ∀ o, (s.page o).state.writebackSeq.isSome.toNat = count (fun p => p.flies == some o) s.phase
  ordered : ∀ o, (s.page o).state.sharedGuardGroups = 0 ∧
    (s.page o).state.persistedSeq ≤ (s.page o).state.dirtySeq
  unborn : ∀ o, s.nextPage ≤ o → (s.page o).state = .clean
  resident : ∀ k o, s.slot k = .resident o → o < s.nextPage ∧ (s.page o).index = k
  stale : ∀ o, s.slot (s.page o).index ≠ .resident o → (s.page o).state.reclaimable = true
  uses : ∀ i k o, (s.phase i).uses = some (k, o) → (s.page o).index = k
  claimed : ∀ i o f, (s.phase i).flight = some (o, f) →
    Claimed (s.page o).state (s.Pending o) (s.page o).stores f

section Shape
variable {ι : Type} [Fintype ι] {s t : State ι} {i j : ι} {o k : Nat} {p : Phase}

theorem initial_shape (file : Bytes Byte) : Shape (initial file : State ι) where
  leases := fun _ => (count_eq_zero.mpr fun _ => rfl).symm
  flights := fun _ => (count_eq_zero.mpr fun _ => rfl).symm
  ordered := fun _ => ⟨rfl, le_rfl⟩
  unborn := fun _ _ => rfl
  resident := nofun
  stale := fun _ _ => rfl
  uses := nofun
  claimed := nofun

theorem reclaimable_iff {p : PageState} : p.reclaimable ↔
    p.isDirty = false ∧ p.writebackSeq = none ∧ p.leases = 0 ∧ p.sharedGuardGroups = 0 := by
  simp [PageState.reclaimable, and_assoc]

/-- A page under a lease is in the tree. -/
theorem Shape.held (h : Shape s) (hi : (s.phase i).holds = some o) :
    s.slot (s.page o).index = .resident o := by
  by_contra hsl
  have hfr := (reclaimable_iff.mp (h.stale o hsl)).2.2.1
  have hpos := count_pos (p := fun p => p.holds == some o) (f := s.phase) (i := i) (by simp [hi])
  rw [h.leases] at hfr
  omega

/-- A page being written back is in the tree. -/
theorem Shape.flown (h : Shape s) {f : Flight Frame} (hi : (s.phase i).flight = some (o, f)) :
    s.slot (s.page o).index = .resident o := by
  by_contra hsl
  have hcl := (reclaimable_iff.mp (h.stale o hsl)).1
  rw [(h.claimed i o f hi).dirty] at hcl
  cases hcl

/-- At most one writeback of a page is in flight. -/
theorem Shape.flight_unique (h : Shape s) {f g : Flight Frame}
    (hi : (s.phase i).flight = some (o, f)) (hj : (s.phase j).flight = some (o, g)) : i = j := by
  by_contra hne
  have htwo := two_le_count (p := fun p => p.flies == some o) (f := s.phase) hne
    (by simp [flies, hi]) (by simp [flies, hj])
  have hone := Bool.toNat_le (s.page o).state.writebackSeq.isSome
  have := h.flights o
  omega

/-- No thread has a page that does not exist yet. -/
theorem Shape.born (h : Shape s) (hi : (s.phase i).holds = some o) : o < s.nextPage :=
  (h.resident _ o (h.held hi)).1

theorem uses_holds (h : p.uses = some (k, o)) : p.holds = some o := by
  unfold Phase.uses at h
  split at h
  · cases h
    rfl
  · cases h
    rfl
  · cases h

theorem stored_holds (h : p.stored = some o) : p.holds = some o := by
  unfold Phase.stored at h
  split at h
  · cases h
    rfl
  · cases h

variable [DecidableEq ι] {q : Phase}

omit [Fintype ι] in
theorem pending_keep (hph : t.phase = update s.phase i q)
    (hq : (s.phase i).stored = some o → q.stored = some o) (h : s.Pending o) : t.Pending o := by
  obtain ⟨j, hj⟩ := h
  refine ⟨j, ?_⟩
  rw [hph]
  by_cases hji : j = i
  · subst hji
    rw [update_self]
    exact hq hj
  · rwa [update_of_ne hji]

section
variable (h : Shape s)
include h

/-- One thread moves and no page changes; a page may leave the tree if it is reclaimable. -/
theorem Shape.move (hph : t.phase = update s.phase i q)
    (hpg : t.page = s.page) (hnx : t.nextPage = s.nextPage)
    (hsl : ∀ k o, t.slot k = .resident o → s.slot k = .resident o)
    (hke : ∀ k o, s.slot k = .resident o → t.slot k = .resident o ∨ (s.page o).state.reclaimable)
    (hho : q.holds = (s.phase i).holds) (hus : q.uses = (s.phase i).uses ∨ q.uses = none)
    (hstd : q.stored = (s.phase i).stored) (hfs : q.flies = (s.phase i).flies)
    (hfl : ∀ o f, q.flight = some (o, f) → Claimed (s.page o).state (s.Pending o) (s.page o).stores f) :
    Shape t where
  leases := by
    intro o
    rw [hpg, hph, count_update_of_eq (by rw [hho])]
    exact h.leases o
  flights := by
    intro o
    rw [hpg, hph, count_update_of_eq (by rw [hfs])]
    exact h.flights o
  ordered := by
    rw [hpg]
    exact h.ordered
  unborn := by
    rw [hpg, hnx]
    exact h.unborn
  resident := by
    intro k o hk
    rw [hpg, hnx]
    exact h.resident k o (hsl k o hk)
  stale := by
    intro o ho
    rw [hpg] at ho ⊢
    by_cases hs : s.slot (s.page o).index = .resident o
    · exact (hke _ o hs).resolve_left ho
    · exact h.stale o hs
  uses := by
    intro j k o hj
    rw [hpg]
    rw [hph] at hj
    obtain ⟨rfl, hq⟩ | ⟨-, hj⟩ := update_map_cases Phase.uses hj
    · obtain hu | hu := hus
      · exact h.uses _ k o (hu.symm.trans hq)
      · cases hu.symm.trans hq
    · exact h.uses j k o hj
  claimed := by
    intro j o f hj
    have hpe : s.Pending o → t.Pending o := pending_keep hph hstd.trans
    rw [hpg]
    rw [hph] at hj
    obtain ⟨-, hq⟩ | ⟨-, hj⟩ := update_map_cases Phase.flight hj
    · exact (hfl o f hq).mono hpe
    · exact (h.claimed j o f hj).mono hpe

/-- One thread moves and one existing page goes through a section of its lock, or is
copied into. -/
theorem Shape.section {page : Page}
    (hph : t.phase = update s.phase i q) (hpg : t.page = update s.page o page)
    (hnx : t.nextPage = s.nextPage) (hsl : t.slot = s.slot)
    (hbo : s.slot (s.page o).index = .resident o) (hix : page.index = (s.page o).index)
    (hle : page.state.leases + ((s.phase i).holds == some o).toNat =
      (s.page o).state.leases + (q.holds == some o).toNat)
    (hfs : page.state.writebackSeq.isSome.toNat + ((s.phase i).flies == some o).toNat =
      (s.page o).state.writebackSeq.isSome.toNat + (q.flies == some o).toNat)
    (hord : page.state.sharedGuardGroups = 0 ∧ page.state.persistedSeq ≤ page.state.dirtySeq)
    (hos : ∀ o', o' ≠ o → (q.holds == some o') = ((s.phase i).holds == some o') ∧
      (q.flies == some o') = ((s.phase i).flies == some o') ∧ ((s.phase i).stored = some o' → False) ∧
      ∀ f, q.flight ≠ some (o', f))
    (hus : ∀ k o', q.uses = some (k, o') → (s.page o').index = k)
    (hcm : ∀ j f, (t.phase j).flight = some (o, f) → Claimed page.state (t.Pending o) page.stores f) :
    Shape t where
  leases := by
    intro o'
    have hct := count_update (fun p => p.holds == some o') s.phase i q
    have hold := h.leases o'
    rw [hpg, hph]
    by_cases ho : o' = o
    · subst ho
      rw [update_self]
      omega
    · rw [update_of_ne ho]
      rw [(hos o' ho).1] at hct
      omega
  flights := by
    intro o'
    have hct := count_update (fun p => p.flies == some o') s.phase i q
    have hold := h.flights o'
    rw [hpg, hph]
    by_cases ho : o' = o
    · subst ho
      rw [update_self]
      omega
    · rw [update_of_ne ho]
      rw [(hos o' ho).2.1] at hct
      omega
  ordered := by
    intro o'
    rw [hpg]
    by_cases ho : o' = o
    · subst ho
      rwa [update_self]
    · rw [update_of_ne ho]
      exact h.ordered o'
  unborn := by
    intro o' ho'
    have hlt := (h.resident _ o hbo).1
    rw [hpg, update_of_ne (by omega)]
    exact h.unborn o' (by omega)
  resident := by
    intro k o' hk
    rw [hsl] at hk
    rw [hnx, hpg]
    obtain ⟨hlt, hk⟩ := h.resident k o' hk
    by_cases ho : o' = o
    · subst ho
      rw [update_self]
      exact ⟨hlt, hix.trans hk⟩
    · rw [update_of_ne ho]
      exact ⟨hlt, hk⟩
  stale := by
    intro o' ho'
    rw [hsl, hpg] at ho'
    rw [hpg]
    by_cases ho : o' = o
    · subst ho
      rw [update_self, hix] at ho'
      exact absurd hbo ho'
    · rw [update_of_ne ho] at ho' ⊢
      exact h.stale o' ho'
  uses := by
    intro j k o' hj
    rw [hph] at hj
    have hold : (s.page o').index = k := by
      obtain ⟨-, hq⟩ | ⟨-, hj⟩ := update_map_cases Phase.uses hj
      · exact hus k o' hq
      · exact h.uses j k o' hj
    rw [hpg]
    by_cases ho : o' = o
    · subst ho
      rw [update_self, hix, hold]
    · rw [update_of_ne ho, hold]
  claimed := by
    intro j o' f hj
    rw [hpg]
    by_cases ho : o' = o
    · subst ho
      rw [update_self]
      exact hcm j f hj
    · rw [update_of_ne ho]
      obtain ⟨-, -, hstd, hfl⟩ := hos o' ho
      rw [hph] at hj
      obtain ⟨-, hq⟩ | ⟨-, hj⟩ := update_map_cases Phase.flight hj
      · exact absurd hq (hfl f)
      · exact (h.claimed j o' f hj).mono (pending_keep hph fun hp => (hstd hp).elim)

/-- A loaded page enters the tree. -/
theorem Shape.publish {frame : Frame} (hq : Bare q) (hp : Free (s.phase i))
    (hph : t.phase = update s.phase i q)
    (hpg : t.page = update s.page s.nextPage ⟨k, frame, .clean, 0⟩)
    (hnx : t.nextPage = s.nextPage + 1) (hsl : t.slot = update s.slot k (.resident s.nextPage))
    (hva : ∀ o, s.slot k ≠ .resident o) : Shape t where
  leases := by
    intro o
    have heq : (t.page o).state.leases = (s.page o).state.leases := by
      rw [hpg]
      exact update_map_eq (fun p : Page => p.state.leases) (by rw [h.unborn _ le_rfl]) o
    rw [heq, hph, count_update_of_eq (by rw [hq.holds, hp.holds])]
    exact h.leases o
  flights := by
    intro o
    have heq : (t.page o).state.writebackSeq = (s.page o).state.writebackSeq := by
      rw [hpg]
      exact update_map_eq (fun p : Page => p.state.writebackSeq) (by rw [h.unborn _ le_rfl]) o
    rw [heq, hph, count_update_of_eq (by rw [flies, hq.flight, flies, hp.flight])]
    exact h.flights o
  ordered := by
    intro o
    rw [hpg]
    by_cases ho : o = s.nextPage
    · subst ho
      rw [update_self]
      exact ⟨rfl, le_rfl⟩
    · rw [update_of_ne ho]
      exact h.ordered o
  unborn := by
    intro o ho
    rw [hpg, update_of_ne (by omega)]
    exact h.unborn o (by omega)
  resident := by
    intro k' o hk
    rw [hsl] at hk
    rw [hpg, hnx]
    obtain ⟨rfl, hnew⟩ | ⟨-, hold⟩ := update_cases hk
    · cases hnew
      rw [update_self]
      exact ⟨Nat.lt_succ_self _, rfl⟩
    · obtain ⟨hlt, hix⟩ := h.resident k' o hold
      rw [update_of_ne hlt.ne]
      exact ⟨Nat.lt_succ_of_lt hlt, hix⟩
  stale := by
    intro o ho
    rw [hpg, hsl] at ho
    rw [hpg]
    by_cases hnew : o = s.nextPage
    · subst hnew
      rw [update_self]
      rfl
    · rw [update_of_ne hnew] at ho ⊢
      refine h.stale o fun hres => ho ?_
      rw [update_of_ne]
      · exact hres
      · intro hk
        rw [hk] at hres
        exact hva o hres
  uses := by
    intro j k' o hj
    rw [hph] at hj
    obtain ⟨-, hnew⟩ | ⟨-, hj⟩ := update_map_cases Phase.uses hj
    · cases hq.uses.symm.trans hnew
    · rw [hpg, update_of_ne (h.born (uses_holds hj)).ne]
      exact h.uses j k' o hj
  claimed := by
    intro j o f hj
    rw [hph] at hj
    obtain ⟨-, hnew⟩ | ⟨-, hj⟩ := update_map_cases Phase.flight hj
    · cases hq.flight.symm.trans hnew
    · have hlt := (h.resident _ o (h.flown hj)).1
      rw [hpg, update_of_ne hlt.ne]
      refine (h.claimed j o f hj).mono (pending_keep hph fun hs => ?_)
      cases hp.stored.symm.trans hs

/-- A move that keeps the pages and the tree. -/
theorem Shape.quiet (hq : Quiet (s.phase i) q)
    (hph : t.phase = update s.phase i q) (hpg : t.page = s.page)
    (hnx : t.nextPage = s.nextPage) (hsl : ∀ k o, t.slot k = .resident o ↔ s.slot k = .resident o) :
    Shape t :=
  h.move hph hpg hnx (fun k o => (hsl k o).mp) (fun k o hk => .inl ((hsl k o).mpr hk)) hq.holds
    hq.uses hq.stored (by rw [flies, hq.flight.1, flies, hq.flight.2]) fun o f hf =>
      nomatch hq.flight.1.symm.trans hf

/-- The same for a thread known to be at `p`. -/
theorem Shape.at (hp : s.phase i = p) (hph : t.phase = update s.phase i q) (hpg : t.page = s.page)
    (hnx : t.nextPage = s.nextPage) (hsl : ∀ k o, t.slot k = .resident o ↔ s.slot k = .resident o)
    (hho : q.holds = p.holds) (hus : q.uses = p.uses ∨ q.uses = none) (hstd : q.stored = p.stored)
    (hfs : q.flies = p.flies)
    (hfl : ∀ o f, q.flight = some (o, f) → ∃ g, p.flight = some (o, g) ∧ g.seq = f.seq ∧ g.stores = f.stores) :
    Shape t := by
  subst hp
  refine h.move hph hpg hnx (fun k o => (hsl k o).mp) (fun k o hk => .inl ((hsl k o).mpr hk))
    hho hus hstd hfs fun o f hf => ?_
  obtain ⟨g, hg, hseq, hst⟩ := hfl o f hf
  have hc := h.claimed i o g hg
  exact ⟨hc.claimed.trans (by rw [hseq]), hseq ▸ hc.seq_le, hc.dirty,
    fun hg hs hn => hst ▸ hc.current hg (hs.trans hseq.symm) hn, hst ▸ hc.stores_le⟩

end

omit [Fintype ι] [DecidableEq ι] in
theorem slot_update {x : Slot} (hsl : t.slot = update s.slot k x)
    (hold : ∀ o, s.slot k ≠ .resident o) (hnew : ∀ o, x ≠ .resident o) (k' o : Nat) :
    t.slot k' = .resident o ↔ s.slot k' = .resident o := by
  rw [hsl]
  by_cases hk : k' = k
  · subst hk
    rw [update_self]
    exact ⟨fun h => absurd h (hnew o), fun h => absurd h (hold o)⟩
  · rw [update_of_ne hk]

end Shape

section Effects
variable {ι : Type} [Fintype ι] [DecidableEq ι] {s t : State ι} {i : ι}

open PageState (claim dropLease report)

/-- Every covered step keeps pages, leases and flights in order. -/
theorem Shape.effect (h : Shape s) (heff : Effect s i t) : Shape t := by
  cases heff with
  | same => exact h
  | move _ quiet | refuse _ _ _ quiet => exact h.quiet quiet rfl rfl rfl fun _ _ => .rfl
  | abandon idx att outcome q quiet slot =>
    exact h.quiet quiet rfl rfl rfl (slot_update rfl (by rw [slot]; nofun) nofun)
  | «open» _ _ at_ | fetch _ _ _ at_ | setLen _ at_ _ | size _ _ at_ | finish _ at_ _ | extend _ at_ | target at_ =>
    exact h.at at_ rfl rfl rfl (fun _ _ => .rfl) rfl (.inl rfl) rfl rfl nofun
  | reserve job at_ slot =>
    exact h.at at_ rfl rfl rfl (slot_update rfl (by rw [slot]; nofun) nofun) rfl (.inl rfl) rfl rfl nofun
  | publish job att frame at_ slot =>
    refine h.publish ?_ ?_ rfl rfl rfl rfl (by rw [slot]; nofun)
    · constructor <;> rfl
    · rw [at_]
      constructor <;> rfl
  | readChunk r obj at_ =>
    exact h.at at_ rfl rfl rfl (fun _ _ => .rfl) rfl (.inr rfl) rfl rfl nofun
  | sample obj flight task at_ covers =>
    exact h.at at_ rfl rfl rfl (fun _ _ => .rfl) rfl (.inl rfl) rfl rfl
      fun o f hf => ⟨f, hf, rfl, rfl⟩
  | land obj flight len task at_ =>
    refine h.at at_ rfl rfl rfl (fun _ _ => .rfl) rfl (.inl rfl) rfl rfl fun o f hf => ?_
    cases hf
    exact ⟨flight, rfl, rfl, rfl⟩
  | reclaim idx obj slot free =>
    refine h.move (update_eq_self i s.phase).symm rfl rfl ?_ ?_ rfl (.inl rfl) rfl rfl (h.claimed i)
    · intro k o hk
      obtain ⟨-, hold⟩ := update_map_ne id hk nofun
      exact hold
    · intro k o hk
      by_cases hki : k = idx
      · subst hki
        cases slot.symm.trans hk
        exact .inr free
      · exact .inl ((update_of_ne hki _ _).trans hk)
  | lease job obj state at_ slot taken =>
    have hbo : s.slot (s.page obj).index = .resident obj := by
      rw [(h.resident _ _ slot).2, slot]
    rw [PageState.takeLease_eq taken]
    refine h.section rfl rfl rfl rfl hbo rfl ?_ ?_ (h.ordered obj) ?_ ?_ ?_
    · simp [at_, holds]
    · simp [at_, flies, Phase.flight]
    · intro o ho
      simp [at_, holds, flies, Phase.flight, Phase.stored, Ne.symm ho]
    · intro k o hk
      cases hk
      exact (h.resident _ _ slot).2
    · intro j f hj
      obtain ⟨-, hj⟩ := update_map_ne Phase.flight hj nofun
      refine ((h.claimed j obj f hj).leave ?_).mono (pending_keep rfl ?_)
      · rfl
      · rw [at_]
        nofun
  | copy w obj at_ =>
    have hho : (s.phase i).holds = some obj := by rw [at_]; rfl
    refine h.section rfl rfl rfl rfl (h.held hho) rfl ?_ ?_ (h.ordered obj) ?_ ?_ ?_
    · simp [at_, holds]
    · simp [at_, flies, Phase.flight]
    · intro o ho
      simp [at_, holds, flies, Phase.flight, Phase.stored]
    · intro k o hk
      cases hk
      exact h.uses i _ _ (by rw [at_]; rfl)
    · intro j f hj
      obtain ⟨-, hj⟩ := update_map_ne Phase.flight hj nofun
      refine (h.claimed j obj f hj).store (.inl ⟨i, ?_⟩)
      simp [goto, Phase.stored]
  | mark w obj state at_ marked =>
    have hho : (s.phase i).holds = some obj := by rw [at_]; rfl
    obtain ⟨hgs, hle⟩ := h.ordered obj
    rw [PageState.markDirty_eq marked]
    refine h.section rfl rfl rfl rfl (h.held hho) rfl ?_ ?_ ⟨hgs, Nat.le_succ_of_le hle⟩ ?_ nofun ?_
    · simp [at_, holds]
    · simp [at_, flies, Phase.flight]
    · intro o ho
      simp [at_, holds, flies, Phase.flight, Phase.stored, Ne.symm ho]
    · intro j f hj
      obtain ⟨-, hj⟩ := update_map_ne Phase.flight hj nofun
      refine (h.claimed j obj f hj).raise hle ?_ ?_ ?_ <;> rfl
  | drop job obj at_ =>
    have hho : (s.phase i).holds = some obj := by rw [at_]; rfl
    have hpos := count_pos (p := fun p => p.holds == some obj) (f := s.phase) (i := i) (by simp [hho])
    rw [← h.leases] at hpos
    refine h.section rfl rfl rfl rfl (h.held hho) rfl ?_ ?_ (h.ordered obj) ?_ nofun ?_
    · simp [at_, holds, dropLease]
      omega
    · simp [at_, flies, Phase.flight, dropLease]
    · intro o ho
      simp [at_, holds, flies, Phase.flight, Phase.stored, Ne.symm ho]
    · intro j f hj
      obtain ⟨-, hj⟩ := update_map_ne Phase.flight hj nofun
      refine ((h.claimed j obj f hj).leave ?_).mono (pending_keep rfl ?_)
      · rfl
      · rw [at_]
        nofun
  | claim obj expl task at_ submit =>
    obtain ⟨hd, hid⟩ := PageState.submit_dirty submit
    have hbo : s.slot (s.page obj).index = .resident obj := by
      by_contra hsl
      rw [(reclaimable_iff.mp (h.stale obj hsl)).1] at hd
      cases hd
    have hno : ∀ j f, (s.phase j).flight ≠ some (obj, f) := by
      intro j f hj
      exact nomatch hid.symm.trans (h.claimed j obj f hj).claimed
    refine h.section rfl rfl rfl rfl hbo rfl ?_ ?_ (h.ordered obj) ?_ nofun ?_
    · simp [at_, holds, claim]
    · simp [at_, flies, Phase.flight, claim, hid]
    · intro o ho
      simp [at_, holds, flies, Phase.flight, Phase.stored, Ne.symm ho]
    · intro j f hj
      obtain ⟨-, hq⟩ | ⟨-, hj⟩ := update_map_cases Phase.flight hj
      · cases hq
        exact .claim hd _
      · exact absurd hj (hno j f)
  | report obj flight task at_ =>
    have hfl : (s.phase i).flight = some (obj, flight) := by rw [at_]; rfl
    have hcm := h.claimed i obj flight hfl
    obtain ⟨hgs, hle⟩ := h.ordered obj
    have hba := task.resume_bare
    have hhe : (s.phase i).holds = none := by rw [at_]; rfl
    have hstd : (s.phase i).stored = none := by rw [at_]; rfl
    refine h.section rfl rfl rfl rfl (h.flown hfl) rfl ?_ ?_ ⟨hgs, ?_⟩ ?_ ?_ ?_
    · simp [hhe, hba.holds, report]
    · simp [flies, hfl, hba.flight, report, hcm.claimed]
    · exact Nat.max_le.mpr ⟨hle, hcm.seq_le⟩
    · intro o ho
      simp [hhe, hstd, flies, hfl, hba.holds, hba.flight, Ne.symm ho]
    · intro k o hk
      cases hba.uses.symm.trans hk
    · intro j f hj
      obtain ⟨-, hq⟩ | ⟨hji, hj⟩ := update_map_cases Phase.flight hj
      · cases hba.flight.symm.trans hq
      · exact absurd (h.flight_unique hj hfl) hji

end Effects

end StarryX.Cache.Concurrent
