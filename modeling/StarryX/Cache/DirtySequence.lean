import StarryX.Cache.Page
import StarryX.Library.Machine

/-! When a clean page is really clean.

A page's bytes are stored to without its lock: a writer copies into the frame and marks
the page dirty afterwards, and a shared-write guard stores whenever it likes while it
lives. A writeback takes its snapshot and its sequence number under the lock, writes the
snapshot out and reports back. `Settled` and `Flying` say what these have to do with each
other — a page that is not dirty holds what was last written out, and a snapshot that
still carries the current sequence is the current contents — and there is one lemma per
section of the lock.

`machine` runs any number of such parties in any order, and `clean_is_written` is what
holds in every state it reaches. -/
namespace StarryX.Cache.DirtySequence
open Library Function

/-- A claimed writeback: its sequence, its snapshot and how many stores the frame had
seen when the snapshot was taken. `outcome` is whether the write-out succeeded, once it
has been tried. -/
structure Flight (β : Type) where
  seq : Nat
  snapshot : β
  stores : Nat
  outcome : Option Bool
  deriving DecidableEq

/-- The page against the last successfully written snapshot. `pending` says that some
writer is between its store and its `mark_dirty`. -/
structure Settled {β : Type} (p : PageState) (frame written : β) (pending : Prop) : Prop where
  persisted_le : p.persistedSeq ≤ p.dirtySeq
  submitted_le : p.submittedSeq ≤ p.dirtySeq
  clean : p.isDirty = false → ¬pending → written = frame

/-- A claimed writeback against the sequences of its page and the stores it has seen. -/
structure Claimed {β : Type} (p : PageState) (pending : Prop) (stores : Nat) (f : Flight β) : Prop where
  claimed : p.writebackSeq = some f.seq
  seq_le : f.seq ≤ p.dirtySeq
  dirty : p.isDirty = true
  current : p.sharedGuardGroups = 0 → p.dirtySeq = f.seq → ¬pending → f.stores = stores
  stores_le : f.stores ≤ stores

/-- A claimed writeback against the contents of its page: while it is current, its snapshot
is the frame, and once it has landed, so is what is written out. -/
structure Flying {β : Type} (p : PageState) (frame written : β) (pending : Prop) (stores : Nat)
    (f : Flight β) : Prop extends Claimed p pending stores f where
  fresh : f.stores = stores → f.snapshot = frame
  landed : f.outcome = some true → f.stores = stores → written = frame

section Sections
variable {β : Type} {p q : PageState} {frame w : β} {pending : Prop} {stores : Nat} {f : Flight β}

theorem Settled.initial (frame : β) : Settled .clean frame frame False :=
  ⟨le_rfl, le_rfl, fun _ _ => rfl⟩

variable {pending' : Prop} {succeeded : Bool}

/-- More pending stores never hurt. -/
theorem Settled.mono (h : Settled p frame w pending) (hp : pending → pending') :
    Settled p frame w pending' :=
  ⟨h.persisted_le, h.submitted_le, fun hc hnot => h.clean hc (mt hp hnot)⟩

theorem Claimed.mono (h : Claimed p pending stores f) (hp : pending → pending') : Claimed p pending' stores f :=
  {h with current := fun hg hs hnot => h.current hg hs (mt hp hnot)}

theorem Flying.mono (h : Flying p frame w pending stores f) (hp : pending → pending') :
    Flying p frame w pending' stores f :=
  {h with toClaimed := h.toClaimed.mono hp}

/-- A store is covered by whoever made it: a writer that has yet to mark the page dirty,
or a live guard. -/
theorem Settled.store (h : Settled p frame w pending) (frame' : β) (hco : pending' ∨ p.sharedGuardGroups ≠ 0) :
    Settled p frame' w pending' := by
  refine ⟨h.persisted_le, h.submitted_le, fun hc hnot => ?_⟩
  obtain hp | hg := hco
  · exact absurd hp hnot
  · exact absurd (PageState.isDirty_eq_false.mp hc).2 hg

theorem Claimed.store (h : Claimed p pending stores f) (hco : pending' ∨ p.sharedGuardGroups ≠ 0) :
    Claimed p pending' (stores + 1) f where
  __ := h
  current := fun hg _ hnot => (hco.elim hnot (absurd hg)).elim
  stores_le := Nat.le_succ_of_le h.stores_le

/-- After a store no claimed writeback is current. -/
theorem Claimed.overtaken (h : Claimed p pending stores f) : f.stores ≠ stores + 1 :=
  (Nat.lt_succ_of_le h.stores_le).ne

theorem Flying.store (h : Flying p frame w pending stores f) (frame' : β)
    (hco : pending' ∨ p.sharedGuardGroups ≠ 0) : Flying p frame' w pending' (stores + 1) f :=
  ⟨h.toClaimed.store hco, fun he => absurd he h.overtaken, fun _ he => absurd he h.overtaken⟩

/-- Any section that raises the dirty sequence and keeps the other two leaves the page dirty. -/
theorem Settled.raise (h : Settled p frame w pending) (hseq : q.dirtySeq = p.dirtySeq + 1)
    (hpe : q.persistedSeq = p.persistedSeq) (hsu : q.submittedSeq = p.submittedSeq) :
    Settled q frame w pending' := by
  have hle := h.persisted_le
  have hsub := h.submitted_le
  refine ⟨by omega, by omega, fun hc _ => ?_⟩
  have := (PageState.isDirty_eq_false.mp hc).1
  omega

theorem Claimed.raise (h : Claimed p pending stores f) (hp : p.persistedSeq ≤ p.dirtySeq)
    (hseq : q.dirtySeq = p.dirtySeq + 1) (hpe : q.persistedSeq = p.persistedSeq)
    (hcm : q.writebackSeq = p.writebackSeq) : Claimed q pending' stores f where
  claimed := hcm.trans h.claimed
  seq_le := by have := h.seq_le; omega
  dirty := PageState.isDirty_eq_true.mpr (.inl (by omega))
  current := fun _ he _ => by have := h.seq_le; omega
  stores_le := h.stores_le

theorem Flying.raise (h : Flying p frame w pending stores f) (hp : p.persistedSeq ≤ p.dirtySeq)
    (hseq : q.dirtySeq = p.dirtySeq + 1) (hpe : q.persistedSeq = p.persistedSeq)
    (hcm : q.writebackSeq = p.writebackSeq) : Flying q frame w pending' stores f :=
  ⟨h.toClaimed.raise hp hseq hpe hcm, h.fresh, h.landed⟩

/-- Sections that touch neither sequences nor guards (the leases). -/
theorem Settled.leave (h : Settled p frame w pending) (hq : q = {p with leases := q.leases}) :
    Settled q frame w pending := by
  rw [hq]
  exact ⟨h.persisted_le, h.submitted_le, h.clean⟩

theorem Claimed.leave (h : Claimed p pending stores f) (hq : q = {p with leases := q.leases}) :
    Claimed q pending stores f := by
  rw [hq]
  exact {h with}

theorem Flying.leave (h : Flying p frame w pending stores f) (hq : q = {p with leases := q.leases}) :
    Flying q frame w pending stores f :=
  ⟨h.toClaimed.leave hq, h.fresh, h.landed⟩

theorem Settled.claim (h : Settled p frame w pending) : Settled p.claim frame w pending :=
  ⟨h.persisted_le, le_rfl, h.clean⟩

theorem Claimed.claim (hd : p.isDirty) (snapshot : β) :
    Claimed p.claim pending stores ⟨p.dirtySeq, snapshot, stores, none⟩ where
  claimed := rfl
  seq_le := le_rfl
  dirty := hd
  current := fun _ _ _ => rfl
  stores_le := le_rfl

/-- The snapshot is taken under the lock that claims the sequence, so it starts out current. -/
theorem Flying.claim (hd : p.isDirty) :
    Flying p.claim frame w pending stores ⟨p.dirtySeq, frame, stores, none⟩ :=
  ⟨.claim hd frame, fun _ => rfl, nofun⟩

/-- Writing the snapshot out leaves the page dirty until the outcome is reported. -/
theorem Settled.land (h : Settled p frame w pending) (hd : p.isDirty) (written' : β) :
    Settled p frame written' pending :=
  ⟨h.persisted_le, h.submitted_le, fun hc => by rw [hd] at hc; exact nomatch hc⟩

theorem Claimed.land (h : Claimed p pending stores f) (succeeded : Bool) :
    Claimed p pending stores {f with outcome := some succeeded} :=
  {h with}

theorem Flying.land (h : Flying p frame w pending stores f) (succeeded : Bool) :
    Flying p frame (if succeeded then f.snapshot else w) pending stores
      {f with outcome := some succeeded} :=
  ⟨h.toClaimed.land succeeded, h.fresh, fun ho he => by rw [Option.some.inj ho, ← h.fresh he]; rfl⟩

/-- A reported writeback leaves the page dirty unless its sequence is still the current one
and no guard is left. -/
theorem Claimed.report_clean (h : Claimed p pending stores f)
    (hc : (p.report f.seq succeeded).isDirty = false) :
    succeeded ∧ p.dirtySeq = f.seq ∧ p.sharedGuardGroups = 0 := by
  have hd := PageState.isDirty_eq_true.mp h.dirty
  have hle := h.seq_le
  rw [PageState.isDirty_eq_false] at hc
  cases succeeded with
  | false =>
    obtain ⟨hseq, hgs⟩ : p.dirtySeq ≤ p.persistedSeq ∧ p.sharedGuardGroups = 0 := hc
    omega
  | true =>
    obtain ⟨hseq, hgs⟩ : p.dirtySeq ≤ max p.persistedSeq f.seq ∧ p.sharedGuardGroups = 0 := hc
    exact ⟨rfl, by omega, hgs⟩

theorem Settled.report (h : Settled p frame w pending) (hf : Flying p frame w pending stores f)
    (hdo : f.outcome = some succeeded) : Settled (p.report f.seq succeeded) frame w pending where
  persisted_le := by
    cases succeeded with
    | false => exact h.persisted_le
    | true => exact Nat.max_le.mpr ⟨h.persisted_le, hf.seq_le⟩
  submitted_le := by cases succeeded <;> exact h.submitted_le
  clean := fun hc hnot => by
    obtain ⟨rfl, hseq, hgs⟩ := hf.report_clean hc
    exact hf.landed hdo (hf.current hgs hseq hnot)

end Sections

/-! ### Any number of parties on one page -/

/-- Where one party stands. -/
inductive Phase (β : Type) where
  | idle
  /-- Holds a lease. -/
  | leased
  /-- A writer that has made a store, the `n`-th one, and not marked the page dirty yet. -/
  | stored (n : Nat)
  | marked
  /-- A shared-write guard, with the lease it was taken through still held. -/
  | guarded
  | guarding
  /-- An explicit writeback waiting for another one to report. -/
  | waiting
  | flying (f : Flight β)
  deriving DecidableEq

def Phase.isFlying {β : Type} : Phase β → Bool
  | .flying _ => true
  | _ => false

def Phase.isStored {β : Type} : Phase β → Bool
  | .stored _ => true
  | _ => false

def Phase.holdsGuard {β : Type} : Phase β → Bool
  | .guarded | .guarding => true
  | _ => false

/-- One page, its frame, the last snapshot written out successfully (what the page was
loaded with before there is one), how many stores the frame has seen, and the parties.
`marked` is the last store that was made through a guard or that its writer has marked. -/
structure State (ι β : Type) where
  page : PageState
  frame : β
  written : β
  stores : Nat
  marked : Nat
  phase : ι → Phase β

inductive Action (β : Type) where
  | lease
  | store (bytes : β)
  | markDirty
  | dropLease
  | takeGuard
  | dropGuard
  | writeback (explicit : Bool)
  | waitFails
  | writeOut (succeeded : Bool)
  | report

section Machine
variable {ι β : Type} [DecidableEq ι]

def initial (frame : β) : State ι β :=
  { page := .clean
    frame := frame
    written := frame
    stores := 0
    marked := 0
    phase := fun _ => .idle }

def goto (s : State ι β) (i : ι) (phase : Phase β) : State ι β :=
  {s with phase := update s.phase i phase}

/-- Some writer is between its store and its `mark_dirty`. -/
def State.pending {ι β : Type} (s : State ι β) : Prop := ∃ i, (s.phase i).isStored

/-- Runs a section that may fail: an error is returned to the caller with the state as it
was, a panic ends the run. -/
def sectionStep (s : State ι β) (i : ι) (result : Except Stop PageState) (next : Phase β) :
    Option (State ι β) :=
  match result with
  | .ok page => some (goto {s with page := page} i next)
  | .error (.error _) => some s
  | .error .panic => none

/-- The first section of `writeback_page`. -/
def writebackStep (s : State ι β) (i : ι) (explicit : Bool) : State ι β :=
  match s.page.writebackAction explicit with
  | .skip => goto s i .idle
  | .wait => goto s i .waiting
  | .submit =>
    goto {s with page := s.page.claim} i (.flying ⟨s.page.dirtySeq, s.frame, s.stores, none⟩)

def step (label : ι × Action β) (s : State ι β) : Option (State ι β) :=
  let i := label.1
  match s.phase i, label.2 with
  | .idle, .lease => sectionStep s i s.page.takeLease .leased
  | .leased, .store bytes => some (goto {s with frame := bytes, stores := s.stores + 1} i (.stored (s.stores + 1)))
  | .stored n, .markDirty => sectionStep {s with marked := max s.marked n} i s.page.markDirty .marked
  | .leased, .dropLease => some (goto {s with page := s.page.dropLease} i .idle)
  | .marked, .dropLease => some (goto {s with page := s.page.dropLease} i .idle)
  | .leased, .takeGuard => sectionStep s i s.page.takeGuard .guarded
  | .guarded, .dropLease => some (goto {s with page := s.page.dropLease} i .guarding)
  | .guarded, .store bytes => some {s with frame := bytes, stores := s.stores + 1, marked := s.stores + 1}
  | .guarding, .store bytes => some {s with frame := bytes, stores := s.stores + 1, marked := s.stores + 1}
  | .guarding, .dropGuard => sectionStep s i s.page.dropGuard .idle
  | .idle, .writeback explicit => some (writebackStep s i explicit)
  | .waiting, .writeback true => some (writebackStep s i true)
  | .waiting, .waitFails => some (goto s i .idle)
  | .flying ⟨seq, snapshot, stores, none⟩, .writeOut succeeded =>
    some (goto {s with written := if succeeded then snapshot else s.written} i
      (.flying ⟨seq, snapshot, stores, some succeeded⟩))
  | .flying ⟨seq, _, _, some succeeded⟩, .report =>
    some (goto {s with page := s.page.report seq succeeded} i .idle)
  | _, _ => none

def machine : Machine (State ι β) (ι × Action β) := ⟨step⟩

end Machine

section Proofs
variable {ι β : Type} [Fintype ι] {s t : State ι β} (frame : β)

structure Inv (s : State ι β) : Prop where
  settled : Settled s.page s.frame s.written s.pending
  flying : ∀ i f, s.phase i = .flying f → Flying s.page s.frame s.written s.pending s.stores f
  flights : count Phase.isFlying s.phase = s.page.writebackSeq.isSome.toNat
  guards : s.page.sharedGuardGroups = count Phase.holdsGuard s.phase

theorem initial_inv : Inv (initial frame : State ι β) where
  settled := (Settled.initial frame).mono False.elim
  flying := nofun
  flights := count_eq_zero.mpr fun _ => rfl
  guards := (count_eq_zero.mpr fun _ => rfl).symm

variable {i : ι}

/-- At most one writeback is in flight. -/
theorem Inv.flight_unique (h : Inv s) {j : ι} (hi : (s.phase i).isFlying) (hj : (s.phase j).isFlying) :
    i = j := by
  by_contra hne
  have htwo := two_le_count hne hi hj
  have hone := Bool.toNat_le s.page.writebackSeq.isSome
  have := h.flights
  omega

variable [DecidableEq ι] {p : Phase β}

omit [Fintype ι] in
theorem pending_goto (hi : (s.phase i).isStored = false) (h : s.pending) :
    ∃ j, (update s.phase i p j).isStored := by
  obtain ⟨j, hj⟩ := h
  refine ⟨j, ?_⟩
  rw [update_of_ne]
  · exact hj
  · rintro rfl
    exact absurd (hj.symm.trans hi) nofun

variable {page : PageState} {q : Phase β}

section
variable (h : Inv s)
include h

/-- A party moves and the page's section, its frame and its written snapshot change with
it: what is left of the invariant is its own counts, and `Settled` and `Flying` as the
section lemmas give them. -/
theorem Inv.move (i : ι) {frame w : β} {stores : Nat}
    (hse : ∀ pending : Prop, ((s.phase i).isStored = false → s.pending → pending) → (q.isStored → pending) →
      Settled page frame w pending) (hfy : ∀ j f, j ≠ i → s.phase j = .flying f → ∀ pending : Prop,
      ((s.phase i).isStored = false → s.pending → pending) → (q.isStored → pending) →
      Flying page frame w pending stores f)
    (hmi : ∀ f, q = .flying f → ∀ pending : Prop, ((s.phase i).isStored = false → s.pending → pending) →
      Flying page frame w pending stores f)
    (hfl : page.writebackSeq.isSome.toNat + (s.phase i).isFlying.toNat =
      s.page.writebackSeq.isSome.toNat + q.isFlying.toNat)
    (hgs : page.sharedGuardGroups + (s.phase i).holdsGuard.toNat = s.page.sharedGuardGroups + q.holdsGuard.toNat) :
    Inv (goto {s with page := page, frame := frame, written := w, stores := stores} i q) where
  settled := hse _ pending_goto (fun hq => ⟨i, by simpa only [goto, update_self] using hq⟩)
  flying := by
    intro j f hj
    obtain ⟨-, hq⟩ | ⟨hji, hj⟩ := update_cases hj
    · exact hmi f hq _ pending_goto
    · exact hfy j f hji hj _ pending_goto (fun hq => ⟨i, by simpa only [goto, update_self] using hq⟩)
  flights := by
    have := count_update Phase.isFlying s.phase i q
    have := h.flights
    simp only [goto]
    omega
  guards := by
    have := count_update Phase.holdsGuard s.phase i q
    have := h.guards
    simp only [goto]
    omega

omit [DecidableEq ι] in
theorem Inv.mark (n : Nat) : Inv {s with marked := n} := ⟨h.settled, h.flying, h.flights, h.guards⟩

section
variable (hp : s.phase i = p)
include hp

/-- A section that changes only the lease count. -/
theorem Inv.lease (hpg : page = {s.page with leases := page.leases}) (hstd : p.isStored = false)
    (hfy : q.isFlying = false ∧ p.isFlying = false) (hgd : q.holdsGuard = p.holdsGuard) :
    Inv (goto {s with page := page} i q) := by
  subst hp
  refine h.move i (fun _ hold _ => (h.settled.leave hpg).mono (hold hstd))
    (fun j f _ hj _ hold _ => ((h.flying j f hj).leave hpg).mono (hold hstd)) ?_ ?_ ?_
  · rintro f rfl
    cases hfy.1
  · rw [hfy.1, hfy.2, hpg]
  · rw [hgd, hpg]

/-- A section that dirties the page once more. -/
theorem Inv.raise (hseq : page.dirtySeq = s.page.dirtySeq + 1)
    (hpe : page.persistedSeq = s.page.persistedSeq) (hsu : page.submittedSeq = s.page.submittedSeq)
    (hcm : page.writebackSeq = s.page.writebackSeq)
    (hgs : page.sharedGuardGroups + p.holdsGuard.toNat = s.page.sharedGuardGroups + q.holdsGuard.toNat)
    (hfy : q.isFlying = false ∧ p.isFlying = false) : Inv (goto {s with page := page} i q) := by
  subst hp
  refine h.move i (fun _ _ _ => h.settled.raise hseq hpe hsu)
    (fun j f _ hj _ _ _ => (h.flying j f hj).raise h.settled.persisted_le hseq hpe hcm) ?_ ?_
    hgs
  · rintro f rfl
    cases hfy.1
  · rw [hfy.1, hfy.2, hcm]

/-- Moving on with nothing else changed. -/
theorem Inv.pass (hstd : p.isStored = false)
    (hfy : q.isFlying = false ∧ p.isFlying = false) (hgd : q.holdsGuard = p.holdsGuard) :
    Inv (goto s i q) :=
  h.lease hp rfl hstd hfy hgd

theorem Inv.writeback (hstd : p.isStored = false)
    (hfy : p.isFlying = false) (hgd : p.holdsGuard = false) (expl : Bool) :
    Inv (writebackStep s i expl) := by
  unfold writebackStep
  split
  · exact h.pass hp hstd ⟨rfl, hfy⟩ hgd.symm
  · exact h.pass hp hstd ⟨rfl, hfy⟩ hgd.symm
  next hsu =>
    obtain ⟨hd, hid⟩ := PageState.submit_dirty hsu
    subst hp
    -- Nobody else is flying: the page had no claimed sequence.
    have hn : ∀ j, (s.phase j).isFlying = false := by
      apply count_eq_zero.mp
      rw [h.flights, hid]
      rfl
    refine h.move i (fun _ hold _ => h.settled.claim.mono (hold hstd)) ?_ ?_ ?_ ?_
    · intro j f _ hj
      have := hn j
      rw [hj] at this
      cases this
    · intro f hf _ _
      cases hf
      exact .claim hd
    · rw [hfy, hid]
      rfl
    · rw [hgd]
      rfl

end

omit [DecidableEq ι] in
/-- A store through a live guard. -/
theorem Inv.guardStore (hi : (s.phase i).holdsGuard) (bs : β) :
    Inv {s with frame := bs, stores := s.stores + 1} := by
  have hgd : s.page.sharedGuardGroups ≠ 0 := by
    rw [h.guards]
    exact (count_pos hi).ne'
  exact ⟨h.settled.store _ (.inr hgd), fun j f hj => (h.flying j f hj).store _ (.inr hgd),
    h.flights, h.guards⟩

end

omit [Fintype ι] in
theorem sectionStep_eq {res : Except Stop PageState} {next : Phase β} (h : sectionStep s i res next = some t) :
    t = s ∨ ∃ page, res = .ok page ∧ t = goto {s with page := page} i next := by
  unfold sectionStep at h
  split at h
  · exact .inr ⟨_, rfl, (Option.some.inj h).symm⟩
  · exact .inl (Option.some.inj h).symm
  · cases h

theorem step_inv (l : ι × Action β) (s t : State ι β) (h : Inv s) (hst : step l s = some t) :
    Inv t := by
  obtain ⟨i, a⟩ := l
  simp only [step] at hst
  split at hst
  case h_1 hp =>
    obtain rfl | ⟨page, hpg, rfl⟩ := sectionStep_eq hst
    · exact h
    · exact h.lease hp (by rw [PageState.takeLease_eq hpg]) rfl ⟨rfl, rfl⟩ rfl
  case h_2 hp =>
    cases hst
    refine h.move i (fun _ _ hq => h.settled.store _ (.inl (hq rfl)))
      (fun j f _ hj _ _ hq => (h.flying j f hj).store _ (.inl (hq rfl))) nofun ?_ ?_ <;>
      rw [hp] <;> rfl
  case h_3 hp =>
    obtain rfl | ⟨page, hpg, rfl⟩ := sectionStep_eq hst
    · exact h.mark _
    · have := PageState.markDirty_eq hpg
      exact (h.mark _).raise hp (by rw [this]) (by rw [this]) (by rw [this]) (by rw [this]) (by rw [this]; rfl)
        ⟨rfl, rfl⟩
  case h_4 hp =>
    cases hst
    exact h.lease hp rfl rfl ⟨rfl, rfl⟩ rfl
  case h_5 hp =>
    cases hst
    exact h.lease hp rfl rfl ⟨rfl, rfl⟩ rfl
  case h_6 hp =>
    obtain rfl | ⟨page, hpg, rfl⟩ := sectionStep_eq hst
    · exact h
    · have := PageState.takeGuard_eq hpg
      exact h.raise hp (by rw [this]) (by rw [this]) (by rw [this]) (by rw [this]) (by rw [this]; rfl)
        ⟨rfl, rfl⟩
  case h_7 hp =>
    cases hst
    exact h.lease hp rfl rfl ⟨rfl, rfl⟩ rfl
  case h_8 hp =>
    cases hst
    exact (h.guardStore (by rw [hp]; rfl) _).mark _
  case h_9 hp =>
    cases hst
    exact (h.guardStore (by rw [hp]; rfl) _).mark _
  case h_10 hp =>
    obtain rfl | ⟨page, hpg, rfl⟩ := sectionStep_eq hst
    · exact h
    · have hpos : 0 < s.page.sharedGuardGroups := by
        rw [h.guards]
        exact count_pos (by rw [hp]; rfl)
      have := PageState.dropGuard_eq hpg
      refine h.raise hp (by rw [this]) (by rw [this]) (by rw [this]) (by rw [this]) ?_ ⟨rfl, rfl⟩
      rw [this]
      exact Nat.sub_add_cancel hpos
  case h_11 hp =>
    cases hst
    exact h.writeback hp rfl rfl rfl _
  case h_12 hp =>
    cases hst
    exact h.writeback hp rfl rfl rfl _
  case h_13 hp =>
    cases hst
    exact h.pass hp rfl ⟨rfl, rfl⟩ rfl
  case h_14 succeeded hp =>
    cases hst
    have hf := h.flying i _ hp
    have hstd : (s.phase i).isStored = false := by rw [hp]; rfl
    refine h.move i (fun _ hold _ => (h.settled.land hf.dirty _).mono (hold hstd)) ?_ ?_ ?_ ?_
    · intro j f hne hj
      exact absurd (h.flight_unique (by rw [hj]; rfl) (by rw [hp]; rfl)) hne
    · intro f hf' _ hold
      cases hf'
      exact (hf.land succeeded).mono (hold hstd)
    · rw [hp]
      rfl
    · rw [hp]
      rfl
  case h_15 succeeded hp =>
    cases hst
    have hf := h.flying i _ hp
    have hstd : (s.phase i).isStored = false := by rw [hp]; rfl
    refine h.move i (fun _ hold _ => (h.settled.report hf rfl).mono (hold hstd)) ?_ nofun ?_ ?_
    · intro j f hne hj
      exact absurd (h.flight_unique (by rw [hj]; rfl) (by rw [hp]; rfl)) hne
    · rw [hp, hf.claimed]
      cases succeeded <;> rfl
    · rw [hp]
      cases succeeded <;> rfl
  case h_16 => cases hst

/-- A marked store is one of the stores, and the writeback of a snapshot from before it cannot
be the last word: its sequence is old, or a guard is left. -/
structure Covered (s : State ι β) : Prop where
  marked_le : s.marked ≤ s.stores
  stored_le : ∀ i n, s.phase i = .stored n → n ≤ s.stores
  old : ∀ i f, s.phase i = .flying f → f.stores < s.marked →
    f.seq < s.page.dirtySeq ∨ s.page.sharedGuardGroups ≠ 0

theorem Covered.move (hc : Covered s) (h : Inv s) {frame w : β} {stores marked : Nat}
    (hpg : s.page.dirtySeq < page.dirtySeq ∨ page.dirtySeq = s.page.dirtySeq ∧
      page.sharedGuardGroups = s.page.sharedGuardGroups ∧ marked = s.marked)
    (hle : marked ≤ stores) (hsto : s.stores ≤ stores) (hq : ∀ n, q = .stored n → n ≤ stores)
    (hfy : ∀ f, q = .flying f → marked ≤ f.stores ∨
      ∃ g, s.phase i = .flying g ∧ g.seq = f.seq ∧ g.stores = f.stores) :
    Covered (goto ⟨page, frame, w, stores, marked, s.phase⟩ i q) where
  marked_le := hle
  stored_le := fun j n hj => by
    obtain ⟨-, hj⟩ | ⟨-, hj⟩ := update_cases hj
    · exact hq n hj
    · exact (hc.stored_le j n hj).trans hsto
  old := fun j f hj hlt => by
    -- Whichever flight it is, it was one before, and it has the same sequence.
    obtain ⟨k, g, hk, hseq, hst⟩ : ∃ k g, s.phase k = .flying g ∧ g.seq = f.seq ∧ g.stores = f.stores := by
      obtain ⟨-, hj⟩ | ⟨-, hj⟩ := update_cases hj
      · obtain hle | ⟨g, hg⟩ := hfy f hj
        · exact absurd hlt hle.not_gt
        · exact ⟨i, g, hg⟩
      · exact ⟨j, f, hj, rfl, rfl⟩
    rw [← hseq]
    obtain hup | ⟨hse, hgs, hm⟩ := hpg
    · exact .inl ((h.flying k g hk).seq_le.trans_lt hup)
    · simp only [goto, hse, hgs]
      exact hc.old k g hk (by rw [hst, ← hm]; exact hlt)

omit [DecidableEq ι] in
theorem Covered.guardStore (hc : Covered s) (h : Inv s) (hi : (s.phase i).holdsGuard) (bs : β) :
    Covered {s with frame := bs, stores := s.stores + 1, marked := s.stores + 1} where
  marked_le := le_rfl
  stored_le := fun j n hj => (hc.stored_le j n hj).trans (Nat.le_succ _)
  old := fun _ _ _ _ => .inr (by rw [h.guards]; exact (count_pos hi).ne')

theorem Covered.writeback (hc : Covered s) (h : Inv s) (i : ι) (expl : Bool) : Covered (writebackStep s i expl) := by
  unfold writebackStep
  split
  · exact hc.move h (.inr ⟨rfl, rfl, rfl⟩) hc.marked_le le_rfl nofun nofun
  · exact hc.move h (.inr ⟨rfl, rfl, rfl⟩) hc.marked_le le_rfl nofun nofun
  · refine hc.move h (.inr ⟨rfl, rfl, rfl⟩) hc.marked_le le_rfl nofun fun f hf => .inl ?_
    cases hf
    exact hc.marked_le

theorem step_covered (l : ι × Action β) (s t : State ι β) (h : Inv s) (hc : Covered s)
    (hst : step l s = some t) : Covered t := by
  obtain ⟨i, a⟩ := l
  simp only [step] at hst
  split at hst
  case h_1 =>
    obtain rfl | ⟨page, hpg, rfl⟩ := sectionStep_eq hst
    · exact hc
    · cases PageState.takeLease_eq hpg
      exact hc.move h (.inr ⟨rfl, rfl, rfl⟩) hc.marked_le le_rfl nofun nofun
  case h_2 =>
    cases hst
    refine hc.move h (.inr ⟨rfl, rfl, rfl⟩) (hc.marked_le.trans (Nat.le_succ _)) (Nat.le_succ _) (fun n hn => ?_) nofun
    cases hn
    exact le_rfl
  case h_3 n hp =>
    have hle := max_le hc.marked_le (hc.stored_le i n hp)
    simp only [sectionStep, PageState.markDirty] at hst
    by_cases hlt : s.page.dirtySeq + 1 < 2 ^ 64
    · rw [if_pos hlt] at hst
      cases hst
      exact hc.move h (.inl (Nat.lt_succ_self _)) hle le_rfl nofun nofun
    · rw [if_neg hlt] at hst
      cases hst
  case h_4 | h_5 | h_7 | h_13 =>
    cases hst
    exact hc.move h (.inr ⟨rfl, rfl, rfl⟩) hc.marked_le le_rfl nofun nofun
  case h_6 =>
    obtain rfl | ⟨page, hpg, rfl⟩ := sectionStep_eq hst
    · exact hc
    · cases PageState.takeGuard_eq hpg
      exact hc.move h (.inl (Nat.lt_succ_self _)) hc.marked_le le_rfl nofun nofun
  case h_8 hp | h_9 hp =>
    cases hst
    exact hc.guardStore h (by rw [hp]; rfl) _
  case h_10 =>
    obtain rfl | ⟨page, hpg, rfl⟩ := sectionStep_eq hst
    · exact hc
    · cases PageState.dropGuard_eq hpg
      exact hc.move h (.inl (Nat.lt_succ_self _)) hc.marked_le le_rfl nofun nofun
  case h_11 | h_12 =>
    cases hst
    exact hc.writeback h i _
  case h_14 hp =>
    cases hst
    refine hc.move h (.inr ⟨rfl, rfl, rfl⟩) hc.marked_le le_rfl nofun fun f hf => .inr ?_
    cases hf
    exact ⟨_, hp, rfl, rfl⟩
  case h_15 succeeded _ =>
    cases hst
    exact hc.move h (.inr (by cases succeeded <;> exact ⟨rfl, rfl, rfl⟩)) hc.marked_le le_rfl nofun nofun
  case h_16 => cases hst

structure Sound (s : State ι β) : Prop extends Inv s, Covered s

omit [DecidableEq ι] in
theorem initial_sound : Sound (initial frame : State ι β) :=
  {initial_inv frame with marked_le := le_rfl, stored_le := nofun, old := nofun}

theorem step_sound (l : ι × Action β) (s t : State ι β) (h : Sound s) (hst : step l s = some t) : Sound t :=
  ⟨step_inv l s t h.toInv hst, step_covered l s t h.toInv h.toCovered hst⟩

/-- **A clean page holds what was last written out.** In every state any interleaving of
writers, shared-write guards and writebacks reaches: neither the persisted nor the
submitted sequence is ahead of the dirty one; at most one writeback is in flight; a page
that is not dirty, with no writer between its store and its `mark_dirty`, holds exactly
the last snapshot that was written out; and a writeback leaves the page dirty if a store
newer than its snapshot was made through a guard or has been marked when it reports. -/
theorem clean_is_written (frame : β) (labels : List (ι × Action β))
    (hrun : machine.run (initial frame) labels = some s) :
    s.page.persistedSeq ≤ s.page.dirtySeq ∧ s.page.submittedSeq ≤ s.page.dirtySeq ∧
      (∀ i j, (s.phase i).isFlying = true → (s.phase j).isFlying = true → i = j) ∧
      (s.page.isDirty = false → (∀ i n, s.phase i ≠ .stored n) → s.written = s.frame) ∧
      (∀ i f t, s.phase i = .flying f → step (i, .report) s = some t → f.stores < s.marked →
        t.page.isDirty = true) := by
  have h : Sound s := Machine.run_induct step_sound labels (initial_sound frame) hrun
  refine ⟨h.settled.persisted_le, h.settled.submitted_le, fun i j => h.toInv.flight_unique, ?_, ?_⟩
  · intro hc hn
    refine h.settled.clean hc fun ⟨i, hi⟩ => ?_
    cases hp : s.phase i with
    | stored n => exact hn i n hp
    | _ => simp [hp, Phase.isStored] at hi
  · intro i f t hi hst hnewer
    have hf := h.flying i f hi
    have hold := h.old i f hi hnewer
    obtain ⟨seq, snapshot, stores, outcome⟩ := f
    cases outcome with
    | none => simp [step, hi] at hst
    | some succeeded =>
      simp only [step, hi, Option.some.injEq] at hst
      subst hst
      by_contra hd
      have hc : (s.page.report seq succeeded).isDirty = false := by simpa [goto] using hd
      obtain ⟨-, hseq, hgs⟩ := hf.report_clean hc
      exact hold.elim (fun hlt => hlt.ne hseq.symm) fun hne => hne hgs

inductive Party where
  | first
  | second
  | worker
  deriving DecidableEq

instance : Fintype Party := ⟨{.first, .second, .worker}, fun party => by cases party <;> decide⟩

/-- A second writer stores while the first one's data is being written back. -/
def overtaken : List (Party × Action Nat) :=
  [(.first, .lease), (.first, .store 7), (.first, .markDirty), (.worker, .writeback false), (.worker, .writeOut true),
    (.second, .lease), (.second, .store 9)]

theorem clean_is_written_overtaken : ∃ s t : State Party Nat,
    machine.run (initial 0) (overtaken ++ [(.second, .markDirty)]) = some s ∧
      step (.worker, .report) s = some t ∧ t.page.isDirty = true :=
  ⟨_, _, rfl, rfl, (clean_is_written 0 (overtaken ++ [(.second, .markDirty)]) rfl).2.2.2.2 .worker _ _ rfl rfl (by decide)⟩

/-- If the second writer has not marked the page yet, the report makes it clean. -/
theorem overtaken_unmarked : ∃ (s t : State Party Nat) (f : Flight Nat),
    machine.run (initial 0) overtaken = some s ∧ s.phase .worker = .flying f ∧ f.stores < s.stores ∧
      step (.worker, .report) s = some t ∧ t.page.isDirty = false :=
  ⟨_, _, _, rfl, rfl, by decide, rfl, rfl⟩

end Proofs

end StarryX.Cache.DirtySequence
