import StarryX.Vma.Residency

/-! Faults keep every leaf in order.

`Sits` is `Good` for the space that an operation works on. A call to an object may change what the
object keeps, but no leaf; a fault changes the leaf of its own page only. An operation stops in a
panic only where a count of references has no room left. -/
namespace StarryX.Vma
open Library Mm Function
open VirtAddrRange (contains_iff fromStartSize)
open Good (alloc drop inside sameWorld)

section Resolving
variable {arch : Arch} {ι : Type} [Fintype ι] {α : Type} {w w' w'' : World ι} {held : List Frame} {k : Kernel arch ι}
  {v t u : Vm arch ι} {m : Memory arch ι} {f : Frame}

/-! ### Programs on parts of the state -/

/-- Some frame has as many references as a count can hold. -/
def Kernel.Full (k : Kernel arch ι) : Prop := ∃ p, k.memory.refCount p = 2 ^ 32 - 1

def Vm.withMemory (v : Vm arch ι) (m : Memory arch ι) : Vm arch ι := {v with kernel := v.kernel.withMemory m}

section Lifting
variable {x : Prog arch ι α} {R : α → Memory arch ι → Prop} {F : XStop → Memory arch ι → Prop}

theorem Kernel.onMemory_spec {Q : α → Kernel arch ι → Prop} {E : XStop → Kernel arch ι → Prop}
    (h : Inv w k.memory) (hx : Triple (Inv w) x R F) (hQ : ∀ a m, R a m → Q a (k.withMemory m))
    (hE : ∀ e m, F e m → E e (k.withMemory m)) : Runs k (Kernel.onMemory x) Q E :=
  .zoom (hx.resume h) hQ hE

/-- A program that cannot fail. -/
theorem Kernel.onMemory_total {Q : α → Kernel arch ι → Prop} {E : XStop → Kernel arch ι → Prop}
    (h : Inv w k.memory) (hx : Triple (Inv w) x R fun _ _ => False) (hQ : ∀ a m, R a m → Q a (k.withMemory m)) :
    Runs k (Kernel.onMemory x) Q E :=
  Kernel.onMemory_spec h hx hQ fun _ _ h => h.elim

variable {Q : α → Vm arch ι → Prop} {E : XStop → Vm arch ι → Prop}

theorem onMemory_spec (h : Inv w v.kernel.memory) (hx : Triple (Inv w) x R F)
    (hQ : ∀ a m, R a m → Q a (v.withMemory m)) (hE : ∀ e m, F e m → E e (v.withMemory m)) :
    Runs v (onMemory x) Q E :=
  .zoom (Kernel.onMemory_spec h hx hQ hE) (fun _ _ h => h) fun _ _ h => h

theorem onMemory_total (h : Inv w v.kernel.memory) (hx : Triple (Inv w) x R fun _ _ => False)
    (hQ : ∀ a m, R a m → Q a (v.withMemory m)) : Runs v (onMemory x) Q E :=
  onMemory_spec h hx hQ fun _ _ h => h.elim

/-- What `tryMemory` leaves behind: after an error, memory is as `F` says. -/
def Tried (v : Vm arch ι) (R : α → Memory arch ι → Prop) (F : Memory arch ι → Prop) : Except XError α → Vm arch ι → Prop
  | .ok a, t => ∃ m, t = v.withMemory m ∧ R a m
  | .error _, t => ∃ m, t = v.withMemory m ∧ F m

/-- Errors are looked at, and there is no panic. -/
theorem tryMemory_spec {F : Memory arch ι → Prop} {Q : Except XError α → Vm arch ι → Prop} (h : Inv w v.kernel.memory)
    (hx : Triple (Inv w) x R fun e m => e ≠ .panic ∧ F m) (hok : ∀ a m, R a m → Q (.ok a) (v.withMemory m))
    (her : ∀ e m, F m → Q (.error e) (v.withMemory m)) : Runs v (tryMemory x) Q E := by
  have hrun : Runs v (onMemory x) (fun a t => Q (.ok a) t)
      fun e t => ∃ code, e = .error code ∧ Q (.error code) t := by
    refine onMemory_spec h hx hok fun e m hm => ?_
    cases e with
    | panic => exact absurd rfl hm.1
    | error code => exact ⟨code, rfl, her code m hm.2⟩
  refine .bind hrun.attempt fun r => ?_
  match r with
  | .ok a => exact .pure fun t ht => ht
  | .error (.error code) =>
    refine .pure fun t ⟨code, hco, ht⟩ => ?_
    obtain rfl := XStop.error.inj hco
    exact ht
  | .error .panic => exact fun t ht => nomatch ht.choose_spec.1

end Lifting

/-! ### Objects -/

section Objects
variable {sps : ι → Option (VmSpace arch)}

theorem fill_spec {E : XStop → Memory arch ι → Prop} (f : Frame) (bs : FrameBytes) :
    Triple (Inv w) (fill f bs) (fun _ => Inv {w with bytes := update w.bytes f.paddr bs}) E :=
  .modify fun _ h => {h with bytes := congrArg (fun all => update all f.paddr bs) h.bytes}

/-- Nothing happened to the leaves. -/
def SameLeaves (w w' : World ι) : Prop := w'.view = w.view ∧ w'.frames = w.frames

/-- What an object does between two changes of leaves. -/
def Aside (w : World ι) (held : List Frame) (spaces : ι → Option (VmSpace arch)) (k' : Kernel arch ι) : Prop :=
  ∃ w', Good w' held k' spaces ∧ SameLeaves w w'

theorem Aside.refl (h : Good w held k sps) : Aside w held sps k := ⟨w, h, rfl, rfl⟩

theorem perform_aside {E : XStop → Kernel arch ι → Prop} (act : Act) :
    Triple (Aside w held sps) act.perform (fun _ => Aside w held sps) E := by
  refine .start fun k ⟨w', h, hv⟩ => ?_
  cases act with
  | load obj bs =>
    refine .bind (Kernel.onMemory_total h.memory allocateZeroed_spec
      (Q := fun r k => r.elim (Aside w held sps k) fun f => Aside w (f :: held) sps k)
      fun r m hm => ?_) fun r => ?_
    · cases r with
      | none => exact ⟨w', h.sameWorld hm, hv⟩
      | some f => exact ⟨_, h.alloc f hm.2.1 hm.1, hv⟩
    · cases r with
      | none => exact .skip
      | some f =>
        refine .start fun k ⟨w', h, hv⟩ => ?_
        refine .bind (Kernel.onMemory_total h.memory (fill_spec f bs)
          (Q := fun _ => Aside w (f :: held) sps) fun _ m hm => ⟨_, h.bytes hm, hv⟩) fun _ => ?_
        exact .modify fun k ⟨w', h, hv⟩ => ⟨w', h.keep obj, hv⟩
  | store n bs =>
    refine .get_bind ?_
    cases k.kept[n]? with
    | none => exact .stay ⟨w', h, hv⟩
    | some kept =>
      exact Kernel.onMemory_total h.memory (fill_spec kept.frame bs) fun _ m hm => ⟨_, h.bytes hm, hv⟩
  | forget n =>
    refine .get_bind ?_
    cases hn : k.kept[n]? with
    | none => exact .stay ⟨w', h, hv⟩
    | some kept =>
      have hmem : kept.frame ∈ held ++ k.frames :=
        List.mem_append_right _ (List.mem_map_of_mem (List.mem_of_getElem? hn))
      obtain ⟨place, hpl⟩ := List.mem_iff_getElem?.mp hmem
      refine .modify_bind (Kernel.onMemory_total h.memory
        (dropFrame_spec (h.owned.refs_pos hpl)) fun _ m hm => ?_)
      exact ⟨_, h.forget hn hm, hv⟩

theorem performAll_aside {E : XStop → Kernel arch ι → Prop} (acts : List Act) :
    Triple (Aside w held sps) (acts.forM Act.perform) (fun _ => Aside w held sps) E :=
  .forM acts fun act _ => perform_aside act

theorem byteLen_aside {E : XStop → Kernel arch ι → Prop} (obj : Nat) :
    Triple (Aside w held sps) (byteLen obj) (fun _ => Aside w held sps) E :=
  .modifyGet fun _ ⟨w', h, hv⟩ =>
    ⟨w', h.unseen h.memory h.owned rfl rfl rfl (spares_of_eq rfl) rfl, hv⟩

/-- A page comes with a handle of the caller's own. -/
def Supplied (w : World ι) (held : List Frame) (spaces : ι → Option (VmSpace arch))
    (r : LinuxResult (Frame × Option Guard)) (k : Kernel arch ι) : Prop :=
  match r with
  | .ok (frame, _) => Aside w (frame :: held) spaces k
  | .error _ => Aside w held spaces k

theorem page_supplied (obj idx : Nat) (write : Bool) :
    Triple (Aside w held sps) (page obj idx write) (Supplied w held sps)
      (fun e k => e = .panic ∧ k.Full) := by
  refine .bind (.modifyGet (Q := fun _ => Aside w held sps) fun k ⟨w', h, hv⟩ => ?_) fun reply => ?_
  · exact ⟨w', h.unseen h.memory h.owned rfl rfl rfl (spares_of_eq rfl) rfl, hv⟩
  · refine .bind (performAll_aside reply.acts) fun _ => ?_
    match reply.result with
    | .error e => exact .pure fun k hk => hk
    | .ok (n, g) =>
      refine .start fun k ⟨w', h, hv⟩ => .get_bind ?_
      cases hkept : (k.kept[n]?).filter fun kept => kept.object == obj with
      | none => exact .pure fun t ht => ht ▸ ⟨w', h, hv⟩
      | some kept =>
        have hn := (Option.filter_eq_some_iff.mp hkept).1
        have hmem : kept.frame ∈ held ++ k.frames :=
          List.mem_append_right _ (List.mem_map_of_mem (List.mem_of_getElem? hn))
        obtain ⟨place, hpl⟩ := List.mem_iff_getElem?.mp hmem
        have hha := h.owned.handles_pos hpl
        refine .bind (Kernel.onMemory_spec h.memory (cloneFrame_spec (h.owned.refs_pos hpl)
            (E := fun e s => e = .panic ∧ s.refCount kept.frame.paddr = 2 ^ 32 - 1)
            fun s hs hfu => ⟨rfl, by rw [hs.refs, hfu]⟩)
          (Q := fun f => Aside w (f :: held) sps) (fun f m hm => ?_) fun e m hm => ?_) fun f => ?_
        · obtain ⟨rfl, hm⟩ := hm
          exact ⟨_, h.clone _ (h.owned.refs_pos hpl) (.inl hha) hm, hv⟩
        · exact ⟨hm.1, _, hm.2⟩
        · exact .pure fun k hk => hk

end Objects

/-! ### The space at work -/

variable [DecidableEq ι] {i : ι} {sps : ι → Option (VmSpace arch)} {lo hi addr : Nat} {E : XStop → Vm arch ι → Prop}
  {held' : List Frame} {guards : List (Nat × Guard)} {e : Nat × Guard}

/-- `Good`, with the space of an operation among the others. -/
def Sits (w : World ι) (held : List Frame) (i : ι) (spaces : ι → Option (VmSpace arch)) (v : Vm arch ι) : Prop :=
  Good w held v.kernel (update spaces i (some v.space))

theorem Sits.formed (h : Sits w held i sps v) : v.space.Formed := Good.formed h i v.space (update_self ..)

theorem Sits.backed (h : Sits w held i sps v) : AllBacked w.frames (values v.space.areas) :=
  Good.backed h i v.space (update_self ..)

theorem Sits.ofUpdate {space old : VmSpace arch}
    (h : Good w held k (update (update sps i (some old)) i (some space))) :
    Sits w held i sps ⟨k, space⟩ := by
  rwa [update_idem] at h

/-- Leaves change only in a range of one space. -/
structure Within (i : ι) (lo hi : Nat) (w w' : World ι) : Prop where
  view : ∀ j v, ¬ (j = i ∧ lo ≤ v ∧ v < hi) → w'.view j v = w.view j v
  frames : w'.frames = w.frames

omit [Fintype ι] in
theorem within_setLeaf (w : World ι) (hal : addr % frameSize = 0) (new : Option Leaf) :
    Within i addr (addr + frameSize) w (w.setLeaf i addr .size4K new) := by
  refine ⟨fun j v hout => ?_, rfl⟩
  by_cases hj : j = i
  · subst hj
    have hpg : ¬ PageTable.SamePage PageSize.size4K.level addr v := fun hpg =>
      hout ⟨rfl, (samePage4K_iff hal).mp hpg⟩
    simp [World.setLeaf, if_neg hpg]
  · simp [World.setLeaf, update_of_ne hj]

/-- Guards are recorded one by one. -/
def recordAll (guards recorded : List (Nat × Guard)) : List (Nat × Guard) :=
  recorded.foldl (fun guards e => insertGuard e.1 e.2 guards) guards

theorem mem_insertGuard {g : Guard} :
    e ∈ insertGuard addr g guards ↔ e = (addr, g) ∨ e ∈ guards := by
  induction guards with
  | nil => simp [insertGuard]
  | cons first rest ih =>
    unfold insertGuard
    split
    · rw [List.mem_cons, List.mem_cons]
      tauto
    · exact List.mem_cons

/-- What the work on a range of a space leaves: areas stay, leaves change only there, and guards
are only recorded there, for pages that are shared. -/
structure Worked (i : ι) (spaces : ι → Option (VmSpace arch)) (lo hi : Nat) (held : List Frame) (w : World ι)
    (v : Vm arch ι) (w' : World ι) (t : Vm arch ι) : Prop where
  sits : Sits w' held i spaces t
  within : Within i lo hi w w'
  same : SameAreas v t
  guards : ∃ recorded, t.space.writeGuards = recordAll v.space.writeGuards recorded ∧
    ∀ e ∈ recorded, (lo ≤ e.1 ∧ e.1 < hi) ∧ ∃ location, lookup v.space.areas e.1 = some location ∧ location.isPrivate = false

def Leads (i : ι) (spaces : ι → Option (VmSpace arch)) (lo hi : Nat) (held : List Frame) (w : World ι)
    (v t : Vm arch ι) : Prop := ∃ w', Worked i spaces lo hi held w v w' t

/-- No guard is recorded. -/
theorem Worked.plain (hsi : Sits w' held i sps t) (hwi : Within i lo hi w w') (hsc : t.space = v.space) :
    Worked i sps lo hi held w v w' t where
  sits := hsi
  within := hwi
  same := by
    rw [SameAreas, hsc]
    exact ⟨rfl, rfl⟩
  guards := ⟨[], by rw [hsc]; rfl, fun _ he => absurd he List.not_mem_nil⟩

theorem Worked.trans {lo' hi' : Nat} (h : Worked i sps lo' hi' held' w v w' t)
    (h' : Worked i sps lo hi held w' t w'' u) (hlo : lo ≤ lo') (hhi : hi' ≤ hi) :
    Worked i sps lo hi held w v w'' u where
  sits := h'.sits
  within := by
    refine ⟨fun j a hout => ?_, h'.within.frames.trans h.within.frames⟩
    exact (h'.within.view j a hout).trans (h.within.view j a fun hin => hout ⟨hin.1, by omega, by omega⟩)
  same := ⟨h'.same.1.trans h.same.1, h'.same.2.trans h.same.2⟩
  guards := by
    obtain ⟨recorded, hgu, hin⟩ := h.guards
    obtain ⟨recorded', hgu', hin'⟩ := h'.guards
    refine ⟨recorded ++ recorded', ?_, fun e he => ?_⟩
    · rw [hgu', hgu, recordAll, recordAll, recordAll, List.foldl_append]
    · obtain he | he := List.mem_append.mp he
      · obtain ⟨hrg, hloc⟩ := hin e he
        exact ⟨by omega, hloc⟩
      · obtain ⟨hrg, loc, hloc, hsh⟩ := hin' e he
        exact ⟨hrg, loc, h.same.2 ▸ hloc, hsh⟩

theorem Worked.still (hsi : Sits w' held i sps t) (hv : SameLeaves w w') (hsc : t.space = v.space) :
    Worked i sps lo hi held w v w' t := .plain hsi ⟨fun _ _ _ => by rw [hv.1], hv.2⟩ hsc

theorem Leads.still (hsi : Sits w' held i sps t) (hv : SameLeaves w w') (hsc : t.space = v.space) :
    Leads i sps lo hi held w v t := ⟨w', .still hsi hv hsc⟩

theorem Leads.refl (h : Sits w held i sps v) : Leads i sps lo hi held w v v := .still h ⟨rfl, rfl⟩ rfl

theorem leads_pure (r : α) (h : Sits w held i sps v) :
    Runs v (pure r) (fun _ => Leads i sps lo hi held w v) E := by
  rintro t rfl
  exact .refl h

theorem Worked.leads {lo' hi' : Nat} (h : Worked i sps lo' hi' held' w v w' t)
    (h' : Leads i sps lo hi held w' t u) (hlo : lo ≤ lo') (hhi : hi' ≤ hi) : Leads i sps lo hi held w v u :=
  h'.imp fun _ h' => h.trans h' hlo hhi

theorem Worked.page (h : Worked i sps addr addr held' w v w' t)
    (h' : Leads i sps addr (addr + frameSize) held w' t u) : Leads i sps addr (addr + frameSize) held w v u :=
  h.leads h' le_rfl (Nat.le_add_right _ _)

/-- A handle that is no longer needed. -/
theorem dropHeld_spec : Triple (Leads i sps lo hi (f :: held) w v) (onMemory (dropFrame f))
      (fun _ => Leads i sps lo hi held w v) E := by
  refine .start fun t ⟨w', ht⟩ => ?_
  refine onMemory_total ht.sits.memory (dropFrame_spec (ht.sits.owned.refs_pos (k := 0) rfl)) fun _ m hm => ?_
  exact ht.leads (.still (drop ht.sits hm) ⟨rfl, rfl⟩ rfl) le_rfl le_rfl

/-- The one way in which the work stops. -/
def Stuck (e : XStop) (t : Vm arch ι) : Prop := e = .panic ∧ t.kernel.Full

omit [Fintype ι] [DecidableEq ι] in
theorem onKernel_bind {x : KProg arch ι α} {f : α → VProg arch ι β} {R : α → Kernel arch ι → Prop}
    {F : XStop → Kernel arch ι → Prop} {Q : β → Vm arch ι → Prop}
    {P : Kernel arch ι → Prop} (hx : Triple P x R F) (hP : P v.kernel) (hE : ∀ e k, F e k → E e {v with kernel := k})
    (hf : ∀ a k, R a k → Runs {v with kernel := k} (f a) Q E) :
    Runs v (onKernel x >>= f) Q E := by
  refine .next (.zoom (hx.resume hP) (Q := fun a t => ∃ k, R a k ∧ t = {v with kernel := k})
    (fun _ k hk => ⟨k, hk, rfl⟩) hE) ?_
  rintro a t ⟨k, hk, rfl⟩
  exact hf a k hk

/-! ### One page -/

section Pages
variable {a : VmArea} {addr : Nat} {given : MappingFlags} {g : Option Guard}

/-- The guards after `recordGuard`. -/
def withGuard (guards : List (Nat × Guard)) (address : Nat) : Option Guard → List (Nat × Guard)
  | none => guards
  | some guard => insertGuard address guard guards

omit [DecidableEq ι] in
theorem commitPage_spec {c unused : Prog arch ι Unit} {R F : Memory arch ι → Prop}
    {Q : FaultResolution → Vm arch ι → Prop} (h : Inv w v.kernel.memory)
    (hchg : Triple (Inv w) c (fun _ => R) fun e m => e ≠ .panic ∧ F m)
    (hun : Triple (Inv w) unused (fun _ => F) fun _ _ => False)
    (hd : ∀ m, R m → Q .resolved {v.withMemory m with
      space.writeGuards := withGuard v.space.writeGuards addr g})
    (hfl : ∀ r m, F m → Q r (v.withMemory m)) :
    Runs v (commitPage addr g c unused) Q E := by
  have hro : Runs v (reserveWriteGuard g) (fun _ t => ∃ m, t = v.withMemory m ∧ Inv w m) E := by
    cases g with
    | none => exact .pure fun t ht => ⟨v.kernel.memory, ht, h⟩
    | some g =>
      have hre : Triple (Inv w) (reserve : Prog arch ι Unit) (fun _ => Inv w) fun e m => e ≠ .panic ∧ Inv w m :=
        reserve_spec fun m hm => ⟨XStop.error_ne_panic _, hm⟩
      refine .bind (tryMemory_spec h hre (Q := fun _ t => ∃ m, t = v.withMemory m ∧ Inv w m)
        (fun _ m hm => ⟨m, rfl, hm⟩) fun _ m hm => ⟨m, rfl, hm⟩) fun r => ?_
      cases r with
      | ok _ | error _ => exact .skip
  refine hro.bind fun room => .start fun t ⟨m, ht, hm⟩ => ?_
  subst ht
  cases room with
  | false =>
    refine .bind (onMemory_total hm hun (Q := fun _ t => ∃ m, t = v.withMemory m ∧ F m)
      fun _ m' hm' => ⟨m', rfl, hm'⟩) fun _ => .pure fun t ⟨m', ht, hm'⟩ => ?_
    exact ht ▸ hfl _ m' hm'
  | true =>
    refine .bind (tryMemory_spec hm hchg (Q := Tried v (fun _ => R) F)
      (fun _ m' hm' => ⟨m', rfl, hm'⟩) fun _ m' hm' => ⟨m', rfl, hm'⟩) fun r => ?_
    cases r with
    | error e => exact .pure fun t ⟨m', ht, hm'⟩ => ht ▸ hfl _ m' hm'
    | ok _ =>
      refine .start fun t ⟨m', ht, hm'⟩ => ?_
      subst ht
      cases g with
      | none => exact .pure fun t ht => ht ▸ hd m' hm'
      | some g => exact .modify_bind (.pure fun t ht => ht ▸ hd m' hm')

theorem mem_withGuard (he : e ∈ guards) : e ∈ withGuard guards addr g := by
  cases g with
  | none => exact he
  | some g => exact mem_insertGuard.mpr (.inr he)

/-- A page of a fault is done, with its guard. -/
theorem Spot.worked (hsp : Spot v.space area addr) (hfo : v.space.Formed)
    (hsh : g.isSome → area.backing.isPrivate = false)
    (hsi : Sits w' held i sps {v.withMemory m with
      space.writeGuards := withGuard v.space.writeGuards addr g})
    (hwi : Within i addr (addr + frameSize) w w') :
    Worked i sps addr (addr + frameSize) held w v w' {v.withMemory m with
      space.writeGuards := withGuard v.space.writeGuards addr g} where
  sits := hsi
  within := hwi
  same := ⟨rfl, rfl⟩
  guards := by
    cases g with
    | none => exact ⟨[], rfl, fun _ he => absurd he List.not_mem_nil⟩
    | some g =>
      refine ⟨[(addr, g)], rfl, fun e he => ?_⟩
      rw [List.mem_singleton.mp he]
      have hpos : 0 < frameSize := by decide
      have hbe := hsp.below
      refine ⟨⟨le_rfl, by omega⟩, area.locate addr, ?_, hsh rfl⟩
      exact (lookup_eq_some hfo).mpr ⟨area, hsp.mem, contains_iff.mpr ⟨hsp.above, by omega⟩, rfl⟩

variable {E : XStop → Vm arch ι → Prop}

section Installing
variable (g) (h : Sits w (f :: held) i sps v) (hsp : Spot v.space a addr)
  (hsrc : (a.locate addr).origin.isStatic = false)
  (hfg : a.flags.contains (MappingFlags.access given) = true)
  (hlone : a.backing.isPrivate = true → given.write = true → w.refs f.paddr = 1)
  (hsh : g.isSome = true → a.backing.isPrivate = false)
  (htracked : a.backing.requiresWriteGuard v.kernel.guarded = true → given.write = true → g.isSome = true)
include h hsp hsrc hfg hlone hsh htracked

/-- A frame becomes the leaf of a page, and the guard of the page is yet to be recorded. -/
theorem mapFrame_worked : Triple (Inv w) (mapFrame i addr f given)
      (fun _ m => Leads i sps addr (addr + frameSize) held w v {v.withMemory m with
        space.writeGuards := withGuard v.space.writeGuards addr g})
      fun e m => e ≠ .panic ∧ Inv (w.drop f.paddr) m := by
  refine (mapFrame_spec (h.owned.refs_pos (k := 0) rfl) fun code m hm => ⟨nofun, hm⟩).post
    fun _ m ⟨leafFlags, hgv, _, hfr, hm⟩ => ?_
  obtain ⟨hac, hwr⟩ := pteFlags_access hgv
  have hal := fromFlags_alloc.mp (pteFlags_kind hgv)
  refine ⟨_, hsp.worked h.formed hsh (.ofUpdate (.mapped h (update_self ..) hsp hfr hal
    (fun e he => mem_withGuard he) (stored_stored arch leafFlags) ?_ hm)) ⟨(within_setLeaf w hsp.aligned _).view, rfl⟩⟩
  refine hsp.serves hsrc hal (contains_trans hfg hac) (fun hp hw => ?_) fun hnd hw => ?_
  · exact hlone hp (hwr hw)
  · obtain ⟨g, rfl⟩ := Option.isSome_iff_exists.mp (htracked hnd (hwr hw))
    exact ⟨g, mem_insertGuard.mpr (.inl rfl)⟩

/-- **A frame becomes the leaf of a page**, or is dropped. -/
theorem installPage_spec : Runs v (installPage i addr f given g)
      (fun _ => Leads i sps addr (addr + frameSize) held w v) E := by
  refine commitPage_spec h.memory (mapFrame_worked g h hsp hsrc hfg hlone hsh htracked)
    (dropFrame_spec (h.owned.refs_pos (k := 0) rfl)) (fun m hm => hm) fun r m hm => ?_
  exact .still (drop h hm) ⟨rfl, rfl⟩ rfl

end Installing

/-- **A write to a page that may not be shared**: the only owner gets the flag, any other a copy. -/
theorem resolvePrivateWrite_spec (h : Sits w held i sps v) (hsp : Spot v.space area addr)
    (hsrc : (area.locate addr).origin.isStatic = false) (hp : area.backing.isPrivate)
    (hsn : addr < arch.span) :
    Runs v (resolvePrivateWrite i addr area.flags)
      (fun _ => Leads i sps addr (addr + frameSize) held w v) E := by
  have hbal := h.owned.balanced
  have hst : ∀ m, Inv w m → Leads i sps addr (addr + frameSize) held w v (v.withMemory m) := fun m hm =>
    Leads.still (sameWorld h hm) ⟨rfl, rfl⟩ rfl
  have hno : area.backing.requiresWriteGuard v.kernel.guarded = false := requiresWriteGuard_private hp
  refine .bind (tryMemory_spec h.memory
    (frameIfShared_spec hbal hsn fun code m hm => ⟨XStop.error_ne_panic code, hm⟩)
    (Q := Tried v (SharedOrAlone w i addr) (Inv w)) (fun found m hm => ⟨m, rfl, hm⟩) fun e m hm => ⟨m, rfl, hm⟩)
    fun r => ?_
  obtain e | _ | cur := r
  case error => exact .pure fun t ⟨m, ht, hm⟩ => ht ▸ hst m hm
  case ok.none =>
    refine .start fun t ⟨m, ht, l, hl, hac, hone, hm⟩ => ?_
    subst ht
    have hwr : Runs (v.withMemory m) (tryMemory (protectAllocPage i addr area.flags))
        (fun _ => Leads i sps addr (addr + frameSize) held w v) E := by
      refine tryMemory_spec hm (protectAllocPage_spec hbal hsp.aligned hsn hl
        fun code m hm => ⟨XStop.error_ne_panic code, hm⟩) (fun _ m' hm' => ?_) fun _ m' hm' => hst m' hm'
      obtain ⟨new, hgv, hm'⟩ := hm'
      obtain ⟨hacc, -⟩ := pteFlags_access hgv
      have hbit := fromFlags_alloc.mp (pteFlags_kind hgv)
      refine ⟨_, .plain (.ofUpdate (.reflagged (k := v.kernel) h (update_self ..) hsp hl
        (hbit.trans hac.symm) (fun _ he => he) (stored_stored arch new) ?_ hm')) (within_setLeaf w hsp.aligned _) rfl⟩
      exact hsp.serves hsrc hbit (contains_trans (contains_access area.flags) hacc) (fun _ _ => hone)
        fun hnd => absurd hnd (ne_true_of_eq_false hno)
    refine hwr.bind fun r => ?_
    cases r with
    | ok _ | error _ => exact .skip
  case ok.some =>
    refine .start fun t ⟨m, ht, l, hl, hac, hcur, hsh, hm⟩ => ?_
    subst ht hcur
    have hre := Inv.refs_pos h.memory hbal hsn hl hac
    have hcn : Sits (w.clone l.paddr) (⟨l.paddr⟩ :: held) i sps (v.withMemory m) :=
      Good.clone h ⟨l.paddr⟩ hre (.inr hsh) hm
    refine .bind (onMemory_total hcn.memory (deepCopy_spec ⟨l.paddr⟩)
      (Q := fun r t => t.space = v.space ∧ r.elim (Sits (w.clone l.paddr) (⟨l.paddr⟩ :: held) i sps t) fun copy =>
        ∃ w', Sits w' (copy :: ⟨l.paddr⟩ :: held) i sps t ∧ SameLeaves w w' ∧ w'.refs copy.paddr = 1 ∧
          l.paddr ≠ copy.paddr) fun r m hm => ⟨rfl, ?_⟩) fun r => ?_
    · cases r with
      | none => exact sameWorld hcn hm
      | some copy =>
        obtain ⟨hfr, -, hm⟩ := hm
        refine ⟨_, alloc hcn copy hfr hm, ⟨rfl, rfl⟩, update_self .., fun heq => ?_⟩
        have hco : (w.clone l.paddr).refs l.paddr = 0 := heq ▸ hfr
        exact absurd ((update_self ..).symm.trans hco) (Nat.succ_ne_zero _)
    · cases r with
      | none =>
        refine .bind (.pre dropHeld_spec (fun t ⟨hsc, ht⟩ => ?_)) fun _ =>
          .skip
        exact .still ht ⟨rfl, rfl⟩ hsc
      | some copy =>
        refine .start fun t ⟨hsc, w', ht, hv, hone, hne⟩ => ?_
        have hle' : w'.view i addr = some (0, l) := by rw [hv.1, hl]
        have hsp' : Spot t.space area addr := hsc ▸ hsp
        refine .bind (tryMemory_spec ht.memory (replaceFrame_spec ht.owned.balanced
            (ht.owned.refs_pos (k := 0) rfl) hsn fun code m hm => ⟨XStop.error_ne_panic code, hm⟩)

          (fun _ m hm => ?_) fun _ m hm => ?_) fun r => dropHeld_spec.bind fun _ => .skip
        · obtain ⟨leafFlags, found, hgv, hf, -, -, -, hm⟩ := hm
          have hal : addr - addr % PageSize.size4K.bytes = addr := by
            rw [show addr % PageSize.size4K.bytes = 0 from hsp.aligned, Nat.sub_zero]
          rw [hal] at hf hm
          cases hle'.symm.trans hf
          obtain ⟨hacc, -⟩ := pteFlags_access hgv
          refine ⟨_, .plain (.ofUpdate (.replaced ht (update_self ..) hsp' hsrc hle' hac
            hne hone (fromFlags_alloc.mp (pteFlags_kind hgv)) (stored_stored arch leafFlags)
            (contains_trans (contains_access area.flags) hacc) hp hm)) ⟨fun j a hout => ?_, hv.2⟩ hsc⟩
          exact ((within_setLeaf w' hsp.aligned _).view j a hout).trans (by rw [hv.1])
        · exact .still (drop ht hm) hv hsc

/-! ### Pages of objects -/

variable {obj offset level : Nat} {l : Leaf}

theorem isStatic_object (hsrc : a.backing.source = .object obj offset) :
    (a.locate addr).origin.isStatic = false := by
  unfold VmArea.locate Source.at
  rw [hsrc]
  rfl

theorem installSupplied_spec (h : Sits w (f :: held) i sps v) (hsp : Spot v.space a addr)
    (hsrc : a.backing.source = .object obj offset) (writing : Bool) :
    Runs v (installSupplied i addr a (v.kernel.guarded obj) a.backing.isPrivate writing f g)
      (fun _ => Leads i sps addr (addr + frameSize) held w v) E := by
  have hnd : a.backing.requiresWriteGuard v.kernel.guarded =
      (!a.backing.isPrivate && v.kernel.guarded obj) := by
    unfold Backing.requiresWriteGuard
    rw [hsrc]
  have hsta : (a.locate addr).origin.isStatic = false := isStatic_object hsrc
  cases hp : a.backing.isPrivate with
  | true =>
    rw [hp] at hnd
    cases writing with
    | false =>
      exact installPage_spec _ h hsp hsta (contains_withoutWrite a.flags) nofun
        nofun fun hg => nomatch hnd.symm.trans hg
    | true =>
      refine .bind (onMemory_total h.memory (deepCopy_spec f)
        (Q := fun r t => t.space = v.space ∧ t.kernel.guarded = v.kernel.guarded ∧
          r.elim (Sits w (f :: held) i sps t) fun copy =>
            ∃ w', Sits w' (copy :: f :: held) i sps t ∧ SameLeaves w w' ∧ w'.refs copy.paddr = 1)
        fun r m hm => ⟨rfl, rfl, ?_⟩) fun r => ?_
      · cases r with
        | none => exact sameWorld h hm
        | some copy => exact ⟨_, alloc h copy hm.1 hm.2.2, ⟨rfl, rfl⟩, update_self ..⟩
      · cases r with
        | none =>
          refine .bind (.pre dropHeld_spec (fun t ⟨hsc, _, ht⟩ => ?_)) fun _ =>
            .skip
          exact .still ht ⟨rfl, rfl⟩ hsc
        | some copy =>
          refine .start fun t ⟨hsc, hgrd, w', ht, hv, hone⟩ => ?_
          have hwk : Worked i sps addr addr (copy :: f :: held) w v w' t :=
            .still ht hv hsc
          refine .bind (.post (installPage_spec _ ht (hsc ▸ hsp) hsta (contains_access a.flags)
            (fun _ _ => hone) nofun fun hg => ?_) fun _ u hu =>
              hwk.page hu) fun r =>
                dropHeld_spec.bind fun _ => .skip
          rw [hgrd] at hg
          cases hnd.symm.trans hg
  | false =>
    rw [hp] at hnd
    show Triple _ (installPage i addr f (if (v.kernel.guarded obj && g.isNone) then
      MappingFlags.withoutWrite a.flags else a.flags) g) _ _
    split
    · exact installPage_spec _ h hsp hsta (contains_withoutWrite a.flags) nofun (fun _ => hp) nofun
    next hg =>
      refine installPage_spec _ h hsp hsta (contains_access a.flags) (fun hbit => nomatch hp.symm.trans hbit)
        (fun _ => hp) fun hbit _ => ?_
      have hobj : v.kernel.guarded obj := by
        rw [hnd] at hbit
        simpa using hbit
      cases g with
      | none => exact absurd (by rw [hobj]; rfl) hg
      | some g => rfl

theorem Aside.leads {k' : Kernel arch ι} (h : Aside w held (update sps i (some v.space)) k') :
    Leads i sps lo hi held w v {v with kernel := k'} := by
  obtain ⟨w', h, hv⟩ := h
  exact .still h hv rfl

theorem resolveObjectFault_spec (h : Sits w held i sps v) (hsp : Spot v.space a addr)
    (hsrc : a.backing.source = .object obj offset) (access : MappingFlags) :
    Runs v (resolveObjectFault i addr a obj offset a.backing.isPrivate access)
      (fun _ => Leads i sps addr (addr + frameSize) held w v) Stuck := by
  show Triple _ (if _ then _ else _) _ _
  split
  · exact leads_pure _ h
  · refine onKernel_bind (byteLen_aside obj (E := fun _ _ => False)) (.refl h) (fun _ _ h => h.elim) fun r k hk => ?_
    have hst : Leads i sps addr (addr + frameSize) held w v {v with kernel := k} := hk.leads
    cases r with
    | error e => exact .stay hst
    | ok objectLen =>
      show Triple _ (if _ then _ else _) _ _
      split
      · exact .stay hst
      · refine onKernel_bind (page_supplied obj _ _) hk (fun _ _ h => h) fun r k hk => ?_
        match r with
        | .error e => exact .stay (Aside.leads hk)
        | .ok (f, g) =>
          obtain ⟨w', hwk⟩ : Leads i sps addr addr (f :: held) w v _ := Aside.leads hk
          refine .get_bind (.post (installSupplied_spec hwk.sits hsp hsrc access.write) fun _ u hu => hwk.page hu)

theorem upgradeSharedWrite_spec (h : Sits w held i sps v) (hsp : Spot v.space a addr)
    (hsrc : a.backing.source = .object obj offset) (hsh : a.backing.isPrivate = false)
    (hl : w.view i addr = some (0, l)) (hal : l.flags.allocFrame) (objectOffset : Nat) :
    Runs v (upgradeSharedWrite i addr a obj objectOffset)
      (fun _ => Leads i sps addr (addr + frameSize) held w v) Stuck := by
  refine onKernel_bind (page_supplied obj _ _) (.refl h) (fun _ _ h => h) fun r k hk => ?_
  match r with
  | .error e => exact .stay (Aside.leads hk)
  | .ok (f, g) =>
    obtain ⟨w', hsi, hv⟩ := hk
    have hwk : Worked i sps addr addr (f :: held) w v w' {v with kernel := k} := .still hsi hv rfl
    have hle' : w'.view i addr = some (0, l) := by rw [hv.1, hl]
    have hsn := inside hsi hle'
    refine .get_bind ?_
    split
    · refine .bind (.pre dropHeld_spec (fun t ht => ht ▸ ?_)) fun _ => .skip
      exact hwk.page (.refl hwk.sits)
    next hg =>
      have hco : Runs {v with kernel := k}
          (commitPage addr g (protectAllocPage i addr a.flags) (pure ()))
          (fun _ => Leads i sps addr (addr + frameSize) (f :: held) w v) Stuck := by
        refine commitPage_spec hsi.memory (protectAllocPage_spec hsi.owned.balanced hsp.aligned hsn hle'
          fun code m hm => ⟨nofun, hm⟩) (.skip) (fun m hm => ?_) fun r m hm => ?_
        · obtain ⟨new, hgv, hm⟩ := hm
          obtain ⟨hac, -⟩ := pteFlags_access hgv
          have hbit := fromFlags_alloc.mp (pteFlags_kind hgv)
          refine hwk.page ⟨_, Spot.worked hsp hwk.sits.formed (fun _ => hsh) (.ofUpdate (.reflagged hsi
            (update_self ..) hsp hle' (hbit.trans hal.symm) (fun e he => mem_withGuard he)
            (stored_stored arch new) ?_ hm)) (within_setLeaf w' hsp.aligned _)⟩
          refine hsp.serves (isStatic_object hsrc) hbit (contains_trans (contains_access a.flags) hac)
            (fun hp => nomatch hsh.symm.trans hp) fun hnd _ => ?_
          have hobj : k.guarded obj := by
            unfold Backing.requiresWriteGuard at hnd
            rw [hsrc, hsh] at hnd
            simpa using hnd
          cases g with
          | none => exact absurd (by simp [hobj]) hg
          | some g => exact ⟨g, mem_insertGuard.mpr (.inl rfl)⟩
        · exact hwk.page (.still (sameWorld hsi hm) ⟨rfl, rfl⟩ rfl)
      exact hco.bind fun r => dropHeld_spec.bind fun _ => .skip

/-! ### Faults -/

theorem resolveFault_spec (h : Sits w held i sps v) (hsp : Spot v.space a addr)
    (hsrc : (a.locate addr).origin.isStatic = false) (access : MappingFlags) :
    Runs v (resolveFault i a addr access)
      (fun _ => Leads i sps addr (addr + frameSize) held w v) Stuck := by
  unfold resolveFault
  cases hb : a.backing.source with
  | static range =>
    unfold VmArea.locate Source.at at hsrc
    rw [hb] at hsrc
    cases hsrc
  | object object offset => exact resolveObjectFault_spec h hsp hb access
  | zero =>
    have hung : ∀ guarded, a.backing.requiresWriteGuard guarded = false := by
      intro guarded
      unfold Backing.requiresWriteGuard
      rw [hb, Bool.and_false]
    refine .bind (onMemory_total h.memory allocateZeroed_spec
      (Q := fun r t => t.space = v.space ∧ r.elim (Sits w held i sps t) fun f =>
          ∃ w', Sits w' (f :: held) i sps t ∧ SameLeaves w w' ∧ w'.refs f.paddr = 1)
      fun r m hm => ⟨rfl, ?_⟩) fun r => ?_
    · cases r with
      | none => exact sameWorld h hm
      | some f => exact ⟨_, alloc h f hm.2.1 hm.1, ⟨rfl, rfl⟩, update_self ..⟩
    · cases r with
      | none =>
        refine .pure fun t ⟨hsc, ht⟩ => ?_
        exact .still ht ⟨rfl, rfl⟩ hsc
      | some f =>
        refine .start fun t ⟨hsc, w', ht, hv, hone⟩ => ?_
        have hwk : Worked i sps addr addr (f :: held) w v w' t :=
          .still ht hv hsc
        have hmap : Triple (Inv w') (mapFrame i addr f a.flags)
            (fun _ m => Leads i sps addr (addr + frameSize) held w' t (t.withMemory m))
            fun e m => e ≠ .panic ∧ Inv (w'.drop f.paddr) m :=
          mapFrame_worked none ht (hsc ▸ hsp) hsrc (contains_access a.flags)
            (fun _ _ => hone) nofun fun hg => nomatch (hung _).symm.trans hg
        refine .bind (tryMemory_spec ht.memory hmap
          (fun _ m hm => ?_) fun _ m hm => ?_) fun r => .skip
        · exact hwk.page hm
        · exact hwk.page (.still (drop ht hm) ⟨rfl, rfl⟩ rfl)

/-- A fault on a page that is there. -/
theorem resolveResident_spec (h : Sits w held i sps v) (hsp : Spot v.space area addr)
    (hsrc : (area.locate addr).origin.isStatic = false) (hl : w.view i addr = some (0, l))
    (hal : l.flags.allocFrame) (flags access : MappingFlags) :
    Runs v (resolveResident i area addr flags access)
      (fun _ => Leads i sps addr (addr + frameSize) held w v) Stuck := by
  unfold resolveResident
  split
  · exact leads_pure _ h
  · split
    · exact leads_pure _ h
    · cases hp : area.backing.isPrivate with
      | true => exact resolvePrivateWrite_spec h hsp hsrc hp (inside h hl)
      | false =>
        cases hobj : area.backing.objectAt (addr - area.range.start) with
        | none => exact leads_pure _ h
        | some found =>
          unfold Backing.objectAt at hobj
          split at hobj
          next id offset hb =>
            split at hobj
            · cases hobj
              exact upgradeSharedWrite_spec h hsp hb hp hl hal _
            · cases hobj
          · cases hobj

omit [Fintype ι] in
/-- Faults leave leaves without owners alone. -/
theorem resolve_static {range : StaticFrameRange} (hsrc : a.backing.source = .static range)
    (hsh : a.backing.isPrivate = false) (i : ι) (flags access : MappingFlags) :
    (∃ r, (resolveResident i a addr flags access : VProg arch ι _) = pure r) ∧
      ∃ r, (resolveFault i a addr access : VProg arch ι _) = pure r := by
  refine ⟨?_, .segv, by rw [resolveFault, hsrc]⟩
  unfold resolveResident Backing.objectAt
  rw [hsrc, hsh]
  split
  · exact ⟨_, rfl⟩
  · split
    · exact ⟨_, rfl⟩
    · exact ⟨.segv, rfl⟩

theorem page_le {size bound : Nat} (h : bound ≤ addr) (hbo : bound % size = 0) :
    bound ≤ addr - addr % size := by
  have hfl : bound / size * size ≤ addr / size * size := Nat.mul_le_mul_right _ (Nat.div_le_div_right h)
  have := Nat.div_add_mod' bound size
  have := Nat.div_add_mod' addr size
  omega

/-- The page of an address, in an area that faults fill. -/
theorem Sits.spot (h : Sits w held i sps v) (har : a ∈ values v.space.areas)
    (hin : a.range.contains addr) (hsrc : (a.locate addr).origin.isStatic = false) :
    Spot v.space a (addr - addr % frameSize) := by
  have hfi := h.formed.tiled.fine a har
  have hsi := (h.backed a har).paged addr hsrc
  have hst := hfi.startAligned
  have hstp := hfi.stopAligned
  rw [hsi] at hst hstp
  have hin := contains_iff.mp hin
  have hal : (addr - addr % frameSize) % frameSize = 0 :=
    Nat.mod_eq_zero_of_dvd (Nat.dvd_sub_mod addr)
  refine ⟨har, hsi, hal, page_le hin.1 hst, ?_⟩
  exact aligned_le .size4K hal hstp (by omega)

/-- The area of a leaf. -/
theorem Sits.areaOf (h : Sits w held i sps v) (hl : w.view i addr = some (level, l)) :
    ∃ area ∈ values v.space.areas, area.range.contains addr ∧
      Serves v.kernel.guarded w v.space.writeGuards addr (area.locate addr) level l := by
  obtain ⟨space, loc, hsc, hloc, hsv⟩ := Good.served h i addr level l hl
  rw [update_self] at hsc
  cases hsc
  obtain ⟨area, har, hin, rfl⟩ := (lookup_eq_some h.formed).mp hloc
  exact ⟨area, har, hin, hsv⟩

theorem Sits.resident (h : Sits w held i sps v) (hsp : Spot v.space a addr)
    (hsrc : (a.locate addr).origin.isStatic = false)
    (hl : w.view i addr = some (level, l)) : level = 0 ∧ l.flags.allocFrame := by
  obtain ⟨area', har, hin, hsv⟩ := h.areaOf hl
  have hhe : a.range.contains addr := by
    have := hsp.below
    have : 0 < frameSize := by decide
    exact contains_iff.mpr ⟨hsp.above, by omega⟩
  have hf := (areaAt_eq_some h.formed).mpr ⟨hsp.mem, hhe⟩
  cases hf.symm.trans ((areaAt_eq_some h.formed).mpr ⟨har, hin⟩)
  refine ⟨hsv.level.trans (congrArg PageSize.level hsp.size), ?_⟩
  rw [hsv.kind, hsrc]
  rfl

/-- **A fault** changes the leaf of its page, or nothing. -/
theorem handlePageFault_spec (h : Sits w held i sps v) (addr : Nat) (access : MappingFlags) :
    Runs v (handlePageFault i addr access)
      (fun _ => Leads i sps (addr - addr % frameSize) (addr - addr % frameSize + frameSize) held w v)
      Stuck := by
  refine .get_bind ?_
  cases har : areaAt v.space.areas addr with
  | none => exact leads_pure _ h
  | some a =>
    obtain ⟨hmem, hin⟩ := (areaAt_eq_some h.formed).mp har
    show Triple _ (if _ then _ else _) _ _
    split
    · have hbo := contains_iff.mp hin
      have hbe := (h.formed.tiled.fine a hmem).below
      have hlow := v.space.range.low
      have hstp : v.space.virtRange.stop = v.space.range.start + v.space.range.size := rfl
      have hsn : addr - addr % a.pageSize.bytes < arch.span := by omega
      refine .next (onMemory_total h.memory (mappingFlags_spec hsn)
        (Q := fun r t => ∃ m, t = v.withMemory m ∧ Sits w held i sps t ∧
          r = (w.view i (addr - addr % a.pageSize.bytes)).map fun found => found.2.flags)
        fun r m hm => ⟨m, rfl, sameWorld h hm.1, hm.2⟩) fun r t ⟨m, ht, hsi, hr⟩ => ?_
      have hwk : Worked i sps (addr - addr % frameSize) (addr - addr % frameSize) held w v w t :=
        .still hsi ⟨rfl, rfl⟩ (by rw [ht]; rfl)
      have hsc : t.space = v.space := by rw [ht]; rfl
      refine .imp (Q := fun _ => Leads i sps (addr - addr % frameSize)
          (addr - addr % frameSize + frameSize) held w t) ?_ (fun _ h => h)
        fun _ u hu => hwk.page hu
      cases hsrc : (a.locate addr).origin.isStatic with
      | true =>
        obtain ⟨range, hrg, hsh, -⟩ := (h.backed a hmem).static hsrc
        cases r with
        | none =>
          obtain ⟨r, hr⟩ := (resolve_static hrg hsh i access access).2
          rw [hr]
          exact leads_pure r hsi
        | some flags =>
          obtain ⟨r, hr⟩ := (resolve_static hrg hsh i flags access).1
          show Triple _ (resolveResident i a _ flags access) _ _
          rw [hr]
          exact leads_pure r hsi
      | false =>
        have hsp : Spot t.space a (addr - addr % frameSize) := hsc ▸ h.spot hmem hin hsrc
        have hso' : (a.locate (addr - addr % frameSize)).origin.isStatic = false := by
          rw [← hsrc]
          unfold VmArea.locate Source.at
          cases a.backing.source <;> rfl
        have hby : a.pageSize.bytes = frameSize := by rw [hsp.size]; rfl
        rw [hby] at hr ⊢
        cases r with
        | none => exact resolveFault_spec hsi hsp hso' access
        | some flags =>
          obtain ⟨found, hf, -⟩ := Option.map_eq_some_iff.mp hr.symm
          obtain ⟨lvl, l⟩ := found
          obtain ⟨rfl, hal⟩ := hsi.resident hsp hso' hf
          exact resolveResident_spec hsi hsp hso' hf hal flags access
    · exact leads_pure _ h

/-! ### Populating -/

/-- What an operation that fails leaves. -/
def Fails (P : Vm arch ι → Prop) (e : XStop) (t : Vm arch ι) : Prop := e ≠ .panic ∧ P t ∨ Stuck e t

theorem populatePage_spec (h : Sits w held i sps v) (hal : addr % frameSize = 0)
    (access : MappingFlags) :
    Runs v (populatePage i access addr) (fun _ => Leads i sps addr (addr + frameSize) held w v)
      (Fails (Leads i sps addr (addr + frameSize) held w v)) := by
  have hft := handlePageFault_spec h addr access
  rw [hal] at hft
  refine .bind (hft.fail fun e t ht => .inr ht) fun r => ?_
  cases r with
  | resolved => exact .skip
  | retry | segv | bus | noMemory => exact .throw fun t ht => .inl ⟨nofun, ht⟩

theorem populatePages_spec (access : MappingFlags) (pages : List Nat)
    (hpgs : ∀ a ∈ pages, a % frameSize = 0 ∧ lo ≤ a ∧ a + frameSize ≤ hi) :
    Triple (Leads i sps lo hi held w v) (pages.forM (populatePage i access))
      (fun _ => Leads i sps lo hi held w v) (Fails (Leads i sps lo hi held w v)) := by
  induction pages with
  | nil => exact .skip
  | cons addr rest ih =>
    obtain ⟨hal, hlo, hhi⟩ := hpgs addr (.head _)
    refine .bind ?_ fun _ =>
      ih fun a ha => hpgs a (.tail _ ha)
    refine .start fun t ⟨w', ht⟩ => ?_
    -- the page lies in the range
    have hwi : ∀ {u}, Leads i sps addr (addr + frameSize) held w' t u → Leads i sps lo hi held w v u :=
      fun ⟨w'', hu⟩ => ht.leads (hu.leads (.refl hu.sits) hlo hhi) le_rfl le_rfl
    refine ((populatePage_spec ht.sits hal access).fail fun e u hu => ?_).post fun _ u hu => hwi hu
    exact hu.imp (fun hu => ⟨hu.1, hwi hu.2⟩) id

/-- The pages that an iterator goes over. -/
theorem mem_pageIter {start stop : Nat} {pages : List Nat} (h : pageIter start stop .size4K = some pages)
    (had : addr ∈ pages) : addr % frameSize = 0 ∧ start ≤ addr ∧ addr + frameSize ≤ stop := by
  obtain ⟨⟨hst, hstp⟩, hpgs⟩ := Option.ite_none_right_eq_some.mp h
  cases hpgs
  obtain ⟨n, hn, rfl⟩ := List.mem_range'.mp had
  have hby : PageSize.size4K.bytes = frameSize := rfl
  rw [hby] at hst hn ⊢
  have hle : frameSize * (n + 1) ≤ frameSize * ((stop - start) / frameSize) := Nat.mul_le_mul_left _ hn
  have hfi := Nat.mul_div_le (stop - start) frameSize
  rw [Nat.mul_succ] at hle
  have hpo : 0 < frameSize := by decide
  refine ⟨?_, by omega, by omega⟩
  rw [Nat.add_mul_mod_self_left, hst]

/-- **Populating** changes leaves and records guards in its range only, however far it comes. -/
theorem populateArea_spec (h : Sits w held i sps v) (start size : Nat) (access : MappingFlags) :
    Runs v (populateArea i start size access) (fun _ => Leads i sps start (start + size) held w v)
      (Fails (Leads i sps start (start + size) held w v)) := by
  refine .get_bind (.resume (P := Leads i sps start (start + size) held w v) ?_ (.refl h))
  refine .next (ofExcept_areas _ fun e t ht _ => .inl ⟨XStop.error_ne_panic e, ht⟩) fun r t ⟨ht, hrg⟩ =>
    .resume ?_ ht
  obtain ⟨rfl, hacc⟩ := validateRange_ok hrg
  split
  · cases hpgs : pageIter start (start + size) .size4K with
    | none =>
      rw [show pageIter (fromStartSize start size).start (fromStartSize start size).stop
        .size4K = none from hpgs]
      exact .throw fun t ht => .inl ⟨XStop.error_ne_panic _, ht⟩
    | some pages =>
      rw [show pageIter (fromStartSize start size).start (fromStartSize start size).stop
        .size4K = some pages from hpgs]
      exact populatePages_spec access pages fun a ha => mem_pageIter hpgs ha
  · exact .throw fun t ht => .inl ⟨XStop.error_ne_panic _, ht⟩

end Pages

end Resolving

end StarryX.Vma
