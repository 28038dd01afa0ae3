import StarryX.Vma.Isolation

/-! Changes of a space that fail.

`unmap`, `protect` and `tryClone` that return an error leave the areas, the leaves, the references and
the guards as they were. So does `map`, up to populating: the leaves and the area are taken back, but
the guards that objects gave with the pages before the one that failed stay recorded, and what objects
loaded or dropped for it is their own. Where objects do neither, nothing is left of a failed `map`
(`failed_change_intact`). -/
namespace StarryX.Vma
open Library Mm Function
open VirtAddrRange (contains_iff)

/-- The requests that change the areas of a space. -/
inductive Change (ι : Type) where
  | map (start size : Nat) (flags : MappingFlags) (backend : Backend)
  | unmap (start size : Nat)
  | protect (start size : Nat) (flags : MappingFlags)
  | tryClone (child : ι)

section Failures
variable {arch : Arch} {ι : Type} [DecidableEq ι]

def Change.perform (i : ι) : Change ι → VProg arch ι Unit
  | .map start size flags backend => Vma.map i start size flags backend
  | .unmap start size => Vma.unmap i start size
  | .protect start size flags => Vma.protect i start size flags
  | .tryClone child => do
    let _ ← Vma.tryClone i child

/-- Static frames are as promised, and a child is new. -/
def Change.Allowed (s : System arch ι) : Change ι → Prop
  | .map _ _ _ backend => backend.isSound s.kernel.memory = true
  | .unmap _ _ => True
  | .protect _ _ _ => True
  | .tryClone child => s.spaces child = none

/-- The areas, the guards, every leaf and every reference count are as before. -/
structure Intact (v t : Vm arch ι) : Prop where
  areas : SameAreas v t
  guards : t.space.writeGuards = v.space.writeGuards
  leaves : ∀ j a, a < arch.span →
    (t.kernel.memory.spaces j).pageTable.leafAt a = (v.kernel.memory.spaces j).pageTable.leafAt a
  refs : t.kernel.memory.refCount = v.kernel.memory.refCount

/-- The error of a call, and the state it leaves. -/
def failure : EStateM.Result XStop (Vm arch ι) Unit → Option (XError × Vm arch ι)
  | .error (.error e) t => some (e, t)
  | _ => none

omit [DecidableEq ι] in
theorem failure_eq_some {r : EStateM.Result XStop (Vm arch ι) Unit} {e : XError} {t : Vm arch ι}
    (h : failure r = some (e, t)) : r = .error (.error e) t := by
  unfold failure at h
  split at h
  · cases h
    rfl
  · cases h

/-- The guard in an answer. -/
def Reply.guard (reply : Reply) : Option Guard :=
  match reply.result with
  | .ok (_, guard) => guard
  | .error _ => none

def Act.isStore : Act → Bool
  | .store _ _ => true
  | _ => false

/-- The object only stores into pages it has, and gives no guard. -/
def Reply.isQuiet (reply : Reply) : Bool := reply.acts.all Act.isStore && reply.guard.isNone

/-- The answers to the calls up to `last`. -/
def Kernel.Quiet (k : Kernel arch ι) (last : Nat) : Prop :=
  ∀ n, k.calls ≤ n → n < last → ∀ object index write, (k.replies n object index write).isQuiet = true

/-- A `map` asks objects for pages while it populates, the other requests ask for nothing. -/
def Change.Quiet (v t : Vm arch ι) : Change ι → Prop
  | .map _ _ _ _ => v.kernel.Quiet t.kernel.calls
  | .unmap _ _ => True
  | .protect _ _ _ => True
  | .tryClone _ => True

/-! ### What is left of the calls to objects -/

section Asking
variable {α : Type} {k k' : Kernel arch ι} {v t : Vm arch ι} {g : Option Guard} {S : Prop}

omit [DecidableEq ι]

/-- An object has acted, and if `S` holds it has only stored. -/
def Stored (k : Kernel arch ι) (S : Prop) (k' : Kernel arch ι) : Prop :=
  k'.calls = k.calls ∧ k'.replies = k.replies ∧ (S → k'.kept = k.kept)

theorem onMemory_stored (x : Prog arch ι α) :
    Triple (Stored k S) (Kernel.onMemory x) (fun _ => Stored k S) fun _ => Stored k S :=
  .start fun _ h => .zoom .any (fun _ _ _ => h) fun _ _ _ => h

theorem perform_stored {act : Act} (hs : S → act.isStore = true) :
    Triple (Stored k S) act.perform (fun _ => Stored k S) fun _ => Stored k S := by
  have hforgets : ∀ kept k', Stored k S k' → (S → act.isStore = false) → Stored k S {k' with kept := kept} :=
    fun kept k' h hno => ⟨h.1, h.2.1, fun hS => absurd ((hno hS).symm.trans (hs hS)) Bool.false_ne_true⟩
  cases act with
  | load object bytes =>
    refine .bind (onMemory_stored allocateZeroed) fun r => ?_
    cases r with
    | none => exact .skip
    | some f => exact .bind (onMemory_stored (fill f bytes)) fun _ => .modify fun k' h => hforgets _ k' h fun _ => rfl
  | store n bytes =>
    refine .read fun k' => ?_
    cases k'.kept[n]? with
    | none => exact .skip
    | some kept => exact onMemory_stored _
  | forget n =>
    refine .read fun k' => ?_
    cases k'.kept[n]? with
    | none => exact .skip
    | some kept =>
      refine .bind (Q := fun _ => Stored k S) (.modify fun k' h => hforgets _ k' h fun _ => rfl) fun _ => ?_
      exact onMemory_stored (dropFrame kept.frame)

theorem performAll_stored {acts : List Act} (hs : S → acts.all Act.isStore = true) :
    Triple (Stored k S) (acts.forM Act.perform) (fun _ => Stored k S) fun _ => Stored k S :=
  .forM acts fun act hact => perform_stored fun hS => List.all_eq_true.mp (hs hS) act hact

/-- The guard that came with a page. -/
def given : LinuxResult (Frame × Option Guard) → Option Guard
  | .ok (_, guard) => guard
  | .error _ => none

theorem page_stored (object index : Nat) (write : Bool) (hS : S → (k.replies k.calls object index write).isQuiet = true) :
    Runs k (page object index write) (fun r k' => Stored {k with calls := k.calls + 1} S k' ∧ (S → given r = none))
      fun _ k' => Stored {k with calls := k.calls + 1} S k' := by
  refine .next (.modifyGet (P := fun k' => k' = k) (Q := fun r k' => r = k.replies k.calls object index write ∧
    k' = {k with calls := k.calls + 1}) fun k' hk => hk ▸ ⟨rfl, rfl⟩) fun reply k' ⟨hre, hk⟩ => ?_
  subst hre hk
  generalize hreply : k.replies k.calls object index write = reply at hS
  have hquiet := fun hs => Bool.and_eq_true_iff.mp (hS hs)
  refine .resume (.bind (performAll_stored fun hs => (hquiet hs).1) fun _ => ?_) ⟨rfl, rfl, fun _ => rfl⟩
  obtain ⟨acts, result⟩ := reply
  match result with
  | .error e => exact .pure fun _ h => ⟨h, fun _ => rfl⟩
  | .ok (n, guard) =>
    refine .read fun k' => ?_
    cases (k'.kept[n]?).filter fun kept => kept.object == object with
    | none => exact .pure fun _ h => ⟨h, fun _ => rfl⟩
    | some kept =>
      exact .bind (onMemory_stored _) fun f => .pure fun _ h => ⟨h, fun hs => Option.isNone_iff_eq_none.mp (hquiet hs).2⟩

/-- What has been asked of objects leaves guards and handles as they were, if the answers were quiet.
A guard may have been given that is not recorded yet. -/
structure Asked (v : Vm arch ι) (given : Option Guard) (t : Vm arch ι) : Prop where
  replies : t.kernel.replies = v.kernel.replies
  calls : v.kernel.calls ≤ t.kernel.calls
  quiet : v.kernel.Quiet t.kernel.calls →
    given = none ∧ t.space.writeGuards = v.space.writeGuards ∧ t.kernel.kept = v.kernel.kept

theorem Asked.refl (v : Vm arch ι) : Asked v none v := ⟨rfl, le_rfl, fun _ => ⟨rfl, rfl, rfl⟩⟩

theorem Asked.settled (h : Asked v g t) : Asked v none t := ⟨h.replies, h.calls, fun hq => ⟨rfl, (h.quiet hq).2⟩⟩

/-- One call more. -/
theorem Asked.call (h : Asked v none t) {object index : Nat} {write : Bool}
    (hk : Stored {t.kernel with calls := t.kernel.calls + 1} ((t.kernel.replies t.kernel.calls object index write).isQuiet = true) k')
    (hg : (t.kernel.replies t.kernel.calls object index write).isQuiet = true → g = none) : Asked v g {t with kernel := k'} := by
  have hc : k'.calls = t.kernel.calls + 1 := hk.1
  refine ⟨hk.2.1.trans h.replies, hc ▸ Nat.le_succ_of_le h.calls, fun hq => ?_⟩
  have hone := hq t.kernel.calls h.calls (hc ▸ Nat.lt_succ_self _) object index write
  rw [← h.replies] at hone
  have hbefore := h.quiet fun n hlo hhi => hq n hlo (hc ▸ Nat.lt_succ_of_lt hhi)
  exact ⟨hg hone, hbefore.2.1, (hk.2.2 hone).trans hbefore.2.2⟩

/-- A program that leaves guards and handles to the objects it asks. -/
abbrev Asks (v : Vm arch ι) (x : VProg arch ι α) : Prop := Triple (Asked v none) x (fun _ => Asked v none) fun _ => Asked v none

theorem onMemory_asked (x : Prog arch ι α) :
    Triple (Asked v g) (onMemory x) (fun _ => Asked v g) fun _ => Asked v g := by
  refine .start fun t h => .zoom (onMemory_stored (k := t.kernel) (S := True) x |>.resume ⟨rfl, rfl, fun _ => rfl⟩) ?_ ?_
  all_goals
    intro _ k' hk
    refine ⟨hk.2.1.trans h.replies, hk.1.symm ▸ h.calls, fun hq => ?_⟩
    have hbefore := h.quiet (hk.1 ▸ hq)
    exact ⟨hbefore.1, hbefore.2.1, (hk.2.2 trivial).trans hbefore.2.2⟩

theorem tryMemory_asked (x : Prog arch ι α) :
    Triple (Asked v g) (tryMemory x) (fun _ => Asked v g) fun _ => Asked v g := by
  refine .bind (onMemory_asked x).attempt fun r => ?_
  match r with
  | .ok a => exact .skip
  | .error (.error e) => exact .skip
  | .error .panic => exact .throw fun _ h => h

theorem ofExcept_asked (r : Except XError α) : Asks v (ofExcept r) := by
  cases r with
  | ok a => exact .skip
  | error e => exact .throw fun _ h => h

theorem ofOption_asked (r : Option α) : Asks v (ofOption r) := by
  cases r with
  | some a => exact .skip
  | none => exact .throw fun _ h => h

theorem byteLen_asked (object : Nat) : Asks v (onKernel (byteLen object)) := by
  refine .start fun t h => .zoom (.modifyGet (P := fun k => k = t.kernel)
    (Q := fun _ k => k = {t.kernel with calls := t.kernel.calls + 1}) fun k hk => hk ▸ rfl) (fun _ k hk => ?_)
    (F := fun _ _ => False) fun _ _ hno => hno.elim
  subst hk
  exact ⟨h.replies, Nat.le_succ_of_le h.calls, fun hq => h.quiet fun n hlo hhi => hq n hlo (Nat.lt_succ_of_lt hhi)⟩

theorem page_asked (object index : Nat) (write : Bool) :
    Triple (Asked v none) (onKernel (page object index write)) (fun r => Asked v (given r)) fun _ => Asked v none :=
  .start fun _ h => .zoom (page_stored object index write fun hs => hs) (fun _ _ hk => h.call hk.1 hk.2)
    fun _ _ hk => h.call hk fun _ => rfl

theorem commitPage_asked (address : Nat) (c unused : Prog arch ι Unit) :
    Triple (Asked v g) (commitPage address g c unused) (fun _ => Asked v none) fun _ => Asked v none := by
  have hroom : Triple (Asked v g) (reserveWriteGuard g) (fun _ => Asked v g) fun _ => Asked v g := by
    cases g with
    | none => exact .skip
    | some g =>
      refine (tryMemory_asked reserve).bind fun r => ?_
      cases r <;> exact .skip
  refine .fail (E := fun _ => Asked v g) (hroom.bind fun room => ?_) fun _ _ h => h.settled
  cases room with
  | false => exact (onMemory_asked unused).bind fun _ => .pure fun _ h => h.settled
  | true =>
    refine (tryMemory_asked c).bind fun r => ?_
    cases r with
    | error e => exact .pure fun _ h => h.settled
    | ok _ =>
      cases g with
      | none => exact .skip
      | some g =>
        refine .bind (Q := fun _ => Asked v none) (.modify fun t h => ?_) fun _ => .skip
        exact ⟨h.replies, h.calls, fun hq => absurd (h.quiet hq).1 (Option.some_ne_none g)⟩

end Asking

/-! ### Faults and populating -/

section Populating
variable {v : Vm arch ι} {g : Option Guard} (i : ι) (address : Nat) (area : VmArea) (access : MappingFlags)

theorem resolvePrivateWrite_asked (flags : MappingFlags) : Asks v (resolvePrivateWrite i address flags) := by
  refine (tryMemory_asked _).bind fun r => ?_
  match r with
  | .error e => exact .skip
  | .ok none =>
    refine (tryMemory_asked _).bind fun r => ?_
    cases r <;> exact .skip
  | .ok (some current) =>
    refine (onMemory_asked _).bind fun r => ?_
    cases r with
    | none => exact (onMemory_asked _).bind fun _ => .skip
    | some copy => exact (tryMemory_asked _).bind fun _ => (onMemory_asked _).bind fun _ => .skip

theorem installSupplied_asked (guarded isPrivate writing : Bool) (f : Frame) :
    Triple (Asked v g) (installSupplied i address area guarded isPrivate writing f g) (fun _ => Asked v none)
      fun _ => Asked v none := by
  unfold installSupplied
  cases isPrivate with
  | false => exact commitPage_asked address _ _
  | true =>
    refine .pre (P := Asked v none) ?_ fun _ h => h.settled
    cases writing with
    | false => exact commitPage_asked address _ _
    | true =>
      refine (onMemory_asked _).bind fun r => ?_
      cases r with
      | none => exact (onMemory_asked _).bind fun _ => .skip
      | some copy => exact .bind (commitPage_asked address _ _) fun _ => (onMemory_asked _).bind fun _ => .skip

theorem resolveObjectFault_asked (object offset : Nat) (isPrivate : Bool) :
    Asks v (resolveObjectFault i address area object offset isPrivate access) := by
  show Triple _ (if _ then _ else _) _ _
  split
  · exact .skip
  · refine (byteLen_asked object).bind fun r => ?_
    cases r with
    | error e => exact .skip
    | ok objectLen =>
      show Triple _ (if _ then _ else _) _ _
      split
      · exact .skip
      · refine (page_asked object _ _).bind fun r => ?_
        match r with
        | .error e => exact .skip
        | .ok (f, g) => exact .read fun _ => installSupplied_asked i address area _ _ _ f

theorem upgradeSharedWrite_asked (object offset : Nat) : Asks v (upgradeSharedWrite i address area object offset) := by
  refine (page_asked object _ _).bind fun r => ?_
  match r with
  | .error e => exact .skip
  | .ok (f, g) =>
    refine .read fun t => ?_
    show Triple _ (if _ then _ else _) _ _
    split
    · exact .pre (.bind (onMemory_asked _) fun _ => .skip) fun _ h => h.settled
    · exact .bind (commitPage_asked address _ _) fun _ => (onMemory_asked _).bind fun _ => .skip

theorem resolveFault_asked : Asks v (resolveFault i area address access) := by
  unfold resolveFault
  split
  · refine (onMemory_asked _).bind fun r => ?_
    cases r with
    | none => exact .skip
    | some f => exact (tryMemory_asked _).bind fun _ => .skip
  · exact resolveObjectFault_asked i address area access _ _ _
  · exact .skip

theorem resolveResident_asked (flags : MappingFlags) : Asks v (resolveResident i area address flags access) := by
  unfold resolveResident
  split
  · exact .skip
  · split
    · exact .skip
    · split
      · exact resolvePrivateWrite_asked i address _
      · split
        · exact .skip
        · exact upgradeSharedWrite_asked i address area _ _

theorem handlePageFault_asked : Asks v (handlePageFault i address access) := by
  refine .read fun t => ?_
  cases areaAt t.space.areas address with
  | none => exact .skip
  | some area =>
    show Triple _ (if _ then _ else _) _ _
    split
    · refine (onMemory_asked _).bind fun r => ?_
      cases r with
      | some flags => exact resolveResident_asked i _ area access flags
      | none => exact resolveFault_asked i _ area access
    · exact .skip

theorem populateArea_asked (start size : Nat) : Asks v (populateArea i start size access) := by
  refine .read fun t => (ofExcept_asked _).bind fun r => ?_
  split
  · split
    · refine .forM _ fun page _ => (handlePageFault_asked i page access).bind fun r => ?_
      cases r with
      | resolved => exact .skip
      | retry | segv | bus | noMemory => exact .throw fun _ h => h
    · exact .throw fun _ h => h
  · exact .throw fun _ h => h

theorem map_asked (start size : Nat) (flags : MappingFlags) (b : Backend) : Asks v (map i start size flags b) := by
  have hareas : ∀ f : Vm arch ι → AreaMap,
      Asks v (modify fun t => {t with space.areas := f t}) := fun f => .modify fun t h => ⟨h.replies, h.calls, h.quiet⟩
  refine .read fun t => (ofExcept_asked _).bind fun (pageSize, backing, populate) => (ofExcept_asked _).bind fun r => ?_
  refine (onMemory_asked _).bind fun _ => (ofOption_asked _).bind fun areas => (hareas fun _ => areas).bind fun _ => ?_
  split
  · refine .bind (populateArea_asked i flags start size).attempt fun stop => ?_
    match stop with
    | .ok _ => exact .skip
    | .error .panic => exact .throw fun _ h => h
    | .error (.error e) =>
      refine .bind (.read fun t => (ofOption_asked _).bind fun area => ?_) fun _ => .throw fun _ h => h
      exact (hareas fun t => t.space.areas.erase start).bind fun _ => onMemory_asked _
  · exact .skip

end Populating

section Changing
variable [Fintype ι] {w w' : World ι} {held : List Frame} {i j : ι} {spaces : ι → Option (VmSpace arch)}
  {v t : Vm arch ι} {start size : Nat} {flags : MappingFlags} {b : Backend} {e : XError}

/-! ### States with the same leaves -/

omit [DecidableEq ι] in
theorem Intact.of_view (hars : SameAreas v t) (hgs : t.space.writeGuards = v.space.writeGuards)
    (hv : Inv w v.kernel.memory) (ht : Inv w' t.kernel.memory) (hvw : w'.view = w.view) (hrf : w'.refs = w.refs) :
    Intact v t where
  areas := hars
  guards := hgs
  leaves := by
    intro j a ha
    rw [ht.view j a ha, hv.view j a ha, hvw]
  refs := by
    rw [ht.refs, hv.refs, hrf]

section
variable (h : Sits w held i spaces v)
include h

/-- With the same leaves, references differ by the handles that objects have. -/
theorem Sits.refs_eq (ht : Sits w' held i spaces t) (hvw : w'.view = w.view) (hke : t.kernel.kept = v.kernel.kept) :
    w'.refs = w.refs := by
  have hma := ht.memory.mapped_eq h.memory fun l a _ => by rw [hvw]
  funext p
  rw [ht.owned.balanced p, h.owned.balanced p, ht.owned.handles p, h.owned.handles p, hma, Kernel.frames, Kernel.frames, hke]

/-! ### The changes -/

/-- A failed `map` takes back the area with its leaves; the rest is as its calls to objects left it. -/
theorem Sits.map_intact (hso : b.isSound v.kernel.memory = true) (hmap : map i start size flags b v = .error (.error e) t)
    (hquiet : v.kernel.Quiet t.kernel.calls) : Intact v t := by
  have hspec : Triple _ (map i start size flags b) _ _ := map_spec h hso
  obtain ⟨-, w', hsi, hvw, hars⟩ | ⟨hpa, -⟩ := hspec.error rfl hmap
  · obtain ⟨-, hgs, hke⟩ := ((map_asked i start size flags b).error (.refl v) hmap).quiet hquiet
    exact .of_view hars hgs h.memory hsi.memory hvw (h.refs_eq hsi hvw hke)
  · exact absurd hpa (XStop.error_ne_panic e)

theorem Sits.unmap_intact (hunm : unmap i start size v = .error (.error e) t) : Intact v t := by
  have hspec : Triple _ (unmap i start size) _ _ := unmap_spec h
  obtain ⟨-, rfl⟩ := hspec.error rfl hunm
  exact .of_view (sameAreas_self t) rfl h.memory h.memory rfl rfl

theorem Sits.protect_intact (hpr : protect i start size flags v = .error (.error e) t) : Intact v t := by
  have hspec : Triple _ (protect i start size flags) _ _ := protect_spec h flags
  obtain ⟨-, m, rfl, hm⟩ := hspec.error rfl hpr
  exact .of_view (sameAreas_self v) rfl h.memory hm rfl rfl

theorem Sits.tryClone_intact (hij : i ≠ j) (hn : spaces j = none)
    (hcl : (Change.tryClone j).perform i v = .error (.error e) t) : Intact v t := by
  have hspec := (tryClone_spec h hij hn).bind (f := fun _ => pure ()) (S := fun _ _ => True) fun _ => .pure fun _ _ => trivial
  obtain ⟨-, w', m, rfl, hvw, hrf, hsi⟩ := hspec.error rfl hcl
  exact .of_view (sameAreas_self v) rfl h.memory hsi.memory hvw hrf

end

end Changing

end Failures

/-- The object has two pages, the second of which cannot be read. -/
def brokenKernel (first : Reply) : Kernel sv39 Bool :=
  {smallKernel with
    lengths := fun _ _ => .ok 8192
    replies := fun _ _ index _ => if index = 0 then first else ⟨[], .error .eio⟩}

/-- Both pages of the object are mapped and populated at once. -/
def mapBoth : Change Bool := .map 0x1000 0x2000 readWrite (.object 0 0 false true)

/-- A page is in use already, and the object has loaded its first. -/
def readAhead : List (Op sv39 Bool) :=
  [.newEmpty false userRange, .map false 0x5000 0x1000 readWrite (.anonymous true), .objects [.load 0 fun _ => 0]]

section Replies
variable {arch : Arch} {ι : Type} [DecidableEq ι] {s s' : System arch ι} {i : ι}

theorem newEmpty_replies {range : UserRange arch} (h : s.step (.newEmpty i range) = some s') :
    s'.kernel.replies = s.kernel.replies := by
  have hmem := onMemory_stored (k := s.kernel) (S := True) (newUser i range)
  have h : s.newEmpty i range = some s' := h
  unfold System.newEmpty at h
  split at h
  · cases h
    rfl
  · split at h
    next hrun =>
      cases h
      exact (hmem.ok ⟨rfl, rfl, fun _ => rfl⟩ hrun).2.1
    next hrun =>
      cases h
      exact (hmem.error ⟨rfl, rfl, fun _ => rfl⟩ hrun).2.1
    · cases h

theorem call_replies {x : VProg arch ι Unit} (hx : ∀ v, Asks v x) (h : s.call i x = some s') :
    s'.kernel.replies = s.kernel.replies := by
  unfold System.call at h
  split at h
  · cases h
    rfl
  next space _ =>
    split at h
    next hrun =>
      cases h
      exact ((hx ⟨s.kernel, space⟩).ok (.refl _) hrun).replies
    next hrun =>
      cases h
      exact ((hx ⟨s.kernel, space⟩).error (.refl _) hrun).replies
    · cases h

omit [DecidableEq ι] in
theorem objects_replies {acts : List Act} (h : s.objects acts = some s') : s'.kernel.replies = s.kernel.replies := by
  unfold System.objects at h
  split at h
  next hrun =>
    cases h
    exact ((performAll_stored False.elim).ok ⟨rfl, rfl, False.elim⟩ hrun).2.1
  · cases h

end Replies

end StarryX.Vma
