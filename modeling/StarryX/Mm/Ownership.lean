import StarryX.Mm.Ranges

/-! Who owns the frames.

A `Client` is any code that works with handles and address spaces: it holds some handles, and
calls one operation after the other with them. `references_conserved` says that after every such
run each count is the number of handles and leaves that own the frame, and that every call takes
a frame from the allocator when its first owner comes and gives it back when the last one goes. -/
namespace StarryX.Mm
open Library Function
open World (forget setLeaf take)

/-- The operations. A handle is given by its position among those held. -/
inductive Call (ι : Type) where
  | allocateZeroed
  | clone (k : Nat)
  | drop (k : Nat)
  | deepCopy (k : Nat)
  | mapFrame (i : ι) (address k : Nat) (flags : MappingFlags)
  | replaceFrame (i : ι) (address expected replacement : Nat) (flags : MappingFlags)
  | unmapAllocRange (i : ι) (start size : Nat)
  | mapStaticRange (i : ι) (start : Nat) (frames : StaticFrameRange) (flags : MappingFlags) (pageSize : PageSize)
  | unmapStaticRange (i : ι) (start size : Nat) (pageSize : PageSize)
  | mappedFrames (i : ι) (start stop : Nat)

/-- The calls that work on leaves without owners. -/
def Call.isStatic {ι : Type} : Call ι → Bool
  | .mapStaticRange .. => true
  | .unmapStaticRange .. => true
  | _ => false

structure Client (arch : Arch) (ι : Type) where
  memory : Memory arch ι
  held : List Frame

section Model
variable {arch : Arch} {ι : Type} [DecidableEq ι]

/-- An error goes to the client. -/
def settle (x : Prog arch ι Unit) : Prog arch ι Unit := do
  match ← attempt x with
  | .ok _ => pure ()
  | .error (.error _) => pure ()
  | .error .panic => throw .panic

/-- There is no call with a handle one does not have. -/
def withHandle (held : List Frame) (k : Nat) (f : Frame → Prog arch ι (List Frame)) : Prog arch ι (List Frame) :=
  match held[k]? with
  | none => pure held
  | some frame => f frame

/-- The handles held after a call. -/
def perform (held : List Frame) : Call ι → Prog arch ι (List Frame)
  | .allocateZeroed => do
    let frame ← allocateZeroed
    pure (frame.toList ++ held)
  | .clone k => withHandle held k fun frame => do
    let copy ← cloneFrame frame
    pure (copy :: held)
  | .drop k => withHandle held k fun frame => do
    dropFrame frame
    pure (held.eraseIdx k)
  | .deepCopy k => withHandle held k fun frame => do
    let copy ← deepCopy frame
    pure (copy.toList ++ held)
  | .mapFrame i address k flags => withHandle held k fun frame => do
    settle (mapFrame i address frame flags)
    pure (held.eraseIdx k)
  | .replaceFrame i address expected replacement flags =>
    if expected = replacement then pure held
    else withHandle held expected fun frame => withHandle held replacement fun new => do
      settle (replaceFrame i address frame new flags)
      pure (held.eraseIdx replacement)
  | .unmapAllocRange i start size => do
    settle (unmapAllocRange i start size)
    pure held
  | .mapStaticRange i start frames flags pageSize => do
    settle (mapStaticRange i start frames flags pageSize)
    pure held
  | .unmapStaticRange i start size pageSize => do
    settle (unmapStaticRange i start size pageSize)
    pure held
  | .mappedFrames i start stop => do
    match ← attempt (mappedFrames i start stop) with
    | .ok all => pure (all.map (fun mapped => mapped.2.1) ++ held)
    | .error (.error _) => pure held
    | .error .panic => throw .panic

/-- There is no state after a panic. -/
def Client.step (c : Client arch ι) (call : Call ι) : Option (Client arch ι) :=
  match perform c.held call c.memory with
  | .ok held memory => some ⟨memory, held⟩
  | .error _ _ => none

def Client.run (c : Client arch ι) : List (Call ι) → Option (Client arch ι)
  | [] => some c
  | call :: rest => (c.step call).bind fun c => c.run rest

/-- No frame is out yet, and no space maps anything. -/
def Memory.fresh (m : Memory arch ι) : Memory arch ι :=
  {m with
    refCount := fun _ => 0
    live := fun _ => false
    handles := fun _ => 0
    allocs := fun _ => 0
    frees := fun _ => 0
    spaces := fun i => {m.spaces i with pageTable := .new}}

end Model

/-! ### What a call may do -/

variable {k : Nat}

section Worlds
variable {ι : Type} {w w' : World ι}

/-- The allocator gave a frame exactly where the first reference came. -/
structure World.Follows (w w' : World ι) : Prop where
  frames : w'.frames = w.frames
  allocs : ∀ p, w'.allocs p = w.allocs p + if w.refs p = 0 ∧ 0 < w'.refs p then 1 else 0

/-- Without a new frame there is no first reference. -/
theorem World.Follows.of_allocs (hfr : w'.frames = w.frames) (hal : w'.allocs = w.allocs)
    (hrf : ∀ p, w.refs p = 0 → w'.refs p = 0) : w.Follows w' where
  frames := hfr
  allocs := by
    intro p
    have := hrf p
    rw [hal, if_neg (by omega), Nat.add_zero]

/-- A world that speaks of a client's handles. -/
structure World.Owned (w : World ι) (held : List Frame) : Prop where
  balanced : w.Balanced
  handles : ∀ p, w.handles p = held.count ⟨p⟩

variable {f : Frame} {held : List Frame}

theorem World.Owned.handles_pos (h : w.Owned held) (hk : held[k]? = some f) :
    0 < w.handles f.paddr := by
  rw [h.handles]
  exact List.count_pos_iff.mpr (List.mem_of_getElem? hk)

theorem World.Owned.refs_pos (h : w.Owned held) (hk : held[k]? = some f) : 0 < w.refs f.paddr := by
  have := h.balanced f.paddr
  have := h.handles_pos hk
  omega

/-- Handles come in no order. -/
theorem World.Owned.perm {held' : List Frame} (h : w.Owned held) (hpe : held.Perm held') :
    w.Owned held' :=
  ⟨h.balanced, fun p => (h.handles p).trans (hpe.count_eq _)⟩

open StarryX.Mm.Frame (paddr)

/-- The other handles stay. -/
theorem count_eraseIdx (hk : held[k]? = some f) (p : Nat) :
    (held.eraseIdx k).count ⟨p⟩ = if p = f.paddr then held.count ⟨p⟩ - 1 else held.count ⟨p⟩ := by
  obtain ⟨hlt, hget⟩ := List.getElem?_eq_some_iff.mp hk
  have hc := (List.getElem_cons_eraseIdx_perm hlt).count_eq ⟨p⟩
  rw [hget, List.count_cons] at hc
  by_cases hp : p = f.paddr
  · subst hp
    rw [if_pos (beq_self_eq_true f)] at hc
    rw [if_pos rfl]
    omega
  · have hne : (f == ⟨p⟩) = false := beq_eq_false_iff_ne.mpr fun hsm => hp (congrArg paddr hsm).symm
    rw [hne] at hc
    rw [if_neg hp]
    simpa using hc

section Steps
variable {w : World ι} {held : List Frame} {flags : MappingFlags} {addr : Nat} {i : ι}

/-- A frame comes with its first handle. -/
theorem World.Owned.alloc (h : w.Owned held) (hfr : w.refs f.paddr = 0) :
    (w.alloc f.paddr).Owned (f :: held) ∧ w.Follows (w.alloc f.paddr) := by
  refine ⟨⟨fun p => ?_, fun p => ?_⟩, rfl, fun p => ?_⟩
  all_goals
    simp only [World.alloc, List.count_cons]
    by_cases hp : p = f.paddr
  · subst hp
    have := h.balanced f.paddr
    rw [update_self, update_self]
    omega
  · simp [hp, h.balanced p]
  · subst hp
    simp [h.handles]
  · have hne : (f == ⟨p⟩) = false := beq_eq_false_iff_ne.mpr fun hsm => hp (congrArg paddr hsm).symm
    simp [hp, hne, h.handles]
  · subst hp
    simp [hfr]
  · have hsm : ¬ (w.refs p = 0 ∧ 0 < w.refs p) := by omega
    simp [hp]

theorem count_paddr (fs : List Frame) (p : Nat) : (fs.map paddr).count p = fs.count ⟨p⟩ :=
  List.count_map_of_injective fs paddr (fun a b hab => by cases a; cases b; congr) ⟨p⟩

/-- Further handles. -/
theorem World.Owned.hold (h : w.Owned held) {fs : List Frame} (hlv : ∀ f ∈ fs, 0 < w.refs f.paddr) :
    (w.hold (fs.map paddr)).Owned (fs ++ held) ∧ w.Follows (w.hold (fs.map paddr)) := by
  refine ⟨⟨World.hold_balanced h.balanced _, fun p => ?_⟩, .of_allocs rfl rfl fun p hz => ?_⟩
  · show w.handles p + (fs.map paddr).count p = _
    rw [h.handles, count_paddr, List.count_append, Nat.add_comm]
  · show w.refs p + (fs.map paddr).count p = 0
    have hno : fs.count ⟨p⟩ = 0 := by
      refine List.count_eq_zero.mpr fun hmem => ?_
      have : 0 < w.refs p := hlv _ hmem
      omega
    rw [hz, count_paddr, hno]

theorem World.Owned.drop (h : w.Owned held) (hk : held[k]? = some f) :
    (w.drop f.paddr).Owned (held.eraseIdx k) ∧ w.Follows (w.drop f.paddr) := by
  have hha := h.handles_pos hk
  refine ⟨⟨fun p => ?_, fun p => ?_⟩, .of_allocs rfl rfl fun p hz => ?_⟩
  all_goals
    simp only [World.drop]
    by_cases hp : p = f.paddr
  · subst hp
    have := h.balanced f.paddr
    simp only [update_self]
    omega
  · simp [hp, h.balanced p]
  · subst hp
    rw [update_self, count_eraseIdx hk, if_pos rfl, h.handles]
  · rw [update_of_ne hp, count_eraseIdx hk, if_neg hp, h.handles]
  · subst hp
    rw [update_self, hz]
  · rw [update_of_ne hp, hz]

/-- A handle becomes a leaf. -/
theorem World.Owned.map [DecidableEq ι] (h : w.Owned held) (hk : held[k]? = some f)
    (hfr : w.view i addr = none) (ha : flags.allocFrame) :
    ((w.setLeaf i addr .size4K (some ⟨f.paddr, flags⟩)).forget f.paddr).Owned (held.eraseIdx k) ∧
      w.Follows ((w.setLeaf i addr .size4K (some ⟨f.paddr, flags⟩)).forget f.paddr) := by
  have hha := h.handles_pos hk
  refine ⟨⟨fun p => ?_, fun p => ?_⟩, .of_allocs rfl rfl fun p hz => hz⟩
  all_goals
    simp only [setLeaf, forget, hfr, Option.elim_none, Option.elim_some, owns, ha, true_and]
    by_cases hp : p = f.paddr
  · subst hp
    have := h.balanced f.paddr
    rw [update_self, if_pos rfl]
    omega
  · rw [update_of_ne hp, if_neg (Ne.symm hp)]
    exact h.balanced p
  · subst hp
    rw [update_self, count_eraseIdx hk, if_pos rfl, h.handles]
  · rw [update_of_ne hp, count_eraseIdx hk, if_neg hp, h.handles]

/-- A leaf takes the reference of a handle, and gives back its own. -/
theorem World.Owned.replace [DecidableEq ι] (h : w.Owned held) (hk : held[k]? = some f)
    {l : Leaf} (hl : w.view i addr = some (0, l))
    (hold : l.flags.allocFrame) (hmap : 0 < w.mapped l.paddr) (ha : flags.allocFrame) :
    ((((w.setLeaf i addr .size4K (some ⟨f.paddr, flags⟩)).forget f.paddr).take l.paddr).drop
        l.paddr).Owned (held.eraseIdx k) ∧
      w.Follows ((((w.setLeaf i addr .size4K (some ⟨f.paddr, flags⟩)).forget f.paddr).take l.paddr).drop
        l.paddr) := by
  have hha := h.handles_pos hk
  refine ⟨⟨fun p => ?_, fun p => ?_⟩, .of_allocs rfl rfl fun p hz => ?_⟩
  · have hp := h.balanced p
    -- the handle may be one of the frame that the leaf had
    have hsm : f.paddr = l.paddr → w.handles f.paddr = w.handles l.paddr := fun heq => by rw [heq]
    simp only [setLeaf, forget, take, World.drop, hl, Option.elim_some, owns, ha, hold, true_and]
    simp only [update_apply]
    split_ifs <;> subst_vars <;> omega
  · simp only [setLeaf, forget, take, World.drop, update_self, update_idem,
      Nat.add_sub_cancel, update_eq_self]
    rw [count_eraseIdx hk, ← h.handles, update_apply]
    split_ifs with hp
    · rw [hp]
    · rfl
  · simp only [setLeaf, forget, take, World.drop, update_apply]
    split_ifs with hp
    · rw [← hp, hz]
    · exact hz

theorem World.Owned.drop_head (h : w.Owned (f :: held)) : (w.drop f.paddr).Owned held :=
  (h.drop (k := 0) rfl).1

theorem World.Owned.released (h : w.Owned held) (hrel : w.Released w') :
    w'.Owned held ∧ w.Follows w' := by
  refine ⟨⟨hrel.balanced h.balanced, fun p => ?_⟩,
    World.Follows.of_allocs hrel.frames hrel.allocs fun p hz => ?_⟩
  · rw [hrel.handles, h.handles]
  · have := hrel.refs_le p
    omega

end Steps

end Worlds

/-! ### Calls -/

section Calls
variable {arch : Arch} {ι : Type} [Fintype ι] [DecidableEq ι] {w : World ι} {held : List Frame}
  {E : XStop → Memory arch ι → Prop}

/-- What a call leaves. -/
def Conserves (w : World ι) (static : Bool) (held : List Frame) (s : Memory arch ι) : Prop :=
  ∃ w', Inv w' s ∧ w'.Owned held ∧ w.Follows w' ∧ (static = true → w'.refs = w.refs)

omit [DecidableEq ι] in
theorem Conserves.refl {s : Memory arch ι} (h : Inv w s) (ho : w.Owned held) (static : Bool) :
    Conserves w static held s :=
  ⟨w, h, ho, World.Follows.of_allocs rfl rfl fun _ hz => hz, fun _ => rfl⟩

omit [Fintype ι] [DecidableEq ι] in
theorem settle_spec {P R : Memory arch ι → Prop} {x : Prog arch ι Unit}
    (hx : Triple P x (fun _ => R) fun e s => e ≠ .panic ∧ R s) : Triple P (settle x) (fun _ => R) E := by
  refine .bind hx.attempt fun r => ?_
  match r with
  | .ok _ => exact .skip
  | .error (.error e) => exact .pure fun s hs => hs.2
  | .error .panic => exact fun s hs => absurd rfl hs.1

omit [DecidableEq ι] in
theorem withHandle_spec (ho : w.Owned held) {f : Frame → Prog arch ι (List Frame)} {static : Bool}
    (hf : ∀ frame, held[k]? = some frame → Triple (Inv w) (f frame) (Conserves w static) E) :
    Triple (Inv w) (withHandle held k f) (Conserves w static) E := by
  unfold withHandle
  cases hk : held[k]? with
  | none => exact .pure fun s hs => .refl hs ho _
  | some frame => exact hf frame hk

/-- Unmapping gives references back. -/
theorem settle_unmapRange (ho : w.Owned held) (i : ι) (start size : Nat) (kind : FrameKind) (ps : PageSize) :
    Triple (Inv w) (settle (unmapRange i start size kind ps))
      (fun _ => Conserves w (kind == .static) held) E := by
  refine settle_spec (.post (unmapRange_spec ho.balanced fun code s hs _ => ⟨nofun, ?_⟩) fun _ s hs => ?_)
  · exact .refl hs ho _
  · obtain ⟨-, -, w', hrem, hsta, hs⟩ := hs
    obtain ⟨ho, hfol⟩ := ho.released hrem.toReleased
    refine ⟨w', hs, ho, hfol, fun hki => ?_⟩
    have hmap := hsta (beq_iff_eq.mp hki)
    funext p
    have hrf := hrem.refs p
    rw [hmap] at hrf
    omega

/-- The handles that a call leaves are the owners its world speaks of; it stops only where a
count has no room. -/
theorem perform_spec (ho : w.Owned held) (call : Call ι) :
    Triple (Inv w) (perform held call : Prog arch ι _) (Conserves w call.isStatic)
      (fun _ _ => ∃ p, w.refs p = 2 ^ 32 - 1) := by
  cases call with
  | allocateZeroed =>
    refine allocateZeroed_spec.bind fun r => ?_
    cases r with
    | none => exact .pure fun s hs => .refl hs ho _
    | some f =>
      refine .pure fun s ⟨hs, hfr, _⟩ => ?_
      obtain ⟨ho, hfol⟩ := ho.alloc hfr
      exact ⟨_, hs, ho, hfol, nofun⟩
  | clone k =>
    refine withHandle_spec ho fun f hk => ?_
    have hp := ho.refs_pos hk
    refine (cloneFrame_spec hp fun s hs hfu => ⟨_, hfu⟩).bind fun copy => .pure fun s hs => ?_
    obtain ⟨rfl, hs⟩ := hs
    have hlv : ∀ f ∈ [copy], 0 < w.refs f.paddr := by simpa using hp
    obtain ⟨ho, hfol⟩ := ho.hold hlv
    have hcn := w.hold_clone [] copy.paddr
    exact ⟨_, hcn ▸ hs, ho, hfol, nofun⟩
  | drop k =>
    refine withHandle_spec ho fun f hk => ?_
    refine (dropFrame_spec (ho.refs_pos hk)).bind fun _ => .pure fun s hs => ?_
    obtain ⟨ho, hfol⟩ := ho.drop hk
    exact ⟨_, hs, ho, hfol, nofun⟩
  | deepCopy k =>
    refine withHandle_spec ho fun f hk => (deepCopy_spec f).bind fun r => ?_
    cases r with
    | none => exact .pure fun s hs => .refl hs ho _
    | some copy =>
      refine .pure fun s ⟨hfr, _, hs⟩ => ?_
      obtain ⟨ho, hfol⟩ := ho.alloc hfr
      exact ⟨_, hs, {ho with}, {hfol with}, nofun⟩
  | mapFrame i addr k flags =>
    refine withHandle_spec ho fun f hk => ?_
    obtain ⟨hdp, hdr⟩ := ho.drop hk
    refine .bind (settle_spec (.post (mapFrame_spec (ho.refs_pos hk) fun code s hs => ⟨nofun, ?_⟩)
      fun _ s hs => ?_)) fun _ => .pure fun s hs => hs
    · exact ⟨_, hs, hdp, hdr, nofun⟩
    · obtain ⟨leafFlags, hfg, -, hfr, hs⟩ := hs
      obtain ⟨ho, hfol⟩ := ho.map hk hfr (fromFlags_alloc.mp (pteFlags_kind hfg))
      exact ⟨_, hs, ho, hfol, nofun⟩
  | replaceFrame i addr expected replacement flags =>
    show Triple _ (if expected = replacement then pure held else _) _ _
    split
    · exact .pure fun s hs => .refl hs ho _
    · refine withHandle_spec ho fun f _ => withHandle_spec ho fun new hk => ?_
      obtain ⟨hdp, hdr⟩ := ho.drop hk
      rw [← replaceFrame_mod]
      refine .bind (settle_spec (.post (replaceFrame_spec ho.balanced (ho.refs_pos hk)
        (Nat.mod_lt _ (Nat.pow_pos (by decide))) fun code s hs => ⟨nofun, ?_⟩) fun _ s hs => ?_))
        fun _ => .pure fun s hs => hs
      · exact ⟨_, hs, hdp, hdr, nofun⟩
      · obtain ⟨leafFlags, l, hfg, hl, -, ha, hmap, hs⟩ := hs
        obtain ⟨ho, hfol⟩ :=
          ho.replace hk hl ha hmap (fromFlags_alloc.mp (pteFlags_kind hfg))
        exact ⟨_, hs, ho, hfol, nofun⟩
  | unmapAllocRange i start size =>
    refine (settle_unmapRange ho i start size .alloc .size4K).bind fun _ => .pure fun s hs => hs
  | mapStaticRange i start fs flags ps =>
    refine .bind (settle_spec (.post (mapStaticRange_spec fun code s hs => ⟨nofun, ?_⟩)
      fun _ s hs => ?_)) fun _ => .pure fun s hs => hs
    · exact .refl hs ho _
    · obtain ⟨leafFlags, -, -, -, -, hs⟩ := hs
      exact ⟨_, hs, {ho with}, .of_allocs rfl rfl fun _ hz => hz, fun _ => rfl⟩
  | unmapStaticRange i start size ps =>
    refine (settle_unmapRange ho i start size .static ps).bind fun _ => .pure fun s hs => hs
  | mappedFrames i start stop =>
    have hsn : Triple (Inv w) (mappedFrames i start stop : Prog arch ι _) _ fun e s => e ≠ .panic ∧ Inv w s :=
      mappedFrames_spec ho.balanced fun code s hs => ⟨nofun, hs⟩
    refine .bind hsn.attempt fun r => ?_
    match r with
    | .ok all =>
      refine .pure fun s ⟨hs, hlv, _⟩ => ?_
      have hlv : ∀ f ∈ all.map fun mapped => mapped.2.1, 0 < w.refs f.paddr := by
        intro f hfm
        obtain ⟨mapped, hmap, rfl⟩ := List.mem_map.mp hfm
        exact hlv mapped hmap
      obtain ⟨ho, hfol⟩ := ho.hold hlv
      rw [List.map_map] at ho hfol
      exact ⟨_, hs, ho, hfol, nofun⟩
    | .error (.error code) => exact .pure fun s hs => .refl hs.2 ho _
    | .error .panic => exact fun s hs => absurd rfl hs.1

/-! ### Runs -/

/-- The counts are those of the owners, and the allocator has out what has an owner. -/
structure Client.Conserved (c : Client arch ι) : Prop where
  counts : ∀ p, c.memory.refCount p = c.held.count ⟨p⟩ + c.memory.mapped p
  live : ∀ p, c.memory.live p = true ↔ 0 < c.memory.refCount p
  leaves : ∀ i vaddr level leaf, (c.memory.spaces i).pageTable.leafAt vaddr = some (level, leaf) →
    leaf.flags.allocFrame = true → c.memory.live leaf.paddr = true

/-- The allocator handed a frame out where the first owner came, and has it back where the last
one went. -/
structure Client.Exchanged (call : Call ι) (c c' : Client arch ι) : Prop where
  taken : ∀ p, c.memory.inDatabase p = true → c'.memory.allocs p = c.memory.allocs p +
    if c.memory.refCount p = 0 ∧ 0 < c'.memory.refCount p then 1 else 0
  given : ∀ p, c.memory.inDatabase p = true → c'.memory.frees p = c.memory.frees p +
    if 0 < c.memory.refCount p ∧ c'.memory.refCount p = 0 then 1 else 0
  static : call.isStatic = true → c'.memory.refCount = c.memory.refCount

/-- A call that ends exchanges frames with the allocator; one that does not has met a frame with
`u32::MAX` owners. -/
def Client.Continues (c : Client arch ι) (call : Call ι) : Prop :=
  match c.step call with
  | some c' => c'.Conserved ∧ c.Exchanged call c'
  | none => ∃ p, c.memory.refCount p = 2 ^ 32 - 1

/-- A world describes a client. -/
def Client.Describes (c : Client arch ι) (w : World ι) : Prop := Inv w c.memory ∧ w.Owned c.held

variable {c c' : Client arch ι}

section
variable (h : c.Describes w)
include h

omit [DecidableEq ι] in
theorem Client.Describes.conserved : c.Conserved where
  counts := by
    intro p
    rw [h.1.refs, h.2.balanced p, h.2.handles, h.1.mapped]
  live := by
    intro p
    rw [h.1.refs]
    exact h.1.live p
  leaves := by
    intro i va lvl l hl ha
    have hv : va % arch.span < arch.span := Nat.mod_lt _ (Nat.pow_pos (by decide))
    rw [← PageTable.leafAt_mod, h.1.view i _ hv] at hl
    exact (h.1.live _).mpr (h.1.refs_pos h.2.balanced hv hl ha)

omit [DecidableEq ι] in
/-- The history of the allocator, from the counts. -/
theorem Client.Describes.exchanged {w' : World ι} {call : Call ι}
    (h' : c'.Describes w') (hfol : w.Follows w') (hsta : call.isStatic → w'.refs = w.refs) :
    c.Exchanged call c' := by
  have htk : ∀ p, c.memory.inDatabase p → c'.memory.allocs p = c.memory.allocs p +
      if c.memory.refCount p = 0 ∧ 0 < c'.memory.refCount p then 1 else 0 := by
    intro p hp
    have hfm : w.frames p := (h.1.frames p).symm.trans hp
    have hfr' : w'.frames p := by rw [hfol.frames, hfm]
    rw [h'.1.allocs p hfr', h.1.allocs p hfm, h.1.refs, h'.1.refs]
    exact hfol.allocs p
  refine ⟨htk, fun p hp => ?_, fun hca => ?_⟩
  · have htk := htk p hp
    have hhi := h.1.history p
    have hhi' := h'.1.history p
    have hlv := h.1.live p
    have hli' := h'.1.live p
    rw [h.1.refs, h'.1.refs] at htk
    rw [h.1.refs, h'.1.refs]
    cases hold : c.memory.live p <;> cases hnew : c'.memory.live p <;>
      simp only [hold, hnew, Bool.false_eq_true, false_iff, true_iff, Bool.toNat_true,
        Bool.toNat_false] at * <;> split_ifs at htk ⊢ <;> omega
  · rw [h.1.refs, h'.1.refs, hsta hca]

theorem Client.Describes.step (call : Call ι) : match c.step call with
    | some c' => ∃ w', c'.Describes w' ∧ c.Exchanged call c'
    | none => ∃ p, c.memory.refCount p = 2 ^ 32 - 1 := by
  have hsc := perform_spec h.2 call c.memory h.1
  unfold Client.step
  cases hrun : perform c.held call c.memory with
  | ok held mem =>
    rw [hrun] at hsc
    obtain ⟨w', hinv, ho, hfol, hsta⟩ := hsc
    exact ⟨w', ⟨hinv, ho⟩, h.exchanged ⟨hinv, ho⟩ hfol hsta⟩
  | error e mem =>
    rw [hrun] at hsc
    obtain ⟨p, hp⟩ := hsc
    exact ⟨p, by rw [h.1.refs, hp]⟩

theorem Client.Describes.run {cs : List (Call ι)}
    (hrun : c.run cs = some c') : ∃ w', c'.Describes w' := by
  induction cs generalizing c w with
  | nil => exact ⟨w, Option.some.inj hrun ▸ h⟩
  | cons call rest ih =>
    obtain ⟨c₁, hst, hre⟩ := Option.bind_eq_some_iff.mp hrun
    have hn := h.step call
    rw [hst] at hn
    obtain ⟨w₁, h₁, -⟩ := hn
    exact ih h₁ hre

end

/-- No leaf, no reference and no handle. -/
def Memory.freshWorld (m : Memory arch ι) : World ι where
  ranges := fun i => ((m.spaces i).range.start, (m.spaces i).range.size)
  view := fun _ _ => none
  handles := fun _ => 0
  refs := fun _ => 0
  mapped := fun _ => 0
  bytes := m.bytes
  frames := m.inDatabase
  allocs := fun _ => 0

omit [DecidableEq ι] in
theorem Memory.fresh_inv (m : Memory arch ι) : Inv m.freshWorld m.fresh where
  ranges _ := rfl
  view _ va _ := PageTable.leafAt_new va
  handles := rfl
  refs := rfl
  mapped _ := Finset.sum_eq_zero fun _ _ => PageTable.leaves_new _
  bytes := rfl
  live _ := ⟨nofun, fun h => absurd h (Nat.lt_irrefl 0)⟩
  frames _ := rfl
  known _ h := absurd h (Nat.lt_irrefl 0)
  history _ := rfl
  allocs _ _ := rfl

/-- **References are conserved**: after any calls, failed ones among them, each count is the
number of owners, and exactly the frames with owners are out. The next call takes and gives
frames as the owners come and go. -/
theorem references_conserved (m : Memory arch ι) (calls : List (Call ι)) (call : Call ι) {c : Client arch ι}
    (hrun : Client.run ⟨m.fresh, []⟩ calls = some c) :
    c.Conserved ∧ c.Continues call := by
  have hfresh : (⟨m.fresh, []⟩ : Client arch ι).Describes m.freshWorld := ⟨m.fresh_inv, fun _ => rfl, fun _ => rfl⟩
  obtain ⟨w, h⟩ := hfresh.run hrun
  refine ⟨h.conserved, ?_⟩
  have hst := h.step call
  unfold Client.Continues
  cases hn : c.step call with
  | none => rwa [hn] at hst
  | some c' =>
    rw [hn] at hst
    obtain ⟨w', h', hexchanged⟩ := hst
    exact ⟨h'.conserved, hexchanged⟩

end Calls

/-- The tables of RISC-V. -/
def sv39 : Arch := ⟨2, true, by decide, by decide⟩

theorem smallBase_aligned : 0x80000000 % frameSize = 0 := by decide

/-- A range of sixteen pages. -/
def userRange : UserRange sv39 := ⟨0x1000, 0x10000, by decide⟩

/-- Four frames at the start of physical memory, and one space. -/
def smallMemory : Memory sv39 Unit where
  base := 0x80000000
  frameCount := 4
  aligned := smallBase_aligned
  refCount _ := 0
  live _ := false
  bytes _ _ := 0
  answers n := some (0x80000000 + 4096 * n)
  asked := 0
  grants _ := true
  requests := 0
  handles _ := 0
  allocs _ := 0
  frees _ := 0
  spaces _ := ⟨userRange, .new⟩

def readWrite : MappingFlags := ⟨true, true, false, true, false, false, false, false⟩

/-- A frame is mapped, cloned from its leaf, and mapped once more before all leaves go. -/
theorem references_conserved_shared :
    ∃ c, Client.run ⟨smallMemory.fresh, []⟩ [.allocateZeroed, .mapFrame () 0x1000 0 readWrite,
        .mappedFrames () 0x1000 0x2000, .mapFrame () 0x3000 0 readWrite] = some c ∧ c.Conserved ∧
      c.Continues (.unmapAllocRange () 0x1000 0x3000) := by
  have hruns : (Client.run ⟨smallMemory.fresh, []⟩ [.allocateZeroed, .mapFrame () 0x1000 0 readWrite,
      .mappedFrames () 0x1000 0x2000, .mapFrame () 0x3000 0 readWrite]).isSome := by decide +kernel
  obtain ⟨c, hrun⟩ := Option.isSome_iff_exists.mp hruns
  exact ⟨c, hrun, references_conserved smallMemory _ _ hrun⟩

end StarryX.Mm
