import StarryX.Vma.Fork

/-! Whole runs of address spaces.

A system that starts without spaces and without frames is `Sound` after every operation: its leaves
serve their areas and its references have their owners. Two of the consequences are the isolation
that copy-on-write is for (`copy_on_write_isolates`), and that no page of a guarded object is written
through without a guard (`writable_leaf_guarded`). -/
namespace StarryX.Vma
open Library Mm Function
open Option (bind_eq_some_iff map_some some.inj)

section Runs
variable {arch : Arch} {ι : Type} [Fintype ι] [DecidableEq ι] {s s' : System arch ι} {i j : ι}

/-- The operation under way has given back what it held. -/
def System.Sound (s : System arch ι) : Prop := ∃ w, Good w [] s.kernel s.spaces

/-! ### One operation -/

theorem Good.sits {w : World ι} {sp : VmSpace arch} (h : Good w [] s.kernel s.spaces) (hsp : s.spaces i = some sp) :
    Sits w [] i s.spaces ⟨s.kernel, sp⟩ := by
  unfold Sits
  rw [← hsp, update_eq_self]
  exact h

section
variable (h : s.Sound)
include h

theorem System.Sound.call {α : Type} {x : VProg arch ι α}
    (hx : ∀ w v, v.kernel = s.kernel → Sits w [] i s.spaces v →
      Runs v x (fun _ t => ∃ w', Sits w' [] i s.spaces t)
        (fun e t => e ≠ .panic → ∃ w', Sits w' [] i s.spaces t))
    (hca : s.call i x = some s') : s'.Sound := by
  obtain ⟨w, hg⟩ := h
  unfold System.call at hca
  cases hspace : s.spaces i with
  | none =>
    rw [hspace] at hca
    exact some.inj hca ▸ ⟨w, hg⟩
  | some sp =>
    have hsi := hg.sits hspace
    have hs := hx w _ rfl hsi _ rfl
    rw [hspace] at hca
    dsimp only at hca
    cases hrun : x ⟨s.kernel, sp⟩ with
    | ok a v =>
      rw [hrun] at hs hca
      exact some.inj hca ▸ hs
    | error e v =>
      rw [hrun] at hs hca
      cases e with
      | panic => cases hca
      | error code => exact some.inj hca ▸ hs nofun

theorem System.Sound.newEmpty {r : UserRange arch} (hst : s.newEmpty i r = some s') : s'.Sound := by
  obtain ⟨w, hg⟩ := h
  unfold System.newEmpty at hst
  cases hspace : s.spaces i with
  | some sp =>
    rw [hspace] at hst
    exact some.inj hst ▸ ⟨w, hg⟩
  | none =>
    have hs := Kernel.onMemory_spec hg.memory
      (newUser_spec (fun a _ => hg.absent hspace a) r fun m hm => hm)
      (Q := fun _ k => ∃ m, k = s.kernel.withMemory m ∧ Inv (withRange w i r) m)
      (E := fun _ k => ∃ m, k = s.kernel.withMemory m ∧ Inv w m) (fun _ m hm => ⟨m, rfl, hm⟩) (fun _ m hm => ⟨m, rfl, hm⟩)
      _ rfl
    rw [hspace] at hst
    cases hrun : Kernel.onMemory (newUser i r) s.kernel with
    | ok _ kernel =>
      rw [hrun] at hs hst
      obtain ⟨m, rfl, hm⟩ := hs
      exact some.inj hst ▸ ⟨_, hg.opened hspace hm⟩
    | error e kernel =>
      rw [hrun] at hs hst
      obtain ⟨m, rfl, hm⟩ := hs
      cases e with
      | panic => cases hst
      | error code => exact some.inj hst ▸ ⟨w, hg.sameWorld hm⟩

theorem System.Sound.tryClone (hst : s.tryClone i j = some s') : s'.Sound := by
  obtain ⟨w, hg⟩ := h
  unfold System.tryClone at hst
  split at hst
  case h_2 => exact some.inj hst ▸ ⟨w, hg⟩
  case h_1 sp hspace hno =>
    have hij : i ≠ j := by
      rintro rfl
      cases hspace.symm.trans hno
    have hsi := hg.sits hspace
    have hs := tryClone_spec hsi hij hno _ rfl
    cases hrun : Vma.tryClone i j ⟨s.kernel, sp⟩ with
    | ok c v =>
      rw [hrun] at hs hst
      obtain ⟨rfl, w', m, rfl, hbo⟩ := hs
      exact some.inj hst ▸ ⟨w', hbo⟩
    | error e v =>
      rw [hrun] at hs hst
      obtain ⟨-, w', m, rfl, -, -, hsm⟩ := hs
      cases e with
      | panic => cases hst
      | error code => exact some.inj hst ▸ ⟨w', hsm⟩

theorem System.Sound.drop (hst : s.drop i = some s') : s'.Sound := by
  obtain ⟨w, hg⟩ := h
  unfold System.drop at hst
  cases hsp : s.spaces i with
  | none =>
    rw [hsp] at hst
    exact some.inj hst ▸ ⟨w, hg⟩
  | some sp =>
    have hs := Kernel.onMemory_total (E := fun _ _ => False) hg.memory (dropSpace_spec hg hsp)
      (Q := fun _ k => ∃ w', Good w' [] k (update s.spaces i none)) (fun _ m hm => hm) _ rfl
    rw [hsp] at hst
    dsimp only at hst
    cases hrun : Kernel.onMemory (dropSpace i (values sp.areas)) s.kernel with
    | ok _ kernel =>
      rw [hrun] at hs hst
      exact some.inj hst ▸ hs
    | error e kernel =>
      rw [hrun] at hst
      cases hst

omit [DecidableEq ι] in
theorem System.Sound.objects {acts : List Act} (hst : s.objects acts = some s') : s'.Sound := by
  obtain ⟨w, hg⟩ := h
  have hs := performAll_aside (E := fun _ _ => False) acts _ (.refl hg)
  unfold System.objects at hst
  cases hrun : (acts.forM Act.perform) s.kernel with
  | ok _ kernel =>
    rw [hrun] at hs hst
    obtain ⟨w', hgo', -⟩ := hs
    exact some.inj hst ▸ ⟨w', hgo'⟩
  | error e kernel =>
    rw [hrun] at hst
    cases hst

theorem System.Sound.step (op : Op arch ι) (hst : s.step op = some s') : s'.Sound := by
  cases op with
  | newEmpty i r => exact h.newEmpty hst
  | map i start size flags b =>
    have hst : (if b.isSound s.kernel.memory then s.call i (map i start size flags b) else some s) =
      some s' := hst
    split at hst
    case isFalse => exact some.inj hst ▸ h
    case isTrue hsound =>
      refine h.call (fun w v hv hsi => ((map_spec hsi (hv ▸ hsound)).fail fun e t ht he => ?_)) hst
      obtain ⟨-, w', hsi', -⟩ | ⟨hpa, -⟩ := ht
      · exact ⟨w', hsi'⟩
      · exact absurd hpa he
  | unmap i start size =>
    exact h.call (fun w v _ hsi => (unmap_spec hsi).fail fun e t ht _ => ⟨w, ht.2 ▸ hsi⟩) hst
  | protect i start size flags =>
    refine h.call (fun w v _ hsi => (protect_spec hsi flags).fail fun e t ht _ => ?_) hst
    obtain ⟨-, m, rfl, hm⟩ := ht
    exact ⟨w, .sameWorld hsi hm⟩
  | handlePageFault i addr acc =>
    refine h.call (fun w v _ hsi => ((handlePageFault_spec hsi addr acc).fail fun e t ht he =>
      absurd ht.1 he).post fun _ t ht => ?_) hst
    obtain ⟨w', hwk⟩ := ht
    exact ⟨w', hwk.sits⟩
  | populateArea i start size acc =>
    refine h.call (fun w v _ hsi => ((populateArea_spec hsi start size acc).fail fun e t ht he => ?_).imp
      (fun _ ht => ht) fun _ t ht => ?_) hst
    · obtain ⟨-, w', hwk⟩ | ⟨hpa, -⟩ := ht
      · exact ⟨w', hwk.sits⟩
      · exact absurd hpa he
    · obtain ⟨w', hwk⟩ := ht
      exact ⟨w', hwk.sits⟩
  | writeBytes i start input =>
    refine h.call (fun w v _ hsi => ((writeBytes_spec hsi start input).fail fun e t ht _ => ?_).imp
      (fun _ ht => ht) fun _ t ht => ?_) hst
    · obtain ⟨-, m, bs, -, hsi'⟩ := ht
      exact ⟨_, hsi'⟩
    · obtain ⟨m, bs, -, hsi'⟩ := ht
      exact ⟨_, hsi'⟩
  | tryClone i j => exact h.tryClone hst
  | unmapUserAreas i =>
    exact h.call (fun w v _ hsi => ((unmapUserAreas_spec hsi).post
      fun _ _ ⟨w', _, hsi', _⟩ => ⟨w', hsi'⟩).fail fun e t ht => ht.elim) hst
  | unmapObjectRange i id start stop =>
    refine h.call (fun w v _ hsi => (unmapObjectRange_spec (E := fun _ _ => False) hsi).fail
      (fun e t ht => ht.elim) |>.post fun _ t ht => ?_) hst
    obtain ⟨w', hcl⟩ := ht
    exact ⟨w', hcl.sits⟩
  | drop i => exact h.drop hst
  | objects acts => exact h.objects hst

end

/-! ### Runs -/

/-- No frame is out and objects keep none. -/
def Kernel.fresh (k : Kernel arch ι) : Kernel arch ι := {k with memory := k.memory.fresh, kept := []}

omit [DecidableEq ι] in
theorem Kernel.fresh_sound (k : Kernel arch ι) : System.Sound ⟨k.fresh, fun _ => none⟩ := by
  refine ⟨k.memory.freshWorld, k.memory.fresh_inv, ⟨fun _ => rfl, fun _ => rfl⟩, nofun, nofun, nofun, ?_, ?_⟩
  all_goals exact fun i v level l hleaf => nomatch hleaf

theorem System.Sound.run (h : s.Sound) {ops : List (Op arch ι)} (hrun : s.run ops = some s') : s'.Sound := by
  induction ops generalizing s with
  | nil => exact some.inj hrun ▸ h
  | cons op rest ih =>
    obtain ⟨t, hst, hr⟩ := bind_eq_some_iff.mp hrun
    exact ih (h.step op hst) hr

/-! ### What user programs see -/

/-- The physical address that a user address stands for. -/
def userAddress (m : Memory arch ι) (i : ι) (v : Nat) : Option Nat :=
  match (m.spaces i).pageTable.query v with
  | .ok (physical, _, _) => some physical
  | .error _ => none

def userByte (m : Memory arch ι) (i : ι) (v : Nat) : Option UInt8 := (userAddress m i v).map m.byteAt

variable {m : Memory arch ι} {p v q : Nat}

omit [Fintype ι] [DecidableEq ι] in
theorem userAddress_some (h : userAddress m i v = some p) :
    ∃ size l, (m.spaces i).pageTable.leafAt v = some (PageSize.level size, l) ∧ p = l.paddr + v % size.bytes := by
  unfold userAddress at h
  split at h
  next phys flags size hqu =>
    obtain ⟨l, hleaf, hp, -⟩ := PageTable.query_ok hqu
    exact ⟨size, l, hleaf, (some.inj h).symm.trans hp⟩
  · cases h

omit [Fintype ι] [DecidableEq ι] in
/-- A user address stands for what its leaf says. -/
theorem userAddress_eq_some : userAddress m i v = some p ↔
    ∃ size l, (m.spaces i).pageTable.leafAt v = some (PageSize.level size, l) ∧ p = l.paddr + v % size.bytes := by
  refine ⟨userAddress_some, fun ⟨size, l, hleaf, hp⟩ => ?_⟩
  have hen := PageTable.getEntry_some.mpr hleaf
  unfold userAddress PageTable.query
  rw [hen, hp]

omit [Fintype ι] [DecidableEq ι] in
/-- The leaves and the frames decide what a user reads. -/
theorem userByte_congr {m' : Memory arch ι}
    (hleaf : (m'.spaces i).pageTable.leafAt v = (m.spaces i).pageTable.leafAt v) (hbs : m'.bytes = m.bytes) :
    userByte m' i v = userByte m i v := by
  have had : userAddress m' i v = userAddress m i v := by
    ext p
    rw [userAddress_eq_some, userAddress_eq_some, hleaf]
  have hby : m'.byteAt = m.byteAt := by
    funext p
    unfold Memory.byteAt
    rw [hbs]
  unfold userByte
  rw [had, hby]

omit [DecidableEq ι] in
/-- Nothing can be read where there are no areas. -/
theorem System.Sound.userByte_eq_none (h : s.Sound) (hem : ∀ sp, s.spaces i = some sp → sp.areas = .empty)
    (hv : v < arch.span) : userByte s.kernel.memory i v = none := by
  obtain ⟨w, hg⟩ := h
  have hvw : w.view i v = none := by
    cases hspace : s.spaces i with
    | none => exact hg.absent hspace v
    | some sp =>
      refine hg.none_outside hspace fun ⟨a, har, _⟩ => ?_
      rw [hem sp hspace] at har
      exact absurd har List.not_mem_nil
  refine Option.map_eq_none_iff.mpr (Option.eq_none_iff_forall_ne_some.mpr fun p hp => ?_)
  obtain ⟨size, l, hleaf, -⟩ := userAddress_some hp
  exact nomatch hvw.symm.trans ((hg.memory.view i v hv).symm.trans hleaf)

/-- Releasing one space leaves the others alone. -/
theorem System.Sound.unmapUserAreas (h : s.Sound) (i : ι) : ∃ s', s.call i (Vma.unmapUserAreas i) = some s' ∧
    (s'.spaces i).map (·.areas) = (s.spaces i).map (fun _ => .empty) ∧
    ∀ j, j ≠ i → s'.spaces j = s.spaces j ∧
      ∀ v, v < arch.span → userByte s'.kernel.memory j v = userByte s.kernel.memory j v := by
  obtain ⟨w, hg⟩ := h
  unfold System.call
  cases hspace : s.spaces i with
  | none => exact ⟨s, rfl, by rw [hspace]; rfl, fun j _ => ⟨rfl, fun v _ => rfl⟩⟩
  | some sp =>
    have hsi := hg.sits hspace
    have hs := unmapUserAreas_spec hsi _ rfl
    dsimp only
    cases hrun : Vma.unmapUserAreas i ⟨s.kernel, sp⟩ with
    | error e v => exact (hrun ▸ hs).elim
    | ok _ v =>
      rw [hrun] at hs
      obtain ⟨w', her, hgo', har⟩ := hs
      refine ⟨_, rfl, ?_, fun j hj => ⟨update_of_ne hj .., fun a ha => ?_⟩⟩
      · show (update s.spaces i (some v.space) i).map _ = _
        rw [update_self, map_some, har]
        rfl
      · refine userByte_congr ?_ ?_
        · rw [hg.memory.view j a ha, ← her.kept j a fun hbo => hj hbo.1]
          exact Good.memory hgo' |>.view j a ha
        · rw [hg.memory.bytes, ← her.bytes]
          exact Good.memory hgo' |>.bytes

omit [Fintype ι] [DecidableEq ι] in
theorem byteAt_setByte (m : Memory arch ι) (byte : UInt8) (hne : q ≠ p) :
    (m.setByte p byte).byteAt q = m.byteAt q := by
  show update m.bytes (p - p % frameSize) _ (q - q % frameSize) _ = _
  by_cases hq : q - q % frameSize = p - p % frameSize
  · have hoff : q % frameSize ≠ p % frameSize := by
      intro hoff
      have hp := Nat.mod_le p frameSize
      have hq' := Nat.mod_le q frameSize
      omega
    rw [hq, update_self, if_neg hoff, ← hq]
    rfl
  · rw [update_of_ne hq]
    rfl

omit [Fintype ι] [DecidableEq ι] in
/-- Storing leaves the tables as they are. -/
theorem userByte_setByte (m : Memory arch ι) (byte : UInt8) (ho : userAddress m j v ≠ some p) :
    userByte (m.setByte p byte) j v = userByte m j v := by
  have had : userAddress (m.setByte p byte) j v = userAddress m j v := rfl
  unfold userByte
  rw [had]
  cases hf : userAddress m j v with
  | none => rfl
  | some q =>
    have hne : q ≠ p := fun h => ho (hf.trans (congrArg some h))
    rw [map_some, map_some, byteAt_setByte m byte hne]

/-- The frame of a leaf is its own. -/
structure Isolated (k : Kernel arch ι) (i : ι) (v level : Nat) (leaf : Leaf) : Prop where
  counted : k.memory.refCount leaf.paddr = 1
  leaves : ∀ j v' level' leaf', v' < arch.span →
    (k.memory.spaces j).pageTable.leafAt v' = some (level', leaf') → leaf'.flags.allocFrame = true →
    leaf'.paddr = leaf.paddr → j = i ∧ PageTable.SamePage level v v'
  objects : ∀ kept ∈ k.kept, kept.frame.paddr ≠ leaf.paddr
  stores : ∀ p byte, userAddress k.memory i v = some p →
    (∀ j v', v' < arch.span → ¬ (j = i ∧ v' = v) →
      userByte (k.memory.setByte p byte) j v' = userByte k.memory j v') ∧
    ∀ kept ∈ k.kept, (k.memory.setByte p byte).bytes kept.frame.paddr = k.memory.bytes kept.frame.paddr

section Owners
variable {w : World ι} {k : Kernel arch ι} {spaces : ι → Option (VmSpace arch)} (h : Good w [] k spaces)
  {v level : Nat} {l : Leaf} (hleaf : w.view i v = some (level, l))
include h hleaf

omit [DecidableEq ι] in
/-- Frames of the allocator are mapped page by page. -/
theorem Good.allocLeaf_level (hal : l.flags.allocFrame) : level = 0 := by
  obtain ⟨sp, loc, hsp, hloc, hsv⟩ := h.served i v level l hleaf
  obtain ⟨a, har, hin, rfl⟩ := (lookup_eq_some (h.formed i sp hsp)).mp hloc
  have hsta : (a.locate v).origin.isStatic = false := by
    have hki := hsv.kind
    rw [hal] at hki
    simpa using hki.symm
  rw [hsv.level]
  exact congrArg PageSize.level ((h.backed i sp hsp a har).paged v hsta)

omit [DecidableEq ι] in
/-- A physical address in a frame that is out comes from a leaf that owns the frame. -/
theorem Good.owner_of_address (hp : 0 < w.refs p) (hq : q < frameSize) {size : PageSize}
    (hsi : level = size.level) (had : p + q = l.paddr + v % size.bytes) :
    l.flags.allocFrame ∧ l.paddr = p ∧ v % frameSize = q := by
  have hal : p % 4096 = 0 := h.memory.aligned hp
  have hq : q < 4096 := hq
  cases halloc : l.flags.allocFrame with
  | true =>
    have hlv := h.allocLeaf_level hleaf halloc
    have hsl : size = .size4K := by
      rw [hsi] at hlv
      cases size <;> first | rfl | cases hlv
    subst hsl
    have hlf : l.paddr % 4096 = 0 :=
      h.memory.aligned (h.memory.refs_pos h.owned.balanced (h.inside hleaf) hleaf halloc)
    have had : p + q = l.paddr + v % 4096 := had
    have hins : v % 4096 = q := by omega
    exact ⟨rfl, by omega, hins⟩
  | false =>
    -- static frames are none of the allocator's
    obtain ⟨sp, loc, hsp, hloc, hsv⟩ := h.served i v level l hleaf
    have hki := hsv.kind
    have hsta : loc.origin.isStatic := by
      rw [halloc] at hki
      simpa using hki.symm
    have hsm : loc.pageSize.bytes = size.bytes := by
      have hle : loc.pageSize.level = size.level := hsv.level.symm.trans hsi
      unfold PageSize.bytes
      rw [hle]
    have hfor := hsv.static hsta (v % size.bytes) (hsm ▸ Nat.mod_lt _ (Nat.two_pow_pos _))
    rw [← had] at hfor
    have hsrt : p + q - (p + q) % 4096 = p := by omega
    rw [show p + q - (p + q) % frameSize = p from hsrt, h.memory.known p hp] at hfor
    cases hfor

/-- A leaf that is the only owner of its frame. -/
theorem Good.isolated (hac : l.flags.allocFrame) (hone : w.refs l.paddr = 1) : Isolated k i v level l := by
  have hv := h.inside hleaf
  have hbal := h.owned.balanced l.paddr
  have hmap := h.memory.mapped_pos hv hleaf hac
  have hls : ∀ j v' level' leaf', w.view j v' = some (level', leaf') → leaf'.flags.allocFrame →
      leaf'.paddr = l.paddr → j = i ∧ PageTable.SamePage level v v' := by
    intro j v' level' leaf' hle' hal' hsm
    by_contra ho
    have htwo := h.memory.two_leaves hv (h.inside hle') hleaf hle' hac hal' hsm fun hj hpg => ho ⟨hj, hpg⟩
    omega
  have hob : ∀ kept ∈ k.kept, kept.frame.paddr ≠ l.paddr := by
    intro kept hk heq
    have hco : 0 < ([] ++ k.frames).count (Frame.mk l.paddr) :=
      List.count_pos_iff.mpr (List.mem_map.mpr ⟨kept, hk, congrArg Frame.mk heq⟩)
    rw [← h.owned.handles] at hco
    omega
  refine ⟨(congrFun h.memory.refs _).trans hone, fun j v' level' leaf' hv' hle' => ?_, hob, fun p byte hp => ?_⟩
  · exact hls j v' level' leaf' ((h.memory.view j v' hv').symm.trans hle')
  · obtain ⟨size, leaf₀, hleaf₀, hp⟩ := userAddress_some hp
    cases ((h.memory.view i v hv).trans hleaf).symm.trans hleaf₀
    have hpos : 0 < w.refs l.paddr := by omega
    have hlv := h.allocLeaf_level hleaf hac
    have hsl : size = .size4K := by cases size <;> first | rfl | cases hlv
    subst hsl
    have hoff : v % frameSize < frameSize := Nat.mod_lt _ (by decide)
    refine ⟨fun j v' hv' ho => userByte_setByte _ byte fun had => ?_, fun kept hk => ?_⟩
    · obtain ⟨size', leaf', hle', hp'⟩ := userAddress_some had
      have hvw := (h.memory.view j v' hv').symm.trans hle'
      obtain ⟨hal', hsm, hins⟩ := h.owner_of_address hvw hpos hoff rfl (hp.symm.trans hp')
      obtain ⟨rfl, hpg⟩ := hls j v' _ leaf' hvw hal' hsm
      refine ho ⟨rfl, ?_⟩
      have hpg : v' / 4096 = v / 4096 := hpg
      have hins : v' % 4096 = v % 4096 := hins
      omega
    · have hal : l.paddr % 4096 = 0 := h.memory.aligned hpos
      have hp : p = l.paddr + v % 4096 := hp
      have hsrt : p - p % 4096 = l.paddr := by omega
      show update k.memory.bytes (p - p % frameSize) _ kept.frame.paddr = _
      rw [show p - p % frameSize = l.paddr from hsrt, update_of_ne (hob kept hk)]

end Owners

/-! ### Isolation -/

/-- **Copy-on-write isolates**: after any operations, failed ones among them, the flags of a leaf are
among those of its area, and the frame of a private page that may be written belongs to that page
alone. -/
theorem copy_on_write_isolates (k : Kernel arch ι) (ops : List (Op arch ι))
    (hrun : System.run ⟨k.fresh, fun _ => none⟩ ops = some s) {v level : Nat} {leaf : Leaf} (hv : v < arch.span)
    (hleaf : (s.kernel.memory.spaces i).pageTable.leafAt v = some (level, leaf)) :
    ∃ space, s.spaces i = some space ∧ ∃ area ∈ values space.areas, area.range.contains v = true ∧
      area.flags.contains (MappingFlags.access leaf.flags) = true ∧
      (area.backing.isPrivate = true → leaf.flags.write = true → Isolated s.kernel i v level leaf) := by
  obtain ⟨w, h⟩ := k.fresh_sound.run hrun
  have hvw := (h.memory.view i v hv).symm.trans hleaf
  obtain ⟨space, location, hspace, hloc, hsv⟩ := h.served i v level leaf hvw
  obtain ⟨area, harea, hin, rfl⟩ := (lookup_eq_some (h.formed i space hspace)).mp hloc
  refine ⟨space, hspace, area, harea, hin, hsv.flags, fun hpriv hwrite => ?_⟩
  obtain ⟨halloc, hone⟩ := hsv.alone hpriv hwrite
  exact h.isolated hvw halloc hone

/-- **No writable page of a guarded object is without a guard.** -/
theorem writable_leaf_guarded (k : Kernel arch ι) (ops : List (Op arch ι))
    (hrun : System.run ⟨k.fresh, fun _ => none⟩ ops = some s) {space : VmSpace arch} (hspace : s.spaces i = some space)
    {area : VmArea} (harea : area ∈ values space.areas) {v level : Nat} {leaf : Leaf} (hv : v < arch.span)
    (hin : area.range.contains v = true) (hleaf : (s.kernel.memory.spaces i).pageTable.leafAt v = some (level, leaf))
    (hguarded : area.backing.requiresWriteGuard s.kernel.guarded = true) (hwrite : leaf.flags.write = true) :
    ∃ guard, (v - v % frameSize, guard) ∈ space.writeGuards := by
  obtain ⟨w, h⟩ := k.fresh_sound.run hrun
  have hvw := (h.memory.view i v hv).symm.trans hleaf
  have hsv := h.areaOf hspace harea hin hvw
  exact hsv.tracked (by rw [locate_needsGuard, hguarded]) hwrite

/-- **Invalidation is exact**: what has been checked can be unmapped, and there go the leaves and the guards of just those
pages of the object's areas whose bytes meet the range. -/
theorem invalidation_exact (k : Kernel arch ι) (ops : List (Op arch ι))
    (hrun : System.run ⟨k.fresh, fun _ => none⟩ ops = some s) {space : VmSpace arch} (hspace : s.spaces i = some space)
    (id first last : Nat) {v : Vm arch ι} (hval : validateObjectRange i id first last ⟨s.kernel, space⟩ = .ok () v) :
    ∃ t, unmapObjectRange i id first last v = .ok () t ∧ t.space = {space with writeGuards := t.space.writeGuards} ∧
      (∀ e, e ∈ t.space.writeGuards ↔ e ∈ space.writeGuards ∧ ¬ space.Hit id first last e.1) ∧
      ∀ j a, a < arch.span →
        (j = i → space.Hit id first last a → (t.kernel.memory.spaces j).pageTable.leafAt a = none) ∧
        (¬ (j = i ∧ space.Hit id first last a) →
          (t.kernel.memory.spaces j).pageTable.leafAt a = (s.kernel.memory.spaces j).pageTable.leafAt a) := by
  obtain ⟨w, h⟩ := k.fresh_sound.run hrun
  have hs := h.sits hspace
  obtain ⟨m, rfl, hm⟩ := (validateObjectRange_spec hs).ok rfl hval
  have hs : Sits w [] i s.spaces (.withMemory ⟨s.kernel, space⟩ m) := .sameWorld hs hm
  have hun : Triple _ (unmapObjectRange i id first last) _ fun _ _ => False := unmapObjectRange_spec hs
  cases hx : unmapObjectRange i id first last (.withMemory ⟨s.kernel, space⟩ m) with
  | error e t => exact (hun.error rfl hx).elim
  | ok _ t =>
    obtain ⟨w', hc⟩ := hun.ok rfl hx
    have hhit : ∀ a, _ ↔ space.Hit id first last a := invalidated_iff hs
    refine ⟨t, rfl, ?_, fun e => ?_, fun j a ha => ?_⟩
    · obtain ⟨_, _, rfl⟩ := hc.state
      rfl
    · rw [hc.guards, hhit]
      rfl
    · rw [hc.sits.memory.view j a ha, h.memory.view j a ha, ← hhit]
      refine ⟨?_, hc.erased.kept j a⟩
      rintro rfl
      exact hc.erased.gone a

/-- **A fault stays in its page**: the areas and all other leaves are as before. -/
theorem fault_confined (k : Kernel arch ι) (ops : List (Op arch ι))
    (hrun : System.run ⟨k.fresh, fun _ => none⟩ ops = some s) {space : VmSpace arch} (hspace : s.spaces i = some space)
    (addr : Nat) (access : MappingFlags) :
    Runs ⟨s.kernel, space⟩ (handlePageFault i addr access) (fun _ t => SameAreas ⟨s.kernel, space⟩ t ∧
      ∀ j, ∀ a < arch.span, ¬ (j = i ∧ addr - addr % frameSize ≤ a ∧ a < addr - addr % frameSize + frameSize) →
        (t.kernel.memory.spaces j).pageTable.leafAt a = (s.kernel.memory.spaces j).pageTable.leafAt a) Stuck := by
  obtain ⟨w, h⟩ := k.fresh_sound.run hrun
  refine (handlePageFault_spec (h.sits hspace) addr access).post fun _ t ⟨w', hw⟩ => ⟨hw.same, fun j a ha ho => ?_⟩
  exact (hw.sits.memory.view j a ha).trans ((hw.within.view j a ho).trans (h.memory.view j a ha).symm)

/-- **Unmapping leaves no page of the range**, or it changes nothing. -/
theorem unmap_revokes (k : Kernel arch ι) (ops : List (Op arch ι))
    (hrun : System.run ⟨k.fresh, fun _ => none⟩ ops = some s) {space : VmSpace arch} (hspace : s.spaces i = some space)
    (start size : Nat) : Runs ⟨s.kernel, space⟩ (unmap i start size)
    (fun _ t => ∀ a < arch.span, start ≤ a → a < start + size → (t.kernel.memory.spaces i).pageTable.leafAt a = none)
    fun e t => e ≠ .panic ∧ t = ⟨s.kernel, space⟩ := by
  obtain ⟨w, h⟩ := k.fresh_sound.run hrun
  have h := h.sits hspace
  rintro _ rfl
  cases hrun : unmap i start size ⟨s.kernel, space⟩ with
  | error e t => exact (unmap_spec h).error rfl hrun
  | ok _ t =>
    obtain ⟨w', h'⟩ := (unmap_spec h).ok rfl hrun
    have hlook := ((unmap_areas h.formed).ok rfl hrun).lookup
    refine fun a ha hlo hhi => Option.eq_none_iff_forall_ne_some.mpr fun ⟨_, _⟩ hleaf => ?_
    -- A leaf would be in an area.
    obtain ⟨sp, loc, hsp, hloc, -⟩ := h'.served i a _ _ ((h'.memory.view i a ha).symm.trans hleaf)
    cases (update_self ..).symm.trans hsp
    rw [hlook, unmapped, if_pos (VirtAddrRange.contains_iff.mpr ⟨hlo, hhi⟩)] at hloc
    cases hloc

end Runs

theorem run'_eq_some {α : Type} {x : VProg sv39 Bool α} {v : Vm sv39 Bool} {a : α} (h : EStateM.run' x v = some a) :
    ∃ t, x v = .ok a t := by
  delta EStateM.run' EStateM.run at h
  cases hx : x v with
  | error e t =>
    rw [hx] at h
    cases h
  | ok b t =>
    rw [hx] at h
    cases h
    exact ⟨t, rfl⟩

/-- A page is written, the space is forked, and the child writes the page. -/
def forkWrites : List (Op sv39 Bool) :=
  [.newEmpty false userRange, .map false 0x1000 0x2000 readWrite (.anonymous true), .tryClone false true,
    .handlePageFault true 0x1000 readWrite]

theorem copy_on_write_isolates_fork :
    ∃ s level leaf, System.run ⟨smallKernel.fresh, fun _ => none⟩ forkWrites = some s ∧
      (s.kernel.memory.spaces true).pageTable.leafAt 0x1000 = some (level, leaf) ∧ leaf.flags.write = true ∧
      ∃ space, s.spaces true = some space ∧ ∃ area ∈ values space.areas, area.range.contains 0x1000 = true ∧
        area.flags.contains (MappingFlags.access leaf.flags) = true ∧
        (area.backing.isPrivate = true → leaf.flags.write = true → Isolated s.kernel true 0x1000 level leaf) := by
  have hruns : ((System.run ⟨smallKernel.fresh, fun _ => none⟩ forkWrites).bind fun s =>
      (s.kernel.memory.spaces true).pageTable.leafAt 0x1000).map (fun found => found.2.flags.write) = some true := by
    decide +kernel
  obtain ⟨⟨level, leaf⟩, hf, hwrite⟩ := Option.map_eq_some_iff.mp hruns
  obtain ⟨s, hrun, hleaf⟩ := bind_eq_some_iff.mp hf
  exact ⟨s, level, leaf, hrun, hleaf, hwrite, copy_on_write_isolates smallKernel forkWrites hrun (by decide) hleaf⟩

/-- The child writes its other page too; the page it wrote before stays. -/
theorem fault_confined_fork : ∃ s space t, System.run ⟨smallKernel.fresh, fun _ => none⟩ forkWrites = some s ∧
    s.spaces true = some space ∧ handlePageFault true 0x2000 readWrite ⟨s.kernel, space⟩ = .ok .resolved t ∧
    ((t.kernel.memory.spaces true).pageTable.leafAt 0x1000).isSome = true ∧
    (t.kernel.memory.spaces true).pageTable.leafAt 0x1000 = (s.kernel.memory.spaces true).pageTable.leafAt 0x1000 := by
  have hruns : ((System.run ⟨smallKernel.fresh, fun _ => none⟩ forkWrites).bind fun s => (s.spaces true).bind fun space =>
      (EStateM.run' (handlePageFault true 0x2000 readWrite) ⟨s.kernel, space⟩).map fun result =>
        (result, ((s.kernel.memory.spaces true).pageTable.leafAt 0x1000).isSome)) = some (.resolved, true) := by
    decide +kernel
  obtain ⟨s, hrun, hr⟩ := bind_eq_some_iff.mp hruns
  obtain ⟨space, hspace, hr⟩ := bind_eq_some_iff.mp hr
  obtain ⟨result, hres, hr⟩ := Option.map_eq_some_iff.mp hr
  obtain ⟨rfl, hleaf⟩ := Prod.mk.inj hr
  obtain ⟨t, ht⟩ := run'_eq_some hres
  have hsame := ((fault_confined smallKernel forkWrites hrun hspace 0x2000 readWrite).ok rfl ht).2 true 0x1000
    (by decide) (by decide)
  exact ⟨s, space, t, hrun, hspace, ht, by rw [hsame, hleaf], hsame⟩

/-- The child gives up the page that it has written. -/
theorem unmap_revokes_fork : ∃ s space t, System.run ⟨smallKernel.fresh, fun _ => none⟩ forkWrites = some s ∧
    s.spaces true = some space ∧ unmap true 0x1000 0x1000 ⟨s.kernel, space⟩ = .ok () t ∧
    ((s.kernel.memory.spaces true).pageTable.leafAt 0x1000).isSome = true ∧
    (t.kernel.memory.spaces true).pageTable.leafAt 0x1000 = none := by
  have hruns : ((System.run ⟨smallKernel.fresh, fun _ => none⟩ forkWrites).bind fun s => (s.spaces true).bind fun space =>
      (EStateM.run' (unmap true 0x1000 0x1000) ⟨s.kernel, space⟩).map fun _ =>
        ((s.kernel.memory.spaces true).pageTable.leafAt 0x1000).isSome) = some true := by
    decide +kernel
  obtain ⟨s, hrun, hr⟩ := bind_eq_some_iff.mp hruns
  obtain ⟨space, hspace, hr⟩ := bind_eq_some_iff.mp hr
  obtain ⟨_, hres, hleaf⟩ := Option.map_eq_some_iff.mp hr
  obtain ⟨t, ht⟩ := run'_eq_some hres
  have hgone := (unmap_revokes smallKernel forkWrites hrun hspace 0x1000 0x1000).ok rfl ht
  exact ⟨s, space, t, hrun, hspace, ht, hleaf, hgone 0x1000 (by decide) (by decide) (by decide)⟩

/-- The object has one page, and gives a guard with it. -/
def objectKernel : Kernel sv39 Bool :=
  {smallKernel with
    lengths := fun _ _ => .ok 4096
    replies := fun _ _ _ _ => ⟨[.load 0 fun _ => 0], .ok (0, some ⟨7⟩)⟩}

/-- A shared page is read and then written. -/
def sharedWrites : List (Op sv39 Bool) :=
  [.newEmpty false userRange, .map false 0x1000 0x1000 readWrite (.object 0 0 false false),
    .handlePageFault false 0x1000 readAccess, .handlePageFault false 0x1000 writeAccess]

theorem writable_leaf_guarded_shared :
    ∃ s space, System.run ⟨objectKernel.fresh, fun _ => none⟩ sharedWrites = some s ∧ s.spaces false = some space ∧
      ∃ guard, (0x1000, guard) ∈ space.writeGuards := by
  have hruns : ((System.run ⟨objectKernel.fresh, fun _ => none⟩ sharedWrites).bind fun s =>
      ((s.spaces false).bind fun space => (values space.areas).head?.bind fun area =>
        ((s.kernel.memory.spaces false).pageTable.leafAt 0x1000).map fun found =>
          area.range.contains 0x1000 && area.backing.requiresWriteGuard s.kernel.guarded && found.2.flags.write)) =
      some true := by
    decide +kernel
  obtain ⟨s, hrun, hr⟩ := bind_eq_some_iff.mp hruns
  obtain ⟨space, hspace, hr⟩ := bind_eq_some_iff.mp hr
  obtain ⟨area, harea, hr⟩ := bind_eq_some_iff.mp hr
  obtain ⟨⟨level, leaf⟩, hleaf, hfacts⟩ := Option.map_eq_some_iff.mp hr
  simp only [Bool.and_eq_true] at hfacts
  obtain ⟨⟨hin, hguarded⟩, hwrite⟩ := hfacts
  exact ⟨s, space, hrun, hspace, writable_leaf_guarded objectKernel sharedWrites hrun hspace (List.mem_of_head? harea)
    (by decide) hin hleaf hguarded hwrite⟩

/-- The first byte of the object is taken away. -/
theorem invalidation_exact_shared :
    ∃ (s : System sv39 Bool) (space : VmSpace sv39) (t : Vm sv39 Bool),
      System.run ⟨objectKernel.fresh, fun _ => none⟩ sharedWrites = some s ∧ s.spaces false = some space ∧
        (validateObjectRange false 0 0 1 >>= fun _ => unmapObjectRange false 0 0 1) ⟨s.kernel, space⟩ = .ok () t ∧
        t.space.areas = space.areas := by
  have hruns : ((System.run ⟨objectKernel.fresh, fun _ => none⟩ sharedWrites).bind fun s => (s.spaces false).bind fun space =>
      EStateM.run' (validateObjectRange false 0 0 1) ⟨s.kernel, space⟩) = some () := by
    decide +kernel
  obtain ⟨s, hrun, hr⟩ := bind_eq_some_iff.mp hruns
  obtain ⟨space, hspace, hr⟩ := bind_eq_some_iff.mp hr
  obtain ⟨v, hval⟩ := run'_eq_some hr
  obtain ⟨t, ht, hsp, -⟩ := invalidation_exact objectKernel sharedWrites hrun hspace 0 0 1 hval
  exact ⟨s, space, t, hrun, hspace, (bind_ok hval).trans ht, by rw [hsp]⟩

end StarryX.Vma
