import StarryX.Cache.Backed

/-! The file, read past its cache.

`load_file` gets a program from `FsContext::read`, which reads the node of the file to its
end. `File::read_at` on a file with a cache slot asks the mapping. `fsRead` is the first,
`readAt` the second, and both are run here in whatever state a history of operations and of
stores through shared mappings has left. The two agree if no page is dirty and the backing is
as long as the file (`loaded_eq_read`). -/
namespace StarryX.Cache.Manager
open Library
open Option (some.inj)
open SortedMap (get?_insert get?_modify)

/-! ### The raw read -/

/-- `default_read_to_end` on a node: `room` is what the buffer has to spare at each turn,
less the one byte it always has. -/
def readToEnd (backing : Bytes Byte) (room : Nat → Nat) : Nat → Nat → Bytes Byte → Bytes Byte
  | 0, _, buf => buf
  | fuel + 1, turn, buf =>
    let n := min (room turn + 1) (backing.size - buf.size)
    if n = 0 then buf
    else
      readToEnd backing room fuel (turn + 1)
        (buf.writeAt buf.size n fun j => backing.get (buf.size + j))

/-- `FsContext::read`, of the file behind a mapping. A turn reads a byte or is the last. -/
def fsRead (room : Nat → Nat) (m : FileMapping) : Bytes Byte :=
  readToEnd m.backing room (m.backing.size + 1) 0 .empty

/-- What has been read is the file as far as it goes. -/
def IsHead (backing buf : Bytes Byte) : Prop :=
  buf.size ≤ backing.size ∧ ∀ i, i < buf.size → buf.get i = backing.get i

variable {backing buf : Bytes Byte}

theorem IsHead.extend {n : Nat} (h : IsHead backing buf) (hn : n ≤ backing.size - buf.size) :
    IsHead backing (buf.writeAt buf.size n fun j => backing.get (buf.size + j)) := by
  have hz : (buf.writeAt buf.size n fun j => backing.get (buf.size + j)).size = buf.size + n := by
    show max buf.size (buf.size + n) = _
    omega
  refine ⟨by have := h.1; omega, fun i hi => ?_⟩
  rw [hz] at hi
  show overlay buf.get buf.size n (fun j => backing.get (buf.size + j)) i = _
  by_cases hnew : buf.size ≤ i
  · rw [overlay_inside ⟨hnew, hi⟩]
    congr 1
    omega
  · rw [overlay_outside (by omega)]
    exact h.2 i (by omega)

theorem IsHead.eq (h : IsHead backing buf) (hz : backing.size ≤ buf.size) : buf = backing := by
  have hz : buf.size = backing.size := Nat.le_antisymm h.1 hz
  refine Bytes.ext hz fun i => ?_
  by_cases hi : i < buf.size
  · exact h.2 i hi
  · rw [buf.beyond i (by omega), backing.beyond i (by omega)]

theorem readToEnd_eq {room : Nat → Nat} (fuel : Nat) :
    ∀ turn buf, IsHead backing buf → backing.size - buf.size < fuel →
      readToEnd backing room fuel turn buf = backing := by
  induction fuel with
  | zero => exact fun _ _ _ hfu => absurd hfu (Nat.not_lt_zero _)
  | succ fuel ih =>
    intro turn buf hbuf hfu
    unfold readToEnd
    simp only
    split
    · exact hbuf.eq (by omega)
    next hmo =>
      apply ih (turn + 1) _ (hbuf.extend (Nat.min_le_right _ _))
      show backing.size - max buf.size (buf.size + _) < fuel
      omega

/-- Whatever the buffers, the raw read returns the backing. -/
theorem fsRead_eq (room : Nat → Nat) (m : FileMapping) : fsRead room m = m.backing :=
  readToEnd_eq _ 0 .empty ⟨Nat.zero_le _, fun _ hi => absurd hi (Nat.not_lt_zero _)⟩ (Nat.lt_succ_self _)

/-! ### The read through the cache -/

/-- Nothing waits to be written back. -/
structure FileMapping.Synced (m : FileMapping) : Prop where
  size : m.backing.size = m.logicalSize
  clean : ∀ k p, m.pages.get? k = some p → p.state.isDirty = false

/-- No page has used up its leases, but for one that may have one more. -/
def FileMapping.Leasable (m : FileMapping) (taken : Option Nat) : Prop :=
  ∀ k p, m.pages.get? k = some p → p.state.leases + 1 < 2 ^ 32 + (if taken = some k then 1 else 0)

section Reading
variable {id idx : Nat} {m m' : FileMapping} {file : Bytes Byte} {taken taken' : Option Nat} {s : CacheManager}

/-- The pages of a mapping are those of the file behind it, and can be leased. -/
structure Shows (file : Bytes Byte) (taken : Option Nat) (m : FileMapping) : Prop where
  backing : m.backing = file
  size : m.logicalSize = file.size
  frames : ∀ k p, m.pages.get? k = some p → p.frame = window file.get k
  leasable : m.Leasable taken

/-- One page is put in place. -/
theorem Shows.put (idx : Nat) (h : Shows file taken m) (hbk : m'.backing = m.backing) (hz : m'.logicalSize = m.logicalSize)
    (htaken : ∀ k, k ≠ idx → taken = some k → taken' = some k)
    (hpgs : ∀ k p', m'.pages.get? k = some p' → (m.pages.get? k = some p' ∧ k ≠ idx) ∨
      (k = idx ∧ p'.frame = window file.get idx ∧ p'.state.leases + 1 < 2 ^ 32 + (if taken' = some idx then 1 else 0))) :
    Shows file taken' m' := by
  refine ⟨hbk.trans h.backing, hz.trans h.size, fun k p' hp' => ?_, fun k p' hp' => ?_⟩
  · obtain ⟨hp, -⟩ | ⟨rfl, hfm, -⟩ := hpgs k p' hp'
    · exact h.frames k p' hp
    · exact hfm
  · obtain ⟨hp, hne⟩ | ⟨rfl, -, hle⟩ := hpgs k p' hp'
    · refine (h.leasable k p' hp).trans_le (Nat.add_le_add_left ?_ _)
      split
      next htk => rw [if_pos (htaken k hne htk)]
      · exact Nat.zero_le _
    · exact hle

/-- A page is leased, or its lease dropped. -/
theorem Shows.modifyPage {g : CachedPage → CachedPage} (h : Shows file taken m)
    (htaken : ∀ k, k ≠ idx → taken = some k → taken' = some k) (hg : ∀ p, (g p).frame = p.frame)
    (hle : ∀ p, m.pages.get? idx = some p → (g p).state.leases + 1 < 2 ^ 32 + (if taken' = some idx then 1 else 0)) :
    Shows file taken' (m.modifyPage idx g) := by
  refine h.put idx rfl rfl htaken fun k p' hp' => ?_
  have hp' := (get?_modify m.pages idx g k).symm.trans hp'
  split at hp'
  next hk =>
    obtain ⟨p, hp, rfl⟩ := Option.map_eq_some_iff.mp hp'
    subst hk
    exact .inr ⟨rfl, (hg p).trans (h.frames k p hp), hle p hp⟩
  next hk => exact .inl ⟨hp', hk⟩

/-- A reader finds the mapping, and memory for what it loads. -/
structure Sees (file : Bytes Byte) (id : Nat) (taken : Option Nat) (s : CacheManager) : Prop where
  memory : s.memory = fun _ => true
  shows : ∃ m, s.registry.get? id = some m ∧ Shows file taken m

theorem Sees.modify {f : FileMapping → FileMapping} (h : Sees file id taken s)
    (hf : ∀ m, s.registry.get? id = some m → Shows file taken m → Shows file taken' (f m)) :
    Sees file id taken' {s with registry := s.registry.modify id f} := by
  obtain ⟨hmem, m, hm, hsh⟩ := h
  refine ⟨hmem, f m, ?_, hf m hm hsh⟩
  rw [get?_modify, if_pos rfl, hm]
  rfl

theorem allocated_sees : Triple (Sees file id taken) allocated (fun b s => b = true ∧ Sees file id taken s) fun _ _ => False :=
  .modifyGet fun s h => ⟨congrFun h.memory s.asked, h.memory, h.shows⟩

theorem reserve_sees : Triple (Sees file id taken) reserve (fun _ => Sees file id taken) fun _ _ => False := by
  refine allocated_sees.bind fun b => ?_
  cases b with
  | true => exact .pure fun _ h => h.2
  | false => exact .throw fun _ h => nomatch h.1

theorem allocateFrame_sees : Triple (Sees file id taken) allocateFrame (fun _ => Sees file id taken) fun _ _ => False := by
  refine allocated_sees.bind fun b => ?_
  cases b with
  | true => exact .pure fun _ h => h.2
  | false => exact fun _ h => nomatch h.1

theorem getMapping_sees : Triple (Sees file id taken) (getMapping id)
    (fun m s => Sees file id taken s ∧ s.registry.get? id = some m ∧ Shows file taken m) fun _ _ => False := by
  refine (getMapping_found fun s h => h.shows.imp fun _ hm => hm.1).post fun m s ⟨h, hm⟩ => ⟨h, hm, ?_⟩
  obtain ⟨m', hm', hsh⟩ := h.shows
  cases hm.symm.trans hm'
  exact hsh

/-- A page that is missing is loaded from the file. -/
theorem loadPage_sees (idx : Nat) : Triple (Sees file id none) (loadPage id idx false)
    (fun page s => Sees file id none s ∧ page.state = .clean ∧ page.frame = window file.get idx) fun _ _ => False := by
  refine allocateFrame_sees.bind fun _ => getMapping_sees.next fun m s ⟨hse, _, hsh⟩ => .get_bind ?_
  have hld : loadFrame m.backing.get idx m.logicalSize = window file.get idx := by
    rw [hsh.backing, hsh.size]
    exact loadFrame_eq_window (fun _ => rfl) fun b hb => file.beyond _ (by omega)
  refine .resume (P := Sees file id none) (.bind (Q := fun _ => Sees file id none)
    (.modify fun _ h => ⟨h.memory, h.shows⟩) fun _ => ?_) hse
  refine reserve_sees.bind fun _ => .bind (Q := fun _ => Sees file id none) (.modify fun _ h => ⟨h.memory, h.shows⟩) fun _ => ?_
  exact .pure fun _ h => ⟨h, rfl, hld⟩

theorem publishPage_sees (idx : Nat) : Triple (Sees file id none) (publishPage id idx false)
    (fun _ s => Sees file id none s ∧ Holds id idx (fun _ => True) s) fun _ _ => False := by
  refine (loadPage_sees idx).bind fun page => .bind
    (Q := fun _ s => Sees file id none s ∧ Holds id idx (fun _ => True) s) (.modify fun s ⟨hse, hcl, hfm⟩ => ?_)
    fun _ => .modify fun _ h => ⟨⟨h.1.memory, h.1.shows⟩, h.2⟩
  refine ⟨hse.modify fun m _ hsh => hsh.put idx rfl rfl (fun _ _ h => h) fun k p' hp' => ?_, ?_⟩
  · have hp' := (get?_insert m.pages idx page k).symm.trans hp'
    split at hp'
    next hk =>
      cases hp'
      exact .inr ⟨hk, hfm, by simp [hcl, PageState.clean]⟩
    next hk => exact .inl ⟨hp', hk⟩
  · obtain ⟨m, hm, -⟩ := hse.shows
    exact .modify hm ((get?_insert m.pages idx page idx).trans (if_pos rfl)) trivial

theorem leasePage_sees (idx : Nat) :
    Triple (fun s => Sees file id none s ∧ Holds id idx (fun _ => True) s) (leasePage id idx)
      (fun page s => Sees file id (some idx) s ∧ page.frame = window file.get idx) fun _ _ => False := by
  refine (getMapping_found fun s h => h.1.shows.imp fun _ hm => hm.1).next fun m s ⟨⟨hse, m', p, hm', hp, _⟩, hm⟩ => ?_
  cases hm.symm.trans hm'
  obtain ⟨m', hm', hsh⟩ := hse.shows
  cases hm.symm.trans hm'
  have hle := hsh.leasable idx p hp
  have htake : p.state.takeLease = .ok {p.state with leases := p.state.leases + 1} := if_pos (by simpa using hle)
  simp only [hp, htake]
  refine .resume (P := Sees file id none) (.bind (Q := fun _ => Sees file id (some idx)) (.modify fun s h => ?_)
    fun _ => .pure fun _ h => ⟨h, hsh.frames idx p hp⟩) hse
  refine h.modify fun m' _ hsh' => hsh'.modifyPage nofun (fun _ => rfl) fun p' _ => ?_
  rw [if_neg nofun] at hle
  rw [if_pos rfl]
  exact Nat.succ_lt_succ hle

theorem acquirePageInner_sees (idx : Nat) : Triple (Sees file id none) (acquirePageInner id idx false)
    (fun page s => Sees file id (some idx) s ∧ page.frame = window file.get idx) fun _ _ => False := by
  refine getMapping_sees.bind fun m => ?_
  split
  · exact .bind ((publishPage_sees idx).pre fun _ h => h.1) fun _ => leasePage_sees idx
  next hres =>
    obtain ⟨p, hp⟩ := Option.ne_none_iff_exists'.mp (mt Option.isNone_iff_eq_none.mpr hres)
    exact (leasePage_sees idx).pre fun s h => ⟨h.1, m, p, h.2.1, hp, trivial⟩

theorem dropLease_sees (idx : Nat) : Triple (Sees file id (some idx)) (dropLease id idx)
    (fun _ => Sees file id none) fun _ _ => False := by
  refine .modify fun s h => h.modify fun m _ hsh => hsh.modifyPage (fun k hne htk => ?_) (fun _ => rfl) fun p hp => ?_
  · exact absurd (some.inj htk).symm hne
  · have hle := hsh.leasable idx p hp
    rw [if_pos rfl] at hle
    rw [if_neg nofun]
    show p.state.leases - 1 + 1 < 2 ^ 32 + 0
    omega

theorem readLoop_sees (fuel : Nat) : ∀ span bs, span.done ≤ span.total → span.total - span.done ≤ fuel →
    Fetched file.get span.offset span.done bs →
    Triple (Sees file id none) (readLoop id fuel span bs) (fun r _ => Fetched file.get span.offset span.total r)
      fun _ _ => False := by
  induction fuel with
  | zero =>
    intro span bs hle hfu hby
    have hend : span.done = span.total := by omega
    exact .pure fun s h => hend ▸ hby
  | succ fuel ih =>
    intro span bs hle hfu hby
    unfold readLoop
    split_ifs with hmo
    · have hch := span.length_le
      have hpos := Span.length_pos hmo
      refine (acquirePageInner_sees span.index).next fun page s h => ?_
      refine .resume (.bind (dropLease_sees span.index) fun _ => ih span.advance _ ?_ ?_ ?_) h.1
      · show span.done + span.length ≤ span.total
        omega
      · show span.total - (span.done + span.length) ≤ fuel
        omega
      · exact fetch_chunk span hby fun b _ => congrFun h.2 b
    · have hend : span.done = span.total := by omega
      exact .pure fun s h => hend ▸ hby

/-- A read of the whole file returns it. -/
theorem readAt_sees {count : Nat} (hco : file.size ≤ count) :
    Triple (Sees file id none) (readAt id 0 count) (fun r _ => r = file) fun _ _ => False := by
  refine getMapping_sees.bind fun m s ⟨hse, _, hsh⟩ => ?_
  have hz := hsh.size
  by_cases hem : count = 0 ∨ m.logicalSize ≤ 0
  · rw [if_pos hem]
    refine Bytes.ext (by show 0 = _; omega) fun i => (file.beyond i (by omega)).symm
  · rw [if_neg hem, show min count (m.logicalSize - 0) = file.size by omega]
    refine (Triple.bind (readLoop_sees file.size ⟨0, file.size, 0⟩ _ (Nat.zero_le _) le_rfl
      fun i hi => absurd hi (Nat.not_lt_zero i)) fun r => .pure fun t hr => ?_) s hse
    refine Bytes.ext ?_ fun i => ?_
    · show max 0 (0 + file.size) = _
      omega
    · show overlay _ 0 file.size r i = _
      by_cases hi : i < file.size
      · rw [overlay_inside (by omega), hr (i - 0) hi]
        exact congrArg file.get (Nat.zero_add i)
      · rw [overlay_outside (by omega), file.beyond i (by omega)]
        rfl

end Reading

/-- **`execve` sees what `read` returns, if the file is synced.** After any history in which no writeback
cut bytes off a page: if no page of the file is dirty and the backing is as long as the file, then
reading the whole file through the cache succeeds, with memory for what it loads, and returns what
`load_file` gets. -/
theorem loaded_eq_read (policy : CachePolicy) (files : Nat → Bytes Byte) (n : Nat) (memory : Nat → Bool)
    (events : List Event) (room : Nat → Nat) {s : CacheManager}
    (hrun : history (.over policy files n memory) events = some s) (hclipped : s.clipped = false) {id count : Nat}
    {m : FileMapping} (hm : s.registry.get? id = some m) (hsynced : m.Synced) (hcount : m.logicalSize ≤ count)
    (hleases : m.Leasable none) : ∃ t, readAt id 0 count {s with memory := fun _ => true} = .ok (fsRead room m) t := by
  have hbacked := history_backed events (over_backed policy files n memory) hrun id m hm
  rw [hclipped] at hbacked
  have hsees : Sees m.backing id none {s with memory := fun _ => true} :=
    ⟨rfl, m, hm, rfl, hsynced.size.symm, fun k p hp => hbacked.clean rfl k p hp nofun (hsynced.clean k p hp), hleases⟩
  have hrd := readAt_sees (hsynced.size.le.trans hcount) _ hsees
  cases hread : readAt id 0 count {s with memory := fun _ => true} with
  | error stop t =>
    rw [hread] at hrd
    exact hrd.elim
  | ok bytes t =>
    rw [hread] at hrd
    exact ⟨t, by rw [fsRead_eq, hrd]⟩

/-- A byte written to an empty file. -/
def unsynced : List Event := [.op (.write 0 0 (.fill 1 7))]

/-- The same, with the page mapped shared and stored to, and then synced. -/
def synced : List Event :=
  [.op (.write 0 0 (.fill 1 7)), .fault 0 0, .store 0 0 ⟨0, by decide⟩ 8, .unmap 0 0, .op (.sync 0 0 1)]

/-- What a history leaves of a file. -/
def after (file : Bytes Byte) (events : List Event) : Option (CacheManager × FileMapping) :=
  (history (.over onePage (fun _ => file) 1 fun _ => true) events).bind fun s => (s.registry.get? 0).map fun m => (s, m)

/-- The bytes of a read, if it returned. -/
def returned : EStateM.Result Stop CacheManager (Bytes Byte) → Option (List Byte)
  | .ok bytes _ => some ((List.range bytes.size).map bytes.get)
  | .error _ _ => none

/-- A page, which is written back, and is not near its last lease. -/
def isSynced (m : FileMapping) : Bool :=
  m.backing.size == m.logicalSize && m.logicalSize == 4096 &&
    m.pages.entries.all fun e => !e.2.state.isDirty && decide (e.2.state.leases + 1 < 2 ^ 32)

theorem synced_of_isSynced {m : FileMapping} (h : isSynced m) : m.Synced ∧ m.logicalSize = 4096 ∧ m.Leasable none := by
  simp only [isSynced, Bool.and_eq_true, beq_iff_eq, decide_eq_true_eq, List.all_eq_true, Bool.not_eq_true'] at h
  refine ⟨⟨h.1.1, fun k p hp => ?_⟩, h.1.2, fun k p hp => ?_⟩
  · exact (h.2 (k, p) (SortedMap.get?_eq_some.mp hp)).1
  · simpa using (h.2 (k, p) (SortedMap.get?_eq_some.mp hp)).2

theorem loaded_eq_read_synced : ∃ s m, after (.fill 4096 1) synced = some (s, m) ∧ s.clipped = false ∧ m.Synced ∧
    ∃ t, readAt 0 0 4096 {s with memory := fun _ => true} = .ok (fsRead (fun _ => 31) m) t := by
  have hfile : (after (.fill 4096 1) synced).any fun r => !r.1.clipped && isSynced r.2 := by decide +kernel
  obtain ⟨⟨s, m⟩, hafter, hfine⟩ := (Option.any_eq_true _ _).mp hfile
  obtain ⟨hclipped, hsynced⟩ := Bool.and_eq_true_iff.mp hfine
  obtain ⟨hsynced, hz, hleases⟩ := synced_of_isSynced hsynced
  obtain ⟨s, hrun, hsm⟩ := Option.bind_eq_some_iff.mp hafter
  obtain ⟨m, hm, heq⟩ := Option.map_eq_some_iff.mp hsm
  cases heq
  have hclipped : s.clipped = false := (Bool.not_eq_true' _).mp hclipped
  exact ⟨s, m, hafter, hclipped, hsynced,
    loaded_eq_read onePage _ 1 _ synced (fun _ => 31) hrun hclipped hm hsynced hz.le hleases⟩

/-- The file is read as one byte, and loaded as none. -/
theorem unsynced_write_not_loaded :
    (after .empty unsynced).map (fun r => (returned (readAt 0 0 1 r.1), (fsRead (fun _ => 31) r.2).size)) = some (some [7], 0) := by
  decide +kernel

end StarryX.Cache.Manager
