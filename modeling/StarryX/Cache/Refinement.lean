import StarryX.Cache.Transfer

/-! The page cache refines one byte array per file.

`Arrays` is the specification: a plain array per mapping, on which a write stores what it
reported, a truncation cuts or extends and a read returns what is there. `Replays` runs the
specification along a trace of the cache and compares every answer. A short write or a
failure is an answer only if an allocation failed, or if the write does not fit a file.

`cache_refines_array` says that every run replays in which no writeback cut off bytes of its
page. `write_loses_reported_bytes` is a run where one does: the dirty throttle in the middle
of a write that extends the file writes its first page back against the old size. -/
namespace StarryX.Cache.Manager
open Library Function

/-! ### The specification -/

/-- The files without a cache, and which of them are still held. -/
structure Arrays where
  file : Nat → Bytes Byte
  held : Nat → Bool

namespace Arrays

def set (a : Arrays) (id : Nat) (file : Bytes Byte) : Arrays := {a with file := update a.file id file}

def release (a : Arrays) (id : Nat) : Arrays := {a with held := update a.held id false}

/-- The arrays after an operation that had this outcome. -/
def after (a : Arrays) : Op → Outcome → Arrays
  | .write id offset source, .wrote n => a.set id ((a.file id).writeAt offset n source.get)
  | .append id source, .appended n _ => a.set id ((a.file id).writeAt (a.file id).size n source.get)
  | .resize id newLen, .done => a.set id ((a.file id).setLen newLen)
  | .release id, _ => a.release id
  | _, _ => a

/-- The outcomes an operation on the arrays may have, given that memory is short or not. -/
def Answers (a : Arrays) (starved : Prop) : Op → Outcome → Prop
  | .write _ _ source, .wrote n => n ≤ source.size ∧ (n = source.size ∨ starved)
  | .write _ offset source, .failed code => starved ∨ code = .efbig ∧ 2 ^ 64 ≤ offset + source.size
  | .append id source, .appended n stop =>
    n ≤ source.size ∧ (n = source.size ∨ starved) ∧ stop = (a.file id).size + n
  | .append id source, .failed code => starved ∨ code = .efbig ∧ 2 ^ 64 ≤ (a.file id).size + source.size
  | .read id offset count, .bytes bytes => bytes = (a.file id).readAt offset count
  | .resize _ _, .done => True
  | .sync _ _ _, .done => True
  | .writeback _, .done => True
  | .reclaim _, .done => True
  | .prune, .done => True
  | .release _, .done => True
  | _, .failed _ => starved
  | _, _ => False

/-- A trace is one that the arrays could have given. -/
def Replays (starved : Prop) : Arrays → List (Op × Outcome) → Prop
  | _, [] => True
  | a, (op, outcome) :: rest => a.Answers starved op outcome ∧ Replays starved (a.after op outcome) rest

end Arrays

/-- The mapping an operation needs. -/
def Op.mapping? : Op → Option Nat
  | .write id _ _ | .append id _ | .read id _ _ | .resize id _ | .sync id _ _ | .release id => some id
  | .writeback _ | .reclaim _ | .prune => none

/-- Who is held after an operation. -/
def Op.holders (held : Nat → Bool) : Op → Nat → Bool
  | .release id => update held id false
  | _ => held

/-- Operations use mappings only while they are held. -/
def legal : (Nat → Bool) → List Op → Bool
  | _, [] => true
  | held, op :: rest => op.mapping?.all held && legal (op.holders held) rest

/-! ### Operations that change a file -/

/-- The world at rest over the arrays. -/
def Arrays.world (a : Arrays) (memory : Nat → Bool) (known : Prop) : World where
  owned := a.held
  contents := fun id => (a.file id).get
  sizes := fun id => (a.file id).size
  memory := memory
  known := known
  target := none
  missing := false
  stale := false
  held := 0

variable {a : Arrays} {mem : Nat → Bool} {kn : Prop} {s : CacheManager}

theorem Arrays.set_file (a : Arrays) (id : Nat) (file : Bytes Byte) : (a.set id file).file id = file := by
  simp [Arrays.set]

variable {id : Nat}

theorem Arrays.set_file_other (a : Arrays) {id' : Nat} (hne : id' ≠ id) (file : Bytes Byte) :
    (a.set id file).file id' = a.file id' := by
  simp [Arrays.set, hne]

variable {m : FileMapping}

/-- A world at rest says of a mapping that it mirrors its file. -/
theorem MapOk.rest {clipped : Bool} (hid : ∀ k p, m.pages.get? k = some p → Idle 0 p.state)
    (hmi : clipped = false → Mirrors (a.world mem kn) id m) :
    MapOk (a.world mem kn) clipped id m :=
  ⟨hid, fun _ htgt => absurd htgt nofun, hmi⟩

variable {E : Stop → CacheManager → Prop}

/-- The file gets the size that covers what was written. -/
theorem grow_spec (id off n : Nat) (src : Bytes Byte) :
    Triple (Inv ((a.world mem kn).wrote id off n src))
      (modifyMapping id fun m => {m with logicalSize := max m.logicalSize (off + n)})
      (fun _ => Inv ((a.set id ((a.file id).writeAt off n src.get)).world mem kn)) E := by
  refine .modify fun s h => h.modify rfl rfl (fun hk => hk) (fun id' m hne hok => ?_) fun m hm hok => ?_
  · refine hok.congr ?_ ?_ (fun _ => rfl) nofun fun k hk => nomatch hk
    · simp [Arrays.world, World.wrote, World.store, Arrays.set_file_other a hne, hne]
    · simp [Arrays.world, World.wrote, World.store, Arrays.set_file_other a hne]
  · refine ⟨.rest hok.idle fun hc => ?_, rfl⟩
    have hmi := hok.mirrors hc
    have hco : ((a.world mem kn).wrote id off n src).contents id =
        ((a.set id ((a.file id).writeAt off n src.get)).world mem kn).contents id := by
      simp [Arrays.world, World.wrote, World.store, Arrays.set_file, Bytes.writeAt]
    refine ⟨?_, hmi.backing.trans (Nat.le_max_left _ _), ?_, ?_, ?_⟩
    · show max m.logicalSize (off + n) = ((a.set id _).file id).size
      rw [hmi.size, Arrays.set_file]
      rfl
    · exact hco ▸ hmi.frames
    · exact hco ▸ hmi.clean
    · exact hco ▸ hmi.absent

/-- A failure, for want of memory or because the write does not fit a file. -/
def Refuses (w : World) (tooBig : Prop) : Stop → CacheManager → Prop
  | .panic, s => Worn s ∧ (s.clipped = false → w.known)
  | .error code, s => Inv w s ∧ (Starved w ∨ code = .efbig ∧ tooBig)

variable {w : World}

theorem Fails.refuses {tooBig : Prop} {e : Stop} (h : Fails w e s) : Refuses w tooBig e s := by
  cases e with
  | panic => exact h
  | error code => exact ⟨h.1, .inl h.2⟩

theorem writeAtInner_spec (ho : a.held id) (src : Bytes Byte) (off : Nat) :
    Triple (Inv (a.world mem kn)) (writeAtInner id src off)
      (fun n s => Inv ((a.set id ((a.file id).writeAt off n src.get)).world mem kn) s ∧
        n ≤ src.size ∧ (n = src.size ∨ Starved (a.world mem kn)))
      (Refuses (a.world mem kn) (2 ^ 64 ≤ off + src.size)) := by
  unfold writeAtInner
  split
  · refine .fail ?_ fun _ _ => Fails.refuses
    have hlo := writeLoop_spec (w := a.world mem kn) rfl rfl ho src src.size
      ⟨off, src.size, 0⟩ (Nat.zero_le _) le_rfl
    refine .bind (hlo.pre (fun s h => ?_)) fun n => ?_
    · rw [World.wrote_zero]
      exact h
    · intro s h
      exact ⟨grow_spec (E := Fails (a.world mem kn)) id off n src s h.1, h.2⟩
  next hbig =>
    exact .throw fun s h => ⟨h, .inr ⟨rfl, not_lt.mp hbig⟩⟩

variable {file : Bytes Byte} (p : CachedPage)

/-- Once something was cut off, nothing is claimed of the bytes. -/
theorem Inv.replace {file' : Bytes Byte} {known' : Prop} (h : Inv ((a.set id file).world mem kn) s)
    (hfi : s.clipped = false → file = file') (hkn : s.clipped = false → known') :
    Inv ((a.set id file').world mem known') s := by
  refine ⟨h.memory, h.owned, fun id' m hm => ?_, hkn⟩
  have hok := h.mappings id' m hm
  refine .rest hok.idle fun hc => ?_
  rw [← hfi hc]
  have hmi := hok.mirrors hc
  exact {hmi with}

open Bytes (empty ext get setLen_get)

/-- One mapping changes along with its file. -/
theorem Inv.set {f : FileMapping → FileMapping} (h : Inv (a.world mem kn) s)
    (hf : ∀ m, s.registry.get? id = some m → MapOk (a.world mem kn) s.clipped id m →
      MapOk ((a.set id file).world mem kn) s.clipped id (f m) ∧ (f m).owned = m.owned) :
    Inv ((a.set id file).world mem kn) {s with registry := s.registry.modify id f} := by
  refine h.modify rfl rfl (fun hk => hk) (fun id' m hne hok => ?_) hf
  have hfi := Arrays.set_file_other a hne file
  refine hok.congr ?_ ?_ (fun _ => rfl) (fun _ hfr => hfr) fun k hk => nomatch hk
  · exact congrArg get hfi
  · exact congrArg Bytes.size hfi

/-! ### Reading -/

theorem readAt_of_fetched {off count total : Nat} {bs : Nat → Byte}
    (hto : total = min count (file.size - off)) (h : Fetched file.get off total bs) :
    empty.writeAt 0 total bs = file.readAt off count := by
  refine ext ?_ fun i => ?_
  · show max 0 (0 + total) = min count (file.size - off)
    omega
  · show overlay (fun _ => 0) 0 total bs i = if i < min count (file.size - off) then _ else _
    rw [← hto]
    by_cases hi : i < total
    · rw [if_pos hi, overlay_inside (by omega)]
      exact h i hi
    · rw [if_neg hi, overlay_outside (by omega)]

theorem readAt_empty {off count : Nat} (h : count = 0 ∨ file.size ≤ off) :
    empty = file.readAt off count := by
  refine ext ?_ fun i => ?_
  · show 0 = min count (file.size - off)
    omega
  · show 0 = if i < min count (file.size - off) then file.get (off + i) else 0
    rw [if_neg (by omega)]

theorem readAt_spec (ho : a.held id) (off count : Nat) :
    Triple (Inv (a.world mem kn)) (readAt id off count)
      (fun r => Inv (a.world mem (kn ∧ r = (a.file id).readAt off count)))
      (Fails (a.world mem kn)) := by
  refine (getMapping_spec ho).bind fun m => ?_
  have hz : ∀ s, Inv (a.world mem kn) s ∧ s.registry.get? id = some m →
      Inv ((a.world mem kn).learn (m.logicalSize = (a.file id).size)) s :=
    fun s h => h.1.learn fun hc => ((h.1.mappings id m h.2).mirrors hc).size
  refine .pre ?_ hz
  split_ifs with hem
  · refine .pure fun s h => h.unlearn.learn fun hc => readAt_empty ?_
    rw [← (h.known hc).2]
    exact hem
  · refine .bind (.pre (.fail (readLoop_spec
      (w := (a.world mem kn).learn (m.logicalSize = (a.file id).size)) rfl ho _ _ _ (Nat.zero_le _)
      le_rfl) fun _ _ => .unlearn) (fun s h => ?_)) fun bs => ?_
    · exact h.learn fun _ i hi => absurd hi (Nat.not_lt_zero i)
    · refine .pure fun s h => h.unlearn.unlearn.learn fun hc => readAt_of_fetched ?_ (h.known hc).2
      rw [(h.known hc).1.2]

/-! ### Truncation and sync -/

/-- The pages a shrinking file keeps, with the tail of the last one zeroed. -/
theorem commitShrink_get (m : FileMapping) (n k : Nat) : (m.commitShrink n).pages.get? k =
      if k * pageSize < n then
        (m.pages.get? k).map fun p => if k = pageIndex n then p.zeroTail n else p
      else none := by
  refine (SortedMap.get?_filter _ _ k).trans ?_
  rw [SortedMap.get?_modify]
  cases m.pages.get? k with
  | none => simp
  | some p =>
    by_cases hin : k * pageSize < n
    · rw [if_pos hin]
      by_cases hk : k = pageIndex n
      · rw [if_pos hk, Option.map_some, Option.map_some, if_pos hk]
        exact Option.filter_some_pos (decide_eq_true hin)
      · rw [if_neg hk, Option.map_some, if_neg hk]
        exact Option.filter_some_pos (decide_eq_true hin)
    · simp [hin]

theorem zeroTail_state (n : Nat) : (p.zeroTail n).state = p.state := by
  simp only [CachedPage.zeroTail]
  split <;> rfl

theorem zeroTail_frame (n : Nat) (hta : pageOffset n ≠ 0) (b : Fin pageSize) :
    (p.zeroTail n).frame b = if b < pageOffset n then p.frame b else 0 := by
  simp only [CachedPage.zeroTail, if_neg hta, Frame.writeBytes]
  by_cases hlo : b < pageOffset n
  · rw [if_pos hlo, if_neg fun h => Nat.not_lt.mpr h.1 hlo]
  · have hend : b.val < pageOffset n + (pageSize - pageOffset n) := by omega
    rw [if_neg hlo, if_pos ⟨not_lt.mp hlo, hend⟩]

variable {k n : Nat} {op : Op}

/-- A page that a shrinking file keeps holds what the shorter file has there. -/
theorem commitShrink_page {p' : CachedPage} (h : (m.commitShrink n).pages.get? k = some p') :
    ∃ p, m.pages.get? k = some p ∧ p'.state = p.state ∧
      ∀ b : Fin pageSize, p'.frame b = if k * pageSize + b < n then p.frame b else 0 := by
  rw [commitShrink_get] at h
  split at h
  next hin =>
    obtain ⟨p, hp, rfl⟩ := Option.map_eq_some_iff.mp h
    by_cases hk : k = pageIndex n
    · subst hk
      have hta : 0 < pageOffset n := (page_tail n 0).mp (by rw [Nat.add_zero]; exact hin)
      rw [if_pos rfl]
      refine ⟨p, hp, zeroTail_state p n, fun b => ?_⟩
      rw [zeroTail_frame p n hta.ne']
      exact if_congr (page_tail n b).symm rfl rfl
    · rw [if_neg hk]
      exact ⟨p, hp, rfl, fun b => (if_pos (page_below hin hk b)).symm⟩
  · cases h

theorem commitShrink_gone (h : (m.commitShrink n).pages.get? k = none) :
    n ≤ k * pageSize ∨ m.pages.get? k = none := by
  rw [commitShrink_get] at h
  split at h
  · exact .inr (Option.map_eq_none_iff.mp h)
  next hout =>
    exact .inl (not_lt.mp hout)

/-- Cutting two strings at one length keeps the pages on which they agree. -/
theorem window_setLen {f g : Bytes Byte} (h : window f.get k = window g.get k) (n : Nat) :
    window (f.setLen n).get k = window (g.setLen n).get k := by
  refine window_eq_iff.mpr fun b => ?_
  show (if _ then _ else _) = if _ then _ else _
  rw [window_eq_iff.mp h b]

theorem Mirrors.of_pages {m' : FileMapping} (h : Mirrors w id m) (hz : m'.logicalSize = m.logicalSize)
    (hbk : m'.backing = m.backing) (hpgs : m'.pages = m.pages) : Mirrors w id m' := by
  refine ⟨hz.trans h.size, ?_, hpgs ▸ h.frames, ?_, ?_⟩
  · rw [hbk, hz]
    exact h.backing
  · rw [hbk, hpgs]
    exact h.clean
  · rw [hbk, hpgs]
    exact h.absent

theorem Mirrors.shrink (h : Mirrors (a.world mem kn) id m) :
    Mirrors ((a.set id ((a.file id).setLen n)).world mem kn) id
      {m.commitShrink n with backing := m.backing.setLen n, logicalSize := n} := by
  have hco : ((a.set id ((a.file id).setLen n)).world mem kn).contents id =
      ((a.file id).setLen n).get := congrArg get (Arrays.set_file a id _)
  have hfr : ∀ k, (a.world mem kn).Fresh id k := nofun
  refine ⟨?_, le_rfl, fun k p' hp' _ => ?_, fun k p' hp' _ hd => ?_, fun k hk => ?_⟩
  · exact (congrArg Bytes.size (Arrays.set_file a id ((a.file id).setLen n))).symm
  · obtain ⟨p, hp, -, hfe⟩ := commitShrink_page hp'
    rw [hco]
    funext b
    rw [hfe, h.frames k p hp (hfr k)]
    rfl
  · obtain ⟨p, hp, hs, -⟩ := commitShrink_page hp'
    rw [hco]
    exact window_setLen (h.clean k p hp (hfr k) (hs ▸ hd)) n
  · rw [hco]
    obtain hpa | hold := commitShrink_gone hk
    · refine window_eq_iff.mpr fun b => ?_
      have hpa : ¬k * pageSize + b < n := Nat.not_lt.mpr (hpa.trans (Nat.le_add_right _ _))
      show (if _ then _ else _) = if _ then _ else _
      rw [if_neg hpa, if_neg hpa]
    · exact window_setLen (h.absent k hold) n

theorem Mirrors.extend (h : Mirrors (a.world mem kn) id m) (hle : m.logicalSize ≤ n) :
    Mirrors ((a.set id ((a.file id).setLen n)).world mem kn) id
      {m with backing := m.backing.setLen n, logicalSize := n} := by
  have hz : (a.file id).size ≤ n := (Nat.le_of_eq h.size.symm).trans hle
  have hco : ((a.set id ((a.file id).setLen n)).world mem kn).contents id = (a.file id).get := by
    show ((a.set id ((a.file id).setLen n)).file id).get = _
    rw [Arrays.set_file]
    exact funext (setLen_get hz)
  have hbk : (m.backing.setLen n).get = m.backing.get :=
    funext (setLen_get (h.backing.trans hle))
  refine ⟨?_, le_rfl, fun k p hp hf => ?_, fun k p hp hf hd => ?_, fun k hk => ?_⟩
  · exact (congrArg Bytes.size (Arrays.set_file a id ((a.file id).setLen n))).symm
  · rw [hco]
    exact h.frames k p hp hf
  · rw [hco, hbk]
    exact h.clean k p hp hf hd
  · rw [hco, hbk]
    exact h.absent k hk

theorem resize_spec (ho : a.held id) (n : Nat) : Triple (Inv (a.world mem kn)) (resize id n)
      (fun _ => Inv ((a.set id ((a.file id).setLen n)).world mem kn))
      (Fails (a.world mem kn)) := by
  refine (getMapping_spec ho).bind fun m => ?_
  refine .bind ((writesBack_inv rfl).reserve.pre (fun _ h => h.1)) fun _ => ?_
  refine .bind (Q := fun _ => Inv ((a.set id ((a.file id).setLen n)).world mem kn))
    (.modify fun s h => ?_) fun _ => ?_
  · refine h.set fun m hm hok => ⟨.rest (fun k p' hp' => ?_) fun hc => ?_, ?_⟩
    · by_cases hshrink : n < m.logicalSize
      · simp only [hshrink] at hp'
        obtain ⟨p, hp, hs, -⟩ := commitShrink_page hp'
        exact hs ▸ hok.idle k p hp
      · simp only [hshrink] at hp'
        exact hok.idle k p' hp'
    · by_cases hshrink : n < m.logicalSize
      · simp only [hshrink]
        exact (hok.mirrors hc).shrink.of_pages rfl rfl rfl
      · simp only [hshrink]
        exact ((hok.mirrors hc).extend (not_lt.mp hshrink)).of_pages rfl rfl rfl
    · show (if n < m.logicalSize then _ else _ : FileMapping).owned = m.owned
      split <;> rfl
  · exact .modify fun _ h => h.of_eq rfl

theorem keeps_syncRange (hw : w.stale = false) (ho : w.owned id) (start stop : Nat) :
    Triple (Inv w) (syncRange id start stop) (fun _ => Inv w) (Fails w) := by
  refine (getMapping_spec ho).bind fun m => ?_
  have hbg := writesBack_inv hw
  refine .bind ((hbg.residentPages m start stop).pre (fun _ h => h.1)) fun pages => ?_
  refine hbg.reserve.bind fun _ => (hbg.syncLoop id pages).bind fun _ => .modify fun s h => ?_
  refine h.modify_same fun m _ hok => ⟨⟨hok.idle, hok.missing, fun hc => ?_⟩, rfl⟩
  have hmi := hok.mirrors hc
  have hbk : (m.backing.setLen m.logicalSize).get = m.backing.get :=
    funext (setLen_get hmi.backing)
  refine ⟨hmi.size, le_rfl, hmi.frames, fun k p hp hf hd => ?_, fun k hk => ?_⟩
  · rw [hbk]
    exact hmi.clean k p hp hf hd
  · rw [hbk]
    exact hmi.absent k hk

/-- A mapping that is let go is nobody's any more. -/
theorem release_spec (id : Nat) (hE : ∀ e s, Fails ((a.release id).world mem kn) e s → E e s) :
    Triple (Inv (a.world mem kn)) (release id) (fun _ => Inv ((a.release id).world mem kn)) E := by
  refine .fail ?_ hE
  refine .bind (.modify fun s h => ?_) fun _ => (writesBack_inv rfl).pruneMapping id
  refine ⟨h.memory, fun id' hid' => ?_, fun id' m' hm' => ?_, h.known⟩
  · have hid' : update a.held id false id' := hid'
    have hne : id' ≠ id := by
      intro heq
      simp [heq] at hid'
    rw [update_of_ne hne] at hid'
    obtain ⟨m, hm, ho⟩ := h.owned id' hid'
    refine ⟨m, ?_, ho⟩
    rw [SortedMap.get?_modify, if_neg hne, hm]
  · have hsm : ∀ m, MapOk (a.world mem kn) s.clipped id' m →
        MapOk ((a.release id).world mem kn) s.clipped id' m :=
      fun m hok => hok.congr rfl rfl (fun _ => rfl) (fun _ hf => hf) fun _ hk => absurd hk nofun
    have hfd := (SortedMap.get?_modify s.registry id _ id').symm.trans hm'
    split at hfd
    · obtain ⟨m, hm, rfl⟩ := Option.map_eq_some_iff.mp hfd
      have hok := hsm m (h.mappings id' m hm)
      exact ⟨hok.idle, hok.missing, fun hc => (hok.mirrors hc).of_pages rfl rfl rfl⟩
    · exact hsm m' (h.mappings id' m' hfd)

/-! ### Runs -/

/-- What an operation leaves: the arrays have followed it, and the answer was one of theirs. -/
def Performed (a : Arrays) (memory : Nat → Bool) (known : Prop) (op : Op) (outcome : Outcome)
    (s : CacheManager) : Prop :=
  Inv ((a.after op outcome).world memory (known ∧ a.Answers (∃ n, memory n = false) op outcome)) s

def Stopped (a : Arrays) (memory : Nat → Bool) (known : Prop) (op : Op) : Stop → CacheManager → Prop
  | .panic, s => Worn s ∧ (s.clipped = false → known)
  | .error code, s => Performed a memory known op (.failed code) s

/-- Operations that change no file. -/
theorem keeps_performed {α : Type} {x : Prog α}
    (hx : Triple (Inv (a.world mem kn)) x (fun _ => Inv (a.world mem kn)) (Fails (a.world mem kn)))
    (haf : ∀ out, a.after op out = a)
    (hdo : a.Answers (∃ n, mem n = false) op .done)
    (hfa : ∀ code, (∃ n, mem n = false) → a.Answers (∃ n, mem n = false) op (.failed code)) :
    Triple (Inv (a.world mem kn)) ((fun _ => .done) <$> x) (Performed a mem kn op)
      (Stopped a mem kn op) := by
  refine .map (.fail hx fun e s h => ?_) fun _ s h => ?_
  · cases e with
    | panic => exact h
    | error code =>
      show Inv ((a.after op (.failed code)).world mem _) s
      rw [haf]
      exact h.1.learn fun _ => hfa code h.2
  · show Inv ((a.after op .done).world mem _) s
    rw [haf]
    exact h.learn fun _ => hdo

theorem append_spec (ho : a.held id) (src : Bytes Byte) :
    Triple (Inv (a.world mem kn)) (Op.append id src).perform
      (Performed a mem kn (.append id src)) (Stopped a mem kn (.append id src)) := by
  refine .map ?_ fun _ _ h => h
  refine (getMapping_spec ho).bind fun m => ?_
  let q := m.logicalSize = (a.file id).size
  have hwr : Triple (Inv (a.world mem (kn ∧ q))) (writeAtInner id src m.logicalSize) _ _ :=
    writeAtInner_spec ho src m.logicalSize
  refine .bind (.pre (.fail hwr fun e s h => ?_) (fun s h => ?_)) fun n => .pure fun s h => ?_
  · cases e with
    | panic => exact ⟨h.1, fun hc => (h.2 hc).1⟩
    | error code =>
      refine (Inv.unlearn (w := a.world mem kn) h.1).learn fun hc => ?_
      have hz : m.logicalSize = (a.file id).size := (h.1.known hc).2
      rw [hz] at h
      exact h.2
  · exact h.1.learn fun hc => ((h.1.mappings id m h.2).mirrors hc).size
  · have hz : s.clipped = false → m.logicalSize = (a.file id).size := fun hc => (h.1.known hc).2
    refine h.1.replace (fun hc => by rw [hz hc]) fun hc => ⟨(h.1.known hc).1, h.2.1, h.2.2, ?_⟩
    rw [hz hc]

/-- **One operation of the cache is one step of the arrays.** -/
theorem perform_spec (hh : op.mapping?.all a.held) :
    Triple (Inv (a.world mem kn)) op.perform (Performed a mem kn op) (Stopped a mem kn op) := by
  cases op with
  | write id off src =>
    refine .map (.fail (writeAtInner_spec hh src off) fun e s h => ?_) fun n s h => ?_
    · cases e with
      | panic => exact h
      | error code => exact h.1.learn fun _ => h.2
    · exact h.1.learn fun _ => h.2
  | append id src => exact append_spec hh src
  | read id off count =>
    refine .map (.fail (readAt_spec hh off count) fun e s h => ?_) fun bs s h => h
    cases e with
    | panic => exact h
    | error code => exact h.1.learn fun _ => h.2
  | resize id newLen =>
    refine .map (.fail (resize_spec hh newLen) fun e s h => ?_) fun _ s h => ?_
    · cases e with
      | panic => exact h
      | error code => exact h.1.learn fun _ => h.2
    · exact h.learn fun _ => trivial
  | sync id start stop =>
    exact keeps_performed (keeps_syncRange rfl hh start stop) (fun _ => rfl) trivial fun _ h => h
  | writeback cap =>
    exact keeps_performed ((writesBack_inv rfl).writebackInner cap false) (fun _ => rfl) trivial fun _ h => h
  | reclaim targetPages =>
    exact keeps_performed ((writesBack_inv rfl).reclaimClean targetPages) (fun _ => rfl) trivial fun _ h => h
  | prune => exact keeps_performed (writesBack_inv rfl).pruneIdleMappings (fun _ => rfl) trivial fun _ h => h
  | release id =>
    refine .map (release_spec id fun e s h => ?_) fun _ s h => ?_
    · cases e with
      | panic => exact h
      | error code => exact h.1.learn fun _ => h.2
    · exact h.learn fun _ => trivial

/-- What a run leaves, from arrays that the manager mirrors. -/
theorem run_spec (ops : List Op) : ∀ a kn s, legal a.held ops → Inv (a.world mem kn) s →
    ((run s ops).state.clipped = false →
      kn ∧ Arrays.Replays (∃ n, mem n = false) a (run s ops).trace) ∧
    ((run s ops).panicked → Worn (run s ops).state) := by
  induction ops with
  | nil =>
    intro a kn s _ h
    exact ⟨fun hc => ⟨h.known hc, trivial⟩, nofun⟩
  | cons op rest ih =>
    intro a kn s hle h
    simp only [legal, Bool.and_eq_true] at hle
    have hst := perform_spec hle.1 s h
    have hne : ∀ out t, Performed a mem kn op out t →
        (((run t rest).after (op, out)).state.clipped = false →
          kn ∧ Arrays.Replays (∃ n, mem n = false) a ((run t rest).after (op, out)).trace) ∧
        (((run t rest).after (op, out)).panicked → Worn ((run t rest).after (op, out)).state) := by
      intro out t ht
      have hrs := ih (a.after op out) _ t (by cases op <;> cases out <;> exact hle.2) ht
      refine ⟨fun hc => ?_, hrs.2⟩
      obtain ⟨⟨hkn, hans⟩, hre⟩ := hrs.1 hc
      exact ⟨hkn, hans, hre⟩
    unfold run
    cases hrun : op.perform s with
    | ok out t =>
      rw [hrun] at hst
      exact hne out t hst
    | error stop t =>
      rw [hrun] at hst
      cases stop with
      | error code => exact hne (.failed code) t hst
      | panic => exact ⟨fun hc => ⟨hst.2 hc, trivial⟩, fun _ => hst.1⟩

/-! ### A manager over files -/

/-- A mapping just made for a backing. -/
def FileMapping.over (file : Bytes Byte) : FileMapping where
  owned := true
  backing := file
  logicalSize := file.size
  pages := .empty
  dirtyPages := 0
  writebackCursor := 0

/-- The first `n` files, each with a mapping that is held. -/
def registryOver (files : Nat → Bytes Byte) : Nat → SortedMap FileMapping
  | 0 => .empty
  | n + 1 => (registryOver files n).insert n (.over (files n))

def CacheManager.over (policy : CachePolicy) (files : Nat → Bytes Byte) (n : Nat) (memory : Nat → Bool) :
    CacheManager where
  policy := policy
  registry := registryOver files n
  candidates := []
  writebackResume := 0
  residentPages := 0
  dirtyPages := 0
  nextPage := 0
  memory := memory
  asked := 0
  clipped := false

/-- The same files as arrays. -/
def Arrays.over (files : Nat → Bytes Byte) (n : Nat) : Arrays := ⟨files, fun id => decide (id < n)⟩

theorem registryOver_get (files : Nat → Bytes Byte) (n id : Nat) :
    (registryOver files n).get? id = if id < n then some (.over (files id)) else none := by
  induction n with
  | zero => rfl
  | succ n ih =>
    unfold registryOver
    rw [SortedMap.get?_insert, ih]
    by_cases hid : id = n
    · subst hid
      simp
    · rw [if_neg hid]
      exact if_congr (by omega) rfl rfl

theorem over_inv (policy : CachePolicy) (files : Nat → Bytes Byte) (n : Nat) (mem : Nat → Bool) :
    Inv ((Arrays.over files n).world mem True) (.over policy files n mem) := by
  refine ⟨rfl, fun id hid => ?_, fun id m hm => ?_, fun _ => trivial⟩
  · have hlt : id < n := of_decide_eq_true hid
    exact ⟨.over (files id), (registryOver_get files n id).trans (if_pos hlt), rfl⟩
  · have hfd := (registryOver_get files n id).symm.trans hm
    split at hfd
    · cases hfd
      exact .rest (fun k p hp => nomatch hp) fun _ =>
        ⟨rfl, le_rfl, fun _ _ hp => (nomatch hp), fun _ _ hp => (nomatch hp), fun _ _ => rfl⟩
    · cases hfd

/-- **The cache refines the arrays.** Whatever the policy, the operations and the allocations
that fail: if no writeback of the run cut off bytes of its page that were not zero, every
answer of the run is one the plain arrays give, and only a dirty sequence that has used up its
64 bits ends a run early. -/
theorem cache_refines_array (policy : CachePolicy) (files : Nat → Bytes Byte) (n : Nat) (memory : Nat → Bool)
    (ops : List Op) (hlegal : legal (Arrays.over files n).held ops = true)
    (hclipped : (run (.over policy files n memory) ops).state.clipped = false) :
    Arrays.Replays (∃ k, memory k = false) (.over files n) (run (.over policy files n memory) ops).trace ∧
      ((run (.over policy files n memory) ops).panicked = true →
        Worn (run (.over policy files n memory) ops).state) := by
  have hrun := run_spec ops (.over files n) True (.over policy files n memory) hlegal
    (over_inv policy files n memory)
  exact ⟨(hrun.1 hclipped).2, hrun.2⟩

/-! ### The write that loses bytes -/

/-- A policy that lets one page be dirty. -/
def onePage : CachePolicy := ⟨0, 0, 1, 1, 1⟩

/-- A byte inside a file of one page is overwritten, written back, dropped and read again. -/
def rewriting : List Op := [.write 0 0 (.fill 1 7), .writeback 1, .reclaim 1, .read 0 0 1]

theorem cache_refines_array_rewrite :
    legal (Arrays.over (fun _ => .fill 4096 1) 1).held rewriting = true ∧
      (run (.over onePage (fun _ => .fill 4096 1) 1 fun _ => true) rewriting).state.clipped = false ∧
      Arrays.Replays (∃ k : Nat, (fun _ => true) k = false) (.over (fun _ => .fill 4096 1) 1)
        (run (.over onePage (fun _ => .fill 4096 1) 1 fun _ => true) rewriting).trace :=
  ⟨by decide +kernel, by decide +kernel,
    (cache_refines_array onePage (fun _ => .fill 4096 1) 1 (fun _ => true) rewriting (by decide +kernel)
      (by decide +kernel)).1⟩

/-- The first byte a write reported is not the one that a read finds. -/
def forgets : List (Op × Outcome) → Bool
  | [(.write 0 0 source, .wrote n), (.reclaim _, .done), (.read 0 0 1, .bytes bytes)] =>
    decide (0 < n) && bytes.get 0 != source.get 0
  | _ => false

theorem forgets_not_replays {starved : Prop} {trace : List (Op × Outcome)} (h : forgets trace) :
    ¬Arrays.Replays starved a trace := by
  intro hre
  unfold forgets at h
  split at h
  next src n target bytes =>
    simp only [Bool.and_eq_true, decide_eq_true_eq, bne_iff_ne] at h
    obtain ⟨-, -, hrd, -⟩ := hre
    refine h.2 ?_
    have hin : 0 < min 1 (max (a.file 0).size (0 + n) - 0) := by omega
    rw [hrd]
    exact (if_pos hin).trans (overlay_inside ⟨le_rfl, by omega⟩)
  · cases h

/-- A page and a byte, written to an empty file. -/
def extending : List Op := [.write 0 0 (.fill 4097 7), .reclaim 1, .read 0 0 1]

/-- The write reports all its bytes, but the throttle wrote its first page back while the file
was still empty, so nothing of the page went out before it was called clean. -/
theorem write_loses_reported_bytes :
    onePage.validate = .ok onePage ∧ legal (Arrays.over (fun _ => .empty) 1).held extending = true ∧
      (run (.over onePage (fun _ => .empty) 1 fun _ => true) extending).panicked = false ∧
      ¬Arrays.Replays False (.over (fun _ => .empty) 1)
        (run (.over onePage (fun _ => .empty) 1 fun _ => true) extending).trace :=
  ⟨rfl, by decide +kernel, by decide +kernel, forgets_not_replays (by decide +kernel)⟩

end StarryX.Cache.Manager
