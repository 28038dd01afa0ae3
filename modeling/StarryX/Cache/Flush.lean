import StarryX.Cache.Counters
import Mathlib.Data.List.TakeWhile

/-! Writeback that fails, and whom it fails.

The batches of `writeback_inner` once more, over backings that reject the pages they like and
with failures that tell whose they are. A batch goes through the mappings from
`writeback_resume` on and ends at the first failure. So `shutdown_flush` leaves out what comes
behind a page that is rejected (`shutdownFlush_persists_iff`), and a write that is throttled
returns the failure of whichever file is in the way (`writeAt_isolated_iff`). -/
namespace StarryX.Cache.Flush
open Library
open Accounting (CacheManager FileMapping CachedPage Ending Prog collectDirty)
open List (append_assoc append_nil)

/-! ### The batches -/

/-- What a batch meets: the pages that backings reject, and which allocations succeed. -/
structure Batch where
  rejects : Nat → Nat → Option LinuxError
  mappingList : Bool
  pageList : Nat → Bool
  buffer : Nat → Bool

inductive Failure where
  | writeback (id : Nat) (code : LinuxError)
  | other (ending : Ending)

def outOfMemory : Failure := .other (.stop (.error .enomem))

/-- `written` is a history variable: the pages that their backings took. -/
structure State where
  cache : CacheManager
  batches : Nat → Batch
  written : List (Nat × Nat)

abbrev FlushProg := EStateM Failure State

/-- A part that writes nothing back. -/
def lift {α : Type} (x : Prog α) : FlushProg α := fun s =>
  match x s.cache with
  | .ok a t => .ok a {s with cache := t}
  | .error e t => .error (.other e) {s with cache := t}

section Model
variable (b : Batch)

/-- `write_snapshot`; of a page past the end there is nothing to write. -/
def writeSnapshot (id index : Nat) (m : FileMapping) : FlushProg (Option LinuxError) :=
  if m.logicalSize ≤ index * pageSize then pure none
  else match b.rejects id index with
    | some code => pure (some code)
    | none => do
      modify fun s => {s with written := s.written ++ [(id, index)]}
      pure none

def writebackPage (id index : Nat) (explicit : Bool) : FlushProg Bool := do
  match (← get).cache.registry.get? id with
  | none => pure false
  | some m =>
    match m.pages.get? index with
    | none => pure false
    | some page =>
      match page.state.writebackAction explicit with
      | .skip => pure false
      | .wait => throw outOfMemory
      | .submit =>
        match ← writeSnapshot b id index m with
        | none =>
          lift (Accounting.reportWriteback id index page true)
          pure true
        | some code =>
          lift (Accounting.reportWriteback id index page false)
          throw (.writeback id code)

/-- `dirty_batch`: the pages, and where the next batch resumes. -/
def dirtyBatch (m : FileMapping) (maxPages : Nat) : List Nat × Nat :=
  let (later, earlier) := m.pages.entries.partition fun e => m.writebackCursor ≤ e.1
  collectDirty (min maxPages m.dirtyPages) (later ++ earlier) []

/-- `resident_pages`, of the whole file. -/
def residentPages (m : FileMapping) : List Nat :=
  if m.logicalSize = 0 then []
  else (m.pages.entries.filter fun e => e.1 ≤ pageIndex (m.logicalSize - 1)).map (·.1)

/-- The pages that `writeback_some` goes through. -/
def share (m : FileMapping) (maxPages : Nat) (explicit : Bool) : List Nat :=
  if explicit then residentPages m else (dirtyBatch m maxPages).1

/-- The list of them. -/
def collectPages (id : Nat) (m : FileMapping) (maxPages : Nat) (explicit : Bool) : FlushProg Unit :=
  if explicit then if m.logicalSize = 0 ∨ b.pageList id then pure () else throw outOfMemory
  else if b.pageList id then
    lift (Accounting.modifyMapping id fun m => {m with writebackCursor := (dirtyBatch m maxPages).2})
  else throw outOfMemory

def writebackLoop (id maxPages : Nat) (explicit : Bool) : List Nat → Nat → FlushProg Nat
  | [], written => pure written
  | index :: rest, written =>
    if written = maxPages then pure written
    else do
      let one ← writebackPage b id index explicit
      writebackLoop id maxPages explicit rest (written + one.toNat)

def writebackSome (id maxPages : Nat) (explicit : Bool) : FlushProg Nat := do
  match (← get).cache.registry.get? id with
  | none => pure 0
  | some m =>
    if maxPages = 0 then pure 0
    else if !explicit && m.dirtyPages == 0 then pure 0
    else
      collectPages b id m maxPages explicit
      if b.buffer id then writebackLoop b id maxPages explicit (share m maxPages explicit) 0 else throw outOfMemory

def batchLoop (maxPages : Nat) (explicit : Bool) : List Nat → Nat → FlushProg Nat
  | [], written => pure written
  | id :: rest, written =>
    if written = maxPages then pure written
    else do
      let pages ← writebackSome b id (maxPages - written) explicit
      modify fun s => {s with cache := {s.cache with writebackResume := id}}
      batchLoop maxPages explicit rest (written + pages)

/-- The mappings, from the one after `writeback_resume` on. -/
def rotation (c : CacheManager) : List Nat :=
  let mappings := c.registry.entries.map (·.1)
  let pivot := (mappings.findIdx? fun id => c.writebackResume < id).getD 0
  mappings.drop pivot ++ mappings.take pivot

/-- `writeback_inner`, which takes the next of the batches. -/
def writebackInner (maxPages : Nat) (explicit : Bool) : FlushProg Nat := do
  let s ← get
  set {s with batches := fun n => s.batches (n + 1)}
  if (s.batches 0).mappingList then batchLoop (s.batches 0) maxPages explicit (rotation s.cache) 0 else throw outOfMemory

def throttleDirty : FlushProg Unit := do
  let c := (← get).cache
  if c.dirtyPages < c.policy.dirtyLimit then pure ()
  else
    let _ ← writebackInner c.policy.writebackBatchPages false
    pure ()

def writeChunk (id : Nat) (span : Span) : FlushProg Unit := do
  throttleDirty
  lift do
    let lease ← Accounting.acquirePageInner id span.index span.fullPage
    Accounting.markDirty lease
    Accounting.dropLease lease

/-- An error code, not a panic or a wait. -/
def Failure.isCode : Failure → Bool
  | .writeback _ _ => true
  | .other (.stop (.error _)) => true
  | .other _ => false

def writeLoop (id : Nat) : Nat → Span → FlushProg Nat
  | 0, span => pure span.done
  | fuel + 1, span =>
    if span.done < span.total then do
      match ← attempt (writeChunk id span) with
      | .ok () => writeLoop id fuel span.advance
      | .error failure => if span.done ≠ 0 ∧ failure.isCode then pure span.done else throw failure
    else pure span.done

def writeAt (id offset count : Nat) : FlushProg Nat := do
  if offset + count < 2 ^ 64 then
    let copied ← writeLoop id count ⟨offset, count, 0⟩
    lift (Accounting.modifyMapping id fun m => {m with logicalSize := max m.logicalSize (offset + copied)})
    pure copied
  else throw (.other (.stop (.error .efbig)))

def usizeMax : Nat := 2 ^ 64 - 1

/-- `shutdown_flush`, once no operation is under way. -/
def shutdownFlush : FlushProg Unit := do
  let writeback ← attempt (writebackInner usizeMax true)
  let _ ← lift (Accounting.reclaimClean usizeMax)
  match writeback with
  | .error failure => throw failure
  | .ok _ =>
    let c := (← get).cache
    if c.residentPages ≠ 0 ∨ c.dirtyPages ≠ 0 then throw (.other (.stop (.error .ebusy))) else pure ()

end Model

/-! ### What a batch meets in a mapping -/

section Mapping
variable (b : Batch) (id : Nat) (m : FileMapping) (explicit : Bool)

def submits (index : Nat) : Bool :=
  (m.pages.get? index).any fun page => page.state.writebackAction explicit == .submit

/-- The failure with which the page ends a batch. -/
def fault (index : Nat) : Option Failure := (m.pages.get? index).bind fun page =>
  match page.state.writebackAction explicit with
  | .skip => none
  | .wait => some outOfMemory
  | .submit => if m.logicalSize ≤ index * pageSize then none else (b.rejects id index).map (.writeback id)

/-- It has bytes inside the file, too. -/
def goesOut (index : Nat) : Bool := submits m explicit index && decide (index * pageSize < m.logicalSize)

/-- What goes out of pages that do not end the batch. -/
def output (pages : List Nat) : List (Nat × Nat) := (pages.filter (goesOut m explicit)).map (id, ·)

/-- The allocations for the mapping succeed. -/
def opens : Bool :=
  if explicit then (m.logicalSize == 0 || b.pageList id) && b.buffer id
  else m.dirtyPages == 0 || b.pageList id && b.buffer id

/-- How the mapping ends a batch that comes to it. -/
def ends (maxPages : Nat) : Option Failure :=
  if opens b id m explicit then (share m maxPages explicit).findSome? (fault b id m explicit) else some outOfMemory

/-- The pages up to the first one that ends the batch. -/
def clear (pages : List Nat) : List Nat := pages.takeWhile fun k => (fault b id m explicit k).isNone

end Mapping

variable {α : Type} (ids : List Nat) (x : Prog α)

section Pages
variable {b : Batch} {id k : Nat} {m : FileMapping} {explicit : Bool} {s t u : State} {passed more : List Nat}

theorem lift_spec {x : Prog α} {Q : α → State → Prop} {E : Failure → State → Prop}
    (h : Runs s.cache x (fun a c => Q a {s with cache := c}) fun e c => E (.other e) {s with cache := c}) :
    Runs s (lift x) Q E := by
  rintro t rfl
  unfold lift
  cases hrun : x t.cache with
  | ok a c => exact h.ok rfl hrun
  | error e c => exact h.error rfl hrun

/-- Only this mapping changes, and of its pages only these. -/
def Edits (id : Nat) (pages : List Nat) (c d : CacheManager) : Prop :=
  ∃ f : FileMapping → FileMapping, (∀ m, (f m).logicalSize = m.logicalSize) ∧
    (∀ m j, j ∉ pages → (f m).pages.get? j = m.pages.get? j) ∧
    ∀ j, d.registry.get? j = if j = id then (c.registry.get? j).map f else c.registry.get? j

theorem edits_none (id : Nat) (pages : List Nat) (c : CacheManager) : Edits id pages c c :=
  ⟨fun m => m, fun _ => rfl, fun _ _ _ => rfl, fun j => by simp⟩

theorem edits_modify {f : FileMapping → FileMapping} (c : CacheManager) (hz : ∀ m, (f m).logicalSize = m.logicalSize)
    (hp : ∀ m j, j ∉ more → (f m).pages.get? j = m.pages.get? j) :
    Edits id more c {c with registry := c.registry.modify id f} :=
  ⟨f, hz, hp, SortedMap.get?_modify _ _ _⟩

theorem Edits.trans {c d e : CacheManager} (h : Edits id more c d) (h' : Edits id more d e) : Edits id more c e := by
  obtain ⟨f, hz, hp, hget⟩ := h
  obtain ⟨g, hsi', hpa', hget'⟩ := h'
  refine ⟨g ∘ f, fun m => (hsi' _).trans (hz m), fun m j hj => (hpa' _ j hj).trans (hp m j hj), fun j => ?_⟩
  rw [hget', hget]
  split <;> simp

theorem reportWriteback_edits (page : CachedPage) (succeeded : Bool) (c : CacheManager) :
    Runs c (Accounting.reportWriteback id k page succeeded) (fun _ d => Edits id [k] c d) fun _ _ => False := by
  refine .bind (Q := fun _ d => Edits id [k] c d) (.modify ?_) fun _ => ?_
  · rintro d rfl
    apply edits_modify d
    · exact fun _ => rfl
    · exact fun m j hj => (SortedMap.get?_modify m.pages k _ j).trans (if_neg (by simpa using hj))
  · split
    · refine .bind (Q := fun _ d => Edits id [k] c d) (.modify fun d h => ?_) fun _ => .modify fun d h => ?_
      · exact h.trans (edits_modify d (fun _ => rfl) fun _ _ _ => rfl)
      · obtain ⟨f, hz, hp, hget⟩ := h
        exact ⟨f, hz, hp, hget⟩
    · exact .skip

/-- A batch that has come this far in the mapping. -/
structure Visited (id : Nat) (m : FileMapping) (explicit : Bool) (s : State) (passed : List Nat) (t : State) : Prop where
  others : ∀ j, j ≠ id → t.cache.registry.get? j = s.cache.registry.get? j
  mapping : ∃ m', t.cache.registry.get? id = some m' ∧ m'.logicalSize = m.logicalSize ∧
    ∀ j, j ∉ passed → m'.pages.get? j = m.pages.get? j
  written : t.written = s.written ++ output id m explicit passed

theorem output_append (l l' : List Nat) : output id m explicit (l ++ l') = output id m explicit l ++ output id m explicit l' := by
  rw [output, List.filter_append, List.map_append]
  rfl

theorem Visited.append (h : Visited id m explicit s passed t) (hed : Edits id more t.cache u.cache)
    (hwr : u.written = t.written ++ output id m explicit more) : Visited id m explicit s (passed ++ more) u := by
  obtain ⟨f, hz, hp, hget⟩ := hed
  obtain ⟨m', hm', hsi', hpa'⟩ := h.mapping
  refine ⟨fun j hj => ?_, ⟨f m', ?_, (hz m').trans hsi', fun j hj => ?_⟩, ?_⟩
  · rw [hget, if_neg hj, h.others j hj]
  · rw [hget, if_pos rfl, hm', Option.map_some]
  · rw [List.mem_append, not_or] at hj
    rw [hp m' j hj.2, hpa' j hj.1]
  · rw [hwr, h.written, output_append, append_assoc]

theorem writebackPage_spec (hk : k ∉ passed) : Triple (Visited id m explicit s passed) (writebackPage b id k explicit)
    (fun one t => fault b id m explicit k = none ∧ one = submits m explicit k ∧ Visited id m explicit s (passed ++ [k]) t)
    (fun e t => fault b id m explicit k = some e ∧ t.written = s.written ++ output id m explicit passed) := by
  refine .start fun t h => .get_bind ?_
  obtain ⟨m', hm', hz, hp⟩ := h.mapping
  simp only [hm', hp k hk]
  cases hpg : m.pages.get? k with
  | none =>
    refine .pure fun u hu => ⟨by simp [fault, hpg], by simp [submits, hpg], h.append (hu ▸ edits_none ..) ?_⟩
    simp [hu, output, goesOut, submits, hpg]
  | some page =>
    cases hact : page.state.writebackAction explicit with
    | skip =>
      simp only [hact]
      refine .pure fun u hu => ⟨by simp [fault, hpg, hact], by simp [submits, hpg, hact], ?_⟩
      exact h.append (hu ▸ edits_none ..) (by simp [hu, output, goesOut, submits, hpg, hact])
    | wait =>
      simp only [hact]
      exact .throw fun u hu => ⟨by simp [fault, hpg, hact], hu ▸ h.written⟩
    | submit =>
      simp only [hact]
      have hsu : submits m explicit k := by simp [submits, hpg, hact]
      have hf : fault b id m explicit k =
          if m.logicalSize ≤ k * pageSize then none else (b.rejects id k).map (.writeback id) := by
        simp [fault, hpg, hact]
      have hre : ∀ u succeeded E, Runs u (lift (Accounting.reportWriteback id k page succeeded))
          (fun _ v => Edits id [k] u.cache v.cache ∧ v.written = u.written) E := fun u succeeded E =>
        lift_spec (((reportWriteback_edits page succeeded u.cache).post fun _ c hc => ⟨hc, rfl⟩).fail
          fun _ _ h => h.elim)
      rw [hf, hsu, writeSnapshot, hz]
      by_cases hpa : m.logicalSize ≤ k * pageSize
      · rw [if_pos hpa, if_pos hpa]
        refine .pure_bind (.bind (hre t true _) fun _ => .pure fun u hu => ⟨rfl, rfl, h.append hu.1 ?_⟩)
        simp [hu.2, output, goesOut, hpa]
      · rw [if_neg hpa, if_neg hpa]
        cases hrejects : b.rejects id k with
        | some code =>
          refine .pure_bind (.bind (hre t false _) fun _ => .throw fun u hu => ⟨rfl, ?_⟩)
          exact hu.2.trans h.written
        | none =>
          refine .bind (Q := fun r u => r = none ∧ u = {t with written := t.written ++ [(id, k)]}) ?_ fun r => ?_
          · exact .modify_bind (.pure fun _ hu => ⟨rfl, hu⟩)
          · refine .start fun u hu => ?_
            obtain ⟨rfl, rfl⟩ := hu
            refine .bind (hre _ true _) fun _ => .pure fun u hu => ⟨rfl, rfl, h.append hu.1 ?_⟩
            simp [hu.2, output, goesOut, hsu, not_le.mp hpa]

theorem writebackLoop_spec (cap : Nat) (pages : List Nat) : ∀ {passed : List Nat} {w : Nat},
    (passed ++ pages).Nodup → w + pages.length ≤ cap →
    Triple (Visited id m explicit s passed) (writebackLoop b id cap explicit pages w)
      (fun n t => pages.findSome? (fault b id m explicit) = none ∧ n = w + pages.countP (submits m explicit) ∧
        Visited id m explicit s (passed ++ pages) t)
      (fun e t => pages.findSome? (fault b id m explicit) = some e ∧
        t.written = s.written ++ output id m explicit (passed ++ clear b id m explicit pages)) := by
  induction pages with
  | nil =>
    intro passed w _ _
    exact .pure fun t h => ⟨rfl, rfl, by rwa [append_nil]⟩
  | cons k rest ih =>
    intro passed w hno hro
    rw [List.length_cons] at hro
    rw [writebackLoop, if_neg (by omega)]
    have hk : k ∉ passed := fun hin => (List.nodup_append.mp hno).2.2 k hin k (.head _) rfl
    have hno' : ((passed ++ [k]) ++ rest).Nodup := by rwa [append_assoc]
    refine .bind ((writebackPage_spec hk).fail fun e t h => ?_) fun one => .start fun t h => ?_
    · simp [clear, h.1, h.2]
    · obtain ⟨hclr, rfl, hvis⟩ := h
      have hone : (submits m explicit k).toNat ≤ 1 := Bool.toNat_le _
      refine .resume (((ih hno' (by omega)).post fun n t h => ?_).fail fun e t h => ?_) hvis
      · obtain ⟨hre, rfl, hvis⟩ := h
        refine ⟨by simp [hclr, hre], ?_, by simpa using hvis⟩
        rw [List.countP_cons]
        cases submits m explicit k <;> simp [Nat.add_assoc, Nat.add_comm]
      · simpa [clear, hclr] using h

end Pages

/-! ### Mappings -/

section Mappings
variable {b : Batch} {id cap : Nat} {m : FileMapping} {explicit : Bool} {s t : State}

theorem collectDirty_sublist (limit : Nat) (es : List (Nat × CachedPage)) : ∀ batch : List Nat, batch.length ≤ limit →
    (collectDirty limit es batch).1.length ≤ limit ∧
      ∃ more, (collectDirty limit es batch).1 = batch ++ more ∧ more.Sublist (es.map (·.1)) := by
  induction es with
  | nil => exact fun batch hli => ⟨hli, [], (append_nil _).symm, .slnil⟩
  | cons e rest ih =>
    intro batch hli
    rw [collectDirty]
    split
    · exact ⟨hli, [], (append_nil _).symm, List.nil_sublist _⟩
    · split
      · obtain ⟨hlen, more, hmo, hsu⟩ := ih (batch ++ [e.1]) (by rw [List.length_append, List.length_singleton]; omega)
        exact ⟨hlen, e.1 :: more, by rw [hmo, append_assoc]; rfl, hsu.cons_cons _⟩
      · obtain ⟨hlen, more, hmo, hsu⟩ := ih batch hli
        exact ⟨hlen, more, hmo, hsu.cons _⟩

theorem dirtyBatch_length : (dirtyBatch m cap).1.length ≤ min cap m.dirtyPages :=
  (collectDirty_sublist _ (_ ++ _) [] (Nat.zero_le _)).1

theorem share_nodup : (share m cap explicit).Nodup := by
  have hke : (m.pages.entries.map (·.1)).Nodup := List.pairwise_map.mpr (m.pages.sorted.imp Nat.ne_of_lt)
  unfold share residentPages dirtyBatch
  split
  · split
    · exact List.nodup_nil
    · exact hke.sublist (List.filter_sublist.map _)
  · obtain ⟨-, more, hmo, hsu⟩ := collectDirty_sublist (min cap m.dirtyPages)
      ((m.pages.entries.partition fun e => m.writebackCursor ≤ e.1).1 ++
        (m.pages.entries.partition fun e => m.writebackCursor ≤ e.1).2) [] (Nat.zero_le _)
    rw [hmo]
    refine .sublist hsu ?_
    rw [List.partition_eq_filter_filter]
    exact ((List.filter_append_perm _ _).map _).nodup_iff.mpr hke

section
variable (hm : s.cache.registry.get? id = some m)
include hm

theorem visited_start : Visited id m explicit s [] s :=
  ⟨fun _ _ => rfl, ⟨m, hm, rfl, fun _ _ => rfl⟩, (append_nil _).symm⟩

theorem collectPages_spec (hwk : explicit ∨ m.dirtyPages ≠ 0) :
    Runs s (collectPages b id m cap explicit)
      (fun _ t => opens b id m explicit = b.buffer id ∧ Visited id m explicit s [] t)
      (fun e t => e = outOfMemory ∧ opens b id m explicit = false ∧ t.written = s.written) := by
  unfold collectPages
  cases explicit with
  | true =>
    rw [if_pos rfl]
    split_ifs with hl
    · refine .pure fun t ht => ⟨?_, by rw [ht]; exact visited_start hm⟩
      rcases hl with hl | hl <;> simp [opens, hl]
    · refine .throw fun t ht => ⟨rfl, ?_, by rw [ht]⟩
      simp [opens, hl]
  | false =>
    have hd := hwk.resolve_left Bool.false_ne_true
    rw [if_neg Bool.false_ne_true]
    split_ifs with hl
    · refine lift_spec (.modify ?_)
      rintro c rfl
      have hed : Edits id [] s.cache {s.cache with registry := s.cache.registry.modify id fun m =>
          {m with writebackCursor := (dirtyBatch m cap).2}} := edits_modify s.cache (fun _ => rfl) fun _ _ _ => rfl
      exact ⟨by simp [opens, hd, hl], (visited_start hm).append hed (append_nil _).symm⟩
    · exact .throw fun t ht => ⟨rfl, by simp [opens, hd, hl], by rw [ht]⟩

theorem writebackSome_spec (hmax : cap ≠ 0)
    (hfit : (share m cap explicit).length ≤ cap) : Runs s (writebackSome b id cap explicit)
      (fun n t => ends b id m explicit cap = none ∧ n = (share m cap explicit).countP (submits m explicit) ∧
        Visited id m explicit s (share m cap explicit) t)
      (fun e t => ends b id m explicit cap = some e ∧ t.written = s.written ++
        if opens b id m explicit then output id m explicit (clear b id m explicit (share m cap explicit)) else []) := by
  refine .get_bind ?_
  simp only [hm]
  rw [if_neg hmax]
  split
  next hid =>
    simp only [Bool.and_eq_true, Bool.not_eq_true', beq_iff_eq] at hid
    obtain ⟨rfl, hd⟩ := hid
    have hsh : share m cap false = [] := by
      have hlen : (share m cap false).length ≤ min cap m.dirtyPages := dirtyBatch_length
      rwa [hd, Nat.min_zero, Nat.le_zero, List.length_eq_zero_iff] at hlen
    rw [hsh]
    exact .pure fun t ht => ⟨by simp [ends, opens, hd, hsh], rfl, by rw [ht]; exact visited_start hm⟩
  next hwk =>
    have hwk : explicit ∨ m.dirtyPages ≠ 0 := by
      cases explicit <;> simp_all
    refine .bind ((collectPages_spec hm hwk).fail fun e t h => ?_) fun _ => .start fun t h => ?_
    · obtain ⟨rfl, hop, hwr⟩ := h
      simp [ends, hop, hwr]
    · obtain ⟨hop, hvis⟩ := h
      rw [ends, hop]
      split
      · have hlo : Triple (Visited id m explicit s []) (writebackLoop b id cap explicit (share m cap explicit) 0) _ _ :=
          writebackLoop_spec cap _ share_nodup (by rwa [Nat.zero_add])
        refine .resume (hlo.post fun n t h => ?_) hvis
        rwa [Nat.zero_add] at h
      · refine .throw fun u hu => ⟨rfl, ?_⟩
        rw [hu]
        exact hvis.written

end

end Mappings

/-! ### The flush at shutdown -/

section Shutdown
variable {b : Batch} {c : CacheManager} {id idx j : Nat} {m : FileMapping} {s t : State} (batches : Nat → Batch)

/-- Where a flush comes by in a mapping: its allocations, and then its pages. -/
def stations (c : CacheManager) (id : Nat) : List (Nat × Option Nat) :=
  (c.registry.get? id).elim [] fun m => (id, none) :: (residentPages m).map fun k => (id, some k)

/-- Nothing is in the way there. -/
def passes (b : Batch) (c : CacheManager) (station : Nat × Option Nat) : Bool :=
  (c.registry.get? station.1).any fun m =>
    station.2.elim (opens b station.1 m true) fun k => (fault b station.1 m true k).isNone

/-- The page that is written there. -/
def writes (c : CacheManager) (station : Nat × Option Nat) : Option (Nat × Nat) :=
  (c.registry.get? station.1).bind fun m => (station.2.filter (goesOut m true)).map (station.1, ·)

/-- What a flush writes on its way through the mappings. -/
def flushed (b : Batch) (c : CacheManager) (ids : List Nat) : List (Nat × Nat) :=
  ((ids.flatMap (stations c)).takeWhile (passes b c)).filterMap (writes c)

section
variable (hm : c.registry.get? j = some m) (rest : List Nat)
include hm

theorem flushed_pages (l : List Nat) (rest : List (Nat × Option Nat)) :
    (((l.map fun k => (j, some k)) ++ rest).takeWhile (passes b c)).filterMap (writes c) =
      output j m true (clear b j m true l) ++ if l.findSome? (fault b j m true) = none then
        (rest.takeWhile (passes b c)).filterMap (writes c) else [] := by
  induction l with
  | nil => simp [clear, output]
  | cons k l ih =>
    have hpa : passes b c (j, some k) = (fault b j m true k).isNone := by simp [passes, hm]
    rw [List.map_cons, List.cons_append, List.takeWhile_cons, hpa]
    cases hf : fault b j m true k with
    | some e => simp [clear, output, hf]
    | none =>
      have hwr : (writes c (j, some k)).toList = output j m true [k] := by
        cases hout : goesOut m true k <;> simp [writes, hm, output, hout]
      have hclr : clear b j m true (k :: l) = [k] ++ clear b j m true l := by simp [clear, hf]
      simp only [List.findSome?_cons, hf, hclr, output_append, ← hwr, append_assoc, ← ih]
      cases hone : writes c (j, some k) <;> simp [hone]

theorem flushed_cons : flushed b c (j :: rest) =
    if opens b j m true then output j m true (clear b j m true (residentPages m)) ++
      (if ends b j m true usizeMax = none then flushed b c rest else [])
    else [] := by
  have hpa : passes b c (j, none) = opens b j m true := by simp [passes, hm]
  have hwr : writes c (j, none) = none := by simp [writes]
  have hst : stations c j = (j, none) :: (residentPages m).map fun k => (j, some k) := by simp [stations, hm]
  rw [flushed, List.flatMap_cons, hst, List.cons_append, List.takeWhile_cons, hpa]
  cases hop : opens b j m true with
  | false => rfl
  | true =>
    rw [if_pos rfl, List.filterMap_cons, hwr, flushed_pages hm, ends, hop]
    rfl

theorem flushed_passed (h : ends b j m true usizeMax = none) :
    flushed b c (j :: rest) = output j m true (residentPages m) ++ flushed b c rest := by
  rw [flushed_cons hm, if_pos h]
  unfold ends at h
  split at h
  next hop =>
    have hclr : clear b j m true (residentPages m) = residentPages m := by
      refine List.takeWhile_eq_self_iff.mpr fun k hk => ?_
      rw [Option.isNone_iff_eq_none]
      exact List.findSome?_eq_none_iff.mp h k hk
    rw [if_pos hop, hclr]
  · cases h

end

/-- How many pages the mapping has. -/
def pageCount (c : CacheManager) (id : Nat) : Nat := (c.registry.get? id).elim 0 fun m => m.pages.entries.length

theorem residentPages_length (m : FileMapping) : (residentPages m).length ≤ m.pages.entries.length := by
  unfold residentPages
  split
  · exact Nat.zero_le _
  · rw [List.length_map]
    exact List.length_filter_le _ _

/-- The mappings to come are as they were when the batch began. -/
def Untouched (c : CacheManager) (ids : List Nat) (s : State) : Prop :=
  ∀ j ∈ ids, s.cache.registry.get? j = c.registry.get? j ∧ (c.registry.get? j).isSome = true

theorem Visited.untouched {explicit : Bool} {passed rest : List Nat} (h : Visited j m explicit s passed t) (hj : j ∉ rest)
    (hs : Untouched c (j :: rest) s) : Untouched c rest {t with cache := {t.cache with writebackResume := j}} := by
  intro k hk
  rw [h.others k fun heq => hj (heq ▸ hk)]
  exact hs k (.tail _ hk)

theorem batchLoop_flushed : ∀ {s : State} {w : Nat}, ids.Nodup → Untouched c ids s →
    w + (ids.map (pageCount c)).sum < usizeMax → Runs s (batchLoop b usizeMax true ids w)
      (fun _ t => t.written = s.written ++ flushed b c ids) fun _ t => t.written = s.written ++ flushed b c ids := by
  induction ids with
  | nil =>
    intro s w _ _ _
    exact .pure fun t ht => by rw [ht]; exact (append_nil _).symm
  | cons j rest ih =>
    intro s w hno hsm hro
    obtain ⟨hj, hno⟩ := List.nodup_cons.mp hno
    obtain ⟨hget, hso⟩ := hsm j (.head _)
    obtain ⟨m, hm⟩ := Option.isSome_iff_exists.mp hso
    rw [List.map_cons, List.sum_cons, pageCount, hm, Option.elim_some] at hro
    have hlen := residentPages_length m
    have hct : (residentPages m).countP (submits m true) ≤ (residentPages m).length := List.countP_le_length
    rw [batchLoop, if_neg (by omega)]
    have hfit : (residentPages m).length ≤ usizeMax - w := by omega
    refine .bind ((writebackSome_spec (hget.trans hm) (by omega) hfit).fail fun e t h => ?_) fun n => ?_
    · have hen : ends b j m true usizeMax = some e := h.1
      rw [flushed_cons hm, hen, if_neg (Option.some_ne_none e), append_nil]
      exact h.2
    · refine .start fun t h => ?_
      obtain ⟨hen, rfl, hvis⟩ := h
      have hro : w + (residentPages m).countP (submits m true) + (rest.map (pageCount c)).sum < usizeMax := by omega
      have hwr : t.written ++ flushed b c rest = s.written ++ flushed b c (j :: rest) := by
        rw [hvis.written, flushed_passed hm rest hen, append_assoc]
        rfl
      rw [← hwr]
      exact .modify_bind (ih hno (hvis.untouched hj hsm) hro)

theorem rotation_perm (c : CacheManager) : (rotation c).Perm (c.registry.entries.map (·.1)) :=
  List.perm_append_comm.trans (.of_eq (List.take_append_drop _ _))

theorem rotation_nodup (c : CacheManager) : (rotation c).Nodup :=
  (rotation_perm c).nodup_iff.mpr (List.pairwise_map.mpr (c.registry.sorted.imp Nat.ne_of_lt))

theorem rotation_untouched (c : CacheManager) (batches : Nat → Batch) (w : List (Nat × Nat)) :
    Untouched c (rotation c) ⟨c, batches, w⟩ := by
  intro j hj
  obtain ⟨e, he, rfl⟩ := List.mem_map.mp ((rotation_perm c).mem_iff.mp hj)
  exact ⟨rfl, Option.isSome_of_mem (SortedMap.get?_eq_some.mpr he)⟩

/-- What the whole flush writes. -/
def shutdownWrites (b : Batch) (c : CacheManager) : List (Nat × Nat) := if b.mappingList then flushed b c (rotation c) else []

theorem writebackInner_flushed (hro : c.registry.total (fun m => m.pages.entries.length) < usizeMax) :
    Runs ⟨c, batches, []⟩ (writebackInner usizeMax true)
      (fun _ t => t.written = shutdownWrites (batches 0) c) fun _ t => t.written = shutdownWrites (batches 0) c := by
  refine .get_bind (.modify_bind ?_)
  unfold shutdownWrites
  split
  · have hsum : ((rotation c).map (pageCount c)).sum = c.registry.total fun m => m.pages.entries.length := by
      rw [((rotation_perm c).map _).sum_nat, List.map_map]
      refine congrArg _ (List.map_congr_left fun e he => ?_)
      rw [Function.comp_apply, pageCount, SortedMap.get?_eq_some.mpr he, Option.elim_some]
    exact batchLoop_flushed (rotation c) (rotation_nodup c) (rotation_untouched _ _ _)
      (by rwa [hsum, Nat.zero_add])
  · exact .throw fun t ht => by rw [ht]

theorem lift_keeps {P : State → Prop} (hP : ∀ s c, P s → P {s with cache := c}) :
    Triple P (lift x) (fun _ => P) fun _ => P := by
  intro s h
  unfold lift
  cases x s.cache with
  | ok _ c | error _ c => exact hP s c h

theorem shutdownFlush_flushed (hro : c.registry.total (fun m => m.pages.entries.length) < usizeMax) :
    Runs ⟨c, batches, []⟩ shutdownFlush
      (fun _ t => t.written = shutdownWrites (batches 0) c) fun _ t => t.written = shutdownWrites (batches 0) c := by
  refine .bind (Q := fun _ t => t.written = shutdownWrites (batches 0) c)
    ((writebackInner_flushed batches hro).attempt.post fun r t h => ?_) fun r => ?_
  · cases r <;> exact h
  · refine .bind (lift_keeps _ fun _ _ h => h) fun _ => ?_
    cases r with
    | error failure => exact .throw fun _ h => h
    | ok n =>
      refine .bind .get fun t => ?_
      dsimp only
      split
      · exact .throw fun _ h => h.2
      · exact .pure fun _ h => h.2

/-- The page was dirty, has bytes in the file, and its backing takes it. -/
def Owed (b : Batch) (c : CacheManager) (id index : Nat) : Prop :=
  ∃ m page, c.registry.get? id = some m ∧ m.pages.get? index = some page ∧ page.state.isDirty = true ∧
    index * pageSize < m.logicalSize ∧ b.rejects id index = none

theorem Owed.mem_flushed_iff (h : Owed b c id idx) (ids : List Nat) :
    (id, idx) ∈ flushed b c ids ↔ (id, some idx) ∈ (ids.flatMap (stations c)).takeWhile (passes b c) := by
  obtain ⟨m, page, hm, hpg, hd, hz, -⟩ := h
  rw [flushed, List.mem_filterMap]
  constructor
  · rintro ⟨⟨id', index'⟩, hin, hwr⟩
    obtain ⟨m', hm', hwr⟩ := Option.bind_eq_some_iff.mp hwr
    obtain ⟨k, hk, hsm⟩ := Option.map_eq_some_iff.mp hwr
    obtain ⟨rfl, -⟩ := Option.filter_eq_some_iff.mp hk
    cases hsm
    exact hin
  · intro hin
    refine ⟨_, hin, ?_⟩
    have hpa : passes b c (id, some idx) := (List.mem_takeWhile_imp hin)
    have hclr : fault b id m true idx = none := by simpa [passes, hm] using hpa
    have hsu : submits m true idx := by
      cases hact : page.state.writebackAction true with
      | skip =>
        rw [PageState.skip_clean hact] at hd
        cases hd
      | wait => simp [fault, hpg, hact] at hclr
      | submit => simp [submits, hpg, hact]
    simp [writes, hm, goesOut, hsu, hz]

/-- The state that a flush leaves behind, whatever it returns. -/
def after (r : EStateM.Result Failure State Unit) : State :=
  match r with
  | .ok _ t => t
  | .error _ t => t

/-- **A flush writes what it can write, just when nothing on its way stops it before.** -/
theorem shutdownFlush_persists_iff (c : CacheManager) (batches : Nat → Batch)
    (hroom : c.registry.total (fun m => m.pages.entries.length) < usizeMax) :
    (∀ id index, Owed (batches 0) c id index → (id, index) ∈ (after (shutdownFlush ⟨c, batches, []⟩)).written) ↔
      ∀ id index, Owed (batches 0) c id index → (batches 0).mappingList = true ∧
        (id, some index) ∈ ((rotation c).flatMap (stations c)).takeWhile (passes (batches 0) c) := by
  have hwr : (after (shutdownFlush ⟨c, batches, []⟩)).written = shutdownWrites (batches 0) c := by
    have h := shutdownFlush_flushed batches hroom _ rfl
    cases hrun : shutdownFlush ⟨c, batches, []⟩ <;> rwa [hrun] at h
  refine forall_congr' fun id => forall_congr' fun index => forall_congr' fun howed => ?_
  rw [hwr, shutdownWrites, ← howed.mem_flushed_iff]
  cases (batches 0).mappingList <;> simp

end Shutdown

/-! ### Writes in the midst of it -/

section Throttle
variable {b : Batch} {c : CacheManager} {own : Nat}

/-- The failure that ends a batch of background writeback over these mappings. -/
def stopper (b : Batch) (c : CacheManager) : List Nat → Nat → Option Failure
  | [], _ => none
  | id :: rest, maxPages =>
    if maxPages = 0 then none
    else (c.registry.get? id).elim none fun m => (ends b id m false maxPages).or
      (stopper b c rest (maxPages - (share m maxPages false).countP (submits m false)))

theorem batchLoop_stops {cap : Nat} : ∀ {s : State} {w : Nat}, ids.Nodup →
    Untouched c ids s → w ≤ cap →
    Runs s (batchLoop b cap false ids w) (fun _ _ => stopper b c ids (cap - w) = none)
      fun e _ => stopper b c ids (cap - w) = some e := by
  induction ids with
  | nil => exact fun _ _ _ => .pure fun _ _ => rfl
  | cons j rest ih =>
    intro s w hno hsm hle
    obtain ⟨hj, hno⟩ := List.nodup_cons.mp hno
    obtain ⟨hget, hso⟩ := hsm j (.head _)
    obtain ⟨m, hm⟩ := Option.isSome_iff_exists.mp hso
    rw [batchLoop, stopper]
    split
    next hfu =>
      exact .pure fun _ _ => if_pos (by omega)
    next hmo =>
      rw [if_neg (by omega), hm, Option.elim_some]
      have hfit : (share m (cap - w) false).length ≤ cap - w :=
        dirtyBatch_length.trans (Nat.min_le_left _ _)
      refine .bind ((writebackSome_spec (hget.trans hm) (by omega) hfit).fail fun e t h => ?_) fun n => ?_
      · rw [h.1, Option.some_or]
      · refine .start fun t h => ?_
        obtain ⟨hen, rfl, hvis⟩ := h
        have hct : (share m (cap - w) false).countP (submits m false) ≤ cap - w :=
          List.countP_le_length.trans hfit
        rw [hen, Nat.sub_sub]
        exact .modify_bind (ih hno (hvis.untouched hj hsm) (by omega))

/-- The failure that the throttle returns. -/
def throttled (s : State) : Option Failure :=
  if s.cache.dirtyPages < s.cache.policy.dirtyLimit then none
  else if (s.batches 0).mappingList then
    stopper (s.batches 0) s.cache (rotation s.cache) s.cache.policy.writebackBatchPages
  else some outOfMemory

variable {s : State}

theorem throttleDirty_spec (s : State) : Runs s throttleDirty (fun _ _ => throttled s = none)
    fun e _ => throttled s = some e := by
  refine .get_bind ?_
  unfold throttled
  dsimp only
  split
  · exact .pure fun _ _ => rfl
  · refine .bind ?_ fun _ => .skip
    refine .get_bind (.modify_bind ?_)
    split
    · exact batchLoop_stops (rotation s.cache) (rotation_nodup _) (rotation_untouched _ _ _) (Nat.zero_le _)
    · exact .throw fun _ _ => rfl

/-- The failure is a writeback's just when the throttle returned it. -/
def Returns (s : State) (e : Failure) : Prop := ∀ id code, e = .writeback id code ↔ throttled s = some (.writeback id code)

theorem returns_other {ending : Ending} (h : throttled s = none) : Returns s (.other ending) := by
  intro id code
  simp [h]

theorem lift_returns (h : throttled s = none) :
    Triple (fun _ => True) (lift x) (fun _ _ => throttled s = none) fun e _ => Returns s e := by
  intro t _
  unfold lift
  cases x t.cache with
  | ok a c => exact h
  | error e c => exact returns_other h

theorem writeChunk_spec (span : Span) : Runs s (writeChunk own span) (fun _ _ => throttled s = none)
    fun e _ => Returns s e := by
  refine .bind ((throttleDirty_spec s).fail fun e _ h id code => by rw [h, Option.some.injEq]) fun _ => ?_
  exact .start fun t h => (lift_returns _ h).pre (fun _ _ => trivial)

/-- After the first chunk a write returns no code. -/
theorem writeLoop_later (h : throttled s = none) (fuel : Nat) : ∀ span : Span, span.done ≠ 0 →
    Triple (fun _ => True) (writeLoop own fuel span) (fun _ _ => throttled s = none) fun e _ => Returns s e := by
  induction fuel with
  | zero => exact fun span _ => .pure fun _ _ => h
  | succ fuel ih =>
    intro span hdn
    rw [writeLoop]
    split
    · refine .bind (Q := fun _ _ => True) (fun t _ => ?_) fun r => ?_
      · unfold attempt
        cases writeChunk own span t <;> trivial
      · cases r with
        | ok => exact ih span.advance (mt Nat.eq_zero_of_add_eq_zero_right hdn)
        | error failure =>
          dsimp only
          split
          · exact .pure fun _ _ => h
          next hco =>
            cases failure with
            | writeback id code => exact absurd ⟨hdn, rfl⟩ hco
            | other ending => exact .throw fun _ _ => returns_other h
    · exact .pure fun _ _ => h

theorem writeLoop_first {off count : Nat} (hct : 0 < count) : Runs s
    (writeLoop own count ⟨off, count, 0⟩) (fun _ _ => throttled s = none) fun e _ => Returns s e := by
  obtain ⟨fuel, rfl⟩ := Nat.exists_eq_succ_of_ne_zero hct.ne'
  refine .bind (writeChunk_spec _).attempt fun r => ?_
  cases r with
  | ok =>
    refine .start fun t h => (writeLoop_later h fuel _ ?_).pre (fun _ _ => trivial)
    exact (Nat.add_pos_right _ (Span.length_pos hct)).ne'
  | error failure =>
    exact .throw fun _ h => h

theorem writeAt_returns {off count : Nat} (hct : 0 < count) (hsum : off + count < 2 ^ 64) :
    Runs s (writeAt own off count) (fun _ _ => throttled s = none) fun e _ => Returns s e := by
  rw [writeAt, if_pos hsum]
  refine .bind (writeLoop_first hct) fun copied => .start fun t h => ?_
  refine .bind ((lift_returns _ h).pre (fun _ _ => trivial)) fun _ => .skip

theorem writeAt_other {off count : Nat} (h : ¬ (0 < count ∧ off + count < 2 ^ 64)) :
    Runs s (writeAt own off count) (fun _ _ => True) fun e _ => ∀ id code, e ≠ .writeback id code := by
  rw [writeAt]
  split_ifs with hsum
  · obtain rfl : count = 0 := by omega
    exact .bind (Q := fun _ _ => True) (.pure fun _ _ => trivial) fun copied => fun _ _ => trivial
  · exact .throw fun _ _ _ _ => nofun

/-- **A write is spared the failures of other files, just when the batch in front of it meets none.** -/
theorem writeAt_isolated_iff (s : State) (own offset count : Nat) :
    (∀ other code t, other ≠ own → writeAt own offset count s ≠ .error (.writeback other code) t) ↔
      ¬ (0 < count ∧ offset + count < 2 ^ 64 ∧ ∃ other code, other ≠ own ∧ throttled s = some (.writeback other code)) := by
  by_cases hreal : 0 < count ∧ offset + count < 2 ^ 64
  · have hrun := (writeAt_returns hreal.1 hreal.2 : Triple _ (writeAt own offset count) _ _) s rfl
    constructor
    · rintro hspare ⟨-, -, other, code, hne, hthrottled⟩
      cases hw : writeAt own offset count s with
      | ok n t =>
        rw [hw] at hrun
        cases hrun.symm.trans hthrottled
      | error e t =>
        rw [hw] at hrun
        rw [(hrun other code).mpr hthrottled] at hw
        exact hspare other code t hne hw
    · intro hnone other code t hne hw
      rw [hw] at hrun
      exact hnone ⟨hreal.1, hreal.2, other, code, hne, (hrun other code).mp rfl⟩
  · refine iff_of_true (fun other code t _ hw => ?_) fun h => hreal ⟨h.1, h.2.1⟩
    have hrun := (writeAt_other hreal : Triple _ (writeAt own offset count) _ _) s rfl
    rw [hw] at hrun
    exact hrun other code rfl

/-! ### Two files, of which one is broken -/

/-- A file of one page, which is dirty. -/
def dirtyFile : FileMapping where
  owned := true
  logicalSize := 4096
  pages := ⟨[(0, ⟨0, {PageState.clean with dirtySeq := 1}, true⟩)], .cons nofun .nil⟩
  dirtyPages := 1
  writebackCursor := 0

/-- Two such files, with as many dirty pages as there may be. -/
def twoFiles : CacheManager where
  policy := ⟨0, 0, 0, 2, 8⟩
  registry := ⟨[(1, dirtyFile), (2, dirtyFile)], .cons (by simp) (.cons nofun .nil)⟩
  orphans := .empty
  candidates := []
  writebackResume := 0
  residentPages := 2
  dirtyPages := 2
  nextPage := 1
  nextId := 3
  shared := fun _ => false
  answers := fun _ => true
  asked := 0

/-- The backing of the first rejects everything. -/
def firstBroken : Batch := ⟨fun id _ => if id = 1 then some .eio else none, true, fun _ => true, fun _ => true⟩

/-- The page of the second file is not written. -/
theorem shutdownFlush_leaves_second : Owed firstBroken twoFiles 2 0 ∧
    (after (shutdownFlush ⟨twoFiles, fun _ => firstBroken, []⟩)).written = [] :=
  ⟨⟨dirtyFile, _, rfl, rfl, rfl, by decide, rfl⟩, rfl⟩

theorem shutdownFlush_twoFiles : twoFiles.registry.total (fun m => m.pages.entries.length) < usizeMax ∧
    ((∀ id index, Owed firstBroken twoFiles id index →
      (id, index) ∈ (after (shutdownFlush ⟨twoFiles, fun _ => firstBroken, []⟩)).written) ↔
    ∀ id index, Owed firstBroken twoFiles id index →
      firstBroken.mappingList = true ∧ (id, some index) ∈
        ((rotation twoFiles).flatMap (stations twoFiles)).takeWhile (passes firstBroken twoFiles)) :=
  ⟨by decide, shutdownFlush_persists_iff twoFiles (fun _ => firstBroken) (by decide)⟩

/-- Writing to the second file fails with the error of the first. -/
theorem writeAt_blames_first : ∃ t, writeAt 2 0 1 ⟨twoFiles, fun _ => firstBroken, []⟩ = .error (.writeback 1 .eio) t :=
  ⟨_, rfl⟩

end Throttle

end StarryX.Cache.Flush
