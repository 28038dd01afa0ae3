import StarryX.Library.Machine

/-! The locks of the network.

A descriptor's lock is taken by `recv` and `send` and kept while they wait. `duplex_iff` says which steps keep a waiting
call of one direction out of the way of the other. Polling takes the slot of a port under the lock of the socket set, and
the calls on the listen table take the two the other way round: `lock_order_iff` says which steps do not lock up. -/
namespace StarryX.Net
open Library Function

/-! ### A descriptor -/

inductive Way where
  | recv
  | send
  deriving DecidableEq

def Way.other : Way → Way
  | .recv => .send
  | .send => .recv

/-- A call that has the lock of the descriptor; `yielded` is set once a round of its `block_on` has found nothing to do. -/
structure Holder (ι : Type) where
  task : ι
  way : Way
  yielded : Bool

/-- One stream socket. `amount` is what can be received, and the room to send; a way is closed once the connection is not
active or no longer goes that way. -/
structure Duplex (ι : Type) where
  nonblock : Bool
  connected : Bool
  closed : Way → Bool
  amount : Way → Nat
  lock : Option (Holder ι)
  waiting : ι → Option Way

/-- What the closure that `recv` or `send` gives to `block_on` finds: bytes to move, an end, or nothing to do (`EAGAIN`). -/
inductive Attempt where
  | moved
  | ended
  | again
  deriving DecidableEq

/-- `round` is one of `block_on`; `packet` and `close` come from the other end. The last two take the descriptor's lock and
give it back. -/
inductive DuplexLabel (ι : Type) where
  | call (i : ι) (way : Way)
  | acquire (i : ι)
  | round (interrupted : Bool) (count : Nat)
  | packet (more : Way → Nat)
  | close (way : Way)
  | setNonblocking (nonblock : Bool)
  | shutdown

namespace Duplex
variable {ι : Type}

def attempt (s : Duplex ι) : Way → Attempt
  | .recv => if 0 < s.amount .recv then .moved else if s.closed .recv then .ended else .again
  | .send => if s.closed .send then .ended else if 0 < s.amount .send then .moved else .again

theorem attempt_again (s : Duplex ι) (way : Way) : s.attempt way = .again ↔ s.amount way = 0 ∧ s.closed way = false := by
  cases way <;> grind [attempt]

/-- The call that has the lock has yielded, and still has nothing to do. -/
def Blocked (s : Duplex ι) (way : Way) : Prop := ∃ i, s.lock = some ⟨i, way, true⟩ ∧ s.attempt way = .again

/-- No blocked call keeps one of the other direction from data or room that is there. -/
def Independent (s : Duplex ι) : Prop := ∀ way j, s.Blocked way → s.waiting j = some way.other → s.amount way.other = 0

theorem other_other (way : Way) : way.other.other = way := by cases way <;> rfl

variable {s : Duplex ι}

theorem independent_of_unblocked (h : ∀ way, ¬s.Blocked way) : s.Independent :=
  fun way _ hbl => absurd hbl (h way)

theorem independent_of_free (h : s.lock = none) : s.Independent :=
  independent_of_unblocked fun _ ⟨_, hlo, _⟩ => nomatch h.symm.trans hlo

theorem independent_packet (h : s.Independent) (more : Way → Nat) :
    Independent {s with amount := fun way => s.amount way + more way} ↔
      ∀ way j, s.Blocked way → s.waiting j = some way.other → more way = 0 → more way.other = 0 := by
  -- The call that has the lock stays blocked just if the packet brings it nothing.
  have hbl : ∀ way, Blocked {s with amount := fun way => s.amount way + more way} way ↔ s.Blocked way ∧ more way = 0 := by
    intro way
    simp only [Blocked, attempt_again, Nat.add_eq_zero_iff]
    grind
  refine forall_congr' fun way => forall_congr' fun j => ?_
  rw [hbl way]
  refine ⟨fun ht hb hwa hno => (Nat.add_eq_zero_iff.mp (ht ⟨hb, hno⟩ hwa)).2, fun hfi hb hwa => ?_⟩
  exact Nat.add_eq_zero_iff.mpr ⟨h way j hb.1 hwa, hfi hb.1 hwa hb.2⟩

theorem independent_yield {i : Holder ι} (hlo : s.attempt i.way = .again) :
    Independent {s with lock := some {i with yielded := true}} ↔
      ∀ j, s.waiting j = some i.way.other → s.amount i.way.other = 0 := by
  refine ⟨fun ht j hwa => ht i.way j ⟨i.task, rfl, hlo⟩ hwa, fun hfi way j ⟨_, heq, _⟩ hwa => ?_⟩
  cases heq
  exact hfi j hwa

variable [DecidableEq ι]

/-- The task is in no call. -/
def free (s : Duplex ι) (i : ι) : Bool := s.waiting i == none && s.lock.all (·.task != i)

def step : DuplexLabel ι → Duplex ι → Option (Duplex ι)
  | .call i way, s => if s.free i then some {s with waiting := update s.waiting i (some way)} else none
  | .acquire i, s => match s.lock, s.waiting i with
    | none, some way => some {s with lock := some ⟨i, way, false⟩, waiting := update s.waiting i none}
    | _, _ => none
  | .round interrupted count, s => s.lock.map fun h =>
    -- A call on a socket that is not connected does not come to `block_on`, which asks for signals only if it may wait.
    if !s.connected || (interrupted && !s.nonblock) then {s with lock := none}
    else match s.attempt h.way with
      | .moved => {s with lock := none, amount := update s.amount h.way (s.amount h.way - count)}
      | .ended => {s with lock := none}
      | .again => {s with lock := if s.nonblock then none else some {h with yielded := true}}
  | .packet more, s => some {s with amount := fun way => s.amount way + more way}
  | .close way, s => some {s with closed := update s.closed way true}
  | .setNonblocking nonblock, s => if s.lock.isNone then some {s with nonblock} else none
  | .shutdown, s => if s.lock.isNone then some {s with connected := false} else none

def machine : Machine (Duplex ι) (DuplexLabel ι) := ⟨step⟩

/-- The round ends with `yield_now`. -/
def Yields (s : Duplex ι) (interrupted : Bool) (h : Holder ι) : Prop :=
  s.lock = some h ∧ s.connected = true ∧ s.nonblock = false ∧ interrupted = false ∧ s.attempt h.way = .again

/-- No call starts that could go on while one of the other direction is blocked, none yields while such a call waits for the
lock, and no packet is for the waiting call only. -/
def Fine : DuplexLabel ι → Duplex ι → Prop
  | .call j way, s => s.free j → s.Blocked way.other → s.amount way = 0
  | .round interrupted _, s => ∀ h j, s.Yields interrupted h → s.waiting j = some h.way.other → s.amount h.way.other = 0
  | .packet more, s => ∀ way j, s.Blocked way → s.waiting j = some way.other → more way = 0 → more way.other = 0
  | _, _ => True

theorem independent_call (h : s.Independent) (j : ι) (way : Way) :
    Independent {s with waiting := update s.waiting j (some way)} ↔ (s.Blocked way.other → s.amount way = 0) := by
  refine ⟨fun ht hbl => ?_, fun hfi w k hbl hwa => ?_⟩
  · have := ht way.other j hbl ((update_self ..).trans (congrArg some (other_other way).symm))
    rwa [other_other] at this
  · rcases update_cases hwa with ⟨rfl, heq⟩ | ⟨-, hk⟩
    · -- The new call is the one that waits.
      cases heq
      exact hfi ((other_other w).symm ▸ hbl)
    · exact h w k hbl hk

theorem independent_round (interrupted : Bool) (count : Nat) (t : Duplex ι)
    (hst : machine.step (.round interrupted count) s = some t) :
    t.Independent ↔ Fine (.round interrupted count) s := by
  obtain ⟨i, hlo, rfl⟩ := Option.map_eq_some_iff.mp hst
  by_cases hyi : s.Yields interrupted i
  · obtain ⟨-, hco, hnb, hin, hag⟩ := hyi
    simp only [hco, hnb, hin, hag, Bool.not_true, Bool.false_and, Bool.or_self, Bool.false_eq_true, if_false]
    refine (independent_yield hag).trans ⟨fun hfi k j hk hwa => ?_, fun hfi j hwa => ?_⟩
    · cases hlo.symm.trans hk.1
      exact hfi j hwa
    · exact hfi i j ⟨hlo, hco, hnb, rfl, hag⟩ hwa
  · -- Else the call gives the lock back.
    refine iff_of_true (independent_of_free ?_) fun k j hk => absurd (Option.some_inj.mp (hlo.symm.trans hk.1) ▸ hk) hyi
    grind [Yields]

theorem step_independent (l : DuplexLabel ι) (t : Duplex ι) (h : s.Independent) (hst : machine.step l s = some t) :
    t.Independent ↔ Fine l s := by
  cases l with
  | call j way =>
    obtain ⟨hfr, heq⟩ := Option.ite_none_right_eq_some.mp hst
    cases heq
    rw [independent_call h, Fine, imp_iff_right hfr]
  | acquire i =>
    simp only [machine, step] at hst
    split at hst <;> cases hst
    exact iff_of_true (independent_of_unblocked fun _ hbl => nomatch hbl) trivial
  | round interrupted count => exact independent_round interrupted count t hst
  | packet more =>
    cases hst
    exact independent_packet h more
  | close way =>
    cases hst
    refine iff_of_true (fun w j ⟨i, hlo, hag⟩ => h w j ⟨i, hlo, ?_⟩) trivial
    rw [attempt_again] at hag ⊢
    exact ⟨hag.1, by grind⟩
  | setNonblocking | shutdown =>
    obtain ⟨hfr, heq⟩ := Option.ite_none_right_eq_some.mp hst
    cases heq
    exact iff_of_true (independent_of_free (Option.isNone_iff_eq_none.mp hfr)) trivial

/-- Nobody is in a call. -/
def start (nonblock connected : Bool) (closed : Way → Bool) (amount : Way → Nat) : Duplex ι :=
  ⟨nonblock, connected, closed, amount, none, fun _ => none⟩

/-- **Neither direction waits for the other** along a run just if every step meets `Fine`. -/
theorem duplex_iff (nonblock connected : Bool) (closed : Way → Bool) (amount : Way → Nat) (labels : List (DuplexLabel ι)) :
    machine.Always Independent (start nonblock connected closed amount) labels ↔
      machine.Meets Fine (start nonblock connected closed amount) labels := by
  refine Machine.always_iff_meets (fun _ h => h) (fun l s t h hfi hst => ?_) (fun l s t h hst => ?_) (fun l s hno => ?_)
    labels (independent_of_free rfl)
  · exact (step_independent l t h hst).mpr hfi
  · exact (step_independent l t h hst).mp
  · cases l with
    | call => exact fun hfr => nomatch (if_pos hfr).symm.trans hno
    | round => exact fun h j hyi => nomatch (Option.map_eq_none_iff.mp hno).symm.trans hyi.1
    | packet => cases hno
    | _ => trivial

/-- There is room, and nothing to receive: one task waits for data, and the other for its lock. -/
theorem send_waits : ∃ s : Duplex Bool,
    machine.run (start false true (fun _ => false) fun way => if way = .send then 4096 else 0)
      [.call false .recv, .acquire false, .round false 1, .call true .send] = some s ∧
    s.Blocked .recv ∧ s.waiting true = some .send ∧ s.amount .send = 4096 ∧ ¬s.Independent :=
  ⟨_, rfl, ⟨false, rfl, rfl⟩, rfl, rfl, fun h => nomatch h .recv true ⟨false, rfl, rfl⟩ rfl⟩

end Duplex
/-! ### The listen table and the socket set -/

/-- The locks that a task has, and the one it waits for. Polling and the calls on a socket take the set first, and the calls
on the listen table a slot. -/
inductive NetPhase where
  | idle
  | wantSet (slot : Option UInt16)
  | haveSet (slot : Option UInt16)
  | wantSlot (port : UInt16) (set : Bool)
  | haveSlot (port : UInt16) (set : Bool)
  deriving DecidableEq

/-- Which locks are taken, and for each slot with an entry how many handles its `syn_queue` has. -/
structure ListenTable (ι : Type) where
  set : Bool
  slot : UInt16 → Bool
  queue : UInt16 → Option Nat
  phase : ι → NetPhase

/-- An `accept` that finds no connection leaves what `canAccept` leaves. -/
inductive TableCall where
  | listen
  | canAccept
  | accept
  | unlisten

def TableCall.entry : TableCall → Option Nat → Option Nat
  | .listen, queue => some (queue.getD 0)
  | .canAccept, queue => queue
  | .accept, queue => queue.map (· - 1)
  | .unlisten, _ => none

/-- `packet` is `incoming_tcp_packet`, and `look` a handle's `with_socket` in `accept` and `can_accept`, or its `remove` when
the entry is dropped. -/
inductive NetMove where
  | enterSet
  | enterSlot (port : UInt16)
  | acquire
  | packet (port : UInt16)
  | handled (accepts : Bool)
  | look
  | looked
  | leave (call : TableCall)
  | release

def listenQueueSize : Nat := 512

namespace ListenTable
variable {ι : Type} [DecidableEq ι]

def step : ι × NetMove → ListenTable ι → Option (ListenTable ι)
  | (i, move), s => match move, s.phase i with
    | .enterSet, .idle => some {s with phase := update s.phase i (.wantSet none)}
    | .enterSlot port, .idle => some {s with phase := update s.phase i (.wantSlot port false)}
    | .acquire, .wantSet slot =>
      if s.set then none else some {s with set := true, phase := update s.phase i (.haveSet slot)}
    | .acquire, .wantSlot port set =>
      if s.slot port then none
      else some {s with slot := update s.slot port true, phase := update s.phase i (.haveSlot port set)}
    | .packet port, .haveSet none => some {s with phase := update s.phase i (.wantSlot port true)}
    | .handled accepts, .haveSlot port true => some {s with
        slot := update s.slot port false
        queue := update s.queue port ((s.queue port).map fun n => if accepts && n < listenQueueSize then n + 1 else n)
        phase := update s.phase i (.haveSet none)}
    | .look, .haveSlot port false =>
      if (s.queue port).any (0 < ·) then some {s with phase := update s.phase i (.wantSet (some port))} else none
    | .looked, .haveSet (some port) => some {s with set := false, phase := update s.phase i (.haveSlot port false)}
    | .leave call, .haveSlot port false => some {s with
        slot := update s.slot port false
        queue := update s.queue port (call.entry (s.queue port))
        phase := update s.phase i .idle}
    | .release, .haveSet none => some {s with set := false, phase := update s.phase i .idle}
    | _, _ => none

def machine : Machine (ListenTable ι) (ι × NetMove) := ⟨step⟩

/-- No task with a slot waits for the set while the task that has the set waits for the slot. -/
def Unlocked (s : ListenTable ι) : Prop :=
  ∀ i j port, s.phase i = .wantSet (some port) → s.phase j ≠ .wantSlot port true

/-- No packet comes for a port whose slot waits for the set, and no call turns to the set while a packet waits for its
slot. -/
def Fine : ι × NetMove → ListenTable ι → Prop
  | (i, .packet port), s => s.phase i = .haveSet none → ∀ j, s.phase j ≠ .wantSet (some port)
  | (i, .look), s => ∀ port j, s.phase i = .haveSlot port false → (s.queue port).any (0 < ·) → s.phase j ≠ .wantSlot port true
  | _, _ => True

variable {s t : ListenTable ι} {i : ι} {port : UInt16}

/-- A task that waits for no lock, or for its first, locks nobody up. -/
theorem Unlocked.moves (h : s.Unlocked) {phase : NetPhase} (ht : t.phase = update s.phase i phase)
    (hset : ∀ port, phase ≠ .wantSet (some port)) (hslot : ∀ port, phase ≠ .wantSlot port true) : t.Unlocked := by
  intro j k port hj hk
  rw [ht] at hj hk
  rcases update_cases hj with ⟨-, heq⟩ | ⟨-, hj⟩
  · exact hset port heq
  rcases update_cases hk with ⟨-, heq⟩ | ⟨-, hk⟩
  · exact hslot port heq
  · exact h j k port hj hk

theorem Unlocked.look_iff (h : s.Unlocked) (hi : s.phase i = .haveSlot port false)
    (ht : t.phase = update s.phase i (.wantSet (some port))) : t.Unlocked ↔ ∀ j, s.phase j ≠ .wantSlot port true := by
  unfold Unlocked
  rw [ht]
  refine ⟨fun hun j hj => ?_, fun hno j k p hj hk => ?_⟩
  · have hji : j ≠ i := by
      rintro rfl
      cases hi.symm.trans hj
    exact hun i j port (update_self ..) ((update_of_ne hji ..).trans hj)
  · rcases update_cases hk with ⟨-, heq⟩ | ⟨-, hk⟩
    · cases heq
    rcases update_cases hj with ⟨-, heq⟩ | ⟨-, hj⟩
    · cases heq
      exact hno k hk
    · exact h j k p hj hk

theorem Unlocked.packet_iff (h : s.Unlocked) (hi : s.phase i = .haveSet none)
    (ht : t.phase = update s.phase i (.wantSlot port true)) : t.Unlocked ↔ ∀ j, s.phase j ≠ .wantSet (some port) := by
  unfold Unlocked
  rw [ht]
  refine ⟨fun hun j hj => ?_, fun hno j k p hj hk => ?_⟩
  · have hji : j ≠ i := by
      rintro rfl
      cases hi.symm.trans hj
    exact hun j i port ((update_of_ne hji ..).trans hj) (update_self ..)
  · rcases update_cases hj with ⟨-, heq⟩ | ⟨-, hj⟩
    · cases heq
    rcases update_cases hk with ⟨-, heq⟩ | ⟨-, hk⟩
    · cases heq
      exact hno j hj
    · exact h j k p hj hk

theorem step_unlocked (l : ι × NetMove) (h : s.Unlocked) (hst : machine.step l s = some t) : t.Unlocked ↔ Fine l s := by
  obtain ⟨i, move⟩ := l
  simp only [machine, step] at hst
  split at hst
  case h_5 port hph =>
    cases hst
    rw [h.packet_iff hph rfl, Fine, imp_iff_right hph]
  case h_7 port hph =>
    obtain ⟨hqu, heq⟩ := Option.ite_none_right_eq_some.mp hst
    cases heq
    rw [h.look_iff hph rfl]
    refine ⟨fun hno p j hp _ => ?_, fun hfi j => hfi port j hph hqu⟩
    cases hph.symm.trans hp
    exact hno j
  -- The other moves leave their task with what `Unlocked.moves` asks for.
  case h_3 | h_4 =>
    obtain ⟨-, heq⟩ := Option.ite_none_left_eq_some.mp hst
    cases heq
    exact iff_of_true (h.moves rfl nofun nofun) trivial
  case h_11 => cases hst
  all_goals
    cases hst
    exact iff_of_true (h.moves rfl nofun nofun) trivial

/-- Nobody listens. -/
def start : ListenTable ι := ⟨false, fun _ => false, fun _ => none, fun _ => .idle⟩

/-- **Polling and the listen table do not lock up** along a run just if every step meets `Fine`. -/
theorem lock_order_iff (labels : List (ι × NetMove)) : machine.Always Unlocked start labels ↔ machine.Meets Fine start labels := by
  refine Machine.always_iff_meets (fun _ h => h) (fun l s t h hfi hst => ?_) (fun l s t h hst => ?_) (fun l s hno => ?_)
    labels nofun
  · exact (step_unlocked l h hst).mpr hfi
  · exact (step_unlocked l h hst).mp
  · obtain ⟨i, move⟩ := l
    cases move <;> simp only [machine, step] at hno <;> grind [Fine]

/-- One task listens, the other polls a first packet in, and then `accept` meets the next one. -/
theorem accept_meets_packet : ∃ s : ListenTable Bool, machine.run start
      [(false, .enterSlot 80), (false, .acquire), (false, .leave .listen), (true, .enterSet), (true, .acquire),
        (true, .packet 80), (true, .acquire), (true, .handled true), (true, .release), (false, .enterSlot 80),
        (false, .acquire), (true, .enterSet), (true, .acquire), (true, .packet 80), (false, .look)] = some s ∧
    s.phase false = .wantSet (some 80) ∧ s.phase true = .wantSlot 80 true ∧ s.set = true ∧ s.slot 80 = true ∧ ¬s.Unlocked :=
  ⟨_, rfl, rfl, rfl, rfl, rfl, fun h => h false true 80 rfl rfl⟩

end ListenTable
end StarryX.Net
