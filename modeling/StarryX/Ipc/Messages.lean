import Mathlib.Algebra.BigOperators.Group.List.Basic
import StarryX.Errno
import StarryX.Library.Machine

/-! System V message queues.

A queue keeps its messages in the order in which they came. `msgrcv` looks for one by the type it
is asked for, takes it out, and only then finds out whether the user's buffer is long enough and
can be written. The queue also counts its messages and their bytes.

`messages_right_iff` is about every run: messages are neither lost nor doubled, an error changes
nothing, and the length returned is what was copied, just as long as every message found fits the
buffer it is for. -/
namespace StarryX.Ipc.Messages
open Library
open Option (some.inj)

/-- `serial` names the call that sent the message, which the source does not record. -/
structure Message where
  mtype : Int
  mtext : List UInt8
  senderPid : Nat
  serial : Nat
  deriving DecidableEq

def Message.size (message : Message) : Nat := message.mtext.length

def msgmax : Nat := 8192

def msgmnb : Nat := 16384

/-- `mode`, `cbytes`, `qnum`, `qbytes`, `lspid` and `lrpid` are of `msqid_ds`. -/
structure MsgQueue where
  messages : List Message
  rmid : Bool
  mode : BitVec 32
  cbytes : Nat
  qnum : Nat
  qbytes : Nat
  lspid : Nat
  lrpid : Nat

namespace MsgQueue

def new (mode : BitVec 32) (pid : Nat) : MsgQueue := ⟨[], false, mode, 0, 0, msgmnb, pid, 0⟩

def canSend (queue : MsgQueue) (size : Nat) : Bool := queue.cbytes + size ≤ queue.qbytes && size ≤ msgmax

def sendMessage (queue : MsgQueue) (message : Message) : LinuxResult MsgQueue :=
  if !queue.canSend message.size then .error .eagain
  else
    .ok {queue with
      messages := queue.messages ++ [message]
      cbytes := queue.cbytes + message.size
      qnum := queue.qnum + 1
      lspid := message.senderPid}

/-- `abs` of a `c_long` that wraps around. -/
def wrappingAbs (n : Int) : Int := if n = -2 ^ 63 then n else n.natAbs

/-- The first of the elements with the least key. -/
def minByKey {α : Type} (key : α → Int) : List α → Option α
  | [] => none
  | a :: rest => some ((minByKey key rest).elim a fun b => if key a ≤ key b then a else b)

/-- The oldest of the lowest type up to a bound, with its position. -/
def lowest (messages : List Message) (bound : Int) : Option (Message × Nat) :=
  minByKey (fun e => e.1.mtype) (messages.zipIdx.filter fun e => e.1.mtype ≤ bound)

def findMessage (queue : MsgQueue) (msgtyp : Int) : Option Nat :=
  if msgtyp = 0 then if queue.messages.isEmpty then none else some 0
  else if 0 < msgtyp then queue.messages.findIdx? fun message => message.mtype = msgtyp
  else (lowest queue.messages (wrappingAbs msgtyp)).map Prod.snd

/-- Takes a message out. Errors are `none`: the callers tell them apart by a flag. -/
def receiveMessage (queue : MsgQueue) (msgtyp : Int) (pid : Nat) : Option (Message × MsgQueue) := do
  let index ← queue.findMessage msgtyp
  let message ← queue.messages[index]?
  some (message, {queue with
    messages := queue.messages.eraseIdx index
    cbytes := queue.cbytes - message.size
    qnum := queue.qnum - 1
    lrpid := pid})

end MsgQueue

/-! ### System calls -/

/-- `text` is what user memory holds after the type; a fault is the error of reading it. -/
structure SendArgs where
  pid : Nat
  msgsz : Nat
  mtype : LinuxResult (BitVec 64)
  text : Nat → UInt8
  textFault : Option LinuxError

/-- The faults are the errors of writing the type and the text. -/
structure ReceiveArgs where
  pid : Nat
  msgsz : Nat
  msgtyp : BitVec 64
  msgflg : BitVec 32
  typeFault : Option LinuxError
  textFault : Option LinuxError

def ipcNowait : BitVec 32 := 0o4000

def msgNoerror : BitVec 32 := 0o10000

def ReceiveArgs.has (args : ReceiveArgs) (flag : BitVec 32) : Bool := args.msgflg &&& flag != 0

/-- What a successful `msgrcv` returns and leaves in user memory. -/
structure Receipt where
  length : Nat
  mtype : Int
  mtext : List UInt8

/-- The owner's permissions, which are all that is looked at. -/
def permRead : BitVec 32 := 0o400

def permWrite : BitVec 32 := 0o200

def may (queue : MsgQueue) (permission : BitVec 32) : Bool := queue.mode &&& permission != 0

/-- The message that is sent, if user memory holds one. -/
def readMessage (args : SendArgs) (serial : Nat) : LinuxResult Message :=
  if msgmax < args.msgsz then .error .einval
  else
    match args.mtype with
    | .error e => .error e
    | .ok mtype =>
      if mtype.toInt ≤ 0 then .error .einval
      else
        match args.textFault with
        | some e => .error e
        | none => .ok ⟨mtype.toInt, (List.range args.msgsz).map args.text, args.pid, serial⟩

/-- The queue that a call is about, if the manager has it. -/
def lookup (queue : Option MsgQueue) (permission : BitVec 32) : LinuxResult MsgQueue :=
  match queue with
  | none => .error .einval
  | some queue =>
    if queue.rmid then .error .eidrm
    else if !may queue permission then .error .eacces
    else .ok queue

def sysMsgsnd (queue : Option MsgQueue) (args : SendArgs) (serial : Nat) : LinuxResult (Message × MsgQueue) := do
  let message ← readMessage args serial
  let queue ← lookup queue permWrite
  let queue ← queue.sendMessage message
  pure (message, queue)

/-- The end of `sys_msgrcv`, when a message has been taken out. -/
def deliver (message : Message) (args : ReceiveArgs) : LinuxResult Receipt :=
  if args.msgsz < message.size ∧ !args.has msgNoerror then .error (.other 7)
  else
    match args.typeFault.or args.textFault with
    | some e => .error e
    | none => .ok ⟨message.size, message.mtype, message.mtext.take (min message.size args.msgsz)⟩

/-- The queue afterwards and the result; the message that a receipt is for comes with it. -/
def sysMsgrcv (queue : Option MsgQueue) (args : ReceiveArgs) : Option MsgQueue × LinuxResult (Receipt × Message) :=
  match lookup queue permRead with
  | .error e => (queue, .error e)
  | .ok found =>
    match found.receiveMessage args.msgtyp.toInt args.pid with
    | none => (queue, .error (if args.has ipcNowait then .other 42 else .eagain))
    | some (message, rest) => (some rest, (deliver message args).map fun receipt => (receipt, message))

/-- `IPC_SET`: user memory gives the mode and the limit. -/
def ctlSet (queue : Option MsgQueue) (mode : BitVec 32) (qbytes : Nat) : Option MsgQueue :=
  queue.map fun queue =>
    if queue.rmid then queue
    else {queue with mode := (queue.mode &&& ~~~0o777) ||| (mode &&& 0o777), qbytes := qbytes}

/-! ### Runs -/

/-- A queue with its history: what has been accepted, received and dropped. -/
structure Msgs where
  queue : Option MsgQueue
  accepted : List Message
  received : List Message
  dropped : List Message

inductive MsgLabel where
  | send (args : SendArgs)
  | receive (args : ReceiveArgs)
  | set (mode : BitVec 32) (qbytes : Nat)
  | remove

namespace Msgs

def queued (s : Msgs) : List Message := s.queue.elim [] MsgQueue.messages

def send (s : Msgs) (args : SendArgs) : Msgs :=
  match sysMsgsnd s.queue args s.accepted.length with
  | .error _ => s
  | .ok (message, queue) => {s with queue := some queue, accepted := s.accepted ++ [message]}

def receive (s : Msgs) (args : ReceiveArgs) : Msgs :=
  let called := sysMsgrcv s.queue args
  match called.2 with
  | .error _ => {s with queue := called.1}
  | .ok (_, message) => {s with queue := called.1, received := s.received ++ [message]}

/-- `IPC_RMID`. The whole call holds the lock of the manager. -/
def remove (s : Msgs) : Msgs := {s with queue := none, dropped := s.dropped ++ s.queued}

def step : MsgLabel → Msgs → Option Msgs
  | .send args, s => some (s.send args)
  | .receive args, s => some (s.receive args)
  | .set mode qbytes, s => some {s with queue := ctlSet s.queue mode qbytes}
  | .remove, s => some s.remove

def machine : Machine Msgs MsgLabel := ⟨step⟩

def initial (mode : BitVec 32) (pid : Nat) : Msgs := ⟨some (.new mode pid), [], [], []⟩

end Msgs

/-! ### Which message is found -/

/-- The message to take: the oldest, the oldest of a type, or the oldest of the lowest type up to a
bound. The queue is in the order of sending (`MsgQueue.Counted`), so the oldest is the first. -/
def Selected (msgtyp : Int) (messages : List Message) (index : Nat) : Prop :=
  if msgtyp = 0 then messages ≠ [] ∧ index = 0
  else ∃ message, messages[index]? = some message ∧
    if 0 < msgtyp then
      message.mtype = msgtyp ∧ ∀ j other, j < index → messages[j]? = some other → other.mtype ≠ msgtyp
    else
      message.mtype ≤ -msgtyp ∧ (∀ other ∈ messages, other.mtype ≤ -msgtyp → message.mtype ≤ other.mtype) ∧
        ∀ j other, j < index → messages[j]? = some other → other.mtype ≠ message.mtype

variable {msg : Message}

open MsgQueue (findMessage lowest minByKey sendMessage wrappingAbs)

section Finding
variable {q : MsgQueue} {msgtyp : Int} {idx : Nat} {msgs : List Message}

theorem wrappingAbs_neg (hneg : msgtyp < 0) (hmin : msgtyp ≠ -2 ^ 63) : wrappingAbs msgtyp = -msgtyp := by
  simp only [wrappingAbs]
  omega

/-- The candidates for a negative type are in the order of their positions. -/
theorem candidates_sorted (bound : Int) :
    (msgs.zipIdx.filter fun e => e.1.mtype ≤ bound).Pairwise fun a b => a.2 < b.2 := by
  apply List.Pairwise.filter
  rw [← List.pairwise_map, List.zipIdx_map_snd]
  exact List.pairwise_lt_range'

variable {bound : Int}

theorem mem_candidates {e : Message × Nat} :
    (e ∈ msgs.zipIdx.filter fun e => e.1.mtype ≤ bound) ↔ msgs[e.2]? = some e.1 ∧ e.1.mtype ≤ bound := by
  simp [List.mem_zipIdx_iff_getElem?]

theorem minByKey_eq_some {α : Type} {key : α → Int} {l : List α} {a : α} (h : minByKey key l = some a) :
    ∃ pre post, l = pre ++ a :: post ∧ (∀ b ∈ pre, key a < key b) ∧ ∀ b ∈ post, key a ≤ key b := by
  induction l generalizing a with
  | nil => cases h
  | cons b rest ih =>
    rw [minByKey, Option.some.injEq] at h
    cases hr : minByKey key rest with
    | none =>
      rw [hr] at h
      subst h
      cases rest with
      | nil => exact ⟨[], [], by simp⟩
      | cons c others => simp [minByKey] at hr
    | some c =>
      obtain ⟨pre, post, rfl, hbef, ha⟩ := ih hr
      rw [hr, Option.elim_some] at h
      split_ifs at h with hle
      · subst h
        refine ⟨[], pre ++ c :: post, rfl, by simp, fun d hd => ?_⟩
        obtain hd | hd := List.mem_append.mp hd
        · exact Int.le_trans hle (Int.le_of_lt (hbef d hd))
        · obtain rfl | hd := List.mem_cons.mp hd
          · exact hle
          · exact Int.le_trans hle (ha d hd)
      · subst h
        refine ⟨b :: pre, post, rfl, fun d hd => ?_, ha⟩
        obtain rfl | hd := List.mem_cons.mp hd
        · exact Int.not_le.mp hle
        · exact hbef d hd

/-- The lowest type of all up to the bound, and the oldest of that type. -/
def IsLowest (messages : List Message) (bound : Int) (message : Message) (index : Nat) : Prop :=
  message.mtype ≤ bound ∧ (∀ other ∈ messages, other.mtype ≤ bound → message.mtype ≤ other.mtype) ∧
    ∀ j other, j < index → messages[j]? = some other → other.mtype ≠ message.mtype

theorem lowest_eq_some (h : lowest msgs bound = some (msg, idx)) :
    msgs[idx]? = some msg ∧ IsLowest msgs bound msg idx := by
  obtain ⟨pre, post, hsp, hbef, ha⟩ := minByKey_eq_some h
  have hso : (msgs.zipIdx.filter fun e => e.1.mtype ≤ bound).Pairwise fun a b => a.2 < b.2 :=
    candidates_sorted bound
  rw [hsp] at hso
  have hla : ∀ e ∈ post, idx < e.2 := (List.pairwise_cons.mp (List.pairwise_append.mp hso).2.1).1
  have hpe : ∀ o j, msgs[j]? = some o → o.mtype ≤ bound →
      (o, j) ∈ pre ∨ (o, j) = (msg, idx) ∨ (o, j) ∈ post := by
    intro o j ho hle
    have hca : (o, j) ∈ msgs.zipIdx.filter fun e => e.1.mtype ≤ bound :=
      mem_candidates.mpr ⟨ho, hle⟩
    rwa [hsp, List.mem_append, List.mem_cons] at hca
  obtain ⟨hget, hbo⟩ := mem_candidates.mp (hsp ▸ List.mem_append_right pre (.head _))
  refine ⟨hget, hbo, fun o ho hle => ?_, fun j o hj ho heq => ?_⟩
  · obtain ⟨j, hj⟩ := List.mem_iff_getElem?.mp ho
    obtain hpl | hpl | hpl := hpe o j hj hle
    · exact Int.le_of_lt (hbef _ hpl)
    · cases hpl
      exact Int.le_refl _
    · exact ha _ hpl
  · obtain hpl | hpl | hpl := hpe o j ho (heq ▸ hbo)
    · exact absurd heq (Int.ne_of_gt (hbef _ hpl))
    · cases hpl
      exact absurd hj (Nat.lt_irrefl _)
    · exact absurd hj (Nat.lt_asymm (hla _ hpl))

theorem lowest_eq_none : lowest msgs bound = none ↔ ∀ msg ∈ msgs, bound < msg.mtype := by
  have hem : ∀ l : List (Message × Nat), minByKey (fun e => e.1.mtype) l = none ↔ l = [] := by
    intro l
    cases l <;> simp [minByKey]
  simp only [lowest, hem, List.filter_eq_nil_iff, decide_eq_true_eq, Int.not_le]
  constructor
  · intro h msg hmem
    obtain ⟨idx, hget⟩ := List.mem_iff_getElem?.mp hmem
    exact h (msg, idx) (List.mem_zipIdx_iff_getElem?.mpr hget)
  · intro h e he
    exact h e.1 (List.mem_of_getElem? (List.mem_zipIdx_iff_getElem?.mp he))

/-- **What is found is what is to be taken**, but for the one type that has no absolute value. -/
theorem selected_of_findMessage (hmin : msgtyp ≠ -2 ^ 63) (h : q.findMessage msgtyp = some idx) :
    Selected msgtyp q.messages idx := by
  unfold findMessage at h
  unfold Selected
  split at h
  next hz =>
    rw [if_pos hz]
    obtain ⟨hem, hin⟩ := Option.ite_none_left_eq_some.mp h
    exact ⟨fun hnil => hem (by simp [hnil]), (some.inj hin).symm⟩
  next hz =>
    rw [if_neg hz]
    split_ifs at h with hpos
    · obtain ⟨hlt, hfo, hfi⟩ := List.findIdx?_eq_some_iff_getElem.mp h
      refine ⟨q.messages[idx], List.getElem?_eq_getElem hlt, ?_⟩
      rw [if_pos hpos]
      refine ⟨by simpa using hfo, fun j o hj ho => ?_⟩
      have hdi := hfi j hj
      rw [(List.getElem?_eq_some_iff.mp ho).2] at hdi
      simpa using hdi
    · rw [wrappingAbs_neg (by omega) hmin] at h
      obtain ⟨⟨msg, pos⟩, hlo, rfl⟩ := Option.map_eq_some_iff.mp h
      obtain ⟨hget, hle⟩ := lowest_eq_some hlo
      refine ⟨msg, hget, ?_⟩
      rw [if_neg hpos]
      exact hle

/-- Nothing is found where nothing is to be taken. -/
theorem not_selected_of_findMessage (hmin : msgtyp ≠ -2 ^ 63) (h : q.findMessage msgtyp = none) (idx : Nat) :
    ¬ Selected msgtyp q.messages idx := by
  intro hsel
  unfold findMessage at h
  unfold Selected at hsel
  split at h
  next hz =>
    rw [if_pos hz] at hsel
    simp [hsel.1] at h
  next hz =>
    rw [if_neg hz] at hsel
    obtain ⟨msg, hget, hsel⟩ := hsel
    have hmem := List.mem_of_getElem? hget
    split_ifs at h with hpos
    · rw [if_pos hpos] at hsel
      have := List.findIdx?_eq_none_iff.mp h msg hmem
      simp [hsel.1] at this
    · rw [if_neg hpos] at hsel
      rw [wrappingAbs_neg (by omega) hmin, Option.map_eq_none_iff, lowest_eq_none] at h
      have := h msg hmem
      omega

theorem Selected.getElem? (h : Selected msgtyp msgs idx) : ∃ msg, msgs[idx]? = some msg := by
  unfold Selected at h
  split at h
  · obtain ⟨hnem, rfl⟩ := h
    cases msgs with
    | nil => exact absurd rfl hnem
    | cons msg rest => exact ⟨msg, rfl⟩
  · obtain ⟨msg, hget, -⟩ := h
    exact ⟨msg, hget⟩

/-- For the least type nothing is found, -/
theorem findMessage_min (hty : ∀ msg ∈ q.messages, 0 < msg.mtype) :
    q.findMessage (-2 ^ 63) = none := by
  unfold findMessage
  rw [if_neg (by decide), if_neg (by decide), Option.map_eq_none_iff, lowest_eq_none]
  intro msg hmem
  have := hty msg hmem
  simp only [wrappingAbs, if_true]
  omega

/-- although there is a message to take in every queue that has one. -/
theorem selected_min (hty : ∀ msg ∈ msgs, msg.mtype < 2 ^ 63) (hnem : msgs ≠ []) :
    ∃ idx, Selected (-2 ^ 63) msgs idx := by
  cases hlowest : lowest msgs (- -2 ^ 63) with
  | none =>
    obtain ⟨msg, hmem⟩ := List.exists_mem_of_ne_nil msgs hnem
    have := lowest_eq_none.mp hlowest msg hmem
    have := hty msg hmem
    omega
  | some found =>
    obtain ⟨hget, hle⟩ := lowest_eq_some hlowest
    refine ⟨found.2, ?_⟩
    refine ⟨found.1, hget, ?_⟩
    exact hle

end Finding

/-! ### What is right -/

/-- A `msgrcv` does what it is for: an error leaves the queue as it is, no message is missed, the
right one is taken, and the length returned is that of the text copied. -/
structure RightReceive (queue : MsgQueue) (args : ReceiveArgs) : Prop where
  unchanged : ∀ e, (sysMsgrcv (some queue) args).2 = .error e → (sysMsgrcv (some queue) args).1 = some queue
  missed : (sysMsgrcv (some queue) args).2 = .error (.other 42) ∨ (sysMsgrcv (some queue) args).2 = .error .eagain →
    ∀ index, ¬ Selected args.msgtyp.toInt queue.messages index
  taken : ∀ receipt message, (sysMsgrcv (some queue) args).2 = .ok (receipt, message) →
    ∃ index, Selected args.msgtyp.toInt queue.messages index ∧ queue.messages[index]? = some message
  copied : ∀ receipt message, (sysMsgrcv (some queue) args).2 = .ok (receipt, message) →
    receipt.length = receipt.mtext.length

/-- What is found fits the buffer, and the buffer can be written. -/
def FineReceive (queue : MsgQueue) (args : ReceiveArgs) : Prop :=
  may queue permRead → (args.msgtyp.toInt = -2 ^ 63 → queue.messages = []) ∧
    ∀ index message, queue.findMessage args.msgtyp.toInt = some index → queue.messages[index]? = some message →
      message.size ≤ args.msgsz ∧ args.typeFault = none ∧ args.textFault = none

/-- The counters are right, the messages are in the order of sending, and types are those of positive `c_long`s. -/
structure MsgQueue.Counted (queue : MsgQueue) : Prop where
  cbytes : queue.cbytes = (queue.messages.map Message.size).sum
  qnum : queue.qnum = queue.messages.length
  kept : queue.rmid = false
  ordered : queue.messages.Pairwise fun a b => a.serial < b.serial
  types : ∀ message ∈ queue.messages, 0 < message.mtype ∧ message.mtype < 2 ^ 63

variable {pid : Nat} {msgtyp : Int}

section Receive
variable {q rest : MsgQueue} {args : ReceiveArgs} {msg : Message}

theorem MsgQueue.receiveMessage_some (h : q.receiveMessage msgtyp pid = some (msg, rest)) :
    ∃ idx, q.findMessage msgtyp = some idx ∧ q.messages[idx]? = some msg ∧ rest = {q with
        messages := q.messages.eraseIdx idx
        cbytes := q.cbytes - msg.size
        qnum := q.qnum - 1
        lrpid := pid} := by
  obtain ⟨idx, hfd, h⟩ := Option.bind_eq_some_iff.mp h
  obtain ⟨found, hget, h⟩ := Option.bind_eq_some_iff.mp h
  cases h
  exact ⟨idx, hfd, hget, rfl⟩

theorem MsgQueue.receiveMessage_none (hmin : msgtyp ≠ -2 ^ 63)
    (h : q.receiveMessage msgtyp pid = none) : q.findMessage msgtyp = none := by
  cases hfd : q.findMessage msgtyp with
  | none => rfl
  | some idx =>
    obtain ⟨msg, hget⟩ := (selected_of_findMessage hmin hfd).getElem?
    simp [receiveMessage, hfd, hget] at h

theorem deliver_fine (hfit : msg.size ≤ args.msgsz) (hty : args.typeFault = none) (hte : args.textFault = none) :
    deliver msg args = .ok ⟨msg.size, msg.mtype, msg.mtext⟩ := by
  have hwh : msg.mtext.take (min msg.size args.msgsz) = msg.mtext :=
    List.take_of_length_le (Nat.le_of_eq (Nat.min_eq_left hfit).symm)
  simp [deliver, Nat.not_lt.mpr hfit, hty, hte, hwh]

/-- A delivery whose length is that of the text is of a whole message. -/
theorem fine_of_deliver {receipt : Receipt} (h : deliver msg args = .ok receipt)
    (hlen : receipt.length = receipt.mtext.length) :
    msg.size ≤ args.msgsz ∧ args.typeFault = none ∧ args.textFault = none := by
  unfold deliver at h
  split at h
  · cases h
  · cases hflt : args.typeFault.or args.textFault with
    | some e =>
      rw [hflt] at h
      cases h
    | none =>
      rw [hflt] at h
      cases h
      simp only [List.length_take] at hlen ⊢
      exact ⟨by omega, Option.or_eq_none_iff.mp hflt⟩

theorem lookup_kept (h : q.Counted) (permission : BitVec 32) :
    lookup (some q) permission = if may q permission then .ok q else .error .eacces := by
  simp only [lookup, h.kept]
  cases may q permission <;> rfl

theorem sysMsgrcv_denied (h : q.Counted) (hmay : ¬ may q permRead) :
    sysMsgrcv (some q) args = (some q, .error .eacces) := by
  simp [sysMsgrcv, lookup_kept h, hmay]

theorem sysMsgrcv_nothing (h : q.Counted) (hmay : may q permRead)
    (hno : q.receiveMessage args.msgtyp.toInt args.pid = none) :
    sysMsgrcv (some q) args = (some q, .error (if args.has ipcNowait then .other 42 else .eagain)) := by
  simp [sysMsgrcv, lookup_kept h, hmay, hno]

theorem sysMsgrcv_found (h : q.Counted) (hmay : may q permRead)
    (hs : q.receiveMessage args.msgtyp.toInt args.pid = some (msg, rest)) :
    sysMsgrcv (some q) args = (some rest, (deliver msg args).map fun receipt => (receipt, msg)) := by
  simp [sysMsgrcv, lookup_kept h, hmay, hs]

/-- A queue that has lost a message is another one. -/
theorem MsgQueue.receiveMessage_ne (h : q.receiveMessage msgtyp pid = some (msg, rest)) :
    rest ≠ q := by
  obtain ⟨idx, -, hget, rfl⟩ := MsgQueue.receiveMessage_some h
  intro heq
  have hlen := congrArg (fun q => q.messages.length) heq
  have hlt := (List.getElem?_eq_some_iff.mp hget).1
  simp only [List.length_eraseIdx, hlt, if_true] at hlen
  omega

/-- Finding nothing is right unless the type is the least one and there is a message. -/
theorem rightReceive_nothing (h : q.Counted) (hmay : may q permRead)
    (hnn : q.receiveMessage args.msgtyp.toInt args.pid = none) : RightReceive q args ↔ FineReceive q args := by
  have hca := sysMsgrcv_nothing h hmay hnn
  have hre : (sysMsgrcv (some q) args).2 = .error (.other 42) ∨ (sysMsgrcv (some q) args).2 = .error .eagain := by
    rw [hca]
    split
    · exact .inl rfl
    · exact .inr rfl
  have hno : args.msgtyp.toInt ≠ -2 ^ 63 → q.findMessage args.msgtyp.toInt = none := fun hmin =>
    MsgQueue.receiveMessage_none hmin hnn
  constructor
  · intro hrt _
    constructor
    · intro hmin
      by_contra hnem
      obtain ⟨idx, hsel⟩ := selected_min (fun msg hmem => (h.types msg hmem).2) hnem
      exact hrt.missed hre idx (hmin ▸ hsel)
    · intro idx msg hfd
      by_cases hmin : args.msgtyp.toInt = -2 ^ 63
      · rw [hmin, findMessage_min fun msg hmem => (h.types msg hmem).1] at hfd
        cases hfd
      · rw [hno hmin] at hfd
        cases hfd
  · intro hf
    refine ⟨fun e _ => by rw [hca], fun _ idx hsel => ?_, ?_, ?_⟩
    · by_cases hmin : args.msgtyp.toInt = -2 ^ 63
      · obtain ⟨msg, hget⟩ := hsel.getElem?
        simp [(hf hmay).1 hmin] at hget
      · exact not_selected_of_findMessage hmin (hno hmin) idx hsel
    · simp [hca]
    · simp [hca]

/-- Taking a message out is right if it can be delivered as a whole. -/
theorem rightReceive_found (h : q.Counted) (hmay : may q permRead)
    (hs : q.receiveMessage args.msgtyp.toInt args.pid = some (msg, rest)) :
    RightReceive q args ↔ FineReceive q args := by
  have hca := sysMsgrcv_found h hmay hs
  have hchg := MsgQueue.receiveMessage_ne hs
  obtain ⟨idx, hfd, hget, -⟩ := MsgQueue.receiveMessage_some hs
  have hmin : args.msgtyp.toInt ≠ -2 ^ 63 := by
    intro hmin
    rw [hmin, findMessage_min fun msg hmem => (h.types msg hmem).1] at hfd
    cases hfd
  constructor
  · intro hrt _
    refine ⟨fun hle => absurd hle hmin, fun index' message' hfi' hget' => ?_⟩
    cases hfd.symm.trans hfi'
    cases hget.symm.trans hget'
    cases hde : deliver msg args with
    | error e =>
      have hun := hrt.unchanged e (by rw [hca, hde]; rfl)
      rw [hca] at hun
      exact absurd (some.inj hun) hchg
    | ok receipt => exact fine_of_deliver hde (hrt.copied receipt msg (by rw [hca, hde]; rfl))
  · intro hf
    obtain ⟨hfit, hty, hte⟩ := (hf hmay).2 idx msg hfd hget
    rw [deliver_fine hfit hty hte] at hca
    refine ⟨?_, ?_, fun receipt message' hok => ⟨idx, selected_of_findMessage hmin hfd, ?_⟩, fun receipt message' hok => ?_⟩
    · simp [hca, Except.map]
    · simp [hca, Except.map]
    · rw [hca] at hok
      cases hok
      exact hget
    · rw [hca] at hok
      cases hok
      rfl

/-- **One `msgrcv`** is right just when what it finds fits the buffer. -/
theorem rightReceive_iff (h : q.Counted) : RightReceive q args ↔ FineReceive q args := by
  by_cases hmay : may q permRead
  · cases hrecv : q.receiveMessage args.msgtyp.toInt args.pid with
    | none => exact rightReceive_nothing h hmay hrecv
    | some found => exact rightReceive_found h hmay hrecv
  · have hca := @sysMsgrcv_denied q args h hmay
    refine iff_of_true ⟨fun e _ => by rw [hca], ?_, ?_, ?_⟩ fun hal => absurd hal hmay
    · simp [hca]
    · simp [hca]
    · simp [hca]

end Receive

/-! ### Whole runs -/

namespace Msgs
variable {s s' : Msgs} {l : MsgLabel} {q : Option MsgQueue} {args : ReceiveArgs} {serial : Nat}

def Counted (s : Msgs) : Prop := ∀ queue, s.queue = some queue →
  queue.Counted ∧ ∀ message ∈ queue.messages, message.serial < s.accepted.length

/-- Each accepted message is in one place: in the queue, received, or dropped. -/
structure Accounted (s : Msgs) : Prop where
  places : s.accepted.Perm (s.queued ++ (s.received ++ s.dropped))
  names : s.accepted.map Message.serial = List.range s.accepted.length

/-- A step that does what it is for. -/
def Right : MsgLabel → Msgs → Prop
  | .receive args, s => ∀ queue, s.queue = some queue → RightReceive queue args
  | _, _ => True

/-- A step that finds nothing it cannot deliver. -/
def Fine : MsgLabel → Msgs → Prop
  | .receive args, s => ∀ queue, s.queue = some queue → FineReceive queue args
  | _, _ => True

theorem right_iff_fine (h : s.Counted) : Right l s ↔ Fine l s := by
  cases l with
  | receive args => exact forall_congr' fun q => forall_congr' fun hqu => rightReceive_iff (h q hqu).1
  | send _ | set _ _ | remove => exact .rfl

/-! #### Sending -/

theorem readMessage_ok {args : SendArgs} (h : readMessage args serial = .ok msg) :
    0 < msg.mtype ∧ msg.mtype < 2 ^ 63 ∧ msg.serial = serial := by
  unfold readMessage at h
  split at h
  · cases h
  split at h
  · cases h
  split at h
  · cases h
  split at h
  · cases h
  · cases h
    rename_i mtype _ hpos _ _
    exact ⟨Int.not_le.mp hpos, mtype.toInt_lt, rfl⟩

theorem lookup_ok {permission : BitVec 32} {found : MsgQueue}
    (h : lookup q permission = .ok found) : q = some found := by
  unfold lookup at h
  split at h
  · cases h
  split at h
  · cases h
  split at h
  · cases h
  · cases h
    rfl

/-- What a successful `msgsnd` has done. -/
theorem sysMsgsnd_ok {args : SendArgs} {next : MsgQueue}
    (h : sysMsgsnd q args serial = .ok (msg, next)) :
    ∃ old, q = some old ∧ readMessage args serial = .ok msg ∧ next = {old with
      messages := old.messages ++ [msg]
      cbytes := old.cbytes + msg.size
      qnum := old.qnum + 1
      lspid := msg.senderPid} := by
  unfold sysMsgsnd at h
  cases hrd : readMessage args serial with
  | error e =>
    rw [hrd] at h
    cases h
  | ok read =>
    rw [hrd] at h
    cases hlk : lookup q permWrite with
    | error e =>
      rw [hlk] at h
      cases h
    | ok old =>
      rw [hlk] at h
      cases hcan : old.canSend read.size with
      | false =>
        simp [bind, Except.bind, sendMessage, hcan] at h
      | true =>
        simp only [bind, Except.bind, sendMessage, hcan] at h
        cases h
        exact ⟨old, lookup_ok hlk, rfl, rfl⟩

theorem Counted.send (h : s.Counted) (args : SendArgs) : (s.send args).Counted := by
  unfold Msgs.send
  cases hsend : sysMsgsnd s.queue args s.accepted.length with
  | error e => exact h
  | ok sent =>
    obtain ⟨msg, next⟩ := sent
    obtain ⟨old, hqu, hrd, rfl⟩ := sysMsgsnd_ok hsend
    obtain ⟨hpos, hlt, hse⟩ := readMessage_ok hrd
    obtain ⟨hold, hbe⟩ := h old hqu
    intro q hn
    cases hn
    refine ⟨⟨by simp [hold.cbytes], by simp [hold.qnum], hold.kept, ?_, fun o ho => ?_⟩, fun o ho => ?_⟩
    · refine List.pairwise_append.mpr ⟨hold.ordered, List.pairwise_singleton _ _, fun a ha b hb => ?_⟩
      rw [List.mem_singleton.mp hb, hse]
      exact hbe a ha
    · obtain ho | ho := List.mem_append.mp ho
      · exact hold.types o ho
      · obtain rfl := List.mem_singleton.mp ho
        exact ⟨hpos, hlt⟩
    · rw [List.length_append]
      obtain ho | ho := List.mem_append.mp ho
      · exact Nat.lt_succ_of_lt (hbe o ho)
      · rw [List.mem_singleton.mp ho, hse]
        exact Nat.lt_succ_self _

theorem Accounted.send (h : s.Accounted) (args : SendArgs) : (s.send args).Accounted := by
  unfold Msgs.send
  cases hsend : sysMsgsnd s.queue args s.accepted.length with
  | error e => exact h
  | ok sent =>
    obtain ⟨msg, next⟩ := sent
    obtain ⟨old, hqu, hrd, rfl⟩ := sysMsgsnd_ok hsend
    obtain ⟨-, -, hse⟩ := readMessage_ok hrd
    have hq : s.queued = old.messages := by simp [queued, hqu]
    have hpl := h.places
    rw [hq] at hpl
    constructor
    · show (s.accepted ++ [msg]).Perm ((old.messages ++ [msg]) ++ (s.received ++ s.dropped))
      rw [List.append_assoc]
      refine (List.perm_append_singleton msg s.accepted).trans ((hpl.cons msg).trans ?_)
      exact List.perm_middle.symm
    · simp [h.names, hse, List.range_succ]

/-! #### Receiving -/

theorem eraseIdx_perm {msgs : List Message} {idx : Nat} (h : msgs[idx]? = some msg) :
    msgs.Perm (msg :: msgs.eraseIdx idx) := by
  obtain ⟨hlt, rfl⟩ := List.getElem?_eq_some_iff.mp h
  exact (List.getElem_cons_eraseIdx_perm hlt).symm

/-- The counters follow a message that is taken out. -/
theorem receiveMessage_counted {q rest : MsgQueue} (h : q.Counted)
    (hs : q.receiveMessage msgtyp pid = some (msg, rest)) : rest.Counted := by
  obtain ⟨idx, -, hget, rfl⟩ := MsgQueue.receiveMessage_some hs
  have hpe := eraseIdx_perm hget
  have hsum := (hpe.map Message.size).sum_eq
  have hlen := hpe.length_eq
  simp only [List.map_cons, List.sum_cons, List.length_cons] at hsum hlen
  refine ⟨?_, ?_, h.kept, h.ordered.sublist (List.eraseIdx_sublist _ _), fun o ho => h.types o (hpe.mem_iff.mpr (.tail _ ho))⟩
  · simp only [h.cbytes]
    omega
  · simp only [h.qnum]
    omega

theorem receive_queue (args : ReceiveArgs) :
    (s.receive args).queue = (sysMsgrcv s.queue args).1 ∧ (s.receive args).accepted = s.accepted := by
  unfold receive
  dsimp only
  split <;> exact ⟨rfl, rfl⟩

theorem Counted.receive (h : s.Counted) (args : ReceiveArgs) : (s.receive args).Counted := by
  intro next hn
  rw [(receive_queue args).1] at hn
  rw [(receive_queue args).2]
  cases hqu : s.queue with
  | none =>
    rw [hqu] at hn
    cases hn
  | some q =>
    rw [hqu] at hn
    have hqu := h q hqu
    by_cases hmay : may q permRead
    · cases hrecv : q.receiveMessage args.msgtyp.toInt args.pid with
      | none =>
        rw [sysMsgrcv_nothing hqu.1 hmay hrecv] at hn
        exact some.inj hn ▸ hqu
      | some found =>
        rw [sysMsgrcv_found hqu.1 hmay hrecv] at hn
        obtain rfl := some.inj hn
        refine ⟨receiveMessage_counted hqu.1 hrecv, fun o ho => hqu.2 o ?_⟩
        obtain ⟨idx, -, -, hre⟩ := MsgQueue.receiveMessage_some hrecv
        rw [hre] at ho
        exact List.mem_of_mem_eraseIdx ho
    · rw [sysMsgrcv_denied hqu.1 hmay] at hn
      exact some.inj hn ▸ hqu

/-- An error that leaves the queue as it is leaves everything as it is. -/
theorem receive_of_error {e : LinuxError} (h : sysMsgrcv s.queue args = (s.queue, .error e)) :
    s.receive args = s := by
  simp [receive, h]

theorem Accounted.receive (h : s.Accounted) (hc : s.Counted) (hf : Fine (.receive args) s) :
    (s.receive args).Accounted := by
  cases hqu : s.queue with
  | none => rwa [receive_of_error (by rw [hqu]; rfl)]
  | some q =>
    have hk := (hc q hqu).1
    by_cases hmay : may q permRead
    · cases hrecv : q.receiveMessage args.msgtyp.toInt args.pid with
      | none => rwa [receive_of_error (by rw [hqu]; exact sysMsgrcv_nothing hk hmay hrecv)]
      | some found =>
        obtain ⟨msg, rest⟩ := found
        have hca := sysMsgrcv_found hk hmay hrecv
        obtain ⟨idx, hfd, hget, rfl⟩ := MsgQueue.receiveMessage_some hrecv
        obtain ⟨hfit, hty, hte⟩ := (hf q hqu hmay).2 idx msg hfd hget
        rw [deliver_fine hfit hty hte] at hca
        have hpl := h.places
        rw [show s.queued = q.messages by simp [queued, hqu]] at hpl
        -- the message goes from the queue to those received
        have hmo : (q.messages ++ (s.received ++ s.dropped)).Perm
            (q.messages.eraseIdx idx ++ ((s.received ++ [msg]) ++ s.dropped)) := by
          refine ((eraseIdx_perm hget).append_right _).trans ?_
          rw [List.append_assoc]
          exact (List.perm_middle.symm).trans (.append_left _ List.perm_middle.symm)
        simp only [Msgs.receive, hqu, hca]
        exact ⟨hpl.trans hmo, h.names⟩
    · rwa [receive_of_error (by rw [hqu]; exact sysMsgrcv_denied hk hmay)]

/-! #### Steps and runs -/

theorem Counted.step (h : s.Counted) (hst : step l s = some s') : s'.Counted := by
  cases l with
  | send args => exact some.inj hst ▸ h.send args
  | receive args => exact some.inj hst ▸ h.receive args
  | set mode qbytes =>
    cases hst
    intro q hqu
    obtain ⟨old, hold, rfl⟩ := Option.map_eq_some_iff.mp hqu
    obtain ⟨hc, hbe⟩ := h old hold
    rw [hc.kept]
    exact ⟨{hc with kept := rfl}, hbe⟩
  | remove =>
    cases hst
    intro q hqu
    cases hqu

theorem Accounted.step (h : s.Accounted) (hc : s.Counted) (hf : Fine l s) (hst : step l s = some s') :
    s'.Accounted := by
  cases l with
  | send args => exact some.inj hst ▸ h.send args
  | receive args => exact some.inj hst ▸ h.receive hc hf
  | set mode qbytes =>
    cases hst
    have hq : queued {s with queue := ctlSet s.queue mode qbytes} = s.queued := by
      cases hqu : s.queue with
      | none => simp [queued, ctlSet, hqu]
      | some q =>
        simp only [queued, ctlSet, hqu, Option.map_some]
        split <;> rfl
    exact ⟨by rw [hq]; exact h.places, h.names⟩
  | remove =>
    cases hst
    refine ⟨h.places.trans ?_, h.names⟩
    show (s.queued ++ (s.received ++ s.dropped)).Perm ([] ++ (s.received ++ (s.dropped ++ s.queued)))
    rw [← List.append_assoc s.received]
    exact List.perm_append_comm

theorem counted_initial (mode : BitVec 32) (pid : Nat) : (initial mode pid).Counted := by
  intro q hqu
  cases hqu
  exact ⟨⟨rfl, rfl, rfl, .nil, nofun⟩, nofun⟩

/-- **Messages are conserved and in order** in a run just when every message that a `msgrcv` finds fits
its buffer, and none asks for the least type. In every run the counters are right and the queue is in the order of sending. -/
theorem messages_right_iff (mode : BitVec 32) (pid : Nat) (labels : List MsgLabel) :
    machine.Always Counted (initial mode pid) labels ∧
      (machine.Meets Right (initial mode pid) labels ∧ machine.Always Accounted (initial mode pid) labels ↔
        machine.Meets Fine (initial mode pid) labels) := by
  have hinit := counted_initial mode pid
  have hst : ∀ label s s', Counted s → machine.step label s = some s' → Counted s' := fun _ _ _ h hst => h.step hst
  have heq := Machine.meets_congr hst (fun label s h => @right_iff_fine s label h) labels hinit
  have hboth : ∀ label s s', Counted s ∧ Accounted s → Fine label s → machine.step label s = some s' →
      Counted s' ∧ Accounted s' :=
    fun _ _ _ h hf hst => ⟨h.1.step hst, h.2.step h.1 hf hst⟩
  constructor
  · exact Machine.always_of_meets (fun label s s' h _ => hst label s s' h) (fun _ h => h) labels hinit
      (Machine.meets_trivial _ _)
  constructor
  · intro h
    exact heq.mp h.1
  · intro hf
    exact ⟨heq.mpr hf,
      Machine.always_of_meets hboth (fun _ h => h.2) labels ⟨hinit, .refl _, rfl⟩ hf⟩

/-- Two bytes of type 1. -/
def twoBytes : SendArgs := ⟨1, 2, .ok 1, fun _ => 7, none⟩

/-- A buffer for one byte. -/
def oneByte (msgflg : BitVec 32) : ReceiveArgs := ⟨1, 1, 0, msgflg, none, none⟩

/-- The call fails with `E2BIG` and the message is nowhere. With `MSG_NOERROR` it returns 2 for one
byte that is copied. -/
theorem message_lost_too_big :
    (∃ s, machine.run (initial 0o600 1) [.send twoBytes, .receive (oneByte 0)] = some s ∧
      s.accepted.length = 1 ∧ s.queued = [] ∧ s.received = [] ∧ s.dropped = [] ∧ ¬ s.Accounted) ∧
    ∃ s queue receipt message, machine.run (initial 0o600 1) [.send twoBytes] = some s ∧
      sysMsgrcv s.queue (oneByte msgNoerror) = (some queue, .ok (receipt, message)) ∧
      receipt.length = 2 ∧ receipt.mtext = [7] := by
  refine ⟨⟨_, rfl, by decide +kernel, by decide +kernel, rfl, rfl, fun h => ?_⟩, _, _, _, _, rfl, rfl, by decide +kernel,
    by decide +kernel⟩
  have hlen := h.places.length_eq
  revert hlen
  decide +kernel

end Msgs

end StarryX.Ipc.Messages
