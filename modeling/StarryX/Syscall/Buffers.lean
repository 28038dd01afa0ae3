import StarryX.Errno
import StarryX.Library.Hoare

/-! The kernel buffers behind a user's lengths.

A system call that moves bytes between a file, or a socket, and user memory goes through a
buffer of the kernel's own. What the call asks the allocator for is logged in `requests`, and
`vec!` panics where a vector would be longer than `isize::MAX`. Everything outside, files,
directories, sockets and user memory, gives answers that are not known beforehand.

`requests_bounded_iff` says for which lengths the buffers stay below a bound, whatever the
answers are: just for those that are below it themselves. -/
namespace StarryX.Syscall
open Library

/-! ### The kernel as these calls see it -/

/-- The bits that these calls look at. -/
structure FileFlags where
  read : Bool
  write : Bool
  path : Bool

inductive FileKind where
  | file
  | directory
  | socket
  | other
  deriving DecidableEq

/-- `XFile`. -/
structure Descriptor where
  kind : FileKind
  flags : FileFlags

/-- `entries` are the lengths of the names that a directory lists. `answers` come from
outside, `asked` of them have been given; `requests` is history, the latest first. -/
structure Kernel where
  descriptors : Int → Option Descriptor
  entries : Int → List Nat
  answers : Nat → LinuxResult Nat
  asked : Nat
  requests : List Nat

abbrev Prog := EStateM Stop Kernel

def isizeMax : Nat := 2 ^ 63 - 1

def fail {α : Type} (e : LinuxError) : Prog α := throw (.error e)

def require (ok : Bool) (e : LinuxError) : Prog Unit := if ok then pure () else fail e

def ask : Prog Nat := fun s =>
  match s.answers s.asked with
  | .ok n => .ok n {s with asked := s.asked + 1}
  | .error e => .error (.error e) {s with asked := s.asked + 1}

def request (n : Nat) : Prog Unit := modify fun s => {s with requests := n :: s.requests}

/-- `vec![0; n]`. -/
def vec (n : Nat) : Prog Unit := do
  request n
  if n ≤ isizeMax then pure () else throw .panic

/-! ### Descriptors -/

def getFileLike (fd : Int) : Prog Descriptor := do
  match (← get).descriptors fd with
  | some descriptor => pure descriptor
  | none => fail .ebadf

namespace Descriptor

def validate (descriptor : Descriptor) (required forbidden : FileFlags → Bool) : Prog Unit :=
  require (required descriptor.flags && !forbidden descriptor.flags) .ebadf

def fromFd (kind : FileKind) (mismatch : FileKind → LinuxError) (fd : Int)
    (required forbidden : FileFlags → Bool) : Prog Descriptor := do
  let descriptor ← getFileLike fd
  descriptor.validate required forbidden
  require (descriptor.kind == kind) (mismatch descriptor.kind)
  pure descriptor

end Descriptor

def fileFromFd : Int → (FileFlags → Bool) → (FileFlags → Bool) → Prog Descriptor :=
  Descriptor.fromFd .file fun kind => if kind = .directory then .eisdir else .espipe

def directoryFromFd : Int → (FileFlags → Bool) → (FileFlags → Bool) → Prog Descriptor :=
  Descriptor.fromFd .directory fun _ => .enotdir

def socketFromFd : Int → (FileFlags → Bool) → (FileFlags → Bool) → Prog Descriptor :=
  Descriptor.fromFd .socket fun _ => .enotsock

def any (_ : FileFlags) : Bool := true

def none (_ : FileFlags) : Bool := false

/-! ### Moving bytes -/

/-- `copy_from_user` and `copy_to_user`. -/
def copyUser : Prog Unit := do
  let _ ← ask
  pure ()

/-- A file, or a socket, moves at most what it is given; the answer says how far it falls
short. -/
def transfer (len : Nat) : Prog Nat := do
  let short ← ask
  pure (len - short)

def smallIoBufferSize : Nat := 1024

def pageIoBufferSize : Nat := 4096

def withIoBuffer (len : Nat) : Prog Unit :=
  if len ≤ smallIoBufferSize then request smallIoBufferSize
  else if len ≤ pageIoBufferSize then request pageIoBufferSize
  else vec len

def readToUser (len : Nat) (read : Nat → Prog Nat) : Prog Nat := do
  withIoBuffer len
  let count ← read len
  copyUser
  pure count

def writeFromUser (len : Nat) (write : Nat → Prog Nat) : Prog Nat := do
  withIoBuffer len
  copyUser
  write len

/-- `read_slice` for `size` bytes each, aligned to 8. -/
def readSlice (address count size : Nat) : Prog Unit := do
  require (count * size ≤ isizeMax) .einval
  if count = 0 then pure ()
  else do
    require (address % 8 == 0) .efault
    vec (count * size)
    copyUser
    request (count * size)

/-- `write_slice` for bytes. -/
def writeSlice (count : Nat) : Prog Unit := do
  require (count ≤ isizeMax) .einval
  vec count
  copyUser

/-- `read` of a value of `size` bytes. -/
def readValue (address size : Nat) : Prog Nat := do
  require (address % size == 0) .efault
  vec size
  ask

def writeValue (address size : Nat) : Prog Unit := do
  require (address % size == 0) .efault
  vec size
  copyUser

def maxStringBytes : Nat := 4096

/-- `read_str`: the string grows to at most its limit. -/
def readStr : Prog Unit := do
  request maxStringBytes
  copyUser

/-! ### The calls -/

namespace Descriptor

def read (descriptor : Descriptor) (len : Nat) : Prog Nat := do
  descriptor.validate (·.read) (·.path)
  transfer len

def write (descriptor : Descriptor) (len : Nat) : Prog Nat := do
  descriptor.validate (·.write) (·.path)
  transfer len

end Descriptor

def sysRead (fd : Int) (len : Nat) : Prog Nat := do
  let file ← getFileLike fd
  readToUser len file.read

def sysWrite (fd : Int) (len : Nat) : Prog Nat := do
  let file ← getFileLike fd
  writeFromUser len file.write

/-- The loop of `readv_impl` and `writev_impl`: it ends with the first short transfer. -/
def vectored (one : Nat → Prog Nat) : List Nat → Nat → Prog Nat
  | [], total => pure total
  | len :: rest, total => do
    let count ← one len
    if count < len then pure (total + count) else vectored one rest (total + count)

/-- `lens` is what user memory holds as the `iov_len` of each `iovec`. -/
def vectoredImpl (one : Nat → Prog Nat) (iov iocnt : Nat) (lens : Nat → Nat) : Prog Nat := do
  require (iocnt ≤ 1024) .einval
  readSlice iov iocnt 16
  vectored one (((List.range iocnt).map lens).filter (0 < ·)) 0

def readvImpl (iov iocnt : Nat) (lens : Nat → Nat) (f : Nat → Prog Nat) : Prog Nat :=
  vectoredImpl (fun len => readToUser len f) iov iocnt lens

def writevImpl (iov iocnt : Nat) (lens : Nat → Nat) (f : Nat → Prog Nat) : Prog Nat :=
  vectoredImpl (fun len => writeFromUser len f) iov iocnt lens

def sysReadv (fd : Int) (iov iocnt : Nat) (lens : Nat → Nat) : Prog Nat := do
  let file ← getFileLike fd
  readvImpl iov iocnt lens file.read

def sysWritev (fd : Int) (iov iocnt : Nat) (lens : Nat → Nat) : Prog Nat := do
  let file ← getFileLike fd
  writevImpl iov iocnt lens file.write

/-- `File::read_at` and `write_at` look at the access the file was opened with. -/
def sysPread64 (fd : Int) (len : Nat) (offset : Int) : Prog Nat := do
  require (0 ≤ offset) .einval
  let file ← fileFromFd fd any (·.path)
  readToUser len fun len => do
    require file.flags.read .ebadf
    transfer len

def sysPwrite64 (fd : Int) (len : Nat) : Prog Nat := do
  let file ← fileFromFd fd (·.write) (·.path)
  writeFromUser len fun len => do
    require file.flags.write .ebadf
    transfer len

/-- `DirBuffer::write_entry`: the offset behind the entry, if it fits. -/
def writeEntry (size offset name : Nat) : Option Nat :=
  let len := (19 + name + 1 + 7) / 8 * 8
  if size - offset < len then Option.none else some (offset + len)

/-- `read_dir` goes on until an entry does not fit. -/
def writeEntries (size : Nat) : List Nat → Nat → Nat
  | [], offset => offset
  | name :: rest, offset =>
    match writeEntry size offset name with
    | some next => writeEntries size rest next
    | Option.none => offset

theorem writeEntries_le (size : Nat) (names : List Nat) :
    ∀ off ≤ size, writeEntries size names off ≤ size := by
  induction names with
  | nil => exact fun off h => h
  | cons name rest ih =>
    intro off h
    unfold writeEntries
    cases he : writeEntry size off name with
    | none => exact h
    | some next =>
      apply ih
      unfold writeEntry at he
      dsimp only at he
      split at he <;> cases he
      omega

/-- `sys_getdents64` once it has its buffer. -/
def getdentsInto (fd : Int) (len : Nat) : Prog Nat := do
  let _ ← directoryFromFd fd any (·.path)
  let _ ← ask
  let written := writeEntries len ((← get).entries fd) 0
  require (written != 0) .einval
  writeSlice written
  pure written

def sysGetdents64 (fd : Int) (len : Nat) : Prog Nat := do
  vec len
  getdentsInto fd len

def readlinkInto (size : Nat) : Prog Nat := do
  let link ← ask
  let count := min size link
  writeSlice count
  pure count

def sysReadlinkat (size : Nat) : Prog Nat := do
  readStr
  vec size
  readlinkInto size

/-- The offset to read from: the user's, or the position of the file. -/
def inOffset (inOff : Nat) : Prog Nat := if inOff = 0 then ask else readValue inOff 8

/-- The first half of `sys_copy_file_range`; nothing where the offset is behind the end. -/
def copyIn (file : Descriptor) (inOff len : Nat) : Prog (Option Nat) := do
  let offset ← inOffset inOff
  let fileLen ← ask
  if fileLen < offset then pure Option.none
  else do
    require file.flags.read .ebadf
    let count ← transfer len
    if inOff = 0 then pure (some count)
    else do
      writeValue inOff 8
      pure (some count)

def copyOut (file : Descriptor) (outOff len : Nat) : Prog Nat := do
  if outOff = 0 then do
    require file.flags.write .ebadf
    transfer len
  else do
    let _ ← readValue outOff 8
    require file.flags.write .ebadf
    let count ← transfer len
    writeValue outOff 8
    pure count

def copyThrough (inFile : Descriptor) (inOff : Nat) (outFile : Descriptor) (outOff len : Nat) : Prog Nat := do
  match ← copyIn inFile inOff len with
  | Option.none => pure 0
  | some newLen => copyOut outFile outOff newLen

def sysCopyFileRange (inFd : Int) (inOff : Nat) (outFd : Int) (outOff len : Nat) : Prog Nat := do
  let inFile ← fileFromFd inFd (·.read) (·.path)
  let outFile ← fileFromFd outFd (·.write) (·.path)
  vec len
  copyThrough inFile inOff outFile outOff len

/-- The length of the address that a datagram came from, or 0. -/
def remoteLen (answer : Nat) : Nat := if answer = 0 then 0 else if answer = 4 then 16 else 28

def writeRemote (addr addrlen remote : Nat) : Prog Unit :=
  if remote = 0 ∨ addr = 0 then pure ()
  else do
    writeSlice remote
    if addrlen = 0 then pure () else writeValue addrlen 4

def recvInto (len addr addrlen : Nat) : Prog Nat := do
  let recv ← transfer len
  let remote ← ask
  writeSlice recv
  writeRemote addr addrlen (remoteLen remote)
  pure recv

def sysRecvfrom (fd : Int) (len addr addrlen : Nat) : Prog Nat := do
  let _ ← socketFromFd fd (·.read) none
  vec len
  recvInto len addr addrlen

inductive Call where
  | read (fd : Int) (len : Nat)
  | write (fd : Int) (len : Nat)
  | readv (fd : Int) (iov iocnt : Nat) (lens : Nat → Nat)
  | writev (fd : Int) (iov iocnt : Nat) (lens : Nat → Nat)
  | pread64 (fd : Int) (len : Nat) (offset : Int)
  | pwrite64 (fd : Int) (len : Nat)
  | getdents64 (fd : Int) (len : Nat)
  | readlinkat (size : Nat)
  | copyFileRange (inFd : Int) (inOff : Nat) (outFd : Int) (outOff len : Nat)
  | recvfrom (fd : Int) (len addr addrlen : Nat)

namespace Call

def run : Call → Prog Nat
  | .read fd len => sysRead fd len
  | .write fd len => sysWrite fd len
  | .readv fd iov iocnt lens => sysReadv fd iov iocnt lens
  | .writev fd iov iocnt lens => sysWritev fd iov iocnt lens
  | .pread64 fd len offset => sysPread64 fd len offset
  | .pwrite64 fd len => sysPwrite64 fd len
  | .getdents64 fd len => sysGetdents64 fd len
  | .readlinkat size => sysReadlinkat size
  | .copyFileRange inFd inOff outFd outOff len => sysCopyFileRange inFd inOff outFd outOff len
  | .recvfrom fd len addr addrlen => sysRecvfrom fd len addr addrlen

/-- The lengths that a call brings, as far as it gets to use them, are all in `A`. -/
def Lengths (A : Nat → Prop) : Call → Prop
  | .read _ len | .write _ len | .pwrite64 _ len | .getdents64 _ len | .readlinkat len
  | .copyFileRange _ _ _ _ len | .recvfrom _ len _ _ => A len
  | .pread64 _ len offset => 0 ≤ offset → A len
  | .readv _ iov iocnt lens | .writev _ iov iocnt lens =>
    iov % 8 = 0 → iocnt ≤ 1024 → ∀ k < iocnt, A (lens k)

/-- The buffers a call asks for from a state on are at most `bound`, and it does not panic. -/
def Bounded (bound : Nat) (call : Call) (s : Kernel) : Prop :=
  match call.run {s with requests := []} with
  | .ok _ t => ∀ n ∈ t.requests, n ≤ bound
  | .error e t => e ≠ .panic ∧ ∀ n ∈ t.requests, n ≤ bound

end Call

/-! ### What a program asks for -/

/-- The requests that came on top of `old` are for sizes in `A`. -/
def Adds (A : Nat → Prop) (old : List Nat) (s : Kernel) : Prop :=
  ∃ new, s.requests = new ++ old ∧ ∀ n ∈ new, A n

/-- A program that asks for sizes in `A` only, and panics only where one of these is too much
for a vector. What it returns is in `Q`. -/
def Asks {α : Type} (A : Nat → Prop) (x : Prog α) (Q : α → Prop) : Prop :=
  ∀ old, Triple (Adds A old) x (fun a s => Q a ∧ Adds A old s)
    (fun e s => Adds A old s ∧ (e = .panic → ∃ n, A n ∧ isizeMax < n))

variable {n len bound : Nat} {mismatch : FileKind → LinuxError} {f one : Nat → Prog Nat} {lens : Nat → Nat} (fd : Int)
  {α : Type} {c : Call}

open Triple (start throw)
open Descriptor (fromFd mk validate)

namespace Asks
variable {α β : Type} {A : Nat → Prop} {Q : α → Prop} {R : β → Prop} {x : Prog α} (desc : Descriptor)

theorem pure {a : α} (h : Q a) : Asks A (pure a) Q := fun _ => Triple.pure fun _ hs => ⟨h, hs⟩

theorem fail {e : LinuxError} : Asks A (fail e) Q := fun _ => throw fun _ hs => ⟨hs, nofun⟩

theorem bind {f : α → Prog β} (hx : Asks A x Q) (hf : ∀ a, Q a → Asks A (f a) R) : Asks A (x >>= f) R := by
  intro old
  apply (hx old).bind
  intro a s hs
  exact hf a hs.1 old s hs.2

theorem ite {c : Prop} [Decidable c] {y : Prog α} (hx : c → Asks A x Q) (hy : ¬ c → Asks A y Q) :
    Asks A (if c then x else y) Q := by
  split
  · exact hx ‹_›
  · exact hy ‹_›

theorem imp {Q' : α → Prop} (hx : Asks A x Q) (h : ∀ a, Q a → Q' a) : Asks A x Q' :=
  fun old => (hx old).post fun a _ hs => ⟨h a hs.1, hs.2⟩

theorem require (ok : Bool) (e : LinuxError) : Asks A (require ok e) fun _ => ok :=
  ite (fun h => pure h) fun _ => fail

theorem get {f : Kernel → Prog α} (hf : ∀ s, Asks A (f s) Q) : Asks A (MonadState.get >>= f) Q :=
  fun old s hs => hf s old s hs

theorem ask : Asks A ask fun _ => True := by
  intro old s hs
  unfold Syscall.ask
  cases s.answers s.asked with
  | ok n => exact ⟨trivial, hs⟩
  | error e => exact ⟨hs, nofun⟩

theorem request (h : A n) : Asks A (request n) fun _ => True := by
  intro old
  apply Triple.modify
  rintro s ⟨new, hnew, hA⟩
  refine ⟨trivial, n :: new, congrArg _ hnew, ?_⟩
  intro m hm
  obtain rfl | hm := List.mem_cons.mp hm
  · exact h
  · exact hA m hm

theorem vec (h : A n) : Asks A (vec n) fun _ => True := by
  apply bind (request h)
  intro _ _
  apply ite
  · exact fun _ => pure trivial
  · intro hlong old
    exact .throw fun _ hs => ⟨hs, fun _ => ⟨n, h, not_le.mp hlong⟩⟩

theorem copyUser : Asks A copyUser fun _ => True := bind ask fun _ _ => pure trivial

theorem transfer (len : Nat) : Asks A (transfer len) (· ≤ len) := bind ask fun _ _ => pure (Nat.sub_le _ _)

theorem getFileLike : Asks A (getFileLike fd) fun _ => True := by
  apply get
  intro s
  cases s.descriptors fd with
  | some desc => exact pure trivial
  | none => exact fail

theorem fromFd {kind : FileKind} (required forbidden : FileFlags → Bool) :
    Asks A (fromFd kind mismatch fd required forbidden) fun _ => True :=
  bind (getFileLike fd) fun _ _ => bind (require _ _) fun _ _ => bind (require _ _) fun _ _ => pure trivial

theorem read (len : Nat) : Asks A (desc.read len) (· ≤ len) :=
  bind (require _ _) fun _ _ => transfer len

theorem write (len : Nat) : Asks A (desc.write len) (· ≤ len) :=
  bind (require _ _) fun _ _ => transfer len

/-! The sizes may be any that go with smaller ones, and with those that are fixed. -/

variable (hle : ∀ m n, m ≤ n → A n → A m) (hfixed : A 16384) {count : Nat}
include hle hfixed

theorem withIoBuffer (h : A len) : Asks A (withIoBuffer len) fun _ => True :=
  ite (fun _ => request (hle _ _ (by decide) hfixed)) fun _ =>
    ite (fun _ => request (hle _ _ (by decide) hfixed)) fun _ => vec h

theorem readToUser (h : A len) (hf : Asks A (f len) (· ≤ len)) : Asks A (readToUser len f) (· ≤ len) :=
  bind (withIoBuffer hle hfixed h) fun _ _ => bind hf fun _ hct => bind copyUser fun _ _ => pure hct

theorem writeFromUser (h : A len) (hf : Asks A (f len) (· ≤ len)) : Asks A (writeFromUser len f) (· ≤ len) :=
  bind (withIoBuffer hle hfixed h) fun _ _ => bind copyUser fun _ _ => hf

omit hle hfixed in
theorem writeSlice (h : A count) : Asks A (writeSlice count) fun _ => True :=
  bind (require _ _) fun _ _ => bind (vec h) fun _ _ => copyUser

variable {address size outOff inOff : Nat} {file : Descriptor}

theorem readValue (h : size ≤ 16384) : Asks A (readValue address size) fun _ => True :=
  bind (require _ _) fun _ _ => bind (vec (hle _ _ h hfixed)) fun _ _ => ask

theorem writeValue (h : size ≤ 16384) : Asks A (writeValue address size) fun _ => True :=
  bind (require _ _) fun _ _ => bind (vec (hle _ _ h hfixed)) fun _ _ => copyUser

omit hle hfixed in
theorem vectored {lens : List Nat} (hone : ∀ len ∈ lens, Asks A (one len) (· ≤ len)) :
    ∀ total, Asks A (vectored one lens total) fun _ => True := by
  induction lens with
  | nil => exact fun total => pure trivial
  | cons len rest ih =>
    intro total
    apply bind (hone len (.head _))
    intro count _
    exact ite (fun _ => pure trivial) fun _ => ih (fun l hl => hone l (.tail _ hl)) _

theorem readSlice (h : count ≤ 1024) :
    Asks A (readSlice address count 16) fun _ => count = 0 ∨ address % 8 = 0 := by
  have hsl : A (count * 16) := hle _ _ (by omega) hfixed
  apply bind (require _ _)
  intro _ _
  apply ite
  · exact fun hz => pure (.inl hz)
  · intro _
    apply bind (require _ _)
    intro _ hal
    exact bind (vec hsl) fun _ _ => bind copyUser fun _ _ =>
      (request hsl).imp fun _ _ => .inr (beq_iff_eq.mp hal)

theorem vectoredImpl {iov iocnt : Nat} (hone : ∀ len, A len → Asks A (one len) (· ≤ len))
    (h : iov % 8 = 0 → iocnt ≤ 1024 → ∀ k < iocnt, A (lens k)) :
    Asks A (vectoredImpl one iov iocnt lens) fun _ => True := by
  apply bind (require _ _)
  intro _ hct
  have hct := of_decide_eq_true hct
  apply bind (readSlice hle hfixed hct)
  intro _ hal
  apply vectored
  intro len hlen
  obtain ⟨k, hk, rfl⟩ := List.mem_map.mp (List.mem_filter.mp hlen).1
  have hk := List.mem_range.mp hk
  obtain hz | hal := hal
  · omega
  · exact hone _ (h hal hct k hk)

omit hfixed in
theorem getdentsInto {fd : Int} (h : A len) : Asks A (getdentsInto fd len) fun _ => True := by
  apply bind (fromFd _ _ _)
  intro _ _
  apply bind ask
  intro _ _
  apply get
  intro s
  apply bind (require _ _)
  intro _ _
  have hwr := hle _ _ (writeEntries_le len (s.entries fd) 0 (Nat.zero_le len)) h
  exact bind (writeSlice hwr) fun _ _ => pure trivial

omit hle hfixed in
theorem readStr (h : A maxStringBytes) : Asks A readStr fun _ => True := bind (request h) fun _ _ => copyUser

omit hfixed in
theorem readlinkInto (h : A size) : Asks A (readlinkInto size) fun _ => True := by
  apply bind ask
  intro link _
  exact bind (writeSlice (hle _ _ (Nat.min_le_left size link) h)) fun _ _ => pure trivial

theorem copyIn : Asks A (copyIn file inOff len) fun _ => True := by
  apply bind
  · exact ite (fun _ => ask) fun _ => readValue hle hfixed (by decide)
  · intro off _
    apply bind ask
    intro fileLen _
    apply ite
    · exact fun _ => pure trivial
    · intro _
      apply bind (require _ _)
      intro _ _
      apply bind (transfer len)
      intro count _
      exact ite (fun _ => pure trivial) fun _ => bind (writeValue hle hfixed (by decide)) fun _ _ => pure trivial

theorem copyOut : Asks A (copyOut file outOff len) fun _ => True := by
  apply ite
  · exact fun _ => bind (require _ _) fun _ _ => (transfer len).imp fun _ _ => trivial
  · intro _
    apply bind (readValue hle hfixed (by decide))
    intro _ _
    apply bind (require _ _)
    intro _ _
    apply bind (transfer len)
    intro _ _
    exact bind (writeValue hle hfixed (by decide)) fun _ _ => pure trivial

theorem copyThrough {inFile outFile : Descriptor} :
    Asks A (copyThrough inFile inOff outFile outOff len) fun _ => True := by
  apply bind (copyIn hle hfixed)
  intro newLen _
  cases newLen with
  | none => exact pure trivial
  | some newLen => exact copyOut hle hfixed

theorem recvInto {addr addrlen : Nat} (h : A len) : Asks A (recvInto len addr addrlen) fun _ => True := by
  apply bind (transfer len)
  intro recv hrc
  apply bind ask
  intro remote _
  apply bind (writeSlice (hle _ _ hrc h))
  intro _ _
  have hre : remoteLen remote ≤ 16384 := by
    unfold remoteLen
    split
    · decide
    · split <;> decide
  apply bind
  · exact ite (fun _ => pure trivial) fun _ => bind (writeSlice (hle _ _ hre hfixed)) fun _ _ =>
      ite (fun _ => pure trivial) fun _ => writeValue hle hfixed (by decide)
  · exact fun _ _ => pure trivial

/-- A call asks for its own lengths, for less, and for what is fixed. -/
theorem run (h : c.Lengths A) : Asks A c.run fun _ => True := by
  have hrd (file : Descriptor) : ∀ len, A len → Asks A (Syscall.readToUser len file.read) (· ≤ len) :=
    fun len h => readToUser hle hfixed h (read file len)
  have hw (file : Descriptor) : ∀ len, A len → Asks A (Syscall.writeFromUser len file.write) (· ≤ len) :=
    fun len h => writeFromUser hle hfixed h (write file len)
  cases c with
  | read fd len => exact bind (getFileLike fd) fun file _ => (hrd file len h).imp fun _ _ => trivial
  | write fd len => exact bind (getFileLike fd) fun file _ => (hw file len h).imp fun _ _ => trivial
  | readv fd iov iocnt lens => exact bind (getFileLike fd) fun file _ => vectoredImpl hle hfixed (hrd file) h
  | writev fd iov iocnt lens => exact bind (getFileLike fd) fun file _ => vectoredImpl hle hfixed (hw file) h
  | pread64 fd len off =>
    apply bind (require _ _)
    intro _ hoff
    apply bind (fromFd _ _ _)
    intro file _
    apply (readToUser hle hfixed (h (of_decide_eq_true hoff)) _).imp fun _ _ => trivial
    exact bind (require _ _) fun _ _ => transfer len
  | pwrite64 fd len =>
    apply bind (fromFd _ _ _)
    intro file _
    apply (writeFromUser hle hfixed h _).imp fun _ _ => trivial
    exact bind (require _ _) fun _ _ => transfer len
  | getdents64 fd len => exact bind (vec h) fun _ _ => getdentsInto hle h
  | readlinkat size =>
    exact bind (readStr (hle _ _ (by decide) hfixed)) fun _ _ => bind (vec h) fun _ _ => readlinkInto hle h
  | copyFileRange inFd inOff outFd outOff len =>
    exact bind (fromFd _ _ _) fun _ _ => bind (fromFd _ _ _) fun _ _ => bind (vec h) fun _ _ => copyThrough hle hfixed
  | recvfrom fd len addr addrlen => exact bind (fromFd _ _ _) fun _ _ => bind (vec h) fun _ _ => recvInto hle hfixed h

end Asks

/-! ### A long length gets its buffer -/

/-- Some buffer was longer than the bound. -/
def Overruns (bound : Nat) (s : Kernel) : Prop := ∃ n ∈ s.requests, bound < n

theorem Asks.overruns {x : Prog α} {Q : α → Prop} (h : Asks (fun _ => True) x Q) :
    Triple (Overruns bound) x (fun _ => Overruns bound) (fun _ => Overruns bound) := by
  have hkp : ∀ s t : Kernel, Overruns bound s → Adds (fun _ => True) s.requests t → Overruns bound t := by
    rintro s t ⟨n, hn, hlong⟩ ⟨new, hnew, -⟩
    exact ⟨n, by rw [hnew]; exact List.mem_append_right _ hn, hlong⟩
  apply start
  intro s hs
  have hx := (h s.requests).resume ⟨[], rfl, nofun⟩
  exact (hx.post fun _ t ht => hkp s t hs ht.2).fail fun _ t ht => hkp s t hs ht.1

variable {P : Kernel → Prop}

theorem vec_overruns (h : bound < n) {f : Unit → Prog α} {Q : α → Prop}
    (hf : Asks (fun _ => True) (f ()) Q) :
    Triple P (vec n >>= f) (fun _ => Overruns bound) (fun _ => Overruns bound) := by
  refine .bind ?_ fun _ => hf.overruns
  have hlog : Triple P (request n) (fun _ => Overruns bound) (fun _ => Overruns bound) :=
    .modify fun _ _ => ⟨n, .head _, h⟩
  refine hlog.bind fun _ => ?_
  split
  · exact .skip
  · exact .throw fun _ hs => hs

/-- Every descriptor is open for everything, and all that is asked for succeeds in full. -/
def Generous (kind : FileKind) (s : Kernel) : Prop :=
  (∀ fd, s.descriptors fd = some ⟨kind, ⟨true, true, false⟩⟩) ∧ ∀ k, s.answers k = .ok 0

namespace Generous
variable {kind : FileKind} {E : Stop → Kernel → Prop} {bound : Nat}

theorem ask : Triple (Generous kind) ask (fun n s => n = 0 ∧ Generous kind s) E := by
  intro s hs
  unfold Syscall.ask
  rw [hs.2]
  exact ⟨rfl, hs⟩

theorem request (n : Nat) : Triple (Generous kind) (request n) (fun _ => Generous kind) E :=
  .modify fun _ hs => hs

theorem vec (h : n ≤ isizeMax) : Triple (Generous kind) (vec n) (fun _ => Generous kind) E := by
  refine (request n).bind fun _ => ?_
  rw [if_pos h]
  exact .skip

theorem copyUser : Triple (Generous kind) copyUser (fun _ => Generous kind) E :=
  ask.bind fun _ => .pure fun _ hs => hs.2

theorem transfer (len : Nat) : Triple (Generous kind) (transfer len) (fun n s => n = len ∧ Generous kind s) E := by
  refine ask.bind fun n => ?_
  apply Triple.pure
  rintro s ⟨rfl, hs⟩
  exact ⟨rfl, hs⟩

theorem getFileLike : Triple (Generous kind) (getFileLike fd)
    (fun file s => file = ⟨kind, ⟨true, true, false⟩⟩ ∧ Generous kind s) E := by
  apply start
  intro s hs
  apply Triple.get_bind
  rw [hs.1 fd]
  apply Triple.pure
  rintro t rfl
  exact ⟨rfl, hs⟩

theorem withIoBuffer (h : len ≤ isizeMax) :
    Triple (Generous kind) (withIoBuffer len) (fun _ => Generous kind) E := by
  unfold Syscall.withIoBuffer
  split
  · exact request _
  · split
    · exact request _
    · exact vec h

theorem readToUser (h : len ≤ isizeMax) : Triple (Generous kind)
    (readToUser len (mk kind ⟨true, true, false⟩).read) (fun n s => n = len ∧ Generous kind s) E := by
  refine (withIoBuffer h).bind fun _ => (transfer len).bind fun n => ?_
  apply start
  rintro s ⟨rfl, hs⟩
  exact (copyUser.resume hs).bind fun _ => .pure fun _ ht => ⟨rfl, ht⟩

theorem writeFromUser (h : len ≤ isizeMax) : Triple (Generous kind)
    (writeFromUser len (mk kind ⟨true, true, false⟩).write) (fun n s => n = len ∧ Generous kind s) E :=
  (withIoBuffer h).bind fun _ => copyUser.bind fun _ => transfer len

theorem fromFd {required forbidden : FileFlags → Bool} (hre : required ⟨true, true, false⟩)
    (hfo : forbidden ⟨true, true, false⟩ = false) :
    Triple (Generous kind) (fromFd kind mismatch fd required forbidden)
      (fun file s => file = ⟨kind, ⟨true, true, false⟩⟩ ∧ Generous kind s) E := by
  refine (getFileLike fd).bind fun file => ?_
  apply start
  rintro s ⟨rfl, hs⟩
  have hva : (required ⟨true, true, false⟩ && !forbidden ⟨true, true, false⟩) := by
    rw [hre, hfo]
    rfl
  unfold validate require
  rw [if_pos hva, if_pos (beq_self_eq_true kind)]
  exact .pure fun t ht => ⟨rfl, ht ▸ hs⟩

end Generous

section Overruns
variable {kind : FileKind} {bound : Nat} {Q : Nat → Prop}

theorem withIoBuffer_long (h : 16384 < len) : withIoBuffer len = vec len := by
  unfold withIoBuffer
  rw [if_neg, if_neg]
  · exact fun hle => absurd (hle.trans (by decide)) (Nat.not_le_of_lt h)
  · exact fun hle => absurd (hle.trans (by decide)) (Nat.not_le_of_lt h)

theorem readToUser_overruns (hb : 16384 ≤ bound) (h : bound < len)
    (hf : Asks (fun _ => True) (f len) Q) :
    Triple P (readToUser len f) (fun _ => Overruns bound) (fun _ => Overruns bound) := by
  unfold readToUser
  rw [withIoBuffer_long (hb.trans_lt h)]
  exact vec_overruns h (hf.bind fun _ _ => Asks.copyUser.bind fun _ _ => .pure trivial)

theorem writeFromUser_overruns (hb : 16384 ≤ bound) (h : bound < len)
    (hf : Asks (fun _ => True) (f len) Q) :
    Triple P (writeFromUser len f) (fun _ => Overruns bound) (fun _ => Overruns bound) := by
  unfold writeFromUser
  rw [withIoBuffer_long (hb.trans_lt h)]
  exact vec_overruns h (Asks.copyUser.bind fun _ _ => hf)

section
variable (hone : ∀ len, Asks (fun _ => True) (one len) (· ≤ len))
  (hfu : ∀ len ≤ bound, Triple (Generous kind) (one len) (fun n s => n = len ∧ Generous kind s) fun _ => Overruns bound)
  (hlong : ∀ len, bound < len → Triple (Generous kind) (one len) (fun _ => Overruns bound) fun _ => Overruns bound)
include hone hfu hlong

/-- The loop goes on behind every length that is met in full, so it comes to the long one. -/
theorem vectored_overruns {lens : List Nat} (h : ∃ len ∈ lens, bound < len) :
    ∀ total, Triple (Generous kind) (vectored one lens total) (fun _ => Overruns bound)
      (fun _ => Overruns bound) := by
  induction lens with
  | nil => exact absurd h nofun
  | cons len rest ih =>
    intro total
    by_cases hlen : bound < len
    · refine (hlong len hlen).bind fun n => Asks.overruns (Q := fun _ => True) ?_
      exact .ite (fun _ => .pure trivial) fun _ =>
        Asks.vectored (fun l _ => hone l) _
    · have hre : ∃ len ∈ rest, bound < len := by
        obtain ⟨l, hl, hbig⟩ := h
        obtain rfl | hl := List.mem_cons.mp hl
        · exact absurd hbig hlen
        · exact ⟨l, hl, hbig⟩
      refine (hfu len (not_lt.mp hlen)).bind fun n => ?_
      apply start
      rintro s ⟨rfl, hs⟩
      rw [if_neg (Nat.lt_irrefl n)]
      exact (ih hre _).resume hs

theorem vectoredImpl_overruns
    {iov iocnt : Nat} (h : ¬ (iov % 8 = 0 → iocnt ≤ 1024 → ∀ k < iocnt, lens k ≤ bound)) :
    Triple (Generous kind) (vectoredImpl one iov iocnt lens) (fun _ => Overruns bound) fun _ => Overruns bound := by
  obtain ⟨hal, hct, k, hk, hbig⟩ : iov % 8 = 0 ∧ iocnt ≤ 1024 ∧ ∃ k, k < iocnt ∧ bound < lens k := by
    apply Classical.byContradiction
    intro hnot
    exact h fun ha hc k hk => not_lt.mp fun hlt => hnot ⟨ha, hc, k, hk, hlt⟩
  have hsi : iocnt * 16 ≤ isizeMax := (Nat.mul_le_mul_right 16 hct).trans (by decide)
  have hmem : lens k ∈ ((List.range iocnt).map lens).filter (0 < ·) := by
    rw [List.mem_filter]
    exact ⟨List.mem_map_of_mem (List.mem_range.mpr hk), decide_eq_true (Nat.zero_lt_of_lt hbig)⟩
  unfold vectoredImpl readSlice require
  rw [if_pos (decide_eq_true hct), if_pos (decide_eq_true hsi), if_neg (by omega), if_pos (by simpa using hal)]
  refine .pure_bind (.bind ?_ fun _ =>
    vectored_overruns hone hfu hlong ⟨lens k, hmem, hbig⟩ 0)
  exact (Generous.vec hsi).bind fun _ => Generous.copyUser.bind fun _ => .request _

end

open Generous (fromFd)

/-- A length above the bound is asked for, in some state. -/
theorem run_overruns (hb : 16384 ≤ bound) (hmax : bound ≤ isizeMax) (h : ¬ c.Lengths (· ≤ bound)) :
    ∃ kind, Triple (Generous kind) c.run (fun _ => Overruns bound) fun _ => Overruns bound := by
  have hall : ∀ m n : Nat, m ≤ n → True → True := fun _ _ _ _ => trivial
  cases c with
  | read fd len =>
    refine ⟨.file, (Generous.getFileLike fd).bind fun file => ?_⟩
    exact readToUser_overruns hb (not_le.mp h) (.read file len)
  | write fd len =>
    refine ⟨.file, (Generous.getFileLike fd).bind fun file => ?_⟩
    exact writeFromUser_overruns hb (not_le.mp h) (.write file len)
  | readv fd iov iocnt lens =>
    refine ⟨.file, (Generous.getFileLike fd).bind fun file => .start ?_⟩
    rintro s ⟨rfl, hs⟩
    refine (vectoredImpl_overruns (fun len => ?_) (fun len hlen => ?_) (fun len hlen => ?_) h).resume hs
    · exact .readToUser hall trivial trivial (.read _ len)
    · exact Generous.readToUser (hlen.trans hmax)
    · exact readToUser_overruns hb hlen (.read _ len)
  | writev fd iov iocnt lens =>
    refine ⟨.file, (Generous.getFileLike fd).bind fun file => .start ?_⟩
    rintro s ⟨rfl, hs⟩
    refine (vectoredImpl_overruns (fun len => ?_) (fun len hlen => ?_) (fun len hlen => ?_) h).resume hs
    · exact .writeFromUser hall trivial trivial (.write _ len)
    · exact Generous.writeFromUser (hlen.trans hmax)
    · exact writeFromUser_overruns hb hlen (.write _ len)
  | pread64 fd len off =>
    obtain ⟨hoff, hlen⟩ := Classical.not_imp.mp h
    refine ⟨.file, ?_⟩
    show Triple _ (require (0 ≤ off) .einval >>= _) _ _
    unfold require
    rw [if_pos (decide_eq_true hoff)]
    refine (fromFd fd rfl rfl).bind fun file => ?_
    exact readToUser_overruns hb (not_le.mp hlen) ((Asks.require _ _).bind fun _ _ => .transfer len)
  | pwrite64 fd len =>
    refine ⟨.file, (fromFd fd rfl rfl).bind fun file => ?_⟩
    exact writeFromUser_overruns hb (not_le.mp h) ((Asks.require _ _).bind fun _ _ => .transfer len)
  | getdents64 fd len => exact ⟨.directory, vec_overruns (not_le.mp h) (.getdentsInto hall trivial)⟩
  | readlinkat size =>
    refine ⟨.file, .bind (Q := fun _ => Generous .file) ?_ fun _ =>
      vec_overruns (not_le.mp h) (.readlinkInto hall trivial)⟩
    exact ((Generous.request _).bind fun _ => Generous.copyUser)
  | copyFileRange inFd inOff outFd outOff len =>
    refine ⟨.file, (fromFd inFd rfl rfl).bind fun inFile => .start ?_⟩
    rintro s ⟨-, hs⟩
    refine ((fromFd outFd rfl rfl).resume hs).bind fun outFile => ?_
    exact vec_overruns (not_le.mp h) (.copyThrough hall trivial)
  | recvfrom fd len addr addrlen =>
    refine ⟨.socket, (fromFd fd rfl rfl).bind fun socket => ?_⟩
    exact vec_overruns (not_le.mp h) (.recvInto hall trivial trivial)

end Overruns

/-- **Lengths and buffers.** For a bound that covers the fixed buffers and that a vector can
have, a call keeps its buffers below the bound in every state, and does not panic, just if the
lengths that it brings are below the bound themselves. -/
theorem requests_bounded_iff (bound : Nat) (hfixed : 16384 ≤ bound) (hmax : bound ≤ isizeMax) (call : Call) :
    (∀ s, call.Bounded bound s) ↔ call.Lengths (· ≤ bound) := by
  constructor
  · intro hbounded
    apply Classical.byContradiction
    intro h
    obtain ⟨kind, hrun⟩ := run_overruns hfixed hmax h
    have hrun := hrun ⟨fun _ => some ⟨kind, ⟨true, true, false⟩⟩, fun _ => [], fun _ => .ok 0, 0, []⟩
      ⟨fun _ => rfl, fun _ => rfl⟩
    have hall := hbounded ⟨fun _ => some ⟨kind, ⟨true, true, false⟩⟩, fun _ => [], fun _ => .ok 0, 0, []⟩
    unfold Call.Bounded at hall
    split at hall <;> rename_i heq <;> rw [heq] at hrun <;> obtain ⟨n, hn, hlong⟩ := hrun
    · exact absurd (hall n hn) (Nat.not_le_of_lt hlong)
    · exact absurd (hall.2 n hn) (Nat.not_le_of_lt hlong)
  · intro h s
    have hrun := Asks.run (fun _ _ => Nat.le_trans) hfixed h [] {s with requests := []} ⟨[], rfl, nofun⟩
    unfold Call.Bounded
    split <;> rename_i heq <;> rw [heq] at hrun
    · obtain ⟨-, new, hnew, hle⟩ := hrun
      rw [hnew, List.append_nil]
      exact hle
    · obtain ⟨⟨new, hnew, hle⟩, hpanic⟩ := hrun
      rw [hnew, List.append_nil]
      refine ⟨fun hp => ?_, hle⟩
      obtain ⟨n, hn, hlong⟩ := hpanic hp
      exact absurd (hn.trans hmax) (Nat.not_le_of_lt hlong)

/-- A file that is open for reading and writing as every descriptor. -/
def anyFile : Kernel :=
  ⟨fun _ => some ⟨.file, ⟨true, true, false⟩⟩, fun _ => [], fun _ => .ok 0, 0, []⟩

theorem requests_bounded_iff_page :
    (∀ s, (Call.read 0 5000).Bounded 16384 s) ∧ ¬ ∀ s, (Call.read 0 20000).Bounded 16384 s := by
  constructor
  · exact (requests_bounded_iff 16384 (by decide) (by decide) _).mpr (by decide : 5000 ≤ 16384)
  · intro h
    exact absurd ((requests_bounded_iff 16384 (by decide) (by decide) _).mp h) (by decide : ¬ 20000 ≤ 16384)

/-- Reading `usize::MAX` bytes asks for a vector that long. -/
theorem read_of_usize_max_panics :
    sysRead 0 (2 ^ 64 - 1) anyFile = .error .panic {anyFile with requests := [2 ^ 64 - 1]} := by
  rfl

end StarryX.Syscall
