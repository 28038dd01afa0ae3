import Mathlib.Data.UInt

/-! Error codes.

`LinuxError` is generated from `errno.h` at build time. The codes the modelled code
names are constructors of their own; a backing may return any other. -/
namespace StarryX

inductive LinuxError where
  | eacces
  | eagain
  | ebadf
  | ebusy
  | echild
  | eexist
  | efault
  | efbig
  | eidrm
  | eintr
  | einval
  | eio
  | eisdir
  | enametoolong
  | enoent
  | enomem
  | enospc
  | enosys
  | enotdir
  | enotempty
  | enotsock
  | eopnotsupp
  | eoverflow
  | eownerdead
  | eperm
  | erange
  | erofs
  | eshutdown
  | espipe
  | esrch
  | etimedout
  | exdev
  | other (code : Nat)
  deriving DecidableEq, Repr

abbrev LinuxResult := Except LinuxError

/-- How a section ends without its value: an error code for the caller, or an `expect`
or `assert` that brings the kernel down. -/
inductive Stop where
  | error (code : LinuxError)
  | panic
  deriving DecidableEq, Repr

theorem Stop.error_ne_panic (code : LinuxError) : Stop.error code ≠ .panic := nofun

end StarryX
