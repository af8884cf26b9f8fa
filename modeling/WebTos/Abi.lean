import Mathlib

/-!
The words shared by the whole development: byte strings, the saturating addition of the
machine's numbers, the error numbers of `abi.rs` that the modelled functions return, and the
guest's sockets.
-/

namespace WebTos

/-- A byte string (`Vec<u8>`, `&[u8]`). -/
abbrev Bytes := List UInt8

/-- A byte-string literal (`b"..."`), for ASCII text. -/
def ascii (s : String) : Bytes := s.toList.map fun c => c.toNat.toUInt8

/-- `u64::saturating_add`. -/
def satAdd (a b : ℕ) : ℕ := min (a + b) (2 ^ 64 - 1)

/-- The error numbers of `abi.rs`, under their own names. -/
inductive Errno where
  | EPERM | ENOENT | ESRCH | EINTR | EIO | ENOEXEC | EBADF | ECHILD | EAGAIN | ENOMEM
  | EACCES | EFAULT | EEXIST | ENODEV | ENOTDIR | EISDIR | EINVAL | EMFILE | ENOTTY | EFBIG
  | ENOSPC | ESPIPE | EPIPE | ERANGE | ENOSYS | ENOTEMPTY | ELOOP
  deriving DecidableEq, Repr

/-- The fallible result of a system call (`SysResult`) or of a filesystem call. -/
abbrev SysResult (α : Type) := Except Errno α

/-! ### Sockets -/

namespace Net

/-- The broker's name of an endpoint. -/
abbrev Handle := UInt64

/-- `SocketAddrV4`. -/
structure SocketAddrV4 where
  ip : UInt32
  port : UInt16
  deriving DecidableEq, Repr

/-- `SocketKind`. -/
inductive SocketKind where
  | tcp
  | udp
  deriving DecidableEq, Repr

/-- A socket of the guest (`NetSocket` without its change counter), with its broker handle once
it has one. -/
structure NetSocket where
  kind : SocketKind
  handle : Option Handle := none
  peer : Option SocketAddrV4 := none
  deriving DecidableEq, Repr

end Net

end WebTos
