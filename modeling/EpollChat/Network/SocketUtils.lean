import EpollChat.Client.Client
import EpollChat.Library.Handles

/-!
# network/socket_utils.cpp - The listening socket

The functions return, next to their result, the system calls they make on descriptors:
those that open one, that bind one to an address, and that close one.  What the kernel
answers is an input.

Main results:

- Theorem {lit}`createServerSocket_eq`: a socket that is opened is returned or closed.
-/

namespace EpollChat

/-- A system call on a descriptor. -/
inductive SystemCall
  /-- {lit}`socket`, {lit}`epoll_create1` or {lit}`accept` returns a descriptor. -/
  | opened (fd : Fd)
  /-- {lit}`bind` gets an address with this port. -/
  | bind (fd : Fd) (port : Nat)
  | close (fd : Fd)
deriving DecidableEq

/-- What a system call does to the ownership of descriptors. -/
def SystemCall.handleOp : SystemCall → List (HandleOp Fd)
  | .opened fd => [.acquire fd]
  | .bind _ _ => []
  | .close fd => [.release fd]

/-- The openings and closings among some system calls. -/
def handleOps (calls : List SystemCall) : List (HandleOp Fd) :=
  calls.flatMap SystemCall.handleOp

/-- Descriptors used by two sequences of calls. -/
theorem handleOps_append (xs ys : List SystemCall) :
    handleOps (xs ++ ys) = handleOps xs ++ handleOps ys :=
  List.flatMap_append

theorem handleOps_close (fds : List Fd) : handleOps (fds.map .close) = fds.map .release := by
  induction fds with
  | nil => rfl
  | cons fd fds ih => exact congrArg (HandleOp.release fd :: ·) ih

/-- The answers of the kernel while the listening socket is set up: the descriptor of
{lit}`socket`, if it returns one, and whether the later calls succeed. -/
structure SocketResults where
  socket : Option Fd
  setsockopt : Bool
  bind : Bool
  listen : Bool
  getFlags : Bool
  setFlags : Bool
deriving DecidableEq

/-- Every call succeeds. -/
def SocketResults.Succeed (r : SocketResults) : Prop :=
  r.socket.isSome ∧ r.setsockopt ∧ r.bind ∧ r.listen ∧ r.getFlags ∧ r.setFlags

instance (r : SocketResults) : Decidable r.Succeed :=
  inferInstanceAs (Decidable (_ ∧ _))

/-- {lit}`set_nonblocking`. -/
def setNonblocking (getFlags setFlags : Bool) : Bool :=
  if !getFlags then false else setFlags

/-- {lit}`htons(port)`: the argument is converted to 16 bits. -/
def htons (port : Int) : Nat :=
  (port % 2 ^ 16).toNat

/-- The returned descriptor is none where the source returns -1. -/
def createServerSocket (port : Int) (r : SocketResults) : Option Fd × List SystemCall :=
  match r.socket with
  | none => (none, [])
  | some serverFd =>
      if !r.setsockopt then (none, [.opened serverFd, .close serverFd])
      else if !r.bind then
        (none, [.opened serverFd, .bind serverFd (htons port), .close serverFd])
      else if !r.listen then
        (none, [.opened serverFd, .bind serverFd (htons port), .close serverFd])
      else if !setNonblocking r.getFlags r.setFlags then
        (none, [.opened serverFd, .bind serverFd (htons port), .close serverFd])
      else (some serverFd, [.opened serverFd, .bind serverFd (htons port)])

/-- A socket that is opened is returned or closed. -/
theorem createServerSocket_eq (port : Int) (r : SocketResults) {serverFd : Fd}
    (hsocket : r.socket = some serverFd) :
    (createServerSocket port r).1 = (if r.Succeed then some serverFd else none) ∧
      handleOps (createServerSocket port r).2 =
        .acquire serverFd :: if r.Succeed then [] else [.release serverFd] := by
  unfold createServerSocket
  simp only [hsocket]
  split_ifs with hsetsockopt hsucceed hbind hsucceed hlisten hsucceed hnonblocking hsucceed <;>
    simp_all [SocketResults.Succeed, setNonblocking, handleOps, SystemCall.handleOp]

/-- Without a socket nothing else is called. -/
theorem createServerSocket_none (port : Int) {r : SocketResults} (hsocket : r.socket = none) :
    createServerSocket port r = (none, []) := by
  unfold createServerSocket
  simp only [hsocket]

end EpollChat
