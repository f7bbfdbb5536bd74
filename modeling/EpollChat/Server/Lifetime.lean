import EpollChat.Network.SocketUtils
import EpollChat.Server.System

/-!
# server/chat_server - From the start of {lit}`run` to the destructor

The life of a server object: the start of {lit}`run` with its three early returns, the
event loop as a run of the transition system, and the destructors of {lit}`ChatServer`
and of the clients it still owns.

Main results:

- Theorem {lit}`systemCalls_eq`: what a step of the event loop opens and closes.
-/

namespace EpollChat

/-- The answers of the kernel before the event loop. -/
structure StartResults where
  socket : SocketResults
  epollCreate : Option Fd
  epollCtl : Bool

/-- {lit}`server_fd_` and {lit}`epoll_fd_`; none stands for -1. -/
structure Descriptors where
  serverFd : Option Fd
  epollFd : Option Fd

/-- {lit}`run` up to the event loop: whether the loop is reached, the two fields, and
the system calls. -/
def startUp (port : Int) (r : StartResults) : Bool × Descriptors × List SystemCall :=
  let created := createServerSocket port r.socket
  match created.1 with
  | none => (false, ⟨none, none⟩, created.2)
  | some serverFd =>
      match r.epollCreate with
      | none => (false, ⟨some serverFd, none⟩, created.2 ++ [.close serverFd])
      | some epollFd =>
          if !r.epollCtl then
            (false, ⟨some serverFd, some epollFd⟩,
              created.2 ++ [.opened epollFd, .close serverFd, .close epollFd])
          else (true, ⟨some serverFd, some epollFd⟩, created.2 ++ [.opened epollFd])

/-- The descriptors an event opens. -/
def Event.opened : Event → List Fd
  | .accept fd _ _ => [fd]
  | .line _ _ => []
  | .write _ _ => []
  | .disconnect _ => []
  | .buffer _ _ => []
  | .rehash _ _ => []

/-- The openings and closings of a step of the event loop. -/
def Transition.systemCalls (t : Transition ChatServer Event) : List SystemCall :=
  t.event.opened.map .opened ++ (t.post.closed.drop t.pre.closed.length).map .close

/-- {lit}`~ChatServer`, with {lit}`~Client` for every client in the table. -/
def ChatServer.destroy (s : ChatServer) (d : Descriptors) : List SystemCall :=
  (d.serverFd.toList ++ d.epollFd.toList ++ s.clients.entries.map fun e => e.2.fd).map .close

/-- The tables before {lit}`run`. -/
def ChatServer.constructed : ChatServer where
  clients := ∅
  rooms := ∅
  closed := []

/-- The system calls of a server object, with the run {lit}`ts` of its event loop to the
state {lit}`s`, if it gets there. -/
def lifetime (port : Int) (r : StartResults) (ts : List (Transition ChatServer Event))
    (s : ChatServer) : List SystemCall :=
  match startUp port r with
  | (false, d, calls) => calls ++ ChatServer.constructed.destroy d
  | (true, d, calls) => calls ++ ts.flatMap Transition.systemCalls ++ s.destroy d

theorem handleOps_opened (fds : List Fd) : handleOps (fds.map .opened) = fds.map .acquire := by
  induction fds with
  | nil => rfl
  | cons fd fds ih => exact congrArg (HandleOp.acquire fd :: ·) ih

/-- What a step opens and closes, from what it adds to the closed descriptors. -/
theorem systemCalls_eq {s s' : ChatServer} {e : Event} {fds : List Fd}
    (hclosed : s'.closed = s.closed ++ fds) :
    handleOps (Transition.systemCalls ⟨s, e, s'⟩) =
      e.opened.map .acquire ++ fds.map .release := by
  rw [Transition.systemCalls, handleOps_append, handleOps_opened, handleOps_close, hclosed,
    List.drop_left]

end EpollChat
