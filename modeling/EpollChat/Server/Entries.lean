import EpollChat.Core.Logger
import EpollChat.Server.System

/-!
# server/chat_server.cpp - What the server logs

Most functions of the server report what they have done to the log, and which system calls have
failed.  A report is an entry here.  Its text may contain details that only the kernel knows:
the address of a peer, or what an error is called.  The failures of {lit}`read`, of
{lit}`accept` and of the calls that set up the server are no steps of the transition system;
their entries may stand anywhere between the others.

Main results:

- Definition {lit}`ChatServer.entriesOf`: the entries of a step, in order.
- Theorem {lit}`eq_of_opening_isPrefix`: every text tells of which kind its entry is.
-/

namespace EpollChat

/-- The bytes of a literal of the source that is not ASCII. -/
def utf8 (literal : String) : Str :=
  literal.toList.flatMap String.utf8EncodeChar

/-! ## Entries -/

/-- The system calls whose failure is logged: those of {lit}`chat_server.cpp`, of
{lit}`client.cpp` and of {lit}`socket_utils.cpp`. -/
inductive FailedCall
  | serverSocketCreate
  | epollCreate
  | addServer
  | epollWait
  | accept
  | nonblockingClient
  | addClient
  | read
  | removeEpollout
  | addEpollout
  | socket
  | setsockopt
  | bind
  | listen
  | nonblockingServer
deriving DecidableEq

/-- The message of the code for a failed call. -/
def FailedCall.name : FailedCall → Str
  | .serverSocketCreate => str "server socket create"
  | .epollCreate => str "epoll_create1"
  | .addServer => str "epoll_ctl ADD server_fd"
  | .epollWait => str "epoll_wait"
  | .accept => str "accept"
  | .nonblockingClient => str "set_nonblocking client_fd"
  | .addClient => str "epoll_ctl ADD client"
  | .read => str "read"
  | .removeEpollout => str "epoll_ctl MOD (remove EPOLLOUT)"
  | .addEpollout => str "epoll_ctl MOD (add EPOLLOUT)"
  | .socket => str "socket"
  | .setsockopt => str "setsockopt"
  | .bind => str "bind"
  | .listen => str "listen"
  | .nonblockingServer => str "set_nonblocking server_fd"

/-- Something that the server logs. -/
inductive Entry
  | running (port : Int)
  | waiting
  | stopped
  | connection (fd : Fd)
  | disconnected (fd : Fd)
  | named (fd : Fd) (nickname : Str)
  | said (nickname text : Str)
  | failed (call : FailedCall)
deriving DecidableEq

namespace Entry

/-- Failures are errors, everything else is information. -/
def level : Entry → Level
  | .failed _ => .err
  | _ => .info

/-- The words that a text begins with. -/
def opening : Entry → Str
  | .running _ => str "[SERVER] Server is running on the port - "
  | .waiting => str "[SERVER] Waiting for connections..."
  | .stopped => str "Server stopped gracefully."
  | .connection _ => str "[SERVER] New connection: "
  | .disconnected _ => str "[SERVER] Client disconnected: fd="
  | .named _ _ => str "[SERVER] Client fd="
  | .said _ _ => utf8 "[SERVER] Сообщение от "
  | .failed call => call.name ++ str ": "

/-- What follows the opening.  The details are the address and the port of the peer, or what
{lit}`strerror` says. -/
def more (detail : Str) : Entry → Str
  | .running port => intToString port
  | .waiting => []
  | .stopped => []
  | .connection fd => detail ++ str " (fd=" ++ intToString fd ++ str ")"
  | .disconnected fd => intToString fd
  | .named fd nickname => intToString fd ++ str " set a nickanem " ++ nickname
  | .said nickname text => nickname ++ str " : " ++ text
  | .failed _ => detail

/-- The text of a log line. -/
def text (entry : Entry) (detail : Str) : Str :=
  entry.opening ++ entry.more detail

/-- The entry is of no step of the transition system. -/
def aside : Entry → Bool
  | .running _ => true
  | .waiting => true
  | .stopped => true
  | .failed call => call != .nonblockingClient && call != .addClient
  | _ => false

end Entry

/-! ## Openings -/

def FailedCall.all : List FailedCall :=
  [.serverSocketCreate, .epollCreate, .addServer, .epollWait, .accept, .nonblockingClient,
    .addClient, .read, .removeEpollout, .addEpollout, .socket, .setsockopt, .bind, .listen,
    .nonblockingServer]

/-- What every kind of entry begins with. -/
def openings : List Str :=
  [(Entry.running 0).opening, Entry.waiting.opening, Entry.stopped.opening,
    (Entry.connection 0).opening, (Entry.disconnected 0).opening, (Entry.named 0 []).opening,
    (Entry.said [] []).opening] ++
  FailedCall.all.map fun call => (Entry.failed call).opening

theorem FailedCall.mem_all (call : FailedCall) : call ∈ all := by
  cases call <;> decide

/-- The opening of every entry is listed. -/
theorem opening_mem (entry : Entry) : entry.opening ∈ openings := by
  rw [openings, List.mem_append]
  cases entry with
  | failed call => exact Or.inr (List.mem_map_of_mem call.mem_all)
  | _ => simp [Entry.opening]

/-- No opening is the beginning of another one. -/
theorem eq_of_opening_isPrefix {entry kind : Entry} (h : kind.opening <+: entry.opening) :
    kind.opening = entry.opening := by
  have hcode : ∀ p ∈ openings, ∀ q ∈ openings, p <+: q → p = q := by decide +kernel
  exact hcode _ (opening_mem kind) _ (opening_mem entry) h

/-! ## The entries of a step -/

/-- {lit}`accept_new_client`, for one connection. -/
def acceptEntries (fd : Fd) (nonblocking added : Bool) : List Entry :=
  if !nonblocking then [.failed .nonblockingClient]
  else .connection fd :: if added then [] else [.failed .addClient]

namespace Session

variable (c : Session)

/-- {lit}`disconnect_client` -/
def disconnectEntries : List Entry :=
  [.disconnected c.fd]

/-- {lit}`handle_client_write` -/
def writeEntries (result : WriteResult) : List Entry :=
  if (c.handleWrite result).1 then [] else c.disconnectEntries

/-- {lit}`CommandHandler::execute`: only {lit}`handle_plain_message` logs anything. -/
def executeEntries (line : Str) : List Entry :=
  match parse line with
  | .error _ => []
  | .ok cmd =>
      match cmd.type with
      | .plainMessage => [.said c.nickname cmd.text]
      | _ => []

/-- {lit}`process_message` -/
def processEntries (line : Str) : List Entry :=
  match c.state with
  | .stateNickname => [.named c.fd line]
  | .stateSetupRoomPassword => []
  | .stateEnterRoomPassword => []
  | .stateChat => c.executeEntries line

end Session

namespace ChatServer

variable (s : ChatServer)

/-- What a function that is called for a client logs. -/
def entriesFor (client : Fd) (f : Session → List Entry) : List Entry :=
  match s.clients.lookup client with
  | none => []
  | some c => f c

/-- What the server logs at an event. -/
def entriesOf : Event → List Entry
  | .accept fd nonblocking added => acceptEntries fd nonblocking added
  | .line client line => s.entriesFor client fun c => c.processEntries line
  | .write client result => s.entriesFor client fun c => c.writeEntries result
  | .disconnect client => s.entriesFor client Session.disconnectEntries
  | .buffer _ _ => []
  | .rehash _ _ => []

variable {s} {client : Fd} {c : Session}

theorem entriesFor_eq (hc : s.clients.lookup client = some c) (f : Session → List Entry) :
    s.entriesFor client f = f c := by
  simp only [entriesFor, hc]

end ChatServer

/-- The entries of a transition. -/
def Transition.entries (t : Transition ChatServer Event) : List Entry :=
  t.pre.entriesOf t.event

end EpollChat
