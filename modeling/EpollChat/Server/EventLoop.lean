import EpollChat.Command.CommandHandler

/-!
# server/chat_server.cpp - Accepting, reading, writing and the event loop

The outcomes of the system calls are inputs of the modelled functions: the
results of {lit}`accept` with those of {lit}`set_nonblocking` and
{lit}`EPOLL_CTL_ADD`, the chunks {lit}`read` delivers and the result that ends
the read loop, and the result of {lit}`write`.

Main results:

- Theorems {lit}`disconnectClient_eq` and {lit}`handleClientWrite_eq`: for an
  owned client neither function faults, and what it does.
-/

namespace EpollChat

/-- {lit}`ChatServer::BUFFER_SIZE` -/
def bufferSize : Nat := 1024

/-- The bytes of one successful {lit}`read`: at least one, and at most what the
buffer holds. -/
structure Chunk where
  bytes : Str
  nonempty : bytes ≠ []
  bounded : bytes.length ≤ bufferSize - 1

/-- The result of {lit}`read` that ends the read loop: -1 with {lit}`EAGAIN` or
{lit}`EWOULDBLOCK`, 0, or -1 with any other error. -/
inductive ReadEnd
  | wouldBlock
  | endOfStream
  | failed
deriving DecidableEq, Repr

/-- The results of {lit}`read` during one call of {lit}`handle_client_read`. -/
structure ReadResults where
  chunks : List Chunk
  last : ReadEnd

/-- The outcome of one round of the accept loop: a descriptor with the outcomes of
{lit}`set_nonblocking` and {lit}`EPOLL_CTL_ADD`, or -1. -/
inductive AcceptResult
  | connection (fd : Fd) (nonblocking added : Bool)
  | wouldBlock
  | failed
deriving DecidableEq, Repr

def nicknamePrompt : Str := str "Enter your nickname: "

namespace ChatServer

variable (s : ChatServer) (client : Fd)

/-! ## {lit}`disconnect_client` and {lit}`handle_client_write` -/

/-- The descriptor is closed twice: by {lit}`close` and by the destructor that
{lit}`erase` runs. -/
def disconnectClient : Except Fault ChatServer := do
  let s ← s.leaveRoom client
  let c ← s.deref client
  let s := if c.nickname ≠ [] then s.sendDisconnectNotification c.nickname else s
  return { s with clients := s.clients.erase c.fd, closed := s.closed ++ [c.fd, c.fd] }

/-- {lit}`handle_client_write`. -/
def handleClientWrite (result : WriteResult) : Except Fault ChatServer := do
  let c ← s.deref client
  let r := c.handleWrite result
  let s := s.updateClient client fun _ => r.2
  if r.1 then return s else s.disconnectClient client

/-! ## {lit}`handle_client_read` -/

/-- The body of the line loop, after the line was cut off {lit}`in_buffer`. -/
def handleLine (line : Str) : Except Fault ChatServer :=
  let line := if line.getLast? = some carriageReturn then line.dropLast else line
  if line = [] then .ok s
  else do
    let line ← trimString line
    s.processMessage client line

/-- The line loop. -/
def handleLines : (fuel : Nat) → ChatServer → Fd → Except Fault ChatServer
  | 0, _, _ => .error .outOfFuel
  | fuel + 1, s, client => do
      let c ← s.deref client
      match c.inBuffer.idxOf? newline with
      | none => return s
      | some pos =>
          let line ← substr c.inBuffer 0 pos
          let s := s.updateClient client fun c => { c with inBuffer := c.inBuffer.drop (pos + 1) }
          let s ← s.handleLine client line
          handleLines fuel s client

/-- {lit}`in_buffer.append(buffer, n)` and the line loop.  Every round of the line
loop shortens the buffer, so its length bounds the number of rounds. -/
def handleChunk (bytes : Str) : Except Fault ChatServer := do
  let s := s.updateClient client fun c => { c with inBuffer := c.inBuffer ++ bytes }
  let c ← s.deref client
  handleLines (c.inBuffer.length + 1) s client

/-- {lit}`handle_client_read`. -/
def handleClientRead (reads : ReadResults) : Except Fault ChatServer := do
  let _ ← s.deref client
  let s ← reads.chunks.foldlM (fun s chunk => s.handleChunk client chunk.bytes) s
  match reads.last with
  | .wouldBlock => return s
  | .endOfStream => s.disconnectClient client
  | .failed => s.disconnectClient client

/-! ## {lit}`accept_new_client` -/

/-- One successful {lit}`accept`. -/
def acceptConnection (fd : Fd) (nonblocking added : Bool) : ChatServer :=
  if !nonblocking then { s with closed := s.closed ++ [fd] }
  else
    let s := { s with clients := s.clients.insert fd (.accepted fd) }
    if !added then { s with clients := s.clients.erase fd, closed := s.closed ++ [fd] }
    else s.queueMessage fd nicknamePrompt

/-- The accept loop, with the results it did not ask for. -/
def acceptNewClient : List AcceptResult → ChatServer → ChatServer × List AcceptResult
  | [], s => (s, [])
  | .wouldBlock :: results, s => (s, results)
  | .failed :: results, s => (s, results)
  | .connection fd nonblocking added :: results, s =>
      acceptNewClient results (s.acceptConnection fd nonblocking added)

end ChatServer

/-! ## The event loop -/

/-- The bits of {lit}`events[i].events` that the loop tests. -/
structure EventFlags where
  epollin : Bool
  epollout : Bool
  epollerr : Bool
  epollhup : Bool
deriving DecidableEq, Repr

/-- One entry of the batch that {lit}`epoll_wait` returns, with the results of the
system calls its handlers make. -/
inductive ReadyEvent
  | server (results : List AcceptResult)
  | client (client : Fd) (flags : EventFlags) (reads : ReadResults) (result : WriteResult)

namespace ChatServer

/-- The {lit}`Client*` that a batch delivered in state {lit}`start` still points to
a client of {lit}`clients_`: the entry is there, and its descriptor was not closed
since, so that the entry is not a later client of the same descriptor. -/
def Owned (start s : ChatServer) (client : Fd) : Prop :=
  client ∈ s.clients ∧ client ∉ s.closed.drop start.closed.length

instance (start s : ChatServer) (client : Fd) : Decidable (Owned start s client) :=
  inferInstanceAs (Decidable (_ ∧ _))

/-- Pass a {lit}`Client*` of the batch to a member function. -/
def pass (start s : ChatServer) (client : Fd)
    (call : ChatServer → Except Fault ChatServer) : Except Fault ChatServer :=
  if Owned start s client then call s else .error .danglingClient

/-- The body of the loop over the batch. -/
def handleEvent (start s : ChatServer) : ReadyEvent → Except Fault ChatServer
  | .server results => .ok (acceptNewClient results s).1
  | .client client flags reads result =>
      if flags.epollerr || flags.epollhup then
        pass start s client fun s => s.disconnectClient client
      else do
        let s ← (if flags.epollin then
            pass start s client fun s => s.handleClientRead client reads
          else .ok s)
        if flags.epollout then
          pass start s client fun s => s.handleClientWrite client result
        else return s

/-- One round of the outer loop of {lit}`run`. -/
def handleBatch (s : ChatServer) (events : List ReadyEvent) : Except Fault ChatServer :=
  events.foldlM (handleEvent s) s

/-- The tables when {lit}`run` starts to wait for events. -/
def started : ChatServer where
  clients := ∅
  rooms := AList.insert lobby (Room.new lobby []) ∅
  closed := []

/-- The outer loop of {lit}`run`, over the batches it gets. -/
def run (batches : List (List ReadyEvent)) : Except Fault ChatServer :=
  batches.foldlM handleBatch started

end ChatServer

/-! ## The effect of a disconnect -/

namespace ChatServer

variable {s : ChatServer} {client : Fd} {c : Session}

/-- What {lit}`send_disconnect_notification` queues to one client. -/
def hearGone (c cl : Session) : Session :=
  if c.nickname ≠ [] ∧ cl.state = .stateChat then
    cl.queueMessage .notification (c.nickname ++ str " left the server\n")
  else cl

/-- The state after {lit}`disconnect_client`. -/
def disconnected (s : ChatServer) (client : Fd) (c : Session) : ChatServer where
  clients := ((s.left client c).clients.mapVal fun _ cl => hearGone c cl).erase client
  rooms := (s.left client c).rooms
  closed := s.closed ++ [client, client]

@[simp] theorem left_closed : (s.left client c).closed = s.closed := by
  unfold left
  split <;> rfl

/-- For an owned client {lit}`disconnect_client` does not fault. -/
theorem disconnectClient_eq (hc : s.clients.lookup client = some c) (hfd : c.fd = client) :
    s.disconnectClient client = .ok (s.disconnected client c) := by
  have hself : ∃ c', (s.left client c).clients.lookup client = some c' ∧
      c'.nickname = c.nickname ∧ c'.fd = client := by
    rw [left_lookup, hc]
    refine ⟨_, rfl, ?_⟩
    split <;> simp [Session.enterRoom, hfd]
  rcases hself with ⟨c', hc', hnickname, hfd'⟩
  simp only [disconnectClient, bind, Except.bind, leaveRoom_eq hc, deref_eq hc', hnickname, hfd']
  by_cases hempty : c.nickname = []
  · have hid : (s.left client c).clients.mapVal (fun _ cl => hearGone c cl) =
        (s.left client c).clients :=
      AList.mapVal_eq_self fun _ cl _ => by simp [hearGone, hempty]
    simp [disconnected, hid, hempty, pure, Except.pure]
  · simp [disconnected, hearGone, sendDisconnectNotification, hempty, pure, Except.pure]

/-- The removed client is gone, the others have heard of it at most. -/
theorem disconnected_lookup (fd : Fd) :
    (s.disconnected client c).clients.lookup fd =
      if fd = client then none
      else (s.clients.lookup fd).map fun cl => hearGone c (s.hearLeft c cl) := by
  by_cases hfd : fd = client
  · subst hfd
    simp [disconnected]
  · rw [if_neg hfd]
    simp only [disconnected, AList.lookup_erase_ne hfd, AList.lookup_mapVal, left_lookup, hfd,
      false_and, if_false]
    cases s.clients.lookup fd <;> rfl

@[simp] theorem disconnected_rooms :
    (s.disconnected client c).rooms =
      if s.Occupies c then vacate s.rooms c.room else s.rooms :=
  left_rooms

/-- The state after {lit}`handle_client_write` when {lit}`write` has not failed. -/
def wrote (s : ChatServer) (client : Fd) (c : Session) (result : WriteResult) : ChatServer :=
  s.updateClient client fun _ => (c.handleWrite result).2

/-- A write is seen in the entry of its client. -/
theorem wrote_lookup_self (hc : s.clients.lookup client = some c) (result : WriteResult) :
    (s.wrote client c result).clients.lookup client = some (c.handleWrite result).2 :=
  lookup_updateClient_self hc

/-- For an owned client {lit}`handle_client_write` does not fault. -/
theorem handleClientWrite_eq (hc : s.clients.lookup client = some c) (hfd : c.fd = client)
    (result : WriteResult) :
    s.handleClientWrite client result =
      .ok (if (c.handleWrite result).1 then s.wrote client c result
        else (s.wrote client c result).disconnected client (c.handleWrite result).2) := by
  have hwrote := wrote_lookup_self hc result
  have hfd' : (c.handleWrite result).2.fd = client := by rw [Session.handleWrite_eq, hfd]
  simp only [handleClientWrite, bind, Except.bind, deref_eq hc]
  by_cases hok : (c.handleWrite result).1 = true
  · rw [if_pos hok, if_pos hok]
    rfl
  · rw [if_neg hok, if_neg hok]
    exact disconnectClient_eq hwrote hfd'

end ChatServer

end EpollChat
