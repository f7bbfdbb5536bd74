import EpollChat.Utils.Helper

/-!
# client/client.cpp - A client and its output queue

A {lit}`Client` has the fields of the source.  {lit}`queue_message` and
{lit}`handle_write` return, next to the changed client, the interest mask of the
{lit}`epoll_ctl(MOD)` call they issue, if they issue one.

A {lit}`Session` is a client together with what the kernel and an observer know
about its connection: the interest mask registered last, every text queued so
far with the call it came from, the bytes {lit}`write` has accepted, and the
lines handed to {lit}`process_message`.  No function of the source reads these.

Main results:

- Theorem {lit}`output_integrity`: under every interleaving of queueing and
  writing, no byte is lost, doubled or reordered, and write interest is
  registered exactly while output is pending.
-/

namespace EpollChat

/-- A file descriptor. -/
abbrev Fd := Nat

/-- {lit}`enum class ClientState`. -/
inductive ClientState
  | stateNickname
  | stateChat
  | stateSetupRoomPassword
  | stateEnterRoomPassword
deriving DecidableEq, Repr

/-- {lit}`class Client`. -/
structure Client where
  fd : Fd
  state : ClientState
  nickname : Str
  inBuffer : Str
  outBuffer : Str
  wantWrite : Bool
  room : Str
  connectedRoom : Str
deriving DecidableEq

/-- The constructor {lit}`Client(int _fd)`. -/
def Client.new (fd : Fd) : Client where
  fd := fd
  state := .stateNickname
  nickname := []
  inBuffer := []
  outBuffer := []
  wantWrite := false
  room := []
  connectedRoom := []

/-- The event bits of an {lit}`epoll_ctl` call. -/
structure Interest where
  epollin : Bool
  epollout : Bool
  epollet : Bool
deriving DecidableEq, Repr

/-- {lit}`EPOLLIN | EPOLLET` -/
def Interest.read : Interest :=
  ⟨true, false, true⟩

/-- {lit}`EPOLLIN | EPOLLOUT | EPOLLET` -/
def Interest.readWrite : Interest :=
  ⟨true, true, true⟩

/-- What {lit}`write` returns: a number of accepted bytes, or -1 with
{lit}`EAGAIN` or {lit}`EWOULDBLOCK`, or -1 with any other error. -/
inductive WriteResult
  | accepted (count : Nat)
  | wouldBlock
  | failed
deriving DecidableEq, Repr

/-- {lit}`queue_message`, with the change of the interest it asks for. -/
def Client.queueMessage (c : Client) (msg : Str) : Client × Option Interest :=
  let c := { c with outBuffer := c.outBuffer ++ msg }
  if !c.wantWrite && !c.outBuffer.isEmpty then
    ({ c with wantWrite := true }, some .readWrite)
  else
    (c, none)

/-- The returned flag is the result of the source's function; {lit}`result` is
only asked for when there is something to write. -/
def Client.handleWrite (c : Client) (result : WriteResult) :
    Bool × Client × Option Interest :=
  if c.outBuffer.isEmpty then
    if c.wantWrite then
      (true, { c with wantWrite := false }, some .read)
    else
      (true, c, none)
  else
    match result with
    | .failed => (false, c, none)
    | .wouldBlock => (false, c, none)
    | .accepted count =>
        let c := { c with outBuffer := c.outBuffer.drop count }
        if c.outBuffer.isEmpty && c.wantWrite then
          (true, { c with wantWrite := false }, some .read)
        else
          (true, c, none)

/-! ## Sessions -/

/-- The call a queued text comes from: {lit}`broadcast` with a room name,
{lit}`send_disconnect_notification`, or a handler answering a client. -/
inductive Origin
  | broadcast (roomName : Str)
  | notification
  | direct
deriving DecidableEq

/-- A queued text with its origin. -/
structure Delivery where
  origin : Origin
  text : Str
deriving DecidableEq

/-- A client with the observed history of its connection. -/
structure Session extends Client where
  interest : Interest
  queued : List Delivery
  written : Str
  handed : List Str
deriving DecidableEq

/-- A connection right after {lit}`EPOLL_CTL_ADD`. -/
def Session.accepted (fd : Fd) : Session where
  toClient := .new fd
  interest := .read
  queued := []
  written := []
  handed := []

/-- Carry out the {lit}`epoll_ctl(MOD)` call a client issues, when it succeeds. -/
def Session.epollCtl (c : Session) (call : Option Interest) : Session :=
  { c with interest := call.getD c.interest }

/-- {lit}`queue_message`, with the observer's record. -/
def Session.queueMessage (c : Session) (origin : Origin) (msg : Str) : Session :=
  let r := c.toClient.queueMessage msg
  let c : Session := { c with toClient := r.1, queued := c.queued ++ [⟨origin, msg⟩] }
  c.epollCtl r.2

/-- The bytes a {lit}`write` call accepts from a buffer. -/
def WriteResult.bytes (result : WriteResult) (buffer : Str) : Str :=
  match result with
  | .accepted count => buffer.take count
  | .wouldBlock => []
  | .failed => []

/-- The accepted bytes are the front of the buffer. -/
theorem WriteResult.bytes_append_drop (result : WriteResult) (buffer : Str) :
    result.bytes buffer ++ buffer.drop (result.bytes buffer).length = buffer := by
  cases result with
  | accepted count => simp [WriteResult.bytes, ← List.drop_eq_drop_min]
  | wouldBlock => rfl
  | failed => rfl

/-- {lit}`handle_write`, with the observer's record. -/
def Session.handleWrite (c : Session) (result : WriteResult) : Bool × Session :=
  let r := c.toClient.handleWrite result
  let c : Session :=
    { c with toClient := r.2.1, written := c.written ++ result.bytes c.outBuffer }
  (r.1, c.epollCtl r.2.2)

/-- Record a line handed to {lit}`process_message`. -/
def Session.noteLine (c : Session) (line : Str) : Session :=
  { c with handed := c.handed ++ [line] }

/-! ### What queueing and writing change -/

/-- Queueing appends to the output side and arms the write interest if there is
something to write. -/
theorem Session.queueMessage_eq (c : Session) (origin : Origin) (msg : Str) :
    c.queueMessage origin msg =
      { c with
        outBuffer := c.outBuffer ++ msg
        wantWrite := c.wantWrite || !(c.outBuffer ++ msg).isEmpty
        interest :=
          if !c.wantWrite && !(c.outBuffer ++ msg).isEmpty then .readWrite else c.interest
        queued := c.queued ++ [⟨origin, msg⟩] } := by
  cases hw : c.wantWrite <;> cases he : (c.outBuffer ++ msg).isEmpty <;>
    simp [Session.queueMessage, Session.epollCtl, Client.queueMessage, hw, he]

/-- Writing takes the accepted bytes from the front of the buffer and disarms the
write interest when nothing is left. -/
theorem Session.handleWrite_eq (c : Session) (result : WriteResult) :
    (c.handleWrite result).2 =
      let left := c.outBuffer.drop (result.bytes c.outBuffer).length
      let disarm := left.isEmpty && c.wantWrite
      { c with
        outBuffer := left
        wantWrite := c.wantWrite && !disarm
        interest := if disarm then .read else c.interest
        written := c.written ++ result.bytes c.outBuffer } := by
  rcases c with ⟨⟨fd, state, nickname, inBuffer, outBuffer, wantWrite, room, connectedRoom⟩,
    interest, queued, written, handed⟩
  cases outBuffer with
  | nil =>
      cases wantWrite <;> cases result <;>
        simp [Session.handleWrite, Session.epollCtl, Client.handleWrite, WriteResult.bytes]
  | cons b bs =>
      cases result with
      | accepted count =>
          have hdrop : (b :: bs).drop ((b :: bs).take count).length = (b :: bs).drop count := by
            rw [List.length_take, ← List.drop_eq_drop_min]
          simp only [Session.handleWrite, Session.epollCtl, Client.handleWrite,
            WriteResult.bytes, hdrop]
          cases wantWrite <;> cases ((b :: bs).drop count).isEmpty <;> simp
      | wouldBlock =>
          simp [Session.handleWrite, Session.epollCtl, Client.handleWrite, WriteResult.bytes]
      | failed =>
          simp [Session.handleWrite, Session.epollCtl, Client.handleWrite, WriteResult.bytes]

/-- {lit}`handle_write` reports a failure whenever {lit}`write` returns -1. -/
theorem Session.handleWrite_false_iff {c : Session} {result : WriteResult} :
    (c.handleWrite result).1 = false ↔
      c.outBuffer ≠ [] ∧ (result = .failed ∨ result = .wouldBlock) := by
  have hfst : (c.handleWrite result).1 = (c.toClient.handleWrite result).1 := rfl
  rw [hfst]
  unfold Client.handleWrite
  by_cases hempty : c.outBuffer = []
  · cases c.wantWrite <;> simp [hempty]
  · cases result with
    | failed => simp [hempty]
    | wouldBlock => simp [hempty]
    | accepted count =>
        simp only [List.isEmpty_iff, hempty, if_false]
        split <;> simp

section Queue

variable (c : Session) (origin : Origin) (msg : Str)

@[simp] theorem Session.queueMessage_fd : (c.queueMessage origin msg).fd = c.fd := by
  rw [queueMessage_eq]

@[simp] theorem Session.queueMessage_state : (c.queueMessage origin msg).state = c.state := by
  rw [queueMessage_eq]

@[simp] theorem Session.queueMessage_nickname :
    (c.queueMessage origin msg).nickname = c.nickname := by
  rw [queueMessage_eq]

@[simp] theorem Session.queueMessage_inBuffer :
    (c.queueMessage origin msg).inBuffer = c.inBuffer := by
  rw [queueMessage_eq]

@[simp] theorem Session.queueMessage_outBuffer :
    (c.queueMessage origin msg).outBuffer = c.outBuffer ++ msg := by
  rw [queueMessage_eq]

@[simp] theorem Session.queueMessage_room : (c.queueMessage origin msg).room = c.room := by
  rw [queueMessage_eq]

@[simp] theorem Session.queueMessage_connectedRoom :
    (c.queueMessage origin msg).connectedRoom = c.connectedRoom := by
  rw [queueMessage_eq]

@[simp] theorem Session.queueMessage_queued :
    (c.queueMessage origin msg).queued = c.queued ++ [⟨origin, msg⟩] := by
  rw [queueMessage_eq]

end Queue

/-! ### Sequences of queued texts -/

/-- Queue several texts, in order. -/
def Session.queueAll (c : Session) (ds : List Delivery) : Session :=
  ds.foldl (fun c d => c.queueMessage d.origin d.text) c

@[simp] theorem Session.queueAll_nil (c : Session) : c.queueAll [] = c :=
  rfl

theorem Session.queueAll_cons (c : Session) (d : Delivery) (ds : List Delivery) :
    c.queueAll (d :: ds) = (c.queueMessage d.origin d.text).queueAll ds :=
  rfl

theorem Session.queueAll_append (c : Session) (ds es : List Delivery) :
    c.queueAll (ds ++ es) = (c.queueAll ds).queueAll es := by
  simp [queueAll]

/-- Queueing changes the output side of a client only. -/
theorem Session.queueAll_frame (c : Session) (ds : List Delivery) :
    (c.queueAll ds).fd = c.fd ∧ (c.queueAll ds).state = c.state ∧
      (c.queueAll ds).nickname = c.nickname ∧ (c.queueAll ds).inBuffer = c.inBuffer ∧
      (c.queueAll ds).room = c.room ∧ (c.queueAll ds).connectedRoom = c.connectedRoom ∧
      (c.queueAll ds).outBuffer = c.outBuffer ++ ds.flatMap Delivery.text ∧
      (c.queueAll ds).queued = c.queued ++ ds := by
  induction ds generalizing c with
  | nil => simp
  | cons d ds ih =>
      have h := ih (c.queueMessage d.origin d.text)
      simpa [queueAll_cons] using h

/-- One client has only had texts queued. -/
def Session.Extends (c c' : Session) : Prop :=
  ∃ ds, c' = c.queueAll ds

theorem Session.Extends.refl (c : Session) : c.Extends c :=
  ⟨[], rfl⟩

theorem Session.Extends.trans {c c' c'' : Session} (h : c.Extends c') (h' : c'.Extends c'') :
    c.Extends c'' := by
  rcases h with ⟨ds, rfl⟩
  rcases h' with ⟨es, rfl⟩
  exact ⟨ds ++ es, (c.queueAll_append ds es).symm⟩

/-- Queueing a text queues text at most. -/
theorem Session.extends_queueMessage (c : Session) (origin : Origin) (msg : Str) :
    c.Extends (c.queueMessage origin msg) :=
  ⟨[⟨origin, msg⟩], rfl⟩

/-! ## Output integrity -/

/-- The output side of a connection is consistent: what was written and what is
still buffered make up what was queued, and the write interest of the client and
of the kernel is armed exactly while something is buffered. -/
structure Session.OutputIntact (c : Session) : Prop where
  stream : c.written ++ c.outBuffer = c.queued.flatMap Delivery.text
  armed : c.wantWrite = true ↔ c.outBuffer ≠ []
  registered : c.interest.epollout = true ↔ c.wantWrite = true

/-- A new connection has nothing to write. -/
theorem Session.accepted_outputIntact (fd : Fd) : (Session.accepted fd).OutputIntact where
  stream := rfl
  armed := by simp [Session.accepted, Client.new]
  registered := by simp [Session.accepted, Client.new, Interest.read]

/-- {lit}`want_write` is set exactly while output is pending. -/
def Session.FlagFollowsBuffer (c : Session) : Prop :=
  c.wantWrite = true ↔ c.outBuffer ≠ []

theorem Session.FlagFollowsBuffer.queueMessage {c : Session} (h : c.FlagFollowsBuffer)
    (origin : Origin) (msg : Str) : (c.queueMessage origin msg).FlagFollowsBuffer := by
  rw [FlagFollowsBuffer, queueMessage_eq]
  cases hw : c.wantWrite with
  | true => simp [h.1 hw]
  | false => simp

theorem Session.FlagFollowsBuffer.handleWrite {c : Session} (h : c.FlagFollowsBuffer)
    (result : WriteResult) : (c.handleWrite result).2.FlagFollowsBuffer := by
  rw [FlagFollowsBuffer, handleWrite_eq]
  cases hw : c.wantWrite with
  | true => cases hleft : c.outBuffer.drop (result.bytes c.outBuffer).length <;> simp
  | false =>
      have hempty : c.outBuffer = [] := by simpa [FlagFollowsBuffer, hw] using h
      simp [hempty]

/-- Queueing a text keeps the output side consistent. -/
theorem Session.OutputIntact.queueMessage {c : Session} (h : c.OutputIntact)
    (origin : Origin) (msg : Str) : (c.queueMessage origin msg).OutputIntact := by
  refine ⟨?_, FlagFollowsBuffer.queueMessage h.armed origin msg, ?_⟩ <;> rw [queueMessage_eq]
  · simp [← h.stream]
  · have hregistered := h.registered
    cases hw : c.wantWrite <;> cases he : (c.outBuffer ++ msg).isEmpty <;>
      simp_all [Interest.readWrite]

/-- A write event keeps the output side consistent, whatever {lit}`write` does. -/
theorem Session.OutputIntact.handleWrite {c : Session} (h : c.OutputIntact)
    (result : WriteResult) : (c.handleWrite result).2.OutputIntact := by
  refine ⟨?_, FlagFollowsBuffer.handleWrite h.armed result, ?_⟩ <;> rw [handleWrite_eq]
  · rw [← h.stream, List.append_assoc, result.bytes_append_drop]
  · have harmed := h.armed
    have hregistered := h.registered
    simp only
    cases hw : c.wantWrite <;>
      cases (c.outBuffer.drop (result.bytes c.outBuffer).length).isEmpty <;>
      simp_all [Interest.read]

/-- One call on the output side of a client. -/
inductive OutputCall
  | queueMessage (origin : Origin) (msg : Str)
  | handleWrite (result : WriteResult)

/-- The client after a call. -/
def Session.call (c : Session) : OutputCall → Session
  | .queueMessage origin msg => c.queueMessage origin msg
  | .handleWrite result => (c.handleWrite result).2

/-- The text a call queues. -/
def OutputCall.text : OutputCall → Str
  | .queueMessage _ msg => msg
  | .handleWrite _ => []

theorem Session.FlagFollowsBuffer.call {c : Session} (h : c.FlagFollowsBuffer)
    (call : OutputCall) : (c.call call).FlagFollowsBuffer := by
  cases call with
  | queueMessage origin msg => exact h.queueMessage origin msg
  | handleWrite result => exact h.handleWrite result

/-- Calls in any order keep the output consistent. -/
theorem Session.OutputIntact.calls {c : Session} (h : c.OutputIntact)
    (calls : List OutputCall) : (calls.foldl Session.call c).OutputIntact := by
  induction calls generalizing c with
  | nil => exact h
  | cons call calls ih =>
      apply ih
      cases call with
      | queueMessage origin msg => exact h.queueMessage origin msg
      | handleWrite result => exact h.handleWrite result

/-- The log of a connection is what its calls have queued. -/
theorem Session.queued_calls (c : Session) (calls : List OutputCall) :
    (calls.foldl Session.call c).queued.flatMap Delivery.text =
      c.queued.flatMap Delivery.text ++ calls.flatMap OutputCall.text := by
  induction calls generalizing c with
  | nil => simp
  | cons call calls ih =>
      rw [List.foldl_cons, ih]
      cases call with
      | queueMessage origin msg => simp [Session.call, OutputCall.text]
      | handleWrite result => simp [Session.call, OutputCall.text, handleWrite_eq]

/-- From its accept on, whatever texts are queued and whatever {lit}`write`
accepts in between: the accepted bytes followed by the buffer are the queued
texts in order, {lit}`want_write` says whether the buffer is nonempty, and the
registered interest contains {lit}`EPOLLOUT` exactly when {lit}`want_write` is
set. -/
theorem output_integrity (fd : Fd) (calls : List OutputCall) :
    let c := calls.foldl Session.call (Session.accepted fd)
    c.written ++ c.outBuffer = calls.flatMap OutputCall.text ∧
      (c.wantWrite = true ↔ c.outBuffer ≠ []) ∧
      (c.interest.epollout = true ↔ c.wantWrite = true) := by
  have h := (Session.accepted_outputIntact fd).calls calls
  refine ⟨?_, h.armed, h.registered⟩
  rw [h.stream, Session.queued_calls]
  rfl

end EpollChat
