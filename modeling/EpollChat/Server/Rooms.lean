import EpollChat.Library.AssocMap
import EpollChat.Client.Client

/-!
# server/chat_server.cpp - Rooms, broadcast, join and leave

The state of {lit}`ChatServer` is its two tables: {lit}`clients_`, keyed by
descriptor, and {lit}`rooms_`, keyed by room name.  A {lit}`Client*` is the
descriptor its client is stored under; {lit}`deref` faults when the table has no
such client any more.  Every {lit}`rooms_[...]` that is followed by
{lit}`->` and every {lit}`rooms_.at` faults on a missing room.

Main results:

- Theorems {lit}`joinRoom_eq` and {lit}`leaveRoom_eq`: for an owned client
  neither function faults, and its effect is a composition of total updates.
- Theorems {lit}`lookup_vacate_self` and {lit}`lookup_occupy_self`: a departure
  and an arrival touch the entry of their own room only.
-/

namespace EpollChat

/-- {lit}`class Room`; {lit}`user_count_` never leaves the range of {lit}`int`,
because it counts descriptors. -/
structure Room where
  name : Str
  password : Str
  userCount : Int
deriving DecidableEq

/-- The constructor {lit}`Room(name, password)`. -/
def Room.new (name password : Str) : Room :=
  ⟨name, password, 0⟩

/-- {lit}`set_password`. -/
def Room.setPassword (r : Room) (password : Str) : Room :=
  { r with password := password }

/-- {lit}`verification_password`. -/
def Room.verificationPassword (r : Room) (password : Str) : Bool :=
  r.password == password

/-- {lit}`increase_user_counter`. -/
def Room.increaseUserCounter (r : Room) : Room :=
  { r with userCount := r.userCount + 1 }

/-- {lit}`decrease_user_counter`. -/
def Room.decreaseUserCounter (r : Room) : Room :=
  { r with userCount := r.userCount - 1 }

/-- The assignments to {lit}`room_` and {lit}`connected_room_` that end a move; a
departure moves to the empty name. -/
def Session.enterRoom (c : Session) (room : Str) : Session :=
  { c with room := room, connectedRoom := [] }

/-- The type of {lit}`clients_`. -/
abbrev ClientTable := AList fun _ : Fd => Session
/-- The type of {lit}`rooms_`. -/
abbrev RoomTable := AList fun _ : Str => Room

/-- The two tables of the server, and the descriptors it has closed so far. -/
structure ChatServer where
  clients : ClientTable
  rooms : RoomTable
  closed : List Fd

/-- The room that every client starts in. -/
def lobby : Str := str "lobby"

namespace ChatServer

variable (s : ChatServer) (client : Fd)

/-! ## Access to the tables -/

/-- Use of a {lit}`Client*`. -/
def deref : Except Fault Session :=
  match s.clients.lookup client with
  | some c => .ok c
  | none => .error .danglingClient

/-- {lit}`rooms_.at(name)`. -/
def roomAt (name : Str) : Except Fault Room :=
  match s.rooms.lookup name with
  | some room => .ok room
  | none => .error .outOfRange

/-- {lit}`rooms_[name]->`: on a missing name {lit}`operator[]` creates an empty
pointer, which {lit}`->` then uses. -/
def roomArrow (name : Str) : Except Fault Room :=
  match s.rooms.lookup name with
  | some room => .ok room
  | none => .error .nullRoom

/-- Assignments to fields of a client. -/
def updateClient (f : Session → Session) : ChatServer :=
  { s with clients := s.clients.modify client f }

/-- Assignments to fields of a room. -/
def updateRoom (name : Str) (f : Room → Room) : ChatServer :=
  { s with rooms := s.rooms.modify name f }

/-- {lit}`client->queue_message(msg, epoll_fd_)` in a handler. -/
def queueMessage (msg : Str) : ChatServer :=
  s.updateClient client fun c => c.queueMessage .direct msg

/-! ## Broadcast -/

/-- What the loop of {lit}`broadcast` does to one client. -/
def broadcastTo (msg roomName : Str) (cl : Session) : Session :=
  if cl.state ≠ .stateChat then cl
  else if roomName = [] ∨ cl.room = roomName then cl.queueMessage (.broadcast roomName) msg
  else cl

/-- {lit}`broadcast`; the empty room name addresses everybody who chats. -/
def broadcast (msg roomName : Str) : ChatServer :=
  { s with clients := s.clients.mapVal fun _ cl => broadcastTo msg roomName cl }

/-- The clients a message to a room is queued to. -/
def ChatsIn (roomName : Str) (fd : Fd) : Prop :=
  ∃ cl, s.clients.lookup fd = some cl ∧ cl.state = .stateChat ∧ cl.room = roomName

instance (roomName : Str) (fd : Fd) : Decidable (s.ChatsIn roomName fd) :=
  decidable_of_iff
    ((s.clients.lookup fd).any (fun cl => cl.state == .stateChat && cl.room == roomName) = true)
    (by cases h : s.clients.lookup fd <;> simp [ChatsIn, h])

/-- The text for everybody who chats when a client is gone. -/
def sendDisconnectNotification (nickname : Str) : ChatServer :=
  { s with clients := s.clients.mapVal fun _ cl =>
      if cl.state = .stateChat then
        cl.queueMessage .notification (nickname ++ str " left the server\n")
      else cl }

/-! ## Joining and leaving -/

/-- What the members of a room read when somebody leaves it. -/
def leftMessage (nickname room : Str) : Str :=
  str "[SERVER]: " ++ nickname ++ str " left the room " ++ str "[" ++ room ++ str "]" ++ str ".\n"

/-- What the members of a room read when somebody joins it. -/
def joinedMessage (nickname room : Str) : Str :=
  str "[SERVER]: " ++ nickname ++ str " joined the room " ++ str "[" ++ room ++ str "]" ++
    str ".\n"

/-- The lines that {lit}`join_room` and {lit}`leave_room` have in common: announce
the departure, count it, and drop an empty room unless it is the lobby. -/
def departRoom (nickname room : Str) : Except Fault ChatServer := do
  let s := s.broadcast (leftMessage nickname room) room
  let _ ← s.roomArrow room
  let s := s.updateRoom room Room.decreaseUserCounter
  let left ← s.roomArrow room
  if left.userCount = 0 ∧ room ≠ lobby then
    return { s with rooms := s.rooms.erase room }
  else
    return s

/-- {lit}`if (rooms_.count(name) == 0) rooms_[name] = std::make_unique<Room>(name, "")` -/
def createRoom (name : Str) : ChatServer :=
  if name ∈ s.rooms then s
  else { s with rooms := s.rooms.insert name (Room.new name []) }

/-- {lit}`join_room`. -/
def joinRoom (newRoom : Str) : Except Fault ChatServer := do
  let c ← s.deref client
  let s ← (if c.room ≠ [] ∧ c.room ∈ s.rooms then s.departRoom c.nickname c.room else .ok s)
  let s := s.createRoom newRoom
  let _ ← s.roomArrow newRoom
  let s := s.updateRoom newRoom Room.increaseUserCounter
  let s := s.updateClient client fun c => c.enterRoom newRoom
  let c ← s.deref client
  return s.broadcast (joinedMessage c.nickname c.room) c.room

/-- {lit}`leave_room`. -/
def leaveRoom : Except Fault ChatServer := do
  let c ← s.deref client
  if c.room = [] ∨ c.room ∉ s.rooms then
    return s
  else
    let s ← s.departRoom c.nickname c.room
    return s.updateClient client fun c => c.enterRoom []

end ChatServer

/-! ## The room table under departures and arrivals -/

/-- {lit}`rooms_` after one user has left {lit}`room`. -/
def vacate (rooms : RoomTable) (room : Str) : RoomTable :=
  match rooms.lookup room with
  | none => rooms
  | some r =>
      let rooms := rooms.modify room Room.decreaseUserCounter
      if r.userCount = 1 ∧ room ≠ lobby then rooms.erase room else rooms

/-- {lit}`rooms_` after one user has entered {lit}`room`. -/
def occupy (rooms : RoomTable) (room : Str) : RoomTable :=
  (if room ∈ rooms then rooms else rooms.insert room (Room.new room [])).modify room
    Room.increaseUserCounter

section RoomTables

variable {rooms : RoomTable} {room name : Str}

/-- A departure leaves the entries of other rooms alone. -/
theorem lookup_vacate_ne (h : name ≠ room) :
    (vacate rooms room).lookup name = rooms.lookup name := by
  unfold vacate
  split
  · rfl
  · have hmodify := AList.lookup_modify_ne h Room.decreaseUserCounter rooms
    simp only
    split
    · rw [AList.lookup_erase_ne h, hmodify]
    · exact hmodify

/-- A departure is counted; the last one closes the room, unless it is the lobby. -/
theorem lookup_vacate_self {r : Room} (hr : rooms.lookup room = some r) :
    (vacate rooms room).lookup room =
      if r.userCount = 1 ∧ room ≠ lobby then none else some r.decreaseUserCounter := by
  unfold vacate
  simp only [hr]
  split
  · exact AList.lookup_erase room _
  · simp [hr]

/-- An arrival leaves the entries of other rooms alone. -/
theorem lookup_occupy_ne (h : name ≠ room) :
    (occupy rooms room).lookup name = rooms.lookup name := by
  unfold occupy
  rw [AList.lookup_modify_ne h]
  split
  · rfl
  · exact AList.lookup_insert_ne h

/-- An arrival is counted, in a new room if there is none of this name. -/
theorem lookup_occupy_self :
    (occupy rooms room).lookup room =
      some ((rooms.lookup room).getD (Room.new room [])).increaseUserCounter := by
  unfold occupy
  rw [AList.lookup_modify_self]
  split <;> rename_i h
  · rcases AList.mem_iff_lookup.1 h with ⟨r, hr⟩
    simp [hr]
  · simp [AList.lookup_eq_none.2 h]

/-- A room that has been entered is open. -/
theorem mem_occupy_self : room ∈ occupy rooms room :=
  AList.mem_of_lookup lookup_occupy_self

end RoomTables

/-! ## The effect of joining and leaving -/

namespace ChatServer

variable {s : ChatServer} {client : Fd} {c : Session}

/-! ### What a broadcast leaves alone -/

section BroadcastTo

variable (msg roomName : Str) (cl : Session)

/-- One client either gets the text queued or is left alone. -/
theorem broadcastTo_cases :
    broadcastTo msg roomName cl = cl.queueMessage (.broadcast roomName) msg ∨
      broadcastTo msg roomName cl = cl := by
  unfold broadcastTo
  split
  · exact Or.inr rfl
  · split
    · exact Or.inl rfl
    · exact Or.inr rfl

/-- A broadcast queues text at most. -/
theorem extends_broadcastTo : cl.Extends (broadcastTo msg roomName cl) := by
  rcases broadcastTo_cases msg roomName cl with h | h <;> rw [h]
  · exact cl.extends_queueMessage _ _
  · exact .refl cl

@[simp] theorem broadcastTo_fd : (broadcastTo msg roomName cl).fd = cl.fd := by
  rcases broadcastTo_cases msg roomName cl with h | h <;> simp [h]

@[simp] theorem broadcastTo_state : (broadcastTo msg roomName cl).state = cl.state := by
  rcases broadcastTo_cases msg roomName cl with h | h <;> simp [h]

@[simp] theorem broadcastTo_nickname :
    (broadcastTo msg roomName cl).nickname = cl.nickname := by
  rcases broadcastTo_cases msg roomName cl with h | h <;> simp [h]

@[simp] theorem broadcastTo_room : (broadcastTo msg roomName cl).room = cl.room := by
  rcases broadcastTo_cases msg roomName cl with h | h <;> simp [h]

@[simp] theorem broadcastTo_connectedRoom :
    (broadcastTo msg roomName cl).connectedRoom = cl.connectedRoom := by
  rcases broadcastTo_cases msg roomName cl with h | h <;> simp [h]

end BroadcastTo

/-! ### Lookups after the basic updates -/

@[simp] theorem broadcast_lookup (msg roomName : Str) (fd : Fd) :
    (s.broadcast msg roomName).clients.lookup fd =
      (s.clients.lookup fd).map (broadcastTo msg roomName) := by
  simp [broadcast]

/-- An assignment is seen in the entry of its client only. -/
theorem updateClient_lookup (f : Session → Session) (fd : Fd) :
    (s.updateClient client f).clients.lookup fd =
      if fd = client then (s.clients.lookup fd).map f else s.clients.lookup fd :=
  AList.lookup_modify client fd f s.clients

/-- A queued text is seen in the entry of its client only. -/
theorem queueMessage_lookup (msg : Str) (fd : Fd) :
    (s.queueMessage client msg).clients.lookup fd =
      if fd = client then (s.clients.lookup fd).map fun c => c.queueMessage .direct msg
      else s.clients.lookup fd :=
  updateClient_lookup _ fd

/-- An owned client can be used. -/
theorem deref_eq (hc : s.clients.lookup client = some c) : s.deref client = .ok c := by
  simp [deref, hc]

/-- A room that exists can be used. -/
theorem roomArrow_eq {name : Str} {room : Room} (hr : s.rooms.lookup name = some room) :
    s.roomArrow name = .ok room := by
  simp [roomArrow, hr]

/-- The state after a departure from a room that exists. -/
def departed (s : ChatServer) (nickname room : Str) : ChatServer :=
  { s.broadcast (leftMessage nickname room) room with rooms := vacate s.rooms room }

/-- A departure from a room that exists does not fault. -/
theorem departRoom_eq {nickname room : Str} (hroom : room ∈ s.rooms) :
    s.departRoom nickname room = .ok (s.departed nickname room) := by
  rcases AList.mem_iff_lookup.1 hroom with ⟨r, hr⟩
  have hbefore : (s.broadcast (leftMessage nickname room) room).roomArrow room = .ok r :=
    roomArrow_eq hr
  have hafter : ((s.broadcast (leftMessage nickname room) room).updateRoom room
      Room.decreaseUserCounter).roomArrow room = .ok r.decreaseUserCounter := by
    apply roomArrow_eq
    simp [updateRoom, broadcast, hr]
  have hcount : r.decreaseUserCounter.userCount = 0 ↔ r.userCount = 1 := by
    simp only [Room.decreaseUserCounter]
    omega
  simp only [departRoom, bind, Except.bind, hbefore, hafter, hcount, pure, Except.pure, departed,
    vacate, hr]
  split <;> rfl

/-- Whether {lit}`join_room` and {lit}`leave_room` have a room to leave. -/
def Occupies (s : ChatServer) (c : Session) : Prop :=
  c.room ≠ [] ∧ c.room ∈ s.rooms

instance (s : ChatServer) (c : Session) : Decidable (s.Occupies c) :=
  inferInstanceAs (Decidable (_ ∧ _))

/-- What the departure of {lit}`c` queues to one client. -/
def hearLeft (s : ChatServer) (c cl : Session) : Session :=
  if s.Occupies c then broadcastTo (leftMessage c.nickname c.room) c.room cl else cl

section HearLeft

variable (s : ChatServer) (c cl : Session)

/-- The announcement of a departure queues text at most. -/
theorem extends_hearLeft : cl.Extends (s.hearLeft c cl) := by
  unfold hearLeft
  split
  · exact extends_broadcastTo _ _ cl
  · exact .refl cl

@[simp] theorem hearLeft_fd : (s.hearLeft c cl).fd = cl.fd := by
  unfold hearLeft
  split <;> simp

@[simp] theorem hearLeft_state : (s.hearLeft c cl).state = cl.state := by
  unfold hearLeft
  split <;> simp

@[simp] theorem hearLeft_nickname : (s.hearLeft c cl).nickname = cl.nickname := by
  unfold hearLeft
  split <;> simp

@[simp] theorem hearLeft_room : (s.hearLeft c cl).room = cl.room := by
  unfold hearLeft
  split <;> simp

@[simp] theorem hearLeft_connectedRoom : (s.hearLeft c cl).connectedRoom = cl.connectedRoom := by
  unfold hearLeft
  split <;> simp

end HearLeft

/-- The state after the client has left its room, if it has one. -/
def vacated (s : ChatServer) (c : Session) : ChatServer where
  clients := s.clients.mapVal fun _ cl => s.hearLeft c cl
  rooms := if s.Occupies c then vacate s.rooms c.room else s.rooms
  closed := s.closed

/-- A client in an open room departs from it. -/
theorem vacated_of_occupies (h : s.Occupies c) :
    s.vacated c = s.departed c.nickname c.room := by
  simp [vacated, hearLeft, h, departed, broadcast]

/-- A client without an open room leaves everything as it is. -/
theorem vacated_of_not (h : ¬s.Occupies c) : s.vacated c = s := by
  have hid : s.clients.mapVal (fun _ cl => s.hearLeft c cl) = s.clients :=
    AList.mapVal_eq_self fun _ cl _ => by simp [hearLeft, h]
  simp only [vacated, hid, if_neg h]

/-- The state after {lit}`join_room`. -/
def joined (s : ChatServer) (client : Fd) (c : Session) (newRoom : Str) : ChatServer :=
  let s := s.vacated c
  let s : ChatServer := { s with rooms := occupy s.rooms newRoom }
  let s := s.updateClient client fun c => c.enterRoom newRoom
  s.broadcast (joinedMessage c.nickname newRoom) newRoom

/-- The state after {lit}`leave_room`. -/
def left (s : ChatServer) (client : Fd) (c : Session) : ChatServer :=
  if s.Occupies c then
    (s.vacated c).updateClient client fun c => c.enterRoom []
  else s

/-- Leaving the present room does not fault. -/
theorem departRoom_of_occupies (h : s.Occupies c) :
    s.departRoom c.nickname c.room = .ok (s.vacated c) := by
  rw [departRoom_eq h.2, vacated_of_occupies h]

/-- For an owned client {lit}`join_room` does not fault. -/
theorem joinRoom_eq (hc : s.clients.lookup client = some c) (newRoom : Str) :
    s.joinRoom client newRoom = .ok (s.joined client c newRoom) := by
  have hvacated :
      (if c.room ≠ [] ∧ c.room ∈ s.rooms then s.departRoom c.nickname c.room else .ok s) =
        .ok (s.vacated c) := by
    by_cases h : s.Occupies c
    · rw [if_pos (show c.room ≠ [] ∧ c.room ∈ s.rooms from h), departRoom_of_occupies h]
    · rw [if_neg (show ¬(c.room ≠ [] ∧ c.room ∈ s.rooms) from h), vacated_of_not h]
  have hlookup : (s.vacated c).clients.lookup client = some (s.hearLeft c c) := by
    simp [vacated, hc]
  have harrow : ((s.vacated c).createRoom newRoom).roomArrow newRoom =
      .ok (((s.vacated c).rooms.lookup newRoom).getD (Room.new newRoom [])) := by
    apply roomArrow_eq
    unfold createRoom
    split <;> rename_i hmem
    · rcases AList.mem_iff_lookup.1 hmem with ⟨r, hr⟩
      simp [hr]
    · simp [AList.lookup_eq_none.2 hmem]
  have hoccupy : ((s.vacated c).createRoom newRoom).updateRoom newRoom Room.increaseUserCounter =
      { s.vacated c with rooms := occupy (s.vacated c).rooms newRoom } := by
    unfold createRoom updateRoom occupy
    split <;> rfl
  have hclient : (({ s.vacated c with rooms := occupy (s.vacated c).rooms newRoom } :
      ChatServer).updateClient client fun c => c.enterRoom newRoom).deref client =
      .ok ((s.hearLeft c c).enterRoom newRoom) := by
    apply deref_eq
    simp [updateClient, hlookup]
  unfold joinRoom
  simp only [deref_eq hc, bind, Except.bind, hvacated, harrow, hoccupy, hclient]
  simp [joined, Session.enterRoom, pure, Except.pure]

/-- For an owned client {lit}`leave_room` does not fault. -/
theorem leaveRoom_eq (hc : s.clients.lookup client = some c) :
    s.leaveRoom client = .ok (s.left client c) := by
  unfold leaveRoom left
  simp only [deref_eq hc, bind, Except.bind]
  by_cases h : s.Occupies c
  · have hguard : ¬(c.room = [] ∨ c.room ∉ s.rooms) := by
      rintro (hnil | hmem)
      · exact h.1 hnil
      · exact hmem h.2
    rw [if_neg hguard, if_pos h, departRoom_of_occupies h]
    rfl
  · have hguard : c.room = [] ∨ c.room ∉ s.rooms := by
      by_cases hnil : c.room = []
      · exact Or.inl hnil
      · exact Or.inr fun hmem => h ⟨hnil, hmem⟩
    rw [if_pos hguard, if_neg h]
    rfl

/-! ### Tables after a move -/

/-- Leaving a room touches its entry in the room table only. -/
@[simp] theorem vacated_rooms :
    (s.vacated c).rooms = if s.Occupies c then vacate s.rooms c.room else s.rooms :=
  rfl

/-- A join queues the departure to the old room and the arrival to the new one,
and moves the joining client. -/
theorem joined_lookup (newRoom : Str) (fd : Fd) :
    (s.joined client c newRoom).clients.lookup fd =
      (s.clients.lookup fd).map fun cl =>
        broadcastTo (joinedMessage c.nickname newRoom) newRoom
          (if fd = client then (s.hearLeft c cl).enterRoom newRoom else s.hearLeft c cl) := by
  simp only [joined, broadcast, updateClient, vacated, AList.lookup_mapVal, AList.lookup_modify]
  cases s.clients.lookup fd with
  | none => simp
  | some cl => by_cases hfd : fd = client <;> simp [hfd]

/-- {lit}`leave_room` does to the room table what a departure does. -/
@[simp] theorem left_rooms :
    (s.left client c).rooms = if s.Occupies c then vacate s.rooms c.room else s.rooms := by
  unfold left
  split <;> rename_i h
  · simp [updateClient, h]
  · rfl

/-- A departure is queued to the room that is left, and moves the leaving client
out of it. -/
theorem left_lookup (fd : Fd) :
    (s.left client c).clients.lookup fd =
      (s.clients.lookup fd).map fun cl =>
        if fd = client ∧ s.Occupies c then (s.hearLeft c cl).enterRoom [] else s.hearLeft c cl := by
  unfold left
  by_cases h : s.Occupies c
  · simp only [h, if_true, updateClient, vacated, AList.lookup_mapVal, AList.lookup_modify,
      and_true]
    cases s.clients.lookup fd with
    | none => simp
    | some cl => by_cases hfd : fd = client <;> simp [hfd]
  · simp [h, hearLeft]

end ChatServer

end EpollChat
