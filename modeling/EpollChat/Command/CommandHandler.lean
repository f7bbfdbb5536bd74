import EpollChat.Command.CommandParser
import EpollChat.Server.Rooms

/-!
# command/command_handler.cpp and {lit}`process_message` - The effect of one line

The handlers of {lit}`CommandHandler` and the state machine of
{lit}`process_message`, with every reply text of the source.

Main results:

- Theorem {lit}`processMessage_effect`: on an owned client every line is processed
  without a fault, and {lit}`LineEffect` lists what it can do, with the condition
  under which it does it.
-/

namespace EpollChat

/-- {lit}`std::to_string(int)` -/
def intToString (i : Int) : Str :=
  str (toString i)

/-- A message as the members of a room read it. -/
def chatMessage (nickname text : Str) : Str :=
  str "[" ++ nickname ++ str "]: " ++ text ++ str "\n"

/-- A private message as its receiver reads it. -/
def privateMessageFrom (nickname text : Str) : Str :=
  str "[Private msg from " ++ nickname ++ str "]: " ++ text ++ str "\n"

/-- A private message as its sender reads it. -/
def privateMessageTo (nickname text : Str) : Str :=
  str "[Private msg to " ++ nickname ++ str "]: " ++ text ++ str "\n"

/-- The answer to a private message for nobody. -/
def notFoundMessage (target : Str) : Str :=
  str "User: " ++ target ++ str " not found\n"

/-- The answer to a nickname. -/
def welcomeMessage (nickname : Str) : Str :=
  str "Welcome to the chat, " ++ nickname ++ str "!\n"

def alreadyInRoomMessage : Str := str "[SERVER] You are already in this room.\n"
def createPasswordPrompt : Str := str "Create room password: "
def enterPasswordPrompt : Str := str "Pls, enter room password: "
def inLobbyMessage : Str := str "[SERVER] You are in lobby.\n"
def passwordSetMessage : Str := str "Password success setup, welcome to room!\n"
def roomDeletedMessage : Str := str "The room has been deleted.\n"
def passwordSuccessMessage : Str := str "Password success! Welcome to room.\n"
def incorrectPasswordMessage : Str := str "Incorrect password! Failed to join the room.\n"

/-- The assignments to {lit}`state` and {lit}`connected_room_` before a password
prompt. -/
def Session.prompt (c : Session) (state : ClientState) (roomName : Str) : Session :=
  { c with state := state, connectedRoom := roomName }

/-- {lit}`client->state = ClientState::STATE_CHAT` -/
def Session.chat (c : Session) : Session :=
  { c with state := .stateChat }

/-- The assignments to {lit}`nickname` and {lit}`state` of a client that names itself. -/
def Session.setNickname (c : Session) (line : Str) : Session :=
  { c with nickname := line, state := .stateChat }

namespace ChatServer

variable (s : ChatServer) (client : Fd)

/-! ## {lit}`CommandHandler` -/

/-- {lit}`handle_plain_message`. -/
def handlePlainMessage (text : Str) : Except Fault ChatServer := do
  let c ← s.deref client
  return s.broadcast (chatMessage c.nickname text) c.room

/-- The first client in iteration order that chats under this nickname. -/
def findNickname (target : Str) : Option (Sigma fun _ : Fd => Session) :=
  s.clients.entries.find? fun e => e.2.nickname == target && e.2.state == .stateChat

/-- {lit}`handle_private_message`. -/
def handlePrivateMessage (target text : Str) : Except Fault ChatServer := do
  let c ← s.deref client
  match s.findNickname target with
  | some ⟨fd, cl⟩ =>
      let s := s.queueMessage fd (privateMessageFrom c.nickname text)
      return s.queueMessage client (privateMessageTo cl.nickname text)
  | none => return s.queueMessage client (notFoundMessage target)

/-- {lit}`handle_join_room`. -/
def handleJoinRoom (roomName : Str) : Except Fault ChatServer := do
  let c ← s.deref client
  if c.room = roomName then
    return s.queueMessage client alreadyInRoomMessage
  else if roomName ∉ s.rooms then
    let s := s.updateClient client fun c => c.prompt .stateSetupRoomPassword roomName
    return s.queueMessage client createPasswordPrompt
  else
    let room ← s.roomAt roomName
    if room.verificationPassword [] then
      s.joinRoom client roomName
    else
      let s := s.updateClient client fun c => c.prompt .stateEnterRoomPassword roomName
      return s.queueMessage client enterPasswordPrompt

/-- {lit}`handle_leave_room`. -/
def handleLeaveRoom : Except Fault ChatServer := do
  let c ← s.deref client
  if c.room = lobby then
    return s.queueMessage client inLobbyMessage
  else
    s.joinRoom client lobby

/-- The descriptors whose nicknames {lit}`/online` lists, in iteration order. -/
def onlineIn (room : Str) : List Fd :=
  s.clients.keysWhere fun cl => cl.room == room

/-- The text that {lit}`handle_online_list` puts together. -/
def onlineListMessage (room : Str) : Str :=
  str "Users in room '" ++ room ++ str "': " ++
    (s.clients.entries.filter fun e => e.2.room == room).flatMap
      (fun e => e.2.nickname ++ str " ") ++ str "\n"

/-- {lit}`handle_online_list`. -/
def handleOnlineList : Except Fault ChatServer := do
  let c ← s.deref client
  return s.queueMessage client (s.onlineListMessage c.room)

/-- The text that {lit}`handle_rooms_list` puts together. -/
def roomsListMessage : Str :=
  str "Rooms list: " ++
    s.rooms.entries.flatMap
      (fun e => e.2.name ++ str "[" ++ intToString e.2.userCount ++ str "] ") ++ str "\n"

/-- {lit}`handle_rooms_list`. -/
def handleRoomsList : Except Fault ChatServer :=
  return s.queueMessage client s.roomsListMessage

/-- A switch without a case for {lit}`UNKNOWN`. -/
def execute (line : Str) : Except Fault ChatServer := do
  let cmd ← parse line
  match cmd.type with
  | .privateMessage => s.handlePrivateMessage client cmd.target cmd.text
  | .plainMessage => s.handlePlainMessage client cmd.text
  | .joinRoom => s.handleJoinRoom client cmd.target
  | .leaveRoom => s.handleLeaveRoom client
  | .onlineList => s.handleOnlineList client
  | .roomList => s.handleRoomsList client
  | .unknown => return s

/-! ## {lit}`process_message` -/

/-- {lit}`process_message` in {lit}`STATE_NICKNAME`. -/
def setNickname (line : Str) : Except Fault ChatServer := do
  let s := s.updateClient client fun c => c.setNickname line
  let s ← s.joinRoom client lobby
  let c ← s.deref client
  return s.queueMessage client (welcomeMessage c.nickname)

/-- {lit}`process_message` in {lit}`STATE_SETUP_ROOM_PASSWORD`. -/
def setupRoomPassword (line : Str) : Except Fault ChatServer := do
  let c ← s.deref client
  let s ← s.joinRoom client c.connectedRoom
  let c ← s.deref client
  let _ ← s.roomAt c.room
  let s := s.updateRoom c.room fun room => room.setPassword line
  let s := s.updateClient client Session.chat
  return s.queueMessage client passwordSetMessage

/-- {lit}`process_message` in {lit}`STATE_ENTER_ROOM_PASSWORD`. -/
def enterRoomPassword (line : Str) : Except Fault ChatServer := do
  let c ← s.deref client
  if c.connectedRoom ∉ s.rooms then
    let s := s.updateClient client Session.chat
    return s.queueMessage client roomDeletedMessage
  else
    let room ← s.roomAt c.connectedRoom
    if room.verificationPassword line then
      let s ← s.joinRoom client c.connectedRoom
      let s := s.updateClient client Session.chat
      return s.queueMessage client passwordSuccessMessage
    else
      let s := s.updateClient client Session.chat
      return s.queueMessage client incorrectPasswordMessage

/-- The observer's record of the call comes first; the four branches are those of
the source. -/
def processMessage (line : Str) : Except Fault ChatServer := do
  let s := s.updateClient client fun c => c.noteLine line
  let c ← s.deref client
  match c.state with
  | .stateNickname => s.setNickname client line
  | .stateSetupRoomPassword => s.setupRoomPassword client line
  | .stateEnterRoomPassword => s.enterRoomPassword client line
  | .stateChat => s.execute client line

end ChatServer

/-! ## What a line can do -/

section Effects

variable (s : ChatServer) (client : Fd) (c : Session) (line : Str)

/-- The state after a change of private fields of the client and a reply to it. -/
def ChatServer.answered (f : Session → Session) (msg : Str) : ChatServer :=
  (s.updateClient client f).queueMessage client msg

/-- Everything one line of a client can do, with its condition.  The state
{lit}`s` and the client {lit}`c` are those in which the branch is chosen. -/
inductive LineEffect : ChatServer → Prop
  /-- {lit}`STATE_NICKNAME` -/
  | named (hstate : c.state = .stateNickname) :
      LineEffect (((s.updateClient client fun c => c.setNickname line).joined client
        (c.setNickname line) lobby).answered client id (welcomeMessage line))
  /-- {lit}`STATE_SETUP_ROOM_PASSWORD` -/
  | passwordSet (hstate : c.state = .stateSetupRoomPassword) :
      LineEffect (((s.joined client c c.connectedRoom).updateRoom c.connectedRoom
        fun room => room.setPassword line).answered client Session.chat passwordSetMessage)
  /-- {lit}`STATE_ENTER_ROOM_PASSWORD`, and the room is gone -/
  | roomDeleted (hstate : c.state = .stateEnterRoomPassword)
      (hroom : c.connectedRoom ∉ s.rooms) :
      LineEffect (s.answered client Session.chat roomDeletedMessage)
  /-- {lit}`STATE_ENTER_ROOM_PASSWORD` with the right password -/
  | admitted (hstate : c.state = .stateEnterRoomPassword) (room : Room)
      (hroom : s.rooms.lookup c.connectedRoom = some room) (hpassword : room.password = line) :
      LineEffect ((s.joined client c c.connectedRoom).answered client Session.chat
        passwordSuccessMessage)
  /-- {lit}`STATE_ENTER_ROOM_PASSWORD` with a wrong password -/
  | refused (hstate : c.state = .stateEnterRoomPassword) (room : Room)
      (hroom : s.rooms.lookup c.connectedRoom = some room) (hpassword : room.password ≠ line) :
      LineEffect (s.answered client Session.chat incorrectPasswordMessage)
  | said (hstate : c.state = .stateChat) (hparse : parse line = .ok ⟨.plainMessage, [], line⟩) :
      LineEffect (s.broadcast (chatMessage c.nickname line) c.room)
  | whispered (hstate : c.state = .stateChat) (target text : Str)
      (hparse : parse line = .ok ⟨.privateMessage, target, text⟩) (fd : Fd) (cl : Session)
      (hfound : s.findNickname target = some ⟨fd, cl⟩) :
      LineEffect ((s.queueMessage fd (privateMessageFrom c.nickname text)).queueMessage client
        (privateMessageTo cl.nickname text))
  | notFound (hstate : c.state = .stateChat) (target text : Str)
      (hparse : parse line = .ok ⟨.privateMessage, target, text⟩)
      (hfound : s.findNickname target = none) :
      LineEffect (s.answered client id (notFoundMessage target))
  | alreadyInRoom (hstate : c.state = .stateChat)
      (hparse : parse line = .ok ⟨.joinRoom, c.room, []⟩) :
      LineEffect (s.answered client id alreadyInRoomMessage)
  | createPrompted (hstate : c.state = .stateChat) (target : Str)
      (hparse : parse line = .ok ⟨.joinRoom, target, []⟩) (htarget : target ≠ [])
      (hother : c.room ≠ target) (hroom : target ∉ s.rooms) :
      LineEffect (s.answered client (fun c => c.prompt .stateSetupRoomPassword target)
        createPasswordPrompt)
  | walkedIn (hstate : c.state = .stateChat) (target : Str)
      (hparse : parse line = .ok ⟨.joinRoom, target, []⟩) (htarget : target ≠ [])
      (hother : c.room ≠ target) (room : Room) (hroom : s.rooms.lookup target = some room)
      (hpassword : room.password = []) :
      LineEffect (s.joined client c target)
  | enterPrompted (hstate : c.state = .stateChat) (target : Str)
      (hparse : parse line = .ok ⟨.joinRoom, target, []⟩) (htarget : target ≠ [])
      (hother : c.room ≠ target) (room : Room) (hroom : s.rooms.lookup target = some room)
      (hpassword : room.password ≠ []) :
      LineEffect (s.answered client (fun c => c.prompt .stateEnterRoomPassword target)
        enterPasswordPrompt)
  | inLobby (hstate : c.state = .stateChat) (hparse : parse line = .ok ⟨.leaveRoom, [], []⟩)
      (hroom : c.room = lobby) :
      LineEffect (s.answered client id inLobbyMessage)
  | backToLobby (hstate : c.state = .stateChat)
      (hparse : parse line = .ok ⟨.leaveRoom, [], []⟩) (hroom : c.room ≠ lobby) :
      LineEffect (s.joined client c lobby)
  | onlineListed (hstate : c.state = .stateChat)
      (hparse : parse line = .ok ⟨.onlineList, [], []⟩) :
      LineEffect (s.answered client id (s.onlineListMessage c.room))
  | roomsListed (hstate : c.state = .stateChat)
      (hparse : parse line = .ok ⟨.roomList, [], []⟩) :
      LineEffect (s.answered client id s.roomsListMessage)
  | ignored (hstate : c.state = .stateChat) (hparse : parse line = .ok ⟨.unknown, [], []⟩) :
      LineEffect s

end Effects

namespace ChatServer

variable {s : ChatServer} {client : Fd} {c : Session} {line : Str}

theorem updateClient_id : s.updateClient client id = s := by
  have hid : s.clients.modify client id = s.clients :=
    AList.mapVal_eq_self fun a b _ => by simp
  rw [updateClient, hid]

theorem answered_id (msg : Str) : s.answered client id msg = s.queueMessage client msg := by
  rw [answered, updateClient_id]

theorem roomAt_eq {name : Str} {room : Room} (hr : s.rooms.lookup name = some room) :
    s.roomAt name = .ok room := by
  simp [roomAt, hr]

/-- An assignment is seen in the entry of its client. -/
theorem lookup_updateClient_self {f : Session → Session}
    (hc : s.clients.lookup client = some c) :
    (s.updateClient client f).clients.lookup client = some (f c) := by
  simp [updateClient, hc]

/-- The client after it has named itself. -/
theorem named_lookup_self (hc : s.clients.lookup client = some c) (line : Str) :
    (s.updateClient client fun c => c.setNickname line).clients.lookup client =
      some (c.setNickname line) :=
  lookup_updateClient_self hc

/-- The answered client after the change and the reply. -/
theorem answered_lookup_self (hc : s.clients.lookup client = some c)
    (f : Session → Session) (msg : Str) :
    (s.answered client f msg).clients.lookup client = some ((f c).queueMessage .direct msg) := by
  rw [answered, queueMessage_lookup, if_pos rfl, lookup_updateClient_self hc]
  rfl

/-- The joining client after its own move. -/
theorem joined_lookup_self (hc : s.clients.lookup client = some c) (newRoom : Str) :
    (s.joined client c newRoom).clients.lookup client =
      some (broadcastTo (joinedMessage c.nickname newRoom) newRoom
        ((s.hearLeft c c).enterRoom newRoom)) := by
  rw [joined_lookup, hc]
  simp

/-- A nickname has one of the listed effects. -/
theorem setNickname_effect (hc : s.clients.lookup client = some c)
    (hstate : c.state = .stateNickname) :
    ∃ s', s.setNickname client line = .ok s' ∧ LineEffect s client c line s' := by
  have hnamed := named_lookup_self hc line
  refine ⟨_, ?_, .named hstate⟩
  simp only [setNickname, bind, Except.bind, joinRoom_eq hnamed,
    deref_eq (joined_lookup_self hnamed lobby), answered_id]
  simp [Session.enterRoom, Session.setNickname, pure, Except.pure]

/-- The password for a new room has one of the listed effects. -/
theorem setupRoomPassword_effect (hc : s.clients.lookup client = some c)
    (hstate : c.state = .stateSetupRoomPassword) :
    ∃ s', s.setupRoomPassword client line = .ok s' ∧ LineEffect s client c line s' := by
  refine ⟨_, ?_, .passwordSet hstate⟩
  have hroom : (s.joined client c c.connectedRoom).rooms.lookup c.connectedRoom =
      some (((s.vacated c).rooms.lookup c.connectedRoom).getD
        (Room.new c.connectedRoom [])).increaseUserCounter := lookup_occupy_self
  have hself : (broadcastTo (joinedMessage c.nickname c.connectedRoom) c.connectedRoom
      ((s.hearLeft c c).enterRoom c.connectedRoom)).room = c.connectedRoom := by
    simp [Session.enterRoom]
  simp only [setupRoomPassword, bind, Except.bind, deref_eq hc, joinRoom_eq hc,
    deref_eq (joined_lookup_self hc c.connectedRoom), hself, roomAt_eq hroom]
  rfl

/-- The password for an open room has one of the listed effects. -/
theorem enterRoomPassword_effect (hc : s.clients.lookup client = some c)
    (hstate : c.state = .stateEnterRoomPassword) :
    ∃ s', s.enterRoomPassword client line = .ok s' ∧ LineEffect s client c line s' := by
  simp only [enterRoomPassword, bind, Except.bind, deref_eq hc]
  by_cases hmem : c.connectedRoom ∈ s.rooms
  · rcases AList.mem_iff_lookup.1 hmem with ⟨room, hroom⟩
    rw [if_neg (not_not.mpr hmem)]
    simp only [roomAt_eq hroom]
    by_cases hpassword : room.password = line
    · refine ⟨_, ?_, .admitted hstate room hroom hpassword⟩
      rw [if_pos (by simpa [Room.verificationPassword] using hpassword)]
      simp only [joinRoom_eq hc]
      rfl
    · refine ⟨_, ?_, .refused hstate room hroom hpassword⟩
      rw [if_neg (by simpa [Room.verificationPassword] using hpassword)]
      rfl
  · refine ⟨_, ?_, .roomDeleted hstate hmem⟩
    rw [if_pos hmem]
    rfl

/-- The state after {lit}`handle_join_room`. -/
def joinRequested (s : ChatServer) (client : Fd) (c : Session) (target : Str) : ChatServer :=
  if c.room = target then s.answered client id alreadyInRoomMessage
  else
    match s.rooms.lookup target with
    | none =>
        s.answered client (fun c => c.prompt .stateSetupRoomPassword target) createPasswordPrompt
    | some room =>
        if room.password = [] then s.joined client c target
        else
          s.answered client (fun c => c.prompt .stateEnterRoomPassword target) enterPasswordPrompt

/-- For an owned client {lit}`/join` does not fault. -/
theorem handleJoinRoom_eq (hc : s.clients.lookup client = some c) (target : Str) :
    s.handleJoinRoom client target = .ok (s.joinRequested client c target) := by
  simp only [handleJoinRoom, joinRequested, bind, Except.bind, deref_eq hc]
  by_cases hsame : c.room = target
  · rw [if_pos hsame, if_pos hsame, answered_id]
    rfl
  rw [if_neg hsame, if_neg hsame]
  cases hroom : s.rooms.lookup target with
  | none =>
      rw [if_pos (AList.lookup_eq_none.1 hroom)]
      rfl
  | some room =>
      rw [if_neg (not_not.mpr (AList.mem_of_lookup hroom))]
      simp only [roomAt_eq hroom]
      by_cases hpassword : room.password = []
      · rw [if_pos (by simpa [Room.verificationPassword] using hpassword), if_pos hpassword,
          joinRoom_eq hc]
      · rw [if_neg (by simpa [Room.verificationPassword] using hpassword), if_neg hpassword]
        rfl

/-- {lit}`/join` has one of the listed effects. -/
theorem handleJoinRoom_effect (hc : s.clients.lookup client = some c)
    (hstate : c.state = .stateChat) {target : Str} (htarget : target ≠ [])
    (hparse : parse line = .ok ⟨.joinRoom, target, []⟩) :
    ∃ s', s.handleJoinRoom client target = .ok s' ∧ LineEffect s client c line s' := by
  refine ⟨_, handleJoinRoom_eq hc target, ?_⟩
  unfold joinRequested
  by_cases hsame : c.room = target
  · subst hsame
    rw [if_pos rfl]
    exact .alreadyInRoom hstate hparse
  rw [if_neg hsame]
  cases hroom : s.rooms.lookup target with
  | none =>
      exact .createPrompted hstate target hparse htarget hsame (AList.lookup_eq_none.1 hroom)
  | some room =>
      by_cases hpassword : room.password = []
      · simp only [if_pos hpassword]
        exact .walkedIn hstate target hparse htarget hsame room hroom hpassword
      · simp only [if_neg hpassword]
        exact .enterPrompted hstate target hparse htarget hsame room hroom hpassword

/-- Every command has one of the listed effects. -/
theorem execute_effect (hc : s.clients.lookup client = some c)
    (hstate : c.state = .stateChat) :
    ∃ s', s.execute client line = .ok s' ∧ LineEffect s client c line s' := by
  have hresult := parse_result line
  generalize hparse : parse line = result at hresult
  simp only [execute, bind, Except.bind, hparse]
  cases hresult with
  | plainMessage =>
      refine ⟨_, ?_, .said hstate hparse⟩
      simp only [handlePlainMessage, bind, Except.bind, deref_eq hc]
      rfl
  | privateMessage target text =>
      simp only [handlePrivateMessage, bind, Except.bind, deref_eq hc]
      cases hfound : s.findNickname target with
      | none =>
          refine ⟨_, ?_, .notFound hstate target text hparse hfound⟩
          rw [answered_id]
          rfl
      | some e => exact ⟨_, rfl, .whispered hstate target text hparse e.1 e.2 hfound⟩
  | joinRoom target htarget => exact handleJoinRoom_effect hc hstate htarget hparse
  | leaveRoom =>
      simp only [handleLeaveRoom, bind, Except.bind, deref_eq hc]
      by_cases hroom : c.room = lobby
      · refine ⟨_, ?_, .inLobby hstate hparse hroom⟩
        rw [if_pos hroom, answered_id]
        rfl
      · refine ⟨_, ?_, .backToLobby hstate hparse hroom⟩
        rw [if_neg hroom, joinRoom_eq hc]
  | onlineList =>
      refine ⟨_, ?_, .onlineListed hstate hparse⟩
      simp only [handleOnlineList, bind, Except.bind, deref_eq hc, answered_id]
      rfl
  | roomList =>
      refine ⟨_, ?_, .roomsListed hstate hparse⟩
      rw [answered_id]
      rfl
  | unknown => exact ⟨_, rfl, .ignored hstate hparse⟩

/-- The state in which {lit}`process_message` chooses its branch. -/
def noted (s : ChatServer) (client : Fd) (line : Str) : ChatServer :=
  s.updateClient client fun c => c.noteLine line

theorem noted_lookup (fd : Fd) :
    (s.noted client line).clients.lookup fd =
      (s.clients.lookup fd).map fun cl => if fd = client then cl.noteLine line else cl := by
  rw [noted, updateClient_lookup]
  split <;> simp

/-- The line is recorded with its client. -/
theorem noted_lookup_self (hc : s.clients.lookup client = some c) (line : Str) :
    (s.noted client line).clients.lookup client = some (c.noteLine line) :=
  lookup_updateClient_self hc

/-- On an owned client every line is processed without a fault, and does one of
the things {lit}`LineEffect` lists. -/
theorem processMessage_effect (hc : s.clients.lookup client = some c) (line : Str) :
    ∃ s', s.processMessage client line = .ok s' ∧
      LineEffect (s.noted client line) client (c.noteLine line) line s' := by
  have hnoted := noted_lookup_self hc line
  unfold processMessage
  change ∃ s', ((s.noted client line).deref client).bind _ = .ok s' ∧ _
  simp only [deref_eq hnoted, Except.bind]
  split <;> rename_i hstate
  · exact setNickname_effect hnoted hstate
  · exact setupRoomPassword_effect hnoted hstate
  · exact enterRoomPassword_effect hnoted hstate
  · exact execute_effect hnoted hstate

/-! ### The two kinds of messages -/

/-- The search for a nickname does not see changes of other fields. -/
theorem findNickname_mapVal {s' : ChatServer} {g : Fd → Session → Session}
    (hclients : s'.clients = s.clients.mapVal g)
    (hkeep : ∀ fd cl, (g fd cl).nickname = cl.nickname ∧ (g fd cl).state = cl.state)
    (target : Str) :
    s'.findNickname target = (s.findNickname target).map (AList.mapEntry g) := by
  unfold findNickname
  rw [hclients]
  change (s.clients.entries.map (AList.mapEntry g)).find? _ = _
  rw [List.find?_map]
  congr 2
  funext e
  simp only [Function.comp, AList.mapEntry, Sigma.map, (hkeep e.1 e.2).1, (hkeep e.1 e.2).2]

/-- The search for a nickname does not see the record of handed lines. -/
theorem findNickname_noted (target : Str) :
    (s.noted client line).findNickname target = (s.findNickname target).map
      (AList.mapEntry fun fd cl => if fd = client then cl.noteLine line else cl) := by
  refine findNickname_mapVal rfl (fun fd cl => ?_) target
  split <;> exact ⟨rfl, rfl⟩

/-- What the search finds is a client of that name. -/
theorem findNickname_some {target : Str} {e : Sigma fun _ : Fd => Session}
    (h : s.findNickname target = some e) :
    s.clients.lookup e.1 = some e.2 ∧ e.2.nickname = target ∧ e.2.state = .stateChat := by
  have hfound := List.find?_some h
  simp only [Bool.and_eq_true, beq_iff_eq] at hfound
  exact ⟨AList.lookup_of_mem_entries (List.mem_of_find?_eq_some h), hfound⟩

/-- The line of a chatting client is executed. -/
theorem processMessage_chat (hc : s.clients.lookup client = some c)
    (hchat : c.state = .stateChat) :
    s.processMessage client line = (s.noted client line).execute client line := by
  have hnoted := noted_lookup_self hc line
  have hstate : (c.noteLine line).state = .stateChat := hchat
  unfold processMessage
  change ((s.noted client line).deref client).bind _ = _
  simp only [deref_eq hnoted, Except.bind, hstate]
  rfl

/-- An unknown command does nothing. -/
theorem processMessage_unknown (hc : s.clients.lookup client = some c)
    (hchat : c.state = .stateChat) (hparse : parse line = .ok ⟨.unknown, [], []⟩) :
    s.processMessage client line = .ok (s.noted client line) := by
  rw [processMessage_chat hc hchat]
  simp only [execute, hparse, bind, Except.bind]
  rfl

/-- A plain message is broadcast to the room of its client. -/
theorem processMessage_plain (hc : s.clients.lookup client = some c)
    (hchat : c.state = .stateChat) {target text : Str}
    (hparse : parse line = .ok ⟨.plainMessage, target, text⟩) :
    s.processMessage client line =
      .ok ((s.noted client line).broadcast (chatMessage c.nickname line) c.room) := by
  have hnoted := noted_lookup_self hc line
  rcases parse_plainMessage hparse with ⟨rfl, rfl⟩
  rw [processMessage_chat hc hchat]
  simp only [execute, hparse, bind, Except.bind, handlePlainMessage, deref_eq hnoted]
  rfl

/-- A private message goes to the first client of its name and back to its sender. -/
theorem processMessage_private (hc : s.clients.lookup client = some c)
    (hchat : c.state = .stateChat) {target text : Str}
    (hparse : parse line = .ok ⟨.privateMessage, target, text⟩) :
    s.processMessage client line =
      .ok (match (s.noted client line).findNickname target with
        | some e => ((s.noted client line).queueMessage e.1
            (privateMessageFrom c.nickname text)).queueMessage client
              (privateMessageTo e.2.nickname text)
        | none => (s.noted client line).queueMessage client (notFoundMessage target)) := by
  have hnoted := noted_lookup_self hc line
  rw [processMessage_chat hc hchat]
  simp only [execute, hparse, bind, Except.bind, handlePrivateMessage, deref_eq hnoted]
  cases (s.noted client line).findNickname target <;> rfl

/-- A request to join a room does what {lit}`handle_join_room` does. -/
theorem processMessage_join (hc : s.clients.lookup client = some c)
    (hchat : c.state = .stateChat) {target : Str}
    (hparse : parse line = .ok ⟨.joinRoom, target, []⟩) :
    s.processMessage client line =
      .ok ((s.noted client line).joinRequested client (c.noteLine line) target) := by
  rw [processMessage_chat hc hchat]
  simp only [execute, hparse, bind, Except.bind]
  exact handleJoinRoom_eq (noted_lookup_self hc line) target

/-- A password that is wrong, or comes too late, is answered and lets its client chat
again. -/
theorem enterRoomPassword_denied (hc : s.clients.lookup client = some c) (line : Str)
    (hdenied : ∀ room, s.rooms.lookup c.connectedRoom = some room → room.password ≠ line) :
    ∃ msg, s.enterRoomPassword client line = .ok (s.answered client Session.chat msg) := by
  simp only [enterRoomPassword, bind, Except.bind, deref_eq hc]
  by_cases hmem : c.connectedRoom ∈ s.rooms
  · rcases AList.mem_iff_lookup.1 hmem with ⟨room, hroom⟩
    have hpassword := hdenied room hroom
    refine ⟨incorrectPasswordMessage, ?_⟩
    rw [if_neg (not_not.mpr hmem)]
    simp only [roomAt_eq hroom]
    rw [if_neg (by simpa [Room.verificationPassword] using hpassword)]
    rfl
  · refine ⟨roomDeletedMessage, ?_⟩
    rw [if_pos hmem]
    rfl

/-- A wrong password is answered, and its client chats on. -/
theorem processMessage_denied (hc : s.clients.lookup client = some c)
    (hstate : c.state = .stateEnterRoomPassword)
    (hdenied : ∀ room, s.rooms.lookup c.connectedRoom = some room → room.password ≠ line) :
    ∃ msg, s.processMessage client line =
      .ok ((s.noted client line).answered client Session.chat msg) := by
  have hnoted := noted_lookup_self hc line
  have hstate' : (c.noteLine line).state = .stateEnterRoomPassword := hstate
  rcases enterRoomPassword_denied hnoted line hdenied with ⟨msg, hmsg⟩
  refine ⟨msg, ?_⟩
  unfold processMessage
  change ((s.noted client line).deref client).bind _ = _
  simp only [deref_eq hnoted, Except.bind, hstate']
  exact hmsg

end ChatServer

end EpollChat
