import EpollChat.Server.Hall
import EpollChat.Server.System

/-!
# The server refines the hall

Forgetting nicknames, buffers and the connections maps the server to a hall, and
every step of the server to a step of the hall.  What holds of the places and the
room table in every state of a hall therefore holds in every state of the server.

Main results:

- Theorem {lit}`StepEffect.simulates`: every step of the server is a step of the hall.
- Theorem {lit}`accounted_of_reachable`: in every reachable state the room table is
  the head count of the clients.
- Theorem {lit}`room_accounting`: the counters, the lobby, the rooms of the clients
  and the pending prompts in every reachable state, and that no step faults.
-/

namespace EpollChat

/-! ## The abstraction -/

/-- What the hall knows of a client. -/
def Session.place (c : Session) : Place :=
  ⟨c.fd, c.state, c.room, c.connectedRoom⟩

namespace ChatServer

/-- The hall that the server stands for. -/
def hall (s : ChatServer) : Hall where
  places := s.clients.mapVal fun _ c => c.place
  rooms := s.rooms

variable {s : ChatServer} {client : Fd} {c : Session} {f : Session → Session}

/-- The place of a descriptor is the place of its client. -/
theorem hall_lookup (fd : Fd) : s.hall.places.lookup fd = (s.clients.lookup fd).map Session.place :=
  AList.lookup_mapVal _ _ _

theorem hall_lookup_self (hc : s.clients.lookup client = some c) :
    s.hall.places.lookup client = some c.place := by
  rw [hall_lookup, hc]
  rfl

/-- A queued text does not move its client. -/
theorem place_queueMessage (cl : Session) (origin : Origin) (msg : Str) :
    (cl.queueMessage origin msg).place = cl.place := by
  simp [Session.place]

/-- A broadcast moves nobody. -/
theorem place_broadcastTo (msg roomName : Str) (cl : Session) :
    (broadcastTo msg roomName cl).place = cl.place := by
  simp [Session.place]

/-- The announcement of a departure moves nobody. -/
theorem place_hearLeft (s : ChatServer) (c cl : Session) : (s.hearLeft c cl).place = cl.place := by
  simp [Session.place]

theorem place_hearGone (c cl : Session) : (hearGone c cl).place = cl.place := by
  unfold hearGone
  split
  · exact place_queueMessage cl _ _
  · rfl

/-- A write moves nobody. -/
theorem place_handleWrite (c : Session) (result : WriteResult) :
    (c.handleWrite result).2.place = c.place := by
  rw [Session.handleWrite_eq]
  rfl

/-! ### Abstraction of the updates -/

/-- A broadcast leaves the hall as it is. -/
theorem hall_broadcast (msg roomName : Str) : (s.broadcast msg roomName).hall = s.hall := by
  simp only [hall, broadcast, AList.mapVal_mapVal, place_broadcastTo]

/-- An assignment to a client changes its place at most. -/
theorem hall_updateClient (hc : s.clients.lookup client = some c) :
    (s.updateClient client f).hall = s.hall.put client (f c).place := by
  have hplaces : (s.clients.modify client f).mapVal (fun _ cl => cl.place) =
      (s.clients.mapVal fun _ cl => cl.place).modify client fun _ => (f c).place := by
    apply AList.mapVal_modify
    exact AList.forall_lookup hc rfl
  simp only [hall, updateClient, Hall.put, hplaces]

/-- An assignment that keeps the place keeps the hall. -/
theorem hall_updateClient_eq (hplace : ∀ cl, s.clients.lookup client = some cl →
    (f cl).place = cl.place) : (s.updateClient client f).hall = s.hall := by
  have hplaces : (s.clients.modify client f).mapVal (fun _ cl => cl.place) =
      s.clients.mapVal fun _ cl => cl.place := AList.mapVal_modify_eq hplace
  simp only [hall, updateClient, hplaces]

/-- A queued text leaves the hall as it is. -/
theorem hall_queueMessage (msg : Str) : (s.queueMessage client msg).hall = s.hall :=
  hall_updateClient_eq fun cl _ => place_queueMessage cl .direct msg

/-- An answer changes the place of its client at most. -/
theorem hall_answered (hc : s.clients.lookup client = some c) (msg : Str) :
    (s.answered client f msg).hall = s.hall.put client (f c).place := by
  rw [answered, hall_queueMessage, hall_updateClient hc]

theorem hall_answered_id (msg : Str) : (s.answered client id msg).hall = s.hall := by
  rw [answered_id, hall_queueMessage]

/-- The record of a line leaves the hall as it is. -/
theorem hall_noted (s : ChatServer) (client : Fd) (line : Str) :
    (s.noted client line).hall = s.hall :=
  hall_updateClient_eq fun _ _ => rfl

/-- A write event leaves the hall as it is. -/
theorem hall_wrote (hc : s.clients.lookup client = some c) (result : WriteResult) :
    (s.wrote client c result).hall = s.hall := by
  apply hall_updateClient_eq
  exact AList.forall_lookup hc (place_handleWrite c result)

/-- The announcement of a departure leaves all places as they are. -/
theorem hall_vacated (rooms : RoomTable) :
    ChatServer.hall { s.vacated c with rooms := rooms } = { s.hall with rooms := rooms } := by
  simp only [hall, vacated, AList.mapVal_mapVal, place_hearLeft]

/-- A join is a change of place and of the two room entries. -/
theorem hall_joined (hc : s.clients.lookup client = some c) (newRoom : Str) :
    (s.joined client c newRoom).hall =
      { s.hall.put client { c.place with room := newRoom, connectedRoom := [] } with
        rooms := occupy (s.hall.roomsWithout c.place) newRoom } := by
  have hlookup : (s.vacated c).clients.lookup client = some (s.hearLeft c c) := by
    simp [vacated, hc]
  have hplace : ((s.hearLeft c c).enterRoom newRoom).place =
      { c.place with room := newRoom, connectedRoom := [] } := by
    simp [Session.place, Session.enterRoom]
  unfold joined
  rw [hall_broadcast,
    hall_updateClient (s := { s.vacated c with rooms := occupy (s.vacated c).rooms newRoom })
      hlookup,
    hplace, hall_vacated]
  rfl

/-- A client that has joined a room and chats there is settled. -/
theorem hall_joined_chat (hc : s.clients.lookup client = some c) (newRoom : Str)
    (hchat : c.state = .stateChat) :
    (s.joined client c newRoom).hall = s.hall.settle client c.place newRoom := by
  rw [hall_joined hc]
  simp only [Hall.settle, Place.settled, Hall.put, Session.place, hchat]

/-- A client that starts to chat when it has joined a room is settled. -/
theorem hall_joined_answered (hc : s.clients.lookup client = some c) (newRoom msg : Str) :
    ((s.joined client c newRoom).answered client Session.chat msg).hall =
      s.hall.settle client c.place newRoom := by
  rw [hall_answered (joined_lookup_self hc newRoom), hall_joined hc]
  simp only [Hall.settle, Hall.put, AList.modify_modify, Session.place, Place.settled, Session.chat,
    Session.enterRoom, broadcastTo_fd, hearLeft_fd, broadcastTo_room,
    broadcastTo_connectedRoom]

/-- A disconnect is a departure from the hall. -/
theorem hall_disconnected :
    (s.disconnected client c).hall = s.hall.depart client c.place := by
  have hplaces : ((s.left client c).clients.erase client).mapVal (fun _ cl => cl.place) =
      (s.clients.erase client).mapVal fun _ cl => cl.place := by
    unfold left
    split <;> rename_i h
    · simp only [updateClient, AList.erase_modify_self, vacated, AList.mapVal_erase,
        AList.mapVal_mapVal, place_hearLeft]
    · rfl
  have hrooms : (s.disconnected client c).rooms = s.hall.roomsWithout c.place := disconnected_rooms
  simp only [hall, hrooms]
  simp only [disconnected, AList.mapVal_erase, AList.mapVal_mapVal, place_hearGone] at hplaces ⊢
  rw [hplaces]
  rfl

/-- An accepted connection arrives in the hall, or nothing happens there. -/
theorem hall_acceptConnection (hfresh : client ∉ s.clients) (nonblocking added : Bool) :
    HallStep s.hall (some client) (s.acceptConnection client nonblocking added).hall := by
  unfold acceptConnection
  split
  · exact .idle _
  · split
    · simp only [hall, AList.erase_insert_of_notMem hfresh]
      exact .idle _
    · rw [hall_queueMessage]
      simp only [hall, AList.mapVal_insert]
      exact .arrive client (by simpa [hall] using hfresh)

end ChatServer

/-! ## Simulation -/

section Simulation

open ChatServer

variable {s s' : ChatServer} {client : Fd} {c : Session} {line : Str} {e : Event}

/-- Every line of a client is a step of the hall. -/
theorem LineEffect.simulates (h : LineEffect s client c line s')
    (hc : s.clients.lookup client = some c) (hacc : s.hall.Accounted) :
    HallStep s.hall (some client) s'.hall := by
  have hp := hall_lookup_self hc
  have hprompted := (hacc.placed client c.place hp).prompted
  cases h with
  | named hstate =>
      have hnamed := named_lookup_self hc line
      rw [hall_answered_id, hall_joined_chat hnamed lobby rfl, hall_updateClient hc]
      have hput : (s.hall.put client (c.setNickname line).place).settle client
          (c.setNickname line).place lobby = s.hall.settle client c.place lobby := by
        simp only [Hall.settle, Hall.put, AList.modify_modify]
        rfl
      rw [hput]
      exact .settle client c.place lobby hp lobby_ne_nil
  | passwordSet hstate =>
      rcases hprompted (Or.inl hstate) with ⟨hroom, _, hlobby⟩
      have hjoined := hall_joined_answered hc c.connectedRoom passwordSetMessage
      have hfound := HallStep.found client c.place c.connectedRoom line hp hroom hlobby
      rw [← hjoined] at hfound
      exact hfound
  | roomDeleted hstate hroom =>
      rw [hall_answered hc]
      exact .resume client c.place hp (Or.inr hstate)
  | admitted hstate room hroom hpassword =>
      rw [hall_joined_answered hc]
      exact .settle client c.place _ hp (hprompted (Or.inr hstate)).1
  | refused hstate room hroom hpassword =>
      rw [hall_answered hc]
      exact .resume client c.place hp (Or.inr hstate)
  | said hstate hparse =>
      rw [hall_broadcast]
      exact .idle _
  | whispered hstate target text hparse fd cl hfound =>
      rw [hall_queueMessage, hall_queueMessage]
      exact .idle _
  | createPrompted hstate target hparse htarget hother hroom =>
      have hlobby : target ≠ lobby := by
        rintro rfl
        exact hroom hacc.ledger.lobby_mem
      rw [hall_answered hc]
      exact .prompt client c.place _ target hp hstate (Or.inl rfl) htarget hother.symm hlobby
  | walkedIn hstate target hparse htarget hother room hroom hpassword =>
      rw [hall_joined_chat hc target hstate]
      exact .settle client c.place target hp htarget
  | enterPrompted hstate target hparse htarget hother room hroom hpassword =>
      have hlobby : target ≠ lobby := by
        rintro rfl
        exact hpassword ((hacc.ledger lobby).lobbyOpen room hroom rfl)
      rw [hall_answered hc]
      exact .prompt client c.place _ target hp hstate (Or.inr rfl) htarget hother.symm hlobby
  | backToLobby hstate hparse hroom =>
      rw [hall_joined_chat hc lobby hstate]
      exact .settle client c.place lobby hp lobby_ne_nil
  | ignored hstate hparse => exact .idle _
  | notFound => rw [hall_answered_id]; exact .idle _
  | alreadyInRoom => rw [hall_answered_id]; exact .idle _
  | inLobby => rw [hall_answered_id]; exact .idle _
  | onlineListed => rw [hall_answered_id]; exact .idle _
  | roomsListed => rw [hall_answered_id]; exact .idle _

/-- Every step of the server is a step of the hall, about the same client. -/
theorem StepEffect.simulates (h : StepEffect s e s') (hacc : s.hall.Accounted) :
    HallStep s.hall e.subject s'.hall := by
  cases h with
  | accept client nonblocking added hfresh => exact hall_acceptConnection hfresh nonblocking added
  | line client line c s' hc heffect =>
      have hnoted := noted_lookup_self hc line
      rw [← hall_noted s client line] at hacc ⊢
      exact heffect.simulates hnoted hacc
  | wrote client result c hc hok =>
      rw [hall_wrote hc]
      exact .idle _
  | dropped client result c hc hok =>
      rw [hall_disconnected, hall_wrote hc, place_handleWrite]
      exact .depart client c.place (hall_lookup_self hc)
  | disconnect client c hc =>
      rw [hall_disconnected]
      exact .depart client c.place (hall_lookup_self hc)
  | buffer client inBuffer c hc =>
      have hkeep : (s.updateClient client fun c => { c with inBuffer := inBuffer }).hall = s.hall :=
        hall_updateClient_eq fun _ _ => rfl
      rw [hkeep]
      exact .idle _
  | rehash clients rooms hclients hrooms =>
      exact .reorder _ _ (hclients.map _) hrooms

end Simulation

/-! ## Reachable states -/

section Reachable

open ChatServer

variable {s s' : ChatServer} {e : Event}

/-- At start-up there is the lobby, and nobody in it. -/
theorem started_accounted : started.hall.Accounted where
  ledger := by
    intro r
    have hpopulation : started.hall.population r = 0 := rfl
    rw [hpopulation]
    by_cases hr : r = lobby
    · subst hr
      have hlookup : started.hall.rooms.lookup lobby = some (Room.new lobby []) :=
        AList.lookup_insert _
      rw [hlookup]
      exact .of_some (Or.inl rfl) rfl rfl fun _ => rfl
    · have hlookup : started.hall.rooms.lookup r = none := AList.lookup_insert_ne hr
      rw [hlookup]
      exact .of_none (by simp [hr])
  placed fd p hp := by
    have hnone : started.hall.places.lookup fd = none := rfl
    rw [hnone] at hp
    cases hp

/-- Clients whose places fit are stored under their own descriptor. -/
theorem keyed_of_accounted (hacc : s.hall.Accounted) : s.Keyed := by
  intro fd c hc
  exact (hacc.placed fd c.place (hall_lookup_self hc)).keyed

/-- A step keeps the room table in agreement with the places. -/
theorem step_accounted (hacc : s.hall.Accounted) (hstep : Step s e s') : s'.hall.Accounted :=
  ((step_effect (keyed_of_accounted hacc) hstep).simulates hacc).accounted hacc

/-- In every reachable state the room table is the head count of the clients. -/
theorem accounted_of_reachable (hs : ReachableState s) : s.hall.Accounted :=
  Reachable.invariant (I := fun s => s.hall.Accounted) started_accounted
    (fun _ _ _ hacc hstep => step_accounted hacc hstep) hs

/-- In every reachable state clients are stored under their own descriptor. -/
theorem keyed_of_reachable (hs : ReachableState s) : s.Keyed :=
  keyed_of_accounted (accounted_of_reachable hs)

/-- The room of a chatting client is open. -/
theorem ChatServer.ChatsIn.open (hacc : s.hall.Accounted) {r : Str} {b : Fd} (hb : s.ChatsIn r b) :
    r ≠ [] ∧ r ∈ s.rooms := by
  rcases hb with ⟨cl, hcl, hchat, hroom⟩
  have hp := hall_lookup_self hcl
  have hnil : r ≠ [] := by
    intro hnil
    have hstate := (hacc.placed b cl.place hp).naming.2 (hroom.trans hnil)
    cases hstate.symm.trans hchat
  have hpos : 0 < s.hall.population r := hroom ▸ Hall.population_pos hp
  exact ⟨hnil, hacc.ledger.mem_iff.2 (Or.inr ⟨hnil, hpos⟩)⟩

/-- The head count of a room is the number of clients in it. -/
theorem population_hall (r : Str) : s.hall.population r = (s.onlineIn r).length := by
  rw [onlineIn, AList.length_keysWhere]
  exact AList.countVal_mapVal fun _ _ _ => rfl

end Reachable

/-! ## What the lists show -/

/-- The reply to {lit}`/online`, with the names it lists. -/
def onlineText (room : Str) (names : List Str) : Str :=
  str "Users in room '" ++ room ++ str "': " ++ names.flatMap (fun name => name ++ str " ") ++
    str "\n"

/-- The reply to {lit}`/rooms`, with the rooms and the numbers it lists. -/
def roomsText (rooms : List (Str × Nat)) : Str :=
  str "Rooms list: " ++
    rooms.flatMap (fun room => room.1 ++ str "[" ++ intToString room.2 ++ str "] ") ++ str "\n"

namespace ChatServer

/-- The nickname of a client, if there is such a client. -/
def nicknameAt (s : ChatServer) (fd : Fd) : Str :=
  ((s.clients.lookup fd).map fun c => c.nickname).getD []

/-- The open rooms, each with the number of clients in it. -/
def headCounts (s : ChatServer) : List (Str × Nat) :=
  s.rooms.entries.map fun e => (e.1, (s.onlineIn e.1).length)

end ChatServer

section Lists

open ChatServer

variable {s : ChatServer} {fd : Fd} {c : Session}

theorem nicknameAt_eq (hc : s.clients.lookup fd = some c) : s.nicknameAt fd = c.nickname := by
  rw [nicknameAt, hc]
  rfl

/-- {lit}`/online` lists the nicknames of the clients in a room. -/
theorem ChatServer.onlineListMessage_eq (s : ChatServer) (r : Str) :
    s.onlineListMessage r = onlineText r ((s.onlineIn r).map s.nicknameAt) := by
  have hnames : (s.clients.entries.filter fun e => e.2.room == r).flatMap
      (fun e => e.2.nickname ++ str " ") =
        ((s.onlineIn r).map s.nicknameAt).flatMap fun name => name ++ str " " := by
    rw [List.flatMap_map, onlineIn, AList.keysWhere, List.flatMap_map]
    apply List.flatMap_congr
    intro e he
    rw [nicknameAt_eq (AList.lookup_of_mem_entries (List.mem_filter.1 he).1)]
  rw [onlineListMessage, hnames, onlineText]

/-- The counters of the rooms are the numbers of the clients in them. -/
theorem userCounts_eq (hacc : s.hall.Accounted) :
    s.rooms.entries.map (fun e => e.2.userCount) = s.headCounts.map fun e => (e.2 : Int) := by
  have hledger : Ledger s.hall.population s.rooms := hacc.ledger
  rw [headCounts, List.map_map]
  apply List.map_congr_left
  intro e he
  rw [(hledger e.1).counted e.2 (AList.lookup_of_mem_entries he), population_hall]
  rfl

/-- {lit}`/rooms` lists the open rooms with the numbers of the clients in them. -/
theorem roomsListMessage_eq (hacc : s.hall.Accounted) :
    s.roomsListMessage = roomsText s.headCounts := by
  have hledger : Ledger s.hall.population s.rooms := hacc.ledger
  have hrooms : s.rooms.entries.flatMap
      (fun e => e.2.name ++ str "[" ++ intToString e.2.userCount ++ str "] ") =
        s.headCounts.flatMap fun room => room.1 ++ str "[" ++ intToString room.2 ++ str "] " := by
    rw [headCounts, List.flatMap_map]
    apply List.flatMap_congr
    intro e he
    have hroom := AList.lookup_of_mem_entries he
    rw [(hledger e.1).named e.2 hroom, (hledger e.1).counted e.2 hroom, population_hall]
  rw [roomsListMessage, hrooms, roomsText]

end Lists

/-- In every state reachable from start-up: the counter of every room is the
number of clients in it, so that {lit}`/rooms` shows for every room how many names
{lit}`/online` lists there; the lobby is open without a password and every other
room has a user, clients are in an open room as soon as they have a nickname, and
a pending password prompt is for another room than theirs and not for the lobby.
No event that can happen next throws or follows an empty pointer. -/
theorem room_accounting {s : ChatServer} (hs : ReachableState s) :
    (∀ r room, s.rooms.lookup r = some room →
      room.name = r ∧ room.userCount = (s.onlineIn r).length) ∧
    (∀ r, s.onlineListMessage r = onlineText r ((s.onlineIn r).map s.nicknameAt)) ∧
    s.roomsListMessage = roomsText s.headCounts ∧
    (∃ room, s.rooms.lookup lobby = some room ∧ room.password = []) ∧
    (∀ r room, s.rooms.lookup r = some room → r ≠ lobby → 1 ≤ room.userCount) ∧
    (∀ fd c, s.clients.lookup fd = some c →
      (c.state = .stateNickname → c.room = []) ∧
      (c.state ≠ .stateNickname → c.room ≠ [] ∧ c.room ∈ s.rooms) ∧
      (c.state = .stateSetupRoomPassword ∨ c.state = .stateEnterRoomPassword →
        c.connectedRoom ≠ [] ∧ c.connectedRoom ≠ c.room ∧ c.connectedRoom ≠ lobby)) ∧
    (∀ e, s.Enabled e → ∃ s', s.apply e = .ok s') := by
  have hacc := accounted_of_reachable hs
  have hledger : Ledger s.hall.population s.rooms := hacc.ledger
  have hcounted : ∀ r room, s.rooms.lookup r = some room →
      room.userCount = (s.onlineIn r).length := by
    intro r room hroom
    rw [(hledger r).counted room hroom, population_hall]
  refine ⟨fun r room hroom => ⟨(hledger r).named room hroom, hcounted r room hroom⟩,
    s.onlineListMessage_eq, roomsListMessage_eq hacc, ?_, ?_, ?_, ?_⟩
  · rcases AList.mem_iff_lookup.1 hledger.lobby_mem with ⟨room, hroom⟩
    exact ⟨room, hroom, (hledger lobby).lobbyOpen room hroom rfl⟩
  · intro r room hroom hlobby
    rcases hledger.mem_iff.1 (AList.mem_of_lookup hroom) with h | ⟨_, hpos⟩
    · exact absurd h hlobby
    · have hcount := (hledger r).counted room hroom
      omega
  · intro fd c hc
    have hp := ChatServer.hall_lookup_self hc
    have hplaced := hacc.placed fd c.place hp
    refine ⟨hplaced.naming.1, fun hstate => ?_, hplaced.prompted⟩
    have hroom : c.room ≠ [] := fun hnil => hstate (hplaced.naming.2 hnil)
    exact ⟨hroom, hledger.mem_iff.2 (Or.inr ⟨hroom, Hall.population_pos hp⟩)⟩
  · intro e he
    rcases enabled_effect (keyed_of_accounted hacc) he with ⟨s', hs', _⟩
    exact ⟨s', hs'⟩

/-- After the visit the room with a password has its clients counted. -/
theorem visit_accounting : ∃ room, (ChatServer.after visit).rooms.lookup (str "den") = some room ∧
    room.password = str "secret" ∧
    room.userCount = ((ChatServer.after visit).onlineIn (str "den")).length := by
  have hpassword : ((ChatServer.after visit).rooms.lookup (str "den")).map Room.password =
      some (str "secret") := by decide +kernel
  rcases Option.map_eq_some_iff.1 hpassword with ⟨room, hroom, hsecret⟩
  exact ⟨room, hroom, hsecret, ((room_accounting (reachable_after visit)).1 _ _ hroom).2⟩

end EpollChat
