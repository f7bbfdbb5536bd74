import EpollChat.Properties.Output
import EpollChat.Properties.Recipients
import EpollChat.Server.Profile
import EpollChat.Server.Service

/-!
# The server refines the chat service

Forgetting buffers, counters, descriptors and leftovers of answered prompts maps the
server to the chat service.  Every step of the server does what the service does with the
actions the step stands for, and queues to every client what the service tells it.

Main results:

- Theorem {lit}`LineEffect.reacts`: a line does what the service does with it.
- Theorem {lit}`StepEffect.recorded`: so does every step.
- Theorem {lit}`server_refines_service`: after every run, the users and the rooms, and
  everything that was queued to every client, are those of the service.
-/

namespace EpollChat

open ChatServer

/-! ## The abstraction -/

/-- What the service knows of a client. -/
def Session.user (c : Session) : User :=
  match c.state with
  | .stateNickname => .unnamed
  | .stateChat => .named c.nickname c.room .chatting
  | .stateSetupRoomPassword => .named c.nickname c.room (.founding c.connectedRoom)
  | .stateEnterRoomPassword => .named c.nickname c.room (.entering c.connectedRoom)

/-- The texts that were queued to a client. -/
def Session.texts (c : Session) : List Str :=
  c.queued.map Delivery.text

namespace ChatServer

/-- The service that the server stands for. -/
def service (s : ChatServer) : Service where
  users := s.clients.mapVal fun _ c => c.user
  passwords := s.rooms.mapVal fun _ room => room.password

/-- The texts queued to a client so far. -/
def textsTo (s : ChatServer) (fd : Fd) : List Str :=
  ((s.clients.lookup fd).map Session.texts).getD []

/-- The service, with the record of what was queued. -/
def recorded (s : ChatServer) : Service × (Fd → List Str) :=
  (s.service, s.textsTo)

end ChatServer

/-- The actions a transition stands for. -/
def Transition.actions (t : Transition ChatServer Event) : List Action :=
  match t.event with
  | .accept fd nonblocking added => if nonblocking && added then [.connect fd] else []
  | .line client line => [.line client line]
  | .write client result =>
      if (t.pre.clients.lookup client).any fun c => !(c.handleWrite result).1 then
        [.leave client]
      else []
  | .disconnect client => [.leave client]
  | .buffer _ _ => []
  | .rehash clients rooms =>
      [.reorder (clients.mapVal fun _ c => c.user) (rooms.mapVal fun _ room => room.password)]

/-! ## The users -/

namespace ChatServer

variable {s s' : ChatServer} {client fd : Fd} {c : Session} {f : Session → Session} {r : Str}

section Users

theorem user_queueMessage (cl : Session) (origin : Origin) (msg : Str) :
    (cl.queueMessage origin msg).user = cl.user := by
  simp [Session.user]

theorem user_broadcastTo (msg roomName : Str) (cl : Session) :
    (broadcastTo msg roomName cl).user = cl.user := by
  simp [Session.user]

theorem user_hearLeft (s : ChatServer) (c cl : Session) : (s.hearLeft c cl).user = cl.user := by
  simp [Session.user]

theorem user_hearGone (c cl : Session) : (hearGone c cl).user = cl.user := by
  unfold hearGone
  split
  · exact user_queueMessage cl _ _
  · rfl

theorem user_handleWrite (c : Session) (result : WriteResult) :
    (c.handleWrite result).2.user = c.user := by
  rw [Session.handleWrite_eq]
  rfl

theorem isChatting_user (c : Session) : c.user.isChatting = true ↔ c.state = .stateChat := by
  unfold Session.user
  split <;> simp_all [User.isChatting]

/-- A user that is not new is in the room of its client. -/
theorem isIn_user (h : c.state ≠ .stateNickname) : c.user.isIn r = (c.room == r) := by
  unfold Session.user
  split <;> simp_all [User.isIn]

/-- A client that chats is a chatting user. -/
theorem user_of_chat (h : c.state = .stateChat) : c.user = .named c.nickname c.room .chatting := by
  simp only [Session.user, h]

/-- A client that is asked for a password is a user that is asked for one. -/
theorem user_of_entering (h : c.state = .stateEnterRoomPassword) :
    c.user = .named c.nickname c.room (.entering c.connectedRoom) := by
  simp only [Session.user, h]

/-- A client with a nickname is a named user. -/
theorem user_of_named (h : c.state ≠ .stateNickname) :
    ∃ mode, c.user = .named c.nickname c.room mode := by
  unfold Session.user
  cases hstate : c.state with
  | stateNickname => exact absurd hstate h
  | stateChat => exact ⟨_, rfl⟩
  | stateSetupRoomPassword => exact ⟨_, rfl⟩
  | stateEnterRoomPassword => exact ⟨_, rfl⟩

/-- A user chats in the room its client chats in. -/
theorem chatsIn_user (c : Session) (r : Str) :
    c.user.chatsIn r = true ↔ c.state = .stateChat ∧ c.room = r := by
  rw [User.chatsIn, Bool.and_eq_true, isChatting_user]
  refine and_congr_right fun hchat => ?_
  rw [isIn_user (by simp [hchat]), beq_iff_eq]

/-- The user of a descriptor is that of its client. -/
theorem service_users_lookup (s : ChatServer) (fd : Fd) :
    s.service.users.lookup fd = (s.clients.lookup fd).map Session.user :=
  AList.lookup_mapVal _ _ _

/-- The password of a room is that of its entry. -/
theorem service_passwords_lookup (s : ChatServer) (r : Str) :
    s.service.passwords.lookup r = (s.rooms.lookup r).map Room.password :=
  AList.lookup_mapVal _ _ _

/-- The same clients chat in a room. -/
theorem service_chatsIn (s : ChatServer) (r : Str) (fd : Fd) :
    s.service.ChatsIn r fd ↔ s.ChatsIn r fd := by
  unfold Service.ChatsIn ChatServer.ChatsIn
  rw [service_users_lookup]
  cases s.clients.lookup fd with
  | none => simp
  | some cl => simpa using chatsIn_user cl r

theorem service_chats (hcl : s.clients.lookup fd = some c) :
    s.service.Chats fd ↔ c.state = .stateChat := by
  rw [Service.Chats, service_users_lookup, hcl]
  exact isChatting_user c

/-- A client has no room as long as it has no name. -/
theorem unnamed_iff (hacc : s.hall.Accounted) (hc : s.clients.lookup client = some c) :
    c.state = .stateNickname ↔ c.room = [] :=
  (hacc.placed client c.place (hall_lookup_self hc)).naming

/-- A user is in the room its client is in. -/
theorem isIn_user_iff (hacc : s.hall.Accounted) (hc : s.clients.lookup client = some c)
    (hr : r ≠ []) : c.user.isIn r = (c.room == r) := by
  by_cases hstate : c.state = .stateNickname
  · have hnil : c.room = [] := (unnamed_iff hacc hc).1 hstate
    simp [Session.user, hstate, User.isIn, hnil, hr]
  · exact isIn_user hstate

/-- The users in a room with a name are the clients {lit}`/online` lists. -/
theorem service_members (hacc : s.hall.Accounted) (hr : r ≠ []) :
    s.service.members r = s.onlineIn r :=
  AList.keysWhere_mapVal fun _ _ hcl => isIn_user_iff hacc hcl hr

end Users

/-! ## Updates of the users -/

section Updates

/-- A broadcast leaves the tables of the service as they are. -/
theorem service_broadcast (msg roomName : Str) :
    (s.broadcast msg roomName).service = s.service := by
  simp only [service, broadcast, AList.mapVal_mapVal, user_broadcastTo]

/-- An assignment to a client changes its user at most. -/
theorem service_updateClient (hc : s.clients.lookup client = some c) :
    (s.updateClient client f).service = s.service.put client (f c).user := by
  have husers : (s.clients.modify client f).mapVal (fun _ cl => cl.user) =
      (s.clients.mapVal fun _ cl => cl.user).modify client fun _ => (f c).user := by
    apply AList.mapVal_modify
    exact AList.forall_lookup hc rfl
  simp only [service, updateClient, Service.put, husers]

/-- An assignment that keeps the user keeps the service. -/
theorem service_updateClient_eq (huser : ∀ cl, s.clients.lookup client = some cl →
    (f cl).user = cl.user) : (s.updateClient client f).service = s.service := by
  have husers : (s.clients.modify client f).mapVal (fun _ cl => cl.user) =
      s.clients.mapVal fun _ cl => cl.user := AList.mapVal_modify_eq huser
  simp only [service, updateClient, husers]

/-- A queued text leaves the tables of the service as they are. -/
theorem service_queueMessage (msg : Str) : (s.queueMessage client msg).service = s.service :=
  service_updateClient_eq fun cl _ => user_queueMessage cl .direct msg

theorem service_noted (s : ChatServer) (client : Fd) (line : Str) :
    (s.noted client line).service = s.service :=
  service_updateClient_eq fun _ _ => rfl

/-- A write event leaves the service as it is. -/
theorem service_wrote (hc : s.clients.lookup client = some c) (result : WriteResult) :
    (s.wrote client c result).service = s.service := by
  apply service_updateClient_eq
  exact AList.forall_lookup hc (user_handleWrite c result)

/-- An answer changes the user of its client at most. -/
theorem service_answered (hc : s.clients.lookup client = some c) (msg : Str) :
    (s.answered client f msg).service = s.service.put client (f c).user := by
  rw [answered, service_queueMessage, service_updateClient hc]

theorem service_answered_id (msg : Str) : (s.answered client id msg).service = s.service := by
  rw [answered_id, service_queueMessage]

/-- Two changes of one user are the second one. -/
theorem put_put (σ : Service) (u u' : User) : (σ.put client u).put client u' = σ.put client u' := by
  simp only [Service.put, AList.modify_modify]

/-- An assignment to a room that keeps its password keeps all of them. -/
theorem passwords_modify (f : Room → Room) (hf : ∀ room, (f room).password = room.password)
    (name : Str) (rooms : RoomTable) :
    (rooms.modify name f).mapVal (fun _ room => room.password) =
      rooms.mapVal fun _ room => room.password :=
  AList.mapVal_modify_eq fun room _ => hf room

/-- A room that is left keeps its password, or is closed if nobody else is in it. -/
theorem passwords_vacated (hacc : s.hall.Accounted) (hc : s.clients.lookup client = some c)
    (hroom : c.room ≠ []) :
    (s.vacated c).rooms.mapVal (fun _ room => room.password) =
      s.service.passwordsWithout client c.room := by
  have hmem : client ∈ s.onlineIn c.room := mem_onlineIn.2 ⟨c, hc, rfl⟩
  have hopen : c.room ∈ s.rooms := by
    refine hacc.ledger.mem_iff.2 (Or.inr ⟨hroom, ?_⟩)
    exact Hall.population_pos (hall_lookup_self hc)
  rcases AList.mem_iff_lookup.1 hopen with ⟨room, hlookup⟩
  have hcount : room.userCount = (s.onlineIn c.room).length := by
    rw [(hacc.ledger c.room).counted room hlookup, population_hall]
  have halone : room.userCount = 1 ↔ ∀ other ∈ s.onlineIn c.room, other = client := by
    have hclass := AList.countVal_eq_one_iff hmem
    rw [← AList.length_keysWhere] at hclass
    rw [hcount]
    refine Iff.trans ?_ hclass
    exact Int.natCast_inj (n := 1)
  have hdecrease := passwords_modify Room.decreaseUserCounter fun _ => rfl
  rw [vacated_rooms, if_pos (show s.Occupies c from ⟨hroom, hopen⟩), vacate]
  simp only [hlookup, Service.passwordsWithout, service_members hacc hroom, ← halone]
  by_cases hlobby : c.room = lobby
  · simp only [hlobby, ne_eq, not_true_eq_false, and_false, false_and, if_false, hdecrease]
    rfl
  · by_cases hone : room.userCount = 1
    · simp only [hone, hlobby, ne_eq, not_false_eq_true, and_self, if_true, AList.mapVal_erase,
        hdecrease]
      rfl
    · simp only [hone, hlobby, ne_eq, not_false_eq_true, false_and, and_false, if_false, hdecrease]
      rfl

/-- An arrival opens its room without a password, if it is not open. -/
theorem passwords_occupy (rooms : RoomTable) (name : Str) :
    (occupy rooms name).mapVal (fun _ room => room.password) =
      let passwords := rooms.mapVal fun _ room => room.password
      if name ∈ passwords then passwords else passwords.insert name [] := by
  unfold occupy
  rw [passwords_modify Room.increaseUserCounter fun _ => rfl]
  by_cases hmem : name ∈ rooms
  · simp only [hmem, if_true, AList.mem_mapVal]
  · simp only [hmem, if_false, AList.mem_mapVal, AList.mapVal_insert]
    rfl

/-- A join changes the room of one user. -/
theorem service_joined_users (hc : s.clients.lookup client = some c) (target : Str) :
    (s.joined client c target).service.users =
      s.service.users.modify client fun _ => (c.enterRoom target).user := by
  have henter : ∀ cl, s.clients.lookup client = some cl →
      ((s.hearLeft c cl).enterRoom target).user = (c.enterRoom target).user := by
    refine AList.forall_lookup hc ?_
    simp [Session.user, Session.enterRoom]
  simp only [service, joined, broadcast, updateClient, vacated, AList.mapVal_mapVal,
    user_broadcastTo, AList.modify]
  apply AList.mapVal_congr
  intro fd cl hcl
  split <;> rename_i hfd
  · subst hfd
    exact henter cl hcl
  · exact user_hearLeft s c cl

/-- A join is a move of the service. -/
theorem service_joined (hacc : s.hall.Accounted) (hc : s.clients.lookup client = some c)
    (hroom : c.room ≠ []) (target : Str) :
    (s.joined client c target).service =
      { users := s.service.users.modify client fun _ => (c.enterRoom target).user
        passwords :=
          let left := s.service.passwordsWithout client c.room
          if target ∈ left then left else left.insert target [] } := by
  have hpasswords : (s.joined client c target).service.passwords =
      (occupy (s.vacated c).rooms target).mapVal fun _ room => room.password := rfl
  rw [passwords_occupy, passwords_vacated hacc hc hroom] at hpasswords
  rw [← service_joined_users hc, ← hpasswords]

/-- A disconnect is a departure from the service. -/
theorem service_disconnected (hacc : s.hall.Accounted) (hc : s.clients.lookup client = some c) :
    (s.disconnected client c).service = (s.service.leave client c.user).next := by
  have husers : (s.disconnected client c).service.users = s.service.users.erase client := by
    have hleft : ((s.left client c).clients.erase client).mapVal (fun _ cl => cl.user) =
        (s.clients.erase client).mapVal fun _ cl => cl.user := by
      unfold left
      split
      · simp only [updateClient, AList.erase_modify_self, vacated, AList.mapVal_erase,
          AList.mapVal_mapVal, user_hearLeft]
      · rfl
    simp only [service, disconnected, AList.mapVal_erase, AList.mapVal_mapVal,
      user_hearGone] at hleft ⊢
    exact hleft
  by_cases hstate : c.state = .stateNickname
  · have hroom : c.room = [] := (unnamed_iff hacc hc).1 hstate
    have hrooms : (s.disconnected client c).rooms = s.rooms := by
      rw [disconnected_rooms, if_neg]
      exact fun hoccupies => hoccupies.1 hroom
    simp only [Session.user, hstate, Service.leave, ← husers]
    simp only [service, hrooms]
  · have hroom : c.room ≠ [] := fun hnil => hstate ((unnamed_iff hacc hc).2 hnil)
    have hrooms := passwords_vacated hacc hc hroom
    rw [vacated_rooms, ← disconnected_rooms] at hrooms
    rcases user_of_named hstate with ⟨mode, huser⟩
    simp only [huser, Service.leave, ← husers, ← hrooms]
    rfl

end Updates

/-! ## Updates of the records -/

section Texts

variable {ds : List Str}

theorem textsTo_eq (hc : s.clients.lookup fd = some c) : s.textsTo fd = c.texts := by
  rw [textsTo, hc]
  rfl

/-- A client that is only told something has that appended to its record. -/
theorem textsTo_append {g : Session → Session}
    (hlookup : s'.clients.lookup fd = (s.clients.lookup fd).map g)
    (htexts : ∀ cl, s.clients.lookup fd = some cl → (g cl).texts = cl.texts ++ ds)
    (habsent : s.clients.lookup fd = none → ds = []) : s'.textsTo fd = s.textsTo fd ++ ds := by
  rw [textsTo, textsTo, hlookup]
  cases hcl : s.clients.lookup fd with
  | none =>
      rw [habsent hcl]
      rfl
  | some cl => exact htexts cl hcl

/-- An assignment that queues nothing tells nobody anything. -/
theorem textsTo_updateClient (hf : ∀ cl, s.clients.lookup client = some cl →
    (f cl).queued = cl.queued) (fd : Fd) : (s.updateClient client f).textsTo fd = s.textsTo fd := by
  have htexts : ∀ cl, s.clients.lookup client = some cl → (f cl).texts = cl.texts := by
    intro cl hcl
    rw [Session.texts, hf cl hcl, Session.texts]
  exact congrArg (fun texts => texts.getD []) (AList.map_lookup_modify_eq htexts fd)

theorem textsTo_noted (s : ChatServer) (client : Fd) (line : Str) (fd : Fd) :
    (s.noted client line).textsTo fd = s.textsTo fd := by
  have hqueued : ∀ cl, s.clients.lookup client = some cl →
      (cl.noteLine line).queued = cl.queued := fun _ _ => rfl
  exact textsTo_updateClient hqueued fd

theorem textsTo_wrote (hc : s.clients.lookup client = some c) (result : WriteResult) (fd : Fd) :
    (s.wrote client c result).textsTo fd = s.textsTo fd := by
  apply textsTo_updateClient
  refine AList.forall_lookup hc ?_
  rw [Session.handleWrite_eq]

/-- A message to one client. -/
theorem textsTo_queueMessage (hmem : client ∈ s.clients) (msg : Str) (fd : Fd) :
    (s.queueMessage client msg).textsTo fd = s.textsTo fd ++ Service.toUser client msg fd := by
  by_cases hfd : fd = client
  · subst hfd
    refine textsTo_append (g := fun cl => cl.queueMessage .direct msg) ?_ (fun cl _ => ?_) ?_
    · rw [queueMessage_lookup, if_pos rfl]
    · simp [Session.texts, Service.toUser]
    · intro hnone
      exact absurd hmem (AList.lookup_eq_none.1 hnone)
  · refine textsTo_append (g := id) ?_ (fun cl _ => ?_) fun _ => if_neg hfd
    · rw [queueMessage_lookup, if_neg hfd, Option.map_id, id]
    · rw [Service.toUser, if_neg hfd, List.append_nil]
      rfl

/-- An answer tells its client the text. -/
theorem textsTo_answered (hc : s.clients.lookup client = some c)
    (hf : ∀ cl : Session, (f cl).queued = cl.queued) (msg : Str) (fd : Fd) :
    (s.answered client f msg).textsTo fd = s.textsTo fd ++ Service.toUser client msg fd := by
  have hmem : client ∈ (s.updateClient client f).clients :=
    AList.mem_of_lookup (lookup_updateClient_self hc)
  rw [answered, textsTo_queueMessage hmem, textsTo_updateClient fun cl _ => hf cl]

/-- What a broadcast to a room with a name does to the record of one client. -/
theorem texts_broadcastTo (hr : r ≠ []) (msg : Str) (cl : Session) :
    (broadcastTo msg r cl).texts =
      cl.texts ++ if cl.state = .stateChat ∧ cl.room = r then [msg] else [] := by
  rw [Session.texts, broadcastTo_queued hr, List.map_append, Session.texts]
  split <;> rfl

theorem chatsIn_of_absent (hnone : s.clients.lookup fd = none) (r : Str) :
    ¬s.service.ChatsIn r fd := by
  rw [service_chatsIn]
  rintro ⟨cl, hcl, _⟩
  rw [hnone] at hcl
  cases hcl

/-- A message to a room. -/
theorem textsTo_broadcast (hr : r ≠ []) (msg : Str) (fd : Fd) :
    (s.broadcast msg r).textsTo fd = s.textsTo fd ++ s.service.toRoom r msg fd := by
  refine textsTo_append (broadcast_lookup msg r fd) (fun cl hcl => ?_) fun hnone => ?_
  · rw [texts_broadcastTo hr, Service.toRoom]
    simp only [service_chatsIn, chatsIn_iff hcl]
  · rw [Service.toRoom, if_neg (chatsIn_of_absent hnone r)]

/-- The old room is told of a departure. -/
theorem texts_hearLeft (hcl : s.clients.lookup fd = some c) (mover : Session) :
    (s.hearLeft mover c).texts =
      c.texts ++ if s.Occupies mover then
        s.service.toRoom mover.room (leftMessage mover.nickname mover.room) fd else [] := by
  unfold hearLeft
  split <;> rename_i hoccupies
  · rw [texts_broadcastTo hoccupies.1, Service.toRoom]
    simp only [service_chatsIn, chatsIn_iff hcl]
  · rw [List.append_nil]

/-- The two rooms of a move are told of it, and the moving client if it chats. -/
theorem textsTo_joined (hc : s.clients.lookup client = some c) {target : Str}
    (htarget : target ≠ []) (hother : c.room ≠ target) (fd : Fd) :
    (s.joined client c target).textsTo fd =
      s.textsTo fd ++
        ((if s.Occupies c then
            s.service.toRoom c.room (leftMessage c.nickname c.room) fd else []) ++
          if s.service.ChatsIn target fd ∨ (fd = client ∧ c.state = .stateChat) then
            [joinedMessage c.nickname target] else []) := by
  refine textsTo_append (joined_lookup target fd) (fun cl hcl => ?_) fun hnone => ?_
  · rw [texts_broadcastTo htarget]
    by_cases hfd : fd = client
    · subst hfd
      rw [hc] at hcl
      cases hcl
      have htexts := texts_hearLeft hc c
      have helsewhere : ¬s.service.ChatsIn target fd := by
        rw [service_chatsIn, chatsIn_iff hc]
        exact fun hchats => hother hchats.2
      simp only [if_true, Session.enterRoom, hearLeft_state, and_true, true_and, helsewhere,
        false_or, ← List.append_assoc]
      exact congrArg (· ++ _) htexts
    · simp only [hfd, if_false, false_and, or_false, texts_hearLeft hcl c, hearLeft_state,
        hearLeft_room, service_chatsIn, chatsIn_iff hcl, List.append_assoc]
  · have hnobody := chatsIn_of_absent hnone
    have hne : fd ≠ client := by
      rintro rfl
      rw [hc] at hnone
      cases hnone
    simp [Service.toRoom, hnobody, hne]

/-- The others are told that a client has left its room and the server. -/
theorem textsTo_disconnected (hfd : fd ≠ client) :
    (s.disconnected client c).textsTo fd =
      s.textsTo fd ++
        ((if s.Occupies c then
            s.service.toRoom c.room (leftMessage c.nickname c.room) fd else []) ++
          if c.nickname ≠ [] ∧ s.service.Chats fd then [goneMessage c.nickname] else []) := by
  have hlookup := @disconnected_lookup s client c fd
  rw [if_neg hfd] at hlookup
  refine textsTo_append hlookup (fun cl hcl => ?_) fun hnone => ?_
  · have htexts := texts_hearLeft hcl c
    unfold hearGone
    simp only [hearLeft_state, service_chats hcl, ← List.append_assoc, ← htexts]
    split
    · simp [Session.texts, goneMessage]
    · rw [List.append_nil]
  · have hsilent : ¬s.service.Chats fd := by
      rw [Service.Chats, service_users_lookup, hnone]
      simp
    simp [Service.toRoom, chatsIn_of_absent hnone, hsilent]

end Texts

/-! ## The lists -/

section Lists

/-- A client that is in a room with a name is listed under its own name. -/
theorem service_onlineListMessage (hacc : s.hall.Accounted) (hr : r ≠ []) :
    s.service.onlineListMessage r = s.onlineListMessage r := by
  have hnames : ((s.service.users.entries.filter fun e => User.isIn r e.2).flatMap
      fun e => e.2.name ++ str " ") =
        (s.clients.entries.filter fun e => e.2.room == r).flatMap
          fun e => e.2.nickname ++ str " " := by
    refine AList.flatMap_filter_mapVal (m := s.clients) (f := fun _ cl => Session.user cl)
      (p := fun cl => cl.room == r) (q := User.isIn r)
      (g := fun _ (cl : Session) => cl.nickname ++ str " ")
      (k := fun _ (u : User) => u.name ++ str " ")
      (fun fd cl hcl => isIn_user_iff hacc hcl hr) fun fd cl hcl hroom => ?_
    have hstate : cl.state ≠ .stateNickname := by
      intro hstate
      exact hr ((beq_iff_eq.1 hroom).symm.trans ((unnamed_iff hacc hcl).1 hstate))
    rcases user_of_named hstate with ⟨mode, huser⟩
    rw [huser, User.name]
  rw [Service.onlineListMessage, hnames, onlineListMessage]

/-- The counters that are listed are head counts. -/
theorem service_roomsListMessage (hacc : s.hall.Accounted) :
    s.service.roomsListMessage = s.roomsListMessage := by
  have hrooms : (s.service.passwords.entries.flatMap fun e =>
      e.1 ++ str "[" ++ intToString (s.service.members e.1).length ++ str "] ") =
        s.rooms.entries.flatMap fun e =>
          e.2.name ++ str "[" ++ intToString e.2.userCount ++ str "] " := by
    refine AList.flatMap_mapVal
      (g := fun _ (room : Room) =>
        room.name ++ str "[" ++ intToString room.userCount ++ str "] ")
      (k := fun r _ => r ++ str "[" ++ intToString (s.service.members r).length ++ str "] ")
      fun r room hroom => ?_
    have hentry := hacc.ledger r
    have hname : r ≠ [] := by
      rintro rfl
      exact hacc.ledger.nil_notMem (AList.mem_of_lookup hroom)
    rw [service_members hacc hname, hentry.named room hroom, hentry.counted room hroom,
      population_hall]
  rw [Service.roomsListMessage, hrooms, roomsListMessage]

/-- The service finds the user that the server finds. -/
theorem service_findName (target : Str) :
    s.service.findName target = (s.findNickname target).map Sigma.fst := by
  refine AList.findKey_mapVal (m := s.clients) (f := fun _ cl => Session.user cl)
    (p := fun cl => cl.nickname == target && cl.state == .stateChat)
    (q := fun u => u.isChatting && u.name == target) fun fd cl _ => ?_
  rw [Bool.and_comm]
  unfold Session.user
  split <;> rename_i hstate <;> simp [hstate, User.isChatting, User.name]

end Lists

end ChatServer

/-! ## Lines -/

/-- The server does what a reaction of the service says: the users and the rooms are those
after it, and every client is queued what it tells. -/
structure Reacts (s : ChatServer) (reaction : Reaction) (s' : ChatServer) : Prop where
  state : s'.service = reaction.next
  texts : ∀ fd, s'.textsTo fd = s.textsTo fd ++ reaction.tells fd

section Lines

variable {s s' : ChatServer} {client : Fd} {c : Session} {line msg target : Str}

/-- An answer that changes the client. -/
theorem reacts_reply (hc : s.clients.lookup client = some c) {f : Session → Session}
    (hf : ∀ cl : Session, (f cl).queued = cl.queued) (msg : Str) :
    Reacts s (s.service.reply client (f c).user msg) (s.answered client f msg) where
  state := service_answered hc msg
  texts := textsTo_answered hc hf msg

/-- An answer that leaves the client as it is. -/
theorem reacts_answer (hc : s.clients.lookup client = some c) (msg : Str) :
    Reacts s (s.service.answer client msg) (s.answered client id msg) where
  state := service_answered_id msg
  texts := textsTo_answered hc (fun _ => rfl) msg

/-- In an accounted state the room of a client is open. -/
theorem occupies_of_room (hacc : s.hall.Accounted) (hc : s.clients.lookup client = some c)
    (hroom : c.room ≠ []) : s.Occupies c := by
  refine ⟨hroom, hacc.ledger.mem_iff.2 (Or.inr ⟨hroom, ?_⟩)⟩
  exact Hall.population_pos (hall_lookup_self hc)

/-- What a move tells does not depend on the state the client is in after it. -/
theorem textsTo_moved (hacc : s.hall.Accounted) (hc : s.clients.lookup client = some c)
    (hroom : c.room ≠ []) (htarget : target ≠ []) (hother : c.room ≠ target) (fd : Fd) :
    (s.joined client c target).textsTo fd = s.textsTo fd ++
      (s.service.move client c.nickname c.room (c.state == .stateChat) target).tells fd := by
  rw [textsTo_joined hc htarget hother, if_pos (occupies_of_room hacc hc hroom)]
  simp only [Service.move, beq_iff_eq]

/-- A client that chats moves to another room. -/
theorem reacts_moved (hacc : s.hall.Accounted) (hc : s.clients.lookup client = some c)
    (hstate : c.state = .stateChat) (htarget : target ≠ []) (hother : c.room ≠ target) :
    Reacts s (s.service.move client c.nickname c.room true target) (s.joined client c target) := by
  have hroom : c.room ≠ [] := by simp [← unnamed_iff hacc hc, hstate]
  constructor
  · have huser : (c.enterRoom target).user = .named c.nickname target .chatting :=
      user_of_chat (c := c.enterRoom target) hstate
    rw [service_joined hacc hc hroom, huser]
    rfl
  · have htexts := textsTo_moved hacc hc hroom htarget hother
    simpa only [hstate, beq_self_eq_true] using htexts

/-- A client whose prompt is answered moves to the room it was prompted for, and chats. -/
theorem reacts_settled (hacc : s.hall.Accounted) (hc : s.clients.lookup client = some c)
    (hprompting : c.state.Prompting) (msg : Str) :
    Reacts s
      (Service.andTell client (s.service.move client c.nickname c.room false c.connectedRoom) msg)
      ((s.joined client c c.connectedRoom).answered client Session.chat msg) := by
  have hroom : c.room ≠ [] := by
    rw [ne_eq, ← unnamed_iff hacc hc]
    rcases hprompting with h | h <;> simp [h]
  have hprompt : c.connectedRoom ≠ [] ∧ c.connectedRoom ≠ c.room ∧ c.connectedRoom ≠ lobby :=
    (hacc.placed client c.place (hall_lookup_self hc)).prompted hprompting
  have hself := joined_lookup_self hc c.connectedRoom
  constructor
  · have huser : ∀ cl : Session, cl.nickname = c.nickname → cl.room = c.connectedRoom →
        cl.chat.user = .named c.nickname c.connectedRoom .chatting := by
      intro cl hname hin
      rw [user_of_chat (c := cl.chat) rfl]
      exact congrArg₂ (fun name room => User.named name room .chatting) hname hin
    rw [service_answered hself, huser _ (by simp [Session.enterRoom]) (by simp [Session.enterRoom]),
      service_joined hacc hc hroom]
    simp only [Service.put, AList.modify_modify]
    rfl
  · intro fd
    have hsilent : (c.state == .stateChat) = false := by rcases hprompting with h | h <;> simp [h]
    have htexts := textsTo_moved hacc hc hroom hprompt.1 hprompt.2.1.symm fd
    rw [hsilent] at htexts
    rw [textsTo_answered (f := Session.chat) hself (fun _ => rfl), htexts, List.append_assoc]
    rfl

/-- The password of a room is set on the way. -/
theorem Reacts.setPassword {t : ChatServer} {reaction : Reaction} {f : Session → Session}
    (h : Reacts s reaction (t.answered client f msg)) (room password : Str) :
    Reacts s (Service.setPassword reaction room password)
      ((t.updateRoom room fun r => r.setPassword password).answered client f msg) where
  state := by
    have hpasswords : (t.rooms.modify room fun r => r.setPassword password).mapVal
        (fun _ r => r.password) =
          (t.rooms.mapVal fun _ r => r.password).modify room fun _ => password :=
      AList.mapVal_modify fun _ _ => rfl
    rw [Service.setPassword, ← h.state]
    simp only [service, answered, queueMessage, updateClient, updateRoom, hpasswords]
  texts := h.texts

/-- The line of a client that chats is carried out as a command. -/
theorem line_parsed {σ : Service} (hstate : c.state = .stateChat) {cmd : ParsedCommand}
    (hparse : parse line = .ok cmd) :
    σ.line client c.user line = σ.command client c.nickname c.room cmd.command := by
  simp only [user_of_chat hstate, Service.line, commandOf, hparse]

/-- A changed entry does not matter to where the others chat. -/
theorem chatsIn_put {σ : Service} {u : User} {r : Str} {fd : Fd} (hfd : fd ≠ client) :
    (σ.put client u).ChatsIn r fd ↔ σ.ChatsIn r fd := by
  rw [Service.ChatsIn, Service.ChatsIn, Service.put, AList.lookup_modify_ne hfd]

/-- A client without a room enters the lobby. -/
theorem service_arrived (hlobby : lobby ∈ s.rooms) (hc : s.clients.lookup client = some c)
    (hnil : c.room = []) :
    (s.joined client c lobby).service = s.service.put client (c.enterRoom lobby).user := by
  have hnowhere : ¬s.Occupies c := fun hoccupies => hoccupies.1 hnil
  have hpasswords : (s.joined client c lobby).service.passwords =
      (occupy (s.vacated c).rooms lobby).mapVal fun _ room => room.password := rfl
  rw [passwords_occupy, vacated_rooms, if_neg hnowhere] at hpasswords
  simp only [AList.mem_mapVal, hlobby, if_true] at hpasswords
  have husers := service_joined_users hc lobby
  rw [Service.put, ← husers]
  exact congrArg (Service.mk _) hpasswords

/-- A new client takes its name and enters the lobby. -/
theorem reacts_named (hacc : s.hall.Accounted) (hc : s.clients.lookup client = some c)
    (hstate : c.state = .stateNickname) :
    Reacts s (s.service.introduce client line)
      (((s.updateClient client fun c => c.setNickname line).joined client
        (c.setNickname line) lobby).answered client id (welcomeMessage line)) := by
  generalize ht : s.updateClient client (fun c => c.setNickname line) = t
  have hnil : (c.setNickname line).room = [] := (unnamed_iff hacc hc).1 hstate
  have hnamed : t.clients.lookup client = some (c.setNickname line) :=
    ht ▸ named_lookup_self hc line
  have hput : t.service = s.service.put client (c.setNickname line).user :=
    ht ▸ service_updateClient hc
  constructor
  · have hlobby : lobby ∈ t.rooms := ht ▸ hacc.ledger.lobby_mem
    rw [service_answered_id, service_arrived hlobby hnamed hnil, hput, put_put]
    rfl
  · intro fd
    have hold : t.textsTo fd = s.textsTo fd :=
      ht ▸ textsTo_updateClient (f := fun c => c.setNickname line) (fun _ _ => rfl) fd
    have hnowhere : ¬t.Occupies (c.setNickname line) := fun hoccupies => hoccupies.1 hnil
    have hother : (c.setNickname line).room ≠ lobby := by
      rw [hnil]
      exact lobby_ne_nil.symm
    have hheard : (t.service.ChatsIn lobby fd ∨
        (fd = client ∧ (c.setNickname line).state = .stateChat)) ↔
          (s.service.ChatsIn lobby fd ∨ fd = client) := by
      by_cases hfd : fd = client
      · simp [hfd, Session.setNickname]
      · simp only [hfd, false_and, or_false, hput, chatsIn_put hfd]
    rw [textsTo_answered (f := id) (joined_lookup_self hnamed lobby) (fun _ => rfl),
      textsTo_joined hnamed lobby_ne_nil hother, if_neg hnowhere, hold]
    simp only [hheard, List.nil_append, List.append_assoc]
    rfl

/-- Two answers, to the receiver of a private message and to its sender. -/
theorem reacts_whispered {fd : Fd} (hfd : fd ∈ s.clients) (hclient : client ∈ s.clients)
    (received sent : Str) :
    Reacts s (Service.andTell client (s.service.answer fd received) sent)
      ((s.queueMessage fd received).queueMessage client sent) where
  state := (service_queueMessage sent).trans (service_queueMessage received)
  texts other := by
    have hmem : client ∈ (s.queueMessage fd received).clients := AList.mem_modify.2 hclient
    rw [textsTo_queueMessage hmem, textsTo_queueMessage hfd, List.append_assoc]
    rfl

/-- A line does what the service does with it. -/
theorem LineEffect.reacts (h : LineEffect s client c line s')
    (hc : s.clients.lookup client = some c) (hacc : s.hall.Accounted) :
    Reacts s (s.service.line client c.user line) s' := by
  have hchatroom : c.state = .stateChat → c.room ≠ [] := by
    intro hstate
    simp [← unnamed_iff hacc hc, hstate]
  cases h with
  | named hstate =>
      have huser : c.user = .unnamed := by simp only [Session.user, hstate]
      rw [huser]
      exact reacts_named hacc hc hstate
  | passwordSet hstate =>
      have huser : c.user = .named c.nickname c.room (.founding c.connectedRoom) := by
        simp only [Session.user, hstate]
      rw [huser]
      exact (reacts_settled hacc hc (Or.inl hstate) passwordSetMessage).setPassword _ line
  | roomDeleted hstate hroom =>
      have hgone : s.service.passwords.lookup c.connectedRoom = none := by
        rw [service_passwords_lookup, AList.lookup_eq_none.2 hroom]
        rfl
      rw [user_of_entering hstate, Service.line, Service.enter, hgone]
      exact reacts_reply (f := Session.chat) hc (fun _ => rfl) roomDeletedMessage
  | admitted hstate room hroom hpassword =>
      have hopen : s.service.passwords.lookup c.connectedRoom = some room.password := by
        rw [service_passwords_lookup, hroom]
        rfl
      rw [user_of_entering hstate, Service.line, Service.enter, hopen]
      simp only [hpassword, if_true]
      exact reacts_settled hacc hc (Or.inr hstate) passwordSuccessMessage
  | refused hstate room hroom hpassword =>
      have hopen : s.service.passwords.lookup c.connectedRoom = some room.password := by
        rw [service_passwords_lookup, hroom]
        rfl
      rw [user_of_entering hstate, Service.line, Service.enter, hopen]
      simp only [hpassword, if_false]
      exact reacts_reply (f := Session.chat) hc (fun _ => rfl) incorrectPasswordMessage
  | said hstate hparse =>
      rw [line_parsed hstate hparse]
      exact ⟨service_broadcast _ _, textsTo_broadcast (hchatroom hstate) _⟩
  | whispered hstate target text hparse fd cl hfound =>
      have hsomebody : s.service.findName target = some fd := by
        rw [service_findName, hfound]
        rfl
      rcases findNickname_some hfound with ⟨hcl, rfl, _⟩
      rw [line_parsed hstate hparse, ParsedCommand.command, Service.command, Service.whisper,
        hsomebody]
      exact reacts_whispered (AList.mem_of_lookup hcl) (AList.mem_of_lookup hc) _ _
  | notFound hstate target text hparse hfound =>
      have hnobody : s.service.findName target = none := by
        rw [service_findName, hfound]
        rfl
      rw [line_parsed hstate hparse, ParsedCommand.command, Service.command,
        Service.whisper, hnobody]
      exact reacts_answer hc (notFoundMessage target)
  | alreadyInRoom hstate hparse =>
      rw [line_parsed hstate hparse, ParsedCommand.command, Service.command,
        Service.join, if_pos rfl]
      exact reacts_answer hc alreadyInRoomMessage
  | createPrompted hstate target hparse htarget hother hroom =>
      have hgone : s.service.passwords.lookup target = none := by
        rw [service_passwords_lookup, AList.lookup_eq_none.2 hroom]
        rfl
      rw [line_parsed hstate hparse, ParsedCommand.command, Service.command,
        Service.join, if_neg hother, hgone]
      exact reacts_reply (f := fun c => c.prompt .stateSetupRoomPassword target) hc
        (fun _ => rfl) createPasswordPrompt
  | walkedIn hstate target hparse htarget hother room hroom hpassword =>
      have hopen : s.service.passwords.lookup target = some room.password := by
        rw [service_passwords_lookup, hroom]
        rfl
      rw [line_parsed hstate hparse, ParsedCommand.command, Service.command,
        Service.join, if_neg hother, hopen]
      simp only [hpassword, if_true]
      exact reacts_moved hacc hc hstate htarget hother
  | enterPrompted hstate target hparse htarget hother room hroom hpassword =>
      have hopen : s.service.passwords.lookup target = some room.password := by
        rw [service_passwords_lookup, hroom]
        rfl
      rw [line_parsed hstate hparse, ParsedCommand.command, Service.command,
        Service.join, if_neg hother, hopen]
      simp only [hpassword, if_false]
      exact reacts_reply (f := fun c => c.prompt .stateEnterRoomPassword target) hc
        (fun _ => rfl) enterPasswordPrompt
  | inLobby hstate hparse hroom =>
      rw [line_parsed hstate hparse, ParsedCommand.command, Service.command,
        if_pos hroom]
      exact reacts_answer hc inLobbyMessage
  | backToLobby hstate hparse hroom =>
      rw [line_parsed hstate hparse, ParsedCommand.command, Service.command,
        if_neg hroom]
      exact reacts_moved hacc hc hstate lobby_ne_nil hroom
  | onlineListed hstate hparse =>
      rw [line_parsed hstate hparse, ParsedCommand.command, Service.command,
        service_onlineListMessage hacc (hchatroom hstate)]
      exact reacts_answer hc _
  | roomsListed hstate hparse =>
      rw [line_parsed hstate hparse, ParsedCommand.command, Service.command,
        service_roomsListMessage hacc]
      exact reacts_answer hc _
  | ignored hstate hparse =>
      rw [line_parsed hstate hparse, ParsedCommand.command, Service.command]
      exact ⟨rfl, fun fd => (List.append_nil _).symm⟩

end Lines

/-! ## Steps and runs -/

section Runs

variable {s s' : ChatServer} {client fd : Fd} {c : Session} {line : Str} {e : Event}

/-- A client that has not named itself has no name to take leave with. -/
theorem nickname_of_unnamed (hs : ReachableState s) (hc : s.clients.lookup client = some c)
    (hstate : c.state = .stateNickname) : c.nickname = [] := by
  rcases hs with ⟨ts, hrun⟩
  have hlines : Run (LineStep fun _ => True) started ts s :=
    hrun.mono fun _ _ _ hstep => ⟨fun _ _ _ => trivial, hstep⟩
  have hprofiles := forall_profiles (P := fun p => p.state = .stateNickname → p.nickname = [])
    (fun _ => rfl) ?_ (.refl _) hlines ?_
  · exact hprofiles client c.profile (profileOf_eq hc) hstate
  · rintro line p p' - hline hblank hstate'
    cases hline with
    | named => cases hstate'
    | settled => cases hstate'
    | prompted state room hchat hprompting =>
        rcases hprompting with h | h <;> simp [h] at hstate'
    | resumed => cases hstate'
    | kept => exact hblank hstate'
  · intro fd p hp
    cases hp

/-- A change that neither the service nor any record shows. -/
theorem recorded_silent (hstate : s'.service = s.service)
    (htexts : ∀ fd, s'.textsTo fd = s.textsTo fd) : s'.recorded = s.recorded :=
  Prod.ext hstate (funext htexts)

theorem Reacts.recorded {a : Action} (h : Reacts s (s.service.react a) s')
    (hkept : ∀ fd, a.removes fd = false) :
    s'.recorded = serviceMachine.recorded s.recorded [a] := by
  refine Prod.ext h.state (funext fun fd => ?_)
  have hdrops : serviceMachine.drops a fd = false := hkept fd
  simp only [Machine.recorded_cons, Machine.recorded_nil, Machine.record, hdrops]
  exact h.texts fd

/-- A connection is a new user, which is asked for its name. -/
theorem reacts_accepted (hfresh : fd ∉ s.clients) :
    Reacts s (s.service.react (.connect fd)) (s.acceptConnection fd true true) := by
  have hnew : fd ∉ s.service.users := mt AList.mem_mapVal.1 hfresh
  rw [Service.react, if_neg hnew]
  constructor
  · refine (service_queueMessage _).trans ?_
    simp only [service, AList.mapVal_insert]
    rfl
  · intro other
    have hold : textsTo { s with clients := s.clients.insert fd (.accepted fd) } other =
        s.textsTo other := by
      by_cases hother : other = fd
      · subst hother
        simp only [textsTo, AList.lookup_insert, AList.lookup_eq_none.2 hfresh]
        rfl
      · simp only [textsTo, AList.lookup_insert_ne hother]
    have hmem : fd ∈ s.clients.insert fd (.accepted fd) := by simp
    have htold := textsTo_queueMessage
      (s := { s with clients := s.clients.insert fd (.accepted fd) })
      hmem nicknamePrompt other
    rw [hold] at htold
    exact htold

/-- A disconnect is a departure, and ends the record of the client. -/
theorem recorded_disconnected (hacc : s.hall.Accounted)
    (hc : s.clients.lookup client = some c) (hblank : c.state = .stateNickname → c.nickname = []) :
    (s.disconnected client c).recorded = serviceMachine.recorded s.recorded [.leave client] := by
  have hlookup : s.service.users.lookup client = some c.user := by
    rw [service_users_lookup, hc]
    rfl
  have hreact : s.service.react (.leave client) = s.service.leave client c.user := by
    simp only [Service.react, hlookup]
  refine Prod.ext ?_ (funext fun fd => ?_)
  · change _ = (s.service.react (.leave client)).next
    rw [hreact]
    exact service_disconnected hacc hc
  · by_cases hfd : fd = client
    · subst hfd
      simp [ChatServer.recorded, textsTo, disconnected_lookup, Machine.record, serviceMachine,
        Action.removes]
    · have htells : (s.service.leave client c.user).tells fd =
          (if s.Occupies c then
            s.service.toRoom c.room (leftMessage c.nickname c.room) fd else []) ++
            if c.nickname ≠ [] ∧ s.service.Chats fd then [goneMessage c.nickname] else [] := by
        by_cases hstate : c.state = .stateNickname
        · have hnil : c.room = [] := (unnamed_iff hacc hc).1 hstate
          simp [Session.user, hstate, Service.leave, Occupies, hnil, hblank hstate]
        · rcases user_of_named hstate with ⟨mode, huser⟩
          have hroom : c.room ≠ [] := mt (unnamed_iff hacc hc).2 hstate
          rw [huser, if_pos (occupies_of_room hacc hc hroom)]
          rfl
      have hkept : serviceMachine.drops (.leave client) fd = false := by
        simp [serviceMachine, Action.removes, hfd]
      simp only [Machine.recorded_cons, Machine.recorded_nil, Machine.record, hkept]
      refine (textsTo_disconnected hfd).trans ?_
      rw [← htells, ← hreact]
      rfl

/-- Every step does what the service does with the actions it stands for. -/
theorem StepEffect.recorded (h : StepEffect s e s') (hs : ReachableState s) :
    s'.recorded = serviceMachine.recorded s.recorded (Transition.actions ⟨s, e, s'⟩) := by
  have hacc := accounted_of_reachable hs
  cases h with
  | accept fd nonblocking added hfresh =>
      unfold Transition.actions
      cases nonblocking with
      | false => rfl
      | true =>
          cases added with
          | true => exact (reacts_accepted hfresh).recorded fun _ => rfl
          | false =>
              have hsame : (s.acceptConnection fd true false).clients = s.clients :=
                AList.erase_insert_of_notMem hfresh (.accepted fd)
              apply recorded_silent
              · rw [service, hsame]
                rfl
              · intro other
                rw [textsTo, hsame, textsTo]
  | line client line c s' hc heffect =>
      have hnoted := noted_lookup_self hc line
      have hacc' : (s.noted client line).hall.Accounted := by rwa [hall_noted]
      have hreacts := heffect.reacts hnoted hacc'
      have hreact : s.service.react (.line client line) = s.service.line client c.user line := by
        simp only [Service.react, service_users_lookup, hc, Option.map_some]
      refine Reacts.recorded ?_ fun _ => rfl
      rw [hreact]
      rw [service_noted] at hreacts
      refine ⟨hreacts.state, fun fd => ?_⟩
      rw [← textsTo_noted s client line fd]
      exact hreacts.texts fd
  | wrote client result c hc hok =>
      have hactions :
          Transition.actions ⟨s, .write client result, s.wrote client c result⟩ = [] := by
        simp [Transition.actions, hc, hok]
      rw [hactions]
      exact recorded_silent (service_wrote hc result) (textsTo_wrote hc result)
  | dropped client result c hc hok =>
      have hwrote := wrote_lookup_self hc result
      have hacc' : (s.wrote client c result).hall.Accounted := by rwa [hall_wrote hc]
      have hblank : (c.handleWrite result).2.state = .stateNickname →
          (c.handleWrite result).2.nickname = [] := by
        rw [Session.handleWrite_eq]
        exact nickname_of_unnamed hs (c := c) hc
      have hactions : ∀ t, Transition.actions ⟨s, .write client result, t⟩ = [.leave client] := by
        simp [Transition.actions, hc, hok]
      rw [hactions, ← recorded_silent (service_wrote hc result) (textsTo_wrote hc result)]
      exact recorded_disconnected hacc' hwrote hblank
  | disconnect client c hc =>
      exact recorded_disconnected hacc hc (nickname_of_unnamed hs hc)
  | buffer client inBuffer c hc =>
      exact recorded_silent (service_updateClient_eq fun _ _ => rfl)
        (textsTo_updateClient (f := fun c => { c with inBuffer := inBuffer }) fun _ _ => rfl)
  | rehash clients rooms hclients hrooms =>
      have hordered : (clients.mapVal fun _ c => c.user).entries.Perm s.service.users.entries ∧
          (rooms.mapVal fun _ room => room.password).entries.Perm s.service.passwords.entries :=
        ⟨hclients.map _, hrooms.map _⟩
      refine Reacts.recorded (a := .reorder _ _) ?_ fun _ => rfl
      rw [Service.react, if_pos hordered]
      refine ⟨rfl, fun fd => ?_⟩
      have htexts : textsTo { s with clients := clients, rooms := rooms } fd = s.textsTo fd := by
        simp only [textsTo, AList.perm_lookup hclients]
      exact htexts.trans (List.append_nil _).symm

/-- What the service is and has told its users after the actions of a run. -/
theorem run_recorded {ts : List (Transition ChatServer Event)} (hrun : Run Step .started ts s) :
    s.recorded =
      serviceMachine.recorded (.started, fun _ => []) (ts.flatMap Transition.actions) := by
  have hview : ∀ t ∈ ts, t.post.recorded = serviceMachine.recorded t.pre.recorded t.actions := by
    intro t ht
    have hpre := (hrun.reachable_of_mem (.refl _) ht).1
    exact (step_effect (keyed_of_reachable hpre) (hrun.step_of_mem ht)).recorded hpre
  have hrecorded := hrun.recorded_eq recorded Transition.actions hview
  have hstarted : recorded .started = (.started, fun _ => []) := rfl
  rwa [hstarted] at hrecorded

/-- A recorded state shows the service and its transcript. -/
theorem service_of_recorded {as : List Action}
    (h : s.recorded = serviceMachine.recorded (.started, fun _ => []) as) :
    s.service = Service.after as ∧ ∀ fd, s.textsTo fd = Service.transcript as fd :=
  ⟨(congrArg Prod.fst h).trans Machine.recorded_fst, congrFun (congrArg Prod.snd h)⟩

/-- What was written to a client, followed by what is buffered for it, are the texts that were
queued to it. -/
theorem stream_eq_textsTo (hs : ReachableState s) (hc : s.clients.lookup fd = some c) :
    c.written ++ c.outBuffer = (s.textsTo fd).flatten := by
  have hintact := outputIntact_of_reachable hs fd c hc
  rw [hintact.stream, textsTo_eq hc, Session.texts, List.flatMap_def]

/-- After every run from start-up, the users with their names, rooms and prompts, and the open
rooms with their passwords, are those of the chat service after the actions of the run, and
what was queued to every client since it connected is what the service has told it. -/
theorem server_refines_service {ts : List (Transition ChatServer Event)}
    (hrun : Run Step .started ts s) :
    s.service = Service.after (ts.flatMap Transition.actions) ∧
      ∀ fd, s.textsTo fd = Service.transcript (ts.flatMap Transition.actions) fd :=
  service_of_recorded (run_recorded hrun)

end Runs

/-- After the visit the guest has been told what the service tells it. -/
theorem visit_refines_service :
    (ChatServer.after visit).textsTo 6 =
        Service.transcript ((ChatServer.trace visit).flatMap Transition.actions) 6 ∧
      ((ChatServer.after visit).textsTo 6).getLast? = some passwordSuccessMessage :=
  ⟨(server_refines_service (run_trace visit)).2 6, by decide +kernel⟩

end EpollChat
