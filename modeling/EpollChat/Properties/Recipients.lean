import EpollChat.Properties.Accounting

/-!
# Who gets a message to a room

Three views of a room exist side by side: {lit}`broadcast` filters clients by state
and {lit}`room_`, {lit}`/online` scans for {lit}`room_`, and {lit}`user_count_` is
kept by joins and departures.  The last two agree in every reachable state; the
first one leaves out the members that are being asked for a password.

Main results:

- Theorem {lit}`plain_message_recipients`: who gets a plain message, and who of the
  room does not.
-/

namespace EpollChat

open ChatServer

/-- The clients of a room that are being asked for the password of another one. -/
def ChatServer.PromptedIn (s : ChatServer) (roomName : Str) (fd : Fd) : Prop :=
  ∃ cl, s.clients.lookup fd = some cl ∧ cl.state.Prompting ∧ cl.room = roomName

section Recipients

variable {s : ChatServer} {client fd : Fd} {c cl : Session} {r line msg : Str}

theorem mem_onlineIn : fd ∈ s.onlineIn r ↔ ∃ cl, s.clients.lookup fd = some cl ∧ cl.room = r := by
  rw [onlineIn, AList.mem_keysWhere]
  simp

/-- The members of a room with a name are the chatting and the prompted ones. -/
theorem mem_onlineIn_iff (hacc : s.hall.Accounted) (hr : r ≠ []) :
    fd ∈ s.onlineIn r ↔ s.ChatsIn r fd ∨ s.PromptedIn r fd := by
  rw [mem_onlineIn]
  constructor
  · intro hmember
    rcases hmember with ⟨cl, hcl, hroom⟩
    cases hstate : cl.state with
    | stateNickname =>
        have hnil := (hacc.placed fd cl.place (hall_lookup_self hcl)).naming.1 hstate
        exact absurd (hroom.symm.trans hnil) hr
    | stateChat => exact Or.inl ⟨cl, hcl, hstate, hroom⟩
    | stateSetupRoomPassword => exact Or.inr ⟨cl, hcl, Or.inl hstate, hroom⟩
    | stateEnterRoomPassword => exact Or.inr ⟨cl, hcl, Or.inr hstate, hroom⟩
  · intro hmember
    rcases hmember with ⟨cl, hcl, _, hroom⟩ | ⟨cl, hcl, _, hroom⟩
    · exact ⟨cl, hcl, hroom⟩
    · exact ⟨cl, hcl, hroom⟩

/-- A broadcast to a room with a name is queued once to everybody who chats there. -/
theorem broadcastTo_queued (hr : r ≠ []) (cl : Session) :
    (broadcastTo msg r cl).queued =
      cl.queued ++ if cl.state = .stateChat ∧ cl.room = r then [⟨.broadcast r, msg⟩] else [] := by
  unfold broadcastTo
  by_cases hstate : cl.state = .stateChat
  · by_cases hroom : cl.room = r <;> simp [hstate, hroom, hr]
  · simp [hstate]

/-- A client chats in its room if it is at no prompt. -/
theorem chatsIn_iff (hcl : s.clients.lookup fd = some cl) :
    s.ChatsIn r fd ↔ cl.state = .stateChat ∧ cl.room = r := by
  simp [ChatsIn, hcl]

/-- The record of the handed line does not matter to who gets a broadcast. -/
theorem noted_broadcast_queued (hr : r ≠ []) (fd : Fd) :
    (((s.noted client line).broadcast msg r).clients.lookup fd).map (fun cl => cl.queued) =
      (s.clients.lookup fd).map fun cl =>
        cl.queued ++ if s.ChatsIn r fd then [⟨.broadcast r, msg⟩] else [] := by
  rw [broadcast_lookup, noted_lookup]
  cases hcl : s.clients.lookup fd with
  | none => rfl
  | some cl =>
      simp only [Option.map_some, broadcastTo_queued hr, chatsIn_iff hcl]
      split <;> rfl

end Recipients

/-- A second client of the room is asked for the password of another room. -/
def waiting : List Event :=
  visit ++ [.line 6 (str "/join attic")]

/-- A member that is asked for a password misses the message. -/
theorem waiting_misses :
    ¬∀ (s : ChatServer) (client : Fd) (c : Session) (line : Str), ReachableState s →
      s.clients.lookup client = some c → c.state = .stateChat →
      parse line = .ok ⟨.plainMessage, [], line⟩ →
      ∃ s', s.processMessage client line = .ok s' ∧
        ∀ fd cl, s.clients.lookup fd = some cl → cl.room = c.room →
          (s'.clients.lookup fd).map (fun cl' => cl'.queued) =
            some (cl.queued ++ [⟨.broadcast c.room, chatMessage c.nickname line⟩]) := by
  intro hclaim
  have hann : ((ChatServer.after waiting).clients.lookup 5).map
      (fun c => (c.state, c.room)) = some (.stateChat, str "den") := by decide +kernel
  have hbob : ((ChatServer.after waiting).clients.lookup 6).map
      (fun c => (c.room, c.queued.length)) = some (str "den", 7) := by decide +kernel
  have hmissed : ((ChatServer.after waiting).processMessage 5 (str "hello")).toOption.bind
      (fun s' => (s'.clients.lookup 6).map fun c => c.queued.length) = some 7 := by decide +kernel
  rcases Option.map_eq_some_iff.1 hann with ⟨c, hc, hplace⟩
  rcases Prod.mk.inj hplace with ⟨hchat, hden⟩
  rcases Option.map_eq_some_iff.1 hbob with ⟨cl, hcl, hbefore⟩
  rcases Prod.mk.inj hbefore with ⟨hroom, hlength⟩
  rcases hclaim _ 5 c (str "hello") (reachable_after waiting) hc hchat (by decide +kernel) with
    ⟨s', hs', hqueued⟩
  have hheard := hqueued 6 cl hcl (hroom.trans hden.symm)
  rcases Option.map_eq_some_iff.1 hheard with ⟨cl', hcl', hdelivered⟩
  simp only [hs', Except.toOption, Option.bind_some, hcl', Option.map_some, hdelivered,
    List.length_append, hlength, Option.some.injEq] at hmissed
  cases hmissed

/-- For every reachable state and every plain message of a client that chats: it is
queued once to every client that chats in the same room and to nobody else.  The
clients that {lit}`/online` lists by their nicknames are those whose {lit}`room_` is
that room, and they are as many as its counter says and {lit}`/rooms` shows.  They are
the recipients and, beside them, the clients of the room that are being asked for a
password. -/
theorem plain_message_recipients {s : ChatServer} (hs : ReachableState s) {client : Fd}
    {c : Session} (hc : s.clients.lookup client = some c) (hchat : c.state = .stateChat)
    {line target text : Str} (hparse : parse line = .ok ⟨.plainMessage, target, text⟩) :
    (∃ s', s.processMessage client line = .ok s' ∧
      ∀ fd, (s'.clients.lookup fd).map (fun cl => cl.queued) =
        (s.clients.lookup fd).map fun cl =>
          cl.queued ++ if s.ChatsIn c.room fd then
            [⟨.broadcast c.room, chatMessage c.nickname line⟩] else []) ∧
    (s.onlineIn c.room).Nodup ∧
    (∀ fd, fd ∈ s.onlineIn c.room ↔
      ∃ cl, s.clients.lookup fd = some cl ∧ cl.room = c.room) ∧
    (∃ room, s.rooms.lookup c.room = some room ∧
      room.userCount = (s.onlineIn c.room).length) ∧
    (∀ fd, fd ∈ s.onlineIn c.room ↔ s.ChatsIn c.room fd ∨ s.PromptedIn c.room fd) ∧
    s.onlineListMessage c.room = onlineText c.room ((s.onlineIn c.room).map s.nicknameAt) ∧
    s.roomsListMessage = roomsText s.headCounts ∧
    (c.room, (s.onlineIn c.room).length) ∈ s.headCounts := by
  have hacc := accounted_of_reachable hs
  have hopen := ChatsIn.open hacc ⟨c, hc, hchat, rfl⟩
  refine ⟨⟨_, processMessage_plain hc hchat hparse, noted_broadcast_queued hopen.1⟩,
    AList.nodup_keysWhere _ _, fun fd => mem_onlineIn, ?_, fun fd => mem_onlineIn_iff hacc hopen.1,
    s.onlineListMessage_eq c.room, roomsListMessage_eq hacc, ?_⟩
  · rcases AList.mem_iff_lookup.1 hopen.2 with ⟨room, hroom⟩
    have hledger : Ledger s.hall.population s.rooms := hacc.ledger
    refine ⟨room, hroom, ?_⟩
    rw [(hledger c.room).counted room hroom, population_hall]
  · rcases List.mem_map.1 (AList.mem_keys.1 hopen.2) with ⟨e, he, hroom⟩
    rw [← hroom]
    exact List.mem_map.2 ⟨e, he, rfl⟩

/-- The member at the prompt has nothing new queued. -/
theorem waiting_recipients : ∃ s',
    (ChatServer.after waiting).processMessage 5 (str "hello") = .ok s' ∧
      (s'.clients.lookup 6).map (fun cl => cl.queued) =
        ((ChatServer.after waiting).clients.lookup 6).map fun cl => cl.queued := by
  have hann : ((ChatServer.after waiting).clients.lookup 5).map (fun c => (c.state, c.room)) =
      some (.stateChat, str "den") := by decide +kernel
  have hbob : ¬(ChatServer.after waiting).ChatsIn (str "den") 6 := by decide +kernel
  rcases Option.map_eq_some_iff.1 hann with ⟨c, hc, hplace⟩
  rcases Prod.mk.inj hplace with ⟨hchat, hden⟩
  rcases (plain_message_recipients (reachable_after waiting) hc hchat
    (by decide +kernel : parse (str "hello") = .ok ⟨.plainMessage, [], str "hello"⟩)).1 with
    ⟨s', hs', hqueued⟩
  refine ⟨s', hs', ?_⟩
  rw [hqueued 6, hden]
  simp [hbob]

end EpollChat
