import EpollChat.Properties.Frame

/-!
# The history of a room

What happens in a room is read off the states around a step: a plain message is
processed for a client of the room, the {lit}`room_` of a client ceases to be the
room, or it becomes the room.  The texts that {lit}`broadcast` queues to a member
are compared with these events.

Main results:

- Theorem {lit}`StepEffect.heard`: a step queues to a member of a room the message
  of its event in that room, if it has one.
- Theorem {lit}`room_history`: over a whole segment of a run, every member hears the
  events of its room in order and exactly once.
-/

namespace EpollChat

open ChatServer

/-! ## Events of a room -/

/-- What happens in a room. -/
inductive RoomEvent
  | said (nickname text : Str)
  | left (nickname : Str)
  | joined (nickname : Str)
deriving DecidableEq

/-- The text that tells a room of one of its events. -/
def RoomEvent.message (room : Str) : RoomEvent → Str
  | .said nickname text => chatMessage nickname text
  | .left nickname => leftMessage nickname room
  | .joined nickname => joinedMessage nickname room

section RoomEvents

variable (r : Str) (t : Transition ChatServer Event)

/-- The plain message that is processed for a client of the room. -/
def spoken : List RoomEvent :=
  match t.event with
  | .line client line =>
      match t.pre.clients.lookup client, parse line with
      | some c, .ok cmd =>
          if c.state = .stateChat ∧ c.room = r ∧ cmd.type = .plainMessage then
            [.said c.nickname cmd.text]
          else []
      | _, _ => []
  | _ => []

/-- The clients whose {lit}`room_` ceases to be the room. -/
def departures : List RoomEvent :=
  t.pre.clients.entries.filterMap fun e =>
    if e.2.room = r ∧ t.post.roomOf e.1 ≠ some r then some (.left e.2.nickname) else none

/-- The clients whose {lit}`room_` becomes the room. -/
def arrivals : List RoomEvent :=
  t.post.clients.entries.filterMap fun e =>
    if e.2.room = r ∧ t.pre.roomOf e.1 ≠ some r then some (.joined e.2.nickname) else none

def roomEvents : List RoomEvent :=
  spoken r t ++ departures r t ++ arrivals r t

end RoomEvents

/-! ### Only the subject of a step has events -/

section Subject

variable {s s' : ChatServer} {e : Event} {a fd : Fd} {r : Str}

/-- If no client changes its room, nobody leaves and nobody joins. -/
theorem no_moves (h : ∀ fd, s'.roomOf fd = s.roomOf fd) :
    departures r ⟨s, e, s'⟩ = [] ∧ arrivals r ⟨s, e, s'⟩ = [] := by
  constructor
  · apply List.filterMap_eq_nil_iff.2
    intro entry hentry
    have hroom : s.roomOf entry.1 = some entry.2.room := by
      rw [ChatServer.roomOf, AList.lookup_of_mem_entries hentry]
      rfl
    simp [h, hroom]
  · apply List.filterMap_eq_nil_iff.2
    intro entry hentry
    have hroom : s'.roomOf entry.1 = some entry.2.room := by
      rw [ChatServer.roomOf, AList.lookup_of_mem_entries hentry]
      rfl
    simp [← h, hroom]

/-- Nobody but the client of the event can have left. -/
theorem departures_subject (hothers : ∀ fd, fd ≠ a → s'.roomOf fd = s.roomOf fd) :
    departures r ⟨s, e, s'⟩ = ((s.clients.lookup a).bind fun c =>
      if c.room = r ∧ s'.roomOf a ≠ some r then some (.left c.nickname) else none).toList := by
  apply AList.filterMap_entries_eq
  intro entry hentry ha
  have hroom : s.roomOf entry.1 = some entry.2.room := by
    rw [ChatServer.roomOf, AList.lookup_of_mem_entries hentry]
    rfl
  simp [hothers entry.1 ha, hroom]

/-- Nobody but the client of the event can have arrived. -/
theorem arrivals_subject (hothers : ∀ fd, fd ≠ a → s'.roomOf fd = s.roomOf fd) :
    arrivals r ⟨s, e, s'⟩ = ((s'.clients.lookup a).bind fun c =>
      if c.room = r ∧ s.roomOf a ≠ some r then some (.joined c.nickname) else none).toList := by
  apply AList.filterMap_entries_eq
  intro entry hentry ha
  have hroom : s'.roomOf entry.1 = some entry.2.room := by
    rw [ChatServer.roomOf, AList.lookup_of_mem_entries hentry]
    rfl
  simp [← hothers entry.1 ha, hroom]

section Moves

variable {c : Session}

/-- A move is a departure from the old room and an arrival in the new one. -/
theorem moves_of_move (hothers : ∀ fd, fd ≠ a → s'.roomOf fd = s.roomOf fd)
    (hc : s.clients.lookup a = some c) {c' : Session} (hc' : s'.clients.lookup a = some c')
    (hroom : c'.room ≠ c.room) :
    departures r ⟨s, e, s'⟩ = (if c.room = r then [.left c.nickname] else []) ∧
      arrivals r ⟨s, e, s'⟩ = if c'.room = r then [.joined c'.nickname] else [] := by
  rw [departures_subject hothers, arrivals_subject hothers, hc, hc']
  simp only [ChatServer.roomOf, hc, hc', Option.map_some, Option.bind_some]
  constructor
  · by_cases hr : c.room = r
    · subst hr
      simp [hroom]
    · simp [hr]
  · by_cases hr : c'.room = r
    · subst hr
      simp [hroom.symm]
    · simp [hr]

/-- A client that is removed departs, and nobody arrives. -/
theorem moves_of_removal (hothers : ∀ fd, fd ≠ a → s'.roomOf fd = s.roomOf fd)
    (hc : s.clients.lookup a = some c) (hgone : s'.clients.lookup a = none) :
    departures r ⟨s, e, s'⟩ = (if c.room = r then [.left c.nickname] else []) ∧
      arrivals r ⟨s, e, s'⟩ = [] := by
  rw [departures_subject hothers, arrivals_subject hothers, hc, hgone]
  constructor
  · by_cases hr : c.room = r <;> simp [ChatServer.roomOf, hgone, hr]
  · rfl

/-- A new client is not in a room yet. -/
theorem moves_of_arrival (hothers : ∀ fd, fd ≠ a → s'.roomOf fd = s.roomOf fd)
    (hnew : s.clients.lookup a = none) (hroom : s'.roomOf a ≠ some r) :
    departures r ⟨s, e, s'⟩ = [] ∧ arrivals r ⟨s, e, s'⟩ = [] := by
  rw [departures_subject hothers, arrivals_subject hothers, hnew]
  constructor
  · rfl
  · cases hc' : s'.clients.lookup a with
    | none => rfl
    | some c' =>
        have hc'room : c'.room ≠ r := by
          rintro rfl
          exact hroom (by rw [ChatServer.roomOf, hc', Option.map_some])
        simp [hc'room]

end Moves

/-! ### The message of a line -/

/-- A line that is processed as a plain message. -/
def Session.Speaks (c : Session) (line : Str) : Prop :=
  c.state = .stateChat ∧ parse line = .ok ⟨.plainMessage, [], line⟩

/-- A line that is not for the room says nothing there. -/
theorem spoken_eq_nil {c : Session} {line : Str} (hc : s.clients.lookup a = some c)
    (hsilent : ¬c.Speaks line) : spoken r ⟨s, .line a line, s'⟩ = [] := by
  have hresult := parse_result line
  unfold Session.Speaks at hsilent
  simp only [spoken, hc]
  generalize parse line = result at hresult hsilent
  cases hresult with
  | plainMessage => simp_all
  | privateMessage target text => simp
  | joinRoom target htarget => simp
  | leaveRoom => simp
  | onlineList => simp
  | roomList => simp
  | unknown => simp

/-- A line for the room says itself there. -/
theorem spoken_of_speaks {c : Session} {line : Str} (hc : s.clients.lookup a = some c)
    (hspeaks : c.Speaks line) :
    spoken r ⟨s, .line a line, s'⟩ = if c.room = r then [.said c.nickname line] else [] := by
  simp [spoken, hc, hspeaks.1, hspeaks.2]

end Subject

/-! ## What a member hears -/

/-- The texts that {lit}`broadcast` with this room name has queued to a client. -/
def Session.heard (r : Str) (c : Session) : List Str :=
  c.queued.filterMap fun d => if d.origin = .broadcast r then some d.text else none

def ChatServer.heardBy (s : ChatServer) (r : Str) (b : Fd) : List Str :=
  ((s.clients.lookup b).map (Session.heard r)).getD []

theorem Session.heard_queueMessage (r : Str) (c : Session) (origin : Origin) (msg : Str) :
    (c.queueMessage origin msg).heard r =
      c.heard r ++ if origin = .broadcast r then [msg] else [] := by
  by_cases h : origin = .broadcast r <;> simp [heard, h]

/-- A member hears a broadcast exactly if it is for its room. -/
theorem Session.heard_broadcastTo {r : Str} {c : Session} (hchat : c.state = .stateChat)
    (hroom : c.room = r) (msg x : Str) :
    (broadcastTo msg x c).heard r = c.heard r ++ if x = r then [msg] else [] := by
  unfold broadcastTo
  rw [if_neg (by simp [hchat])]
  by_cases hx : x = r
  · rw [if_pos (Or.inr (hroom.trans hx.symm)), heard_queueMessage]
    simp [hx]
  · split
    · rw [heard_queueMessage]
      simp [hx]
    · simp

namespace ChatServer

variable {s : ChatServer} {client b : Fd} {c : Session} {r : Str} {f : Session → Session}

/-- An assignment that queues nothing is not heard. -/
theorem heardBy_updateClient
    (hf : ∀ cl, s.clients.lookup client = some cl → (f cl).queued = cl.queued) :
    (s.updateClient client f).heardBy r b = s.heardBy r b := by
  have hheard : ∀ cl, s.clients.lookup client = some cl → (f cl).heard r = cl.heard r := by
    intro cl hcl
    rw [Session.heard, hf cl hcl, Session.heard]
  exact congrArg (fun texts => texts.getD []) (AList.map_lookup_modify_eq hheard b)

/-- A text for one client is not heard as one for a room. -/
theorem heardBy_queueMessage (msg : Str) :
    (s.queueMessage client msg).heardBy r b = s.heardBy r b := by
  have hheard : ∀ cl, s.clients.lookup client = some cl →
      (cl.queueMessage .direct msg).heard r = cl.heard r := by
    intro cl _
    simp [Session.heard_queueMessage]
  exact congrArg (fun texts => texts.getD []) (AList.map_lookup_modify_eq hheard b)

/-- An answer is not heard as a text for a room. -/
theorem heardBy_answered (hf : ∀ c, (f c).queued = c.queued) (msg : Str) :
    (s.answered client f msg).heardBy r b = s.heardBy r b := by
  rw [answered, heardBy_queueMessage, heardBy_updateClient fun cl _ => hf cl]

theorem heardBy_noted (line : Str) : (s.noted client line).heardBy r b = s.heardBy r b :=
  heardBy_updateClient fun _ _ => rfl

theorem heardBy_wrote (hc : s.clients.lookup client = some c) (result : WriteResult) :
    (s.wrote client c result).heardBy r b = s.heardBy r b := by
  apply heardBy_updateClient
  refine AList.forall_lookup hc ?_
  rw [Session.handleWrite_eq]

/-- A member of a room hears the broadcasts to it. -/
theorem heardBy_broadcast (hb : s.ChatsIn r b) (msg x : Str) :
    (s.broadcast msg x).heardBy r b = s.heardBy r b ++ if x = r then [msg] else [] := by
  rcases hb with ⟨cl, hcl, hchat, hroom⟩
  simp [heardBy, hcl, Session.heard_broadcastTo hchat hroom]

/-- A member hears a departure exactly if it is from its room. -/
theorem heard_hearLeft {cl : Session} (hchat : cl.state = .stateChat) (hroom : cl.room = r)
    (hnil : r ≠ []) (hopen : r ∈ s.rooms) :
    (s.hearLeft c cl).heard r =
      cl.heard r ++ if c.room = r then [leftMessage c.nickname r] else [] := by
  unfold hearLeft
  by_cases hr : c.room = r
  · have hoccupies : s.Occupies c := ⟨hr ▸ hnil, hr ▸ hopen⟩
    rw [if_pos hoccupies, Session.heard_broadcastTo hchat hroom, hr]
  · rw [if_neg hr]
    split
    · rw [Session.heard_broadcastTo hchat hroom, if_neg hr]
    · rw [List.append_nil]

/-- A member of a room hears who leaves and who joins it. -/
theorem heardBy_joined (hb : s.ChatsIn r b) (hne : b ≠ client) (hnil : r ≠ [])
    (hopen : r ∈ s.rooms) (x : Str) :
    (s.joined client c x).heardBy r b =
      s.heardBy r b ++ (if c.room = r then [leftMessage c.nickname r] else []) ++
        if x = r then [joinedMessage c.nickname r] else [] := by
  rcases hb with ⟨cl, hcl, hchat, hroom⟩
  have hself : (broadcastTo (joinedMessage c.nickname x) x (s.hearLeft c cl)).heard r =
      (s.hearLeft c cl).heard r ++ if x = r then [joinedMessage c.nickname x] else [] :=
    Session.heard_broadcastTo (by simpa using hchat) (by simpa using hroom) _ _
  rw [heard_hearLeft hchat hroom hnil hopen] at hself
  simp only [heardBy, joined_lookup, hcl, Option.map_some, if_neg hne, Option.getD_some, hself]
  by_cases hx : x = r <;> simp [hx]

/-- A member of a room hears who leaves it by disconnecting. -/
theorem heardBy_disconnected (hb : s.ChatsIn r b) (hne : b ≠ client) (hnil : r ≠ [])
    (hopen : r ∈ s.rooms) :
    (s.disconnected client c).heardBy r b =
      s.heardBy r b ++ if c.room = r then [leftMessage c.nickname r] else [] := by
  rcases hb with ⟨cl, hcl, hchat, hroom⟩
  have hgone : (hearGone c (s.hearLeft c cl)).heard r = (s.hearLeft c cl).heard r := by
    unfold hearGone
    split
    · simp [Session.heard_queueMessage]
    · rfl
  simp [heardBy, disconnected_lookup, hne, hcl, hgone, heard_hearLeft hchat hroom hnil hopen]

end ChatServer

/-! ## One step -/

/-- What a line means to member {lit}`b` of room {lit}`r`: nothing, a message, or a
move of the client that sent it. -/
inductive Told (s : ChatServer) (client : Fd) (c : Session) (line r : Str) (b : Fd)
    (s' : ChatServer) : Prop
  | quiet (hsilent : ¬c.Speaks line) (hrooms : ∀ fd, s'.roomOf fd = s.roomOf fd)
      (hheard : s'.heardBy r b = s.heardBy r b)
  | said (hspeaks : c.Speaks line) (hrooms : ∀ fd, s'.roomOf fd = s.roomOf fd)
      (hheard : s'.heardBy r b =
        s.heardBy r b ++ if c.room = r then [chatMessage c.nickname line] else [])
  | moved (hsilent : ¬c.Speaks line) (c' : Session) (hc' : s'.clients.lookup client = some c')
      (hroom : c'.room ≠ c.room) (hheard : s'.heardBy r b =
        s.heardBy r b ++ (if c.room = r then [leftMessage c.nickname r] else []) ++
          if c'.room = r then [joinedMessage c'.nickname r] else [])

section Step

variable {s s' : ChatServer} {client b : Fd} {c : Session} {r line : Str} {e : Event}

theorem ChatServer.ChatsIn.congr (hb : s.ChatsIn r b)
    (h : s'.clients.lookup b = s.clients.lookup b) : s'.ChatsIn r b := by
  unfold ChatServer.ChatsIn
  rw [h]
  exact hb

theorem ChatServer.ChatsIn.noted (hb : s.ChatsIn r b) (line : Str) :
    (s.noted client line).ChatsIn r b := by
  rcases hb with ⟨cl, hcl, hchat, hroom⟩
  rw [ChatServer.noted, ChatServer.ChatsIn, updateClient_lookup, hcl]
  split
  · exact ⟨cl.noteLine line, rfl, hchat, hroom⟩
  · exact ⟨cl, rfl, hchat, hroom⟩

/-- A member that stays in its room is not the client that moves. -/
theorem ChatServer.ChatsIn.ne_of_moved (hb : s.ChatsIn r b) (hb' : s'.ChatsIn r b)
    (hc : s.clients.lookup client = some c) {c' : Session}
    (hc' : s'.clients.lookup client = some c') (hroom : c'.room ≠ c.room) : b ≠ client := by
  rintro rfl
  rcases hb with ⟨cl, hcl, _, hbefore⟩
  rcases hb' with ⟨cl', hcl', _, hafter⟩
  rw [hc] at hcl
  rw [hc'] at hcl'
  cases hcl
  cases hcl'
  exact hroom (hafter.trans hbefore.symm)

/-- A line that moves its client by {lit}`join_room`. -/
theorem Told.joined (hacc : s.hall.Accounted) (hc : s.clients.lookup client = some c)
    (hb : s.ChatsIn r b) (hb' : s'.ChatsIn r b) (hsilent : ¬c.Speaks line) {x : Str}
    (hother : c.room ≠ x) {c' : Session} (hc' : s'.clients.lookup client = some c')
    (hroom : c'.room = x) (hnickname : c'.nickname = c.nickname)
    (hheard : s'.heardBy r b = (s.joined client c x).heardBy r b) :
    Told s client c line r b s' := by
  have hmove : c'.room ≠ c.room := by
    rw [hroom]
    exact hother.symm
  refine .moved hsilent c' hc' hmove ?_
  rw [hheard, heardBy_joined hb (hb.ne_of_moved hb' hc hc' hmove) (hb.open hacc).1
    (hb.open hacc).2, hroom, hnickname]

/-- A line that moves its client into the room it was prompted for. -/
theorem Told.answered (hacc : s.hall.Accounted) (hc : s.clients.lookup client = some c)
    (hb : s.ChatsIn r b) (hb' : s'.ChatsIn r b) (hsilent : ¬c.Speaks line) {x msg : Str}
    (hother : c.room ≠ x)
    (hclients : s'.clients = ((s.joined client c x).answered client Session.chat msg).clients) :
    Told s client c line r b s' := by
  have hself := answered_lookup_self (joined_lookup_self hc x) Session.chat msg
  have hchat : ∀ cl : Session, cl.chat.queued = cl.queued := fun _ => rfl
  have hheard : ((s.joined client c x).answered client Session.chat msg).heardBy r b =
      (s.joined client c x).heardBy r b := heardBy_answered hchat msg
  rw [← hclients] at hself
  refine .joined hacc hc hb hb' hsilent hother hself ?_ ?_ ?_
  · simp [Session.chat, Session.enterRoom]
  · simp [Session.chat, Session.enterRoom]
  · rw [← hheard, heardBy, heardBy, hclients]

theorem not_speaks_of_state (hstate : c.state ≠ .stateChat) : ¬c.Speaks line :=
  fun hspeaks => hstate hspeaks.1

theorem not_speaks_of_parse {cmd : ParsedCommand} (hparse : parse line = .ok cmd)
    (htype : cmd.type ≠ .plainMessage) : ¬c.Speaks line := by
  intro hspeaks
  rw [hspeaks.2] at hparse
  cases hparse
  exact htype rfl

/-- A line that is only answered. -/
theorem Told.replied (hsilent : ¬c.Speaks line) {f : Session → Session} (msg : Str)
    (hroom : ∀ cl, (f cl).room = cl.room) (hqueued : ∀ cl, (f cl).queued = cl.queued) :
    Told s client c line r b (s.answered client f msg) := by
  refine .quiet hsilent (fun fd => ?_) (heardBy_answered hqueued msg)
  rw [ChatServer.answered, roomOf_queueMessage, roomOf_updateClient fun cl _ => hroom cl]

/-- The line that names its client moves it into the lobby. -/
theorem Told.named (hacc : s.hall.Accounted) (hc : s.clients.lookup client = some c)
    (hb : s.ChatsIn r b) (hstate : c.state = .stateNickname)
    (hclients : s' = ((s.updateClient client fun c => c.setNickname line).joined client
      (c.setNickname line) lobby).answered client id (welcomeMessage line))
    (hb' : s'.ChatsIn r b) : Told s client c line r b s' := by
  subst hclients
  have hnil : c.room = [] := (hacc.placed client c.place (hall_lookup_self hc)).naming.1 hstate
  have hnamed := named_lookup_self hc line
  have hself := answered_lookup_self (joined_lookup_self hnamed lobby) id (welcomeMessage line)
  have hmove : lobby ≠ c.room := hnil ▸ lobby_ne_nil
  have hne := hb.ne_of_moved hb' hc hself (by simpa [Session.enterRoom] using hmove)
  have hopen := hb.open hacc
  have hbefore : (s.updateClient client fun c => c.setNickname line).ChatsIn r b :=
    hb.congr (by rw [updateClient_lookup, if_neg hne])
  refine .moved (not_speaks_of_state (by simp [hstate])) _ hself
    (by simpa [Session.enterRoom] using hmove) ?_
  have hnaming : (s.updateClient client fun c => c.setNickname line).heardBy r b =
      s.heardBy r b := heardBy_updateClient fun _ _ => rfl
  rw [answered_id, heardBy_queueMessage, heardBy_joined hbefore hne hopen.1 hopen.2, hnaming]
  simp [Session.setNickname, Session.enterRoom, hnil, hopen.1.symm]

/-- What a line of any kind means to a member of a room. -/
theorem LineEffect.told (h : LineEffect s client c line s') (hacc : s.hall.Accounted)
    (hc : s.clients.lookup client = some c) (hb : s.ChatsIn r b) (hb' : s'.ChatsIn r b) :
    Told s client c line r b s' := by
  have hplaced := hacc.placed client c.place (hall_lookup_self hc)
  have hprompted : c.state.Prompting → c.room ≠ c.connectedRoom := fun hstate =>
    (hplaced.prompted hstate).2.1.symm
  cases h with
  | named hstate => exact .named hacc hc hb hstate rfl hb'
  | passwordSet hstate =>
      exact .answered hacc hc hb hb' (not_speaks_of_state (by simp [hstate]))
        (hprompted (Or.inl hstate)) rfl
  | admitted hstate room hroom hpassword =>
      exact .answered hacc hc hb hb' (not_speaks_of_state (by simp [hstate]))
        (hprompted (Or.inr hstate)) rfl
  | walkedIn hstate target hparse htarget hother room hroom hpassword =>
      refine .joined hacc hc hb hb' (not_speaks_of_parse hparse (by simp)) hother
        (joined_lookup_self hc target) ?_ ?_ rfl
      · simp [Session.enterRoom]
      · simp [Session.enterRoom]
  | backToLobby hstate hparse hroom =>
      refine .joined hacc hc hb hb' (not_speaks_of_parse hparse (by simp)) hroom
        (joined_lookup_self hc lobby) ?_ ?_ rfl
      · simp [Session.enterRoom]
      · simp [Session.enterRoom]
  | said hstate hparse =>
      refine .said ⟨hstate, hparse⟩ (fun fd => roomOf_broadcast _ _) ?_
      rw [heardBy_broadcast hb]
  | whispered hstate target text hparse fd cl hfound =>
      refine .quiet (not_speaks_of_parse hparse (by simp)) (fun fd => ?_) ?_
      · rw [roomOf_queueMessage, roomOf_queueMessage]
      · rw [heardBy_queueMessage, heardBy_queueMessage]
  | ignored hstate hparse =>
      exact .quiet (not_speaks_of_parse hparse (by simp)) (fun _ => rfl) rfl
  | roomDeleted hstate hroom =>
      exact .replied (not_speaks_of_state (by simp [hstate])) _ (fun _ => rfl) fun _ => rfl
  | refused hstate room hroom hpassword =>
      exact .replied (not_speaks_of_state (by simp [hstate])) _ (fun _ => rfl) fun _ => rfl
  | notFound hstate target text hparse hfound =>
      exact .replied (not_speaks_of_parse hparse (by simp)) _ (fun _ => rfl) fun _ => rfl
  | alreadyInRoom hstate hparse =>
      exact .replied (not_speaks_of_parse hparse (by simp)) _ (fun _ => rfl) fun _ => rfl
  | createPrompted hstate target hparse htarget hother hroom =>
      exact .replied (not_speaks_of_parse hparse (by simp)) _ (fun _ => rfl) fun _ => rfl
  | enterPrompted hstate target hparse htarget hother room hroom hpassword =>
      exact .replied (not_speaks_of_parse hparse (by simp)) _ (fun _ => rfl) fun _ => rfl
  | inLobby hstate hparse hroom =>
      exact .replied (not_speaks_of_parse hparse (by simp)) _ (fun _ => rfl) fun _ => rfl
  | onlineListed hstate hparse =>
      exact .replied (not_speaks_of_parse hparse (by simp)) _ (fun _ => rfl) fun _ => rfl
  | roomsListed hstate hparse =>
      exact .replied (not_speaks_of_parse hparse (by simp)) _ (fun _ => rfl) fun _ => rfl

/-- A step adds the messages of its events in the room to what a member has heard. -/
structure HearsEvents (s : ChatServer) (e : Event) (s' : ChatServer) (r : Str) (b : Fd) : Prop where
  heard : s'.heardBy r b =
    s.heardBy r b ++ (roomEvents r ⟨s, e, s'⟩).map (RoomEvent.message r)
  once : (roomEvents r ⟨s, e, s'⟩).length ≤ 1

/-- A step in which nothing happens in the room is not heard. -/
theorem hears_nothing (hspoken : spoken r ⟨s, e, s'⟩ = [])
    (hmoves : departures r ⟨s, e, s'⟩ = [] ∧ arrivals r ⟨s, e, s'⟩ = [])
    (hheard : s'.heardBy r b = s.heardBy r b) : HearsEvents s e s' r b := by
  have hevents : roomEvents r ⟨s, e, s'⟩ = [] := by
    rw [roomEvents, hspoken, hmoves.1, hmoves.2]
    rfl
  exact ⟨by simp [hevents, hheard], by simp [hevents]⟩

/-- A step whose only event in the room depends on one condition. -/
theorem hears_if {p : Prop} [Decidable p] (event : RoomEvent)
    (hevents : roomEvents r ⟨s, e, s'⟩ = if p then [event] else [])
    (hheard : s'.heardBy r b = s.heardBy r b ++ if p then [event.message r] else []) :
    HearsEvents s e s' r b := by
  constructor
  · rw [hevents, hheard]
    split <;> rfl
  · rw [hevents]
    split <;> simp

/-- A departure is heard. -/
theorem hears_left (hspoken : spoken r ⟨s, e, s'⟩ = [])
    (hmoves : departures r ⟨s, e, s'⟩ = (if c.room = r then [.left c.nickname] else []) ∧
      arrivals r ⟨s, e, s'⟩ = [])
    (hheard : s'.heardBy r b =
      s.heardBy r b ++ if c.room = r then [leftMessage c.nickname r] else []) :
    HearsEvents s e s' r b := by
  refine hears_if (.left c.nickname) ?_ hheard
  rw [roomEvents, hspoken, hmoves.1, hmoves.2, List.nil_append, List.append_nil]

/-- A client that changes its room leaves or joins any one room, but not both. -/
theorem hears_moved {c' : Session} (hroom : c'.room ≠ c.room)
    (hspoken : spoken r ⟨s, e, s'⟩ = [])
    (hmoves : departures r ⟨s, e, s'⟩ = (if c.room = r then [.left c.nickname] else []) ∧
      arrivals r ⟨s, e, s'⟩ = if c'.room = r then [.joined c'.nickname] else [])
    (hheard : s'.heardBy r b =
      s.heardBy r b ++ (if c.room = r then [leftMessage c.nickname r] else []) ++
        if c'.room = r then [joinedMessage c'.nickname r] else []) :
    HearsEvents s e s' r b := by
  by_cases hr : c'.room = r
  · have hleft : c.room ≠ r := by
      intro hr'
      exact hroom (hr.trans hr'.symm)
    rw [if_neg hleft, List.append_nil] at hheard
    refine hears_if (.joined c'.nickname) ?_ hheard
    rw [roomEvents, hspoken, hmoves.1, hmoves.2, if_neg hleft, List.nil_append, List.nil_append]
  · rw [if_neg hr, List.append_nil] at hheard
    rw [if_neg hr] at hmoves
    exact hears_left hspoken hmoves hheard

/-- What a line means to a member is what happened in its room. -/
theorem Told.hears (h : Told (s.noted client line) client (c.noteLine line) line r b s')
    (hc : s.clients.lookup client = some c)
    (hothers : ∀ fd, fd ≠ client → s'.roomOf fd = s.roomOf fd) :
    HearsEvents s (.line client line) s' r b := by
  have hnoted : ∀ fd, (s.noted client line).roomOf fd = s.roomOf fd := fun fd =>
    roomOf_updateClient fun _ _ => rfl
  cases h with
  | quiet hsilent hrooms hheard =>
      rw [heardBy_noted] at hheard
      exact hears_nothing (spoken_eq_nil hc hsilent)
        (no_moves fun fd => (hrooms fd).trans (hnoted fd)) hheard
  | said hspeaks hrooms hheard =>
      rw [heardBy_noted] at hheard
      have hmoves : departures r ⟨s, .line client line, s'⟩ = [] ∧
          arrivals r ⟨s, .line client line, s'⟩ = [] :=
        no_moves fun fd => (hrooms fd).trans (hnoted fd)
      refine hears_if (.said c.nickname line) ?_ hheard
      rw [roomEvents, spoken_of_speaks hc hspeaks, hmoves.1, hmoves.2, List.append_nil,
        List.append_nil]
      rfl
  | moved hsilent c' hc' hroom hheard =>
      rw [heardBy_noted] at hheard
      exact hears_moved hroom (spoken_eq_nil hc hsilent) (moves_of_move hothers hc hc' hroom) hheard

/-- A step queues to a member of a room the message of its event in that room, and
there is at most one. -/
theorem StepEffect.heard (h : StepEffect s e s') (hacc : s.hall.Accounted) (hb : s.ChatsIn r b)
    (hb' : s'.ChatsIn r b) : HearsEvents s e s' r b := by
  have hopen := hb.open hacc
  have hothers : ∀ a, e.subject = some a → ∀ fd, fd ≠ a → s'.roomOf fd = s.roomOf fd :=
    fun a ha fd hfd => (h.others ha hfd).roomOf_eq
  have hstaying : ∀ fd, s'.clients.lookup fd = none → b ≠ fd := by
    rintro fd hgone rfl
    rcases hb' with ⟨cl, hcl, _⟩
    cases hcl.symm.trans hgone
  cases h with
  | accept client nonblocking added hfresh =>
      have hnew : s.clients.lookup client = none := AList.lookup_eq_none.2 hfresh
      have hne : b ≠ client := by
        rintro rfl
        rcases hb with ⟨cl, hcl, _⟩
        cases hcl.symm.trans hnew
      refine hears_nothing rfl (moves_of_arrival (hothers client rfl) hnew
        (roomOf_acceptConnection hfresh nonblocking added hopen.1)) ?_
      rw [heardBy, acceptConnection_lookup_ne hne, heardBy]
  | line client line c s' hc heffect =>
      have hnoted := noted_lookup_self hc line
      have htold := heffect.told ((hall_noted s client line).symm ▸ hacc) hnoted (hb.noted line) hb'
      exact htold.hears hc (hothers client rfl)
  | wrote client result c hc hok =>
      refine hears_nothing rfl (no_moves fun fd => ?_) (heardBy_wrote hc result)
      apply roomOf_updateClient
      refine AList.forall_lookup hc ?_
      rw [Session.handleWrite_eq]
  | dropped client result c hc hok =>
      have hgone : ((s.wrote client c result).disconnected client
          (c.handleWrite result).2).clients.lookup client = none := by
        rw [disconnected_lookup, if_pos rfl]
      have hne := hstaying client hgone
      have hbefore : (s.wrote client c result).ChatsIn r b :=
        hb.congr (by rw [ChatServer.wrote, updateClient_lookup, if_neg hne])
      have hleft := heardBy_disconnected (c := (c.handleWrite result).2) hbefore hne hopen.1 hopen.2
      rw [heardBy_wrote hc result, Session.handleWrite_eq] at hleft
      refine hears_left rfl (moves_of_removal (hothers client rfl) hc hgone) ?_
      rw [Session.handleWrite_eq]
      exact hleft
  | disconnect client c hc =>
      have hgone : (s.disconnected client c).clients.lookup client = none := by
        rw [disconnected_lookup, if_pos rfl]
      exact hears_left rfl (moves_of_removal (hothers client rfl) hc hgone)
        (heardBy_disconnected hb (hstaying client hgone) hopen.1 hopen.2)
  | buffer client inBuffer c hc =>
      exact hears_nothing rfl (no_moves fun fd => roomOf_updateClient fun _ _ => rfl)
        (heardBy_updateClient fun _ _ => rfl)
  | rehash clients rooms hclients hrooms =>
      refine hears_nothing rfl (no_moves fun fd => ?_) ?_
      · rw [ChatServer.roomOf, AList.perm_lookup hclients]
        rfl
      · rw [ChatServer.heardBy, AList.perm_lookup hclients]
        rfl

end Step

/-- For every segment of a run and every client that chats in room {lit}`r` before
and after each of its steps: what {lit}`broadcast` has queued to it for {lit}`r` in
the segment are the messages of the events of {lit}`r`, in their order, one for
each; and no step has two of them.  So any two such clients get the same texts. -/
theorem room_history {s s' : ChatServer} (hs : ReachableState s)
    {ts : List (Transition ChatServer Event)} (hrun : Run Step s ts s') (r : Str) :
    (∀ b, (∀ t ∈ ts, t.pre.ChatsIn r b ∧ t.post.ChatsIn r b) →
      s'.heardBy r b =
        s.heardBy r b ++ (ts.flatMap (roomEvents r)).map (RoomEvent.message r) ∧
      ∀ t ∈ ts, (roomEvents r t).length ≤ 1) ∧
    (∀ b b', (∀ t ∈ ts, t.pre.ChatsIn r b ∧ t.post.ChatsIn r b) →
      (∀ t ∈ ts, t.pre.ChatsIn r b' ∧ t.post.ChatsIn r b') →
      ∃ texts, s'.heardBy r b = s.heardBy r b ++ texts ∧
        s'.heardBy r b' = s.heardBy r b' ++ texts) := by
  have hmember : ∀ b, (∀ t ∈ ts, t.pre.ChatsIn r b ∧ t.post.ChatsIn r b) →
      s'.heardBy r b =
        s.heardBy r b ++ (ts.flatMap (roomEvents r)).map (RoomEvent.message r) ∧
      ∀ t ∈ ts, (roomEvents r t).length ≤ 1 := by
    intro b hb
    have htransition : ∀ t ∈ ts, t.pre.ChatsIn r b → t.post.ChatsIn r b →
        HearsEvents t.pre t.event t.post r b := by
      refine Run.forall_transitions (fun s e s' hs hstep hpre hpost => ?_) hs hrun
      have hacc := accounted_of_reachable hs
      exact (step_effect (keyed_of_accounted hacc) hstep).heard hacc hpre hpost
    have hsteps : ∀ t ∈ ts, HearsEvents t.pre t.event t.post r b := fun t ht =>
      htransition t ht (hb t ht).1 (hb t ht).2
    refine ⟨?_, fun t ht => (hsteps t ht).once⟩
    rw [List.map_flatMap]
    exact hrun.log_eq (fun s => s.heardBy r b) _ fun t ht => (hsteps t ht).heard
  exact ⟨hmember, fun b b' hb hb' => ⟨_, (hmember b hb).1, (hmember b' hb').1⟩⟩

/-- A segment in which one member of a room speaks and another one disconnects. -/
def farewell : List Event :=
  [.line 5 (str "hello"), .write 5 (.accepted 3), .accept 7 true true, .disconnect 6]

/-- The member that stays hears a message and then the departure. -/
theorem farewell_history :
    (runEvents ChatServer.next (.after visit) farewell).heardBy (str "den") 5 =
      (ChatServer.after visit).heardBy (str "den") 5 ++
        [chatMessage (str "ann") (str "hello"), leftMessage (str "bob") (str "den")] := by
  have hmember : ∀ t ∈ transitions ChatServer.next (.after visit) farewell,
      t.pre.ChatsIn (str "den") 5 ∧ t.post.ChatsIn (str "den") 5 := by decide +kernel
  have hevents : (transitions ChatServer.next (.after visit) farewell).flatMap
      (roomEvents (str "den")) =
        [.said (str "ann") (str "hello"), .left (str "bob")] := by decide +kernel
  have hhistory := room_history (reachable_after visit)
    (run_transitions ChatServer.next (.after visit) farewell) (str "den")
  rw [(hhistory.1 5 hmember).1, hevents]
  rfl

end EpollChat
