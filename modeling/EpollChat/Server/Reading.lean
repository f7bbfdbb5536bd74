import EpollChat.Library.Framing
import EpollChat.Library.Outcome
import EpollChat.Server.System

/-!
# server/chat_server.cpp - What the read loop does to a stream

The line loop dispatches a line while the rest of the chunk is still in
{lit}`in_buffer`.  No handler looks at that buffer, so dispatching commutes with
any change of it, and the nested loops of {lit}`handle_client_read` come to
handling the frames of the stream in order and keeping the rest.

Main results:

- Theorem {lit}`processMessage_reframe`: processing a line commutes with any change
  of the input buffer.
- Theorem {lit}`handleLines_eq`: the line loop handles the frames of the buffer.
- Theorem {lit}`handleChunks_eq`: any chunks are handled like the frames of their
  concatenation.
-/

namespace EpollChat

/-! ## Changes that no handler notices -/

/-- A change of the input buffer and of the record of handed lines. -/
def Session.reframe (β : Str → Str) (η : List Str → List Str) (c : Session) : Session :=
  { c with inBuffer := β c.inBuffer, handed := η c.handed }

/-- Continuations that agree up to a change of their result. -/
theorem bind_comm {α γ : Type} {x : Except Fault α} {f f' : α → Except Fault γ} {h : γ → γ}
    (hcomm : ∀ a, f' a = (f a).map h) : x.bind f' = (x.bind f).map h := by
  cases x with
  | ok a => exact hcomm a
  | error e => rfl

/-- Continuations that agree up to a change of their argument and their result. -/
theorem bind_map_comm {α γ : Type} {x : Except Fault α} {f f' : α → Except Fault γ} {g : α → α}
    {h : γ → γ} (hcomm : ∀ a, f' (g a) = (f a).map h) :
    (x.map g).bind f' = (x.bind f).map h := by
  cases x with
  | ok a => exact hcomm a
  | error e => rfl

namespace ChatServer

/-- The change, made to one client in the table. -/
def reframe (client : Fd) (β : Str → Str) (η : List Str → List Str) (s : ChatServer) :
    ChatServer :=
  s.updateClient client (Session.reframe β η)

variable {s : ChatServer} {client : Fd} {β : Str → Str} {η : List Str → List Str}

/-- Queueing a text does not look at the input. -/
theorem session_reframe_queueMessage (c : Session) (origin : Origin) (msg : Str) :
    (c.reframe β η).queueMessage origin msg = (c.queueMessage origin msg).reframe β η := by
  simp only [Session.queueMessage_eq, Session.reframe]

/-- A broadcast to one client does not look at its input. -/
theorem session_reframe_broadcastTo (msg roomName : Str) (c : Session) :
    broadcastTo msg roomName (c.reframe β η) = (broadcastTo msg roomName c).reframe β η := by
  unfold broadcastTo
  simp only [session_reframe_queueMessage]
  have hstate : (c.reframe β η).state = c.state := rfl
  have hroom : (c.reframe β η).room = c.room := rfl
  rw [hstate, hroom]
  split
  · rfl
  · split <;> rfl

/-- The client is found with its input changed. -/
theorem reframe_deref :
    (s.reframe client β η).deref client = (s.deref client).map (Session.reframe β η) := by
  unfold deref reframe
  rw [updateClient_lookup, if_pos rfl]
  cases s.clients.lookup client <;> rfl

/-- The change commutes with every assignment that it commutes with on a client. -/
theorem reframe_updateClient {f : Session → Session} (fd : Fd)
    (hcomm : ∀ c : Session, f (c.reframe β η) = (f c).reframe β η) :
    (s.reframe client β η).updateClient fd f = (s.updateClient fd f).reframe client β η := by
  simp only [reframe, updateClient, AList.modify_comm client fd hcomm]

/-- A move does not look at the input. -/
theorem reframe_enterRoom (newRoom : Str) :
    ((s.reframe client β η).updateClient client fun c => c.enterRoom newRoom) =
      (s.updateClient client fun c => c.enterRoom newRoom).reframe client β η :=
  reframe_updateClient client fun _ => rfl

/-- A new nickname does not look at the input. -/
theorem reframe_setNickname (line : Str) :
    ((s.reframe client β η).updateClient client fun c => c.setNickname line) =
      (s.updateClient client fun c => c.setNickname line).reframe client β η :=
  reframe_updateClient client fun _ => rfl

theorem reframe_chat :
    (s.reframe client β η).updateClient client Session.chat =
      (s.updateClient client Session.chat).reframe client β η :=
  reframe_updateClient client fun _ => rfl

/-- A prompt does not look at the input. -/
theorem reframe_prompt (state : ClientState) (roomName : Str) :
    ((s.reframe client β η).updateClient client fun c => c.prompt state roomName) =
      (s.updateClient client fun c => c.prompt state roomName).reframe client β η :=
  reframe_updateClient client fun _ => rfl

/-- An assignment to a room does not look at clients. -/
theorem reframe_updateRoom (name : Str) (f : Room → Room) :
    (s.reframe client β η).updateRoom name f = (s.updateRoom name f).reframe client β η :=
  rfl

/-- Queueing a text to any client does not look at the input. -/
theorem reframe_queueMessage (fd : Fd) (msg : Str) :
    (s.reframe client β η).queueMessage fd msg = (s.queueMessage fd msg).reframe client β η :=
  reframe_updateClient fd fun c => session_reframe_queueMessage c .direct msg

/-- A broadcast does not look at anybody's input. -/
theorem reframe_broadcast (msg roomName : Str) :
    (s.reframe client β η).broadcast msg roomName =
      (s.broadcast msg roomName).reframe client β η := by
  simp only [reframe, updateClient, broadcast, AList.modify, AList.mapVal_mapVal]
  congr 1
  apply AList.mapVal_congr
  intro fd c _
  split
  · exact session_reframe_broadcastTo msg roomName c
  · rfl

/-- The departure from a room does not look at the input. -/
theorem departRoom_reframe (nickname room : Str) :
    (s.reframe client β η).departRoom nickname room =
      (s.departRoom nickname room).map (reframe client β η) := by
  unfold departRoom
  rw [reframe_broadcast]
  apply bind_comm (x := roomArrow _ room)
  intro _
  apply bind_comm (x := roomArrow _ room)
  intro left
  split <;> rfl

/-- The creation of a room does not look at clients. -/
theorem createRoom_reframe (name : Str) :
    (s.reframe client β η).createRoom name = (s.createRoom name).reframe client β η := by
  unfold createRoom
  have hrooms : (s.reframe client β η).rooms = s.rooms := rfl
  rw [hrooms]
  split <;> rfl

/-- {lit}`join_room` does not look at the input. -/
theorem joinRoom_reframe (newRoom : Str) :
    (s.reframe client β η).joinRoom client newRoom =
      (s.joinRoom client newRoom).map (reframe client β η) := by
  unfold joinRoom
  rw [reframe_deref]
  apply bind_map_comm
  intro c
  have hdepart :
      (if (c.reframe β η).room ≠ [] ∧ (c.reframe β η).room ∈ (s.reframe client β η).rooms then
        (s.reframe client β η).departRoom (c.reframe β η).nickname (c.reframe β η).room
      else .ok (s.reframe client β η)) =
        (if c.room ≠ [] ∧ c.room ∈ s.rooms then s.departRoom c.nickname c.room
        else .ok s).map (reframe client β η) := by
    change (if c.room ≠ [] ∧ c.room ∈ s.rooms then _ else _) = _
    split
    · exact departRoom_reframe c.nickname c.room
    · rfl
  refine (congrArg (fun x => Except.bind x _) hdepart).trans (bind_map_comm fun s => ?_)
  rw [createRoom_reframe]
  apply bind_comm (x := (s.createRoom newRoom).roomArrow newRoom)
  intro _
  simp only [reframe_updateRoom, reframe_enterRoom, reframe_deref]
  apply bind_map_comm
  intro c
  exact congrArg Except.ok (reframe_broadcast _ _)

/-- The handler of a nickname does not look at the input. -/
theorem setNickname_reframe (line : Str) :
    (s.reframe client β η).setNickname client line =
      (s.setNickname client line).map (reframe client β η) := by
  unfold setNickname
  simp only [reframe_setNickname, joinRoom_reframe]
  apply bind_map_comm
  intro s
  rw [reframe_deref]
  apply bind_map_comm
  intro c
  exact congrArg Except.ok (reframe_queueMessage _ _)

/-- The handler of a new room's password does not look at the input. -/
theorem setupRoomPassword_reframe (line : Str) :
    (s.reframe client β η).setupRoomPassword client line =
      (s.setupRoomPassword client line).map (reframe client β η) := by
  unfold setupRoomPassword
  rw [reframe_deref]
  apply bind_map_comm
  intro c
  refine (congrArg (fun x => Except.bind x _) (joinRoom_reframe c.connectedRoom)).trans
    (bind_map_comm fun s => ?_)
  rw [reframe_deref]
  apply bind_map_comm
  intro c
  apply bind_comm (x := s.roomAt c.room)
  intro _
  exact congrArg Except.ok (by
    simp only [reframe_updateRoom, reframe_chat, reframe_queueMessage]
    rfl)

/-- The handler of a room's password does not look at the input. -/
theorem enterRoomPassword_reframe (line : Str) :
    (s.reframe client β η).enterRoomPassword client line =
      (s.enterRoomPassword client line).map (reframe client β η) := by
  unfold enterRoomPassword
  rw [reframe_deref]
  apply bind_map_comm
  intro c
  change (if c.connectedRoom ∉ s.rooms then _ else _) =
    Except.map _ (if c.connectedRoom ∉ s.rooms then _ else _)
  split
  · simp only [reframe_chat, reframe_queueMessage]
    rfl
  · apply bind_comm (x := s.roomAt c.connectedRoom)
    intro room
    split
    · refine (congrArg (fun x => Except.bind x _) (joinRoom_reframe c.connectedRoom)).trans
        (bind_map_comm fun s => ?_)
      simp only [reframe_chat, reframe_queueMessage]
      rfl
    · simp only [reframe_chat, reframe_queueMessage]
      rfl

/-- The bulk update that {lit}`reframe` is. -/
theorem reframe_entries :
    (s.reframe client β η).clients.entries =
      s.clients.entries.map
        (AList.mapEntry fun fd c => if fd = client then c.reframe β η else c) :=
  rfl

/-- The search for a nickname does not look at the input. -/
theorem reframe_findNickname (target : Str) :
    (s.reframe client β η).findNickname target =
      (s.findNickname target).map
        (AList.mapEntry fun fd c => if fd = client then c.reframe β η else c) := by
  refine findNickname_mapVal rfl (fun fd c => ?_) target
  split <;> exact ⟨rfl, rfl⟩

/-- The reply to {lit}`/online` shows nothing of the input. -/
theorem reframe_onlineListMessage (room : Str) :
    (s.reframe client β η).onlineListMessage room = s.onlineListMessage room := by
  unfold onlineListMessage
  rw [reframe_entries, List.filter_map, List.flatMap_map]
  have hroom : ((fun e : Sigma fun _ : Fd => Session => e.2.room == room) ∘
      AList.mapEntry fun fd c => if fd = client then c.reframe β η else c) =
      fun e => e.2.room == room := by
    funext e
    simp only [Function.comp, AList.mapEntry, Sigma.map]
    split <;> rfl
  have hname : (fun e : Sigma fun _ : Fd => Session =>
      (AList.mapEntry (fun fd c => if fd = client then c.reframe β η else c) e).2.nickname ++
        str " ") = fun e => e.2.nickname ++ str " " := by
    funext e
    simp only [AList.mapEntry, Sigma.map]
    split <;> rfl
  rw [hroom, hname]

/-- A private message does not look at the input. -/
theorem handlePrivateMessage_reframe (target text : Str) :
    (s.reframe client β η).handlePrivateMessage client target text =
      (s.handlePrivateMessage client target text).map (reframe client β η) := by
  unfold handlePrivateMessage
  rw [reframe_deref]
  apply bind_map_comm
  intro c
  rw [reframe_findNickname]
  cases s.findNickname target with
  | none => exact congrArg Except.ok (reframe_queueMessage _ _)
  | some e =>
      have hname :
          (AList.mapEntry (fun fd c => if fd = client then c.reframe β η else c) e).2.nickname
          = e.2.nickname := by
        simp only [AList.mapEntry, Sigma.map]
        split <;> rfl
      simp only [Option.map_some, hname]
      exact congrArg Except.ok (by
        simp only [reframe_queueMessage]
        rfl)

/-- {lit}`/join` does not look at the input. -/
theorem handleJoinRoom_reframe (roomName : Str) :
    (s.reframe client β η).handleJoinRoom client roomName =
      (s.handleJoinRoom client roomName).map (reframe client β η) := by
  unfold handleJoinRoom
  rw [reframe_deref]
  apply bind_map_comm
  intro c
  change (if c.room = roomName then _ else if roomName ∉ s.rooms then _ else _) =
    Except.map _ (if c.room = roomName then _ else if roomName ∉ s.rooms then _ else _)
  split
  · exact congrArg Except.ok (reframe_queueMessage _ _)
  · split
    · simp only [reframe_prompt, reframe_queueMessage]
      rfl
    · apply bind_comm (x := s.roomAt roomName)
      intro room
      split
      · exact joinRoom_reframe roomName
      · simp only [reframe_prompt, reframe_queueMessage]
        rfl

/-- No command looks at the input. -/
theorem execute_reframe (line : Str) :
    (s.reframe client β η).execute client line =
      (s.execute client line).map (reframe client β η) := by
  unfold execute
  apply bind_comm (x := parse line)
  intro cmd
  cases cmd.type with
  | privateMessage => exact handlePrivateMessage_reframe _ _
  | plainMessage =>
      simp only [handlePlainMessage, reframe_deref]
      exact bind_map_comm fun c => congrArg Except.ok (reframe_broadcast _ _)
  | joinRoom => exact handleJoinRoom_reframe _
  | leaveRoom =>
      simp only [handleLeaveRoom, reframe_deref]
      apply bind_map_comm
      intro c
      change (if c.room = lobby then _ else _) = Except.map _ (if c.room = lobby then _ else _)
      split
      · exact congrArg Except.ok (reframe_queueMessage _ _)
      · exact joinRoom_reframe lobby
  | onlineList =>
      simp only [handleOnlineList, reframe_deref, reframe_onlineListMessage]
      exact bind_map_comm fun c => congrArg Except.ok (reframe_queueMessage _ _)
  | roomList => exact congrArg Except.ok (reframe_queueMessage _ _)
  | unknown => rfl

/-- The branches of {lit}`process_message`, after the observer's record. -/
def dispatch (s : ChatServer) (client : Fd) (line : Str) : ClientState → Except Fault ChatServer
  | .stateNickname => s.setNickname client line
  | .stateSetupRoomPassword => s.setupRoomPassword client line
  | .stateEnterRoomPassword => s.enterRoomPassword client line
  | .stateChat => s.execute client line

/-- {lit}`process_message` is the record of the line and a branch on the state. -/
theorem processMessage_eq_dispatch (line : Str) :
    s.processMessage client line =
      ((s.noted client line).deref client).bind fun c =>
        (s.noted client line).dispatch client line c.state := by
  unfold processMessage
  refine congrArg (Except.bind ((s.noted client line).deref client)) ?_
  funext c
  cases c.state <;> rfl

/-- No branch looks at the input. -/
theorem dispatch_reframe (line : Str) (state : ClientState) :
    (s.reframe client β η).dispatch client line state =
      (s.dispatch client line state).map (reframe client β η) := by
  cases state with
  | stateNickname => exact setNickname_reframe line
  | stateSetupRoomPassword => exact setupRoomPassword_reframe line
  | stateEnterRoomPassword => exact enterRoomPassword_reframe line
  | stateChat => exact execute_reframe line

/-- Processing a line commutes with any change of the input buffer. -/
theorem processMessage_reframe (line : Str) :
    (s.reframe client β id).processMessage client line =
      (s.processMessage client line).map (reframe client β id) := by
  have hnoted : (s.reframe client β id).noted client line =
      (s.noted client line).reframe client β id :=
    reframe_updateClient client fun _ => rfl
  rw [processMessage_eq_dispatch, processMessage_eq_dispatch, hnoted, reframe_deref]
  exact bind_map_comm fun c => dispatch_reframe line c.state

/-! ## What a line leaves alone -/

/-- The clients and the descriptors closed so far. -/
def Holds (s s' : ChatServer) : Prop :=
  s'.clients.keys = s.clients.keys ∧ s'.closed = s.closed

theorem Holds.refl (s : ChatServer) : s.Holds s :=
  ⟨rfl, rfl⟩

theorem Holds.trans {s s' s'' : ChatServer} (h : s.Holds s') (h' : s'.Holds s'') : s.Holds s'' :=
  ⟨h'.1.trans h.1, h'.2.trans h.2⟩

/-- The same clients are in the table. -/
theorem Holds.mem {s s' : ChatServer} (h : s.Holds s') {fd : Fd} :
    fd ∈ s'.clients ↔ fd ∈ s.clients := by
  rw [AList.mem_keys, AList.mem_keys, h.1]

/-- An assignment to a client removes nobody. -/
theorem holds_updateClient (s : ChatServer) (fd : Fd) (f : Session → Session) :
    s.Holds (s.updateClient fd f) :=
  ⟨AList.keys_mapVal _ _, rfl⟩

/-- A broadcast removes nobody. -/
theorem holds_broadcast (s : ChatServer) (msg roomName : Str) :
    s.Holds (s.broadcast msg roomName) :=
  ⟨AList.keys_mapVal _ _, rfl⟩

/-- An answer removes nobody. -/
theorem holds_answered (s : ChatServer) (fd : Fd) (f : Session → Session) (msg : Str) :
    s.Holds (s.answered fd f msg) :=
  (holds_updateClient s fd f).trans (holds_updateClient _ fd _)

/-- A join removes nobody. -/
theorem holds_joined (s : ChatServer) (fd : Fd) (c : Session) (newRoom : Str) :
    s.Holds (s.joined fd c newRoom) := by
  have hvacated : s.Holds (s.vacated c) := ⟨AList.keys_mapVal _ _, rfl⟩
  have hmoved : (s.vacated c).Holds
      (({ s.vacated c with rooms := occupy (s.vacated c).rooms newRoom } : ChatServer).updateClient
        fd fun c => c.enterRoom newRoom) := holds_updateClient _ fd _
  exact (hvacated.trans hmoved).trans (holds_broadcast _ _ _)

end ChatServer

open ChatServer

/-- A line neither adds nor removes a client, and closes no descriptor. -/
theorem LineEffect.holds {s s' : ChatServer} {client : Fd} {c : Session} {line : Str}
    (h : LineEffect s client c line s') : s.Holds s' := by
  cases h with
  | named =>
      exact ((holds_updateClient s client _).trans (holds_joined _ _ _ _)).trans
        (holds_answered _ _ _ _)
  | passwordSet => exact (holds_joined s client c _).trans (holds_answered _ _ _ _)
  | admitted => exact (holds_joined s client c _).trans (holds_answered _ _ _ _)
  | said => exact holds_broadcast s _ _
  | whispered _ _ _ _ fd => exact (holds_updateClient s fd _).trans (holds_updateClient _ _ _)
  | walkedIn => exact holds_joined s client c _
  | backToLobby => exact holds_joined s client c _
  | ignored => exact .refl s
  | roomDeleted => exact holds_answered s _ _ _
  | refused => exact holds_answered s _ _ _
  | notFound => exact holds_answered s _ _ _
  | alreadyInRoom => exact holds_answered s _ _ _
  | createPrompted => exact holds_answered s _ _ _
  | enterPrompted => exact holds_answered s _ _ _
  | inLobby => exact holds_answered s _ _ _
  | onlineListed => exact holds_answered s _ _ _
  | roomsListed => exact holds_answered s _ _ _

namespace ChatServer

variable {s s' : ChatServer} {client : Fd} {c : Session} {β : Str → Str} {line : Str}

/-- Updates that agree on the present client agree. -/
theorem updateClient_congr {f g : Session → Session} (hc : s.clients.lookup client = some c)
    (h : f c = g c) : s.updateClient client f = s.updateClient client g := by
  have hmodify : s.clients.modify client f = s.clients.modify client g := by
    apply AList.modify_congr
    exact AList.forall_lookup hc h
  simp only [updateClient, hmodify]

/-- A change to the present values is no change. -/
theorem reframe_eq_self (hc : s.clients.lookup client = some c) {b : Str} {h : List Str}
    (hb : c.inBuffer = b) (hh : c.handed = h) :
    s.reframe client (fun _ => b) (fun _ => h) = s := by
  refine (updateClient_congr hc ?_).trans updateClient_id
  rw [← hb, ← hh]
  rfl

/-- A processed line keeps the clients, and its own client keeps its input buffer
and is handed the line. -/
theorem processMessage_holds (hc : s.clients.lookup client = some c)
    (h : s.processMessage client line = .ok s') :
    s.Holds s' ∧ ∃ c', s'.clients.lookup client = some c' ∧ c'.inBuffer = c.inBuffer ∧
      c'.handed = c.handed ++ [line] := by
  have hnoted := noted_lookup_self hc line
  have hholds : s.Holds s' := by
    rcases processMessage_effect hc line with ⟨t, ht, heffect⟩
    rw [h] at ht
    cases ht
    exact (holds_updateClient s client _).trans heffect.holds
  refine ⟨hholds, ?_⟩
  rw [processMessage_eq_dispatch, deref_eq hnoted] at h
  change (s.noted client line).dispatch client line _ = .ok s' at h
  -- the dispatched state is a fixed point of resetting the two fields, so its result is, too
  have hfixed : s'.reframe client (fun _ => c.inBuffer) (fun _ => c.handed ++ [line]) = s' := by
    have hreset : ((s.noted client line).reframe client (fun _ => c.inBuffer)
        fun _ => c.handed ++ [line]).dispatch client line (c.noteLine line).state =
        ((s.noted client line).dispatch client line (c.noteLine line).state).map
          (reframe client (fun _ => c.inBuffer) fun _ => c.handed ++ [line]) :=
      dispatch_reframe line (c.noteLine line).state
    have hsame : (s.noted client line).reframe client (fun _ => c.inBuffer)
        (fun _ => c.handed ++ [line]) = s.noted client line := reframe_eq_self hnoted rfl rfl
    rw [hsame, h] at hreset
    exact (Except.ok.inj hreset).symm
  rcases AList.mem_iff_lookup.1 (hholds.mem.2 (AList.mem_of_lookup hc)) with ⟨c', hc'⟩
  have hself := congrArg (fun s : ChatServer => s.clients.lookup client) hfixed
  simp only [reframe, lookup_updateClient_self hc', hc', Option.some.injEq] at hself
  exact ⟨c', hc', by rw [← hself]; rfl, by rw [← hself]; rfl⟩

/-! ## The line loop -/

/-- Assign to {lit}`in_buffer`. -/
def setBuffer (client : Fd) (inBuffer : Str) (s : ChatServer) : ChatServer :=
  s.reframe client (fun _ => inBuffer) id

/-- Of two assignments the last one counts. -/
theorem setBuffer_setBuffer (b b' : Str) :
    (s.setBuffer client b).setBuffer client b' = s.setBuffer client b' := by
  simp only [setBuffer, reframe, updateClient, AList.modify_modify]
  rfl

/-- Of two assignments after a call the last one counts. -/
theorem map_setBuffer (x : Except Fault ChatServer) (b b' : Str) :
    (x.map (setBuffer client b)).map (setBuffer client b') = x.map (setBuffer client b') := by
  cases x with
  | error e => rfl
  | ok s => exact congrArg Except.ok (setBuffer_setBuffer b b')

theorem setBuffer_lookup (hc : s.clients.lookup client = some c) (b : Str) :
    (s.setBuffer client b).clients.lookup client = some { c with inBuffer := b } :=
  lookup_updateClient_self hc

/-- Assigning what is there already changes nothing. -/
theorem setBuffer_eq_self (hc : s.clients.lookup client = some c) :
    s.setBuffer client c.inBuffer = s := by
  have hkeep : s.setBuffer client c.inBuffer = s.updateClient client id :=
    updateClient_congr hc rfl
  rw [hkeep, updateClient_id]

/-- A line without one trailing carriage return. -/
def withoutCarriageReturn (line : Str) : Str :=
  if line.getLast? = some carriageReturn then line.dropLast else line

/-- A line loses its carriage return, is skipped if nothing is left, and is trimmed. -/
theorem handleLine_eq (s : ChatServer) (client : Fd) (line : Str) :
    s.handleLine client line =
      if withoutCarriageReturn line = [] then .ok s
      else (trimString (withoutCarriageReturn line)).bind fun line =>
        s.processMessage client line :=
  rfl

/-- One pass of the line loop commutes with a change of the rest of the buffer. -/
theorem handleLine_reframe (line : Str) :
    (s.reframe client β id).handleLine client line =
      (s.handleLine client line).map (reframe client β id) := by
  rw [handleLine_eq, handleLine_eq]
  split
  · rfl
  · exact bind_comm fun line => processMessage_reframe line

/-- Handling lines one after the other commutes with any change of the input
buffer. -/
theorem foldlM_handleLine_reframe (lines : List Str) :
    lines.foldlM (fun s line => handleLine s client line) (s.reframe client β id) =
      (lines.foldlM (fun s line => handleLine s client line) s).map (reframe client β id) := by
  induction lines generalizing s with
  | nil => rfl
  | cons line lines ih =>
      simp only [List.foldlM_cons, handleLine_reframe]
      exact bind_map_comm fun s => ih

theorem foldlM_handleLine_setBuffer (lines : List Str) (b : Str) :
    lines.foldlM (fun s line => handleLine s client line) (s.setBuffer client b) =
      (lines.foldlM (fun s line => handleLine s client line) s).map (setBuffer client b) :=
  foldlM_handleLine_reframe lines

/-- A handled line keeps the clients and the input buffer of its own client. -/
theorem handleLine_holds (hc : s.clients.lookup client = some c)
    (h : s.handleLine client line = .ok s') :
    s.Holds s' ∧ ∃ c', s'.clients.lookup client = some c' ∧ c'.inBuffer = c.inBuffer := by
  rw [handleLine_eq] at h
  split at h
  · cases h
    exact ⟨.refl s, c, hc, rfl⟩
  · rcases exists_of_bind_ok h with ⟨trimmedLine, _, hprocessed⟩
    rcases processMessage_holds hc hprocessed with ⟨hholds, c', hc', hbuffer, _⟩
    exact ⟨hholds, c', hc', hbuffer⟩

/-- The line loop handles the frames of the buffer in order and keeps the rest. -/
theorem handleLines_eq {fuel : Nat} (hc : s.clients.lookup client = some c)
    (hfuel : c.inBuffer.length < fuel) :
    handleLines fuel s client =
      ((frames newline c.inBuffer).foldlM (fun s line => handleLine s client line) s).map
        (setBuffer client (rest newline c.inBuffer)) := by
  generalize hbuffer : c.inBuffer = buffer at hfuel ⊢
  induction buffer using frame_induction (d := newline) generalizing s c fuel with
  | hrest xs hxs =>
      cases fuel with
      | zero => omega
      | succ fuel =>
          have hpos : c.inBuffer.idxOf? newline = none := by
            rw [hbuffer]
            exact List.idxOf?_eq_none_iff.2 hxs
          simp only [handleLines, deref_eq hc, bind, Except.bind, hpos]
          rw [frames_of_notMem hxs, rest_of_notMem hxs, ← hbuffer]
          exact congrArg Except.ok (setBuffer_eq_self hc).symm
  | hframe xs ys hxs ih =>
      cases fuel with
      | zero => omega
      | succ fuel =>
          have hpos : c.inBuffer.idxOf? newline = some xs.length := by
            rw [hbuffer]
            exact idxOf?_append_cons hxs ys
          have hline : substr c.inBuffer 0 xs.length = .ok xs := by
            simp [substr, hbuffer]
          have hdrop : (s.updateClient client fun cl =>
              { cl with inBuffer := cl.inBuffer.drop (xs.length + 1) }) =
              s.setBuffer client ys := by
            have hys : c.inBuffer.drop (xs.length + 1) = ys := by
              rw [hbuffer]
              simp
            exact updateClient_congr hc (by rw [hys]; rfl)
          simp only [handleLines, deref_eq hc, bind, Except.bind, hpos, hline, hdrop]
          rw [frames_append_cons hxs, rest_append_cons hxs, List.foldlM_cons]
          change ((s.setBuffer client ys).handleLine client xs).bind _ =
            ((s.handleLine client xs).bind _).map _
          rw [setBuffer, handleLine_reframe]
          cases hhandled : s.handleLine client xs with
          | error e => rfl
          | ok s₁ =>
              rcases handleLine_holds hc hhandled with ⟨_, c₁, hc₁, _⟩
              have hshorter : ys.length < fuel := by
                rw [List.length_append, List.length_cons] at hfuel
                omega
              have hrest := ih (setBuffer_lookup hc₁ ys) rfl hshorter
              change handleLines fuel (s₁.setBuffer client ys) client =
                ((frames newline ys).foldlM (fun s line => handleLine s client line) s₁).map _
              rw [hrest, foldlM_handleLine_setBuffer, map_setBuffer]

/-! ## Chunks -/

section Chunks

variable {lines : List Str}

/-- Handled lines keep the clients. -/
theorem foldlM_handleLine_holds (hc : s.clients.lookup client = some c)
    (h : lines.foldlM (fun s line => handleLine s client line) s = .ok s') :
    s.Holds s' ∧ ∃ c', s'.clients.lookup client = some c' := by
  induction lines generalizing s c with
  | nil =>
      cases h
      exact ⟨.refl _, c, hc⟩
  | cons line lines ih =>
      rw [List.foldlM_cons] at h
      rcases exists_of_bind_ok h with ⟨s₁, hhandled, hrest⟩
      rcases handleLine_holds hc hhandled with ⟨hholds, c₁, hc₁, _⟩
      rcases ih hc₁ hrest with ⟨hholds', c', hc'⟩
      exact ⟨hholds.trans hholds', c', hc'⟩

/-- What the chunks of a stream do: the frames are handled in order, and the rest
is kept. -/
def received (s : ChatServer) (client : Fd) (buffer bytes : Str) : Except Fault ChatServer :=
  (feed newline (fun s line => handleLine s client line) buffer bytes s).map
    (setBuffer client (rest newline (buffer ++ bytes)))

/-- A chunk is received behind what the input buffer holds. -/
theorem handleChunk_eq (hc : s.clients.lookup client = some c) (bytes : Str) :
    s.handleChunk client bytes = s.received client c.inBuffer bytes := by
  have happend : (s.updateClient client fun cl => { cl with inBuffer := cl.inBuffer ++ bytes }) =
      s.setBuffer client (c.inBuffer ++ bytes) := updateClient_congr hc rfl
  have hlookup := setBuffer_lookup hc (c.inBuffer ++ bytes)
  unfold handleChunk received feed
  simp only [happend, deref_eq hlookup, bind, Except.bind]
  rw [handleLines_eq hlookup (Nat.lt_succ_self _), foldlM_handleLine_setBuffer, map_setBuffer]

/-- A stream that is received in part is received with the remainder carried along. -/
theorem received_bind (hc : s.clients.lookup client = some c) {buffer xs : Str}
    (h : s.received client buffer xs = .ok s') (ys : Str) :
    s'.received client (rest newline (buffer ++ xs)) ys = s.received client buffer (xs ++ ys) ∧
      ∃ c', s'.clients.lookup client = some c' ∧ c'.inBuffer = rest newline (buffer ++ xs) := by
  rcases exists_of_map_ok h with ⟨s₁, hfeed, rfl⟩
  rcases foldlM_handleLine_holds hc hfeed with ⟨_, c₁, hc₁⟩
  refine ⟨?_, _, setBuffer_lookup hc₁ _, rfl⟩
  unfold received
  rw [feed_append, hfeed, ← List.append_assoc, rest_append (buffer ++ xs)]
  change _ = Except.map _ (feed newline _ _ _ s₁)
  rw [feed, foldlM_handleLine_setBuffer, map_setBuffer]
  rfl

/-- A fault in a part of a stream is a fault in the stream. -/
theorem received_append_error {buffer xs : Str} {e : Fault}
    (h : s.received client buffer xs = .error e) (ys : Str) :
    s.received client buffer (xs ++ ys) = .error e := by
  unfold received at h ⊢
  rw [feed_append]
  cases hfeed : feed newline (fun s line => handleLine s client line) buffer xs s with
  | error e' =>
      rw [hfeed] at h
      exact h
  | ok s₁ =>
      rw [hfeed] at h
      cases h

/-- An empty chunk changes nothing. -/
theorem received_nil (hc : s.clients.lookup client = some c) (hbuffer : newline ∉ c.inBuffer) :
    s.received client c.inBuffer [] = .ok s := by
  unfold received
  rw [feed_nil hbuffer, List.append_nil, rest_of_notMem hbuffer]
  exact congrArg Except.ok (setBuffer_eq_self hc)

/-- Any chunks are handled like the frames of their concatenation. -/
theorem handleChunks_eq (hc : s.clients.lookup client = some c) (hbuffer : newline ∉ c.inBuffer)
    (chunks : List Chunk) :
    chunks.foldlM (fun s chunk => handleChunk s client chunk.bytes) s =
      s.received client c.inBuffer (chunks.flatMap Chunk.bytes) := by
  induction chunks generalizing s c with
  | nil => exact (received_nil hc hbuffer).symm
  | cons chunk chunks ih =>
      rw [List.foldlM_cons, handleChunk_eq hc, List.flatMap_cons]
      cases hfirst : s.received client c.inBuffer chunk.bytes with
      | error e => exact (received_append_error hfirst _).symm
      | ok s₁ =>
          rcases received_bind hc hfirst (chunks.flatMap Chunk.bytes) with
            ⟨hrest, c₁, hc₁, hbuffer₁⟩
          have hmem : newline ∉ c₁.inBuffer := by
            rw [hbuffer₁]
            exact notMem_rest _
          rw [← hrest, ← hbuffer₁]
          exact ih hc₁ hmem

end Chunks

end ChatServer

end EpollChat
