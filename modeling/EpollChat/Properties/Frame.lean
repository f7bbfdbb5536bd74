import EpollChat.Properties.Accounting

/-!
# What a step leaves alone

A step on one client reaches the other clients only by queueing texts to them, and
it touches the room entries of that client only.

Main results:

- Theorem {lit}`StepEffect.others`: every client but the subject of a step has only
  had texts queued.
- Theorem {lit}`single_event_frame`: what one event on a client leaves alone, in
  the other clients and in the room table, and that a disconnect leaves nothing.
-/

namespace EpollChat

namespace ChatServer

/-- The room of a client, if there is such a client. -/
def roomOf (s : ChatServer) (client : Fd) : Option Str :=
  (s.clients.lookup client).map fun c => c.room

/-- One state holds the same client as another, with texts queued at most. -/
def Hears (s s' : ChatServer) (fd : Fd) : Prop :=
  Option.Rel Session.Extends (s.clients.lookup fd) (s'.clients.lookup fd)

variable {s s' t : ChatServer} {client fd : Fd} {c : Session} {line : Str}

/-- An unchanged entry has heard nothing. -/
theorem hears_of_lookup_eq (h : s'.clients.lookup fd = s.clients.lookup fd) : s.Hears s' fd := by
  unfold Hears
  rw [h]
  cases s.clients.lookup fd with
  | none => exact .none
  | some cl => exact .some (.refl cl)

/-- A client hears what only queues texts to it. -/
theorem hears_of_lookup_map {f : Session → Session} (hf : ∀ cl : Session, cl.Extends (f cl))
    (h : s'.clients.lookup fd = (s.clients.lookup fd).map f) : s.Hears s' fd := by
  unfold Hears
  rw [h]
  cases s.clients.lookup fd with
  | none => exact .none
  | some cl => exact .some (hf cl)

/-- Hearing one thing after another is hearing. -/
theorem Hears.trans (h : s.Hears s' fd) (h' : s'.Hears t fd) : s.Hears t fd := by
  unfold Hears at h h' ⊢
  revert h h'
  generalize s.clients.lookup fd = before
  generalize s'.clients.lookup fd = between
  generalize t.clients.lookup fd = after
  rintro (⟨hfirst⟩ | _) (⟨hsecond⟩ | _)
  · exact .some (hfirst.trans hsecond)
  · exact .none

/-- A client that hears keeps its entry, with some texts queued. -/
theorem Hears.lookup {cl : Session} (h : s.Hears s' fd) (hcl : s.clients.lookup fd = some cl) :
    ∃ ds, s'.clients.lookup fd = some (cl.queueAll ds) := by
  unfold Hears at h
  rw [hcl] at h
  generalize s'.clients.lookup fd = after at h ⊢
  rcases h with ⟨ds, rfl⟩
  exact ⟨ds, rfl⟩

/-- What queued texts do not change is the same for a client that hears. -/
theorem Hears.map_lookup {β : Type} {g : Session → β} (h : s.Hears s' fd)
    (hg : ∀ cl ds, g (cl.queueAll ds) = g cl) :
    (s'.clients.lookup fd).map g = (s.clients.lookup fd).map g := by
  unfold Hears at h
  revert h
  generalize s.clients.lookup fd = before
  generalize s'.clients.lookup fd = after
  rintro (⟨ds, rfl⟩ | _)
  · exact congrArg some (hg _ ds)
  · rfl

/-- Of a broadcast everybody hears texts at most. -/
theorem hears_broadcast (msg roomName : Str) : s.Hears (s.broadcast msg roomName) fd :=
  hears_of_lookup_map (fun cl => extends_broadcastTo msg roomName cl)
    (broadcast_lookup msg roomName fd)

/-- Nobody hears of an assignment to another client. -/
theorem hears_updateClient (h : fd ≠ client) (f : Session → Session) :
    s.Hears (s.updateClient client f) fd :=
  hears_of_lookup_eq (by rw [updateClient_lookup, if_neg h])

/-- A queued text is heard by its addressee, too. -/
theorem hears_queueMessage (msg : Str) : s.Hears (s.queueMessage client msg) fd := by
  by_cases h : fd = client
  · refine hears_of_lookup_map (fun cl => cl.extends_queueMessage .direct msg) ?_
    rw [queueMessage_lookup, if_pos h]
  · exact hears_updateClient h _

/-- Nobody hears more than texts when another client is answered. -/
theorem hears_answered (h : fd ≠ client) (f : Session → Session) (msg : Str) :
    s.Hears (s.answered client f msg) fd :=
  (hears_updateClient h f).trans (hears_queueMessage msg)

/-- Everybody else hears at most of a join. -/
theorem hears_joined (h : fd ≠ client) (newRoom : Str) :
    s.Hears (s.joined client c newRoom) fd := by
  refine hears_of_lookup_map (f := fun cl =>
    broadcastTo (joinedMessage c.nickname newRoom) newRoom (s.hearLeft c cl)) (fun cl => ?_) ?_
  · exact (extends_hearLeft s c cl).trans (extends_broadcastTo _ _ _)
  · simp [joined_lookup, h]

/-- The farewell is queued behind what is queued already. -/
theorem extends_hearGone (c cl : Session) : cl.Extends (hearGone c cl) := by
  unfold hearGone
  split
  · exact cl.extends_queueMessage _ _
  · exact .refl cl

/-- Everybody else hears at most of a disconnect. -/
theorem hears_disconnected (h : fd ≠ client) : s.Hears (s.disconnected client c) fd := by
  refine hears_of_lookup_map (f := fun cl => hearGone c (s.hearLeft c cl)) (fun cl => ?_) ?_
  · exact (extends_hearLeft s c cl).trans (extends_hearGone c _)
  · rw [disconnected_lookup, if_neg h]

/-- A new connection leaves the entries of all others as they are. -/
theorem acceptConnection_lookup_ne (h : fd ≠ client) (nonblocking added : Bool) :
    (s.acceptConnection client nonblocking added).clients.lookup fd = s.clients.lookup fd := by
  unfold acceptConnection
  split
  · rfl
  · split
    · simp [AList.lookup_erase_ne h, AList.lookup_insert_ne h]
    · simp [queueMessage_lookup, h, AList.lookup_insert_ne h]

/-- Nobody hears of a new connection. -/
theorem hears_acceptConnection (h : fd ≠ client) (nonblocking added : Bool) :
    s.Hears (s.acceptConnection client nonblocking added) fd :=
  hears_of_lookup_eq (acceptConnection_lookup_ne h nonblocking added)

/-! ### The room of a client -/

section RoomOf

variable {f : Session → Session}

/-- Who only hears stays in its room. -/
theorem Hears.roomOf_eq (h : s.Hears s' fd) : s'.roomOf fd = s.roomOf fd :=
  h.map_lookup fun cl ds => (cl.queueAll_frame ds).2.2.2.2.1

theorem roomOf_broadcast (msg roomName : Str) :
    (s.broadcast msg roomName).roomOf client = s.roomOf client :=
  (hears_broadcast msg roomName).roomOf_eq

/-- An assignment that keeps the room of its client keeps all of them. -/
theorem roomOf_updateClient {fd : Fd}
    (hf : ∀ cl, s.clients.lookup client = some cl → (f cl).room = cl.room) :
    (s.updateClient client f).roomOf fd = s.roomOf fd :=
  AList.map_lookup_modify_eq hf fd

theorem roomOf_queueMessage (fd : Fd) (msg : Str) :
    (s.queueMessage fd msg).roomOf client = s.roomOf client :=
  (hears_queueMessage msg).roomOf_eq

/-- After an answer the client is where the assignment has put it. -/
theorem roomOf_answered (hc : s.clients.lookup client = some c) (msg : Str) :
    (s.answered client f msg).roomOf client = some (f c).room := by
  rw [answered, roomOf_queueMessage, roomOf, lookup_updateClient_self hc]
  rfl

/-- After a join the client is in the new room. -/
theorem roomOf_joined (hc : s.clients.lookup client = some c) (newRoom : Str) :
    (s.joined client c newRoom).roomOf client = some newRoom := by
  rw [roomOf, joined_lookup_self hc]
  simp [Session.enterRoom]

/-- A new client has no room yet. -/
theorem roomOf_acceptConnection (hfresh : client ∉ s.clients) (nonblocking added : Bool) {r : Str}
    (hr : r ≠ []) : (s.acceptConnection client nonblocking added).roomOf client ≠ some r := by
  unfold acceptConnection
  split
  · simp [roomOf, AList.lookup_eq_none.2 hfresh]
  · split
    · simp [roomOf]
    · rw [roomOf_queueMessage]
      simp [roomOf, Session.accepted, Client.new, hr.symm]

end RoomOf

/-! ### The texts queued to a client -/

section Queued

/-- The texts that were queued to a client, if there is such a client. -/
def queuedTo (s : ChatServer) (fd : Fd) : Option (List Delivery) :=
  (s.clients.lookup fd).map fun c => c.queued

theorem queuedTo_eq (hc : s.clients.lookup fd = some c) : s.queuedTo fd = some c.queued := by
  rw [queuedTo, hc]
  rfl

/-- The record of a line queues nothing. -/
theorem queuedTo_noted (line : Str) : (s.noted client line).queuedTo fd = s.queuedTo fd := by
  have hqueued : ∀ c, s.clients.lookup client = some c →
      (c.noteLine line).queued = c.queued := fun _ _ => rfl
  exact AList.map_lookup_modify_eq hqueued fd

/-- A queued text comes last, and is queued to its addressee only. -/
theorem queuedTo_queueMessage (msg : Str) :
    (s.queueMessage client msg).queuedTo fd =
      (s.queuedTo fd).map fun queue => queue ++ if fd = client then [⟨.direct, msg⟩] else [] := by
  rw [queuedTo, queuedTo, queueMessage_lookup]
  split <;> cases s.clients.lookup fd <;> simp

end Queued

end ChatServer

/-! ## Other clients -/

section Others

variable {s s' : ChatServer} {client fd : Fd} {c : Session} {line : Str} {e : Event}

open ChatServer

/-- A line reaches everybody but its client through texts at most. -/
theorem LineEffect.others (h : LineEffect s client c line s') (hfd : fd ≠ client) :
    s.Hears s' fd := by
  cases h with
  | named hstate =>
      exact ((hears_updateClient hfd _).trans (hears_joined hfd lobby)).trans
        (hears_answered hfd _ _)
  | passwordSet hstate =>
      refine (hears_joined (c := c) hfd c.connectedRoom).trans ?_
      exact (hears_of_lookup_eq rfl).trans (hears_answered hfd _ _)
  | admitted hstate room hroom hpassword =>
      exact (hears_joined hfd _).trans (hears_answered hfd _ _)
  | said hstate hparse => exact hears_broadcast _ _
  | whispered hstate target text hparse recipient cl hfound =>
      exact (hears_queueMessage _).trans (hears_queueMessage _)
  | walkedIn hstate target hparse htarget hother room hroom hpassword =>
      exact hears_joined hfd target
  | backToLobby hstate hparse hroom => exact hears_joined hfd lobby
  | ignored hstate hparse => exact hears_of_lookup_eq rfl
  | roomDeleted hstate hroom => exact hears_answered hfd _ _
  | refused hstate room hroom hpassword => exact hears_answered hfd _ _
  | notFound hstate target text hparse hfound => exact hears_answered hfd _ _
  | alreadyInRoom hstate hparse => exact hears_answered hfd _ _
  | createPrompted hstate target hparse htarget hother hroom => exact hears_answered hfd _ _
  | enterPrompted hstate target hparse htarget hother room hroom hpassword =>
      exact hears_answered hfd _ _
  | inLobby hstate hparse hroom => exact hears_answered hfd _ _
  | onlineListed hstate hparse => exact hears_answered hfd _ _
  | roomsListed hstate hparse => exact hears_answered hfd _ _

/-- Every client but the subject of a step has only had texts queued. -/
theorem StepEffect.others (h : StepEffect s e s') {a : Fd} (ha : e.subject = some a)
    (hfd : fd ≠ a) : s.Hears s' fd := by
  cases h with
  | accept client nonblocking added hfresh =>
      cases ha
      exact hears_acceptConnection hfd nonblocking added
  | line client line c s' hc heffect =>
      cases ha
      exact (hears_updateClient hfd _).trans (heffect.others hfd)
  | wrote client result c hc hok =>
      cases ha
      exact hears_updateClient hfd _
  | dropped client result c hc hok =>
      cases ha
      exact (hears_updateClient hfd _).trans (hears_disconnected hfd)
  | disconnect client c hc =>
      cases ha
      exact hears_disconnected hfd
  | buffer client inBuffer c hc =>
      cases ha
      exact hears_updateClient hfd _
  | rehash clients rooms hclients hrooms => cases ha

/-- An event that removes its client: a disconnect, or a write event on which
{lit}`handle_write` fails. -/
def Removes (s : ChatServer) (a : Fd) (e : Event) : Prop :=
  e = .disconnect a ∨
    ∃ result c, e = .write a result ∧ s.clients.lookup a = some c ∧
      (c.handleWrite result).1 = false

/-- An event that removes its client leaves no entry of it. -/
theorem StepEffect.removed (h : StepEffect s e s') {a : Fd} (hremoves : Removes s a e) :
    a ∉ s'.clients := by
  have hgone : ∀ (t : ChatServer) c, a ∉ (t.disconnected a c).clients := by
    intro t c
    rw [← AList.lookup_eq_none, disconnected_lookup, if_pos rfl]
  rcases hremoves with rfl | ⟨result, c, rfl, hc, hfailed⟩
  · cases h with
    | disconnect _ c hc => exact hgone s c
  · cases h with
    | wrote _ _ c' hc' hok =>
        rw [hc] at hc'
        cases hc'
        rw [hfailed] at hok
        cases hok
    | dropped _ _ c' hc' hok => exact hgone _ _

/-- The hall knows the room of every client. -/
theorem roomOf_eq (fd : Fd) : s.roomOf fd = (s.hall.places.lookup fd).map Place.room := by
  rw [hall_lookup, Option.map_map]
  rfl

end Others

/-- One event on client {lit}`a` in a reachable state: every other client stays,
keeps its identity, state, input and rooms, and has text appended to its output
at most; a room that is neither that of {lit}`a` before nor that after keeps its
entry; and after a disconnect nothing is left of {lit}`a`, in the client table
and in the head counts. -/
theorem single_event_frame {s s' : ChatServer} {e : Event} {a : Fd} (hs : ReachableState s)
    (hstep : Step s e s') (ha : e.subject = some a) :
    (∀ b cl, b ≠ a → s.clients.lookup b = some cl →
      ∃ cl', s'.clients.lookup b = some cl' ∧ cl'.fd = cl.fd ∧ cl'.state = cl.state ∧
        cl'.nickname = cl.nickname ∧ cl'.inBuffer = cl.inBuffer ∧ cl'.room = cl.room ∧
        cl'.connectedRoom = cl.connectedRoom ∧ ∃ text, cl'.outBuffer = cl.outBuffer ++ text) ∧
    (∀ r, s.roomOf a ≠ some r → s'.roomOf a ≠ some r → s'.rooms.lookup r = s.rooms.lookup r) ∧
    (Removes s a e → a ∉ s'.clients ∧ ∀ r room, s'.rooms.lookup r = some room →
      room.userCount = (s'.onlineIn r).length ∧ a ∉ s'.onlineIn r) := by
  have heffect := step_effect (keyed_of_reachable hs) hstep
  refine ⟨?_, ?_, ?_⟩
  · intro b cl hb hcl
    rcases (heffect.others ha hb).lookup hcl with ⟨ds, hds⟩
    rcases cl.queueAll_frame ds with
      ⟨hfd, hstate, hnickname, hin, hroom, hconnected, hout, _⟩
    exact ⟨_, hds, hfd, hstate, hnickname, hin, hroom, hconnected, _, hout⟩
  · intro r hbefore hafter
    have hsimulates := heffect.simulates (accounted_of_reachable hs)
    rw [ha] at hsimulates
    rw [roomOf_eq] at hbefore hafter
    exact hsimulates.rooms_frame hbefore hafter
  · intro hremoves
    have hgone := heffect.removed hremoves
    have hledger : Ledger s'.hall.population s'.rooms :=
      (accounted_of_reachable (hs.step hstep)).ledger
    refine ⟨hgone, ?_⟩
    intro r room hroom
    constructor
    · rw [(hledger r).counted room hroom, population_hall]
    · intro hmem
      rw [ChatServer.onlineIn, AList.mem_keysWhere] at hmem
      rcases hmem with ⟨c, hc, _⟩
      exact hgone (AList.mem_of_lookup hc)

/-- After a disconnect the other client is still there. -/
theorem visit_disconnect_frame : ∃ s', Step (.after visit) (.disconnect 5) s' ∧ 5 ∉ s'.clients ∧
    (s'.clients.lookup 6).map (fun cl => cl.nickname) = some (str "bob") := by
  have hnext : (ChatServer.next (.after visit) (.disconnect 5)).isSome = true := by decide +kernel
  have hbob : ((ChatServer.after visit).clients.lookup 6).map (fun cl => cl.nickname) =
      some (str "bob") := by decide +kernel
  rcases Option.isSome_iff_exists.1 hnext with ⟨s', hstep⟩
  rcases Option.map_eq_some_iff.1 hbob with ⟨cl, hcl, hname⟩
  have hframe := single_event_frame (reachable_after visit) (show Step _ _ s' from hstep) rfl
  rcases hframe.1 6 cl (by decide) hcl with ⟨cl', hcl', _, _, hnickname, _⟩
  refine ⟨s', hstep, (hframe.2.2 (Or.inl rfl)).1, ?_⟩
  rw [hcl', Option.map_some, hnickname, hname]

end EpollChat
