import EpollChat.Properties.Conversation
import EpollChat.Properties.SystemCalls

/-!
# Edge-triggered wakeups

The descriptors of the clients are registered with {lit}`EPOLLET`: the kernel reports a
connection when something becomes possible on it, not as long as it is possible.  A server
that leaves something undone and is not told again sleeps for ever.  The world is the
server together with the kernel's side of the connections; what the kernel does is given
by the laws that its manual promises, everything they leave open is open here.

A run of the world goes as far as the process lives and no fault has occurred.  A call of
{lit}`write` on a connection that the peer has broken can end the process by
{lit}`SIGPIPE`, for all clients at once, since {lit}`main` does not ignore the signal; and an
event that uses a removed client is undefined behaviour.  Calls of {lit}`EPOLL_CTL_MOD` are
assumed to succeed.

Main results:

- Theorem {lit}`worldStep_intact`: no step of the world loses a wakeup.
- Theorem {lit}`no_lost_wakeup`: a connection that is not about to be reported has nothing
  left to do.
- Theorem {lit}`open_clients_stay`: while it lives, the server removes no client whose peer
  keeps the connection open, if announced writes are not refused.
-/

namespace EpollChat

open ChatServer

/-! ## The kernel's side of a connection -/

/-- Whether the peer has kept the connection, closed it, or broken it. -/
inductive Peer
  | open
  | shut
  | reset
deriving DecidableEq

/-- The bytes that have arrived since the connection was made, those of them that were not
read yet, the number of bytes that {lit}`write` has room for, and whether the connection is in
the list of those that {lit}`epoll_wait` reports. -/
structure Conn where
  arrived : Str
  unread : Str
  peer : Peer
  room : Nat
  pending : Bool

/-- A read would not block. -/
def Conn.Readable (k : Conn) : Prop :=
  k.unread ≠ [] ∨ k.peer ≠ .open

instance (k : Conn) : Decidable k.Readable :=
  inferInstanceAs (Decidable (_ ∨ _))

/-- The events that {lit}`epoll_wait` would report for a registration. -/
def Conn.flags (k : Conn) (interest : Interest) : EventFlags where
  epollin := interest.epollin && decide k.Readable
  epollout := interest.epollout && decide (0 < k.room)
  epollerr := decide (k.peer = .reset)
  epollhup := decide (k.peer = .reset)

def EventFlags.any (flags : EventFlags) : Bool :=
  flags.epollin || flags.epollout || flags.epollerr || flags.epollhup

/-- The loop gets to {lit}`handle_client_write`, if the client is still there. -/
def EventFlags.writing (flags : EventFlags) : Bool :=
  !(flags.epollerr || flags.epollhup) && flags.epollout

/-- Two connections differ in the list of {lit}`epoll_wait` at most. -/
structure Conn.SameFlow (k k' : Conn) : Prop where
  arrived : k'.arrived = k.arrived
  unread : k'.unread = k.unread
  peer : k'.peer = k.peer
  room : k'.room = k.room

theorem Conn.SameFlow.readable_iff {k k' : Conn} (h : k.SameFlow k') :
    k'.Readable ↔ k.Readable := by
  rw [Readable, Readable, h.unread, h.peer]

/-! ## What the kernel promises -/

/-- What the peer and the network do to a registered connection. -/
structure Conn.Moves (interest : Interest) (k k' : Conn) : Prop where
  received : ∃ bytes, k'.arrived = k.arrived ++ bytes ∧ k'.unread = k.unread ++ bytes
  closing : k.peer ≠ .open → k'.peer ≠ .open
  growing : k.room ≤ k'.room
  kept : k.pending = true → k'.pending = true
  /-- Bytes that arrive, and a change of the peer, are an edge. -/
  readable : k'.unread ≠ k.unread ∨ k'.peer ≠ k.peer → k'.pending = true
  /-- Room after there was none is an edge of a registration with {lit}`EPOLLOUT`. -/
  writable : interest.epollout = true → k.room = 0 → 0 < k'.room → k'.pending = true

/-- What {lit}`EPOLL_CTL_ADD` does, and the {lit}`EPOLL_CTL_MOD` of the first message. -/
structure Conn.Opened (interest : Interest) (k : Conn) : Prop where
  unread : k.unread = k.arrived
  added : (k.flags interest).any = true → k.pending = true

/-- What a handler does to a connection that it neither reads nor writes.  A call of
{lit}`EPOLL_CTL_MOD` reads the available I/O again; calls that leave the mask as it was may do
so, too. -/
structure Conn.Rearmed (before after : Interest) (k k' : Conn) : Prop where
  same : k.SameFlow k'
  kept : k.pending = true → k'.pending = true
  modified : before ≠ after → (k'.flags after).any = true → k'.pending = true

/-- {lit}`read` is called until the bytes are used up, and says then how the peer is. -/
structure Conn.Reads (k : Conn) (reads : ReadResults) : Prop where
  bytes : k.peer = .open → reads.chunks.flatMap Chunk.bytes = k.unread
  last : reads.last =
    match k.peer with
    | .open => .wouldBlock
    | .shut => .endOfStream
    | .reset => .failed

/-- What the handlers of an event do to its connection.  A {lit}`write` that leaves something
behind has used up the room. -/
structure Conn.Handled (flags : EventFlags) (reads : ReadResults) (result : WriteResult)
    (before after : Session) (k k' : Conn) : Prop where
  arrived : k'.arrived = k.arrived
  peer : k'.peer = k.peer
  reading : flags.reading = true → k.peer = .open → k'.unread = []
  notReading : flags.reading = false → k'.unread = k.unread
  writing : flags.writing = true → after.outBuffer ≠ [] → k'.room = 0
  notWriting : flags.writing = false → k'.room = k.room
  kept : k.pending = true → k'.pending = true
  modified : before.interest ≠ after.interest → (k'.flags after.interest).any = true →
    k'.pending = true

/-! ## The world -/

/-- {lit}`ChatServer::MAX_EVENTS` -/
def maxEvents : Nat := 64

/-- The server, the connections, and the events of the batch that the loop has not come to. -/
structure World where
  server : ChatServer
  conns : Fd → Conn
  hand : List (Fd × EventFlags)

/-- What {lit}`epoll_wait` returns, and what it leaves in its list. -/
structure World.Waits (w : World) (conns : Fd → Conn) (hand : List (Fd × EventFlags)) : Prop where
  bounded : hand.length ≤ maxEvents
  nodup : (hand.map Prod.fst).Nodup
  reported : ∀ fd flags, (fd, flags) ∈ hand → ∃ c, w.server.clients.lookup fd = some c ∧
    (w.conns fd).pending = true ∧ flags = (w.conns fd).flags c.interest
  same : ∀ fd, (w.conns fd).SameFlow (conns fd)
  kept : ∀ fd c, w.server.clients.lookup fd = some c → (w.conns fd).pending = true →
    ((w.conns fd).flags c.interest).any = true → fd ∉ hand.map Prod.fst →
      (conns fd).pending = true

/-- A step of the world: the environment acts, {lit}`epoll_wait` returns, or the loop takes a
turn, for which the tables may be in another order.  Accepts come at any point of a batch.
A turn with a fault is no step, and none follows the death of the process by
{lit}`SIGPIPE`. -/
inductive WorldStep : World → Option Turn → World → Prop
  | environment {s : ChatServer} {conns conns' : Fd → Conn} {hand : List (Fd × EventFlags)}
      (hmoves : ∀ fd c, s.clients.lookup fd = some c → (conns fd).Moves c.interest (conns' fd)) :
      WorldStep ⟨s, conns, hand⟩ none ⟨s, conns', hand⟩
  | wait {s : ChatServer} {conns conns' : Fd → Conn} {hand : List (Fd × EventFlags)}
      (hwaits : World.Waits ⟨s, conns, []⟩ conns' hand) :
      WorldStep ⟨s, conns, []⟩ none ⟨s, conns', hand⟩
  | accept {s s' : ChatServer} {conns conns' : Fd → Conn} {hand : List (Fd × EventFlags)}
      {results : List AcceptResult} (hturn : TurnStep s (.ready (.server results)) s')
      (hold : ∀ fd c c', s.clients.lookup fd = some c → s'.clients.lookup fd = some c' →
        (conns fd).Rearmed c.interest c'.interest (conns' fd))
      (hnew : ∀ fd c', s.clients.lookup fd = none → s'.clients.lookup fd = some c' →
        (conns' fd).Opened c'.interest) :
      WorldStep ⟨s, conns, hand⟩ (some (.ready (.server results))) ⟨s', conns', hand⟩
  | handle {s s' : ChatServer} {conns conns' : Fd → Conn} {hand : List (Fd × EventFlags)}
      {client : Fd} {flags : EventFlags} {reads : ReadResults} {result : WriteResult}
      (hturn : TurnStep s (.ready (.client client flags reads result)) s')
      (hreads : flags.reading = true → (conns client).Reads reads)
      -- the kernel has the memory it needs: a `write` with room before it is not refused
      (hwrites : 0 < (conns client).room → (conns client).peer ≠ .reset →
        ∃ n, 0 < n ∧ result = .accepted n)
      (hself : ∀ c c', s.clients.lookup client = some c → s'.clients.lookup client = some c' →
        Conn.Handled flags reads result c c' (conns client) (conns' client))
      (hothers : ∀ fd c c', fd ≠ client → s.clients.lookup fd = some c →
        s'.clients.lookup fd = some c' →
          (conns fd).Rearmed c.interest c'.interest (conns' fd)) :
      WorldStep ⟨s, conns, (client, flags) :: hand⟩
        (some (.ready (.client client flags reads result))) ⟨s', conns', hand⟩
  | rehash {s s' : ChatServer} {conns : Fd → Conn} {hand : List (Fd × EventFlags)}
      {clients : ClientTable} {rooms : RoomTable}
      (hturn : TurnStep s (.rehash clients rooms) s') :
      WorldStep ⟨s, conns, hand⟩ (some (.rehash clients rooms)) ⟨s', conns, hand⟩

/-- The world when {lit}`run` starts to wait for events. -/
def World.booted (conns : Fd → Conn) : World :=
  ⟨.started, conns, []⟩

/-- The turns that the loop takes in a run of the world. -/
def Transition.turns (t : Transition World (Option Turn)) : List (Transition ChatServer Turn) :=
  match t.event with
  | none => []
  | some turn => [⟨t.pre.server, turn, t.post.server⟩]

theorem worldStep_turns {w w' : World} {e : Option Turn} (h : WorldStep w e w') :
    Run TurnStep w.server (Transition.turns ⟨w, e, w'⟩) w'.server := by
  cases h with
  | environment hmoves => exact .nil _
  | wait hwaits => exact .nil _
  | accept hturn hold hnew => exact .single hturn
  | handle hturn hreads hwrites hself hothers => exact .single hturn
  | rehash hturn => exact .single hturn

/-- Seen from the server, a run of the world is a run of the loop. -/
theorem run_turns {w w' : World} {ts : List (Transition World (Option Turn))}
    (hrun : Run WorldStep w ts w') :
    Run TurnStep w.server (ts.flatMap Transition.turns) w'.server :=
  hrun.project World.server Transition.turns fun _ ht => worldStep_turns (hrun.step_of_mem ht)

/-! ## Nothing is forgotten -/

/-- The server will be told of a direction of a connection, or has been told and will come to
it. -/
def World.Noticed (w : World) (fd : Fd) (direction : EventFlags → Bool) : Prop :=
  (w.conns fd).pending = true ∨ ∃ flags, (fd, flags) ∈ w.hand ∧ direction flags = true

/-- What is possible on a connection and has not been done is noticed, and the intake of the
client is what was read. -/
structure World.Alert (w : World) (fd : Fd) (c : Session) : Prop where
  input : (w.conns fd).Readable → w.Noticed fd EventFlags.epollin
  output : c.outBuffer ≠ [] → 0 < (w.conns fd).room → w.Noticed fd EventFlags.epollout
  read : ∃ bytes, (w.conns fd).arrived = bytes ++ (w.conns fd).unread ∧
    c.intake = Intake.empty.feed bytes

/-- An event of the batch still says the truth when the loop comes to it. -/
structure World.Held (w : World) (fd : Fd) (flags : EventFlags) : Prop where
  registered : fd ∈ w.server.clients
  writable : flags.epollout = true → 0 < (w.conns fd).room
  closed : (flags.epollerr || flags.epollhup) = true → (w.conns fd).peer ≠ .open

structure World.Intact (w : World) : Prop where
  turn : TurnState w.server
  nodup : (w.hand.map Prod.fst).Nodup
  held : ∀ fd flags, (fd, flags) ∈ w.hand → w.Held fd flags
  alert : ∀ fd c, w.server.clients.lookup fd = some c → w.Alert fd c

section Registrations

variable {s s' : ChatServer} {client fd : Fd} {c c' : Session} {k k' : Conn} {i : Interest}

/-- Write interest is registered exactly while something is buffered. -/
theorem epollout_iff (hs : TurnState s) (hc : s.clients.lookup fd = some c) :
    c.interest.epollout = true ↔ c.outBuffer ≠ [] := by
  have hintact := outputIntact_of_reachable (drained_of_turn hs).1 fd c hc
  exact hintact.registered.trans hintact.armed

theorem epollin_registered (hs : TurnState s) (hc : s.clients.lookup fd = some c) :
    c.interest.epollin = true :=
  everyone_of_reachable outputRule_epollin (drained_of_turn hs).1 fd c hc

theorem Conn.flags_any_of_readable (hk : k.Readable) (hin : i.epollin = true) :
    (k.flags i).any = true := by
  simp [EventFlags.any, Conn.flags, hk, hin]

theorem Conn.flags_any_of_room (hroom : 0 < k.room) (hout : i.epollout = true) :
    (k.flags i).any = true := by
  simp [EventFlags.any, Conn.flags, hroom, hout]

/-- The intake of a client is fed with what a turn reads. -/
theorem turn_intake (hs : TurnState s) {turn : Turn} (hturn : TurnStep s turn s')
    (hc : s.clients.lookup fd = some c) (hc' : s'.clients.lookup fd = some c') :
    c'.intake = c.intake.feed (turn.bytesFrom fd) := by
  rcases drained_of_turn hs with ⟨hreachable, hdrained⟩
  have hfed := turn_feeds hreachable hdrained hturn fd _ (intakeOf_eq hc')
  rwa [intakeOf_eq hc, Option.getD_some] at hfed

/-- A new client has an empty intake. -/
theorem turn_intake_new (hs : TurnState s) {turn : Turn} (hturn : TurnStep s turn s')
    (hc : s.clients.lookup fd = none) (hc' : s'.clients.lookup fd = some c') :
    c'.intake = Intake.empty.feed (turn.bytesFrom fd) := by
  rcases drained_of_turn hs with ⟨hreachable, hdrained⟩
  have hfed := turn_feeds hreachable hdrained hturn fd _ (intakeOf_eq hc')
  rwa [intakeOf, hc] at hfed

/-- An event of a client neither adds nor removes another one. -/
theorem turn_keeps_others (hs : TurnState s) {flags : EventFlags} {reads : ReadResults}
    {result : WriteResult} (hturn : TurnStep s (.ready (.client client flags reads result)) s')
    (hfd : fd ≠ client) : fd ∈ s'.clients ↔ fd ∈ s.clients := by
  rcases turnStep_ready.1 hturn with ⟨hfresh, hok⟩
  have hreachable := (drained_of_turn hs).1
  rcases handleEvent_run hreachable hfresh hok with ⟨ts, hrun⟩
  have hsame := intakeOf_other hreachable hrun hfd
  have hisSome : (s'.clients.lookup fd).isSome = (s.clients.lookup fd).isSome := by
    simpa [intakeOf] using congrArg Option.isSome hsame
  rw [← AList.lookup_isSome, ← AList.lookup_isSome, hisSome]

theorem turn_rehash_lookup {clients : ClientTable} {rooms : RoomTable}
    (hturn : TurnStep s (.rehash clients rooms) s') (fd : Fd) :
    s'.clients.lookup fd = s.clients.lookup fd := by
  rcases step_iff.1 (turnStep_rehash.1 hturn) with ⟨henabled, happly⟩
  cases happly
  exact AList.perm_lookup henabled.1

end Registrations

/-! ## One step -/

section Steps

variable {w w' : World} {s s' : ChatServer} {conns conns' : Fd → Conn} {turn : Turn}
variable {hand hand' : List (Fd × EventFlags)} {client fd : Fd} {c c' : Session}
variable {flags : EventFlags} {reads : ReadResults} {result : WriteResult}

/-- A turn that neither reads nor writes a connection keeps it alert. -/
theorem World.Alert.rearmed (hs : TurnState s) (hturn : TurnStep s turn s')
    (hc : s.clients.lookup fd = some c) (hc' : s'.clients.lookup fd = some c')
    (halert : World.Alert ⟨s, conns, hand⟩ fd c) (hsilent : turn.bytesFrom fd = [])
    (hrearmed : (conns fd).Rearmed c.interest c'.interest (conns' fd))
    (hhand : ∀ flags, (fd, flags) ∈ hand → (fd, flags) ∈ hand') :
    World.Alert ⟨s', conns', hand'⟩ fd c' := by
  have hnoticed : ∀ {direction}, World.Noticed ⟨s, conns, hand⟩ fd direction →
      World.Noticed ⟨s', conns', hand'⟩ fd direction := by
    rintro direction (hpending | ⟨flags, hmem, hflag⟩)
    · exact Or.inl (hrearmed.kept hpending)
    · exact Or.inr ⟨flags, hhand flags hmem, hflag⟩
  constructor
  · intro hreadable
    exact hnoticed (halert.input (hrearmed.same.readable_iff.1 hreadable))
  · intro hbuffer hspace
    have harmed := (epollout_iff (hs.step hturn) hc').2 hbuffer
    by_cases hsame : c.interest = c'.interest
    · apply hnoticed
      rw [← hsame, epollout_iff hs hc] at harmed
      exact halert.output harmed (hrearmed.same.room ▸ hspace)
    · exact Or.inl (hrearmed.modified hsame (Conn.flags_any_of_room hspace harmed))
  · rcases halert.read with ⟨bytes, hbytes, hintake⟩
    refine ⟨bytes, ?_, ?_⟩
    · rw [hrearmed.same.arrived, hrearmed.same.unread]
      exact hbytes
    · rw [turn_intake hs hturn hc hc', hintake, hsilent, ← Intake.feed_append, List.append_nil]

/-- What the environment does is noticed. -/
theorem World.Intact.environment (h : World.Intact ⟨s, conns, hand⟩)
    (hmoves : ∀ fd c, s.clients.lookup fd = some c → (conns fd).Moves c.interest (conns' fd)) :
    World.Intact ⟨s, conns', hand⟩ where
  turn := h.turn
  nodup := h.nodup
  held fd flags hmem := by
    have hheld := h.held fd flags hmem
    rcases AList.mem_iff_lookup.1 hheld.registered with ⟨c, hc⟩
    have hmove := hmoves fd c hc
    exact ⟨hheld.registered, fun hout => (hheld.writable hout).trans_le hmove.growing,
      fun hclosed => hmove.closing (hheld.closed hclosed)⟩
  alert fd c hc := by
    have hmove := hmoves fd c hc
    have halert := h.alert fd c hc
    have hnoticed : ∀ {direction}, World.Noticed ⟨s, conns, hand⟩ fd direction →
        World.Noticed ⟨s, conns', hand⟩ fd direction := Or.imp_left hmove.kept
    constructor
    · intro hreadable
      by_cases hsame : (conns' fd).unread = (conns fd).unread ∧ (conns' fd).peer = (conns fd).peer
      · apply hnoticed
        apply halert.input
        simpa only [Conn.Readable, hsame.1, hsame.2] using hreadable
      · exact Or.inl (hmove.readable (not_and_or.1 hsame))
    · intro hbuffer hspace
      rcases Nat.eq_zero_or_pos (conns fd).room with hfull | hroom
      · exact Or.inl (hmove.writable ((epollout_iff h.turn hc).2 hbuffer) hfull hspace)
      · exact hnoticed (halert.output hbuffer hroom)
    · rcases halert.read with ⟨bytes, hbytes, hintake⟩
      rcases hmove.received with ⟨more, harrived, hunread⟩
      refine ⟨bytes, ?_, hintake⟩
      calc (conns' fd).arrived = (conns fd).arrived ++ more := harrived
        _ = bytes ++ (conns fd).unread ++ more := by rw [show (conns fd).arrived = _ from hbytes]
        _ = bytes ++ (conns' fd).unread := by rw [hunread, List.append_assoc]

/-- A connection that {lit}`epoll_wait` takes from its list is in the batch. -/
theorem World.Intact.wait (h : World.Intact ⟨s, conns, []⟩)
    (hwaits : World.Waits ⟨s, conns, []⟩ conns' hand) : World.Intact ⟨s, conns', hand⟩ where
  turn := h.turn
  nodup := hwaits.nodup
  held fd flags hmem := by
    rcases hwaits.reported fd flags hmem with ⟨c, hc, _, rfl⟩
    have hsame := hwaits.same fd
    refine ⟨AList.mem_of_lookup hc, fun hout => ?_, fun hclosed => ?_⟩
    · have hspace : decide (0 < (conns fd).room) = true := (Bool.and_eq_true _ _ ▸ hout).2
      exact (of_decide_eq_true hspace).trans_eq hsame.room.symm
    · have hreset : (conns fd).peer = .reset := by simpa [Conn.flags] using hclosed
      have hpeer : (conns' fd).peer = .reset := hsame.peer.trans hreset
      simp [hpeer]
  alert fd c hc := by
    have hsame := hwaits.same fd
    have halert := h.alert fd c hc
    have htaken : ∀ {direction : EventFlags → Bool},
        World.Noticed ⟨s, conns, []⟩ fd direction → ((conns fd).flags c.interest).any = true →
          direction ((conns fd).flags c.interest) = true →
            World.Noticed ⟨s, conns', hand⟩ fd direction := by
      rintro direction (hpending | ⟨flags, hmem, _⟩) hany hdirection
      · by_cases hmem : fd ∈ hand.map Prod.fst
        · rcases List.mem_map.1 hmem with ⟨⟨fd', flags⟩, hentry, rfl⟩
          rcases hwaits.reported _ flags hentry with ⟨c', hc', _, rfl⟩
          cases hc.symm.trans hc'
          exact Or.inr ⟨_, hentry, hdirection⟩
        · exact Or.inl (hwaits.kept fd c hc hpending hany hmem)
      · cases hmem
    constructor
    · intro hreadable
      have hold : (conns fd).Readable := hsame.readable_iff.1 hreadable
      have hin := epollin_registered h.turn hc
      refine htaken (halert.input hold) (Conn.flags_any_of_readable hold hin) ?_
      simp [Conn.flags, hin, hold]
    · intro hbuffer hspace
      have hold : 0 < (conns fd).room := hspace.trans_eq hsame.room
      have hout := (epollout_iff h.turn hc).2 hbuffer
      refine htaken (halert.output hbuffer hold) (Conn.flags_any_of_room hold hout) ?_
      simp [Conn.flags, hout, hold]
    · rcases halert.read with ⟨bytes, hbytes, hintake⟩
      refine ⟨bytes, ?_, hintake⟩
      rw [hsame.arrived, hsame.unread]
      exact hbytes

/-- Accepts keep the clients they find, and hear of the connections they add. -/
theorem World.Intact.accept {results : List AcceptResult} (h : World.Intact ⟨s, conns, hand⟩)
    (hturn : TurnStep s (.ready (.server results)) s')
    (hold : ∀ fd c c', s.clients.lookup fd = some c → s'.clients.lookup fd = some c' →
      (conns fd).Rearmed c.interest c'.interest (conns' fd))
    (hnew : ∀ fd c', s.clients.lookup fd = none → s'.clients.lookup fd = some c' →
      (conns' fd).Opened c'.interest) : World.Intact ⟨s', conns', hand⟩ := by
  have hkept : ∀ fd c, s.clients.lookup fd = some c → s'.clients.lookup fd = some c := by
    intro fd c hc
    rcases turnStep_ready.1 hturn with ⟨hfresh, hok⟩
    cases hok
    exact acceptNewClient_lookup hc hfresh
  have hs' : TurnState s' := h.turn.step hturn
  refine ⟨hs', h.nodup, fun fd flags hmem => ?_, fun fd c' hc' => ?_⟩
  · have hheld := h.held fd flags hmem
    rcases AList.mem_iff_lookup.1 hheld.registered with ⟨c, hc⟩
    have hsame := (hold fd c c hc (hkept fd c hc)).same
    refine ⟨AList.mem_of_lookup (hkept fd c hc), fun hout => ?_, fun hclosed => ?_⟩
    · exact (hheld.writable hout).trans_eq hsame.room.symm
    · exact fun hopen => hheld.closed hclosed (hsame.peer.symm.trans hopen)
  · cases hc : s.clients.lookup fd with
    | some c =>
        exact (h.alert fd c hc).rearmed h.turn hturn hc hc' rfl (hold fd c c' hc hc')
          fun _ hmem => hmem
    | none =>
        have hopened := hnew fd c' hc hc'
        constructor
        · intro hreadable
          have hin := epollin_registered hs' hc'
          exact Or.inl (hopened.added (Conn.flags_any_of_readable hreadable hin))
        · intro hbuffer hspace
          have hout := (epollout_iff hs' hc').2 hbuffer
          exact Or.inl (hopened.added (Conn.flags_any_of_room hspace hout))
        · exact ⟨[], hopened.unread.symm, turn_intake_new h.turn hturn hc hc'⟩

/-- A client that is there after an event of its own had no error reported, and if it was
read, its peer has the connection open. -/
theorem handled_kept (hs : TurnState s)
    (hturn : TurnStep s (.ready (.client client flags reads result)) s')
    (hmem : client ∈ s'.clients) :
    (flags.epollerr || flags.epollhup) = false ∧
      (flags.epollin = true → reads.last = .wouldBlock) := by
  have hreachable := (drained_of_turn hs).1
  have hok := (turnStep_ready.1 hturn).2
  rw [handleEvent_client_iff] at hok
  split at hok <;> rename_i hclosed
  · exact absurd hmem (disconnectClient_performs hreachable hok.1.1 hok.2).2
  · refine ⟨Bool.eq_false_iff.2 hclosed, fun hin => ?_⟩
    rcases hok with ⟨t, hread, hwrite⟩
    rw [if_pos hin] at hread
    have hends := ((handleClientRead_ensures hreachable hread.1.1 reads).of_ok hread.2).2
    by_contra hlast
    rw [if_neg hlast] at hends
    split at hwrite
    · exact hends hwrite.1.1
    · rw [hwrite] at hmem
      exact hends hmem

/-- The loop leaves nothing undone on the connection of an event. -/
theorem World.Alert.handled (hs : TurnState s)
    (hnodup : (((client, flags) :: hand).map Prod.fst).Nodup)
    (hturn : TurnStep s (.ready (.client client flags reads result)) s')
    (hreads : flags.reading = true → (conns client).Reads reads)
    (hc : s.clients.lookup client = some c) (hc' : s'.clients.lookup client = some c')
    (halert : World.Alert ⟨s, conns, (client, flags) :: hand⟩ client c)
    (hself : Conn.Handled flags reads result c c' (conns client) (conns' client)) :
    World.Alert ⟨s', conns', hand⟩ client c' := by
  rcases handled_kept hs hturn (AList.mem_of_lookup hc') with ⟨hclosed, hlast⟩
  have hreading : flags.reading = flags.epollin := by rw [EventFlags.reading, hclosed]; rfl
  have hwriting : flags.writing = flags.epollout := by rw [EventFlags.writing, hclosed]; rfl
  have hopen : flags.epollin = true → (conns client).peer = .open := by
    intro hin
    have hends := (hreads (hreading.trans hin)).last
    rw [hlast hin] at hends
    cases hpeer : (conns client).peer with
    | «open» => rfl
    | shut => simp [hpeer] at hends
    | reset => simp [hpeer] at hends
  -- The event in the batch is the only one of the connection.
  have hnoticed : ∀ {direction : EventFlags → Bool}, direction flags = false →
      World.Noticed ⟨s, conns, (client, flags) :: hand⟩ client direction →
        World.Noticed ⟨s', conns', hand⟩ client direction := by
    rintro direction hflag (hpending | ⟨flags', hmem, hflag'⟩)
    · exact Or.inl (hself.kept hpending)
    · rcases List.mem_cons.1 hmem with heq | htail
      · cases heq
        rw [hflag] at hflag'
        cases hflag'
      · exact absurd (List.mem_map_of_mem htail) (List.nodup_cons.1 hnodup).1
  constructor
  · intro hreadable
    cases hin : flags.epollin with
    | true =>
        have hempty := hself.reading (hreading.trans hin) (hopen hin)
        have hpeer := hself.peer.trans (hopen hin)
        rcases hreadable with hbytes | hgone
        · exact absurd hempty hbytes
        · exact absurd hpeer hgone
    | false =>
        apply hnoticed hin
        apply halert.input
        have hunread := hself.notReading (hreading.trans hin)
        simpa only [Conn.Readable, hunread, hself.peer] using hreadable
  · intro hbuffer hspace
    cases hout : flags.epollout with
    | true =>
        have hfull := hself.writing (hwriting.trans hout) hbuffer
        have hspace' : 0 < (conns' client).room := hspace
        omega
    | false =>
        have hroom := hself.notWriting (hwriting.trans hout)
        have harmed := (epollout_iff (hs.step hturn) hc').2 hbuffer
        by_cases hsame : c.interest = c'.interest
        · apply hnoticed hout
          rw [← hsame, epollout_iff hs hc] at harmed
          exact halert.output harmed (hspace.trans_eq hroom)
        · exact Or.inl (hself.modified hsame (Conn.flags_any_of_room hspace harmed))
  · rcases halert.read with ⟨bytes, hbytes, hintake⟩
    have hfed := turn_intake hs hturn hc hc'
    rw [hintake, ← Intake.feed_append] at hfed
    refine ⟨_, ?_, hfed⟩
    simp only [Turn.bytesFrom, ReadyEvent.bytesFrom, true_and, hreading, hself.arrived]
    cases hin : flags.epollin with
    | true =>
        rw [if_pos rfl, (hreads (hreading.trans hin)).bytes (hopen hin),
          hself.reading (hreading.trans hin) (hopen hin), List.append_nil]
        exact hbytes
    | false =>
        rw [if_neg (by simp), hself.notReading (hreading.trans hin), List.append_nil]
        exact hbytes

/-- An event of the batch leaves every connection alert. -/
theorem World.Intact.handle (h : World.Intact ⟨s, conns, (client, flags) :: hand⟩)
    (hturn : TurnStep s (.ready (.client client flags reads result)) s')
    (hreads : flags.reading = true → (conns client).Reads reads)
    (hself : ∀ c c', s.clients.lookup client = some c → s'.clients.lookup client = some c' →
      Conn.Handled flags reads result c c' (conns client) (conns' client))
    (hothers : ∀ fd c c', fd ≠ client → s.clients.lookup fd = some c →
      s'.clients.lookup fd = some c' → (conns fd).Rearmed c.interest c'.interest (conns' fd)) :
    World.Intact ⟨s', conns', hand⟩ := by
  have hkeeps : ∀ fd, fd ≠ client → (fd ∈ s'.clients ↔ fd ∈ s.clients) := fun fd hfd =>
    turn_keeps_others h.turn hturn hfd
  have hhead : client ∈ s.clients := (h.held client flags List.mem_cons_self).registered
  have htail : ∀ {fd flags'}, (fd, flags') ∈ hand → fd ≠ client := by
    rintro fd flags' hmem rfl
    exact (List.nodup_cons.1 h.nodup).1 (List.mem_map.2 ⟨_, hmem, rfl⟩)
  refine ⟨h.turn.step hturn, (List.nodup_cons.1 h.nodup).2, fun fd flags' hmem => ?_,
    fun fd c' hc' => ?_⟩
  · have hheld := h.held fd flags' (List.mem_cons_of_mem _ hmem)
    have hmem' := (hkeeps fd (htail hmem)).2 hheld.registered
    rcases AList.mem_iff_lookup.1 hheld.registered with ⟨c, hc⟩
    rcases AList.mem_iff_lookup.1 hmem' with ⟨c', hc'⟩
    have hsame := (hothers fd c c' (htail hmem) hc hc').same
    refine ⟨hmem', fun hout => ?_, fun hclosed => ?_⟩
    · exact (hheld.writable hout).trans_eq hsame.room.symm
    · exact fun hopen => hheld.closed hclosed (hsame.peer.symm.trans hopen)
  · by_cases hfd : fd = client
    · subst hfd
      rcases AList.mem_iff_lookup.1 hhead with ⟨c, hc⟩
      exact (h.alert fd c hc).handled h.turn h.nodup hturn hreads hc hc' (hself c c' hc hc')
    · rcases AList.mem_iff_lookup.1 ((hkeeps fd hfd).1 (AList.mem_of_lookup hc')) with ⟨c, hc⟩
      have hsilent : Turn.bytesFrom fd (.ready (.client client flags reads result)) = [] :=
        if_neg fun hreading => hfd hreading.1.symm
      refine (h.alert fd c hc).rearmed h.turn hturn hc hc' hsilent (hothers fd c c' hfd hc hc') ?_
      intro flags' hmem
      exact (List.mem_cons.1 hmem).resolve_left fun heq => hfd (congrArg Prod.fst heq)

/-- No step of the world loses a wakeup. -/
theorem worldStep_intact {e : Option Turn} (h : w.Intact) (hstep : WorldStep w e w') :
    w'.Intact := by
  cases hstep with
  | environment hmoves => exact h.environment hmoves
  | wait hwaits => exact h.wait hwaits
  | accept hturn hold hnew => exact h.accept hturn hold hnew
  | handle hturn hreads hwrites hself hothers => exact h.handle hturn hreads hself hothers
  | @rehash s s' conns hand clients rooms hturn =>
      have hlookup := turn_rehash_lookup hturn
      refine ⟨h.turn.step hturn, h.nodup, fun fd flags hmem => ?_, fun fd c hc => ?_⟩
      · have hheld := h.held fd flags hmem
        refine ⟨?_, hheld.writable, hheld.closed⟩
        rcases AList.mem_iff_lookup.1 hheld.registered with ⟨c, hc⟩
        exact AList.mem_of_lookup ((hlookup fd).trans hc)
      · have halert := h.alert fd c ((hlookup fd).symm.trans hc)
        exact ⟨halert.input, halert.output, halert.read⟩

/-- An announced event of a client whose peer has the connection open leaves the client there. -/
theorem handle_keeps (h : World.Intact ⟨s, conns, (client, flags) :: hand⟩)
    (hturn : TurnStep s (.ready (.client client flags reads result)) s')
    (hreads : flags.reading = true → (conns client).Reads reads)
    (hwrites : 0 < (conns client).room → (conns client).peer ≠ .reset →
      ∃ n, 0 < n ∧ result = .accepted n)
    (hopen : (conns client).peer = .open) : client ∈ s'.clients := by
  have hheld := h.held client flags List.mem_cons_self
  have hreachable := (drained_of_turn h.turn).1
  have hclosed : (flags.epollerr || flags.epollhup) = false := by
    rw [Bool.eq_false_iff]
    exact fun hclosed => hheld.closed hclosed hopen
  have hok := (turnStep_ready.1 hturn).2
  rw [handleEvent_client_iff, hclosed, if_neg Bool.false_ne_true] at hok
  rcases hok with ⟨t, hread, hwrite⟩
  have hserved : ReachableState t ∧ client ∈ t.clients := by
    split at hread <;> rename_i hin
    · have hends := (hreads (by rw [EventFlags.reading, hclosed, hin]; rfl)).last
      rw [hopen] at hends
      rcases (handleClientRead_ensures hreachable hread.1.1 reads).of_ok hread.2 with
        ⟨⟨ts, hrun⟩, hkeeps⟩
      rw [if_pos hends] at hkeeps
      exact ⟨hreachable.run (hrun.mono fun _ _ _ h => h.2), hkeeps.mem.2 hread.1.1⟩
    · rw [hread]
      exact ⟨hreachable, hheld.registered⟩
  split at hwrite <;> rename_i hout
  · rcases AList.mem_iff_lookup.1 hserved.2 with ⟨c, hc⟩
    rcases hwrites (hheld.writable hout) (by simp [hopen]) with ⟨n, _, rfl⟩
    have haccepted : (c.handleWrite (.accepted n)).1 = true := by
      rw [← Bool.not_eq_false, Session.handleWrite_false_iff]
      simp
    have heq := handleClientWrite_eq hc (keyed_of_reachable hserved.1 client c hc) (.accepted n)
    rw [hwrite.2, haccepted, if_pos rfl] at heq
    cases heq
    exact AList.mem_of_lookup (wrote_lookup_self hc (.accepted n))
  · rw [hwrite]
    exact hserved.2

/-- No step removes a client whose peer has the connection open. -/
theorem worldStep_keeps {e : Option Turn} (h : w.Intact) (hstep : WorldStep w e w')
    (hmem : fd ∈ w.server.clients) (hopen : (w.conns fd).peer = .open) :
    fd ∈ w'.server.clients := by
  cases hstep with
  | environment hmoves => exact hmem
  | wait hwaits => exact hmem
  | accept hturn hold hnew =>
      rcases AList.mem_iff_lookup.1 hmem with ⟨c, hc⟩
      rcases turnStep_ready.1 hturn with ⟨hfresh, hok⟩
      cases hok
      exact AList.mem_of_lookup (acceptNewClient_lookup hc hfresh)
  | @handle _ _ _ _ _ client _ _ _ hturn hreads hwrites hself hothers =>
      by_cases hfd : fd = client
      · subst hfd
        exact handle_keeps h hturn hreads hwrites hopen
      · exact (turn_keeps_others h.turn hturn hfd).2 hmem
  | rehash hturn =>
      rcases AList.mem_iff_lookup.1 hmem with ⟨c, hc⟩
      exact AList.mem_of_lookup ((turn_rehash_lookup hturn fd).trans hc)

theorem booted_intact (conns : Fd → Conn) : (World.booted conns).Intact where
  turn := .refl _
  nodup := List.nodup_nil
  held _ _ hmem := by cases hmem
  alert _ _ hc := by cases hc

theorem run_intact {ts : List (Transition World (Option Turn))}
    (hrun : Run WorldStep (.booted conns) ts w) : w.Intact :=
  hrun.invariant (fun _ _ _ h hstep => worldStep_intact h hstep) (booted_intact conns)

end Steps

/-! ## What the server sleeps on -/

section Sleep

variable {conns : Fd → Conn} {w : World} {ts : List (Transition World (Option Turn))} {fd : Fd}
variable {c : Session}

/-- Whenever the loop has come to the end of a batch, a client that {lit}`epoll_wait` would not
report is done: its peer has the connection open, all bytes that have arrived were handled, and
unless there is no room to write, everything the service told the client was written. -/
theorem no_lost_wakeup (hrun : Run WorldStep (.booted conns) ts w) (hhand : w.hand = [])
    (hc : w.server.clients.lookup fd = some c) (hidle : (w.conns fd).pending = false) :
    (w.conns fd).peer = .open ∧
      c.handed = (frames newline (w.conns fd).arrived).flatMap lineOf ∧
      c.inBuffer = rest newline (w.conns fd).arrived ∧
      (0 < (w.conns fd).room → c.written =
        (Service.transcript ((ts.flatMap Transition.turns).flatMap Transition.requests)
          fd).flatten) := by
  have hintact := run_intact hrun
  have halert := hintact.alert fd c hc
  have hunnoticed : ∀ {direction}, ¬w.Noticed fd direction := by
    rintro direction (hpending | ⟨flags, hmem, _⟩)
    · rw [hidle] at hpending
      cases hpending
    · rw [hhand] at hmem
      cases hmem
  have hblocked : ¬(w.conns fd).Readable := fun hreadable => hunnoticed (halert.input hreadable)
  rw [Conn.Readable, not_or, not_not, not_not] at hblocked
  rcases halert.read with ⟨bytes, hbytes, hintake⟩
  rw [hblocked.1, List.append_nil] at hbytes
  subst hbytes
  refine ⟨hblocked.2, congrArg Intake.lines hintake, congrArg Intake.waiting hintake, ?_⟩
  intro hspace
  have hempty : c.outBuffer = [] := by
    by_contra hbuffer
    exact hunnoticed (halert.output hbuffer hspace)
  have hstream := stream_eq_textsTo (drained_of_turn hintact.turn).1 hc
  rw [hempty, List.append_nil] at hstream
  rw [hstream, (service_of_recorded (turns_recorded (run_turns hrun))).2]

/-- In every run of the world, a step of the server removes a client only when its peer has
closed or broken the connection.  {lit}`handle_write` gives up on {lit}`EAGAIN`; that the
kernel does not answer it while there is room, as it may if it is short of memory, is a law of
this world, and the room that was announced is still there when the loop comes to the event.
A run ends with the process and with the first fault: what {lit}`SIGPIPE` or undefined
behaviour does to the other clients is not part of it. -/
theorem open_clients_stay (hrun : Run WorldStep (.booted conns) ts w)
    {t : Transition World (Option Turn)} (ht : t ∈ ts) (hmem : fd ∈ t.pre.server.clients)
    (hopen : (t.pre.conns fd).peer = .open) : fd ∈ t.post.server.clients := by
  have hintact : t.pre.Intact := by
    refine (hrun.reachable_of_mem (.refl _) ht).1.invariant (booted_intact conns) ?_
    exact fun _ _ _ h hstep => worldStep_intact h hstep
  exact worldStep_keeps hintact (hrun.step_of_mem ht) hmem hopen

end Sleep

/-! ## A world at work -/

/-- The first line of client 5 is read, and everything queued to it is written. -/
def serving : Turn :=
  .ready (.client 5 ⟨true, true, false, false⟩ ⟨[⟨str "bob\n", by decide, by decide⟩], .wouldBlock⟩
    (.accepted 4096))

def accepting : Turn :=
  .ready (.server [.connection 5 true true, .wouldBlock])

/-- Connections whose peers have sent and are kept open. -/
def quietConns (arrived unread : Str) (pending : Bool) (_ : Fd) : Conn :=
  ⟨arrived, unread, .open, 4096, pending⟩

/-- A client connects, sends its name, is reported and is served. -/
def servingTrace : List (Transition World (Option Turn)) :=
  let w₀ : World := .booted (quietConns [] [] true)
  let w₁ : World := ⟨.afterTurns [accepting], quietConns [] [] true, []⟩
  let w₂ : World := { w₁ with conns := quietConns (str "bob\n") (str "bob\n") true }
  let w₃ : World :=
    { w₁ with
      conns := quietConns (str "bob\n") (str "bob\n") false
      hand := [(5, ⟨true, true, false, false⟩)] }
  let w₄ : World := ⟨.afterTurns [accepting, serving], quietConns (str "bob\n") [] false, []⟩
  [⟨w₀, some accepting, w₁⟩, ⟨w₁, none, w₂⟩, ⟨w₂, none, w₃⟩, ⟨w₃, some serving, w₄⟩]

theorem accepting_lookup {fd : Fd} {c : Session}
    (hc : (ChatServer.afterTurns [accepting]).clients.lookup fd = some c) :
    fd = 5 ∧ c.interest = .readWrite := by
  have hkeys : (ChatServer.afterTurns [accepting]).clients.keys = [5] := by decide +kernel
  have hmask : ((ChatServer.afterTurns [accepting]).clients.lookup 5).map (fun c => c.interest) =
      some .readWrite := by decide +kernel
  have hfd : fd = 5 := by
    have hmem := AList.mem_keys.1 (AList.mem_of_lookup hc)
    rwa [hkeys, List.mem_singleton] at hmem
  subst hfd
  rw [hc] at hmask
  exact ⟨rfl, Option.some.inj hmask⟩

theorem serving_lookup {c : Session}
    (hc : (ChatServer.afterTurns [accepting, serving]).clients.lookup 5 = some c) :
    c.interest = .read ∧ c.outBuffer = [] := by
  have hfields : ((ChatServer.afterTurns [accepting, serving]).clients.lookup 5).map
      (fun c => (c.interest, c.outBuffer)) = some (.read, []) := by decide +kernel
  rw [hc] at hfields
  exact Prod.mk.injEq _ _ _ _ ▸ Option.some.inj hfields

theorem serving_run : Run WorldStep (.booted (quietConns [] [] true)) servingTrace
    ⟨.afterTurns [accepting, serving], quietConns (str "bob\n") [] false, []⟩ := by
  have haccepting : TurnStep .started accepting (.afterTurns [accepting]) := by
    have hsome : (ChatServer.started.turnNext accepting).isSome = true := by decide +kernel
    rcases Option.isSome_iff_exists.1 hsome with ⟨s, hs⟩
    simp only [TurnStep, ChatServer.afterTurns, runEvents, List.foldl, hs, Option.getD_some]
  have hserving : TurnStep (.afterTurns [accepting]) serving
      (.afterTurns [accepting, serving]) := by
    have hsome : ((ChatServer.afterTurns [accepting]).turnNext serving).isSome = true := by
      decide +kernel
    rcases Option.isSome_iff_exists.1 hsome with ⟨s, hs⟩
    have hafter : ChatServer.afterTurns [accepting, serving] =
        ((ChatServer.afterTurns [accepting]).turnNext serving).getD (.afterTurns [accepting]) := rfl
    rw [hafter, hs]
    exact hs
  refine .cons (.accept haccepting ?_ ?_) (.cons (.environment ?_) (.cons (.wait ?_)
    (.cons (.handle hserving ?_ ?_ ?_ ?_) (.nil _))))
  · intro fd c c' hc
    cases hc
  · exact fun fd c' _ _ => ⟨rfl, fun _ => rfl⟩
  · intro fd c _
    exact ⟨⟨str "bob\n", rfl, rfl⟩, id, le_rfl, id, fun _ => rfl, fun _ _ _ => rfl⟩
  · refine ⟨by decide, by decide, ?_, fun fd => ⟨rfl, rfl, rfl, rfl⟩, ?_⟩
    · intro fd flags hmem
      cases List.mem_singleton.1 hmem
      have hsome : ((ChatServer.afterTurns [accepting]).clients.lookup 5).isSome = true := by
        decide +kernel
      rcases Option.isSome_iff_exists.1 hsome with ⟨c, hc⟩
      refine ⟨c, hc, rfl, ?_⟩
      rw [(accepting_lookup hc).2]
      decide
    · intro fd c hc _ _ habsent
      rw [(accepting_lookup hc).1] at habsent
      exact absurd (List.mem_singleton.2 rfl) habsent
  · exact fun _ => ⟨fun _ => rfl, rfl⟩
  · exact fun _ _ => ⟨4096, by decide, rfl⟩
  · intro c c' _ hc'
    rcases serving_lookup hc' with ⟨hmask, hempty⟩
    refine ⟨rfl, rfl, fun _ _ => rfl, fun h => ?_, fun _ h => absurd hempty h, fun _ => rfl, id, ?_⟩
    · cases h
    · intro _ hany
      rw [hmask] at hany
      cases hany
  · intro fd c c' hfd hc
    exact absurd (accepting_lookup hc).1 hfd

theorem serving_sleeps : ∃ c,
    (ChatServer.afterTurns [accepting, serving]).clients.lookup 5 = some c ∧
      c.handed = (frames newline (str "bob\n")).flatMap lineOf ∧
      c.written = (Service.transcript
        ((servingTrace.flatMap Transition.turns).flatMap Transition.requests) 5).flatten := by
  have hsome : ((ChatServer.afterTurns [accepting, serving]).clients.lookup 5).isSome = true := by
    decide +kernel
  rcases Option.isSome_iff_exists.1 hsome with ⟨c, hc⟩
  have hdone := no_lost_wakeup serving_run rfl hc rfl
  exact ⟨c, hc, hdone.2.1, hdone.2.2.2 (by decide)⟩

theorem serving_stays : 5 ∈ (ChatServer.afterTurns [accepting, serving]).clients :=
  @open_clients_stay _ _ servingTrace 5 serving_run servingTrace[3] (List.getElem_mem _)
    (by decide +kernel) rfl

end EpollChat
