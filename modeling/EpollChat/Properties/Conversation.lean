import EpollChat.Properties.Lines
import EpollChat.Properties.Refinement

/-!
# Conversations over the wire

From the bytes that {lit}`read` delivers to the bytes that {lit}`write` accepts.  The bytes
of a client are cut into frames and lines however they arrive, the chat service answers the
lines in the order in which the events hand them on, and its answers leave through the
output buffers.

Main results:

- Theorem {lit}`input_integrity`: what a client was handed and what is buffered for it are
  its bytes, whatever the events of the others.
- Theorem {lit}`turn_performs`: an event of the loop does what the service does with the
  actions that its bytes stand for.
- Theorem {lit}`conversation`: the bytes of every client are the answers of the service.
-/

namespace EpollChat

open ChatServer

/-! ## Input -/

/-- The bytes that an event reads from a client. -/
def ReadyEvent.bytesFrom (fd : Fd) : ReadyEvent → Str
  | .server _ => []
  | .client descriptor flags reads _ =>
      if descriptor = fd ∧ flags.reading then reads.chunks.flatMap Chunk.bytes else []

/-- The bytes that a client sends in a turn. -/
def Turn.bytesFrom (fd : Fd) : Turn → Str
  | .ready ev => ev.bytesFrom fd
  | .rehash _ _ => []

/-- The bytes received from a client; they begin anew with its connection. -/
def Transition.received (fd : Fd) (bytes : Str) (t : Transition ChatServer Turn) : Str :=
  (if fd ∈ t.pre.clients then bytes else []) ++ t.event.bytesFrom fd

/-- The bytes that a client sends in a run. -/
def bytesReceived (ts : List (Transition ChatServer Turn)) (fd : Fd) : Str :=
  ts.foldl (Transition.received fd) []

/-- The bytes that are waiting for the end of their line, and the lines before them. -/
structure Intake where
  waiting : Str
  lines : List Str

/-- More bytes: the complete lines are handed on, the rest waits. -/
def Intake.feed (i : Intake) (bytes : Str) : Intake where
  waiting := rest newline (i.waiting ++ bytes)
  lines := i.lines ++ (frames newline (i.waiting ++ bytes)).flatMap lineOf

/-- Nothing waits and nothing has been handed on. -/
def Intake.empty : Intake :=
  ⟨[], []⟩

theorem Intake.feed_nil {i : Intake} (h : newline ∉ i.waiting) : i.feed [] = i := by
  simp [feed, rest_of_notMem h, frames_of_notMem h]

/-- The cut between two portions does not matter. -/
theorem Intake.feed_append (i : Intake) (xs ys : Str) :
    i.feed (xs ++ ys) = (i.feed xs).feed ys := by
  simp only [feed, ← List.append_assoc, rest_append (i.waiting ++ xs),
    frames_append (i.waiting ++ xs), List.flatMap_append]

/-- The input side of a client. -/
def Session.intake (c : Session) : Intake :=
  ⟨c.inBuffer, c.handed⟩

/-- Nothing but its own reading changes the intake of a client. -/
def ChatServer.intakeOf (s : ChatServer) (fd : Fd) : Option Intake :=
  (s.clients.lookup fd).map Session.intake

/-- The intake of a client that a turn keeps is fed with what the turn reads; that of a
client that a turn adds is empty. -/
def FeedsOn (s s' : ChatServer) (fd : Fd) (bytes : Str) : Prop :=
  ∀ i, s'.intakeOf fd = some i → i = ((s.intakeOf fd).getD .empty).feed bytes

section Input

variable {s s' t : ChatServer} {client fd : Fd} {c : Session} {ev : ReadyEvent} {bytes : Str}

theorem intakeOf_eq (hc : s.clients.lookup fd = some c) : s.intakeOf fd = some c.intake := by
  rw [intakeOf, hc]
  rfl

theorem intake_queueAll (c : Session) (ds : List Delivery) :
    (c.queueAll ds).intake = c.intake := by
  induction ds generalizing c with
  | nil => rfl
  | cons d ds ih =>
      rw [Session.queueAll_cons, ih, Session.queueMessage_eq]
      rfl

/-- Who only hears keeps its input. -/
theorem ChatServer.Hears.intakeOf_eq (h : s.Hears s' fd) : s'.intakeOf fd = s.intakeOf fd :=
  h.map_lookup intake_queueAll

/-- Steps about other clients do not change an intake. -/
theorem intakeOf_other {ts : List (Transition ChatServer Event)} (hs : ReachableState s)
    (hrun : Run (ClientStep client) s ts s') (hfd : fd ≠ client) :
    s'.intakeOf fd = s.intakeOf fd := by
  refine (hrun.invariant (I := fun t => ReachableState t ∧ t.intakeOf fd = s.intakeOf fd) ?_
    ⟨hs, rfl⟩).2
  rintro t e t' ⟨ht, hsame⟩ ⟨hsubject, hstep⟩
  refine ⟨ht.step hstep, ?_⟩
  rw [← hsame]
  exact ((step_effect (keyed_of_reachable ht) hstep).others hsubject hfd).intakeOf_eq

/-- Without a read a drained intake stays as it is. -/
theorem feedsOn_nothing (hdrained : s.Drained)
    (h : s'.intakeOf fd = s.intakeOf fd ∨ s'.intakeOf fd = none ∨
      s.intakeOf fd = none ∧ s'.intakeOf fd = some .empty) : FeedsOn s s' fd [] := by
  intro i hi
  rcases h with hsame | hgone | ⟨hnone, hnew⟩
  · rw [← hsame, hi, Option.getD_some]
    have hmem : newline ∉ i.waiting := by
      rw [hsame] at hi
      rcases Option.map_eq_some_iff.1 hi with ⟨c, hc, rfl⟩
      exact hdrained fd c hc
    exact (Intake.feed_nil hmem).symm
  · rw [hgone] at hi
    cases hi
  · rw [hnew] at hi
    cases hi
    rw [hnone]
    rfl

/-- A new client has no input yet. -/
theorem intakeOf_acceptConnection (hfresh : fd ∉ s.clients) (nonblocking added : Bool) :
    (s.acceptConnection fd nonblocking added).intakeOf fd = none ∨
      (s.acceptConnection fd nonblocking added).intakeOf fd = some .empty := by
  unfold acceptConnection
  split
  · left
    rw [intakeOf, AList.lookup_eq_none.2 hfresh]
    rfl
  · split
    · left
      simp [intakeOf]
    · right
      rw [(hears_queueMessage nicknamePrompt).intakeOf_eq, intakeOf, AList.lookup_insert]
      rfl

theorem FeedsOn.of_eq_or_none (h : FeedsOn s t fd bytes)
    (h' : s'.intakeOf fd = t.intakeOf fd ∨ s'.intakeOf fd = none) : FeedsOn s s' fd bytes := by
  intro i hi
  rcases h' with hsame | hgone
  · exact h i (hsame.symm.trans hi)
  · rw [hgone] at hi
    cases hi

/-- Accepts leave the clients alone and add clients without any input. -/
theorem intakeOf_accepts {results : List AcceptResult} (hfresh : FreshResults results s) :
    (acceptNewClient results s).1.intakeOf fd = s.intakeOf fd ∨
      s.intakeOf fd = none ∧ (acceptNewClient results s).1.intakeOf fd = some .empty := by
  induction results generalizing s with
  | nil => exact Or.inl rfl
  | cons result results ih =>
      cases result with
      | wouldBlock => exact Or.inl rfl
      | failed => exact Or.inl rfl
      | connection client nonblocking added =>
          have hfirst : (s.acceptConnection client nonblocking added).intakeOf fd = s.intakeOf fd ∨
              s.intakeOf fd = none ∧
                (s.acceptConnection client nonblocking added).intakeOf fd = some .empty := by
            by_cases hfd : fd = client
            · subst hfd
              have hnone : s.intakeOf fd = none := by
                rw [intakeOf, AList.lookup_eq_none.2 hfresh.1]
                rfl
              rcases intakeOf_acceptConnection hfresh.1 nonblocking added with hgone | hnew
              · exact Or.inl (hgone.trans hnone.symm)
              · exact Or.inr ⟨hnone, hnew⟩
            · exact Or.inl (hears_acceptConnection hfd nonblocking added).intakeOf_eq
          rcases ih hfresh.2 with hrest | ⟨hrest, hnew⟩
          · rcases hfirst with hfirst | ⟨hnone, hnew⟩
            · exact Or.inl (hrest.trans hfirst)
            · exact Or.inr ⟨hnone, hrest.trans hnew⟩
          · rcases hfirst with hfirst | ⟨hnone, _⟩
            · exact Or.inr ⟨hfirst.symm.trans hrest, hnew⟩
            · exact Or.inr ⟨hnone, hnew⟩

/-- A disconnect ends the intake of its client. -/
theorem intakeOf_disconnected (hs : ReachableState s) (hmem : client ∈ s.clients)
    (hok : s.disconnectClient client = .ok s') : s'.intakeOf client = none := by
  rcases disconnect_step hs hmem with ⟨t, ht, _, hgone⟩
  rw [hok] at ht
  cases ht
  rw [intakeOf, AList.lookup_eq_none.2 hgone]
  rfl

/-- A read feeds the intake of its client with everything it reads. -/
theorem feedsOn_read (hs : ReachableState s) (hdrained : s.Drained) {reads : ReadResults}
    (hmem : client ∈ s.clients) (hok : s.handleClientRead client reads = .ok s') :
    FeedsOn s s' client (reads.chunks.flatMap Chunk.bytes) := by
  rcases AList.mem_iff_lookup.1 hmem with ⟨c, hc⟩
  rcases handleClientRead_received hc (hdrained client c hc) hok with ⟨t, _, hreceived, hlast⟩
  rcases received_lineRun (L := fun _ => True) hc (fun _ _ _ _ => trivial) hreceived with
    ⟨⟨ts, hrun⟩, c', hc', hhanded⟩
  rcases (received_bind hc hreceived []).2 with ⟨c'', hc'', hwaiting⟩
  have hfed : t.intakeOf client = some (c.intake.feed (reads.chunks.flatMap Chunk.bytes)) := by
    rw [hc'] at hc''
    cases hc''
    rw [intakeOf_eq hc', Session.intake, hhanded, hwaiting]
    rfl
  rcases hlast with ⟨_, rfl⟩ | hclosed
  · intro i hi
    rw [hfed] at hi
    cases hi
    rw [intakeOf_eq hc, Option.getD_some]
  · intro i hi
    have hreachable : ReachableState t := hs.run (hrun.mono fun _ _ _ h => h.2)
    rw [intakeOf_disconnected hreachable (AList.mem_of_lookup hc') hclosed] at hi
    cases hi

/-- A write does not touch the intake of its client, unless it removes the client. -/
theorem intakeOf_write (hs : ReachableState s) (hmem : client ∈ s.clients) {result : WriteResult}
    (hok : s.handleClientWrite client result = .ok s') :
    s'.intakeOf client = s.intakeOf client ∨ s'.intakeOf client = none := by
  rcases AList.mem_iff_lookup.1 hmem with ⟨c, hc⟩
  rw [handleClientWrite_eq hc (keyed_of_reachable hs client c hc)] at hok
  cases hok
  split
  · left
    rw [intakeOf_eq (wrote_lookup_self hc result), intakeOf_eq hc, Session.handleWrite_eq]
    rfl
  · right
    rw [intakeOf, disconnected_lookup, if_pos rfl]
    rfl

/-- A turn feeds every intake with what it reads from the client. -/
theorem turn_feeds (hs : ReachableState s) (hdrained : s.Drained) {turn : Turn}
    (hstep : TurnStep s turn s') (fd : Fd) : FeedsOn s s' fd (turn.bytesFrom fd) := by
  cases turn with
  | rehash clients rooms =>
      rcases step_iff.1 hstep with ⟨henabled, happly⟩
      cases happly
      refine feedsOn_nothing hdrained (Or.inl ?_)
      simp only [intakeOf, AList.perm_lookup henabled.1]
  | ready ev =>
      rcases turnStep_ready.1 hstep with ⟨hfresh, hok⟩
      cases ev with
      | server results =>
          cases hok
          refine feedsOn_nothing hdrained ?_
          rcases @intakeOf_accepts s fd results hfresh with hsame | hnew
          · exact Or.inl hsame
          · exact Or.inr (Or.inr hnew)
      | client client flags reads result =>
          by_cases hfd : fd = client
          · subst hfd
            simp only [Turn.bytesFrom, ReadyEvent.bytesFrom, true_and]
            rw [handleEvent_client_iff] at hok
            split at hok <;> rename_i hclosed
            · have hflag : flags.reading = false := by
                rw [EventFlags.reading, hclosed]
                rfl
              rw [hflag]
              refine feedsOn_nothing hdrained (Or.inr (Or.inl ?_))
              exact intakeOf_disconnected hs hok.1.1 hok.2
            · have hflag : flags.reading = flags.epollin := by
                rw [EventFlags.reading, Bool.eq_false_iff.2 hclosed]
                rfl
              rw [hflag]
              rcases hok with ⟨t, hread, hwrite⟩
              have hfed : FeedsOn s t fd
                    (if flags.epollin = true then reads.chunks.flatMap Chunk.bytes else []) ∧
                  ReachableState t := by
                split at hread <;> rename_i hin
                · rw [if_pos hin]
                  rcases ((handleClientRead_ensures hs hread.1.1 reads).of_ok hread.2).1 with
                    ⟨ts, hrun⟩
                  exact ⟨feedsOn_read hs hdrained hread.1.1 hread.2,
                    hs.run (hrun.mono fun _ _ _ h => h.2)⟩
                · rw [if_neg hin, hread]
                  exact ⟨feedsOn_nothing hdrained (Or.inl rfl), hs⟩
              refine hfed.1.of_eq_or_none ?_
              split at hwrite
              · exact intakeOf_write hfed.2 hwrite.1.1 hwrite.2
              · rw [hwrite]
                exact Or.inl rfl
          · have hbytes : Turn.bytesFrom fd (.ready (.client client flags reads result)) = [] :=
              if_neg fun h => hfd h.1.symm
            rcases handleEvent_run hs hfresh hok with ⟨ts, hrun⟩
            rw [hbytes]
            exact feedsOn_nothing hdrained (Or.inl (intakeOf_other hs hrun hfd))

/-- A client that was fed with the bytes received before a run has been fed with those
received up to its end, too. -/
theorem run_feeds {ts : List (Transition ChatServer Turn)} (hs : TurnState s)
    (hrun : Run TurnStep s ts s') {bytes : Str}
    (hbefore : ∀ i, s.intakeOf fd = some i → i = Intake.empty.feed bytes) :
    ∀ i, s'.intakeOf fd = some i →
      i = Intake.empty.feed (ts.foldl (Transition.received fd) bytes) := by
  induction hrun generalizing bytes with
  | nil => exact hbefore
  | @cons s s₁ s' turn ts hstep _ ih =>
      rcases drained_of_turn hs with ⟨hreachable, hdrained⟩
      refine ih (hs.step hstep) fun i hi => ?_
      have hfed := turn_feeds hreachable hdrained hstep fd i hi
      rw [Transition.received, Intake.feed_append, hfed]
      cases hc : s.clients.lookup fd with
      | none =>
          rw [if_neg (AList.lookup_eq_none.1 hc), intakeOf, hc]
          rfl
      | some c =>
          have hold := intakeOf_eq hc
          rw [if_pos (AList.mem_of_lookup hc), hold, ← hbefore _ hold]
          rfl

end Input

/-- After every run of the event loop, whatever the events of the other clients and however
its bytes were cut into reads: a client was handed the lines of the bytes received since it
connected, and what follows the last newline is buffered. -/
theorem input_integrity {ts : List (Transition ChatServer Turn)} {s : ChatServer} {fd : Fd}
    {c : Session} (hrun : Run TurnStep .started ts s) (hc : s.clients.lookup fd = some c) :
    c.handed = (frames newline (bytesReceived ts fd)).flatMap lineOf ∧
      c.inBuffer = rest newline (bytesReceived ts fd) := by
  have hnobody : ∀ i, ChatServer.started.intakeOf fd = some i → i = Intake.empty.feed [] := by
    intro i hi
    cases hi
  have hfed : c.intake = Intake.empty.feed (bytesReceived ts fd) :=
    run_feeds (.refl _) hrun hnobody _ (intakeOf_eq hc)
  exact ⟨congrArg Intake.lines hfed, congrArg Intake.waiting hfed⟩

/-- Two clients whose lines arrive in pieces, and one of whom is written to in between. -/
def dialogue : List Turn :=
  [.ready (.server [.connection 5 true true, .connection 6 true true, .wouldBlock]),
    .ready (.sends 5 (str "ann\r\nhel")), .ready (.sends 6 (str "bob\n")),
    .ready (.client 6 ⟨false, true, false, false⟩ ⟨[], .wouldBlock⟩ (.accepted 30)),
    .ready (.sends 5 (str "lo\n/jo"))]

/-- The host has sent two lines and the beginning of a third. -/
theorem dialogue_input : ∃ c, (ChatServer.afterTurns dialogue).clients.lookup 5 = some c ∧
    c.handed = [str "ann", str "hello"] ∧ c.inBuffer = str "/jo" := by
  have hsome : ((ChatServer.afterTurns dialogue).clients.lookup 5).isSome = true := by
    decide +kernel
  have hlines : (frames newline (bytesReceived (ChatServer.turnTrace dialogue) 5)).flatMap lineOf =
      [str "ann", str "hello"] := by decide +kernel
  have hrest : rest newline (bytesReceived (ChatServer.turnTrace dialogue) 5) = str "/jo" := by
    decide +kernel
  rcases Option.isSome_iff_exists.1 hsome with ⟨c, hc⟩
  have hinput := input_integrity (run_turnTrace dialogue) hc
  exact ⟨c, hc, hinput.1.trans hlines, hinput.2.trans hrest⟩

/-! ## What a turn asks the service for -/

/-- The connections of a round of accepts that are kept. -/
def connections : List AcceptResult → List Action
  | [] => []
  | .wouldBlock :: _ => []
  | .failed :: _ => []
  | .connection fd nonblocking added :: results =>
      (if nonblocking && added then [.connect fd] else []) ++ connections results

/-- The departure of a client, if it is in one state and not in a later one. -/
def departure (client : Fd) (s s' : ChatServer) : List Action :=
  if client ∈ s.clients ∧ client ∉ s'.clients then [.leave client] else []

/-- The actions of a turn: the connections, the lines of the frames that a read completes,
and the departure of a client that is gone afterwards. -/
def Transition.requests (t : Transition ChatServer Turn) : List Action :=
  match t.event with
  | .ready (.server results) => connections results
  | .ready (.client fd flags reads result) =>
      let frames := ReadyEvent.frames t.pre (.client fd flags reads result)
      (frames.flatMap lineOf).map (Action.line fd) ++ departure fd t.pre t.post
  | .rehash clients rooms =>
      [.reorder (clients.mapVal fun _ c => c.user) (rooms.mapVal fun _ room => room.password)]

/-- A stretch of a run of the server that does what the service does with some actions. -/
structure Performs (s : ChatServer) (as : List Action) (s' : ChatServer) : Prop where
  reachable : ReachableState s'
  recorded : s'.recorded = serviceMachine.recorded s.recorded as

section Requests

variable {s s' t : ChatServer} {client fd : Fd} {c : Session} {e : Event} {as bs : List Action}

theorem departure_kept (h : client ∈ s'.clients) : departure client s s' = [] :=
  if_neg fun hgone => hgone.2 h

theorem departure_gone (hmem : client ∈ s.clients) (hgone : client ∉ s'.clients) :
    departure client s s' = [.leave client] :=
  if_pos ⟨hmem, hgone⟩

theorem departure_self (s : ChatServer) (client : Fd) : departure client s s = [] :=
  if_neg fun hgone => hgone.2 hgone.1

/-- What happens before the departure does not matter to it. -/
theorem departure_trans (hmem : client ∈ s.clients) (ht : client ∈ t.clients) :
    departure client t s' = departure client s s' := by
  simp only [departure, hmem, ht, true_and]

/-- Nothing done is no action. -/
theorem Performs.refl (hs : ReachableState s) : Performs s [] s :=
  ⟨hs, rfl⟩

/-- Actions after actions. -/
theorem Performs.trans (h : Performs s as t) (h' : Performs t bs s') :
    Performs s (as ++ bs) s' where
  reachable := h'.reachable
  recorded := by rw [Machine.recorded_append, ← h.recorded, h'.recorded]

/-- A step performs its actions. -/
theorem performs_of_step (hs : ReachableState s) (hstep : Step s e s') :
    Performs s (Transition.actions ⟨s, e, s'⟩) s' :=
  ⟨hs.step hstep, (step_effect (keyed_of_reachable hs) hstep).recorded hs⟩

/-- Accepting performs one action for each connection it keeps. -/
theorem acceptNewClient_performs (hs : ReachableState s) {results : List AcceptResult}
    (hfresh : FreshResults results s) :
    Performs s (connections results) (acceptNewClient results s).1 := by
  induction results generalizing s with
  | nil => exact .refl hs
  | cons result results ih =>
      cases result with
      | wouldBlock => exact .refl hs
      | failed => exact .refl hs
      | connection client nonblocking added =>
          have hstep : Step s (.accept client nonblocking added)
              (s.acceptConnection client nonblocking added) := step_iff.2 ⟨hfresh.1, rfl⟩
          exact (performs_of_step hs hstep).trans (ih (hs.step hstep) hfresh.2)

/-- A frame is handled like its line, if it has one. -/
theorem handleLine_performs (hs : ReachableState s) (hmem : client ∈ s.clients) {frame : Str}
    (hok : s.handleLine client frame = .ok s') :
    Performs s ((lineOf frame).map (.line client)) s' := by
  rw [handleLine_eq] at hok
  split at hok <;> rename_i hempty
  · cases hok
    rw [lineOf, if_pos hempty]
    exact .refl hs
  · rcases exists_of_bind_ok hok with ⟨line, htrim, hprocessed⟩
    have hline : lineOf frame = [line] := by rw [lineOf, if_neg hempty, htrim]
    have hstep : Step s (.line client line) s' := step_iff.2 ⟨hmem, hprocessed⟩
    rw [hline]
    exact performs_of_step hs hstep

theorem foldlM_handleLine_performs (hs : ReachableState s) (hc : s.clients.lookup client = some c)
    {lines : List Str}
    (hok : lines.foldlM (fun s frame => handleLine s client frame) s = .ok s') :
    Performs s ((lines.flatMap lineOf).map (.line client)) s' := by
  induction lines generalizing s c with
  | nil =>
      cases hok
      exact .refl hs
  | cons frame lines ih =>
      rw [List.foldlM_cons] at hok
      rcases exists_of_bind_ok hok with ⟨t, hfirst, hrest⟩
      have hperforms := handleLine_performs hs (AList.mem_of_lookup hc) hfirst
      rcases (handleLine_lineRun (L := fun _ => True) hc (fun _ _ => trivial) hfirst).2 with
        ⟨c₁, hc₁, _⟩
      rw [List.flatMap_cons, List.map_append]
      exact hperforms.trans (ih hperforms.reachable hc₁ hrest)

/-- Received bytes are handled like the lines of the frames they complete. -/
theorem received_performs (hs : ReachableState s) (hc : s.clients.lookup client = some c)
    {buffer bytes : Str} (hok : s.received client buffer bytes = .ok s') :
    Performs s (((frames newline (buffer ++ bytes)).flatMap lineOf).map (.line client)) s' := by
  rcases exists_of_map_ok hok with ⟨t, hfeed, rfl⟩
  have hperforms := foldlM_handleLine_performs hs hc hfeed
  rcases (foldlM_handleLine_lineRun (L := fun _ => True) hc (fun _ _ _ _ => trivial) hfeed).2 with
    ⟨c', hc', _⟩
  have hstep : Step t (.buffer client (rest newline (buffer ++ bytes)))
      (t.setBuffer client (rest newline (buffer ++ bytes))) :=
    step_iff.2 ⟨AList.mem_of_lookup hc', rfl⟩
  have hbuffered := performs_of_step hperforms.reachable hstep
  rw [← List.append_nil (List.map _ _)]
  exact hperforms.trans hbuffered

/-- A disconnect is a departure. -/
theorem disconnectClient_performs (hs : ReachableState s) (hmem : client ∈ s.clients)
    (hok : s.disconnectClient client = .ok s') :
    Performs s [.leave client] s' ∧ client ∉ s'.clients := by
  rcases disconnect_step hs hmem with ⟨t, ht, hstep, hgone⟩
  rw [hok] at ht
  cases ht
  exact ⟨performs_of_step hs hstep.2, hgone⟩

/-- A read event performs the lines it completes, and the departure at its end. -/
theorem handleClientRead_performs (hs : ReachableState s) (hdrained : s.Drained)
    (hc : s.clients.lookup client = some c) {reads : ReadResults}
    (hok : s.handleClientRead client reads = .ok s') :
    Performs s (((frames newline (c.inBuffer ++ reads.chunks.flatMap Chunk.bytes)).flatMap
      lineOf).map (.line client) ++ departure client s s') s' := by
  rcases handleClientRead_received hc (hdrained client c hc) hok with ⟨t, _, hreceived, hlast⟩
  have hperforms := received_performs hs hc hreceived
  rcases (received_bind hc hreceived []).2 with ⟨c', hc', _⟩
  have hmem := AList.mem_of_lookup hc'
  rcases hlast with ⟨_, rfl⟩ | hclosed
  · rw [departure_kept hmem, List.append_nil]
    exact hperforms
  · rcases disconnectClient_performs hperforms.reachable hmem hclosed with ⟨hleave, hgone⟩
    rw [departure_gone (AList.mem_of_lookup hc) hgone]
    exact hperforms.trans hleave

/-- A write is at most the departure of its client. -/
theorem handleClientWrite_performs (hs : ReachableState s) (hmem : client ∈ s.clients)
    {result : WriteResult} (hok : s.handleClientWrite client result = .ok s') :
    Performs s (departure client s s') s' := by
  rcases AList.mem_iff_lookup.1 hmem with ⟨c, hc⟩
  have hstep : Step s (.write client result) s' := step_iff.2 ⟨hmem, hok⟩
  have hperforms := performs_of_step hs hstep
  have hactions : Transition.actions ⟨s, .write client result, s'⟩ = departure client s s' := by
    rw [handleClientWrite_eq hc (keyed_of_reachable hs client c hc)] at hok
    cases hok
    simp only [Transition.actions, hc, Option.any_some]
    cases (c.handleWrite result).1 with
    | true => exact (departure_kept (AList.mem_of_lookup (wrote_lookup_self hc result))).symm
    | false =>
        have hgone : client ∉ ((s.wrote client c result).disconnected client
            (c.handleWrite result).2).clients := by
          rw [← AList.lookup_eq_none, disconnected_lookup, if_pos rfl]
        exact (departure_gone hmem hgone).symm
  rwa [hactions] at hperforms

theorem inBufferOf_eq (hc : s.clients.lookup fd = some c) : s.inBufferOf fd = c.inBuffer := by
  rw [inBufferOf, hc]
  rfl

/-- A turn does what the service does with the actions the turn stands for. -/
theorem turn_performs (hs : ReachableState s) (hdrained : s.Drained) {turn : Turn}
    (hstep : TurnStep s turn s') : Performs s (Transition.requests ⟨s, turn, s'⟩) s' := by
  cases turn with
  | rehash clients rooms => exact performs_of_step hs (turnStep_rehash.1 hstep)
  | ready ev =>
      rcases turnStep_ready.1 hstep with ⟨hfresh, hok⟩
      cases ev with
      | server results =>
          cases hok
          exact acceptNewClient_performs hs hfresh
      | client client flags reads result =>
          rw [handleEvent_client_iff] at hok
          split at hok <;> rename_i hclosed
          · have hflag : flags.reading = false := by
              rw [EventFlags.reading, hclosed]
              rfl
            rcases disconnectClient_performs hs hok.1.1 hok.2 with ⟨hleave, hgone⟩
            simp only [Transition.requests, ReadyEvent.frames, hflag, departure_gone hok.1.1 hgone]
            exact hleave
          · have hflag : flags.reading = flags.epollin := by
              rw [EventFlags.reading, Bool.eq_false_iff.2 hclosed]
              rfl
            rcases hok with ⟨t, hread, hwrite⟩
            simp only [Transition.requests, ReadyEvent.frames, hflag]
            have hlines : Performs s (((if flags.epollin = true then
                frames newline (s.inBufferOf client ++ reads.chunks.flatMap Chunk.bytes)
                else []).flatMap lineOf).map (.line client) ++ departure client s t) t := by
              split at hread <;> rename_i hin
              · rcases AList.mem_iff_lookup.1 hread.1.1 with ⟨c, hc⟩
                rw [if_pos hin, inBufferOf_eq hc]
                exact handleClientRead_performs hs hdrained hc hread.2
              · rw [if_neg hin, hread, departure_self]
                exact .refl hs
            split at hwrite
            · rw [departure_kept hwrite.1.1, List.append_nil] at hlines
              have hmem : client ∈ s.clients := by
                split at hread
                · exact hread.1.1
                · exact hread ▸ hwrite.1.1
              rw [← departure_trans hmem hwrite.1.1]
              exact hlines.trans (handleClientWrite_performs hlines.reachable hwrite.1.1 hwrite.2)
            · rw [hwrite]
              exact hlines

/-- What some turns do to the service, and what they tell its users. -/
theorem turns_recorded_from {ts : List (Transition ChatServer Turn)}
    (hs : Reachable TurnStep .started s) (hrun : Run TurnStep s ts s') :
    s'.recorded = serviceMachine.recorded s.recorded (ts.flatMap Transition.requests) := by
  refine hrun.recorded_eq recorded Transition.requests fun t ht => ?_
  rcases drained_of_turn (hrun.reachable_of_mem hs ht).1 with ⟨hreachable, hdrained⟩
  exact (turn_performs hreachable hdrained (hrun.step_of_mem ht)).recorded

/-- What the service is and has told its users after the turns of a run. -/
theorem turns_recorded {ts : List (Transition ChatServer Turn)}
    (hrun : Run TurnStep .started ts s) :
    s.recorded =
      serviceMachine.recorded (.started, fun _ => []) (ts.flatMap Transition.requests) :=
  turns_recorded_from (.refl _) hrun

end Requests

/-- After every run of the event loop, however the bytes of the clients were cut into reads,
whatever {lit}`write` accepted and in whatever order the tables were: the users and the rooms
are those of the chat service after the lines of the run, and what was written to a client,
followed by what is buffered for it, is what the service has told it. -/
theorem conversation {ts : List (Transition ChatServer Turn)} {s : ChatServer}
    (hrun : Run TurnStep .started ts s) :
    s.service = Service.after (ts.flatMap Transition.requests) ∧
      ∀ fd c, s.clients.lookup fd = some c →
        c.written ++ c.outBuffer =
          (Service.transcript (ts.flatMap Transition.requests) fd).flatten := by
  rcases service_of_recorded (turns_recorded hrun) with ⟨hstate, htexts⟩
  refine ⟨hstate, fun fd c hc => ?_⟩
  rw [stream_eq_textsTo (drained_of_turn ⟨ts, hrun⟩).1 hc, htexts]

/-- The guest, who has been written 30 bytes, is sent what the service tells it. -/
theorem dialogue_conversation : ∃ c, (ChatServer.afterTurns dialogue).clients.lookup 6 = some c ∧
    c.written.length = 30 ∧
    c.written ++ c.outBuffer = (Service.transcript
      ((ChatServer.turnTrace dialogue).flatMap Transition.requests) 6).flatten := by
  have hlength : ((ChatServer.afterTurns dialogue).clients.lookup 6).map
      (fun c => c.written.length) = some 30 := by decide +kernel
  rcases Option.map_eq_some_iff.1 hlength with ⟨c, hc, hlen⟩
  exact ⟨c, hc, hlen, (conversation (run_turnTrace dialogue)).2 6 c hc⟩

end EpollChat
