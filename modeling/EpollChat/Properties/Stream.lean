import EpollChat.Properties.Frame
import EpollChat.Server.Loop

/-!
# Lines do not depend on how a stream is cut

The lines a client sends are the frames of its byte stream, however the stream is
cut into reads and calls of {lit}`handle_client_read`.

Main results:

- Theorem {lit}`drained_of_turn`: whenever the event loop looks at an event, no
  input buffer holds a complete line.
- Theorem {lit}`readCalls_eq`: any calls that deliver a stream do what receiving the
  stream at once does.
- Theorem {lit}`stream_framing`: the state after a stream is independent of its
  cutting; the lines that were handed on, and what is left in the buffer.
-/

namespace EpollChat

open ChatServer

/-! ## Drained buffers -/

/-- No input buffer holds a complete line. -/
def ChatServer.Drained (s : ChatServer) : Prop :=
  ∀ fd c, s.clients.lookup fd = some c → newline ∉ c.inBuffer

section Drained

variable {s s' : ChatServer} {client : Fd} {c : Session} {line : Str} {e : Event}

/-- A step about one client keeps the buffers drained if it leaves that one drained. -/
theorem drained_of_step (hs : ReachableState s) (h : s.Drained) (hstep : Step s e s')
    (hsubject : e.subject = some client)
    (hself : ∀ c', s'.clients.lookup client = some c' → newline ∉ c'.inBuffer) : s'.Drained := by
  intro fd c' hc'
  by_cases hfd : fd = client
  · subst hfd
    exact hself c' hc'
  · have hhears := (step_effect (keyed_of_reachable hs) hstep).others hsubject hfd
    cases hc : s.clients.lookup fd with
    | none =>
        unfold Hears at hhears
        rw [hc, hc'] at hhears
        cases hhears
    | some cl =>
        rcases hhears.lookup hc with ⟨ds, hds⟩
        rw [hc'] at hds
        cases hds
        rw [(cl.queueAll_frame ds).2.2.2.1]
        exact h fd cl hc

/-- A new connection has nothing in its buffer. -/
theorem acceptConnection_drained (hs : ReachableState s) (h : s.Drained)
    (hfresh : client ∉ s.clients) (nonblocking added : Bool) :
    (s.acceptConnection client nonblocking added).Drained := by
  have hstep : Step s (.accept client nonblocking added)
      (s.acceptConnection client nonblocking added) := step_iff.2 ⟨hfresh, rfl⟩
  apply drained_of_step hs h hstep rfl
  intro c' hc'
  unfold acceptConnection at hc'
  split at hc'
  · exact absurd (AList.mem_of_lookup hc') hfresh
  · split at hc'
    · simp at hc'
    · simp only [queueMessage_lookup, if_true, AList.lookup_insert, Option.map_some,
        Option.some.injEq] at hc'
      rw [← hc', Session.queueMessage_inBuffer]
      simp [Session.accepted, Client.new]

/-- A disconnect leaves no complete line in a buffer. -/
theorem disconnectClient_drained (hs : ReachableState s) (h : s.Drained)
    (hmem : client ∈ s.clients) (hok : s.disconnectClient client = .ok s') : s'.Drained := by
  rcases disconnect_step hs hmem with ⟨t, ht, hstep, hgone⟩
  rw [hok] at ht
  cases ht
  exact drained_of_step hs h hstep.2 rfl fun c' hc' => absurd (AList.mem_of_lookup hc') hgone

/-- A write event leaves no complete line in a buffer. -/
theorem handleClientWrite_drained (hs : ReachableState s) (h : s.Drained)
    (hmem : client ∈ s.clients) {result : WriteResult}
    (hok : s.handleClientWrite client result = .ok s') : s'.Drained := by
  rcases handleClientWrite_step hs hmem result with ⟨t, ht, hsubject, hstep⟩
  rw [hok] at ht
  cases ht
  apply drained_of_step hs h hstep hsubject
  intro c' hc'
  rcases AList.mem_iff_lookup.1 hmem with ⟨c, hc⟩
  rw [handleClientWrite_eq hc (keyed_of_reachable hs client c hc)] at hok
  cases hok
  split at hc'
  · rw [wrote_lookup_self hc] at hc'
    cases hc'
    rw [Session.handleWrite_eq]
    exact h client c hc
  · rw [disconnected_lookup, if_pos rfl] at hc'
    cases hc'

/-- Handling a line leaves no complete line in a buffer. -/
theorem handleLine_drained (hs : ReachableState s) (h : s.Drained) (hmem : client ∈ s.clients)
    (line : Str) :
    Ensures (fun t => ReachableState t ∧ t.Drained ∧ client ∈ t.clients) (fun _ => True)
      (s.handleLine client line) := by
  rw [handleLine_eq]
  split
  · exact ⟨hs, h, hmem⟩
  · cases htrim : trimString (withoutCarriageReturn line) with
    | error e => trivial
    | ok trimmedLine =>
        rcases AList.mem_iff_lookup.1 hmem with ⟨c, hc⟩
        rcases processMessage_effect hc trimmedLine with ⟨t, ht, _⟩
        have hstep : Step s (.line client trimmedLine) t := step_iff.2 ⟨hmem, ht⟩
        rcases processMessage_holds hc ht with ⟨_, c', hc', hbuffer, _⟩
        simp only [Except.bind, ht]
        refine ⟨hs.step hstep, ?_, AList.mem_of_lookup hc'⟩
        refine drained_of_step hs h hstep rfl (AList.forall_lookup hc' ?_)
        rw [hbuffer]
        exact h client c hc

/-- Received bytes leave no complete line in a buffer. -/
theorem received_drained (hs : ReachableState s) (h : s.Drained) (hmem : client ∈ s.clients)
    (buffer bytes : Str) :
    Ensures (fun t => ReachableState t ∧ t.Drained ∧ client ∈ t.clients) (fun _ => True)
      (s.received client buffer bytes) := by
  have hlines : Ensures (fun t => ReachableState t ∧ t.Drained ∧ client ∈ t.clients)
      (fun _ => True) (feed newline (fun s line => handleLine s client line) buffer bytes s) :=
    Ensures.foldlM (fun t line _ ht => handleLine_drained ht.1 ht.2.1 ht.2.2 line) ⟨hs, h, hmem⟩
  apply hlines.map
  intro t ht
  rcases AList.mem_iff_lookup.1 ht.2.2 with ⟨c, hc⟩
  have hset := setBuffer_lookup hc (rest newline (buffer ++ bytes))
  have hstep : Step t (.buffer client (rest newline (buffer ++ bytes)))
      (t.setBuffer client (rest newline (buffer ++ bytes))) := step_iff.2 ⟨ht.2.2, rfl⟩
  refine ⟨ht.1.step hstep, ?_, AList.mem_of_lookup hset⟩
  exact drained_of_step ht.1 ht.2.1 hstep rfl (AList.forall_lookup hset (notMem_rest _))

/-- A read event leaves no complete line in a buffer. -/
theorem handleClientRead_drained (hs : ReachableState s) (h : s.Drained)
    (hmem : client ∈ s.clients) {reads : ReadResults}
    (hok : s.handleClientRead client reads = .ok s') : s'.Drained := by
  rcases AList.mem_iff_lookup.1 hmem with ⟨c, hc⟩
  unfold handleClientRead at hok
  simp only [deref_eq hc, bind, Except.bind, handleChunks_eq hc (h client c hc)] at hok
  have hreceived := received_drained hs h hmem c.inBuffer (reads.chunks.flatMap Chunk.bytes)
  rcases exists_of_bind_ok hok with ⟨t, hchunks, hlast⟩
  rcases hreceived.of_ok hchunks with ⟨ht, hdrained, hmem'⟩
  cases hend : reads.last with
  | wouldBlock =>
      rw [hend] at hlast
      cases hlast
      exact hdrained
  | endOfStream =>
      rw [hend] at hlast
      exact disconnectClient_drained ht hdrained hmem' hlast
  | failed =>
      rw [hend] at hlast
      exact disconnectClient_drained ht hdrained hmem' hlast

/-- An event of the loop leaves the buffers drained. -/
theorem drained_of_loopStep (hs : ReachableState s) (h : s.Drained) {ev : ReadyEvent}
    (hstep : LoopStep s ev s') : ReachableState s' ∧ s'.Drained := by
  refine handleEvent_invariant (I := fun s => ReachableState s ∧ s.Drained) ?_ ?_ ?_ ?_
    hstep.1 hstep.2 ⟨hs, h⟩
  · intro t fd nonblocking added ht hfresh
    have hstep : Step t (.accept fd nonblocking added) (t.acceptConnection fd nonblocking added) :=
      step_iff.2 ⟨hfresh, rfl⟩
    exact ⟨ht.1.step hstep, acceptConnection_drained ht.1 ht.2 hfresh nonblocking added⟩
  · intro t fd reads t' ht hmem hok
    rcases ((handleClientRead_ensures ht.1 hmem reads).of_ok hok).1 with ⟨ts, hrun⟩
    exact ⟨ht.1.run (hrun.mono fun _ _ _ h => h.2), handleClientRead_drained ht.1 ht.2 hmem hok⟩
  · intro t fd result t' ht hmem hok
    exact ⟨ht.1.step (step_iff.2 ⟨hmem, hok⟩ : Step t (.write fd result) t'),
      handleClientWrite_drained ht.1 ht.2 hmem hok⟩
  · intro t fd t' ht hmem hok
    exact ⟨ht.1.step (step_iff.2 ⟨hmem, hok⟩ : Step t (.disconnect fd) t'),
      disconnectClient_drained ht.1 ht.2 hmem hok⟩

/-- At start-up there are no buffers. -/
theorem started_drained : ChatServer.started.Drained := by
  intro fd c hc
  have hnone : ChatServer.started.clients.lookup fd = none := rfl
  rw [hnone] at hc
  cases hc

/-- In every turn the loop is in a state of the transition system with drained buffers. -/
theorem drained_of_turn (hs : TurnState s) : ReachableState s ∧ s.Drained := by
  refine hs.invariant (I := fun s => ReachableState s ∧ s.Drained) ⟨.refl _, started_drained⟩ ?_
  rintro s turn s' ⟨hs, hdrained⟩ hstep
  cases turn with
  | ready ev => exact drained_of_loopStep hs hdrained (turnStep_ready.1 hstep)
  | rehash clients rooms =>
      refine ⟨hs.step hstep, ?_⟩
      rcases step_iff.1 hstep with ⟨henabled, happly⟩
      cases happly
      intro fd c hc
      rw [AList.perm_lookup henabled.1] at hc
      exact hdrained fd c hc

end Drained

/-! ## Cuttings of a stream -/

/-- Several calls of {lit}`handle_client_read`, each with the chunks it reads before
{lit}`read` would block. -/
def readCalls (s : ChatServer) (client : Fd) (calls : List (List Chunk)) :
    Except Fault ChatServer :=
  calls.foldlM (fun s chunks => s.handleClientRead client ⟨chunks, .wouldBlock⟩) s

/-- The line that the end of a frame hands to {lit}`process_message`, if any. -/
def handedBy (frame : Str) : List Str :=
  if withoutCarriageReturn frame = [] then [] else [trimmed (withoutCarriageReturn frame)]

/-- The lines of a stream: its frames without one trailing carriage return each, the
empty ones dropped, and without outer spaces. -/
def linesOf (stream : Str) : List Str :=
  (((frames newline stream).map withoutCarriageReturn).filter fun line => line ≠ []).map trimmed

theorem flatMap_handedBy (stream : Str) :
    (frames newline stream).flatMap handedBy = linesOf stream := by
  unfold linesOf
  induction frames newline stream with
  | nil => rfl
  | cons frame lines ih =>
      by_cases hempty : withoutCarriageReturn frame = []
      · simp [handedBy, hempty, ih]
      · simp [handedBy, hempty, ih]

section Cuttings

variable {s s' : ChatServer} {client : Fd} {c : Session} {line : Str}

theorem handleClientRead_eq (hc : s.clients.lookup client = some c)
    (hbuffer : newline ∉ c.inBuffer) (chunks : List Chunk) :
    s.handleClientRead client ⟨chunks, .wouldBlock⟩ =
      s.received client c.inBuffer (chunks.flatMap Chunk.bytes) := by
  unfold handleClientRead
  simp only [deref_eq hc, bind, Except.bind, handleChunks_eq hc hbuffer]
  cases s.received client c.inBuffer (chunks.flatMap Chunk.bytes) <;> rfl

/-- Any calls that deliver a stream do what receiving the stream at once does. -/
theorem readCalls_eq (hc : s.clients.lookup client = some c) (hbuffer : newline ∉ c.inBuffer)
    (calls : List (List Chunk)) :
    readCalls s client calls =
      s.received client c.inBuffer (calls.flatten.flatMap Chunk.bytes) := by
  induction calls generalizing s c with
  | nil => exact (received_nil hc hbuffer).symm
  | cons chunks calls ih =>
      unfold readCalls
      rw [List.foldlM_cons, handleClientRead_eq hc hbuffer, List.flatten_cons, List.flatMap_append]
      cases hfirst : s.received client c.inBuffer (chunks.flatMap Chunk.bytes) with
      | error e => exact (received_append_error hfirst _).symm
      | ok s₁ =>
          rcases received_bind hc hfirst (calls.flatten.flatMap Chunk.bytes) with
            ⟨hrest, c₁, hc₁, hbuffer₁⟩
          have hmem : newline ∉ c₁.inBuffer := by
            rw [hbuffer₁]
            exact notMem_rest _
          rw [← hrest, ← hbuffer₁]
          exact ih hc₁ hmem

/-- A carriage return is removed, nothing is added. -/
theorem length_withoutCarriageReturn_le (line : Str) :
    (withoutCarriageReturn line).length ≤ line.length := by
  unfold withoutCarriageReturn
  split
  · rw [List.length_dropLast]
    omega
  · exact le_rfl

/-- A frame whose line is counted exactly is handled without a fault. -/
theorem handleLine_total (hc : s.clients.lookup client = some c)
    (hexact : ExactTrim (withoutCarriageReturn line)) :
    ∃ s' c', s.handleLine client line = .ok s' ∧ s'.clients.lookup client = some c' ∧
      c'.handed = c.handed ++ handedBy line := by
  rw [handleLine_eq, handedBy]
  split
  · exact ⟨s, c, rfl, hc, (List.append_nil _).symm⟩
  · rw [hexact.trimString_eq]
    rcases processMessage_effect hc (trimmed (withoutCarriageReturn line)) with ⟨s', hs', _⟩
    rcases processMessage_holds hc hs' with ⟨_, c', hc', _, hhanded⟩
    exact ⟨s', c', hs', hc', hhanded⟩

theorem foldlM_handleLine_total {lines : List Str} (hc : s.clients.lookup client = some c)
    (hexact : ∀ line ∈ lines, ExactTrim (withoutCarriageReturn line)) :
    ∃ s' c', lines.foldlM (fun s line => handleLine s client line) s = .ok s' ∧
      s'.clients.lookup client = some c' ∧ c'.handed = c.handed ++ lines.flatMap handedBy := by
  induction lines generalizing s c with
  | nil => exact ⟨s, c, rfl, hc, (List.append_nil _).symm⟩
  | cons line lines ih =>
      rcases handleLine_total hc (hexact line List.mem_cons_self) with ⟨s₁, c₁, hs₁, hc₁, hhanded₁⟩
      rcases ih hc₁ fun line hline => hexact line (List.mem_cons_of_mem _ hline) with
        ⟨s', c', hs', hc', hhanded⟩
      refine ⟨s', c', ?_, hc', ?_⟩
      · rw [List.foldlM_cons, hs₁]
        exact hs'
      · rw [hhanded, hhanded₁, List.flatMap_cons, List.append_assoc]

end Cuttings

/-- Whenever the event loop looks at an event, for every client and every stream
that together with the buffered bytes is shorter than {lit}`2 ^ 31`: the buffer
holds no newline, all cuttings of the stream into chunks and calls end in one and
the same state, the client is handed the lines of the buffered bytes and the
stream, and its buffer then holds what follows the last newline. -/
theorem stream_framing {s : ChatServer} (hs : TurnState s) {client : Fd} {c : Session}
    (hc : s.clients.lookup client = some c) (stream : Str)
    (hlen : c.inBuffer.length + stream.length < 2 ^ 31) :
    newline ∉ c.inBuffer ∧
    ∃ s' c',
      (∀ calls : List (List Chunk), calls.flatten.flatMap Chunk.bytes = stream →
        readCalls s client calls = .ok s') ∧
      s'.clients.lookup client = some c' ∧
      c'.handed = c.handed ++ linesOf (c.inBuffer ++ stream) ∧
      c'.inBuffer = rest newline (c.inBuffer ++ stream) := by
  have hbuffer := (drained_of_turn hs).2 client c hc
  have hexact : ∀ line ∈ frames newline (c.inBuffer ++ stream),
      ExactTrim (withoutCarriageReturn line) := by
    intro line hline
    have hframe := length_le_of_mem_frames hline
    have hle := length_withoutCarriageReturn_le line
    rw [List.length_append] at hframe
    exact exactTrim_of_short (by omega)
  rcases foldlM_handleLine_total hc hexact with ⟨t, c', ht, hc', hhanded⟩
  refine ⟨hbuffer, t.setBuffer client (rest newline (c.inBuffer ++ stream)), _,
    fun calls hcalls => ?_, setBuffer_lookup hc' _, ?_, rfl⟩
  · rw [readCalls_eq hc hbuffer, hcalls, received, feed, ht]
    rfl
  · rw [← flatMap_handedBy]
    exact hhanded

/-- A line that arrives in three chunks is one line. -/
theorem cut_line_framing : ∃ s' c',
    readCalls (acceptConnection .started 5 true true) 5
      [[⟨str "an", by decide, by decide⟩, ⟨str "n\r", by decide, by decide⟩],
        [⟨str "\nhi", by decide, by decide⟩]] = .ok s' ∧
      s'.clients.lookup 5 = some c' ∧ c'.handed = [str "ann"] ∧ c'.inBuffer = str "hi" := by
  have hstep : LoopStep .started (.server [.connection 5 true true])
      (acceptConnection .started 5 true true) := ⟨⟨by decide, trivial⟩, rfl⟩
  have hs : TurnState (acceptConnection .started 5 true true) :=
    turnState_of_loop (Reachable.step (.refl ChatServer.started) hstep)
  have hc : (acceptConnection .started 5 true true).clients.lookup 5 = some _ := rfl
  rcases (stream_framing hs hc (str "ann\r\nhi") (by decide)).2 with
    ⟨s', c', hcalls, hc', hhanded, hrest⟩
  refine ⟨s', c', hcalls _ (by decide), hc', ?_, ?_⟩
  · rw [hhanded]
    decide +kernel
  · rw [hrest]
    decide +kernel

end EpollChat
