import EpollChat.Properties.Stream
import EpollChat.Server.Profile

/-!
# The lines of an event

The transition system lets a client process any line.  The event loop hands on what
is left of the frames of a stream after the removal of a carriage return, the check
for an empty line and {lit}`trim_string`, in this order.  What these three steps
guarantee about lines is therefore known of every line of a run of the event loop.

Main results:

- Theorem {lit}`Turn.handed_eq`: the lines a turn hands on are those of the frames it
  completes.
- Theorem {lit}`turnStep_lineRun`: a turn is a run of steps whose lines are among them.
- Theorem {lit}`turn_profiles`: what the lines keep that the loop hands on holds of
  every client.
- Theorem {lit}`readCalls_line`: a line that arrives alone is handled alone.
- Theorem {lit}`readCalls_long_line`: a line that is too long for the counters of
  {lit}`trim_string` ends in an exception.
-/

namespace EpollChat

open ChatServer

/-! ## From a frame to a line -/

/-- The line that a frame hands to {lit}`process_message`, if it hands one. -/
def lineOf (frame : Str) : List Str :=
  if withoutCarriageReturn frame = [] then []
  else
    match trimString (withoutCarriageReturn frame) with
    | .ok line => [line]
    | .error _ => []

theorem mem_lineOf {frame line : Str} :
    line ∈ lineOf frame ↔
      withoutCarriageReturn frame ≠ [] ∧ trimString (withoutCarriageReturn frame) = .ok line := by
  unfold lineOf
  split <;> rename_i hempty
  · simp [hempty]
  · cases htrim : trimString (withoutCarriageReturn frame) with
    | ok trimmedLine => simp [hempty, eq_comm]
    | error e => simp

/-- {lit}`trim_string` neither overflows a counter nor throws on the line of a frame. -/
def Trims (frame : Str) : Prop :=
  ∃ line, trimString (withoutCarriageReturn frame) = .ok line

theorem withoutCarriageReturn_eq_self {line : Str} (h : line.getLast? ≠ some carriageReturn) :
    withoutCarriageReturn line = line :=
  if_neg h

theorem mem_of_withoutCarriageReturn {frame : Str} {b : UInt8}
    (hb : b ∈ withoutCarriageReturn frame) : b ∈ frame := by
  unfold withoutCarriageReturn at hb
  split at hb
  · exact (List.dropLast_sublist frame).subset hb
  · exact hb

/-- A line holds no byte that its frame does not hold. -/
theorem mem_of_lineOf {frame line : Str} (hline : line ∈ lineOf frame) {b : UInt8}
    (hb : b ∈ line) : b ∈ frame :=
  mem_of_withoutCarriageReturn (mem_of_trimString (mem_lineOf.1 hline).2 hb)

/-! ## Handling frames -/

section Frames

variable {s s' : ChatServer} {client : Fd} {c : Session} {L : Str → Prop} {lines : List Str}

/-- A frame that hands on a line does what the line does. -/
theorem handleLine_eq_processMessage {frame line : Str} (hline : line ∈ lineOf frame) :
    s.handleLine client frame = s.processMessage client line := by
  rcases mem_lineOf.1 hline with ⟨hne, htrim⟩
  rw [handleLine_eq, if_neg hne, htrim]
  rfl

/-- A handled frame records its line, and is at most the step that processes it. -/
theorem handleLine_lineRun {frame : Str} (hc : s.clients.lookup client = some c)
    (hlines : ∀ line ∈ lineOf frame, L line) (hok : s.handleLine client frame = .ok s') :
    (∃ ts, Run (LineStep L) s ts s') ∧
      ∃ c', s'.clients.lookup client = some c' ∧ c'.handed = c.handed ++ lineOf frame := by
  rw [handleLine_eq] at hok
  split at hok <;> rename_i hempty
  · cases hok
    refine ⟨⟨[], .nil s⟩, c, hc, ?_⟩
    rw [lineOf, if_pos hempty, List.append_nil]
  · rcases exists_of_bind_ok hok with ⟨line, htrim, hprocessed⟩
    have hline : lineOf frame = [line] := by rw [lineOf, if_neg hempty, htrim]
    rcases processMessage_holds hc hprocessed with ⟨_, c', hc', _, hhanded⟩
    have hstep : Step s (.line client line) s' :=
      step_iff.2 ⟨AList.mem_of_lookup hc, hprocessed⟩
    rw [hline] at hlines ⊢
    refine ⟨⟨_, .single ⟨?_, hstep⟩⟩, c', hc', hhanded⟩
    intro client' line' he
    cases he
    exact hlines line List.mem_cons_self

theorem foldlM_handleLine_lineRun (hc : s.clients.lookup client = some c)
    (hlines : ∀ frame ∈ lines, ∀ line ∈ lineOf frame, L line)
    (hok : lines.foldlM (fun s frame => handleLine s client frame) s = .ok s') :
    (∃ ts, Run (LineStep L) s ts s') ∧
      ∃ c', s'.clients.lookup client = some c' ∧ c'.handed = c.handed ++ lines.flatMap lineOf := by
  induction lines generalizing s c with
  | nil =>
      cases hok
      exact ⟨⟨[], .nil _⟩, c, hc, (List.append_nil _).symm⟩
  | cons frame lines ih =>
      rw [List.foldlM_cons] at hok
      rcases exists_of_bind_ok hok with ⟨s₁, hfirst, hrest⟩
      rcases handleLine_lineRun hc (hlines frame List.mem_cons_self) hfirst with
        ⟨⟨ts, hts⟩, c₁, hc₁, hhanded₁⟩
      rcases ih hc₁ (fun frame' hframe' => hlines frame' (List.mem_cons_of_mem _ hframe'))
        hrest with
        ⟨⟨us, hus⟩, c', hc', hhanded⟩
      refine ⟨⟨_, hts.append hus⟩, c', hc', ?_⟩
      rw [hhanded, hhanded₁, List.flatMap_cons, List.append_assoc]

/-- A frame is handled without a fault exactly if it can be trimmed. -/
theorem handleLine_ok_iff {frame : Str} (hc : s.clients.lookup client = some c) :
    (∃ s', s.handleLine client frame = .ok s') ↔ Trims frame := by
  rw [handleLine_eq, Trims]
  by_cases hempty : withoutCarriageReturn frame = []
  · rw [if_pos hempty, hempty]
    exact iff_of_true ⟨s, rfl⟩ ⟨[], rfl⟩
  · rw [if_neg hempty]
    constructor
    · rintro ⟨s', hok⟩
      rcases exists_of_bind_ok hok with ⟨line, htrim, _⟩
      exact ⟨line, htrim⟩
    · rintro ⟨line, htrim⟩
      rcases processMessage_effect hc line with ⟨s', hs', _⟩
      rw [htrim]
      exact ⟨s', hs'⟩

/-- Bytes are received without a fault exactly if all frames they complete can be
trimmed. -/
theorem received_ok_iff {buffer bytes : Str} (hc : s.clients.lookup client = some c) :
    (∃ s', s.received client buffer bytes = .ok s') ↔
      ∀ frame ∈ frames newline (buffer ++ bytes), Trims frame := by
  have hframes :
      (∃ t, feed newline (fun s line => handleLine s client line) buffer bytes s = .ok t) ↔
      ∀ frame ∈ frames newline (buffer ++ bytes), Trims frame := by
    refine exists_foldlM_ok_iff (P := fun s => client ∈ s.clients) ?_ ?_ (AList.mem_of_lookup hc)
    · intro t frame hmem
      rcases AList.mem_iff_lookup.1 hmem with ⟨c', hc'⟩
      exact handleLine_ok_iff hc'
    · intro t frame t' hmem hok
      rcases AList.mem_iff_lookup.1 hmem with ⟨c', hc'⟩
      rcases handleLine_holds hc' hok with ⟨_, c'', hc'', _⟩
      exact AList.mem_of_lookup hc''
  rw [← hframes]
  constructor
  · rintro ⟨s', hok⟩
    rcases exists_of_map_ok hok with ⟨t, hfeed, _⟩
    exact ⟨t, hfeed⟩
  · rintro ⟨t, hfeed⟩
    refine ⟨t.setBuffer client (rest newline (buffer ++ bytes)), ?_⟩
    rw [received, hfeed]
    rfl

/-- Received bytes hand on the lines of the frames they complete. -/
theorem received_lineRun {buffer bytes : Str} (hc : s.clients.lookup client = some c)
    (hlines : ∀ frame ∈ frames newline (buffer ++ bytes), ∀ line ∈ lineOf frame, L line)
    (hok : s.received client buffer bytes = .ok s') :
    (∃ ts, Run (LineStep L) s ts s') ∧
      ∃ c', s'.clients.lookup client = some c' ∧
        c'.handed = c.handed ++ (frames newline (buffer ++ bytes)).flatMap lineOf := by
  rcases exists_of_map_ok hok with ⟨t, hfeed, rfl⟩
  rcases foldlM_handleLine_lineRun hc hlines hfeed with ⟨⟨ts, hts⟩, c', hc', hhanded⟩
  have hstep : Step t (.buffer client (rest newline (buffer ++ bytes)))
      (t.setBuffer client (rest newline (buffer ++ bytes))) :=
    step_iff.2 ⟨AList.mem_of_lookup hc', rfl⟩
  exact ⟨⟨_, hts.append (.single (lineStep_of_quiet (by simp) hstep))⟩, _, setBuffer_lookup hc' _,
    hhanded⟩

end Frames

/-! ## The lines of an event -/

/-- The event calls the read handler. -/
def EventFlags.reading (flags : EventFlags) : Bool :=
  !(flags.epollerr || flags.epollhup) && flags.epollin

namespace ChatServer

/-- The input buffer of a client. -/
def inBufferOf (s : ChatServer) (client : Fd) : Str :=
  ((s.clients.lookup client).map fun c => c.inBuffer).getD []

/-- The lines that were handed to {lit}`process_message` for a client. -/
def handedTo (s : ChatServer) (client : Fd) : List Str :=
  ((s.clients.lookup client).map fun c => c.handed).getD []

end ChatServer

/-- The frames that the read loop of an event completes. -/
def ReadyEvent.frames (s : ChatServer) : ReadyEvent → List Str
  | .server _ => []
  | .client fd flags reads _ =>
      if flags.reading then
        EpollChat.frames newline (s.inBufferOf fd ++ reads.chunks.flatMap Chunk.bytes)
      else []

/-- The lines that the read loop of an event hands to {lit}`process_message`, as the
record of its client has them when the loop ends. -/
def ReadyEvent.handed (s : ChatServer) : ReadyEvent → List Str
  | .server _ => []
  | .client fd flags reads _ =>
      if flags.reading then
        match reads.chunks.foldlM (fun s chunk => s.handleChunk fd chunk.bytes) s with
        | .ok t => (t.handedTo fd).drop (s.handedTo fd).length
        | .error _ => []
      else []

section Events

variable {s s' : ChatServer} {client : Fd} {c : Session} {ev : ReadyEvent} {L : Str → Prop}

/-- The part of a successful read before its end. -/
theorem handleClientRead_received {reads : ReadResults}
    (hc : s.clients.lookup client = some c) (hbuffer : newline ∉ c.inBuffer)
    (hok : s.handleClientRead client reads = .ok s') :
    ∃ t, reads.chunks.foldlM (fun s chunk => s.handleChunk client chunk.bytes) s = .ok t ∧
      s.received client c.inBuffer (reads.chunks.flatMap Chunk.bytes) = .ok t ∧
      (reads.last = .wouldBlock ∧ s' = t ∨ t.disconnectClient client = .ok s') := by
  have hchunks := handleChunks_eq hc hbuffer reads.chunks
  unfold handleClientRead at hok
  simp only [deref_eq hc, bind, Except.bind] at hok
  rcases exists_of_bind_ok hok with ⟨t, ht, hlast⟩
  refine ⟨t, ht, hchunks.symm.trans ht, ?_⟩
  cases hend : reads.last with
  | wouldBlock =>
      rw [hend] at hlast
      exact Or.inl ⟨rfl, (Except.ok.inj hlast).symm⟩
  | endOfStream =>
      rw [hend] at hlast
      exact Or.inr hlast
  | failed =>
      rw [hend] at hlast
      exact Or.inr hlast

/-- A read returns exactly if all frames it completes can be trimmed. -/
theorem handleClientRead_ok_iff (hs : ReachableState s) (hdrained : s.Drained)
    (hc : s.clients.lookup client = some c) {reads : ReadResults} :
    (∃ s', s.handleClientRead client reads = .ok s') ↔
      ∀ frame ∈ frames newline (c.inBuffer ++ reads.chunks.flatMap Chunk.bytes), Trims frame := by
  rw [← received_ok_iff hc]
  constructor
  · rintro ⟨s', hok⟩
    rcases handleClientRead_received hc (hdrained client c hc) hok with ⟨t, _, hreceived, _⟩
    exact ⟨t, hreceived⟩
  · rintro ⟨t, hreceived⟩
    have hchunks := handleChunks_eq hc (hdrained client c hc) reads.chunks
    rcases (received_drained hs hdrained (AList.mem_of_lookup hc) _ _).of_ok hreceived with
      ⟨ht, _, hmem⟩
    rcases disconnect_step ht hmem with ⟨u, hu, _⟩
    unfold handleClientRead
    simp only [deref_eq hc, bind, Except.bind, hchunks, hreceived]
    cases reads.last with
    | wouldBlock => exact ⟨t, rfl⟩
    | endOfStream => exact ⟨u, hu⟩
    | failed => exact ⟨u, hu⟩

/-- The frames of an event hold no newline. -/
theorem newline_notMem_frames {frame : Str} (hframe : frame ∈ ev.frames s) : newline ∉ frame := by
  cases ev with
  | server results => cases hframe
  | client fd flags reads result =>
      rw [ReadyEvent.frames] at hframe
      split_ifs at hframe
      · exact notMem_of_mem_frames hframe
      · cases hframe

theorem handleClientRead_lineRun {reads : ReadResults} (hdrained : s.Drained)
    (hc : s.clients.lookup client = some c)
    (hlines : ∀ frame ∈ frames newline (c.inBuffer ++ reads.chunks.flatMap Chunk.bytes),
      ∀ line ∈ lineOf frame, L line)
    (hok : s.handleClientRead client reads = .ok s') : ∃ ts, Run (LineStep L) s ts s' := by
  rcases handleClientRead_received hc (hdrained client c hc) hok with ⟨t, _, hreceived, hlast⟩
  rcases received_lineRun hc hlines hreceived with ⟨⟨ts, hts⟩, c', hc', _⟩
  rcases hlast with ⟨_, rfl⟩ | hgone
  · exact ⟨ts, hts⟩
  · have hstep : Step t (.disconnect client) s' :=
      step_iff.2 ⟨AList.mem_of_lookup hc', hgone⟩
    exact ⟨_, hts.append (.single (lineStep_of_quiet (by simp) hstep))⟩

/-- An event of the loop is a run of steps with the lines of its frames. -/
theorem loopStep_lineRun (hdrained : s.Drained) (hstep : LoopStep s ev s')
    (hlines : ∀ frame ∈ ev.frames s, ∀ line ∈ lineOf frame, L line) :
    ∃ ts, Run (LineStep L) s ts s' := by
  rcases hstep with ⟨hfresh, hok⟩
  cases ev with
  | server results =>
      cases hok
      rcases acceptNewClient_run results hfresh with ⟨ts, hrun⟩
      refine ⟨ts, hrun.mono ?_⟩
      rintro s e s' ⟨⟨fd, nonblocking, added, rfl⟩, hstep⟩
      exact lineStep_of_quiet (by simp) hstep
  | client client flags reads result =>
      rw [handleEvent_client_iff] at hok
      split at hok <;> rename_i hclosed
      · have hstep : Step s (.disconnect client) s' := step_iff.2 ⟨hok.1.1, hok.2⟩
        exact ⟨_, .single (lineStep_of_quiet (by simp) hstep)⟩
      · rcases hok with ⟨t, hread, hwrite⟩
        have hreading : ∃ ts, Run (LineStep L) s ts t := by
          split at hread <;> rename_i hin
          · rcases AList.mem_iff_lookup.1 hread.1.1 with ⟨c, hc⟩
            refine handleClientRead_lineRun hdrained hc (fun frame hframe => hlines frame ?_)
              hread.2
            have hflag : flags.reading = true := by simpa [EventFlags.reading, hin] using hclosed
            rw [ReadyEvent.frames, if_pos hflag, inBufferOf, hc]
            exact hframe
          · subst hread
            exact ⟨[], .nil t⟩
        rcases hreading with ⟨ts, hts⟩
        split at hwrite
        · have hstep : Step t (.write client result) s' := step_iff.2 ⟨hwrite.1.1, hwrite.2⟩
          exact ⟨_, hts.append (.single (lineStep_of_quiet (by simp) hstep))⟩
        · subst hwrite
          exact ⟨ts, hts⟩

/-- An event that calls the read handler finds its client, and the handler returns. -/
theorem exists_read_of_reading {flags : EventFlags} {reads : ReadResults} {result : WriteResult}
    (hstep : LoopStep s (.client client flags reads result) s') (hflag : flags.reading = true) :
    ∃ t c, s.clients.lookup client = some c ∧ s.handleClientRead client reads = .ok t := by
  have hopen : ¬(flags.epollerr || flags.epollhup) = true ∧ flags.epollin = true := by
    simpa [EventFlags.reading] using hflag
  have hok := hstep.2
  rw [handleEvent_client_iff, if_neg hopen.1] at hok
  rcases hok with ⟨t, hread, _⟩
  rw [if_pos hopen.2] at hread
  rcases AList.mem_iff_lookup.1 hread.1.1 with ⟨c, hc⟩
  exact ⟨t, c, hc, hread.2⟩

/-- The lines an event hands on are those of its frames. -/
theorem ReadyEvent.handed_eq (hdrained : s.Drained) (hstep : LoopStep s ev s') :
    ev.handed s = (ev.frames s).flatMap lineOf := by
  cases ev with
  | server results => rfl
  | client client flags reads result =>
      simp only [ReadyEvent.handed, ReadyEvent.frames]
      split <;> rename_i hflag
      · rcases exists_read_of_reading hstep hflag with ⟨t, c, hc, hread⟩
        rcases handleClientRead_received hc (hdrained client c hc) hread with
          ⟨u, hu, hreceived, _⟩
        rcases received_lineRun (L := fun _ => True) hc (fun _ _ _ _ => trivial) hreceived with
          ⟨_, c', hc', hhanded⟩
        simp only [hu, handedTo, inBufferOf, hc, hc', Option.map_some, Option.getD_some, hhanded]
        exact List.drop_left
      · rfl

end Events

/-! ## The lines of a turn -/

/-- The frames that a turn completes. -/
def Turn.frames (s : ChatServer) : Turn → List Str
  | .ready ev => ev.frames s
  | .rehash _ _ => []

/-- The lines that a turn hands to {lit}`process_message`. -/
def Turn.handed (s : ChatServer) : Turn → List Str
  | .ready ev => ev.handed s
  | .rehash _ _ => []

section Turns

variable {s s' : ChatServer} {turn : Turn} {L : Str → Prop}

theorem newline_notMem_turnFrames {frame : Str} (hframe : frame ∈ turn.frames s) :
    newline ∉ frame := by
  cases turn with
  | ready ev => exact @newline_notMem_frames s ev frame hframe
  | rehash clients rooms => cases hframe

/-- A turn of the loop is a run of steps with the lines of its frames. -/
theorem turnStep_lineRun (hs : TurnState s) (hstep : TurnStep s turn s')
    (hlines : ∀ frame ∈ turn.frames s, ∀ line ∈ lineOf frame, L line) :
    ∃ ts, Run (LineStep L) s ts s' := by
  cases turn with
  | ready ev => exact loopStep_lineRun (drained_of_turn hs).2 (turnStep_ready.1 hstep) hlines
  | rehash clients rooms =>
      exact ⟨_, .single (lineStep_of_quiet (by simp) (turnStep_rehash.1 hstep))⟩

/-- The frames of a turn could be trimmed. -/
theorem trims_of_turn (hs : TurnState s) (hstep : TurnStep s turn s') {frame : Str}
    (hframe : frame ∈ turn.frames s) : Trims frame := by
  rcases drained_of_turn hs with ⟨hreachable, hdrained⟩
  cases turn with
  | rehash clients rooms => cases hframe
  | ready ev =>
      cases ev with
      | server results => cases hframe
      | client client flags reads result =>
          simp only [Turn.frames, ReadyEvent.frames] at hframe
          split at hframe <;> rename_i hflag
          · rcases exists_read_of_reading (turnStep_ready.1 hstep) hflag with ⟨t, c, hc, hread⟩
            rw [inBufferOf, hc] at hframe
            exact (handleClientRead_ok_iff hreachable hdrained hc).1 ⟨t, hread⟩ frame hframe
          · cases hframe

/-- The lines a turn hands on are those of its frames. -/
theorem Turn.handed_eq (hs : TurnState s) (hstep : TurnStep s turn s') :
    turn.handed s = (turn.frames s).flatMap lineOf := by
  cases turn with
  | ready ev => exact ev.handed_eq (drained_of_turn hs).2 (turnStep_ready.1 hstep)
  | rehash clients rooms => rfl

end Turns

/-! ## Runs of the loop with known lines -/

/-- A turn whose lines are of a known kind. -/
def KnownStep (L : Str → Prop) (s : ChatServer) (turn : Turn) (s' : ChatServer) : Prop :=
  (∀ frame ∈ turn.frames s, ∀ line ∈ lineOf frame, L line) ∧ TurnStep s turn s'

section Known

variable {s : ChatServer} {L : Str → Prop} {P : Profile → Prop}

/-- What holds of a new connection and is kept by lines of a known kind holds of
every client while the loop gets such lines only. -/
theorem turn_profiles (hnew : P .arrived)
    (hline : ∀ line p p', L line → p.Line line p' → P p → P p')
    (hs : Reachable (KnownStep L) .started s) : TurnState s ∧ s.Profiles P := by
  refine hs.invariant (I := fun s => TurnState s ∧ s.Profiles P) ⟨.refl _, ?_⟩ ?_
  · intro fd p hp
    cases hp
  · rintro s turn s' ⟨hs, hP⟩ ⟨hknown, hstep⟩
    rcases turnStep_lineRun hs hstep hknown with ⟨ts, hrun⟩
    exact ⟨hs.step hstep, forall_profiles hnew hline (reachable_of_turn hs) hrun hP⟩

end Known

/-! ## A line that arrives alone -/

section Alone

variable {s : ChatServer} {client : Fd} {c : Session}

/-- If nothing is buffered for a client, any calls that deliver one line with its
newline do what handling the line does. -/
theorem readCalls_line (hc : s.clients.lookup client = some c) (hempty : c.inBuffer = [])
    {frame : Str} (hframe : newline ∉ frame) {calls : List (List Chunk)}
    (hcalls : calls.flatten.flatMap Chunk.bytes = frame ++ [newline]) :
    readCalls s client calls = s.handleLine client frame := by
  have hframes : frames newline (frame ++ [newline]) = [frame] := by
    rw [frames_append_cons hframe, frames_of_notMem (by simp)]
  have hrest : rest newline (frame ++ [newline]) = [] := by
    rw [rest_append_cons hframe, rest_of_notMem (by simp)]
  rw [readCalls_eq hc (by simp [hempty]), hcalls, hempty, received, feed, List.nil_append, hframes,
    hrest, List.foldlM_cons]
  cases hok : s.handleLine client frame with
  | error e => rfl
  | ok s' =>
      rcases handleLine_holds hc hok with ⟨_, c', hc', hbuffer⟩
      have hkeep := setBuffer_eq_self hc'
      rw [hbuffer, hempty] at hkeep
      exact congrArg Except.ok hkeep

/-- A line without outer spaces that has {lit}`2 ^ 31` bytes or more makes every call
sequence that delivers it throw. -/
theorem readCalls_long_line (hc : s.clients.lookup client = some c) (hempty : c.inBuffer = [])
    {line : Str} (hnewline : newline ∉ line) (hreturn : line.getLast? ≠ some carriageReturn)
    (hfirst : line.head? ≠ some space) (hlast : line.getLast? ≠ some space)
    (hlong : 2 ^ 31 ≤ line.length) (hlen : line.length < 2 ^ 32) {calls : List (List Chunk)}
    (hcalls : calls.flatten.flatMap Chunk.bytes = line ++ [newline]) :
    readCalls s client calls = .error .outOfRange := by
  have hne : ¬line = [] := fun hnil => by
    rw [hnil, List.length_nil] at hlong
    omega
  rw [readCalls_line hc hempty hnewline hcalls, handleLine_eq,
    withoutCarriageReturn_eq_self hreturn, if_neg hne,
    trimString_outOfRange hfirst hlast hlong hlen]
  rfl

end Alone

end EpollChat
