import EpollChat.Library.Outcome
import EpollChat.Properties.Accounting
import EpollChat.Server.Reading

/-!
# The event loop refines the transition system

Every event of a batch is a run of steps of the server, about one client or of
accepts only.  What holds in every reachable state of the transition system
therefore holds whenever the event loop looks at an event.

Main results:

- Theorem {lit}`handleClientRead_ensures`: what a read event does, and the only
  faults it can have.
- Theorem {lit}`handleEvent_ensures`: an event whose client is owned does not use a
  dangling client, unless its read closes the client and its write flag is set.
- Theorem {lit}`handleEvent_run`: an event that is handled is a run of the server.
- Theorem {lit}`reachable_of_turn`: the turns of the loop pass only through states of
  the transition system.
- Theorem {lit}`handleEvent_rebase`: an event in the middle of a batch does what it does
  in a batch of its own.
-/

namespace EpollChat

open ChatServer

/-! ## Restricted steps -/

/-- Steps of the read loop: lines and buffer updates of one client. -/
def ReadStep (client : Fd) (s : ChatServer) (e : Event) (s' : ChatServer) : Prop :=
  ((∃ line, e = .line client line) ∨ ∃ inBuffer, e = .buffer client inBuffer) ∧ Step s e s'

/-- Steps about one client. -/
def ClientStep (client : Fd) (s : ChatServer) (e : Event) (s' : ChatServer) : Prop :=
  e.subject = some client ∧ Step s e s'

/-- A connection that {lit}`accept_new_client` takes. -/
def AcceptStep (s : ChatServer) (e : Event) (s' : ChatServer) : Prop :=
  (∃ fd nonblocking added, e = .accept fd nonblocking added) ∧ Step s e s'

/-- What {lit}`trim_string` can run into. -/
def TrimFault (fault : Fault) : Prop :=
  fault = .signedOverflow ∨ fault = .outOfRange

section Trim

theorem increment_ensures (i : Int) : Ensures (fun _ => True) TrimFault (increment i) := by
  unfold increment
  split
  · exact Or.inl rfl
  · trivial

theorem decrement_ensures (i : Int) : Ensures (fun _ => True) TrimFault (decrement i) := by
  unfold decrement
  split
  · exact Or.inl rfl
  · trivial

theorem countLeading_ensures (s : Str) (i : Int) :
    Ensures (fun _ => True) TrimFault (countLeading s i) := by
  induction s generalizing i with
  | nil => trivial
  | cons b bs ih =>
      unfold countLeading
      split
      · exact (increment_ensures i).bind fun j _ => ih j
      · trivial

theorem countTrailing_ensures (s : Str) (k : Nat) (i : Int) :
    Ensures (fun _ => True) TrimFault (countTrailing s k i) := by
  induction k generalizing i with
  | zero => trivial
  | succ k ih =>
      unfold countTrailing
      split
      · exact (decrement_ensures i).bind fun j _ => ih j
      · trivial

/-- {lit}`trim_string` runs into nothing else. -/
theorem trimString_ensures (s : Str) : Ensures (fun _ => True) TrimFault (trimString s) := by
  unfold trimString
  split
  · trivial
  · apply (countLeading_ensures s 0).bind
    intro i _
    simp only
    split
    · trivial
    · apply (countTrailing_ensures _ _ _).bind
      intro j _
      unfold eraseFrom
      split
      · exact Or.inr rfl
      · trivial

end Trim

/-! ## The read loop -/

section Read

variable {s s' s₀ : ChatServer} {client : Fd} {c : Session}

theorem ReadStep.step {e : Event} (h : ReadStep client s e s') : Step s e s' :=
  h.2

theorem ReadStep.clientStep {e : Event} (h : ReadStep client s e s') :
    ClientStep client s e s' := by
  refine ⟨?_, h.2⟩
  rcases h.1 with ⟨line, rfl⟩ | ⟨inBuffer, rfl⟩ <;> rfl

/-- The read loop neither adds nor removes a client. -/
theorem ReadStep.holds {e : Event} (h : ReadStep client s e s') : s.Holds s' := by
  rcases h with ⟨⟨line, rfl⟩ | ⟨inBuffer, rfl⟩, hstep⟩
  · rcases step_iff.1 hstep with ⟨hmem, happly⟩
    rcases AList.mem_iff_lookup.1 hmem with ⟨c, hc⟩
    exact (processMessage_holds hc happly).1
  · rcases step_iff.1 hstep with ⟨_, happly⟩
    cases happly
    exact holds_updateClient s client _

/-- The read loop of a client has come from one state to another. -/
def Served (client : Fd) (s s' : ChatServer) : Prop :=
  ∃ ts, Run (ReadStep client) s ts s'

/-- A read loop that has just begun. -/
theorem Served.refl (client : Fd) (s : ChatServer) : Served client s s :=
  ⟨[], .nil s⟩

/-- The read loop goes on by one step. -/
theorem Served.snoc {e : Event} (h : Served client s₀ s) (hstep : ReadStep client s e s') :
    Served client s₀ s' := by
  rcases h with ⟨ts, hrun⟩
  exact ⟨_, hrun.append (.single hstep)⟩

/-- A read loop, as far as it has come, neither adds nor removes a client. -/
theorem Served.holds (h : Served client s s') : s.Holds s' := by
  rcases h with ⟨ts, hrun⟩
  exact hrun.invariant (I := fun t => s.Holds t) (fun _ _ _ ht hstep => ht.trans hstep.holds)
    (.refl s)

/-- A line is steps of the read loop, or a fault of {lit}`trim_string`. -/
theorem handleLine_ensures (hserved : Served client s₀ s) (hmem : client ∈ s₀.clients)
    (line : Str) : Ensures (Served client s₀) TrimFault (s.handleLine client line) := by
  have hclient : client ∈ s.clients := hserved.holds.mem.2 hmem
  rw [handleLine_eq]
  split
  · exact hserved
  · apply (trimString_ensures _).bind
    intro line _
    rcases AList.mem_iff_lookup.1 hclient with ⟨c, hc⟩
    rcases processMessage_effect hc line with ⟨s', hs', _⟩
    rw [hs']
    exact hserved.snoc ⟨Or.inl ⟨line, rfl⟩, step_iff.2 ⟨hclient, hs'⟩⟩

/-- A chunk is steps of the read loop, or a fault of {lit}`trim_string`. -/
theorem handleChunk_ensures (hserved : Served client s₀ s) (hmem : client ∈ s₀.clients)
    (bytes : Str) : Ensures (Served client s₀) TrimFault (s.handleChunk client bytes) := by
  rcases AList.mem_iff_lookup.1 (hserved.holds.mem.2 hmem) with ⟨c, hc⟩
  rw [handleChunk_eq hc]
  have hlines : Ensures (Served client s₀) TrimFault
      (feed newline (fun s line => handleLine s client line) c.inBuffer bytes s) :=
    Ensures.foldlM (fun s line _ hs => handleLine_ensures hs hmem line) hserved
  apply hlines.map
  intro s hs
  exact hs.snoc ⟨Or.inr ⟨_, rfl⟩, step_iff.2 ⟨hs.holds.mem.2 hmem, rfl⟩⟩

/-- In a reachable state an owned client can be disconnected, and is gone then. -/
theorem disconnect_step (hs : ReachableState s) (hmem : client ∈ s.clients) :
    ∃ s', s.disconnectClient client = .ok s' ∧ ClientStep client s (.disconnect client) s' ∧
      client ∉ s'.clients := by
  rcases AList.mem_iff_lookup.1 hmem with ⟨c, hc⟩
  have hok := disconnectClient_eq hc (keyed_of_reachable hs client c hc)
  refine ⟨_, hok, ⟨rfl, step_iff.2 ⟨hmem, hok⟩⟩, ?_⟩
  rw [← AList.lookup_eq_none, disconnected_lookup, if_pos rfl]

/-- A read event is a run of steps about its client; the client is gone after it if
and only if the read loop ends with end of stream or an error. -/
theorem handleClientRead_ensures (hs : ReachableState s) (hmem : client ∈ s.clients)
    (reads : ReadResults) :
    Ensures (fun s' => (∃ ts, Run (ClientStep client) s ts s') ∧
        if reads.last = .wouldBlock then s.Holds s' else client ∉ s'.clients)
      TrimFault (s.handleClientRead client reads) := by
  rcases AList.mem_iff_lookup.1 hmem with ⟨c, hc⟩
  have hchunks : Ensures (Served client s) TrimFault
      (reads.chunks.foldlM (fun s chunk => s.handleChunk client chunk.bytes) s) :=
    Ensures.foldlM (fun s chunk _ hserved => handleChunk_ensures hserved hmem chunk.bytes)
      (.refl client s)
  unfold handleClientRead
  simp only [deref_eq hc, bind, Except.bind]
  apply hchunks.bind
  intro t hserved
  have hholds := hserved.holds
  rcases hserved with ⟨ts, hrun⟩
  have hclient : Run (ClientStep client) s ts t := hrun.mono fun _ _ _ h => h.clientStep
  have hreachable : ReachableState t := hs.run (hrun.mono fun _ _ _ h => h.step)
  rcases disconnect_step hreachable (hholds.mem.2 hmem) with ⟨t', ht', hstep, hgone⟩
  cases hlast : reads.last with
  | wouldBlock => exact ⟨⟨ts, hclient⟩, hholds⟩
  | endOfStream =>
      simp only [ht']
      exact ⟨⟨_, hclient.append (.single hstep)⟩, hgone⟩
  | failed =>
      simp only [ht']
      exact ⟨⟨_, hclient.append (.single hstep)⟩, hgone⟩

/-- A write event is one step about its client. -/
theorem handleClientWrite_step (hs : ReachableState s) (hmem : client ∈ s.clients)
    (result : WriteResult) :
    ∃ s', s.handleClientWrite client result = .ok s' ∧
      ClientStep client s (.write client result) s' := by
  rcases AList.mem_iff_lookup.1 hmem with ⟨c, hc⟩
  have hok := handleClientWrite_eq hc (keyed_of_reachable hs client c hc) result
  exact ⟨_, hok, rfl, step_iff.2 ⟨hmem, hok⟩⟩

end Read

/-! ## Events of a batch -/

/-- The descriptor of a client event. -/
def ReadyEvent.descriptor : ReadyEvent → Option Fd
  | .server _ => none
  | .client fd _ _ _ => some fd

/-- A client event whose read loop closes the client although the write handler is
called after it. -/
def ReadyEvent.WritesAfterClose : ReadyEvent → Prop
  | .server _ => False
  | .client _ flags reads _ =>
      flags.epollerr = false ∧ flags.epollhup = false ∧ flags.epollin = true ∧
        flags.epollout = true ∧ reads.last ≠ .wouldBlock

instance (ev : ReadyEvent) : Decidable ev.WritesAfterClose := by
  cases ev <;> unfold ReadyEvent.WritesAfterClose <;> infer_instance

/-- Every descriptor that {lit}`accept` returns is free when it does. -/
def FreshResults : List AcceptResult → ChatServer → Prop
  | [], _ => True
  | .wouldBlock :: _, _ => True
  | .failed :: _, _ => True
  | .connection fd nonblocking added :: results, s =>
      fd ∉ s.clients ∧ FreshResults results (s.acceptConnection fd nonblocking added)

instance decidableFreshResults :
    (results : List AcceptResult) → (s : ChatServer) → Decidable (FreshResults results s)
  | [], _ => inferInstanceAs (Decidable True)
  | .wouldBlock :: _, _ => inferInstanceAs (Decidable True)
  | .failed :: _, _ => inferInstanceAs (Decidable True)
  | .connection fd nonblocking added :: results, s =>
      have := decidableFreshResults results (s.acceptConnection fd nonblocking added)
      inferInstanceAs (Decidable (fd ∉ s.clients ∧ _))

/-- The descriptors that an event accepts are free. -/
def ReadyEvent.Fresh (s : ChatServer) : ReadyEvent → Prop
  | .server results => FreshResults results s
  | .client _ _ _ _ => True

instance (s : ChatServer) (ev : ReadyEvent) : Decidable (ev.Fresh s) := by
  cases ev <;> unfold ReadyEvent.Fresh <;> infer_instance

/-- The run of steps an event of a batch stands for. -/
def ReadyEvent.Served (ev : ReadyEvent) (s s' : ChatServer) : Prop :=
  match ev with
  | .server _ => ∃ ts, Run AcceptStep s ts s'
  | .client fd _ _ _ => ∃ ts, Run (ClientStep fd) s ts s'

section Events

variable {start s s' : ChatServer} {client : Fd} {ev : ReadyEvent}
variable {call : ChatServer → Except Fault ChatServer}

/-- An owned client can be passed on. -/
theorem pass_eq (h : Owned start s client) : ChatServer.pass start s client call = call s :=
  if_pos h

/-- A client is passed on exactly if it is owned. -/
theorem pass_ok_iff :
    ChatServer.pass start s client call = .ok s' ↔ Owned start s client ∧ call s = .ok s' := by
  unfold ChatServer.pass
  split <;> rename_i h <;> simp [h]

/-- A handler that is called if a flag is set. -/
theorem pass_if_iff {flag : Bool} :
    (if flag = true then ChatServer.pass start s client call else .ok s) = .ok s' ↔
      if flag then Owned start s client ∧ call s = .ok s' else s' = s := by
  cases flag with
  | true => exact pass_ok_iff
  | false => simp [eq_comm]

/-- What the successful handling of a client event is made of. -/
theorem handleEvent_client_iff {flags : EventFlags} {reads : ReadResults} {result : WriteResult} :
    handleEvent start s (.client client flags reads result) = .ok s' ↔
      if flags.epollerr || flags.epollhup then
        Owned start s client ∧ s.disconnectClient client = .ok s'
      else ∃ t,
        (if flags.epollin then Owned start s client ∧ s.handleClientRead client reads = .ok t
          else t = s) ∧
        (if flags.epollout then Owned start t client ∧ t.handleClientWrite client result = .ok s'
          else s' = t) := by
  simp only [handleEvent]
  split
  · exact pass_ok_iff
  · constructor
    · intro hok
      rcases exists_of_bind_ok hok with ⟨t, hread, hwrite⟩
      exact ⟨t, pass_if_iff.1 hread, pass_if_iff.1 hwrite⟩
    · intro hparts
      rcases hparts with ⟨t, hread, hwrite⟩
      rw [pass_if_iff.2 hread]
      exact pass_if_iff.2 hwrite

/-- What the kernel still lists and the read loop has kept is still owned. -/
theorem owned_of_holds (h : Owned start s client) (hholds : s.Holds s') :
    Owned start s' client := by
  refine ⟨hholds.mem.2 h.1, ?_⟩
  rw [hholds.2]
  exact h.2

/-- {lit}`accept_new_client` is a run of accepts. -/
theorem acceptNewClient_run (results : List AcceptResult) (hfresh : FreshResults results s) :
    ∃ ts, Run AcceptStep s ts (acceptNewClient results s).1 := by
  induction results generalizing s with
  | nil => exact ⟨[], .nil s⟩
  | cons result results ih =>
      cases result with
      | wouldBlock => exact ⟨[], .nil s⟩
      | failed => exact ⟨[], .nil s⟩
      | connection fd nonblocking added =>
          rcases ih hfresh.2 with ⟨ts, hrun⟩
          have hstep : Step s (.accept fd nonblocking added)
              (s.acceptConnection fd nonblocking added) := step_iff.2 ⟨hfresh.1, rfl⟩
          exact ⟨_, .cons ⟨⟨fd, nonblocking, added, rfl⟩, hstep⟩ hrun⟩

/-- An event whose client is owned is a run of steps, unless its read closes the
client and its write flag is set. -/
theorem handleEvent_ensures (hs : ReachableState s) (hfresh : ev.Fresh s)
    (howned : ∀ client, ev.descriptor = some client → Owned start s client)
    (hsafe : ¬ev.WritesAfterClose) :
    Ensures (fun s' => ev.Served s s') TrimFault (handleEvent start s ev) := by
  cases ev with
  | server results => exact acceptNewClient_run results hfresh
  | client client flags reads result =>
      have hown : Owned start s client := howned client rfl
      simp only [handleEvent]
      cases hclosed : flags.epollerr || flags.epollhup with
      | true =>
          rw [if_pos rfl, pass_eq hown]
          rcases disconnect_step hs hown.1 with ⟨s', hs', hstep, _⟩
          rw [hs']
          exact ⟨_, .single hstep⟩
      | false =>
          rw [if_neg (by simp)]
          rw [Bool.or_eq_false_iff] at hclosed
          have hread : Ensures (fun t => (∃ ts, Run (ClientStep client) s ts t) ∧
              (flags.epollout = true → Owned start t client)) TrimFault
              (if flags.epollin = true then
                ChatServer.pass start s client fun s => s.handleClientRead client reads
              else .ok s) := by
            split <;> rename_i hin
            · rw [pass_eq hown]
              refine (handleClientRead_ensures hs hown.1 reads).mono fun t ht => ⟨ht.1, ?_⟩
              intro hout
              have hlast : reads.last = .wouldBlock := by
                by_contra hlast
                exact hsafe ⟨hclosed.1, hclosed.2, hin, hout, hlast⟩
              have hholds := ht.2
              rw [if_pos hlast] at hholds
              exact owned_of_holds hown hholds
            · exact ⟨⟨[], .nil s⟩, fun _ => hown⟩
          apply hread.bind
          intro t ht
          rcases ht with ⟨⟨ts, hrun⟩, hstill⟩
          split <;> rename_i hout
          · have hstill := hstill hout
            rw [pass_eq hstill]
            have hreachable : ReachableState t := hs.run (hrun.mono fun _ _ _ h => h.2)
            rcases handleClientWrite_step hreachable hstill.1 result with ⟨s', hs', hstep⟩
            rw [hs']
            exact ⟨_, hrun.append (.single hstep)⟩
          · exact ⟨ts, hrun⟩

/-- An event whose read closes the client and whose write flag is set does not
succeed. -/
theorem handleEvent_writesAfterClose (hs : ReachableState s) (hbad : ev.WritesAfterClose) :
    handleEvent start s ev ≠ .ok s' := by
  intro hok
  cases ev with
  | server results => exact hbad
  | client client flags reads result =>
      rcases hbad with ⟨herr, hhup, hin, hout, hlast⟩
      rw [handleEvent_client_iff, if_neg (by simp [herr, hhup])] at hok
      rcases hok with ⟨t, hread, hwrite⟩
      rw [if_pos hin] at hread
      rw [if_pos hout] at hwrite
      have hgone := ((handleClientRead_ensures hs hread.1.1 reads).of_ok hread.2).2
      rw [if_neg hlast] at hgone
      exact hgone hwrite.1.1

/-- An event that is handled without a fault is a run of steps. -/
theorem handleEvent_run (hs : ReachableState s) (hfresh : ev.Fresh s)
    (hok : handleEvent start s ev = .ok s') : ev.Served s s' := by
  cases ev with
  | server results =>
      cases hok
      exact acceptNewClient_run results hfresh
  | client client flags reads result =>
      rw [handleEvent_client_iff] at hok
      split at hok
      · rcases disconnect_step hs hok.1.1 with ⟨t, ht, hstep, _⟩
        rw [hok.2] at ht
        cases ht
        exact ⟨_, .single hstep⟩
      · rcases hok with ⟨t, hread, hwrite⟩
        have hreading : ∃ ts, Run (ClientStep client) s ts t := by
          split at hread
          · exact ((handleClientRead_ensures hs hread.1.1 reads).of_ok hread.2).1
          · subst hread
            exact ⟨[], .nil t⟩
        rcases hreading with ⟨ts, hrun⟩
        split at hwrite
        · have hreachable : ReachableState t := hs.run (hrun.mono fun _ _ _ h => h.2)
          rcases handleClientWrite_step hreachable hwrite.1.1 result with ⟨u, hu, hstep⟩
          rw [hwrite.2] at hu
          cases hu
          exact ⟨_, hrun.append (.single hstep)⟩
        · subst hwrite
          exact ⟨ts, hrun⟩

/-- What accepts, reads, writes and disconnects keep, every event keeps. -/
theorem handleEvent_invariant {I : ChatServer → Prop}
    (haccept : ∀ s fd nonblocking added, I s → fd ∉ s.clients →
      I (s.acceptConnection fd nonblocking added))
    (hread : ∀ s client reads s', I s → client ∈ s.clients →
      s.handleClientRead client reads = .ok s' → I s')
    (hwrite : ∀ s client result s', I s → client ∈ s.clients →
      s.handleClientWrite client result = .ok s' → I s')
    (hdisconnect : ∀ s client s', I s → client ∈ s.clients →
      s.disconnectClient client = .ok s' → I s')
    (hfresh : ev.Fresh s) (hok : handleEvent start s ev = .ok s') (hs : I s) : I s' := by
  cases ev with
  | server results =>
      have haccepts : ∀ results s, FreshResults results s → I s →
          I (acceptNewClient results s).1 := by
        intro results
        induction results with
        | nil => exact fun s _ hs => hs
        | cons result results ih =>
            intro s hfresh hs
            cases result with
            | wouldBlock => exact hs
            | failed => exact hs
            | connection fd nonblocking added =>
                exact ih _ hfresh.2 (haccept s fd nonblocking added hs hfresh.1)
      cases hok
      exact haccepts results s hfresh hs
  | client fd flags reads result =>
      rw [handleEvent_client_iff] at hok
      split at hok
      · exact hdisconnect s fd s' hs hok.1.1 hok.2
      · rcases hok with ⟨t, hread', hwrite'⟩
        have ht : I t := by
          split at hread'
          · exact hread s fd reads t hs hread'.1.1 hread'.2
          · rw [hread']
            exact hs
        split at hwrite'
        · exact hwrite t fd result s' ht hwrite'.1.1 hwrite'.2
        · rw [hwrite']
          exact ht

theorem ReadyEvent.Served.run (h : ev.Served s s') : ∃ ts, Run Step s ts s' := by
  cases ev with
  | server results =>
      rcases h with ⟨ts, hrun⟩
      exact ⟨ts, hrun.mono fun _ _ _ h => h.2⟩
  | client fd flags reads result =>
      rcases h with ⟨ts, hrun⟩
      exact ⟨ts, hrun.mono fun _ _ _ h => h.2⟩

end Events

/-! ## Reachability at the event loop -/

/-- The event loop handles one event, in a batch of its own. -/
def LoopStep (s : ChatServer) (ev : ReadyEvent) (s' : ChatServer) : Prop :=
  ev.Fresh s ∧ handleEvent s s ev = .ok s'

/-- The states in which the event loop looks at its next event, while the tables keep
their order. -/
abbrev LoopState (s : ChatServer) : Prop :=
  Reachable LoopStep ChatServer.started s

/-- The state after an event, if the loop can get the event and handles it. -/
def ChatServer.loopNext (s : ChatServer) (ev : ReadyEvent) : Option ChatServer :=
  if ev.Fresh s then
    match handleEvent s s ev with
    | .ok s' => some s'
    | .error _ => none
  else none

theorem loopStep_iff {s s' : ChatServer} {ev : ReadyEvent} :
    LoopStep s ev s' ↔ s.loopNext ev = some s' := by
  unfold LoopStep ChatServer.loopNext
  split <;> rename_i h
  · cases hok : handleEvent s s ev <;> simp [h]
  · simp [h]

/-- The state after a list of events of the loop. -/
def ChatServer.afterEvents (evs : List ReadyEvent) : ChatServer :=
  runEvents ChatServer.loopNext .started evs

/-- The transitions of a list of events of the loop. -/
def ChatServer.loopTrace (evs : List ReadyEvent) : List (Transition ChatServer ReadyEvent) :=
  transitions ChatServer.loopNext .started evs

theorem run_loopTrace (evs : List ReadyEvent) :
    Run LoopStep .started (ChatServer.loopTrace evs) (.afterEvents evs) :=
  (run_transitions ChatServer.loopNext .started evs).mono fun _ _ _ h => loopStep_iff.2 h

theorem loopState_afterEvents (evs : List ReadyEvent) : LoopState (.afterEvents evs) :=
  ⟨_, run_loopTrace evs⟩

/-- A client sends bytes that one call of {lit}`read` returns. -/
def ReadyEvent.sends (client : Fd) (bytes : Str) : ReadyEvent :=
  .client client ⟨true, false, false, false⟩
    ⟨if h : bytes ≠ [] ∧ bytes.length ≤ bufferSize - 1 then [⟨bytes, h.1, h.2⟩] else [],
      .wouldBlock⟩ .wouldBlock

/-- The event loop reaches only states of the transition system. -/
theorem reachable_of_loop {s : ChatServer} (hs : LoopState s) : ReachableState s := by
  rcases hs with ⟨ts, hrun⟩
  exact hrun.simulate (fun s ev s' hs hstep => (handleEvent_run hs hstep.1 hstep.2).run)
    (.refl _)

/-! ## The turns of the loop -/

/-- What the event loop sees: the next entry of a batch, or tables in another order. -/
inductive Turn
  | ready (ev : ReadyEvent)
  | rehash (clients : ClientTable) (rooms : RoomTable)

/-- The state after a turn, if the loop can get there. -/
def ChatServer.turnNext (s : ChatServer) : Turn → Option ChatServer
  | .ready ev => s.loopNext ev
  | .rehash clients rooms => s.next (.rehash clients rooms)

/-- One turn of the loop. -/
def TurnStep (s : ChatServer) (turn : Turn) (s' : ChatServer) : Prop :=
  s.turnNext turn = some s'

/-- The states in which the loop looks at its next turn. -/
abbrev TurnState (s : ChatServer) : Prop :=
  Reachable TurnStep ChatServer.started s

/-- The transitions of a list of turns. -/
def ChatServer.turnTrace (turns : List Turn) : List (Transition ChatServer Turn) :=
  transitions ChatServer.turnNext .started turns

/-- The state after a list of turns. -/
def ChatServer.afterTurns (turns : List Turn) : ChatServer :=
  runEvents ChatServer.turnNext .started turns

/-- The turns that are possible are a run. -/
theorem run_turnTrace (turns : List Turn) :
    Run TurnStep .started (ChatServer.turnTrace turns) (.afterTurns turns) :=
  run_transitions ChatServer.turnNext .started turns

section Turns

variable {s s' : ChatServer} {ev : ReadyEvent}

/-- Without a rehash a turn is a step of the loop. -/
theorem turnStep_ready : TurnStep s (.ready ev) s' ↔ LoopStep s ev s' :=
  loopStep_iff.symm

/-- A rehash is a turn of its own. -/
theorem turnStep_rehash {clients : ClientTable} {rooms : RoomTable} :
    TurnStep s (.rehash clients rooms) s' ↔ Step s (.rehash clients rooms) s' :=
  Iff.rfl

/-- Tables that keep their order are a case of tables that do not. -/
theorem turnState_of_loop (hs : LoopState s) : TurnState s :=
  hs.invariant (.refl _) fun _ _ _ ht hstep => ht.step (turnStep_ready.2 hstep)

/-- A state after events is a state of the loop. -/
theorem turnState_afterEvents (evs : List ReadyEvent) : TurnState (.afterEvents evs) :=
  turnState_of_loop (loopState_afterEvents evs)

/-- The turns of the loop pass only through states of the transition system. -/
theorem reachable_of_turn (hs : TurnState s) : ReachableState s := by
  refine hs.invariant (.refl _) fun s turn s' hs hstep => ?_
  cases turn with
  | ready ev =>
      rcases turnStep_ready.1 hstep with ⟨hfresh, hok⟩
      rcases (handleEvent_run hs hfresh hok).run with ⟨ts, hrun⟩
      exact hs.run hrun
  | rehash clients rooms => exact hs.step (turnStep_rehash.1 hstep)

end Turns

/-! ## Events in the middle of a batch -/

/-- Every event finds the descriptors it accepts free. -/
def FreshBatch (start : ChatServer) : List ReadyEvent → ChatServer → Prop
  | [], _ => True
  | ev :: events, s =>
      ev.Fresh s ∧ ∀ s', handleEvent start s ev = .ok s' → FreshBatch start events s'

section Batches

variable {start s s' : ChatServer} {client : Fd} {ev : ReadyEvent} {e : Event}

/-- A step closes the descriptor of its subject at most. -/
theorem StepEffect.closed (h : StepEffect s e s') :
    ∃ fds, s'.closed = s.closed ++ fds ∧ ∀ fd ∈ fds, e.subject = some fd := by
  cases h with
  | accept client nonblocking added hfresh =>
      unfold acceptConnection
      split
      · exact ⟨[client], rfl, by simp [Event.subject]⟩
      · split
        · exact ⟨[client], rfl, by simp [Event.subject]⟩
        · exact ⟨[], by simp [ChatServer.queueMessage, updateClient], by simp⟩
  | line client line c _ hc heffect =>
      refine ⟨[], ?_, by simp⟩
      rw [heffect.holds.2, List.append_nil]
      rfl
  | wrote => exact ⟨[], (List.append_nil _).symm, by simp⟩
  | dropped client => exact ⟨[client, client], rfl, by simp [Event.subject]⟩
  | disconnect client => exact ⟨[client, client], rfl, by simp [Event.subject]⟩
  | buffer => exact ⟨[], (List.append_nil _).symm, by simp⟩
  | rehash => exact ⟨[], (List.append_nil _).symm, by simp⟩

/-- Descriptors that were closed stay on record. -/
theorem run_closed_length {ts : List (Transition ChatServer Event)} (hs : ReachableState s)
    (hrun : Run Step s ts s') : s.closed.length ≤ s'.closed.length := by
  induction hrun with
  | nil => exact le_rfl
  | cons hstep _ ih =>
      rcases (step_effect (keyed_of_reachable hs) hstep).closed with ⟨fds, hclosed, _⟩
      have hrest := ih (hs.step hstep)
      rw [hclosed, List.length_append] at hrest
      omega

/-- A client that is owned since an earlier state is owned since a later one. -/
theorem owned_rebase {t : ChatServer} (h : Owned start t client)
    (hlater : start.closed.length ≤ s.closed.length) : Owned s t client := by
  refine ⟨h.1, fun hclosed => h.2 ?_⟩
  exact List.drop_subset_drop_left t.closed hlater hclosed

/-- An event in the middle of a batch does what it does in a batch of its own. -/
theorem handleEvent_rebase (hlater : start.closed.length ≤ s.closed.length)
    (hok : handleEvent start s ev = .ok s') : handleEvent s s ev = .ok s' := by
  cases ev with
  | server results => exact hok
  | client client flags reads result =>
      rw [handleEvent_client_iff] at hok ⊢
      split at hok <;> rename_i hclosed
      · rw [if_pos hclosed]
        exact ⟨owned_rebase hok.1 hlater, hok.2⟩
      · rw [if_neg hclosed]
        rcases hok with ⟨t, hread, hwrite⟩
        refine ⟨t, ?_, ?_⟩
        · split at hread <;> rename_i hin
          · rw [if_pos hin]
            exact ⟨owned_rebase hread.1 hlater, hread.2⟩
          · rw [if_neg hin]
            exact hread
        · split at hwrite <;> rename_i hout
          · rw [if_pos hout]
            exact ⟨owned_rebase hwrite.1 hlater, hwrite.2⟩
          · rw [if_neg hout]
            exact hwrite

end Batches

end EpollChat
