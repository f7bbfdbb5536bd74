import EpollChat.Properties.Lines

/-!
# Clients that are used after their removal

The event loop keeps the {lit}`Client*` of an event across its two handlers.  When
the read handler removes the client, which it does on end of stream and on a read
error, and the event also has {lit}`EPOLLOUT`, the write handler gets a pointer to
a destroyed client.  This module shows that nothing else in the event loop can go
wrong in this way: neither other events of the batch nor the reuse of descriptors.

Main results:

- Theorem {lit}`step_owned`: a step about another client or descriptor keeps a
  client owned.
- Theorem {lit}`handleEvent_dangling_iff`: which events of owned clients end with a
  removed client.
- Theorem {lit}`turnState_of_runTurns`: a run over valid batches ends in a state of the
  event loop.
- Theorem {lit}`no_dangling_client`: which runs over valid batches use a removed client.
-/

namespace EpollChat

open ChatServer

section Owned

variable {start s s' : ChatServer} {client fd : Fd} {e : Event}

/-- A step about another client keeps a client where it is. -/
theorem StepEffect.mem (h : StepEffect s e s') (hfd : fd ∈ s.clients)
    (hother : e.subject ≠ some fd) : fd ∈ s'.clients := by
  cases hsubject : e.subject with
  | some a =>
      rcases AList.mem_iff_lookup.1 hfd with ⟨cl, hcl⟩
      have hne : fd ≠ a := by
        rintro rfl
        exact hother hsubject
      rcases (h.others hsubject hne).lookup hcl with ⟨ds, hds⟩
      exact AList.mem_of_lookup hds
  | none =>
      cases h with
      | rehash clients rooms hclients hrooms =>
          rw [← AList.lookup_isSome, AList.perm_lookup hclients, AList.lookup_isSome]
          exact hfd
      | _ => cases hsubject

/-- A step about another client or descriptor keeps a client owned. -/
theorem step_owned (hs : ReachableState s) (hstep : Step s e s') (howned : Owned start s fd)
    (hother : e.subject ≠ some fd) : Owned start s' fd := by
  have heffect := step_effect (keyed_of_reachable hs) hstep
  refine ⟨heffect.mem howned.1 hother, ?_⟩
  rcases heffect.closed with ⟨fds, hfds, hsubject⟩
  rw [hfds, List.drop_append, List.mem_append, not_or]
  exact ⟨howned.2, fun hmem => hother (hsubject fd (List.mem_of_mem_drop hmem))⟩

theorem run_clientStep_owned {ts : List (Transition ChatServer Event)} (hs : ReachableState s)
    (hrun : Run (ClientStep client) s ts s') (howned : Owned start s fd) (hother : client ≠ fd) :
    Owned start s' fd := by
  refine (hrun.invariant (I := fun t => ReachableState t ∧ Owned start t fd) ?_ ⟨hs, howned⟩).2
  rintro t e t' ⟨ht, hown⟩ ⟨hsubject, hstep⟩
  refine ⟨ht.step hstep, step_owned ht hstep hown ?_⟩
  rw [hsubject]
  exact fun h => hother (Option.some.inj h)

/-- An accepted descriptor was free, so it is not that of an owned client. -/
theorem run_acceptStep_owned {ts : List (Transition ChatServer Event)} (hs : ReachableState s)
    (hrun : Run AcceptStep s ts s') (howned : Owned start s fd) : Owned start s' fd := by
  refine (hrun.invariant (I := fun t => ReachableState t ∧ Owned start t fd) ?_ ⟨hs, howned⟩).2
  rintro t e t' ⟨ht, hown⟩ ⟨⟨newFd, nonblocking, added, rfl⟩, hstep⟩
  refine ⟨ht.step hstep, step_owned ht hstep hown fun h => ?_⟩
  cases Option.some.inj h
  exact (step_iff.1 hstep).1 hown.1

/-- An event keeps every client owned but its own. -/
theorem served_owned {ev : ReadyEvent} (hs : ReachableState s) (hserved : ev.Served s s')
    (howned : Owned start s fd) (hother : ev.descriptor ≠ some fd) : Owned start s' fd := by
  cases ev with
  | server results =>
      rcases hserved with ⟨ts, hrun⟩
      exact run_acceptStep_owned hs hrun howned
  | client client flags reads result =>
      rcases hserved with ⟨ts, hrun⟩
      exact run_clientStep_owned hs hrun howned fun h => hother (congrArg some h)

end Owned

/-! ## Single events -/

section Events

variable {start s s' : ChatServer} {client : Fd} {ev : ReadyEvent}

/-- An event of an owned client ends with a removed client exactly if its read loop
closes the client, is not stopped by a fault before, and the write handler follows. -/
theorem handleEvent_dangling_iff (hs : ReachableState s) (hdrained : s.Drained)
    (hfresh : ev.Fresh s)
    (howned : ∀ client, ev.descriptor = some client → Owned start s client) :
    handleEvent start s ev = .error .danglingClient ↔
      ev.WritesAfterClose ∧ ∀ frame ∈ ev.frames s, Trims frame := by
  by_cases hbad : ev.WritesAfterClose
  · rw [and_iff_right hbad]
    cases ev with
    | server results => exact absurd hbad id
    | client client flags reads result =>
        have hown : Owned start s client := howned client rfl
        rcases hbad with ⟨herr, hhup, hin, hout, hlast⟩
        rcases AList.mem_iff_lookup.1 hown.1 with ⟨c, hc⟩
        have hflag : flags.reading = true := by simp [EventFlags.reading, herr, hhup, hin]
        have hensures := handleClientRead_ensures hs hown.1 reads
        rw [ReadyEvent.frames, if_pos hflag, inBufferOf, hc]
        refine Iff.trans ?_ (handleClientRead_ok_iff hs hdrained hc)
        simp only [handleEvent, herr, hhup, hin, hout, Bool.or_self, Bool.false_eq_true, if_false,
          if_true, pass_eq hown, bind, Except.bind]
        cases hread : s.handleClientRead client reads with
        | ok t =>
            -- the client is gone when its write handler is called
            have hgone := (hensures.of_ok hread).2
            rw [if_neg hlast] at hgone
            exact iff_of_true (if_neg fun hstill => hgone hstill.1) ⟨t, rfl⟩
        | error e =>
            refine iff_of_false (fun h => ?_) (fun h => by simp at h)
            cases h
            rcases hensures.of_error hread with h | h <;> cases h
  · refine iff_of_false (fun h => ?_) fun h => hbad h.1
    rcases (handleEvent_ensures hs hfresh howned hbad).of_error h with h | h <;> cases h

end Events

/-! ## Batches

While a batch is processed the tables may also change their order, so a batch is a list
of turns. -/

/-- The descriptor of the client a turn is about. -/
def Turn.descriptor : Turn → Option Fd
  | .ready ev => ev.descriptor
  | .rehash _ _ => none

/-- A turn whose write handler follows a read that closes the client. -/
def Turn.WritesAfterClose : Turn → Prop
  | .ready ev => ev.WritesAfterClose
  | .rehash _ _ => False

instance (turn : Turn) : Decidable turn.WritesAfterClose := by
  cases turn <;> unfold Turn.WritesAfterClose <;> infer_instance

/-- The descriptors that a turn accepts are free, the tables it leaves hold the same. -/
def Turn.Fresh (s : ChatServer) : Turn → Prop
  | .ready ev => ev.Fresh s
  | .rehash clients rooms => s.Enabled (.rehash clients rooms)

/-- The batches of {lit}`run` as turns. -/
def asTurns (batches : List (List ReadyEvent)) : List (List Turn) :=
  batches.map fun events => events.map .ready

namespace ChatServer

/-- One turn in the middle of a batch. -/
def handleTurn (start s : ChatServer) : Turn → Except Fault ChatServer
  | .ready ev => handleEvent start s ev
  | .rehash clients rooms => s.apply (.rehash clients rooms)

/-- One round of the outer loop of {lit}`run`. -/
def handleTurns (s : ChatServer) (turns : List Turn) : Except Fault ChatServer :=
  turns.foldlM (handleTurn s) s

/-- The outer loop of {lit}`run`. -/
def runTurns (batches : List (List Turn)) : Except Fault ChatServer :=
  batches.foldlM handleTurns started

/-- With tables that keep their order this is {lit}`run`. -/
theorem run_eq_runTurns (batches : List (List ReadyEvent)) :
    ChatServer.run batches = runTurns (asTurns batches) := by
  have hbatch : ∀ (s : ChatServer) (events : List ReadyEvent),
      handleTurns s (events.map .ready) = handleBatch s events := by
    intro s events
    rw [handleTurns, handleBatch, List.foldlM_map]
    rfl
  rw [run, runTurns, asTurns, List.foldlM_map]
  simp only [hbatch]

end ChatServer

/-- Every turn of a batch finds the descriptors it accepts free. -/
def FreshTurns (start : ChatServer) : List Turn → ChatServer → Prop
  | [], _ => True
  | turn :: turns, s =>
      turn.Fresh s ∧ ∀ s', handleTurn start s turn = .ok s' → FreshTurns start turns s'

/-- The kernel reports an event of a client only while it is registered, and
{lit}`EPOLLIN` and {lit}`EPOLLOUT` only if its registration asks for them. -/
def ReadyEvent.Registered (s : ChatServer) : ReadyEvent → Prop
  | .server _ => True
  | .client fd flags _ _ =>
      ∃ c, s.clients.lookup fd = some c ∧ (flags.epollin = true → c.interest.epollin = true) ∧
        (flags.epollout = true → c.interest.epollout = true)

def Turn.Registered (s : ChatServer) : Turn → Prop
  | .ready ev => ev.Registered s
  | .rehash _ _ => True

/-- A batch that {lit}`epoll_wait` can return, with results that {lit}`accept` can
return while it is processed. -/
structure ValidBatch (s : ChatServer) (turns : List Turn) : Prop where
  distinct : (turns.filterMap Turn.descriptor).Nodup
  registered : ∀ turn ∈ turns, turn.Registered s
  fresh : FreshTurns s turns s

/-- Batches that are valid when they are delivered. -/
def ValidBatches : List (List Turn) → ChatServer → Prop
  | [], _ => True
  | turns :: batches, s =>
      ValidBatch s turns ∧ ∀ s', handleTurns s turns = .ok s' → ValidBatches batches s'

/-- A batch in progress: the clients of the turns that are left are owned. -/
structure Underway (start : ChatServer) (turns : List Turn) (s : ChatServer) : Prop where
  state : TurnState s
  later : start.closed.length ≤ s.closed.length
  distinct : (turns.filterMap Turn.descriptor).Nodup
  owned : ∀ turn ∈ turns, ∀ fd, turn.descriptor = some fd → Owned start s fd
  fresh : FreshTurns start turns s

/-- An event that the loop gets to, and the state in which it does. -/
def Reaches (batches : List (List Turn)) (start s : ChatServer) (ev : ReadyEvent) : Prop :=
  ∃ before turns after later, batches = before ++ (turns ++ .ready ev :: after) :: later ∧
    runTurns before = .ok start ∧ turns.foldlM (handleTurn start) start = .ok s

section Batches

variable {start s s' : ChatServer} {turn : Turn} {turns before after : List Turn}
variable {batches earlier later : List (List Turn)} {ev : ReadyEvent}

theorem owned_of_registered (h : ev.Registered s) (fd : Fd)
    (hfd : ev.descriptor = some fd) : Owned s s fd := by
  cases ev with
  | server results => cases hfd
  | client client flags reads result =>
      cases hfd
      rcases h with ⟨c, hc, _⟩
      exact ⟨AList.mem_of_lookup hc, by simp⟩

theorem ValidBatch.underway (h : ValidBatch s turns) (hs : TurnState s) : Underway s turns s where
  state := hs
  later := le_rfl
  distinct := h.distinct
  owned := by
    intro turn hturn fd hfd
    cases turn with
    | ready ev => exact owned_of_registered (h.registered _ hturn) fd hfd
    | rehash clients rooms => cases hfd
  fresh := h.fresh

/-- A turn that is handled is one of the loop, and keeps the clients of all others. -/
theorem handleTurn_owned (hs : TurnState s) (hlater : start.closed.length ≤ s.closed.length)
    (hfresh : turn.Fresh s) (hok : handleTurn start s turn = .ok s') :
    TurnStep s turn s' ∧ start.closed.length ≤ s'.closed.length ∧
      ∀ fd, turn.descriptor ≠ some fd → Owned start s fd → Owned start s' fd := by
  have hreachable := reachable_of_turn hs
  cases turn with
  | ready ev =>
      have hserved := handleEvent_run hreachable hfresh hok
      rcases hserved.run with ⟨ts, hrun⟩
      have hgrown := run_closed_length hreachable hrun
      refine ⟨turnStep_ready.2 ⟨hfresh, handleEvent_rebase hlater hok⟩, hlater.trans hgrown, ?_⟩
      exact fun fd hother howned => served_owned hreachable hserved howned hother
  | rehash clients rooms =>
      have hstep : Step s (.rehash clients rooms) s' := step_iff.2 ⟨hfresh, hok⟩
      have hgrown := run_closed_length hreachable (.single hstep)
      refine ⟨turnStep_rehash.2 hstep, hlater.trans hgrown, ?_⟩
      exact fun fd _ howned => step_owned hreachable hstep howned (by simp [Event.subject])

/-- One turn of a batch. -/
theorem Underway.step (h : Underway start (turn :: turns) s)
    (hok : handleTurn start s turn = .ok s') : Underway start turns s' := by
  rcases handleTurn_owned h.state h.later h.fresh.1 hok with ⟨hstep, hlater, hkept⟩
  refine ⟨h.state.step hstep, hlater, ?_, fun turn' hturn' fd hfd => ?_, h.fresh.2 s' hok⟩
  · have hdistinct := h.distinct
    cases hdescriptor : turn.descriptor with
    | none => rwa [List.filterMap_cons_none hdescriptor] at hdistinct
    | some fd =>
        rw [List.filterMap_cons_some hdescriptor] at hdistinct
        exact hdistinct.of_cons
  · refine hkept fd (fun hsame => ?_) (h.owned turn' (List.mem_cons_of_mem _ hturn') fd hfd)
    have hdistinct := h.distinct
    rw [List.filterMap_cons_some hsame] at hdistinct
    exact hdistinct.notMem (List.mem_filterMap.2 ⟨turn', hturn', hfd⟩)

/-- The turns of a batch that are handled leave the rest of the batch in progress. -/
theorem Underway.run (h : Underway start (before ++ after) s)
    (hok : before.foldlM (handleTurn start) s = .ok s') : Underway start after s' :=
  foldlM_rest (I := Underway start) (fun _ _ _ _ hturns hturn => hturns.step hturn) hok h

/-- Batches that are handled end in a state of the loop, and leave valid batches. -/
theorem validBatches_run (hs : TurnState s) (hvalid : ValidBatches (earlier ++ later) s)
    (hok : earlier.foldlM handleTurns s = .ok s') : TurnState s' ∧ ValidBatches later s' := by
  refine foldlM_rest (I := fun batches s => TurnState s ∧ ValidBatches batches s) ?_ hok
    ⟨hs, hvalid⟩
  rintro turns batches t t' ⟨ht, hvalid⟩ hturns
  have hunderway := hvalid.1.underway ht
  rw [← List.append_nil turns] at hunderway
  exact ⟨(hunderway.run hturns).state, hvalid.2 t' hturns⟩

/-- An event that the loop gets to finds its client. -/
theorem Reaches.underway (h : Reaches batches start s ev) (hvalid : ValidBatches batches .started) :
    ∃ turns after, turns ∈ batches ∧ .ready ev ∈ turns ∧ Underway start (.ready ev :: after) s := by
  rcases h with ⟨before, turns, after, later, rfl, hbefore, hturns⟩
  rcases validBatches_run (.refl _) hvalid hbefore with ⟨hs, hrest⟩
  refine ⟨turns ++ .ready ev :: after, after, ?_, ?_, (hrest.1.underway hs).run hturns⟩
  · exact List.mem_append_right _ List.mem_cons_self
  · exact List.mem_append_right _ List.mem_cons_self

/-- What an event that the loop gets to can end with. -/
theorem Reaches.dangling_iff (h : Reaches batches start s ev)
    (hvalid : ValidBatches batches .started) :
    handleEvent start s ev = .error .danglingClient ↔
      ev.WritesAfterClose ∧ ∀ frame ∈ ev.frames s, Trims frame := by
  rcases h.underway hvalid with ⟨_, after, _, _, hunderway⟩
  rcases drained_of_turn hunderway.state with ⟨hreachable, hdrained⟩
  exact handleEvent_dangling_iff hreachable hdrained hunderway.fresh.1
    fun client hclient => hunderway.owned _ List.mem_cons_self client hclient

/-- A run fails in an event that the loop gets to. -/
theorem runTurns_eq_error_iff {e : Fault} :
    runTurns batches = .error e ↔
      ∃ start s ev, Reaches batches start s ev ∧ handleEvent start s ev = .error e := by
  constructor
  · intro h
    rcases foldlM_eq_error_iff.1 h with ⟨before, turns, later, start, rfl, hbefore, hbatch⟩
    rcases foldlM_eq_error_iff.1 hbatch with ⟨first, turn, after, s, rfl, hfirst, hturn⟩
    cases turn with
    | ready ev => exact ⟨start, s, ev, ⟨before, first, after, later, rfl, hbefore, hfirst⟩, hturn⟩
    | rehash clients rooms => cases hturn
  · rintro ⟨start, s, ev, ⟨before, turns, after, later, rfl, hbefore, hturns⟩, hok⟩
    refine foldlM_eq_error_iff.2 ⟨before, _, later, start, rfl, hbefore, ?_⟩
    exact foldlM_eq_error_iff.2 ⟨turns, _, after, s, rfl, hturns, hok⟩

/-- The loop gets to every event of a run that completes, and handles it. -/
theorem reaches_of_ok (hok : runTurns batches = .ok s') (hturns : turns ∈ batches)
    (hev : .ready ev ∈ turns) :
    ∃ start s t, Reaches batches start s ev ∧ handleEvent start s ev = .ok t := by
  rcases List.append_of_mem hturns with ⟨before, later, rfl⟩
  rcases List.append_of_mem hev with ⟨first, after, rfl⟩
  rcases foldlM_append_ok_iff.1 hok with ⟨start, hbefore, hrest⟩
  rw [List.foldlM_cons] at hrest
  rcases exists_of_bind_ok hrest with ⟨_, hbatch, _⟩
  rcases foldlM_append_ok_iff.1 hbatch with ⟨s, hfirst, hlast⟩
  rw [List.foldlM_cons] at hlast
  rcases exists_of_bind_ok hlast with ⟨t, hturn, _⟩
  exact ⟨start, s, t, ⟨before, first, after, later, rfl, hbefore, hfirst⟩, hturn⟩

/-- Whenever {lit}`run` waits for the next batch, it is in a state of the event loop. -/
theorem turnState_of_runTurns (hvalid : ValidBatches batches .started)
    (hok : runTurns batches = .ok s) : TurnState s := by
  rw [← List.append_nil batches] at hvalid
  exact (validBatches_run (.refl _) hvalid hok).1

end Batches

/-- In every run over valid batches, in whatever order the tables are: a handler is passed
a client that was removed before exactly if the loop gets to an event that has both
{lit}`EPOLLIN` and {lit}`EPOLLOUT`, neither {lit}`EPOLLERR` nor {lit}`EPOLLHUP`, and a read
loop that ends with end of stream or an error, after lines on which {lit}`trim_string` does
not fault.  In a run without such events no handler is passed a removed client, and a batch
with one is never completed. -/
theorem no_dangling_client {batches : List (List Turn)} (hvalid : ValidBatches batches .started) :
    (runTurns batches = .error .danglingClient ↔
      ∃ start s ev, Reaches batches start s ev ∧ ev.WritesAfterClose ∧
        ∀ frame ∈ ev.frames s, Trims frame) ∧
    ((∀ turns ∈ batches, ∀ turn ∈ turns, ¬turn.WritesAfterClose) →
      runTurns batches ≠ .error .danglingClient) ∧
    (∀ s, runTurns batches = .ok s →
      ∀ turns ∈ batches, ∀ turn ∈ turns, ¬turn.WritesAfterClose) := by
  have hdangling : runTurns batches = .error .danglingClient ↔
      ∃ start s ev, Reaches batches start s ev ∧ ev.WritesAfterClose ∧
        ∀ frame ∈ ev.frames s, Trims frame := by
    rw [runTurns_eq_error_iff]
    constructor
    · rintro ⟨start, s, ev, hreaches, herror⟩
      exact ⟨start, s, ev, hreaches, (hreaches.dangling_iff hvalid).1 herror⟩
    · rintro ⟨start, s, ev, hreaches, hbad⟩
      exact ⟨start, s, ev, hreaches, (hreaches.dangling_iff hvalid).2 hbad⟩
  refine ⟨hdangling, fun hsafe h => ?_, fun s hok turns hturns turn hturn hbad => ?_⟩
  · rcases hdangling.1 h with ⟨start, s, ev, hreaches, hbad, _⟩
    rcases hreaches.underway hvalid with ⟨turns, _, hturns, hev, _⟩
    exact hsafe turns hturns _ hev hbad
  · cases turn with
    | rehash clients rooms => exact hbad
    | ready ev =>
        rcases reaches_of_ok hok hturns hturn with ⟨start, t, u, hreaches, hevent⟩
        rcases hreaches.underway hvalid with ⟨_, _, _, _, hunderway⟩
        exact handleEvent_writesAfterClose (reachable_of_turn hunderway.state) hbad hevent

/-- A connection, for which the nickname prompt is queued at once. -/
def arrival : List ReadyEvent :=
  [.server [.connection 5 true true, .wouldBlock]]

/-- The new client has closed its end, and its socket can be written. -/
def hangup : ReadyEvent :=
  .client 5 ⟨true, true, false, false⟩ ⟨[], .endOfStream⟩ .wouldBlock

/-- The new client names itself, and the prompt is written. -/
def greeting : ReadyEvent :=
  .client 5 ⟨true, true, false, false⟩
    ⟨[⟨str "ann\n", by decide, by decide⟩], .wouldBlock⟩ (.accepted 21)

theorem validBatches_arrival (ev : ReadyEvent) (hclient : ev.descriptor = some 5)
    (hregistered : ev.Registered (ChatServer.acceptConnection .started 5 true true)) :
    ValidBatches (asTurns [arrival, [ev]]) .started := by
  have harrival : ValidBatch .started (arrival.map .ready) := by
    refine ⟨by decide, ?_, ⟨⟨by decide, trivial⟩, fun _ _ => trivial⟩⟩
    intro turn hturn
    cases List.mem_singleton.mp hturn
    trivial
  refine ⟨harrival, fun s hs => ?_⟩
  have hstate : handleTurns .started (arrival.map .ready) =
      .ok (ChatServer.acceptConnection .started 5 true true) := rfl
  rw [hstate] at hs
  cases hs
  refine ⟨⟨?_, ?_, ?_⟩, fun _ _ => trivial⟩
  · simp [Turn.descriptor, hclient]
  · intro turn hturn
    cases List.mem_singleton.mp hturn
    exact hregistered
  · cases ev with
    | server results => cases hclient
    | client => exact ⟨trivial, fun _ _ => trivial⟩

theorem greeting_no_dangling : ChatServer.run [arrival, [greeting]] ≠ .error .danglingClient := by
  rw [run_eq_runTurns]
  exact (no_dangling_client
    (validBatches_arrival greeting rfl ⟨_, rfl, fun _ => rfl, fun _ => rfl⟩)).2.1 (by decide)

/-- The write handler is passed the client that the read handler has removed. -/
theorem hangup_dangling :
    ValidBatches (asTurns [arrival, [hangup]]) .started ∧
      ChatServer.run [arrival, [hangup]] = .error .danglingClient :=
  ⟨validBatches_arrival hangup rfl ⟨_, rfl, fun _ => rfl, fun _ => rfl⟩, rfl⟩

end EpollChat
