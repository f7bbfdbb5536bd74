import EpollChat.Server.Loop

/-!
# server/chat_server.cpp - The outer loop of {lit}`run`

A round of the outer loop tests {lit}`keep_running`, which a signal handler may have
cleared, and waits for events.  {lit}`epoll_wait` returns a batch, or fails: an interrupted
call is repeated, any other error ends the loop.

Main results:

- Theorem {lit}`runRounds_run`: the rounds are a run of the loop over the events they
  deliver.
- Theorem {lit}`batching_unobservable`: how the events are cut into batches, and the
  interruptions in between, make no difference.
-/

namespace EpollChat

open ChatServer

/-! ## Rounds -/

/-- What {lit}`epoll_wait` returns: a batch, or -1 with {lit}`EINTR`, or -1 with any other
error. -/
inductive WaitResult
  | ready (events : List ReadyEvent)
  | interrupted
  | failed

/-- One round: the value of {lit}`keep_running` when it is tested, and what
{lit}`epoll_wait` returns if the round gets that far. -/
structure Round where
  keepRunning : Bool
  wait : WaitResult

/-- A round that delivers one event. -/
def Round.single (ev : ReadyEvent) : Round :=
  ⟨true, .ready [ev]⟩

/-- The outer loop of {lit}`run`; the rounds after its end are not looked at. -/
def ChatServer.runRounds : List Round → ChatServer → Except Fault ChatServer
  | [], s => .ok s
  | round :: rounds, s =>
      if !round.keepRunning then .ok s
      else
        match round.wait with
        | .interrupted => runRounds rounds s
        | .failed => .ok s
        | .ready events => do
            let s ← s.handleBatch events
            runRounds rounds s

/-- The events of the rounds before the loop ends, in order. -/
def delivered : List Round → List ReadyEvent
  | [] => []
  | round :: rounds =>
      if !round.keepRunning then []
      else
        match round.wait with
        | .interrupted => delivered rounds
        | .failed => []
        | .ready events => events ++ delivered rounds

/-- Every descriptor that {lit}`accept` returns in these rounds is free when it does. -/
def FreshRounds : List Round → ChatServer → Prop
  | [], _ => True
  | round :: rounds, s =>
      match round.wait with
      | .interrupted => FreshRounds rounds s
      | .failed => True
      | .ready events =>
          FreshBatch s events s ∧ ∀ s', s.handleBatch events = .ok s' → FreshRounds rounds s'

section Rounds

variable {start s s' : ChatServer} {rounds : List Round}

/-- The events of a batch, one after the other, each as if it were alone in its batch. -/
theorem foldlM_handleEvent_run {events : List ReadyEvent} (hs : LoopState s)
    (hlater : start.closed.length ≤ s.closed.length) (hfresh : FreshBatch start events s)
    (hok : events.foldlM (handleEvent start) s = .ok s') :
    ∃ ts, Run LoopStep s ts s' ∧ ts.map Transition.event = events := by
  induction events generalizing s with
  | nil =>
      cases hok
      exact ⟨[], .nil _, rfl⟩
  | cons ev events ih =>
      rw [List.foldlM_cons] at hok
      rcases exists_of_bind_ok hok with ⟨t, hevent, hrest⟩
      have hreachable := reachable_of_loop hs
      rcases (handleEvent_run hreachable hfresh.1 hevent).run with ⟨us, hus⟩
      have hgrown := run_closed_length hreachable hus
      have hstep : LoopStep s ev t := ⟨hfresh.1, handleEvent_rebase hlater hevent⟩
      rcases ih (hs.step hstep) (hlater.trans hgrown) (hfresh.2 t hevent) hrest with
        ⟨ts, hts, rfl⟩
      exact ⟨_, .cons hstep hts, rfl⟩

/-- Rounds that end without a fault are a run over the events they deliver. -/
theorem runRounds_run (hs : LoopState s) (hfresh : FreshRounds rounds s)
    (hok : runRounds rounds s = .ok s') :
    ∃ ts, Run LoopStep s ts s' ∧ ts.map Transition.event = delivered rounds := by
  induction rounds generalizing s with
  | nil =>
      cases hok
      exact ⟨[], .nil _, rfl⟩
  | cons round rounds ih =>
      rcases round with ⟨keepRunning, wait⟩
      cases keepRunning with
      | false =>
          cases hok
          exact ⟨[], .nil _, rfl⟩
      | true =>
          cases wait with
          | interrupted => exact ih hs hfresh hok
          | failed =>
              cases hok
              exact ⟨[], .nil _, rfl⟩
          | ready events =>
              rcases exists_of_bind_ok hok with ⟨t, hbatch, hrest⟩
              rcases foldlM_handleEvent_run hs le_rfl hfresh.1 hbatch with ⟨ts, hts, rfl⟩
              rcases ih (hs.run hts) (hfresh.2 t hbatch) hrest with ⟨us, hus, hevents⟩
              refine ⟨_, hts.append hus, ?_⟩
              rw [List.map_append, hevents]
              rfl

/-- The events of a run can be delivered one by one. -/
theorem runRounds_single {ts : List (Transition ChatServer ReadyEvent)}
    (hrun : Run LoopStep s ts s') :
    runRounds (ts.map fun t => Round.single t.event) s = .ok s' := by
  induction hrun with
  | nil => rfl
  | @cons s t s' ev ts hstep _ ih =>
      have hbatch : s.handleBatch [ev] = .ok t := by
        rw [handleBatch, List.foldlM_cons, hstep.2]
        rfl
      simp only [List.map_cons, runRounds, Round.single, Bool.not_true, Bool.false_eq_true,
        if_false, hbatch, bind, Except.bind]
      exact ih

/-- The loop does not choose what an event does. -/
theorem loopStep_functional {ev : ReadyEvent} {t t' : ChatServer} (h : LoopStep s ev t)
    (h' : LoopStep s ev t') : t = t' :=
  Except.ok.inj (h.2.symm.trans h'.2)

end Rounds

/-- For all rounds of the outer loop from start-up that end without a fault: the events that
were delivered, each in a batch of its own and without interruptions, end in the same state
and not in a fault either; and so does every other way to cut these events into batches with
interruptions in between, if it ends without a fault. -/
theorem batching_unobservable {rounds : List Round} {s : ChatServer}
    (hfresh : FreshRounds rounds .started) (hok : runRounds rounds .started = .ok s) :
    runRounds ((delivered rounds).map Round.single) .started = .ok s ∧
      ∀ rounds' s', FreshRounds rounds' .started → delivered rounds' = delivered rounds →
        runRounds rounds' .started = .ok s' → s' = s := by
  rcases runRounds_run (.refl _) hfresh hok with ⟨ts, hts, hevents⟩
  constructor
  · rw [← hevents, List.map_map]
    exact runRounds_single hts
  · intro rounds' s' hfresh' hsame hok'
    rcases runRounds_run (.refl _) hfresh' hok' with ⟨us, hus, hevents'⟩
    refine hus.eq_of_events (fun _ _ _ _ => loopStep_functional) hts ?_
    rw [hevents', hevents, hsame]

/-- Two clients name themselves in one batch, and a signal ends the loop. -/
def bursts : List Round :=
  [⟨true, .ready [.server [.connection 5 true true, .connection 6 true true, .wouldBlock]]⟩,
    ⟨true, .interrupted⟩, ⟨true, .ready [.sends 5 (str "ann\n"), .sends 6 (str "bob\n")]⟩,
    ⟨false, .interrupted⟩]

theorem bursts_unobservable : ∃ s, runRounds bursts .started = .ok s ∧
    runRounds ((delivered bursts).map Round.single) .started = .ok s := by
  have hfresh : FreshRounds bursts .started := by
    refine ⟨⟨?_, fun _ _ => trivial⟩, fun _ _ => ⟨?_, fun _ _ => trivial⟩⟩
    · decide
    · exact ⟨trivial, fun _ _ => ⟨trivial, fun _ _ => trivial⟩⟩
  have hok : (runRounds bursts .started).isOk = true := by decide +kernel
  cases hrun : runRounds bursts .started with
  | error fault =>
      rw [hrun] at hok
      cases hok
  | ok s => exact ⟨s, rfl, (batching_unobservable hfresh hrun).1⟩

end EpollChat
