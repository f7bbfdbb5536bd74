import EpollChat.Properties.Stream

/-!
# Results of system calls

Two functions treat a result that only asks for patience like a failure.
{lit}`handle_write` reports a write that would block as a failed one, so the client is
disconnected; {lit}`accept_new_client` stops at any error of {lit}`accept`, although the
listening socket is registered with {lit}`EPOLLET` and connections may still be waiting.

Main results:

- Theorem {lit}`write_handled_iff`: a write event removes its client without a failure
  exactly when something was buffered and the write would have blocked.
- Theorem {lit}`accept_drains_iff`: the accept loop drains the backlog exactly when no
  {lit}`accept` fails before it would block.
-/

namespace EpollChat

open ChatServer

/-! ## Write events -/

/-- A write that would block is not treated as a failure. -/
structure WriteHandled (s : ChatServer) (client : Fd) (c : Session) (result : WriteResult)
    (s' : ChatServer) : Prop where
  /-- The client is removed only if {lit}`write` was called and failed. -/
  removed : client ∉ s'.clients → c.outBuffer ≠ [] ∧ result = .failed
  /-- If {lit}`write` was called and would have blocked, nothing happens. -/
  blocked : c.outBuffer ≠ [] → result = .wouldBlock →
    s'.rooms = s.rooms ∧ (∀ fd, s'.queuedTo fd = s.queuedTo fd) ∧
    ∃ c', s'.clients.lookup client = some c' ∧ c'.outBuffer = c.outBuffer ∧
      c'.wantWrite = c.wantWrite ∧ c'.state = c.state ∧ c'.room = c.room

/-- In every reachable state, for every client and every result of {lit}`write`: the
write event is handled, and a write that would block is not treated as a failure
exactly when there is no such write. -/
theorem write_handled_iff {s : ChatServer} (hs : ReachableState s) {client : Fd} {c : Session}
    (hc : s.clients.lookup client = some c) (result : WriteResult) :
    ∃ s', s.handleClientWrite client result = .ok s' ∧
      (WriteHandled s client c result s' ↔ ¬(c.outBuffer ≠ [] ∧ result = .wouldBlock)) := by
  refine ⟨_, handleClientWrite_eq hc (keyed_of_reachable hs client c hc) result, ?_⟩
  constructor
  · rintro hhandled ⟨hbuffer, rfl⟩
    rw [if_neg (by simp [Session.handleWrite_false_iff.2 ⟨hbuffer, Or.inr rfl⟩])] at hhandled
    have hgone : client ∉ ((s.wrote client c .wouldBlock).disconnected client
        (c.handleWrite .wouldBlock).2).clients := by
      rw [← AList.lookup_eq_none, disconnected_lookup, if_pos rfl]
    have hfailed := (hhandled.removed hgone).2
    cases hfailed
  · intro hblocked
    refine ⟨fun hgone => ?_, fun hbuffer hresult => absurd ⟨hbuffer, hresult⟩ hblocked⟩
    split at hgone <;> rename_i hok
    · exact absurd (AList.mem_of_lookup (wrote_lookup_self hc result)) hgone
    · rcases Session.handleWrite_false_iff.1 (Bool.not_eq_true _ ▸ hok) with
        ⟨hbuffer, hfailed | hresult⟩
      · exact ⟨hbuffer, hfailed⟩
      · exact absurd ⟨hbuffer, hresult⟩ hblocked

theorem visit_write_handled : ∃ s' c, (ChatServer.after visit).clients.lookup 5 = some c ∧
    (ChatServer.after visit).handleClientWrite 5 (.accepted 7) = .ok s' ∧
    WriteHandled (.after visit) 5 c (.accepted 7) s' := by
  have hann : ((ChatServer.after visit).clients.lookup 5).isSome = true := by decide +kernel
  rcases Option.isSome_iff_exists.1 hann with ⟨c, hc⟩
  rcases write_handled_iff (reachable_after visit) hc (.accepted 7) with ⟨s', hs', hiff⟩
  exact ⟨s', c, hc, hs', hiff.2 (by simp)⟩

/-- A client with pending output is removed when a write would block, and the other
one is told that it left. -/
theorem visit_write_blocked : ∃ s' c, ReachableState (.after visit) ∧
    (ChatServer.after visit).clients.lookup 5 = some c ∧ c.outBuffer ≠ [] ∧
    (ChatServer.after visit).handleClientWrite 5 .wouldBlock = .ok s' ∧ 5 ∉ s'.clients ∧
    s'.queuedTo 6 ≠ (ChatServer.after visit).queuedTo 6 ∧
    ¬WriteHandled (.after visit) 5 c .wouldBlock s' := by
  have hann : ((ChatServer.after visit).clients.lookup 5).map (fun c => c.outBuffer.isEmpty) =
      some false := by decide +kernel
  have hwrite : ((ChatServer.after visit).handleClientWrite 5 .wouldBlock).map (fun s' =>
      (decide (5 ∈ s'.clients), decide (s'.queuedTo 6 = (ChatServer.after visit).queuedTo 6))) =
      .ok (false, false) := by decide +kernel
  rcases Option.map_eq_some_iff.1 hann with ⟨c, hc, hbuffer⟩
  rcases exists_of_map_ok hwrite with ⟨s', hs', hpair⟩
  simp only [Prod.mk.injEq, decide_eq_false_iff_not] at hpair
  rcases hpair with ⟨hgone, hheard⟩
  refine ⟨s', c, reachable_after visit, hc, by simpa using hbuffer, hs', hgone, hheard, ?_⟩
  intro hhandled
  have hfailed := (hhandled.removed hgone).2
  cases hfailed

/-! ## The accept loop -/

/-- A new client, registered, before it has named itself, with the prompt queued. -/
structure Session.Welcomed (c : Session) : Prop where
  state : c.state = .stateNickname
  registered : c.interest.epollin = true
  prompted : c.queued = [⟨.direct, nicknamePrompt⟩]

section Accepts

variable {s : ChatServer} {results : List AcceptResult} {fd : Fd} {c : Session}

theorem acceptConnection_welcomed (s : ChatServer) (fd : Fd) :
    ∃ c, (s.acceptConnection fd true true).clients.lookup fd = some c ∧ c.Welcomed := by
  refine ⟨(Session.accepted fd).queueMessage .direct nicknamePrompt, ?_, ?_, ?_, ?_⟩
  · simp [acceptConnection, queueMessage_lookup]
  · rfl
  · rfl
  · rfl

/-- The accept loop leaves the clients alone that it finds. -/
theorem acceptNewClient_lookup (hc : s.clients.lookup fd = some c)
    (hfresh : FreshResults results s) :
    (acceptNewClient results s).1.clients.lookup fd = some c := by
  induction results generalizing s with
  | nil => exact hc
  | cons result results ih =>
      cases result with
      | wouldBlock => exact hc
      | failed => exact hc
      | connection fd' nonblocking added =>
          have hne : fd ≠ fd' := by
            rintro rfl
            exact hfresh.1 (AList.mem_of_lookup hc)
          exact ih ((acceptConnection_lookup_ne hne nonblocking added).trans hc) hfresh.2

/-- If no {lit}`accept` fails, every connection whose registration succeeds becomes a
client. -/
theorem acceptNewClient_welcomed (hblock : .wouldBlock ∉ results) (hfailed : .failed ∉ results)
    {rest : List AcceptResult} (hfresh : FreshResults (results ++ rest) s)
    (hfd : .connection fd true true ∈ results) :
    ∃ c, (acceptNewClient (results ++ rest) s).1.clients.lookup fd = some c ∧ c.Welcomed := by
  induction results generalizing s with
  | nil => cases hfd
  | cons result results ih =>
      rw [List.mem_cons, not_or] at hblock hfailed
      cases result with
      | wouldBlock => exact absurd rfl hblock.1
      | failed => exact absurd rfl hfailed.1
      | connection fd' nonblocking added =>
          rcases List.mem_cons.1 hfd with heq | hlater
          · cases heq
            rcases acceptConnection_welcomed s fd with ⟨c, hc, hwelcomed⟩
            have hkept := acceptNewClient_lookup hc hfresh.2
            exact ⟨c, hkept, hwelcomed⟩
          · exact ih hblock.2 hfailed.2 hfresh.2 hlater

/-- The accept loop asks for all results up to the one that would block exactly when
no {lit}`accept` fails before. -/
theorem acceptNewClient_rest_iff (hblock : .wouldBlock ∉ results) :
    (acceptNewClient (results ++ [.wouldBlock]) s).2 = [] ↔ .failed ∉ results := by
  induction results generalizing s with
  | nil => simp [acceptNewClient]
  | cons result results ih =>
      rw [List.mem_cons, not_or] at hblock
      cases result with
      | wouldBlock => exact absurd rfl hblock.1
      | failed => simp [acceptNewClient]
      | connection fd nonblocking added => simpa [acceptNewClient] using ih hblock.2

end Accepts

/-- For every state and all results of {lit}`accept` up to the first one that would
block: the loop returns only after that one, and every connection whose registration
succeeds is then a client with the prompt queued, if and only if no {lit}`accept`
fails before it. -/
theorem accept_drains_iff {s : ChatServer} {results : List AcceptResult}
    (hblock : .wouldBlock ∉ results) (hfresh : FreshResults (results ++ [.wouldBlock]) s) :
    ((acceptNewClient (results ++ [.wouldBlock]) s).2 = [] ∧
      ∀ fd, .connection fd true true ∈ results →
        ∃ c, (acceptNewClient (results ++ [.wouldBlock]) s).1.clients.lookup fd = some c ∧
          c.Welcomed) ↔
      .failed ∉ results := by
  constructor
  · intro hdrained
    exact (acceptNewClient_rest_iff hblock).1 hdrained.1
  · intro hfailed
    refine ⟨(acceptNewClient_rest_iff hblock).2 hfailed, fun fd hfd => ?_⟩
    exact acceptNewClient_welcomed hblock hfailed hfresh hfd

theorem two_connections_drain :
    (acceptNewClient ([.connection 5 false true, .connection 5 true true] ++ [.wouldBlock])
      .started).2 = [] := by
  have hfresh : FreshResults ([.connection 5 false true, .connection 5 true true] ++ [.wouldBlock])
      .started := by decide +kernel
  exact ((accept_drains_iff (by decide) hfresh).2 (by decide)).1

/-- A connection that was aborted before it is accepted hides the one behind it. -/
theorem aborted_connection_hides :
    (acceptNewClient ([.failed, .connection 5 true true] ++ [.wouldBlock]) .started).2 =
        [.connection 5 true true, .wouldBlock] ∧
      5 ∉ (acceptNewClient ([.failed, .connection 5 true true] ++ [.wouldBlock])
        .started).1.clients := by
  decide +kernel

end EpollChat
