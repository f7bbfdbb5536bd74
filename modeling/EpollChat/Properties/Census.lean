import Mathlib.Algebra.BigOperators.Ring.Finset
import EpollChat.Properties.Conversation

/-!
# The rooms as a whole

The reply to {lit}`/rooms` shows a number for every open room.  Together these are the
users that have a name: each is counted once, whatever rooms it has been in.  Once nobody is
left, no room remains either, and no password, so that those who come later find what the
first ones found.

Main results:

- Theorem {lit}`rooms_total`: the counters add up to the clients with a name.
- Theorem {lit}`fresh_start`: after the last client has left, the server does what it does
  after its start.
-/

namespace EpollChat

open ChatServer

/-! ## Counting everybody -/

section Totals

variable {s : ChatServer}

/-- The head count of a room counts its clients. -/
theorem population_eq_countVal (s : ChatServer) (r : Str) :
    s.hall.population r = s.clients.countVal fun c => c.room == r :=
  AList.countVal_mapVal fun _ _ _ => rfl

/-- A client has a name exactly if it is in an open room. -/
theorem named_iff_roomed (hacc : s.hall.Accounted) {fd : Fd} {c : Session}
    (hc : s.clients.lookup fd = some c) : c.state ≠ .stateNickname ↔ c.room ∈ s.rooms.keys := by
  have hp := hall_lookup_self hc
  have hledger : Ledger s.hall.population s.rooms := hacc.ledger
  have hnaming := (hacc.placed fd c.place hp).naming
  rw [← AList.mem_keys]
  constructor
  · intro hnamed
    have hroom : c.room ≠ [] := fun hnil => hnamed (hnaming.2 hnil)
    exact hledger.mem_iff.2 (Or.inr ⟨hroom, Hall.population_pos hp⟩)
  · intro hmem hnew
    have hroom : c.room = [] := hnaming.1 hnew
    rw [hroom] at hmem
    exact hledger.nil_notMem hmem

/-- In every reachable state the numbers that {lit}`/rooms` shows are the counters of the open
rooms, and add up to the number of clients that have a name. -/
theorem rooms_total (hs : ReachableState s) :
    s.roomsListMessage = roomsText s.headCounts ∧
      s.rooms.entries.map (fun e => e.2.userCount) = s.headCounts.map (fun e => (e.2 : Int)) ∧
      (s.rooms.entries.map fun e => e.2.userCount).sum =
        s.clients.countVal fun c => decide (c.state ≠ .stateNickname) := by
  have hacc := accounted_of_reachable hs
  have hcounted : s.rooms.entries.map (fun e => e.2.userCount) =
      (s.rooms.keys.map fun r => s.hall.population r).map Nat.cast := by
    rw [userCounts_eq hacc, headCounts, AList.keys, List.keys, List.map_map, List.map_map,
      List.map_map]
    simp only [population_hall]
    rfl
  refine ⟨roomsListMessage_eq hacc, userCounts_eq hacc, ?_⟩
  have hclass : (s.clients.countVal fun c => decide (c.room ∈ s.rooms.keys)) =
      s.clients.countVal fun c => decide (c.state ≠ .stateNickname) := by
    apply List.countP_congr
    intro e he
    have hiff := named_iff_roomed hacc (AList.lookup_of_mem_entries he)
    simpa using hiff.symm
  rw [hcounted, ← Nat.cast_list_sum]
  simp only [population_eq_countVal]
  have hkeys : s.rooms.keys.Nodup := s.rooms.nodupKeys
  rw [AList.sum_countVal (fun c : Session => c.room) s.clients hkeys, hclass]

/-- After the visit two clients are counted. -/
theorem visit_total :
    ((ChatServer.after visit).rooms.entries.map fun e => e.2.userCount).sum = 2 :=
  (rooms_total (reachable_after visit)).2.2.trans (by decide +kernel)

end Totals

/-! ## Starting again -/

section Empty

variable {s s' : ChatServer}

/-- A server without clients is what the service is at its start. -/
theorem recorded_of_empty (hs : ReachableState s) (hempty : ∀ fd, fd ∉ s.clients) :
    s.recorded = (.started, fun _ => []) := by
  have hledger : Ledger s.hall.population s.rooms := (accounted_of_reachable hs).ledger
  have hnone (fd : Fd) : s.clients.lookup fd = none := AList.lookup_eq_none.2 (hempty fd)
  have hclients : s.clients.entries = [] := by
    rw [List.eq_nil_iff_forall_not_mem]
    intro e he
    exact hempty e.1 (AList.mem_keys.2 (List.mem_map_of_mem he))
  have husers : s.service.users = ∅ := by
    apply AList.ext
    change s.clients.entries.map _ = []
    rw [hclients]
    rfl
  have hclosed (r : Str) (hr : r ≠ lobby) : s.rooms.lookup r = none := by
    rw [AList.lookup_eq_none, hledger.mem_iff]
    rintro (hlobby | ⟨_, hpos⟩)
    · exact hr hlobby
    · rw [population_eq_countVal, AList.countVal, hclients] at hpos
      exact Nat.lt_irrefl 0 hpos
  have hlookup (r : Str) : s.service.passwords.lookup r =
      (AList.insert lobby [] ∅ : AList fun _ : Str => Str).lookup r := by
    rw [service_passwords_lookup]
    by_cases hr : r = lobby
    · subst hr
      rcases AList.mem_iff_lookup.1 hledger.lobby_mem with ⟨room, hroom⟩
      rw [hroom, AList.lookup_insert, Option.map_some,
        (hledger lobby).lobbyOpen room hroom rfl]
    · rw [hclosed r hr, AList.lookup_insert_ne hr]
      rfl
  have hpasswords : s.service.passwords = AList.insert lobby [] ∅ := by
    have hperm : s.service.passwords.entries.Perm
        (AList.insert lobby [] ∅ : AList fun _ : Str => Str).entries := by
      apply List.lookup_ext (AList.nodupKeys _) (AList.nodupKeys _)
      intro r password
      change password ∈ s.service.passwords.lookup r ↔
        password ∈ (AList.insert lobby [] ∅ : AList fun _ : Str => Str).lookup r
      rw [hlookup]
    exact AList.ext (List.perm_singleton.1 hperm)
  have htexts : s.textsTo = fun _ => [] := by
    funext fd
    rw [textsTo, hnone]
    rfl
  exact Prod.ext (congrArg₂ Service.mk husers hpasswords) htexts

/-- Take a server whose last client has left, whatever has happened before.  For every
continuation of the run, the users and the open rooms with their passwords are those of a
service that was started at this point, and that is also what the clients are sent. -/
theorem fresh_start {ts : List (Transition ChatServer Turn)} (hs : Reachable TurnStep .started s)
    (hempty : ∀ fd, fd ∉ s.clients) (hrun : Run TurnStep s ts s') :
    s'.service = Service.after (ts.flatMap Transition.requests) ∧
      ∀ fd c, s'.clients.lookup fd = some c →
        c.written ++ c.outBuffer =
          (Service.transcript (ts.flatMap Transition.requests) fd).flatten := by
  have hrecorded := turns_recorded_from hs hrun
  rw [recorded_of_empty (drained_of_turn hs).1 hempty] at hrecorded
  rcases service_of_recorded hrecorded with ⟨hstate, htexts⟩
  refine ⟨hstate, fun fd c hc => ?_⟩
  rw [stream_eq_textsTo (drained_of_turn (hs.run hrun)).1 hc, htexts]

end Empty

/-- A client takes a name and hangs up. -/
def comeAndGo : List Turn :=
  [.ready (.server [.connection 5 true true, .wouldBlock]), .ready (.sends 5 (str "ann\n")),
    .ready (.client 5 ⟨false, false, false, true⟩ ⟨[], .wouldBlock⟩ .wouldBlock)]

def newcomer : List Turn :=
  [.ready (.server [.connection 6 true true, .wouldBlock]), .ready (.sends 6 (str "bob\n"))]

/-- After everybody has left a newcomer finds a new server. -/
theorem newcomer_fresh : ∃ c,
    (runEvents ChatServer.turnNext (.afterTurns comeAndGo) newcomer).clients.lookup 6 = some c ∧
      c.written ++ c.outBuffer = nicknamePrompt ++ joinedMessage (str "bob") lobby ++
        welcomeMessage (str "bob") := by
  have hkeys : (ChatServer.afterTurns comeAndGo).clients.keys = [] := by decide +kernel
  have hempty (fd : Fd) : fd ∉ (ChatServer.afterTurns comeAndGo).clients := by
    rw [AList.mem_keys, hkeys]
    exact List.not_mem_nil
  have hsome : ((runEvents ChatServer.turnNext (.afterTurns comeAndGo) newcomer).clients.lookup
      6).isSome = true := by decide +kernel
  have htold : (Service.transcript ((transitions ChatServer.turnNext (.afterTurns comeAndGo)
      newcomer).flatMap Transition.requests) 6).flatten = nicknamePrompt ++
        joinedMessage (str "bob") lobby ++ welcomeMessage (str "bob") := by decide +kernel
  rcases Option.isSome_iff_exists.1 hsome with ⟨c, hc⟩
  have hfresh := fresh_start ⟨_, run_turnTrace comeAndGo⟩ hempty
    (run_transitions ChatServer.turnNext (.afterTurns comeAndGo) newcomer)
  exact ⟨c, hc, (hfresh.2 6 c hc).trans htold⟩

end EpollChat
