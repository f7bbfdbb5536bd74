import EpollChat.Command.Grammar
import EpollChat.Library.Outcome
import EpollChat.Server.Profile

/-!
# A join that fails

A request to join a protected room prepares the client for the password: it changes
the state and {lit}`connected_room_`.  A line that is not the password, or comes after
the room was deleted, takes the state back, but not {lit}`connected_room_`.

Main results:

- Theorem {lit}`answered_ownOutputOnly`: an answer touches nothing but the client.
- Theorem {lit}`failed_join_iff`: a failed join leaves its client as it was exactly when
  the client had asked for the same room before.
-/

namespace EpollChat

open ChatServer

/-- A step changed nothing in the rooms and nothing of any other client, and appended
text to the output of its own client. -/
structure OwnOutputOnly (s : ChatServer) (client : Fd) (s' : ChatServer) : Prop where
  rooms : s'.rooms = s.rooms
  others : ∀ fd, fd ≠ client → s'.clients.lookup fd = s.clients.lookup fd
  own : ∃ c c' text, s.clients.lookup client = some c ∧ s'.clients.lookup client = some c' ∧
    c'.fd = c.fd ∧ c'.inBuffer = c.inBuffer ∧ c'.outBuffer = c.outBuffer ++ text

/-- A failed join, with its request from {lit}`s₀` to {lit}`s₁` and the denied line
from {lit}`s₂` to {lit}`s₃`, is a no-op for its client. -/
structure JoinUndone (client : Fd) (s₀ s₁ s₂ s₃ : ChatServer) : Prop where
  profile : s₃.profileOf client = s₀.profileOf client
  request : OwnOutputOnly s₀ client s₁
  denial : OwnOutputOnly s₂ client s₃

section Requests

variable {s s' : ChatServer} {client : Fd} {c c' : Session} {line r : Str}

/-- A field update that keeps the buffers. -/
def KeepsBuffers (f : Session → Session) : Prop :=
  ∀ c, (f c).fd = c.fd ∧ (f c).inBuffer = c.inBuffer ∧ (f c).outBuffer = c.outBuffer

theorem chat_keepsBuffers : KeepsBuffers Session.chat :=
  fun _ => ⟨rfl, rfl, rfl⟩

theorem prompt_keepsBuffers (state : ClientState) (roomName : Str) :
    KeepsBuffers fun c => c.prompt state roomName :=
  fun _ => ⟨rfl, rfl, rfl⟩

/-- An answer touches nothing but the client. -/
theorem answered_ownOutputOnly (hc : s.clients.lookup client = some c) {f : Session → Session}
    (hf : KeepsBuffers f) (msg : Str) :
    OwnOutputOnly s client ((s.noted client line).answered client f msg) where
  rooms := rfl
  others fd hne := by
    rw [answered, queueMessage_lookup, if_neg hne, updateClient_lookup, if_neg hne, noted,
      updateClient_lookup, if_neg hne]
  own := by
    rcases hf (c.noteLine line) with ⟨hfd, hin, hout⟩
    refine ⟨c, _, msg, hc, answered_lookup_self (noted_lookup_self hc line) f msg, ?_, ?_, ?_⟩
    · rw [Session.queueMessage_fd, hfd]
      rfl
    · rw [Session.queueMessage_inBuffer, hin]
      rfl
    · rw [Session.queueMessage_outBuffer, hout]
      rfl

/-- A request to join that ends in the password state is the prompt of a protected
room. -/
theorem request_prompted (hc : s.clients.lookup client = some c) (hchat : c.state = .stateChat)
    (hok : s.processMessage client (str "/join " ++ r) = .ok s')
    (hc' : s'.clients.lookup client = some c') (hprompted : c'.state = .stateEnterRoomPassword) :
    s' = (s.noted client (str "/join " ++ r)).answered client
      (fun c => c.prompt .stateEnterRoomPassword r) enterPasswordPrompt := by
  have hnoted := noted_lookup_self hc (str "/join " ++ r)
  have hstate : ∀ p, s'.profileOf client = some p → p.state = .stateEnterRoomPassword := by
    intro p hp
    rw [profileOf_eq hc'] at hp
    cases hp
    exact hprompted
  have hnochat : ∀ p, s'.profileOf client = some p → p.state ≠ .stateChat := by
    intro p hp
    rw [hstate p hp]
    simp
  by_cases hr : r = []
  · rw [hr, processMessage_unknown hc hchat rfl] at hok
    rw [← Except.ok.inj hok] at hnochat
    exact absurd hchat (hnochat _ ((profileOf_noted _).trans (profileOf_eq hc)))
  rw [processMessage_join hc hchat (parse_of_grammar (.joinRoom r hr))] at hok
  have hs' := (Except.ok.inj hok).symm
  unfold joinRequested at hs'
  split_ifs at hs'
  · rw [hs'] at hnochat
    exact absurd hchat (hnochat _ (profileOf_answered hnoted id _))
  · cases hroom : (s.noted client (str "/join " ++ r)).rooms.lookup r with
    | none =>
        rw [hroom] at hs'
        rw [hs'] at hstate
        have hsetup := hstate _ (profileOf_answered hnoted _ _)
        cases hsetup
    | some room =>
        simp only [hroom] at hs'
        by_cases hpassword : room.password = []
        · rw [if_pos hpassword] at hs'
          rw [hs'] at hnochat
          exact absurd rfl (hnochat _ (profileOf_joined_chat hnoted r hchat))
        · rw [if_neg hpassword] at hs'
          exact hs'

end Requests

/-- For every reachable state, every client that chats and every request of it to join
a room that puts it into the password state, whatever happens before its next line as
long as it stays connected: if that line does not admit it, the two lines touched
nothing but the client and appended text to its output, and it has its state, nickname
and both rooms back exactly when the room it asked for was already in its
{lit}`connected_room_`. -/
theorem failed_join_iff {s₀ s₁ s₂ : ChatServer} (hs : ReachableState s₀) {client : Fd}
    {c c₁ : Session} (hc : s₀.clients.lookup client = some c) (hchat : c.state = .stateChat)
    {r : Str} (hjoin : s₀.processMessage client (str "/join " ++ r) = .ok s₁)
    (hc₁ : s₁.clients.lookup client = some c₁) (hprompted : c₁.state = .stateEnterRoomPassword)
    {ts : List (Transition ChatServer Event)} (hrun : Run Step s₁ ts s₂)
    (hwait : ∀ t ∈ ts, t.LeavesWaiting client) {answer : Str}
    (hdenied : ∀ room, s₂.rooms.lookup r = some room → room.password ≠ answer) :
    ∃ s₃, s₂.processMessage client answer = .ok s₃ ∧
      (JoinUndone client s₀ s₁ s₂ s₃ ↔ c.connectedRoom = r) := by
  have hs₁ := request_prompted hc hchat hjoin hc₁ hprompted
  have hstep : Step s₀ (.line client (str "/join " ++ r)) s₁ :=
    step_iff.2 ⟨AList.mem_of_lookup hc, hjoin⟩
  -- the waiting client has the profile of the prompt
  have hprofile₁ : s₁.profileOf client =
      some { c.profile with state := .stateEnterRoomPassword, connectedRoom := r } := by
    rw [hs₁, profileOf_answered (noted_lookup_self hc _)]
    rfl
  have hprofile₂ := profileOf_of_waiting (hs.step hstep) hrun hwait hprofile₁
  rcases Option.map_eq_some_iff.1 hprofile₂ with ⟨c₂, hc₂, hfields⟩
  have hstate₂ : c₂.state = .stateEnterRoomPassword := congrArg Profile.state hfields
  have hroom₂ : c₂.connectedRoom = r := congrArg Profile.connectedRoom hfields
  rw [← hroom₂] at hdenied
  rcases processMessage_denied hc₂ hstate₂ hdenied with ⟨msg, hanswer⟩
  refine ⟨_, hanswer, ?_⟩
  have hprofile₃ : ((s₂.noted client answer).answered client Session.chat msg).profileOf client =
      some { c.profile with connectedRoom := r } := by
    rw [profileOf_answered (noted_lookup_self hc₂ _)]
    change some { c₂.profile with state := .stateChat } = _
    rw [hfields, ← hchat]
    rfl
  have hback : s₀.profileOf client = some c.profile := profileOf_eq hc
  constructor
  · intro hundone
    have hsame := hundone.profile
    rw [hprofile₃, hback] at hsame
    exact (congrArg Profile.connectedRoom (Option.some.inj hsame)).symm
  · intro hconnected
    refine ⟨?_, ?_, answered_ownOutputOnly hc₂ chat_keepsBuffers msg⟩
    · rw [hprofile₃, hback, ← hconnected]
      rfl
    · rw [hs₁]
      exact answered_ownOutputOnly hc (prompt_keepsBuffers _ r) _

/-- One client founds a protected room, another one stays in the lobby. -/
def founded : List Event :=
  [.accept 5 true true, .accept 6 true true, .line 5 (str "ann"), .line 6 (str "eve"),
    .line 5 (str "/join den"), .line 5 (str "secret")]

/-- The second client has failed to enter the room once. -/
def failedOnce : List Event :=
  founded ++ [.line 6 (str "/join den"), .line 6 (str "guess")]

/-- A second failed join of the same room, with a message of the other client in
between. -/
theorem second_failure_undone : ∃ s₁ s₂ s₃,
    (ChatServer.after failedOnce).processMessage 6 (str "/join den") = .ok s₁ ∧
    s₁.processMessage 5 (str "hi") = .ok s₂ ∧ s₂.processMessage 6 (str "guess") = .ok s₃ ∧
    JoinUndone 6 (.after failedOnce) s₁ s₂ s₃ := by
  have hbefore : (ChatServer.after failedOnce).profileOf 6 =
      some ⟨.stateChat, str "eve", lobby, str "den"⟩ := by decide +kernel
  have hlines : ((ChatServer.after failedOnce).processMessage 6 (str "/join den")).bind (fun s₁ =>
      (s₁.processMessage 5 (str "hi")).map fun s₂ => ((s₁.profileOf 6).map Profile.state,
        decide (5 ∈ s₁.clients), decide (6 ∈ s₂.clients),
        (s₂.rooms.lookup (str "den")).map Room.password)) =
      .ok (some .stateEnterRoomPassword, true, true, some (str "secret")) := by decide +kernel
  rcases Option.map_eq_some_iff.1 hbefore with ⟨c, hc, hfields⟩
  rcases exists_of_bind_ok hlines with ⟨s₁, hjoin, hrest⟩
  rcases exists_of_map_ok hrest with ⟨s₂, hsaid, hvalues⟩
  simp only [Prod.mk.injEq, decide_eq_true_eq] at hvalues
  rcases hvalues with ⟨hstate, hann, heve, hpassword⟩
  rcases Option.map_eq_some_iff.1 hstate with ⟨p, hp, hprompted⟩
  rcases Option.map_eq_some_iff.1 hp with ⟨c₁, hc₁, rfl⟩
  have hstep : Step s₁ (.line 5 (str "hi")) s₂ := step_iff.2 ⟨hann, hsaid⟩
  have hwait : ∀ t ∈ [(⟨s₁, .line 5 (str "hi"), s₂⟩ : Transition ChatServer Event)],
      t.LeavesWaiting 6 := by
    intro t ht
    rw [List.mem_singleton.1 ht]
    refine ⟨fun line he => ?_, heve⟩
    cases he
  have hdenied : ∀ room, s₂.rooms.lookup (str "den") = some room → room.password ≠ str "guess" := by
    intro room hroom hguess
    rw [hroom, Option.map_some, hguess] at hpassword
    exact absurd hpassword (by decide)
  rcases failed_join_iff (reachable_after failedOnce) hc (congrArg Profile.state hfields) hjoin hc₁
    hprompted (.single hstep) hwait hdenied with ⟨s₃, hanswer, hiff⟩
  exact ⟨s₁, s₂, s₃, hjoin, hsaid, hanswer, hiff.2 (congrArg Profile.connectedRoom hfields)⟩

/-- A client that is denied a room for the first time keeps its name in
{lit}`connected_room_`. -/
theorem first_failure_not_undone : ∃ s₁ s₃, ReachableState (.after founded) ∧
    (ChatServer.after founded).profileOf 6 = some ⟨.stateChat, str "eve", lobby, []⟩ ∧
    (ChatServer.after founded).processMessage 6 (str "/join den") = .ok s₁ ∧
    s₁.profileOf 6 = some ⟨.stateEnterRoomPassword, str "eve", lobby, str "den"⟩ ∧
    (s₁.rooms.lookup (str "den")).map Room.password = some (str "secret") ∧
    s₁.processMessage 6 (str "guess") = .ok s₃ ∧
    s₃.profileOf 6 = some ⟨.stateChat, str "eve", lobby, str "den"⟩ ∧
    ¬JoinUndone 6 (.after founded) s₁ s₁ s₃ := by
  have hbefore : (ChatServer.after founded).profileOf 6 =
      some ⟨.stateChat, str "eve", lobby, []⟩ := by decide +kernel
  have hlines : ((ChatServer.after founded).processMessage 6 (str "/join den")).bind (fun s₁ =>
      (s₁.processMessage 6 (str "guess")).map fun s₃ => (s₁.profileOf 6,
        (s₁.rooms.lookup (str "den")).map Room.password, s₃.profileOf 6)) =
      .ok (some ⟨.stateEnterRoomPassword, str "eve", lobby, str "den"⟩, some (str "secret"),
        some ⟨.stateChat, str "eve", lobby, str "den"⟩) := by decide +kernel
  rcases exists_of_bind_ok hlines with ⟨s₁, hjoin, hrest⟩
  rcases exists_of_map_ok hrest with ⟨s₃, hanswer, hfields⟩
  simp only [Prod.mk.injEq] at hfields
  rcases hfields with ⟨hprompted, hpassword, hdenied⟩
  refine ⟨s₁, s₃, reachable_after founded, hbefore, hjoin, hprompted, hpassword, hanswer, hdenied,
    ?_⟩
  intro hundone
  have hsame := hundone.profile
  rw [hdenied, hbefore] at hsame
  exact absurd hsame (by decide)

end EpollChat
