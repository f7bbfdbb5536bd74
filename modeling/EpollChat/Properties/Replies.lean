import EpollChat.Command.Grammar
import EpollChat.Properties.Frame

/-!
# Replies

Every branch of {lit}`process_message` answers the client whose line it handles: with a
message of its own, or with the client's copy of what it broadcasts.  The one exception
is the command that the parser calls unknown, for which {lit}`execute` has no case.

Main results:

- Theorem {lit}`LineEffect.heard`: a line is answered, or is an unfinished command of a
  client that chats.
- Theorem {lit}`replied_iff`: a line is answered exactly when it is not such a command.
-/

namespace EpollChat

open ChatServer

/-- Something was queued to a client. -/
def Session.Heard (c c' : Session) : Prop :=
  ∃ d ds, c'.queued = c.queued ++ d :: ds

section Replies

variable {s s' t : ChatServer} {client : Fd} {c c' : Session} {line : Str}

/-- The queue of a client that has heard something at most. -/
theorem Session.Extends.prefix_queued (h : c.Extends c') : c.queued <+: c'.queued := by
  rcases h with ⟨ds, rfl⟩
  exact ⟨ds, (c.queueAll_frame ds).2.2.2.2.2.2.2.symm⟩

/-- Whoever is told something more has heard something. -/
theorem heard_queueMessage (h : c.queued <+: c'.queued) (origin : Origin) (msg : Str) :
    c.Heard (c'.queueMessage origin msg) := by
  rcases h with ⟨ds, hds⟩
  cases ds with
  | nil =>
      rw [List.append_nil] at hds
      exact ⟨_, [], by rw [Session.queueMessage_queued, hds]⟩
  | cons d ds => exact ⟨d, ds ++ [⟨origin, msg⟩], by simp [← hds]⟩

/-- Nothing new is nothing heard. -/
theorem not_heard_self (c : Session) : ¬c.Heard c := by
  rintro ⟨d, ds, h⟩
  simp at h

/-- The joining client hears itself arrive, if it chats. -/
theorem joined_queued (hc : s.clients.lookup client = some c) (newRoom : Str) :
    ∃ c', (s.joined client c newRoom).clients.lookup client = some c' ∧ c.queued <+: c'.queued ∧
      (c.state = .stateChat → c.Heard c') := by
  have hleft : c.queued <+: ((s.hearLeft c c).enterRoom newRoom).queued :=
    (extends_hearLeft s c c).prefix_queued
  refine ⟨_, joined_lookup_self hc newRoom, ?_, fun hchat => ?_⟩
  · exact hleft.trans (extends_broadcastTo _ _ _).prefix_queued
  · have hstate : ((s.hearLeft c c).enterRoom newRoom).state = .stateChat :=
      (hearLeft_state s c c).trans hchat
    have hroom : ((s.hearLeft c c).enterRoom newRoom).room = newRoom := rfl
    rw [broadcastTo, if_neg (not_not.mpr hstate), if_pos (Or.inr hroom)]
    exact heard_queueMessage hleft _ _

/-- An answer is heard. -/
theorem answered_heard (hc' : t.clients.lookup client = some c') (hqueued : c.queued <+: c'.queued)
    {f : Session → Session} (hf : ∀ cl, (f cl).queued = cl.queued) (msg : Str) :
    ∃ c'', (t.answered client f msg).clients.lookup client = some c'' ∧ c.Heard c'' := by
  refine ⟨_, answered_lookup_self hc' f msg, heard_queueMessage ?_ _ _⟩
  rwa [hf]

/-- A line is answered, or is an unfinished command of a client that chats. -/
theorem LineEffect.heard (h : LineEffect s client c line s')
    (hc : s.clients.lookup client = some c) :
    (c.state = .stateChat ∧ Unfinished line) ∨
      ∃ c', s'.clients.lookup client = some c' ∧ c.Heard c' := by
  have hreply : ∀ f : Session → Session, (∀ cl, (f cl).queued = cl.queued) → ∀ msg,
      ∃ c', (s.answered client f msg).clients.lookup client = some c' ∧ c.Heard c' :=
    fun f hf msg => answered_heard hc List.prefix_rfl hf msg
  cases h with
  | ignored hstate hparse => exact Or.inl ⟨hstate, parse_unknown_iff.1 hparse⟩
  | named hstate =>
      right
      have hnamed := named_lookup_self hc line
      rcases joined_queued hnamed lobby with ⟨c', hc', hqueued, _⟩
      exact answered_heard hc' hqueued (fun _ => rfl) _
  | passwordSet hstate =>
      right
      rcases joined_queued hc c.connectedRoom with ⟨c', hc', hqueued, _⟩
      exact answered_heard (t := (s.joined client c c.connectedRoom).updateRoom c.connectedRoom _)
        (f := Session.chat) hc' hqueued (fun _ => rfl) _
  | admitted hstate room hroom hpassword =>
      right
      rcases joined_queued hc c.connectedRoom with ⟨c', hc', hqueued, _⟩
      exact answered_heard (f := Session.chat) hc' hqueued (fun _ => rfl) _
  | walkedIn hstate target hparse htarget hother room hroom hpassword =>
      right
      rcases joined_queued hc target with ⟨c', hc', _, hheard⟩
      exact ⟨c', hc', hheard hstate⟩
  | backToLobby hstate hparse hroom =>
      right
      rcases joined_queued hc lobby with ⟨c', hc', _, hheard⟩
      exact ⟨c', hc', hheard hstate⟩
  | said hstate hparse =>
      right
      refine ⟨_, (broadcast_lookup _ _ client).trans (congrArg _ hc), ?_⟩
      rw [broadcastTo, if_neg (not_not.mpr hstate), if_pos (Or.inr rfl)]
      exact heard_queueMessage List.prefix_rfl _ _
  | whispered hstate target text hparse fd cl hfound =>
      right
      rcases (hears_queueMessage (privateMessageFrom c.nickname text)).lookup hc with ⟨ds, hds⟩
      rw [← answered_id]
      exact answered_heard hds (Session.Extends.prefix_queued ⟨ds, rfl⟩) (fun _ => rfl) _
  | roomDeleted => exact Or.inr (hreply Session.chat (fun _ => rfl) _)
  | refused => exact Or.inr (hreply Session.chat (fun _ => rfl) _)
  | notFound => exact Or.inr (hreply _ (fun _ => rfl) _)
  | alreadyInRoom => exact Or.inr (hreply _ (fun _ => rfl) _)
  | createPrompted hstate target =>
      exact Or.inr (hreply (fun c => c.prompt _ target) (fun _ => rfl) _)
  | enterPrompted hstate target =>
      exact Or.inr (hreply (fun c => c.prompt _ target) (fun _ => rfl) _)
  | inLobby => exact Or.inr (hreply _ (fun _ => rfl) _)
  | onlineListed => exact Or.inr (hreply _ (fun _ => rfl) _)
  | roomsListed => exact Or.inr (hreply _ (fun _ => rfl) _)

end Replies

/-- For every state, every client and every line: the line is processed, and something
is queued to the client meanwhile if and only if the client does not chat or the line
is not an unfinished command. -/
theorem replied_iff {s : ChatServer} {client : Fd} {c : Session}
    (hc : s.clients.lookup client = some c) (line : Str) :
    ∃ s' c', s.processMessage client line = .ok s' ∧ s'.clients.lookup client = some c' ∧
      ((∃ d ds, c'.queued = c.queued ++ d :: ds) ↔ ¬(c.state = .stateChat ∧ Unfinished line)) := by
  by_cases hunfinished : c.state = .stateChat ∧ Unfinished line
  · refine ⟨_, _, processMessage_unknown hc hunfinished.1 (parse_unknown_iff.2 hunfinished.2),
      noted_lookup_self hc line, ?_⟩
    exact iff_of_false (not_heard_self c) (not_not.mpr hunfinished)
  · rcases processMessage_effect hc line with ⟨s', hs', heffect⟩
    rcases heffect.heard (noted_lookup_self hc line) with hignored | ⟨c', hc', hheard⟩
    · exact absurd hignored hunfinished
    · exact ⟨s', c', hs', hc', iff_of_true hheard hunfinished⟩

/-- A client that asks for the rooms is answered. -/
theorem visit_replied : ∃ s' c c', (ChatServer.after visit).clients.lookup 5 = some c ∧
    (ChatServer.after visit).processMessage 5 (str "/rooms") = .ok s' ∧
    s'.clients.lookup 5 = some c' ∧ ∃ d ds, c'.queued = c.queued ++ d :: ds := by
  have hann : ((ChatServer.after visit).clients.lookup 5).isSome = true := by decide +kernel
  rcases Option.isSome_iff_exists.1 hann with ⟨c, hc⟩
  rcases replied_iff hc (str "/rooms") with ⟨s', c', hs', hc', hiff⟩
  refine ⟨s', c, c', hc, hs', hc', hiff.2 ?_⟩
  rintro ⟨_, hunfinished⟩
  exact absurd (parse_unknown_iff.2 hunfinished) (by decide +kernel)

/-- A private message without a text is dropped without a reply. -/
theorem msg_without_text : ∃ c s' c', ReachableState (.after visit) ∧
    (ChatServer.after visit).clients.lookup 5 = some c ∧
    (ChatServer.after visit).processMessage 5 (str "/msg bob") = .ok s' ∧
    s'.clients.lookup 5 = some c' ∧ ¬∃ d ds, c'.queued = c.queued ++ d :: ds := by
  have hann : ((ChatServer.after visit).clients.lookup 5).map (fun c => c.state) =
      some .stateChat := by decide +kernel
  rcases Option.map_eq_some_iff.1 hann with ⟨c, hc, hchat⟩
  refine ⟨c, _, _, reachable_after visit, hc,
    processMessage_unknown hc hchat (by decide +kernel),
    noted_lookup_self hc _, not_heard_self c⟩

end EpollChat
