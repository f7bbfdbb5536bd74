import EpollChat.Properties.Lines

/-!
# Users without a name

The read loop skips an empty line before it trims it, not after.  A line of spaces
is therefore handed on as an empty line, and an empty line becomes a nickname.

Main results:

- Theorem {lit}`Turn.handed_nil_iff`: a turn hands on an empty line exactly when one
  of its lines is blank.
- Theorem {lit}`noAnonymous_of_run`: as long as no line is blank, every client that
  has left the nickname state has a name, under which its disconnect is announced.
- Theorem {lit}`no_anonymous_iff`: a run hands on no empty line and leaves no user
  without a name exactly when none of its lines is blank.
-/

namespace EpollChat

open ChatServer

/-! ## Blank lines -/

/-- A nonempty line of which {lit}`trim_string` leaves nothing: between its outer
spaces, fewer than {lit}`2 ^ 31` on either side, stand no bytes, or a number of bytes
that is lost in the conversion to {lit}`int`.  With {lit}`2 ^ 31` or more spaces on one
side {lit}`trim_string` does not return: a counter overflows or {lit}`erase` throws. -/
def BlankLine (line : Str) : Prop :=
  line ≠ [] ∧ leading line < 2 ^ 31 ∧ trailing line < 2 ^ 31 ∧ 2 ^ 32 ∣ (trimmed line).length

instance (line : Str) : Decidable (BlankLine line) :=
  inferInstanceAs (Decidable (_ ∧ _))

/-- One of the lines that a turn completes is blank. -/
def Turn.HasBlankLine (s : ChatServer) (turn : Turn) : Prop :=
  ∃ frame ∈ turn.frames s, BlankLine (withoutCarriageReturn frame)

instance (s : ChatServer) (turn : Turn) : Decidable (turn.HasBlankLine s) :=
  inferInstanceAs (Decidable (∃ _ ∈ _, _))

/-- Below {lit}`2 ^ 31` bytes the blank lines are those of spaces only. -/
theorem blankLine_iff {line : Str} (hlen : line.length < 2 ^ 31) :
    BlankLine line ↔ line ≠ [] ∧ ∀ b ∈ line, b = space := by
  have hsplit := length_split line
  have hspaces : (trimmed line).length = 0 ↔ ∀ b ∈ line, b = space := by
    rw [List.length_eq_zero_iff, trimmed_eq_nil_iff]
  rw [← hspaces, BlankLine]
  constructor
  · rintro ⟨hne, _, _, hdvd⟩
    refine ⟨hne, Nat.eq_zero_of_dvd_of_lt hdvd ?_⟩
    omega
  · rintro ⟨hne, hzero⟩
    refine ⟨hne, ?_, ?_, ?_⟩
    · omega
    · omega
    · rw [hzero]
      exact Nat.dvd_zero _

/-- A frame hands on an empty line exactly when it is blank. -/
theorem nil_mem_lineOf_iff (frame : Str) :
    [] ∈ lineOf frame ↔ BlankLine (withoutCarriageReturn frame) := by
  rw [mem_lineOf, trimString_eq_nil_iff]
  rfl

/-- No line of a run has {lit}`2 ^ 31` spaces on one side. -/
theorem narrow_of_turn {s s' : ChatServer} {turn : Turn} (hs : TurnState s)
    (hstep : TurnStep s turn s') {frame : Str} (hframe : frame ∈ turn.frames s)
    (hlen : (withoutCarriageReturn frame).length < 2 ^ 63) :
    leading (withoutCarriageReturn frame) < 2 ^ 31 ∧
      trailing (withoutCarriageReturn frame) < 2 ^ 31 := by
  rcases trims_of_turn hs hstep hframe with ⟨line, hline⟩
  rw [← Nat.not_le, ← Nat.not_le, ← not_or]
  intro hwide
  rcases trimString_wide hlen hwide with ⟨e, he⟩
  rw [hline] at he
  cases he

/-- A turn hands on an empty line exactly when one of its lines is blank. -/
theorem Turn.handed_nil_iff {s s' : ChatServer} {turn : Turn} (hs : TurnState s)
    (hstep : TurnStep s turn s') : [] ∈ turn.handed s ↔ turn.HasBlankLine s := by
  rw [turn.handed_eq hs hstep, List.mem_flatMap]
  simp only [nil_mem_lineOf_iff, HasBlankLine]

/-! ## Names and announcements -/

/-- A user with a name, whose disconnect would be announced last to every other
client that chats. -/
structure ChatServer.Named (s : ChatServer) (client : Fd) (c : Session) : Prop where
  name : c.nickname ≠ []
  announced : ∃ s', s.disconnectClient client = .ok s' ∧
    ∀ fd cl, fd ≠ client → s.clients.lookup fd = some cl → cl.state = .stateChat →
      ∃ cl' ds, s'.clients.lookup fd = some cl' ∧
        cl'.queued = cl.queued ++ ds ++ [⟨.notification, c.nickname ++ str " left the server\n"⟩]

/-- Every client that has left the nickname state is a user with a name. -/
def ChatServer.NoAnonymous (s : ChatServer) : Prop :=
  ∀ client c, s.clients.lookup client = some c → c.state ≠ .stateNickname → s.Named client c

section Announcements

variable {s s' : ChatServer} {client : Fd} {c : Session}
variable {ts : List (Transition ChatServer Turn)}

/-- A client with a name is announced when it disconnects. -/
theorem named_of_nickname (hc : s.clients.lookup client = some c) (hfd : c.fd = client)
    (hname : c.nickname ≠ []) : s.Named client c where
  name := hname
  announced := by
    refine ⟨_, disconnectClient_eq hc hfd, ?_⟩
    intro fd cl hne hcl hchat
    rcases extends_hearLeft s c cl with ⟨ds, hds⟩
    have hqueued : (s.hearLeft c cl).queued = cl.queued ++ ds := by
      rw [hds]
      exact (cl.queueAll_frame ds).2.2.2.2.2.2.2
    have hstate : (s.hearLeft c cl).state = .stateChat := by rw [hearLeft_state, hchat]
    refine ⟨hearGone c (s.hearLeft c cl), ds, ?_, ?_⟩
    · rw [disconnected_lookup, if_neg hne, hcl]
      rfl
    · rw [hearGone, if_pos ⟨hname, hstate⟩, Session.queueMessage_queued, hqueued]

/-- The nickname of a client that has left the nickname state is a line it sent. -/
theorem nickname_of_line {L : Str → Prop} {line : Str} {p p' : Profile} (hline : L line)
    (hstep : p.Line line p') (hp : p.state ≠ .stateNickname → L p.nickname) :
    p'.state ≠ .stateNickname → L p'.nickname := by
  intro _
  cases hstep with
  | named => exact hline
  | settled room hstate => exact hp hstate
  | prompted state room hchat => exact hp (by simp [hchat])
  | resumed hstate => exact hp (by simp [hstate])
  | kept hchat => exact hp (by simp [hchat])

/-- As long as the loop hands on lines of a known kind, the nicknames are of this
kind. -/
theorem nickname_known {L : Str → Prop} (hs : Reachable (KnownStep L) .started s)
    (hc : s.clients.lookup client = some c) (hstate : c.state ≠ .stateNickname) : L c.nickname := by
  have hprofiles := (turn_profiles (P := fun p => p.state ≠ .stateNickname → L p.nickname)
    (fun hne => absurd rfl hne) (fun line p p' hline hstep => nickname_of_line hline hstep) hs).2
  exact hprofiles client c.profile (profileOf_eq hc) hstate

/-- A run without blank lines only reaches states in which every user has a name. -/
theorem noAnonymous_of_run (hrun : Run TurnStep .started ts s)
    (hlines : ∀ t ∈ ts, ¬t.event.HasBlankLine t.pre) : ∀ t ∈ ts, t.post.NoAnonymous := by
  have hknown : Run (KnownStep fun line => line ≠ []) .started ts s := by
    refine (hrun.restrict hlines).mono ?_
    rintro s turn s' ⟨hblank, hstep⟩
    refine ⟨?_, hstep⟩
    rintro frame hframe _ hline rfl
    exact hblank ⟨frame, hframe, (nil_mem_lineOf_iff frame).1 hline⟩
  intro t ht client c hc hstate
  have hreachable := (hrun.reachable_of_mem (.refl _) ht).2
  have hkeyed := keyed_of_reachable (reachable_of_turn hreachable) client c hc
  exact named_of_nickname hc hkeyed
    (nickname_known (hknown.reachable_of_mem (.refl _) ht).2 hc hstate)

end Announcements

/-- In every run of the event loop: no turn hands an empty line to
{lit}`process_message`, and every client that has left the nickname state has a name
under which its disconnect would be announced to all others that chat, if and only
if no turn completes a blank line.  A line with {lit}`2 ^ 31` or more spaces on one side is
in no run, since {lit}`trim_string` faults on it; see {lit}`narrow_of_turn`. -/
theorem no_anonymous_iff {ts : List (Transition ChatServer Turn)} {s : ChatServer}
    (hrun : Run TurnStep .started ts s) :
    (∀ t ∈ ts, [] ∉ t.event.handed t.pre ∧ t.post.NoAnonymous) ↔
      ∀ t ∈ ts, ¬t.event.HasBlankLine t.pre := by
  have hnil : ∀ t ∈ ts, [] ∈ t.event.handed t.pre ↔ t.event.HasBlankLine t.pre := fun t ht =>
    t.event.handed_nil_iff (hrun.reachable_of_mem (.refl _) ht).1 (hrun.step_of_mem ht)
  constructor
  · intro h t ht hblank
    exact (h t ht).1 ((hnil t ht).2 hblank)
  · intro h t ht
    exact ⟨fun hmem => h t ht ((hnil t ht).1 hmem), noAnonymous_of_run hrun h t ht⟩

/-- One client connects and sends the given bytes. -/
def oneClient (bytes : Str) : List Turn :=
  [.ready (.server [.connection 5 true true]), .ready (.sends 5 bytes)]

/-- A user that sends a name. -/
theorem ann_is_named :
    ((ChatServer.afterTurns (oneClient (str "ann\n"))).clients.lookup 5).map (fun c => c.nickname) =
        some (str "ann") ∧
      ∀ t ∈ ChatServer.turnTrace (oneClient (str "ann\n")),
        [] ∉ t.event.handed t.pre ∧ t.post.NoAnonymous :=
  ⟨by decide +kernel, (no_anonymous_iff (run_turnTrace _)).2 (by decide +kernel)⟩

/-- A user that sends two spaces is handed an empty line and chats without a name. -/
theorem spaces_are_a_name :
    ∃ t ∈ ChatServer.turnTrace (oneClient (str "  \n")),
      [] ∈ t.event.handed t.pre ∧ ¬t.post.NoAnonymous := by
  have hnameless : ∃ t ∈ ChatServer.turnTrace (oneClient (str "  \n")),
      [] ∈ t.event.handed t.pre ∧
        (t.post.clients.lookup 5).map (fun c => (c.state, c.nickname)) = some (.stateChat, []) := by
    decide +kernel
  rcases hnameless with ⟨t, ht, hempty, hfields⟩
  refine ⟨t, ht, hempty, fun hnamed => ?_⟩
  rcases Option.map_eq_some_iff.1 hfields with ⟨c, hc, hpair⟩
  rcases Prod.mk.inj hpair with ⟨hchat, hnil⟩
  exact (hnamed 5 c hc (by simp [hchat])).name hnil

end EpollChat
