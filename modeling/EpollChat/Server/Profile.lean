import EpollChat.Properties.Frame

/-!
# The state machine of one client

The four fields of a client that decide how its next line is treated change by its
own lines only.  Whatever the other clients do, and however often the client is
written to, one client sees a small state machine that is driven by its own lines.

Main results:

- Theorem {lit}`StepEffect.profileOf`: a step leaves the profile of a client alone,
  removes it, creates it, or takes a step of the state machine with a line.
- Theorem {lit}`forall_profiles`: what the state machine keeps, given what is known
  about the lines, holds of every client after every run.
-/

namespace EpollChat

open ChatServer

/-- The fields of a client that its lines change. -/
structure Profile where
  state : ClientState
  nickname : Str
  room : Str
  connectedRoom : Str
deriving DecidableEq

/-- The name, the state and the rooms of a client. -/
def Session.profile (c : Session) : Profile :=
  ⟨c.state, c.nickname, c.room, c.connectedRoom⟩

/-- The profile of a new connection. -/
def Profile.arrived : Profile :=
  ⟨.stateNickname, [], [], []⟩

/-- The profile after a completed move. -/
def Profile.settled (p : Profile) (room : Str) : Profile :=
  ⟨.stateChat, p.nickname, room, []⟩

/-- What a line can do to the profile of its client. -/
inductive Profile.Line (line : Str) (p : Profile) : Profile → Prop
  | named (hstate : p.state = .stateNickname) : Line line p ⟨.stateChat, line, lobby, []⟩
  | settled (room : Str) (hstate : p.state ≠ .stateNickname)
      (hroom : room = lobby ∨ room = p.connectedRoom ∨ parse line = .ok ⟨.joinRoom, room, []⟩) :
      Line line p (p.settled room)
  | prompted (state : ClientState) (room : Str) (hchat : p.state = .stateChat)
      (hstate : state.Prompting) (hparse : parse line = .ok ⟨.joinRoom, room, []⟩) :
      Line line p { p with state := state, connectedRoom := room }
  | resumed (hstate : p.state = .stateEnterRoomPassword) :
      Line line p { p with state := .stateChat }
  | kept (hchat : p.state = .stateChat) : Line line p p

namespace ChatServer

/-- The profile of a client, if there is such a client. -/
def profileOf (s : ChatServer) (fd : Fd) : Option Profile :=
  (s.clients.lookup fd).map Session.profile

variable {s s' : ChatServer} {client fd : Fd} {c : Session} {f : Session → Session}

theorem profileOf_eq (hc : s.clients.lookup fd = some c) : s.profileOf fd = some c.profile := by
  rw [profileOf, hc]
  rfl

/-! ### Updates that do not change a profile -/

theorem profile_queueMessage (cl : Session) (origin : Origin) (msg : Str) :
    (cl.queueMessage origin msg).profile = cl.profile := by
  simp [Session.profile]

theorem profile_broadcastTo (msg roomName : Str) (cl : Session) :
    (broadcastTo msg roomName cl).profile = cl.profile := by
  simp [Session.profile]

theorem profile_handleWrite (c : Session) (result : WriteResult) :
    (c.handleWrite result).2.profile = c.profile := by
  rw [Session.handleWrite_eq]
  rfl

/-- Queued texts do not change a profile. -/
theorem Hears.profileOf_eq (h : s.Hears s' fd) : s'.profileOf fd = s.profileOf fd := by
  apply h.map_lookup
  intro cl ds
  rcases cl.queueAll_frame ds with ⟨_, hstate, hnickname, _, hroom, hconnected, _⟩
  simp only [Session.profile, hstate, hnickname, hroom, hconnected]

/-- An assignment that keeps the profile of its client keeps all of them. -/
theorem profileOf_updateClient (hf : ∀ cl, s.clients.lookup client = some cl →
    (f cl).profile = cl.profile) : (s.updateClient client f).profileOf fd = s.profileOf fd :=
  AList.map_lookup_modify_eq hf fd

theorem profileOf_noted (line : Str) : (s.noted client line).profileOf fd = s.profileOf fd :=
  profileOf_updateClient fun _ _ => rfl

theorem profileOf_wrote (hc : s.clients.lookup client = some c) (result : WriteResult) :
    (s.wrote client c result).profileOf fd = s.profileOf fd := by
  apply profileOf_updateClient
  exact AList.forall_lookup hc (profile_handleWrite c result)

/-- A queued text leaves all profiles as they are. -/
theorem profileOf_queueMessage (msg : Str) :
    (s.queueMessage client msg).profileOf fd = s.profileOf fd :=
  (hears_queueMessage msg).profileOf_eq

/-- A broadcast leaves all profiles as they are. -/
theorem profileOf_broadcast (msg roomName : Str) :
    (s.broadcast msg roomName).profileOf fd = s.profileOf fd :=
  (hears_broadcast msg roomName).profileOf_eq

theorem profileOf_of_notMem (h : fd ∉ s.clients) : s.profileOf fd = none := by
  rw [profileOf, AList.lookup_eq_none.2 h]
  rfl

/-! ### Updates of the own profile -/

/-- After an answer the client has the profile assigned to it. -/
theorem profileOf_answered (hc : s.clients.lookup client = some c) (f : Session → Session)
    (msg : Str) : (s.answered client f msg).profileOf client = some (f c).profile := by
  rw [profileOf, answered_lookup_self hc, Option.map_some, profile_queueMessage]

/-- A move changes the two rooms of a profile. -/
theorem profileOf_joined (hc : s.clients.lookup client = some c) (newRoom : Str) :
    (s.joined client c newRoom).profileOf client =
      some { c.profile with room := newRoom, connectedRoom := [] } := by
  rw [profileOf, joined_lookup_self hc, Option.map_some, profile_broadcastTo]
  simp [Session.profile, Session.enterRoom]

/-- A client that joins a room while it chats is settled there. -/
theorem profileOf_joined_chat (hc : s.clients.lookup client = some c) (newRoom : Str)
    (hchat : c.state = .stateChat) :
    (s.joined client c newRoom).profileOf client = some (c.profile.settled newRoom) := by
  rw [profileOf_joined hc]
  simp [Profile.settled, Session.profile, hchat]

/-- A client that starts to chat in a room is settled there. -/
theorem profileOf_joined_answered (hc : s.clients.lookup client = some c) (newRoom msg : Str) :
    ((s.joined client c newRoom).answered client Session.chat msg).profileOf client =
      some (c.profile.settled newRoom) := by
  rw [profileOf_answered (joined_lookup_self hc newRoom)]
  simp [Profile.settled, Session.profile, Session.chat, Session.enterRoom]

/-- A client that is gone has no profile. -/
theorem profileOf_disconnected : (s.disconnected client c).profileOf client = none := by
  rw [profileOf, disconnected_lookup, if_pos rfl]
  rfl

/-- A new client has the profile of a new connection, if it is kept. -/
theorem profileOf_acceptConnection (hfresh : fd ∉ s.clients) (nonblocking added : Bool) :
    (s.acceptConnection fd nonblocking added).profileOf fd = none ∨
      (s.acceptConnection fd nonblocking added).profileOf fd = some .arrived := by
  unfold acceptConnection
  split
  · exact Or.inl (profileOf_of_notMem hfresh)
  · split
    · left
      simp [profileOf]
    · right
      rw [profileOf_queueMessage]
      simp only [profileOf, AList.lookup_insert]
      rfl

end ChatServer

/-! ## Steps -/

section Steps

variable {s s' : ChatServer} {client fd : Fd} {c : Session} {line : Str} {e : Event}

/-- A line takes its client through one step of the state machine. -/
theorem LineEffect.profileOf (h : LineEffect s client c line s')
    (hc : s.clients.lookup client = some c) :
    ∃ p, s'.profileOf client = some p ∧ c.profile.Line line p := by
  have hself := profileOf_eq hc
  have hreply : ∀ msg, c.state = .stateChat →
      ∃ p, (s.answered client id msg).profileOf client = some p ∧ c.profile.Line line p :=
    fun msg hchat => ⟨_, profileOf_answered hc id msg, .kept hchat⟩
  cases h with
  | named hstate =>
      have hnamed := named_lookup_self hc line
      refine ⟨_, ?_, .named hstate⟩
      rw [answered_id, profileOf_queueMessage, profileOf_joined hnamed]
      rfl
  | passwordSet hstate =>
      exact ⟨_, profileOf_joined_answered hc c.connectedRoom passwordSetMessage,
        .settled _ (by simp [Session.profile, hstate]) (Or.inr (Or.inl rfl))⟩
  | admitted hstate room hroom hpassword =>
      exact ⟨_, profileOf_joined_answered hc c.connectedRoom passwordSuccessMessage,
        .settled _ (by simp [Session.profile, hstate]) (Or.inr (Or.inl rfl))⟩
  | walkedIn hstate target hparse htarget hother room hroom hpassword =>
      exact ⟨_, profileOf_joined_chat hc target hstate,
        .settled _ (by simp [Session.profile, hstate]) (Or.inr (Or.inr hparse))⟩
  | backToLobby hstate hparse hroom =>
      exact ⟨_, profileOf_joined_chat hc lobby hstate,
        .settled _ (by simp [Session.profile, hstate]) (Or.inl rfl)⟩
  | roomDeleted hstate hroom => exact ⟨_, profileOf_answered hc _ _, .resumed hstate⟩
  | refused hstate room hroom hpassword => exact ⟨_, profileOf_answered hc _ _, .resumed hstate⟩
  | createPrompted hstate target hparse htarget hother hroom =>
      exact ⟨_, profileOf_answered hc _ _, .prompted _ target hstate (Or.inl rfl) hparse⟩
  | enterPrompted hstate target hparse htarget hother room hroom hpassword =>
      exact ⟨_, profileOf_answered hc _ _, .prompted _ target hstate (Or.inr rfl) hparse⟩
  | said hstate hparse => exact ⟨_, (profileOf_broadcast _ _).trans hself, .kept hstate⟩
  | whispered hstate target text hparse recipient cl hfound =>
      refine ⟨_, ?_, .kept hstate⟩
      rw [profileOf_queueMessage, profileOf_queueMessage, hself]
  | ignored hstate hparse => exact ⟨_, hself, .kept hstate⟩
  | notFound hstate => exact hreply _ hstate
  | alreadyInRoom hstate => exact hreply _ hstate
  | inLobby hstate => exact hreply _ hstate
  | onlineListed hstate => exact hreply _ hstate
  | roomsListed hstate => exact hreply _ hstate

/-- What a step can do to the profile of a client. -/
inductive ProfileStep (e : Event) (fd : Fd) : Option Profile → Option Profile → Prop
  | same (p : Option Profile) : ProfileStep e fd p p
  | gone (p : Option Profile) : ProfileStep e fd p none
  | arrived (nonblocking added : Bool) (he : e = .accept fd nonblocking added) :
      ProfileStep e fd none (some .arrived)
  | line (line : Str) (he : e = .line fd line) (p p' : Profile) (hline : p.Line line p') :
      ProfileStep e fd (some p) (some p')

/-- A step leaves the profiles of all clients but its subject alone. -/
theorem StepEffect.profileOf_other (h : StepEffect s e s') (hsubject : e.subject ≠ some fd) :
    s'.profileOf fd = s.profileOf fd := by
  cases hother : e.subject with
  | some a =>
      have hne : fd ≠ a := by
        rintro rfl
        exact hsubject hother
      exact (h.others hother hne).profileOf_eq
  | none =>
      cases h with
      | rehash clients rooms hclients hrooms =>
          simp only [ChatServer.profileOf, AList.perm_lookup hclients]
      | _ => cases hother

/-- Every step does one of these things to the profile of any client. -/
theorem StepEffect.profileOf (h : StepEffect s e s') (fd : Fd) :
    ProfileStep e fd (s.profileOf fd) (s'.profileOf fd) := by
  by_cases hsubject : e.subject = some fd
  · cases h with
    | accept client nonblocking added hfresh =>
        cases hsubject
        rw [profileOf_of_notMem hfresh]
        rcases profileOf_acceptConnection hfresh nonblocking added with hnone | hnew
        · rw [hnone]
          exact .same none
        · rw [hnew]
          exact .arrived nonblocking added rfl
    | line client line c _ hc heffect =>
        cases hsubject
        rcases heffect.profileOf (noted_lookup_self hc line) with ⟨p, hp, hline⟩
        rw [hp, profileOf_eq hc]
        exact .line line rfl _ p hline
    | wrote client result c hc hok =>
        rw [profileOf_wrote hc]
        exact .same _
    | dropped client result c hc hok =>
        cases hsubject
        rw [profileOf_disconnected]
        exact .gone _
    | disconnect client c hc =>
        cases hsubject
        rw [profileOf_disconnected]
        exact .gone _
    | buffer client inBuffer c hc =>
        have hkeep : (s.updateClient client fun c => { c with inBuffer := inBuffer }).profileOf fd =
            s.profileOf fd := profileOf_updateClient fun _ _ => rfl
        rw [hkeep]
        exact .same _
    | rehash => cases hsubject
  · rw [h.profileOf_other hsubject]
    exact .same _

end Steps

/-! ## Runs without lines of one client -/

/-- A transition that neither processes a line of a client nor removes it. -/
def Transition.LeavesWaiting (client : Fd) (t : Transition ChatServer Event) : Prop :=
  (∀ line, t.event ≠ .line client line) ∧ client ∈ t.post.clients

/-- While a client sends no line and stays connected, its profile stays. -/
theorem profileOf_of_waiting {s s' : ChatServer} {client : Fd} {p : Profile}
    {ts : List (Transition ChatServer Event)} (hs : ReachableState s) (hrun : Run Step s ts s')
    (hwait : ∀ t ∈ ts, t.LeavesWaiting client) (hp : s.profileOf client = some p) :
    s'.profileOf client = some p := by
  refine ((hrun.restrict hwait).invariant
    (I := fun s => ReachableState s ∧ s.profileOf client = some p) ?_ ⟨hs, hp⟩).2
  rintro s e s' ⟨hs, hp⟩ ⟨⟨hline, hstay⟩, hstep⟩
  refine ⟨hs.step hstep, ?_⟩
  have hprofile := (step_effect (keyed_of_reachable hs) hstep).profileOf client
  rw [hp] at hprofile
  generalize hafter : s'.profileOf client = after at hprofile
  cases hprofile with
  | same => rfl
  | gone =>
      rcases AList.mem_iff_lookup.1 hstay with ⟨c, hc⟩
      rw [profileOf_eq hc] at hafter
      cases hafter
  | line line he => exact absurd he (hline line)

/-! ## Runs with known lines -/

/-- A step whose line, if it processes one, is of a known kind. -/
def LineStep (L : Str → Prop) (s : ChatServer) (e : Event) (s' : ChatServer) : Prop :=
  (∀ client line, e = .line client line → L line) ∧ Step s e s'

section Invariants

variable {s s' : ChatServer} {e : Event} {L : Str → Prop} {P : Profile → Prop}

/-- An event that is no line is within every restriction of the lines. -/
theorem lineStep_of_quiet (hquiet : ∀ client line, e ≠ .line client line) (hstep : Step s e s') :
    LineStep L s e s' :=
  ⟨fun client line he => absurd he (hquiet client line), hstep⟩

/-- The profiles of all clients satisfy a predicate. -/
def ChatServer.Profiles (P : Profile → Prop) (s : ChatServer) : Prop :=
  ∀ fd p, s.profileOf fd = some p → P p

/-- What holds of a new connection and is kept by lines of a known kind holds of
every client after a run with such lines. -/
theorem forall_profiles (hnew : P .arrived)
    (hline : ∀ line p p', L line → p.Line line p' → P p → P p')
    {ts : List (Transition ChatServer Event)} (hs : ReachableState s)
    (hrun : Run (LineStep L) s ts s') (hP : s.Profiles P) : s'.Profiles P := by
  refine (hrun.invariant (I := fun s => ReachableState s ∧ s.Profiles P) ?_ ⟨hs, hP⟩).2
  rintro s e s' ⟨hs, hP⟩ ⟨hlines, hstep⟩
  refine ⟨hs.step hstep, fun fd p' hp' => ?_⟩
  have hprofile := (step_effect (keyed_of_reachable hs) hstep).profileOf fd
  have hbefore := hP fd
  generalize s.profileOf fd = before at hprofile hbefore
  rw [hp'] at hprofile
  cases hprofile with
  | same => exact hbefore p' rfl
  | arrived => exact hnew
  | line line he p _ hstep => exact hline line p p' (hlines fd line he) hstep (hbefore p rfl)

end Invariants

end EpollChat
