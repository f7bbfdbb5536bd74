import EpollChat.Properties.Frame

/-!
# Passwords and admission

The first line that names a new room only puts its client into a prompt; the
answer is processed later, and the branch {lit}`STATE_SETUP_ROOM_PASSWORD` does
not look again whether the room has come into being in between.  Its sibling
{lit}`STATE_ENTER_ROOM_PASSWORD` does.  This module determines exactly which runs
keep the two guarantees a password is there for.

Main results:

- Theorem {lit}`LineEffect.passage`: the ways a line can move its client, and what
  each does to the room table.
- Theorem {lit}`admission_guarded_iff`: in a run every admission to a protected room
  is by its password exactly when no late setup answer meets a protected room.
- Theorem {lit}`passwords_fixed_iff`: in a run every room keeps its password as long
  as it exists exactly when every late setup answer repeats the stored password.
-/

namespace EpollChat

/-! ## Passwords in the room table -/

/-- The stored password of a room, if there is such a room. -/
def passwordIn (rooms : RoomTable) (r : Str) : Option Str :=
  (rooms.lookup r).map Room.password

section PasswordIn

variable {rooms : RoomTable} {r x : Str}

theorem passwordIn_vacate (h : r ∈ vacate rooms x) :
    passwordIn (vacate rooms x) r = passwordIn rooms r := by
  unfold passwordIn
  by_cases hr : r = x
  · subst hr
    cases hlookup : rooms.lookup r with
    | none => simp [vacate, hlookup]
    | some room =>
        have hself := lookup_vacate_self hlookup
        split at hself
        · rw [AList.lookup_eq_none] at hself
          exact absurd h hself
        · rw [hself]
          rfl
  · rw [lookup_vacate_ne hr]

theorem passwordIn_occupy (h : r ∈ rooms) :
    passwordIn (occupy rooms x) r = passwordIn rooms r := by
  unfold passwordIn
  by_cases hr : r = x
  · subst hr
    rcases AList.mem_iff_lookup.1 h with ⟨room, hroom⟩
    rw [lookup_occupy_self, hroom]
    rfl
  · rw [lookup_occupy_ne hr]

/-- Moving to another room replaces no password. -/
theorem passwordIn_move {s : ChatServer} {c : Session} (hother : c.room ≠ x) (hr : r ∈ s.rooms)
    (hr' : r ∈ occupy (s.vacated c).rooms x) :
    passwordIn (occupy (s.vacated c).rooms x) r = passwordIn s.rooms r := by
  rw [ChatServer.vacated_rooms] at hr' ⊢
  split at hr' <;> rename_i h
  · rw [if_pos h]
    have hvacated : r ∈ vacate s.rooms c.room := by
      by_cases hx : r = x
      · subst hx
        rw [← AList.lookup_isSome, lookup_vacate_ne (Ne.symm hother), AList.lookup_isSome]
        exact hr
      · rwa [← AList.lookup_isSome, lookup_occupy_ne hx, AList.lookup_isSome] at hr'
    rw [passwordIn_occupy hvacated, passwordIn_vacate hvacated]
  · rw [if_neg h]
    exact passwordIn_occupy hr

end PasswordIn

/-! ## The ways into a room -/

/-- What entitles a client to enter a room that exists: there is no password, or
the client was asked for it and its line is the password. -/
def Entitled (s : ChatServer) (c : Session) (line newRoom : Str) : Prop :=
  ∀ room, s.rooms.lookup newRoom = some room →
    room.password = [] ∨
      (c.state = .stateEnterRoomPassword ∧ c.connectedRoom = newRoom ∧ line = room.password)

/-- The ways a line can move its client. -/
inductive Passage (s : ChatServer) (client : Fd) (c : Session) (line : Str) (s' : ChatServer) :
    Prop
  | stayed (hstate : c.state ≠ .stateSetupRoomPassword) (hrooms : s'.rooms = s.rooms)
      (hroom : s'.roomOf client = some c.room)
  | entered (newRoom : Str) (hstate : c.state ≠ .stateSetupRoomPassword)
      (hother : c.room ≠ newRoom) (hentitled : Entitled s c line newRoom)
      (hrooms : s'.rooms = occupy (s.vacated c).rooms newRoom)
      (hroom : s'.roomOf client = some newRoom)
  | founded (hstate : c.state = .stateSetupRoomPassword) (hother : c.room ≠ c.connectedRoom)
      (hrooms : s'.rooms = (occupy (s.vacated c).rooms c.connectedRoom).modify c.connectedRoom
        fun room => room.setPassword line)
      (hroom : s'.roomOf client = some c.connectedRoom)

section Passage

open ChatServer

variable {s s' : ChatServer} {client : Fd} {c : Session} {line : Str}

/-- Every line moves its client in one of the listed ways. -/
theorem LineEffect.passage (h : LineEffect s client c line s')
    (hc : s.clients.lookup client = some c) (hacc : s.hall.Accounted) :
    Passage s client c line s' := by
  have hplaced := hacc.placed client c.place (hall_lookup_self hc)
  have hlobbyOpen : Entitled s c line lobby := fun room hroom =>
    Or.inl ((hacc.ledger lobby).lobbyOpen room hroom rfl)
  have hself : s.roomOf client = some c.room := by
    rw [roomOf, hc]
    rfl
  have hstay : ∀ (f : Session → Session) (msg : Str), c.state ≠ .stateSetupRoomPassword →
      (f c).room = c.room → Passage s client c line (s.answered client f msg) :=
    fun f msg hstate hf => .stayed hstate rfl ((roomOf_answered hc msg).trans (congrArg some hf))
  cases h with
  | named hstate =>
      have hnamed := named_lookup_self hc line
      have hnil : c.room = [] := hplaced.naming.1 hstate
      refine .entered lobby (by simp [hstate]) (hnil ▸ lobby_ne_nil.symm) hlobbyOpen rfl ?_
      rw [answered_id, roomOf_queueMessage]
      exact roomOf_joined hnamed lobby
  | passwordSet hstate =>
      have hroom := roomOf_answered (f := Session.chat) (joined_lookup_self hc c.connectedRoom)
        passwordSetMessage
      simp only [Session.chat, Session.enterRoom, broadcastTo_room] at hroom
      exact .founded hstate (hplaced.prompted (Or.inl hstate)).2.1.symm rfl hroom
  | admitted hstate room hroom hpassword =>
      have hroom' := roomOf_answered (f := Session.chat) (joined_lookup_self hc c.connectedRoom)
        passwordSuccessMessage
      simp only [Session.chat, Session.enterRoom, broadcastTo_room] at hroom'
      refine .entered c.connectedRoom (by simp [hstate])
        (hplaced.prompted (Or.inr hstate)).2.1.symm (fun found hfound => ?_) rfl hroom'
      rw [hroom] at hfound
      cases hfound
      exact Or.inr ⟨hstate, rfl, hpassword.symm⟩
  | walkedIn hstate target hparse htarget hother room hroom hpassword =>
      refine .entered target (by simp [hstate]) hother (fun found hfound => ?_) rfl
        (roomOf_joined hc target)
      rw [hroom] at hfound
      cases hfound
      exact Or.inl hpassword
  | backToLobby hstate hparse hroom =>
      exact .entered lobby (by simp [hstate]) hroom hlobbyOpen rfl (roomOf_joined hc lobby)
  | said hstate hparse =>
      exact .stayed (by simp [hstate]) rfl ((roomOf_broadcast _ _).trans hself)
  | whispered hstate target text hparse fd cl hfound =>
      refine .stayed (by simp [hstate]) rfl ?_
      rw [roomOf_queueMessage, roomOf_queueMessage, hself]
  | ignored hstate hparse => exact .stayed (by simp [hstate]) rfl hself
  | roomDeleted hstate => exact hstay _ _ (by simp [hstate]) rfl
  | refused hstate => exact hstay _ _ (by simp [hstate]) rfl
  | notFound hstate => exact hstay _ _ (by simp [hstate]) rfl
  | alreadyInRoom hstate => exact hstay _ _ (by simp [hstate]) rfl
  | createPrompted hstate => exact hstay _ _ (by simp [hstate]) rfl
  | enterPrompted hstate => exact hstay _ _ (by simp [hstate]) rfl
  | inLobby hstate => exact hstay _ _ (by simp [hstate]) rfl
  | onlineListed hstate => exact hstay _ _ (by simp [hstate]) rfl
  | roomsListed hstate => exact hstay _ _ (by simp [hstate]) rfl

/-- The line events of reachable states, with the client before its record. -/
theorem line_passage (hs : ReachableState s) (hstep : Step s (.line client line) s') :
    ∃ c, s.clients.lookup client = some c ∧ Passage s client c line s' := by
  have hacc := accounted_of_reachable hs
  cases step_effect (keyed_of_accounted hacc) hstep with
  | line _ _ c _ hc heffect =>
      rw [← hall_noted s client line] at hacc
      refine ⟨c, hc, ?_⟩
      cases heffect.passage (lookup_updateClient_self hc) hacc with
      | stayed hstate hrooms hroom => exact .stayed hstate hrooms hroom
      | entered newRoom hstate hother hentitled hrooms hroom =>
          exact .entered newRoom hstate hother hentitled hrooms hroom
      | founded hstate hother hrooms hroom => exact .founded hstate hother hrooms hroom

end Passage

/-! ## Late answers to the prompt for a new password -/

section Runs

variable {s s' : ChatServer} {ts : List (Transition ChatServer Event)}
variable {t : Transition ChatServer Event}

/-- An answer to the prompt for the password of a new room, together with the
entry the room already has when the answer is processed. -/
structure LateSetup where
  room : Room
  answer : Str

/-- The late answer that a transition processes, if it processes one. -/
def lateSetup (t : Transition ChatServer Event) : Option LateSetup :=
  match t.event with
  | .line client line =>
      (t.pre.clients.lookup client).bind fun c =>
        if c.state = .stateSetupRoomPassword then
          (t.pre.rooms.lookup c.connectedRoom).map fun room => ⟨room, line⟩
        else none
  | _ => none

theorem lateSetup_eq {client : Fd} {line : Str} {c : Session} {room : Room}
    (hevent : t.event = .line client line) (hc : t.pre.clients.lookup client = some c)
    (hstate : c.state = .stateSetupRoomPassword)
    (hroom : t.pre.rooms.lookup c.connectedRoom = some room) :
    lateSetup t = some ⟨room, line⟩ := by
  simp [lateSetup, hevent, hc, hstate, hroom]

theorem of_mem_lateSetup {late : LateSetup} (h : late ∈ lateSetup t) :
    ∃ client c, t.event = .line client late.answer ∧ t.pre.clients.lookup client = some c ∧
      c.state = .stateSetupRoomPassword ∧
      t.pre.rooms.lookup c.connectedRoom = some late.room := by
  unfold lateSetup at h
  split at h <;> rename_i hevent
  · rcases Option.bind_eq_some_iff.1 h with ⟨c, hc, h⟩
    split at h <;> rename_i hstate
    · rcases Option.map_eq_some_iff.1 h with ⟨room, hroom, rfl⟩
      exact ⟨_, c, hevent, hc, hstate, hroom⟩
    · cases h
  · cases h

/-- If a transition processes a line that moves its client to a protected room,
the client was asked for the password of that room and the line is the password. -/
def AdmissionGuarded (t : Transition ChatServer Event) : Prop :=
  ∀ client line c c' room, t.event = .line client line →
    t.pre.clients.lookup client = some c → t.post.clients.lookup client = some c' →
    c'.room ≠ c.room → t.pre.rooms.lookup c'.room = some room → room.password ≠ [] →
    c.state = .stateEnterRoomPassword ∧ c.connectedRoom = c'.room ∧ line = room.password

/-- One transition is guarded unless it is a late answer that meets a password. -/
theorem transition_admission_iff (hs : ReachableState t.pre)
    (hstep : Step t.pre t.event t.post) :
    AdmissionGuarded t ↔ ∀ late ∈ lateSetup t, late.room.password = [] := by
  constructor
  · intro hguarded late hlate
    rcases of_mem_lateSetup hlate with ⟨client, c, hevent, hc, hstate, hroom⟩
    rw [hevent] at hstep
    rcases line_passage hs hstep with ⟨c₀, hc₀, hpassage⟩
    rw [hc] at hc₀
    cases hc₀
    cases hpassage with
    | stayed hother => exact absurd hstate hother
    | entered newRoom hother => exact absurd hstate hother
    | founded _ hother hrooms hmoved =>
        rcases Option.map_eq_some_iff.1 hmoved with ⟨c', hc', hroom'⟩
        by_contra hpassword
        have hentered := hguarded client late.answer c c' late.room hevent hc hc'
          (by rw [hroom']; exact hother.symm) (by rw [hroom', hroom]) hpassword
        rw [hstate] at hentered
        cases hentered.1
  · intro hlate client line c c' room hevent hc hc' hmoved hroom hpassword
    have hstep' := hstep
    rw [hevent] at hstep'
    rcases line_passage hs hstep' with ⟨c₀, hc₀, hpassage⟩
    rw [hc] at hc₀
    cases hc₀
    have hroomOf : t.post.roomOf client = some c'.room := by
      rw [ChatServer.roomOf, hc']
      rfl
    cases hpassage with
    | stayed _ _ hstayed =>
        rw [hroomOf] at hstayed
        exact absurd (Option.some.inj hstayed) hmoved
    | entered newRoom _ _ hentitled _ hentered =>
        rw [hroomOf] at hentered
        cases hentered
        rcases hentitled room hroom with hnil | henter
        · exact absurd hnil hpassword
        · exact henter
    | founded hstate _ _ hfounded =>
        rw [hroomOf] at hfounded
        rw [Option.some.inj hfounded] at hroom
        exact absurd (hlate _ (lateSetup_eq hevent hc hstate hroom)) hpassword

/-- In every run from start-up, every admission to a protected room is by its
password if and only if no answer to the prompt for a new password is processed
while that room is there with a password. -/
theorem admission_guarded_iff (hrun : Run Step .started ts s) :
    (∀ t ∈ ts, AdmissionGuarded t) ↔
      ∀ t ∈ ts, ∀ late ∈ lateSetup t, late.room.password = [] := by
  have htransition : ∀ t ∈ ts, (AdmissionGuarded t ↔
      ∀ late ∈ lateSetup t, late.room.password = []) :=
    Run.forall_transitions (fun _ _ _ hs hstep => transition_admission_iff hs hstep) (.refl _) hrun
  exact forall₂_congr htransition

/-- Two clients are asked for the password of the same new room, and the first
answer creates it. -/
def rivals : List Event :=
  [.accept 5 true true, .accept 6 true true, .line 5 (str "ann"), .line 6 (str "bob"),
    .line 5 (str "/join den"), .line 6 (str "/join den"), .line 5 (str "secret")]

/-- The second answer is any other line. -/
def intrusion : List Event :=
  rivals ++ [.line 6 (str "anything")]

theorem visit_guarded :
    (ChatServer.trace visit).length = visit.length ∧
      ∀ t ∈ ChatServer.trace visit, AdmissionGuarded t :=
  ⟨by decide +kernel, (admission_guarded_iff (run_trace visit)).2 (by decide +kernel)⟩

/-- The second client gets into the protected room without its password. -/
theorem intrusion_unguarded :
    (ChatServer.trace intrusion).length = intrusion.length ∧
      ¬∀ t ∈ ChatServer.trace intrusion, AdmissionGuarded t := by
  refine ⟨by decide +kernel, fun hguarded => ?_⟩
  have hlate : ∀ t ∈ ChatServer.trace intrusion, ∀ late ∈ lateSetup t, late.room.password = [] := by
    intro t ht
    have hrun := run_trace intrusion
    exact (transition_admission_iff (hrun.reachable_of_mem (.refl _) ht).1
      (hrun.step_of_mem ht)).1 (hguarded t ht)
  revert hlate
  decide +kernel

/-! ## The lifetime of a password -/

theorem passwordIn_setPassword (rooms : RoomTable) (x line r : Str) (h : x ∈ rooms) :
    passwordIn (rooms.modify x fun room => room.setPassword line) r =
      if r = x then some line else passwordIn rooms r := by
  unfold passwordIn
  rw [AList.lookup_modify]
  split <;> rename_i hr
  · subst hr
    rcases AList.mem_iff_lookup.1 h with ⟨room, hroom⟩
    simp [hroom, Room.setPassword]
  · rfl

/-- A room that a disconnect leaves in place keeps its password. -/
theorem passwordIn_disconnected {client : Fd} {c : Session} {r : Str}
    (hr' : r ∈ (s.disconnected client c).rooms) :
    passwordIn (s.disconnected client c).rooms r = passwordIn s.rooms r := by
  rw [ChatServer.disconnected_rooms] at hr' ⊢
  split at hr' <;> rename_i h
  · rw [if_pos h]
    exact passwordIn_vacate hr'
  · rw [if_neg h]

/-- A transition keeps the password of a room that is there before and after it,
unless it is a late answer for that room; then the answer is the password after it. -/
theorem transition_password (hs : ReachableState t.pre) (hstep : Step t.pre t.event t.post)
    {r : Str} (hr : r ∈ t.pre.rooms) (hr' : r ∈ t.post.rooms) :
    passwordIn t.post.rooms r = passwordIn t.pre.rooms r ∨
      ∃ late ∈ lateSetup t, passwordIn t.pre.rooms r = some late.room.password ∧
        passwordIn t.post.rooms r = some late.answer := by
  rcases t with ⟨pre, e, post⟩
  simp only at hs hstep hr hr' ⊢
  cases step_effect (keyed_of_reachable hs) hstep with
  | accept client nonblocking added hfresh =>
      left
      unfold ChatServer.acceptConnection
      split
      · rfl
      · split <;> rfl
  | line client line _ _ _ _ =>
      rcases line_passage hs hstep with ⟨c, hc, hpassage⟩
      cases hpassage with
      | stayed _ hrooms => exact Or.inl (by rw [hrooms])
      | entered newRoom _ hother _ hrooms =>
          rw [hrooms] at hr' ⊢
          exact Or.inl (passwordIn_move hother hr hr')
      | founded hstate hother hrooms =>
          rw [hrooms] at hr' ⊢
          rw [AList.mem_modify] at hr'
          rw [passwordIn_setPassword _ _ _ _ mem_occupy_self]
          by_cases hx : r = c.connectedRoom
          · subst hx
            rcases AList.mem_iff_lookup.1 hr with ⟨room, hroom⟩
            have hlate := lateSetup_eq (t := ⟨pre, .line client line, post⟩) rfl hc hstate hroom
            exact Or.inr ⟨_, hlate, by simp [passwordIn, hroom], if_pos rfl⟩
          · rw [if_neg hx]
            exact Or.inl (passwordIn_move hother hr hr')
  | wrote => exact Or.inl rfl
  | dropped client result c hc hok => exact Or.inl (passwordIn_disconnected hr')
  | disconnect client c hc => exact Or.inl (passwordIn_disconnected hr')
  | buffer => exact Or.inl rfl
  | rehash clients rooms hclients hrooms =>
      left
      simp only [passwordIn, AList.perm_lookup hrooms]

/-- As long as a room exists, through any segment of the run, its password stays
the one it had at the start of the segment. -/
def PasswordsFixed (ts : List (Transition ChatServer Event)) : Prop :=
  ∀ r us vs ws s₁ s₂, ts = us ++ vs ++ ws → Run Step .started us s₁ → Run Step s₁ vs s₂ →
    r ∈ s₁.rooms → (∀ t ∈ vs, r ∈ t.post.rooms) → passwordIn s₂.rooms r = passwordIn s₁.rooms r

theorem segment_password {s₁ s₂ : ChatServer} {vs : List (Transition ChatServer Event)} {r : Str}
    (hlate : ∀ t ∈ vs, ∀ late ∈ lateSetup t, late.answer = late.room.password)
    (hs : ReachableState s₁) (hrun : Run Step s₁ vs s₂) (hr : r ∈ s₁.rooms)
    (hstays : ∀ t ∈ vs, r ∈ t.post.rooms) : passwordIn s₂.rooms r = passwordIn s₁.rooms r := by
  induction hrun with
  | nil => rfl
  | @cons s₁ middle s₂ e vs hstep hrest ih =>
      have hr' : r ∈ middle.rooms := hstays _ List.mem_cons_self
      have hkept : passwordIn middle.rooms r = passwordIn s₁.rooms r := by
        rcases transition_password (t := ⟨s₁, e, middle⟩) hs hstep hr hr' with
          h | ⟨late, hsetup, hbefore, hafter⟩
        · exact h
        · rw [hafter, hbefore, hlate _ List.mem_cons_self late hsetup]
      rw [← hkept]
      exact ih (fun t ht => hlate t (List.mem_cons_of_mem _ ht)) (hs.step hstep) hr'
        fun t ht => hstays t (List.mem_cons_of_mem _ ht)

/-- If the passwords of a run are fixed, late answers repeat them. -/
theorem PasswordsFixed.answer_eq (hfixed : PasswordsFixed ts) (hrun : Run Step .started ts s)
    (ht : t ∈ ts) {late : LateSetup} (hlate : late ∈ lateSetup t) :
    late.answer = late.room.password := by
  rcases of_mem_lateSetup hlate with ⟨client, c, hevent, hc, hstate, hroom⟩
  rcases List.append_of_mem ht with ⟨us, ws, rfl⟩
  rcases hrun.split with ⟨s₁, hbefore, hrest⟩
  cases hrest with
  | @cons _ post _ e _ hstep _ =>
      simp only at hevent hc hroom
      subst hevent
      rcases line_passage ⟨us, hbefore⟩ hstep with ⟨c₀, hc₀, hpassage⟩
      rw [hc] at hc₀
      cases hc₀
      cases hpassage with
      | stayed hother => exact absurd hstate hother
      | entered newRoom hother => exact absurd hstate hother
      | founded _ hother hrooms =>
          have hset : passwordIn post.rooms c.connectedRoom = some late.answer := by
            rw [hrooms, passwordIn_setPassword _ _ _ _ mem_occupy_self, if_pos rfl]
          have hmem : c.connectedRoom ∈ post.rooms := by
            rw [hrooms, AList.mem_modify]
            exact mem_occupy_self
          have hsame := hfixed c.connectedRoom us [⟨s₁, .line client late.answer, post⟩] ws s₁ post
            (by simp) hbefore (.single hstep) (AList.mem_of_lookup hroom) (by simpa using hmem)
          rw [hset, passwordIn, hroom] at hsame
          exact Option.some.inj hsame

/-- In every run from start-up, every room keeps its password as long as it
exists if and only if every answer to the prompt for a new password that is
processed while the room is there repeats the password it has. -/
theorem passwords_fixed_iff (hrun : Run Step .started ts s) :
    PasswordsFixed ts ↔
      ∀ t ∈ ts, ∀ late ∈ lateSetup t, late.answer = late.room.password := by
  constructor
  · intro hfixed t ht late hlate
    exact hfixed.answer_eq hrun ht hlate
  · intro hlate r us vs ws s₁ s₂ hts hbefore hsegment hr hstays
    subst hts
    refine segment_password (fun t ht => hlate t ?_) ⟨us, hbefore⟩ hsegment hr hstays
    simp [ht]

theorem visit_passwordsFixed : PasswordsFixed (ChatServer.trace visit) :=
  (passwords_fixed_iff (run_trace visit)).2 (by decide +kernel)

/-- The second answer replaces the password of the room. -/
theorem intrusion_replaces_password : ¬PasswordsFixed (ChatServer.trace intrusion) := by
  intro hfixed
  have hlate : ∀ t ∈ ChatServer.trace intrusion, ∀ late ∈ lateSetup t,
      late.answer = late.room.password := fun t ht late hlate =>
    hfixed.answer_eq (run_trace intrusion) ht hlate
  revert hlate
  decide +kernel

end Runs

end EpollChat
