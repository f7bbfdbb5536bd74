import EpollChat.Properties.Passwords
import EpollChat.Properties.RoomNames

/-!
# Where passwords come from

A room is opened by the answer to the question for its password and by nothing else, and only
such an answer sets a password.  The password of a room is therefore one that some client was
asked for when it wanted to create a room of this name, and the room has been open under this
password ever since.

Main results:

- Theorem {lit}`LineEffect.opens`: a line opens at most the room its client was asked to set
  the password of.
- Theorem {lit}`password_provenance`: every password was set by an answer and has been in
  force since.
-/

namespace EpollChat

open ChatServer

/-- A client answers the question for the password of a new room. -/
def SetsPassword (t : Transition ChatServer Event) (r p : Str) : Prop :=
  ∃ client c, t.event = .line client p ∧ t.pre.clients.lookup client = some c ∧
    c.state = .stateSetupRoomPassword ∧ c.connectedRoom = r

section Opens

variable {s s' : ChatServer} {client : Fd} {c : Session} {line r p : Str} {e : Event}
variable {ts : List (Transition ChatServer Event)}

/-- A line opens at most the room its client was asked to set the password of. -/
theorem LineEffect.opens (h : LineEffect s client c line s')
    (hc : s.clients.lookup client = some c) (hacc : s.hall.Accounted) (hr : r ∈ s'.rooms) :
    r ∈ s.rooms ∨ c.state = .stateSetupRoomPassword ∧ c.connectedRoom = r := by
  have hplaced := hacc.placed client c.place (hall_lookup_self hc)
  have hlobby : lobby ∈ s.rooms := hacc.ledger.lobby_mem
  cases h with
  | named hstate =>
      have hnil : c.room = [] := hplaced.naming.1 hstate
      have hother : (c.setNickname line).room ≠ lobby := hnil ▸ lobby_ne_nil.symm
      have hjoined : r ∈ ((s.updateClient client fun c => c.setNickname line).joined client
          (c.setNickname line) lobby).rooms := hr
      have hopen : lobby ∈ (s.updateClient client fun c => c.setNickname line).rooms := hlobby
      exact Or.inl (joined_rooms_subset hopen hother hjoined)
  | passwordSet hstate =>
      by_cases hself : r = c.connectedRoom
      · exact Or.inr ⟨hstate, hself.symm⟩
      · have hjoined : r ∈ occupy (s.vacated c).rooms c.connectedRoom := AList.mem_modify.1 hr
        rw [← AList.lookup_isSome, lookup_occupy_ne hself, AList.lookup_isSome, vacated_rooms]
          at hjoined
        left
        split at hjoined
        · exact mem_vacate hjoined
        · exact hjoined
  | admitted hstate room hroom hpassword =>
      have hother : c.room ≠ c.connectedRoom := (hplaced.prompted (Or.inr hstate)).2.1.symm
      have hjoined : r ∈ (s.joined client c c.connectedRoom).rooms := hr
      exact Or.inl (joined_rooms_subset (AList.mem_of_lookup hroom) hother hjoined)
  | walkedIn hstate target hparse htarget hother room hroom hpassword =>
      exact Or.inl (joined_rooms_subset (AList.mem_of_lookup hroom) hother hr)
  | backToLobby hstate hparse hroom => exact Or.inl (joined_rooms_subset hlobby hroom hr)
  | said => exact Or.inl hr
  | whispered => exact Or.inl hr
  | ignored => exact Or.inl hr
  | roomDeleted => exact Or.inl hr
  | refused => exact Or.inl hr
  | notFound => exact Or.inl hr
  | alreadyInRoom => exact Or.inl hr
  | createPrompted => exact Or.inl hr
  | enterPrompted => exact Or.inl hr
  | inLobby => exact Or.inl hr
  | onlineListed => exact Or.inl hr
  | roomsListed => exact Or.inl hr

theorem mem_of_passwordIn {rooms : RoomTable} (h : passwordIn rooms r = some p) : r ∈ rooms := by
  rcases Option.map_eq_some_iff.1 h with ⟨room, hroom, _⟩
  exact AList.mem_of_lookup hroom

/-- A line keeps a password or sets it. -/
theorem line_password (hs : ReachableState s) (hstep : Step s (.line client line) s')
    (hp : passwordIn s'.rooms r = some p) :
    passwordIn s.rooms r = some p ∨ SetsPassword ⟨s, .line client line, s'⟩ r p := by
  have hacc := accounted_of_reachable hs
  have hopen : ∀ c, s.clients.lookup client = some c →
      r ∈ s.rooms ∨ c.state = .stateSetupRoomPassword ∧ c.connectedRoom = r := by
    intro c hc
    cases step_effect (keyed_of_accounted hacc) hstep with
    | line _ _ c' _ hc' heffect =>
        cases hc.symm.trans hc'
        rw [← hall_noted s client line] at hacc
        exact heffect.opens (lookup_updateClient_self hc) hacc (mem_of_passwordIn hp)
  rcases line_passage hs hstep with ⟨c, hc, hpassage⟩
  cases hpassage with
  | stayed _ hrooms => exact Or.inl (hrooms ▸ hp)
  | entered newRoom hstate hother _ hrooms =>
      rw [hrooms] at hp
      have hmem := (hopen c hc).resolve_right fun hsetup => hstate hsetup.1
      exact Or.inl ((passwordIn_move hother hmem (mem_of_passwordIn hp)).symm.trans hp)
  | founded hstate hother hrooms =>
      rw [hrooms, passwordIn_setPassword _ _ _ _ mem_occupy_self] at hp
      split at hp <;> rename_i hself
      · cases hp
        exact Or.inr ⟨client, c, rfl, hc, hstate, hself.symm⟩
      · have hmem := (hopen c hc).resolve_right fun hsetup => hself hsetup.2.symm
        exact Or.inl ((passwordIn_move hother hmem (mem_of_passwordIn hp)).symm.trans hp)

/-- Every step keeps a password or sets it. -/
theorem step_password (hs : ReachableState s) (hstep : Step s e s')
    (hp : passwordIn s'.rooms r = some p) :
    passwordIn s.rooms r = some p ∨ SetsPassword ⟨s, e, s'⟩ r p := by
  cases step_effect (keyed_of_reachable hs) hstep with
  | line client line _ _ _ _ => exact line_password hs hstep hp
  | accept client nonblocking added hfresh =>
      left
      unfold ChatServer.acceptConnection at hp
      split at hp
      · exact hp
      · split at hp <;> exact hp
  | wrote => exact Or.inl hp
  | dropped client result c hc hok =>
      exact Or.inl ((passwordIn_disconnected (mem_of_passwordIn hp)).symm.trans hp)
  | disconnect client c hc =>
      exact Or.inl ((passwordIn_disconnected (mem_of_passwordIn hp)).symm.trans hp)
  | buffer => exact Or.inl hp
  | rehash clients rooms hclients hrooms =>
      left
      rwa [passwordIn, AList.perm_lookup hrooms] at hp

/-- After every run from start-up, for every open room but the lobby: its password is the line of
a client that was asked to set the password of this room, and since that line was processed the
room has been open under this password. -/
theorem password_provenance (hrun : Run Step .started ts s) (hr : r ≠ lobby)
    (hp : passwordIn s.rooms r = some p) :
    ∃ us t vs, ts = us ++ t :: vs ∧ SetsPassword t r p ∧
      ∀ u ∈ t :: vs, passwordIn u.post.rooms r = some p := by
  let holds : ChatServer → Prop := fun s => passwordIn s.rooms r = some p
  have hsteps : ∀ t ∈ ts, holds t.post → holds t.pre ∨ SetsPassword t r p := by
    intro t ht
    exact step_password (hrun.reachable_of_mem (.refl _) ht).1 (hrun.step_of_mem ht)
  rcases hrun.held_since hsteps hp with ⟨hstarted, _⟩ | hset
  · have hmem : r ∈ ChatServer.started.rooms := mem_of_passwordIn hstarted
    rcases (AList.mem_insert _).1 hmem with heq | hempty
    · exact absurd heq hr
    · cases hempty
  · exact hset

theorem intrusion_provenance : ∃ p us t vs,
    ChatServer.trace intrusion = us ++ t :: vs ∧ SetsPassword t (str "den") p ∧
      ∀ u ∈ t :: vs, passwordIn u.post.rooms (str "den") = some p := by
  have hopen : (passwordIn (ChatServer.after intrusion).rooms (str "den")).isSome = true := by
    decide +kernel
  rcases Option.isSome_iff_exists.1 hopen with ⟨p, hp⟩
  exact ⟨p, password_provenance (run_trace intrusion) (by decide) hp⟩

end Opens

end EpollChat
