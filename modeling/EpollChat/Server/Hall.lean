import EpollChat.Library.Runs
import EpollChat.Server.Rooms

/-!
# The hall - who is in which room

The membership relation of the server has three copies in the source: the
{lit}`room_` field of every client, the keys of {lit}`rooms_` and the counters in
{lit}`rooms_`.  A {lit}`Hall` keeps what membership depends on, the place of every
client and the room table, and forgets nicknames and buffers.  A
{lit}`Ledger` says that a room table is nothing but the head count of the places.

Main results:

- Theorems {lit}`Ledger.vacate` and {lit}`Ledger.occupy`: a departure and an
  arrival keep the table a ledger of the changed head count.
- Theorem {lit}`HallStep.accounted`: every step of a hall keeps it accounted for.
- Theorem {lit}`HallStep.rooms_frame`: a step touches the entries of its subject's
  rooms only.
-/

namespace EpollChat

/-! ## Ledgers -/

theorem lobby_ne_nil : lobby ≠ [] := by
  decide

/-- The entry of a room table agrees with the head count of its name: a room is
open exactly when somebody is in it, the lobby always is, and without a password. -/
structure LedgerEntry (name : Str) (count : Nat) (entry : Option Room) : Prop where
  present : entry.isSome = true ↔ name = lobby ∨ (name ≠ [] ∧ 0 < count)
  counted : ∀ room, entry = some room → room.userCount = count
  named : ∀ room, entry = some room → room.name = name
  lobbyOpen : ∀ room, entry = some room → name = lobby → room.password = []

/-- The entry of a room that is to be open. -/
theorem LedgerEntry.of_some {name : Str} {count : Nat} {room : Room}
    (hpresent : name = lobby ∨ (name ≠ [] ∧ 0 < count)) (hcount : room.userCount = count)
    (hname : room.name = name) (hopen : name = lobby → room.password = []) :
    LedgerEntry name count (some room) where
  present := by simpa using hpresent
  counted := by
    intro r hr
    cases hr
    exact hcount
  named := by
    intro r hr
    cases hr
    exact hname
  lobbyOpen := by
    intro r hr hlobby
    cases hr
    exact hopen hlobby

/-- A room that is not to be open has no entry. -/
theorem LedgerEntry.of_none {name : Str} {count : Nat}
    (habsent : ¬(name = lobby ∨ (name ≠ [] ∧ 0 < count))) : LedgerEntry name count none where
  present := by simpa using habsent
  counted := by simp
  named := by simp
  lobbyOpen := by simp

/-- A room table is the head count of its names. -/
def Ledger (population : Str → Nat) (rooms : RoomTable) : Prop :=
  ∀ r, LedgerEntry r (population r) (rooms.lookup r)

namespace Ledger

variable {population : Str → Nat} {rooms rooms' : RoomTable} {r : Str}

/-- The lobby and the rooms with somebody in them are open. -/
theorem mem_iff (h : Ledger population rooms) :
    r ∈ rooms ↔ r = lobby ∨ (r ≠ [] ∧ 0 < population r) := by
  rw [← (h r).present, AList.lookup_isSome]

/-- There is no room without a name. -/
theorem nil_notMem (h : Ledger population rooms) : [] ∉ rooms := by
  rw [h.mem_iff]
  rintro (hlobby | ⟨hnil, _⟩)
  · exact lobby_ne_nil hlobby.symm
  · exact hnil rfl

/-- The lobby is open. -/
theorem lobby_mem (h : Ledger population rooms) : lobby ∈ rooms :=
  h.mem_iff.2 (Or.inl rfl)

/-- A change of one entry keeps a ledger if the entry agrees with its new count. -/
theorem update (h : Ledger population rooms) {count : Nat}
    (hother : ∀ x, x ≠ r → rooms'.lookup x = rooms.lookup x)
    (hself : LedgerEntry r count (rooms'.lookup r)) :
    Ledger (Function.update population r count) rooms' := by
  intro x
  by_cases hx : x = r
  · subst hx
    rwa [Function.update_self]
  · rw [Function.update_of_ne hx, hother x hx]
    exact h x

/-- One departure. -/
theorem vacate (h : Ledger population rooms) (hr : r ≠ []) (hpos : 0 < population r) :
    Ledger (Function.update population r (population r - 1)) (vacate rooms r) := by
  rcases AList.mem_iff_lookup.1 (h.mem_iff.2 (Or.inr ⟨hr, hpos⟩)) with ⟨room, hroom⟩
  have hcount := (h r).counted room hroom
  refine h.update (fun x hx => lookup_vacate_ne hx) ?_
  rw [lookup_vacate_self hroom]
  split <;> rename_i hlast
  · refine .of_none ?_
    rintro (hlobby | ⟨_, hstill⟩)
    · exact hlast.2 hlobby
    · omega
  · have hstays : r = lobby ∨ 0 < population r - 1 := by
      by_cases hlobby : r = lobby
      · exact Or.inl hlobby
      · have hmany : room.userCount ≠ 1 := fun hone => hlast ⟨hone, hlobby⟩
        exact Or.inr (by omega)
    refine .of_some (hstays.imp_right fun hstays => ⟨hr, hstays⟩) ?_ ((h r).named room hroom)
      ((h r).lobbyOpen room hroom)
    simp only [Room.decreaseUserCounter]
    omega

/-- One arrival. -/
theorem occupy (h : Ledger population rooms) (hr : r ≠ []) :
    Ledger (Function.update population r (population r + 1)) (occupy rooms r) := by
  refine h.update (fun x hx => lookup_occupy_ne hx) ?_
  rw [lookup_occupy_self]
  cases hlookup : rooms.lookup r with
  | none =>
      have habsent : ¬(r = lobby ∨ (r ≠ [] ∧ 0 < population r)) := by
        rw [← h.mem_iff, ← AList.lookup_eq_none, hlookup]
      have hzero : population r = 0 := by
        by_contra hne
        exact habsent (Or.inr ⟨hr, by omega⟩)
      refine .of_some (Or.inr ⟨hr, by omega⟩) ?_ rfl fun _ => rfl
      simp [Room.new, Room.increaseUserCounter, hzero]
  | some room =>
      have hcount := (h r).counted room hlookup
      refine .of_some (Or.inr ⟨hr, by omega⟩) ?_ ((h r).named room hlookup)
        ((h r).lobbyOpen room hlookup)
      simp [Room.increaseUserCounter, hcount]

/-- The password of any room but the lobby is not a matter of the ledger. -/
theorem setPassword (h : Ledger population rooms) (hr : r ≠ lobby) (password : Str) :
    Ledger population (rooms.modify r fun room => room.setPassword password) := by
  rw [← Function.update_eq_self r population]
  refine h.update (fun x hx => AList.lookup_modify_ne hx _ _) ?_
  rw [AList.lookup_modify_self]
  cases hlookup : rooms.lookup r with
  | none =>
      have hentry := h r
      rwa [hlookup] at hentry
  | some room =>
      have hpresent := (h r).present.1 (by rw [hlookup]; rfl)
      exact .of_some hpresent ((h r).counted room hlookup) ((h r).named room hlookup)
        fun hlobby => absurd hlobby hr

/-- The empty name has no entry, so its count does not matter. -/
theorem update_nil (h : Ledger population rooms) (count : Nat) :
    Ledger (Function.update population [] count) rooms := by
  refine h.update (fun _ _ => rfl) ?_
  rw [AList.lookup_eq_none.2 h.nil_notMem]
  exact .of_none (by simp [lobby_ne_nil.symm])

end Ledger

/-! ## Halls -/

/-- What membership depends on in a client. -/
structure Place where
  fd : Fd
  state : ClientState
  room : Str
  connectedRoom : Str

/-- The place of a new connection. -/
def Place.arrived (fd : Fd) : Place :=
  ⟨fd, .stateNickname, [], []⟩

/-- The place after a completed move. -/
def Place.settled (p : Place) (room : Str) : Place :=
  ⟨p.fd, .stateChat, room, []⟩

/-- The client is being asked for a password. -/
def ClientState.Prompting (state : ClientState) : Prop :=
  state = .stateSetupRoomPassword ∨ state = .stateEnterRoomPassword

/-- The places of the clients, and the room table. -/
structure Hall where
  places : AList fun _ : Fd => Place
  rooms : RoomTable

namespace Hall

variable (h : Hall) (fd : Fd) (p : Place) (room : Str)

/-- The number of clients in a room. -/
def population : Nat :=
  h.places.countVal fun p => p.room == room

/-- A client changes its place without a move. -/
def put : Hall :=
  { h with places := h.places.modify fd fun _ => p }

/-- The room table without one client of a place. -/
def roomsWithout : RoomTable :=
  if p.room ≠ [] ∧ p.room ∈ h.rooms then vacate h.rooms p.room else h.rooms

/-- A client moves to a room and chats there. -/
def settle : Hall where
  places := h.places.modify fd fun _ => p.settled room
  rooms := occupy (h.roomsWithout p) room

/-- A client leaves the server. -/
def depart : Hall where
  places := h.places.erase fd
  rooms := h.roomsWithout p

/-- A room gets a password. -/
def setPassword (password : Str) : Hall :=
  { h with rooms := h.rooms.modify room fun room => room.setPassword password }

end Hall

/-- The steps of a hall, with the client each is about. -/
inductive HallStep (h : Hall) : Option Fd → Hall → Prop
  | idle (subject : Option Fd) : HallStep h subject h
  | reorder (places : AList fun _ : Fd => Place) (rooms : RoomTable)
      (hplaces : places.entries.Perm h.places.entries)
      (hrooms : rooms.entries.Perm h.rooms.entries) :
      HallStep h none ⟨places, rooms⟩
  | arrive (fd : Fd) (hfresh : fd ∉ h.places) :
      HallStep h (some fd) { h with places := h.places.insert fd (.arrived fd) }
  | prompt (fd : Fd) (p : Place) (state : ClientState) (room : Str)
      (hp : h.places.lookup fd = some p) (hchat : p.state = .stateChat)
      (hstate : state.Prompting) (hroom : room ≠ []) (hother : room ≠ p.room)
      (hlobby : room ≠ lobby) :
      HallStep h (some fd) (h.put fd { p with state := state, connectedRoom := room })
  | resume (fd : Fd) (p : Place) (hp : h.places.lookup fd = some p)
      (hstate : p.state.Prompting) :
      HallStep h (some fd) (h.put fd { p with state := .stateChat })
  | settle (fd : Fd) (p : Place) (room : Str) (hp : h.places.lookup fd = some p)
      (hroom : room ≠ []) :
      HallStep h (some fd) (h.settle fd p room)
  | found (fd : Fd) (p : Place) (room password : Str) (hp : h.places.lookup fd = some p)
      (hroom : room ≠ []) (hlobby : room ≠ lobby) :
      HallStep h (some fd) ((h.settle fd p room).setPassword room password)
  | depart (fd : Fd) (p : Place) (hp : h.places.lookup fd = some p) :
      HallStep h (some fd) (h.depart fd p)

/-! ### The accounting invariant -/

/-- A place fits its descriptor and its state. -/
structure Place.WellPlaced (fd : Fd) (p : Place) : Prop where
  keyed : p.fd = fd
  naming : p.state = .stateNickname ↔ p.room = []
  prompted : p.state.Prompting →
    p.connectedRoom ≠ [] ∧ p.connectedRoom ≠ p.room ∧ p.connectedRoom ≠ lobby

/-- The room table is the head count of well-formed places. -/
structure Hall.Accounted (h : Hall) : Prop where
  ledger : Ledger h.population h.rooms
  placed : ∀ fd p, h.places.lookup fd = some p → p.WellPlaced fd

theorem Place.arrived_wellPlaced (fd : Fd) : (Place.arrived fd).WellPlaced fd := by
  refine ⟨rfl, by simp [arrived], ?_⟩
  rintro (hstate | hstate) <;> simp [arrived] at hstate

theorem Place.WellPlaced.settled {fd : Fd} {p : Place} (h : p.WellPlaced fd) {room : Str}
    (hroom : room ≠ []) : (p.settled room).WellPlaced fd := by
  refine ⟨h.keyed, by simp [Place.settled, hroom], ?_⟩
  rintro (hstate | hstate) <;> simp [Place.settled] at hstate

namespace Hall

variable {h : Hall} {fd : Fd} {p : Place}

/-- A room with somebody in it has a positive head count. -/
theorem population_pos (hp : h.places.lookup fd = some p) : 0 < h.population p.room :=
  AList.countVal_pos_iff.2 ⟨fd, p, hp, beq_self_eq_true p.room⟩

/-- One more or one less client moves one unit of the head count. -/
theorem population_modify (hp : h.places.lookup fd = some p) (f : Place → Place) (room : Str) :
    (h.places.modify fd f).countVal (fun q => q.room == room) +
        (if p.room = room then 1 else 0) =
      h.population room + if (f p).room = room then 1 else 0 := by
  have hcount := AList.countVal_modify (p := fun q : Place => q.room == room) (f := f) hp
  simp only [beq_iff_eq] at hcount
  exact hcount

/-- A change without a move keeps the head counts. -/
theorem population_put (hp : h.places.lookup fd = some p) {p' : Place}
    (hroom : p'.room = p.room) : (h.put fd p').population = h.population := by
  funext room
  have hcount := population_modify hp (fun _ => p') room
  rw [hroom] at hcount
  exact Nat.add_right_cancel hcount

/-- A move takes one from the old room and adds one to the new room. -/
theorem population_settle (hp : h.places.lookup fd = some p) (room : Str) :
    (h.settle fd p room).population =
      let left := Function.update h.population p.room (h.population p.room - 1)
      Function.update left room (left room + 1) := by
  funext x
  have hcount := population_modify hp (fun _ => p.settled room) x
  have hpos := population_pos hp
  change (h.settle fd p room).population x + _ = _ + if room = x then 1 else 0 at hcount
  simp only [Function.update_apply]
  grind

/-- A departure takes one from its room. -/
theorem population_depart (hp : h.places.lookup fd = some p) :
    (h.depart fd p).population =
      Function.update h.population p.room (h.population p.room - 1) := by
  funext x
  have hcount := AList.countVal_erase (p := fun q : Place => q.room == x) hp
  change (h.depart fd p).population x + (if (p.room == x) = true then 1 else 0) =
    h.population x at hcount
  simp only [Function.update_apply]
  grind

/-- Counting a client out of its room leaves a ledger of the rest. -/
theorem Accounted.roomsWithout (hacc : h.Accounted) (hp : h.places.lookup fd = some p) :
    Ledger (Function.update h.population p.room (h.population p.room - 1))
      (h.roomsWithout p) := by
  unfold Hall.roomsWithout
  have hpos := population_pos hp
  by_cases hroom : p.room = []
  · rw [hroom, if_neg (by simp)]
    exact hacc.ledger.update_nil _
  · rw [if_pos ⟨hroom, hacc.ledger.mem_iff.2 (Or.inr ⟨hroom, hpos⟩)⟩]
    exact hacc.ledger.vacate hroom hpos

/-- A change without a move keeps the accounts. -/
theorem Accounted.put (hacc : h.Accounted) (hp : h.places.lookup fd = some p) {p' : Place}
    (hroom : p'.room = p.room) (hplaced : p'.WellPlaced fd) : (h.put fd p').Accounted where
  ledger := by
    rw [population_put hp hroom]
    exact hacc.ledger
  placed x q hq := by
    rw [Hall.put, AList.lookup_modify] at hq
    split at hq <;> rename_i hx
    · subst hx
      rw [hp] at hq
      cases hq
      exact hplaced
    · exact hacc.placed x q hq

/-- A move keeps the accounts. -/
theorem Accounted.settle (hacc : h.Accounted) (hp : h.places.lookup fd = some p) {room : Str}
    (hroom : room ≠ []) : (h.settle fd p room).Accounted where
  ledger := by
    rw [population_settle hp room]
    exact (hacc.roomsWithout hp).occupy hroom
  placed x q hq := by
    rw [Hall.settle, AList.lookup_modify] at hq
    split at hq <;> rename_i hx
    · subst hx
      rw [hp] at hq
      cases hq
      exact (hacc.placed x p hp).settled hroom
    · exact hacc.placed x q hq

/-- A password for a room other than the lobby keeps the accounts. -/
theorem Accounted.setPassword (hacc : h.Accounted) {room : Str} (hroom : room ≠ lobby)
    (password : Str) : (h.setPassword room password).Accounted where
  ledger := hacc.ledger.setPassword hroom password
  placed := hacc.placed

/-- A departure keeps the accounts. -/
theorem Accounted.depart (hacc : h.Accounted) (hp : h.places.lookup fd = some p) :
    (h.depart fd p).Accounted where
  ledger := by
    rw [population_depart hp]
    exact hacc.roomsWithout hp
  placed x q hq := by
    by_cases hx : x = fd
    · subst hx
      simp [Hall.depart] at hq
    · rw [Hall.depart, AList.lookup_erase_ne hx] at hq
      exact hacc.placed x q hq

/-- A new client, which has no room yet, keeps the accounts. -/
theorem Accounted.arrive (hacc : h.Accounted) (hfresh : fd ∉ h.places) :
    Accounted { h with places := h.places.insert fd (.arrived fd) } where
  ledger := by
    have hpopulation : population { h with places := h.places.insert fd (.arrived fd) } =
        Function.update h.population [] (h.population [] + 1) := by
      funext x
      have hcount := AList.countVal_insert (p := fun q : Place => q.room == x)
        (b := Place.arrived fd) hfresh
      change _ = h.population x + if ([] == x) = true then 1 else 0 at hcount
      simp only [Hall.population, hcount, Function.update_apply]
      grind
    rw [hpopulation]
    exact hacc.ledger.update_nil _
  placed x q hq := by
    by_cases hx : x = fd
    · subst hx
      simp only [AList.lookup_insert, Option.some.injEq] at hq
      subst hq
      exact Place.arrived_wellPlaced x
    · rw [AList.lookup_insert_ne hx] at hq
      exact hacc.placed x q hq

/-- The order of the tables does not matter to the accounts. -/
theorem Accounted.reorder (hacc : h.Accounted) {places : AList fun _ : Fd => Place}
    {rooms : RoomTable} (hplaces : places.entries.Perm h.places.entries)
    (hrooms : rooms.entries.Perm h.rooms.entries) : Accounted ⟨places, rooms⟩ where
  ledger := by
    have hpopulation : population ⟨places, rooms⟩ = h.population :=
      funext fun room => AList.countVal_perm hplaces
    rw [hpopulation]
    intro r
    rw [AList.perm_lookup hrooms]
    exact hacc.ledger r
  placed x q hq := by
    rw [AList.perm_lookup hplaces] at hq
    exact hacc.placed x q hq

end Hall

/-- Every step of a hall keeps it accounted for. -/
theorem HallStep.accounted {h h' : Hall} {subject : Option Fd} (hacc : h.Accounted)
    (hstep : HallStep h subject h') : h'.Accounted := by
  cases hstep with
  | idle => exact hacc
  | reorder places rooms hplaces hrooms => exact hacc.reorder hplaces hrooms
  | arrive fd hfresh => exact hacc.arrive hfresh
  | prompt fd p state room hp hchat hstate hroom hother hlobby =>
      have hplaced := hacc.placed fd p hp
      refine hacc.put hp rfl ⟨hplaced.keyed, ?_, fun _ => ⟨hroom, hother, hlobby⟩⟩
      have hnaming := hplaced.naming
      rcases hstate with rfl | rfl <;> simpa [hchat] using hnaming
  | resume fd p hp hstate =>
      have hplaced := hacc.placed fd p hp
      refine hacc.put hp rfl ⟨hplaced.keyed, ?_, ?_⟩
      · have hnaming := hplaced.naming
        rcases hstate with hstate | hstate <;> simpa [hstate] using hnaming
      · rintro (hchat | hchat) <;> simp at hchat
  | settle fd p room hp hroom => exact hacc.settle hp hroom
  | found fd p room password hp hroom hlobby =>
      exact (hacc.settle hp hroom).setPassword hlobby password
  | depart fd p hp => exact hacc.depart hp

/-! ### Frames -/

theorem Hall.lookup_roomsWithout {h : Hall} {p : Place} {r : Str} (hr : p.room ≠ r) :
    (h.roomsWithout p).lookup r = h.rooms.lookup r := by
  unfold roomsWithout
  split
  · exact lookup_vacate_ne hr.symm
  · rfl

/-- A step touches the room entries of its subject's rooms before and after it
only. -/
theorem HallStep.rooms_frame {h h' : Hall} {fd : Fd} (hstep : HallStep h (some fd) h')
    {r : Str} (hbefore : (h.places.lookup fd).map Place.room ≠ some r)
    (hafter : (h'.places.lookup fd).map Place.room ≠ some r) :
    h'.rooms.lookup r = h.rooms.lookup r := by
  have hsettle : ∀ p room, h.places.lookup fd = some p → room ≠ r →
      (h.settle fd p room).rooms.lookup r = h.rooms.lookup r := by
    intro p room hp hroom
    rw [Hall.settle, lookup_occupy_ne hroom.symm]
    exact Hall.lookup_roomsWithout (by simpa [hp] using hbefore)
  cases hstep with
  | idle => rfl
  | arrive => rfl
  | prompt => rfl
  | resume => rfl
  | settle _ p room hp hroom =>
      exact hsettle p room hp (by simpa [Hall.settle, hp, Place.settled] using hafter)
  | found _ p room password hp hroom hlobby =>
      have hne : room ≠ r := by
        simpa [Hall.setPassword, Hall.settle, hp, Place.settled] using hafter
      rw [Hall.setPassword, AList.lookup_modify_ne hne.symm]
      exact hsettle p room hp hne
  | depart _ p hp =>
      exact Hall.lookup_roomsWithout (by simpa [hp] using hbefore)

end EpollChat
