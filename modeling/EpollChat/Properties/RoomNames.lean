import EpollChat.Command.Grammar
import EpollChat.Properties.Lines

/-!
# Names of rooms

A room is named after the end of a line.  What the read loop does to a line therefore
restricts the names that can be in the room table, and a request to join a room by such
a name gives the name back unchanged.

Main results:

- Theorem {lit}`roomName_of_mem`: as long as the lines are shorter than {lit}`2 ^ 31`,
  the rooms have names that fit on a line.
- Theorem {lit}`room_joinable`: every room can be joined by its name.
-/

namespace EpollChat

open ChatServer

/-! ## Names that fit on a line -/

/-- A line as the read loop hands it on. -/
structure InputLine (line : Str) : Prop where
  oneLine : newline ∉ line
  last : line.getLast? ≠ some space
  short : line.length < 2 ^ 31

/-- A name that stays whole behind {lit}`/join`. -/
structure RoomName (name : Str) : Prop where
  nonempty : name ≠ []
  oneLine : newline ∉ name
  last : name.getLast? ≠ some space
  short : (str "/join " ++ name).length < 2 ^ 31

/-- A turn whose lines, without a carriage return at the end, are shorter than
{lit}`2 ^ 31`. -/
def ShortStep (s : ChatServer) (turn : Turn) (s' : ChatServer) : Prop :=
  (∀ frame ∈ turn.frames s, (withoutCarriageReturn frame).length < 2 ^ 31) ∧ TurnStep s turn s'

/-- The names of rooms in a profile fit on a line. -/
structure Profile.RoomsNamed (p : Profile) : Prop where
  room : p.room ≠ [] → RoomName p.room
  connectedRoom : p.connectedRoom ≠ [] → RoomName p.connectedRoom

section Names

variable {s s' : ChatServer} {frame line room r : Str} {turn : Turn} {p p' : Profile}

/-- A short frame hands on a trimmed line. -/
theorem inputLine_of_mem_lineOf (hframe : newline ∉ frame)
    (hshort : (withoutCarriageReturn frame).length < 2 ^ 31) (hline : line ∈ lineOf frame) :
    InputLine line := by
  have hsplit := length_split (withoutCarriageReturn frame)
  have htrim := (mem_lineOf.1 hline).2
  rw [trimString_eq_trimmed hshort] at htrim
  have htrimmed : trimmed (withoutCarriageReturn frame) = line := Except.ok.inj htrim
  refine ⟨fun hmem => hframe (mem_of_lineOf hline hmem), ?_, ?_⟩
  · rw [← htrimmed]
    exact trimmed_getLast _
  · rw [← htrimmed]
    omega

theorem ShortStep.known (h : ShortStep s turn s') : KnownStep InputLine s turn s' := by
  refine ⟨fun frame hframe line hline => ?_, h.2⟩
  exact inputLine_of_mem_lineOf (newline_notMem_turnFrames hframe) (h.1 frame hframe) hline

/-- The target of a request to join is the end of the line. -/
theorem roomName_of_parse (hline : InputLine line)
    (hparse : parse line = .ok ⟨.joinRoom, room, []⟩) : RoomName room := by
  cases parse_eq_iff.1 hparse with
  | joinRoom _ hroom =>
      have hlast : (str "/join " ++ room).getLast? = room.getLast? :=
        List.getLast?_append_of_ne_nil _ hroom
      refine ⟨hroom, fun hmem => hline.oneLine (List.mem_append_right _ hmem), ?_, hline.short⟩
      rw [← hlast]
      exact hline.last

/-- The lobby can be asked for. -/
theorem lobby_roomName : RoomName lobby where
  nonempty := by decide
  oneLine := by decide
  last := by decide
  short := by decide

/-- The lines of a client only bring in names that fit on a line. -/
theorem Profile.Line.roomsNamed (h : p.Line line p') (hline : InputLine line)
    (hp : p.RoomsNamed) : p'.RoomsNamed := by
  cases h with
  | named => exact ⟨fun _ => lobby_roomName, fun hne => absurd rfl hne⟩
  | settled room hstate hroom =>
      refine ⟨fun hne => ?_, fun hne => absurd rfl hne⟩
      rcases hroom with rfl | rfl | hparse
      · exact lobby_roomName
      · exact hp.connectedRoom hne
      · exact roomName_of_parse hline hparse
  | prompted state room hchat hstate hparse =>
      exact ⟨hp.room, fun _ => roomName_of_parse hline hparse⟩
  | resumed => exact ⟨hp.room, hp.connectedRoom⟩
  | kept => exact hp

/-- The rooms of a state reached with short lines have names that fit on a line. -/
theorem roomName_of_mem (hs : Reachable ShortStep .started s) (hr : r ∈ s.rooms) : RoomName r := by
  rcases hs with ⟨ts, hrun⟩
  have hknown : Reachable (KnownStep InputLine) .started s :=
    ⟨ts, hrun.mono fun _ _ _ hstep => hstep.known⟩
  rcases turn_profiles (P := Profile.RoomsNamed)
    ⟨fun hne => absurd rfl hne, fun hne => absurd rfl hne⟩
    (fun line p p' hline hstep hp => hstep.roomsNamed hline hp) hknown with ⟨hturn, hprofiles⟩
  have hledger := (accounted_of_reachable (reachable_of_turn hturn)).ledger
  rcases hledger.mem_iff.1 hr with rfl | ⟨hne, hpos⟩
  · exact lobby_roomName
  · -- somebody is in the room
    rw [population_hall, List.length_pos_iff_exists_mem] at hpos
    rcases hpos with ⟨fd, hfd⟩
    rcases AList.mem_keysWhere.1 hfd with ⟨c, hc, hroom⟩
    have hname := (hprofiles fd c.profile (profileOf_eq hc)).room
    rw [show c.profile.room = r from beq_iff_eq.1 hroom] at hname
    exact hname hne

/-- Behind {lit}`/join` and with a carriage return, a name that fits on a line is handed
on whole. -/
theorem RoomName.lineOf (h : RoomName r) :
    str "/join " ++ r ∈ EpollChat.lineOf (str "/join " ++ r ++ [carriageReturn]) := by
  have hcut :
      withoutCarriageReturn (str "/join " ++ r ++ [carriageReturn]) = str "/join " ++ r := by
    simp [withoutCarriageReturn]
  have hlast : (str "/join " ++ r).getLast? = r.getLast? :=
    List.getLast?_append_of_ne_nil _ h.nonempty
  have hfirst : (str "/join " ++ r).head? ≠ some space := by
    change some (47 : UInt8) ≠ some space
    decide
  rw [mem_lineOf, hcut, trimString_eq_trimmed h.short,
    trimmed_eq_self hfirst (hlast ▸ h.last)]
  exact ⟨by simp [h.nonempty], rfl⟩

end Names

/-! ## Joining a room by its name -/

section Joining

variable {s : ChatServer} {client : Fd} {c : Session} {r : Str} {room : Room}

/-- What a request to join an open room leads to. -/
structure Admitted (c' : Session) (r password : Str) : Prop where
  walkedIn : password = [] → c'.room = r
  asked : password ≠ [] → c'.state = .stateEnterRoomPassword ∧ c'.connectedRoom = r
  notSetUp : c'.state ≠ .stateSetupRoomPassword

/-- An arrival in an open room opens no other. -/
theorem mem_occupy {rooms : RoomTable} {name : Str} (hr : r ∈ rooms) (h : name ∈ occupy rooms r) :
    name ∈ rooms := by
  by_cases hname : name = r
  · rwa [hname]
  · rw [← AList.lookup_isSome, lookup_occupy_ne hname, AList.lookup_isSome] at h
    exact h

/-- A departure opens no room. -/
theorem mem_vacate {rooms : RoomTable} {name : Str} (h : name ∈ vacate rooms r) : name ∈ rooms := by
  by_cases hname : name = r
  · subst hname
    by_contra hnot
    rw [vacate, AList.lookup_eq_none.2 hnot] at h
    exact hnot h
  · rw [← AList.lookup_isSome, lookup_vacate_ne hname, AList.lookup_isSome] at h
    exact h

/-- A move to an open room opens no room. -/
theorem joined_rooms_subset (hr : r ∈ s.rooms) (hother : c.room ≠ r) {name : Str}
    (h : name ∈ (s.joined client c r).rooms) : name ∈ s.rooms := by
  have hkept : r ∈ (s.vacated c).rooms := by
    rw [vacated_rooms]
    split
    · rwa [← AList.lookup_isSome, lookup_vacate_ne (Ne.symm hother), AList.lookup_isSome]
    · exact hr
  have hvacated := mem_occupy hkept h
  rw [vacated_rooms] at hvacated
  split at hvacated
  · exact mem_vacate hvacated
  · exact hvacated

/-- A request to join an open room is granted or leads to the password prompt. -/
theorem joinRequested_admitted (hc : s.clients.lookup client = some c)
    (hchat : c.state = .stateChat)
    (hroom : s.rooms.lookup r = some room) (hother : c.room ≠ r) :
    (∃ c', (s.joinRequested client c r).clients.lookup client = some c' ∧
      Admitted c' r room.password) ∧
    ∀ name ∈ (s.joinRequested client c r).rooms, name ∈ s.rooms := by
  unfold joinRequested
  rw [if_neg hother]
  simp only [hroom]
  by_cases hpassword : room.password = []
  · rw [if_pos hpassword]
    refine ⟨⟨_, joined_lookup_self hc r, ?_, ?_, ?_⟩, fun name => ?_⟩
    · intro _
      simp [Session.enterRoom]
    · exact fun hne => absurd hpassword hne
    · simp [Session.enterRoom, hchat]
    · exact joined_rooms_subset (AList.mem_of_lookup hroom) hother
  · rw [if_neg hpassword]
    refine ⟨⟨_, answered_lookup_self hc _ _, ?_, ?_, ?_⟩, fun name hname => hname⟩
    · exact fun hnil => absurd hnil hpassword
    · intro _
      simp [Session.prompt]
    · simp [Session.prompt]

end Joining

/-- In every state reached with lines shorter than {lit}`2 ^ 31`, for every room and
every client that chats elsewhere and has nothing buffered: all cuttings of the request
to join the room by its name, with a carriage return and a newline, end in one and the
same state; the client is handed one line, which is parsed as the request to join
exactly this room; the client is in the room, if that has no password, and else waits
for the password of the room; and no room is new. -/
theorem room_joinable {s : ChatServer} (hs : Reachable ShortStep .started s) {client : Fd}
    {c : Session} (hc : s.clients.lookup client = some c) (hchat : c.state = .stateChat)
    (hempty : c.inBuffer = []) {r : Str} {room : Room} (hroom : s.rooms.lookup r = some room)
    (hother : c.room ≠ r) :
    ∃ s' c' line,
      (∀ calls : List (List Chunk), calls.flatten.flatMap Chunk.bytes =
        str "/join " ++ r ++ [carriageReturn, newline] → readCalls s client calls = .ok s') ∧
      s'.clients.lookup client = some c' ∧ c'.handed = c.handed ++ [line] ∧
      parse line = .ok ⟨.joinRoom, r, []⟩ ∧ Admitted c' r room.password ∧
      ∀ name ∈ s'.rooms, name ∈ s.rooms := by
  have hname := roomName_of_mem hs (AList.mem_of_lookup hroom)
  have hparse := parse_of_grammar (.joinRoom r hname.nonempty)
  have hok := processMessage_join hc hchat hparse
  rcases joinRequested_admitted (noted_lookup_self hc (str "/join " ++ r)) hchat hroom hother with
    ⟨⟨c', hc', hadmitted⟩, hrooms⟩
  rcases processMessage_holds hc hok with ⟨_, c'', hc'', _, hhanded⟩
  rw [hc'] at hc''
  cases hc''
  refine ⟨_, c', str "/join " ++ r, fun calls hcalls => ?_, hc', hhanded, hparse, hadmitted, hrooms⟩
  have hframe : newline ∉ str "/join " ++ r ++ [carriageReturn] := by
    simp only [List.mem_append, not_or]
    exact ⟨⟨by decide, hname.oneLine⟩, by decide⟩
  have hbytes : calls.flatten.flatMap Chunk.bytes =
      str "/join " ++ r ++ [carriageReturn] ++ [newline] := by
    rw [hcalls, List.append_assoc (str "/join " ++ r)]
    rfl
  rw [readCalls_line hc hempty hframe hbytes, handleLine_eq_processMessage hname.lineOf, hok]

/-- One client opens a protected room, another one is in the lobby. -/
def denOpened : List Turn :=
  [.ready (.server [.connection 5 true true, .connection 6 true true]),
    .ready (.sends 5 (str "ann\n/join den\nsecret\n")), .ready (.sends 6 (str "bob\n"))]

/-- A line that comes in two reads asks for the room it names. -/
theorem den_joinable : ∃ s' c',
    readCalls (.afterTurns denOpened) 6 [[⟨str "/join de", by decide, by decide⟩],
      [⟨str "n\r\n", by decide, by decide⟩]] = .ok s' ∧
    s'.clients.lookup 6 = some c' ∧ c'.state = .stateEnterRoomPassword ∧
    c'.connectedRoom = str "den" := by
  have hshort : ∀ t ∈ ChatServer.turnTrace denOpened, ∀ frame ∈ t.event.frames t.pre,
      (withoutCarriageReturn frame).length < 2 ^ 31 := by decide +kernel
  have hs : Reachable ShortStep .started (.afterTurns denOpened) :=
    ⟨_, (run_turnTrace denOpened).restrict hshort⟩
  have hbob : ((ChatServer.afterTurns denOpened).clients.lookup 6).map (fun c =>
      (c.state, c.inBuffer, c.room)) = some (.stateChat, [], lobby) := by decide +kernel
  have hden : ((ChatServer.afterTurns denOpened).rooms.lookup (str "den")).map Room.password =
      some (str "secret") := by decide +kernel
  rcases Option.map_eq_some_iff.1 hbob with ⟨c, hc, hfields⟩
  rcases Option.map_eq_some_iff.1 hden with ⟨room, hroom, hpassword⟩
  simp only [Prod.mk.injEq] at hfields
  rcases hfields with ⟨hchat, hempty, hlobby⟩
  have hother : c.room ≠ str "den" := by
    rw [hlobby]
    decide
  rcases room_joinable hs hc hchat hempty hroom hother with
    ⟨s', c', _, hcalls, hc', _, _, hadmitted, _⟩
  have hasked := hadmitted.asked (by rw [hpassword]; decide)
  exact ⟨s', c', hcalls _ (by decide), hc', hasked.1, hasked.2⟩

end EpollChat
