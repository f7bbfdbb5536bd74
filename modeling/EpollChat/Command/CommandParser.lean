import EpollChat.Utils.Helper

/-!
# command/command_parser.cpp - Parsing a line into a command

Commands are recognised by their prefix, in the order of the source; everything
else is a plain message.

Main results:

- Theorem {lit}`parse_result`: the results a line can have; no {lit}`substr` of
  the parser is out of range, and a room name to join is never empty.
-/

namespace EpollChat

/-- {lit}`ParsedCommand::Type` -/
inductive CommandType
  | plainMessage
  | privateMessage
  | joinRoom
  | leaveRoom
  | onlineList
  | roomList
  | unknown
deriving DecidableEq, Repr

/-- {lit}`struct ParsedCommand`. -/
structure ParsedCommand where
  type : CommandType
  target : Str
  text : Str
deriving DecidableEq

/-- {lit}`s.rfind(p, 0) == 0` -/
def startsWith (s p : Str) : Bool :=
  p.isPrefixOf s

/-- The loop over {lit}`i` that looks for a space; 0 stands for "not found". -/
def findSpace (remaining : Str) (i : Nat) : Nat :=
  findByte space remaining i

/-- {lit}`parse_private_message`. -/
def parsePrivateMessage (line : Str) : Except Fault ParsedCommand :=
  let indexNicknameStart := findSpace (line.drop 5) 5
  if indexNicknameStart = 0 ∨ indexNicknameStart = line.length - 1 then
    .ok ⟨.unknown, [], []⟩
  else do
    let nickname ← substr line 5 (indexNicknameStart - 5)
    let msg ← substrFrom line (indexNicknameStart + 1)
    return ⟨.privateMessage, nickname, msg⟩

/-- {lit}`parse_join_room`. -/
def parseJoinRoom (line : Str) : Except Fault ParsedCommand := do
  let roomName ← substrFrom line 6
  if roomName = [] then
    return ⟨.unknown, [], []⟩
  else
    return ⟨.joinRoom, roomName, []⟩

/-- {lit}`parse_leave_room`. -/
def parseLeaveRoom (_line : Str) : ParsedCommand :=
  ⟨.leaveRoom, [], []⟩

/-- {lit}`parse_online_list`. -/
def parseOnlineList (_line : Str) : ParsedCommand :=
  ⟨.onlineList, [], []⟩

/-- {lit}`parse_room_list`. -/
def parseRoomList (_line : Str) : ParsedCommand :=
  ⟨.roomList, [], []⟩

/-- {lit}`CommandParser::parse`. -/
def parse (line : Str) : Except Fault ParsedCommand :=
  if startsWith line (str "/msg ") then parsePrivateMessage line
  else if startsWith line (str "/join ") then parseJoinRoom line
  else if startsWith line (str "/leave") then .ok (parseLeaveRoom line)
  else if startsWith line (str "/online") then .ok (parseOnlineList line)
  else if startsWith line (str "/rooms") then .ok (parseRoomList line)
  else .ok ⟨.plainMessage, [], line⟩

/-! ## Ranges -/

/-- A space found by the scan lies among the scanned positions. -/
theorem findSpace_lt {remaining : Str} {i : Nat} (h : findSpace remaining i ≠ 0) :
    i ≤ findSpace remaining i ∧ findSpace remaining i < i + remaining.length :=
  findByte_lt h

theorem length_le_of_startsWith {s p : Str} (h : startsWith s p = true) :
    p.length ≤ s.length :=
  (List.isPrefixOf_iff_prefix.mp h).length_le

/-- The two {lit}`substr` calls on a private message stay in range. -/
theorem parsePrivateMessage_cases (line : Str) :
    parsePrivateMessage line = .ok ⟨.unknown, [], []⟩ ∨
      ∃ nickname msg, parsePrivateMessage line = .ok ⟨.privateMessage, nickname, msg⟩ := by
  by_cases h : findSpace (line.drop 5) 5 = 0 ∨ findSpace (line.drop 5) 5 = line.length - 1
  · left
    rw [parsePrivateMessage, if_pos h]
  · right
    have hfound := findSpace_lt (not_or.mp h).1
    simp only [List.length_drop] at hfound
    refine ⟨(line.drop 5).take (findSpace (line.drop 5) 5 - 5),
      line.drop (findSpace (line.drop 5) 5 + 1), ?_⟩
    rw [parsePrivateMessage, if_neg h]
    simp only [substr, substrFrom, bind, Except.bind]
    rw [if_neg (by omega), if_neg (by omega)]
    rfl

theorem parseJoinRoom_cases {line : Str} (h : 6 ≤ line.length) :
    parseJoinRoom line = .ok ⟨.unknown, [], []⟩ ∨
      ∃ roomName, roomName ≠ [] ∧ parseJoinRoom line = .ok ⟨.joinRoom, roomName, []⟩ := by
  simp only [parseJoinRoom, substrFrom, bind, Except.bind, if_neg (Nat.not_lt.mpr h)]
  by_cases hempty : line.drop 6 = []
  · left
    rw [if_pos hempty]
    rfl
  · right
    refine ⟨line.drop 6, hempty, ?_⟩
    rw [if_neg hempty]
    rfl

/-- The results of {lit}`parse`: no {lit}`substr` is out of range, only a plain
message carries the line, and a room name to join is never empty. -/
inductive ParseResult (line : Str) : Except Fault ParsedCommand → Prop
  | plainMessage : ParseResult line (.ok ⟨.plainMessage, [], line⟩)
  | privateMessage (target text : Str) : ParseResult line (.ok ⟨.privateMessage, target, text⟩)
  | joinRoom (target : Str) (h : target ≠ []) : ParseResult line (.ok ⟨.joinRoom, target, []⟩)
  | leaveRoom : ParseResult line (.ok ⟨.leaveRoom, [], []⟩)
  | onlineList : ParseResult line (.ok ⟨.onlineList, [], []⟩)
  | roomList : ParseResult line (.ok ⟨.roomList, [], []⟩)
  | unknown : ParseResult line (.ok ⟨.unknown, [], []⟩)

/-- Every line has one of these results. -/
theorem parse_result (line : Str) : ParseResult line (parse line) := by
  unfold parse
  split
  · rcases parsePrivateMessage_cases line with h | ⟨nickname, msg, h⟩
    · rw [h]
      exact .unknown
    · rw [h]
      exact .privateMessage nickname msg
  · split <;> rename_i hjoin
    · rcases parseJoinRoom_cases (length_le_of_startsWith hjoin) with h | ⟨roomName, hne, h⟩
      · rw [h]
        exact .unknown
      · rw [h]
        exact .joinRoom roomName hne
    · split
      · exact .leaveRoom
      · split
        · exact .onlineList
        · split
          · exact .roomList
          · exact .plainMessage

/-- A plain message carries the whole line. -/
theorem parse_plainMessage {line target text : Str}
    (h : parse line = .ok ⟨.plainMessage, target, text⟩) : target = [] ∧ text = line := by
  have hresult := parse_result line
  rw [h] at hresult
  cases hresult
  exact ⟨rfl, rfl⟩

end EpollChat
