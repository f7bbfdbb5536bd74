import EpollChat.Command.Grammar

/-!
# Command words

{lit}`parse` compares prefixes where the documented commands are words: the prefixes of
{lit}`/leave`, {lit}`/online` and {lit}`/rooms` do not contain the space that would end
the word, and a second space behind {lit}`/msg` or {lit}`/join` counts as text.

Main results:

- Theorem {lit}`parse_documented_iff`: for which lines the parser returns what the table
  of commands says.
-/

namespace EpollChat

/-- The bytes of a line in front of its first space. -/
def firstWord (line : Str) : Str :=
  line.takeWhile fun b => b != space

def commandWords : List Str :=
  [str "/msg", str "/join", str "/leave", str "/online", str "/rooms"]

/-- A line has a command that the documentation gives it. -/
structure Documented (line : Str) (cmd : ParsedCommand) : Prop where
  leaveRoom : cmd.type = .leaveRoom → firstWord line = str "/leave"
  onlineList : cmd.type = .onlineList → firstWord line = str "/online"
  roomList : cmd.type = .roomList → firstWord line = str "/rooms"
  privateMessage : cmd.type = .privateMessage → cmd.target ≠ [] ∧ cmd.text ≠ []
  joinRoom : cmd.type = .joinRoom → cmd.target ≠ [] ∧ cmd.target.head? ≠ some space
  plainMessage : firstWord line ∉ commandWords → cmd = ⟨.plainMessage, [], line⟩

/-- The lines that only begin like a command. -/
inductive Misread : Str → Prop
  | noTarget (more : Str) : Misread (str "/msg  " ++ more)
  | noRoom (more : Str) : Misread (str "/join  " ++ more)
  | longerWord (word : Str) (hword : word ∈ [str "/leave", str "/online", str "/rooms"])
      (b : UInt8) (hb : b ≠ space) (more : Str) : Misread (word ++ b :: more)

section FirstWord

variable {word more : Str}

/-- The first word goes on behind a part without spaces. -/
theorem firstWord_append (hword : space ∉ word) :
    firstWord (word ++ more) = word ++ firstWord more := by
  refine List.takeWhile_append_of_pos fun b hb => ?_
  have hne : b ≠ space := ne_of_mem_of_not_mem hb hword
  simpa using hne

theorem firstWord_space (more : Str) : firstWord (space :: more) = [] :=
  rfl

theorem firstWord_cons {b : UInt8} (hb : b ≠ space) :
    firstWord (b :: more) = b :: firstWord more := by
  simp [firstWord, hb]

theorem space_notMem_word (hword : word ∈ [str "/leave", str "/online", str "/rooms"]) :
    space ∉ word := by
  revert word
  decide

/-- A command word is the first word of a line that begins with it unless the word goes on. -/
theorem firstWord_command (hword : word ∈ [str "/leave", str "/online", str "/rooms"])
    (hread : ¬Misread (word ++ more)) : firstWord (word ++ more) = word := by
  rw [firstWord_append (space_notMem_word hword)]
  cases more with
  | nil => simp [firstWord]
  | cons b more =>
      have hb : b = space := by
        by_contra hb
        exact hread (.longerWord word hword b hb more)
      rw [hb, firstWord_space, List.append_nil]

/-- A line that is not misread begins with a command. -/
theorem firstWord_mem (hword : word ∈ [str "/leave", str "/online", str "/rooms"])
    (hread : ¬Misread (word ++ more)) : firstWord (word ++ more) ∈ commandWords := by
  rw [firstWord_command hword hread]
  exact List.mem_cons_of_mem _ (List.mem_cons_of_mem _ hword)

end FirstWord

section Parser

variable {line : Str} {cmd : ParsedCommand}

/-- What the grammar gives to a line that is not misread is documented. -/
theorem documented_of_not_misread (h : Grammar line cmd) (hread : ¬Misread line) :
    Documented line cmd := by
  cases h with
  | privateMessage nickname text hnickname htext =>
      have hword : str "/msg" ∈ commandWords := List.mem_cons_self
      have htarget : nickname ≠ [] := by
        rintro rfl
        exact hread (.noTarget text)
      exact ⟨nofun, nofun, nofun, fun _ => ⟨htarget, htext⟩, nofun, absurd hword⟩
  | joinRoom roomName hroom =>
      have hword : str "/join" ∈ commandWords := by decide
      have hhead : roomName.head? ≠ some space := by
        intro hhead
        rcases List.head?_eq_some_iff.1 hhead with ⟨more, rfl⟩
        exact hread (.noRoom more)
      exact ⟨nofun, nofun, nofun, nofun, fun _ => ⟨hroom, hhead⟩, absurd hword⟩
  | leaveRoom more =>
      have hfirst := firstWord_command (by decide) hread
      have hword := firstWord_mem (by decide) hread
      exact ⟨fun _ => hfirst, nofun, nofun, nofun, nofun, absurd hword⟩
  | onlineList more =>
      have hfirst := firstWord_command (by decide) hread
      have hword := firstWord_mem (by decide) hread
      exact ⟨nofun, fun _ => hfirst, nofun, nofun, nofun, absurd hword⟩
  | roomList more =>
      have hfirst := firstWord_command (by decide) hread
      have hword := firstWord_mem (by decide) hread
      exact ⟨nofun, nofun, fun _ => hfirst, nofun, nofun, absurd hword⟩
  | unknown _ hline =>
      have hword : firstWord line ∈ commandWords := by
        cases hline with
        | noText nickname hnickname => exact List.mem_cons_self
        | emptyText nickname hnickname => exact List.mem_cons_self
        | noRoom => decide
      exact ⟨nofun, nofun, nofun, nofun, nofun, absurd hword⟩
  | plainMessage _ hline => exact ⟨nofun, nofun, nofun, nofun, nofun, fun _ => rfl⟩

/-- A misread line that does not end with a space is given a command it should not have. -/
theorem not_documented_of_misread (hmisread : Misread line) (hlast : line.getLast? ≠ some space)
    (h : Grammar line cmd) : ¬Documented line cmd := by
  intro hdoc
  have hparse := parse_of_grammar h
  cases hmisread with
  | noTarget more =>
      have hmore : more ≠ [] := by
        rintro rfl
        exact hlast rfl
      have hempty := parse_of_grammar (.privateMessage [] more (by decide) hmore)
      rw [show str "/msg  " ++ more = str "/msg " ++ [] ++ str " " ++ more from rfl,
        hempty] at hparse
      cases hparse
      exact (hdoc.privateMessage rfl).1 rfl
  | noRoom more =>
      have hspace := parse_of_grammar (.joinRoom (space :: more) (List.cons_ne_nil _ _))
      rw [show str "/join  " ++ more = str "/join " ++ space :: more from rfl, hspace] at hparse
      cases hparse
      exact (hdoc.joinRoom rfl).2 rfl
  | longerWord word hword b hb more =>
      have hlonger : firstWord (word ++ b :: more) ≠ word := by
        rw [firstWord_append (space_notMem_word hword), firstWord_cons hb]
        simp
      simp only [List.mem_cons, List.not_mem_nil, or_false] at hword
      rcases hword with rfl | rfl | rfl
      · cases hparse
        exact hlonger (hdoc.leaveRoom rfl)
      · cases hparse
        exact hlonger (hdoc.onlineList rfl)
      · cases hparse
        exact hlonger (hdoc.roomList rfl)

/-- The parser returns a documented command for exactly the lines that do not merely begin
like one: that begin with neither {lit}`/msg` nor {lit}`/join` and two spaces, and with
none of {lit}`/leave`, {lit}`/online` and {lit}`/rooms` and another byte than a space.
The lines are those {lit}`handle_client_read` delivers, which do not end with a space. -/
theorem parse_documented_iff (hlast : line.getLast? ≠ some space) :
    (∃ cmd, parse line = .ok cmd ∧ Documented line cmd) ↔ ¬Misread line := by
  constructor
  · rintro ⟨cmd, hparse, hdoc⟩ hmisread
    exact not_documented_of_misread hmisread hlast (parse_eq_iff.1 hparse) hdoc
  · intro hread
    rcases grammar_total line with ⟨cmd, hcmd⟩
    exact ⟨cmd, parse_of_grammar hcmd, documented_of_not_misread hcmd hread⟩

end Parser

/-- A command with arguments is read as documented. -/
theorem leave_now_documented :
    (∃ cmd, parse (str "/leave now") = .ok cmd ∧ Documented (str "/leave now") cmd) ↔
      ¬Misread (str "/leave now") :=
  parse_documented_iff (by decide)

/-- {lit}`/leaves` leaves the room, {lit}`/msg  bob` goes to nobody. -/
theorem leaves_not_documented :
    parse (str "/leaves") = .ok ⟨.leaveRoom, [], []⟩ ∧
      firstWord (str "/leaves") ∉ commandWords ∧
      parse (str "/msg  bob") = .ok ⟨.privateMessage, [], str "bob"⟩ ∧
      parse (str "/join  den") = .ok ⟨.joinRoom, str " den", []⟩ ∧
      ¬Documented (str "/leaves") ⟨.leaveRoom, [], []⟩ := by
  refine ⟨by decide, by decide, by decide, by decide, fun hdoc => ?_⟩
  exact absurd (hdoc.leaveRoom rfl) (by decide)

end EpollChat
