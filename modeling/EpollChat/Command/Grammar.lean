import EpollChat.Library.Framing
import EpollChat.Command.CommandParser

/-!
# The grammar of the commands

The parser works with positions; this module says what it accepts in terms of the
text of a line, one rule for each kind of command, and shows that the parser
computes exactly this relation.

Main results:

- Theorem {lit}`parse_eq_iff`: the parser returns a command exactly when the grammar
  gives it to the line.
- Theorem {lit}`parse_lossless`: commands are parsed back from their text, and every
  line is the text of the command it is parsed into.
-/

namespace EpollChat

/-! ## The relation -/

/-- The prefixes {lit}`parse` looks for, in its order. -/
def commandPrefixes : List Str :=
  [str "/msg ", str "/join ", str "/leave", str "/online", str "/rooms"]

/-- Lines that begin like a command but lack one of its parts. -/
inductive Unfinished : Str → Prop
  | noText (nickname : Str) (hnickname : space ∉ nickname) :
      Unfinished (str "/msg " ++ nickname)
  | emptyText (nickname : Str) (hnickname : space ∉ nickname) :
      Unfinished (str "/msg " ++ nickname ++ str " ")
  | noRoom : Unfinished (str "/join ")

/-- What a line means. -/
inductive Grammar : Str → ParsedCommand → Prop
  | privateMessage (nickname text : Str) (hnickname : space ∉ nickname) (htext : text ≠ []) :
      Grammar (str "/msg " ++ nickname ++ str " " ++ text) ⟨.privateMessage, nickname, text⟩
  | joinRoom (roomName : Str) (hroom : roomName ≠ []) :
      Grammar (str "/join " ++ roomName) ⟨.joinRoom, roomName, []⟩
  | leaveRoom (more : Str) : Grammar (str "/leave" ++ more) ⟨.leaveRoom, [], []⟩
  | onlineList (more : Str) : Grammar (str "/online" ++ more) ⟨.onlineList, [], []⟩
  | roomList (more : Str) : Grammar (str "/rooms" ++ more) ⟨.roomList, [], []⟩
  | unknown (line : Str) (hline : Unfinished line) : Grammar line ⟨.unknown, [], []⟩
  | plainMessage (line : Str) (hline : ∀ p ∈ commandPrefixes, startsWith line p = false) :
      Grammar line ⟨.plainMessage, [], line⟩

/-! ## The scan for a space -/

section Scan

variable {xs : Str}

/-- The scan stops at the first space. -/
theorem findSpace_append_cons (h : space ∉ xs) (ys : Str) (i : Nat) :
    findSpace (xs ++ space :: ys) i = i + xs.length :=
  findByte_append_cons h ys i

theorem findSpace_of_notMem (h : space ∉ xs) (i : Nat) : findSpace xs i = 0 :=
  findByte_of_notMem h i

end Scan

/-! ## The parser computes the relation -/

section Parser

variable {line nickname text rest : Str} {cmd : ParsedCommand}

/-- The positions of the parser cut a private message at its first space. -/
theorem parsePrivateMessage_split (hnickname : space ∉ nickname) (htext : text ≠ []) :
    parsePrivateMessage (str "/msg " ++ (nickname ++ space :: text)) =
      .ok ⟨.privateMessage, nickname, text⟩ := by
  have hdrop : (str "/msg " ++ (nickname ++ space :: text)).drop 5 =
      nickname ++ space :: text := rfl
  have hlength : (str "/msg " ++ (nickname ++ space :: text)).length =
      5 + nickname.length + text.length + 1 := by
    simp only [List.length_append, List.length_cons]
    change 5 + _ = _
    omega
  have hpos : 0 < text.length := List.length_pos_iff.2 htext
  have hrest : (str "/msg " ++ (nickname ++ space :: text)).drop (5 + nickname.length + 1) =
      text := by
    rw [Nat.add_assoc, ← List.drop_drop, hdrop]
    simp
  unfold parsePrivateMessage
  rw [hdrop, findSpace_append_cons hnickname]
  simp only [hlength]
  rw [if_neg (by omega)]
  simp only [substr, substrFrom, hlength, bind, Except.bind, hdrop, hrest]
  rw [if_neg (by omega), if_neg (by omega)]
  simp [pure, Except.pure]

/-- Without a space, or with nothing behind it, a private message is unfinished. -/
theorem parsePrivateMessage_unfinished
    (h : findSpace rest 5 = 0 ∨ findSpace rest 5 = (str "/msg " ++ rest).length - 1) :
    parsePrivateMessage (str "/msg " ++ rest) = .ok ⟨.unknown, [], []⟩ := by
  have hdrop : (str "/msg " ++ rest).drop 5 = rest := rfl
  rw [parsePrivateMessage, hdrop, if_pos h]

theorem parse_msg (rest : Str) :
    parse (str "/msg " ++ rest) = parsePrivateMessage (str "/msg " ++ rest) :=
  if_pos rfl

theorem parse_join (rest : Str) :
    parse (str "/join " ++ rest) = parseJoinRoom (str "/join " ++ rest) :=
  rfl

/-- Every line the grammar gives a command to is parsed into it. -/
theorem parse_of_grammar (h : Grammar line cmd) : parse line = .ok cmd := by
  cases h with
  | privateMessage nickname text hnickname htext =>
      rw [List.append_assoc, List.append_assoc, parse_msg]
      exact parsePrivateMessage_split hnickname htext
  | joinRoom roomName hroom =>
      have hdrop : (str "/join " ++ roomName).drop 6 = roomName := rfl
      have hlength : ¬(str "/join " ++ roomName).length < 6 := by
        rw [List.length_append]
        exact Nat.not_lt.2 (Nat.le_add_right 6 _)
      rw [parse_join]
      simp only [parseJoinRoom, substrFrom, if_neg hlength, bind, Except.bind, hdrop, if_neg hroom]
      rfl
  | leaveRoom more => rfl
  | onlineList more => rfl
  | roomList more => rfl
  | unknown _ hline =>
      cases hline with
      | noText nickname hnickname =>
          rw [parse_msg]
          exact parsePrivateMessage_unfinished (Or.inl (findSpace_of_notMem hnickname 5))
      | emptyText nickname hnickname =>
          rw [List.append_assoc, parse_msg]
          apply parsePrivateMessage_unfinished
          right
          refine (findSpace_append_cons hnickname [] 5).trans ?_
          simp only [List.length_append]
          change 5 + _ = 5 + (_ + 1) - 1
          omega
      | noRoom => rfl
  | plainMessage _ hline =>
      have hnone : ∀ p ∈ commandPrefixes, ¬startsWith line p = true := fun p hp => by
        simp [hline p hp]
      simp only [commandPrefixes, List.forall_mem_cons] at hnone
      rcases hnone with ⟨hmsg, hjoin, hleave, honline, hrooms, _⟩
      rw [parse, if_neg hmsg, if_neg hjoin, if_neg hleave, if_neg honline, if_neg hrooms]

example : parse (str "/msg Vasya Privet!") =
    .ok ⟨.privateMessage, str "Vasya", str "Privet!"⟩ := by decide

theorem exists_of_startsWith {s p : Str} (h : startsWith s p = true) : ∃ rest, s = p ++ rest := by
  rcases List.isPrefixOf_iff_prefix.mp h with ⟨rest, hrest⟩
  exact ⟨rest, hrest.symm⟩

/-- The grammar gives every line a command. -/
theorem grammar_total (line : Str) : ∃ cmd, Grammar line cmd := by
  by_cases hmsg : startsWith line (str "/msg ") = true
  · rcases exists_of_startsWith hmsg with ⟨rest, rfl⟩
    by_cases hspace : space ∈ rest
    · rcases eq_append_cons_of_mem hspace with ⟨nickname, text, hnickname, rfl⟩
      by_cases htext : text = []
      · subst htext
        have h := Unfinished.emptyText nickname hnickname
        rw [List.append_assoc] at h
        exact ⟨_, .unknown _ h⟩
      · have h := Grammar.privateMessage nickname text hnickname htext
        rw [List.append_assoc, List.append_assoc] at h
        exact ⟨_, h⟩
    · exact ⟨_, .unknown _ (.noText rest hspace)⟩
  by_cases hjoin : startsWith line (str "/join ") = true
  · rcases exists_of_startsWith hjoin with ⟨rest, rfl⟩
    by_cases hrest : rest = []
    · subst hrest
      exact ⟨_, .unknown _ .noRoom⟩
    · exact ⟨_, .joinRoom rest hrest⟩
  by_cases hleave : startsWith line (str "/leave") = true
  · rcases exists_of_startsWith hleave with ⟨rest, rfl⟩
    exact ⟨_, .leaveRoom rest⟩
  by_cases honline : startsWith line (str "/online") = true
  · rcases exists_of_startsWith honline with ⟨rest, rfl⟩
    exact ⟨_, .onlineList rest⟩
  by_cases hrooms : startsWith line (str "/rooms") = true
  · rcases exists_of_startsWith hrooms with ⟨rest, rfl⟩
    exact ⟨_, .roomList rest⟩
  refine ⟨_, .plainMessage line ?_⟩
  simp only [commandPrefixes, List.forall_mem_cons, ← Bool.not_eq_true]
  exact ⟨hmsg, hjoin, hleave, honline, hrooms, by simp⟩

/-- The parser never throws, and returns what the grammar says. -/
theorem parse_eq_iff : parse line = .ok cmd ↔ Grammar line cmd := by
  constructor
  · intro hparse
    rcases grammar_total line with ⟨cmd', hcmd'⟩
    rw [parse_of_grammar hcmd'] at hparse
    cases hparse
    exact hcmd'
  · exact parse_of_grammar

/-- An unfinished line, and no other, is parsed into no command. -/
theorem parse_unknown_iff : parse line = .ok ⟨.unknown, [], []⟩ ↔ Unfinished line := by
  rw [parse_eq_iff]
  constructor
  · rintro ⟨⟩
    assumption
  · exact Grammar.unknown line

end Parser

/-! ## Commands and their text -/

/-- A private message to a nickname without spaces and a request to join a room are
parsed back from their text.  For every line the parser returns a command; the text
of a private message and of a request to join is the line, and a plain message is the
line and begins with none of the five command prefixes. -/
theorem parse_lossless :
    (∀ nickname text, space ∉ nickname → text ≠ [] →
      parse (str "/msg " ++ nickname ++ str " " ++ text) =
        .ok ⟨.privateMessage, nickname, text⟩) ∧
    (∀ roomName, roomName ≠ [] →
      parse (str "/join " ++ roomName) = .ok ⟨.joinRoom, roomName, []⟩) ∧
    (∀ line, ∃ cmd, parse line = .ok cmd ∧
      (cmd.type = .privateMessage → str "/msg " ++ cmd.target ++ str " " ++ cmd.text = line) ∧
      (cmd.type = .joinRoom → str "/join " ++ cmd.target = line) ∧
      (cmd.type = .plainMessage → cmd.text = line ∧
        ∀ p ∈ commandPrefixes, startsWith line p = false)) := by
  refine ⟨?_, ?_, ?_⟩
  · intro nickname text hnickname htext
    exact parse_of_grammar (.privateMessage nickname text hnickname htext)
  · intro roomName hroom
    exact parse_of_grammar (.joinRoom roomName hroom)
  · intro line
    rcases grammar_total line with ⟨cmd, hcmd⟩
    refine ⟨cmd, parse_of_grammar hcmd, ?_⟩
    cases hcmd with
    | privateMessage nickname text hnickname htext => simp
    | joinRoom roomName hroom => simp
    | plainMessage _ hline => simpa using hline
    | leaveRoom more => simp
    | onlineList more => simp
    | roomList more => simp
    | unknown _ hline => simp

/-- The text of a private message may begin with a space. -/
theorem msg_lossless :
    parse (str "/msg bob  hi") = .ok ⟨.privateMessage, str "bob", str " hi"⟩ :=
  parse_lossless.1 (str "bob") (str " hi") (by decide) (by decide)

end EpollChat
