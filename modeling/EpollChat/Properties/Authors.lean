import EpollChat.Library.Separators
import EpollChat.Properties.Naming

/-!
# Who a displayed line is from

A plain message is shown as {lit}`[nickname]: text`, an announcement of the server as
{lit}`[SERVER]: text`.  Nothing is escaped and any line can be a nickname, so the first
{lit}`]: ` of a displayed line need not be where the nickname ends.

Main results:

- Theorem {lit}`chatMessage_eq_iff`: which plain messages are displayed alike.
- Theorem {lit}`displayed_author_iff`: with which lines of other users and of the server a
  plain message can be confused.
-/

namespace EpollChat

open ChatServer

/-- What stands between a nickname and a text. -/
def authorSeparator : Str := str "]: "

theorem authorSeparator_unbordered : Unbordered authorSeparator := by
  decide

/-- An announcement without its author. -/
def joinedText (nickname room : Str) : Str :=
  nickname ++ str " joined the room [" ++ room ++ str "]."

/-- The announcement of a departure behind its author. -/
def leftText (nickname room : Str) : Str :=
  nickname ++ str " left the room [" ++ room ++ str "]."

section Format

variable {nickname nickname' text text' room : Str}

/-- The server is displayed like a user. -/
theorem joinedMessage_eq_chatMessage (nickname room : Str) :
    joinedMessage nickname room = chatMessage (str "SERVER") (joinedText nickname room) := by
  simp only [joinedMessage, chatMessage, joinedText, List.append_assoc]
  rfl

/-- The announcement of a departure reads like a message of {lit}`SERVER`. -/
theorem leftMessage_eq_chatMessage (nickname room : Str) :
    leftMessage nickname room = chatMessage (str "SERVER") (leftText nickname room) := by
  simp only [leftMessage, chatMessage, leftText, List.append_assoc]
  rfl

/-- A message is a bracket, the name, the separator and the text. -/
theorem chatMessage_eq_joined (nickname text : Str) :
    chatMessage nickname text =
      str "[" ++ (nickname ++ authorSeparator ++ text ++ str "\n") := by
  simp only [chatMessage, authorSeparator, List.append_assoc]

/-- Two plain messages are displayed alike exactly when they are the same or one nickname
goes on with the other's text. -/
theorem chatMessage_eq_iff :
    chatMessage nickname text = chatMessage nickname' text' ↔
      nickname = nickname' ∧ text = text' ∨
        ReadsOn authorSeparator nickname text nickname' text' ∨
          ReadsOn authorSeparator nickname' text' nickname text := by
  rw [chatMessage_eq_joined, chatMessage_eq_joined, List.append_cancel_left_eq,
    List.append_cancel_right_eq]
  exact joined_eq_iff authorSeparator_unbordered

theorem chatMessage_eq_iff_of_ne (hne : nickname' ≠ nickname) :
    chatMessage nickname text = chatMessage nickname' text' ↔
      ReadsOn authorSeparator nickname text nickname' text' ∨
        ReadsOn authorSeparator nickname' text' nickname text := by
  rw [chatMessage_eq_iff]
  exact or_iff_right fun h => hne h.1.symm

/-- The server's own name holds no separator. -/
theorem chatMessage_eq_server_iff :
    chatMessage nickname text = chatMessage (str "SERVER") text' ↔
      nickname = str "SERVER" ∧ text = text' ∨
        ReadsOn authorSeparator (str "SERVER") text' nickname text := by
  have hinfix : ¬authorSeparator <:+: str "SERVER" := by decide
  rw [chatMessage_eq_iff, or_iff_right (not_readsOn_of_notInfix hinfix)]

end Format

section Author

variable {s : ChatServer} {client : Fd} {c : Session} {line target text : Str}

/-- A plain message of a client that chats is displayed under its nickname.  For every other
nickname and every text: they are displayed alike exactly when one of the two nicknames is
the other one, the separator and more, and the other one's text continues it up to a
separator and the first one's text.  The message looks like an announcement exactly when
the nickname is {lit}`SERVER` and the text that of the announcement, or when the nickname
is {lit}`SERVER`, the separator and the front of such a text. -/
theorem displayed_author_iff (hc : s.clients.lookup client = some c) (hchat : c.state = .stateChat)
    (hparse : parse line = .ok ⟨.plainMessage, target, text⟩) :
    s.processMessage client line =
        .ok ((s.noted client line).broadcast (chatMessage c.nickname line) c.room) ∧
      (∀ nickname' text', nickname' ≠ c.nickname →
        (chatMessage c.nickname line = chatMessage nickname' text' ↔
          ReadsOn authorSeparator c.nickname line nickname' text' ∨
            ReadsOn authorSeparator nickname' text' c.nickname line)) ∧
      ∀ nickname' room,
        (chatMessage c.nickname line = joinedMessage nickname' room ↔
          c.nickname = str "SERVER" ∧ line = joinedText nickname' room ∨
            ReadsOn authorSeparator (str "SERVER") (joinedText nickname' room) c.nickname line) ∧
        (chatMessage c.nickname line = leftMessage nickname' room ↔
          c.nickname = str "SERVER" ∧ line = leftText nickname' room ∨
            ReadsOn authorSeparator (str "SERVER") (leftText nickname' room) c.nickname line) := by
  refine ⟨processMessage_plain hc hchat hparse, ?_, ?_⟩
  · intro nickname' text' hne
    exact chatMessage_eq_iff_of_ne hne
  · intro nickname' room
    rw [joinedMessage_eq_chatMessage, leftMessage_eq_chatMessage]
    exact ⟨chatMessage_eq_server_iff, chatMessage_eq_server_iff⟩

end Author

/-- Three users, two of whom took names with a purpose. -/
def impersonators : List ReadyEvent :=
  [.server [.connection 5 true true, .connection 6 true true, .connection 7 true true],
    .sends 5 (str "ann\n"), .sends 6 (str "ann]: hi\n"), .sends 7 (str "SERVER\n")]

/-- The nickname of a client that chats. -/
def ChatServer.chatName (s : ChatServer) (client : Fd) : Option Str :=
  (s.clients.lookup client).bind fun c => if c.state = .stateChat then some c.nickname else none

/-- One user writes in the name of another, one in the name of the server. -/
theorem impersonators_displayed :
    LoopState (.afterEvents impersonators) ∧
      (ChatServer.afterEvents impersonators).chatName 5 = some (str "ann") ∧
      (ChatServer.afterEvents impersonators).chatName 6 = some (str "ann]: hi") ∧
      (ChatServer.afterEvents impersonators).chatName 7 = some (str "SERVER") ∧
      parse (str "hi]: x") = .ok ⟨.plainMessage, [], str "hi]: x"⟩ ∧
      parse (str "x") = .ok ⟨.plainMessage, [], str "x"⟩ ∧
      chatMessage (str "ann") (str "hi]: x") = chatMessage (str "ann]: hi") (str "x") ∧
      parse (str "bob left the room [den].") =
        .ok ⟨.plainMessage, [], str "bob left the room [den]."⟩ ∧
      chatMessage (str "SERVER") (str "bob left the room [den].") =
        leftMessage (str "bob") (str "den") := by
  refine ⟨⟨_, run_loopTrace impersonators⟩, ?_⟩
  decide +kernel

/-- What {lit}`ann` writes is not displayed as written by {lit}`bob`. -/
theorem ann_displayed :
    chatMessage (str "ann") (str "hello") ≠ chatMessage (str "bob") (str "hello") := by
  have hann : ((ChatServer.afterEvents impersonators).clients.lookup 5).map
      (fun c => (c.state, c.nickname)) = some (.stateChat, str "ann") := by decide +kernel
  rcases Option.map_eq_some_iff.1 hann with ⟨c, hc, hfields⟩
  rcases Prod.mk.inj hfields with ⟨hchat, hname⟩
  have hhello : parse (str "hello") = .ok ⟨.plainMessage, [], str "hello"⟩ := by decide
  have hdisplayed := (displayed_author_iff hc hchat hhello).2.1 (str "bob") (str "hello")
  rw [hname] at hdisplayed
  intro halike
  rcases (hdisplayed (by decide)).1 halike with hreads | hreads
  · exact not_readsOn_of_notInfix (by decide) hreads
  · exact not_readsOn_of_notInfix (by decide) hreads

end EpollChat
