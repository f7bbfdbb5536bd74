import EpollChat.Command.CommandHandler
import EpollChat.Library.Machines
import EpollChat.Server.System

/-!
# The chat service

What the server is for, without descriptors that are written to, counters that are kept
and buffers that are filled: users with a name are in rooms, a room is open as long as
somebody is in it, and whoever chats in a room is told what happens there.  The service
is a machine that takes what the clients do and tells them its answers.

Main results:

- Definition {lit}`Service.react`: what the service does with one action.
- Definition {lit}`serviceMachine`: the service with the record of what its users were
  told.
-/

namespace EpollChat

open ChatServer (leftMessage joinedMessage)

/-! ## Users -/

/-- What a user with a name is doing: chatting, or being asked for the password of a room
that is to be created or is there already. -/
inductive Mode
  | chatting
  | founding (target : Str)
  | entering (target : Str)
deriving DecidableEq

/-- A user is in a room as soon as it has a name. -/
inductive User
  | unnamed
  | named (name room : Str) (mode : Mode)
deriving DecidableEq

namespace User

/-- The user is in the room, chatting or not. -/
def isIn (r : Str) : User → Bool
  | .unnamed => false
  | .named _ room _ => room == r

/-- The user is at no prompt. -/
def isChatting : User → Bool
  | .named _ _ .chatting => true
  | _ => false

/-- The user is told what happens in a room. -/
def chatsIn (r : Str) (u : User) : Bool :=
  u.isChatting && u.isIn r

/-- The name, or none yet. -/
def name : User → Str
  | .unnamed => []
  | .named name _ _ => name

end User

/-! ## The service -/

/-- The users, and the passwords of the open rooms. -/
structure Service where
  users : AList fun _ : Fd => User
  passwords : AList fun _ : Str => Str

/-- What a client does, as far as others can notice.  The last action is a change of the
order in which users and rooms are listed, if it is one; nobody connects twice. -/
inductive Action
  | connect (user : Fd)
  | line (user : Fd) (line : Str)
  | leave (user : Fd)
  | reorder (users : AList fun _ : Fd => User) (passwords : AList fun _ : Str => Str)
deriving DecidableEq

/-- What a line asks a user that chats for. -/
inductive Command
  | say (text : Str)
  | whisper (target text : Str)
  | join (target : Str)
  | leave
  | online
  | rooms
  | unfinished
deriving DecidableEq

/-- A command without a case in {lit}`CommandHandler::execute` is unfinished. -/
def ParsedCommand.command : ParsedCommand → Command
  | ⟨.plainMessage, _, text⟩ => .say text
  | ⟨.privateMessage, target, text⟩ => .whisper target text
  | ⟨.joinRoom, target, _⟩ => .join target
  | ⟨.leaveRoom, _, _⟩ => .leave
  | ⟨.onlineList, _, _⟩ => .online
  | ⟨.roomList, _, _⟩ => .rooms
  | ⟨.unknown, _, _⟩ => .unfinished

/-- No line makes the parser fail, so that the last case is never used. -/
def commandOf (line : Str) : Command :=
  match parse line with
  | .ok cmd => cmd.command
  | .error _ => .unfinished

/-- The service after an action, and what the action tells each user. -/
structure Reaction where
  next : Service
  tells : Fd → List Str

/-- The farewell of a user. -/
def goneMessage (name : Str) : Str :=
  name ++ str " left the server\n"

namespace Service

/-- Only the lobby is open. -/
def started : Service where
  users := ∅
  passwords := AList.insert lobby [] ∅

variable (σ : Service) (user : Fd)

/-- The users in a room. -/
def members (r : Str) : List Fd :=
  σ.users.keysWhere (User.isIn r)

/-- The user chats in the room. -/
def ChatsIn (r : Str) (fd : Fd) : Prop :=
  (σ.users.lookup fd).any (User.chatsIn r) = true

instance (r : Str) (fd : Fd) : Decidable (σ.ChatsIn r fd) :=
  inferInstanceAs (Decidable (_ = _))

/-- The user chats in some room. -/
def Chats (fd : Fd) : Prop :=
  (σ.users.lookup fd).any User.isChatting = true

instance (fd : Fd) : Decidable (σ.Chats fd) :=
  inferInstanceAs (Decidable (_ = _))

/-- The entry of a user changes. -/
def put (u : User) : Service :=
  { σ with users := σ.users.modify user fun _ => u }

/-- The open rooms when one user has left a room: the last one closes it. -/
def passwordsWithout (room : Str) : AList fun _ : Str => Str :=
  if room ≠ lobby ∧ ∀ other ∈ σ.members room, other = user then σ.passwords.erase room
  else σ.passwords

/-! ### Telling -/

/-- A message to one user. -/
def toUser (msg : Str) (fd : Fd) : List Str :=
  if fd = user then [msg] else []

/-- A message to everybody who chats in a room. -/
def toRoom (r msg : Str) (fd : Fd) : List Str :=
  if σ.ChatsIn r fd then [msg] else []

/-- Nothing happens, and one user is told something. -/
def answer (msg : Str) : Reaction :=
  ⟨σ, toUser user msg⟩

/-- One user changes, and is told something. -/
def reply (u : User) (msg : Str) : Reaction :=
  ⟨σ.put user u, toUser user msg⟩

/-- A user moves to another room; {lit}`aloud` says whether it is told of its own arrival. -/
def move (name room : Str) (aloud : Bool) (target : Str) : Reaction where
  next :=
    { users := σ.users.modify user fun _ => .named name target .chatting
      passwords :=
        let left := σ.passwordsWithout user room
        if target ∈ left then left else left.insert target [] }
  tells fd :=
    σ.toRoom room (leftMessage name room) fd ++
      if σ.ChatsIn target fd ∨ (fd = user ∧ aloud) then [joinedMessage name target] else []

/-- A reaction that ends with a message to one user. -/
def andTell (r : Reaction) (msg : Str) : Reaction :=
  ⟨r.next, fun fd => r.tells fd ++ toUser user msg fd⟩

def setPassword (r : Reaction) (room password : Str) : Reaction :=
  ⟨{ r.next with passwords := r.next.passwords.modify room fun _ => password }, r.tells⟩

/-! ### Lines -/

/-- The first user in the order of the list that chats under a name. -/
def findName (target : Str) : Option Fd :=
  σ.users.findKey fun u => u.isChatting && u.name == target

def onlineListMessage (room : Str) : Str :=
  str "Users in room '" ++ room ++ str "': " ++
    (σ.users.entries.filter fun e => e.2.isIn room).flatMap (fun e => e.2.name ++ str " ") ++
      str "\n"

/-- The open rooms with the number of users in each. -/
def roomsListMessage : Str :=
  str "Rooms list: " ++
    σ.passwords.entries.flatMap
      (fun e => e.1 ++ str "[" ++ intToString (σ.members e.1).length ++ str "] ") ++ str "\n"

/-- A new user takes a name and enters the lobby. -/
def introduce (name : Str) : Reaction where
  next := σ.put user (.named name lobby .chatting)
  tells fd :=
    (if σ.ChatsIn lobby fd ∨ fd = user then [joinedMessage name lobby] else []) ++
      toUser user (welcomeMessage name) fd

/-- The answer to the question for the password of a new room. -/
def found (name room target line : Str) : Reaction :=
  andTell user (setPassword (σ.move user name room false target) target line) passwordSetMessage

/-- The answer to the question for the password of a room. -/
def enter (name room target line : Str) : Reaction :=
  match σ.passwords.lookup target with
  | none => σ.reply user (.named name room .chatting) roomDeletedMessage
  | some password =>
      if password = line then
        andTell user (σ.move user name room false target) passwordSuccessMessage
      else σ.reply user (.named name room .chatting) incorrectPasswordMessage

/-- {lit}`/join`. -/
def join (name room target : Str) : Reaction :=
  if room = target then σ.answer user alreadyInRoomMessage
  else
    match σ.passwords.lookup target with
    | none => σ.reply user (.named name room (.founding target)) createPasswordPrompt
    | some password =>
        if password = [] then σ.move user name room true target
        else σ.reply user (.named name room (.entering target)) enterPasswordPrompt

/-- {lit}`/msg`. -/
def whisper (name target text : Str) : Reaction :=
  match σ.findName target with
  | none => σ.answer user (notFoundMessage target)
  | some fd =>
      andTell user (σ.answer fd (privateMessageFrom name text)) (privateMessageTo target text)

/-- What a chatting user asks for. -/
def command (name room : Str) : Command → Reaction
  | .say text => ⟨σ, σ.toRoom room (chatMessage name text)⟩
  | .whisper target text => σ.whisper user name target text
  | .join target => σ.join user name room target
  | .leave =>
      if room = lobby then σ.answer user inLobbyMessage else σ.move user name room true lobby
  | .online => σ.answer user (σ.onlineListMessage room)
  | .rooms => σ.answer user σ.roomsListMessage
  | .unfinished => ⟨σ, fun _ => []⟩

/-- What the line of a user does. -/
def line (u : User) (line : Str) : Reaction :=
  match u with
  | .unnamed => σ.introduce user line
  | .named name room .chatting => σ.command user name room (commandOf line)
  | .named name room (.founding target) => σ.found user name room target line
  | .named name room (.entering target) => σ.enter user name room target line

/-! ### Actions -/

/-- A user is removed; its room and the other rooms are told of it if it has a name. -/
def leave : User → Reaction
  | .unnamed => ⟨{ σ with users := σ.users.erase user }, fun _ => []⟩
  | .named name room _ =>
      { next := { users := σ.users.erase user, passwords := σ.passwordsWithout user room }
        tells := fun fd =>
          σ.toRoom room (leftMessage name room) fd ++
            if name ≠ [] ∧ σ.Chats fd then [goneMessage name] else [] }

/-- What an action does. -/
def react : Action → Reaction
  | .connect user =>
      if user ∈ σ.users then ⟨σ, fun _ => []⟩
      else ⟨{ σ with users := σ.users.insert user .unnamed }, toUser user nicknamePrompt⟩
  | .line user line =>
      match σ.users.lookup user with
      | none => ⟨σ, fun _ => []⟩
      | some u => σ.line user u line
  | .leave user =>
      match σ.users.lookup user with
      | none => ⟨σ, fun _ => []⟩
      | some u => σ.leave user u
  | .reorder users passwords =>
      if users.entries.Perm σ.users.entries ∧ passwords.entries.Perm σ.passwords.entries then
        ⟨⟨users, passwords⟩, fun _ => []⟩
      else ⟨σ, fun _ => []⟩

end Service

/-- The action removes a user. -/
def Action.removes : Action → Fd → Bool
  | .leave user, fd => fd == user
  | _, _ => false

/-- The service as a machine whose outputs are texts. -/
def serviceMachine : Machine Service Action Fd Str where
  next σ a := (σ.react a).next
  tells σ a := (σ.react a).tells
  drops := Action.removes

/-- The service after some actions from its start. -/
def Service.after (as : List Action) : Service :=
  as.foldl serviceMachine.next .started

/-- Everything a user has been told since it connected. -/
def Service.transcript (as : List Action) (fd : Fd) : List Str :=
  (serviceMachine.recorded (.started, fun _ => []) as).2 fd

example : Service.transcript [.connect 5, .line 5 (str "ann"), .line 5 (str "hi")] 5 =
    [nicknamePrompt, joinedMessage (str "ann") lobby, welcomeMessage (str "ann"),
      chatMessage (str "ann") (str "hi")] := by decide +kernel

end EpollChat
