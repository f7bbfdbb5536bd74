import EpollChat.Properties.Refinement

/-!
# The order of the tables

The server walks through its tables of clients and rooms, whose order nobody has promised
and which may change whenever an entry is added.  The order decides which of two users of
one name gets a private message, and how the replies to {lit}`/online` and {lit}`/rooms`
are sorted.  It decides nothing else.

Main results:

- Theorem {lit}`react_sameTables`: the service does the same with its tables in any order.
- Theorem {lit}`order_unobservable`: two runs that differ in the orders of the tables leave
  everybody with the same texts, up to the sorting of lists.
-/

namespace EpollChat

open ChatServer

/-! ## Texts with sorted lists -/

/-- The same text, or the same list sorted in another way. -/
inductive SameText : Str → Str → Prop
  | same (text : Str) : SameText text text
  | online (room : Str) {names names' : List Str} (h : names.Perm names') :
      SameText (onlineText room names) (onlineText room names')
  | rooms {rooms rooms' : List (Str × Nat)} (h : rooms.Perm rooms') :
      SameText (roomsText rooms) (roomsText rooms')

/-- Equal texts are the same up to the sorting of lists. -/
theorem sameTexts_of_eq {texts texts' : List Str} (h : texts = texts') :
    List.Forall₂ SameText texts texts' := by
  subst h
  exact List.forall₂_same.2 fun text _ => .same text

/-! ## Tables in another order -/

namespace Service

/-- The same users and the same open rooms, in any order. -/
structure SameTables (σ σ' : Service) : Prop where
  users : σ.users.entries.Perm σ'.users.entries
  passwords : σ.passwords.entries.Perm σ'.passwords.entries

/-- At most one user chats under a name. -/
def Unambiguous (σ : Service) (target : Str) : Prop :=
  ∀ fd ∈ σ.users.keysWhere fun u => u.isChatting && u.name == target,
    ∀ fd' ∈ σ.users.keysWhere fun u => u.isChatting && u.name == target, fd = fd'

instance (σ : Service) (target : Str) : Decidable (σ.Unambiguous target) := by
  unfold Unambiguous
  infer_instance

/-- The name in a private message. -/
def addressee (σ : Service) : Action → Option Str
  | .line user line =>
      match σ.users.lookup user with
      | some (.named _ _ .chatting) =>
          match commandOf line with
          | .whisper target _ => some target
          | _ => none
      | _ => none
  | _ => none

/-- If the action is a private message, then it has one possible receiver at most. -/
def Clear (σ : Service) (a : Action) : Prop :=
  ∀ target ∈ σ.addressee a, σ.Unambiguous target

instance (σ : Service) (a : Action) : Decidable (σ.Clear a) := by
  unfold Clear
  infer_instance

end Service

/-- The reactions leave the same tables, and tell everybody the same. -/
structure Reaction.Same (r r' : Reaction) : Prop where
  next : r.next.SameTables r'.next
  tells : ∀ fd, List.Forall₂ SameText (r.tells fd) (r'.tells fd)

/-- The action does nothing but change the order of the tables. -/
def Action.reorders : Action → Bool
  | .reorder _ _ => true
  | _ => false

namespace Service

variable {σ σ' : Service} {user : Fd} {u : User} {name room target line msg msg' : Str}

theorem SameTables.refl (σ : Service) : σ.SameTables σ :=
  ⟨.refl _, .refl _⟩

theorem SameTables.symm (h : σ.SameTables σ') : σ'.SameTables σ :=
  ⟨h.users.symm, h.passwords.symm⟩

theorem SameTables.trans {σ'' : Service} (h : σ.SameTables σ') (h' : σ'.SameTables σ'') :
    σ.SameTables σ'' :=
  ⟨h.users.trans h'.users, h.passwords.trans h'.passwords⟩

section Views

variable (h : σ.SameTables σ')
include h

/-- The order of the table does not matter to a lookup of a user. -/
theorem SameTables.users_lookup (fd : Fd) : σ.users.lookup fd = σ'.users.lookup fd :=
  AList.perm_lookup h.users

/-- The order of the table does not matter to a lookup of a room. -/
theorem SameTables.passwords_lookup (r : Str) : σ.passwords.lookup r = σ'.passwords.lookup r :=
  AList.perm_lookup h.passwords

/-- The same users chat in a room. -/
theorem SameTables.chatsIn_iff (r : Str) (fd : Fd) : σ.ChatsIn r fd ↔ σ'.ChatsIn r fd := by
  rw [ChatsIn, ChatsIn, h.users_lookup]

theorem SameTables.chats_iff (fd : Fd) : σ.Chats fd ↔ σ'.Chats fd := by
  rw [Chats, Chats, h.users_lookup]

/-- The same users get a text for a room. -/
theorem SameTables.toRoom (r msg : Str) (fd : Fd) : σ.toRoom r msg fd = σ'.toRoom r msg fd := by
  simp only [Service.toRoom, h.chatsIn_iff]

/-- A change of one entry keeps the tables alike. -/
theorem SameTables.put (u : User) : (σ.put user u).SameTables (σ'.put user u) :=
  ⟨AList.modify_perm h.users _ _, h.passwords⟩

/-- A departure closes the same room, or none. -/
theorem SameTables.passwordsWithout (room : Str) :
    (σ.passwordsWithout user room).entries.Perm (σ'.passwordsWithout user room).entries := by
  have hlast : (room ≠ lobby ∧ ∀ other ∈ σ.members room, other = user) ↔
      (room ≠ lobby ∧ ∀ other ∈ σ'.members room, other = user) := by
    simp only [members, AList.perm_mem_keysWhere h.users]
  unfold Service.passwordsWithout
  by_cases hempty : room ≠ lobby ∧ ∀ other ∈ σ.members room, other = user
  · rw [if_pos hempty, if_pos (hlast.1 hempty)]
    exact AList.perm_erase h.passwords
  · rw [if_neg hempty, if_neg (mt hlast.2 hempty)]
    exact h.passwords

/-! ### Lists -/

/-- The replies to {lit}`/online` list the same names. -/
theorem SameTables.onlineListMessage (room : Str) :
    SameText (σ.onlineListMessage room) (σ'.onlineListMessage room) := by
  have hlisted (σ : Service) : σ.onlineListMessage room =
      onlineText room ((σ.users.entries.filter fun e => e.2.isIn room).map fun e => e.2.name) := by
    rw [Service.onlineListMessage, onlineText, List.flatMap_map]
  rw [hlisted σ, hlisted σ']
  exact .online room ((h.users.filter _).map _)

/-- The replies to {lit}`/rooms` list the same rooms with the same numbers. -/
theorem SameTables.roomsListMessage : SameText σ.roomsListMessage σ'.roomsListMessage := by
  have hlisted (σ : Service) : σ.roomsListMessage =
      roomsText (σ.passwords.entries.map fun e => (e.1, (σ.members e.1).length)) := by
    rw [Service.roomsListMessage, roomsText, List.flatMap_map]
  have hsizes (r : Str) : (σ.members r).length = (σ'.members r).length := by
    rw [members, members, AList.length_keysWhere, AList.length_keysWhere]
    exact AList.countVal_perm h.users
  rw [hlisted σ, hlisted σ']
  simp only [hsizes]
  exact .rooms (h.passwords.map _)

end Views

/-! ### Reactions -/

/-- Reactions that tell everybody the same texts are alike. -/
theorem sameReaction_of_eq {r r' : Reaction} (hnext : r.next.SameTables r'.next)
    (htells : ∀ fd, r.tells fd = r'.tells fd) : r.Same r' :=
  ⟨hnext, fun fd => sameTexts_of_eq (htells fd)⟩

/-- Answers are alike if their texts are. -/
theorem sameReaction_answer (h : σ.SameTables σ') (hmsg : SameText msg msg') :
    (σ.answer user msg).Same (σ'.answer user msg') := by
  refine ⟨h, fun fd => ?_⟩
  simp only [answer, toUser]
  split
  · exact .cons hmsg .nil
  · exact .nil

theorem sameReaction_reply (h : σ.SameTables σ') (u : User) (msg : Str) :
    (σ.reply user u msg).Same (σ'.reply user u msg) :=
  sameReaction_of_eq (h.put u) fun _ => rfl

/-- One more text for a user keeps reactions alike. -/
theorem sameReaction_andTell {r r' : Reaction} (h : r.Same r') (msg : Str) :
    (andTell user r msg).Same (andTell user r' msg) :=
  ⟨h.next, fun fd => List.rel_append (h.tells fd) (sameTexts_of_eq rfl)⟩

/-- A move is announced to the same users and opens the same room. -/
theorem sameReaction_move (h : σ.SameTables σ') (aloud : Bool) :
    (σ.move user name room aloud target).Same (σ'.move user name room aloud target) := by
  have hleft : (σ.passwordsWithout user room).entries.Perm
      (σ'.passwordsWithout user room).entries := h.passwordsWithout room
  refine sameReaction_of_eq ⟨AList.modify_perm h.users _ _, ?_⟩ fun fd => ?_
  · simp only [move]
    by_cases hopen : target ∈ σ.passwordsWithout user room
    · rw [if_pos hopen, if_pos ((AList.mem_of_perm hleft).1 hopen)]
      exact hleft
    · rw [if_neg hopen, if_neg (mt (AList.mem_of_perm hleft).2 hopen)]
      exact AList.perm_insert hleft
  · simp only [move, h.toRoom, h.chatsIn_iff]

/-! ### Lines -/

/-- A new name is announced to the same users. -/
theorem sameReaction_introduce (h : σ.SameTables σ') (name : Str) :
    (σ.introduce user name).Same (σ'.introduce user name) := by
  refine sameReaction_of_eq (h.put _) fun fd => ?_
  simp only [introduce, h.chatsIn_iff]

/-- A founder sets the password of the same room. -/
theorem sameReaction_found (h : σ.SameTables σ') (line : Str) :
    (σ.found user name room target line).Same (σ'.found user name room target line) := by
  have hmove : (σ.move user name room false target).Same (σ'.move user name room false target) :=
    sameReaction_move h false
  apply sameReaction_andTell
  exact ⟨⟨hmove.next.users, AList.modify_perm hmove.next.passwords _ _⟩, hmove.tells⟩

/-- A password is compared with that of the same room. -/
theorem sameReaction_enter (h : σ.SameTables σ') (line : Str) :
    (σ.enter user name room target line).Same (σ'.enter user name room target line) := by
  rw [enter, enter, h.passwords_lookup]
  cases σ'.passwords.lookup target with
  | none => exact sameReaction_reply h _ _
  | some password =>
      simp only
      split
      · exact sameReaction_andTell (sameReaction_move h false) _
      · exact sameReaction_reply h _ _

/-- A room is open, closed or protected whatever the order. -/
theorem sameReaction_join (h : σ.SameTables σ') :
    (σ.join user name room target).Same (σ'.join user name room target) := by
  rw [join, join, h.passwords_lookup]
  split
  · exact sameReaction_answer h (.same _)
  · cases σ'.passwords.lookup target with
    | none => exact sameReaction_reply h _ _
    | some password =>
        simp only
        split
        · exact sameReaction_move h true
        · exact sameReaction_reply h _ _

/-- A private message with one possible receiver gets there whatever the order. -/
theorem sameReaction_whisper (h : σ.SameTables σ') (hclear : σ.Unambiguous target) (text : Str) :
    (σ.whisper user name target text).Same (σ'.whisper user name target text) := by
  have hfound : σ'.findName target = σ.findName target := AList.findKey_perm h.users hclear
  rw [whisper, whisper, hfound]
  cases σ.findName target with
  | none => exact sameReaction_answer h (.same _)
  | some fd => exact sameReaction_andTell (sameReaction_answer h (.same _)) _

/-- A line means the same whatever the order, unless its receiver is ambiguous. -/
theorem sameReaction_line (h : σ.SameTables σ') (hu : σ.users.lookup user = some u)
    (hclear : σ.Clear (.line user line)) : (σ.line user u line).Same (σ'.line user u line) := by
  match u with
  | .unnamed => exact sameReaction_introduce h line
  | .named name room (.founding target) => exact sameReaction_found h line
  | .named name room (.entering target) => exact sameReaction_enter h line
  | .named name room .chatting =>
      simp only [Service.line]
      cases hcommand : commandOf line with
      | say text => exact sameReaction_of_eq h (h.toRoom _ _)
      | whisper target text =>
          have hnamed : σ.addressee (.line user line) = some target := by
            simp only [addressee, hu, hcommand]
          exact sameReaction_whisper h (hclear target hnamed) text
      | join target => exact sameReaction_join h
      | leave =>
          simp only [command]
          split
          · exact sameReaction_answer h (.same _)
          · exact sameReaction_move h true
      | online => exact sameReaction_answer h (h.onlineListMessage room)
      | rooms => exact sameReaction_answer h h.roomsListMessage
      | unfinished => exact sameReaction_of_eq h fun _ => rfl

/-- A departure is announced to the same users and closes the same room. -/
theorem sameReaction_leave (h : σ.SameTables σ') :
    (σ.leave user u).Same (σ'.leave user u) := by
  cases u with
  | unnamed => exact sameReaction_of_eq ⟨AList.perm_erase h.users, h.passwords⟩ fun _ => rfl
  | named name room mode =>
      refine sameReaction_of_eq ⟨AList.perm_erase h.users, h.passwordsWithout room⟩ fun fd => ?_
      simp only [leave, h.toRoom, h.chats_iff]

/-! ### Actions -/

/-- An action that is not about the order has the same effect in every order, as long as its
private message, if it is one, has one possible receiver. -/
theorem react_sameTables (h : σ.SameTables σ') {a : Action} (ha : a.reorders = false)
    (hclear : σ.Clear a) : (σ.react a).Same (σ'.react a) := by
  cases a with
  | connect user =>
      simp only [react]
      by_cases hmem : user ∈ σ.users
      · rw [if_pos hmem, if_pos ((AList.mem_of_perm h.users).1 hmem)]
        exact sameReaction_of_eq h fun _ => rfl
      · rw [if_neg hmem, if_neg (mt (AList.mem_of_perm h.users).2 hmem)]
        exact sameReaction_of_eq ⟨AList.perm_insert h.users, h.passwords⟩ fun _ => rfl
  | line user line =>
      have hlookup := h.users_lookup user
      simp only [react, ← hlookup]
      cases hu : σ.users.lookup user with
      | none => exact sameReaction_of_eq h fun _ => rfl
      | some u => exact sameReaction_line h hu hclear
  | leave user =>
      simp only [react, h.users_lookup]
      cases σ'.users.lookup user with
      | none => exact sameReaction_of_eq h fun _ => rfl
      | some u => exact sameReaction_leave h
  | reorder users passwords => cases ha

/-- A change of the order leaves the tables with the same entries. -/
theorem react_reorder (σ : Service) {a : Action} (ha : a.reorders = true) :
    (σ.react a).next.SameTables σ ∧ ∀ fd, (σ.react a).tells fd = [] := by
  cases a with
  | reorder users passwords =>
      simp only [react]
      split <;> rename_i hperm
      · exact ⟨⟨hperm.1, hperm.2⟩, fun _ => rfl⟩
      · exact ⟨.refl σ, fun _ => rfl⟩
  | connect user => cases ha
  | line user line => cases ha
  | leave user => cases ha

/-- The service in one order and in another are related as machines. -/
theorem relates_sameTables :
    serviceMachine.Relates Action.reorders Service.Clear SameTables SameText where
  left ha h := (react_reorder _ ha).1.trans h
  right ha h := h.trans (react_reorder _ ha).1.symm
  untold ha := (react_reorder _ ha).2 _
  kept {a k} ha := by
    cases a with
    | reorder users passwords => rfl
    | connect user => cases ha
    | line user line => cases ha
    | leave user => cases ha
  next ha hclear h := (react_sameTables h ha hclear).next
  tells ha hclear h := (react_sameTables h ha hclear).tells _

end Service

/-! ## Runs of the server -/

/-- Take two runs from start-up in which the same happens, but which may differ in the order of
the tables at any time.  If every private message has at most one possible receiver, then in
the end the same users are in the same rooms, the same rooms are open under the same
passwords, and everybody has got the same texts, up to the sorting of lists. -/
theorem order_unobservable {ts ts' : List (Transition ChatServer Event)} {s s' : ChatServer}
    (hrun : Run Step .started ts s) (hrun' : Run Step .started ts' s')
    (hsame : ((ts.flatMap Transition.actions).filter fun a => !a.reorders) =
      (ts'.flatMap Transition.actions).filter fun a => !a.reorders)
    (hclear : serviceMachine.Throughout Service.Clear .started (ts.flatMap Transition.actions)) :
    s.service.SameTables s'.service ∧
      ∀ fd, List.Forall₂ SameText (s.textsTo fd) (s'.textsTo fd) := by
  have hstarted : Machine.Related Service.SameTables SameText
      ((.started, fun _ => []) : Service × (Fd → List Str)) (.started, fun _ => []) :=
    ⟨.refl _, fun _ => .nil⟩
  have hrelated := Machine.recorded_related Service.relates_sameTables hstarted hclear hsame
  rw [← run_recorded hrun, ← run_recorded hrun'] at hrelated
  exact hrelated

/-- Two clients introduce themselves. -/
def callers : List Event :=
  [.accept 5 true true, .accept 6 true true, .line 5 (str "ann"), .line 6 (str "bob")]

/-- The table of clients from its end. -/
def turnedAround (s : ChatServer) : ClientTable :=
  ⟨s.clients.entries.reverse, (List.perm_nodupKeys (List.reverse_perm _)).2 s.clients.nodupKeys⟩

/-- The second run turns the table around before a list is asked for. -/
theorem callers_relisted :
    let asked : Event := .line 5 (str "/online")
    let turned : Event := .rehash (turnedAround (.after callers)) (ChatServer.after callers).rooms
    let texts := (ChatServer.after (callers ++ [asked])).textsTo 5
    let texts' := (ChatServer.after (callers ++ [turned, asked])).textsTo 5
    List.Forall₂ SameText texts texts' ∧
      texts.getLast? = some (onlineText lobby [str "bob", str "ann"]) ∧
      texts'.getLast? = some (onlineText lobby [str "ann", str "bob"]) := by
  intro asked turned texts texts'
  refine ⟨(order_unobservable (run_trace _) (run_trace _) ?_ ?_).2 5, ?_, ?_⟩
  · decide +kernel
  · decide +kernel
  · decide +kernel
  · decide +kernel

end EpollChat
