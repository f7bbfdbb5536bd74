import EpollChat.Command.Grammar
import EpollChat.Properties.Conversation

/-!
# One line for every text

What the server sends is a stream of bytes without lengths, and every text is put together
from what users have chosen.  No user can choose a name, a room or a message with a newline
in it; a reader that cuts its bytes at the newlines therefore gets one line for every text,
with a prompt in front of the line that follows it, and never a line that the server has
not sent as one.

Main results:

- Theorem {lit}`react_tame`: the service keeps newlines out of names and of the middle of
  texts.
- Theorem {lit}`one_line_per_text`: the lines of a client are its texts.
-/

namespace EpollChat

open ChatServer

/-! ## Names and texts without newlines -/

/-- No newline in the room that a prompt is about. -/
def Mode.Tame : Mode → Prop
  | .chatting => True
  | .founding target => newline ∉ target
  | .entering target => newline ∉ target

/-- No newline in the name and in the rooms of a user. -/
def User.Tame : User → Prop
  | .unnamed => True
  | .named name room mode => newline ∉ name ∧ newline ∉ room ∧ mode.Tame

/-- Nobody has chosen a newline. -/
structure Service.Tame (σ : Service) : Prop where
  users : ∀ fd u, σ.users.lookup fd = some u → u.Tame
  rooms : ∀ r ∈ σ.passwords, newline ∉ r

/-- No newline in the arguments of a command. -/
def Command.Tame : Command → Prop
  | .say text => newline ∉ text
  | .whisper target text => newline ∉ target ∧ newline ∉ text
  | .join target => newline ∉ target
  | _ => True

/-- No newline in the line of a user. -/
def Action.Tame : Action → Prop
  | .line _ msg => newline ∉ msg
  | _ => True

/-- The service stays tame, and every text has its newline at the end, if it has one. -/
structure Reaction.Tame (r : Reaction) : Prop where
  next : r.next.Tame
  tells : ∀ fd, ∀ text ∈ r.tells fd, Terminated newline text

/-! ### Parts of texts -/

section Texts

variable {name room target text front : Str}

/-- A number has no newline in it. -/
theorem newline_notMem_number (n : Nat) : newline ∉ intToString n := by
  intro hmem
  rcases List.mem_map.1 hmem with ⟨c, hc, heq⟩
  have hdigits : c ∈ Nat.toDigits 10 n := by
    have hrepr : toString (n : Int) = Nat.repr n := rfl
    rwa [hrepr, Nat.repr, String.toList_ofList] at hc
  have hdigit := Nat.isDigit_of_mem_toDigits (by decide) (by decide) hdigits
  rw [Char.isDigit, Bool.and_eq_true, decide_eq_true_eq, decide_eq_true_eq] at hdigit
  have hlow : 48 ≤ c.toNat := hdigit.1
  have hhigh : c.toNat ≤ 57 := hdigit.2
  have hnat := congrArg UInt8.toNat heq
  simp [newline] at hnat
  omega

/-- Two texts without a newline make one without a newline. -/
theorem notMem_append {xs ys : Str} (hxs : newline ∉ xs) (hys : newline ∉ ys) :
    newline ∉ xs ++ ys := by
  rw [List.mem_append, not_or]
  exact ⟨hxs, hys⟩

/-- What a line asks for has no newline in it if the line has none. -/
theorem commandOf_tame {line : Str} (hline : newline ∉ line) : (commandOf line).Tame := by
  unfold commandOf
  cases hparse : parse line with
  | error fault => trivial
  | ok cmd =>
      cases parse_eq_iff.1 hparse with
      | privateMessage nickname text hnickname htext =>
          simp only [List.mem_append, not_or] at hline
          exact ⟨hline.1.1.2, hline.2⟩
      | joinRoom roomName hroom =>
          simp only [List.mem_append, not_or] at hline
          exact hline.2
      | leaveRoom more => trivial
      | onlineList more => trivial
      | roomList more => trivial
      | unknown line hunfinished => trivial
      | plainMessage line hprefix => exact hline

/-- The announcement of an arrival ends with its only newline. -/
theorem terminated_joined (hname : newline ∉ name) (hroom : newline ∉ room) :
    Terminated newline (joinedMessage name room) := by
  apply Terminated.append (by decide)
  repeat' apply notMem_append
  all_goals first | assumption | decide

/-- The announcement of a departure ends with its only newline. -/
theorem terminated_left (hname : newline ∉ name) (hroom : newline ∉ room) :
    Terminated newline (leftMessage name room) := by
  apply Terminated.append (by decide)
  repeat' apply notMem_append
  all_goals first | assumption | decide

/-- A message to a room ends with its only newline. -/
theorem terminated_chat (hname : newline ∉ name) (htext : newline ∉ text) :
    Terminated newline (chatMessage name text) := by
  apply Terminated.append (by decide)
  repeat' apply notMem_append
  all_goals first | assumption | decide

/-- A private message, as its receiver gets it, ends with its only newline. -/
theorem terminated_from (hname : newline ∉ name) (htext : newline ∉ text) :
    Terminated newline (privateMessageFrom name text) := by
  apply Terminated.append (by decide)
  repeat' apply notMem_append
  all_goals first | assumption | decide

/-- A private message, as its sender gets it back, ends with its only newline. -/
theorem terminated_to (htarget : newline ∉ target) (htext : newline ∉ text) :
    Terminated newline (privateMessageTo target text) := by
  apply Terminated.append (by decide)
  repeat' apply notMem_append
  all_goals first | assumption | decide

theorem terminated_notFound (htarget : newline ∉ target) :
    Terminated newline (notFoundMessage target) :=
  Terminated.append (by decide) (notMem_append (by decide) htarget)

/-- The welcome to a new name ends with its only newline. -/
theorem terminated_welcome (hname : newline ∉ name) :
    Terminated newline (welcomeMessage name) :=
  Terminated.append (by decide) (notMem_append (by decide) hname)

/-- The farewell of a client that left the server ends with its only newline. -/
theorem terminated_gone (hname : newline ∉ name) : Terminated newline (goneMessage name) :=
  Terminated.append (by decide) hname

end Texts

/-! ## Reactions -/

section Reactions

variable {σ : Service} {user fd : Fd} {u : User} {name room target line msg : Str} {r : Reaction}
variable {a : Action}

/-- A name is in the table of users. -/
theorem Service.Tame.nameOf (hσ : σ.Tame) (hu : σ.users.lookup fd = some u) : newline ∉ u.name := by
  have htame := hσ.users fd u hu
  cases u with
  | unnamed => exact List.not_mem_nil
  | named name room mode => exact htame.1

/-- The reply to {lit}`/online` lists names, which have no newlines. -/
theorem terminated_onlineList (hσ : σ.Tame) (hroom : newline ∉ room) :
    Terminated newline (σ.onlineListMessage room) := by
  apply Terminated.append (by decide)
  refine notMem_append (notMem_append (notMem_append (by decide) hroom) (by decide)) fun hmem => ?_
  rcases List.mem_flatMap.1 hmem with ⟨e, he, hname⟩
  have hlookup := AList.lookup_of_mem_entries (List.mem_filter.1 he).1
  exact notMem_append (hσ.nameOf hlookup) (by decide) hname

/-- The reply to {lit}`/rooms` lists rooms and numbers, which have no newlines. -/
theorem terminated_roomsList (hσ : σ.Tame) : Terminated newline σ.roomsListMessage := by
  apply Terminated.append (by decide)
  refine notMem_append (by decide) fun hmem => ?_
  rcases List.mem_flatMap.1 hmem with ⟨e, he, hroom⟩
  have hopen : e.1 ∈ σ.passwords := AList.mem_of_lookup (AList.lookup_of_mem_entries he)
  have hnumber := newline_notMem_number (σ.members e.1).length
  refine notMem_append (notMem_append (notMem_append ?_ (by decide)) hnumber) (by decide) hroom
  exact hσ.rooms e.1 hopen

/-! ### Tables -/

/-- A new entry without newlines keeps the table free of them. -/
theorem Service.Tame.put (hσ : σ.Tame) (hu : u.Tame) (user : Fd) : (σ.put user u).Tame where
  users fd u' hu' := by
    rw [Service.put, AList.lookup_modify] at hu'
    split at hu'
    · rcases Option.map_eq_some_iff.1 hu' with ⟨_, _, rfl⟩
      exact hu
    · exact hσ.users fd u' hu'
  rooms := hσ.rooms

/-- A room that is left stays open or is closed. -/
theorem mem_of_passwordsWithout {q : Str} (hq : q ∈ σ.passwordsWithout user room) :
    q ∈ σ.passwords := by
  unfold Service.passwordsWithout at hq
  split at hq
  · exact (AList.mem_erase.1 hq).2
  · exact hq

/-! ### Answers -/

/-- Telling nobody anything breaks nothing. -/
theorem tame_silent (hσ : σ.Tame) : Reaction.Tame ⟨σ, fun _ => []⟩ :=
  ⟨hσ, fun _ _ htext => by cases htext⟩

/-- A terminated text for one user is terminated for everybody who gets it. -/
theorem terminated_toUser (hmsg : Terminated newline msg) (fd : Fd) :
    ∀ text ∈ Service.toUser user msg fd, Terminated newline text := by
  intro text htext
  unfold Service.toUser at htext
  split at htext
  · rwa [List.mem_singleton.1 htext]
  · cases htext

/-- A terminated text for a room is terminated for everybody who gets it. -/
theorem terminated_toRoom (hmsg : Terminated newline msg) (fd : Fd) :
    ∀ text ∈ σ.toRoom room msg fd, Terminated newline text := by
  intro text htext
  unfold Service.toRoom at htext
  split at htext
  · rwa [List.mem_singleton.1 htext]
  · cases htext

/-- An answer leaves the tables as they are. -/
theorem tame_answer (hσ : σ.Tame) (hmsg : Terminated newline msg) :
    (σ.answer user msg).Tame :=
  ⟨hσ, terminated_toUser hmsg⟩

theorem tame_reply (hσ : σ.Tame) (hu : u.Tame) (hmsg : Terminated newline msg) :
    (σ.reply user u msg).Tame :=
  ⟨hσ.put hu user, terminated_toUser hmsg⟩

theorem Reaction.Tame.andTell (h : r.Tame) (hmsg : Terminated newline msg) :
    (Service.andTell user r msg).Tame :=
  ⟨h.next, fun fd => List.forall_mem_append.2 ⟨h.tells fd, terminated_toUser hmsg fd⟩⟩

theorem Reaction.Tame.setPassword (h : r.Tame) (room password : Str) :
    (Service.setPassword r room password).Tame :=
  ⟨⟨h.next.users, fun q hq => h.next.rooms q (AList.mem_modify.1 hq)⟩, h.tells⟩

/-- A name that has no newline is announced to the lobby. -/
theorem tame_introduce (hσ : σ.Tame) (hname : newline ∉ name) : (σ.introduce user name).Tame where
  next := by
    have huser : (User.named name lobby .chatting).Tame := ⟨hname, by decide, trivial⟩
    exact hσ.put huser user
  tells fd := by
    refine List.forall_mem_append.2 ⟨fun text htext => ?_, terminated_toUser ?_ fd⟩
    · split at htext
      · rw [List.mem_singleton.1 htext]
        exact terminated_joined hname (by decide)
      · cases htext
    · exact terminated_welcome hname

/-- A move announces the name and two rooms, and opens the second if need be. -/
theorem tame_move (hσ : σ.Tame) (hname : newline ∉ name) (hroom : newline ∉ room)
    (htarget : newline ∉ target) (aloud : Bool) :
    (σ.move user name room aloud target).Tame where
  next := by
    have huser : (User.named name target .chatting).Tame := ⟨hname, htarget, trivial⟩
    refine ⟨(hσ.put huser user).users, fun q hq => ?_⟩
    simp only [Service.move] at hq
    split at hq
    · exact hσ.rooms q (mem_of_passwordsWithout hq)
    · rcases (AList.mem_insert _).1 hq with rfl | hleft
      · exact htarget
      · exact hσ.rooms q (mem_of_passwordsWithout hleft)
  tells fd := by
    refine List.forall_mem_append.2 ⟨terminated_toRoom (terminated_left hname hroom) fd, ?_⟩
    intro text htext
    split at htext
    · rw [List.mem_singleton.1 htext]
      exact terminated_joined hname htarget
    · cases htext

/-! ### Lines -/

/-- A private message goes to its receiver and back to its sender. -/
theorem tame_whisper (hσ : σ.Tame) (hname : newline ∉ name) (htarget : newline ∉ target)
    (hmsg : newline ∉ msg) : (σ.whisper user name target msg).Tame := by
  unfold Service.whisper
  cases σ.findName target with
  | none => exact tame_answer hσ (terminated_notFound htarget)
  | some fd =>
      exact (tame_answer hσ (terminated_from hname hmsg)).andTell (terminated_to htarget hmsg)

/-- Asking for a room brings in no newline if its name has none. -/
theorem tame_join (hσ : σ.Tame) (hname : newline ∉ name) (hroom : newline ∉ room)
    (htarget : newline ∉ target) : (σ.join user name room target).Tame := by
  unfold Service.join
  split
  · exact tame_answer hσ (by decide)
  · split
    · exact tame_reply hσ ⟨hname, hroom, htarget⟩ (by decide)
    · split
      · exact tame_move hσ hname hroom htarget true
      · exact tame_reply hσ ⟨hname, hroom, htarget⟩ (by decide)

/-- The password given for a room occurs in no text. -/
theorem tame_enter (hσ : σ.Tame) (hname : newline ∉ name) (hroom : newline ∉ room)
    (htarget : newline ∉ target) : (σ.enter user name room target line).Tame := by
  unfold Service.enter
  split
  · exact tame_reply hσ ⟨hname, hroom, trivial⟩ (by decide)
  · split
    · exact (tame_move hσ hname hroom htarget false).andTell (by decide)
    · exact tame_reply hσ ⟨hname, hroom, trivial⟩ (by decide)

/-- The texts of a command are put together from names, rooms and its arguments. -/
theorem tame_command (hσ : σ.Tame) (hname : newline ∉ name) (hroom : newline ∉ room)
    {command : Command} (hcommand : command.Tame) : (σ.command user name room command).Tame := by
  cases command with
  | say text => exact ⟨hσ, terminated_toRoom (terminated_chat hname hcommand)⟩
  | whisper target text => exact tame_whisper hσ hname hcommand.1 hcommand.2
  | join target => exact tame_join hσ hname hroom hcommand
  | leave =>
      rw [Service.command]
      split
      · exact tame_answer hσ (by decide)
      · exact tame_move hσ hname hroom (by decide) true
  | online => exact tame_answer hσ (terminated_onlineList hσ hroom)
  | rooms => exact tame_answer hσ (terminated_roomsList hσ)
  | unfinished => exact tame_silent hσ

/-- A line is a name, a command or a password; a password is not sent to anybody. -/
theorem tame_line (hσ : σ.Tame) (hu : u.Tame) (hline : newline ∉ line) :
    (σ.line user u line).Tame := by
  cases u with
  | unnamed => exact tame_introduce hσ hline
  | named name room mode =>
      rcases hu with ⟨hname, hroom, hmode⟩
      cases mode with
      | chatting => exact tame_command hσ hname hroom (commandOf_tame hline)
      | founding target =>
          have hmoved : (σ.move user name room false target).Tame :=
            tame_move hσ hname hroom hmode false
          exact (hmoved.setPassword target line).andTell (by decide)
      | entering target => exact tame_enter hσ hname hroom hmode

/-- Whoever leaves is announced by name and room. -/
theorem tame_leave (hσ : σ.Tame) (hu : u.Tame) : (σ.leave user u).Tame := by
  have husers : ∀ fd u', (σ.users.erase user).lookup fd = some u' → u'.Tame := by
    intro fd u' hu'
    by_cases hfd : fd = user
    · subst hfd
      simp at hu'
    · rw [AList.lookup_erase_ne hfd] at hu'
      exact hσ.users fd u' hu'
  cases u with
  | unnamed => exact ⟨⟨husers, hσ.rooms⟩, fun _ _ htext => by cases htext⟩
  | named name room mode =>
      rcases hu with ⟨hname, hroom, _⟩
      refine ⟨⟨husers, fun q hq => hσ.rooms q (mem_of_passwordsWithout hq)⟩, fun fd => ?_⟩
      refine List.forall_mem_append.2 ⟨terminated_toRoom (terminated_left hname hroom) fd, ?_⟩
      intro text htext
      split at htext
      · rw [List.mem_singleton.1 htext]
        exact terminated_gone hname
      · cases htext

/-- The service keeps newlines out of names and of the middle of texts. -/
theorem react_tame (hσ : σ.Tame) (ha : a.Tame) : (σ.react a).Tame := by
  cases a with
  | connect user =>
      rw [Service.react]
      split
      · exact tame_silent hσ
      · refine ⟨⟨fun fd u hu => ?_, hσ.rooms⟩, terminated_toUser (by decide)⟩
        by_cases hfd : fd = user
        · subst hfd
          rw [AList.lookup_insert] at hu
          cases hu
          trivial
        · rw [AList.lookup_insert_ne hfd] at hu
          exact hσ.users fd u hu
  | line user line =>
      simp only [Service.react]
      cases hu : σ.users.lookup user with
      | none => exact tame_silent hσ
      | some u => exact tame_line hσ (hσ.users user u hu) ha
  | leave user =>
      simp only [Service.react]
      cases hu : σ.users.lookup user with
      | none => exact tame_silent hσ
      | some u => exact tame_leave hσ (hσ.users user u hu)
  | reorder users passwords =>
      rw [Service.react]
      split <;> rename_i hordered
      · refine tame_silent ⟨fun fd u hu => ?_, fun q hq => ?_⟩
        · rw [AList.perm_lookup hordered.1] at hu
          exact hσ.users fd u hu
        · rcases AList.mem_iff_lookup.1 hq with ⟨p, hp⟩
          rw [AList.perm_lookup hordered.2] at hp
          exact hσ.rooms q (AList.mem_of_lookup hp)
      · exact tame_silent hσ

end Reactions

/-! ## Runs -/

section Runs

variable {s : ChatServer} {ts : List (Transition ChatServer Turn)} {fd : Fd} {c : Session}

/-- The only name at start-up is the lobby. -/
theorem started_tame : Service.started.Tame where
  users _ _ hu := by cases hu
  rooms q hq := by
    rcases (AList.mem_insert _).1 hq with rfl | hempty
    · decide
    · cases hempty

/-- The lines of frames have no newline in them. -/
theorem requests_tame {t : Transition ChatServer Turn} : ∀ a ∈ t.requests, a.Tame := by
  rcases t with ⟨pre, turn, post⟩
  cases turn with
  | rehash clients rooms =>
      intro a ha
      rw [Transition.requests, List.mem_singleton] at ha
      subst ha
      trivial
  | ready ev =>
      cases ev with
      | server results =>
          simp only [Transition.requests]
          induction results with
          | nil => exact fun _ ha => by cases ha
          | cons result results ih =>
              cases result with
              | wouldBlock => exact fun _ ha => by cases ha
              | failed => exact fun _ ha => by cases ha
              | connection fd nonblocking added =>
                  refine List.forall_mem_append.2 ⟨fun a ha => ?_, ih⟩
                  split at ha
                  · rw [List.mem_singleton.1 ha]
                    trivial
                  · cases ha
      | client fd flags reads result =>
          refine List.forall_mem_append.2 ⟨fun a ha => ?_, fun a ha => ?_⟩
          · rcases List.mem_map.1 ha with ⟨line, hline, rfl⟩
            rcases List.mem_flatMap.1 hline with ⟨frame, hframe, hmem⟩
            exact fun hnewline => newline_notMem_frames hframe (mem_of_lineOf hmem hnewline)
          · unfold departure at ha
            split at ha
            · rw [List.mem_singleton.1 ha]
              trivial
            · cases ha

/-- After all actions without newlines the texts have theirs at the end. -/
theorem transcript_terminated {as : List Action} (has : ∀ a ∈ as, a.Tame) (fd : Fd) :
    ∀ text ∈ Service.transcript as fd, Terminated newline text := by
  refine (Machine.recorded_invariant (M := serviceMachine)
    (I := fun r => r.1.Tame ∧ ∀ fd, ∀ text ∈ r.2 fd, Terminated newline text) ?_ ?_).2 fd
  · rintro r a ha ⟨hσ, htexts⟩
    have hreact := react_tame hσ (has a ha)
    refine ⟨hreact.next, fun fd text htext => ?_⟩
    simp only [Machine.record] at htext
    split at htext
    · cases htext
    · exact List.forall_mem_append.2 ⟨htexts fd, hreact.tells fd⟩ text htext
  · exact ⟨started_tame, fun _ _ htext => by cases htext⟩

/-- After every run of the event loop, whatever bytes the clients have sent: a reader that cuts
what a client is sent at the newlines gets exactly one line for each text that ends with one,
with the prompts in front of it; no text has a newline anywhere else. -/
theorem one_line_per_text (hrun : Run TurnStep .started ts s)
    (hc : s.clients.lookup fd = some c) :
    let texts := Service.transcript (ts.flatMap Transition.requests) fd
    (∀ text ∈ texts, Terminated newline text) ∧
      (frames newline (c.written ++ c.outBuffer), rest newline (c.written ++ c.outBuffer)) =
        collect newline [] texts := by
  have hstream := stream_eq_textsTo (drained_of_turn ⟨ts, hrun⟩).1 hc
  rw [(service_of_recorded (turns_recorded hrun)).2] at hstream
  have htame : ∀ a ∈ ts.flatMap Transition.requests, a.Tame := by
    intro a ha
    rcases List.mem_flatMap.1 ha with ⟨t, _, hmem⟩
    exact requests_tame a hmem
  have hterminated := transcript_terminated htame fd
  refine ⟨hterminated, ?_⟩
  rw [hstream]
  exact frames_flatten List.not_mem_nil hterminated

/-- The newcomer in the lobby reads three lines, the first one behind the prompt. -/
theorem dialogue_lines : ∃ c, (ChatServer.afterTurns dialogue).clients.lookup 6 = some c ∧
    frames newline (c.written ++ c.outBuffer) =
      [nicknamePrompt ++ (joinedMessage (str "bob") lobby).dropLast,
        (welcomeMessage (str "bob")).dropLast,
        (chatMessage (str "ann") (str "hello")).dropLast] := by
  have hsome : ((ChatServer.afterTurns dialogue).clients.lookup 6).isSome = true := by
    decide +kernel
  rcases Option.isSome_iff_exists.1 hsome with ⟨c, hc⟩
  have hlines := (one_line_per_text (run_turnTrace dialogue) hc).2
  have hcollected : (collect newline [] (Service.transcript
      ((ChatServer.turnTrace dialogue).flatMap Transition.requests) 6)).1 =
        [nicknamePrompt ++ (joinedMessage (str "bob") lobby).dropLast,
          (welcomeMessage (str "bob")).dropLast,
          (chatMessage (str "ann") (str "hello")).dropLast] := by decide +kernel
  exact ⟨c, hc, (congrArg Prod.fst hlines).trans hcollected⟩

end Runs

end EpollChat
