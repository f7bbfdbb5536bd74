import EpollChat.Properties.Refinement

/-!
# What a client can tell from its bytes

A password is sent as a line like any other, so a user should know what the server takes the
next line for.  Only users that chat are told what happens around them, and every text but a
prompt ends with a newline; the bytes a client has been sent therefore show the state it is in.

Main results:

- Theorem {lit}`react_prompted`: every action of the service leaves every user with a text
  that fits what it is expected to do.
- Theorem {lit}`prompt_visible`: the state of a client can be read off its bytes.
-/

namespace EpollChat

open ChatServer

/-! ## Texts that end a line -/

/-- The text ends with a newline. -/
def EndsLine (text : Str) : Prop :=
  text.getLast? = some newline

instance (text : Str) : Decidable (EndsLine text) :=
  inferInstanceAs (Decidable (_ = _))

/-- Every message but a prompt is made of something and a text that ends a line. -/
theorem EndsLine.append {text : Str} (h : EndsLine text) (front : Str) :
    EndsLine (front ++ text) := by
  rw [EndsLine, List.getLast?_append, h]
  rfl

/-! ## What the last text asks for -/

/-- The texts told to a user fit what it is expected to do. -/
def Expects : Option User → List Str → Prop
  | none, texts => texts = []
  | some .unnamed, texts => texts = [nicknamePrompt]
  | some (.named _ _ .chatting), texts => ∃ text, texts.getLast? = some text ∧ EndsLine text
  | some (.named _ _ (.founding _)), texts => texts.getLast? = some createPasswordPrompt
  | some (.named _ _ (.entering _)), texts => texts.getLast? = some enterPasswordPrompt

/-- The service with a record in which the texts fit the users. -/
def Prompted (r : Service × (Fd → List Str)) : Prop :=
  ∀ fd, Expects (r.1.users.lookup fd) (r.2 fd)

section Reactions

variable {σ : Service} {user fd : Fd} {u : User} {name room target msg : Str} {r : Reaction}
variable {texts ds : List Str}

/-- More lines leave the last text of a user that chats one that ends a line. -/
theorem Expects.append_lines (h : Expects (some (.named name room .chatting)) texts)
    (hlines : ∀ text ∈ ds, EndsLine text) (room' : Str) :
    Expects (some (.named name room' .chatting)) (texts ++ ds) := by
  rcases h with ⟨text, hlast, hends⟩
  rw [Expects, List.getLast?_append]
  cases hds : ds.getLast? with
  | none => exact ⟨text, hlast, hends⟩
  | some d => exact ⟨d, rfl, hlines d (List.mem_of_getLast? hds)⟩

/-- A reaction to a user changes no other user, and tells only those of the others that chat
something, which is lines. -/
structure Considerate (σ : Service) (user : Fd) (r : Reaction) : Prop where
  kept : ∀ fd, fd ≠ user → r.next.users.lookup fd = σ.users.lookup fd
  heard : ∀ fd, fd ≠ user →
    r.tells fd = [] ∨ σ.Chats fd ∧ ∀ text ∈ r.tells fd, EndsLine text

/-- A user that chats has a name and a room. -/
theorem Service.Chats.exists_user (h : σ.Chats fd) :
    ∃ name room, σ.users.lookup fd = some (.named name room .chatting) := by
  unfold Service.Chats at h
  cases hu : σ.users.lookup fd with
  | none =>
      rw [hu] at h
      cases h
  | some u =>
      rw [hu, Option.any_some] at h
      cases u with
      | unnamed => cases h
      | named name room mode =>
          cases mode with
          | chatting => exact ⟨name, room, rfl⟩
          | founding target => cases h
          | entering target => cases h

/-- What the others are told fits them. -/
theorem Considerate.expects (h : Considerate σ user r) (hfd : fd ≠ user)
    (hold : Expects (σ.users.lookup fd) texts) :
    Expects (r.next.users.lookup fd) (texts ++ r.tells fd) := by
  rw [h.kept fd hfd]
  rcases h.heard fd hfd with hsilent | ⟨hchats, hlines⟩
  · rw [hsilent, List.append_nil]
    exact hold
  · rcases hchats.exists_user with ⟨name, room, hu⟩
    rw [hu] at hold ⊢
    exact hold.append_lines hlines room

/-! ### Considerate reactions -/

/-- An answer tells nobody else anything. -/
theorem considerate_answer (msg : Str) : Considerate σ user (σ.answer user msg) where
  kept _ _ := rfl
  heard _ hfd := Or.inl (if_neg hfd)

/-- A reply tells nobody else anything. -/
theorem considerate_reply (u : User) (msg : Str) : Considerate σ user (σ.reply user u msg) where
  kept _ hfd := AList.lookup_modify_ne hfd _ _
  heard _ hfd := Or.inl (if_neg hfd)

theorem Service.ChatsIn.chats (h : σ.ChatsIn room fd) : σ.Chats fd := by
  unfold Service.ChatsIn at h
  unfold Service.Chats
  cases hu : σ.users.lookup fd with
  | none =>
      rw [hu] at h
      cases h
  | some u =>
      rw [hu, Option.any_some, User.chatsIn, Bool.and_eq_true] at h
      exact h.1

/-- A line to a room is told to users that chat. -/
theorem heard_toRoom (hends : EndsLine msg) (fd : Fd) :
    σ.toRoom room msg fd = [] ∨ σ.Chats fd ∧ ∀ text ∈ σ.toRoom room msg fd, EndsLine text := by
  unfold Service.toRoom
  split <;> rename_i hchats
  · right
    refine ⟨hchats.chats, fun text htext => ?_⟩
    rw [List.mem_singleton.1 htext]
    exact hends
  · exact Or.inl rfl

/-- What is heard one after the other. -/
theorem heard_append {ds es : List Str} (h : ds = [] ∨ σ.Chats fd ∧ ∀ text ∈ ds, EndsLine text)
    (h' : es = [] ∨ σ.Chats fd ∧ ∀ text ∈ es, EndsLine text) :
    ds ++ es = [] ∨ σ.Chats fd ∧ ∀ text ∈ ds ++ es, EndsLine text := by
  rcases h with rfl | ⟨hchats, hds⟩
  · exact h'
  · right
    rcases h' with rfl | ⟨_, hes⟩
    · rw [List.append_nil]
      exact ⟨hchats, hds⟩
    · exact ⟨hchats, List.forall_mem_append.2 ⟨hds, hes⟩⟩

/-- A message to a room reaches those who chat there. -/
theorem considerate_say (hends : EndsLine msg) :
    Considerate σ user ⟨σ, σ.toRoom room msg⟩ where
  kept _ _ := rfl
  heard fd _ := heard_toRoom hends fd

/-- An introduction reaches those who chat in the lobby. -/
theorem considerate_introduce : Considerate σ user (σ.introduce user name) where
  kept _ hfd := AList.lookup_modify_ne hfd _ _
  heard fd hfd := by
    have htells : (σ.introduce user name).tells fd =
        σ.toRoom lobby (joinedMessage name lobby) fd := by
      simp [Service.introduce, Service.toRoom, Service.toUser, hfd]
    rw [htells]
    exact heard_toRoom (EndsLine.append (by decide) _) fd

/-- A move reaches those who chat in its two rooms. -/
theorem considerate_move (aloud : Bool) :
    Considerate σ user (σ.move user name room aloud target) where
  kept _ hfd := AList.lookup_modify_ne hfd _ _
  heard fd hfd := by
    have htells : (σ.move user name room aloud target).tells fd =
        σ.toRoom room (leftMessage name room) fd ++
          σ.toRoom target (joinedMessage name target) fd := by
      simp [Service.move, Service.toRoom, hfd]
    rw [htells]
    exact heard_append (heard_toRoom (EndsLine.append (by decide) _) fd)
      (heard_toRoom (EndsLine.append (by decide) _) fd)

/-- One more text for the user itself disturbs nobody. -/
theorem Considerate.andTell (h : Considerate σ user r) (msg : Str) :
    Considerate σ user (Service.andTell user r msg) where
  kept := h.kept
  heard fd hfd := by
    have htells : (Service.andTell user r msg).tells fd = r.tells fd := by
      simp [Service.andTell, Service.toUser, hfd]
    rw [htells]
    exact h.heard fd hfd

/-- A private message reaches somebody that chats. -/
theorem considerate_whisper (text : Str) :
    Considerate σ user (σ.whisper user name target text) := by
  unfold Service.whisper
  cases hfound : σ.findName target with
  | none => exact considerate_answer _
  | some receiver =>
      apply Considerate.andTell
      refine ⟨fun _ _ => rfl, fun fd _ => ?_⟩
      by_cases hfd : fd = receiver
      · have hchats : σ.Chats fd := by
          have hmem := AList.mem_keysWhere_of_findKey hfound
          rcases AList.mem_keysWhere.1 hmem with ⟨u, hu, hnamed⟩
          rw [Service.Chats, hfd, hu]
          exact (Bool.and_eq_true _ _ ▸ hnamed).1
        refine Or.inr ⟨hchats, fun text htext => ?_⟩
        simp only [Service.answer, Service.toUser, if_pos hfd, List.mem_singleton] at htext
        rw [htext]
        exact EndsLine.append (by decide) _
      · exact Or.inl (if_neg hfd)

/-! ### The user itself -/

/-- A reaction to a user is considerate, and tells the user something that fits it. -/
structure Proper (σ : Service) (user : Fd) (texts : List Str) (r : Reaction) : Prop where
  considerate : Considerate σ user r
  own : Expects (r.next.users.lookup user) (texts ++ r.tells user)

/-- A last text that ends a line fits a user that chats. -/
theorem expects_line (hends : EndsLine msg) :
    Expects (some (.named name room .chatting)) (texts ++ [msg]) :=
  ⟨msg, List.getLast?_concat, hends⟩

theorem toUser_self : Service.toUser user msg user = [msg] :=
  if_pos rfl

/-- An answer to a user that chats. -/
theorem proper_answer (hu : σ.users.lookup user = some (.named name room .chatting))
    (hends : EndsLine msg) : Proper σ user texts (σ.answer user msg) where
  considerate := considerate_answer msg
  own := by
    simp only [Service.answer, toUser_self, hu]
    exact expects_line hends

theorem lookup_put (hu : σ.users.lookup user = some u) (u' : User) :
    (σ.put user u').users.lookup user = some u' := by
  rw [Service.put, AList.lookup_modify_self, hu]
  rfl

/-- An answer that changes the user fits if its text fits the changed user. -/
theorem proper_reply (hu : σ.users.lookup user = some u) {u' : User}
    (hfits : Expects (some u') (texts ++ [msg])) : Proper σ user texts (σ.reply user u' msg) where
  considerate := considerate_reply u' msg
  own := by
    simp only [Service.reply, toUser_self, lookup_put hu]
    exact hfits

/-- Whoever moves chats in the new room. -/
theorem lookup_move (hu : σ.users.lookup user = some u) (aloud : Bool) :
    (σ.move user name room aloud target).next.users.lookup user =
      some (.named name target .chatting) :=
  lookup_put hu _

/-- A move that ends with an answer. -/
theorem proper_moved {r : Reaction} (hconsiderate : Considerate σ user r)
    (hnext : r.next.users.lookup user = some (.named name target .chatting))
    (hends : EndsLine msg) : Proper σ user texts (Service.andTell user r msg) where
  considerate := hconsiderate.andTell msg
  own := by
    simp only [Service.andTell, toUser_self, ← List.append_assoc, hnext]
    exact expects_line hends

/-- A move of a user that is told of its own arrival. -/
theorem proper_move (hu : σ.users.lookup user = some u) :
    Proper σ user texts (σ.move user name room true target) where
  considerate := considerate_move true
  own := by
    have htells : (σ.move user name room true target).tells user =
        σ.toRoom room (leftMessage name room) user ++ [joinedMessage name target] := by
      simp [Service.move]
    rw [htells, ← List.append_assoc, lookup_move hu]
    exact expects_line (EndsLine.append (by decide) _)

/-- After a command the last text says what is expected. -/
theorem command_proper (hu : σ.users.lookup user = some (.named name room .chatting))
    (hold : Expects (some (.named name room .chatting)) texts) (command : Command) :
    Proper σ user texts (σ.command user name room command) := by
  cases command with
  | say text =>
      have hends : EndsLine (chatMessage name text) := EndsLine.append (by decide) _
      refine ⟨considerate_say hends, ?_⟩
      simp only [Service.command, hu]
      rcases heard_toRoom hends user with hsilent | ⟨_, hlines⟩
      · rwa [hsilent, List.append_nil]
      · exact hold.append_lines hlines room
  | whisper target text =>
      refine ⟨considerate_whisper text, ?_⟩
      simp only [Service.command, Service.whisper]
      split
      · exact (proper_answer hu (EndsLine.append (by decide) _)).own
      · simp only [Service.andTell, toUser_self, Service.answer, ← List.append_assoc, hu]
        exact expects_line (EndsLine.append (by decide) _)
  | join target =>
      simp only [Service.command, Service.join]
      split
      · exact proper_answer hu (by decide)
      · split
        · exact proper_reply hu List.getLast?_concat
        · split
          · exact proper_move hu
          · exact proper_reply hu List.getLast?_concat
  | leave =>
      simp only [Service.command]
      split
      · exact proper_answer hu (by decide)
      · exact proper_move hu
  | online => exact proper_answer hu (EndsLine.append (by decide) _)
  | rooms => exact proper_answer hu (EndsLine.append (by decide) _)
  | unfinished =>
      refine ⟨⟨fun _ _ => rfl, fun _ _ => Or.inl rfl⟩, ?_⟩
      simp only [Service.command, hu, List.append_nil]
      exact hold

/-- After a line the last text says what is expected. -/
theorem line_proper (hu : σ.users.lookup user = some u) (hold : Expects (some u) texts)
    (line : Str) : Proper σ user texts (σ.line user u line) := by
  cases u with
  | unnamed =>
      refine ⟨considerate_introduce, ?_⟩
      have hput := lookup_put hu (.named line lobby .chatting)
      simp only [Service.line, Service.introduce, toUser_self, ← List.append_assoc, hput]
      exact expects_line (EndsLine.append (by decide) _)
  | named name room mode =>
      cases mode with
      | chatting => exact command_proper hu hold _
      | founding target =>
          have hmove : Considerate σ user (σ.move user name room false target) :=
            considerate_move false
          have hmoved : Considerate σ user
              (Service.setPassword (σ.move user name room false target) target line) :=
            ⟨hmove.kept, hmove.heard⟩
          have hnext : (σ.move user name room false target).next.users.lookup user =
              some (.named name target .chatting) := lookup_move hu false
          exact proper_moved hmoved hnext (by decide)
      | entering target =>
          simp only [Service.line, Service.enter]
          split
          · exact proper_reply hu (expects_line (by decide))
          · split
            · exact proper_moved (considerate_move false) (lookup_move hu false) (by decide)
            · exact proper_reply hu (expects_line (by decide))

/-- The others hear of a departure. -/
theorem considerate_leave (u : User) : Considerate σ user (σ.leave user u) := by
  cases u with
  | unnamed => exact ⟨fun _ hfd => AList.lookup_erase_ne hfd, fun _ _ => Or.inl rfl⟩
  | named name room mode =>
      refine ⟨fun _ hfd => AList.lookup_erase_ne hfd, fun fd _ => ?_⟩
      refine heard_append (heard_toRoom (EndsLine.append (by decide) _) fd) ?_
      split <;> rename_i hgone
      · right
        refine ⟨hgone.2, fun text htext => ?_⟩
        rw [List.mem_singleton.1 htext]
        exact EndsLine.append (by decide) _
      · exact Or.inl rfl

end Reactions

/-! ## Runs of the service -/

section Service

variable {r : Service × (Fd → List Str)}

theorem record_of_kept {a : Action} (fd : Fd) (hkept : a.removes fd = false) :
    (serviceMachine.record r a).2 fd = r.2 fd ++ (r.1.react a).tells fd := by
  have hdrops : serviceMachine.drops a fd = false := hkept
  simp only [Machine.record, hdrops]
  rfl

/-- An action that changes and tells nothing. -/
theorem prompted_of_silent {a : Action} (h : Prompted r) (hkept : ∀ fd, a.removes fd = false)
    (hlookup : ∀ fd, (r.1.react a).next.users.lookup fd = r.1.users.lookup fd)
    (hsilent : ∀ fd, (r.1.react a).tells fd = []) : Prompted (serviceMachine.record r a) := by
  intro fd
  rw [record_of_kept fd (hkept fd), hsilent, List.append_nil]
  exact (hlookup fd) ▸ h fd

/-- Every action leaves every user with texts that fit what it is expected to do. -/
theorem react_prompted (h : Prompted r) (a : Action) : Prompted (serviceMachine.record r a) := by
  cases a with
  | connect user =>
      by_cases hmem : user ∈ r.1.users
      · have hreact : r.1.react (.connect user) = ⟨r.1, fun _ => []⟩ := if_pos hmem
        refine prompted_of_silent h (fun _ => rfl) (fun fd => ?_) fun fd => ?_ <;> rw [hreact]
      · have hreact : r.1.react (.connect user) =
            ⟨{ r.1 with users := r.1.users.insert user .unnamed },
              Service.toUser user nicknamePrompt⟩ := if_neg hmem
        intro fd
        rw [record_of_kept fd rfl]
        change Expects ((r.1.react (.connect user)).next.users.lookup fd) _
        rw [hreact]
        by_cases hfd : fd = user
        · subst hfd
          have hold : r.2 fd = [] := by
            have habsent := h fd
            rwa [AList.lookup_eq_none.2 hmem] at habsent
          simp only [AList.lookup_insert, hold, toUser_self]
          rfl
        · simp only [AList.lookup_insert_ne hfd, Service.toUser, if_neg hfd, List.append_nil]
          exact h fd
  | line user line =>
      cases hu : r.1.users.lookup user with
      | none =>
          have hreact : r.1.react (.line user line) = ⟨r.1, fun _ => []⟩ := by
            simp only [Service.react, hu]
          refine prompted_of_silent h (fun _ => rfl) (fun fd => ?_) fun fd => ?_ <;> rw [hreact]
      | some u =>
          have hreact : r.1.react (.line user line) = r.1.line user u line := by
            simp only [Service.react, hu]
          have hproper := line_proper hu (hu ▸ h user) line
          intro fd
          rw [record_of_kept fd rfl, hreact]
          change Expects ((r.1.react (.line user line)).next.users.lookup fd) _
          rw [hreact]
          by_cases hfd : fd = user
          · exact hfd ▸ hproper.own
          · exact hproper.considerate.expects hfd (h fd)
  | leave user =>
      intro fd
      change Expects ((r.1.react (.leave user)).next.users.lookup fd) _
      have hgone : fd = user →
          (r.1.react (.leave user)).next.users.lookup fd = none ∧
            (serviceMachine.record r (.leave user)).2 fd = [] := by
        rintro rfl
        constructor
        · cases hu : r.1.users.lookup fd with
          | none => simp only [Service.react, hu]
          | some u =>
              simp only [Service.react, hu]
              cases u <;> exact AList.lookup_erase fd _
        · simp [Machine.record, serviceMachine, Action.removes]
      by_cases hfd : fd = user
      · rw [(hgone hfd).1, (hgone hfd).2]
        rfl
      · rw [record_of_kept fd (by simp [Action.removes, hfd])]
        cases hu : r.1.users.lookup user with
        | none =>
            simp only [Service.react, hu, List.append_nil]
            exact h fd
        | some u =>
            simp only [Service.react, hu]
            exact (considerate_leave u).expects hfd (h fd)
  | reorder users passwords =>
      refine prompted_of_silent h (fun _ => rfl) (fun fd => ?_) fun fd => ?_
      · rw [Service.react]
        split <;> rename_i hordered
        · exact AList.perm_lookup hordered.1
        · rfl
      · rw [Service.react]
        split <;> rfl

/-- After all actions every user has been told what fits it. -/
theorem transcript_expects (as : List Action) (fd : Fd) :
    Expects ((Service.after as).users.lookup fd) (Service.transcript as fd) := by
  have hprompted : Prompted (serviceMachine.recorded (.started, fun _ => []) as) :=
    Machine.recorded_invariant (I := Prompted) (fun _ a _ h => react_prompted h a) fun _ => rfl
  have hstate : (serviceMachine.recorded (.started, fun _ => []) as).1 = Service.after as :=
    Machine.recorded_fst
  exact hstate ▸ hprompted fd

end Service

/-! ## Clients -/

section Clients

variable {s : ChatServer} {fd : Fd} {c : Session} {texts : List Str} {text : Str}

/-- The last text is at the end of the bytes. -/
theorem suffix_of_getLast? (h : texts.getLast? = some text) : text <:+ texts.flatten := by
  rcases List.getLast?_eq_some_iff.1 h with ⟨front, rfl⟩
  rw [List.flatten_concat]
  exact List.suffix_append _ _

theorem getLast?_of_suffix {stream : Str} (h : text <:+ stream) {b : UInt8}
    (hlast : text.getLast? = some b) : stream.getLast? = some b := by
  rcases h with ⟨front, rfl⟩
  rw [List.getLast?_append, hlast]
  rfl

/-- What the bytes sent to a client in a state are like. -/
def ClientState.Shows (stream : Str) : ClientState → Prop
  | .stateNickname => stream = nicknamePrompt
  | .stateSetupRoomPassword => createPasswordPrompt <:+ stream
  | .stateEnterRoomPassword => enterPasswordPrompt <:+ stream
  | .stateChat => stream.getLast? = some newline

/-- Prompts end with a space. -/
theorem getLast?_of_shows {stream : Str} {state : ClientState} (h : state.Shows stream) :
    stream.getLast? = if state = .stateChat then some newline else some space := by
  cases state with
  | stateNickname =>
      rw [show stream = nicknamePrompt from h]
      decide
  | stateSetupRoomPassword => exact getLast?_of_suffix h (by decide)
  | stateEnterRoomPassword => exact getLast?_of_suffix h (by decide)
  | stateChat => exact h

/-- The two password prompts are different at their ends. -/
theorem not_both_prompts {stream : Str} (h : createPasswordPrompt <:+ stream) :
    ¬enterPasswordPrompt <:+ stream := by
  intro h'
  have hsuffix : createPasswordPrompt <:+ enterPasswordPrompt :=
    List.suffix_of_suffix_length_le h h' (by decide)
  exact absurd hsuffix (by decide)

/-- Bytes show one state at most. -/
theorem shows_unique {stream : Str} {state state' : ClientState} (h : state.Shows stream)
    (h' : state'.Shows stream) : state = state' := by
  have hlast := (getLast?_of_shows h).symm.trans (getLast?_of_shows h')
  have hfirst : nicknamePrompt = stream →
      ¬createPasswordPrompt <:+ stream ∧ ¬enterPasswordPrompt <:+ stream := by
    rintro rfl
    decide
  cases state with
  | stateChat =>
      by_contra hne
      rw [if_pos rfl, if_neg (Ne.symm hne)] at hlast
      exact absurd hlast (by decide)
  | stateNickname =>
      cases state' with
      | stateNickname => rfl
      | stateSetupRoomPassword => exact absurd h' (hfirst h.symm).1
      | stateEnterRoomPassword => exact absurd h' (hfirst h.symm).2
      | stateChat => exact absurd hlast (by decide)
  | stateSetupRoomPassword =>
      cases state' with
      | stateNickname => exact absurd h (hfirst h'.symm).1
      | stateSetupRoomPassword => rfl
      | stateEnterRoomPassword => exact absurd h' (not_both_prompts h)
      | stateChat => exact absurd hlast (by decide)
  | stateEnterRoomPassword =>
      cases state' with
      | stateNickname => exact absurd h (hfirst h'.symm).2
      | stateSetupRoomPassword => exact absurd h (not_both_prompts h')
      | stateEnterRoomPassword => rfl
      | stateChat => exact absurd hlast (by decide)

/-- Texts that fit a client show its state. -/
theorem shows_of_expects (h : Expects (some c.user) texts) : c.state.Shows texts.flatten := by
  unfold Session.user at h
  cases hstate : c.state with
  | stateNickname =>
      simp only [hstate, Expects] at h
      rw [h]
      exact List.append_nil _
  | stateChat =>
      simp only [hstate, Expects] at h
      rcases h with ⟨text, hlast, hends⟩
      exact getLast?_of_suffix (suffix_of_getLast? hlast) hends
  | stateSetupRoomPassword =>
      simp only [hstate, Expects] at h
      exact suffix_of_getLast? h
  | stateEnterRoomPassword =>
      simp only [hstate, Expects] at h
      exact suffix_of_getLast? h

end Clients

/-- In every reachable state the bytes a client has been sent, including those that are still
buffered, show what its next line is taken for: a nickname exactly if they are the first
prompt, a password to be set or to be checked exactly if they end with the prompt for it, and
a command or a message exactly if they end with a newline. -/
theorem prompt_visible {s : ChatServer} (hs : ReachableState s) {fd : Fd} {c : Session}
    (hc : s.clients.lookup fd = some c) :
    (c.state = .stateNickname ↔ c.written ++ c.outBuffer = nicknamePrompt) ∧
      (c.state = .stateSetupRoomPassword ↔ createPasswordPrompt <:+ c.written ++ c.outBuffer) ∧
      (c.state = .stateEnterRoomPassword ↔ enterPasswordPrompt <:+ c.written ++ c.outBuffer) ∧
      (c.state = .stateChat ↔ (c.written ++ c.outBuffer).getLast? = some newline) := by
  rcases hs with ⟨ts, hrun⟩
  rcases service_of_recorded (run_recorded hrun) with ⟨hstate, htexts⟩
  have hfits := transcript_expects (ts.flatMap Transition.actions) fd
  have hstream : c.written ++ c.outBuffer = c.texts.flatten := by
    rw [stream_eq_textsTo ⟨ts, hrun⟩ hc, textsTo_eq hc]
  rw [← hstate, ← htexts, service_users_lookup, hc, textsTo_eq hc, Option.map_some] at hfits
  have hshows := shows_of_expects hfits
  have hiff : ∀ state : ClientState, c.state = state ↔ state.Shows c.texts.flatten := by
    intro state
    constructor
    · rintro rfl
      exact hshows
    · exact shows_unique hshows
  rw [hstream]
  exact ⟨hiff _, hiff _, hiff _, hiff _⟩

/-- The client that founds a room is asked for its password. -/
def founding : List Event :=
  [.accept 5 true true, .accept 6 true true, .line 5 (str "ann"), .line 6 (str "bob"),
    .line 5 (str "/join den"), .line 6 (str "hi")]

/-- The founder of a room has been asked for a password. -/
theorem founding_prompt : ∃ c, (ChatServer.after founding).clients.lookup 5 = some c ∧
    createPasswordPrompt <:+ c.written ++ c.outBuffer := by
  have hstate : ((ChatServer.after founding).clients.lookup 5).map (fun c => c.state) =
      some .stateSetupRoomPassword := by decide +kernel
  rcases Option.map_eq_some_iff.1 hstate with ⟨c, hc, hsetup⟩
  exact ⟨c, hc, (prompt_visible (reachable_after founding) hc).2.1.1 hsetup⟩

end EpollChat
