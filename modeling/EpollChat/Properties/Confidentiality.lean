import EpollChat.Properties.Accounting

/-!
# Who can tell two messages apart

Two runs of {lit}`process_message` from one state, with different texts, are
compared on everything the server stores.

Main results:

- Theorem {lit}`room_ne_nil`: a client that chats has a room, so its messages are
  never broadcast to everybody.
- Theorem {lit}`messages_confidential`: the texts of plain and of private messages
  show in the output buffers of their recipients only.
-/

namespace EpollChat

open ChatServer

/-! ## What is not output -/

/-- The fields of a client but the buffered output, and its registered interest. -/
def Session.visible (c : Session) : Client × Interest :=
  ({ c.toClient with outBuffer := [] }, c.interest)

/-- Two states agree, except for the output buffers of the exposed clients. -/
structure AgreeExcept (exposed : Fd → Prop) (s₁ s₂ : ChatServer) : Prop where
  rooms : s₁.rooms = s₂.rooms
  closed : s₁.closed = s₂.closed
  visible : (s₁.clients.mapVal fun _ c => c.visible) = s₂.clients.mapVal fun _ c => c.visible
  outputs : ∀ fd cl₁ cl₂, s₁.clients.lookup fd = some cl₁ → s₂.clients.lookup fd = some cl₂ →
    ¬exposed fd → cl₁.outBuffer = cl₂.outBuffer

/-- What a nonempty text does to the visible part of its receiver. -/
def armed (v : Client × Interest) : Client × Interest :=
  ({ v.1 with wantWrite := true }, if v.1.wantWrite then v.2 else .readWrite)

/-- What a broadcast does to the visible part of a client. -/
def armedIn (roomName : Str) (v : Client × Interest) : Client × Interest :=
  if v.1.state = .stateChat ∧ (roomName = [] ∨ v.1.room = roomName) then armed v else v

section Visible

variable {s : ChatServer} {client : Fd} {c : Session} {msg line : Str}

/-- A queued text arms its client, whatever it says. -/
theorem visible_queueMessage (hmsg : msg ≠ []) (origin : Origin) (cl : Session) :
    (cl.queueMessage origin msg).visible = armed cl.visible := by
  have hnonempty : (cl.outBuffer ++ msg).isEmpty = false := by simp [hmsg]
  rw [Session.queueMessage_eq, hnonempty]
  cases hw : cl.wantWrite <;> simp [Session.visible, armed, hw]

/-- A broadcast arms the members of its room, whatever it says. -/
theorem visible_broadcastTo (hmsg : msg ≠ []) (roomName : Str) (cl : Session) :
    (broadcastTo msg roomName cl).visible = armedIn roomName cl.visible := by
  unfold broadcastTo armedIn
  by_cases hstate : cl.state = .stateChat
  · by_cases hroom : roomName = [] ∨ cl.room = roomName
    · rw [if_neg (by simp [hstate]), if_pos hroom, visible_queueMessage hmsg,
        if_pos ⟨hstate, hroom⟩]
    · rw [if_neg (by simp [hstate]), if_neg hroom, if_neg fun h => hroom h.2]
  · rw [if_pos hstate, if_neg fun h => hstate h.1]

/-- The record of a line is not visible. -/
theorem visible_noted (line : Str) :
    ((s.noted client line).clients.mapVal fun _ cl => cl.visible) =
      s.clients.mapVal fun _ cl => cl.visible :=
  AList.mapVal_modify_eq fun _ _ => rfl

/-- A broadcast arms the members of its room in the whole table. -/
theorem visible_broadcast (hmsg : msg ≠ []) (roomName : Str) :
    ((s.broadcast msg roomName).clients.mapVal fun _ cl => cl.visible) =
      (s.clients.mapVal fun _ cl => cl.visible).mapVal fun _ v => armedIn roomName v := by
  simp only [broadcast, AList.mapVal_mapVal, visible_broadcastTo hmsg]

/-- A queued text arms its client in the whole table. -/
theorem visible_queueMessage_client (hmsg : msg ≠ []) :
    ((s.queueMessage client msg).clients.mapVal fun _ cl => cl.visible) =
      (s.clients.mapVal fun _ cl => cl.visible).modify client armed :=
  AList.mapVal_modify fun cl _ => visible_queueMessage hmsg .direct cl

theorem append_ne_nil {a b : Str} (ha : a ≠ []) : a ++ b ≠ [] := by
  simp [ha]

theorem chatMessage_ne_nil (nickname text : Str) : chatMessage nickname text ≠ [] := by
  simp only [chatMessage, List.append_assoc]
  exact append_ne_nil (by decide)

theorem privateMessageFrom_ne_nil (nickname text : Str) :
    privateMessageFrom nickname text ≠ [] := by
  simp only [privateMessageFrom, List.append_assoc]
  exact append_ne_nil (by decide)

theorem privateMessageTo_ne_nil (nickname text : Str) : privateMessageTo nickname text ≠ [] := by
  simp only [privateMessageTo, List.append_assoc]
  exact append_ne_nil (by decide)

theorem notFoundMessage_ne_nil (target : Str) : notFoundMessage target ≠ [] := by
  simp only [notFoundMessage, List.append_assoc]
  exact append_ne_nil (by decide)

end Visible

/-! ## Two runs -/

section TwoRuns

variable {s : ChatServer} {client : Fd} {c : Session} {line line₁ line₂ : Str}

/-- A client that chats has a room. -/
theorem room_ne_nil (hs : ReachableState s) (hc : s.clients.lookup client = some c)
    (hchat : c.state = .stateChat) : c.room ≠ [] :=
  (ChatsIn.open (accounted_of_reachable hs) ⟨c, hc, hchat, rfl⟩).1

/-- Whoever does not chat in the room gets no output from a plain message. -/
theorem plain_outBuffer {msg roomName : Str} (hroom : roomName ≠ []) {fd : Fd} {cl : Session}
    (hcl : ((s.noted client line).broadcast msg roomName).clients.lookup fd = some cl)
    (hfd : ¬ChatsIn s roomName fd) :
    ∃ cl₀, s.clients.lookup fd = some cl₀ ∧ cl.outBuffer = cl₀.outBuffer := by
  rw [broadcast_lookup, noted_lookup, Option.map_map] at hcl
  rcases Option.map_eq_some_iff.1 hcl with ⟨cl₀, hcl₀, rfl⟩
  refine ⟨cl₀, hcl₀, ?_⟩
  have hkeep : ∀ c : Session, c.state = cl₀.state → c.room = cl₀.room →
      broadcastTo msg roomName c = c := by
    intro c hstate hroom'
    unfold broadcastTo
    split
    · rfl
    · rename_i hchat
      rw [if_neg]
      rintro (hnil | hsame)
      · exact hroom hnil
      · exact hfd ⟨cl₀, hcl₀, by simpa [hstate] using hchat, by rw [← hroom', hsame]⟩
  simp only [Function.comp]
  split
  · rw [hkeep (cl₀.noteLine line) rfl rfl]
    rfl
  · rw [hkeep cl₀ rfl rfl]

/-- Two plain messages of one client agree except where it can be heard. -/
theorem plain_agree (hroom : c.room ≠ []) (text₁ text₂ : Str) :
    AgreeExcept (ChatsIn s c.room)
      ((s.noted client line₁).broadcast (chatMessage c.nickname text₁) c.room)
      ((s.noted client line₂).broadcast (chatMessage c.nickname text₂) c.room) where
  rooms := rfl
  closed := rfl
  visible := by
    rw [visible_broadcast (chatMessage_ne_nil _ _), visible_broadcast (chatMessage_ne_nil _ _),
      visible_noted, visible_noted]
  outputs fd cl₁ cl₂ h₁ h₂ hfd := by
    rcases plain_outBuffer hroom h₁ hfd with ⟨cl, hcl, hout₁⟩
    rcases plain_outBuffer hroom h₂ hfd with ⟨cl', hcl', hout₂⟩
    rw [hcl] at hcl'
    cases hcl'
    rw [hout₁, hout₂]

/-- The record of the handed line is not part of what is compared. -/
theorem noted_agree (exposed : Fd → Prop) :
    AgreeExcept exposed (s.noted client line₁) (s.noted client line₂) where
  rooms := rfl
  closed := rfl
  visible := by rw [visible_noted, visible_noted]
  outputs fd cl₁ cl₂ h₁ h₂ _ := by
    rw [noted_lookup] at h₁ h₂
    rcases Option.map_eq_some_iff.1 h₁ with ⟨cl, hcl, rfl⟩
    rw [hcl, Option.map_some] at h₂
    cases h₂
    split <;> rfl

/-- Texts that are queued to an exposed client keep the agreement. -/
theorem AgreeExcept.queueMessage {exposed : Fd → Prop} {s₁ s₂ : ChatServer} {fd : Fd}
    {msg₁ msg₂ : Str} (h : AgreeExcept exposed s₁ s₂) (hfd : exposed fd) (hmsg₁ : msg₁ ≠ [])
    (hmsg₂ : msg₂ ≠ []) :
    AgreeExcept exposed (s₁.queueMessage fd msg₁) (s₂.queueMessage fd msg₂) where
  rooms := h.rooms
  closed := h.closed
  visible := by
    rw [visible_queueMessage_client hmsg₁, visible_queueMessage_client hmsg₂, h.visible]
  outputs x cl₁ cl₂ h₁ h₂ hx := by
    have hne : x ≠ fd := by
      rintro rfl
      exact hx hfd
    rw [queueMessage_lookup, if_neg hne] at h₁ h₂
    exact h.outputs x cl₁ cl₂ h₁ h₂ hx

end TwoRuns

/-- For every reachable state and every client that chats: its room has a name;
the states after any two plain messages of it agree on everything but the output
buffers of those who chat in its room; and the states after any two private
messages of it to one name agree on everything but the output buffers of the
client and of at most one other, which has that name. -/
theorem messages_confidential {s : ChatServer} (hs : ReachableState s) {client : Fd} {c : Session}
    (hc : s.clients.lookup client = some c) (hchat : c.state = .stateChat) :
    c.room ≠ [] ∧
    (∀ line₁ line₂ target₁ target₂ text₁ text₂,
      parse line₁ = .ok ⟨.plainMessage, target₁, text₁⟩ →
      parse line₂ = .ok ⟨.plainMessage, target₂, text₂⟩ →
      ∃ s₁ s₂, s.processMessage client line₁ = .ok s₁ ∧ s.processMessage client line₂ = .ok s₂ ∧
        AgreeExcept (ChatsIn s c.room) s₁ s₂) ∧
    (∀ line₁ line₂ target text₁ text₂,
      parse line₁ = .ok ⟨.privateMessage, target, text₁⟩ →
      parse line₂ = .ok ⟨.privateMessage, target, text₂⟩ →
      ∃ s₁ s₂ recipient, s.processMessage client line₁ = .ok s₁ ∧
        s.processMessage client line₂ = .ok s₂ ∧
        (recipient ≠ client →
          ∃ cl, s.clients.lookup recipient = some cl ∧ cl.nickname = target) ∧
        AgreeExcept (fun fd => fd = client ∨ fd = recipient) s₁ s₂) := by
  have hroom := room_ne_nil hs hc hchat
  refine ⟨hroom, ?_, ?_⟩
  · intro line₁ line₂ _ _ _ _ hparse₁ hparse₂
    exact ⟨_, _, processMessage_plain hc hchat hparse₁, processMessage_plain hc hchat hparse₂,
      plain_agree hroom _ _⟩
  · intro line₁ line₂ target text₁ text₂ hparse₁ hparse₂
    rw [processMessage_private hc hchat hparse₁, processMessage_private hc hchat hparse₂,
      findNickname_noted, findNickname_noted]
    cases hfound : s.findNickname target with
    | none =>
        refine ⟨_, _, client, rfl, rfl, fun hne => absurd rfl hne, ?_⟩
        exact (noted_agree _).queueMessage (Or.inl rfl) (notFoundMessage_ne_nil _)
          (notFoundMessage_ne_nil _)
    | some e =>
        rcases findNickname_some hfound with ⟨hlookup, hname, _⟩
        refine ⟨_, _, e.1, rfl, rfl, fun _ => ⟨e.2, hlookup, hname⟩, ?_⟩
        exact ((noted_agree _).queueMessage (Or.inr rfl) (privateMessageFrom_ne_nil _ _)
          (privateMessageFrom_ne_nil _ _)).queueMessage (Or.inl rfl)
          (privateMessageTo_ne_nil _ _) (privateMessageTo_ne_nil _ _)

/-- Outside the room nobody can tell two messages apart. -/
theorem visit_confidential : ∃ s₁ s₂,
    (ChatServer.after visit).processMessage 5 (str "hello") = .ok s₁ ∧
      (ChatServer.after visit).processMessage 5 (str "good bye") = .ok s₂ ∧
      AgreeExcept (ChatServer.ChatsIn (.after visit) (str "den")) s₁ s₂ := by
  have hann : ((ChatServer.after visit).clients.lookup 5).map (fun cl => (cl.state, cl.room)) =
      some (.stateChat, str "den") := by decide +kernel
  rcases Option.map_eq_some_iff.1 hann with ⟨c, hc, hplace⟩
  rcases Prod.mk.inj hplace with ⟨hchat, hden⟩
  rw [← hden]
  exact (messages_confidential (reachable_after visit) hc hchat).2.1 _ _ _ _ _ _
    (by decide +kernel : parse (str "hello") = .ok ⟨.plainMessage, [], str "hello"⟩)
    (by decide +kernel : parse (str "good bye") = .ok ⟨.plainMessage, [], str "good bye"⟩)

end EpollChat
