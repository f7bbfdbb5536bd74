import EpollChat.Command.Grammar
import EpollChat.Properties.Naming

/-!
# Nicknames as addresses

A nickname is any line, and a private message goes to the first client in iteration
order that chats under its target.  Neither is a nickname checked against those in
use, nor against the form of a private message, whose target ends at the first space.

Main results:

- Theorem {lit}`uniqueNames_step_iff`: a step keeps the names unique unless it gives a
  client the name of another one.
- Theorem {lit}`nickname_recipient`: what a run does to the uniqueness of names, and
  who gets a private message in which iteration order.
- Theorem {lit}`nickname_addressable`: a client that alone has its name can be addressed
  by it exactly when the name holds no space.
-/

namespace EpollChat

open ChatServer

/-! ## Names -/

/-- The name of a client, once it has one. -/
def Profile.name (p : Profile) : Option Str :=
  if p.state = .stateNickname then none else some p.nickname

def ChatServer.nameOf (s : ChatServer) (fd : Fd) : Option Str :=
  (s.profileOf fd).bind Profile.name

/-- No two clients have the same name. -/
def ChatServer.UniqueNames (s : ChatServer) : Prop :=
  ∀ a b name, s.nameOf a = some name → s.nameOf b = some name → a = b

/-- A client takes the name of another one. -/
def TakesName (s : ChatServer) (e : Event) : Prop :=
  ∃ client name other, e = .line client name ∧
    (∃ c, s.clients.lookup client = some c ∧ c.state = .stateNickname) ∧
    other ≠ client ∧ s.nameOf other = some name

section Names

variable {s s' : ChatServer} {client fd : Fd} {c : Session} {e : Event} {name : Str}
variable {before after : Option Profile}

/-- A line gives its client a name at most if it has none. -/
theorem Profile.Line.name_eq {line : Str} {p p' : Profile} (h : p.Line line p') :
    p'.name = p.name ∨ p.state = .stateNickname ∧ p'.name = some line := by
  cases h with
  | named hstate => exact Or.inr ⟨hstate, rfl⟩
  | settled room hstate =>
      left
      simp [Profile.name, Profile.settled, hstate]
  | prompted state room hchat hstate =>
      left
      rcases hstate with rfl | rfl <;> simp [Profile.name, hchat]
  | resumed hstate =>
      left
      simp [Profile.name, hstate]
  | kept => exact Or.inl rfl

/-- A name was there before a step, or is the line of a client without a name. -/
theorem ProfileStep.name_cases (h : ProfileStep e fd before after)
    (hname : after.bind Profile.name = some name) :
    before.bind Profile.name = some name ∨
      e = .line fd name ∧ ∃ p, before = some p ∧ p.state = .stateNickname := by
  cases h with
  | same => exact Or.inl hname
  | gone => cases hname
  | arrived => cases hname
  | line line he p p' hline =>
      rcases hline.name_eq with hsame | ⟨hstate, hnew⟩
      · left
        exact hsame.symm.trans hname
      · right
        rw [Option.bind_some, hnew] at hname
        cases hname
        exact ⟨he, p, rfl, hstate⟩

/-- A client that has chosen a name has it. -/
theorem nameOf_chosen (hs : ReachableState s) (hc : s.clients.lookup client = some c)
    (hstate : c.state = .stateNickname) (hstep : Step s (.line client name) s') :
    s'.nameOf client = some name := by
  cases step_effect (keyed_of_reachable hs) hstep with
  | line _ _ c' _ hc' heffect =>
      rw [hc] at hc'
      cases hc'
      rcases heffect.profileOf (noted_lookup_self hc name) with ⟨p, hp, hline⟩
      rw [ChatServer.nameOf, hp]
      cases hline with
      | named => rfl
      | settled room hother => exact absurd hstate hother
      | prompted state room hchat => exact absurd (hstate.symm.trans hchat) (by simp)
      | resumed hwait => exact absurd (hstate.symm.trans hwait) (by simp)
      | kept hchat => exact absurd (hstate.symm.trans hchat) (by simp)

/-- A step keeps the names unique unless it gives a client the name of another one. -/
theorem uniqueNames_step_iff (hs : ReachableState s) (hunique : s.UniqueNames)
    (hstep : Step s e s') : s'.UniqueNames ↔ ¬TakesName s e := by
  have heffect := step_effect (keyed_of_reachable hs) hstep
  constructor
  · rintro hafter ⟨client, name, other, rfl, ⟨c, hc, hstate⟩, hne, hname⟩
    have hkept : s'.nameOf other = some name := by
      rw [ChatServer.nameOf, (heffect.others rfl hne).profileOf_eq]
      exact hname
    exact hne (hafter other client name hkept (nameOf_chosen hs hc hstate hstep))
  · intro hfree a b name ha hb
    -- a name that a client has just chosen is not that of another one
    have hchosen : ∀ fd other, e = .line fd name →
        (∃ p, s.profileOf fd = some p ∧ p.state = .stateNickname) →
        s.nameOf other = some name → other = fd := by
      rintro fd other he ⟨p, hp, hstate⟩ hother
      rcases Option.map_eq_some_iff.1 hp with ⟨c, hc, rfl⟩
      by_contra hne
      exact hfree ⟨fd, name, other, he, ⟨c, hc, hstate⟩, hne, hother⟩
    rcases (heffect.profileOf a).name_cases ha with ha | ⟨hea, hpa⟩
    · rcases (heffect.profileOf b).name_cases hb with hb | ⟨heb, hpb⟩
      · exact hunique a b name ha hb
      · exact hchosen b a heb hpb ha
    · rcases (heffect.profileOf b).name_cases hb with hb | ⟨heb, hpb⟩
      · exact (hchosen a b hea hpa hb).symm
      · rw [hea] at heb
        cases heb
        rfl

/-- A run keeps the names unique exactly as long as no client takes the name of
another one. -/
theorem uniqueNames_run_iff {ts : List (Transition ChatServer Event)} (hs : ReachableState s)
    (hunique : s.UniqueNames) (hrun : Run Step s ts s') :
    (∀ t ∈ ts, t.post.UniqueNames) ↔ ∀ t ∈ ts, ¬TakesName t.pre t.event := by
  induction hrun with
  | nil => simp
  | cons hstep _ ih =>
      have hfirst := uniqueNames_step_iff hs hunique hstep
      rw [List.forall_mem_cons, List.forall_mem_cons, hfirst]
      exact and_congr_right fun hfree => ih (hs.step hstep) (hfirst.2 hfree)

theorem started_uniqueNames : ChatServer.started.UniqueNames := by
  intro a b name ha
  cases ha

end Names

/-! ## Recipients -/

/-- The test of {lit}`handle_private_message`. -/
def chatsAs (target : Str) (cl : Session) : Bool :=
  cl.nickname == target && cl.state == .stateChat

/-- The client that a private message goes to. -/
def recipientIn (clients : ClientTable) (target : Str) : Option Fd :=
  clients.findKey (chatsAs target)

/-- What a private message queues to a client. -/
def privateDeliveries (client : Fd) (nickname target text : Str) (recipient : Option Fd) (fd : Fd) :
    List Delivery :=
  match recipient with
  | some other =>
      (if fd = other then [⟨.direct, privateMessageFrom nickname text⟩] else []) ++
        if fd = client then [⟨.direct, privateMessageTo target text⟩] else []
  | none => if fd = client then [⟨.direct, notFoundMessage target⟩] else []

section Recipients

variable {s : ChatServer} {client fd : Fd} {c : Session} {line target text : Str}

/-- A private message is queued to its recipient, and back to its sender. -/
theorem private_queued (hc : s.clients.lookup client = some c) (hchat : c.state = .stateChat)
    (hparse : parse line = .ok ⟨.privateMessage, target, text⟩) :
    ∃ s', s.processMessage client line = .ok s' ∧ ∀ fd, s'.queuedTo fd =
      (s.queuedTo fd).map fun queue => queue ++
        privateDeliveries client c.nickname target text (recipientIn s.clients target) fd := by
  have hrecipient : recipientIn s.clients target = (s.findNickname target).map Sigma.fst := rfl
  refine ⟨_, processMessage_private hc hchat hparse, fun fd => ?_⟩
  rw [findNickname_noted, hrecipient]
  cases hfound : s.findNickname target with
  | none =>
      simp only [Option.map_none]
      rw [queuedTo_queueMessage, queuedTo_noted]
      rfl
  | some found =>
      rcases found with ⟨other, cl⟩
      have hname : (AList.mapEntry
          (fun fd cl => if fd = client then Session.noteLine cl line else cl)
          ⟨other, cl⟩).2.nickname = target := by
        simp only [AList.mapEntry, Sigma.map]
        split <;> exact (findNickname_some hfound).2.1
      simp only [Option.map_some, hname]
      rw [queuedTo_queueMessage, queuedTo_queueMessage, queuedTo_noted, Option.map_map]
      congr 1
      funext queue
      exact List.append_assoc _ _ _

/-- The same in any iteration order, which decides who the recipient is. -/
theorem private_queued_perm (hc : s.clients.lookup client = some c) (hchat : c.state = .stateChat)
    (hparse : parse line = .ok ⟨.privateMessage, target, text⟩) {clients : ClientTable}
    (hperm : clients.entries.Perm s.clients.entries) :
    ∃ s', ({ s with clients := clients } : ChatServer).processMessage client line = .ok s' ∧
      ∀ fd, s'.queuedTo fd = (s.queuedTo fd).map fun queue => queue ++
        privateDeliveries client c.nickname target text (recipientIn clients target) fd := by
  have hc' : ({ s with clients := clients } : ChatServer).clients.lookup client = some c :=
    (AList.perm_lookup hperm).trans hc
  rcases private_queued hc' hchat hparse with ⟨s', hs', hqueued⟩
  refine ⟨s', hs', fun fd => (hqueued fd).trans ?_⟩
  rw [queuedTo, queuedTo, AList.perm_lookup hperm]

/-- A client that chats under the target is the recipient in some iteration order. -/
theorem exists_order {cl : Session} (hcl : s.clients.lookup fd = some cl)
    (hname : chatsAs target cl = true) :
    ∃ clients : ClientTable, clients.entries.Perm s.clients.entries ∧
      recipientIn clients target = some fd :=
  ⟨s.clients.insert fd cl, AList.insert_perm hcl, AList.findKey_insert cl hname⟩

end Recipients

/-- Nicknames are not checked against those in use.  In every run from start-up the
names stay unique exactly as long as no client takes the name of another one.  In the
state a run ends in, and in every iteration order of its clients, a private message is
queued to the first client that chats under its target; and all iteration orders have
the same first client exactly when at most one client chats under the target. -/
theorem nickname_recipient {ts : List (Transition ChatServer Event)} {s : ChatServer}
    (hrun : Run Step .started ts s) :
    ((∀ t ∈ ts, t.post.UniqueNames) ↔ ∀ t ∈ ts, ¬TakesName t.pre t.event) ∧
    (∀ client c line target text, s.clients.lookup client = some c → c.state = .stateChat →
      parse line = .ok ⟨.privateMessage, target, text⟩ →
      ∀ clients : ClientTable, clients.entries.Perm s.clients.entries →
      ∃ s', ({ s with clients := clients } : ChatServer).processMessage client line = .ok s' ∧
        ∀ fd, s'.queuedTo fd = (s.queuedTo fd).map fun queue => queue ++
          privateDeliveries client c.nickname target text (recipientIn clients target) fd) ∧
    (∀ target,
      (∀ clients₁ clients₂ : ClientTable, clients₁.entries.Perm s.clients.entries →
        clients₂.entries.Perm s.clients.entries →
        recipientIn clients₁ target = recipientIn clients₂ target) ↔
      ∀ a ∈ s.clients.keysWhere (chatsAs target), ∀ b ∈ s.clients.keysWhere (chatsAs target),
        a = b) := by
  refine ⟨uniqueNames_run_iff (.refl _) started_uniqueNames hrun, ?_, ?_⟩
  · intro client c line target text hc hchat hparse clients hperm
    exact private_queued_perm hc hchat hparse hperm
  · intro target
    exact AList.findKey_perm_iff

theorem visit_recipient : recipientIn (ChatServer.after visit).clients (str "bob") = some 6 ∧
    ∀ clients : ClientTable, clients.entries.Perm (ChatServer.after visit).clients.entries →
      recipientIn clients (str "bob") = some 6 := by
  have hbob : recipientIn (ChatServer.after visit).clients (str "bob") = some 6 := by decide +kernel
  have hone : ∀ a ∈ (ChatServer.after visit).clients.keysWhere (chatsAs (str "bob")),
      ∀ b ∈ (ChatServer.after visit).clients.keysWhere (chatsAs (str "bob")), a = b := by
    decide +kernel
  refine ⟨hbob, fun clients hperm => ?_⟩
  rw [((nickname_recipient (run_trace visit)).2.2 (str "bob")).2 hone clients _ hperm (.refl _),
    hbob]

/-- Two clients that choose the same name, and a third one. -/
def twins : List Event :=
  [.accept 5 true true, .accept 6 true true, .accept 7 true true, .line 5 (str "ann"),
    .line 6 (str "ann"), .line 7 (str "bob")]

/-- Two clients have one name, and which of them gets a private message to it depends
on the iteration order. -/
theorem twins_share_a_name :
    ReachableState (.after twins) ∧ ¬(ChatServer.after twins).UniqueNames ∧
    ∃ (clients₁ clients₂ : ClientTable) (s₁ s₂ : ChatServer),
      clients₁.entries.Perm (ChatServer.after twins).clients.entries ∧
      clients₂.entries.Perm (ChatServer.after twins).clients.entries ∧
      ({ ChatServer.after twins with clients := clients₁ } : ChatServer).processMessage 7
        (str "/msg ann hi") = .ok s₁ ∧
      ({ ChatServer.after twins with clients := clients₂ } : ChatServer).processMessage 7
        (str "/msg ann hi") = .ok s₂ ∧
      s₁.queuedTo 5 ≠ s₂.queuedTo 5 := by
  have hann : ∀ fd ∈ [5, 6],
      ((ChatServer.after twins).clients.lookup fd).map (chatsAs (str "ann")) =
      some true := by decide +kernel
  have hbob : ((ChatServer.after twins).clients.lookup 7).map (fun cl => cl.state) =
      some .stateChat := by decide +kernel
  rcases Option.map_eq_some_iff.1 (hann 5 (by simp)) with ⟨c₅, h₅, hann₅⟩
  rcases Option.map_eq_some_iff.1 (hann 6 (by simp)) with ⟨c₆, h₆, hann₆⟩
  rcases Option.map_eq_some_iff.1 hbob with ⟨c₇, h₇, hchat⟩
  have hparse : parse (str "/msg ann hi") = .ok ⟨.privateMessage, str "ann", str "hi"⟩ := by
    decide +kernel
  -- either twin is found first in some order
  rcases exists_order h₅ hann₅ with ⟨clients₁, hperm₁, hrecipient₁⟩
  rcases exists_order h₆ hann₆ with ⟨clients₂, hperm₂, hrecipient₂⟩
  rcases private_queued_perm h₇ hchat hparse hperm₁ with ⟨s₁, hs₁, hqueued₁⟩
  rcases private_queued_perm h₇ hchat hparse hperm₂ with ⟨s₂, hs₂, hqueued₂⟩
  refine ⟨reachable_after twins, ?_, clients₁, clients₂, s₁, s₂, hperm₁, hperm₂, hs₁, hs₂, ?_⟩
  · intro hunique
    have hsame := hunique 5 6 (str "ann") (by decide +kernel) (by decide +kernel)
    exact absurd hsame (by decide)
  · rw [hqueued₁, hqueued₂, queuedTo_eq h₅, hrecipient₁, hrecipient₂]
    simp [privateDeliveries]

/-! ## Addresses -/

section Addresses

variable {s : ChatServer} {a b : Fd} {ca cb : Session} {nickname text : Str}

theorem privateMessageFrom_ne_to (nickname text nickname' text' : Str) :
    privateMessageFrom nickname text ≠ privateMessageTo nickname' text' := by
  intro h
  have hfront : str "[Private msg f" = str "[Private msg t" := congrArg (List.take 14) h
  exact absurd hfront (by decide)

theorem privateMessageFrom_ne_notFound (nickname text target : Str) :
    privateMessageFrom nickname text ≠ notFoundMessage target := by
  intro h
  have hfront : str "[" = str "U" := congrArg (List.take 1) h
  exact absurd hfront (by decide)

/-- Only the recipient gets the message. -/
theorem mem_privateDeliveries {client fd : Fd} {target text' : Str} {recipient : Option Fd} :
    ⟨.direct, privateMessageFrom nickname text⟩ ∈
      privateDeliveries client nickname target text' recipient fd ↔
        recipient = some fd ∧
          privateMessageFrom nickname text = privateMessageFrom nickname text' := by
  cases recipient with
  | none =>
      simp only [privateDeliveries]
      split <;> simp [privateMessageFrom_ne_notFound]
  | some other =>
      simp only [privateDeliveries, List.mem_append]
      by_cases hfd : fd = other <;> by_cases hself : fd = client <;>
        simp [hfd, hself, privateMessageFrom_ne_to, eq_comm]

/-- A line that addresses a name is a private message, to the name if this holds no
space, and to another target if it does. -/
theorem parse_addressed (nickname : Str) (htext : text ≠ []) :
    ∃ target rest, parse (str "/msg " ++ nickname ++ str " " ++ text) =
        .ok ⟨.privateMessage, target, rest⟩ ∧
      (space ∉ nickname → target = nickname ∧ rest = text) ∧
      (space ∈ nickname → target ≠ nickname) := by
  by_cases hspace : space ∈ nickname
  · rcases eq_append_cons_of_mem hspace with ⟨target, more, htarget, rfl⟩
    have hparse := parse_of_grammar
      (.privateMessage target (more ++ str " " ++ text) htarget (by simp [htext]))
    refine ⟨target, more ++ str " " ++ text, ?_, fun hnot => absurd hspace hnot, fun _ hsame => ?_⟩
    · rw [← hparse]
      simp [str, space]
    · rw [← hsame] at hspace
      exact htarget hspace
  · exact ⟨nickname, text, parse_of_grammar (.privateMessage nickname text hspace htext),
      fun _ => ⟨rfl, rfl⟩, fun hmem => absurd hmem hspace⟩

/-- A client that alone has its name gets a message to it exactly when the name holds
no space. -/
theorem addressed_iff (ha : s.clients.lookup a = some ca) (hchata : ca.state = .stateChat)
    (hb : s.clients.lookup b = some cb) (hchatb : cb.state = .stateChat)
    (hunique : ∀ fd cl, s.clients.lookup fd = some cl → cl.nickname = cb.nickname → fd = b)
    (htext : text ≠ []) :
    ∃ s' ds, s.processMessage a (str "/msg " ++ cb.nickname ++ str " " ++ text) = .ok s' ∧
      s'.queuedTo b = some (cb.queued ++ ds) ∧
      (⟨.direct, privateMessageFrom ca.nickname text⟩ ∈ ds ↔ space ∉ cb.nickname) := by
  rcases parse_addressed cb.nickname htext with ⟨target, rest, hparse, hplain, hspaced⟩
  rcases private_queued ha hchata hparse with ⟨s', hs', hqueued⟩
  have hb' := hqueued b
  rw [queuedTo_eq hb, Option.map_some] at hb'
  refine ⟨s', _, hs', hb', ?_⟩
  rw [mem_privateDeliveries]
  constructor
  · rintro ⟨hrecipient, _⟩ hspace
    rcases AList.mem_keysWhere.1 (AList.mem_keysWhere_of_findKey hrecipient) with ⟨cl, hcl, hname⟩
    rw [hb] at hcl
    cases hcl
    simp only [chatsAs, Bool.and_eq_true, beq_iff_eq] at hname
    exact hspaced hspace hname.1.symm
  · intro hspace
    rcases hplain hspace with ⟨rfl, rfl⟩
    refine ⟨AList.findKey_eq_some ?_ ?_, rfl⟩
    · exact AList.mem_keysWhere.2 ⟨cb, hb, by simp [chatsAs, hchatb]⟩
    · intro fd hfd
      rcases AList.mem_keysWhere.1 hfd with ⟨cl, hcl, hname⟩
      simp only [chatsAs, Bool.and_eq_true, beq_iff_eq] at hname
      exact hunique fd cl hcl hname.1

/-- The nicknames hold no newline. -/
theorem newline_notMem_nickname (hs : TurnState s) (ha : s.clients.lookup a = some ca)
    (hstate : ca.state ≠ .stateNickname) : newline ∉ ca.nickname := by
  rcases hs with ⟨ts, hrun⟩
  have hknown : Run (KnownStep fun line => newline ∉ line) .started ts s := by
    refine hrun.mono ?_
    intro s turn s' hstep
    refine ⟨?_, hstep⟩
    intro frame hframe line hline hmem
    exact newline_notMem_turnFrames hframe (mem_of_lineOf hline hmem)
  exact nickname_known ⟨ts, hknown⟩ ha hstate

/-- A short line without outer spaces and without a carriage return at its end is
handed on as it is. -/
theorem mem_lineOf_self {line : Str} (hne : line ≠ []) (hlen : line.length < 2 ^ 31)
    (hfirst : line.head? ≠ some space) (hlast : line.getLast? ≠ some space)
    (hreturn : line.getLast? ≠ some carriageReturn) : line ∈ lineOf line := by
  rw [mem_lineOf, withoutCarriageReturn_eq_self hreturn, trimString_eq_trimmed hlen,
    trimmed_eq_self hfirst hlast]
  exact ⟨hne, rfl⟩

end Addresses

/-- Whenever the event loop looks at an event, for any two clients that chat, of which
the second alone has its nickname, and any text that is not empty: the line that
addresses the nickname queues the message to this client exactly when the nickname
holds no space.  In that case the bytes of the line have this effect in every cutting,
if nothing is buffered for the sender, the text holds no newline and no carriage return
and does not end with a space, and the line is shorter than {lit}`2 ^ 31`. -/
theorem nickname_addressable {s : ChatServer} (hs : TurnState s) {a b : Fd} {ca cb : Session}
    (ha : s.clients.lookup a = some ca) (hchata : ca.state = .stateChat)
    (hb : s.clients.lookup b = some cb) (hchatb : cb.state = .stateChat)
    (hunique : ∀ fd cl, s.clients.lookup fd = some cl → cl.nickname = cb.nickname → fd = b)
    {text : Str} (htext : text ≠ []) :
    ∃ s' ds, s.processMessage a (str "/msg " ++ cb.nickname ++ str " " ++ text) = .ok s' ∧
      s'.queuedTo b = some (cb.queued ++ ds) ∧
      (⟨.direct, privateMessageFrom ca.nickname text⟩ ∈ ds ↔ space ∉ cb.nickname) ∧
      (space ∉ cb.nickname → newline ∉ text → carriageReturn ∉ text →
        text.getLast? ≠ some space → ca.inBuffer = [] →
        (str "/msg " ++ cb.nickname ++ str " " ++ text).length < 2 ^ 31 →
        ∀ calls : List (List Chunk), calls.flatten.flatMap Chunk.bytes =
            str "/msg " ++ cb.nickname ++ str " " ++ text ++ [newline] →
          readCalls s a calls = .ok s') := by
  rcases addressed_iff ha hchata hb hchatb hunique htext with ⟨s', ds, hs', hqueued, hiff⟩
  refine ⟨s', ds, hs', hqueued, hiff, ?_⟩
  intro hspace hnewline hreturn hlast hempty hlen calls hcalls
  have hname := newline_notMem_nickname hs hb (by simp [hchatb])
  have hend : (str "/msg " ++ cb.nickname ++ str " " ++ text).getLast? = text.getLast? :=
    List.getLast?_append_of_ne_nil _ htext
  have hframe : newline ∉ str "/msg " ++ cb.nickname ++ str " " ++ text := by
    simp only [List.mem_append, not_or]
    exact ⟨⟨⟨by decide, hname⟩, by decide⟩, hnewline⟩
  rw [readCalls_line ha hempty hframe hcalls, handleLine_eq_processMessage, hs']
  apply mem_lineOf_self
  · simp [htext]
  · exact hlen
  · change some (47 : UInt8) ≠ some space
    decide
  · rwa [hend]
  · rw [hend]
    exact fun h => hreturn (List.mem_of_getLast? h)

/-- Two clients connect and choose the given names. -/
def ChatServer.withNames (first second : Str) : ChatServer :=
  .afterEvents [.server [.connection 5 true true, .connection 6 true true],
    .sends 5 (first ++ [newline]), .sends 6 (second ++ [newline])]

def annAndBob : ChatServer :=
  .withNames (str "ann") (str "bob")

def annSmithAndBob : ChatServer :=
  .withNames (str "ann smith") (str "bob")

/-- A name with one bearer has no other one. -/
theorem eq_of_keysWhere {s : ChatServer} {name : Str} {b : Fd}
    (h : s.clients.keysWhere (fun cl => cl.nickname == name) = [b]) :
    ∀ fd cl, s.clients.lookup fd = some cl → cl.nickname = name → fd = b := by
  intro fd cl hcl hname
  have hmem : fd ∈ s.clients.keysWhere fun cl => cl.nickname == name :=
    AList.mem_keysWhere.2 ⟨cl, hcl, by simp [hname]⟩
  rw [h] at hmem
  exact List.mem_singleton.1 hmem

theorem ann_addressable : ∃ cb s' ds, annAndBob.clients.lookup 5 = some cb ∧
    readCalls annAndBob 6
      [[⟨str "/msg ann ", by decide, by decide⟩], [⟨str "hi\n", by decide, by decide⟩]] = .ok s' ∧
    s'.queuedTo 5 = some (cb.queued ++ ds) ∧
    ⟨.direct, privateMessageFrom (str "bob") (str "hi")⟩ ∈ ds := by
  have hann : (annAndBob.clients.lookup 5).map (fun c => (c.state, c.nickname)) =
      some (.stateChat, str "ann") := by decide +kernel
  have hbob : (annAndBob.clients.lookup 6).map (fun c => (c.state, c.nickname, c.inBuffer)) =
      some (.stateChat, str "bob", []) := by decide +kernel
  have honly : annAndBob.clients.keysWhere (fun cl => cl.nickname == str "ann") = [5] := by
    decide +kernel
  rcases Option.map_eq_some_iff.1 hann with ⟨cb, hcb, hfields⟩
  rcases Option.map_eq_some_iff.1 hbob with ⟨ca, hca, hfields'⟩
  simp only [Prod.mk.injEq] at hfields hfields'
  rcases hfields with ⟨hchatb, hname⟩
  rcases hfields' with ⟨hchata, hname', hempty⟩
  rw [← hname] at honly
  rcases nickname_addressable (turnState_afterEvents _) hca hchata hcb hchatb
    (eq_of_keysWhere honly) (by decide : str "hi" ≠ []) with ⟨s', ds, _, hqueued, hiff, hcalls⟩
  rw [hname] at hiff hcalls
  rw [hname'] at hiff
  refine ⟨cb, s', ds, hcb, ?_, hqueued, hiff.2 (by decide)⟩
  exact hcalls (by decide) (by decide) (by decide) (by decide) hempty (by decide) _ (by decide)

/-- A client that is called {lit}`ann smith` gets no message that is addressed to this
name, although no other client has it. -/
theorem ann_smith_unaddressable : ∃ ca cb s', LoopState annSmithAndBob ∧
    annSmithAndBob.clients.lookup 6 = some ca ∧ ca.state = .stateChat ∧
    annSmithAndBob.clients.lookup 5 = some cb ∧ cb.state = .stateChat ∧
    cb.nickname = str "ann smith" ∧
    (∀ fd cl, annSmithAndBob.clients.lookup fd = some cl → cl.nickname = cb.nickname → fd = 5) ∧
    annSmithAndBob.processMessage 6 (str "/msg " ++ cb.nickname ++ str " " ++ str "hi") = .ok s' ∧
    s'.queuedTo 5 = some cb.queued := by
  have hann : (annSmithAndBob.clients.lookup 5).map (fun c => (c.state, c.nickname)) =
      some (.stateChat, str "ann smith") := by decide +kernel
  have hbob : (annSmithAndBob.clients.lookup 6).map (fun c => c.state) = some .stateChat := by
    decide +kernel
  have honly :
      annSmithAndBob.clients.keysWhere (fun cl => cl.nickname == str "ann smith") = [5] := by
    decide +kernel
  have hnobody : recipientIn annSmithAndBob.clients (str "ann") = none := by decide +kernel
  rcases Option.map_eq_some_iff.1 hann with ⟨cb, hcb, hfields⟩
  rcases Option.map_eq_some_iff.1 hbob with ⟨ca, hca, hchata⟩
  rcases Prod.mk.inj hfields with ⟨hchatb, hname⟩
  rw [← hname] at honly
  rcases private_queued hca hchata (by decide +kernel :
    parse (str "/msg ann smith hi") = .ok ⟨.privateMessage, str "ann", str "smith hi"⟩) with
    ⟨s', hs', hqueued⟩
  refine ⟨ca, cb, s', loopState_afterEvents _, hca, hchata, hcb, hchatb, hname,
    eq_of_keysWhere honly, ?_, ?_⟩
  · rw [hname]
    exact hs'
  · rw [hqueued, hnobody, queuedTo_eq hcb]
    simp [privateDeliveries]

end EpollChat
