import EpollChat.Properties.Secrets
import EpollChat.Server.Entries

/-!
# What is not logged

The log shows the names of the clients and what they say aloud.  It shows neither passwords nor
private messages: if all passwords are written differently, and private messages and questions
are left out, added or replaced, then the same is logged.  The log is one more observer of the
service here, which is told something when the users are told something else.

Main results:

- Theorem {lit}`run_logged`: what a run logs about users is what the service logs.
- Theorem {lit}`log_discreet`: the log does not depend on passwords and private messages.
-/

namespace EpollChat

open ChatServer

/-! ## The log of the service -/

/-- The entry is about a client that has been accepted. -/
def Entry.aboutUsers : Entry → Bool
  | .disconnected _ => true
  | .named _ _ => true
  | .said _ _ => true
  | _ => false

/-- What a user that chats in a room asks for is neither logged nor changes anything. -/
def Command.silent (room : Str) : Command → Bool
  | .say _ => false
  | .join target => room == target
  | .leave => room == lobby
  | _ => true

namespace Service

variable (σ : Service)

def loggedLine (user : Fd) (line : Str) : User → List Entry
  | .unnamed => [.named user line]
  | .named name _ .chatting =>
      match commandOf line with
      | .say text => [.said name text]
      | _ => []
  | .named _ _ _ => []

/-- What is logged with an action. -/
def logged : Action → List Entry
  | .connect _ => []
  | .line user line =>
      match σ.users.lookup user with
      | none => []
      | some u => loggedLine user line u
  | .leave user => if user ∈ σ.users then [.disconnected user] else []
  | .reorder _ _ => []

/-- The user asks for something that is neither logged nor changes anything. -/
def silent : Action → Bool
  | .line user line =>
      match σ.users.lookup user with
      | some (.named _ room .chatting) => (commandOf line).silent room
      | _ => false
  | _ => false

end Service

/-- The service with the log as its only observer. -/
def logMachine : Machine Service Action Unit Entry where
  next σ a := (σ.react a).next
  tells σ a _ := σ.logged a
  drops _ _ := false

/-! ## What a run logs -/

section Runs

variable {s s' : ChatServer} {client : Fd} {c : Session} {line : Str} {e : Event}
variable {ts : List (Transition ChatServer Event)}

/-- The entries of a transition about users. -/
def Transition.userEntries (t : Transition ChatServer Event) : List Entry :=
  t.entries.filter Entry.aboutUsers

theorem processEntries_eq (c : Session) (hfd : c.fd = client) (line : Str) :
    (c.processEntries line).filter Entry.aboutUsers = Service.loggedLine client line c.user := by
  cases hstate : c.state with
  | stateNickname =>
      simp [Session.processEntries, Session.user, Service.loggedLine, hstate, Entry.aboutUsers, hfd]
  | stateSetupRoomPassword =>
      simp [Session.processEntries, Session.user, Service.loggedLine, hstate]
  | stateEnterRoomPassword =>
      simp [Session.processEntries, Session.user, Service.loggedLine, hstate]
  | stateChat =>
      simp only [Session.processEntries, Session.executeEntries, Session.user, Service.loggedLine,
        hstate, commandOf]
      have hparse := parse_result line
      generalize parse line = result at hparse
      cases hparse <;> rfl

theorem logged_leave (hc : s.clients.lookup client = some c) (hkeyed : s.Keyed) :
    c.disconnectEntries = s.service.logged (.leave client) := by
  have hmem : client ∈ s.service.users := AList.mem_mapVal.2 (AList.mem_of_lookup hc)
  rw [Service.logged, if_pos hmem, Session.disconnectEntries, hkeyed client c hc]

/-- A step logs about users what the service logs with its actions. -/
theorem StepEffect.logged (h : StepEffect s e s') (hkeyed : s.Keyed) :
    Transition.userEntries ⟨s, e, s'⟩ =
      logMachine.told () s.service (Transition.actions ⟨s, e, s'⟩) := by
  have hsingle (a : Action) : logMachine.told () s.service [a] = s.service.logged a :=
    List.append_nil _
  cases h with
  | accept fd nonblocking added hfresh => cases nonblocking <;> cases added <;> rfl
  | line client line c s' hc heffect =>
      have hlogged : s.service.logged (.line client line) =
          Service.loggedLine client line c.user := by
        simp only [Service.logged, service_users_lookup, hc, Option.map_some]
      rw [Transition.userEntries, Transition.entries, entriesOf, entriesFor_eq hc,
        processEntries_eq c (hkeyed client c hc), ← hlogged]
      exact (hsingle _).symm
  | wrote client result c hc hok =>
      have hactions :
          Transition.actions ⟨s, .write client result, s.wrote client c result⟩ = [] := by
        simp [Transition.actions, hc, hok]
      rw [hactions, Transition.userEntries, Transition.entries, entriesOf, entriesFor_eq hc,
        Session.writeEntries, if_pos hok]
      rfl
  | dropped client result c hc hok =>
      have hactions : ∀ t, Transition.actions ⟨s, .write client result, t⟩ = [.leave client] := by
        simp [Transition.actions, hc, hok]
      rw [hactions, hsingle, ← logged_leave hc hkeyed, Transition.userEntries, Transition.entries,
        entriesOf, entriesFor_eq hc, Session.writeEntries, if_neg (by simp [hok])]
      rfl
  | disconnect client c hc =>
      have hactions : Transition.actions ⟨s, .disconnect client, s.disconnected client c⟩ =
          [.leave client] := rfl
      rw [hactions, hsingle, ← logged_leave hc hkeyed, Transition.userEntries, Transition.entries,
        entriesOf, entriesFor_eq hc]
      rfl
  | buffer client inBuffer c hc => rfl
  | rehash clients rooms hclients hrooms => rfl

/-- A run logs about users what the service logs with its actions. -/
theorem run_logged (hrun : Run Step .started ts s) :
    ts.flatMap Transition.userEntries =
      logMachine.told () .started (ts.flatMap Transition.actions) := by
  have hpre : ∀ t ∈ ts, ReachableState t.pre :=
    fun t ht => (hrun.reachable_of_mem (.refl _) ht).1
  have heffect : ∀ t ∈ ts, StepEffect t.pre t.event t.post :=
    fun t ht => step_effect (keyed_of_reachable (hpre t ht)) (hrun.step_of_mem ht)
  refine hrun.told_eq service Transition.actions Transition.userEntries () ?_ ?_
  · intro t ht
    have hrecorded := (heffect t ht).recorded (hpre t ht)
    exact (congrArg Prod.fst hrecorded).trans Machine.recorded_fst
  · exact fun t ht => (heffect t ht).logged (keyed_of_reachable (hpre t ht))

end Runs

/-! ## What the log does not show -/

namespace Service

variable {σ : Service} {f : Str → Str} {user : Fd} {name room line : Str} {a : Action}

theorem command_next_of_silent {command : Command} (h : command.silent room = true) :
    (σ.command user name room command).next = σ := by
  cases command with
  | say text => cases h
  | whisper target text =>
      simp only [Service.command, whisper]
      split <;> rfl
  | join target => rw [Service.command, join, if_pos (beq_iff_eq.1 h), answer]
  | leave => rw [Service.command, if_pos (beq_iff_eq.1 h), answer]
  | online => rfl
  | rooms => rfl
  | unfinished => rfl

theorem loggedLine_of_silent (h : (commandOf line).silent room = true) :
    loggedLine user line (.named name room .chatting) = [] := by
  simp only [loggedLine]
  cases hcommand : commandOf line with
  | say text =>
      rw [hcommand] at h
      cases h
  | _ => rfl

/-- Silent lines change nothing and are not logged. -/
theorem unnoticed_of_silent (h : σ.silent a = true) : logMachine.Unnoticed () σ a := by
  cases a with
  | connect user => cases h
  | leave user => cases h
  | reorder users passwords => cases h
  | line user line =>
      cases huser : σ.users.lookup user with
      | none => simp [silent, huser] at h
      | some u =>
          cases u with
          | unnamed => simp [silent, huser] at h
          | named name room mode =>
              cases mode with
              | founding target => simp [silent, huser] at h
              | entering target => simp [silent, huser] at h
              | chatting =>
                  simp only [silent, huser] at h
                  constructor
                  · simp only [logMachine, react, huser, Service.line]
                    exact command_next_of_silent h
                  · simp only [logMachine, logged, huser]
                    exact loggedLine_of_silent h
                  · rfl

/-- A line that is logged is not a password. -/
theorem logged_recodeAction (a : Action) :
    (σ.recode f).logged (σ.recodeAction f a) = σ.logged a := by
  cases a with
  | connect user => rfl
  | leave user => rfl
  | reorder users passwords => rfl
  | line user line =>
      have hlookup : (σ.recode f).users.lookup user = σ.users.lookup user := rfl
      simp only [recodeAction, logged, hlookup]
      cases hu : σ.users.lookup user with
      | none => rfl
      | some u =>
          simp only [asks_eq hu]
          cases u with
          | unnamed => rfl
          | named name room mode => cases mode <;> rfl

/-- The log does not show how passwords are written. -/
theorem log_renaming (hf : Function.Injective f) (hnil : f [] = []) :
    logMachine.Renaming (recode f) (recodeAction f) where
  next _ a := congrArg Reaction.next (recode_react hf hnil a)
  tells _ a := funext fun _ => logged_recodeAction a
  drops _ _ := rfl

end Service

/-- The log never drops anything. -/
theorem logMachine_recorded {σ : Service} {as : List Action} :
    (logMachine.recorded (σ, fun _ => []) as).2 () = logMachine.told () σ as :=
  Machine.recorded_snd fun _ _ => rfl

/-- Take two runs, and rewrite all passwords of the first one, so that different ones stay
different and the empty one stays empty.  If the runs are the same now apart from private
messages and from what is asked for without changing anything, then the same is logged about
their users. -/
theorem log_discreet {f : Str → Str} (hf : Function.Injective f) (hnil : f [] = [])
    {ts us : List (Transition ChatServer Event)} {s t : ChatServer}
    (hs : Run Step .started ts s) (ht : Run Step .started us t)
    (hsame : logMachine.purge Service.silent .started (us.flatMap Transition.actions) =
      logMachine.purge Service.silent .started
        (logMachine.translate (Service.recodeAction f) .started (ts.flatMap Transition.actions))) :
    us.flatMap Transition.userEntries = ts.flatMap Transition.userEntries := by
  have hstarted : Service.started.recode f = .started := by
    simp only [Service.recode, Service.started, AList.mapVal_insert, hnil]
    rfl
  have htranslated := @Machine.recorded_translate _ _ _ _ logMachine Service.started
    (ts.flatMap Transition.actions) _ _ (Service.log_renaming hf hnil) fun _ => []
  have hpurged := Machine.recorded_eq_of_purge_eq (r := (Service.started, fun _ => [])) (k := ())
    (fun _ _ => Service.unnoticed_of_silent) hsame
  rw [hstarted] at htranslated
  rw [htranslated] at hpurged
  rw [run_logged hs, run_logged ht, ← logMachine_recorded, ← logMachine_recorded]
  exact hpurged.2

/-- A room is founded and entered with a password, and there may be a private message. -/
def evening (password : Str) (whispers : List Event) : List Event :=
  [.accept 5 true true, .accept 6 true true, .line 5 (str "ann"), .line 6 (str "bob"),
    .line 5 (str "/join den"), .line 5 password] ++ whispers ++
  [.line 6 (str "/join den"), .line 6 password, .line 6 (str "hi")]

theorem evening_discreet :
    (ChatServer.trace (evening (str "word") [])).flatMap Transition.userEntries =
        (ChatServer.trace (evening (str "key") [.line 5 (str "/msg bob key")])).flatMap
          Transition.userEntries ∧
      Entry.said (str "bob") (str "hi") ∈
        (ChatServer.trace (evening (str "word") [])).flatMap Transition.userEntries := by
  let f : Str → Str := Equiv.swap (str "key") (str "word")
  constructor
  · exact @log_discreet f (Equiv.injective _) (by decide) _ _ _ _ (run_trace _) (run_trace _)
      (by decide +kernel)
  · decide +kernel

end EpollChat
