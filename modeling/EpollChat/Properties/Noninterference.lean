import EpollChat.Properties.Conversation

/-!
# What a user cannot notice

Private messages between others, messages to rooms a user does not chat in, and the
questions that others ask the server neither change the service nor reach the user.  They
can be left out of a run, added to it or replaced by others of their kind, at any place and
any number of times, without a byte of what the user is sent being different.

Main results:

- Theorem {lit}`unnoticed_of_hidden`: a hidden action does nothing that its observer could
  notice.
- Theorem {lit}`others_unnoticed`: two runs that differ in hidden actions only are the same
  to the observer.
-/

namespace EpollChat

open ChatServer

/-! ## Hidden actions -/

/-- What a user that chats in a room asks for is neither for the observer nor heard by it. -/
def Command.hiddenFrom (b : Fd) (σ : Service) (user : Fd) (room : Str) : Command → Bool
  | .say _ => !decide (σ.ChatsIn room b)
  | .whisper target _ => user != b && σ.findName target != some b
  | .join target => user != b && room == target
  | .leave => user != b && room == lobby
  | .online => user != b
  | .rooms => user != b
  | .unfinished => true

def Service.hiddenFrom (b : Fd) (σ : Service) : Action → Bool
  | .line user line =>
      match σ.users.lookup user with
      | some (.named _ room .chatting) => (commandOf line).hiddenFrom b σ user room
      | some _ => false
      | none => false
  | _ => false

section Hidden

variable {σ : Service} {user b : Fd} {name room msg : Str} {a : Action}

/-- An answer to another user. -/
theorem answer_unnoticed (hne : user ≠ b) :
    (σ.answer user msg).next = σ ∧ (σ.answer user msg).tells b = [] :=
  ⟨rfl, if_neg hne.symm⟩

/-- A hidden command leaves the service as it is and tells the observer nothing. -/
theorem command_unnoticed {command : Command} (h : command.hiddenFrom b σ user room = true) :
    (σ.command user name room command).next = σ ∧
      (σ.command user name room command).tells b = [] := by
  cases command with
  | say text =>
      have hdeaf : ¬σ.ChatsIn room b := by simpa [Command.hiddenFrom] using h
      exact ⟨rfl, if_neg hdeaf⟩
  | whisper target text =>
      have hothers : user ≠ b ∧ σ.findName target ≠ some b := by
        simpa [Command.hiddenFrom] using h
      simp only [Service.command, Service.whisper]
      cases hfound : σ.findName target with
      | none => exact answer_unnoticed hothers.1
      | some fd =>
          have hfd : b ≠ fd := by
            rintro rfl
            exact hothers.2 hfound
          refine ⟨rfl, ?_⟩
          simp [Service.andTell, Service.answer, Service.toUser, hfd, hothers.1.symm]
  | join target =>
      have hhere : user ≠ b ∧ room = target := by simpa [Command.hiddenFrom] using h
      rw [Service.command, Service.join, if_pos hhere.2]
      exact answer_unnoticed hhere.1
  | leave =>
      have hhere : user ≠ b ∧ room = lobby := by simpa [Command.hiddenFrom] using h
      rw [Service.command, if_pos hhere.2]
      exact answer_unnoticed hhere.1
  | online => exact answer_unnoticed (by simpa [Command.hiddenFrom] using h)
  | rooms => exact answer_unnoticed (by simpa [Command.hiddenFrom] using h)
  | unfinished => exact ⟨rfl, rfl⟩

/-- A hidden action is not noticed. -/
theorem unnoticed_of_hidden (h : σ.hiddenFrom b a = true) : serviceMachine.Unnoticed b σ a := by
  cases a with
  | line user line =>
      cases huser : σ.users.lookup user with
      | none => simp [Service.hiddenFrom, huser] at h
      | some u =>
          cases u with
          | unnamed => simp [Service.hiddenFrom, huser] at h
          | named name room mode =>
              cases mode with
              | founding target => simp [Service.hiddenFrom, huser] at h
              | entering target => simp [Service.hiddenFrom, huser] at h
              | chatting =>
                  simp only [Service.hiddenFrom, huser] at h
                  have hreact : σ.react (.line user line) =
                      σ.command user name room (commandOf line) := by
                    simp only [Service.react, huser, Service.line]
                  have hcommand : (σ.react (.line user line)).next = σ ∧
                      (σ.react (.line user line)).tells b = [] := hreact ▸ command_unnoticed h
                  exact ⟨hcommand.1, hcommand.2, rfl⟩
  | connect user => cases h
  | leave user => cases h
  | reorder users passwords => cases h

end Hidden

/-! ## Runs -/

/-- The actions of a run without those that are hidden from a user. -/
def visibleTo (b : Fd) (ts : List (Transition ChatServer Turn)) : List Action :=
  serviceMachine.purge (Service.hiddenFrom b) .started (ts.flatMap Transition.requests)

/-- For every two runs of the event loop and every user: if the runs differ only in private
messages between others, in messages to rooms the user does not chat in when they are sent,
and in what others ask the server for without changing anything, then all users and rooms are
the same, and so are the bytes the user is sent. -/
theorem others_unnoticed {ts us : List (Transition ChatServer Turn)} {s t : ChatServer}
    (hs : Run TurnStep .started ts s) (ht : Run TurnStep .started us t) {b : Fd}
    (hsame : visibleTo b ts = visibleTo b us) :
    s.service = t.service ∧
      ∀ c d, s.clients.lookup b = some c → t.clients.lookup b = some d →
        c.written ++ c.outBuffer = d.written ++ d.outBuffer := by
  have hrecorded := Machine.recorded_eq_of_purge_eq (r := (Service.started, fun _ => [])) (k := b)
    (fun _ _ => unnoticed_of_hidden) hsame
  have hstates := service_of_recorded (turns_recorded hs)
  have htstates := service_of_recorded (turns_recorded ht)
  constructor
  · rw [hstates.1, htstates.1, Service.after, Service.after]
    simpa only [Machine.recorded_fst] using hrecorded.1
  · intro c d hc hd
    have htexts : s.textsTo b = t.textsTo b := by
      rw [hstates.2, htstates.2]
      exact hrecorded.2
    rw [stream_eq_textsTo (drained_of_turn ⟨ts, hs⟩).1 hc, htexts,
      stream_eq_textsTo (drained_of_turn ⟨us, ht⟩).1 hd]

/-- Three users, one of whom says something last. -/
def gossip (line : Str) : List Turn :=
  [.ready (.server [.connection 5 true true, .connection 6 true true, .connection 7 true true]),
    .ready (.sends 5 (str "ann\n")), .ready (.sends 6 (str "bob\n")),
    .ready (.sends 7 (str "eve\n")), .ready (.sends 5 line)]

/-- Two actions that are hidden from a user, and the user is sent the same bytes. -/
theorem gossip_unnoticed : ∃ c d,
    (ChatServer.afterTurns (gossip (str "/msg bob hi\n"))).clients.lookup 7 = some c ∧
      (ChatServer.afterTurns (gossip (str "/rooms\n"))).clients.lookup 7 = some d ∧
      c.written ++ c.outBuffer = d.written ++ d.outBuffer := by
  have hc : ((ChatServer.afterTurns (gossip (str "/msg bob hi\n"))).clients.lookup 7).isSome =
      true := by decide +kernel
  have hd : ((ChatServer.afterTurns (gossip (str "/rooms\n"))).clients.lookup 7).isSome = true := by
    decide +kernel
  rcases Option.isSome_iff_exists.1 hc with ⟨c, hc⟩
  rcases Option.isSome_iff_exists.1 hd with ⟨d, hd⟩
  refine ⟨c, d, hc, hd, ?_⟩
  exact (others_unnoticed (run_turnTrace _) (run_turnTrace _) (by decide +kernel)).2 c d hc hd

end EpollChat
