import Mathlib.Data.List.Perm.Basic
import Mathlib.Logic.Equiv.Basic
import EpollChat.Properties.Conversation

/-!
# What passwords are used for

A room has a password that its founder chose, and a user is let in if its line is that
password.  If all passwords are written differently, in such a way that different ones stay
different and the empty one stays empty, then nobody is told anything else: the passwords
are compared, and otherwise not used.

Main results:

- Theorem {lit}`recode_renaming`: the service does not notice how passwords are written.
- Theorem {lit}`passwords_unseen`: two runs in which the passwords are written differently
  are the same to everybody.
-/

namespace EpollChat

open ChatServer

/-! ## Passwords written differently -/

namespace Service

/-- The service with other passwords. -/
def recode (f : Str → Str) (σ : Service) : Service :=
  { σ with passwords := σ.passwords.mapVal fun _ => f }

end Service

/-- The reaction with all passwords renamed. -/
def Reaction.recode (f : Str → Str) (r : Reaction) : Reaction :=
  ⟨r.next.recode f, r.tells⟩

/-- The user has been asked for a password. -/
def User.isAsked : User → Bool
  | .named _ _ (.founding _) => true
  | .named _ _ (.entering _) => true
  | _ => false

/-- The next line of a user is a password. -/
def Service.Asks (σ : Service) (user : Fd) : Prop :=
  (σ.users.lookup user).any User.isAsked = true

instance (σ : Service) (user : Fd) : Decidable (σ.Asks user) :=
  inferInstanceAs (Decidable (_ = _))

/-- An action with the password in it, if there is one, written differently. -/
def Service.recodeAction (f : Str → Str) (σ : Service) : Action → Action
  | .line user line => .line user (if σ.Asks user then f line else line)
  | .reorder users passwords => .reorder users (passwords.mapVal fun _ => f)
  | .connect user => .connect user
  | .leave user => .leave user

namespace Service

variable {σ : Service} {f : Str → Str} {user : Fd} {name room target line : Str}

/-! ### Rooms that are opened and closed -/

/-- Rooms close whatever their passwords are. -/
theorem recode_passwordsWithout (room : Str) :
    (σ.recode f).passwordsWithout user room =
      (σ.passwordsWithout user room).mapVal fun _ => f := by
  have hmembers : (σ.recode f).members room = σ.members room := rfl
  rw [passwordsWithout, passwordsWithout, hmembers]
  split
  · exact (AList.mapVal_erase (fun _ => f) room σ.passwords).symm
  · rfl

/-- A room that is opened has no password yet. -/
theorem recode_opened (hnil : f [] = []) {left left' : AList fun _ : Str => Str}
    (hleft : left' = left.mapVal fun _ => f) :
    (if target ∈ left' then left' else left'.insert target []) =
      (if target ∈ left then left else left.insert target []).mapVal fun _ => f := by
  subst hleft
  rw [apply_ite (AList.mapVal fun _ => f), AList.mapVal_insert, hnil]
  simp only [AList.mem_mapVal]

/-- Nobody's move depends on a password. -/
theorem recode_move (hnil : f [] = []) (aloud : Bool) :
    (σ.recode f).move user name room aloud target =
      (σ.move user name room aloud target).recode f := by
  let r := σ.move user name room aloud target
  have hpasswords : ((σ.recode f).move user name room aloud target).next.passwords =
      r.next.passwords.mapVal fun _ => f := recode_opened hnil (recode_passwordsWithout room)
  exact congrArg (fun passwords => Reaction.mk ⟨r.next.users, passwords⟩ r.tells) hpasswords

/-! ### Lines -/

/-- A password is set as it is written. -/
theorem recode_setPassword (r : Reaction) :
    setPassword (r.recode f) target (f line) = (setPassword r target line).recode f := by
  have hset : (r.next.passwords.mapVal fun _ => f).modify target (fun _ => f line) =
      (r.next.passwords.modify target fun _ => line).mapVal fun _ => f := by
    symm
    apply AList.mapVal_modify
    exact fun _ _ => rfl
  simp only [setPassword, Reaction.recode, recode, hset]

/-- The founder's password is stored, and not told. -/
theorem recode_found (hnil : f [] = []) :
    (σ.recode f).found user name room target (f line) =
      (σ.found user name room target line).recode f := by
  rw [found, recode_move hnil, recode_setPassword]
  rfl

/-- Passwords that are written differently are the same exactly if they were. -/
theorem recode_enter (hf : Function.Injective f) (hnil : f [] = []) :
    (σ.recode f).enter user name room target (f line) =
      (σ.enter user name room target line).recode f := by
  have hlookup : (σ.recode f).passwords.lookup target = (σ.passwords.lookup target).map f :=
    AList.lookup_mapVal _ _ _
  rw [enter, enter, hlookup]
  cases σ.passwords.lookup target with
  | none => rfl
  | some password =>
      simp only [Option.map_some, hf.eq_iff]
      split
      · rw [recode_move hnil]
        rfl
      · rfl

/-- Whether a room has a password is all that a visitor learns. -/
theorem recode_join (hf : Function.Injective f) (hnil : f [] = []) :
    (σ.recode f).join user name room target = (σ.join user name room target).recode f := by
  have hlookup : (σ.recode f).passwords.lookup target = (σ.passwords.lookup target).map f :=
    AList.lookup_mapVal _ _ _
  have hopen : ∀ password, f password = [] ↔ password = [] := by
    intro password
    constructor
    · exact fun h => hf (h.trans hnil.symm)
    · rintro rfl
      exact hnil
  rw [join, join, hlookup]
  split
  · rfl
  · cases σ.passwords.lookup target with
    | none => rfl
    | some password =>
        simp only [Option.map_some, hopen]
        split
        · exact recode_move hnil true
        · rfl

/-- The reply to {lit}`/rooms` shows no password. -/
theorem recode_roomsListMessage : (σ.recode f).roomsListMessage = σ.roomsListMessage := by
  unfold roomsListMessage
  congr 2
  exact AList.flatMap_mapVal (f := fun _ => f) (m := σ.passwords)
    (g := fun r _ => r ++ str "[" ++ intToString (σ.members r).length ++ str "] ")
    (k := fun r _ => r ++ str "[" ++ intToString (σ.members r).length ++ str "] ") fun _ _ _ => rfl

/-- No command depends on more than whether a room has a password. -/
theorem recode_command (hf : Function.Injective f) (hnil : f [] = []) (command : Command) :
    (σ.recode f).command user name room command = (σ.command user name room command).recode f := by
  cases command with
  | say text => rfl
  | whisper target text =>
      have hfound : (σ.recode f).findName target = σ.findName target := rfl
      simp only [Service.command, whisper, hfound]
      cases σ.findName target <;> rfl
  | join target => exact recode_join hf hnil
  | leave =>
      simp only [Service.command]
      split
      · rfl
      · exact recode_move hnil true
  | online => rfl
  | rooms =>
      simp only [Service.command, recode_roomsListMessage]
      rfl
  | unfinished => rfl

/-! ### Actions -/

theorem asks_eq {u : User} (hu : σ.users.lookup user = some u) :
    σ.Asks user ↔ u.isAsked = true := by
  rw [Asks, hu, Option.any_some]

/-- A line, renamed if it is a password, has the renamed reaction. -/
theorem recode_line (hf : Function.Injective f) (hnil : f [] = []) {u : User} :
    (σ.recode f).line user u (if u.isAsked then f line else line) =
      (σ.line user u line).recode f := by
  cases u with
  | unnamed => rfl
  | named name room mode =>
      cases mode with
      | chatting => exact recode_command hf hnil (commandOf line)
      | founding target => exact recode_found hnil
      | entering target => exact recode_enter hf hnil

/-- Leaving does not depend on passwords. -/
theorem recode_leave {u : User} : (σ.recode f).leave user u = (σ.leave user u).recode f := by
  cases u with
  | unnamed => rfl
  | named name room mode =>
      simp only [leave, recode_passwordsWithout, Reaction.recode]
      rfl

/-- An order of the rooms stays one. -/
theorem recode_reorder (hf : Function.Injective f) {users : AList fun _ : Fd => User}
    {passwords : AList fun _ : Str => Str} :
    (σ.recode f).react (.reorder users (passwords.mapVal fun _ => f)) =
      (σ.react (.reorder users passwords)).recode f := by
  have hinjective : Function.Injective (AList.mapEntry fun _ : Str => f) := by
    rintro ⟨r, p⟩ ⟨r', p'⟩ h
    cases congrArg Sigma.fst h
    have hp : f p = f p' := eq_of_heq (Sigma.mk.inj_iff.1 h).2
    rw [hf hp]
  have hperm : (passwords.mapVal fun _ => f).entries.Perm (σ.recode f).passwords.entries ↔
      passwords.entries.Perm σ.passwords.entries := List.map_perm_map_iff hinjective
  have husers : (σ.recode f).users = σ.users := rfl
  simp only [react, hperm, husers]
  split <;> rfl

/-- The service does with an action with other passwords in it what it does with the action. -/
theorem recode_react (hf : Function.Injective f) (hnil : f [] = []) (a : Action) :
    (σ.recode f).react (σ.recodeAction f a) = (σ.react a).recode f := by
  cases a with
  | connect user =>
      simp only [recodeAction, react]
      split
      · rename_i hmem
        rw [if_pos (show user ∈ σ.users from hmem)]
        rfl
      · rename_i hmem
        rw [if_neg (show user ∉ σ.users from hmem)]
        rfl
  | line user line =>
      have hlookup : (σ.recode f).users.lookup user = σ.users.lookup user := rfl
      simp only [recodeAction, react, hlookup]
      cases hu : σ.users.lookup user with
      | none => rfl
      | some u =>
          simp only [asks_eq hu]
          exact recode_line hf hnil
  | leave user =>
      have hlookup : (σ.recode f).users.lookup user = σ.users.lookup user := rfl
      simp only [recodeAction, react, hlookup]
      cases σ.users.lookup user with
      | none => rfl
      | some u => exact recode_leave
  | reorder users passwords => exact recode_reorder hf

end Service

/-- The service does not notice how passwords are written. -/
theorem recode_renaming {f : Str → Str} (hf : Function.Injective f) (hnil : f [] = []) :
    serviceMachine.Renaming (Service.recode f) (Service.recodeAction f) where
  next _ a := congrArg Reaction.next (Service.recode_react hf hnil a)
  tells _ a := (congrArg Reaction.tells (Service.recode_react hf hnil a)).trans rfl
  drops _ a := by cases a <;> rfl

/-! ## Runs -/

/-- For every two runs of the event loop that differ in how passwords are written only, where
different passwords stay different and the empty one stays empty: the users and the open rooms
are the same, the rooms have the same passwords, written differently, and everybody is sent the
same bytes. -/
theorem passwords_unseen {f : Str → Str} (hf : Function.Injective f) (hnil : f [] = [])
    {ts us : List (Transition ChatServer Turn)} {s t : ChatServer}
    (hs : Run TurnStep .started ts s) (ht : Run TurnStep .started us t)
    (hsame : us.flatMap Transition.requests =
      serviceMachine.translate (Service.recodeAction f) .started
        (ts.flatMap Transition.requests)) :
    t.service = s.service.recode f ∧
      ∀ fd c d, s.clients.lookup fd = some c → t.clients.lookup fd = some d →
        c.written ++ c.outBuffer = d.written ++ d.outBuffer := by
  have hstarted : Service.started.recode f = .started := by
    simp only [Service.recode, Service.started, AList.mapVal_insert, hnil]
    rfl
  have hrecorded := @Machine.recorded_translate _ _ _ _ _ Service.started
    (ts.flatMap Transition.requests) _ _ (recode_renaming hf hnil) fun _ => []
  rw [hstarted, ← hsame, ← turns_recorded hs, ← turns_recorded ht] at hrecorded
  refine ⟨congrArg Prod.fst hrecorded, fun fd c d hc hd => ?_⟩
  have htexts : t.textsTo fd = s.textsTo fd := congrFun (congrArg Prod.snd hrecorded) fd
  rw [stream_eq_textsTo (drained_of_turn ⟨ts, hs⟩).1 hc, ← htexts,
    stream_eq_textsTo (drained_of_turn ⟨us, ht⟩).1 hd]

/-- One user founds a room with a password, and another one enters it. -/
def handover (password : Str) : List Turn :=
  [.ready (.server [.connection 5 true true, .connection 6 true true, .wouldBlock]),
    .ready (.sends 5 (str "ann\n/join den\n")), .ready (.sends 5 (password ++ [newline])),
    .ready (.sends 6 (str "bob\n/join den\n")), .ready (.sends 6 (password ++ [newline]))]

/-- Two passwords, and the guest is sent the same bytes. -/
theorem handover_unseen : ∃ c d,
    (ChatServer.afterTurns (handover (str "key"))).clients.lookup 6 = some c ∧
      (ChatServer.afterTurns (handover (str "word"))).clients.lookup 6 = some d ∧
      c.room = str "den" ∧ c.written ++ c.outBuffer = d.written ++ d.outBuffer := by
  let f : Str → Str := Equiv.swap (str "key") (str "word")
  have hc : ((ChatServer.afterTurns (handover (str "key"))).clients.lookup 6).map
      (fun c => c.room) = some (str "den") := by decide +kernel
  have hd : ((ChatServer.afterTurns (handover (str "word"))).clients.lookup 6).isSome = true := by
    decide +kernel
  rcases Option.map_eq_some_iff.1 hc with ⟨c, hc, hroom⟩
  rcases Option.isSome_iff_exists.1 hd with ⟨d, hd⟩
  refine ⟨c, d, hc, hd, hroom, ?_⟩
  exact (@passwords_unseen f (Equiv.injective _) (by decide) _ _ _ _ (run_turnTrace _)
    (run_turnTrace _) (by decide +kernel)).2 6 c d hc hd

end EpollChat
