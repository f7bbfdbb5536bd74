import EpollChat.Main

/-!
# The port of the listening socket

The port goes from the settings file through {lit}`std::stoi` and an {lit}`int` to the 16
bits that {lit}`htons` keeps, and nothing on the way looks at its range.

Main results:

- Theorem {lit}`main_listens_iff`: when {lit}`main` listens on the configured port or ends
  without an uncaught exception.
-/

namespace EpollChat

/-- The text the file gives for the port: the last one that is not empty, or
{lit}`8080`. -/
def portSetting (kvs : List (Str × Str)) : Str :=
  settingOr (kvs.filter fun kv => !kv.2.isEmpty) (str "PORT") (str "8080")

/-- No exception is uncaught, and {lit}`bind` only gets the number of the port setting. -/
def ListensAsConfigured (env : Environment) : Prop :=
  ∃ kvs calls, fileSettings env.serverEnv = .ok kvs ∧ main env = .ok calls ∧
    ∀ fd (port : Nat), .bind fd port ∈ calls → leadingNumber (portSetting kvs) = some (port : Int)

/-- The process ends before it calls {lit}`bind`: in {lit}`daemonize`, or because
{lit}`socket` or {lit}`setsockopt` fails. -/
def EndsBeforeBind (env : Environment) (kvs : List (Str × Str)) : Prop :=
  (settingOr kvs (str "DAEMON") (str "false") = str "true" ∧ env.daemonizes = false) ∨
    env.start.socket.socket = none ∨ env.start.socket.setsockopt = false

section Port

variable {env : Environment} {kvs : List (Str × Str)} {port : Int}

/-- Unless the last assignment to the port is empty, it is the port setting. -/
theorem portSetting_eq (hblank : lastValue (str "PORT") kvs ≠ some []) :
    portSetting kvs = settingOr kvs (str "PORT") (str "8080") := by
  have hlast : lastValue (str "PORT") (kvs.filter fun kv => !kv.2.isEmpty) =
      lastValue (str "PORT") kvs := by
    refine lastValue_filter (p := fun value : Str => !value.isEmpty) fun value hvalue => ?_
    have hne : value ≠ [] := by
      rintro rfl
      exact hblank hvalue
    simpa using hne
  rw [portSetting, settingOr, hlast, settingOr]

/-- The 16 bits of a port are the port itself if it is one. -/
theorem htons_eq_iff : (htons port : Int) = port ↔ 0 ≤ port ∧ port < 2 ^ 16 := by
  unfold htons
  omega

/-- What {lit}`bind` gets from a server that is started with this port. -/
theorem startUp_binds_iff :
    (∀ fd (p : Nat), .bind fd p ∈ (startUp port env.start).2.2 → (p : Int) = port) ↔
      (0 ≤ port ∧ port < 2 ^ 16) ∨ env.start.socket.socket = none ∨
        env.start.socket.setsockopt = false := by
  simp only [mem_bind_startUp]
  cases env.start.socket.socket with
  | none => simp
  | some serverFd =>
      cases env.start.socket.setsockopt with
      | false => simp
      | true =>
          rw [← htons_eq_iff]
          constructor
          · intro h
            exact Or.inl (h serverFd (htons port) ⟨rfl, rfl, rfl⟩)
          · rintro (h | h | h) fd p ⟨_, _, rfl⟩
            · exact h
            · cases h
            · cases h

end Port

/-- For every content of the settings file and every environment: {lit}`main` either ends
without an uncaught exception before it calls {lit}`bind`, or the address has the port that
the file gives, {lit}`8080` if it gives none, if and only if the settings can be trimmed,
the last assignment to the port is not empty, the port setting begins with a decimal number
in the range of {lit}`int`, the log file can be opened, and the number is between 0 and
65535 or {lit}`main` ends before it calls {lit}`bind`. -/
theorem main_listens_iff (env : Environment) :
    ListensAsConfigured env ↔
      ∃ kvs number, fileSettings env.serverEnv = .ok kvs ∧
        lastValue (str "PORT") kvs ≠ some [] ∧
        leadingNumber (portSetting kvs) = some number ∧ -2 ^ 31 ≤ number ∧ number < 2 ^ 31 ∧
        env.logOpens (settingOr kvs (str "LOG_FILE") (str "server.log")) = true ∧
        ((0 ≤ number ∧ number < 2 ^ 16) ∨ EndsBeforeBind env kvs) := by
  constructor
  · rintro ⟨kvs, calls, hkvs, hmain, hbind⟩
    rcases main_eq_ok_iff.1 hmain with ⟨kvs', number, hkvs', hport, hlog, rfl⟩
    cases hkvs.symm.trans hkvs'
    have hblank : lastValue (str "PORT") kvs ≠ some [] := by
      intro hlast
      rw [settingOr, hlast] at hport
      cases hport
    rw [← portSetting_eq hblank, stoi_eq_ok_iff] at hport
    rcases hport with ⟨hnumber, hlow, hhigh⟩
    refine ⟨kvs, number, hkvs, hblank, hnumber, hlow, hhigh, hlog, ?_⟩
    split_ifs at hbind with hdaemon
    · exact Or.inr (Or.inl hdaemon)
    · have hbound := startUp_binds_iff.1 fun fd p hmem =>
        (Option.some.inj (hnumber.symm.trans (hbind fd p hmem))).symm
      exact hbound.imp_right Or.inr
  · rintro ⟨kvs, number, hkvs, hblank, hnumber, hlow, hhigh, hlog, hrange⟩
    have hport : stoi (settingOr kvs (str "PORT") (str "8080")) = .ok number := by
      rw [← portSetting_eq hblank, stoi_eq_ok_iff]
      exact ⟨hnumber, hlow, hhigh⟩
    refine ⟨kvs, _, hkvs, main_eq_ok_iff.2 ⟨kvs, number, hkvs, hport, hlog, rfl⟩, ?_⟩
    split_ifs with hdaemon
    · simp
    · intro fd p hmem
      have hbound : (0 ≤ number ∧ number < 2 ^ 16) ∨ env.start.socket.socket = none ∨
          env.start.socket.setsockopt = false :=
        hrange.imp_right fun h => h.resolve_left hdaemon
      rw [hnumber, startUp_binds_iff.2 hbound fd p hmem]

/-- An environment in which nothing fails. -/
def kindEnvironment (content : Str) : Environment where
  serverEnv := some content
  logOpens := fun _ => true
  daemonizes := true
  start := ⟨⟨some 3, true, true, true, true, true⟩, some 4, true⟩

/-- {lit}`PORT=70000` listens on port 4464, a blank port or a word ends {lit}`main` with an
uncaught exception. -/
theorem port_70000_binds_4464 :
    main (kindEnvironment (str "PORT=70000")) =
        .ok [.opened 3, .bind 3 4464, .opened 4] ∧
      fileSettings (some (str "PORT=70000")) = .ok [(str "PORT", str "70000")] ∧
      leadingNumber (portSetting [(str "PORT", str "70000")]) = some 70000 ∧
      main (kindEnvironment (str "PORT= ")) = .error .invalidArgument ∧
      main (kindEnvironment (str "PORT=abc")) = .error .invalidArgument ∧
      ¬ListensAsConfigured (kindEnvironment (str "PORT=70000")) := by
  have hmain : main (kindEnvironment (str "PORT=70000")) =
      .ok [.opened 3, .bind 3 4464, .opened 4] := by decide
  have hsettings : fileSettings (some (str "PORT=70000")) = .ok [(str "PORT", str "70000")] := by
    decide
  refine ⟨hmain, hsettings, by decide, by decide, by decide, ?_⟩
  rintro ⟨kvs, calls, hkvs, hcalls, hbind⟩
  cases hsettings.symm.trans hkvs
  cases hmain.symm.trans hcalls
  exact absurd (hbind 3 4464 (by simp)) (by decide)

end EpollChat
