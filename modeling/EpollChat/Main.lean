import EpollChat.Config.Config
import EpollChat.Server.Lifetime

/-!
# main.cpp - From the settings to the listening socket

{lit}`main` reads its settings, converts the port with {lit}`std::stoi`, opens the log,
becomes a daemon if asked to, and runs the server.  The file system and the kernel are
inputs.  The model ends where the event loop begins.

Main results:

- Theorem {lit}`mem_bind_startUp`: what {lit}`bind` gets.
- Theorem {lit}`main_eq_ok_iff`: when {lit}`main` gets to the server, and with which port.
-/

namespace EpollChat

/-! ## {lit}`std::stoi` -/

/-- {lit}`std::isspace` in the "C" locale. -/
def isWhitespace (b : UInt8) : Bool :=
  b == 32 || (9 ≤ b && b ≤ 13)

def isDigit (b : UInt8) : Bool :=
  48 ≤ b && b ≤ 57

/-- The value of a string of digits. -/
def decimalValue (digits : Str) : Nat :=
  digits.foldl (fun n b => 10 * n + (b.toNat - 48)) 0

/-- The number the digits at the front of a string denote. -/
def leadingDigits (s : Str) : Option Nat :=
  let digits := s.takeWhile isDigit
  if digits = [] then none else some (decimalValue digits)

/-- The decimal number a string begins with, behind whitespace, whatever its size. -/
def leadingNumber (s : Str) : Option Int :=
  match s.dropWhile isWhitespace with
  | [] => none
  | b :: bs =>
      if b = 45 then (leadingDigits bs).map fun n => -(n : Int)
      else if b = 43 then (leadingDigits bs).map fun n => (n : Int)
      else (leadingDigits (b :: bs)).map fun n => (n : Int)

/-- What leaves {lit}`main` uncaught. -/
inductive UncaughtException
  /-- {lit}`load` runs into a fault. -/
  | config (fault : Fault)
  /-- {lit}`std::invalid_argument` -/
  | invalidArgument
  /-- {lit}`std::out_of_range` -/
  | outOfRange
  /-- {lit}`spdlog::spdlog_ex`, when the log file cannot be opened -/
  | logFile
deriving DecidableEq

/-- {lit}`std::stoi` returns a number in the range of {lit}`int`. -/
def stoi (s : Str) : Except UncaughtException Int :=
  match leadingNumber s with
  | none => .error .invalidArgument
  | some n => if -2 ^ 31 ≤ n ∧ n < 2 ^ 31 then .ok n else .error .outOfRange

/-! ## {lit}`main` -/

/-- What {lit}`main` finds. -/
structure Environment where
  /-- The content of {lit}`server.env`, if it can be opened. -/
  serverEnv : Option Str
  /-- Whether the log file of this name can be opened. -/
  logOpens : Str → Bool
  /-- Whether {lit}`daemonize` returns; the parent process, and a child without a session
  or {lit}`/dev/null`, exit in it. -/
  daemonizes : Bool
  start : StartResults

/-- The settings that {lit}`main` reads. -/
def loadServerEnv (env : Environment) : Except UncaughtException Config :=
  match Config.new.load env.serverEnv with
  | .error fault => .error (.config fault)
  | .ok (_, config) => .ok config

/-- {lit}`Logger::init` -/
def initLogger (env : Environment) (filename : Str) : Except UncaughtException Unit :=
  if env.logOpens filename then .ok () else .error .logFile

/-- {lit}`main` up to the event loop: the system calls of the server. -/
def main (env : Environment) : Except UncaughtException (List SystemCall) := do
  let config ← loadServerEnv env
  let port ← stoi (config.get (str "PORT") (str "8080"))
  let logFileName := config.get (str "LOG_FILE") (str "server.log")
  let daemonEnabled := config.get (str "DAEMON") (str "false") == str "true"
  initLogger env logFileName
  if daemonEnabled && !env.daemonizes then
    return []
  else
    return (startUp port env.start).2.2

/-! ## What {lit}`main` does -/

section Bind

variable {fd : Fd} {p : Nat}

theorem mem_bind_createServerSocket (port : Int) (r : SocketResults) :
    .bind fd p ∈ (createServerSocket port r).2 ↔
      r.socket = some fd ∧ r.setsockopt = true ∧ p = htons port := by
  unfold createServerSocket
  cases r.socket with
  | none => simp
  | some serverFd =>
      cases r.setsockopt with
      | false => simp
      | true =>
          simp only [Bool.not_true, Bool.false_eq_true, if_false]
          split_ifs <;> simp [eq_comm]

/-- {lit}`bind` is called with the converted port once the socket is there and its option
set. -/
theorem mem_bind_startUp (port : Int) (r : StartResults) :
    .bind fd p ∈ (startUp port r).2.2 ↔
      r.socket.socket = some fd ∧ r.socket.setsockopt = true ∧ p = htons port := by
  rw [← mem_bind_createServerSocket]
  simp only [startUp]
  cases (createServerSocket port r.socket).1 with
  | none => exact Iff.rfl
  | some serverFd =>
      cases r.epollCreate with
      | none => simp
      | some epollFd => cases r.epollCtl <;> simp

end Bind

/-- {lit}`stoi` returns the number at the front, if it is in range. -/
theorem stoi_eq_ok_iff {s : Str} {number : Int} :
    stoi s = .ok number ↔ leadingNumber s = some number ∧ -2 ^ 31 ≤ number ∧ number < 2 ^ 31 := by
  unfold stoi
  cases leadingNumber s with
  | none => simp
  | some n =>
      simp only [Option.some.injEq]
      split <;> rename_i hrange
      · constructor
        · intro h
          cases h
          exact ⟨rfl, hrange⟩
        · rintro ⟨rfl, _⟩
          rfl
      · simp only [reduceCtorEq, false_iff, not_and, not_lt]
        rintro rfl hlow
        omega

/-- The settings {lit}`main` finds; without a file there are none. -/
def fileSettings : Option Str → Except Fault (List (Str × Str))
  | none => .ok []
  | some content => settings content

/-- The settings are those of the file. -/
theorem loadServerEnv_eq_ok_iff {env : Environment} {config : Config} :
    loadServerEnv env = .ok config ↔
      ∃ kvs, fileSettings env.serverEnv = .ok kvs ∧ config = .ofSettings kvs := by
  unfold loadServerEnv
  cases env.serverEnv with
  | none => simp [fileSettings, Config.load, Config.ofSettings, Config.new, assignAll, eq_comm]
  | some content =>
      rw [Config.load_new]
      cases hsettings : settings content with
      | error fault => simp [fileSettings, hsettings, Except.map]
      | ok kvs => simp [fileSettings, hsettings, Except.map, eq_comm]

/-- The logger starts iff its file opens. -/
theorem initLogger_eq_ok_iff {env : Environment} {filename : Str} :
    initLogger env filename = .ok () ↔ env.logOpens filename = true := by
  unfold initLogger
  split <;> simp_all

/-- The setting of a key, with a default. -/
def settingOr (kvs : List (Str × Str)) (key defaultValue : Str) : Str :=
  (lastValue key kvs).getD defaultValue

theorem get_eq_settingOr (kvs : List (Str × Str)) (key defaultValue : Str) :
    (Config.ofSettings kvs).get key defaultValue = settingOr kvs key defaultValue :=
  Config.get_ofSettings kvs key defaultValue

/-- Without an uncaught exception: the settings can be read, the port converted and the
log file opened, and the process either ends in {lit}`daemonize` or runs the server. -/
theorem main_eq_ok_iff {env : Environment} {calls : List SystemCall} :
    main env = .ok calls ↔
      ∃ kvs port, fileSettings env.serverEnv = .ok kvs ∧
        stoi (settingOr kvs (str "PORT") (str "8080")) = .ok port ∧
        env.logOpens (settingOr kvs (str "LOG_FILE") (str "server.log")) = true ∧
        calls =
          if settingOr kvs (str "DAEMON") (str "false") = str "true" ∧
              env.daemonizes = false then []
          else (startUp port env.start).2.2 := by
  constructor
  · intro h
    rcases exists_of_bind_ok h with ⟨config, hconfig, hafterLoad⟩
    rcases loadServerEnv_eq_ok_iff.1 hconfig with ⟨kvs, hkvs, rfl⟩
    rcases exists_of_bind_ok hafterLoad with ⟨port, hport, hafterPort⟩
    rcases exists_of_bind_ok hafterPort with ⟨_, hlog, hcalls⟩
    rw [get_eq_settingOr] at hport
    rw [get_eq_settingOr] at hlog
    refine ⟨kvs, port, hkvs, hport, initLogger_eq_ok_iff.1 hlog, ?_⟩
    simp only [get_eq_settingOr, Bool.and_eq_true, beq_iff_eq, Bool.not_eq_true'] at hcalls
    split_ifs at hcalls ⊢ <;> exact (Except.ok.inj hcalls).symm
  · rintro ⟨kvs, port, hkvs, hport, hlog, rfl⟩
    have hconfig := loadServerEnv_eq_ok_iff.2 ⟨kvs, hkvs, rfl⟩
    have hlogger := initLogger_eq_ok_iff.2 hlog
    simp only [main, bind, Except.bind, hconfig, get_eq_settingOr, hport, hlogger,
      Bool.and_eq_true, beq_iff_eq, Bool.not_eq_true']
    split_ifs <;> rfl

end EpollChat
