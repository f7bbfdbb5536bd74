import EpollChat.Core.Daemon
import EpollChat.Main

/-!
# main.cpp - The process that serves

{lit}`main` opens the log, and becomes a daemon if the settings say so, before it runs the
server.  From then on the process logs lines and makes the system calls of the server, in
any order.

Main results:

- Theorem {lit}`main_eq_prepare`: when {lit}`main` gets to the server.
- Theorem {lit}`prepare_eq_ok`: the process that gets there.
- Theorem {lit}`Running.steps_total`: what was logged is in the log file and in the buffer, in
  order, as long as the log refers to the file.
-/

namespace EpollChat

/-! ## Before the server -/

/-- What {lit}`main` finds when it opens the log and becomes a daemon. -/
structure LaunchResults where
  /-- Whether the log file of this name can be opened. -/
  logOpens : Str → Bool
  stamp : Str
  spill : Nat
  daemon : DaemonResults

/-- How {lit}`main` ends without a server. -/
inductive Ended
  | threw (exception : UncaughtException)
  | exited (exited : Exited)

/-- The value of {lit}`LOG_FILE`, or its default. -/
def logFileName (config : Config) : Str :=
  config.get (str "LOG_FILE") (str "server.log")

/-- Whether {lit}`DAEMON` is {lit}`true`. -/
def daemonEnabled (config : Config) : Bool :=
  config.get (str "DAEMON") (str "false") == str "true"

/-- The part of {lit}`main` between the settings and the server. -/
def prepare (config : Config) (r : LaunchResults) (p : Process) : Except Ended Running :=
  let filename := logFileName config
  match Logger.init p (r.logOpens filename) filename (daemonEnabled config) r.stamp r.spill with
  | none => .error (.threw .logFile)
  | some q =>
      if daemonEnabled config then
        match daemonize q r.daemon with
        | .error exited => .error (.exited exited)
        | .ok q => .ok q
      else .ok q

section Launch

variable {config : Config} {r : LaunchResults} {p : Process} {q₀ : Running}

/-- {lit}`Logger::init`, as {lit}`main` calls it. -/
def initFor (config : Config) (r : LaunchResults) (p : Process) : Option Running :=
  Logger.init p (r.logOpens (logFileName config)) (logFileName config) (daemonEnabled config)
    r.stamp r.spill

/-- The logger fails iff its file does not open. -/
theorem initFor_eq_none_iff :
    initFor config r p = none ↔ r.logOpens (logFileName config) = false := by
  unfold initFor Logger.init
  cases r.logOpens (logFileName config) <;> simp

theorem logOpens_of_initFor (hinit : initFor config r p = some q₀) :
    r.logOpens (logFileName config) = true := by
  by_contra hclosed
  rw [initFor_eq_none_iff.2 (Bool.not_eq_true _ ▸ hclosed)] at hinit
  cases hinit

/-- Without a log file the program ends. -/
theorem prepare_of_none (hinit : initFor config r p = none) :
    prepare config r p = .error (.threw .logFile) := by
  unfold initFor at hinit
  simp only [prepare, hinit]

/-- With a log file it goes on to {lit}`daemonize`, if it is to. -/
theorem prepare_of_some (hinit : initFor config r p = some q₀) :
    prepare config r p =
      if daemonEnabled config then
        match daemonize q₀ r.daemon with
        | .error exited => .error (.exited exited)
        | .ok q => .ok q
      else .ok q₀ := by
  unfold initFor at hinit
  simp only [prepare, hinit]

/-- A daemon is prepared exactly if {lit}`daemonize` returns. -/
theorem prepare_of_returns (hinit : initFor config r p = some q₀)
    (h : daemonEnabled config = true → r.daemon.Returns) :
    prepare config r p = .ok (if daemonEnabled config then q₀.detached else q₀) := by
  rw [prepare_of_some hinit]
  split <;> rename_i hdaemon
  · rw [daemonize_eq_ok_iff.2 ⟨h hdaemon, rfl⟩]
  · rfl

/-- If {lit}`daemonize` ends the process, the preparation does not return. -/
theorem prepare_of_stays (hinit : initFor config r p = some q₀)
    (hdaemon : daemonEnabled config = true) (hstays : ¬r.daemon.Returns) :
    ∃ e, daemonize q₀ r.daemon = .error e ∧ prepare config r p = .error (.exited e) := by
  rw [prepare_of_some hinit, if_pos hdaemon]
  cases hended : daemonize q₀ r.daemon with
  | ok q => exact absurd (daemonize_eq_ok_iff.1 hended).1 hstays
  | error e => exact ⟨e, rfl, rfl⟩

end Launch

/-- {lit}`main` gets to the server exactly if this part gets to its end. -/
theorem main_eq_prepare {env : Environment} {config : Config} {port : Int} {r : LaunchResults}
    (p : Process) (hload : loadServerEnv env = .ok config)
    (hport : stoi (config.get (str "PORT") (str "8080")) = .ok port)
    (hopens : env.logOpens = r.logOpens) (hdaemonizes : env.daemonizes = decide r.daemon.Returns) :
    main env =
      match prepare config r p with
      | .ok _ => .ok (startUp port env.start).2.2
      | .error (.threw exception) => .error exception
      | .error (.exited _) => .ok [] := by
  have hmain : main env = (do
      initLogger env (logFileName config)
      if daemonEnabled config && !env.daemonizes then return []
      else return (startUp port env.start).2.2) := by
    unfold main
    rw [hload]
    change Except.bind (stoi _) _ = _
    rw [hport]
    rfl
  have hopens : env.logOpens (logFileName config) = r.logOpens (logFileName config) := by
    rw [hopens]
  rw [hmain, initLogger, hopens, hdaemonizes]
  cases hinit : initFor config r p with
  | none =>
      rw [prepare_of_none hinit, initFor_eq_none_iff.1 hinit]
      rfl
  | some q₀ =>
      rw [logOpens_of_initFor hinit]
      by_cases h : daemonEnabled config = true → r.daemon.Returns
      · have hserves : (daemonEnabled config && !decide r.daemon.Returns) = false := by
          cases hdaemon : daemonEnabled config with
          | false => rfl
          | true => simpa using h hdaemon
        rw [prepare_of_returns hinit h, hserves]
        rfl
      · rw [Classical.not_imp] at h
        rcases prepare_of_stays hinit h.1 h.2 with ⟨e, _, hended⟩
        rw [hended, h.1, decide_eq_false h.2]
        rfl

/-! ### The process that serves -/

section Prepared

variable {config : Config} {r : LaunchResults} {p : Process} {q : Running}

/-- The logger is as it was set up, also in a daemon. -/
theorem prepare_eq_ok (h : prepare config r p = .ok q) :
    ∃ q₀, initFor config r p = some q₀ ∧ q = if daemonEnabled config then q₀.detached else q₀ := by
  cases hinit : initFor config r p with
  | none =>
      rw [prepare_of_none hinit] at h
      cases h
  | some q₀ =>
      refine ⟨q₀, rfl, ?_⟩
      by_cases hreturns : daemonEnabled config = true → r.daemon.Returns
      · rw [prepare_of_returns hinit hreturns] at h
        exact (Except.ok.inj h).symm
      · rw [Classical.not_imp] at hreturns
        rcases prepare_of_stays hinit hreturns.1 hreturns.2 with ⟨e, _, hended⟩
        rw [hended] at h
        cases h

/-- A process that exits in between has its log set up, and exits in {lit}`daemonize`. -/
theorem prepare_eq_exited {e : Exited} (h : prepare config r p = .error (.exited e)) :
    ∃ q₀, initFor config r p = some q₀ ∧ daemonEnabled config = true ∧
      daemonize q₀ r.daemon = .error e := by
  cases hinit : initFor config r p with
  | none =>
      rw [prepare_of_none hinit] at h
      cases h
  | some q₀ =>
      refine ⟨q₀, rfl, ?_⟩
      by_cases hreturns : daemonEnabled config = true → r.daemon.Returns
      · rw [prepare_of_returns hinit hreturns] at h
        cases h
      · rw [Classical.not_imp] at hreturns
        rcases prepare_of_stays hinit hreturns.1 hreturns.2 with ⟨e', hended, hprepare⟩
        rw [hprepare] at h
        cases h
        exact ⟨hreturns.1, hended⟩

/-- A file that opens makes a logger. -/
theorem exists_initFor (hopens : r.logOpens (logFileName config) = true) :
    ∃ q₀, initFor config r p = some q₀ := by
  rw [← Option.ne_none_iff_exists']
  intro hnone
  rw [initFor_eq_none_iff.1 hnone] at hopens
  cases hopens

/-- If the file opens and {lit}`daemonize` returns, the server is prepared. -/
theorem exists_prepared (hopens : r.logOpens (logFileName config) = true)
    (hreturns : r.daemon.Returns) : ∃ q, prepare config r p = .ok q := by
  rcases exists_initFor (p := p) hopens with ⟨q₀, hinit⟩
  exact ⟨_, prepare_of_returns hinit fun _ => hreturns⟩

/-- If {lit}`daemonize` ends the process, so does the preparation. -/
theorem exists_exited (hopens : r.logOpens (logFileName config) = true)
    (hdaemon : daemonEnabled config = true) (hstays : ¬r.daemon.Returns) :
    ∃ e, prepare config r p = .error (.exited e) := by
  rcases exists_initFor (p := p) hopens with ⟨q₀, hinit⟩
  rcases prepare_of_stays hinit hdaemon hstays with ⟨e, _, hprepare⟩
  exact ⟨e, hprepare⟩

/-- The settings of a prepared logger, which has nothing left to write. -/
theorem prepare_settings (h : prepare config r p = .ok q) :
    q.settings = ⟨.info, .err, !daemonEnabled config, ⟨p.descriptors.lowestFree, []⟩⟩ ∧
      q.logger.file.buffer = [] := by
  rcases prepare_eq_ok h with ⟨q₀, hinit, rfl⟩
  have hsettings := Running.init_settings hinit
  split
  · exact hsettings
  · exact hsettings

/-- The descriptors of a prepared process. -/
theorem prepare_descriptors (h : prepare config r p = .ok q) :
    q.process.descriptors =
      if daemonEnabled config then
        DescriptorTable.redirect (p.descriptors.opened (.file (logFileName config))) .devNull
          [stdinFileno, stdoutFileno, stderrFileno]
      else p.descriptors.opened (.file (logFileName config)) := by
  rcases prepare_eq_ok h with ⟨q₀, hinit, rfl⟩
  rw [← Running.init_descriptors hinit]
  split <;> rfl

/-- The standard descriptors are open. -/
def Process.Standard (p : Process) : Prop :=
  ∀ n ≤ stderrFileno, n ∈ p.descriptors

instance (p : Process) : Decidable p.Standard :=
  inferInstanceAs (Decidable (∀ n ≤ 2, n ∈ p.descriptors))

/-- In a daemon the log is kept exactly if it was opened above the standard descriptors. -/
theorem prepare_logsTo_iff (h : prepare config r p = .ok q) :
    q.LogsTo (logFileName config) ↔ daemonEnabled config = false ∨ p.Standard := by
  rw [Running.LogsTo, Running.fd_of_settings (prepare_settings h).1, prepare_descriptors h]
  cases daemonEnabled config with
  | false => simp [DescriptorTable.lookup_opened]
  | true =>
      have htaken : p.descriptors.lowestFree ≠
          (p.descriptors.opened (.file (logFileName config))).lowestFree := by
        intro heq
        apply DescriptorTable.lowestFree_notMem
          (p.descriptors.opened (.file (logFileName config)))
        rw [← heq, ← AList.lookup_isSome, DescriptorTable.lookup_opened, if_pos rfl]
        rfl
      have hstandard : p.Standard ↔ stderrFileno < p.descriptors.lowestFree :=
        DescriptorTable.lt_lowestFree_iff.symm
      rw [hstandard, if_pos rfl, DescriptorTable.lookup_redirect, if_neg htaken]
      by_cases hle : p.descriptors.lowestFree ≤ stderrFileno
      · rw [if_pos (mem_standard_iff.2 hle)]
        simpa using hle
      · rw [if_neg (mt mem_standard_iff.1 hle), DescriptorTable.lookup_opened, if_pos rfl]
        simpa using hle

/-- Standard output is not written to the log file, if it was not that file before.  A
daemon prints nothing. -/
theorem prepare_silentOn (h : prepare config r p = .ok q)
    (hstandard : daemonEnabled config = false → p.Standard)
    (hstdout : daemonEnabled config = false →
      p.descriptors.lookup stdoutFileno ≠ some (.file (logFileName config))) :
    q.SilentOn (logFileName config) := by
  intro hconsole
  have hforeground : daemonEnabled config = false := by
    rw [Running.console_of_settings (prepare_settings h).1] at hconsole
    simpa using hconsole
  have hopen : stdoutFileno ∈ p.descriptors := hstandard hforeground stdoutFileno (by decide)
  have hne : stdoutFileno ≠ p.descriptors.lowestFree := fun heq =>
    DescriptorTable.lowestFree_notMem p.descriptors (heq ▸ hopen)
  rw [prepare_descriptors h, hforeground, if_neg (by decide), DescriptorTable.lookup_opened,
    if_neg hne]
  exact hstdout hforeground

theorem prepare_files (h : prepare config r p = .ok q)
    (hstandard : daemonEnabled config = false → p.Standard)
    (hstdout : daemonEnabled config = false →
      p.descriptors.lookup stdoutFileno ≠ some (.file (logFileName config))) :
    q.process.files (logFileName config) = (initializedCall r.stamp r.spill).line := by
  have hsilent := prepare_silentOn h hstandard hstdout
  rcases prepare_eq_ok h with ⟨q₀, hinit, rfl⟩
  cases hdaemon : daemonEnabled config with
  | false =>
      simp only [hdaemon, Bool.false_eq_true, if_false] at hsilent hinit ⊢
      exact Running.init_files hinit hsilent
  | true =>
      rw [initFor, hdaemon] at hinit
      exact (forked_files (Running.init_settings hinit).2).trans
        (Running.init_files hinit (Running.init_silentOn hinit))

end Prepared

/-! ## The process at work -/

/-- What a process does: it logs, or calls the system. -/
inductive ProcessEvent
  | logged (call : LogCall)
  | called (call : SystemCall)

/-- The calls of the logger among the events. -/
def logCalls (es : List ProcessEvent) : List LogCall :=
  es.filterMap fun
    | .logged call => some call
    | .called _ => none

/-- The calls of the system among the events. -/
def systemCalls (es : List ProcessEvent) : List SystemCall :=
  es.filterMap fun
    | .logged _ => none
    | .called call => some call

namespace Running

/-- What is opened is a socket or the epoll instance. -/
def step (q : Running) : ProcessEvent → Running
  | .logged call => q.log call
  | .called call =>
      { q with
        process :=
          { q.process with
            descriptors := q.process.descriptors.after .socket call.handleOp } }

/-- The process after a sequence of events. -/
def steps (q : Running) (es : List ProcessEvent) : Running :=
  es.foldl step q

variable {q : Running} {es us vs : List ProcessEvent} {name : Str}

theorem steps_append : q.steps (us ++ vs) = (q.steps us).steps vs :=
  List.foldl_append

/-- No event changes the settings of the logger. -/
theorem step_settings (q : Running) (e : ProcessEvent) : (q.step e).settings = q.settings := by
  cases e with
  | logged call => exact log_settings q call
  | called call => rfl

/-- No sequence of events changes the settings of the logger. -/
theorem steps_settings (q : Running) (es : List ProcessEvent) :
    (q.steps es).settings = q.settings := by
  induction es generalizing q with
  | nil => rfl
  | cons e es ih => exact (ih (q.step e)).trans (step_settings q e)

/-- Only the system calls change the descriptors. -/
theorem steps_descriptors (q : Running) (es : List ProcessEvent) :
    (q.steps es).process.descriptors =
      q.process.descriptors.after .socket (handleOps (systemCalls es)) := by
  induction es generalizing q with
  | nil => rfl
  | cons e es ih =>
      refine (ih (q.step e)).trans ?_
      cases e with
      | logged call =>
          change (q.log call).process.descriptors.after .socket _ = _
          rw [log_descriptors]
          rfl
      | called call => exact List.foldl_append.symm

/-- An event only appends to files. -/
theorem step_extends (q : Running) (e : ProcessEvent) (name : Str) :
    q.process.files name <+: (q.step e).process.files name := by
  cases e with
  | logged call => exact log_extends q call name
  | called call => exact List.prefix_rfl

/-- A sequence of events only appends to files. -/
theorem steps_extends (q : Running) (es : List ProcessEvent) (name : Str) :
    q.process.files name <+: (q.steps es).process.files name := by
  induction es generalizing q with
  | nil => exact List.prefix_rfl
  | cons e es ih => exact (step_extends q e name).trans (ih (q.step e))

/-- The log refers to a file, and standard output does not, whatever has happened so far. -/
def Attached (q : Running) (name : Str) (es : List ProcessEvent) : Prop :=
  ∀ us, us <+: es → (q.steps us).LogsTo name ∧ (q.steps us).SilentOn name

/-- The lines of the calls that are carried out. -/
def loggedLines (q : Running) (es : List ProcessEvent) : Str :=
  (logCalls es).flatMap q.lines

theorem lines_of_settings {q' : Running} (h : q'.settings = q.settings) (call : LogCall) :
    q'.lines call = q.lines call := by
  have hlevel : q'.logger.level = q.logger.level := (level_of_settings h).trans rfl
  rw [lines, lines, hlevel]

/-- Everything that was logged is in the file or in the buffer. -/
theorem steps_total (h : q.Attached name es) :
    (q.steps es).total name = q.total name ++ q.loggedLines es := by
  induction es using List.reverseRecOn with
  | nil => exact (List.append_nil _).symm
  | append_singleton es e ih =>
      have hbefore : q.Attached name es := fun us hus => h us (hus.trans (List.prefix_append _ _))
      rcases h es (List.prefix_append _ _) with ⟨hlog, hsilent⟩
      rw [steps_append]
      cases e with
      | logged call =>
          have hlines : q.loggedLines (es ++ [.logged call]) =
              q.loggedLines es ++ q.lines call := by
            simp [loggedLines, logCalls]
          have hcall := log_total hlog hsilent call
          rw [hlines, ← List.append_assoc, ← ih hbefore]
          rwa [lines_of_settings (steps_settings q es)] at hcall
      | called call =>
          have hlines : q.loggedLines (es ++ [.called call]) = q.loggedLines es := by
            simp [loggedLines, logCalls]
          rw [hlines, ← ih hbefore]
          rfl

/-- A process whose log refers to something else does not write to a file. -/
theorem steps_unwritten
    (h : ∀ us, us <+: es → ¬(q.steps us).LogsTo name ∧ (q.steps us).SilentOn name) :
    (q.steps es).process.files name = q.process.files name := by
  induction es using List.reverseRecOn with
  | nil => rfl
  | append_singleton es e ih =>
      rcases h es (List.prefix_append _ _) with ⟨hlog, hsilent⟩
      rw [steps_append, ← ih fun us hus => h us (hus.trans (List.prefix_append _ _))]
      cases e with
      | logged call => exact log_files_eq hlog hsilent call
      | called call => rfl

end Running

end EpollChat
