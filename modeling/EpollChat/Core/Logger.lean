import Mathlib.Logic.Function.Basic
import EpollChat.Client.Client
import EpollChat.Library.DescriptorTable

/-!
# core/logger.cpp - The log

{lit}`Logger::init` opens the log file and keeps a logger for the whole process.  What is
logged goes to standard output, unless the process is to become a daemon, and to the file,
behind the buffer of a stdio stream.  The model has what the functions of the logging
library do for the logger that {lit}`init` sets up.

Main results:

- Theorem {lit}`Running.log_total`: what is in the file and in the buffer after a call.
- Theorem {lit}`Running.log_buffer`: a call with a high enough level leaves nothing in the
  buffer.
- Theorem {lit}`Running.init_eq`: what {lit}`init` leaves behind.
-/

namespace EpollChat

/-! ## The process -/

/-- What a descriptor refers to. -/
inductive Resource
  /-- A file that is open for appending. -/
  | file (name : Str)
  /-- {lit}`/dev/null` -/
  | devNull
  /-- A socket, or the epoll instance. -/
  | socket
  /-- Something the process was started with. -/
  | inherited (id : Nat)
deriving DecidableEq

/-- The open descriptors, and what the files hold. -/
structure Process where
  descriptors : DescriptorTable Resource
  files : Str → Str

/-- {lit}`write`, as far as it changes files. -/
def Process.write (p : Process) (fd : Fd) (bytes : Str) : Process :=
  match p.descriptors.lookup fd with
  | some (.file name) =>
      { p with files := Function.update p.files name (p.files name ++ bytes) }
  | _ => p

@[simp]
theorem Process.write_descriptors (p : Process) (fd : Fd) (bytes : Str) :
    (p.write fd bytes).descriptors = p.descriptors := by
  unfold write
  split <;> rfl

/-- A file grows exactly if it is written to. -/
theorem Process.write_files (p : Process) (fd : Fd) (bytes name : Str) :
    (p.write fd bytes).files name =
      if p.descriptors.lookup fd = some (.file name) then p.files name ++ bytes
      else p.files name := by
  unfold write
  split <;> rename_i hfd
  · rename_i name'
    simp only [hfd, Option.some.injEq, Resource.file.injEq, Function.update_apply, eq_comm]
    split <;> rename_i hname
    · rw [hname]
    · rfl
  · rw [if_neg (hfd name)]

/-! ## Levels and calls -/

/-- {lit}`spdlog::level::level_enum` -/
inductive Level
  | trace
  | debug
  | info
  | warn
  | err
  | critical
  | off
deriving DecidableEq

/-- The order of the levels. -/
def Level.number : Level → Nat
  | .trace => 0
  | .debug => 1
  | .info => 2
  | .warn => 3
  | .err => 4
  | .critical => 5
  | .off => 6

instance : LE Level :=
  ⟨fun a b => a.number ≤ b.number⟩

instance (a b : Level) : Decidable (a ≤ b) :=
  inferInstanceAs (Decidable (a.number ≤ b.number))

/-- The names of the levels in log lines. -/
def Level.name : Level → Str
  | .trace => str "trace"
  | .debug => str "debug"
  | .info => str "info"
  | .warn => str "warning"
  | .err => str "error"
  | .critical => str "critical"
  | .off => str "off"

/-- A call of the logger. -/
structure LogCall where
  level : Level
  text : Str
  /-- The date and the time. -/
  stamp : Str
  /-- How much of its buffer stdio writes without being asked to. -/
  spill : Nat

/-- The default pattern of the library. -/
def LogCall.line (call : LogCall) : Str :=
  str "[" ++ call.stamp ++ str "] [chat_server] [" ++ call.level.name ++ str "] " ++ call.text ++
    str "\n"

/-! ## The logger -/

/-- An output stream of stdio: a descriptor, and what waits to be written to it. -/
structure Stream where
  fd : Fd
  buffer : Str

/-- {lit}`spdlog::logger` with the sinks it may have here. -/
structure Logger where
  level : Level
  flushLevel : Level
  /-- There is a sink for standard output. -/
  console : Bool
  /-- The stream of the sink for the file. -/
  file : Stream

/-- A process with a logger. -/
structure Running where
  process : Process
  logger : Logger

/-- {lit}`STDOUT_FILENO` -/
def stdoutFileno : Fd := 1

namespace Running

variable (q : Running)

/-- The file sink puts a line into the buffer, some of which may be written. -/
def fwrite (bytes : Str) (spill : Nat) : Running :=
  let waiting := q.logger.file.buffer ++ bytes
  { process := q.process.write q.logger.file.fd (waiting.take spill)
    logger := { q.logger with file := { q.logger.file with buffer := waiting.drop spill } } }

/-- {lit}`logger::flush_`; the sink for standard output has nothing left to flush. -/
def flush : Running where
  process := q.process.write q.logger.file.fd q.logger.file.buffer
  logger := { q.logger with file := { q.logger.file with buffer := [] } }

/-- The sink for standard output flushes every line. -/
def print (bytes : Str) : Running :=
  if q.logger.console then { q with process := q.process.write stdoutFileno bytes } else q

/-- {lit}`logger::should_flush_` -/
def ShouldFlush (call : LogCall) : Prop :=
  q.logger.flushLevel ≤ call.level ∧ call.level ≠ .off

instance (call : LogCall) : Decidable (q.ShouldFlush call) :=
  inferInstanceAs (Decidable (_ ∧ _))

/-- {lit}`logger::sink_it_` -/
def sinkIt (call : LogCall) : Running :=
  let q' := (q.print call.line).fwrite call.line call.spill
  if q.ShouldFlush call then q'.flush else q'

/-- A call is carried out if its level is high enough. -/
def log (call : LogCall) : Running :=
  if q.logger.level ≤ call.level then q.sinkIt call else q

/-- {lit}`flush_on`. -/
def flushOn (level : Level) : Running :=
  { q with logger := { q.logger with flushLevel := level } }

end Running

/-- The first line of every log. -/
def initializedCall (stamp : Str) (spill : Nat) : LogCall :=
  ⟨.info, str "Logger initialized.", stamp, spill⟩

/-- {lit}`Logger::init`: the file is emptied when it is opened; if it cannot be opened, the
library throws. -/
def Logger.init (p : Process) (opens : Bool) (filename : Str) (isDaemon : Bool) (stamp : Str)
    (spill : Nat) : Option Running :=
  if !opens then none
  else
    let file : Stream := ⟨p.descriptors.lowestFree, []⟩
    let q : Running :=
      { process :=
          { descriptors := p.descriptors.opened (.file filename)
            files := Function.update p.files filename [] }
        logger := ⟨.info, .off, !isDaemon, file⟩ }
    let q := (q.log (initializedCall stamp spill)).flush
    some ((q.flushOn .info).flushOn .err)

/-! ## What a call does -/

namespace Running

variable {q : Running} {call : LogCall} {name bytes : Str} {spill : Nat}

/-- The logger without what is in its buffer. -/
def settings (q : Running) : Logger :=
  { q.logger with file := { q.logger.file with buffer := [] } }

/-- The stream of the log refers to a file. -/
def LogsTo (q : Running) (name : Str) : Prop :=
  q.process.descriptors.lookup q.logger.file.fd = some (.file name)

/-- The logger does not write to a file through standard output. -/
def SilentOn (q : Running) (name : Str) : Prop :=
  q.logger.console = true → q.process.descriptors.lookup stdoutFileno ≠ some (.file name)

/-- What was written to a file, and behind it what waits to be. -/
def total (q : Running) (name : Str) : Str :=
  q.process.files name ++ q.logger.file.buffer

/-- What a call adds to the log. -/
def lines (q : Running) (call : LogCall) : Str :=
  if q.logger.level ≤ call.level then call.line else []

/-! ### What stays -/

section Settings

variable {settings : Logger} (h : q.settings = settings)
include h

theorem level_of_settings : q.logger.level = settings.level := by
  rw [← h]
  rfl

theorem flushLevel_of_settings : q.logger.flushLevel = settings.flushLevel := by
  rw [← h]
  rfl

theorem console_of_settings : q.logger.console = settings.console := by
  rw [← h]
  rfl

theorem fd_of_settings : q.logger.file.fd = settings.file.fd := by
  rw [← h]
  rfl

end Settings

/-- What holds before a call, and is kept by whatever the call may do, holds behind it. -/
theorem log_invariant {I : Running → Prop} (hprint : ∀ q bytes, I q → I (q.print bytes))
    (hfwrite : ∀ q bytes spill, I q → I (q.fwrite bytes spill)) (hflush : ∀ q, I q → I q.flush)
    (call : LogCall) (hq : I q) : I (q.log call) := by
  have hwritten : I ((q.print call.line).fwrite call.line call.spill) :=
    hfwrite _ _ _ (hprint _ _ hq)
  unfold log
  split
  · unfold sinkIt
    split
    · exact hflush _ hwritten
    · exact hwritten
  · exact hq

theorem print_settings (q : Running) (bytes : Str) : (q.print bytes).settings = q.settings := by
  unfold print
  split <;> rfl

theorem fwrite_settings (q : Running) (bytes : Str) (spill : Nat) :
    (q.fwrite bytes spill).settings = q.settings :=
  rfl

theorem print_descriptors (q : Running) (bytes : Str) :
    (q.print bytes).process.descriptors = q.process.descriptors := by
  unfold print
  split
  · exact Process.write_descriptors _ _ _
  · rfl

theorem fwrite_descriptors (q : Running) (bytes : Str) (spill : Nat) :
    (q.fwrite bytes spill).process.descriptors = q.process.descriptors :=
  Process.write_descriptors _ _ _

theorem flush_descriptors (q : Running) :
    q.flush.process.descriptors = q.process.descriptors :=
  Process.write_descriptors _ _ _

/-- A line changes no settings. -/
theorem log_settings (q : Running) (call : LogCall) : (q.log call).settings = q.settings := by
  refine log_invariant (I := fun q' => q'.settings = q.settings) ?_ ?_ ?_ call rfl
  · exact fun q' bytes h => (print_settings q' bytes).trans h
  · exact fun _ _ _ h => h
  · exact fun _ h => h

/-- A line opens and closes nothing. -/
theorem log_descriptors (q : Running) (call : LogCall) :
    (q.log call).process.descriptors = q.process.descriptors := by
  refine log_invariant (I := fun q' => q'.process.descriptors = q.process.descriptors)
    ?_ ?_ ?_ call rfl
  · exact fun q' bytes h => (print_descriptors q' bytes).trans h
  · exact fun q' _ _ h => (fwrite_descriptors q' _ _).trans h
  · exact fun q' h => (flush_descriptors q').trans h

/-- Whether the log refers to a file depends on its descriptor only. -/
theorem logsTo_iff {q' : Running} (hsettings : q'.settings = q.settings)
    (hdescriptors : q'.process.descriptors = q.process.descriptors) :
    q'.LogsTo name ↔ q.LogsTo name := by
  have hfd : q'.logger.file.fd = q.logger.file.fd := (fd_of_settings hsettings).trans rfl
  rw [LogsTo, LogsTo, hdescriptors, hfd]

theorem silentOn_iff {q' : Running} (hsettings : q'.settings = q.settings)
    (hdescriptors : q'.process.descriptors = q.process.descriptors) :
    q'.SilentOn name ↔ q.SilentOn name := by
  have hconsole : q'.logger.console = q.logger.console :=
    (console_of_settings hsettings).trans rfl
  rw [SilentOn, SilentOn, hdescriptors, hconsole]

/-! ### What is written -/

/-- Printing leaves a file alone that the console is not. -/
theorem print_files (hsilent : q.SilentOn name) (bytes : Str) :
    (q.print bytes).process.files name = q.process.files name := by
  unfold print
  split <;> rename_i hconsole
  · rw [Process.write_files, if_neg (hsilent hconsole)]
  · rfl

theorem print_total (hsilent : q.SilentOn name) (bytes : Str) :
    (q.print bytes).total name = q.total name := by
  have hbuffer : (q.print bytes).logger.file.buffer = q.logger.file.buffer := by
    unfold print
    split <;> rfl
  rw [total, total, print_files hsilent, hbuffer]

/-- Buffered bytes count as written behind what there is. -/
theorem fwrite_total (hlog : q.LogsTo name) :
    (q.fwrite bytes spill).total name = q.total name ++ bytes := by
  unfold LogsTo at hlog
  simp [total, fwrite, Process.write_files, hlog]

/-- Flushing brings everything into the file. -/
theorem flush_files (hlog : q.LogsTo name) : q.flush.process.files name = q.total name := by
  unfold LogsTo at hlog
  simp [total, flush, Process.write_files, hlog]

/-- A flush moves bytes from the buffer to the file. -/
theorem flush_total (hlog : q.LogsTo name) : q.flush.total name = q.total name :=
  (List.append_nil _).trans (flush_files hlog)

/-- What is in the file and in the buffer grows by what is logged. -/
theorem log_total (hlog : q.LogsTo name) (hsilent : q.SilentOn name) (call : LogCall) :
    (q.log call).total name = q.total name ++ q.lines call := by
  have hprinted : (q.print call.line).LogsTo name :=
    (logsTo_iff (print_settings _ _) (print_descriptors _ _)).2 hlog
  have hwritten : ((q.print call.line).fwrite call.line call.spill).LogsTo name :=
    (logsTo_iff (fwrite_settings _ _ _) (fwrite_descriptors _ _ _)).2 hprinted
  unfold log lines
  split
  · unfold sinkIt
    split
    · rw [flush_total hwritten, fwrite_total hprinted, print_total hsilent]
    · rw [fwrite_total hprinted, print_total hsilent]
  · exact (List.append_nil _).symm

/-- A line that is to be flushed leaves nothing in the buffer. -/
theorem log_buffer (hlevel : q.logger.level ≤ call.level) (hflush : q.ShouldFlush call) :
    (q.log call).logger.file.buffer = [] := by
  rw [log, if_pos hlevel, sinkIt, if_pos hflush]
  rfl

/-- A write only appends. -/
theorem write_extends (p : Process) (fd : Fd) (bytes name : Str) :
    p.files name <+: (p.write fd bytes).files name := by
  rw [Process.write_files]
  split
  · exact List.prefix_append _ _
  · exact List.prefix_rfl

/-- What was written stays. -/
theorem log_extends (q : Running) (call : LogCall) (name : Str) :
    q.process.files name <+: (q.log call).process.files name := by
  refine log_invariant (I := fun q' => q.process.files name <+: q'.process.files name)
    ?_ ?_ ?_ call List.prefix_rfl
  · intro q' bytes h
    unfold print
    split
    · exact h.trans (write_extends _ _ _ _)
    · exact h
  · exact fun q' _ _ h => h.trans (write_extends q'.process _ _ _)
  · exact fun q' h => h.trans (write_extends q'.process _ _ _)

/-- The logger does not write to a file that neither its stream nor its standard output refers
to. -/
theorem log_files_eq (hlog : ¬q.LogsTo name) (hsilent : q.SilentOn name) (call : LogCall) :
    (q.log call).process.files name = q.process.files name := by
  let I (q' : Running) : Prop := q'.settings = q.settings ∧
    q'.process.descriptors = q.process.descriptors ∧
      q'.process.files name = q.process.files name
  have hunwritten (q' : Running) (bytes : Str) (h : I q') :
      (q'.process.write q'.logger.file.fd bytes).files name = q.process.files name := by
    have hnot : ¬q'.LogsTo name := mt (logsTo_iff h.1 h.2.1).1 hlog
    rw [Process.write_files]
    exact (if_neg hnot).trans h.2.2
  refine (log_invariant (I := I) ?_ ?_ ?_ call ⟨rfl, rfl, rfl⟩).2.2
  · intro q' bytes h
    refine ⟨(print_settings _ _).trans h.1, (print_descriptors _ _).trans h.2.1, ?_⟩
    rw [print_files ((silentOn_iff h.1 h.2.1).2 hsilent), h.2.2]
  · intro q' bytes spill h
    exact ⟨h.1, (fwrite_descriptors _ _ _).trans h.2.1, hunwritten q' _ h⟩
  · intro q' h
    exact ⟨h.1, (flush_descriptors _).trans h.2.1, hunwritten q' _ h⟩

/-! ### The logger that is set up -/

section Init

variable {p : Process} {opens isDaemon : Bool} {stamp : Str}

/-- The logger writes what is {lit}`info` or worse, and flushes what is {lit}`err` or worse: the
second call of {lit}`flush_on` replaces the first. -/
theorem init_settings (hinit : Logger.init p opens name isDaemon stamp spill = some q) :
    q.settings = ⟨.info, .err, !isDaemon, ⟨p.descriptors.lowestFree, []⟩⟩ ∧
      q.logger.file.buffer = [] := by
  unfold Logger.init at hinit
  split at hinit
  · cases hinit
  · cases hinit
    refine ⟨?_, rfl⟩
    have hsettings := log_settings
      ⟨⟨p.descriptors.opened (.file name), Function.update p.files name []⟩,
        ⟨.info, .off, !isDaemon, ⟨p.descriptors.lowestFree, []⟩⟩⟩ (initializedCall stamp spill)
    exact congrArg (fun logger : Logger => { logger with flushLevel := .err }) hsettings

/-- The logger opens its file, and nothing else. -/
theorem init_descriptors (hinit : Logger.init p opens name isDaemon stamp spill = some q) :
    q.process.descriptors = p.descriptors.opened (.file name) := by
  unfold Logger.init at hinit
  split at hinit
  · cases hinit
  · cases hinit
    exact (flush_descriptors _).trans (log_descriptors _ _)

/-- A new logger writes to its file. -/
theorem logsTo_init (hinit : Logger.init p opens name isDaemon stamp spill = some q) :
    q.LogsTo name := by
  have hfd : q.logger.file.fd = p.descriptors.lowestFree :=
    fd_of_settings (init_settings hinit).1
  rw [LogsTo, init_descriptors hinit, hfd, DescriptorTable.lookup_opened, if_pos rfl]

/-- The logger of a daemon has no sink for standard output. -/
theorem init_silentOn (hinit : Logger.init p opens name true stamp spill = some q) :
    q.SilentOn bytes := by
  intro hconsole
  rw [console_of_settings (init_settings hinit).1] at hconsole
  cases hconsole

/-- The file begins with the line of {lit}`init`, whatever was in it before. -/
theorem init_files (hinit : Logger.init p opens name isDaemon stamp spill = some q)
    (hsilent : q.SilentOn name) :
    q.process.files name = (initializedCall stamp spill).line := by
  let q₀ : Running :=
    ⟨⟨p.descriptors.opened (.file name), Function.update p.files name []⟩,
      ⟨.info, .off, !isDaemon, ⟨p.descriptors.lowestFree, []⟩⟩⟩
  have hlog : q₀.LogsTo name := by
    change (p.descriptors.opened (.file name)).lookup p.descriptors.lowestFree = _
    rw [DescriptorTable.lookup_opened, if_pos rfl]
  have hsilent₀ : q₀.SilentOn name := by
    rwa [SilentOn, init_descriptors hinit, console_of_settings (init_settings hinit).1] at hsilent
  have hlogged : (q₀.log (initializedCall stamp spill)).LogsTo name :=
    (logsTo_iff (log_settings _ _) (log_descriptors _ _)).2 hlog
  have hfiles : q.process.files name =
      (q₀.log (initializedCall stamp spill)).flush.process.files name := by
    unfold Logger.init at hinit
    split at hinit <;> cases hinit
    rfl
  have hempty : q₀.total name = [] := by
    change Function.update p.files name [] name ++ [] = []
    rw [Function.update_self, List.append_nil]
  rw [hfiles, flush_files hlogged, log_total hlog hsilent₀, hempty, List.nil_append]
  rfl

end Init

end Running

end EpollChat
