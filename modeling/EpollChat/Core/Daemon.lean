import EpollChat.Core.Logger

/-!
# core/daemon.cpp - Becoming a daemon

{lit}`daemonize` forks, leaves its session, and redirects the three standard descriptors
to {lit}`/dev/null`.  It returns in the child process only; on every other way the process
ends in it.

Main results:

- Theorem {lit}`daemonize_eq_ok_iff`: when it returns, and what it does to the descriptors.
- Theorem {lit}`daemonize_error`: what the process that ends in it leaves in the files.
-/

namespace EpollChat

/-- {lit}`STDIN_FILENO` -/
def stdinFileno : Fd := 0

/-- {lit}`STDERR_FILENO` -/
def stderrFileno : Fd := 2

/-- What {lit}`fork` returns. -/
inductive ForkResult
  | failed
  | parent
  | child
deriving DecidableEq

/-- The answers of the kernel in {lit}`daemonize`, with what an error is logged with. -/
structure DaemonResults where
  fork : ForkResult
  setsid : Bool
  /-- {lit}`/dev/null` can be opened. -/
  devNull : Bool
  stamp : Str
  spill : Nat

/-- A process that has ended, with what the files hold. -/
structure Exited where
  code : Nat
  files : Str → Str

namespace Running

variable (q : Running)

/-- {lit}`exit` flushes the streams. -/
def exit (code : Nat) : Exited :=
  ⟨code, q.flush.process.files⟩

def fail (r : DaemonResults) (text : Str) : Exited :=
  (q.log ⟨.err, text, r.stamp, r.spill⟩).exit 1

/-- The child process after {lit}`fork`.  The parent has a copy of the stream, with what is in
its buffer, and flushes it when it ends. -/
def forked : Running :=
  { q with process := q.flush.process }

end Running

/-- {lit}`daemonize`; whether {lit}`chdir` succeeds is not looked at. -/
def daemonize (q : Running) (r : DaemonResults) : Except Exited Running :=
  match r.fork with
  | .failed => .error (q.fail r (str "Fork error. Pid = -1."))
  | .parent => .error (q.exit 0)
  | .child =>
      let q := q.forked
      if !r.setsid then .error (q.fail r (str "Setsid error. Return -1."))
      else if !r.devNull then .error (q.fail r (str "Error open /dev/null. Return -1."))
      else
        let fdDevNull := q.process.descriptors.lowestFree
        let descriptors := q.process.descriptors.opened .devNull
        let descriptors := descriptors.duplicate fdDevNull stdinFileno
        let descriptors := descriptors.duplicate fdDevNull stdoutFileno
        let descriptors := descriptors.duplicate fdDevNull stderrFileno
        .ok { q with process := { q.process with descriptors := descriptors.closed fdDevNull } }

/-- Nothing that {lit}`daemonize` asks the kernel for fails, and it returns in the child. -/
def DaemonResults.Returns (r : DaemonResults) : Prop :=
  r.fork = .child ∧ r.setsid = true ∧ r.devNull = true

instance (r : DaemonResults) : Decidable r.Returns :=
  inferInstanceAs (Decidable (_ ∧ _))

/-- The descriptors that are redirected. -/
theorem mem_standard_iff {n : Nat} :
    n ∈ [stdinFileno, stdoutFileno, stderrFileno] ↔ n ≤ stderrFileno := by
  have hthree : n ∈ [0, 1, 2] ↔ n ≤ 2 := by
    simp only [List.mem_cons, List.not_mem_nil, or_false]
    omega
  exact hthree

section Daemonize

variable {q q' : Running} {r : DaemonResults}

/-- The process once it is a daemon. -/
def Running.detached (q : Running) : Running :=
  { q.forked with
    process :=
      { q.forked.process with
        descriptors := q.process.descriptors.redirect .devNull
          [stdinFileno, stdoutFileno, stderrFileno] } }

theorem forked_settings (q : Running) : q.forked.settings = q.settings :=
  rfl

theorem forked_descriptors (q : Running) :
    q.forked.process.descriptors = q.process.descriptors :=
  Running.flush_descriptors q

theorem daemonize_eq_ok_iff : daemonize q r = .ok q' ↔ r.Returns ∧ q' = q.detached := by
  have hdetached : q.detached =
      { q.forked with
        process :=
          { q.forked.process with
            descriptors := q.forked.process.descriptors.redirect .devNull
              [stdinFileno, stdoutFileno, stderrFileno] } } := by
    rw [Running.detached, forked_descriptors]
  unfold daemonize DaemonResults.Returns
  cases r.fork with
  | failed => simp
  | parent => simp
  | child =>
      cases r.setsid with
      | false => simp
      | true =>
          cases r.devNull with
          | false => simp
          | true =>
              rw [hdetached]
              constructor
              · intro h
                cases h
                exact ⟨⟨rfl, rfl, rfl⟩, rfl⟩
              · rintro ⟨_, rfl⟩
                rfl

/-! ### Ends -/

section Ends

variable {name text : Str}

theorem forked_files (hbuffer : q.logger.file.buffer = []) :
    q.forked.process.files name = q.process.files name := by
  have hunwritten : (q.process.write q.logger.file.fd []).files name = q.process.files name := by
    rw [Process.write_files, List.append_nil, ite_self]
  change (q.process.write q.logger.file.fd q.logger.file.buffer).files name = _
  rw [hbuffer, hunwritten]

/-- What an error leaves in the log. -/
theorem fail_files (hlog : q.LogsTo name) (hsilent : q.SilentOn name)
    (hbuffer : q.logger.file.buffer = []) (hlevel : q.logger.level ≤ .err) :
    (q.fail r text).files name =
      q.process.files name ++ LogCall.line ⟨.err, text, r.stamp, r.spill⟩ := by
  let call : LogCall := ⟨.err, text, r.stamp, r.spill⟩
  have hlogged : (q.log call).LogsTo name :=
    (Running.logsTo_iff (Running.log_settings _ _) (Running.log_descriptors _ _)).2 hlog
  have hlines : q.lines call = call.line := if_pos hlevel
  change (q.log call).flush.process.files name = _
  rw [Running.flush_files hlogged, Running.log_total hlog hsilent, hlines, Running.total, hbuffer,
    List.append_nil]

/-- What {lit}`daemonize` logs before it ends the process. -/
def daemonizeErrors : List Str :=
  [str "Fork error. Pid = -1.", str "Setsid error. Return -1.",
    str "Error open /dev/null. Return -1."]

/-- A process that ends in {lit}`daemonize` is the parent, and has written nothing, or has
logged why it ends. -/
theorem daemonize_error {e : Exited} (hlog : q.LogsTo name) (hsilent : q.SilentOn name)
    (hbuffer : q.logger.file.buffer = []) (hlevel : q.logger.level ≤ .err)
    (h : daemonize q r = .error e) :
    (r.fork = .parent ∧ e.code = 0 ∧ e.files name = q.process.files name) ∨
      ∃ text ∈ daemonizeErrors, e.code = 1 ∧
        e.files name = q.process.files name ++ LogCall.line ⟨.err, text, r.stamp, r.spill⟩ := by
  have hforkedLog : q.forked.LogsTo name :=
    (Running.logsTo_iff (forked_settings q) (forked_descriptors q)).2 hlog
  have hforkedSilent : q.forked.SilentOn name :=
    (Running.silentOn_iff (forked_settings q) (forked_descriptors q)).2 hsilent
  have hforked (text : Str) : (q.forked.fail r text).files name =
      q.process.files name ++ LogCall.line ⟨.err, text, r.stamp, r.spill⟩ := by
    rw [fail_files hforkedLog hforkedSilent hbuffer hlevel, forked_files hbuffer]
  unfold daemonize at h
  cases hfork : r.fork with
  | failed =>
      rw [hfork] at h
      cases h
      exact Or.inr ⟨_, by simp [daemonizeErrors], rfl, fail_files hlog hsilent hbuffer hlevel⟩
  | parent =>
      rw [hfork] at h
      cases h
      exact Or.inl ⟨rfl, rfl, forked_files hbuffer⟩
  | child =>
      simp only [hfork] at h
      split_ifs at h
      · cases h
        exact Or.inr ⟨_, by simp [daemonizeErrors], rfl, hforked _⟩
      · cases h
        exact Or.inr ⟨_, by simp [daemonizeErrors], rfl, hforked _⟩

end Ends

end Daemonize

end EpollChat
