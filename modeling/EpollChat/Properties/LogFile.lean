import EpollChat.Properties.Descriptors
import EpollChat.Server.Loop
import EpollChat.Startup

/-!
# The log of a process that serves

The process opens its log before it becomes a daemon and before the server opens anything,
and keeps it until it ends.  Becoming a daemon redirects the standard descriptors, and the
server closes descriptors, some of them twice.  Neither touches the log, if the process was
started with its standard descriptors open.

Main results:

- Theorem {lit}`server_leaves_descriptors`: whatever was open before the server stays open.
- Theorem {lit}`log_contents`: what is in the log file at any time, and in the end.
- Theorem {lit}`daemon_log_kept_iff`: when a daemon has a log.
-/

namespace EpollChat

open ChatServer

/-! ## What the server closes -/

section Steps

variable {s s' : ChatServer} {e : Event} {ts : List (Transition ChatServer Event)}

/-- A disconnect adds no client. -/
theorem keys_disconnected {client fd : Fd} {c : Session}
    (hfd : fd ∈ (s.disconnected client c).clients.keys) : fd ∈ s.clients.keys := by
  rw [← AList.mem_keys, AList.mem_iff_lookup, disconnected_lookup] at hfd
  rcases hfd with ⟨cl, hcl⟩
  split at hcl
  · cases hcl
  · rcases Option.map_eq_some_iff.1 hcl with ⟨cl₀, hcl₀, _⟩
    exact AList.mem_keys.1 (AList.mem_of_lookup hcl₀)

/-- The descriptor of a step, and those of the clients after it, are those of clients before
it or opened by it. -/
theorem StepEffect.descriptors (h : StepEffect s e s') :
    (∀ fd, e.subject = some fd → fd ∈ s.clients.keys ++ e.opened) ∧
      ∀ fd ∈ s'.clients.keys, fd ∈ s.clients.keys ++ e.opened := by
  have hsubject {client : Fd} {c : Session} (hc : s.clients.lookup client = some c) :
      ∀ fd, some client = some fd → fd ∈ s.clients.keys ++ e.opened := by
    rintro fd ⟨⟩
    exact List.mem_append_left _ (AList.mem_keys.1 (AList.mem_of_lookup hc))
  have hkept (hkeys : s'.clients.keys = s.clients.keys) :
      ∀ fd ∈ s'.clients.keys, fd ∈ s.clients.keys ++ e.opened := by
    intro fd hfd
    rw [hkeys] at hfd
    exact List.mem_append_left _ hfd
  cases h with
  | accept client nonblocking added hnew =>
      refine ⟨by simp [Event.subject, Event.opened], fun fd hfd => ?_⟩
      rcases acceptConnection_closed hnew nonblocking added with ⟨_, hkeys⟩ | ⟨_, hkeys⟩
      · rw [hkeys] at hfd
        exact List.mem_append_left _ hfd
      · rw [hkeys] at hfd
        simpa [Event.opened, or_comm] using hfd
  | line client line c _ hc heffect =>
      have hholds := (holds_updateClient s client fun c => c.noteLine line).trans heffect.holds
      exact ⟨hsubject hc, hkept hholds.1⟩
  | wrote client result c hc hok =>
      have hholds := holds_updateClient s client fun _ => (c.handleWrite result).2
      exact ⟨hsubject hc, hkept hholds.1⟩
  | dropped client result c hc hok =>
      have hholds := holds_updateClient s client fun _ => (c.handleWrite result).2
      have hwrote : (s.wrote client c result).clients.keys = s.clients.keys := hholds.1
      refine ⟨hsubject hc, fun fd hfd => ?_⟩
      have hmem := keys_disconnected hfd
      rw [hwrote] at hmem
      exact List.mem_append_left _ hmem
  | disconnect client c hc =>
      exact ⟨hsubject hc, fun fd hfd => List.mem_append_left _ (keys_disconnected hfd)⟩
  | buffer client inBuffer c hc =>
      have hholds := holds_updateClient s client fun c => { c with inBuffer := inBuffer }
      exact ⟨hsubject hc, hkept hholds.1⟩
  | rehash clients rooms hclients hrooms =>
      refine ⟨by simp [Event.subject], fun fd hfd => ?_⟩
      exact List.mem_append_left _ ((hclients.map Sigma.fst).mem_iff.1 hfd)

/-- A step closes descriptors that it or an earlier one was given. -/
theorem releases_of_step (h : StepEffect s e s') :
    ReleasesAcquired s.clients.keys (handleOps (Transition.systemCalls ⟨s, e, s'⟩)) := by
  rcases h.closed with ⟨fds, hclosed, hsubject⟩
  have hfds : fds ⊆ s.clients.keys ++ e.opened := fun fd hfd =>
    h.descriptors.1 fd (hsubject fd hfd)
  rw [systemCalls_eq hclosed]
  refine releasesAcquired_append (releasesAcquired_acquire _ _) (releasesAcquired_release hfds) ?_
  intro fd hfd
  rcases List.mem_append.1 hfd with hmem | hopened
  · exact Or.inl hmem
  · exact Or.inr (List.mem_map_of_mem hopened)

/-- The event loop closes what it has opened only, though perhaps more than once. -/
theorem releases_of_run (hs : ReachableState s) (hrun : Run Step s ts s') :
    ReleasesAcquired s.clients.keys (handleOps (ts.flatMap Transition.systemCalls)) ∧
      ∀ fd ∈ s'.clients.keys, fd ∈ s.clients.keys ∨
        .acquire fd ∈ handleOps (ts.flatMap Transition.systemCalls) := by
  induction hrun with
  | nil => exact ⟨trivial, fun fd hfd => Or.inl hfd⟩
  | @cons s t s' e ts hstep _ ih =>
      have heffect := step_effect (keyed_of_reachable hs) hstep
      rcases ih (hs.step hstep) with ⟨hrest, hclients⟩
      rw [List.flatMap_cons, handleOps_append]
      have hopened : ∀ fd ∈ t.clients.keys, fd ∈ s.clients.keys ∨
          .acquire fd ∈ handleOps (Transition.systemCalls ⟨s, e, t⟩) := by
        intro fd hfd
        rcases List.mem_append.1 (heffect.descriptors.2 fd hfd) with hmem | hmem
        · exact Or.inl hmem
        · rcases heffect.closed with ⟨fds, hclosed, _⟩
          rw [systemCalls_eq hclosed]
          exact Or.inr (List.mem_append_left _ (List.mem_map_of_mem hmem))
      refine ⟨releasesAcquired_append (releases_of_step heffect) hrest hopened, ?_⟩
      intro fd hfd
      rcases hclients fd hfd with hmem | hmem
      · rcases hopened fd hmem with hmem | hmem
        · exact Or.inl hmem
        · exact Or.inr (List.mem_append_left _ hmem)
      · exact Or.inr (List.mem_append_right _ hmem)

end Steps

section Lifetimes

variable {port : Int} {r : StartResults} {ts : List (Transition ChatServer Event)} {s : ChatServer}

/-- Over its whole life, the server closes what it has opened only. -/
theorem releases_of_lifetime (hrun : Run Step .started ts s) :
    ReleasesAcquired [] (handleOps (lifetime port r ts s)) := by
  by_cases hsocket : r.socket.Succeed
  · rcases Option.isSome_iff_exists.1 hsocket.1 with ⟨serverFd, hfd⟩
    cases hcreate : r.epollCreate with
    | none =>
        rw [lifetime_noEpoll hsocket hfd hcreate]
        simp [ReleasesAcquired]
    | some epollFd =>
        cases hctl : r.epollCtl with
        | false =>
            rw [lifetime_noListener hsocket hfd hcreate hctl]
            simp [ReleasesAcquired]
        | true =>
            have hkeyed : s.Keyed := keyed_of_reachable ⟨ts, hrun⟩
            rcases releases_of_run (.refl _) hrun with ⟨hloop, hclients⟩
            rw [lifetime_loop hsocket hfd hcreate hctl hkeyed]
            have hopened : ReleasesAcquired []
                [HandleOp.acquire serverFd, HandleOp.acquire epollFd] := trivial
            refine releasesAcquired_append
              (releasesAcquired_append hopened hloop fun fd hnone => absurd hnone List.not_mem_nil)
              (releasesAcquired_release (List.Subset.refl _)) ?_
            intro fd hfd
            rcases List.mem_append.1 hfd with hfield | hclient
            · right
              apply List.mem_append_left
              simpa using hfield
            · rcases hclients fd hclient with hnone | hacquired
              · cases hnone
              · exact Or.inr (List.mem_append_right _ hacquired)
  · rcases lifetime_noSocket port ts s hsocket with hops | ⟨fd, hops⟩
    · rw [hops]
      trivial
    · rw [hops]
      simp [ReleasesAcquired]

/-- Whatever was open before the server stays what it is, at any time of the life of the
server: it never closes a descriptor that it has not opened, even where it closes one twice. -/
theorem server_leaves_descriptors {ρ : Type} {sock : ρ} {t : DescriptorTable ρ}
    {calls : List SystemCall} (hrun : Run Step .started ts s)
    (hcalls : calls <+: lifetime port r ts s)
    (hgranted : DescriptorTable.Granted sock t (handleOps calls)) {n : Fd} (hn : n ∈ t) :
    (t.after sock (handleOps calls)).lookup n = t.lookup n := by
  rcases hcalls with ⟨rest, hrest⟩
  have hreleases : ReleasesAcquired [] (handleOps (lifetime port r ts s)) :=
    releases_of_lifetime hrun
  rw [← hrest, handleOps_append] at hreleases
  exact DescriptorTable.lookup_after hgranted hreleases.of_append
    (fun _ hnone => absurd hnone List.not_mem_nil) (fun _ _ => rfl) hn

end Lifetimes

/-- A process with the three standard descriptors open. -/
def shell : Process where
  descriptors := ((AList.insert 0 (.inherited 0) ∅).insert 1 (.inherited 1)).insert 2 (.inherited 2)
  files := fun _ => []

/-- A client leaves, and the next one gets its descriptor. -/
def relay : List Event :=
  [.accept 5 true true, .disconnect 5, .accept 5 true true]

/-- The server leaves descriptor 2 as it got it. -/
theorem relay_leaves :
    (shell.descriptors.after .socket (handleOps (lifetime 8080 allSucceed
      (ChatServer.trace relay) (.after relay)))).lookup 2 = some (.inherited 2) := by
  have hgranted : DescriptorTable.Granted Resource.socket shell.descriptors
      (handleOps (lifetime 8080 allSucceed (ChatServer.trace relay) (.after relay))) := by
    decide +kernel
  have hmem : 2 ∈ shell.descriptors := by decide
  exact server_leaves_descriptors (run_trace relay) (List.prefix_refl _) hgranted hmem

/-! ## The standard descriptors of a daemon -/

section Daemons

variable {config : Config} {r : LaunchResults} {p : Process} {q : Running}

/-- Opening one more descriptor leaves all up to a number open, exactly if at most one of those
was closed. -/
theorem lt_lowestFree_opened_iff {ρ : Type} {x : ρ} {t : DescriptorTable ρ} {k : Nat} :
    k < (t.opened x).lowestFree ↔ ∃ m, ∀ n ≤ k, n ≠ m → n ∈ t := by
  have hopened (n : Nat) : n ∈ t.opened x ↔ n = t.lowestFree ∨ n ∈ t := AList.mem_insert t
  rw [DescriptorTable.lt_lowestFree_iff]
  constructor
  · intro h
    exact ⟨t.lowestFree, fun n hn hne => ((hopened n).1 (h n hn)).resolve_left hne⟩
  · rintro ⟨m, h⟩ n hn
    rw [hopened]
    by_cases hmem : n ∈ t
    · exact Or.inr hmem
    · -- the only closed one of them is the lowest
      have hclosed : ∀ n' ≤ k, n' ∉ t → n' = m := fun n' hn' => not_imp_comm.1 (h n' hn')
      refine Or.inl (DescriptorTable.lowestFree_eq_iff.2 ⟨hmem, fun n' hlt => ?_⟩).symm
      by_contra hnot
      have hm := hclosed n hn hmem
      have hm' := hclosed n' (hlt.le.trans hn) hnot
      omega

/-- A daemon that serves keeps every other descriptor it was started with, and has its log above
the standard ones if it is there at all.  All standard descriptors refer to
{lit}`/dev/null` exactly if at most one of them was closed at the start. -/
theorem daemon_descriptors (hdaemon : daemonEnabled config = true)
    (hprepare : prepare config r p = .ok q) :
    (∀ n, stderrFileno < n → q.process.descriptors.lookup n =
      if n = p.descriptors.lowestFree then some (.file (logFileName config))
      else p.descriptors.lookup n) ∧
    ((∀ n ≤ stderrFileno, q.process.descriptors.lookup n = some .devNull) ↔
      ∃ m, ∀ n ≤ stderrFileno, n ≠ m → n ∈ p.descriptors) := by
  let t := p.descriptors.opened (.file (logFileName config))
  have hlookup (n : Nat) : q.process.descriptors.lookup n =
      if n = t.lowestFree then none
      else if n ≤ stderrFileno then some .devNull else t.lookup n := by
    rw [prepare_descriptors hprepare, hdaemon, if_pos rfl, DescriptorTable.lookup_redirect]
    simp only [mem_standard_iff]
    rfl
  constructor
  · intro n hn
    rw [hlookup, if_neg (not_le.2 hn), ← DescriptorTable.lookup_opened]
    split <;> rename_i hfree
    · subst hfree
      exact (AList.lookup_eq_none.2 t.lowestFree_notMem).symm
    · rfl
  · rw [← lt_lowestFree_opened_iff (x := Resource.file (logFileName config))]
    constructor
    · intro h
      by_contra hle
      have hclosed := h t.lowestFree (not_lt.1 hle)
      rw [hlookup, if_pos rfl] at hclosed
      cases hclosed
    · intro hlt n hn
      have hne : n ≠ t.lowestFree := (hn.trans_lt hlt).ne
      rw [hlookup, if_neg hne, if_pos hn]

end Daemons

def daemonConfig : Config :=
  .ofSettings [(str "DAEMON", str "true")]

/-- Every call of the start-up succeeds. -/
def launched : LaunchResults where
  logOpens := fun _ => true
  stamp := str "2026-01-01 12:00:00.000"
  spill := 0
  daemon := ⟨.child, true, true, str "2026-01-01 12:00:00.000", 0⟩

/-- A daemon has its three standard descriptors on the null device. -/
theorem shell_daemon : ∃ q, prepare daemonConfig launched shell = .ok q ∧
    ∀ n ≤ stderrFileno, q.process.descriptors.lookup n = some .devNull := by
  have hprepared : ∃ q, prepare daemonConfig launched shell = .ok q :=
    exists_prepared rfl (by decide)
  rcases hprepared with ⟨q, hprepare⟩
  have hdaemon : daemonEnabled daemonConfig = true := by decide +kernel
  have hopen : ∀ n ≤ stderrFileno, n ≠ 3 → n ∈ shell.descriptors := by decide
  exact ⟨q, hprepare, (daemon_descriptors hdaemon hprepare).2.2 ⟨3, hopen⟩⟩

/-! ## Ends before the server -/

/-- A process that exits before it serves leaves the line of {lit}`Logger::init` in its log, once
although the process is forked.  The parent exits with 0 and adds nothing, and every other
exit is with 1 and behind an error in the log, whatever descriptors were open. -/
theorem launch_exits {config : Config} {r : LaunchResults} {p : Process} {e : Exited}
    (hprepare : prepare config r p = .error (.exited e)) :
    (r.daemon.fork = .parent ∧ e.code = 0 ∧
        e.files (logFileName config) = (initializedCall r.stamp r.spill).line) ∨
      ∃ text ∈ daemonizeErrors, e.code = 1 ∧
        e.files (logFileName config) = (initializedCall r.stamp r.spill).line ++
          LogCall.line ⟨.err, text, r.daemon.stamp, r.daemon.spill⟩ := by
  rcases prepare_eq_exited hprepare with ⟨q₀, hinit, hdaemon, hended⟩
  rw [initFor, hdaemon] at hinit
  rcases Running.init_settings hinit with ⟨hsettings, hbuffer⟩
  have hlevel : q₀.logger.level = .info := Running.level_of_settings hsettings
  have herr : q₀.logger.level ≤ .err := by
    rw [hlevel]
    decide
  have hfiles := Running.init_files hinit (Running.init_silentOn hinit)
  rw [← hfiles]
  exact daemonize_error (Running.logsTo_init hinit) (Running.init_silentOn hinit) hbuffer herr
    hended

theorem setsid_failure_exits :
    ∃ e, prepare daemonConfig { launched with daemon := ⟨.child, false, true, [], 0⟩ } shell =
        .error (.exited e) ∧ e.code = 1 := by
  have hdaemon : daemonEnabled daemonConfig = true := by decide +kernel
  have hexits : ∃ e, prepare daemonConfig
      { launched with daemon := ⟨.child, false, true, [], 0⟩ } shell = .error (.exited e) :=
    exists_exited rfl hdaemon (by decide)
  rcases hexits with ⟨e, hprepare⟩
  rcases launch_exits hprepare with ⟨hparent, _⟩ | ⟨_, _, hcode, _⟩
  · cases hparent
  · exact ⟨e, hprepare, hcode⟩

/-! ## The contents of the log -/

/-- The lines of the calls whose level is {lit}`info` or worse. -/
def infoLines (es : List ProcessEvent) : Str :=
  ((logCalls es).filter fun call => decide (Level.info ≤ call.level)).flatMap LogCall.line

section Logs

variable {config : Config} {r : LaunchResults} {p : Process} {q : Running}
variable {es us : List ProcessEvent} {name : Str}
variable {port : Int} {start : StartResults} {ts : List (Transition ChatServer Event)}
variable {s : ChatServer}

/-- The logger writes the lines of the calls at level info and above. -/
theorem loggedLines_eq (hprepare : prepare config r p = .ok q) (es : List ProcessEvent) :
    q.loggedLines es = infoLines es := by
  unfold Running.loggedLines infoLines Running.lines
  rw [Running.level_of_settings (prepare_settings hprepare).1]
  induction logCalls es with
  | nil => rfl
  | cons call calls ih =>
      rw [List.flatMap_cons, ih, List.filter_cons]
      split <;> rename_i h <;> simp [h]

theorem systemCalls_of_isPrefix (h : us <+: es) : systemCalls us <+: systemCalls es := by
  rcases h with ⟨rest, rfl⟩
  exact ⟨systemCalls rest, List.filterMap_append.symm⟩

/-! ### What the log refers to -/

section Serving

variable (hrun : Run Step .started ts s) (hcalls : systemCalls es <+: lifetime port start ts s)
variable (hgranted : DescriptorTable.Granted Resource.socket q.process.descriptors
  (handleOps (systemCalls es)))
include hrun hcalls hgranted

/-- The server does not change what the log refers to. -/
theorem logsTo_steps_iff (hus : us <+: es) : (q.steps us).LogsTo name ↔ q.LogsTo name := by
  have hfd : (q.steps us).logger.file.fd = q.logger.file.fd :=
    (Running.fd_of_settings (Running.steps_settings q us)).trans rfl
  have hcallsUs := systemCalls_of_isPrefix hus
  have hgrantedUs : DescriptorTable.Granted Resource.socket q.process.descriptors
      (handleOps (systemCalls us)) := by
    rcases hcallsUs with ⟨rest, hrest⟩
    rw [← hrest, handleOps_append] at hgranted
    exact hgranted.of_append
  rw [Running.LogsTo, Running.LogsTo, hfd, Running.steps_descriptors]
  constructor
  · intro h
    rcases DescriptorTable.lookup_after_cases h with hsocket | hbefore
    · cases hsocket
    · exact hbefore
  · intro h
    rw [server_leaves_descriptors hrun (hcallsUs.trans hcalls) hgrantedUs (AList.mem_of_lookup h)]
    exact h

end Serving

/-- A console that is not the file stays so. -/
theorem silentOn_steps (hsilent : q.SilentOn name) (us : List ProcessEvent) :
    (q.steps us).SilentOn name := by
  have hconsole : (q.steps us).logger.console = q.logger.console :=
    (Running.console_of_settings (Running.steps_settings q us)).trans rfl
  intro hprints hstdout
  rw [Running.steps_descriptors] at hstdout
  rcases DescriptorTable.lookup_after_cases hstdout with hsocket | hbefore
  · cases hsocket
  · exact hsilent (hconsole ▸ hprints) hbefore

/-! ### What the log holds -/

section Serving

variable (hrun : Run Step .started ts s) (hcalls : systemCalls es <+: lifetime port start ts s)
variable (hprepare : prepare config r p = .ok q)
variable (hgranted : DescriptorTable.Granted Resource.socket q.process.descriptors
  (handleOps (systemCalls es)))
variable (hstdout : daemonEnabled config = false →
  p.descriptors.lookup stdoutFileno ≠ some (.file (logFileName config)))
include hrun hcalls hprepare hgranted hstdout

/-- Whoever starts with descriptors 0 to 2 open keeps its log attached. -/
theorem attached_of_standard (hstandard : p.Standard) : q.Attached (logFileName config) es := by
  intro us hus
  have hlog := (prepare_logsTo_iff hprepare).2 (Or.inr hstandard)
  exact ⟨(logsTo_steps_iff hrun hcalls hgranted hus).2 hlog,
    silentOn_steps (prepare_silentOn hprepare (fun _ => hstandard) hstdout) us⟩

/-- Everything is in the log or waits for it. -/
theorem total_of_standard (hstandard : p.Standard) (hus : us <+: es) :
    (q.steps us).total (logFileName config) =
      (initializedCall r.stamp r.spill).line ++ infoLines us := by
  have hattached := attached_of_standard hrun hcalls hprepare hgranted hstdout hstandard
  rw [Running.steps_total fun vs hvs => hattached vs (hvs.trans hus), loggedLines_eq hprepare,
    Running.total, prepare_files hprepare (fun _ => hstandard) hstdout,
    (prepare_settings hprepare).2, List.append_nil]

/-- The log after an exit of a process that has started with descriptors 0 to 2 open. -/
theorem exit_files (hstandard : p.Standard) (code : Nat) :
    ((q.steps es).exit code).files (logFileName config) =
      (initializedCall r.stamp r.spill).line ++ infoLines es := by
  have hattached := attached_of_standard hrun hcalls hprepare hgranted hstdout hstandard
  have htotal := total_of_standard hrun hcalls hprepare hgranted hstdout hstandard
    (List.prefix_refl es)
  exact (Running.flush_files (hattached es (List.prefix_refl es)).1).trans htotal

/-- Take a process that was started with its standard descriptors open, of which standard output
is not the log file unless it is a daemon, and that now serves, whatever it has logged so far
and wherever the server is.  The log file holds the line of {lit}`Logger::init` and of what was
logged then an initial part, which goes to the last error at least.  If the process ends in
{lit}`main` or by {lit}`exit`, and not by a signal, it holds everything. -/
theorem log_contents (hstandard : p.Standard) :
    (q.steps es).process.files (logFileName config) <+:
        (initializedCall r.stamp r.spill).line ++ infoLines es ∧
      (∀ us call vs, es = us ++ .logged call :: vs → Level.err ≤ call.level → call.level ≠ .off →
        (initializedCall r.stamp r.spill).line ++ infoLines (us ++ [.logged call]) <+:
          (q.steps es).process.files (logFileName config)) ∧
      ∀ code, ((q.steps es).exit code).files (logFileName config) =
        (initializedCall r.stamp r.spill).line ++ infoLines es := by
  have htotal {us : List ProcessEvent} (hus : us <+: es) :=
    total_of_standard hrun hcalls hprepare hgranted hstdout hstandard hus
  refine ⟨?_, ?_, exit_files hrun hcalls hprepare hgranted hstdout hstandard⟩
  · rw [← htotal (List.prefix_refl es)]
    exact List.prefix_append _ _
  · rintro us call vs hsplit herr hoff
    have hsplit : es = (us ++ [.logged call]) ++ vs := by simp [hsplit]
    have hus : us ++ [.logged call] <+: es := ⟨vs, hsplit.symm⟩
    have hsettings := (Running.steps_settings q us).trans (prepare_settings hprepare).1
    have hlevel : (q.steps us).logger.level = .info := Running.level_of_settings hsettings
    have hflush : (q.steps us).logger.flushLevel = .err :=
      Running.flushLevel_of_settings hsettings
    have hempty : (q.steps (us ++ [.logged call])).logger.file.buffer = [] := by
      have hinfo : Level.info ≤ call.level := Nat.le_trans (by decide) herr
      rw [Running.steps_append]
      exact Running.log_buffer (hlevel ▸ hinfo) ⟨hflush ▸ herr, hoff⟩
    have hwritten := htotal hus
    rw [Running.total, hempty, List.append_nil] at hwritten
    have hrest : q.steps es = (q.steps (us ++ [.logged call])).steps vs :=
      (congrArg q.steps hsplit).trans Running.steps_append
    rw [← hwritten, hrest]
    exact Running.steps_extends _ vs _

end Serving

/-! ### Daemons that lose their log -/

section Lost

variable (hrun : Run Step .started ts s) (hcalls : systemCalls es <+: lifetime port start ts s)
variable (hprepare : prepare config r p = .ok q)
variable (hgranted : DescriptorTable.Granted Resource.socket q.process.descriptors
  (handleOps (systemCalls es)))
include hrun hcalls hprepare hgranted

/-- What a daemon has logged is in its log file when it ends by {lit}`exit` or in {lit}`main`,
exactly if it was started with its standard descriptors open.  Otherwise the file keeps the
line of {lit}`Logger::init` only. -/
theorem daemon_log_kept_iff (hdaemon : daemonEnabled config = true) (hlogged : infoLines es ≠ [])
    (code : Nat) :
    (((q.steps es).exit code).files (logFileName config) =
        (initializedCall r.stamp r.spill).line ++ infoLines es ↔ p.Standard) ∧
      (¬p.Standard → ((q.steps es).exit code).files (logFileName config) =
        (initializedCall r.stamp r.spill).line) := by
  have hstdout : daemonEnabled config = false →
      p.descriptors.lookup stdoutFileno ≠ some (.file (logFileName config)) := by simp [hdaemon]
  have hlost (hnot : ¬p.Standard) : ((q.steps es).exit code).files (logFileName config) =
      (initializedCall r.stamp r.spill).line := by
    have hforeground : daemonEnabled config = false → p.Standard := by simp [hdaemon]
    have hdetached : ¬q.LogsTo (logFileName config) := by
      rw [prepare_logsTo_iff hprepare, hdaemon]
      simpa using hnot
    have hsilent := prepare_silentOn hprepare hforeground hstdout
    have hunwritten : (q.steps es).process.files (logFileName config) =
        q.process.files (logFileName config) := by
      apply Running.steps_unwritten
      intro us hus
      have hstill := mt (logsTo_steps_iff hrun hcalls hgranted hus).1 hdetached
      exact ⟨hstill, silentOn_steps hsilent us⟩
    have hend : ¬(q.steps es).LogsTo (logFileName config) :=
      mt (logsTo_steps_iff hrun hcalls hgranted (List.prefix_refl es)).1 hdetached
    have hflushed : (q.steps es).flush.process.files (logFileName config) =
        (q.steps es).process.files (logFileName config) :=
      (Process.write_files _ _ _ _).trans (if_neg hend)
    exact hflushed.trans (hunwritten.trans (prepare_files hprepare hforeground hstdout))
  refine ⟨⟨fun hkept => ?_, fun hstandard => ?_⟩, hlost⟩
  · by_contra hnot
    rw [hlost hnot] at hkept
    exact hlogged (List.append_right_eq_self.1 hkept.symm)
  · exact exit_files hrun hcalls hprepare hgranted hstdout hstandard code

end Lost

end Logs

/-! ### A log that is kept and one that is lost -/

/-- The listening socket is set up, and a connection fails. -/
def firstEvents (serverFd epollFd : Fd) : List ProcessEvent :=
  let log (level : Level) (text : Str) : ProcessEvent := .logged ⟨level, text, launched.stamp, 0⟩
  [.called (.opened serverFd), .called (.bind serverFd 8080), .called (.opened epollFd),
    log .info (str "[SERVER] Waiting for connections..."), log .err (str "accept: "),
    log .info (str "Server stopped gracefully.")]

def startOn (serverFd epollFd : Fd) : StartResults where
  socket := ⟨some serverFd, true, true, true, true, true⟩
  epollCreate := some epollFd
  epollCtl := true

/-- The log of the shell is opened behind the standard descriptors. -/
theorem shell_descriptors {q : Running} (hprepare : prepare .new launched shell = .ok q) :
    q.process.descriptors = shell.descriptors.insert 3 (.file (logFileName .new)) := by
  have hfree : shell.descriptors.lowestFree = 3 :=
    DescriptorTable.lowestFree_eq_iff.2 ⟨by decide, by decide⟩
  have hforeground : daemonEnabled .new = false := by decide +kernel
  rw [prepare_descriptors hprepare, hforeground, if_neg (by decide), DescriptorTable.opened, hfree]

theorem shell_stdout :
    shell.descriptors.lookup stdoutFileno ≠ some (.file (logFileName .new)) := by decide +kernel

/-- Started from a shell, the server has its first lines in the log when it exits. -/
theorem shell_logs : ∃ q, prepare .new launched shell = .ok q ∧
    ((q.steps (firstEvents 4 5)).exit 0).files (logFileName .new) =
      (initializedCall launched.stamp launched.spill).line ++ infoLines (firstEvents 4 5) := by
  have hprepared : ∃ q, prepare .new launched shell = .ok q := exists_prepared rfl (by decide)
  rcases hprepared with ⟨q, hprepare⟩
  have hcalls : systemCalls (firstEvents 4 5) <+: lifetime 8080 (startOn 4 5) [] .started := by
    decide +kernel
  have hgranted : DescriptorTable.Granted Resource.socket q.process.descriptors
      (handleOps (systemCalls (firstEvents 4 5))) := by
    rw [shell_descriptors hprepare]
    decide +kernel
  have hstandard : shell.Standard := by decide
  exact ⟨q, hprepare, (log_contents (.nil _) hcalls hprepare hgranted (fun _ => shell_stdout)
    hstandard).2.2 0⟩

/-- The log gets the place of standard input. -/
def shellWithoutInput : Process :=
  { shell with descriptors := shell.descriptors.erase stdinFileno }

/-- A daemon started without standard input has the first line in its log, and no other. -/
theorem daemon_loses_log : ∃ q, prepare daemonConfig launched shellWithoutInput = .ok q ∧
    ((q.steps (firstEvents 3 4)).exit 0).files (logFileName daemonConfig) =
      (initializedCall launched.stamp launched.spill).line := by
  have hprepared : ∃ q, prepare daemonConfig launched shellWithoutInput = .ok q :=
    exists_prepared rfl (by decide)
  rcases hprepared with ⟨q, hprepare⟩
  have hdaemon : daemonEnabled daemonConfig = true := by decide +kernel
  have hcalls : systemCalls (firstEvents 3 4) <+: lifetime 8080 (startOn 3 4) [] .started := by
    decide +kernel
  have hfree : shellWithoutInput.descriptors.lowestFree = 0 :=
    DescriptorTable.lowestFree_eq_iff.2 ⟨by decide, by decide⟩
  have hnext : DescriptorTable.lowestFree
      (shellWithoutInput.descriptors.insert 0 (.file (logFileName daemonConfig))) = 3 :=
    DescriptorTable.lowestFree_eq_iff.2 ⟨by decide, by decide⟩
  have hgranted : DescriptorTable.Granted Resource.socket q.process.descriptors
      (handleOps (systemCalls (firstEvents 3 4))) := by
    rw [prepare_descriptors hprepare, hdaemon, if_pos rfl]
    simp only [DescriptorTable.redirect, DescriptorTable.opened, hfree, hnext]
    decide +kernel
  have hlogged : infoLines (firstEvents 3 4) ≠ [] := by decide +kernel
  have hclosed : ¬shellWithoutInput.Standard := by decide
  exact ⟨q, hprepare, (daemon_log_kept_iff (.nil _) hcalls hprepare hgranted hdaemon hlogged
    0).2 hclosed⟩

end EpollChat
