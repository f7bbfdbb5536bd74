import EpollChat.Library.Runs
import EpollChat.Server.EventLoop

/-!
# The server as a transition system

One step of the server is one accepted connection, one processed line, one write
event or one disconnect, in any order and for any clients.  Two more kinds of step
make the system cover everything the read loop and the hash tables do: the
framing code may rewrite the input buffer of a client, and a table may change its
iteration order.

Main results:

- Theorem {lit}`enabled_effect`: in a state whose clients are stored under their own
  descriptor no enabled step faults.
- Theorem {lit}`step_effect`: what each kind of step does, with its condition.
-/

namespace EpollChat

/-- What happens to the server from outside. -/
inductive Event
  /-- {lit}`accept` returns a descriptor that is not in use. -/
  | accept (fd : Fd) (nonblocking added : Bool)
  /-- {lit}`process_message` gets a line of a client. -/
  | line (client : Fd) (line : Str)
  /-- {lit}`handle_client_write` -/
  | write (client : Fd) (result : WriteResult)
  /-- {lit}`disconnect_client`, for whatever reason -/
  | disconnect (client : Fd)
  /-- The framing code of {lit}`handle_client_read` appends to or erases from
  {lit}`in_buffer`. -/
  | buffer (client : Fd) (inBuffer : Str)
  /-- The iteration order of the tables changes. -/
  | rehash (clients : ClientTable) (rooms : RoomTable)

/-- The client an event is about. -/
def Event.subject : Event → Option Fd
  | .accept fd _ _ => some fd
  | .line client _ => some client
  | .write client _ => some client
  | .disconnect client => some client
  | .buffer client _ => some client
  | .rehash _ _ => none

namespace ChatServer

/-- The events that can happen in a state. -/
def Enabled (s : ChatServer) : Event → Prop
  | .accept fd _ _ => fd ∉ s.clients
  | .line client _ => client ∈ s.clients
  | .write client _ => client ∈ s.clients
  | .disconnect client => client ∈ s.clients
  | .buffer client _ => client ∈ s.clients
  | .rehash clients rooms =>
      clients.entries.Perm s.clients.entries ∧ rooms.entries.Perm s.rooms.entries

instance (s : ChatServer) (e : Event) : Decidable (s.Enabled e) := by
  cases e <;> unfold Enabled <;> infer_instance

/-- What the server does at an event. -/
def apply (s : ChatServer) : Event → Except Fault ChatServer
  | .accept fd nonblocking added => .ok (s.acceptConnection fd nonblocking added)
  | .line client line => s.processMessage client line
  | .write client result => s.handleClientWrite client result
  | .disconnect client => s.disconnectClient client
  | .buffer client inBuffer =>
      .ok (s.updateClient client fun c => { c with inBuffer := inBuffer })
  | .rehash clients rooms => .ok { s with clients := clients, rooms := rooms }

/-- The next state, if the event can happen and does not fault. -/
def next (s : ChatServer) (e : Event) : Option ChatServer :=
  if s.Enabled e then
    match s.apply e with
    | .ok s' => some s'
    | .error _ => none
  else none

end ChatServer

/-- One step of the server. -/
def Step (s : ChatServer) (e : Event) (s' : ChatServer) : Prop :=
  s.next e = some s'

/-- The states some run from start-up ends in. -/
abbrev ReachableState (s : ChatServer) : Prop :=
  Reachable Step ChatServer.started s

/-- A step is an event that can happen, and what the server does at it. -/
theorem step_iff {s s' : ChatServer} {e : Event} :
    Step s e s' ↔ s.Enabled e ∧ s.apply e = .ok s' := by
  unfold Step ChatServer.next
  split <;> rename_i h
  · cases happly : s.apply e <;> simp [h]
  · simp [h]

/-- The state after a list of events. -/
def ChatServer.after (es : List Event) : ChatServer :=
  runEvents ChatServer.next .started es

/-- The transitions of a list of events. -/
def ChatServer.trace (es : List Event) : List (Transition ChatServer Event) :=
  transitions ChatServer.next .started es

/-- The events that are possible are a run. -/
theorem run_trace (es : List Event) : Run Step .started (ChatServer.trace es) (.after es) :=
  run_transitions ChatServer.next .started es

/-- A state after events is reachable. -/
theorem reachable_after (es : List Event) : ReachableState (.after es) :=
  ⟨_, run_trace es⟩

/-- A small run: one client founds a protected room, another one enters it. -/
def visit : List Event :=
  [.accept 5 true true, .accept 6 true true, .line 5 (str "ann"), .line 6 (str "bob"),
    .line 5 (str "/join den"), .line 5 (str "secret"), .line 6 (str "/join den"),
    .line 6 (str "secret")]

/-! ## What a step does -/

/-- Clients are stored under their own descriptor. -/
def ChatServer.Keyed (s : ChatServer) : Prop :=
  ∀ fd c, s.clients.lookup fd = some c → c.fd = fd

/-- Everything a step can do. -/
inductive StepEffect (s : ChatServer) : Event → ChatServer → Prop
  | accept (fd : Fd) (nonblocking added : Bool) (hfresh : fd ∉ s.clients) :
      StepEffect s (.accept fd nonblocking added) (s.acceptConnection fd nonblocking added)
  | line (client : Fd) (line : Str) (c : Session) (s' : ChatServer)
      (hc : s.clients.lookup client = some c)
      (heffect : LineEffect (s.noted client line) client (c.noteLine line) line s') :
      StepEffect s (.line client line) s'
  | wrote (client : Fd) (result : WriteResult) (c : Session)
      (hc : s.clients.lookup client = some c) (hok : (c.handleWrite result).1 = true) :
      StepEffect s (.write client result) (s.wrote client c result)
  | dropped (client : Fd) (result : WriteResult) (c : Session)
      (hc : s.clients.lookup client = some c) (hok : (c.handleWrite result).1 = false) :
      StepEffect s (.write client result)
        ((s.wrote client c result).disconnected client (c.handleWrite result).2)
  | disconnect (client : Fd) (c : Session) (hc : s.clients.lookup client = some c) :
      StepEffect s (.disconnect client) (s.disconnected client c)
  | buffer (client : Fd) (inBuffer : Str) (c : Session)
      (hc : s.clients.lookup client = some c) :
      StepEffect s (.buffer client inBuffer)
        (s.updateClient client fun c => { c with inBuffer := inBuffer })
  | rehash (clients : ClientTable) (rooms : RoomTable)
      (hclients : clients.entries.Perm s.clients.entries)
      (hrooms : rooms.entries.Perm s.rooms.entries) :
      StepEffect s (.rehash clients rooms) { s with clients := clients, rooms := rooms }

/-- An enabled event neither faults nor does anything that {lit}`StepEffect` does
not list. -/
theorem enabled_effect {s : ChatServer} (hkeyed : s.Keyed) {e : Event} (he : s.Enabled e) :
    ∃ s', s.apply e = .ok s' ∧ StepEffect s e s' := by
  cases e with
  | accept fd nonblocking added => exact ⟨_, rfl, .accept fd nonblocking added he⟩
  | line client line =>
      rcases AList.mem_iff_lookup.1 he with ⟨c, hc⟩
      rcases ChatServer.processMessage_effect hc line with ⟨s', hs', heffect⟩
      exact ⟨s', hs', .line client line c s' hc heffect⟩
  | write client result =>
      rcases AList.mem_iff_lookup.1 he with ⟨c, hc⟩
      refine ⟨_, ChatServer.handleClientWrite_eq hc (hkeyed client c hc) result, ?_⟩
      split <;> rename_i hok
      · exact .wrote client result c hc hok
      · exact .dropped client result c hc (by simpa using hok)
  | disconnect client =>
      rcases AList.mem_iff_lookup.1 he with ⟨c, hc⟩
      exact ⟨_, ChatServer.disconnectClient_eq hc (hkeyed client c hc), .disconnect client c hc⟩
  | buffer client inBuffer =>
      rcases AList.mem_iff_lookup.1 he with ⟨c, hc⟩
      exact ⟨_, rfl, .buffer client inBuffer c hc⟩
  | rehash clients rooms => exact ⟨_, rfl, .rehash clients rooms he.1 he.2⟩

/-- Every step has one of the listed effects. -/
theorem step_effect {s s' : ChatServer} (hkeyed : s.Keyed) {e : Event} (hstep : Step s e s') :
    StepEffect s e s' := by
  rcases step_iff.1 hstep with ⟨he, happly⟩
  rcases enabled_effect hkeyed he with ⟨t, ht, heffect⟩
  rw [ht] at happly
  cases happly
  exact heffect

end EpollChat
