import Mathlib.Algebra.Order.Group.Multiset
import EpollChat.Properties.History
import EpollChat.Properties.Nicknames
import EpollChat.Properties.Recipients

/-!
# Presence

Who is in a room is a fact about the client table; who has joined and who has left is what
the members are told.  The two agree: over every run the names in a room change by the
announced ones and by nothing else, so that a member that keeps count of the announcements
knows the names {lit}`/online` would list, as often as it would list them.

Main results:

- Theorem {lit}`roster_balance`: what one change of the tables does to the names in a room.
- Theorem {lit}`presence_observable`: the announcements of a run are all there is to know
  about who is in a room.
-/

namespace EpollChat

open ChatServer

/-! ## Names in a room -/

namespace ChatServer

/-- The names that {lit}`/online` lists for a room. -/
def roster (s : ChatServer) (r : Str) : Multiset Str :=
  (s.onlineIn r).map s.nicknameAt

end ChatServer

/-- The name of who leaves. -/
def RoomEvent.leaver : RoomEvent → Option Str
  | .left nickname => some nickname
  | _ => none

/-- The name of who joins. -/
def RoomEvent.joiner : RoomEvent → Option Str
  | .joined nickname => some nickname
  | _ => none

/-- The names of those who leave. -/
def leavers (events : List RoomEvent) : Multiset Str :=
  events.filterMap RoomEvent.leaver

/-- The names of those who join. -/
def joiners (events : List RoomEvent) : Multiset Str :=
  events.filterMap RoomEvent.joiner

section Balance

variable {s s' : ChatServer} {e : Event} {r : Str} {fd : Fd}
variable {ts : List (Transition ChatServer Event)} {events more : List RoomEvent}

theorem leavers_append : leavers (events ++ more) = leavers events + leavers more := by
  rw [leavers, List.filterMap_append]
  rfl

theorem joiners_append : joiners (events ++ more) = joiners events + joiners more := by
  rw [joiners, List.filterMap_append]
  rfl

/-- Those who were there and are not there afterwards. -/
theorem leavers_departures : leavers (departures r ⟨s, e, s'⟩) =
    ((s.onlineIn r).filter fun fd => s'.roomOf fd ≠ some r).map s.nicknameAt := by
  have hnames := @AList.filterMap_ite_eq _ _ _ _ (fun cl : Session => cl.room == r)
    (fun fd => s'.roomOf fd ≠ some r) _ s.nicknameAt (fun cl => cl.nickname) s.clients
    fun _ _ => nicknameAt_eq
  rw [leavers, departures, List.filterMap_filterMap, onlineIn, ← hnames]
  congr 2
  funext entry
  simp only [beq_iff_eq]
  split <;> rfl

/-- Those who are there and were not there before. -/
theorem joiners_arrivals : joiners (arrivals r ⟨s, e, s'⟩) =
    ((s'.onlineIn r).filter fun fd => s.roomOf fd ≠ some r).map s'.nicknameAt := by
  have hnames := @AList.filterMap_ite_eq _ _ _ _ (fun cl : Session => cl.room == r)
    (fun fd => s.roomOf fd ≠ some r) _ s'.nicknameAt (fun cl => cl.nickname) s'.clients
    fun _ _ => nicknameAt_eq
  rw [joiners, arrivals, List.filterMap_filterMap, onlineIn, ← hnames]
  congr 2
  funext entry
  simp only [beq_iff_eq]
  split <;> rfl

/-- The names of some clients are those of the ones that satisfy a test and of the others. -/
theorem names_split (fds : List Fd) (q : Fd → Prop) [DecidablePred q] (f : Fd → Str) :
    (fds.map f : Multiset Str) =
      ((fds.filter fun fd => q fd).map f : Multiset Str) +
        ((fds.filter fun fd => ¬q fd).map f : Multiset Str) := by
  have hperm := (List.filter_append_perm (fun fd => decide (q fd)) fds).map f
  rw [List.map_append] at hperm
  rw [Multiset.coe_add, Multiset.coe_eq_coe]
  simpa using hperm.symm

/-- {lit}`/online` lists the clients whose room it is. -/
theorem mem_onlineIn_iff_roomOf : fd ∈ s.onlineIn r ↔ s.roomOf fd = some r := by
  rw [mem_onlineIn, roomOf, Option.map_eq_some_iff]

/-- Those who stay have the same names before and after. -/
theorem stayers_eq (hstay : ∀ fd c c', s.clients.lookup fd = some c →
      s'.clients.lookup fd = some c' → c.room = r → c'.room = r → c'.nickname = c.nickname) :
    (((s.onlineIn r).filter fun fd => s'.roomOf fd = some r).map s.nicknameAt : Multiset Str) =
      ((s'.onlineIn r).filter fun fd => s.roomOf fd = some r).map s'.nicknameAt := by
  have hsame : ((s.onlineIn r).filter fun fd => s'.roomOf fd = some r).Perm
      ((s'.onlineIn r).filter fun fd => s.roomOf fd = some r) := by
    have hnodup : ∀ t : ChatServer, (t.onlineIn r).Nodup := fun t => AList.nodup_keysWhere _ _
    rw [List.perm_ext_iff_of_nodup ((hnodup s).filter _) ((hnodup s').filter _)]
    intro fd
    simp only [List.mem_filter, mem_onlineIn_iff_roomOf, decide_eq_true_eq, and_comm]
  have hnames : ∀ fd ∈ (s.onlineIn r).filter fun fd => s'.roomOf fd = some r,
      s.nicknameAt fd = s'.nicknameAt fd := by
    intro fd hfd
    simp only [List.mem_filter, mem_onlineIn, decide_eq_true_eq, roomOf, Option.map_eq_some_iff]
      at hfd
    rcases hfd with ⟨⟨c, hc, hroom⟩, c', hc', hroom'⟩
    rw [nicknameAt_eq hc, nicknameAt_eq hc', hstay fd c c' hc hc' hroom hroom']
  rw [List.map_congr_left hnames, Multiset.coe_eq_coe]
  exact hsame.map _

/-- If nobody who stays in a room changes its name, then the names in the room change by those
of the ones who leave and join. -/
theorem roster_balance (hstay : ∀ fd c c', s.clients.lookup fd = some c →
      s'.clients.lookup fd = some c' → c.room = r → c'.room = r → c'.nickname = c.nickname) :
    s'.roster r + leavers (departures r ⟨s, e, s'⟩) =
      s.roster r + joiners (arrivals r ⟨s, e, s'⟩) := by
  have hbefore := names_split (s.onlineIn r) (fun fd => s'.roomOf fd = some r) s.nicknameAt
  have hafter := names_split (s'.onlineIn r) (fun fd => s.roomOf fd = some r) s'.nicknameAt
  rw [roster, roster, leavers_departures, joiners_arrivals, hbefore, hafter, stayers_eq hstay]
  exact add_right_comm _ _ _

end Balance

/-! ## Runs -/

section Runs

variable {s s' : ChatServer} {e : Event} {r : Str} {fd : Fd} {c c' : Session}
variable {ts : List (Transition ChatServer Event)}

/-- A client that stays in a room keeps its name. -/
theorem nickname_of_stayer (hs : ReachableState s) (hstep : Step s e s')
    (hc : s.clients.lookup fd = some c) (hc' : s'.clients.lookup fd = some c')
    (hroom : c.room ≠ []) : c'.nickname = c.nickname := by
  have hacc := accounted_of_reachable hs
  have hnaming : c.state = .stateNickname ↔ c.room = [] :=
    (hacc.placed fd c.place (hall_lookup_self hc)).naming
  have hprofile := (step_effect (keyed_of_accounted hacc) hstep).profileOf fd
  rw [profileOf_eq hc, profileOf_eq hc'] at hprofile
  generalize hp : c.profile = p at hprofile
  generalize hp' : c'.profile = p' at hprofile
  have hnickname : p'.nickname = p.nickname := by
    cases hprofile with
    | same => rfl
    | line line he p p' hline =>
        cases hline with
        | named hstate =>
            subst hp
            exact absurd (hnaming.1 hstate) hroom
        | settled room hstate hroom => rfl
        | prompted state room hchat hstate hparse => rfl
        | resumed hstate => rfl
        | kept hchat => rfl
  subst hp hp'
  exact hnickname

/-- Who says something neither leaves nor joins. -/
theorem not_leaver_of_spoken {t : Transition ChatServer Event} {ev : RoomEvent}
    (hev : ev ∈ spoken r t) : ev.leaver = none ∧ ev.joiner = none := by
  unfold spoken at hev
  split at hev
  · split at hev
    · split at hev
      · rw [List.mem_singleton.1 hev]
        exact ⟨rfl, rfl⟩
      · cases hev
    · cases hev
  · cases hev

/-- Who leaves does not join. -/
theorem not_joiner_of_departure {t : Transition ChatServer Event} {ev : RoomEvent}
    (hev : ev ∈ departures r t) : ev.joiner = none := by
  rcases List.mem_filterMap.1 hev with ⟨entry, _, hentry⟩
  split at hentry
  · cases hentry
    rfl
  · cases hentry

/-- Who joins does not leave. -/
theorem not_leaver_of_arrival {t : Transition ChatServer Event} {ev : RoomEvent}
    (hev : ev ∈ arrivals r t) : ev.leaver = none := by
  rcases List.mem_filterMap.1 hev with ⟨entry, _, hentry⟩
  split at hentry
  · cases hentry
    rfl
  · cases hentry

/-- Plain messages do not change who is there. -/
theorem leavers_roomEvents (t : Transition ChatServer Event) :
    leavers (roomEvents r t) = leavers (departures r t) ∧
      joiners (roomEvents r t) = joiners (arrivals r t) := by
  have hspoken : leavers (spoken r t) = 0 ∧ joiners (spoken r t) = 0 := by
    constructor
    · exact congrArg _ (List.filterMap_eq_nil_iff.2 fun _ hev => (not_leaver_of_spoken hev).1)
    · exact congrArg _ (List.filterMap_eq_nil_iff.2 fun _ hev => (not_leaver_of_spoken hev).2)
  have hdepartures : joiners (departures r t) = 0 :=
    congrArg _ (List.filterMap_eq_nil_iff.2 fun _ hev => not_joiner_of_departure hev)
  have harrivals : leavers (arrivals r t) = 0 :=
    congrArg _ (List.filterMap_eq_nil_iff.2 fun _ hev => not_leaver_of_arrival hev)
  rw [roomEvents, leavers_append, leavers_append, joiners_append, joiners_append, hspoken.1,
    hspoken.2, hdepartures, harrivals]
  simp

/-- Over a run the names in a room change by those of the ones who leave and join. -/
theorem run_roster (hs : ReachableState s) (hrun : Run Step s ts s') (hr : r ≠ []) :
    s'.roster r + leavers (ts.flatMap (roomEvents r)) =
      s.roster r + joiners (ts.flatMap (roomEvents r)) := by
  induction hrun with
  | nil => rfl
  | @cons s t s' e ts hstep _ ih =>
      have hfirst := @roster_balance s t e r fun fd c c' hc hc' hroom _ =>
        nickname_of_stayer hs hstep hc hc' (hroom ▸ hr)
      have hmore := ih (hs.step hstep)
      rw [List.flatMap_cons, leavers_append, joiners_append, (leavers_roomEvents _).1,
        (leavers_roomEvents _).2]
      generalize leavers (departures r ⟨s, e, t⟩) = gone at hfirst ⊢
      generalize joiners (arrivals r ⟨s, e, t⟩) = come at hfirst ⊢
      generalize leavers (ts.flatMap (roomEvents r)) = leaving at hmore ⊢
      generalize joiners (ts.flatMap (roomEvents r)) = coming at hmore ⊢
      calc s'.roster r + (gone + leaving) = s'.roster r + leaving + gone := by
            rw [add_comm gone, add_assoc]
        _ = t.roster r + gone + coming := by rw [hmore, add_right_comm]
        _ = s.roster r + (come + coming) := by rw [hfirst, add_assoc]

/-- For every segment of a run and every client that chats in a room before and after each of its
steps: what {lit}`broadcast` queues to it for the room are the messages of the events of the room,
and the names that {lit}`/online` lists for the room after the segment, together with those of
the events in which somebody leaves, are the names before it together with those of the events in
which somebody joins. -/
theorem presence_observable (hs : ReachableState s) (hrun : Run Step s ts s') (hr : r ≠ [])
    {b : Fd} (hb : ∀ t ∈ ts, t.pre.ChatsIn r b ∧ t.post.ChatsIn r b) :
    let events := ts.flatMap (roomEvents r)
    s'.heardBy r b = s.heardBy r b ++ events.map (RoomEvent.message r) ∧
      s'.roster r + leavers events = s.roster r + joiners events := by
  have hsteps : ∀ t ∈ ts, HearsEvents t.pre t.event t.post r b := by
    intro t ht
    have hacc := accounted_of_reachable (hrun.reachable_of_mem hs ht).1
    exact (step_effect (keyed_of_accounted hacc) (hrun.step_of_mem ht)).heard hacc (hb t ht).1
      (hb t ht).2
  refine ⟨?_, run_roster hs hrun hr⟩
  rw [List.map_flatMap]
  exact hrun.log_eq (fun s => s.heardBy r b) _ fun t ht => (hsteps t ht).heard

/-- With the guest's departure the roster loses the guest. -/
theorem farewell_presence :
    (ChatServer.after visit).roster (str "den") = {str "ann", str "bob"} ∧
      (runEvents ChatServer.next (.after visit) farewell).roster (str "den") + {str "bob"} =
        (ChatServer.after visit).roster (str "den") := by
  have hmember : ∀ t ∈ transitions ChatServer.next (.after visit) farewell,
      t.pre.ChatsIn (str "den") 5 ∧ t.post.ChatsIn (str "den") 5 := by decide +kernel
  have hevents : (transitions ChatServer.next (.after visit) farewell).flatMap
      (roomEvents (str "den")) =
        [.said (str "ann") (str "hello"), .left (str "bob")] := by decide +kernel
  have hbalance := (presence_observable (reachable_after visit)
    (run_transitions ChatServer.next (.after visit) farewell) (by decide) hmember).2
  rw [hevents] at hbalance
  exact ⟨by decide +kernel, hbalance⟩

end Runs

end EpollChat
