import EpollChat.Properties.Accounting
import EpollChat.Server.Lifetime
import EpollChat.Server.Reading

/-!
# Ownership of descriptors

Every descriptor belongs to one field of the server: {lit}`server_fd_`,
{lit}`epoll_fd_`, or {lit}`fd` of a client in the table.  The destructors close what
these fields hold.  Where the code closes a descriptor itself and leaves it in its
field, the destructor closes it a second time.

Main results:

- Theorem {lit}`StepEffect.owned`: a step that disconnects nobody closes what it owns
  only, and the held descriptors stay those of the fields.
- Theorem {lit}`descriptor_ownership_iff`: a server object closes every descriptor
  exactly once exactly when it does not fail between the listening socket and the event
  loop and disconnects nobody.
-/

namespace EpollChat

open ChatServer

/-- The event disconnects a client: directly, or by a write that returns -1. -/
def Drops (s : ChatServer) : Event → Prop
  | .accept _ _ _ => False
  | .line _ _ => False
  | .write client result =>
      ∃ c ∈ s.clients.lookup client, c.outBuffer ≠ [] ∧ (result = .failed ∨ result = .wouldBlock)
  | .disconnect _ => True
  | .buffer _ _ => False
  | .rehash _ _ => False

instance (s : ChatServer) : (e : Event) → Decidable (Drops s e)
  | .accept _ _ _ => isFalse id
  | .line _ _ => isFalse id
  | .write client result =>
      inferInstanceAs (Decidable (∃ c ∈ s.clients.lookup client,
        c.outBuffer ≠ [] ∧ (result = .failed ∨ result = .wouldBlock)))
  | .disconnect _ => isTrue trivial
  | .buffer _ _ => isFalse id
  | .rehash _ _ => isFalse id

section Steps

variable {s s' : ChatServer} {e : Event} {fields : List Fd} {held : Finset Fd}

/-- A disconnect closes its descriptor twice. -/
theorem StepEffect.drops (h : StepEffect s e s') (hdrops : Drops s e) :
    ∃ fd, handleOps (Transition.systemCalls ⟨s, e, s'⟩) = [.release fd, .release fd] := by
  cases h with
  | wrote client result c hc hok =>
      rcases hdrops with ⟨c', hc', hrefused⟩
      rw [Option.mem_def, hc] at hc'
      cases hc'
      rw [Session.handleWrite_false_iff.2 hrefused] at hok
      cases hok
  | dropped client result c hc hok =>
      have hclosed :
          ((s.wrote client c result).disconnected client (c.handleWrite result).2).closed =
          s.closed ++ [client, client] := rfl
      exact ⟨client, systemCalls_eq hclosed⟩
  | disconnect client c hc =>
      have hclosed : (s.disconnected client c).closed = s.closed ++ [client, client] := rfl
      exact ⟨client, systemCalls_eq hclosed⟩
  | accept => cases hdrops
  | line => cases hdrops
  | buffer => cases hdrops
  | rehash => cases hdrops

/-- An accepted connection is closed, or becomes a client. -/
theorem acceptConnection_closed {fd : Fd} (hnew : fd ∉ s.clients) (nonblocking added : Bool) :
    ((s.acceptConnection fd nonblocking added).closed = s.closed ++ [fd] ∧
      (s.acceptConnection fd nonblocking added).clients.keys = s.clients.keys) ∨
    ((s.acceptConnection fd nonblocking added).closed = s.closed ++ [] ∧
      (s.acceptConnection fd nonblocking added).clients.keys = fd :: s.clients.keys) := by
  unfold acceptConnection
  split
  · exact Or.inl ⟨rfl, rfl⟩
  · split
    · left
      refine ⟨rfl, ?_⟩
      simp only [AList.erase_insert_of_notMem hnew]
    · right
      refine ⟨(List.append_nil _).symm, ?_⟩
      have hkeys := (holds_updateClient
        ({ s with clients := s.clients.insert fd (.accepted fd) } : ChatServer) fd
        fun c => c.queueMessage .direct nicknamePrompt).1
      refine hkeys.trans ?_
      rw [AList.keys, AList.entries_insert_of_notMem hnew]
      rfl

/-- A step that opens and closes nothing, and keeps the clients. -/
theorem owned_of_quiet (hheld : held.val = ↑(fields ++ s.clients.keys))
    (hclosed : s'.closed = s.closed) (hopened : e.opened = [])
    (hkeys : s'.clients.keys.Perm s.clients.keys) :
    ReleasesHeld held (handleOps (Transition.systemCalls ⟨s, e, s'⟩)) ∧
      (heldAfter held (handleOps (Transition.systemCalls ⟨s, e, s'⟩))).val =
        ↑(fields ++ s'.clients.keys) := by
  rw [systemCalls_eq (by rw [hclosed, List.append_nil] : s'.closed = s.closed ++ []), hopened]
  refine ⟨trivial, hheld.trans ?_⟩
  exact Multiset.coe_eq_coe.2 (hkeys.symm.append_left fields)

/-- A step that disconnects nobody closes what it owns only, and the held descriptors
stay those of the fields and of the clients. -/
theorem StepEffect.owned (h : StepEffect s e s') (hcalm : ¬Drops s e)
    (hheld : held.val = ↑(fields ++ s.clients.keys))
    (hfresh : Fresh held (handleOps (Transition.systemCalls ⟨s, e, s'⟩))) :
    ReleasesHeld held (handleOps (Transition.systemCalls ⟨s, e, s'⟩)) ∧
      (heldAfter held (handleOps (Transition.systemCalls ⟨s, e, s'⟩))).val =
        ↑(fields ++ s'.clients.keys) := by
  cases h with
  | accept fd nonblocking added hnew =>
      rcases acceptConnection_closed hnew nonblocking added with ⟨hclosed, hkeys⟩ | ⟨hclosed, hkeys⟩
      · rw [systemCalls_eq hclosed] at hfresh ⊢
        have hback : heldAfter held [.acquire fd, .release fd] = held :=
          Finset.erase_insert hfresh.1
        refine ⟨⟨trivial, Finset.mem_insert_self fd held, trivial⟩, ?_⟩
        rw [hkeys, ← hheld]
        exact congrArg Finset.val hback
      · rw [systemCalls_eq hclosed] at hfresh ⊢
        refine ⟨⟨trivial, trivial⟩, ?_⟩
        rw [hkeys]
        refine (Finset.insert_val_of_notMem hfresh.1).trans ?_
        rw [hheld, Multiset.cons_coe]
        exact Multiset.coe_eq_coe.2 List.perm_middle.symm
  | line client line c _ hc heffect =>
      have hholds := (holds_updateClient s client fun c => c.noteLine line).trans heffect.holds
      exact owned_of_quiet hheld hholds.2 rfl (by rw [hholds.1])
  | wrote client result c hc hok =>
      have hholds := holds_updateClient s client fun _ => (c.handleWrite result).2
      exact owned_of_quiet hheld hholds.2 rfl (by rw [← hholds.1]; rfl)
  | dropped client result c hc hok =>
      exact absurd ⟨c, hc, Session.handleWrite_false_iff.1 hok⟩ hcalm
  | disconnect => exact absurd trivial hcalm
  | buffer client inBuffer c hc =>
      have hholds := holds_updateClient s client fun c => { c with inBuffer := inBuffer }
      exact owned_of_quiet hheld hholds.2 rfl (by rw [hholds.1])
  | rehash clients rooms hclients hrooms =>
      exact owned_of_quiet hheld rfl rfl (hclients.map Sigma.fst)

end Steps

/-! ## Runs -/

section Runs

variable {s s' : ChatServer} {ts : List (Transition ChatServer Event)} {fields : List Fd}
variable {held : Finset Fd}

/-- A run that disconnects nobody closes what the server owns only. -/
theorem owned_of_run (hs : ReachableState s) (hrun : Run Step s ts s')
    (hcalm : ∀ t ∈ ts, ¬Drops t.pre t.event) (hheld : held.val = ↑(fields ++ s.clients.keys))
    (hfresh : Fresh held (handleOps (ts.flatMap Transition.systemCalls))) :
    ReleasesHeld held (handleOps (ts.flatMap Transition.systemCalls)) ∧
      (heldAfter held (handleOps (ts.flatMap Transition.systemCalls))).val =
        ↑(fields ++ s'.clients.keys) := by
  induction hrun generalizing held with
  | nil => exact ⟨trivial, hheld⟩
  | cons hstep _ ih =>
      rw [List.flatMap_cons, handleOps_append] at hfresh ⊢
      rw [fresh_append] at hfresh
      rw [releasesHeld_append, heldAfter_append]
      have heffect := step_effect (keyed_of_reachable hs) hstep
      rcases heffect.owned (hcalm _ List.mem_cons_self) hheld hfresh.1 with ⟨howned, hheld'⟩
      rcases ih (hs.step hstep) (fun t ht => hcalm t (List.mem_cons_of_mem _ ht)) hheld'
        hfresh.2 with
        ⟨howned', hheld''⟩
      exact ⟨⟨howned, howned'⟩, hheld''⟩

/-- A run that disconnects somebody closes a descriptor that it has just closed. -/
theorem not_owned_of_drops (hs : ReachableState s) (hrun : Run Step s ts s')
    {t : Transition ChatServer Event} (ht : t ∈ ts) (hdrops : Drops t.pre t.event)
    (before after : List (HandleOp Fd)) :
    ¬ReleasesHeld held (before ++ handleOps (ts.flatMap Transition.systemCalls) ++ after) := by
  have hstep := hrun.step_of_mem ht
  have hreachable := (hrun.reachable_of_mem hs ht).1
  rcases (step_effect (keyed_of_reachable hreachable) hstep).drops hdrops with ⟨fd, hfd⟩
  rcases List.append_of_mem ht with ⟨as, bs, rfl⟩
  rw [List.flatMap_append, List.flatMap_cons, handleOps_append, handleOps_append, hfd]
  simp only [List.append_assoc, List.cons_append, List.nil_append]
  rw [← List.append_assoc]
  exact not_released_twice _ _ fd

/-- The destructors close the descriptors of the fields and of the clients. -/
theorem handleOps_destroy (hkeyed : s.Keyed) (d : Descriptors) :
    handleOps (s.destroy d) =
      (d.serverFd.toList ++ d.epollFd.toList ++ s.clients.keys).map .release := by
  have hfds : s.clients.entries.map (fun e => e.2.fd) = s.clients.keys := by
    apply List.map_congr_left
    intro e he
    exact hkeyed e.1 e.2 (AList.lookup_of_mem_entries he)
  rw [ChatServer.destroy, hfds, handleOps_close]

end Runs

/-! ## Lifetimes -/

section Lifetimes

variable {port : Int} {r : StartResults} {ts : List (Transition ChatServer Event)} {s : ChatServer}
variable {serverFd epollFd : Fd}

/-- Without a listening socket, what was opened is closed and the destructors close
nothing. -/
theorem lifetime_noSocket (port : Int) (ts : List (Transition ChatServer Event)) (s : ChatServer)
    (hsocket : ¬r.socket.Succeed) :
    handleOps (lifetime port r ts s) = [] ∨
      ∃ fd, handleOps (lifetime port r ts s) = [.acquire fd, .release fd] := by
  have hdestroy : ChatServer.constructed.destroy ⟨none, none⟩ = [] := rfl
  cases hfd : r.socket.socket with
  | none =>
      left
      simp only [lifetime, startUp, createServerSocket_none port hfd, hdestroy]
      rfl
  | some fd =>
      right
      rcases createServerSocket_eq port r.socket hfd with ⟨hresult, hcalls⟩
      rw [if_neg hsocket] at hresult hcalls
      refine ⟨fd, ?_⟩
      simp only [lifetime, startUp, hresult, hdestroy, List.append_nil]
      exact hcalls

theorem created_eq (port : Int) (hsocket : r.socket.Succeed)
    (hfd : r.socket.socket = some serverFd) :
    (createServerSocket port r.socket).1 = some serverFd ∧
      handleOps (createServerSocket port r.socket).2 = [.acquire serverFd] := by
  rcases createServerSocket_eq port r.socket hfd with ⟨hresult, hcalls⟩
  rw [if_pos hsocket] at hresult hcalls
  exact ⟨hresult, hcalls⟩

/-- Without an epoll instance the listening socket is closed by {lit}`run` and by the
destructor. -/
theorem lifetime_noEpoll (hsocket : r.socket.Succeed) (hfd : r.socket.socket = some serverFd)
    (hcreate : r.epollCreate = none) :
    handleOps (lifetime port r ts s) =
      [.acquire serverFd, .release serverFd, .release serverFd] := by
  rcases created_eq port hsocket hfd with ⟨hresult, hcalls⟩
  simp only [lifetime, startUp, hresult, hcreate, handleOps_append, hcalls]
  rfl

/-- If the listening socket cannot be registered, both descriptors are closed twice. -/
theorem lifetime_noListener (hsocket : r.socket.Succeed) (hfd : r.socket.socket = some serverFd)
    (hcreate : r.epollCreate = some epollFd) (hctl : r.epollCtl = false) :
    handleOps (lifetime port r ts s) =
      [.acquire serverFd, .acquire epollFd, .release serverFd, .release epollFd,
        .release serverFd, .release epollFd] := by
  rcases created_eq port hsocket hfd with ⟨hresult, hcalls⟩
  simp only [lifetime, startUp, hresult, hcreate, hctl, Bool.not_false, if_true, handleOps_append,
    hcalls]
  rfl

/-- A lifetime with an event loop. -/
theorem lifetime_loop (hsocket : r.socket.Succeed) (hfd : r.socket.socket = some serverFd)
    (hcreate : r.epollCreate = some epollFd) (hctl : r.epollCtl = true) (hkeyed : s.Keyed) :
    handleOps (lifetime port r ts s) =
      [.acquire serverFd, .acquire epollFd] ++ handleOps (ts.flatMap Transition.systemCalls) ++
        ([serverFd, epollFd] ++ s.clients.keys).map .release := by
  rcases created_eq port hsocket hfd with ⟨hresult, hcalls⟩
  simp only [lifetime, startUp, hresult, hcreate, hctl, Bool.not_true, Bool.false_eq_true, if_false,
    handleOps_append, hcalls, handleOps_destroy hkeyed]
  rfl

/-- A lifetime that disconnects nobody closes every descriptor once. -/
theorem releasedOnce_of_calm (hrun : Run Step .started ts s)
    (hcalm : ∀ t ∈ ts, ¬Drops t.pre t.event)
    (hfresh : Fresh ∅ ([.acquire serverFd, .acquire epollFd] ++
      handleOps (ts.flatMap Transition.systemCalls) ++
      ([serverFd, epollFd] ++ s.clients.keys).map .release)) :
    ReleasedOnce ([.acquire serverFd, .acquire epollFd] ++
      handleOps (ts.flatMap Transition.systemCalls) ++
      ([serverFd, epollFd] ++ s.clients.keys).map .release) := by
  rw [releasedOnce_iff hfresh, heldAfter_append, heldAfter_append, releasesHeld_append,
    releasesHeld_append, heldAfter_append]
  rw [fresh_append, fresh_append] at hfresh
  rcases hfresh.1 with ⟨⟨hserver, hepoll, _⟩, hloop⟩
  have hheld : (heldAfter ∅ [.acquire serverFd, .acquire epollFd]).val =
      ↑([serverFd, epollFd] ++ ChatServer.started.clients.keys) := by
    have hinsert : (insert epollFd (insert serverFd ∅) : Finset Fd).val =
        epollFd ::ₘ (insert serverFd ∅ : Finset Fd).val := Finset.insert_val_of_notMem hepoll
    refine hinsert.trans (Multiset.coe_eq_coe.2 (List.Perm.swap serverFd epollFd []))
  rcases owned_of_run (.refl _) hrun hcalm hheld hloop with ⟨howned, hheld'⟩
  rcases release_all hheld' with ⟨howned', hempty⟩
  exact ⟨⟨⟨⟨trivial, trivial, trivial⟩, howned⟩, howned'⟩, hempty⟩

end Lifetimes

/-- For every outcome of the start of {lit}`run`, every run of the event loop and the
destruction after it, if the kernel only hands out descriptors that are not open: every
{lit}`close` is on a descriptor that is open and owned, and every descriptor is closed
as often as it is opened, if and only if the listening socket is not obtained, or the
epoll instance is, the socket is registered with it, and no event disconnects a
client. -/
theorem descriptor_ownership_iff {port : Int} {r : StartResults}
    {ts : List (Transition ChatServer Event)} {s : ChatServer} (hrun : Run Step .started ts s)
    (hfresh : Fresh ∅ (handleOps (lifetime port r ts s))) :
    ReleasedOnce (handleOps (lifetime port r ts s)) ↔
      ¬r.socket.Succeed ∨
        r.epollCreate.isSome ∧ r.epollCtl = true ∧ ∀ t ∈ ts, ¬Drops t.pre t.event := by
  by_cases hsocket : r.socket.Succeed
  · rcases Option.isSome_iff_exists.1 hsocket.1 with ⟨serverFd, hfd⟩
    rw [or_iff_right (not_not.mpr hsocket)]
    cases hcreate : r.epollCreate with
    | none =>
        refine iff_of_false ?_ (by simp)
        rw [lifetime_noEpoll hsocket hfd hcreate]
        exact fun hreleased => not_released_twice [.acquire serverFd] [] serverFd hreleased.1
    | some epollFd =>
        cases hctl : r.epollCtl with
        | false =>
            refine iff_of_false ?_ (by simp)
            rw [lifetime_noListener hsocket hfd hcreate hctl]
            rintro ⟨⟨_, _, _, _, hagain, _⟩, _⟩
            simp [HeldHandle, HandleOp.step] at hagain
        | true =>
            have hkeyed := keyed_of_reachable ⟨ts, hrun⟩
            rw [lifetime_loop hsocket hfd hcreate hctl hkeyed] at hfresh ⊢
            constructor
            · intro hreleased
              refine ⟨rfl, rfl, fun t ht hdrops => ?_⟩
              exact not_owned_of_drops (.refl _) hrun ht hdrops _ _ hreleased.1
            · intro hcalm
              exact releasedOnce_of_calm hrun hcalm.2.2 hfresh
  · refine iff_of_true ?_ (Or.inl hsocket)
    rcases lifetime_noSocket port ts s hsocket with hcalls | ⟨fd, hcalls⟩
    · rw [hcalls]
      exact ⟨trivial, fun fd => rfl⟩
    · rw [hcalls]
      refine ⟨⟨trivial, Finset.mem_insert_self fd ∅, trivial⟩, fun fd' => ?_⟩
      simp [List.count_cons]

/-- The listening socket is descriptor 3 and the epoll instance descriptor 4. -/
def allSucceed : StartResults where
  socket := ⟨some 3, true, true, true, true, true⟩
  epollCreate := some 4
  epollCtl := true

theorem visit_releasedOnce :
    ReleasedOnce
      (handleOps (lifetime 8080 allSucceed (ChatServer.trace visit) (.after visit))) := by
  have hfresh : Fresh ∅ (handleOps (lifetime 8080 allSucceed (ChatServer.trace visit)
      (.after visit))) := by decide +kernel
  have hcalm : ∀ t ∈ ChatServer.trace visit, ¬Drops t.pre t.event := by decide +kernel
  exact (descriptor_ownership_iff (run_trace visit) hfresh).2 (Or.inr ⟨rfl, rfl, hcalm⟩)

/-- A client that connects and disconnects. -/
def shortStay : List Event :=
  [.accept 5 true true, .disconnect 5]

/-- The descriptor of a client that disconnects is closed twice, the second time when it
is not open any more. -/
theorem disconnect_closes_twice :
    handleOps (lifetime 8080 allSucceed (ChatServer.trace shortStay) (.after shortStay)) =
      [.acquire 3, .acquire 4, .acquire 5, .release 5, .release 5, .release 3, .release 4] ∧
    Fresh ∅ (handleOps (lifetime 8080 allSucceed (ChatServer.trace shortStay)
      (.after shortStay))) ∧
    ¬ReleasedOnce (handleOps (lifetime 8080 allSucceed (ChatServer.trace shortStay)
      (.after shortStay))) := by
  have hcalls : handleOps (lifetime 8080 allSucceed (ChatServer.trace shortStay)
      (.after shortStay)) =
      [.acquire 3, .acquire 4, .acquire 5, .release 5, .release 5, .release 3, .release 4] := by
    decide +kernel
  rw [hcalls]
  refine ⟨rfl, by decide, fun hreleased => ?_⟩
  exact not_released_twice [.acquire 3, .acquire 4, .acquire 5] [.release 3, .release 4] 5
    hreleased.1

end EpollChat
