import EpollChat.Properties.Frame

/-!
# The output of the clients of a server

The handlers reach the output side of a client through {lit}`queue_message` and
{lit}`handle_write` only, so what holds under every interleaving of these two calls
holds in every reachable state of the server.

Main results:

- Theorem {lit}`everyone_of_reachable`: what holds of a new connection and is kept by
  queueing and writing holds of every client in every reachable state.
- Theorem {lit}`outputIntact_of_reachable`: in every reachable state the output of
  every client is consistent.
-/

namespace EpollChat

open ChatServer

/-! ## Properties of the output side -/

/-- A property that new connections have, that queueing and writing keep, and to which fields
that are not output do not matter. -/
structure OutputRule (P : Session → Prop) : Prop where
  accepted : ∀ fd, P (.accepted fd)
  queueMessage : ∀ {c : Session} origin msg, P c → P (c.queueMessage origin msg)
  handleWrite : ∀ {c : Session} result, P c → P (c.handleWrite result).2
  congr : ∀ {c c' : Session}, P c → c'.outBuffer = c.outBuffer → c'.wantWrite = c.wantWrite →
    c'.interest = c.interest → c'.queued = c.queued → c'.written = c.written → P c'

/-- Every client has a property. -/
def ChatServer.Everyone (P : Session → Prop) (s : ChatServer) : Prop :=
  ∀ fd c, s.clients.lookup fd = some c → P c

/-- The output of every client is consistent. -/
def ChatServer.OutputIntact (s : ChatServer) : Prop :=
  ∀ fd c, s.clients.lookup fd = some c → c.OutputIntact

namespace OutputRule

variable {P : Session → Prop} {s s' : ChatServer} {client : Fd} {c c' : Session} {line : Str}
variable {e : Event}

/-- Any number of queued texts keeps the property. -/
theorem extended (hP : OutputRule P) (h : P c) (hextends : c.Extends c') : P c' := by
  rcases hextends with ⟨ds, rfl⟩
  induction ds generalizing c with
  | nil => exact h
  | cons d ds ih => exact ih (hP.queueMessage d.origin d.text h)

/-! ### Updates of the client table -/

/-- A bulk update that keeps the property of each client keeps it of all. -/
theorem of_map {g : Fd → Session → Session} (h : s.Everyone P)
    (hlookup : ∀ fd, s'.clients.lookup fd = (s.clients.lookup fd).map (g fd))
    (hg : ∀ fd c, P c → P (g fd c)) : s'.Everyone P := by
  intro fd c' hc'
  rw [hlookup] at hc'
  rcases Option.map_eq_some_iff.1 hc' with ⟨c, hc, rfl⟩
  exact hg fd c (h fd c hc)

/-- An assignment matters to its client only. -/
theorem updateClient (h : s.Everyone P) {f : Session → Session}
    (hf : ∀ c, s.clients.lookup client = some c → P (f c)) :
    (s.updateClient client f).Everyone P := by
  intro fd c' hc'
  rw [updateClient_lookup] at hc'
  split at hc' <;> rename_i hfd
  · subst hfd
    rcases Option.map_eq_some_iff.1 hc' with ⟨c, hc, rfl⟩
    exact hf c hc
  · exact h fd c' hc'

/-- Queueing a text keeps the property. -/
theorem told (hP : OutputRule P) (h : s.Everyone P) (msg : Str) :
    (s.queueMessage client msg).Everyone P :=
  updateClient h fun c hc => hP.queueMessage .direct msg (h client c hc)

/-- A broadcast keeps the property. -/
theorem broadcast (hP : OutputRule P) (h : s.Everyone P) (msg roomName : Str) :
    (s.broadcast msg roomName).Everyone P :=
  of_map h (broadcast_lookup msg roomName) fun _ c hc =>
    hP.extended hc (extends_broadcastTo msg roomName c)

/-- An answer keeps the property. -/
theorem answered (hP : OutputRule P) (h : s.Everyone P) {f : Session → Session}
    (hf : ∀ c, P c → P (f c)) (msg : Str) : (s.answered client f msg).Everyone P :=
  hP.told (updateClient h fun c hc => hf c (h client c hc)) msg

/-- A join keeps the property. -/
theorem joined (hP : OutputRule P) (h : s.Everyone P) (newRoom : Str) :
    (s.joined client c newRoom).Everyone P := by
  apply of_map h (joined_lookup newRoom)
  intro fd cl hcl
  have hleft : P (s.hearLeft c cl) := hP.extended hcl (extends_hearLeft s c cl)
  refine hP.extended ?_ (extends_broadcastTo _ _ _)
  split
  · exact hP.congr hleft rfl rfl rfl rfl rfl
  · exact hleft

/-- A disconnect keeps the property of those who stay. -/
theorem disconnected (hP : OutputRule P) (h : s.Everyone P) :
    (s.disconnected client c).Everyone P := by
  intro fd c' hc'
  rw [disconnected_lookup] at hc'
  split at hc'
  · cases hc'
  · rcases Option.map_eq_some_iff.1 hc' with ⟨cl, hcl, rfl⟩
    have hleft : P (s.hearLeft c cl) := hP.extended (h fd cl hcl) (extends_hearLeft s c cl)
    exact hP.extended hleft (extends_hearGone c _)

theorem acceptConnection (hP : OutputRule P) (h : s.Everyone P) (nonblocking added : Bool) :
    (s.acceptConnection client nonblocking added).Everyone P := by
  have hinsert : ChatServer.Everyone P
      { s with clients := s.clients.insert client (.accepted client) } := by
    intro fd c' hc'
    by_cases hfd : fd = client
    · subst hfd
      rw [AList.lookup_insert] at hc'
      cases hc'
      exact hP.accepted fd
    · rw [AList.lookup_insert_ne hfd] at hc'
      exact h fd c' hc'
  unfold ChatServer.acceptConnection
  split
  · exact h
  · split
    · intro fd c' hc'
      by_cases hfd : fd = client
      · subst hfd
        simp at hc'
      · rw [AList.lookup_erase_ne hfd] at hc'
        exact hinsert fd c' hc'
    · exact hP.told hinsert nicknamePrompt

/-! ### Steps -/

/-- Every effect of a line keeps the property. -/
theorem lineEffect (hP : OutputRule P) (h : LineEffect s client c line s') (hs : s.Everyone P) :
    s'.Everyone P := by
  have hreply : ∀ msg, (s.answered client id msg).Everyone P := fun msg =>
    hP.answered hs (fun _ hc => hc) msg
  have hresume : ∀ cl : Session, P cl → P cl.chat := fun _ hcl =>
    hP.congr hcl rfl rfl rfl rfl rfl
  have hprompt : ∀ state room (cl : Session), P cl → P (cl.prompt state room) :=
    fun _ _ _ hcl => hP.congr hcl rfl rfl rfl rfl rfl
  cases h with
  | named hstate =>
      have hnamed : (s.updateClient client fun c => c.setNickname line).Everyone P :=
        updateClient hs fun cl hcl => hP.congr (hs client cl hcl) rfl rfl rfl rfl rfl
      exact hP.answered (hP.joined hnamed lobby) (fun _ hcl => hcl) _
  | passwordSet hstate =>
      have hjoined : ((s.joined client c c.connectedRoom).updateRoom c.connectedRoom
          fun room => room.setPassword line).Everyone P := hP.joined hs c.connectedRoom
      exact hP.answered hjoined hresume _
  | admitted => exact hP.answered (hP.joined hs _) hresume _
  | walkedIn => exact hP.joined hs _
  | backToLobby => exact hP.joined hs lobby
  | said => exact hP.broadcast hs _ _
  | whispered => exact hP.told (hP.told hs _) _
  | ignored => exact hs
  | roomDeleted => exact hP.answered hs hresume _
  | refused => exact hP.answered hs hresume _
  | createPrompted => exact hP.answered hs (hprompt _ _) _
  | enterPrompted => exact hP.answered hs (hprompt _ _) _
  | notFound => exact hreply _
  | alreadyInRoom => exact hreply _
  | inLobby => exact hreply _
  | onlineListed => exact hreply _
  | roomsListed => exact hreply _

/-- Every effect of an event keeps the property. -/
theorem stepEffect (hP : OutputRule P) (h : StepEffect s e s') (hs : s.Everyone P) :
    s'.Everyone P := by
  have hwrote : ∀ {client c} result, s.clients.lookup client = some c →
      (s.wrote client c result).Everyone P := fun result hc =>
    updateClient hs fun _ _ => hP.handleWrite result (hs _ _ hc)
  cases h with
  | accept client nonblocking added hfresh => exact hP.acceptConnection hs nonblocking added
  | line client line c _ hc heffect =>
      refine hP.lineEffect heffect (updateClient hs fun cl hcl => ?_)
      exact hP.congr (hs client cl hcl) rfl rfl rfl rfl rfl
  | wrote client result c hc hok => exact hwrote result hc
  | dropped client result c hc hok => exact hP.disconnected (hwrote result hc)
  | disconnect client c hc => exact hP.disconnected hs
  | buffer client inBuffer c hc =>
      apply updateClient hs
      intro cl hcl
      exact hP.congr (hs client cl hcl) rfl rfl rfl rfl rfl
  | rehash clients rooms hclients hrooms =>
      intro fd c hc
      rw [AList.perm_lookup hclients] at hc
      exact hs fd c hc

end OutputRule

/-- What holds of a new connection and is kept by queueing and writing holds of every client in
every reachable state. -/
theorem everyone_of_reachable {P : Session → Prop} {s : ChatServer} (hP : OutputRule P)
    (hs : ReachableState s) : s.Everyone P := by
  refine (Reachable.invariant (I := fun s => ReachableState s ∧ s.Everyone P) ?_ ?_ hs).2
  · refine ⟨.refl _, fun fd c hc => ?_⟩
    cases hc
  · intro s e s' h hstep
    exact ⟨h.1.step hstep, hP.stepEffect (step_effect (keyed_of_reachable h.1) hstep) h.2⟩

/-! ## Instances -/

/-- Fields that are not output do not matter. -/
theorem Session.OutputIntact.congr {c c' : Session} (h : c.OutputIntact)
    (hbuffer : c'.outBuffer = c.outBuffer) (hwant : c'.wantWrite = c.wantWrite)
    (hinterest : c'.interest = c.interest) (hqueued : c'.queued = c.queued)
    (hwritten : c'.written = c.written) : c'.OutputIntact := by
  constructor
  · rw [hwritten, hbuffer, hqueued]
    exact h.stream
  · rw [hwant, hbuffer]
    exact h.armed
  · rw [hinterest, hwant]
    exact h.registered

/-- Consistency of the output is such a property. -/
theorem outputRule_intact : OutputRule Session.OutputIntact where
  accepted := Session.accepted_outputIntact
  queueMessage origin msg h := h.queueMessage origin msg
  handleWrite result h := h.handleWrite result
  congr := Session.OutputIntact.congr

/-- In every reachable state: what a client was written and what its buffer holds are
the texts queued to it, in order, and write interest is registered exactly while the
buffer is nonempty. -/
theorem outputIntact_of_reachable {s : ChatServer} (hs : ReachableState s) : s.OutputIntact :=
  everyone_of_reachable outputRule_intact hs

/-- Every interest mask that is registered for a client has {lit}`EPOLLIN`. -/
theorem outputRule_epollin : OutputRule fun c => c.interest.epollin = true where
  accepted _ := rfl
  queueMessage origin msg h := by
    rw [Session.queueMessage_eq]
    dsimp only
    split
    · rfl
    · exact h
  handleWrite result h := by
    rw [Session.handleWrite_eq]
    dsimp only
    split
    · rfl
    · exact h
  congr h _ _ hinterest _ _ := by
    rw [hinterest]
    exact h

end EpollChat
