import EpollChat.Client.Client
import EpollChat.Library.Runs

/-!
# Write interest under failing {lit}`epoll_ctl` calls

{lit}`queue_message` and {lit}`handle_write` set {lit}`want_write` before the
{lit}`epoll_ctl(MOD)` call whose failure they only log.  Here every such call may fail,
which leaves the registered mask as it was.

Main results:

- Theorem {lit}`Session.RearmsOutput.modCall_iff`: which single calls strand output.
- Theorem {lit}`rearms_iff_no_strands`: output is never stranded in a run if and only if
  no call of it loses the registration that would have armed the interest.
-/

namespace EpollChat

/-- One call on the output side of a client, and whether the {lit}`epoll_ctl(MOD)` call it
may issue succeeds. -/
structure ModCall where
  call : OutputCall
  succeeds : Bool

/-- A failed {lit}`epoll_ctl` is only logged: the client has changed, the mask has not. -/
def Session.modCall (c : Session) (m : ModCall) : Session :=
  if m.succeeds then c.call m.call else { c.call m.call with interest := c.interest }

/-- The calls on the output side of an accepted client, one after the other. -/
def modTransitions (fd : Fd) (calls : List ModCall) : List (Transition Session ModCall) :=
  transitions (fun c m => some (c.modCall m)) (.accepted fd) calls

/-- The next {lit}`queue_message` call registers {lit}`EPOLLOUT` again if output is pending
without it, and {lit}`want_write` claims no interest the kernel does not have. -/
structure Session.RearmsOutput (c : Session) : Prop where
  rearms : c.outBuffer ≠ [] → c.interest.epollout = false →
    ∀ msg, (c.toClient.queueMessage msg).2 = some .readWrite
  honest : c.wantWrite = true → c.interest.epollout = true

/-- A text is queued to an empty buffer while {lit}`EPOLLOUT` is not registered, and the
{lit}`epoll_ctl` call fails. -/
def Session.Strands (c : Session) (m : ModCall) : Prop :=
  match m.call with
  | .queueMessage _ msg =>
      c.outBuffer = [] ∧ msg ≠ [] ∧ c.interest.epollout = false ∧ m.succeeds = false
  | .handleWrite _ => False

section Step

variable {c : Session}

/-- The flag does not depend on what becomes of {lit}`epoll_ctl`. -/
theorem Session.FlagFollowsBuffer.modCall (h : c.FlagFollowsBuffer) (m : ModCall) :
    (c.modCall m).FlagFollowsBuffer := by
  have hcall := h.call m.call
  unfold Session.modCall
  split
  · exact hcall
  · exact hcall

/-- While the flag follows the buffer, pending output is registered again exactly if the
flag tells the truth: {lit}`queue_message` does nothing while the flag is set. -/
theorem Session.FlagFollowsBuffer.rearmsOutput_iff (h : c.FlagFollowsBuffer) :
    c.RearmsOutput ↔ (c.wantWrite = true → c.interest.epollout = true) := by
  refine ⟨RearmsOutput.honest, fun honest => ⟨fun hpending hmask => ?_, honest⟩⟩
  have harmed := honest (h.2 hpending)
  rw [hmask] at harmed
  cases harmed

/-- A call keeps pending output armed unless it strands it. -/
theorem Session.RearmsOutput.modCall_iff (hflag : c.FlagFollowsBuffer) (h : c.RearmsOutput)
    (m : ModCall) : (c.modCall m).RearmsOutput ↔ ¬c.Strands m := by
  rw [(hflag.modCall m).rearmsOutput_iff]
  have honest := h.honest
  rcases m with ⟨call, succeeds⟩
  cases call with
  | queueMessage origin msg =>
      simp only [modCall, call, Strands, queueMessage_eq]
      cases hw : c.wantWrite with
      | true =>
          have hpending := hflag.1 hw
          have hmask := honest hw
          cases succeeds <;> simp [hpending, hmask]
      | false =>
          have hempty : c.outBuffer = [] := by simpa [FlagFollowsBuffer, hw] using hflag
          cases succeeds <;> cases msg <;> simp [hempty, Interest.readWrite]
  | handleWrite result =>
      simp only [modCall, call, Strands, handleWrite_eq]
      cases hw : c.wantWrite with
      | true =>
          have hmask := honest hw
          cases succeeds <;>
            cases c.outBuffer.drop (result.bytes c.outBuffer).length <;> simp [hmask]
      | false => cases succeeds <;> simp

end Step

/-- From a state whose flag follows the buffer on. -/
theorem rearms_transitions_iff {c : Session} (hflag : c.FlagFollowsBuffer) (h : c.RearmsOutput)
    (calls : List ModCall) :
    (∀ t ∈ transitions (fun c m => some (Session.modCall c m)) c calls, t.post.RearmsOutput) ↔
      ∀ t ∈ transitions (fun c m => some (Session.modCall c m)) c calls,
        ¬t.pre.Strands t.event := by
  induction calls generalizing c with
  | nil => simp [transitions]
  | cons m calls ih =>
      simp only [transitions, List.forall_mem_cons]
      have hstep := h.modCall_iff hflag m
      rw [hstep]
      refine and_congr_right fun hkept => ?_
      exact ih (hflag.modCall m) (hstep.2 hkept)

/-- For every client and every sequence of {lit}`queue_message` and {lit}`handle_write`
calls, whichever {lit}`epoll_ctl` calls fail: pending output is always registered again by
the next {lit}`queue_message`, and {lit}`want_write` is never ahead of the kernel, if and
only if no call in the sequence strands the output. -/
theorem rearms_iff_no_strands (fd : Fd) (calls : List ModCall) :
    (∀ t ∈ modTransitions fd calls, t.post.RearmsOutput) ↔
      ∀ t ∈ modTransitions fd calls, ¬t.pre.Strands t.event := by
  have haccepted := Session.accepted_outputIntact fd
  have hflag : (Session.accepted fd).FlagFollowsBuffer := haccepted.armed
  exact rearms_transitions_iff hflag (hflag.rearmsOutput_iff.2 haccepted.registered.2) calls

/-- After one failed {lit}`epoll_ctl` a text waits in the buffer, and no later text
registers the interest. -/
theorem failed_mod_strands :
    ∃ t ∈ modTransitions 5 [⟨.queueMessage .direct (str "hi"), false⟩],
      t.post.outBuffer = str "hi" ∧ t.post.interest.epollout = false ∧
        t.post.wantWrite = true ∧ (∀ msg, (t.post.toClient.queueMessage msg).2 = none) ∧
        ¬t.post.RearmsOutput := by
  refine ⟨_, List.mem_cons_self, rfl, rfl, rfl, fun msg => rfl, fun h => ?_⟩
  exact absurd (h.honest rfl) (by decide)

end EpollChat
