import Mathlib.Tactic.Common

/-!
# Runs of labelled transition systems

A system is a relation {lit}`Step s e s'` between a state, an event and a next
state.  A run records every transition it takes, so that properties of single
transitions, of intermediate states and of whole histories can all be stated
about the same object.

Main results:

- Theorem {lit}`Run.invariant`: a property that every step preserves holds in
  the last state of a run.
- Theorem {lit}`Run.forall_transitions`: a property of every step from a
  reachable state holds of every transition of a run.
- Theorem {lit}`Run.log_eq`: a log that every step extends by what it emits has
  grown by exactly the emitted entries.
- Theorem {lit}`Run.held_since`: what holds at the end of a run has held since some
  transition brought it about.
- Theorem {lit}`Run.simulate`: a system whose every step is a run of a finer
  system reaches only states of the finer one.
-/

namespace EpollChat

universe u v w

variable {σ : Type u} {ε : Type v}

/-- One transition: the state before, the event, the state after. -/
structure Transition (σ : Type u) (ε : Type v) where
  pre : σ
  event : ε
  post : σ

/-- A finite run, with the list of its transitions in order. -/
inductive Run (Step : σ → ε → σ → Prop) : σ → List (Transition σ ε) → σ → Prop
  | nil (s : σ) : Run Step s [] s
  | cons {s s' s'' : σ} {e : ε} {ts : List (Transition σ ε)}
      (hstep : Step s e s') (hrun : Run Step s' ts s'') :
      Run Step s (⟨s, e, s'⟩ :: ts) s''

/-- The states some run from {lit}`init` ends in. -/
def Reachable (Step : σ → ε → σ → Prop) (init s : σ) : Prop :=
  ∃ ts, Run Step init ts s

namespace Run

variable {Step : σ → ε → σ → Prop} {s s' s'' init : σ} {ts us : List (Transition σ ε)}

/-! ## Composition -/

theorem single {e : ε} (hstep : Step s e s') : Run Step s [⟨s, e, s'⟩] s' :=
  cons hstep (nil s')

theorem append (hfirst : Run Step s ts s') (hsecond : Run Step s' us s'') :
    Run Step s (ts ++ us) s'' := by
  induction hfirst with
  | nil => exact hsecond
  | cons hstep _ ih => exact cons hstep (ih hsecond)

/-- If an event determines its step, the events of a run determine its end. -/
theorem eq_of_events (hrun : Run Step s ts s')
    (hfun : ∀ s e t t', Step s e t → Step s e t' → t = t')
    (hrun' : Run Step s us s'') (hevents : ts.map Transition.event = us.map Transition.event) :
    s' = s'' := by
  induction hrun generalizing us with
  | nil =>
      rw [List.map_nil, eq_comm, List.map_eq_nil_iff] at hevents
      subst hevents
      cases hrun'
      rfl
  | cons hstep _ ih =>
      cases hrun' with
      | nil => cases hevents
      | cons hstep' hrest =>
          rw [List.map_cons, List.map_cons, List.cons_eq_cons] at hevents
          rcases hevents with ⟨rfl, hevents⟩
          cases hfun _ _ _ _ hstep hstep'
          exact ih hrest hevents

/-- A run with restricted steps is a run. -/
theorem mono {Step' : σ → ε → σ → Prop} (h : ∀ s e s', Step s e s' → Step' s e s')
    (hrun : Run Step s ts s') : Run Step' s ts s' := by
  induction hrun with
  | nil => exact nil _
  | cons hstep _ ih => exact cons (h _ _ _ hstep) ih

/-- A run whose transitions satisfy a condition is a run of the restricted system. -/
theorem restrict {Q : Transition σ ε → Prop} (hrun : Run Step s ts s') (hQ : ∀ t ∈ ts, Q t) :
    Run (fun s e s' => Q ⟨s, e, s'⟩ ∧ Step s e s') s ts s' := by
  induction hrun with
  | nil => exact nil _
  | cons hstep _ ih =>
      refine cons ⟨hQ _ List.mem_cons_self, hstep⟩ (ih ?_)
      exact fun t ht => hQ t (List.mem_cons_of_mem _ ht)

/-- A run over a concatenation passes through a middle state. -/
theorem split (hrun : Run Step s (ts ++ us) s'') :
    ∃ s', Run Step s ts s' ∧ Run Step s' us s'' := by
  induction ts generalizing s with
  | nil => exact ⟨s, nil s, hrun⟩
  | cons t ts ih =>
      cases hrun with
      | cons hstep hrest =>
          rcases ih hrest with ⟨middle, hleft, hright⟩
          exact ⟨middle, cons hstep hleft, hright⟩

theorem step_of_mem (hrun : Run Step s ts s') {t : Transition σ ε} (ht : t ∈ ts) :
    Step t.pre t.event t.post := by
  induction hrun with
  | nil => simp at ht
  | cons hstep _ ih =>
      rcases List.mem_cons.mp ht with rfl | ht
      · exact hstep
      · exact ih ht

/-! ## Invariants -/

/-- What every step preserves holds in the last state. -/
theorem invariant {I : σ → Prop} (hpres : ∀ s e s', I s → Step s e s' → I s')
    (hrun : Run Step s ts s') (hs : I s) : I s' := by
  induction hrun with
  | nil => exact hs
  | cons hstep _ ih => exact ih (hpres _ _ _ hs hstep)

end Run

namespace Reachable

variable {Step : σ → ε → σ → Prop} {init s s' : σ} {ts : List (Transition σ ε)}

theorem refl (init : σ) : Reachable Step init init :=
  ⟨[], .nil init⟩

theorem run (hs : Reachable Step init s) (hrun : Run Step s ts s') :
    Reachable Step init s' := by
  rcases hs with ⟨us, hus⟩
  exact ⟨us ++ ts, hus.append hrun⟩

theorem step {e : ε} (hs : Reachable Step init s) (hstep : Step s e s') :
    Reachable Step init s' :=
  hs.run (.single hstep)

/-- An inductive invariant holds in every reachable state. -/
theorem invariant {I : σ → Prop} (hinit : I init)
    (hpres : ∀ s e s', I s → Step s e s' → I s') (hs : Reachable Step init s) : I s := by
  rcases hs with ⟨ts, hrun⟩
  exact hrun.invariant hpres hinit

end Reachable

namespace Run

variable {Step : σ → ε → σ → Prop} {s s' init : σ} {ts : List (Transition σ ε)}

/-- Both ends of every transition of a run are reachable. -/
theorem reachable_of_mem (hinit : Reachable Step init s) (hrun : Run Step s ts s')
    {t : Transition σ ε} (ht : t ∈ ts) :
    Reachable Step init t.pre ∧ Reachable Step init t.post := by
  induction hrun with
  | nil => simp at ht
  | cons hstep _ ih =>
      rcases List.mem_cons.mp ht with rfl | ht
      · exact ⟨hinit, hinit.step hstep⟩
      · exact ih (hinit.step hstep) ht

/-- What every step from a reachable state does, every transition of a run does. -/
theorem forall_transitions {P : Transition σ ε → Prop}
    (hP : ∀ s e s', Reachable Step init s → Step s e s' → P ⟨s, e, s'⟩)
    (hinit : Reachable Step init s) (hrun : Run Step s ts s') : ∀ t ∈ ts, P t := by
  intro t ht
  exact hP _ _ _ (hrun.reachable_of_mem hinit ht).1 (hrun.step_of_mem ht)

/-! ## Histories -/

/-- A log that every transition extends by what it emits has grown by exactly
the emitted entries, in order. -/
theorem log_eq {γ : Type w} (log : σ → List γ) (emit : Transition σ ε → List γ)
    (hrun : Run Step s ts s') (hlog : ∀ t ∈ ts, log t.post = log t.pre ++ emit t) :
    log s' = log s ++ ts.flatMap emit := by
  induction hrun with
  | nil => simp
  | cons hstep _ ih =>
      rw [ih fun t ht => hlog t (List.mem_cons_of_mem _ ht), hlog _ List.mem_cons_self,
        List.flatMap_cons, List.append_assoc]

/-- What holds at the end of a run has held all the time, or since the last transition that
brought it about. -/
theorem held_since {holds : σ → Prop} {brings : Transition σ ε → Prop} (hrun : Run Step s ts s')
    (hstep : ∀ t ∈ ts, holds t.post → holds t.pre ∨ brings t) (hend : holds s') :
    (holds s ∧ ∀ u ∈ ts, holds u.post) ∨
      ∃ us t vs, ts = us ++ t :: vs ∧ brings t ∧ ∀ u ∈ t :: vs, holds u.post := by
  induction hrun with
  | nil => exact Or.inl ⟨hend, fun _ hu => absurd hu List.not_mem_nil⟩
  | @cons s t s' e ts hfirst _ ih =>
      rw [List.forall_mem_cons] at hstep
      rcases ih hstep.2 hend with ⟨hmiddle, hall⟩ | ⟨us, u, vs, rfl, hbrings, hall⟩
      · have hsince : ∀ u ∈ (⟨s, e, t⟩ : Transition σ ε) :: ts, holds u.post :=
          List.forall_mem_cons.2 ⟨hmiddle, hall⟩
        rcases hstep.1 hmiddle with hpre | hbrings
        · exact Or.inl ⟨hpre, hsince⟩
        · exact Or.inr ⟨[], _, ts, rfl, hbrings, hsince⟩
      · exact Or.inr ⟨_ :: us, u, vs, rfl, hbrings, hall⟩

/-! ## Simulation -/

/-- If every step of one system from a reachable state of a second is a run of
the second, every run of the first is one of the second. -/
theorem simulate {δ : Type w} {Coarse : σ → δ → σ → Prop}
    (hsim : ∀ s d s', Reachable Step init s → Coarse s d s' → ∃ us, Run Step s us s')
    {cs : List (Transition σ δ)} (hinit : Reachable Step init s)
    (hrun : Run Coarse s cs s') : Reachable Step init s' := by
  induction hrun with
  | nil => exact hinit
  | cons hstep _ ih =>
      rcases hsim _ _ _ hinit hstep with ⟨us, hus⟩
      exact ih (hinit.run hus)

/-- If every transition of a run is, seen from another system, a run of that system, so is the
whole run. -/
theorem project {τ : Type v} {δ : Type w} {View : τ → δ → τ → Prop} (view : σ → τ)
    (steps : Transition σ ε → List (Transition τ δ)) (hrun : Run Step s ts s')
    (hview : ∀ t ∈ ts, Run View (view t.pre) (steps t) (view t.post)) :
    Run View (view s) (ts.flatMap steps) (view s') := by
  induction hrun with
  | nil => exact nil _
  | cons hstep _ ih =>
      rw [List.flatMap_cons]
      have hfirst := hview _ List.mem_cons_self
      exact hfirst.append (ih fun t ht => hview t (List.mem_cons_of_mem _ ht))

end Run

/-! ## Executable runs -/

section Execute

variable (next : σ → ε → Option σ)

/-- The last state of a list of events, where an impossible event is skipped. -/
def runEvents (s : σ) (es : List ε) : σ :=
  es.foldl (fun s e => (next s e).getD s) s

/-- The transitions of a list of events, where an impossible event is skipped. -/
def transitions : σ → List ε → List (Transition σ ε)
  | _, [] => []
  | s, e :: es =>
      match next s e with
      | none => transitions s es
      | some s' => ⟨s, e, s'⟩ :: transitions s' es

/-- Executing events is a run. -/
theorem run_transitions (s : σ) (es : List ε) :
    Run (fun s e s' => next s e = some s') s (transitions next s es) (runEvents next s es) := by
  induction es generalizing s with
  | nil => exact .nil s
  | cons e es ih =>
      cases hnext : next s e with
      | none => simpa [transitions, runEvents, hnext] using ih s
      | some s' => simpa [transitions, runEvents, hnext] using Run.cons hnext (ih s')

/-- The transitions are of events of the list. -/
theorem event_of_mem_transitions {s : σ} {es : List ε} {t : Transition σ ε}
    (ht : t ∈ transitions next s es) : t.event ∈ es := by
  induction es generalizing s with
  | nil => cases ht
  | cons e es ih =>
      cases hnext : next s e with
      | none =>
          rw [transitions, hnext] at ht
          exact List.mem_cons_of_mem _ (ih ht)
      | some s' =>
          rw [transitions, hnext] at ht
          rcases List.mem_cons.1 ht with rfl | hrest
          · exact List.mem_cons_self
          · exact List.mem_cons_of_mem _ (ih hrest)

end Execute

end EpollChat
