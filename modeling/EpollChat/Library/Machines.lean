import Mathlib.Data.List.Forall2
import Mathlib.Tactic.Common
import EpollChat.Library.Runs

/-!
# Machines that report to observers

A machine takes one action after the other.  With each it may tell its observers
something, and it may drop an observer, which ends what that observer has been told.

Main results:

- Theorem {lit}`Machine.recorded_snd`: an observer that is not dropped has been told what
  the actions told it, in order.
- Theorem {lit}`Machine.recorded_purge`: actions that neither change the machine nor reach
  an observer can be left out without the observer being told anything else.
- Theorem {lit}`Machine.recorded_translate`: states and actions can be written differently
  without an observer being told anything else.
- Theorem {lit}`Machine.recorded_related`: related states tell every observer related things,
  whatever hidden actions are taken in between.
- Theorem {lit}`Run.recorded_eq`: a system whose every step does what some actions do is
  described by the machine over whole runs.
- Theorem {lit}`Run.told_eq`: the same for what one observer is told.
-/

namespace EpollChat

universe u v w x y z

/-- The next state, what an action tells an observer, and whether it drops it. -/
structure Machine (σ : Type u) (α : Type v) (κ : Type w) (β : Type x) where
  next : σ → α → σ
  tells : σ → α → κ → List β
  drops : α → κ → Bool

variable {σ : Type u} {α : Type v} {κ : Type w} {β : Type x}

namespace Machine

variable (M : Machine σ α κ β)

/-! ## Records -/

/-- One action, with the record of what every observer has been told. -/
def record (r : σ × (κ → List β)) (a : α) : σ × (κ → List β) :=
  (M.next r.1 a, fun k => if M.drops a k then [] else r.2 k ++ M.tells r.1 a k)

/-- Several actions, with the record. -/
def recorded (r : σ × (κ → List β)) (as : List α) : σ × (κ → List β) :=
  as.foldl M.record r

/-- What several actions tell one observer. -/
def told (k : κ) : σ → List α → List β
  | _, [] => []
  | s, a :: as => M.tells s a k ++ told k (M.next s a) as

variable {M} {r : σ × (κ → List β)} {s : σ} {a : α} {as bs : List α} {k : κ}

@[simp]
theorem recorded_nil : M.recorded r [] = r :=
  rfl

@[simp]
theorem recorded_cons : M.recorded r (a :: as) = M.recorded (M.record r a) as :=
  rfl

theorem recorded_append : M.recorded r (as ++ bs) = M.recorded (M.recorded r as) bs :=
  List.foldl_append

/-- The record does not matter to the state. -/
theorem recorded_fst : (M.recorded r as).1 = as.foldl M.next r.1 := by
  induction as generalizing r with
  | nil => rfl
  | cons a as ih => exact ih

/-- An observer that is not dropped has been told what the actions told it. -/
theorem recorded_snd (hkept : ∀ a ∈ as, M.drops a k = false) :
    (M.recorded r as).2 k = r.2 k ++ M.told k r.1 as := by
  induction as generalizing r with
  | nil => simp [told]
  | cons a as ih =>
      rw [recorded_cons, ih fun b hb => hkept b (List.mem_cons_of_mem _ hb)]
      simp [record, told, hkept a List.mem_cons_self]

theorem told_append : M.told k s (as ++ bs) = M.told k s as ++ M.told k (as.foldl M.next s) bs := by
  induction as generalizing s with
  | nil => rfl
  | cons a as ih => rw [List.cons_append, told, told, ih, List.append_assoc, List.foldl_cons]

/-- What every action keeps, of the state and of the records, holds after all of them. -/
theorem recorded_invariant {I : σ × (κ → List β) → Prop}
    (hstep : ∀ r a, a ∈ as → I r → I (M.record r a)) (hr : I r) : I (M.recorded r as) := by
  induction as generalizing r with
  | nil => exact hr
  | cons a as ih =>
      apply ih fun r b hb => hstep r b (List.mem_cons_of_mem _ hb)
      exact hstep r a List.mem_cons_self hr

/-! ## Actions an observer does not notice -/

/-- The actions without those that are hidden when they are taken. -/
def purge (M : Machine σ α κ β) (hidden : σ → α → Bool) : σ → List α → List α
  | _, [] => []
  | s, a :: as =>
      if hidden s a then M.purge hidden s as else a :: M.purge hidden (M.next s a) as

/-- An action that does not change the state and does not reach an observer. -/
structure Unnoticed (M : Machine σ α κ β) (k : κ) (s : σ) (a : α) : Prop where
  state : M.next s a = s
  untold : M.tells s a k = []
  kept : M.drops a k = false

/-- Leaving out unnoticed actions changes neither the state nor what the observer has been
told. -/
theorem recorded_purge {hidden : σ → α → Bool}
    (hhidden : ∀ s a, hidden s a = true → M.Unnoticed k s a) {r' : σ × (κ → List β)}
    (hstate : r'.1 = r.1) (htold : r'.2 k = r.2 k) :
    (M.recorded r' (M.purge hidden r.1 as)).1 = (M.recorded r as).1 ∧
      (M.recorded r' (M.purge hidden r.1 as)).2 k = (M.recorded r as).2 k := by
  induction as generalizing r r' with
  | nil => exact ⟨hstate, htold⟩
  | cons a as ih =>
      rw [purge]
      split <;> rename_i ha
      · have hunnoticed := hhidden _ _ ha
        have hkept : (M.record r a).1 = r.1 := hunnoticed.state
        have hrest := @ih (M.record r a) r' (hstate.trans hkept.symm)
          (by simp [record, hunnoticed.kept, hunnoticed.untold, htold])
        rwa [hkept] at hrest
      · exact @ih (M.record r a) (M.record r' a) (by rw [record, record, hstate])
          (by simp only [record, hstate, htold])

/-- Two lists of actions that are the same to an observer tell it the same. -/
theorem recorded_eq_of_purge_eq {hidden : σ → α → Bool}
    (hhidden : ∀ s a, hidden s a = true → M.Unnoticed k s a)
    (hsame : M.purge hidden r.1 as = M.purge hidden r.1 bs) :
    (M.recorded r as).1 = (M.recorded r bs).1 ∧ (M.recorded r as).2 k = (M.recorded r bs).2 k := by
  have has := @recorded_purge _ _ _ _ M r as k hidden hhidden r rfl rfl
  have hbs := @recorded_purge _ _ _ _ M r bs k hidden hhidden r rfl rfl
  rw [hsame] at has
  exact ⟨has.1.symm.trans hbs.1, has.2.symm.trans hbs.2⟩

/-! ## Actions written differently -/

/-- A way to write states and actions differently that the machine does not notice: it does the
same, and tells every observer the same. -/
structure Renaming (M : Machine σ α κ β) (view : σ → σ) (act : σ → α → α) : Prop where
  next : ∀ s a, M.next (view s) (act s a) = view (M.next s a)
  tells : ∀ s a, M.tells (view s) (act s a) = M.tells s a
  drops : ∀ s a, M.drops (act s a) = M.drops a

/-- Several actions, each written differently according to the state it is taken in. -/
def translate (M : Machine σ α κ β) (act : σ → α → α) : σ → List α → List α
  | _, [] => []
  | s, a :: as => act s a :: M.translate act (M.next s a) as

/-- Actions that are written differently leave all records the same. -/
theorem recorded_translate {view : σ → σ} {act : σ → α → α} (h : M.Renaming view act)
    {told : κ → List β} :
    M.recorded (view s, told) (M.translate act s as) =
      ((view (M.recorded (s, told) as).1), (M.recorded (s, told) as).2) := by
  induction as generalizing s told with
  | nil => rfl
  | cons a as ih =>
      have hfirst : M.record (view s, told) (act s a) =
          (view (M.next s a), (M.record (s, told) a).2) := by
        simp only [record, h.next, h.tells, h.drops]
      rw [translate, recorded_cons, hfirst]
      exact ih

/-! ## Related executions -/

/-- Every action satisfies a condition on the state in which it is taken. -/
def Throughout (M : Machine σ α κ β) (P : σ → α → Prop) : σ → List α → Prop
  | _, [] => True
  | s, a :: as => P s a ∧ M.Throughout P (M.next s a) as

instance decidableThroughout {P : σ → α → Prop} [∀ s a, Decidable (P s a)] :
    (s : σ) → (as : List α) → Decidable (M.Throughout P s as)
  | _, [] => inferInstanceAs (Decidable True)
  | s, a :: as =>
      have := decidableThroughout (P := P) (M.next s a) as
      inferInstanceAs (Decidable (P s a ∧ _))

/-- Related states stay related, whatever hidden actions are taken in one of them, and also
by an action that is taken in both.  It tells every observer related things, and a hidden
action tells nobody anything. -/
structure Relates (M : Machine σ α κ β) (hidden : α → Bool) (P : σ → α → Prop)
    (R : σ → σ → Prop) (T : β → β → Prop) : Prop where
  left : ∀ {s s' a}, hidden a = true → R s s' → R (M.next s a) s'
  right : ∀ {s s' a}, hidden a = true → R s s' → R s (M.next s' a)
  untold : ∀ {s a k}, hidden a = true → M.tells s a k = []
  kept : ∀ {a k}, hidden a = true → M.drops a k = false
  next : ∀ {s s' a}, hidden a = false → P s a → R s s' → R (M.next s a) (M.next s' a)
  tells : ∀ {s s' a k}, hidden a = false → P s a → R s s' →
    List.Forall₂ T (M.tells s a k) (M.tells s' a k)

section Related

variable {hidden : α → Bool} {P : σ → α → Prop} {R : σ → σ → Prop} {T : β → β → Prop}
variable {r' : σ × (κ → List β)}

/-- The states are related, and so is what every observer has been told. -/
def Related (R : σ → σ → Prop) (T : β → β → Prop) (r r' : σ × (κ → List β)) : Prop :=
  R r.1 r'.1 ∧ ∀ k, List.Forall₂ T (r.2 k) (r'.2 k)

/-- A hidden action leaves all records as they are. -/
theorem Relates.record_hidden (h : M.Relates hidden P R T) (ha : hidden a = true) (k : κ) :
    (M.record r a).2 k = r.2 k := by
  simp [record, h.kept ha, h.untold ha]

theorem Relates.record_left (h : M.Relates hidden P R T) (ha : hidden a = true)
    (hr : Related R T r r') : Related R T (M.record r a) r' := by
  refine ⟨h.left ha hr.1, fun k => ?_⟩
  rw [h.record_hidden ha]
  exact hr.2 k

theorem Relates.record_right (h : M.Relates hidden P R T) (ha : hidden a = true)
    (hr : Related R T r r') : Related R T r (M.record r' a) := by
  refine ⟨h.right ha hr.1, fun k => ?_⟩
  rw [h.record_hidden ha]
  exact hr.2 k

theorem Relates.recorded_right (h : M.Relates hidden P R T)
    (hhidden : ∀ a ∈ as, hidden a = true) (hr : Related R T r r') :
    Related R T r (M.recorded r' as) := by
  induction as generalizing r' with
  | nil => exact hr
  | cons a as ih =>
      rw [List.forall_mem_cons] at hhidden
      exact ih hhidden.2 (h.record_right hhidden.1 hr)

theorem Relates.record_both (h : M.Relates hidden P R T) (ha : hidden a = false)
    (hP : P r.1 a) (hr : Related R T r r') : Related R T (M.record r a) (M.record r' a) := by
  refine ⟨h.next ha hP hr.1, fun k => ?_⟩
  simp only [record]
  split
  · exact .nil
  · exact List.rel_append (hr.2 k) (h.tells ha hP hr.1)

/-- Two lists of actions that are the same apart from the hidden ones, taken in related
states, lead to related states and tell every observer related things. -/
theorem recorded_related (h : M.Relates hidden P R T) (hr : Related R T r r')
    (hP : M.Throughout P r.1 as)
    (hsame : (as.filter fun a => !hidden a) = bs.filter fun a => !hidden a) :
    Related R T (M.recorded r as) (M.recorded r' bs) := by
  induction as generalizing r r' bs with
  | nil =>
      apply h.recorded_right _ hr
      intro b hb
      have hnone := List.filter_eq_nil_iff.1 hsame.symm b hb
      simpa using hnone
  | cons a as ih =>
      cases ha : hidden a with
      | true =>
          rw [List.filter_cons_of_neg (by simp [ha])] at hsame
          exact ih (h.record_left ha hr) hP.2 hsame
      | false =>
          -- the other list gets to the same action after hidden ones
          rw [List.filter_cons_of_pos (by simp [ha])] at hsame
          rcases List.filter_eq_cons_iff.1 hsame.symm with ⟨pre, rest, rfl, hpre, _, hrest⟩
          have hhidden : ∀ b ∈ pre, hidden b = true := by simpa using hpre
          rw [recorded_append, recorded_cons, recorded_cons]
          exact ih (h.record_both ha hP.1 (h.recorded_right hhidden hr)) hP.2 hrest.symm

end Related

end Machine

/-! ## Systems that a machine describes -/

section Systems

variable {τ : Type y} {ε : Type z} {M : Machine σ α κ β}
variable {Step : τ → ε → τ → Prop} {t t' : τ} {ts : List (Transition τ ε)}

/-- If every transition changes a view of the system like the actions it stands for, a whole
run changes it like all these actions, one after the other. -/
theorem Run.recorded_eq (view : τ → σ × (κ → List β)) (actions : Transition τ ε → List α)
    (hrun : Run Step t ts t')
    (hview : ∀ u ∈ ts, view u.post = M.recorded (view u.pre) (actions u)) :
    view t' = M.recorded (view t) (ts.flatMap actions) := by
  induction hrun with
  | nil => rfl
  | cons hstep _ ih =>
      rw [List.flatMap_cons, Machine.recorded_append, ← hview _ List.mem_cons_self]
      exact ih fun u hu => hview u (List.mem_cons_of_mem _ hu)

/-- If every transition reports what the actions it stands for tell an observer, a whole run
does. -/
theorem Run.told_eq (view : τ → σ) (actions : Transition τ ε → List α)
    (reports : Transition τ ε → List β) (k : κ) (hrun : Run Step t ts t')
    (hnext : ∀ u ∈ ts, view u.post = (actions u).foldl M.next (view u.pre))
    (htold : ∀ u ∈ ts, reports u = M.told k (view u.pre) (actions u)) :
    ts.flatMap reports = M.told k (view t) (ts.flatMap actions) := by
  induction hrun with
  | nil => rfl
  | cons hstep _ ih =>
      rw [List.flatMap_cons, List.flatMap_cons, Machine.told_append, htold _ List.mem_cons_self,
        ← hnext _ List.mem_cons_self]
      congr 1
      exact ih (fun u hu => hnext u (List.mem_cons_of_mem _ hu))
        fun u hu => htold u (List.mem_cons_of_mem _ hu)

end Systems

end EpollChat
