import Mathlib.Tactic.Common

/-!
# Postconditions of fallible computations

A computation either returns a value or fails with an error.  {lit}`Ensures`
states what holds of the value and what is known about the error, and has one
rule for each way computations are put together.

Main results:

- Theorem {lit}`exists_of_bind_ok`: what a successful sequence is made of.
- Theorem {lit}`Ensures.bind`: the rule for sequencing.
- Theorem {lit}`Ensures.foldlM`: the rule for loops, with an invariant.
- Theorem {lit}`foldlM_eq_error_iff`: a loop fails in the first round that fails.
- Theorem {lit}`foldlM_rest`: the rule for loops whose invariant speaks of the rounds to come.
- Theorem {lit}`foldlM_map_eq`: a loop whose rounds only use the state to store what they
  computed computes everything first.
-/

namespace EpollChat

universe u v w

variable {ε : Type u} {α : Type v} {β : Type v}

/-- A sequence of two computations succeeds only if both do. -/
theorem exists_of_bind_ok {x : Except ε α} {f : α → Except ε β} {b : β}
    (h : x >>= f = .ok b) : ∃ a, x = .ok a ∧ f a = .ok b := by
  cases x with
  | ok a => exact ⟨a, rfl, h⟩
  | error e => cases h

theorem exists_of_map_ok {x : Except ε α} {g : α → β} {b : β} (h : x.map g = .ok b) :
    ∃ a, x = .ok a ∧ g a = b := by
  cases x with
  | ok a => exact ⟨a, rfl, Except.ok.inj h⟩
  | error e => cases h

/-- The value satisfies one predicate, or the error another. -/
def Ensures (P : α → Prop) (E : ε → Prop) : Except ε α → Prop
  | .ok a => P a
  | .error e => E e

namespace Ensures

variable {P : α → Prop} {Q : β → Prop} {E : ε → Prop} {x : Except ε α} {f : α → Except ε β}

/-- What holds of every result holds of this one. -/
theorem of_ok {a : α} (h : Ensures P E x) (hx : x = .ok a) : P a := by
  subst hx
  exact h

/-- What holds of every error holds of this one. -/
theorem of_error {e : ε} (h : Ensures P E x) (hx : x = .error e) : E e := by
  subst hx
  exact h

/-- A weaker property is ensured, too. -/
theorem mono {P' : α → Prop} (h : Ensures P E x) (hP : ∀ a, P a → P' a) : Ensures P' E x := by
  cases x with
  | ok a => exact hP a h
  | error e => exact h

/-- Sequencing. -/
theorem bind (hx : Ensures P E x) (hf : ∀ a, P a → Ensures Q E (f a)) :
    Ensures Q E (x.bind f) := by
  cases x with
  | ok a => exact hf a hx
  | error e => exact hx

/-- A function of the result, after the fact. -/
theorem map {g : α → β} (hx : Ensures P E x) (hg : ∀ a, P a → Q (g a)) :
    Ensures Q E (x.map g) := by
  cases x with
  | ok a => exact hg a hx
  | error e => exact hx

/-- A loop over a list keeps an invariant that every round keeps. -/
theorem foldlM {ι : Type w} {body : α → ι → Except ε α} {l : List ι} {a : α}
    (hbody : ∀ a i, i ∈ l → P a → Ensures P E (body a i)) (ha : P a) :
    Ensures P E (l.foldlM body a) := by
  induction l generalizing a with
  | nil => exact ha
  | cons i l ih =>
      rw [List.foldlM_cons]
      apply bind (hbody a i List.mem_cons_self ha)
      intro a' ha'
      exact ih (fun a j hj => hbody a j (List.mem_cons_of_mem _ hj)) ha'

end Ensures

/-! ## Rounds of a loop -/

section Rounds

variable {ι : Type w} {body : α → ι → Except ε α} {l before after : List ι} {a b : α} {e : ε}

/-- A fold over two lists is a fold over one and then over the other. -/
theorem foldlM_append_ok_iff :
    (before ++ after).foldlM body a = .ok b ↔
      ∃ t, before.foldlM body a = .ok t ∧ after.foldlM body t = .ok b := by
  rw [List.foldlM_append]
  cases before.foldlM body a with
  | ok t => simp [bind, Except.bind]
  | error e => simp [bind, Except.bind]

/-- A loop fails in the first round that fails, after the rounds before it. -/
theorem foldlM_eq_error_iff :
    l.foldlM body a = .error e ↔
      ∃ before i after t, l = before ++ i :: after ∧ before.foldlM body a = .ok t ∧
        body t i = .error e := by
  constructor
  · intro h
    induction l generalizing a with
    | nil => cases h
    | cons i l ih =>
        rw [List.foldlM_cons] at h
        cases hfirst : body a i with
        | error e' =>
            rw [hfirst] at h
            cases h
            exact ⟨[], i, l, a, rfl, rfl, hfirst⟩
        | ok a' =>
            rw [hfirst] at h
            rcases ih h with ⟨before, j, after, t, rfl, hbefore, hlast⟩
            refine ⟨i :: before, j, after, t, rfl, ?_, hlast⟩
            rw [List.foldlM_cons, hfirst]
            exact hbefore
  · rintro ⟨before, i, after, t, rfl, hbefore, hlast⟩
    rw [List.foldlM_append, hbefore]
    simp only [bind, Except.bind, List.foldlM_cons, hlast]

/-- A loop whose rounds succeed by their input only, as long as an invariant holds. -/
theorem exists_foldlM_ok_iff {P : α → Prop} {Q : ι → Prop}
    (hround : ∀ a i, P a → ((∃ b, body a i = .ok b) ↔ Q i))
    (hkeep : ∀ a i b, P a → body a i = .ok b → P b) (ha : P a) :
    (∃ b, l.foldlM body a = .ok b) ↔ ∀ i ∈ l, Q i := by
  induction l generalizing a with
  | nil => exact iff_of_true ⟨a, rfl⟩ (by simp)
  | cons i l ih =>
      rw [List.forall_mem_cons, ← hround a i ha, List.foldlM_cons]
      constructor
      · rintro ⟨b, hb⟩
        rcases exists_of_bind_ok hb with ⟨t, hfirst, hrest⟩
        exact ⟨⟨t, hfirst⟩, (ih (hkeep a i t ha hfirst)).1 ⟨b, hrest⟩⟩
      · rintro ⟨⟨t, hfirst⟩, hrest⟩
        rw [hfirst]
        exact (ih (hkeep a i t ha hfirst)).2 hrest

/-- An invariant that speaks of the rounds to come holds of those that are left. -/
theorem foldlM_rest {I : List ι → α → Prop}
    (hround : ∀ i l a b, I (i :: l) a → body a i = .ok b → I l b)
    (hok : before.foldlM body a = .ok b) (ha : I (before ++ after) a) : I after b := by
  induction before generalizing a with
  | nil =>
      cases hok
      exact ha
  | cons i before ih =>
      rw [List.foldlM_cons] at hok
      rcases exists_of_bind_ok hok with ⟨t, hfirst, hrest⟩
      exact ih hrest (hround i _ a t ha hfirst)

end Rounds

/-! ## Loops that compute and store -/

section Store

variable {ι : Type w} {κ : Type v} {f : ι → Except ε κ}

/-- A loop that stores what each round computes, and computes it from its own input only. -/
theorem foldlM_map_eq (g : α → κ → α) (l : List ι) (a : α) :
    l.foldlM (fun a i => (f i).map (g a)) a = (l.mapM f).map (fun ks => ks.foldl g a) := by
  induction l generalizing a with
  | nil => rfl
  | cons i l ih =>
      rw [List.foldlM_cons, List.mapM_cons]
      cases f i with
      | error e => rfl
      | ok k =>
          change l.foldlM _ (g a k) = _
          rw [ih]
          cases l.mapM f <;> rfl

/-- Where every call returns, so does the list of calls. -/
theorem mapM_eq_ok {h : ι → κ} {l : List ι} (hf : ∀ i ∈ l, f i = .ok (h i)) :
    l.mapM f = .ok (l.map h) := by
  induction l with
  | nil => rfl
  | cons i l ih =>
      rw [List.mapM_cons, hf i List.mem_cons_self, ih fun j hj => hf j (List.mem_cons_of_mem _ hj)]
      rfl

/-- Every result comes from a call. -/
theorem mem_of_mapM_ok {l : List ι} {ks : List κ} (h : l.mapM f = .ok ks) {k : κ} (hk : k ∈ ks) :
    ∃ i ∈ l, f i = .ok k := by
  induction l generalizing ks with
  | nil =>
      cases h
      cases hk
  | cons i l ih =>
      rw [List.mapM_cons] at h
      rcases exists_of_bind_ok h with ⟨k₀, hk₀, hrest⟩
      rcases exists_of_bind_ok hrest with ⟨ks', hks', hcons⟩
      cases hcons
      rcases List.mem_cons.1 hk with rfl | hmem
      · exact ⟨i, List.mem_cons_self, hk₀⟩
      · rcases ih hks' hmem with ⟨j, hj, hfj⟩
        exact ⟨j, List.mem_cons_of_mem _ hj, hfj⟩

end Store

end EpollChat
