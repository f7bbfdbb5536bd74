import Mathlib.Data.List.AList
import Mathlib.Tactic.Common

/-!
# Assignments to keys

A table that is filled by a list of assignments holds, for every key, the value of the
last assignment to it.

Main results:

- Theorem {lit}`lookup_assignAll`: the table after some assignments.
- Theorem {lit}`forall_lastValue_iff`: a property holds of all entries exactly when every
  assignment that breaks it is followed by one to the same key that does not.
-/

namespace EpollChat

universe u v

variable {α : Type u} {β : Type v} [DecidableEq α]

/-- Carry out assignments, one after the other. -/
def assignAll (m : AList fun _ : α => β) (kvs : List (α × β)) : AList fun _ : α => β :=
  kvs.foldl (fun m kv => m.insert kv.1 kv.2) m

/-- The value of the last assignment to a key. -/
def lastValue (a : α) : List (α × β) → Option β
  | [] => none
  | kv :: kvs => (lastValue a kvs).or (if kv.1 = a then some kv.2 else none)

section LastValue

variable {a : α} {b : β} {kvs : List (α × β)}

theorem lastValue_cons (a : α) (kv : α × β) (kvs : List (α × β)) :
    lastValue a (kv :: kvs) = (lastValue a kvs).or (if kv.1 = a then some kv.2 else none) :=
  rfl

/-- Later assignments come first. -/
theorem lastValue_append (a : α) (xs ys : List (α × β)) :
    lastValue a (xs ++ ys) = (lastValue a ys).or (lastValue a xs) := by
  induction xs with
  | nil => simp [lastValue]
  | cons kv xs ih => rw [List.cons_append, lastValue_cons, ih, lastValue_cons, Option.or_assoc]

theorem lastValue_eq_none_iff : lastValue a kvs = none ↔ ∀ kv ∈ kvs, kv.1 ≠ a := by
  induction kvs with
  | nil => simp [lastValue]
  | cons kv kvs ih =>
      rw [lastValue_cons, Option.or_eq_none_iff, ih, List.forall_mem_cons, and_comm]
      simp

/-- The last value comes from an assignment that no later one overwrites. -/
theorem exists_of_lastValue (h : lastValue a kvs = some b) :
    ∃ before after, kvs = before ++ (a, b) :: after ∧ ∀ kv ∈ after, kv.1 ≠ a := by
  induction kvs with
  | nil => cases h
  | cons kv kvs ih =>
      cases hlater : lastValue a kvs with
      | some b' =>
          rw [lastValue_cons, hlater, Option.some_or] at h
          rcases ih (hlater.trans h) with ⟨before, after, rfl, hafter⟩
          exact ⟨kv :: before, after, rfl, hafter⟩
      | none =>
          rw [lastValue_cons, hlater, Option.none_or, Option.ite_none_right_eq_some,
            Option.some.injEq] at h
          rcases h with ⟨rfl, rfl⟩
          exact ⟨[], kvs, rfl, lastValue_eq_none_iff.1 hlater⟩

theorem mem_of_lastValue (h : lastValue a kvs = some b) : (a, b) ∈ kvs := by
  rcases exists_of_lastValue h with ⟨before, after, rfl, _⟩
  simp

/-- A property holds of all last values exactly when every assignment that breaks it is
followed by one to the same key that does not. -/
theorem forall_lastValue_iff {P : α → β → Prop} :
    (∀ a b, lastValue a kvs = some b → P a b) ↔
      ∀ before a b after, kvs = before ++ (a, b) :: after → ¬P a b →
        ∃ b', P a b' ∧ (a, b') ∈ after := by
  constructor
  · rintro h before a b after rfl hbreak
    have hlast : lastValue a (before ++ (a, b) :: after) = (lastValue a after).or (some b) := by
      rw [lastValue_append, lastValue_cons, if_pos rfl, Option.or_assoc, Option.some_or]
    cases hafter : lastValue a after with
    | none =>
        rw [hafter, Option.none_or] at hlast
        exact absurd (h a b hlast) hbreak
    | some b' =>
        rw [hafter, Option.some_or] at hlast
        exact ⟨b', h a b' hlast, mem_of_lastValue hafter⟩
  · intro h a b hlast
    rcases exists_of_lastValue hlast with ⟨before, after, rfl, hafter⟩
    by_contra hbreak
    rcases h before a b after rfl hbreak with ⟨b', _, hmem⟩
    exact hafter _ hmem rfl

/-- Where the last value is kept, the dropped ones do not matter. -/
theorem lastValue_filter {p : β → Bool} (h : ∀ b, lastValue a kvs = some b → p b = true) :
    lastValue a (kvs.filter fun kv => p kv.2) = lastValue a kvs := by
  induction kvs with
  | nil => rfl
  | cons kv kvs ih =>
      have htail : lastValue a (kvs.filter fun kv => p kv.2) = lastValue a kvs :=
        ih fun b hb => h b (by rw [lastValue_cons, hb, Option.some_or])
      by_cases hkept : p kv.2 = true
      · rw [List.filter_cons, if_pos hkept, lastValue_cons, htail, lastValue_cons]
      · rw [List.filter_cons, if_neg hkept, htail, lastValue_cons]
        cases hlast : lastValue a kvs with
        | some b => rfl
        | none =>
            have hother : kv.1 ≠ a := by
              rintro rfl
              exact hkept (h kv.2 (by rw [lastValue_cons, hlast, if_pos rfl, Option.none_or]))
            rw [if_neg hother, Option.none_or]

/-- The table after some assignments. -/
theorem lookup_assignAll (m : AList fun _ : α => β) (kvs : List (α × β)) (a : α) :
    (assignAll m kvs).lookup a = (lastValue a kvs).or (m.lookup a) := by
  induction kvs generalizing m with
  | nil => rfl
  | cons kv kvs ih =>
      have hfirst : assignAll m (kv :: kvs) = assignAll (m.insert kv.1 kv.2) kvs := rfl
      rw [hfirst, ih, lastValue_cons, Option.or_assoc]
      by_cases hkey : kv.1 = a
      · subst hkey
        rw [if_pos rfl, AList.lookup_insert, Option.some_or]
      · rw [if_neg hkey, AList.lookup_insert_ne (Ne.symm hkey), Option.none_or]

end LastValue

end EpollChat
