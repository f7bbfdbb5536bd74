import Mathlib.Data.List.Basic
import Mathlib.Tactic.Common

/-!
# Unescaped separators

A text format that joins two fields with a separator and escapes nothing can be read in
more than one way when the first field holds the separator.  This module says how the
readings of one text are related, for separators that do not overlap themselves.

Main results:

- Theorem {lit}`joined_eq_iff`: two pairs of fields are joined into the same text exactly
  when they are equal or one of them moves the separator into its first field.
-/

namespace EpollChat

universe u

variable {α : Type u}

/-- No end of the separator is also a beginning of it. -/
def Unbordered (sep : List α) : Prop :=
  ∀ k < sep.length, 0 < k → ¬sep.drop k <+: sep

instance [DecidableEq α] (sep : List α) : Decidable (Unbordered sep) :=
  inferInstanceAs (Decidable (∀ k < sep.length, 0 < k → ¬sep.drop k <+: sep))

/-- A second reading of two joined fields: its first field goes on behind the separator,
up to a later separator. -/
def ReadsOn (sep front back front' back' : List α) : Prop :=
  ∃ middle, front' = front ++ sep ++ middle ∧ back = middle ++ sep ++ back'

variable {sep front back front' back' : List α}

/-- A separator does not begin inside another one. -/
theorem Unbordered.overlap (hsep : Unbordered sep) {gap : List α}
    (h : sep ++ back = gap ++ (sep ++ back')) :
    gap = [] ∨ ∃ middle, gap = sep ++ middle ∧ back = middle ++ sep ++ back' := by
  rcases List.append_eq_append_iff.1 h with ⟨middle, hgap, hback⟩ | ⟨tail, hhead, htail⟩
  · right
    exact ⟨middle, hgap, by rw [hback, List.append_assoc]⟩
  by_cases hgap : gap = []
  · exact Or.inl hgap
  right
  by_cases hempty : tail = []
  · subst hempty
    rw [List.append_nil] at hhead
    rw [List.nil_append] at htail
    exact ⟨[], by rw [List.append_nil, hhead], by rw [List.nil_append, htail]⟩
  exfalso
  have hdrop : sep.drop gap.length = tail := by
    rw [hhead, List.drop_left]
  have hlength : sep.length = gap.length + tail.length := by
    rw [hhead, List.length_append]
  have hpos : 0 < tail.length := List.length_pos_iff.2 hempty
  refine hsep gap.length (by omega) (List.length_pos_iff.2 hgap) ?_
  rw [hdrop]
  have hprefix : tail <+: sep ++ back' := ⟨back, htail.symm⟩
  exact List.prefix_of_prefix_length_le hprefix (List.prefix_append sep back') (by omega)

/-- If the first field of one pair is a beginning of the other one's, the pairs are equal
or the separator has moved. -/
theorem Unbordered.readsOn (hsep : Unbordered sep) {gap : List α} (hfront : front' = front ++ gap)
    (h : front ++ (sep ++ back) = front' ++ (sep ++ back')) :
    front = front' ∧ back = back' ∨ ReadsOn sep front back front' back' := by
  subst hfront
  rw [List.append_assoc] at h
  have htail := List.append_cancel_left h
  rcases hsep.overlap htail with rfl | ⟨middle, rfl, hback⟩
  · exact Or.inl ⟨(List.append_nil front).symm, List.append_cancel_left htail⟩
  · exact Or.inr ⟨middle, (List.append_assoc _ _ _).symm, hback⟩

theorem ReadsOn.joined_eq (h : ReadsOn sep front back front' back') :
    front ++ sep ++ back = front' ++ sep ++ back' := by
  rcases h with ⟨middle, rfl, rfl⟩
  simp only [List.append_assoc]

/-- Two pairs are joined into one text exactly when they are equal or one reads on. -/
theorem joined_eq_iff (hsep : Unbordered sep) :
    front ++ sep ++ back = front' ++ sep ++ back' ↔
      front = front' ∧ back = back' ∨ ReadsOn sep front back front' back' ∨
        ReadsOn sep front' back' front back := by
  constructor
  · intro h
    rw [List.append_assoc, List.append_assoc] at h
    rcases List.append_eq_append_iff.1 h with ⟨gap, hfront, _⟩ | ⟨gap, hfront, _⟩
    · exact (hsep.readsOn hfront h).imp_right Or.inl
    · rcases hsep.readsOn hfront h.symm with ⟨rfl, rfl⟩ | hreads
      · exact Or.inl ⟨rfl, rfl⟩
      · exact Or.inr (Or.inr hreads)
  · rintro (⟨rfl, rfl⟩ | hreads | hreads)
    · rfl
    · exact hreads.joined_eq
    · exact hreads.joined_eq.symm

/-- A first field without the separator is where the reading stops. -/
theorem not_readsOn_of_notInfix (h : ¬sep <:+: front') : ¬ReadsOn sep front back front' back' := by
  rintro ⟨middle, rfl, _⟩
  exact h ⟨front, middle, rfl⟩

end EpollChat
