import Mathlib.Data.Finset.Basic
import Mathlib.Tactic.Common

/-!
# Acquired and released handles

A program acquires handles from an environment that may use a handle again after it was
released.  A log of acquisitions and releases is judged against the set of handles that
are held: the environment must not hand out a handle that is held, and the program must
not release one that is not.

Main results:

- Theorem {lit}`along_append`: a log is judged in parts.
- Theorem {lit}`count_acquire_eq`: under both conditions the acquisitions of a handle
  and its releases differ by whether it is held before and after.
- Theorem {lit}`releasedOnce_iff`: every handle is released exactly once for each
  acquisition exactly when no release is of another handle and nothing is held in the
  end.
- Theorem {lit}`release_all`: releasing a list of exactly the held handles is allowed,
  and leaves none.
- Theorem {lit}`releasesAcquired_append`: a log that releases handles it has acquired, even
  if it releases them more than once, can be continued by one that does.
-/

namespace EpollChat

universe u

inductive HandleOp (α : Type u)
  | acquire (a : α)
  | release (a : α)
deriving DecidableEq

variable {α : Type u} [DecidableEq α]

/-! ## Judging a log -/

/-- The handles that are held after an operation. -/
def HandleOp.step (held : Finset α) : HandleOp α → Finset α
  | .acquire a => insert a held
  | .release a => held.erase a

/-- The handles that are held after a log. -/
def heldAfter (held : Finset α) (ops : List (HandleOp α)) : Finset α :=
  ops.foldl HandleOp.step held

/-- Every operation of a log satisfies a condition on the handles held before it. -/
def Along (P : Finset α → HandleOp α → Prop) : Finset α → List (HandleOp α) → Prop
  | _, [] => True
  | held, op :: ops => P held op ∧ Along P (op.step held) ops

/-- The environment does not hand out a held handle. -/
def NewHandle (held : Finset α) : HandleOp α → Prop
  | .acquire a => a ∉ held
  | .release _ => True

/-- The program releases held handles only. -/
def HeldHandle (held : Finset α) : HandleOp α → Prop
  | .acquire _ => True
  | .release a => a ∈ held

instance (held : Finset α) (op : HandleOp α) : Decidable (NewHandle held op) := by
  cases op <;> unfold NewHandle <;> infer_instance

instance (held : Finset α) (op : HandleOp α) : Decidable (HeldHandle held op) := by
  cases op <;> unfold HeldHandle <;> infer_instance

instance decidableAlong {P : Finset α → HandleOp α → Prop} [∀ held op, Decidable (P held op)] :
    (held : Finset α) → (ops : List (HandleOp α)) → Decidable (Along P held ops)
  | _, [] => inferInstanceAs (Decidable True)
  | held, op :: ops =>
      have := decidableAlong (P := P) (op.step held) ops
      inferInstanceAs (Decidable (P held op ∧ _))

/-- Every acquired handle is new. -/
abbrev Fresh : Finset α → List (HandleOp α) → Prop :=
  Along NewHandle

/-- Every released handle is held. -/
abbrev ReleasesHeld : Finset α → List (HandleOp α) → Prop :=
  Along HeldHandle

/-- Every release is of a held handle, and every handle is released as often as it is
acquired. -/
def ReleasedOnce (ops : List (HandleOp α)) : Prop :=
  ReleasesHeld ∅ ops ∧ ∀ a, ops.count (.acquire a) = ops.count (.release a)

section Logs

variable {P : Finset α → HandleOp α → Prop} {held : Finset α} {xs ys ops : List (HandleOp α)}
variable {a : α}

/-- What is held after two sequences. -/
theorem heldAfter_append :
    heldAfter held (xs ++ ys) = heldAfter (heldAfter held xs) ys :=
  List.foldl_append

/-- A log is judged in parts. -/
theorem along_append :
    Along P held (xs ++ ys) ↔ Along P held xs ∧ Along P (heldAfter held xs) ys := by
  induction xs generalizing held with
  | nil => simp [Along, heldAfter]
  | cons op xs ih =>
      have hrest : Along P (op.step held) (xs ++ ys) ↔ _ := ih
      simp only [List.cons_append, Along, hrest, and_assoc]
      rfl

/-- Both parts acquire free handles only. -/
theorem fresh_append :
    Fresh held (xs ++ ys) ↔ Fresh held xs ∧ Fresh (heldAfter held xs) ys :=
  along_append

/-- Both parts release held handles only. -/
theorem releasesHeld_append :
    ReleasesHeld held (xs ++ ys) ↔ ReleasesHeld held xs ∧ ReleasesHeld (heldAfter held xs) ys :=
  along_append

/-- A handle is not held after its release, so it cannot be released twice in a row. -/
theorem not_released_twice (xs ys : List (HandleOp α)) (a : α) :
    ¬ReleasesHeld held (xs ++ .release a :: .release a :: ys) := by
  intro howned
  rcases (releasesHeld_append.1 howned).2 with ⟨_, hagain, _⟩
  exact Finset.notMem_erase a _ hagain

/-! ## Counting -/

/-- Acquisitions and releases of a handle differ by whether it is held before and
after. -/
theorem count_acquire_eq (hfresh : Fresh held ops) (howned : ReleasesHeld held ops) (a : α) :
    ops.count (.acquire a) + (if a ∈ held then 1 else 0) =
      ops.count (.release a) + if a ∈ heldAfter held ops then 1 else 0 := by
  induction ops generalizing held with
  | nil => rfl
  | cons op ops ih =>
      have hrest := ih hfresh.2 howned.2
      have hafter : heldAfter held (op :: ops) = heldAfter (op.step held) ops := rfl
      rw [hafter]
      generalize (if a ∈ heldAfter (op.step held) ops then 1 else 0) = later at hrest ⊢
      cases op with
      | acquire b =>
          have hb : b ∉ held := hfresh.1
          rw [List.count_cons_of_ne (by simp : HandleOp.acquire b ≠ .release a)]
          by_cases hab : b = a
          · subst hab
            simp only [HandleOp.step, Finset.mem_insert_self, if_true] at hrest
            rw [List.count_cons_self, if_neg hb]
            exact hrest
          · have hmem : a ∈ insert b held ↔ a ∈ held := by simp [Ne.symm hab]
            simp only [HandleOp.step, hmem] at hrest
            rw [List.count_cons_of_ne (by simpa using hab)]
            exact hrest
      | release b =>
          have hb : b ∈ held := howned.1
          rw [List.count_cons_of_ne (by simp : HandleOp.release b ≠ .acquire a)]
          by_cases hab : b = a
          · subst hab
            simp only [HandleOp.step, Finset.notMem_erase, if_false] at hrest
            rw [List.count_cons_self, if_pos hb]
            omega
          · have hmem : a ∈ held.erase b ↔ a ∈ held := by simp [Ne.symm hab]
            have hne : HandleOp.release b ≠ .release a := by simpa using hab
            simp only [HandleOp.step, hmem] at hrest
            rw [List.count_cons_of_ne hne]
            exact hrest

/-- From an empty start, a program without a leak is one that holds nothing in the
end. -/
theorem releasedOnce_iff (hfresh : Fresh ∅ ops) :
    ReleasedOnce ops ↔ ReleasesHeld ∅ ops ∧ heldAfter ∅ ops = ∅ := by
  refine and_congr_right fun howned => ?_
  rw [Finset.eq_empty_iff_forall_notMem]
  apply forall_congr'
  intro a
  have hcount := count_acquire_eq hfresh howned a
  rw [if_neg (Finset.notMem_empty a)] at hcount
  split at hcount <;> rename_i hmem
  · exact iff_of_false (by omega) (not_not.mpr hmem)
  · exact iff_of_true (by omega) hmem

/-! ## Releasing everything -/

/-- Releasing a list of exactly the held handles is allowed, and leaves none. -/
theorem release_all {as : List α} (hheld : held.val = ↑as) :
    ReleasesHeld held (as.map .release) ∧ heldAfter held (as.map .release) = ∅ := by
  induction as generalizing held with
  | nil => exact ⟨trivial, Finset.val_eq_zero.1 hheld⟩
  | cons a as ih =>
      have ha : a ∈ held := by
        rw [← Finset.mem_val, hheld]
        simp
      have hrest : (held.erase a).val = ↑as := by
        rw [Finset.erase_val, hheld]
        simp
      rcases ih hrest with ⟨howned, hempty⟩
      exact ⟨⟨ha, howned⟩, hempty⟩

end Logs

/-! ## Releasing what was acquired -/

section Acquired

variable {β : Type u} {seen seen' : List β} {xs ys : List (HandleOp β)}

/-- Every release is of a handle that was acquired before, or that was among some handles. -/
def ReleasesAcquired : List β → List (HandleOp β) → Prop
  | _, [] => True
  | seen, .acquire a :: ops => ReleasesAcquired (a :: seen) ops
  | seen, .release a :: ops => a ∈ seen ∧ ReleasesAcquired seen ops

/-- Handles may be acquired earlier. -/
theorem ReleasesAcquired.mono (h : ReleasesAcquired seen xs) (hsub : seen ⊆ seen') :
    ReleasesAcquired seen' xs := by
  induction xs generalizing seen seen' with
  | nil => trivial
  | cons op xs ih =>
      cases op with
      | acquire a => exact ih h (List.cons_subset_cons a hsub)
      | release a => exact ⟨hsub h.1, ih h.2 hsub⟩

/-- The second log may release what the first has acquired. -/
theorem releasesAcquired_append (hxs : ReleasesAcquired seen xs)
    (hys : ReleasesAcquired seen' ys) (hsub : ∀ a ∈ seen', a ∈ seen ∨ .acquire a ∈ xs) :
    ReleasesAcquired seen (xs ++ ys) := by
  induction xs generalizing seen with
  | nil =>
      apply hys.mono
      intro a ha
      simpa using hsub a ha
  | cons op xs ih =>
      cases op with
      | acquire a =>
          apply ih hxs
          intro b hb
          rcases hsub b hb with hmem | hmem
          · exact Or.inl (List.mem_cons_of_mem _ hmem)
          · rcases List.mem_cons.1 hmem with heq | hmem
            · cases heq
              exact Or.inl List.mem_cons_self
            · exact Or.inr hmem
      | release a =>
          refine ⟨hxs.1, ih hxs.2 fun b hb => ?_⟩
          simpa using hsub b hb

/-- A part from the beginning releases what it acquired, too. -/
theorem ReleasesAcquired.of_append (h : ReleasesAcquired seen (xs ++ ys)) :
    ReleasesAcquired seen xs := by
  induction xs generalizing seen with
  | nil => trivial
  | cons op xs ih =>
      cases op with
      | acquire a => exact ih h
      | release a => exact ⟨h.1, ih h.2⟩

theorem releasesAcquired_acquire (seen as : List β) :
    ReleasesAcquired seen (as.map .acquire) := by
  induction as generalizing seen with
  | nil => trivial
  | cons a as ih => exact ih (a :: seen)

/-- Some of the handles may be released in any order. -/
theorem releasesAcquired_release {as : List β} (h : as ⊆ seen) :
    ReleasesAcquired seen (as.map .release) := by
  induction as with
  | nil => trivial
  | cons a as ih =>
      rw [List.cons_subset] at h
      exact ⟨h.1, ih h.2⟩

end Acquired

end EpollChat
