import Mathlib.Data.List.AList
import Mathlib.Data.Nat.Find
import Mathlib.Data.Set.Finite.Basic
import Mathlib.Tactic.Common
import EpollChat.Library.Handles

/-!
# Descriptor tables

The descriptors a process has open, with what each refers to.  A descriptor that is opened
is the lowest free one, a descriptor can be duplicated onto another one, and a closed
descriptor is free again.

Main results:

- Theorem {lit}`lowestFree_eq_iff`: which descriptor is opened next.
- Theorem {lit}`lookup_duplicateOnto`: duplicating one descriptor onto several others.
- Theorem {lit}`lookup_redirect`: what a table looks like after some descriptors were
  redirected to something that was opened for it and closed again.
- Theorem {lit}`lookup_after`: a program that closes what it has opened leaves everything
  else open, even if it closes a descriptor twice.
-/

namespace EpollChat

universe u

/-- The open descriptors of a process, each with what it refers to. -/
abbrev DescriptorTable (ρ : Type u) :=
  AList fun _ : Nat => ρ

namespace DescriptorTable

variable {ρ : Type u}

/-! ## Opening and closing -/

/-- A finite table leaves a descriptor free. -/
theorem exists_free (t : DescriptorTable ρ) : ∃ n, n ∉ t := by
  rcases Infinite.exists_notMem_finset t.keys.toFinset with ⟨n, hn⟩
  rw [List.mem_toFinset] at hn
  exact ⟨n, hn⟩

/-- The descriptor that the next opening returns. -/
def lowestFree (t : DescriptorTable ρ) : Nat :=
  Nat.find t.exists_free

/-- The table after something was opened. -/
def opened (t : DescriptorTable ρ) (r : ρ) : DescriptorTable ρ :=
  t.insert t.lowestFree r

/-- {lit}`dup2` -/
def duplicate (t : DescriptorTable ρ) (source target : Nat) : DescriptorTable ρ :=
  match t.lookup source with
  | none => t
  | some r => t.insert target r

/-- The table after a descriptor has been closed. -/
def closed (t : DescriptorTable ρ) (n : Nat) : DescriptorTable ρ :=
  t.erase n

variable {t : DescriptorTable ρ} {r : ρ} {n source target : Nat}

/-- The lowest free descriptor is free. -/
theorem lowestFree_notMem (t : DescriptorTable ρ) : t.lowestFree ∉ t :=
  Nat.find_spec t.exists_free

/-- The lowest free descriptor has only open ones below it. -/
theorem lowestFree_eq_iff : t.lowestFree = n ↔ n ∉ t ∧ ∀ m < n, m ∈ t := by
  simp only [lowestFree, Nat.find_eq_iff, not_not]

/-- A descriptor is opened above some others exactly if all of those are open. -/
theorem lt_lowestFree_iff : n < t.lowestFree ↔ ∀ m ≤ n, m ∈ t := by
  simp only [lowestFree, Nat.lt_find_iff, not_not]

/-- An opening changes the lowest free descriptor only. -/
theorem lookup_opened (t : DescriptorTable ρ) (r : ρ) (n : Nat) :
    (t.opened r).lookup n = if n = t.lowestFree then some r else t.lookup n := by
  unfold opened
  split <;> rename_i hn
  · subst hn
    exact AList.lookup_insert t
  · exact AList.lookup_insert_ne hn

/-- A duplication changes its target only. -/
theorem lookup_duplicate (h : t.lookup source = some r) (n : Nat) :
    (t.duplicate source target).lookup n = if n = target then some r else t.lookup n := by
  simp only [duplicate, h]
  split <;> rename_i hn
  · subst hn
    exact AList.lookup_insert t
  · exact AList.lookup_insert_ne hn

/-- Closing a descriptor changes nothing but that. -/
theorem lookup_closed (t : DescriptorTable ρ) (m n : Nat) :
    (t.closed m).lookup n = if n = m then none else t.lookup n := by
  unfold closed
  split <;> rename_i hn
  · subst hn
    exact AList.lookup_erase n t
  · exact AList.lookup_erase_ne hn

/-! ## Redirection -/

/-- One descriptor is duplicated onto several others. -/
def duplicateOnto (t : DescriptorTable ρ) (source : Nat) (targets : List Nat) :
    DescriptorTable ρ :=
  targets.foldl (fun t target => t.duplicate source target) t

/-- Some descriptors are redirected: what they are to refer to is opened, duplicated onto each
of them, and the descriptor it was opened under is closed. -/
def redirect (t : DescriptorTable ρ) (r : ρ) (targets : List Nat) : DescriptorTable ρ :=
  ((t.opened r).duplicateOnto t.lowestFree targets).closed t.lowestFree

/-- Duplications onto several descriptors change these only. -/
theorem lookup_duplicateOnto {targets : List Nat} (h : t.lookup source = some r) (n : Nat) :
    (t.duplicateOnto source targets).lookup n = if n ∈ targets then some r else t.lookup n := by
  induction targets generalizing t with
  | nil => rfl
  | cons target targets ih =>
      have hsource : (t.duplicate source target).lookup source = some r := by
        rw [lookup_duplicate h, h, ite_self]
      have hrest := ih hsource
      rw [lookup_duplicate h] at hrest
      simp only [duplicateOnto, List.foldl_cons, List.mem_cons] at hrest ⊢
      rw [hrest]
      by_cases hmem : n ∈ targets <;> simp [hmem]

/-- The descriptor that was opened for the redirection is free in the end, even if it is one of
those that are redirected. -/
theorem lookup_redirect (t : DescriptorTable ρ) (r : ρ) (targets : List Nat) (n : Nat) :
    (t.redirect r targets).lookup n =
      if n = t.lowestFree then none else if n ∈ targets then some r else t.lookup n := by
  have hopened : (t.opened r).lookup t.lowestFree = some r := by
    rw [lookup_opened, if_pos rfl]
  rw [redirect, lookup_closed, lookup_duplicateOnto hopened, lookup_opened]
  by_cases hn : n = t.lowestFree <;> simp [hn]

/-! ## Programs that open and close -/

/-- The table after an operation; what is acquired is something of the program. -/
def step (r : ρ) (t : DescriptorTable ρ) : HandleOp Nat → DescriptorTable ρ
  | .acquire n => t.insert n r
  | .release n => t.closed n

/-- The table after a sequence of openings and closings. -/
def after (r : ρ) (t : DescriptorTable ρ) (ops : List (HandleOp Nat)) : DescriptorTable ρ :=
  ops.foldl (step r) t

/-- Only a free descriptor is handed out. -/
def GrantedOp (t : DescriptorTable ρ) : HandleOp Nat → Prop
  | .acquire n => n ∉ t
  | .release _ => True

def Granted (r : ρ) : DescriptorTable ρ → List (HandleOp Nat) → Prop
  | _, [] => True
  | t, op :: ops => GrantedOp t op ∧ Granted r (t.step r op) ops

instance (t : DescriptorTable ρ) (op : HandleOp Nat) : Decidable (GrantedOp t op) := by
  cases op <;> unfold GrantedOp <;> infer_instance

instance decidableGranted (r : ρ) :
    (t : DescriptorTable ρ) → (ops : List (HandleOp Nat)) → Decidable (Granted r t ops)
  | _, [] => inferInstanceAs (Decidable True)
  | t, op :: ops =>
      have := decidableGranted r (t.step r op) ops
      inferInstanceAs (Decidable (GrantedOp t op ∧ _))

variable {t₀ : DescriptorTable ρ} {seen : List Nat} {ops rest : List (HandleOp Nat)}

theorem Granted.of_append (h : Granted r t (ops ++ rest)) : Granted r t ops := by
  induction ops generalizing t with
  | nil => trivial
  | cons op ops ih => exact ⟨h.1, ih h.2⟩

/-- What was open before stays what it was: the program never gets its descriptor, and so never
closes it. -/
theorem lookup_after (hgranted : Granted r t ops) (hreleases : ReleasesAcquired seen ops)
    (hseen : ∀ m ∈ seen, m ∉ t₀) (hsame : ∀ m ∈ t₀, t.lookup m = t₀.lookup m) (hn : n ∈ t₀) :
    (t.after r ops).lookup n = t₀.lookup n := by
  induction ops generalizing t seen with
  | nil => exact hsame n hn
  | cons op ops ih =>
      cases op with
      | acquire a =>
          have ha : a ∉ t₀ := by
            intro hmem
            apply hgranted.1
            rwa [← AList.lookup_isSome, hsame a hmem, AList.lookup_isSome]
          refine ih hgranted.2 hreleases (List.forall_mem_cons.2 ⟨ha, hseen⟩) fun m hm => ?_
          have hne : m ≠ a := fun heq => ha (heq ▸ hm)
          exact (AList.lookup_insert_ne hne).trans (hsame m hm)
      | release a =>
          refine ih hgranted.2 hreleases.2 hseen fun m hm => ?_
          have hne : m ≠ a := fun heq => hseen a hreleases.1 (heq ▸ hm)
          exact (AList.lookup_erase_ne hne).trans (hsame m hm)

/-- Whatever a program does, a descriptor refers to what it did before or to something of the
program. -/
theorem lookup_after_cases {r' : ρ} (hlookup : (t.after r ops).lookup n = some r') :
    r' = r ∨ t.lookup n = some r' := by
  induction ops generalizing t with
  | nil => exact Or.inr hlookup
  | cons op ops ih =>
      rcases ih (t := t.step r op) hlookup with heq | hstep
      · exact Or.inl heq
      · cases op with
        | acquire a =>
            by_cases hn : n = a
            · subst hn
              have hinsert : (t.insert n r).lookup n = some r := AList.lookup_insert t
              exact Or.inl (Option.some.inj (hstep.symm.trans hinsert))
            · exact Or.inr ((AList.lookup_insert_ne hn).symm.trans hstep)
        | release a =>
            rw [step, lookup_closed] at hstep
            split at hstep
            · cases hstep
            · exact Or.inr hstep

end DescriptorTable

end EpollChat
