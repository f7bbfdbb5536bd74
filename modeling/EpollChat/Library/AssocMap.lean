import Mathlib.Data.List.AList
import Mathlib.Algebra.GroupWithZero.Nat
import Mathlib.Algebra.Order.Group.Nat
import Mathlib.Tactic.Common

/-!
# Association maps - bulk updates and classified counts

Mathlib's {lit}`AList` is a finite map that remembers the order of its entries,
which makes it a model of a hash table together with its iteration order.  This
module adds what a program that walks a table needs: a bulk update that visits
every entry, an in-place update of one entry, and the number of entries whose
value falls into a class.

Main results:

- Theorem {lit}`AList.lookup_mapVal`: a bulk update acts on every entry
  independently.
- Theorem {lit}`AList.countVal_modify`: updating one entry moves at most one
  unit of count, out of the old class and into the new one.
- Theorems {lit}`AList.countVal_insert` and {lit}`AList.countVal_erase`: a new
  entry and a removed entry change a count by their own class only.
- Theorem {lit}`AList.findKey_perm_iff`: a search for a class finds the same key in
  every order exactly when the class has at most one key.
-/

namespace AList

universe u v w x y

variable {α : Type u} {β : Type v} {γ : Type w} {δ : Type x}

/-! ## Bulk updates -/

/-- Replace the value of one entry. -/
def mapEntry (f : α → β → γ) : (Sigma fun _ : α => β) → Sigma fun _ : α => γ :=
  Sigma.map id f

/-- Replace every value, keeping the keys and the order of the entries. -/
def mapVal (f : α → β → γ) (m : AList fun _ : α => β) : AList fun _ : α => γ where
  entries := m.entries.map (mapEntry f)
  nodupKeys := m.nodupKeys.map₂ f m.entries

@[simp]
theorem keys_mapVal (f : α → β → γ) (m : AList fun _ : α => β) :
    (m.mapVal f).keys = m.keys :=
  List.map₂_keys f m.entries

@[simp]
theorem mem_mapVal {f : α → β → γ} {m : AList fun _ : α => β} {a : α} :
    a ∈ m.mapVal f ↔ a ∈ m := by
  rw [mem_keys, mem_keys, keys_mapVal]

/-- Two bulk updates in a row are one. -/
theorem mapVal_mapVal (f : α → β → γ) (g : α → γ → δ) (m : AList fun _ : α => β) :
    (m.mapVal f).mapVal g = m.mapVal fun a b => g a (f a b) := by
  apply AList.ext
  simp only [mapVal, List.map_map]
  rfl

/-- A bulk update does not depend on the order of the entries. -/
theorem mapVal_perm {m m' : AList fun _ : α => β} (h : m.entries.Perm m'.entries)
    (f : α → β → γ) : (m.mapVal f).entries.Perm (m'.mapVal f).entries :=
  h.map _

/-! ## Classes of values -/

/-- The number of entries whose value satisfies a test. -/
def countVal (p : β → Bool) (m : AList fun _ : α => β) : Nat :=
  m.entries.countP fun e => p e.2

/-- The order of the entries does not matter to a count. -/
theorem countVal_perm {p : β → Bool} {m m' : AList fun _ : α => β}
    (h : m.entries.Perm m'.entries) : m.countVal p = m'.countVal p :=
  h.countP_eq _

/-- The keys whose value satisfies a test, in iteration order. -/
def keysWhere (p : β → Bool) (m : AList fun _ : α => β) : List α :=
  (m.entries.filter fun e => p e.2).map Sigma.fst

theorem nodup_keysWhere (p : β → Bool) (m : AList fun _ : α => β) :
    (m.keysWhere p).Nodup :=
  List.NodupKeys.sublist List.filter_sublist m.nodupKeys

theorem length_keysWhere (p : β → Bool) (m : AList fun _ : α => β) :
    (m.keysWhere p).length = m.countVal p := by
  simp [keysWhere, countVal, List.countP_eq_length_filter]

/-- A class counts one exactly when its key is the only one. -/
theorem countVal_eq_one_iff {p : β → Bool} {m : AList fun _ : α => β} {a : α}
    (ha : a ∈ m.keysWhere p) : m.countVal p = 1 ↔ ∀ x ∈ m.keysWhere p, x = a := by
  rw [← length_keysWhere]
  constructor
  · intro hone x hx
    rcases List.length_eq_one_iff.1 hone with ⟨y, hy⟩
    rw [hy, List.mem_singleton] at ha hx
    rw [hx, ha]
  · intro hunique
    have hsingle : (m.keysWhere p).Perm [a] := by
      rw [List.perm_ext_iff_of_nodup (nodup_keysWhere p m) (List.nodup_singleton a)]
      intro x
      rw [List.mem_singleton]
      constructor
      · exact hunique x
      · rintro rfl
        exact ha
    exact hsingle.length_eq

/-- Disjoint classes count as much as both together. -/
theorem countVal_add_countVal {p q : β → Bool} {m : AList fun _ : α => β}
    (hdisjoint : ∀ b, p b = true → q b = false) :
    m.countVal p + m.countVal q = m.countVal fun b => p b || q b := by
  unfold countVal
  induction m.entries with
  | nil => rfl
  | cons e es ih =>
      have hone : ((if p e.2 = true then 1 else 0) + if q e.2 = true then 1 else 0) =
          if (p e.2 || q e.2) = true then 1 else 0 := by
        cases hp : p e.2 with
        | false => simp
        | true => simp [hdisjoint e.2 hp]
      simp only [List.countP_cons] at ih ⊢
      omega

/-- The values that are classified by the elements of a list, counted class by class. -/
theorem sum_countVal {κ : Type y} [BEq κ] [LawfulBEq κ] (g : β → κ) (m : AList fun _ : α => β)
    {classes : List κ} (hnodup : classes.Nodup) :
    (classes.map fun k => m.countVal fun b => g b == k).sum =
      m.countVal fun b => decide (g b ∈ classes) := by
  induction classes with
  | nil => simp [countVal]
  | cons k classes ih =>
      rw [List.nodup_cons] at hnodup
      rw [List.map_cons, List.sum_cons, ih hnodup.2, countVal_add_countVal]
      · refine congrArg (fun p => m.countVal p) (funext fun b => ?_)
        rw [Bool.eq_iff_iff]
        simp
      · intro b hb
        rw [beq_iff_eq] at hb
        simpa [hb] using hnodup.1

/-- The key of the first entry whose value satisfies a test. -/
def findKey (p : β → Bool) (m : AList fun _ : α => β) : Option α :=
  (m.entries.find? fun e => p e.2).map Sigma.fst

theorem findKey_eq_head? (p : β → Bool) (m : AList fun _ : α => β) :
    m.findKey p = (m.keysWhere p).head? := by
  rw [findKey, keysWhere, List.head?_map, List.head?_filter]

theorem findKey_eq_none {p : β → Bool} {m : AList fun _ : α => β} :
    m.findKey p = none ↔ m.keysWhere p = [] := by
  simp [findKey, keysWhere]

variable [DecidableEq α]

/-! ## Lookups after a bulk update -/

/-- A bulk update acts on every entry independently. -/
@[simp]
theorem lookup_mapVal (f : α → β → γ) (m : AList fun _ : α => β) (a : α) :
    (m.mapVal f).lookup a = (m.lookup a).map (f a) :=
  List.dlookup_map₂ a

/-- Every entry is found under its key. -/
theorem lookup_of_mem_entries {m : AList fun _ : α => β} {e : Sigma fun _ : α => β}
    (he : e ∈ m.entries) : m.lookup e.1 = some e.2 :=
  mem_lookup_iff.2 he

/-- The keys of a class are those of the same class after a bulk update. -/
theorem keysWhere_mapVal {p : β → Bool} {q : γ → Bool} {f : α → β → γ}
    {m : AList fun _ : α => β} (h : ∀ a b, m.lookup a = some b → q (f a b) = p b) :
    (m.mapVal f).keysWhere q = m.keysWhere p := by
  have htest : ∀ e ∈ m.entries, ((fun e => q e.2) ∘ mapEntry f) e = p e.2 :=
    fun e he => h e.1 e.2 (lookup_of_mem_entries he)
  unfold keysWhere
  change ((m.entries.map (mapEntry f)).filter _).map _ = _
  rw [List.filter_map, List.map_map, List.filter_congr htest]
  rfl

/-- What is listed of every entry, after a bulk update. -/
theorem flatMap_mapVal {f : α → β → γ} {g : α → β → List δ} {k : α → γ → List δ}
    {m : AList fun _ : α => β} (h : ∀ a b, m.lookup a = some b → k a (f a b) = g a b) :
    ((m.mapVal f).entries.flatMap fun e => k e.1 e.2) = m.entries.flatMap fun e => g e.1 e.2 := by
  change (m.entries.map (mapEntry f)).flatMap _ = _
  rw [List.flatMap_map]
  exact List.flatMap_congr fun e he => h e.1 e.2 (lookup_of_mem_entries he)

/-- What is listed of the entries that satisfy a test, after a bulk update. -/
theorem flatMap_filter_mapVal {p : β → Bool} {q : γ → Bool} {f : α → β → γ} {g : α → β → List δ}
    {k : α → γ → List δ} {m : AList fun _ : α => β}
    (htest : ∀ a b, m.lookup a = some b → q (f a b) = p b)
    (h : ∀ a b, m.lookup a = some b → p b = true → k a (f a b) = g a b) :
    (((m.mapVal f).entries.filter fun e => q e.2).flatMap fun e => k e.1 e.2) =
      (m.entries.filter fun e => p e.2).flatMap fun e => g e.1 e.2 := by
  have htest : ∀ e ∈ m.entries, ((fun e => q e.2) ∘ mapEntry f) e = p e.2 :=
    fun e he => htest e.1 e.2 (lookup_of_mem_entries he)
  change ((m.entries.map (mapEntry f)).filter _).flatMap _ = _
  rw [List.filter_map, List.filter_congr htest, List.flatMap_map]
  refine List.flatMap_congr fun e he => ?_
  rcases List.mem_filter.1 he with ⟨hmem, hp⟩
  exact h e.1 e.2 (lookup_of_mem_entries hmem) hp

/-- What is listed of the entries that satisfy a test of the value and one of the key. -/
theorem filterMap_ite_eq {p : β → Bool} {q : α → Prop} [DecidablePred q] {g : α → δ} {h : β → δ}
    {m : AList fun _ : α => β} (hview : ∀ a b, m.lookup a = some b → g a = h b) :
    (m.entries.filterMap fun e => if p e.2 = true ∧ q e.1 then some (h e.2) else none) =
      ((m.keysWhere p).filter fun a => decide (q a)).map g := by
  have hentries : ∀ e ∈ m.entries, g e.1 = h e.2 := fun e he =>
    hview e.1 e.2 (lookup_of_mem_entries he)
  unfold keysWhere
  generalize m.entries = entries at hentries
  induction entries with
  | nil => rfl
  | cons e es ih =>
      rw [List.forall_mem_cons] at hentries
      rw [List.filterMap_cons, List.filter_cons, ih hentries.2]
      by_cases hp : p e.2 = true <;> by_cases hq : q e.1 <;> simp [hp, hq, hentries.1]

theorem findKey_mapVal {p : β → Bool} {q : γ → Bool} {f : α → β → γ}
    {m : AList fun _ : α => β} (h : ∀ a b, m.lookup a = some b → q (f a b) = p b) :
    (m.mapVal f).findKey q = m.findKey p := by
  rw [findKey_eq_head?, findKey_eq_head?, keysWhere_mapVal h]

/-- Bulk updates that agree on the present entries agree. -/
theorem mapVal_congr {f g : α → β → γ} {m : AList fun _ : α => β}
    (h : ∀ a b, m.lookup a = some b → f a b = g a b) : m.mapVal f = m.mapVal g := by
  apply AList.ext
  apply List.map_congr_left
  rintro ⟨a, b⟩ he
  simp only [mapEntry, Sigma.map, id_eq, h a b (lookup_of_mem_entries he)]

/-- A bulk update that changes no present entry is the identity. -/
theorem mapVal_eq_self {f : α → β → β} {m : AList fun _ : α => β}
    (h : ∀ a b, m.lookup a = some b → f a b = b) : m.mapVal f = m := by
  rw [mapVal_congr (g := fun _ b => b) h]
  apply AList.ext
  exact List.map_id m.entries

/-- Removing a key and replacing all values commute. -/
theorem mapVal_erase (f : α → β → γ) (a : α) (m : AList fun _ : α => β) :
    (m.erase a).mapVal f = (m.mapVal f).erase a := by
  apply AList.ext
  change (m.entries.kerase a).map (mapEntry f) = (m.entries.map (mapEntry f)).kerase a
  induction m.entries with
  | nil => rfl
  | cons e es ih =>
      by_cases h : a = e.1
      · have h' : a = (mapEntry f e).1 := h
        rw [List.kerase_cons_eq h, List.map_cons, List.kerase_cons_eq h']
      · have h' : a ≠ (mapEntry f e).1 := h
        rw [List.kerase_cons_ne h, List.map_cons, List.map_cons, List.kerase_cons_ne h', ih]

/-- Inserting a key and replacing all values commute. -/
theorem mapVal_insert (f : α → β → γ) (a : α) (b : β) (m : AList fun _ : α => β) :
    (m.insert a b).mapVal f = (m.mapVal f).insert a (f a b) := by
  have herase := congrArg AList.entries (mapVal_erase f a m)
  apply AList.ext
  change (⟨a, f a b⟩ : Sigma fun _ : α => γ) :: (m.entries.kerase a).map (mapEntry f) =
    ⟨a, f a b⟩ :: (m.entries.map (mapEntry f)).kerase a
  exact congrArg _ herase

/-! ## Updating one entry in place -/

/-- Update the entry of one key, if there is one. -/
def modify (a : α) (f : β → β) (m : AList fun _ : α => β) : AList fun _ : α => β :=
  m.mapVal fun a' b => if a' = a then f b else b

@[simp]
theorem lookup_modify_self (a : α) (f : β → β) (m : AList fun _ : α => β) :
    (m.modify a f).lookup a = (m.lookup a).map f := by
  simp [modify]

@[simp]
theorem lookup_modify_ne {a a' : α} (h : a' ≠ a) (f : β → β) (m : AList fun _ : α => β) :
    (m.modify a f).lookup a' = m.lookup a' := by
  simp [modify, h]

theorem lookup_modify (a a' : α) (f : β → β) (m : AList fun _ : α => β) :
    (m.modify a f).lookup a' = if a' = a then (m.lookup a').map f else m.lookup a' := by
  by_cases h : a' = a
  · subst h
    simp
  · simp [h]

@[simp]
theorem mem_modify {a a' : α} {f : β → β} {m : AList fun _ : α => β} :
    a' ∈ m.modify a f ↔ a' ∈ m :=
  mem_mapVal

/-- Updating one entry and replacing all values commute, if the update can be
carried out on the replaced values. -/
theorem mapVal_modify {f : β → β} {g : α → β → γ} {h : γ → γ} {a : α}
    {m : AList fun _ : α => β}
    (hcomm : ∀ b, m.lookup a = some b → g a (f b) = h (g a b)) :
    (m.modify a f).mapVal g = (m.mapVal g).modify a h := by
  unfold modify
  rw [mapVal_mapVal, mapVal_mapVal]
  apply mapVal_congr
  intro a' b hb
  by_cases ha : a' = a
  · subst ha
    simp [hcomm b hb]
  · simp [ha]

/-- A view of the values that does not see an update is the same after it. -/
theorem mapVal_modify_eq {f : β → β} {g : α → β → γ} {a : α} {m : AList fun _ : α => β}
    (hsame : ∀ b, m.lookup a = some b → g a (f b) = g a b) :
    (m.modify a f).mapVal g = m.mapVal g := by
  unfold modify
  rw [mapVal_mapVal]
  apply mapVal_congr
  intro a' b hb
  split <;> rename_i ha
  · subst ha
    exact hsame b hb
  · rfl

theorem map_lookup_modify_eq {f : β → β} {g : β → γ} {a : α} {m : AList fun _ : α => β}
    (hsame : ∀ b, m.lookup a = some b → g (f b) = g b) (a' : α) :
    ((m.modify a f).lookup a').map g = (m.lookup a').map g := by
  have hview : (m.modify a f).mapVal (fun _ => g) = m.mapVal fun _ => g := mapVal_modify_eq hsame
  rw [← lookup_mapVal (fun _ => g), hview, lookup_mapVal]

/-- Two updates of one entry are one. -/
theorem modify_modify (a : α) (f g : β → β) (m : AList fun _ : α => β) :
    (m.modify a f).modify a g = m.modify a fun b => g (f b) := by
  unfold modify
  rw [mapVal_mapVal]
  apply mapVal_congr
  intro a' b _
  split <;> rfl

/-- Updates that commute on every value commute as updates of entries. -/
theorem modify_comm (a a' : α) {f g : β → β} (hcomm : ∀ b, f (g b) = g (f b))
    (m : AList fun _ : α => β) :
    (m.modify a g).modify a' f = (m.modify a' f).modify a g := by
  unfold modify
  rw [mapVal_mapVal, mapVal_mapVal]
  apply mapVal_congr
  intro x b _
  by_cases hx : x = a
  · by_cases hx' : x = a'
    · rw [if_pos hx, if_pos hx', if_pos hx', if_pos hx, hcomm]
    · rw [if_pos hx, if_neg hx', if_neg hx', if_pos hx]
  · rw [if_neg hx, if_neg hx]

/-- Updates that agree on the present value agree. -/
theorem modify_congr {f g : β → β} {m : AList fun _ : α => β} {a : α}
    (h : ∀ b, m.lookup a = some b → f b = g b) : m.modify a f = m.modify a g := by
  apply mapVal_congr
  intro a' b hb
  split <;> rename_i ha
  · subst ha
    exact h b hb
  · rfl

/-- Updating an entry does not matter if it is erased. -/
theorem erase_modify_self (a : α) (f : β → β) (m : AList fun _ : α => β) :
    (m.modify a f).erase a = m.erase a := by
  unfold modify
  rw [← mapVal_erase]
  apply mapVal_eq_self
  intro a' b hb
  by_cases ha : a' = a
  · subst ha
    simp at hb
  · rw [if_neg ha]

/-- Inserting a fresh key and erasing it changes nothing. -/
theorem erase_insert_of_notMem {a : α} {m : AList fun _ : α => β} (ha : a ∉ m) (b : β) :
    (m.insert a b).erase a = m := by
  apply AList.ext
  change (m.insert a b).entries.kerase a = m.entries
  rw [entries_insert_of_notMem ha]
  exact List.kerase_cons_eq rfl

/-- Present keys are exactly those with a value. -/
theorem mem_iff_lookup {m : AList fun _ : α => β} {a : α} :
    a ∈ m ↔ ∃ b, m.lookup a = some b := by
  rw [← lookup_isSome, Option.isSome_iff_exists]

/-- What holds of the value of a key holds of every value found there. -/
theorem forall_lookup {m : AList fun _ : α => β} {a : α} {b : β} (hab : m.lookup a = some b)
    {P : β → Prop} (h : P b) : ∀ x, m.lookup a = some x → P x := by
  intro x hx
  rw [hab] at hx
  cases hx
  exact h

theorem mem_of_lookup {m : AList fun _ : α => β} {a : α} {b : β}
    (h : m.lookup a = some b) : a ∈ m :=
  mem_iff_lookup.2 ⟨b, h⟩

/-! ## Counting a class of values -/

/-- A bulk update that leaves every present entry in its class keeps the count. -/
theorem countVal_mapVal {p : β → Bool} {q : γ → Bool} {f : α → β → γ}
    {m : AList fun _ : α => β} (h : ∀ a b, m.lookup a = some b → q (f a b) = p b) :
    (m.mapVal f).countVal q = m.countVal p := by
  unfold countVal mapVal
  rw [List.countP_map]
  apply List.countP_congr
  rintro ⟨a, b⟩ he
  simp [mapEntry, Sigma.map, h a b (lookup_of_mem_entries he)]

/-- A class is nonempty exactly when some key has a value in it. -/
theorem countVal_pos_iff {p : β → Bool} {m : AList fun _ : α => β} :
    0 < m.countVal p ↔ ∃ a b, m.lookup a = some b ∧ p b = true := by
  unfold countVal
  rw [List.countP_pos_iff]
  constructor
  · rintro ⟨⟨a, b⟩, he, hp⟩
    exact ⟨a, b, lookup_of_mem_entries he, hp⟩
  · rintro ⟨a, b, hab, hp⟩
    exact ⟨⟨a, b⟩, mem_lookup_iff.1 hab, hp⟩

/-- Inserting a fresh key adds one unit to the class of its value. -/
theorem countVal_insert {p : β → Bool} {m : AList fun _ : α => β} {a : α} {b : β}
    (ha : a ∉ m) : (m.insert a b).countVal p = m.countVal p + if p b then 1 else 0 := by
  unfold countVal
  rw [entries_insert_of_notMem ha, List.countP_cons]

/-- Inserting a key with the value it has only moves its entry to the front. -/
theorem insert_perm {m : AList fun _ : α => β} {a : α} {b : β} (hab : m.lookup a = some b) :
    (m.insert a b).entries.Perm m.entries := by
  apply List.lookup_ext (nodupKeys _) (nodupKeys _)
  intro x y
  have hx : (m.insert a b).lookup x = m.lookup x := by
    by_cases hx : x = a
    · subst hx
      rw [lookup_insert, hab]
    · exact lookup_insert_ne hx
  change y ∈ (m.insert a b).lookup x ↔ y ∈ m.lookup x
  rw [hx]

/-- Erasing a key takes one unit from the class of its value. -/
theorem countVal_erase {p : β → Bool} {m : AList fun _ : α => β} {a : α} {b : β}
    (hab : m.lookup a = some b) :
    (m.erase a).countVal p + (if p b then 1 else 0) = m.countVal p := by
  have hfresh : a ∉ m.erase a := by simp
  have hperm : ((m.erase a).insert a b).entries.Perm m.entries := by
    have hentries : ((m.erase a).insert a b).entries = (m.insert a b).entries := by
      rw [entries_insert_of_notMem hfresh]
      rfl
    rw [hentries]
    exact insert_perm hab
  rw [← countVal_insert hfresh, countVal_perm hperm]

/-- Updating one entry moves at most one unit of count, out of the class of the
old value and into the class of the new one. -/
theorem countVal_modify {p : β → Bool} {f : β → β} {m : AList fun _ : α => β} {a : α} {b : β}
    (hab : m.lookup a = some b) :
    (m.modify a f).countVal p + (if p b then 1 else 0) =
      m.countVal p + if p (f b) then 1 else 0 := by
  have hnew : (m.modify a f).lookup a = some (f b) := by simp [hab]
  have hrest : ((m.modify a f).erase a).countVal p = (m.erase a).countVal p := by
    apply countVal_perm
    apply List.lookup_ext (nodupKeys _) (nodupKeys _)
    intro x y
    have hx : ((m.modify a f).erase a).lookup x = (m.erase a).lookup x := by
      by_cases hx : x = a
      · subst hx
        simp
      · simp [lookup_erase_ne hx, hx]
    change y ∈ ((m.modify a f).erase a).lookup x ↔ y ∈ (m.erase a).lookup x
    rw [hx]
  have hcountNew := countVal_erase (p := p) hnew
  have hcountOld := countVal_erase (p := p) hab
  omega

@[simp]
theorem mem_keysWhere {p : β → Bool} {m : AList fun _ : α => β} {a : α} :
    a ∈ m.keysWhere p ↔ ∃ b, m.lookup a = some b ∧ p b = true := by
  simp only [keysWhere, List.mem_map, List.mem_filter]
  constructor
  · rintro ⟨⟨x, b⟩, ⟨he, hp⟩, rfl⟩
    exact ⟨b, lookup_of_mem_entries he, hp⟩
  · rintro ⟨b, hab, hp⟩
    exact ⟨⟨a, b⟩, ⟨mem_lookup_iff.1 hab, hp⟩, rfl⟩

/-! ## The first entry of a class -/

section Search

variable {p : β → Bool} {m : AList fun _ : α => β} {a : α}

theorem mem_keysWhere_of_findKey (h : m.findKey p = some a) : a ∈ m.keysWhere p := by
  rcases Option.map_eq_some_iff.1 h with ⟨e, he, rfl⟩
  have htest := List.find?_some he
  exact mem_keysWhere.2 ⟨e.2, lookup_of_mem_entries (List.mem_of_find?_eq_some he), htest⟩

/-- A class with one key only is found under it. -/
theorem findKey_eq_some (ha : a ∈ m.keysWhere p) (hunique : ∀ b ∈ m.keysWhere p, b = a) :
    m.findKey p = some a := by
  cases hfound : m.findKey p with
  | none =>
      rw [findKey_eq_none.1 hfound] at ha
      cases ha
  | some b => rw [hunique b (mem_keysWhere_of_findKey hfound)]

/-- An entry that is moved to the front is found first. -/
theorem findKey_insert (b : β) (hp : p b = true) : (m.insert a b).findKey p = some a := by
  simp [findKey, hp]

theorem perm_mem_keysWhere {m' : AList fun _ : α => β} (h : m'.entries.Perm m.entries) :
    a ∈ m'.keysWhere p ↔ a ∈ m.keysWhere p := by
  simp only [mem_keysWhere, perm_lookup h]

/-- All orders of the entries give the same first key exactly when the class has at
most one key. -/
theorem findKey_perm_iff :
    (∀ m₁ m₂ : AList fun _ : α => β, m₁.entries.Perm m.entries → m₂.entries.Perm m.entries →
      m₁.findKey p = m₂.findKey p) ↔
      ∀ a ∈ m.keysWhere p, ∀ b ∈ m.keysWhere p, a = b := by
  constructor
  · intro h a ha b hb
    rcases mem_keysWhere.1 ha with ⟨x, hx, hpx⟩
    rcases mem_keysWhere.1 hb with ⟨y, hy, hpy⟩
    have hsame := h _ _ (insert_perm hx) (insert_perm hy)
    rw [findKey_insert x hpx, findKey_insert y hpy] at hsame
    exact Option.some.inj hsame
  · intro hunique m₁ m₂ h₁ h₂
    have hfind : ∀ m' : AList fun _ : α => β, m'.entries.Perm m.entries →
        m'.findKey p = (m.keysWhere p).head? := by
      intro m' hm'
      cases hkeys : m.keysWhere p with
      | nil =>
          rw [List.head?_nil, findKey_eq_none, List.eq_nil_iff_forall_not_mem]
          intro b hb
          have hmem := (perm_mem_keysWhere hm').1 hb
          rw [hkeys] at hmem
          cases hmem
      | cons a as =>
          have ha : a ∈ m.keysWhere p := by simp [hkeys]
          refine findKey_eq_some ((perm_mem_keysWhere hm').2 ha) fun b hb => ?_
          exact hunique b ((perm_mem_keysWhere hm').1 hb) a ha
    rw [hfind m₁ h₁, hfind m₂ h₂]

end Search

/-! ## Other orders of the entries -/

section Orders

variable {m m' : AList fun _ : α => β}

theorem modify_perm (h : m.entries.Perm m'.entries) (a : α) (f : β → β) :
    (m.modify a f).entries.Perm (m'.modify a f).entries :=
  mapVal_perm h _

/-- The only key of a class is found in every order. -/
theorem findKey_perm {p : β → Bool} (h : m.entries.Perm m'.entries)
    (hunique : ∀ a ∈ m.keysWhere p, ∀ b ∈ m.keysWhere p, a = b) : m'.findKey p = m.findKey p :=
  findKey_perm_iff.2 hunique m' m h.symm (.refl _)

end Orders

/-! ## Entries of a single key -/

/-- What a walk over all entries collects, if only one key has anything to give. -/
theorem filterMap_entries_eq {m : AList fun _ : α => β} {a : α}
    {f : (Sigma fun _ : α => β) → Option γ} (h : ∀ e ∈ m.entries, e.1 ≠ a → f e = none) :
    m.entries.filterMap f = ((m.lookup a).bind fun b => f ⟨a, b⟩).toList := by
  rcases m with ⟨l, hnodup⟩
  change l.filterMap f = ((l.dlookup a).bind fun b => f ⟨a, b⟩).toList
  simp only at h
  induction l with
  | nil => rfl
  | cons e es ih =>
      have htail := ih (List.nodupKeys_of_nodupKeys_cons hnodup) fun e' he' =>
        h e' (List.mem_cons_of_mem _ he')
      rcases e with ⟨x, b⟩
      by_cases hx : x = a
      · subst hx
        have hnone : es.dlookup x = none :=
          List.dlookup_eq_none.2 (List.notMem_keys_of_nodupKeys_cons hnodup)
        rw [hnone] at htail
        rw [List.dlookup_cons_eq, List.filterMap_cons, htail]
        cases hf : f ⟨x, b⟩ <;> simp [hf]
      · have hskip : (⟨x, b⟩ :: es : List (Sigma fun _ : α => β)).dlookup a = es.dlookup a :=
          List.dlookup_cons_ne es ⟨x, b⟩ (Ne.symm hx)
        rw [List.filterMap_cons_none (h ⟨x, b⟩ List.mem_cons_self hx), hskip]
        exact htail

end AList
