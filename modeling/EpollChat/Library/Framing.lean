import Mathlib.Data.List.Basic
import Mathlib.Data.List.TakeWhile
import Mathlib.Tactic.Common

/-!
# Delimiter framing of a byte stream

A receiver that gets a stream in arbitrary chunks keeps the bytes after the last
delimiter and hands every complete frame to a consumer.  This module states what
the frames and the remainder of a stream are, independently of any chunking, and
proves that a chunked receiver computes exactly them.

Main results:

- Theorems {lit}`frames_append` and {lit}`rest_append`: framing a concatenation
  is framing the first part and then its remainder followed by the second part.
- Theorem {lit}`notMem_rest`: the remainder holds no delimiter.
- Theorem {lit}`frames_lines`: pieces that end with their only delimiter are the frames.
- Theorem {lit}`frames_flatten`: texts that end with the delimiter make one frame each.
- Theorem {lit}`feed_append`: a receiver that carries the remainder along does the
  same for two chunks as for their concatenation.
-/

namespace EpollChat

universe u v

section Frames

variable {β : Type u} [DecidableEq β] (d : β)

/-- The pieces of a stream that a delimiter ends, without the delimiter. -/
def frames (xs : List β) : List (List β) :=
  (xs.splitOn d).dropLast

/-- What follows the last delimiter of a stream. -/
def rest (xs : List β) : List β :=
  (xs.splitOn d).getLast (List.splitOn_ne_nil d xs)

variable {d}

/-- Without a delimiter there is no frame. -/
theorem frames_of_notMem {xs : List β} (h : d ∉ xs) : frames d xs = [] := by
  simp [frames, List.splitOn_eq_singleton h]

/-- Without a delimiter everything is left. -/
theorem rest_of_notMem {xs : List β} (h : d ∉ xs) : rest d xs = xs := by
  simp [rest, List.splitOn_eq_singleton h]

/-- The first frame ends at the first delimiter. -/
theorem frames_append_cons {xs : List β} (h : d ∉ xs) (ys : List β) :
    frames d (xs ++ d :: ys) = xs :: frames d ys := by
  simp only [frames, List.splitOn_append_cons_self_of_not_mem h]
  exact List.dropLast_cons_of_ne_nil (List.splitOn_ne_nil d ys)

/-- A frame is not part of what is left. -/
theorem rest_append_cons {xs : List β} (h : d ∉ xs) (ys : List β) :
    rest d (xs ++ d :: ys) = rest d ys := by
  simp only [rest, List.splitOn_append_cons_self_of_not_mem h]
  exact List.getLast_cons (List.splitOn_ne_nil d ys)

/-- Pieces that end with their only delimiter are the frames. -/
theorem frames_lines {xss : List (List β)} (h : ∀ xs ∈ xss, d ∉ xs) :
    frames d (xss.flatMap fun xs => xs ++ [d]) = xss ∧
      rest d (xss.flatMap fun xs => xs ++ [d]) = [] := by
  induction xss with
  | nil => exact ⟨frames_of_notMem List.not_mem_nil, rest_of_notMem List.not_mem_nil⟩
  | cons xs xss ih =>
      rw [List.forall_mem_cons] at h
      rw [List.flatMap_cons, List.append_assoc, List.singleton_append,
        frames_append_cons h.1, rest_append_cons h.1]
      exact ⟨congrArg (List.cons xs) (ih h.2).1, (ih h.2).2⟩

/-- The first delimiter is where the first frame ends. -/
theorem idxOf?_append_cons {xs : List β} (h : d ∉ xs) (ys : List β) :
    (xs ++ d :: ys).idxOf? d = some xs.length := by
  induction xs with
  | nil => simp [List.idxOf?_cons]
  | cons x xs ih =>
      rw [List.mem_cons, not_or] at h
      rw [List.cons_append, List.idxOf?_cons, if_neg (by simpa using Ne.symm h.1), ih h.2]
      rfl

theorem takeWhile_of_notMem {xs : List β} (h : d ∉ xs) : (xs.takeWhile fun b => b != d) = xs :=
  List.takeWhile_eq_self_iff.2 fun b hb => by simpa using ne_of_mem_of_not_mem hb h

/-- What stands in front of the first delimiter. -/
theorem takeWhile_append_cons {xs : List β} (h : d ∉ xs) (ys : List β) :
    ((xs ++ d :: ys).takeWhile fun b => b != d) = xs := by
  rw [List.takeWhile_append_of_pos fun b hb => by simpa using ne_of_mem_of_not_mem hb h]
  simp

theorem dropWhile_of_notMem {xs : List β} (h : d ∉ xs) : (xs.dropWhile fun b => b != d) = [] :=
  List.dropWhile_eq_nil_iff.2 fun b hb => by simpa using ne_of_mem_of_not_mem hb h

theorem dropWhile_append_cons {xs : List β} (h : d ∉ xs) (ys : List β) :
    ((xs ++ d :: ys).dropWhile fun b => b != d) = d :: ys := by
  rw [List.dropWhile_append_of_pos fun b hb => by simpa using ne_of_mem_of_not_mem hb h]
  simp

/-- A stream either holds no delimiter or splits at its first one. -/
theorem eq_append_cons_of_mem {xs : List β} (h : d ∈ xs) :
    ∃ ys zs, d ∉ ys ∧ xs = ys ++ d :: zs := by
  rcases List.append_of_mem h with ⟨ys, zs, rfl⟩
  clear h
  induction ys with
  | nil => exact ⟨[], zs, by simp, rfl⟩
  | cons y ys ih =>
      by_cases hy : d = y
      · subst hy
        exact ⟨[], ys ++ d :: zs, by simp, rfl⟩
      · rcases ih with ⟨us, vs, hus, heq⟩
        exact ⟨y :: us, vs, by simp [hy, hus], by simp [heq]⟩

/-- Induction over the frames of a stream. -/
theorem frame_induction {P : List β → Prop} (hrest : ∀ xs, d ∉ xs → P xs)
    (hframe : ∀ xs ys, d ∉ xs → P ys → P (xs ++ d :: ys)) (xs : List β) : P xs := by
  induction hn : xs.length using Nat.strongRecOn generalizing xs with
  | ind n ih =>
      by_cases h : d ∈ xs
      · rcases eq_append_cons_of_mem h with ⟨ys, zs, hys, rfl⟩
        refine hframe ys zs hys (ih zs.length ?_ zs rfl)
        simp only [List.length_append, List.length_cons] at hn
        omega
      · exact hrest xs h

/-- The remainder holds no delimiter. -/
theorem notMem_rest (xs : List β) : d ∉ rest d xs := by
  induction xs using frame_induction (d := d) with
  | hrest xs h => rwa [rest_of_notMem h]
  | hframe xs ys h ih => rwa [rest_append_cons h]

/-- A frame holds no delimiter. -/
theorem notMem_of_mem_frames {xs f : List β} (hf : f ∈ frames d xs) : d ∉ f := by
  induction xs using frame_induction (d := d) with
  | hrest xs h => simp [frames_of_notMem h] at hf
  | hframe xs ys h ih =>
      rw [frames_append_cons h] at hf
      rcases List.mem_cons.mp hf with rfl | hf
      · exact h
      · exact ih hf

/-- A cut between two parts does not matter to the frames. -/
theorem frames_append (xs ys : List β) :
    frames d (xs ++ ys) = frames d xs ++ frames d (rest d xs ++ ys) := by
  induction xs using frame_induction (d := d) with
  | hrest xs h => simp [frames_of_notMem h, rest_of_notMem h]
  | hframe xs zs h ih =>
      rw [List.append_assoc, List.cons_append, frames_append_cons h, frames_append_cons h,
        rest_append_cons h, ih, List.cons_append]

/-- A cut between two parts does not matter to what is left. -/
theorem rest_append (xs ys : List β) : rest d (xs ++ ys) = rest d (rest d xs ++ ys) := by
  induction xs using frame_induction (d := d) with
  | hrest xs h => rw [rest_of_notMem h]
  | hframe xs zs h ih =>
      rw [List.append_assoc, List.cons_append, rest_append_cons h, rest_append_cons h, ih]

/-- No frame is longer than the stream. -/
theorem length_le_of_mem_frames {xs f : List β} (hf : f ∈ frames d xs) :
    f.length ≤ xs.length := by
  induction xs using frame_induction (d := d) with
  | hrest xs h => simp [frames_of_notMem h] at hf
  | hframe xs ys h ih =>
      rw [frames_append_cons h] at hf
      simp only [List.length_append, List.length_cons]
      rcases List.mem_cons.mp hf with rfl | hf
      · omega
      · have hlen := ih hf
        omega

end Frames

/-! ## Texts that are sent one after the other -/

section Texts

variable {β : Type u}

/-- A delimiter stands at the end of a text, if anywhere. -/
def Terminated (d : β) (text : List β) : Prop :=
  d ∉ text.dropLast

instance [DecidableEq β] (d : β) (text : List β) : Decidable (Terminated d text) :=
  inferInstanceAs (Decidable (_ ∉ _))

variable {d : β} {text front : List β} {texts : List (List β)}

/-- A text without a delimiter may go on. -/
theorem terminated_of_notMem (h : d ∉ text) : Terminated d text :=
  fun hmem => h (List.dropLast_subset text hmem)

/-- A part without a delimiter may come first. -/
theorem Terminated.append (h : Terminated d text) (hfront : d ∉ front) :
    Terminated d (front ++ text) := by
  by_cases hempty : text = []
  · subst hempty
    rw [List.append_nil]
    exact terminated_of_notMem hfront
  · rw [Terminated, List.dropLast_append_of_ne_nil hempty, List.mem_append, not_or]
    exact ⟨hfront, h⟩

/-- A text with its delimiter somewhere else than at the end has none. -/
theorem Terminated.notMem (h : Terminated d text) (hlast : text.getLast? ≠ some d) :
    d ∉ text := by
  cases hlookup : text.getLast? with
  | none => simp [List.getLast?_eq_none_iff.1 hlookup]
  | some b =>
      rcases List.getLast?_eq_some_iff.1 hlookup with ⟨front, rfl⟩
      rw [Terminated, List.dropLast_concat] at h
      rw [hlookup] at hlast
      rw [List.mem_append, List.mem_singleton, not_or]
      exact ⟨h, fun hd => hlast (congrArg some hd.symm)⟩

variable [DecidableEq β]

/-- The frames that texts make, and what is left; a text that does not end with the delimiter
stands in front of the next one. -/
def collect (d : β) (held : List β) : List (List β) → List (List β) × List β
  | [] => ([], held)
  | text :: texts =>
      if text.getLast? = some d then
        let more := collect d [] texts
        ((held ++ text.dropLast) :: more.1, more.2)
      else collect d (held ++ text) texts

/-- Every text whose delimiter is at its end makes exactly one frame. -/
theorem frames_flatten {held : List β} (hheld : d ∉ held)
    (htexts : ∀ text ∈ texts, Terminated d text) :
    (frames d (held ++ texts.flatten), rest d (held ++ texts.flatten)) = collect d held texts := by
  induction texts generalizing held with
  | nil =>
      rw [List.flatten_nil, List.append_nil, frames_of_notMem hheld, rest_of_notMem hheld]
      rfl
  | cons text texts ih =>
      have hfirst := htexts text List.mem_cons_self
      have hmore : ∀ text ∈ texts, Terminated d text := fun t ht =>
        htexts t (List.mem_cons_of_mem _ ht)
      rw [List.flatten_cons, ← List.append_assoc, collect]
      split <;> rename_i hlast
      · rcases List.getLast?_eq_some_iff.1 hlast with ⟨front, rfl⟩
        rw [Terminated, List.dropLast_concat] at hfirst
        have hframe : d ∉ held ++ front := by
          rw [List.mem_append, not_or]
          exact ⟨hheld, hfirst⟩
        have hsplit : held ++ (front ++ [d]) ++ texts.flatten =
            (held ++ front) ++ d :: texts.flatten := by simp
        have hempty := @ih [] List.not_mem_nil hmore
        rw [List.nil_append] at hempty
        rw [hsplit, frames_append_cons hframe, rest_append_cons hframe, ← hempty,
          List.dropLast_concat]
      · refine ih ?_ hmore
        rw [List.mem_append, not_or]
        exact ⟨hheld, hfirst.notMem hlast⟩

end Texts

/-! ## A receiver fed in chunks -/

section Feed

variable {β : Type u} [DecidableEq β] {m : Type v → Type v} [Monad m]
variable {σ : Type v} (d : β) (consume : σ → List β → m σ)

/-- Consume every frame that a buffered remainder and a new chunk complete. -/
def feed (buffer chunk : List β) (s : σ) : m σ :=
  (frames d (buffer ++ chunk)).foldlM consume s

variable {d consume}

/-- A remainder on its own completes no frame. -/
theorem feed_nil {buffer : List β} (hbuffer : d ∉ buffer) (s : σ) :
    feed d consume buffer [] s = pure s := by
  simp [feed, frames_of_notMem hbuffer]

variable [LawfulMonad m]

/-- Feeding a concatenation is feeding its parts, with the remainder carried along. -/
theorem feed_append (buffer xs ys : List β) (s : σ) :
    feed d consume buffer (xs ++ ys) s =
      feed d consume buffer xs s >>= feed d consume (rest d (buffer ++ xs)) ys := by
  simp only [feed, ← List.append_assoc]
  rw [frames_append (buffer ++ xs), List.foldlM_append]
  rfl

end Feed

end EpollChat
