import Mathlib.Algebra.Group.Int.Defs
import Mathlib.Algebra.Group.Nat.Defs
import Mathlib.Data.List.DropRight
import Mathlib.Tactic.Common

/-!
# utils/helper.cpp - Byte strings and {lit}`trim_string`

A {lit}`std::string` is a list of bytes.  {lit}`trim_string` mixes {lit}`size_t`
positions with 32-bit {lit}`int` counters; the model keeps the counters as
integers that fault when an increment or a decrement leaves the range of
{lit}`int`, and the conversions between the two types as the reductions modulo
a power of two that the language prescribes.

Main results:

- Theorem {lit}`trimString_eq`: the result and the faults of {lit}`trim_string` on
  strings of any length.
- Theorem {lit}`trimString_eq_trimmed`: below {lit}`2 ^ 31` bytes no counter
  overflows, no {lit}`erase` is out of range, and the result is the string
  without its outer spaces.
- Theorem {lit}`trimString_eq_nil_iff`: the strings that are trimmed to nothing.
- Theorem {lit}`trimmed_append`: what is removed on both sides is only spaces.
- Theorem {lit}`exactTrim_iff`: the counters hold the exact counts for the strings with
  fewer than {lit}`2 ^ 31` leading spaces and fewer than {lit}`2 ^ 31` bytes behind them.
- Theorem {lit}`trimString_outerSpaces`: {lit}`trim_string` removes exactly the outer
  spaces of every string below {lit}`2 ^ 31` bytes.
-/

namespace EpollChat

/-- A {lit}`std::string`: any bytes, of any length. -/
abbrev Str := List UInt8

/-- The bytes of an ASCII literal of the source. -/
def str (literal : String) : Str :=
  literal.toList.map fun c => UInt8.ofNat c.toNat

def space : UInt8 := 32
def newline : UInt8 := 10
def carriageReturn : UInt8 := 13

/-- What a C++ execution can run into instead of a result. -/
inductive Fault
  /-- a {lit}`Client*` is used although {lit}`clients_` no longer owns the client -/
  | danglingClient
  /-- {lit}`std::out_of_range`, thrown by {lit}`at`, {lit}`substr` or {lit}`erase` -/
  | outOfRange
  /-- {lit}`->` on the empty pointer that {lit}`rooms_[...]` has just created -/
  | nullRoom
  /-- an {lit}`int` counter leaves its range, which is undefined behaviour -/
  | signedOverflow
  /-- the step bound of a modelled loop is used up -/
  | outOfFuel
deriving DecidableEq, Repr

/-! ## Machine integers and string positions -/

/-- Conversion of a {lit}`size_t` to {lit}`int`. -/
def intOfSize (n : Nat) : Int :=
  Int.bmod n (2 ^ 32)

/-- Conversion of an {lit}`int` to {lit}`size_t`. -/
def sizeOfInt (i : Int) : Nat :=
  (i % 2 ^ 64).toNat

/-- {lit}`++` on an {lit}`int`. -/
def increment (i : Int) : Except Fault Int :=
  if i = 2 ^ 31 - 1 then .error .signedOverflow else .ok (i + 1)

/-- {lit}`--` on an {lit}`int`. -/
def decrement (i : Int) : Except Fault Int :=
  if i = -2 ^ 31 then .error .signedOverflow else .ok (i - 1)

/-- {lit}`s.erase(pos)`. -/
def eraseFrom (s : Str) (pos : Nat) : Except Fault Str :=
  if s.length < pos then .error .outOfRange else .ok (s.take pos)

/-- {lit}`s.erase(0, count)`; position 0 is always in range. -/
def eraseFront (s : Str) (count : Nat) : Str :=
  s.drop count

/-- {lit}`s.substr(pos, count)` -/
def substr (s : Str) (pos count : Nat) : Except Fault Str :=
  if s.length < pos then .error .outOfRange else .ok ((s.drop pos).take count)

/-- {lit}`s.substr(pos)` -/
def substrFrom (s : Str) (pos : Nat) : Except Fault Str :=
  if s.length < pos then .error .outOfRange else .ok (s.drop pos)

/-- A loop over {lit}`i` that looks for a byte; 0 stands for "not found".  The remaining
bytes are those from position {lit}`i` on. -/
def findByte (d : UInt8) : (remaining : Str) → (i : Nat) → Nat
  | [], _ => 0
  | b :: bs, i => if b = d then i else findByte d bs (i + 1)

section Scan

variable {d : UInt8} {xs : Str}

/-- What the scan finds lies among the scanned positions. -/
theorem findByte_lt {i : Nat} (h : findByte d xs i ≠ 0) :
    i ≤ findByte d xs i ∧ findByte d xs i < i + xs.length := by
  induction xs generalizing i with
  | nil => simp [findByte] at h
  | cons x xs ih =>
      unfold findByte at h ⊢
      split <;> rename_i hx
      · simp
      · rw [if_neg hx] at h
        have hrest := ih h
        simp only [List.length_cons]
        omega

/-- The scan stops at the first such byte. -/
theorem findByte_append_cons (h : d ∉ xs) (ys : Str) (i : Nat) :
    findByte d (xs ++ d :: ys) i = i + xs.length := by
  induction xs generalizing i with
  | nil => simp [findByte]
  | cons x xs ih =>
      rw [List.mem_cons, not_or] at h
      rw [List.cons_append, findByte, if_neg (Ne.symm h.1), ih h.2, List.length_cons]
      omega

theorem findByte_of_notMem (h : d ∉ xs) (i : Nat) : findByte d xs i = 0 := by
  induction xs generalizing i with
  | nil => rfl
  | cons x xs ih =>
      rw [List.mem_cons, not_or] at h
      rw [findByte, if_neg (Ne.symm h.1), ih h.2]

end Scan

/-! ## {lit}`trim_string` -/

/-- The first loop: one increment for each leading space. -/
def countLeading : Str → Int → Except Fault Int
  | [], startIndex => .ok startIndex
  | b :: bs, startIndex =>
      if b = space then (increment startIndex).bind (countLeading bs)
      else .ok startIndex

/-- The second loop runs down to index 1: one decrement for each trailing space. -/
def countTrailing (s : Str) : Nat → Int → Except Fault Int
  | 0, endIndex => .ok endIndex
  | i + 1, endIndex =>
      if s[i + 1]? = some space then (decrement endIndex).bind (countTrailing s i)
      else .ok endIndex

def trimString (s : Str) : Except Fault Str :=
  if s.isEmpty then .ok s
  else do
    let startIndex ← countLeading s 0
    let s := eraseFront s (sizeOfInt startIndex)
    if s.isEmpty then .ok s
    else do
      let endIndex ← countTrailing s (s.length - 1) (intOfSize s.length)
      eraseFrom s (sizeOfInt endIndex)

/-! ## What trimming means -/

def isSpace (b : UInt8) : Bool :=
  b == space

@[simp]
theorem isSpace_iff {b : UInt8} : isSpace b = true ↔ b = space := by
  simp [isSpace]

/-- A string without its leading and trailing spaces. -/
def trimmed (s : Str) : Str :=
  (s.dropWhile isSpace).rdropWhile isSpace

/-- Trimming removes spaces only. -/
theorem trimmed_append (s : Str) :
    s = s.takeWhile isSpace ++ trimmed s ++ (s.dropWhile isSpace).rtakeWhile isSpace := by
  rw [List.append_assoc, trimmed, List.rdropWhile_append_rtakeWhile]
  exact (List.takeWhile_append_dropWhile).symm

/-- Either nothing is left or the first byte is not a space. -/
theorem dropWhile_isSpace_cases (s : Str) :
    s.dropWhile isSpace = [] ∨
      ∃ b bs, s.dropWhile isSpace = b :: bs ∧ isSpace b = false := by
  induction s with
  | nil => exact Or.inl rfl
  | cons b bs ih =>
      by_cases hb : isSpace b = true
      · simpa [List.dropWhile_cons, hb] using ih
      · right
        exact ⟨b, bs, by simp [hb], by simpa only [Bool.not_eq_true] using hb⟩

theorem dropWhile_isSpace_eq_self {s : Str} (hfirst : s.head? ≠ some space) :
    s.dropWhile isSpace = s := by
  cases s with
  | nil => rfl
  | cons b bs =>
      have hb : isSpace b = false := by simpa [isSpace] using hfirst
      simp [hb]

/-- A string without outer spaces stays. -/
theorem trimmed_eq_self {s : Str} (hfirst : s.head? ≠ some space)
    (hlast : s.getLast? ≠ some space) : trimmed s = s := by
  rw [trimmed, dropWhile_isSpace_eq_self hfirst, List.rdropWhile_eq_self_iff]
  intro hne hspace
  exact hlast (by rw [List.getLast?_eq_some_getLast hne, isSpace_iff.1 hspace])

/-! ## The loops -/

/-- The number of leading spaces. -/
def leading (s : Str) : Nat :=
  (s.takeWhile isSpace).length

/-- The number of trailing spaces behind the leading ones. -/
def trailing (s : Str) : Nat :=
  ((s.dropWhile isSpace).rtakeWhile isSpace).length

/-- The conversion to {lit}`int` and back is exact below {lit}`2 ^ 31`. -/
theorem intOfSize_eq {n : Nat} (h : n < 2 ^ 31) : intOfSize n = n := by
  unfold intOfSize
  rw [Int.bmod_eq_of_le] <;> omega

theorem sizeOfInt_natCast {n : Nat} (h : n < 2 ^ 31) : sizeOfInt n = n := by
  unfold sizeOfInt
  omega

/-- A converted size is in the range of {lit}`int`. -/
theorem intOfSize_range (n : Nat) : -2 ^ 31 ≤ intOfSize n ∧ intOfSize n < 2 ^ 31 := by
  unfold intOfSize
  rw [Int.bmod_def]
  split <;> omega

/-- The first loop either counts the leading spaces or overflows. -/
theorem countLeading_eq (s : Str) {k : Nat} (hk : k < 2 ^ 31) :
    countLeading s k =
      if k + leading s < 2 ^ 31 then .ok ((k + leading s : Nat) : Int)
      else .error .signedOverflow := by
  induction s generalizing k with
  | nil => exact (if_pos hk).symm
  | cons b bs ih =>
      by_cases hb : b = space
      · subst hb
        have hleading : leading (space :: bs) = leading bs + 1 := rfl
        rw [countLeading, if_pos rfl, hleading, increment]
        by_cases hlast : k + 1 < 2 ^ 31
        · have hnext : countLeading bs ((k : Int) + 1) = _ := ih hlast
          rw [if_neg (by omega)]
          simp only [Except.bind, hnext]
          rw [Nat.add_assoc, Nat.add_comm 1]
        · rw [if_pos (by omega), if_neg (by omega)]
          rfl
      · have hspace : isSpace b = false := by simpa [isSpace] using hb
        have hleading : leading (b :: bs) = 0 := by simp [leading, hspace]
        rw [countLeading, if_neg hb, hleading, if_pos (by omega)]
        rfl

/-- The second loop either counts the trailing spaces behind the first byte or
overflows. -/
theorem countTrailing_eq {b : UInt8} {bs : Str} {i : Nat} {e : Int} (hi : i ≤ bs.length)
    (he : -2 ^ 31 ≤ e) :
    countTrailing (b :: bs) i e =
      if -2 ^ 31 ≤ e - ((bs.take i).rtakeWhile isSpace).length then
        .ok (e - ((bs.take i).rtakeWhile isSpace).length)
      else .error .signedOverflow := by
  induction i generalizing e with
  | zero =>
      have hnone : (((bs.take 0).rtakeWhile isSpace).length : Int) = 0 := rfl
      rw [countTrailing, hnone, Int.sub_zero, if_pos he]
  | succ i ih =>
      have hlt : i < bs.length := by omega
      have htake : bs.take (i + 1) = bs.take i ++ [bs[i]] := List.take_succ_eq_append_getElem hlt
      have hget : (b :: bs)[i + 1]? = some bs[i] := by simp [hlt]
      by_cases hb : bs[i] = space
      · have hspace : isSpace bs[i] = true := isSpace_iff.2 hb
        have hlength : ((bs.take (i + 1)).rtakeWhile isSpace).length =
            ((bs.take i).rtakeWhile isSpace).length + 1 := by
          rw [htake, List.rtakeWhile_concat_pos _ _ _ hspace, List.length_append]
          rfl
        rw [countTrailing, hget, hb, if_pos rfl, hlength, decrement]
        by_cases hlast : e = -2 ^ 31
        · rw [if_pos hlast, if_neg (by omega)]
          rfl
        · have hcount : e - 1 - (((bs.take i).rtakeWhile isSpace).length : Int) =
              e - ((((bs.take i).rtakeWhile isSpace).length + 1 : Nat) : Int) := by omega
          rw [if_neg hlast]
          simp only [Except.bind]
          rw [ih (by omega) (by omega), hcount]
      · have hspace : isSpace bs[i] = false := by simpa [isSpace] using hb
        have hnone : (((bs.take (i + 1)).rtakeWhile isSpace).length : Int) = 0 := by
          rw [htake, List.rtakeWhile_concat_neg _ _ _ (by simp [hspace])]
          rfl
        have hsome : some bs[i] ≠ some space := fun h => hb (Option.some.inj h)
        rw [countTrailing, hget, if_neg hsome, hnone, Int.sub_zero, if_pos he]

/-- A first byte that is not a space stays. -/
theorem rdropWhile_cons_of_not {b : UInt8} {bs : Str} (hb : isSpace b = false) :
    (b :: bs).rdropWhile isSpace = b :: bs.rdropWhile isSpace := by
  induction bs using List.reverseRecOn with
  | nil => simp [List.rdropWhile_singleton, hb]
  | append_singleton bs x ih =>
      by_cases hx : isSpace x = true
      · rw [← List.cons_append, List.rdropWhile_concat_pos _ _ _ hx,
          List.rdropWhile_concat_pos _ _ _ hx, ih]
      · rw [← List.cons_append, List.rdropWhile_concat_neg _ _ _ hx,
          List.rdropWhile_concat_neg _ _ _ hx, List.cons_append]

/-- A first byte that is not a space is no trailing space. -/
theorem rtakeWhile_cons_of_not {b : UInt8} {bs : Str} (hb : isSpace b = false) :
    (b :: bs).rtakeWhile isSpace = bs.rtakeWhile isSpace := by
  have hkeep : (b :: bs).rdropWhile isSpace = b :: bs.rdropWhile isSpace :=
    rdropWhile_cons_of_not hb
  have hall : (b :: bs).rdropWhile isSpace ++ (b :: bs).rtakeWhile isSpace = b :: bs :=
    List.rdropWhile_append_rtakeWhile
  have htail : bs.rdropWhile isSpace ++ bs.rtakeWhile isSpace = bs :=
    List.rdropWhile_append_rtakeWhile
  rw [hkeep, List.cons_append, List.cons.injEq] at hall
  exact List.append_cancel_left (hall.2.trans htail.symm)

/-- Erasing the leading spaces. -/
theorem drop_leading (s : Str) : s.drop (leading s) = s.dropWhile isSpace := by
  have hsplit : s.takeWhile isSpace ++ s.dropWhile isSpace = s :=
    List.takeWhile_append_dropWhile
  have hleft : (s.takeWhile isSpace ++ s.dropWhile isSpace).drop (s.takeWhile isSpace).length =
      s.dropWhile isSpace := List.drop_left
  rwa [hsplit] at hleft

theorem length_split (s : Str) :
    s.length = leading s + (trimmed s).length + trailing s := by
  have hlength := congrArg List.length (trimmed_append s)
  rwa [List.length_append, List.length_append] at hlength

theorem length_dropWhile (s : Str) :
    (s.dropWhile isSpace).length = (trimmed s).length + trailing s := by
  have hlength := congrArg List.length (List.rdropWhile_append_rtakeWhile (l := s.dropWhile isSpace)
    (p := isSpace))
  rw [List.length_append] at hlength
  exact hlength.symm

/-! ## Exact counters -/

/-- The two counters of {lit}`trim_string` hold the mathematical counts, and both
{lit}`erase` calls get a position in the string. -/
structure ExactTrim (s : Str) : Prop where
  /-- {lit}`start_index` after the first loop. -/
  startIndex : countLeading s 0 = .ok (leading s : Int)
  startErased : eraseFront s (sizeOfInt (leading s)) = s.dropWhile isSpace
  /-- {lit}`end_index` before the second loop. -/
  size : intOfSize (s.dropWhile isSpace).length = (s.dropWhile isSpace).length
  /-- {lit}`end_index` after the second loop. -/
  endIndex : s.dropWhile isSpace ≠ [] →
    countTrailing (s.dropWhile isSpace) ((s.dropWhile isSpace).length - 1)
      (intOfSize (s.dropWhile isSpace).length) = .ok ((trimmed s).length : Int)
  endInRange : sizeOfInt (trimmed s).length ≤ (s.dropWhile isSpace).length

theorem intOfSize_eq_iff {n : Nat} : intOfSize n = n ↔ n < 2 ^ 31 := by
  constructor
  · intro h
    have hrange := intOfSize_range n
    omega
  · exact intOfSize_eq

/-- The counters are exact if there are fewer than {lit}`2 ^ 31` leading spaces, and fewer
than {lit}`2 ^ 31` bytes behind them. -/
theorem exactTrim_iff {s : Str} :
    ExactTrim s ↔ leading s < 2 ^ 31 ∧ (s.dropWhile isSpace).length < 2 ^ 31 := by
  have hstart := countLeading_eq s (k := 0) (by omega)
  rw [Nat.zero_add] at hstart
  change countLeading s 0 = _ at hstart
  have hrest := length_dropWhile s
  constructor
  · intro h
    refine ⟨?_, intOfSize_eq_iff.1 h.size⟩
    by_contra hleading
    have hcount := h.startIndex
    rw [hstart, if_neg hleading] at hcount
    cases hcount
  · rintro ⟨hleading, hsize⟩
    refine ⟨?_, ?_, intOfSize_eq hsize, fun hne => ?_, ?_⟩
    · rw [hstart, if_pos hleading]
    · rw [eraseFront, sizeOfInt_natCast hleading, drop_leading]
    · rcases dropWhile_isSpace_cases s with hnil | ⟨b, bs, hcons, hb⟩
      · exact absurd hnil hne
      · have htrailing : trailing s = (bs.rtakeWhile isSpace).length := by
          rw [trailing, hcons, rtakeWhile_cons_of_not hb]
        have hlength : (s.dropWhile isSpace).length - 1 = bs.length := by simp [hcons]
        have hcount := @countTrailing_eq b bs _ _ le_rfl
          (intOfSize_range (s.dropWhile isSpace).length).1
        rw [List.take_length, ← htrailing, ← hcons, intOfSize_eq hsize, if_pos (by omega)] at hcount
        rw [hlength, intOfSize_eq hsize, hcount]
        congr 1
        omega
    · rw [sizeOfInt_natCast (by omega)]
      omega

/-- With exact counters {lit}`trim_string` removes exactly the outer spaces. -/
theorem ExactTrim.trimString_eq {s : Str} (h : ExactTrim s) : trimString s = .ok (trimmed s) := by
  by_cases hs : s = []
  · subst hs
    rfl
  simp only [trimString, List.isEmpty_iff, hs, if_false, bind, Except.bind, h.startIndex,
    h.startErased]
  by_cases hnil : s.dropWhile isSpace = []
  · rw [if_pos hnil, trimmed, hnil]
    rfl
  · have hsize := intOfSize_eq_iff.1 h.size
    have hrest := length_dropWhile s
    have hkeep : (s.dropWhile isSpace).take (trimmed s).length = trimmed s :=
      (List.prefix_iff_eq_take.mp (List.rdropWhile_prefix isSpace _)).symm
    rw [if_neg hnil, h.endIndex hnil]
    simp only [eraseFrom]
    rw [if_neg (Nat.not_lt.2 h.endInRange), sizeOfInt_natCast (by omega), hkeep]

/-- Below {lit}`2 ^ 31` bytes the counters are exact. -/
theorem exactTrim_of_short {s : Str} (h : s.length < 2 ^ 31) : ExactTrim s := by
  have hsplit := length_split s
  have hrest := length_dropWhile s
  exact exactTrim_iff.2 ⟨by omega, by omega⟩

/-- Below {lit}`2 ^ 31` bytes {lit}`trim_string` neither overflows nor throws, and
removes exactly the outer spaces. -/
theorem trimString_eq_trimmed {s : Str} (h : s.length < 2 ^ 31) :
    trimString s = .ok (trimmed s) :=
  (exactTrim_of_short h).trimString_eq

/-! ## The result for strings of any length -/

/-- The value of {lit}`end_index` after the second loop, if it does not overflow. -/
def endIndex (s : Str) : Int :=
  intOfSize (s.dropWhile isSpace).length - trailing s

theorem eraseFrom_eq_nil_iff {s : Str} (hs : s ≠ []) {pos : Nat} :
    eraseFrom s pos = .ok [] ↔ pos = 0 := by
  unfold eraseFrom
  split <;> rename_i hpos
  · simp only [reduceCtorEq, false_iff]
    omega
  · simp [hs]

/-- What {lit}`trim_string` does. -/
theorem trimString_eq (s : Str) :
    trimString s =
      if 2 ^ 31 ≤ leading s then .error .signedOverflow
      else if s.dropWhile isSpace = [] then .ok []
      else if endIndex s < -2 ^ 31 then .error .signedOverflow
      else eraseFrom (s.dropWhile isSpace) (sizeOfInt (endIndex s)) := by
  by_cases hs : s = []
  · subst hs
    rfl
  have hstart := countLeading_eq s (k := 0) (by omega)
  rw [Nat.zero_add] at hstart
  change countLeading s 0 = _ at hstart
  simp only [trimString, List.isEmpty_iff, hs, if_false, bind, Except.bind, hstart]
  by_cases hleading : 2 ^ 31 ≤ leading s
  · rw [if_neg (Nat.not_lt.2 hleading), if_pos hleading]
  · have hdrop : eraseFront s (sizeOfInt (leading s)) = s.dropWhile isSpace := by
      rw [eraseFront, sizeOfInt_natCast (by omega), drop_leading]
    rw [if_pos (Nat.not_le.1 hleading), if_neg hleading]
    simp only [hdrop]
    rcases dropWhile_isSpace_cases s with hnil | ⟨b, bs, hcons, hb⟩
    · rw [if_pos hnil, if_pos hnil, hnil]
    · have hne : s.dropWhile isSpace ≠ [] := by simp [hcons]
      have htrailing : trailing s = (bs.rtakeWhile isSpace).length := by
        rw [trailing, hcons, rtakeWhile_cons_of_not hb]
      have hend := @countTrailing_eq b bs _ _ le_rfl (intOfSize_range (b :: bs).length).1
      have hvalue : intOfSize (s.dropWhile isSpace).length - (trailing s : Int) = endIndex s := rfl
      rw [List.take_length, ← htrailing, ← hcons, hvalue] at hend
      have hlength : (s.dropWhile isSpace).length - 1 = bs.length := by simp [hcons]
      rw [if_neg hne, if_neg hne, hlength, hend]
      by_cases hrange : endIndex s < -2 ^ 31
      · rw [if_pos hrange, if_neg (Int.not_le.2 hrange)]
      · rw [if_neg hrange, if_pos (Int.not_lt.1 hrange)]

/-- Trimming adds no byte, whatever the length. -/
theorem mem_of_trimString {s t : Str} (h : trimString s = .ok t) {b : UInt8} (hb : b ∈ t) :
    b ∈ s := by
  rw [trimString_eq] at h
  by_cases hleading : 2 ^ 31 ≤ leading s
  · rw [if_pos hleading] at h
    cases h
  by_cases hnil : s.dropWhile isSpace = []
  · rw [if_neg hleading, if_pos hnil] at h
    cases h
    cases hb
  by_cases hoverflow : endIndex s < -2 ^ 31
  · rw [if_neg hleading, if_neg hnil, if_pos hoverflow] at h
    cases h
  · rw [if_neg hleading, if_neg hnil, if_neg hoverflow, eraseFrom] at h
    by_cases hrange : (s.dropWhile isSpace).length < sizeOfInt (endIndex s)
    · rw [if_pos hrange] at h
      cases h
    · rw [if_neg hrange] at h
      rw [← Except.ok.inj h] at hb
      exact (List.dropWhile_sublist isSpace).subset (List.mem_of_mem_take hb)

/-- From {lit}`2 ^ 31` bytes on the converted length is negative, and the last
{lit}`erase` throws. -/
theorem trimString_outOfRange {s : Str} (hfirst : s.head? ≠ some space)
    (hlast : s.getLast? ≠ some space) (hlong : 2 ^ 31 ≤ s.length) (hlen : s.length < 2 ^ 32) :
    trimString s = .error .outOfRange := by
  have hsplit := length_split s
  rw [trimmed_eq_self hfirst hlast] at hsplit
  have hleading : leading s = 0 := by omega
  have htrailing : trailing s = 0 := by omega
  have hfront : s.dropWhile isSpace = s := by
    rw [← drop_leading, hleading]
    rfl
  have hend : endIndex s = s.length - 2 ^ 32 := by
    unfold endIndex intOfSize
    rw [hfront, htrailing, Int.bmod_def, if_neg (by omega)]
    omega
  have hne : ¬s = [] := fun hnil => by
    rw [hnil, List.length_nil] at hlong
    omega
  have hsize : s.length < sizeOfInt (endIndex s) := by
    rw [hend, sizeOfInt]
    omega
  have hstart : ¬2 ^ 31 ≤ leading s := by omega
  have hrange : ¬endIndex s < -2 ^ 31 := by omega
  rw [trimString_eq, if_neg hstart, hfront, if_neg hne, if_neg hrange, eraseFrom, if_pos hsize]

/-- With {lit}`2 ^ 31` or more spaces on one side a counter overflows, or the last
{lit}`erase` throws. -/
theorem trimString_wide {s : Str} (hlen : s.length < 2 ^ 63)
    (hwide : 2 ^ 31 ≤ leading s ∨ 2 ^ 31 ≤ trailing s) : ∃ e, trimString s = .error e := by
  rw [trimString_eq]
  by_cases hleading : 2 ^ 31 ≤ leading s
  · exact ⟨_, if_pos hleading⟩
  have htrailing : 2 ^ 31 ≤ trailing s := hwide.resolve_left hleading
  have hnil : ¬s.dropWhile isSpace = [] := by
    intro hnil
    rw [trailing, hnil] at htrailing
    exact absurd htrailing (by decide)
  rw [if_neg hleading, if_neg hnil]
  by_cases hoverflow : endIndex s < -2 ^ 31
  · exact ⟨_, if_pos hoverflow⟩
  · have hsplit := length_split s
    have hrest := length_dropWhile s
    have hrange := intOfSize_range (s.dropWhile isSpace).length
    have hpos : (s.dropWhile isSpace).length < sizeOfInt (endIndex s) := by
      unfold sizeOfInt endIndex at *
      omega
    rw [if_neg hoverflow, eraseFrom, if_pos hpos]
    exact ⟨_, rfl⟩

/-- The strings that are trimmed to nothing: those whose inner part has a length that
is lost in the conversion to {lit}`int`, in particular all strings of spaces only. -/
theorem trimString_eq_nil_iff (s : Str) :
    trimString s = .ok [] ↔
      leading s < 2 ^ 31 ∧ trailing s < 2 ^ 31 ∧ 2 ^ 32 ∣ (trimmed s).length := by
  have hrest := length_dropWhile s
  rw [trimString_eq]
  by_cases hleading : 2 ^ 31 ≤ leading s
  · rw [if_pos hleading]
    constructor
    · intro h
      cases h
    · intro h
      exact absurd h.1 (Nat.not_lt.2 hleading)
  rw [if_neg hleading]
  by_cases hnil : s.dropWhile isSpace = []
  · have htrimmed : trimmed s = [] := by
      rw [trimmed, hnil]
      rfl
    have htrailing : trailing s = 0 := by
      rw [trailing, hnil]
      rfl
    rw [if_pos hnil, htrimmed, htrailing]
    exact iff_of_true rfl ⟨Nat.not_le.1 hleading, by decide, Nat.dvd_zero _⟩
  rw [if_neg hnil]
  have hzero : endIndex s = 0 ↔ trailing s < 2 ^ 31 ∧ 2 ^ 32 ∣ (trimmed s).length := by
    unfold endIndex intOfSize
    rw [hrest, Int.bmod_def]
    split <;> omega
  have hrange := intOfSize_range (s.dropWhile isSpace).length
  by_cases hoverflow : endIndex s < -2 ^ 31
  · rw [if_pos hoverflow, ← hzero]
    constructor
    · intro h
      cases h
    · intro h
      omega
  · have hsize : sizeOfInt (endIndex s) = 0 ↔ endIndex s = 0 := by
      unfold sizeOfInt endIndex at *
      omega
    rw [if_neg hoverflow, ← hzero, ← hsize, eraseFrom_eq_nil_iff hnil]
    exact (and_iff_right (Nat.not_le.1 hleading)).symm

/-! ## What is left -/

/-- Nothing is left exactly of a string of spaces. -/
theorem trimmed_eq_nil_iff {s : Str} : trimmed s = [] ↔ ∀ b ∈ s, b = space := by
  rw [trimmed, List.rdropWhile_eq_nil_iff]
  constructor
  · intro hrest b hb
    rcases dropWhile_isSpace_cases s with hnil | ⟨x, xs, hcons, hx⟩
    · exact isSpace_iff.1 (List.dropWhile_eq_nil_iff.1 hnil b hb)
    · have hspace := hrest x (by simp [hcons])
      rw [hx] at hspace
      cases hspace
  · intro hall b hb
    exact isSpace_iff.2 (hall b ((List.dropWhile_sublist isSpace).subset hb))

theorem trimmed_head (s : Str) : (trimmed s).head? ≠ some space := by
  rcases dropWhile_isSpace_cases s with hnil | ⟨b, bs, hcons, hb⟩
  · simp [trimmed, hnil]
  · rw [trimmed, hcons, rdropWhile_cons_of_not hb, List.head?_cons]
    intro hspace
    rw [isSpace_iff.2 (Option.some.inj hspace)] at hb
    cases hb

theorem trimmed_getLast (s : Str) : (trimmed s).getLast? ≠ some space := by
  intro hlast
  rcases List.getLast?_eq_some_iff.1 hlast with ⟨front, hfront⟩
  have hne : trimmed s ≠ [] := by simp [hfront]
  have hnot := List.rdropWhile_last_not isSpace (s.dropWhile isSpace) hne
  rw [List.getLast?_eq_some_getLast hne] at hlast
  exact hnot (isSpace_iff.2 (Option.some.inj hlast))

theorem rdropWhile_append_spaces (t : Str) (n : Nat) :
    (t ++ List.replicate n space).rdropWhile isSpace = t.rdropWhile isSpace := by
  induction n with
  | zero => simp
  | succ n ih =>
      rw [List.replicate_succ', ← List.append_assoc,
        List.rdropWhile_concat_pos _ _ _ (isSpace_iff.2 rfl), ih]

/-- Spaces around a text that has none at its ends are what trimming removes. -/
theorem trimmed_padded {t : Str} (hne : t ≠ []) (hfirst : t.head? ≠ some space)
    (hlast : t.getLast? ≠ some space) (m n : Nat) :
    trimmed (List.replicate m space ++ t ++ List.replicate n space) = t := by
  have hfront : (t ++ List.replicate n space).dropWhile isSpace = t ++ List.replicate n space := by
    apply dropWhile_isSpace_eq_self
    rwa [List.head?_append_of_ne_nil t hne]
  have hself := trimmed_eq_self hfirst hlast
  rw [trimmed, dropWhile_isSpace_eq_self hfirst] at hself
  rw [trimmed, List.append_assoc,
    List.dropWhile_append_of_pos fun b hb => isSpace_iff.2 (List.eq_of_mem_replicate hb), hfront,
    rdropWhile_append_spaces, hself]

/-- For every string below {lit}`2 ^ 31` bytes: {lit}`trim_string` cuts off spaces on both
sides, what is left is empty or neither begins nor ends with a space, it is empty exactly
if the string is one of spaces, trimming it again changes nothing, and all index
arithmetic is exact and in range. -/
theorem trimString_outerSpaces {s : Str} (h : s.length < 2 ^ 31) :
    ∃ a t b, trimString s = .ok t ∧ s = a ++ t ++ b ∧ (∀ x ∈ a, x = space) ∧
      (∀ x ∈ b, x = space) ∧ (t = [] ∨ t.head? ≠ some space ∧ t.getLast? ≠ some space) ∧
      (t = [] ↔ ∀ x ∈ s, x = space) ∧ trimString t = .ok t ∧ ExactTrim s := by
  have hsplit := length_split s
  refine ⟨_, trimmed s, _, trimString_eq_trimmed h, trimmed_append s, ?_, ?_, ?_,
    trimmed_eq_nil_iff, ?_, exactTrim_of_short h⟩
  · intro x hx
    exact isSpace_iff.1 (List.mem_takeWhile_imp hx)
  · intro x hx
    exact isSpace_iff.1 (List.mem_rtakeWhile_imp hx)
  · exact Or.inr ⟨trimmed_head s, trimmed_getLast s⟩
  · rw [trimString_eq_trimmed (by omega), trimmed_eq_self (trimmed_head s) (trimmed_getLast s)]

theorem padded_outerSpaces : trimString (str "  hello  world  ") = .ok (str "hello  world") ∧
    ExactTrim (str "  hello  world  ") := by
  have hshort : (str "  hello  world  ").length < 2 ^ 31 := by decide
  rcases trimString_outerSpaces hshort with ⟨_, _, _, _, _, _, _, _, _, _, hexact⟩
  refine ⟨?_, hexact⟩
  rw [trimString_eq_trimmed hshort]
  decide

end EpollChat
