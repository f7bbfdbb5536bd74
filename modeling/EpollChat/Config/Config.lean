import Mathlib.Data.List.AList
import EpollChat.Library.Assignments
import EpollChat.Library.Framing
import EpollChat.Library.Outcome
import EpollChat.Utils.Helper

/-!
# config/config.cpp - The settings file

{lit}`parse_line` works with the positions of the first {lit}`#` and the first {lit}`=` of
a line; {lit}`assignmentOf` says what a line assigns in terms of its text.

Main results:

- Theorem {lit}`parseLine_eq`: {lit}`parse_line` stores the assignment of its line.
- Theorem {lit}`load_eq`: {lit}`load` stores the settings of the file, in order.
-/

namespace EpollChat

def hashSign : UInt8 := 35
def equalSign : UInt8 := 61

/-- {lit}`Config`, with its only field {lit}`data_`. -/
structure Config where
  data : AList fun _ : Str => Str

/-- A fresh {lit}`Config`. -/
def Config.new : Config :=
  ⟨∅⟩

/-- The loop over {lit}`i` that looks for {lit}`=`. -/
def findEqual : (remaining : Str) → (i : Nat) → Nat :=
  findByte equalSign

/-- {lit}`s.erase(pos)` at a position that {lit}`find` has returned; {lit}`npos` is out of
range. -/
def eraseFound (s : Str) : Option Nat → Except Fault Str
  | none => .error .outOfRange
  | some pos => eraseFrom s pos

/-- The statement under {lit}`if (hash_sign_index != std::string::npos)`. -/
def eraseComment (hashSignIndex : Option Nat) (value : Str) : Except Fault Str :=
  if hashSignIndex = none then .ok value else eraseFound value (value.idxOf? hashSign)

namespace Config

/-- {lit}`npos`, here none, is not 0 and lies behind every position. -/
def parseLine (c : Config) (line : Str) : Except Fault Config :=
  if line = [] then .ok c
  else
    let hashSignIndex := line.idxOf? hashSign
    if hashSignIndex = some 0 then .ok c
    else
      let equalSignIndex := findEqual line 0
      if equalSignIndex = 0 ∨ equalSignIndex = line.length - 1 then .ok c
      else if hashSignIndex.any (· < equalSignIndex) then .ok c
      else do
        let key ← substr line 0 equalSignIndex
        let value ← substrFrom line (equalSignIndex + 1)
        let value ← eraseComment hashSignIndex value
        let key ← trimString key
        let value ← trimString value
        return { c with data := c.data.insert key value }

/-- The lines {lit}`std::getline` reads: behind the last newline there is one only if it
is not empty. -/
def getlines (content : Str) : List Str :=
  frames newline content ++ if rest newline content = [] then [] else [rest newline content]

/-- The content is none where the file cannot be opened. -/
def load (c : Config) : Option Str → Except Fault (Bool × Config)
  | none => .ok (false, c)
  | some content => do
      let c ← (getlines content).foldlM
        (fun c line => if line = [] then .ok c else c.parseLine line) c
      return (true, c)

/-- {lit}`Config::get`. -/
def get (c : Config) (key defaultValue : Str) : Str :=
  match c.data.lookup key with
  | some value => value
  | none => defaultValue

end Config

/-! ## What a line assigns -/

/-- The text in front of the first {lit}`=` and the text behind it, up to a {lit}`#`, unless
the line begins or ends with the {lit}`=` or has a {lit}`#` in front of it. -/
def assignmentOf (line : Str) : Option (Str × Str) :=
  let key := line.takeWhile fun b => b != equalSign
  let behind := (line.dropWhile fun b => b != equalSign).drop 1
  if key = [] ∨ behind = [] ∨ hashSign ∈ key then none
  else some (key, behind.takeWhile fun b => b != hashSign)

/-- The key and the value of an assignment, without outer spaces. -/
def trimAssignment (kv : Str × Str) : Except Fault (Str × Str) := do
  let key ← trimString kv.1
  let value ← trimString kv.2
  return (key, value)

/-- What a file assigns, line after line. -/
def assignments (content : Str) : List (Str × Str) :=
  (Config.getlines content).filterMap assignmentOf

/-- The keys and values of a file, in order. -/
def settings (content : Str) : Except Fault (List (Str × Str)) :=
  (assignments content).mapM trimAssignment

/-! ### Shapes of lines -/

section Shapes

variable {line key more value comment : Str}

/-- A line without {lit}`=` assigns nothing. -/
theorem assignmentOf_of_notMem (h : equalSign ∉ line) : assignmentOf line = none := by
  simp [assignmentOf, dropWhile_of_notMem h]

/-- What the line of a key and a value assigns. -/
theorem assignmentOf_append_cons (h : equalSign ∉ key) (more : Str) :
    assignmentOf (key ++ equalSign :: more) =
      if key = [] ∨ more = [] ∨ hashSign ∈ key then none
      else some (key, more.takeWhile fun b => b != hashSign) := by
  simp only [assignmentOf, takeWhile_append_cons h, dropWhile_append_cons h, List.drop_one,
    List.tail_cons]

end Shapes

namespace Config

variable {c : Config} {line key more value : Str}

/-- Store the assignment of a line. -/
def assign (c : Config) (kv : Str × Str) : Except Fault Config :=
  (trimAssignment kv).map fun kv => { c with data := c.data.insert kv.1 kv.2 }

/-- A line without an equal sign is ignored. -/
theorem parseLine_of_notMem (h : equalSign ∉ line) : c.parseLine line = .ok c := by
  have hzero : findEqual line 0 = 0 := findByte_of_notMem h 0
  unfold parseLine
  simp only [hzero, true_or, if_true]
  split
  · rfl
  · split <;> rfl

/-- A {lit}`#` in front of the {lit}`=`. -/
theorem parseLine_commented (hkey : equalSign ∉ key) (hhash : hashSign ∈ key) :
    c.parseLine (key ++ equalSign :: more) = .ok c := by
  rcases eq_append_cons_of_mem hhash with ⟨front, behind, hfront, rfl⟩
  have hindex : (front ++ hashSign :: behind ++ equalSign :: more).idxOf? hashSign =
      some front.length := by
    rw [List.append_assoc, List.cons_append, idxOf?_append_cons hfront]
  have hequal : findEqual (front ++ hashSign :: behind ++ equalSign :: more) 0 =
      (front ++ hashSign :: behind).length := by
    rw [findEqual, findByte_append_cons hkey, Nat.zero_add]
  have hbefore : front.length < (front ++ hashSign :: behind).length := by simp
  unfold parseLine
  simp only [hindex, hequal, Option.any_some, hbefore, decide_true, if_true]
  split_ifs <;> rfl

/-- A line that begins with an equal sign is ignored. -/
theorem parseLine_equal_first : c.parseLine (equalSign :: more) = .ok c := by
  have hzero : findEqual (equalSign :: more) 0 = 0 :=
    @findByte_append_cons equalSign [] (by simp) more 0
  unfold parseLine
  simp only [hzero, true_or, if_true]
  split_ifs <;> rfl

/-- A line whose only equal sign comes last is ignored. -/
theorem parseLine_equal_last (hkey : equalSign ∉ key) :
    c.parseLine (key ++ [equalSign]) = .ok c := by
  have hlast : findEqual (key ++ [equalSign]) 0 = (key ++ [equalSign]).length - 1 := by
    rw [findEqual, findByte_append_cons hkey, Nat.zero_add, List.length_append]
    rfl
  unfold parseLine
  simp only [hlast, or_true, if_true]
  split_ifs <;> rfl

theorem substr_key (key more : Str) :
    substr (key ++ equalSign :: more) 0 key.length = .ok key := by
  rw [substr, if_neg (Nat.not_lt_zero _), List.drop_zero, List.take_left]

theorem substrFrom_key (key more : Str) :
    substrFrom (key ++ equalSign :: more) (key.length + 1) = .ok more := by
  have hlength : ¬(key ++ equalSign :: more).length < key.length + 1 := by simp
  have hdrop : (key ++ equalSign :: more).drop (key.length + 1) = more := by
    rw [← List.drop_drop, List.drop_left]
    rfl
  rw [substrFrom, if_neg hlength, hdrop]

theorem hash_notMem (hkey : hashSign ∉ key) (hvalue : hashSign ∉ value) :
    hashSign ∉ key ++ equalSign :: value := by
  rw [List.mem_append, List.mem_cons, not_or, not_or]
  exact ⟨hkey, by decide, hvalue⟩

/-- The value ends at the first {lit}`#` of the line, which is the first one behind the
{lit}`=`. -/
theorem eraseComment_eq (hhash : hashSign ∉ key) :
    eraseComment ((key ++ equalSign :: more).idxOf? hashSign) more =
      .ok (more.takeWhile fun b => b != hashSign) := by
  unfold eraseComment
  by_cases hmem : hashSign ∈ more
  · rcases eq_append_cons_of_mem hmem with ⟨value, comment, hvalue, rfl⟩
    have hfound : (key ++ equalSign :: (value ++ hashSign :: comment)).idxOf? hashSign ≠ none := by
      rw [ne_eq, List.idxOf?_eq_none_iff]
      simp
    have hrange : ¬(value ++ hashSign :: comment).length < value.length := by simp
    rw [if_neg hfound, idxOf?_append_cons hvalue, eraseFound, eraseFrom, if_neg hrange,
      List.take_left, takeWhile_append_cons hvalue]
  · have hnone := List.idxOf?_eq_none_iff.2 (hash_notMem hhash hmem)
    rw [if_pos hnone, takeWhile_of_notMem hmem]

/-- A {lit}`#` behind the {lit}`=` lies behind it. -/
theorem hash_behind (hhash : hashSign ∉ key) :
    (key ++ equalSign :: more).idxOf? hashSign ≠ some 0 ∧
      ((key ++ equalSign :: more).idxOf? hashSign).any (· < key.length) = false := by
  by_cases hmem : hashSign ∈ more
  · rcases eq_append_cons_of_mem hmem with ⟨value, comment, hvalue, rfl⟩
    have hindex := idxOf?_append_cons (hash_notMem hhash hvalue) comment
    rw [List.append_assoc, List.cons_append] at hindex
    rw [hindex]
    simp only [List.length_append, List.length_cons, ne_eq, Option.some.injEq, Option.any_some,
      decide_eq_false_iff_not]
    omega
  · have hnone := List.idxOf?_eq_none_iff.2 (hash_notMem hhash hmem)
    simp [hnone]

/-- A line with a key and a value is an assignment, up to a hash sign. -/
theorem parseLine_accepted (hequal : equalSign ∉ key) (hhash : hashSign ∉ key) (hkey : key ≠ [])
    (hmore : more ≠ []) :
    c.parseLine (key ++ equalSign :: more) =
      c.assign (key, more.takeWhile fun b => b != hashSign) := by
  have hline : key ++ equalSign :: more ≠ [] := by simp
  have hindex : findEqual (key ++ equalSign :: more) 0 = key.length := by
    rw [findEqual, findByte_append_cons hequal, Nat.zero_add]
  have hpos : 0 < key.length := List.length_pos_iff.2 hkey
  have hmorePos : 0 < more.length := List.length_pos_iff.2 hmore
  have hinside : ¬(key.length = 0 ∨ key.length = (key ++ equalSign :: more).length - 1) := by
    rw [List.length_append, List.length_cons]
    omega
  have hhashBehind := @hash_behind key more hhash
  unfold parseLine
  simp only [if_neg hline, hindex]
  rw [if_neg hhashBehind.1, if_neg hinside, hhashBehind.2, if_neg Bool.false_ne_true, substr_key,
    substrFrom_key, assign, trimAssignment]
  simp only [bind, Except.bind, eraseComment_eq hhash]
  cases trimString key with
  | error e => rfl
  | ok key => cases trimString (more.takeWhile fun b => b != hashSign) <;> rfl

/-- {lit}`parse_line` stores what its line assigns, and does nothing if it assigns
nothing. -/
theorem parseLine_eq (c : Config) (line : Str) :
    c.parseLine line =
      match assignmentOf line with
      | none => .ok c
      | some kv => c.assign kv := by
  by_cases hmem : equalSign ∈ line
  · rcases eq_append_cons_of_mem hmem with ⟨key, more, hequal, rfl⟩
    rw [assignmentOf_append_cons hequal]
    by_cases hhash : hashSign ∈ key
    · rw [if_pos (Or.inr (Or.inr hhash)), parseLine_commented hequal hhash]
    by_cases hkey : key = []
    · subst hkey
      rw [if_pos (Or.inl rfl)]
      exact parseLine_equal_first
    by_cases hmore : more = []
    · subst hmore
      rw [if_pos (Or.inr (Or.inl rfl)), parseLine_equal_last hequal]
    · rw [if_neg (by simp [hkey, hmore, hhash]), parseLine_accepted hequal hhash hkey hmore]
  · rw [assignmentOf_of_notMem hmem, parseLine_of_notMem hmem]

/-! ### The whole file -/

/-- The table a list of settings makes. -/
def ofSettings (kvs : List (Str × Str)) : Config :=
  ⟨assignAll ∅ kvs⟩

theorem foldl_insert (c : Config) (kvs : List (Str × Str)) :
    kvs.foldl (fun c kv => ({ c with data := c.data.insert kv.1 kv.2 } : Config)) c =
      ⟨assignAll c.data kvs⟩ := by
  induction kvs generalizing c with
  | nil => rfl
  | cons kv kvs ih => exact ih _

/-- {lit}`load` stores the settings of the file, in order, or fails where one of them cannot
be trimmed. -/
theorem load_eq (c : Config) (content : Str) :
    c.load (some content) =
      (settings content).map fun kvs => (true, ⟨assignAll c.data kvs⟩) := by
  have hfold : (getlines content).foldlM
      (fun (c : Config) line => if line = [] then .ok c else c.parseLine line) c =
      (assignments content).foldlM assign c := by
    rw [assignments, List.foldlM_filterMap]
    congr 1
    funext c line
    by_cases hline : line = []
    · subst hline
      rfl
    · rw [if_neg hline, parseLine_eq]
      cases assignmentOf line <;> rfl
  have hstore : (assignments content).foldlM assign c =
      (settings content).map fun kvs => (⟨assignAll c.data kvs⟩ : Config) := by
    refine (foldlM_map_eq _ _ c).trans ?_
    simp only [foldl_insert]
    rfl
  simp only [load, bind, Except.bind, hfold, hstore]
  cases settings content <;> rfl

/-- Loading a file into a new object comes to its settings. -/
theorem load_new (content : Str) :
    Config.new.load (some content) = (settings content).map fun kvs => (true, ofSettings kvs) :=
  load_eq new content

/-- The last value of a key counts. -/
theorem lookup_ofSettings (kvs : List (Str × Str)) (key : Str) :
    (ofSettings kvs).data.lookup key = lastValue key kvs := by
  rw [ofSettings, lookup_assignAll, AList.lookup_empty, Option.or_none]

/-- {lit}`get` returns the last value of a key. -/
theorem get_ofSettings (kvs : List (Str × Str)) (key defaultValue : Str) :
    (ofSettings kvs).get key defaultValue = (lastValue key kvs).getD defaultValue := by
  unfold get
  rw [lookup_ofSettings]
  cases lastValue key kvs <;> rfl

end Config

end EpollChat
