import EpollChat.Config.Config

/-!
# What a settings file sets

A file of blank lines, comments and well-formed assignments is read as it was meant.  Of
the other lines {lit}`parse_line` drops those with nothing at all in front of or behind the
{lit}`=`, but it looks before the comment is cut off and the spaces are trimmed.

Main results:

- Theorem {lit}`config_round_trip`: well-formed files set what their assignments say.
- Theorem {lit}`settings_complete_iff`: which files leave no empty key and no empty value.
-/

namespace EpollChat

/-! ## Settings of short lines -/

section Short

variable {content line : Str} {kv : Str × Str}

/-- The parts of a line are not longer than the line. -/
theorem length_le_of_assignmentOf (h : assignmentOf line = some kv) :
    kv.1.length ≤ line.length ∧ kv.2.length ≤ line.length := by
  simp only [assignmentOf, Option.ite_none_left_eq_some, Option.some.injEq] at h
  rcases h with ⟨_, rfl⟩
  refine ⟨(List.takeWhile_sublist _).length_le, ?_⟩
  refine (List.takeWhile_sublist _).length_le.trans ?_
  exact ((List.drop_sublist _ _).trans (List.dropWhile_sublist _)).length_le

/-- The settings of a file whose lines are shorter than {lit}`2 ^ 31` bytes. -/
theorem settings_of_short (h : ∀ line ∈ Config.getlines content, line.length < 2 ^ 31) :
    settings content =
      .ok ((assignments content).map fun kv => (trimmed kv.1, trimmed kv.2)) := by
  refine mapM_eq_ok fun kv hkv => ?_
  rcases List.mem_filterMap.1 hkv with ⟨line, hline, hassignment⟩
  have hparts := length_le_of_assignmentOf hassignment
  have hshort := h line hline
  rw [trimAssignment, trimString_eq_trimmed (by omega), trimString_eq_trimmed (by omega)]
  rfl

/-- Lines are pieces between newlines. -/
theorem mem_splitOn_of_mem_getlines (h : line ∈ Config.getlines content) :
    line ∈ content.splitOn newline := by
  rw [Config.getlines, frames, rest] at h
  rcases List.mem_append.1 h with hframe | hrest
  · exact List.dropLast_subset _ hframe
  · split at hrest
    · cases hrest
    · rw [List.mem_singleton.1 hrest]
      exact List.getLast_mem _

/-- Only an empty piece is not a line. -/
theorem assignments_eq (content : Str) :
    assignments content = (content.splitOn newline).filterMap assignmentOf := by
  have hpieces : frames newline content ++ [rest newline content] = content.splitOn newline :=
    List.dropLast_append_getLast _
  rw [assignments, Config.getlines, ← hpieces, List.filterMap_append, List.filterMap_append]
  congr 1
  split <;> rename_i hrest
  · rw [hrest]
    rfl
  · rfl

end Short

/-! ## Well-formed files -/

def spaces (n : Nat) : Str :=
  List.replicate n space

/-- A text that neither begins nor ends with a space and holds no {lit}`#`. -/
structure IsText (text : Str) : Prop where
  nonempty : text ≠ []
  noHash : hashSign ∉ text
  first : text.head? ≠ some space
  last : text.getLast? ≠ some space

/-- The well-formed lines, each with what it is meant to set. -/
inductive ConfigLine : Str → Option (Str × Str) → Prop
  | blank (n : Nat) : ConfigLine (spaces n) none
  | comment (n : Nat) (text : Str) : ConfigLine (spaces n ++ hashSign :: text) none
  | assignment (m n p q : Nat) {key value tail : Str} (hkey : IsText key)
      (hequal : equalSign ∉ key) (hvalue : IsText value)
      (htail : tail = [] ∨ tail.head? = some hashSign) :
      ConfigLine
        (spaces m ++ key ++ spaces n ++ equalSign :: (spaces p ++ value ++ spaces q ++ tail))
        (some (key, value))

section WellFormed

variable {line key value tail : Str} {setting : Option (Str × Str)}

theorem notMem_spaces {b : UInt8} (hb : b ≠ space) (n : Nat) : b ∉ spaces n :=
  fun hmem => hb (List.eq_of_mem_replicate hmem)

theorem notMem_padded {b : UInt8} (hb : b ≠ space) {text : Str} (htext : b ∉ text) (m n : Nat) :
    b ∉ spaces m ++ text ++ spaces n := by
  rw [List.mem_append, List.mem_append, not_or, not_or]
  exact ⟨⟨notMem_spaces hb m, htext⟩, notMem_spaces hb n⟩

/-- A {lit}`=` behind a {lit}`#` assigns nothing. -/
theorem assignmentOf_comment {front : Str} (hequal : equalSign ∉ front) (text : Str) :
    assignmentOf (front ++ hashSign :: text) = none := by
  by_cases hmem : equalSign ∈ text
  · rcases eq_append_cons_of_mem hmem with ⟨behind, more, hbehind, rfl⟩
    have hkey : equalSign ∉ front ++ hashSign :: behind := by
      rw [List.mem_append, List.mem_cons, not_or, not_or]
      exact ⟨hequal, by decide, hbehind⟩
    have hassignment := assignmentOf_append_cons hkey more
    rw [List.append_assoc, List.cons_append] at hassignment
    rw [hassignment, if_pos (Or.inr (Or.inr (by simp)))]
  · apply assignmentOf_of_notMem
    rw [List.mem_append, List.mem_cons, not_or, not_or]
    exact ⟨hequal, by decide, hmem⟩

/-- A tail is a comment. -/
theorem takeWhile_tail (hvalue : hashSign ∉ value)
    (htail : tail = [] ∨ tail.head? = some hashSign) :
    ((value ++ tail).takeWhile fun b => b != hashSign) = value := by
  rcases htail with rfl | hhead
  · rw [List.append_nil, takeWhile_of_notMem hvalue]
  · rcases List.head?_eq_some_iff.1 hhead with ⟨comment, rfl⟩
    exact takeWhile_append_cons hvalue comment

/-- What a well-formed line assigns, trimmed, is what it is meant to set. -/
theorem ConfigLine.assignmentOf_eq (h : ConfigLine line setting) :
    (assignmentOf line).map (fun kv => (trimmed kv.1, trimmed kv.2)) = setting := by
  cases h with
  | blank n =>
      rw [assignmentOf_of_notMem (notMem_spaces (by decide) n)]
      rfl
  | comment n text =>
      rw [assignmentOf_comment (notMem_spaces (by decide) n)]
      rfl
  | @assignment m n p q key value tail hkey hequal hvalue htail =>
      have hfront : equalSign ∉ spaces m ++ key ++ spaces n :=
        notMem_padded (by decide) hequal m n
      have hhash : hashSign ∉ spaces m ++ key ++ spaces n :=
        notMem_padded (by decide) hkey.noHash m n
      have hbehind : hashSign ∉ spaces p ++ value ++ spaces q :=
        notMem_padded (by decide) hvalue.noHash p q
      have haccepted : ¬(spaces m ++ key ++ spaces n = [] ∨
          spaces p ++ value ++ spaces q ++ tail = [] ∨ hashSign ∈ spaces m ++ key ++ spaces n) := by
        rw [not_or, not_or]
        exact ⟨by simp [hkey.nonempty], by simp [hvalue.nonempty], hhash⟩
      rw [assignmentOf_append_cons hfront, if_neg haccepted, takeWhile_tail hbehind htail,
        Option.map_some, spaces, spaces, spaces, spaces,
        trimmed_padded hkey.nonempty hkey.first hkey.last,
        trimmed_padded hvalue.nonempty hvalue.first hvalue.last]

end WellFormed

/-- The settings of a file that joins well-formed lines. -/
theorem settings_joined {lines : List (Str × Option (Str × Str))} (hne : lines ≠ [])
    (hlines : ∀ l ∈ lines, ConfigLine l.1 l.2 ∧ newline ∉ l.1 ∧ l.1.length < 2 ^ 31) :
    settings ([newline].intercalate (lines.map Prod.fst)) = .ok (lines.filterMap Prod.snd) := by
  have hpieces : ([newline].intercalate (lines.map Prod.fst)).splitOn newline =
      lines.map Prod.fst := by
    refine List.splitOn_intercalate newline (fun line hline => ?_) (by simpa using hne)
    rcases List.mem_map.1 hline with ⟨l, hl, rfl⟩
    exact (hlines l hl).2.1
  have hshort : ∀ line ∈ Config.getlines ([newline].intercalate (lines.map Prod.fst)),
      line.length < 2 ^ 31 := by
    intro line hline
    have hmem := mem_splitOn_of_mem_getlines hline
    rw [hpieces] at hmem
    rcases List.mem_map.1 hmem with ⟨l, hl, rfl⟩
    exact (hlines l hl).2.2
  rw [settings_of_short hshort, assignments_eq, hpieces, List.filterMap_map, List.map_filterMap]
  congr 1
  exact List.filterMap_congr fun l hl => (hlines l hl).1.assignmentOf_eq

/-- A file that joins well-formed lines, each shorter than {lit}`2 ^ 31` bytes, is loaded
without a fault, and every key has the value of the last assignment to it, or its default
if there is none. -/
theorem config_round_trip {lines : List (Str × Option (Str × Str))}
    (hlines : ∀ l ∈ lines, ConfigLine l.1 l.2 ∧ newline ∉ l.1 ∧ l.1.length < 2 ^ 31) :
    ∃ config, Config.new.load (some ([newline].intercalate (lines.map Prod.fst))) =
        .ok (true, config) ∧
      ∀ key defaultValue, config.get key defaultValue =
        (lastValue key (lines.filterMap Prod.snd)).getD defaultValue := by
  by_cases hne : lines = []
  · subst hne
    exact ⟨.new, rfl, fun _ _ => rfl⟩
  · refine ⟨.ofSettings (lines.filterMap Prod.snd), ?_, Config.get_ofSettings _⟩
    rw [Config.load_new, settings_joined hne hlines]
    rfl

/-- The last line that sets a key wins. -/
theorem two_ports_read : ∃ config,
    Config.new.load (some (str " PORT = 1 # x\n\nPORT=a=b")) = .ok (true, config) ∧
      config.get (str "PORT") (str "8080") = str "a=b" ∧
      config.get (str "DAEMON") (str "false") = str "false" := by
  have hport : IsText (str "PORT") := ⟨by decide, by decide, by decide, by decide⟩
  have hpadded : ConfigLine (str " PORT = 1 # x") (some (str "PORT", str "1")) :=
    @ConfigLine.assignment 1 1 1 1 (str "PORT") (str "1") (str "# x") hport (by decide)
      ⟨by decide, by decide, by decide, by decide⟩ (Or.inr rfl)
  have hplain : ConfigLine (str "PORT=a=b") (some (str "PORT", str "a=b")) :=
    @ConfigLine.assignment 0 0 0 0 (str "PORT") (str "a=b") [] hport (by decide)
      ⟨by decide, by decide, by decide, by decide⟩ (Or.inl rfl)
  have hlines : ∀ l ∈ [(str " PORT = 1 # x", some (str "PORT", str "1")), ([], none),
      (str "PORT=a=b", some (str "PORT", str "a=b"))],
      ConfigLine l.1 l.2 ∧ newline ∉ l.1 ∧ l.1.length < 2 ^ 31 := by
    simp only [List.forall_mem_cons]
    exact ⟨⟨hpadded, by decide, by decide⟩, ⟨.blank 0, by decide, by decide⟩,
      ⟨hplain, by decide, by decide⟩, by simp⟩
  rcases config_round_trip hlines with ⟨config, hload, hget⟩
  exact ⟨config, hload, hget _ _, hget _ _⟩

/-! ## Half-empty settings -/

/-- Every line that assigns to the key has nothing for it. -/
def GivesNoValue (content key : Str) : Prop :=
  ∀ kv ∈ assignments content, trimString kv.1 = .ok key → trimString kv.2 = .ok []

section HalfEmpty

variable {content key value : Str} {kvs : List (Str × Str)}

/-- Every setting comes from a line. -/
theorem trimmed_of_mem_settings (h : settings content = .ok kvs) (hmem : (key, value) ∈ kvs) :
    ∃ kv ∈ assignments content, trimString kv.1 = .ok key ∧ trimString kv.2 = .ok value := by
  rcases mem_of_mapM_ok h hmem with ⟨kv, hkv, htrim⟩
  rcases exists_of_bind_ok htrim with ⟨key', hkey, hrest⟩
  rcases exists_of_bind_ok hrest with ⟨value', hvalue, hpair⟩
  cases hpair
  exact ⟨kv, hkv, hkey, hvalue⟩

/-- Where no stored value is empty, a key that is given no value has its default. -/
theorem get_of_givesNoValue (h : settings content = .ok kvs)
    (hcomplete : ∀ key value, lastValue key kvs = some value → key ≠ [] ∧ value ≠ [])
    (hkey : GivesNoValue content key) (defaultValue : Str) :
    (Config.ofSettings kvs).get key defaultValue = defaultValue := by
  rw [Config.get_ofSettings]
  cases hlast : lastValue key kvs with
  | none => rfl
  | some value =>
      rcases trimmed_of_mem_settings h (mem_of_lastValue hlast) with ⟨kv, hkv, hfirst, hsecond⟩
      have hempty := (hkey kv hkv hfirst).symm.trans hsecond
      exact absurd (Except.ok.inj hempty).symm (hcomplete key value hlast).2

end HalfEmpty

/-- For every file content: the file is loaded without a fault, no stored key and no stored
value is empty, and every key that the file gives no value has its default, if and only if
all keys and values of the file can be trimmed, and every assignment with an empty key or
an empty value is followed by one of a nonempty value to the same nonempty key. -/
theorem settings_complete_iff (content : Str) :
    (∃ config, Config.new.load (some content) = .ok (true, config) ∧
        (∀ key value, config.data.lookup key = some value → key ≠ [] ∧ value ≠ []) ∧
        ∀ key, GivesNoValue content key →
          ∀ defaultValue, config.get key defaultValue = defaultValue) ↔
      ∃ kvs, settings content = .ok kvs ∧
        ∀ before key value after, kvs = before ++ (key, value) :: after →
          key = [] ∨ value = [] → ∃ value', (key ≠ [] ∧ value' ≠ []) ∧ (key, value') ∈ after := by
  have hrepaired : ∀ kvs : List (Str × Str),
      (∀ before key value after, kvs = before ++ (key, value) :: after → key = [] ∨ value = [] →
        ∃ value', (key ≠ [] ∧ value' ≠ []) ∧ (key, value') ∈ after) ↔
      ∀ key value, lastValue key kvs = some value → key ≠ [] ∧ value ≠ [] := by
    intro kvs
    rw [forall_lastValue_iff]
    simp only [not_and_or, not_not]
  constructor
  · rintro ⟨config, hload, hcomplete, _⟩
    rw [Config.load_new] at hload
    rcases exists_of_map_ok hload with ⟨kvs, hkvs, hconfig⟩
    cases hconfig
    refine ⟨kvs, hkvs, (hrepaired kvs).2 fun key value hlast => hcomplete key value ?_⟩
    rw [Config.lookup_ofSettings, hlast]
  · rintro ⟨kvs, hkvs, hkept⟩
    have hcomplete := (hrepaired kvs).1 hkept
    refine ⟨.ofSettings kvs, ?_, fun key value hlookup => hcomplete key value ?_,
      fun key => get_of_givesNoValue hkvs hcomplete⟩
    · rw [Config.load_new, hkvs]
      rfl
    · rwa [Config.lookup_ofSettings] at hlookup

/-- Spaces, or a comment, behind the {lit}`=` are stored as an empty value, and spaces in
front of it as an empty key. -/
theorem blank_port_stored :
    GivesNoValue (str "PORT= \nPORT=#c\n =x") (str "PORT") ∧
      ∃ config, Config.new.load (some (str "PORT= \nPORT=#c\n =x")) = .ok (true, config) ∧
        config.data.lookup (str "PORT") = some [] ∧ config.data.lookup [] = some (str "x") ∧
        config.get (str "PORT") (str "8080") = [] := by
  have hsettings : settings (str "PORT= \nPORT=#c\n =x") =
      .ok [(str "PORT", []), (str "PORT", []), ([], str "x")] := by decide
  refine ⟨by unfold GivesNoValue; decide,
    .ofSettings [(str "PORT", []), (str "PORT", []), ([], str "x")], ?_, rfl, rfl, rfl⟩
  rw [Config.load_new, hsettings]
  rfl

end EpollChat
