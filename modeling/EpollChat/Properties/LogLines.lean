import EpollChat.Properties.LogFile
import EpollChat.Properties.Wire
import EpollChat.Server.Entries

/-!
# The log of a server

What clients send gets into the log: their names, and what they say aloud.  They cannot forge
an entry with it, as a line of a client has no newline in it, and every entry is one line of
the log.  Somebody who reads the log can therefore tell who is connected, and under which
name.

Main results:

- Theorem {lit}`step_attends`: the entries of a step tell how it changes who is connected.
- Theorem {lit}`log_unforgeable`: the lines of the log are its entries.
- Theorem {lit}`attendance_of_log`: the log file tells who is connected.
-/

namespace EpollChat

open ChatServer

/-! ## Calls -/

def closeBracket : UInt8 := 93

/-- A call of the logger without the end of its line. -/
def LogCall.body (call : LogCall) : Str :=
  str "[" ++ call.stamp ++ str "] [chat_server] [" ++ call.level.name ++ str "] " ++ call.text

/-- A line of the log is a body and a newline. -/
theorem LogCall.line_eq (call : LogCall) : call.line = call.body ++ [newline] :=
  rfl

/-- A date or a time: one line, without a bracket. -/
structure Stamp (stamp : Str) : Prop where
  newline_notMem : newline ∉ stamp
  bracket_notMem : closeBracket ∉ stamp

/-- The call logs the entry, with details on the same line. -/
structure Entry.LoggedBy (entry : Entry) (call : LogCall) : Prop where
  level : call.level = entry.level
  text : ∃ detail, newline ∉ detail ∧ call.text = entry.text detail
  stamp : Stamp call.stamp

/-- What the clients have chosen of an entry has no newline in it. -/
def Entry.Tame : Entry → Prop
  | .named _ nickname => newline ∉ nickname
  | .said nickname text => newline ∉ nickname ∧ newline ∉ text
  | _ => True

section Texts

/-- A number is on one line. -/
theorem newline_notMem_int (i : Int) : newline ∉ intToString i := by
  cases i with
  | ofNat n => exact newline_notMem_number n
  | negSucc n =>
      have hsign : intToString (.negSucc n) = str "-" ++ intToString (n + 1 : Nat) := by
        change str ("-" ++ Nat.repr (n + 1)) = str "-" ++ str (Nat.repr (n + 1))
        rw [str, String.toList_append, List.map_append]
        rfl
      rw [hsign]
      exact notMem_append (by decide) (newline_notMem_number (n + 1))

/-- An opening is on one line. -/
theorem newline_notMem_opening (entry : Entry) : newline ∉ entry.opening := by
  have hopenings : ∀ p ∈ openings, newline ∉ p := by decide +kernel
  exact hopenings _ (opening_mem entry)

/-- An entry is one line. -/
theorem Entry.Tame.text {entry : Entry} (h : entry.Tame) {detail : Str}
    (hdetail : newline ∉ detail) :
    newline ∉ entry.text detail := by
  apply notMem_append (newline_notMem_opening entry)
  cases entry with
  | running port => exact newline_notMem_int port
  | waiting => exact List.not_mem_nil
  | stopped => exact List.not_mem_nil
  | connection fd =>
      apply notMem_append (notMem_append (notMem_append hdetail (by decide)) ?_) (by decide)
      exact newline_notMem_number fd
  | disconnected fd => exact newline_notMem_number fd
  | named fd nickname =>
      exact notMem_append (notMem_append (newline_notMem_number fd) (by decide)) h
  | said nickname text => exact notMem_append (notMem_append h.1 (by decide)) h.2
  | failed call => exact hdetail

/-- A body is on one line if its text is. -/
theorem newline_notMem_body {call : LogCall} (hstamp : Stamp call.stamp)
    (htext : newline ∉ call.text) : newline ∉ call.body := by
  refine notMem_append (notMem_append (notMem_append (notMem_append (notMem_append
    (by decide) hstamp.newline_notMem) (by decide)) ?_) (by decide)) htext
  cases call.level <;> decide

end Texts

/-! ## Numbers -/

/-- The number that a text begins with. -/
def readNumber (s : Str) : Nat :=
  decimalValue (s.takeWhile isDigit)

/-- The number in front of the last byte. -/
def readLastNumber (s : Str) : Nat :=
  decimalValue (s.dropLast.reverse.takeWhile isDigit).reverse

section Numbers

variable {n : Nat}

theorem intToString_eq (n : Nat) :
    intToString n = (Nat.toDigits 10 n).map fun c => UInt8.ofNat c.toNat := by
  have hrepr : toString (n : Int) = Nat.repr n := rfl
  rw [intToString, str, hrepr, Nat.repr, String.toList_ofList]

theorem toNat_of_isDigit {c : Char} (hc : c.isDigit = true) :
    48 ≤ c.toNat ∧ c.toNat ≤ 57 ∧ (UInt8.ofNat c.toNat).toNat = c.toNat := by
  rw [Char.isDigit, Bool.and_eq_true, decide_eq_true_eq, decide_eq_true_eq] at hc
  have hlow : 48 ≤ c.toNat := hc.1
  have hhigh : c.toNat ≤ 57 := hc.2
  refine ⟨hlow, hhigh, ?_⟩
  rw [UInt8.toNat_ofNat']
  omega

theorem isDigit_of_mem_number {b : UInt8} (hb : b ∈ intToString n) : isDigit b = true := by
  rw [intToString_eq] at hb
  rcases List.mem_map.1 hb with ⟨c, hc, rfl⟩
  have hdigit := toNat_of_isDigit (Nat.isDigit_of_mem_toDigits (by decide) (by decide) hc)
  simp only [isDigit, Bool.and_eq_true, decide_eq_true_eq, UInt8.le_iff_toNat_le, hdigit.2.2]
  exact ⟨hdigit.1, hdigit.2.1⟩

/-- A number is read as it was printed. -/
theorem decimalValue_number (n : Nat) : decimalValue (intToString n) = n := by
  have hdigits : ∀ cs : List Char, (∀ c ∈ cs, c.isDigit = true) → ∀ m : Nat,
      (cs.map fun c => UInt8.ofNat c.toNat).foldl (fun n b => 10 * n + (b.toNat - 48)) m =
        Nat.ofDigitChars 10 cs m := by
    intro cs hcs
    induction cs with
    | nil => exact fun m => Nat.ofDigitChars_nil.symm
    | cons c cs ih =>
        rw [List.forall_mem_cons] at hcs
        intro m
        rw [List.map_cons, List.foldl_cons, ih hcs.2, Nat.ofDigitChars_cons,
          (toNat_of_isDigit hcs.1).2.2]
        rfl
  rw [intToString_eq]
  refine (hdigits _ ?_ 0).trans Nat.ofDigitChars_ten_toDigits
  exact fun c hc => Nat.isDigit_of_mem_toDigits (by decide) (by decide) hc

/-- The number at the front is read up to what follows it. -/
theorem readNumber_append {b : UInt8} (hb : isDigit b = false) (more : Str) :
    readNumber (intToString n ++ b :: more) = n := by
  rw [readNumber, List.takeWhile_append_of_pos fun _ => isDigit_of_mem_number,
    List.takeWhile_cons_of_neg (by simp [hb]), List.append_nil, decimalValue_number]

/-- A number alone is read. -/
theorem readNumber_number (n : Nat) : readNumber (intToString n) = n := by
  rw [readNumber, List.takeWhile_eq_self_iff.2 fun _ => isDigit_of_mem_number, decimalValue_number]

/-- The number in front of the last byte is read. -/
theorem readLastNumber_append {b : UInt8} (hb : isDigit b = false) (front : Str) (last : UInt8) :
    readLastNumber (front ++ b :: intToString n ++ [last]) = n := by
  have hdigits : ∀ d ∈ (intToString n).reverse, isDigit d = true :=
    fun d hd => isDigit_of_mem_number (List.mem_reverse.1 hd)
  have hreverse : (front ++ b :: intToString n).reverse =
      (intToString n).reverse ++ b :: front.reverse := by simp
  rw [readLastNumber, List.dropLast_concat, hreverse, List.takeWhile_append_of_pos hdigits,
    List.takeWhile_cons_of_neg (by simp [hb]), List.append_nil, List.reverse_reverse,
    decimalValue_number]

end Numbers

/-! ## Reading the log -/

def beyondBracket (count : Nat) (s : Str) : Str :=
  (s.dropWhile fun b => b != closeBracket).drop count

/-- The text of a line of the log. -/
def textOf (line : Str) : Str :=
  beyondBracket (str "] ").length (beyondBracket (str "] [chat_server] [").length line)

/-- The entries that tell who is connected, by what they begin with. -/
def tracked : List (Str × (Str → Entry)) :=
  [((Entry.connection 0).opening, fun more => .connection (readLastNumber more)),
    ((Entry.disconnected 0).opening, fun more => .disconnected (readNumber more)),
    ((Entry.named 0 []).opening, fun more =>
      .named (readNumber more) ((more.dropWhile isDigit).drop (str " set a nickanem ").length)),
    ((Entry.failed .addClient).opening, fun _ => .failed .addClient)]

/-- The entry that a text reads as, if it is one of those that tell who is there. -/
def readEntry (text : Str) : Option Entry :=
  tracked.findSome? fun kind => (text.dropPrefix? kind.1).map kind.2

section Reading

variable {entry kind : Entry} {detail : Str}

/-- The text of a body is found behind the brackets. -/
theorem textOf_body {call : LogCall} (hstamp : Stamp call.stamp) :
    textOf call.body = call.text := by
  have hfront : closeBracket ∉ str "[" ++ call.stamp := by
    rw [List.mem_append, not_or]
    exact ⟨by decide, hstamp.bracket_notMem⟩
  have hlevel : closeBracket ∉ call.level.name := by
    cases call.level <;> decide
  have hbody : call.body = (str "[" ++ call.stamp) ++ closeBracket :: (str " [chat_server] [" ++
      (call.level.name ++ closeBracket :: (str " " ++ call.text))) := by
    simp only [LogCall.body, List.append_assoc]
    rfl
  rw [textOf, hbody, beyondBracket, beyondBracket, dropWhile_append_cons hfront]
  exact congrArg (List.drop 2) (dropWhile_append_cons hlevel _)

/-- A text tells its kind. -/
theorem dropPrefix?_text : (entry.text detail).dropPrefix? kind.opening =
    if entry.opening = kind.opening then some (entry.more detail) else none := by
  split <;> rename_i h
  · rw [Entry.text, h]
    exact List.dropPrefix?_append_of_beq _ (beq_self_eq_true _)
  · rw [Option.eq_none_iff_forall_ne_some]
    intro more hmore
    rcases List.dropPrefix?_eq_some_iff.1 hmore with ⟨p, htext, hp⟩
    rw [beq_iff_eq] at hp
    subst hp
    have hprefix : kind.opening <+: entry.text detail := ⟨more, htext.symm⟩
    rcases List.prefix_or_prefix_of_prefix hprefix (List.prefix_append _ _) with hk | he
    · exact h (eq_of_opening_isPrefix hk).symm
    · exact h (eq_of_opening_isPrefix he)

theorem readEntry_eq (entry : Entry) (detail : Str) : readEntry (entry.text detail) =
    tracked.findSome? fun kind =>
      if entry.opening = kind.1 then some (kind.2 (entry.more detail)) else none := by
  simp only [readEntry, tracked, List.findSome?_cons, List.findSome?_nil, dropPrefix?_text]
  simp only [apply_ite (Option.map _), Option.map_some, Option.map_none]

/-- The entries that tell who is connected are read as they were written, and no other one is
taken for one of them. -/
theorem readEntry_text (entry : Entry) (detail : Str) : readEntry (entry.text detail) =
    match entry with
    | .connection fd => some (.connection fd)
    | .disconnected fd => some (.disconnected fd)
    | .named fd nickname => some (.named fd nickname)
    | .failed .addClient => some (.failed .addClient)
    | _ => none := by
  rw [readEntry_eq]
  cases entry with
  | connection fd =>
      have hmore : Entry.more detail (.connection fd) =
          (detail ++ str " (fd") ++ equalSign :: intToString fd ++ [41] := by
        simp only [Entry.more, List.append_assoc]
        rfl
      have hread : readLastNumber (Entry.more detail (.connection fd)) = fd := by
        rw [hmore, readLastNumber_append (by decide)]
      exact congrArg (fun fd => some (Entry.connection fd)) hread
  | disconnected fd =>
      exact congrArg (fun fd => some (Entry.disconnected fd)) (readNumber_number fd)
  | named fd nickname =>
      have hmore : Entry.more detail (.named fd nickname) =
          intToString fd ++ space :: (str "set a nickanem " ++ nickname) := by
        simp only [Entry.more, List.append_assoc]
        rfl
      have hnumber : (Entry.more detail (.named fd nickname)).dropWhile isDigit =
          space :: (str "set a nickanem " ++ nickname) := by
        rw [hmore, List.dropWhile_append_of_pos fun _ => isDigit_of_mem_number]
        exact List.dropWhile_cons_of_neg (by decide)
      have hread : readNumber (Entry.more detail (.named fd nickname)) = fd := by
        rw [hmore, readNumber_append (by decide)]
      have hnickname : ((Entry.more detail (.named fd nickname)).dropWhile isDigit).drop
          (str " set a nickanem ").length = nickname := by
        rw [hnumber]
        rfl
      exact congrArg₂ (fun fd nickname => some (Entry.named fd nickname)) hread hnickname
  | said nickname text =>
      have hnone : ∀ kind ∈ tracked, (Entry.said [] []).opening ≠ kind.1 := by decide +kernel
      rw [List.findSome?_eq_none_iff]
      exact fun kind hkind => if_neg (hnone kind hkind)
  | failed call =>
      by_cases hcall : call = .addClient
      · subst hcall
        rfl
      · have hnone : ∀ call ∈ FailedCall.all, call ≠ .addClient →
            ∀ kind ∈ tracked, (Entry.failed call).opening ≠ kind.1 := by decide +kernel
        have huntracked := hnone call call.mem_all hcall
        rw [List.findSome?_eq_none_iff.2 fun kind hkind => if_neg (huntracked kind hkind)]
        cases call <;> first | rfl | exact absurd rfl hcall
  | _ => rfl

/-- The line of {lit}`Logger::init` tells nothing. -/
theorem readEntry_header (stamp : Str) (spill : Nat) :
    readEntry (initializedCall stamp spill).text = none := by
  have hnone : readEntry (str "Logger initialized.") = none := by decide +kernel
  exact hnone

/-- What is read is what was written, and no aside. -/
theorem eq_of_readEntry {other : Entry} (h : readEntry (entry.text detail) = some other) :
    other = entry ∧ other.aside = false := by
  rw [readEntry_text] at h
  cases entry with
  | failed call =>
      cases call with
      | addClient =>
          cases h
          exact ⟨rfl, rfl⟩
      | _ => cases h
  | connection fd =>
      cases h
      exact ⟨rfl, rfl⟩
  | disconnected fd =>
      cases h
      exact ⟨rfl, rfl⟩
  | named fd nickname =>
      cases h
      exact ⟨rfl, rfl⟩
  | _ => cases h

end Reading

/-! ## Who is connected -/

/-- The clients that are connected, with their names if they have one, and the latest
connection. -/
structure Attendance where
  clients : AList fun _ : Fd => Option Str
  latest : Fd

namespace Attendance

/-- Whoever reads an entry knows who is there. -/
def note (a : Attendance) : Entry → Attendance
  | .connection fd => ⟨a.clients.insert fd none, fd⟩
  | .failed .addClient => ⟨a.clients.erase a.latest, a.latest⟩
  | .disconnected fd => ⟨a.clients.erase fd, a.latest⟩
  | .named fd nickname => ⟨a.clients.insert fd (some nickname), a.latest⟩
  | _ => a

/-- A line of the log. -/
def read (a : Attendance) (line : Str) : Attendance :=
  match readEntry (textOf line) with
  | none => a
  | some entry => a.note entry

end Attendance

/-- What a log file tells. -/
def attendanceIn (file : Str) : Attendance :=
  (frames newline file).foldl Attendance.read ⟨∅, 0⟩

/-- The name of a client that has one, as the log shows it. -/
def Profile.shownName (p : Profile) : Option Str :=
  if p.state = .stateNickname then none else some p.nickname

/-- The clients that are connected, with their names, are those of the server. -/
def Attendance.Of (a : Attendance) (s : ChatServer) : Prop :=
  ∀ fd, a.clients.lookup fd = (s.profileOf fd).map Profile.shownName

namespace Attendance

variable {a : Attendance} {s s' : ChatServer} {e : Event} {entry : Entry} {call : LogCall}
variable {fd : Fd}

/-- A line of the log tells what its entry tells. -/
theorem read_body (h : entry.LoggedBy call) : a.read call.body = a.note entry := by
  rcases h.text with ⟨detail, _, htext⟩
  rw [read, textOf_body h.stamp, htext, readEntry_text]
  cases entry with
  | failed call => cases call <;> rfl
  | _ => rfl

/-- Entries of no step say nothing of who is there. -/
theorem note_aside (h : entry.aside = true) : a.note entry = a := by
  cases entry with
  | failed call => cases call <;> first | rfl | cases h
  | _ => first | rfl | cases h

/-- Entries that are asides tell nothing. -/
theorem foldl_note_filter (entries : List Entry) :
    (entries.filter fun entry => !entry.aside).foldl note a = entries.foldl note a := by
  induction entries generalizing a with
  | nil => rfl
  | cons entry entries ih =>
      cases haside : entry.aside with
      | true =>
          rw [List.filter_cons_of_neg (by simp [haside]), ih, List.foldl_cons, note_aside haside]
      | false =>
          rw [List.filter_cons_of_pos (by simp [haside]), List.foldl_cons, ih, List.foldl_cons]

/-! ### Steps -/

/-- A step that leaves all profiles alone. -/
theorem Of.same (h : a.Of s) (hsame : ∀ fd, s'.profileOf fd = s.profileOf fd) : a.Of s' := by
  intro fd
  rw [hsame, h]

/-- A change of one client that the log shows. -/
theorem Of.change {a' : Attendance} (h : a.Of s)
    (hother : ∀ other, other ≠ fd → s'.profileOf other = s.profileOf other ∧
      a'.clients.lookup other = a.clients.lookup other)
    (hself : a'.clients.lookup fd = (s'.profileOf fd).map Profile.shownName) : a'.Of s' := by
  intro other
  by_cases hfd : other = fd
  · rw [hfd, hself]
  · rw [(hother other hfd).1, (hother other hfd).2, h]

/-- A line gives a name to a client that has none, and keeps any other name. -/
theorem shownName_of_line {line : Str} {p p' : Profile} (h : p.Line line p') :
    p'.shownName = if p.state = .stateNickname then some line else p.shownName := by
  unfold Profile.shownName
  cases h with
  | named hstate => simp [hstate]
  | settled room hstate hroom => simp [Profile.settled, hstate]
  | prompted state room hchat hstate hparse =>
      rcases hstate with rfl | rfl <;> simp [hchat]
  | resumed hstate => simp [hstate]
  | kept hchat => simp [hchat]

/-- Commands say nothing of who is there. -/
theorem foldl_executeEntries (c : Session) (line : Str) :
    (c.executeEntries line).foldl note a = a := by
  unfold Session.executeEntries
  split
  · rfl
  · split <;> rfl

/-- The entries of a step tell how it changes who is connected. -/
theorem Of.step (h : a.Of s) (hs : ReachableState s) (hstep : Step s e s') :
    ((s.entriesOf e).foldl note a).Of s' := by
  have hkeyed := keyed_of_reachable hs
  have heffect := step_effect hkeyed hstep
  have hothers : ∀ {fd}, e.subject = some fd → ∀ other, other ≠ fd →
      s'.profileOf other = s.profileOf other := by
    intro fd hsubject other hne
    apply heffect.profileOf_other
    rw [hsubject]
    simpa using hne.symm
  have hgone : ∀ {client : Fd} {c : Session}, e.subject = some client →
      s.clients.lookup client = some c → s'.profileOf client = none →
        (a.note (.disconnected c.fd)).Of s' := by
    intro client c hsubject hc hnone
    rw [hkeyed client c hc]
    refine h.change (fun other hne => ⟨hothers hsubject other hne, AList.lookup_erase_ne hne⟩) ?_
    rw [hnone]
    exact AList.lookup_erase _ _
  cases heffect with
  | accept fd nonblocking added hfresh =>
      cases nonblocking with
      | false => exact h.same fun _ => rfl
      | true =>
          cases added with
          | true =>
              refine h.change
                (fun other hne => ⟨hothers rfl other hne, AList.lookup_insert_ne hne⟩) ?_
              have harrived : (s.acceptConnection fd true true).profileOf fd = some .arrived := by
                refine (profileOf_queueMessage _).trans ?_
                simp only [ChatServer.profileOf, AList.lookup_insert]
                rfl
              rw [harrived]
              exact AList.lookup_insert _
          | false =>
              -- the client is erased again, and so is its entry
              refine h.change (fun other hne => ⟨hothers rfl other hne, ?_⟩) ?_
              · exact (AList.lookup_erase_ne hne).trans (AList.lookup_insert_ne hne)
              · have hnone : (s.acceptConnection fd true false).profileOf fd = none := by
                  simp [acceptConnection, ChatServer.profileOf]
                rw [hnone]
                exact AList.lookup_erase _ _
  | line client line c s' hc heffect =>
      rw [entriesOf, entriesFor_eq hc]
      rcases heffect.profileOf (noted_lookup_self hc line) with ⟨p, hp, hline⟩
      have hshown := shownName_of_line hline
      have hbefore := h client
      rw [profileOf_eq hc] at hbefore
      have hkept (hstate : c.state ≠ .stateNickname) : a.Of s' := by
        refine h.change (fun other hne => ⟨hothers rfl other hne, rfl⟩) ?_
        rw [hbefore, hp, Option.map_some, Option.map_some, hshown]
        exact congrArg some (if_neg hstate).symm
      cases hstate : c.state with
      | stateNickname =>
          simp only [Session.processEntries, hstate, hkeyed client c hc]
          refine h.change (fun other hne => ⟨hothers rfl other hne, AList.lookup_insert_ne hne⟩) ?_
          rw [hp, Option.map_some, hshown]
          exact (AList.lookup_insert _).trans (congrArg some (if_pos hstate).symm)
      | stateSetupRoomPassword =>
          simp only [Session.processEntries, hstate]
          exact hkept (by simp [hstate])
      | stateEnterRoomPassword =>
          simp only [Session.processEntries, hstate]
          exact hkept (by simp [hstate])
      | stateChat =>
          simp only [Session.processEntries, hstate, foldl_executeEntries]
          exact hkept (by simp [hstate])
  | wrote client result c hc hok =>
      rw [entriesOf, entriesFor_eq hc, Session.writeEntries, if_pos hok]
      exact h.same fun _ => profileOf_wrote hc result
  | dropped client result c hc hok =>
      rw [entriesOf, entriesFor_eq hc, Session.writeEntries, if_neg (by simp [hok])]
      exact hgone rfl hc profileOf_disconnected
  | disconnect client c hc =>
      rw [entriesOf, entriesFor_eq hc]
      exact hgone rfl hc profileOf_disconnected
  | buffer client inBuffer c hc => exact h.same fun _ => profileOf_updateClient fun _ _ => rfl
  | rehash clients rooms hclients hrooms =>
      apply h.same
      intro fd
      simp only [ChatServer.profileOf, AList.perm_lookup hclients]

/-- The entries of a run tell how it changes who is connected. -/
theorem Of.run {ts : List (Transition ChatServer Event)} (h : a.Of s) (hs : ReachableState s)
    (hrun : Run Step s ts s') : ((ts.flatMap Transition.entries).foldl note a).Of s' := by
  induction hrun generalizing a with
  | nil => exact h
  | cons hstep _ ih =>
      rw [List.flatMap_cons, List.foldl_append]
      exact ih (h.step hs hstep) (hs.step hstep)

end Attendance

/-! ## Entries of one line -/

section Lines

variable {s : ChatServer} {ts : List (Transition ChatServer Event)} {e : Event}

/-- The lines of the clients, as the event loop cuts them off. -/
abbrev CutStep : ChatServer → Event → ChatServer → Prop :=
  LineStep fun line => newline ∉ line

/-- A step logs no newline that a client has sent. -/
theorem tame_of_mem_entriesOf {s' : ChatServer}
    (hnames : s.Profiles fun p => newline ∉ p.nickname) (hstep : CutStep s e s') :
    ∀ entry ∈ s.entriesOf e, entry.Tame := by
  have hfor {client : Fd} {f : Session → List Entry}
      (hf : ∀ c, s.clients.lookup client = some c → ∀ entry ∈ f c, entry.Tame) :
      ∀ entry ∈ s.entriesFor client f, entry.Tame := by
    intro entry hentry
    cases hc : s.clients.lookup client with
    | none =>
        simp only [entriesFor, hc] at hentry
        cases hentry
    | some c =>
        rw [entriesFor_eq hc] at hentry
        exact hf c hc entry hentry
  have hdisconnect (c : Session) : ∀ entry ∈ c.disconnectEntries, entry.Tame := by
    intro entry hentry
    rw [List.mem_singleton.1 hentry]
    trivial
  cases e with
  | accept fd nonblocking added =>
      cases nonblocking <;> cases added <;> simp [entriesOf, acceptEntries, Entry.Tame]
  | line client line =>
      refine hfor fun c hc => ?_
      have hline : newline ∉ line := hstep.1 client line rfl
      have hname : newline ∉ c.nickname := hnames client c.profile (profileOf_eq hc)
      cases hstate : c.state with
      | stateNickname => simpa [Session.processEntries, hstate, Entry.Tame] using hline
      | stateSetupRoomPassword => simp [Session.processEntries, hstate]
      | stateEnterRoomPassword => simp [Session.processEntries, hstate]
      | stateChat =>
          simp only [Session.processEntries, hstate, Session.executeEntries]
          have hparse := parse_result line
          generalize parse line = result at hparse
          cases hparse with
          | plainMessage => simpa [Entry.Tame] using ⟨hname, hline⟩
          | _ => simp
  | write client result =>
      refine hfor fun c _ => ?_
      unfold Session.writeEntries
      split
      · simp
      · exact hdisconnect c
  | disconnect client => exact hfor fun c _ => hdisconnect c
  | buffer client inBuffer => simp [entriesOf]
  | rehash clients rooms => simp [entriesOf]

/-- A run logs no newline that a client has sent. -/
theorem tame_of_mem_entries (hrun : Run CutStep .started ts s) :
    ∀ entry ∈ ts.flatMap Transition.entries, entry.Tame := by
  intro entry hentry
  rcases List.mem_flatMap.1 hentry with ⟨t, ht, hmem⟩
  rcases (hrun.reachable_of_mem (.refl _) ht).1 with ⟨us, hus⟩
  refine tame_of_mem_entriesOf ?_ (hrun.step_of_mem ht) entry hmem
  refine forall_profiles List.not_mem_nil ?_ (.refl _) hus fun fd p hp => by cases hp
  intro line p p' hline hstep hname
  cases hstep with
  | named => exact hline
  | settled => exact hname
  | prompted => exact hname
  | resumed => exact hname
  | kept => exact hname

end Lines

/-! ## The log file -/

section Served

variable {config : Config} {r : LaunchResults} {p : Process} {q : Running}
variable {es : List ProcessEvent} {entries : List Entry} {port : Int} {start : StartResults}
variable {ts : List (Transition ChatServer Event)} {s : ChatServer}

/-- The log file of a process that ends. -/
def finalLog (config : Config) (q : Running) (es : List ProcessEvent) (code : Nat) : Str :=
  ((q.steps es).exit code).files (logFileName config)

/-- Every call logs an entry. -/
theorem exists_entry {calls : List LogCall} (hlogged : List.Forall₂ Entry.LoggedBy entries calls)
    {call : LogCall} (hcall : call ∈ calls) : ∃ entry ∈ entries, entry.LoggedBy call := by
  induction hlogged with
  | nil => cases hcall
  | cons hfirst _ ih =>
      rcases List.mem_cons.1 hcall with rfl | hrest
      · exact ⟨_, List.mem_cons_self, hfirst⟩
      · rcases ih hrest with ⟨entry, hentry, hcall⟩
        exact ⟨entry, List.mem_cons_of_mem _ hentry, hcall⟩

/-- Entries have levels that the logger does not leave out. -/
theorem infoLines_of_entries (hlogged : List.Forall₂ Entry.LoggedBy entries (logCalls es)) :
    infoLines es = (logCalls es).flatMap LogCall.line := by
  have hlevel : ∀ call ∈ logCalls es, Level.info ≤ call.level := by
    intro call hcall
    rcases exists_entry hlogged hcall with ⟨entry, _, hentry⟩
    have hserious : Level.info ≤ .info ∧ Level.info ≤ .err := by decide
    rw [hentry.level]
    cases entry with
    | failed call => exact hserious.2
    | _ => exact hserious.1
  rw [infoLines, List.filter_eq_self.2 fun call hcall => decide_eq_true (hlevel call hcall)]

/-- Foldings of the calls and of their entries go hand in hand. -/
theorem foldl_read_bodies {calls : List LogCall}
    (hlogged : List.Forall₂ Entry.LoggedBy entries calls) (a : Attendance) :
    (calls.map LogCall.body).foldl Attendance.read a = entries.foldl Attendance.note a := by
  induction hlogged generalizing a with
  | nil => rfl
  | cons hfirst _ ih => rw [List.map_cons, List.foldl_cons, Attendance.read_body hfirst, ih,
      List.foldl_cons]

variable (hrun : Run CutStep .started ts s)
variable (hlogged : List.Forall₂ Entry.LoggedBy entries (logCalls es))
variable (hentries : (entries.filter fun entry => !entry.aside) = ts.flatMap Transition.entries)

include hrun hlogged hentries in
/-- No call has a newline in its body. -/
theorem newline_notMem_bodies : ∀ call ∈ logCalls es, newline ∉ call.body := by
  intro call hcall
  rcases exists_entry hlogged hcall with ⟨entry, hmem, hentry⟩
  have htame : entry.Tame := by
    cases haside : entry.aside with
    | true =>
        cases entry with
        | named => cases haside
        | said => cases haside
        | _ => trivial
    | false =>
        apply tame_of_mem_entries hrun
        rw [← hentries]
        exact List.mem_filter.2 ⟨hmem, by simp [haside]⟩
  rcases hentry.text with ⟨detail, hdetail, htext⟩
  exact newline_notMem_body hentry.stamp (htext ▸ htame.text hdetail)

variable (hcalls : systemCalls es <+: lifetime port start ts s)
variable (hprepare : prepare config r p = .ok q)
variable (hgranted : DescriptorTable.Granted Resource.socket q.process.descriptors
  (handleOps (systemCalls es)))
variable (hstdout : daemonEnabled config = false →
  p.descriptors.lookup stdoutFileno ≠ some (.file (logFileName config)))
variable (hstandard : p.Standard) (hstamp : Stamp r.stamp)
include hrun hlogged hentries hcalls hprepare hgranted hstdout hstandard hstamp

/-- The lines of a log are the calls, each a line of its own. -/
theorem frames_of_log (code : Nat) :
    frames newline (finalLog config q es code) =
        ((initializedCall r.stamp r.spill) :: logCalls es).map LogCall.body ∧
      rest newline (finalLog config q es code) = [] := by
  have hsteps : Run Step .started ts s := hrun.mono fun _ _ _ hstep => hstep.2
  have hfile := exit_files hsteps hcalls hprepare hgranted hstdout hstandard code
  have hlines : finalLog config q es code =
      (((initializedCall r.stamp r.spill) :: logCalls es).map LogCall.body).flatMap
        fun body => body ++ [newline] := by
    rw [finalLog, hfile, infoLines_of_entries hlogged, List.flatMap_map, List.flatMap_cons]
    rfl
  rw [hlines]
  apply frames_lines
  intro body hbody
  rcases List.mem_map.1 hbody with ⟨call, hcall, rfl⟩
  rcases List.mem_cons.1 hcall with rfl | hserved
  · have htext : newline ∉ str "Logger initialized." := by decide
    exact @newline_notMem_body (initializedCall r.stamp r.spill) hstamp htext
  · exact newline_notMem_bodies hrun hlogged hentries call hserved

/-- Whatever the clients have sent, the log file of a process that ends by {lit}`exit` or in
{lit}`main`, and not by a signal, has one line for each entry, behind that of
{lit}`Logger::init`, and no line can be taken for a connection, a disconnection or a name that
is not one of the run. -/
theorem log_unforgeable (code : Nat) :
    (rest newline (finalLog config q es code) = [] ∧
        (frames newline (finalLog config q es code)).length = entries.length + 1) ∧
      ∀ line ∈ frames newline (finalLog config q es code), ∀ entry,
        readEntry (textOf line) = some entry → ∃ t ∈ ts, entry ∈ t.entries := by
  have hframes := frames_of_log hrun hlogged hentries hcalls hprepare hgranted hstdout hstandard
    hstamp code
  refine ⟨⟨hframes.2, ?_⟩, ?_⟩
  · rw [hframes.1, List.length_map, List.length_cons, hlogged.length_eq]
  · intro line hline entry hread
    rw [hframes.1] at hline
    rcases List.mem_map.1 hline with ⟨call, hcall, rfl⟩
    rcases List.mem_cons.1 hcall with rfl | hserved
    · rw [@textOf_body (initializedCall r.stamp r.spill) hstamp, readEntry_header] at hread
      cases hread
    · rcases exists_entry hlogged hserved with ⟨other, hmem, hother⟩
      rcases hother.text with ⟨detail, _, htext⟩
      rw [textOf_body hother.stamp, htext] at hread
      have hsame := eq_of_readEntry hread
      have hkept : entry ∈ entries.filter fun entry => !entry.aside := by
        rw [← hsame.1] at hmem
        exact List.mem_filter.2 ⟨hmem, by simp [hsame.2]⟩
      rw [hentries] at hkept
      exact List.mem_flatMap.1 hkept

/-- The log file of a process that ends by {lit}`exit` or in {lit}`main`, and not by a signal,
tells who is connected to its server at that time, and under which name, whatever has happened
and whatever the clients have sent. -/
theorem attendance_of_log (code : Nat) (fd : Fd) :
    (attendanceIn (finalLog config q es code)).clients.lookup fd =
      (s.clients.lookup fd).map fun c =>
        if c.state = .stateNickname then none else some c.nickname := by
  have hframes := frames_of_log hrun hlogged hentries hcalls hprepare hgranted hstdout hstandard
    hstamp code
  have hsteps : Run Step .started ts s := hrun.mono fun _ _ _ hstep => hstep.2
  have hheader : Attendance.read ⟨∅, 0⟩ (initializedCall r.stamp r.spill).body = ⟨∅, 0⟩ := by
    rw [Attendance.read, @textOf_body (initializedCall r.stamp r.spill) hstamp, readEntry_header]
  have hnobody : Attendance.Of ⟨∅, 0⟩ .started := fun _ => rfl
  have hattends := hnobody.run (.refl _) hsteps
  rw [← hentries, Attendance.foldl_note_filter] at hattends
  rw [attendanceIn, hframes.1, List.map_cons, List.foldl_cons, hheader, foldl_read_bodies hlogged,
    hattends, ChatServer.profileOf, Option.map_map]
  rfl

end Served

/-! ## A log that is read -/

/-- A client takes a name that looks like an entry. -/
def greet : List Event :=
  [.accept 6 true true, .line 6 (str "[SERVER] New connection: me (fd=7)")]

def greetEntries : List Entry :=
  [.running 8080, .waiting, .connection 6, .failed .accept,
    .named 6 (str "[SERVER] New connection: me (fd=7)")]

/-- The calls of the shell's server, with the address of the client. -/
def greetEvents : List ProcessEvent :=
  [.called (.opened 4), .called (.bind 4 8080), .called (.opened 5), .called (.opened 6)] ++
    greetEntries.map fun entry =>
      .logged ⟨entry.level, entry.text (str "127.0.0.1 : 40000"), launched.stamp, 0⟩

theorem run_greet : Run CutStep .started (ChatServer.trace greet) (.after greet) := by
  have hlines : ∀ t ∈ ChatServer.trace greet,
      ∀ client line, t.event = .line client line → newline ∉ line := by
    intro t ht client line he
    have hmem := event_of_mem_transitions ChatServer.next ht
    rw [he] at hmem
    simp only [greet, List.mem_cons, List.not_mem_nil, or_false, reduceCtorEq, false_or] at hmem
    cases hmem
    decide
  exact (run_trace greet).restrict hlines

theorem launched_stamp : Stamp launched.stamp :=
  ⟨by decide, by decide⟩

theorem greet_logged : List.Forall₂ Entry.LoggedBy greetEntries (logCalls greetEvents) := by
  have hcalls : logCalls greetEvents = greetEntries.map fun entry =>
      ⟨entry.level, entry.text (str "127.0.0.1 : 40000"), launched.stamp, 0⟩ := rfl
  rw [hcalls, List.forall₂_map_right_iff, List.forall₂_same]
  have hdetail : newline ∉ str "127.0.0.1 : 40000" := by decide
  exact fun entry _ => ⟨rfl, ⟨_, hdetail, rfl⟩, launched_stamp⟩

theorem greet_granted {q : Running} (hprepare : prepare .new launched shell = .ok q) :
    DescriptorTable.Granted Resource.socket q.process.descriptors
      (handleOps (systemCalls greetEvents)) := by
  rw [shell_descriptors hprepare]
  decide +kernel

theorem greet_calls : systemCalls greetEvents <+:
    lifetime 8080 (startOn 4 5) (ChatServer.trace greet) (.after greet) := by decide +kernel

/-- A client whose name looks like an entry adds no line. -/
theorem greet_unforgeable : ∃ q, prepare .new launched shell = .ok q ∧
    (frames newline (finalLog .new q greetEvents 0)).length = 6 := by
  have hprepared : ∃ q, prepare .new launched shell = .ok q := exists_prepared rfl (by decide)
  rcases hprepared with ⟨q, hprepare⟩
  have hentries : (greetEntries.filter fun entry => !entry.aside) =
      (ChatServer.trace greet).flatMap Transition.entries := by decide +kernel
  have hstandard : shell.Standard := by decide
  exact ⟨q, hprepare, (log_unforgeable run_greet greet_logged hentries greet_calls hprepare
    (greet_granted hprepare) (fun _ => shell_stdout) hstandard launched_stamp 0).1.2⟩

/-- A client whose name looks like an entry is listed under this name. -/
theorem greet_attendance : ∃ q, prepare .new launched shell = .ok q ∧
    (attendanceIn (finalLog .new q greetEvents 0)).clients.lookup 6 =
      some (some (str "[SERVER] New connection: me (fd=7)")) := by
  have hprepared : ∃ q, prepare .new launched shell = .ok q := exists_prepared rfl (by decide)
  rcases hprepared with ⟨q, hprepare⟩
  have hentries : (greetEntries.filter fun entry => !entry.aside) =
      (ChatServer.trace greet).flatMap Transition.entries := by decide +kernel
  have hstandard : shell.Standard := by decide
  have hnamed : ((ChatServer.after greet).clients.lookup 6).map (fun c =>
      if c.state = .stateNickname then none else some c.nickname) =
        some (some (str "[SERVER] New connection: me (fd=7)")) := by decide +kernel
  exact ⟨q, hprepare, (attendance_of_log run_greet greet_logged hentries greet_calls hprepare
    (greet_granted hprepare) (fun _ => shell_stdout) hstandard launched_stamp 0 6).trans hnamed⟩

end EpollChat
