import EpollChat.Properties.Lines

/-!
# The counters of the line normaliser

{lit}`trim_string` counts in {lit}`int`, but nothing bounds {lit}`in_buffer`, so a client
can send a line whose length is lost in the conversion.

Main results:

- Theorem {lit}`normalised_exact_iff`: the lines that reach {lit}`trim_string` are all
  counted exactly if all lines of the frames could be.
- Theorem {lit}`normaliser_exact_iff`: for which streams the counters are exact.
-/

namespace EpollChat

open ChatServer

/-- The lines that reach {lit}`trim_string` while frames are handled one after the other:
none comes after one that {lit}`handle_client_read` cannot complete. -/
def ChatServer.normalised (s : ChatServer) (client : Fd) : List Str → List Str
  | [] => []
  | frame :: lines =>
      (if withoutCarriageReturn frame = [] then [] else [withoutCarriageReturn frame]) ++
        match s.handleLine client frame with
        | .ok s' => s'.normalised client lines
        | .error _ => []

section Normalised

variable {s : ChatServer} {client : Fd} {c : Session} {lines : List Str}

theorem exactTrim_nil : ExactTrim [] :=
  exactTrim_of_short (by decide)

/-- The lines that reach {lit}`trim_string` are all counted exactly if all lines of the
frames could be: the first one that is not is reached. -/
theorem normalised_exact_iff (hc : s.clients.lookup client = some c) :
    (∀ line ∈ s.normalised client lines, ExactTrim line) ↔
      ∀ frame ∈ lines, ExactTrim (withoutCarriageReturn frame) := by
  induction lines generalizing s c with
  | nil => simp [normalised]
  | cons frame lines ih =>
      rw [List.forall_mem_cons, normalised, List.forall_mem_append]
      have hfirst : (∀ line ∈ if withoutCarriageReturn frame = [] then []
          else [withoutCarriageReturn frame], ExactTrim line) ↔
          ExactTrim (withoutCarriageReturn frame) := by
        split <;> rename_i hempty
        · rw [hempty]
          exact iff_of_true (by simp) exactTrim_nil
        · exact List.forall_mem_singleton
      rw [hfirst]
      refine and_congr_right fun hexact => ?_
      rcases handleLine_total hc hexact with ⟨s', c', hs', hc', _⟩
      rw [hs']
      exact ih hc'

/-- Any bytes can be cut into chunks. -/
theorem exists_chunks (bytes : Str) :
    ∃ chunks : List Chunk, chunks.flatMap Chunk.bytes = bytes := by
  induction bytes with
  | nil => exact ⟨[], rfl⟩
  | cons b bytes ih =>
      rcases ih with ⟨chunks, rfl⟩
      exact ⟨⟨[b], by simp, by simp [bufferSize]⟩ :: chunks, rfl⟩

/-! ### Lines of one letter -/

variable {n : Nat}

/-- A line of letters is one line. -/
theorem newline_notMem_letters (n : Nat) : newline ∉ List.replicate n (97 : UInt8) := by
  intro hmem
  exact absurd (List.eq_of_mem_replicate hmem) (by decide)

theorem getLast_letters {b : UInt8} (hb : b ≠ 97) :
    (List.replicate n (97 : UInt8)).getLast? ≠ some b := by
  intro hlast
  exact hb (List.eq_of_mem_replicate (List.mem_of_getLast? hlast))

theorem withoutCarriageReturn_letters :
    withoutCarriageReturn (List.replicate n 97) = List.replicate n 97 :=
  withoutCarriageReturn_eq_self (getLast_letters (by decide))

/-- A line of letters has no outer spaces. -/
theorem dropWhile_letters :
    (List.replicate n (97 : UInt8)).dropWhile isSpace = List.replicate n 97 := by
  cases n with
  | zero => rfl
  | succ n => rfl

/-- From {lit}`2 ^ 31` letters on a line throws. -/
theorem readCalls_letters (hc : s.clients.lookup client = some c) (hempty : c.inBuffer = [])
    (hlong : 2 ^ 31 ≤ n) (hlen : n < 2 ^ 32) {calls : List (List Chunk)}
    (hcalls : calls.flatten.flatMap Chunk.bytes = List.replicate n 97 ++ [newline]) :
    readCalls s client calls = .error .outOfRange := by
  have hfirst : (List.replicate n (97 : UInt8)).head? ≠ some space := by
    intro hhead
    exact absurd (List.eq_of_mem_replicate (List.mem_of_head? hhead)) (by decide)
  refine readCalls_long_line hc hempty (newline_notMem_letters n) (getLast_letters (by decide))
    hfirst (getLast_letters (by decide)) ?_ ?_ hcalls
  · rwa [List.length_replicate]
  · rwa [List.length_replicate]

end Normalised

/-- Whenever the event loop looks at an event, for every client and every stream in every
cutting: the reads handle the frames of the buffered bytes and the stream one after the
other; and every line that reaches {lit}`trim_string` is counted exactly and erased in
range, and the reads return, if and only if every completed line, without a carriage
return at its end, has fewer than {lit}`2 ^ 31` leading spaces and fewer than
{lit}`2 ^ 31` bytes behind them. -/
theorem normaliser_exact_iff {s : ChatServer} (hs : TurnState s) {client : Fd} {c : Session}
    (hc : s.clients.lookup client = some c) (calls : List (List Chunk)) :
    let stream := calls.flatten.flatMap Chunk.bytes
    let lines := frames newline (c.inBuffer ++ stream)
    readCalls s client calls = s.received client c.inBuffer stream ∧
      ((∀ line ∈ s.normalised client lines, ExactTrim line) ∧
          (∃ s', readCalls s client calls = .ok s') ↔
        ∀ frame ∈ lines, leading (withoutCarriageReturn frame) < 2 ^ 31 ∧
          ((withoutCarriageReturn frame).dropWhile isSpace).length < 2 ^ 31) := by
  intro stream lines
  have hreads : readCalls s client calls = s.received client c.inBuffer stream :=
    readCalls_eq hc ((drained_of_turn hs).2 client c hc) calls
  refine ⟨hreads, ?_⟩
  simp only [← exactTrim_iff]
  rw [normalised_exact_iff hc]
  refine and_iff_left_of_imp fun hexact => ?_
  rcases foldlM_handleLine_total hc hexact with ⟨t, c', ht, hc', _⟩
  refine ⟨t.setBuffer client (rest newline (c.inBuffer ++ stream)), ?_⟩
  rw [hreads, received, feed, ht]
  rfl

/-- A client on descriptor 5 whose connection was just accepted. -/
def justAccepted : ChatServer :=
  acceptConnection .started 5 true true

theorem justAccepted_loopState : LoopState justAccepted := by
  have hstep : LoopStep .started (.server [.connection 5 true true]) justAccepted :=
    ⟨⟨by decide, trivial⟩, rfl⟩
  exact Reachable.step (.refl ChatServer.started) hstep

/-- A short stream is normalised. -/
theorem short_stream_exact : ∃ s', readCalls justAccepted 5
    [[⟨str " an", by decide, by decide⟩, ⟨str "n \r\n", by decide, by decide⟩]] = .ok s' := by
  have hc : justAccepted.clients.lookup 5 = some _ := rfl
  refine ((normaliser_exact_iff (turnState_of_loop justAccepted_loopState) hc _).2.2 ?_).2
  decide +kernel

/-- A line of {lit}`2 ^ 31` letters throws. -/
theorem long_line_not_exact : ∃ c calls, LoopState justAccepted ∧
    justAccepted.clients.lookup 5 = some c ∧ c.inBuffer = [] ∧
    calls.flatten.flatMap Chunk.bytes = List.replicate (2 ^ 31) 97 ++ [newline] ∧
    readCalls justAccepted 5 calls = .error .outOfRange ∧
    ¬∀ line ∈ justAccepted.normalised 5 (frames newline (List.replicate (2 ^ 31) 97 ++ [newline])),
      ExactTrim line := by
  rcases exists_chunks (List.replicate (2 ^ 31) 97 ++ [newline]) with ⟨chunks, hchunks⟩
  have hc : justAccepted.clients.lookup 5 = some _ := rfl
  have hbytes : [chunks].flatten.flatMap Chunk.bytes = List.replicate (2 ^ 31) 97 ++ [newline] := by
    rw [List.flatten_singleton, hchunks]
  refine ⟨_, [chunks], justAccepted_loopState, hc, rfl, hbytes, ?_, ?_⟩
  · exact readCalls_letters hc rfl (by decide) (by decide) hbytes
  · rw [normalised_exact_iff hc, frames_append_cons (newline_notMem_letters _)]
    intro hexact
    have hcounts := exactTrim_iff.1 (hexact _ List.mem_cons_self)
    rw [withoutCarriageReturn_letters, dropWhile_letters, List.length_replicate] at hcounts
    exact absurd hcounts.2 (by decide)

end EpollChat
