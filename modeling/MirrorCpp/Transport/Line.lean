import MirrorCpp.Protocol.Message

/-!
# Lines over a stream of bytes (`detail/line.hpp`)

`readLine` is `read_line_from_fd`: the buffer carries what a `read` returned behind the line.
`Read` is one answer of `read`; behind the last one every `read` meets the end of the stream.

What a reader finds in a stream is what it finds when the whole stream arrives at once
(`readLine_whole`), so the cuts do not matter.
-/

namespace MirrorCpp.Transport

open Protocol

/-- A `std::string` of bytes, one character per byte. -/
abbrev Bytes := List Char

/-- The bytes per `read`. -/
def kLineChunkSize : Nat := 4096

/-- A payload and its LF fit in one record of 64 KiB. -/
def kMaxProtocolLineBytes : Nat := 65535

def io (message : String) : Error := { kind := .io, message }

/-- An answer of `read` before the end of the stream. -/
inductive Read where
  | bytes (chunk : Bytes)
  | failed (what : String)
  deriving DecidableEq, Repr

def tooLong : Error := io "protocol line exceeds 65535-byte UTF-8 payload limit"

/-- What the buffer settles without another `read`, and the buffer it leaves. -/
def scan (buf : Bytes) : Option (Result Bytes × Bytes) :=
  match buf.findIdx? (· == '\n') with
  | some nl =>
    if kMaxProtocolLineBytes < nl then some (.error tooLong, [])
    else some (.ok (buf.take nl), buf.drop (nl + 1))
  | none => if kMaxProtocolLineBytes < buf.length then some (.error tooLong, []) else none

section
variable (unexpectedEof : String)

/-- One call: its result, the buffer and the answers still to come. -/
def readLine (buf : Bytes) (reads : List Read) : Result Bytes × Bytes × List Read :=
  match scan buf with
  | some (r, buf) => (r, buf, reads)
  | none =>
    match reads with
    | [] => (if buf.isEmpty then .ok [] else .error (io unexpectedEof), buf, [])
    | .failed what :: reads => (.error (io ("read failed: " ++ what)), buf, reads)
    | .bytes chunk :: reads => readLine (buf ++ chunk) reads

/-- The results of up to `n` calls, the first error the last of them. -/
def results : Nat → Bytes → List Read → List (Result Bytes)
  | 0, _, _ => []
  | n + 1, buf, reads =>
    match readLine unexpectedEof buf reads with
    | (.error e, _, _) => [.error e]
    | (.ok line, buf, reads) => .ok line :: results n buf reads

/-- The buffers at the head of the loop of one call. -/
def heads (buf : Bytes) : List Read → List Bytes
  | .bytes chunk :: reads => buf :: if (scan buf).isNone then heads (buf ++ chunk) reads else []
  | _ => [buf]

/-- The buffers of `n` calls and the one they leave, whatever the calls return. -/
def buffers : Nat → Bytes → List Read → List Bytes
  | 0, buf, _ => [buf]
  | n + 1, buf, reads =>
    let (_, buf', reads') := readLine unexpectedEof buf reads
    heads buf reads ++ buffers n buf' reads'

end

/-- The rules of a line to be sent. -/
def rejectEmbeddedNewline (line : Bytes) : Result Unit :=
  if line.isEmpty then .error (io "send_line: protocol line must not be empty")
  else if line.contains '\n' then
    .error (io ("send_line: input contains an embedded newline (framing " ++
      "violation \u00e2\u0080\u0094 the protocol is newline-delimited JSON)"))
  else if kMaxProtocolLineBytes < line.length then
    .error (io "send_line: protocol line exceeds 65535-byte UTF-8 payload limit")
  else .ok ()

def framed (line : Bytes) : Bytes := line ++ ['\n']

/-- `send_line`: the bytes it writes. -/
def sendLine (line : Bytes) : Result Bytes := do
  rejectEmbeddedNewline line
  return framed line

/-! ## The cuts of the stream -/

/-- `read` answers with one to 4096 bytes. -/
def Chunked (chunks : List Bytes) : Prop := ∀ c ∈ chunks, c ≠ [] ∧ c.length ≤ kLineChunkSize

theorem scan_none {buf : Bytes} (h : scan buf = none) :
    buf.findIdx? (· == '\n') = none ∧ buf.length ≤ kMaxProtocolLineBytes := by
  unfold scan at h
  split at h
  · split at h <;> cases h
  · split at h
    · cases h
    · rename_i hn hl
      exact ⟨hn, Nat.not_lt.mp hl⟩

/-- More bytes do not change a settled line; they follow in the buffer. -/
theorem scan_append_ok {buf line rest : Bytes} (h : scan buf = some (.ok line, rest))
    (more : Bytes) : scan (buf ++ more) = some (.ok line, rest ++ more) := by
  unfold scan at h ⊢
  split at h
  · rename_i nl hn
    have hlt : nl < buf.length := (List.findIdx?_eq_some_iff_getElem.mp hn).1
    rw [List.findIdx?_append, hn]
    split at h
    · cases h
    · rename_i hle
      cases h
      simp [if_neg hle, List.take_append_of_le_length (Nat.le_of_lt hlt),
        List.drop_append_of_le_length hlt]
  · split at h <;> cases h

/-- More bytes do not lift the limit. -/
theorem scan_append_error {buf rest : Bytes} {e : Error} (h : scan buf = some (.error e, rest))
    (more : Bytes) : scan (buf ++ more) = some (.error tooLong, []) ∧ e = tooLong := by
  unfold scan at h ⊢
  split at h
  · rename_i nl hn
    rw [List.findIdx?_append, hn]
    split at h
    · rename_i hlt
      cases h
      simp [if_pos hlt]
    · cases h
  · rename_i hn
    split at h
    · rename_i hlt
      cases h
      refine ⟨?_, rfl⟩
      rw [List.findIdx?_append, hn, Option.none_or]
      split
      · rename_i nl hm
        obtain ⟨i, -, rfl⟩ := Option.map_eq_some_iff.mp hm
        rw [if_pos (by omega)]
      · rw [if_pos (by rw [List.length_append]; omega)]
    · cases h

/-- A loop over the same buffer with its own words for the end of the stream and for a failure. -/
def pull (atEnd : Bytes → Result Bytes) (onFail : String → Error) (buf : Bytes)
    (reads : List Read) : Result Bytes × Bytes × List Read :=
  match scan buf with
  | some (r, buf) => (r, buf, reads)
  | none =>
    match reads with
    | [] => (atEnd buf, buf, [])
    | .failed what :: reads => (.error (onFail what), buf, reads)
    | .bytes chunk :: reads => pull atEnd onFail (buf ++ chunk) reads

section
variable {atEnd : Bytes → Result Bytes} {onFail : String → Error}

/-- A call finds in the cut stream what it finds when all of it is in the buffer. -/
theorem pull_whole (chunks : List Bytes) : ∀ (buf : Bytes),
    (pull atEnd onFail buf (chunks.map .bytes)).1 =
      (pull atEnd onFail (buf ++ chunks.flatten) []).1 ∧
    ∀ line, (pull atEnd onFail buf (chunks.map .bytes)).1 = .ok line →
      ∃ (left : List Bytes) (rest : Bytes),
        (pull atEnd onFail buf (chunks.map .bytes)).2 = (rest, left.map .bytes) ∧
        (pull atEnd onFail (buf ++ chunks.flatten) []).2 = (rest ++ left.flatten, []) := by
  induction chunks with
  | nil =>
    intro buf
    rw [List.map_nil, List.flatten_nil, List.append_nil]
    refine ⟨rfl, fun line h => ⟨[], (pull atEnd onFail buf []).2.1, ?_⟩⟩
    have hend : (pull atEnd onFail buf []).2.2 = [] := by
      rw [pull]
      cases scan buf <;> rfl
    rw [List.map_nil, List.flatten_nil, List.append_nil]
    exact ⟨Prod.ext rfl hend, Prod.ext rfl hend⟩
  | cons c chunks ih =>
    intro buf
    cases hs : scan buf with
    | none =>
      have hstep : pull atEnd onFail buf ((c :: chunks).map .bytes) =
          pull atEnd onFail (buf ++ c) (chunks.map .bytes) := by
        rw [List.map_cons, pull, hs]
      rw [hstep, List.flatten_cons, ← List.append_assoc]
      obtain ⟨h1, h2⟩ := ih (buf ++ c)
      refine ⟨h1, fun line h => ?_⟩
      exact h2 line h
    | some r =>
      obtain ⟨r, rest⟩ := r
      have hcut : ∀ reads, pull atEnd onFail buf reads = (r, rest, reads) := by
        intro reads
        rw [pull.eq_def, hs]
      rw [hcut]
      cases r with
      | error e =>
        obtain ⟨h, rfl⟩ := scan_append_error hs (c :: chunks).flatten
        rw [pull.eq_def, h]
        exact ⟨rfl, nofun⟩
      | ok line =>
        have h := scan_append_ok hs (c :: chunks).flatten
        rw [pull.eq_def, h]
        exact ⟨rfl, fun _ _ => ⟨c :: chunks, rest, rfl, rfl⟩⟩

end

section
variable {unexpectedEof : String}

theorem readLine_eq_pull (buf : Bytes) (reads : List Read) : readLine unexpectedEof buf reads =
    pull (fun buf => if buf.isEmpty then .ok [] else .error (io unexpectedEof))
      (fun what => io ("read failed: " ++ what)) buf reads := by
  induction reads generalizing buf with
  | nil => rw [readLine, pull]
  | cons a reads ih =>
    rw [readLine.eq_def, pull.eq_def]
    cases a <;> simp only [ih]

theorem readLine_whole (chunks : List Bytes) (buf : Bytes) :
    (readLine unexpectedEof buf (chunks.map .bytes)).1 =
      (readLine unexpectedEof (buf ++ chunks.flatten) []).1 ∧
    ∀ line, (readLine unexpectedEof buf (chunks.map .bytes)).1 = .ok line →
      ∃ (left : List Bytes) (rest : Bytes),
        (readLine unexpectedEof buf (chunks.map .bytes)).2 = (rest, left.map .bytes) ∧
        (readLine unexpectedEof (buf ++ chunks.flatten) []).2 = (rest ++ left.flatten, []) := by
  simp only [readLine_eq_pull]
  exact pull_whole chunks buf

/-- So do all calls up to the first error. -/
theorem results_whole : ∀ (n : Nat) (buf : Bytes) (chunks : List Bytes),
    results unexpectedEof n buf (chunks.map .bytes) =
      results unexpectedEof n (buf ++ chunks.flatten) []
  | 0, _, _ => rfl
  | n + 1, buf, chunks => by
    obtain ⟨h1, h2⟩ := @readLine_whole unexpectedEof chunks buf
    rw [results, results]
    generalize readLine unexpectedEof buf (chunks.map .bytes) = cut at h1 h2
    generalize readLine unexpectedEof (buf ++ chunks.flatten) [] = whole at h1 h2
    obtain ⟨r, buf', reads⟩ := cut
    obtain ⟨r', buf'', reads'⟩ := whole
    cases h1
    cases r with
    | error e => rfl
    | ok line =>
      obtain ⟨left, rest, h3, h4⟩ := h2 line rfl
      cases h3
      cases h4
      exact congrArg _ (results_whole n _ left)

/-! ## Lines that were sent -/

theorem rejectEmbeddedNewline_ok {line : Bytes} {u : Unit}
    (h : rejectEmbeddedNewline line = .ok u) :
    line ≠ [] ∧ '\n' ∉ line ∧ line.length ≤ kMaxProtocolLineBytes := by
  unfold rejectEmbeddedNewline at h
  split at h
  · cases h
  · split at h
    · cases h
    · split at h
      · cases h
      · rename_i h1 h2 h3
        exact ⟨by simpa using h1, by simpa using h2, Nat.not_lt.mp h3⟩

/-- The lines that are sent are those the rules accept. -/
theorem sendLine_eq_ok {line sent : Bytes} :
    sendLine line = .ok sent ↔ rejectEmbeddedNewline line = .ok () ∧ framed line = sent := by
  unfold sendLine
  cases rejectEmbeddedNewline line with
  | error e => simp
  | ok u => simp

theorem scan_framed {line : Bytes} (hn : '\n' ∉ line) (hl : line.length ≤ kMaxProtocolLineBytes)
    (rest : Bytes) : scan (framed line ++ rest) = some (.ok line, rest) := by
  have hline : line.findIdx? (· == '\n') = none := by
    rw [List.findIdx?_eq_none_iff]
    intro c hc
    rw [beq_eq_false_iff_ne]
    rintro rfl
    exact hn hc
  have hfind : (framed line ++ rest).findIdx? (· == '\n') = some line.length := by
    rw [framed, List.append_assoc, List.findIdx?_append, hline, Option.none_or]
    simp [List.findIdx?_cons]
  rw [scan, hfind]
  simp [framed, Nat.not_lt.mpr hl]

/-- Calls on lines that were sent return them, then the end of the stream. -/
theorem results_sent (k : Nat) {lines sent : List Bytes}
    (h : List.Forall₂ (fun line bytes => sendLine line = .ok bytes) lines sent) :
    results unexpectedEof (lines.length + k) sent.flatten [] =
      lines.map .ok ++ List.replicate k (.ok []) := by
  induction h with
  | nil =>
    induction k with
    | zero => rfl
    | succ k ih =>
      rw [List.length_nil, Nat.zero_add] at ih ⊢
      exact congrArg (.ok [] :: ·) ih
  | @cons line _ lines sent hline _ ih =>
    obtain ⟨hr, rfl⟩ := sendLine_eq_ok.mp hline
    obtain ⟨-, hn, hl⟩ := rejectEmbeddedNewline_ok hr
    have hs := scan_framed hn hl sent.flatten
    rw [List.length_cons, Nat.add_right_comm, results, List.flatten_cons, readLine.eq_def, hs]
    exact congrArg _ ih

/-! ## The buffer -/

/-- What a buffer may reach: a line without its LF, and one more chunk. -/
def kMaxBuffered : Nat := kMaxProtocolLineBytes + kLineChunkSize

def Bounded (reads : List Read) : Prop :=
  ∀ chunk, Read.bytes chunk ∈ reads → chunk.length ≤ kLineChunkSize

theorem scan_shrinks {buf rest : Bytes} {r : Result Bytes} (h : scan buf = some (r, rest)) :
    rest.length ≤ buf.length := by
  unfold scan at h
  split at h
  · split at h <;> cases h
    · exact Nat.zero_le _
    · rw [List.length_drop]
      omega
  · split at h <;> cases h
    exact Nat.zero_le _

/-- One call keeps its buffer within the bound, and leaves it so. -/
theorem heads_bounded : ∀ {reads : List Read} {buf : Bytes}, Bounded reads →
    buf.length ≤ kMaxBuffered →
    (∀ b ∈ heads buf reads, b.length ≤ kMaxBuffered) ∧
      (readLine unexpectedEof buf reads).2.1.length ≤ kMaxBuffered ∧
      Bounded (readLine unexpectedEof buf reads).2.2 := by
  intro reads
  induction reads with
  | nil =>
    intro buf hr hb
    rw [readLine.eq_def]
    cases hs : scan buf with
    | some r => exact ⟨by simpa [heads] using hb, Nat.le_trans (scan_shrinks hs) hb, hr⟩
    | none => exact ⟨by simpa [heads] using hb, hb, hr⟩
  | cons a reads ih =>
    intro buf hr hb
    have hrest : Bounded reads := fun c hc => hr c (List.mem_cons_of_mem _ hc)
    rw [readLine.eq_def]
    cases a with
    | failed what =>
      cases hs : scan buf with
      | some r => exact ⟨by simpa [heads] using hb, Nat.le_trans (scan_shrinks hs) hb, hr⟩
      | none => exact ⟨by simpa [heads] using hb, hb, hrest⟩
    | bytes chunk =>
      rw [heads]
      cases hs : scan buf with
      | some r => exact ⟨by simpa using hb, Nat.le_trans (scan_shrinks hs) hb, hr⟩
      | none =>
        have hfit : (buf ++ chunk).length ≤ kMaxBuffered := by
          have h1 := (scan_none hs).2
          have h2 := hr chunk List.mem_cons_self
          rw [List.length_append, kMaxBuffered]
          omega
        obtain ⟨h1, h2, h3⟩ := ih hrest hfit
        refine ⟨fun b hm => ?_, h2, h3⟩
        rcases List.mem_cons.mp hm with rfl | hm
        · exact hb
        · exact h1 b hm

theorem buffers_bounded : ∀ (n : Nat) {reads : List Read} {buf : Bytes}, Bounded reads →
    buf.length ≤ kMaxBuffered → ∀ b ∈ buffers unexpectedEof n buf reads, b.length ≤ kMaxBuffered
  | 0, _, _, _, hb => by simpa [buffers] using hb
  | n + 1, reads, buf, hr, hb => by
    obtain ⟨h1, h2, h3⟩ := @heads_bounded unexpectedEof _ _ hr hb
    intro b hm
    rw [buffers] at hm
    rcases List.mem_append.mp hm with hm | hm
    · exact h1 b hm
    · exact buffers_bounded n h3 h2 b hm

end

/-- Lines that were sent come back one by one under every chunking of their stream, and then
the end of the stream; of any stream, the results up to the first error do not depend on the
chunking; the buffer stays within a line and a chunk. -/
theorem line_framing (unexpectedEof : String) :
    (∀ lines sent chunks : List Bytes,
      List.Forall₂ (fun line bytes => sendLine line = .ok bytes) lines sent →
      Chunked chunks → chunks.flatten = sent.flatten →
      ∀ k, results unexpectedEof (lines.length + k) [] (chunks.map .bytes) =
        lines.map .ok ++ List.replicate k (.ok [])) ∧
    (∀ chunks chunks' : List Bytes, Chunked chunks → Chunked chunks' →
      chunks.flatten = chunks'.flatten →
      ∀ n, results unexpectedEof n [] (chunks.map .bytes) =
        results unexpectedEof n [] (chunks'.map .bytes)) ∧
    ∀ chunks : List Bytes, Chunked chunks →
      ∀ n, ∀ b ∈ buffers unexpectedEof n [] (chunks.map .bytes), b.length ≤ 65535 + 4096 := by
  refine ⟨fun lines sent chunks hl _ he k => ?_, fun chunks chunks' _ _ he n => ?_,
    fun chunks hc n => ?_⟩
  · rw [results_whole, List.nil_append, he]
    exact results_sent k hl
  · rw [results_whole, results_whole n [] chunks', he]
  · refine buffers_bounded n (fun c hm => ?_) (Nat.zero_le _)
    obtain ⟨c, hmem, ⟨⟩⟩ := List.mem_map.mp hm
    exact (hc c hmem).2

theorem line_framing_sample :
    results "transport closed unexpectedly" 3 []
        [.bytes ['a'], .bytes ['b', '\n', 'c'], .bytes ['\n']] =
      [.ok ['a', 'b'], .ok ['c'], .ok []] := by
  have hl : List.Forall₂ (fun line bytes => sendLine line = .ok bytes) [['a', 'b'], ['c']]
      [['a', 'b', '\n'], ['c', '\n']] := .cons rfl (.cons rfl .nil)
  exact (line_framing "transport closed unexpectedly").1 _ _ [['a'], ['b', '\n', 'c'], ['\n']] hl
    (by unfold Chunked; decide) rfl 1

end MirrorCpp.Transport
