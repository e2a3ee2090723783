import MirrorCpp.Transport.Http
import MirrorCpp.Transport.Tls

/-!
# The readers of the TCP and the TLS transport (`detail/net.cpp`, `detail/tls.cpp`)

`tcpLines` and `tlsLines` are the results of calls of `recv_line` up to the first error. Over a
clean end of the stream they differ in one thing: TCP rejects an empty line, TLS returns it.
-/

namespace MirrorCpp.Transport

open Protocol

/-- `SslStream::read_line`; an answer of `SSL_read` that asks to retry is none here. -/
def sslReadLine : Bytes → List Read → Result Bytes × Bytes × List Read :=
  pull (fun _ => .error (io "transport closed unexpectedly"))
    fun what => tls ("SSL_read failed: " ++ what)

/-- `TlsTransport::recv_line` on an open transport, up to `n` times. -/
def tlsLines : Nat → Bytes → List Read → List (Result Bytes)
  | 0, _, _ => []
  | n + 1, buf, reads =>
    match sslReadLine buf reads with
    | (.error e, _, _) => [.error e]
    | (.ok line, buf, reads) => .ok line :: tlsLines n buf reads

/-- `TcpTransport::recv_line` on an open transport, up to `n` times. -/
def tcpLines : Nat → Bytes → List Read → List (Result Bytes)
  | 0, _, _ => []
  | n + 1, buf, reads =>
    match socketReadLine buf reads with
    | .error e => [.error e]
    | .ok (line, buf, reads) => .ok line :: tcpLines n buf reads

/-- No line of the stream is empty, up to the first one beyond the limit; what follows the last
LF is no line. -/
def blankFree (stream : Bytes) : Bool :=
  ((stream.splitOn '\n').dropLast.takeWhile fun l =>
    decide (l.length ≤ kMaxProtocolLineBytes)).all fun l => !l.isEmpty

/-! ## The cuts of the stream -/

theorem sslReadLine_whole (chunks : List Bytes) (buf : Bytes) :
    (sslReadLine buf (chunks.map .bytes)).1 = (sslReadLine (buf ++ chunks.flatten) []).1 ∧
    ∀ line, (sslReadLine buf (chunks.map .bytes)).1 = .ok line →
      ∃ (left : List Bytes) (rest : Bytes),
        (sslReadLine buf (chunks.map .bytes)).2 = (rest, left.map .bytes) ∧
        (sslReadLine (buf ++ chunks.flatten) []).2 = (rest ++ left.flatten, []) :=
  pull_whole chunks buf

theorem tlsLines_whole : ∀ (n : Nat) (buf : Bytes) (chunks : List Bytes),
    tlsLines n buf (chunks.map .bytes) = tlsLines n (buf ++ chunks.flatten) []
  | 0, _, _ => rfl
  | n + 1, buf, chunks => by
    obtain ⟨h1, h2⟩ := sslReadLine_whole chunks buf
    rw [tlsLines, tlsLines]
    generalize sslReadLine buf (chunks.map .bytes) = cut at h1 h2
    generalize sslReadLine (buf ++ chunks.flatten) [] = whole at h1 h2
    obtain ⟨r, buf', reads⟩ := cut
    obtain ⟨r', buf'', reads'⟩ := whole
    cases h1
    cases r with
    | error e => rfl
    | ok line =>
      obtain ⟨left, rest, h3, h4⟩ := h2 line rfl
      cases h3
      cases h4
      exact congrArg _ (tlsLines_whole n _ left)

theorem tcpLines_whole : ∀ (n : Nat) (buf : Bytes) (chunks : List Bytes),
    tcpLines n buf (chunks.map .bytes) = tcpLines n (buf ++ chunks.flatten) []
  | 0, _, _ => rfl
  | n + 1, buf, chunks => by
    obtain ⟨h1, h2⟩ := @readLine_whole "transport closed unexpectedly" chunks buf
    rw [tcpLines, tcpLines, socketReadLine, socketReadLine]
    generalize readLine _ buf (chunks.map .bytes) = cut at h1 h2
    generalize readLine _ (buf ++ chunks.flatten) [] = whole at h1 h2
    obtain ⟨r, buf', reads⟩ := cut
    obtain ⟨r', buf'', reads'⟩ := whole
    cases h1
    cases r with
    | error e => rfl
    | ok line =>
      obtain ⟨left, rest, h3, h4⟩ := h2 line rfl
      cases h3
      cases h4
      cases hb : line.isEmpty with
      | true => simp [hb]
      | false =>
        simp only [hb, Bool.false_eq_true, if_false]
        exact congrArg _ (tcpLines_whole n _ left)

/-! ## One stream -/

/-- What the buffer holds when it settles a line, and when it does not. -/
theorem scan_cases (buf : Bytes) :
    (∃ line rest, scan buf = some (.ok line, rest) ∧ buf = line ++ '\n' :: rest ∧ '\n' ∉ line ∧
      line.length ≤ kMaxProtocolLineBytes) ∨
    (scan buf = some (.error tooLong, []) ∧ ((∃ line rest, buf = line ++ '\n' :: rest ∧
      '\n' ∉ line ∧ kMaxProtocolLineBytes < line.length) ∨ '\n' ∉ buf)) ∨
    (scan buf = none ∧ '\n' ∉ buf) := by
  unfold scan
  cases hf : buf.findIdx? (· == '\n') with
  | none =>
    have hn : '\n' ∉ buf := by
      intro h
      have := List.findIdx?_eq_none_iff.mp hf '\n' h
      exact absurd this (by decide)
    dsimp only
    split
    · exact .inr (.inl ⟨rfl, .inr hn⟩)
    · exact .inr (.inr ⟨rfl, hn⟩)
  | some nl =>
    obtain ⟨hlt, hat, hbefore⟩ := List.findIdx?_eq_some_iff_getElem.mp hf
    have hsplit : buf = buf.take nl ++ '\n' :: buf.drop (nl + 1) := by
      have : buf[nl] = '\n' := by simpa using hat
      rw [← this, ← List.drop_eq_getElem_cons hlt, List.take_append_drop]
    have hn : '\n' ∉ buf.take nl := by
      intro h
      obtain ⟨i, hi, he⟩ := List.getElem_of_mem h
      rw [List.length_take] at hi
      have := hbefore i (by omega)
      rw [List.getElem_take] at he
      exact this (by simp [he])
    have hl : (buf.take nl).length = nl := List.length_take_of_le (Nat.le_of_lt hlt)
    dsimp only
    split
    · exact .inr (.inl ⟨rfl, .inl ⟨_, _, hsplit, hn, by omega⟩⟩)
    · exact .inl ⟨_, _, rfl, hsplit, hn, by omega⟩

theorem blankFree_cons {line rest : Bytes} (hn : '\n' ∉ line) :
    blankFree (line ++ '\n' :: rest) = (decide (kMaxProtocolLineBytes < line.length) ||
      !line.isEmpty && blankFree rest) := by
  rw [blankFree, List.splitOn_append_cons_self_of_not_mem hn,
    List.dropLast_cons_of_ne_nil (List.splitOn_ne_nil _ _), List.takeWhile_cons]
  by_cases h : line.length ≤ kMaxProtocolLineBytes
  · simp [h, Nat.not_lt.mpr h, blankFree]
  · simp [h, Nat.not_le.mp h]

theorem blankFree_single {stream : Bytes} (hn : '\n' ∉ stream) : blankFree stream = true := by
  rw [blankFree, List.splitOn_eq_singleton hn]
  rfl

/-- Without blank lines the readers agree. -/
theorem lines_agree : ∀ (n : Nat) {stream : Bytes}, blankFree stream = true →
    tlsLines n stream [] = tcpLines n stream []
  | 0, _, _ => rfl
  | n + 1, stream, h => by
    rw [tlsLines, tcpLines, socketReadLine, sslReadLine, pull.eq_def, readLine.eq_def]
    rcases scan_cases stream with ⟨line, rest, hs, rfl, hn, hl⟩ | ⟨hs, -⟩ | ⟨hs, -⟩
    · rw [blankFree_cons hn, decide_eq_false (Nat.not_lt.mpr hl), Bool.false_or,
        Bool.and_eq_true, Bool.not_eq_true'] at h
      rw [hs]
      simp only [h.1, Bool.false_eq_true, if_false]
      exact congrArg _ (lines_agree n h.2)
    · rw [hs]
    · rw [hs]
      dsimp only
      cases stream <;> rfl

/-- With one they part. -/
theorem lines_differ : ∀ (k : Nat) {stream : Bytes}, stream.length ≤ k →
    blankFree stream = false → ∃ n, tlsLines n stream [] ≠ tcpLines n stream []
  | 0, stream, hk, h => by
    obtain rfl := List.length_eq_zero_iff.mp (Nat.le_zero.mp hk)
    cases h
  | k + 1, stream, hk, h => by
    rcases scan_cases stream with ⟨line, rest, hs, rfl, hn, hl⟩ | ⟨hs, hc⟩ | ⟨hs, hn⟩
    · rw [blankFree_cons hn, decide_eq_false (Nat.not_lt.mpr hl), Bool.false_or,
        Bool.and_eq_false_iff, Bool.not_eq_false'] at h
      have hstep : ∀ n, tlsLines (n + 1) (line ++ '\n' :: rest) [] =
          .ok line :: tlsLines n rest [] := by
        intro n
        rw [tlsLines, sslReadLine, pull.eq_def, hs]
      have hstep' : ∀ n, tcpLines (n + 1) (line ++ '\n' :: rest) [] =
          if line.isEmpty then [.error (io "transport closed unexpectedly")]
          else .ok line :: tcpLines n rest [] := by
        intro n
        rw [tcpLines, socketReadLine, readLine.eq_def, hs]
        cases hb : line.isEmpty <;> simp [hb]
      cases hb : line.isEmpty with
      | true =>
        refine ⟨1, ?_⟩
        rw [hstep, hstep', hb]
        simp
      | false =>
        have hrest : blankFree rest = false := by simpa [hb] using h
        rw [List.length_append, List.length_cons] at hk
        obtain ⟨n, hne⟩ := lines_differ k (by omega) hrest
        refine ⟨n + 1, ?_⟩
        rw [hstep, hstep', hb]
        simpa using hne
    · rcases hc with ⟨line, rest, rfl, hn, hl⟩ | hn
      · rw [blankFree_cons hn, decide_eq_true hl] at h
        cases h
      · rw [blankFree_single hn] at h
        cases h
    · rw [blankFree_single hn] at h
      cases h

/-- **The readers agree on a stream, however it is cut for either, exactly when no line of it is
empty up to the first one beyond the limit.** -/
theorem readers_agree_iff (chunks chunks' : List Bytes) (h : chunks.flatten = chunks'.flatten) :
    (∀ n, tlsLines n [] (chunks.map .bytes) = tcpLines n [] (chunks'.map .bytes)) ↔
      blankFree chunks.flatten = true := by
  simp only [tlsLines_whole, tcpLines_whole, List.nil_append, ← h]
  constructor
  · intro hall
    cases hb : blankFree chunks.flatten with
    | true => rfl
    | false =>
      obtain ⟨n, hne⟩ := lines_differ _ le_rfl hb
      exact absurd (hall n) hne
  · exact fun hb n => lines_agree n hb

theorem readers_agree_sample :
    tlsLines 3 [] ([['a'], ['\n', 'b', '\n', 'c']].map .bytes) =
      tcpLines 3 [] ([['a', '\n'], ['b', '\n', 'c']].map .bytes) :=
  (readers_agree_iff [['a'], ['\n', 'b', '\n', 'c']] [['a', '\n'], ['b', '\n', 'c']] rfl).mpr
    (by decide) 3

/-- An empty line: TLS returns it, TCP reports the end of the stream. -/
theorem readers_part :
    tlsLines 2 [] [.bytes ['\n', 'a', '\n']] = [.ok [], .ok ['a']] ∧
      tcpLines 2 [] [.bytes ['\n', 'a', '\n']] = [.error (io "transport closed unexpectedly")] ∧
      ¬ ∀ (chunks : List Bytes) (n : Nat), Chunked chunks →
        tlsLines n [] (chunks.map .bytes) = tcpLines n [] (chunks.map .bytes) := by
  refine ⟨rfl, rfl, fun h => ?_⟩
  cases h [['\n', 'a', '\n']] 2 (by unfold Chunked; decide)

end MirrorCpp.Transport
