import MirrorCpp.Transport.Line

/-!
# The registry's HTTP client (`detail/net.cpp`, `detail/http.cpp`)

`httpGet` sends one GET request and reads its answer from a `Peer`: what connecting and writing
meet, and the answers of `read`. What `std::string::reserve` throws is a parameter; the exception
leaves `httpGet`.
-/

namespace MirrorCpp.Transport

open Protocol

/-! ## Text -/

/-- `std::isspace` of the C locale. -/
def isSpace (c : Char) : Bool :=
  c == ' ' || c == '\t' || c == '\n' || c == '\x0b' || c == '\x0c' || c == '\r'

def trim (s : Bytes) : Bytes := ((s.dropWhile isSpace).reverse.dropWhile isSpace).reverse

def lowerChar (c : Char) : Char :=
  if 'A' ≤ c ∧ c ≤ 'Z' then Char.ofNat (c.toNat + 32) else c

def toLower (s : Bytes) : Bytes := s.map lowerChar

/-- A trailing CR. -/
def stripCr (s : Bytes) : Bytes := if s.getLast? = some '\r' then s.dropLast else s

def find (c : Char) (s : Bytes) : Option Nat := s.findIdx? (· == c)

/-- `find(c, from)`. -/
def findFrom (c : Char) (start : Nat) (s : Bytes) : Option Nat :=
  (find c (s.drop start)).map (· + start)

/-- `std::strtoll` in base 10 on the text up to its first NUL: the value, clamped to 64 bits,
and what follows the digits; `none` where there is no digit. -/
def strtoll (s : Bytes) : Option (Int × Bytes) :=
  let s := (s.takeWhile (· != '\x00')).dropWhile isSpace
  let (negative, s) :=
    match s with
    | '-' :: s => (true, s)
    | '+' :: s => (false, s)
    | s => (false, s)
  let digits := s.takeWhile Char.isDigit
  if digits.isEmpty then none
  else
    let n : Int := Nat.ofDigitChars 10 digits 0
    let n := if negative then max (-n) (-2 ^ 63) else min n (2 ^ 63 - 1)
    some (n, s.dropWhile Char.isDigit)

/-! ## The socket -/

/-- What a connection to the registry meets. -/
structure Peer where
  /-- Why it cannot be opened. -/
  connect : Option String := none
  /-- `strerror` of `setsockopt(SO_RCVTIMEO)`. -/
  setsockopt : Option String := none
  write : Option Error := none
  reads : List Read

/-- What no handler of the client catches. -/
inductive Escape where
  /-- `std::length_error`. -/
  | lengthError
  /-- `std::bad_alloc`. -/
  | badAlloc
  deriving DecidableEq, Repr

/-- `std::string::reserve` of an empty string: what it throws, if anything. -/
abbrev Reserve := Nat → Option Escape

/-- `Socket::read_line`: no empty line. -/
def socketReadLine (buf : Bytes) (reads : List Read) : Result (Bytes × Bytes × List Read) :=
  match readLine "transport closed unexpectedly" buf reads with
  | (.error e, _, _) => .error e
  | (.ok line, buf, reads) =>
    if line.isEmpty then .error (io "transport closed unexpectedly") else .ok (line, buf, reads)

/-- The loop of `read_n`: first from the buffer, then whole reads. -/
def fill (n : Nat) (out buf : Bytes) (reads : List Read) : Result Bytes :=
  let out := out ++ buf.take (n - out.length)
  if n ≤ out.length then .ok out
  else
    match reads with
    | [] => .error (io ("transport closed unexpectedly (EOF before " ++ toString n ++ " bytes)"))
    | .failed what :: _ => .error (io ("read failed: " ++ what))
    | .bytes chunk :: reads => fill n (out ++ chunk) [] reads

def readN (reserve : Reserve) (n : Nat) (buf : Bytes) (reads : List Read) :
    Except Escape (Result Bytes) :=
  match reserve n with
  | some e => .error e
  | none => .ok (fill n [] buf reads)

def readUntilEof (buf : Bytes) : List Read → Result Bytes
  | [] => .ok buf
  | .failed what :: _ => .error (io ("read failed: " ++ what))
  | .bytes chunk :: reads => readUntilEof (buf ++ chunk) reads

/-! ## The request -/

structure Url where
  host : Bytes
  port : Int
  path : Bytes
  deriving DecidableEq, Repr

/-- `http://host[:port][/path]`. -/
def parseUrl (url : Bytes) : Except String Url :=
  let scheme := "http://".toList
  if toLower (url.take scheme.length) ≠ scheme then
    .error ("only http:// URLs are supported (got '" ++ String.ofList url ++ "')")
  else
    let rest := url.drop scheme.length
    let auth := rest.takeWhile fun c => c != '/' && c != '?' && c != '#'
    let path := if auth.length = rest.length then ['/'] else rest.drop auth.length
    if auth.isEmpty then .error "malformed URL: empty host"
    else
      match find ':' auth.reverse with
      | none => .ok { host := auth, port := 80, path }
      | some i =>
        let colon := auth.length - 1 - i
        let host := auth.take colon
        let port := trim (auth.drop (colon + 1))
        if host.isEmpty || port.isEmpty then .error "malformed URL: bad host:port"
        else
          match strtoll port with
          | some (p, []) =>
            if p < 1 ∨ 65535 < p then
              .error ("malformed URL: bad port '" ++ String.ofList port ++ "'")
            else .ok { host, port := p, path }
          | _ => .error ("malformed URL: bad port '" ++ String.ofList port ++ "'")

/-- The trimmed value of the first header of this name. -/
def headerValue (headers : List Bytes) (name : String) : Option Bytes :=
  headers.findSome? fun h =>
    (find ':' h).bind fun colon =>
      if toLower (trim (h.take colon)) = toLower name.toList then some (trim (h.drop (colon + 1)))
      else none

/-- The status of a response to a request of `path`. -/
def checkStatus (path line : Bytes) : Result Unit :=
  let malformed := io ("malformed HTTP status line: '" ++ String.ofList line ++ "'")
  if line.length < 12 ∨ toLower (line.take 5) ≠ "http/".toList then .error malformed
  else
    match find ' ' line with
    | none => .error malformed
    | some sp1 =>
      match findFrom ' ' (sp1 + 1) line with
      | none => .error malformed
      | some sp2 =>
        let code := (line.drop (sp1 + 1)).take (sp2 - sp1 - 1)
        if code ≠ "200".toList then
          .error (io ("registry HTTP GET " ++ String.ofList path ++ " returned status " ++
            String.ofList code ++ " (" ++ String.ofList (line.drop (sp2 + 1)) ++ ")"))
        else .ok ()

/-- The bytes that have not been read. -/
def unread (buf : Bytes) (reads : List Read) : Nat :=
  buf.length + (reads.map fun
    | .bytes chunk => chunk.length
    | .failed _ => 0).sum

/-- The headers up to the empty line; `none` when the fuel, a line a unit, runs out. -/
def readHeaders : Nat → List Bytes → Bytes → List Read →
    Option (Result (List Bytes × Bytes × List Read))
  | 0, _, _, _ => none
  | fuel + 1, headers, buf, reads =>
    match socketReadLine buf reads with
    | .error e => some (.error e)
    | .ok (line, buf, reads) =>
      if (stripCr line).isEmpty then some (.ok (headers, buf, reads))
      else readHeaders fuel (headers ++ [stripCr line]) buf reads

/-- The headers up to the empty line. -/
def headerLines (buf : Bytes) (reads : List Read) : Result (List Bytes × Bytes × List Read) :=
  (readHeaders (unread buf reads + 1) [] buf reads).getD
    (.error (io "")) -- the fuel suffices

/-- Where the body of a response ends. -/
inductive Extent where
  | length (n : Nat)
  | untilEof
  deriving DecidableEq, Repr

def extent (headers : List Bytes) : Result Extent :=
  let chunked (te : Bytes) := (toLower te).tails.any fun t => "chunked".toList.isPrefixOf t
  if ((headerValue headers "Transfer-Encoding").map chunked).getD false then
    .error (io ("registry HTTP response uses chunked transfer-encoding " ++
      "(documented limitation; Content-Length required)"))
  else
    match headerValue headers "Content-Length" with
    | none => .ok .untilEof
    | some cl =>
      let malformed := io ("malformed Content-Length: '" ++ String.ofList cl ++ "'")
      match strtoll cl with
      | some (n, []) => if n < 0 then .error malformed else .ok (.length n.toNat)
      | _ => .error malformed

/-- The exchange up to the body of the response. -/
def httpHead (peer : Peer) (url : Bytes) : Result (Extent × Bytes × List Read) := do
  let url ← match parseUrl url with
    | .ok url => .ok url
    | .error what => .error (io what)
  if let some what := peer.connect then
    .error (io ("registry HTTP connect to " ++ String.ofList url.host ++ ":" ++
      toString url.port ++ " failed: " ++ what))
  if let some what := peer.setsockopt then
    .error (io ("setsockopt(SO_RCVTIMEO) failed: " ++ what))
  if let some e := peer.write then .error e
  let (status, buf, reads) ← socketReadLine [] peer.reads
  checkStatus url.path (stripCr status)
  let (headers, buf, reads) ← headerLines buf reads
  let extent ← extent headers
  return (extent, buf, reads)

def httpGet (reserve : Reserve) (peer : Peer) (url : Bytes) : Except Escape (Result Bytes) :=
  match httpHead peer url with
  | .error e => .ok (.error e)
  | .ok (.length n, buf, reads) => readN reserve n buf reads
  | .ok (.untilEof, buf, reads) => .ok (readUntilEof buf reads)

/-! ## The headers end -/

theorem unread_bytes (buf chunk : Bytes) (reads : List Read) :
    unread buf (.bytes chunk :: reads) = unread (buf ++ chunk) reads := by
  simp only [unread, List.map_cons, List.sum_cons, List.length_append]
  omega

/-- A line that was read is no longer unread. -/
theorem unread_readLine {eof : String} {line buf' : Bytes} {reads' : List Read}
    (hne : line ≠ []) : ∀ {reads : List Read} {buf : Bytes},
    readLine eof buf reads = (.ok line, buf', reads') → unread buf' reads' < unread buf reads := by
  have settled : ∀ {buf : Bytes} {reads : List Read}, scan buf = some (.ok line, buf') →
      unread buf' reads < unread buf reads := by
    intro buf reads h
    unfold scan at h
    split at h
    · rename_i nl hn
      have hlt := (List.findIdx?_eq_some_iff_getElem.mp hn).1
      split at h <;> cases h
      simp only [unread, List.length_drop]
      omega
    · split at h <;> cases h
  intro reads
  induction reads with
  | nil =>
    intro buf h
    rw [readLine.eq_def] at h
    cases hs : scan buf with
    | some r =>
      obtain ⟨r, rest⟩ := r
      rw [hs] at h
      cases h
      exact settled hs
    | none =>
      rw [hs] at h
      dsimp only at h
      split at h <;> cases h
      exact absurd rfl hne
  | cons a reads ih =>
    intro buf h
    rw [readLine.eq_def] at h
    cases hs : scan buf with
    | some r =>
      obtain ⟨r, rest⟩ := r
      rw [hs] at h
      cases h
      exact settled hs
    | none =>
      rw [hs] at h
      cases a with
      | failed what => cases h
      | bytes chunk =>
        rw [unread_bytes]
        exact ih h

theorem unread_socketReadLine {line buf buf' : Bytes} {reads reads' : List Read}
    (h : socketReadLine buf reads = .ok (line, buf', reads')) :
    unread buf' reads' < unread buf reads := by
  unfold socketReadLine at h
  split at h
  · cases h
  · rename_i hl
    split at h
    · cases h
    · rename_i hne
      cases h
      exact unread_readLine (by simpa using hne) hl

/-- Fuel for every byte is enough. -/
theorem readHeaders_isSome : ∀ {fuel : Nat} {headers : List Bytes} {buf : Bytes}
    {reads : List Read}, unread buf reads < fuel → (readHeaders fuel headers buf reads).isSome =
      true
  | 0, _, _, _, h => absurd h (Nat.not_lt_zero _)
  | fuel + 1, headers, buf, reads, h => by
    rw [readHeaders]
    cases hr : socketReadLine buf reads with
    | error e => rfl
    | ok r =>
      obtain ⟨line, buf', reads'⟩ := r
      dsimp only
      split
      · rfl
      · refine readHeaders_isSome ?_
        have := unread_socketReadLine hr
        omega

/-- The header lines of a response, behind its status line, and what follows the empty one. -/
inductive HeaderBlock : Bytes → List Read → List Bytes → Bytes → List Read → Prop where
  | done {line buf buf' : Bytes} {reads reads' : List Read}
      (hl : socketReadLine buf reads = .ok (line, buf', reads')) (he : stripCr line = []) :
      HeaderBlock buf reads [] buf' reads'
  | line {line buf buf₁ buf' : Bytes} {reads reads₁ reads' : List Read} {headers : List Bytes}
      (hl : socketReadLine buf reads = .ok (line, buf₁, reads₁)) (hne : stripCr line ≠ [])
      (h : HeaderBlock buf₁ reads₁ headers buf' reads') :
      HeaderBlock buf reads (stripCr line :: headers) buf' reads'

/-- With fuel for every byte the loop finds the block of headers, behind those it has. -/
theorem readHeaders_iff : ∀ {fuel : Nat} {had all : List Bytes} {buf buf' : Bytes}
    {reads reads' : List Read}, unread buf reads < fuel →
    (readHeaders fuel had buf reads = some (.ok (all, buf', reads')) ↔
      ∃ headers, all = had ++ headers ∧ HeaderBlock buf reads headers buf' reads')
  | 0, _, _, _, _, _, _, h => absurd h (Nat.not_lt_zero _)
  | fuel + 1, had, all, buf, buf', reads, reads', h => by
    rw [readHeaders]
    cases hr : socketReadLine buf reads with
    | error e =>
      refine iff_of_false nofun ?_
      rintro ⟨_, -, ⟨hl, -⟩ | ⟨hl, -, -⟩⟩ <;> rw [hr] at hl <;> cases hl
    | ok r =>
      obtain ⟨line, buf₁, reads₁⟩ := r
      dsimp only
      split
      · rename_i he
        have he : stripCr line = [] := List.isEmpty_iff.mp he
        constructor
        · rintro ⟨⟩
          exact ⟨[], (List.append_nil _).symm, .done hr he⟩
        · rintro ⟨_, rfl, ⟨hl, -⟩ | ⟨hl, hne, -⟩⟩ <;> cases hr.symm.trans hl
          · rw [List.append_nil]
          · exact absurd he hne
      · rename_i hne
        have hne : stripCr line ≠ [] := fun he => hne (List.isEmpty_iff.mpr he)
        have hlt : unread buf₁ reads₁ < fuel := by
          have := unread_socketReadLine hr
          omega
        rw [readHeaders_iff hlt]
        constructor
        · rintro ⟨headers, rfl, hb⟩
          exact ⟨stripCr line :: headers, by rw [List.append_assoc]; rfl, .line hr hne hb⟩
        · rintro ⟨_, rfl, ⟨hl, he⟩ | ⟨hl, -, hb⟩⟩ <;> cases hr.symm.trans hl
          · exact absurd he hne
          · exact ⟨_, by rw [List.append_assoc]; rfl, hb⟩

theorem headerLines_iff {headers : List Bytes} {buf buf' : Bytes} {reads reads' : List Read} :
    headerLines buf reads = .ok (headers, buf', reads') ↔
      HeaderBlock buf reads headers buf' reads' := by
  have hfuel := Nat.lt_succ_self (unread buf reads)
  have hi := @readHeaders_iff _ [] headers buf buf' reads reads' hfuel
  obtain ⟨r, hr⟩ := Option.isSome_iff_exists.mp (@readHeaders_isSome _ [] buf reads hfuel)
  rw [hr, Option.some.injEq] at hi
  unfold headerLines
  rw [hr, Option.getD_some, hi]
  constructor
  · rintro ⟨_, rfl, h⟩
    exact h
  · exact fun h => ⟨headers, rfl, h⟩

/-- A response whose head is complete, has the status 200 and announces a body of `n` bytes. -/
inductive Announces (peer : Peer) (url : Bytes) (n : Nat) : Prop where
  | head {u : Url} {status buf buf' : Bytes} {reads reads' : List Read} {headers : List Bytes}
      (hu : parseUrl url = .ok u) (hc : peer.connect = none) (ho : peer.setsockopt = none)
      (hw : peer.write = none) (hs : socketReadLine [] peer.reads = .ok (status, buf, reads))
      (hok : checkStatus u.path (stripCr status) = .ok ())
      (hh : HeaderBlock buf reads headers buf' reads') (hx : extent headers = .ok (.length n))

theorem announces_iff {peer : Peer} {url : Bytes} {n : Nat} :
    Announces peer url n ↔ ∃ buf reads, httpHead peer url = .ok (.length n, buf, reads) := by
  constructor
  · rintro (@⟨u, status, buf, buf', reads, reads', headers, hu, hc, ho, hw, hs, hok, hh, hx⟩)
    refine ⟨buf', reads', ?_⟩
    simp only [httpHead, hu, hc, ho, hw, hs, Fallible.ok_bind, hok, headerLines_iff.mpr hh, hx,
      Fallible.pure_eq]
  · rintro ⟨buf', reads', h⟩
    unfold httpHead at h
    cases hu : parseUrl url with
    | error what => rw [hu] at h; cases h
    | ok u =>
      rw [hu] at h
      cases hc : peer.connect with
      | some what => rw [hc] at h; cases h
      | none =>
        cases ho : peer.setsockopt with
        | some what => rw [hc, ho] at h; cases h
        | none =>
          cases hw : peer.write with
          | some e => rw [hc, ho, hw] at h; cases h
          | none =>
            rw [hc, ho, hw] at h
            change (socketReadLine [] peer.reads >>= _) = _ at h
            obtain ⟨⟨status, buf, reads⟩, hs, h⟩ := Fallible.bind_eq_ok.mp h
            obtain ⟨_, hok, h⟩ := Fallible.bind_eq_ok.mp h
            obtain ⟨⟨headers, _, _⟩, hh, h⟩ := Fallible.bind_eq_ok.mp h
            obtain ⟨x, hx, ⟨⟩⟩ := Fallible.bind_eq_ok.mp h
            exact .head hu hc ho hw hs hok (headerLines_iff.mp hh) hx

end MirrorCpp.Transport
