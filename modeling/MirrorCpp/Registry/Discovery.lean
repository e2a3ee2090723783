import MirrorCpp.Transport.Http
import MirrorCpp.Protocol.Total
import MirrorCpp.Names

/-!
# Discovery (`registry.cpp`)

`discoverMirrors` asks the registry for its entries. A failure of the exchange or of the JSON
parser is an empty list, and a malformed entry is skipped; what escapes is the exception of an
allocation the response asks for.
-/

namespace MirrorCpp.Registry

open Transport Protocol

structure MirrorServiceInfo where
  id : String := ""
  host : String
  port : Int
  certSha256 : Option String := none
  deriving DecidableEq, Repr

/-- Trimmed and in lower case, if it is a digest then. -/
def normalizePin (raw : String) : Option String :=
  let pin := String.ofList (toLower (trim raw.toList))
  if digest pin then some pin else none

/-- The pin a service advertises; `none` where the entry is to be skipped. -/
def advertisedPin (svc : Json) : Option (Option String) :=
  match svc.field? "Meta" with
  | some (.obj metadata) =>
    match metadata.lookup "cert-sha256" with
    | none => some none
    | some (.str raw) => (normalizePin raw).map some
    | some _ => none
  | _ => some none

def parseServiceEntry (entry : Json) : Option MirrorServiceInfo :=
  match entry.field? "Service" with
  | some (.obj members) =>
    let svc := Json.obj members
    let id := match svc.field? "ID" with
      | some (.str id) => id
      | _ => ""
    match svc.field? "Address" with
    | some (.str address) =>
      let host := String.ofList (trim address.toList)
      if host.isEmpty then none
      else match svc.field? "Port" with
        | some (.int n) =>
          let port := toInt64 n
          if port < 1 ∨ 65535 < port then none
          else (advertisedPin svc).map fun certSha256 => { id, host, port, certSha256 }
        | _ => none
    | _ => none
  | _ => none

def discoveryUrl (registryUrl : Bytes) : Bytes :=
  (registryUrl.reverse.dropWhile (· == '/')).reverse ++
    "/v1/health/service/modelmirrors?passing=true".toList

section
variable (rd : Reader)

/-- The elements of a body that is an array. -/
def bodyEntries (body : Bytes) : List Json :=
  match rd.parse (String.ofList body) with
  | .ok (.arr entries) => entries
  | _ => []

def parseRegistryEntries (body : Bytes) : List MirrorServiceInfo :=
  (bodyEntries rd body).filterMap parseServiceEntry

def discoverMirrors (reserve : Reserve) (peer : Peer) (registryUrl : Bytes) :
    Except Transport.Escape (List MirrorServiceInfo) :=
  match httpGet reserve peer (discoveryUrl registryUrl) with
  | .error e => .error e
  | .ok (.error _) => .ok []
  | .ok (.ok body) => .ok (parseRegistryEntries rd body)

/-- The entries of the registry's response; none where the exchange fails or the body is no
array. -/
def responseEntries (reserve : Reserve) (peer : Peer) (registryUrl : Bytes) : List Json :=
  match httpGet reserve peer (discoveryUrl registryUrl) with
  | .ok (.ok body) => bodyEntries rd body
  | _ => []

end

/-! ## What is returned -/

/-- No white space at either end. -/
def Trimmed (s : String) : Prop :=
  (∀ c ∈ s.toList.head?, isSpace c = false) ∧ ∀ c ∈ s.toList.getLast?, isSpace c = false

/-- The candidate an entry describes: host, port, fingerprint and id of its service. -/
structure Describes (entry : Json) (info : MirrorServiceInfo) : Prop where
  host : info.host ≠ "" ∧ Trimmed info.host
  port : 1 ≤ info.port ∧ info.port ≤ 65535
  pin : ∀ cert, info.certSha256 = some cert → digest cert = true
  service : ∃ svc, entry.field? "Service" = some (.obj svc) ∧
    (∃ address, svc.lookup "Address" = some (.str address) ∧
      info.host = String.ofList (trim address.toList)) ∧
    (∃ n, svc.lookup "Port" = some (.int n) ∧ info.port = toInt64 n) ∧
    (∀ members pin, svc.lookup "Meta" = some (.obj members) →
      members.lookup "cert-sha256" = some pin →
        ∃ raw cert, pin = .str raw ∧ info.certSha256 = some cert ∧ digest cert = true ∧
          cert = String.ofList (toLower (trim raw.toList))) ∧
    ((∀ members, svc.lookup "Meta" = some (.obj members) →
      members.lookup "cert-sha256" = none) → info.certSha256 = none) ∧
    (∀ id, svc.lookup "ID" = some (.str id) → info.id = id) ∧
    ((∀ id, svc.lookup "ID" ≠ some (.str id)) → info.id = "")

/-- The candidates the entries describe, in their order; an entry that describes none is left
out. -/
inductive Listed : List Json → List MirrorServiceInfo → Prop where
  | nil : Listed [] []
  | keep {entry : Json} {info : MirrorServiceInfo} {entries : List Json}
      {infos : List MirrorServiceInfo} (h : Describes entry info) (hl : Listed entries infos) :
      Listed (entry :: entries) (info :: infos)
  | skip {entry : Json} {entries : List Json} {infos : List MirrorServiceInfo}
      (h : ∀ info, ¬Describes entry info) (hl : Listed entries infos) :
      Listed (entry :: entries) infos

theorem head?_dropWhile_space (s : Bytes) :
    ∀ c ∈ (s.dropWhile isSpace).head?, isSpace c = false := by
  intro c hc
  have := List.head?_dropWhile_not isSpace s
  rw [Option.mem_def.mp hc] at this
  simpa using this

theorem trimmed_trim (s : Bytes) : Trimmed (String.ofList (trim s)) := by
  unfold Trimmed
  rw [String.toList_ofList]
  constructor
  · intro c hc
    refine head?_dropWhile_space s c ?_
    unfold trim at hc
    generalize s.dropWhile isSpace = t at hc ⊢
    obtain ⟨ys, hys⟩ := List.dropWhile_suffix isSpace (l := t.reverse)
    have ht : t = (t.reverse.dropWhile isSpace).reverse ++ ys.reverse := by
      rw [← List.reverse_append, hys, List.reverse_reverse]
    rw [ht, List.head?_append, Option.mem_def.mp hc]
    rfl
  · intro c hc
    rw [trim, List.getLast?_reverse] at hc
    exact head?_dropWhile_space _ c hc

theorem normalizePin_some {raw pin : String} (h : normalizePin raw = some pin) :
    digest pin = true ∧ pin = String.ofList (toLower (trim raw.toList)) := by
  unfold normalizePin at h
  dsimp only at h
  split at h
  · rename_i hd
    cases h
    exact ⟨hd, rfl⟩
  · cases h

theorem normalizePin_of_digest {raw : String}
    (h : digest (String.ofList (toLower (trim raw.toList))) = true) :
    normalizePin raw = some (String.ofList (toLower (trim raw.toList))) := by
  unfold normalizePin
  exact if_pos h

theorem advertisedPin_digest {svc : Json} {cert : String}
    (h : advertisedPin svc = some (some cert)) : digest cert = true := by
  unfold advertisedPin at h
  split at h
  · split at h
    · cases h
    · obtain ⟨c, hc, he⟩ := Option.map_eq_some_iff.mp h
      cases he
      exact (normalizePin_some hc).1
    · cases h
  · cases h

/-- An advertised pin is kept, normalised; a malformed one has the entry skipped. -/
theorem advertisedPin_eq_some {svc : List (String × Json)} {cert : Option String} :
    advertisedPin (.obj svc) = some cert ↔
      (∀ members pin, svc.lookup "Meta" = some (.obj members) →
        members.lookup "cert-sha256" = some pin →
          ∃ raw c, pin = .str raw ∧ cert = some c ∧ digest c = true ∧
            c = String.ofList (toLower (trim raw.toList))) ∧
      ((∀ members, svc.lookup "Meta" = some (.obj members) →
        members.lookup "cert-sha256" = none) → cert = none) := by
  unfold advertisedPin
  dsimp only [Json.field?]
  split
  · rename_i members hm
    split
    · rename_i hp
      constructor
      · rintro ⟨⟩
        refine ⟨fun members' pin hm' hp' => ?_, fun _ => rfl⟩
        cases hm.symm.trans hm'
        cases hp.symm.trans hp'
      · rintro ⟨-, h⟩
        rw [h fun members' hm' => by cases hm.symm.trans hm'; exact hp]
    · rename_i raw hp
      constructor
      · intro h
        obtain ⟨c, hc, rfl⟩ := Option.map_eq_some_iff.mp h
        refine ⟨fun members' pin hm' hp' => ?_, fun h => ?_⟩
        · cases hm.symm.trans hm'
          cases hp.symm.trans hp'
          exact ⟨raw, c, rfl, rfl, normalizePin_some hc⟩
        · cases hp.symm.trans (h members hm)
      · rintro ⟨h, -⟩
        obtain ⟨_, _, ⟨⟩, rfl, hd, rfl⟩ := h members _ hm hp
        rw [normalizePin_of_digest hd]
        rfl
    · rename_i pin hstr hp
      refine iff_of_false nofun ?_
      rintro ⟨h, -⟩
      obtain ⟨raw, _, rfl, -⟩ := h members pin hm hp
      exact hstr raw rfl
  · rename_i hm
    constructor
    · rintro ⟨⟩
      exact ⟨fun members pin hm' => absurd hm' (hm members), fun _ => rfl⟩
    · rintro ⟨-, h⟩
      rw [h fun members hm' => absurd hm' (hm members)]

/-- What is returned for an entry describes it. -/
theorem parseServiceEntry_some {entry : Json} {info : MirrorServiceInfo}
    (h : parseServiceEntry entry = some info) : Describes entry info := by
  unfold parseServiceEntry at h
  split at h
  · rename_i svc hsvc
    dsimp only [Json.field?] at h
    split at h
    · rename_i address ha
      split at h
      · cases h
      · rename_i hne
        split at h
        · rename_i n hn
          split at h
          · cases h
          · rename_i hport
            obtain ⟨cert, hc, rfl⟩ := Option.map_eq_some_iff.mp h
            obtain ⟨hpin, hnone⟩ := advertisedPin_eq_some.mp hc
            rw [not_or, Int.not_lt, Int.not_lt] at hport
            refine ⟨⟨?_, trimmed_trim _⟩, hport, ?_, svc, hsvc, ⟨address, ha, rfl⟩, ⟨n, hn, rfl⟩,
              hpin, hnone, ?_, ?_⟩
            · intro (he : String.ofList (trim address.toList) = "")
              exact hne (by rw [he]; rfl)
            · rintro c rfl
              exact advertisedPin_digest hc
            · intro id hid
              dsimp only
              rw [hid]
            · intro hid
              dsimp only
              split
              · exact absurd ‹_› (hid _)
              · rfl
        · cases h
    · cases h
  · cases h

/-- An entry is skipped only where it describes nothing. -/
theorem Describes.parse {entry : Json} {info : MirrorServiceInfo} (h : Describes entry info) :
    parseServiceEntry entry = some info := by
  obtain ⟨⟨hne, -⟩, hport, -, svc, hsvc, ⟨address, ha, hhost⟩, ⟨n, hn, hp⟩, hpin, hnone, hid,
    hblank⟩ := h
  obtain ⟨id, host, port, cert⟩ := info
  have hempty : ¬(String.ofList (trim address.toList)).isEmpty = true := by
    rw [← hhost, String.isEmpty_iff]
    exact hne
  have hrange : ¬(toInt64 n < 1 ∨ 65535 < toInt64 n) := by
    rw [← hp, not_or, Int.not_lt, Int.not_lt]
    exact hport
  have hmatch : (match svc.lookup "ID" with
      | some (.str id) => id
      | _ => "") = id := by
    split
    · exact (hid _ ‹_›).symm
    · exact (hblank ‹_›).symm
  unfold parseServiceEntry
  rw [hsvc]
  dsimp only [Json.field?]
  rw [ha]
  dsimp only
  rw [if_neg hempty, hn]
  dsimp only
  rw [if_neg hrange, advertisedPin_eq_some.mpr ⟨hpin, hnone⟩, Option.map_some]
  exact congrArg some (by congr 1; exacts [hhost.symm, hp.symm])

theorem listed_filterMap (entries : List Json) :
    Listed entries (entries.filterMap parseServiceEntry) := by
  induction entries with
  | nil => exact .nil
  | cons entry entries ih =>
    cases h : parseServiceEntry entry with
    | none =>
      rw [List.filterMap_cons_none h]
      refine .skip (fun info hd => ?_) ih
      cases h.symm.trans hd.parse
    | some info =>
      rw [List.filterMap_cons_some h]
      exact .keep (parseServiceEntry_some h) ih

section
variable (rd : Reader) (reserve : Reserve) (peer : Peer) (registryUrl : Bytes)

/-- Discovery returns the candidates its response lists, unless the head of the response
announces a body for which no memory can be reserved. -/
theorem discoverMirrors_closed :
    (∃ infos, discoverMirrors rd reserve peer registryUrl = .ok infos ∧
      Listed (responseEntries rd reserve peer registryUrl) infos) ↔
    ∀ n, Announces peer (discoveryUrl registryUrl) n → reserve n = none := by
  simp only [announces_iff]
  unfold discoverMirrors responseEntries httpGet
  cases hh : httpHead peer (discoveryUrl registryUrl) with
  | error e => exact iff_of_true ⟨[], rfl, .nil⟩ nofun
  | ok head =>
    obtain ⟨extent, buf, reads⟩ := head
    -- a body, or none
    have hbody : ∀ r : Result Bytes, ∃ infos,
        (match (Except.ok r : Except Transport.Escape (Result Bytes)) with
          | .error e => .error e
          | .ok (.error _) => .ok []
          | .ok (.ok body) => .ok (parseRegistryEntries rd body)) = Except.ok infos ∧
        Listed (match (Except.ok r : Except Transport.Escape (Result Bytes)) with
          | .ok (.ok body) => bodyEntries rd body
          | _ => []) infos := by
      intro r
      cases r with
      | error e => exact ⟨[], rfl, .nil⟩
      | ok body => exact ⟨_, rfl, listed_filterMap _⟩
    cases extent with
    | untilEof => exact iff_of_true (hbody _) nofun
    | length n =>
      dsimp only [readN]
      cases hn : reserve n with
      | some e =>
        refine iff_of_false (by rintro ⟨_, ⟨⟩, -⟩) fun h => ?_
        cases hn.symm.trans (h n ⟨buf, reads, rfl⟩)
      | none =>
        refine iff_of_true (hbody _) ?_
        rintro _ ⟨_, _, ⟨⟩⟩
        exact hn

end

/-! ## A response that asks for too much -/

/-- `max_size()` of a string of libstdc++ on a 64-bit platform. -/
def stringMaxSize : Nat := 2 ^ 63 - 1

/-- `reserve` of libstdc++ where the allocator has `memory` bytes: up to 15 characters need none,
more than `max_size` are a length error, and others need a byte more than their number. -/
def libstdcxxReserve (memory : Nat) : Reserve := fun n =>
  if n ≤ 15 then none
  else if stringMaxSize < n then some .lengthError
  else if memory < n + 1 then some .badAlloc
  else none

/-- No allocation is larger than `PTRDIFF_MAX`. -/
def largestAllocation : Nat := 2 ^ 63 - 1

/-- A response with an empty body. -/
def hugeResponse : Peer where
  reads := [.bytes ("HTTP/1.1 200 OK\r\nContent-Length: 9223372036854775807\r\n\r\n".toList)]

/-- The length is one that a string may have, and that no memory holds. -/
theorem discoverMirrors_escapes :
    discoverMirrors compactReader (libstdcxxReserve largestAllocation) hugeResponse
      "http://consul:8500".toList = .error .badAlloc := by
  have h : httpHead hugeResponse (discoveryUrl "http://consul:8500".toList) =
      .ok (.length 9223372036854775807, [], []) := by rfl
  have hn : libstdcxxReserve largestAllocation 9223372036854775807 = some .badAlloc := by
    decide
  rw [discoverMirrors, httpGet, h]
  dsimp only [readN]
  rw [hn]

end MirrorCpp.Registry
