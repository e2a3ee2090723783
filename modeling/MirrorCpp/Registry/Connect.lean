import MirrorCpp.Registry.Discovery
import MirrorCpp.Transport.Tls

/-!
# Connecting through the registry (`registry.cpp`, `cli/validate.cpp`)

`connectFromRegistry` tries the discovered candidates in order. Each attempt gets the caller's
options, but for their pin: it is the override, or the entry's fingerprint, or none. A pin in the
caller's own options, where the command line puts it, is replaced.
-/

namespace MirrorCpp.Registry

open Transport Protocol

structure Attempt where
  candidate : MirrorServiceInfo
  options : TlsOptions
  deriving DecidableEq, Repr

/-- An accepted connection: the candidate and the fingerprint of its certificate. -/
structure Connection where
  candidate : MirrorServiceInfo
  fingerprint : String
  deriving DecidableEq, Repr

/-- The pin of an attempt; an empty one is none. -/
def attemptPin (pinOverride certSha256 : Option String) : Option String :=
  let pin := match pinOverride with
    | some pin => pin
    | none => certSha256.getD ""
  if pin.isEmpty then none else some pin

def attempt (tls : TlsOptions) (pinOverride : Option String) (cand : MirrorServiceInfo) :
    Attempt where
  candidate := cand
  options := { tls with pin := attemptPin pinOverride cand.certSha256 }

/-- `; ` between the diagnostics. -/
def joined : List String → String
  | [] => ""
  | [d] => d
  | d :: ds => d ++ "; " ++ joined ds

def registryError (message : String) : Error := { kind := .registry, message }

section
variable (answers : Nat → Handshake) (tls : TlsOptions) (pinOverride : Option String)

/-- The loop over the candidates: the attempts made from the `k`-th on, and the result. -/
def tryCandidates (k : Nat) (diagnostics : List String) :
    List MirrorServiceInfo → List Attempt × Result Connection
  | [] => ([], .error (registryError ("all registry candidates failed: " ++ joined diagnostics)))
  | cand :: cands =>
    let a := attempt tls pinOverride cand
    match connectTls (answers k) a.options with
    | .ok fingerprint => ([a], .ok { candidate := cand, fingerprint })
    | .error e =>
      let (made, r) := tryCandidates (k + 1)
        (diagnostics ++ [cand.host ++ ":" ++ toString cand.port ++ ": " ++ e.message]) cands
      (a :: made, r)

/-- The attempts made for the candidates of a discovery, and the result. -/
def connectCandidates (registryUrl : Bytes) (candidates : List MirrorServiceInfo) :
    List Attempt × Result Connection :=
  if candidates.isEmpty then
    ([], .error (registryError ("no mirror candidates discovered from " ++
      String.ofList registryUrl)))
  else tryCandidates answers tls pinOverride 0 [] candidates

def connectFromRegistry (rd : Reader) (reserve : Reserve) (peer : Peer) (registryUrl : Bytes) :
    Except Transport.Escape (List Attempt × Result Connection) :=
  (discoverMirrors rd reserve peer registryUrl).map
    (connectCandidates answers tls pinOverride registryUrl)

end

/-! ## The command line -/

/-- The connection options of `mirrorcpp-validate`. -/
structure Options where
  registry : Bytes
  cert : String := ""
  key : String := ""
  ca : String := ""
  pin : Option String := none

def makeTlsOptions (o : Options) : TlsOptions where
  caPath := o.ca
  certPath := o.cert
  keyPath := o.key
  pin := o.pin

/-- `connect` with `--registry` and `--tls`. -/
def connect (answers : Nat → Handshake) (rd : Reader) (reserve : Reserve) (peer : Peer)
    (o : Options) : Except Transport.Escape (List Attempt × Result Connection) :=
  if o.cert.isEmpty || o.key.isEmpty || o.ca.isEmpty then
    .ok ([], .error (tls "--registry --tls requires --cert, --key and --ca"))
  else connectFromRegistry answers (makeTlsOptions o) none rd reserve peer o.registry

/-! ## Pinning -/

section
variable {answers : Nat → Handshake} {tls : TlsOptions} {pinOverride : Option String}

end

end MirrorCpp.Registry
