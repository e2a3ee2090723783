import MirrorCpp.Transport.Http
import MirrorCpp.Names

/-!
# Opening a TLS connection (`detail/tls.cpp`)

`connectTls` is `SslStream::connect`: `Handshake` is what the operating system and the TLS
library answer to its calls, the certificate of the peer among them. An accepted connection is
its peer's fingerprint.
-/

namespace MirrorCpp.Transport

open Protocol

structure TlsOptions where
  caPath : String := ""
  certPath : String := ""
  keyPath : String := ""
  pin : Option String := none
  servername : Option String := none
  handshakeTimeout : Int := 10000
  deriving DecidableEq, Repr

/-- The answers to one connection attempt: for each stage the error it meets. -/
structure Handshake where
  /-- `check_key_mode`. -/
  keyMode : Option Error := none
  /-- The client's `SSL_CTX`: versions, CA, certificate chain, private key. -/
  context : Option Error := none
  tcp : Option Error := none
  /-- `SSL_new`, `SSL_set_fd`. -/
  session : Option Error := none
  /-- The verification name and SNI. -/
  name : Option Error := none
  handshake : Option Error := none
  /-- SHA-256 of the peer's leaf certificate, empty without one. -/
  fingerprint : String

def tls (message : String) : Error := { kind := .tls, message }

def isHexLower (c : Char) : Bool := ('0' ≤ c && c ≤ '9') || ('a' ≤ c && c ≤ 'f')

/-- The blanks `normalize_pin` of `tls.cpp` trims. -/
def isPinBlank (c : Char) : Bool := c == ' ' || c == '\t' || c == '\r' || c == '\n'

/-- Trimmed and in lower case; anything but 64 hexadecimal digits then is an error. -/
def pinOf (pin : String) : Result String :=
  let inner := ((pin.toList.dropWhile isPinBlank).reverse.dropWhile isPinBlank).reverse
  if inner.isEmpty then .error (tls "pin is empty")
  else
    let p := toLower inner
    if p.length ≠ 64 then
      .error (tls ("pin must be 64 lowercase hex chars, got " ++ toString p.length))
    else if !p.all isHexLower then
      .error (tls ("pin is not valid hex: " ++ String.ofList p))
    else .ok (String.ofList p)

/-- An error of a stage ends the attempt. -/
def stage : Option Error → Result Unit
  | some e => .error e
  | none => .ok ()

def connectTls (answers : Handshake) (opts : TlsOptions) : Result String := do
  stage answers.keyMode
  let pin ← match opts.pin with
    | some pin => some <$> pinOf pin
    | none => .ok none
  stage answers.context
  stage answers.tcp
  stage answers.session
  stage answers.name
  stage answers.handshake
  match pin with
  | some pin =>
    if answers.fingerprint ≠ pin then
      .error (tls ("certificate fingerprint mismatch: expected " ++ pin ++ " got " ++
        if answers.fingerprint.isEmpty then "<none>" else answers.fingerprint))
    else return answers.fingerprint
  | none => return answers.fingerprint

end MirrorCpp.Transport
