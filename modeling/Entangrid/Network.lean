import Entangrid.Crypto.Handshake

/-!
# Frames of a session (`entangrid-network`)

A frame is its length in four bytes and its body; once a hybrid session is established, the body of every
frame is encrypted under the session key, with a counter that the two ends keep for themselves. What a
stream will ever deliver is a byte string (`read_u32` and `read_exact` fail where it ends), and
ChaCha20-Poly1305 is a parameter (`Aead`).
-/

namespace Entangrid

def maxFrameSizeBytes : Nat := 8 * 1024 * 1024

def defaultHybridSessionTtlMillis : Nat := 10 * 60 * 1000

def frameTagSizeBytes : Nat := 16

/-! ## Numbers as bytes -/

/-- The lowest bytes of a number, the highest of them first (`to_be_bytes`). -/
def beBytes (width n : Nat) : List UInt8 :=
  (List.range width).map fun i => UInt8.ofNat (n / 256 ^ (width - 1 - i))

/-- `from_be_bytes`. -/
def ofBeBytes (bytes : List UInt8) : Nat := bytes.foldl (fun n b => n * 256 + b.toNat) 0

/-! ## Encryption -/

inductive FrameDirection where
  | outbound | inbound
deriving DecidableEq

def FrameDirection.asByte : FrameDirection → UInt8
  | .outbound => 0
  | .inbound => 1

/-- ChaCha20-Poly1305 with a detached tag, by key, nonce and associated data. -/
structure Aead where
  encrypt : List UInt8 → List UInt8 → List UInt8 → List UInt8 → Option (List UInt8 × List UInt8)
  decrypt : List UInt8 → List UInt8 → List UInt8 → List UInt8 → List UInt8 → Option (List UInt8)

def frameNonce (direction : FrameDirection) (counter : Nat) : List UInt8 :=
  [direction.asByte, 0, 0, 0] ++ beBytes 8 counter

def frameSessionId (session : SessionMaterial) : List UInt8 :=
  (HashBytes.toVec session.transcriptHash).take 16

def frameAssociatedData (session : SessionMaterial) (direction : FrameDirection) (counter : Nat) :
    List UInt8 :=
  direction.asByte :: beBytes 8 counter ++ frameSessionId session

section
variable (A : Aead) (session : SessionMaterial)

def encryptFramePayload (direction : FrameDirection) (counter : Nat) (plaintext : List UInt8) :
    Except String (List UInt8) :=
  match A.encrypt (HashBytes.toVec session.sessionKey) (frameNonce direction counter)
    (frameAssociatedData session direction counter) plaintext with
  | none => .error "frame encryption failed"
  | some (ciphertext, tag) => .ok (ciphertext ++ tag)

def decryptFramePayload (direction : FrameDirection) (counter : Nat) (ciphertext : List UInt8) :
    Except String (List UInt8) :=
  if ciphertext.length < frameTagSizeBytes then
    .error "frame decryption failed: truncated ciphertext"
  else
    let splitAt := ciphertext.length - frameTagSizeBytes
    match A.decrypt (HashBytes.toVec session.sessionKey) (frameNonce direction counter)
      (frameAssociatedData session direction counter) (ciphertext.take splitAt)
      (ciphertext.drop splitAt) with
    | none => .error "frame decryption failed"
    | some plaintext => .ok plaintext

/-! ## Frames -/

/-- `bytes.len() as u32` keeps the lowest four bytes of the length. -/
def writeFrame (bytes : List UInt8) : List UInt8 := beBytes 4 bytes.length ++ bytes

/-- The next frame and what follows it, or nothing at the end of the stream. -/
def readFrameBytes (input : List UInt8) : Except String (Option (List UInt8 × List UInt8)) :=
  if input.length < 4 then .ok none
  else
    let frameLen := ofBeBytes (input.take 4)
    let rest := input.drop 4
    if maxFrameSizeBytes < frameLen then
      .error ("frame length " ++ toString frameLen ++ " exceeds max " ++ toString maxFrameSizeBytes)
    else if rest.length < frameLen then .error "early eof"
    else .ok (some (rest.take frameLen, rest.drop frameLen))

/-- The bytes that go on the stream, and the next counter. -/
def writeApplicationFrame (sendCounter : Nat) (plaintext : List UInt8) :
    Except String (List UInt8 × Nat) :=
  if session.encryptFrames then do
    let ciphertext ← encryptFramePayload A session .outbound sendCounter plaintext
    .ok (writeFrame ciphertext, satAdd sendCounter 1)
  else .ok (writeFrame plaintext, sendCounter)

def effectiveSessionTtlMillis (configuredSessionTtlMillis : Option Nat) : Option Nat :=
  if !session.encryptFrames then none
  else
    match configuredSessionTtlMillis with
    | some 0 => none
    | some ttlMillis => some ttlMillis
    | none => some defaultHybridSessionTtlMillis

end

def sessionIsExpired (sessionEstablishedAtUnixMillis : Nat) (sessionTtlMillis : Option Nat)
    (nowUnixMillis : Nat) : Bool :=
  match sessionTtlMillis with
  | none => false
  | some ttlMillis => decide (ttlMillis ≤ nowUnixMillis - sessionEstablishedAtUnixMillis)

inductive ApplicationFrameRead where
  | frame (payload : List UInt8) (wireLen : Nat)
  | streamClosed
  | sessionExpired
deriving DecidableEq

/-- One read, with the clock as it stands once the frame is in; the next counter and what follows. -/
def readApplicationFrame (A : Aead) (session : SessionMaterial) (receiveCounter : Nat)
    (sessionEstablishedAtUnixMillis : Nat) (sessionTtlMillis : Option Nat) (nowUnixMillis : Nat)
    (input : List UInt8) : Except String (ApplicationFrameRead × Nat × List UInt8) := do
  match ← readFrameBytes input with
  | none => .ok (.streamClosed, receiveCounter, [])
  | some (frame, rest) =>
    if sessionIsExpired sessionEstablishedAtUnixMillis sessionTtlMillis nowUnixMillis then
      .ok (.sessionExpired, receiveCounter, rest)
    else if session.encryptFrames then
      match decryptFramePayload A session .outbound receiveCounter frame with
      | .error detail => .error ("encrypted frame authentication failed: " ++ detail)
      | .ok plaintext => .ok (.frame plaintext frame.length, satAdd receiveCounter 1, rest)
    else .ok (.frame frame frame.length, receiveCounter, rest)

/-- The plaintexts that the loop of `handle_inbound` reads off a stream, until it stops or has read the
clock for the last time. -/
def receiveFrames (A : Aead) (session : SessionMaterial) (sessionEstablishedAtUnixMillis : Nat)
    (sessionTtlMillis : Option Nat) : List Nat → Nat → List UInt8 → List (List UInt8)
  | [], _, _ => []
  | nowUnixMillis :: clock, receiveCounter, input =>
    match readApplicationFrame A session receiveCounter sessionEstablishedAtUnixMillis
      sessionTtlMillis nowUnixMillis input with
    | .ok (.frame payload _, receiveCounter, rest) =>
      payload :: receiveFrames A session sessionEstablishedAtUnixMillis sessionTtlMillis clock
        receiveCounter rest
    | _ => []

end Entangrid
