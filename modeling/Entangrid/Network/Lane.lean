import Entangrid.Network

/-!
# A lane between two nodes (`send_message`, `handle_inbound`)

The worker of one peer keeps at most one stream and writes a message on it, after a fresh handshake where
there is none or the session has expired; on the other side every stream is read by a loop of its own.
`Lane` is both sides together. An action is one request of the worker, or one turn of a reading loop; the
clocks, the outcomes of connecting and those of writing come with it (`Attempt`). What is written arrives.

Left out: the metrics, and the delay of the fault profile, which is time that passes.
-/

namespace Entangrid

/-! ## Messages and events -/

structure SignedEnvelope where
  fromValidatorId : ValidatorId
  messageHash : HashBytes
  signature : TypedSignature
  payload : ProtocolMessage

inductive NetworkFailureKind where
  | faultInjected | transport | peerConfig
deriving DecidableEq

inductive NetworkEvent where
  | received (fromValidatorId : ValidatorId) (payload : ProtocolMessage) (bytes : Nat)
  | sessionObserved (peerValidatorId : ValidatorId) (transcriptHash : HashBytes) (outbound : Bool)
      (serviceAccountable : Bool)
  | sessionFailed (peerValidatorId : Option ValidatorId) (detail : String) (outbound : Bool)
      (serviceAccountable : Bool) (kind : NetworkFailureKind)

structure OutboundRequest where
  payload : ProtocolMessage
  serviceAccountable : Bool

/-- `should_drop` compares floats: which messages it drops is a parameter. -/
structure FaultProfile where
  disableOutbound : Bool := false
  shouldDrop : ValidatorId → HashBytes → Bool := fun _ _ => false

/-- The two ends of a lane: the sender's and the receiver's identities, backends and configurations, and
the code of others that both run on. -/
structure LaneEnv where
  aead : Aead
  /-- `canonical_hash` of a message. -/
  canonicalHash : ProtocolMessage → HashBytes
  /-- `bincode`, of envelopes. -/
  bincode : Codec String SignedEnvelope
  localValidatorId : ValidatorId
  peerValidatorId : ValidatorId
  localCrypto : CryptoBackend
  peerCrypto : CryptoBackend
  faultProfile : FaultProfile := {}
  localSessionTtlMillis : Option Nat
  peerSessionTtlMillis : Option Nat

/-! ## The two sides -/

inductive StreamStatus where
  | reading
  | closed
  | expired (nowUnixMillis : Nat)
  | failed
deriving DecidableEq

/-- A stream as `handle_inbound` has it after the handshake. -/
structure InboundStream where
  session : SessionMaterial
  receiveCounter : Nat := 0
  sessionEstablishedAtUnixMillis : Nat
  sessionTtlMillis : Option Nat
  /-- What has arrived and is not read. -/
  input : List UInt8 := []
  /-- The sender has dropped the stream. -/
  ended : Bool := false
  status : StreamStatus := .reading
  events : List NetworkEvent := []

structure EstablishedOutboundStream where
  /-- The stream's place among the streams of the lane. -/
  stream : Nat
  session : SessionMaterial
  sendCounter : Nat := 0
  sessionEstablishedAtUnixMillis : Nat
  sessionTtlMillis : Option Nat

structure Lane where
  outbound : Option EstablishedOutboundStream := none
  streams : List InboundStream := []
  /-- What the sender's node is told. -/
  events : List NetworkEvent := []
  /-- The messages for which `send_message` returned `Ok`, and the streams that carry them. -/
  sent : List (Option Nat × ProtocolMessage) := []

/-! ## Sending -/

/-- A connection with its handshake: the session, and when each side took it for established. -/
structure Connection where
  session : SessionMaterial
  sessionEstablishedAtUnixMillis : Nat
  peerSessionEstablishedAtUnixMillis : Nat

/-- How writing a frame ends. A write that fails may have put some bytes on the stream. -/
inductive WriteResult where
  | written
  | failed (writtenBytes : Nat) (retryable : Bool) (detail : String)

/-- What one turn of the loop of `send_message` meets: the clock, the connection if it needs one, and the
write. -/
structure Attempt where
  nowUnixMillis : Nat
  connection : Except String Connection
  write : WriteResult

structure SendError where
  retryable : Bool
  detail : String

section
variable (L : LaneEnv)

namespace Lane

/-- `*stream = None`, which drops the connection. -/
def dropStream (lane : Lane) : Lane :=
  match lane.outbound with
  | none => lane
  | some established =>
    { lane with
      outbound := none
      streams := lane.streams.modify established.stream fun s => { s with ended := true } }

def dropExpired (nowUnixMillis : Nat) (lane : Lane) : Lane :=
  match lane.outbound with
  | none => lane
  | some established =>
    if sessionIsExpired established.sessionEstablishedAtUnixMillis established.sessionTtlMillis
      nowUnixMillis
    then lane.dropStream
    else lane

/-- Connect and shake hands if there is no stream. -/
def connected (connection : Except String Connection) (lane : Lane) :
    Except String (EstablishedOutboundStream × Lane) :=
  match lane.outbound with
  | some established => .ok (established, lane)
  | none =>
    match connection with
    | .error detail => .error detail
    | .ok connection =>
      let established : EstablishedOutboundStream :=
        { stream := lane.streams.length
          session := connection.session
          sessionEstablishedAtUnixMillis := connection.sessionEstablishedAtUnixMillis
          sessionTtlMillis :=
            effectiveSessionTtlMillis connection.session L.localSessionTtlMillis }
      let inbound : InboundStream :=
        { session := connection.session
          sessionEstablishedAtUnixMillis := connection.peerSessionEstablishedAtUnixMillis
          sessionTtlMillis := effectiveSessionTtlMillis connection.session L.peerSessionTtlMillis }
      .ok (established,
        { lane with outbound := some established, streams := lane.streams ++ [inbound] })

/-- Bytes arrive on a stream. -/
def deliver (stream : Nat) (bytes : List UInt8) (lane : Lane) : Lane :=
  { lane with
    streams := lane.streams.modify stream fun s => { s with input := s.input ++ bytes } }

/-- One turn of the loop of `send_message`; `Ok` with the stream it has written on. -/
def attempt (bytes : List UInt8) (a : Attempt) (lane : Lane) :
    Except SendError EstablishedOutboundStream × Lane :=
  let lane := lane.dropExpired a.nowUnixMillis
  match lane.connected L a.connection with
  | .error detail => (.error ⟨false, detail⟩, lane)
  | .ok (established, lane) =>
    match writeApplicationFrame L.aead established.session established.sendCounter bytes with
    | .error detail => (.error ⟨false, detail⟩, lane.dropStream)
    | .ok (frame, sendCounter) =>
      match a.write with
      | .written =>
        let established := { established with sendCounter }
        (.ok established,
          { lane.deliver established.stream frame with outbound := some established })
      | .failed writtenBytes retryable detail =>
        (.error ⟨retryable, detail⟩,
          (lane.deliver established.stream (frame.take writtenBytes)).dropStream)

end Lane

def signEnvelope (payload : ProtocolMessage) : Except String SignedEnvelope := do
  let messageHash := L.canonicalHash payload
  let signature ← L.localCrypto.sign L.localValidatorId messageHash
  .ok { fromValidatorId := L.localValidatorId, messageHash, signature, payload }

/-- `Ok` with the stream that carries the message, or none where the fault profile has dropped it. -/
def sendMessage (request : OutboundRequest) (first second : Attempt) (lane : Lane) :
    Except String (Option Nat) × Lane :=
  let faultInjected (detail : String) : Except String (Option Nat) × Lane :=
    (.ok none,
      { lane with
        events := lane.events ++
          [.sessionFailed (some L.peerValidatorId) detail true request.serviceAccountable
            .faultInjected] })
  let observed (established : EstablishedOutboundStream) (lane : Lane) :
      Except String (Option Nat) × Lane :=
    (.ok (some established.stream),
      { lane with
        events := lane.events ++
          [.sessionObserved L.peerValidatorId established.session.transcriptHash true
            request.serviceAccountable] })
  if L.faultProfile.disableOutbound then faultInjected "outbound disabled by fault profile"
  else if L.faultProfile.shouldDrop L.peerValidatorId (L.canonicalHash request.payload) then
    faultInjected "outbound message dropped by fault profile"
  else
    match signEnvelope L request.payload with
    | .error detail => (.error detail, lane)
    | .ok envelope =>
      let bytes := L.bincode.encode envelope
      match lane.attempt L bytes first with
      | (.ok established, lane) => observed established lane
      | (.error e, lane) =>
        if !e.retryable then (.error e.detail, lane)
        else
          match lane.attempt L bytes second with
          | (.ok established, lane) => observed established lane
          | (.error e, lane) => (.error e.detail, lane)

/-- A request of the worker, which reports an error of `send_message`. -/
def Lane.send (request : OutboundRequest) (first second : Attempt) (lane : Lane) : Lane :=
  match sendMessage L request first second lane with
  | (.ok carrier, lane) => { lane with sent := lane.sent ++ [(carrier, request.payload)] }
  | (.error detail, lane) =>
    { lane with
      events := lane.events ++
        [.sessionFailed (some L.peerValidatorId) detail true request.serviceAccountable .transport] }

/-! ## Receiving -/

/-- `decode_frame`, of a signed envelope. -/
def decodeEnvelope (frame : List UInt8) : Except String SignedEnvelope :=
  match L.bincode.decode frame with
  | .error error => .error ("failed to decode signed envelope: " ++ error)
  | .ok (envelope, _) => .ok envelope

/-- What the loop of `handle_inbound` does with a frame: the events it sends, and whether it goes on. -/
def receiveEnvelope (session : SessionMaterial) (frame : List UInt8) :
    List NetworkEvent × Except String Unit :=
  match decodeEnvelope L frame with
  | .error detail => ([], .error detail)
  | .ok envelope =>
    if L.canonicalHash envelope.payload ≠ envelope.messageHash then ([], .error "payload hash mismatch")
    else if envelope.fromValidatorId ≠ L.localValidatorId then
      ([], .error ("envelope validator " ++ toString envelope.fromValidatorId ++
        " does not match established peer " ++ toString L.localValidatorId))
    else
      let observed := .sessionObserved L.localValidatorId session.transcriptHash false true
      match L.peerCrypto.verify envelope.fromValidatorId envelope.messageHash envelope.signature with
      | .error detail => ([observed], .error detail)
      | .ok false => ([observed], .error "invalid envelope signature")
      | .ok true =>
        ([observed, .received envelope.fromValidatorId envelope.payload frame.length], .ok ())

/-- The length of the next frame and its body are in, or the length alone and too large. -/
def frameIsIn (input : List UInt8) : Bool :=
  let frameLen := ofBeBytes (input.take 4)
  decide (4 ≤ input.length) &&
    (decide (maxFrameSizeBytes < frameLen) || decide (frameLen ≤ (input.drop 4).length))

namespace InboundStream

/-- `handle_inbound` returns with an error, which is reported. -/
def fail (s : InboundStream) (detail : String) : InboundStream :=
  { s with
    status := .failed
    events := s.events ++ [.sessionFailed none detail false false .transport] }

/-- One turn of the loop of `handle_inbound`. It waits while neither a frame nor the end is in. -/
def receive (nowUnixMillis : Nat) (s : InboundStream) : InboundStream :=
  if s.status ≠ .reading then s
  else if !s.ended && !frameIsIn s.input then s
  else
    match readApplicationFrame L.aead s.session s.receiveCounter s.sessionEstablishedAtUnixMillis
      s.sessionTtlMillis nowUnixMillis s.input with
    | .error detail => s.fail detail
    | .ok (.streamClosed, _, input) => { s with status := .closed, input }
    | .ok (.sessionExpired, _, input) => { s with status := .expired nowUnixMillis, input }
    | .ok (.frame frame _, receiveCounter, input) =>
      let (events, result) := receiveEnvelope L s.session frame
      let s := { s with receiveCounter, input, events := s.events ++ events }
      match result with
      | .ok () => s
      | .error detail => s.fail detail

/-- The messages that the stream has handed to the node. -/
def received (s : InboundStream) : List ProtocolMessage :=
  s.events.filterMap fun
    | .received _ payload _ => some payload
    | _ => none

end InboundStream

/-! ## Runs -/

inductive LaneAction where
  | send (request : OutboundRequest) (first second : Attempt)
  | receive (stream : Nat) (nowUnixMillis : Nat)

def LaneAction.reads (stream : Nat) : LaneAction → Bool
  | .send .. => false
  | .receive stream' _ => stream' == stream

def Lane.step (lane : Lane) : LaneAction → Lane
  | .send request first second => lane.send L request first second
  | .receive stream nowUnixMillis =>
    { lane with streams := lane.streams.modify stream (·.receive L nowUnixMillis) }

def Lane.run (lane : Lane) (actions : List LaneAction) : Lane := actions.foldl (·.step L) lane

end

/-- The messages that a stream carries. -/
def Lane.sentOn (lane : Lane) (stream : Nat) : List ProtocolMessage :=
  lane.sent.filterMap fun (carrier, payload) => if carrier = some stream then some payload else none

end Entangrid
