import Entangrid.Network.Lane
import Entangrid.Network.Proof.Frames
import Entangrid.Sample

/-!
# What a lane delivers

`send_message` does not learn what becomes of a frame: the receiver's own clock decides, once the frame
is in, whether its session has expired, and the frame is dropped then.

* `LaneInv`: a stream holds the frames of the messages that were sent on it and are not handed over.
* `sent_messages_arrive_unless_expired`: a message for which `send_message` returned `Ok` is handed over
  by a receiver that reads on, unless the receiver found its session expired.
-/

namespace Entangrid

section
variable (L : LaneEnv)

/-- The receiver can accept an envelope. -/
structure GoesThrough (envelope : SignedEnvelope) : Prop where
  decode_encode : L.bincode.decode (L.bincode.encode envelope) = .ok (envelope, [])
  fits : (L.bincode.encode envelope).length + frameTagSizeBytes ≤ maxFrameSizeBytes
  verifies : L.peerCrypto.verify envelope.fromValidatorId envelope.messageHash envelope.signature =
    .ok true

/-- A message whose envelope, if the sender can sign it, the receiver can accept. -/
def Deliverable (payload : ProtocolMessage) : Prop :=
  ∀ envelope, signEnvelope L payload = .ok envelope → GoesThrough L envelope

/-- The bytes of messages on a stream, from a counter to the next. -/
inductive Framed (session : SessionMaterial) : Nat → List ProtocolMessage → List UInt8 → Nat → Prop
  | nil (counter : Nat) : Framed session counter [] [] counter
  | cons {counter nextCounter counter' : Nat} {payload : ProtocolMessage} {envelope : SignedEnvelope}
      {payloads : List ProtocolMessage} {frame bytes : List UInt8}
      (hsign : signEnvelope L payload = .ok envelope) (hgoes : GoesThrough L envelope)
      (hwrite : writeApplicationFrame L.aead session counter (L.bincode.encode envelope) =
        .ok (frame, nextCounter))
      (hrest : Framed session nextCounter payloads bytes counter') :
      Framed session counter (payload :: payloads) (frame ++ bytes) counter'

namespace InboundStream

/-- The receiver found the session expired, by its own clock and its own bound. -/
def Expired (s : InboundStream) : Prop :=
  ∃ now, s.status = .expired now ∧
    sessionIsExpired s.sessionEstablishedAtUnixMillis s.sessionTtlMillis now = true

/-- The frames of some messages are next on a stream, which is still read. -/
structure Holds (s : InboundStream) (pending : List ProtocolMessage) : Prop where
  reading : s.status = .reading
  input : ∃ bytes tail counter, s.input = bytes ++ tail ∧
    Framed L s.session s.receiveCounter pending bytes counter

/-- The messages are handed over, or will be after a number of reads, unless the session is expired by
then. -/
def Carries (s : InboundStream) (sent : List ProtocolMessage) (reads : Nat) : Prop :=
  s.Expired ∨ sent <+: s.received ∨
    ∃ pending, pending.length ≤ reads ∧ sent = s.received ++ pending ∧ s.Holds L pending

/-- The stream that the sender is writing on holds what is not handed over, and nothing else. -/
def InUse (s : InboundStream) (established : EstablishedOutboundStream)
    (sent : List ProtocolMessage) : Prop :=
  s.Expired ∨ (s.status = .reading ∧ s.ended = false ∧ established.session = s.session ∧
    ∃ pending, sent = s.received ++ pending ∧
      Framed L s.session s.receiveCounter pending s.input established.sendCounter)

end InboundStream
end

variable {L : LaneEnv}

/-! ## Reading a stream -/

theorem signEnvelope_ok {payload : ProtocolMessage} {envelope : SignedEnvelope}
    (h : signEnvelope L payload = .ok envelope) :
    envelope.payload = payload ∧ envelope.fromValidatorId = L.localValidatorId ∧
      envelope.messageHash = L.canonicalHash payload := by
  obtain ⟨signature, -, h⟩ := except_bind_ok.1 h
  obtain rfl := Except.ok.inj h
  exact ⟨rfl, rfl, rfl⟩

/-- An envelope that goes through is handed over. -/
theorem receiveEnvelope_goesThrough {payload : ProtocolMessage} {envelope : SignedEnvelope}
    (hsign : signEnvelope L payload = .ok envelope) (h : GoesThrough L envelope)
    (session : SessionMaterial) :
    ∃ observed bytes, receiveEnvelope L session (L.bincode.encode envelope) =
      ([.sessionObserved L.localValidatorId observed false true,
        .received L.localValidatorId payload bytes], .ok ()) := by
  obtain ⟨rfl, hfrom, hhash⟩ := signEnvelope_ok hsign
  have hverifies := h.verifies
  rw [hfrom, hhash] at hverifies
  refine ⟨session.transcriptHash, (L.bincode.encode envelope).length, ?_⟩
  simp [receiveEnvelope, decodeEnvelope, h.decode_encode, hverifies, hfrom, hhash]

theorem frameIsIn_of_read {input frame rest : List UInt8}
    (h : readFrameBytes input = .ok (some (frame, rest))) : frameIsIn input = true := by
  unfold readFrameBytes at h
  dsimp only at h
  split_ifs at h with hlength hmax hrest
  · cases h
  · unfold frameIsIn
    simp only [Bool.and_eq_true, Bool.or_eq_true, decide_eq_true_eq]
    exact ⟨by omega, .inr (by omega)⟩

namespace InboundStream

variable {s : InboundStream} {sent pending : List ProtocolMessage} {reads : Nat}

theorem receive_of_not_reading (h : s.status ≠ .reading) (now : Nat) : s.receive L now = s := by
  unfold receive
  rw [if_pos h]

theorem Expired.receive (h : s.Expired) (now : Nat) : (s.receive L now).Expired := by
  obtain ⟨now', hstatus, hexpired⟩ := h
  rw [receive_of_not_reading (by simp [hstatus])]
  exact ⟨now', hstatus, hexpired⟩

/-- The session and its bounds stay. -/
theorem receive_session (s : InboundStream) (now : Nat) :
    (s.receive L now).session = s.session ∧
      (s.receive L now).sessionTtlMillis = s.sessionTtlMillis ∧
      (s.receive L now).sessionEstablishedAtUnixMillis = s.sessionEstablishedAtUnixMillis := by
  unfold receive
  split_ifs
  · exact ⟨rfl, rfl, rfl⟩
  · exact ⟨rfl, rfl, rfl⟩
  · split
    · exact ⟨rfl, rfl, rfl⟩
    · exact ⟨rfl, rfl, rfl⟩
    · exact ⟨rfl, rfl, rfl⟩
    · dsimp only
      split <;> exact ⟨rfl, rfl, rfl⟩

/-- What is handed over stays so. -/
theorem received_prefix_receive (s : InboundStream) (now : Nat) :
    s.received <+: (s.receive L now).received := by
  have happend (events : List NetworkEvent) (s' : InboundStream) (h : s'.events = s.events ++ events) :
      s.received <+: s'.received := by
    unfold received
    rw [h, List.filterMap_append]
    exact List.prefix_append _ _
  unfold receive
  split_ifs
  · exact List.prefix_rfl
  · exact List.prefix_rfl
  · split
    · exact happend _ _ rfl
    · exact List.prefix_rfl
    · exact List.prefix_rfl
    · dsimp only
      split
      · exact happend _ _ rfl
      · exact happend _ _ (List.append_assoc _ _ _)

/-- A turn on a frame that goes through: the session has expired, or the message is handed over. -/
theorem receive_frame (hA : L.aead.Correct) (hreading : s.status = .reading)
    {payload : ProtocolMessage} {envelope : SignedEnvelope} {frame rest : List UInt8}
    {nextCounter : Nat} (hsign : signEnvelope L payload = .ok envelope)
    (hgoes : GoesThrough L envelope)
    (hwrite : writeApplicationFrame L.aead s.session s.receiveCounter (L.bincode.encode envelope) =
      .ok (frame, nextCounter)) (hinput : s.input = frame ++ rest) (now : Nat) :
    (s.receive L now).Expired ∨ ∃ observed bytes, s.receive L now =
      { s with
        receiveCounter := nextCounter, input := rest
        events := s.events ++ [.sessionObserved L.localValidatorId observed false true,
          .received L.localValidatorId payload bytes] } := by
  have hfits := (applicationFrameLength_le s.session _).trans hgoes.fits
  obtain ⟨_, hread, -⟩ := readFrameBytes_written hA hfits hwrite rest
  have hin := frameIsIn_of_read hread
  have hturn := readApplicationFrame_written hA hfits hwrite s.sessionEstablishedAtUnixMillis
    s.sessionTtlMillis now rest
  rw [← hinput] at hin hturn
  have hwaits : ¬(!s.ended && !frameIsIn s.input) = true := by simp [hin]
  unfold receive
  rw [if_neg (not_not.2 hreading), if_neg hwaits]
  split_ifs at hturn with hexpired
  · refine .inl ⟨now, ?_, ?_⟩
    · simp only [hturn]
    · simpa only [hturn] using hexpired
  · obtain ⟨wireLen, hturn⟩ := hturn
    obtain ⟨observed, bytes, henvelope⟩ := receiveEnvelope_goesThrough hsign hgoes s.session
    exact .inr ⟨observed, bytes, by simp only [hturn, henvelope]⟩

/-- A turn on a stream that holds frames. -/
theorem Holds.receive (hA : L.aead.Correct) {payload : ProtocolMessage}
    (h : s.Holds L (payload :: pending)) (now : Nat) :
    (s.receive L now).Expired ∨
      ((s.receive L now).received = s.received ++ [payload] ∧ (s.receive L now).Holds L pending) := by
  obtain ⟨hreading, bytes, tail, counter, hinput, hframed⟩ := h
  cases hframed with
  | cons hsign hgoes hwrite hrest =>
    rw [List.append_assoc] at hinput
    rcases receive_frame hA hreading hsign hgoes hwrite hinput now with hexpired | ⟨_, _, hturn⟩
    · exact .inl hexpired
    · rw [hturn]
      refine .inr ⟨?_, hreading, _, tail, counter, rfl, hrest⟩
      simp [received]

/-- A turn brings a stream nearer to having handed over what it carries. -/
theorem Carries.receive (hA : L.aead.Correct) (h : s.Carries L sent reads) (now : Nat) :
    (s.receive L now).Carries L sent (reads - 1) := by
  rcases h with hexpired | hdone | ⟨pending, hlength, hsent, hholds⟩
  · exact .inl (hexpired.receive now)
  · exact .inr (.inl (hdone.trans (s.received_prefix_receive now)))
  · cases pending with
    | nil =>
      rw [List.append_nil] at hsent
      exact .inr (.inl (hsent ▸ s.received_prefix_receive now))
    | cons payload pending =>
      rcases hholds.receive hA now with hexpired | ⟨hreceived, hholds⟩
      · exact .inl hexpired
      · refine .inr (.inr ⟨pending, Nat.le_sub_one_of_lt hlength, ?_, hholds⟩)
        rw [hreceived, hsent, List.append_assoc, List.singleton_append]

theorem Carries.mono {reads' : Nat} (h : s.Carries L sent reads) (hle : reads ≤ reads') :
    s.Carries L sent reads' :=
  h.imp_right (.imp_right fun ⟨pending, hlength, hrest⟩ => ⟨pending, hlength.trans hle, hrest⟩)

/-- What arrives later, or the end of the stream, changes nothing for what is carried. -/
theorem Carries.arrive (h : s.Carries L sent reads) (bytes : List UInt8) (ended : Bool) :
    Carries L { s with input := s.input ++ bytes, ended } sent reads := by
  rcases h with hexpired | hdone | ⟨pending, hlength, hsent, hreading, front, tail, counter, hinput,
    hframed⟩
  · exact .inl hexpired
  · exact .inr (.inl hdone)
  · refine .inr (.inr ⟨pending, hlength, hsent, hreading, front, tail ++ bytes, counter, ?_, hframed⟩)
    rw [hinput, List.append_assoc]

/-- After enough turns everything is handed over, or the session has expired. -/
theorem Carries.done (h : s.Carries L sent 0) : s.Expired ∨ sent <+: s.received := by
  rcases h with hexpired | hdone | ⟨pending, hlength, hsent, -⟩
  · exact .inl hexpired
  · exact .inr hdone
  · obtain rfl := List.length_eq_zero_iff.1 (Nat.le_zero.1 hlength)
    rw [List.append_nil] at hsent
    exact .inr (hsent ▸ List.prefix_rfl)

/-! ## The stream in use -/

variable {established : EstablishedOutboundStream}

theorem InUse.fresh (session : SessionMaterial) (peerEstablishedAt : Nat) (peerTtl : Option Nat)
    (stream establishedAt : Nat) (ttl : Option Nat) :
    InUse L
      { session, sessionEstablishedAtUnixMillis := peerEstablishedAt, sessionTtlMillis := peerTtl }
      { stream, session, sessionEstablishedAtUnixMillis := establishedAt, sessionTtlMillis := ttl } [] :=
  .inr ⟨rfl, rfl, rfl, [], rfl, .nil 0⟩

theorem InUse.carries (h : s.InUse L established sent) : s.Carries L sent sent.length := by
  rcases h with hexpired | ⟨hreading, -, -, pending, hsent, hframed⟩
  · exact .inl hexpired
  · refine .inr (.inr ⟨pending, ?_, hsent, hreading, s.input, [], _, (List.append_nil _).symm, hframed⟩)
    rw [hsent, List.length_append]
    omega

theorem InUse.receive (hA : L.aead.Correct) (h : s.InUse L established sent) (now : Nat) :
    (s.receive L now).InUse L established sent := by
  rcases h with hexpired | ⟨hreading, hopen, hsession, pending, hsent, hframed⟩
  · exact .inl (hexpired.receive now)
  · generalize hinput : s.input = input at hframed
    generalize hcounter : s.receiveCounter = counter at hframed
    generalize hnext : established.sendCounter = next at hframed
    cases hframed with
    | nil =>
      have hwaits : s.receive L now = s := by
        unfold InboundStream.receive
        rw [if_neg (not_not.2 hreading), if_pos (by rw [hopen, hinput]; rfl)]
      rw [hwaits]
      refine .inr ⟨hreading, hopen, hsession, [], hsent, ?_⟩
      rw [hinput, hcounter, hnext]
      exact .nil _
    | cons hsign hgoes hwrite hrest =>
      rw [← hcounter] at hwrite
      rcases receive_frame hA hreading hsign hgoes hwrite hinput now with hexpired | ⟨_, _, hturn⟩
      · exact .inl hexpired
      · rw [hturn]
        refine .inr ⟨hreading, hopen, hsession, _, ?_, hnext ▸ hrest⟩
        rw [hsent]
        simp [received]

end InboundStream

theorem Framed.snoc {session : SessionMaterial} {counter counter' nextCounter : Nat}
    {payloads : List ProtocolMessage} {bytes frame : List UInt8} {payload : ProtocolMessage}
    {envelope : SignedEnvelope} (h : Framed L session counter payloads bytes counter')
    (hsign : signEnvelope L payload = .ok envelope) (hgoes : GoesThrough L envelope)
    (hwrite : writeApplicationFrame L.aead session counter' (L.bincode.encode envelope) =
      .ok (frame, nextCounter)) :
    Framed L session counter (payloads ++ [payload]) (bytes ++ frame) nextCounter := by
  induction h with
  | nil => simpa using Framed.cons hsign hgoes hwrite (.nil _)
  | cons hsign' hgoes' hwrite' _ ih =>
    rw [List.append_assoc, List.cons_append]
    exact .cons hsign' hgoes' hwrite' (ih hwrite)

/-! ## Sending -/

/-- The streams of a lane later on, as far as the sender acts: more may have arrived on them, and there
may be more of them. -/
def Lane.Arrives (lane lane' : Lane) : Prop :=
  ∀ (i : Nat) (s : InboundStream), lane.streams[i]? = some s →
    ∃ bytes ended, lane'.streams[i]? = some { s with input := s.input ++ bytes, ended }

namespace Lane

variable {lane lane' : Lane}

theorem Arrives.rfl : lane.Arrives lane := by
  intro i s hs
  refine ⟨[], s.ended, ?_⟩
  rw [List.append_nil]
  exact hs

theorem Arrives.trans {lane'' : Lane} (h : lane.Arrives lane') (h' : lane'.Arrives lane'') :
    lane.Arrives lane'' := by
  intro i s hs
  obtain ⟨bytes, ended, hs'⟩ := h i s hs
  obtain ⟨bytes', ended', hs''⟩ := h' i _ hs'
  exact ⟨bytes ++ bytes', ended', by rw [hs'', List.append_assoc]⟩

theorem arrives_deliver (lane : Lane) (stream : Nat) (bytes : List UInt8) :
    lane.Arrives (lane.deliver stream bytes) := by
  intro i s hs
  unfold deliver
  simp only [List.getElem?_modify, hs, Option.map_eq_map, Option.map_some]
  by_cases hi : stream = i
  · exact ⟨bytes, s.ended, by rw [if_pos hi]⟩
  · exact ⟨[], s.ended, by rw [if_neg hi, List.append_nil]⟩

theorem arrives_dropStream (lane : Lane) : lane.Arrives lane.dropStream := by
  intro i s hs
  unfold dropStream
  split
  · exact ⟨[], s.ended, by rw [List.append_nil]; exact hs⟩
  · next established _ =>
    simp only [List.getElem?_modify, hs, Option.map_eq_map, Option.map_some]
    by_cases hi : established.stream = i
    · exact ⟨[], true, by rw [if_pos hi, List.append_nil]⟩
    · exact ⟨[], s.ended, by rw [if_neg hi, List.append_nil]⟩

theorem arrives_dropExpired (lane : Lane) (now : Nat) : lane.Arrives (lane.dropExpired now) := by
  unfold dropExpired
  split
  · exact .rfl
  · split_ifs
    · exact lane.arrives_dropStream
    · exact .rfl

theorem arrives_connected {connection : Except String Connection}
    {established : EstablishedOutboundStream}
    (h : lane.connected L connection = .ok (established, lane')) : lane.Arrives lane' := by
  unfold connected at h
  split at h
  · obtain ⟨-, rfl⟩ := Prod.mk.inj (Except.ok.inj h)
    exact .rfl
  · split at h
    · cases h
    · obtain ⟨-, rfl⟩ := Prod.mk.inj (Except.ok.inj h)
      intro i s hs
      refine ⟨[], s.ended, ?_⟩
      rw [List.append_nil, List.getElem?_append_left (List.getElem?_eq_some_iff.1 hs).1]
      exact hs

theorem arrives_attempt (bytes : List UInt8) (a : Attempt) (lane : Lane) :
    lane.Arrives (lane.attempt L bytes a).2 := by
  have hdrop := lane.arrives_dropExpired a.nowUnixMillis
  unfold attempt
  dsimp only
  split
  · exact hdrop
  · next established lane₁ hconnected =>
    have hlane₁ := hdrop.trans (arrives_connected hconnected)
    split
    · exact hlane₁.trans lane₁.arrives_dropStream
    · next frame _ _ =>
      split
      · exact hlane₁.trans (lane₁.arrives_deliver established.stream frame)
      · exact hlane₁.trans ((lane₁.arrives_deliver _ _).trans (arrives_dropStream _))

theorem arrives_sendMessage (request : OutboundRequest) (first second : Attempt) (lane : Lane) :
    lane.Arrives (sendMessage L request first second lane).2 := by
  unfold sendMessage
  dsimp only
  split_ifs
  · exact .rfl
  · exact .rfl
  · split
    · exact .rfl
    · next envelope _ =>
      have hfirst := arrives_attempt (L := L) (L.bincode.encode envelope) first lane
      split
      · next hattempt =>
        rw [hattempt] at hfirst
        exact hfirst
      · next lane₁ hattempt =>
        rw [hattempt] at hfirst
        split_ifs
        · exact hfirst
        · have hsecond := arrives_attempt (L := L) (L.bincode.encode envelope) second lane₁
          split
          · next hattempt =>
            rw [hattempt] at hsecond
            exact hfirst.trans hsecond
          · next hattempt =>
            rw [hattempt] at hsecond
            exact hfirst.trans hsecond

theorem arrives_send (request : OutboundRequest) (first second : Attempt) (lane : Lane) :
    lane.Arrives (lane.send L request first second) := by
  have h := arrives_sendMessage (L := L) request first second lane
  unfold send
  split
  · next hsend =>
    rw [hsend] at h
    exact h
  · next hsend =>
    rw [hsend] at h
    exact h

end Lane

/-! ## The invariant -/

section
variable (L)

/-- A fault of the profile keeps the message from being sent. -/
def FaultInjected (payload : ProtocolMessage) : Prop :=
  L.faultProfile.disableOutbound = true ∨
    L.faultProfile.shouldDrop L.peerValidatorId (L.canonicalHash payload) = true

/-- Every stream carries the messages that were sent on it. -/
structure LaneInv (lane : Lane) : Prop where
  carries : ∀ (i : Nat) (s : InboundStream), lane.streams[i]? = some s →
    s.Carries L (lane.sentOn i) (lane.sentOn i).length
  inUse : ∀ established, lane.outbound = some established →
    ∃ s, lane.streams[established.stream]? = some s ∧
      s.InUse L established (lane.sentOn established.stream)
  carrier : ∀ i payload, (some i, payload) ∈ lane.sent → i < lane.streams.length
  injected : ∀ payload, (none, payload) ∈ lane.sent → FaultInjected L payload
  ttl : ∀ s ∈ lane.streams,
    s.sessionTtlMillis = effectiveSessionTtlMillis s.session L.peerSessionTtlMillis

end

theorem Lane.sentOn_append (lane : Lane) (carrier : Option Nat) (payload : ProtocolMessage) (i : Nat) :
    Lane.sentOn { lane with sent := lane.sent ++ [(carrier, payload)] } i =
      lane.sentOn i ++ if carrier = some i then [payload] else [] := by
  unfold sentOn
  rw [List.filterMap_append]
  by_cases hi : carrier = some i <;> simp [hi]

namespace LaneInv

variable {lane lane' : Lane}

theorem initial : LaneInv L {} where
  carries i s hs := by simp at hs
  inUse established h := by cases h
  carrier i payload h := by cases h
  injected payload h := by cases h
  ttl s h := by cases h

theorem withEvents (h : LaneInv L lane) (events : List NetworkEvent) :
    LaneInv L { lane with events } :=
  ⟨h.carries, h.inUse, h.carrier, h.injected, h.ttl⟩

/-- A stream on which nothing is sent. -/
theorem sentOn_of_le (h : LaneInv L lane) {i : Nat} (hi : lane.streams.length ≤ i) :
    lane.sentOn i = [] := by
  refine List.filterMap_eq_nil_iff.2 fun (carrier, payload) hmem => ?_
  refine if_neg fun hcarrier : carrier = some i => ?_
  subst hcarrier
  have := h.carrier i payload hmem
  omega

/-- The sender has dropped its stream, whatever arrived on it before. -/
theorem of_arrives (h : LaneInv L lane) (harrives : lane.Arrives lane')
    (hlength : lane'.streams.length = lane.streams.length) (hsent : lane'.sent = lane.sent)
    (houtbound : lane'.outbound = none) : LaneInv L lane' := by
  have hstream (i : Nat) (s' : InboundStream) (hs' : lane'.streams[i]? = some s') :
      ∃ s bytes ended, lane.streams[i]? = some s ∧
        s' = { s with input := s.input ++ bytes, ended } := by
    obtain ⟨hi, -⟩ := List.getElem?_eq_some_iff.1 hs'
    have hs := List.getElem?_eq_getElem (l := lane.streams) (hlength ▸ hi)
    obtain ⟨bytes, ended, hs''⟩ := harrives i _ hs
    exact ⟨_, bytes, ended, hs, Option.some.inj (hs'.symm.trans hs'')⟩
  have hsentOn (i : Nat) : lane'.sentOn i = lane.sentOn i := by rw [Lane.sentOn, hsent, Lane.sentOn]
  refine ⟨fun i s' hs' => ?_, fun established he => ?_, ?_, ?_, fun s' hs' => ?_⟩
  · obtain ⟨s, bytes, ended, hs, rfl⟩ := hstream i s' hs'
    rw [hsentOn]
    exact (h.carries i s hs).arrive bytes ended
  · rw [houtbound] at he
    cases he
  · rw [hsent, hlength]
    exact h.carrier
  · rw [hsent]
    exact h.injected
  · obtain ⟨i, hi⟩ := List.mem_iff_getElem?.1 hs'
    obtain ⟨s, bytes, ended, hs, rfl⟩ := hstream i s' hi
    exact h.ttl s (List.mem_of_getElem? hs)

theorem dropStream (h : LaneInv L lane) : LaneInv L lane.dropStream := by
  have harrives := lane.arrives_dropStream
  unfold Lane.dropStream at harrives ⊢
  split
  · exact h
  · next established houtbound =>
    rw [houtbound] at harrives
    exact h.of_arrives harrives (List.length_modify ..) rfl rfl

theorem dropExpired (h : LaneInv L lane) (now : Nat) : LaneInv L (lane.dropExpired now) := by
  unfold Lane.dropExpired
  split
  · exact h
  · split_ifs
    · exact h.dropStream
    · exact h

/-- A fresh stream carries nothing yet. -/
theorem connected (h : LaneInv L lane) {connection : Except String Connection}
    {established : EstablishedOutboundStream}
    (hconnected : lane.connected L connection = .ok (established, lane')) :
    LaneInv L lane' ∧ lane'.outbound = some established := by
  unfold Lane.connected at hconnected
  split at hconnected
  · next houtbound =>
    obtain ⟨rfl, rfl⟩ := Prod.mk.inj (Except.ok.inj hconnected)
    exact ⟨h, houtbound⟩
  · split at hconnected
    · cases hconnected
    · next connection =>
      obtain ⟨rfl, rfl⟩ := Prod.mk.inj (Except.ok.inj hconnected)
      have hnew := h.sentOn_of_le le_rfl
      refine ⟨⟨fun i s hs => ?_, fun established he => ?_, fun i payload hmem => ?_, h.injected,
        fun s hs => ?_⟩, rfl⟩
      · dsimp only at hs
        rcases Nat.lt_or_ge i lane.streams.length with hi | hi
        · rw [List.getElem?_append_left hi] at hs
          exact h.carries i s hs
        · rw [List.getElem?_append_right hi] at hs
          rw [List.getElem?_singleton] at hs
          split_ifs at hs with hlast
          obtain rfl : i = lane.streams.length := by omega
          obtain rfl := Option.some.inj hs
          exact hnew ▸ (InboundStream.InUse.fresh connection.session _ _ 0 0 none).carries
      · obtain rfl := Option.some.inj he
        refine ⟨_, List.getElem?_concat_length, ?_⟩
        exact hnew ▸ .fresh connection.session _ _ _ _ _
      · have := h.carrier i payload hmem
        rw [List.length_append]
        omega
      · rcases List.mem_append.1 hs with hs | hs
        · exact h.ttl s hs
        · obtain rfl := List.mem_singleton.1 hs
          rfl

/-- A frame that is written whole carries its message. -/
theorem written (h : LaneInv L lane) {established : EstablishedOutboundStream}
    (houtbound : lane.outbound = some established) {payload : ProtocolMessage}
    {envelope : SignedEnvelope} (hsign : signEnvelope L payload = .ok envelope)
    (hgoes : GoesThrough L envelope) {frame : List UInt8} {sendCounter : Nat}
    (hwrite : writeApplicationFrame L.aead established.session established.sendCounter
      (L.bincode.encode envelope) = .ok (frame, sendCounter)) :
    LaneInv L
      { lane.deliver established.stream frame with
        outbound := some { established with sendCounter }
        sent := lane.sent ++ [(some established.stream, payload)] } := by
  obtain ⟨s, hs, huse⟩ := h.inUse established houtbound
  have hstream (i : Nat) : (lane.deliver established.stream frame).streams[i]? =
      if established.stream = i then some { s with input := s.input ++ frame }
      else lane.streams[i]? := by
    unfold Lane.deliver
    rw [List.getElem?_modify]
    split_ifs with hi
    · subst hi
      rw [hs]
      rfl
    · exact congrFun Option.map_id _
  have hsentOn (i : Nat) : Lane.sentOn
      { lane.deliver established.stream frame with
        outbound := some { established with sendCounter }
        sent := lane.sent ++ [(some established.stream, payload)] } i =
      lane.sentOn i ++ if some established.stream = some i then [payload] else [] :=
    lane.sentOn_append (some established.stream) payload i
  have huse' : InboundStream.InUse L { s with input := s.input ++ frame }
      { established with sendCounter } (lane.sentOn established.stream ++ [payload]) := by
    rcases huse with hexpired | ⟨hreading, hopen, hsession, pending, hsent, hframed⟩
    · exact .inl hexpired
    · rw [hsession] at hwrite
      refine .inr ⟨hreading, hopen, hsession, pending ++ [payload], ?_,
        hframed.snoc hsign hgoes hwrite⟩
      rw [hsent, List.append_assoc]
      rfl
  refine ⟨fun i s' hs' => ?_, fun established' he => ?_, fun i payload' hmem => ?_,
    fun payload' hmem => ?_, fun s' hs' => ?_⟩
  · rw [hsentOn]
    rw [show _ = _ from hstream i] at hs'
    split_ifs at hs' with hi
    · obtain rfl := Option.some.inj hs'
      rw [if_pos (congrArg some hi), ← hi]
      exact huse'.carries
    · rw [if_neg fun h => hi (Option.some.inj h), List.append_nil]
      exact h.carries i s' hs'
  · obtain rfl := Option.some.inj he
    refine ⟨_, (hstream established.stream).trans (if_pos rfl), ?_⟩
    rw [hsentOn, if_pos rfl]
    exact huse'
  · rw [show (lane.deliver established.stream frame).streams.length = lane.streams.length from
      List.length_modify ..]
    rcases List.mem_append.1 hmem with hmem | hmem
    · exact h.carrier i payload' hmem
    · obtain ⟨rfl, -⟩ : i = established.stream ∧ payload' = payload := by simpa using hmem
      exact (List.getElem?_eq_some_iff.1 hs).1
  · rcases List.mem_append.1 hmem with hmem | hmem
    · exact h.injected payload' hmem
    · simp at hmem
  · obtain ⟨i, hi⟩ := List.mem_iff_getElem?.1 hs'
    rw [show _ = _ from hstream i] at hi
    split_ifs at hi
    · obtain rfl := Option.some.inj hi
      exact h.ttl s (List.mem_of_getElem? hs)
    · exact h.ttl s' (List.mem_of_getElem? hi)

/-- One turn of the loop of `send_message`. -/
theorem attempt (h : LaneInv L lane) {payload : ProtocolMessage} {envelope : SignedEnvelope}
    (hsign : signEnvelope L payload = .ok envelope) (hgoes : GoesThrough L envelope) (a : Attempt) :
    match lane.attempt L (L.bincode.encode envelope) a with
    | (.error _, lane') => LaneInv L lane'
    | (.ok established, lane') =>
      LaneInv L { lane' with sent := lane'.sent ++ [(some established.stream, payload)] } := by
  have hlane := h.dropExpired a.nowUnixMillis
  unfold Lane.attempt
  dsimp only
  cases hconnected : (lane.dropExpired a.nowUnixMillis).connected L a.connection with
  | error detail => exact hlane
  | ok connected =>
    obtain ⟨established, lane₁⟩ := connected
    obtain ⟨hlane₁, houtbound⟩ := hlane.connected hconnected
    dsimp only
    cases hwrite : writeApplicationFrame L.aead established.session established.sendCounter
        (L.bincode.encode envelope) with
    | error detail => exact hlane₁.dropStream
    | ok written =>
      obtain ⟨frame, sendCounter⟩ := written
      dsimp only
      cases a.write with
      | written => exact hlane₁.written houtbound hsign hgoes hwrite
      | failed writtenBytes retryable detail =>
        refine hlane₁.of_arrives ((lane₁.arrives_deliver _ _).trans (Lane.arrives_dropStream _)) ?_ ?_ ?_
        all_goals
          unfold Lane.dropStream Lane.deliver
          simp [houtbound]

theorem sendMessage (h : LaneInv L lane) {request : OutboundRequest}
    (hdeliverable : Deliverable L request.payload) (first second : Attempt) :
    match sendMessage L request first second lane with
    | (.error _, lane') => LaneInv L lane'
    | (.ok carrier, lane') =>
      LaneInv L { lane' with sent := lane'.sent ++ [(carrier, request.payload)] } := by
  have hinjected (hfault : FaultInjected L request.payload) (events : List NetworkEvent) :
      LaneInv L { lane with events, sent := lane.sent ++ [(none, request.payload)] } := by
    have hsentOn (i : Nat) := lane.sentOn_append none request.payload i
    simp only [reduceCtorEq, if_false, List.append_nil] at hsentOn
    refine ⟨fun i s hs => ?_, fun established he => ?_, fun i payload hmem => ?_,
      fun payload hmem => ?_, h.ttl⟩
    · exact (hsentOn i).symm ▸ h.carries i s hs
    · exact (hsentOn established.stream).symm ▸ h.inUse established he
    · rcases List.mem_append.1 hmem with hmem | hmem
      · exact h.carrier i payload hmem
      · simp at hmem
    · rcases List.mem_append.1 hmem with hmem | hmem
      · exact h.injected payload hmem
      · obtain rfl : payload = request.payload := by simpa using hmem
        exact hfault
  unfold Entangrid.sendMessage
  dsimp only
  split_ifs with hdisabled hdrop
  · exact hinjected (.inl hdisabled) _
  · exact hinjected (.inr hdrop) _
  · cases hsign : signEnvelope L request.payload with
    | error detail => exact h
    | ok envelope =>
      have hgoes := hdeliverable envelope hsign
      have hfirst := h.attempt hsign hgoes first
      dsimp only
      rcases hattempt : lane.attempt L (L.bincode.encode envelope) first with ⟨e | established, lane₁⟩
      · simp only [hattempt] at hfirst ⊢
        by_cases hretry : e.retryable = true
        · have hsecond := hfirst.attempt hsign hgoes second
          simp only [hretry, Bool.not_true, Bool.false_eq_true, if_false]
          rcases hattempt' : lane₁.attempt L (L.bincode.encode envelope) second with
            ⟨e' | established, lane₂⟩
          · simpa only [hattempt'] using hsecond
          · simp only [hattempt'] at hsecond ⊢
            exact hsecond.withEvents _
        · simpa [hretry] using hfirst
      · simp only [hattempt] at hfirst ⊢
        exact hfirst.withEvents _

theorem send (h : LaneInv L lane) {request : OutboundRequest}
    (hdeliverable : Deliverable L request.payload) (first second : Attempt) :
    LaneInv L (lane.send L request first second) := by
  have hsend := h.sendMessage hdeliverable first second
  unfold Lane.send
  rcases hresult : Entangrid.sendMessage L request first second lane with ⟨detail | carrier, lane'⟩
  · simp only [hresult] at hsend ⊢
    exact hsend.withEvents _
  · simpa only [hresult] using hsend

theorem receive (hA : L.aead.Correct) (h : LaneInv L lane) (stream now : Nat) :
    LaneInv L (lane.step L (.receive stream now)) := by
  have hstream (i : Nat) : (lane.step L (.receive stream now)).streams[i]? =
      lane.streams[i]?.map fun s => if stream = i then s.receive L now else s := by
    unfold Lane.step
    dsimp only
    rw [List.getElem?_modify]
    by_cases hi : stream = i <;> simp [hi]
  refine ⟨fun i s' hs' => ?_, fun established he => ?_, fun i payload hmem => ?_, h.injected,
    fun s' hs' => ?_⟩
  · rw [hstream] at hs'
    obtain ⟨s, hs, rfl⟩ := Option.map_eq_some_iff.1 hs'
    have hcarries := h.carries i s hs
    split_ifs
    · exact (hcarries.receive hA now).mono (Nat.sub_le _ _)
    · exact hcarries
  · obtain ⟨s, hs, huse⟩ := h.inUse established he
    refine ⟨_, (hstream _).trans (congrArg _ hs), ?_⟩
    dsimp only
    split_ifs
    · exact huse.receive hA now
    · exact huse
  · exact lt_of_lt_of_eq (h.carrier i payload hmem) (List.length_modify ..).symm
  · obtain ⟨i, hi⟩ := List.mem_iff_getElem?.1 hs'
    rw [hstream] at hi
    obtain ⟨s, hs, rfl⟩ := Option.map_eq_some_iff.1 hi
    have httl := h.ttl s (List.mem_of_getElem? hs)
    split_ifs
    · obtain ⟨hsession, httl', -⟩ := s.receive_session (L := L) now
      rwa [httl', hsession]
    · exact httl

end LaneInv

/-! ## Runs -/

/-- What the sender is asked to send can be accepted. -/
def LaneAction.Deliverable (L : LaneEnv) : LaneAction → Prop
  | .send request _ _ => Entangrid.Deliverable L request.payload
  | .receive .. => True

theorem LaneInv.run (hA : L.aead.Correct) {lane : Lane} (h : LaneInv L lane)
    {actions : List LaneAction} (hactions : ∀ action ∈ actions, action.Deliverable L) :
    LaneInv L (lane.run L actions) := by
  induction actions generalizing lane with
  | nil => exact h
  | cons action actions ih =>
    obtain ⟨haction, hrest⟩ := List.forall_mem_cons.1 hactions
    cases action with
    | send request first second => exact ih (h.send haction first second) hrest
    | receive stream now => exact ih (h.receive hA stream now) hrest

/-- What an action does to a stream: the loop of the stream takes a turn, or more arrives. -/
theorem Lane.step_stream {lane : Lane} {i : Nat} {s : InboundStream} (hs : lane.streams[i]? = some s)
    (action : LaneAction) :
    (∃ now, action = .receive i now ∧ (lane.step L action).streams[i]? = some (s.receive L now)) ∨
      (action.reads i = false ∧ ∃ bytes ended, (lane.step L action).streams[i]? =
        some { s with input := s.input ++ bytes, ended }) := by
  cases action with
  | send request first second => exact .inr ⟨rfl, lane.arrives_send request first second i s hs⟩
  | receive stream now =>
    unfold Lane.step
    dsimp only
    rw [List.getElem?_modify, hs]
    by_cases hi : stream = i
    · subst hi
      exact .inl ⟨now, rfl, by simp⟩
    · exact .inr ⟨by simp [LaneAction.reads, hi], [], s.ended, by simp [hi]⟩

theorem Lane.run_append (lane : Lane) (before after : List LaneAction) :
    lane.run L (before ++ after) = (lane.run L before).run L after :=
  List.foldl_append

/-- What the turns of its loop and what arrives keep of a stream, a run keeps; a turn may count. -/
theorem Lane.run_stream {P : Nat → InboundStream → Prop}
    (hreceive : ∀ n s now, P n s → P (n - 1) (s.receive L now))
    (harrive : ∀ n s bytes ended, P n s → P n { s with input := s.input ++ bytes, ended })
    {lane : Lane} {i n : Nat} {s : InboundStream} (hs : lane.streams[i]? = some s) (h : P n s)
    (actions : List LaneAction) :
    ∃ s', (lane.run L actions).streams[i]? = some s' ∧ P (n - actions.countP (·.reads i)) s' := by
  induction actions generalizing lane n s with
  | nil => exact ⟨s, hs, h⟩
  | cons action actions ih =>
    rcases lane.step_stream (L := L) hs action with ⟨now, rfl, hs'⟩ | ⟨hreads, bytes, ended, hs'⟩
    · obtain ⟨s', hfinal, h'⟩ := ih hs' (hreceive n s now h)
      refine ⟨s', hfinal, ?_⟩
      rwa [List.countP_cons_of_pos (by simp [LaneAction.reads]), Nat.add_comm, ← Nat.sub_sub]
    · obtain ⟨s', hfinal, h'⟩ := ih hs' (harrive n s bytes ended h)
      refine ⟨s', hfinal, ?_⟩
      rwa [List.countP_cons_of_neg (by simp [hreads])]

/-- A stream that is not read any more hands nothing over. -/
theorem Lane.received_of_not_reading {lane : Lane} {i : Nat} {s : InboundStream}
    (hs : lane.streams[i]? = some s) (hstatus : s.status ≠ .reading) (actions : List LaneAction) :
    ∃ s', (lane.run L actions).streams[i]? = some s' ∧ s'.received = s.received := by
  obtain ⟨s', hs', -, hreceived⟩ := Lane.run_stream (L := L)
    (P := fun _ s' => s'.status ≠ .reading ∧ s'.received = s.received)
    (fun _ s' now h => by rwa [s'.receive_of_not_reading h.1])
    (fun _ _ _ _ h => h) (n := 0) hs ⟨hstatus, rfl⟩ actions
  exact ⟨s', hs', hreceived⟩

/-- **A message for which `send_message` returned `Ok` is handed over**, after the messages sent before
it on its stream, by the time the stream has been read as often as messages were sent on it; unless by
then the receiver has found its session expired, by its own clock and bound. -/
theorem sent_messages_arrive_unless_expired (L : LaneEnv) (hA : L.aead.Correct)
    (before after : List LaneAction) (hbefore : ∀ action ∈ before, action.Deliverable L)
    (carrier : Option Nat) (payload : ProtocolMessage)
    (hsent : (carrier, payload) ∈ (Lane.run L {} before).sent) :
    (carrier = none ∧ FaultInjected L payload) ∨
      ∃ i s, carrier = some i ∧ payload ∈ (Lane.run L {} before).sentOn i ∧
        (Lane.run L {} (before ++ after)).streams[i]? = some s ∧
        (((Lane.run L {} before).sentOn i).length ≤ after.countP (·.reads i) →
          (Lane.run L {} before).sentOn i <+: s.received ∨
            ∃ now, s.status = .expired now ∧
              sessionIsExpired s.sessionEstablishedAtUnixMillis
                (effectiveSessionTtlMillis s.session L.peerSessionTtlMillis) now = true) := by
  have hinv := LaneInv.initial.run hA hbefore
  rw [Lane.run_append]
  cases carrier with
  | none => exact .inl ⟨rfl, hinv.injected payload hsent⟩
  | some i =>
    have hmem : payload ∈ (Lane.run L {} before).sentOn i :=
      List.mem_filterMap.2 ⟨_, hsent, if_pos rfl⟩
    have hs := List.getElem?_eq_getElem (hinv.carrier i payload hsent)
    have hcarries := hinv.carries i _ hs
    have httl := hinv.ttl _ (List.mem_of_getElem? hs)
    obtain ⟨s, hfinal, hcarries, httl⟩ := Lane.run_stream (L := L)
      (P := fun reads s => s.Carries L ((Lane.run L {} before).sentOn i) reads ∧
        s.sessionTtlMillis = effectiveSessionTtlMillis s.session L.peerSessionTtlMillis)
      (fun reads s now h => ⟨h.1.receive hA now, by
        obtain ⟨hsession, httl, -⟩ := s.receive_session (L := L) now
        rw [httl, hsession]
        exact h.2⟩)
      (fun reads s bytes ended h => ⟨h.1.arrive bytes ended, h.2⟩) hs ⟨hcarries, httl⟩ after
    refine .inr ⟨i, s, rfl, hmem, hfinal, fun hreads => ?_⟩
    rw [Nat.sub_eq_zero_of_le hreads] at hcarries
    rw [← httl]
    exact hcarries.done.symm

/-! ## A receiver with a shorter bound -/

def samplePulse : ProtocolMessage :=
  .heartbeatPulse
    { epoch := 0, slot := 1, sourceValidatorId := 1, sequenceNumber := 1, emittedAtUnixMillis := 0 }

def samplePulseHash : ProtocolMessage → HashBytes
  | .heartbeatPulse pulse => rollingHashing.canonicalHash (.pulse pulse)
  | _ => empty_hash

def sampleEnvelope : SignedEnvelope where
  fromValidatorId := 1
  messageHash := samplePulseHash samplePulse
  signature := sampleSignature 1 (samplePulseHash samplePulse)
  payload := samplePulse

/-- Validator 1 sends to validator 2, whose sessions last a second. Only the sample envelope is ever
encoded. -/
def sampleLane (encoded : List UInt8) : LaneEnv where
  aead := sampleAead
  canonicalHash := samplePulseHash
  bincode :=
    { encode := fun _ => encoded
      decode := fun bytes =>
        if bytes = encoded then .ok (sampleEnvelope, []) else .error "unexpected end" }
  localValidatorId := 1
  peerValidatorId := 2
  localCrypto := sampleCrypto
  peerCrypto := sampleCrypto
  localSessionTtlMillis := none
  peerSessionTtlMillis := some 1000

/-- A write that succeeds, on a connection made at time 0. -/
def sampleAttempt : Attempt where
  nowUnixMillis := 0
  connection := .ok
    { session := sampleSession, sessionEstablishedAtUnixMillis := 0
      peerSessionEstablishedAtUnixMillis := 0 }
  write := .written

def sampleRequest : OutboundRequest where
  payload := samplePulse
  serviceAccountable := true

def sendSamplePulse : LaneAction := .send sampleRequest sampleAttempt sampleAttempt

theorem signEnvelope_sampleLane (encoded : List UInt8) :
    signEnvelope (sampleLane encoded) samplePulse = .ok sampleEnvelope := by
  have hsign : sampleCrypto.sign 1 (samplePulseHash samplePulse) =
      .ok (sampleSignature 1 (samplePulseHash samplePulse)) := by
    decide +kernel
  change (sampleCrypto.sign 1 (samplePulseHash samplePulse) >>= _) = _
  rw [hsign]
  rfl

/-- The stream once the pulse is sent. -/
def sampleStream (encoded : List UInt8) : InboundStream where
  session := sampleSession
  sessionEstablishedAtUnixMillis := 0
  sessionTtlMillis := some 1000
  input := writeFrame (encoded ++ (frameNonce .outbound 0 ++ [0, 0, 0, 0]))

def sampleEstablished : EstablishedOutboundStream where
  stream := 0
  session := sampleSession
  sendCounter := 1
  sessionEstablishedAtUnixMillis := 0
  sessionTtlMillis := some defaultHybridSessionTtlMillis

theorem attempt_sampleLane (encoded : List UInt8) :
    Lane.attempt (sampleLane encoded) encoded sampleAttempt {} =
      (.ok sampleEstablished,
        { outbound := some sampleEstablished, streams := [sampleStream encoded] }) := by
  have hwrite : writeApplicationFrame sampleAead sampleSession 0 encoded =
      .ok (writeFrame (encoded ++ (frameNonce .outbound 0 ++ [0, 0, 0, 0])), 1) := by
    rfl
  simp only [Lane.attempt, Lane.dropExpired, Lane.connected, sampleAttempt, sampleLane, hwrite]
  rfl

theorem sendMessage_sampleLane (encoded : List UInt8) :
    ∃ lane, sendMessage (sampleLane encoded) sampleRequest sampleAttempt sampleAttempt {} =
      (.ok (some 0), lane) ∧ lane.streams = [sampleStream encoded] ∧ lane.sent = [] := by
  refine ⟨{ outbound := some sampleEstablished, streams := [sampleStream encoded]
            events := [.sessionObserved 2 empty_hash true true] }, ?_, rfl, rfl⟩
  have hencode : (sampleLane encoded).bincode.encode sampleEnvelope = encoded := rfl
  unfold sendMessage
  simp only [show sampleRequest.payload = samplePulse from rfl, signEnvelope_sampleLane, hencode,
    attempt_sampleLane]
  rfl

theorem run_sampleLane (encoded : List UInt8) :
    (Lane.run (sampleLane encoded) {} [sendSamplePulse]).streams = [sampleStream encoded] ∧
      (Lane.run (sampleLane encoded) {} [sendSamplePulse]).sent = [(some 0, samplePulse)] := by
  obtain ⟨lane, hsend, hstreams, hsent⟩ := sendMessage_sampleLane encoded
  have hrun : Lane.run (sampleLane encoded) {} [sendSamplePulse] =
      { lane with sent := lane.sent ++ [(some 0, samplePulse)] } := by
    change Lane.send (sampleLane encoded) sampleRequest sampleAttempt sampleAttempt {} = _
    unfold Lane.send
    rw [hsend]
    rfl
  rw [hrun, hsent]
  exact ⟨hstreams, rfl⟩

theorem samplePulse_deliverable : Deliverable (sampleLane [1]) samplePulse := by
  intro envelope h
  obtain rfl := Except.ok.inj ((signEnvelope_sampleLane [1]).symm.trans h)
  exact ⟨rfl, by decide, by decide +kernel⟩

/-- A pulse that is read within the second arrives. -/
theorem sample_pulse_arrives :
    ∃ s, (Lane.run (sampleLane [1]) {} [sendSamplePulse, .receive 0 999]).streams[0]? = some s ∧
      samplePulse ∈ s.received := by
  have hsent : (some 0, samplePulse) ∈ (Lane.run (sampleLane [1]) {} [sendSamplePulse]).sent := by
    rw [(run_sampleLane [1]).2]
    exact List.mem_singleton.2 rfl
  have hdeliverable : ∀ action ∈ [sendSamplePulse], action.Deliverable (sampleLane [1]) :=
    List.forall_mem_singleton.2 samplePulse_deliverable
  rcases sent_messages_arrive_unless_expired (sampleLane [1]) sampleAead_correct [sendSamplePulse]
    [.receive 0 999] hdeliverable (some 0) samplePulse hsent with ⟨hnone, -⟩ | ⟨i, s, hi, hmem, hs, h⟩
  · cases hnone
  · obtain rfl := Option.some.inj hi
    refine ⟨s, hs, ?_⟩
    rcases h (by decide +kernel) with harrived | ⟨now, hexpired, -⟩
    · exact harrived.subset hmem
    · have hlive : (Lane.run (sampleLane [1]) {} [sendSamplePulse, .receive 0 999]).streams[0]?.map
          (·.status) = some .reading := by
        decide +kernel
      rw [List.singleton_append] at hs
      rw [hs, Option.map_some, hexpired] at hlive
      cases hlive

/-- A turn on the stream once the pulse is sent, on which the receiver stops. -/
theorem run_sampleLane_of_stops {encoded : List UInt8} {now : Nat}
    (hstatus : ((sampleStream encoded).receive (sampleLane encoded) now).status ≠ .reading)
    (hreceived : ((sampleStream encoded).receive (sampleLane encoded) now).received = [])
    (after : List LaneAction) :
    ∃ s, (Lane.run (sampleLane encoded) {}
      (sendSamplePulse :: .receive 0 now :: after)).streams[0]? = some s ∧ s.received = [] := by
  have hturn : (Lane.run (sampleLane encoded) {} ([sendSamplePulse] ++ [.receive 0 now])).streams[0]? =
      some ((sampleStream encoded).receive (sampleLane encoded) now) := by
    rw [Lane.run_append]
    change ((Lane.run (sampleLane encoded) {} [sendSamplePulse]).streams.modify 0 _)[0]? = _
    rw [(run_sampleLane encoded).1]
    rfl
  obtain ⟨s, hs, hreceived'⟩ := Lane.received_of_not_reading (L := sampleLane encoded) hturn hstatus
    after
  rw [← Lane.run_append] at hs
  exact ⟨s, hs, hreceived'.trans hreceived⟩

/-- The pulse is sent, and then dropped by the receiver, for good: it is read when the second is over. -/
theorem sent_frames_may_be_dropped :
    (sendMessage (sampleLane [1]) sampleRequest sampleAttempt sampleAttempt {}).1 = .ok (some 0) ∧
      ∀ after, ∃ s, (Lane.run (sampleLane [1]) {}
        (sendSamplePulse :: .receive 0 1000 :: after)).streams[0]? = some s ∧ s.received = [] := by
  constructor
  · obtain ⟨lane, hsend, -⟩ := sendMessage_sampleLane [1]
    rw [hsend]
  · apply run_sampleLane_of_stops (by decide +kernel)
    exact List.length_eq_zero_iff.1 (by decide +kernel)

end Entangrid
