import Entangrid.Crypto.Proof.Encoding
import Entangrid.Error
import Entangrid.Network

/-!
# The encrypted lane

One session between a sender and a receiver, and a network that may put any bytes on the stream.

* `beBytes_inj`: the counters of a session have different nonces.
* `encrypted_lane_delivers_prefix`: what the receiver reads is a prefix of what the sender wrote.
-/

namespace Entangrid

/-! ## Numbers as bytes -/

theorem beBytes_inj {width a b : Nat} (ha : a < 256 ^ width) (hb : b < 256 ^ width)
    (h : beBytes width a = beBytes width b) : a = b := by
  refine eq_of_digits 256 width ha hb fun i hi => ?_
  have hbyte := List.map_inj_left.1 h (width - 1 - i) (List.mem_range.2 (by omega))
  have hval := congrArg UInt8.toNat hbyte
  rw [show width - 1 - (width - 1 - i) = i by omega] at hval
  simpa using hval

@[simp] theorem length_beBytes (width n : Nat) : (beBytes width n).length = width := by
  simp [beBytes]

theorem frameNonce_inj {direction : FrameDirection} {a b : Nat} (ha : a < 2 ^ 64) (hb : b < 2 ^ 64)
    (h : frameNonce direction a = frameNonce direction b) : a = b :=
  beBytes_inj (lt_of_lt_of_eq ha (by decide)) (lt_of_lt_of_eq hb (by decide))
    (List.append_cancel_left h)

theorem beBytes_succ (width n : Nat) :
    beBytes (width + 1) n = beBytes width (n / 256) ++ [UInt8.ofNat n] := by
  unfold beBytes
  rw [List.range_succ, List.map_append]
  refine congrArg₂ _ (List.map_congr_left fun i hi => ?_) (by simp)
  have hi := List.mem_range.1 hi
  rw [Nat.div_div_eq_div_mul, ← Nat.pow_succ', show width + 1 - 1 - i = width - 1 - i + 1 by omega]

theorem ofBeBytes_append_singleton (bytes : List UInt8) (b : UInt8) :
    ofBeBytes (bytes ++ [b]) = ofBeBytes bytes * 256 + b.toNat := by
  simp [ofBeBytes]

theorem ofBeBytes_beBytes {width n : Nat} (h : n < 256 ^ width) : ofBeBytes (beBytes width n) = n := by
  induction width generalizing n with
  | zero =>
    obtain rfl : n = 0 := by simpa using h
    rfl
  | succ width ih =>
    rw [Nat.pow_succ] at h
    rw [beBytes_succ, ofBeBytes_append_singleton, ih (by omega), UInt8.toNat_ofNat']
    omega

/-! ## Frames on the wire -/

/-- The length of a frame and what follows it, as the reader takes them apart. -/
theorem writeFrame_split {bytes : List UInt8} (h : bytes.length < 256 ^ 4) (rest : List UInt8) :
    ¬(writeFrame bytes ++ rest).length < 4 ∧
      ofBeBytes ((writeFrame bytes ++ rest).take 4) = bytes.length ∧
      (writeFrame bytes ++ rest).drop 4 = bytes ++ rest := by
  rw [writeFrame, List.append_assoc]
  refine ⟨by simp, ?_, List.drop_left' (length_beBytes 4 _)⟩
  rw [List.take_left' (length_beBytes 4 _)]
  exact ofBeBytes_beBytes h

/-- A frame that fits is read back, and what follows it is left. -/
theorem readFrameBytes_writeFrame {bytes : List UInt8} (h : bytes.length ≤ maxFrameSizeBytes)
    (rest : List UInt8) : readFrameBytes (writeFrame bytes ++ rest) = .ok (some (bytes, rest)) := by
  obtain ⟨hfour, hlength, hdrop⟩ := writeFrame_split (lt_of_le_of_lt h (by decide)) rest
  unfold readFrameBytes
  rw [if_neg hfour, hdrop]
  simp only [hlength]
  rw [if_neg (by omega), if_neg (by simp), List.take_left' rfl, List.drop_left' rfl]

/-- A frame that the stream brings. -/
inductive Presented : List UInt8 → List UInt8 → Prop
  | here {input frame rest} (h : readFrameBytes input = .ok (some (frame, rest))) :
    Presented input frame
  | later {input frame' rest frame} (h : readFrameBytes input = .ok (some (frame', rest)))
    (hrest : Presented rest frame) : Presented input frame

/-- What a stream of frames that fit brings. -/
theorem mem_of_presented {frames : List (List UInt8)}
    (hfits : ∀ frame ∈ frames, frame.length ≤ maxFrameSizeBytes) {frame : List UInt8}
    (h : Presented (frames.flatMap writeFrame) frame) : frame ∈ frames := by
  induction frames with
  | nil =>
    cases h with
    | here h | later h => cases h
  | cons first frames ih =>
    obtain ⟨hfirst, hfits⟩ := List.forall_mem_cons.1 hfits
    have hread := readFrameBytes_writeFrame hfirst (frames.flatMap writeFrame)
    rw [List.flatMap_cons] at h
    cases h with
    | here h =>
      rw [hread] at h
      obtain ⟨rfl, -⟩ := Prod.mk.inj (Option.some.inj (Except.ok.inj h))
      exact .head _
    | later h hrest =>
      rw [hread] at h
      obtain ⟨rfl, rfl⟩ := Prod.mk.inj (Option.some.inj (Except.ok.inj h))
      exact .tail _ (ih hfits hrest)

/-! ## What the sender encrypts -/

/-- A call of the cipher: nonce, associated data and plaintext. -/
abbrev Encryption := List UInt8 × List UInt8 × List UInt8

section
variable (A : Aead) (session : SessionMaterial)

/-- The calls that writing plaintexts makes, up to a write that fails. -/
def encryptions : Nat → List (List UInt8) → List Encryption
  | _, [] => []
  | sendCounter, plaintext :: rest =>
    match writeApplicationFrame A session sendCounter plaintext with
    | .error _ => []
    | .ok (_, nextCounter) =>
      (frameNonce .outbound sendCounter, frameAssociatedData session .outbound sendCounter,
        plaintext) :: encryptions nextCounter rest

/-- The cipher gives back what it encrypted, with a tag of sixteen bytes. -/
structure Aead.Correct (A : Aead) : Prop where
  decrypt_encrypt : ∀ {key nonce data plaintext ciphertext tag},
    A.encrypt key nonce data plaintext = some (ciphertext, tag) →
      A.decrypt key nonce data ciphertext tag = some plaintext
  tag_length : ∀ {key nonce data plaintext ciphertext tag},
    A.encrypt key nonce data plaintext = some (ciphertext, tag) → tag.length = frameTagSizeBytes
  ciphertext_length : ∀ {key nonce data plaintext ciphertext tag},
    A.encrypt key nonce data plaintext = some (ciphertext, tag) →
      ciphertext.length = plaintext.length

/-- Of the frames that the stream brings, the cipher opens only those that it made, under the session key
and with the same nonce and associated data. -/
def Unforged (made : List Encryption) (input : List UInt8) : Prop :=
  ∀ ciphertext tag nonce data plaintext, Presented input (ciphertext ++ tag) →
    A.decrypt (HashBytes.toVec session.sessionKey) nonce data ciphertext tag = some plaintext →
      ∃ plaintext', (nonce, data, plaintext') ∈ made ∧
        A.encrypt (HashBytes.toVec session.sessionKey) nonce data plaintext' = some (ciphertext, tag)

end

section
variable {A : Aead} {session : SessionMaterial}

theorem writeApplicationFrame_counter (hencrypt : session.encryptFrames = true)
    {sendCounter nextCounter : Nat} {plaintext bytes : List UInt8} (hcounter : sendCounter < u64Max)
    (h : writeApplicationFrame A session sendCounter plaintext = .ok (bytes, nextCounter)) :
    nextCounter = sendCounter + 1 := by
  unfold writeApplicationFrame at h
  rw [if_pos hencrypt] at h
  obtain ⟨ciphertext, -, h⟩ := except_bind_ok.1 h
  obtain ⟨-, rfl⟩ := Prod.mk.inj (Except.ok.inj h)
  unfold satAdd
  omega

/-- A call of the cipher with the nonce of a counter is the one for the plaintext at that position. -/
theorem getElem?_of_mem_encryptions (hencrypt : session.encryptFrames = true) {sendCounter c : Nat}
    {plaintexts : List (List UInt8)} {data p : List UInt8}
    (hlength : sendCounter + plaintexts.length ≤ u64Max) (hc : c < 2 ^ 64)
    (h : (frameNonce .outbound c, data, p) ∈ encryptions A session sendCounter plaintexts) :
    ∃ k, c = sendCounter + k ∧ plaintexts[k]? = some p := by
  induction plaintexts generalizing sendCounter with
  | nil => cases h
  | cons plaintext rest ih =>
    rw [List.length_cons] at hlength
    unfold encryptions at h
    cases hwrite : writeApplicationFrame A session sendCounter plaintext with
    | error text => simp [hwrite] at h
    | ok written =>
      obtain ⟨bytes, nextCounter⟩ := written
      have hnext := writeApplicationFrame_counter hencrypt (by omega) hwrite
      simp only [hwrite, List.mem_cons, Prod.mk.injEq] at h
      rcases h with ⟨hnonce, -, rfl⟩ | h
      · have hlt : sendCounter < 2 ^ 64 := by
          unfold u64Max at hlength
          omega
        exact ⟨0, frameNonce_inj hc hlt hnonce, rfl⟩
      · obtain ⟨k, hk, hp⟩ := ih (by omega) h
        exact ⟨k + 1, by omega, by simpa using hp⟩

/-! ## What the receiver reads -/

theorem decryptFramePayload_ok {counter : Nat} {frame plaintext : List UInt8}
    (h : decryptFramePayload A session .outbound counter frame = .ok plaintext) :
    ∃ ciphertext tag, frame = ciphertext ++ tag ∧
      A.decrypt (HashBytes.toVec session.sessionKey) (frameNonce .outbound counter)
        (frameAssociatedData session .outbound counter) ciphertext tag = some plaintext := by
  unfold decryptFramePayload at h
  split_ifs at h
  refine ⟨_, _, (List.take_append_drop (frame.length - frameTagSizeBytes) frame).symm, ?_⟩
  dsimp only at h
  split at h
  · cases h
  · rw [← Except.ok.inj h]
    assumption

theorem decryptFramePayload_encrypted (hA : A.Correct) {counter : Nat} {plaintext frame : List UInt8}
    (h : encryptFramePayload A session .outbound counter plaintext = .ok frame) :
    frame.length = plaintext.length + frameTagSizeBytes ∧
      decryptFramePayload A session .outbound counter frame = .ok plaintext := by
  unfold encryptFramePayload at h
  split at h
  · cases h
  · rename_i ciphertext tag hsealed
    obtain rfl := Except.ok.inj h
    have htag := hA.tag_length hsealed
    have hlength : (ciphertext ++ tag).length = plaintext.length + frameTagSizeBytes := by
      rw [List.length_append, hA.ciphertext_length hsealed, htag]
    have hsplit : (ciphertext ++ tag).length - frameTagSizeBytes = ciphertext.length := by
      rw [List.length_append, htag, Nat.add_sub_cancel]
    refine ⟨hlength, ?_⟩
    unfold decryptFramePayload
    rw [if_neg (by omega)]
    simp only [hsplit, List.take_left, List.drop_left, hA.decrypt_encrypt hsealed]

/-- The frame holds the payload under a counter, after which comes `nextCounter`. -/
def FrameHolds (A : Aead) (session : SessionMaterial) (counter : Nat) (frame payload : List UInt8)
    (nextCounter : Nat) : Prop :=
  if session.encryptFrames then
    decryptFramePayload A session .outbound counter frame = .ok payload ∧
      nextCounter = satAdd counter 1
  else frame = payload ∧ nextCounter = counter

/-- What is read is what the next frame holds. -/
theorem readApplicationFrame_ok {counter established now wireLen nextCounter : Nat}
    {ttl : Option Nat} {input payload rest : List UInt8}
    (h : readApplicationFrame A session counter established ttl now input =
      .ok (.frame payload wireLen, nextCounter, rest)) :
    ∃ frame, readFrameBytes input = .ok (some (frame, rest)) ∧
      FrameHolds A session counter frame payload nextCounter := by
  unfold readApplicationFrame at h
  obtain ⟨next, hnext, h⟩ := except_bind_ok.1 h
  cases next with
  | none => cases h
  | some next =>
    obtain ⟨frame, rest'⟩ := next
    dsimp only at h
    split_ifs at h with hexpired hencrypt
    · cases h
    · split at h
      · cases h
      · rename_i plaintext hdecrypt
        simp only [Except.ok.injEq, Prod.mk.injEq, ApplicationFrameRead.frame.injEq] at h
        obtain ⟨⟨rfl, -⟩, rfl, rfl⟩ := h
        refine ⟨frame, hnext, ?_⟩
        rw [FrameHolds, if_pos hencrypt]
        exact ⟨hdecrypt, rfl⟩
    · simp only [Except.ok.injEq, Prod.mk.injEq, ApplicationFrameRead.frame.injEq] at h
      obtain ⟨⟨rfl, -⟩, rfl, rfl⟩ := h
      refine ⟨frame, hnext, ?_⟩
      rw [FrameHolds, if_neg hencrypt]
      exact ⟨rfl, rfl⟩

/-- The length of the body of the frame that carries a payload. -/
def applicationFrameLength (session : SessionMaterial) (plaintext : List UInt8) : Nat :=
  plaintext.length + if session.encryptFrames then frameTagSizeBytes else 0

theorem applicationFrameLength_le (session : SessionMaterial) (plaintext : List UInt8) :
    applicationFrameLength session plaintext ≤ plaintext.length + frameTagSizeBytes := by
  unfold applicationFrameLength
  split_ifs <;> omega

/-- What was written is one frame, which opens under the counter it was written with. -/
theorem writeApplicationFrame_ok (hA : A.Correct) {counter nextCounter : Nat}
    {plaintext bytes : List UInt8}
    (h : writeApplicationFrame A session counter plaintext = .ok (bytes, nextCounter)) :
    ∃ frame, bytes = writeFrame frame ∧ frame.length = applicationFrameLength session plaintext ∧
      FrameHolds A session counter frame plaintext nextCounter := by
  unfold writeApplicationFrame at h
  unfold applicationFrameLength FrameHolds
  split_ifs at h ⊢ with hencrypt
  · obtain ⟨frame, hframe, h⟩ := except_bind_ok.1 h
    obtain ⟨rfl, rfl⟩ := Prod.mk.inj (Except.ok.inj h)
    obtain ⟨hlength, hdecrypt⟩ := decryptFramePayload_encrypted hA hframe
    exact ⟨frame, rfl, hlength, hdecrypt, rfl⟩
  · obtain ⟨rfl, rfl⟩ := Prod.mk.inj (Except.ok.inj h)
    exact ⟨plaintext, rfl, rfl, rfl, rfl⟩

theorem readFrameBytes_written (hA : A.Correct) {counter nextCounter : Nat}
    {plaintext bytes : List UInt8}
    (hfits : applicationFrameLength session plaintext ≤ maxFrameSizeBytes)
    (h : writeApplicationFrame A session counter plaintext = .ok (bytes, nextCounter))
    (rest : List UInt8) :
    ∃ frame, readFrameBytes (bytes ++ rest) = .ok (some (frame, rest)) ∧
      FrameHolds A session counter frame plaintext nextCounter := by
  obtain ⟨frame, rfl, hlength, hopens⟩ := writeApplicationFrame_ok hA h
  exact ⟨frame, readFrameBytes_writeFrame (hlength ▸ hfits) rest, hopens⟩

/-- A frame that was written is read, unless the session has expired. -/
theorem readApplicationFrame_written (hA : A.Correct) {counter nextCounter : Nat}
    {plaintext bytes : List UInt8}
    (hfits : applicationFrameLength session plaintext ≤ maxFrameSizeBytes)
    (h : writeApplicationFrame A session counter plaintext = .ok (bytes, nextCounter))
    (established : Nat) (ttl : Option Nat) (now : Nat) (rest : List UInt8) :
    if sessionIsExpired established ttl now then
      readApplicationFrame A session counter established ttl now (bytes ++ rest) =
        .ok (.sessionExpired, counter, rest)
    else ∃ wireLen, readApplicationFrame A session counter established ttl now (bytes ++ rest) =
      .ok (.frame plaintext wireLen, nextCounter, rest) := by
  obtain ⟨frame, hread, hopens⟩ := readFrameBytes_written hA hfits h rest
  split_ifs with hexpired
  · simp [readApplicationFrame, Bind.bind, Except.bind, hread, hexpired]
  · refine ⟨frame.length, ?_⟩
    unfold FrameHolds at hopens
    split_ifs at hopens with hencrypt
    · obtain ⟨hdecrypt, rfl⟩ := hopens
      simp [readApplicationFrame, Bind.bind, Except.bind, hread, hexpired, hencrypt, hdecrypt]
    · obtain ⟨rfl, rfl⟩ := hopens
      simp [readApplicationFrame, Bind.bind, Except.bind, hread, hexpired, hencrypt]

/-- From a counter on, what is read is a prefix of what was written from that position on. -/
theorem receiveFrames_prefix (hencrypt : session.encryptFrames = true) (hA : A.Correct)
    {plaintexts : List (List UInt8)} (hlength : plaintexts.length < u64Max)
    {established : Nat} {ttl : Option Nat} (clock : List Nat) {counter : Nat}
    (hcounter : counter ≤ plaintexts.length) {input : List UInt8}
    (hunforged : Unforged A session (encryptions A session 0 plaintexts) input) :
    receiveFrames A session established ttl clock counter input <+: plaintexts.drop counter := by
  induction clock generalizing counter input with
  | nil => exact List.nil_prefix
  | cons now clock ih =>
    unfold receiveFrames
    split
    · rename_i payload wireLen nextCounter rest hread
      obtain ⟨frame, hframe, hholds⟩ := readApplicationFrame_ok hread
      rw [FrameHolds, if_pos hencrypt] at hholds
      obtain ⟨hdecrypt, rfl⟩ := hholds
      obtain ⟨ciphertext, tag, rfl, hopen⟩ := decryptFramePayload_ok hdecrypt
      obtain ⟨plaintext, hmade, hsealed⟩ := hunforged _ _ _ _ _ (.here hframe) hopen
      obtain rfl := Option.some.inj ((hA.decrypt_encrypt hsealed).symm.trans hopen)
      have hc : counter < 2 ^ 64 := by
        unfold u64Max at hlength
        omega
      obtain ⟨k, hk, hget⟩ := getElem?_of_mem_encryptions hencrypt (by omega) hc hmade
      obtain rfl : k = counter := by omega
      obtain ⟨hlt, rfl⟩ := List.getElem?_eq_some_iff.1 hget
      have hnext : satAdd k 1 = k + 1 := by
        unfold satAdd
        omega
      rw [hnext, List.drop_eq_getElem_cons hlt, List.cons_prefix_cons]
      exact ⟨rfl, ih hlt fun ciphertext tag nonce data p hpresented =>
        hunforged ciphertext tag nonce data p (.later hframe hpresented)⟩
    · exact List.nil_prefix

/-- **The encrypted lane.** Whatever bytes the network puts on the stream of a session that encrypts, the
plaintexts that are read off it are a prefix of those that were written, if the cipher cannot be forged
and fewer frames than there are counters are written. -/
theorem encrypted_lane_delivers_prefix (hA : A.Correct) (hencrypt : session.encryptFrames = true)
    {plaintexts : List (List UInt8)} (hlength : plaintexts.length < 2 ^ 64 - 1)
    {input : List UInt8} (hunforged : Unforged A session (encryptions A session 0 plaintexts) input)
    (established : Nat) (ttl : Option Nat) (clock : List Nat) :
    receiveFrames A session established ttl clock 0 input <+: plaintexts :=
  receiveFrames_prefix hencrypt hA hlength clock (Nat.zero_le _) hunforged

end

/-! ## A stream with a repeated frame -/

def sampleSession : SessionMaterial where
  sessionKey := empty_hash
  transcriptHash := empty_hash
  encryptFrames := true

/-- The associated data that goes with a nonce in the sample session. -/
def sampleFrameData (nonce : List UInt8) : List UInt8 :=
  nonce.take 1 ++ nonce.drop 4 ++ frameSessionId sampleSession

/-- A cipher for the sample session alone, whose tag is the nonce. -/
def sampleAead : Aead where
  encrypt _ nonce data plaintext :=
    if nonce.length = 12 ∧ data = sampleFrameData nonce then
      some (plaintext, nonce ++ [0, 0, 0, 0])
    else none
  decrypt _ nonce data ciphertext tag :=
    if nonce.length = 12 ∧ data = sampleFrameData nonce ∧ tag = nonce ++ [0, 0, 0, 0] then
      some ciphertext
    else none

theorem sampleAead_correct : sampleAead.Correct where
  decrypt_encrypt h := by
    unfold sampleAead at h ⊢
    dsimp only at h ⊢
    split_ifs at h with hcall
    obtain ⟨rfl, rfl⟩ := Prod.mk.inj (Option.some.inj h)
    rw [if_pos ⟨hcall.1, hcall.2, rfl⟩]
  tag_length h := by
    unfold sampleAead at h
    dsimp only at h
    split_ifs at h with hcall
    obtain ⟨rfl, rfl⟩ := Prod.mk.inj (Option.some.inj h)
    simp [hcall.1, frameTagSizeBytes]
  ciphertext_length h := by
    unfold sampleAead at h
    dsimp only at h
    split_ifs at h
    obtain ⟨rfl, rfl⟩ := Prod.mk.inj (Option.some.inj h)
    rfl

/-- Opening a frame tells the nonce, the associated data and the plaintext. -/
theorem sampleAead_opens {key nonce data ciphertext tag plaintext : List UInt8}
    (h : sampleAead.decrypt key nonce data ciphertext tag = some plaintext) :
    nonce.length = 12 ∧ data = sampleFrameData nonce ∧ tag = nonce ++ [0, 0, 0, 0] ∧
      plaintext = ciphertext := by
  unfold sampleAead at h
  dsimp only at h
  split_ifs at h with hcall
  exact ⟨hcall.1, hcall.2.1, hcall.2.2, (Option.some.inj h).symm⟩

def sampleFrame (counter : Nat) (plaintext : List UInt8) : List UInt8 :=
  plaintext ++ frameNonce .outbound counter ++ [0, 0, 0, 0]

/-- The first two of three frames, then the first once more and the third. -/
def replayedStream : List (List UInt8) :=
  [sampleFrame 0 [7], sampleFrame 1 [8], sampleFrame 0 [7], sampleFrame 2 [9]]

theorem presented_replayedStream {frame : List UInt8}
    (h : Presented (replayedStream.flatMap writeFrame) frame) : frame ∈ replayedStream :=
  mem_of_presented (by decide) h

theorem sampleFrame_eq {ciphertext nonce plaintext : List UInt8} {counter : Nat}
    (hnonce : nonce.length = 12)
    (h : ciphertext ++ (nonce ++ [0, 0, 0, 0]) = sampleFrame counter plaintext) :
    ciphertext = plaintext ∧ nonce = frameNonce .outbound counter := by
  unfold sampleFrame at h
  rw [List.append_assoc] at h
  obtain ⟨hciphertext, htag⟩ := List.append_inj' h (by simp [hnonce, frameNonce])
  exact ⟨hciphertext, List.append_cancel_right htag⟩

theorem unforged_replayedStream :
    Unforged sampleAead sampleSession (encryptions sampleAead sampleSession 0 [[7], [8], [9]])
      (replayedStream.flatMap writeFrame) := by
  intro ciphertext tag nonce data plaintext hpresented hopen
  obtain ⟨hnonce, rfl, rfl, rfl⟩ := sampleAead_opens hopen
  have hmem := presented_replayedStream hpresented
  simp only [replayedStream, List.mem_cons, List.not_mem_nil, or_false] at hmem
  rcases hmem with h | h | h | h <;> obtain ⟨rfl, rfl⟩ := sampleFrame_eq hnonce h
  · exact ⟨[7], by decide, by decide⟩
  · exact ⟨[8], by decide, by decide⟩
  · exact ⟨[7], by decide, by decide⟩
  · exact ⟨[9], by decide, by decide⟩

/-- The repeated frame stops the receiver: it has the first two plaintexts. -/
theorem replayed_frame_stops_the_receiver :
    receiveFrames sampleAead sampleSession 0 (some 1000) [1, 2, 3, 4] 0
        (replayedStream.flatMap writeFrame) = [[7], [8]] ∧
      receiveFrames sampleAead sampleSession 0 (some 1000) [1, 2, 3, 4] 0
        (replayedStream.flatMap writeFrame) <+: [[7], [8], [9]] :=
  ⟨by decide, encrypted_lane_delivers_prefix sampleAead_correct rfl (by decide)
    unforged_replayedStream 0 (some 1000) [1, 2, 3, 4]⟩

end Entangrid
