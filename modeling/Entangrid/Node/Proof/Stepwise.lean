import Entangrid.Node.Proof.Bookkeeping
import Entangrid.Node.Proof.Covers

/-!
# Operations as chains of steps

`Stepwise E A m`: from every state whose blocks and votes are traced, `m` stops at the end of a chain
of steps. One rule per way of building procedures, then the operations that leave the consensus state
alone: sync requests and pushes, receipts, service evidence.
-/

namespace Entangrid

open Proc (Always Moves)

/-- A chain of steps leads on from a state whose blocks and votes are traced. -/
def Acts (E : Env) (A : Source) (n n' : Node) : Prop := A.Covers n → Steps E A n n'

instance (E : Env) (A : Source) : IsPreorder Node (Acts E A) where
  refl _ _ := .refl
  trans _ _ _ h h' hc := (h hc).trans (h' ((h hc).covers hc))

/-- From every state, `m` is a chain of steps. -/
def Stepwise (E : Env) (A : Source) {α : Type} (m : NodeM α) : Prop := ∀ n, Moves (Acts E A) m n

variable {E : Env} {A : Source} {α β : Type} {n n' : Node}

/-! ## Rules at a state -/

namespace Acts

theorem assume {m : NodeM α} (h : A.Covers n → Moves (Acts E A) m n) : Moves (Acts E A) m n := by
  unfold Moves at h ⊢
  cases hm : m.run n with
  | ok a n' =>
    intro hc
    have := h hc
    rw [hm] at this
    exact this hc
  | err e n' =>
    intro hc
    have := h hc
    rw [hm] at this
    exact this hc
  | _ => trivial

theorem modify {f : Node → Node} (h : A.Covers n → Step E A n (f n)) :
    Moves (Acts E A) (Proc.modify f : NodeM Unit) n :=
  Moves.modify fun hc => .single (h hc)

theorem modify_bind {f : Node → Node} {g : Unit → NodeM α} (h : A.Covers n → Step E A n (f n))
    (hg : Moves (Acts E A) (g ()) (f n)) : Moves (Acts E A) (Proc.modify f >>= g) n :=
  Moves.bind (modify h) fun _ n' hrun => by
    cases hrun
    exact hg

/-- A beginning that only computes a state. -/
theorem of_run_eq {m : NodeM α} (n' : Node) (m' : NodeM α) (hrun : m.run n = m'.run n')
    (hsteps : A.Covers n → Steps E A n n') (h : Moves (Acts E A) m' n') :
    Moves (Acts E A) m n := Moves.of_run_eq n' hrun hsteps h

/-- The rest starts at the end of the steps made so far. -/
theorem bind {m : NodeM α} {f : α → NodeM β} (h : Moves (Acts E A) m n)
    (hf : ∀ a n', A.Covers n' → Steps E A n n' → Moves (Acts E A) (f a) n') :
    Moves (Acts E A) (m >>= f) n :=
  assume fun hc => Moves.bind h fun a n' hrun =>
    hf a n' ((h.ok hrun hc).covers hc) (h.ok hrun hc)

end Acts

/-! ## Rules at every state -/

/-- Bookkeeping and plain sends are steps. -/
theorem Acts.books : Books (Acts E A) where
  book hcore hrecords _ := .single (.book hcore hrecords)
  readClock _ _ := .single .readClock
  send n effect h _ := .single <| .emit effect <| by
    cases effect with
    | broadcast message =>
      cases message with
      | proposalVote | quorumCertificate => cases h
      | _ => trivial
    | sendTo => trivial
    | _ => cases h

namespace Stepwise

theorem moves {m : NodeM α} (h : Stepwise E A m) : Moves (Acts E A) m n := h n

theorem pure (a : α) : Stepwise E A (Pure.pure a) := Always.pure a

theorem throw (e : Error) : Stepwise E A (Proc.throw e : NodeM α) := Always.throw e

theorem outOfFuel : Stepwise E A (Proc.outOfFuel : NodeM α) := Always.outOfFuel

theorem check (x : Except Error α) : Stepwise E A (NodeM.check x) := Always.ofExcept x

theorem attempt {m : NodeM α} (h : Stepwise E A m) : Stepwise E A (Proc.attempt m) :=
  Always.attempt h

theorem read {f : Node → NodeM α} (h : ∀ n, Stepwise E A (f n)) :
    Stepwise E A (Proc.get >>= f) := Always.read h

theorem bind {m : NodeM α} {f : α → NodeM β} (h : Stepwise E A m) (hf : ∀ a, Stepwise E A (f a)) :
    Stepwise E A (m >>= f) := Always.bind h hf

theorem ite {c : Prop} [Decidable c] {m m' : NodeM α} (h : Stepwise E A m) (h' : Stepwise E A m') :
    Stepwise E A (if c then m else m') := Always.ite h h'

theorem forEach {xs : List β} {f : β → NodeM Unit} (h : ∀ x, Stepwise E A (f x)) :
    Stepwise E A (Proc.forEach xs f) := Always.forEach h

/-- A change outside the core and the records. -/
theorem book {f : Node → Node} (h : ∀ n, (f n).core = n.core ∧ (f n).records = n.records) :
    Stepwise E A (Proc.modify f) := Acts.books.modify h

theorem emit {effect : Effect} (h : ∀ n, EffectOk E A n effect) : Stepwise E A (NodeM.emit effect) :=
  fun n => Acts.modify fun _ => .emit effect (h n)

theorem store (w : StorageWrite) (h : w.ofChain = false) :
    Stepwise E A (NodeM.store w) := emit fun _ => h

theorem now : Stepwise E A (NodeM.now E) := Acts.books.now

theorem sendTo (peer : ValidatorId) (message : ProtocolMessage) :
    Stepwise E A (NodeM.sendTo E peer message) := Acts.books.sendTo peer message

theorem thenPure {m : NodeM α} (h : Stepwise E A m) {f : α → β} :
    Stepwise E A (m >>= fun a => Pure.pure (f a)) := Always.thenPure h

theorem whenM {c : Prop} [Decidable c] {m : NodeM Unit} (h : Stepwise E A m) :
    Stepwise E A (if c then m else Pure.pure ()) := Always.whenM h

theorem unlessM {c : Prop} [Decidable c] {m : NodeM Unit} (h : Stepwise E A m) :
    Stepwise E A (if c then Pure.pure () else m) := Always.unlessM h

theorem logged {m : NodeM Unit} (h : Stepwise E A m) : Stepwise E A (Entangrid.logged m) :=
  h.attempt.thenPure

end Stepwise

/-! ## Sync -/

section Sync
variable (v : ValidatorId)

theorem getElem?_insert_of_notMem {α : Type} {map : BTreeMap ValidatorId α} {peers : Set ValidatorId}
    {q : ValidatorId} {a : α} (hv : v ∈ peers) (hq : q ∉ peers) : (map.insert v a)[q]? = map[q]? := by
  rw [Std.ExtTreeMap.getElem?_insert, if_neg]
  rintro hcmp
  rw [Std.LawfulEqCmp.compare_eq_iff_eq] at hcmp
  exact hq (hcmp ▸ hv)

theorem recordSyncRequestServed_stepwise (hv : v ∈ A.peers) (height : Nat) (tip : HashBytes) :
    Stepwise E A (recordSyncRequestServed E v height tip) :=
  Stepwise.now.bind fun _ _ => Acts.modify fun _ => .recordPeer fun _ hq =>
    ⟨rfl, getElem?_insert_of_notMem v hv hq⟩

end Sync

/-! ## Receipts -/

theorem run_persistReceipt (receipt : RelayReceipt) :
    ∃ isNew, (persistReceipt E receipt).run n = .ok isNew (n.withReceipt E receipt) := by
  unfold persistReceipt
  rw [Proc.run_get_bind, Node.withReceipt, ReceiptBook.persist]
  simp only [Node.receiptBook]
  by_cases hseen : n.seenReceipts.contains (E.hashing.canonicalHash (.receipt receipt)) = true
  · simp only [hseen, if_true]
    exact ⟨false, rfl⟩
  by_cases hevent : n.seenReceiptEvents.contains (receiptEventHash E.hashing receipt) = true
  · simp only [hseen, hevent, if_true, if_false, Bool.false_eq_true]
    exact ⟨false, rfl⟩
  · simp only [hseen, hevent, if_false, Bool.false_eq_true]
    exact ⟨true, rfl⟩

/-- A receipt is stored after it passed its checks. -/
theorem storeReceipt_stepwise (receipt : RelayReceipt) : Stepwise E A (storeReceipt E receipt) := by
  intro n
  by_cases hverdict : receiptVerdict E receipt = .ok ()
  · refine Moves.bind (Acts.books.validateReceipt receipt n).attempt fun result s _ => ?_
    cases result with
    | error e => exact Moves.pure _
    | ok _ =>
      obtain ⟨isNew, hrun⟩ := run_persistReceipt (E := E) (n := s) receipt
      unfold Moves
      rw [hrun]
      exact fun _ => .single (.storeReceipt receipt hverdict)
  · refine Moves.bind (Acts.books.validateReceipt receipt n).attempt fun result s hs => ?_
    cases result with
    | error e => exact Moves.pure _
    | ok _ =>
      -- only a receipt that is already there passes without its checks
      have hs := Proc.run_of_attempt_ok hs
      unfold validateReceipt at hs
      rw [Proc.run_get_bind] at hs
      split_ifs at hs with hseen
      · obtain rfl : n = s := by
          cases hs
          rfl
        refine Moves.read ?_
        rw [if_pos hseen]
        exact Moves.pure _
      · split at hs
        · next hok => exact absurd hok hverdict
        · dsimp only at hs
          split_ifs at hs <;> cases hs

theorem run_importCommitmentReceipts (receipts : List RelayReceipt) :
    (importCommitmentReceipts E receipts).run n = .ok () (n.withCommitmentReceipts E receipts) := by
  induction receipts generalizing n with
  | nil => rfl
  | cons receipt receipts ih =>
    obtain ⟨isNew, hrun⟩ := run_persistReceipt (E := E) (n := n) receipt
    have hfirst : ((do
        let _ ← persistReceipt E receipt
        Pure.pure ()) : NodeM Unit).run n = .ok () (n.withReceipt E receipt) := by
      rw [Proc.run_bind_of_ok hrun]
      rfl
    unfold importCommitmentReceipts Proc.forEach
    rw [Proc.run_bind_of_ok hfirst]
    exact ih

/-- The node is to witness what `source` relays to `destination` in the slot. -/
structure Witnesses (E : Env) (source destination : ValidatorId) (slot : Slot) : Prop where
  enabled : E.config.featureFlags.enableReceipts = true
  other : source ≠ E.me
  witness : E.consensus.isWitnessFor E.me source (E.consensus.epochForSlot slot) = true
  target : E.consensus.isRelayTargetFor source destination (E.consensus.epochForSlot slot) = true

theorem maybeIssueReceipt_moves {source destination : ValidatorId} {messageClass : MessageClass}
    {slot : Slot} {transcriptDigest byteHash : HashBytes} {sequenceNumber : Nat}
    (h : Witnesses E source destination slot → ∀ receipt : RelayReceipt,
      receipt.sourceValidatorId = source → receipt.slot = slot → receipt ∈ A.receipts n) :
    Moves (Acts E A) (maybeIssueReceipt E source destination messageClass slot transcriptDigest
      byteHash sequenceNumber) n := by
  unfold maybeIssueReceipt
  dsimp only
  split_ifs with hskip
  · exact Moves.pure _
  simp only [Bool.or_eq_true, Bool.not_eq_true', beq_iff_eq, not_or, Bool.not_eq_false] at hskip
  obtain ⟨⟨⟨henabled, hother⟩, hwitness⟩, htarget⟩ := hskip
  have hw : Witnesses E source destination slot := ⟨henabled, hother, hwitness, htarget⟩
  refine Moves.ofExcept_bind fun signature _ =>
    Acts.modify_bind (fun _ => .emit _ (h hw _ rfl rfl)) (Stepwise.moves ?_)
  exact .bind (.check _) fun _ => (storeReceipt_stepwise _).bind fun _ => .whenM (.emit fun _ => trivial)

/-! ## Service evidence -/

theorem insertServiceAttestation_stepwise {attestation : ServiceAttestation}
    (hvalid : validateServiceAttestation E attestation = .ok ()) (persist : Bool) :
    Stepwise E A (insertServiceAttestation E attestation persist) :=
  .read fun _ => .ite (.pure _) <| .ite (.bind (fun _ => Acts.modify fun _ => .attest _ hvalid)
    fun _ => .ite (Stepwise.store _ rfl).thenPure (.pure _)) (.pure _)

theorem importServiceAttestation_stepwise (attestation : ServiceAttestation) :
    Stepwise E A (importServiceAttestation E attestation) :=
  .ite (.throw _) fun _ => Moves.ofExcept_bind fun _ hvalid =>
    insertServiceAttestation_stepwise hvalid true _

theorem insertServiceAttestations_stepwise (persist : Bool) {attestations : List ServiceAttestation}
    (hvalid : ∀ a ∈ attestations, validateServiceAttestation E a = .ok ()) :
    Stepwise E A (insertServiceAttestations E persist attestations) := by
  induction attestations with
  | nil => exact .pure _
  | cons attestation rest ih =>
    exact (insertServiceAttestation_stepwise (hvalid attestation (by simp)) persist).bind fun _ =>
      (ih fun a ha => hvalid a (by simp [ha])).thenPure

/-- A built aggregate names what it was built for. -/
theorem buildServiceAggregate_key {subject : ValidatorId} {epoch : Epoch}
    {aggregate : ServiceAggregate} (h : buildServiceAggregate E n subject epoch = some aggregate) :
    aggregate.subjectValidatorId = subject ∧ aggregate.epoch = epoch := by
  unfold buildServiceAggregate at h
  split_ifs at h
  obtain ⟨byMember, -, h⟩ := Option.bind_eq_some_iff.1 h
  dsimp only at h
  split_ifs at h
  obtain rfl := Option.some.inj h
  exact ⟨rfl, rfl⟩

theorem insertServiceAggregate_moves {aggregate : ServiceAggregate} (persist : Bool)
    (h : buildServiceAggregate E n aggregate.subjectValidatorId aggregate.epoch = some aggregate) :
    Moves (Acts E A) (insertServiceAggregate E aggregate persist) n := by
  refine Moves.read ?_
  dsimp only
  split_ifs
  · exact Moves.pure _
  · refine Acts.modify_bind (fun _ => .aggregate aggregate h) (Stepwise.moves ?_)
    exact (Stepwise.store _ rfl).thenPure
  · exact Acts.modify_bind (fun _ => .aggregate aggregate h) (Moves.pure _)

theorem mergeServiceAggregate_stepwise {aggregate : ServiceAggregate} (persist : Bool)
    (hvalid : validateServiceAggregate E aggregate = .ok ()) :
    Stepwise E A (mergeServiceAggregate E aggregate persist) := fun n => by
  obtain ⟨-, -, hvalid⟩ := except_bind_ok.1 hvalid
  refine Acts.bind (insertServiceAttestations_stepwise persist (forM_ok.1 hvalid) n)
    fun _ n' _ _ => Moves.read ?_
  split
  · exact Moves.pure _
  · next canonical hbuilt =>
    obtain ⟨hsubject, hepoch⟩ := buildServiceAggregate_key hbuilt
    exact Acts.bind (insertServiceAggregate_moves persist (by rw [hsubject, hepoch, hbuilt]))
      fun _ _ _ _ => Moves.pure _

theorem importServiceAggregate_stepwise (aggregate : ServiceAggregate) :
    Stepwise E A (importServiceAggregate E aggregate) :=
  .ite (.throw _) fun _ => Moves.ofExcept_bind fun _ hvalid =>
    mergeServiceAggregate_stepwise true hvalid _

theorem maybePublishServiceAggregate_stepwise (subject : ValidatorId) (epoch : Epoch) :
    Stepwise E A (maybePublishServiceAggregate E subject epoch) :=
  .read fun _ => .ite (.pure _) <| by
    split
    · exact .pure _
    · exact (importServiceAggregate_stepwise _).bind fun _ => .ite
        (Acts.books.refreshServiceScores.bind fun _ => Stepwise.bind (Acts.books.emit rfl) fun _ => .pure _)
        (.pure _)

theorem emitServiceAttestationFor_stepwise (epoch : Epoch) (subject : ValidatorId) :
    Stepwise E A (emitServiceAttestationFor E epoch subject) := by
  have hpublish : Stepwise E A (maybePublishServiceAggregate E subject epoch >>= fun _ =>
      Pure.pure ()) := (maybePublishServiceAggregate_stepwise subject epoch).thenPure
  exact .read fun _ => .unlessM <| .bind (.check _) fun _ =>
    (importServiceAttestation_stepwise _).bind fun _ =>
      .ite (.bind (.forEach fun _ => .sendTo _ _) fun _ => hpublish) hpublish

theorem refreshRecentServiceAttestations_stepwise (epoch : Epoch) :
    Stepwise E A (refreshRecentServiceAttestations E epoch) :=
  .unlessM <| .forEach fun e => .unlessM <| .forEach (emitServiceAttestationFor_stepwise e)

theorem handleServiceAttestation_stepwise (attestation : ServiceAttestation) :
    Stepwise E A (handleServiceAttestation E attestation) :=
  (importServiceAttestation_stepwise attestation).attempt.bind fun
    | .error _ => .pure _
    | .ok _ => (maybePublishServiceAggregate_stepwise _ _).thenPure

theorem handleServiceAggregate_stepwise (aggregate : ServiceAggregate) :
    Stepwise E A (handleServiceAggregate E aggregate) :=
  (importServiceAggregate_stepwise aggregate).attempt.bind fun
    | .error _ => .pure _
    | .ok _ => Acts.books.refreshServiceScores

end Entangrid
