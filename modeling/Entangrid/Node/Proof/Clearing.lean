import Entangrid.Node.Proof.Rejection
import Entangrid.Node.Proof.Transactions

/-!
# Appended blocks and the mempool

`accept_block` appends a block, imports its receipts and the votes for it, and tries to finalize it;
after that it takes its transactions out of the mempool. An error on the way would leave them there.
Where the extension of a chain does not fail, the removal is reached.

* `AppendsCleared`: every append in a log is followed by the removal of the block's transactions.
* `acceptExtension_clears`: an extension that returns has removed them.
* `Reachable.appendsCleared`: what is said of logs holds of every run in which the blocks that arrive
  beside the tip execute.
-/

namespace Entangrid

open LedgerState
open Proc (Moves NeverFails)

variable {E : Env} {A : Source} {S : Set Block} {I : Node → Prop} {n n' : Node} {block : Block}
  {k : HashBytes} {log new : List Effect}

/-! ## Logs -/

/-- The transaction was taken out of the mempool. -/
def Cleared (k : HashBytes) (log : List Effect) : Prop :=
  ∃ hashes, .mempoolCleared hashes ∈ log ∧ k ∈ hashes

theorem cleared_append : Cleared k (new ++ log) ↔ Cleared k new ∨ Cleared k log := by
  simp only [Cleared, List.mem_append, or_and_right, exists_or]

theorem cleared_cons {effect : Effect} :
    Cleared k (effect :: log) ↔ (∃ hashes, effect = .mempoolCleared hashes ∧ k ∈ hashes) ∨
      Cleared k log := by
  simp only [Cleared, List.mem_cons, or_and_right, exists_or, eq_comm]

/-- Every append in the log is followed by the removal of the block's transactions. -/
def AppendsCleared (log : List Effect) : Prop :=
  ∀ later block before, log = later ++ .write (.appendBlock block) :: before →
    ∀ k ∈ txHashes [block], Cleared k later

def Appendless (effects : List Effect) : Prop := ∀ block, .write (.appendBlock block) ∉ effects

theorem Quiet.appendless (h : Quiet new) : Appendless new := by
  intro block hmem
  cases h _ hmem

/-- The appends of a log are older than what follows without one. -/
theorem Appendless.split (hnew : Appendless new) {later before : List Effect}
    (heq : new ++ log = later ++ .write (.appendBlock block) :: before) :
    ∃ rest, later = new ++ rest ∧ log = rest ++ .write (.appendBlock block) :: before := by
  rcases List.append_eq_append_iff.1 heq with ⟨rest, rfl, hlog⟩ | ⟨rest, hsplit, hlog⟩
  · exact ⟨rest, rfl, hlog⟩
  · cases rest with
    | nil => exact ⟨[], by simp [hsplit], hlog.symm⟩
    | cons effect rest =>
      obtain ⟨rfl, -⟩ := List.cons.inj hlog
      exact absurd (by simp [hsplit]) (hnew block)

theorem AppendsCleared.nil : AppendsCleared [] := by
  intro later block before heq
  simp at heq

theorem AppendsCleared.append (h : AppendsCleared log) (hnew : Appendless new) :
    AppendsCleared (new ++ log) := by
  intro later block before heq k hk
  obtain ⟨rest, rfl, hlog⟩ := hnew.split heq
  rw [cleared_append]
  exact .inr (h rest block before hlog k hk)

/-- The removal makes up for one append. -/
theorem AppendsCleared.cleared (h : AppendsCleared log) (hnew : Appendless new) :
    AppendsCleared (.mempoolCleared (block.transactions.map (·.txHash)) ::
      (new ++ .write (.appendBlock block) :: log)) := by
  intro later b before heq k hk
  cases later with
  | nil => cases heq
  | cons effect later =>
    obtain ⟨rfl, hrest⟩ := List.cons.inj heq
    obtain ⟨rest, rfl, hlog⟩ := hnew.split hrest
    rw [cleared_cons, cleared_append]
    cases rest with
    | nil =>
      cases hlog
      exact .inl ⟨_, rfl, by simpa [txHashes] using hk⟩
    | cons e rest =>
      obtain ⟨rfl, hbefore⟩ := List.cons.inj hlog
      rw [cleared_cons]
      exact .inr (.inr (.inr (h rest b before hbefore k hk)))

/-! ## Steps that append nothing -/

def Node.AppendsNothing (n n' : Node) : Prop :=
  ∃ new, n'.effects = new ++ n.effects ∧ Appendless new

theorem Node.AppendsNothing.trans {n₁ n₂ n₃ : Node} (h : n₁.AppendsNothing n₂)
    (h' : n₂.AppendsNothing n₃) : n₁.AppendsNothing n₃ := by
  obtain ⟨new, heq, hnew⟩ := h
  obtain ⟨new', heq', hnew'⟩ := h'
  refine ⟨new' ++ new, by rw [heq', heq, List.append_assoc], fun block hmem => ?_⟩
  exact (List.mem_append.1 hmem).elim (hnew' block) (hnew block)

theorem Node.AppendsNothing.cleared (h : n.AppendsNothing n') (hn : AppendsCleared n.effects) :
    AppendsCleared n'.effects := by
  obtain ⟨new, heq, hnew⟩ := h
  rw [heq]
  exact hn.append hnew

theorem Step.appendsNothing (h : Step E A n n') (hA : ¬A.appends) : n.AppendsNothing n' := by
  rcases h.chain_cases with hstays | ⟨happends, -⟩ | hreplaced
  · obtain ⟨new, heq, hnew⟩ := hstays.effects
    exact ⟨new, heq, hnew.appendless⟩
  · exact absurd happends hA
  · obtain ⟨pre, post, heq, hpre, hpost⟩ := hreplaced.effects
    refine ⟨post ++ .write (.overwriteBlocks n'.blocks) :: .write (.writeSnapshot n'.ledger.snapshot) ::
      pre, by simp [heq], fun block hmem => ?_⟩
    simp only [List.mem_append, List.mem_cons, Effect.write.injEq, reduceCtorEq, false_or] at hmem
    exact hmem.elim (hpost.appendless block) (hpre.appendless block)

theorem Steps.appendsNothing (h : Steps E A n n') (hA : ¬A.appends) : n.AppendsNothing n' := by
  induction h with
  | refl => exact ⟨[], rfl, by simp [Appendless]⟩
  | tail _ hstep ih => exact ih.trans (hstep.appendsNothing hA)

/-! ## Extensions -/

/-- What takes in no block appends none. -/
theorem Stepwise.appendsNothing {α : Type} {m : NodeM α} {a : α}
    (h : Stepwise E (Source.still {}) m) (hrun : m.run n = .ok a n') : n.AppendsNothing n' :=
  Steps.appendsNothing ((h n).ok hrun (Source.covers_of_univ rfl rfl n)) id

/-- An extension that returns has taken the transactions of its block out of the mempool. -/
theorem acceptExtension_clears {fuel : Nat} {ledger : LedgerState} {acceptance : BlockAcceptance}
    (hrun : (acceptExtension E fuel block ledger).run n = .ok acceptance n')
    (hn : AppendsCleared n.effects) : AppendsCleared n'.effects := by
  replace hrun : ((do
      importCommitmentReceipts E block.commitmentReceipts
      importBufferedProposalVotesForBlock E fuel block
      let _ ← maybeFinalizeQuorumCertificate E fuel block.blockHash
      Proc.modify (·.dropFromMempool block.transactions)
      NodeM.emit (.mempoolCleared (block.transactions.map (·.txHash)))
      maybeBroadcastLocalProposalVote E fuel block
      let _ ← Proc.attempt (maybePushTipProgressToStalePeers E)
      pure .accepted) : NodeM BlockAcceptance).run (n.extended ledger block) = .ok acceptance n' := hrun
  rw [Proc.run_bind_of_ok (run_importCommitmentReceipts _)] at hrun
  obtain ⟨_, n₁, hvotes, hrun⟩ := Proc.run_bind_eq_ok hrun
  obtain ⟨_, n₂, hfinalize, hrun⟩ := Proc.run_bind_eq_ok hrun
  replace hrun : ((do
      maybeBroadcastLocalProposalVote E fuel block
      let _ ← Proc.attempt (maybePushTipProgressToStalePeers E)
      pure .accepted) : NodeM BlockAcceptance).run ((n₂.dropFromMempool block.transactions).withEffect
        (.mempoolCleared (block.transactions.map (·.txHash)))) = .ok acceptance n' := hrun
  have hreceipts : (n.extended ledger block).AppendsNothing
      ((n.extended ledger block).withCommitmentReceipts E block.commitmentReceipts) := by
    obtain ⟨ws, heq, hws⟩ := (n.extended ledger block).withCommitmentReceipts_effects (E := E)
      block.commitmentReceipts
    exact ⟨_, heq, (Quiet.writes hws).appendless⟩
  obtain ⟨new, heq, hnew⟩ := hreceipts.trans
    (((importBufferedProposalVotesForBlock_stepwise fuel block).appendsNothing hvotes).trans
      ((maybeFinalizeQuorumCertificate_stepwise fuel _).appendsNothing hfinalize))
  have hbefore : n₂.effects =
      (new ++ [.write (.writeSnapshot ledger.snapshot)]) ++ .write (.appendBlock block) :: n.effects := by
    rw [heq, List.append_assoc]
    rfl
  have hbetween : Appendless (new ++ [.write (.writeSnapshot ledger.snapshot)]) := by
    intro b hmem
    rw [List.mem_append, List.mem_singleton] at hmem
    rcases hmem with hmem | hmem
    · exact hnew b hmem
    · cases hmem
  have hafter : Stepwise E (Source.still {}) (do
      maybeBroadcastLocalProposalVote E fuel block
      let _ ← Proc.attempt (maybePushTipProgressToStalePeers E)
      pure BlockAcceptance.accepted) :=
    (castVote_stepwise fuel block).bind fun _ => Acts.books.maybePushTipProgress.attempt.thenPure
  refine (hafter.appendsNothing hrun).cleared ?_
  show AppendsCleared (_ :: n₂.effects)
  rw [hbefore]
  exact hn.cleared hbetween

/-! ## Handlers -/

/-- An invariant of what is done within `log`, under which the extension of a chain does not fail. -/
structure ExtendsSafely (E : Env) (A : Source) (log : List Effect) (I : Node → Prop) : Prop where
  step : ∀ {n n' : Node}, I n → Step E A n n' → n'.effects <:+ log → I n'
  extension : ∀ (fuel : Nat) {n : Node} {block : Block} {ledger : LedgerState}, I n →
    n.effects <:+ log → A.Arrived n block → n.knownBlock block.blockHash = none →
    validateReceivedBlock E block = .ok () → block.header.parentHash = n.ledger.snapshot.tipHash →
    n.ledger.applyBlock E.hashing E.crypto block = .ok ledger →
    n.certifiedHeadOnlyActive E = false ∨ n.hasQc block.blockHash = true →
    NeverFails (acceptExtension E fuel block ledger) n

theorem ExtendsSafely.steps (hI : ExtendsSafely E A log I) (h : Steps E A n n') (hn : I n)
    (hlog : n'.effects <:+ log) : I n' := by
  induction h with
  | refl => exact hn
  | tail _ hstep ih => exact hI.step (ih (hstep.effects_suffix.trans hlog)) hstep hlog

/-- The node goes on in steps, and within `log` it keeps the invariant and clears what it appends. -/
def Clears (E : Env) (A : Source) (log : List Effect) (I : Node → Prop) (n n' : Node) : Prop :=
  A.Covers n → Steps E A n n' ∧ (n'.effects <:+ log →
    I n ∧ AppendsCleared n.effects → I n' ∧ AppendsCleared n'.effects)

instance : IsPreorder Node (Clears E A log I) where
  refl _ _ := ⟨.refl, fun _ h => h⟩
  trans _ _ _ h h' hc := by
    obtain ⟨hsteps, hkept⟩ := h hc
    obtain ⟨hsteps', hkept'⟩ := h' (hsteps.covers hc)
    exact ⟨hsteps.trans hsteps', fun hlog hn =>
      hkept' hlog (hkept (hsteps'.effects_suffix.trans hlog) hn)⟩

/-- The extension clears its block, since it does not stop on the way. -/
theorem ExtendsSafely.acceptExtension (hI : ExtendsSafely E A log I) (happends : A.appends)
    (hsource : A.Block n block) (hnew : n.knownBlock block.blockHash = none)
    (hvalid : validateReceivedBlock E block = .ok ())
    (hparent : block.header.parentHash = n.ledger.snapshot.tipHash) {ledger : LedgerState}
    (happly : n.ledger.applyBlock E.hashing E.crypto block = .ok ledger)
    (hhead : n.certifiedHeadOnlyActive E = false ∨ n.hasQc block.blockHash = true) (fuel : Nat) :
    Moves (Clears E A log I) (acceptExtension E fuel block ledger) n := by
  have hmoves := acceptExtension_moves fuel hnew hvalid hsource hparent happly hhead happends
  unfold Moves at hmoves ⊢
  cases hrun : (Entangrid.acceptExtension E fuel block ledger).run n with
  | ok acceptance n' =>
    rw [hrun] at hmoves
    intro hc
    refine ⟨hmoves hc, fun hlog hn => ⟨hI.steps (hmoves hc) hn.1 hlog, ?_⟩⟩
    exact acceptExtension_clears hrun hn.2
  | err e n' =>
    rw [hrun] at hmoves
    intro hc
    have hsteps := hmoves hc
    refine ⟨hsteps, fun hlog hn => ?_⟩
    have hnever := hI.extension fuel hn.1 (hsteps.effects_suffix.trans hlog) (hsource.arrived hc) hnew
      hvalid hparent happly hhead
    exact (hnever e n' hrun).elim
  | _ => trivial

theorem ExtendsSafely.handles (hI : ExtendsSafely E A log I) (htakes : A.takesBlocks)
    (happends : A.appends) : Handles E A (Clears E A log I) := by
  have hstill {n n' : Node} (h : Acts E A.still n n') : Clears E A log I n n' := by
    intro hc
    have hsteps := h hc.still
    refine ⟨hsteps.of_still, fun hlog hn => ⟨hI.steps hsteps.of_still hn.1 hlog, ?_⟩⟩
    exact (Steps.appendsNothing hsteps id).cleared hn.2
  refine ⟨htakes, hstill, fun fuel n block localProposal hsource => ?_⟩
  have hsource' : A.still.Block n block := ⟨hsource.takes, hsource.source⟩
  apply acceptBlock_cases
  · exact fun hnew hvalid =>
      (acceptCompetingBlock_moves fuel hnew hvalid hsource').mono fun _ => hstill
  · exact fun hnew hvalid =>
      (acceptAboveCertifiedHead_moves fuel hnew hvalid hsource').mono fun _ => hstill
  · intro ledger hnew hvalid hparent happly hhead
    exact hI.acceptExtension happends hsource hnew hvalid hparent happly hhead fuel

/-! ## Runs -/

theorem Reachable.clears {P : Node → Event → Prop} (hfresh : ∀ slot, I (Node.fresh E slot))
    (hhandle : ∀ {n n' : Node} (fuel : Nat) (event : Event), A.Covers n → I n → P n event →
      ((handleEvent E fuel event).run n).state? = some n' → Clears E A log I n n')
    (hn : Reachable E P n) (hlog : n.effects <:+ log) :
    A.Covers n ∧ I n ∧ AppendsCleared n.effects := by
  induction hn with
  | fresh slot => exact ⟨A.covers_fresh slot, hfresh slot, .nil⟩
  | @handle n n' fuel event _ hP hrun ih =>
    have hany : Steps E {} n n' := (handleEvent_moves fuel (admits_any n event trivial)).of_state?
      hrun (Source.covers_of_univ rfl rfl n)
    obtain ⟨hc, hn⟩ := ih (hany.effects_suffix.trans hlog)
    obtain ⟨hsteps, hkept⟩ := hhandle fuel event hc hn.1 hP hrun hc
    exact ⟨hsteps.covers hc, hkept hlog hn⟩

section
variable (hme : E.me ∈ genesisIds E)
include hme

/-- Where every known block executes, an extension does not fail. -/
theorem Orderly.extendsSafely (h : Orderly E S n) :
    ExtendsSafely E (executing E S) n.effects (ReplayInv E S) where
  step {m m'} hm hstep hlog := by
    refine hm.step_executing h.hashes hstep fun b hb => h.built b ?_
    exact ((hstep.effects_suffix.trans hlog).filterMap _).mem hb
  extension fuel m block ledger hm hlog harrived hnew hvalid hparent happly hhead := by
    refine acceptExtension_neverFails h.hashes h.signs hme fuel hm ⟨?_, ?_⟩ hnew hvalid hparent happly
      hhead
    · rcases harrived with hb | hb | hb
      · exact hb.1
      · exact hb
      · exact h.built block ((hlog.filterMap _).mem hb)
    · exact hashed_of_validateReceivedBlock hvalid

/-- Without votes it does not fail either. -/
theorem extendsSafely_plain (hv1 : E.v2 = false) (hsigned : n.signedVotes = []) :
    ExtendsSafely E voteless n.effects Inert := by
  have hvalidators : E.genesis.validators ≠ [] := by
    intro hnone
    simp [genesisIds, hnone] at hme
  refine ⟨fun {m _} hm hstep hlog => ?_, fun fuel m block ledger hm _ _ _ _ _ _ _ => ?_⟩
  · refine hm.step hvalidators rfl ?_ hstep
    have hsuffix : m.signedVotes <:+ n.signedVotes :=
      (hstep.effects_suffix.trans hlog).filterMap _
    rw [hsigned, List.suffix_nil] at hsuffix
    exact hsuffix
  · exact hm.acceptExtension_neverFails hv1 hvalidators fuel block ledger

/-- **Every append is followed by the removal of its transactions.** -/
theorem Reachable.appendsCleared (hn : Reachable E (SafelyArrives E S) n)
    (horderly : E.v2 = true → Orderly E S n) : AppendsCleared n.effects := by
  cases hv2 : E.v2 with
  | true =>
    have h := horderly hv2
    have hI := h.extendsSafely hme
    refine (hn.clears (I := ReplayInv E S) (A := executing E S) (fun slot => .fresh slot)
      (fun fuel event hc hm hP hrun => ?_) List.suffix_rfl).2.2
    exact (hm.handleEvent_moves h.hashes (hI.handles trivial trivial) (hP hv2) fuel).of_state? hrun
  | false =>
    have hI := extendsSafely_plain hme hv2 (hn.signedVotes hv2)
    refine (hn.clears (I := Inert) (A := voteless) (fun slot => .fresh slot)
      (fun fuel event hc hm hP hrun => ?_) List.suffix_rfl).2.2
    rw [← handleEvent_plain hv2] at hrun
    exact ((hI.handles trivial trivial).handleEvent fuel (voteless_admits _ event)).of_state? hrun

end

end Entangrid
