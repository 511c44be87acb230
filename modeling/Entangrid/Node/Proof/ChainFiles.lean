import Entangrid.Node.Proof.BlockStore
import Entangrid.Node.Proof.Restart

/-!
# The chain files after a crash

`blocks.jsonl` and `state_snapshot.json` are written one after the other, and a node starts with the
snapshot it finds, without a look at the blocks. The two agree unless the crash falls between the two
writes of one operation.

* `Step.chain_cases`: what a step does to the chain and its files: nothing, an extension or a new
  chain, each with its two writes.
* `Disk.Consistent`: the ledger a node starts with is the replay of the blocks it loads.
* `chain_files_survive_crash`: the crash points after which the directory is consistent.
-/

namespace Entangrid

open LedgerState
open Proc (Moves)

variable {E : Env} {A : Source} {n n' : Node}

/-- The writes to the chain files. -/
def Effect.ofChain : Effect → Bool
  | .write w => w.ofChain
  | _ => false

/-- Effects that leave the chain files alone. -/
def Quiet (effects : List Effect) : Prop := ∀ effect ∈ effects, effect.ofChain = false

theorem Quiet.writes {ws : List StorageWrite} (h : ∀ w ∈ ws, w.ofChain = false) :
    Quiet (ws.map .write) := by
  intro effect he
  obtain ⟨w, hw, rfl⟩ := List.mem_map.1 he
  exact h w hw

theorem Quiet.single {effect : Effect} (h : effect.ofChain = false) : Quiet [effect] :=
  fun _ he => List.mem_singleton.1 he ▸ h

/-! ## Steps -/

section
variable (E n n')

/-- The chain stays. -/
structure ChainStays : Prop where
  effects : ∃ new, n'.effects = new ++ n.effects ∧ Quiet new
  blocks : n'.blocks = n.blocks
  ledger : n'.ledger = n.ledger

/-- A block is appended. -/
structure ChainGrows (block : Block) : Prop where
  effects : n'.effects =
    .write (.writeSnapshot n'.ledger.snapshot) :: .write (.appendBlock block) :: n.effects
  blocks : n'.blocks = n.blocks ++ [block]
  ledger : n.ledger.applyBlock E.hashing E.crypto block = .ok n'.ledger

/-- The chain is replaced. -/
structure ChainReplaced : Prop where
  effects : ∃ pre post, n'.effects = post ++ .write (.overwriteBlocks n'.blocks) ::
    .write (.writeSnapshot n'.ledger.snapshot) :: (pre ++ n.effects) ∧ Quiet pre ∧ Quiet post
  replay : replayBlocks E.hashing E.crypto E.genesis n'.blocks = .ok n'.ledger

end

theorem EffectOk.quiet {effect : Effect} (h : EffectOk E A n effect) : effect.ofChain = false := by
  cases effect with
  | write w => exact h
  | _ => rfl

/-- **What a step does to the chain and its files.** -/
theorem Step.chain_cases (h : Step E A n n') :
    ChainStays n n' ∨ (A.appends ∧ ∃ block, ChainGrows E n n' block) ∨ ChainReplaced E n n' := by
  have hnone (heffects : n'.effects = n.effects) (hblocks : n'.blocks = n.blocks)
      (hledger : n'.ledger = n.ledger) : ChainStays n n' :=
    ⟨⟨[], heffects, by simp [Quiet]⟩, hblocks, hledger⟩
  cases h with
  | book hcore =>
    exact .inl (hnone (Node.core_effects hcore) (Node.core_blocks hcore) (Node.core_ledger hcore))
  | emit effect heffect => exact .inl ⟨⟨[effect], rfl, .single heffect.quiet⟩, rfl, rfl⟩
  | addTx | drop => exact .inl ⟨⟨[_], rfl, .single rfl⟩, rfl, rfl⟩
  | storeReceipt receipt =>
    obtain ⟨ws, heq, hws⟩ := n.withReceipt_effects (E := E) receipt
    exact .inl ⟨⟨_, heq, .writes hws⟩, rfl, rfl⟩
  | commitmentReceipts block =>
    obtain ⟨ws, heq, hws⟩ := n.withCommitmentReceipts_effects (E := E) block.commitmentReceipts
    exact .inl ⟨⟨_, heq, .writes hws⟩, rfl, rfl⟩
  | replaceVotes =>
    rw [Node.withoutVotes_eq]
    exact .inl ⟨⟨[], rfl, by simp [Quiet]⟩, rfl, rfl⟩
  | storeVote vote | bufferVote vote =>
    rw [Node.withoutVotes_eq]
    exact .inl ⟨⟨[_], rfl, .single rfl⟩, rfl, rfl⟩
  | extend block _ _ _ _ happly _ happends =>
    exact .inr (.inl ⟨happends, block, rfl, rfl, happly⟩)
  | @adopt chain ledger _ hreplay =>
    obtain ⟨ws, heq, hws⟩ := n.adopted_effects (E := E) ledger chain
    refine .inr (.inr ⟨⟨_, [_, _], heq, .writes hws, ?_⟩, hreplay⟩)
    simp [Quiet, Effect.ofChain, StorageWrite.ofChain]
  | @applySnapshot chain ledger _ _ hvalid =>
    refine .inr (.inr ⟨⟨[], [_, _], rfl, by simp [Quiet], ?_⟩, ?_⟩)
    · simp [Quiet, Effect.ofChain, StorageWrite.ofChain]
    · exact (validateSnapshotBlocks_ok (validateChainSnapshot_blocks hvalid).2.1).2.2
  | @applySegment base blocks _ _ ledger _ _ hreplay hvalid =>
    refine .inr (.inr ⟨⟨[], [_], rfl, by simp [Quiet], .single rfl⟩, ?_⟩)
    exact (applyBlocks_append hreplay).trans (validateSnapshotBlocks_ok hvalid).2.2
  | _ => exact .inl (hnone rfl rfl rfl)

/-! ## The directory -/

/-- The ledger a node starts with is the replay of the blocks it loads, and its tip is the last of
them. -/
structure Disk.Consistent (E : Env) (d : Disk) : Prop where
  replay : replayBlocks E.hashing E.crypto E.genesis d.blocks = .ok (d.ledger E)
  tip : (d.ledger E).snapshot.tipHash = tipFrom empty_hash d.blocks

theorem Disk.Consistent.of_replay {d : Disk}
    (h : replayBlocks E.hashing E.crypto E.genesis d.blocks = .ok (d.ledger E)) : d.Consistent E :=
  ⟨h, replayBlocks_tipHash h⟩

/-- The blocks replay, and the snapshot is that of the replay or missing. -/
theorem Disk.ledger_of_replay {d : Disk} {ledger : LedgerState}
    (hreplay : replayBlocks E.hashing E.crypto E.genesis d.blocks = .ok ledger)
    (hsnapshot : d.snapshot = none ∨ d.snapshot = some ledger.snapshot) : d.ledger E = ledger := by
  unfold Disk.ledger
  rcases hsnapshot with hnone | hsome
  · simp only [hnone, hreplay]
  · simp only [hsome]

/-- The crash falls outside the two writes of an operation, or before there is a snapshot: a node that
finds none replays its blocks. -/
def Settled (d : Disk) (log : List Effect) : Prop :=
  Even (log.countP Effect.ofChain) ∨ (d.after log).snapshot = none

/-- The directory is consistent at the settled points of a log, and at no such point an overwrite of
the blocks begins. -/
structure LogConsistent (E : Env) (d : Disk) (log : List Effect) : Prop where
  settled : ∀ earlier, earlier <:+ log → Settled d earlier → (d.after earlier).Consistent E
  overwrite : ∀ blocks earlier, (.write (.overwriteBlocks blocks) :: earlier) <:+ log →
    ¬Settled d earlier

section
variable {d : Disk} {log : List Effect}

/-- A quiet effect changes neither chain file. -/
theorem Disk.after_quiet (d : Disk) (log : List Effect) {effect : Effect} (h : effect.ofChain = false) :
    (d.after (effect :: log)).blocks = (d.after log).blocks ∧
      (d.after (effect :: log)).snapshot = (d.after log).snapshot := by
  cases effect with
  | write w =>
    cases w with
    | appendBlock | overwriteBlocks | writeSnapshot => cases h
    | _ => exact ⟨rfl, rfl⟩
  | _ => exact ⟨rfl, rfl⟩

theorem Disk.ledger_congr {d' : Disk} (hblocks : d'.blocks = d.blocks)
    (hsnapshot : d'.snapshot = d.snapshot) : d'.ledger E = d.ledger E := by
  rw [Disk.ledger, hblocks, hsnapshot]
  rfl

theorem Disk.Consistent.congr {d' : Disk} (h : d.Consistent E) (hblocks : d'.blocks = d.blocks)
    (hsnapshot : d'.snapshot = d.snapshot) : d'.Consistent E := by
  refine .of_replay ?_
  rw [hblocks, Disk.ledger_congr hblocks hsnapshot]
  exact h.replay

theorem LogConsistent.nil (h : d.Consistent E) : LogConsistent E d [] where
  settled _ hearlier _ := List.suffix_nil.1 hearlier ▸ h
  overwrite _ _ hearlier := by cases List.suffix_nil.1 hearlier

theorem LogConsistent.cons {effect : Effect} (h : LogConsistent E d log)
    (hlast : Settled d (effect :: log) → (d.after (effect :: log)).Consistent E)
    (hoverwrite : ∀ blocks, effect = .write (.overwriteBlocks blocks) → ¬Settled d log) :
    LogConsistent E d (effect :: log) := by
  refine ⟨fun earlier hearlier hsettled => ?_, fun blocks earlier hearlier => ?_⟩
  · rcases List.suffix_cons_iff.1 hearlier with rfl | hearlier
    · exact hlast hsettled
    · exact h.settled earlier hearlier hsettled
  · rcases List.suffix_cons_iff.1 hearlier with heq | hearlier
    · obtain ⟨rfl, rfl⟩ := List.cons.inj heq
      exact hoverwrite blocks rfl
    · exact h.overwrite blocks earlier hearlier

theorem LogConsistent.quiet {new : List Effect} (h : LogConsistent E d log) (hnew : Quiet new) :
    LogConsistent E d (new ++ log) := by
  induction new with
  | nil => exact h
  | cons effect new ih =>
    obtain ⟨heffect, hnew⟩ := List.forall_mem_cons.1 hnew
    have ih := ih hnew
    refine ih.cons (fun hsettled => ?_) (by rintro blocks rfl; cases heffect)
    obtain ⟨hblocks, hsnapshot⟩ := Disk.after_quiet d (new ++ log) heffect
    refine (ih.settled _ List.suffix_rfl ?_).congr hblocks hsnapshot
    unfold Settled at hsettled ⊢
    rwa [List.countP_cons_of_neg (by simp [heffect]), hsnapshot] at hsettled

theorem Disk.after_append_quiet (d : Disk) (log : List Effect) {new : List Effect} (h : Quiet new) :
    (d.after (new ++ log)).blocks = (d.after log).blocks ∧
      (d.after (new ++ log)).snapshot = (d.after log).snapshot := by
  induction new with
  | nil => exact ⟨rfl, rfl⟩
  | cons effect new ih =>
    obtain ⟨heffect, hnew⟩ := List.forall_mem_cons.1 h
    obtain ⟨hblocks, hsnapshot⟩ := Disk.after_quiet d (new ++ log) heffect
    exact ⟨hblocks.trans (ih hnew).1, hsnapshot.trans (ih hnew).2⟩

theorem countP_append_quiet {new : List Effect} (h : Quiet new) :
    (new ++ log).countP Effect.ofChain = log.countP Effect.ofChain := by
  rw [List.countP_append, List.countP_eq_zero.2 fun effect he => by simp [h effect he], Nat.zero_add]

end

/-! ## The invariant -/

/-- The files hold the chain and the ledger of the node, and every crash point was safe up to the
writes under way. -/
structure DiskInv (E : Env) (d : Disk) (n : Node) : Prop where
  blocks : (d.after n.effects).blocks = n.blocks
  ledger : (d.after n.effects).ledger E = n.ledger
  replay : replayBlocks E.hashing E.crypto E.genesis n.blocks = .ok n.ledger
  even : Even (n.effects.countP Effect.ofChain)
  log : LogConsistent E d n.effects

section
variable {d : Disk}

theorem DiskInv.stays (h : DiskInv E d n) (hstep : ChainStays n n') : DiskInv E d n' := by
  obtain ⟨⟨new, heffects, hnew⟩, hblocks, hledger⟩ := hstep
  obtain ⟨hfile, hsnapshot⟩ := Disk.after_append_quiet d n.effects hnew
  constructor
  · rw [heffects, hfile, h.blocks, hblocks]
  · rw [heffects, Disk.ledger_congr hfile hsnapshot, h.ledger, hledger]
  · rw [hblocks, hledger]
    exact h.replay
  · rw [heffects, countP_append_quiet hnew]
    exact h.even
  · rw [heffects]
    exact h.log.quiet hnew

theorem DiskInv.grows {block : Block} (h : DiskInv E d n) (hstep : ChainGrows E n n' block) :
    DiskInv E d n' := by
  have hreplay : replayBlocks E.hashing E.crypto E.genesis n'.blocks = .ok n'.ledger := by
    rw [hstep.blocks, replayBlocks, applyBlocks_append h.replay, applyBlocks, hstep.ledger]
    rfl
  have hfile : ((d.after n.effects).write (.appendBlock block)).blocks = n'.blocks := by
    rw [hstep.blocks, ← h.blocks]
    rfl
  have hodd : Odd ((.write (.appendBlock block) :: n.effects).countP Effect.ofChain) := by
    rw [List.countP_cons_of_pos (by rfl)]
    exact h.even.add_one
  constructor
  · rw [hstep.effects]
    exact hfile
  · rw [hstep.effects]
    rfl
  · exact hreplay
  · rw [hstep.effects, List.countP_cons_of_pos (by rfl)]
    exact hodd.add_one
  · rw [hstep.effects]
    refine (h.log.cons (fun hsettled => ?_) (by simp)).cons (fun _ => .of_replay ?_) (by simp)
    · -- the block is on disk and the snapshot is not: fine only if there is none at all
      rcases hsettled with heven | hnone
      · exact absurd heven (Nat.not_even_iff_odd.2 hodd)
      · have hledger := Disk.ledger_of_replay (hfile.symm ▸ hreplay) (.inl hnone)
        exact .of_replay (hledger.symm ▸ hfile.symm ▸ hreplay)
    · exact hfile.symm ▸ hreplay

theorem DiskInv.replaced (h : DiskInv E d n) (hstep : ChainReplaced E n n') : DiskInv E d n' := by
  obtain ⟨⟨pre, post, heffects, hpre, hpost⟩, hreplay⟩ := hstep
  have heven : Even ((pre ++ n.effects).countP Effect.ofChain) := by
    rw [countP_append_quiet hpre]
    exact h.even
  have hodd : Odd ((.write (.writeSnapshot n'.ledger.snapshot) :: (pre ++ n.effects)).countP
      Effect.ofChain) := by
    rw [List.countP_cons_of_pos (by rfl)]
    exact heven.add_one
  -- with the snapshot ahead of the blocks the log is not settled
  have hunsettled : ¬Settled d (.write (.writeSnapshot n'.ledger.snapshot) :: (pre ++ n.effects)) := by
    rintro (heven' | hnone)
    · exact Nat.not_even_iff_odd.2 hodd heven'
    · cases hnone
  obtain ⟨hfile, hsnapshot⟩ := Disk.after_append_quiet d (.write (.overwriteBlocks n'.blocks) ::
    .write (.writeSnapshot n'.ledger.snapshot) :: (pre ++ n.effects)) hpost
  rw [← heffects] at hfile hsnapshot
  have hblocks : (d.after n'.effects).blocks = n'.blocks := hfile
  constructor
  · exact hblocks
  · exact Disk.ledger_of_replay (hblocks.symm ▸ hreplay) (.inr hsnapshot)
  · exact hreplay
  · rw [heffects, countP_append_quiet hpost, List.countP_cons_of_pos (by rfl)]
    exact hodd.add_one
  · rw [heffects]
    exact (((h.log.quiet hpre).cons (fun hsettled => absurd hsettled hunsettled) (by simp)).cons
      (fun _ => .of_replay (by exact hreplay)) fun _ _ => hunsettled).quiet hpost

theorem DiskInv.step (h : DiskInv E d n) (hstep : Step E A n n') : DiskInv E d n' := by
  rcases hstep.chain_cases with hstays | ⟨-, block, hgrows⟩ | hreplaced
  · exact h.stays hstays
  · exact h.grows hgrows
  · exact h.replaced hreplaced

/-! ## Lives -/

/-- The invariant of the files is kept. -/
def DiskKept (E : Env) (d : Disk) (n n' : Node) : Prop := DiskInv E d n → DiskInv E d n'

instance (E : Env) (d : Disk) : IsPreorder Node (DiskKept E d) where
  refl _ := id
  trans _ _ _ h h' hn := h' (h hn)

theorem Acts.diskKept (h : Acts E {} n n') : DiskKept E d n n' := fun hn => by
  have hsteps : Steps E {} n n' := h (Source.covers_of_univ rfl rfl n)
  clear h
  induction hsteps with
  | refl => exact hn
  | tail _ hstep ih => exact ih.step hstep

/-- What changes neither the chain nor the effects keeps it. -/
theorem DiskKept.of_eq (heffects : n'.effects = n.effects) (hblocks : n'.blocks = n.blocks)
    (hledger : n'.ledger = n.ledger) : DiskKept E d n n' :=
  fun h => h.stays ⟨⟨[], heffects, by simp [Quiet]⟩, hblocks, hledger⟩

theorem StartedOn.diskInv (hd : d.Consistent E) (hn : StartedOn E d n) : DiskInv E d n := by
  induction hn with
  | start hrun =>
    refine (startNode_moves (A := {}) (R := DiskKept E d) (fun _ => trivial) Acts.diskKept
      (fun _ _ => .of_eq rfl rfl rfl) (fun _ => .of_eq rfl rfl rfl) d).of_state? hrun ?_
    exact ⟨rfl, rfl, hd.replay, by simp [Disk.node], .nil hd⟩
  | handle fuel event _ hrun ih =>
    exact Acts.diskKept ((handleEvent_moves fuel (admits_any _ event trivial)).of_state? hrun) ih

/-- The files of a node that started on the empty directory. -/
theorem Reachable.diskInv (hn : Reachable E AnyEvent n) : DiskInv E {} n :=
  hn.invariant admits_any (fun _ => ⟨rfl, rfl, rfl, by simp [Node.fresh], .nil (.of_replay rfl)⟩)
    fun _ _ _ h hstep => h.step hstep

/-! ## Crash points -/

/-- The states of a file part-way through an overwrite: it is emptied and then written line by
line. -/
def StorageWrite.parts : StorageWrite → List StorageWrite
  | .overwriteBlocks blocks => (List.range blocks.length).map fun k => .overwriteBlocks (blocks.take k)
  | .overwriteOrphans orphans =>
    (List.range orphans.length).map fun k => .overwriteOrphans (orphans.take k)
  | .overwriteReceipts receipts =>
    (List.range receipts.length).map fun k => .overwriteReceipts (receipts.take k)
  | .overwriteQuorumCertificates qcs =>
    (List.range qcs.length).map fun k => .overwriteQuorumCertificates (qcs.take k)
  | _ => []

/-- What a crash can leave of the directory `d`: the node had `effects` behind it, and perhaps a part of
the next write. -/
inductive Crashed (d : Disk) (log : List Effect) : List Effect → Disk → Prop
  | between {effects : List Effect} (h : effects <:+ log) : Crashed d log effects (d.after effects)
  | within {effects : List Effect} {w part : StorageWrite} (h : (.write w :: effects) <:+ log)
      (hpart : part ∈ w.parts) : Crashed d log effects ((d.after effects).write part)

/-- A part of a write that is not to the chain files is not either. -/
theorem StorageWrite.ofChain_part {w part : StorageWrite} (h : part ∈ w.parts) :
    part.ofChain = w.ofChain := by
  cases w with
  | overwriteBlocks | overwriteOrphans | overwriteReceipts | overwriteQuorumCertificates =>
    obtain ⟨k, -, rfl⟩ := List.mem_map.1 h
    rfl
  | _ => cases h

end

/-- **The chain files survive a crash outside the two writes of an operation.** A node that started on a
consistent directory leaves a consistent one whenever it crashes at a settled point: after whole
operations, or before there is a snapshot. -/
theorem chain_files_survive_crash (E : Env) (d : Disk) (hd : d.Consistent E) (n : Node)
    (hn : StartedOn E d n) (effects : List Effect) (d' : Disk)
    (hcrash : Crashed d n.effects effects d') (hsettled : Settled d effects) : d'.Consistent E := by
  have hlog := (hn.diskInv hd).log
  cases hcrash with
  | between h => exact hlog.settled effects h hsettled
  | @within w part h hpart =>
    have hbefore := hlog.settled effects ((List.suffix_cons _ _).trans h) hsettled
    cases hw : w.ofChain with
    | false =>
      have hpart' : (Effect.write part).ofChain = false := (StorageWrite.ofChain_part hpart).trans hw
      obtain ⟨hblocks, hsnapshot⟩ := Disk.after_quiet d effects hpart'
      exact hbefore.congr hblocks hsnapshot
    | true =>
      cases w with
      | overwriteBlocks blocks => exact absurd hsettled (hlog.overwrite blocks effects h)
      | appendBlock | writeSnapshot => cases hpart
      | _ => cases hw

/-! ## Runs -/

/-- The state of node 1 after it started on an empty directory and took two blocks. -/
def twoBlocksTaken : Option Node :=
  ((startNode (sampleEnv 1) {}).run (({} : Disk).node (sampleEnv 1))).state?.bind
    (runEvents (sampleEnv 1) 8 [.received 4 (.blockProposal firstBlock),
      .received 2 (.blockProposal secondBlock)])

theorem startedOn_twoBlocksTaken {n : Node} (h : twoBlocksTaken = some n) :
    StartedOn (sampleEnv 1) {} n := by
  obtain ⟨n₀, hstart, hrun⟩ := Option.bind_eq_some_iff.1 h
  exact (StartedOn.start hstart).runEvents hrun

/-- A crash after both blocks are written leaves two blocks and their ledger. -/
theorem two_blocks_survive_crash : ∃ n, StartedOn (sampleEnv 1) {} n ∧
    (({} : Disk).after n.effects).blocks.length = 2 ∧
    (({} : Disk).after n.effects).Consistent (sampleEnv 1) := by
  have hrun : twoBlocksTaken.map (fun n => ((({} : Disk).after n.effects).blocks.length,
      n.effects.countP Effect.ofChain)) = some (2, 4) := by
    decide +kernel
  obtain ⟨n, hn, hvalues⟩ := Option.map_eq_some_iff.1 hrun
  simp only [Prod.mk.injEq] at hvalues
  refine ⟨n, startedOn_twoBlocksTaken hn, hvalues.1, ?_⟩
  exact chain_files_survive_crash (sampleEnv 1) {} (.of_replay rfl) n (startedOn_twoBlocksTaken hn)
    n.effects _ (.between List.suffix_rfl) (.inl (by rw [hvalues.2]; decide))

/-- A crash between the append of the second block and the write of its snapshot: the node would start
with the ledger of the first block on a chain of two. -/
theorem crash_between_chain_writes : ∃ n effects d', StartedOn (sampleEnv 1) {} n ∧
    Crashed {} n.effects effects d' ∧ d'.blocks.map (·.blockHash) =
      [firstBlock.blockHash, secondBlock.blockHash] ∧
    (d'.ledger (sampleEnv 1)).snapshot.tipHash = firstBlock.blockHash ∧
    ¬d'.Consistent (sampleEnv 1) := by
  have hrun : twoBlocksTaken.map (fun n =>
      ((({} : Disk).after (n.effects.drop 9)).blocks.map (·.blockHash),
        ((({} : Disk).after (n.effects.drop 9)).ledger (sampleEnv 1)).snapshot.tipHash)) =
      some ([firstBlock.blockHash, secondBlock.blockHash], firstBlock.blockHash) := by
    decide +kernel
  obtain ⟨n, hn, hvalues⟩ := Option.map_eq_some_iff.1 hrun
  simp only [Prod.mk.injEq] at hvalues
  refine ⟨n, _, _, startedOn_twoBlocksTaken hn, .between (List.drop_suffix 9 _), hvalues.1, hvalues.2,
    fun hconsistent => ?_⟩
  have htip := hconsistent.tip
  obtain ⟨first, rest, hblocks, -, hrest⟩ := List.map_eq_cons_iff.1 hvalues.1
  obtain ⟨second, _, rfl, hsecond, hnil⟩ := List.map_eq_cons_iff.1 hrest
  rw [List.map_eq_nil_iff.1 hnil] at hblocks
  rw [hvalues.2, hblocks, show tipFrom empty_hash [first, second] = second.blockHash from rfl,
    hsecond] at htip
  revert htip
  decide +kernel

end Entangrid
