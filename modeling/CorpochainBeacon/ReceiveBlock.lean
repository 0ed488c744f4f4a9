import CorpochainBeacon.BodyValidation

/-!
# `Blockchain.receive_block` and `_reconsider_peak`

The single writer of chain state:

* `receiveBlock` — the checks (duplicate, parent, height, pre-validation), the record,
  body validation, then `addToDatabase`.
* `addToDatabase` — the writer transaction: `storeWrites` (`add_full_block` and
  `_reconsider_peak`, on the transaction's copy of the store), the in-memory updates
  `applyRecords` inside it, the commit at the exit of `async with`, then `_peak_height`
  and `height_map.maybe_flush()`.
* `reconsiderPeak` and its backtracking loop `backtrack`.
* `receiveAll` — a run: `receive_block` over a delivery order.

The helpers the source imports but does not contain (`find_fork_point_in_chain`, the
derived part of `block_to_block_record`, the header validator and the PoSpace checks) are
the fields of `Collaborators`.
-/

namespace CorpochainBeacon

/-- What `block_to_block_record` derives beyond the block's own fields. -/
structure RecordExtras where
  subSlotIters : ℕ
  subEpochSummaryIncluded : Option SubEpochSummary
  lastWithdrawalIndex : Option ℕ
  coinbase : Bytes20

/-- Modelled from the spec: the consensus helpers that the modelled code calls and that are
not under src/ ("pure collaborator functions with stated contracts", §1, §4.D, §4.E). -/
structure Collaborators where
  /-- `find_fork_point_in_chain(blocks, block_1, block_2)` -/
  findForkPointInChain : (Bytes32 → Option BlockRecord) → BlockRecord → BlockRecord → ℤ
  /-- the derived fields of `block_to_block_record`; `ValueError` when the sub-epoch
  summary cannot be built -/
  deriveRecord : (Bytes32 → Option BlockRecord) → FullBlock → Option ℕ → Except Exc RecordExtras
  /-- `is_overflow_block(constants, signage_point_index)` -/
  isOverflowBlock : ℕ → Bool
  /-- `get_next_sub_slot_iters_and_difficulty(constants, new_slot, prev_b, blocks)`, as
  `(sub_slot_iters, difficulty)` -/
  getNextSubSlotItersAndDifficulty :
    (Bytes32 → Option BlockRecord) → Bool → Option BlockRecord → ℕ × ℕ
  /-- `get_block_challenge(constants, block, BlockCache(recent), genesis, overflow, False)` -/
  getBlockChallenge : (Bytes32 → Option BlockRecord) → FullBlock → Bool → Bool → Bytes32
  /-- `verify_and_get_quality_string(pos, constants, challenge, cc_sp_hash)` -/
  verifyAndGetQualityString : FullBlock → Bytes32 → Bytes32 → Option Bytes32
  /-- `calculate_iterations_quality(factor, q_str, size, difficulty, cc_sp_hash)` -/
  calculateIterationsQuality : Bytes32 → FullBlock → ℕ → Bytes32 → ℕ
  /-- `validate_finished_header_block(constants, blocks, header_block, difficulty, ssi)`,
  as `(required_iters, error)`; an exception is caught by the worker -/
  validateFinishedHeaderBlock :
    (Bytes32 → Option BlockRecord) → FullBlock → ℕ → ℕ → Except Exc (Option ℕ × Option Err)
  /-- `validate_unfinished_header_block(constants, blocks, block, difficulty, ssi, skip)` -/
  validateUnfinishedHeaderBlock :
    (Bytes32 → Option BlockRecord) → UnfinishedBlock → ℕ → ℕ → Bool → Option ℕ × Option Err

/-- What the world outside the beacon does during one `receive_block` call. -/
structure CallEnv where
  /-- the execution engine's answers -/
  engine : EngineAnswers
  /-- which block-store operations fail -/
  faults : StoreFaults

/-- What `receive_block` returns. -/
abbrev ReceiveBlockOutput : Type :=
  ReceiveBlockResult × Option Err × Option StateChangeSummary

variable (cc : Collaborators)

/-- Modelled from the spec: `full_block_to_block_record.py` is absent. The record's own
fields are the block's; the derived ones come from `Collaborators.deriveRecord`. -/
def blockToBlockRecord (blocks : Bytes32 → Option BlockRecord) (requiredIters : ℕ)
    (block : FullBlock) (subSlotIters : Option ℕ) : Except Exc BlockRecord := do
  let d ← cc.deriveRecord blocks block subSlotIters
  return {
    headerHash := block.headerHash
    prevHash := block.prevHeaderHash
    height := block.height
    weight := block.weight
    totalIters := block.totalIters
    requiredIters := requiredIters
    overflow := cc.isOverflowBlock block.signagePointIndex
    firstInSubSlot := !block.finishedSubSlots.isEmpty
    isTransactionBlock := block.isTransactionBlock
    subSlotIters := d.subSlotIters
    subEpochSummaryIncluded := d.subEpochSummaryIncluded
    finishedChallengeSlotHashes :=
      if block.finishedSubSlots.isEmpty then none
      else some (block.finishedSubSlots.map (·.challengeChain))
    lastWithdrawalIndex := d.lastWithdrawalIndex
    coinbase := d.coinbase }

/-- The record of a block carries the block's identity, parent, height and weight. -/
theorem blockToBlockRecord_fields {blocks : Bytes32 → Option BlockRecord} {ri : ℕ}
    {block : FullBlock} {ssi : Option ℕ} {r : BlockRecord}
    (h : blockToBlockRecord cc blocks ri block ssi = .ok r) :
    r.headerHash = block.headerHash ∧ r.prevHash = block.prevHeaderHash ∧
      r.height = block.height ∧ r.weight = block.weight ∧ r.totalIters = block.totalIters ∧
      r.isTransactionBlock = block.isTransactionBlock := by
  unfold blockToBlockRecord at h
  cases hd : cc.deriveRecord blocks block ssi <;> rw [hd] at h <;> cases h
  exact ⟨rfl, rfl, rfl, rfl, rfl, rfl⟩

namespace Blockchain

variable (s : Blockchain) (faults : StoreFaults)

/-- The backtracking loop of `_reconsider_peak`: from `curr`, fetch block and record
from the transaction's store until `curr` is the height map's hash at `fork_height` (never,
when `fork_height < 0`) or a block of height `0` was fetched. `fuel` bounds the
iterations. -/
def backtrack (work : BlockStore) (forkHeight : ℤ) :
    ℕ → Bytes32 → List (FullBlock × BlockRecord) → Except Exc (List (FullBlock × BlockRecord))
  | fuel, curr, blocksToAdd =>
    if forkHeight < 0 ∨ s.heightToHash forkHeight.toNat ≠ some curr then
      match fuel with
      | 0 => .error .outOfFuel
      | fuel + 1 => do
        let fetchedFullBlock ← work.getFullBlock faults curr
        let fetchedBlockRecord ← work.getBlockRecord faults curr
        match fetchedFullBlock, fetchedBlockRecord with
        | some fb, some br =>
          if fb.height = 0 then pure (blocksToAdd ++ [(fb, br)])
          else backtrack work forkHeight fuel br.prevHash (blocksToAdd ++ [(fb, br)])
        | _, _ => .error .assertionError
    else pure blocksToAdd

/-- The fork height of `_reconsider_peak`: the peak's height when the block extends it,
else the hint, else `find_fork_point_in_chain(self, block_record, peak)`. -/
def forkHeight (rec peak : BlockRecord) (forkPointWithPeak : Option ℕ) : ℤ :=
  if rec.prevHash = peak.headerHash then peak.height
  else match forkPointWithPeak with
    | some f => f
    | none => cc.findForkPointInChain s.view rec peak

/-- `_reconsider_peak(block_record, genesis, fork_point_with_peak)`, on the transaction's
copy `work` of the store: the records to apply to the height map and the state change. -/
def reconsiderPeak (rec : BlockRecord) (genesis : Bool) (forkPointWithPeak : Option ℕ)
    (work : BlockStore) : Except Exc (BlockStore × List BlockRecord × Option StateChangeSummary) := do
  let peak ← s.getPeak
  if genesis then
    match peak with
    | none =>
      let block ← work.getFullBlock faults rec.headerHash
      if block.isNone then throw .assertionError
      let work ← work.setInChain faults [rec.headerHash]
      let work ← work.setPeak faults rec.headerHash
      return (work, [rec], some ⟨rec, 0⟩)
    | some _ => return (work, [], none)
  else
    match peak with
    | none => throw .assertionError
    | some peak =>
      if rec.weight ≤ peak.weight then return (work, [], none)
      else
        let forkHeight := s.forkHeight cc rec peak forkPointWithPeak
        let blocksToAdd ← s.backtrack faults work forkHeight (rec.height + 1) rec.headerHash []
        let recordsToAdd := blocksToAdd.reverse.map Prod.snd
        let work ← work.rollback faults forkHeight
        let work ← work.setInChain faults (recordsToAdd.map (·.headerHash))
        let work ← work.setPeak faults rec.headerHash
        return (work, recordsToAdd, some ⟨rec, (max forkHeight 0).toNat⟩)

/-- The store half of the writer transaction: `add_full_block`, then `_reconsider_peak`. -/
def storeWrites (block : FullBlock) (rec : BlockRecord) (genesis : Bool)
    (forkPointWithPeak : Option ℕ) :
    Except Exc (BlockStore × List BlockRecord × Option StateChangeSummary) := do
  let work ← s.blockStore.addFullBlock faults block.headerHash block rec
  s.reconsiderPeak cc faults rec genesis forkPointWithPeak work

/-- The in-memory half of the writer transaction: cache the record, roll the height map
back to the fork and replay the records. -/
def applyRecords (rec : BlockRecord) (records : List BlockRecord)
    (summary : Option StateChangeSummary) : Blockchain :=
  let s := s.addBlockRecord rec
  let heightMap := match summary with
    | some sc => s.heightMap.rollback sc.forkHeight
    | none => s.heightMap
  { s with heightMap := heightMap.replay records }

/-- The state while the writer transaction waits on its commit: the in-memory updates are
done, the committed rows are still the old ones, and `block_cache` (outside the transaction)
already holds the block. -/
def atCommit (rec : BlockRecord) (records : List BlockRecord)
    (summary : Option StateChangeSummary) (work : BlockStore) : Blockchain :=
  { s.applyRecords rec records summary with
    blockStore := { s.blockStore with blockCache := work.blockCache } }

/-- `async with block_store.db_wrapper.writer(): try ... except: rollback_cache_block; raise`,
then `_peak_height` after the commit, then `height_map.maybe_flush()`. An exception inside
evicts the block from `block_cache` and aborts the transaction; a failed commit happens
after the in-memory updates, outside the `try`; a failed flush raises with everything done,
the peak moved included. -/
def addToDatabase (block : FullBlock) (rec : BlockRecord) (genesis : Bool)
    (forkPointWithPeak : Option ℕ) : Call ReceiveBlockOutput :=
  match s.storeWrites cc faults block rec genesis forkPointWithPeak with
  | .error e => ({ s with blockStore := s.blockStore.rollbackCacheBlock block.headerHash }, .error e)
  | .ok (work, records, summary) =>
    let s₁ := s.atCommit rec records summary work
    match faults.run .commit work with
    | .error e => (s₁, .error e)
    | .ok work =>
      let s₂ : Blockchain := match summary with
        | some _ => { s₁ with blockStore := work, peakHeight := some rec.height }
        | none => { s₁ with blockStore := work }
      match faults.run .maybeFlush () with
      | .error e => (s₂, .error e)
      | .ok () =>
        match summary with
        | some sc => (s₂, .ok (.newPeak, none, some sc))
        | none => (s₂, .ok (.addedAsOrphan, none, none))

/-- `receive_block(block, pre_validation_result, fork_point_with_peak)`. -/
def receiveBlock (block : FullBlock) (pvr : PreValidationResult) (forkPointWithPeak : Option ℕ)
    (env : CallEnv) : Call ReceiveBlockOutput :=
  let genesis : Bool := block.height = 0
  if s.containsBlock block.headerHash then (s, .ok (.alreadyHaveBlock, none, none))
  else if !s.containsBlock block.prevHeaderHash && !genesis then
    (s, .ok (.disconnectedBlock, some .invalidPrevBlockHash, none))
  else
    let heightOk : Except Exc Bool :=
      if genesis then .ok true
      else (s.blockRecord block.prevHeaderHash).map fun prev => prev.height + 1 = block.height
    match heightOk with
    | .error e => (s, .error e)
    | .ok false => (s, .ok (.invalidBlock, some .invalidHeight, none))
    | .ok true =>
      match pvr.error, pvr.requiredIters with
      | some e, _ => (s, .ok (.invalidBlock, some e, none))
      | none, none => (s, .error .assertionError)
      | none, some requiredIters =>
        match blockToBlockRecord cc s.view requiredIters block none with
        | .error e => (s, .error e)
        | .ok rec =>
          let (ec, body) :=
            validateBlockBody s.executionClient env.engine (.full block) block.height (some rec)
          let s := { s with executionClient := ec }
          match body with
          | .error e => (s, .error e)
          | .ok (some e) => (s, .ok (.invalidBlock, some e, none))
          | .ok none => s.addToDatabase cc env.faults block rec genesis forkPointWithPeak

end Blockchain

/-! ## Runs -/

/-- One `receive_block` call as the full node makes it: the block, its pre-validation
result, the fork hint, and what the world does during the call. -/
structure Delivery where
  block : FullBlock
  pvr : PreValidationResult
  hint : Option ℕ
  env : CallEnv

/-- `receive_block` on one delivery. -/
def Blockchain.deliver (s : Blockchain) (d : Delivery) : Call ReceiveBlockOutput :=
  s.receiveBlock cc d.block d.pvr d.hint d.env

/-- The state after `receive_block` was called on each delivery in turn, under the lock. -/
def receiveAll : Blockchain → List Delivery → Blockchain
  | s, [] => s
  | s, d :: ds => receiveAll (s.deliver cc d).1 ds

end CorpochainBeacon
