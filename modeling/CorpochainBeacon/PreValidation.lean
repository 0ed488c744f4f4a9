import CorpochainBeacon.ReceiveBlock

/-!
# The pre-validation pipeline

`consensus/multiprocess_validation.py`'s `pre_validate_blocks_multiprocessing`, run under
the blockchain lock before `receive_block`:

* `windowLoop` — the backward walk from the first block's parent that collects
  `recent_blocks` and `recent_blocks_compressed`;
* `sequentialPass` — per block: difficulty, challenge, PoSpace, a tentative record added
  to the cache so that later blocks find their parents, and the early returns
  (`INVALID_POSPACE`, `INVALID_SUB_EPOCH_SUMMARY`);
* `removeTentative` — the removal of the records that were not present before the call;
* `prevBlocksDict` — the walk down `block_dict` that builds, for each block of a batch, a
  dictionary of its listed ancestors that nothing reads;
* `batchPreValidateBlocks` and `preValidateBlocksMultiprocessing` — the batches handed to
  the workers and the flattened results.

Also `validate_unfinished_block` of `blockchain.py`, which reads the cache but writes
nothing.
-/

namespace CorpochainBeacon

/-- Python's `xs[i]`, negative indices counting from the end. -/
def pyIndex {α : Type} (xs : List α) (i : ℤ) : Except Exc α :=
  let j : ℤ := if i < 0 then xs.length + i else i
  if h : 0 ≤ j ∧ j.toNat < xs.length then .ok (xs.get ⟨j.toNat, h.2⟩) else .error .indexError

/-- A dictionary of records built by assignment, read as a `BlockCache`. -/
abbrev RecordDict : Type := Bytes32 → Option BlockRecord

/-- `d[r.header_hash] = r`. -/
def RecordDict.put (d : RecordDict) (r : BlockRecord) : RecordDict :=
  Function.update d r.headerHash (some r)

/-- The variables of the backward window loop. -/
structure WindowState where
  curr : BlockRecord
  recentBlocks : RecordDict
  recentBlocksCompressed : RecordDict
  numSubSlotsFound : ℕ
  numBlocksSeen : ℕ

variable (constants : ConsensusConstants) (cc : Collaborators)

/-- The `while` loop collecting the recent blocks, looking for `k` sub-slots; `fuel` bounds
the iterations. -/
def windowLoop (s : Blockchain) (k : ℕ) : ℕ → WindowState → Except Exc WindowState
  | fuel, w =>
    if (w.curr.subEpochSummaryIncluded.isNone ∨ w.numBlocksSeen < constants.numberOfTimestamps ∨
        w.numSubSlotsFound < k) ∧ 0 < w.curr.height then
      match fuel with
      | 0 => .error .outOfFuel
      | fuel + 1 => do
        let compressed :=
          if w.numBlocksSeen < constants.numberOfTimestamps ∨ w.numSubSlotsFound < k then
            w.recentBlocksCompressed.put w.curr
          else w.recentBlocksCompressed
        let found ←
          if w.curr.firstInSubSlot then
            match w.curr.finishedChallengeSlotHashes with
            | none => throw .assertionError
            | some hs => pure (w.numSubSlotsFound + hs.length)
          else pure w.numSubSlotsFound
        let seen := if w.curr.isTransactionBlock then w.numBlocksSeen + 1 else w.numBlocksSeen
        let curr ← s.blockRecord w.curr.prevHash
        windowLoop s k fuel ⟨curr, w.recentBlocks.put w.curr, compressed, found, seen⟩
    else .ok w

/-- The recent-block window collected backwards from `curr`, the first block's parent:
`(recent_blocks, recent_blocks_compressed)`. -/
def recentWindow (s : Blockchain) (curr : BlockRecord) : Except Exc (RecordDict × RecordDict) := do
  let k := if curr.overflow then 3 else 2
  let w ← windowLoop constants s k curr.height ⟨curr, fun _ => none, fun _ => none, 0, 0⟩
  return (w.recentBlocks.put w.curr, w.recentBlocksCompressed.put w.curr)

/-- The variables of the per-block loop. -/
structure PassState where
  prevB : Option BlockRecord
  recentBlocks : RecordDict
  recentBlocksCompressed : RecordDict
  /-- `(difficulty, sub_slot_iters)` per block -/
  diffSsis : List (ℕ × ℕ)

/-- The cleanup of the `INVALID_POSPACE` exit: remove every record of the list that was
not present before the call and is present now. -/
def removeIfTentative : Blockchain → List (FullBlock × Bool) → Call Unit
  | s, [] => (s, .ok ())
  | s, (b, wasPresent) :: rest =>
    if !wasPresent && s.containsBlock b.headerHash then
      match s.removeBlockRecord b.headerHash with
      | (s', .ok ()) => removeIfTentative s' rest
      | (s', .error e) => (s', .error e)
    else removeIfTentative s rest

/-- The cleanup after the per-block loop: `remove_block_record` for every block that was
not present before the call, unguarded. -/
def removeTentative : Blockchain → List (FullBlock × Bool) → Call Unit
  | s, [] => (s, .ok ())
  | s, (b, wasPresent) :: rest =>
    if !wasPresent then
      match s.removeBlockRecord b.headerHash with
      | (s', .ok ()) => removeTentative s' rest
      | (s', .error e) => (s', .error e)
    else removeTentative s rest

/-- One iteration of the per-block loop: an early return (`inl`) or the updated variables. -/
def passStep (wpSummaries : Option (List SubEpochSummary)) (all : List (FullBlock × Bool))
    (s : Blockchain) (p : PassState) (block : FullBlock) :
    Call (List PreValidationResult ⊕ PassState) :=
  let prevB : Except Exc (Option BlockRecord) :=
    if block.height ≠ 0 then
      if !s.containsBlock block.prevHeaderHash then .error .assertionError
      else match p.prevB with
        | none => (s.blockRecord block.prevHeaderHash).map some
        | some b => .ok (some b)
    else .ok p.prevB
  match prevB with
  | .error e => (s, .error e)
  | .ok prevB =>
    let (ssi, difficulty) :=
      cc.getNextSubSlotItersAndDifficulty s.view (!block.finishedSubSlots.isEmpty) prevB
    let overflow := cc.isOverflowBlock block.signagePointIndex
    let challenge := cc.getBlockChallenge p.recentBlocks block prevB.isNone overflow
    let ccSpHash := block.challengeChainSpVdf.getD challenge
    match cc.verifyAndGetQualityString block challenge ccSpHash with
    | none =>
      match removeIfTentative s all with
      | (s', .ok ()) => (s', .ok (.inl [⟨some .invalidPospace, none⟩]))
      | (s', .error e) => (s', .error e)
    | some qStr =>
      let requiredIters := cc.calculateIterationsQuality qStr block difficulty ccSpHash
      match blockToBlockRecord cc s.view requiredIters block (some ssi) with
      | .error (.valueError _) => (s, .ok (.inl [⟨some .invalidSubEpochSummary, none⟩]))
      | .error e => (s, .error e)
      | .ok blockRec =>
        let sesCheck : Except Exc Bool :=
          match blockRec.subEpochSummaryIncluded, wpSummaries with
          | some ses, some wp =>
            (pyIndex wp ((block.height / constants.subEpochBlocks : ℕ) - 1 : ℤ)).map
              fun nextSes => ses.getHash = nextSes.getHash
          | _, _ => .ok true
        match sesCheck with
        | .error e => (s, .error e)
        | .ok false => (s, .ok (.inl [⟨some .invalidSubEpochSummary, none⟩]))
        | .ok true =>
          let added : Except Exc (Blockchain × BlockRecord) :=
            if !s.containsBlock blockRec.headerHash then .ok (s.addBlockRecord blockRec, blockRec)
            else (s.blockRecord blockRec.headerHash).map fun r => (s, r)
          match added with
          | .error e => (s, .error e)
          | .ok (s, entry) =>
            (s, .ok (.inr ⟨some blockRec, p.recentBlocks.put entry, p.recentBlocksCompressed.put entry,
              p.diffSsis ++ [(difficulty, ssi)]⟩))

/-- The per-block loop of `pre_validate_blocks_multiprocessing`. -/
def sequentialPass (wpSummaries : Option (List SubEpochSummary)) (all : List (FullBlock × Bool)) :
    List FullBlock → Blockchain → PassState → Call (List PreValidationResult ⊕ PassState)
  | [], s, p => (s, .ok (.inr p))
  | block :: rest, s, p =>
    match passStep constants cc wpSummaries all s p block with
    | (s', .ok (.inr p')) => sequentialPass wpSummaries all rest s' p'
    | r => r

/-- `batch_pre_validate_blocks`: a worker validates each block of its batch against the
batch's view of the recent records; an exception becomes `UNKNOWN`. -/
def batchPreValidateBlocks (blocks : RecordDict) (fullBlocks : List FullBlock)
    (expectedDifficulty expectedSubSlotIters : List ℕ) : List PreValidationResult :=
  (List.zip fullBlocks (List.zip expectedDifficulty expectedSubSlotIters)).map
    fun (block, difficulty, ssi) =>
      match cc.validateFinishedHeaderBlock blocks block difficulty ssi with
      | .ok (requiredIters, error) => ⟨error, requiredIters⟩
      | .error _ => ⟨some .unknown, none⟩

/-- `block_dict`: each listed block under its header hash, a later one replacing an earlier
one of the same hash. -/
def blockDict (blocks : List FullBlock) : Bytes32 → Option FullBlock :=
  blocks.foldl (fun d b => Function.update d b.headerHash (some b)) fun _ => none

/-- The `while` loop that builds `prev_blocks_dict` for one block of a batch: it follows
`prev_header_hash` through `block_dict` for as long as the parent is listed. Nothing reads the
dictionary. `fuel` bounds the iterations: a walk of more steps than `block_dict` has entries
revisits a block and so never ends. -/
def prevBlocksDict (blockDict : Bytes32 → Option FullBlock) :
    ℕ → FullBlock → (Bytes32 → Option FullBlock) → Except Exc (Bytes32 → Option FullBlock)
  | fuel, currB, prevBlocks =>
    match blockDict currB.prevHeaderHash with
    | none => .ok prevBlocks
    | some b =>
      match fuel with
      | 0 => .error .outOfFuel
      | fuel + 1 => prevBlocksDict blockDict fuel b (Function.update prevBlocks b.headerHash (some b))

/-- The start of every batch: `range(0, len(blocks), batch_size)`. -/
def batchStarts (n batchSize : ℕ) : List ℕ :=
  (List.range ((n + batchSize - 1) / batchSize)).map (· * batchSize)

/-- One batch `blocks[i:end_i]`, with its view and expected difficulties, handed to a
worker, after the walk that builds each of its blocks' `prev_blocks_dict`. -/
def runBatch (blocks : List FullBlock) (p : PassState) (batchSize i : ℕ) :
    Except Exc (List PreValidationResult) := do
  let endI := min (i + batchSize) blocks.length
  let blocksToValidate := (blocks.drop i).take (endI - i)
  let finalPickled :=
    if blocksToValidate.any (fun b => !b.finishedSubSlots.isEmpty) then p.recentBlocks
    else p.recentBlocksCompressed
  let _ ← blocksToValidate.mapM fun block =>
    prevBlocksDict (blockDict blocks) blocks.length block fun _ => none
  let diffSsis ← (List.range' i (endI - i)).mapM fun j => pyIndex p.diffSsis j
  return batchPreValidateBlocks cc finalPickled blocksToValidate
    (diffSsis.map Prod.fst) (diffSsis.map Prod.snd)

/-- `pre_validate_blocks_multiprocessing(constants, block_records, blocks, pool, batch_size,
wp_summaries)`. -/
def preValidateBlocksMultiprocessing (s : Blockchain) (blocks : List FullBlock) (batchSize : ℕ)
    (wpSummaries : Option (List SubEpochSummary)) : Call (List PreValidationResult) :=
  match blocks with
  | [] => (s, .error .indexError)
  | first :: _ =>
    let window : Except Exc (List PreValidationResult ⊕ (RecordDict × RecordDict)) :=
      if 0 < first.height then
        if !s.containsBlock first.prevHeaderHash then
          .ok (.inl [⟨some .invalidPrevBlockHash, none⟩])
        else do
          let curr ← s.blockRecord first.prevHeaderHash
          return .inr (← recentWindow constants s curr)
      else .ok (.inr (fun _ => none, fun _ => none))
    match window with
    | .error e => (s, .error e)
    | .ok (.inl r) => (s, .ok r)
    | .ok (.inr (recent, compressed)) =>
      let all := blocks.map fun b => (b, s.containsBlock b.headerHash)
      match sequentialPass constants cc wpSummaries all blocks s ⟨none, recent, compressed, []⟩ with
      | (s', .error e) => (s', .error e)
      | (s', .ok (.inl r)) => (s', .ok r)
      | (s', .ok (.inr p)) =>
        match removeTentative s' all with
        | (s'', .error e) => (s'', .error e)
        | (s'', .ok ()) =>
          if batchSize = 0 then (s'', .error (.valueError "range() arg 3 must not be zero"))
          else
            match (batchStarts blocks.length batchSize).mapM (runBatch cc blocks p batchSize) with
            | .error e => (s'', .error e)
            | .ok batches => (s'', .ok batches.flatten)

/-- `validate_unfinished_block_header(block, skip_overflow_ss_validation)`. -/
def validateUnfinishedBlockHeader (s : Blockchain) (block : UnfinishedBlock)
    (skipOverflowSsValidation : Bool) : Option ℕ × Option Err :=
  if !s.containsBlock block.prevHeaderHash && block.prevHeaderHash ≠ constants.genesisChallenge then
    (none, some .invalidPrevBlockHash)
  else
    let prevB := s.tryBlockRecord block.prevHeaderHash
    let (ssi, difficulty) :=
      cc.getNextSubSlotItersAndDifficulty s.view (!block.finishedSubSlots.isEmpty) prevB
    cc.validateUnfinishedHeaderBlock s.view block difficulty ssi skipOverflowSsValidation

/-- `validate_unfinished_block(block, skip_overflow_ss_validation)`. -/
def validateUnfinishedBlock (s : Blockchain) (answers : EngineAnswers) (block : UnfinishedBlock)
    (skipOverflowSsValidation : Bool) : Call PreValidationResult :=
  match validateUnfinishedBlockHeader constants cc s block skipOverflowSsValidation with
  | (_, some error) => (s, .ok ⟨some error, none⟩)
  | (requiredIters, none) =>
    let prevHeight : Except Exc ℤ :=
      if block.prevHeaderHash = constants.genesisChallenge then .ok (-1)
      else (s.blockRecord block.prevHeaderHash).map fun r => r.height
    match prevHeight with
    | .error e => (s, .error e)
    | .ok prevHeight =>
      let (ec, body) :=
        validateBlockBody s.executionClient answers (.unfinished block) (prevHeight + 1).toNat none
      let s := { s with executionClient := ec }
      match body with
      | .error e => (s, .error e)
      | .ok (some e) => (s, .ok ⟨some e, none⟩)
      | .ok none => (s, .ok ⟨none, requiredIters⟩)

end CorpochainBeacon
