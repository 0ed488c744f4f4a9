import CorpochainBeacon.ReceiveBlockSpec
import CorpochainBeacon.PreValidation
import CorpochainBeacon.Ancestry

/-!
# What a failed call leaves behind

`receive_block` wraps its store writes in a writer transaction whose `except` evicts the
block from `block_cache` and re-raises (§4.A: "Exceptions inside the transaction cause
rollback + re-raise"). Two of its exits lie outside that `try`: the commit at the exit of
`async with writer()`, and `height_map.maybe_flush()` after `_peak_height` is set.

* `storeWrites_flushing` — the transaction never reads the flush's fault;
* **`receiveBlock_unchanged_or_transaction_ran`** — every call keeps the store rows, the
  record cache and its heights index, the height map and `_peak_height` as they were (only
  `block_cache` may lose the block), or adds its block, or raises at its commit, or raises
  at `maybe_flush` having done all that the same call does when the flush succeeds;
* `receiveBlock_commit_failure_leaves_record` — when the commit fails the call raises, yet
  the record stays cached and the height map names it, while the store has no row; the same
  block is then refused as `ALREADY_HAVE_BLOCK`.

The concrete runs here and in the modules that follow use one fixed set of collaborators
(`sampleCollaborators`) and blocks built by `sampleBlock`.
-/

namespace CorpochainBeacon

namespace Blockchain

variable {cc : Collaborators} {s s' : Blockchain} {block : FullBlock} {pvr : PreValidationResult}
  {hint : Option ℕ} {env : CallEnv} {r : Except Exc ReceiveBlockOutput} {faults : StoreFaults}

/-- The backtracking walk reads blocks and records only. -/
theorem backtrack_flushing (work : BlockStore) (forkHeight : ℤ) :
    ∀ fuel curr acc, s.backtrack faults.flushing work forkHeight fuel curr acc =
      s.backtrack faults work forkHeight fuel curr acc
  | 0, curr, acc => by rw [backtrack, backtrack]
  | fuel + 1, curr, acc => by
    rw [backtrack, backtrack]
    simp only [BlockStore.getFullBlock, BlockStore.getBlockRecord, StoreFaults.run_flushing, ne_eq,
      reduceCtorEq, not_false_eq_true, backtrack_flushing work forkHeight fuel]

/-- The store half of the transaction does not flush the height map: it does the same when
`maybe_flush` is made to succeed. -/
theorem storeWrites_flushing (rec : BlockRecord) (genesis : Bool) :
    s.storeWrites cc faults.flushing block rec genesis hint =
      s.storeWrites cc faults block rec genesis hint := by
  simp only [storeWrites, reconsiderPeak, BlockStore.addFullBlock, BlockStore.getFullBlock,
    BlockStore.setInChain, BlockStore.setPeak, BlockStore.rollback, StoreFaults.run_flushing, ne_eq,
    reduceCtorEq, not_false_eq_true, backtrack_flushing]

/-- The chain state a failed call must keep: the committed rows, the record cache and its
heights index, the height map and `_peak_height`. -/
def SameChainState (s s' : Blockchain) : Prop :=
  s'.blockStore.db = s.blockStore.db ∧ s'.blockRecords = s.blockRecords ∧
    s'.heightsInCache = s.heightsInCache ∧ s'.heightMap = s.heightMap ∧
    s'.peakHeight = s.peakHeight

/-- What a call that commits returns when the flush succeeds: `NEW_PEAK` with a summary,
else `ADDED_AS_ORPHAN`. -/
theorem committed_outcome_adds (summary : Option StateChangeSummary) :
    ((match summary with
      | some sc => (.newPeak, none, some sc)
      | none => (.addedAsOrphan, none, none) : ReceiveBlockOutput).1 = .newPeak ∨
    (match summary with
      | some sc => (.newPeak, none, some sc)
      | none => (.addedAsOrphan, none, none) : ReceiveBlockOutput).1 = .addedAsOrphan) := by
  cases summary <;> simp

end Blockchain

/-! ## Concrete runs -/

/-- Collaborators with fixed answers: the fork point is the highest common ancestor, every
PoSpace verifies, and the derived record fields are constant, except that building the
record of a block with signage point `1` raises `ValueError` (as `block_to_block_record`
does when the sub-epoch summary cannot be built). -/
def sampleCollaborators : Collaborators where
  findForkPointInChain := highestCommonAncestor
  deriveRecord := fun _ b _ =>
    if b.signagePointIndex = 1 then .error (.valueError "sub-epoch summary")
    else .ok ⟨0, none, none, 0⟩
  isOverflowBlock := fun _ => false
  getNextSubSlotItersAndDifficulty := fun _ _ _ => (0, 0)
  getBlockChallenge := fun _ _ _ _ => 0
  verifyAndGetQualityString := fun _ _ _ => some 0
  calculateIterationsQuality := fun _ _ _ _ => 0
  validateFinishedHeaderBlock := fun _ _ _ _ => .ok (some 0, none)
  validateUnfinishedHeaderBlock := fun _ _ _ _ _ => (some 0, none)

/-- A transaction block with no sub-slots, at signage point `0`. -/
def sampleBlock (headerHash prevHash height weight : ℕ) (payload : Option ℕ) : FullBlock :=
  ⟨[], headerHash, prevHash, height, weight, 0, true, 0, none, payload.map (⟨·⟩)⟩

/-- An engine that answers `VALID` to everything. -/
def validEngine : EngineAnswers := ⟨fun _ => .valid, fun _ => .valid, none⟩

/-- A pre-validation result without error. -/
def acceptedResult : PreValidationResult := ⟨none, some 0⟩

/-- A call with a valid engine and no store fault. -/
def sampleDelivery (block : FullBlock) (hint : Option ℕ) : Delivery :=
  ⟨block, acceptedResult, hint, ⟨validEngine, StoreFaults.none⟩⟩

/-- Only the writer transaction's commit fails. -/
def commitFails : StoreFaults := fun op => decide (op = .commit)

/-- Only `height_map.maybe_flush()` fails. -/
def flushFails : StoreFaults := fun op => decide (op = .maybeFlush)

/-- A chain `1 ← 2 ← 3` of weights `1, 2, 3`, received from empty. -/
def threeBlockChain : Blockchain :=
  receiveAll sampleCollaborators .empty
    [sampleDelivery (sampleBlock 1 0 0 1 none) none, sampleDelivery (sampleBlock 2 1 1 2 none) none,
      sampleDelivery (sampleBlock 3 2 2 3 none) none]

/-- The chain holding only the genesis block `1`. -/
def genesisOnly : Blockchain :=
  receiveAll sampleCollaborators .empty [sampleDelivery (sampleBlock 1 0 0 1 none) none]

/-- The child `2` of the genesis block `1`, heavier than it, delivered to `genesisOnly` with
`maybe_flush` failing. -/
def childFlushFails : Call ReceiveBlockOutput :=
  genesisOnly.receiveBlock sampleCollaborators (sampleBlock 2 1 1 2 none) acceptedResult none
    ⟨validEngine, flushFails⟩

/-- The record `receive_block` builds for `sampleBlock 4 1 1 4 none`: a child of the genesis
block heavier than the peak `3`. -/
def heavierSibling : BlockRecord := ⟨4, 1, 1, 4, 0, 0, false, false, true, 0, none, none, none, 0⟩

/-- The constants of the pre-validation run: `BLOCKS_CACHE_SIZE = 3`, one block per
sub-epoch, no timestamps needed. -/
def sampleConstants : ConsensusConstants := ⟨0, 3, 0, 1, 0, 0⟩

/-- Pre-validation of `[2, 3]` on `genesisOnly`, where building the record of `3` (signage
point `1`) raises `ValueError`. -/
def tentativeLeak : Call (List PreValidationResult) :=
  preValidateBlocksMultiprocessing sampleConstants sampleCollaborators genesisOnly
    [sampleBlock 2 1 1 2 none, ⟨[], 3, 2, 2, 3, 0, true, 1, none, none⟩] 1 none

/-! ## The exits outside the `try` -/

namespace Blockchain

variable {cc : Collaborators} {s s' : Blockchain} {block : FullBlock} {pvr : PreValidationResult}
  {hint : Option ℕ} {env : CallEnv} {r : Except Exc ReceiveBlockOutput}

/-- **Atomicity, where it holds.** A call either keeps the chain state (only `block_cache`
may lose the block), or adds its block, or raises at its commit, or raises at
`height_map.maybe_flush()`: then it has done all that the same call, with the flush
succeeding, does when it adds its block, the move of `_peak_height` included. -/
theorem receiveBlock_unchanged_or_transaction_ran
    (h : s.receiveBlock cc block pvr hint env = (s', r)) :
    (SameChainState s s' ∧
        ∀ x, x ≠ block.headerHash → s'.blockStore.blockCache x = s.blockStore.blockCache x) ∨
      (∃ out, r = .ok out ∧ (out.1 = .newPeak ∨ out.1 = .addedAsOrphan)) ∨
      (env.faults .commit = true ∧ r = .error .storeError) ∨
      (env.faults .maybeFlush = true ∧ r = .error .storeError ∧ ∃ out,
        s.receiveBlock cc block pvr hint ⟨env.engine, env.faults.flushing⟩ = (s', .ok out) ∧
          (out.1 = .newPeak ∨ out.1 = .addedAsOrphan)) := by
  rcases receiveBlock_cases h with
    ⟨rfl, -, -⟩ | ⟨ri, rec, ec, body, ha, herr, hri, hrec, hv, ⟨-, rfl, -⟩ | ⟨rfl, hadd⟩⟩
  · exact .inl ⟨⟨rfl, rfl, rfl, rfl, rfl⟩, fun _ _ => rfl⟩
  · exact .inl ⟨⟨rfl, rfl, rfl, rfl, rfl⟩, fun _ _ => rfl⟩
  rcases addToDatabase_cases hadd with ⟨e, -, rfl, -⟩ | ⟨w, rs, sm, hw, hc | ⟨hc, rfl, rfl⟩⟩
  · -- aborted inside the `try`: only the eviction from `block_cache`
    exact .inl ⟨⟨rfl, rfl, rfl, rfl, rfl⟩, fun x hx => Function.update_noteq hx _ _⟩
  · exact .inr (.inr (.inl ⟨hc.1, hc.2.1⟩))
  cases hfl : env.faults .maybeFlush
  · -- the flush succeeds
    exact .inr (.inl ⟨_, by rw [StoreFaults.run, hfl]; rfl, committed_outcome_adds sm⟩)
  -- the flush raises after the commit: with it succeeding, the call commits the same
  refine .inr (.inr (.inr ⟨rfl, by rw [StoreFaults.run, hfl]; rfl, _, ?_, committed_outcome_adds sm⟩))
  rw [receiveBlock_of_body_ok _ ha herr hri hrec hv]
  unfold addToDatabase
  rw [storeWrites_flushing, hw]
  simp only [StoreFaults.run, StoreFaults.flushing, hc, Function.update_same, Bool.false_eq_true,
    Function.update_noteq (by nofun : StoreOp.commit ≠ .maybeFlush), if_false]
  cases sm <;> rfl

/-- The child `2` of the genesis block, with `maybe_flush` failing: the call raises at the
flush, leaving the state that the same call with the flush succeeding leaves as
`NEW_PEAK`. -/
theorem childFlushFails_ran_transaction :
    (SameChainState genesisOnly childFlushFails.1 ∧
        ∀ x, x ≠ 2 → childFlushFails.1.blockStore.blockCache x = genesisOnly.blockStore.blockCache x) ∨
      (∃ out, childFlushFails.2 = .ok out ∧ (out.1 = .newPeak ∨ out.1 = .addedAsOrphan)) ∨
      (flushFails .commit = true ∧ childFlushFails.2 = .error .storeError) ∨
      (flushFails .maybeFlush = true ∧ childFlushFails.2 = .error .storeError ∧ ∃ out,
        genesisOnly.receiveBlock sampleCollaborators (sampleBlock 2 1 1 2 none) acceptedResult none
            ⟨validEngine, flushFails.flushing⟩ = (childFlushFails.1, .ok out) ∧
          (out.1 = .newPeak ∨ out.1 = .addedAsOrphan)) :=
  receiveBlock_unchanged_or_transaction_ran
    (show genesisOnly.receiveBlock sampleCollaborators (sampleBlock 2 1 1 2 none) acceptedResult none
      ⟨validEngine, flushFails⟩ = (childFlushFails.1, childFlushFails.2) from rfl)

end Blockchain

/-- The genesis block `1` delivered to the empty chain, with the commit failing. -/
def genesisCommitFails : Call ReceiveBlockOutput :=
  Blockchain.empty.receiveBlock sampleCollaborators (sampleBlock 1 0 0 1 none) acceptedResult none
    ⟨validEngine, commitFails⟩

/-- A genesis block whose commit fails: `receive_block` raises, the record stays cached and
the height map names it, the store has no row for it, and delivering the block again
returns `ALREADY_HAVE_BLOCK`. -/
theorem receiveBlock_commit_failure_leaves_record :
    genesisCommitFails.2 = .error .storeError ∧ genesisCommitFails.1.containsBlock 1 = true ∧
      genesisCommitFails.1.heightToHash 0 = some 1 ∧
      genesisCommitFails.1.blockStore.db.record 1 = none ∧
      (genesisCommitFails.1.receiveBlock sampleCollaborators (sampleBlock 1 0 0 1 none)
        acceptedResult none ⟨validEngine, StoreFaults.none⟩).2 = .ok (.alreadyHaveBlock, none, none) := by
  decide

end CorpochainBeacon
