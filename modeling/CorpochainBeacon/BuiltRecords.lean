import CorpochainBeacon.CacheIndex
import CorpochainBeacon.RecentWindow
import CorpochainBeacon.Restart

/-!
# Every cached record was built by `block_to_block_record`

The window loop of `pre_validate_blocks_multiprocessing` asserts that a record first in its
sub-slot carries its finished challenge slot hashes. `block_to_block_record` sets both
fields from the block's finished sub-slots, and the chain's own operations cache and store
no record it did not build:

* `Built r` — `block_to_block_record` returned `r`, for some collaborators, lookup and block;
* `RecordsBuilt s` — every record cached in `s`, or held by a row of its store, is built;
* `SubCache s' s` — `s'` caches nothing that `s` does not, and has its rows:
  `remove_block_record`, `clean_block_record`, `clean_block_records` and both cleanups of the
  pre-validation pass only take records out, on every exit;
* one preservation lemma per writer: `add_block_record` of a built record, `warmup`,
  `receive_block` on every exit, the per-block loop and the whole pre-validation call on
  every exit, and `_load_chain_from_store` on a restart from the store;
* `ChainRun s` — the states reached from the empty chain by these operations, with any
  collaborators, results and store faults, and by restarting from the store;
* **`recentWindow_of_run`** — in every such state the window loop, from the first block's
  parent down its chain of ancestors to genesis, returns the window its counters determine.
-/

namespace CorpochainBeacon

/-- `block_to_block_record` returned `r`, for some collaborators, cache lookup, required
iterations, block and sub-slot iterations. -/
def Built (r : BlockRecord) : Prop :=
  ∃ (cc : Collaborators) (blocks : Bytes32 → Option BlockRecord) (ri : ℕ) (block : FullBlock)
    (ssi : Option ℕ), blockToBlockRecord cc blocks ri block ssi = .ok r

/-- A built record first in its sub-slot carries its finished challenge slot hashes. -/
theorem Built.hashes_of_first {r : BlockRecord} (h : Built r) :
    r.firstInSubSlot → r.finishedChallengeSlotHashes.isSome := by
  obtain ⟨_, _, _, _, _, h⟩ := h
  exact blockToBlockRecord_hashes_of_first h

namespace Blockchain

variable {s s' : Blockchain}

/-- Every record the cache holds, and every record of the store's rows, is built. -/
structure RecordsBuilt (s : Blockchain) : Prop where
  cached : ∀ x r, s.view x = some r → Built r
  stored : ∀ x r, s.blockStore.db.record x = some r → Built r

theorem RecordsBuilt.empty : Blockchain.empty.RecordsBuilt where
  cached _ _ h := by cases h
  stored _ _ h := by cases h

/-- The invariant reads the cache and the store's rows only. -/
theorem RecordsBuilt.of_fields (hb : s.RecordsBuilt) (hr : s'.blockRecords = s.blockRecords)
    (hs : s'.blockStore.db.fullBlocks = s.blockStore.db.fullBlocks) : s'.RecordsBuilt where
  cached x r h := hb.cached x r (by simpa only [view, hr] using h)
  stored x r h := hb.stored x r (by simpa only [StoreData.record, hs] using h)

/-- `add_block_record` of a built record keeps the invariant. -/
theorem RecordsBuilt.addBlockRecord (hb : s.RecordsBuilt) {r : BlockRecord} (hr : Built r) :
    (s.addBlockRecord r).RecordsBuilt where
  cached x q h := by
    rw [view_addBlockRecord] at h
    rcases update_eq_some h with ⟨-, rfl⟩ | h
    exacts [hr, hb.cached x q h]
  stored := hb.stored

theorem RecordsBuilt.foldl_addBlockRecord (hb : s.RecordsBuilt) {records : List BlockRecord}
    (hrs : ∀ r ∈ records, Built r) : (records.foldl Blockchain.addBlockRecord s).RecordsBuilt := by
  induction records generalizing s with
  | nil => exact hb
  | cons r rs ih =>
    obtain ⟨hr, hrs⟩ := List.forall_mem_cons.mp hrs
    exact ih (hb.addBlockRecord hr) hrs

/-- The records of the store's rows are built. -/
theorem RecordsBuilt.mem_rows (hb : s.RecordsBuilt) {r : BlockRecord}
    (hr : r ∈ s.blockStore.db.fullBlocks.entries.map fun e => e.2.2) : Built r :=
  let ⟨x, hx⟩ := StoreData.mem_records.mp hr
  hb.stored x r hx

/-! ## Operations that only take records out -/

/-- `s'` caches no record that `s` does not cache under the same hash, and has the rows of
`s`. -/
def SubCache (s' s : Blockchain) : Prop :=
  s'.blockStore.db.fullBlocks = s.blockStore.db.fullBlocks ∧
    ∀ x r, s'.view x = some r → s.view x = some r

theorem SubCache.refl (s : Blockchain) : s.SubCache s := ⟨rfl, fun _ _ => id⟩

theorem SubCache.trans {s₁ s₂ s₃ : Blockchain} (h₁ : s₁.SubCache s₂) (h₂ : s₂.SubCache s₃) :
    s₁.SubCache s₃ :=
  ⟨h₁.1.trans h₂.1, fun x r h => h₂.2 x r (h₁.2 x r h)⟩

theorem RecordsBuilt.of_subCache (hb : s.RecordsBuilt) (h : s'.SubCache s) : s'.RecordsBuilt where
  cached x r hx := hb.cached x r (h.2 x r hx)
  stored x r hx := hb.stored x r (by simpa only [StoreData.record, h.1] using hx)

/-- Erasing one hash from the cache. -/
theorem subCache_of_erase {x : Bytes32} (hr : s'.blockRecords = s.blockRecords.erase x)
    (hs : s'.blockStore = s.blockStore) : s'.SubCache s := by
  refine ⟨by rw [hs], fun y r hy => ?_⟩
  rw [view_of_erase hr] at hy
  by_cases hyx : y = x
  · subst hyx; simp at hy
  · rwa [Function.update_noteq hyx] at hy

/-- `remove_block_record` only takes a record out, on every exit. -/
theorem removeBlockRecord_subCache (x : Bytes32) : (s.removeBlockRecord x).1.SubCache s := by
  unfold removeBlockRecord
  split
  · exact .refl s
  · dsimp only
    split
    · split <;> exact subCache_of_erase rfl rfl
    · exact subCache_of_erase rfl rfl

theorem deleteRecords_subCache (xs : List Bytes32) : (deleteRecords s xs).1.SubCache s := by
  induction xs generalizing s with
  | nil => exact .refl s
  | cons x xs ih =>
    rw [deleteRecords]
    split
    · exact ih.trans (subCache_of_erase rfl rfl)
    · exact .refl s

/-- The loop of `clean_block_record` only takes records out, on every exit. -/
theorem cleanBlockRecordLoop_subCache (height : ℕ) : (cleanBlockRecordLoop height s).1.SubCache s := by
  induction height generalizing s with
  | zero =>
    unfold cleanBlockRecordLoop
    split
    · exact .refl s
    have hd := deleteRecords_subCache (s := s) ‹_›
    split <;> rename_i heq <;> rw [heq] at hd <;> exact hd
  | succ n ih =>
    unfold cleanBlockRecordLoop
    split
    · exact .refl s
    have hd := deleteRecords_subCache (s := s) ‹_›
    split <;> rename_i heq <;> rw [heq] at hd
    · exact hd
    · exact ih.trans hd

theorem cleanBlockRecord_subCache (height : ℤ) : (s.cleanBlockRecord height).1.SubCache s := by
  unfold cleanBlockRecord
  split
  · exact .refl s
  · exact cleanBlockRecordLoop_subCache _

theorem cleanBlockRecords_subCache (constants : ConsensusConstants) :
    (s.cleanBlockRecords constants).1.SubCache s := by
  unfold cleanBlockRecords
  split
  · exact .refl s
  split
  · exact .refl s
  split
  · exact .refl s
  · exact cleanBlockRecord_subCache _

/-- The cleanup of the `INVALID_POSPACE` exit only takes records out, on every exit. -/
theorem removeIfTentative_subCache (all : List (FullBlock × Bool)) :
    (removeIfTentative s all).1.SubCache s := by
  induction all generalizing s with
  | nil => exact .refl s
  | cons e rest ih =>
    unfold CorpochainBeacon.removeIfTentative
    split
    · have hr := removeBlockRecord_subCache (s := s) e.1.headerHash
      split <;> rename_i heq <;> rw [heq] at hr
      · exact ih.trans hr
      · exact hr
    · exact ih

/-- The cleanup after the per-block loop only takes records out, on every exit. -/
theorem removeTentative_subCache (all : List (FullBlock × Bool)) :
    (removeTentative s all).1.SubCache s := by
  induction all generalizing s with
  | nil => exact .refl s
  | cons e rest ih =>
    unfold CorpochainBeacon.removeTentative
    split
    · have hr := removeBlockRecord_subCache (s := s) e.1.headerHash
      split <;> rename_i heq <;> rw [heq] at hr
      · exact ih.trans hr
      · exact hr
    · exact ih

/-! ## The writers -/

/-- **`warmup` keeps the invariant**: it caches stored records. -/
theorem RecordsBuilt.warmup (hb : s.RecordsBuilt) (constants : ConsensusConstants)
    (faults : StoreFaults) (forkPoint : ℕ) : (s.warmup constants faults forkPoint).1.RecordsBuilt := by
  unfold Blockchain.warmup
  split
  · exact hb
  split
  · exact hb
  rename_i records hrange
  refine hb.foldl_addBlockRecord fun r hr => hb.mem_rows ?_
  rw [StoreFaults.run_eq_ok hrange] at hr
  exact (List.mem_filter.mp hr).1

/-- **`receive_block` keeps the invariant** on every exit: it caches at most the record it
built for the block, and the store gains at most the row holding that record. -/
theorem RecordsBuilt.receiveBlock (hb : s.RecordsBuilt) (cc : Collaborators) (block : FullBlock)
    (pvr : PreValidationResult) (hint : Option ℕ) (env : CallEnv) :
    (s.receiveBlock cc block pvr hint env).1.RecordsBuilt := by
  generalize h : s.receiveBlock cc block pvr hint env = call
  obtain ⟨s', r⟩ := call
  rcases receiveBlock_cases h with
    ⟨rfl, -, -⟩ | ⟨ri, rec, ec, body, -, -, -, hrec, -, ⟨-, rfl, -⟩ | ⟨-, hadd⟩⟩
  · exact hb
  · exact hb.of_fields rfl rfl
  have hbuilt : Built rec := ⟨cc, s.view, ri, block, none, hrec⟩
  have hb₀ : ({ s with executionClient := ec } : Blockchain).RecordsBuilt := hb.of_fields rfl rfl
  have hb₁ := hb₀.addBlockRecord hbuilt
  rcases addToDatabase_cases hadd with
    ⟨e, -, rfl, -⟩ | ⟨work, records, summary, hw, ⟨-, -, rfl⟩ | ⟨-, rfl, -⟩⟩
  · -- aborted: only `block_cache` changed
    exact hb.of_fields rfl rfl
  · -- the commit failed: the record is cached, the rows are the old ones
    exact hb₁.of_fields rfl rfl
  · -- committed: the record is cached and the block's row written
    refine ⟨hb₁.cached, fun x q hx => ?_⟩
    change (work.db.fullBlocks.lookup x).map Prod.snd = some q at hx
    rw [storeWrites_rows hw] at hx
    by_cases hxb : x = block.headerHash
    · subst hxb; rw [AList.lookup_insert] at hx; cases hx; exact hbuilt
    · rw [AList.lookup_insert_ne hxb] at hx; exact hb.stored x q hx

section PreValidation

variable {constants : ConsensusConstants} {cc : Collaborators} {wp : Option (List SubEpochSummary)}
  {all : List (FullBlock × Bool)}

/-- One block of the per-block loop caches at most the tentative record it built, or runs
the cleanup of the `INVALID_POSPACE` exit. -/
theorem RecordsBuilt.passStep (hb : s.RecordsBuilt) (p : PassState) (block : FullBlock) :
    (passStep constants cc wp all s p block).1.RecordsBuilt := by
  unfold CorpochainBeacon.passStep
  dsimp only
  split
  · exact hb
  split
  · -- the `INVALID_POSPACE` exit and its cleanup
    have hr := hb.of_subCache (removeIfTentative_subCache (s := s) all)
    split <;> rename_i heq <;> rw [heq] at hr <;> exact hr
  split
  · exact hb
  · exact hb
  rename_i blockRec hrec
  split
  · exact hb
  · exact hb
  split
  · exact hb
  rename_i s₂ entry hadded
  split at hadded
  · -- the tentative record
    cases hadded
    exact hb.addBlockRecord ⟨cc, s.view, _, block, _, hrec⟩
  · cases hbr : s.blockRecord blockRec.headerHash <;> rw [hbr] at hadded <;> cases hadded
    exact hb

theorem RecordsBuilt.sequentialPass (hb : s.RecordsBuilt) (blocks : List FullBlock) (p : PassState) :
    (sequentialPass constants cc wp all blocks s p).1.RecordsBuilt := by
  induction blocks generalizing s p with
  | nil => exact hb
  | cons b rest ih =>
    have hstep : (CorpochainBeacon.passStep constants cc wp all s p b).1.RecordsBuilt := hb.passStep p b
    unfold CorpochainBeacon.sequentialPass
    split
    · rename_i heq; rw [heq] at hstep; exact ih hstep _
    · exact hstep

/-- **The pre-validation call keeps the invariant** on every exit: it caches only the
tentative records its loop built, and its cleanups only take records out. -/
theorem RecordsBuilt.preValidate (hb : s.RecordsBuilt) (blocks : List FullBlock) (batchSize : ℕ) :
    (preValidateBlocksMultiprocessing constants cc s blocks batchSize wp).1.RecordsBuilt := by
  unfold preValidateBlocksMultiprocessing
  split
  · exact hb
  dsimp only
  split
  · exact hb
  · exact hb
  rename_i first rest _ recent compressed _
  have hpass : (CorpochainBeacon.sequentialPass constants cc wp
      ((first :: rest).map fun b => (b, s.containsBlock b.headerHash))
      (first :: rest) s ⟨none, recent, compressed, []⟩).1.RecordsBuilt := hb.sequentialPass _ _
  split <;> rename_i heq <;> rw [heq] at hpass
  · exact hpass
  · exact hpass
  have hrem := hpass.of_subCache
    (removeTentative_subCache ((first :: rest).map fun b => (b, s.containsBlock b.headerHash)))
  split <;> rename_i heq' <;> rw [heq'] at hrem
  · exact hrem
  split
  · exact hrem
  split <;> exact hrem

end PreValidation

/-- **A restart keeps the invariant**: `_load_chain_from_store` caches stored records. -/
theorem RecordsBuilt.loadChainFromStore (hb : s.RecordsBuilt) {constants : ConsensusConstants}
    {heightMap : BlockHeightMap} {ec : ExecutionClient}
    (h : loadChainFromStore constants heightMap s.blockStore ec = .ok s') : s'.RecordsBuilt := by
  have hbase : (⟨none, ∅, fun _ => none, heightMap, s.blockStore, ec⟩ : Blockchain).RecordsBuilt :=
    ⟨fun _ _ h => (by cases h), hb.stored⟩
  have hchain : ((s.blockStore.db.getBlockRecordsCloseToPeak constants.blocksCacheSize).1.foldl
      Blockchain.addBlockRecord ⟨none, ∅, fun _ => none, heightMap, s.blockStore, ec⟩).RecordsBuilt := by
    refine hbase.foldl_addBlockRecord fun r hr => hb.mem_rows ?_
    unfold StoreData.getBlockRecordsCloseToPeak at hr
    split at hr
    · cases hr
    split at hr
    · cases hr
    exact (List.mem_filter.mp hr).1
  unfold Blockchain.loadChainFromStore at h
  dsimp only at h
  split at h
  · split at h
    · cases h; exact hchain
    · cases h
  split at h
  · cases h
  obtain ⟨r, -, h⟩ := bind_eq_ok h
  split at h
  · cases h
  split at h
  · cases h
  cases h
  exact hchain.of_fields rfl rfl

/-! ## Runs -/

/-- The states reached from the empty chain by the chain's own operations, with any
collaborators, results, hints, engine answers and store faults: `receive_block`,
`pre_validate_blocks_multiprocessing`, `remove_block_record`, `clean_block_record`,
`clean_block_records`, `warmup`, and a restart from the store by `_load_chain_from_store`
with any flushed height map. -/
inductive ChainRun : Blockchain → Prop
  | empty : ChainRun .empty
  | receiveBlock {s : Blockchain} (cc : Collaborators) (block : FullBlock) (pvr : PreValidationResult)
      (hint : Option ℕ) (env : CallEnv) : ChainRun s → ChainRun (s.receiveBlock cc block pvr hint env).1
  | preValidate {s : Blockchain} (constants : ConsensusConstants) (cc : Collaborators)
      (blocks : List FullBlock) (batchSize : ℕ) (wp : Option (List SubEpochSummary)) :
      ChainRun s → ChainRun (preValidateBlocksMultiprocessing constants cc s blocks batchSize wp).1
  | removeBlockRecord {s : Blockchain} (x : Bytes32) : ChainRun s → ChainRun (s.removeBlockRecord x).1
  | cleanBlockRecord {s : Blockchain} (height : ℤ) : ChainRun s → ChainRun (s.cleanBlockRecord height).1
  | cleanBlockRecords {s : Blockchain} (constants : ConsensusConstants) :
      ChainRun s → ChainRun (s.cleanBlockRecords constants).1
  | warmup {s : Blockchain} (constants : ConsensusConstants) (faults : StoreFaults) (forkPoint : ℕ) :
      ChainRun s → ChainRun (s.warmup constants faults forkPoint).1
  | restart {s s' : Blockchain} (constants : ConsensusConstants) (heightMap : BlockHeightMap)
      (executionClient : ExecutionClient) : ChainRun s →
      loadChainFromStore constants heightMap s.blockStore executionClient = .ok s' → ChainRun s'

/-- Every record of a reachable state is built. -/
theorem ChainRun.recordsBuilt (h : ChainRun s) : s.RecordsBuilt := by
  induction h with
  | empty => exact .empty
  | receiveBlock cc block pvr hint env _ ih => exact ih.receiveBlock cc block pvr hint env
  | preValidate _ _ blocks batchSize _ _ ih => exact ih.preValidate blocks batchSize
  | removeBlockRecord x _ ih => exact ih.of_subCache (removeBlockRecord_subCache x)
  | cleanBlockRecord height _ ih => exact ih.of_subCache (cleanBlockRecord_subCache height)
  | cleanBlockRecords constants _ ih => exact ih.of_subCache (cleanBlockRecords_subCache constants)
  | warmup constants faults forkPoint _ ih => exact ih.warmup constants faults forkPoint
  | restart _ _ _ _ hload ih => exact ih.loadChainFromStore hload

theorem ChainRun.receiveAll (hrun : ChainRun s) (cc : Collaborators) (ds : List Delivery) :
    ChainRun (receiveAll cc s ds) := by
  induction ds generalizing s with
  | nil => exact hrun
  | cons d ds ih => exact ih (.receiveBlock cc d.block d.pvr d.hint d.env hrun)

end Blockchain

/-- **The window loop returns in every reachable state.** In every state the chain's
operations reach from the empty chain, with any collaborators, results and store faults and
through restarts, every cached record is one `block_to_block_record` built, so each record
first in its sub-slot carries its finished challenge slot hashes. From the parent `p` of the
first block, down its chain of ancestors one height apart to genesis, the window loop of
`pre_validate_blocks_multiprocessing` returns. It stops at `c = (p :: rest)[i]`, the first
record where `WindowStops` holds of the counts over the records above it; `recent_blocks` is
exactly `p` and its ancestors down to `c`; `recent_blocks_compressed` is a subset of it; and
unless `c` is genesis, the compressed records include a path of the first `d` of them, down
from `p`, over which both counts are reached. -/
theorem recentWindow_of_run (constants : ConsensusConstants) {s : Blockchain} {p : BlockRecord}
    {rest : List BlockRecord} (hrun : s.ChainRun) (hc : WindowChain s.view (p :: rest)) :
    ∃ i c recent compressed, recentWindow constants s p = .ok (recent, compressed) ∧
      (p :: rest)[i]? = some c ∧
      WindowStops constants.numberOfTimestamps (if p.overflow then 3 else 2) c
        (blocksSeenIn ((p :: rest).take i)) (subSlotsFoundIn ((p :: rest).take i)) ∧
      (∀ j a, j < i → (p :: rest)[j]? = some a →
        ¬ WindowStops constants.numberOfTimestamps (if p.overflow then 3 else 2) a
          (blocksSeenIn ((p :: rest).take j)) (subSlotsFoundIn ((p :: rest).take j))) ∧
      (∀ x r, recent x = some r ↔ r ∈ (p :: rest).take (i + 1) ∧ r.headerHash = x) ∧
      (∀ x r, compressed x = some r → recent x = some r) ∧
      (0 < c.height → ∃ d ≤ i,
        constants.numberOfTimestamps ≤ blocksSeenIn ((p :: rest).take d) ∧
        (if p.overflow then 3 else 2) ≤ subSlotsFoundIn ((p :: rest).take d) ∧
        ∀ r ∈ (p :: rest).take d, compressed r.headerHash = some r) :=
  recentWindow_of_chain constants hc fun a ha =>
    (hrun.recordsBuilt.cached a.headerHash a (hc.keyed a ha)).hashes_of_first

/-! ## A reachable window -/

/-- `NUMBER_OF_TIMESTAMPS = 1`. -/
def windowConstants : ConsensusConstants := ⟨0, 3, 1, 1, 0, 0⟩

/-- Collaborators as `sampleCollaborators`, except that the record of block `2` includes a
sub-epoch summary. -/
def windowCollaborators : Collaborators :=
  { sampleCollaborators with
    deriveRecord := fun _ b _ => .ok ⟨0, if b.headerHash = 2 then some ⟨0⟩ else none, none, 0⟩ }

/-- A block of weight one above its height, finishing challenge sub-slots of the given
hashes, at signage point `0` and with no payload. -/
def windowBlock (headerHash prevHash height : ℕ) (subSlots : List Bytes32) (tx : Bool) : FullBlock :=
  ⟨subSlots.map (⟨·⟩), headerHash, prevHash, height, height + 1, 0, tx, 0, none, none⟩

/-- The genesis block `1`; `2` includes a sub-epoch summary; `3` and `5` are transaction
blocks; the transaction block `4` finishes the challenge sub-slots `7` and `8`. Each is
received in turn from the empty chain. -/
def windowChain : Blockchain :=
  receiveAll windowCollaborators .empty
    ([windowBlock 1 0 0 [] false, windowBlock 2 1 1 [] false, windowBlock 3 2 2 [] true,
      windowBlock 4 3 3 [7, 8] true, windowBlock 5 4 4 [] true].map fun b => sampleDelivery b none)

/-- A record that is not an overflow, of the given hash, parent and height, flags, sub-epoch
summary and finished challenge slot hashes. -/
def windowRecord (headerHash prevHash height : ℕ) (first tx : Bool) (ses : Option ℕ)
    (hashes : Option (List Bytes32)) : BlockRecord :=
  ⟨headerHash, prevHash, height, height + 1, 0, 0, false, first, tx, 0, ses.map (⟨·⟩), hashes,
    none, 0⟩

/-- The records `receive_block` cached for `windowChain`, from `5` down to genesis. -/
def windowChainRecords : List BlockRecord :=
  [windowRecord 5 4 4 false true none none, windowRecord 4 3 3 true true none (some [7, 8]),
    windowRecord 3 2 2 false true none none, windowRecord 2 1 1 false false (some 0) none,
    windowRecord 1 0 0 false false none none]

/-- From the record `5`, with `NUMBER_OF_TIMESTAMPS = 1` and `k = 2`: the walk stops at `2`,
the first with a sub-epoch summary once `5` and `4` are counted, and `3` is left out of the
compressed window. -/
theorem windowChain_recent_window :
    windowChain.ChainRun ∧ WindowChain windowChain.view windowChainRecords ∧
      ∃ i c recent compressed,
        recentWindow windowConstants windowChain (windowRecord 5 4 4 false true none none) =
          .ok (recent, compressed) ∧
        windowChainRecords[i]? = some c ∧
        WindowStops windowConstants.numberOfTimestamps
          (if (windowRecord 5 4 4 false true none none).overflow then 3 else 2) c
          (blocksSeenIn (windowChainRecords.take i)) (subSlotsFoundIn (windowChainRecords.take i)) ∧
        (∀ j a, j < i → windowChainRecords[j]? = some a →
          ¬ WindowStops windowConstants.numberOfTimestamps
            (if (windowRecord 5 4 4 false true none none).overflow then 3 else 2) a
            (blocksSeenIn (windowChainRecords.take j)) (subSlotsFoundIn (windowChainRecords.take j))) ∧
        (∀ x r, recent x = some r ↔ r ∈ windowChainRecords.take (i + 1) ∧ r.headerHash = x) ∧
        (∀ x r, compressed x = some r → recent x = some r) ∧
        (0 < c.height → ∃ d ≤ i,
          windowConstants.numberOfTimestamps ≤ blocksSeenIn (windowChainRecords.take d) ∧
          (if (windowRecord 5 4 4 false true none none).overflow then 3 else 2) ≤
            subSlotsFoundIn (windowChainRecords.take d) ∧
          ∀ r ∈ windowChainRecords.take d, compressed r.headerHash = some r) := by
  have hrun : windowChain.ChainRun := Blockchain.ChainRun.empty.receiveAll _ _
  have hc : WindowChain windowChain.view windowChainRecords :=
    .cons (by decide) (by decide) rfl <| .cons (by decide) (by decide) rfl <|
      .cons (by decide) (by decide) rfl <| .cons (by decide) (by decide) rfl <|
      .genesis (by decide) rfl
  exact ⟨hrun, hc, recentWindow_of_run windowConstants hrun hc⟩

example : (compressedPrefix 1 2 0 0 (windowChainRecords.take 3)).map (·.headerHash) = [5, 4] := by
  decide

end CorpochainBeacon
