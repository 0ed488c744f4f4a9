import CorpochainBeacon.Restart
import CorpochainBeacon.RangeQueries

/-!
# The header reads serve the main chain

`get_header_blocks_in_range` and `get_header_block_by_height` read blocks from
`block_cache` and from the store's rows, and raise `ValueError` on a block that is no longer
the one the height map names at its height. Over every fault-free run from the empty chain:

* `BlocksStored` — every stored block sits under its own header hash, and `block_cache`
  holds stored blocks only; each call keeps it (`BlocksStored.receiveBlock`). Only a failed
  commit breaks it, leaving the block cached but not stored;
* `FaultFreeRun.namesStoredBlocks` — at every height the height map names a stored block of
  that height;
* **`heightToBlockRecord_of_run`** — `height_to_block_record(k)` returns the peak's ancestor
  at `k` up to the peak's height, and raises `ValueError` above it;
* **`getHeaderBlocksInRange_of_run`** — so `get_header_blocks_in_range(start, stop)` never
  raises: it returns the headers of the main-chain blocks of `[start, stop]`, each under its
  own hash;
* **`getHeaderBlockByHeight_of_run`** — `get_header_block_by_height(height, header_hash)`
  returns the header of the main-chain block at `height` when `header_hash` names it, and
  `None` otherwise;
* **`getBlockRecordsAt_of_run`** — `get_block_records_at(heights)`, reading the store in
  batches, returns exactly what `height_to_block_record` reads from the cache;
* **`getPeak_while_committing`** — while `receive_block` waits on its commit, a reader's
  `get_peak()` sees the new height map with the old `_peak_height`: the old peak unless the
  call reorganises, else the new chain's block at the old height, or `ValueError`;
* `reorg_commit_pending_get_peak_raises` — the reorg of `1 ← 2 ← 3` onto the heavier,
  shorter `1 ← 4` is such a call: its reader gets `ValueError`.
-/

namespace CorpochainBeacon

/-- An ancestor of a cached record is cached. -/
theorem WellLinked.ancestorAt_cached {v : Bytes32 → Option BlockRecord} (hv : WellLinked v)
    {r a : BlockRecord} {k : ℕ} (hr : v r.headerHash = some r) (ha : ancestorAt v r k = some a) :
    v a.headerHash = some a :=
  (ancestorAt_mem hv ha).elim (· ▸ hr) id

namespace Blockchain

/-- `get_header_block_by_height(height, header_hash)`: the header of `header_hash` among the
headers `get_header_blocks_in_range(height, height)` returns, `None` when it is not there. -/
def getHeaderBlockByHeight (s : Blockchain) (reads : BatchReads) (height : ℕ) (headerHash : Bytes32) :
    Except Exc (Option HeaderBlock) := do
  let headerDict ← s.getHeaderBlocksInRange reads height height
  if headerDict.entries.length = 0 then return none
  if headerHash ∉ headerDict then return none
  return headerDict.lookup headerHash

/-- The two guards of `get_header_block_by_height` return only what the lookup returns: the
call is the dictionary's lookup of `header_hash`. -/
theorem getHeaderBlockByHeight_eq (s : Blockchain) (reads : BatchReads) (height : ℕ)
    (headerHash : Bytes32) :
    s.getHeaderBlockByHeight reads height headerHash =
      (s.getHeaderBlocksInRange reads height height).map (·.lookup headerHash) := by
  unfold getHeaderBlockByHeight
  cases s.getHeaderBlocksInRange reads height height with
  | error e => rfl
  | ok m =>
    show _ = Except.ok (m.lookup headerHash)
    simp only [bind_ok]
    by_cases h0 : m.entries.length = 0
    · rw [if_pos h0, AList.lookup, List.length_eq_zero.mp h0]; rfl
    rw [if_neg h0]
    by_cases hmem : headerHash ∈ m
    · rw [if_neg (not_not.mpr hmem)]; rfl
    · rw [if_pos hmem, AList.lookup_eq_none.mpr hmem]; rfl

variable {cc : Collaborators} {s : Blockchain} {faults : StoreFaults} {block : FullBlock}
  {rec : BlockRecord} {genesis : Bool} {hint : Option ℕ} {work : BlockStore}
  {records : List BlockRecord} {summary : Option StateChangeSummary}

/-! ## Stored blocks and `block_cache` -/

/-- The stored blocks sit under their own header hashes, and `block_cache` holds stored
blocks only. -/
structure BlocksStored (s : Blockchain) : Prop where
  keyed : ∀ x fb r, s.blockStore.db.fullBlocks.lookup x = some (fb, r) → fb.headerHash = x
  cache : s.blockStore.CacheHoldsStoredBlocks

theorem BlocksStored.empty : Blockchain.empty.BlocksStored :=
  ⟨fun _ _ _ h => (by cases h), fun _ _ h => (by cases h)⟩

/-- The rows after a writer transaction: the block's row, and the old ones. -/
theorem storeWrites_lookup
    (hw : s.storeWrites cc faults block rec genesis hint = .ok (work, records, summary)) (x : Bytes32) :
    work.db.fullBlocks.lookup x =
      if x = block.headerHash then some (block, rec) else s.blockStore.db.fullBlocks.lookup x := by
  rw [storeWrites_rows hw]
  split_ifs with hx
  · rw [hx, AList.lookup_insert]
  · exact AList.lookup_insert_ne hx

/-- `block_cache` after a writer transaction: `add_full_block` cached the block, and
`_reconsider_peak` left the cache alone. -/
theorem storeWrites_blockCache
    (hw : s.storeWrites cc faults block rec genesis hint = .ok (work, records, summary)) :
    work.blockCache = Function.update s.blockStore.blockCache block.headerHash (some block) := by
  obtain ⟨W, hadd, hw⟩ := bind_eq_ok hw
  obtain ⟨-, -, hc⟩ := BlockStore.addFullBlock_marks hadd
  rcases reconsiderPeak_marks hw with ⟨-, -, rfl⟩ | ⟨-, -, -, hc'⟩
  · exact hc
  · rw [hc', hc]

/-- A transaction that commits keeps the blocks stored: the block's row is under its own
hash, and the block it caches is that row's block. -/
theorem BlocksStored.commit (hb : s.BlocksStored)
    (hw : s.storeWrites cc faults block rec genesis hint = .ok (work, records, summary)) :
    (s.committed rec records summary work).BlocksStored := by
  have hblock : ∀ x, work.db.block x = if x = block.headerHash then some block else s.blockStore.db.block x :=
    fun x => by
      simp only [StoreData.block, storeWrites_lookup hw]
      split_ifs <;> rfl
  refine ⟨fun x fb r hx => ?_, fun x b hx => ?_⟩
  · change work.db.fullBlocks.lookup x = _ at hx
    rw [storeWrites_lookup hw] at hx
    split_ifs at hx with hxh
    · cases hx; exact hxh.symm
    · exact hb.keyed x fb r hx
  · change work.blockCache x = _ at hx
    change work.db.block x = some b ∧ _
    rw [storeWrites_blockCache hw] at hx
    rw [hblock]
    by_cases hxh : x = block.headerHash
    · subst hxh
      rw [Function.update_same] at hx
      cases hx
      exact ⟨if_pos rfl, rfl⟩
    · rw [Function.update_noteq hxh] at hx
      rw [if_neg hxh]
      exact hb.cache x b hx

/-- One fault-free call keeps the blocks stored; a failed transaction evicts its block
from `block_cache`. -/
theorem BlocksStored.receiveBlock {pvr : PreValidationResult} {env : CallEnv} {s' : Blockchain}
    {r : Except Exc ReceiveBlockOutput} (hb : s.BlocksStored) (hf : env.faults = .none)
    (h : s.receiveBlock cc block pvr hint env = (s', r)) : s'.BlocksStored := by
  rcases receiveBlock_cases h with
    ⟨rfl, -⟩ | ⟨ri, rec, ec, body, -, -, -, -, -, ⟨-, rfl, -⟩ | ⟨-, hadd⟩⟩
  · exact hb
  · exact ⟨hb.keyed, hb.cache⟩
  rcases addToDatabase_cases hadd with
    ⟨e, -, rfl, -⟩ | ⟨work, records, summary, hw, ⟨hcm, -⟩ | ⟨-, rfl, -⟩⟩
  · refine ⟨hb.keyed, fun x b hx => hb.cache x b ?_⟩
    change Function.update s.blockStore.blockCache block.headerHash none x = some b at hx
    by_cases hxh : x = block.headerHash
    · subst hxh; rw [Function.update_same] at hx; cases hx
    · rwa [Function.update_noteq hxh] at hx
  · rw [hf] at hcm; cases hcm
  · exact BlocksStored.commit (s := { s with executionClient := ec }) ⟨hb.keyed, hb.cache⟩ hw

theorem FaultFreeRun.blocksStored {allowed : Blockchain → Delivery → Prop} {last : Option Bytes32}
    (hrun : FaultFreeRun cc allowed s last) : s.BlocksStored := by
  induction hrun with
  | empty => exact BlocksStored.empty
  | step d _ hf _ ih => exact ih.receiveBlock hf rfl

/-! ## The height map names stored blocks -/

/-- A hash the height map names at height `k` is a cached record of height `k`: the peak's
ancestor at `k`. -/
theorem MapIsPeakChain.record_at (hs : s.Consistent) (hc : s.MapIsPeakChain) {k : ℕ} {x : Bytes32}
    (hx : s.heightMap.hashes k = some x) : ∃ r, s.view x = some r ∧ r.height = k := by
  obtain ⟨hp0, -⟩ | ⟨peak, -, hpk, -, hv, -⟩ := hs.peak.getPeak
  · rw [hc.1 hp0 k] at hx; cases hx
  rw [hc.2 peak hpk] at hx
  obtain ⟨a, ha, rfl⟩ := Option.map_eq_some'.mp hx
  exact ⟨a, hs.linked.ancestorAt_cached hv ha, ancestorAt_height hs.linked (hs.linked.linked _ _ hv) ha⟩

theorem FaultFreeRun.namesStoredBlocks {last : Option Bytes32}
    (hfork : ∀ v b₁ b₂, cc.findForkPointInChain v b₁ b₂ = highestCommonAncestor v b₁ b₂)
    (hrun : FaultFreeRun cc (HintWithinFork cc) s last) (start stop : ℕ) :
    s.NamesStoredBlocks start stop := by
  have hs := hrun.consistent
  intro k x _ _ hx
  obtain ⟨r, hr, rfl⟩ := (hrun.mapIsPeakChain hfork).1.record_at hs hx
  obtain ⟨⟨fb, r'⟩, hl, hr'⟩ := Option.map_eq_some'.mp (show s.blockStore.db.record x = some r from hs.stored ▸ hr)
  cases hr'
  exact ⟨fb, by rw [StoreData.block, hl]; rfl, hrun.blocksStored.keyed x fb _ hl, hs.blockHeights x fb _ hl⟩

/-- **`height_to_block_record` reads the peak's chain.** In every state of a fault-free run,
with a truthful `find_fork_point_in_chain` and fork hints within the fork,
`height_to_block_record(k)` returns the peak's ancestor at height `k` for every `k` up to the
peak's height, and raises its `ValueError` for a height above the peak, or for every height
when there is no peak. -/
theorem heightToBlockRecord_of_run {last : Option Bytes32}
    (hfork : ∀ v b₁ b₂, cc.findForkPointInChain v b₁ b₂ = highestCommonAncestor v b₁ b₂)
    (hrun : FaultFreeRun cc (HintWithinFork cc) s last) (k : ℕ) :
    (∀ peak, s.getPeak = .ok (some peak) → k ≤ peak.height →
      ∃ a, ancestorAt s.view peak k = some a ∧ a.height = k ∧ s.heightToBlockRecord k = .ok a) ∧
    ((∀ peak, s.getPeak = .ok (some peak) → peak.height < k) →
      s.heightToBlockRecord k = .error (.valueError s!"Height is not in blockchain: {k}")) := by
  have hs := hrun.consistent
  have hc := (hrun.mapIsPeakChain hfork).1
  refine ⟨fun peak hpk hk => ?_, fun habove => ?_⟩
  · obtain ⟨-, -, hv, -⟩ := hs.peak.of_getPeak hpk
    have hlink := hs.linked.linked _ _ hv
    obtain ⟨a, ha⟩ := Option.isSome_iff_exists.mp (ancestorAt_isSome hs.linked hlink hk)
    refine ⟨a, ha, ancestorAt_height hs.linked hlink ha, ?_⟩
    rw [heightToBlockRecord, heightToHash_eq, hc.2 peak hpk k, ha]
    exact blockRecord_of_view (hs.linked.ancestorAt_cached hv ha)
  · have hnone : s.heightMap.hashes k = none := by
      obtain ⟨hp0, -⟩ | ⟨peak, -, hpk, -⟩ := hs.peak.getPeak
      · exact hc.1 hp0 k
      · rw [hc.2 peak hpk k, ancestorAt_of_lt (habove peak hpk)]; rfl
    rw [heightToBlockRecord, heightToHash_eq, hnone]

/-- On the chain `1 ← 2 ← 3`, `height_to_block_record(1)` returns the record of block `2`. -/
theorem threeBlockChain_height_one :
    (∀ peak, threeBlockChain.getPeak = .ok (some peak) → 1 ≤ peak.height →
      ∃ a, ancestorAt threeBlockChain.view peak 1 = some a ∧ a.height = 1 ∧
        threeBlockChain.heightToBlockRecord 1 = .ok a) ∧
    ((∀ peak, threeBlockChain.getPeak = .ok (some peak) → peak.height < 1) →
      threeBlockChain.heightToBlockRecord 1 = .error (.valueError s!"Height is not in blockchain: {1}")) :=
  heightToBlockRecord_of_run (fun _ _ _ => rfl)
    (show FaultFreeRun sampleCollaborators (HintWithinFork sampleCollaborators) threeBlockChain (some 3) from
      .step _ (.step _ (.step _ .empty rfl fun _ _ _ _ _ _ h => by cases h) rfl
        fun _ _ _ _ _ _ h => by cases h) rfl fun _ _ _ _ _ _ h => by cases h) 1

/-! ## The reads -/

section Reads

variable {reads : BatchReads} {last : Option Bytes32}
  (hfork : ∀ v b₁ b₂, cc.findForkPointInChain v b₁ b₂ = highestCommonAncestor v b₁ b₂)
  (hrun : FaultFreeRun cc (HintWithinFork cc) s last)
  (hreads : reads.ReturnsStoredBlocks s.blockStore.db)
include hfork hrun hreads

/-- **`get_header_blocks_in_range` serves the main chain.** In every state of a fault-free
run, with a truthful `find_fork_point_in_chain`, fork hints within the fork and a
`get_blocks_by_hash` that returns stored blocks, `get_header_blocks_in_range(start, stop)`
raises nothing: it returns the headers of the stored blocks of the hashes the height map
names in `[start, stop]`, and its keys are exactly those hashes. -/
theorem getHeaderBlocksInRange_of_run (start stop : ℕ) :
    ∃ m, s.getHeaderBlocksInRange reads start stop = .ok m ∧
      m.entries.Perm (s.storedHeadersInRange start stop) ∧
      ∀ x, x ∈ m ↔ ∃ k, start ≤ k ∧ k ≤ stop ∧ s.heightToHash k = some x := by
  have hnames := hrun.namesStoredBlocks hfork start stop
  obtain ⟨m, hm, hperm⟩ := getHeaderBlocksInRange_perm hrun.blocksStored.cache hnames hreads
  refine ⟨m, hm, hperm, fun x => ?_⟩
  have hkeys : x ∈ m ↔ x ∈ s.rangeHashes start stop := by
    rw [AList.mem_keys, AList.keys, List.keys, ← hnames.keys]
    exact (hperm.map _).mem_iff
  rw [hkeys, rangeHashes, List.mem_filterMap]
  constructor
  · rintro ⟨k, hk, hx⟩
    rw [List.mem_range'_1] at hk
    exact ⟨k, hk.1, by omega, hx⟩
  · rintro ⟨k, hk₁, hk₂, hx⟩
    exact ⟨k, List.mem_range'_1.mpr ⟨hk₁, by omega⟩, hx⟩

omit hfork hrun hreads in
/-- On the chain `1 ← 2 ← 3`, reached by a fault-free run, `get_header_blocks_in_range(0, 2)`
returns the headers of its three blocks. -/
theorem threeBlockChain_range_of_run :
    ∃ m, threeBlockChain.getHeaderBlocksInRange (storedReads threeBlockChain.blockStore.db) 0 2 = .ok m ∧
      m.entries.Perm (threeBlockChain.storedHeadersInRange 0 2) ∧
      ∀ x, x ∈ m ↔ ∃ k, 0 ≤ k ∧ k ≤ 2 ∧ threeBlockChain.heightToHash k = some x :=
  getHeaderBlocksInRange_of_run (fun _ _ _ => rfl)
    (show FaultFreeRun sampleCollaborators (HintWithinFork sampleCollaborators) threeBlockChain (some 3) from
      .step _ (.step _ (.step _ .empty rfl fun _ _ _ _ _ _ h => by cases h) rfl
        fun _ _ _ _ _ _ h => by cases h) rfl fun _ _ _ _ _ _ h => by cases h)
    (fun _ _ => rfl) 0 2

/-- **`get_header_block_by_height` returns the main-chain header.** In every state of a
fault-free run, under the conditions of `getHeaderBlocksInRange_of_run`,
`get_header_block_by_height(height, header_hash)` returns the header of the block stored
under `header_hash` when the height map names `header_hash` at `height`, and `None`
otherwise; and a block so named is stored, with height `height`. -/
theorem getHeaderBlockByHeight_of_run (height : ℕ) (headerHash : Bytes32) :
    s.getHeaderBlockByHeight reads height headerHash =
      .ok (if s.heightToHash height = some headerHash then
        (s.blockStore.db.block headerHash).map getBlockHeader else none) ∧
    (s.heightToHash height = some headerHash →
      ∃ b, s.blockStore.db.block headerHash = some b ∧ b.height = height) := by
  have hnames := hrun.namesStoredBlocks hfork height height
  obtain ⟨m, hm, hperm⟩ := getHeaderBlocksInRange_perm hrun.blocksStored.cache hnames hreads
  have hrange : s.rangeHashes height height = (s.heightToHash height).toList := by
    rw [rangeHashes, Nat.add_sub_cancel_left, show List.range' height 1 = [height] from rfl,
      List.filterMap_cons, List.filterMap_nil]
    cases s.heightToHash height <;> rfl
  rw [getHeaderBlockByHeight_eq, hm]
  show Except.ok (m.lookup headerHash) = _ ∧ _
  cases hh : s.heightToHash height with
  | none =>
    rw [storedHeadersInRange, hrange, hh] at hperm
    refine ⟨by rw [AList.lookup, List.perm_nil.mp hperm]; rfl, fun h => by cases h⟩
  | some x =>
    obtain ⟨b, hb, -, hbh⟩ := hnames height x le_rfl le_rfl (by rwa [← heightToHash_eq])
    rw [storedHeadersInRange, hrange, hh] at hperm
    have hentries : m.entries = [⟨x, getBlockHeader b⟩] := by
      simpa [hb] using hperm
    refine ⟨?_, fun h => by cases h; exact ⟨b, hb, hbh⟩⟩
    rw [AList.lookup, hentries]
    by_cases hx : headerHash = x
    · subst hx
      rw [List.dlookup_cons_eq, if_pos rfl, hb]; rfl
    · rw [List.dlookup_cons_ne _ _ hx, if_neg (Ne.symm (by simpa using hx))]; rfl

omit hfork hrun hreads in
/-- On the chain `1 ← 2 ← 3`, `get_header_block_by_height(1, 2)` returns the header of the
block `2`. -/
theorem threeBlockChain_header_at_one :
    threeBlockChain.getHeaderBlockByHeight (storedReads threeBlockChain.blockStore.db) 1 2 =
      .ok (if threeBlockChain.heightToHash 1 = some 2 then
        (threeBlockChain.blockStore.db.block 2).map getBlockHeader else none) ∧
    (threeBlockChain.heightToHash 1 = some 2 →
      ∃ b, threeBlockChain.blockStore.db.block 2 = some b ∧ b.height = 1) :=
  getHeaderBlockByHeight_of_run (fun _ _ _ => rfl)
    (show FaultFreeRun sampleCollaborators (HintWithinFork sampleCollaborators) threeBlockChain (some 3) from
      .step _ (.step _ (.step _ .empty rfl fun _ _ _ _ _ _ h => by cases h) rfl
        fun _ _ _ _ _ _ h => by cases h) rfl fun _ _ _ _ _ _ h => by cases h)
    (fun _ _ => rfl) 1 2

end Reads

/-! ## Record reads -/

section RecordReads

variable {reads : BatchReads} {recordOf : Bytes32 → BlockRecord} {batchSize : ℤ}

/-- The unbatched lookup of the store's records succeeds where the lookup of the cached
records by `height_to_block_record` succeeds, with the same records, when the height map
names cached records that the store holds too. -/
theorem recordsAtUnbatched_toOption (hs : s.Consistent)
    (hstore : ∀ x r, s.blockStore.db.record x = some r → recordOf x = r) :
    ∀ heights : List ℕ, (s.recordsAtUnbatched recordOf heights).toOption =
      (heights.mapM s.heightToBlockRecord).toOption
  | [] => rfl
  | k :: heights => by
    have ih := recordsAtUnbatched_toOption hs hstore heights
    rw [recordsAtUnbatched_cons, List.mapM_cons, heightToBlockRecord]
    cases hk : s.heightToHash k with
    | none => rfl
    | some x =>
      obtain ⟨r, hr⟩ := Option.isSome_iff_exists.mp (hs.mapCached k x (by rwa [← heightToHash_eq]))
      have hrec : recordOf x = r := hstore x r (by rw [hs.stored]; exact hr)
      simp only [hrec, blockRecord_of_view hr, bind_ok]
      cases h₁ : s.recordsAtUnbatched recordOf heights <;>
        cases h₂ : heights.mapM s.heightToBlockRecord <;> rw [h₁, h₂] at ih <;> cases ih <;> rfl

/-- **`get_block_records_at` reads what the cache holds.** In every state of a fault-free
run, take any `batch_size < 999`, negative ones included, and a `get_block_records_by_hash`
that answers every batch of `1` to `max(batch_size, 0) + 1` hashes with the records the
store holds for them, in order.
Then `get_block_records_at(heights)` returns records exactly when
`height_to_block_record` returns one at each height, and then the same records. -/
theorem getBlockRecordsAt_of_run {allowed : Blockchain → Delivery → Prop} {last : Option Bytes32}
    (hrun : FaultFreeRun cc allowed s last) (hb : batchSize < 999)
    (hq : reads.ReturnsRecordsUpTo recordOf (batchSize.toNat + 1))
    (hstore : ∀ x r, s.blockStore.db.record x = some r → recordOf x = r) (heights : List ℕ) :
    (s.getBlockRecordsAt reads heights batchSize).toOption =
      (heights.mapM s.heightToBlockRecord).toOption := by
  rw [getBlockRecordsAt, if_pos hb, getBlockRecordsAtLoop_eq hq heights [] [] (Nat.zero_le _),
    ← recordsAtUnbatched_toOption hrun.consistent hstore heights]
  cases s.recordsAtUnbatched recordOf heights <;> rfl

/-- A store whose `get_block_records_by_hash` returns the stored record of each hash, and
`r₀` for a hash it does not hold. -/
def storeRecordReads (db : StoreData) (r₀ : BlockRecord) : BatchReads :=
  ⟨fun hs => .ok (hs.map fun x => (db.record x).getD r₀), fun hs => .ok (hs.filterMap db.block)⟩

/-- On the chain `1 ← 2 ← 3`, `get_block_records_at([0, 2])` reads what the cache holds. -/
theorem threeBlockChain_records_of_run :
    (threeBlockChain.getBlockRecordsAt (storeRecordReads threeBlockChain.blockStore.db heavierSibling)
        [0, 2] 900).toOption =
      ([0, 2].mapM threeBlockChain.heightToBlockRecord).toOption :=
  getBlockRecordsAt_of_run
    (show FaultFreeRun sampleCollaborators (fun _ _ => True) threeBlockChain (some 3) from
      .step _ (.step _ (.step _ .empty rfl trivial) rfl trivial) rfl trivial)
    (by decide) (fun _ _ _ => rfl) (fun _ _ h => by rw [h]; rfl) [0, 2]

end RecordReads

/-! ## Reading while a transaction commits -/

section Committing

variable {block : FullBlock} {rec : BlockRecord} {hint : Option ℕ}

/-- `get_peak` reads `_peak_height`, the height map and the record cache only. -/
theorem getPeak_congr {t u : Blockchain} (hp : t.peakHeight = u.peakHeight)
    (hm : t.heightMap = u.heightMap) (hr : t.blockRecords = u.blockRecords) :
    t.getPeak = u.getPeak := by
  simp only [getPeak, heightToBlockRecord, heightToHash, blockRecord, hp, hm, hr]

/-- **What a reader sees while `receive_block` waits on its commit.** In every state of a
fault-free run, with a truthful `find_fork_point_in_chain` and a fork hint within the fork,
the transaction of an admitted block's call reaches its commit, and a reader's `get_peak()`
while it waits there returns: the old peak when the call changes no peak, or extends the
peak; `None` before the first peak; otherwise, with `_peak_height` still the old height `p`,
the new peak's ancestor at `p` (neither the old peak nor the new one when the new chain is
longer), or `ValueError` when the new chain is shorter than `p`. -/
theorem getPeak_while_committing {last : Option Bytes32} {ri : ℕ}
    (hfork : ∀ v b₁ b₂, cc.findForkPointInChain v b₁ b₂ = highestCommonAncestor v b₁ b₂)
    (hrun : FaultFreeRun cc (HintWithinFork cc) s last) (ha : s.Admits block)
    (hrec : blockToBlockRecord cc s.view ri block none = .ok rec)
    (hhint : ∀ peak f, s.getPeak = .ok (some peak) → hint = some f →
      (f : ℤ) ≤ highestCommonAncestor s.view rec peak) :
    ∃ work records summary,
      s.storeWrites cc .none block rec (decide (block.height = 0)) hint = .ok (work, records, summary) ∧
      (summary = none → (s.atCommit rec records summary work).getPeak = s.getPeak) ∧
      (∀ peak, s.getPeak = .ok (some peak) → rec.prevHash = peak.headerHash →
        (s.atCommit rec records summary work).getPeak = .ok (some peak)) ∧
      (s.peakHeight = none → (s.atCommit rec records summary work).getPeak = .ok none) ∧
      ∀ p sc, s.peakHeight = some p → summary = some sc →
        (p ≤ rec.height → (s.atCommit rec records summary work).getPeak =
          .ok (ancestorAt (Function.update s.view rec.headerHash (some rec)) rec p)) ∧
        (rec.height < p → (s.atCommit rec records summary work).getPeak =
          .error (.valueError s!"Height is not in blockchain: {p}")) := by
  have hs := hrun.consistent
  have hc := (hrun.mapIsPeakChain hfork).1
  obtain ⟨⟨work, records, summary⟩, hw⟩ :
      ∃ out, s.storeWrites cc .none block rec (decide (block.height = 0)) hint = .ok out :=
    storeWrites_ok hs hc ha hrec
  obtain ⟨hs', hpeak⟩ := hs.commit ha hrec hw
  have hcm := MapIsPeakChain.commit hs hc ha hrec hfork hhint hw
  -- the reader's state has the committed map and cache, and the old `_peak_height`
  have hcv : (s.committed rec records summary work).view rec.headerHash = some rec := by simp
  have horphan : summary = none → (s.atCommit rec records summary work).getPeak = s.getPeak :=
    fun hsum => by
      rcases hpeak with ⟨⟨sc, hsc⟩, -⟩ | ⟨-, hcp, -⟩
      · rw [hsc] at hsum; cases hsum
      rw [← hcp]
      subst hsum
      exact getPeak_congr rfl rfl rfl
  have hnew : ∀ p sc, s.peakHeight = some p → summary = some sc →
      (s.atCommit rec records summary work).heightMap.hashes p =
        (ancestorAt (Function.update s.view rec.headerHash (some rec)) rec p).map (·.headerHash) :=
    fun p sc _ hsum => by
      rcases hpeak with ⟨-, hcp, -⟩ | ⟨hn, -⟩
      · rw [← committed_view]; exact hcm.2 rec hcp p
      · rw [hn] at hsum; cases hsum
  have hbelow : ∀ p sc, s.peakHeight = some p → summary = some sc → p ≤ rec.height →
      (s.atCommit rec records summary work).getPeak =
        .ok (ancestorAt (Function.update s.view rec.headerHash (some rec)) rec p) := fun p sc hp hsum hle => by
    rw [← committed_view]
    obtain ⟨a, ha'⟩ := Option.isSome_iff_exists.mp (ancestorAt_isSome hs'.linked (hs'.linked.linked _ _ hcv) hle)
    rw [ha']
    exact getPeak_of_hash hp ((hnew p sc hp hsum).trans (by rw [← committed_view, ha']; rfl))
      (hs'.linked.ancestorAt_cached hcv ha')
  refine ⟨work, records, summary, hw, horphan, fun peak hpk hpp => ?_, fun hp => getPeak_of_none hp,
    fun p sc hp hsum => ⟨hbelow p sc hp hsum, fun hlt => ?_⟩⟩
  · -- the block extends the peak: the old peak is the new peak's parent
    rcases Option.eq_none_or_eq_some summary with hsum | ⟨sc, hsum⟩
    · rw [← hpk]; exact horphan hsum
    rcases hpeak with ⟨-, -, hpk' | ⟨peak', hpk', -, h0⟩⟩ | ⟨hn, -⟩
    · rw [hpk] at hpk'; cases hpk'
    · rw [hpk] at hpk'; cases hpk'
      obtain ⟨hph, -, hv, -⟩ := hs.peak.of_getPeak hpk
      have hpar := hs.peak_parent ha hrec hpk (by omega) hpp
      have hrnew := ha.view_eq_none hrec
      rw [hbelow _ sc hph hsum (by omega), ancestorAt_prev (by rw [Function.update_noteq
        (fun he => by rw [← hpp, he, hrnew] at hv; cases hv), hpp, hv]) hpar, if_neg (by omega),
        ancestorAt_self]
    · rw [hn] at hsum; cases hsum
  · -- the new chain is shorter than `_peak_height`
    have hm : (s.atCommit rec records summary work).heightMap.hashes p = none := by
      rw [hnew p sc hp hsum, ancestorAt_of_lt hlt]
      rfl
    have hp' : (s.atCommit rec records summary work).peakHeight = some p := hp
    simp [getPeak, hp', heightToBlockRecord, heightToHash_eq, hm, Except.map]

/-- The reorg of `1 ← 2 ← 3` onto the heavier sibling `1 ← 4`, with fork hint `0`: the new
chain is shorter than `_peak_height = 2`, so a reader during the commit gets `ValueError`. -/
theorem heavierSibling_read_while_committing :
    ∃ work records summary,
      threeBlockChain.storeWrites sampleCollaborators .none (sampleBlock 4 1 1 4 none) heavierSibling
        (decide ((sampleBlock 4 1 1 4 none).height = 0)) (some 0) = .ok (work, records, summary) ∧
      (summary = none → (threeBlockChain.atCommit heavierSibling records summary work).getPeak =
        threeBlockChain.getPeak) ∧
      (∀ peak, threeBlockChain.getPeak = .ok (some peak) → heavierSibling.prevHash = peak.headerHash →
        (threeBlockChain.atCommit heavierSibling records summary work).getPeak = .ok (some peak)) ∧
      (threeBlockChain.peakHeight = none →
        (threeBlockChain.atCommit heavierSibling records summary work).getPeak = .ok none) ∧
      ∀ p sc, threeBlockChain.peakHeight = some p → summary = some sc →
        (p ≤ heavierSibling.height → (threeBlockChain.atCommit heavierSibling records summary work).getPeak =
          .ok (ancestorAt (Function.update threeBlockChain.view heavierSibling.headerHash
            (some heavierSibling)) heavierSibling p)) ∧
        (heavierSibling.height < p → (threeBlockChain.atCommit heavierSibling records summary work).getPeak =
          .error (.valueError s!"Height is not in blockchain: {p}")) :=
  getPeak_while_committing (fun _ _ _ => rfl)
    (show FaultFreeRun sampleCollaborators (HintWithinFork sampleCollaborators) threeBlockChain (some 3) from
      .step _ (.step _ (.step _ .empty rfl fun _ _ _ _ _ _ h => by cases h) rfl
        fun _ _ _ _ _ _ h => by cases h) rfl fun _ _ _ _ _ _ h => by cases h)
    ⟨by decide, .inr ⟨_, rfl, rfl⟩⟩
    (show blockToBlockRecord sampleCollaborators threeBlockChain.view 0 (sampleBlock 4 1 1 4 none) none =
      .ok heavierSibling from rfl)
    fun peak f hpk hf => by
      rw [show threeBlockChain.getPeak =
        .ok (some ⟨3, 2, 2, 3, 0, 0, false, false, true, 0, none, none, none, 0⟩) from rfl] at hpk
      cases hpk
      cases hf
      decide

/-- A reorg from `1 ← 2 ← 3` onto the heavier sibling `1 ← 4`, with the correct fork hint
`0`: the call succeeds with `NEW_PEAK`, but while its transaction waits on the commit the
height map holds heights `0` and `1` only and `_peak_height` is still `2`, so a reader's
`get_peak()` raises `ValueError`. -/
theorem reorg_commit_pending_get_peak_raises :
    blockToBlockRecord sampleCollaborators threeBlockChain.view 0 (sampleBlock 4 1 1 4 none) none =
        .ok heavierSibling ∧
      (threeBlockChain.receiveBlock sampleCollaborators (sampleBlock 4 1 1 4 none) acceptedResult
        (some 0) ⟨validEngine, StoreFaults.none⟩).2 = .ok (.newPeak, none, some ⟨heavierSibling, 0⟩) ∧
      (match threeBlockChain.storeWrites sampleCollaborators StoreFaults.none
          (sampleBlock 4 1 1 4 none) heavierSibling false (some 0) with
        | .ok (work, records, summary) =>
          (threeBlockChain.atCommit heavierSibling records summary work).getPeak
        | .error e => .error e) = .error (.valueError "Height is not in blockchain: 2") := by
  decide

end Committing

end Blockchain

end CorpochainBeacon
