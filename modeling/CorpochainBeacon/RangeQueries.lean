import CorpochainBeacon.CacheCleaning

/-!
# Range queries: `get_block_records_at` and `get_header_blocks_in_range`

Two reads of `Blockchain` that go from heights, through the height map, to the block
store's batch queries. The bodies of `get_block_records_by_hash` and `get_blocks_by_hash`
are not in the source: `BatchReads` takes them as given, and each theorem says what it
assumes of them.

* `getBlockRecordsAtLoop_eq` — the loop of `get_block_records_at`, which flushes its
  buffer of hashes once it holds more than `batch_size` and once more at the end, returns
  the unbatched lookup `recordsAtUnbatched`, as long as the store answers each batch of
  `1` to `max(batch_size, 0) + 1` hashes in order;
* **`getBlockRecordsAt_agrees`** — so for `batch_size < 999` the records of the heights,
  in order, when the height map names them all, and `ValueError` when it misses one;
* `getBlockRecordsAt_negative_batch_size` — a negative `batch_size` passes the assert and
  sends every hash alone, a batch larger than `batch_size + 1`;
* `takeCached_eq` — the pass over `hashes.copy()` moves the cached blocks out in order and
  leaves exactly the uncached hashes, so `list.remove` never raises;
* `collectHeaders_entries` — the header dictionary of blocks that pass the fork check;
* **`getHeaderBlocksInRange_stored`** — when `block_cache` holds stored blocks under
  their own hashes and the height map names, in `[start, stop]`, stored blocks of those
  heights, the dictionary is the headers of the range's blocks, each once, as with an
  empty cache;
* `getHeaderBlocksInRange_after_commit_failure` — a reachable state where the height
  map names a block the store does not hold.
-/

namespace CorpochainBeacon

/-- `HeaderBlock` (`types/header_block.py`), with the header fields that the model's
`FullBlock` carries. -/
structure HeaderBlock where
  finishedSubSlots : List EndOfSubSlotBundle
  headerHash : Bytes32
  prevHeaderHash : Bytes32
  height : ℕ
  weight : ℕ
  totalIters : ℕ
  isTransactionBlock : Bool
  signagePointIndex : ℕ
  challengeChainSpVdf : Option Bytes32
  executionPayload : Option ExecutionPayloadV2
  deriving DecidableEq, Repr

/-- Modelled from the spec: `get_block_header(block)` (`util/generator_tools.py`, absent)
builds the header block of a block; every field of the model's `FullBlock` is a header
field, and is copied. -/
def getBlockHeader (block : FullBlock) : HeaderBlock :=
  ⟨block.finishedSubSlots, block.headerHash, block.prevHeaderHash, block.height, block.weight,
    block.totalIters, block.isTransactionBlock, block.signagePointIndex,
    block.challengeChainSpVdf, block.executionPayload⟩

@[simp] theorem getBlockHeader_headerHash (block : FullBlock) :
    (getBlockHeader block).headerHash = block.headerHash := rfl

/-- Modelled from the spec: the block store's batch reads (§4.B), whose bodies in
`beacon/block_store.py` are absent. -/
structure BatchReads where
  /-- `get_block_records_by_hash([hash])` -/
  getBlockRecordsByHash : List Bytes32 → Except Exc (List BlockRecord)
  /-- `get_blocks_by_hash([hash])` -/
  getBlocksByHash : List Bytes32 → Except Exc (List FullBlock)

namespace BatchReads

/-- What `get_block_records_at` needs of `get_block_records_by_hash`: on a batch of `1` to
`maxBatch` hashes it returns, in order, the record `recordOf` gives each hash. Nothing is
assumed of other batches, so a theorem under this assumption also shows that the loop sends
no other batch. -/
def ReturnsRecordsUpTo (reads : BatchReads) (recordOf : Bytes32 → BlockRecord) (maxBatch : ℕ) :
    Prop :=
  ∀ hs : List Bytes32, 1 ≤ hs.length → hs.length ≤ maxBatch →
    reads.getBlockRecordsByHash hs = .ok (hs.map recordOf)

/-- What `get_header_blocks_in_range` needs of `get_blocks_by_hash`: on hashes that are all
stored it returns their stored blocks, in order. -/
def ReturnsStoredBlocks (reads : BatchReads) (db : StoreData) : Prop :=
  ∀ hs : List Bytes32, (∀ x ∈ hs, (db.block x).isSome) → reads.getBlocksByHash hs = .ok (hs.filterMap db.block)

end BatchReads

/-- Every block `block_cache` holds is the stored block of its own header hash. -/
def BlockStore.CacheHoldsStoredBlocks (bs : BlockStore) : Prop :=
  ∀ x block, bs.blockCache x = some block → bs.db.block x = some block ∧ block.headerHash = x

namespace Blockchain

/-! ## `get_block_records_at` -/

section RecordsAt

variable (s : Blockchain)

/-- The `for` loop of `get_block_records_at` over `heights`, with the buffered `hashes` and
the `records` fetched so far: a full buffer (more than `batchSize` hashes) is flushed at
once, and what is left is flushed after the loop. -/
def getBlockRecordsAtLoop (reads : BatchReads) (batchSize : ℤ) :
    List ℕ → List Bytes32 → List BlockRecord → Except Exc (List BlockRecord)
  | [], hashes, records =>
    if 0 < hashes.length then do
      let res ← reads.getBlockRecordsByHash hashes
      pure (records ++ res)
    else pure records
  | height :: heights, hashes, records =>
    match s.heightToHash height with
    | none => .error (.valueError s!"Do not have block at height {height}")
    | some headerHash =>
      if batchSize < ((hashes ++ [headerHash]).length : ℤ) then do
        let res ← reads.getBlockRecordsByHash (hashes ++ [headerHash])
        getBlockRecordsAtLoop reads batchSize heights [] (records ++ res)
      else getBlockRecordsAtLoop reads batchSize heights (hashes ++ [headerHash]) records

/-- `get_block_records_at(heights, batch_size)`. The source's default `batch_size` is `900`;
it is a Python `int`, and a negative one passes the assert. -/
def getBlockRecordsAt (reads : BatchReads) (heights : List ℕ) (batchSize : ℤ) :
    Except Exc (List BlockRecord) :=
  if batchSize < 999 then s.getBlockRecordsAtLoop reads batchSize heights [] []
  else .error .assertionError

/-- The lookup without batches: for each height in turn, the record of the hash the height
map names there, or the loop's `ValueError` at the first height it does not name. -/
def recordsAtUnbatched (recordOf : Bytes32 → BlockRecord) (heights : List ℕ) :
    Except Exc (List BlockRecord) :=
  heights.mapM fun height =>
    match s.heightToHash height with
    | none => .error (.valueError s!"Do not have block at height {height}")
    | some headerHash => .ok (recordOf headerHash)

variable {s} {reads : BatchReads} {recordOf : Bytes32 → BlockRecord} {batchSize : ℤ}

theorem recordsAtUnbatched_cons (height : ℕ) (heights : List ℕ) :
    s.recordsAtUnbatched recordOf (height :: heights) =
      (match s.heightToHash height with
        | none => .error (.valueError s!"Do not have block at height {height}")
        | some headerHash => .ok (recordOf headerHash)) >>= fun r =>
      s.recordsAtUnbatched recordOf heights >>= fun rs => pure (r :: rs) :=
  List.mapM_cons _

@[simp] theorem recordsAtUnbatched_nil : s.recordsAtUnbatched recordOf [] = .ok [] := rfl

/-- **The batched loop is the unbatched lookup.** From a buffer of at most
`max(batch_size, 0)` hashes, the loop returns the records fetched so far, then the buffer's,
then the unbatched lookup of the remaining heights; it raises where the lookup raises. -/
theorem getBlockRecordsAtLoop_eq (hq : reads.ReturnsRecordsUpTo recordOf (batchSize.toNat + 1)) :
    ∀ (heights : List ℕ) (hashes : List Bytes32) (records : List BlockRecord),
      hashes.length ≤ batchSize.toNat →
      s.getBlockRecordsAtLoop reads batchSize heights hashes records =
        (s.recordsAtUnbatched recordOf heights).map (records ++ hashes.map recordOf ++ ·)
  | [], hashes, records, _ => by
    unfold getBlockRecordsAtLoop
    cases hashes with
    | nil => simp [Except.map]; rfl
    | cons x xs =>
      rw [if_pos (List.length_pos.mpr (List.cons_ne_nil x xs)), hq _ (by simp) (by omega)]
      simp [Except.map]
  | height :: heights, hashes, records, hlen => by
    rw [getBlockRecordsAtLoop, recordsAtUnbatched_cons]
    cases s.heightToHash height with
    | none => rfl
    | some x =>
      have hlen' : (hashes ++ [x]).length = hashes.length + 1 := by simp
      dsimp only
      by_cases hb : batchSize < ((hashes ++ [x]).length : ℤ)
      · rw [if_pos hb, hq _ (by omega) (by omega), bind_ok,
          getBlockRecordsAtLoop_eq hq heights [] _ (Nat.zero_le _)]
        cases s.recordsAtUnbatched recordOf heights <;> simp [Except.map]
      · rw [if_neg hb, getBlockRecordsAtLoop_eq hq heights _ records (by omega)]
        cases s.recordsAtUnbatched recordOf heights <;> simp [Except.map]

/-- The unbatched lookup of heights that the height map all names. -/
theorem recordsAtUnbatched_of_contains {heights : List ℕ}
    (h : ∀ height ∈ heights, s.heightMap.containsHeight height) :
    s.recordsAtUnbatched recordOf heights =
      .ok (heights.map fun height => recordOf (s.heightMap.getHash height)) :=
  mapM_eq_ok fun height hh => by simp [heightToHash, h height hh]

/-- The unbatched lookup of heights one of which the height map does not name raises
`ValueError`. -/
theorem recordsAtUnbatched_of_missing :
    ∀ {heights : List ℕ}, (∃ height ∈ heights, s.heightMap.containsHeight height = false) →
      ∃ msg, s.recordsAtUnbatched recordOf heights = .error (.valueError msg)
  | height :: heights, ⟨k, hk, hmiss⟩ => by
    rw [recordsAtUnbatched_cons]
    by_cases hc : s.heightMap.containsHeight height
    · obtain ⟨msg, hmsg⟩ := @recordsAtUnbatched_of_missing heights
        ⟨k, (List.mem_cons.mp hk).resolve_left (by rintro rfl; simp [hc] at hmiss), hmiss⟩
      simp only [heightToHash, hc, ite_true, bind_ok, hmsg, bind_error]
      exact ⟨msg, rfl⟩
    · simp only [heightToHash, hc, Bool.false_eq_true, ite_false]
      exact ⟨_, rfl⟩

/-- **`get_block_records_at` agrees with the unbatched lookup.** Take any `batch_size < 999`,
negative ones included, and a `get_block_records_by_hash` that answers every batch of `1` to
`max(batch_size, 0) + 1 ≤ 999` hashes with their records in order, whatever it does on other
batches. Then for heights that the height map all names, the call returns the record of each
height's hash, in order; if it misses one, the call raises `ValueError`. -/
theorem getBlockRecordsAt_agrees (hb : batchSize < 999)
    (hq : reads.ReturnsRecordsUpTo recordOf (batchSize.toNat + 1)) (heights : List ℕ) :
    ((∀ height ∈ heights, s.heightMap.containsHeight height) →
      s.getBlockRecordsAt reads heights batchSize =
        .ok (heights.map fun height => recordOf (s.heightMap.getHash height))) ∧
    ((∃ height ∈ heights, s.heightMap.containsHeight height = false) →
      ∃ msg, s.getBlockRecordsAt reads heights batchSize = .error (.valueError msg)) := by
  have heq : s.getBlockRecordsAt reads heights batchSize =
      (s.recordsAtUnbatched recordOf heights).map id := by
    rw [getBlockRecordsAt, if_pos hb, getBlockRecordsAtLoop_eq hq heights [] [] (Nat.zero_le _)]
    rfl
  refine ⟨fun h => ?_, fun h => ?_⟩
  · rw [heq, recordsAtUnbatched_of_contains h]
    rfl
  · obtain ⟨msg, hmsg⟩ := recordsAtUnbatched_of_missing h
    exact ⟨msg, by rw [heq, hmsg]; rfl⟩

/-- A store that answers batches of `1` to `3` hashes only. -/
def threeAtATime : BatchReads :=
  ⟨fun hs => if 1 ≤ hs.length ∧ hs.length ≤ 3 then .ok (hs.map fun x => sampleRecord x 0 0)
    else .error .assertionError, fun _ => .ok []⟩

/-- With `batch_size = 2`, six heights of `sixBlockChain` are fetched as two full batches,
and the result is the records of the six hashes. -/
theorem sixBlockChain_records_at :
    (2 : ℤ) < 999 ∧ threeAtATime.ReturnsRecordsUpTo (fun x => sampleRecord x 0 0) ((2 : ℤ).toNat + 1) ∧
      (((∀ height ∈ [5, 0, 3, 1, 2, 4], sixBlockChain.heightMap.containsHeight height) →
        sixBlockChain.getBlockRecordsAt threeAtATime [5, 0, 3, 1, 2, 4] 2 =
          .ok ([5, 0, 3, 1, 2, 4].map fun height =>
            sampleRecord (sixBlockChain.heightMap.getHash height) 0 0)) ∧
      ((∃ height ∈ [5, 0, 3, 1, 2, 4], sixBlockChain.heightMap.containsHeight height = false) →
        ∃ msg, sixBlockChain.getBlockRecordsAt threeAtATime [5, 0, 3, 1, 2, 4] 2 =
          .error (.valueError msg))) :=
  have hq : threeAtATime.ReturnsRecordsUpTo (fun x => sampleRecord x 0 0) ((2 : ℤ).toNat + 1) :=
    fun _ h1 h2 => by
      unfold threeAtATime
      exact if_pos ⟨h1, h2⟩
  ⟨by decide, hq, getBlockRecordsAt_agrees (by decide) hq _⟩

/-- A store that answers one-hash batches only. -/
def oneAtATime : BatchReads :=
  ⟨fun hs => if hs.length = 1 then .ok (hs.map fun x => sampleRecord x 0 0) else .error .assertionError,
    fun _ => .ok []⟩

/-- A store that refuses every batch. -/
def refusingReads : BatchReads := ⟨fun _ => .error .storeError, fun _ => .ok []⟩

/-- `batch_size = -1` passes the assert, and then every hash goes alone to
`get_block_records_by_hash`, a batch larger than `batch_size + 1 = 0`: a store that answers
one-hash batches only serves `get_block_records_at([5, 0, 3], -1)`, and one that refuses every
non-empty batch, so every batch of `1` to `batch_size + 1` hashes, makes it raise. -/
theorem getBlockRecordsAt_negative_batch_size :
    (-1 : ℤ) < 999 ∧
      sixBlockChain.getBlockRecordsAt oneAtATime [5, 0, 3] (-1) =
        .ok ([5, 0, 3].map fun height => sampleRecord (sixBlockChain.heightMap.getHash height) 0 0) ∧
      (∀ hs : List Bytes32, 1 ≤ hs.length → (hs.length : ℤ) ≤ -1 + 1 →
        refusingReads.getBlockRecordsByHash hs = .ok (hs.map fun x => sampleRecord x 0 0)) ∧
      sixBlockChain.getBlockRecordsAt refusingReads [0] (-1) = .error .storeError :=
  ⟨by decide, by decide, fun _ h1 h2 => absurd h2 (by omega), by decide⟩

end RecordsAt

/-! ## `get_header_blocks_in_range` -/

section HeaderBlocks

/-- A header dictionary, by header hash (the order of a Python dict is not modelled: two
dictionaries are the same when their entries are a permutation of each other). -/
abbrev HeaderBlocks : Type := AList fun _ : Bytes32 => HeaderBlock

/-- The loop over `hashes.copy()` of `get_header_blocks_in_range`: the block `block_cache`
holds for a hash goes to `blocks`, and the hash leaves `hashes` (`list.remove`, which
removes the first occurrence and raises `ValueError` when there is none). -/
def takeCached (cache : Bytes32 → Option FullBlock) :
    List Bytes32 → List Bytes32 → List FullBlock → Except Exc (List Bytes32 × List FullBlock)
  | [], hashes, blocks => .ok (hashes, blocks)
  | hash :: rest, hashes, blocks =>
    match cache hash with
    | some block =>
      if hash ∈ hashes then takeCached cache rest (hashes.erase hash) (blocks ++ [block])
      else .error (.valueError "list.remove(x): x not in list")
    | none => takeCached cache rest hashes blocks

variable (s : Blockchain)

/-- The hashes the height map names at the heights `range(start, stop + 1)`, in height
order: `hashes` before the cache pass. -/
def rangeHashes (start stop : ℕ) : List Bytes32 :=
  (List.range' start (stop + 1 - start)).filterMap s.heightToHash

/-- The last loop of `get_header_blocks_in_range`: a block must still be the one the height
map names at its height (`ValueError` otherwise), and its header is stored under its
header hash. -/
def collectHeaders : List FullBlock → HeaderBlocks → Except Exc HeaderBlocks
  | [], headerBlocks => .ok headerBlocks
  | block :: blocks, headerBlocks =>
    if s.heightToHash block.height ≠ some block.headerHash then
      .error (.valueError ("Block at " ++ toString block.headerHash ++
        " is no longer in the blockchain (it\x27s in a fork)"))
    else
      let header := getBlockHeader block
      collectHeaders blocks (headerBlocks.insert header.headerHash header)

/-- `get_header_blocks_in_range(start, stop)`. -/
def getHeaderBlocksInRange (reads : BatchReads) (start stop : ℕ) : Except Exc HeaderBlocks := do
  let hashes := s.rangeHashes start stop
  let (hashes, blocks) ← takeCached s.blockStore.blockCache hashes hashes []
  let blocksOnDisk ← reads.getBlocksByHash hashes
  s.collectHeaders (blocks ++ blocksOnDisk) ∅

/-- The dictionary the call should return, as its entries: for each height of
`[start, stop]` that the height map names, in height order, the named hash and the header
of the block stored under it. -/
def storedHeadersInRange (start stop : ℕ) : List (Σ _ : Bytes32, HeaderBlock) :=
  (s.rangeHashes start stop).filterMap fun x =>
    (s.blockStore.db.block x).map fun block => ⟨x, getBlockHeader block⟩

/-- Each hash the height map names at a height of `[start, stop]` is the header hash of a
stored block of that height. -/
def NamesStoredBlocks (start stop : ℕ) : Prop :=
  ∀ height x, start ≤ height → height ≤ stop → s.heightMap.hashes height = some x →
    ∃ block, s.blockStore.db.block x = some block ∧ block.headerHash = x ∧ block.height = height

/-- The state with an empty `block_cache`. -/
def withEmptyBlockCache : Blockchain :=
  { s with blockStore := { s.blockStore with blockCache := fun _ => none } }

variable {s}

/-- **The cache pass.** Started on its own copy, the loop leaves in `hashes` exactly the
uncached hashes and appends the cached blocks in order; every `list.remove` finds its
hash. -/
theorem takeCached_eq (cache : Bytes32 → Option FullBlock) :
    ∀ (rest prefix_ : List Bytes32) (blocks : List FullBlock), (∀ x ∈ prefix_, cache x = none) →
      takeCached cache rest (prefix_ ++ rest) blocks =
        .ok (prefix_ ++ rest.filter (fun x => (cache x).isNone), blocks ++ rest.filterMap cache)
  | [], prefix_, blocks, _ => by simp [takeCached]
  | x :: rest, prefix_, blocks, hpre => by
    rw [takeCached]
    cases hx : cache x with
    | some block =>
      have hxp : x ∉ prefix_ := fun h => by rw [hpre x h] at hx; cases hx
      dsimp only
      rw [if_pos (List.mem_append_right _ (List.mem_cons_self _ _)),
        List.erase_append_right _ hxp, List.erase_cons_head, takeCached_eq cache rest prefix_ _ hpre]
      simp [hx]
    | none =>
      dsimp only
      rw [show prefix_ ++ x :: rest = (prefix_ ++ [x]) ++ rest by simp,
        takeCached_eq cache rest (prefix_ ++ [x]) blocks fun y hy =>
          (List.mem_append.mp hy).elim (hpre y) fun h => by rw [List.mem_singleton.mp h, hx]]
      simp [hx]

/-- **The fork check passes** for blocks that the height map names at their heights, with
distinct header hashes not yet in the dictionary: each is added, in order. -/
theorem collectHeaders_entries :
    ∀ (blocks : List FullBlock) (headerBlocks : HeaderBlocks),
      (∀ b ∈ blocks, s.heightToHash b.height = some b.headerHash) →
      (blocks.map (·.headerHash)).Nodup → (∀ b ∈ blocks, b.headerHash ∉ headerBlocks) →
      ∃ m, s.collectHeaders blocks headerBlocks = .ok m ∧
        m.entries = (blocks.map fun b => (⟨b.headerHash, getBlockHeader b⟩ : Σ _ : Bytes32, HeaderBlock)).reverse ++
          headerBlocks.entries
  | [], headerBlocks, _, _, _ => ⟨headerBlocks, rfl, rfl⟩
  | b :: blocks, headerBlocks, hcheck, hnd, hfresh => by
    obtain ⟨hb, hbs⟩ := List.forall_mem_cons.mp hcheck
    obtain ⟨hbn, hnd⟩ := List.nodup_cons.mp hnd
    obtain ⟨hbf, hfresh⟩ := List.forall_mem_cons.mp hfresh
    obtain ⟨m, hm, hentries⟩ := collectHeaders_entries blocks
      (headerBlocks.insert b.headerHash (getBlockHeader b)) hbs hnd fun b' hb' hmem =>
        ((AList.mem_insert _).mp hmem).elim
          (fun he => hbn (List.mem_map.mpr ⟨b', hb', he⟩)) (hfresh b' hb')
    refine ⟨m, ?_, ?_⟩
    · rw [collectHeaders, if_neg (not_not.mpr hb)]
      exact hm
    · rw [hentries, AList.insert_entries_of_neg hbf]
      simp

variable {reads : BatchReads} {start stop : ℕ}

/-- A hash of the range is the header hash of a stored block that the height map names at
its own height. -/
theorem NamesStoredBlocks.stored (hnames : s.NamesStoredBlocks start stop) {x : Bytes32}
    (hx : x ∈ s.rangeHashes start stop) :
    ∃ block, s.blockStore.db.block x = some block ∧ block.headerHash = x ∧
      s.heightToHash block.height = some x := by
  obtain ⟨height, hh, hx⟩ := List.mem_filterMap.mp hx
  obtain ⟨h1, h2⟩ := List.mem_range'_1.mp hh
  rw [heightToHash_eq] at hx
  obtain ⟨block, hb, hbx, hbh⟩ := hnames height x h1 (by omega) hx
  exact ⟨block, hb, hbx, by rw [hbh, heightToHash_eq, hx]⟩

/-- The range names each hash once: the blocks of two heights differ. -/
theorem NamesStoredBlocks.nodup (hnames : s.NamesStoredBlocks start stop) :
    (s.rangeHashes start stop).Nodup := by
  refine (List.Pairwise.and_mem.mp (List.nodup_range' _ _)).filterMap _ ?_
  rintro a a' ⟨ha, ha', hne⟩ x hx x' hx' rfl
  obtain ⟨ha1, ha2⟩ := List.mem_range'_1.mp ha
  obtain ⟨ha1', ha2'⟩ := List.mem_range'_1.mp ha'
  rw [heightToHash_eq] at hx hx'
  obtain ⟨b, hb, -, hbh⟩ := hnames a x ha1 (by omega) hx
  obtain ⟨b', hb', -, hbh'⟩ := hnames a' x ha1' (by omega) hx'
  rw [hb] at hb'
  cases hb'
  exact hne (hbh.symm.trans hbh')

/-- **The cached blocks and the blocks from disk are the stored blocks of the range**, the
cached ones first. -/
theorem cached_append_disk_perm (hcache : s.blockStore.CacheHoldsStoredBlocks) (L : List Bytes32) :
    (L.filterMap s.blockStore.blockCache ++
      (L.filter fun x => (s.blockStore.blockCache x).isNone).filterMap s.blockStore.db.block).Perm
      (L.filterMap s.blockStore.db.block) := by
  have hc : L.filterMap s.blockStore.blockCache =
      (L.filter fun x => (s.blockStore.blockCache x).isSome).filterMap s.blockStore.db.block := by
    rw [List.filterMap_filter]
    refine List.filterMap_congr fun x _ => ?_
    cases hx : s.blockStore.blockCache x with
    | none => rfl
    | some b => exact (hcache x b hx).1.symm
  have hnone : (fun x => !(s.blockStore.blockCache x).isSome) =
      fun x => (s.blockStore.blockCache x).isNone :=
    funext fun x => by cases s.blockStore.blockCache x <;> rfl
  rw [hc, ← List.filterMap_append]
  exact List.Perm.filterMap _ (hnone ▸ List.filter_append_perm _ L)

/-- **`get_header_blocks_in_range` returns the headers of the range's stored blocks.** When
the cache holds stored blocks under their own hashes, the height map names in
`[start, stop]` stored blocks of those heights and `get_blocks_by_hash` returns stored
blocks in order, the dictionary is `storedHeadersInRange`, whatever the cache holds. -/
theorem getHeaderBlocksInRange_perm (hcache : s.blockStore.CacheHoldsStoredBlocks)
    (hnames : s.NamesStoredBlocks start stop) (hreads : reads.ReturnsStoredBlocks s.blockStore.db) :
    ∃ m, s.getHeaderBlocksInRange reads start stop = .ok m ∧
      m.entries.Perm (s.storedHeadersInRange start stop) := by
  have htake := takeCached_eq s.blockStore.blockCache (s.rangeHashes start stop) [] []
    fun _ h => absurd h (List.not_mem_nil _)
  simp only [List.nil_append] at htake
  have hdisk := hreads ((s.rangeHashes start stop).filter fun x => (s.blockStore.blockCache x).isNone)
    fun x hx => by obtain ⟨b, hb, -⟩ := hnames.stored (List.mem_filter.mp hx).1; rw [hb]; rfl
  have hperm := cached_append_disk_perm hcache (s.rangeHashes start stop)
  have hkeys : ((s.rangeHashes start stop).filterMap s.blockStore.db.block).map (·.headerHash) =
      s.rangeHashes start stop := by
    rw [List.map_filterMap]
    conv_rhs => rw [← List.filterMap_some (s.rangeHashes start stop)]
    refine List.filterMap_congr fun x hx => ?_
    obtain ⟨b, hb, hbx, -⟩ := hnames.stored hx
    rw [hb, Option.map_some', hbx]
  obtain ⟨m, hm, hentries⟩ := s.collectHeaders_entries _ ∅
    (fun b hb => by
      obtain ⟨x, hx, hxb⟩ := List.mem_filterMap.mp (hperm.mem_iff.mp hb)
      obtain ⟨b', hb', hbx, hbh⟩ := hnames.stored hx
      rw [hb'] at hxb
      cases hxb
      rw [hbh, hbx])
    ((hperm.map _).nodup_iff.mpr (by rw [hkeys]; exact hnames.nodup))
    (fun _ _ => AList.not_mem_empty _)
  refine ⟨m, ?_, ?_⟩
  · simp only [getHeaderBlocksInRange, htake, bind_ok, hdisk]
    exact hm
  · rw [hentries, AList.empty_entries, List.append_nil]
    refine (List.reverse_perm _).trans ((hperm.map _).trans (List.Perm.of_eq ?_))
    rw [storedHeadersInRange, List.map_filterMap]
    refine List.filterMap_congr fun x hx => ?_
    obtain ⟨b, hb, hbx, -⟩ := hnames.stored hx
    rw [hb, ← hbx]
    rfl

/-- The dictionary's keys are the range's hashes. -/
theorem NamesStoredBlocks.keys (hnames : s.NamesStoredBlocks start stop) :
    (s.storedHeadersInRange start stop).map (·.1) = s.rangeHashes start stop := by
  rw [storedHeadersInRange, List.map_filterMap]
  conv_rhs => rw [← List.filterMap_some (s.rangeHashes start stop)]
  refine List.filterMap_congr fun x hx => ?_
  obtain ⟨b, hb, -⟩ := hnames.stored hx
  rw [hb]
  rfl

/-- **`get_header_blocks_in_range` returns the same dictionary with and without the
cache.** Take a `block_cache` that holds stored blocks under their own header hashes, a
range `[start, stop]` at whose heights the height map names stored blocks of those heights,
and a `get_blocks_by_hash` that returns stored blocks in order. Then the call returns the
dictionary from each hash of the range to the header of its stored block, each hash once;
with an empty cache it returns the same dictionary. -/
theorem getHeaderBlocksInRange_stored (hcache : s.blockStore.CacheHoldsStoredBlocks)
    (hnames : s.NamesStoredBlocks start stop) (hreads : reads.ReturnsStoredBlocks s.blockStore.db) :
    (∃ m, s.getHeaderBlocksInRange reads start stop = .ok m ∧
      m.entries.Perm (s.storedHeadersInRange start stop)) ∧
    (∃ m₀, s.withEmptyBlockCache.getHeaderBlocksInRange reads start stop = .ok m₀ ∧
      m₀.entries.Perm (s.storedHeadersInRange start stop)) ∧
    (s.storedHeadersInRange start stop).map (·.1) = s.rangeHashes start stop ∧
    (s.rangeHashes start stop).Nodup :=
  ⟨getHeaderBlocksInRange_perm hcache hnames hreads,
    @getHeaderBlocksInRange_perm s.withEmptyBlockCache reads start stop (fun _ _ h => by cases h)
      hnames hreads,
    hnames.keys, hnames.nodup⟩

/-- A store whose batch reads return the stored records and blocks of their hashes. -/
def storedReads (db : StoreData) : BatchReads :=
  ⟨fun hs => .ok (hs.filterMap db.record), fun hs => .ok (hs.filterMap db.block)⟩

/-- `threeBlockChain` with only the block `2` in `block_cache`. -/
def threeBlocksOneCached : Blockchain :=
  { threeBlockChain with blockStore := { threeBlockChain.blockStore with
    blockCache := fun x => if x = 2 then threeBlockChain.blockStore.db.block 2 else none } }

/-- On the chain `1 ← 2 ← 3` with `2` cached, the range `[0, 2]` meets the conditions. -/
theorem threeBlocksOneCached_header_blocks :
    threeBlocksOneCached.blockStore.CacheHoldsStoredBlocks ∧
      threeBlocksOneCached.NamesStoredBlocks 0 2 ∧
      (storedReads threeBlocksOneCached.blockStore.db).ReturnsStoredBlocks
        threeBlocksOneCached.blockStore.db ∧
      ((∃ m, threeBlocksOneCached.getHeaderBlocksInRange
          (storedReads threeBlocksOneCached.blockStore.db) 0 2 = .ok m ∧
        m.entries.Perm (threeBlocksOneCached.storedHeadersInRange 0 2)) ∧
      (∃ m₀, threeBlocksOneCached.withEmptyBlockCache.getHeaderBlocksInRange
          (storedReads threeBlocksOneCached.blockStore.db) 0 2 = .ok m₀ ∧
        m₀.entries.Perm (threeBlocksOneCached.storedHeadersInRange 0 2)) ∧
      (threeBlocksOneCached.storedHeadersInRange 0 2).map (·.1) =
        threeBlocksOneCached.rangeHashes 0 2 ∧
      (threeBlocksOneCached.rangeHashes 0 2).Nodup) := by
  have hb2 : threeBlockChain.blockStore.db.block 2 = some (sampleBlock 2 1 1 2 none) := by decide
  have hcache : threeBlocksOneCached.blockStore.CacheHoldsStoredBlocks := fun x b h => by
    by_cases hx : x = 2
    · subst hx
      change threeBlockChain.blockStore.db.block 2 = some b at h
      rw [hb2] at h
      cases h
      exact ⟨hb2, rfl⟩
    · change (if x = 2 then _ else none) = some b at h
      rw [if_neg hx] at h
      cases h
  have hrows : ∀ height ≤ 2, threeBlocksOneCached.heightMap.hashes height = some (height + 1) ∧
      threeBlocksOneCached.blockStore.db.block (height + 1) =
        some (sampleBlock (height + 1) height height (height + 1) none) := by
    decide
  have hnames : threeBlocksOneCached.NamesStoredBlocks 0 2 := fun height x _ h2 hx => by
    obtain ⟨hh, hb⟩ := hrows height h2
    rw [hh] at hx
    cases hx
    exact ⟨_, hb, rfl, rfl⟩
  exact ⟨hcache, hnames, fun _ _ => rfl, getHeaderBlocksInRange_stored hcache hnames fun _ _ => rfl⟩

/-- The state a failed genesis commit leaves (`genesisCommitFails`), with its
`block_cache` emptied: the only cache content that is a subset of the stored blocks. -/
def commitFailureState : Blockchain := genesisCommitFails.1.withEmptyBlockCache

/-- After the failed commit the height map names the block `1` at height `0`, but the store
holds no block. Whatever `get_blocks_by_hash` does, as long as it returns only stored
blocks, `get_header_blocks_in_range(0, 0)` either raises or returns a dictionary without
an entry for `height_to_hash(0)`. -/
theorem getHeaderBlocksInRange_after_commit_failure :
    commitFailureState.heightToHash 0 = some 1 ∧
      commitFailureState.blockStore.db.fullBlocks.entries = [] ∧
      ∀ reads : BatchReads, (∀ hs blocks, reads.getBlocksByHash hs = .ok blocks →
        ∀ b ∈ blocks, commitFailureState.blockStore.db.block b.headerHash = some b) →
        ∀ m, commitFailureState.getHeaderBlocksInRange reads 0 0 = .ok m → m.lookup 1 = none := by
  have hempty : commitFailureState.blockStore.db.fullBlocks.entries = [] := by decide
  refine ⟨by decide, hempty, fun reads hr m hm => ?_⟩
  have hrange : commitFailureState.rangeHashes 0 0 = [1] := by decide
  have htake : takeCached commitFailureState.blockStore.blockCache [1] [1] [] = .ok ([1], []) := rfl
  simp only [getHeaderBlocksInRange, hrange, htake, bind_ok] at hm
  obtain ⟨blocks, hbl, hm⟩ := bind_eq_ok hm
  have hnil : blocks = [] := List.eq_nil_iff_forall_not_mem.mpr fun b hb => by
    have h := hr _ _ hbl b hb
    simp [StoreData.block, AList.lookup, hempty] at h
  subst hnil
  cases hm
  rfl

end HeaderBlocks

end Blockchain

end CorpochainBeacon
