import CorpochainBeacon.CacheCleaning
import CorpochainBeacon.Restart

/-!
# The peak survives the cache operations

The full node interleaves `receive_block` with `clean_block_records`, which evicts the
records more than `BLOCKS_CACHE_SIZE` below the peak, and with `warmup`, which loads stored
records back. The consistency invariant of the fault-free runs does not survive the
evictions (the store keeps every row, the cache does not), and after a reorg onto a shorter
chain the peak's recent ancestors may be gone (`reorg_after_clean_misses_peak_ancestor`).
What does survive, with header hashes as content addresses (`heightOf`):

* `PeakCached` — the height map names a cached record of height `_peak_height` there, no
  record is cached before the first peak, the store holds every cached record under its
  hash, and the map names stored blocks only, at their heights;
* one preservation lemma per operation: `receive_block` with no store fault (also when the
  walk of `_reconsider_peak` stops at once because the map still names an evicted block),
  `clean_block_records` (for `BLOCKS_CACHE_SIZE > 0`, else it evicts the peak) and `warmup`;
* **`getPeak_of_nodeRun`** — along every interleaving of these operations from the empty
  chain, `get_peak` returns the cached record at `_peak_height`, and `clean_block_records`
  never raises (its assertion that there is a peak holds);
* **`warmup_caches_window`** — in every such state, `warmup(fork_point)` caches the block the
  map names at each height of `[fork_point - BLOCKS_CACHE_SIZE, fork_point]`, which is the
  reload that `receive_block` does not do before a reorg.
-/

namespace CorpochainBeacon

namespace BlockHeightMap

variable {heightOf : Bytes32 → ℕ}

/-- Replaying records of their hashes' heights keeps a map that names hashes at their
heights. -/
theorem replay_heights {m : BlockHeightMap} (hm : ∀ k x, m.hashes k = some x → heightOf x = k) :
    ∀ {records : List BlockRecord}, (∀ r ∈ records, r.height = heightOf r.headerHash) →
      ∀ k x, (m.replay records).hashes k = some x → heightOf x = k
  | [], _ => hm
  | r :: rs, hr => by
    obtain ⟨hr₀, hrs⟩ := List.forall_mem_cons.mp hr
    refine replay_heights (m := m.updateHeight r.height r.headerHash r.subEpochSummaryIncluded)
      (fun k x hk => ?_) hrs
    rw [updateHeight_hashes] at hk
    split at hk
    · cases hk; rw [← hr₀, ‹k = r.height›]
    · exact hm k x hk

theorem rollback_heights {m : BlockHeightMap} (hm : ∀ k x, m.hashes k = some x → heightOf x = k)
    (f : ℕ) : ∀ k x, (m.rollback f).hashes k = some x → heightOf x = k := fun k x hk => by
  rw [rollback_hashes] at hk
  split at hk
  · exact hm k x hk
  · cases hk

/-- The last record replayed is named at its height. -/
theorem replay_append_hashes (m : BlockHeightMap) (rs : List BlockRecord) (r : BlockRecord) :
    (m.replay (rs ++ [r])).hashes r.height = some r.headerHash := by
  rw [replay_append_singleton, updateHeight_hashes, if_pos rfl]

end BlockHeightMap

namespace Blockchain

variable {cc : Collaborators} {constants : ConsensusConstants} {heightOf : Bytes32 → ℕ}
  {s s' : Blockchain}

/-- What the node's cache operations keep: the height map names a cached record of height
`_peak_height` there, and nothing is cached before the first peak; the store's rows are
keyed by their records' hashes and hold every cached record, and the map names stored
blocks only, every hash at its height. -/
structure PeakCached (heightOf : Bytes32 → ℕ) (s : Blockchain) : Prop where
  keyed : ∀ x e, s.blockStore.db.fullBlocks.lookup x = some e → e.2.headerHash = x
  cachedStored : ∀ x r, s.view x = some r → s.blockStore.db.record x = some r
  mapStored : ∀ k x, s.heightMap.hashes k = some x → ∃ r, s.blockStore.db.record x = some r
  mapHeights : ∀ k x, s.heightMap.hashes k = some x → heightOf x = k
  noPeak : s.peakHeight = none → ∀ x, s.view x = none
  peak : ∀ p, s.peakHeight = some p →
    ∃ peak, s.heightMap.hashes p = some peak.headerHash ∧ s.view peak.headerHash = some peak ∧
      peak.height = p

theorem PeakCached.empty : Blockchain.empty.PeakCached heightOf where
  keyed _ _ h := by cases h
  cachedStored _ _ h := by cases h
  mapStored _ _ h := by cases h
  mapHeights _ _ h := by cases h
  noPeak _ _ := rfl
  peak _ h := by cases h

/-- An operation that keeps the store, the map and `_peak_height`, only evicts records, and
keeps the peak's keeps the invariant. -/
theorem PeakCached.of_sub (hp : s.PeakCached heightOf) (hd : s'.blockStore.db = s.blockStore.db)
    (hm : s'.heightMap = s.heightMap) (hpk : s'.peakHeight = s.peakHeight)
    (hsub : ∀ x r, s'.view x = some r → s.view x = some r)
    (hkeep : ∀ peak, s.view peak.headerHash = some peak →
      (∃ p, s.peakHeight = some p ∧ peak.height = p) → s'.view peak.headerHash = some peak) :
    s'.PeakCached heightOf where
  keyed := hd ▸ hp.keyed
  cachedStored x r hx := hd ▸ hp.cachedStored x r (hsub x r hx)
  mapStored := hd ▸ hm ▸ hp.mapStored
  mapHeights := hm ▸ hp.mapHeights
  noPeak h x := by
    cases hx : s'.view x with
    | none => rfl
    | some r =>
      have := hsub x r hx
      rw [hp.noPeak (hpk ▸ h) x] at this
      cases this
  peak p h := by
    obtain ⟨peak, hmp, hv, hh⟩ := hp.peak p (hpk ▸ h)
    exact ⟨peak, hm ▸ hmp, hkeep peak hv ⟨p, hpk ▸ h, hh⟩, hh⟩

/-! ## `receive_block` -/

/-- The store a transaction leaves holds the new record under its hash, and the other
records as before. -/
theorem storeWrites_record {faults : StoreFaults} {block : FullBlock} {rec : BlockRecord}
    {genesis : Bool} {hint : Option ℕ} {work : BlockStore} {records : List BlockRecord}
    {summary : Option StateChangeSummary} (hh : rec.headerHash = block.headerHash)
    (hw : s.storeWrites cc faults block rec genesis hint = .ok (work, records, summary)) :
    work.db.record = Function.update s.blockStore.db.record rec.headerHash (some rec) := by
  have : work.db.record = StoreData.record
      { s.blockStore.db with fullBlocks := s.blockStore.db.fullBlocks.insert block.headerHash (block, rec) } := by
    funext x; simp only [StoreData.record, storeWrites_rows hw]
  rw [this, StoreData.record_insert, hh]

/-- The records a transaction replays are records of its store's rows. -/
theorem storeWrites_records_rows {faults : StoreFaults} {block : FullBlock} {rec : BlockRecord}
    {genesis : Bool} {hint : Option ℕ} {work : BlockStore} {records : List BlockRecord}
    {summary : Option StateChangeSummary}
    (hw : s.storeWrites cc faults block rec genesis hint = .ok (work, records, summary)) :
    ∀ r ∈ records, ∃ x e, work.db.fullBlocks.lookup x = some e ∧ e.2 = r := by
  have hrows := storeWrites_rows hw
  obtain ⟨work₀, hadd, hw⟩ := bind_eq_ok hw
  have hrows₀ : work₀.db.fullBlocks = work.db.fullBlocks :=
    (BlockStore.addFullBlock_rows _ _ hadd).trans hrows.symm
  rcases reconsiderPeak_cases hw with ⟨-, -, rfl, -⟩ | ⟨-, rfl, -⟩ | ⟨-, peak, L, -, -, hL, rfl, -⟩
  · -- the first genesis block: its own row
    intro r hr
    rw [List.mem_singleton.mp hr]
    exact ⟨block.headerHash, (block, rec), by rw [hrows, AList.lookup_insert], rfl⟩
  · simp
  · -- the walk: rows of the store
    obtain ⟨L', rfl, hLrows, -⟩ := backtrack_rows hL
    intro r hr
    obtain ⟨e, he, rfl⟩ := List.mem_map.mp hr
    obtain ⟨x, hx⟩ := hLrows e (by simpa using he)
    exact ⟨x, e, hrows₀ ▸ hx, rfl⟩

/-- The rows a transaction leaves have their hashes' heights, the new one included. -/
theorem storeWrites_rows_heights (hi : s.CacheIndex heightOf) {faults : StoreFaults}
    {block : FullBlock} {rec : BlockRecord} {genesis : Bool} {hint : Option ℕ} {work : BlockStore}
    {records : List BlockRecord} {summary : Option StateChangeSummary}
    (hrh : rec.height = heightOf rec.headerHash)
    (hw : s.storeWrites cc faults block rec genesis hint = .ok (work, records, summary)) :
    ∀ x e, work.db.fullBlocks.lookup x = some e → e.2.height = heightOf e.2.headerHash :=
  fun x e hx => by
    rw [storeWrites_rows hw] at hx
    by_cases hxb : x = block.headerHash
    · subst hxb; rw [AList.lookup_insert] at hx; cases hx; exact hrh
    · rw [AList.lookup_insert_ne hxb] at hx; exact hi.stored x e hx

/-- **The peak after a committed transaction** is the old one, still cached (an orphan),
or the block's record: the walk of `_reconsider_peak` replays it last, or stops at once
because the map already names the block, at its own height. -/
theorem PeakCached.committed_peak (hp : s.PeakCached heightOf) {block : FullBlock} {ri : ℕ}
    {rec : BlockRecord} {hint : Option ℕ} {work : BlockStore} {records : List BlockRecord}
    {summary : Option StateChangeSummary} (ha : s.Admits block)
    (hrec : blockToBlockRecord cc s.view ri block none = .ok rec)
    (hrh : rec.height = heightOf rec.headerHash)
    (hw : s.storeWrites cc .none block rec (decide (block.height = 0)) hint =
      .ok (work, records, summary)) (p : ℕ)
    (h : (s.committed rec records summary work).peakHeight = some p) :
    ∃ peak, (s.committed rec records summary work).heightMap.hashes p = some peak.headerHash ∧
      (s.committed rec records summary work).view peak.headerHash = some peak ∧ peak.height = p := by
  obtain ⟨hh, -⟩ := blockToBlockRecord_fields cc hrec
  have hnew := ha.view_eq_none hrec
  obtain ⟨work₀, hadd, hw⟩ := bind_eq_ok hw
  rw [committed_peakHeight] at h
  rcases reconsiderPeak_cases hw with ⟨-, -, rfl, rfl, -⟩ | ⟨-, rfl, rfl, peak, hpk, -⟩ |
      ⟨-, peak, L, -, -, hL, rfl, rfl, -⟩
  · -- the first genesis block: replayed last
    obtain rfl : rec.height = p := Option.some.inj h
    exact ⟨rec, by simpa using BlockHeightMap.replay_append_hashes _ [] rec, by simp, rfl⟩
  · -- an orphan: the peak stays cached
    obtain ⟨peak', hmp, hv, hph⟩ := hp.peak p h
    refine ⟨peak', hmp, ?_, hph⟩
    rw [committed_view, Function.update_noteq fun he => (by rw [he, hnew] at hv; cases hv), hv]
  -- a heavier block: the walk replays it last, or stops at once at it
  obtain rfl : rec.height = p := Option.some.inj h
  refine ⟨rec, ?_, by simp, rfl⟩
  rw [committed_heightMap]
  obtain ⟨L', rfl, -, hhead⟩ := backtrack_rows hL
  by_cases hstop : StopsAt s (s.forkHeight cc rec peak hint) rec.headerHash
  · obtain ⟨h0, hmap⟩ := hstop
    rw [heightToHash_eq] at hmap
    have hF : rec.height = (s.forkHeight cc rec peak hint).toNat := by
      rw [hrh]; exact hp.mapHeights _ _ hmap
    rw [backtrack_stop ⟨h0, by rwa [heightToHash_eq]⟩] at hL
    cases hL
    simp only [List.nil_append, List.reverse_nil, List.map_nil, BlockHeightMap.replay_nil,
      BlockHeightMap.rollback_hashes, max_eq_left h0, ← hF, le_refl, if_true]
    rwa [hF]
  · obtain ⟨e, rest, he, rfl⟩ := hhead hstop
    have he' : e = (block, rec) := by
      rw [BlockStore.addFullBlock_rows _ _ hadd, ← hh, AList.lookup_insert] at he
      exact (Option.some.inj he).symm
    subst he'
    rw [List.reverse_cons, List.map_append]
    exact BlockHeightMap.replay_append_hashes _ _ rec

/-- **A committed transaction keeps the invariant.** -/
theorem PeakCached.commit (hp : s.PeakCached heightOf) (hi : s.CacheIndex heightOf)
    {block : FullBlock} {ri : ℕ} {rec : BlockRecord} {hint : Option ℕ} {work : BlockStore}
    {records : List BlockRecord} {summary : Option StateChangeSummary}
    (ha : s.Admits block) (hrec : blockToBlockRecord cc s.view ri block none = .ok rec)
    (hb : block.height = heightOf block.headerHash)
    (hw : s.storeWrites cc .none block rec (decide (block.height = 0)) hint =
      .ok (work, records, summary)) :
    (s.committed rec records summary work).PeakCached heightOf := by
  obtain ⟨hh, -, hht, -⟩ := blockToBlockRecord_fields cc hrec
  have hrh : rec.height = heightOf rec.headerHash := by rw [hht, hh, hb]
  have hnew := ha.view_eq_none hrec
  have hrecord := storeWrites_record hh hw
  have hrows := storeWrites_records_rows hw
  refine ⟨fun x e hx => ?_, fun x r hx => ?_, fun k x hk => ?_, fun k x hk => ?_, fun h => ?_,
    hp.committed_peak ha hrec hrh hw⟩
  · -- the new row is keyed by the block's hash
    change work.db.fullBlocks.lookup x = some e at hx
    rw [storeWrites_rows hw] at hx
    by_cases hxb : x = block.headerHash
    · subst hxb; rw [AList.lookup_insert] at hx; cases hx; exact hh
    · rw [AList.lookup_insert_ne hxb] at hx; exact hp.keyed x e hx
  · -- the new record is stored, the old ones still are
    change work.db.record x = some r
    rw [hrecord]
    rcases committed_view_eq_some hx with ⟨rfl, rfl⟩ | hx
    · exact Function.update_same _ _ _
    · rw [Function.update_noteq fun he => by rw [he, hnew] at hx; cases hx]
      exact hp.cachedStored x r hx
  · -- the map names blocks it named before, still stored, or replayed rows
    change ∃ r, work.db.record x = some r
    rw [hrecord]
    rw [committed_heightMap] at hk
    rcases BlockHeightMap.replay_hashes_mem _ hk with hk | ⟨r, hr, rfl⟩
    · by_cases hx : x = rec.headerHash
      · exact ⟨rec, by rw [hx, Function.update_same]⟩
      rw [Function.update_noteq hx]
      cases summary
      · exact hp.mapStored k x hk
      · rw [BlockHeightMap.rollback_hashes] at hk
        split at hk
        · exact hp.mapStored _ x hk
        · cases hk
    · obtain ⟨y, e, hy, rfl⟩ := hrows r hr
      have hky : e.2.headerHash = y := by
        rw [storeWrites_rows hw] at hy
        by_cases hyb : y = block.headerHash
        · subst hyb; rw [AList.lookup_insert] at hy; cases hy; exact hh
        · rw [AList.lookup_insert_ne hyb] at hy; exact hp.keyed y e hy
      rw [← hrecord, hky]
      exact ⟨e.2, by simp [StoreData.record, hy]⟩
  · -- the map is rolled back and replayed with rows, of their hashes' heights
    rw [committed_heightMap] at hk
    refine BlockHeightMap.replay_heights ?_ (fun r hr => ?_) k x hk
    · cases summary
      · exact hp.mapHeights
      · exact BlockHeightMap.rollback_heights hp.mapHeights _
    · obtain ⟨y, e, hy, rfl⟩ := hrows r hr
      exact storeWrites_rows_heights hi hrh hw y e hy
  · -- an orphan needs a peak; a state change sets one
    obtain ⟨work₀, -, hw⟩ := bind_eq_ok hw
    rw [committed_peakHeight] at h
    rcases reconsiderPeak_cases hw with ⟨-, -, -, rfl, -⟩ | ⟨-, -, rfl, peak, hpk, -⟩ |
        ⟨-, peak, L, -, -, -, -, rfl, -⟩
    · simp at h
    · rw [getPeak_of_none (show s.peakHeight = none from h)] at hpk
      cases hpk
    · simp at h

/-- **`receive_block` with no store fault keeps the invariant** on every exit, for a block of
its hash's height. -/
theorem PeakCached.receiveBlock (hp : s.PeakCached heightOf) (hi : s.CacheIndex heightOf)
    {block : FullBlock} {pvr : PreValidationResult} {hint : Option ℕ} {env : CallEnv}
    (hf : env.faults = .none) (hb : block.height = heightOf block.headerHash) :
    (s.receiveBlock cc block pvr hint env).1.PeakCached heightOf := by
  generalize h : s.receiveBlock cc block pvr hint env = call
  obtain ⟨s', r⟩ := call
  rcases receiveBlock_cases h with
    ⟨rfl, -, -⟩ | ⟨ri, rec, ec, body, ha, -, -, hrec, -, ⟨-, rfl, -⟩ | ⟨-, hadd⟩⟩
  · exact hp
  · exact hp.of_sub rfl rfl rfl (fun _ _ => id) fun _ h _ => h
  rcases addToDatabase_cases hadd with
    ⟨e, -, rfl, -⟩ | ⟨work, records, summary, hw, ⟨hc, -⟩ | ⟨-, rfl, -⟩⟩
  · -- aborted: only `block_cache` changed
    exact hp.of_sub rfl rfl rfl (fun _ _ => id) fun _ h _ => h
  · rw [hf] at hc; cases hc
  · rw [hf] at hw
    have hp₁ : ({ s with executionClient := ec } : Blockchain).PeakCached heightOf :=
      hp.of_sub rfl rfl rfl (fun _ _ => id) fun _ h _ => h
    exact hp₁.commit (hi.of_fields rfl rfl hi.stored) ha hrec hb hw

/-! ## `clean_block_records` and `warmup` -/

/-- The inner loop of `clean_block_record` changes the record cache only. -/
theorem deleteRecords_frame : ∀ (s : Blockchain) (xs : List Bytes32),
    ∃ br, (deleteRecords s xs).1 = { s with blockRecords := br }
  | s, [] => ⟨s.blockRecords, rfl⟩
  | s, x :: xs => by
    rw [deleteRecords]
    by_cases hx : x ∈ s.blockRecords
    · rw [if_pos hx]; exact deleteRecords_frame _ xs
    · rw [if_neg hx]; exact ⟨s.blockRecords, rfl⟩

/-- The loop of `clean_block_record` changes the record cache and its index only. -/
theorem cleanBlockRecordLoop_frame (height : ℕ) (s : Blockchain) :
    ∃ br hc, (cleanBlockRecordLoop height s).1 = { s with blockRecords := br, heightsInCache := hc } := by
  induction height, s using cleanBlockRecordLoop.induct with
  | case1 height s hxs => exact ⟨s.blockRecords, s.heightsInCache, by rw [cleanBlockRecordLoop, hxs]⟩
  | case2 height s xs hxs s₁ e hd =>
    -- the deletion raised
    obtain ⟨br, hbr⟩ := deleteRecords_frame s xs
    rw [hd] at hbr
    subst hbr
    exact ⟨br, s.heightsInCache, by rw [cleanBlockRecordLoop, hxs]; dsimp only; rw [hd]⟩
  | case3 s xs s₁ hd hxs =>
    -- height `0`: the last one
    obtain ⟨br, hbr⟩ := deleteRecords_frame s xs
    rw [hd] at hbr
    subst hbr
    exact ⟨br, _, by rw [cleanBlockRecordLoop, hxs]; dsimp only; rw [hd]⟩
  | case4 s xs s₁ hd n hxs s₂ ih =>
    -- on to the next height down
    obtain ⟨br, hbr⟩ := deleteRecords_frame s xs
    rw [hd] at hbr
    subst hbr
    obtain ⟨br', hc', h⟩ := ih
    exact ⟨br', hc', by rw [cleanBlockRecordLoop, hxs]; dsimp only; rw [hd]; exact h⟩

/-- What `clean_block_records` can do: return at once, fail its assertion that there is a
peak when the cache is full, or run the loop of `clean_block_record` from
`_peak_height - BLOCKS_CACHE_SIZE`. -/
theorem cleanBlockRecords_cases (s : Blockchain) :
    s.cleanBlockRecords constants = (s, .ok ()) ∨
    (constants.blocksCacheSize ≤ s.blockRecords.entries.length ∧ s.peakHeight = none ∧
      s.cleanBlockRecords constants = (s, .error .assertionError)) ∨
    ∃ p, s.peakHeight = some p ∧ constants.blocksCacheSize ≤ p ∧
      s.cleanBlockRecords constants = cleanBlockRecordLoop (p - constants.blocksCacheSize) s := by
  unfold Blockchain.cleanBlockRecords
  by_cases hlen : s.blockRecords.entries.length < constants.blocksCacheSize
  · exact .inl (if_pos hlen)
  rw [if_neg hlen]
  cases hpk : s.peakHeight with
  | none => exact .inr (.inl ⟨by omega, rfl, rfl⟩)
  | some p =>
    dsimp only
    by_cases hneg : (p : ℤ) - constants.blocksCacheSize < 0
    · exact .inl (if_pos hneg)
    refine .inr (.inr ⟨p, rfl, by omega, ?_⟩)
    rw [if_neg hneg, cleanBlockRecord, if_neg hneg, show ((p : ℤ) - constants.blocksCacheSize).toNat =
      p - constants.blocksCacheSize by omega]

/-- `clean_block_records` keeps `_peak_height`. -/
theorem cleanBlockRecords_peakHeight (s : Blockchain) :
    (s.cleanBlockRecords constants).1.peakHeight = s.peakHeight := by
  rcases cleanBlockRecords_cases s with h | ⟨-, -, h⟩ | ⟨p, -, -, h⟩ <;> rw [h]
  obtain ⟨br, hc, hfr⟩ := cleanBlockRecordLoop_frame (p - constants.blocksCacheSize) s
  rw [hfr]

/-- **`clean_block_records` keeps the invariant** when `BLOCKS_CACHE_SIZE > 0`: it evicts
records of heights at most `_peak_height - BLOCKS_CACHE_SIZE`, never the peak's. -/
theorem PeakCached.cleanBlockRecords (hp : s.PeakCached heightOf) (hi : s.CacheIndex heightOf)
    (hN : 0 < constants.blocksCacheSize) : (s.cleanBlockRecords constants).1.PeakCached heightOf := by
  rcases cleanBlockRecords_cases s with h | ⟨-, -, h⟩ | ⟨p, hpk, hle, h⟩
  · rw [h]; exact hp
  · rw [h]; exact hp
  rw [h]
  obtain ⟨br, hc, hfr⟩ := cleanBlockRecordLoop_frame (p - constants.blocksCacheSize) s
  have hv := hi.view_cleanBlockRecordLoop (p - constants.blocksCacheSize)
  refine hp.of_sub (by rw [hfr]) (by rw [hfr]) (by rw [hfr]) (fun x r hx => ((hv x r).mp hx).1)
    fun peak hpv ⟨p', hp', hh⟩ => (hv _ _).mpr ⟨hpv, fun hreach => ?_⟩
  -- the loop reaches down from below the peak's height
  rw [hpk] at hp'
  cases hp'
  have := hreach.1
  omega

/-- **`clean_block_records` never raises**: with a positive `BLOCKS_CACHE_SIZE` a full cache
holds a record, so there is a peak, and `clean_block_record` does not raise. -/
theorem PeakCached.cleanBlockRecords_ok (hp : s.PeakCached heightOf) (hi : s.CacheIndex heightOf)
    (hN : 0 < constants.blocksCacheSize) : (s.cleanBlockRecords constants).2 = .ok () := by
  rcases cleanBlockRecords_cases s with h | ⟨hlen, hpk, -⟩ | ⟨p, -, -, h⟩
  · rw [h]
  · -- a full cache holds a record, and records are cached only once there is a peak
    obtain ⟨⟨x, r⟩, he⟩ := List.exists_mem_of_length_pos (by omega : 0 < s.blockRecords.entries.length)
    have hx := hp.noPeak hpk x
    rw [view, AList.mem_lookup_iff.mpr he] at hx
    cases hx
  · rw [h]; exact (hi.cleanBlockRecordLoop _).1

theorem foldl_addBlockRecord_fields (t : Blockchain) (records : List BlockRecord) :
    (records.foldl addBlockRecord t).blockStore = t.blockStore ∧
      (records.foldl addBlockRecord t).peakHeight = t.peakHeight := by
  induction records generalizing t with
  | nil => exact ⟨rfl, rfl⟩
  | cons r rs ih => exact ih _

/-- The records `get_block_records_in_range` returns are stored under their hashes. -/
theorem PeakCached.inRange_stored (hp : s.PeakCached heightOf) {faults : StoreFaults}
    {start stop : ℕ} {records : List BlockRecord}
    (hr : s.blockStore.getBlockRecordsInRange faults start stop = .ok records) :
    ∀ q ∈ records, s.blockStore.db.record q.headerHash = some q := fun q hq => by
  rw [StoreFaults.run_eq_ok hr] at hq
  obtain ⟨e, he, rfl⟩ := List.mem_map.mp (List.mem_filter.mp hq).1
  have hl := AList.mem_lookup_iff.mpr he
  rw [hp.keyed _ _ hl, StoreData.record, hl]
  rfl

/-- A block the height map names at `k` is stored, with a record of height `k`. -/
theorem PeakCached.named_record (hp : s.PeakCached heightOf) (hi : s.CacheIndex heightOf)
    {k : ℕ} {x : Bytes32} (hx : s.heightMap.hashes k = some x) :
    ∃ r, s.blockStore.db.record x = some r ∧ r.headerHash = x ∧ r.height = k := by
  obtain ⟨r, hr⟩ := hp.mapStored k x hx
  obtain ⟨e, hl, rfl⟩ := Option.map_eq_some'.mp hr
  refine ⟨_, hr, hp.keyed x e hl, ?_⟩
  rw [hi.stored x e hl, hp.keyed x e hl, hp.mapHeights k x hx]

/-- **`warmup` keeps the invariant**: the records it loads are the store's, and the store
already held every cached record, the peak's among them. -/
theorem PeakCached.warmup (hp : s.PeakCached heightOf) (faults : StoreFaults) (forkPoint : ℕ) :
    (s.warmup constants faults forkPoint).1.PeakCached heightOf := by
  unfold Blockchain.warmup
  cases hpk : s.peakHeight with
  | none => exact hp
  | some p =>
    dsimp only
    cases hr : s.blockStore.getBlockRecordsInRange faults (forkPoint - constants.blocksCacheSize) forkPoint with
    | error e => exact hp
    | ok records =>
      dsimp only
      have hview := view_foldl_addBlockRecord s (hp.inRange_stored hr)
      have hcached : ∀ x r, s.view x = some r → (records.foldl addBlockRecord s).view x = some r :=
        fun x r hx => by rw [hview]; split <;> [exact hp.cachedStored x r hx; exact hx]
      obtain ⟨hbs, hph⟩ := foldl_addBlockRecord_fields s records
      refine ⟨hbs ▸ hp.keyed, fun x r hx => ?_,
        hbs ▸ (foldl_addBlockRecord_heightMap s records) ▸ hp.mapStored,
        (foldl_addBlockRecord_heightMap s records) ▸ hp.mapHeights,
        fun h => (by rw [hph, hpk] at h; cases h), fun p' h => ?_⟩
      · rw [hview] at hx
        rw [hbs]
        split at hx
        · exact hx
        · exact hp.cachedStored x r hx
      · obtain ⟨peak, hm, hv, hh⟩ := hp.peak p' (hph ▸ h)
        exact ⟨peak, (foldl_addBlockRecord_heightMap s records) ▸ hm, hcached _ _ hv, hh⟩

/-- **`warmup` loads the window.** With no store fault and a peak, after `warmup(fork_point)`
every block the height map names at a height of `[fork_point - BLOCKS_CACHE_SIZE, fork_point]`
is cached, so `height_to_block_record` returns its record there. -/
theorem PeakCached.warmup_window (hp : s.PeakCached heightOf) (hi : s.CacheIndex heightOf)
    (hpk : s.peakHeight ≠ none) (forkPoint : ℕ) :
    (s.warmup constants .none forkPoint).2 = .ok () ∧
    ∀ k x, forkPoint - constants.blocksCacheSize ≤ k → k ≤ forkPoint → s.heightToHash k = some x →
      ∃ r, (s.warmup constants .none forkPoint).1.heightToBlockRecord k = .ok r ∧
        r.headerHash = x ∧ r.height = k := by
  obtain ⟨p, hp'⟩ := Option.ne_none_iff_exists'.mp hpk
  set records := (s.blockStore.db.fullBlocks.entries.map fun e => e.2.2).filter
    fun r => forkPoint - constants.blocksCacheSize ≤ r.height ∧ r.height ≤ forkPoint
  have hr : s.blockStore.getBlockRecordsInRange .none (forkPoint - constants.blocksCacheSize)
      forkPoint = .ok records := rfl
  have hw : s.warmup constants .none forkPoint = (records.foldl addBlockRecord s, .ok ()) := by
    unfold Blockchain.warmup
    rw [hp']
    dsimp only
    rw [hr]
  refine ⟨by rw [hw], fun k x hk₁ hk₂ hx => ?_⟩
  rw [heightToHash_eq] at hx
  obtain ⟨r, hr', hrx, hrk⟩ := hp.named_record hi hx
  have hmem : r ∈ records :=
    List.mem_filter.mpr ⟨StoreData.mem_records.mpr ⟨x, hr'⟩, by simp [hrk, hk₁, hk₂]⟩
  have hv : (records.foldl addBlockRecord s).view x = some r := by
    rw [view_foldl_addBlockRecord s (hp.inRange_stored hr), if_pos ⟨r, hmem, hrx⟩, hr']
  refine ⟨r, ?_, hrx, hrk⟩
  rw [hw, heightToBlockRecord, heightToHash_eq, foldl_addBlockRecord_heightMap, hx]
  exact blockRecord_of_view hv

/-! ## Runs -/

/-- The states the full node reaches from the empty chain by its chain operations in any
order: `receive_block` with no store fault, for blocks of their hashes' heights,
`clean_block_records`, and `warmup` with any store faults. -/
inductive NodeRun (cc : Collaborators) (constants : ConsensusConstants) (heightOf : Bytes32 → ℕ) :
    Blockchain → Prop
  | empty : NodeRun cc constants heightOf .empty
  | receiveBlock {s : Blockchain} (d : Delivery) : NodeRun cc constants heightOf s →
      d.env.faults = .none → d.block.height = heightOf d.block.headerHash →
      NodeRun cc constants heightOf (s.deliver cc d).1
  | cleanBlockRecords {s : Blockchain} : NodeRun cc constants heightOf s →
      NodeRun cc constants heightOf (s.cleanBlockRecords constants).1
  | warmup {s : Blockchain} (faults : StoreFaults) (forkPoint : ℕ) : NodeRun cc constants heightOf s →
      NodeRun cc constants heightOf (s.warmup constants faults forkPoint).1

/-- The node's operations are record-cache operations: its runs keep the heights index. -/
theorem NodeRun.cacheRun (h : NodeRun cc constants heightOf s) : CacheRun heightOf s := by
  induction h with
  | empty => exact .empty
  | receiveBlock d _ _ hb ih => exact .receiveBlock cc d.block d.pvr d.hint d.env ih hb
  | cleanBlockRecords _ ih => exact .cleanBlockRecords constants ih
  | warmup faults forkPoint _ ih => exact .warmup constants faults forkPoint ih

theorem NodeRun.peakCached (hN : 0 < constants.blocksCacheSize) (h : NodeRun cc constants heightOf s) :
    s.PeakCached heightOf := by
  induction h with
  | empty => exact .empty
  | receiveBlock d hrun hf hb ih => exact ih.receiveBlock hrun.cacheRun.cacheIndex hf hb
  | cleanBlockRecords hrun ih => exact ih.cleanBlockRecords hrun.cacheRun.cacheIndex hN
  | warmup faults forkPoint _ ih => exact ih.warmup faults forkPoint

theorem NodeRun.receiveAll (hrun : NodeRun cc constants heightOf s) {ds : List Delivery}
    (hds : ∀ d ∈ ds, d.env.faults = .none ∧ d.block.height = heightOf d.block.headerHash) :
    NodeRun cc constants heightOf (receiveAll cc s ds) := by
  induction ds generalizing s with
  | nil => exact hrun
  | cons d ds ih =>
    obtain ⟨⟨hf, hb⟩, hds⟩ := List.forall_mem_cons.mp hds
    exact ih (.receiveBlock d hrun hf hb) hds

/-- **The peak survives the node's cache operations.** Along every interleaving of
`receive_block` calls with no store fault, `clean_block_records` and `warmup` from the empty
chain, with `BLOCKS_CACHE_SIZE > 0` and header hashes naming heights, `get_peak` returns
(once `_peak_height` is set; before, it returns `None`) the record cached under the hash the
height map names at `_peak_height`, of that height; and `clean_block_records` never raises.
This holds also after the reorg onto a shorter chain that leaves the peak's recent ancestors
evicted. -/
theorem getPeak_of_nodeRun (hN : 0 < constants.blocksCacheSize)
    (hrun : NodeRun cc constants heightOf s) :
    (∀ p, s.peakHeight = some p → ∃ peak, s.getPeak = .ok (some peak) ∧ peak.height = p ∧
      s.blockRecords.lookup peak.headerHash = some peak) ∧
    (s.cleanBlockRecords constants).2 = .ok () := by
  have hp := hrun.peakCached hN
  refine ⟨fun p h => ?_, hp.cleanBlockRecords_ok hrun.cacheRun.cacheIndex hN⟩
  obtain ⟨peak, hm, hv, hh⟩ := hp.peak p h
  exact ⟨peak, getPeak_of_hash h hm hv, hh, hv⟩

/-- `sixBlockChain` is a node run for every `heightOf` that gives block `i + 1` height `i`. -/
theorem sixBlockChain_nodeRun (heightOf : Bytes32 → ℕ) (h : ∀ i : ℕ, i < 6 → heightOf (i + 1) = i) :
    NodeRun sampleCollaborators sampleConstants heightOf sixBlockChain :=
  NodeRun.receiveAll .empty fun d hd => by
    obtain ⟨i, hi, rfl⟩ := List.mem_map.mp hd
    exact ⟨rfl, (h i (List.mem_range.mp hi)).symm⟩

/-- After the reorg of `7` onto `4` that follows `clean_block_records` on `sixBlockChain`,
where `height_to_block_record(2)` raises, `get_peak` still returns the cached record `7`. -/
theorem reorgAfterClean_peak_cached :
    (∀ p, reorgAfterClean.1.peakHeight = some p → ∃ peak,
      reorgAfterClean.1.getPeak = .ok (some peak) ∧ peak.height = p ∧
        reorgAfterClean.1.blockRecords.lookup peak.headerHash = some peak) ∧
    (reorgAfterClean.1.cleanBlockRecords sampleConstants).2 = .ok () :=
  getPeak_of_nodeRun (by decide)
    (show NodeRun sampleCollaborators sampleConstants (fun x => if x = 7 then 4 else x - 1)
        reorgAfterClean.1 from
      .receiveBlock ⟨sampleBlock 7 4 4 10 none, acceptedResult, none, ⟨validEngine, StoreFaults.none⟩⟩
        (.cleanBlockRecords (sixBlockChain_nodeRun _ fun i hi => by
          show (if i + 1 = 7 then 4 else i + 1 - 1) = i
          rw [if_neg (by omega)]
          rfl))
        rfl rfl)

/-- **`warmup` reloads the window in every node state.** Along every interleaving of the
node's operations from the empty chain, with `BLOCKS_CACHE_SIZE > 0` and header hashes
naming heights, once there is a peak, `warmup(fork_point)` with no store fault returns, and
afterwards `height_to_block_record` returns the stored record of the block the height map
names at each height of `[fork_point - BLOCKS_CACHE_SIZE, fork_point]`: the call that would
have kept the reorg after `clean_block_records` from raising `KeyError`. -/
theorem warmup_caches_window (hN : 0 < constants.blocksCacheSize)
    (hrun : NodeRun cc constants heightOf s) (hpk : s.peakHeight ≠ none) (forkPoint : ℕ) :
    (s.warmup constants .none forkPoint).2 = .ok () ∧
    ∀ k x, forkPoint - constants.blocksCacheSize ≤ k → k ≤ forkPoint → s.heightToHash k = some x →
      ∃ r, (s.warmup constants .none forkPoint).1.heightToBlockRecord k = .ok r ∧
        r.headerHash = x ∧ r.height = k :=
  (hrun.peakCached hN).warmup_window hrun.cacheRun.cacheIndex hpk forkPoint

/-- After `clean_block_records` on `sixBlockChain` evicted the blocks of heights `0` to `2`,
`warmup(4)` reloads heights `1` to `4`. -/
theorem sixBlocksCleaned_warmup_window :
    ((sixBlockChain.cleanBlockRecords sampleConstants).1.warmup sampleConstants .none 4).2 = .ok () ∧
    ∀ k x, 4 - sampleConstants.blocksCacheSize ≤ k → k ≤ 4 →
      (sixBlockChain.cleanBlockRecords sampleConstants).1.heightToHash k = some x →
      ∃ r, ((sixBlockChain.cleanBlockRecords sampleConstants).1.warmup sampleConstants .none 4).1.heightToBlockRecord
          k = .ok r ∧ r.headerHash = x ∧ r.height = k :=
  warmup_caches_window (by decide) (.cleanBlockRecords (sixBlockChain_nodeRun (· - 1) fun _ _ => rfl))
    (Option.ne_none_iff_exists'.mpr ⟨5, (cleanBlockRecords_peakHeight sixBlockChain).trans rfl⟩) 4

end Blockchain

end CorpochainBeacon
