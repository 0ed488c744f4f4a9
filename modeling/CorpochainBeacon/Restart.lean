import CorpochainBeacon.PeakChain

/-!
# The store agrees with memory, and a restart restores the chain

`receive_block` keeps two copies of the tip of the chain: in memory, `_peak_height` and the
height map; in the block store, the peak pointer and the `in_main_chain` flags. `create`
rebuilds the first from the second by `_load_chain_from_store`. Over every fault-free run
from the empty chain:

* `reconsiderPeak_marks` — `_reconsider_peak` leaves the store's peak and flags alone for an
  orphan, and otherwise points the peak at the block and flags the records it applies;
* `StoreAgrees` — the store's peak pointer names the peak, and every block of the height map
  is flagged in the main chain; **`store_peak_is_peak`** states it with the source's
  accessors;
* `view_foldl_addBlockRecord` — what caching a list of records leaves in the cache;
* **`loadChainFromStore_restores`** — restarting from the store and the flushed height map
  passes the asserts of `_load_chain_from_store` and gives back `_peak_height`, the height
  map and `get_peak()`, with exactly the stored records within `BLOCKS_CACHE_SIZE` of the
  peak cached;
* **`getFullPeak_of_run`** — `get_full_peak()` never fails its asserts: it returns the
  stored block of the peak;
* **`getBlockRecordFromDb_eq_store`** — the cache shortcut of `get_block_record_from_db`
  returns what the store returns.
-/

namespace CorpochainBeacon

namespace StoreData

/-- Modelled from the spec: `get_block_records_close_to_peak(blocks_n)` of the block store
(§4.B): the stored records of height at least the peak's minus `blocks_n`, and the peak's
hash; nothing when the store has no peak, or no row for it. -/
def getBlockRecordsCloseToPeak (db : StoreData) (blocksN : ℕ) : List BlockRecord × Option Bytes32 :=
  match db.peak with
  | none => ([], none)
  | some p =>
    match db.record p with
    | none => ([], none)
    | some pr =>
      ((db.fullBlocks.entries.map fun e => e.2.2).filter fun r => pr.height - blocksN ≤ r.height, some p)

/-- The records of the rows are the stored records. -/
theorem mem_records {db : StoreData} {q : BlockRecord} :
    q ∈ db.fullBlocks.entries.map (fun e => e.2.2) ↔ ∃ x, db.record x = some q := by
  constructor
  · intro hq
    obtain ⟨⟨x, fb, q⟩, he, rfl⟩ := List.mem_map.mp hq
    exact ⟨x, by rw [record, Option.mem_def.mp (AList.mem_lookup_iff.mpr he)]; rfl⟩
  · rintro ⟨x, hx⟩
    obtain ⟨⟨fb, q'⟩, hl, rfl⟩ := Option.map_eq_some'.mp hx
    exact List.mem_map.mpr ⟨⟨x, fb, q'⟩, AList.mem_lookup_iff.mp (Option.mem_def.mpr hl), rfl⟩

end StoreData

namespace BlockStore

variable {faults : StoreFaults} {bs bs' : BlockStore}

theorem addFullBlock_marks {x : Bytes32} {block : FullBlock} {rec : BlockRecord}
    (h : bs.addFullBlock faults x block rec = .ok bs') :
    bs'.db.peak = bs.db.peak ∧ bs'.db.inMainChain = bs.db.inMainChain ∧
      bs'.blockCache = Function.update bs.blockCache x (some block) := by
  rw [StoreFaults.run_eq_ok h]; exact ⟨rfl, rfl, rfl⟩

theorem setInChain_marks {hs : List Bytes32} (h : bs.setInChain faults hs = .ok bs') :
    bs'.db.peak = bs.db.peak ∧ bs'.db.inMainChain = (fun x => x ∈ hs || bs.db.inMainChain x) ∧
      bs'.blockCache = bs.blockCache := by
  rw [StoreFaults.run_eq_ok h]; exact ⟨rfl, rfl, rfl⟩

theorem setPeak_marks {x : Bytes32} (h : bs.setPeak faults x = .ok bs') :
    bs'.db.peak = some x ∧ bs'.db.inMainChain = bs.db.inMainChain ∧ bs'.blockCache = bs.blockCache := by
  rw [StoreFaults.run_eq_ok h]; exact ⟨rfl, rfl, rfl⟩

theorem rollback_marks {height : ℤ} (h : bs.rollback faults height = .ok bs') :
    bs'.db.peak = bs.db.peak ∧ bs'.db.inMainChain = bs.db.inMainChain ∧
      bs'.blockCache = bs.blockCache := by
  rw [StoreFaults.run_eq_ok h]; exact ⟨rfl, rfl, rfl⟩

end BlockStore

namespace Blockchain

variable {cc : Collaborators} {s : Blockchain} {faults : StoreFaults} {block : FullBlock}
  {rec : BlockRecord} {ri : ℕ} {genesis : Bool} {hint : Option ℕ} {work : BlockStore}
  {records : List BlockRecord} {summary : Option StateChangeSummary}

/-! ## The peak pointer and the main-chain flags -/

/-- What `_reconsider_peak` writes besides rows: for an orphan, nothing; otherwise it points
the store's peak at the block and flags the records it applies in the main chain. It never
touches `block_cache`. -/
theorem reconsiderPeak_marks {work' : BlockStore}
    (h : s.reconsiderPeak cc faults rec genesis hint work = .ok (work', records, summary)) :
    (summary = none ∧ records = [] ∧ work' = work) ∨
    ((∃ sc, summary = some sc) ∧ work'.db.peak = some rec.headerHash ∧
      work'.db.inMainChain = (fun x => x ∈ records.map (·.headerHash) || work.db.inMainChain x) ∧
      work'.blockCache = work.blockCache) := by
  unfold reconsiderPeak at h
  obtain ⟨peak, -, h⟩ := bind_eq_ok h
  cases genesis <;> rcases peak with _ | peak
  · cases h
  · -- not a genesis block: an orphan, or a heavier block and the walk
    simp only [Bool.false_eq_true, if_false] at h
    split at h
    · cases h; exact .inl ⟨rfl, rfl, rfl⟩
    obtain ⟨L, -, h⟩ := bind_eq_ok h
    obtain ⟨w₁, h₁, h⟩ := bind_eq_ok h
    obtain ⟨w₂, h₂, h⟩ := bind_eq_ok h
    obtain ⟨w₃, h₃, h⟩ := bind_eq_ok h
    cases h
    obtain ⟨-, hm₁, hc₁⟩ := BlockStore.rollback_marks h₁
    obtain ⟨-, hm₂, hc₂⟩ := BlockStore.setInChain_marks h₂
    obtain ⟨hp₃, hm₃, hc₃⟩ := BlockStore.setPeak_marks h₃
    exact .inr ⟨⟨_, rfl⟩, hp₃, by rw [hm₃, hm₂, hm₁], by rw [hc₃, hc₂, hc₁]⟩
  · -- the first genesis block
    simp only [if_true] at h
    obtain ⟨b, -, h⟩ := bind_eq_ok h
    split at h
    · cases h
    obtain ⟨-, -, h⟩ := bind_eq_ok h
    obtain ⟨w₁, h₁, h⟩ := bind_eq_ok h
    obtain ⟨w₂, h₂, h⟩ := bind_eq_ok h
    cases h
    obtain ⟨-, hm₁, hc₁⟩ := BlockStore.setInChain_marks h₁
    obtain ⟨hp₂, hm₂, hc₂⟩ := BlockStore.setPeak_marks h₂
    exact .inr ⟨⟨_, rfl⟩, hp₂, by rw [hm₂, hm₁]; rfl, by rw [hc₂, hc₁]⟩
  · -- a genesis block with a peak: an orphan
    cases h; exact .inl ⟨rfl, rfl, rfl⟩

/-- The store agrees with memory: its peak pointer names the peak, and every block of the
height map is flagged in the main chain. -/
structure StoreAgrees (s : Blockchain) : Prop where
  /-- `block_store.get_peak()` names `get_peak()` -/
  peak : ∀ o, s.getPeak = .ok o → s.blockStore.db.peak = o.map (·.headerHash)
  /-- the canonical blocks are flagged `in_main_chain` -/
  inMainChain : ∀ k x, s.heightMap.hashes k = some x → s.blockStore.db.inMainChain x = true

theorem StoreAgrees.empty : Blockchain.empty.StoreAgrees :=
  ⟨fun o h => by cases h; rfl, fun _ _ h => by cases h⟩

/-- A committed transaction keeps the store agreeing with memory. -/
theorem StoreAgrees.commit (hag : s.StoreAgrees) (hs : s.Consistent) (ha : s.Admits block)
    (hrec : blockToBlockRecord cc s.view ri block none = .ok rec)
    (hw : s.storeWrites cc .none block rec (decide (block.height = 0)) hint =
      .ok (work, records, summary)) :
    (s.committed rec records summary work).StoreAgrees := by
  obtain ⟨-, hpeak⟩ := hs.commit ha hrec hw
  obtain ⟨W, hadd, hw⟩ := bind_eq_ok hw
  obtain ⟨hpW, hmW, -⟩ := BlockStore.addFullBlock_marks hadd
  rcases reconsiderPeak_marks hw with ⟨rfl, rfl, rfl⟩ | ⟨⟨sc, rfl⟩, hp', hm', -⟩
  · -- an orphan: the peak, the map and the flags are as they were
    obtain ⟨⟨sc, h⟩, -⟩ | ⟨-, hpk', -⟩ := hpeak
    · cases h
    refine ⟨fun o ho => ?_, fun k x hx => ?_⟩
    · rw [hpk'] at ho
      exact hpW.trans (hag.peak o ho)
    · exact (congrFun hmW x).trans (hag.inMainChain k x hx)
  · -- a new peak: the pointer moves to it, and the map's new blocks are the flagged records
    obtain ⟨-, hpk', -⟩ | ⟨h, -⟩ := hpeak
    swap; · cases h
    refine ⟨fun o ho => ?_, fun k x hx => ?_⟩
    · rw [hpk'] at ho; cases ho
      exact hp'
    · show work.db.inMainChain x = true
      rw [hm', Bool.or_eq_true, decide_eq_true_eq, List.mem_map]
      rcases BlockHeightMap.replay_hashes_mem _ hx with hx | hr
      · rw [BlockHeightMap.rollback_hashes] at hx
        split at hx
        · exact .inr ((congrFun hmW x).trans (hag.inMainChain k x hx))
        · cases hx
      · exact .inl hr

/-- One fault-free call keeps the store agreeing with memory. -/
theorem StoreAgrees.receiveBlock {pvr : PreValidationResult} {env : CallEnv} {s' : Blockchain}
    {r : Except Exc ReceiveBlockOutput} (hag : s.StoreAgrees) (hs : s.Consistent)
    (hf : env.faults = .none) (h : s.receiveBlock cc block pvr hint env = (s', r)) :
    s'.StoreAgrees := by
  rcases receiveBlock_cases h with
    ⟨rfl, -⟩ | ⟨ri, rec, ec, body, ha, -, -, hrec, -, ⟨-, rfl, -⟩ | ⟨-, hadd⟩⟩
  · exact hag
  · exact ⟨hag.peak, hag.inMainChain⟩
  rcases addToDatabase_cases hadd with
    ⟨e, -, rfl, -⟩ | ⟨work, records, summary, hw, ⟨hcm, -⟩ | ⟨-, rfl, -⟩⟩
  · exact ⟨hag.peak, hag.inMainChain⟩
  · rw [hf] at hcm; cases hcm
  rw [hf] at hw
  exact StoreAgrees.commit ⟨hag.peak, hag.inMainChain⟩ (hs.with_executionClient ec) ha hrec hw

theorem FaultFreeRun.storeAgrees {allowed : Blockchain → Delivery → Prop} {last : Option Bytes32}
    (hrun : FaultFreeRun cc allowed s last) : s.StoreAgrees := by
  induction hrun with
  | empty => exact StoreAgrees.empty
  | step d hrun hf _ ih => exact ih.receiveBlock hrun.consistent hf rfl

/-- **The store's peak is the peak.** In every state of a fault-free run, the block store's
peak pointer names the block `get_peak()` returns (none without a peak), and every hash
`height_to_hash` gives is flagged `in_main_chain` in the store. -/
theorem store_peak_is_peak {allowed : Blockchain → Delivery → Prop} {last : Option Bytes32}
    (hrun : FaultFreeRun cc allowed s last) :
    (∀ o, s.getPeak = .ok o → s.blockStore.db.peak = o.map (·.headerHash)) ∧
      ∀ h x, s.heightToHash h = some x → s.blockStore.db.inMainChain x = true := by
  have hag := hrun.storeAgrees
  exact ⟨hag.peak, fun h x hx => hag.inMainChain h x (by rwa [heightToHash_eq] at hx)⟩

/-- The chain `1 ← 2 ← 3`, reached by a fault-free run, has its store agree with memory. -/
theorem threeBlockChain_store_peak_is_peak :
    (∀ o, threeBlockChain.getPeak = .ok o → threeBlockChain.blockStore.db.peak = o.map (·.headerHash)) ∧
      ∀ h x, threeBlockChain.heightToHash h = some x → threeBlockChain.blockStore.db.inMainChain x = true :=
  store_peak_is_peak
    (show FaultFreeRun sampleCollaborators (fun _ _ => True) threeBlockChain (some 3) from
      .step _ (.step _ (.step _ .empty rfl trivial) rfl trivial) rfl trivial)

/-- With the store agreeing with memory, the records close to the peak are the cached
records no more than `blocks_n` below it, returned with the peak's hash. -/
theorem StoreAgrees.closeToPeak {peak : BlockRecord} (hag : s.StoreAgrees) (hs : s.Consistent)
    (hpk : s.getPeak = .ok (some peak)) (hv : s.view peak.headerHash = some peak) (blocksN : ℕ) :
    ∃ L, s.blockStore.db.getBlockRecordsCloseToPeak blocksN = (L, some peak.headerHash) ∧
      ∀ q, q ∈ L ↔ (∃ x, s.view x = some q) ∧ peak.height - blocksN ≤ q.height := by
  refine ⟨(s.blockStore.db.fullBlocks.entries.map fun e => e.2.2).filter
    fun r => peak.height - blocksN ≤ r.height, ?_, fun q => ?_⟩
  · rw [StoreData.getBlockRecordsCloseToPeak, hag.peak _ hpk]
    simp only [Option.map_some', show s.blockStore.db.record peak.headerHash = some peak from hs.stored ▸ hv]
  · rw [List.mem_filter, StoreData.mem_records, hs.stored, decide_eq_true_eq]

/-! ## Restarting from the store -/

/-- `_load_chain_from_store(blockchain_dir)`, as `create` calls it on a new `Blockchain` that
holds the block store and the execution client: `BlockHeightMap.create` gives back
`heightMap`, the map last flushed to disk; the records close to the store's peak are cached;
`_peak_height` is the height of the peak's record, asserted to be the last height of the
map. -/
def loadChainFromStore (constants : ConsensusConstants) (heightMap : BlockHeightMap)
    (blockStore : BlockStore) (executionClient : ExecutionClient) : Except Exc Blockchain :=
  let loaded := blockStore.db.getBlockRecordsCloseToPeak constants.blocksCacheSize
  let chain : Blockchain :=
    loaded.1.foldl addBlockRecord ⟨none, ∅, fun _ => none, heightMap, blockStore, executionClient⟩
  if loaded.1.length = 0 then
    if loaded.2.isNone then .ok chain else .error .assertionError
  else
    match loaded.2 with
    | none => .error .assertionError
    | some peak => do
      let peakHeight := (← chain.blockRecord peak).height
      if !heightMap.containsHeight peakHeight then throw .assertionError
      if heightMap.containsHeight (peakHeight + 1) then throw .assertionError
      pure { chain with peakHeight := some peakHeight }

/-- Caching records that agree with a lookup `v`: the cache then holds `v`'s record at the
hash of each of them, and what it held at every other hash. -/
theorem view_foldl_addBlockRecord {v : Bytes32 → Option BlockRecord} (t : Blockchain) :
    ∀ {records : List BlockRecord}, (∀ q ∈ records, v q.headerHash = some q) → ∀ x,
      (records.foldl addBlockRecord t).view x =
        if ∃ q ∈ records, q.headerHash = x then v x else t.view x
  | [], _, x => by simp
  | r :: rs, hu, x => by
    rw [List.foldl_cons, view_foldl_addBlockRecord _ (fun q hq => hu q (.tail _ hq)),
      view_addBlockRecord]
    by_cases h : ∃ q ∈ rs, q.headerHash = x
    · obtain ⟨q, hq, he⟩ := h
      rw [if_pos ⟨q, hq, he⟩, if_pos ⟨q, .tail _ hq, he⟩]
    rw [if_neg h]
    by_cases hx : x = r.headerHash
    · subst hx
      rw [Function.update_same, if_pos ⟨r, .head _, rfl⟩, hu r (.head _)]
    · rw [Function.update_noteq hx, if_neg]
      rintro ⟨q, hq, rfl⟩
      rcases List.mem_cons.mp hq with rfl | hq
      exacts [hx rfl, h ⟨q, hq, rfl⟩]

theorem foldl_addBlockRecord_heightMap (t : Blockchain) (records : List BlockRecord) :
    (records.foldl addBlockRecord t).heightMap = t.heightMap := by
  induction records generalizing t with
  | nil => rfl
  | cons r rs ih => exact ih _

/-- Caching into an empty cache the records of a keyed lookup `v` that satisfy `P`: the
cache then holds exactly those. -/
theorem view_foldl_of_mem {v : Bytes32 → Option BlockRecord} (hk : ∀ x q, v x = some q → q.headerHash = x)
    {L : List BlockRecord} {P : BlockRecord → Prop} (hmem : ∀ q, q ∈ L ↔ (∃ x, v x = some q) ∧ P q)
    (t : Blockchain) (ht : ∀ x, t.view x = none) (x : Bytes32) (q : BlockRecord) :
    (L.foldl addBlockRecord t).view x = some q ↔ v x = some q ∧ P q := by
  have hu : ∀ q ∈ L, v q.headerHash = some q := fun q hq => by
    obtain ⟨y, hy⟩ := ((hmem q).mp hq).1
    rwa [hk y q hy]
  rw [view_foldl_addBlockRecord t hu]
  constructor
  · intro h
    split at h
    · rename_i hx
      obtain ⟨q', hq', rfl⟩ := hx
      obtain rfl : q' = q := Option.some.inj ((hu q' hq').symm.trans h)
      exact ⟨h, ((hmem q').mp hq').2⟩
    · rw [ht] at h; cases h
  · rintro ⟨h, hP⟩
    rwa [if_pos ⟨q, (hmem q).mpr ⟨⟨x, h⟩, hP⟩, hk x q h⟩]

/-- **Restarting gives the chain back.** Take any state of a fault-free run (with a truthful
`find_fork_point_in_chain` and hints within the fork) and restart from its block store,
with the height map flushed to disk. `_load_chain_from_store` passes its asserts, and the
restarted chain has the same `_peak_height`, the same height map and the same `get_peak()`;
its cache holds exactly the stored records no more than `BLOCKS_CACHE_SIZE` below the
peak. -/
theorem loadChainFromStore_restores {last : Option Bytes32}
    (hfork : ∀ v b₁ b₂, cc.findForkPointInChain v b₁ b₂ = highestCommonAncestor v b₁ b₂)
    (hrun : FaultFreeRun cc (HintWithinFork cc) s last) (constants : ConsensusConstants) :
    ∃ r, loadChainFromStore constants s.heightMap s.blockStore s.executionClient = .ok r ∧
      r.peakHeight = s.peakHeight ∧ r.heightMap = s.heightMap ∧ r.getPeak = s.getPeak ∧
      ∀ x q, r.view x = some q ↔ s.view x = some q ∧
        ∀ p, s.peakHeight = some p → p - constants.blocksCacheSize ≤ q.height := by
  have hs := hrun.consistent
  have hag := hrun.storeAgrees
  obtain ⟨hp0, hpk, hv0⟩ | ⟨peak, hp, hpk, hm, hv, -⟩ := hs.peak.getPeak
  · -- no peak: the store has none, nothing is cached
    have hnone : s.blockStore.db.getBlockRecordsCloseToPeak constants.blocksCacheSize = ([], none) := by
      rw [StoreData.getBlockRecordsCloseToPeak, hag.peak none hpk]; rfl
    refine ⟨⟨none, ∅, fun _ => none, s.heightMap, s.blockStore, s.executionClient⟩,
      by simp [loadChainFromStore, hnone], hp0.symm, rfl, by rw [hpk]; rfl, fun x q => ?_⟩
    rw [hv0 x]
    exact ⟨fun h => (by cases h), fun h => (by cases h.1)⟩
  -- a peak: the cache after the restart holds the cached records close to it
  obtain ⟨L, hclose, hmemL⟩ := hag.closeToPeak hs hpk hv constants.blocksCacheSize
  set chain := L.foldl addBlockRecord ⟨none, ∅, fun _ => none, s.heightMap, s.blockStore,
    s.executionClient⟩
  have hview := view_foldl_of_mem hs.linked.keyed hmemL
    ⟨none, ∅, fun _ => none, s.heightMap, s.blockStore, s.executionClient⟩ fun _ => rfl
  have hcv : chain.view peak.headerHash = some peak := (hview _ _).mpr ⟨hv, Nat.sub_le _ _⟩
  have habove : s.heightMap.hashes (peak.height + 1) = none := by
    rw [(hrun.mapIsPeakChain hfork).1.2 peak hpk, ancestorAt_of_lt (by omega)]
    rfl
  have hne : L.length ≠ 0 := (List.length_pos_of_mem ((hmemL peak).mpr ⟨⟨_, hv⟩, Nat.sub_le _ _⟩)).ne'
  refine ⟨{ chain with peakHeight := some peak.height }, ?_, hp.symm,
    foldl_addBlockRecord_heightMap _ _, ?_, fun x q => ?_⟩
  · simp [loadChainFromStore, hclose, hne, blockRecord_of_view hcv, BlockHeightMap.containsHeight,
      hm, habove]
    rfl
  · rw [hpk]
    exact getPeak_of_hash rfl (by rw [foldl_addBlockRecord_heightMap]; exact hm) hcv
  · show chain.view x = some q ↔ _
    rw [hview, hp]
    simp only [Option.some.injEq, forall_eq']

/-- The chain `1 ← 2 ← 3`, restarted from its store with `BLOCKS_CACHE_SIZE = 3`, is the
same chain. -/
theorem threeBlockChain_restores :
    ∃ r, loadChainFromStore sampleConstants threeBlockChain.heightMap threeBlockChain.blockStore
        threeBlockChain.executionClient = .ok r ∧
      r.peakHeight = threeBlockChain.peakHeight ∧ r.heightMap = threeBlockChain.heightMap ∧
      r.getPeak = threeBlockChain.getPeak ∧
      ∀ x q, r.view x = some q ↔ threeBlockChain.view x = some q ∧
        ∀ p, threeBlockChain.peakHeight = some p → p - sampleConstants.blocksCacheSize ≤ q.height :=
  loadChainFromStore_restores (fun _ _ _ => rfl)
    (show FaultFreeRun sampleCollaborators (HintWithinFork sampleCollaborators) threeBlockChain (some 3) from
      .step _ (.step _ (.step _ .empty rfl fun _ _ _ _ _ _ h => by cases h) rfl
        fun _ _ _ _ _ _ h => by cases h) rfl fun _ _ _ _ _ _ h => by cases h)
    sampleConstants

/-! ## Reading the peak's block and stored records -/

/-- `get_full_peak()`. -/
def getFullPeak (faults : StoreFaults) : Except Exc (Option FullBlock) :=
  match s.peakHeight with
  | none => .ok none
  | some p =>
    match s.heightToHash p with
    | none => .error .assertionError
    | some peakHash => do
      match ← s.blockStore.getFullBlock faults peakHash with
      | none => throw .assertionError
      | some block => pure (some block)

/-- **`get_full_peak()` returns the peak's block.** In every state of a fault-free run it
passes its asserts: without a peak it returns `None`, and otherwise the full block stored
with the peak's record, of the peak's height. -/
theorem getFullPeak_of_run {allowed : Blockchain → Delivery → Prop} {last : Option Bytes32}
    (hrun : FaultFreeRun cc allowed s last) :
    (s.getPeak = .ok none ∧ s.getFullPeak .none = .ok none) ∨
      ∃ peak fb, s.getPeak = .ok (some peak) ∧ s.getFullPeak .none = .ok (some fb) ∧
        s.blockStore.db.fullBlocks.lookup peak.headerHash = some (fb, peak) ∧ fb.height = peak.height := by
  have hs := hrun.consistent
  obtain ⟨hp0, hpk, -⟩ | ⟨peak, hp, hpk, hm, hv, -⟩ := hs.peak.getPeak
  · exact .inl ⟨hpk, by simp [getFullPeak, hp0]⟩
  have hpr : s.blockStore.db.record peak.headerHash = some peak := hs.stored ▸ hv
  obtain ⟨⟨fb, q⟩, hl, hq⟩ := Option.map_eq_some'.mp hpr
  cases hq
  refine .inr ⟨_, fb, hpk, ?_, hl, hs.blockHeights _ _ _ hl⟩
  simp [getFullPeak, hp, heightToHash_eq, hm, BlockStore.getFullBlock, StoreFaults.run,
    StoreFaults.none, StoreData.block, hl]
  rfl

/-- The chain `1 ← 2 ← 3` returns the block `3` as its full peak. -/
theorem threeBlockChain_getFullPeak :
    (threeBlockChain.getPeak = .ok none ∧ threeBlockChain.getFullPeak .none = .ok none) ∨
      ∃ peak fb, threeBlockChain.getPeak = .ok (some peak) ∧
        threeBlockChain.getFullPeak .none = .ok (some fb) ∧
        threeBlockChain.blockStore.db.fullBlocks.lookup peak.headerHash = some (fb, peak) ∧
        fb.height = peak.height :=
  getFullPeak_of_run
    (show FaultFreeRun sampleCollaborators (fun _ _ => True) threeBlockChain (some 3) from
      .step _ (.step _ (.step _ .empty rfl trivial) rfl trivial) rfl trivial)

/-- `get_block_record_from_db(header_hash)`: the cached record, else the store's. -/
def getBlockRecordFromDb (faults : StoreFaults) (h : Bytes32) : Except Exc (Option BlockRecord) :=
  match s.blockRecords.lookup h with
  | some r => .ok (some r)
  | none => s.blockStore.getBlockRecord faults h

/-- **The cache shortcut is sound.** In every state of a fault-free run,
`get_block_record_from_db` answers as the store's `get_block_record` does, and whatever the
store faults, a record it returns is the store's. -/
theorem getBlockRecordFromDb_eq_store {allowed : Blockchain → Delivery → Prop}
    {last : Option Bytes32} (hrun : FaultFreeRun cc allowed s last) (h : Bytes32) :
    s.getBlockRecordFromDb .none h = s.blockStore.getBlockRecord .none h ∧
      ∀ faults o, s.getBlockRecordFromDb faults h = .ok o → o = s.blockStore.db.record h := by
  have hst := hrun.consistent.stored
  unfold getBlockRecordFromDb
  cases hl : s.blockRecords.lookup h with
  | some r =>
    have hr : s.blockStore.db.record h = some r := hst ▸ hl
    exact ⟨by rw [BlockStore.getBlockRecord, hr]; rfl, fun _ o ho => by cases ho; exact hr.symm⟩
  | none => exact ⟨rfl, fun _ o ho => StoreFaults.run_eq_ok ho⟩

/-- The chain `1 ← 2 ← 3` reads the record of `2` from its cache as from its store. -/
theorem threeBlockChain_getBlockRecordFromDb :
    threeBlockChain.getBlockRecordFromDb .none 2 = threeBlockChain.blockStore.getBlockRecord .none 2 ∧
      ∀ faults o, threeBlockChain.getBlockRecordFromDb faults 2 = .ok o →
        o = threeBlockChain.blockStore.db.record 2 :=
  getBlockRecordFromDb_eq_store
    (show FaultFreeRun sampleCollaborators (fun _ _ => True) threeBlockChain (some 3) from
      .step _ (.step _ (.step _ .empty rfl trivial) rfl trivial) rfl trivial) 2

end Blockchain

end CorpochainBeacon
