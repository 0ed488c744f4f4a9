import CorpochainBeacon.Atomicity

/-!
# The heights index of the record cache

`__heights_in_cache` maps a height to the set of cached hashes of that height; the cache
operations keep it in step with `__block_records`, and `clean_block_record` deletes through
it, raising `KeyError` on a hash that is not cached. With header hashes as content addresses
(`heightOf` gives the height of every record and block a hash can name):

* `CacheIndex heightOf s` — the index is exact (`HeightsIndexed`), its sets hold no hash
  twice, and every cached or stored record has the height of its hash;
* one preservation lemma per operation: `add_block_record`, `remove_block_record` (on any
  hash), the loop of `clean_block_record` (which returns normally), `clean_block_records`,
  `warmup`, `receive_block` and `pre_validate_blocks_multiprocessing`, on every exit;
* **`heightsInCache_iff_cached`** — in every state reached from the empty chain by these
  operations the index is exact, and `clean_block_record` never raises;
* `reorg_after_clean_misses_peak_ancestor` — the cache does not hold the peak's recent
  ancestors: a reorg onto a shorter chain after `clean_block_records` leaves one of them
  evicted, and `height_to_block_record` raises `KeyError` at its height.
-/

namespace CorpochainBeacon

namespace Blockchain

variable {heightOf : Bytes32 → ℕ} {s s' : Blockchain}

/-- `x ∈ __heights_in_cache[h]`. -/
def inHeights (s : Blockchain) (h : ℕ) (x : Bytes32) : Prop :=
  ∃ xs, s.heightsInCache h = some xs ∧ x ∈ xs

/-- `__heights_in_cache` indexes `__block_records` by height: a hash is in the set at height
`h` exactly when it is cached with a record of height `h`. -/
def HeightsIndexed (s : Blockchain) : Prop :=
  ∀ h x, s.inHeights h x ↔ ∃ r, s.view x = some r ∧ r.height = h

/-- The invariant of the record cache under content addressing. -/
structure CacheIndex (heightOf : Bytes32 → ℕ) (s : Blockchain) : Prop where
  indexed : s.HeightsIndexed
  nodup : ∀ h xs, s.heightsInCache h = some xs → xs.Nodup
  cached : ∀ x r, s.view x = some r → r.height = heightOf x
  stored : ∀ x e, s.blockStore.db.fullBlocks.lookup x = some e → e.2.height = heightOf e.2.headerHash

theorem CacheIndex.empty : Blockchain.empty.CacheIndex heightOf where
  indexed _ _ := ⟨fun ⟨_, h, _⟩ => (by cases h), fun ⟨_, h, _⟩ => (by cases h)⟩
  nodup _ _ h := by cases h
  cached _ _ h := by cases h
  stored _ _ h := by cases h

/-- The invariant reads the record cache, its index and the store's rows only. -/
theorem CacheIndex.of_fields (hi : s.CacheIndex heightOf) (hr : s'.blockRecords = s.blockRecords)
    (hh : s'.heightsInCache = s.heightsInCache)
    (hs : ∀ x e, s'.blockStore.db.fullBlocks.lookup x = some e → e.2.height = heightOf e.2.headerHash) :
    s'.CacheIndex heightOf := by
  obtain ⟨hidx, hnd, hc, -⟩ := hi
  have hv : s'.view = s.view := by funext x; simp only [view, hr]
  refine ⟨fun h x => ?_, fun h xs => hh ▸ hnd h xs, hv ▸ hc, hs⟩
  rw [inHeights, hh, hv]
  exact hidx h x

/-- A hash in the index at `h` is cached with a record of height `h`. -/
theorem CacheIndex.cached_of_mem (hi : s.CacheIndex heightOf) {h : ℕ} {xs : List Bytes32}
    (hxs : s.heightsInCache h = some xs) {x : Bytes32} (hx : x ∈ xs) :
    ∃ r, s.view x = some r ∧ r.height = h :=
  (hi.indexed h x).mp ⟨xs, hxs, hx⟩

/-- A cached hash is in the index at its record's height. -/
theorem CacheIndex.mem_of_cached (hi : s.CacheIndex heightOf) {x : Bytes32} {r : BlockRecord}
    (hx : s.view x = some r) {xs : List Bytes32} (hxs : s.heightsInCache r.height = some xs) :
    x ∈ xs := by
  obtain ⟨ys, hys, hy⟩ := (hi.indexed r.height x).mpr ⟨r, hx, rfl⟩
  rw [hxs] at hys
  cases hys
  exact hy

/-! ## `add_block_record` and `remove_block_record` -/

theorem inHeights_addBlockRecord (r : BlockRecord) (h : ℕ) (x : Bytes32) :
    (s.addBlockRecord r).inHeights h x ↔ (h = r.height ∧ x = r.headerHash) ∨ s.inHeights h x := by
  unfold inHeights addBlockRecord
  dsimp only
  by_cases hh : h = r.height
  · subst hh
    simp only [Function.update_same, Option.some.injEq, exists_eq_left', true_and]
    cases hc : s.heightsInCache r.height with
    | none => simp
    | some hs =>
      by_cases hm : r.headerHash ∈ hs
      · simp only [hm, if_true, Option.some.injEq, exists_eq_left']
        exact ⟨.inr, fun h => h.elim (· ▸ hm) id⟩
      · simp [hm, or_comm]
  · simp [Function.update_noteq hh, hh]

theorem heightsInCache_addBlockRecord_nodup (hi : s.CacheIndex heightOf) (r : BlockRecord) {h : ℕ}
    {xs : List Bytes32} (hxs : (s.addBlockRecord r).heightsInCache h = some xs) : xs.Nodup := by
  unfold addBlockRecord at hxs
  dsimp only at hxs
  by_cases hh : h = r.height
  · subst hh
    rw [Function.update_same, Option.some.injEq] at hxs
    subst hxs
    split
    · rename_i hs hc
      split
      · exact hi.nodup _ _ hc
      · rw [← List.concat_eq_append]; exact (hi.nodup _ _ hc).concat ‹_›
    · exact List.nodup_singleton _
  · rw [Function.update_noteq hh] at hxs
    exact hi.nodup _ _ hxs

/-- **`add_block_record` keeps the index exact** for a record of its hash's height. -/
theorem CacheIndex.addBlockRecord (hi : s.CacheIndex heightOf) {r : BlockRecord}
    (hr : r.height = heightOf r.headerHash) : (s.addBlockRecord r).CacheIndex heightOf := by
  refine ⟨fun h x => ?_, fun h xs => heightsInCache_addBlockRecord_nodup hi r,
    fun x q hx => ?_, hi.stored⟩
  · rw [inHeights_addBlockRecord, view_addBlockRecord, hi.indexed h x]
    by_cases hx : x = r.headerHash
    · subst hx
      simp only [Function.update_same, Option.some.injEq, exists_eq_left', and_true]
      constructor
      · rintro (rfl | ⟨q, hq, rfl⟩)
        · rfl
        · rw [hr, hi.cached _ _ hq]
      · exact fun h => .inl h.symm
    · simp [Function.update_noteq hx, hx]
  · rw [view_addBlockRecord] at hx
    rcases update_eq_some hx with ⟨rfl, rfl⟩ | hx
    · exact hr
    · exact hi.cached x q hx

theorem view_of_erase {x : Bytes32} (h : s'.blockRecords = s.blockRecords.erase x) :
    s'.view = Function.update s.view x none := by
  funext y
  by_cases hy : y = x
  · subst hy; simp [view, h, AList.lookup_erase]
  · simp [view, h, AList.lookup_erase_ne hy, Function.update_noteq hy]

/-- **`remove_block_record` keeps the index exact**, on every hash: a cached one is removed
from both maps, and an uncached one raises `KeyError` before any change. -/
theorem CacheIndex.removeBlockRecord (hi : s.CacheIndex heightOf) (x : Bytes32) :
    (s.removeBlockRecord x).1.CacheIndex heightOf := by
  unfold Blockchain.removeBlockRecord
  cases hx : s.blockRecords.lookup x with
  | none => exact hi
  | some sbr =>
    have hxv : s.view x = some sbr := hx
    obtain ⟨hs', hs, hmem⟩ := (hi.indexed sbr.height x).mpr ⟨sbr, hxv, rfl⟩
    have hnd := hi.nodup _ _ hs
    dsimp only
    rw [hs]
    simp only [hmem, if_true]
    refine ⟨fun h y => ?_, fun h ys hys => ?_, fun y q hy => ?_, hi.stored⟩
    · rw [view_of_erase rfl]
      unfold inHeights
      dsimp only
      by_cases hh : h = sbr.height
      · subst hh
        simp only [Function.update_same, Option.some.injEq, exists_eq_left', hnd.mem_erase_iff]
        by_cases hy : y = x
        · subst hy; simp
        · rw [Function.update_noteq hy, ← hi.indexed, inHeights, hs]; simp [hy]
      · rw [Function.update_noteq hh]
        by_cases hy : y = x
        · subst hy
          simp only [Function.update_same]
          refine ⟨fun ⟨ys, hys, hy⟩ => ?_, fun ⟨q, hq, _⟩ => by cases hq⟩
          obtain ⟨q, hq, rfl⟩ := hi.cached_of_mem hys hy
          rw [hxv] at hq; cases hq; exact absurd rfl hh
        · rw [Function.update_noteq hy]; exact hi.indexed h y
    · dsimp only at hys
      rcases update_eq_some hys with ⟨-, rfl⟩ | hys
      · exact hnd.erase x
      · exact hi.nodup _ _ hys
    · rw [view_of_erase rfl] at hy
      by_cases hyx : y = x
      · subst hyx; simp at hy
      · rw [Function.update_noteq hyx] at hy; exact hi.cached y q hy

/-! ## `clean_block_record`, `clean_block_records` and `warmup` -/

/-- The inner loop of `clean_block_record` deletes a list of distinct cached hashes without
raising. -/
theorem deleteRecords_ok {xs : List Bytes32} (hxs : ∀ x ∈ xs, x ∈ s.blockRecords) (hnd : xs.Nodup) :
    ∃ m : AList (fun _ : Bytes32 => BlockRecord),
      deleteRecords s xs = ({ s with blockRecords := m }, .ok ()) ∧
        ∀ y, m.lookup y = if y ∈ xs then none else s.view y := by
  induction xs generalizing s with
  | nil => exact ⟨s.blockRecords, rfl, fun y => by simp [view]⟩
  | cons x xs ih =>
    obtain ⟨hx, hxs'⟩ := List.forall_mem_cons.mp hxs
    obtain ⟨hxn, hnd'⟩ := List.nodup_cons.mp hnd
    obtain ⟨m, hm, hlook⟩ := ih (s := { s with blockRecords := s.blockRecords.erase x })
      (fun y hy => AList.mem_erase.mpr ⟨fun h => hxn (h ▸ hy), hxs' y hy⟩) hnd'
    refine ⟨m, by rw [deleteRecords, if_pos hx]; exact hm, fun y => ?_⟩
    rw [hlook, view_of_erase rfl]
    by_cases hy : y = x
    · subst hy; simp
    · simp [hy, Function.update_noteq hy]

/-- One height of `clean_block_record`: deleting the records the index lists there, then the
index entry, keeps the index exact. -/
theorem CacheIndex.deleteHeight (hi : s.CacheIndex heightOf) {height : ℕ} {xs : List Bytes32}
    (hxs : s.heightsInCache height = some xs) :
    ∃ s₁, deleteRecords s xs = (s₁, .ok ()) ∧
      ({ s₁ with heightsInCache := Function.update s₁.heightsInCache height none } : Blockchain).CacheIndex
        heightOf := by
  have hcached : ∀ x ∈ xs, ∃ r, s.view x = some r ∧ r.height = height :=
    fun x hx => hi.cached_of_mem hxs hx
  obtain ⟨m, hd, hlook⟩ := deleteRecords_ok
    (fun x hx => AList.lookup_isSome.mp (Option.isSome_iff_exists.mpr ((hcached x hx).imp fun _ h => h.1)))
    (hi.nodup _ _ hxs)
  refine ⟨_, hd, fun h y => ?_, fun h ys hys => ?_, fun y q hy => ?_, hi.stored⟩
  · show (∃ ys, Function.update s.heightsInCache height none h = some ys ∧ y ∈ ys) ↔
      ∃ r, m.lookup y = some r ∧ r.height = h
    rw [hlook]
    by_cases hh : h = height
    · subst hh
      rw [Function.update_same]
      refine ⟨fun ⟨ys, h, _⟩ => (by cases h), fun ⟨r, hr, hrh⟩ => ?_⟩
      split at hr
      · cases hr
      · exact absurd (hi.mem_of_cached hr (hrh ▸ hxs)) ‹_›
    · rw [Function.update_noteq hh]
      refine (hi.indexed h y).trans ⟨fun ⟨r, hr, hrh⟩ => ⟨r, ?_, hrh⟩, fun ⟨r, hr, hrh⟩ => ?_⟩
      · rw [if_neg fun hy => ?_, hr]
        obtain ⟨r', hr', rfl⟩ := hcached y hy
        rw [hr] at hr'; cases hr'; exact hh hrh.symm
      · split at hr
        · cases hr
        · exact ⟨r, hr, hrh⟩
  · dsimp only at hys
    by_cases hh : h = height
    · subst hh; rw [Function.update_same] at hys; cases hys
    · rw [Function.update_noteq hh] at hys; exact hi.nodup _ _ hys
  · change m.lookup y = some q at hy
    rw [hlook] at hy
    split at hy
    · cases hy
    · exact hi.cached y q hy

/-- **The loop of `clean_block_record` returns normally** and keeps the index exact. -/
theorem CacheIndex.cleanBlockRecordLoop (hi : s.CacheIndex heightOf) (height : ℕ) :
    (cleanBlockRecordLoop height s).2 = .ok () ∧ (cleanBlockRecordLoop height s).1.CacheIndex heightOf := by
  induction height generalizing s with
  | zero =>
    unfold Blockchain.cleanBlockRecordLoop
    cases hxs : s.heightsInCache 0 with
    | none => exact ⟨rfl, hi⟩
    | some xs =>
      obtain ⟨s₁, hd, hi₁⟩ := hi.deleteHeight hxs
      dsimp only
      rw [hd]
      exact ⟨rfl, hi₁⟩
  | succ n ih =>
    unfold Blockchain.cleanBlockRecordLoop
    cases hxs : s.heightsInCache (n + 1) with
    | none => exact ⟨rfl, hi⟩
    | some xs =>
      obtain ⟨s₁, hd, hi₁⟩ := hi.deleteHeight hxs
      dsimp only
      rw [hd]
      exact ih hi₁

theorem CacheIndex.cleanBlockRecord (hi : s.CacheIndex heightOf) (height : ℤ) :
    (s.cleanBlockRecord height).2 = .ok () ∧ (s.cleanBlockRecord height).1.CacheIndex heightOf := by
  unfold Blockchain.cleanBlockRecord
  split
  · exact ⟨rfl, hi⟩
  · exact hi.cleanBlockRecordLoop _

theorem CacheIndex.cleanBlockRecords (hi : s.CacheIndex heightOf) (constants : ConsensusConstants) :
    (s.cleanBlockRecords constants).1.CacheIndex heightOf := by
  unfold Blockchain.cleanBlockRecords
  split
  · exact hi
  split
  · exact hi
  split
  · exact hi
  · exact (hi.cleanBlockRecord _).2

theorem CacheIndex.foldl_addBlockRecord (hi : s.CacheIndex heightOf) {records : List BlockRecord}
    (hrs : ∀ r ∈ records, r.height = heightOf r.headerHash) :
    (records.foldl Blockchain.addBlockRecord s).CacheIndex heightOf := by
  induction records generalizing s with
  | nil => exact hi
  | cons r rs ih =>
    obtain ⟨hr, hrs⟩ := List.forall_mem_cons.mp hrs
    exact ih (hi.addBlockRecord hr) hrs

/-- **`warmup` keeps the index exact**: it adds stored records, whose heights are their
hashes'. -/
theorem CacheIndex.warmup (hi : s.CacheIndex heightOf) (constants : ConsensusConstants)
    (faults : StoreFaults) (forkPoint : ℕ) : (s.warmup constants faults forkPoint).1.CacheIndex heightOf := by
  unfold Blockchain.warmup
  split
  · exact hi
  split
  · exact hi
  rename_i records hrange
  refine hi.foldl_addBlockRecord fun r hr => ?_
  rw [StoreFaults.run_eq_ok hrange] at hr
  obtain ⟨e, he, rfl⟩ := List.mem_map.mp (List.mem_filter.mp hr).1
  exact hi.stored e.1 e.2 (AList.mem_lookup_iff.mpr he)

/-! ## `receive_block` and the pre-validation pass -/

/-- **`receive_block` keeps the index exact** on every exit, for a block of its hash's
height: it caches at most the block's own record, and the store gains at most its row. -/
theorem CacheIndex.receiveBlock (hi : s.CacheIndex heightOf) {cc : Collaborators} {block : FullBlock}
    {pvr : PreValidationResult} {hint : Option ℕ} {env : CallEnv}
    (hb : block.height = heightOf block.headerHash) :
    (s.receiveBlock cc block pvr hint env).1.CacheIndex heightOf := by
  generalize h : s.receiveBlock cc block pvr hint env = call
  obtain ⟨s', r⟩ := call
  rcases receiveBlock_cases h with
    ⟨rfl, -, -⟩ | ⟨ri, rec, ec, body, -, -, -, hrec, -, ⟨-, rfl, -⟩ | ⟨-, hadd⟩⟩
  · exact hi
  · exact hi.of_fields rfl rfl hi.stored
  obtain ⟨hh, -, hht, -⟩ := blockToBlockRecord_fields cc hrec
  have hr : rec.height = heightOf rec.headerHash := by rw [hht, hh, hb]
  have hi₀ : ({ s with executionClient := ec } : Blockchain).CacheIndex heightOf :=
    hi.of_fields rfl rfl hi.stored
  have hi₁ := hi₀.addBlockRecord hr
  rcases addToDatabase_cases hadd with
    ⟨e, -, rfl, -⟩ | ⟨work, records, summary, hw, ⟨-, -, rfl⟩ | ⟨-, rfl, -⟩⟩
  · -- aborted: only `block_cache` changed
    exact hi.of_fields rfl rfl hi.stored
  · -- the commit failed: the record is cached, the rows are the old ones
    exact hi₁.of_fields rfl rfl hi.stored
  · -- committed: the record is cached and the block's row written
    refine hi₁.of_fields rfl rfl fun x e hx => ?_
    change work.db.fullBlocks.lookup x = some e at hx
    rw [storeWrites_rows hw] at hx
    by_cases hxb : x = block.headerHash
    · subst hxb; rw [AList.lookup_insert] at hx; cases hx; exact hr
    · rw [AList.lookup_insert_ne hxb] at hx; exact hi.stored x e hx

theorem CacheIndex.removeIfTentative (hi : s.CacheIndex heightOf) (all : List (FullBlock × Bool)) :
    (removeIfTentative s all).1.CacheIndex heightOf := by
  induction all generalizing s with
  | nil => exact hi
  | cons e rest ih =>
    unfold CorpochainBeacon.removeIfTentative
    split
    · have hr := hi.removeBlockRecord e.1.headerHash
      split <;> rename_i heq <;> rw [heq] at hr
      · exact ih hr
      · exact hr
    · exact ih hi

theorem CacheIndex.removeTentative (hi : s.CacheIndex heightOf) (all : List (FullBlock × Bool)) :
    (removeTentative s all).1.CacheIndex heightOf := by
  induction all generalizing s with
  | nil => exact hi
  | cons e rest ih =>
    unfold CorpochainBeacon.removeTentative
    split
    · have hr := hi.removeBlockRecord e.1.headerHash
      split <;> rename_i heq <;> rw [heq] at hr
      · exact ih hr
      · exact hr
    · exact ih hi

section PreValidation

variable {constants : ConsensusConstants} {cc : Collaborators} {wp : Option (List SubEpochSummary)}
  {all : List (FullBlock × Bool)}

/-- One block of the pre-validation loop caches at most its tentative record, or runs the
cleanup of the `INVALID_POSPACE` exit. -/
theorem CacheIndex.passStep (hi : s.CacheIndex heightOf) {p : PassState} {block : FullBlock}
    (hb : block.height = heightOf block.headerHash) :
    (passStep constants cc wp all s p block).1.CacheIndex heightOf := by
  unfold CorpochainBeacon.passStep
  dsimp only
  split
  · exact hi
  split
  · -- the `INVALID_POSPACE` exit and its cleanup
    have hr := hi.removeIfTentative all
    split <;> rename_i heq <;> rw [heq] at hr <;> exact hr
  split
  · exact hi
  · exact hi
  rename_i blockRec hrec
  obtain ⟨hh, -, hht, -⟩ := blockToBlockRecord_fields cc hrec
  split
  · exact hi
  · exact hi
  split
  · exact hi
  rename_i s₂ entry hadded
  split at hadded
  · -- the tentative record
    cases hadded
    exact hi.addBlockRecord (by rw [hht, hh, hb])
  · cases hbr : s.blockRecord blockRec.headerHash <;> rw [hbr] at hadded <;> cases hadded
    exact hi

theorem CacheIndex.sequentialPass (hi : s.CacheIndex heightOf) {blocks : List FullBlock} {p : PassState}
    (hbs : ∀ b ∈ blocks, b.height = heightOf b.headerHash) :
    (sequentialPass constants cc wp all blocks s p).1.CacheIndex heightOf := by
  induction blocks generalizing s p with
  | nil => exact hi
  | cons b rest ih =>
    obtain ⟨hb, hrest⟩ := List.forall_mem_cons.mp hbs
    have hstep : (CorpochainBeacon.passStep constants cc wp all s p b).1.CacheIndex heightOf :=
      hi.passStep hb
    unfold CorpochainBeacon.sequentialPass
    split
    · rename_i heq; rw [heq] at hstep; exact ih hstep hrest
    · exact hstep

/-- **The pre-validation pass keeps the index exact** on every exit, for blocks of their
hashes' heights: tentative records go through `add_block_record` and
`remove_block_record` only. -/
theorem CacheIndex.preValidate (hi : s.CacheIndex heightOf) {blocks : List FullBlock} {batchSize : ℕ}
    (hbs : ∀ b ∈ blocks, b.height = heightOf b.headerHash) :
    (preValidateBlocksMultiprocessing constants cc s blocks batchSize wp).1.CacheIndex heightOf := by
  unfold preValidateBlocksMultiprocessing
  split
  · exact hi
  dsimp only
  split
  · exact hi
  · exact hi
  rename_i first rest _ recent compressed _
  have hpass : (CorpochainBeacon.sequentialPass constants cc wp
      ((first :: rest).map fun b => (b, s.containsBlock b.headerHash))
      (first :: rest) s ⟨none, recent, compressed, []⟩).1.CacheIndex heightOf := hi.sequentialPass hbs
  split <;> rename_i heq <;> rw [heq] at hpass
  · exact hpass
  · exact hpass
  have hrem := hpass.removeTentative ((first :: rest).map fun b => (b, s.containsBlock b.headerHash))
  split <;> rename_i heq' <;> rw [heq'] at hrem
  · exact hrem
  split
  · exact hrem
  split <;> exact hrem

end PreValidation

/-! ## Runs -/

/-- The states reached from the empty chain by the record-cache operations, `receive_block`
and the pre-validation pass, each ending normally or with an exception; every record and
block they are given has the height `heightOf` assigns its hash. -/
inductive CacheRun (heightOf : Bytes32 → ℕ) : Blockchain → Prop
  | empty : CacheRun heightOf .empty
  | addBlockRecord {s : Blockchain} (r : BlockRecord) :
      CacheRun heightOf s → r.height = heightOf r.headerHash → CacheRun heightOf (s.addBlockRecord r)
  | removeBlockRecord {s : Blockchain} (x : Bytes32) :
      CacheRun heightOf s → CacheRun heightOf (s.removeBlockRecord x).1
  | cleanBlockRecord {s : Blockchain} (height : ℤ) :
      CacheRun heightOf s → CacheRun heightOf (s.cleanBlockRecord height).1
  | cleanBlockRecords {s : Blockchain} (constants : ConsensusConstants) :
      CacheRun heightOf s → CacheRun heightOf (s.cleanBlockRecords constants).1
  | warmup {s : Blockchain} (constants : ConsensusConstants) (faults : StoreFaults) (forkPoint : ℕ) :
      CacheRun heightOf s → CacheRun heightOf (s.warmup constants faults forkPoint).1
  | receiveBlock {s : Blockchain} (cc : Collaborators) (block : FullBlock) (pvr : PreValidationResult)
      (hint : Option ℕ) (env : CallEnv) :
      CacheRun heightOf s → block.height = heightOf block.headerHash →
      CacheRun heightOf (s.receiveBlock cc block pvr hint env).1
  | preValidate {s : Blockchain} (constants : ConsensusConstants) (cc : Collaborators)
      (blocks : List FullBlock) (batchSize : ℕ) (wp : Option (List SubEpochSummary)) :
      CacheRun heightOf s → (∀ b ∈ blocks, b.height = heightOf b.headerHash) →
      CacheRun heightOf (preValidateBlocksMultiprocessing constants cc s blocks batchSize wp).1

theorem CacheRun.cacheIndex (h : CacheRun heightOf s) : s.CacheIndex heightOf := by
  induction h with
  | empty => exact .empty
  | addBlockRecord r _ hr ih => exact ih.addBlockRecord hr
  | removeBlockRecord x _ ih => exact ih.removeBlockRecord x
  | cleanBlockRecord height _ ih => exact (ih.cleanBlockRecord height).2
  | cleanBlockRecords constants _ ih => exact ih.cleanBlockRecords constants
  | warmup constants faults forkPoint _ ih => exact ih.warmup constants faults forkPoint
  | receiveBlock _ _ _ _ _ _ hb ih => exact ih.receiveBlock hb
  | preValidate _ _ _ _ _ _ hbs ih => exact ih.preValidate hbs

/-- **The heights index is exact**: in every state reached from the empty chain by
`add_block_record`, `remove_block_record`, `clean_block_record`, `clean_block_records`,
`warmup`, `receive_block` and `pre_validate_blocks_multiprocessing`, on every exit, a hash is
in `__heights_in_cache[h]` exactly when it is cached with a record of height `h`; so
`clean_block_record` never raises. -/
theorem heightsInCache_iff_cached (hrun : CacheRun heightOf s) :
    (∀ h x, (∃ xs, s.heightsInCache h = some xs ∧ x ∈ xs) ↔
      ∃ r, s.blockRecords.lookup x = some r ∧ r.height = h) ∧
    ∀ height, (s.cleanBlockRecord height).2 = .ok () :=
  ⟨hrun.cacheIndex.indexed, fun height => (hrun.cacheIndex.cleanBlockRecord height).1⟩

/-- The state `tentativeLeak` leaves, with a tentative record cached and no row stored, is
reached from the empty chain with hash `x` naming height `x - 1`: its index is exact. -/
theorem tentativeLeak_heightsInCache_iff_cached :
    (∀ h x, (∃ xs, tentativeLeak.1.heightsInCache h = some xs ∧ x ∈ xs) ↔
      ∃ r, tentativeLeak.1.blockRecords.lookup x = some r ∧ r.height = h) ∧
    ∀ height, (tentativeLeak.1.cleanBlockRecord height).2 = .ok () :=
  heightsInCache_iff_cached (show CacheRun (· - 1) tentativeLeak.1 from
    .preValidate _ _ _ _ _ (.receiveBlock _ _ _ _ _ .empty rfl) (by decide))

/-! ## The peak's recent ancestors -/

/-- The chain `1 ← 2 ← … ← 6`: block `i + 1` at height `i`, of weight `i + 1`. -/
def sixBlockChain : Blockchain :=
  receiveAll sampleCollaborators .empty
    ((List.range 6).map fun i => sampleDelivery (sampleBlock (i + 1) i i (i + 1) none) none)

/-- `clean_block_records` with `BLOCKS_CACHE_SIZE = 3` on `sixBlockChain`, whose peak is at
height `5`: the records of heights `0` to `2` are evicted. -/
def sixBlocksCleaned : Call Unit := sixBlockChain.cleanBlockRecords sampleConstants

/-- The block `7` on top of `4`, heavier than the peak `6`: a reorg onto a shorter chain. -/
def reorgAfterClean : Call ReceiveBlockOutput :=
  sixBlocksCleaned.1.receiveBlock sampleCollaborators (sampleBlock 7 4 4 10 none) acceptedResult none
    ⟨validEngine, StoreFaults.none⟩

/-- After the reorg the peak `7` is at height `4`, so every ancestor above height
`4 - BLOCKS_CACHE_SIZE = 1` should be cached; but its ancestor `3` at height `2` was evicted
while the old peak was higher, and `height_to_block_record(2)` raises `KeyError`. -/
theorem reorg_after_clean_misses_peak_ancestor :
    sixBlocksCleaned.2 = .ok () ∧ reorgAfterClean.2.map (·.1) = .ok .newPeak ∧
      reorgAfterClean.1.peakHeight = some 4 ∧ reorgAfterClean.1.heightToHash 2 = some 3 ∧
      reorgAfterClean.1.containsBlock 3 = false ∧
      reorgAfterClean.1.heightToBlockRecord 2 = .error .keyError := by
  decide

end Blockchain

end CorpochainBeacon
