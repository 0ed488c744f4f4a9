import CorpochainBeacon.CacheIndex

/-!
# What `clean_block_record` removes

`clean_block_record(height)` is documented to clear "all block records in the cache which
have block_record < height", `height` being the "minimum height that we need to keep". Its
loop starts at `height` itself and walks down through `__heights_in_cache`, stopping at the
first height with no entry:

* `CacheIndex.view_cleanBlockRecordLoop` — on an exact index the loop removes precisely the
  records of a height `k ≤ height` such that every height from `k` to `height` has an index
  entry, and keeps every other record;
* `cleanBlockRecord_keeps_wrong_heights` — so, in states reached from the empty chain,
  it removes the records at `height` itself and keeps the records below a height with no
  entry, and `clean_block_records` evicts the records at `peak - BLOCKS_CACHE_SIZE`.
-/

namespace CorpochainBeacon

namespace Blockchain

variable {heightOf : Bytes32 → ℕ} {s : Blockchain}

/-- Every height from `k` to `height` has an entry in `__heights_in_cache`: the loop of
`clean_block_record` from `height` gets down to `k`. -/
def CleanReaches (s : Blockchain) (height k : ℕ) : Prop :=
  k ≤ height ∧ ∀ j, k ≤ j → j ≤ height → (s.heightsInCache j).isSome

/-- Reaching below a height that has an entry is reaching below the next one down. -/
theorem cleanReaches_succ {n k : ℕ} (hn : (s.heightsInCache (n + 1)).isSome) :
    s.CleanReaches (n + 1) k ↔ k = n + 1 ∨ s.CleanReaches n k := by
  constructor
  · rintro ⟨hk, hall⟩
    by_cases he : k = n + 1
    · exact .inl he
    · exact .inr ⟨by omega, fun j h1 h2 => hall j h1 (by omega)⟩
  · rintro (rfl | ⟨hk, hall⟩)
    · exact ⟨le_refl _, fun j h1 h2 => by rwa [show j = n + 1 by omega]⟩
    · refine ⟨by omega, fun j h1 h2 => ?_⟩
      by_cases he : j = n + 1
      · rwa [he]
      · exact hall j h1 (by omega)

/-- The reach depends on the index entries at and below `height` only. -/
theorem cleanReaches_congr {s' : Blockchain} {height k : ℕ}
    (h : ∀ j, j ≤ height → s'.heightsInCache j = s.heightsInCache j) :
    s'.CleanReaches height k ↔ s.CleanReaches height k := by
  unfold CleanReaches
  exact and_congr_right fun _ => forall_congr' fun j => imp_congr_right fun _ =>
    imp_congr_right fun hj => by rw [h j hj]

theorem deleteRecords_heightsInCache {xs : List Bytes32} {s₁ : Blockchain} {e : Except Exc Unit}
    (hd : deleteRecords s xs = (s₁, e)) : s₁.heightsInCache = s.heightsInCache := by
  induction xs generalizing s with
  | nil => cases hd; rfl
  | cons x xs ih =>
    unfold deleteRecords at hd
    split at hd
    · have := ih hd
      exact this
    · cases hd; rfl

/-- One height of the loop on an exact index: the records it deletes are those of that
height. -/
theorem CacheIndex.view_deleteHeight (hi : s.CacheIndex heightOf) {height : ℕ}
    {xs : List Bytes32} (hxs : s.heightsInCache height = some xs) {s₁ : Blockchain}
    (hd : deleteRecords s xs = (s₁, .ok ())) (x : Bytes32) (r : BlockRecord) :
    s₁.view x = some r ↔ s.view x = some r ∧ r.height ≠ height := by
  obtain ⟨m, hd', hlook⟩ := deleteRecords_ok
    (fun x hx => AList.lookup_isSome.mp
      (Option.isSome_iff_exists.mpr ((hi.cached_of_mem hxs hx).imp fun _ h => h.1)))
    (hi.nodup _ _ hxs)
  rw [hd] at hd'
  cases hd'
  change m.lookup x = some r ↔ _
  rw [hlook]
  by_cases hx : x ∈ xs
  · obtain ⟨q, hq, rfl⟩ := hi.cached_of_mem hxs hx
    rw [if_pos hx]
    exact ⟨fun h => (by cases h), fun ⟨h, hne⟩ => by rw [hq] at h; cases h; exact absurd rfl hne⟩
  · rw [if_neg hx]
    exact ⟨fun h => ⟨h, fun he => hx (hi.mem_of_cached h (he ▸ hxs))⟩, fun h => h.1⟩

/-- **What the loop of `clean_block_record` removes.** On an exact index, the loop from
`height` keeps a cached record exactly when the loop does not get down to its height: the
record is above `height`, or some height between it and `height` has no index entry. -/
theorem CacheIndex.view_cleanBlockRecordLoop (hi : s.CacheIndex heightOf) (height : ℕ)
    (x : Bytes32) (r : BlockRecord) :
    (Blockchain.cleanBlockRecordLoop height s).1.view x = some r ↔
      s.view x = some r ∧ ¬ s.CleanReaches height r.height := by
  induction height generalizing s with
  | zero =>
    unfold Blockchain.cleanBlockRecordLoop
    cases hxs : s.heightsInCache 0 with
    | none =>
      exact ⟨fun h => ⟨h, fun hr => by simpa [hxs] using hr.2 0 hr.1 (le_refl 0)⟩, And.left⟩
    | some xs =>
      obtain ⟨s₁, hd, -⟩ := hi.deleteHeight hxs
      dsimp only
      rw [hd]
      refine (hi.view_deleteHeight hxs hd x r).trans (and_congr_right fun _ => ?_)
      exact ⟨fun hne hr => hne (by have := hr.1; omega),
        fun hn he => hn ⟨he.le, fun j h1 h2 => by rw [show j = 0 by omega, hxs]; rfl⟩⟩
  | succ n ih =>
    unfold Blockchain.cleanBlockRecordLoop
    cases hxs : s.heightsInCache (n + 1) with
    | none =>
      exact ⟨fun h => ⟨h, fun hr => by simpa [hxs] using hr.2 (n + 1) hr.1 (le_refl _)⟩, And.left⟩
    | some xs =>
      obtain ⟨s₁, hd, hi₁⟩ := hi.deleteHeight hxs
      dsimp only
      rw [hd, ih hi₁, cleanReaches_congr fun j hj => Function.update_noteq (by omega) _ _,
        cleanReaches_succ (by rw [hxs]; rfl)]
      change (s₁.view x = some r ∧ _) ↔ _
      rw [hi.view_deleteHeight hxs hd x r]
      rw [cleanReaches_congr fun j _ => congrFun (deleteRecords_heightsInCache hd) j]
      tauto

/-- `receive_block` over a delivery order stays within the cache runs. -/
theorem CacheRun.receiveAll {cc : Collaborators} (hrun : CacheRun heightOf s) {ds : List Delivery}
    (hds : ∀ d ∈ ds, d.block.height = heightOf d.block.headerHash) :
    CacheRun heightOf (receiveAll cc s ds) := by
  induction ds generalizing s with
  | nil => exact hrun
  | cons d ds ih =>
    obtain ⟨hd, hds⟩ := List.forall_mem_cons.mp hds
    exact ih (.receiveBlock cc d.block d.pvr d.hint d.env hrun hd) hds

/-! ## Concrete runs -/

/-- A transaction record of the given hash, parent and height. -/
def sampleRecord (headerHash prevHash height : ℕ) : BlockRecord :=
  ⟨headerHash, prevHash, height, height + 1, 0, 0, false, false, true, 0, none, none, none, 0⟩

/-- The records `1` at height `0` and `3` at height `2`, added to the empty chain: the index
has no entry at height `1`. -/
def gappedCache : Blockchain :=
  (Blockchain.empty.addBlockRecord (sampleRecord 1 0 0)).addBlockRecord (sampleRecord 3 2 2)

/-- Both states are reached from the empty chain, with hash `x` naming height `x - 1`. Then
`clean_block_record(2)` on `gappedCache` removes the record `3` of height `2` and keeps the
record `1` of height `0`, stopping at the missing height `1`; and `clean_block_records` on
`sixBlockChain` (peak height `5`, `BLOCKS_CACHE_SIZE = 3`) removes the record `3` of height
`5 - 3 = 2`. -/
theorem cleanBlockRecord_keeps_wrong_heights :
    CacheRun (· - 1) gappedCache ∧ CacheRun (· - 1) sixBlockChain ∧
      (gappedCache.cleanBlockRecord 2).2 = .ok () ∧
      gappedCache.blockRecords.lookup 3 = some (sampleRecord 3 2 2) ∧
      (gappedCache.cleanBlockRecord 2).1.containsBlock 3 = false ∧
      (gappedCache.cleanBlockRecord 2).1.blockRecords.lookup 1 = some (sampleRecord 1 0 0) ∧
      sixBlockChain.peakHeight = some 5 ∧ sixBlocksCleaned.2 = .ok () ∧
      (sixBlockChain.blockRecords.lookup 3).map (·.height) = some 2 ∧
      sixBlocksCleaned.1.containsBlock 3 = false :=
  ⟨.addBlockRecord _ (.addBlockRecord _ .empty rfl) rfl,
    CacheRun.receiveAll .empty (by decide), by decide⟩

end Blockchain

end CorpochainBeacon
