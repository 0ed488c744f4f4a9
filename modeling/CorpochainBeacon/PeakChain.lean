import CorpochainBeacon.HeaviestChain

/-!
# The height map is the peak's chain

Assume `find_fork_point_in_chain` returns the height of the highest common ancestor, and
every fork hint is at most that height. Then over every fault-free run of `receive_block`
from the empty chain:

* `MapIsPeakChain` — the height map names, at every height, the peak's ancestor there
  (nothing above the peak, nothing at all without a peak);
* `storeWrites_ok` — the writer transaction of every admitted block succeeds, whatever the
  hint: the backtracking walk only fetches stored blocks and ends within its bound;
* `MapIsPeakChain.commit`, `MapIsPeakChain.receiveBlock` — a committed transaction, and so
  every call, keeps the height map the peak's chain: after a reorg the walk's records,
  replayed over the map rolled back to the fork, are exactly the new peak's chain;
* **`heightMap_is_peak_chain`** — the height map of every reachable state is the peak's
  chain, numbered without gaps from `0` to `_peak_height`, and names at the peak height the
  block of the most recent `NEW_PEAK`;
* `maybeFlush_failure_peak_not_last_new_peak` — a run with a flush that raises is not
  fault-free: the block its call crowned is the peak, not that of the last `NEW_PEAK`.
-/

namespace CorpochainBeacon

namespace Blockchain

variable {cc : Collaborators} {s : Blockchain} {block : FullBlock} {rec peak : BlockRecord} {ri : ℕ}
  {hint : Option ℕ} {work : BlockStore} {records : List BlockRecord}
  {summary : Option StateChangeSummary}

/-- The height map is the peak's ancestor chain; it is empty without a peak height. -/
def MapIsPeakChain (s : Blockchain) : Prop :=
  (s.peakHeight = none → ∀ k, s.heightMap.hashes k = none) ∧
  ∀ peak, s.getPeak = .ok (some peak) →
    ∀ k, s.heightMap.hashes k = (ancestorAt s.view peak k).map (·.headerHash)

/-- The fork hint of a delivery is absent or at most the height of the highest common
ancestor of the block's record and the current peak. -/
def HintWithinFork (cc : Collaborators) (s : Blockchain) (d : Delivery) : Prop :=
  ∀ ri rec peak f, blockToBlockRecord cc s.view ri d.block none = .ok rec →
    s.getPeak = .ok (some peak) → d.hint = some f → (f : ℤ) ≤ highestCommonAncestor s.view rec peak

theorem MapIsPeakChain.empty : Blockchain.empty.MapIsPeakChain :=
  ⟨fun _ _ => rfl, fun _ h => by cases h⟩

/-! ## The fork and the walk -/

/-- With a truthful `find_fork_point_in_chain` and a hint within the fork, the fork height is
at most the new block's height. -/
theorem forkHeight_le (hfork : ∀ v b₁ b₂, cc.findForkPointInChain v b₁ b₂ = highestCommonAncestor v b₁ b₂)
    (hhint : ∀ f, hint = some f → (f : ℤ) ≤ highestCommonAncestor s.view rec peak)
    (hpar : rec.prevHash = peak.headerHash → peak.height + 1 = rec.height) :
    s.forkHeight cc rec peak hint ≤ rec.height := by
  unfold forkHeight
  split
  · have := hpar ‹_›; omega
  · split
    · exact (hhint _ rfl).trans (highestCommonAncestor_le rec peak)
    · rw [hfork]; exact highestCommonAncestor_le rec peak

/-- The parent of an admitted block above genesis is cached one height below it; so if the
parent is the peak, the block sits one above the peak. -/
theorem Consistent.peak_parent (hs : s.Consistent) (ha : s.Admits block)
    (hrec : blockToBlockRecord cc s.view ri block none = .ok rec) (hpk : s.getPeak = .ok (some peak))
    (h0 : block.height ≠ 0) (hpp : rec.prevHash = peak.headerHash) : peak.height + 1 = rec.height := by
  obtain ⟨-, hprev, hht, -⟩ := blockToBlockRecord_fields cc hrec
  obtain h | ⟨p, hp, hph⟩ := ha.2
  · exact absurd h h0
  obtain ⟨-, -, hv, -⟩ := hs.peak.of_getPeak hpk
  rw [← hprev, hpp] at hp
  obtain rfl : p = peak := Option.some.inj (hp.symm.trans hv)
  omega

/-- Where the walk may stop, the height map rolled back to the fork already is the chain of
the block it stops at. -/
theorem MapIsPeakChain.stops (hs : s.Consistent) (hc : s.MapIsPeakChain)
    (hpk : s.getPeak = .ok (some peak)) (hnew : s.view rec.headerHash = none) (F : ℤ) :
    ∀ a, Function.update s.view rec.headerHash (some rec) a.headerHash = some a →
      StopsAt s F a.headerHash → ∀ k ≤ a.height,
        (s.heightMap.rollback (max F 0).toNat).hashes k =
          (ancestorAt (Function.update s.view rec.headerHash (some rec)) a k).map (·.headerHash) := by
  rintro a ha ⟨hF, hstop⟩ k hk
  have hext := update_extends (r := rec) hnew
  obtain ⟨-, -, hv, -⟩ := hs.peak.of_getPeak hpk
  -- the block the walk stops at is the peak's ancestor `c` at the fork height
  rw [heightToHash_eq, hc.2 peak hpk] at hstop
  obtain ⟨c, hcF, hca⟩ := Option.map_eq_some'.mp hstop
  have hcv : s.view c.headerHash = some c := by
    rcases ancestorAt_mem hs.linked hcF with rfl | h
    · exact hv
    · exact h
  obtain rfl : a = c := by
    rw [← hca, hext _ _ hcv] at ha; exact (Option.some.inj ha).symm
  have hlinked : LinkedInto s.view a := hs.linked.linked _ _ hcv
  have haF : a.height = F.toNat := ancestorAt_height hs.linked (hs.linked.linked _ _ hv) hcF
  rw [BlockHeightMap.rollback_hashes, if_pos (by omega), hc.2 peak hpk,
    ancestorAt_ancestorAt hs.linked (hs.linked.linked _ _ hv) hcF (by omega),
    ancestorAt_extend hs.linked hext hlinked]

/-- **The writer transaction succeeds**: for every admitted block and every hint, adding the
row and `_reconsider_peak` raise nothing; in a reorg the walk fetches stored blocks only and
ends within `height + 1` steps. -/
theorem storeWrites_ok (hs : s.Consistent) (hc : s.MapIsPeakChain) (ha : s.Admits block)
    (hrec : blockToBlockRecord cc s.view ri block none = .ok rec) :
    ∃ out, s.storeWrites cc .none block rec (decide (block.height = 0)) hint = .ok out := by
  obtain ⟨hh, -, -, -, -, -⟩ := blockToBlockRecord_fields cc hrec
  obtain ⟨W, hW⟩ : ∃ W, s.blockStore.addFullBlock .none block.headerHash block rec = .ok W :=
    ⟨_, rfl⟩
  obtain ⟨hnew, -, hWr, hWfb, hlinked⟩ := hs.newRecord ha hrec (BlockStore.addFullBlock_rows _ _ hW)
  unfold storeWrites
  rw [hW, bind_ok]
  unfold reconsiderPeak
  rcases hs.peak.getPeak with ⟨-, hpk, hempty⟩ | ⟨peak, -, hpk, -, -, -⟩ <;> rw [hpk, bind_ok]
  · -- no peak: the block is the first genesis block
    have h0 : block.height = 0 := by
      rcases ha.2 with h | ⟨p, hp, _⟩
      · exact h
      · have := hempty block.prevHeaderHash; simp only [view] at this; rw [this] at hp; cases hp
    have hb : W.db.block rec.headerHash = some block := by
      unfold StoreData.block; rw [BlockStore.addFullBlock_rows _ _ hW, hh, AList.lookup_insert]; rfl
    simp only [h0, decide_True, ite_true, BlockStore.getFullBlock, StoreFaults.run_none, bind_ok, hb,
      Option.isNone_some, Bool.false_eq_true, ite_false]
    exact ⟨_, rfl⟩
  by_cases h0 : block.height = 0
  · simp only [h0, decide_True, ite_true]
    exact ⟨_, rfl⟩
  simp only [h0, decide_False, Bool.false_eq_true, ite_false]
  split
  · exact ⟨_, rfl⟩
  -- a heavier block: the walk succeeds
  have hWrec : W.db.record rec.headerHash = some rec := by rw [hWr]; simp
  obtain ⟨L, hL, -⟩ := backtrack_replay (hWr ▸ hlinked) hWfb
    (hWr ▸ hc.stops hs hpk hnew (s.forkHeight cc rec peak hint)) hWrec (Nat.lt_succ_self _) []
  rw [hL]
  exact ⟨_, rfl⟩

/-- **A committed transaction keeps the height map the peak's chain**. -/
theorem MapIsPeakChain.commit (hs : s.Consistent) (hc : s.MapIsPeakChain) (ha : s.Admits block)
    (hrec : blockToBlockRecord cc s.view ri block none = .ok rec)
    (hfork : ∀ v b₁ b₂, cc.findForkPointInChain v b₁ b₂ = highestCommonAncestor v b₁ b₂)
    (hhint : ∀ peak f, s.getPeak = .ok (some peak) → hint = some f →
      (f : ℤ) ≤ highestCommonAncestor s.view rec peak)
    (hw : s.storeWrites cc .none block rec (decide (block.height = 0)) hint =
      .ok (work, records, summary)) :
    (s.committed rec records summary work).MapIsPeakChain := by
  obtain ⟨-, hpeak⟩ := hs.commit ha hrec hw
  obtain ⟨W, hadd, hw⟩ := bind_eq_ok hw
  obtain ⟨hnew, hlink, hWr, hWfb, hlinked⟩ :=
    hs.newRecord ha hrec (BlockStore.addFullBlock_rows _ _ hadd)
  have hext := update_extends (r := rec) hnew
  rcases reconsiderPeak_cases hw with
    ⟨hg, hpk, rfl, rfl, -⟩ | ⟨rfl, rfl, rfl, peak, hpk, -⟩ | ⟨hg, peak, L, hpk, -, hL, rfl, rfl, -⟩
  · -- the first genesis block: the map is `{0 ↦ rec}`
    obtain ⟨⟨sc, -⟩, hpk', -⟩ | ⟨h, -⟩ := hpeak
    swap; · cases h
    obtain ⟨hp0, -⟩ := hs.peak.of_getPeak_none hpk
    have h0 : rec.height = 0 := by
      obtain ⟨-, -, hht, -, -, -⟩ := blockToBlockRecord_fields cc hrec; rw [hht]; simpa using hg
    refine ⟨fun h => (by cases h), fun peak' hpk'' k => ?_⟩
    rw [hpk'] at hpk''; cases hpk''
    by_cases hk : k = 0
    · subst hk; rw [← h0]; simp [BlockHeightMap.replay]
    · rw [committed_view, ancestorAt_of_lt (by omega)]
      simp [BlockHeightMap.replay, hk, h0, hc.1 hp0]
  · -- an orphan: the peak, its chain and the map are as they were
    obtain ⟨⟨sc, h⟩, -⟩ | ⟨-, hpk', -⟩ := hpeak
    · cases h
    refine ⟨fun h => (by simpa using hc.1 h), fun peak' hpk'' k => ?_⟩
    rw [hpk'] at hpk''
    obtain ⟨-, -, hv, -⟩ := hs.peak.of_getPeak hpk''
    rw [committed_heightMap, committed_view, ancestorAt_extend hs.linked hext (hs.linked.linked _ _ hv)]
    exact hc.2 _ hpk'' k
  · -- a heavier block: the replay of the walk over the rolled-back map
    obtain ⟨⟨sc, -⟩, hpk', -⟩ | ⟨h, -⟩ := hpeak
    swap; · cases h
    have hWrec : W.db.record rec.headerHash = some rec := by rw [hWr]; simp
    obtain ⟨L', hL', hrep⟩ := backtrack_replay (hWr ▸ hlinked) hWfb
      (hWr ▸ hc.stops hs hpk hnew (s.forkHeight cc rec peak hint)) hWrec (Nat.lt_succ_self _) []
    rw [hL] at hL'
    obtain rfl : L = L' := by simpa using hL'
    have hFle := forkHeight_le hfork (hhint peak · hpk)
      (hs.peak_parent ha hrec hpk (by simpa using hg))
    refine ⟨fun h => (by cases h), fun peak' hpk'' k => ?_⟩
    rw [hpk'] at hpk''; cases hpk''
    rw [committed_heightMap, committed_view]
    simp only
    rw [hrep, ← hWr]
    dsimp only
    split
    · rfl
    · rw [BlockHeightMap.rollback_hashes, if_neg (by omega), ancestorAt_of_lt (by omega)]
      rfl

/-- **Every fault-free call keeps the height map the peak's chain.** -/
theorem MapIsPeakChain.receiveBlock {pvr : PreValidationResult} {env : CallEnv} {s' : Blockchain}
    {r : Except Exc ReceiveBlockOutput}
    (hfork : ∀ v b₁ b₂, cc.findForkPointInChain v b₁ b₂ = highestCommonAncestor v b₁ b₂)
    (hs : s.Consistent) (hc : s.MapIsPeakChain) (hhint : HintWithinFork cc s ⟨block, pvr, hint, env⟩)
    (hf : env.faults = .none) (h : s.receiveBlock cc block pvr hint env = (s', r)) :
    s'.MapIsPeakChain := by
  rcases receiveBlock_cases h with
    ⟨rfl, -, -⟩ | ⟨ri, rec, ec, body, ha, -, -, hrec, -, ⟨-, rfl, -⟩ | ⟨-, hadd⟩⟩
  · exact hc
  · exact hc
  rcases addToDatabase_cases hadd with
    ⟨e, -, rfl, -⟩ | ⟨work, records, summary, hw, ⟨hcm, -⟩ | ⟨-, rfl, -⟩⟩
  · exact hc
  · rw [hf] at hcm; cases hcm
  rw [hf] at hw
  exact MapIsPeakChain.commit (hs.with_executionClient ec) hc ha hrec hfork
    (fun peak f hpk hf => hhint ri rec peak f hrec hpk hf) hw

/-! ## Runs -/

theorem isNewPeak_eq_false {r : Except Exc ReceiveBlockOutput}
    (h : ∀ out, r = .ok out → out.1 ≠ .newPeak) : isNewPeak r = false := by
  match r, h with
  | .error _, _ => rfl
  | .ok (.newPeak, _), h => exact absurd rfl (h _ rfl)
  | .ok (.addedAsOrphan, _), _ | .ok (.invalidBlock, _), _ | .ok (.alreadyHaveBlock, _), _
  | .ok (.disconnectedBlock, _), _ => rfl

/-- Along a fault-free run the height map is the peak's chain, and the block of the most
recent `NEW_PEAK` is the peak. -/
theorem FaultFreeRun.mapIsPeakChain {last : Option Bytes32}
    (hfork : ∀ v b₁ b₂, cc.findForkPointInChain v b₁ b₂ = highestCommonAncestor v b₁ b₂)
    (hrun : FaultFreeRun cc (HintWithinFork cc) s last) :
    s.MapIsPeakChain ∧ ∀ o, s.getPeak = .ok o → last = o.map (·.headerHash) := by
  induction hrun with
  | empty => exact ⟨MapIsPeakChain.empty, fun o h => by cases h; rfl⟩
  | @step s₀ _ d hrun hf hh ih =>
    have hs := hrun.consistent
    have hcall : s₀.receiveBlock cc d.block d.pvr d.hint d.env =
        ((s₀.deliver cc d).1, (s₀.deliver cc d).2) := rfl
    refine ⟨ih.1.receiveBlock hfork hs hh hf hcall, fun o ho => ?_⟩
    rcases (hs.receiveBlock hf hcall).2 with ⟨hsame, hnot, -⟩ | ⟨sc, rec, hr, hp', hh, -⟩
    · rw [isNewPeak_eq_false hnot, if_neg Bool.false_ne_true]
      exact ih.2 o (hsame ▸ ho)
    · rw [hp'] at ho; cases ho
      rw [hr]
      exact congrArg some hh.symm

/-- The height map of `s` is the peak's chain, numbered without gaps from `0` to
`_peak_height`, with the block `last` at the peak height and, at every height above `0`, a
stored record of that height whose `prev_hash` is the map's hash one below; and the writer
transaction of every admitted block succeeds from `s`, whatever the hint. -/
def HeightMapIsPeakChain (cc : Collaborators) (s : Blockchain) (last : Option Bytes32) : Prop :=
  (∀ block ri rec hint, s.Admits block → blockToBlockRecord cc s.view ri block none = .ok rec →
    ∃ out, s.storeWrites cc .none block rec (decide (block.height = 0)) hint = .ok out) ∧
  match s.peakHeight with
  | none => last = none ∧ ∀ k, s.heightMap.hashes k = none
  | some p =>
    (∀ k, (s.heightMap.hashes k).isSome ↔ k ≤ p) ∧ s.heightMap.hashes p = last ∧
    ∀ h, 0 < h → h ≤ p → ∃ x r, s.heightMap.hashes h = some x ∧ s.blockStore.db.record x = some r ∧
      r.height = h ∧ s.heightMap.hashes (h - 1) = some r.prevHash

/-- **The height map is the peak's chain**: with a truthful `find_fork_point_in_chain` and
fork hints within the fork, every state of every fault-free run from the empty chain has the
peak's ancestor chain as its height map, whatever reorgs happened. -/
theorem heightMap_is_peak_chain {last : Option Bytes32}
    (hfork : ∀ v b₁ b₂, cc.findForkPointInChain v b₁ b₂ = highestCommonAncestor v b₁ b₂)
    (hrun : FaultFreeRun cc (HintWithinFork cc) s last) : HeightMapIsPeakChain cc s last := by
  have hs := hrun.consistent
  obtain ⟨hc, hlast⟩ := hrun.mapIsPeakChain hfork
  refine ⟨fun block ri rec hint ha hrec => storeWrites_ok hs hc ha hrec, ?_⟩
  obtain ⟨hp0, hpk, -⟩ | ⟨peak, hp, hpk, -, hv, -⟩ := hs.peak.getPeak
  · rw [hp0]; exact ⟨hlast none hpk, hc.1 hp0⟩
  rw [hp]
  have hchain := hc.2 peak hpk
  have hlink := hs.linked.linked _ _ hv
  refine ⟨fun k => ?_, by rw [hchain, ancestorAt_self, hlast _ hpk], fun h h0 hh => ?_⟩
  · rw [hchain, Option.isSome_map']
    exact ⟨fun h => le_of_ancestorAt (Option.get_mem h), ancestorAt_isSome hs.linked hlink⟩
  · obtain ⟨a, ha⟩ := Option.isSome_iff_exists.mp (ancestorAt_isSome hs.linked hlink hh)
    have hav : s.view a.headerHash = some a := by
      rcases ancestorAt_mem hs.linked ha with rfl | h
      · exact hv
      · exact h
    obtain ⟨k, rfl⟩ : ∃ k, h = k + 1 := ⟨h - 1, by omega⟩
    refine ⟨a.headerHash, a, by rw [hchain, ha]; rfl, hs.stored ▸ hav,
      ancestorAt_height hs.linked hlink ha, ?_⟩
    rw [hchain]
    exact ancestorAt_prevHash hs.linked hlink ha

/-- The chain `1 ← 2 ← 3` is reached by a fault-free run without hints, with a truthful
`find_fork_point_in_chain`, so its height map is the chain of its peak `3`. -/
theorem threeBlockChain_heightMap_is_peak_chain :
    HeightMapIsPeakChain sampleCollaborators threeBlockChain (some 3) :=
  heightMap_is_peak_chain (fun _ _ _ => rfl)
    (show FaultFreeRun sampleCollaborators (HintWithinFork sampleCollaborators) threeBlockChain (some 3) from
      .step _ (.step _ (.step _ .empty rfl fun _ _ _ _ _ _ h => by cases h) rfl
        fun _ _ _ _ _ _ h => by cases h) rfl fun _ _ _ _ _ _ h => by cases h)

/-- After the genesis block `1` returned `NEW_PEAK`, its heavier child `2` is delivered with
`maybe_flush` failing: the call raises after `_peak_height` moved, so the height map names
`2` at `_peak_height`, not `1`, the block of the most recent call that returned `NEW_PEAK`. -/
theorem maybeFlush_failure_peak_not_last_new_peak :
    isNewPeak (Blockchain.empty.deliver sampleCollaborators
        (sampleDelivery (sampleBlock 1 0 0 1 none) none)).2 = true ∧
      childFlushFails.2 = .error .storeError ∧ childFlushFails.1.peakHeight = some 1 ∧
      childFlushFails.1.heightMap.hashes 1 = some 2 := by
  decide

end Blockchain

end CorpochainBeacon
