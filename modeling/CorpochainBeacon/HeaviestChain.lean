import CorpochainBeacon.Reorg
import CorpochainBeacon.Atomicity

/-!
# Heaviest-chain fork choice

Over the runs of `receive_block` from the empty chain in which no block-store operation
fails and `height_map.maybe_flush()` does not raise:

* `Consistent` — the invariant: the cache is well linked, the store's rows hold exactly the
  cached records, the height map names cached blocks only, and `PeakHeaviest`: without a
  peak the cache is empty, and the peak is the cached record the height map names at
  `_peak_height`, at least as heavy as every cached block above genesis;
* `Consistent.commit` — a committed transaction keeps it: the first genesis block becomes
  the peak, an orphan leaves the peak as it was, a heavier block becomes the peak;
* `Consistent.receiveBlock` — so does every call, and the peak it leaves is the old one
  unless it returned `NEW_PEAK`, in which case it is the block's record;
* `FaultFreeRun` — the runs, with the block of the most recent `NEW_PEAK`;
* **`receiveBlock_peak_is_heaviest`** — fork choice is heaviest-chain in every state of
  every run;
* `maybeFlush_failure_moves_peak` — a flush that raises does so after `_peak_height` moved:
  the peak then changes in a call that raises.
-/

namespace CorpochainBeacon

namespace Blockchain

variable {cc : Collaborators} {s : Blockchain} {block : FullBlock} {rec : BlockRecord} {ri : ℕ}
  {hint : Option ℕ} {work : BlockStore} {records : List BlockRecord}
  {summary : Option StateChangeSummary}

/-! ## The invariant -/

/-- Without a peak height the cache is empty; with one, the peak is the cached record the
height map names there, at least as heavy as every cached block above genesis. -/
def PeakHeaviest (s : Blockchain) : Prop :=
  match s.peakHeight with
  | none => ∀ x, s.view x = none
  | some p => ∃ peak, s.heightMap.hashes p = some peak.headerHash ∧
      s.view peak.headerHash = some peak ∧ peak.height = p ∧
      ∀ x r, s.view x = some r → 0 < r.height → r.weight ≤ peak.weight

/-- What every fault-free run of `receive_block` from the empty chain keeps. -/
structure Consistent (s : Blockchain) : Prop where
  /-- every cached record is keyed by its hash, its parent cached one height below -/
  linked : WellLinked s.view
  /-- the store's rows hold exactly the cached records -/
  stored : s.blockStore.db.record = s.view
  /-- a stored block has its record's height -/
  blockHeights : ∀ x fb r, s.blockStore.db.fullBlocks.lookup x = some (fb, r) → fb.height = r.height
  /-- the height map names cached blocks only -/
  mapCached : ∀ k x, s.heightMap.hashes k = some x → (s.view x).isSome
  peak : s.PeakHeaviest

theorem Consistent.empty : Blockchain.empty.Consistent where
  linked := ⟨fun _ _ h => (by cases h), fun _ _ h => (by cases h)⟩
  stored := rfl
  blockHeights := fun _ _ _ h => by cases h
  mapCached := fun _ _ h => by cases h
  peak := fun _ => rfl

/-- `get_peak()` under `PeakHeaviest`: `None` without a peak height, else the peak. -/
theorem PeakHeaviest.getPeak (h : s.PeakHeaviest) :
    (s.peakHeight = none ∧ s.getPeak = .ok none ∧ ∀ x, s.view x = none) ∨
    ∃ peak, s.peakHeight = some peak.height ∧ s.getPeak = .ok (some peak) ∧
      s.heightMap.hashes peak.height = some peak.headerHash ∧ s.view peak.headerHash = some peak ∧
      ∀ x r, s.view x = some r → 0 < r.height → r.weight ≤ peak.weight := by
  unfold PeakHeaviest at h
  cases hp : s.peakHeight with
  | none => rw [hp] at h; exact .inl ⟨rfl, getPeak_of_none hp, h⟩
  | some p =>
    rw [hp] at h
    obtain ⟨peak, hm, hv, rfl, hw⟩ := h
    exact .inr ⟨peak, rfl, getPeak_of_hash hp hm hv, hm, hv, hw⟩

/-- The peak `get_peak()` returns is the cached record the height map names at the peak
height. -/
theorem PeakHeaviest.of_getPeak (h : s.PeakHeaviest) {peak : BlockRecord}
    (hpk : s.getPeak = .ok (some peak)) :
    s.peakHeight = some peak.height ∧ s.heightMap.hashes peak.height = some peak.headerHash ∧
      s.view peak.headerHash = some peak ∧
      ∀ x r, s.view x = some r → 0 < r.height → r.weight ≤ peak.weight := by
  obtain ⟨-, hp0, -⟩ | ⟨peak', hph, hp', hm, hv, hw⟩ := h.getPeak
  · rw [hp0] at hpk; cases hpk
  rw [hpk] at hp'; cases hp'
  exact ⟨hph, hm, hv, hw⟩

/-- Without a peak, the peak height is `None` and the cache is empty. -/
theorem PeakHeaviest.of_getPeak_none (h : s.PeakHeaviest) (hpk : s.getPeak = .ok none) :
    s.peakHeight = none ∧ ∀ x, s.view x = none := by
  obtain ⟨hp, -, hv⟩ | ⟨peak, -, hp', -⟩ := h.getPeak
  · exact ⟨hp, hv⟩
  · rw [hpk] at hp'; cases hp'

theorem PeakHeaviest.of_peak {peak : BlockRecord} (hp : s.peakHeight = some peak.height)
    (hm : s.heightMap.hashes peak.height = some peak.headerHash)
    (hv : s.view peak.headerHash = some peak)
    (hw : ∀ x r, s.view x = some r → 0 < r.height → r.weight ≤ peak.weight) : s.PeakHeaviest := by
  unfold PeakHeaviest
  rw [hp]
  exact ⟨peak, hm, hv, rfl, hw⟩

/-! ## One committed transaction -/

@[simp] theorem committed_view :
    (s.committed rec records summary work).view = Function.update s.view rec.headerHash (some rec) :=
  view_addBlockRecord s rec

/-- A record of the view after the commit is the new one, or was there before. -/
theorem committed_view_eq_some {x : Bytes32} {r : BlockRecord}
    (hx : (s.committed rec records summary work).view x = some r) :
    (x = rec.headerHash ∧ r = rec) ∨ s.view x = some r :=
  update_eq_some (by rwa [committed_view] at hx)

@[simp] theorem committed_peakHeight :
    (s.committed rec records summary work).peakHeight =
      if summary.isSome then some rec.height else s.peakHeight := rfl

@[simp] theorem committed_heightMap :
    (s.committed rec records summary work).heightMap =
      (match summary with
        | some sc => s.heightMap.rollback sc.forkHeight
        | none => s.heightMap).replay records := rfl

/-- The rows a committed transaction leaves: the cached records and the new one. -/
theorem Consistent.commit_rows (hs : s.Consistent) (hh : rec.headerHash = block.headerHash)
    (hht : rec.height = block.height)
    (hrows : work.db.fullBlocks = s.blockStore.db.fullBlocks.insert block.headerHash (block, rec)) :
    work.db.record = Function.update s.view rec.headerHash (some rec) ∧
      ∀ x fb r, work.db.fullBlocks.lookup x = some (fb, r) → fb.height = r.height := by
  refine ⟨funext fun y => ?_, fun x fb r hx => ?_⟩
  · unfold StoreData.record
    rw [hrows]
    by_cases he : y = rec.headerHash
    · subst he; rw [hh]; simp
    · rw [AList.lookup_insert_ne (hh ▸ he), Function.update_noteq he, ← hs.stored]
      rfl
  · rw [hrows] at hx
    by_cases he : x = block.headerHash
    · subst he; simp at hx; rw [← hx.1, ← hx.2, hht]
    · rw [AList.lookup_insert_ne he] at hx; exact hs.blockHeights x fb r hx

/-- The facts about a new block's record that every transaction lemma starts from: the
record is new to the cache, is linked into it, and the store with its row added holds the
cache and the record. -/
theorem Consistent.newRecord (hs : s.Consistent) (ha : s.Admits block)
    (hrec : blockToBlockRecord cc s.view ri block none = .ok rec) (hrows : work.db.fullBlocks =
      s.blockStore.db.fullBlocks.insert block.headerHash (block, rec)) :
    s.view rec.headerHash = none ∧ LinkedInto s.view rec ∧
      work.db.record = Function.update s.view rec.headerHash (some rec) ∧
      (∀ x fb r, work.db.fullBlocks.lookup x = some (fb, r) → fb.height = r.height) ∧
      WellLinked (Function.update s.view rec.headerHash (some rec)) := by
  obtain ⟨hh, hprev, hht, -, -, -⟩ := blockToBlockRecord_fields cc hrec
  have hnew : s.view rec.headerHash = none := by
    rw [hh]; exact AList.lookup_eq_none.mpr ha.1
  have hlink : LinkedInto s.view rec := fun h0 => by
    rcases ha.2 with h | ⟨p, hp, hph⟩
    · omega
    · exact ⟨p, hprev ▸ hp, by omega⟩
  obtain ⟨hst, hbh⟩ := hs.commit_rows hh hht hrows
  exact ⟨hnew, hlink, hst, hbh, hs.linked.insert hnew hlink⟩

/-- **A committed transaction keeps the invariant.** The peak it leaves is the block's record
(when the transaction made a state change: the chain had no peak, or the block is heavier
than the peak and above genesis), or the old peak (an orphan: a genesis block, or a block no
heavier than the peak). -/
theorem Consistent.commit (hs : s.Consistent) (ha : s.Admits block)
    (hrec : blockToBlockRecord cc s.view ri block none = .ok rec)
    (hw : s.storeWrites cc .none block rec (decide (block.height = 0)) hint =
      .ok (work, records, summary)) :
    (s.committed rec records summary work).Consistent ∧
      ((∃ sc, summary = some sc) ∧ (s.committed rec records summary work).getPeak = .ok (some rec) ∧
          (s.getPeak = .ok none ∨
            ∃ peak, s.getPeak = .ok (some peak) ∧ peak.weight < rec.weight ∧ 0 < block.height) ∨
        summary = none ∧ (s.committed rec records summary work).getPeak = s.getPeak ∧
          ∃ peak, s.getPeak = .ok (some peak) ∧ (block.height = 0 ∨ rec.weight ≤ peak.weight)) := by
  obtain ⟨hh, -, hht, -⟩ := blockToBlockRecord_fields cc hrec
  obtain ⟨work₀, hadd, hw⟩ := bind_eq_ok hw
  have hrows₀ := BlockStore.addFullBlock_rows _ _ hadd
  obtain ⟨hnew, -, hst₀, hbh₀, hlinked⟩ := hs.newRecord ha hrec hrows₀
  have hcached : ∀ x, (s.view x).isSome →
      (Function.update s.view rec.headerHash (some rec) x).isSome := fun x hx => by
    obtain ⟨q, hq⟩ := Option.isSome_iff_exists.mp hx
    rw [update_extends hnew x q hq]; rfl
  rcases reconsiderPeak_cases hw with
    ⟨hg, hpk, rfl, rfl, hrows⟩ | ⟨rfl, rfl, rfl, peak, hpk, hor⟩ |
      ⟨hg, peak, L, hpk, hlt, hL, rfl, rfl, hrows⟩
  · -- the first genesis block
    obtain ⟨hst, hbh⟩ := hs.commit_rows hh hht (hrows.trans hrows₀)
    have h0 : rec.height = 0 := by rw [hht]; simpa using hg
    obtain ⟨-, hempty⟩ := hs.peak.of_getPeak_none hpk
    have hm0 : ∀ k, s.heightMap.hashes k = none := fun k => by
      cases hk : s.heightMap.hashes k with
      | none => rfl
      | some x => have := hs.mapCached k x hk; rw [hempty] at this; cases this
    have hmap : ∀ k, (s.committed rec [rec] (some ⟨rec, 0⟩) work).heightMap.hashes k =
        if k = rec.height then some rec.headerHash else none := fun k => by
      simp [BlockHeightMap.replay, hm0]
    have hpeak' : (s.committed rec [rec] (some ⟨rec, 0⟩) work).peakHeight = some rec.height := rfl
    have hm' := (hmap rec.height).trans (if_pos rfl)
    refine ⟨⟨by simpa using hlinked, by simpa using hst, hbh, fun k x hk => ?_,
        PeakHeaviest.of_peak hpeak' hm' (by simp) fun x r hx hr => ?_⟩,
      .inl ⟨⟨_, rfl⟩, getPeak_of_hash hpeak' hm' (by simp), .inl hpk⟩⟩
    · rw [hmap] at hk; split at hk <;> cases hk; simp
    · rcases committed_view_eq_some hx with ⟨-, rfl⟩ | hx
      · omega
      · rw [hempty] at hx; cases hx
  · -- an orphan
    obtain ⟨hph, hm, hv, hwt⟩ := hs.peak.of_getPeak hpk
    have hne : peak.headerHash ≠ rec.headerHash := fun he => by rw [he, hnew] at hv; cases hv
    have hv' : (s.committed rec [] none work).view peak.headerHash = some peak := by
      rw [committed_view, Function.update_noteq hne, hv]
    have hph' : (s.committed rec [] none work).peakHeight = some peak.height := hph
    have hm' : (s.committed rec [] none work).heightMap.hashes peak.height = some peak.headerHash := hm
    refine ⟨⟨by simpa using hlinked, by simpa using hst₀, hbh₀,
      fun k x hk => by rw [committed_view]; exact hcached x (hs.mapCached k x hk),
      PeakHeaviest.of_peak hph' hm' hv' fun x r hx hr => ?_⟩,
      .inr ⟨rfl, (getPeak_of_hash hph' hm' hv').trans hpk.symm, peak, hpk, ?_⟩⟩
    · rcases committed_view_eq_some hx with ⟨-, rfl⟩ | hx
      · exact hor.resolve_left fun hg => by simp at hg; omega
      · exact hwt x r hx hr
    · simpa using hor
  · -- a heavier block: the walk and the replay
    obtain ⟨hst, hbh⟩ := hs.commit_rows hh hht (hrows.trans hrows₀)
    obtain ⟨-, -, -, hwt⟩ := hs.peak.of_getPeak hpk
    obtain ⟨L', rfl, hLrows, hhead⟩ := backtrack_rows hL
    -- the walk starts at the new block, which the height map cannot name
    obtain ⟨e, rest, he, rfl⟩ := hhead fun ⟨_, hstop⟩ => by
      have := hs.mapCached _ _ ((heightToHash_eq s _).symm.trans hstop)
      rw [hnew] at this; cases this
    have he' : e = (block, rec) := by
      rw [hrows₀, ← hh, AList.lookup_insert] at he; exact (Option.some.inj he).symm
    subst he'
    have hph' : (s.committed rec ((([] ++ (block, rec) :: rest).reverse.map Prod.snd))
        (some ⟨rec, (max (s.forkHeight cc rec peak hint) 0).toNat⟩) work).peakHeight =
        some rec.height := rfl
    have hm' : (s.committed rec ((([] ++ (block, rec) :: rest).reverse.map Prod.snd))
        (some ⟨rec, (max (s.forkHeight cc rec peak hint) 0).toNat⟩) work).heightMap.hashes rec.height =
        some rec.headerHash := by
      simp [BlockHeightMap.replay_append_singleton]
    have hv' : (s.committed rec ((([] ++ (block, rec) :: rest).reverse.map Prod.snd))
        (some ⟨rec, (max (s.forkHeight cc rec peak hint) 0).toNat⟩) work).view rec.headerHash =
        some rec := by simp
    refine ⟨⟨by simpa using hlinked, by simpa using hst, hbh, fun k x hk => ?_,
      PeakHeaviest.of_peak hph' hm' hv' fun x r hx hr => ?_⟩,
      .inl ⟨⟨_, rfl⟩, getPeak_of_hash hph' hm' hv', .inr ⟨peak, hpk, hlt, by simp at hg; omega⟩⟩⟩
    · rw [committed_view]
      rcases BlockHeightMap.replay_hashes_mem _ hk with hk | ⟨r, hr, rfl⟩
      · exact hcached x (hs.mapCached k x (by simp at hk; exact hk.2))
      · obtain ⟨e, he, rfl⟩ := List.mem_map.mp hr
        obtain ⟨y, hy⟩ := hLrows e (by simp at he ⊢; exact he.symm)
        have hyr : work₀.db.record y = some e.2 := by simp [StoreData.record, hy]
        rw [hst₀] at hyr
        rw [hlinked.keyed _ _ hyr, hyr]; rfl
    · rcases committed_view_eq_some hx with ⟨-, rfl⟩ | hx
      · exact le_refl _
      · exact (hwt x r hx hr).trans hlt.le

/-! ## One call -/

theorem Consistent.with_executionClient (hs : s.Consistent) (ec : ExecutionClient) :
    ({ s with executionClient := ec }).Consistent :=
  ⟨hs.linked, hs.stored, hs.blockHeights, hs.mapCached, hs.peak⟩

/-- **One fault-free call keeps the invariant.** Either the peak stays as it was and the call
does not return `NEW_PEAK` (an added orphan being a genesis block or no heavier than the
peak), or the call returns `NEW_PEAK` and its block's record is the new peak: the chain had
no peak, or the block is heavier than the peak and above genesis. -/
theorem Consistent.receiveBlock {pvr : PreValidationResult} {env : CallEnv} {s' : Blockchain}
    {r : Except Exc ReceiveBlockOutput} (hs : s.Consistent) (hf : env.faults = .none)
    (h : s.receiveBlock cc block pvr hint env = (s', r)) :
    s'.Consistent ∧
      ((s'.getPeak = s.getPeak ∧ (∀ out, r = .ok out → out.1 ≠ .newPeak) ∧
          ∀ out, r = .ok out → out.1 = .addedAsOrphan →
            ∃ peak, s.getPeak = .ok (some peak) ∧ (block.height = 0 ∨ block.weight ≤ peak.weight)) ∨
        ∃ sc rec, r = .ok (.newPeak, none, some sc) ∧ s'.getPeak = .ok (some rec) ∧
          rec.headerHash = block.headerHash ∧ rec.weight = block.weight ∧
          (s.getPeak = .ok none ∨
            ∃ peak, s.getPeak = .ok (some peak) ∧ peak.weight < block.weight ∧ 0 < block.height)) := by
  have notAdded : ∀ {r : Except Exc ReceiveBlockOutput}, NotAdded r →
      (∀ out, r = .ok out → out.1 ≠ .newPeak) ∧ ∀ out, r = .ok out → out.1 ≠ .addedAsOrphan :=
    fun hn => ⟨fun out ho => (hn out ho).1, fun out ho => (hn out ho).2⟩
  rcases receiveBlock_cases h with
    ⟨rfl, hn, -⟩ | ⟨ri, rec, ec, body, ha, -, -, hrec, -, ⟨-, rfl, hn⟩ | ⟨-, hadd⟩⟩
  · exact ⟨hs, .inl ⟨rfl, (notAdded hn).1, fun out ho h => ((notAdded hn).2 out ho h).elim⟩⟩
  · exact ⟨hs.with_executionClient ec,
      .inl ⟨rfl, (notAdded hn).1, fun out ho h => ((notAdded hn).2 out ho h).elim⟩⟩
  have hs₁ := hs.with_executionClient ec
  rcases addToDatabase_cases hadd with
    ⟨e, -, rfl, rfl⟩ | ⟨work, records, summary, hw, ⟨hc, -⟩ | ⟨-, rfl, rfl⟩⟩
  · -- the transaction aborted: the rows and the chain are untouched
    exact ⟨⟨hs.linked, hs.stored, hs.blockHeights, hs.mapCached, hs.peak⟩,
      .inl ⟨rfl, fun _ ho => (by cases ho), fun _ ho => (by cases ho)⟩⟩
  · rw [hf] at hc; cases hc
  rw [hf] at hw ⊢
  obtain ⟨hs', hpeak⟩ := hs₁.commit ha hrec hw
  obtain ⟨-, -, -, hwt, -, -⟩ := blockToBlockRecord_fields cc hrec
  obtain ⟨hh, -⟩ := blockToBlockRecord_fields cc hrec
  refine ⟨hs', ?_⟩
  rcases hpeak with ⟨⟨sc, rfl⟩, hp', hold⟩ | ⟨rfl, hp', peak, hpk, hor⟩
  · exact .inr ⟨sc, rec, rfl, hp', hh, hwt, hwt ▸ hold⟩
  · exact .inl ⟨hp', fun _ ho => (by cases ho; exact ReceiveBlockResult.noConfusion),
      fun _ _ _ => ⟨peak, hpk, hwt ▸ hor⟩⟩

/-! ## Runs -/

/-- The call returned `NEW_PEAK`. -/
def isNewPeak : Except Exc ReceiveBlockOutput → Bool
  | .ok (.newPeak, _, _) => true
  | _ => false

/-- The states reached from the empty chain by `receive_block` calls in which no store
operation fails and every delivery satisfies `allowed` in the state it is made in; `last` is
the block of the most recent call that returned `NEW_PEAK`. -/
inductive FaultFreeRun (cc : Collaborators) (allowed : Blockchain → Delivery → Prop) :
    Blockchain → Option Bytes32 → Prop
  | empty : FaultFreeRun cc allowed .empty none
  | step {s : Blockchain} {last : Option Bytes32} (d : Delivery) :
      FaultFreeRun cc allowed s last → d.env.faults = .none → allowed s d →
      FaultFreeRun cc allowed (s.deliver cc d).1
        (if isNewPeak (s.deliver cc d).2 then some d.block.headerHash else last)

theorem FaultFreeRun.consistent {allowed : Blockchain → Delivery → Prop} {last : Option Bytes32}
    (h : FaultFreeRun cc allowed s last) : s.Consistent := by
  induction h with
  | empty => exact Consistent.empty
  | step d _ hf _ ih => exact (ih.receiveBlock hf rfl).1

/-- Fork choice is heaviest-chain at `s`: its peak is at least as heavy as every stored block
above genesis, and every fault-free call from `s` keeps a peak at least as heavy, changes the
peak only when it returns `NEW_PEAK`, and then makes its own block the peak. -/
def HeaviestChainAt (cc : Collaborators) (s : Blockchain) : Prop :=
  (∀ peak, s.getPeak = .ok (some peak) →
    ∀ x fb r, s.blockStore.db.fullBlocks.lookup x = some (fb, r) → 0 < r.height →
      r.weight ≤ peak.weight) ∧
  ∀ d : Delivery, d.env.faults = .none →
    (∀ peak, s.getPeak = .ok (some peak) →
      ∃ peak', (s.deliver cc d).1.getPeak = .ok (some peak') ∧ peak.weight ≤ peak'.weight) ∧
    ((s.deliver cc d).1.getPeak = s.getPeak ∨ ∃ sc, (s.deliver cc d).2 = .ok (.newPeak, none, some sc)) ∧
    ∀ out, (s.deliver cc d).2 = .ok out → out.1 = .newPeak →
      ∃ rec, (s.deliver cc d).1.getPeak = .ok (some rec) ∧ rec.headerHash = d.block.headerHash

/-- **Heaviest-chain fork choice** holds in every state of every fault-free run from the
empty chain, whatever the collaborators answer and whatever fork hints are passed. -/
theorem receiveBlock_peak_is_heaviest {last : Option Bytes32}
    (hrun : FaultFreeRun cc (fun _ _ => True) s last) : HeaviestChainAt cc s := by
  have hs := hrun.consistent
  refine ⟨fun peak hpk x fb r hx hr => ?_, fun d hf => ?_⟩
  · obtain ⟨-, -, -, hwt⟩ := hs.peak.of_getPeak hpk
    have : s.blockStore.db.record x = some r := by simp [StoreData.record, hx]
    rw [hs.stored] at this
    exact hwt x r this hr
  obtain ⟨-, hstep⟩ := hs.receiveBlock hf (rfl : s.receiveBlock cc d.block d.pvr d.hint d.env = _)
  rcases hstep with ⟨hsame, hnot, -⟩ | ⟨sc, rec, hr, hp', hh, hw, hold⟩
  · refine ⟨fun peak hpk => ⟨peak, hsame.trans hpk, le_refl _⟩, .inl hsame, fun out ho hnp => ?_⟩
    exact absurd hnp (hnot out ho)
  · refine ⟨fun peak hpk => ⟨rec, hp', ?_⟩, .inr ⟨sc, hr⟩, fun _ _ _ => ⟨rec, hp', hh⟩⟩
    rcases hold with h0 | ⟨peak', hpk', hlt, -⟩
    · rw [hpk] at h0; cases h0
    · rw [hpk] at hpk'; cases hpk'; omega

/-- The chain `1 ← 2 ← 3` is reached by a fault-free run, so fork choice is heaviest-chain
there. -/
theorem threeBlockChain_peak_is_heaviest : HeaviestChainAt sampleCollaborators threeBlockChain :=
  receiveBlock_peak_is_heaviest
    (show FaultFreeRun sampleCollaborators (fun _ _ => True) threeBlockChain (some 3) from
      .step _ (.step _ (.step _ .empty rfl trivial) rfl trivial) rfl trivial)

/-- The heavier child `2` of the genesis block `1`, delivered to `genesisOnly` with
`maybe_flush` failing: the call raises instead of returning `NEW_PEAK`, yet the peak moved
from `1` to `2`. -/
theorem maybeFlush_failure_moves_peak :
    genesisOnly.getPeak.map (Option.map (·.headerHash)) = .ok (some 1) ∧
      childFlushFails.2 = .error .storeError ∧
      childFlushFails.1.getPeak.map (Option.map (·.headerHash)) = .ok (some 2) := by
  decide

end Blockchain

end CorpochainBeacon
