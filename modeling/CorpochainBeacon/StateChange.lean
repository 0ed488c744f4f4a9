import CorpochainBeacon.PeakChain

/-!
# The state change summary names the fork

A call of `receive_block` that returns `NEW_PEAK` hands its caller a `StateChangeSummary`
whose `fork_height` the caller takes as the height below which the old and the new canonical
chain coincide. With a truthful `find_fork_point_in_chain` and fork hints within the fork,
over every fault-free run from the empty chain:

* `highestCommonAncestor_spec` — the scan of `find_fork_point_in_chain` returns the highest
  height at which the ancestors of its two blocks carry the same hash, or `-1`;
* `ancestorAt_eq_below`, `highestCommonAncestor_parts` — below such a height the two blocks
  have the same ancestors, and one above it (the first block being no ancestor of the
  second) their ancestors differ;
* `forkHeight_spec` — the same for the fork height `_reconsider_peak` computes, whichever
  of its three sources (the parent being the peak, the hint, the scan) it comes from;
* `ForkReported.commit`, `ForkReported.receiveBlock` — a call that does not return
  `NEW_PEAK` leaves `_peak_height` and the height map as they were; one that does makes the
  block the peak, and the old and the new height map agree up to its `fork_height` and,
  without a hint, differ one above it;
* **`receiveBlock_reports_fork`** — so it is along every fault-free run;
* **`receiveBlock_again_already_have`** — a block that a call added is `ALREADY_HAVE_BLOCK`
  for the next call, which leaves the chain as it is.
-/

namespace CorpochainBeacon

/-- `find?` over `m, m - 1, …, 0` returns the highest index that passes the test. -/
theorem find?_range_reverse_eq_some {p : ℕ → Bool} {m K : ℕ}
    (h : (List.range (m + 1)).reverse.find? p = some K) :
    K ≤ m ∧ p K = true ∧ ∀ j, K < j → j ≤ m → p j = false := by
  induction m with
  | zero =>
    obtain rfl : K = 0 := by simpa using List.mem_of_find?_eq_some h
    exact ⟨le_rfl, List.find?_some h, fun j h₁ h₂ => absurd h₂ (by omega)⟩
  | succ m ih =>
    rw [List.range_succ, List.reverse_append, List.reverse_singleton, List.singleton_append] at h
    by_cases hp : p (m + 1)
    · rw [List.find?_cons_of_pos _ hp] at h
      cases h
      exact ⟨le_rfl, hp, fun j h₁ h₂ => absurd h₂ (by omega)⟩
    · rw [List.find?_cons_of_neg _ hp] at h
      obtain ⟨hK, hpK, hgt⟩ := ih h
      refine ⟨by omega, hpK, fun j h₁ h₂ => ?_⟩
      by_cases hj : j = m + 1
      · subst hj; simpa using hp
      · exact hgt j h₁ (by omega)

section CommonAncestor

variable {v : Bytes32 → Option BlockRecord} (hv : WellLinked v) {b₁ b₂ : BlockRecord}
include hv

/-- The ancestors at `k` of two records linked into a well-linked lookup, both present below
the lower of their heights. -/
theorem ancestorAt_both (h₁ : LinkedInto v b₁) (h₂ : LinkedInto v b₂) {k : ℕ} (hk₁ : k ≤ b₁.height)
    (hk₂ : k ≤ b₂.height) : ∃ a₁ a₂, ancestorAt v b₁ k = some a₁ ∧ ancestorAt v b₂ k = some a₂ :=
  let ⟨a₁, ha₁⟩ := Option.isSome_iff_exists.mp (ancestorAt_isSome hv h₁ hk₁)
  let ⟨a₂, ha₂⟩ := Option.isSome_iff_exists.mp (ancestorAt_isSome hv h₂ hk₂)
  ⟨a₁, a₂, ha₁, ha₂⟩

/-- **The scan of `find_fork_point_in_chain`** over two linked records returns the highest
height, up to the lower of the two, at which their ancestors carry the same hash; or `-1`
when there is none. -/
theorem highestCommonAncestor_spec (h₁ : LinkedInto v b₁) (h₂ : LinkedInto v b₂) :
    (highestCommonAncestor v b₁ b₂ = -1 ∧ ∀ k, k ≤ b₁.height → k ≤ b₂.height →
        (ancestorAt v b₁ k).map (·.headerHash) ≠ (ancestorAt v b₂ k).map (·.headerHash)) ∨
    ∃ n : ℕ, highestCommonAncestor v b₁ b₂ = n ∧ n ≤ b₁.height ∧ n ≤ b₂.height ∧
      (ancestorAt v b₁ n).map (·.headerHash) = (ancestorAt v b₂ n).map (·.headerHash) ∧
      ∀ k, n < k → k ≤ b₁.height → k ≤ b₂.height →
        (ancestorAt v b₁ k).map (·.headerHash) ≠ (ancestorAt v b₂ k).map (·.headerHash) := by
  unfold highestCommonAncestor
  split
  · rename_i n hn
    obtain ⟨hnm, hpn, hgt⟩ := find?_range_reverse_eq_some hn
    obtain ⟨a₁, a₂, ha₁, ha₂⟩ := ancestorAt_both hv h₁ h₂ (k := n) (by omega) (by omega)
    refine .inr ⟨n, rfl, by omega, by omega, ?_, fun k hk k₁ k₂ => ?_⟩
    · simp only [ha₁, ha₂, beq_iff_eq, Option.map_some'] at hpn ⊢
      rw [hpn]
    · have hk := hgt k hk (by omega)
      obtain ⟨a₁, a₂, ha₁, ha₂⟩ := ancestorAt_both hv h₁ h₂ k₁ k₂
      simp only [ha₁, ha₂, beq_eq_false_iff_ne] at hk ⊢
      simpa using hk
  · rename_i hn
    refine .inl ⟨rfl, fun k k₁ k₂ => ?_⟩
    have hk := List.find?_eq_none.mp hn k (by simp only [List.mem_reverse, List.mem_range]; omega)
    obtain ⟨a₁, a₂, ha₁, ha₂⟩ := ancestorAt_both hv h₁ h₂ k₁ k₂
    simp only [ha₁, ha₂, beq_iff_eq] at hk ⊢
    simpa using hk

/-- The scan gives the same answer in every extension of the lookup. -/
theorem highestCommonAncestor_extend {v' : Bytes32 → Option BlockRecord}
    (hext : ∀ x r, v x = some r → v' x = some r) (h₁ : LinkedInto v b₁) (h₂ : LinkedInto v b₂) :
    highestCommonAncestor v' b₁ b₂ = highestCommonAncestor v b₁ b₂ := by
  simp only [highestCommonAncestor, ancestorAt_extend hv hext h₁, ancestorAt_extend hv hext h₂]

/-- Two records of the lookup whose ancestors at `n` carry the same hash have the same
ancestors at every height up to `n`. -/
theorem ancestorAt_eq_below (h₁ : v b₁.headerHash = some b₁) (h₂ : v b₂.headerHash = some b₂)
    {n : ℕ} (hn : n ≤ b₁.height)
    (he : (ancestorAt v b₁ n).map (·.headerHash) = (ancestorAt v b₂ n).map (·.headerHash))
    {k : ℕ} (hk : k ≤ n) : ancestorAt v b₁ k = ancestorAt v b₂ k := by
  have stored : ∀ {b a : BlockRecord}, v b.headerHash = some b → ancestorAt v b n = some a →
      v a.headerHash = some a := fun hb ha => (ancestorAt_mem hv ha).elim (· ▸ hb) id
  obtain ⟨a₁, ha₁⟩ := Option.isSome_iff_exists.mp (ancestorAt_isSome hv (hv.linked _ _ h₁) hn)
  rw [ha₁] at he
  obtain ⟨a₂, ha₂, hh⟩ := Option.map_eq_some'.mp he.symm
  obtain rfl : a₂ = a₁ := Option.some.inj ((stored h₂ ha₂).symm.trans (hh ▸ stored h₁ ha₁))
  rw [ancestorAt_ancestorAt hv (hv.linked _ _ h₁) ha₁ hk,
    ancestorAt_ancestorAt hv (hv.linked _ _ h₂) ha₂ hk]

/-- What the scan says of two records of the lookup, the first no ancestor of the second:
it is at least `-1`, the two have the same ancestors up to it, and their ancestors one above
it carry different hashes. -/
theorem highestCommonAncestor_parts (h₁ : v b₁.headerHash = some b₁)
    (h₂ : v b₂.headerHash = some b₂) (hnot : ∀ k, ancestorAt v b₂ k ≠ some b₁) :
    -1 ≤ highestCommonAncestor v b₁ b₂ ∧
      (∀ k : ℕ, (k : ℤ) ≤ highestCommonAncestor v b₁ b₂ → ancestorAt v b₁ k = ancestorAt v b₂ k) ∧
      (ancestorAt v b₁ (highestCommonAncestor v b₁ b₂ + 1).toNat).map (·.headerHash) ≠
        (ancestorAt v b₂ (highestCommonAncestor v b₁ b₂ + 1).toNat).map (·.headerHash) := by
  have hl₁ := hv.linked _ _ h₁
  rcases highestCommonAncestor_spec hv hl₁ (hv.linked _ _ h₂) with
    ⟨hK, hne⟩ | ⟨n, hK, hn₁, hn₂, heq, hne⟩
  · rw [hK]
    exact ⟨le_rfl, fun k hk => absurd hk (by omega), hne 0 (Nat.zero_le _) (Nat.zero_le _)⟩
  rw [hK, show ((n : ℤ) + 1).toNat = n + 1 by omega]
  refine ⟨by omega, fun k hk => ancestorAt_eq_below hv h₁ h₂ hn₁ heq (by omega), ?_⟩
  -- the first block is no ancestor of the second, so the common height is below it
  have hlt : n < b₁.height := by
    refine lt_of_le_of_ne hn₁ fun hn => hnot n ?_
    rw [← ancestorAt_eq_below hv h₁ h₂ hn₁ heq le_rfl, hn, ancestorAt_self]
  by_cases hk₂ : n + 1 ≤ b₂.height
  · exact hne (n + 1) (by omega) hlt hk₂
  · obtain ⟨a₁, ha₁⟩ := Option.isSome_iff_exists.mp (ancestorAt_isSome hv hl₁ (show n + 1 ≤ b₁.height by omega))
    rw [ha₁, ancestorAt_of_lt (by omega)]
    exact Option.some_ne_none _

end CommonAncestor

namespace Blockchain

variable {cc : Collaborators} {s : Blockchain} {block : FullBlock} {rec peak : BlockRecord} {ri : ℕ}
  {hint : Option ℕ} {work : BlockStore} {records : List BlockRecord}
  {summary : Option StateChangeSummary}

/-! ## The fork height -/

/-- A record new to the lookup is no ancestor of a cached record. -/
theorem Consistent.not_ancestor_of_new (hs : s.Consistent) (hpv : s.view peak.headerHash = some peak)
    (hnew : s.view rec.headerHash = none) (k : ℕ) : ancestorAt s.view peak k ≠ some rec := fun h => by
  rcases ancestorAt_mem hs.linked h with rfl | h
  · rw [hpv] at hnew; cases hnew
  · rw [h] at hnew; cases hnew

/-- **The fork height of a new record over the peak.** At and below the fork height that
`_reconsider_peak` computes, the new record (in the lookup it is added to) and the peak have
the same ancestors; without a hint, their ancestors one above it carry different hashes. -/
theorem forkHeight_spec
    (hfork : ∀ v b₁ b₂, cc.findForkPointInChain v b₁ b₂ = highestCommonAncestor v b₁ b₂)
    (hs : s.Consistent) (hpv : s.view peak.headerHash = some peak)
    (hnew : s.view rec.headerHash = none) (hlink : LinkedInto s.view rec)
    (hhint : ∀ f, hint = some f → (f : ℤ) ≤ highestCommonAncestor s.view rec peak)
    (hpar : rec.prevHash = peak.headerHash → peak.height + 1 = rec.height) :
    -1 ≤ s.forkHeight cc rec peak hint ∧
      (∀ k : ℕ, (k : ℤ) ≤ s.forkHeight cc rec peak hint →
        ancestorAt (Function.update s.view rec.headerHash (some rec)) rec k = ancestorAt s.view peak k) ∧
      (hint = none →
        (ancestorAt (Function.update s.view rec.headerHash (some rec)) rec
            (s.forkHeight cc rec peak hint + 1).toNat).map (·.headerHash) ≠
          (ancestorAt s.view peak (s.forkHeight cc rec peak hint + 1).toNat).map (·.headerHash)) := by
  have hext := update_extends (r := rec) hnew
  have hwl := hs.linked.insert hnew hlink
  have hpv' := hext _ _ hpv
  have hpeak := ancestorAt_extend hs.linked hext (hs.linked.linked _ _ hpv)
  unfold forkHeight
  split
  · -- the block extends the peak: the fork is the peak
    rename_i hprev
    have hh := hpar hprev
    refine ⟨by omega, fun k hk => ?_, fun _ => ?_⟩
    · rw [ancestorAt_prev (hprev ▸ hpv') hh, if_neg (by omega), hpeak]
    · rw [show ((peak.height : ℤ) + 1).toNat = rec.height by omega, ancestorAt_self,
        ancestorAt_of_lt (by omega)]
      exact Option.some_ne_none _
  -- otherwise the fork is the hint or the scan, both read in the lookup with the record added
  obtain ⟨hK, hagree, hdiff⟩ := highestCommonAncestor_parts hwl
    (Function.update_same rec.headerHash (some rec) s.view) hpv'
    fun k => by rw [hpeak]; exact hs.not_ancestor_of_new hpv hnew k
  rw [highestCommonAncestor_extend hs.linked hext hlink (hs.linked.linked _ _ hpv)] at hK hagree hdiff
  simp only [hpeak] at hagree hdiff
  split
  · rename_i f
    exact ⟨by omega, fun k hk => hagree k (hk.trans (hhint f rfl)), fun h => by cases h⟩
  · rw [hfork]
    exact ⟨hK, hagree, fun _ => hdiff⟩

/-- `F` is a fork height for a change of the height map from `s` to `s'`: reported as
`forkHeight` (clamped at `0`), the two maps agree at and below it, and without a hint they
differ one above it. -/
def ReportsFork (s s' : Blockchain) (hint : Option ℕ) (forkHeight : ℕ) : Prop :=
  ∃ F : ℤ, -1 ≤ F ∧ forkHeight = (max F 0).toNat ∧
    (∀ k : ℕ, (k : ℤ) ≤ F → s'.heightMap.hashes k = s.heightMap.hashes k) ∧
    (hint = none → s'.heightMap.hashes (F + 1).toNat ≠ s.heightMap.hashes (F + 1).toNat)

/-- What a call of `receive_block` on `block` with fork hint `hint` tells its caller: unless it
returns `NEW_PEAK`, `_peak_height` and the height map are as they were; if it does, it returns
a summary whose peak is the block's record, now the peak, and whose `fork_height` is a fork
height of the change. -/
def ForkReported (s s' : Blockchain) (block : FullBlock) (hint : Option ℕ)
    (r : Except Exc ReceiveBlockOutput) : Prop :=
  (isNewPeak r = false → s'.peakHeight = s.peakHeight ∧ s'.heightMap = s.heightMap) ∧
  ∀ out, r = .ok out → out.1 = .newPeak → ∃ sc, out.2.2 = some sc ∧
    sc.peak.headerHash = block.headerHash ∧ s'.peakHeight = some block.height ∧
    ReportsFork s s' hint sc.forkHeight

/-- A call that leaves the peak height and the height map as they were, and does not return
`NEW_PEAK`, reports no fork. -/
theorem ForkReported.of_same {s' : Blockchain} {r : Except Exc ReceiveBlockOutput}
    (hp : s'.peakHeight = s.peakHeight) (hm : s'.heightMap = s.heightMap)
    (hr : ∀ out, r = .ok out → out.1 ≠ .newPeak) : ForkReported s s' block hint r :=
  ⟨fun _ => ⟨hp, hm⟩, fun out ho hn => absurd hn (hr out ho)⟩

/-- **A committed transaction reports its fork.** -/
theorem ForkReported.commit
    (hfork : ∀ v b₁ b₂, cc.findForkPointInChain v b₁ b₂ = highestCommonAncestor v b₁ b₂)
    (hs : s.Consistent) (hc : s.MapIsPeakChain) (ha : s.Admits block)
    (hrec : blockToBlockRecord cc s.view ri block none = .ok rec)
    (hhint : ∀ peak f, s.getPeak = .ok (some peak) → hint = some f →
      (f : ℤ) ≤ highestCommonAncestor s.view rec peak)
    (hw : s.storeWrites cc .none block rec (decide (block.height = 0)) hint =
      .ok (work, records, summary)) :
    ForkReported s (s.committed rec records summary work) block hint
      (.ok (summary.elim (.addedAsOrphan, none, none) fun sc => (.newPeak, none, some sc))) := by
  obtain ⟨hh, -, hht, -⟩ := blockToBlockRecord_fields cc hrec
  obtain ⟨-, hpeak⟩ := hs.commit ha hrec hw
  have hc' := MapIsPeakChain.commit hs hc ha hrec hfork hhint hw
  obtain ⟨W, hadd, hw⟩ := bind_eq_ok hw
  obtain ⟨hnew, hlink, -⟩ := hs.newRecord ha hrec (BlockStore.addFullBlock_rows _ _ hadd)
  rcases reconsiderPeak_cases hw with
    ⟨hg, hpk, rfl, rfl, -⟩ | ⟨-, rfl, rfl, -⟩ | ⟨hg, peak, L, hpk, -, -, rfl, rfl, -⟩
  · -- the first genesis block: nothing is shared, the map gains height `0`
    obtain ⟨⟨sc, -⟩, hpk', -⟩ | ⟨h, -⟩ := hpeak
    swap; · cases h
    obtain ⟨hp0, -⟩ := hs.peak.of_getPeak_none hpk
    have h0 : rec.height = 0 := by rw [hht]; simpa using hg
    refine ⟨fun h => (by cases h), fun out ho _ => ?_⟩
    cases ho
    refine ⟨_, rfl, hh, by simp [hht], ⟨-1, le_rfl, rfl, fun k hk => absurd hk (by omega), fun _ => ?_⟩⟩
    rw [show ((-1 : ℤ) + 1).toNat = rec.height by omega, hc'.2 rec hpk', hc.1 hp0, committed_view,
      ancestorAt_self]
    exact Option.some_ne_none _
  · -- an orphan: `records` is empty and nothing is rolled back
    exact .of_same rfl rfl fun _ ho => by cases ho; exact ReceiveBlockResult.noConfusion
  · -- a heavier block: the fork height of `forkHeight_spec`
    obtain ⟨⟨sc, -⟩, hpk', -⟩ | ⟨h, -⟩ := hpeak
    swap; · cases h
    have hpv := (hs.peak.of_getPeak hpk).2.2.1
    obtain ⟨hF, hagree, hdiff⟩ := forkHeight_spec hfork hs hpv hnew hlink (hhint peak · hpk)
      (hs.peak_parent ha hrec hpk (by simpa using hg))
    refine ⟨fun h => (by cases h), fun out ho _ => ?_⟩
    cases ho
    refine ⟨_, rfl, hh, by simp [hht], ⟨_, hF, rfl, fun k hk => ?_, fun h0 => ?_⟩⟩
    · rw [hc'.2 rec hpk', hc.2 peak hpk, committed_view, hagree k hk]
    · rw [hc'.2 rec hpk', hc.2 peak hpk, committed_view]
      exact hdiff h0

/-- **Every fault-free call reports its fork.** -/
theorem ForkReported.receiveBlock {pvr : PreValidationResult} {env : CallEnv} {s' : Blockchain}
    {r : Except Exc ReceiveBlockOutput}
    (hfork : ∀ v b₁ b₂, cc.findForkPointInChain v b₁ b₂ = highestCommonAncestor v b₁ b₂)
    (hs : s.Consistent) (hc : s.MapIsPeakChain) (hhint : HintWithinFork cc s ⟨block, pvr, hint, env⟩)
    (hf : env.faults = .none) (h : s.receiveBlock cc block pvr hint env = (s', r)) :
    ForkReported s s' block hint r := by
  rcases receiveBlock_cases h with
    ⟨rfl, hn, -⟩ | ⟨ri, rec, ec, body, ha, -, -, hrec, -, ⟨-, rfl, hn⟩ | ⟨-, hadd⟩⟩
  · exact .of_same rfl rfl fun out ho => (hn out ho).1
  · exact .of_same rfl rfl fun out ho => (hn out ho).1
  rcases addToDatabase_cases hadd with
    ⟨e, -, rfl, rfl⟩ | ⟨work, records, summary, hw, ⟨hcm, -⟩ | ⟨-, rfl, rfl⟩⟩
  · exact .of_same rfl rfl fun _ ho => by cases ho
  · rw [hf] at hcm; cases hcm
  rw [hf] at hw ⊢
  have := ForkReported.commit hfork (hs.with_executionClient ec) hc ha hrec
    (fun peak f hpk hf => hhint ri rec peak f hrec hpk hf) hw
  cases summary <;> exact this

/-- **The summary names the fork.** With a truthful `find_fork_point_in_chain` and fork hints
within the fork, every call of every fault-free run from the empty chain either returns no
`NEW_PEAK` and leaves `_peak_height` and the height map as they were, or returns `NEW_PEAK`
with a summary whose peak is the block, now the peak, and whose `fork_height` is the height
up to which the old and the new height map agree; without a hint, they differ one above it. -/
theorem receiveBlock_reports_fork {last : Option Bytes32}
    (hfork : ∀ v b₁ b₂, cc.findForkPointInChain v b₁ b₂ = highestCommonAncestor v b₁ b₂)
    (hrun : FaultFreeRun cc (HintWithinFork cc) s last) {d : Delivery} (hf : d.env.faults = .none)
    (hh : HintWithinFork cc s d) : ForkReported s (s.deliver cc d).1 d.block d.hint (s.deliver cc d).2 :=
  ForkReported.receiveBlock hfork hrun.consistent (hrun.mapIsPeakChain hfork).1 hh hf rfl

/-- The reorg from `1 ← 2 ← 3` onto the heavier sibling `1 ← 4`, without a hint, is a call of
a fault-free run, so its summary names the fork. -/
theorem heavierSibling_reports_fork :
    ForkReported threeBlockChain
      (threeBlockChain.deliver sampleCollaborators (sampleDelivery (sampleBlock 4 1 1 4 none) none)).1
      (sampleBlock 4 1 1 4 none) none
      (threeBlockChain.deliver sampleCollaborators (sampleDelivery (sampleBlock 4 1 1 4 none) none)).2 :=
  receiveBlock_reports_fork (fun _ _ _ => rfl)
    (show FaultFreeRun sampleCollaborators (HintWithinFork sampleCollaborators) threeBlockChain (some 3) from
      .step _ (.step _ (.step _ .empty rfl fun _ _ _ _ _ _ h => by cases h) rfl
        fun _ _ _ _ _ _ h => by cases h) rfl fun _ _ _ _ _ _ h => by cases h)
    rfl fun _ _ _ _ _ _ h => by cases h

/-! ## The height map depends on the peak only -/

/-- A fault-free call only adds records to the cache. -/
theorem receiveBlock_view_extends {pvr : PreValidationResult} {env : CallEnv} {s' : Blockchain}
    {r : Except Exc ReceiveBlockOutput} (hf : env.faults = .none)
    (h : s.receiveBlock cc block pvr hint env = (s', r)) :
    ∀ x q, s.view x = some q → s'.view x = some q := by
  rcases receiveBlock_cases h with
    ⟨rfl, -⟩ | ⟨ri, rec, ec, body, ha, -, -, hrec, -, ⟨-, rfl, -⟩ | ⟨-, hadd⟩⟩
  · exact fun _ _ => id
  · exact fun _ _ => id
  rcases addToDatabase_cases hadd with
    ⟨e, -, rfl, -⟩ | ⟨work, records, summary, -, ⟨hcm, -⟩ | ⟨-, rfl, -⟩⟩
  · exact fun _ _ => id
  · rw [hf] at hcm; cases hcm
  obtain ⟨hh, -⟩ := blockToBlockRecord_fields cc hrec
  rw [committed_view]
  exact update_extends (by rw [hh]; exact AList.lookup_eq_none.mpr ha.1)

/-- `s'` is reached from `s` by calls of `receive_block` in which no store operation fails and
every delivery satisfies `allowed` in the state it is made in. -/
inductive FaultFreeSteps (cc : Collaborators) (allowed : Blockchain → Delivery → Prop)
    (s : Blockchain) : Blockchain → Prop
  | refl : FaultFreeSteps cc allowed s s
  | step {s' : Blockchain} (d : Delivery) : FaultFreeSteps cc allowed s s' → d.env.faults = .none →
      allowed s' d → FaultFreeSteps cc allowed s (s'.deliver cc d).1

theorem FaultFreeSteps.run {allowed : Blockchain → Delivery → Prop} {s' : Blockchain}
    {last : Option Bytes32} (hrun : FaultFreeRun cc allowed s last)
    (hsteps : FaultFreeSteps cc allowed s s') : ∃ last', FaultFreeRun cc allowed s' last' := by
  induction hsteps with
  | refl => exact ⟨last, hrun⟩
  | step d _ hf hal ih =>
    obtain ⟨l, hl⟩ := ih
    exact ⟨_, .step d hl hf hal⟩

theorem FaultFreeSteps.view_extends {allowed : Blockchain → Delivery → Prop} {s' : Blockchain}
    (hsteps : FaultFreeSteps cc allowed s s') : ∀ x q, s.view x = some q → s'.view x = some q := by
  induction hsteps with
  | refl => exact fun _ _ => id
  | step d _ hf _ ih => exact fun x q hx => receiveBlock_view_extends hf rfl x q (ih x q hx)

/-- **The height map depends on the peak only.** Along a fault-free run, a later state whose
peak has the header hash of an earlier state's peak has the same peak, the same
`_peak_height` and the same height map, whatever reorgs happened in between: rolling back to
a fork and re-applying the old chain gives the map back. -/
theorem heightMap_determined_by_peak {s' : Blockchain} {peak' : BlockRecord} {last : Option Bytes32}
    (hfork : ∀ v b₁ b₂, cc.findForkPointInChain v b₁ b₂ = highestCommonAncestor v b₁ b₂)
    (hrun : FaultFreeRun cc (HintWithinFork cc) s last)
    (hsteps : FaultFreeSteps cc (HintWithinFork cc) s s') (hpk : s.getPeak = .ok (some peak))
    (hpk' : s'.getPeak = .ok (some peak')) (hsame : peak'.headerHash = peak.headerHash) :
    peak' = peak ∧ s'.peakHeight = s.peakHeight ∧ s'.heightMap.hashes = s.heightMap.hashes := by
  obtain ⟨last', hrun'⟩ := hsteps.run hrun
  have hs := hrun.consistent
  have hext := hsteps.view_extends
  obtain ⟨hp, -, hv, -⟩ := hs.peak.of_getPeak hpk
  obtain ⟨hp', -, hv', -⟩ := hrun'.consistent.peak.of_getPeak hpk'
  rw [hsame] at hv'
  obtain rfl : peak = peak' := Option.some.inj ((hext _ _ hv).symm.trans hv')
  refine ⟨rfl, hp'.trans hp.symm, funext fun k => ?_⟩
  rw [(hrun'.mapIsPeakChain hfork).1.2 peak hpk' k, (hrun.mapIsPeakChain hfork).1.2 peak hpk k,
    ancestorAt_extend hs.linked hext (hs.linked.linked _ _ hv)]

/-- The record of block `3`, the peak of `threeBlockChain`. -/
def threeBlockPeak : BlockRecord := ⟨3, 2, 2, 3, 0, 0, false, false, true, 0, none, none, none, 0⟩

/-- An orphan `1 ← 5`, lighter than the peak `3`, received on `1 ← 2 ← 3`: the peak and the
height map stay. -/
theorem orphan_keeps_heightMap :
    threeBlockPeak = threeBlockPeak ∧
      (threeBlockChain.deliver sampleCollaborators (sampleDelivery (sampleBlock 5 1 1 2 none) none)).1.peakHeight =
        threeBlockChain.peakHeight ∧
      (threeBlockChain.deliver sampleCollaborators (sampleDelivery (sampleBlock 5 1 1 2 none) none)).1.heightMap.hashes =
        threeBlockChain.heightMap.hashes :=
  heightMap_determined_by_peak (fun _ _ _ => rfl)
    (show FaultFreeRun sampleCollaborators (HintWithinFork sampleCollaborators) threeBlockChain (some 3) from
      .step _ (.step _ (.step _ .empty rfl fun _ _ _ _ _ _ h => by cases h) rfl
        fun _ _ _ _ _ _ h => by cases h) rfl fun _ _ _ _ _ _ h => by cases h)
    (.step _ .refl rfl fun _ _ _ _ _ _ h => by cases h) rfl rfl rfl

/-- **A block a call added is already there for the next call.** After a call that returned
`NEW_PEAK` or `ADDED_AS_ORPHAN` (whatever the store faults), receiving the same block again,
with any pre-validation result, hint and environment, returns `ALREADY_HAVE_BLOCK` and leaves
the chain as it is. -/
theorem receiveBlock_again_already_have {pvr : PreValidationResult} {env : CallEnv}
    {s' : Blockchain} {out : ReceiveBlockOutput}
    (h : s.receiveBlock cc block pvr hint env = (s', .ok out))
    (hadded : out.1 = .newPeak ∨ out.1 = .addedAsOrphan)
    (pvr' : PreValidationResult) (hint' : Option ℕ) (env' : CallEnv) :
    s'.receiveBlock cc block pvr' hint' env' = (s', .ok (.alreadyHaveBlock, none, none)) := by
  have notAdded : ¬ NotAdded (.ok out) := fun hn => by
    rcases hadded with h | h
    exacts [(hn out rfl).1 h, (hn out rfl).2 h]
  rcases receiveBlock_cases h with
    ⟨-, hn, -⟩ | ⟨ri, rec, ec, body, -, -, -, hrec, -, ⟨-, -, hn⟩ | ⟨-, hadd⟩⟩
  · exact absurd hn notAdded
  · exact absurd hn notAdded
  rcases addToDatabase_cases hadd with
    ⟨e, -, -, h⟩ | ⟨work, records, summary, -, ⟨-, h, -⟩ | ⟨-, rfl, -⟩⟩
  · cases h
  · cases h
  obtain ⟨hh, -⟩ := blockToBlockRecord_fields cc hrec
  have hcont : ∀ t : Blockchain, (t.committed rec records summary work).containsBlock block.headerHash := by
    simp [containsBlock, committed, applyRecords, addBlockRecord, hh]
  simp only [receiveBlock, hcont, if_true]

/-- The genesis block `1` delivered to the empty chain, without store faults. -/
def genesisDelivered : Call ReceiveBlockOutput :=
  Blockchain.empty.receiveBlock sampleCollaborators (sampleBlock 1 0 0 1 none) acceptedResult none
    ⟨validEngine, StoreFaults.none⟩

/-- Delivering the genesis block `1` to the empty chain makes it the peak, so delivering it
again, with a hint and a failing commit, returns `ALREADY_HAVE_BLOCK`. -/
theorem genesis_again_already_have :
    genesisDelivered.1.receiveBlock sampleCollaborators (sampleBlock 1 0 0 1 none) acceptedResult
      (some 5) ⟨validEngine, commitFails⟩ = (genesisDelivered.1, .ok (.alreadyHaveBlock, none, none)) :=
  receiveBlock_again_already_have
    (show genesisDelivered = (genesisDelivered.1, .ok (.newPeak, none, some _)) from rfl) (.inl rfl) _ _ _

end Blockchain

end CorpochainBeacon
