import CorpochainBeacon.HeaviestChain

/-!
# Delivery order and the peak

`_reconsider_peak` keeps the old peak unless the new block is strictly heavier
(`block_record.weight <= peak.weight` makes it an orphan); nothing compares `total_iters` or
header hashes. Over a run in which every call adds its block:

* `addsAll` — every call of the run returns `NEW_PEAK` or `ADDED_AS_ORPHAN`;
* `FirstHeaviest peak ds peak'` — the peak such a run from the peak `peak` ends at: `peak`
  itself when no delivered block above genesis is heavier, else the first delivered block
  above genesis of maximal weight; `FirstHeaviest.append` composes two runs, and
  `FirstHeaviest.weight_eq` says two orders of the same deliveries give the same weight;
* **`receiveAll_peak_first_heaviest`** — two orders of the same deliveries, from the same
  consistent state with a peak, end with peaks of equal weight, each the first heaviest
  block of its own order;
* `delivery_order_changes_peak` — two siblings of equal weight and equal `total_iters`,
  delivered in opposite orders, end with different peaks.
-/

namespace CorpochainBeacon

namespace Blockchain

variable {cc : Collaborators} {s : Blockchain} {peak : BlockRecord}

/-- The call added its block: it returned `NEW_PEAK` or `ADDED_AS_ORPHAN`. -/
def addsBlock : Except Exc ReceiveBlockOutput → Bool
  | .ok (.newPeak, _) | .ok (.addedAsOrphan, _) => true
  | _ => false

/-- Every call of the run over `ds` from `s` adds its block. -/
def addsAll (cc : Collaborators) : Blockchain → List Delivery → Bool
  | _, [] => true
  | s, d :: ds => addsBlock (s.deliver cc d).2 && addsAll cc (s.deliver cc d).1 ds

/-- A call that adds its block without a new peak returned `ADDED_AS_ORPHAN`. -/
theorem addsBlock_orphan {r : Except Exc ReceiveBlockOutput} (hadd : addsBlock r = true)
    (hnot : ∀ out, r = .ok out → out.1 ≠ .newPeak) : ∃ out, r = .ok out ∧ out.1 = .addedAsOrphan := by
  rcases r with _ | ⟨_ | _ | _ | _ | _, _⟩ <;>
    first | exact absurd rfl (hnot _ rfl) | exact ⟨_, rfl, rfl⟩ | cases hadd

/-! ## The peak a run should end at -/

/-- `peak'` is `peak` and no delivered block above genesis is heavier, or `peak'` is the
first delivered block above genesis of maximal weight, and that weight beats `peak`'s. -/
def FirstHeaviest (peak : BlockRecord) (ds : List Delivery) (peak' : BlockRecord) : Prop :=
  (peak' = peak ∧ ∀ e ∈ ds, e.block.height ≠ 0 → e.block.weight ≤ peak.weight) ∨
  ∃ pre d post, ds = pre ++ d :: post ∧ d.block.height ≠ 0 ∧
    peak'.headerHash = d.block.headerHash ∧ peak'.weight = d.block.weight ∧
    peak.weight < d.block.weight ∧ (∀ e ∈ pre, e.block.height ≠ 0 → e.block.weight < d.block.weight) ∧
    ∀ e ∈ ds, e.block.height ≠ 0 → e.block.weight ≤ d.block.weight

namespace FirstHeaviest

variable {ds ds₁ ds₂ : List Delivery} {p p₁ p₂ : BlockRecord}

/-- A run over `ds₁` and then one over `ds₂` make a run over `ds₁ ++ ds₂`. -/
theorem append (h₁ : FirstHeaviest peak ds₁ p₁) (h₂ : FirstHeaviest p₁ ds₂ p₂) :
    FirstHeaviest peak (ds₁ ++ ds₂) p₂ := by
  rcases h₁ with ⟨rfl, hle₁⟩ | ⟨pre₁, d₁, post₁, rfl, h0₁, hh₁, hw₁, hlt₁, hpre₁, hle₁⟩ <;>
    rcases h₂ with ⟨rfl, hle₂⟩ | ⟨pre₂, d₂, post₂, rfl, h0₂, hh₂, hw₂, hlt₂, hpre₂, hle₂⟩
  · -- neither run moves the peak
    refine .inl ⟨rfl, fun e he => ?_⟩
    rcases List.mem_append.mp he with he | he
    exacts [hle₁ e he, hle₂ e he]
  · -- the second run moves it
    refine .inr ⟨ds₁ ++ pre₂, d₂, post₂, by simp, h0₂, hh₂, hw₂, hlt₂, fun e he h0 => ?_, fun e he h0 => ?_⟩
    · rcases List.mem_append.mp he with he | he
      exacts [(hle₁ e he h0).trans_lt hlt₂, hpre₂ e he h0]
    · rcases List.mem_append.mp he with he | he
      exacts [(hle₁ e he h0).trans hlt₂.le, hle₂ e (by simp [he]) h0]
  · -- the first run moves it
    refine .inr ⟨pre₁, d₁, post₁ ++ ds₂, by simp, h0₁, hh₁, hw₁, hlt₁, hpre₁, fun e he h0 => ?_⟩
    rcases List.mem_append.mp he with he | he
    exacts [hle₁ e he h0, hw₁ ▸ hle₂ e he h0]
  · -- both move it: the second run's block beats the first's
    refine .inr ⟨pre₁ ++ d₁ :: post₁ ++ pre₂, d₂, post₂, by simp, h0₂, hh₂, hw₂, by omega,
      fun e he h0 => ?_, fun e he h0 => ?_⟩
    · rcases List.mem_append.mp he with he | he
      exacts [(hle₁ e he h0).trans_lt (hw₁ ▸ hlt₂), hpre₂ e he h0]
    · rcases List.mem_append.mp he with he | he
      exacts [(hle₁ e he h0).trans (hw₁ ▸ hlt₂.le), hle₂ e (by simp [he]) h0]

/-- The run's peak is at least as heavy as the initial peak and every delivered block above
genesis. -/
theorem le_weight (h : FirstHeaviest peak ds p) :
    peak.weight ≤ p.weight ∧ ∀ e ∈ ds, e.block.height ≠ 0 → e.block.weight ≤ p.weight := by
  rcases h with ⟨rfl, hle⟩ | ⟨-, d, -, -, -, -, hw, hlt, -, hle⟩
  · exact ⟨le_rfl, hle⟩
  · exact ⟨hw ▸ hlt.le, hw ▸ hle⟩

/-- The run's peak weight is the initial peak's or a delivered block's above genesis. -/
theorem weight_attained (h : FirstHeaviest peak ds p) :
    p.weight = peak.weight ∨ ∃ e ∈ ds, e.block.height ≠ 0 ∧ e.block.weight = p.weight := by
  rcases h with ⟨rfl, -⟩ | ⟨pre, d, post, rfl, h0, -, hw, -⟩
  · exact .inl rfl
  · exact .inr ⟨d, by simp, h0, hw.symm⟩

/-- Two orders of the same deliveries give peaks of the same weight. -/
theorem weight_eq (hperm : ds₁.Perm ds₂) (h₁ : FirstHeaviest peak ds₁ p₁)
    (h₂ : FirstHeaviest peak ds₂ p₂) : p₁.weight = p₂.weight := by
  have bound : ∀ {ds ds' : List Delivery} {p p' : BlockRecord}, ds.Perm ds' →
      FirstHeaviest peak ds p → FirstHeaviest peak ds' p' → p.weight ≤ p'.weight :=
    fun hperm h h' => by
      rcases h.weight_attained with hw | ⟨e, he, h0, hw⟩
      · exact hw ▸ h'.le_weight.1
      · exact hw ▸ h'.le_weight.2 e (hperm.mem_iff.mp he) h0
  exact le_antisymm (bound hperm h₁ h₂) (bound hperm.symm h₂ h₁)

end FirstHeaviest

/-! ## Runs -/

/-- One fault-free call that adds its block ends at the first heaviest peak of its
delivery. -/
theorem deliver_firstHeaviest {d : Delivery} (hs : s.Consistent) (hpk : s.getPeak = .ok (some peak))
    (hf : d.env.faults = .none) (hadd : addsBlock (s.deliver cc d).2 = true) :
    ∃ peak', (s.deliver cc d).1.getPeak = .ok (some peak') ∧ FirstHeaviest peak [d] peak' := by
  rcases (hs.receiveBlock hf (rfl : s.receiveBlock cc d.block d.pvr d.hint d.env = _)).2 with
    ⟨hsame, hnot, horph⟩ | ⟨sc, rec, -, hp', hh, hw, hold⟩
  · -- an orphan: the peak stays
    obtain ⟨out, hr, htag⟩ := addsBlock_orphan hadd hnot
    obtain ⟨peak₀, hpk₀, hor⟩ := horph _ hr htag
    rw [hpk] at hpk₀; cases hpk₀
    refine ⟨peak, hsame.trans hpk, .inl ⟨rfl, fun e he h0 => ?_⟩⟩
    obtain rfl := List.mem_singleton.mp he
    exact hor.resolve_left h0
  · -- a new peak: the block beats the old one
    rcases hold with h0 | ⟨peak₀, hpk₀, hlt, h0⟩
    · rw [hpk] at h0; cases h0
    rw [hpk] at hpk₀; cases hpk₀
    refine ⟨rec, hp', .inr ⟨[], d, [], rfl, by omega, hh, hw, hlt, fun e he => absurd he (List.not_mem_nil e),
      fun e he _ => ?_⟩⟩
    obtain rfl := List.mem_singleton.mp he
    exact le_rfl

/-- A fault-free run in which every call adds its block ends at the first heaviest peak of
its deliveries. -/
theorem receiveAll_firstHeaviest {ds : List Delivery} (hs : s.Consistent)
    (hpk : s.getPeak = .ok (some peak)) (hf : ∀ d ∈ ds, d.env.faults = .none)
    (hadd : addsAll cc s ds = true) :
    ∃ peak', (receiveAll cc s ds).getPeak = .ok (some peak') ∧ FirstHeaviest peak ds peak' := by
  induction ds generalizing s peak with
  | nil => exact ⟨peak, hpk, .inl ⟨rfl, fun e he => absurd he (List.not_mem_nil e)⟩⟩
  | cons d ds ih =>
    simp only [addsAll, Bool.and_eq_true] at hadd
    have hd := hf d (List.mem_cons_self d ds)
    obtain ⟨p₁, hp₁, h₁⟩ := deliver_firstHeaviest hs hpk hd hadd.1
    obtain ⟨p₂, hp₂, h₂⟩ := ih (hs.receiveBlock hd rfl).1 hp₁
      (fun e he => hf e (List.mem_cons_of_mem d he)) hadd.2
    exact ⟨p₂, hp₂, h₁.append h₂⟩

/-- **The peak depends on the delivery order only through ties**: two orders of the same
deliveries from the same consistent state with a peak, each fault-free and adding every
block, end with peaks of equal weight; each is the first block above genesis of maximal
weight in its own order, or the initial peak if no block is heavier. -/
theorem receiveAll_peak_first_heaviest {ds₁ ds₂ : List Delivery} (hs : s.Consistent)
    (hpk : s.getPeak = .ok (some peak)) (hperm : ds₁.Perm ds₂)
    (hf : ∀ d ∈ ds₁, d.env.faults = .none) (hadd₁ : addsAll cc s ds₁ = true)
    (hadd₂ : addsAll cc s ds₂ = true) :
    ∃ p₁ p₂, (receiveAll cc s ds₁).getPeak = .ok (some p₁) ∧
      (receiveAll cc s ds₂).getPeak = .ok (some p₂) ∧
      FirstHeaviest peak ds₁ p₁ ∧ FirstHeaviest peak ds₂ p₂ ∧ p₁.weight = p₂.weight := by
  obtain ⟨p₁, hp₁, h₁⟩ := receiveAll_firstHeaviest hs hpk hf hadd₁
  obtain ⟨p₂, hp₂, h₂⟩ := receiveAll_firstHeaviest hs hpk (fun d hd => hf d (hperm.mem_iff.mpr hd)) hadd₂
  exact ⟨p₁, p₂, hp₁, hp₂, h₁, h₂, h₁.weight_eq hperm h₂⟩

/-! ## Equal-weight siblings -/

/-- The record of the genesis block `1`, the peak of `genesisOnly`. -/
def genesisRecord : BlockRecord := ⟨1, 0, 0, 1, 0, 0, false, false, true, 0, none, none, none, 0⟩

/-- Two children `2` and `3` of the genesis block, of equal weight and equal `total_iters`,
delivered `2` first. -/
def siblingsTwoFirst : List Delivery :=
  [sampleDelivery (sampleBlock 2 1 1 2 none) none, sampleDelivery (sampleBlock 3 1 1 2 none) none]

/-- The same siblings, delivered `3` first. -/
def siblingsThreeFirst : List Delivery := siblingsTwoFirst.reverse

theorem genesisOnly_consistent : genesisOnly.Consistent :=
  (show FaultFreeRun sampleCollaborators (fun _ _ => True) genesisOnly (some 1) from
    .step _ .empty rfl trivial).consistent

/-- Both orders of the siblings, from the genesis block, end with peaks of weight `2`. -/
theorem siblings_peak_first_heaviest :
    ∃ p₁ p₂, (receiveAll sampleCollaborators genesisOnly siblingsTwoFirst).getPeak = .ok (some p₁) ∧
      (receiveAll sampleCollaborators genesisOnly siblingsThreeFirst).getPeak = .ok (some p₂) ∧
      FirstHeaviest genesisRecord siblingsTwoFirst p₁ ∧ FirstHeaviest genesisRecord siblingsThreeFirst p₂ ∧
      p₁.weight = p₂.weight :=
  receiveAll_peak_first_heaviest genesisOnly_consistent (by decide) (List.Perm.swap _ _ [])
    (fun d hd => by
      simp only [siblingsTwoFirst, List.mem_cons, List.mem_singleton, List.not_mem_nil, or_false] at hd
      rcases hd with rfl | rfl <;> rfl)
    (by decide) (by decide)

/-- Delivered to the genesis block in either order, both siblings are added, yet `[2, 3]`
ends with peak `2` and `[3, 2]` with peak `3`: the tie-break by `total_iters` and
`header_hash` would pick `3` both times. -/
theorem delivery_order_changes_peak :
    (sampleBlock 2 1 1 2 none).weight = (sampleBlock 3 1 1 2 none).weight ∧
      (sampleBlock 2 1 1 2 none).totalIters = (sampleBlock 3 1 1 2 none).totalIters ∧
      addsAll sampleCollaborators genesisOnly siblingsTwoFirst = true ∧
      addsAll sampleCollaborators genesisOnly siblingsThreeFirst = true ∧
      (receiveAll sampleCollaborators genesisOnly siblingsTwoFirst).getPeak.map
        (Option.map (·.headerHash)) = .ok (some 2) ∧
      (receiveAll sampleCollaborators genesisOnly siblingsThreeFirst).getPeak.map
        (Option.map (·.headerHash)) = .ok (some 3) := by
  decide

end Blockchain

end CorpochainBeacon
