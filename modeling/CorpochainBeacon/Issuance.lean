import Mathlib.Algebra.BigOperators.Group.List
import Mathlib.Tactic.Ring
import Mathlib.Tactic.IntervalCases
import Mathlib.Tactic.Linarith
import Mathlib.Data.List.GetD
import CorpochainBeacon.Rewards

/-!
# What the block rewards add up to

`_calculate_block_reward` pays two coins a block for the first three years of blocks, then
halves every three years, and pays nothing from the fifteenth year on. Along a chain, the
calls of `create_withdrawals` for its transaction blocks pay every block's reward once, so
together they pay the schedule's partial sum up to the last transaction block:

* `rewardTotal_fifteen_years`, `rewardTotal_le` — the schedule's total, reached at
  `15 · blocks_per_year`, and so its cap;
* **`createWithdrawals_total_reward`** — the block-reward withdrawals of all the calls along
  a chain add up to `rewardTotal (t + 1)`, `t` the last transaction block, which never
  exceeds three years of `2 + 1 + 1/2 + 1/4 + 1/8` coins a block.
-/

namespace CorpochainBeacon

/-- The block rewards of heights `0, …, k - 1` together. -/
def rewardTotal : ℕ → ℕ
  | 0 => 0
  | k + 1 => rewardTotal k + calculateBlockReward k

/-- The amounts of a list of withdrawals together. -/
def amountTotal : List WithdrawalV1 → ℕ
  | [] => 0
  | w :: ws => w.amount + amountTotal ws

/-- Over a stretch of heights paid one amount each, the total grows by that amount a block. -/
theorem rewardTotal_add {a c : ℕ} :
    ∀ {d : ℕ}, (∀ h, a ≤ h → h < a + d → calculateBlockReward h = c) →
      rewardTotal (a + d) = rewardTotal a + c * d
  | 0, _ => rfl
  | d + 1, hc => by
    rw [← Nat.add_assoc, rewardTotal, rewardTotal_add fun h h₁ h₂ => hc h h₁ (by omega),
      hc (a + d) (by omega) (by omega)]
    ring

theorem rewardTotal_mono {k k' : ℕ} (h : k ≤ k') : rewardTotal k ≤ rewardTotal k' := by
  induction h with
  | refl => exact le_rfl
  | step _ ih => exact ih.trans (Nat.le_add_right _ _)

theorem blocksPerYear_pos : 0 < blocksPerYear := by
  unfold blocksPerYear; omega

/-- The reward of the `i`-th three years of heights, `i < 5`, and of every height after. -/
theorem calculateBlockReward_eq_rate {i h : ℕ} (h₁ : 3 * i * blocksPerYear ≤ h)
    (h₂ : i < 5 → h < 3 * (i + 1) * blocksPerYear) :
    calculateBlockReward h = [2 * corpochainToGwei, corpochainToGwei, corpochainToGwei / 2,
      corpochainToGwei / 4, corpochainToGwei / 8].getD i 0 := by
  have hB := blocksPerYear_pos
  unfold calculateBlockReward
  generalize blocksPerYear = B at *
  rcases Nat.lt_or_ge i 5 with hi | hi
  · have h₂ := h₂ hi
    interval_cases i
    · rw [if_pos (by omega)]; rfl
    · rw [if_neg (by omega), if_pos (by omega), Nat.one_mul]; rfl
    · rw [if_neg (by omega), if_neg (by omega), if_pos (by omega)]; rfl
    · rw [if_neg (by omega), if_neg (by omega), if_neg (by omega), if_pos (by omega)]; rfl
    · rw [if_neg (by omega), if_neg (by omega), if_neg (by omega), if_neg (by omega), if_pos (by omega)]
      rfl
  · have h15 : 15 * B ≤ h := le_trans (Nat.mul_le_mul_right B (by omega : 3 * 5 ≤ 3 * i)) h₁
    rw [List.getD_eq_default _ _ (by simp only [List.length_cons, List.length_nil]; omega),
      if_neg (by omega), if_neg (by omega), if_neg (by omega), if_neg (by omega), if_neg (by omega)]

/-- **The schedule's total.** The heights below `15 · blocks_per_year` are paid three years
of `2 + 1 + 1/2 + 1/4 + 1/8` coins a block. -/
theorem rewardTotal_fifteen_years :
    rewardTotal (15 * blocksPerYear) = 3 * blocksPerYear * (2 * corpochainToGwei +
      corpochainToGwei + corpochainToGwei / 2 + corpochainToGwei / 4 + corpochainToGwei / 8) := by
  have seg : ∀ i j, j = i + 1 → i < 5 → rewardTotal (3 * blocksPerYear * j) =
      rewardTotal (3 * blocksPerYear * i) + [2 * corpochainToGwei, corpochainToGwei,
        corpochainToGwei / 2, corpochainToGwei / 4, corpochainToGwei / 8].getD i 0 * (3 * blocksPerYear) := by
    rintro i _ rfl hi
    rw [Nat.mul_succ]
    exact rewardTotal_add fun h h₁ h₂ => calculateBlockReward_eq_rate (by linarith) fun _ => by linarith
  rw [show 15 * blocksPerYear = 3 * blocksPerYear * 5 by ring, seg 4 5 rfl (by omega),
    seg 3 4 rfl (by omega), seg 2 3 rfl (by omega), seg 1 2 rfl (by omega), seg 0 1 rfl (by omega)]
  simp only [List.getD_cons_succ, List.getD_cons_zero, Nat.mul_zero, rewardTotal]
  ring

/-- The schedule pays at most three years of `2 + 1 + 1/2 + 1/4 + 1/8` coins a block in all:
nothing is paid from `15 · blocks_per_year` on. -/
theorem rewardTotal_le (k : ℕ) :
    rewardTotal k ≤ 3 * blocksPerYear * (2 * corpochainToGwei + corpochainToGwei +
      corpochainToGwei / 2 + corpochainToGwei / 4 + corpochainToGwei / 8) := by
  rcases le_total k (15 * blocksPerYear) with h | h
  · exact (rewardTotal_mono h).trans_eq rewardTotal_fifteen_years
  · obtain ⟨d, rfl⟩ := Nat.exists_eq_add_of_le h
    have hzero : ∀ h', 15 * blocksPerYear ≤ h' → calculateBlockReward h' = 0 := fun h' h₁ =>
      calculateBlockReward_eq_rate (i := 5) (by linarith) (by omega)
    rw [rewardTotal_add (c := 0) fun h₂ h₁ _ => hzero h₂ h₁, Nat.zero_mul, Nat.add_zero]
    exact rewardTotal_fifteen_years.le

section Chain

variable {constants : ConsensusConstants} {blocks : Bytes32 → Option BlockRecord}
  {b : ℕ → BlockRecord} {n : ℕ}

theorem amountTotal_eq_sum (ws : List WithdrawalV1) : amountTotal ws = (ws.map (·.amount)).sum := by
  induction ws with
  | nil => rfl
  | cons w ws ih => simp [amountTotal, ih]

theorem sum_range_calculateBlockReward (k : ℕ) :
    ((List.range k).map calculateBlockReward).sum = rewardTotal k := by
  induction k with
  | zero => rfl
  | succ k ih => simp [List.range_succ, ih, rewardTotal]

/-- **The block rewards of a chain add up to the schedule's partial sum.** On a chain as in
`IsChain` whose genesis block is the only one with the genesis challenge as parent hash, the
calls of `create_withdrawals` for its transaction blocks all return, and the amounts of
their block-reward withdrawals add up to the rewards of heights `0, …, t`, `t` the last
transaction block: never more than three years of `2 + 1 + 1/2 + 1/4 + 1/8` coins a
block. -/
theorem createWithdrawals_total_reward (hc : IsChain constants blocks b n)
    (hgc : ∀ i, 0 < i → i ≤ n → (b i).prevHash ≠ constants.genesisChallenge) :
    ∃ wss, (txIndices b n).mapM (fun j => createWithdrawals constants blocks (b j)) = .ok wss ∧
      amountTotal (wss.flatten.filter (·.validatorIndex == 1)) = rewardTotal (lastTx b n + 1) ∧
      rewardTotal (lastTx b n + 1) ≤ 3 * blocksPerYear * (2 * corpochainToGwei + corpochainToGwei +
        corpochainToGwei / 2 + corpochainToGwei / 4 + corpochainToGwei / 8) := by
  have hT : ∀ j ∈ txIndices b n, j ≤ n := fun j hj => by
    simp only [txIndices, List.mem_filter, List.mem_range] at hj
    omega
  have hcall : ∀ j ∈ txIndices b n,
      createWithdrawals constants blocks (b j) = .ok (withdrawalsAt constants b j) :=
    fun j hj => createWithdrawals_eq hc hgc (hT j hj)
  refine ⟨_, mapM_eq_ok hcall, ?_, rewardTotal_le _⟩
  -- the amounts paid are the rewards of the paid heights, which are `0, …, t` once each
  have hamounts : ((((txIndices b n).map (withdrawalsAt constants b)).flatten.filter
      (·.validatorIndex == 1)).map (·.amount)).Perm
        ((List.range (lastTx b n + 1)).map calculateBlockReward) := by
    simp only [List.filter_flatten, List.map_flatten, List.map_map, Function.comp_def]
    have hpaid : ∀ j, ((withdrawalsAt constants b j).filter (·.validatorIndex == 1)).map (·.amount) =
        (paidHeights b j).map fun m => calculateBlockReward (b m).height := fun j => by
      simpa [List.map_map, Function.comp_def] using congrArg (List.map Prod.snd) (withdrawalsAt_rewards constants b j)
    simp only [hpaid]
    rw [← List.flatMap_def, ← List.map_flatMap]
    refine ((paid_heights_perm hc.genesis_tx n).map _).trans (.of_eq (List.map_congr_left ?_))
    intro i hi
    have := lastTx_le b n
    rw [hc.height i (by simp at hi; omega)]
  rw [amountTotal_eq_sum, hamounts.sum_eq, sum_range_calculateBlockReward]

end Chain

/-- The three-block chain `okChain` pays six coins of block rewards. -/
theorem okChain_total_reward :
    ∃ wss, (txIndices okChain 2).mapM (fun j => createWithdrawals gcConstants okBlocks (okChain j)) = .ok wss ∧
      amountTotal (wss.flatten.filter (·.validatorIndex == 1)) = rewardTotal (lastTx okChain 2 + 1) ∧
      rewardTotal (lastTx okChain 2 + 1) ≤ 3 * blocksPerYear * (2 * corpochainToGwei +
        corpochainToGwei + corpochainToGwei / 2 + corpochainToGwei / 4 + corpochainToGwei / 8) :=
  createWithdrawals_total_reward
    ⟨by decide, by decide, rfl, rfl, fun i _ _ => by rcases (by omega : i = 1 ∨ i = 2) with rfl | rfl <;> rfl⟩
    fun i _ _ => by rcases (by omega : i = 1 ∨ i = 2) with rfl | rfl <;> decide

end CorpochainBeacon
