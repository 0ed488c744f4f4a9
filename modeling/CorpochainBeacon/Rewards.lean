import CorpochainBeacon.Types

/-!
# Withdrawals: the prefarm and the block rewards

`consensus/block_rewards.py`: at each transaction block the beacon pushes withdrawals to
the execution layer, the prefarm once at height `0`, then one block reward for every
block since the previous transaction block, walking backwards from the new one.

* `createWithdrawals` — the source's function; its `while True` loop is `rewardLoop`.
* `rewardsFrom`, `paidHeights` — what one call pays, by induction on the height.
* `paid_heights_perm` — over all transaction blocks of a chain, the paid heights are
  `0, …, t_m` each once: the calls split the chain with no gap and no overlap.
-/

namespace CorpochainBeacon

/-- `_corpochain_to_gwei`. -/
def corpochainToGwei : ℕ := 1000000000

/-- `_blocks_per_year`. -/
def blocksPerYear : ℕ := 4608 * 2 * 365

/-- `_calculate_block_reward(height)`. The float products `0.5 * 10⁹`, `0.25 * 10⁹` and
`0.125 * 10⁹` are exact, so they are the integer quotients below. -/
def calculateBlockReward (height : ℕ) : ℕ :=
  if height < 3 * blocksPerYear then 2 * corpochainToGwei
  else if height < 6 * blocksPerYear then 1 * corpochainToGwei
  else if height < 9 * blocksPerYear then corpochainToGwei / 2
  else if height < 12 * blocksPerYear then corpochainToGwei / 4
  else if height < 15 * blocksPerYear then corpochainToGwei / 8
  else 0

example : calculateBlockReward (3 * blocksPerYear - 1) = 2 * corpochainToGwei ∧
    calculateBlockReward (3 * blocksPerYear) = corpochainToGwei := by decide

/-- An Engine API withdrawal (`WithdrawalV1`). -/
structure WithdrawalV1 where
  index : ℕ
  /-- `0` for the prefarm, `1` for a block reward -/
  validatorIndex : ℕ
  address : Bytes20
  amount : ℕ
  deriving DecidableEq, Repr

variable (constants : ConsensusConstants) (blocks : Bytes32 → Option BlockRecord)

/-- The `while True` loop of `create_withdrawals`: pay `curr`, stop at the genesis
challenge, else step to the parent and stop before a transaction block. `fuel` bounds the
steps to a parent. -/
def rewardLoop : ℕ → BlockRecord → ℕ → List WithdrawalV1 → Except Exc (List WithdrawalV1)
  | fuel, curr, nextWdIndex, withdrawals =>
    let withdrawals := withdrawals ++
      [⟨nextWdIndex, 1, curr.coinbase, calculateBlockReward curr.height⟩]
    if curr.prevHash = constants.genesisChallenge then .ok withdrawals
    else
      match blocks curr.prevHash with
      | none => .error .keyError
      | some curr =>
        if curr.isTransactionBlock then .ok withdrawals
        else
          match fuel with
          | 0 => .error .outOfFuel
          | fuel + 1 => rewardLoop fuel curr (nextWdIndex + 1) withdrawals

/-- The first withdrawal index after `prev_tx_block`'s. -/
def firstWdIndex (prevTxBlock : BlockRecord) : ℕ :=
  match prevTxBlock.lastWithdrawalIndex with
  | none => 0
  | some i => i + 1

/-- The prefarm withdrawal, paid with index `i`. -/
def prefarmWithdrawal (i : ℕ) : WithdrawalV1 :=
  ⟨i, 0, constants.prefarmAddress, constants.prefarmAmount * corpochainToGwei⟩

/-- `create_withdrawals(constants, prev_tx_block, blocks)`. -/
def createWithdrawals (prevTxBlock : BlockRecord) : Except Exc (List WithdrawalV1) :=
  let nextWdIndex := firstWdIndex prevTxBlock
  if prevTxBlock.height = 0 then
    rewardLoop constants blocks prevTxBlock.height prevTxBlock (nextWdIndex + 1)
      [prefarmWithdrawal constants nextWdIndex]
  else rewardLoop constants blocks prevTxBlock.height prevTxBlock nextWdIndex []

/-! ## What one call pays -/

/-- The heights paid by the call for the transaction block at height `i` of a chain `b`:
`i`, then the non-transaction blocks below it down to the previous transaction block. -/
def paidHeights (b : ℕ → BlockRecord) : ℕ → List ℕ
  | 0 => [0]
  | i + 1 => (i + 1) :: (if (b i).isTransactionBlock then [] else paidHeights b i)

/-- The block-reward withdrawals of that call, numbered from `k`. -/
def rewardsFrom (b : ℕ → BlockRecord) : ℕ → ℕ → List WithdrawalV1
  | 0, k => [⟨k, 1, (b 0).coinbase, calculateBlockReward (b 0).height⟩]
  | i + 1, k => ⟨k, 1, (b (i + 1)).coinbase, calculateBlockReward (b (i + 1)).height⟩ ::
      (if (b i).isTransactionBlock then [] else rewardsFrom b i (k + 1))

/-- The highest transaction block at or below height `n`. -/
def lastTx (b : ℕ → BlockRecord) : ℕ → ℕ
  | 0 => 0
  | n + 1 => if (b (n + 1)).isTransactionBlock then n + 1 else lastTx b n

/-- The heights of the transaction blocks of `b 0, …, b n`, in increasing order. -/
def txIndices (b : ℕ → BlockRecord) (n : ℕ) : List ℕ :=
  (List.range (n + 1)).filter fun i => (b i).isTransactionBlock

/-- `b 0, …, b n` is a chain of records from genesis, each reachable through `blocks`:
heights `0, …, n`, each block's parent the one before it, `b 0` a transaction block whose
parent is the genesis challenge. -/
structure IsChain (b : ℕ → BlockRecord) (n : ℕ) : Prop where
  lookup : ∀ i ≤ n, blocks (b i).headerHash = some (b i)
  height : ∀ i ≤ n, (b i).height = i
  genesis_tx : (b 0).isTransactionBlock = true
  genesis_prev : (b 0).prevHash = constants.genesisChallenge
  prev : ∀ i, 0 < i → i ≤ n → (b i).prevHash = (b (i - 1)).headerHash

section Chain

variable {constants blocks} {b : ℕ → BlockRecord} {n : ℕ}

theorem rewardsFrom_indices (b : ℕ → BlockRecord) :
    ∀ i k, (rewardsFrom b i k).map (·.index) = List.range' k (rewardsFrom b i k).length
  | 0, k => rfl
  | i + 1, k => by
    by_cases htx : (b i).isTransactionBlock
    · simp [rewardsFrom, htx]
    · simp [rewardsFrom, htx, rewardsFrom_indices b i (k + 1), List.range'_succ]

theorem rewardsFrom_validatorIndex (b : ℕ → BlockRecord) :
    ∀ i k, ∀ w ∈ rewardsFrom b i k, w.validatorIndex = 1
  | 0, k => by simp [rewardsFrom]
  | i + 1, k => by
    by_cases htx : (b i).isTransactionBlock
    · simp [rewardsFrom, htx]
    · simpa [rewardsFrom, htx] using rewardsFrom_validatorIndex b i (k + 1)

theorem rewardsFrom_payments (b : ℕ → BlockRecord) : ∀ i k,
    (rewardsFrom b i k).map (fun w => (w.address, w.amount)) =
      (paidHeights b i).map fun m => ((b m).coinbase, calculateBlockReward (b m).height)
  | 0, k => rfl
  | i + 1, k => by
    by_cases htx : (b i).isTransactionBlock
    · simp [rewardsFrom, paidHeights, htx]
    · simp [rewardsFrom, paidHeights, htx, rewardsFrom_payments b i (k + 1)]

/-- **The reward loop on a chain**: from the block at height `i` it pays exactly
`rewardsFrom`, within `i` steps to a parent. -/
theorem rewardLoop_eq (hc : IsChain constants blocks b n)
    (hgc : ∀ i, 0 < i → i ≤ n → (b i).prevHash ≠ constants.genesisChallenge) :
    ∀ i ≤ n, ∀ fuel, i ≤ fuel → ∀ k acc,
      rewardLoop constants blocks fuel (b i) k acc = .ok (acc ++ rewardsFrom b i k) := by
  intro i
  induction i with
  | zero =>
    intro _ fuel _ k acc
    simp [rewardLoop, hc.genesis_prev, rewardsFrom]
  | succ i ih =>
    intro hi fuel hf k acc
    obtain ⟨fuel, rfl⟩ : ∃ f, fuel = f + 1 := ⟨fuel - 1, by omega⟩
    have hprev := hc.prev (i + 1) (by omega) hi
    simp only [Nat.add_sub_cancel] at hprev
    have hne := hgc (i + 1) (by omega) hi
    rw [hprev] at hne
    rw [rewardLoop]
    simp only [hprev, hne, if_false, hc.lookup i (by omega)]
    by_cases htx : (b i).isTransactionBlock
    · simp [htx, rewardsFrom]
    · simp [htx, rewardsFrom, ih (by omega) fuel (by omega)]

/-- What `create_withdrawals` pays for the transaction block at height `j`: the prefarm
first when `j = 0`, then the block rewards. -/
def withdrawalsAt (constants : ConsensusConstants) (b : ℕ → BlockRecord) (j : ℕ) :
    List WithdrawalV1 :=
  if j = 0 then prefarmWithdrawal constants (firstWdIndex (b 0)) :: rewardsFrom b 0 (firstWdIndex (b 0) + 1)
  else rewardsFrom b j (firstWdIndex (b j))

theorem createWithdrawals_eq (hc : IsChain constants blocks b n)
    (hgc : ∀ i, 0 < i → i ≤ n → (b i).prevHash ≠ constants.genesisChallenge) {j : ℕ} (hj : j ≤ n) :
    createWithdrawals constants blocks (b j) = .ok (withdrawalsAt constants b j) := by
  unfold createWithdrawals withdrawalsAt
  rw [hc.height j hj]
  rcases Nat.eq_zero_or_pos j with rfl | hpos
  · simp [rewardLoop_eq hc hgc 0 (Nat.zero_le _) 0 le_rfl]
  · simp [hpos.ne', rewardLoop_eq hc hgc j hj j le_rfl]

theorem withdrawalsAt_indices (constants : ConsensusConstants) (b : ℕ → BlockRecord) (j : ℕ) :
    (withdrawalsAt constants b j).map (·.index) =
      List.range' (firstWdIndex (b j)) (withdrawalsAt constants b j).length := by
  unfold withdrawalsAt
  split
  · subst j
    simp [List.range'_succ, prefarmWithdrawal, rewardsFrom_indices]
  · exact rewardsFrom_indices b j _

theorem withdrawalsAt_prefarm (constants : ConsensusConstants) (b : ℕ → BlockRecord) (j : ℕ) :
    (withdrawalsAt constants b j).filter (·.validatorIndex == 0) =
      if j = 0 then [prefarmWithdrawal constants (firstWdIndex (b 0))] else [] := by
  have hr : ∀ k, (rewardsFrom b j k).filter (·.validatorIndex == 0) = [] := fun k =>
    List.filter_eq_nil_iff.mpr fun w hw => by simp [rewardsFrom_validatorIndex b j k w hw]
  unfold withdrawalsAt
  split
  · subst j
    simp [prefarmWithdrawal, List.filter_cons, hr]
  · simp [hr]

theorem withdrawalsAt_rewards (constants : ConsensusConstants) (b : ℕ → BlockRecord) (j : ℕ) :
    ((withdrawalsAt constants b j).filter (·.validatorIndex == 1)).map (fun w => (w.address, w.amount)) =
      (paidHeights b j).map fun m => ((b m).coinbase, calculateBlockReward (b m).height) := by
  have hr : ∀ k, (rewardsFrom b j k).filter (·.validatorIndex == 1) = rewardsFrom b j k := fun k =>
    List.filter_eq_self.mpr fun w hw => by simp [rewardsFrom_validatorIndex b j k w hw]
  unfold withdrawalsAt
  split
  · subst j
    simp [prefarmWithdrawal, List.filter_cons, hr, rewardsFrom_payments]
  · simp [hr, rewardsFrom_payments]

end Chain

/-! ## All calls together -/

theorem lastTx_le (b : ℕ → BlockRecord) : ∀ n, lastTx b n ≤ n
  | 0 => le_rfl
  | n + 1 => by
    unfold lastTx
    split
    · exact le_rfl
    · exact (lastTx_le b n).trans (Nat.le_succ n)

/-- The call for the transaction block at height `i + 1` pays the heights above the
previous transaction block. -/
theorem paidHeights_succ {b : ℕ → BlockRecord} (h0 : (b 0).isTransactionBlock) : ∀ i,
    paidHeights b (i + 1) = (List.range' (lastTx b i + 1) (i + 1 - lastTx b i)).reverse
  | 0 => by simp [paidHeights, lastTx, h0]
  | i + 1 => by
    by_cases htx : (b (i + 1)).isTransactionBlock
    · simp [paidHeights, lastTx, htx]
    · have hle := lastTx_le b i
      rw [paidHeights, if_neg htx, paidHeights_succ h0 i]
      simp only [lastTx, htx, if_false, Bool.false_eq_true]
      rw [show i + 1 + 1 - lastTx b i = (i + 1 - lastTx b i) + 1 by omega, List.range'_concat,
        List.reverse_append]
      simp only [List.reverse_singleton, List.singleton_append]
      congr 1
      omega

theorem txIndices_succ (b : ℕ → BlockRecord) (n : ℕ) :
    txIndices b (n + 1) =
      txIndices b n ++ if (b (n + 1)).isTransactionBlock then [n + 1] else [] := by
  unfold txIndices
  rw [List.range_succ, List.filter_append]
  split <;> simp [*]

/-- **No gap, no overlap**: over all transaction blocks of `b 0, …, b n`, the paid heights
are `0, …, t_m` each exactly once. -/
theorem paid_heights_perm {b : ℕ → BlockRecord} (h0 : (b 0).isTransactionBlock) : ∀ n,
    ((txIndices b n).flatMap (paidHeights b)).Perm (List.range (lastTx b n + 1))
  | 0 => by simp [txIndices, paidHeights, lastTx, h0, List.range_succ]
  | n + 1 => by
    have ih := paid_heights_perm h0 n
    rw [txIndices_succ]
    by_cases htx : (b (n + 1)).isTransactionBlock
    · have hle := lastTx_le b n
      simp only [htx, if_true, List.flatMap_append, List.flatMap_singleton, paidHeights_succ h0,
        lastTx]
      refine (ih.append (List.reverse_perm _)).trans ?_
      have happ := List.range'_append_1 0 (lastTx b n + 1) (n + 1 - lastTx b n)
      rw [Nat.zero_add] at happ
      rw [List.range_eq_range', List.range_eq_range', happ]
      exact .of_eq (by congr 1; omega)
    · simpa [htx, lastTx] using ih

theorem txIndices_eq {b : ℕ → BlockRecord} (h0 : (b 0).isTransactionBlock) (n : ℕ) :
    txIndices b n = 0 :: (List.range' 1 n).filter fun i => (b i).isTransactionBlock := by
  simp [txIndices, List.range_eq_range', List.range'_succ, List.filter_cons, h0]

/-- What the calls of `create_withdrawals` for the transaction blocks of `b 0, …, b n`
promise: each terminates and numbers its withdrawals consecutively from
`last_withdrawal_index + 1`, only the call for `b 0` pays the prefarm, and over all calls the
block rewards are one per block of `b 0, …, t_m`, `t_m` the last transaction block. -/
def PaysEachBlockOnce (constants : ConsensusConstants) (blocks : Bytes32 → Option BlockRecord)
    (b : ℕ → BlockRecord) (n : ℕ) : Prop :=
  (∀ j ∈ txIndices b n, ∃ ws, createWithdrawals constants blocks (b j) = .ok ws ∧
      ws.map (·.index) = List.range' (firstWdIndex (b j)) ws.length ∧
      ws.filter (·.validatorIndex == 0) =
        if j = 0 then [prefarmWithdrawal constants (firstWdIndex (b 0))] else []) ∧
  ∃ wss, (txIndices b n).mapM (fun j => createWithdrawals constants blocks (b j)) = .ok wss ∧
    ((wss.flatten.filter (·.validatorIndex == 1)).map fun w => (w.address, w.amount)).Perm
      ((List.range (lastTx b n + 1)).map fun i => ((b i).coinbase, calculateBlockReward i)) ∧
    wss.flatten.filter (·.validatorIndex == 0) = [prefarmWithdrawal constants (firstWdIndex (b 0))]

section Chain

variable {constants blocks} {b : ℕ → BlockRecord} {n : ℕ}

/-- **Block rewards are paid exactly once**, on a chain where `b 0` is the only block whose
`prev_hash` is the genesis challenge. -/
theorem createWithdrawals_pays_each_block_once (hc : IsChain constants blocks b n)
    (hgc : ∀ i, 0 < i → i ≤ n → (b i).prevHash ≠ constants.genesisChallenge) :
    PaysEachBlockOnce constants blocks b n := by
  have hT : ∀ j ∈ txIndices b n, j ≤ n := fun j hj => by
    simp only [txIndices, List.mem_filter, List.mem_range] at hj
    omega
  have hcall : ∀ j ∈ txIndices b n,
      createWithdrawals constants blocks (b j) = .ok (withdrawalsAt constants b j) :=
    fun j hj => createWithdrawals_eq hc hgc (hT j hj)
  refine ⟨fun j hj => ⟨_, hcall j hj, withdrawalsAt_indices .., withdrawalsAt_prefarm ..⟩,
    _, mapM_eq_ok hcall, ?_, ?_⟩
  · -- the block rewards: one per paid height
    simp only [List.filter_flatten, List.map_flatten, List.map_map, Function.comp_def,
      withdrawalsAt_rewards]
    rw [← List.flatMap_def, ← List.map_flatMap]
    refine ((paid_heights_perm hc.genesis_tx n).map _).trans (.of_eq (List.map_congr_left ?_))
    intro i hi
    have := lastTx_le b n
    rw [hc.height i (by simp at hi; omega)]
  · -- the prefarm: only the call for `b 0` pays it
    rw [List.filter_flatten, List.map_map, txIndices_eq hc.genesis_tx, List.map_cons,
      List.flatten_cons, Function.comp_apply, withdrawalsAt_prefarm, if_pos rfl,
      List.flatten_eq_nil_iff.mpr, List.append_nil]
    simp only [List.mem_map, List.mem_filter, List.mem_range', Function.comp_apply]
    rintro l ⟨i, ⟨⟨k, -, rfl⟩, -⟩, rfl⟩
    simp [withdrawalsAt_prefarm]

end Chain

/-- Constants whose genesis challenge is `7`. -/
def gcConstants : ConsensusConstants := ⟨7, 0, 0, 1, 99, 5⟩

/-- A record with the given hash, parent, height and transaction flag; its coinbase is its
hash. -/
def gcRecord (hash prev height : ℕ) (tx : Bool) : BlockRecord :=
  ⟨hash, prev, height, height, height, 0, false, false, tx, 0, none, none, none, hash⟩

/-- A chain of three blocks whose middle one, not a transaction block, has the genesis
challenge `7` as its header hash. -/
def gcChain : ℕ → BlockRecord
  | 0 => gcRecord 1 7 0 true
  | 1 => gcRecord 7 1 1 false
  | _ => gcRecord 3 7 2 true

/-- The records of `gcChain`, by header hash. -/
def gcBlocks (h : Bytes32) : Option BlockRecord :=
  if h = 1 then some (gcChain 0) else if h = 7 then some (gcChain 1)
  else if h = 3 then some (gcChain 2) else none

/-- A chain of three blocks with ordinary hashes. -/
def okChain : ℕ → BlockRecord
  | 0 => gcRecord 1 7 0 true
  | 1 => gcRecord 2 1 1 false
  | _ => gcRecord 3 2 2 true

/-- The records of `okChain`, by header hash. -/
def okBlocks (h : Bytes32) : Option BlockRecord :=
  if h = 1 then some (okChain 0) else if h = 2 then some (okChain 1)
  else if h = 3 then some (okChain 2) else none

theorem createWithdrawals_pays_each_block_once_three_blocks :
    IsChain gcConstants okBlocks okChain 2 ∧
    (∀ i, 0 < i → i ≤ 2 → (okChain i).prevHash ≠ gcConstants.genesisChallenge) ∧
    PaysEachBlockOnce gcConstants okBlocks okChain 2 :=
  have hc : IsChain gcConstants okBlocks okChain 2 := ⟨by decide, by decide, rfl, rfl,
    fun i _ _ => by rcases (by omega : i = 1 ∨ i = 2) with rfl | rfl <;> rfl⟩
  have hgc : ∀ i, 0 < i → i ≤ 2 → (okChain i).prevHash ≠ gcConstants.genesisChallenge :=
    fun i _ _ => by rcases (by omega : i = 1 ∨ i = 2) with rfl | rfl <;> decide
  ⟨hc, hgc, createWithdrawals_pays_each_block_once hc hgc⟩

/-- Without the condition on the genesis challenge a block goes unpaid: the call for the
block at height 2 stops at its parent hash, which is the genesis challenge, and the block at
height 1 is never paid. -/
theorem createWithdrawals_skips_block_hashed_genesis_challenge :
    IsChain gcConstants gcBlocks gcChain 2 ∧
    (∀ i ≤ 2, ∀ j ≤ 2, (gcChain i).headerHash = (gcChain j).headerHash → i = j) ∧
    ¬ PaysEachBlockOnce gcConstants gcBlocks gcChain 2 := by
  refine ⟨⟨by decide, by decide, rfl, rfl,
    fun i _ _ => by rcases (by omega : i = 1 ∨ i = 2) with rfl | rfl <;> rfl⟩, by decide, ?_⟩
  rintro ⟨-, wss, hw, hp, -⟩
  have hrun : (txIndices gcChain 2).mapM (fun j => createWithdrawals gcConstants gcBlocks (gcChain j)) =
      .ok [[prefarmWithdrawal gcConstants 0, ⟨1, 1, 1, 2 * corpochainToGwei⟩],
        [⟨0, 1, 3, 2 * corpochainToGwei⟩]] := rfl
  cases hw.symm.trans hrun
  exact absurd hp (by decide)

end CorpochainBeacon
