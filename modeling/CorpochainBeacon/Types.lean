import Mathlib.Data.List.AList

/-!
# Block data: records, full blocks, results

The values the consensus core of `corpochain/consensus` passes around, each with the
fields that the modelled functions read:

* `FullBlock` / `UnfinishedBlock` — what arrives from the network; the properties the
  source reads through `reward_chain_block` and `foliage` are flattened into fields.
* `BlockRecord` — the immutable summary kept in the caches and in the block store.
* `Err`, `Exc` — consensus error codes (returned) and Python exceptions (raised).
* `PreValidationResult`, `ReceiveBlockResult`, `StateChangeSummary` — what the pipeline
  and `Blockchain.receive_block` hand back.

Hashes and addresses are compared only for equality; `ℕ` keeps them executable.
-/

namespace CorpochainBeacon

/-- A 32-byte hash (`bytes32`): header hashes, challenges, the genesis challenge. -/
abbrev Bytes32 : Type := ℕ

/-- A 20-byte address (`bytes20`): coinbase and prefarm addresses. -/
abbrev Bytes20 : Type := ℕ

/-- A sub-epoch summary; the code only ever compares summaries by `get_hash()`. -/
structure SubEpochSummary where
  /-- `get_hash()` of the summary -/
  hash : Bytes32
  deriving DecidableEq, Repr

/-- `SubEpochSummary.get_hash`. -/
def SubEpochSummary.getHash (ses : SubEpochSummary) : Bytes32 := ses.hash

/-- An end-of-sub-slot bundle, identified by its challenge-chain sub-slot. -/
structure EndOfSubSlotBundle where
  /-- the challenge-chain sub-slot, by hash -/
  challengeChain : Bytes32
  deriving DecidableEq, Repr

/-- An execution payload, opaque to the beacon; identified by its block hash. -/
structure ExecutionPayloadV2 where
  /-- the execution block hash -/
  blockHash : Bytes32
  deriving DecidableEq, Repr

/-- A full block (`types/full_block.py`, with the properties of `header_block.py`). -/
structure FullBlock where
  /-- end-of-sub-slot bundles finished since the previous block -/
  finishedSubSlots : List EndOfSubSlotBundle
  /-- `foliage.get_hash()` -/
  headerHash : Bytes32
  /-- `foliage.prev_block_hash` -/
  prevHeaderHash : Bytes32
  /-- `reward_chain_block.height` -/
  height : ℕ
  /-- `reward_chain_block.weight`: accumulated difficulty -/
  weight : ℕ
  /-- `reward_chain_block.total_iters` -/
  totalIters : ℕ
  /-- `reward_chain_block.is_transaction_block` -/
  isTransactionBlock : Bool
  /-- `reward_chain_block.signage_point_index` -/
  signagePointIndex : ℕ
  /-- output hash of `reward_chain_block.challenge_chain_sp_vdf`, if present -/
  challengeChainSpVdf : Option Bytes32
  /-- the execution payload, if any -/
  executionPayload : Option ExecutionPayloadV2
  deriving DecidableEq, Repr

/-- An unfinished block: a full block without its infusion-point proofs. -/
structure UnfinishedBlock where
  /-- end-of-sub-slot bundles finished since the previous block -/
  finishedSubSlots : List EndOfSubSlotBundle
  /-- `foliage.prev_block_hash` -/
  prevHeaderHash : Bytes32
  /-- the execution payload, if any -/
  executionPayload : Option ExecutionPayloadV2
  deriving DecidableEq, Repr

/-- A block record (`consensus/block_record.py`), restricted to the fields the modelled
functions read. -/
structure BlockRecord where
  headerHash : Bytes32
  prevHash : Bytes32
  height : ℕ
  /-- accumulated difficulty: the fork-choice metric -/
  weight : ℕ
  totalIters : ℕ
  requiredIters : ℕ
  overflow : Bool
  firstInSubSlot : Bool
  isTransactionBlock : Bool
  subSlotIters : ℕ
  subEpochSummaryIncluded : Option SubEpochSummary
  finishedChallengeSlotHashes : Option (List Bytes32)
  lastWithdrawalIndex : Option ℕ
  coinbase : Bytes20
  deriving DecidableEq, Repr

/-- The consensus error codes (`util/errors.py`) that the core returns by name; header
validation may return any other code. -/
inductive Err where
  | invalidPrevBlockHash
  | invalidHeight
  | invalidPospace
  | invalidSubEpochSummary
  | payloadInvalidated
  | payloadNotValidated
  | unknown
  /-- any other code, as returned by the header validator -/
  | other (code : ℕ)
  deriving DecidableEq, Repr

/-- The Python exceptions the modelled code can raise. `outOfFuel` is never raised by the
source: it stands for a `while` loop that has not stopped within the fuel the model gives
it, and the theorems show it is never reached where the source terminates. -/
inductive Exc where
  | keyError
  | indexError
  | assertionError
  | valueError (msg : String)
  /-- a failed block-store operation or commit -/
  | storeError
  | outOfFuel
  deriving DecidableEq, Repr

/-- `PreValidationResult`: an error code, or the required iterations. -/
structure PreValidationResult where
  error : Option Err
  /-- iff `error` is `none` -/
  requiredIters : Option ℕ
  deriving DecidableEq, Repr

/-- `ReceiveBlockResult`. -/
inductive ReceiveBlockResult where
  | newPeak
  | addedAsOrphan
  | invalidBlock
  | alreadyHaveBlock
  | disconnectedBlock
  deriving DecidableEq, Repr

/-- `StateChangeSummary`: the new peak and the fork height of the change. -/
structure StateChangeSummary where
  peak : BlockRecord
  forkHeight : ℕ
  deriving DecidableEq, Repr

/-! ## `Except` as Python's raise -/

@[simp] theorem bind_ok {ε α β : Type} (a : α) (f : α → Except ε β) :
    (Except.ok a >>= f : Except ε β) = f a := rfl

@[simp] theorem bind_error {ε α β : Type} (e : ε) (f : α → Except ε β) :
    (Except.error e >>= f : Except ε β) = .error e := rfl

theorem bind_eq_ok {ε α β : Type} {x : Except ε α} {f : α → Except ε β} {b : β}
    (h : x >>= f = .ok b) : ∃ a, x = .ok a ∧ f a = .ok b := by
  cases x with
  | error e => cases h
  | ok a => exact ⟨a, rfl, h⟩

/-- `mapM` of a function that succeeds on every element. -/
theorem mapM_eq_ok {ε α β : Type} {f : α → Except ε β} {g : α → β} :
    ∀ {l : List α}, (∀ a ∈ l, f a = .ok (g a)) → l.mapM f = .ok (l.map g)
  | [], _ => rfl
  | a :: l, h => by
    rw [List.mapM_cons, h a (List.mem_cons_self a l),
      mapM_eq_ok fun x hx => h x (List.mem_cons_of_mem a hx)]
    rfl

/-- A lookup in a dictionary assigned at `k` finds the new value at `k` and the old one
elsewhere. -/
theorem update_eq_some {α β : Type} [DecidableEq α] {v : α → Option β} {k x : α} {a b : β}
    (h : Function.update v k (some a) x = some b) : (x = k ∧ b = a) ∨ v x = some b := by
  by_cases he : x = k
  · subst he
    exact .inl ⟨rfl, Option.some.inj (h.symm.trans (Function.update_same _ _ _))⟩
  · exact .inr ((Function.update_noteq he _ _).symm.trans h)

/-- Outcomes compare by value, so that a call's result can be decided on a concrete run. -/
instance instDecidableEqExcept {ε α : Type} [DecidableEq ε] [DecidableEq α] :
    DecidableEq (Except ε α)
  | .ok a, .ok b => decidable_of_iff (a = b) ⟨congrArg _, Except.ok.inj⟩
  | .error a, .error b => decidable_of_iff (a = b) ⟨congrArg _, Except.error.inj⟩
  | .ok _, .error _ => isFalse nofun
  | .error _, .ok _ => isFalse nofun

/-- The consensus constants the modelled functions read (`consensus/constants.py`). -/
structure ConsensusConstants where
  genesisChallenge : Bytes32
  blocksCacheSize : ℕ
  numberOfTimestamps : ℕ
  subEpochBlocks : ℕ
  prefarmAddress : Bytes20
  prefarmAmount : ℕ
  deriving DecidableEq, Repr

end CorpochainBeacon
