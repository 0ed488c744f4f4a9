import CorpochainBeacon.Atomicity

/-!
# The execution engine's head

`validate_block_body` calls `forkchoice_update` with the block's record as soon as
`new_payload` accepts the payload (§4.G), before `_reconsider_peak` has decided whether the
block becomes the peak. Modelling the engine's head as the record of the most recent
`forkchoice_update`:

* `validateBlockBody_full_client` — body validation of a full block moves the head to the
  block's record exactly when the block carries a payload that `new_payload` answers
  `VALID`, `SYNCING` or `ACCEPTED` (`reachesForkchoice`);
* **`receiveBlock_engine_head`** — over a whole `receive_block` call: the head moves to the
  call's record exactly when the block also passes the duplicate, parent and height checks
  and pre-validation and its record is built, whatever the call returns afterwards;
  otherwise the execution client is untouched;
* `orphan_with_payload_moves_engine_head` — so an orphan carrying a payload moves the
  engine's head off the peak's chain.
-/

namespace CorpochainBeacon

/-- `new_payload` lets a full block through to `forkchoice_update`: the block carries a
payload and the engine answers `VALID`, `SYNCING` or `ACCEPTED`. -/
def reachesForkchoice (answers : EngineAnswers) (b : FullBlock) : Bool :=
  match b.executionPayload with
  | none => false
  | some p =>
    match answers.newPayload p with
    | .valid | .syncing | .accepted => true
    | .invalid | .invalidBlockHash | .other => false

/-- Body validation of a full block at its own height moves the engine's head to the
block's record exactly when `new_payload` lets the block through. -/
theorem validateBlockBody_full_client (ec : ExecutionClient) (answers : EngineAnswers)
    (b : FullBlock) (r : BlockRecord) :
    (validateBlockBody ec answers (.full b) b.height (some r)).1 =
      if reachesForkchoice answers b then ⟨some r⟩ else ec := by
  obtain ⟨_, _, _, _, _, _, _, _, _, payload⟩ := b
  simp only [validateBlockBody, ne_eq, not_true_eq_false, if_false, reachesForkchoice]
  cases payload with
  | none => rfl
  | some p =>
    obtain ⟨st, hst⟩ : ∃ st, answers.newPayload p = st := ⟨_, rfl⟩
    cases st <;> simp only [hst] <;> rfl

namespace Blockchain

variable {cc : Collaborators} {s : Blockchain} {block : FullBlock} {pvr : PreValidationResult}
  {hint : Option ℕ} {env : CallEnv}

/-- **The engine's head after `receive_block`**: it is unchanged, or it is the call's record
and the block passed every check before body validation and reached `forkchoice_update`;
and whenever the block did, the head is the call's record, whether the call then returns
`NEW_PEAK`, `ADDED_AS_ORPHAN` or `INVALID_BLOCK`, or raises. -/
theorem receiveBlock_engine_head :
    ((s.receiveBlock cc block pvr hint env).1.executionClient = s.executionClient ∨
      ∃ ri rec, s.Admits block ∧ pvr.error = none ∧ pvr.requiredIters = some ri ∧
        blockToBlockRecord cc s.view ri block none = .ok rec ∧
        reachesForkchoice env.engine block = true ∧
        (s.receiveBlock cc block pvr hint env).1.executionClient.head = some rec) ∧
    ∀ ri rec, s.Admits block → pvr.error = none → pvr.requiredIters = some ri →
      blockToBlockRecord cc s.view ri block none = .ok rec →
      reachesForkchoice env.engine block = true →
      (s.receiveBlock cc block pvr hint env).1.executionClient.head = some rec := by
  generalize h : s.receiveBlock cc block pvr hint env = call
  obtain ⟨s', r⟩ := call
  rcases receiveBlock_cases h with
    ⟨rfl, -, hno⟩ | ⟨ri, rec, ec, body, hadm, herr, hri, hrec, hv, hcase⟩
  · -- stopped before body validation
    exact ⟨.inl rfl, fun ri rec ha he hr hb _ => absurd hb (hno ri rec ha he hr)⟩
  have hec : s'.executionClient = ec := by
    rcases hcase with ⟨-, rfl, -⟩ | ⟨-, hadd⟩
    · rfl
    · exact addToDatabase_executionClient hadd
  have hbody : ec = if reachesForkchoice env.engine block then ⟨some rec⟩ else s.executionClient := by
    rw [← validateBlockBody_full_client, hv]
  refine ⟨?_, fun ri' rec' _ _ hri' hrec' hreach => ?_⟩
  · cases hreach : reachesForkchoice env.engine block
    · exact .inl (by rw [hec, hbody, hreach]; rfl)
    · exact .inr ⟨ri, rec, hadm, herr, hri, hrec, rfl, by rw [hec, hbody, hreach]; rfl⟩
  · obtain rfl : ri = ri' := Option.some.inj (hri.symm.trans hri')
    obtain rfl : rec = rec' := Except.ok.inj (hrec.symm.trans hrec')
    rw [hec, hbody, hreach]
    rfl

end Blockchain

/-- The genesis block `1` and its child `2`, which carries a payload. -/
def payloadPeakChain : Blockchain :=
  receiveAll sampleCollaborators .empty
    [sampleDelivery (sampleBlock 1 0 0 1 none) none, sampleDelivery (sampleBlock 2 1 1 2 (some 20)) none]

/-- The sibling `3` of `2`, of equal weight and carrying a payload, delivered to
`payloadPeakChain`. -/
def payloadOrphan : Call ReceiveBlockOutput :=
  payloadPeakChain.receiveBlock sampleCollaborators (sampleBlock 3 1 1 2 (some 30)) acceptedResult none
    ⟨validEngine, StoreFaults.none⟩

/-- Before the call, the peak `2` carries a payload and is the engine's head. The sibling is
added as an orphan and the peak stays `2`, but the engine's head becomes `3`, which is not
on the peak's chain. -/
theorem orphan_with_payload_moves_engine_head :
    payloadPeakChain.getPeak.map (Option.map (·.headerHash)) = .ok (some 2) ∧
      (payloadPeakChain.blockStore.db.block 2).bind (·.executionPayload) = some ⟨20⟩ ∧
      payloadPeakChain.executionClient.head.map (·.headerHash) = some 2 ∧
      payloadOrphan.2 = .ok (.addedAsOrphan, none, none) ∧
      payloadOrphan.1.getPeak.map (Option.map (·.headerHash)) = .ok (some 2) ∧
      payloadOrphan.1.executionClient.head.map (·.headerHash) = some 3 := by
  decide

end CorpochainBeacon
