import CorpochainBeacon.Chain

/-!
# Body validation through the execution engine

`consensus/block_body_validation.py`'s `validate_block_body`: the execution payload of a
block is handed to the engine with `new_payload`; for a full block the engine is then told
the block's record with `forkchoice_update`, whose answer decides under the
`optimistic_import` policy. The engine's answers are supplied per call by `EngineAnswers`.
-/

namespace CorpochainBeacon

/-- A status string of the Engine API; `other` is any string not named here. -/
inductive PayloadStatus where
  | valid
  | invalid
  | invalidBlockHash
  | syncing
  | accepted
  | other
  deriving DecidableEq, Repr

/-- What the engine answers during one call, and the beacon's `optimistic_import` entry. -/
structure EngineAnswers where
  /-- the answer to `new_payload(payload)` -/
  newPayload : ExecutionPayloadV2 → PayloadStatus
  /-- the answer to `forkchoice_update(block_record)` -/
  forkchoiceUpdate : BlockRecord → PayloadStatus
  /-- `config.get("optimistic_import")`, `none` when the key is unset -/
  optimisticImport : Option Bool

/-- The block `validate_block_body` is given: a full block or an unfinished one. -/
inductive BodyBlock where
  | full (b : FullBlock)
  | unfinished (b : UnfinishedBlock)

/-- `block.execution_payload`. -/
def BodyBlock.executionPayload : BodyBlock → Option ExecutionPayloadV2
  | .full b => b.executionPayload
  | .unfinished b => b.executionPayload

namespace ExecutionClient

/-- `execution_client.forkchoice_update(block_record)`: the engine's head becomes the
record, and the engine answers. -/
def forkchoiceUpdate (_ec : ExecutionClient) (answers : EngineAnswers) (r : BlockRecord) :
    ExecutionClient × PayloadStatus :=
  (⟨some r⟩, answers.forkchoiceUpdate r)

end ExecutionClient

/-- The second half of `validate_block_body`, for a full block: `forkchoice_update` and the
`optimistic_import` policy. -/
def forkchoiceVerdict (answers : EngineAnswers) (status : PayloadStatus) : Option Err :=
  match status with
  | .invalid | .invalidBlockHash => some .payloadInvalidated
  | .syncing | .accepted => if !answers.optimisticImport.getD true then some .payloadNotValidated else none
  | .valid => none
  | .other => some .unknown

/-- `validate_block_body(execution_client, block, height, block_record)`. -/
def validateBlockBody (ec : ExecutionClient) (answers : EngineAnswers) (block : BodyBlock)
    (height : ℕ) (blockRecord : Option BlockRecord) : ExecutionClient × Except Exc (Option Err) :=
  match block with
  | .full b =>
    if height ≠ b.height then (ec, .error .assertionError)
    else
      match b.executionPayload with
      | none => (ec, .ok none)
      | some payload =>
        match answers.newPayload payload with
        | .invalid | .invalidBlockHash => (ec, .ok (some .payloadInvalidated))
        | .other => (ec, .ok (some .unknown))
        | .valid | .syncing | .accepted =>
          match blockRecord with
          | none => (ec, .error .assertionError)
          | some r =>
            let (ec', status) := ec.forkchoiceUpdate answers r
            (ec', .ok (forkchoiceVerdict answers status))
  | .unfinished b =>
    match b.executionPayload with
    | none => (ec, .ok none)
    | some payload =>
      match answers.newPayload payload with
      | .invalid | .invalidBlockHash => (ec, .ok (some .payloadInvalidated))
      | .syncing | .accepted => (ec, .ok (some .payloadNotValidated))
      | .other => (ec, .ok (some .unknown))
      | .valid => (ec, .ok none)

/-- Body validation of an unfinished block never talks to the engine's fork choice. -/
@[simp] theorem validateBlockBody_unfinished_client (ec : ExecutionClient) (answers : EngineAnswers)
    (b : UnfinishedBlock) (height : ℕ) (r : Option BlockRecord) :
    (validateBlockBody ec answers (.unfinished b) height r).1 = ec := by
  simp only [validateBlockBody]
  split
  · rfl
  · split <;> rfl

end CorpochainBeacon
