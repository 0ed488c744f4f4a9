import CorpochainBeacon.Store

/-!
# The `Blockchain` object and its record cache

The state owned by `consensus/blockchain.py`'s `Blockchain`, and its synchronous cache
operations, each as the source computes it:

* reads: `contains_block`, `block_record`, `try_block_record`, `height_to_hash`,
  `height_to_block_record`, `get_peak`;
* cache writes: `add_block_record`, `remove_block_record`, `clean_block_record`,
  `clean_block_records`, `warmup`.

A call returns the object's state when it ended together with its value or the
exception it raised: mutations made before a raise persist, as in Python.
-/

namespace CorpochainBeacon

/-- Modelled from the spec: the execution client (class absent from the source), reduced
to the head it was last given by `forkchoice_update` (§4.G). -/
structure ExecutionClient where
  /-- the record passed to the most recent `forkchoice_update` -/
  head : Option BlockRecord

/-- The state of a `Blockchain`. -/
structure Blockchain where
  /-- `_peak_height` -/
  peakHeight : Option ℕ
  /-- `__block_records`: the record cache, by header hash -/
  blockRecords : AList (fun _ : Bytes32 => BlockRecord)
  /-- `__heights_in_cache`: the cached hashes at each height (a Python set) -/
  heightsInCache : ℕ → Option (List Bytes32)
  /-- `__height_map` -/
  heightMap : BlockHeightMap
  /-- `block_store` -/
  blockStore : BlockStore
  /-- `execution_client` -/
  executionClient : ExecutionClient

/-- The outcome of a call on a `Blockchain`: the state it left and its value or exception. -/
abbrev Call (α : Type) : Type := Blockchain × Except Exc α

namespace Blockchain

variable (constants : ConsensusConstants) (s : Blockchain)

/-- A chain with nothing loaded: no peak, empty caches, an empty store. -/
def empty : Blockchain :=
  ⟨none, ∅, fun _ => none, .empty, ⟨.empty, fun _ => none⟩, ⟨none⟩⟩

/-- The cache as a `BlockchainInterface` lookup. -/
def view : Bytes32 → Option BlockRecord := fun h => s.blockRecords.lookup h

/-- `contains_block(header_hash)`. -/
def containsBlock (h : Bytes32) : Bool := decide (h ∈ s.blockRecords)

/-- `block_record(header_hash)`: a dictionary lookup, `KeyError` when absent. -/
def blockRecord (h : Bytes32) : Except Exc BlockRecord :=
  match s.blockRecords.lookup h with
  | some r => .ok r
  | none => .error .keyError

theorem blockRecord_of_view {s : Blockchain} {h : Bytes32} {r : BlockRecord} (hr : s.view h = some r) :
    s.blockRecord h = .ok r := by
  unfold blockRecord
  rw [show s.blockRecords.lookup h = some r from hr]

/-- `try_block_record(header_hash)`. -/
def tryBlockRecord (h : Bytes32) : Option BlockRecord :=
  if s.containsBlock h then (s.blockRecord h).toOption else none

/-- `height_to_hash(height)`. -/
def heightToHash (height : ℕ) : Option Bytes32 :=
  if s.heightMap.containsHeight height then some (s.heightMap.getHash height) else none

/-- `height_to_block_record(height)`. -/
def heightToBlockRecord (height : ℕ) : Except Exc BlockRecord :=
  match s.heightToHash height with
  | none => .error (.valueError s!"Height is not in blockchain: {height}")
  | some h => s.blockRecord h

/-- `get_peak()`. -/
def getPeak : Except Exc (Option BlockRecord) :=
  match s.peakHeight with
  | none => .ok none
  | some p => (s.heightToBlockRecord p).map some

/-- `height_to_hash` reads the height map. -/
theorem heightToHash_eq (k : ℕ) : s.heightToHash k = s.heightMap.hashes k := by
  unfold heightToHash BlockHeightMap.containsHeight BlockHeightMap.getHash
  cases s.heightMap.hashes k <;> rfl

theorem getPeak_of_none {s : Blockchain} (hp : s.peakHeight = none) : s.getPeak = .ok none := by
  simp [getPeak, hp]

/-- `get_peak()` is the cached record the height map names at `_peak_height`. -/
theorem getPeak_of_hash {s : Blockchain} {p : ℕ} {x : Bytes32} {r : BlockRecord}
    (hp : s.peakHeight = some p) (hm : s.heightMap.hashes p = some x) (hx : s.view x = some r) :
    s.getPeak = .ok (some r) := by
  simp only [view] at hx
  simp [getPeak, hp, heightToBlockRecord, heightToHash_eq, hm, blockRecord, hx, Except.map]

/-- `add_block_record(block_record)`. -/
def addBlockRecord (r : BlockRecord) : Blockchain :=
  { s with
    blockRecords := s.blockRecords.insert r.headerHash r
    heightsInCache := Function.update s.heightsInCache r.height
      (some (match s.heightsInCache r.height with
        | some hs => if r.headerHash ∈ hs then hs else hs ++ [r.headerHash]
        | none => [r.headerHash])) }

@[simp] theorem view_addBlockRecord (r : BlockRecord) :
    (s.addBlockRecord r).view = Function.update s.view r.headerHash (some r) := by
  funext y
  by_cases hy : y = r.headerHash
  · subst hy; simp [view, addBlockRecord]
  · simp [view, addBlockRecord, AList.lookup_insert_ne hy, Function.update_noteq hy]

/-- `remove_block_record(header_hash)`: the lookup, the `del`, then `set.remove`, each of
which may raise `KeyError`. -/
def removeBlockRecord (h : Bytes32) : Call Unit :=
  match s.blockRecords.lookup h with
  | none => (s, .error .keyError)
  | some sbr =>
    let s' := { s with blockRecords := s.blockRecords.erase h }
    match s'.heightsInCache sbr.height with
    | some hs =>
      if h ∈ hs then
        ({ s' with heightsInCache := Function.update s'.heightsInCache sbr.height (some (hs.erase h)) },
          .ok ())
      else (s', .error .keyError)
    | none => (s', .error .keyError)

/-- The inner loop of `clean_block_record`: `del __block_records[h]` for each hash of a
height, in the set's order. -/
def deleteRecords : Blockchain → List Bytes32 → Call Unit
  | s, [] => (s, .ok ())
  | s, h :: hs =>
    if h ∈ s.blockRecords then deleteRecords { s with blockRecords := s.blockRecords.erase h } hs
    else (s, .error .keyError)

/-- The `while` loop of `clean_block_record`, from `height` down to the first height with
no entry in `__heights_in_cache` (or to `0`). -/
def cleanBlockRecordLoop : ℕ → Blockchain → Call Unit
  | height, s =>
    match s.heightsInCache height with
    | none => (s, .ok ())
    | some blocksToRemove =>
      match deleteRecords s blocksToRemove with
      | (s', .error e) => (s', .error e)
      | (s', .ok ()) =>
        let s'' := { s' with heightsInCache := Function.update s'.heightsInCache height none }
        match height with
        | 0 => (s'', .ok ())
        | h + 1 => cleanBlockRecordLoop h s''

/-- `clean_block_record(height)`. -/
def cleanBlockRecord (height : ℤ) : Call Unit :=
  if height < 0 then (s, .ok ()) else cleanBlockRecordLoop height.toNat s

/-- `clean_block_records()`. -/
def cleanBlockRecords : Call Unit :=
  if s.blockRecords.entries.length < constants.blocksCacheSize then (s, .ok ())
  else
    match s.peakHeight with
    | none => (s, .error .assertionError)
    | some p =>
      if (p : ℤ) - constants.blocksCacheSize < 0 then (s, .ok ())
      else s.cleanBlockRecord ((p : ℤ) - constants.blocksCacheSize)

/-- `warmup(fork_point)`: loads the stored records of heights
`[fork_point - BLOCKS_CACHE_SIZE, fork_point]` into the cache. -/
def warmup (faults : StoreFaults) (forkPoint : ℕ) : Call Unit :=
  match s.peakHeight with
  | none => (s, .ok ())
  | some _ =>
    match s.blockStore.getBlockRecordsInRange faults (forkPoint - constants.blocksCacheSize) forkPoint with
    | .error e => (s, .error e)
    | .ok records => (records.foldl addBlockRecord s, .ok ())

end Blockchain

end CorpochainBeacon
