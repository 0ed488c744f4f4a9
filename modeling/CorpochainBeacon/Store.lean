import CorpochainBeacon.Types

/-!
# The block store and the height map

Neither `beacon/block_store.py` nor `beacon/block_height_map.py` is in the source tree;
both are modelled from the spec (§4.B, §4.C):

* `StoreData` — the rows of the store: `full_blocks` (block and record by header hash),
  the `in_main_chain` flags, the `peak` singleton and the sub-epoch summaries. A writer
  transaction works on a copy of it and the copy replaces the committed rows on commit.
* `BlockStore` — the committed rows and the in-memory `block_cache`, which is not
  transactional: `add_full_block` fills it and `rollback_cache_block` evicts.
* `StoreFaults` — which disk operations fail in a call, the store's and the height map's
  `maybe_flush`; a failing operation raises a storage error.
* `BlockHeightMap` — the canonical height → hash index with sub-epoch summaries.
-/

namespace CorpochainBeacon

/-- A disk operation of the block store or of the height map, named for the fault oracle. -/
inductive StoreOp where
  | getFullBlock (headerHash : Bytes32)
  | getBlockRecord (headerHash : Bytes32)
  | addFullBlock (headerHash : Bytes32)
  | setInChain (hashes : List Bytes32)
  | setPeak (headerHash : Bytes32)
  | rollback (height : ℤ)
  | getBlockRecordsInRange (start stop : ℕ)
  | commit
  /-- `height_map.maybe_flush()`, which writes the height map to its file -/
  | maybeFlush
  deriving DecidableEq, Repr

/-- Which disk operations fail during one call. -/
abbrev StoreFaults : Type := StoreOp → Bool

namespace StoreFaults

/-- No operation fails. -/
def none : StoreFaults := fun _ => false

/-- Perform `op`, whose result is `x`: it raises a storage error when `faults` says the
operation fails. Every store operation below is this, applied to its own result. -/
def run {α : Type} (faults : StoreFaults) (op : StoreOp) (x : α) : Except Exc α :=
  if faults op then .error .storeError else .ok x

@[simp] theorem run_none {α : Type} (op : StoreOp) (x : α) : StoreFaults.none.run op x = .ok x :=
  rfl

theorem run_eq_ok {α : Type} {faults : StoreFaults} {op : StoreOp} {x y : α}
    (h : faults.run op x = .ok y) : y = x := by
  unfold run at h
  split at h <;> cases h
  rfl

/-- The same faults, except that `maybe_flush` succeeds. -/
def flushing (faults : StoreFaults) : StoreFaults := Function.update faults .maybeFlush false

theorem run_flushing {α : Type} {faults : StoreFaults} {op : StoreOp} (h : op ≠ .maybeFlush) (x : α) :
    faults.flushing.run op x = faults.run op x := by
  simp only [run, flushing, Function.update_noteq h]

end StoreFaults

/-- Modelled from the spec: the rows of `beacon/block_store.py` (absent), §4.B and §6. -/
structure StoreData where
  /-- `full_blocks`: the block and its record, by header hash -/
  fullBlocks : AList (fun _ : Bytes32 => FullBlock × BlockRecord)
  /-- `in_main_chain` -/
  inMainChain : Bytes32 → Bool
  /-- the `peak` singleton -/
  peak : Option Bytes32
  /-- sub-epoch summaries by height, which `rollback` drops above its height -/
  subEpochSummaries : ℕ → Option SubEpochSummary

namespace StoreData

/-- The empty store. -/
def empty : StoreData := ⟨∅, fun _ => false, none, fun _ => none⟩

/-- The stored record of a header hash. -/
def record (s : StoreData) (h : Bytes32) : Option BlockRecord :=
  (s.fullBlocks.lookup h).map Prod.snd

/-- The stored full block of a header hash. -/
def block (s : StoreData) (h : Bytes32) : Option FullBlock :=
  (s.fullBlocks.lookup h).map Prod.fst

end StoreData

/-- Modelled from the spec: the block store, its committed rows and its `block_cache`. -/
structure BlockStore where
  /-- the committed rows (a writer transaction works on a copy) -/
  db : StoreData
  /-- `block_cache`: full blocks memoised in memory, outside any transaction -/
  blockCache : Bytes32 → Option FullBlock

namespace BlockStore

variable (faults : StoreFaults) (bs : BlockStore)

/-- `get_full_block(hash)`. -/
def getFullBlock (h : Bytes32) : Except Exc (Option FullBlock) :=
  faults.run (.getFullBlock h) (bs.db.block h)

/-- `get_block_record(hash)`. -/
def getBlockRecord (h : Bytes32) : Except Exc (Option BlockRecord) :=
  faults.run (.getBlockRecord h) (bs.db.record h)

/-- `add_full_block(hash, block, record)`: writes the row and memoises the block. -/
def addFullBlock (h : Bytes32) (block : FullBlock) (rec : BlockRecord) : Except Exc BlockStore :=
  faults.run (.addFullBlock h)
    ⟨{ bs.db with fullBlocks := bs.db.fullBlocks.insert h (block, rec) },
      Function.update bs.blockCache h (some block)⟩

/-- `set_in_chain([hash])`: marks the records as canonical. -/
def setInChain (hs : List Bytes32) : Except Exc BlockStore :=
  faults.run (.setInChain hs)
    { bs with db := { bs.db with inMainChain := fun x => x ∈ hs || bs.db.inMainChain x } }

/-- `set_peak(hash)`. -/
def setPeak (h : Bytes32) : Except Exc BlockStore :=
  faults.run (.setPeak h) { bs with db := { bs.db with peak := some h } }

/-- `rollback(height)`: drops the sub-epoch summaries strictly above `height`. -/
def rollback (height : ℤ) : Except Exc BlockStore :=
  faults.run (.rollback height)
    { bs with db := { bs.db with
      subEpochSummaries := fun k => if (k : ℤ) ≤ height then bs.db.subEpochSummaries k else none } }

/-- `get_block_records_in_range(start, stop)`: the records with heights in `[start, stop]`. -/
def getBlockRecordsInRange (start stop : ℕ) : Except Exc (List BlockRecord) :=
  faults.run (.getBlockRecordsInRange start stop)
    ((bs.db.fullBlocks.entries.map fun e => e.2.2).filter fun r => start ≤ r.height ∧ r.height ≤ stop)

theorem setInChain_rows {hs : List Bytes32} {bs' : BlockStore} (h : bs.setInChain faults hs = .ok bs') :
    bs'.db.fullBlocks = bs.db.fullBlocks := by
  rw [StoreFaults.run_eq_ok h]

theorem setPeak_rows {x : Bytes32} {bs' : BlockStore} (h : bs.setPeak faults x = .ok bs') :
    bs'.db.fullBlocks = bs.db.fullBlocks := by
  rw [StoreFaults.run_eq_ok h]

theorem rollback_rows {height : ℤ} {bs' : BlockStore} (h : bs.rollback faults height = .ok bs') :
    bs'.db.fullBlocks = bs.db.fullBlocks := by
  rw [StoreFaults.run_eq_ok h]

theorem addFullBlock_rows {x : Bytes32} {block : FullBlock} {rec : BlockRecord} {bs' : BlockStore}
    (h : bs.addFullBlock faults x block rec = .ok bs') :
    bs'.db.fullBlocks = bs.db.fullBlocks.insert x (block, rec) := by
  rw [StoreFaults.run_eq_ok h]

/-- `rollback_cache_block(hash)`: evicts a tentative insert from `block_cache`. -/
def rollbackCacheBlock (h : Bytes32) : BlockStore :=
  { bs with blockCache := Function.update bs.blockCache h none }

end BlockStore

/-- Modelled from the spec: `beacon/block_height_map.py` (absent), §4.C. The canonical
height → header hash index, with the sub-epoch summaries included at those heights. -/
structure BlockHeightMap where
  /-- the header hash at each canonical height -/
  hashes : ℕ → Option Bytes32
  /-- the sub-epoch summary included at each canonical height -/
  subEpochSummaries : ℕ → Option SubEpochSummary

namespace BlockHeightMap

variable (m : BlockHeightMap)

/-- The empty map. -/
def empty : BlockHeightMap := ⟨fun _ => none, fun _ => none⟩

/-- `contains_height(h)`. -/
def containsHeight (h : ℕ) : Bool := (m.hashes h).isSome

/-- `get_hash(h)`; callers check `contains_height` first. -/
def getHash (h : ℕ) : Bytes32 := (m.hashes h).getD 0

/-- `rollback(fork_height)`: drops every entry strictly above `fork_height`. -/
def rollback (forkHeight : ℕ) : BlockHeightMap :=
  ⟨fun h => if h ≤ forkHeight then m.hashes h else none,
    fun h => if h ≤ forkHeight then m.subEpochSummaries h else none⟩

/-- `update_height(h, hash, ses)`: sets the entry at `h`. -/
def updateHeight (h : ℕ) (hash : Bytes32) (ses : Option SubEpochSummary) : BlockHeightMap :=
  ⟨Function.update m.hashes h (some hash), Function.update m.subEpochSummaries h ses⟩

/-- The loop of `receive_block` over the records to add: `update_height` for each, in
order. -/
def replay (records : List BlockRecord) : BlockHeightMap :=
  records.foldl (fun m r => m.updateHeight r.height r.headerHash r.subEpochSummaryIncluded) m

@[simp] theorem replay_nil : m.replay [] = m := rfl

@[simp] theorem replay_append_singleton (records : List BlockRecord) (r : BlockRecord) :
    m.replay (records ++ [r]) =
      (m.replay records).updateHeight r.height r.headerHash r.subEpochSummaryIncluded := by
  simp [replay]

@[simp] theorem rollback_hashes (f h : ℕ) :
    (m.rollback f).hashes h = if h ≤ f then m.hashes h else none := rfl

@[simp] theorem updateHeight_hashes (h : ℕ) (x : Bytes32) (ses : Option SubEpochSummary)
    (k : ℕ) : (m.updateHeight h x ses).hashes k = if k = h then some x else m.hashes k := by
  simp [updateHeight, Function.update_apply]

/-- A hash the replay leaves in the map was there before or is one of the records'. -/
theorem replay_hashes_mem {records : List BlockRecord} {k : ℕ} {x : Bytes32}
    (h : (m.replay records).hashes k = some x) :
    m.hashes k = some x ∨ ∃ r ∈ records, r.headerHash = x := by
  induction records generalizing m with
  | nil => exact .inl h
  | cons r rs ih =>
    rcases ih (m := m.updateHeight r.height r.headerHash r.subEpochSummaryIncluded) h with
      h | ⟨r', hr', he⟩
    · rw [updateHeight_hashes] at h
      split at h
      · cases h; exact .inr ⟨r, List.mem_cons_self _ _, rfl⟩
      · exact .inl h
    · exact .inr ⟨r', List.mem_cons_of_mem _ hr', he⟩

end BlockHeightMap

end CorpochainBeacon
