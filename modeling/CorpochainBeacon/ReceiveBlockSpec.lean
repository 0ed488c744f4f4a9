import CorpochainBeacon.ReceiveBlock

/-!
# What one `receive_block` call can do

Inversion lemmas, stated once so that the invariants never unfold `receive_block`:

* `admits_iff_checks` — the duplicate, parent and height checks pass exactly for the blocks
  `Admits` describes;
* `receiveBlock_cases` — a call either stops before body validation, changing nothing, or
  builds the block's record and validates its body; then it stops with only the execution
  client changed, or ends as its `addToDatabase` (`receiveBlock_of_body_ok` is the converse);
* `reconsiderPeak_cases` — a `_reconsider_peak` that returns crowned the first genesis
  block, left an orphan aside, or walked back to the fork and crowned the block, and kept
  the rows (`reconsiderPeak_rows`, `storeWrites_rows`);
* `addToDatabase_cases` — the transaction aborts (store and cache untouched but for
  `block_cache`), fails at its commit (in-memory updates done, store untouched), or
  commits; after the commit `height_map.maybe_flush()` may still raise.
-/

namespace CorpochainBeacon

namespace Blockchain

variable {cc : Collaborators} {s s' : Blockchain} {block : FullBlock} {pvr : PreValidationResult}
  {hint : Option ℕ} {env : CallEnv} {r : Except Exc ReceiveBlockOutput}

/-- The checks of `receive_block` passed: the block is new, and it is a genesis block or its
parent is cached one height below it. -/
def Admits (s : Blockchain) (block : FullBlock) : Prop :=
  block.headerHash ∉ s.blockRecords ∧
    (block.height = 0 ∨ ∃ p, s.blockRecords.lookup block.prevHeaderHash = some p ∧
      p.height + 1 = block.height)

/-- A call returned without adding its block. -/
def NotAdded (r : Except Exc ReceiveBlockOutput) : Prop :=
  ∀ out, r = .ok out → out.1 ≠ .newPeak ∧ out.1 ≠ .addedAsOrphan

theorem notAdded_error (e : Exc) : NotAdded (.error e) := fun _ h => by cases h

@[simp] theorem containsBlock_eq_false {x : Bytes32} : s.containsBlock x = false ↔ x ∉ s.blockRecords := by
  simp [containsBlock]

/-- The duplicate, parent and height checks of `receive_block`, as its body computes them. -/
theorem admits_iff_checks : s.Admits block ↔
    s.containsBlock block.headerHash = false ∧
    (!s.containsBlock block.prevHeaderHash && !decide (block.height = 0)) = false ∧
    (if decide (block.height = 0) = true then Except.ok true
      else Except.map (fun prev => decide (prev.height + 1 = block.height))
        (s.blockRecord block.prevHeaderHash)) = (.ok true : Except Exc Bool) := by
  rw [Admits, containsBlock_eq_false]
  refine and_congr_right fun _ => ?_
  by_cases h0 : block.height = 0
  · simp [h0]
  · cases hp : s.blockRecords.lookup block.prevHeaderHash with
    | none => simp [h0, blockRecord, hp, Except.map]
    | some p =>
      have : block.prevHeaderHash ∈ s.blockRecords := AList.lookup_isSome.mp (by simp [hp])
      simp [h0, blockRecord, hp, Except.map, containsBlock, this]

/-- An admitted block's record is new to the record cache. -/
theorem Admits.view_eq_none (ha : s.Admits block) {blocks : Bytes32 → Option BlockRecord} {ri : ℕ}
    {ssi : Option ℕ} {rec : BlockRecord} (hrec : blockToBlockRecord cc blocks ri block ssi = .ok rec) :
    s.view rec.headerHash = none := by
  rw [(blockToBlockRecord_fields cc hrec).1]
  exact AList.lookup_eq_none.mpr ha.1

theorem receiveBlock_cases (h : s.receiveBlock cc block pvr hint env = (s', r)) :
    (s' = s ∧ NotAdded r ∧ ∀ ri rec, s.Admits block → pvr.error = none →
        pvr.requiredIters = some ri → blockToBlockRecord cc s.view ri block none ≠ .ok rec) ∨
    ∃ ri rec ec body, s.Admits block ∧ pvr.error = none ∧ pvr.requiredIters = some ri ∧
      blockToBlockRecord cc s.view ri block none = .ok rec ∧
      validateBlockBody s.executionClient env.engine (.full block) block.height (some rec) =
        (ec, body) ∧
      ((body ≠ .ok none ∧ s' = { s with executionClient := ec } ∧ NotAdded r) ∨
        (body = .ok none ∧ ({ s with executionClient := ec }).addToDatabase cc env.faults block rec
          (decide (block.height = 0)) hint = (s', r))) := by
  have early : ∀ r₀ : Except Exc ReceiveBlockOutput, (s', r) = (s, r₀) → NotAdded r₀ →
      (∀ ri rec, s.Admits block → pvr.error = none → pvr.requiredIters = some ri →
        blockToBlockRecord cc s.view ri block none ≠ .ok rec) →
      (s' = s ∧ NotAdded r ∧ ∀ ri rec, s.Admits block → pvr.error = none →
        pvr.requiredIters = some ri → blockToBlockRecord cc s.view ri block none ≠ .ok rec) := by
    rintro r₀ he hr hno
    cases he
    exact ⟨rfl, hr, hno⟩
  unfold receiveBlock at h
  simp only at h
  split at h
  · rename_i hc
    exact .inl (early _ h.symm (fun _ ho => by cases ho; exact ⟨nofun, nofun⟩)
      fun _ _ ha => Bool.noConfusion (hc.symm.trans (admits_iff_checks.mp ha).1))
  split at h
  · rename_i hp
    exact .inl (early _ h.symm (fun _ ho => by cases ho; exact ⟨nofun, nofun⟩)
      fun _ _ ha => Bool.noConfusion (hp.symm.trans (admits_iff_checks.mp ha).2.1))
  rename_i hnew hpar
  split at h
  · rename_i hchk
    exact .inl (early _ h.symm (notAdded_error _) fun _ _ ha => by
      have := (admits_iff_checks.mp ha).2.2; rw [hchk] at this; cases this)
  · rename_i hchk
    exact .inl (early _ h.symm (fun _ ho => by cases ho; exact ⟨nofun, nofun⟩) fun _ _ ha => by
      have := (admits_iff_checks.mp ha).2.2; rw [hchk] at this; cases this)
  rename_i hheight
  have hadm : s.Admits block := admits_iff_checks.mpr ⟨by simpa using hnew, by simpa using hpar, hheight⟩
  split at h
  · rename_i herr
    exact .inl (early _ h.symm (fun _ ho => by cases ho; exact ⟨nofun, nofun⟩)
      fun _ _ _ he => Option.noConfusion (herr.symm.trans he))
  · rename_i hri
    exact .inl (early _ h.symm (notAdded_error _) fun _ _ _ _ he => Option.noConfusion (hri.symm.trans he))
  rename_i ri herr hri
  split at h
  · rename_i hrec
    exact .inl (early _ h.symm (notAdded_error _) fun ri' rec _ _ hri' he => by
      obtain rfl : ri = ri' := Option.some.inj (hri.symm.trans hri')
      rw [hrec] at he; cases he)
  rename_i rec hrec
  generalize hv : validateBlockBody s.executionClient env.engine (.full block) block.height
    (some rec) = v at h
  obtain ⟨ec, body⟩ := v
  refine .inr ⟨ri, rec, ec, body, hadm, herr, hri, hrec, hv, ?_⟩
  split at h
  · rename_i hb
    exact .inl ⟨fun hb' => (by subst hb'; cases hb), (Prod.mk.inj h).1.symm, fun _ ho => by
      cases (Prod.mk.inj h).2.trans ho⟩
  · rename_i hb
    exact .inl ⟨fun hb' => (by subst hb'; cases hb), (Prod.mk.inj h).1.symm, fun _ ho => by
      cases (Prod.mk.inj h).2.trans ho; exact ⟨nofun, nofun⟩⟩
  · exact .inr ⟨‹_›, h⟩

/-- The converse of the last case: a call whose checks pass, whose record is built and whose
body validates ends as its `addToDatabase`. -/
theorem receiveBlock_of_body_ok {ri : ℕ} {rec : BlockRecord} {ec : ExecutionClient}
    {engine : EngineAnswers} (faults : StoreFaults)
    (ha : s.Admits block) (herr : pvr.error = none) (hri : pvr.requiredIters = some ri)
    (hrec : blockToBlockRecord cc s.view ri block none = .ok rec)
    (hv : validateBlockBody s.executionClient engine (.full block) block.height (some rec) =
      (ec, .ok none)) :
    s.receiveBlock cc block pvr hint ⟨engine, faults⟩ =
      ({ s with executionClient := ec }).addToDatabase cc faults block rec (decide (block.height = 0))
        hint := by
  obtain ⟨h₁, h₂, h₃⟩ := admits_iff_checks.mp ha
  unfold receiveBlock
  simp only [h₁, h₂, h₃, herr, hri, hrec, hv, Bool.false_eq_true, if_false]

variable {faults : StoreFaults} {rec : BlockRecord} {genesis : Bool}

/-- The state `addToDatabase` leaves when its transaction commits. -/
def committed (s : Blockchain) (rec : BlockRecord) (records : List BlockRecord)
    (summary : Option StateChangeSummary) (work : BlockStore) : Blockchain :=
  { s.applyRecords rec records summary with
    blockStore := work
    peakHeight := if summary.isSome then some rec.height else s.peakHeight }

theorem addToDatabase_cases (h : s.addToDatabase cc faults block rec genesis hint = (s', r)) :
    (∃ e, s.storeWrites cc faults block rec genesis hint = .error e ∧
      s' = { s with blockStore := s.blockStore.rollbackCacheBlock block.headerHash } ∧
      r = .error e) ∨
    ∃ work records summary,
      s.storeWrites cc faults block rec genesis hint = .ok (work, records, summary) ∧
      ((faults .commit = true ∧ r = .error .storeError ∧
          s' = s.atCommit rec records summary work) ∨
        (faults .commit = false ∧ s' = s.committed rec records summary work ∧
          r = faults.run .maybeFlush (match summary with
            | some sc => (.newPeak, none, some sc)
            | none => (.addedAsOrphan, none, none)))) := by
  unfold addToDatabase at h
  split at h
  · rename_i e he
    exact .inl ⟨e, he, (Prod.mk.inj h).1.symm, (Prod.mk.inj h).2.symm⟩
  rename_i work records summary hw
  refine .inr ⟨work, records, summary, hw, ?_⟩
  simp only [StoreFaults.run] at h ⊢
  by_cases hc : faults .commit
  · simp only [hc, if_true] at h
    exact .inl ⟨hc, (Prod.mk.inj h).2.symm, (Prod.mk.inj h).1.symm⟩
  · simp only [hc, Bool.false_eq_true, if_false] at h
    refine .inr ⟨by simpa using hc, ?_⟩
    -- the flush raises, or the call returns its outcome
    cases hfl : faults .maybeFlush <;> cases summary <;>
      simp only [hfl, Bool.false_eq_true, if_false, if_true] at h ⊢ <;> cases h <;> exact ⟨rfl, rfl⟩

/-- The writer transaction never talks to the execution engine. -/
theorem addToDatabase_executionClient
    (h : s.addToDatabase cc faults block rec genesis hint = (s', r)) :
    s'.executionClient = s.executionClient := by
  rcases addToDatabase_cases h with ⟨-, -, rfl, -⟩ | ⟨-, -, -, -, ⟨-, -, rfl⟩ | ⟨-, rfl, -⟩⟩ <;> rfl

/-- A `_reconsider_peak` that returns made the first genesis block the peak, left the rows
and the peak as they were for an orphan, or collected the new chain by the walk and made
the block the peak; it only marks the chain and the peak and drops sub-epoch summaries, so
the rows of the store it writes to stay as they were. -/
theorem reconsiderPeak_cases {work work' : BlockStore} {records : List BlockRecord}
    {summary : Option StateChangeSummary}
    (h : s.reconsiderPeak cc faults rec genesis hint work = .ok (work', records, summary)) :
    (genesis = true ∧ s.getPeak = .ok none ∧ records = [rec] ∧ summary = some ⟨rec, 0⟩ ∧
      work'.db.fullBlocks = work.db.fullBlocks) ∨
    (work' = work ∧ records = [] ∧ summary = none ∧
      ∃ peak, s.getPeak = .ok (some peak) ∧ (genesis = true ∨ rec.weight ≤ peak.weight)) ∨
    (genesis = false ∧ ∃ peak L, s.getPeak = .ok (some peak) ∧ peak.weight < rec.weight ∧
      s.backtrack faults work (s.forkHeight cc rec peak hint) (rec.height + 1) rec.headerHash [] = .ok L ∧
      records = L.reverse.map Prod.snd ∧
      summary = some ⟨rec, (max (s.forkHeight cc rec peak hint) 0).toNat⟩ ∧
      work'.db.fullBlocks = work.db.fullBlocks) := by
  unfold reconsiderPeak at h
  obtain ⟨peak, hpeak, h⟩ := bind_eq_ok h
  cases genesis <;> rcases peak with _ | peak
  · cases h
  · -- not a genesis block: an orphan, or a heavier block and the walk
    simp only [Bool.false_eq_true, if_false] at h
    split at h
    · cases h; exact .inr (.inl ⟨rfl, rfl, rfl, peak, hpeak, .inr ‹_›⟩)
    obtain ⟨L, hL, h⟩ := bind_eq_ok h
    obtain ⟨w₁, h₁, h⟩ := bind_eq_ok h
    obtain ⟨w₂, h₂, h⟩ := bind_eq_ok h
    obtain ⟨w₃, h₃, h⟩ := bind_eq_ok h
    cases h
    refine .inr (.inr ⟨rfl, peak, L, hpeak, by omega, hL, rfl, rfl, ?_⟩)
    rw [BlockStore.setPeak_rows _ _ h₃, BlockStore.setInChain_rows _ _ h₂, BlockStore.rollback_rows _ _ h₁]
  · -- the first genesis block
    simp only [if_true] at h
    obtain ⟨b, -, h⟩ := bind_eq_ok h
    split at h
    · cases h
    obtain ⟨-, -, h⟩ := bind_eq_ok h
    obtain ⟨w₁, h₁, h⟩ := bind_eq_ok h
    obtain ⟨w₂, h₂, h⟩ := bind_eq_ok h
    cases h
    exact .inl ⟨rfl, hpeak, rfl, rfl, by
      rw [BlockStore.setPeak_rows _ _ h₂, BlockStore.setInChain_rows _ _ h₁]⟩
  · -- a genesis block with a peak: an orphan
    cases h; exact .inr (.inl ⟨rfl, rfl, rfl, peak, hpeak, .inl rfl⟩)

theorem reconsiderPeak_rows {work work' : BlockStore} {records : List BlockRecord}
    {summary : Option StateChangeSummary}
    (h : s.reconsiderPeak cc faults rec genesis hint work = .ok (work', records, summary)) :
    work'.db.fullBlocks = work.db.fullBlocks := by
  rcases reconsiderPeak_cases h with ⟨-, -, -, -, h⟩ | ⟨rfl, -⟩ | ⟨-, -, -, -, -, -, -, -, h⟩
  exacts [h, rfl, h]

/-- A writer transaction that returns has written exactly the block's row. -/
theorem storeWrites_rows {work : BlockStore} {records : List BlockRecord}
    {summary : Option StateChangeSummary}
    (h : s.storeWrites cc faults block rec genesis hint = .ok (work, records, summary)) :
    work.db.fullBlocks = s.blockStore.db.fullBlocks.insert block.headerHash (block, rec) := by
  obtain ⟨w, hw, h⟩ := bind_eq_ok h
  rw [reconsiderPeak_rows h, BlockStore.addFullBlock_rows _ _ hw]

/-- With no store fault, the transaction's writes are `_reconsider_peak` on the store with
the block's row added. -/
theorem storeWrites_none : s.storeWrites cc .none block rec genesis hint =
    s.reconsiderPeak cc .none rec genesis hint
      ⟨{ s.blockStore.db with
          fullBlocks := s.blockStore.db.fullBlocks.insert block.headerHash (block, rec) },
        Function.update s.blockStore.blockCache block.headerHash (some block)⟩ := rfl

end Blockchain

end CorpochainBeacon
