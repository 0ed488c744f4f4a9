import CorpochainBeacon.Pipeline

/-!
# Where tentative records can leak

`pre_validate_blocks_multiprocessing` caches a tentative record for every block it does not
find cached, so that the next block of the list sees it, and removes those records before
it hands the batches to the workers, or in the `INVALID_POSPACE` exit. Whatever the
collaborators answer:

* `dropTentative` — the record lookup with the tentative hashes removed;
  `removeIfTentative_view` and `removeTentative_view` say both cleanups give it back;
* `sequentialPass_view` — the per-block loop changes the lookup only at tentative hashes,
  and its `INVALID_POSPACE` exit cleans them up;
* **`preValidate_leaves_cache`** — a call that returns results leaves the record cache as it
  found it, unless the per-block pass itself returned the single `INVALID_SUB_EPOCH_SUMMARY`
  result of an early exit, the one exit without a cleanup; then only tentative hashes
  differ;
* `preValidate_sub_epoch_exit_keeps_tentative_record` — such an exit, after a first block
  whose tentative record stays cached with no row in the store;
* **`validateUnfinishedBlock_total`** — `validate_unfinished_block` never raises and leaves
  the whole state as it found it: its header check makes the parent lookup succeed.
-/

namespace CorpochainBeacon

/-- `x` is the hash of a block the call did not find cached: its record is tentative. -/
def IsTentative (all : List (FullBlock × Bool)) (x : Bytes32) : Prop :=
  ∃ e ∈ all, e.2 = false ∧ e.1.headerHash = x

instance (all : List (FullBlock × Bool)) : DecidablePred (IsTentative all) :=
  fun _ => inferInstanceAs (Decidable (∃ e ∈ all, _))

/-- The lookup `v` with the tentative hashes of `all` removed. -/
def dropTentative (all : List (FullBlock × Bool)) (v : Bytes32 → Option BlockRecord) :
    Bytes32 → Option BlockRecord :=
  fun x => if IsTentative all x then none else v x

variable {all : List (FullBlock × Bool)} {s s' : Blockchain}

theorem isTentative_cons {b : FullBlock} {w : Bool} {x : Bytes32} :
    IsTentative ((b, w) :: all) x ↔ (w = false ∧ b.headerHash = x) ∨ IsTentative all x := by
  simp [IsTentative]

/-- A write at a tentative hash disappears from `dropTentative`. -/
theorem dropTentative_update {v : Bytes32 → Option BlockRecord} {x : Bytes32}
    (hx : IsTentative all x) (o : Option BlockRecord) :
    dropTentative all (Function.update v x o) = dropTentative all v := by
  funext y
  by_cases hy : y = x
  · subst hy; simp only [dropTentative, if_pos hx]
  · simp only [dropTentative, Function.update_noteq hy]

/-- Without tentative hashes among the cached ones, `dropTentative` is the lookup itself. -/
theorem dropTentative_eq {v : Bytes32 → Option BlockRecord} (h : ∀ x, IsTentative all x → v x = none) :
    dropTentative all v = v := by
  funext x
  by_cases hx : IsTentative all x
  · simp only [dropTentative, if_pos hx, h x hx]
  · simp only [dropTentative, if_neg hx]

namespace Blockchain

/-- A `remove_block_record` that returns erased the record. -/
theorem removeBlockRecord_view {x : Bytes32} (h : s.removeBlockRecord x = (s', .ok ())) :
    s'.view = Function.update s.view x none := by
  unfold removeBlockRecord at h
  cases hl : s.blockRecords.lookup x with
  | none => rw [hl] at h; cases h
  | some sbr =>
    rw [hl] at h
    dsimp only at h
    refine view_of_erase ?_
    split at h
    · split at h
      · cases h; rfl
      · cases h
    · cases h

end Blockchain

/-- Removing the hash `b` of a tentative entry `(b, false)` before the cleanup of the rest
gives the cleanup of the whole list. -/
theorem dropTentative_cons_update {b : FullBlock} {v : Bytes32 → Option BlockRecord} :
    dropTentative all (Function.update v b.headerHash none) = dropTentative ((b, false) :: all) v := by
  funext x
  by_cases hx : b.headerHash = x
  · subst hx
    simp only [dropTentative, isTentative_cons, and_self, true_or, if_true, Function.update_same, ite_self]
  · simp only [dropTentative, isTentative_cons, Function.update_noteq (Ne.symm hx), hx, and_false,
      false_or]

/-- A hash the cleanup skips is absent or not tentative, so `dropTentative` of the whole
list is that of the rest. -/
theorem dropTentative_cons_skip {b : FullBlock} {w : Bool} {v : Bytes32 → Option BlockRecord}
    (hskip : w = false → v b.headerHash = none) :
    dropTentative all v = dropTentative ((b, w) :: all) v := by
  funext x
  by_cases hx : w = false ∧ b.headerHash = x
  · obtain ⟨hw, rfl⟩ := hx
    simp only [dropTentative, isTentative_cons, hw, and_self, true_or, if_true, hskip hw, ite_self]
  · simp only [dropTentative, isTentative_cons, hx, false_or]

/-- The cleanup of the `INVALID_POSPACE` exit removes exactly the tentative records. -/
theorem removeIfTentative_view (h : removeIfTentative s all = (s', .ok ())) :
    s'.view = dropTentative all s.view := by
  induction all generalizing s with
  | nil => cases h; exact (dropTentative_eq fun _ ⟨_, he, _⟩ => absurd he (List.not_mem_nil _)).symm
  | cons e rest ih =>
    obtain ⟨b, w⟩ := e
    unfold removeIfTentative at h
    by_cases hc : (!w && s.containsBlock b.headerHash) = true
    · rw [if_pos hc] at h
      obtain ⟨hw, -⟩ : w = false ∧ _ := by simpa using hc
      subst hw
      cases hr : s.removeBlockRecord b.headerHash with
      | mk s₁ r₁ =>
        rw [hr] at h
        rcases r₁ with e | ⟨⟩
        · cases h
        · rw [ih h, Blockchain.removeBlockRecord_view hr, dropTentative_cons_update]
    · rw [if_neg hc] at h
      rw [ih h]
      refine dropTentative_cons_skip fun hw => ?_
      subst hw
      exact AList.lookup_eq_none.mpr (by simpa [Blockchain.containsBlock] using hc)

/-- The cleanup after the per-block loop removes exactly the tentative records. -/
theorem removeTentative_view (h : removeTentative s all = (s', .ok ())) :
    s'.view = dropTentative all s.view := by
  induction all generalizing s with
  | nil => cases h; exact (dropTentative_eq fun _ ⟨_, he, _⟩ => absurd he (List.not_mem_nil _)).symm
  | cons e rest ih =>
    obtain ⟨b, w⟩ := e
    unfold removeTentative at h
    cases w with
    | false =>
      simp only [Bool.not_false, if_true] at h
      cases hr : s.removeBlockRecord b.headerHash with
      | mk s₁ r₁ =>
        rw [hr] at h
        rcases r₁ with e | ⟨⟩
        · cases h
        · rw [ih h, Blockchain.removeBlockRecord_view hr, dropTentative_cons_update]
    | true =>
      simp only [Bool.not_true, Bool.false_eq_true, if_false] at h
      rw [ih h]
      exact dropTentative_cons_skip Bool.noConfusion

/-! ## The pass -/

section Pass

variable {constants : ConsensusConstants} {cc : Collaborators} {wp : Option (List SubEpochSummary)}

/-- An iteration that returns early returned `INVALID_POSPACE` after its cleanup, or
`INVALID_SUB_EPOCH_SUMMARY` with the state as it was. -/
theorem passStep_inl {p : PassState} {block : FullBlock} {r : List PreValidationResult}
    (h : passStep constants cc wp all s p block = (s', .ok (.inl r))) :
    (r = [⟨some .invalidPospace, none⟩] ∧ removeIfTentative s all = (s', .ok ())) ∨
      (r = [⟨some .invalidSubEpochSummary, none⟩] ∧ s' = s) := by
  unfold passStep at h
  dsimp only at h
  split at h
  · cases h
  split at h
  · -- `INVALID_POSPACE`
    split at h
    · rename_i heq; cases h; exact .inl ⟨rfl, heq⟩
    · cases h
  split at h
  · cases h; exact .inr ⟨rfl, rfl⟩
  · cases h
  split at h
  · cases h
  · cases h; exact .inr ⟨rfl, rfl⟩
  split at h <;> cases h

/-- **The per-block loop touches tentative hashes only.** Started on `s₀`'s lookup outside
the tentative hashes, for blocks whose hashes are tentative when `s₀` lacks them, a loop
that runs to its end keeps the lookup outside the tentative hashes; one that exits early
has cleaned up after `INVALID_POSPACE`, or returned `INVALID_SUB_EPOCH_SUMMARY`, still
keeping the lookup outside the tentative hashes. -/
theorem sequentialPass_view {s₀ : Blockchain} {rest : List FullBlock} {p : PassState}
    {r : List PreValidationResult ⊕ PassState}
    (hall : ∀ b ∈ rest, s₀.view b.headerHash = none → IsTentative all b.headerHash)
    (hinv : dropTentative all s.view = dropTentative all s₀.view)
    (h : sequentialPass constants cc wp all rest s p = (s', .ok r)) :
    (∀ p', r = .inr p' → dropTentative all s'.view = dropTentative all s₀.view) ∧
      (∀ res, r = .inl res → s'.view = dropTentative all s₀.view ∨
        (res = [⟨some .invalidSubEpochSummary, none⟩] ∧
          dropTentative all s'.view = dropTentative all s₀.view)) := by
  induction rest generalizing s p with
  | nil =>
    cases h
    exact ⟨fun _ _ => hinv, fun _ h => by cases h⟩
  | cons b rest ih =>
    obtain ⟨hb, hrest⟩ := List.forall_mem_cons.mp hall
    unfold sequentialPass at h
    split at h
    · -- the iteration went on: it cached at most the block's tentative record
      rename_i s₁ p₁ hstep
      obtain ⟨d, rec, hit, -, -, hadd⟩ := passStep_inr hstep
      refine ih hrest ?_ h
      rcases hadd with ⟨hc, rfl⟩ | ⟨-, rfl⟩
      · have hh := hit.fields
        have hnone : s.view rec.headerHash = none :=
          AList.lookup_eq_none.mpr (Blockchain.containsBlock_eq_false.mp hc)
        have ht : IsTentative all rec.headerHash := by
          by_contra hn
          have h₀ := congrFun hinv rec.headerHash
          simp only [dropTentative, if_neg hn, hnone] at h₀
          exact hn (hh ▸ hb (hh ▸ h₀.symm))
        rw [Blockchain.view_addBlockRecord, dropTentative_update ht, hinv]
      · exact hinv
    · -- the iteration returned
      rename_i hne
      refine ⟨fun p' hr => ?_, fun res hr => ?_⟩
      · subst hr; exact absurd h (hne _ _)
      · subst hr
        rcases passStep_inl h with ⟨-, hclean⟩ | ⟨hres, rfl⟩
        · exact .inl ((removeIfTentative_view hclean).trans hinv)
        · exact .inr ⟨hres, hinv⟩

/-- **Tentative records leak only through the sub-epoch exits.** Whatever the collaborators
answer, a call of `pre_validate_blocks_multiprocessing` that returns results leaves the
record cache as it found it, unless the per-block pass itself returned, at one of its early
exits, the single `INVALID_SUB_EPOCH_SUMMARY` result; the cache then differs from the one
the call found only at hashes of listed blocks it did not find cached. The normal path,
whatever the workers answer, and the `INVALID_POSPACE` exit remove every record they
added. -/
theorem preValidate_leaves_cache {blocks : List FullBlock} {batchSize : ℕ}
    {results : List PreValidationResult}
    (h : preValidateBlocksMultiprocessing constants cc s blocks batchSize wp = (s', .ok results)) :
    s'.view = s.view ∨
      (results = [⟨some .invalidSubEpochSummary, none⟩] ∧
        (∃ recent compressed, sequentialPass constants cc wp
          (blocks.map fun b => (b, s.containsBlock b.headerHash)) blocks s
            ⟨none, recent, compressed, []⟩ = (s', .ok (.inl results))) ∧
        dropTentative (blocks.map fun b => (b, s.containsBlock b.headerHash)) s'.view = s.view) := by
  unfold preValidateBlocksMultiprocessing at h
  split at h
  · cases h
  dsimp only at h
  split at h
  · cases h
  · cases h; exact .inl rfl
  rename_i first rest _ recent compressed _
  -- the blocks the call did not find cached are the tentative ones
  have hall : ∀ b ∈ first :: rest, s.view b.headerHash = none →
      IsTentative ((first :: rest).map fun b => (b, s.containsBlock b.headerHash)) b.headerHash :=
    fun b hb hn => ⟨_, List.mem_map_of_mem _ hb,
      Blockchain.containsBlock_eq_false.mpr (AList.lookup_eq_none.mp hn), rfl⟩
  have hdrop : dropTentative ((first :: rest).map fun b => (b, s.containsBlock b.headerHash)) s.view =
      s.view := dropTentative_eq fun x ⟨e, he, hw, hx⟩ => by
    obtain ⟨b, -, rfl⟩ := List.mem_map.mp he
    subst hx
    exact AList.lookup_eq_none.mpr (Blockchain.containsBlock_eq_false.mp hw)
  split at h
  · cases h
  · rename_i s₁ res hpass
    cases h
    exact ((sequentialPass_view hall rfl hpass).2 _ rfl).imp (·.trans hdrop)
      fun ⟨hres, hv⟩ => ⟨hres, ⟨recent, compressed, hpass⟩, hv.trans hdrop⟩
  rename_i s₁ p hpass
  have hv₁ := (sequentialPass_view hall rfl hpass).1 p rfl
  split at h
  · cases h
  rename_i s₂ hrem
  have hv₂ : s₂.view = s.view := (removeTentative_view hrem).trans (hv₁.trans hdrop)
  split at h
  · cases h
  split at h <;> cases h
  exact .inl hv₂

/-- Pre-validating the siblings `2` and `3` of `genesisOnly` returns the workers' results
and leaves the record cache as it was. -/
theorem siblings_leave_cache :
    siblingsPreValidated.1.view = genesisOnly.view ∨
      ([⟨none, some 1⟩, ⟨none, some 2⟩] = [(⟨some .invalidSubEpochSummary, none⟩ : PreValidationResult)] ∧
        (∃ recent compressed, sequentialPass sampleConstants difficultyCollaborators none
          (siblings.map fun b => (b, genesisOnly.containsBlock b.headerHash)) siblings genesisOnly
            ⟨none, recent, compressed, []⟩ = (siblingsPreValidated.1, .ok (.inl [⟨none, some 1⟩, ⟨none, some 2⟩]))) ∧
        dropTentative (siblings.map fun b => (b, genesisOnly.containsBlock b.headerHash))
          siblingsPreValidated.1.view = genesisOnly.view) :=
  preValidate_leaves_cache
    (show siblingsPreValidated = (siblingsPreValidated.1, .ok [⟨none, some 1⟩, ⟨none, some 2⟩]) from
      Prod.ext rfl (by decide))

/-- Pre-validating `[2, 3]` on top of the genesis block `1`, where building the record of
`3` raises `ValueError`: the call returns `INVALID_SUB_EPOCH_SUMMARY` and leaves the
tentative record of `2` in the cache, with no row in the store; `receive_block` then
refuses `2` as `ALREADY_HAVE_BLOCK`. -/
theorem preValidate_sub_epoch_exit_keeps_tentative_record :
    genesisOnly.containsBlock 2 = false ∧ tentativeLeak.2 = .ok [⟨some .invalidSubEpochSummary, none⟩] ∧
      tentativeLeak.1.containsBlock 2 = true ∧ tentativeLeak.1.blockStore.db.record 2 = none ∧
      (tentativeLeak.1.receiveBlock sampleCollaborators (sampleBlock 2 1 1 2 none) acceptedResult none
        ⟨validEngine, StoreFaults.none⟩).2 = .ok (.alreadyHaveBlock, none, none) := by
  decide

end Pass

/-! ## Unfinished blocks -/

/-- Body validation of an unfinished block returns a verdict and leaves the execution client
as it was. -/
theorem validateBlockBody_unfinished_ok (ec : ExecutionClient) (answers : EngineAnswers)
    (b : UnfinishedBlock) (height : ℕ) (r : Option BlockRecord) :
    ∃ e, validateBlockBody ec answers (.unfinished b) height r = (ec, .ok e) := by
  simp only [validateBlockBody]
  cases b.executionPayload with
  | none => exact ⟨_, rfl⟩
  | some payload =>
    dsimp only
    cases answers.newPayload payload <;> exact ⟨_, rfl⟩

/-- **`validate_unfinished_block` never raises and leaves the chain as it found it**, whatever
the collaborators and the engine answer: its first check admits only a block whose parent is
cached or is the genesis challenge, so the parent's record is there when the body's height is
computed, and the body check of an unfinished block never calls fork choice. A result without
error carries the header check's required iterations, and the header check reported no
error. -/
theorem validateUnfinishedBlock_total (constants : ConsensusConstants) (cc : Collaborators)
    (s : Blockchain) (answers : EngineAnswers) (block : UnfinishedBlock) (skip : Bool) :
    ∃ res, validateUnfinishedBlock constants cc s answers block skip = (s, .ok res) ∧
      (res.error = none →
        validateUnfinishedBlockHeader constants cc s block skip = (res.requiredIters, none)) := by
  unfold validateUnfinishedBlock
  obtain ⟨⟨ri, err⟩, hh⟩ : ∃ p, validateUnfinishedBlockHeader constants cc s block skip = p :=
    ⟨_, rfl⟩
  rw [hh]
  cases err with
  | some e => exact ⟨⟨some e, none⟩, rfl, fun h => by cases h⟩
  | none =>
    -- the header check passed, so the parent is the genesis challenge or cached
    obtain ⟨ph, hph⟩ : ∃ ph : ℤ, (if block.prevHeaderHash = constants.genesisChallenge then .ok (-1)
        else (s.blockRecord block.prevHeaderHash).map fun r => (r.height : ℤ)) = Except.ok ph := by
      by_cases hg : block.prevHeaderHash = constants.genesisChallenge
      · exact ⟨-1, if_pos hg⟩
      have hc : block.prevHeaderHash ∈ s.blockRecords := by
        by_contra hc
        rw [validateUnfinishedBlockHeader, if_pos (by simp [Blockchain.containsBlock, hc, hg])] at hh
        cases hh
      obtain ⟨r, hr⟩ := Option.isSome_iff_exists.mp (AList.lookup_isSome.mpr hc)
      exact ⟨r.height, by rw [if_neg hg, Blockchain.blockRecord_of_view hr]; rfl⟩
    simp only [hph]
    obtain ⟨e, he⟩ := validateBlockBody_unfinished_ok s.executionClient answers block (ph + 1).toNat none
    rw [he]
    cases e with
    | some e => exact ⟨⟨some e, none⟩, rfl, fun h => by cases h⟩
    | none => exact ⟨⟨none, ri⟩, rfl, fun _ => rfl⟩

end CorpochainBeacon
