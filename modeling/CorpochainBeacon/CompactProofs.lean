import Mathlib.Data.Finset.Card

/-!
# The set of seen compact proofs

`seen_compact_proofs(vdf_info, height)` tells whether the pair was asked before and records it
in `_seen_compact_proofs`, a set that `create` starts empty and that no other method touches.
To keep the set small it is cleared when it holds more than `10000` pairs and a new pair
comes. Over every sequence of calls:

* `seenRun_card_le`, `seenRun_subset` — the set never holds more than `10001` pairs, each of
  them present at the start or asked by a call;
* `seenRun_eq_union` — while the pairs at the start and those asked number at most `10001`,
  nothing is cleared: the set is exactly those pairs;
* **`seenCompactProofs_bounded_sound`** — a call answers `True` only for a pair asked
  before (no false positive), and the set stays within its bound;
* **`seenCompactProofs_exact_below_limit`** — below the bound the answer is exactly whether
  the pair was asked before: nothing is forgotten until the set is full.
-/

namespace CorpochainBeacon

variable {V : Type} [DecidableEq V]

/-- `seen_compact_proofs(vdf_info, height)` on the set `_seen_compact_proofs`: `True` if the
pair is in the set; otherwise `False`, and the pair is added to the set, cleared first if it
holds more than `10000` pairs. The answer comes first, the set after the call second. -/
def seenCompactProofs (seen : Finset (V × ℕ)) (vdfInfo : V) (height : ℕ) :
    Bool × Finset (V × ℕ) :=
  let potTuple := (vdfInfo, height)
  if potTuple ∈ seen then (true, seen)
  else (false, insert potTuple (if seen.card > 10000 then ∅ else seen))

/-- The answers of `seen_compact_proofs` to the calls `calls` in order, and the set after
them. -/
def seenRun : Finset (V × ℕ) → List (V × ℕ) → List Bool × Finset (V × ℕ)
  | seen, [] => ([], seen)
  | seen, (vdfInfo, height) :: calls =>
    let step := seenCompactProofs seen vdfInfo height
    let rest := seenRun step.2 calls
    (step.1 :: rest.1, rest.2)

variable {seen : Finset (V × ℕ)} {vdfInfo : V} {height : ℕ}

/-! ## One call -/

theorem seenCompactProofs_of_mem (h : (vdfInfo, height) ∈ seen) :
    seenCompactProofs seen vdfInfo height = (true, seen) := by
  simp only [seenCompactProofs, if_pos h]

theorem seenCompactProofs_of_not_mem (h : (vdfInfo, height) ∉ seen) :
    seenCompactProofs seen vdfInfo height =
      (false, insert (vdfInfo, height) (if seen.card > 10000 then ∅ else seen)) := by
  simp only [seenCompactProofs, if_neg h]

@[simp] theorem seenCompactProofs_fst :
    (seenCompactProofs seen vdfInfo height).1 = decide ((vdfInfo, height) ∈ seen) := by
  by_cases h : (vdfInfo, height) ∈ seen
  · simp [seenCompactProofs_of_mem h, h]
  · simp [seenCompactProofs_of_not_mem h, h]

@[simp] theorem seenRun_nil : seenRun seen [] = ([], seen) := rfl

@[simp] theorem seenRun_cons_snd (calls : List (V × ℕ)) :
    (seenRun seen ((vdfInfo, height) :: calls)).2 =
      (seenRun (seenCompactProofs seen vdfInfo height).2 calls).2 := rfl

/-- A call keeps the set within `10001` pairs. -/
theorem seenCompactProofs_card_le (h : seen.card ≤ 10001) :
    (seenCompactProofs seen vdfInfo height).2.card ≤ 10001 := by
  by_cases hm : (vdfInfo, height) ∈ seen
  · rwa [seenCompactProofs_of_mem hm]
  rw [seenCompactProofs_of_not_mem hm]
  split_ifs with hc
  · simp
  · exact (Finset.card_insert_le _ _).trans (by omega)

/-- A call adds at most its own pair. -/
theorem seenCompactProofs_subset :
    (seenCompactProofs seen vdfInfo height).2 ⊆ insert (vdfInfo, height) seen := by
  by_cases hm : (vdfInfo, height) ∈ seen
  · rw [seenCompactProofs_of_mem hm]; exact Finset.subset_insert _ _
  rw [seenCompactProofs_of_not_mem hm]
  split_ifs
  · simp
  · exact Finset.Subset.refl _

/-- A call that does not overfill the set adds its pair and clears nothing. -/
theorem seenCompactProofs_snd_of_card_le (h : (insert (vdfInfo, height) seen).card ≤ 10001) :
    (seenCompactProofs seen vdfInfo height).2 = insert (vdfInfo, height) seen := by
  by_cases hm : (vdfInfo, height) ∈ seen
  · rw [seenCompactProofs_of_mem hm, Finset.insert_eq_of_mem hm]
  rw [Finset.card_insert_of_not_mem hm] at h
  rw [seenCompactProofs_of_not_mem hm, if_neg (by omega)]

/-! ## Runs -/

theorem seenRun_card_le (calls : List (V × ℕ)) (h : seen.card ≤ 10001) :
    (seenRun seen calls).2.card ≤ 10001 := by
  induction calls generalizing seen with
  | nil => exact h
  | cons call calls ih => exact ih (seenCompactProofs_card_le h)

theorem seenRun_subset (calls : List (V × ℕ)) :
    (seenRun seen calls).2 ⊆ seen ∪ calls.toFinset := by
  induction calls generalizing seen with
  | nil => simp
  | cons call calls ih =>
    obtain ⟨vdfInfo, height⟩ := call
    calc (seenRun seen ((vdfInfo, height) :: calls)).2
        ⊆ (seenCompactProofs seen vdfInfo height).2 ∪ calls.toFinset := ih
      _ ⊆ insert (vdfInfo, height) seen ∪ calls.toFinset :=
        Finset.union_subset_union seenCompactProofs_subset le_rfl
      _ = seen ∪ ((vdfInfo, height) :: calls).toFinset := by
        rw [List.toFinset_cons, Finset.union_insert, Finset.insert_union]

/-- While the pairs at the start and those asked number at most `10001`, nothing is cleared. -/
theorem seenRun_eq_union (calls : List (V × ℕ)) (h : (seen ∪ calls.toFinset).card ≤ 10001) :
    (seenRun seen calls).2 = seen ∪ calls.toFinset := by
  induction calls generalizing seen with
  | nil => simp
  | cons call calls ih =>
    obtain ⟨vdfInfo, height⟩ := call
    have hu : insert (vdfInfo, height) seen ∪ calls.toFinset =
        seen ∪ ((vdfInfo, height) :: calls).toFinset := by
      rw [List.toFinset_cons, Finset.union_insert, Finset.insert_union]
    have hstep := seenCompactProofs_snd_of_card_le
      ((Finset.card_le_card (hu ▸ Finset.subset_union_left)).trans h)
    rw [seenRun_cons_snd, hstep, ih (hu ▸ h), hu]

/-- **The set stays bounded and answers no false positive.** From a set of at most `10001`
pairs (`create` starts it empty), after any calls `pre` the set holds at most `10001` pairs,
and the next call answers `True` only for a pair present at the start or asked by one of the
calls `pre`. -/
theorem seenCompactProofs_bounded_sound (hseen : seen.card ≤ 10001) (pre : List (V × ℕ)) :
    (seenRun seen pre).2.card ≤ 10001 ∧
      ((seenCompactProofs (seenRun seen pre).2 vdfInfo height).1 = true →
        (vdfInfo, height) ∈ seen ∨ (vdfInfo, height) ∈ pre) := by
  refine ⟨seenRun_card_le pre hseen, fun h => ?_⟩
  rw [seenCompactProofs_fst, decide_eq_true_eq] at h
  simpa using seenRun_subset pre h

/-- Asking `(7, 3)` twice from the empty set: the second answer is `True`, for a pair asked
before. -/
theorem seenCompactProofs_twice_bounded_sound :
    (seenRun (∅ : Finset (ℕ × ℕ)) [(7, 3)]).2.card ≤ 10001 ∧
      ((seenCompactProofs (seenRun ∅ [(7, 3)]).2 7 3).1 = true →
        ((7 : ℕ), 3) ∈ (∅ : Finset (ℕ × ℕ)) ∨ ((7 : ℕ), 3) ∈ [((7 : ℕ), 3)]) :=
  seenCompactProofs_bounded_sound (by decide) _

/-- **Below the bound nothing is forgotten.** While the pairs at the start and those asked by
the calls `pre` number at most `10001`, a call answers exactly whether its pair was present
at the start or asked by one of the calls `pre`. -/
theorem seenCompactProofs_exact_below_limit {pre : List (V × ℕ)}
    (hlim : (seen ∪ pre.toFinset).card ≤ 10001) :
    (seenCompactProofs (seenRun seen pre).2 vdfInfo height).1 =
      decide ((vdfInfo, height) ∈ seen ∨ (vdfInfo, height) ∈ pre) := by
  rw [seenCompactProofs_fst, seenRun_eq_union pre hlim]
  simp

/-- After asking `(7, 3)` and `(8, 3)` from the empty set, `(7, 3)` is still known. -/
theorem seenCompactProofs_remembers_first :
    (seenCompactProofs (seenRun (∅ : Finset (ℕ × ℕ)) [(7, 3), (8, 3)]).2 7 3).1 =
      decide (((7 : ℕ), 3) ∈ (∅ : Finset (ℕ × ℕ)) ∨ ((7 : ℕ), 3) ∈ [((7 : ℕ), 3), (8, 3)]) :=
  seenCompactProofs_exact_below_limit (by decide)

end CorpochainBeacon
