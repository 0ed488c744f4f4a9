import CorpochainBeacon.Atomicity

/-!
# The recent-block window of `pre_validate_blocks_multiprocessing`

From the first block's parent `p`, the `while` loop walks down `block_records`. It puts each
record into `recent_blocks`, and into `recent_blocks_compressed` while fewer than
`NUMBER_OF_TIMESTAMPS` transaction blocks or fewer than `k` finished challenge sub-slots
have been counted above it; it stops at the first record that includes a sub-epoch summary
with both counts reached above it, or at genesis, and puts that record into both.

* `WindowChain v as` — `as` is a record and its ancestors through `v` down to genesis, each
  stored under its own hash and followed by its parent, one height below;
* `windowLoop_stop`, `windowLoop_step` — what one iteration does;
* `windowLoop_chain` — the loop on such a chain, from any dictionaries and counts, stops at
  the first record where `WindowStops` holds, having put the records above it into
  `recent_blocks` and their `compressedPrefix` into `recent_blocks_compressed`;
* `recentWindow_of_chain` — so, when each record of the chain that is first in its
  sub-slot has its finished challenge slot hashes, the loop returns; `recent_blocks` is the
  ancestors-or-self of `p` down to the stopping record, `recent_blocks_compressed` a subset
  of them that, unless the walk reached genesis, holds a path down from `p` with both
  counts reached;
* `blockToBlockRecord_hashes_of_first` — every record `block_to_block_record` builds
  passes the loop's assertion (`BuiltRecords` shows that every cached record is one).
-/

namespace CorpochainBeacon

/-- What the loop adds to `num_blocks_seen` for `r`. -/
def blocksSeenOf (r : BlockRecord) : ℕ := if r.isTransactionBlock then 1 else 0

/-- What the loop adds to `num_sub_slots_found` for `r`: its finished challenge sub-slots,
when it is first in its sub-slot. -/
def subSlotsFoundOf (r : BlockRecord) : ℕ :=
  if r.firstInSubSlot then (r.finishedChallengeSlotHashes.getD []).length else 0

/-- The transaction blocks of `l`. -/
def blocksSeenIn : List BlockRecord → ℕ
  | [] => 0
  | r :: l => blocksSeenOf r + blocksSeenIn l

/-- The finished challenge sub-slots of the records of `l` that are first in their
sub-slots. -/
def subSlotsFoundIn : List BlockRecord → ℕ
  | [] => 0
  | r :: l => subSlotsFoundOf r + subSlotsFoundIn l

@[simp] theorem blocksSeenIn_nil : blocksSeenIn [] = 0 := rfl

@[simp] theorem blocksSeenIn_cons (r : BlockRecord) (l : List BlockRecord) :
    blocksSeenIn (r :: l) = blocksSeenOf r + blocksSeenIn l := rfl

@[simp] theorem subSlotsFoundIn_nil : subSlotsFoundIn [] = 0 := rfl

@[simp] theorem subSlotsFoundIn_cons (r : BlockRecord) (l : List BlockRecord) :
    subSlotsFoundIn (r :: l) = subSlotsFoundOf r + subSlotsFoundIn l := rfl

/-- The loop stops at `c`, having counted `seen` transaction blocks and `found` sub-slots
above it: `c` is genesis, or includes a sub-epoch summary with both counts reached. -/
def WindowStops (numberOfTimestamps k : ℕ) (c : BlockRecord) (seen found : ℕ) : Prop :=
  c.height = 0 ∨ (c.subEpochSummaryIncluded.isSome ∧ numberOfTimestamps ≤ seen ∧ k ≤ found)

instance (numberOfTimestamps k : ℕ) (c : BlockRecord) (seen found : ℕ) :
    Decidable (WindowStops numberOfTimestamps k c seen found) :=
  inferInstanceAs (Decidable (_ ∨ _))

/-- The records of `l` that the loop puts into `recent_blocks_compressed`, having counted
`seen` and `found` before `l`: those it reaches while either count is short. -/
def compressedPrefix (numberOfTimestamps k : ℕ) : ℕ → ℕ → List BlockRecord → List BlockRecord
  | _, _, [] => []
  | seen, found, r :: l =>
    if seen < numberOfTimestamps ∨ found < k then
      r :: compressedPrefix numberOfTimestamps k (seen + blocksSeenOf r) (found + subSlotsFoundOf r) l
    else []

@[simp] theorem compressedPrefix_nil (numberOfTimestamps k seen found : ℕ) :
    compressedPrefix numberOfTimestamps k seen found [] = [] := rfl

/-- Once both counts are reached, nothing more is compressed. -/
theorem compressedPrefix_of_le {numberOfTimestamps k seen found : ℕ} (hseen : numberOfTimestamps ≤ seen)
    (hfound : k ≤ found) (l : List BlockRecord) :
    compressedPrefix numberOfTimestamps k seen found l = [] := by
  cases l with
  | nil => rfl
  | cons r l => exact if_neg (by omega)

/-- The compressed records are the first `d` of `l`, for a `d` at which both counts are
reached if they are reached over the whole of `l`. -/
theorem compressedPrefix_eq_take (numberOfTimestamps k : ℕ) (l : List BlockRecord) :
    ∀ seen found, ∃ d ≤ l.length, compressedPrefix numberOfTimestamps k seen found l = l.take d ∧
      (numberOfTimestamps ≤ seen + blocksSeenIn l → k ≤ found + subSlotsFoundIn l →
        numberOfTimestamps ≤ seen + blocksSeenIn (l.take d) ∧
          k ≤ found + subSlotsFoundIn (l.take d)) := by
  induction l with
  | nil => exact fun seen found => ⟨0, le_rfl, rfl, fun h1 h2 => ⟨by simpa using h1, by simpa using h2⟩⟩
  | cons r l ih =>
    intro seen found
    by_cases h : seen < numberOfTimestamps ∨ found < k
    · obtain ⟨d, hd, heq, hcount⟩ := ih (seen + blocksSeenOf r) (found + subSlotsFoundOf r)
      refine ⟨d + 1, by simpa using hd, by rw [compressedPrefix, if_pos h, heq]; rfl,
        fun h1 h2 => ?_⟩
      simp only [blocksSeenIn_cons, subSlotsFoundIn_cons, List.take_succ_cons, ← Nat.add_assoc]
        at h1 h2 ⊢
      exact hcount h1 h2
    · exact ⟨0, Nat.zero_le _, if_neg h, fun _ _ => by simp only [List.take_zero,
        blocksSeenIn_nil, subSlotsFoundIn_nil, Nat.add_zero]; omega⟩

/-- `as` is a record and its ancestors through `v`, down to a genesis record: each is
stored under its own hash, and each above genesis is followed by its parent, one height
below. -/
inductive WindowChain (v : Bytes32 → Option BlockRecord) : List BlockRecord → Prop
  | genesis {r : BlockRecord} : v r.headerHash = some r → r.height = 0 → WindowChain v [r]
  | cons {r q : BlockRecord} {rest : List BlockRecord} : v r.headerHash = some r →
      v r.prevHash = some q → q.height + 1 = r.height → WindowChain v (q :: rest) →
      WindowChain v (r :: q :: rest)

/-- A dictionary filled from records with distinct hashes maps each of their hashes to its
record, and leaves every other key as it was. -/
theorem RecordDict.foldl_put_eq_some {l : List BlockRecord} (hnd : (l.map (·.headerHash)).Nodup)
    (d : RecordDict) (x : Bytes32) (r : BlockRecord) :
    l.foldl RecordDict.put d x = some r ↔
      (r ∈ l ∧ r.headerHash = x) ∨ (x ∉ l.map (·.headerHash) ∧ d x = some r) := by
  induction l generalizing d with
  | nil => simp
  | cons a l ih =>
    rw [List.map_cons, List.nodup_cons] at hnd
    rw [List.foldl_cons, ih hnd.2]
    by_cases hx : x = a.headerHash
    · subst hx
      have hl : ∀ b ∈ l, b.headerHash ≠ a.headerHash := fun b hb he =>
        hnd.1 (List.mem_map.mpr ⟨b, hb, he⟩)
      simp only [RecordDict.put, Function.update_same, hnd.1, List.map_cons, List.mem_cons,
        true_or, not_true_eq_false, false_and, or_false, not_false_eq_true, true_and,
        Option.some.injEq]
      constructor
      · rintro (⟨hb, he⟩ | rfl)
        · exact absurd he (hl r hb)
        · exact ⟨.inl rfl, rfl⟩
      · rintro ⟨rfl | hb, he⟩
        · exact .inr rfl
        · exact absurd he (hl r hb)
    · simp only [RecordDict.put, Function.update_noteq hx, List.map_cons, List.mem_cons, hx,
        false_or]
      constructor
      · rintro (⟨hb, he⟩ | h)
        · exact .inl ⟨.inr hb, he⟩
        · exact .inr h
      · rintro (⟨rfl | hb, he⟩ | h)
        · exact absurd he.symm hx
        · exact .inl ⟨hb, he⟩
        · exact .inr h

/-- A dictionary filled from empty holds exactly the records put into it. -/
theorem RecordDict.foldl_put_empty_eq_some {l : List BlockRecord}
    (hnd : (l.map (·.headerHash)).Nodup) (x : Bytes32) (r : BlockRecord) :
    l.foldl RecordDict.put (fun _ => none) x = some r ↔ r ∈ l ∧ r.headerHash = x := by
  simp [RecordDict.foldl_put_eq_some hnd]

namespace WindowChain

variable {v : Bytes32 → Option BlockRecord} {as : List BlockRecord}

/-- Every record of a chain is stored under its own hash. -/
theorem keyed (hc : WindowChain v as) : ∀ a ∈ as, v a.headerHash = some a := by
  induction hc with
  | genesis hr _ => simpa using hr
  | cons hr _ _ _ ih => exact List.forall_mem_cons.mpr ⟨hr, ih⟩

/-- Heights fall strictly along a chain. -/
theorem heights (hc : WindowChain v as) : as.Pairwise fun a b => b.height < a.height := by
  induction hc with
  | genesis => exact List.pairwise_singleton _ _
  | @cons r q rest _ _ hqh hc' ih =>
    refine List.pairwise_cons.mpr ⟨fun b hb => ?_, ih⟩
    rcases List.mem_cons.mp hb with rfl | hb
    · omega
    · have := List.rel_of_pairwise_cons ih hb
      omega

/-- The records of a chain have distinct hashes. -/
theorem nodup (hc : WindowChain v as) : (as.map (·.headerHash)).Nodup :=
  List.pairwise_map.mpr <| hc.heights.imp_of_mem fun ha hb hlt he => by
    have h := (hc.keyed _ ha).symm.trans (he ▸ hc.keyed _ hb)
    cases h
    omega

end WindowChain

section Window

variable (constants : ConsensusConstants) {s : Blockchain} {k fuel : ℕ} {w : WindowState}

/-- **The loop stops** where `WindowStops` holds. -/
theorem windowLoop_stop
    (h : WindowStops constants.numberOfTimestamps k w.curr w.numBlocksSeen w.numSubSlotsFound) :
    windowLoop constants s k fuel w = .ok w := by
  unfold windowLoop
  rw [if_neg]
  unfold WindowStops at h
  rintro ⟨hc, hpos⟩
  rcases h with h | ⟨hses, hseen, hfound⟩
  · omega
  · rcases hc with h | h | h
    · rw [Option.isNone_iff_eq_none.mp h] at hses
      cases hses
    · omega
    · omega

/-- **One iteration** where the loop goes on, at a record with its hashes if it is first in
its sub-slot: the record joins `recent_blocks`, and `recent_blocks_compressed` while a count
is short; the counts grow and the walk moves to the parent. -/
theorem windowLoop_step {q : BlockRecord}
    (h : ¬ WindowStops constants.numberOfTimestamps k w.curr w.numBlocksSeen w.numSubSlotsFound)
    (hfiss : w.curr.firstInSubSlot → w.curr.finishedChallengeSlotHashes.isSome)
    (hq : s.view w.curr.prevHash = some q) :
    windowLoop constants s k (fuel + 1) w =
      windowLoop constants s k fuel ⟨q, w.recentBlocks.put w.curr,
        if w.numBlocksSeen < constants.numberOfTimestamps ∨ w.numSubSlotsFound < k then
          w.recentBlocksCompressed.put w.curr
        else w.recentBlocksCompressed,
        w.numSubSlotsFound + subSlotsFoundOf w.curr, w.numBlocksSeen + blocksSeenOf w.curr⟩ := by
  have hgo : (w.curr.subEpochSummaryIncluded.isNone ∨ w.numBlocksSeen < constants.numberOfTimestamps ∨
      w.numSubSlotsFound < k) ∧ 0 < w.curr.height := by
    unfold WindowStops at h
    push_neg at h
    refine ⟨?_, Nat.pos_of_ne_zero h.1⟩
    by_cases hses : w.curr.subEpochSummaryIncluded.isSome
    · have := h.2 hses
      omega
    · exact .inl (by simpa using hses)
  rw [windowLoop, if_pos hgo]
  dsimp only
  unfold subSlotsFoundOf blocksSeenOf
  cases hf : w.curr.firstInSubSlot
  · simp only [Bool.false_eq_true, ite_false, Nat.add_zero, pure_bind,
      Blockchain.blockRecord_of_view hq, bind_ok]
    cases w.curr.isTransactionBlock <;> rfl
  · obtain ⟨hs, hhs⟩ := Option.isSome_iff_exists.mp (hfiss hf)
    simp only [ite_true, hhs, pure_bind, Blockchain.blockRecord_of_view hq, bind_ok, Option.getD_some]
    cases w.curr.isTransactionBlock <;> rfl

/-- **The loop on a chain.** Started at the head `r` of a chain whose records first in their
sub-slots have their hashes, from any dictionaries and counts, with fuel for `r`'s height, the
loop stops at the first record `c = as[i]` where `WindowStops` holds of the counts above it,
having put the `i` records above `c` into `recent_blocks` and their `compressedPrefix` into
`recent_blocks_compressed`. -/
theorem windowLoop_chain {as : List BlockRecord} (hc : WindowChain s.view as)
    (hfiss : ∀ a ∈ as, a.firstInSubSlot → a.finishedChallengeSlotHashes.isSome)
    {r : BlockRecord} (hr : as.head? = some r) (hf : r.height ≤ fuel)
    (recent compressed : RecordDict) (found seen : ℕ) :
    ∃ i c, as[i]? = some c ∧
      WindowStops constants.numberOfTimestamps k c (seen + blocksSeenIn (as.take i))
        (found + subSlotsFoundIn (as.take i)) ∧
      (∀ j a, j < i → as[j]? = some a → ¬ WindowStops constants.numberOfTimestamps k a
        (seen + blocksSeenIn (as.take j)) (found + subSlotsFoundIn (as.take j))) ∧
      windowLoop constants s k fuel ⟨r, recent, compressed, found, seen⟩ =
        .ok ⟨c, (as.take i).foldl RecordDict.put recent,
          (compressedPrefix constants.numberOfTimestamps k seen found (as.take i)).foldl
            RecordDict.put compressed,
          found + subSlotsFoundIn (as.take i), seen + blocksSeenIn (as.take i)⟩ := by
  induction hc generalizing r fuel recent compressed found seen with
  | genesis _ h0 =>
    obtain rfl := Option.some.inj hr
    exact ⟨0, _, rfl, .inl h0, fun j _ hj => absurd hj (Nat.not_lt_zero j),
      by simpa using windowLoop_stop constants (w := ⟨_, recent, compressed, found, seen⟩) (.inl h0)⟩
  | @cons a q rest _ hq hqh _ ih =>
    obtain rfl := Option.some.inj hr
    by_cases hs : WindowStops constants.numberOfTimestamps k a seen found
    · exact ⟨0, a, rfl, by simpa using hs, fun j _ hj => absurd hj (Nat.not_lt_zero j),
        by simpa using windowLoop_stop constants (w := ⟨a, recent, compressed, found, seen⟩) hs⟩
    obtain ⟨f, rfl⟩ : ∃ f, fuel = f + 1 := ⟨fuel - 1, by omega⟩
    obtain ⟨i, c, hi, hstop, hfirst, hrun⟩ := ih (fun b hb => hfiss b (.tail _ hb)) (r := q) rfl
      (show q.height ≤ f by omega) (recent.put a)
      (if seen < constants.numberOfTimestamps ∨ found < k then compressed.put a else compressed)
      (found + subSlotsFoundOf a) (seen + blocksSeenOf a)
    refine ⟨i + 1, c, by simpa using hi, by simpa [Nat.add_assoc] using hstop, ?_, ?_⟩
    · rintro (_ | j) b hj hb
      · obtain rfl : a = b := by simpa using hb
        simpa using hs
      · simpa [Nat.add_assoc] using hfirst j b (by omega) (by simpa using hb)
    · rw [windowLoop_step constants (w := ⟨a, recent, compressed, found, seen⟩) hs (hfiss a (.head _)) hq,
        hrun]
      simp only [List.take_succ_cons, List.foldl_cons, compressedPrefix, blocksSeenIn_cons,
        subSlotsFoundIn_cons, Nat.add_assoc]
      split_ifs with hshort
      · rfl
      · rw [compressedPrefix_of_le (by omega) (by omega)]

/-- **The recent window** of a parent `p` whose ancestors form a chain down to genesis, each
record first in its sub-slot having its finished challenge slot hashes: the loop returns. It
stops at `c = (p :: rest)[i]`, the first record where `WindowStops` holds of the counts over
the records above it; `recent_blocks` is exactly `p` and its ancestors down to `c`;
`recent_blocks_compressed` is a subset of it; and unless `c` is genesis, the compressed
records include a path of the first `d` of them, down from `p`, over which both counts are
reached. -/
theorem recentWindow_of_chain {p : BlockRecord} {rest : List BlockRecord}
    (hc : WindowChain s.view (p :: rest))
    (hfiss : ∀ a ∈ p :: rest, a.firstInSubSlot → a.finishedChallengeSlotHashes.isSome) :
    ∃ i c recent compressed, recentWindow constants s p = .ok (recent, compressed) ∧
      (p :: rest)[i]? = some c ∧
      WindowStops constants.numberOfTimestamps (if p.overflow then 3 else 2) c
        (blocksSeenIn ((p :: rest).take i)) (subSlotsFoundIn ((p :: rest).take i)) ∧
      (∀ j a, j < i → (p :: rest)[j]? = some a →
        ¬ WindowStops constants.numberOfTimestamps (if p.overflow then 3 else 2) a
          (blocksSeenIn ((p :: rest).take j)) (subSlotsFoundIn ((p :: rest).take j))) ∧
      (∀ x r, recent x = some r ↔ r ∈ (p :: rest).take (i + 1) ∧ r.headerHash = x) ∧
      (∀ x r, compressed x = some r → recent x = some r) ∧
      (0 < c.height → ∃ d ≤ i,
        constants.numberOfTimestamps ≤ blocksSeenIn ((p :: rest).take d) ∧
        (if p.overflow then 3 else 2) ≤ subSlotsFoundIn ((p :: rest).take d) ∧
        ∀ r ∈ (p :: rest).take d, compressed r.headerHash = some r) := by
  obtain ⟨i, c, hi, hstop, hfirst, hrun⟩ := windowLoop_chain constants
    (k := if p.overflow then 3 else 2) hc hfiss rfl (le_refl p.height) (fun _ => none)
    (fun _ => none) 0 0
  obtain ⟨d, hd, hcomp, hcount⟩ := compressedPrefix_eq_take constants.numberOfTimestamps
    (if p.overflow then 3 else 2) ((p :: rest).take i) 0 0
  have htake : (p :: rest).take (i + 1) = (p :: rest).take i ++ [c] := by
    rw [List.take_succ, hi]
    rfl
  have hdi : d ≤ i := hd.trans (List.length_take_le _ _)
  have hnd : (((p :: rest).take (i + 1)).map (·.headerHash)).Nodup :=
    hc.nodup.sublist ((List.take_sublist _ _).map _)
  have hsub : List.Sublist (((p :: rest).take i).take d ++ [c]) ((p :: rest).take (i + 1)) :=
    htake ▸ (List.take_sublist _ _).append_right [c]
  have hcnd := hnd.sublist (hsub.map (·.headerHash))
  refine ⟨i, c, ((p :: rest).take (i + 1)).foldl RecordDict.put fun _ => none,
    (((p :: rest).take i).take d ++ [c]).foldl RecordDict.put fun _ => none, ?_,
    hi, by simpa using hstop, fun j a hj ha => by simpa using hfirst j a hj ha,
    fun x r => ?_, fun x r hx => ?_, fun hpos => ?_⟩
  · dsimp only [recentWindow]
    rw [hrun, htake, ← hcomp]
    simp [List.foldl_append]
  · exact RecordDict.foldl_put_empty_eq_some hnd x r
  · rw [RecordDict.foldl_put_empty_eq_some hcnd] at hx
    exact (RecordDict.foldl_put_empty_eq_some hnd x r).mpr ⟨hsub.subset hx.1, hx.2⟩
  · obtain ⟨hseen, hfound⟩ := hcount (by simpa using (hstop.resolve_left hpos.ne').2.1)
      (by simpa using (hstop.resolve_left hpos.ne').2.2)
    rw [List.take_take, Nat.min_eq_left hdi] at hseen hfound hcnd
    refine ⟨d, hdi, by simpa using hseen, by simpa using hfound, fun r hr => ?_⟩
    rw [List.take_take, Nat.min_eq_left hdi]
    exact (RecordDict.foldl_put_empty_eq_some hcnd _ r).mpr ⟨List.mem_append_left _ hr, rfl⟩

end Window

/-- Every record `block_to_block_record` builds that is first in its sub-slot has its
finished challenge slot hashes: the loop's assertion holds of it. -/
theorem blockToBlockRecord_hashes_of_first {cc : Collaborators}
    {blocks : Bytes32 → Option BlockRecord} {ri : ℕ} {block : FullBlock} {ssi : Option ℕ}
    {r : BlockRecord} (h : blockToBlockRecord cc blocks ri block ssi = .ok r) :
    r.firstInSubSlot → r.finishedChallengeSlotHashes.isSome := by
  unfold blockToBlockRecord at h
  cases hd : cc.deriveRecord blocks block ssi <;> rw [hd] at h <;> cases h
  cases block.finishedSubSlots.isEmpty <;> simp

end CorpochainBeacon
