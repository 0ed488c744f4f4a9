import CorpochainBeacon.ReceiveBlockSpec
import CorpochainBeacon.Ancestry

/-!
# The backtracking walk of `_reconsider_peak`

The walk fetches block and record from the transaction's store, from the new block down
through `prev_hash`, until it meets the height map's hash at the fork height or has fetched
a block of height `0`; the records it collected, reversed, are then replayed over the
height map rolled back to the fork.

* `backtrack_rows` — whatever it returns, the walk collected rows of the store, the first of
  them the starting block's unless the stop test held there;
* `backtrack_replay` — on a well-linked store the walk succeeds within `height + 1` steps,
  and the replay of what it collected writes the block's ancestor chain over every height up
  to its own, provided the map below any block the walk may stop at already is that block's
  chain.

The lookups are the store's rows (`StoreData.record`) and the record cache
(`Blockchain.view`); `record_insert` and `Blockchain.view_addBlockRecord` say how one write
changes each.
-/

namespace CorpochainBeacon

namespace StoreData

/-- A block and a record fetched under one hash are that hash's row. -/
theorem lookup_of_block_of_record {d : StoreData} {x : Bytes32} {fb : FullBlock} {r : BlockRecord}
    (hb : d.block x = some fb) (hr : d.record x = some r) : d.fullBlocks.lookup x = some (fb, r) := by
  unfold block at hb
  unfold record at hr
  cases h : d.fullBlocks.lookup x with
  | none => rw [h] at hb; cases hb
  | some e => rw [h] at hb hr; cases hb; cases hr; rfl

@[simp] theorem record_insert (d : StoreData) (x : Bytes32) (fb : FullBlock) (r : BlockRecord) :
    ({ d with fullBlocks := d.fullBlocks.insert x (fb, r) } : StoreData).record =
      Function.update d.record x (some r) := by
  funext y
  by_cases hy : y = x
  · subst hy; simp [record]
  · simp [record, AList.lookup_insert_ne hy, Function.update_noteq hy]

end StoreData

namespace Blockchain

variable (s : Blockchain) (work : BlockStore) (F : ℤ)

/-- The stop test of the walk: `curr` is the height map's hash at the fork height. -/
def StopsAt (curr : Bytes32) : Prop := 0 ≤ F ∧ s.heightToHash F.toNat = some curr

variable {s work F}

/-- The walk's loop condition is the negation of `StopsAt`. -/
theorem stopTest_iff {curr : Bytes32} :
    (F < 0 ∨ s.heightToHash F.toNat ≠ some curr) ↔ ¬ StopsAt s F curr := by
  rw [StopsAt, not_and_or, not_le]

theorem backtrack_stop {faults : StoreFaults} {n : ℕ} {curr : Bytes32} {acc : List (FullBlock × BlockRecord)}
    (h : StopsAt s F curr) : s.backtrack faults work F n curr acc = .ok acc := by
  unfold backtrack
  rw [if_neg fun hc => stopTest_iff.mp hc h]
  rfl

/-- **What the walk collects**: rows of the store, the first of them `curr`'s unless the
walk stopped at once. -/
theorem backtrack_rows {faults : StoreFaults} {n : ℕ} {curr : Bytes32}
    {acc L : List (FullBlock × BlockRecord)} (h : s.backtrack faults work F n curr acc = .ok L) :
    ∃ L', L = acc ++ L' ∧ (∀ e ∈ L', ∃ x, work.db.fullBlocks.lookup x = some e) ∧
      (¬ StopsAt s F curr → ∃ e rest, work.db.fullBlocks.lookup curr = some e ∧ L' = e :: rest) := by
  induction n generalizing curr acc with
  | zero =>
    unfold backtrack at h
    split at h
    · cases h
    · cases h
      exact ⟨[], by simp, fun e he => absurd he (List.not_mem_nil e),
        fun hs => (‹¬_› (stopTest_iff.mpr hs)).elim⟩
  | succ n ih =>
    unfold backtrack at h
    split at h
    · obtain ⟨ob, hob, h⟩ := bind_eq_ok h
      obtain ⟨orr, horr, h⟩ := bind_eq_ok h
      rcases ob with _ | fb <;> rcases orr with _ | br <;> try cases h
      have hrow := StoreData.lookup_of_block_of_record (StoreFaults.run_eq_ok hob).symm
        (StoreFaults.run_eq_ok horr).symm
      dsimp only at h
      split at h
      · cases h
        exact ⟨[(fb, br)], rfl, by simpa using ⟨curr, hrow⟩, fun _ => ⟨_, [], hrow, rfl⟩⟩
      · obtain ⟨L', rfl, hrows, -⟩ := ih h
        refine ⟨(fb, br) :: L', by simp, ?_, fun _ => ⟨_, L', hrow, rfl⟩⟩
        rintro e (_ | ⟨_, he⟩)
        · exact ⟨curr, hrow⟩
        · exact hrows e he
    · cases h
      exact ⟨[], by simp, fun e he => absurd he (List.not_mem_nil e),
        fun hs => (‹¬_› (stopTest_iff.mpr hs)).elim⟩

variable (hv : WellLinked work.db.record)
  (hfb : ∀ x fb r, work.db.fullBlocks.lookup x = some (fb, r) → fb.height = r.height)
  {m₀ : BlockHeightMap}
  (hstop : ∀ a, work.db.record a.headerHash = some a → StopsAt s F a.headerHash →
    ∀ k ≤ a.height, m₀.hashes k = (ancestorAt work.db.record a k).map (·.headerHash))
include hv hfb hstop

/-- **The walk and the replay**: from a stored record `r`, with fuel above its height, the
walk succeeds, and replaying what it collected over `m₀` writes `r`'s ancestor chain at every
height up to `r`'s, leaving `m₀` above. -/
theorem backtrack_replay {n : ℕ} {r : BlockRecord} (hr : work.db.record r.headerHash = some r)
    (hn : r.height < n) (acc : List (FullBlock × BlockRecord)) :
    ∃ L, s.backtrack .none work F n r.headerHash acc = .ok (acc ++ L) ∧
      (m₀.replay (L.reverse.map Prod.snd)).hashes = fun k =>
        if k ≤ r.height then (ancestorAt work.db.record r k).map (·.headerHash) else m₀.hashes k := by
  induction n generalizing r acc with
  | zero => omega
  | succ n ih =>
    by_cases hs : StopsAt s F r.headerHash
    · -- the walk stops at `r`, which the map already names with its chain below
      refine ⟨[], by simpa using backtrack_stop hs, ?_⟩
      funext k
      split
      · exact hstop r hr hs k ‹_›
      · rfl
    obtain ⟨fb, hrow⟩ : ∃ fb, work.db.fullBlocks.lookup r.headerHash = some (fb, r) := by
      unfold StoreData.record at hr
      cases h : work.db.fullBlocks.lookup r.headerHash with
      | none => rw [h] at hr; cases hr
      | some e => rw [h] at hr; cases hr; exact ⟨e.1, rfl⟩
    have hfetch : s.backtrack .none work F (n + 1) r.headerHash acc =
        if fb.height = 0 then .ok (acc ++ [(fb, r)])
        else s.backtrack .none work F n r.prevHash (acc ++ [(fb, r)]) := by
      rw [backtrack, if_pos (stopTest_iff.mpr hs)]
      simp [BlockStore.getFullBlock, BlockStore.getBlockRecord, StoreData.block, hr, hrow]
      rfl
    rw [hfetch, hfb _ _ _ hrow]
    by_cases h0 : r.height = 0
    · -- a genesis block ends the walk
      refine ⟨[(fb, r)], by simp [h0], ?_⟩
      funext k
      simp only [List.reverse_singleton, List.map_singleton]
      rw [← List.nil_append [r], BlockHeightMap.replay_append_singleton,
        BlockHeightMap.updateHeight_hashes]
      by_cases hk : k = 0
      · subst hk; rw [← h0]; simp
      · simp [hk, h0, show ¬ k ≤ 0 by omega]
    · -- one step down to the parent
      obtain ⟨p, hp, hh⟩ := hv.linked _ _ hr (by omega)
      have hpk : p.headerHash = r.prevHash := hv.keyed _ _ hp
      obtain ⟨L, hL, hrep⟩ := ih (r := p) (hpk ▸ hp) (by omega) (acc ++ [(fb, r)])
      refine ⟨(fb, r) :: L, by rw [if_neg h0, ← hpk, hL]; simp, ?_⟩
      funext k
      simp only [List.reverse_cons, List.map_append, List.map_singleton,
        BlockHeightMap.replay_append_singleton, BlockHeightMap.updateHeight_hashes, hrep,
        ancestorAt_prev hp hh k]
      by_cases hk : k = r.height
      · simp [hk]
      · by_cases hkp : k ≤ p.height
        · simp [hk, hkp, show k ≤ r.height by omega]
        · simp [hk, hkp, show ¬ k ≤ r.height by omega]

end Blockchain

end CorpochainBeacon
