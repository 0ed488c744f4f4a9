import CorpochainBeacon.Atomicity

/-!
# `get_sp_and_ip_sub_slots`: the sub-slots of a block's signage and infusion points

`get_sp_and_ip_sub_slots(header_hash)` walks down from a block to the nearest block that
is first in its sub-slot, whose last finished sub-slot is the infusion point's; for an
overflow block whose sub-slot is that block's only bundle, a second walk goes on down to
the next such block above genesis, for the signage point's sub-slot.

* `SubSlotChain s x h G S` — the chain below `x` in the cache and the store: every
  ancestor-or-self has a cached record and a stored full block that agree (`ChainNode`),
  heights fall by one to `0`; `G` are the genesis block's finished sub-slot bundles and `S`
  all bundles of the chain, from genesis up to `x`;
* `spIpOfBundles` — the two sub-slots read off `S`: the last bundle, and for an overflow
  block the one before it;
* `SubSlotChain.spIpFirstLoop_result`, `SubSlotChain.spIpSecondLoop_result` — what the two
  loops return on such a chain whose genesis block has no bundles;
* **`getSpAndIpSubSlots_of_chain`** — then the call returns `spIpOfBundles`;
* `getSpAndIpSubSlots_genesis_bundles` — when the genesis block has bundles, the call
  can return the genesis bundle as both sub-slots, or miss it as the signage point's.
-/

namespace CorpochainBeacon

namespace Blockchain

variable (s : Blockchain) (faults : StoreFaults)

/-- The first loop of `get_sp_and_ip_sub_slots`: from `currBr` down to the first record
that is first in its sub-slot, whose full block it fetches, or to height `0`, where `curr`
is still the block the call started from. `fuel` bounds the steps. -/
def spIpFirstLoop : ℕ → BlockRecord → FullBlock → Except Exc FullBlock
  | fuel, currBr, curr =>
    if currBr.firstInSubSlot then do
      match ← s.blockStore.getFullBlock faults currBr.headerHash with
      | some block => pure block
      | none => .error .assertionError
    else if currBr.height = 0 then pure curr
    else match fuel with
      | 0 => .error .outOfFuel
      | fuel + 1 => do
        let currBr ← s.blockRecord currBr.prevHash
        spIpFirstLoop fuel currBr curr

/-- The second loop: while `prevCurrBr` is above genesis, down to the first record that is
first in its sub-slot, whose full block it fetches; otherwise `prevCurr` is kept. -/
def spIpSecondLoop : ℕ → BlockRecord → FullBlock → Except Exc FullBlock
  | fuel, prevCurrBr, prevCurr =>
    if 0 < prevCurrBr.height then
      if prevCurrBr.firstInSubSlot then do
        match ← s.blockStore.getFullBlock faults prevCurrBr.headerHash with
        | some block => pure block
        | none => .error .assertionError
      else match fuel with
        | 0 => .error .outOfFuel
        | fuel + 1 => do
          let prevCurrBr ← s.blockRecord prevCurrBr.prevHash
          spIpSecondLoop fuel prevCurrBr prevCurr
    else pure prevCurr

variable {s faults} {fuel : ℕ} {currBr : BlockRecord} {curr block : FullBlock}

theorem spIpFirstLoop_of_first (h : currBr.firstInSubSlot = true)
    (hb : s.blockStore.getFullBlock faults currBr.headerHash = .ok (some block)) :
    s.spIpFirstLoop faults fuel currBr curr = .ok block := by
  cases fuel <;> simp [spIpFirstLoop, h, hb] <;> rfl

theorem spIpFirstLoop_of_genesis (h : currBr.firstInSubSlot = false) (h0 : currBr.height = 0) :
    s.spIpFirstLoop faults fuel currBr curr = .ok curr := by
  cases fuel <;> simp [spIpFirstLoop, h, h0] <;> rfl

theorem spIpFirstLoop_succ (h : currBr.firstInSubSlot = false) (h0 : currBr.height ≠ 0) :
    s.spIpFirstLoop faults (fuel + 1) currBr curr =
      s.blockRecord currBr.prevHash >>= fun currBr => s.spIpFirstLoop faults fuel currBr curr := by
  simp [spIpFirstLoop, h, h0]

theorem spIpSecondLoop_of_genesis (h0 : currBr.height = 0) :
    s.spIpSecondLoop faults fuel currBr curr = .ok curr := by
  cases fuel <;> simp [spIpSecondLoop, h0] <;> rfl

theorem spIpSecondLoop_of_first (hpos : 0 < currBr.height) (h : currBr.firstInSubSlot = true)
    (hb : s.blockStore.getFullBlock faults currBr.headerHash = .ok (some block)) :
    s.spIpSecondLoop faults fuel currBr curr = .ok block := by
  cases fuel <;> simp [spIpSecondLoop, hpos, h, hb] <;> rfl

theorem spIpSecondLoop_succ (hpos : 0 < currBr.height) (h : currBr.firstInSubSlot = false) :
    s.spIpSecondLoop faults (fuel + 1) currBr curr =
      s.blockRecord currBr.prevHash >>= fun currBr => s.spIpSecondLoop faults fuel currBr curr := by
  simp [spIpSecondLoop, hpos, h]

variable (s faults)

/-- `get_sp_and_ip_sub_slots(header_hash)`: `None` for a block the store does not hold,
else the signage point's and the infusion point's sub-slots. Each loop gets the height of
the record it starts from as fuel. -/
def getSpAndIpSubSlots (headerHash : Bytes32) :
    Except Exc (Option (Option EndOfSubSlotBundle × Option EndOfSubSlotBundle)) := do
  match ← s.blockStore.getFullBlock faults headerHash with
  | none => pure none
  | some block =>
    let currBr ← s.blockRecord block.headerHash
    let isOverflow := currBr.overflow
    let curr ← s.spIpFirstLoop faults currBr.height currBr block
    if curr.finishedSubSlots.length = 0 then pure (some (none, none))
    else do
      let ipSubSlot ← pyIndex curr.finishedSubSlots (-1)
      if !isOverflow then pure (some (none, some ipSubSlot))
      else if 1 < curr.finishedSubSlots.length then do
        let spSubSlot ← pyIndex curr.finishedSubSlots (-2)
        pure (some (some spSubSlot, some ipSubSlot))
      else do
        let (prevCurr, prevCurrBr) ←
          match ← s.blockStore.getFullBlock faults curr.prevHeaderHash with
          | none =>
            if curr.height = 0 then do pure (curr, ← s.blockRecord curr.headerHash)
            else .error .assertionError
          | some prevCurr => do pure (prevCurr, ← s.blockRecord curr.prevHeaderHash)
        let prevCurr ← s.spIpSecondLoop faults prevCurrBr.height prevCurrBr prevCurr
        if prevCurr.finishedSubSlots.length = 0 then pure (some (none, some ipSubSlot))
        else do
          let spSubSlot ← pyIndex prevCurr.finishedSubSlots (-1)
          pure (some (some spSubSlot, some ipSubSlot))

/-- The hash `x` names the cached record `r` and the stored full block `b` of one block:
they agree on its identity, parent and height, and the record is first in its sub-slot
exactly when the block finished sub-slots. -/
structure ChainNode (x : Bytes32) (r : BlockRecord) (b : FullBlock) : Prop where
  cached : s.view x = some r
  stored : s.blockStore.db.block x = some b
  recordHash : r.headerHash = x
  blockHash : b.headerHash = x
  prevHash : b.prevHeaderHash = r.prevHash
  height : b.height = r.height
  firstInSubSlot : r.firstInSubSlot = !b.finishedSubSlots.isEmpty

/-- `SubSlotChain s x h G S`: every ancestor-or-self of `x` is a `ChainNode`, heights fall
by one from `h` down to a genesis block of height `0`, whose bundles are `G`, and `S` is
the concatenation of the bundles from genesis up to `x`. -/
inductive SubSlotChain : Bytes32 → ℕ → List EndOfSubSlotBundle → List EndOfSubSlotBundle → Prop
  | genesis {x : Bytes32} {r : BlockRecord} {b : FullBlock} :
      s.ChainNode x r b → r.height = 0 →
      SubSlotChain x 0 b.finishedSubSlots b.finishedSubSlots
  | cons {x : Bytes32} {r : BlockRecord} {b : FullBlock} {h : ℕ}
      {G S : List EndOfSubSlotBundle} :
      s.ChainNode x r b → r.height = h + 1 → SubSlotChain r.prevHash h G S →
      SubSlotChain x (h + 1) G (S ++ b.finishedSubSlots)

variable {s}

/-- The top of a chain is a node of its height, whose bundles end `S`. -/
theorem SubSlotChain.top {x : Bytes32} {h : ℕ} {G S : List EndOfSubSlotBundle}
    (hc : s.SubSlotChain x h G S) :
    ∃ r b S₀, s.ChainNode x r b ∧ r.height = h ∧ S = S₀ ++ b.finishedSubSlots := by
  cases hc with
  | genesis hn h0 => exact ⟨_, _, [], hn, h0, rfl⟩
  | cons hn hh _ => exact ⟨_, _, _, hn, hh, rfl⟩

/-- A node's record is first in its sub-slot exactly when its block has bundles. -/
theorem ChainNode.firstInSubSlot_iff {x : Bytes32} {r : BlockRecord} {b : FullBlock}
    (hn : s.ChainNode x r b) : r.firstInSubSlot = false ↔ b.finishedSubSlots = [] := by
  rw [hn.firstInSubSlot]
  cases b.finishedSubSlots <;> simp

/-- Fetching a node's block when no store operation fails. -/
theorem ChainNode.getFullBlock {x : Bytes32} {r : BlockRecord} {b : FullBlock}
    (hn : s.ChainNode x r b) : s.blockStore.getFullBlock .none x = .ok (some b) := by
  rw [← hn.stored]
  rfl

/-- **The first loop** on a chain whose genesis block has no bundles, with fuel for its
height: it reaches genesis when no block of the chain has bundles, keeping the block it
started from; otherwise it returns the nearest block that has, below which the chain goes
on. -/
theorem SubSlotChain.spIpFirstLoop_result {x : Bytes32} {h : ℕ} {G S : List EndOfSubSlotBundle}
    (hc : s.SubSlotChain x h G S) (hG : G = []) {r : BlockRecord} (hr : s.view x = some r)
    {fuel : ℕ} (hf : h ≤ fuel) (curr : FullBlock) :
    (S = [] ∧ s.spIpFirstLoop .none fuel r curr = .ok curr) ∨
      ∃ y rc c h' S', s.ChainNode y rc c ∧ c.finishedSubSlots ≠ [] ∧ rc.height = h' + 1 ∧
        s.SubSlotChain rc.prevHash h' [] S' ∧ S = S' ++ c.finishedSubSlots ∧
        s.spIpFirstLoop .none fuel r curr = .ok c := by
  induction hc generalizing fuel r with
  | genesis hn h0 =>
    obtain rfl := Option.some.inj (hn.cached.symm.trans hr)
    exact .inl ⟨hG, spIpFirstLoop_of_genesis (hn.firstInSubSlot_iff.mpr hG) h0⟩
  | @cons x r' b h G S₀ hn hh hc' ih =>
    obtain rfl := Option.some.inj (hn.cached.symm.trans hr)
    subst hG
    by_cases hb : b.finishedSubSlots = []
    · obtain ⟨p, _, _, hp, hph, _⟩ := hc'.top
      obtain ⟨k, rfl⟩ : ∃ k, fuel = k + 1 := ⟨fuel - 1, by omega⟩
      rw [spIpFirstLoop_succ (hn.firstInSubSlot_iff.mpr hb) (by omega), blockRecord_of_view hp.cached,
        bind_ok, hb, List.append_nil]
      exact ih rfl hp.cached (by omega)
    · refine .inr ⟨x, r', b, h, S₀, hn, hb, hh, hc', rfl, ?_⟩
      exact spIpFirstLoop_of_first (by simpa using mt hn.firstInSubSlot_iff.mp hb)
        (hn.recordHash ▸ hn.getFullBlock)

/-- **The second loop** from a record of a chain whose genesis block has no bundles, with
fuel for its height, and a `prevCurr` without bundles unless the record is first in its
sub-slot: the block it returns ends with the chain's last bundle. -/
theorem SubSlotChain.spIpSecondLoop_result {y : Bytes32} {h : ℕ} {G S : List EndOfSubSlotBundle}
    (hc : s.SubSlotChain y h G S) (hG : G = []) {p : BlockRecord} (hp : s.view y = some p)
    {fuel : ℕ} (hf : h ≤ fuel) {prevCurr : FullBlock}
    (hprev : p.firstInSubSlot = false → prevCurr.finishedSubSlots = []) :
    ∃ d, s.spIpSecondLoop .none fuel p prevCurr = .ok d ∧
      d.finishedSubSlots.getLast? = S.getLast? := by
  induction hc generalizing fuel p prevCurr with
  | genesis hn h0 =>
    obtain rfl := Option.some.inj (hn.cached.symm.trans hp)
    refine ⟨prevCurr, spIpSecondLoop_of_genesis h0, ?_⟩
    rw [hprev (hn.firstInSubSlot_iff.mpr hG), hG]
  | @cons x r' b h G S₀ hn hh hc' ih =>
    obtain rfl := Option.some.inj (hn.cached.symm.trans hp)
    subst hG
    by_cases hb : b.finishedSubSlots = []
    · obtain ⟨q, _, _, hq, hqh, _⟩ := hc'.top
      obtain ⟨k, rfl⟩ : ∃ k, fuel = k + 1 := ⟨fuel - 1, by omega⟩
      have hfiss := hn.firstInSubSlot_iff.mpr hb
      obtain ⟨d, hd, hl⟩ := ih rfl hq.cached (show h ≤ k by omega) fun _ => hprev hfiss
      refine ⟨d, ?_, by rw [hl, hb, List.append_nil]⟩
      rw [spIpSecondLoop_succ (by omega) hfiss, blockRecord_of_view hq.cached, bind_ok, hd]
    · exact ⟨b, spIpSecondLoop_of_first (by omega) (by simpa using mt hn.firstInSubSlot_iff.mp hb)
        (hn.recordHash ▸ hn.getFullBlock), (List.getLast?_append_of_ne_nil _ hb).symm⟩

end Blockchain

/-- The signage and infusion points' sub-slots of a block whose chain, from genesis up, has
the finished sub-slot bundles `S`: `(None, None)` without bundles; else the last bundle is
the infusion point's, and for an overflow block the one before it (if any) is the signage
point's. -/
def spIpOfBundles (overflow : Bool) (S : List EndOfSubSlotBundle) :
    Option EndOfSubSlotBundle × Option EndOfSubSlotBundle :=
  match S.getLast? with
  | none => (none, none)
  | some ip => (if overflow then S.dropLast.getLast? else none, some ip)

/-- The sub-slots of bundles that end with a block's non-empty bundles `T`. -/
theorem spIpOfBundles_append {overflow : Bool} {S T : List EndOfSubSlotBundle} {ip : EndOfSubSlotBundle}
    (hip : T.getLast? = some ip) :
    spIpOfBundles overflow (S ++ T) =
      (if overflow then (S ++ T.dropLast).getLast? else none, some ip) := by
  have hT : T ≠ [] := by rintro rfl; cases hip
  simp [spIpOfBundles, List.getLast?_append_of_ne_nil _ hT, hip, List.dropLast_append_of_ne_nil _ hT]

theorem pyIndex_neg_one {α : Type} {xs : List α} {y : α} (h : xs.getLast? = some y) :
    pyIndex xs (-1) = .ok y := by
  rw [List.getLast?_eq_getElem?, List.getElem?_eq_some_iff] at h
  obtain ⟨hl, rfl⟩ := h
  unfold pyIndex
  rw [dif_pos (by omega)]
  congr 2
  congr 1
  omega

theorem pyIndex_neg_two {α : Type} {xs : List α} {y : α} (h : xs.dropLast.getLast? = some y) :
    pyIndex xs (-2) = .ok y := by
  rw [List.getLast?_dropLast] at h
  split at h
  · cases h
  rw [List.getElem?_eq_some_iff] at h
  obtain ⟨hl, rfl⟩ := h
  unfold pyIndex
  rw [dif_pos (by omega)]
  congr 2
  congr 1
  omega

namespace Blockchain

variable {s : Blockchain}

/-- **`get_sp_and_ip_sub_slots` reads the sub-slots off the chain's bundles.** Let `x` name
a block whose ancestors-or-self form a `SubSlotChain` with bundles `S`, whose genesis block
has no bundles, and let no store read fail. Then the call returns `spIpOfBundles` of the
block's overflow flag and `S`: `(None, None)` when `S` is empty, `(None, last(S))` for a
block that is not overflow, else `(S[-2]` or `None, last(S))`. -/
theorem getSpAndIpSubSlots_of_chain {x : Bytes32} {h : ℕ} {S : List EndOfSubSlotBundle}
    (hc : s.SubSlotChain x h [] S) {r : BlockRecord} (hr : s.view x = some r) :
    s.getSpAndIpSubSlots .none x = .ok (some (spIpOfBundles r.overflow S)) := by
  obtain ⟨r', b, S₀, hn, hh, hS⟩ := hc.top
  obtain rfl := Option.some.inj (hn.cached.symm.trans hr)
  unfold getSpAndIpSubSlots
  rw [hn.getFullBlock, bind_ok]
  dsimp only
  rw [hn.blockHash, blockRecord_of_view hn.cached, bind_ok]
  rcases hc.spIpFirstLoop_result rfl hn.cached hh.ge b with
    ⟨rfl, hl⟩ | ⟨y, rc, c, h', S', hy, hne, hrc, hc', rfl, hl⟩
  · -- no block of the chain has bundles
    have hb : b.finishedSubSlots = [] := (List.append_eq_nil.mp hS.symm).2
    rw [hl, bind_ok, if_pos (by simp [hb])]
    rfl
  -- the nearest block with bundles is `c`
  obtain ⟨ip, hip⟩ : ∃ ip, c.finishedSubSlots.getLast? = some ip :=
    Option.isSome_iff_exists.mp (by simpa [List.getLast?_isSome] using hne)
  rw [hl, bind_ok, if_neg (by simpa using hne), pyIndex_neg_one hip, bind_ok, spIpOfBundles_append hip]
  cases r'.overflow
  · rfl
  simp only [Bool.not_true, Bool.false_eq_true, ↓reduceIte]
  by_cases h2 : 1 < c.finishedSubSlots.length
  · -- `c` finished both sub-slots
    obtain ⟨sp, hsp⟩ : ∃ sp, c.finishedSubSlots.dropLast.getLast? = some sp :=
      Option.isSome_iff_exists.mp (by
        rw [List.getLast?_isSome, ne_eq, ← List.length_eq_zero, List.length_dropLast]; omega)
    rw [if_pos h2, pyIndex_neg_two hsp, List.getLast?_append_of_ne_nil _ (by rintro h; simp [h] at hsp),
      hsp]
    rfl
  -- `c` finished one sub-slot: the second loop from its parent
  have hone : c.finishedSubSlots.dropLast = [] := by
    rw [← List.length_eq_zero, List.length_dropLast]; omega
  obtain ⟨p, bp, _, hnp, hph, _⟩ := hc'.top
  obtain ⟨d, hd, hdl⟩ := hc'.spIpSecondLoop_result rfl hnp.cached hph.ge
    (fun hf => hnp.firstInSubSlot_iff.mp hf)
  rw [if_neg h2, hy.prevHash, hnp.getFullBlock, bind_ok]
  dsimp only
  rw [blockRecord_of_view hnp.cached, bind_ok]
  simp only [pure_bind]
  rw [hd, bind_ok, hone, List.append_nil, ← hdl]
  by_cases hd0 : d.finishedSubSlots = []
  · rw [if_pos (by simp [hd0]), hd0]
    rfl
  obtain ⟨sp, hsp⟩ : ∃ sp, d.finishedSubSlots.getLast? = some sp :=
    Option.isSome_iff_exists.mp (by simpa [List.getLast?_isSome] using hd0)
  rw [if_neg (by simpa using hd0), pyIndex_neg_one hsp, hsp]
  rfl

/-! ## Concrete chains -/

/-- `sampleCollaborators`, with the blocks of signage point `2` overflow blocks. -/
def subSlotCollaborators : Collaborators :=
  { sampleCollaborators with isOverflowBlock := fun signagePoint => decide (signagePoint = 2) }

/-- A transaction block with the given bundles, hash, parent, height and signage point. -/
def subSlotBlock (bundles : List ℕ) (headerHash prevHash height signagePoint : ℕ) : FullBlock :=
  ⟨bundles.map (⟨·⟩), headerHash, prevHash, height, height + 1, 0, true, signagePoint, none, none⟩

/-- The record `receive_block` builds for `subSlotBlock` with `subSlotCollaborators`. -/
def subSlotRecord (bundles : List ℕ) (headerHash prevHash height signagePoint : ℕ) : BlockRecord :=
  ⟨headerHash, prevHash, height, height + 1, 0, 0, decide (signagePoint = 2), !bundles.isEmpty, true,
    0, none, if bundles.isEmpty then none else some bundles, none, 0⟩

/-- Receive the blocks in order, from the empty chain. -/
def subSlotChainOf (blocks : List FullBlock) : Blockchain :=
  receiveAll subSlotCollaborators .empty (blocks.map fun b => sampleDelivery b none)

/-- A genesis block `1` without bundles; `2` finishes the sub-slot `5`; `3` finishes none;
the overflow block `4` finishes the sub-slot `6`. -/
def fourSubSlotBlocks : Blockchain :=
  subSlotChainOf [subSlotBlock [] 1 0 0 0, subSlotBlock [5] 2 1 1 0, subSlotBlock [] 3 2 2 0,
    subSlotBlock [6] 4 3 3 2]

/-- On `fourSubSlotBlocks`, the signage point of the overflow block `4` is in the sub-slot
`5` that block `2` finished, found by the second loop. -/
theorem fourSubSlotBlocks_sp_and_ip :
    fourSubSlotBlocks.SubSlotChain 4 3 [] [⟨5⟩, ⟨6⟩] ∧
      fourSubSlotBlocks.view 4 = some (subSlotRecord [6] 4 3 3 2) ∧
      fourSubSlotBlocks.getSpAndIpSubSlots .none 4 =
        .ok (some (spIpOfBundles (subSlotRecord [6] 4 3 3 2).overflow [⟨5⟩, ⟨6⟩])) := by
  have hc : fourSubSlotBlocks.SubSlotChain 4 3 [] [⟨5⟩, ⟨6⟩] :=
    .cons (r := subSlotRecord [6] 4 3 3 2) (b := subSlotBlock [6] 4 3 3 2)
      ⟨by decide, by decide, rfl, rfl, rfl, rfl, rfl⟩ rfl <|
    .cons (r := subSlotRecord [] 3 2 2 0) (b := subSlotBlock [] 3 2 2 0)
      ⟨by decide, by decide, rfl, rfl, rfl, rfl, rfl⟩ rfl <|
    .cons (r := subSlotRecord [5] 2 1 1 0) (b := subSlotBlock [5] 2 1 1 0)
      ⟨by decide, by decide, rfl, rfl, rfl, rfl, rfl⟩ rfl <|
    .genesis (r := subSlotRecord [] 1 0 0 0) (b := subSlotBlock [] 1 0 0 0)
      ⟨by decide, by decide, rfl, rfl, rfl, rfl, rfl⟩ rfl
  have hr : fourSubSlotBlocks.view 4 = some (subSlotRecord [6] 4 3 3 2) := by decide
  exact ⟨hc, hr, getSpAndIpSubSlots_of_chain hc hr⟩

/-- A genesis block `1` of signage point `2` (an overflow block) that finishes the sub-slot
`5`; `2` finishes none; the overflow block `3` finishes the sub-slot `6`. -/
def genesisWithSubSlot : Blockchain :=
  subSlotChainOf [subSlotBlock [5] 1 0 0 2, subSlotBlock [] 2 1 1 0, subSlotBlock [6] 3 2 2 2]

/-- When the genesis block finished a sub-slot, the call departs from the bundles of the
chain in both directions. For the genesis block `1` itself (`S = [5]`, overflow) it returns
`5` as both sub-slots, where `S` has no bundle before `5`; for the overflow block `3`
(`S = [5, 6]`) the second loop stops above genesis and the call returns no signage-point
sub-slot, where `S[-2] = 5`. -/
theorem getSpAndIpSubSlots_genesis_bundles :
    genesisWithSubSlot.SubSlotChain 1 0 [⟨5⟩] [⟨5⟩] ∧
      genesisWithSubSlot.view 1 = some (subSlotRecord [5] 1 0 0 2) ∧
      (subSlotRecord [5] 1 0 0 2).overflow = true ∧
      genesisWithSubSlot.getSpAndIpSubSlots .none 1 = .ok (some (some ⟨5⟩, some ⟨5⟩)) ∧
      spIpOfBundles true [⟨5⟩] = (none, some ⟨5⟩) ∧
    genesisWithSubSlot.SubSlotChain 3 2 [⟨5⟩] [⟨5⟩, ⟨6⟩] ∧
      genesisWithSubSlot.view 3 = some (subSlotRecord [6] 3 2 2 2) ∧
      (subSlotRecord [6] 3 2 2 2).overflow = true ∧
      genesisWithSubSlot.getSpAndIpSubSlots .none 3 = .ok (some (none, some ⟨6⟩)) ∧
      spIpOfBundles true [⟨5⟩, ⟨6⟩] = (some ⟨5⟩, some ⟨6⟩) := by
  have hg : genesisWithSubSlot.SubSlotChain 1 0 [⟨5⟩] [⟨5⟩] :=
    .genesis (r := subSlotRecord [5] 1 0 0 2) (b := subSlotBlock [5] 1 0 0 2)
      ⟨by decide, by decide, rfl, rfl, rfl, rfl, rfl⟩ rfl
  have h3 : genesisWithSubSlot.SubSlotChain 3 2 [⟨5⟩] [⟨5⟩, ⟨6⟩] :=
    .cons (r := subSlotRecord [6] 3 2 2 2) (b := subSlotBlock [6] 3 2 2 2)
      ⟨by decide, by decide, rfl, rfl, rfl, rfl, rfl⟩ rfl <|
    .cons (r := subSlotRecord [] 2 1 1 0) (b := subSlotBlock [] 2 1 1 0)
      ⟨by decide, by decide, rfl, rfl, rfl, rfl, rfl⟩ rfl hg
  exact ⟨hg, by decide, rfl, by decide, rfl, h3, by decide, rfl, by decide, rfl⟩

end Blockchain

end CorpochainBeacon
