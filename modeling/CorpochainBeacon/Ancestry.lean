import CorpochainBeacon.Types

/-!
# Ancestry through a record lookup

The chain below a block is read through a lookup `v` of records by header hash (the record
cache, or the rows of the block store), following `prev_hash`:

* `WellLinked v` — every record is stored under its own hash, and a record above genesis
  has its parent in `v`, one height below (`LinkedInto v r` says the latter of one record);
* `ancestorAt v r k` — the ancestor-or-self of `r` at height `k`, with its recursion through
  the parent (`ancestorAt_prev`); on a well-linked lookup it exists exactly at the heights
  `k ≤ r.height` (`ancestorAt_isSome`), has height `k` (`ancestorAt_height`) and its
  `prev_hash` names the ancestor one below (`ancestorAt_prevHash`);
* `highestCommonAncestor` — what `find_fork_point_in_chain` is meant to return.
-/

namespace CorpochainBeacon

variable (v : Bytes32 → Option BlockRecord)

/-- `r`'s parent is in `v`, one height below, unless `r` is a genesis block. -/
def LinkedInto (r : BlockRecord) : Prop :=
  0 < r.height → ∃ p, v r.prevHash = some p ∧ p.height + 1 = r.height

/-- Every record is stored under its own hash and is linked into the lookup. -/
structure WellLinked : Prop where
  keyed : ∀ x r, v x = some r → r.headerHash = x
  linked : ∀ x r, v x = some r → LinkedInto v r

/-- `n` steps down the `prev_hash` links from `r`. -/
def walkDown : ℕ → BlockRecord → Option BlockRecord
  | 0, r => some r
  | n + 1, r => (v r.prevHash).bind (walkDown n)

/-- The ancestor-or-self of `r` at height `k`. -/
def ancestorAt (r : BlockRecord) (k : ℕ) : Option BlockRecord :=
  if k ≤ r.height then walkDown v (r.height - k) r else none

/-- Modelled from the spec: `find_fork_point_in_chain` is absent from the source. The
height of the highest common ancestor of the two blocks through `v`, or `-1` when they share
none. -/
def highestCommonAncestor (b₁ b₂ : BlockRecord) : ℤ :=
  match (List.range (min b₁.height b₂.height + 1)).reverse.find? fun k =>
      match ancestorAt v b₁ k, ancestorAt v b₂ k with
      | some a₁, some a₂ => a₁.headerHash == a₂.headerHash
      | _, _ => false with
  | some k => k
  | none => -1

variable {v}

/-- A common ancestor is at most as high as either block. -/
theorem highestCommonAncestor_le (b₁ b₂ : BlockRecord) :
    highestCommonAncestor v b₁ b₂ ≤ b₁.height := by
  unfold highestCommonAncestor
  split
  · rename_i k hk
    have := List.mem_range.mp (List.mem_reverse.mp (List.mem_of_find?_eq_some hk))
    omega
  · omega

@[simp] theorem ancestorAt_self (r : BlockRecord) : ancestorAt v r r.height = some r := by
  simp [ancestorAt, walkDown]

theorem ancestorAt_of_lt {r : BlockRecord} {k : ℕ} (h : r.height < k) : ancestorAt v r k = none :=
  if_neg (by omega)

theorem le_of_ancestorAt {r a : BlockRecord} {k : ℕ} (h : ancestorAt v r k = some a) :
    k ≤ r.height :=
  Nat.le_of_not_lt fun hk => by rw [ancestorAt_of_lt hk] at h; cases h

/-- Below `r`, the ancestors of `r` are those of its parent. -/
theorem ancestorAt_prev {r p : BlockRecord} (hp : v r.prevHash = some p)
    (hh : p.height + 1 = r.height) (k : ℕ) :
    ancestorAt v r k = if k = r.height then some r else ancestorAt v p k := by
  by_cases hk : k = r.height
  · subst hk; simp
  rw [if_neg hk]
  by_cases hlt : k < r.height
  · have : r.height - k = (p.height - k) + 1 := by omega
    simp only [ancestorAt, if_pos hlt.le, if_pos (show k ≤ p.height by omega), this, walkDown, hp,
      Option.some_bind]
  · rw [ancestorAt_of_lt (by omega), ancestorAt_of_lt (by omega)]

/-- Adding a record under a hash `v` does not name extends `v`. -/
theorem update_extends {x : Bytes32} {r : BlockRecord} (hnew : v x = none) :
    ∀ y q, v y = some q → Function.update v x (some r) y = some q :=
  fun y q hy => by rwa [Function.update_noteq fun he => by rw [he, hnew] at hy; cases hy]

section Mono

variable {v' : Bytes32 → Option BlockRecord} (hext : ∀ x r, v x = some r → v' x = some r)
include hext

theorem walkDown_mono {n : ℕ} {r a : BlockRecord} (h : walkDown v n r = some a) :
    walkDown v' n r = some a := by
  induction n generalizing r with
  | zero => exact h
  | succ n ih =>
    simp only [walkDown, Option.bind_eq_some] at h ⊢
    obtain ⟨p, hp, hw⟩ := h
    exact ⟨p, hext _ _ hp, ih hw⟩

/-- A lookup that extends `v` has the same ancestors. -/
theorem ancestorAt_mono {r a : BlockRecord} {k : ℕ} (h : ancestorAt v r k = some a) :
    ancestorAt v' r k = some a := by
  unfold ancestorAt at *
  split at h
  · rw [if_pos ‹_›]
    exact walkDown_mono hext h
  · cases h

end Mono

section WellLinked

variable (hv : WellLinked v)
include hv

/-- Adding a new record linked into a well-linked lookup keeps it well linked. -/
theorem WellLinked.insert {r : BlockRecord} (hnew : v r.headerHash = none) (hr : LinkedInto v r) :
    WellLinked (Function.update v r.headerHash (some r)) := by
  have lift : ∀ {q : BlockRecord}, LinkedInto v q →
      LinkedInto (Function.update v r.headerHash (some r)) q := fun hq h0 => by
    obtain ⟨p, hp, hh⟩ := hq h0
    exact ⟨p, update_extends hnew _ _ hp, hh⟩
  refine ⟨fun x q hx => ?_, fun x q hx => ?_⟩
  · rcases update_eq_some hx with ⟨rfl, rfl⟩ | hx
    · rfl
    · exact hv.keyed x q hx
  · rcases update_eq_some hx with ⟨-, rfl⟩ | hx
    · exact lift hr
    · exact lift (hv.linked x q hx)

/-- On a well-linked lookup, a record linked into it has an ancestor at every height up to
its own. -/
theorem ancestorAt_isSome {r : BlockRecord} (hr : LinkedInto v r) {k : ℕ} (hk : k ≤ r.height) :
    (ancestorAt v r k).isSome := by
  obtain ⟨n, hn⟩ : ∃ n, r.height = n := ⟨_, rfl⟩
  induction n generalizing r with
  | zero =>
    obtain rfl : k = 0 := by omega
    rw [← hn]; simp
  | succ n ih =>
    obtain ⟨p, hp, hh⟩ := hr (by omega)
    rw [ancestorAt_prev hp hh]
    split
    · rfl
    · exact ih (hv.linked _ _ hp) (by omega) (by omega)

/-- The ancestor at height `k` has height `k`. -/
theorem ancestorAt_height {r a : BlockRecord} (hr : LinkedInto v r) {k : ℕ}
    (h : ancestorAt v r k = some a) : a.height = k := by
  obtain ⟨n, hn⟩ : ∃ n, r.height = n := ⟨_, rfl⟩
  induction n generalizing r with
  | zero =>
    by_cases hk : k = 0
    · subst hk; rw [← hn, ancestorAt_self] at h; cases h; exact hn
    · rw [ancestorAt_of_lt (by omega)] at h; cases h
  | succ n ih =>
    obtain ⟨p, hp, hh⟩ := hr (by omega)
    rw [ancestorAt_prev hp hh] at h
    split at h
    · cases h; omega
    · exact ih (hv.linked _ _ hp) h (by omega)

/-- The `prev_hash` of the ancestor at height `k + 1` names the ancestor at height `k`. -/
theorem ancestorAt_prevHash {r a : BlockRecord} (hr : LinkedInto v r) {k : ℕ}
    (h : ancestorAt v r (k + 1) = some a) : (ancestorAt v r k).map (·.headerHash) = some a.prevHash := by
  obtain ⟨n, hn⟩ : ∃ n, r.height = n := ⟨_, rfl⟩
  induction n generalizing r with
  | zero => rw [ancestorAt_of_lt (by omega)] at h; cases h
  | succ n ih =>
    have := le_of_ancestorAt h
    obtain ⟨p, hp, hh⟩ := hr (by omega)
    rw [ancestorAt_prev hp hh] at h
    rw [ancestorAt_prev hp hh, if_neg (by omega)]
    split at h
    · cases h
      obtain rfl : k = p.height := by omega
      simp [hv.keyed _ _ hp]
    · exact ih (hv.linked _ _ hp) h (by omega)

/-- The ancestors of `r` below one of its ancestors `a` are those of `a`. -/
theorem ancestorAt_ancestorAt {r a : BlockRecord} (hr : LinkedInto v r) {j k : ℕ}
    (h : ancestorAt v r j = some a) (hk : k ≤ j) : ancestorAt v r k = ancestorAt v a k := by
  obtain ⟨n, hn⟩ : ∃ n, r.height = n := ⟨_, rfl⟩
  induction n generalizing r with
  | zero =>
    obtain rfl : j = 0 := by have := le_of_ancestorAt h; omega
    rw [← hn, ancestorAt_self] at h; cases h; rfl
  | succ n ih =>
    obtain ⟨p, hp, hh⟩ := hr (by omega)
    rw [ancestorAt_prev hp hh] at h
    split at h
    · cases h; rfl
    · have := le_of_ancestorAt h
      rw [ancestorAt_prev hp hh, if_neg (by omega)]
      exact ih (hv.linked _ _ hp) h (by omega)

theorem walkDown_mem {n : ℕ} {r a : BlockRecord} (h : walkDown v n r = some a) :
    a = r ∨ v a.headerHash = some a := by
  induction n generalizing r with
  | zero => exact .inl (Option.some.inj h).symm
  | succ n ih =>
    simp only [walkDown, Option.bind_eq_some] at h
    obtain ⟨p, hp, hw⟩ := h
    rcases ih hw with rfl | hmem
    · exact .inr (hv.keyed _ _ hp ▸ hp)
    · exact .inr hmem

/-- An ancestor is the block itself or a record of the lookup. -/
theorem ancestorAt_mem {r a : BlockRecord} {k : ℕ} (h : ancestorAt v r k = some a) :
    a = r ∨ v a.headerHash = some a := by
  unfold ancestorAt at h
  split at h
  · exact walkDown_mem hv h
  · cases h

/-- A record linked into `v` has the same ancestors in every extension of `v`. -/
theorem ancestorAt_extend {v' : Bytes32 → Option BlockRecord}
    (hext : ∀ x r, v x = some r → v' x = some r) {r : BlockRecord} (hr : LinkedInto v r) (k : ℕ) :
    ancestorAt v' r k = ancestorAt v r k := by
  by_cases hk : k ≤ r.height
  · obtain ⟨a, ha⟩ := Option.isSome_iff_exists.mp (ancestorAt_isSome hv hr hk)
    rw [ha, ancestorAt_mono hext ha]
  · rw [ancestorAt_of_lt (by omega), ancestorAt_of_lt (by omega)]

end WellLinked

end CorpochainBeacon
