import Mathlib.Data.List.Nodup
import Mathlib.Tactic

/-!
# Blocks and their owners

The blocks of a medium are shared out among owners. Each owner has a list of blocks; no block is in
two lists or twice in one, some blocks are reserved and belong to nobody, and all of these are marked
as used. `Owned.assign` gives one owner a new list, of blocks that were not in use, and releases
others.
-/

namespace Ownership

/-- The owners for which `P` holds have the blocks `bl`, below `total` and not `reserved`; these and
the reserved blocks are marked in `used`. -/
structure Owned {ι : Type*} (total : ℕ) (reserved : ℕ → Prop) (P : ι → Prop) (bl : ι → List ℕ)
    (used : ℕ → Prop) : Prop where
  nodup : ∀ i, P i → (bl i).Nodup
  disjoint : ∀ i j, P i → P j → i ≠ j → ∀ b ∈ bl i, b ∉ bl j
  lt : ∀ i, P i → ∀ b ∈ bl i, b < total
  not_reserved : ∀ i, P i → ∀ b ∈ bl i, ¬reserved b
  marked : ∀ i, P i → ∀ b ∈ bl i, used b
  reserved_lt : ∀ b, reserved b → b < total
  reserved_marked : ∀ b, reserved b → used b

namespace Owned

variable {ι : Type*} {total : ℕ} {reserved : ℕ → Prop} {P P' : ι → Prop} {bl bl' : ι → List ℕ}
  {used used' : ℕ → Prop}

theorem congr (h : Owned total reserved P bl used) (hP : ∀ i, P' i → P i)
    (hbl : ∀ i, P' i → bl' i = bl i) (hused : ∀ b, used b → used' b) :
    Owned total reserved P' bl' used' where
  nodup i hi := hbl i hi ▸ h.nodup i (hP i hi)
  disjoint i j hi hj hne := by
    rw [hbl i hi, hbl j hj]
    exact h.disjoint i j (hP i hi) (hP j hj) hne
  lt i hi b hb := h.lt i (hP i hi) b (hbl i hi ▸ hb)
  not_reserved i hi b hb := h.not_reserved i (hP i hi) b (hbl i hi ▸ hb)
  marked i hi b hb := hused b (h.marked i (hP i hi) b (hbl i hi ▸ hb))
  reserved_lt := h.reserved_lt
  reserved_marked b hb := hused b (h.reserved_marked b hb)

/-- **A new list for one owner.** The blocks of `run` were not in use; those of `old` are released
and belong to nobody else. Owners that are new otherwise have no blocks. -/
theorem assign (h : Owned total reserved P bl used) {i₀ : ι} {run old : List ℕ}
    (hother : ∀ i, P' i → i ≠ i₀ → bl' i = [] ∨ (P i ∧ bl' i = bl i)) (hrun : bl' i₀ = run)
    (hnodup : run.Nodup) (hfree : ∀ b ∈ run, b < total ∧ ¬used b) (hset : ∀ b ∈ run, used' b)
    (hold : ∀ b ∈ old, ¬reserved b ∧ ∀ i, P i → i ≠ i₀ → b ∉ bl i)
    (hkeep : ∀ b, used b → b ∉ old → used' b) : Owned total reserved P' bl' used' := by
  -- a block of another owner was that owner's before, and is not in the run
  have hbefore : ∀ i, P' i → i ≠ i₀ → ∀ b ∈ bl' i, P i ∧ bl' i = bl i ∧ used b ∧ b ∉ run := by
    intro i hi hne b hb
    rcases hother i hi hne with hnil | ⟨hPi, heq⟩
    · rw [hnil] at hb
      exact absurd hb List.not_mem_nil
    · have hub := h.marked i hPi b (heq ▸ hb)
      exact ⟨hPi, heq, hub, fun hrun ↦ (hfree b hrun).2 hub⟩
  refine ⟨fun i hi ↦ ?_, fun i j hi hj hne b hb ↦ ?_, fun i hi b hb ↦ ?_, fun i hi b hb ↦ ?_,
    fun i hi b hb ↦ ?_, h.reserved_lt, fun b hb ↦ ?_⟩
  · by_cases hi₀ : i = i₀
    · rw [hi₀, hrun]
      exact hnodup
    · rcases hother i hi hi₀ with hnil | ⟨hPi, heq⟩
      · rw [hnil]
        exact List.nodup_nil
      · rw [heq]
        exact h.nodup i hPi
  · by_cases hi₀ : i = i₀
    · intro hbj
      rw [hi₀, hrun] at hb
      exact (hbefore j hj (hi₀ ▸ hne.symm) b hbj).2.2.2 hb
    · obtain ⟨hPi, heq, -, hnot⟩ := hbefore i hi hi₀ b hb
      by_cases hj₀ : j = i₀
      · rwa [hj₀, hrun]
      · intro hbj
        obtain ⟨hPj, heqj, -, -⟩ := hbefore j hj hj₀ b hbj
        exact h.disjoint i j hPi hPj hne b (heq ▸ hb) (heqj ▸ hbj)
  · by_cases hi₀ : i = i₀
    · rw [hi₀, hrun] at hb
      exact (hfree b hb).1
    · obtain ⟨hPi, heq, -, -⟩ := hbefore i hi hi₀ b hb
      exact h.lt i hPi b (heq ▸ hb)
  · by_cases hi₀ : i = i₀
    · rw [hi₀, hrun] at hb
      exact fun hres ↦ (hfree b hb).2 (h.reserved_marked b hres)
    · obtain ⟨hPi, heq, -, -⟩ := hbefore i hi hi₀ b hb
      exact h.not_reserved i hPi b (heq ▸ hb)
  · by_cases hi₀ : i = i₀
    · rw [hi₀, hrun] at hb
      exact hset b hb
    · obtain ⟨hPi, heq, hub, -⟩ := hbefore i hi hi₀ b hb
      exact hkeep b hub fun ho ↦ (hold b ho).2 i hPi hi₀ (heq ▸ hb)
  · exact hkeep b (h.reserved_marked b hb) fun ho ↦ (hold b ho).1 hb

end Owned

end Ownership
