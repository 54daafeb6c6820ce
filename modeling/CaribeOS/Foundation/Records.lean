import Mathlib.Data.List.Basic

/-!
# Streams of records that carry their length

A stream is a row of records, one after the other, and the length of a record can be read from its
own first elements. Such a stream can be cut into its records again without knowing where they end:
this is what a reader of the stream does, and `split_flatten` says that it finds the records
that were written.
-/

namespace Records

variable {α : Type}

/-- Cut a stream into records, at most `fuel` of them; `len` reads the length of the first. -/
def split (len : List α → ℕ) : ℕ → List α → List (List α)
  | 0, _ => []
  | _ + 1, [] => []
  | fuel + 1, x :: xs =>
    (x :: xs).take (len (x :: xs)) :: split len fuel ((x :: xs).drop (len (x :: xs)))

/-- The record is not empty, and its length can be read from it whatever follows. -/
def Delimited (len : List α → ℕ) (r : List α) : Prop := r ≠ [] ∧ ∀ rest, len (r ++ rest) = r.length

theorem length_le_length_flatten {rs : List (List α)} (h : ∀ r ∈ rs, r ≠ []) :
    rs.length ≤ rs.flatten.length := by
  induction rs with
  | nil => exact Nat.le_refl _
  | cons r rs ih =>
    obtain ⟨hr, hrs⟩ := List.forall_mem_cons.mp h
    have hpos := List.length_pos_of_ne_nil hr
    have hrest := ih hrs
    rw [List.flatten_cons, List.length_append, List.length_cons]
    omega

theorem split_flatten {len : List α → ℕ} {rs : List (List α)} (h : ∀ r ∈ rs, Delimited len r)
    {fuel : ℕ} (hfuel : rs.length ≤ fuel) : split len fuel rs.flatten = rs := by
  induction rs generalizing fuel with
  | nil =>
    rcases fuel with - | fuel
    · rfl
    · rfl
  | cons r rs ih =>
    obtain ⟨⟨hne, hlen⟩, hrs⟩ := List.forall_mem_cons.mp h
    rw [List.length_cons] at hfuel
    obtain ⟨fuel, rfl⟩ : ∃ k, fuel = k + 1 := ⟨fuel - 1, by omega⟩
    obtain ⟨x, xs, rfl⟩ := List.exists_cons_of_ne_nil hne
    have hrest := hlen rs.flatten
    rw [List.flatten_cons, List.cons_append, split, ← List.cons_append, hrest, List.take_left,
      List.drop_left, ih hrs (Nat.le_of_succ_le_succ hfuel)]

end Records
