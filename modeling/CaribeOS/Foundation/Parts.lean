import Mathlib.Data.List.TakeWhile

/-!
# The parts of a list between separators

`parts sep l` is what remains of `l.splitOn sep` when the empty pieces are dropped, as one does with
the components of a path. A reader that goes through the list from left to right skips separators,
takes what stands before the next one and goes on behind it; `parts_eq_cons` says that its first
piece is the first part, and `parts_eq_nil` that it stops when there is no part left.
-/

namespace List

variable {α : Type*} [DecidableEq α] {sep : α}

/-- The nonempty pieces of a list between separators. -/
def parts (sep : α) (l : List α) : List (List α) := (l.splitOn sep).filter (· ≠ [])

@[simp] theorem parts_nil : parts sep ([] : List α) = [] := rfl

theorem parts_cons_self (l : List α) : parts sep (sep :: l) = parts sep l := by
  rw [parts, splitOn_cons_eq_if_modifyHead, if_pos (beq_self_eq_true sep),
    filter_cons_of_neg (by simp), ← parts]

theorem parts_dropWhile (l : List α) : parts sep (l.dropWhile (· = sep)) = parts sep l := by
  induction l with
  | nil => rfl
  | cons x l ih =>
    by_cases hx : x = sep
    · rw [dropWhile_cons_of_pos (by simpa using hx), ih, hx, parts_cons_self]
    · rw [dropWhile_cons_of_neg (by simpa using hx)]

theorem parts_of_notMem {l : List α} (h : sep ∉ l) (hne : l ≠ []) : parts sep l = [l] := by
  rw [parts, splitOn_eq_singleton h, filter_cons_of_pos (by simpa using hne), filter_nil]

theorem notMem_takeWhile_ne (l : List α) : sep ∉ l.takeWhile (· ≠ sep) := by
  intro hmem
  simpa using mem_takeWhile_imp hmem

theorem parts_of_head_ne {l : List α} (hne : l.takeWhile (· ≠ sep) ≠ []) :
    parts sep l = l.takeWhile (· ≠ sep) :: parts sep (l.dropWhile (· ≠ sep)) := by
  have hsplit : l.takeWhile (· ≠ sep) ++ l.dropWhile (· ≠ sep) = l := takeWhile_append_dropWhile
  have hfirst : sep ∉ l.takeWhile (· ≠ sep) := notMem_takeWhile_ne l
  cases hrest : l.dropWhile (· ≠ sep) with
  | nil =>
    rw [hrest, append_nil] at hsplit
    rw [parts_nil, hsplit]
    rw [hsplit] at hfirst hne
    exact parts_of_notMem hfirst hne
  | cons x rest =>
    have hx : x = sep := by
      have hhead := head_dropWhile_not (· ≠ sep) (l := l) (by rw [hrest]; exact cons_ne_nil _ _)
      simp only [hrest, head_cons] at hhead
      simpa using hhead
    rw [hrest, hx] at hsplit
    calc parts sep l = parts sep (l.takeWhile (· ≠ sep) ++ sep :: rest) := by rw [hsplit]
      _ = l.takeWhile (· ≠ sep) :: parts sep rest := by
        rw [parts, splitOn_append_cons_self, filter_append, ← parts, ← parts,
          parts_of_notMem hfirst hne, singleton_append]
      _ = l.takeWhile (· ≠ sep) :: parts sep (x :: rest) := by rw [hx, parts_cons_self]

/-- **The first part**, found from left to right. -/
theorem parts_eq_cons {l : List α} (h : l.dropWhile (· = sep) ≠ []) :
    parts sep l = (l.dropWhile (· = sep)).takeWhile (· ≠ sep)
      :: parts sep (((l.dropWhile (· = sep)).dropWhile (· ≠ sep)).dropWhile (· = sep)) := by
  have hne : (l.dropWhile (· = sep)).takeWhile (· ≠ sep) ≠ [] := by
    have hhead := head_dropWhile_not (· = sep) h
    cases hdrop : l.dropWhile (· = sep) with
    | nil => exact absurd hdrop h
    | cons x rest =>
      simp only [hdrop, head_cons] at hhead
      rw [takeWhile_cons_of_pos (by simpa using hhead)]
      exact cons_ne_nil _ _
  rw [parts_dropWhile, ← parts_of_head_ne hne, parts_dropWhile]

theorem mem_of_mem_parts {l part : List α} {x : α} (hpart : part ∈ parts sep l) (hx : x ∈ part) :
    x ∈ l := by
  have hpiece : ∀ piece ∈ l.splitOn sep, ∀ x ∈ piece, x ∈ l := by
    clear hpart hx
    induction l with
    | nil => simp
    | cons y l ih =>
      rw [splitOn_cons_eq_if_modifyHead]
      split_ifs with hy
      · rw [forall_mem_cons]
        exact ⟨fun x hx ↦ absurd hx not_mem_nil,
          fun piece hpiece x hx ↦ mem_cons_of_mem y (ih piece hpiece x hx)⟩
      · obtain ⟨first, rest, hsplit⟩ := exists_cons_of_ne_nil (splitOn_ne_nil sep l)
        rw [hsplit] at ih ⊢
        rw [modifyHead_cons, forall_mem_cons]
        rw [forall_mem_cons] at ih
        exact ⟨fun x hx ↦ (mem_cons.mp hx).elim (fun h ↦ h ▸ mem_cons_self)
          fun h ↦ mem_cons_of_mem y (ih.1 x h),
          fun piece hpiece x hx ↦ mem_cons_of_mem y (ih.2 piece hpiece x hx)⟩
  exact hpiece part (mem_filter.mp hpart).1 x hx

theorem parts_eq_nil {l : List α} (h : l.dropWhile (· = sep) = []) : parts sep l = [] := by
  rw [← parts_dropWhile, h, parts_nil]

theorem length_parts_le (sep : α) (l : List α) : (parts sep l).length ≤ l.length := by
  induction hn : l.length using Nat.strong_induction_on generalizing l with
  | _ n ih =>
    by_cases hnil : l.dropWhile (· = sep) = []
    · rw [parts_eq_nil hnil]
      exact Nat.zero_le n
    · -- the first part has at least one element
      have hhead := head_dropWhile_not (· = sep) hnil
      have hdrop : (l.dropWhile (· = sep)).length ≤ l.length := (dropWhile_sublist _).length_le
      rw [parts_eq_cons hnil]
      cases hrest : l.dropWhile (· = sep) with
      | nil => exact absurd hrest hnil
      | cons x rest =>
        simp only [hrest, head_cons] at hhead
        rw [hrest, length_cons] at hdrop
        rw [length_cons, dropWhile_cons_of_pos (by simpa using hhead)]
        have hlen : ((rest.dropWhile (· ≠ sep)).dropWhile (· = sep)).length ≤ rest.length :=
          (dropWhile_sublist _).length_le.trans (dropWhile_sublist _).length_le
        have := ih _ (by omega) ((rest.dropWhile (· ≠ sep)).dropWhile (· = sep)) rfl
        omega

/-- A map that keeps the separator apart from the other elements maps the parts. -/
theorem parts_map {β : Type*} [DecidableEq β] {sep' : β} {f : α → β} {l : List α}
    (hf : ∀ x ∈ l, f x = sep' ↔ x = sep) :
    parts sep' (l.map f) = (parts sep l).map (map f) := by
  have hsplit : (l.map f).splitOn sep' = (l.splitOn sep).map (map f) := by
    induction l with
    | nil => rfl
    | cons x l ih =>
      rw [forall_mem_cons] at hf
      rw [map_cons, splitOn_cons_eq_if_modifyHead, splitOn_cons_eq_if_modifyHead, ih hf.2]
      by_cases hx : x = sep
      · rw [if_pos (by simpa using hf.1.mpr hx), if_pos (by simpa using hx)]
        rfl
      · rw [if_neg (by simpa using fun h ↦ hx (hf.1.mp h)), if_neg (by simpa using hx)]
        cases l.splitOn sep with
        | nil => rfl
        | cons first rest => rfl
  rw [parts, hsplit, parts, filter_map]
  congr 1
  refine filter_congr fun piece _ ↦ ?_
  simp

end List
