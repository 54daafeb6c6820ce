import Mathlib.Data.List.Basic
import Mathlib.Data.List.TakeWhile
import Mathlib.Data.UInt
import Mathlib.Tactic

/-!
# Strings in buffers of a fixed size

A buffer is a list of bytes whose length does not change. The string in it is what stands before its
first zero byte, if there is one. `copyFrom` is the usual loop that copies a string into a buffer
from an index on, as far as there is room for it and its zero byte.
-/

namespace CBuffer

/-- The string in a buffer. -/
def text (buf : List UInt8) : List UInt8 := buf.takeWhile (· ≠ 0)

/-- A string ends inside the buffer. -/
def Terminated (buf : List UInt8) : Prop := 0 ∈ buf
  deriving Decidable

/-- `while (i + 1 < cap && src[j]) dst[i++] = src[j++]; dst[i] = 0;` with the index at the end. -/
def copyFrom (dst : List UInt8) (i : ℕ) : List UInt8 → ℕ × List UInt8
  | [] => (i, dst.set i 0)
  | c :: src =>
    if i + 1 < dst.length ∧ c ≠ 0 then copyFrom (dst.set i c) (i + 1) src else (i, dst.set i 0)

/-- As much of a string as there is room for, with its zero byte. -/
def fitting (room : ℕ) (src : List UInt8) : List UInt8 := (text src).take (room - 1)

theorem not_mem_text (buf : List UInt8) : 0 ∉ text buf := by
  intro h
  simpa using List.mem_takeWhile_imp h

theorem text_cons_of_ne {c : UInt8} (hc : c ≠ 0) (src : List UInt8) :
    text (c :: src) = c :: text src := List.takeWhile_cons_of_pos (by simpa using hc)

@[simp] theorem text_cons_zero (src : List UInt8) : text (0 :: src) = [] := rfl

theorem text_append_zero {s : List UInt8} (hs : 0 ∉ s) (rest : List UInt8) :
    text (s ++ 0 :: rest) = s := by
  induction s with
  | nil => rfl
  | cons c s ih =>
    rw [List.mem_cons, not_or] at hs
    rw [List.cons_append, text_cons_of_ne (Ne.symm hs.1), ih hs.2]

theorem take_length_text (buf : List UInt8) : buf.take (text buf).length = text buf :=
  (List.prefix_iff_eq_take.mp (List.takeWhile_prefix _)).symm

theorem not_mem_fitting (room : ℕ) (src : List UInt8) : 0 ∉ fitting room src :=
  fun h ↦ not_mem_text src (List.mem_of_mem_take h)

theorem length_fitting_lt {room : ℕ} (src : List UInt8) (hroom : 0 < room) :
    (fitting room src).length < room := by
  have := List.length_take_le (room - 1) (text src)
  rw [fitting]
  omega

variable {buf dst : List UInt8}

theorem Terminated.exists_eq (h : Terminated buf) : ∃ rest, buf = text buf ++ 0 :: rest := by
  induction buf with
  | nil => exact absurd h List.not_mem_nil
  | cons c buf ih =>
    by_cases hc : c = 0
    · exact ⟨buf, by rw [hc]; rfl⟩
    · have hmem : Terminated buf := (List.mem_cons.mp h).resolve_left (Ne.symm hc)
      obtain ⟨rest, hrest⟩ := ih hmem
      refine ⟨rest, ?_⟩
      rw [text_cons_of_ne hc, List.cons_append, ← hrest]

theorem Terminated.length_text_lt (h : Terminated buf) : (text buf).length < buf.length := by
  obtain ⟨rest, hrest⟩ := h.exists_eq
  have hlen := congrArg List.length hrest
  rw [List.length_append, List.length_cons] at hlen
  omega

theorem length_copyFrom (dst : List UInt8) (i : ℕ) (src : List UInt8) :
    (copyFrom dst i src).2.length = dst.length := by
  induction src generalizing dst i with
  | nil => exact List.length_set
  | cons c src ih =>
    rw [copyFrom]
    split_ifs
    · exact (ih _ _).trans List.length_set
    · exact List.length_set

/-- The last byte is only ever used for the zero byte. -/
theorem getElem?_copyFrom {last : ℕ} (hlen : dst.length = last + 1) (hlast : dst[last]? = some 0)
    (i : ℕ) (src : List UInt8) : (copyFrom dst i src).2[last]? = some 0 := by
  induction src generalizing dst i with
  | nil =>
    rw [copyFrom, List.getElem?_set, hlen, hlast]
    split_ifs <;> first | rfl | omega
  | cons c src ih =>
    rw [copyFrom]
    split_ifs with hgo
    · refine ih (List.length_set.trans hlen) ?_ (i + 1)
      rw [List.getElem?_set_ne (by omega), hlast]
    · rw [List.getElem?_set, hlen, hlast]
      split_ifs <;> first | rfl | omega

/-- **The copying loop.** What was before the index stays, the string follows as far as it fits, and
then a zero byte. -/
theorem copyFrom_eq {i : ℕ} (hi : i < dst.length) (src : List UInt8) :
    copyFrom dst i src = (i + (fitting (dst.length - i) src).length,
      dst.take i ++ fitting (dst.length - i) src
        ++ 0 :: dst.drop (i + (fitting (dst.length - i) src).length + 1)) := by
  induction src generalizing dst i with
  | nil =>
    have hfit : fitting (dst.length - i) [] = [] := List.take_nil
    rw [copyFrom, hfit, List.set_eq_take_append_cons_drop, if_pos hi, List.append_nil]
    rfl
  | cons c src ih =>
    rw [copyFrom]
    by_cases hgo : i + 1 < dst.length ∧ c ≠ 0
    · have hlen : (dst.set i c).length = dst.length := List.length_set
      have hfit : fitting (dst.length - i) (c :: src) = c :: fitting (dst.length - (i + 1)) src := by
        rw [fitting, text_cons_of_ne hgo.2, fitting,
          show dst.length - i - 1 = dst.length - (i + 1) - 1 + 1 by omega, List.take_succ_cons]
      have htake : (dst.set i c).take (i + 1) = dst.take i ++ [c] := by
        rw [List.take_add_one, List.take_set_of_le (le_refl i), List.getElem?_set_self hi]
        rfl
      have hdrop : ∀ k, (dst.set i c).drop (i + 1 + k) = dst.drop (i + 1 + k) := fun k ↦
        List.drop_set_of_lt (by omega)
      rw [if_pos hgo, ih (by rw [hlen]; exact hgo.1), hlen, hfit, htake, Nat.add_assoc (i + 1),
        hdrop, List.length_cons]
      simp only [List.append_assoc, List.cons_append, List.nil_append]
      refine Prod.ext (by dsimp only; omega) ?_
      dsimp only
      congr 5
      omega
    · have hfit : fitting (dst.length - i) (c :: src) = [] := by
        by_cases hc : c = 0
        · rw [hc, fitting, text_cons_zero, List.take_nil]
        · rw [fitting, show dst.length - i - 1 = 0 by
            have := not_and.mp hgo
            have : ¬i + 1 < dst.length := fun h ↦ this h hc
            omega, List.take_zero]
      rw [if_neg hgo, hfit, List.set_eq_take_append_cons_drop, if_pos hi, List.append_nil]
      rfl

end CBuffer
