import Mathlib.Data.Nat.Digits.Lemmas
import Mathlib.Data.UInt
import Mathlib.Tactic

/-!
# Numerals and the loops that read them

A numeral in some base is a row of digits. What a program reads of a text is the longest row of
digits at its start, `digitsOf`. A loop that goes over the text with an accumulator and takes one
digit after the other ends with the number of that row in the base, up to the size of the
accumulator, and knows whether there was a digit at all (`digitLoop_eq`).
-/

/-- The value of a hexadecimal digit in ASCII. -/
def HexField.digitValue (c : UInt8) : Option ℕ :=
  if 48 ≤ c ∧ c ≤ 57 then some (c.toNat - 48)
  else if 97 ≤ c ∧ c ≤ 102 then some (c.toNat - 87)
  else if 65 ≤ c ∧ c ≤ 70 then some (c.toNat - 55)
  else none

namespace Numeral

/-- The value of a digit in a base up to sixteen. -/
def digitValue (base : ℕ) (c : UInt8) : Option ℕ := (HexField.digitValue c).filter (· < base)

/-- The longest row of digits at the start of a text, as values. -/
def digitsOf (base : ℕ) (s : List UInt8) : List ℕ :=
  (s.takeWhile fun c ↦ (digitValue base c).isSome).filterMap (digitValue base)

/-- The number that has these digits, the highest first. -/
def number (base : ℕ) (ds : List ℕ) : ℕ := Nat.ofDigits base ds.reverse

/-- `while (digit) { v = step v digit; any = 1; }` -/
def digitLoop (digit : UInt8 → Option UInt32) (step : UInt32 → UInt32 → UInt32) :
    List UInt8 → UInt32 → Bool → UInt32 × Bool
  | [], v, any => (v, any)
  | c :: s, v, any =>
    match digit c with
    | none => (v, any)
    | some d => digitLoop digit step s (step v d) true

variable {base : ℕ}

variable {c : UInt8} {d : ℕ} {digit : UInt8 → Option UInt32} {step : UInt32 → UInt32 → UInt32}

theorem lt_of_digitValue (h : digitValue base c = some d) : d < base := by
  simpa using (Option.filter_eq_some_iff.mp h).2

@[simp] theorem digitsOf_nil : digitsOf base [] = [] := rfl

theorem digitsOf_cons_none (h : digitValue base c = none) (s : List UInt8) :
    digitsOf base (c :: s) = [] := by
  rw [digitsOf, List.takeWhile_cons_of_neg (by rw [h]; exact Bool.false_ne_true)]
  rfl

theorem digitsOf_cons_some (h : digitValue base c = some d) (s : List UInt8) :
    digitsOf base (c :: s) = d :: digitsOf base s := by
  rw [digitsOf, List.takeWhile_cons_of_pos (by rw [h]; rfl), List.filterMap_cons_some h]
  rfl

theorem digitsOf_append {s : List UInt8} (hs : ∀ c ∈ s, (digitValue base c).isSome)
    {rest : List UInt8} (hrest : digitsOf base rest = []) :
    digitsOf base (s ++ rest) = s.filterMap (digitValue base) := by
  induction s with
  | nil => exact hrest
  | cons c s ih =>
    rw [List.forall_mem_cons] at hs
    obtain ⟨d, hd⟩ := Option.isSome_iff_exists.mp hs.1
    rw [List.cons_append, digitsOf_cons_some hd, List.filterMap_cons_some hd, ih hs.2]

theorem number_eq_foldl (ds : List ℕ) : number base ds = ds.foldl (fun v d ↦ v * base + d) 0 := by
  rw [number, Nat.ofDigits_eq_foldr, List.foldr_reverse]
  congr 1
  funext v d
  rw [Nat.cast_id, Nat.mul_comm, Nat.add_comm]

/-- **The loop.** If the digits are those of the base, and a step takes the next one as it should. -/
theorem digitLoop_foldl (hdigit : ∀ c, digit c = (digitValue base c).map UInt32.ofNat)
    (hstep : ∀ v d, d < base → step (.ofNat v) (.ofNat d) = .ofNat (v * base + d)) (s : List UInt8)
    (v : ℕ) (any : Bool) :
    digitLoop digit step s (.ofNat v) any
      = (.ofNat ((digitsOf base s).foldl (fun v d ↦ v * base + d) v),
        any || !(digitsOf base s).isEmpty) := by
  induction s generalizing v any with
  | nil =>
    rw [digitLoop, digitsOf_nil, List.foldl_nil, List.isEmpty_nil, Bool.not_true, Bool.or_false]
  | cons c s ih =>
    rw [digitLoop, hdigit]
    cases hc : digitValue base c with
    | none =>
      rw [digitsOf_cons_none hc, List.foldl_nil, List.isEmpty_nil, Bool.not_true, Bool.or_false]
      rfl
    | some d =>
      rw [digitsOf_cons_some hc, List.foldl_cons, List.isEmpty_cons, Bool.not_false, Bool.or_true]
      dsimp only [Option.map_some]
      rw [hstep v d (lt_of_digitValue hc), ih, Bool.true_or]

theorem digitLoop_eq (hdigit : ∀ c, digit c = (digitValue base c).map UInt32.ofNat)
    (hstep : ∀ v d, d < base → step (.ofNat v) (.ofNat d) = .ofNat (v * base + d)) (s : List UInt8)
    : digitLoop digit step s 0 false
      = (.ofNat (number base (digitsOf base s)), !(digitsOf base s).isEmpty) := by
  rw [number_eq_foldl]
  exact (digitLoop_foldl hdigit hstep s 0 false).trans (by rw [Bool.false_or])

end Numeral
