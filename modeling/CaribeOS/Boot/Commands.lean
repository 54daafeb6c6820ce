import CaribeOS.Foundation.ByteMemory
import CaribeOS.Foundation.Numeral
import Mathlib.Data.List.DropRight

/-!
# The commands of the booter's console

`handle_line` in `console.c` takes the trailing blanks off a line and decides by its first characters
which command it is. Numbers are read by `parse_uint_auto`, and by a second function of the same kind
in the part of the console that came from elsewhere, `bx_parse_uint_auto`. The two agree
(`parsers_agree`).

A text is the list of its characters, without the terminating zero. `parse_uint_auto` skips blanks on
its own copy of the pointer. So the loops that look for the second argument of `mem rd` and `mem wr`
start where the first one began, blanks and all, and find the first argument again if there is more
than one blank before it (`mem_arguments_iff`).
-/

namespace CaribeOS.Commands

open ByteMemory (cString)
open Numeral

/-! ## The number parsers as they stand in the source -/

def isBlank (c : UInt8) : Bool := c = 32 ∨ c = 9

/-- The text begins with `0x` or `0X`. -/
def hasHexMark (s : List UInt8) : Prop :=
  s.getD 0 0 = 48 ∧ (s.getD 1 0 = 120 ∨ s.getD 1 0 = 88)
  deriving Decidable

/-- The digit `d` of the loop over hexadecimal digits. -/
def hexDigit (c : UInt8) : Option UInt32 :=
  if 48 ≤ c ∧ c ≤ 57 then some (c - 48).toUInt32
  else if 97 ≤ c ∧ c ≤ 102 then some (c - 97 + 10).toUInt32
  else if 65 ≤ c ∧ c ≤ 70 then some (c - 65 + 10).toUInt32
  else none

def decDigit (c : UInt8) : Option UInt32 := if 48 ≤ c ∧ c ≤ 57 then some (c.toUInt32 - 48) else none

/-- `parse_uint_auto`: the number, if it returns 1. -/
def parseUintAuto (s : List UInt8) : Option UInt32 :=
  let s := s.dropWhile isBlank
  let r :=
    if hasHexMark s then digitLoop hexDigit (fun v d ↦ v <<< 4 ||| d) (s.drop 2) 0 false
    else digitLoop decDigit (fun v d ↦ v * 10 + d) s 0 false
  if r.2 then some r.1 else none

def bxIsSpace (c : UInt8) : Bool := c = 32 ∨ c = 9 ∨ c = 13 ∨ c = 10

def bxIsHex (c : UInt8) : Prop := 48 ≤ c ∧ c ≤ 57 ∨ 97 ≤ c ∧ c ≤ 102 ∨ 65 ≤ c ∧ c ≤ 70
  deriving Decidable

def bxHexv (c : UInt8) : UInt32 :=
  if 48 ≤ c ∧ c ≤ 57 then c.toUInt32 - 48
  else if 97 ≤ c ∧ c ≤ 102 then 10 + (c.toUInt32 - 97)
  else 10 + (c.toUInt32 - 65)

/-- `bx_parse_uint_auto`. -/
def bxParseUintAuto (s : List UInt8) : Option UInt32 :=
  let s := s.dropWhile bxIsSpace
  if hasHexMark s then
    let r := digitLoop (fun c ↦ if bxIsHex c then some (bxHexv c) else none)
      (fun v d ↦ v <<< 4 ||| d) (s.drop 2) 0 false
    if r.2 then some r.1 else none
  else if s.getD 0 0 < 48 ∨ 57 < s.getD 0 0 then none
  else some (digitLoop decDigit (fun v d ↦ v * 10 + d) s 0 false).1

/-! ## What they read -/

/-- The base of the numeral at the start of a text, and its digits. -/
def numeralAt (s : List UInt8) : ℕ × List ℕ :=
  if hasHexMark s then (16, digitsOf 16 (s.drop 2)) else (10, digitsOf 10 s)

/-- The number at the start of a text, modulo `2 ^ 32`; none without a digit. -/
def readNumber (s : List UInt8) : Option UInt32 :=
  if (numeralAt s).2 = [] then none
  else some (.ofNat (number (numeralAt s).1 (numeralAt s).2 % 2 ^ 32))

variable {base : ℕ} {c : UInt8} {rest : List UInt8}

section Digits

variable {c lo hi : UInt8}

/-- The value of a digit from some range, in any base that has it. -/
theorem some_eq_digit {v : UInt32} {n : ℕ} (hn : n < base) (hv : v.toNat = n) :
    some v = ((some n).filter (· < base)).map UInt32.ofNat := by
  rw [Option.filter_some, if_pos (by simpa using hn), Option.map_some, ← hv, UInt32.ofNat_toNat]

theorem toNat_toUInt32_sub (h : lo ≤ c) : (c.toUInt32 - lo.toUInt32).toNat = c.toNat - lo.toNat := by
  have hle : lo.toUInt32 ≤ c.toUInt32 := by
    exact UInt8.le_iff_toNat_le.mp h
  rw [UInt32.toNat_sub_of_le _ _ hle, UInt8.toNat_toUInt32, UInt8.toNat_toUInt32]

theorem toNat_sub_add (h : lo ≤ c) (hc : c.toNat - lo.toNat < 246) :
    (c - lo + 10).toUInt32.toNat = c.toNat - lo.toNat + 10 := by
  rw [UInt8.toNat_toUInt32, UInt8.toNat_add, UInt8.toNat_sub_of_le _ _ h]
  exact Nat.mod_eq_of_lt (by change _ + 10 < 256; omega)

end Digits

theorem hexDigit_eq (c : UInt8) : hexDigit c = (digitValue 16 c).map UInt32.ofNat := by
  rw [hexDigit, digitValue, HexField.digitValue]
  split_ifs with hdec hlow hup
  · have hle : c.toNat ≤ 57 := UInt8.le_iff_toNat_le.mp hdec.2
    refine some_eq_digit (by omega) ?_
    rw [UInt8.toNat_toUInt32, UInt8.toNat_sub_of_le _ _ hdec.1]
    rfl
  · have hge : 97 ≤ c.toNat := UInt8.le_iff_toNat_le.mp hlow.1
    have hle : c.toNat ≤ 102 := UInt8.le_iff_toNat_le.mp hlow.2
    refine some_eq_digit (by omega) ?_
    rw [toNat_sub_add hlow.1 (by change c.toNat - 97 < 246; omega)]
    change c.toNat - 97 + 10 = _
    omega
  · have hge : 65 ≤ c.toNat := UInt8.le_iff_toNat_le.mp hup.1
    have hle : c.toNat ≤ 70 := UInt8.le_iff_toNat_le.mp hup.2
    refine some_eq_digit (by omega) ?_
    rw [toNat_sub_add hup.1 (by change c.toNat - 65 < 246; omega)]
    change c.toNat - 65 + 10 = _
    omega
  · rfl

theorem decDigit_eq (c : UInt8) : decDigit c = (digitValue 10 c).map UInt32.ofNat := by
  rw [decDigit, digitValue, HexField.digitValue]
  split_ifs with hdec hlow hup
  · have hle : c.toNat ≤ 57 := UInt8.le_iff_toNat_le.mp hdec.2
    exact some_eq_digit (by omega) (toNat_toUInt32_sub hdec.1)
  -- a letter is a digit, but not in this base
  · have hge : 97 ≤ c.toNat := UInt8.le_iff_toNat_le.mp hlow.1
    rw [Option.filter_some, if_neg (by simpa using by omega)]
    rfl
  · have hge : 65 ≤ c.toNat := UInt8.le_iff_toNat_le.mp hup.1
    rw [Option.filter_some, if_neg (by simpa using by omega)]
    rfl
  · rfl

theorem bxHexDigit_eq (c : UInt8) :
    (if bxIsHex c then some (bxHexv c) else none) = (digitValue 16 c).map UInt32.ofNat := by
  have hletter : ∀ {lo : UInt8}, lo ≤ c → c.toNat - lo.toNat < 6 →
      (10 + (c.toUInt32 - lo.toUInt32)).toNat = c.toNat - lo.toNat + 10 := by
    intro lo hle hlt
    rw [UInt32.toNat_add, toNat_toUInt32_sub hle]
    change (10 + (c.toNat - lo.toNat)) % 2 ^ 32 = _
    omega
  rw [digitValue, HexField.digitValue, bxHexv]
  by_cases hdec : 48 ≤ c ∧ c ≤ 57
  · have hle : c.toNat ≤ 57 := UInt8.le_iff_toNat_le.mp hdec.2
    rw [if_pos (.inl hdec), if_pos hdec, if_pos hdec]
    exact some_eq_digit (by omega) (toNat_toUInt32_sub hdec.1)
  · rw [if_neg hdec, if_neg hdec]
    by_cases hlow : 97 ≤ c ∧ c ≤ 102
    · have hge : 97 ≤ c.toNat := UInt8.le_iff_toNat_le.mp hlow.1
      have hle : c.toNat ≤ 102 := UInt8.le_iff_toNat_le.mp hlow.2
      rw [if_pos (.inr (.inl hlow)), if_pos hlow, if_pos hlow]
      refine some_eq_digit (by omega) ((hletter hlow.1 (by change c.toNat - 97 < 6; omega)).trans ?_)
      change c.toNat - 97 + 10 = _
      omega
    · rw [if_neg hlow, if_neg hlow]
      by_cases hup : 65 ≤ c ∧ c ≤ 70
      · have hge : 65 ≤ c.toNat := UInt8.le_iff_toNat_le.mp hup.1
        have hle : c.toNat ≤ 70 := UInt8.le_iff_toNat_le.mp hup.2
        rw [if_pos (.inr (.inr hup)), if_pos hup]
        refine some_eq_digit (by omega) ((hletter hup.1 (by change c.toNat - 65 < 6; omega)).trans ?_)
        change c.toNat - 65 + 10 = _
        omega
      · rw [if_neg hup, if_neg]
        · rfl
        · rintro (h | h | h)
          · exact hdec h
          · exact hlow h
          · exact hup h

theorem shift_or_eq (v d : ℕ) (hd : d < 16) :
    UInt32.ofNat v <<< 4 ||| UInt32.ofNat d = .ofNat (v * 16 + d) := by
  apply UInt32.toNat_inj.mp
  have hshift : (UInt32.ofNat v <<< 4).toNat = 2 ^ 4 * (v % 2 ^ 28) := by
    rw [UInt32.toNat_shiftLeft, UInt32.toNat_ofNat', Nat.shiftLeft_eq]
    change v % 2 ^ 32 * 2 ^ 4 % 2 ^ 32 = _
    omega
  have hdigit : (UInt32.ofNat d).toNat = d := by
    rw [ByteMemory.toNat_ofNat_lt (by omega)]
  rw [UInt32.toNat_or, hshift, hdigit, ← Nat.two_pow_add_eq_or_of_lt hd, UInt32.toNat_ofNat']
  omega

theorem mul_add_eq (v d : ℕ) : UInt32.ofNat v * 10 + UInt32.ofNat d = .ofNat (v * 10 + d) := by
  rw [UInt32.ofNat_add, UInt32.ofNat_mul]
  rfl

theorem ofNat_mod (n : ℕ) : UInt32.ofNat (n % 2 ^ 32) = .ofNat n :=
  UInt32.toNat_inj.mp (by rw [UInt32.toNat_ofNat', UInt32.toNat_ofNat', Nat.mod_mod])

theorem ite_digitLoop {digit : UInt8 → Option UInt32} {step : UInt32 → UInt32 → UInt32}
    (hdigit : ∀ c, digit c = (digitValue base c).map UInt32.ofNat)
    (hstep : ∀ v d, d < base → step (.ofNat v) (.ofNat d) = .ofNat (v * base + d)) (s : List UInt8)
    : (if (digitLoop digit step s 0 false).2 then some (digitLoop digit step s 0 false).1 else none)
      = if digitsOf base s = [] then none
        else some (.ofNat (number base (digitsOf base s) % 2 ^ 32)) := by
  rw [digitLoop_eq hdigit hstep, ofNat_mod]
  by_cases hnil : digitsOf base s = []
  · rw [if_pos hnil, hnil]
    rfl
  · rw [if_neg hnil, if_pos]
    rw [Bool.not_eq_true', List.isEmpty_eq_false_iff]
    exact hnil

theorem parseUintAuto_eq (s : List UInt8) : parseUintAuto s = readNumber (s.dropWhile isBlank) := by
  rw [parseUintAuto, readNumber, numeralAt]
  by_cases hhex : hasHexMark (s.dropWhile isBlank)
  · rw [if_pos hhex, if_pos hhex]
    exact ite_digitLoop hexDigit_eq shift_or_eq _
  · rw [if_neg hhex, if_neg hhex]
    exact ite_digitLoop decDigit_eq (fun v d _ ↦ mul_add_eq v d) _

theorem digitsOf_eq_nil_iff (s : List UInt8) :
    digitsOf 10 s = [] ↔ s.getD 0 0 < 48 ∨ 57 < s.getD 0 0 := by
  cases s with
  | nil => exact ⟨fun _ ↦ .inl (by decide), fun _ ↦ rfl⟩
  | cons c s =>
    have hdigit : decDigit c = none ↔ c < 48 ∨ 57 < c := by
      rw [decDigit, ite_eq_right_iff, ← not_and_or.trans (or_congr UInt8.not_le UInt8.not_le)]
      exact ⟨fun h hc ↦ absurd (h hc) (Option.some_ne_none _), fun h hc ↦ absurd hc h⟩
    rw [List.getD_cons_zero, ← hdigit, decDigit_eq, Option.map_eq_none_iff]
    cases hc : digitValue 10 c with
    | none => exact ⟨fun _ ↦ rfl, fun _ ↦ digitsOf_cons_none hc s⟩
    | some d =>
      rw [digitsOf_cons_some hc]
      exact ⟨fun h ↦ absurd h (List.cons_ne_nil _ _), fun h ↦ absurd h (Option.some_ne_none d)⟩

theorem bxParseUintAuto_eq (s : List UInt8) :
    bxParseUintAuto s = readNumber (s.dropWhile bxIsSpace) := by
  rw [bxParseUintAuto, readNumber, numeralAt]
  by_cases hhex : hasHexMark (s.dropWhile bxIsSpace)
  · rw [if_pos hhex, if_pos hhex]
    exact ite_digitLoop bxHexDigit_eq shift_or_eq _
  · rw [if_neg hhex, if_neg hhex, digitLoop_eq decDigit_eq fun v d _ ↦ mul_add_eq v d, ofNat_mod]
    exact if_congr (digitsOf_eq_nil_iff _).symm rfl rfl

/-- **The two parsers.** For every text without carriage returns and line feeds, both give the same:
the number of the longest row of digits behind the blanks, modulo `2 ^ 32`, if there is a digit. -/
theorem parsers_agree (s : List UInt8) (hs : ∀ c ∈ s, c ≠ 13 ∧ c ≠ 10) :
    parseUintAuto s = bxParseUintAuto s ∧ parseUintAuto s = readNumber (s.dropWhile isBlank) := by
  have hsame : s.dropWhile bxIsSpace = s.dropWhile isBlank := by
    induction s with
    | nil => rfl
    | cons c s ih =>
      rw [List.forall_mem_cons] at hs
      have hc : bxIsSpace c = isBlank c := by
        simp [bxIsSpace, isBlank, hs.1.1, hs.1.2]
      rw [List.dropWhile_cons, List.dropWhile_cons, hc, ih hs.2]
  rw [bxParseUintAuto_eq, hsame, parseUintAuto_eq]
  exact ⟨rfl, rfl⟩

attribute [local instance (high)] List.decidableBAll

theorem parsers_agree_hex :
    parseUintAuto (cString " 0x1F ") = bxParseUintAuto (cString " 0x1F ") ∧
      parseUintAuto (cString " 0x1F ") = some 31 := by
  obtain ⟨hsame, hvalue⟩ := parsers_agree (cString " 0x1F ") (by decide)
  exact ⟨hsame, hvalue.trans (by decide)⟩

/-! ## The commands as they stand in the source -/

/-- What a line is taken for. The text of `csr rd` is the name of the register; a line that is none
of the console's own commands goes to `bootx_handle_command`. -/
inductive Command where
  | help
  | ticksOn
  | ticksOff
  | tick (n : UInt32)
  | tickUsage
  | uptime
  | memRd (addr lenb : UInt32)
  | memRdUsage
  | memWr (addr bytev : UInt32)
  | memWrUsage
  | csrRd (name : List UInt8)
  | reboot
  | poweroff
  | clear
  | uartbase
  | go (addr : UInt32)
  | goUsage
  | bootx (s : List UInt8)
deriving DecidableEq

/-- The two arguments, from behind the name of a command on. -/
def twoNumbers (p : List UInt8) : Option (UInt32 × UInt32) := do
  let a ← parseUintAuto p
  let p := (p.dropWhile fun c ↦ !isBlank c).dropWhile isBlank
  let b ← parseUintAuto p
  pure (a, b)

/-- `is_cmd_go_line`: what follows the command. -/
def isCmdGoLine (s : List UInt8) : Option (List UInt8) :=
  let s := s.dropWhile bxIsSpace
  if (s.getD 0 0 = 103 ∨ s.getD 0 0 = 71) ∧ (s.getD 1 0 = 111 ∨ s.getD 1 0 = 79) ∧
      (s.getD 2 0 = 0 ∨ bxIsSpace (s.getD 2 0)) then
    some ((s.drop 2).dropWhile bxIsSpace)
  else none

/-- The address behind `go`, up to a blank or a comment and at most 31 characters of it. -/
def goCommand (gp : List UInt8) : Command :=
  match parseUintAuto ((gp.takeWhile fun c ↦ !bxIsSpace c && c != 35).take 31) with
  | some a => .go a
  | none => .goUsage

/-- The tests of `handle_line`, in their order. -/
def dispatch (s : List UInt8) : Command :=
  if s = cString "help" then .help
  else if s = cString "ticks on" then .ticksOn
  else if s = cString "ticks off" then .ticksOff
  else if cString "tick " <+: s then (parseUintAuto (s.drop 5)).elim .tickUsage .tick
  else if s = cString "uptime" then .uptime
  else if cString "mem rd " <+: s then
    (twoNumbers (s.drop 7)).elim .memRdUsage fun r ↦ .memRd r.1 r.2
  else if cString "mem wr " <+: s then
    (twoNumbers (s.drop 7)).elim .memWrUsage fun r ↦ .memWr r.1 r.2
  else if cString "csr rd " <+: s then .csrRd ((s.drop 7).dropWhile isBlank)
  else if s = cString "reboot" then .reboot
  else if s = cString "poweroff" then .poweroff
  else if s = cString "clear" then .clear
  else if cString "uartbase" <+: s then .uartbase
  else (isCmdGoLine s).elim (.bootx s) goCommand

/-- `rtrim_current_line`: the line without blanks at its end. -/
def rtrim (line : List UInt8) : List UInt8 := line.rdropWhile isBlank

/-- `handle_line`, as far as the command goes; an empty line is none. -/
def handleLine (line : List UInt8) : Option Command :=
  if rtrim line = [] then none else some (dispatch (rtrim line))

/-! ## The arguments of `mem rd` and `mem wr` -/

/-- A numeral of the console, and its number. -/
inductive IsNumeral : List UInt8 → ℕ → Prop
  | decimal {A : List UInt8} (hA : A ≠ []) (hdigits : ∀ c ∈ A, (digitValue 10 c).isSome) :
      IsNumeral A (number 10 (A.filterMap (digitValue 10)))
  | hexadecimal {x : UInt8} {A : List UInt8} (hx : x = 120 ∨ x = 88) (hA : A ≠ [])
      (hdigits : ∀ c ∈ A, (digitValue 16 c).isSome) :
      IsNumeral (48 :: x :: A) (number 16 (A.filterMap (digitValue 16)))

/-- The two commands with two arguments. -/
inductive MemOp where
  | rd
  | wr

namespace MemOp

def name : MemOp → List UInt8
  | rd => cString "mem rd"
  | wr => cString "mem wr"

def command : MemOp → UInt32 → UInt32 → Command
  | rd => .memRd
  | wr => .memWr

def usage : MemOp → Command
  | rd => .memRdUsage
  | wr => .memWrUsage

end MemOp

theorem dispatch_blank (op : MemOp) (p : List UInt8) :
    dispatch (op.name ++ 32 :: p) = (twoNumbers p).elim op.usage fun r ↦ op.command r.1 r.2 := by
  cases op <;> rfl

theorem dispatch_tab (op : MemOp) (p : List UInt8) :
    dispatch (op.name ++ 9 :: p) = .bootx (op.name ++ 9 :: p) := by
  cases op <;> rfl

theorem eq_of_isBlank (h : isBlank c) : c = 32 ∨ c = 9 := of_decide_eq_true h

theorem digitValue_of_isBlank (h : isBlank c) (base : ℕ) : digitValue base c = none := by
  rcases eq_of_isBlank h with rfl | rfl <;> rfl

theorem not_isBlank_of_isSome (h : (digitValue base c).isSome) : isBlank c = false := by
  by_contra hblank
  rw [Bool.not_eq_false] at hblank
  rw [digitValue_of_isBlank hblank] at h
  exact Bool.false_ne_true h

/-- What may follow a numeral: nothing, or a blank. -/
def EndsNumeral (rest : List UInt8) : Prop := rest = [] ∨ ∃ c rest', rest = c :: rest' ∧ isBlank c

theorem EndsNumeral.digitsOf_eq (h : EndsNumeral rest) (base : ℕ) : digitsOf base rest = [] := by
  rcases h with rfl | ⟨c, rest', rfl, hc⟩
  · rfl
  · exact digitsOf_cons_none (digitValue_of_isBlank hc base) rest'

namespace IsNumeral

variable {A : List UInt8} {a : ℕ}

theorem not_isBlank (h : IsNumeral A a) : ∀ c ∈ A, isBlank c = false := by
  cases h with
  | decimal hA hdigits => exact fun c hc ↦ not_isBlank_of_isSome (hdigits c hc)
  | hexadecimal hx hA hdigits =>
    rw [List.forall_mem_cons, List.forall_mem_cons]
    refine ⟨rfl, ?_, fun c hc ↦ not_isBlank_of_isSome (hdigits c hc)⟩
    rcases hx with rfl | rfl <;> rfl

theorem ne_nil (h : IsNumeral A a) : A ≠ [] := by
  cases h with
  | decimal hA hdigits => exact hA
  | hexadecimal hx hA hdigits => exact List.cons_ne_nil _ _

theorem exists_cons (h : IsNumeral A a) : ∃ c A', A = c :: A' ∧ isBlank c = false := by
  obtain ⟨c, A', rfl⟩ := List.exists_cons_of_ne_nil h.ne_nil
  exact ⟨c, A', rfl, h.not_isBlank c List.mem_cons_self⟩

theorem filterMap_ne_nil (hA : A ≠ []) (hdigits : ∀ c ∈ A, (digitValue base c).isSome) :
    A.filterMap (digitValue base) ≠ [] := by
  obtain ⟨c, A', rfl⟩ := List.exists_cons_of_ne_nil hA
  obtain ⟨d, hd⟩ := Option.isSome_iff_exists.mp (hdigits c List.mem_cons_self)
  rw [List.filterMap_cons_some hd]
  exact List.cons_ne_nil _ _

theorem not_hasHexMark (hA : A ≠ []) (hdigits : ∀ c ∈ A, (digitValue 10 c).isSome)
    (hrest : EndsNumeral rest) : ¬hasHexMark (A ++ rest) := by
  obtain ⟨c, A', rfl⟩ := List.exists_cons_of_ne_nil hA
  rintro ⟨-, hmark⟩
  rw [List.cons_append, List.getD_cons_succ] at hmark
  cases A' with
  | nil =>
    rw [List.nil_append] at hmark
    rcases hrest with rfl | ⟨c', rest', rfl, hc'⟩
    · exact absurd hmark (by decide)
    · rw [List.getD_cons_zero] at hmark
      rcases eq_of_isBlank hc' with rfl | rfl <;> exact absurd hmark (by decide)
  | cons c' A' =>
    have hdigit := hdigits c' (List.mem_cons_of_mem _ List.mem_cons_self)
    rcases hmark with rfl | rfl <;> exact absurd hdigit (by decide)

theorem readNumber_append (h : IsNumeral A a) (hrest : EndsNumeral rest) :
    readNumber (A ++ rest) = some (.ofNat a) := by
  cases h with
  | decimal hA hdigits =>
    rw [readNumber, numeralAt, if_neg (not_hasHexMark hA hdigits hrest),
      digitsOf_append hdigits (hrest.digitsOf_eq 10), if_neg (filterMap_ne_nil hA hdigits), ofNat_mod]
  | @hexadecimal x A hx hA hdigits =>
    have hmark : hasHexMark (48 :: x :: A ++ rest) := ⟨rfl, hx⟩
    have hdrop : (48 :: x :: A ++ rest).drop 2 = A ++ rest := rfl
    rw [readNumber, numeralAt, if_pos hmark, hdrop, digitsOf_append hdigits (hrest.digitsOf_eq 16),
      if_neg (filterMap_ne_nil hA hdigits), ofNat_mod]

theorem dropWhile_isBlank (h : IsNumeral A a) {ws : List UInt8} (hws : ∀ c ∈ ws, isBlank c)
    (rest : List UInt8) : (ws ++ (A ++ rest)).dropWhile isBlank = A ++ rest := by
  obtain ⟨c, A', rfl, hc⟩ := h.exists_cons
  rw [List.dropWhile_append_of_pos hws, List.cons_append, List.dropWhile_cons_of_neg]
  rw [hc]
  exact Bool.false_ne_true

theorem parseUintAuto_append (h : IsNumeral A a) {ws : List UInt8} (hws : ∀ c ∈ ws, isBlank c)
    (hrest : EndsNumeral rest) : parseUintAuto (ws ++ (A ++ rest)) = some (.ofNat a) := by
  rw [parseUintAuto_eq, h.dropWhile_isBlank hws, h.readNumber_append hrest]

end IsNumeral

section Line

variable {ws₁ ws₂ A B : List UInt8} {a b : ℕ}

theorem endsNumeral_append (hne : ws₂ ≠ []) (hws : ∀ c ∈ ws₂, isBlank c) (rest : List UInt8) :
    EndsNumeral (ws₂ ++ rest) := by
  obtain ⟨c, ws, rfl⟩ := List.exists_cons_of_ne_nil hne
  exact .inr ⟨c, ws ++ rest, rfl, hws c List.mem_cons_self⟩

/-- With one blank before the first numeral, the second one is found. -/
theorem twoNumbers_one (hA : IsNumeral A a) (hB : IsNumeral B b) (hne : ws₂ ≠ [])
    (hws₂ : ∀ c ∈ ws₂, isBlank c) :
    twoNumbers (A ++ (ws₂ ++ B)) = some (.ofNat a, .ofNat b) := by
  have hfirst := hA.parseUintAuto_append (fun c hc ↦ absurd hc List.not_mem_nil)
    (endsNumeral_append hne hws₂ B)
  have hskip : (A ++ (ws₂ ++ B)).dropWhile (fun c ↦ !isBlank c) = ws₂ ++ B := by
    obtain ⟨c, ws, rfl⟩ := List.exists_cons_of_ne_nil hne
    have hc := hws₂ c List.mem_cons_self
    rw [List.dropWhile_append_of_pos (fun c hc ↦ by rw [hA.not_isBlank c hc]; rfl), List.cons_append,
      List.dropWhile_cons_of_neg (by rw [hc]; exact Bool.false_ne_true)]
  have hsecond := hB.dropWhile_isBlank hws₂ []
  rw [List.append_nil] at hsecond
  have hvalue := hB.parseUintAuto_append (fun c hc ↦ absurd hc List.not_mem_nil) (.inl rfl)
  rw [List.nil_append, List.append_nil] at hvalue
  rw [List.nil_append] at hfirst
  rw [twoNumbers, hfirst, hskip, hsecond]
  change (parseUintAuto B).bind (fun b ↦ some (_, b)) = _
  rw [hvalue]
  rfl

/-- With more than one, the first one is found twice. -/
theorem twoNumbers_more (hA : IsNumeral A a) (hne₁ : ws₁ ≠ []) (hws₁ : ∀ c ∈ ws₁, isBlank c)
    (hne₂ : ws₂ ≠ []) (hws₂ : ∀ c ∈ ws₂, isBlank c) :
    twoNumbers (ws₁ ++ (A ++ (ws₂ ++ B))) = some (.ofNat a, .ofNat a) := by
  have hends := endsNumeral_append hne₂ hws₂ B
  have hskip : (ws₁ ++ (A ++ (ws₂ ++ B))).dropWhile (fun c ↦ !isBlank c)
      = ws₁ ++ (A ++ (ws₂ ++ B)) := by
    obtain ⟨c, ws, rfl⟩ := List.exists_cons_of_ne_nil hne₁
    rw [List.cons_append, List.dropWhile_cons_of_neg]
    rw [hws₁ c List.mem_cons_self]
    exact Bool.false_ne_true
  have hvalue := hA.parseUintAuto_append (fun c hc ↦ absurd hc List.not_mem_nil) hends
  rw [List.nil_append] at hvalue
  rw [twoNumbers, hA.parseUintAuto_append hws₁ hends, hskip, hA.dropWhile_isBlank hws₁]
  change (parseUintAuto (A ++ (ws₂ ++ B))).bind (fun b ↦ some (_, b)) = _
  rw [hvalue]
  rfl

/-- The blanks at the end of a line are taken off, up to the numeral before them. -/
theorem rtrim_append (hB : IsNumeral B b) (s : List UInt8) {ws₃ : List UInt8}
    (hws₃ : ∀ c ∈ ws₃, isBlank c) : rtrim (s ++ B ++ ws₃) = s ++ B := by
  have hlast : isBlank (B.getLast hB.ne_nil) = false := hB.not_isBlank _ (List.getLast_mem _)
  have hsplit : s ++ B = s ++ B.dropLast ++ [B.getLast hB.ne_nil] := by
    rw [List.append_assoc, List.dropLast_append_getLast]
  rw [rtrim, List.rdropWhile, List.reverse_append,
    List.dropWhile_append_of_pos (fun c hc ↦ hws₃ c (List.mem_reverse.mp hc)), ← List.rdropWhile,
    hsplit, List.rdropWhile_concat_neg]
  rw [hlast]
  exact Bool.false_ne_true

end Line

theorem MemOp.command_inj (op : MemOp) {a b b' : UInt32} :
    op.command a b = op.command a b' ↔ b = b' := by
  cases op with
  | rd => rw [command, Command.memRd.injEq, and_iff_right rfl]
  | wr => rw [command, Command.memWr.injEq, and_iff_right rfl]

/-- **The arguments.** For every line with one of the two commands and two numerals: the command is
called with their numbers exactly if it is followed by a blank and that is the only one before the
first numeral, or the numbers are the same. -/
theorem mem_arguments_iff (op : MemOp) {ws₁ ws₂ ws₃ A B : List UInt8} {a b : ℕ}
    (hne₁ : ws₁ ≠ []) (hws₁ : ∀ c ∈ ws₁, isBlank c) (hA : IsNumeral A a) (ha : a < 2 ^ 32)
    (hne₂ : ws₂ ≠ []) (hws₂ : ∀ c ∈ ws₂, isBlank c) (hB : IsNumeral B b) (hb : b < 2 ^ 32)
    (hws₃ : ∀ c ∈ ws₃, isBlank c) :
    handleLine (op.name ++ ws₁ ++ A ++ ws₂ ++ B ++ ws₃)
        = some (op.command (.ofNat a) (.ofNat b)) ↔
      ws₁.head? = some 32 ∧ (ws₁.length = 1 ∨ a = b) := by
  obtain ⟨c, ws, rfl⟩ := List.exists_cons_of_ne_nil hne₁
  rw [List.forall_mem_cons] at hws₁
  have hline : op.name ++ c :: ws ++ A ++ ws₂ ++ B
      = op.name ++ c :: (ws ++ (A ++ (ws₂ ++ B))) := by
    simp only [List.append_assoc, List.cons_append]
  have hne : ¬op.name ++ c :: (ws ++ (A ++ (ws₂ ++ B))) = [] := by
    rw [List.append_eq_nil_iff]
    exact fun h ↦ List.cons_ne_nil _ _ h.2
  rw [handleLine, rtrim_append hB _ hws₃, hline, if_neg hne, List.head?_cons, Option.some_inj]
  rcases eq_of_isBlank hws₁.1 with rfl | rfl
  · rw [dispatch_blank, and_iff_right rfl, List.length_cons]
    cases ws with
    | nil =>
      rw [List.nil_append, twoNumbers_one hA hB hne₂ hws₂]
      exact ⟨fun _ ↦ .inl rfl, fun _ ↦ rfl⟩
    | cons c ws =>
      rw [twoNumbers_more hA (List.cons_ne_nil c ws) hws₁.2 hne₂ hws₂, Option.elim_some,
        op.command_inj, ← UInt32.toNat_inj, UInt32.toNat_ofNat_of_lt' ha,
        UInt32.toNat_ofNat_of_lt' hb, List.length_cons]
      exact (or_iff_right (by omega)).symm
  · rw [dispatch_tab]
    refine ⟨fun h ↦ ?_, fun h ↦ absurd h.1 (by decide)⟩
    cases op <;> cases h

theorem isNumeral_sixteen : IsNumeral (cString "0x10") 16 :=
  .hexadecimal (x := 120) (A := cString "10") (.inl rfl) (by decide) (by decide)

theorem isNumeral_four : IsNumeral (cString "4") 4 :=
  .decimal (A := cString "4") (by decide) (by decide)

theorem mem_arguments_one_blank :
    handleLine (cString "mem rd 0x10 4 ") = some (.memRd 16 4) :=
  (@mem_arguments_iff .rd [32] [32] [32] _ _ _ _ (by decide) (by decide) isNumeral_sixteen
    (by decide) (by decide) (by decide) isNumeral_four (by decide) (by decide)).mpr
      ⟨rfl, .inl rfl⟩

/-- With two blanks, the address is the length as well. -/
theorem mem_arguments_two_blanks :
    IsNumeral (cString "0x10") 16 ∧ IsNumeral (cString "4") 4 ∧
      handleLine (cString "mem rd  0x10 4") = some (.memRd 16 16) := by
  refine ⟨isNumeral_sixteen, isNumeral_four, ?_⟩
  decide

end CaribeOS.Commands
