import Mathlib.Data.List.Basic
import Mathlib.Data.List.GetD
import Mathlib.Data.UInt
import Mathlib.Logic.Function.Basic
import Mathlib.Tactic

/-!
# The row of a terminal

A row is an unbounded line of characters with a cursor. A carriage return takes the cursor to the
first column, a backspace takes it one to the left, and a printable character is written where the
cursor is, which then moves on.

A row `Shows` a text if it holds the text and blanks behind it, with the cursor right after the text.
This is kept by typing at the end and by erasing from the end. A text that is written over another
one together with enough blanks is what the row then holds, but the cursor is behind the blanks
(`Holds.rewrite`).
-/

namespace Terminal

/-- A row of characters and the column of the cursor. -/
structure Row where
  cell : ℕ → UInt8
  cursor : ℕ

/-- The characters that take up a cell. -/
def IsPrintable (b : UInt8) : Prop := 32 ≤ b ∧ b ≤ 126
  deriving Decidable

theorem IsPrintable.ne_zero {b : UInt8} (h : IsPrintable b) : b ≠ 0 := by
  rintro rfl
  exact absurd h.1 (by decide)

namespace Row

/-- What the terminal does with a byte. -/
def put (t : Row) (b : UInt8) : Row :=
  if b = 13 then { t with cursor := 0 }
  else if b = 8 then { t with cursor := t.cursor - 1 }
  else if IsPrintable b then ⟨Function.update t.cell t.cursor b, t.cursor + 1⟩
  else t

def write (t : Row) (bs : List UInt8) : Row := bs.foldl put t

/-- The text, and only blanks behind it. -/
def Holds (t : Row) (s : List UInt8) : Prop := ∀ i, t.cell i = s.getD i 32

/-- The text, only blanks behind it, and the cursor between the two. -/
structure Shows (t : Row) (s : List UInt8) : Prop where
  holds : t.Holds s
  cursor_eq : t.cursor = s.length

variable {t : Row} {s : List UInt8} {b : UInt8}

theorem write_append (t : Row) (bs bs' : List UInt8) :
    t.write (bs ++ bs') = (t.write bs).write bs' := List.foldl_append

theorem put_printable (t : Row) (hb : IsPrintable b) :
    t.put b = ⟨Function.update t.cell t.cursor b, t.cursor + 1⟩ := by
  have h13 : b ≠ 13 := by
    rintro rfl
    exact absurd hb.1 (by decide)
  have h8 : b ≠ 8 := by
    rintro rfl
    exact absurd hb.1 (by decide)
  rw [put, if_neg h13, if_neg h8, if_pos hb]

theorem write_printable (t : Row) {bs : List UInt8} (hbs : ∀ b ∈ bs, IsPrintable b) :
    (t.write bs).cursor = t.cursor + bs.length ∧
      ∀ i, (t.write bs).cell i
        = if i < t.cursor then t.cell i else bs.getD (i - t.cursor) (t.cell i) := by
  induction bs generalizing t with
  | nil =>
    refine ⟨rfl, fun i ↦ ?_⟩
    rw [List.getD_nil, ite_self]
    rfl
  | cons b bs ih =>
    rw [List.forall_mem_cons] at hbs
    obtain ⟨hcursor, hcell⟩ := ih (t.put b) hbs.2
    rw [put_printable t hbs.1] at hcursor hcell
    have hwrite : t.write (b :: bs)
        = (⟨Function.update t.cell t.cursor b, t.cursor + 1⟩ : Row).write bs := by
      rw [← put_printable t hbs.1]
      rfl
    rw [hwrite]
    refine ⟨?_, fun i ↦ ?_⟩
    · rw [hcursor, List.length_cons]
      dsimp only
      omega
    · rw [hcell]
      dsimp only
      rcases lt_trichotomy i t.cursor with hlt | rfl | hgt
      · rw [if_pos (by omega), if_pos hlt, Function.update_of_ne hlt.ne]
      · rw [if_pos (Nat.lt_succ_self _), if_neg (lt_irrefl _), Function.update_self, Nat.sub_self,
          List.getD_cons_zero]
      · rw [if_neg (by omega), if_neg hgt.not_gt, Function.update_of_ne hgt.ne',
          show i - t.cursor = i - (t.cursor + 1) + 1 by omega, List.getD_cons_succ]

theorem Shows.put (h : t.Shows s) (hb : IsPrintable b) : (t.put b).Shows (s ++ [b]) := by
  rw [put_printable t hb]
  refine ⟨fun i ↦ ?_, ?_⟩
  · dsimp only
    rw [h.cursor_eq]
    rcases lt_trichotomy i s.length with hlt | rfl | hgt
    · rw [Function.update_of_ne hlt.ne, List.getD_append _ _ _ _ hlt, h.holds i]
    · rw [Function.update_self, List.getD_append_right _ _ _ _ le_rfl, Nat.sub_self,
        List.getD_cons_zero]
    · rw [Function.update_of_ne hgt.ne', h.holds i, List.getD_eq_default _ _ hgt.le,
        List.getD_eq_default]
      rw [List.length_append, List.length_singleton]
      exact hgt
  · rw [List.length_append, h.cursor_eq]
    rfl

/-- A backspace, a blank and a backspace take the last character away. -/
theorem Shows.erase (h : t.Shows (s ++ [b])) : (t.write [8, 32, 8]).Shows s := by
  have hcursor : t.cursor = s.length + 1 := by
    rw [h.cursor_eq, List.length_append, List.length_singleton]
  have hwrite : t.write [8, 32, 8] = ⟨Function.update t.cell s.length 32, s.length⟩ := by
    have hblank : IsPrintable 32 := by decide
    change (({ t with cursor := t.cursor - 1 } : Row).put 32).put 8 = _
    rw [hcursor, put_printable _ hblank]
    rfl
  rw [hwrite]
  refine ⟨fun i ↦ ?_, rfl⟩
  dsimp only
  rcases lt_trichotomy i s.length with hlt | rfl | hgt
  · rw [Function.update_of_ne hlt.ne, h.holds i, List.getD_append _ _ _ _ hlt]
  · rw [Function.update_self, List.getD_eq_default _ _ le_rfl]
  · rw [Function.update_of_ne hgt.ne', h.holds i, List.getD_eq_default _ _ hgt.le,
      List.getD_eq_default]
    rw [List.length_append, List.length_singleton]
    exact hgt

/-- A text is written from the first column on, over one that is not longer than it is together with
the blanks that follow. -/
theorem Holds.rewrite (h : t.Holds s) {s' : List UInt8} (hs' : ∀ b ∈ s', IsPrintable b) {k : ℕ}
    (hk : s.length ≤ s'.length + k) :
    (t.write (13 :: (s' ++ List.replicate k 32))).Holds s' ∧
      (t.write (13 :: (s' ++ List.replicate k 32))).cursor = s'.length + k := by
  have hprint : ∀ b ∈ s' ++ List.replicate k 32, IsPrintable b := by
    intro b hb
    rcases List.mem_append.mp hb with hb | hb
    · exact hs' b hb
    · rw [List.eq_of_mem_replicate hb]
      decide
  have hcr : t.write (13 :: (s' ++ List.replicate k 32))
      = ({ t with cursor := 0 } : Row).write (s' ++ List.replicate k 32) := rfl
  obtain ⟨hcursor, hcell⟩ := write_printable { t with cursor := 0 } hprint
  rw [hcr]
  refine ⟨fun i ↦ ?_, ?_⟩
  · rw [hcell, if_neg (Nat.not_lt_zero i), Nat.sub_zero]
    rcases Nat.lt_or_ge i s'.length with hlt | hge
    · rw [List.getD_append _ _ _ _ hlt, List.getD_eq_getElem _ _ hlt, List.getD_eq_getElem _ _ hlt]
    · rw [List.getD_append_right _ _ _ _ hge, List.getD_eq_default s' _ hge]
      rcases Nat.lt_or_ge (i - s'.length) k with hlt | hge'
      · rw [List.getD_replicate _ hlt]
      · rw [List.getD_eq_default _ _ (by rw [List.length_replicate]; exact hge'), h i,
          List.getD_eq_default _ _ (by omega)]
  · rw [hcursor, List.length_append, List.length_replicate, Nat.zero_add]

end Row

end Terminal
