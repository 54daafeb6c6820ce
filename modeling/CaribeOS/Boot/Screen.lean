import CaribeOS.Boot.LineEditor

/-!
# The screen of the booter's console

The console echoes what is typed, erases with a backspace, a blank and a backspace, and writes the
line anew when one is recalled (`redraw_line` in `console.c`). The row of the terminal should be the
prompt and the line, with the cursor at the end of it.

The blanks that `redraw_line` writes over the rest of a longer line leave the cursor behind them. A
recall keeps the screen exactly when the new line is not shorter than the old one (`shows_press_iff`),
and so does a run when all its recalls are so (`screen_iff`).
-/

namespace CaribeOS.LineEditor

open ByteMemory (cString)
open Terminal (Row IsPrintable)
open Terminal.Row

/-! ## What is sent -/

def Event.byte? : Event → Option UInt8
  | .sent b => some b
  | .ran _ => none

/-- The bytes among some events. -/
def bytes (evs : List Event) : List UInt8 := evs.filterMap Event.byte?

/-- What the console sends while it receives some characters. -/
def sent (c : Console) : List UInt8 → List UInt8
  | [] => []
  | ch :: cs => bytes (consoleRxChar c ch).2 ++ sent (consoleRxChar c ch).1 cs

/-- What the row should be. -/
def shown (c : Console) : List UInt8 := cString "> " ++ lineText c

theorem bytes_map_sent (bs : List UInt8) : bytes (bs.map .sent) = bs := by
  rw [bytes, List.filterMap_map]
  exact List.filterMap_some

theorem bytes_append (evs evs' : List Event) : bytes (evs ++ evs') = bytes evs ++ bytes evs' :=
  List.filterMap_append

theorem sent_concat (c : Console) (cs : List UInt8) (ch : UInt8) :
    sent c (cs ++ [ch]) = sent c cs ++ bytes (consoleRxChar (after c cs) ch).2 := by
  induction cs generalizing c with
  | nil => rw [List.nil_append, sent, sent, sent, List.append_nil, List.nil_append]; rfl
  | cons x cs ih => rw [List.cons_append, sent, sent, ih, List.append_assoc]; rfl

variable {c : Console} {t : Row}

theorem length_shown (h : LineOk c.line c.len) : (shown c).length = c.len + 2 := by
  rw [shown, List.length_append, lineText, h.length_take, Nat.add_comm]
  rfl

/-! ## One key -/

/-- The line is written anew, and the blanks are as many as it is shorter. -/
theorem bytes_redrawLine (c : Console) :
    bytes (redrawLine c).2 = 13 :: (shown c ++ List.replicate (c.lastDrawnLen - c.len) 32) := by
  have hblanks : bytes (if c.len < c.lastDrawnLen
      then List.replicate (c.lastDrawnLen - c.len) (.sent 32) else [])
        = List.replicate (c.lastDrawnLen - c.len) 32 := by
    split_ifs with hless
    · rw [← List.map_replicate, bytes_map_sent]
    · rw [Nat.sub_eq_zero_of_le (Nat.not_lt.mp hless), List.replicate_zero]
      rfl
  rw [redrawLine, bytes_append, hblanks, bytes_append, bytes_append, bytes_map_sent, prompt, uartPuts,
    uartPuts, bytes_map_sent, bytes_map_sent, shown, List.append_assoc]
  rfl

theorem isPrintable_shown (h : LineOk c.line c.len) : ∀ ch ∈ shown c, IsPrintable ch := by
  have hprompt : ∀ ch ∈ cString "> ", IsPrintable ch := by
    rw [show cString "> " = [62, 32] from rfl]
    simp only [List.forall_mem_cons, List.not_mem_nil, false_imp_iff, implies_true, and_true]
    decide
  intro ch hch
  rcases List.mem_append.mp hch with hch | hch
  · exact hprompt ch hch
  · exact h.printable ch hch

theorem shows_redrawLine_iff {d : Console} (ht : t.Holds (shown c)) (hc : LineOk c.line c.len)
    (hd : LineOk d.line d.len) (hdrawn : d.lastDrawnLen = c.len) :
    (t.write (bytes (redrawLine d).2)).Shows (shown d) ↔ c.len ≤ d.len := by
  have hlong : (shown c).length ≤ (shown d).length + (c.len - d.len) := by
    rw [length_shown hc, length_shown hd]
    omega
  obtain ⟨hholds, hcursor⟩ := ht.rewrite (isPrintable_shown hd) hlong
  rw [bytes_redrawLine, hdrawn]
  constructor
  · intro h
    have := h.cursor_eq.symm.trans hcursor
    omega
  · intro hle
    refine ⟨hholds, ?_⟩
    rw [hcursor, Nat.sub_eq_zero_of_le hle, Nat.add_zero]

/-- The text that a key recalls. -/
def Editor.recalled (e : Editor) : Key → Option (List UInt8)
  | .up => if e.history = [] then none else some (e.history.getD e.older [])
  | .down => e.browsing.map fun p ↦ e.history.getD (p + 1) []
  | _ => none

/-- An arrow key does nothing, or it draws the line that it recalls. -/
theorem press_recalled (h : Valid c) {k : Key} (hk : k = .up ∨ k = .down) :
    press c k = (c, []) ∧ (abs c).recalled k = none ∨
      ∃ d, press c k = redrawLine d ∧ d.lastDrawnLen = c.len ∧ LineOk d.line d.len ∧
        (abs c).recalled k = some (lineText d) := by
  have hprintable : ∀ ch, k = .char ch → IsPrintable ch := by
    rintro ch rfl
    rcases hk with hk | hk <;> cases hk
  obtain ⟨hvalid, habs⟩ := h.press hprintable
  -- the line that is drawn is the line of the editor
  have hdraw : ∀ d, press c k = redrawLine d → d.lastDrawnLen = c.lastDrawnLen →
      (abs c).recalled k = some ((abs c).press k).line →
        ∃ d, press c k = redrawLine d ∧ d.lastDrawnLen = c.len ∧ LineOk d.line d.len ∧
          (abs c).recalled k = some (lineText d) := by
    intro d hd hdrawn hrecalled
    rw [hd] at hvalid habs
    refine ⟨d, hd, hdrawn.trans h.drawn, hvalid.line, ?_⟩
    rw [hrecalled, ← habs]
    rfl
  rcases hk with rfl | rfl
  · by_cases hcount : c.hist.count = 0
    · have hnil : (abs c).history = [] := Valid.entries_eq_nil_iff.mpr hcount
      exact .inl ⟨if_pos hcount, if_pos hnil⟩
    · have hnil : (abs c).history ≠ [] := mt Valid.entries_eq_nil_iff.mp hcount
      refine .inr (hdraw _ (if_neg hcount) rfl ?_)
      rw [Editor.recalled, Editor.press, if_neg hnil, if_neg hnil]
  · by_cases hneg : c.histPos < 0
    · have hb : (abs c).browsing = none := if_pos hneg
      refine .inl ⟨?_, ?_⟩
      · rw [press, histNext, if_pos hneg, ite_self]
      · rw [Editor.recalled, hb, Option.map_none]
    · have hb : (abs c).browsing = some c.histPos.toNat := if_neg hneg
      have hlt := h.pos_lt
      have hrecalled : (abs c).recalled .down = some ((abs c).press .down).line := by
        rw [Editor.recalled, Editor.press, hb, Option.map_some]
        dsimp only
        split_ifs with hmore
        · rfl
        · rw [List.getD_eq_default _ _ (Nat.not_lt.mp hmore)]
      have hcount : c.hist.count ≠ 0 := by omega
      by_cases hmore : c.histPos < (c.hist.count : ℤ) - 1
      · have hpress : press c .down = histRecallIndex { c with histPos := c.histPos + 1 }
            (c.histPos + 1).toNat := by
          rw [press, histNext, if_neg hcount, if_neg hneg, if_pos hmore]
        exact .inr (hdraw _ hpress rfl hrecalled)
      · have hpress : press c .down
            = redrawLine { c with histPos := -1, len := 0, line := c.line.set 0 0 } := by
          rw [press, histNext, if_neg hcount, if_neg hneg, if_neg hmore]
        exact .inr (hdraw _ hpress rfl hrecalled)

/-- **One key.** The screen stays right unless the key recalls a line that is shorter than the one
that it replaces. -/
theorem shows_press_iff (h : Valid c) (ht : t.Shows (shown c)) {k : Key}
    (hprintable : ∀ ch, k = .char ch → IsPrintable ch) (henter : k ≠ .enter) :
    (t.write (bytes (press c k).2)).Shows (shown (press c k).1) ↔
      ∀ s, (abs c).recalled k = some s → (lineText c).length ≤ s.length := by
  have hnothing : press c k = (c, []) → (abs c).recalled k = none →
      ((t.write (bytes (press c k).2)).Shows (shown (press c k).1) ↔
        ∀ s, (abs c).recalled k = some s → (lineText c).length ≤ s.length) := by
    intro hpress hrecalled
    rw [hpress, hrecalled]
    exact iff_of_true ht (by rintro s ⟨⟩)
  have harrow : k = .up ∨ k = .down →
      ((t.write (bytes (press c k).2)).Shows (shown (press c k).1) ↔
        ∀ s, (abs c).recalled k = some s → (lineText c).length ≤ s.length) := by
    intro hk
    rcases press_recalled h hk with ⟨hpress, hrecalled⟩ | ⟨d, hpress, hdrawn, hd, hrecalled⟩
    · exact hnothing hpress hrecalled
    · have hlen : (lineText d).length = d.len := hd.length_take
      have hshown : shown (redrawLine d).1 = shown d := rfl
      rw [hpress, hrecalled, hshown, shows_redrawLine_iff ht.holds h.line hd hdrawn, ← hlen,
        ← h.length_lineText]
      exact ⟨fun hle s hs ↦ Option.some_inj.mp hs ▸ hle, fun hle ↦ hle _ rfl⟩
  cases k with
  | up => exact harrow (.inl rfl)
  | down => exact harrow (.inr rfl)
  | enter => exact absurd rfl henter
  | erase =>
    by_cases hlen : 0 < c.len
    · have hsplit : lineText c ≠ [] := by
        rw [← List.length_pos_iff, h.length_lineText]
        exact hlen
      have hline : lineText (press c .erase).1 = (lineText c).dropLast :=
        congrArg Editor.line h.erase.2
      rw [shown, ← List.dropLast_append_getLast hsplit, ← List.append_assoc] at ht
      refine iff_of_true ?_ (by rintro s ⟨⟩)
      rw [shown, hline, press, erase, if_pos hlen]
      exact ht.erase
    · exact hnothing (if_neg hlen) rfl
  | char ch =>
    by_cases hlen : c.len < 127
    · have hline : lineText (insert c ch).1 = lineText c ++ [ch] :=
        congrArg Editor.line (h.insert hlen (hprintable ch rfl)).2
      refine iff_of_true ?_ (by rintro s ⟨⟩)
      rw [press, if_pos hlen, shown, hline, ← List.append_assoc]
      exact ht.put (hprintable ch rfl)
    · exact hnothing (if_neg hlen) rfl
  | none => exact hnothing rfl rfl

/-! ## Every run without Enter -/

/-- The character does not recall a line that is shorter than the present one. -/
def Keeps (c : Console) (ch : UInt8) : Prop :=
  ∀ s, (abs c).recalled (keyOf c.escState ch) = some s → (lineText c).length ≤ s.length

/-- The console after a prompt, with any history. -/
structure FreshPrompt (c : Console) : Prop extends Valid c where
  empty : c.len = 0
  normal : c.escState = .normal

theorem FreshPrompt.shown_eq (h : FreshPrompt c) : shown c = cString "> " := by
  rw [shown, lineText, h.empty, List.take_zero, List.append_nil]

theorem freshPrompt_enter (h : Valid c) {ch : UInt8} (hch : IsEnter c.escState ch) :
    FreshPrompt (consoleRxChar c ch).1 := by
  refine ⟨(h.consoleRxChar ch).1, ?_, ?_⟩
  · rw [consoleRxChar_eq, (keyOf_eq_enter_iff _ ch).mpr hch]
    rfl
  · rw [consoleRxChar_eq, hch.1]
    rcases hch.2 with rfl | rfl <;> rfl

theorem shows_concat_iff (h : Valid c) {cs : List UInt8} {ch : UInt8}
    (hshows : (t.write (sent c cs)).Shows (shown (after c cs)))
    (hch : ¬IsEnter (after c cs).escState ch) :
    (t.write (sent c (cs ++ [ch]))).Shows (shown (after c (cs ++ [ch]))) ↔
      Keeps (after c cs) ch := by
  have hkey : keyOf (after c cs).escState ch ≠ .enter := mt (keyOf_eq_enter_iff _ _).mp hch
  rw [sent_concat, after_concat, write_append, consoleRxChar_eq]
  exact shows_press_iff (h.after cs).1 hshows (fun _ hx ↦ isPrintable_of_keyOf hx) hkey

/-- **The screen is the line.** From a prompt on, as long as no line is entered, the row is the prompt
and the line with the cursor behind them, after every character, exactly when no character recalls a
line that is shorter than the one it replaces. -/
theorem screen_iff {c : Console} (h : FreshPrompt c) {t : Row} (ht : t.Shows (cString "> "))
    {cs : List UInt8} (hcs : (abs c).entered cs = []) :
    (∀ pre, pre <+: cs → (t.write (sent c pre)).Shows (shown (after c pre))) ↔
      ∀ pre ch, pre ++ [ch] <+: cs → Keeps (after c pre) ch := by
  induction cs using List.reverseRecOn with
  | nil =>
    refine iff_of_true (fun pre hpre ↦ ?_) fun pre ch hpre ↦ ?_
    · obtain rfl := List.prefix_nil.mp hpre
      rw [← h.shown_eq] at ht
      exact ht
    · exact absurd (List.prefix_nil.mp hpre) (by simp)
  | append_singleton cs ch ih =>
    rw [Editor.entered_concat, List.append_eq_nil_iff, ← (h.toValid.after cs).2] at hcs
    have hch : ¬IsEnter (after c cs).escState ch := by
      intro henter
      exact List.cons_ne_nil _ _ ((if_pos henter).symm.trans hcs.2)
    have ih := ih hcs.1
    constructor
    · intro hall pre x hpre
      have hbefore : ∀ pre, pre <+: cs → (t.write (sent c pre)).Shows (shown (after c pre)) :=
        fun pre hpre ↦ hall pre (hpre.trans (List.prefix_append _ _))
      rcases List.prefix_concat_iff.mp hpre with heq | hpre
      · obtain ⟨rfl, hx⟩ := List.append_inj' heq rfl
        obtain rfl := List.singleton_inj.mp hx
        exact (shows_concat_iff h.toValid (hbefore pre (List.prefix_refl pre)) hch).mp
          (hall _ (List.prefix_refl _))
      · exact ih.mp hbefore pre x hpre
    · intro hkeeps pre hpre
      have hbefore := ih.mpr fun pre x hpre ↦
        hkeeps pre x (hpre.trans (List.prefix_append _ _))
      rcases List.prefix_concat_iff.mp hpre with rfl | hpre
      · exact (shows_concat_iff h.toValid (hbefore cs (List.prefix_refl cs)) hch).mpr
          (hkeeps cs ch (List.prefix_refl _))
      · exact hbefore pre hpre

/-- The row after the prompt has been written to an empty one. -/
def promptRow : Row := ⟨fun i ↦ (cString "> ").getD i 32, 2⟩

theorem shows_promptRow : promptRow.Shows (cString "> ") := ⟨fun _ ↦ rfl, rfl⟩

/-- No line is entered without the characters of Enter. -/
theorem entered_eq_nil (e : Editor) {cs : List UInt8} (hcs : ∀ ch ∈ cs, ch ≠ 13 ∧ ch ≠ 10) :
    e.entered cs = [] := by
  induction cs generalizing e with
  | nil => rfl
  | cons ch cs ih =>
    rw [List.forall_mem_cons] at hcs
    have hch : ¬IsEnter e.esc ch := by
      rintro ⟨-, h | h⟩
      · exact hcs.1.1 h
      · exact hcs.1.2 h
    rw [Editor.entered, if_neg hch, List.nil_append]
    exact ih _ hcs.2

theorem after_nil (c : Console) : after c [] = c := rfl

theorem after_after (c : Console) (cs cs' : List UInt8) :
    after (after c cs) cs' = after c (cs ++ cs') := List.foldl_append.symm

theorem freshPrompt_single : FreshPrompt (after consoleInit [97, 13]) := by
  refine freshPrompt_enter (valid_after [97]) ⟨?_, .inl rfl⟩
  rfl

/-- With `a` as the only entry, `^P` at an empty line keeps the screen. -/
theorem screen_recall :
    FreshPrompt (after consoleInit [97, 13]) ∧
      ∀ pre, pre <+: [16] → (promptRow.write (sent (after consoleInit [97, 13]) pre)).Shows
        (shown (after (after consoleInit [97, 13]) pre)) := by
  have hcs : ∀ ch ∈ [(16 : UInt8)], ch ≠ 13 ∧ ch ≠ 10 := by
    simp only [List.forall_mem_singleton]
    decide
  refine ⟨freshPrompt_single,
    (screen_iff freshPrompt_single shows_promptRow (entered_eq_nil _ hcs)).mpr ?_⟩
  intro pre ch hpre s _
  have hnil : pre = [] := by
    have := hpre.length_le
    rw [List.length_append, List.length_singleton, List.length_singleton] at this
    exact List.length_eq_zero_iff.mp (by omega)
  rw [hnil, after_nil, freshPrompt_single.toValid.length_lineText, freshPrompt_single.empty]
  exact Nat.zero_le _

/-- With `a` as the only entry, the line `bb` and then `^P`: the row holds the prompt and `a`, but the
cursor is one further on. -/
theorem cursor_behind_blank :
    FreshPrompt (after consoleInit [97, 13]) ∧ promptRow.Shows (cString "> ") ∧
      (abs (after consoleInit [97, 13])).entered [98, 98, 16] = [] ∧
      ¬(promptRow.write (sent (after consoleInit [97, 13]) [98, 98, 16])).Shows
        (shown (after (after consoleInit [97, 13]) [98, 98, 16])) := by
  have hcs : ∀ ch ∈ ([98, 98, 16] : List UInt8), ch ≠ 13 ∧ ch ≠ 10 := by
    simp only [List.forall_mem_cons, List.not_mem_nil, false_imp_iff, implies_true, and_true]
    decide
  refine ⟨freshPrompt_single, shows_promptRow, entered_eq_nil _ hcs, ?_⟩
  have hrecalled : (abs (after (after consoleInit [97, 13]) [98, 98])).recalled .up = some [97] := by
    rw [after_after, abs_after]
    rfl
  have hesc : ∀ cs, (after (after consoleInit [97, 13]) cs).escState
      = (([97, 13] ++ cs).foldl Editor.rx .init).esc := by
    intro cs
    rw [after_after, escState_after]
  set c := after consoleInit [97, 13] with hc
  -- the two typed characters are echoed
  have htyped : ∀ cs, (after c cs).escState = .normal →
      (promptRow.write (sent c cs)).Shows (shown (after c cs)) →
        (promptRow.write (sent c (cs ++ [98]))).Shows (shown (after c (cs ++ [98]))) := by
    intro cs hnormal hshows
    have hch : ¬IsEnter (after c cs).escState 98 := by
      rintro ⟨-, h | h⟩ <;> exact absurd h (by decide)
    refine (shows_concat_iff freshPrompt_single.toValid hshows hch).mpr ?_
    intro s hs
    rw [hnormal] at hs
    cases hs
  have hshows : (promptRow.write (sent c [98, 98])).Shows (shown (after c [98, 98])) := by
    refine htyped [98] (hesc [98]) (htyped [] (hesc []) ?_)
    exact shows_promptRow
  have hch : ¬IsEnter (after c [98, 98]).escState 16 := by
    rintro ⟨-, h | h⟩ <;> exact absurd h (by decide)
  intro hbad
  have hkeeps := (shows_concat_iff freshPrompt_single.toValid hshows hch).mp hbad [97]
  exact absurd (hkeeps hrecalled) (by decide)

end CaribeOS.LineEditor
