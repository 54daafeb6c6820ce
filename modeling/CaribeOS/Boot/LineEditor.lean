import CaribeOS.Boot.Commands
import CaribeOS.Foundation.CBuffer
import CaribeOS.Foundation.RingBuffer
import CaribeOS.Foundation.Terminal

/-!
# The line editor of the booter's console

`console_rx_char` in `console.c` takes one received character. It edits a line of 127 characters, keeps
the last eight lines in a ring, recalls them on the arrow keys or `^P` and `^N`, and runs a line on
Enter. The line and the ring are buffers of 128 bytes with zero-terminated strings in them.

An `Editor` says what this is for: a text, a list of texts and a position in it. Every character is
a key in the state of the escape sequence (`consoleRxChar_eq`), and every key does to the console
what it does to the editor (`Valid.press`). So the history is the list of the last eight lines that
were entered (`history_last_eight`).

The position in the history is put back by a line that is run, not by an empty one. After an empty
line that was entered while browsing, the first recall goes on from the old position
(`up_after_enter_iff`).
-/

namespace CaribeOS.LineEditor

open ByteMemory (cString)
open CBuffer
open Commands (Command dispatch isBlank rtrim)
open Terminal (IsPrintable)

/-! ## The console as it stands in the source -/

/-- `esc_state`: none, `ESC`, or `ESC [`. -/
inductive EscState where
  | normal
  | esc
  | bracket
deriving DecidableEq

/-- The variables of the console. -/
structure Console where
  line : List UInt8
  len : ℕ
  hist : RingBuffer (List UInt8)
  histPos : ℤ
  lastDrawnLen : ℕ
  escState : EscState

/-- What the console does to the outside: it sends a byte, or it runs a command. -/
inductive Event where
  | sent (b : UInt8)
  | ran (cmd : Command)

def uartPuts (s : String) : List Event := (cString s).map .sent

def prompt : List Event := uartPuts "> "

def redrawLine (c : Console) : Console × List Event :=
  ({ c with lastDrawnLen := c.len },
    uartPuts "\r" ++ prompt ++ (c.line.take c.len).map .sent ++
      if c.len < c.lastDrawnLen then List.replicate (c.lastDrawnLen - c.len) (.sent 32) else [])

/-- The loop that compares two strings. -/
def same : List UInt8 → List UInt8 → Bool
  | [], b => b.headD 0 = 0
  | c :: a, b =>
    if c = 0 ∧ b.headD 0 = 0 then true else if c ≠ b.headD 0 then false else same a b.tail

def histStore (c : Console) (s : List UInt8) : Console :=
  if c.len = 0 then c
  else if 0 < c.hist.count ∧ same s (c.hist.slots.getD c.hist.lastSlot []) then c
  else { c with hist := c.hist.push (copyFrom (c.hist.slots.getD c.hist.next []) 0 s).2 }

def histRecallIndex (c : Console) (idx : ℕ) : Console × List Event :=
  let r := copyFrom c.line 0 (c.hist.slots.getD (c.hist.slot idx) [])
  redrawLine { c with len := r.1, line := r.2 }

def histPrev (c : Console) : Console × List Event :=
  if c.hist.count = 0 then (c, [])
  else
    let pos := if c.histPos < 0 then (c.hist.count : ℤ) - 1
      else if 0 < c.histPos then c.histPos - 1 else c.histPos
    histRecallIndex { c with histPos := pos } pos.toNat

def histNext (c : Console) : Console × List Event :=
  if c.hist.count = 0 then (c, [])
  else if c.histPos < 0 then (c, [])
  else if c.histPos < (c.hist.count : ℤ) - 1 then
    histRecallIndex { c with histPos := c.histPos + 1 } (c.histPos + 1).toNat
  else redrawLine { c with histPos := -1, len := 0, line := c.line.set 0 0 }

/-- The loop of `rtrim_current_line`. -/
def trimEnd (line : List UInt8) : ℕ → ℕ
  | 0 => 0
  | n + 1 => if isBlank (line.getD n 0) then trimEnd line n else n + 1

def rtrimCurrentLine (c : Console) : Console :=
  { c with line := c.line.set (trimEnd c.line c.len) 0, len := trimEnd c.line c.len }

/-- `handle_line`. The command itself leaves the console as it is. -/
def handleLine (c : Console) : Console × List Event :=
  let c := rtrimCurrentLine c
  if c.len = 0 then (c, [])
  else ({ histStore c c.line with histPos := -1 }, [.ran (dispatch (text c.line))])

/-- A console with empty buffers, as `console_init` finds it and leaves it. -/
def consoleInit : Console where
  line := List.replicate 128 0
  len := 0
  hist := ⟨List.replicate 8 (List.replicate 128 0), 0, 0⟩
  histPos := -1
  lastDrawnLen := 0
  escState := .normal

/-- `handle_esc_seq`; `none` is for the characters that it leaves to the caller. -/
def handleEscSeq (c : Console) (ch : UInt8) : Option (Console × List Event) :=
  match c.escState with
  | .normal => if ch = 27 then some ({ c with escState := .esc }, []) else none
  | .esc => some ({ c with escState := if ch = 91 then .bracket else .normal }, [])
  | .bracket =>
    let r := if ch = 65 then histPrev c else if ch = 66 then histNext c else (c, [])
    some ({ r.1 with escState := .normal }, r.2)

def enter (c : Console) : Console × List Event :=
  let r := handleLine { c with line := c.line.set c.len 0 }
  ({ r.1 with len := 0, line := r.1.line.set 0 0, lastDrawnLen := 0 },
    uartPuts "\r\n" ++ r.2 ++ prompt)

def erase (c : Console) : Console × List Event :=
  if 0 < c.len then
    ({ c with len := c.len - 1, lastDrawnLen := c.lastDrawnLen - 1 }, [.sent 8, .sent 32, .sent 8])
  else (c, [])

def insert (c : Console) (ch : UInt8) : Console × List Event :=
  ({ c with
      line := c.line.set c.len ch
      len := c.len + 1
      lastDrawnLen := if c.lastDrawnLen < c.len + 1 then c.len + 1 else c.lastDrawnLen },
    [.sent ch])

def consoleRxChar (c : Console) (ch : UInt8) : Console × List Event :=
  (handleEscSeq c ch).getD <|
    if ch = 16 then histPrev c
    else if ch = 14 then histNext c
    else if ch = 13 ∨ ch = 10 then enter c
    else if ch = 8 ∨ ch = 127 then erase c
    else if 32 ≤ ch ∧ ch ≤ 126 ∧ c.len < 127 then insert c ch
    else (c, [])

/-- The console after some characters. -/
def after (c : Console) (cs : List UInt8) : Console :=
  cs.foldl (fun c ch ↦ (consoleRxChar c ch).1) c

/-! ## Keys -/

inductive Key where
  | up
  | down
  | enter
  | erase
  | char (ch : UInt8)
  | none
deriving DecidableEq

/-- The key that a character completes. -/
def keyOf (s : EscState) (ch : UInt8) : Key :=
  match s with
  | .normal =>
    if ch = 16 then .up
    else if ch = 14 then .down
    else if ch = 13 ∨ ch = 10 then .enter
    else if ch = 8 ∨ ch = 127 then .erase
    else if 32 ≤ ch ∧ ch ≤ 126 then .char ch
    else .none
  | .esc => .none
  | .bracket => if ch = 65 then .up else if ch = 66 then .down else .none

def nextEsc (s : EscState) (ch : UInt8) : EscState :=
  match s with
  | .normal => if ch = 27 then .esc else .normal
  | .esc => if ch = 91 then .bracket else .normal
  | .bracket => .normal

/-- What the console does on a key. -/
def press (c : Console) : Key → Console × List Event
  | .up => histPrev c
  | .down => histNext c
  | .enter => enter c
  | .erase => erase c
  | .char ch => if c.len < 127 then insert c ch else (c, [])
  | .none => (c, [])

section Keys

variable (c : Console)

@[simp] theorem escState_histStore (s : List UInt8) : (histStore c s).escState = c.escState := by
  rw [histStore]
  split_ifs <;> rfl

@[simp] theorem escState_handleLine : (handleLine c).1.escState = c.escState := by
  rw [handleLine]
  split_ifs
  · rfl
  · exact escState_histStore _ _

@[simp] theorem escState_press (k : Key) : (press c k).1.escState = c.escState := by
  cases k with
  | up =>
    rw [press, histPrev]
    split_ifs <;> rfl
  | down =>
    rw [press, histNext]
    split_ifs <;> rfl
  | enter => exact escState_handleLine _
  | erase =>
    rw [press, erase]
    split_ifs <;> rfl
  | char ch =>
    rw [press]
    split_ifs <;> rfl
  | none => rfl

/-- **Characters are keys.** The escape sequence decides which one, and the key does the rest. -/
theorem consoleRxChar_eq (ch : UInt8) :
    consoleRxChar c ch = ({ (press c (keyOf c.escState ch)).1 with
      escState := nextEsc c.escState ch }, (press c (keyOf c.escState ch)).2) := by
  have hkeep : ∀ k, c.escState = .normal →
      ({ (press c k).1 with escState := .normal }, (press c k).2) = press c k := by
    intro k hesc
    rw [← hesc, ← escState_press c k]
  rw [consoleRxChar, handleEscSeq]
  rcases hesc : c.escState with _ | _ | _
  · by_cases h27 : ch = 27
    · subst h27
      rfl
    · rw [if_neg h27, Option.getD_none, nextEsc, if_neg h27, hkeep _ hesc, keyOf]
      split_ifs with h16 h14 hline herase hchar hprint hprint
      · rfl
      · rfl
      · rfl
      · rfl
      · rw [press, if_pos hchar.2.2]
      · exact absurd ⟨hchar.1, hchar.2.1⟩ hprint
      · rw [press, if_neg fun h ↦ hchar ⟨hprint.1, hprint.2, h⟩]
      · rfl
  · rfl
  · rw [Option.getD_some, keyOf]
    split_ifs <;> rfl

end Keys

/-! ## The buffers -/

/-- A buffer with a string of printable characters. -/
structure HoldsText (buf : List UInt8) : Prop where
  length_eq : buf.length = 128
  terminated : Terminated buf
  printable : ∀ ch ∈ text buf, IsPrintable ch

variable {buf : List UInt8} {ch : UInt8} {i : ℕ} {c : Console}

theorem HoldsText.length_text_lt (h : HoldsText buf) : (text buf).length < 128 := by
  rw [← h.length_eq]
  exact h.terminated.length_text_lt

variable {dst src : List UInt8} {n : ℕ} {k : Key}

theorem copyFrom_text (hdst : dst.length = 128) (hsrc : HoldsText src) :
    copyFrom dst 0 src
      = ((text src).length, text src ++ 0 :: dst.drop ((text src).length + 1)) := by
  have hfit : fitting (dst.length - 0) src = text src := by
    rw [fitting, hdst, List.take_of_length_le]
    exact Nat.le_of_lt_succ hsrc.length_text_lt
  rw [copyFrom_eq (by omega), hfit, List.take_zero, List.nil_append, Nat.zero_add]

theorem HoldsText.copy (hdst : dst.length = 128) (hsrc : HoldsText src) :
    HoldsText (copyFrom dst 0 src).2 ∧ text (copyFrom dst 0 src).2 = text src := by
  have htext : text (copyFrom dst 0 src).2 = text src := by
    rw [copyFrom_text hdst hsrc]
    exact text_append_zero (not_mem_text src) _
  refine ⟨⟨?_, ?_, ?_⟩, htext⟩
  · rw [length_copyFrom, hdst]
  · rw [copyFrom_text hdst hsrc]
    exact List.mem_append_right _ List.mem_cons_self
  · rw [htext]
    exact hsrc.printable

/-- The line: its characters are printable, and its last byte is never used for one. -/
structure LineOk (ln : List UInt8) (len : ℕ) : Prop where
  length_eq : ln.length = 128
  last : ln[127]? = some 0
  len_le : len ≤ 127
  printable : ∀ ch ∈ ln.take len, IsPrintable ch

theorem same_eq (a b : List UInt8) : same a b = decide (text a = text b) := by
  induction a generalizing b with
  | nil =>
    cases b with
    | nil => rfl
    | cons d b =>
      by_cases hd : d = 0
      · subst hd
        rfl
      · rw [same, text_cons_of_ne hd]
        simp [hd, text]
  | cons c a ih =>
    rw [same]
    cases b with
    | nil =>
      by_cases hc : c = 0
      · subst hc
        rfl
      · rw [text_cons_of_ne hc]
        simp [hc, text]
    | cons d b =>
      rw [List.headD_cons, List.tail_cons, ih]
      by_cases hd : d = 0 <;> by_cases hc : c = 0
      · subst hd hc
        rfl
      · rw [text_cons_of_ne hc]
        simp [hc, hd]
      · rw [text_cons_of_ne hd]
        simp [hc, hd, Ne.symm hd]
      · rw [text_cons_of_ne hc, text_cons_of_ne hd]
        by_cases hcd : c = d <;> simp [hc, hd, hcd]

theorem trimEnd_le (ln : List UInt8) (n : ℕ) : trimEnd ln n ≤ n := by
  induction n with
  | zero => exact le_rfl
  | succ n ih =>
    rw [trimEnd]
    split_ifs
    · exact ih.trans n.le_succ
    · exact le_rfl

theorem take_trimEnd {ln : List UInt8} (hn : n ≤ ln.length) :
    ln.take (trimEnd ln n) = rtrim (ln.take n) := by
  induction n with
  | zero => rfl
  | succ n ih =>
    have hget : ln[n]? = some (ln.getD n 0) := by
      rw [List.getD_eq_getElem?_getD, List.getElem?_eq_getElem (by omega)]
      rfl
    have htake : ln.take (n + 1) = ln.take n ++ [ln.getD n 0] := by
      rw [List.take_add_one, hget]
      rfl
    rw [trimEnd, rtrim, htake]
    split_ifs with hblank
    · rw [List.rdropWhile_concat_pos _ _ _ hblank]
      exact ih (by omega)
    · rw [List.rdropWhile_concat_neg _ _ _ hblank, htake]

namespace LineOk

variable {ln : List UInt8} {len : ℕ}

theorem terminated (h : LineOk ln len) : Terminated ln := List.mem_of_getElem? h.last

theorem length_take (h : LineOk ln len) : (ln.take len).length = len := by
  rw [List.length_take, h.length_eq]
  have := h.len_le
  omega

theorem of_le (h : LineOk ln len) (hn : n ≤ len) : LineOk ln n where
  length_eq := h.length_eq
  last := h.last
  len_le := hn.trans h.len_le
  printable ch hch := h.printable ch (List.take_subset_take_left ln hn hch)

theorem set_zero (h : LineOk ln len) : LineOk (ln.set len 0) len where
  length_eq := by rw [List.length_set, h.length_eq]
  last := by
    rw [List.getElem?_set, h.length_eq, h.last]
    split_ifs
    · rfl
    · omega
    · rfl
  len_le := h.len_le
  printable := by
    rw [List.take_set_of_le le_rfl]
    exact h.printable

theorem text_set_zero (h : LineOk ln len) : text (ln.set len 0) = ln.take len := by
  have hlt : len < ln.length := by
    rw [h.length_eq]
    exact Nat.lt_succ_of_le h.len_le
  rw [List.set_eq_take_append_cons_drop, if_pos hlt]
  exact text_append_zero (fun hz ↦ (h.printable 0 hz).ne_zero rfl) _

theorem insert (h : LineOk ln len) (hlt : len < 127) (hch : IsPrintable ch) :
    LineOk (ln.set len ch) (len + 1) ∧ (ln.set len ch).take (len + 1) = ln.take len ++ [ch] := by
  have htake : (ln.set len ch).take (len + 1) = ln.take len ++ [ch] := by
    rw [List.take_add_one, List.take_set_of_le le_rfl, List.getElem?_set_self]
    · rfl
    · rw [h.length_eq]
      omega
  refine ⟨⟨?_, ?_, hlt, ?_⟩, htake⟩
  · rw [List.length_set, h.length_eq]
  · rw [List.getElem?_set_ne (by omega), h.last]
  · rw [htake]
    intro x hx
    rcases List.mem_append.mp hx with hx | hx
    · exact h.printable x hx
    · rwa [List.mem_singleton.mp hx]

theorem take_sub_one (h : LineOk ln len) : ln.take (len - 1) = (ln.take len).dropLast := by
  rw [List.dropLast_take]
  rw [h.length_eq]
  have := h.len_le
  omega

theorem copyFrom (h : LineOk ln len) (hbuf : HoldsText buf) :
    LineOk (CBuffer.copyFrom ln 0 buf).2 (CBuffer.copyFrom ln 0 buf).1 ∧
      (CBuffer.copyFrom ln 0 buf).2.take (CBuffer.copyFrom ln 0 buf).1 = text buf := by
  have heq := copyFrom_text h.length_eq hbuf
  have htake : (CBuffer.copyFrom ln 0 buf).2.take (CBuffer.copyFrom ln 0 buf).1 = text buf := by
    rw [heq]
    exact List.take_left
  refine ⟨⟨?_, getElem?_copyFrom h.length_eq h.last 0 buf, ?_, ?_⟩, htake⟩
  · rw [length_copyFrom, h.length_eq]
  · rw [heq]
    exact Nat.le_of_lt_succ hbuf.length_text_lt
  · rw [htake]
    exact hbuf.printable

end LineOk

/-! ## The history -/

/-- The texts of the history, the oldest first. -/
def entries (h : RingBuffer (List UInt8)) : List (List UInt8) := (h.contents []).map text

structure HistOk (h : RingBuffer (List UInt8)) : Prop where
  wf : h.Wf
  size_eq : h.size = 8
  buffers : ∀ buf ∈ h.slots, HoldsText buf

@[simp] theorem length_entries (h : RingBuffer (List UInt8)) : (entries h).length = h.count := by
  rw [entries, List.length_map, RingBuffer.length_contents]

namespace HistOk

variable {h : RingBuffer (List UInt8)}

theorem holdsText (hh : HistOk h) (hi : i < h.size) : HoldsText (h.slots.getD i []) := by
  rw [List.getD_eq_getElem _ _ hi]
  exact hh.buffers _ (List.getElem_mem hi)

theorem getElem?_entries (hi : i < h.count) :
    (entries h)[i]? = some (text (h.slots.getD (h.slot i) [])) := by
  rw [entries, List.getElem?_map, RingBuffer.getElem?_contents hi]
  rfl

theorem getLast?_entries (hh : HistOk h) (hcount : 0 < h.count) :
    (entries h).getLast? = some (text (h.slots.getD h.lastSlot [])) := by
  rw [entries, List.getLast?_map, hh.wf.getLast?_contents hcount]
  rfl

theorem push (hh : HistOk h) (hbuf : HoldsText buf) : HistOk (h.push buf) where
  wf := hh.wf.push buf
  size_eq := (RingBuffer.size_push buf).trans hh.size_eq
  buffers b hb := by
    rcases List.mem_or_eq_of_mem_set hb with hb | rfl
    · exact hh.buffers b hb
    · exact hbuf

theorem entries_push (hh : HistOk h) (buf : List UInt8) :
    entries (h.push buf) = (entries h ++ [text buf]).rtake 8 := by
  rw [entries, hh.wf.contents_push, hh.size_eq, List.rtake, List.map_drop, List.map_append,
    ← List.length_map text, List.map_append]
  rfl

end HistOk

/-! ## What the editor is for -/

/-- A text, the texts that were entered before, and the one of them that was recalled last. -/
structure Editor where
  line : List UInt8
  history : List (List UInt8)
  browsing : Option ℕ
  esc : EscState
deriving DecidableEq

/-- A text is remembered unless it repeats the last one. -/
def remember (history : List (List UInt8)) (s : List UInt8) : List (List UInt8) :=
  if history.getLast? = some s then history else (history ++ [s]).rtake 8

namespace Editor

def init : Editor := ⟨[], [], none, .normal⟩

/-- The entry that is one further back. -/
def older (e : Editor) : ℕ := e.browsing.elim (e.history.length - 1) (· - 1)

def press (e : Editor) : Key → Editor
  | .up =>
    if e.history = [] then e
    else { e with browsing := some e.older, line := e.history.getD e.older [] }
  | .down =>
    match e.browsing with
    | none => e
    | some p =>
      if p + 1 < e.history.length then
        { e with browsing := some (p + 1), line := e.history.getD (p + 1) [] }
      else { e with browsing := none, line := [] }
  | .enter =>
    if rtrim e.line = [] then { e with line := [] }
    else { e with line := [], history := remember e.history (rtrim e.line), browsing := none }
  | .erase => { e with line := e.line.dropLast }
  | .char ch => if e.line.length < 127 then { e with line := e.line ++ [ch] } else e
  | .none => e

def rx (e : Editor) (ch : UInt8) : Editor :=
  { e.press (keyOf e.esc ch) with esc := nextEsc e.esc ch }

end Editor

/-- The text of the line. -/
def lineText (c : Console) : List UInt8 := c.line.take c.len

/-- The editor that a console implements. -/
def abs (c : Console) : Editor where
  line := lineText c
  history := entries c.hist
  browsing := if c.histPos < 0 then none else some c.histPos.toNat
  esc := c.escState

/-- The states of the console. -/
structure Valid (c : Console) : Prop where
  line : LineOk c.line c.len
  hist : HistOk c.hist
  pos_ge : -1 ≤ c.histPos
  pos_lt : c.histPos < c.hist.count
  drawn : c.lastDrawnLen = c.len

/-! ## Every key does to the console what it does to the editor -/

namespace Valid

variable {c : Console}

theorem entries_eq_nil_iff : entries c.hist = [] ↔ c.hist.count = 0 := by
  rw [← List.length_eq_zero_iff, length_entries]

theorem withPos (h : Valid c) {pos : ℤ} (hge : -1 ≤ pos) (hlt : pos < c.hist.count) :
    Valid { c with histPos := pos } := ⟨h.line, h.hist, hge, hlt, h.drawn⟩

theorem histRecallIndex (h : Valid c) (hi : i < c.hist.count) :
    Valid (histRecallIndex c i).1 ∧
      abs (LineEditor.histRecallIndex c i).1
        = { abs c with line := (entries c.hist).getD i [] } := by
  have hbuf := h.hist.holdsText (h.hist.wf.slot_lt i)
  obtain ⟨hline, htake⟩ := h.line.copyFrom hbuf
  refine ⟨⟨hline, h.hist, h.pos_ge, h.pos_lt, rfl⟩, ?_⟩
  have hget : (entries c.hist).getD i [] = text (c.hist.slots.getD (c.hist.slot i) []) := by
    rw [List.getD_eq_getElem?_getD, HistOk.getElem?_entries hi]
    rfl
  rw [hget, ← htake]
  rfl

theorem histPrev (h : Valid c) :
    Valid (histPrev c).1 ∧ abs (LineEditor.histPrev c).1 = (abs c).press .up := by
  rw [LineEditor.histPrev, Editor.press]
  by_cases hcount : c.hist.count = 0
  · rw [if_pos hcount, if_pos (show (abs c).history = [] from entries_eq_nil_iff.mpr hcount)]
    exact ⟨h, rfl⟩
  rw [if_neg hcount, if_neg (show (abs c).history ≠ [] from mt entries_eq_nil_iff.mp hcount)]
  have hlt := h.pos_lt
  -- the position of the entry, as the source and as the editor counts it
  have hpos : ∀ pos : ℤ, 0 ≤ pos → pos < c.hist.count → (abs c).older = pos.toNat →
      Valid (LineEditor.histRecallIndex { c with histPos := pos } pos.toNat).1 ∧
        abs (LineEditor.histRecallIndex { c with histPos := pos } pos.toNat).1
          = { abs c with
              browsing := some (abs c).older, line := (abs c).history.getD (abs c).older [] } := by
    intro pos hpos hposlt hold
    obtain ⟨hvalid, habs⟩ := (h.withPos (by omega) hposlt).histRecallIndex
      (show pos.toNat < c.hist.count by omega)
    refine ⟨hvalid, ?_⟩
    rw [habs, hold]
    simp only [abs, if_neg (show ¬pos < 0 by omega)]
  apply hpos
  · split_ifs <;> omega
  · split_ifs <;> omega
  · rw [Editor.older]
    simp only [abs]
    split_ifs with hneg hback
    · rw [Option.elim_none, length_entries]
      omega
    · rw [Option.elim_some]
      omega
    · rw [Option.elim_some]
      omega

theorem histNext (h : Valid c) :
    Valid (histNext c).1 ∧ abs (LineEditor.histNext c).1 = (abs c).press .down := by
  have hlt := h.pos_lt
  rw [LineEditor.histNext]
  by_cases hneg : c.histPos < 0
  · have hbrowsing : (abs c).browsing = none := if_pos hneg
    rw [if_pos hneg, ite_self, Editor.press, hbrowsing]
    exact ⟨h, rfl⟩
  have hbrowsing : (abs c).browsing = some c.histPos.toNat := if_neg hneg
  have hlength : (abs c).history.length = c.hist.count := length_entries _
  rw [if_neg (by omega), if_neg hneg, Editor.press, hbrowsing]
  dsimp only
  by_cases hmore : c.histPos < (c.hist.count : ℤ) - 1
  · have hnat : (c.histPos + 1).toNat = c.histPos.toNat + 1 := by omega
    obtain ⟨hvalid, habs⟩ := (h.withPos (show -1 ≤ c.histPos + 1 by omega) (by omega)).histRecallIndex
      (show c.histPos.toNat + 1 < c.hist.count by omega)
    rw [if_pos hmore, if_pos (by omega), hnat]
    refine ⟨hvalid, ?_⟩
    rw [habs]
    simp only [abs, if_neg (show ¬c.histPos + 1 < 0 by omega), hnat]
  · rw [if_neg hmore, if_neg (by omega)]
    have hcount : (-1 : ℤ) < c.hist.count := by omega
    exact ⟨⟨(h.line.of_le (Nat.zero_le _)).set_zero, h.hist, le_rfl, hcount, rfl⟩, rfl⟩

theorem erase (h : Valid c) :
    Valid (erase c).1 ∧ abs (LineEditor.erase c).1 = (abs c).press .erase := by
  rw [LineEditor.erase, Editor.press]
  have htake : (lineText c).dropLast = c.line.take (c.len - 1) := h.line.take_sub_one.symm
  split_ifs with hlen
  · refine ⟨⟨h.line.of_le (Nat.sub_le _ _), h.hist, h.pos_ge, h.pos_lt, ?_⟩, ?_⟩
    · exact congrArg (· - 1) h.drawn
    · simp only [abs, htake]
      rfl
  · refine ⟨h, ?_⟩
    have hnil : lineText c = [] := by
      rw [lineText, Nat.eq_zero_of_not_pos hlen, List.take_zero]
    simp only [abs, hnil, List.dropLast_nil]

theorem length_lineText (h : Valid c) : (lineText c).length = c.len := h.line.length_take

theorem insert (h : Valid c) (hlt : c.len < 127) (hch : IsPrintable ch) :
    Valid (insert c ch).1 ∧
      abs (LineEditor.insert c ch).1 = { abs c with line := lineText c ++ [ch] } := by
  obtain ⟨hline, htake⟩ := h.line.insert hlt hch
  refine ⟨⟨hline, h.hist, h.pos_ge, h.pos_lt, ?_⟩, ?_⟩
  · rw [LineEditor.insert]
    rw [h.drawn, if_pos (Nat.lt_succ_self _)]
  · rw [lineText, ← htake]
    rfl

theorem rtrimCurrentLine (h : Valid c) :
    LineOk (rtrimCurrentLine c).line (rtrimCurrentLine c).len ∧
      text (LineEditor.rtrimCurrentLine c).line = rtrim (lineText c) ∧
      lineText (LineEditor.rtrimCurrentLine c) = rtrim (lineText c) := by
  have hle := trimEnd_le c.line c.len
  have hline := h.line.of_le hle
  have htake : c.line.take (trimEnd c.line c.len) = rtrim (lineText c) := by
    refine take_trimEnd ?_
    rw [h.line.length_eq]
    exact h.line.len_le.trans (Nat.le_succ _)
  refine ⟨hline.set_zero, ?_, ?_⟩
  · rw [← htake]
    exact hline.text_set_zero
  · rw [← htake]
    exact List.take_set_of_le le_rfl

theorem histStore {c : Console} (hl : LineOk c.line c.len) (hh : HistOk c.hist)
    (htext : text c.line = lineText c) (hlen : c.len ≠ 0) :
    ∃ hist, histStore c c.line = { c with hist := hist } ∧ HistOk hist ∧
      entries hist = remember (entries c.hist) (lineText c) := by
  have hbuf : HoldsText c.line := ⟨hl.length_eq, hl.terminated, by rw [htext]; exact hl.printable⟩
  obtain ⟨hcopy, hcopied⟩ := hbuf.copy (hh.holdsText hh.wf.next_lt).length_eq
  -- the comparison is with the last text, if there is one
  have hsame : (0 < c.hist.count ∧ same c.line (c.hist.slots.getD c.hist.lastSlot []) = true) ↔
      (entries c.hist).getLast? = some (lineText c) := by
    rw [same_eq, decide_eq_true_iff, htext]
    rcases Nat.eq_zero_or_pos c.hist.count with hzero | hpos
    · rw [entries_eq_nil_iff.mpr hzero, hzero]
      simp
    · rw [hh.getLast?_entries hpos, Option.some_inj]
      exact ⟨fun h ↦ h.2.symm, fun h ↦ ⟨hpos, h.symm⟩⟩
  rw [LineEditor.histStore, if_neg hlen, remember]
  by_cases hrepeat : (entries c.hist).getLast? = some (lineText c)
  · rw [if_pos (hsame.mpr hrepeat), if_pos hrepeat]
    exact ⟨c.hist, rfl, hh, rfl⟩
  · rw [if_neg (mt hsame.mp hrepeat), if_neg hrepeat]
    refine ⟨_, rfl, hh.push hcopy, ?_⟩
    rw [hh.entries_push, hcopied, htext]

theorem len_rtrimCurrentLine (h : Valid c) :
    (LineEditor.rtrimCurrentLine c).len = 0 ↔ rtrim (lineText c) = [] := by
  obtain ⟨hline, -, htrim⟩ := h.rtrimCurrentLine
  rw [← htrim, ← List.length_eq_zero_iff, lineText, hline.length_take]

/-- `handle_line`, apart from the line that it leaves for the caller to clear. -/
theorem handleLine (h : Valid c) :
    LineOk (handleLine c).1.line (handleLine c).1.len ∧ HistOk (handleLine c).1.hist ∧
      -1 ≤ (LineEditor.handleLine c).1.histPos ∧
      (LineEditor.handleLine c).1.histPos < (LineEditor.handleLine c).1.hist.count ∧
      { abs (LineEditor.handleLine c).1 with line := [] } = (abs c).press .enter := by
  obtain ⟨hline, htext, htrim⟩ := h.rtrimCurrentLine
  have hlen := h.len_rtrimCurrentLine
  rw [LineEditor.handleLine, Editor.press]
  by_cases hblank : rtrim (lineText c) = []
  · rw [if_pos (hlen.mpr hblank), if_pos (show rtrim (abs c).line = [] from hblank)]
    exact ⟨hline, h.hist, h.pos_ge, h.pos_lt, rfl⟩
  · obtain ⟨hist, heq, hok, hentries⟩ :=
      histStore hline h.hist (htext.trans htrim.symm) (mt hlen.mp hblank)
    rw [if_neg (mt hlen.mp hblank), if_neg (show rtrim (abs c).line ≠ [] from hblank), heq]
    have hcount : (-1 : ℤ) < hist.count := by omega
    refine ⟨hline, hok, le_rfl, hcount, ?_⟩
    simp only [abs, hentries, htrim]
    rfl

/-- The terminator that Enter puts changes nothing of the text. -/
theorem terminate (h : Valid c) :
    Valid { c with line := c.line.set c.len 0 } ∧
      abs { c with line := c.line.set c.len 0 } = abs c := by
  refine ⟨⟨h.line.set_zero, h.hist, h.pos_ge, h.pos_lt, h.drawn⟩, ?_⟩
  have htake : (c.line.set c.len 0).take c.len = c.line.take c.len := List.take_set_of_le le_rfl
  simp only [abs, lineText, htake]

theorem enter (h : Valid c) :
    Valid (enter c).1 ∧ abs (LineEditor.enter c).1 = (abs c).press .enter := by
  obtain ⟨hvalid, hsame⟩ := h.terminate
  obtain ⟨hline, hhist, hge, hlt, habs⟩ := hvalid.handleLine
  rw [← hsame, ← habs]
  exact ⟨⟨(hline.of_le (Nat.zero_le _)).set_zero, hhist, hge, hlt, rfl⟩, rfl⟩

/-- **One key.** -/
theorem press (h : Valid c) (hk : ∀ ch, k = .char ch → IsPrintable ch) :
    Valid (press c k).1 ∧ abs (LineEditor.press c k).1 = (abs c).press k := by
  cases k with
  | up => exact h.histPrev
  | down => exact h.histNext
  | enter => exact h.enter
  | erase => exact h.erase
  | char ch =>
    rw [LineEditor.press, Editor.press]
    have hlength : (abs c).line.length = c.len := h.length_lineText
    rw [hlength]
    split_ifs with hlt
    · exact h.insert hlt (hk ch rfl)
    · exact ⟨h, rfl⟩
  | none => exact ⟨h, rfl⟩

end Valid

theorem isPrintable_of_keyOf {s : EscState} {x : UInt8} (h : keyOf s ch = .char x) :
    IsPrintable x := by
  cases s with
  | normal =>
    rw [keyOf] at h
    split_ifs at h with _ _ _ _ hprint
    cases h
    exact hprint
  | esc => cases h
  | bracket =>
    rw [keyOf] at h
    split_ifs at h

/-- **One character.** -/
theorem Valid.consoleRxChar (h : Valid c) (ch : UInt8) :
    Valid (consoleRxChar c ch).1 ∧ abs (consoleRxChar c ch).1 = (abs c).rx ch := by
  obtain ⟨hvalid, habs⟩ := h.press fun _ hx ↦ isPrintable_of_keyOf hx
  rw [consoleRxChar_eq, Editor.rx]
  refine ⟨⟨hvalid.line, hvalid.hist, hvalid.pos_ge, hvalid.pos_lt, hvalid.drawn⟩, ?_⟩
  rw [show (abs c).esc = c.escState from rfl, ← habs]
  rfl

theorem after_concat (c : Console) (cs : List UInt8) (ch : UInt8) :
    after c (cs ++ [ch]) = (consoleRxChar (after c cs) ch).1 := by
  rw [after, List.foldl_concat]
  rfl

/-- **Every run.** The console is the editor, whatever it receives. -/
theorem Valid.after (h : Valid c) (cs : List UInt8) :
    Valid (after c cs) ∧ abs (LineEditor.after c cs) = cs.foldl Editor.rx (abs c) := by
  induction cs using List.reverseRecOn with
  | nil => exact ⟨h, rfl⟩
  | append_singleton cs ch ih =>
    obtain ⟨hvalid, habs⟩ := ih.1.consoleRxChar ch
    rw [after_concat, List.foldl_concat, ← ih.2]
    exact ⟨hvalid, habs⟩

theorem holdsText_zeros : HoldsText (List.replicate 128 0) where
  length_eq := List.length_replicate
  terminated := List.mem_replicate.mpr ⟨by decide, rfl⟩
  printable := by
    exact List.forall_mem_nil _

theorem valid_consoleInit : Valid consoleInit where
  line :=
    ⟨List.length_replicate, List.getElem?_replicate_of_lt (by decide), Nat.zero_le _,
      List.forall_mem_nil _⟩
  hist := by
    have hsize : consoleInit.hist.size = 8 := List.length_replicate
    refine ⟨⟨?_, ?_, ?_, fun _ ↦ rfl⟩, hsize, ?_⟩
    · rw [hsize]
      decide
    · exact Nat.zero_le _
    · rw [hsize]
      decide
    · intro buf hbuf
      rw [List.eq_of_mem_replicate hbuf]
      exact holdsText_zeros
  pos_ge := le_rfl
  pos_lt := by decide
  drawn := rfl

theorem valid_after (cs : List UInt8) : Valid (after consoleInit cs) :=
  (valid_consoleInit.after cs).1

theorem abs_after (cs : List UInt8) : abs (after consoleInit cs) = cs.foldl Editor.rx .init :=
  (valid_consoleInit.after cs).2

theorem escState_after (cs : List UInt8) :
    (after consoleInit cs).escState = (cs.foldl Editor.rx .init).esc :=
  congrArg Editor.esc (abs_after cs)

theorem lineText_after (cs : List UInt8) :
    lineText (after consoleInit cs) = (cs.foldl Editor.rx .init).line :=
  congrArg Editor.line (abs_after cs)

theorem history_after (cs : List UInt8) :
    entries (after consoleInit cs).hist = (cs.foldl Editor.rx .init).history :=
  congrArg Editor.history (abs_after cs)

/-! ## The history over a whole run -/

/-- The character enters the line: it is not part of an escape sequence. -/
def IsEnter (s : EscState) (ch : UInt8) : Prop := s = .normal ∧ (ch = 13 ∨ ch = 10)
  deriving Decidable

/-- The lines that are entered with some characters. -/
def Editor.entered (e : Editor) : List UInt8 → List (List UInt8)
  | [] => []
  | ch :: cs => (if IsEnter e.esc ch then [e.line] else []) ++ (e.rx ch).entered cs

/-- The lines without their trailing blanks, without empty ones and without repetitions. -/
def kept (lines : List (List UInt8)) : List (List UInt8) :=
  ((lines.map rtrim).filter (· ≠ [])).destutter (· ≠ ·)

theorem keyOf_eq_enter_iff (s : EscState) (ch : UInt8) : keyOf s ch = .enter ↔ IsEnter s ch := by
  rw [IsEnter]
  cases s with
  | normal =>
    rw [keyOf, and_iff_right rfl]
    split_ifs with h16 h14 hline <;> simp_all
  | esc => exact ⟨fun h ↦ (by cases h), fun h ↦ (by cases h.1)⟩
  | bracket =>
    rw [keyOf]
    split_ifs <;> exact ⟨fun h ↦ (by cases h), fun h ↦ (by cases h.1)⟩

theorem Editor.entered_concat (e : Editor) (cs : List UInt8) (ch : UInt8) :
    e.entered (cs ++ [ch]) = e.entered cs ++
      if IsEnter (cs.foldl rx e).esc ch then [(cs.foldl rx e).line] else [] := by
  induction cs generalizing e with
  | nil => rw [List.nil_append, entered, entered, entered, List.append_nil, List.nil_append]; rfl
  | cons x cs ih => rw [List.cons_append, entered, entered, ih, List.append_assoc]; rfl

theorem kept_concat (lines : List (List UInt8)) (s : List UInt8) :
    (kept (lines ++ [s])).rtake 8
      = if rtrim s = [] then (kept lines).rtake 8
        else remember ((kept lines).rtake 8) (rtrim s) := by
  rw [kept, List.map_append, List.filter_append, List.map_singleton]
  by_cases hblank : rtrim s = []
  · have hfilter : [rtrim s].filter (· ≠ []) = [] := by simp [hblank]
    rw [if_pos hblank, hfilter, List.append_nil, ← kept]
  · have hfilter : [rtrim s].filter (· ≠ []) = [rtrim s] := by simp [hblank]
    rw [if_neg hblank, hfilter, destutter_concat, ← kept, remember, getLast?_rtake _ (by decide),
      rtake_rtake_concat]
    split_ifs <;> rfl

theorem history_press_of_ne (e : Editor) (hk : k ≠ .enter) : (e.press k).history = e.history := by
  cases k with
  | up =>
    rw [Editor.press]
    split_ifs <;> rfl
  | down =>
    rw [Editor.press]
    cases e.browsing with
    | none => rfl
    | some p =>
      dsimp only
      split_ifs <;> rfl
  | enter => exact absurd rfl hk
  | erase => rfl
  | char ch =>
    rw [Editor.press]
    split_ifs <;> rfl
  | none => rfl

theorem history_press_enter (e : Editor) :
    (e.press .enter).history
      = if rtrim e.line = [] then e.history else remember e.history (rtrim e.line) := by
  rw [Editor.press]
  split_ifs <;> rfl

theorem history_foldl (cs : List UInt8) :
    (cs.foldl Editor.rx .init).history = (kept (Editor.init.entered cs)).rtake 8 := by
  induction cs using List.reverseRecOn with
  | nil => rfl
  | append_singleton cs ch ih =>
    rw [List.foldl_concat, Editor.rx, Editor.entered_concat]
    generalize cs.foldl Editor.rx .init = e at ih ⊢
    change (e.press (keyOf e.esc ch)).history = _
    by_cases henter : IsEnter e.esc ch
    · rw [(keyOf_eq_enter_iff _ _).mpr henter, history_press_enter, if_pos henter, kept_concat, ih]
    · rw [history_press_of_ne _ (mt (keyOf_eq_enter_iff _ _).mp henter), if_neg henter,
        List.append_nil, ih]

/-- **The history is the last eight commands.** In every run the indices stay in range and the
buffers hold terminated strings, the history holds the last eight of the lines that the characters
enter, as far as they are kept, and a recall loads the entry that was asked for. -/
theorem history_last_eight (cs : List UInt8) :
    entries (after consoleInit cs).hist = (kept (Editor.init.entered cs)).rtake 8 ∧
      let c := after consoleInit cs
      (c.len ≤ 127 ∧ c.hist.count ≤ 8 ∧ c.hist.next < 8 ∧ -1 ≤ c.histPos ∧
        c.histPos < c.hist.count) ∧
      (c.line.length = 128 ∧ Terminated c.line) ∧
      (c.hist.slots.length = 8 ∧ ∀ buf ∈ c.hist.slots, buf.length = 128 ∧ Terminated buf) ∧
      ∀ i < c.hist.count,
        (entries c.hist)[i]? = some (lineText (histRecallIndex c i).1) ∧
          text (histRecallIndex c i).1.line = lineText (histRecallIndex c i).1 := by
  refine ⟨(history_after cs).trans (history_foldl cs), ?_⟩
  intro c
  have h : Valid c := valid_after cs
  have hsize := h.hist.size_eq
  refine ⟨⟨h.line.len_le, ?_, ?_, h.pos_ge, h.pos_lt⟩, ⟨h.line.length_eq, h.line.terminated⟩,
    ⟨hsize, fun buf hbuf ↦ ?_⟩, fun i hi ↦ ?_⟩
  · rw [← hsize]
    exact h.hist.wf.count_le
  · rw [← hsize]
    exact h.hist.wf.next_lt
  · have hbuf := h.hist.buffers buf hbuf
    exact ⟨hbuf.length_eq, hbuf.terminated⟩
  · have hbuf := h.hist.holdsText (h.hist.wf.slot_lt i)
    have hload : lineText (histRecallIndex c i).1 = text (c.hist.slots.getD (c.hist.slot i) []) :=
      (h.line.copyFrom hbuf).2
    rw [hload]
    exact ⟨HistOk.getElem?_entries hi, (hbuf.copy h.line.length_eq).2⟩

/-! ## The commands over a whole run -/

def Event.command? : Event → Option Command
  | .sent _ => none
  | .ran cmd => some cmd

/-- The commands that the console runs while it receives some characters. -/
def ran (c : Console) : List UInt8 → List Command
  | [] => []
  | ch :: cs => (consoleRxChar c ch).2.filterMap Event.command? ++ ran (consoleRxChar c ch).1 cs

/-- Enter runs the line without its trailing blanks, unless nothing is left of it. -/
def Editor.command (e : Editor) (k : Key) : List Command :=
  if k = .enter ∧ rtrim e.line ≠ [] then [dispatch (rtrim e.line)] else []

def Editor.commands (e : Editor) : List UInt8 → List Command
  | [] => []
  | ch :: cs => e.command (keyOf e.esc ch) ++ (e.rx ch).commands cs

theorem filterMap_command_sent (bs : List UInt8) :
    (bs.map Event.sent).filterMap Event.command? = [] := by
  rw [List.filterMap_map]
  exact List.filterMap_none bs

theorem filterMap_command_redrawLine (c : Console) :
    (redrawLine c).2.filterMap Event.command? = [] := by
  have hblanks : (if c.len < c.lastDrawnLen
      then List.replicate (c.lastDrawnLen - c.len) (Event.sent 32) else []).filterMap
        Event.command? = [] := by
    split_ifs
    · rw [← List.map_replicate, filterMap_command_sent]
    · rfl
  rw [redrawLine, List.filterMap_append, List.filterMap_append, List.filterMap_append, hblanks,
    filterMap_command_sent]
  rfl

theorem filterMap_command_press_of_ne (c : Console) (hk : k ≠ .enter) :
    (press c k).2.filterMap Event.command? = [] := by
  cases k with
  | up =>
    rw [press, histPrev]
    split
    · rfl
    · exact filterMap_command_redrawLine _
  | down =>
    rw [press, histNext]
    split_ifs
    · rfl
    · rfl
    · exact filterMap_command_redrawLine _
    · exact filterMap_command_redrawLine _
  | enter => exact absurd rfl hk
  | erase =>
    rw [press, erase]
    split_ifs <;> rfl
  | char ch =>
    rw [press]
    split_ifs <;> rfl
  | none => rfl

namespace Valid

/-- What `handle_line` runs is the trimmed text: the buffer is terminated behind it. -/
theorem command_handleLine (h : Valid c) :
    (LineEditor.handleLine c).2.filterMap Event.command? = (abs c).command .enter := by
  have hlen := h.len_rtrimCurrentLine
  rw [LineEditor.handleLine, Editor.command]
  by_cases hblank : rtrim (lineText c) = []
  · rw [if_pos (hlen.mpr hblank), if_neg fun henter ↦ henter.2 hblank]
    rfl
  · rw [if_neg (mt hlen.mp hblank), if_pos ⟨rfl, hblank⟩, h.rtrimCurrentLine.2.1]
    rfl

theorem command_press (h : Valid c) (k : Key) :
    (LineEditor.press c k).2.filterMap Event.command? = (abs c).command k := by
  by_cases hk : k = .enter
  · subst hk
    have hcommand := h.terminate.1.command_handleLine
    rw [h.terminate.2] at hcommand
    rw [LineEditor.press, LineEditor.enter, List.filterMap_append, List.filterMap_append, hcommand]
    exact List.append_nil _
  · rw [filterMap_command_press_of_ne c hk, Editor.command, if_neg (mt And.left hk)]

theorem ran_eq (h : Valid c) (cs : List UInt8) : ran c cs = (abs c).commands cs := by
  induction cs generalizing c with
  | nil => rfl
  | cons ch cs ih =>
    obtain ⟨hvalid, habs⟩ := h.consoleRxChar ch
    rw [ran, Editor.commands, ih hvalid, habs, consoleRxChar_eq, h.command_press]
    rfl

end Valid

/-- **The console is the editor.** Whatever it receives, its buffers and indices are valid, they
stand for the state of the editor, and the commands that it runs are those of the editor, in their
order. -/
theorem console_refines_editor (cs : List UInt8) :
    Valid (after consoleInit cs) ∧ abs (after consoleInit cs) = cs.foldl Editor.rx .init ∧
      ran consoleInit cs = Editor.init.commands cs :=
  ⟨valid_after cs, abs_after cs, valid_consoleInit.ran_eq cs⟩

/-! ## The first recall after Enter -/

/-- Both ways to type Up. -/
def IsUp (keys : List UInt8) : Prop := keys = [27, 91, 65] ∨ keys = [16]

namespace Editor

variable {e : Editor}

/-- The position is that of an entry. -/
def InRange (e : Editor) : Prop := ∀ p, e.browsing = some p → p < e.history.length

theorem line_up (hne : e.history ≠ []) (hpos : e.InRange) :
    some (e.press .up).line = e.history[e.older]? := by
  have hlt : e.older < e.history.length := by
    have hlength := List.length_pos_iff.mpr hne
    rw [older]
    cases hb : e.browsing with
    | none =>
      rw [Option.elim_none]
      omega
    | some p =>
      have := hpos p hb
      rw [Option.elim_some]
      omega
  rw [press, if_neg hne, List.getD_eq_getElem _ _ hlt, List.getElem?_eq_getElem hlt]

theorem getElem?_older_of_none (hb : e.browsing = none) :
    e.history[e.older]? = e.history.getLast? := by
  rw [older, hb, Option.elim_none, List.getLast?_eq_getElem?]

/-- Up after Enter: an empty line leaves the position where it was. -/
theorem up_enter_iff (hpos : e.InRange) (hne : (e.press .enter).history ≠ []) :
    some ((e.press .enter).press .up).line = (e.press .enter).history.getLast? ↔
      rtrim e.line ≠ [] ∨ e.browsing = none ∨ e.history[e.older]? = e.history.getLast? := by
  by_cases hblank : rtrim e.line = []
  · have henter : e.press .enter = { e with line := [] } := if_pos hblank
    rw [henter] at hne ⊢
    rw [line_up hne hpos, or_iff_right (not_not.mpr hblank)]
    constructor
    · exact .inr
    · rintro (hb | heq)
      · exact getElem?_older_of_none hb
      · exact heq
  · have henter : e.press .enter
        = { e with line := [], history := remember e.history (rtrim e.line), browsing := none } :=
      if_neg hblank
    rw [henter] at hne ⊢
    rw [line_up hne (by rintro p ⟨⟩), getElem?_older_of_none rfl]
    exact iff_of_true rfl (.inl hblank)

theorem esc_press_enter : (e.press .enter).esc = e.esc := by
  rw [press]
  split_ifs <;> rfl

theorem line_foldl_up (hesc : e.esc = .normal) {keys : List UInt8} (hkeys : IsUp keys) :
    (keys.foldl rx e).line = (e.press .up).line := by
  obtain ⟨line, history, browsing, s⟩ := e
  obtain rfl : s = .normal := hesc
  rcases hkeys with rfl | rfl
  · change (press ⟨line, history, browsing, .bracket⟩ .up).line = _
    rw [press, press]
    split_ifs <;> rfl
  · rfl

end Editor

theorem Valid.inRange (h : Valid c) : (abs c).InRange := by
  intro p hp
  have hlt := h.pos_lt
  simp only [abs, length_entries] at hp ⊢
  split_ifs at hp
  obtain rfl := Option.some_inj.mp hp
  omega

/-- **Up after Enter.** It loads the newest entry, unless the line was blank and the history was
being browsed: then it loads the entry before the one that was recalled last. -/
theorem up_after_enter_iff (cs : List UInt8) {ch : UInt8} {keys : List UInt8}
    (henter : IsEnter (after consoleInit cs).escState ch) (hkeys : IsUp keys)
    (hne : entries (after consoleInit (cs ++ [ch])).hist ≠ []) :
    some (lineText (after consoleInit (cs ++ [ch] ++ keys)))
        = (entries (after consoleInit (cs ++ [ch])).hist).getLast? ↔
      rtrim (lineText (after consoleInit cs)) ≠ [] ∨ (after consoleInit cs).histPos < 0 ∨
        (entries (after consoleInit cs).hist)[((after consoleInit cs).histPos - 1).toNat]?
          = (entries (after consoleInit cs).hist).getLast? := by
  have hvalid := valid_after cs
  set c := after consoleInit cs with hc
  have hesc : ((abs c).press .enter).esc = .normal := Editor.esc_press_enter.trans henter.1
  have habs : abs (after consoleInit (cs ++ [ch])) = (abs c).press .enter := by
    have hnext : nextEsc (abs c).esc ch = ((abs c).press .enter).esc := by
      rw [hesc, show (abs c).esc = .normal from henter.1]
      rcases henter.2 with rfl | rfl <;> rfl
    have hkey : keyOf (abs c).esc ch = .enter := (keyOf_eq_enter_iff _ ch).mpr henter
    rw [after_concat, ← hc, (hvalid.consoleRxChar ch).2, Editor.rx, hkey, hnext]
  have hline : lineText (after consoleInit (cs ++ [ch] ++ keys))
      = (((abs c).press .enter).press .up).line := by
    have hrun : abs (after consoleInit (cs ++ [ch] ++ keys))
        = keys.foldl Editor.rx ((abs c).press .enter) := by
      rw [abs_after, List.foldl_append, ← abs_after, habs]
    rw [← Editor.line_foldl_up hesc hkeys, ← hrun]
    rfl
  have hhist : entries (after consoleInit (cs ++ [ch])).hist = ((abs c).press .enter).history :=
    congrArg Editor.history habs
  rw [hhist] at hne ⊢
  rw [hline, Editor.up_enter_iff hvalid.inRange hne]
  by_cases hneg : c.histPos < 0
  · have hb : (abs c).browsing = none := if_pos hneg
    exact iff_of_true (.inr (.inl hb)) (.inr (.inl hneg))
  · have hb : (abs c).browsing = some c.histPos.toNat := if_neg hneg
    have hold : (abs c).older = (c.histPos - 1).toNat := by
      rw [Editor.older, hb, Option.elim_some]
      omega
    rw [hb, hold, or_iff_right hneg]
    simp only [reduceCtorEq, false_or]
    rfl

theorem up_after_enter_single :
    some (lineText (after consoleInit ([97] ++ [13] ++ [27, 91, 65])))
      = (entries (after consoleInit ([97] ++ [13])).hist).getLast? := by
  refine (up_after_enter_iff [97] ⟨?_, .inl rfl⟩ (.inl rfl) ?_).mpr (.inl ?_)
  · rw [escState_after]
    rfl
  · rw [history_after]
    decide
  · rw [lineText_after]
    decide

/-- Enter `a` and `b`, recall `b`, erase it and enter the empty line: Up loads `a`. -/
theorem up_after_blank_line :
    IsEnter (after consoleInit [97, 13, 98, 13, 16, 8]).escState 13 ∧
      (entries (after consoleInit [97, 13, 98, 13, 16, 8, 13]).hist).getLast? = some [98] ∧
      lineText (after consoleInit [97, 13, 98, 13, 16, 8, 13, 16]) = [97] := by
  refine ⟨⟨?_, .inl rfl⟩, ?_, ?_⟩
  · rw [escState_after]
    rfl
  · rw [history_after]
    decide
  · rw [lineText_after]
    decide

end CaribeOS.LineEditor
