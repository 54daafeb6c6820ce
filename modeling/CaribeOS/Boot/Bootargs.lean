import CaribeOS.Boot.FdtMin
import Mathlib.Data.List.GetD

/-!
# Setting and reading the boot arguments

The booter's console puts a command line into the device tree: it overwrites the value of a property
`bootargs` in place (`bx_fdt_overwrite_bootargs` in `console.c`). The boot path reads the command line
from the tree (`fdt_get_chosen_bootargs` in `fdt_min.c`).

The two look at different nodes. The reader follows the depth and takes the property of `/chosen`. The
writer takes any node below the root that is called `chosen`, and forgets that it is in such a node
when it has passed a node inside it.
-/

namespace CaribeOS.Bootargs

open DeviceTree
open FileScript (Buf)
open ByteMemory (cString)

/-! ## The walks as they stand in the source -/

/-- What the reader copies of a value, up to a zero, the end of the value or that of its buffer. -/
def copied (cap : ℕ) (value : List UInt8) : List UInt8 := (value.take (cap - 1)).takeWhile (· ≠ 0)

/-- The state is the depth and the depth of the node `chosen`, or -1. -/
def reader (cap : ℕ) : Walker (Int × Int) (Int × List UInt8) where
  beginNode s name := .ok (s.1 + 1, if s.1 + 1 = 1 ∧ name = cString "chosen" then s.1 + 1 else s.2)
  endNode s := .ok (s.1 - 1, if s.1 = s.2 then -1 else s.2)
  property s p :=
    if s.1 = s.2 ∧ p.name = cString "bootargs" then
      .error (if copied cap p.value ≠ [] then 0 else -3, copied cap p.value)
    else .ok s
  finish _ := (-4, [])
  unknown _ := (-5, [])

/-- The returned number and the string in `out`. -/
def fdtGetChosenBootargs (blob : Option Buf) (cap : ℕ) (fuel : ℕ) : Option (Int × List UInt8) :=
  match blob with
  | none => some (-1, [])
  | some dtb =>
    if cap = 0 then some (-1, [])
    else if word dtb 0 ≠ magicNumber then some (-2, [])
    else (reader cap).loop dtb fuel (offStruct dtb) (-1, -1)

/-- The blob with the value of a property overwritten by a string, and zeros behind it. -/
def overwrite (b : Buf) (p : Property) (s : List UInt8) : Buf where
  size := b.size
  byte x := if p.off ≤ x ∧ x < p.off + p.value.length then s.getD (x - p.off) 0 else b.byte x

/-- What is done with a property `bootargs`. -/
def writeBootargs (b : Buf) (s : List UInt8) (p : Property) : Int × Buf :=
  if s.length ≤ p.value.length then (1, overwrite b p s) else (-2, b)

/-- The state is the depth and whether the last node that was opened is a `chosen`. -/
def writer (b : Buf) (s : List UInt8) : Walker (Int × Bool) (Int × Buf) where
  beginNode st name :=
    .ok (st.1 + 1, if st.1 + 1 > 1 then decide (name = cString "chosen") else false)
  endNode st :=
    if st.1 - 1 < 0 then .error (-3, b)
    else if st.1 - 1 = 0 then .error (0, b)
    else .ok (st.1 - 1, false)
  property st p :=
    if st.2 ∧ p.name = cString "bootargs" then .error (writeBootargs b s p) else .ok st
  finish _ := (0, b)
  unknown _ := (-3, b)

/-- The returned number and the blob afterwards. -/
def bxFdtOverwriteBootargs (dtb : Buf) (s : List UInt8) (fuel : ℕ) : Option (Int × Buf) :=
  if word dtb 0 ≠ magicNumber then some (-3, dtb)
  else (writer dtb s).loop dtb fuel (offStruct dtb) (0, false)

/-! ## The properties they take -/

def isBootargs (p : Property) : Bool := p.name = cString "bootargs"

variable {p : Property} {cap : ℕ} {t : Items} {b : Buf} {s : List UInt8}

theorem isBootargs_iff : isBootargs p ↔ p.name = cString "bootargs" := decide_eq_true_iff

/-- The first `bootargs` of `/chosen`, from the items of the root. -/
def chosenBootargs : Items → Option Property
  | .nil => none
  | .prop _ rest => chosenBootargs rest
  | .node name body rest =>
    (if name = cString "chosen" then body.own.find? isBootargs else none).or (chosenBootargs rest)

/-- The properties before the first node. -/
def leading : Items → List Property
  | .prop p rest => p :: leading rest
  | _ => []

/-- The property that the writer takes: the first `bootargs` in the block that stands, before all nodes
inside it, in a node called `chosen`. -/
def writtenBootargs : Items → Option Property
  | .nil => none
  | .prop _ rest => writtenBootargs rest
  | .node name body rest =>
    ((if name = cString "chosen" then (leading body).find? isBootargs else none).or
      (writtenBootargs body)).or (writtenBootargs rest)

/-- Inside of a node other than `/chosen` the reader takes nothing. -/
theorem reader_items_below {d c : Int} (hd : 1 ≤ d) (hc : c < d) :
    (reader cap).items t (d, c) = .ok (d, c) := by
  induction t generalizing d with
  | nil => rfl
  | prop p rest ih =>
    have hp : (reader cap).property (d, c) p = .ok (d, c) := if_neg fun h ↦ by
      omega
    rw [Walker.items, hp]
    exact ih hd hc
  | node name body rest ihb ihr =>
    have hbegin : (reader cap).beginNode (d, c) name = .ok (d + 1, c) := by
      dsimp only [reader]
      rw [if_neg (by omega)]
    have hend : (reader cap).endNode (d + 1, c) = .ok (d, c) := by
      dsimp only [reader]
      rw [if_neg (by omega), add_sub_cancel_right]
    rw [Walker.items, hbegin, Except.bind, ihb (by omega) (by omega), Except.bind, hend]
    exact ihr hd hc

/-- How a reader ends that found a property, or goes on. -/
def readOr (cap : ℕ) (st : Int × Int) : Option Property → Except (Int × List UInt8) (Int × Int)
  | some p => .error (if copied cap p.value ≠ [] then 0 else -3, copied cap p.value)
  | none => .ok st

theorem reader_items_chosen (t : Items) :
    (reader cap).items t (1, 1) = readOr cap (1, 1) (t.own.find? isBootargs) := by
  induction t with
  | nil => rfl
  | prop p rest ih =>
    rw [Walker.items, Items.own]
    by_cases hp : p.name = cString "bootargs"
    · have hstep : (reader cap).property (1, 1) p = readOr cap (1, 1) (some p) := if_pos ⟨rfl, hp⟩
      rw [hstep, List.find?_cons_of_pos (isBootargs_iff.mpr hp)]
      rfl
    · have hstep : (reader cap).property (1, 1) p = .ok (1, 1) := if_neg fun h ↦ hp h.2
      rw [hstep, List.find?_cons_of_neg (fun h ↦ hp (isBootargs_iff.mp h))]
      exact ih
  | node name body rest ihb ihr =>
    have hbegin : (reader cap).beginNode (1, 1) name = .ok (2, 1) := rfl
    have hend : (reader cap).endNode (2, 1) = .ok (1, 1) := rfl
    rw [Walker.items, hbegin, Except.bind, reader_items_below (by omega) (by omega), Except.bind,
      hend, Items.own]
    exact ihr

theorem reader_items_root (t : Items) :
    (reader cap).items t (0, -1) = readOr cap (0, -1) (chosenBootargs t) := by
  induction t with
  | nil => rfl
  | prop p rest ih =>
    exact ih
  | node name body rest ihb ihr =>
    rw [Walker.items, chosenBootargs]
    by_cases hname : name = cString "chosen"
    · have hbegin : (reader cap).beginNode (0, -1) name = .ok (1, 1) := by
        dsimp only [reader]
        rw [if_pos ⟨rfl, hname⟩]
        rfl
      have hend : (reader cap).endNode (1, 1) = .ok (0, -1) := rfl
      rw [hbegin, Except.bind, reader_items_chosen, if_pos hname]
      rcases body.own.find? isBootargs with - | p
      · rw [readOr, Except.bind, hend, Option.none_or]
        exact ihr
      · rfl
    · have hbegin : (reader cap).beginNode (0, -1) name = .ok (1, -1) := by
        dsimp only [reader]
        rw [if_neg fun h ↦ hname h.2]
        rfl
      have hend : (reader cap).endNode (1, -1) = .ok (0, -1) := rfl
      rw [hbegin, Except.bind, reader_items_below (by omega) (by omega), Except.bind, hend,
        if_neg hname, Option.none_or]
      exact ihr

/-- What the reader ends with. -/
def readResult (cap : ℕ) : Option Property → Int × List UInt8
  | some p => (if copied cap p.value ≠ [] then 0 else -3, copied cap p.value)
  | none => (-4, [])

theorem fdtGetChosenBootargs_yields {b : Buf} {name : List UInt8} {body : Items} {stop : ℕ}
    (h : IsFdt b name body stop) {cap : ℕ} (hcap : 0 < cap) :
    Yields (fdtGetChosenBootargs (some b) cap) (readResult cap (chosenBootargs body)) := by
  have hwalk := h.walk (reader cap) (-1, -1)
  have hresult : (reader cap).result (tree name body) (-1, -1) =
      readResult cap (chosenBootargs body) := by
    have hitems : (reader cap).items (tree name body) (-1, -1) =
        ((reader cap).items body (0, -1)).bind fun s ↦
          ((reader cap).endNode s).bind ((reader cap).items .nil) := rfl
    rw [Walker.result, hitems, reader_items_root]
    rcases chosenBootargs body with - | p <;> rfl
  rw [hresult] at hwalk
  have heq : fdtGetChosenBootargs (some b) cap =
      fun fuel ↦ (reader cap).loop b fuel (offStruct b) (-1, -1) := by
    funext fuel
    rw [fdtGetChosenBootargs, if_neg (by omega), if_neg (not_not.mpr h.magic)]
  rwa [heq]

/-- The writer ends at its property, or comes to the end of the items at the same depth. -/
theorem writer_items {b : Buf} {s : List UInt8} {t : Items} {d : Int} {inChosen : Bool}
    (hd : 1 ≤ d) :
    (∃ p, (if inChosen then (leading t).find? isBootargs else none).or (writtenBootargs t) = some p ∧
        (writer b s).items t (d, inChosen) = .error (writeBootargs b s p)) ∨
      ((if inChosen then (leading t).find? isBootargs else none).or (writtenBootargs t) = none ∧
        ∃ c, (writer b s).items t (d, inChosen) = .ok (d, c)) := by
  induction t generalizing d inChosen with
  | nil => exact .inr ⟨by cases inChosen <;> rfl, inChosen, rfl⟩
  | prop p rest ih =>
    rw [Walker.items, leading, writtenBootargs]
    by_cases hp : inChosen ∧ p.name = cString "bootargs"
    · have hstep : (writer b s).property (d, inChosen) p = .error (writeBootargs b s p) := if_pos hp
      refine .inl ⟨p, ?_, by rw [hstep]; rfl⟩
      rw [if_pos hp.1, List.find?_cons_of_pos (isBootargs_iff.mpr hp.2), Option.some_or]
    · have hstep : (writer b s).property (d, inChosen) p = .ok (d, inChosen) := if_neg hp
      have hfind : (if inChosen then (p :: leading rest).find? isBootargs else none) =
          if inChosen then (leading rest).find? isBootargs else none := by
        cases inChosen with
        | false => rfl
        | true =>
          rw [if_pos rfl, if_pos rfl, List.find?_cons_of_neg fun h ↦ hp ⟨rfl, isBootargs_iff.mp h⟩]
      rw [hstep, hfind]
      exact ih hd
  | node name body rest ihb ihr =>
    have hbegin : (writer b s).beginNode (d, inChosen) name =
        .ok (d + 1, decide (name = cString "chosen")) := by
      dsimp only [writer]
      rw [if_pos (by omega)]
    have hend : ∀ c, (writer b s).endNode (d + 1, c) = .ok (d, false) := by
      intro c
      dsimp only [writer]
      rw [if_neg (by omega), if_neg (by omega), add_sub_cancel_right]
    have hleading : (if inChosen then (leading (.node name body rest)).find? isBootargs else none) =
        none := by
      cases inChosen <;> rfl
    rw [Walker.items, hbegin, hleading, Option.none_or, writtenBootargs]
    have hbody := @ihb (d + 1) (decide (name = cString "chosen")) (by omega)
    simp only [decide_eq_true_eq] at hbody
    rcases hbody with ⟨p, hp, hrun⟩ | ⟨hp, c, hrun⟩
    · refine .inl ⟨p, by rw [hp, Option.some_or], ?_⟩
      rw [Except.bind, hrun]
      rfl
    · rw [Except.bind, hrun, hp, Option.none_or, Except.bind, hend]
      exact @ihr d false hd

/-- What the writer ends with. -/
def writeResult (b : Buf) (s : List UInt8) : Option Property → Int × Buf
  | some p => writeBootargs b s p
  | none => (0, b)

theorem bxFdtOverwriteBootargs_yields {name : List UInt8} {body : Items} {stop : ℕ}
    (h : IsFdt b name body stop) (s : List UInt8) :
    Yields (bxFdtOverwriteBootargs b s) (writeResult b s (writtenBootargs body)) := by
  have hwalk := h.walk (writer b s) (0, false)
  have hresult : (writer b s).result (tree name body) (0, false) =
      writeResult b s (writtenBootargs body) := by
    have hitems : (writer b s).items (tree name body) (0, false) =
        ((writer b s).items body (1, false)).bind fun s' ↦
          ((writer b s).endNode s').bind ((writer b s).items .nil) := rfl
    rw [Walker.result, hitems]
    rcases @writer_items b s body 1 false le_rfl with ⟨p, hp, hrun⟩ | ⟨hp, c, hrun⟩
    · rw [hrun, show writtenBootargs body = some p from hp]
      rfl
    · rw [hrun, show writtenBootargs body = none from hp]
      rfl
  rw [hresult] at hwalk
  have heq : bxFdtOverwriteBootargs b s =
      fun fuel ↦ (writer b s).loop b fuel (offStruct b) (0, false) := by
    funext fuel
    rw [bxFdtOverwriteBootargs, if_neg (not_not.mpr h.magic)]
  rwa [heq]

/-! ## The properties in the blob -/

theorem mem_props_of_mem_own (h : p ∈ t.own) : p ∈ t.props := by
  induction t with
  | nil => exact h
  | prop q rest ih =>
    rcases List.mem_cons.mp h with rfl | h
    · exact List.mem_cons_self
    · exact List.mem_cons_of_mem _ (ih h)
  | node name body rest ihb ihr => exact List.mem_append_right _ (ihr h)

theorem mem_own_of_mem_leading (h : p ∈ leading t) : p ∈ t.own := by
  induction t with
  | nil => exact h
  | prop q rest ih =>
    rcases List.mem_cons.mp h with rfl | h
    · exact List.mem_cons_self
    · exact List.mem_cons_of_mem _ (ih h)
  | node name body rest ihb ihr => exact absurd h List.not_mem_nil

theorem mem_of_chosenBootargs (h : chosenBootargs t = some p) : p ∈ t.props := by
  induction t with
  | nil => exact absurd h (by simp [chosenBootargs])
  | prop q rest ih => exact List.mem_cons_of_mem _ (ih h)
  | node name body rest ihb ihr =>
    rcases Option.or_eq_some_iff.mp h with hbody | ⟨-, hrest⟩
    · split at hbody
      · exact List.mem_append_left _ (mem_props_of_mem_own (List.mem_of_find?_eq_some hbody))
      · exact absurd hbody (by simp)
    · exact List.mem_append_right _ (ihr hrest)

theorem mem_of_writtenBootargs (h : writtenBootargs t = some p) : p ∈ t.props := by
  induction t with
  | nil => exact absurd h (by simp [writtenBootargs])
  | prop q rest ih => exact List.mem_cons_of_mem _ (ih h)
  | node name body rest ihb ihr =>
    rcases Option.or_eq_some_iff.mp h with hbody | ⟨-, hrest⟩
    · rcases Option.or_eq_some_iff.mp hbody with hhere | ⟨-, hbelow⟩
      · split at hhere
        · exact List.mem_append_left _
            (mem_props_of_mem_own (mem_own_of_mem_leading (List.mem_of_find?_eq_some hhere)))
        · exact absurd hhere (by simp)
      · exact List.mem_append_left _ (ihb hbelow)
    · exact List.mem_append_right _ (ihr hrest)

theorem own_reread (b : Buf) (t : Items) : (t.reread b).own = t.own.map (Property.reread b) := by
  induction t with
  | nil => rfl
  | prop p rest ih => rw [Items.reread, Items.own, Items.own, List.map_cons, ih]
  | node name body rest ihb ihr => exact ihr

/-- The reader takes the same property of a blob that is changed in values only. -/
theorem chosenBootargs_reread (b : Buf) (t : Items) :
    chosenBootargs (t.reread b) = (chosenBootargs t).map (Property.reread b) := by
  induction t with
  | nil => rfl
  | prop p rest ih => exact ih
  | node name body rest ihb ihr =>
    have hfind : (body.reread b).own.find? isBootargs =
        (body.own.find? isBootargs).map (Property.reread b) := by
      rw [own_reread, List.find?_map]
      rfl
    rw [Items.reread, chosenBootargs, chosenBootargs, ihr, hfind, Option.map_or]
    split <;> rfl

/-- The string, filled up with zeros. -/
def filled (s : List UInt8) (n : ℕ) : List UInt8 := s ++ List.replicate (n - s.length) 0

theorem getD_filled (s : List UInt8) (n k : ℕ) : (filled s n).getD k 0 = s.getD k 0 := by
  rw [filled]
  rcases Nat.lt_or_ge k s.length with hk | hk
  · rw [List.getD_append _ _ _ _ hk]
  · rw [List.getD_append_right _ _ _ _ hk, List.getD_eq_default _ _ hk,
      List.getD_eq_getElem?_getD, List.getElem?_replicate]
    split <;> rfl

theorem value_overwrite (hfits : s.length ≤ p.value.length) :
    (p.reread (overwrite b p s)).value = filled s p.value.length := by
  have hlength : (filled s p.value.length).length = p.value.length := by
    rw [filled, List.length_append, List.length_replicate]
    omega
  have hbytes : (p.reread (overwrite b p s)).value =
      (List.range p.value.length).map fun k ↦ s.getD k 0 := by
    refine List.map_congr_left fun k hk ↦ ?_
    have := List.mem_range.mp hk
    dsimp only [overwrite]
    rw [if_pos ⟨by omega, by omega⟩, Nat.add_sub_cancel_left]
  rw [hbytes]
  refine List.ext_getElem ?_ fun k hk hk' ↦ ?_
  · rw [List.length_map, List.length_range, hlength]
  · rw [List.getElem_map, List.getElem_range, ← List.getD_eq_getElem _ 0 hk', getD_filled]

/-- The string is read back from a value that begins with it and goes on with a zero, if at all. -/
theorem copied_append {rest : List UInt8} (hzero : 0 ∉ s) (hcap : s.length < cap)
    (hrest : rest.head? = none ∨ rest.head? = some 0) : copied cap (s ++ rest) = s := by
  have hs : ∀ c ∈ s, decide (c ≠ 0) = true := fun c hc ↦ decide_eq_true fun h ↦ hzero (h ▸ hc)
  rw [copied, List.take_append, List.take_of_length_le (by omega), List.takeWhile_append_of_pos hs]
  rcases rest with - | ⟨c, rest⟩
  · rw [List.take_nil, List.takeWhile_nil, List.append_nil]
  · have hc : c = 0 := by
      rcases hrest with h | h
      · exact absurd h (by simp)
      · exact Option.some.inj h
    rcases cap - 1 - s.length with - | n
    · rw [List.take_zero, List.takeWhile_nil, List.append_nil]
    · rw [List.take_succ_cons, List.takeWhile_cons_of_neg (by simp [hc]), List.append_nil]

theorem copied_filled {n : ℕ} (hzero : 0 ∉ s) (hcap : s.length < cap) :
    copied cap (filled s n) = s := by
  refine copied_append hzero hcap ?_
  rcases n - s.length with - | k
  · exact .inl rfl
  · exact .inr rfl

/-- A buffer with room for the string gets it exactly where the value spells it. -/
theorem copied_eq_iff {value : List UInt8} (hzero : 0 ∉ s) :
    (∀ cap, s.length < cap → copied cap value = s) ↔ value.takeWhile (· ≠ 0) = s := by
  constructor
  · intro h
    have := h (value.length + s.length + 1) (by omega)
    rwa [copied, List.take_of_length_le (by omega)] at this
  · intro h cap hcap
    have hsplit : value = s ++ value.dropWhile (· ≠ 0) := by
      rw [← h, List.takeWhile_append_dropWhile]
    rw [hsplit]
    refine copied_append hzero hcap ?_
    have hhead := List.head?_dropWhile_not (fun c : UInt8 ↦ decide (c ≠ 0)) value
    rcases hdrop : (value.dropWhile (· ≠ 0)).head? with - | c
    · exact .inl hdrop
    · rw [hdrop] at hhead
      exact .inr (hdrop.trans (congrArg some (by simpa using hhead)))

/-! ## Reading back -/

/-- What setting the boot arguments to `s` is to do to a blob with this tree: the number and the blob
that come out. -/
structure ReadsBack (b : Buf) (body : Items) (s : List UInt8) (r : Int × Buf) : Prop where
  size : r.2.size = b.size
  read : r.1 = 1 → ∀ cap, s.length < cap → Yields (fdtGetChosenBootargs (some r.2) cap) (0, s)
  only : r.1 = 1 → ∀ x, r.2.byte x ≠ b.byte x → ∃ p, chosenBootargs body = some p ∧ p.Covers x
  same : r.1 ≠ 1 → ∀ x, r.2.byte x = b.byte x
  room : (∃ p, chosenBootargs body = some p ∧ s.length + 1 ≤ p.value.length) → r.1 = 1

/-- The boot arguments of `/chosen` have no room for `s` and a zero. -/
def NoRoom (body : Items) (s : List UInt8) : Prop :=
  ∀ p, chosenBootargs body = some p → p.value.length ≤ s.length

/-- The writer's property is that of `/chosen`, or both are `s` already. Where the writer has no
property, or one that is too short, that of `/chosen` has no room either. -/
def TakesChosen (body : Items) (s : List UInt8) : Prop :=
  match writtenBootargs body with
  | none => NoRoom body s
  | some w =>
    if s.length ≤ w.value.length then
      chosenBootargs body = some w ∨
        (w.value = filled s w.value.length ∧
          ∃ p, chosenBootargs body = some p ∧ p.value.takeWhile (· ≠ 0) = s)
    else NoRoom body s

/-- A call that does not write is right where there is nothing to write to. -/
theorem readsBack_of_ne {body : Items} {r : Int} (hr : r ≠ 1) :
    ReadsBack b body s (r, b) ↔ NoRoom body s := by
  constructor
  · intro h p hp
    by_contra hlt
    exact hr (h.room ⟨p, hp, by omega⟩)
  · intro h
    refine ⟨rfl, fun h1 ↦ absurd h1 hr, fun h1 ↦ absurd h1 hr, fun _ _ ↦ rfl, ?_⟩
    rintro ⟨p, hp, hlen⟩
    have := h p hp
    omega

section Written

variable {b : Buf} {name : List UInt8} {body : Items} {stop : ℕ} {s : List UInt8}
  {w : Property}

theorem covers_of_overwrite_ne {x : ℕ} (h : (overwrite b w s).byte x ≠ b.byte x) : w.Covers x := by
  by_contra hx
  exact h (if_neg hx)

theorem isFdt_overwrite (h : IsFdt b name body stop) (hw : w ∈ body.props) :
    IsFdt (overwrite b w s) name (body.reread (overwrite b w s)) stop :=
  h.reread rfl fun _ hne ↦ ⟨w, hw, covers_of_overwrite_ne hne⟩

theorem read_overwrite (h : IsFdt b name body stop) (hw : w ∈ body.props) (s : List UInt8) {cap : ℕ}
    (hcap : 0 < cap) :
    Yields (fdtGetChosenBootargs (some (overwrite b w s)) cap)
      (readResult cap ((chosenBootargs body).map (Property.reread (overwrite b w s)))) := by
  rw [← chosenBootargs_reread]
  exact fdtGetChosenBootargs_yields (isFdt_overwrite h hw) hcap

theorem reread_of_mem (h : IsFdt b name body stop) (hp : p ∈ body.props) : p.reread b = p :=
  h.root.reread_eq p (List.mem_append_left _ hp)

theorem overwrite_eq_self_iff (h : IsFdt b name body stop) (hw : w ∈ body.props)
    (hfits : s.length ≤ w.value.length) :
    (∀ x, (overwrite b w s).byte x = b.byte x) ↔ w.value = filled s w.value.length := by
  have hvalue : w.value = bytesIn b w.off w.value.length :=
    congrArg Property.value (reread_of_mem h hw).symm
  have hwritten : bytesIn (overwrite b w s) w.off w.value.length = filled s w.value.length :=
    value_overwrite hfits
  constructor
  · intro hsame
    rw [← hwritten, hvalue, length_bytesIn]
    exact List.map_congr_left fun k _ ↦ (hsame (w.off + k)).symm
  · intro hfilled x
    by_contra hne
    obtain ⟨hx, hx'⟩ := covers_of_overwrite_ne hne
    have hbytes := hvalue.symm.trans (hfilled.trans hwritten.symm)
    have hat := List.map_inj_left.mp hbytes (x - w.off) (List.mem_range.mpr (by omega))
    rw [Nat.add_sub_cancel' hx] at hat
    exact hne hat.symm

/-- A write to the property of `/chosen` is read back. -/
theorem readsBack_chosen (h : IsFdt b name body stop) (hs : s ≠ []) (hzero : 0 ∉ s)
    (hchosen : chosenBootargs body = some w) (hfits : s.length ≤ w.value.length) :
    ReadsBack b body s (1, overwrite b w s) := by
  have hw := mem_of_chosenBootargs hchosen
  refine ⟨rfl, fun _ cap hcap ↦ ?_, fun _ x hne ↦ ⟨w, hchosen, covers_of_overwrite_ne hne⟩,
    fun h1 ↦ absurd rfl h1, fun _ ↦ rfl⟩
  have hread := @read_overwrite _ _ _ _ _ h hw s cap (by omega)
  rwa [hchosen, Option.map_some, readResult, value_overwrite hfits, copied_filled hzero hcap,
    if_pos hs] at hread

/-- A write to another property is right only if it does nothing. -/
theorem readsBack_other (h : IsFdt b name body stop) (hs : s ≠ []) (hzero : 0 ∉ s)
    (hw : w ∈ body.props) (hne : chosenBootargs body ≠ some w) (hfits : s.length ≤ w.value.length) :
    ReadsBack b body s (1, overwrite b w s) ↔ w.value = filled s w.value.length ∧
      ∃ p, chosenBootargs body = some p ∧ p.value.takeWhile (· ≠ 0) = s := by
  -- The bytes that are written are not those of `/chosen`, so none of them may change.
  have hsame : (∀ x, (overwrite b w s).byte x ≠ b.byte x →
      ∃ p, chosenBootargs body = some p ∧ p.Covers x) ↔
        ∀ x, (overwrite b w s).byte x = b.byte x := by
    refine ⟨fun honly x ↦ ?_, fun hsame x hx ↦ absurd (hsame x) hx⟩
    by_contra hx
    obtain ⟨p, hp, hcover⟩ := honly x hx
    have hpw := h.root.eq_of_covers (List.mem_append_left _ (mem_of_chosenBootargs hp))
      (List.mem_append_left _ hw) hcover (covers_of_overwrite_ne hx)
    exact hne (hpw ▸ hp)
  have hread : (∀ x, (overwrite b w s).byte x = b.byte x) →
      ((∀ cap, s.length < cap → Yields (fdtGetChosenBootargs (some (overwrite b w s)) cap) (0, s)) ↔
        ∃ p, chosenBootargs body = some p ∧ p.value.takeWhile (· ≠ 0) = s) := by
    intro hsame
    have heq : overwrite b w s = b := congrArg (Buf.mk b.size) (funext hsame)
    rw [heq]
    rcases hchosen : chosenBootargs body with - | p
    · refine ⟨fun hall ↦ ?_, fun ⟨p, hp, _⟩ ↦ absurd hp (by simp)⟩
      have hnone := @fdtGetChosenBootargs_yields _ _ _ _ h (s.length + 1) (by omega)
      rw [hchosen] at hnone
      exact absurd (congrArg Prod.fst (hnone.unique (hall _ (by omega))))
        (show ¬(-4 : Int) = 0 by decide)
    · have hcap : ∀ cap, s.length < cap →
          (Yields (fdtGetChosenBootargs (some b) cap) (0, s) ↔ copied cap p.value = s) := by
        intro cap hcap
        have hyields := @fdtGetChosenBootargs_yields _ _ _ _ h cap (by omega)
        rw [hchosen] at hyields
        rw [hyields.iff, readResult]
        refine ⟨congrArg Prod.snd, fun hcopied ↦ ?_⟩
        rw [hcopied, if_pos hs]
      rw [forall₂_congr hcap, copied_eq_iff hzero]
      exact ⟨fun hp ↦ ⟨p, rfl, hp⟩, fun ⟨q, hq, hp⟩ ↦ Option.some.inj hq ▸ hp⟩
  rw [← overwrite_eq_self_iff h hw hfits]
  constructor
  · intro hback
    have hbytes := hsame.mp (hback.only rfl)
    exact ⟨hbytes, (hread hbytes).mp (hback.read rfl)⟩
  · rintro ⟨hbytes, hchosen⟩
    exact ⟨rfl, fun _ ↦ (hread hbytes).mpr hchosen, fun _ ↦ hsame.mpr hbytes,
      fun h1 ↦ absurd rfl h1, fun _ ↦ rfl⟩

end Written

/-- **Setting the boot arguments.** What is set is read back, with nothing else changed, and set where
there is room, exactly where the writer's property is that of `/chosen`. -/
theorem set_bootargs_iff {b : Buf} {name : List UInt8} {body : Items} {stop : ℕ}
    (h : IsFdt b name body stop) {s : List UInt8} (hs : s ≠ []) (hzero : 0 ∉ s) :
    (∃ r, Yields (bxFdtOverwriteBootargs b s) r ∧ ReadsBack b body s r) ↔ TakesChosen body s := by
  rw [(bxFdtOverwriteBootargs_yields h s).exists_iff, TakesChosen]
  rcases hwritten : writtenBootargs body with - | w
  · exact readsBack_of_ne (by decide)
  · dsimp only [writeResult, writeBootargs]
    by_cases hfits : s.length ≤ w.value.length
    · rw [if_pos hfits, if_pos hfits]
      by_cases hchosen : chosenBootargs body = some w
      · exact ⟨fun _ ↦ .inl hchosen, fun _ ↦ readsBack_chosen h hs hzero hchosen hfits⟩
      · rw [readsBack_other h hs hzero (mem_of_writtenBootargs hwritten) hchosen hfits,
          or_iff_right hchosen]
    · rw [if_neg hfits, if_neg hfits]
      exact readsBack_of_ne (by decide)

theorem set_bootargs_uartBlob :
    cString "quiet" ≠ [] ∧ 0 ∉ cString "quiet" ∧
      ∃ r, Yields (bxFdtOverwriteBootargs Fdt.uartBlob (cString "quiet")) r ∧
        ReadsBack Fdt.uartBlob (Fdt.readTree Fdt.uartBlob) (cString "quiet") r := by
  refine ⟨by decide, by decide, (set_bootargs_iff Fdt.isFdt_uartBlob (by decide) (by decide)).mpr ?_⟩
  have hwritten : writtenBootargs (Fdt.readTree Fdt.uartBlob) =
      some ⟨cString "bootargs", cString "debug" ++ [0, 0, 0], 104⟩ := by decide +kernel
  have hchosen : chosenBootargs (Fdt.readTree Fdt.uartBlob) =
      some ⟨cString "bootargs", cString "debug" ++ [0, 0, 0], 104⟩ := by decide +kernel
  rw [TakesChosen, hwritten]
  exact .inl hchosen

/-- A tree in which `/soc` has a node `chosen` too, before that of the root. -/
def twoChosenBlob : Buf :=
  blobOf Fdt.sampleStrings (encodeNode [] (
    encodeNode (cString "soc")
      (encodeNode (cString "chosen") (Fdt.bootargsOf (cString "spare" ++ [0, 0, 0]))) ++
    encodeNode (cString "chosen") (Fdt.bootargsOf (cString "debug" ++ [0, 0, 0]))))

theorem isFdt_twoChosenBlob : IsFdt twoChosenBlob [] (Fdt.readTree twoChosenBlob) 152 :=
  isFdt_of_readItems (show readItems twoChosenBlob 100 _ = _ by decide +kernel) (by decide +kernel)

/-- The writer sets the boot arguments of the other node. -/
theorem other_chosen_written :
    IsFdt twoChosenBlob [] (Fdt.readTree twoChosenBlob) 152 ∧
      ∃ b, Yields (bxFdtOverwriteBootargs twoChosenBlob (cString "quiet")) (1, b) ∧
        Yields (fdtGetChosenBootargs (some b) 256) (0, cString "debug") := by
  have hwritten : writtenBootargs (Fdt.readTree twoChosenBlob) =
      some ⟨cString "bootargs", cString "spare" ++ [0, 0, 0], 96⟩ := by decide +kernel
  have hchosen : chosenBootargs (Fdt.readTree twoChosenBlob) =
      some ⟨cString "bootargs", cString "debug" ++ [0, 0, 0], 136⟩ := by decide +kernel
  have hwrite := bxFdtOverwriteBootargs_yields isFdt_twoChosenBlob (cString "quiet")
  have hread := @read_overwrite _ _ _ _ _ isFdt_twoChosenBlob (mem_of_writtenBootargs hwritten)
    (cString "quiet") 256 (by decide)
  rw [hwritten, writeResult, writeBootargs, if_pos (by decide)] at hwrite
  refine ⟨isFdt_twoChosenBlob, _, hwrite, ?_⟩
  rw [hchosen, Option.map_some] at hread
  exact hread

end CaribeOS.Bootargs
