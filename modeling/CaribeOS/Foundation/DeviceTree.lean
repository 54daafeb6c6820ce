import CaribeOS.Foundation.FileScript

/-!
# Flattened device trees

A flattened device tree is a blob of bytes with a header, a structure block and a strings block. The
structure block is a sequence of tokens: a node is opened with its name and closed again, a property
has a length, the position of its name in the strings block, and its value.

`Encodes` says which tree the tokens of a structure block spell. A program that reads the block in
one pass keeps a state and does one thing at each token (`Walker`), possibly ending there. What it
gives on a blob is what the recursion over the tree gives (`IsFdt.walk`), so that nothing else has to
look at the bytes of the block.
-/

namespace DeviceTree

open FileScript (Buf)

/-! ## The blob -/

/-- The big-endian word at an offset. -/
def word (b : Buf) (o : ℕ) : ℕ :=
  (b.byte o).toNat * 16777216 + (b.byte (o + 1)).toNat * 65536 + (b.byte (o + 2)).toNat * 256 +
    (b.byte (o + 3)).toNat

def align4 (n : ℕ) : ℕ := (n + 3) / 4 * 4

def bytesIn (b : Buf) (o n : ℕ) : List UInt8 := (List.range n).map fun k ↦ b.byte (o + k)

/-- The bytes from an offset on up to the first zero. -/
def cstring (b : Buf) (o : ℕ) : List UInt8 := (bytesIn b o (b.size - o)).takeWhile (· ≠ 0)

def magicNumber : ℕ := 0xd00dfeed

def totalSize (b : Buf) : ℕ := word b 4
def offStruct (b : Buf) : ℕ := word b 8
def offStrings (b : Buf) : ℕ := word b 12
def sizeStrings (b : Buf) : ℕ := word b 32
def sizeStruct (b : Buf) : ℕ := word b 36

def beginNodeToken : ℕ := 1
def endNodeToken : ℕ := 2
def propToken : ℕ := 3
def nopToken : ℕ := 4
def endToken : ℕ := 9

theorem length_bytesIn (b : Buf) (o n : ℕ) : (bytesIn b o n).length = n := by
  rw [bytesIn, List.length_map, List.length_range]

variable {b b' : Buf} {o stop : ℕ} {name : List UInt8}

theorem cstring_of_ne (ho : o < b.size) (h : b.byte o ≠ 0) :
    cstring b o = b.byte o :: cstring b (o + 1) := by
  have hbytes : bytesIn b o (b.size - o) = b.byte o :: bytesIn b (o + 1) (b.size - (o + 1)) := by
    rw [bytesIn, show b.size - o = b.size - (o + 1) + 1 by omega, List.range_succ_eq_map,
      List.map_cons, List.map_map, bytesIn]
    refine congrArg _ (List.map_congr_left fun k _ ↦ ?_)
    exact congrArg b.byte (by rw [Nat.add_right_comm]; rfl)
  rw [cstring, hbytes, List.takeWhile_cons_of_pos (by simpa using h), ← cstring]

theorem cstring_of_eq (h : b.byte o = 0) : cstring b o = [] := by
  rcases Nat.lt_or_ge o b.size with ho | ho
  · rw [cstring, bytesIn, show b.size - o = b.size - (o + 1) + 1 by omega, List.range_succ_eq_map,
      List.map_cons, List.takeWhile_cons_of_neg (by simpa using h)]
  · rw [cstring, Nat.sub_eq_zero_of_le ho]
    rfl

theorem le_align4 (n : ℕ) : n ≤ align4 n := by
  rw [align4]
  omega

/-! ## The tree -/

/-- A property, with the place of its value in the blob. -/
structure Property where
  name : List UInt8
  value : List UInt8
  off : ℕ
deriving DecidableEq, Repr

/-- What stands inside a node, in the order of the blob: properties and nodes. -/
inductive Items where
  | nil
  | prop (p : Property) (rest : Items)
  | node (name : List UInt8) (body rest : Items)
deriving DecidableEq, Repr

/-- The property whose token is at `o`. -/
def propertyAt (b : Buf) (o : ℕ) : Property where
  name := cstring b (offStrings b + word b (o + 8))
  value := bytesIn b (o + 12) (word b (o + 4))
  off := o + 12

/-- The offset behind the property whose token is at `o`. -/
def behindProperty (b : Buf) (o : ℕ) : ℕ := align4 (o + 12 + word b (o + 4))

/-- The offset behind the name of the node whose token is at `o`. -/
def behindName (b : Buf) (o : ℕ) : ℕ := align4 (o + 4 + (cstring b (o + 4)).length + 1)

/-- The tokens from `o` up to `stop` spell the items. A property has its name in the strings
block. -/
inductive Encodes (b : Buf) : ℕ → Items → ℕ → Prop
  | nil (o : ℕ) : Encodes b o .nil o
  | nop {o stop : ℕ} {items : Items} (token : word b o = nopToken)
      (rest : Encodes b (o + 4) items stop) : Encodes b o items stop
  | prop {o stop : ℕ} {items : Items} (token : word b o = propToken)
      (named : word b (o + 8) + (propertyAt b o).name.length < sizeStrings b)
      (rest : Encodes b (behindProperty b o) items stop) :
      Encodes b o (.prop (propertyAt b o) items) stop
  | node {o mid stop : ℕ} {body items : Items} (token : word b o = beginNodeToken)
      (inside : Encodes b (behindName b o) body mid) (close : word b mid = endNodeToken)
      (rest : Encodes b (mid + 4) items stop) :
      Encodes b o (.node (cstring b (o + 4)) body items) stop

/-- The blob is a flattened device tree, whose root is a node of this name with these items. Header,
structure block and strings block do not overlap. The size of the structure block is left out of the
header in early versions of the format. -/
structure IsFdt (b : Buf) (name : List UInt8) (body : Items) (stop : ℕ) : Prop where
  magic : word b 0 = magicNumber
  total : totalSize b = b.size
  aligned : 4 ∣ offStruct b
  header_struct : 40 ≤ offStruct b
  header_strings : 40 ≤ offStrings b
  root : Encodes b (offStruct b) (.node name body .nil) stop
  finish : word b stop = endToken
  inside : stop + 4 ≤ b.size
  struct_size : sizeStruct b = 0 ∨ offStruct b + sizeStruct b = stop + 4
  strings_inside : offStrings b + sizeStrings b ≤ b.size
  apart : stop + 4 ≤ offStrings b ∨ offStrings b + sizeStrings b ≤ offStruct b

/-- The whole tree. -/
abbrev tree (name : List UInt8) (body : Items) : Items := .node name body .nil

theorem Encodes.le {items : Items} (h : Encodes b o items stop) : o ≤ stop := by
  induction h with
  | nil o => exact le_rfl
  | nop _ _ ih => omega
  | @prop o _ _ _ _ _ ih =>
    have := le_align4 (o + 12 + word b (o + 4))
    rw [behindProperty] at ih
    omega
  | @node o mid _ _ _ _ _ _ _ ihb ihr =>
    have := le_align4 (o + 4 + (cstring b (o + 4)).length + 1)
    rw [behindName] at ihb
    omega

/-- Reads items from `o` on, and the offset at which they end. -/
def readItems (b : Buf) : ℕ → ℕ → Option (Items × ℕ)
  | 0, _ => none
  | fuel + 1, o =>
    if word b o = nopToken then readItems b fuel (o + 4)
    else if word b o = propToken then
      if word b (o + 8) + (propertyAt b o).name.length < sizeStrings b then
        (readItems b fuel (behindProperty b o)).map fun r ↦ (.prop (propertyAt b o) r.1, r.2)
      else none
    else if word b o = beginNodeToken then
      (readItems b fuel (behindName b o)).bind fun r ↦
        if word b r.2 = endNodeToken then
          (readItems b fuel (r.2 + 4)).map fun t ↦ (.node (cstring b (o + 4)) r.1 t.1, t.2)
        else none
    else some (.nil, o)

theorem encodes_of_readItems {fuel : ℕ} {items : Items}
    (h : readItems b fuel o = some (items, stop)) : Encodes b o items stop := by
  induction fuel generalizing o items stop with
  | zero => exact absurd h (by simp [readItems])
  | succ fuel ih =>
    rw [readItems] at h
    split at h
    case isTrue token => exact .nop token (ih h)
    split at h
    case isTrue token =>
      split at h
      case isTrue named =>
        obtain ⟨⟨rest, stop'⟩, hr, heq⟩ := Option.map_eq_some_iff.mp h
        obtain ⟨rfl, rfl⟩ := Prod.mk.injEq .. ▸ heq
        exact .prop token named (ih hr)
      case isFalse => exact absurd h (by simp)
    split at h
    case isTrue token =>
      obtain ⟨⟨body, mid⟩, hb, hrest⟩ := Option.bind_eq_some_iff.mp h
      split at hrest
      case isTrue close =>
        obtain ⟨⟨rest, stop'⟩, hr, heq⟩ := Option.map_eq_some_iff.mp hrest
        obtain ⟨rfl, rfl⟩ := Prod.mk.injEq .. ▸ heq
        exact .node token (ih hb) close (ih hr)
      case isFalse => exact absurd hrest (by simp)
    case isFalse =>
      obtain ⟨rfl, rfl⟩ := Prod.mk.injEq .. ▸ Option.some.inj h
      exact .nil o

variable {body : Items}

theorem isFdt_of_readItems {fuel : ℕ}
    (hread : readItems b fuel (offStruct b) = some (tree name body, stop))
    (hheader : word b 0 = magicNumber ∧ totalSize b = b.size ∧ 4 ∣ offStruct b ∧
      40 ≤ offStruct b ∧ 40 ≤ offStrings b ∧ word b stop = endToken ∧ stop + 4 ≤ b.size ∧
      (sizeStruct b = 0 ∨ offStruct b + sizeStruct b = stop + 4) ∧
      offStrings b + sizeStrings b ≤ b.size ∧
      (stop + 4 ≤ offStrings b ∨ offStrings b + sizeStrings b ≤ offStruct b)) :
    IsFdt b name body stop := by
  obtain ⟨magic, total, aligned, hstruct, hstrings, finish, inside, hsize, hnames, apart⟩ := hheader
  exact ⟨magic, total, aligned, hstruct, hstrings, encodes_of_readItems hread, finish, inside,
    hsize, hnames, apart⟩

namespace Items

/-- The properties of the tree, with those of all nodes in it. -/
def props : Items → List Property
  | nil => []
  | prop p rest => p :: rest.props
  | node _ body rest => body.props ++ rest.props

/-- The properties that stand in the node itself. -/
def own : Items → List Property
  | nil => []
  | prop p rest => p :: rest.own
  | node _ _ rest => rest.own

/-- How many nodes are inside each other. -/
def depth : Items → ℕ
  | nil => 0
  | prop _ rest => rest.depth
  | node _ body rest => max (body.depth + 1) rest.depth

end Items

/-! ## Changing values -/

/-- The value of the property covers `x`. -/
def Property.Covers (p : Property) (x : ℕ) : Prop := p.off ≤ x ∧ x < p.off + p.value.length

/-- A property with its value read from a blob again. -/
def Property.reread (b : Buf) (p : Property) : Property :=
  { p with value := bytesIn b p.off p.value.length }

/-- The items with their values read from a blob again. -/
def Items.reread (b : Buf) : Items → Items
  | .nil => .nil
  | .prop p rest => .prop (p.reread b) (rest.reread b)
  | .node name body rest => .node name (body.reread b) (rest.reread b)

theorem cstring_congr (hsize : b'.size = b.size)
    (h : ∀ x, o ≤ x → x ≤ o + (cstring b o).length → b'.byte x = b.byte x) :
    cstring b' o = cstring b o := by
  generalize hn : (cstring b o).length = n at h
  induction n generalizing o with
  | zero =>
    have ho := h o le_rfl (Nat.le_add_right o 0)
    by_cases hbyte : b.byte o = 0
    · rw [cstring_of_eq hbyte, cstring_of_eq (ho.trans hbyte)]
    · rcases Nat.lt_or_ge o b.size with hlt | hge
      · rw [cstring_of_ne hlt hbyte] at hn
        exact absurd hn (by simp)
      · rw [cstring, cstring, hsize, Nat.sub_eq_zero_of_le hge]
        rfl
  | succ n ih =>
    have ho := h o le_rfl (Nat.le_add_right o _)
    have hbyte : b.byte o ≠ 0 := by
      intro hzero
      rw [cstring_of_eq hzero] at hn
      exact absurd hn (by simp)
    have hlt : o < b.size := by
      by_contra hge
      rw [cstring, Nat.sub_eq_zero_of_le (Nat.le_of_not_lt hge)] at hn
      exact absurd hn (by simp [bytesIn])
    rw [cstring_of_ne hlt hbyte, List.length_cons] at hn
    rw [cstring_of_ne hlt hbyte, cstring_of_ne (hsize ▸ hlt) (ho ▸ hbyte), ho,
      ih (Nat.succ.inj hn) fun x hx hx' ↦ h x (by omega) (by omega)]

theorem word_congr (h : ∀ x, o ≤ x → x < o + 4 → b'.byte x = b.byte x) : word b' o = word b o := by
  rw [word, word, h o le_rfl (by omega), h (o + 1) (by omega) (by omega),
    h (o + 2) (by omega) (by omega), h (o + 3) (by omega) (by omega)]

theorem Encodes.mem_bounds {items : Items} (h : Encodes b o items stop) :
    ∀ p ∈ items.props, o + 12 ≤ p.off ∧ p.off + p.value.length ≤ stop := by
  induction h with
  | nil o => exact fun p hp ↦ absurd hp List.not_mem_nil
  | nop _ _ ih =>
    intro p hp
    have := ih p hp
    omega
  | @prop o stop items _ _ rest ih =>
    intro p hp
    have hle := rest.le
    have halign := le_align4 (o + 12 + word b (o + 4))
    rw [behindProperty] at hle ih
    rcases List.mem_cons.mp hp with rfl | hp
    · refine ⟨le_rfl, ?_⟩
      dsimp only [propertyAt]
      rw [length_bytesIn]
      omega
    · have := ih p hp
      omega
  | @node o mid stop body items _ inside _ rest ihb ihr =>
    intro p hp
    have hle := rest.le
    have hmid := inside.le
    have halign := le_align4 (o + 4 + (cstring b (o + 4)).length + 1)
    rw [behindName] at hmid ihb
    rcases List.mem_append.mp hp with hp | hp
    · have := ihb p hp
      omega
    · have := ihr p hp
      omega

theorem Encodes.reread_eq {items : Items} (h : Encodes b o items stop) :
    ∀ p ∈ items.props, p.reread b = p := by
  induction h with
  | nil o => exact fun p hp ↦ absurd hp List.not_mem_nil
  | nop _ _ ih => exact ih
  | @prop o stop items _ _ rest ih =>
    intro p hp
    rcases List.mem_cons.mp hp with rfl | hp
    · rw [Property.reread, propertyAt]
      rw [length_bytesIn]
    · exact ih p hp
  | node _ _ _ _ ihb ihr =>
    intro p hp
    rcases List.mem_append.mp hp with hp | hp
    · exact ihb p hp
    · exact ihr p hp

theorem Encodes.eq_of_covers {items : Items} (h : Encodes b o items stop) {p q : Property}
    (hp : p ∈ items.props) (hq : q ∈ items.props) {x : ℕ} (hpx : p.Covers x) (hqx : q.Covers x) :
    p = q := by
  obtain ⟨hp₁, hp₂⟩ := hpx
  obtain ⟨hq₁, hq₂⟩ := hqx
  induction h with
  | nil o => exact absurd hp List.not_mem_nil
  | nop _ _ ih => exact ih hp hq
  | @prop o stop items _ _ rest ih =>
    have hhead : (propertyAt b o).off + (propertyAt b o).value.length ≤ behindProperty b o := by
      dsimp only [propertyAt]
      rw [length_bytesIn, behindProperty]
      exact le_align4 _
    rcases List.mem_cons.mp hp with rfl | hp <;> rcases List.mem_cons.mp hq with rfl | hq
    · rfl
    · have := rest.mem_bounds q hq
      omega
    · have := rest.mem_bounds p hp
      omega
    · exact ih hp hq
  | @node o mid stop body items _ inside _ rest ihb ihr =>
    rcases List.mem_append.mp hp with hp | hp <;> rcases List.mem_append.mp hq with hq | hq
    · exact ihb hp hq
    · have := inside.mem_bounds p hp
      have := rest.mem_bounds q hq
      omega
    · have := inside.mem_bounds q hq
      have := rest.mem_bounds p hp
      omega
    · exact ihr hp hq

/-- **Values can be changed in place.** Where a blob is changed in values only, its tokens spell the
same items with the new values. -/
theorem Encodes.reread {items : Items} (h : Encodes b o items stop) (hsize : b'.size = b.size)
    (hheader : ∀ x < 40, b'.byte x = b.byte x)
    (hstrings : ∀ x, offStrings b ≤ x → x < offStrings b + sizeStrings b → b'.byte x = b.byte x)
    (hvalues : ∀ x, o ≤ x → x < stop → b'.byte x ≠ b.byte x → ∃ p ∈ items.props, p.Covers x) :
    Encodes b' o (items.reread b') stop := by
  have hoff : offStrings b' = offStrings b := word_congr fun x _ hx ↦ hheader x (by omega)
  have hsizeStrings : sizeStrings b' = sizeStrings b := word_congr fun x _ hx ↦ hheader x (by omega)
  induction h with
  | nil o => exact .nil o
  | @nop o stop items token rest ih =>
    have hle := rest.le
    refine .nop ((word_congr fun x hx hx' ↦ ?_).trans token)
      (ih fun x hx hx' ↦ hvalues x (by omega) hx')
    by_contra hne
    obtain ⟨p, hp, hcover, -⟩ := hvalues x hx (by omega) hne
    have := rest.mem_bounds p hp
    omega
  | @prop o stop items token named rest ih =>
    have hle := rest.le
    have halign := le_align4 (o + 12 + word b (o + 4))
    rw [behindProperty] at hle
    have hhead : ∀ x, o ≤ x → x < o + 12 → b'.byte x = b.byte x := by
      intro x hx hx'
      by_contra hne
      obtain ⟨p, hp, hcover, -⟩ := hvalues x hx (by omega) hne
      rcases List.mem_cons.mp hp with rfl | hp
      · exact absurd hcover (by dsimp only [propertyAt]; omega)
      · have := rest.mem_bounds p hp
        rw [behindProperty] at this
        omega
    have hlen : word b' (o + 4) = word b (o + 4) :=
      word_congr fun x hx hx' ↦ hhead x (by omega) (by omega)
    have hnameOff : word b' (o + 8) = word b (o + 8) :=
      word_congr fun x hx hx' ↦ hhead x (by omega) (by omega)
    have hname : cstring b' (offStrings b + word b (o + 8)) =
        cstring b (offStrings b + word b (o + 8)) :=
      cstring_congr hsize fun x hx hx' ↦ hstrings x (by omega)
        (by dsimp only [propertyAt] at named; omega)
    have hproperty : propertyAt b' o = (propertyAt b o).reread b' := by
      rw [propertyAt, hoff, hnameOff, hlen, hname, Property.reread, propertyAt]
      rw [length_bytesIn]
    rw [Items.reread, ← hproperty]
    refine .prop ((word_congr fun x hx hx' ↦ hhead x hx (by omega)).trans token) ?_ ?_
    · rw [hnameOff, hsizeStrings, hproperty]
      exact named
    · rw [behindProperty, hlen]
      refine ih fun x hx hx' hne ↦ ?_
      rw [behindProperty] at hx
      obtain ⟨p, hp, hcover⟩ := hvalues x (by omega) hx' hne
      rcases List.mem_cons.mp hp with rfl | hp
      · have := hcover.2
        dsimp only [propertyAt] at this
        rw [length_bytesIn] at this
        omega
      · exact ⟨p, hp, hcover⟩
  | @node o mid stop body items token inside close rest ihb ihr =>
    have hle := rest.le
    have hmid := inside.le
    have halign := le_align4 (o + 4 + (cstring b (o + 4)).length + 1)
    rw [behindName] at hmid
    have hcases : ∀ x, o ≤ x → x < stop → b'.byte x ≠ b.byte x →
        (∃ p ∈ body.props, p.Covers x) ∨ ∃ p ∈ items.props, p.Covers x := by
      intro x hx hx' hne
      obtain ⟨p, hp, hcover⟩ := hvalues x hx hx' hne
      exact (List.mem_append.mp hp).imp (fun hp ↦ ⟨p, hp, hcover⟩) fun hp ↦ ⟨p, hp, hcover⟩
    have hbody : ∀ p ∈ body.props, ∀ x, p.Covers x → behindName b o ≤ x ∧ x < mid := by
      intro p hp x hcover
      have := inside.mem_bounds p hp
      have := hcover.1
      have := hcover.2
      omega
    have hitems : ∀ p ∈ items.props, ∀ x, p.Covers x → mid + 4 ≤ x := by
      intro p hp x hcover
      have := rest.mem_bounds p hp
      have := hcover.1
      omega
    have hsame : ∀ x, o ≤ x → x < behindName b o ∨ mid ≤ x → x < mid + 4 →
        b'.byte x = b.byte x := by
      intro x hx hout hx'
      by_contra hne
      rcases hcases x hx (by omega) hne with ⟨p, hp, hcover⟩ | ⟨p, hp, hcover⟩
      · have := hbody p hp x hcover
        omega
      · have := hitems p hp x hcover
        omega
    rw [behindName] at hsame
    have hname : cstring b' (o + 4) = cstring b (o + 4) :=
      cstring_congr hsize fun x hx hx' ↦ hsame x (by omega) (.inl (by omega)) (by omega)
    rw [Items.reread, ← hname]
    refine .node ((word_congr fun x hx hx' ↦ hsame x hx (.inl (by omega)) (by omega)).trans token)
      ?_ ((word_congr fun x hx hx' ↦ hsame x (by omega) (.inr hx) hx').trans close) ?_
    · rw [behindName, hname]
      refine ihb fun x hx hx' hne ↦ ?_
      rw [behindName] at hx
      rcases hcases x (by omega) (by omega) hne with h | ⟨p, hp, hcover⟩
      · exact h
      · have := hitems p hp x hcover
        omega
    · refine ihr fun x hx hx' hne ↦ ?_
      rcases hcases x (by omega) hx' hne with ⟨p, hp, hcover⟩ | h
      · have := hbody p hp x hcover
        omega
      · exact h

/-- A blob that is changed in values only is the blob of the tree with the new values. -/
theorem IsFdt.reread (h : IsFdt b name body stop) (hsize : b'.size = b.size)
    (hvalues : ∀ x, b'.byte x ≠ b.byte x → ∃ p ∈ body.props, p.Covers x) :
    IsFdt b' name (body.reread b') stop := by
  have hprops : (tree name body).props = body.props := List.append_nil _
  have hbounds : ∀ x, b'.byte x ≠ b.byte x → offStruct b + 12 ≤ x ∧ x < stop := by
    intro x hne
    obtain ⟨p, hp, hcover, hcover'⟩ := hvalues x hne
    have := h.root.mem_bounds p (hprops ▸ hp)
    omega
  have hstruct := h.header_struct
  have hheader : ∀ x < 40, b'.byte x = b.byte x := by
    intro x hx
    by_contra hne
    have := hbounds x hne
    omega
  have hword : ∀ o, o + 4 ≤ 40 → word b' o = word b o := fun o ho ↦
    word_congr fun x _ hx ↦ hheader x (by omega)
  have hsame : ∀ x, x < offStruct b ∨ stop ≤ x → b'.byte x = b.byte x := by
    intro x hx
    by_contra hne
    have := hbounds x hne
    omega
  have hoffStruct : offStruct b' = offStruct b := hword 8 (by omega)
  have hoffStrings : offStrings b' = offStrings b := hword 12 (by omega)
  have hsizeStrings : sizeStrings b' = sizeStrings b := hword 32 (by omega)
  have hsizeStruct : sizeStruct b' = sizeStruct b := hword 36 (by omega)
  have htotal : totalSize b' = totalSize b := hword 4 (by omega)
  have hroot : Encodes b' (offStruct b) ((tree name body).reread b') stop := by
    refine h.root.reread hsize hheader (fun x hx hx' ↦ hsame x ?_) fun x _ _ hne ↦ ?_
    · have := h.apart
      omega
    · rw [hprops]
      exact hvalues x hne
  exact {
    magic := (hword 0 (by omega)).trans h.magic
    total := by rw [htotal, hsize, h.total]
    aligned := by rw [hoffStruct]; exact h.aligned
    header_struct := by rw [hoffStruct]; exact h.header_struct
    header_strings := by rw [hoffStrings]; exact h.header_strings
    root := by rw [hoffStruct]; exact hroot
    finish := (word_congr fun x hx _ ↦ hsame x (.inr hx)).trans h.finish
    inside := by rw [hsize]; exact h.inside
    struct_size := by rw [hsizeStruct, hoffStruct]; exact h.struct_size
    strings_inside := by rw [hoffStrings, hsizeStrings, hsize]; exact h.strings_inside
    apart := by rw [hoffStrings, hsizeStrings, hoffStruct]; exact h.apart }

/-! ## Writing a blob -/

def encodeWord (n : ℕ) : List UInt8 :=
  [.ofNat (n / 16777216), .ofNat (n / 65536), .ofNat (n / 256), .ofNat n]

/-- The bytes, filled up with zeros to a multiple of four. -/
def padded (bytes : List UInt8) : List UInt8 :=
  bytes ++ List.replicate (align4 bytes.length - bytes.length) 0

def encodeNode (name content : List UInt8) : List UInt8 :=
  encodeWord beginNodeToken ++ padded (name ++ [0]) ++ content ++ encodeWord endNodeToken

def encodeProp (nameOff : ℕ) (value : List UInt8) : List UInt8 :=
  encodeWord propToken ++ encodeWord value.length ++ encodeWord nameOff ++ padded value

/-- A blob with an empty memory reservation block, the root and the strings. -/
def blobOf (strings root : List UInt8) : Buf :=
  let struct := root ++ encodeWord endToken
  .ofList ([magicNumber, 56 + struct.length + strings.length, 56, 56 + struct.length, 40, 17, 16, 0,
    strings.length, struct.length].flatMap encodeWord ++ List.replicate 16 0 ++ struct ++ strings)

/-! ## Reading the tokens in one pass -/

/-- A program that reads the tokens keeps a state. At each token it goes on with a new state or ends
with a result. -/
structure Walker (σ ρ : Type) where
  beginNode : σ → List UInt8 → Except ρ σ
  endNode : σ → Except ρ σ
  property : σ → Property → Except ρ σ
  finish : σ → ρ
  unknown : σ → ρ

variable {σ ρ : Type}

namespace Walker

/-- The loop over the tokens, from the one at `o` on. -/
def loop (w : Walker σ ρ) (b : Buf) : ℕ → ℕ → σ → Option ρ
  | 0, _, _ => none
  | fuel + 1, o, s =>
    if word b o = beginNodeToken then
      match w.beginNode s (cstring b (o + 4)) with
      | .ok s => loop w b fuel (behindName b o) s
      | .error r => some r
    else if word b o = endNodeToken then
      match w.endNode s with
      | .ok s => loop w b fuel (o + 4) s
      | .error r => some r
    else if word b o = propToken then
      match w.property s (propertyAt b o) with
      | .ok s => loop w b fuel (behindProperty b o) s
      | .error r => some r
    else if word b o = nopToken then loop w b fuel (o + 4) s
    else if word b o = endToken then some (w.finish s)
    else some (w.unknown s)

/-- The recursion over the tree. -/
def items (w : Walker σ ρ) : Items → σ → Except ρ σ
  | .nil, s => .ok s
  | .prop p rest, s => (w.property s p).bind (w.items rest)
  | .node name body rest, s =>
    (w.beginNode s name).bind fun s ↦ (w.items body s).bind fun s ↦
      (w.endNode s).bind (w.items rest)

/-- What the walk over the tree ends with. -/
def result (w : Walker σ ρ) (t : Items) (s : σ) : ρ :=
  match w.items t s with
  | .ok s => w.finish s
  | .error r => r

/-- The same walk, with something made of what it ends with. -/
def mapResult {τ : Type} (w : Walker σ ρ) (f : ρ → τ) : Walker σ τ where
  beginNode s name := (w.beginNode s name).mapError f
  endNode s := (w.endNode s).mapError f
  property s p := (w.property s p).mapError f
  finish s := f (w.finish s)
  unknown s := f (w.unknown s)

theorem loop_mapResult {τ : Type} (w : Walker σ ρ) (f : ρ → τ) (b : Buf) (fuel o : ℕ) (s : σ) :
    (w.mapResult f).loop b fuel o s = (w.loop b fuel o s).map f := by
  induction fuel generalizing o s with
  | zero => rfl
  | succ fuel ih =>
    rw [loop, loop]
    dsimp only [mapResult]
    split_ifs
    · cases w.beginNode s (cstring b (o + 4)) with
      | ok s => exact ih _ s
      | error r => rfl
    · cases w.endNode s with
      | ok s => exact ih _ s
      | error r => rfl
    · cases w.property s (propertyAt b o) with
      | ok s => exact ih _ s
      | error r => rfl
    · exact ih _ s
    · rfl
    · rfl

end Walker

/-- With enough fuel the program gives `r`. -/
def Yields (f : ℕ → Option ρ) (r : ρ) : Prop := ∃ n, ∀ fuel, n ≤ fuel → f fuel = some r

theorem Yields.unique {f : ℕ → Option ρ} {r r' : ρ} (h : Yields f r) (h' : Yields f r') :
    r = r' := by
  obtain ⟨n, hn⟩ := h
  obtain ⟨m, hm⟩ := h'
  have := hn (max n m) (le_max_left n m)
  rw [hm (max n m) (le_max_right n m)] at this
  exact (Option.some.inj this).symm

theorem Yields.iff {f : ℕ → Option ρ} {r r' : ρ} (h : Yields f r) : Yields f r' ↔ r = r' :=
  ⟨fun h' ↦ h.unique h', fun h' ↦ h' ▸ h⟩

theorem Yields.exists_iff {f : ℕ → Option ρ} {r : ρ} (h : Yields f r) {P : ρ → Prop} :
    (∃ r', Yields f r' ∧ P r') ↔ P r :=
  ⟨fun ⟨_, h', hP⟩ ↦ h.unique h' ▸ hP, fun hP ↦ ⟨r, h, hP⟩⟩

theorem Yields.map {τ : Type} {f : ℕ → Option ρ} {r : ρ} (h : Yields f r) (g : ρ → τ) :
    Yields (fun fuel ↦ (f fuel).map g) (g r) := by
  obtain ⟨n, hn⟩ := h
  refine ⟨n, fun fuel hf ↦ ?_⟩
  dsimp only
  rw [hn fuel hf, Option.map_some]

theorem Yields.bind {τ : Type} {f : ℕ → Option ρ} {r : ρ} {g : ρ → ℕ → Option τ} {t : τ}
    (h : Yields f r) (hg : Yields (g r) t) :
    Yields (fun fuel ↦ (f fuel).bind fun r ↦ g r fuel) t := by
  obtain ⟨n, hn⟩ := h
  obtain ⟨m, hm⟩ := hg
  refine ⟨max n m, fun fuel hf ↦ ?_⟩
  dsimp only
  rw [hn fuel (le_trans (le_max_left n m) hf), Option.bind_some,
    hm fuel (le_trans (le_max_right n m) hf)]

namespace Walker

/-- How the loop goes on from `stop`. -/
def resume (w : Walker σ ρ) (b : Buf) (fuel stop : ℕ) : Except ρ σ → Option ρ
  | .ok s => w.loop b fuel stop s
  | .error r => some r

/-- From `o` in the state `s` the loop comes to `stop` in a state, or has ended before. -/
def Reaches (w : Walker σ ρ) (b : Buf) (o : ℕ) (s : σ) (stop : ℕ) (e : Except ρ σ) : Prop :=
  ∃ n, ∀ fuel, w.loop b (fuel + n) o s = w.resume b fuel stop e

namespace Reaches

variable {w : Walker σ ρ} {b : Buf} {o mid stop : ℕ} {s : σ} {e : Except ρ σ}

theorem refl (o : ℕ) (s : σ) : w.Reaches b o s o (.ok s) := ⟨0, fun _ ↦ rfl⟩

theorem bind {f : σ → Except ρ σ} (h : w.Reaches b o s mid e)
    (hf : ∀ s', w.Reaches b mid s' stop (f s')) : w.Reaches b o s stop (e.bind f) := by
  obtain ⟨n, hn⟩ := h
  rcases e with r | s'
  · exact ⟨n, hn⟩
  · obtain ⟨m, hm⟩ := hf s'
    refine ⟨m + n, fun fuel ↦ ?_⟩
    rw [← Nat.add_assoc, hn]
    exact hm fuel

theorem of_step (h : ∀ fuel, w.loop b (fuel + 1) o s = w.resume b fuel stop e) :
    w.Reaches b o s stop e := ⟨1, h⟩

theorem beginNode (token : word b o = beginNodeToken) (s : σ) :
    w.Reaches b o s (behindName b o) (w.beginNode s (cstring b (o + 4))) := by
  apply of_step
  intro fuel
  rw [loop, token, if_pos rfl]
  rcases w.beginNode s (cstring b (o + 4)) with r | s' <;> rfl

theorem endNode (token : word b o = endNodeToken) (s : σ) :
    w.Reaches b o s (o + 4) (w.endNode s) := by
  apply of_step
  intro fuel
  rw [loop, token, if_neg (by decide), if_pos rfl]
  rcases w.endNode s with r | s' <;> rfl

theorem property (token : word b o = propToken) (s : σ) :
    w.Reaches b o s (behindProperty b o) (w.property s (propertyAt b o)) := by
  apply of_step
  intro fuel
  rw [loop, token, if_neg (by decide), if_neg (by decide), if_pos rfl]
  rcases w.property s (propertyAt b o) with r | s' <;> rfl

theorem nop (token : word b o = nopToken) (s : σ) : w.Reaches b o s (o + 4) (.ok s) := by
  apply of_step
  intro fuel
  rw [loop, token, if_neg (by decide), if_neg (by decide), if_neg (by decide), if_pos rfl]
  rfl

end Reaches

end Walker

/-- **The loop follows the tree.** From the first token of some items the loop comes to the token
behind them in the state that the recursion over the items gives, or ends as the recursion does. -/
theorem Encodes.reaches {items : Items} (h : Encodes b o items stop) (w : Walker σ ρ) (s : σ) :
    w.Reaches b o s stop (w.items items s) := by
  induction h generalizing s with
  | nil o => exact .refl o s
  | nop token _ ih => exact (Walker.Reaches.nop token s).bind ih
  | prop token _ _ ih => exact (Walker.Reaches.property token s).bind ih
  | node token _ close _ ihb ihr =>
    exact (Walker.Reaches.beginNode token s).bind fun s ↦
      (ihb s).bind fun s ↦ (Walker.Reaches.endNode close s).bind ihr

/-- **A walk over a blob** ends, with what the recursion over the tree gives. -/
theorem IsFdt.walk (h : IsFdt b name body stop) (w : Walker σ ρ) (s : σ) :
    Yields (fun fuel ↦ w.loop b fuel (offStruct b) s) (w.result (tree name body) s) := by
  obtain ⟨n, hn⟩ := h.root.reaches w s
  refine ⟨n + 1, fun fuel hf ↦ ?_⟩
  obtain ⟨k, rfl⟩ := Nat.exists_eq_add_of_le' hf
  dsimp only
  rw [← Nat.add_assoc, Nat.add_right_comm, hn (k + 1), Walker.result]
  rcases w.items (tree name body) s with r | s'
  · rfl
  · rw [Walker.resume, Walker.loop, h.finish, if_neg (by decide), if_neg (by decide),
      if_neg (by decide), if_neg (by decide), if_pos rfl]

end DeviceTree
