import CaribeOS.Foundation.ByteMemory
import CaribeOS.Foundation.DeviceTree

/-!
# The booter's device tree reader

The booter finds its devices by walking over the flattened device tree once, with a small stack of
flags, one for each open node (`fdt_min.c`). It packs what it finds into the boot arguments
(`bootargs_pack.c`) and takes the addresses of the QEMU machine where it finds nothing.

Offsets are numbers here, for the blobs in question fit into the address space; the blob itself stands
at an address that is a multiple of four. `none` is the null pointer.
-/

namespace CaribeOS.Fdt

open DeviceTree
open FileScript (Buf)
open ByteMemory (cString)

/-! ## Lists of strings -/

/-- The strings of a value, each up to a zero or to the end of the value. -/
def stringsFrom : ℕ → List UInt8 → List (List UInt8)
  | 0, _ => []
  | _ + 1, [] => []
  | n + 1, c :: data =>
    let s := (c :: data).takeWhile (· ≠ 0)
    s :: stringsFrom n ((c :: data).drop (s.length + 1))

def strings (value : List UInt8) : List (List UInt8) := stringsFrom value.length value

/-- The loop of `compat_matches`: the data is what is left of the value. -/
def compatMatchesFrom (needle : List UInt8) : ℕ → List UInt8 → Bool
  | 0, _ => false
  | _ + 1, [] => false
  | n + 1, c :: data =>
    let s := (c :: data).takeWhile (· ≠ 0)
    if s = needle then true else compatMatchesFrom needle n ((c :: data).drop (s.length + 1))

/-- The length is an `int`, so that a value of 2 GiB and more has a negative one. -/
def compatMatches (data needle : List UInt8) : Bool :=
  if data.length < 2147483648 then compatMatchesFrom needle data.length data else false

/-! ## The walks -/

/-- The big-endian number of some bytes. -/
def number (bytes : List UInt8) : ℕ := bytes.foldl (fun n c ↦ n * 256 + c.toNat) 0

/-- The first cell of a `reg` property. -/
def firstCell (value : List UInt8) : ℕ := number (value.take 4)

/-- The stack of flags has room for 32 nodes. -/
def pushFlag (flags : List Bool) : List Bool := if flags.length < 32 then false :: flags else flags

def findRegBase (compat : List UInt8) : Walker (List Bool) (Int × Option ℕ) where
  beginNode flags _ := .ok (pushFlag flags)
  endNode flags := .ok flags.tail
  property flags p :=
    match flags with
    | [] => .ok []
    | m :: flags =>
      let m := if cString "comp" <+: p.name ∧ compatMatches p.value compat then true else m
      if p.name = cString "reg" ∧ m ∧ 4 ≤ p.value.length then .error (0, some (firstCell p.value))
      else .ok (m :: flags)
  finish _ := (-3, none)
  unknown _ := (-4, none)

/-- The returned number, and what is written to `*out_base`. -/
def fdtFindRegBase (compat : List UInt8) (blob : Option Buf) (fuel : ℕ) : Option (Int × Option ℕ) :=
  match blob with
  | none => some (-1, none)
  | some dtb =>
    if word dtb 0 ≠ magicNumber then some (-2, none)
    else (findRegBase compat).loop dtb fuel (offStruct dtb) []

/-- The value is the string `cpu`, and maybe more behind its zero. -/
def IsCpu (p : Property) : Prop := p.name = cString "device_type" ∧ cString "cpu" ++ [0] <+: p.value
  deriving Decidable

/-- The state is the stack of flags and the count. -/
def countCpus : Walker (List Bool × ℕ) ℕ where
  beginNode s _ := .ok (pushFlag s.1, s.2)
  endNode s :=
    match s.1 with
    | [] => .ok s
    | m :: flags => .ok (flags, if m then s.2 + 1 else s.2)
  property s p :=
    match s.1 with
    | [] => .ok s
    | m :: flags => .ok ((if IsCpu p then true else m) :: flags, s.2)
  finish s := s.2
  unknown s := s.2

def fdtCountCpus (blob : Option Buf) (fuel : ℕ) : Option ℕ :=
  match blob with
  | none => some 0
  | some dtb =>
    if word dtb 0 ≠ magicNumber then some 0
    else countCpus.loop dtb fuel (offStruct dtb) ([], 0)

/-! ## The boot arguments -/

structure CaribeBootArgs where
  dtb : UInt32
  uartBase : ℕ
  plicBase : ℕ
  aclintBase : ℕ
  memMb : ℕ
  ncpus : ℕ

def tryCompat (blob : Option Buf) (compat : String) (default : ℕ) (fuel : ℕ) : Option ℕ :=
  (fdtFindRegBase (cString compat) blob fuel).map fun r ↦ if r.1 = 0 then r.2.getD 0 else default

def caribePackBootArgs (dtb : UInt32) (blob : Option Buf) (fuel : ℕ) : Option CaribeBootArgs := do
  let uartBase ← tryCompat blob "ns16550a" 0x10000000 fuel
  let plicBase ← tryCompat blob "riscv,plic0" 0x0c000000 fuel
  let clint ← tryCompat blob "riscv,clint0" 0x02000000 fuel
  let aclintBase ← tryCompat blob "riscv,aclint-mtimer" clint fuel
  let ncpus ← fdtCountCpus blob fuel
  some { dtb, uartBase, plicBase, aclintBase, memMb := 256, ncpus := if ncpus = 0 then 1 else ncpus }

/-! ## The walks over a tree -/

/-- The search takes the property for a `compatible` that lists the string. -/
def Mentions (compat : List UInt8) (p : Property) : Prop :=
  cString "comp" <+: p.name ∧ compatMatches p.value compat
  deriving Decidable

/-- A `reg` property of at least one cell. -/
def IsReg (p : Property) : Prop := p.name = cString "reg" ∧ 4 ≤ p.value.length
  deriving Decidable

/-- The `reg` property of a node at which the search ends, by the properties of the node in their
order: the first one behind a property that mentions the string. -/
def heard (compat : List UInt8) (ps : List Property) : Option Property :=
  (ps.dropWhile fun p ↦ ¬Mentions compat p).find? fun p ↦ IsReg p

/-- The address at which the search ends in a tree, node by node. -/
def heardIn (compat : List UInt8) : Items → Option ℕ
  | .nil => none
  | .prop _ rest => heardIn compat rest
  | .node _ body rest =>
    (((heard compat body.own).map fun p ↦ firstCell p.value).or (heardIn compat body)).or
      (heardIn compat rest)

/-- The rules of the format for the properties of a node: each name stands there once, and the nodes
in it come behind them. -/
def NodesOrdered : Items → Prop
  | .nil => True
  | .prop _ rest => NodesOrdered rest
  | .node _ body rest =>
    ((body.own.map Property.name).Nodup ∧ rest.own = []) ∧ NodesOrdered body ∧ NodesOrdered rest

instance decidableNodesOrdered : (t : Items) → Decidable (NodesOrdered t)
  | .nil => inferInstanceAs (Decidable True)
  | .prop _ rest => decidableNodesOrdered rest
  | .node _ body rest =>
    have := decidableNodesOrdered body
    have := decidableNodesOrdered rest
    inferInstanceAs (Decidable (_ ∧ _ ∧ _))

/-- A node with 32 nodes or more around it may share its flag with one of them. If one of them
mentions the string, it has no `reg`, as far as the search comes. -/
def Unshared (compat : List UInt8) : ℕ → Bool → Items → Prop
  | _, _, .nil => True
  | around, mentioned, .prop _ rest => Unshared compat around mentioned rest
  | around, mentioned, .node _ body rest =>
    (32 ≤ around → mentioned → ∀ p ∈ body.own, ¬IsReg p) ∧
      (heard compat body.own = none →
        Unshared compat (around + 1) (mentioned || body.own.any fun p ↦ Mentions compat p) body ∧
          (heardIn compat body = none → Unshared compat around mentioned rest))

/-- In a tree of at most 32 nodes inside each other nothing is shared. -/
theorem unshared_of_depth (compat : List UInt8) {t : Items} {around : ℕ} {mentioned : Bool}
    (h : around + t.depth ≤ 32) : Unshared compat around mentioned t := by
  induction t generalizing around mentioned with
  | nil => trivial
  | prop p rest ih => exact ih h
  | node name body rest ihb ihr =>
    rw [Items.depth] at h
    exact ⟨fun hdeep ↦ by omega, fun _ ↦ ⟨ihb (by omega), fun _ ↦ ihr (by omega)⟩⟩

/-- The nodes in a node, behind its properties. -/
def nodesOf : Items → Items
  | .nil => .nil
  | .prop _ rest => nodesOf rest
  | .node name body rest => .node name body rest

theorem nodesOf_eq_self {t : Items} (h : t.own = []) : nodesOf t = t := by
  cases t with
  | nil => rfl
  | prop p rest => exact absurd h (List.cons_ne_nil _ _)
  | node name body rest => rfl

theorem heard_cons (compat : List UInt8) (p : Property) (ps : List Property) :
    heard compat (p :: ps) =
      if Mentions compat p then (p :: ps).find? fun p ↦ IsReg p else heard compat ps := by
  by_cases hp : Mentions compat p <;> simp [heard, hp]

theorem heard_eq_none {compat : List UInt8} {ps : List Property}
    (h : ∀ p ∈ ps, ¬Mentions compat p) : heard compat ps = none := by
  induction ps with
  | nil => rfl
  | cons p ps ih =>
    rw [heard_cons, if_neg (h p List.mem_cons_self)]
    exact ih fun q hq ↦ h q (List.mem_cons_of_mem p hq)

theorem isReg_of_heard {compat : List UInt8} {ps : List Property} {p : Property}
    (h : heard compat ps = some p) : p ∈ ps ∧ IsReg p := by
  rw [heard] at h
  have hreg := List.find?_some h
  exact ⟨(List.dropWhile_suffix _).subset (List.mem_of_find?_eq_some h), of_decide_eq_true hreg⟩

/-- The search over the properties of a node, with its flag on top of the stack. -/
theorem findRegBase_own (compat : List UInt8) {t : Items} (hordered : NodesOrdered t) (m : Bool)
    (flags : List Bool) :
    (findRegBase compat).items t (m :: flags) =
      match if m then t.own.find? fun p ↦ IsReg p else heard compat t.own with
      | some p => .error (0, some (firstCell p.value))
      | none => (findRegBase compat).items (nodesOf t)
          ((m || t.own.any fun p ↦ Mentions compat p) :: flags) := by
  induction t generalizing m with
  | nil => cases m <;> rfl
  | prop p rest ih =>
    have hstep : (findRegBase compat).items (.prop p rest) (m :: flags) =
        if IsReg p ∧ (m || decide (Mentions compat p)) = true then
          .error (0, some (firstCell p.value))
        else (findRegBase compat).items rest ((m || decide (Mentions compat p)) :: flags) := by
      have hm : (if cString "comp" <+: p.name ∧ compatMatches p.value compat then true else m) =
          (m || decide (Mentions compat p)) := by
        change (if Mentions compat p then true else m) = _
        by_cases h : Mentions compat p
        · rw [if_pos h, decide_eq_true h, Bool.or_true]
        · rw [if_neg h, decide_eq_false h, Bool.or_false]
      rw [Walker.items]
      dsimp only [findRegBase]
      rw [hm]
      by_cases h : IsReg p ∧ (m || decide (Mentions compat p)) = true
      · rw [if_pos h, if_pos ⟨h.1.1, h.2, h.1.2⟩]
        rfl
      · rw [if_neg h, if_neg fun h' ↦ h ⟨⟨h'.1, h'.2.2⟩, h'.2.1⟩]
        rfl
    rw [hstep, ih hordered, Items.own, nodesOf, heard_cons, List.any_cons, ← Bool.or_assoc]
    by_cases hm : Mentions compat p <;> by_cases hr : IsReg p <;> cases m <;>
      simp [hm, hr]
  | node name body rest ihb ihr =>
    have hown : (Items.node name body rest).own = [] := hordered.1.2
    rw [hown, List.any_nil, Bool.or_false]
    cases m <;> rfl

theorem tail_suffix_of_suffix_cons {α : Type} {l l' : List α} {a : α} (h : l <:+ a :: l') :
    l.tail <:+ l' := by
  rcases List.suffix_cons_iff.mp h with rfl | h
  · exact List.suffix_rfl
  · exact (List.tail_suffix l).trans h

/-- The flag of a node is one of its own, or the one on top of a full stack. -/
theorem exists_pushFlag {flags : List Bool} {around : ℕ} (hlen : flags.length ≤ min 32 around) :
    ∃ m below, pushFlag flags = m :: below ∧ below <:+ flags ∧
      below.length + 1 ≤ min 32 (around + 1) ∧ (m = true → m ∈ flags ∧ 32 ≤ around) := by
  rw [le_min_iff] at hlen
  rw [pushFlag]
  split
  case isTrue hroom => exact ⟨false, flags, rfl, List.suffix_rfl, by omega, by simp⟩
  case isFalse hfull =>
    obtain ⟨m, below, rfl⟩ := List.exists_cons_of_length_pos (show 0 < flags.length by omega)
    rw [List.length_cons] at hlen hfull
    exact ⟨m, below, rfl, List.suffix_cons _ _, by omega, fun _ ↦ ⟨List.mem_cons_self, by omega⟩⟩

/-- Where no flag is shared, the search ends at the address of the first node that is heard, and else
the nodes leave no flag of their own. -/
theorem findRegBase_nodes (compat : List UInt8) {t : Items} (hordered : NodesOrdered t)
    {around : ℕ} {mentioned : Bool} (hunshared : Unshared compat around mentioned t)
    {flags : List Bool} (hlen : flags.length ≤ min 32 around)
    (hflags : true ∈ flags → mentioned = true) :
    match heardIn compat t with
    | some a => (findRegBase compat).items (nodesOf t) flags = .error (0, some a)
    | none => ∃ flags', flags' <:+ flags ∧
        (findRegBase compat).items (nodesOf t) flags = .ok flags' := by
  induction t generalizing around mentioned flags with
  | nil => exact ⟨flags, List.suffix_rfl, rfl⟩
  | prop p rest ih => exact ih hordered hunshared hlen hflags
  | node name body rest ihb ihr =>
    obtain ⟨⟨-, hrest⟩, hbody, hordered⟩ := hordered
    obtain ⟨hregs, hunshared⟩ := hunshared
    obtain ⟨m, below, hpush, hbelow, hlen', hm⟩ := exists_pushFlag hlen
    have hheard : (if m then body.own.find? fun p ↦ IsReg p else heard compat body.own) =
        heard compat body.own := by
      cases m with
      | false => rfl
      | true =>
        have hnone := hregs (hm rfl).2 (hflags (hm rfl).1)
        rw [if_pos rfl, List.find?_eq_none.mpr fun p hp ↦ by rw [decide_eq_false (hnone p hp)]; simp]
        symm
        rw [Option.eq_none_iff_forall_ne_some]
        intro p hp
        exact hnone p (isReg_of_heard hp).1 (isReg_of_heard hp).2
    have hitems : (findRegBase compat).items (.node name body rest) flags =
        ((findRegBase compat).items body (m :: below)).bind fun flags ↦
          (findRegBase compat).items rest flags.tail := by
      rw [← hpush]
      rfl
    rw [nodesOf, hitems, findRegBase_own compat hbody, hheard, heardIn]
    rcases hp : heard compat body.own with - | p
    · obtain ⟨hinside, hbehind⟩ := hunshared hp
      have hflags' : true ∈ (m || body.own.any fun p ↦ Mentions compat p) :: below →
          (mentioned || body.own.any fun p ↦ Mentions compat p) = true := by
        rw [List.mem_cons, eq_comm, Bool.or_eq_true, Bool.or_eq_true]
        rintro ((rfl | hany) | hmem)
        · exact Or.inl (hflags (hm rfl).1)
        · exact Or.inr hany
        · exact Or.inl (hflags (hbelow.subset hmem))
      have hrun := ihb hbody hinside (by rwa [List.length_cons]) hflags'
      dsimp only [Option.map_none, Option.none_or]
      rcases hin : heardIn compat body with - | a
      · rw [hin] at hrun
        obtain ⟨flags', hsuffix, hrun⟩ := hrun
        rw [hrun, Option.none_or]
        have hleft : flags'.tail <:+ flags := (tail_suffix_of_suffix_cons hsuffix).trans hbelow
        have hrun := ihr hordered (hbehind hin) (hleft.length_le.trans hlen)
          fun h ↦ hflags (hleft.subset h)
        rw [nodesOf_eq_self hrest] at hrun
        rcases hout : heardIn compat rest with - | a
        · rw [hout] at hrun
          obtain ⟨flags'', hsuffix, hrun⟩ := hrun
          exact ⟨flags'', hsuffix.trans hleft, hrun⟩
        · rw [hout] at hrun
          exact hrun
      · rw [hin] at hrun
        rw [hrun]
        rfl
    · rfl

/-- The number of nodes that have a property of some kind. -/
def nodesWith (P : Property → Bool) : Items → ℕ
  | .nil => 0
  | .prop _ rest => nodesWith P rest
  | .node _ body rest => (if body.own.any P then 1 else 0) + nodesWith P body + nodesWith P rest

theorem countCpus_items {t : Items} {m : Bool} {flags : List Bool} {n : ℕ}
    (hdepth : flags.length + 1 + t.depth ≤ 32) :
    countCpus.items t (m :: flags, n) =
      .ok ((m || t.own.any fun p ↦ IsCpu p) :: flags, n + nodesWith (fun p ↦ IsCpu p) t) := by
  induction t generalizing m flags n with
  | nil => rw [Items.own, List.any_nil, Bool.or_false]; rfl
  | prop p rest ih =>
    rw [Walker.items, Items.own, nodesWith, List.any_cons, ← Bool.or_assoc]
    refine (ih hdepth).trans ?_
    have : (if IsCpu p then true else m) = (m || decide (IsCpu p)) := by
      by_cases hp : IsCpu p <;> simp [hp]
    rw [this]
  | node name body rest ihb ihr =>
    rw [Items.depth] at hdepth
    have hlen : (m :: flags).length < 32 := by
      rw [List.length_cons]
      omega
    have hbegin : countCpus.beginNode (m :: flags, n) name = .ok (false :: m :: flags, n) := by
      dsimp only [countCpus, pushFlag]
      rw [if_pos hlen]
    rw [Walker.items, hbegin, Except.bind, ihb (by rw [List.length_cons]; omega), Bool.false_or,
      Items.own, nodesWith]
    refine (ihr (by omega)).trans ?_
    split <;> congr 2 <;> omega

variable {body : Items} {name : List UInt8} {b : Buf} {stop : ℕ}

theorem depth_body_le (h : (tree name body).depth ≤ 32) :
    ([] : List Bool).length + 1 + body.depth ≤ 32 := by
  have : body.depth + 1 ≤ (tree name body).depth := le_max_left _ _
  rw [List.length_nil]
  omega

theorem countCpus_result (h : (tree name body).depth ≤ 32) :
    countCpus.result (tree name body) ([], 0) = nodesWith (fun p ↦ IsCpu p) (tree name body) := by
  have hrun := @countCpus_items body false [] 0 (depth_body_le h)
  have hitems : countCpus.items (tree name body) ([], 0) =
      (Except.ok ((false || body.own.any fun p ↦ IsCpu p) :: [],
        0 + nodesWith (fun p ↦ IsCpu p) body)).bind fun s ↦
          (countCpus.endNode s).bind (countCpus.items .nil) := by
    rw [← hrun]
    rfl
  rw [Walker.result, hitems, nodesWith, nodesWith]
  dsimp only [Except.bind, countCpus, Walker.items]
  rw [Bool.false_or]
  split <;> omega

theorem fdtCountCpus_yields (h : IsFdt b name body stop) :
    Yields (fdtCountCpus (some b)) (countCpus.result (tree name body) ([], 0)) := by
  have heq : fdtCountCpus (some b) = fun fuel ↦ countCpus.loop b fuel (offStruct b) ([], 0) := by
    funext fuel
    rw [fdtCountCpus, if_neg (not_not.mpr h.magic)]
  rw [heq]
  exact h.walk countCpus ([], 0)

/-- What a search returns that ends at an address, or nowhere. -/
def answer : Option ℕ → Int × Option ℕ
  | some a => (0, some a)
  | none => (-3, none)

theorem answer_injective : Function.Injective answer := by
  intro a a' h
  rcases a with - | a <;> rcases a' with - | a'
  · rfl
  · exact absurd (congrArg Prod.fst h) (show ¬(-3 : Int) = 0 by decide)
  · exact absurd (congrArg Prod.fst h) (show ¬(0 : Int) = -3 by decide)
  · exact congrArg Prod.snd h

theorem fdtFindRegBase_walk (h : IsFdt b name body stop) (compat : List UInt8) :
    Yields (fdtFindRegBase compat (some b)) ((findRegBase compat).result (tree name body) []) := by
  have heq : fdtFindRegBase compat (some b) =
      fun fuel ↦ (findRegBase compat).loop b fuel (offStruct b) [] := by
    funext fuel
    rw [fdtFindRegBase, if_neg (not_not.mpr h.magic)]
  rw [heq]
  exact h.walk (findRegBase compat) []

theorem fdtFindRegBase_yields (h : IsFdt b name body stop) (hordered : NodesOrdered (tree name body))
    {compat : List UInt8} (hunshared : Unshared compat 0 false (tree name body)) :
    Yields (fdtFindRegBase compat (some b)) (answer (heardIn compat (tree name body))) := by
  have hrun := findRegBase_nodes compat hordered hunshared (Nat.zero_le _) List.not_mem_nil.elim
  have hresult : (findRegBase compat).result (tree name body) [] =
      answer (heardIn compat (tree name body)) := by
    rw [Walker.result]
    rcases hheard : heardIn compat (tree name body) with - | a
    · rw [hheard] at hrun
      obtain ⟨flags, -, hrun⟩ := hrun
      rw [nodesOf_eq_self rfl] at hrun
      rw [hrun]
      rfl
    · rw [hheard, nodesOf_eq_self rfl] at hrun
      rw [hrun]
      rfl
  rw [← hresult]
  exact fdtFindRegBase_walk h compat

/-- The base of a device for the boot arguments. -/
def searched (t : Items) (compat : String) (default : ℕ) : ℕ :=
  let r := (findRegBase (cString compat)).result t []
  if r.1 = 0 then r.2.getD 0 else default

theorem tryCompat_yields (h : IsFdt b name body stop) (compat : String) (default : ℕ) :
    Yields (tryCompat (some b) compat default) (searched (tree name body) compat default) :=
  (fdtFindRegBase_walk h (cString compat)).map fun r ↦ if r.1 = 0 then r.2.getD 0 else default

/-- The boot arguments of a tree. -/
def packed (dtb : UInt32) (t : Items) : CaribeBootArgs where
  dtb
  uartBase := searched t "ns16550a" 0x10000000
  plicBase := searched t "riscv,plic0" 0x0c000000
  aclintBase := searched t "riscv,aclint-mtimer" (searched t "riscv,clint0" 0x02000000)
  memMb := 256
  ncpus := max 1 (countCpus.result t ([], 0))

theorem max_one_eq (n : ℕ) : max 1 n = if n = 0 then 1 else n := by
  split <;> omega

theorem caribePackBootArgs_yields (h : IsFdt b name body stop) (dtb : UInt32) :
    Yields (caribePackBootArgs dtb (some b)) (packed dtb (tree name body)) := by
  refine (tryCompat_yields h _ _).bind ((tryCompat_yields h _ _).bind
    ((tryCompat_yields h _ _).bind ((tryCompat_yields h _ _).bind
      ((fdtCountCpus_yields h).bind ⟨0, fun _ _ ↦ ?_⟩))))
  rw [packed, max_one_eq]

/-! ## What the tree says -/

/-- The number of cells of an address inside a node: two where the node does not say. -/
def addressCells (body : Items) : ℕ :=
  match body.own.find? fun p ↦ p.name = cString "#address-cells" with
  | some p => number p.value
  | none => 2

/-- The node has the string in its `compatible` list. -/
def Lists (compat : List UInt8) (body : Items) : Prop :=
  ∃ p ∈ body.own, p.name = cString "compatible" ∧ compat ∈ strings p.value
  deriving Decidable

/-- The address of a device: that of its node's `reg`, in the cells of the node around it. -/
def nodeAddress (compat : List UInt8) (cells : ℕ) (body : Items) : Option ℕ :=
  if Lists compat body then
    (body.own.find? fun p ↦ p.name = cString "reg").map fun p ↦ number (p.value.take (4 * cells))
  else none

/-- The address of the first device in preorder. -/
def deviceAddress (compat : List UInt8) : ℕ → Items → Option ℕ
  | _, .nil => none
  | cells, .prop _ rest => deviceAddress compat cells rest
  | cells, .node _ body rest =>
    ((nodeAddress compat cells body).or (deviceAddress compat (addressCells body) body)).or
      (deviceAddress compat cells rest)

/-- The address of the first device in a whole tree, around whose root there is no node. -/
def treeAddress (compat : String) (t : Items) : Option ℕ := deviceAddress (cString compat) 2 t

/-- The boot arguments have the addresses of the UART, the PLIC and the timer that the tree has. -/
structure Reports (t : Items) (args : CaribeBootArgs) : Prop where
  uart : ∀ a, treeAddress "ns16550a" t = some a → args.uartBase = a
  plic : ∀ a, treeAddress "riscv,plic0" t = some a → args.plicBase = a
  timer : ∀ a, (treeAddress "riscv,aclint-mtimer" t).or (treeAddress "riscv,clint0" t) = some a →
    args.aclintBase = a

/-! ## Sample trees -/

/-- The names of the properties of the samples. -/
def sampleNames : List String := ["#address-cells", "compatible", "reg", "bootargs", "device_type"]

def sampleStrings : List UInt8 := sampleNames.flatMap fun s ↦ cString s ++ [0]

/-- A property of the samples, with its name at an offset of `sampleStrings`. -/
def addressCellsOne : List UInt8 := encodeProp 0 (encodeWord 1)
def compatibleUart : List UInt8 := encodeProp 15 (cString "ns16550a" ++ [0])
def regUart : List UInt8 := encodeProp 26 (encodeWord 0x10010000 ++ encodeWord 256)
def bootargsOf (value : List UInt8) : List UInt8 := encodeProp 30 value
def deviceTypeOf (type : String) : List UInt8 := encodeProp 39 (cString type ++ [0])

/-- A machine with boot arguments and a UART, one address cell wide. -/
def uartBlob : Buf :=
  blobOf sampleStrings (encodeNode [] (addressCellsOne ++
    encodeNode (cString "chosen") (bootargsOf (cString "debug" ++ [0, 0, 0])) ++
    encodeNode (cString "serial") (compatibleUart ++ regUart)))

/-- A machine whose UART has its properties the other way round. -/
def regFirstBlob : Buf :=
  blobOf sampleStrings (encodeNode [] (addressCellsOne ++
    encodeNode (cString "serial") (regUart ++ compatibleUart)))

def readTree (b : Buf) : Items :=
  match readItems b 100 (offStruct b) with
  | some (.node _ body _, _) => body
  | _ => .nil

theorem isFdt_uartBlob : IsFdt uartBlob [] (readTree uartBlob) 180 :=
  isFdt_of_readItems (show readItems uartBlob 100 _ = _ by decide +kernel) (by decide +kernel)

theorem isFdt_regFirstBlob : IsFdt regFirstBlob [] (readTree regFirstBlob) 144 :=
  isFdt_of_readItems (show readItems regFirstBlob 100 _ = _ by decide +kernel) (by decide +kernel)

/-! ## The search and the tree -/

/-- A node for which the search and the tree agree, by the order of its properties, its cells and its
`comp…` properties. -/
structure PlainNode (compat : List UInt8) (cells : ℕ) (body : Items) : Prop where
  /-- The `reg` of a device has a cell and stands behind the property that lists the string. -/
  order : Lists compat body → ∀ r ∈ body.own.find? fun p ↦ p.name = cString "reg",
    heard compat body.own = some r
  /-- The first cell of this `reg` is the whole address. -/
  cells : Lists compat body → ∀ r ∈ body.own.find? fun p ↦ p.name = cString "reg",
    firstCell r.value = number (r.value.take (4 * cells))
  /-- Of another node no `reg` stands behind a property `comp…` that lists the string. -/
  comp : ¬Lists compat body → heard compat body.own = none

/-- The nodes up to the first device are plain. -/
def Plain (compat : List UInt8) : ℕ → Items → Prop
  | _, .nil => True
  | cells, .prop _ rest => Plain compat cells rest
  | cells, .node _ body rest =>
    PlainNode compat cells body ∧
      (nodeAddress compat cells body = none →
        Plain compat (addressCells body) body ∧
          (deviceAddress compat (addressCells body) body = none → Plain compat cells rest))

theorem plainNode_iff {compat : List UInt8} {cells : ℕ} {body : Items}
    (hnames : (body.own.map Property.name).Nodup) :
    PlainNode compat cells body ↔
      (heard compat body.own).map (fun p ↦ firstCell p.value) = nodeAddress compat cells body := by
  have hreg : ∀ p, heard compat body.own = some p → p ∈ body.own ∧ p.name = cString "reg" :=
    fun p hp ↦ ⟨(isReg_of_heard hp).1, (isReg_of_heard hp).2.1⟩
  rw [nodeAddress]
  by_cases hl : Lists compat body
  · rw [if_pos hl]
    rcases hr : body.own.find? fun p ↦ p.name = cString "reg" with - | r
    · have hheard : heard compat body.own = none := by
        rw [Option.eq_none_iff_forall_ne_some]
        intro p hp
        have := List.find?_eq_none.mp hr p (hreg p hp).1
        simp [(hreg p hp).2] at this
      rw [hheard, hr]
      exact ⟨fun _ ↦ rfl, fun _ ↦ ⟨by simp [hr], by simp [hr], fun _ ↦ hheard⟩⟩
    · rw [hr, Option.map_some]
      constructor
      · intro h
        rw [h.order hl r hr, Option.map_some, h.cells hl r hr]
      · intro h
        obtain ⟨p, hp, hcell⟩ := Option.map_eq_some_iff.mp h
        obtain rfl : p = r := by
          refine List.inj_on_of_nodup_map hnames (hreg p hp).1 (List.mem_of_find?_eq_some hr) ?_
          have := List.find?_some hr
          rw [(hreg p hp).2, of_decide_eq_true this]
        refine ⟨fun _ r hr' ↦ ?_, fun _ r hr' ↦ ?_, fun hl' ↦ absurd hl hl'⟩
        all_goals obtain rfl := Option.some.inj (hr.symm.trans hr')
        · exact hp
        · exact hcell
  · rw [if_neg hl, Option.map_eq_none_iff]
    exact ⟨fun h ↦ h.comp hl, fun h ↦ ⟨fun hl' ↦ absurd hl' hl, fun hl' ↦ absurd hl' hl, fun _ ↦ h⟩⟩

theorem Plain.heardIn_eq {compat : List UInt8} {cells : ℕ} {t : Items} (hordered : NodesOrdered t)
    (h : Plain compat cells t) : heardIn compat t = deviceAddress compat cells t := by
  induction t generalizing cells with
  | nil => rfl
  | prop p rest ih => exact ih hordered h
  | node name body rest ihb ihr =>
    obtain ⟨⟨hnames, -⟩, hbody, hordered⟩ := hordered
    obtain ⟨hnode, h⟩ := h
    rw [heardIn, deviceAddress, (plainNode_iff hnames).mp hnode]
    rcases hn : nodeAddress compat cells body with - | a
    · obtain ⟨hin, hbehind⟩ := h hn
      rw [Option.none_or, Option.none_or, ihb hbody hin]
      rcases hb : deviceAddress compat (addressCells body) body with - | a
      · rw [Option.none_or, Option.none_or, ihr hordered (hbehind hb)]
      · rfl
    · rfl

/-- The property is one `comp…` that lists the string. -/
def Names (compat : List UInt8) (p : Property) : Prop :=
  cString "comp" <+: p.name ∧ compat ∈ strings p.value
  deriving Decidable

theorem mem_stringsFrom_of_compatMatchesFrom {needle : List UInt8} {n : ℕ} {data : List UInt8}
    (h : compatMatchesFrom needle n data = true) : needle ∈ stringsFrom n data := by
  fun_induction compatMatchesFrom needle n data with
  | case1 => cases h
  | case2 => cases h
  | case3 n c data s hs =>
    rw [stringsFrom]
    exact List.mem_cons.mpr (Or.inl hs.symm)
  | case4 n c data s hs ih =>
    rw [stringsFrom]
    exact List.mem_cons_of_mem _ (ih h)

theorem Mentions.names {compat : List UInt8} {p : Property} (h : Mentions compat p) :
    Names compat p := by
  obtain ⟨hcomp, h⟩ := h
  rw [compatMatches] at h
  split at h
  · exact ⟨hcomp, mem_stringsFrom_of_compatMatchesFrom h⟩
  · cases h

/-- A node without a property `comp…` that lists the string is no device, and not heard. -/
theorem none_of_not_names {compat : List UInt8} {body : Items} (cells : ℕ)
    (h : (body.own.any fun p ↦ Names compat p) = false) :
    heard compat body.own = none ∧ nodeAddress compat cells body = none := by
  have hno : ∀ p ∈ body.own, ¬Names compat p := by simpa using h
  constructor
  · exact heard_eq_none fun p hp hm ↦ hno p hp hm.names
  · rw [nodeAddress, if_neg]
    rintro ⟨p, hp, hname, hstring⟩
    exact hno p hp ⟨by rw [hname]; decide, hstring⟩

theorem none_of_nodesWith_names (compat : List UInt8) (t : Items) (cells : ℕ)
    (h : nodesWith (fun p ↦ Names compat p) t = 0) :
    heardIn compat t = none ∧ deviceAddress compat cells t = none := by
  induction t generalizing cells with
  | nil => exact ⟨rfl, rfl⟩
  | prop p rest ih => exact ih cells h
  | node name body rest ihb ihr =>
    rw [nodesWith] at h
    have hown : (body.own.any fun p ↦ Names compat p) = false := by
      by_contra hany
      rw [Bool.not_eq_false] at hany
      rw [if_pos hany] at h
      omega
    rw [heardIn, deviceAddress, (none_of_not_names cells hown).1, (none_of_not_names cells hown).2,
      (ihb (addressCells body) (by omega)).1, (ihb (addressCells body) (by omega)).2,
      (ihr cells (by omega)).1, (ihr cells (by omega)).2]
    exact ⟨rfl, rfl⟩

theorem plain_of_heardIn_eq {compat : List UInt8} {cells : ℕ} {t : Items}
    (hordered : NodesOrdered t) (hone : nodesWith (fun p ↦ Names compat p) t ≤ 1)
    (h : heardIn compat t = deviceAddress compat cells t) : Plain compat cells t := by
  induction t generalizing cells with
  | nil => trivial
  | prop p rest ih => exact ih hordered hone h
  | node name body rest ihb ihr =>
    obtain ⟨⟨hnames, -⟩, hbody, hordered⟩ := hordered
    rw [nodesWith] at hone
    rw [heardIn, deviceAddress] at h
    rw [Plain, plainNode_iff hnames]
    rcases hany : body.own.any fun p ↦ Names compat p with - | -
    · obtain ⟨hheard, hnode⟩ := none_of_not_names cells hany
      rw [hheard, hnode, Option.map_none, Option.none_or, Option.none_or] at h
      refine ⟨by rw [hheard, hnode, Option.map_none], fun _ ↦ ?_⟩
      by_cases hin : nodesWith (fun p ↦ Names compat p) body = 0
      · obtain ⟨hheard, hdevice⟩ := none_of_nodesWith_names compat body (addressCells body) hin
        rw [hheard, hdevice, Option.none_or, Option.none_or] at h
        exact ⟨ihb hbody (by omega) (hheard.trans hdevice.symm), fun _ ↦ ihr hordered (by omega) h⟩
      · obtain ⟨hheard, hdevice⟩ := none_of_nodesWith_names compat rest cells (by omega)
        rw [hheard, hdevice, Option.or_none, Option.or_none] at h
        exact ⟨ihb hbody (by omega) h, fun _ ↦ ihr hordered (by omega) (hheard.trans hdevice.symm)⟩
    · rw [if_pos hany] at hone
      obtain ⟨hheard, hdevice⟩ := none_of_nodesWith_names compat body (addressCells body) (by omega)
      obtain ⟨hheard', hdevice'⟩ := none_of_nodesWith_names compat rest cells (by omega)
      rw [hheard, hdevice, hheard', hdevice', Option.or_none, Option.or_none, Option.or_none,
        Option.or_none] at h
      exact ⟨h, fun _ ↦ ⟨ihb hbody (by omega) (hheard.trans hdevice.symm),
        fun _ ↦ ihr hordered (by omega) (hheard'.trans hdevice'.symm)⟩⟩

theorem searched_of_plain {b : Buf} {name : List UInt8} {body : Items} {stop : ℕ}
    (h : IsFdt b name body stop) (hordered : NodesOrdered (tree name body)) {compat : String}
    (hunshared : Unshared (cString compat) 0 false (tree name body))
    (hplain : Plain (cString compat) 2 (tree name body)) (default : ℕ) :
    searched (tree name body) compat default =
      (treeAddress compat (tree name body)).getD default := by
  have hresult : (findRegBase (cString compat)).result (tree name body) [] =
      answer (treeAddress compat (tree name body)) := by
    rw [treeAddress, ← hplain.heardIn_eq hordered]
    exact (fdtFindRegBase_walk h _).unique (fdtFindRegBase_yields h hordered hunshared)
  rw [searched, hresult]
  cases treeAddress compat (tree name body) <;> rfl

/-- **The search and the tree.** The search for a device returns the address of the first node in
preorder that has a `reg` and the string in its `compatible` list where the nodes up to it are plain;
where at most one node lists the string, only there. Where this is so for the strings of the UART, the
PLIC and the timers, the boot arguments have the addresses of the tree. -/
theorem find_reg_base_iff {b : Buf} {name : List UInt8} {body : Items} {stop : ℕ}
    (h : IsFdt b name body stop) (hordered : NodesOrdered (tree name body)) :
    (∀ compat : List UInt8, Unshared compat 0 false (tree name body) →
      (Plain compat 2 (tree name body) →
        Yields (fdtFindRegBase compat (some b))
          (answer (deviceAddress compat 2 (tree name body)))) ∧
      (nodesWith (fun p ↦ Names compat p) (tree name body) ≤ 1 →
        Yields (fdtFindRegBase compat (some b))
          (answer (deviceAddress compat 2 (tree name body))) →
        Plain compat 2 (tree name body))) ∧
    ((∀ compat ∈ ["ns16550a", "riscv,plic0", "riscv,clint0", "riscv,aclint-mtimer"],
        Unshared (cString compat) 0 false (tree name body) ∧
          Plain (cString compat) 2 (tree name body)) →
      ∀ dtb, ∃ args, Yields (caribePackBootArgs dtb (some b)) args ∧
        Reports (tree name body) args) := by
  constructor
  · intro compat hunshared
    rw [(fdtFindRegBase_yields h hordered hunshared).iff, answer_injective.eq_iff]
    exact ⟨fun hplain ↦ hplain.heardIn_eq hordered, plain_of_heardIn_eq hordered⟩
  · intro hplain dtb
    have hbase : ∀ compat ∈ ["ns16550a", "riscv,plic0", "riscv,clint0", "riscv,aclint-mtimer"],
        ∀ default, searched (tree name body) compat default =
          (treeAddress compat (tree name body)).getD default :=
      fun compat hc ↦ searched_of_plain h hordered (hplain compat hc).1 (hplain compat hc).2
    refine ⟨_, caribePackBootArgs_yields h dtb, ?_, ?_, ?_⟩
    · intro a ha
      rw [packed, hbase "ns16550a" (by simp), ha, Option.getD_some]
    · intro a ha
      rw [packed, hbase "riscv,plic0" (by simp), ha, Option.getD_some]
    · intro a ha
      rw [packed, hbase "riscv,aclint-mtimer" (by simp), hbase "riscv,clint0" (by simp)]
      rcases hm : treeAddress "riscv,aclint-mtimer" (tree name body) with - | a'
      · rw [hm, Option.none_or] at ha
        rw [Option.getD_none, ha, Option.getD_some]
      · rw [hm, Option.some_or] at ha
        exact Option.some.inj ha

theorem find_reg_base_uartBlob :
    Yields (fdtFindRegBase (cString "ns16550a") (some uartBlob)) (0, some 0x10010000) ∧
      ∃ args, Yields (caribePackBootArgs 0x8fe00000 (some uartBlob)) args ∧
        Reports (tree [] (readTree uartBlob)) args := by
  obtain ⟨hfind, hpack⟩ := find_reg_base_iff isFdt_uartBlob (by decide +kernel)
  have hunshared : ∀ compat, Unshared compat 0 false (tree [] (readTree uartBlob)) :=
    fun compat ↦ unshared_of_depth compat (by decide +kernel)
  have haddress : deviceAddress (cString "ns16550a") 2 (tree [] (readTree uartBlob)) =
      some 0x10010000 := by decide +kernel
  have hplain : ∀ compat ∈ ["ns16550a", "riscv,plic0", "riscv,clint0", "riscv,aclint-mtimer"],
      Plain (cString compat) 2 (tree [] (readTree uartBlob)) := by
    have hone : ∀ compat ∈ ["ns16550a", "riscv,plic0", "riscv,clint0", "riscv,aclint-mtimer"],
        nodesWith (fun p ↦ Names (cString compat) p) (tree [] (readTree uartBlob)) ≤ 1 ∧
          heardIn (cString compat) (tree [] (readTree uartBlob)) =
            treeAddress compat (tree [] (readTree uartBlob)) := by
      decide +kernel
    exact fun compat hc ↦ plain_of_heardIn_eq (by decide +kernel) (hone compat hc).1 (hone compat hc).2
  refine ⟨?_, hpack (fun compat hc ↦ ⟨hunshared _, hplain compat hc⟩) _⟩
  have := (hfind (cString "ns16550a") (hunshared _)).1 (hplain _ (by simp))
  rwa [haddress] at this

/-- A `reg` that stands before the `compatible` of its node is passed over. -/
theorem reg_first_not_found :
    IsFdt regFirstBlob [] (readTree regFirstBlob) 144 ∧
      treeAddress "ns16550a" (tree [] (readTree regFirstBlob)) = some 0x10010000 ∧
      Yields (fdtFindRegBase (cString "ns16550a") (some regFirstBlob)) (-3, none) := by
  refine ⟨isFdt_regFirstBlob, by decide +kernel, ?_⟩
  have hfound : heardIn (cString "ns16550a") (tree [] (readTree regFirstBlob)) = none := by
    decide +kernel
  have := fdtFindRegBase_yields isFdt_regFirstBlob (by decide +kernel)
    (unshared_of_depth (cString "ns16550a") (by decide +kernel))
  rwa [hfound] at this

end CaribeOS.Fdt
