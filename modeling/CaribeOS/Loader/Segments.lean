import CaribeOS.Foundation.Word
import CaribeOS.Loader.State

/-!
# Mapping the segments of a library

`probe_needed_phdrs` looks for the dynamic section among the program headers of a library,
`load_needed_segments` measures its `PT_LOAD` segments and gives the library the slot of its index,
and `copy_needed_load_segments` maps them there with `MAP_FIXED`.

The span of the segments is measured with additions that wrap, and only the span is compared with
a limit. A segment whose end wraps to a small address is not part of what has been measured, so
where it is mapped is not bounded by it: `mapsInSlot_iff` says which headers stay inside the slot.
-/

namespace CaribeOS.Ld

open ByteMemory

/-- The fields of `Elf32_Phdr` that are used. -/
structure Phdr where
  type : UInt32
  offset : UInt32
  vaddr : UInt32
  filesz : UInt32
  memsz : UInt32
  flags : UInt32
deriving DecidableEq

def phdrAt (m : Mem) (a : UInt32) : Phdr where
  type := loadWord m a
  offset := loadWord m (a + 4)
  vaddr := loadWord m (a + 8)
  filesz := loadWord m (a + 16)
  memsz := loadWord m (a + 20)
  flags := loadWord m (a + 24)

section Header

/-! The header of the file is at `h`. -/

variable (m : Mem) (h : UInt32)

def phoff : UInt32 := loadWord m (h + 28)

def phentsize : UInt32 := (loadHalf m (h + 42)).toUInt32

def phnum : UInt32 := (loadHalf m (h + 44)).toUInt32

/-- Where the loops over the program headers look. They do not begin when one of the three fields
is zero. -/
def phdrAddrs : List UInt32 :=
  if phoff m h = 0 ∨ phnum m h = 0 ∨ phentsize m h = 0 then []
  else (List.range (phnum m h).toNat).map fun k ↦ h + phoff m h + .ofNat k * phentsize m h

def phdrs : List Phdr := (phdrAddrs m h).map (phdrAt m)

end Header

/-- The program headers that the loader has before it. -/
abbrev State.phdrs (s : State) (env : Env) : List Phdr := Ld.phdrs s.mem env.neededElfHeader

def probeNeededPhdrs (env : Env) (s : State) : State :=
  let h := env.neededElfHeader
  if s.scratch.read < phnum s.mem h * phentsize s.mem h + phoff s.mem h then s
  else
    match (s.phdrs env).find? (·.type = ptDynamic) with
    | none => s
    | some p =>
      { s with scratch := { s.scratch with dynamicOff := p.offset, dynamicSize := p.filesz } }

/-! ## The span and the slot -/

/-- The slots `needed_load_min_vaddr`, `needed_load_max_vaddr` and `needed_load_count`. -/
structure LoadBounds where
  minVaddr : UInt32
  maxVaddr : UInt32
  count : UInt32
deriving DecidableEq

/-- The loop body of `load_needed_segments`. -/
def LoadBounds.add (b : LoadBounds) (p : Phdr) : LoadBounds :=
  if p.type = ptLoad then
    { minVaddr := if b.minVaddr ≤ p.vaddr then b.minVaddr else p.vaddr
      maxVaddr := if p.memsz + p.vaddr ≤ b.maxVaddr then b.maxVaddr else p.memsz + p.vaddr
      count := b.count + 1 }
  else b

def loadBounds (ps : List Phdr) : LoadBounds := ps.foldl LoadBounds.add ⟨0xffffffff, 0, 0⟩

/-- The span is one that the loader accepts. -/
def LoadBounds.Accepted (b : LoadBounds) : Prop :=
  b.count ≠ 0 ∧ b.minVaddr ≤ b.maxVaddr ∧ b.maxVaddr - b.minVaddr ≤ 0x4000
  deriving Decidable

/-- Where the library with an index goes. -/
def slotBase (i : ℕ) : UInt32 := .ofNat i * 0x00100000 + 0x02000000

/-- The size of a slot. -/
def slotBytes : ℕ := 0x00100000

/-! ## Segments -/

/-- `PROT_READ`, `PROT_WRITE` and `PROT_EXEC` for the flags of a segment. -/
def segmentProt (flags : UInt32) : UInt32 :=
  (if flags &&& 4 ≠ 0 then 1 else 0) ||| (if flags &&& 2 ≠ 0 then 2 else 0) |||
    (if flags &&& 1 ≠ 0 then 4 else 0)

def segmentDst (c : Scratch) (p : Phdr) : UInt32 := p.vaddr - c.loadMinVaddr + c.loadBase

def segmentAddr (c : Scratch) (p : Phdr) : UInt32 := segmentDst c p &&& ~~~0xfff

def segmentLen (c : Scratch) (p : Phdr) : UInt32 :=
  (p.memsz + (segmentDst c p &&& 0xfff) + 0xfff) &&& ~~~0xfff

/-- The segment is one that the loader maps. -/
def Mapped (c : Scratch) (p : Phdr) : Prop :=
  p.type = ptLoad ∧ p.filesz ≠ 0 ∧ segmentLen c p ≠ 0 ∧ segmentProt p.flags ≠ 0
  deriving Decidable

/-- The loop body of `copy_needed_load_segments` for the header at `a`. That `mmap` has failed is
not noticed. -/
def copySegment (env : Env) (s : State) (a : UInt32) : State :=
  let p := phdrAt s.mem a
  match s.fd with
  | none => s
  | some f =>
    if Mapped s.scratch p then
      sysMmap env s f (segmentAddr s.scratch p) (segmentLen s.scratch p) (segmentProt p.flags)
        (p.offset &&& ~~~0xfff)
    else s

def copyNeededLoadSegments (env : Env) (s : State) : State :=
  (phdrAddrs s.mem env.neededElfHeader).foldl (copySegment env) s

/-- The state in which the segments are mapped. -/
def withSlot (s : State) (b : LoadBounds) : State :=
  { s with
    scratch :=
      { s.scratch with
        loadMinVaddr := b.minVaddr
        loadMaxVaddr := b.maxVaddr
        loadCount := b.count
        loadBase := slotBase s.currentNeededObjIndex
        loadBias := slotBase s.currentNeededObjIndex - b.minVaddr } }

/-- Base and bias keep what they were when the span is not accepted. -/
def loadNeededSegments (env : Env) (s : State) : State :=
  let b := loadBounds (s.phdrs env)
  if b.Accepted then copyNeededLoadSegments env (withSlot s b)
  else
    { s with
      scratch :=
        { s.scratch with
          loadMinVaddr := b.minVaddr
          loadMaxVaddr := b.maxVaddr
          loadCount := b.count } }

/-! ## Inside the slot -/

/-- The states and headers that the loop over the segments comes to. -/
def copyVisits (env : Env) : State → List UInt32 → List (State × UInt32)
  | _, [] => []
  | s, a :: as => (s, a) :: copyVisits env (copySegment env s a) as

/-- Every `mmap` of the library stays inside its slot. -/
def MapsInSlot (env : Env) (s : State) : Prop :=
  ∀ c ∈ (loadNeededSegments env s).maps.drop s.maps.length,
    ∀ x, InBlock c.addr c.len.toNat x → InBlock (slotBase s.currentNeededObjIndex) slotBytes x

/-- The pages of a segment, counted from the lowest address of the library on, end within the
slot. -/
def SegmentFits (lowest : UInt32) (p : Phdr) : Prop :=
  let first := (p.vaddr - lowest).toNat
  let bytes := (p.memsz.toNat + first % 4096 + 4095) % 4294967296 / 4096 * 4096
  p.type = ptLoad → p.filesz ≠ 0 → segmentProt p.flags ≠ 0 → bytes ≠ 0 →
    first / 4096 * 4096 + bytes ≤ slotBytes
  deriving Decidable

/-- The headers as the loop reads them fit the slot, if the loop is entered at all. -/
def SegmentsFit (env : Env) (s : State) : Prop :=
  s.fd ≠ none → (loadBounds (s.phdrs env)).Accepted →
    ∀ v ∈ copyVisits env (withSlot s (loadBounds (s.phdrs env))) (phdrAddrs s.mem env.neededElfHeader),
      SegmentFits (loadBounds (s.phdrs env)).minVaddr (phdrAt v.1.mem v.2)

/-- What the loop body passes to `mmap`. -/
def segmentCalls (env : Env) (s : State) (a : UInt32) : List MmapCall :=
  let p := phdrAt s.mem a
  if s.fd ≠ none ∧ Mapped s.scratch p then
    [⟨segmentAddr s.scratch p, segmentLen s.scratch p, segmentProt p.flags, p.offset &&& ~~~0xfff,
      env.mmap s.calls⟩]
  else []

section Visits

variable (env : Env)

theorem copySegment_scratch (s : State) (a : UInt32) :
    (copySegment env s a).scratch = s.scratch := by
  rw [copySegment]
  split
  · rfl
  · split <;> rfl

theorem copySegment_fd (s : State) (a : UInt32) : (copySegment env s a).fd = s.fd := by
  rw [copySegment]
  split
  · rfl
  · split <;> rfl

theorem copySegment_maps (s : State) (a : UInt32) :
    (copySegment env s a).maps = s.maps ++ segmentCalls env s a := by
  rw [copySegment, segmentCalls]
  cases hfd : s.fd with
  | none => simp
  | some f =>
    by_cases hmapped : Mapped s.scratch (phdrAt s.mem a)
    · simp [hmapped, sysMmap]
    · simp [hmapped]

/-- The loop works with the slots it has begun with. -/
theorem scratch_of_mem_copyVisits {s : State} {as : List UInt32} {v : State × UInt32}
    (h : v ∈ copyVisits env s as) : v.1.scratch = s.scratch ∧ v.1.fd = s.fd := by
  induction as generalizing s with
  | nil => exact absurd h List.not_mem_nil
  | cons a as ih =>
    rcases List.mem_cons.mp h with rfl | htail
    · exact ⟨rfl, rfl⟩
    · obtain ⟨hscratch, hfd⟩ := ih htail
      exact ⟨hscratch.trans (copySegment_scratch env s a), hfd.trans (copySegment_fd env s a)⟩

theorem foldl_copySegment_maps (s : State) (as : List UInt32) :
    (as.foldl (copySegment env) s).maps =
      s.maps ++ (copyVisits env s as).flatMap fun v ↦ segmentCalls env v.1 v.2 := by
  induction as generalizing s with
  | nil => simp [copyVisits]
  | cons a as ih =>
    rw [List.foldl_cons, ih, copySegment_maps, copyVisits, List.flatMap_cons, List.append_assoc]

end Visits

theorem toNat_slotBase {i : ℕ} (hi : i ≤ 8) : (slotBase i).toNat = 0x02000000 + i * 0x00100000 := by
  rw [slotBase, UInt32.toNat_add, UInt32.toNat_mul, UInt32.toNat_ofNat']
  simp only [UInt32.reduceToNat]
  omega

/-- Two slots have no byte in common, and all of them lie above the programs, which are linked below
`0x02000000`. -/
theorem apart_slotBase {i j : ℕ} (hi : i ≤ 8) (hj : j ≤ 8) (hij : i ≠ j) :
    Apart (slotBase i) slotBytes (slotBase j) slotBytes := by
  have hbi := toNat_slotBase hi
  have hbj := toNat_slotBase hj
  intro x hx hx'
  rw [inBlock_iff (by rw [slotBytes]; omega), slotBytes] at hx hx'
  omega

section Segment

variable {c : Scratch} {p : Phdr} {i : ℕ}

theorem toNat_and_fff (v : UInt32) : (v &&& 0xfff).toNat = v.toNat % 4096 := by
  exact Nat.and_two_pow_sub_one_eq_mod v.toNat 12

theorem toNat_segmentAddr (hbase : c.loadBase = slotBase i) (hi : i ≤ 8) :
    (segmentAddr c p).toNat =
      (0x02000000 + i * 0x00100000 + (p.vaddr - c.loadMinVaddr).toNat / 4096 * 4096) %
        4294967296 := by
  have hslot := toNat_slotBase hi
  rw [segmentAddr, Word.toNat_and_not (k := 12) _ rfl, segmentDst, hbase, UInt32.toNat_add, hslot]
  omega

theorem toNat_segmentLen (hbase : c.loadBase = slotBase i) (hi : i ≤ 8) :
    (segmentLen c p).toNat =
      (p.memsz.toNat + (p.vaddr - c.loadMinVaddr).toNat % 4096 + 4095) % 4294967296 / 4096 *
        4096 := by
  have hslot := toNat_slotBase hi
  have hoff : (segmentDst c p &&& 0xfff).toNat = (p.vaddr - c.loadMinVaddr).toNat % 4096 := by
    rw [toNat_and_fff, segmentDst, hbase, UInt32.toNat_add, hslot]
    omega
  rw [segmentLen, Word.toNat_and_not (k := 12) _ rfl, UInt32.toNat_add, UInt32.toNat_add, hoff]
  simp only [UInt32.reduceToNat]
  omega

/-- One segment: what is mapped for it stays in the slot exactly when its pages fit. -/
theorem segment_inSlot_iff (hbase : c.loadBase = slotBase i) (hi : i ≤ 8) :
    (Mapped c p → ∀ x, InBlock (segmentAddr c p) (segmentLen c p).toNat x →
        InBlock (slotBase i) slotBytes x) ↔
      SegmentFits c.loadMinVaddr p := by
  have hslot := toNat_slotBase hi
  have hlen := toNat_segmentLen (p := p) hbase hi
  have hbelow : (slotBase i).toNat + slotBytes < 4294967296 := by
    rw [hslot, slotBytes]
    omega
  have hne : segmentLen c p ≠ 0 ↔ (segmentLen c p).toNat ≠ 0 :=
    not_congr (UInt32.toNat_inj.symm.trans Iff.rfl)
  have hd := (p.vaddr - c.loadMinVaddr).toNat_lt
  rw [forall_inBlock_iff hbelow, SegmentFits, Mapped, hne, hslot, toNat_segmentAddr hbase hi,
    ← hlen]
  generalize (segmentLen c p).toNat = bytes
  have hfit : bytes ≠ 0 →
      (bytes = 0 ∨ 0x02000000 + i * 0x00100000 ≤
          (0x02000000 + i * 0x00100000 + (p.vaddr - c.loadMinVaddr).toNat / 4096 * 4096) %
            4294967296 ∧
        (0x02000000 + i * 0x00100000 + (p.vaddr - c.loadMinVaddr).toNat / 4096 * 4096) %
            4294967296 + bytes ≤ 0x02000000 + i * 0x00100000 + slotBytes ↔
      (p.vaddr - c.loadMinVaddr).toNat / 4096 * 4096 + bytes ≤ slotBytes) := by
    intro hbytes
    omega
  constructor
  · intro h htype hfilesz hprot hbytes
    exact (hfit hbytes).mp (h ⟨htype, hfilesz, hbytes, hprot⟩)
  · rintro h ⟨htype, hfilesz, hbytes, hprot⟩
    exact (hfit hbytes).mpr (h htype hfilesz hprot hbytes)

end Segment

/-- One round of the loop: what it maps stays in the slot exactly when the header fits. -/
theorem segmentCalls_inSlot_iff (env : Env) {s : State} {a : UInt32} {i : ℕ}
    (hbase : s.scratch.loadBase = slotBase i) (hi : i ≤ 8) :
    (∀ c ∈ segmentCalls env s a, ∀ x, InBlock c.addr c.len.toNat x →
        InBlock (slotBase i) slotBytes x) ↔
      (s.fd ≠ none → SegmentFits s.scratch.loadMinVaddr (phdrAt s.mem a)) := by
  rw [← segment_inSlot_iff hbase hi]
  by_cases hissued : s.fd ≠ none ∧ Mapped s.scratch (phdrAt s.mem a)
  · rw [segmentCalls, if_pos hissued, List.forall_mem_singleton]
    exact ⟨fun h _ _ ↦ h, fun h ↦ h hissued.1 hissued.2⟩
  · rw [segmentCalls, if_neg hissued]
    constructor
    · intro _ hfd hmapped
      exact absurd ⟨hfd, hmapped⟩ hissued
    · intro _ c hc
      exact absurd hc List.not_mem_nil

theorem loadNeededSegments_maps (env : Env) (s : State) :
    (loadNeededSegments env s).maps.drop s.maps.length =
      if (loadBounds (s.phdrs env)).Accepted then
        (copyVisits env (withSlot s (loadBounds (s.phdrs env)))
          (phdrAddrs s.mem env.neededElfHeader)).flatMap
          fun v ↦ segmentCalls env v.1 v.2
      else [] := by
  rw [loadNeededSegments]
  split
  · rw [copyNeededLoadSegments, foldl_copySegment_maps]
    exact List.drop_left
  · exact List.drop_length

/-- **Slots.** The segments of a library are mapped inside the slot of its index exactly when each
header that the loop reads fits. Other slots are then out of reach, and so is everything below
`0x02000000`. -/
theorem mapsInSlot_iff (env : Env) (s : State) (hi : s.currentNeededObjIndex ≤ 8) :
    (MapsInSlot env s ↔ SegmentsFit env s) ∧
      (∀ j ≤ 8, s.currentNeededObjIndex ≠ j →
        Apart (slotBase s.currentNeededObjIndex) slotBytes (slotBase j) slotBytes) ∧
      ∀ x, InBlock (slotBase s.currentNeededObjIndex) slotBytes x → 0x02000000 ≤ x := by
  refine ⟨?_, fun j hj hne ↦ apart_slotBase hi hj hne, ?_⟩
  · rw [MapsInSlot, SegmentsFit, loadNeededSegments_maps]
    by_cases haccepted : (loadBounds (s.phdrs env)).Accepted
    · rw [if_pos haccepted, List.forall_mem_flatMap]
      have hround : ∀ v ∈ copyVisits env (withSlot s (loadBounds (s.phdrs env)))
          (phdrAddrs s.mem env.neededElfHeader), ((∀ c ∈ segmentCalls env v.1 v.2, ∀ x,
            InBlock c.addr c.len.toNat x →
              InBlock (slotBase s.currentNeededObjIndex) slotBytes x) ↔
          (s.fd ≠ none →
            SegmentFits (loadBounds (s.phdrs env)).minVaddr (phdrAt v.1.mem v.2))) := by
        intro v hv
        obtain ⟨hscratch, hfd⟩ := scratch_of_mem_copyVisits env hv
        have hbase : v.1.scratch.loadBase = slotBase s.currentNeededObjIndex := by
          rw [hscratch]
          rfl
        rw [segmentCalls_inSlot_iff env hbase hi, hfd, hscratch]
        rfl
      constructor
      · intro h hfd _ v hv
        exact (hround v hv).mp (h v hv) hfd
      · intro h v hv
        exact (hround v hv).mpr fun hfd ↦ h hfd haccepted v hv
    · rw [if_neg haccepted]
      exact ⟨fun _ _ h ↦ absurd h haccepted, fun _ c hc ↦ absurd hc List.not_mem_nil⟩
  · intro x hx
    rw [inBlock_iff (by rw [toNat_slotBase hi, slotBytes]; omega), toNat_slotBase hi] at hx
    exact le_trans (Nat.le_add_right _ _) hx.1

/-! ## Samples -/

/-- The header of a shared library for this machine with `n` program headers right behind it. -/
def libraryHeader (n : UInt32) : List UInt32 :=
  [0x464c457f, 0x00010101, 0, 0, 0x00f30003, 1, 0, 52, 0, 0, 0x00200034, n, 0]

/-- A program header. -/
def Phdr.words (p : Phdr) : List UInt32 :=
  [p.type, p.offset, p.vaddr, p.vaddr, p.filesz, p.memsz, p.flags, 0x1000]

/-- The state of `bareEnv` when the first bytes of a file are in the buffer for the header. -/
def withHeader (f : File) : State :=
  { State.initial (writeBytes (fun _ ↦ 0) bareEnv.neededElfHeader 256 (fileByte f)) {} with
    fd := some ⟨f, 256⟩ }

/-- A library with one segment of `0x10` bytes and another one as given. -/
def twoSegments (vaddr memsz : UInt32) : File :=
  fileOfWords (libraryHeader 2 ++ Phdr.words ⟨1, 0, 0x1000, 0x10, 0x10, 4⟩ ++
    Phdr.words ⟨1, 0, vaddr, 0x10, memsz, 4⟩)

/-- Two segments that fit. -/
theorem mapsInSlot_twoSegments : MapsInSlot bareEnv (withHeader (twoSegments 0x2000 0x10)) := by
  refine (mapsInSlot_iff _ _ (by decide)).1.mpr ?_
  intro _ _
  decide

/-- The end of the second segment wraps to `0x10`, and it is mapped far outside the slot. -/
theorem segment_mapped_outside :
    (⟨0x81fff000, 0x80001000, 1, 0, false⟩ : MmapCall) ∈
        (loadNeededSegments bareEnv (withHeader (twoSegments 0x80000000 0x80000010))).maps ∧
      ¬MapsInSlot bareEnv (withHeader (twoSegments 0x80000000 0x80000010)) := by
  have hcall : (⟨0x81fff000, 0x80001000, 1, 0, false⟩ : MmapCall) ∈
      (loadNeededSegments bareEnv (withHeader (twoSegments 0x80000000 0x80000010))).maps := by
    decide
  refine ⟨hcall, fun h ↦ ?_⟩
  have hfirst := h _ hcall 0x81fff000 (by decide)
  revert hfirst
  decide

end CaribeOS.Ld
