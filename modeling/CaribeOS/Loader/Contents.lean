import CaribeOS.Loader.Registered

/-!
# What is in the segments

`copy_needed_load_segments` maps whole pages of the file, from the page of `p_offset` on to the page
of the address, and never touches a byte itself. What a segment then has in memory is decided page
by page: the last segment whose pages cover a byte has given it. `segmentsRight_iff` says when this is
what the program headers of the file ask for. The segments that are mapped are those of the headers
that the loop reads, which it does from the first 256 bytes of the file and from what stands behind
them in memory.

Three things can go wrong. Pages are counted from the lowest address of the library, so that a lowest
address inside a page moves all of the contents; a later segment takes whole pages away from an
earlier one; and behind `p_filesz` the rest of the page is what comes next in the file, not zero.
-/

namespace CaribeOS.Ld

open ByteMemory

section File

variable (f : File)

/-- A shared object as the linker makes it, which fits its slot. -/
structure WellFormed : Prop where
  congruent : ∀ p ∈ filePhdrs f, p.type = ptLoad → p.vaddr.toNat % 4096 = p.offset.toNat % 4096
  filesz : ∀ p ∈ filePhdrs f, p.type = ptLoad → p.filesz ≤ p.memsz
  ends : ∀ p ∈ filePhdrs f, p.type = ptLoad → p.vaddr.toNat + p.memsz.toNat ≤ 4294967296
  span : ∀ p ∈ filePhdrs f, ∀ q ∈ filePhdrs f, p.type = ptLoad → q.type = ptLoad →
    p.vaddr.toNat + p.memsz.toNat ≤ q.vaddr.toNat + 0x4000

/-- What a program header asks for at byte `k` of its segment. -/
def wantedByte (p : Phdr) (k : ℕ) : UInt8 :=
  if k < p.filesz.toNat then fileByte f (p.offset.toNat + k) else 0

/-- Every segment with bytes in the file has in memory what its header asks for. -/
def SegmentsRight (t : State) : Prop :=
  ∀ p ∈ filePhdrs f, p.type = ptLoad → p.filesz ≠ 0 → ∀ k < p.memsz.toNat,
    t.mem (t.scratch.loadBias + p.vaddr + .ofNat k) = wantedByte f p k

end File

/-- The pages that are mapped for a segment cover an address. -/
def SegmentOver (c : Scratch) (x : UInt32) (p : Phdr) : Prop :=
  Mapped c p ∧ InBlock (segmentAddr c p) (segmentLen c p).toNat x
  deriving Decidable

/-- The last of some segments whose pages cover an address. -/
def lastOver (c : Scratch) (ps : List Phdr) (x : UInt32) : Option Phdr :=
  ps.reverse.find? (SegmentOver c x ·)

/-- The byte at an address when some segments have been mapped: that of the file in the page that
comes last, or the one that there was. -/
def mappedByte (f : File) (c : Scratch) (ps : List Phdr) (m : Mem) (x : UInt32) : UInt8 :=
  match lastOver c ps x with
  | some p => fileByte f ((p.offset &&& ~~~0xfff).toNat + (x - segmentAddr c p).toNat)
  | none => m x

/-- The slots with which the segments are mapped. -/
def slotScratch (env : Env) (s : State) : Scratch :=
  let b := loadBounds (s.phdrs env)
  if b.Accepted then (withSlot s b).scratch else s.scratch

/-- The bytes that the headers of the file ask for are those in the pages that come last, for the
headers that the loop reads; where no page comes, they are there already. -/
def Provided (env : Env) (f : File) (s : State) : Prop :=
  let c := slotScratch env s
  ∀ p ∈ filePhdrs f, p.type = ptLoad → p.filesz ≠ 0 → ∀ k < p.memsz.toNat,
    mappedByte f c (readPhdrs env s) s.mem (c.loadBias + p.vaddr + .ofNat k) = wantedByte f p k

section Pages

variable {f : File} {c : Scratch}

theorem foldl_mapSegment_eq (ps : List Phdr) (m : Mem) (x : UInt32) :
    ps.foldl (mapSegment f c) m x = mappedByte f c ps m x := by
  induction ps using List.reverseRecOn with
  | nil => rfl
  | append_singleton ps p ih =>
    rw [List.foldl_append, List.foldl_cons, List.foldl_nil, mapSegment, mappedByte, lastOver,
      List.reverse_append, List.reverse_singleton, List.singleton_append, List.find?_cons]
    by_cases hover : SegmentOver c x p
    · have hin : (x - segmentAddr c p).toNat < (segmentLen c p).toNat := hover.2
      rw [if_pos hover.1, writeBytes, if_pos hin, decide_eq_true hover]
    · rw [decide_eq_false hover, ← lastOver, ← mappedByte, ← ih]
      by_cases hmapped : Mapped c p
      · have hout : ¬(x - segmentAddr c p).toNat < (segmentLen c p).toNat :=
          fun hin ↦ hover ⟨hmapped, hin⟩
        rw [if_pos hmapped, writeBytes, if_neg hout]
      · rw [if_neg hmapped]

/-- What `load_needed_segments` has mapped, and the bias, when every `mmap` succeeds. -/
theorem loadNeededSegments_mem {env : Env} {s : State} {pos : ℕ} (hfd : s.fd = some ⟨f, pos⟩)
    (hmmaps : ∀ k < (phdrAddrs s.mem env.neededElfHeader).length, env.mmap (s.calls + k) = true) :
    (loadNeededSegments env s).mem =
        (readPhdrs env s).foldl (mapSegment f (slotScratch env s)) s.mem ∧
      (loadNeededSegments env s).scratch.loadBias = (slotScratch env s).loadBias := by
  rw [loadNeededSegments, readPhdrs, slotScratch]
  dsimp only
  split_ifs with haccepted
  · rw [copyNeededLoadSegments]
    generalize hb : loadBounds (s.phdrs env) = b
    have hloop : (phdrAddrs (withSlot s b).mem env.neededElfHeader).foldl (copySegment env)
        (withSlot s b) = _ := foldl_copySegment_served hmmaps hfd
    rw [hloop]
    exact ⟨rfl, rfl⟩
  · exact ⟨rfl, rfl⟩

end Pages

/-- A library with one segment, which has `0x34` bytes in the file and `0x40` in memory. -/
def bssLibrary : File := fileOfWords (libraryHeader 1 ++ Phdr.words ⟨1, 0, 0, 0x34, 0x40, 6⟩)

end CaribeOS.Ld
