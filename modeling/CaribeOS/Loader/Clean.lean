import CaribeOS.Loader.Frame
import CaribeOS.Loader.Library

/-!
# Loading a library without a hitch

When the kernel serves the calls of a load and the library is `Loadable`, what the loader makes of
it is what `Library` says: nothing of the slots and buffers that an earlier library has left behind
comes into it. The steps of a load are gone through here one after the other. Memory is divided into
the buffers of the loader, which are below `0x02000000`, and the slots of the libraries above.
-/

namespace CaribeOS.Ld

open ByteMemory

/-! ## The kernel -/

/-- System call number `k` succeeds, and a read delivers as much as there is. -/
structure Served (env : Env) (k : ℕ) : Prop where
  read : ∃ n, 512 ≤ n ∧ env.read k = .upTo n
  llseek : env.llseek k = true
  mmap : env.mmap k = true

/-- So do the calls from number `k` on, `n` of them. -/
def Serves (env : Env) (k n : ℕ) : Prop := ∀ i < n, Served env (k + i)

variable {env : Env} {k n i o pos : ℕ} {x a : UInt32} {s : State} {m m' : Mem}

theorem Serves.head (h : Serves env k n) (hn : 0 < n) : Served env k := h 0 hn

theorem Serves.tail {j : ℕ} (h : Serves env k n) (hle : i + j ≤ n) : Serves env (k + i) j := by
  intro l hl
  rw [Nat.add_assoc]
  exact h (i + l) (by omega)

/-! ## Buffers and slots -/

/-- The bytes of the file from `off` on are in the buffers, `n` of them at distance `o`. -/
def Holds (env : Env) (m : Mem) (o : ℕ) (f : File) (off n : ℕ) : Prop :=
  ∀ k < n, m (env.neededElfHeader + .ofNat (o + k)) = fileByte f (off + k)

/-- The slot of the object with an index. -/
def InSlot (i : ℕ) (x : UInt32) : Prop := InBlock (slotBase i) slotBytes x

variable {S : UInt32 → Prop} {b : UInt32} {ps : List Phdr} {t : State}

section Regions

variable {env : Env} {m m' : Mem} {o n : ℕ} {f : File} {off : ℕ}

theorem not_inSlot_buffers (env : Env) (hi : i ≤ 8) (hk : k < 9732) :
    ¬InSlot i (env.neededElfHeader + .ofNat k) := by
  have hbelow := env.below
  have hslot := toNat_slotBase hi
  rw [InSlot, inBlock_iff (by rw [hslot, slotBytes]; omega), hslot, toNat_buffers env hk]
  omega

theorem not_inBuffers_slot (env : Env) (hi : i ≤ 8) (ho : o + n ≤ 9732) (hx : InSlot i x) :
    ¬InBuffers env o n x := by
  intro hbuf
  obtain ⟨k, hk, rfl⟩ := InBlock.exists_eq_add hbuf
  rw [add_ofNat_add] at hx
  exact not_inSlot_buffers env hi (by omega) hx

theorem Holds.of_writeBytes (env : Env) (m : Mem) (f : File) (off : ℕ) (ho : o + n ≤ 9732) :
    Holds env (writeBytes m (env.neededElfHeader + .ofNat o) n fun k ↦ fileByte f (off + k)) o f off
      n := by
  intro k hk
  rw [← add_ofNat_add, writeBytes_add _ _ _ hk (by omega)]

theorem Holds.mono (h : Holds env m o f off n) (hsame : SameOutside S m m')
    (hS : ∀ k, o ≤ k → k < o + n → ¬S (env.neededElfHeader + .ofNat k)) :
    Holds env m' o f off n := by
  intro k hk
  rw [hsame _ (hS (o + k) (by omega) (by omega)), h k hk]

theorem Holds.image {off : UInt32} (h : Holds env m o f off.toNat n)
    (hoff : off.toNat + n ≤ 4294967296) :
    ∀ k < n, m (env.neededElfHeader + .ofNat o + .ofNat k) = fileMem f (off + .ofNat k) := by
  intro k hk
  have hlt : k < 4294967296 := by omega
  have hsum : off.toNat + k < 4294967296 := by omega
  rw [add_ofNat_add, h k hk, fileMem, UInt32.toNat_add, toNat_ofNat_lt hlt, Nat.mod_eq_of_lt hsum]

end Regions

/-! ## Reading -/

section Reading

variable {env : Env} {f : File}

theorem toNat_fileRead (f : File) (off n : UInt32) :
    (fileRead f off n).toNat = min (f.length - off.toNat) n.toNat := by
  rw [fileRead, toNat_ofNat_lt (min_lt_of_right_lt n.toNat_lt)]

theorem add_fileRead_le (hsize : f.length < 4294967296) (off n : UInt32) :
    off.toNat + (fileRead f off n).toNat ≤ 4294967296 := by
  have hoff := off.toNat_lt
  rw [toNat_fileRead]
  omega

theorem fileRead_le (f : File) (off n : UInt32) : (fileRead f off n).toNat ≤ n.toNat := by
  rw [toNat_fileRead]
  exact min_le_right _ _

/-- The state after a read of `n` bytes at `off` into the buffers at `o`. -/
def afterRead (env : Env) (s : State) (f : File) (o : ℕ) (off n : UInt32) (calls : ℕ) : State :=
  { s with
    calls := s.calls + calls
    mem := writeBytes s.mem (env.neededElfHeader + .ofNat o) (fileRead f off n).toNat fun k ↦
      fileByte f (off.toNat + k)
    fd := some ⟨f, off.toNat + (fileRead f off n).toNat⟩ }

theorem sysRead_served {s : State} {o : ℕ} {off n : UInt32} (hserved : Served env s.calls)
    (hn : n.toNat ≤ 512) :
    sysRead env s ⟨f, off.toNat⟩ (env.neededElfHeader + .ofNat o) n =
      (afterRead env s f o off n 1, fileRead f off n) := by
  obtain ⟨most, hmost, hread⟩ := hserved.read
  have hmin : min (f.length - off.toNat) (min n.toNat most) = (fileRead f off n).toNat := by
    rw [toNat_fileRead]
    omega
  rw [sysRead, hread, afterRead]
  dsimp only
  rw [hmin, UInt32.ofNat_toNat]

theorem readAt_served {off n : UInt32} (hserves : Serves env s.calls 2) (hfd : s.fd = some ⟨f, pos⟩)
    (hn : n.toNat ≤ 512) :
    readAt env s off (env.neededElfHeader + .ofNat o) n =
      (afterRead env s f o off n 2, some (fileRead f off n)) := by
  have hseek : sysLlseek env s ⟨f, pos⟩ off =
      ({ s with calls := s.calls + 1, fd := some ⟨f, off.toNat⟩ }, some ⟨f, off.toNat⟩) := by
    rw [sysLlseek, if_pos (hserves.head (by omega)).llseek]
  have hread := @sysRead_served env f { s with calls := s.calls + 1, fd := some ⟨f, off.toNat⟩ } o
    off n (hserves 1 (by omega)) hn
  rw [readAt, hfd]
  dsimp only
  rw [hseek]
  dsimp only
  rw [hread]
  rfl

theorem afterRead_sameOutside (s : State) {o room : ℕ} {off n : UInt32} (hn : n.toNat ≤ room)
    (calls : ℕ) :
    SameOutside (InBuffers env o room) s.mem (afterRead env s f o off n calls).mem := by
  have hwrite := sameOutside_writeBytes s.mem (env.neededElfHeader + .ofNat o)
    (fileRead f off n).toNat fun k ↦ fileByte f (off.toNat + k)
  exact hwrite.mono fun _ hx ↦ InBlock.mono hx ((fileRead_le f off n).trans hn)

theorem afterRead_holds (s : State) {o : ℕ} {off n : UInt32} (hn : o + n.toNat ≤ 9732)
    (calls : ℕ) :
    Holds env (afterRead env s f o off n calls).mem o f off.toNat (fileRead f off n).toNat := by
  have hle := fileRead_le f off n
  exact Holds.of_writeBytes env s.mem f off.toNat (by omega)

end Reading

/-! ## Program headers -/

theorem phdrAt_image (h : ∀ k < n, m (a + .ofNat k) = m' (b + .ofNat k)) (ho : o + 32 ≤ n) :
    phdrAt m (a + .ofNat o) = phdrAt m' (b + .ofNat o) := by
  have hword : ∀ d, d + 4 ≤ 32 →
      loadWord m (a + .ofNat o + .ofNat d) = loadWord m' (b + .ofNat o + .ofNat d) := by
    intro d hd
    rw [add_ofNat_add, add_ofNat_add]
    exact loadWord_image h (by omega)
  have h4 : loadWord m (a + .ofNat o + 4) = loadWord m' (b + .ofNat o + 4) := hword 4 (by omega)
  have h8 : loadWord m (a + .ofNat o + 8) = loadWord m' (b + .ofNat o + 8) := hword 8 (by omega)
  have h16 : loadWord m (a + .ofNat o + 16) = loadWord m' (b + .ofNat o + 16) := hword 16 (by omega)
  have h20 : loadWord m (a + .ofNat o + 20) = loadWord m' (b + .ofNat o + 20) := hword 20 (by omega)
  have h24 : loadWord m (a + .ofNat o + 24) = loadWord m' (b + .ofNat o + 24) := hword 24 (by omega)
  rw [phdrAt, phdrAt, loadWord_image h (by omega), h4, h8, h16, h20, h24]

/-- What the loader has read of the header of a file. -/
def HeaderIn (env : Env) (m : Mem) (f : File) : Prop := Holds env m 0 f 0 (min f.length 256)

section Headers

variable {env : Env} {m : Mem} {f : File}

theorem HeaderIn.image (h : HeaderIn env m f) :
    ∀ k < min f.length 256, m (env.neededElfHeader + .ofNat k) = fileMem f (0 + .ofNat k) := by
  have himage := @Holds.image env m 0 _ f 0 h (by rw [UInt32.toNat_zero]; omega)
  rwa [add_ofNat_zero] at himage

theorem HeaderIn.fields (h : HeaderIn env m f) (hlong : 52 ≤ min f.length 256) :
    phoff m env.neededElfHeader = phoff (fileMem f) 0 ∧
      phnum m env.neededElfHeader = phnum (fileMem f) 0 ∧
        phentsize m env.neededElfHeader = phentsize (fileMem f) 0 := by
  have hoff : loadWord m (env.neededElfHeader + 28) = loadWord (fileMem f) (0 + 28) :=
    loadWord_image h.image (o := 28) (by omega)
  have hnum : loadHalf m (env.neededElfHeader + 44) = loadHalf (fileMem f) (0 + 44) :=
    loadHalf_image h.image (o := 44) (by omega)
  have hent : loadHalf m (env.neededElfHeader + 42) = loadHalf (fileMem f) (0 + 42) :=
    loadHalf_image h.image (o := 42) (by omega)
  rw [phoff, phoff, phnum, phnum, phentsize, phentsize, hoff, hnum, hent]
  exact ⟨rfl, rfl, rfl⟩

/-- Where the program headers of a loadable file are, from the beginning of the file. -/
def phdrOffs (f : File) : List ℕ :=
  (List.range (phnum (fileMem f) 0).toNat).map fun k ↦ (phoff (fileMem f) 0).toNat + 32 * k

theorem HeaderLoadable.phdrOffs_le (h : HeaderLoadable f) (ho : o ∈ phdrOffs f) :
    o + 32 ≤ min f.length 256 := by
  obtain ⟨k, hk, rfl⟩ := List.mem_map.mp ho
  have hk := List.mem_range.mp hk
  have hle := h.phdrs.2
  omega

theorem phdrAddrs_eq {base : UInt32} (h : HeaderLoadable f)
    (hfields : phoff m base = phoff (fileMem f) 0 ∧ phnum m base = phnum (fileMem f) 0 ∧
      phentsize m base = phentsize (fileMem f) 0) :
    phdrAddrs m base = (phdrOffs f).map fun o ↦ base + .ofNat o := by
  obtain ⟨hoff, hnum, hent⟩ := hfields
  have hne : ¬(phoff (fileMem f) 0 = 0 ∨ phnum (fileMem f) 0 = 0 ∨
      phentsize (fileMem f) 0 = 0) := by
    rw [h.phentsize]
    exact not_or.mpr ⟨h.phoff, not_or.mpr ⟨h.phnum, by decide⟩⟩
  rw [phdrAddrs, hoff, hnum, hent, if_neg hne, phdrOffs, List.map_map, h.phentsize]
  refine List.map_congr_left fun k _ ↦ ?_
  have hmul : UInt32.ofNat (32 * k) = .ofNat k * 32 := by
    rw [Nat.mul_comm, UInt32.ofNat_mul]
    rfl
  rw [Function.comp_apply, UInt32.ofNat_add, UInt32.ofNat_toNat, hmul, UInt32.add_assoc]

theorem filePhdrs_eq (h : HeaderLoadable f) :
    filePhdrs f = (phdrOffs f).map fun o ↦ phdrAt (fileMem f) (0 + .ofNat o) := by
  rw [filePhdrs, phdrs, phdrAddrs_eq h ⟨rfl, rfl, rfl⟩, List.map_map]
  rfl

theorem HeaderIn.phdrs_eq (hin : HeaderIn env m f) (h : HeaderLoadable f) :
    phdrs m env.neededElfHeader = filePhdrs f := by
  rw [phdrs, phdrAddrs_eq h (hin.fields h.phdrs.1), List.map_map, filePhdrs_eq h]
  refine List.map_congr_left fun o ho ↦ ?_
  exact phdrAt_image hin.image (h.phdrOffs_le ho)

/-- A header that passes the check of `probe_needed_phdrs` and has a dynamic section. -/
theorem probeNeededPhdrs_eq (hin : HeaderIn env s.mem f) (h : HeaderLoadable f)
    (hread : s.scratch.read = fileRead f 0 256) (hdynamic : (dynamicPhdr f).offset ≠ 0) :
    probeNeededPhdrs env s =
      { s with
        scratch :=
          { s.scratch with
            dynamicOff := (dynamicPhdr f).offset, dynamicSize := (dynamicPhdr f).filesz } } := by
  obtain ⟨hoff, hnum, hent⟩ := hin.fields h.phdrs.1
  have hsize : (fileRead f 0 256).toNat = min f.length 256 := toNat_fileRead f 0 256
  have hfits : ¬s.scratch.read <
      phnum s.mem env.neededElfHeader * phentsize s.mem env.neededElfHeader +
        phoff s.mem env.neededElfHeader := by
    have hle := h.phdrs.2
    have hsum : (phnum (fileMem f) 0 * 32 + phoff (fileMem f) 0).toNat =
        (phnum (fileMem f) 0).toNat * 32 + (phoff (fileMem f) 0).toNat := by
      have hmul : (phnum (fileMem f) 0).toNat * 32 < 4294967296 := by omega
      have hlt : (phnum (fileMem f) 0).toNat * 32 + (phoff (fileMem f) 0).toNat < 4294967296 := by
        omega
      rw [UInt32.toNat_add, UInt32.toNat_mul, show (32 : UInt32).toNat = 32 from rfl,
        Nat.mod_eq_of_lt hmul, Nat.mod_eq_of_lt hlt]
    rw [hread, hoff, hnum, hent, h.phentsize, UInt32.not_lt, UInt32.le_iff_toNat_le, hsize, hsum]
    omega
  rw [probeNeededPhdrs]
  rw [if_neg hfits, State.phdrs, hin.phdrs_eq h]
  have hfound : (filePhdrs f).find? (·.type = ptDynamic) = some (dynamicPhdr f) := by
    rw [dynamicPhdr] at hdynamic ⊢
    cases hfind : (filePhdrs f).find? (·.type = ptDynamic) with
    | some p => rfl
    | none =>
      rw [hfind] at hdynamic
      exact absurd rfl hdynamic
  rw [hfound]

end Headers

/-! ## Opening a library -/

section Opening

variable {env : Env} {f : File} {s : State} {name : Name}

theorem HeaderIn.accepted (hin : HeaderIn env m f) (h : HeaderLoadable f) (hm : s.mem = m)
    (hread : s.scratch.read = fileRead f 0 256) : HeaderAccepted env s := by
  have hlong := h.phdrs.1
  have hmagic := loadWord_image hin.image (o := 0) (by omega)
  rw [add_ofNat_zero, add_ofNat_zero] at hmagic
  have hmachine : loadHalf m (env.neededElfHeader + 18) = loadHalf (fileMem f) (0 + 18) :=
    loadHalf_image hin.image (o := 18) (by omega)
  have htype : loadHalf m (env.neededElfHeader + 16) = loadHalf (fileMem f) (0 + 16) :=
    loadHalf_image hin.image (o := 16) (by omega)
  have hclass : m (env.neededElfHeader + 4) = fileMem f (0 + 4) := hin.image 4 (by omega)
  rw [UInt32.zero_add] at hmachine htype hclass
  rw [HeaderAccepted, hread, hm, hmagic, hmachine, htype, hclass, h.magic, h.elfClass, h.machine,
    h.type]
  refine ⟨?_, rfl, rfl, rfl, rfl⟩
  rw [UInt32.le_iff_toNat_le, toNat_fileRead]
  exact hlong

/-- A library whose header is accepted is open, with its header in the buffer. -/
structure OpenIn (env : Env) (f : File) (s t : State) : Prop where
  fd : ∃ pos, t.fd = some ⟨f, pos⟩
  header : HeaderIn env t.mem f
  scratch : t.scratch = { s.scratch with read := fileRead f 0 256 }
  calls : t.calls = s.calls + 2
  maps : t.maps = s.maps
  outside : SameOutside (InBuffers env 0 256) s.mem t.mem

theorem opened_loadable (h : HeaderLoadable f)
    (hopen : env.openat s.calls (neededPath (name.take 63)) = some f)
    (hserved : Served env (s.calls + 1)) : OpenIn env f s (opened env s name) := by
  rw [opened, openNeededLibrary, copyCstrBounded_eq, hopen]
  dsimp only
  generalize hs₀ : { s with
    neededCurrentName := name.take 63, calls := s.calls + 1, fd := some ⟨f, 0⟩ } = s₀
  have hread : sysRead env s₀ ⟨f, 0⟩ env.neededElfHeader 256 =
      (afterRead env s₀ f 0 0 256 1, fileRead f 0 256) := by
    have hserved₀ : Served env s₀.calls := by rwa [← hs₀]
    have hread := @sysRead_served env f s₀ 0 0 256 hserved₀ (by decide)
    rwa [add_ofNat_zero] at hread
  have hholds : HeaderIn env (afterRead env s₀ f 0 0 256 1).mem f := by
    have hholds := @afterRead_holds env f s₀ 0 0 256 (by decide) 1
    rwa [toNat_fileRead] at hholds
  have houtside := @afterRead_sameOutside env f s₀ 0 256 0 256 le_rfl 1
  have hnegative : negative (fileRead f 0 256) = false := by
    rw [negative, decide_eq_false_iff_not, UInt32.le_iff_toNat_le, toNat_fileRead]
    exact Nat.not_le.mpr (lt_of_le_of_lt (min_le_right _ _) (by decide))
  have haccepted : HeaderAccepted env { afterRead env s₀ f 0 0 256 1 with
      scratch := { s₀.scratch with read := fileRead f 0 256 } } :=
    HeaderIn.accepted hholds h rfl rfl
  rw [hread]
  dsimp only
  rw [if_pos ⟨by rw [hnegative]; simp, haccepted⟩]
  rw [← hs₀] at hholds houtside ⊢
  exact ⟨⟨_, rfl⟩, hholds, rfl, rfl, rfl, houtside⟩

end Opening

/-! ## Segments -/

section Segments

variable {env : Env} {f : File} {c : Scratch} {i : ℕ}

/-- The byte of the slot is in a page of one of the segments. -/
def CoveredBy (f : File) (ps : List Phdr) (x : UInt32) : Prop :=
  ∃ p ∈ ps, Mapped (atZero f) p ∧
    InBlock (segmentAddr (atZero f) p) (segmentLen (atZero f) p).toNat x

/-- A library in a slot, as far as the segments depend on it. -/
structure InSlotOf (f : File) (i : ℕ) (c : Scratch) : Prop where
  base : c.loadBase = slotBase i
  minVaddr : c.loadMinVaddr = lowest f

theorem segmentDst_eq (h : InSlotOf f i c) (p : Phdr) :
    segmentDst c p = segmentDst (atZero f) p + slotBase i := by
  rw [segmentDst, segmentDst, h.base, h.minVaddr]
  exact congrArg (· + slotBase i) (UInt32.add_zero _).symm

theorem and_not_fff_add_slotBase (hi : i ≤ 8) (v : UInt32) :
    (v + slotBase i) &&& ~~~0xfff = slotBase i + (v &&& ~~~0xfff) ∧
      (v + slotBase i) &&& 0xfff = v &&& 0xfff := by
  have hslot := toNat_slotBase hi
  constructor
  · apply UInt32.toNat_inj.mp
    rw [Word.toNat_and_not (k := 12) _ rfl, UInt32.toNat_add, UInt32.toNat_add,
      Word.toNat_and_not (k := 12) _ rfl, hslot]
    omega
  · apply UInt32.toNat_inj.mp
    rw [toNat_and_fff, toNat_and_fff, UInt32.toNat_add, hslot]
    omega

section InSlot

variable (h : InSlotOf f i c) (hi : i ≤ 8)
include h hi

theorem segmentAddr_eq (p : Phdr) : segmentAddr c p = slotBase i + segmentAddr (atZero f) p := by
  rw [segmentAddr, segmentAddr, segmentDst_eq h]
  exact (and_not_fff_add_slotBase hi _).1

theorem segmentLen_eq (p : Phdr) : segmentLen c p = segmentLen (atZero f) p := by
  rw [segmentLen, segmentLen, segmentDst_eq h, (and_not_fff_add_slotBase hi _).2]

theorem mapped_iff (p : Phdr) : Mapped c p ↔ Mapped (atZero f) p := by
  rw [Mapped, Mapped, segmentLen_eq h hi]

theorem mapSegment_sameOutside {p : Phdr} (hfit : SegmentFits (lowest f) p) (m : Mem) :
    SameOutside (InSlot i) m (mapSegment f c m p) := by
  rw [mapSegment]
  split_ifs with hmapped
  · rw [← h.minVaddr] at hfit
    exact (sameOutside_writeBytes _ _ _ _).mono ((segment_inSlot_iff h.base hi).mpr hfit hmapped)
  · exact .refl _ _

theorem foldl_mapSegment_sameOutside (hfit : ∀ p ∈ ps, SegmentFits (lowest f) p) (m : Mem) :
    SameOutside (InSlot i) m (ps.foldl (mapSegment f c) m) := by
  induction ps generalizing m with
  | nil => exact .refl _ _
  | cons p ps ih =>
    exact (mapSegment_sameOutside h hi (hfit p List.mem_cons_self) m).trans
      (ih (fun q hq ↦ hfit q (List.mem_cons_of_mem p hq)) _)

theorem mapSegment_image (p : Phdr) (hx : m (slotBase i + x) = m' x ∨ CoveredBy f [p] x) :
    mapSegment f c m p (slotBase i + x) = mapSegment f (atZero f) m' p x := by
  have hdist : slotBase i + x - (slotBase i + segmentAddr (atZero f) p) =
      x - segmentAddr (atZero f) p := by grind
  rw [mapSegment, mapSegment, segmentAddr_eq h hi, segmentLen_eq h hi]
  simp only [mapped_iff h hi]
  by_cases hmapped : Mapped (atZero f) p
  · rw [if_pos hmapped, if_pos hmapped, writeBytes, writeBytes, hdist]
    split_ifs with hin
    · rfl
    · refine hx.resolve_right ?_
      rintro ⟨q, hq, -, hin'⟩
      rw [List.mem_singleton.mp hq] at hin'
      exact hin hin'
  · rw [if_neg hmapped, if_neg hmapped]
    refine hx.resolve_right ?_
    rintro ⟨q, hq, hmapped', -⟩
    rw [List.mem_singleton.mp hq] at hmapped'
    exact hmapped hmapped'

theorem foldl_mapSegment_image (hx : m (slotBase i + x) = m' x ∨ CoveredBy f ps x) :
    ps.foldl (mapSegment f c) m (slotBase i + x) = ps.foldl (mapSegment f (atZero f)) m' x := by
  induction ps generalizing m m' with
  | nil =>
    refine hx.resolve_right ?_
    rintro ⟨q, hq, -⟩
    exact absurd hq List.not_mem_nil
  | cons p ps ih =>
    apply ih
    by_cases hrest : CoveredBy f ps x
    · exact .inr hrest
    · refine .inl (mapSegment_image h hi p (hx.imp_right ?_))
      rintro ⟨q, hq, hcover⟩
      rcases List.mem_cons.mp hq with rfl | htail
      · exact ⟨q, List.mem_singleton_self q, hcover⟩
      · exact absurd ⟨q, htail, hcover⟩ hrest

end InSlot

/-- The call of `mmap` for a segment, when it succeeds. -/
def segmentCall (c : Scratch) (p : Phdr) : MmapCall :=
  ⟨segmentAddr c p, segmentLen c p, segmentProt p.flags, p.offset &&& ~~~0xfff, true⟩

/-- The state after the segments `ps` of a file have been mapped. -/
def afterSegments (s : State) (f : File) (ps : List Phdr) : State :=
  { s with
    calls := s.calls + (ps.filter (Mapped s.scratch ·)).length
    maps := s.maps ++ (ps.filter (Mapped s.scratch ·)).map (segmentCall s.scratch)
    mem := ps.foldl (mapSegment f s.scratch) s.mem }

theorem copySegment_served (hmmap : env.mmap s.calls = true) (hfd : s.fd = some ⟨f, pos⟩) :
    copySegment env s a = afterSegments s f [phdrAt s.mem a] := by
  rw [copySegment, hfd, afterSegments]
  dsimp only
  rw [List.foldl_cons, List.foldl_nil, mapSegment]
  by_cases hmapped : Mapped s.scratch (phdrAt s.mem a)
  · rw [if_pos hmapped, if_pos hmapped, sysMmap, List.filter_singleton, decide_eq_true hmapped,
      hmmap]
    rfl
  · rw [if_neg hmapped, if_neg hmapped, List.filter_singleton, decide_eq_false hmapped]
    simp

theorem afterSegments_cons (s : State) (f : File) (p : Phdr) (ps : List Phdr) :
    afterSegments (afterSegments s f [p]) f ps = afterSegments s f (p :: ps) := by
  rw [afterSegments, afterSegments, afterSegments]
  rw [List.foldl_cons, List.foldl_nil, List.foldl_cons, List.append_assoc, ← List.map_append,
    Nat.add_assoc, ← List.length_append, ← List.filter_append, List.singleton_append]

theorem foldl_copySegment_served {as : List UInt32}
    (hmmaps : ∀ k < as.length, env.mmap (s.calls + k) = true) (hfd : s.fd = some ⟨f, pos⟩) :
    as.foldl (copySegment env) s =
      afterSegments s f ((copyVisits env s as).map fun v ↦ phdrAt v.1.mem v.2) := by
  induction as generalizing s with
  | nil => simp [afterSegments, copyVisits]
  | cons a as ih =>
    have hfirst := copySegment_served (a := a) (hmmaps 0 (by simp)) hfd
    have hcalls : ∀ k < as.length, env.mmap ((copySegment env s a).calls + k) = true := by
      have hone : ([phdrAt s.mem a].filter (Mapped s.scratch ·)).length ≤ 1 :=
        List.length_filter_le _ _
      intro k hk
      rw [hfirst, afterSegments, Nat.add_assoc]
      apply hmmaps
      rw [List.length_cons]
      omega
    rw [List.foldl_cons, ih hcalls ((copySegment_fd env s a).trans hfd), copyVisits, List.map_cons,
      ← afterSegments_cons, ← hfirst]

theorem copySegment_sameOutside (hi : i ≤ 8) (hbase : s.scratch.loadBase = slotBase i)
    (hfit : s.fd ≠ none → SegmentFits s.scratch.loadMinVaddr (phdrAt s.mem a)) :
    SameOutside (InSlot i) s.mem (copySegment env s a).mem := by
  rw [copySegment]
  cases hfd : s.fd with
  | none => exact .refl _ _
  | some f =>
    dsimp only
    split_ifs with hmapped
    · have hinside := (segment_inSlot_iff hbase hi).mpr (hfit (by rw [hfd]; simp)) hmapped
      rw [sysMmap]
      dsimp only
      split_ifs
      · exact (sameOutside_writeBytes _ _ _ _).mono hinside
      · exact .refl _ _
    · exact .refl _ _

/-- The headers in the buffer are below the slot, so that they stay what they were. -/
theorem copyVisits_phdrs {offs : List ℕ} (hi : i ≤ 8) (hbase : s.scratch.loadBase = slotBase i)
    (hoffs : ∀ o ∈ offs, o + 32 ≤ 256) (hfit : ∀ o ∈ offs,
      SegmentFits s.scratch.loadMinVaddr (phdrAt s.mem (env.neededElfHeader + .ofNat o))) :
    (copyVisits env s (offs.map fun o ↦ env.neededElfHeader + .ofNat o)).map
        (fun v ↦ phdrAt v.1.mem v.2) =
      offs.map fun o ↦ phdrAt s.mem (env.neededElfHeader + .ofNat o) := by
  induction offs generalizing s with
  | nil => rfl
  | cons o offs ih =>
    have hsame : SameOutside (InSlot i) s.mem
        (copySegment env s (env.neededElfHeader + .ofNat o)).mem :=
      copySegment_sameOutside hi hbase fun _ ↦ hfit o List.mem_cons_self
    have hphdr : ∀ o' ∈ offs, phdrAt (copySegment env s (env.neededElfHeader + .ofNat o)).mem
        (env.neededElfHeader + .ofNat o') = phdrAt s.mem (env.neededElfHeader + .ofNat o') := by
      intro o' ho'
      have hle := hoffs o' (List.mem_cons_of_mem o ho')
      refine phdrAt_image (n := 256) (fun k hk ↦ ?_) hle
      exact hsame _ (not_inSlot_buffers env hi (by omega))
    have hscratch := copySegment_scratch env s (env.neededElfHeader + .ofNat o)
    rw [List.map_cons, List.map_cons, copyVisits, List.map_cons, ih ?_ ?_ ?_,
      List.map_congr_left hphdr]
    · rw [hscratch]
      exact hbase
    · exact fun o' ho' ↦ hoffs o' (List.mem_cons_of_mem o ho')
    · intro o' ho'
      rw [hphdr o' ho', hscratch]
      exact hfit o' (List.mem_cons_of_mem o ho')

/-- The headers as the loop over the segments reads them, if it is entered at all. -/
def readPhdrs (env : Env) (s : State) : List Phdr :=
  let b := loadBounds (s.phdrs env)
  if b.Accepted then
    (copyVisits env (withSlot s b) (phdrAddrs s.mem env.neededElfHeader)).map fun v ↦
      phdrAt v.1.mem v.2
  else []

theorem readPhdrs_eq (hin : HeaderIn env s.mem f) (hheader : HeaderLoadable f)
    (hfit : ∀ p ∈ filePhdrs f, SegmentFits (lowest f) p) (haccepted : (fileBounds f).Accepted)
    (hi : s.currentNeededObjIndex ≤ 8) : readPhdrs env s = filePhdrs f := by
  have hphdrs := hin.phdrs_eq hheader
  have hmap : (phdrOffs f).map (fun o ↦ phdrAt s.mem (env.neededElfHeader + .ofNat o)) =
      filePhdrs f := by
    rw [← hphdrs, phdrs, phdrAddrs_eq hheader (hin.fields hheader.phdrs.1), List.map_map]
    rfl
  rw [readPhdrs, State.phdrs, hphdrs, ← fileBounds, if_pos haccepted,
    phdrAddrs_eq hheader (hin.fields hheader.phdrs.1), ← hmap]
  refine copyVisits_phdrs hi rfl (fun o ho ↦ ?_) fun o ho ↦ hfit _ ?_
  · exact (hheader.phdrOffs_le ho).trans (min_le_right _ _)
  · rw [← hmap]
    exact List.mem_map.mpr ⟨o, ho, rfl⟩

theorem loadNeededSegments_served (hin : HeaderIn env s.mem f) (hheader : HeaderLoadable f)
    (hfit : ∀ p ∈ filePhdrs f, SegmentFits (lowest f) p) (haccepted : (fileBounds f).Accepted)
    (hmmaps : ∀ k < (filePhdrs f).length, env.mmap (s.calls + k) = true)
    (hfd : s.fd = some ⟨f, pos⟩) (hi : s.currentNeededObjIndex ≤ 8) :
    loadNeededSegments env s = afterSegments (withSlot s (fileBounds f)) f (filePhdrs f) := by
  have hphdrs := hin.phdrs_eq hheader
  have hlen : (phdrAddrs s.mem env.neededElfHeader).length = (filePhdrs f).length := by
    rw [← hphdrs, phdrs, List.length_map]
  have hread := readPhdrs_eq hin hheader hfit haccepted hi
  rw [readPhdrs, State.phdrs, hphdrs, ← fileBounds, if_pos haccepted] at hread
  rw [loadNeededSegments, State.phdrs, hphdrs, ← fileBounds, if_pos haccepted,
    copyNeededLoadSegments, ← hread]
  exact foldl_copySegment_served (by rw [← hlen] at hmmaps; exact hmmaps) hfd

end Segments

/-! ## The image of a library -/

/-- The library is in its slot, before relocation. -/
def Imaged (f : File) (i : ℕ) (m : Mem) : Prop := ∀ x, Covered f x → m (slotBase i + x) = image f x

section Image

variable {f : File} {i : ℕ} {m m' : Mem}

theorem Covered.inSlot (hfit : ∀ p ∈ filePhdrs f, SegmentFits (lowest f) p) (hi : i ≤ 8)
    (h : Covered f x) : InSlot i (slotBase i + x) := by
  obtain ⟨p, hp, hmapped, hin⟩ := h
  have hslot : InSlotOf f i { atZero f with loadBase := slotBase i } := ⟨rfl, rfl⟩
  have hsegment := (segment_inSlot_iff (p := p) hslot.base hi).mpr (hfit p hp)
    ((mapped_iff hslot hi p).mpr hmapped)
  refine hsegment _ ?_
  rw [segmentAddr_eq hslot hi, segmentLen_eq hslot hi, InBlock]
  have hdist : slotBase i + x - (slotBase i + segmentAddr (atZero f) p) =
      x - segmentAddr (atZero f) p := by grind
  rw [hdist]
  exact hin

theorem Imaged.mono (h : Imaged f i m) (hfit : ∀ p ∈ filePhdrs f, SegmentFits (lowest f) p)
    (hi : i ≤ 8) (hsame : SameOutside S m m') (hS : ∀ x, InSlot i x → ¬S x) : Imaged f i m' := by
  intro x hx
  rw [hsame _ (hS _ (hx.inSlot hfit hi)), h x hx]

theorem Imaged.block (h : Imaged f i m) (hcovered : CoveredBlock f a n) :
    ∀ k < n, m (slotBase i + a + .ofNat k) = image f (a + .ofNat k) := by
  intro k hk
  rw [UInt32.add_assoc]
  exact h _ (hcovered k hk)

theorem add_fileBias (a : UInt32) : a + fileBias f i = slotBase i + (a - lowest f) := by
  rw [fileBias]
  grind

end Image

/-! ## The dynamic section and the tables -/

theorem parseDynamic_image (h : ∀ k < n, m (a + .ofNat k) = m' (b + .ofNat k)) {left : ℕ}
    (ho : o + 8 * left ≤ n) (d : LibDynamic) :
    parseDynamic m left (a + .ofNat o) d = parseDynamic m' left (b + .ofNat o) d := by
  induction left generalizing o d with
  | zero => rfl
  | succ left ih =>
    have htag := loadWord_image h (o := o) (by omega)
    have hvalue : loadWord m (a + .ofNat o + 4) = loadWord m' (b + .ofNat o + 4) := by
      rw [add_ofNat_lit, add_ofNat_lit]
      exact loadWord_image h (by omega)
    rw [parseDynamic, parseDynamic, htag, hvalue, show (8 : UInt32) = .ofNat 8 from rfl,
      add_ofNat_add, add_ofNat_add]
    split_ifs
    · rfl
    · exact ih (by omega) _

theorem toNat_fileDynamicBytes_le (f : File) : (fileDynamicBytes f).toNat ≤ 256 := by
  rw [fileDynamicBytes]
  split_ifs
  · exact le_rfl
  · exact toNat_atMost_le _ _

section Dynamic

variable {env : Env} {f : File} {s : State} {pos : ℕ}

/-- The state when the dynamic section has been read and parsed. -/
def afterDynamic (env : Env) (s : State) (f : File) : State :=
  { afterRead env s f 256 (dynamicPhdr f).offset (fileDynamicBytes f) 2 with
    scratch :=
      { s.scratch with
        dynamicRead := fileDynamicRead f
        lib := fileLib f
        gnuhashRuntime := 0
        versymRuntime := 0
        verdefNdx := 0
        verdefHash := 0
        verdefNameOff := 0
        symcount := 0 } }

theorem probeNeededDynamic_served (hserves : Serves env s.calls 2) (hfd : s.fd = some ⟨f, pos⟩)
    (hsize : f.length < 4294967296) (hdynamic : (dynamicPhdr f).offset ≠ 0)
    (hoff : s.scratch.dynamicOff = (dynamicPhdr f).offset)
    (hbytes : s.scratch.dynamicSize = (dynamicPhdr f).filesz) :
    probeNeededDynamic env s =
      readNeededSymtab env (readNeededVerdef (readNeededVersym (readNeededGnuHash
        (readNeededHash (readNeededStrtab env (afterDynamic env s f)))))) := by
  have hdynamicBytes : dynamicBytes s.scratch = fileDynamicBytes f := by
    rw [dynamicBytes, hbytes, fileDynamicBytes]
  have hle := toNat_fileDynamicBytes_le f
  have hread : readAt env s (dynamicPhdr f).offset (env.neededElfHeader + .ofNat 256)
      (fileDynamicBytes f) =
        (afterRead env s f 256 (dynamicPhdr f).offset (fileDynamicBytes f) 2,
          some (fileDynamicRead f)) :=
    readAt_served hserves hfd (hle.trans (by omega))
  have hreadLe := (fileRead_le f (dynamicPhdr f).offset (fileDynamicBytes f)).trans hle
  have hnegative : ¬negative (fileDynamicRead f) = true := by
    rw [negative, decide_eq_true_iff, UInt32.le_iff_toNat_le, Nat.not_le]
    exact lt_of_le_of_lt hreadLe (by decide)
  generalize ht : afterRead env s f 256 (dynamicPhdr f).offset (fileDynamicBytes f) 2 = t at hread
  have hparse : parseNeededDynamicTable env
      { t with scratch := { t.scratch with dynamicRead := fileDynamicRead f } } =
      afterDynamic env s f := by
    have hholds : Holds env
        (afterRead env s f 256 (dynamicPhdr f).offset (fileDynamicBytes f) 2).mem 256 f
        (dynamicPhdr f).offset.toNat (fileRead f (dynamicPhdr f).offset (fileDynamicBytes f)).toNat :=
      afterRead_holds s (by omega) 2
    have himage := hholds.image (add_fileRead_le hsize _ _)
    have hcount : 0 + 8 * min (fileDynamicRead f / 8).toNat (neededDynamicBytes / 8).toNat ≤
        (fileRead f (dynamicPhdr f).offset (fileDynamicBytes f)).toNat := by
      have hdiv : (fileDynamicRead f / 8).toNat =
          (fileRead f (dynamicPhdr f).offset (fileDynamicBytes f)).toNat / 8 := UInt32.toNat_div _ _
      omega
    have hlib := parseDynamic_image himage hcount {}
    rw [add_ofNat_zero, add_ofNat_zero] at hlib
    rw [parseNeededDynamicTable, env.neededDynamicBuf_eq, afterDynamic, fileLib, ← hlib, ← ht]
    dsimp only [afterRead]
  rw [probeNeededDynamic, hoff, if_neg hdynamic, hdynamicBytes, env.neededDynamicBuf_eq, hread]
  dsimp only
  rw [if_neg hnegative, hparse]

theorem neededVaddrToFileOff_eq (hin : HeaderIn env s.mem f) (h : HeaderLoadable f)
    (ha : vaddrToFileOff (filePhdrs f) a ≠ none) :
    neededVaddrToFileOff env s a = some (fileOff f a) := by
  rw [neededVaddrToFileOff, State.phdrs, hin.phdrs_eq h, fileOff]
  cases hoff : vaddrToFileOff (filePhdrs f) a with
  | none => exact absurd hoff ha
  | some off => rfl

/-- The state when the string table has been read. -/
def afterStrtab (env : Env) (s : State) (f : File) : State :=
  { afterRead env s f 512 (strtabOff f) (fileStrtabBytes f) 2 with
    scratch := { s.scratch with strtabRead := fileStrtabRead f } }

theorem readNeededStrtab_served (hserves : Serves env s.calls 2) (hfd : s.fd = some ⟨f, pos⟩)
    (hin : HeaderIn env s.mem f) (h : HeaderLoadable f) (hlib : s.scratch.lib = fileLib f)
    (hstrtab : (fileLib f).strtab ≠ 0 ∧ vaddrToFileOff (filePhdrs f) (fileLib f).strtab ≠ none)
    (hstrsz : (fileLib f).strsz ≠ 0) : readNeededStrtab env s = afterStrtab env s f := by
  have hread : readAt env s (strtabOff f) (env.neededElfHeader + .ofNat 512) (fileStrtabBytes f) =
      (afterRead env s f 512 (strtabOff f) (fileStrtabBytes f) 2, some (fileStrtabRead f)) :=
    readAt_served hserves hfd (toNat_atMost_le _ _)
  rw [readNeededStrtab, hlib]
  rw [if_neg hstrtab.1, neededVaddrToFileOff_eq hin h hstrtab.2]
  dsimp only
  rw [if_neg hstrsz, env.neededStrtabBuf_eq, ← strtabOff, ← fileStrtabBytes, hread]
  rfl

/-- The state when the slots for hash tables and versions have been filled. -/
def afterVersions (s : State) (f : File) (i : ℕ) : State :=
  { s with
    scratch :=
      { s.scratch with
        symcount := fileSymcount f
        gnuhashRuntime := (fileObj f i []).gnuhash
        versymRuntime := (fileObj f i []).versym
        verdefNdx := (fileVerdef f).1
        verdefHash := (fileVerdef f).2.1
        verdefNameOff := (fileVerdef f).2.2 } }

/-- The slots of a library that is in slot `i`, before those for hash tables and versions have been
filled. -/
structure Slotted (f : File) (i : ℕ) (s : State) : Prop where
  imaged : Imaged f i s.mem
  lib : s.scratch.lib = fileLib f
  bias : s.scratch.loadBias = fileBias f i

variable {i : ℕ}

theorem Slotted.symcount_eq (h : Slotted f i s) (htables : TablesLoadable f) :
    (if (fileLib f).hash = 0 then 0
      else loadWord s.mem ((fileLib f).hash + s.scratch.loadBias + 4)) = fileSymcount f := by
  rw [fileSymcount]
  by_cases hhash : (fileLib f).hash = 0
  · rw [if_pos hhash, if_pos hhash]
  rw [if_neg hhash, if_neg hhash, h.bias, add_fileBias]
  exact loadWord_image (h.imaged.block (htables.hash hhash)) (o := 4) (by omega)

theorem Slotted.verdef_eq (h : Slotted f i s) (htables : TablesLoadable f)
    (hverdef : (fileLib f).verdef ≠ 0) (hnum : (fileLib f).verdefnum ≠ 0) :
    (loadHalf s.mem ((fileLib f).verdef + fileBias f i + 4)).toUInt32 = (fileVerdef f).1 ∧
      loadWord s.mem ((fileLib f).verdef + fileBias f i + 8) = (fileVerdef f).2.1 ∧
        (if loadWord s.mem ((fileLib f).verdef + fileBias f i + 12) = 0 then 0
          else loadWord s.mem ((fileLib f).verdef + fileBias f i +
            loadWord s.mem ((fileLib f).verdef + fileBias f i + 12))) = (fileVerdef f).2.2 := by
  obtain ⟨hfirst, haux⟩ := htables.verdef hverdef hnum
  have hblock := h.imaged.block hfirst
  have hndx : loadHalf s.mem (slotBase i + ((fileLib f).verdef - lowest f) + 4) =
      loadHalf (image f) ((fileLib f).verdef - lowest f + 4) :=
    loadHalf_image hblock (o := 4) (by omega)
  have hhash : loadWord s.mem (slotBase i + ((fileLib f).verdef - lowest f) + 8) =
      loadWord (image f) ((fileLib f).verdef - lowest f + 8) :=
    loadWord_image hblock (o := 8) (by omega)
  have hdist : loadWord s.mem (slotBase i + ((fileLib f).verdef - lowest f) + 12) =
      loadWord (image f) ((fileLib f).verdef - lowest f + 12) :=
    loadWord_image hblock (o := 12) (by omega)
  have hname := loadWord_image (h.imaged.block haux) (o := 0) (by omega)
  rw [add_ofNat_zero, add_ofNat_zero, ← UInt32.add_assoc] at hname
  have hsome : ¬((fileLib f).verdef = 0 ∨ (fileLib f).verdefnum = 0) := not_or.mpr ⟨hverdef, hnum⟩
  rw [add_fileBias, hndx, hhash, hdist, hname, fileVerdef]
  rw [if_neg hsome]
  exact ⟨rfl, rfl, rfl⟩

theorem readNeededVersions_eq (h : Slotted f i s) (htables : TablesLoadable f)
    (hverdef : s.scratch.verdefNdx = 0 ∧ s.scratch.verdefHash = 0 ∧ s.scratch.verdefNameOff = 0) :
    readNeededVerdef (readNeededVersym (readNeededGnuHash (readNeededHash s))) =
      afterVersions s f i := by
  have hcount := h.symcount_eq htables
  have hlib := h.lib
  have hbias := h.bias
  have hbefore : readNeededVersym (readNeededGnuHash (readNeededHash s)) =
      { s with
        scratch :=
          { s.scratch with
            symcount := fileSymcount f
            gnuhashRuntime := (fileObj f i []).gnuhash
            versymRuntime := (fileObj f i []).versym } } := by
    rw [readNeededVersym, readNeededGnuHash, readNeededHash, hlib]
    dsimp only
    rw [hcount, hlib, hbias]
    rfl
  rw [hbefore, readNeededVerdef]
  dsimp only
  rw [hlib, hbias]
  by_cases hnone : (fileLib f).verdef = 0 ∨ (fileLib f).verdefnum = 0
  · have hzero : fileVerdef f = (0, 0, 0) := by
      exact if_pos hnone
    rw [if_pos hnone, afterVersions, hzero]
    dsimp only
    rw [hverdef.1, hverdef.2.1, hverdef.2.2, hlib, hbias]
  · obtain ⟨hne, hnum⟩ := not_or.mp hnone
    obtain ⟨hndx, hhash, hname⟩ := h.verdef_eq htables hne hnum
    rw [if_neg hnone, hverdef.2.2, hndx, hhash, hname, afterVersions]
    dsimp only
    rw [hlib, hbias]

/-- The state when the symbol table has been read, up to the slots of its first symbol. -/
def afterSymtab (env : Env) (s : State) (f : File) : State :=
  let t := afterRead env s f 1024 (symtabOff f) (fileSymtabBytes f) 2
  { t with scratch := { t.scratch with symtabRead := fileSymtabRead f } }

theorem toNat_fileSymtabBytes_le (f : File) : (fileSymtabBytes f).toNat ≤ 512 := by
  rw [fileSymtabBytes]
  split_ifs
  · exact le_rfl
  · exact toNat_atMost_le _ _

/-- Two states that differ in the slots of the first symbol at most. -/
def SameUpToSym1 (s t : State) : Prop :=
  ∃ value size addr, t =
    { s with
      scratch :=
        { s.scratch with sym1Value := value, sym1Size := size, sym1RuntimeAddr := addr } }

theorem SameUpToSym1.refl (s : State) : SameUpToSym1 s s :=
  ⟨s.scratch.sym1Value, s.scratch.sym1Size, s.scratch.sym1RuntimeAddr, rfl⟩

theorem materializeNeededSym1_slot (hbase : s.scratch.loadBase ≠ 0) (value size : UInt32) :
    SameUpToSym1 s (materializeNeededSym1 env
      { s with scratch := { s.scratch with sym1Value := value, sym1Size := size } }) := by
  rw [materializeNeededSym1]
  by_cases hvalue : value = 0
  · rw [if_pos hvalue]
    exact ⟨value, size, 0, rfl⟩
  · rw [if_neg hvalue, if_pos hbase]
    exact ⟨value, size, value + s.scratch.loadBias, rfl⟩

theorem readNeededSymtab_served (hserves : Serves env s.calls 2) (hfd : s.fd = some ⟨f, pos⟩)
    (hin : HeaderIn env s.mem f) (h : HeaderLoadable f) (htables : TablesLoadable f)
    (hlib : s.scratch.lib = fileLib f) (hcount : s.scratch.symcount = fileSymcount f)
    (hbase : s.scratch.loadBase ≠ 0) :
    SameUpToSym1 (afterSymtab env s f) (readNeededSymtab env s) := by
  have hread : readAt env s (symtabOff f) (env.neededElfHeader + .ofNat 1024) (fileSymtabBytes f) =
      (afterRead env s f 1024 (symtabOff f) (fileSymtabBytes f) 2, some (fileSymtabRead f)) :=
    readAt_served hserves hfd (toNat_fileSymtabBytes_le f)
  have hbytes : symtabBytes s.scratch = fileSymtabBytes f := by
    rw [symtabBytes, hcount, hlib, fileSymtabBytes]
  have hgo : ¬((fileLib f).symtab = 0 ∨ (fileLib f).syment < 16) :=
    not_or.mpr ⟨htables.symtab.1, UInt32.not_lt.mpr htables.syment⟩
  rw [readNeededSymtab, hlib]
  rw [if_neg hgo, neededVaddrToFileOff_eq hin h htables.symtab.2, hbytes, env.neededSymtabBuf_eq]
  dsimp only
  rw [← symtabOff, hread, afterSymtab]
  have hbase' : (afterRead env s f 1024 (symtabOff f) (fileSymtabBytes f) 2).scratch.loadBase ≠ 0 :=
    hbase
  generalize afterRead env s f 1024 (symtabOff f) (fileSymtabBytes f) 2 = t at hbase' ⊢
  dsimp only
  split_ifs
  · exact .refl _
  · exact materializeNeededSym1_slot
      (s := { t with scratch := { t.scratch with symtabRead := fileSymtabRead f } }) hbase' _ _

end Dynamic

/-- What has been read of a library that is in slot `i`. -/
structure TablesIn (env : Env) (f : File) (i : ℕ) (t : State) : Prop where
  fd : ∃ pos, t.fd = some ⟨f, pos⟩
  lib : t.scratch.lib = fileLib f
  base : t.scratch.loadBase = slotBase i
  bias : t.scratch.loadBias = fileBias f i
  strtabRead : t.scratch.strtabRead = fileStrtabRead f
  symtabRead : t.scratch.symtabRead = fileSymtabRead f
  symcount : t.scratch.symcount = fileSymcount f
  gnuhash : t.scratch.gnuhashRuntime = (fileObj f i []).gnuhash
  versym : t.scratch.versymRuntime = (fileObj f i []).versym
  verdefNdx : t.scratch.verdefNdx = (fileVerdef f).1
  verdefHash : t.scratch.verdefHash = (fileVerdef f).2.1
  verdefNameOff : t.scratch.verdefNameOff = (fileVerdef f).2.2
  strtab : Holds env t.mem 512 f (strtabOff f).toNat (fileStrtabRead f).toNat
  symtab : Holds env t.mem 1024 f (symtabOff f).toNat (fileSymtabRead f).toNat

theorem slotBase_ne_zero (hi : i ≤ 8) : slotBase i ≠ 0 := by
  intro hzero
  have hslot := toNat_slotBase hi
  rw [hzero, UInt32.toNat_zero] at hslot
  omega

section Tables

variable {env : Env} {f : File} {s : State} {pos i : ℕ}

theorem toNat_fileStrtabBytes_le (f : File) : (fileStrtabBytes f).toNat ≤ 512 := toNat_atMost_le _ _

/-- The state when all of the tables have been read, up to the slots of the first symbol. -/
def afterTables (env : Env) (s : State) (f : File) (i : ℕ) : State :=
  afterSymtab env (afterVersions (afterStrtab env (afterDynamic env s f) f) f i) f

/-! The fields of these states, so that they are not unfolded any more. -/

theorem afterDynamic_mem (s : State) : (afterDynamic env s f).mem =
    (afterRead env s f 256 (dynamicPhdr f).offset (fileDynamicBytes f) 2).mem := by
  rw [afterDynamic]

theorem afterDynamic_fd (s : State) : ∃ pos, (afterDynamic env s f).fd = some ⟨f, pos⟩ := ⟨_, rfl⟩

theorem afterDynamic_calls (s : State) : (afterDynamic env s f).calls = s.calls + 2 := rfl

theorem afterDynamic_scratch (s : State) : (afterDynamic env s f).scratch =
    { s.scratch with
      dynamicRead := fileDynamicRead f, lib := fileLib f, gnuhashRuntime := 0,
      versymRuntime := 0, verdefNdx := 0, verdefHash := 0, verdefNameOff := 0, symcount := 0 } :=
  rfl

theorem afterStrtab_mem (s : State) : (afterStrtab env s f).mem =
    (afterRead env s f 512 (strtabOff f) (fileStrtabBytes f) 2).mem := by
  rw [afterStrtab]

theorem afterStrtab_fd (s : State) : ∃ pos, (afterStrtab env s f).fd = some ⟨f, pos⟩ := ⟨_, rfl⟩

section Frames

variable (s : State)

theorem afterStrtab_calls : (afterStrtab env s f).calls = s.calls + 2 := rfl

theorem afterStrtab_scratch : (afterStrtab env s f).scratch =
    { s.scratch with strtabRead := fileStrtabRead f } := rfl

theorem afterVersions_mem : (afterVersions s f i).mem = s.mem := rfl

theorem afterVersions_fd : (afterVersions s f i).fd = s.fd := rfl

theorem afterVersions_calls : (afterVersions s f i).calls = s.calls := rfl

theorem afterVersions_scratch : (afterVersions s f i).scratch =
    { s.scratch with
      symcount := fileSymcount f, gnuhashRuntime := (fileObj f i []).gnuhash,
      versymRuntime := (fileObj f i []).versym, verdefNdx := (fileVerdef f).1,
      verdefHash := (fileVerdef f).2.1, verdefNameOff := (fileVerdef f).2.2 } := rfl

theorem afterSymtab_mem : (afterSymtab env s f).mem =
    (afterRead env s f 1024 (symtabOff f) (fileSymtabBytes f) 2).mem := by
  rw [afterSymtab]

theorem afterSymtab_fd : ∃ pos, (afterSymtab env s f).fd = some ⟨f, pos⟩ := ⟨_, rfl⟩

theorem afterSymtab_scratch : (afterSymtab env s f).scratch =
    { s.scratch with symtabRead := fileSymtabRead f } := rfl

theorem afterTables_scratch : (afterTables env s f i).scratch =
    { s.scratch with
      dynamicRead := fileDynamicRead f, lib := fileLib f, strtabRead := fileStrtabRead f,
      symtabRead := fileSymtabRead f, symcount := fileSymcount f,
      gnuhashRuntime := (fileObj f i []).gnuhash, versymRuntime := (fileObj f i []).versym,
      verdefNdx := (fileVerdef f).1, verdefHash := (fileVerdef f).2.1,
      verdefNameOff := (fileVerdef f).2.2 } := by
  rw [afterTables, afterSymtab_scratch, afterVersions_scratch, afterStrtab_scratch,
    afterDynamic_scratch]

theorem afterDynamic_maps : (afterDynamic env s f).maps = s.maps := by
  rw [afterDynamic, afterRead]

theorem afterStrtab_maps : (afterStrtab env s f).maps = s.maps := by
  rw [afterStrtab, afterRead]

theorem afterVersions_maps : (afterVersions s f i).maps = s.maps := rfl

theorem afterSymtab_maps : (afterSymtab env s f).maps = s.maps := by
  rw [afterSymtab, afterRead]

theorem afterTables_maps : (afterTables env s f i).maps = s.maps := by
  rw [afterTables, afterSymtab_maps, afterVersions_maps, afterStrtab_maps, afterDynamic_maps]

end Frames

attribute [irreducible] afterDynamic afterStrtab afterVersions afterSymtab

theorem InBuffers.tables (hx : InBuffers env o n x) (ho : 256 ≤ o) (hon : o + n ≤ 1536) :
    InBuffers env 256 1280 x := by
  obtain ⟨k, hk, rfl⟩ := InBlock.exists_eq_add hx
  rw [add_ofNat_add, inBuffers_add env (by omega) (by omega)]
  omega

theorem afterDynamic_sameOutside (s : State) (f : File) :
    SameOutside (InBuffers env 256 1280) s.mem (afterDynamic env s f).mem := by
  rw [afterDynamic_mem]
  exact (afterRead_sameOutside s (toNat_fileDynamicBytes_le f) 2).mono
    fun _ hx ↦ hx.tables (by omega) (by omega)

theorem afterStrtab_sameOutside (s : State) (f : File) :
    SameOutside (InBuffers env 256 1280) s.mem (afterStrtab env s f).mem := by
  rw [afterStrtab_mem]
  exact (afterRead_sameOutside s (toNat_fileStrtabBytes_le f) 2).mono
    fun _ hx ↦ hx.tables (by omega) (by omega)

theorem afterSymtab_sameOutside (s : State) (f : File) :
    SameOutside (InBuffers env 1024 512) s.mem (afterSymtab env s f).mem := by
  rw [afterSymtab_mem]
  exact afterRead_sameOutside s (toNat_fileSymtabBytes_le f) 2

theorem HeaderIn.mono (hin : HeaderIn env m f) (hsame : SameOutside (InBuffers env 256 1280) m m') :
    HeaderIn env m' f := by
  refine Holds.mono hin hsame fun k _ hk ↦ ?_
  rw [inBuffers_add env (by omega) (by omega)]
  omega

theorem Imaged.tables (h : Imaged f i m) (hfit : ∀ p ∈ filePhdrs f, SegmentFits (lowest f) p)
    (hi : i ≤ 8) (hsame : SameOutside (InBuffers env 256 1280) m m') : Imaged f i m' :=
  h.mono hfit hi hsame fun _ hx ↦ not_inBuffers_slot env hi (by omega) hx

theorem afterTables_sameOutside (s : State) (f : File) (i : ℕ) :
    SameOutside (InBuffers env 256 1280) s.mem (afterTables env s f i).mem := by
  have hstrtab := (@afterDynamic_sameOutside env s f).trans (afterStrtab_sameOutside _ f)
  rw [← afterVersions_mem (f := f) (i := i) (afterStrtab env (afterDynamic env s f) f)] at hstrtab
  exact hstrtab.trans ((afterSymtab_sameOutside _ f).mono
    fun _ hx ↦ hx.tables (by omega) (by omega))

theorem afterTables_strtab (s : State) (i : ℕ) :
    Holds env (afterTables env s f i).mem 512 f (strtabOff f).toNat (fileStrtabRead f).toNat := by
  have hle := toNat_fileStrtabBytes_le f
  have hread : (fileStrtabRead f).toNat ≤ 512 := (fileRead_le f _ _).trans hle
  have hholds : Holds env (afterStrtab env (afterDynamic env s f) f).mem 512 f
      (strtabOff f).toNat (fileStrtabRead f).toNat := by
    rw [afterStrtab_mem]
    exact afterRead_holds _ (by omega) 2
  rw [← afterVersions_mem (f := f) (i := i) (afterStrtab env (afterDynamic env s f) f)] at hholds
  refine hholds.mono (afterSymtab_sameOutside _ f) fun k hk hk' ↦ ?_
  rw [inBuffers_add env (by omega) (by omega)]
  omega

theorem afterTables_symtab (s : State) (i : ℕ) :
    Holds env (afterTables env s f i).mem 1024 f (symtabOff f).toNat (fileSymtabRead f).toNat := by
  have hle := toNat_fileSymtabBytes_le f
  rw [afterTables, afterSymtab_mem]
  exact afterRead_holds _ (by omega) 2

theorem tablesIn_afterTables (hbase : s.scratch.loadBase = slotBase i)
    (hbias : s.scratch.loadBias = fileBias f i) :
    TablesIn env f i (afterTables env s f i) where
  fd := afterSymtab_fd _
  lib := by rw [afterTables_scratch]
  base := by rw [afterTables_scratch]; exact hbase
  bias := by rw [afterTables_scratch]; exact hbias
  strtabRead := by rw [afterTables_scratch]
  symtabRead := by rw [afterTables_scratch]
  symcount := by rw [afterTables_scratch]
  gnuhash := by rw [afterTables_scratch]
  versym := by rw [afterTables_scratch]
  verdefNdx := by rw [afterTables_scratch]
  verdefHash := by rw [afterTables_scratch]
  verdefNameOff := by rw [afterTables_scratch]
  strtab := afterTables_strtab s i
  symtab := afterTables_symtab s i

theorem TablesIn.congr {u : State} (h : TablesIn env f i t) (hsame : SameUpToSym1 t u) :
    TablesIn env f i u := by
  obtain ⟨value, size, addr, rfl⟩ := hsame
  exact { h with }

/-- **The tables of a library.** `probe_needed_dynamic` fills its slots and buffers from the
file. -/
theorem probeNeededDynamic_loadable (h : Loadable f) (hi : i ≤ 8) (hserves : Serves env s.calls 6)
    (hfd : s.fd = some ⟨f, pos⟩) (hin : HeaderIn env s.mem f) (himaged : Imaged f i s.mem)
    (hoff : s.scratch.dynamicOff = (dynamicPhdr f).offset)
    (hbytes : s.scratch.dynamicSize = (dynamicPhdr f).filesz)
    (hbase : s.scratch.loadBase = slotBase i) (hbias : s.scratch.loadBias = fileBias f i) :
    SameUpToSym1 (afterTables env s f i) (probeNeededDynamic env s) := by
  have hsize := h.header.size
  have hfit := h.segments.fit
  have hdynamic : SameOutside (InBuffers env 256 1280) s.mem (afterDynamic env s f).mem :=
    afterDynamic_sameOutside s f
  have hserves₁ : Serves env (afterDynamic env s f).calls 4 := by
    rw [afterDynamic_calls]
    exact hserves.tail (by omega)
  have hlib : (afterDynamic env s f).scratch.lib = fileLib f := by rw [afterDynamic_scratch]
  have hin₁ := hin.mono hdynamic
  have himaged₁ := himaged.tables hfit hi hdynamic
  obtain ⟨pos₁, hfd₁⟩ := @afterDynamic_fd env f s
  obtain ⟨pos₂, hfd₂⟩ := @afterStrtab_fd env f (afterDynamic env s f)
  rw [probeNeededDynamic_served (hserves.tail (i := 0) (j := 2) (by omega)) hfd hsize
      h.tables.dynamic hoff hbytes,
    readNeededStrtab_served (hserves₁.tail (i := 0) (j := 2) (by omega)) hfd₁ hin₁
      h.header hlib h.tables.strtab h.tables.strsz]
  have hstrtab : SameOutside (InBuffers env 256 1280) (afterDynamic env s f).mem
      (afterStrtab env (afterDynamic env s f) f).mem := afterStrtab_sameOutside _ f
  have hscratch : (afterStrtab env (afterDynamic env s f) f).scratch =
      { s.scratch with
        dynamicRead := fileDynamicRead f, lib := fileLib f, gnuhashRuntime := 0,
        versymRuntime := 0, verdefNdx := 0, verdefHash := 0, verdefNameOff := 0, symcount := 0,
        strtabRead := fileStrtabRead f } := by
    rw [afterStrtab_scratch, afterDynamic_scratch]
  have hslotted : Slotted f i (afterStrtab env (afterDynamic env s f) f) :=
    ⟨himaged₁.tables hfit hi hstrtab, by rw [hscratch], by rw [hscratch]; exact hbias⟩
  rw [readNeededVersions_eq hslotted h.tables (by rw [hscratch]; exact ⟨rfl, rfl, rfl⟩),
    afterTables]
  apply readNeededSymtab_served _ ((afterVersions_fd _).trans hfd₂) _ h.header h.tables
  · rw [afterVersions_scratch, hscratch]
  · rw [afterVersions_scratch]
  · rw [afterVersions_scratch, hscratch]
    rw [hbase]
    exact slotBase_ne_zero hi
  · rw [afterVersions_calls, afterStrtab_calls]
    exact hserves₁.tail (by omega)
  · rw [afterVersions_mem]
    exact hin₁.mono hstrtab

end Tables

/-! ## Names of dependencies -/

/-- The names of the libraries that this one needs end within the strings that are read. -/
def NamesInside (f : File) : Prop :=
  ∀ off ∈ (fileLib f).neededOffsets, ∃ str, IsCstr (fileMem f) (strtabOff f + off) str ∧
    off.toNat + str.length < (fileStrtabRead f).toNat

/-- The names are then copied as they are in the file. -/
theorem transitiveNames_eq {f : File} (hsize : f.length < 4294967296) (hinside : NamesInside f)
    (hlib : t.scratch.lib = fileLib f) (hread : t.scratch.strtabRead = fileStrtabRead f)
    (hstrtab : Holds env t.mem 512 f (strtabOff f).toNat (fileStrtabRead f).toNat) :
    transitiveNames env t = fileNeeded f := by
  have himage := hstrtab.image (add_fileRead_le hsize _ _)
  rw [transitiveNames, fileNeeded, hlib, hread]
  refine List.map_congr_left fun off hoff ↦ ?_
  obtain ⟨str, hstr, hlen⟩ := hinside off (List.mem_of_mem_take hoff)
  have hofNat : off = .ofNat off.toNat := by rw [UInt32.ofNat_toNat]
  have hcopy : IsCstr t.mem (env.neededStrtabBuf + off) str := by
    rw [hofNat] at hstr ⊢
    exact IsCstr.image (fun k hk ↦ (himage k hk).symm) hlen hstr
  rw [hstr.cstrTake_eq_take, hcopy.cstrTake_eq_take]

end CaribeOS.Ld
