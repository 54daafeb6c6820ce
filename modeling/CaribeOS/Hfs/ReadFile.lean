import CaribeOS.Hfs.Catalog

/-!
# Reading a file by its path

`hfsplus_read_file` (`booter/hfsplus_boot.c`) walks down a path with one `catalog_scan_child` for
each component and reads the data fork of the file at its end to a buffer of the caller.

Unlike the catalog nodes, the file is not read to the staging buffer. Then no block is lost, and
`forkRead_bytes` says that the buffer holds the fork's bytes. The rest of memory is described by
frames: nothing outside the staging buffer and the caller's buffer changes, whether the read
succeeds or not.
-/

namespace CaribeOS

open ByteMemory

/-! ## Where `fork_read` writes -/

/-- The bytes that a read to `dst` may change. -/
def ReadRegion (secbuf dst : UInt32) (n : ℕ) (x : UInt32) : Prop :=
  InBlock secbuf 8192 x ∨ InBlock dst n x

variable {k : ℕ} {len off out nodeSize : UInt32} {m m' : Mem} {recType type : UInt16}

variable {fuel b p : ℕ} {disk : Disk} {dst secbuf cap : UInt32} {hfs : HfsVolume}
  {path name : List UInt8}

section Loop

variable {disk : Disk} {hfs : HfsVolume} {secbuf : UInt32} {ext : List Extent}

theorem sectorsPerBlock_le (hbs : hfs.bs.toNat ≤ 8192) :
    512 * hfs.sectorsPerBlock.toNat ≤ 8192 := by
  rw [HfsVolume.sectorsPerBlock]
  split_ifs with hzero
  · decide
  · have hdiv : (hfs.bs / hfsSectorSize).toNat = hfs.bs.toNat / 512 := UInt32.toNat_div _ _
    omega

theorem chunkOf_le (hfs : HfsVolume) (off len : UInt32) :
    (chunkOf hfs off len).toNat ≤ len.toNat := by
  rw [chunkOf]
  split_ifs with hlt
  · exact le_rfl
  · exact UInt32.le_iff_toNat_le.mp (UInt32.not_lt.mp hlt)

theorem inBlock_of_rest {x : UInt32}
    (h : InBlock (out + chunkOf hfs off len) (len - chunkOf hfs off len).toNat x) :
    InBlock out len.toNat x := by
  have hle := chunkOf_le hfs off len
  have hlt := len.toNat_lt
  rw [UInt32.toNat_sub_of_le _ _ (UInt32.le_iff_toNat_le.mpr hle)] at h
  have hout : out + chunkOf hfs off len = out + .ofNat (chunkOf hfs off len).toNat := by
    rw [UInt32.ofNat_toNat]
  rw [hout] at h
  exact h.of_add (by omega) (by omega)

/-- **The frame of the loop.** -/
theorem forkReadLoop_sameOutside (hbs : hfs.bs.toNat ≤ 8192) (fuel : ℕ) (off out len : UInt32)
    (m : Mem) : SameOutside (ReadRegion secbuf out len.toNat) m
      (forkReadLoop disk hfs secbuf ext fuel off out len m).2 := by
  induction fuel generalizing off out len m with
  | zero => exact SameOutside.refl _ _
  | succ fuel ih =>
    rw [forkReadLoop]
    by_cases hlen : len = 0
    · rw [if_pos hlen]
      exact SameOutside.refl _ _
    rw [if_neg hlen]
    dsimp only
    cases findExtent ext (off / hfs.bs) with
    | none => exact SameOutside.refl _ _
    | some p =>
      dsimp only [diskRead]
      by_cases hok : disk.ok (blockLba hfs p) hfs.sectorsPerBlock = true
      · rw [if_pos hok]
        -- the block goes to the staging buffer, the chunk to the destination
        have hstage : SameOutside (ReadRegion secbuf out len.toNat) m
            (writeBytes m secbuf (512 * hfs.sectorsPerBlock.toNat)
              fun k ↦ disk.bytes (512 * (blockLba hfs p).toNat + k)) :=
          (sameOutside_writeBytes _ _ _ _).mono fun x hx ↦ Or.inl (hx.mono (sectorsPerBlock_le hbs))
        refine (hstage.trans ((sameOutside_copyForward _ _ _ _).mono ?_)).trans
          ((ih _ _ _ _).mono ?_)
        · exact fun x hx ↦ Or.inr (hx.mono (chunkOf_le hfs off len))
        · exact fun x hx ↦ hx.imp_right inBlock_of_rest
      · rw [if_neg hok]
        exact SameOutside.refl _ _

theorem copyForward_stageBlock (hs : hfs.SaneBlockSize) (hapart : Apart out len.toNat secbuf 8192)
    (m : Mem) (hk : k < (chunkOf hfs off len).toNat) :
    copyForward (stageBlock disk hfs secbuf ext (off.toNat / hfs.bs.toNat) m) out
        (secbuf + .ofNat (off.toNat % hfs.bs.toNat)) (chunkOf hfs off len).toNat (out + .ofNat k)
      = disk.bytes (blockAddr hfs ext ((off.toNat + k) / hfs.bs.toNat)
          + (off.toNat + k) % hfs.bs.toNat) := by
  obtain ⟨hbs, hspb, hmax⟩ := hs.toNat_bs
  have hchunk := toNat_chunkOf hs off len
  have hfar : 8192 ≤ (out - secbuf).toNat := by
    have hout : InBlock out len.toNat out := by
      rw [InBlock, UInt32.sub_self, UInt32.toNat_zero]
      omega
    exact not_lt.mp (hapart out hout)
  -- the destination is past the block in the staging buffer, so the copy is without hazard
  have hsafe : (chunkOf hfs off len).toNat
      ≤ (out - (secbuf + .ofNat (off.toNat % hfs.bs.toNat))).toNat := by
    rw [toNat_sub_add_ofNat (by omega)]
    omega
  obtain ⟨hdiv, hrem⟩ := div_eq_of_lt_chunkOf hs (Nat.le_add_right off.toNat k)
    (by omega : off.toNat + k < off.toNat + (chunkOf hfs off len).toNat)
  rw [Nat.add_sub_cancel_left] at hrem
  rw [copyForward_eq_writeBytes _ (by omega) (Or.inr hsafe), writeBytes_add _ _ _ hk (by omega),
    add_ofNat_add, stageBlock_add hs _ _ (by omega), hdiv, hrem]

/-- **What the loop delivers** to a destination apart from the staging buffer. -/
theorem forkReadLoop_bytes (hs : hfs.SaneBlockSize) (hfuel : len.toNat ≤ fuel)
    (htop : off.toNat + len.toNat ≤ 4294967296) (hapart : Apart out len.toNat secbuf 8192)
    (hok : (forkReadLoop disk hfs secbuf ext fuel off out len m).1 = true) (hk : k < len.toNat) :
    (forkReadLoop disk hfs secbuf ext fuel off out len m).2 (out + .ofNat k)
      = disk.bytes (blockAddr hfs ext ((off.toNat + k) / hfs.bs.toNat)
          + (off.toNat + k) % hfs.bs.toNat) := by
  obtain ⟨hbs, hspb, hmax⟩ := hs.toNat_bs
  induction fuel generalizing off out len m k with
  | zero => omega
  | succ fuel ih =>
    have hround := forkReadLoop_round hs hfuel htop (by omega) hok
    rw [hround] at hok ⊢
    rcases chunkOf_cases hs htop with ⟨hall, -⟩ | ⟨-, hoff, hrest, hless, hcpos⟩
    · rw [hall, UInt32.sub_self, forkReadLoop_zero,
        ← copyForward_stageBlock hs hapart m (by rwa [hall]), hall]
    · have hout : out + chunkOf hfs off len = out + .ofNat (chunkOf hfs off len).toNat := by
        rw [UInt32.ofNat_toNat]
      rcases Nat.lt_or_ge k (chunkOf hfs off len).toNat with hin | hlater
      · refine (forkReadLoop_sameOutside hmax _ _ _ _ _ _ ?_).trans
          (copyForward_stageBlock hs hapart m hin)
        rintro (hstage | hdst)
        · exact hapart _ (inBlock_add out hk (by omega)) hstage
        · rw [hout] at hdst
          exact not_inBlock_add_of_lt out hin (by omega) hdst
      · have hapart' : Apart (out + chunkOf hfs off len) (len - chunkOf hfs off len).toNat
            secbuf 8192 := fun x hx ↦ hapart x (inBlock_of_rest hx)
        have hih := ih (by omega) (by omega) hapart' hok
          (by omega : k - (chunkOf hfs off len).toNat < (len - chunkOf hfs off len).toNat)
        rw [hoff, show off.toNat + (chunkOf hfs off len).toNat + (k - (chunkOf hfs off len).toNat)
          = off.toNat + k by omega] at hih
        rw [← hih, hout, add_ofNat_add, Nat.add_sub_cancel' hlater]

end Loop

/-- **The frame of `fork_read`.** -/
theorem forkRead_sameOutside (disk : Disk) (hfs : HfsVolume) (secbuf : UInt32) (fk : ForkMeta)
    (off dst len : UInt32) (m : Mem) : SameOutside (ReadRegion secbuf dst len.toNat) m
      (forkRead disk hfs secbuf fk off dst len m).2 := by
  rw [forkRead]
  split_ifs with hzero hbs hoff hlong
  · exact SameOutside.refl _ _
  · exact SameOutside.refl _ _
  · exact SameOutside.refl _ _
  all_goals
    have hmax : hfs.bs.toNat ≤ 8192 := UInt32.le_iff_toNat_le.mp (UInt32.not_lt.mp hbs)
  · have hshort : (fk.size - off.toUInt64).toUInt32.toNat ≤ len.toNat := by
      rw [UInt64.le_iff_toNat_le] at hoff
      rw [UInt64.lt_iff_toNat_lt, UInt64.toNat_add, UInt32.toNat_toUInt64] at hlong
      rw [UInt32.toNat_toUInt64] at hlong hoff
      rw [UInt64.toNat_toUInt32, UInt64.toNat_sub_of_le, UInt32.toNat_toUInt64]
      · omega
      · rw [UInt64.le_iff_toNat_le, UInt32.toNat_toUInt64]
        omega
    exact (forkReadLoop_sameOutside hmax _ _ _ _ _).mono
      fun x hx ↦ hx.imp_right fun h ↦ h.mono hshort
  · exact forkReadLoop_sameOutside hmax _ _ _ _ _

/-- **`fork_read` to a buffer of the caller**: a range inside the fork, on a volume whose sector
numbers fit in 32 bits, arrives as it is. -/
theorem forkRead_bytes {fk : ForkMeta} (hs : hfs.SaneBlockSize)
    (hinside : off.toNat + len.toNat ≤ fk.size.toNat) (htop : off.toNat + len.toNat ≤ 4294967296)
    (hapart : Apart dst len.toNat secbuf 8192)
    (hfit : SectorsFit hfs (List.ofFn fk.ext) off.toNat len.toNat)
    (hread : forkRead disk hfs secbuf fk off dst len m = (true, m')) (hk : k < len.toNat) :
    forkByte disk hfs.bs.toNat (List.ofFn fk.ext) (off.toNat + k) = some (m' (dst + .ofNat k)) := by
  rw [forkRead_eq_loop disk hs hinside (by omega)] at hread
  have hok := congrArg Prod.fst hread
  obtain ⟨p, hp, -⟩ := (forkReadLoop_fst_iff hs le_rfl htop).mp hok (off.toNat + k) (by omega)
    (by omega)
  have hbyte := forkReadLoop_bytes hs le_rfl htop hapart hok hk
  rw [hread, (blockAddr_eq_iff hs hp).mpr (hfit _ (by omega) (by omega) p hp)] at hbyte
  rw [forkByte, hp, Option.map_some]
  exact congrArg some hbyte.symm

/-! ## `hfsplus_read_file` as it stands in the source -/

/-- `split_next_path_component`: the next component, cut to `cap - 1` characters, and the rest of
the path behind the slashes that follow it. -/
def splitNextPathComponent (path : List UInt8) (cap : ℕ) : Option (List UInt8 × List UInt8) :=
  let path := path.dropWhile (· = 47)
  if path = [] then none
  else some ((path.takeWhile (· ≠ 47)).take (cap - 1), (path.dropWhile (· ≠ 47)).dropWhile (· = 47))

def pathHasMore (path : List UInt8) : Bool := path.dropWhile (· = 47) ≠ []

section Code

variable (disk : Disk) (hfs : HfsVolume) (secbuf : UInt32)

/-- The loop of `hfsplus_read_file` down to the file, from the folder `parent` on. Every round takes
a component off the path, so its length bounds the rounds. -/
def hfsplusFindFile : ℕ → UInt32 → List UInt8 → Mem → Option ForkMeta × Mem
  | 0, _, _, m => (none, m)
  | fuel + 1, parent, path, m =>
    match splitNextPathComponent path 128 with
    | none => (none, m)
    | some (comp, rest) =>
      if pathHasMore rest then
        match catalogScanChild disk hfs secbuf ⟨true, false, parent, comp⟩ 0 m with
        | ((rtype, some (.folder folderID)), m) =>
          if rtype ≠ 1 then (none, m) else hfsplusFindFile fuel folderID rest m
        | (_, m) => (none, m)
      else
        match catalogScanChild disk hfs secbuf ⟨false, true, parent, comp⟩ 0 m with
        | ((rtype, some (.file fk)), m) => if rtype ≠ 2 then (none, m) else (some fk, m)
        | (_, m) => (none, m)

/-- `hfsplus_read_file`: the size written to `*outSize`, `none` for the return value `-1`. -/
def hfsplusReadFile (path : List UInt8) (dst cap : UInt32) (m : Mem) : Option UInt32 × Mem :=
  match hfsplusFindFile disk hfs secbuf path.length 2 path m with
  | (none, m) => (none, m)
  | (some fk, m) =>
    if cap.toUInt64 < fk.size then (none, m)
    else
      match forkRead disk hfs secbuf fk 0 dst fk.size.toUInt32 m with
      | (false, m) => (none, m)
      | (true, m) => (some fk.size.toUInt32, m)

end Code

section Frames

variable (disk : Disk) (hfs : HfsVolume) (secbuf : UInt32)

theorem scanNodes_sameOutside (q : ScanQuery) (hsize : nodeSize.toNat ≤ 8192) (last : UInt32)
    (fuel : ℕ) (node : UInt32) (recType : UInt16) (m : Mem) :
    SameOutside (InBlock secbuf 8192) m
      (scanNodes q secbuf nodeSize disk hfs last fuel node recType m).2 := by
  induction fuel generalizing node recType m with
  | zero => exact SameOutside.refl _ _
  | succ fuel ih =>
    rw [scanNodes]
    by_cases hlast : last < node
    · rw [if_pos hlast]
      exact SameOutside.refl _ _
    rw [if_neg hlast]
    have hread := (forkRead_sameOutside disk hfs secbuf hfs.catalog (node * nodeSize) secbuf
      nodeSize m).mono (fun x hx ↦ hx.elim id fun h ↦ h.mono hsize)
    generalize forkRead disk hfs secbuf hfs.catalog (node * nodeSize) secbuf nodeSize m = result
      at hread ⊢
    obtain ⟨_ | _, m'⟩ := result
    · exact hread
    · dsimp only
      generalize scanNode q secbuf nodeSize m' recType = result
      obtain ⟨recType', _ | hit⟩ := result
      · dsimp only
        split_ifs
        · exact hread
        · exact hread.trans (ih _ _ _)
      · exact hread

theorem catalogScanChild_sameOutside (q : ScanQuery) (recType : UInt16) (m : Mem) :
    SameOutside (InBlock secbuf 8192) m (catalogScanChild disk hfs secbuf q recType m).2 := by
  rw [catalogScanChild]
  split_ifs with hsize
  · exact SameOutside.refl _ _
  · exact scanNodes_sameOutside disk hfs secbuf q
      (UInt32.le_iff_toNat_le.mp (UInt32.not_lt.mp hsize)) _ _ _ _ _

theorem hfsplusFindFile_sameOutside (fuel : ℕ) (parent : UInt32) (path : List UInt8) (m : Mem) :
    SameOutside (InBlock secbuf 8192) m (hfsplusFindFile disk hfs secbuf fuel parent path m).2 := by
  induction fuel generalizing parent path m with
  | zero => exact SameOutside.refl _ _
  | succ fuel ih =>
    rw [hfsplusFindFile]
    rcases splitNextPathComponent path 128 with _ | ⟨comp, rest⟩
    · exact SameOutside.refl _ _
    dsimp only
    split_ifs with hmore
    · have hscan := catalogScanChild_sameOutside disk hfs secbuf ⟨true, false, parent, comp⟩ 0 m
      generalize catalogScanChild disk hfs secbuf ⟨true, false, parent, comp⟩ 0 m = result
        at hscan ⊢
      obtain ⟨⟨rtype, _ | ⟨folderID⟩ | _⟩, m'⟩ := result
      · exact hscan
      · dsimp only
        split_ifs
        · exact hscan
        · exact hscan.trans (ih _ _ _)
      · exact hscan
    · have hscan := catalogScanChild_sameOutside disk hfs secbuf ⟨false, true, parent, comp⟩ 0 m
      generalize catalogScanChild disk hfs secbuf ⟨false, true, parent, comp⟩ 0 m = result
        at hscan ⊢
      obtain ⟨⟨rtype, _ | _ | ⟨fk⟩⟩, m'⟩ := result
      · exact hscan
      · exact hscan
      · dsimp only
        split_ifs
        · exact hscan
        · exact hscan

/-- **The frame of `hfsplus_read_file`**, for success and failure. -/
theorem hfsplusReadFile_sameOutside (path : List UInt8) (dst cap : UInt32) (m : Mem) :
    SameOutside (ReadRegion secbuf dst cap.toNat) m
      (hfsplusReadFile disk hfs secbuf path dst cap m).2 := by
  rw [hfsplusReadFile]
  have hfind := (hfsplusFindFile_sameOutside disk hfs secbuf path.length 2 path m).mono
    (T := ReadRegion secbuf dst cap.toNat) fun x hx ↦ Or.inl hx
  generalize hfsplusFindFile disk hfs secbuf path.length 2 path m = result at hfind ⊢
  obtain ⟨_ | fk, m'⟩ := result
  · exact hfind
  dsimp only
  split_ifs with hcap
  · exact hfind
  have hsize : fk.size.toUInt32.toNat ≤ cap.toNat := by
    exact (Nat.mod_le _ _).trans (not_lt.mp hcap)
  have hread := (forkRead_sameOutside disk hfs secbuf fk 0 dst fk.size.toUInt32 m').mono
    fun x hx ↦ hx.imp_right fun h ↦ h.mono hsize
  generalize forkRead disk hfs secbuf fk 0 dst fk.size.toUInt32 m' = result at hread ⊢
  obtain ⟨_ | _, m''⟩ := result
  · exact hfind.trans hread
  · exact hfind.trans hread

end Frames

/-- **What `hfsplus_read_file` delivers**: the size and the bytes of the file it finds, if the
buffer is apart from the staging buffer and the file's sector numbers fit in 32 bits. -/
theorem hfsplusReadFile_bytes {size : UInt32} (hs : hfs.SaneBlockSize)
    (hapart : Apart dst cap.toNat secbuf 8192)
    (hread : hfsplusReadFile disk hfs secbuf path dst cap m = (some size, m')) :
    ∃ fk, (hfsplusFindFile disk hfs secbuf path.length 2 path m).1 = some fk ∧
      size.toNat = fk.size.toNat ∧ size.toNat ≤ cap.toNat ∧
      (SectorsFit hfs (List.ofFn fk.ext) 0 size.toNat → ∀ k < size.toNat,
        forkByte disk hfs.bs.toNat (List.ofFn fk.ext) k = some (m' (dst + .ofNat k))) := by
  rw [hfsplusReadFile] at hread
  generalize hfsplusFindFile disk hfs secbuf path.length 2 path m = found at hread ⊢
  obtain ⟨_ | fk, m₁⟩ := found
  · exact absurd (congrArg Prod.fst hread) (Option.some_ne_none _).symm
  dsimp only at hread
  split_ifs at hread with hcap
  · exact absurd (congrArg Prod.fst hread) (Option.some_ne_none _).symm
  rw [UInt64.lt_iff_toNat_lt, UInt32.toNat_toUInt64, not_lt] at hcap
  have hcaplt := cap.toNat_lt
  have hsize : fk.size.toUInt32.toNat = fk.size.toNat := by
    rw [UInt64.toNat_toUInt32, Nat.mod_eq_of_lt (by omega)]
  cases hfork : forkRead disk hfs secbuf fk 0 dst fk.size.toUInt32 m₁ with
  | mk ok m₂ =>
    rw [hfork] at hread
    cases ok with
    | false => exact absurd (congrArg Prod.fst hread) (Option.some_ne_none _).symm
    | true =>
      obtain ⟨rfl, rfl⟩ : fk.size.toUInt32 = size ∧ m₂ = m' := by
        rw [Prod.mk.injEq, Option.some_inj] at hread
        exact hread
      refine ⟨fk, rfl, hsize, by omega, fun hfit k hk ↦ ?_⟩
      have hzero : (0 : UInt32).toNat = 0 := rfl
      have hbyte := forkRead_bytes hs (by omega) (by omega)
        (fun x hx ↦ hapart x (hx.mono (by omega))) (by rwa [hzero]) hfork hk
      rwa [hzero, Nat.zero_add] at hbyte

/-! ## A fork read in all cases -/

section Exact

variable {disk : Disk} {hfs : HfsVolume} {secbuf : UInt32} {fk : ForkMeta} {off dst len : UInt32}

theorem forkBlock_lt {ext : List Extent} (h : forkBlock ext b = some p) :
    ∃ e ∈ ext, p < e.start.toNat + e.count.toNat := by
  induction ext generalizing b with
  | nil => exact absurd h (Option.some_ne_none _).symm
  | cons e es ih =>
    rw [forkBlock] at h
    split_ifs at h with hlt
    · rw [Option.some_inj] at h
      exact ⟨e, List.mem_cons_self, by omega⟩
    · obtain ⟨e', hmem, hp⟩ := ih h
      exact ⟨e', List.mem_cons_of_mem e hmem, hp⟩

/-- The extents end below sector `2 ^ 32`. -/
def ExtentsFit (hfs : HfsVolume) (fk : ForkMeta) : Prop :=
  ∀ i, ((fk.ext i).start.toNat + (fk.ext i).count.toNat) * hfs.sectorsPerBlock.toNat < 4294967296
  deriving Decidable

theorem ExtentsFit.lt (hfit : ExtentsFit hfs fk) (hp : forkBlock (List.ofFn fk.ext) b = some p) :
    p * hfs.sectorsPerBlock.toNat < 4294967296 := by
  obtain ⟨e, hmem, hlt⟩ := forkBlock_lt hp
  obtain ⟨i, rfl⟩ := List.mem_ofFn.mp hmem
  exact (Nat.mul_le_mul_right _ hlt.le).trans_lt (hfit i)

/-- The extents cover block `b`, and the device reads the sectors of that block. -/
def BlockReads (disk : Disk) (hfs : HfsVolume) (ext : List Extent) (b : ℕ) : Prop :=
  ∃ p, forkBlock ext b = some p ∧
    disk.ok (.ofNat (p * hfs.sectorsPerBlock.toNat)) hfs.sectorsPerBlock = true

theorem ExtentsFit.blockOk_iff (hfit : ExtentsFit hfs fk) (b : ℕ) :
    BlockOk disk hfs (List.ofFn fk.ext) b ↔ BlockReads disk hfs (List.ofFn fk.ext) b := by
  constructor
  · rintro ⟨p, hp, hok⟩
    exact ⟨p, hp, blockLba_eq (hfit.lt hp) ▸ hok⟩
  · rintro ⟨p, hp, hok⟩
    exact ⟨p, hp, (blockLba_eq (hfit.lt hp)).symm ▸ hok⟩

/-- **`fork_read` is exact.** It succeeds when the range starts inside the fork and its blocks up to
the end of the fork can be read, delivers the fork's bytes then, and in no case writes to the
destination beyond them; `hfsplus_read_file` stays inside its buffer. -/
theorem forkRead_exact (hs : hfs.SaneBlockSize) (hfit : ExtentsFit hfs fk)
    (htop : off.toNat + len.toNat ≤ 4294967296) (hapart : Apart dst len.toNat secbuf 8192)
    (m : Mem) :
    ((forkRead disk hfs secbuf fk off dst len m).1 = true ↔
      off.toNat < fk.size.toNat ∧
        ∀ x, off.toNat ≤ x → x < off.toNat + min len.toNat (fk.size.toNat - off.toNat) →
          BlockReads disk hfs (List.ofFn fk.ext) (x / hfs.bs.toNat)) ∧
    ((forkRead disk hfs secbuf fk off dst len m).1 = true →
      ∀ k < min len.toNat (fk.size.toNat - off.toNat),
        forkByte disk hfs.bs.toNat (List.ofFn fk.ext) (off.toNat + k)
          = some ((forkRead disk hfs secbuf fk off dst len m).2 (dst + .ofNat k))) ∧
    SameOutside (ReadRegion secbuf dst (min len.toNat (fk.size.toNat - off.toNat))) m
      (forkRead disk hfs secbuf fk off dst len m).2 ∧
    ∀ path cap, SameOutside (ReadRegion secbuf dst cap.toNat) m
      (hfsplusReadFile disk hfs secbuf path dst cap m).2 := by
  refine and_assoc.mp (and_assoc.mp ⟨?_, fun path cap ↦
    hfsplusReadFile_sameOutside disk hfs secbuf path dst cap m⟩)
  rcases Nat.lt_or_ge off.toNat fk.size.toNat with hstart | hpast
  · obtain ⟨n, hn, hread⟩ := forkRead_eq_clamped disk hs hstart secbuf dst len m
    rw [hread, ← hn]
    have htop' : off.toNat + n.toNat ≤ 4294967296 := by omega
    have hiff : (forkReadLoop disk hfs secbuf (List.ofFn fk.ext) n.toNat off dst n m).1 = true ↔ _ :=
      forkReadLoop_fst_iff hs le_rfl htop'
    refine ⟨⟨?_, fun hok k hk ↦ ?_⟩, forkReadLoop_sameOutside hs.toNat_bs.2.2 _ _ _ _ _⟩
    · rw [hiff]
      simp only [hfit.blockOk_iff]
      exact ⟨fun h ↦ ⟨hstart, h⟩, And.right⟩
    · obtain ⟨p, hp, -⟩ := hiff.mp hok (off.toNat + k) (by omega) (by omega)
      have hbyte := forkReadLoop_bytes hs le_rfl htop' (fun x hx ↦ hapart x (hx.mono (by omega)))
        hok hk
      rw [(blockAddr_eq_iff hs hp).mpr (hfit.lt hp)] at hbyte
      rw [forkByte, hp, Option.map_some, hbyte]
  · -- past the end of the fork nothing is read
    have hfail : forkRead disk hfs secbuf fk off dst len m = (false, m) := by
      have hinside : fk.size ≤ off.toUInt64 := by
        rwa [UInt64.le_iff_toNat_le, UInt32.toNat_toUInt64]
      rw [forkRead, if_pos hinside, ite_self, ite_self]
    rw [hfail]
    refine ⟨⟨⟨fun h ↦ Bool.noConfusion h, fun h ↦ absurd h.1 (not_lt.mpr hpast)⟩,
      fun h ↦ Bool.noConfusion h⟩, SameOutside.refl _ _⟩

/-- A node of the sample's catalog, read to a buffer above the staging buffer. -/
theorem forkRead_exact_twoFiles :
    (forkRead twoFilesDisk twoFiles 2149580800 twoFiles.catalog 1024 2149588992 1024
      fun _ ↦ 0).1 = true := by
  have hfit : ExtentsFit twoFiles twoFiles.catalog := by decide
  have hapart : Apart 2149588992 1024 2149580800 8192 :=
    (Apart.of_le (by decide) (by decide)).symm
  refine (forkRead_exact catalogLayout_twoFiles.sane hfit (by decide) hapart _).1.mpr
    ⟨by decide, fun x hle hlt ↦ ⟨10, ?_, rfl⟩⟩
  have hx : x / twoFiles.bs.toNat = 0 := by
    rw [show twoFiles.bs.toNat = 4096 by decide]
    rw [show twoFiles.catalog.size.toNat = 4096 by decide] at hlt
    omega
  rw [hx]
  decide

end Exact

/-! ## When a file is read -/

section Found

variable {disk : Disk} {hfs : HfsVolume} {q : ScanQuery} {secbuf : UInt32} {fk : ForkMeta}
  {hit : ScanHit}

/-- The type of the record that a scan has found. -/
def ScanHit.recordType : ScanHit → UInt16
  | .folder _ => 1
  | .file _ => 2

/-- A hit comes with the record type of its kind, at every level of the scan. -/
theorem scanRecord_type {recOff : UInt32} {written : Option UInt16}
    (h : scanRecord q secbuf nodeSize m recOff = (written, some hit)) :
    written = some hit.recordType := by
  rw [scanRecord] at h
  dsimp only at h
  split_ifs at h with _ _ _ hfolder hfile
  all_goals
    obtain ⟨hwritten, hhit⟩ := Prod.mk.inj h
  · exact absurd hhit (by simp)
  · exact absurd hhit (by simp)
  · exact absurd hhit (by simp)
  · rw [← hwritten, hfolder.1, ← Option.some_inj.mp hhit, ScanHit.recordType]
  · rw [← hwritten, hfile.1, ← Option.some_inj.mp hhit, ScanHit.recordType]
  · exact absurd hhit (by simp)

theorem scanRecords_type {idx : UInt32} {rs : List ℕ}
    (h : scanRecords q secbuf nodeSize m idx rs recType = (type, some hit)) :
    type = hit.recordType := by
  induction rs generalizing recType with
  | nil => exact absurd (congrArg Prod.snd h) (by simp [scanRecords])
  | cons r rs ih =>
    rw [scanRecords] at h
    cases hscan : scanRecord q secbuf nodeSize m (rdbe16 m (idx + .ofNat (2 * r))).toUInt32 with
    | mk written hit' =>
      rw [hscan] at h
      cases hit' with
      | none => exact ih h
      | some hit' =>
        obtain ⟨htype, hhit⟩ := Prod.mk.inj h
        rw [Option.some_inj.mp hhit] at hscan
        rw [← htype, scanRecord_type hscan, Option.getD_some]

theorem scanNodes_type {last node : UInt32}
    (h : scanNodes q secbuf nodeSize disk hfs last fuel node recType m
      = ((type, some hit), m')) : type = hit.recordType := by
  induction fuel generalizing node recType m with
  | zero => exact absurd (congrArg (·.1.2) h) (by simp [scanNodes])
  | succ fuel ih =>
    rw [scanNodes] at h
    by_cases hlast : last < node
    · rw [if_pos hlast] at h
      exact absurd (congrArg (·.1.2) h) (by simp)
    rw [if_neg hlast] at h
    generalize forkRead disk hfs secbuf hfs.catalog (node * nodeSize) secbuf nodeSize m = read at h
    obtain ⟨_ | _, m₁⟩ := read
    · exact absurd (congrArg (·.1.2) h) (by simp)
    dsimp only at h
    cases hscan : scanNode q secbuf nodeSize m₁ recType with
    | mk type' hit' =>
      rw [hscan] at h
      cases hit' with
      | none =>
        split_ifs at h
        · exact absurd (congrArg (·.1.2) h) (by simp)
        · exact ih h
      | some hit' =>
        obtain ⟨rfl, hhit⟩ := Prod.mk.inj (Prod.mk.inj h).1
        rw [Option.some_inj.mp hhit, scanNode] at hscan
        dsimp only at hscan
        split_ifs at hscan
        · exact absurd (congrArg Prod.snd hscan) (by simp)
        · exact absurd (congrArg Prod.snd hscan) (by simp)
        · exact scanRecords_type hscan

theorem catalogScanChild_type
    (h : catalogScanChild disk hfs secbuf q recType m = ((type, some hit), m')) :
    type = hit.recordType := by
  rw [catalogScanChild] at h
  split_ifs at h
  · exact absurd (congrArg (·.1.2) h) (by simp)
  · exact scanNodes_type h

theorem splitNextPathComponent_single (hpos : name ≠ []) (hlen : name.length ≤ 127)
    (hslash : 47 ∉ name) : splitNextPathComponent name 128 = some (name, []) := by
  have hne : ∀ c ∈ name, c ≠ 47 := fun c hc heq ↦ hslash (heq ▸ hc)
  have hdrop : name.dropWhile (· = 47) = name := by
    cases name with
    | nil => rfl
    | cons c cs => exact List.dropWhile_cons_of_neg (by simpa using hne c List.mem_cons_self)
  have htake : name.takeWhile (· ≠ 47) = name :=
    List.takeWhile_eq_self_iff.mpr fun c hc ↦ decide_eq_true (hne c hc)
  have hrest : name.dropWhile (· ≠ 47) = [] :=
    List.dropWhile_eq_nil_iff.mpr fun c hc ↦ decide_eq_true (hne c hc)
  rw [splitNextPathComponent, hdrop, if_neg hpos, htake, hrest, List.take_of_length_le hlen,
    List.dropWhile_nil]

/-- **A file of the root folder**, found by its name. -/
theorem hfsplusFindFile_single (hpos : name ≠ []) (hlen : name.length ≤ 127) (hslash : 47 ∉ name)
    (fuel : ℕ) (parent : UInt32)
    (h : (catalogScanChild disk hfs secbuf (fileQuery parent name) 0 m).1.2 = some (.file fk)) :
    (hfsplusFindFile disk hfs secbuf (fuel + 1) parent name m).1 = some fk := by
  rw [hfsplusFindFile, splitNextPathComponent_single hpos hlen hslash]
  dsimp only
  cases hscan : catalogScanChild disk hfs secbuf (fileQuery parent name) 0 m with
  | mk result m₁ =>
    obtain ⟨type, hit⟩ := result
    obtain rfl : hit = some (.file fk) := by rw [hscan] at h; exact h
    rw [fileQuery] at hscan
    rw [hscan, catalogScanChild_type hscan]
    rfl

/-- **The read succeeds** if the file fits into the buffer, its extents cover it and the disk
delivers. -/
theorem hfsplusReadFile_fst (hs : hfs.SaneBlockSize) (dst : UInt32)
    (hfind : (hfsplusFindFile disk hfs secbuf path.length 2 path m).1 = some fk)
    (hpos : 0 < fk.size.toNat) (hcap : fk.size.toNat ≤ cap.toNat)
    (hok : ∀ x < fk.size.toNat, BlockOk disk hfs (List.ofFn fk.ext) (x / hfs.bs.toNat)) :
    (hfsplusReadFile disk hfs secbuf path dst cap m).1 = some fk.size.toUInt32 := by
  have hlt := cap.toNat_lt
  have hsize : fk.size.toUInt32.toNat = fk.size.toNat := by
    rw [UInt64.toNat_toUInt32, Nat.mod_eq_of_lt (by omega)]
  have hzero : (0 : UInt32).toNat = 0 := rfl
  have hfits : ¬cap.toUInt64 < fk.size := by
    rw [UInt64.lt_iff_toNat_lt, UInt32.toNat_toUInt64]
    omega
  rw [hfsplusReadFile]
  generalize hfsplusFindFile disk hfs secbuf path.length 2 path m = found at hfind ⊢
  obtain ⟨found, m₁⟩ := found
  obtain rfl : found = some fk := hfind
  dsimp only
  rw [if_neg hfits]
  have hread : (forkRead disk hfs secbuf fk 0 dst fk.size.toUInt32 m₁).1 = true := by
    rw [forkRead_eq_loop disk hs (by omega) (by omega), forkReadLoop_fst_iff hs le_rfl (by omega)]
    intro x _ hx
    exact hok x (by omega)
  generalize forkRead disk hfs secbuf fk 0 dst fk.size.toUInt32 m₁ = read at hread ⊢
  obtain ⟨ok, m₂⟩ := read
  obtain rfl : ok = true := hread
  rfl

end Found

end CaribeOS
