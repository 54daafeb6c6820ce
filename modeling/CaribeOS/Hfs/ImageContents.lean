import CaribeOS.Hfs.ScriptForks

/-!
# What the scripts see of an image

The scripts read and write three things of an image besides the data of files: the volume header, the
allocation bitmap and the nodes of the catalog (`Contents`). These lie at different places, if the
extents of the bitmap file and of the catalog are what they should be (`Geometry`); a write to one
leaves the others alone, and so does a write to any other block. The theorems `Geometry.contents_*`
say what each kind of write does to the contents. They hold for a first part of the writes, too: the
bytes up to some point are new then (`overlay`).

`mount` reads its fields out of the header and of the first node (`mount_eq`, `of_mount_eq_ok`).
-/

namespace CaribeOS.HfsScript

open FileScript Extents

/-! ## Mounting -/

/-- The volume that is described by the volume header `h` and the beginning `t` of the catalog. -/
def volume (h t : ℕ → UInt8) : HFSPlusImage :=
  let first := (CaribeOS.be32 t 24).toNat
  let last := (CaribeOS.be32 t 28).toNat
  let total := (CaribeOS.be32 t 36).toNat
  let nodeSize := (CaribeOS.be16 t 32).toNat
  let noLeaves : Bool := first = 0 ∨ last = 0 ∨ last < first
  { blockSize := (CaribeOS.be32 h 40).toNat
    totalBlocks := (CaribeOS.be32 h 44).toNat
    freeBlocks := (CaribeOS.be32 h 48).toNat
    allocation := forkAt h 112
    catalog := forkAt h 272
    nodeSize := if nodeSize = 0 then 4096 else nodeSize
    totalNodes := total
    firstLeaf := if noLeaves then 1 else first
    lastLeaf := if noLeaves then max 1 (total - 1) else last }

theorem volume_congr {h t t' : ℕ → UInt8} (ht : ∀ k, 24 ≤ k → k < 40 → t k = t' k) :
    volume h t = volume h t' := by
  have hfirst : CaribeOS.be32 t 24 = CaribeOS.be32 t' 24 :=
    be32_congr fun k hle hlt ↦ ht k (by omega) (by omega)
  have hlast : CaribeOS.be32 t 28 = CaribeOS.be32 t' 28 :=
    be32_congr fun k hle hlt ↦ ht k (by omega) (by omega)
  have hsize : CaribeOS.be16 t 32 = CaribeOS.be16 t' 32 :=
    be16_congr fun k hle hlt ↦ ht k (by omega) (by omega)
  have htotal : CaribeOS.be32 t 36 = CaribeOS.be32 t' 36 :=
    be32_congr fun k hle hlt ↦ ht k (by omega) (by omega)
  rw [volume, volume, hfirst, hlast, hsize, htotal]

/-- The volume header. -/
def header (img : Buf) (k : ℕ) : UInt8 := img.byte (1024 + k)

/-- The signature is one of the two that `mount` accepts. -/
def SignatureOk (h : ℕ → UInt8) : Prop :=
  (CaribeOS.be16 h 0).toNat = 0x482b ∨ (CaribeOS.be16 h 0).toNat = 0x4858
  deriving Decidable

section Mount

variable {img : Buf}

/-- `mount` behind the signature: what is left is to read the first node. -/
theorem mount_of_signature (hsize : 1536 ≤ img.size) (hsig : SignatureOk (header img)) :
    mount img = (do
      let node0 ← readFork (CaribeOS.be32 (header img) 40).toNat (forkAt (header img) 272) img 0 4096
      let firstLeaf ← be32 node0 (14 + 10)
      let lastLeaf ← be32 node0 (14 + 14)
      let nodeSize ← be16 node0 (14 + 18)
      let totalNodes ← be32 node0 (14 + 22)
      let nodeSize := if nodeSize = 0 then 4096 else nodeSize
      let noLeaves : Bool := firstLeaf = 0 ∨ lastLeaf = 0 ∨ lastLeaf < firstLeaf
      pure ({
        blockSize := (CaribeOS.be32 (header img) 40).toNat
        totalBlocks := (CaribeOS.be32 (header img) 44).toNat
        freeBlocks := (CaribeOS.be32 (header img) 48).toNat
        allocation := forkAt (header img) 112
        catalog := forkAt (header img) 272
        nodeSize, totalNodes
        firstLeaf := if noLeaves then 1 else firstLeaf
        lastLeaf := if noLeaves then max 1 (totalNodes - 1) else lastLeaf } : HFSPlusImage)) := by
  have hvh : (img.slice 1024 512).size = 512 := Buf.size_slice _ (by omega)
  have hgo : ¬((CaribeOS.be16 (img.slice 1024 512).byte 0).toNat ≠ 0x482b ∧
      (CaribeOS.be16 (img.slice 1024 512).byte 0).toNat ≠ 0x4858) := by
    rw [not_and_or, not_not, not_not]
    exact hsig
  rw [mount]
  rw [be16_of_le (show (0 : ℤ) = (0 : ℕ) from rfl) (by omega), ok_bind, if_neg hgo,
    be32_of_le (show (40 : ℤ) = (40 : ℕ) from rfl) (by omega), ok_bind,
    be32_of_le (show (44 : ℤ) = (44 : ℕ) from rfl) (by omega), ok_bind,
    be32_of_le (show (48 : ℤ) = (48 : ℕ) from rfl) (by omega), ok_bind,
    forkFrom_eq (show (112 : ℤ) = (112 : ℕ) from rfl) (by omega), ok_bind,
    forkFrom_eq (show (272 : ℤ) = (272 : ℕ) from rfl) (by omega), ok_bind]
  rfl

/-- **What `mount` finds**, if the catalog is inside the image. -/
theorem mount_eq (hsize : 1536 ≤ img.size) (hsig : SignatureOk (header img))
    (hbs : 0 < (CaribeOS.be32 (header img) 40).toNat)
    (hcov : 4096 ≤ (blocks (forkAt (header img) 272).extents).length *
      (CaribeOS.be32 (header img) 40).toNat)
    (hin : ∀ a, a / (CaribeOS.be32 (header img) 40).toNat ∈
      blocks (forkAt (header img) 272).extents → a < img.size) :
    mount img = .ok (volume (header img) (bytesOf (CaribeOS.be32 (header img) 40).toNat
      (blocks (forkAt (header img) 272).extents) img)) := by
  obtain ⟨node0, hread, hlen, hbyte⟩ := readFork_eq hbs
    (forkAt (header img) 272) img 0 4096 fun k hk ↦ by
      obtain ⟨a, ha⟩ := exists_byteAt hbs ((by omega : 0 + k < 4096).trans_le hcov)
      exact ⟨a, hin a (div_mem_of_byteAt hbs ha), ha⟩
  simp only [Nat.zero_add] at hbyte
  rw [mount_of_signature hsize hsig, hread, ok_bind,
    be32_of_le (show (14 + 10 : ℤ) = (24 : ℕ) from rfl) (by omega), ok_bind,
    be32_of_le (show (14 + 14 : ℤ) = (28 : ℕ) from rfl) (by omega), ok_bind,
    be16_of_le (show (14 + 18 : ℤ) = (32 : ℕ) from rfl) (by omega), ok_bind,
    be32_of_le (show (14 + 22 : ℤ) = (36 : ℕ) from rfl) (by omega), ok_bind,
    ← volume_congr fun k _ hlt ↦ hbyte k (by omega)]
  rfl

theorem of_mount_eq_ok {hfs : HFSPlusImage} (hsize : 1536 ≤ img.size) (h : mount img = .ok hfs) :
    SignatureOk (header img) ∧ 0 < (CaribeOS.be32 (header img) 40).toNat ∧
      4096 ≤ (blocks (forkAt (header img) 272).extents).length *
        (CaribeOS.be32 (header img) 40).toNat ∧ ∃ t, hfs = volume (header img) t := by
  have hvh : (img.slice 1024 512).size = 512 := Buf.size_slice _ (by omega)
  have hsig : SignatureOk (header img) := by
    rw [mount] at h
    rw [be16_of_le (show (0 : ℤ) = (0 : ℕ) from rfl) (by omega), ok_bind] at h
    by_contra hbad
    rw [SignatureOk, not_or] at hbad
    rw [if_pos (by exact hbad)] at h
    cases h
  rw [mount_of_signature hsize hsig] at h
  obtain ⟨node0, hread, h⟩ := bind_eq_ok.mp h
  obtain ⟨first, hfirst, h⟩ := bind_eq_ok.mp h
  obtain ⟨last, hlast, h⟩ := bind_eq_ok.mp h
  obtain ⟨nodeSize, hnode, h⟩ := bind_eq_ok.mp h
  obtain ⟨total, htotal, h⟩ := bind_eq_ok.mp h
  obtain ⟨hbs, hlt⟩ := covered_of_readForkLoop le_rfl hread 4095 (by decide)
  have hcov := (Nat.div_lt_iff_lt_mul hbs).mp hlt
  refine ⟨hsig, hbs, by omega, node0.byte, (Except.ok.inj h).symm.trans ?_⟩
  obtain ⟨rfl, -⟩ := of_be32_eq_ok (show (14 + 10 : ℤ) = (24 : ℕ) from rfl) hfirst
  obtain ⟨rfl, -⟩ := of_be32_eq_ok (show (14 + 14 : ℤ) = (28 : ℕ) from rfl) hlast
  obtain ⟨rfl, -⟩ := of_be16_eq_ok (show (14 + 18 : ℤ) = (32 : ℕ) from rfl) hnode
  obtain ⟨rfl, -⟩ := of_be32_eq_ok (show (14 + 22 : ℤ) = (36 : ℕ) from rfl) htotal
  rfl

end Mount

/-! ## Contents -/

/-- New bytes up to `len`, the old ones behind. -/
def overlay (len : ℕ) (new old : ℕ → UInt8) (k : ℕ) : UInt8 := if k < len then new k else old k

variable {len : ℕ} {S : ℕ → Prop} {ws : List Write}

variable {k : ℕ} {new old bytes : ℕ → UInt8}

theorem overlay_of_lt (h : k < len) : overlay len new old k = new k := if_pos h

theorem overlay_of_le (h : len ≤ k) : overlay len new old k = old k := if_neg (Nat.not_lt.mpr h)

/-- What the scripts keep on an image: the volume header, the fields at the beginning of the catalog,
the bitmap and the nodes of the catalog. What is behind the end of one of them is zero. -/
structure Contents where
  header : ℕ → UInt8
  tree : ℕ → UInt8
  bitmap : ℕ → UInt8
  node : ℕ → ℕ → UInt8

section Contents

variable (hfs : HFSPlusImage)

def bitmapBlocks : List ℕ := blocks hfs.allocation.extents

def catalogBlocks : List ℕ := blocks hfs.catalog.extents

/-- The contents of an image. -/
def contents (img : Buf) : Contents where
  header := overlay 512 (header img) 0
  tree := overlay 40 (bytesOf hfs.blockSize (catalogBlocks hfs) img) 0
  bitmap := overlay hfs.allocation.size (bytesOf hfs.blockSize (bitmapBlocks hfs) img) 0
  node n := if n < hfs.totalNodes then
      overlay hfs.nodeSize
        (fun k ↦ bytesOf hfs.blockSize (catalogBlocks hfs) img (n * hfs.nodeSize + k)) 0
    else 0

/-- A block that the volume header reaches into. -/
def HeaderBlock (bs b : ℕ) : Prop := b * bs < 1536 ∧ 1024 < (b + 1) * bs
  deriving Decidable

theorem headerBlock_div {bs x : ℕ} (hbs : 0 < bs) (hle : 1024 ≤ x) (hlt : x < 1536) :
    HeaderBlock bs (x / bs) := by
  have hdiv := Nat.div_mul_le_self x bs
  have hnext : x < (x / bs + 1) * bs := Nat.lt_mul_of_div_lt (Nat.lt_succ_self (x / bs)) hbs
  exact ⟨by omega, by omega⟩

/-- The volume header, the bitmap and the catalog of a volume have their own places in an image of
`size` bytes. -/
structure Geometry (size : ℕ) : Prop where
  blockSize_pos : 0 < hfs.blockSize
  header : 1536 ≤ size
  inside : hfs.totalBlocks * hfs.blockSize ≤ size
  bitmap_nodup : (bitmapBlocks hfs).Nodup
  bitmap_lt : ∀ b ∈ bitmapBlocks hfs, b < hfs.totalBlocks
  bitmap_header : ∀ b ∈ bitmapBlocks hfs, ¬HeaderBlock hfs.blockSize b
  bitmap_catalog : ∀ b ∈ bitmapBlocks hfs, b ∉ catalogBlocks hfs
  bitmap_covers : hfs.allocation.size ≤ (bitmapBlocks hfs).length * hfs.blockSize
  catalog_nodup : (catalogBlocks hfs).Nodup
  catalog_lt : ∀ b ∈ catalogBlocks hfs, b < hfs.totalBlocks
  catalog_header : ∀ b ∈ catalogBlocks hfs, ¬HeaderBlock hfs.blockSize b
  catalog_covers : hfs.totalNodes * hfs.nodeSize ≤ (catalogBlocks hfs).length * hfs.blockSize

end Contents

/-- The bytes of a set of blocks. -/
def blockRegion (bs : ℕ) (S : ℕ → Prop) : Set ℕ := {x | S (x / bs)}

namespace Geometry

variable {hfs : HFSPlusImage} {img : Buf} (g : Geometry hfs img.size)
include g

theorem lt_size {a : ℕ} (h : a / hfs.blockSize < hfs.totalBlocks) : a < img.size :=
  ((Nat.div_lt_iff_lt_mul g.blockSize_pos).mp h).trans_le g.inside

theorem size_writes (hS : ∀ b, S b → b < hfs.totalBlocks)
    (h : Touches (blockRegion hfs.blockSize S) ws) : (img.writes ws).size = img.size :=
  Buf.size_writes (h.mono fun _ hx ↦ g.lt_size (hS _ hx))

theorem header_writes (hS : ∀ b, S b → ¬HeaderBlock hfs.blockSize b)
    (h : Touches (blockRegion hfs.blockSize S) ws) :
    overlay 512 (HfsScript.header (img.writes ws)) 0 = overlay 512 (HfsScript.header img) 0 := by
  have hsize := g.header
  funext k
  rw [overlay, overlay]
  split_ifs with hk
  · refine Buf.byte_writes_of_touches (by omega) h fun hx ↦ ?_
    exact hS _ hx (headerBlock_div g.blockSize_pos (by omega) (by omega))
  · rfl

theorem bytesOf_writes {bl : List ℕ} (hlt : ∀ b ∈ bl, b < hfs.totalBlocks) (hS : ∀ b ∈ bl, ¬S b)
    (h : Touches (blockRegion hfs.blockSize S) ws) :
    bytesOf hfs.blockSize bl (img.writes ws) = bytesOf hfs.blockSize bl img :=
  funext fun y ↦ bytesOf_writes_of_touches h g.blockSize_pos
    (fun _ ha ↦ ⟨g.lt_size (hlt _ ha), fun hx ↦ hS _ ha hx⟩) y

/-- **A write to other blocks** does not change the contents. -/
theorem contents_other (h : Touches (blockRegion hfs.blockSize S) ws)
    (hheader : ∀ b, S b → ¬HeaderBlock hfs.blockSize b) (hbitmap : ∀ b ∈ bitmapBlocks hfs, ¬S b)
    (hcatalog : ∀ b ∈ catalogBlocks hfs, ¬S b) :
    contents hfs (img.writes ws) = contents hfs img := by
  rw [contents, contents, g.header_writes hheader h, g.bytesOf_writes g.bitmap_lt hbitmap h,
    g.bytesOf_writes g.catalog_lt hcatalog h]

theorem touches_header {data : Buf} (hsize : data.size = 512) :
    Touches (blockRegion hfs.blockSize (HeaderBlock hfs.blockSize)) [⟨1024, data⟩] := by
  intro w hw x hx
  rw [List.mem_singleton] at hw
  obtain ⟨hle, hlt⟩ := hx
  rw [hw] at hle hlt
  dsimp only at hle hlt
  exact headerBlock_div g.blockSize_pos hle (by omega)

/-- **Writing the volume header.** -/
theorem contents_header {vh : Buf} (hsize : vh.size = 512) :
    contents hfs (img.writes [⟨1024, vh⟩])
      = { contents hfs img with header := overlay 512 vh.byte (contents hfs img).header } := by
  have htouch := g.touches_header hsize
  have hhead : overlay 512 (HfsScript.header (img.writes [⟨1024, vh⟩])) 0
      = overlay 512 vh.byte (overlay 512 (HfsScript.header img) 0) := by
    funext k
    by_cases hk : k < 512
    · rw [overlay_of_lt hk, overlay_of_lt hk]
      have hcov : (⟨1024, vh⟩ : Write).Covers (1024 + k) :=
        ⟨Nat.le_add_right _ _, by dsimp only; omega⟩
      refine (Buf.byte_writes_eq (fun w hw _ ↦ ?_) ⟨_, List.mem_singleton_self _, hcov⟩)
      rw [List.mem_singleton.mp hw, Write.value, Nat.add_sub_cancel_left]
    · rw [overlay, overlay, overlay, if_neg hk, if_neg hk, if_neg hk]
  rw [contents, hhead,
    g.bytesOf_writes g.bitmap_lt g.bitmap_header htouch,
    g.bytesOf_writes g.catalog_lt g.catalog_header htouch]
  rfl

/-- **Writing the bitmap**, or a first part of it. -/
theorem contents_bitmap (h : Puts hfs.blockSize (bitmapBlocks hfs) 0 bytes len ws)
    (hlen : len ≤ hfs.allocation.size) :
    contents hfs (img.writes ws)
      = { contents hfs img with bitmap := overlay len bytes (contents hfs img).bitmap } := by
  have htouch : Touches (blockRegion hfs.blockSize (· ∈ bitmapBlocks hfs)) ws :=
    h.touches g.blockSize_pos
  have hbits : overlay hfs.allocation.size
        (bytesOf hfs.blockSize (bitmapBlocks hfs) (img.writes ws)) 0
      = overlay len bytes
        (overlay hfs.allocation.size (bytesOf hfs.blockSize (bitmapBlocks hfs) img) 0) := by
    funext k
    by_cases hk : k < hfs.allocation.size
    · rw [overlay_of_lt hk, h.bytesOf_eq g.blockSize_pos g.bitmap_nodup
        (fun a ha ↦ g.lt_size (g.bitmap_lt _ ha)) k (hk.trans_le g.bitmap_covers), overlay,
        overlay_of_lt hk, Nat.sub_zero]
      simp only [Nat.zero_le, true_and, Nat.zero_add]
    · rw [overlay_of_le (by omega), overlay_of_le (by omega), overlay_of_le (by omega)]
  rw [contents, g.header_writes g.bitmap_header htouch, hbits,
    g.bytesOf_writes g.catalog_lt (fun b hb hb' ↦ g.bitmap_catalog b hb' hb) htouch]
  rfl

/-- **Writing a node of the catalog**, or a first part of it. -/
theorem contents_node {n : ℕ}
    (h : Puts hfs.blockSize (catalogBlocks hfs) (n * hfs.nodeSize) bytes len ws)
    (hn : n < hfs.totalNodes) (hlen : len ≤ hfs.nodeSize) (htree : 40 ≤ n * hfs.nodeSize) :
    contents hfs (img.writes ws)
      = { contents hfs img with
          node := Function.update (contents hfs img).node n
            (overlay len bytes ((contents hfs img).node n)) } := by
  have htouch : Touches (blockRegion hfs.blockSize (· ∈ catalogBlocks hfs)) ws :=
    h.touches g.blockSize_pos
  have hbytes : ∀ y, y < hfs.totalNodes * hfs.nodeSize →
      bytesOf hfs.blockSize (catalogBlocks hfs) (img.writes ws) y
        = if n * hfs.nodeSize ≤ y ∧ y < n * hfs.nodeSize + len then bytes (y - n * hfs.nodeSize)
          else bytesOf hfs.blockSize (catalogBlocks hfs) img y :=
    fun y hy ↦ h.bytesOf_eq g.blockSize_pos g.catalog_nodup
      (fun a ha ↦ g.lt_size (g.catalog_lt _ ha)) y (hy.trans_le g.catalog_covers)
  have hend : ∀ m k, m < hfs.totalNodes → k < hfs.nodeSize →
      m * hfs.nodeSize + k < hfs.totalNodes * hfs.nodeSize := by
    intro m k hm hk
    have := Nat.mul_le_mul_right hfs.nodeSize (Nat.succ_le_of_lt hm)
    rw [Nat.succ_mul] at this
    omega
  have hnodes : (contents hfs (img.writes ws)).node
      = Function.update (contents hfs img).node n
          (overlay len bytes ((contents hfs img).node n)) := by
    funext m k
    by_cases hm : m < hfs.totalNodes
    · by_cases hk : k < hfs.nodeSize
      · have hlhs : (contents hfs (img.writes ws)).node m k
            = bytesOf hfs.blockSize (catalogBlocks hfs) (img.writes ws) (m * hfs.nodeSize + k) := by
          rw [contents]
          dsimp only
          rw [if_pos hm, overlay_of_lt hk]
        have hrhs : (contents hfs img).node m k
            = bytesOf hfs.blockSize (catalogBlocks hfs) img (m * hfs.nodeSize + k) := by
          rw [contents]
          dsimp only
          rw [if_pos hm, overlay_of_lt hk]
        rw [hlhs, hbytes _ (hend m k hm hk)]
        by_cases hmn : m = n
        · subst hmn
          rw [Function.update_self, overlay, hrhs, Nat.add_sub_cancel_left]
          simp only [Nat.le_add_right, true_and, Nat.add_lt_add_iff_left]
        · rw [Function.update_of_ne hmn, hrhs, if_neg]
          rintro ⟨hle, hlt⟩
          rcases Nat.lt_or_gt_of_ne hmn with hlt' | hgt
          · have := Nat.mul_le_mul_right hfs.nodeSize (Nat.succ_le_of_lt hlt')
            rw [Nat.succ_mul] at this
            omega
          · have := Nat.mul_le_mul_right hfs.nodeSize (Nat.succ_le_of_lt hgt)
            rw [Nat.succ_mul] at this
            omega
      · have hzero : ∀ f : Buf, (contents hfs f).node m k = 0 := by
          intro f
          rw [contents]
          dsimp only
          rw [if_pos hm, overlay_of_le (by omega)]
          rfl
        rw [hzero]
        by_cases hmn : m = n
        · subst hmn
          rw [Function.update_self, overlay_of_le (by omega), hzero]
        · rw [Function.update_of_ne hmn, hzero]
    · have hmn : m ≠ n := fun heq ↦ hm (heq ▸ hn)
      rw [Function.update_of_ne hmn, contents, contents]
      dsimp only
      rw [if_neg hm, if_neg hm]
  have htop : overlay 40 (bytesOf hfs.blockSize (catalogBlocks hfs) (img.writes ws)) 0
      = overlay 40 (bytesOf hfs.blockSize (catalogBlocks hfs) img) 0 := by
    have hsize : 40 ≤ hfs.totalNodes * hfs.nodeSize := htree.trans (Nat.mul_le_mul_right _ hn.le)
    funext k
    rw [overlay, overlay]
    split_ifs with hk
    · rw [hbytes k (by omega), if_neg (by omega)]
    · rfl
  rw [← hnodes, contents, g.header_writes g.catalog_header htouch, htop,
    g.bytesOf_writes g.bitmap_lt g.bitmap_catalog htouch]
  rfl

end Geometry

end CaribeOS.HfsScript
