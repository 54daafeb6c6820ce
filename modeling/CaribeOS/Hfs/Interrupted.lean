import CaribeOS.Hfs.Calls

/-!
# A replacement that is interrupted

The writes of `replace_file` are not one step: the script can be stopped after any of them. The
question is whether each block of a file is marked then (`InterruptedSafe`); a block that is not would
be given to another file.

If the file is moved, the bitmap is written before the record. Between the two, the record still has
its old blocks, which are not marked any more. So a file that has blocks is not moved safely
(`interrupted_replace_iff`). A file without blocks is, even if the node is written in parts and its
extents are cut somewhere (`tornExtents`).
-/

namespace CaribeOS.HfsScript

open FileScript Extents

/-! ## Extents that are written in part -/

/-- A word of which the first `t` bytes are new. -/
def mix (t new old : ℕ) : ℕ := new / 256 ^ (4 - t) * 256 ^ (4 - t) + old % 256 ^ (4 - t)

/-- Extents of which the first `t` bytes are new. -/
def tornExtents : ℕ → List (ℕ × ℕ) → List (ℕ × ℕ) → List (ℕ × ℕ)
  | t, e' :: es', e :: es => (mix t e'.1 e.1, mix (t - 4) e'.2 e.2) :: tornExtents (t - 8) es' es
  | _, _, _ => []

section Torn

variable {b b' : ℕ → UInt8} {len o : ℕ}

theorem toNat_be32_overlay : (CaribeOS.be32 (overlay len b' b) o).toNat
    = mix (len - o) (CaribeOS.be32 b' o).toNat (CaribeOS.be32 b o).toNat := by
  rw [toNat_be32, toNat_be32, toNat_be32, mix]
  have hlt : ∀ (f : ℕ → UInt8) k, (f k).toNat < 256 := fun f k ↦ UInt8.toNat_lt _
  have h0 := hlt b' o
  have h1 := hlt b' (o + 1)
  have h2 := hlt b' (o + 2)
  have h3 := hlt b' (o + 3)
  have g0 := hlt b o
  have g1 := hlt b (o + 1)
  have g2 := hlt b (o + 2)
  have g3 := hlt b (o + 3)
  have hcases : len ≤ o ∨ len = o + 1 ∨ len = o + 2 ∨ len = o + 3 ∨ o + 4 ≤ len := by omega
  rcases hcases with hle | rfl | rfl | rfl | hge
  · rw [Nat.sub_eq_zero_of_le hle, overlay_of_le hle, overlay_of_le (by omega),
      overlay_of_le (by omega), overlay_of_le (by omega)]
    omega
  · rw [Nat.add_sub_cancel_left, overlay_of_lt (by omega), overlay_of_le (by omega),
      overlay_of_le (by omega), overlay_of_le (by omega)]
    omega
  · rw [Nat.add_sub_cancel_left, overlay_of_lt (by omega), overlay_of_lt (by omega),
      overlay_of_le (by omega), overlay_of_le (by omega)]
    omega
  · rw [Nat.add_sub_cancel_left, overlay_of_lt (by omega), overlay_of_lt (by omega),
      overlay_of_lt (by omega), overlay_of_le (by omega)]
    omega
  · rw [overlay_of_lt (by omega), overlay_of_lt (by omega), overlay_of_lt (by omega),
      overlay_of_lt (by omega), show 4 - (len - o) = 0 by omega]
    omega

theorem extentAt_overlay (i : ℕ) : extentAt (overlay len b' b) o i
    = (mix (len - (o + i * 8)) (extentAt b' o i).1 (extentAt b o i).1,
      mix (len - (o + i * 8) - 4) (extentAt b' o i).2 (extentAt b o i).2) := by
  rw [extentAt, toNat_be32_overlay, toNat_be32_overlay, extentAt, extentAt,
    show len - (o + 4 + i * 8) = len - (o + i * 8) - 4 by omega]

/-- **The extents of a node that is written in part.** -/
theorem extentsAt_overlay : extentsAt (overlay len b' b) o
    = tornExtents (len - o) (extentsAt b' o) (extentsAt b o) := by
  have key : ∀ n i, (List.range' i n).map (extentAt (overlay len b' b) o)
      = tornExtents (len - (o + i * 8)) ((List.range' i n).map (extentAt b' o))
        ((List.range' i n).map (extentAt b o)) := by
    intro n
    induction n with
    | zero => exact fun i ↦ rfl
    | succ n ih =>
      intro i
      rw [List.range'_succ, List.map_cons, List.map_cons, List.map_cons, tornExtents, ih,
        extentAt_overlay, show len - (o + i * 8) - 8 = len - (o + (i + 1) * 8) by omega]
  have hall := key 8 0
  rwa [Nat.zero_mul, Nat.add_zero, ← List.range_eq_range'] at hall

theorem tornExtents_self (t : ℕ) (es : List (ℕ × ℕ)) : tornExtents t es es = es := by
  have hmix : ∀ t v, mix t v v = v := fun t v ↦ Nat.div_add_mod' v _
  induction es generalizing t with
  | nil => rfl
  | cons e es ih => rw [tornExtents, hmix, hmix, ih]

/-- An extent of an empty file that is written in part: it names a part of the new run. -/
theorem mem_blocks_tornExtents {t start needed x : ℕ} {old : List (ℕ × ℕ)} {n : ℕ}
    (hneeded : needed < 4294967296) (hold : ∀ e ∈ old, e.2 = 0)
    (hx : x ∈ blocks (tornExtents t ((start, needed) :: List.replicate n (0, 0)) old)) :
    x ∈ List.range' start needed := by
  have hzero : ∀ (n t : ℕ) (old : List (ℕ × ℕ)), (∀ e ∈ old, e.2 = 0) →
      blocks (tornExtents t (List.replicate n (0, 0)) old) = [] := by
    intro n
    induction n with
    | zero => exact fun t old _ ↦ rfl
    | succ n ih =>
      intro t old hold
      cases old with
      | nil => rfl
      | cons e old =>
        rw [List.forall_mem_cons] at hold
        rw [List.replicate_succ, tornExtents, blocks_cons, ih _ _ hold.2, hold.1, mix, mix]
        simp only [Nat.zero_div, Nat.zero_mul, Nat.zero_mod, Nat.add_zero, List.range'_zero,
          List.append_nil]
  cases old with
  | nil => exact absurd hx List.not_mem_nil
  | cons e old =>
    rw [List.forall_mem_cons] at hold
    rw [tornExtents, blocks_cons, hzero _ _ _ hold.2, List.append_nil, hold.1, List.mem_range'_1] at hx
    obtain ⟨hle, hlt⟩ := hx
    dsimp only at hle hlt
    have hcount : mix (t - 4) needed 0 ≤ needed := by
      exact Nat.div_mul_le_self _ _
    rcases Nat.lt_or_ge t 4 with hstart | hstart
    · -- the count is old still
      have : mix (t - 4) needed 0 = 0 := by
        rw [Nat.sub_eq_zero_of_le hstart.le, mix, Nat.zero_mod, Nat.add_zero,
          Nat.div_eq_of_lt (by norm_num; exact hneeded), Nat.zero_mul]
      omega
    · have hfirst : mix t start e.1 = start := by
        rw [mix, Nat.sub_eq_zero_of_le hstart, Nat.pow_zero, Nat.div_one, Nat.mul_one, Nat.mod_one,
          Nat.add_zero]
      rw [List.mem_range'_1]
      omega

end Torn

/-! ## Blocks in use -/

/-- Each block of a file is marked. -/
def Contents.LiveMarked (hfs : HFSPlusImage) (c : Contents) : Prop :=
  ∀ pos, c.IsFile hfs pos → (∀ b ∈ c.blocksOf hfs (.data pos), c.Marked b) ∧
    ∀ b ∈ c.blocksOf hfs (.resource pos), c.Marked b

/-- The image can be mounted, and each block of a file is marked. -/
def LiveBlocksMarked (img : Buf) : Prop :=
  ∃ hfs, mount img = .ok hfs ∧ (contents hfs img).LiveMarked hfs

/-- **The replacement can be stopped** after any of its writes: each block of a file is marked. -/
def InterruptedSafe (path : List Char) (payload : Buf) (allowGrow : Bool) (img : Buf) : Prop :=
  ∀ j, LiveBlocksMarked (img.writes ((updateImage path payload allowGrow img).2.take j))

variable {pos : ℕ × ℕ} {found : CatalogRec}

section Live

variable {img img' : Buf} {hfs : HFSPlusImage} (s : Sound img hfs)
include s

theorem Sound.liveBlocksMarked_iff (hsize : img'.size = img.size)
    (hheader : HeaderKept (contents hfs img).header (contents hfs img').header)
    (htree : (contents hfs img').tree = (contents hfs img).tree) :
    LiveBlocksMarked img' ↔ (contents hfs img').LiveMarked hfs := by
  have hmount := s.mount_of_contents hsize hheader htree
  constructor
  · rintro ⟨hfs', hmounted, hlive⟩ pos hfile
    obtain rfl := Except.ok.inj (hmount.symm.trans hmounted)
    exact hlive pos ⟨hfile.node_lt, hfile.leaf, hfile.index_lt, hfile.file⟩
  · intro hlive
    refine ⟨_, hmount, fun pos hfile ↦ ?_⟩
    exact hlive pos ⟨hfile.node_lt, hfile.leaf, hfile.index_lt, hfile.file⟩

/-- The marks of the other forks are kept: what counts is the fork that is written. -/
theorem Sound.liveMarked_iff {c' : Contents} {b' : ℕ → UInt8}
    (hfile : (contents hfs img).IsFile hfs pos)
    (hagree : ∀ k, k < (contents hfs img).dataOffset hfs pos + 88 ∨
      (contents hfs img).dataOffset hfs pos + 168 ≤ k → b' k = (contents hfs img).node pos.1 k)
    (hnode : c'.node = Function.update (contents hfs img).node pos.1 b')
    (hmarks : ∀ b, (contents hfs img).Marked b →
      b ∉ (contents hfs img).blocksOf hfs (.data pos) → c'.Marked b) :
    c'.LiveMarked hfs ↔
      ∀ b ∈ blocks (extentsAt b' ((contents hfs img).dataOffset hfs pos + 88 + 16)), c'.Marked b := by
  have h : RecordWritten hfs (contents hfs img) c' pos b'
      (CaribeOS.be64 b' ((contents hfs img).dataOffset hfs pos + 88)).toNat
      (extentsAt b' ((contents hfs img).dataOffset hfs pos + 88 + 16)) :=
    ⟨⟨hagree, rfl, by rw [extentsAt, List.length_map, List.length_range, Nat.sub_self,
      List.replicate_zero, List.append_nil]⟩, hnode, s.leaf, hfile⟩
  have hother : ∀ i, (contents hfs img).HasFork hfs i → i ≠ .data pos →
      ∀ b ∈ (contents hfs img).blocksOf hfs i, c'.Marked b := by
    intro i hi hne b hb
    exact hmarks b (s.owned.marked i hi b hb) (s.owned.disjoint i (.data pos) hi hfile hne b hb)
  constructor
  · intro hlive
    rw [← h.blocksOf_data]
    exact (hlive pos (h.isFile_iff.mpr hfile)).1
  · intro hdata p hp
    have hp₀ := h.isFile_iff.mp hp
    constructor
    · by_cases hpos : p = pos
      · rw [hpos, h.blocksOf_data]
        exact hdata
      · rw [h.blocksOf_data_of_ne hp₀ hpos]
        exact hother (.data p) hp₀ fun heq ↦ hpos (ForkId.data.inj heq)
    · rw [h.blocksOf_resource hp₀]
      exact hother (.resource p) hp₀ fun heq ↦ ForkId.noConfusion heq

end Live

/-! ## The two kinds of runs -/

/-- What becomes of the extents of a record in place: each part of its node that ends with a block of
the catalog may be all that is written. The extents are written without those that have no blocks. -/
def TornMarked (hfs : HFSPlusImage) (c : Contents) (pos : ℕ × ℕ) : Prop :=
  ∀ j, ∀ b ∈ blocks (tornExtents
    (writtenAfter hfs.blockSize (pos.1 * hfs.nodeSize) hfs.nodeSize j
      - (c.dataOffset hfs pos + 88 + 16))
    ((c.forkOf hfs pos).extents ++ List.replicate (8 - (c.forkOf hfs pos).extents.length) (0, 0))
    (extentsAt (c.node pos.1) (c.dataOffset hfs pos + 88 + 16))), c.Marked b

section Runs

variable {img payload : Buf} {hfs : HFSPlusImage} (s : Sound img hfs) {pos : ℕ × ℕ}
  {dws nws bws : List Write} {b' bm : ℕ → UInt8} {vh : Buf} {start needed free : ℕ}
include s

/-- A record whose extents are packed, the unused ones being zero and behind the others, is written
with the extents it has. -/
theorem Sound.tornMarked_of_packed (hfile : (contents hfs img).IsFile hfs pos)
    (hpacked : ((contents hfs img).forkOf hfs pos).extents ++
        List.replicate (8 - ((contents hfs img).forkOf hfs pos).extents.length) (0, 0)
      = extentsAt ((contents hfs img).node pos.1) ((contents hfs img).dataOffset hfs pos + 88 + 16)) :
    TornMarked hfs (contents hfs img) pos := by
  intro j
  rw [hpacked, tornExtents_self]
  exact s.owned.marked (.data pos) hfile

/-- **Stopped in place.** -/
theorem Sound.inPlace_safe_iff (hvisited : (contents hfs img).Visited hfs pos)
    (hfile : (contents hfs img).IsFile hfs pos)
    (h : Stores hfs (contents hfs img) payload pos ((contents hfs img).forkOf hfs pos).extents dws
      nws b') :
    (∀ j, LiveBlocksMarked (img.writes ((dws ++ nws).take j))) ↔
      TornMarked hfs (contents hfs img) pos := by
  have havoids : Avoids hfs (· ∈ blocks ((contents hfs img).forkOf hfs pos).extents) := by
    rw [Contents.blocks_forkOf]
    exact s.avoids_data hfile
  have key : ∀ j, LiveBlocksMarked (img.writes ((dws ++ nws).take j)) ↔
      ∀ b ∈ blocks (tornExtents
        (writtenAfter hfs.blockSize (pos.1 * hfs.nodeSize) hfs.nodeSize (j - dws.length)
          - ((contents hfs img).dataOffset hfs pos + 88 + 16))
        (((contents hfs img).forkOf hfs pos).extents ++
          List.replicate (8 - ((contents hfs img).forkOf hfs pos).extents.length) (0, 0))
        (extentsAt ((contents hfs img).node pos.1)
          ((contents hfs img).dataOffset hfs pos + 88 + 16))), (contents hfs img).Marked b := by
    intro j
    obtain ⟨hsize, hcontents⟩ :=
      h.contents_take s.geometry havoids hfile.node_lt (s.tree_le hvisited hfile) j
    have hmarked : ∀ b, (contents hfs (img.writes ((dws ++ nws).take j))).Marked b ↔
        (contents hfs img).Marked b := fun b ↦ by rw [Contents.Marked, hcontents, Contents.Marked]
    rw [s.liveBlocksMarked_iff hsize (fun k _ _ _ _ ↦ by rw [hcontents]) (by rw [hcontents]),
      s.liveMarked_iff hfile (h.written.overlay_agree _) (by rw [hcontents])
        fun b hb _ ↦ (hmarked b).mpr hb, extentsAt_overlay, h.written.extents]
    simp only [hmarked]
  constructor
  · intro hsafe j
    have := (key (dws.length + j)).mp (hsafe _)
    rwa [Nat.add_sub_cancel_left] at this
  · exact fun htorn j ↦ (key j).mpr (htorn _)

/-- **Stopped while the file is moved.** -/
theorem Sound.moved_safe_iff (hvisited : (contents hfs img).Visited hfs pos)
    (hfile : (contents hfs img).IsFile hfs pos) (hneeded : needed < 4294967296)
    (hreserves : Reserves hfs (contents hfs img) ((contents hfs img).blocksOf hfs (.data pos)) needed
      start bm)
    (hheader : HeaderPut (contents hfs img) vh free)
    (hputs : PutsInOrder hfs.blockSize (bitmapBlocks hfs) 0 bm hfs.allocation.size bws)
    (h : Stores hfs (contents hfs img) payload pos [(start, needed)] dws nws b') :
    (∀ j, LiveBlocksMarked (img.writes ((⟨1024, vh⟩ :: bws ++ (dws ++ nws)).take j))) ↔
      (contents hfs img).blocksOf hfs (.data pos) = [] := by
  have hkept : HeaderKept (contents hfs img).header
      (overlay 512 vh.byte (contents hfs img).header) := by
    intro k hk _ hne _
    rw [overlay_of_lt hk, hheader.kept k hk (by omega)]
  obtain ⟨hset, hkeep⟩ := hreserves.marked (s.owned.marked (.data pos) hfile)
  obtain ⟨hsize, hcontents⟩ := s.contents_reserved hheader hreserves hputs.all
  constructor
  · -- between the bitmap and the record
    intro hsafe
    rw [List.eq_nil_iff_forall_not_mem]
    intro b hb
    have hlive := hsafe (bws.length + 1)
    rw [List.cons_append, List.take_succ_cons, List.take_left,
      s.liveBlocksMarked_iff hsize (by rw [hcontents]; exact hkept) (by rw [hcontents]),
      s.liveMarked_iff hfile (fun k _ ↦ rfl)
        (by rw [hcontents]; exact (Function.update_eq_self _ _).symm)
        (fun b hb hnot ↦ by rw [Contents.Marked, hcontents]; exact hkeep b hb hnot)] at hlive
    have hmarked := hlive b hb
    rw [Contents.Marked, hcontents] at hmarked
    rw [hreserves.bit, if_pos hb] at hmarked
    exact Bool.false_ne_true hmarked
  · intro hempty j
    have hold : blocks (extentsAt ((contents hfs img).node pos.1)
        ((contents hfs img).dataOffset hfs pos + 88 + 16)) = [] := hempty
    cases j with
    | zero =>
      rw [List.take_zero, Buf.writes_nil, s.liveBlocksMarked_iff rfl (fun _ _ _ _ _ ↦ rfl) rfl]
      exact fun p hp ↦ ⟨s.owned.marked (.data p) hp, s.owned.marked (.resource p) hp⟩
    | succ j =>
      rw [List.cons_append, List.take_succ_cons]
      rcases Nat.le_total j bws.length with hle | hge
      · -- a part of the bitmap is new, and no mark is removed
        obtain ⟨hsize', hcontents'⟩ := s.contents_reserving hheader (hputs.take j) (min_le_left _ _)
        rw [List.take_append_of_le_length hle,
          s.liveBlocksMarked_iff hsize' (by rw [hcontents']; exact hkept) (by rw [hcontents']),
          s.liveMarked_iff hfile (fun k _ ↦ rfl)
            (by rw [hcontents']; exact (Function.update_eq_self _ _).symm), hold]
        · exact fun b hb ↦ absurd hb List.not_mem_nil
        · intro b hb hnot
          rw [Contents.Marked, hcontents']
          rcases Nat.lt_or_ge (b / 8) (writtenAfter hfs.blockSize 0 hfs.allocation.size j) with
            hnew | hkeep'
          · rw [getBit_congr (overlay_of_lt hnew)]
            exact hkeep b hb hnot
          · rw [getBit_congr (overlay_of_le hkeep')]
            exact hb
      · -- the bitmap is written, and a part of the node is
        have g₁ : Geometry hfs (img.writes (⟨1024, vh⟩ :: bws)).size := hsize.symm ▸ s.geometry
        have hblocks : blocks [(start, needed)] = List.range' start needed := List.append_nil _
        obtain ⟨hsize', hcontents'⟩ := h.contents_take g₁
          (by rw [hblocks]; exact s.avoids_free hreserves.free) hfile.node_lt
          (s.tree_le hvisited hfile) (j - bws.length)
        rw [hcontents] at hcontents'
        rw [List.take_append, List.take_of_length_le hge, ← List.cons_append, Buf.writes_append,
          s.liveBlocksMarked_iff (hsize'.trans hsize) (by rw [hcontents']; exact hkept)
            (by rw [hcontents']),
          s.liveMarked_iff hfile (h.written.overlay_agree _) (by rw [hcontents'])
            (fun b hb hnot ↦ by rw [Contents.Marked, hcontents']; exact hkeep b hb hnot),
          extentsAt_overlay, h.written.extents]
        intro b hb
        have hzero : ∀ e ∈ extentsAt ((contents hfs img).node pos.1)
            ((contents hfs img).dataOffset hfs pos + 88 + 16), e.2 = 0 := by
          intro e he
          have := List.flatMap_eq_nil_iff.mp hold e he
          rwa [List.range'_eq_nil_iff] at this
        rw [Contents.Marked, hcontents']
        exact hset b (mem_blocks_tornExtents hneeded hzero hb)

end Runs

/-! ## Which replacements can be stopped -/

/-- The file at `pos` can be replaced safely: if the payload fits, no extent that is cut names other
blocks than marked ones; and a file that is moved has no blocks. -/
structure ReplaceSafe (hfs : HFSPlusImage) (c : Contents) (pos : ℕ × ℕ) (size : ℕ)
    (allowGrow : Bool) : Prop where
  inPlace : size ≤ (c.forkOf hfs pos).allocatedBlocks * hfs.blockSize → TornMarked hfs c pos
  moved : (c.forkOf hfs pos).allocatedBlocks * hfs.blockSize < size →
    CanGrow hfs c (c.forkOf hfs pos) size allowGrow → c.blocksOf hfs (.data pos) = []

theorem interruptedSafe_of_run {path : List Char} {payload img : Buf} {allowGrow : Bool}
    {r : Except HfsError ℕ} {ws : List Write}
    (h : updateImage path payload allowGrow img = (r, ws)) :
    InterruptedSafe path payload allowGrow img ↔
      ∀ j, LiveBlocksMarked (img.writes (ws.take j)) := by
  rw [InterruptedSafe, h]

section Safe

variable {img payload : Buf} {hfs : HFSPlusImage} (s : Sound img hfs) {path : List Char}
  {allowGrow : Bool}
include s

theorem Sound.interruptedSafe_of_nil {e : HfsError}
    (h : updateImage path payload allowGrow img = (.error e, [])) :
    InterruptedSafe path payload allowGrow img := by
  rw [interruptedSafe_of_run h]
  intro j
  rw [List.take_nil, Buf.writes_nil, s.liveBlocksMarked_iff rfl (fun _ _ _ _ _ ↦ rfl) rfl]
  exact fun p hp ↦ ⟨s.owned.marked (.data p) hp, s.owned.marked (.resource p) hp⟩

theorem Sound.interruptedSafe_iff (hfind : findFile hfs img path = .ok found)
    (hat : (contents hfs img).FoundAt hfs found pos) (hvisited : (contents hfs img).Visited hfs pos)
    (hfile : (contents hfs img).IsFile hfs pos) :
    InterruptedSafe path payload allowGrow img ↔
      ReplaceSafe hfs (contents hfs img) pos payload.size allowGrow := by
  rcases Nat.lt_or_ge (((contents hfs img).forkOf hfs pos).allocatedBlocks * hfs.blockSize)
    payload.size with hgrow | hroom
  · rcases s.updateImage_grow allowGrow hfind hat hfile rfl hgrow with
      ⟨⟨e, herror⟩, hcannot⟩ | ⟨hcan, start, bm, vh, bws, free, dws, nws, b', alloc, hok, hreserves,
        -, hheader, hputs, hstores⟩
    · refine iff_of_true (s.interruptedSafe_of_nil herror) ⟨fun hle ↦ ?_, fun _ hcan ↦ ?_⟩
      · exact absurd hgrow (Nat.not_lt.mpr hle)
      · exact absurd hcan hcannot
    · have hneeded : ceilDiv payload.size hfs.blockSize < 4294967296 := by
        obtain ⟨first, hle, -⟩ := hcan.run
        have htotal := s.totalBlocks_lt
        omega
      rw [← Contents.forkOf, Contents.blocks_forkOf] at hreserves
      rw [interruptedSafe_of_run hok,
        s.moved_safe_iff hvisited hfile hneeded hreserves hheader hputs hstores]
      constructor
      · intro hempty
        exact ⟨fun hle ↦ absurd hgrow (Nat.not_lt.mpr hle), fun _ _ ↦ hempty⟩
      · exact fun hsafe ↦ hsafe.moved hgrow hcan
  · obtain ⟨dws, nws, b', hok, hstores⟩ :=
      s.updateImage_inPlace allowGrow hfind hat hfile rfl hroom
    rw [interruptedSafe_of_run hok, s.inPlace_safe_iff hvisited hfile hstores]
    constructor
    · intro htorn
      exact ⟨fun _ ↦ htorn, fun hgrow _ ↦ absurd hgrow (Nat.not_lt.mpr hroom)⟩
    · exact fun hsafe ↦ hsafe.inPlace hroom

end Safe

/-- **When a replacement can be stopped safely**: if the file is there, a payload that fits must not
lead to an extent that is cut and names blocks without a mark, and a file that is moved must not have
blocks. -/
theorem interrupted_replace_iff {img : Buf} {hfs : HFSPlusImage} (haccounted : Accounted img hfs)
    (path : List Char) (payload : Buf) (allowGrow : Bool) :
    InterruptedSafe path payload allowGrow img ↔
      ∀ found pos, findFile hfs img path = .ok found →
        (contents hfs img).FoundAt hfs found pos → (contents hfs img).Visited hfs pos →
        (contents hfs img).typeOf hfs pos = 2 →
        ReplaceSafe hfs (contents hfs img) pos payload.size allowGrow := by
  have s := haccounted.sound
  constructor
  · intro hsafe found pos hfind hat hvisited htype
    exact (s.interruptedSafe_iff hfind hat hvisited (s.isFile_of_visited hvisited htype)).mp hsafe
  · intro hall
    cases hfind : findFile hfs img path with
    | error e => exact s.interruptedSafe_of_nil (s.updateImage_notFound hfind)
    | ok found =>
      obtain ⟨pos, hat, hvisited, htype, -⟩ := s.findFile_found hfind
      exact (s.interruptedSafe_iff hfind hat hvisited (s.isFile_of_visited hvisited htype)).mpr
        (hall found pos hfind hat hvisited htype)

theorem findFile_b : (findFile threeFilesVolume threeFiles ['/', 'b']).isOk = true := by decide

theorem foundAt_b (hfind : findFile threeFilesVolume threeFiles ['/', 'b'] = .ok found)
    (hat : (contents threeFilesVolume threeFiles).FoundAt threeFilesVolume found pos)
    (hfile : (contents threeFilesVolume threeFiles).IsFile threeFilesVolume pos) :
    pos = (1, 1) := by
  have hoff : (findFile threeFilesVolume threeFiles ['/', 'b']).toOption.map (·.dataOff)
      = some 282 := by decide
  rw [hfind] at hoff
  have hdata := hat.dataOff.symm.trans (Option.some_inj.mp hoff)
  rcases isFile_threeFiles hfile with rfl | rfl | rfl
  · exact absurd hdata (by decide)
  · rfl
  · exact absurd hdata (by decide)

/-- The file `b` is moved: after the header and the bitmap are written, its block is free, and the
record still has it. -/
theorem interrupted_move_frees_block : Accounted threeFiles threeFilesVolume ∧
    ¬InterruptedSafe ['/', 'b'] ⟨5000, fun _ ↦ 66⟩ true threeFiles := by
  refine ⟨accounted_threeFiles, fun hsafe ↦ ?_⟩
  have s := sound_threeFiles
  cases hfind : findFile threeFilesVolume threeFiles ['/', 'b'] with
  | error e =>
    have hok := findFile_b
    rw [hfind] at hok
    cases hok
  | ok found =>
    obtain ⟨pos, hat, hvisited, htype, -⟩ := s.findFile_found hfind
    have hfile := s.isFile_of_visited hvisited htype
    obtain rfl := foundAt_b hfind hat hfile
    have hempty := ((s.interruptedSafe_iff hfind hat hvisited hfile).mp hsafe).moved
      (by decide) ⟨rfl, ⟨2, by decide, by decide, fun b hle hlt ↦ ?_⟩, by decide,
        by decide⟩
    · exact absurd hempty (by decide)
    · have hlt : b < 4 := hlt
      interval_cases b <;> decide

/-- A payload that fits into the block of `b`. -/
theorem interrupted_replace_threeFiles :
    InterruptedSafe ['/', 'b'] ⟨3, fun _ ↦ 66⟩ true threeFiles := by
  refine (interrupted_replace_iff accounted_threeFiles _ _ _).mpr
    fun found pos hfind hat hvisited htype ↦ ⟨fun _ ↦ ?_, fun hgrow ↦ ?_⟩
  · obtain rfl := foundAt_b hfind hat (sound_threeFiles.isFile_of_visited hvisited htype)
    exact sound_threeFiles.tornMarked_of_packed
      (sound_threeFiles.isFile_of_visited hvisited htype) (by decide)
  · obtain rfl := foundAt_b hfind hat (sound_threeFiles.isFile_of_visited hvisited htype)
    exact absurd hgrow (by decide)

end CaribeOS.HfsScript
