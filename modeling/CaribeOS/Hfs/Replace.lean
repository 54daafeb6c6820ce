import CaribeOS.Hfs.ScriptBitmap

/-!
# The run that replaces a file

On an image in order, `replace_file` fails before its first write or it succeeds. If it succeeds, it
has written, in this order: the volume header and the bitmap, if the payload did not fit
(`Sound.updateImage_grow`); the payload, to the blocks of the fork that the record then has; and the
node with the record (`Stores`).
-/

namespace CaribeOS.HfsScript

open FileScript Extents

/-! ## The record with its new fork -/

/-- The node `b'` is `b` with the fork fields of the record data at `d` set. -/
structure ForkWritten (b b' : ℕ → UInt8) (d size : ℕ) (extents : List (ℕ × ℕ)) : Prop where
  agree : ∀ k, k < d + 88 ∨ d + 168 ≤ k → b' k = b k
  size : (CaribeOS.be64 b' (d + 88)).toNat = size
  extents : extentsAt b' (d + 88 + 16) = extents ++ List.replicate (8 - extents.length) (0, 0)

theorem blocks_append (es es' : List (ℕ × ℕ)) : blocks (es ++ es') = blocks es ++ blocks es' :=
  List.flatMap_append

theorem blocks_replicate_zero (n : ℕ) : blocks (List.replicate n (0, 0)) = [] := by
  induction n with
  | zero => rfl
  | succ n ih => rw [List.replicate_succ, blocks_cons, ih]; rfl

variable {size bs n p : ℕ} {pos : ℕ × ℕ} {S : ℕ → Prop}

theorem ForkWritten.blocks_eq {b b' : ℕ → UInt8} {d : ℕ} {extents : List (ℕ × ℕ)}
    (h : ForkWritten b b' d size extents) :
    blocks (extentsAt b' (d + 88 + 16)) = blocks extents := by
  rw [h.extents, blocks_append, blocks_replicate_zero, List.append_nil]

/-! ## Storing the payload -/

theorem ceilDiv_le (hbs : 0 < bs) (h : p ≤ n * bs) : ceilDiv p bs ≤ n := by
  rw [ceilDiv, ← Nat.lt_succ_iff, Nat.div_lt_iff_lt_mul hbs, Nat.succ_mul]
  omega

theorem le_ceilDiv_mul (hbs : 0 < bs) : p ≤ ceilDiv p bs * bs := by
  have hdiv := Nat.div_add_mod (p + bs - 1) bs
  have hmod := Nat.mod_lt (p + bs - 1) hbs
  rw [ceilDiv, Nat.mul_comm]
  omega

/-- A fork that a payload can be stored in: blocks of the volume, none of them twice, and extents
that fit into a record. -/
structure Storable (hfs : HFSPlusImage) (fork : Fork) (size : ℕ) : Prop where
  nodup : (blocks fork.extents).Nodup
  lt : ∀ b ∈ blocks fork.extents, b < hfs.totalBlocks
  length : fork.extents.length ≤ 8
  fits : ∀ e ∈ fork.extents, e.1 < 4294967296 ∧ e.2 < 4294967296
  room : size ≤ fork.allocatedBlocks * hfs.blockSize

/-- What is checked before a file is moved: that is allowed, there is a free run, and the new number of
free blocks is one. -/
structure CanGrow (hfs : HFSPlusImage) (c : Contents) (fork : Fork) (size : ℕ) (allowGrow : Bool) :
    Prop where
  allowed : allowGrow = true
  run : c.FreeRun hfs (ceilDiv size hfs.blockSize)
  count : ceilDiv size hfs.blockSize ≤ hfs.freeBlocks + fork.allocatedBlocks
  count_lt : hfs.freeBlocks + fork.allocatedBlocks - ceilDiv size hfs.blockSize < 4294967296

/-- The writes of the second part: the payload to the blocks of `extents`, and the node `b'` in which
the record at `pos` has these extents. -/
structure Stores (hfs : HFSPlusImage) (c : Contents) (payload : Buf) (pos : ℕ × ℕ)
    (extents : List (ℕ × ℕ)) (dws nws : List Write) (b' : ℕ → UInt8) : Prop where
  touches : Touches (blockRegion hfs.blockSize (· ∈ blocks extents)) dws
  data : ∀ f : Buf, (∀ a, a / hfs.blockSize ∈ blocks extents → a < f.size) →
    ∀ k < payload.size, bytesOf hfs.blockSize (blocks extents) (f.writes dws) k = payload.byte k
  written : ForkWritten (c.node pos.1) b' (c.dataOffset hfs pos) payload.size extents
  puts : PutsInOrder hfs.blockSize (catalogBlocks hfs) (pos.1 * hfs.nodeSize) b' hfs.nodeSize nws

theorem allocatedBlocks_eq (fork : Fork) : fork.allocatedBlocks = (blocks fork.extents).length :=
  (length_blocks fork.extents).symm

theorem length_le_of_nodup {l : List ℕ} (hnodup : l.Nodup) (hlt : ∀ x ∈ l, x < n) :
    l.length ≤ n := by
  rw [← List.toFinset_card_of_nodup hnodup, ← Finset.card_range n]
  exact Finset.card_le_card fun x hx ↦ Finset.mem_range.mpr (hlt x (List.mem_toFinset.mp hx))

namespace Sound

variable {img : Buf} {hfs : HFSPlusImage} (s : Sound img hfs)
include s

theorem totalBlocks_lt : hfs.totalBlocks < 4294967296 := by
  obtain ⟨t, rfl⟩ := s.exists_volume
  exact UInt32.toNat_lt _

theorem blockSize_lt : hfs.blockSize < 4294967296 := by
  obtain ⟨t, rfl⟩ := s.exists_volume
  exact UInt32.toNat_lt _

theorem dataOffset_le (h : (contents hfs img).IsFile hfs pos) :
    14 ≤ (contents hfs img).dataOffset hfs pos ∧
      (contents hfs img).dataOffset hfs pos + 248 ≤ hfs.nodeSize := by
  have hleaf := s.leaf pos.1 h.node_lt h.leaf
  have hend := hleaf.end_le pos.2 h.index_lt
  have hfree := hleaf.free_le
  have hstart := hleaf.offset pos.2 h.index_lt
  rw [recordEnd_file (by exact h.file)] at hend
  rw [Contents.dataOffset, Contents.offset]
  refine ⟨?_, by omega⟩
  rw [recordData]
  omega

theorem isFile_of_visited (hvisited : (contents hfs img).Visited hfs pos)
    (htype : (contents hfs img).typeOf hfs pos = 2) : (contents hfs img).IsFile hfs pos :=
  ⟨hvisited.le_last.trans_lt s.leaves, hvisited.leaf, hvisited.index_lt, htype⟩

variable {payload : Buf} {found : CatalogRec} {pos : ℕ × ℕ} {fork : Fork}

/-- The zeros behind the payload stay in the fork. -/
theorem padPayload_run (payload : Buf) (fork : Fork) :
    ∃ ws, (∀ f, padPayload hfs payload fork (fork.allocatedBlocks * hfs.blockSize) f = (.ok (), ws)) ∧
      ∃ len, Puts hfs.blockSize (blocks fork.extents) payload.size (Buf.zeros len).byte len ws := by
  by_cases hpad : payload.size < fork.allocatedBlocks * hfs.blockSize
  · obtain ⟨ws, hrun, hputs⟩ := writeFork_puts s.blockSize_pos fork payload.size
      (Buf.zeros (min hfs.blockSize (fork.allocatedBlocks * hfs.blockSize - payload.size)))
      fun k hk ↦ by
        rw [Buf.zeros] at hk
        dsimp only at hk
        rw [Nat.div_lt_iff_lt_mul s.blockSize_pos, ← allocatedBlocks_eq]
        omega
    refine ⟨ws, fun f ↦ ?_, _, hputs.all⟩
    rw [padPayload, if_pos hpad, hrun]
  · refine ⟨[], fun f ↦ ?_, 0, Puts.nil⟩
    rw [padPayload, if_neg hpad, Script.pure_apply]

/-- **The second part of `replace_file`** succeeds. -/
theorem storePayload_run (hat : (contents hfs img).FoundAt hfs found pos)
    (hfile : (contents hfs img).IsFile hfs pos) (hfork : Storable hfs fork payload.size) :
    ∃ dws nws b', (∀ f, storePayload hfs payload found fork f
        = (.ok (fork.allocatedBlocks * hfs.blockSize), dws ++ nws)) ∧
      Stores hfs (contents hfs img) payload pos fork.extents dws nws b' := by
  have hbs := s.blockSize_pos
  obtain ⟨hstart, hend⟩ := s.dataOffset_le hfile
  have hroom := hfork.room
  rw [allocatedBlocks_eq] at hroom
  have hlen : (blocks fork.extents).length < 4294967296 :=
    (length_le_of_nodup hfork.nodup hfork.lt).trans_lt s.totalBlocks_lt
  have hsize : payload.size < 18446744073709551616 :=
    hroom.trans_lt ((Nat.mul_lt_mul'' hlen s.blockSize_lt).trans_eq (by norm_num))
  -- the payload and the zeros behind it
  obtain ⟨ws₁, hrun₁, hputs₁, -⟩ := writeFork_puts hbs fork 0 payload
    fun k hk ↦ by
      rw [Nat.div_lt_iff_lt_mul hbs]
      omega
  obtain ⟨ws₂, hrun₂, len, hputs₂⟩ := s.padPayload_run payload fork
  -- the record
  have hfits : (contents hfs img).dataOffset hfs pos + 88 + 80 ≤ found.node.size := by
    rw [hat.shows.size]
    omega
  obtain ⟨node', hput, hnsize, hframe, hsz, hext⟩ := putFork_eq payload.size
    (ceilDiv payload.size hfs.blockSize) fork.extents hfits hsize
    ((ceilDiv_le hbs hroom).trans_lt hlen) hfork.length hfork.fits
  rw [hat.shows.size] at hnsize
  obtain ⟨ws₃, hrun₃, hputs₃⟩ := writeFork_puts hbs hfs.catalog
    (pos.1 * hfs.nodeSize) node' fun k hk ↦ by
      have hcov := (Nat.mul_le_mul_right hfs.nodeSize hfile.node_lt).trans s.catalog_covers
      rw [Nat.succ_mul] at hcov
      rw [Nat.div_lt_iff_lt_mul hbs]
      change _ < (catalogBlocks hfs).length * _
      omega
  have hbytes : ∀ k < hfs.nodeSize, node'.byte k
      = overlay hfs.nodeSize node'.byte ((contents hfs img).node pos.1) k :=
    fun k hk ↦ (overlay_of_lt hk).symm
  rw [hnsize] at hputs₃
  refine ⟨ws₁ ++ ws₂, ws₃, overlay hfs.nodeSize node'.byte ((contents hfs img).node pos.1),
    fun f ↦ ?_, ⟨(hputs₁.touches hbs).append (hputs₂.touches hbs), fun f hin k hk ↦ ?_,
      ⟨?_, ?_, ?_⟩, hputs₃.congr hbytes⟩⟩
  · have hrun : storePayload hfs payload found fork f = (.ok (fork.allocatedBlocks * hfs.blockSize),
        ws₁ ++ (ws₂ ++ (ws₃ ++ []))) := by
      refine Script.bind_run (hrun₁ f) (Script.bind_run (hrun₂ _) ?_)
      rw [hat.dataOff, hat.nodeOff]
      refine (Script.ask_bind_of_ok (q := fun _ ↦ _) hput).trans ?_
      exact Script.bind_run (hrun₃ _) rfl
    rw [hrun, List.append_nil, List.append_assoc]
  · rw [Buf.writes_append]
    have hsz' : ∀ a, a / hfs.blockSize ∈ blocks fork.extents → a < (f.writes ws₁).size := by
      intro a ha
      rw [Buf.size_writes ((hputs₁.touches hbs).mono fun x hx ↦ hin x hx)]
      exact hin a ha
    have hklt : k < (blocks fork.extents).length * hfs.blockSize := by omega
    rw [hputs₂.bytesOf_eq hbs hfork.nodup hsz' k hklt, if_neg (by omega),
      hputs₁.bytesOf_eq hbs hfork.nodup hin k hklt, if_pos (by omega), Nat.sub_zero]
  · intro k hk
    by_cases hlt : k < hfs.nodeSize
    · rw [← hbytes k hlt, hframe k (by omega), hat.shows.byte k hlt]
    · exact overlay_of_le (by omega)
  · rw [← hsz]
    exact congrArg UInt64.toNat (be64_congr fun k _ hlt ↦ overlay_of_lt (by omega))
  · rw [← hext]
    exact extentsAt_congr fun k _ hlt ↦ overlay_of_lt (by omega)

/-! ## Moving the file -/

theorem storable_of_room (hfile : (contents hfs img).IsFile hfs pos)
    (hfork : fork = forkAt ((contents hfs img).node pos.1)
      ((contents hfs img).dataOffset hfs pos + 88))
    (hroom : size ≤ fork.allocatedBlocks * hfs.blockSize) : Storable hfs fork size := by
  have hblocks : blocks fork.extents = (contents hfs img).blocksOf hfs (.data pos) := by
    rw [hfork]
    exact blocks_forkAt _ _
  refine ⟨?_, ?_, ?_, fun e he ↦ ?_, hroom⟩
  · rw [hblocks]
    exact s.owned.nodup (.data pos) hfile
  · rw [hblocks]
    exact s.owned.lt (.data pos) hfile
  · rw [hfork]
    exact (List.length_filter_le _ _).trans (by rw [extentsAt, List.length_map, List.length_range])
  · rw [hfork] at he
    obtain ⟨i, -, rfl⟩ := List.mem_map.mp (List.mem_of_mem_filter he)
    exact ⟨UInt32.toNat_lt _, UInt32.toNat_lt _⟩

/-- **The first part of `replace_file`** for a payload that does not fit: it fails before the first
write, or it reserves blocks and releases those of the old fork. -/
theorem growFork_run (hfile : (contents hfs img).IsFile hfs pos)
    (hfork : fork = forkAt ((contents hfs img).node pos.1)
      ((contents hfs img).dataOffset hfs pos + 88)) (path : List Char) (allowGrow : Bool)
    (hgrow : fork.allocatedBlocks * hfs.blockSize < payload.size) :
    ((∃ e, growFork hfs path payload allowGrow fork img = (.error e, [])) ∧
        ¬CanGrow hfs (contents hfs img) fork payload.size allowGrow) ∨
      (CanGrow hfs (contents hfs img) fork payload.size allowGrow ∧ ∃ start bm vh bws free,
        growFork hfs path payload allowGrow fork img
          = (.ok ⟨payload.size, [(start, ceilDiv payload.size hfs.blockSize)]⟩, ⟨1024, vh⟩ :: bws) ∧
        Reserves hfs (contents hfs img) (blocks fork.extents) (ceilDiv payload.size hfs.blockSize)
          start bm ∧
        free + ceilDiv payload.size hfs.blockSize = hfs.freeBlocks + fork.allocatedBlocks ∧
        HeaderPut (contents hfs img) vh free ∧
        PutsInOrder hfs.blockSize (bitmapBlocks hfs) 0 bm hfs.allocation.size bws) := by
  have hold : ∀ b ∈ blocks fork.extents, (contents hfs img).Marked b := by
    have hblocks : blocks fork.extents = (contents hfs img).blocksOf hfs (.data pos) := by
      rw [hfork]
      exact blocks_forkAt _ _
    rw [hblocks]
    exact s.owned.marked (.data pos) hfile
  have hnot : ¬payload.size ≤ fork.allocatedBlocks * hfs.blockSize := Nat.not_le.mpr hgrow
  by_cases hallow : allowGrow = true
  swap
  · refine Or.inl ⟨⟨.exceedsAllocation path payload.size (fork.allocatedBlocks * hfs.blockSize),
      ?_⟩, fun h ↦ hallow h.allowed⟩
    rw [growFork, if_neg hnot, if_pos hallow, Script.ask_apply]
  by_cases hne : hfs.allocation.size = 0
  · -- without a bitmap there is no free run either
    refine Or.inl ⟨⟨.noBitmap, ?_⟩, ?_⟩
    · rw [growFork, if_neg hnot, if_neg (not_not.mpr hallow)]
      exact Script.ask_bind_of_error (if_pos hne)
    · rintro ⟨-, ⟨start, -, hle, -⟩, -, -⟩
      omega
  obtain ⟨bitmap, hread, hshows⟩ := s.readAllocationBitmap hne
  cases hfound : findFreeRun hfs bitmap (ceilDiv payload.size hfs.blockSize) with
  | error e =>
    refine Or.inl ⟨⟨e, ?_⟩, ?_⟩
    · rw [growFork, if_neg hnot, if_neg (not_not.mpr hallow)]
      exact (Script.ask_bind_of_ok (q := fun img ↦ _) hread).trans
        (Script.ask_bind_of_error (q := fun _ ↦ _) hfound)
    · intro hcan
      obtain ⟨start', hstart'⟩ := (exists_findFreeRun_iff hshows).mpr hcan.run
      rw [hfound] at hstart'
      cases hstart'
  | ok start =>
    obtain ⟨hle, hfree⟩ := findFreeRun_free hfound
    obtain ⟨bitmap₁, hset, hsize₁, hbit₁⟩ := bitmapSetAll_eq bitmap
      (List.range' start (ceilDiv payload.size hfs.blockSize)) true fun b hb ↦ by
        rw [List.mem_range'_1] at hb
        exact (hfree b hb.1 (by omega)).1
    obtain ⟨bitmap₂, hclear, hsize₂, hbit₂⟩ := bitmapSetAll_eq bitmap₁
      (blocks fork.extents) false fun b hb ↦ by
        rw [hsize₁, hshows.size]
        exact lt_of_marked (hold b hb)
    have hreserves := reserves_of_bits bitmap₂ hshows hfound hold fun b ↦ by
      rw [hbit₂, hbit₁]
    have hquestions : growFork hfs path payload allowGrow fork img
        = (writeAllocationBitmapAndHeader hfs bitmap₂ (hfs.freeBlocks + fork.allocatedBlocks
            - ceilDiv payload.size hfs.blockSize) >>= fun _ ↦ pure
          (⟨payload.size, [(start, ceilDiv payload.size hfs.blockSize)]⟩ : Fork)) img := by
      rw [growFork, if_neg hnot, if_neg (not_not.mpr hallow)]
      exact (Script.ask_bind_of_ok (q := fun img ↦ _) hread).trans
        ((Script.ask_bind_of_ok (q := fun _ ↦ _) hfound).trans
          ((Script.ask_bind_of_ok (q := fun _ ↦ _) hset).trans
            (Script.ask_bind_of_ok (q := fun _ ↦ _) hclear)))
    rcases s.writeAllocationBitmapAndHeader_run ((hsize₂.trans hsize₁).trans hshows.size)
        (hfs.freeBlocks + fork.allocatedBlocks - ceilDiv payload.size hfs.blockSize) with
      ⟨⟨e, herr⟩, hbad⟩ | ⟨vh, bws, hrun, hheader, hpos, hlt, hputs⟩
    · refine Or.inl ⟨⟨e, ?_⟩, ?_⟩
      · rw [hquestions]
        exact Script.bind_of_error herr
      · rintro ⟨-, -, hfit, hlt⟩
        exact hbad ⟨by omega, by omega⟩
    · have hcan : CanGrow hfs (contents hfs img) fork payload.size allowGrow :=
        ⟨hallow, (exists_findFreeRun_iff hshows).mp ⟨start, hfound⟩, by omega, by omega⟩
      refine Or.inr ⟨hcan, start, _, vh, bws, _, ?_, hreserves, ?_, hheader,
        hputs.congr fun k hk ↦ (overlay_of_lt hk).symm⟩
      · rw [hquestions]
        have := Script.bind_run hrun (g := fun _ ↦ pure
          (⟨payload.size, [(start, ceilDiv payload.size hfs.blockSize)]⟩ : Fork))
          (Script.pure_apply _ _)
        rw [List.append_nil] at this
        exact this
      · omega

/-! ## The whole run -/

variable {path : List Char} {allowGrow : Bool}

theorem updateImage_notFound {e : HfsError} (h : findFile hfs img path = .error e) :
    updateImage path payload allowGrow img = (.error e, []) :=
  (Script.ask_bind_of_ok (q := mount) s.mounted).trans
    (Script.ask_bind_of_error (q := fun img ↦ findFile hfs img path) h)

theorem updateImage_found (h : findFile hfs img path = .ok found)
    (hat : (contents hfs img).FoundAt hfs found pos) (hfile : (contents hfs img).IsFile hfs pos) :
    updateImage path payload allowGrow img = (growFork hfs path payload allowGrow
      (forkAt ((contents hfs img).node pos.1) ((contents hfs img).dataOffset hfs pos + 88)) >>=
        storePayload hfs payload found) img := by
  obtain ⟨hstart, hend⟩ := s.dataOffset_le hfile
  have hfork : forkFrom found.node (found.dataOff + 88) = .ok (forkAt ((contents hfs img).node pos.1)
      ((contents hfs img).dataOffset hfs pos + 88)) :=
    hat.shows.forkFrom_eq (by rw [hat.dataOff]; push_cast; ring) (by omega)
  exact (Script.ask_bind_of_ok (q := mount) s.mounted).trans
    ((Script.ask_bind_of_ok (q := fun img ↦ findFile hfs img path) h).trans
      (Script.ask_bind_of_ok (q := fun _ ↦ forkFrom found.node (found.dataOff + 88)) hfork))

section Update

variable (allowGrow : Bool) (h : findFile hfs img path = .ok found)
  (hat : (contents hfs img).FoundAt hfs found pos) (hfile : (contents hfs img).IsFile hfs pos)
  (hfork : fork = forkAt ((contents hfs img).node pos.1) ((contents hfs img).dataOffset hfs pos + 88))
include h hat hfile hfork

/-- **A payload that fits** is written in place. -/
theorem updateImage_inPlace (hroom : payload.size ≤ fork.allocatedBlocks * hfs.blockSize) :
    ∃ dws nws b', updateImage path payload allowGrow img
        = (.ok (fork.allocatedBlocks * hfs.blockSize), dws ++ nws) ∧
      Stores hfs (contents hfs img) payload pos fork.extents dws nws b' := by
  obtain ⟨dws, nws, b', hrun, hstores⟩ :=
    s.storePayload_run hat hfile (s.storable_of_room hfile hfork hroom)
  refine ⟨dws, nws, b', ?_, hstores⟩
  rw [s.updateImage_found h hat hfile, ← hfork]
  have hgrow : growFork hfs path payload allowGrow fork img = (.ok fork, []) := by
    rw [growFork, if_pos hroom, Script.pure_apply]
  have := Script.bind_run hgrow (hrun _)
  rwa [List.nil_append] at this

/-- **A payload that does not fit**: the run fails before its first write, or the file is moved. -/
theorem updateImage_grow (hgrow : fork.allocatedBlocks * hfs.blockSize < payload.size) :
    ((∃ e, updateImage path payload allowGrow img = (.error e, [])) ∧
        ¬CanGrow hfs (contents hfs img) fork payload.size allowGrow) ∨
      (CanGrow hfs (contents hfs img) fork payload.size allowGrow ∧
        ∃ start bm vh bws free dws nws b' alloc,
        updateImage path payload allowGrow img = (.ok alloc, ⟨1024, vh⟩ :: bws ++ (dws ++ nws)) ∧
        Reserves hfs (contents hfs img) (blocks fork.extents) (ceilDiv payload.size hfs.blockSize)
          start bm ∧
        free + ceilDiv payload.size hfs.blockSize = hfs.freeBlocks + fork.allocatedBlocks ∧
        HeaderPut (contents hfs img) vh free ∧
        PutsInOrder hfs.blockSize (bitmapBlocks hfs) 0 bm hfs.allocation.size bws ∧
        Stores hfs (contents hfs img) payload pos
          [(start, ceilDiv payload.size hfs.blockSize)] dws nws b') := by
  rcases s.growFork_run hfile hfork path allowGrow hgrow with
    ⟨⟨e, herr⟩, hbad⟩ | ⟨hcan, start, bm, vh, bws, free, hrun, hreserves, hcount, hheader, hputs⟩
  · refine Or.inl ⟨⟨e, ?_⟩, hbad⟩
    rw [s.updateImage_found h hat hfile, ← hfork]
    exact Script.bind_of_error herr
  · have hbs := s.blockSize_pos
    have htotal := s.totalBlocks_lt
    have hblocks : blocks [(start, ceilDiv payload.size hfs.blockSize)]
        = List.range' start (ceilDiv payload.size hfs.blockSize) := List.append_nil _
    have hneeded : 0 < ceilDiv payload.size hfs.blockSize := Nat.div_pos (by omega) hbs
    have hlt := (hreserves.free (start + ceilDiv payload.size hfs.blockSize - 1)
      (by rw [List.mem_range'_1]; omega)).1
    have hstorable : Storable hfs ⟨payload.size, [(start, ceilDiv payload.size hfs.blockSize)]⟩
        payload.size := by
      refine ⟨?_, fun b hb ↦ ?_, ?_, fun e he ↦ ?_, ?_⟩
      · rw [hblocks]
        exact List.nodup_range'
      · rw [hblocks] at hb
        exact (hreserves.free b hb).1
      · rw [List.length_singleton]
        omega
      · rw [List.mem_singleton.mp he]
        exact ⟨by dsimp only; omega, by dsimp only; omega⟩
      · exact le_ceilDiv_mul hbs
    obtain ⟨dws, nws, b', hstore, hstores⟩ := s.storePayload_run hat hfile hstorable
    have hall := Script.bind_run hrun (hstore (img.writes (⟨1024, vh⟩ :: bws)))
    rw [hfork, ← s.updateImage_found h hat hfile] at hall
    exact Or.inr ⟨hcan, start, bm, vh, bws, free, dws, nws, b', _, hall, hreserves, hcount, hheader,
      hputs, hstores⟩

end Update

end Sound

/-! ## What becomes of the contents -/

/-- Blocks of the volume that belong neither to the header nor to the bitmap or the catalog. -/
structure Avoids (hfs : HFSPlusImage) (S : ℕ → Prop) : Prop where
  lt : ∀ b, S b → b < hfs.totalBlocks
  header : ∀ b, S b → ¬HeaderBlock hfs.blockSize b
  bitmap : ∀ b ∈ bitmapBlocks hfs, ¬S b
  catalog : ∀ b ∈ catalogBlocks hfs, ¬S b

section Effect

variable {img f : Buf} {hfs : HFSPlusImage} (s : Sound img hfs)
include s

theorem Sound.avoids_data (hfile : (contents hfs img).IsFile hfs pos) :
    Avoids hfs (· ∈ (contents hfs img).blocksOf hfs (.data pos)) where
  lt := s.owned.lt (.data pos) hfile
  header := s.owned.not_reserved (.data pos) hfile
  bitmap b hb := by
    rw [s.bitmapBlocks_eq] at hb
    exact s.owned.disjoint (.system 0) (.data pos) trivial hfile (by simp) b hb
  catalog b hb := by
    rw [s.catalogBlocks_eq] at hb
    exact s.owned.disjoint (.system 2) (.data pos) trivial hfile (by simp) b hb

theorem Sound.avoids_free (hfree : ∀ b, S b → b < hfs.totalBlocks ∧ ¬(contents hfs img).Marked b) :
    Avoids hfs S where
  lt b hb := (hfree b hb).1
  header b hb hhead := (hfree b hb).2 (s.owned.reserved_marked b hhead)
  bitmap b hb hS := by
    rw [s.bitmapBlocks_eq] at hb
    exact (hfree b hS).2 (s.owned.marked (.system 0) trivial b hb)
  catalog b hb hS := by
    rw [s.catalogBlocks_eq] at hb
    exact (hfree b hS).2 (s.owned.marked (.system 2) trivial b hb)

omit s

variable {payload : Buf} {c : Contents} {pos : ℕ × ℕ} {extents : List (ℕ × ℕ)}
  {dws nws : List Write} {b' : ℕ → UInt8}

theorem Geometry.writes_size (g : Geometry hfs f.size) {ws : List Write} (hS : Avoids hfs S)
    (h : Touches (blockRegion hfs.blockSize S) ws) :
    (f.writes ws).size = f.size := g.size_writes hS.lt h

section StoredContents

variable (h : Stores hfs c payload pos extents dws nws b') (g : Geometry hfs f.size)
  (havoids : Avoids hfs (· ∈ blocks extents)) (hn : pos.1 < hfs.totalNodes)
  (htree : 40 ≤ pos.1 * hfs.nodeSize)
include h g havoids hn htree

/-- **After the payload and the node**, or after some of these writes, the contents differ in the
node only: a first part of it is new. -/
theorem Stores.contents_take (j : ℕ) :
    (f.writes ((dws ++ nws).take j)).size = f.size ∧
      contents hfs (f.writes ((dws ++ nws).take j))
        = { contents hfs f with
            node := Function.update (contents hfs f).node pos.1
              (overlay (writtenAfter hfs.blockSize (pos.1 * hfs.nodeSize) hfs.nodeSize
                (j - dws.length)) b'
                ((contents hfs f).node pos.1)) } := by
  rw [List.take_append, Buf.writes_append]
  have htouch := h.touches.take j
  have hsize := g.writes_size havoids htouch
  have hsame := g.contents_other htouch havoids.header havoids.bitmap havoids.catalog
  have hputs := h.puts.take (j - dws.length)
  have g' : Geometry hfs (f.writes (dws.take j)).size := hsize.symm ▸ g
  refine ⟨?_, ?_⟩
  · rw [g'.size_writes (S := (· ∈ catalogBlocks hfs)) g.catalog_lt (hputs.touches g.blockSize_pos),
      hsize]
  · rw [g'.contents_node hputs hn (min_le_left _ _) htree, hsame]

theorem Stores.contents_all :
    (f.writes (dws ++ nws)).size = f.size ∧ contents hfs (f.writes (dws ++ nws))
      = { contents hfs f with
          node := Function.update (contents hfs f).node pos.1
            (overlay hfs.nodeSize b' ((contents hfs f).node pos.1)) } := by
  rw [Buf.writes_append]
  have hsize := g.writes_size havoids h.touches
  have g' : Geometry hfs (f.writes dws).size := hsize.symm ▸ g
  refine ⟨?_, ?_⟩
  · rw [g'.size_writes (S := (· ∈ catalogBlocks hfs)) g.catalog_lt
      (h.puts.all.touches g.blockSize_pos), hsize]
  · rw [g'.contents_node h.puts.all hn le_rfl htree,
      g.contents_other h.touches havoids.header havoids.bitmap havoids.catalog]

end StoredContents

end Effect

end CaribeOS.HfsScript
