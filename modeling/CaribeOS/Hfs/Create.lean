import CaribeOS.Hfs.CreateRecord
import CaribeOS.Hfs.RecordWritten

/-!
# The run that creates a file

On an image in order, `create_root_file` makes some checks before its first write (`CanReserve`). If
they pass, it writes the bitmap, the volume header and the data. Only then come the checks that the
counters of the header can be raised (`CountersFit`) and that the record can be put into the first leaf
(`CanInsert`); if one of these fails, what is written stays. So a create that fails changes nothing in
few cases only (`failed_create_changes_nothing_iff`).
-/

namespace CaribeOS.HfsScript

open FileScript Extents

/-! ## Before the first write -/

/-- What is checked before the first write: the file is to be in the root folder and not there yet,
and there are blocks for it. -/
structure CanReserve (hfs : HFSPlusImage) (img : Buf) (name : List Char) (size : ℕ) : Prop where
  root : '/' ∉ name ∧ name ≠ []
  absent : ∃ e, findFile hfs img ('/' :: name) = .error e ∧ e.isRuntimeError = true
  run : (contents hfs img).FreeRun hfs (ceilDiv size hfs.blockSize)
  count : ceilDiv size hfs.blockSize ≤ hfs.freeBlocks

section Reserve

variable {img : Buf} {hfs : HFSPlusImage} (s : Sound img hfs) {path : List Char} {size : ℕ}
include s

theorem Sound.nodeSize_lt : hfs.nodeSize < 65536 := by
  obtain ⟨t, rfl⟩ := s.exists_volume
  rw [volume]
  dsimp only
  split_ifs
  · decide
  · exact UInt16.toNat_lt _

theorem Sound.of_reserve_eq_ok {r : Reserved} (h : reserve path size img = .ok r) :
    r.hfs = hfs ∧ r.name = stripSlashes path ∧ ('/' ∉ r.name ∧ r.name ≠ []) ∧
      (∃ e, findFile hfs img ('/' :: r.name) = .error e ∧ e.isRuntimeError = true) ∧
      (contents hfs img).FreeRun hfs (ceilDiv size hfs.blockSize) := by
  rw [reserve, s.mounted, ok_bind] at h
  dsimp only at h
  split_ifs at h with hroot
  rw [not_or] at hroot
  cases hfind : findFile hfs img ('/' :: stripSlashes path) with
  | ok found =>
    rw [hfind] at h
    cases h
  | error e =>
    rw [hfind] at h
    dsimp only at h
    split_ifs at h with hrun
    obtain ⟨bitmap, hread, h⟩ := bind_eq_ok.mp h
    obtain ⟨start, hfound, h⟩ := bind_eq_ok.mp h
    obtain ⟨bitmap', -, h⟩ := bind_eq_ok.mp h
    obtain rfl := Except.ok.inj h
    have hne : hfs.allocation.size ≠ 0 := by
      intro hzero
      rw [HfsScript.readAllocationBitmap, if_pos hzero] at hread
      cases hread
    obtain ⟨bitmap₀, hread₀, hshows⟩ := s.readAllocationBitmap hne
    obtain rfl : bitmap₀ = bitmap := Except.ok.inj (hread₀.symm.trans hread)
    exact ⟨rfl, rfl, hroot, ⟨e, hfind, hrun⟩, (exists_findFreeRun_iff hshows).mp ⟨start, hfound⟩⟩

theorem Sound.reserve_eq (h : CanReserve hfs img (stripSlashes path) size) :
    ∃ start bitmap, reserve path size img = .ok ⟨hfs, stripSlashes path, start, bitmap⟩ ∧
      bitmap.size = hfs.allocation.size ∧ start < hfs.totalBlocks ∧
      Reserves hfs (contents hfs img) [] (ceilDiv size hfs.blockSize) start
        (overlay hfs.allocation.size bitmap.byte (contents hfs img).bitmap) := by
  obtain ⟨e, hfind, hrun⟩ := h.absent
  have hne : hfs.allocation.size ≠ 0 := by
    obtain ⟨start, -, hle, -⟩ := h.run
    omega
  obtain ⟨bitmap, hread, hshows⟩ := s.readAllocationBitmap hne
  obtain ⟨start, hfound⟩ := (exists_findFreeRun_iff hshows).mpr h.run
  obtain ⟨hle, hfree⟩ := findFreeRun_free hfound
  obtain ⟨bitmap', hset, hsize, hbit⟩ := bitmapSetAll_eq bitmap
    (List.range' start (ceilDiv size hfs.blockSize)) true fun b hb ↦ by
      rw [List.mem_range'_1] at hb
      exact (hfree b hb.1 (by omega)).1
  refine ⟨start, bitmap', ?_, by rw [hsize, hshows.size], by omega,
    reserves_of_bits _ hshows hfound (fun b hb ↦ absurd hb List.not_mem_nil) fun b ↦ ?_⟩
  · rw [reserve, s.mounted, ok_bind]
    rw [if_neg (not_or.mpr h.root), hfind]
    dsimp only
    rw [if_neg (not_not.mpr hrun), hread, ok_bind, hfound, ok_bind, hset, ok_bind]
    rfl
  · rw [hbit, if_neg List.not_mem_nil]

end Reserve

/-! ## The data -/

section Payload

variable {hfs : HFSPlusImage} {start : ℕ} {payload : Buf}

theorem byteAt_range' {bs needed k : ℕ} (hbs : 0 < bs) (hk : k < needed * bs) :
    byteAt bs (List.range' start needed) k = some (start * bs + k) := by
  have hdiv : k / bs < needed := (Nat.div_lt_iff_lt_mul hbs).mpr hk
  have hmod := Nat.div_add_mod' k bs
  rw [byteAt, List.getElem?_range' hdiv, Option.map_some, Nat.one_mul, Nat.add_mul]
  congr 1
  omega

theorem touches_run (start off : ℕ) {bs needed : ℕ} {data : Buf} (hbs : 0 < bs)
    (hin : off + data.size ≤ needed * bs) :
    Touches (blockRegion bs (· ∈ List.range' start needed)) [⟨start * bs + off, data⟩] := by
  intro w hw x hx
  rw [List.mem_singleton.mp hw] at hx
  obtain ⟨hle, hlt⟩ := hx
  dsimp only at hle hlt
  change x / bs ∈ List.range' start needed
  rw [List.mem_range'_1, Nat.le_div_iff_mul_le hbs, Nat.div_lt_iff_lt_mul hbs, Nat.add_mul]
  omega

/-- **The payload** is put to the run, and nothing else is written. -/
theorem putPayload_run (start : ℕ) (payload : Buf) (hbs : 0 < hfs.blockSize) :
    ∃ dws, (∀ f, putPayload hfs start payload f = (.ok (), dws)) ∧
      Touches (blockRegion hfs.blockSize
        (· ∈ List.range' start (ceilDiv payload.size hfs.blockSize))) dws ∧
      ∀ f : Buf, ∀ k < payload.size, bytesOf hfs.blockSize
        (List.range' start (ceilDiv payload.size hfs.blockSize)) (f.writes dws) k
          = payload.byte k := by
  have hroom := le_ceilDiv_mul (p := payload.size) hbs
  have hbyte : ∀ (f : Buf) (dws : List Write), (⟨start * hfs.blockSize, payload⟩ : Write) ∈ dws →
      (∀ w ∈ dws, w = ⟨start * hfs.blockSize, payload⟩ ∨
        start * hfs.blockSize + payload.size ≤ w.off) →
      ∀ k < payload.size, bytesOf hfs.blockSize
        (List.range' start (ceilDiv payload.size hfs.blockSize)) (f.writes dws) k
          = payload.byte k := by
    intro f dws hmem hall k hk
    rw [bytesOf_eq (byteAt_range' hbs (by omega))]
    refine Buf.byte_writes_eq (fun w hw hc ↦ ?_) ⟨_, hmem, by dsimp only; omega, by dsimp only; omega⟩
    rcases hall w hw with rfl | hbehind
    · rw [Write.value, Nat.add_sub_cancel_left]
    · have hle := hc.1
      omega
  have hfirst := touches_run start 0 hbs ((Nat.zero_add payload.size).trans_le hroom)
  by_cases hpad : ceilDiv payload.size hfs.blockSize * hfs.blockSize - payload.size ≠ 0
  · generalize hzeros : Buf.zeros (min (ceilDiv payload.size hfs.blockSize * hfs.blockSize
      - payload.size) hfs.blockSize) = zeros
    have hsize : zeros.size = min (ceilDiv payload.size hfs.blockSize * hfs.blockSize
        - payload.size) hfs.blockSize := by rw [← hzeros]; rfl
    refine ⟨[⟨start * hfs.blockSize, payload⟩, ⟨start * hfs.blockSize + payload.size, zeros⟩],
      fun f ↦ ?_, hfirst.append (touches_run start payload.size hbs (by omega)),
      fun f ↦ hbyte f _ List.mem_cons_self ?_⟩
    · rw [← hzeros]
      refine Script.bind_run (Script.put_apply _ _ _) ?_
      rw [if_pos hpad, hzeros, Script.put_apply]
    · intro w hw
      rcases List.mem_cons.mp hw with rfl | hw
      · exact Or.inl rfl
      · rw [List.mem_singleton.mp hw]
        exact Or.inr le_rfl
  · refine ⟨[⟨start * hfs.blockSize, payload⟩], fun f ↦ ?_, hfirst,
      fun f ↦ hbyte f _ List.mem_cons_self fun w hw ↦ Or.inl (List.mem_singleton.mp hw)⟩
    exact Script.bind_run (Script.put_apply _ _ _) (by rw [if_neg hpad, Script.pure_apply])

end Payload

/-! ## The counters -/

/-- The file can be counted in the volume header. -/
@[mk_iff]
structure CountersFit (h : ℕ → UInt8) : Prop where
  fileCount : (CaribeOS.be32 h 32).toNat + 1 < 4294967296
  nextId : max 20 (CaribeOS.be32 h 60).toNat + 1 < 4294967296

instance (h : ℕ → UInt8) : Decidable (CountersFit h) :=
  decidable_of_iff' _ (countersFit_iff h)

/-- The volume header `vh` is `h` with a file more. -/
structure Counted (h : ℕ → UInt8) (vh : Buf) : Prop where
  size : vh.size = 512
  kept : ∀ k < 512, ¬(32 ≤ k ∧ k < 36) → ¬(60 ≤ k ∧ k < 64) → vh.byte k = h k
  count : (CaribeOS.be32 vh.byte 32).toNat = (CaribeOS.be32 h 32).toNat + 1

section Count

variable {vh : Buf} {h : ℕ → UInt8} (hshows : Shows vh 512 h)
include hshows

theorem countFile_eq (hfit : CountersFit h) :
    ∃ vh' id, countFile vh = .ok (vh', id) ∧ Counted h vh' ∧ id < 4294967296 := by
  have hid : be32 vh 60 = .ok (CaribeOS.be32 h 60).toNat :=
    (hshows.be32_eq_ok_iff (show (60 : ℤ) = (60 : ℕ) from rfl)).mpr ⟨by decide, rfl⟩
  have hcount : be32 vh 32 = .ok (CaribeOS.be32 h 32).toNat :=
    (hshows.be32_eq_ok_iff (show (32 : ℤ) = (32 : ℕ) from rfl)).mpr ⟨by decide, rfl⟩
  have hmax : (if (CaribeOS.be32 h 60).toNat < 20 then 20 else (CaribeOS.be32 h 60).toNat)
      = max 20 (CaribeOS.be32 h 60).toNat := by
    split_ifs <;> omega
  have hsize := hshows.size
  obtain ⟨hfile, hnext⟩ := hfit
  refine ⟨stored (stored vh 32 4 ((CaribeOS.be32 h 32).toNat + 1)) 60 4
    (max 20 (CaribeOS.be32 h 60).toNat + 1), max 20 (CaribeOS.be32 h 60).toNat, ?_,
    ⟨hsize, fun k hk hne hne' ↦ ?_, ?_⟩, by omega⟩
  · rw [countFile, hid, ok_bind]
    rw [hmax, hcount, ok_bind, putBe32_of_le (show (32 : ℤ) = (32 : ℕ) from rfl)
      (v := (CaribeOS.be32 h 32).toNat + 1) (by push_cast; rfl) hfile (by omega), ok_bind,
      putBe32_of_le (show (60 : ℤ) = (60 : ℕ) from rfl)
        (v := max 20 (CaribeOS.be32 h 60).toNat + 1) (by push_cast; rfl) hnext
        (by rw [size_stored]; omega), ok_bind]
    rfl
  · dsimp only [stored]
    rw [putBytes_of_notMem (by omega), putBytes_of_notMem (by omega), hshows.byte k hk]
  · dsimp only [stored]
    rw [be32_putBytes_of_disjoint (by omega), be32_putBytes hfile]

theorem countersFit_of_countFile {r : Buf × ℕ} (hok : countFile vh = .ok r) : CountersFit h := by
  obtain ⟨id, hid, hok⟩ := bind_eq_ok.mp hok
  obtain ⟨count, hcount, hok⟩ := bind_eq_ok.mp hok
  obtain ⟨vh₁, hput₁, hok⟩ := bind_eq_ok.mp hok
  obtain ⟨vh₂, hput₂, -⟩ := bind_eq_ok.mp hok
  obtain ⟨-, rfl⟩ := (hshows.be32_eq_ok_iff (show (60 : ℤ) = (60 : ℕ) from rfl)).mp hid
  obtain ⟨-, rfl⟩ := (hshows.be32_eq_ok_iff (show (32 : ℤ) = (32 : ℕ) from rfl)).mp hcount
  have h₁ := (value_of_packInto hput₁).2
  have h₂ := (value_of_packInto hput₂).2
  constructor
  · omega
  · split_ifs at h₂ <;> omega

end Count

/-! ## The record -/

theorem Geometry.shows_header {f : Buf} {hfs : HFSPlusImage} (g : Geometry hfs f.size) :
    Shows (f.slice 1024 512) 512 (contents hfs f).header := by
  have hsize := g.header
  refine ⟨Buf.size_slice _ (by omega), fun k hk ↦ ?_⟩
  rw [contents]
  dsimp only
  rw [overlay_of_lt hk]
  rfl

section AddRecord

variable {img f : Buf} {hfs : HFSPlusImage} (s : Sound img hfs) (hfsize : f.size = img.size)
  {name : List Char} {size : ℕ} {extent : ℕ × ℕ}
  (hfits : ∀ id < 4294967296, RecordFits hfs id size extent)
  (hnode : (contents hfs f).node = (contents hfs img).node)
include s hfsize hfits hnode

/-- **The last part of `create_root_file`**: the counters, then the record. -/
theorem Sound.addRecord_run (name : List Char) :
    (¬CountersFit (contents hfs f).header ∧
        ∃ e, addRecord hfs name size extent f = (.error e, [])) ∨
      (CountersFit (contents hfs f).header ∧ ∃ vh, Counted (contents hfs f).header vh ∧
        ((¬CanInsert ((contents hfs img).node hfs.firstLeaf) hfs.nodeSize name ∧
            ∃ e, addRecord hfs name size extent f = (.error e, [⟨1024, vh⟩])) ∨
          ∃ b' nws, addRecord hfs name size extent f = (.ok (), ⟨1024, vh⟩ :: nws) ∧
            Inserted ((contents hfs img).node hfs.firstLeaf) b' hfs.nodeSize name size extent ∧
            PutsInOrder hfs.blockSize (catalogBlocks hfs) (hfs.firstLeaf * hfs.nodeSize) b'
              hfs.nodeSize nws)) := by
  have g : Geometry hfs f.size := hfsize ▸ s.geometry
  have hbs := s.blockSize_pos
  have hfirst : hfs.firstLeaf < hfs.totalNodes := s.firstLeaf_le.trans_lt s.leaves
  by_cases hfit : CountersFit (contents hfs f).header
  swap
  · refine Or.inl ⟨hfit, ?_⟩
    cases hcount : countFile (f.slice 1024 512) with
    | ok r => exact absurd (countersFit_of_countFile g.shows_header hcount) hfit
    | error e =>
      exact ⟨e, Script.ask_bind_of_error (q := fun img ↦ countFile (img.slice 1024 512)) hcount⟩
  obtain ⟨vh, id, hcount, hcounted, hid⟩ := countFile_eq g.shows_header hfit
  refine Or.inr ⟨hfit, vh, hcounted, ?_⟩
  -- the node is read after the header is written
  have hsize₁ : (f.writes [⟨1024, vh⟩]).size = f.size :=
    g.size_writes s.owned.reserved_lt (g.touches_header hcounted.size)
  have g₁ : Geometry hfs (f.writes [⟨1024, vh⟩]).size := hsize₁.symm ▸ g
  obtain ⟨node, hread, hshows⟩ := g₁.readNode hfirst
  rw [g.contents_header hcounted.size] at hshows
  rw [hnode] at hshows
  have hleaf := s.leaf hfs.firstLeaf hfirst
  have hrun : ∀ r ws, ((Script.ask fun img ↦ do
      let node ← readFork hfs.blockSize hfs.catalog img (hfs.firstLeaf * hfs.nodeSize) hfs.nodeSize
      insertRecord hfs node name id size extent) >>=
        writeFork hfs.blockSize hfs.catalog (hfs.firstLeaf * hfs.nodeSize))
          (f.writes [⟨1024, vh⟩]) = (r, ws) →
      addRecord hfs name size extent f = (r, ⟨1024, vh⟩ :: ws) := by
    intro r ws h
    exact (Script.ask_bind_of_ok (q := fun img ↦ countFile (img.slice 1024 512)) hcount).trans
      (Script.bind_run (Script.put_apply _ _ _) h)
  cases hins : insertRecord hfs node name id size extent with
  | error e =>
    refine Or.inl ⟨fun hcan ↦ ?_, e, hrun _ _ (Script.ask_bind_of_error ?_)⟩
    · obtain ⟨node', hok, -⟩ := insertRecord_eq hshows hleaf s.nodeSize_lt (hfits id hid) hcan
      rw [hins] at hok
      cases hok
    · rw [hread, ok_bind, hins]
  | ok node' =>
    have hcan := canInsert_of_insertRecord hshows hleaf (hfits id hid) hins
    obtain ⟨node'', hok, hnsize, hinserted⟩ :=
      insertRecord_eq hshows hleaf s.nodeSize_lt (hfits id hid) hcan
    obtain rfl : node'' = node' := Except.ok.inj (hok.symm.trans hins)
    obtain ⟨nws, hwrite, hputs⟩ := writeFork_puts hbs hfs.catalog
      (hfs.firstLeaf * hfs.nodeSize) node'' fun k hk ↦ by
        have hcov := (Nat.mul_le_mul_right hfs.nodeSize hfirst).trans s.catalog_covers
        rw [Nat.succ_mul] at hcov
        rw [Nat.div_lt_iff_lt_mul hbs]
        change _ < (catalogBlocks hfs).length * _
        omega
    rw [hnsize] at hputs
    refine Or.inr ⟨_, nws, hrun _ _ ((Script.ask_bind_of_ok ?_).trans (hwrite _)), hinserted,
      hputs.congr fun k hk ↦ (overlay_of_lt hk).symm⟩
    rw [hread, ok_bind, hins]

end AddRecord

/-! ## The whole run -/

/-- The writes of `create_root_file` up to the data: the blocks from `start` on are marked, the
volume header has the new number of free blocks, and the payload stands in the blocks. -/
structure DataPut (hfs : HFSPlusImage) (c : Contents) (payload : Buf) (start : ℕ) (bm : ℕ → UInt8)
    (vh : Buf) (bws dws : List Write) : Prop where
  start_lt : start < hfs.totalBlocks
  reserves : Reserves hfs c [] (ceilDiv payload.size hfs.blockSize) start bm
  header : HeaderPut c vh (hfs.freeBlocks - ceilDiv payload.size hfs.blockSize)
  bitmap : PutsInOrder hfs.blockSize (bitmapBlocks hfs) 0 bm hfs.allocation.size bws
  touches : Touches (blockRegion hfs.blockSize
    (· ∈ List.range' start (ceilDiv payload.size hfs.blockSize))) dws
  data : ∀ f : Buf, ∀ k < payload.size, bytesOf hfs.blockSize
    (List.range' start (ceilDiv payload.size hfs.blockSize)) (f.writes dws) k = payload.byte k

variable {bm : ℕ → UInt8} {bws dws : List Write} {start : ℕ} {vh : Buf}

section Run

variable {img : Buf} {hfs : HFSPlusImage} (s : Sound img hfs) {path : List Char} {payload : Buf}
include s

theorem Sound.contents_dataPut (h : DataPut hfs (contents hfs img) payload start bm vh bws dws) :
    (img.writes (⟨1024, vh⟩ :: bws ++ dws)).size = img.size ∧
      contents hfs (img.writes (⟨1024, vh⟩ :: bws ++ dws)) = { contents hfs img with
        header := overlay 512 vh.byte (contents hfs img).header
        bitmap := bm } := by
  obtain ⟨hsize₁, hcontents₁⟩ := s.contents_reserved h.header h.reserves h.bitmap.all
  have g₁ : Geometry hfs (img.writes (⟨1024, vh⟩ :: bws)).size := hsize₁.symm ▸ s.geometry
  have havoids : Avoids hfs (· ∈ List.range' start (ceilDiv payload.size hfs.blockSize)) :=
    s.avoids_free h.reserves.free
  rw [Buf.writes_append]
  refine ⟨(g₁.writes_size havoids h.touches).trans hsize₁, ?_⟩
  rw [g₁.contents_other h.touches havoids.header havoids.bitmap havoids.catalog, hcontents₁]

/-- **A create that fails before its first write.** -/
theorem Sound.createRootFile_early
    (h : ¬CanReserve hfs img (stripSlashes path) payload.size) :
    ∃ e, createRootFile path payload img = (.error e, []) := by
  cases hres : reserve path payload.size img with
  | error e => exact ⟨e, Script.ask_bind_of_error hres⟩
  | ok r =>
    obtain ⟨hhfs, hname, hroot, habsent, hrun⟩ := s.of_reserve_eq_ok hres
    -- only the number of free blocks can be too small
    have hcount : ¬ceilDiv payload.size hfs.blockSize ≤ hfs.freeBlocks := by
      intro hle
      rw [hname] at hroot habsent
      exact h ⟨hroot, habsent, hrun, hle⟩
    rw [← hhfs] at hcount
    exact ⟨.structError, (Script.ask_bind_of_ok hres).trans
      (Script.bind_of_error (writeAllocationBitmapAndHeader_error (by omega)))⟩

/-- **A create whose first checks pass**: it writes up to the data, and goes on from there. -/
theorem Sound.createRootFile_run (h : CanReserve hfs img (stripSlashes path) payload.size) :
    ∃ start bm vh bws dws, DataPut hfs (contents hfs img) payload start bm vh bws dws ∧
      ∀ r ws, addRecord hfs (stripSlashes path) payload.size
          (start, ceilDiv payload.size hfs.blockSize) (img.writes (⟨1024, vh⟩ :: bws ++ dws))
            = (r, ws) →
        createRootFile path payload img = (r, ⟨1024, vh⟩ :: bws ++ dws ++ ws) := by
  obtain ⟨start, bitmap, hres, hbsize, hstart, hreserves⟩ := s.reserve_eq h
  have hcount := h.count
  have hfree : hfs.freeBlocks < 4294967296 := by
    rw [s.freeBlocks_eq]
    exact UInt32.toNat_lt _
  rcases s.writeAllocationBitmapAndHeader_run hbsize
      (hfs.freeBlocks - ceilDiv payload.size hfs.blockSize) with
    ⟨-, hbad⟩ | ⟨vh, bws, hwrite, hheader, -, -, hputs⟩
  · exact absurd ⟨by omega, by omega⟩ hbad
  obtain ⟨dws, hpayload, htouches, hdata⟩ := putPayload_run start payload s.blockSize_pos
  have hnat : ((hfs.freeBlocks : ℤ) - (ceilDiv payload.size hfs.blockSize : ℕ)).toNat
      = hfs.freeBlocks - ceilDiv payload.size hfs.blockSize := by omega
  rw [hnat] at hheader
  refine ⟨start, _, vh, bws, dws, ⟨hstart, hreserves, hheader,
    hputs.congr fun k hk ↦ (overlay_of_lt hk).symm, htouches, hdata⟩, fun r ws hadd ↦ ?_⟩
  rw [Buf.writes_append] at hadd
  rw [List.append_assoc]
  exact (Script.ask_bind_of_ok hres).trans
    (Script.bind_run hwrite (Script.bind_run (hpayload _) hadd))

end Run

/-! ## A create that fails -/

/-- The counters stand at other places than the number of free blocks. -/
theorem HeaderPut.countersFit_iff {c : Contents} {free : ℕ} (h : HeaderPut c vh free) :
    CountersFit (overlay 512 vh.byte c.header) ↔ CountersFit c.header := by
  have hbyte : ∀ k < 512, k < 48 ∨ 52 ≤ k → overlay 512 vh.byte c.header k = c.header k := by
    intro k hk hne
    rw [overlay_of_lt hk, h.kept k hk hne]
  have hcount : CaribeOS.be32 (overlay 512 vh.byte c.header) 32 = CaribeOS.be32 c.header 32 :=
    be32_congr fun k _ hlt ↦ hbyte k (by omega) (by omega)
  have hid : CaribeOS.be32 (overlay 512 vh.byte c.header) 60 = CaribeOS.be32 c.header 60 :=
    be32_congr fun k hle hlt ↦ hbyte k (by omega) (by omega)
  constructor
  · rintro ⟨hfile, hnext⟩
    rw [hcount] at hfile
    rw [hid] at hnext
    exact ⟨hfile, hnext⟩
  · rintro ⟨hfile, hnext⟩
    constructor
    · rwa [hcount]
    · rwa [hid]

/-- A call of `create_root_file` that fails leaves the image as it was. -/
def FailureChangesNothing (path : List Char) (payload img : Buf) : Prop :=
  ∀ e, (createRootFile path payload img).1 = .error e →
    (img.writes (createRootFile path payload img).2).Same img

section Run

variable {img : Buf} {hfs : HFSPlusImage} (s : Sound img hfs) {path : List Char} {payload : Buf}
include s

/-- **The ends of a create** whose first checks pass: the counters do not fit, the record does not
fit, or the record is written. -/
theorem Sound.createRootFile_cases (h : CanReserve hfs img (stripSlashes path) payload.size) :
    ∃ start bm vh bws dws, DataPut hfs (contents hfs img) payload start bm vh bws dws ∧
      ((¬CountersFit (contents hfs img).header ∧
          ∃ e, createRootFile path payload img = (.error e, ⟨1024, vh⟩ :: bws ++ dws)) ∨
        (CountersFit (contents hfs img).header ∧ ∃ vh',
          Counted (overlay 512 vh.byte (contents hfs img).header) vh' ∧
          ((¬CanInsert ((contents hfs img).node hfs.firstLeaf) hfs.nodeSize (stripSlashes path) ∧
              ∃ e, createRootFile path payload img
                = (.error e, ⟨1024, vh⟩ :: bws ++ dws ++ [⟨1024, vh'⟩])) ∨
            ∃ b' nws, createRootFile path payload img
                = (.ok (), ⟨1024, vh⟩ :: bws ++ dws ++ ⟨1024, vh'⟩ :: nws) ∧
              Inserted ((contents hfs img).node hfs.firstLeaf) b' hfs.nodeSize
                (stripSlashes path) payload.size (start, ceilDiv payload.size hfs.blockSize) ∧
              PutsInOrder hfs.blockSize (catalogBlocks hfs) (hfs.firstLeaf * hfs.nodeSize) b'
                hfs.nodeSize nws))) := by
  obtain ⟨start, bm, vh, bws, dws, hdata, hrun⟩ := s.createRootFile_run h
  obtain ⟨hsize, hcontents⟩ := s.contents_dataPut hdata
  have hneeded : ceilDiv payload.size hfs.blockSize < 4294967296 := by
    have hfree : hfs.freeBlocks < 4294967296 := by
      rw [s.freeBlocks_eq]
      exact UInt32.toNat_lt _
    exact h.count.trans_lt hfree
  have hlen : payload.size < 18446744073709551616 :=
    (le_ceilDiv_mul s.blockSize_pos).trans_lt
      ((Nat.mul_lt_mul'' hneeded s.blockSize_lt).trans_eq (by norm_num))
  have hfits : ∀ id < 4294967296, RecordFits hfs id payload.size
      (start, ceilDiv payload.size hfs.blockSize) :=
    fun id hid ↦ ⟨hid, hlen, hneeded, hdata.start_lt.trans s.totalBlocks_lt, hneeded⟩
  have hadd := s.addRecord_run hsize hfits (by rw [hcontents]) (stripSlashes path)
  rw [hcontents] at hadd
  rw [hdata.header.countersFit_iff] at hadd
  refine ⟨start, bm, vh, bws, dws, hdata, ?_⟩
  rcases hadd with ⟨hfit, e, hadd⟩ | ⟨hfit, vh', hcounted, ⟨hcan, e, hadd⟩ | ⟨b', nws, hadd, hins⟩⟩
  · refine Or.inl ⟨hfit, e, ?_⟩
    rw [hrun _ _ hadd, List.append_nil]
  · exact Or.inr ⟨hfit, vh', hcounted, Or.inl ⟨hcan, e, hrun _ _ hadd⟩⟩
  · exact Or.inr ⟨hfit, vh', hcounted, Or.inr ⟨b', nws, hrun _ _ hadd, hins⟩⟩

/-- Nothing is changed on the way to an empty file, up to the counters. -/
theorem Sound.same_of_dataPut (h : DataPut hfs (contents hfs img) payload start bm vh bws dws)
    (hempty : payload.size = 0) : (img.writes (⟨1024, vh⟩ :: bws ++ dws)).Same img := by
  have g := s.geometry
  have hbs := s.blockSize_pos
  have hneeded : ceilDiv payload.size hfs.blockSize = 0 := by
    have hle : ceilDiv payload.size hfs.blockSize ≤ 0 := ceilDiv_le hbs (by omega)
    omega
  obtain ⟨-, hreserves, hheader, hbitmap, htouches, -⟩ := h
  rw [hneeded] at hreserves hheader htouches
  -- the header has the same number of free blocks, and the bitmap the same bits
  have hvh : ∀ k < 512, vh.byte k = img.byte (1024 + k) := by
    intro k hk
    have hbyte : (contents hfs img).header k = img.byte (1024 + k) := overlay_of_lt hk
    rw [← hbyte]
    by_cases hne : k < 48 ∨ 52 ≤ k
    · exact hheader.kept k hk hne
    · refine byte_eq_of_be32_eq (o := 48) ?_ (by omega) (by omega)
      rw [hheader.free, Nat.sub_zero, s.freeBlocks_eq]
  have hbm : ∀ k, bm k = (contents hfs img).bitmap k := Bitmap.byte_eq_of_getBit_eq fun b ↦ by
    rw [hreserves.bit, if_neg List.not_mem_nil, List.range'_zero, if_neg List.not_mem_nil]
  refine Buf.writes_same fun w hw x hx ↦ ?_
  rw [List.cons_append, List.mem_cons, List.mem_append] at hw
  rcases hw with rfl | hw | hw
  · obtain ⟨hle, hlt⟩ := hx
    have hsize := g.header
    have hvhsize := hheader.size
    dsimp only at hle hlt
    refine ⟨by omega, ?_⟩
    rw [Write.value, hvh _ (by dsimp only; omega), Nat.add_sub_cancel' hle]
  · obtain ⟨k, hk, hat, hval⟩ := hbitmap.all.value w hw x hx
    rw [Nat.zero_add] at hat
    refine ⟨g.lt_size (g.bitmap_lt _ (div_mem_of_byteAt hbs hat)), ?_⟩
    have hbyte : (contents hfs img).bitmap k = bytesOf hfs.blockSize (bitmapBlocks hfs) img k :=
      overlay_of_lt hk
    rw [hval, hbm, hbyte, bytesOf_eq hat]
  · exact absurd (htouches w hw x hx) List.not_mem_nil

theorem Sound.header_of_same {img' : Buf} (h : img'.Same img) :
    (contents hfs img').header = (contents hfs img).header := by
  have hsize := s.header
  obtain ⟨heq, hbyte⟩ := h
  funext k
  rw [contents, contents]
  dsimp only
  rw [overlay, overlay]
  split_ifs with hk
  · exact hbyte _ (by omega)
  · rfl

/-- Blocks are reserved: the number of free blocks is another one. -/
theorem Sound.not_same_of_dataPut (h : DataPut hfs (contents hfs img) payload start bm vh bws dws)
    (hcan : CanReserve hfs img (stripSlashes path) payload.size) (hne : payload.size ≠ 0) :
    ¬(img.writes (⟨1024, vh⟩ :: bws ++ dws)).Same img := by
  intro hsame
  have hheader := s.header_of_same hsame
  rw [(s.contents_dataPut h).2] at hheader
  have hfree : (CaribeOS.be32 vh.byte 48).toNat = hfs.freeBlocks := by
    rw [s.freeBlocks_eq, ← hheader, be32_congr fun k _ hlt ↦ overlay_of_lt (by omega)]
  have hcount := hcan.count
  have hroom := le_ceilDiv_mul (p := payload.size) s.blockSize_pos
  have hneeded : ceilDiv payload.size hfs.blockSize ≠ 0 := by
    intro hzero
    rw [hzero, Nat.zero_mul] at hroom
    omega
  rw [h.header.free] at hfree
  omega

theorem Sound.not_same_of_counted {vh' : Buf}
    (h : DataPut hfs (contents hfs img) payload start bm vh bws dws)
    (hcounted : Counted (overlay 512 vh.byte (contents hfs img).header) vh') :
    ¬(img.writes (⟨1024, vh⟩ :: bws ++ dws ++ [⟨1024, vh'⟩])).Same img := by
  intro hsame
  obtain ⟨hsize, hcontents⟩ := s.contents_dataPut h
  have g₁ : Geometry hfs (img.writes (⟨1024, vh⟩ :: bws ++ dws)).size := hsize.symm ▸ s.geometry
  have hheader := s.header_of_same hsame
  rw [Buf.writes_append, g₁.contents_header hcounted.size, hcontents] at hheader
  have hnew : CaribeOS.be32 vh'.byte 32 = CaribeOS.be32 (contents hfs img).header 32 := by
    rw [← hheader]
    exact be32_congr fun k _ hlt ↦ (overlay_of_lt (by omega)).symm
  have hold : CaribeOS.be32 (overlay 512 vh.byte (contents hfs img).header) 32
      = CaribeOS.be32 (contents hfs img).header 32 :=
    be32_congr fun k _ hlt ↦ by
      rw [overlay_of_lt (by omega), h.header.kept k (by omega) (Or.inl (by omega))]
  have hcount := hcounted.count
  rw [hnew, hold] at hcount
  omega

/-- **When a failed create changes nothing**, on an image in order. -/
theorem Sound.failureChangesNothing_iff : FailureChangesNothing path payload img ↔
    ¬CanReserve hfs img (stripSlashes path) payload.size ∨
      (CountersFit (contents hfs img).header ∧
        CanInsert ((contents hfs img).node hfs.firstLeaf) hfs.nodeSize (stripSlashes path)) ∨
      (payload.size = 0 ∧ ¬CountersFit (contents hfs img).header) := by
  by_cases hcan : CanReserve hfs img (stripSlashes path) payload.size
  swap
  · obtain ⟨e, hrun⟩ := s.createRootFile_early hcan
    refine iff_of_true (fun e' _ ↦ ?_) (Or.inl hcan)
    rw [hrun]
    exact Buf.Same.refl img
  obtain ⟨start, bm, vh, bws, dws, hdata, hends⟩ := s.createRootFile_cases hcan
  rcases hends with ⟨hfit, e, hrun⟩ | ⟨hfit, vh', hcounted, ⟨hins, e, hrun⟩ | ⟨b', nws, hrun, hins, -⟩⟩
  · -- the counters do not fit
    constructor
    · intro h
      have hsame := h e (by rw [hrun])
      rw [hrun] at hsame
      by_contra hnot
      have hempty : payload.size ≠ 0 := fun hempty ↦ hnot (Or.inr (Or.inr ⟨hempty, hfit⟩))
      exact s.not_same_of_dataPut hdata hcan hempty hsame
    · rintro (hcan' | ⟨hfit', -⟩ | ⟨hempty, -⟩)
      · exact absurd hcan hcan'
      · exact absurd hfit' hfit
      · intro e' _
        rw [hrun]
        exact s.same_of_dataPut hdata hempty
  · -- the record does not fit
    constructor
    · intro h
      have hsame := h e (by rw [hrun])
      rw [hrun] at hsame
      exact absurd hsame (s.not_same_of_counted hdata hcounted)
    · rintro (hcan' | ⟨-, hins'⟩ | ⟨-, hfit'⟩)
      · exact absurd hcan hcan'
      · exact absurd hins' hins
      · exact absurd hfit hfit'
  · -- the call succeeds
    refine iff_of_true (fun e' he ↦ ?_) (Or.inr (Or.inl ⟨hfit, hins.can⟩))
    rw [hrun] at he
    cases he

end Run

/-- **When a failed create changes nothing.** If the checks before the first write fail, nothing is
changed, whatever the image is. On an image in order, the one other way is that the call cannot fail,
or that an empty file is not counted. -/
theorem failed_create_changes_nothing_iff (path : List Char) (payload img : Buf) :
    ((∀ r, reserve path payload.size img = .ok r →
        r.hfs.freeBlocks < ceilDiv payload.size r.hfs.blockSize) →
      FailureChangesNothing path payload img) ∧
    ∀ hfs, Sound img hfs → (FailureChangesNothing path payload img ↔
      ¬CanReserve hfs img (stripSlashes path) payload.size ∨
        (CountersFit (contents hfs img).header ∧
          CanInsert ((contents hfs img).node hfs.firstLeaf) hfs.nodeSize (stripSlashes path)) ∨
        (payload.size = 0 ∧ ¬CountersFit (contents hfs img).header)) := by
  refine ⟨fun hfew e _ ↦ ?_, fun hfs s ↦ s.failureChangesNothing_iff⟩
  have hnone : (createRootFile path payload img).2 = [] := by
    cases hres : reserve path payload.size img with
    | error e => exact congrArg Prod.snd (Script.ask_bind_of_error hres)
    | ok r =>
      have hneg := hfew r hres
      have hrun : createRootFile path payload img = (.error .structError, []) :=
        (Script.ask_bind_of_ok hres).trans
          (Script.bind_of_error (writeAllocationBitmapAndHeader_error (by omega)))
      rw [hrun]
  rw [hnone]
  exact Buf.Same.refl img

/-- A name that is not ASCII: the block that is reserved for the file stays so. -/
theorem failed_create_keeps_block :
    (createRootFile ['/', 'é'] ⟨1, fun _ ↦ 65⟩ threeFiles).1 = .error (.notAscii ['é']) ∧
      ¬FailureChangesNothing ['/', 'é'] ⟨1, fun _ ↦ 65⟩ threeFiles := by
  have herror : (createRootFile ['/', 'é'] ⟨1, fun _ ↦ 65⟩ threeFiles).1
      = .error (.notAscii ['é']) := by decide
  have hbyte : (threeFiles.writes (createRootFile ['/', 'é'] ⟨1, fun _ ↦ 65⟩ threeFiles).2).byte 1075
      ≠ threeFiles.byte 1075 := by decide
  have hlt : 1075 < (threeFiles.writes
      (createRootFile ['/', 'é'] ⟨1, fun _ ↦ 65⟩ threeFiles).2).size := by decide
  exact ⟨herror, fun h ↦ hbyte ((h _ herror).2 1075 hlt)⟩

/-- A file that is there already, and one that is not. -/
theorem failed_create_threeFiles :
    FailureChangesNothing ['/', 'b'] ⟨1, fun _ ↦ 65⟩ threeFiles ∧
      FailureChangesNothing ['/', 'd'] ⟨1, fun _ ↦ 65⟩ threeFiles := by
  constructor
  · refine (failed_create_changes_nothing_iff _ _ _).1 fun r hr ↦ ?_
    have hnot : (reserve ['/', 'b'] 1 threeFiles).isOk = false := by decide
    rw [hr] at hnot
    cases hnot
  · refine ((failed_create_changes_nothing_iff _ _ _).2 threeFilesVolume sound_threeFiles).mpr
      (Or.inr (Or.inl ⟨by decide, ?_⟩))
    refine ⟨by decide, by decide, ?_⟩
    decide

end CaribeOS.HfsScript
