import CaribeOS.Hfs.ScriptLookup

/-!
# The scripts and the bitmap

`find_free_run` returns the start of a run of blocks that are not marked (`findFreeRun_free`), and it
finds one if there is one (`exists_findFreeRun`). `bitmapSetAll` marks the blocks of a list or removes
their marks, and no others (`bitmapSetAll_eq`).
-/

namespace CaribeOS.HfsScript

open FileScript Extents

variable {hfs : HFSPlusImage} {start : ℕ} {img bitmap : Buf}

section FreeRun

variable {bitmap : Buf} {needed : ℕ}

/-- The blocks from `start` to before `stop` are in the bitmap and not marked. -/
def FreeFrom (bitmap : Buf) (start stop : ℕ) : Prop :=
  ∀ b, start ≤ b → b < stop → b / 8 < bitmap.size ∧ Bitmap.getBit bitmap.byte b = false

theorem FreeFrom.succ {stop : ℕ} (h : FreeFrom bitmap start stop) (hin : stop / 8 < bitmap.size)
    (hclear : Bitmap.getBit bitmap.byte stop = false) : FreeFrom bitmap start (stop + 1) := by
  intro b hle hlt
  rcases Nat.lt_succ_iff_lt_or_eq.mp hlt with hlt | rfl
  · exact h b hle hlt
  · exact ⟨hin, hclear⟩

/-- What the loop knows at block `cur`: the run found so far ends there. -/
def RunUpTo (bitmap : Buf) (cur : ℕ) (runStart : Option ℕ) (runLen : ℕ) : Prop :=
  match runStart with
  | none => True
  | some start => start + runLen = cur ∧ FreeFrom bitmap start cur

theorem findFreeRunLoop_free {cur m : ℕ} {runStart : Option ℕ} {runLen start : ℕ}
    (hrun : RunUpTo bitmap cur runStart runLen)
    (h : findFreeRunLoop bitmap needed (List.range' cur m) runStart runLen = .ok start) :
    start + max 1 needed ≤ cur + m ∧ FreeFrom bitmap start (start + max 1 needed) := by
  induction m generalizing cur runStart runLen with
  | zero => cases h
  | succ m ih =>
    obtain ⟨used, hused, h⟩ := bind_eq_ok.mp h
    rw [bitmapIsUsed] at hused
    split_ifs at hused with hin
    obtain rfl := Except.ok.inj hused
    by_cases hclear : Bitmap.getBit bitmap.byte cur = false
    · rw [hclear, if_neg Bool.false_ne_true] at h
      -- the run goes on up to and with this block
      obtain ⟨len, hlen, hpos, hrun'⟩ : ∃ len,
          len = (if runStart.isNone then 1 else runLen + 1) ∧ 0 < len ∧
            RunUpTo bitmap (cur + 1) (some (runStart.getD cur)) len := by
        refine ⟨_, rfl, ?_, ?_⟩
        · split_ifs <;> omega
        cases runStart with
        | none =>
          refine ⟨rfl, fun b hle hlt ↦ ?_⟩
          obtain rfl : b = cur := by
            rw [Option.getD_none] at hle
            omega
          exact ⟨hin, hclear⟩
        | some start =>
          obtain ⟨hend, hfree⟩ := hrun
          refine ⟨?_, hfree.succ hin hclear⟩
          rw [Option.getD_some, Option.isNone_some, if_neg Bool.false_ne_true]
          omega
      dsimp only at h
      rw [← hlen] at h
      split_ifs at h with hdone
      · obtain rfl := Except.ok.inj h
        obtain ⟨hend, hfree⟩ := hrun'
        exact ⟨by omega, fun b hle hlt ↦ hfree b hle (by omega)⟩
      · have := ih hrun' h
        exact ⟨by omega, this.2⟩
    · rw [Bool.not_eq_false] at hclear
      rw [hclear, if_pos rfl] at h
      have := @ih _ none _ trivial h
      exact ⟨by omega, this.2⟩

/-- **The run that is found** is inside the volume and free. -/
theorem findFreeRun_free (h : findFreeRun hfs bitmap needed = .ok start) :
    start + max 1 needed ≤ hfs.totalBlocks ∧ FreeFrom bitmap start (start + max 1 needed) := by
  rw [findFreeRun, List.range_eq_range'] at h
  have := @findFreeRunLoop_free _ _ _ _ none _ _ trivial h
  rwa [Nat.zero_add] at this

theorem exists_findFreeRunLoop {cur m st : ℕ} {runStart : Option ℕ} {runLen : ℕ}
    (hin : ∀ b < st + max 1 needed, b / 8 < bitmap.size)
    (hst : st + max 1 needed ≤ cur + m) (hfree : FreeFrom bitmap st (st + max 1 needed))
    (hrun : match runStart with
      | none => cur ≤ st
      | some r => r + runLen = cur ∧ r ≤ st ∧ runLen < max 1 needed) :
    ∃ start, findFreeRunLoop bitmap needed (List.range' cur m) runStart runLen = .ok start := by
  induction m generalizing cur runStart runLen with
  | zero =>
    cases runStart with
    | none => dsimp only at hrun; omega
    | some r => dsimp only at hrun; omega
  | succ m ih =>
    have hcur : cur < st + max 1 needed := by
      cases runStart with
      | none => dsimp only at hrun; omega
      | some r => dsimp only at hrun; omega
    have hused : bitmapIsUsed bitmap cur = .ok (Bitmap.getBit bitmap.byte cur) :=
      if_pos (hin cur hcur)
    rw [List.range'_succ, findFreeRunLoop, hused, ok_bind]
    cases hbit : Bitmap.getBit bitmap.byte cur with
    | true =>
      refine ih (by omega) ?_
      -- the run that exists has not begun yet
      by_contra hle
      have := (hfree cur (by omega) hcur).2
      rw [hbit] at this
      exact Bool.noConfusion this
    | false =>
      rw [if_neg Bool.false_ne_true]
      dsimp only
      split_ifs with hnone hdone hdone
      · exact ⟨_, rfl⟩
      · refine ih (by omega) ?_
        cases runStart with
        | none => exact ⟨rfl, hrun, by omega⟩
        | some r => exact absurd hnone Bool.false_ne_true
      · exact ⟨_, rfl⟩
      · refine ih (by omega) ?_
        cases runStart with
        | none => exact absurd rfl hnone
        | some r =>
          rw [Option.getD_some]
          exact ⟨by omega, hrun.2.1, by omega⟩

/-- **A run is found** if there is one inside the bitmap. -/
theorem exists_findFreeRun {st : ℕ} (hst : st + max 1 needed ≤ hfs.totalBlocks)
    (hin : st + max 1 needed ≤ 8 * bitmap.size) (hfree : FreeFrom bitmap st (st + max 1 needed)) :
    ∃ start, findFreeRun hfs bitmap needed = .ok start := by
  rw [findFreeRun, List.range_eq_range']
  exact exists_findFreeRunLoop (fun b hb ↦ by omega) (by omega) hfree (Nat.zero_le st)

theorem findFreeRunLoop_least {cur m : ℕ} {runStart : Option ℕ} {runLen start : ℕ}
    (hrun : ∀ r, runStart = some r → r + runLen = cur ∧ runLen < max 1 needed)
    (hbefore : ∀ s < runStart.getD cur, ¬FreeFrom bitmap s (s + max 1 needed))
    (h : findFreeRunLoop bitmap needed (List.range' cur m) runStart runLen = .ok start) :
    ∀ s < start, ¬FreeFrom bitmap s (s + max 1 needed) := by
  induction m generalizing cur runStart runLen with
  | zero => cases h
  | succ m ih =>
    obtain ⟨used, hused, h⟩ := bind_eq_ok.mp h
    rw [bitmapIsUsed] at hused
    split_ifs at hused with hin
    obtain rfl := Except.ok.inj hused
    by_cases hmarked : Bitmap.getBit bitmap.byte cur = true
    · rw [if_pos hmarked] at h
      refine @ih _ none _ (fun r hr ↦ absurd hr (Option.some_ne_none r).symm) ?_ h
      intro s hs hfree
      by_cases hearly : s < runStart.getD cur
      · exact hbefore s hearly hfree
      · -- a run from the current one's blocks on would have this block
        have hcur : cur < s + max 1 needed := by
          cases runStart with
          | none =>
            rw [Option.getD_none] at hearly
            omega
          | some r =>
            obtain ⟨hend, hlen⟩ := hrun r rfl
            rw [Option.getD_some] at hearly
            omega
        rw [Option.getD_none] at hs
        have hclear := (hfree cur (by omega) hcur).2
        rw [hmarked] at hclear
        exact Bool.noConfusion hclear
    · rw [if_neg hmarked] at h
      dsimp only at h
      split_ifs at h with hnone hdone hdone
      · obtain rfl := Except.ok.inj h
        exact hbefore
      · refine @ih (cur + 1) (some (runStart.getD cur)) _ ?_ hbefore h
        cases runStart with
        | none =>
          rintro r hr
          obtain rfl := Option.some_inj.mp hr
          exact ⟨rfl, by omega⟩
        | some r => exact absurd hnone Bool.false_ne_true
      · obtain rfl := Except.ok.inj h
        exact hbefore
      · refine @ih (cur + 1) (some (runStart.getD cur)) _ ?_ hbefore h
        cases runStart with
        | none => exact absurd rfl hnone
        | some r =>
          obtain ⟨hend, hlen⟩ := hrun r rfl
          rintro r' hr'
          obtain rfl := Option.some_inj.mp hr'
          exact ⟨by rw [Option.getD_some]; omega, by omega⟩

theorem findFreeRun_least (h : findFreeRun hfs bitmap needed = .ok start) :
    ∀ s < start, ¬FreeFrom bitmap s (s + max 1 needed) := by
  rw [findFreeRun, List.range_eq_range'] at h
  exact @findFreeRunLoop_least _ _ _ _ none _ _ (fun r hr ↦ absurd hr (Option.some_ne_none r).symm)
    (fun s hs ↦ absurd hs (Nat.not_lt_zero s)) h

/-- The blocks from `start` on are blocks of the volume, and the bits for them are clear; the first
block of a byte is its most significant bit. -/
def IsFreeRun (hfs : HFSPlusImage) (bitmap : Buf) (n start : ℕ) : Prop :=
  ∀ b, start ≤ b → b < start + n →
    b < hfs.totalBlocks ∧ (bitmap.byte (b / 8)).toNat.testBit (7 - b % 8) = false

theorem isFreeRun_iff {n : ℕ} (hcovers : hfs.totalBlocks ≤ 8 * bitmap.size) (hn : 1 ≤ n) :
    IsFreeRun hfs bitmap n start ↔
      start + n ≤ hfs.totalBlocks ∧ FreeFrom bitmap start (start + n) := by
  constructor
  · intro h
    have hlast := (h (start + n - 1) (by omega) (by omega)).1
    refine ⟨by omega, fun b hle hlt ↦ ?_⟩
    obtain ⟨hin, hclear⟩ := h b hle hlt
    exact ⟨by omega, (Bitmap.getBit_eq_testBit _ _).trans hclear⟩
  · rintro ⟨hend, hfree⟩ b hle hlt
    exact ⟨by omega, (Bitmap.getBit_eq_testBit _ _).symm.trans (hfree b hle hlt).2⟩

/-- **First fit.** For every bitmap that has a bit for each block, and every number of blocks: the
search returns the least start of a free run, and fails exactly if there is none. -/
theorem free_run_first_fit {hfs : HFSPlusImage} {n : ℕ}
    (hcovers : hfs.totalBlocks ≤ 8 * bitmap.size) (hn : 1 ≤ n) :
    (∀ start, findFreeRun hfs bitmap n = .ok start ↔
        IsLeast {s | IsFreeRun hfs bitmap n s} start) ∧
      ((∃ e, findFreeRun hfs bitmap n = .error e) ↔ ¬∃ s, IsFreeRun hfs bitmap n s) := by
  have hmax : max 1 n = n := max_eq_right hn
  have hleast : ∀ start, findFreeRun hfs bitmap n = .ok start →
      IsLeast {s | IsFreeRun hfs bitmap n s} start := by
    intro start h
    have hfree := findFreeRun_free h
    have hbefore := findFreeRun_least h
    rw [hmax] at hfree hbefore
    refine ⟨(isFreeRun_iff hcovers hn).mpr hfree, fun s hs ↦ ?_⟩
    by_contra hlt
    exact hbefore s (Nat.lt_of_not_le hlt) ((isFreeRun_iff hcovers hn).mp hs).2
  have hfinds : ∀ s, IsFreeRun hfs bitmap n s → ∃ start, findFreeRun hfs bitmap n = .ok start := by
    intro s hs
    obtain ⟨hend, hfree⟩ := (isFreeRun_iff hcovers hn).mp hs
    rw [← hmax] at hend hfree
    exact exists_findFreeRun hend (hend.trans hcovers) hfree
  constructor
  · intro start
    refine ⟨hleast start, fun h ↦ ?_⟩
    obtain ⟨start', hfound⟩ := hfinds start h.1
    rw [hfound, (hleast start' hfound).unique h]
  · constructor
    · rintro ⟨e, he⟩ ⟨s, hs⟩
      obtain ⟨start, hfound⟩ := hfinds s hs
      rw [hfound] at he
      cases he
    · intro hnone
      cases hsearch : findFreeRun hfs bitmap n with
      | error e => exact ⟨e, rfl⟩
      | ok start => exact absurd ⟨start, (hleast start hsearch).1⟩ hnone

/-- A volume of twelve blocks. -/
def twelveBlocks : HFSPlusImage where
  blockSize := 4096
  totalBlocks := 12
  freeBlocks := 7
  allocation := ⟨2, [(1, 1)]⟩
  catalog := ⟨0, []⟩
  nodeSize := 4096
  firstLeaf := 0
  lastLeaf := 0
  totalNodes := 0

/-- The block 7 and those behind it are free, and the run crosses the end of a byte. -/
theorem free_run_first_fit_twelveBlocks :
    12 ≤ 8 * (Buf.ofList [0xba, 0x0f]).size ∧
      IsLeast {s | IsFreeRun twelveBlocks (Buf.ofList [0xba, 0x0f]) 3 s} 7 := by
  refine ⟨by decide, ((free_run_first_fit (n := 3) (by decide) (by decide)).1 7).mp ?_⟩
  decide

end FreeRun

/-- **Marking the blocks of a list**, or removing the marks. -/
theorem bitmapSetAll_eq (bitmap : Buf) (bl : List ℕ) (v : Bool)
    (hin : ∀ b ∈ bl, b / 8 < bitmap.size) :
    ∃ bitmap', bitmapSetAll bitmap bl v = .ok bitmap' ∧ bitmap'.size = bitmap.size ∧
      ∀ b, Bitmap.getBit bitmap'.byte b = if b ∈ bl then v else Bitmap.getBit bitmap.byte b := by
  induction bl generalizing bitmap with
  | nil => exact ⟨bitmap, rfl, rfl, fun b ↦ (if_neg List.not_mem_nil).symm⟩
  | cons a bl ih =>
    rw [List.forall_mem_cons] at hin
    obtain ⟨bitmap', hset, hsize, hbit⟩ :=
      ih { bitmap with byte := Bitmap.setBit bitmap.byte a v } hin.2
    refine ⟨bitmap', ?_, hsize, fun b ↦ ?_⟩
    · rw [bitmapSetAll, List.foldlM_cons, bitmapSetUsed, if_pos hin.1, ok_bind]
      exact hset
    · rw [hbit, Bitmap.getBit_setBit]
      by_cases hb : b ∈ bl
      · rw [if_pos hb, if_pos (List.mem_cons_of_mem a hb)]
      · rw [if_neg hb]
        by_cases hba : b = a
        · rw [if_pos hba, hba, if_pos List.mem_cons_self]
        · rw [if_neg hba, if_neg]
          rw [List.mem_cons, not_or]
          exact ⟨hba, hb⟩

/-! ## Reserving blocks -/

theorem getBit_congr {b b' : ℕ → UInt8} {i : ℕ} (h : b (i / 8) = b' (i / 8)) :
    Bitmap.getBit b i = Bitmap.getBit b' i := by
  rw [Bitmap.getBit, Bitmap.getBit, h]

theorem lt_of_marked {b : ℕ} (h : (contents hfs img).Marked b) : b / 8 < hfs.allocation.size := by
  by_contra hout
  have hzero : (contents hfs img).bitmap (b / 8) = (0 : ℕ → UInt8) (b / 8) :=
    overlay_of_le (Nat.not_lt.mp hout)
  rw [Contents.Marked, getBit_congr hzero, Bitmap.getBit, decide_eq_true_eq, Pi.zero_apply,
    UInt8.zero_and] at h
  exact h rfl

/-- There are `n` blocks in a row, and at least one, that are in the bitmap and not marked. -/
def Contents.FreeRun (hfs : HFSPlusImage) (c : Contents) (n : ℕ) : Prop :=
  ∃ start, start + max 1 n ≤ hfs.totalBlocks ∧ start + max 1 n ≤ 8 * hfs.allocation.size ∧
    ∀ b, start ≤ b → b < start + max 1 n → ¬c.Marked b

/-- **When the search finds a run.** -/
theorem exists_findFreeRun_iff {needed : ℕ}
    (hshows : Shows bitmap hfs.allocation.size (contents hfs img).bitmap) :
    (∃ start, findFreeRun hfs bitmap needed = .ok start) ↔
      (contents hfs img).FreeRun hfs needed := by
  constructor
  · rintro ⟨start, hfound⟩
    obtain ⟨hle, hfree⟩ := findFreeRun_free hfound
    refine ⟨start, hle, ?_, fun b hb hlt ↦ ?_⟩
    · have := (hfree (start + max 1 needed - 1) (by omega) (by omega)).1
      rw [hshows.size] at this
      omega
    · obtain ⟨hin, hclear⟩ := hfree b hb hlt
      rw [hshows.size] at hin
      rw [getBit_congr (hshows.byte _ hin)] at hclear
      rw [Contents.Marked, hclear]
      exact Bool.false_ne_true
  · rintro ⟨start, hle, hin, hfree⟩
    refine exists_findFreeRun hle (by rw [hshows.size]; exact hin) fun b hb hlt ↦ ?_
    have hb8 : b / 8 < hfs.allocation.size := by omega
    refine ⟨hshows.size ▸ hb8, ?_⟩
    rw [getBit_congr (hshows.byte _ hb8)]
    exact Bool.eq_false_iff.mpr (hfree b hb hlt)

/-- The bitmap `bm` is that of the contents, with the blocks of a free run marked and the marks of
the blocks `old` removed. -/
structure Reserves (hfs : HFSPlusImage) (c : Contents) (old : List ℕ) (needed start : ℕ)
    (bm : ℕ → UInt8) : Prop where
  free : ∀ b ∈ List.range' start needed, b < hfs.totalBlocks ∧ ¬c.Marked b
  tail : ∀ k, hfs.allocation.size ≤ k → bm k = c.bitmap k
  bit : ∀ b, Bitmap.getBit bm b = if b ∈ old then false
    else if b ∈ List.range' start needed then true else Bitmap.getBit c.bitmap b

/-- Marking the run that is found and removing the marks of `old`. -/
theorem reserves_of_bits (bitmap' : Buf) {old : List ℕ} {needed : ℕ}
    (hshows : Shows bitmap hfs.allocation.size (contents hfs img).bitmap)
    (hfound : findFreeRun hfs bitmap needed = .ok start)
    (hold : ∀ b ∈ old, (contents hfs img).Marked b)
    (hbit : ∀ b, Bitmap.getBit bitmap'.byte b = if b ∈ old then false
      else if b ∈ List.range' start needed then true else Bitmap.getBit bitmap.byte b) :
    Reserves hfs (contents hfs img) old needed start
      (overlay hfs.allocation.size bitmap'.byte (contents hfs img).bitmap) := by
  obtain ⟨hle, hfree⟩ := findFreeRun_free hfound
  have hrun : ∀ b ∈ List.range' start needed, b / 8 < hfs.allocation.size ∧
      ¬(contents hfs img).Marked b := by
    intro b hb
    rw [List.mem_range'_1] at hb
    obtain ⟨hin, hclear⟩ := hfree b hb.1 (by omega)
    rw [hshows.size] at hin
    rw [getBit_congr (hshows.byte _ hin)] at hclear
    refine ⟨hin, ?_⟩
    rw [Contents.Marked, hclear]
    exact Bool.false_ne_true
  refine ⟨fun b hb ↦ ⟨?_, (hrun b hb).2⟩, fun k hk ↦ overlay_of_le hk, fun b ↦ ?_⟩
  · rw [List.mem_range'_1] at hb
    omega
  · by_cases hin : b / 8 < hfs.allocation.size
    · rw [getBit_congr (overlay_of_lt hin), hbit, getBit_congr (hshows.byte _ hin)]
    · rw [getBit_congr (overlay_of_le (Nat.not_lt.mp hin)),
        if_neg fun hb ↦ hin (lt_of_marked (hold b hb)), if_neg fun hb ↦ hin (hrun b hb).1]

/-! ## Writing the bitmap -/

/-- The volume header `vh` is that of the contents, with another number of free blocks. -/
structure HeaderPut (c : Contents) (vh : Buf) (free : ℕ) : Prop where
  size : vh.size = 512
  kept : ∀ k < 512, k < 48 ∨ 52 ≤ k → vh.byte k = c.header k
  free : (CaribeOS.be32 vh.byte 48).toNat = free

/-- A number of free blocks that is none of 32 bits is not written. -/
theorem writeAllocationBitmapAndHeader_error {free : ℤ} (hfree : ¬(0 ≤ free ∧ free < 4294967296)) :
    writeAllocationBitmapAndHeader hfs bitmap free img = (.error .structError, []) := by
  refine Script.ask_bind_of_error ?_
  rw [putBe32, packInto, if_neg (by norm_num only; exact hfree)]

/-- **`write_allocation_bitmap_and_header`** fails before its first write, if the number of free
blocks is none of 32 bits, or it succeeds. -/
theorem Sound.writeAllocationBitmapAndHeader_run (s : Sound img hfs)
    (hsize : bitmap.size = hfs.allocation.size) (free : ℤ) :
    ((∃ e, writeAllocationBitmapAndHeader hfs bitmap free img = (.error e, [])) ∧
        ¬(0 ≤ free ∧ free < 4294967296)) ∨
      ∃ vh bws, writeAllocationBitmapAndHeader hfs bitmap free img = (.ok (), ⟨1024, vh⟩ :: bws) ∧
        HeaderPut (contents hfs img) vh free.toNat ∧ 0 ≤ free ∧ free < 4294967296 ∧
        PutsInOrder hfs.blockSize (bitmapBlocks hfs) 0 bitmap.byte hfs.allocation.size bws := by
  have hbs := s.blockSize_pos
  have hvh : (img.slice 1024 512).size = 512 := Buf.size_slice _ (by have := s.header; omega)
  by_cases hfree : 0 ≤ free ∧ free < 4294967296
  · right
    obtain ⟨v, rfl⟩ := Int.eq_ofNat_of_zero_le hfree.1
    have hv : v < 4294967296 := by exact_mod_cast hfree.2
    have hput : putBe32 (img.slice 1024 512) 48 (v : ℤ)
        = .ok (stored (img.slice 1024 512) 48 4 v) :=
      putBe32_of_le (show (48 : ℤ) = (48 : ℕ) from rfl) rfl hv (by omega)
    obtain ⟨bws, hrun, hputs⟩ := writeFork_puts hbs hfs.allocation 0 bitmap
      fun k hk ↦ by
        have hcov := s.bitmap_covers
        rw [Nat.div_lt_iff_lt_mul hbs]
        change _ < (bitmapBlocks hfs).length * _
        omega
    rw [hsize] at hputs
    refine ⟨stored (img.slice 1024 512) 48 4 v, bws, ?_, ⟨hvh, fun k hk hne ↦ ?_, ?_⟩, hfree.1,
      hfree.2, hputs⟩
    · rw [writeAllocationBitmapAndHeader,
        Script.ask_bind_of_ok (q := fun img ↦ putBe32 (img.slice 1024 512) 48 (v : ℤ)) hput,
        Script.bind_of_ok (Script.put_apply _ _ _), hrun]
      rfl
    · rw [contents]
      dsimp only
      rw [overlay_of_lt hk]
      exact putBytes_of_notMem (by omega)
    · exact be32_putBytes hv
  · exact Or.inl ⟨⟨.structError, writeAllocationBitmapAndHeader_error hfree⟩, hfree⟩

end CaribeOS.HfsScript
