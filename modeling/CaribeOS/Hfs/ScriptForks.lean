import CaribeOS.Hfs.UpdateScript

/-!
# Buffers and forks of the scripts

What the functions of the scripts on buffers and forks do, where they do not raise. A number that is
stored in a buffer is read back, and the other bytes stay (`putBytes`). `read_fork` delivers the bytes
of a fork (`readFork_eq`), and the writes of `write_fork` put the bytes of a buffer to the addresses
of the fork, in the order of the buffer (`Puts`); so does what a run that is cut short has written of
it (`PutsInOrder`).
-/

namespace CaribeOS

/-! ## Big-endian numbers as sums -/

variable {k o bs off : ℕ} {b b' bytes : ℕ → UInt8} {bl : List ℕ}

variable {x i len p : ℕ} {buf : Buf} {bytes' : ℕ → UInt8} {ws : List Write}

theorem or_eq_add_of_dvd {y : ℕ} (hx : 2 ^ k ∣ x) (hy : y < 2 ^ k) : x ||| y = x + y := by
  obtain ⟨a, rfl⟩ := hx
  exact (Nat.two_pow_add_eq_or_of_lt hy a).symm

theorem toNat_be16 (b : ℕ → UInt8) (o : ℕ) :
    (be16 b o).toNat = (b o).toNat * 256 + (b (o + 1)).toNat := by
  have h0 := (b o).toNat_lt
  have h1 := (b (o + 1)).toNat_lt
  rw [be16, UInt16.toNat_or, UInt16.toNat_shiftLeft, UInt8.toNat_toUInt16, UInt8.toNat_toUInt16]
  change (b o).toNat <<< 8 % 65536 ||| _ = _
  rw [Nat.shiftLeft_eq, Nat.mod_eq_of_lt (by omega), or_eq_add_of_dvd (Nat.dvd_mul_left _ _) h1,
    show 2 ^ 8 = 256 from rfl]

theorem toNat_be32 (b : ℕ → UInt8) (o : ℕ) :
    (be32 b o).toNat = (b o).toNat * 16777216 + (b (o + 1)).toNat * 65536 +
      (b (o + 2)).toNat * 256 + (b (o + 3)).toNat := by
  have h0 := (b o).toNat_lt
  have h1 := (b (o + 1)).toNat_lt
  have h2 := (b (o + 2)).toNat_lt
  have h3 := (b (o + 3)).toNat_lt
  rw [be32, UInt32.toNat_or, UInt32.toNat_or, UInt32.toNat_or, UInt32.toNat_shiftLeft,
    UInt32.toNat_shiftLeft, UInt32.toNat_shiftLeft, UInt8.toNat_toUInt32, UInt8.toNat_toUInt32,
    UInt8.toNat_toUInt32, UInt8.toNat_toUInt32]
  change (((b o).toNat <<< 24 % 4294967296 ||| (b (o + 1)).toNat <<< 16 % 4294967296) |||
    (b (o + 2)).toNat <<< 8 % 4294967296) ||| _ = _
  rw [Nat.shiftLeft_eq, Nat.shiftLeft_eq, Nat.shiftLeft_eq, Nat.mod_eq_of_lt (by omega),
    Nat.mod_eq_of_lt (by omega), Nat.mod_eq_of_lt (by omega)]
  have hfirst : (b o).toNat * 2 ^ 24 ||| (b (o + 1)).toNat * 2 ^ 16
      = (b o).toNat * 2 ^ 24 + (b (o + 1)).toNat * 2 ^ 16 :=
    or_eq_add_of_dvd (k := 24) (by omega) (by omega)
  have hsecond : (b o).toNat * 2 ^ 24 + (b (o + 1)).toNat * 2 ^ 16 ||| (b (o + 2)).toNat * 2 ^ 8
      = (b o).toNat * 2 ^ 24 + (b (o + 1)).toNat * 2 ^ 16 + (b (o + 2)).toNat * 2 ^ 8 :=
    or_eq_add_of_dvd (k := 16) (by omega) (by omega)
  rw [hfirst, hsecond, or_eq_add_of_dvd (k := 8) (by omega) (by omega)]
  omega

theorem byte_eq_of_be32_eq (h : (be32 b o).toNat = (be32 b' o).toNat) (hle : o ≤ k)
    (hlt : k < o + 4) : b k = b' k := by
  rw [toNat_be32, toNat_be32] at h
  have hbyte : ∀ j, (b (o + j)).toNat < 256 ∧ (b' (o + j)).toNat < 256 :=
    fun j ↦ ⟨UInt8.toNat_lt _, UInt8.toNat_lt _⟩
  have h1 := hbyte 1
  have h2 := hbyte 2
  have h3 := hbyte 3
  obtain rfl | rfl | rfl | rfl : k = o ∨ k = o + 1 ∨ k = o + 2 ∨ k = o + 3 := by omega
  all_goals
    rw [← UInt8.toNat_inj]
    omega

theorem toNat_be64 (b : ℕ → UInt8) (o : ℕ) :
    (be64 b o).toNat = (be32 b o).toNat * 4294967296 + (be32 b (o + 4)).toNat := by
  have h0 := (be32 b o).toNat_lt
  have h1 := (be32 b (o + 4)).toNat_lt
  rw [be64, UInt64.toNat_or, UInt64.toNat_shiftLeft, UInt32.toNat_toUInt64, UInt32.toNat_toUInt64]
  change (be32 b o).toNat <<< 32 % 18446744073709551616 ||| _ = _
  rw [Nat.shiftLeft_eq, Nat.mod_eq_of_lt (by omega), or_eq_add_of_dvd (Nat.dvd_mul_left _ _) h1,
    show 2 ^ 32 = 4294967296 from rfl]

namespace HfsScript

open FileScript Extents

/-! ## Numbers in buffers -/

section Numbers

variable {buf : Buf} {off value : ℤ} {o n v : ℕ}

theorem locate_of_le (hoff : off = o) (h : o + n ≤ buf.size) : locate buf off n = .ok o := by
  subst hoff
  rw [locate, if_pos (Int.natCast_nonneg o), Int.toNat_natCast, if_pos h]

theorem be16_of_le (hoff : off = o) (h : o + 2 ≤ buf.size) :
    be16 buf off = .ok (CaribeOS.be16 buf.byte o).toNat := by
  rw [be16, locate_of_le hoff h]
  rfl

theorem be32_of_le (hoff : off = o) (h : o + 4 ≤ buf.size) :
    be32 buf off = .ok (CaribeOS.be32 buf.byte o).toNat := by
  rw [be32, locate_of_le hoff h]
  rfl

theorem be64_of_le (hoff : off = o) (h : o + 8 ≤ buf.size) :
    be64 buf off = .ok (CaribeOS.be64 buf.byte o).toNat := by
  rw [be64, locate_of_le hoff h]
  rfl

theorem le_of_locate (hoff : off = o) (h : locate buf off n = .ok p) :
    p = o ∧ o + n ≤ buf.size := by
  subst hoff
  rw [locate, if_pos (Int.natCast_nonneg o), Int.toNat_natCast] at h
  split_ifs at h with hle
  exact ⟨(Except.ok.inj h).symm, hle⟩

theorem of_be16_eq_ok (hoff : off = o) (h : be16 buf off = .ok v) :
    v = (CaribeOS.be16 buf.byte o).toNat ∧ o + 2 ≤ buf.size := by
  rw [be16] at h
  cases hloc : locate buf off 2 with
  | error e => rw [hloc] at h; cases h
  | ok p =>
    obtain ⟨rfl, hle⟩ := le_of_locate hoff hloc
    rw [hloc] at h
    exact ⟨(Except.ok.inj h).symm, hle⟩

theorem of_be32_eq_ok (hoff : off = o) (h : be32 buf off = .ok v) :
    v = (CaribeOS.be32 buf.byte o).toNat ∧ o + 4 ≤ buf.size := by
  rw [be32] at h
  cases hloc : locate buf off 4 with
  | error e => rw [hloc] at h; cases h
  | ok p =>
    obtain ⟨rfl, hle⟩ := le_of_locate hoff hloc
    rw [hloc] at h
    exact ⟨(Except.ok.inj h).symm, hle⟩

/-- The buffer with `value` stored at `o`. -/
def stored (buf : Buf) (o n value : ℕ) : Buf := { buf with byte := putBytes buf.byte o n value }

@[simp] theorem size_stored (buf : Buf) (o n v : ℕ) : (stored buf o n v).size = buf.size := rfl

theorem packInto_of_le (hoff : off = o) (hvalue : value = v) (hv : v < 256 ^ n)
    (h : o + n ≤ buf.size) : packInto n buf off value = .ok (stored buf o n v) := by
  subst hvalue
  rw [packInto, if_pos ⟨Int.natCast_nonneg v, by exact_mod_cast hv⟩, locate_of_le hoff h,
    Int.toNat_natCast]
  rfl

theorem putBe16_of_le (hoff : off = o) (hvalue : value = v) (hv : v < 65536)
    (h : o + 2 ≤ buf.size) : putBe16 buf off value = .ok (stored buf o 2 v) :=
  packInto_of_le hoff hvalue (hv.trans_eq (by norm_num)) h

theorem putBe32_of_le (hoff : off = o) (hvalue : value = v) (hv : v < 4294967296)
    (h : o + 4 ≤ buf.size) : putBe32 buf off value = .ok (stored buf o 4 v) :=
  packInto_of_le hoff hvalue (hv.trans_eq (by norm_num)) h

theorem putBe64_of_le (hoff : off = o) (hvalue : value = v) (hv : v < 18446744073709551616)
    (h : o + 8 ≤ buf.size) : putBe64 buf off value = .ok (stored buf o 8 v) :=
  packInto_of_le hoff hvalue (hv.trans_eq (by norm_num)) h

theorem value_of_packInto {buf' : Buf} (h : packInto n buf off value = .ok buf') :
    0 ≤ value ∧ value < 256 ^ n := by
  rw [packInto] at h
  split_ifs at h with hfit
  exact hfit

theorem putBytes_of_notMem (h : k < o ∨ o + n ≤ k) : putBytes b o n v k = b k := by
  rw [putBytes, if_neg (by omega)]

theorem toNat_putBytes (hk : k < n) :
    (putBytes b o n v (o + k)).toNat = v / 256 ^ (n - 1 - k) % 256 := by
  rw [putBytes, if_pos (by omega), UInt8.toNat_ofNat', show o + n - 1 - (o + k) = n - 1 - k by omega]

theorem be16_putBytes (hv : v < 65536) : (CaribeOS.be16 (putBytes b o 2 v) o).toNat = v := by
  have h0 := toNat_putBytes (b := b) (o := o) (v := v) (n := 2) (k := 0) (by decide)
  have h1 := toNat_putBytes (b := b) (o := o) (v := v) (n := 2) (k := 1) (by decide)
  rw [toNat_be16, h1]
  rw [Nat.add_zero] at h0
  omega

theorem be32_putBytes (hv : v < 4294967296) : (CaribeOS.be32 (putBytes b o 4 v) o).toNat = v := by
  have h0 := toNat_putBytes (b := b) (o := o) (v := v) (n := 4) (k := 0) (by decide)
  have h1 := toNat_putBytes (b := b) (o := o) (v := v) (n := 4) (k := 1) (by decide)
  have h2 := toNat_putBytes (b := b) (o := o) (v := v) (n := 4) (k := 2) (by decide)
  have h3 := toNat_putBytes (b := b) (o := o) (v := v) (n := 4) (k := 3) (by decide)
  rw [Nat.add_zero] at h0
  rw [toNat_be32, h0, h1, h2, h3]
  omega

theorem be64_putBytes (hv : v < 18446744073709551616) :
    (CaribeOS.be64 (putBytes b o 8 v) o).toNat = v := by
  have hbyte : ∀ k < 8, (putBytes b o 8 v (o + k)).toNat = v / 256 ^ (8 - 1 - k) % 256 :=
    fun k hk ↦ toNat_putBytes hk
  have h0 := hbyte 0 (by decide)
  rw [Nat.add_zero] at h0
  rw [toNat_be64, toNat_be32, toNat_be32]
  simp only [Nat.add_assoc, Nat.reduceAdd]
  rw [h0, hbyte 1 (by decide), hbyte 2 (by decide), hbyte 3 (by decide), hbyte 4 (by decide),
    hbyte 5 (by decide), hbyte 6 (by decide), hbyte 7 (by decide)]
  norm_num only
  omega

theorem be32_putBytes_of_disjoint (h : p + 4 ≤ o ∨ o + n ≤ p) :
    CaribeOS.be32 (putBytes b o n v) p = CaribeOS.be32 b p :=
  be32_congr fun k _ _ ↦ putBytes_of_notMem (by omega)

end Numbers

/-! ## Reading -/

/-- The bytes of a fork with the blocks `bl`. -/
def bytesOf (bs : ℕ) (bl : List ℕ) (img : Buf) (x : ℕ) : UInt8 :=
  ((byteAt bs bl x).map img.byte).getD 0

theorem bytesOf_eq {img : Buf} {a : ℕ} (h : byteAt bs bl x = some a) :
    bytesOf bs bl img x = img.byte a := by
  rw [bytesOf, h]
  rfl

/-- Extent `i` of those at offset `o`. -/
def extentAt (b : ℕ → UInt8) (o i : ℕ) : ℕ × ℕ :=
  ((CaribeOS.be32 b (o + i * 8)).toNat, (CaribeOS.be32 b (o + 4 + i * 8)).toNat)

/-- The eight extents at offset `o`. -/
def extentsAt (b : ℕ → UInt8) (o : ℕ) : List (ℕ × ℕ) := (List.range 8).map (extentAt b o)

theorem extentAt_congr (h : ∀ k, o + i * 8 ≤ k → k < o + i * 8 + 8 → b k = b' k) :
    extentAt b o i = extentAt b' o i := by
  rw [extentAt, extentAt, be32_congr fun k hle hlt ↦ h k hle (by omega),
    be32_congr fun k hle hlt ↦ h k (by omega) (by omega)]

theorem extentsAt_congr (h : ∀ k, o ≤ k → k < o + 64 → b k = b' k) :
    extentsAt b o = extentsAt b' o := by
  refine List.map_congr_left fun i hi ↦ extentAt_congr fun k hle hlt ↦ ?_
  rw [List.mem_range] at hi
  exact h k (by omega) (by omega)

/-- The fork described at offset `o`. -/
def forkAt (b : ℕ → UInt8) (o : ℕ) : Fork :=
  ⟨(CaribeOS.be64 b o).toNat, (extentsAt b (o + 16)).filter (·.2 ≠ 0)⟩

theorem forkFrom_eq {off : ℤ} (hoff : off = o) (h : o + 80 ≤ buf.size) :
    forkFrom buf off = .ok (forkAt buf.byte o) := by
  have hextents : ((List.range 8).mapM fun (i : ℕ) ↦ do
      let start ← be32 buf (off + 16 + i * 8)
      let count ← be32 buf (off + 20 + i * 8)
      pure (start, count)) = Except.ok (extentsAt buf.byte (o + 16)) := by
    refine mapM_eq_ok fun i hi ↦ ?_
    rw [List.mem_range] at hi
    rw [be32_of_le (o := o + 16 + i * 8) (by rw [hoff]; push_cast; ring) (by omega), ok_bind,
      be32_of_le (o := o + 16 + 4 + i * 8) (by rw [hoff]; push_cast; ring) (by omega), ok_bind]
    rfl
  rw [forkFrom, be64_of_le hoff (by omega), ok_bind, hextents, ok_bind]
  rfl

section Read

variable {bs : ℕ} {fork : Fork} {img : Buf}

theorem readForkLoop_eq (hbs : 0 < bs) {fuel off size : ℕ} (out : Buf) (hfuel : size ≤ fuel)
    (hin : ∀ k < size, ∃ a < img.size, byteAt bs (blocks fork.extents) (off + k) = some a) :
    ∃ buf, readForkLoop bs fork img fuel off size out = .ok buf ∧ buf.size = out.size + size ∧
      (∀ k < out.size, buf.byte k = out.byte k) ∧
      ∀ k < size, buf.byte (out.size + k) = bytesOf bs (blocks fork.extents) img (off + k) := by
  induction fuel generalizing off size out with
  | zero => exact ⟨out, rfl, by omega, fun _ _ ↦ rfl, fun k hk ↦ by omega⟩
  | succ fuel ih =>
    rw [readForkLoop]
    by_cases hsize : size = 0
    · rw [if_pos hsize]
      exact ⟨out, rfl, by omega, fun _ _ ↦ rfl, fun k hk ↦ by omega⟩
    rw [if_neg hsize, if_neg hbs.ne']
    dsimp only
    rw [blockAt_eq]
    have hmod := Nat.mod_lt off hbs
    generalize hchunk : min size (bs - off % bs) = chunk
    have hpos : 0 < chunk := by omega
    have hstep : ∀ k < chunk, byteAt bs (blocks fork.extents) (off + k)
        = (blocks fork.extents)[off / bs]?.map fun p ↦ p * bs + off % bs + k :=
      fun k hk ↦ byteAt_add (by omega)
    cases hblock : (blocks fork.extents)[off / bs]? with
    | none =>
      obtain ⟨a, -, ha⟩ := hin 0 (by omega)
      rw [hstep 0 hpos, hblock] at ha
      exact absurd ha (by simp)
    | some p =>
      rw [hblock] at hstep
      obtain ⟨a, halt, ha⟩ := hin (chunk - 1) (by omega)
      rw [hstep _ (by omega), Option.map_some, Option.some_inj] at ha
      have hslice : (img.slice (p * bs + off % bs) chunk).size = chunk :=
        Buf.size_slice _ (by omega)
      obtain ⟨buf, hbuf, hsz, hold, hnew⟩ := @ih (off + chunk) (size - chunk)
        (out.append (img.slice (p * bs + off % bs) chunk)) (by omega) fun k hk ↦ by
          rw [Nat.add_assoc]
          exact hin (chunk + k) (by omega)
      have happend : (out.append (img.slice (p * bs + off % bs) chunk)).size
          = out.size + chunk := by rw [Buf.append, hslice]
      rw [happend] at hsz hold hnew
      refine ⟨buf, hbuf, by omega, fun k hk ↦ ?_, fun k hk ↦ ?_⟩
      · rw [hold k (by omega), Buf.append]
        exact if_pos hk
      · rcases Nat.lt_or_ge k chunk with hlt | hge
        · rw [hold _ (by omega), bytesOf_eq (hstep k hlt), Buf.append]
          dsimp only
          rw [if_neg (by omega), Nat.add_sub_cancel_left]
          rfl
        · have := hnew (k - chunk) (by omega)
          rwa [Nat.add_assoc, Nat.add_sub_of_le hge, Nat.add_assoc, Nat.add_sub_of_le hge] at this

/-- **Reading a fork** gives its bytes. -/
theorem readFork_eq (hbs : 0 < bs) (fork : Fork) (img : Buf) (off size : ℕ)
    (hin : ∀ k < size, ∃ a < img.size, byteAt bs (blocks fork.extents) (off + k) = some a) :
    ∃ buf, readFork bs fork img off size = .ok buf ∧ buf.size = size ∧
      ∀ k < size, buf.byte k = bytesOf bs (blocks fork.extents) img (off + k) := by
  obtain ⟨buf, hbuf, hsize, -, hbyte⟩ := readForkLoop_eq hbs (Buf.zeros 0) (le_refl size) hin
  refine ⟨buf, hbuf, hsize.trans (Nat.zero_add size), fun k hk ↦ ?_⟩
  rw [← hbyte k hk]
  exact congrArg _ (Nat.zero_add k).symm

theorem covered_of_readForkLoop {fuel size : ℕ} {out : Buf} (hfuel : size ≤ fuel)
    (h : readForkLoop bs fork img fuel off size out = .ok buf) :
    ∀ k < size, 0 < bs ∧ (off + k) / bs < (blocks fork.extents).length := by
  induction fuel generalizing off size out with
  | zero => exact fun k hk ↦ by omega
  | succ fuel ih =>
    intro k hk
    rw [readForkLoop, if_neg (by omega)] at h
    by_cases hbs : bs = 0
    · rw [if_pos hbs] at h
      cases h
    rw [if_neg hbs] at h
    dsimp only at h
    rw [blockAt_eq] at h
    cases hblock : (blocks fork.extents)[off / bs]? with
    | none =>
      rw [hblock] at h
      cases h
    | some p =>
      rw [hblock] at h
      have hmod := Nat.mod_lt off (Nat.pos_of_ne_zero hbs)
      have hrest := ih (by omega) h
      rcases Nat.lt_or_ge k (min size (bs - off % bs)) with hlt | hge
      · have hdiv : (off + k) / bs = off / bs := by
          rw [← Nat.div_add_mod off bs, Nat.add_assoc, Nat.mul_add_div (by omega),
            Nat.div_eq_of_lt (by omega : off % bs + k < bs), Nat.mul_add_div (by omega),
            Nat.div_eq_of_lt hmod]
        rw [hdiv]
        exact ⟨Nat.pos_of_ne_zero hbs, (List.getElem?_eq_some_iff.mp hblock).1⟩
      · have := hrest (k - min size (bs - off % bs)) (by omega)
        rwa [Nat.add_assoc, Nat.add_sub_of_le hge] at this

end Read

/-! ## Writing -/

/-- The writes put the first `len` bytes of `data` to the addresses of a fork from `off` on, and
nothing else. -/
structure Puts (bs : ℕ) (bl : List ℕ) (off : ℕ) (data : ℕ → UInt8) (len : ℕ)
    (ws : List Write) : Prop where
  value : ∀ w ∈ ws, ∀ x, w.Covers x →
    ∃ k < len, byteAt bs bl (off + k) = some x ∧ w.value x = data k
  covers : ∀ k < len, ∀ x, byteAt bs bl (off + k) = some x → ∃ w ∈ ws, w.Covers x

/-- How many of `len` bytes from offset `off` of a fork on are written with the first `j` writes: each
goes up to the end of a block. -/
def writtenAfter (bs off len j : ℕ) : ℕ := min len (j * bs - off % bs)

/-- The writes put the bytes of `data` in their order: a number of the writes puts a first part. -/
structure PutsInOrder (bs : ℕ) (bl : List ℕ) (off : ℕ) (data : ℕ → UInt8) (len : ℕ)
    (ws : List Write) : Prop where
  all : Puts bs bl off data len ws
  take : ∀ j, Puts bs bl off data (writtenAfter bs off len j) (ws.take j)

theorem Puts.congr (h : Puts bs bl off bytes len ws) (heq : ∀ k < len, bytes k = bytes' k) :
    Puts bs bl off bytes' len ws where
  value w hw x hx := by
    obtain ⟨k, hk, hat, hval⟩ := h.value w hw x hx
    exact ⟨k, hk, hat, hval.trans (heq k hk)⟩
  covers := h.covers

theorem PutsInOrder.congr (h : PutsInOrder bs bl off bytes len ws)
    (heq : ∀ k < len, bytes k = bytes' k) :
    PutsInOrder bs bl off bytes' len ws where
  all := h.all.congr heq
  take j := (h.take j).congr fun k hk ↦ heq k (hk.trans_le (min_le_left _ _))

section Write

variable {bs : ℕ} {fork : Fork} {data : Buf}

theorem Puts.nil : Puts bs bl off bytes 0 [] :=
  ⟨fun _ hw ↦ absurd hw List.not_mem_nil, fun k hk ↦ absurd hk (Nat.not_lt_zero k)⟩

theorem Puts.cons {bl : List ℕ} {off a chunk len : ℕ} {bytes : ℕ → UInt8} {w : FileScript.Write}
    {ws : List Write} (hoff : w.off = a) (hsize : w.data.size = chunk)
    (hstep : ∀ k < chunk, byteAt bs bl (off + k) = some (a + k) ∧ w.data.byte k = bytes k)
    (h : Puts bs bl (off + chunk) (fun k ↦ bytes (chunk + k)) len ws) :
    Puts bs bl off bytes (chunk + len) (w :: ws) := by
  constructor
  · intro w' hw' x hx
    rcases List.mem_cons.mp hw' with rfl | hw'
    · obtain ⟨hle, hlt⟩ := hx
      rw [hoff] at hle hlt
      refine ⟨x - a, by omega, ?_, ?_⟩
      · rw [(hstep (x - a) (by omega)).1, Nat.add_sub_of_le hle]
      · rw [Write.value, hoff, (hstep (x - a) (by omega)).2]
    · obtain ⟨k, hk, hat, hval⟩ := h.value w' hw' x hx
      exact ⟨chunk + k, by omega, by rwa [← Nat.add_assoc], hval⟩
  · intro k hk x hx
    rcases Nat.lt_or_ge k chunk with hlt | hge
    · rw [(hstep k hlt).1, Option.some_inj] at hx
      exact ⟨w, List.mem_cons_self, by rw [hoff]; omega, by rw [hoff, hsize]; omega⟩
    · obtain ⟨w', hw', hc⟩ := h.covers (k - chunk) (by omega) x
        (by rwa [Nat.add_assoc, Nat.add_sub_of_le hge])
      exact ⟨w', List.mem_cons_of_mem _ hw', hc⟩

/-- The loop of `write_fork`: after any number of its writes, a first part of the data is
written. -/
theorem writeForkLoop_puts (hbs : 0 < bs) {fuel off : ℕ} (pos : ℕ) {size : ℕ} (hfuel : size ≤ fuel)
    (hdata : pos + size ≤ data.size)
    (hin : ∀ k < size, (off + k) / bs < (blocks fork.extents).length) :
    ∃ ws, (∀ img, writeForkLoop bs fork data fuel off pos size img = (.ok (), ws)) ∧
      ∀ j, Puts bs (blocks fork.extents) off (fun k ↦ data.byte (pos + k)) (writtenAfter bs off size j)
        (ws.take j) := by
  induction fuel generalizing off pos size with
  | zero =>
    refine ⟨[], fun _ ↦ rfl, fun j ↦ ?_⟩
    rw [List.take_nil, Nat.le_zero.mp hfuel, writtenAfter, Nat.zero_min]
    exact Puts.nil
  | succ fuel ih =>
    by_cases hsize : size = 0
    · subst hsize
      refine ⟨[], fun _ ↦ rfl, fun j ↦ ?_⟩
      rw [List.take_nil, writtenAfter, Nat.zero_min]
      exact Puts.nil
    have hmod := Nat.mod_lt off hbs
    have hlt : off / bs < (blocks fork.extents).length := by
      have := hin 0 (by omega)
      rwa [Nat.add_zero] at this
    have hblock : (blocks fork.extents)[off / bs]? = some ((blocks fork.extents)[off / bs]) :=
      List.getElem?_eq_getElem hlt
    generalize (blocks fork.extents)[off / bs] = p at hblock
    generalize hchunk : min size (bs - off % bs) = chunk
    have hstep : ∀ k < chunk, byteAt bs (blocks fork.extents) (off + k)
        = some (p * bs + off % bs + k) := by
      intro k hk
      rw [byteAt_add (by omega), hblock]
      rfl
    obtain ⟨ws, hws, htake⟩ := @ih (off + chunk) (pos + chunk) (size - chunk)
      (by omega) (by omega) fun k hk ↦ by
        rw [Nat.add_assoc]
        exact hin (chunk + k) (by omega)
    have hfirst : (data.slice pos chunk).size = chunk := Buf.size_slice _ (by omega)
    refine ⟨⟨p * bs + off % bs, data.slice pos chunk⟩ :: ws, fun img ↦ ?_, fun j ↦ ?_⟩
    · rw [writeForkLoop, if_neg hsize, if_neg hbs.ne', blockAt_eq, hblock, hchunk]
      dsimp only
      rw [Script.bind_of_ok (Script.put_apply _ _ _), hws]
      rfl
    · cases j with
      | zero =>
        rw [writtenAfter, Nat.zero_mul, Nat.zero_sub, Nat.min_zero]
        exact Puts.nil
      | succ j =>
        -- the first write ends with the data or with the block
        have hlen : writtenAfter bs off size (j + 1) =
            chunk + writtenAfter bs (off + chunk) (size - chunk) j := by
          rw [writtenAfter, writtenAfter, Nat.succ_mul]
          rcases Nat.lt_or_ge size (bs - off % bs) with hshort | hlong
          · omega
          · have haligned : (off + chunk) % bs = 0 := by
              have hdiv := Nat.div_add_mod off bs
              have hend : off + chunk = bs * (off / bs + 1) := by
                rw [Nat.mul_succ]
                omega
              rw [hend, Nat.mul_mod_right]
            omega
        rw [List.take_succ_cons, hlen]
        refine Puts.cons rfl hfirst (fun k hk ↦ ⟨hstep k hk, rfl⟩) ?_
        simpa only [Nat.add_assoc] using htake j

/-- **Writing a fork**: data inside the extents is put to its place, and after a number of the
writes a first part of it. -/
theorem writeFork_puts (hbs : 0 < bs) (fork : Fork) (off : ℕ) (data : Buf)
    (hin : ∀ k < data.size, (off + k) / bs < (blocks fork.extents).length) :
    ∃ ws, (∀ img, writeFork bs fork off data img = (.ok (), ws)) ∧
      PutsInOrder bs (blocks fork.extents) off data.byte data.size ws := by
  obtain ⟨ws, hws, htake⟩ := writeForkLoop_puts hbs 0 le_rfl (Nat.zero_add _).le hin
  simp only [Nat.zero_add] at htake
  refine ⟨ws, hws, ⟨?_, htake⟩⟩
  have hmod := Nat.mod_lt off hbs
  have hmany := Nat.le_mul_of_pos_right (ws.length + data.size + bs) hbs
  have hall := htake (ws.length + data.size + bs)
  rwa [List.take_of_length_le (by omega), writtenAfter, Nat.min_eq_left (by omega)] at hall

end Write

section Effect

variable {bs off len x : ℕ} {bl : List ℕ} {bytes : ℕ → UInt8} {ws : List Write} {img : Buf}

theorem Puts.touches (h : Puts bs bl off bytes len ws) (hbs : 0 < bs) :
    Touches {x | x / bs ∈ bl} ws := by
  intro w hw x hx
  obtain ⟨k, -, hat, -⟩ := h.value w hw x hx
  exact div_mem_of_byteAt hbs hat

theorem Puts.byte_eq (h : Puts bs bl off bytes len ws) (hbs : 0 < bs) (hnodup : bl.Nodup)
    (hk : k < len) (hx : byteAt bs bl (off + k) = some x) : (img.writes ws).byte x = bytes k := by
  refine Buf.byte_writes_eq (fun w hw hc ↦ ?_) (h.covers k hk x hx)
  obtain ⟨j, -, hat, hval⟩ := h.value w hw x hc
  have hjk := byteAt_inj hbs hnodup hat hx
  rw [hval, show j = k by omega]

theorem Puts.byte_of_ne (h : Puts bs bl off bytes len ws) (hx : x < img.size)
    (hne : ∀ k < len, byteAt bs bl (off + k) ≠ some x) : (img.writes ws).byte x = img.byte x := by
  refine Buf.byte_writes_of_not_covers hx fun w hw hc ↦ ?_
  obtain ⟨k, hk, hat, -⟩ := h.value w hw x hc
  exact hne k hk hat

/-- **The bytes of the fork** after the writes. -/
theorem Puts.bytesOf_eq (h : Puts bs bl off bytes len ws) (hbs : 0 < bs) (hnodup : bl.Nodup)
    (hin : ∀ a, a / bs ∈ bl → a < img.size) (y : ℕ) (hy : y < bl.length * bs) :
    bytesOf bs bl (img.writes ws) y
      = if off ≤ y ∧ y < off + len then bytes (y - off) else bytesOf bs bl img y := by
  obtain ⟨a, ha⟩ := exists_byteAt hbs hy
  rw [HfsScript.bytesOf_eq ha, HfsScript.bytesOf_eq ha]
  split_ifs with hrange
  · exact h.byte_eq hbs hnodup (by omega : y - off < len) (by rwa [Nat.add_sub_of_le hrange.1])
  · refine h.byte_of_ne (hin a (div_mem_of_byteAt hbs ha)) fun k hk hat ↦ ?_
    have := byteAt_inj hbs hnodup hat ha
    omega

theorem bytesOf_writes_of_touches {R : Set ℕ} (h : Touches R ws) (hbs : 0 < bs)
    (hin : ∀ a, a / bs ∈ bl → a < img.size ∧ a ∉ R) (y : ℕ) :
    bytesOf bs bl (img.writes ws) y = bytesOf bs bl img y := by
  cases ha : byteAt bs bl y with
  | none => rw [bytesOf, bytesOf, ha]; rfl
  | some a =>
    obtain ⟨hlt, hR⟩ := hin a (div_mem_of_byteAt hbs ha)
    rw [bytesOf_eq ha, bytesOf_eq ha, Buf.byte_writes_of_touches hlt h hR]

end Effect

/-! ## The fork fields of a record -/

section PutFork

variable {node : Buf} {forkOff : ℕ}

theorem putExtent_eq (forkOff : ℕ) {e : ℕ × ℕ} (hin : forkOff + 80 ≤ node.size) (hi : i < 8)
    (he : e.1 < 4294967296 ∧ e.2 < 4294967296) :
    ∃ node', (do
        let node ← putBe32 node (forkOff + 16 + i * 8) e.1
        putBe32 node (forkOff + 20 + i * 8) e.2) = Except.ok node' ∧
      node'.size = node.size ∧
      (∀ k, k < forkOff + 16 + i * 8 ∨ forkOff + 16 + i * 8 + 8 ≤ k → node'.byte k = node.byte k) ∧
      extentAt node'.byte (forkOff + 16) i = e := by
  refine ⟨stored (stored node (forkOff + 16 + i * 8) 4 e.1) (forkOff + 16 + 4 + i * 8) 4 e.2, ?_,
    rfl, fun k hk ↦ ?_, ?_⟩
  · rw [putBe32_of_le (o := forkOff + 16 + i * 8) (by push_cast; ring) rfl he.1 (by omega), ok_bind,
      putBe32_of_le (o := forkOff + 16 + 4 + i * 8) (by push_cast; ring) rfl he.2
        (by rw [size_stored]; omega)]
  · exact (putBytes_of_notMem (by omega)).trans (putBytes_of_notMem (by omega))
  · refine Prod.ext ?_ (be32_putBytes he.2)
    exact (congrArg _ (be32_putBytes_of_disjoint (by omega))).trans (be32_putBytes he.1)

theorem clearExtents_eq (node : Buf) (hin : forkOff + 80 ≤ node.size) {n : ℕ} (hn : n ≤ 8) :
    ∃ node', (List.range n).foldlM (fun node (i : ℕ) ↦ do
        let node ← putBe32 node (forkOff + 16 + i * 8) 0
        putBe32 node (forkOff + 20 + i * 8) 0) node = Except.ok node' ∧
      node'.size = node.size ∧
      (∀ k, k < forkOff + 16 ∨ forkOff + 16 + 64 ≤ k → node'.byte k = node.byte k) ∧
      ∀ i < n, extentAt node'.byte (forkOff + 16) i = (0, 0) := by
  induction n with
  | zero => exact ⟨node, rfl, rfl, fun _ _ ↦ rfl, fun i hi ↦ absurd hi (Nat.not_lt_zero i)⟩
  | succ n ih =>
    obtain ⟨node₁, hloop, hsize₁, hframe₁, hzero₁⟩ := ih (by omega)
    obtain ⟨node₂, hput, hsize₂, hframe₂, hzero₂⟩ :=
      putExtent_eq forkOff (e := (0, 0)) (hin.trans_eq hsize₁.symm) (by omega : n < 8) (by decide)
    refine ⟨node₂, ?_, hsize₂.trans hsize₁, fun k hk ↦ ?_, fun i hi ↦ ?_⟩
    · rw [List.range_succ, List.foldlM_append, hloop, ok_bind, List.foldlM_cons]
      simp only [Nat.cast_zero] at hput
      rw [hput]
      rfl
    · rw [hframe₂ k (by omega), hframe₁ k hk]
    · rcases Nat.lt_succ_iff_lt_or_eq.mp hi with hlt | rfl
      · rw [← hzero₁ i hlt]
        exact extentAt_congr fun k hle hlt ↦ hframe₂ k (by omega)
      · exact hzero₂

theorem storeExtents_eq {extents : List (ℕ × ℕ)} {s : ℕ} (hin : forkOff + 80 ≤ node.size)
    (hs : s + extents.length ≤ 8)
    (hfit : ∀ e ∈ extents, e.1 < 4294967296 ∧ e.2 < 4294967296) :
    ∃ node', (extents.zipIdx s).foldlM (fun node (e : (ℕ × ℕ) × ℕ) ↦ do
        let node ← putBe32 node (forkOff + 16 + e.2 * 8) e.1.1
        putBe32 node (forkOff + 20 + e.2 * 8) e.1.2) node = Except.ok node' ∧
      node'.size = node.size ∧
      (∀ k, k < forkOff + 16 + s * 8 ∨ forkOff + 16 + (s + extents.length) * 8 ≤ k →
        node'.byte k = node.byte k) ∧
      ∀ i (hi : i < extents.length), extentAt node'.byte (forkOff + 16) (s + i) = extents[i] := by
  induction extents generalizing node s with
  | nil => exact ⟨node, rfl, rfl, fun _ _ ↦ rfl, fun i hi ↦ absurd hi (Nat.not_lt_zero i)⟩
  | cons e extents ih =>
    rw [List.length_cons] at hs
    rw [List.forall_mem_cons] at hfit
    obtain ⟨node₁, hput, hsize₁, hframe₁, hext₁⟩ :=
      putExtent_eq forkOff hin (by omega : s < 8) hfit.1
    obtain ⟨node₂, hloop, hsize₂, hframe₂, hext₂⟩ := @ih node₁ (s + 1) (by omega) (by omega) hfit.2
    refine ⟨node₂, ?_, hsize₂.trans hsize₁, fun k hk ↦ ?_, fun i hi ↦ ?_⟩
    · rw [List.zipIdx_cons, List.foldlM_cons]
      rw [hput, ok_bind, hloop]
    · rw [List.length_cons] at hk
      rw [hframe₂ k (by omega), hframe₁ k (by omega)]
    · cases i with
      | zero =>
        rw [← hext₁]
        exact extentAt_congr fun k hle hlt ↦ hframe₂ k (by omega)
      | succ i =>
        rw [List.length_cons] at hi
        rw [← Nat.add_assoc, Nat.add_right_comm, hext₂ i (by omega)]
        rfl

/-- **The fork fields of a record** after they are stored. -/
theorem putFork_eq (size blocks : ℕ) (extents : List (ℕ × ℕ)) (hin : forkOff + 80 ≤ node.size)
    (hsize : size < 18446744073709551616) (hblocks : blocks < 4294967296)
    (hlen : extents.length ≤ 8)
    (hfit : ∀ e ∈ extents, e.1 < 4294967296 ∧ e.2 < 4294967296) :
    ∃ node', putFork node forkOff size blocks extents = .ok node' ∧ node'.size = node.size ∧
      (∀ k, k < forkOff ∨ forkOff + 80 ≤ k → node'.byte k = node.byte k) ∧
      (CaribeOS.be64 node'.byte forkOff).toNat = size ∧
      extentsAt node'.byte (forkOff + 16) = extents ++ List.replicate (8 - extents.length) (0, 0) := by
  obtain ⟨node₁, hclear, hsize₁, hframe₁, hzero⟩ := clearExtents_eq
    (stored (stored node forkOff 8 size) (forkOff + 12) 4 blocks) hin le_rfl
  obtain ⟨node₂, hstore, hsize₂, hframe₂, hext⟩ := storeExtents_eq (s := 0)
    (hin.trans_eq hsize₁.symm) (by omega) hfit
  have hbyte : ∀ k, k < forkOff + 16 ∨ forkOff + 80 ≤ k → node₂.byte k
      = putBytes (putBytes node.byte forkOff 8 size) (forkOff + 12) 4 blocks k := by
    intro k hk
    rw [hframe₂ k (by omega), hframe₁ k (by omega)]
    rfl
  refine ⟨node₂, ?_, hsize₂.trans hsize₁, fun k hk ↦ ?_, ?_, ?_⟩
  · rw [putFork, putBe64_of_le rfl rfl hsize (by omega), ok_bind,
      putBe32_of_le (o := forkOff + 12) (by push_cast; ring) rfl hblocks (by rw [size_stored]; omega),
      ok_bind, hclear, ok_bind, List.take_of_length_le hlen, hstore]
  · rw [hbyte k (by omega), putBytes_of_notMem (by omega), putBytes_of_notMem (by omega)]
  · have hsame : CaribeOS.be64 node₂.byte forkOff
        = CaribeOS.be64 (putBytes node.byte forkOff 8 size) forkOff :=
      be64_congr fun k hle hlt ↦ by rw [hbyte k (by omega), putBytes_of_notMem (by omega)]
    rw [hsame, be64_putBytes hsize]
  · refine List.ext_getElem ?_ fun i hi hi' ↦ ?_
    · rw [extentsAt, List.length_map, List.length_range, List.length_append,
        List.length_replicate]
      omega
    · rw [extentsAt, List.length_map, List.length_range] at hi
      simp only [extentsAt, List.getElem_map, List.getElem_range]
      rcases Nat.lt_or_ge i extents.length with hlt | hge
      · have := hext i hlt
        rw [Nat.zero_add] at this
        rw [this, List.getElem_append_left hlt]
      · rw [List.getElem_append_right hge, List.getElem_replicate, ← hzero i hi]
        exact extentAt_congr fun k hle hlt ↦ hframe₂ k (by omega)

end PutFork

end HfsScript

end CaribeOS
