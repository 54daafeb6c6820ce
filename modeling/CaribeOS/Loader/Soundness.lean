import CaribeOS.Loader.GnuHash

/-!
# What a look-up may find

A look-up is sound when an address that it returns is that of a definition in a registered library,
and when nothing is looked at but what has been read of that library. Of each table at most 512
bytes are kept. The number of symbols, however, is the one that the library's hash table has, and
the strings are compared up to a zero byte: with more symbols than have been kept, or with strings
that are cut off, a look-up runs on into the tables of the next object. And the last resort for the
main program is the buffer of the last library, registered or not.

The symbols that a look-up comes to are listed here next to it, loop by loop, and for each of them
the bytes that are looked at. A look-up is sound if those symbols are kept as far as it looks at them:
`lookup_sound`.
-/

namespace CaribeOS.Ld

open ByteMemory

/-! ## Tables of a library -/

/-- Where the tables of a library are, and how much of them has been read. -/
structure Tables where
  symtab : UInt32
  strtab : UInt32
  symtabRead : UInt32
  strtabRead : UInt32
  syment : UInt32

/-- The tables in the slots of object `i`. -/
def slotTables (env : Env) (s : State) (i : ℕ) : Tables where
  symtab := env.symtabSlot i
  strtab := env.strtabSlot i
  symtabRead := (s.neededObj i).symtabRead
  strtabRead := (s.neededObj i).strtabRead
  syment := (s.neededObj i).syment

/-- The tables in the buffers of the last library. -/
def bufTables (env : Env) (s : State) : Tables where
  symtab := env.neededSymtabBuf
  strtab := env.neededStrtabBuf
  symtabRead := s.scratch.symtabRead
  strtabRead := s.scratch.strtabRead
  syment := s.scratch.lib.syment

/-- The number of characters that a comparison of two strings looks at. -/
def cstrCompared (m : Mem) : ℕ → UInt32 → UInt32 → ℕ
  | 0, _, _ => 0
  | n + 1, a, b => if m a ≠ m b ∨ m a = 0 then 1 else cstrCompared m n (a + 1) (b + 1) + 1

namespace Tables

variable (t : Tables) (m : Mem) (name : UInt32)

def symAddr (j : UInt32) : UInt32 := t.symtab + j * t.syment

def sym (j : UInt32) : Sym := symAt m (t.symAddr j)

/-- Symbol `j` is a definition of the name at `name`. -/
def Defines (j : UInt32) : Prop :=
  (t.sym m j).name < t.strtabRead ∧ cstrEqual m name (t.strtab + (t.sym m j).name) = true ∧
    (t.sym m j).Defines

/-- The bytes of the symbols that are kept of the library. The buffer has room for 512. -/
def symKept : ℕ := min t.symtabRead.toNat 512

/-- The bytes of the strings that are kept. -/
def strKept : ℕ := min t.strtabRead.toNat 512

/-- Symbol `j` has a name, and it is the one at `name`. -/
def Named (j : UInt32) : Prop :=
  (t.sym m j).name < t.strtabRead ∧ cstrEqual m name (t.strtab + (t.sym m j).name) = true
  deriving Decidable

/-- The bytes of symbol `j` that are looked at: its name, its binding and type, its value, each only
if what comes before allows it. -/
def symBytes (j : UInt32) : List (UInt32 × ℕ) :=
  let y := t.sym m j
  (t.symAddr j, 4) ::
    if t.Named m name j then
      (t.symAddr j + 12, 1) ::
        if (y.info >>> 4 = 1 ∨ y.info >>> 4 = 2) ∧ y.info &&& 0x0f ≤ 2 then [(t.symAddr j + 4, 4)]
        else []
    else []

/-- The bytes of the strings that are looked at for symbol `j`. -/
def strBytes (j : UInt32) : List (UInt32 × ℕ) :=
  let y := t.sym m j
  if y.name < t.strtabRead then
    [(t.strtab + y.name, cstrCompared m addressSpace name (t.strtab + y.name))]
  else []

/-- For symbol `j` nothing is looked at but what has been read of the library. -/
def Inside (j : UInt32) : Prop :=
  (∀ e ∈ t.symBytes m name j, ∀ x, InBlock e.1 e.2 x → InBlock t.symtab t.symKept x) ∧
    ∀ e ∈ t.strBytes m name j, ∀ x, InBlock e.1 e.2 x → InBlock t.strtab t.strKept x

/-- Symbol `j` is a definition of the name, and it and its string are within what has been read. -/
def Genuine (j : UInt32) : Prop :=
  j.toNat * t.syment.toNat + 13 ≤ t.symKept ∧ (t.sym m j).Defines ∧
    ∃ str, IsCstr m name str ∧ IsCstr m (t.strtab + (t.sym m j).name) str ∧
      (t.sym m j).name.toNat + str.length < t.strKept

/-- Symbol `j` is kept as far as a look-up needs it: the offset of its name, the string up to the
place where it ends or differs from the name at `name`, and all of the symbol if it is the same. -/
structure Kept (j : UInt32) : Prop where
  symbol : j.toNat * t.syment.toNat + 4 ≤ t.symKept
  string : (t.sym m j).name < t.strtabRead → (t.sym m j).name.toNat +
    cstrCompared m addressSpace name (t.strtab + (t.sym m j).name) ≤ t.strKept
  rest : t.Named m name j → j.toNat * t.syment.toNat + 13 ≤ t.symKept

end Tables

/-- The tables of an object, or of the last library. -/
def tablesOf (env : Env) (s : State) : Option ℕ → Tables
  | some i => slotTables env s i
  | none => bufTables env s

/-! ## Symbols that the look-ups come to -/

section Visits

variable (env : Env) (s : State)

/-- The symbols that the scan of a symbol table comes to. -/
def scanVisits (name : UInt32) (i : ℕ) : ℕ → UInt32 → List UInt32
  | 0, _ => []
  | left + 1, j => j :: if SlotDefines env s name i j then [] else scanVisits name i left (j + 1)

/-- The symbols that a walk along a chain looks at. -/
def walkVisits (name hash : UInt32) (i : ℕ) (n : UInt32) : ℕ → UInt32 → UInt32 → List UInt32
  | 0, _, _ => []
  | fuel + 1, j, chain =>
    if n ≤ j then []
    else
      let hit := (loadWord s.mem chain ^^^ hash) >>> 1 = 0
      (if hit then [j] else []) ++
        if hit ∧ SlotDefines env s name i j then []
        else if loadWord s.mem chain &&& 1 ≠ 0 then []
        else walkVisits name hash i n fuel (j + 1) (chain + 4)

def gnuhashVisits (name hash : UInt32) (i : ℕ) (n : UInt32) : List UInt32 :=
  if hashNbucket s i = 0 ∨ hashBloomSize s i = 0 then []
  else if hashBloom s i hash &&& hashMask s i hash ≠ hashMask s i hash then []
  else if hashBucket s i hash < hashSymoffset s i ∨ n ≤ hashBucket s i hash then []
  else walkVisits env s name hash i n n.toNat (.ofNat (hashBucket s i hash).toNat)
    (hashChainAddr s i (hashBucket s i hash).toNat)

/-- An object whose symbols are looked at. -/
def Searched (i : ℕ) : Prop :=
  ¬((s.neededObj i).syment < 16 ∨ (s.neededObj i).symtabRead = 0 ∨ objSymbols (s.neededObj i) ≤ 1)
  deriving Decidable

/-- Symbol `k` of object `i` is a definition of the name that the look-up can come to. The scan leaves
symbol 0 out, and only a hash table leads to it. -/
def Offers (name hash : UInt32) (i : ℕ) (k : UInt32) : Prop :=
  Searched s i ∧ k.toNat < (objSymbols (s.neededObj i)).toNat ∧ SlotDefines env s name i k ∧
    (k = 0 → (s.neededObj i).gnuhash ≠ 0 ∧
      resolveNeededSymbolGnuhash env s name hash i (objSymbols (s.neededObj i)) ≠ .missing)
  deriving Decidable

def objectVisits (name hash : UInt32) (i : ℕ) : List UInt32 :=
  let n := objSymbols (s.neededObj i)
  if Searched s i then
    if (s.neededObj i).gnuhash ≠ 0 then
      gnuhashVisits env s name hash i n ++
        if resolveNeededSymbolGnuhash env s name hash i n = .missing then
          scanVisits env s name i (n.toNat - 1) 1
        else []
    else scanVisits env s name i (n.toNat - 1) 1
  else []

/-- The symbols that the loop over the objects comes to, each with its object. -/
def visitsFrom (name hash : UInt32) : ℕ → ℕ → List (Option ℕ × UInt32)
  | 0, _ => []
  | left + 1, i =>
    (objectVisits env s name hash i).map (some i, ·) ++
      if resolveInObject env s name hash i = .missing then visitsFrom name hash left (i + 1) else []

def lookupVisits (name : UInt32) : List (Option ℕ × UInt32) :=
  visitsFrom env s name (gnuHashName s.mem name) s.neededObjCount 0

def bufScanVisits (name : UInt32) : ℕ → UInt32 → List UInt32
  | 0, _ => []
  | left + 1, j => j :: if bufHit env s name j = none then bufScanVisits name left (j + 1) else []

/-- The last resort looks at the buffers. -/
def BufferSearched : Prop :=
  ¬(s.scratch.symtabRead = 0 ∨ s.scratch.lib.syment < 16 ∨
    s.scratch.symtabRead / s.scratch.lib.syment ≤ 1)
  deriving Decidable

def bufVisits (name : UInt32) : List UInt32 :=
  if BufferSearched s then
    bufScanVisits env s name ((s.scratch.symtabRead / s.scratch.lib.syment).toNat - 1) 1
  else []

/-- The symbols that a look-up for the main program comes to; those in the buffers have no object. -/
def preserveVisits (sym : UInt32) : List (Option ℕ × UInt32) :=
  let s := { s with currentMainSymVersym := mainSymVersym s sym }
  let name := loadWord s.mem sym
  if s.main.strtab = 0 ∨ s.main.strsz = 0 ∨ s.main.strsz ≤ name then []
  else
    lookupVisits env s (name + s.main.strtab) ++
      if resolveNeededSymbolTable env s (name + s.main.strtab) = .missing then
        (bufVisits env s (name + s.main.strtab)).map (none, ·)
      else []

end Visits

/-! ## One symbol -/

variable {a b j n v : UInt32} {k left : ℕ} {m : Mem}

theorem symAt_image {m' : Mem} {n : ℕ} (h : ∀ k < n, m (a + .ofNat k) = m' (b + .ofNat k)) {o : ℕ}
    (ho : o + 13 ≤ n) : symAt m (a + .ofNat o) = symAt m' (b + .ofNat o) := by
  have hvalue := loadWord_image h (o := o + 4) (by omega)
  have hinfo := h (o + 12) (by omega)
  rw [← add_ofNat_add, ← add_ofNat_add] at hvalue hinfo
  rw [symAt, symAt, loadWord_image h (by omega)]
  exact congrArg₂ (Sym.mk _) hvalue hinfo

/-- A comparison of two strings that are equal looks at all of them and the zero. -/
theorem cstrCompared_eq {n : ℕ} {str : List UInt8} (hlen : str.length < n) (ha : IsCstr m a str)
    (hb : IsCstr m b str) : cstrCompared m n a b = str.length + 1 := by
  induction n generalizing a b str with
  | zero => exact absurd hlen (Nat.not_lt_zero _)
  | succ n ih =>
    cases str with
    | nil => exact if_pos (.inr ha)
    | cons c cs =>
      obtain ⟨hac, hne, ha'⟩ := ha
      obtain ⟨hbc, -, hb'⟩ := hb
      have hsame : ¬(m a ≠ m b ∨ m a = 0) :=
        not_or.mpr ⟨not_not.mpr (hac.trans hbc.symm), hac ▸ hne⟩
      rw [cstrCompared, if_neg hsame, ih (Nat.lt_of_succ_lt_succ hlen) ha' hb', List.length_cons]

/-- A comparison looks at the first characters. -/
theorem cstrCompared_pos {n : ℕ} (hn : 0 < n) : 0 < cstrCompared m n a b := by
  obtain ⟨k, rfl⟩ := Nat.exists_eq_add_of_lt hn
  rw [Nat.zero_add, cstrCompared]
  split_ifs
  · exact Nat.one_pos
  · exact Nat.succ_pos _

namespace Tables

variable {t : Tables} {name : UInt32}

theorem symAddr_eq (t : Tables) (j : UInt32) :
    t.symAddr j = t.symtab + .ofNat (j.toNat * t.syment.toNat) := by
  rw [symAddr, UInt32.ofNat_mul, UInt32.ofNat_toNat, UInt32.ofNat_toNat]

theorem symKept_le (t : Tables) : t.symKept ≤ 512 := min_le_right _ _

theorem strKept_le (t : Tables) : t.strKept ≤ 512 := min_le_right _ _

theorem Kept.genuine (h : t.Kept m name j) (hdefines : t.Defines m name j) :
    t.Genuine m name j := by
  obtain ⟨hname, hequal, hdef⟩ := hdefines
  obtain ⟨str, hlen, hstr, hstr'⟩ := cstrEqualFrom_eq_true_iff.mp hequal
  have hstring := h.string hname
  rw [cstrCompared_eq hlen hstr hstr'] at hstring
  exact ⟨h.rest ⟨hname, hequal⟩, hdef, str, hstr, hstr', by omega⟩

theorem forall_symBytes_iff (hfit : j.toNat * t.syment.toNat < 4294967296) :
    (∀ e ∈ t.symBytes m name j, ∀ x, InBlock e.1 e.2 x → InBlock t.symtab t.symKept x) ↔
      j.toNat * t.syment.toNat + 4 ≤ t.symKept ∧
        (t.Named m name j → j.toNat * t.syment.toNat + 13 ≤ t.symKept) := by
  have hkept := t.symKept_le
  rw [symBytes, List.forall_mem_cons, symAddr_eq]
  dsimp only
  rw [forall_inBlock_add_iff (by decide) hfit (.inr (by omega))]
  refine and_congr_right fun hsymbol ↦ ?_
  by_cases hnamed : t.Named m name j
  · rw [if_pos hnamed, List.forall_mem_cons, add_ofNat_lit]
    dsimp only
    rw [forall_inBlock_add_iff (by decide) (by omega) (.inr (by omega))]
    refine ⟨fun h _ ↦ h.1, fun h ↦ ⟨h hnamed, ?_⟩⟩
    have hrest := h hnamed
    split_ifs
    · rw [List.forall_mem_singleton, add_ofNat_lit]
      exact fun x hx ↦ hx.of_add (by omega) (by omega)
    · exact fun e he ↦ absurd he List.not_mem_nil
  · rw [if_neg hnamed]
    exact iff_of_true (fun e he ↦ absurd he List.not_mem_nil) fun h ↦ absurd h hnamed

/-- What is looked at of the strings is inside of them if the string ends there. -/
theorem forall_strBytes_iff :
    (∀ e ∈ t.strBytes m name j, ∀ x, InBlock e.1 e.2 x → InBlock t.strtab t.strKept x) ↔
      ((t.sym m j).name < t.strtabRead → (t.sym m j).name.toNat +
        cstrCompared m addressSpace name (t.strtab + (t.sym m j).name) ≤ t.strKept) := by
  have hkept := t.strKept_le
  rw [strBytes]
  by_cases hname : (t.sym m j).name < t.strtabRead
  · have hpos : 0 < cstrCompared m addressSpace name (t.strtab + (t.sym m j).name) :=
      cstrCompared_pos (by decide)
    have hrow := forall_inBlock_add_iff (a := t.strtab) (n := t.strKept) hpos
      (t.sym m j).name.toNat_lt (.inr (by omega))
    rw [UInt32.ofNat_toNat] at hrow
    rw [if_pos hname, List.forall_mem_singleton, hrow]
    exact ⟨fun h _ ↦ h, fun h ↦ h hname⟩
  · rw [if_neg hname]
    exact iff_of_true (fun e he ↦ absurd he List.not_mem_nil) fun h ↦ absurd h hname

theorem Kept.inside (h : t.Kept m name j) : t.Inside m name j := by
  have hkept := t.symKept_le
  have hsymbol := h.symbol
  exact ⟨(forall_symBytes_iff (by omega)).mpr ⟨h.symbol, h.rest⟩, forall_strBytes_iff.mpr h.string⟩

/-- And the other way round, for a symbol whose offset in the table is a 32-bit number. -/
theorem Inside.kept (h : t.Inside m name j) (hfit : j.toNat * t.syment.toNat < 4294967296) :
    t.Kept m name j := by
  obtain ⟨hsymbol, hrest⟩ := (forall_symBytes_iff hfit).mp h.1
  exact ⟨hsymbol, forall_strBytes_iff.mp h.2, hrest⟩

end Tables

/-! ## Loops -/

section Loops

variable {env : Env} {s : State} {name hash : UInt32} {i : ℕ}

theorem slotHit_ne_missing (k : UInt32) : slotHit env s i k ≠ .missing := by
  rw [slotHit]
  split_ifs
  · simp
  · simp

theorem slotHit_found {k : UInt32} (h : slotHit env s i k = .found v) :
    v = (slotSym env s i k).value + (s.neededObj i).bias := by
  rw [slotHit] at h
  split_ifs at h
  exact (Lookup.found.inj h).symm

theorem resolveNeededSymbolGnuhash_hit
    (h : resolveNeededSymbolGnuhash env s name hash i n ≠ .missing) :
    ∃ k : UInt32, k.toNat < n.toNat ∧ SlotDefines env s name i k ∧
      resolveNeededSymbolGnuhash env s name hash i n = slotHit env s i k := by
  rw [resolveNeededSymbolGnuhash_eq] at h ⊢
  split_ifs at h ⊢ with hempty hbloom hrange
  · exact absurd rfl h
  · exact absurd rfl h
  · exact absurd rfl h
  have hhigh := UInt32.lt_iff_toNat_lt.mp (UInt32.not_le.mp (not_or.mp hrange).2)
  rcases @gnuhashWalk_spec env s name hash i n n.toNat _ hhigh.le with
    hmiss | ⟨k, -, hkn, hdefines, heq, -⟩
  · exact absurd hmiss h
  · have hk : k < 4294967296 := lt_trans hkn (UInt32.toNat_lt _)
    refine ⟨.ofNat k, ?_, hdefines, heq⟩
    rwa [toNat_ofNat_lt hk]

theorem symtabScan_visits (hfit : j.toNat + left < 4294967296)
    (h : symtabScan env s name i left j = .found v) :
    ∃ k ∈ scanVisits env s name i left j, (j.toNat ≤ k.toNat ∧ k.toNat < j.toNat + left) ∧
      SlotDefines env s name i k ∧ v = (slotSym env s i k).value + (s.neededObj i).bias := by
  induction left generalizing j with
  | zero => exact absurd h (by simp [symtabScan])
  | succ left ih =>
    rw [symtabScan] at h
    rw [scanVisits]
    by_cases hdefines : SlotDefines env s name i j
    · rw [if_pos hdefines] at h
      exact ⟨j, List.mem_cons_self, by omega, hdefines, slotHit_found h⟩
    · rw [if_neg hdefines] at h ⊢
      have hnext : (j + 1).toNat = (j.toNat + 1) % 4294967296 := UInt32.toNat_add j 1
      obtain ⟨k, hk, hrange, hfound⟩ := ih (by omega) h
      exact ⟨k, List.mem_cons_of_mem _ hk, by omega, hfound⟩

theorem gnuhashWalk_visits {fuel : ℕ} {chain : UInt32}
    (h : gnuhashWalk env s name hash i n fuel j chain = .found v) :
    ∃ k ∈ walkVisits env s name hash i n fuel j chain, k < n ∧ SlotDefines env s name i k ∧
      v = (slotSym env s i k).value + (s.neededObj i).bias := by
  induction fuel generalizing j chain with
  | zero => exact absurd h (by simp [gnuhashWalk])
  | succ fuel ih =>
    rw [gnuhashWalk] at h
    rw [walkVisits]
    by_cases hend : n ≤ j
    · rw [if_pos hend] at h
      exact absurd h (by simp)
    rw [if_neg hend] at h ⊢
    dsimp only
    by_cases hhit : (loadWord s.mem chain ^^^ hash) >>> 1 = 0 ∧ SlotDefines env s name i j
    · rw [if_pos hhit] at h
      rw [if_pos hhit.1]
      exact ⟨j, List.mem_append_left _ (List.mem_singleton_self j), UInt32.not_le.mp hend, hhit.2,
        slotHit_found h⟩
    rw [if_neg hhit] at h ⊢
    by_cases hlast : loadWord s.mem chain &&& 1 ≠ 0
    · rw [if_pos hlast] at h
      exact absurd h (by simp)
    rw [if_neg hlast] at h ⊢
    obtain ⟨k, hk, hfound⟩ := ih h
    exact ⟨k, List.mem_append_right _ hk, hfound⟩

theorem resolveNeededSymbolGnuhash_visits
    (h : resolveNeededSymbolGnuhash env s name hash i n = .found v) :
    ∃ k ∈ gnuhashVisits env s name hash i n, k < n ∧ SlotDefines env s name i k ∧
      v = (slotSym env s i k).value + (s.neededObj i).bias := by
  rw [resolveNeededSymbolGnuhash_eq] at h
  rw [gnuhashVisits]
  split_ifs at h ⊢ with hempty hbloom hrange
  exact gnuhashWalk_visits h

theorem resolveInObject_visits (h : resolveInObject env s name hash i = .found v) :
    ∃ k ∈ objectVisits env s name hash i, Offers env s name hash i k ∧
      v = (slotSym env s i k).value + (s.neededObj i).bias := by
  rw [resolveInObject] at h
  rw [objectVisits]
  have hscan : Searched s i →
      symtabScan env s name i ((objSymbols (s.neededObj i)).toNat - 1) 1 = .found v →
      ∃ k ∈ scanVisits env s name i ((objSymbols (s.neededObj i)).toNat - 1) 1,
        Offers env s name hash i k ∧ v = (slotSym env s i k).value + (s.neededObj i).bias := by
    intro hsearched hfound
    have hlt := (objSymbols (s.neededObj i)).toNat_lt
    have hone : (1 : UInt32).toNat = 1 := rfl
    obtain ⟨k, hk, hrange, hdefines, hv⟩ := symtabScan_visits (by omega) hfound
    refine ⟨k, hk, ⟨hsearched, by omega, hdefines, ?_⟩, hv⟩
    rintro rfl
    exact absurd hrange.1 (by decide)
  by_cases hsearched : Searched s i
  · rw [if_neg hsearched] at h
    rw [if_pos hsearched]
    by_cases hhash : (s.neededObj i).gnuhash ≠ 0
    · rw [if_pos hhash] at h ⊢
      cases hresult : resolveNeededSymbolGnuhash env s name hash i (objSymbols (s.neededObj i)) with
      | found w =>
        rw [hresult] at h
        obtain ⟨k, hk, hlt, hdefines, hv⟩ := resolveNeededSymbolGnuhash_visits (hresult.trans h)
        refine ⟨k, List.mem_append_left _ hk, ⟨hsearched, hlt, hdefines, fun _ ↦ ⟨hhash, ?_⟩⟩, hv⟩
        rw [hresult]
        simp
      | exited =>
        rw [hresult] at h
        exact absurd h (by simp [Lookup.orElse])
      | missing =>
        rw [hresult] at h
        obtain ⟨k, hk, hfound⟩ := hscan hsearched h
        rw [if_pos rfl]
        exact ⟨k, List.mem_append_right _ hk, hfound⟩
    · rw [if_neg hhash] at h ⊢
      exact hscan hsearched h
  · have hskip := hsearched
    rw [Searched, not_not] at hskip
    rw [if_pos hskip] at h
    exact absurd h (by simp)

theorem resolveFrom_visits (h : resolveFrom env s name hash left k = .found v) :
    ∃ i < k + left, ∃ j, (some i, j) ∈ visitsFrom env s name hash left k ∧
      Offers env s name hash i j ∧ v = (slotSym env s i j).value + (s.neededObj i).bias := by
  induction left generalizing k with
  | zero => exact absurd h (by simp [resolveFrom])
  | succ left ih =>
    rw [resolveFrom] at h
    rw [visitsFrom]
    cases hobject : resolveInObject env s name hash k with
    | found w =>
      rw [hobject] at h
      obtain ⟨j, hj, hfound⟩ := resolveInObject_visits (hobject.trans h)
      exact ⟨k, by omega, j, List.mem_append_left _ (List.mem_map_of_mem hj), hfound⟩
    | exited =>
      rw [hobject] at h
      exact absurd h (by simp [Lookup.orElse])
    | missing =>
      rw [hobject] at h
      obtain ⟨i, hi, j, hj, hfound⟩ := ih h
      rw [if_pos rfl]
      exact ⟨i, by omega, j, List.mem_append_right _ hj, hfound⟩

theorem bufScan_visits (h : bufScan env s name left j = .found v) :
    ∃ k ∈ bufScanVisits env s name left j, bufHit env s name k = some v := by
  induction left generalizing j with
  | zero => exact absurd h (by simp [bufScan])
  | succ left ih =>
    rw [bufScan] at h
    rw [bufScanVisits]
    cases hhit : bufHit env s name j with
    | some w =>
      rw [hhit] at h
      exact ⟨j, List.mem_cons_self, hhit.trans (congrArg some (Lookup.found.inj h))⟩
    | none =>
      rw [hhit] at h
      obtain ⟨k, hk, hfound⟩ := ih h
      rw [if_pos rfl]
      exact ⟨k, List.mem_cons_of_mem _ hk, hfound⟩

end Loops

/-! ## Sound look-ups -/

/-- An address that a look-up of the name at `name` returns is that of a definition in a registered
library, and the look-up stays within what has been read. -/
structure Sound (env : Env) (s : State) (name : UInt32) (result : Lookup)
    (visits : List (Option ℕ × UInt32)) : Prop where
  found : ∀ v, result = .found v → ∃ i < s.neededObjCount, ∃ j,
    (slotTables env s i).Genuine s.mem name j ∧
      v = ((slotTables env s i).sym s.mem j).value + (s.neededObj i).bias
  inside : ∀ o j, (o, j) ∈ visits → (tablesOf env s o).Inside s.mem name j

/-- Every symbol that a look-up comes to is kept as far as it needs it. -/
def AllKept (env : Env) (s : State) (name : UInt32) (visits : List (Option ℕ × UInt32)) : Prop :=
  ∀ o j, (o, j) ∈ visits → (tablesOf env s o).Kept s.mem name j

/-- Every symbol is that has an offset in its table which is a 32-bit number. -/
def FitsKept (env : Env) (s : State) (name : UInt32) (visits : List (Option ℕ × UInt32)) : Prop :=
  ∀ o j, (o, j) ∈ visits → j.toNat * (tablesOf env s o).syment.toNat < 4294967296 →
    (tablesOf env s o).Kept s.mem name j

/-- The last library is object `i`: its tables in the buffers are those in the slots, and it has
been mapped with the same bias. -/
structure LastIs (env : Env) (s : State) (i : ℕ) : Prop where
  registered : i < s.neededObjCount
  syment : s.scratch.lib.syment = (s.neededObj i).syment
  symtabRead : s.scratch.symtabRead = (s.neededObj i).symtabRead
  strtabRead : s.scratch.strtabRead = (s.neededObj i).strtabRead
  loadBase : s.scratch.loadBase ≠ 0
  loadBias : s.scratch.loadBias = (s.neededObj i).bias
  symtab : ∀ k < s.scratch.symtabRead.toNat,
    s.mem (env.neededSymtabBuf + .ofNat k) = s.mem (env.symtabSlot i + .ofNat k)
  strtab : ∀ k < s.scratch.strtabRead.toNat,
    s.mem (env.neededStrtabBuf + .ofNat k) = s.mem (env.strtabSlot i + .ofNat k)

section Sound

variable {env : Env} {s : State} {name : UInt32}

theorem AllKept.sound (h : AllKept env s name (lookupVisits env s name)) :
    Sound env s name (resolveNeededSymbolTable env s name) (lookupVisits env s name) where
  found := by
    intro v hv
    obtain ⟨i, hi, j, hj, hoffers, hvalue⟩ := resolveFrom_visits hv
    rw [Nat.zero_add] at hi
    exact ⟨i, hi, j, (h _ _ hj).genuine hoffers.2.2.1, hvalue⟩
  inside := fun o j hj ↦ (h o j hj).inside

/-- A look-up that stays within what has been read comes to no symbol that is not kept. -/
theorem Sound.fitsKept {result : Lookup} {visits : List (Option ℕ × UInt32)}
    (h : Sound env s name result visits) : FitsKept env s name visits :=
  fun o j hj hfit ↦ (h.inside o j hj).kept hfit

/-- A definition in the buffers is one in the slots of the object that the last library is. -/
theorem LastIs.genuine {i : ℕ} (h : LastIs env s i)
    (hgenuine : (bufTables env s).Genuine s.mem name j) :
    (slotTables env s i).Genuine s.mem name j ∧
      (slotTables env s i).sym s.mem j = (bufTables env s).sym s.mem j := by
  obtain ⟨hin, hdef, str, hstr, hstr', hlen⟩ := hgenuine
  have hsymKept : (slotTables env s i).symKept = (bufTables env s).symKept :=
    congrArg (fun r : UInt32 ↦ min r.toNat 512) h.symtabRead.symm
  have hstrKept : (slotTables env s i).strKept = (bufTables env s).strKept :=
    congrArg (fun r : UInt32 ↦ min r.toNat 512) h.strtabRead.symm
  have hsyment : (slotTables env s i).syment = (bufTables env s).syment := h.syment.symm
  have hsym : (slotTables env s i).sym s.mem j = (bufTables env s).sym s.mem j := by
    rw [Tables.sym, Tables.sym, Tables.symAddr_eq, Tables.symAddr_eq, hsyment]
    exact (symAt_image h.symtab (le_trans hin (min_le_left _ _))).symm
  refine ⟨⟨?_, ?_, str, hstr, ?_, ?_⟩, hsym⟩
  · rw [hsyment, hsymKept]
    exact hin
  · rw [hsym]
    exact hdef
  · rw [hsym]
    have himage := IsCstr.image h.strtab (o := ((bufTables env s).sym s.mem j).name.toNat) (s := str)
      (lt_of_lt_of_le hlen (min_le_left _ _)) (by rw [UInt32.ofNat_toNat]; exact hstr')
    rw [UInt32.ofNat_toNat] at himage
    exact himage
  · rw [hsym, hstrKept]
    exact hlen

theorem resolveInBuffer_visits (h : resolveInBuffer env s name = .found v) :
    ∃ k ∈ bufVisits env s name, bufHit env s name k = some v := by
  rw [resolveInBuffer] at h
  rw [bufVisits]
  by_cases hsearched : BufferSearched s
  · rw [if_neg hsearched] at h
    rw [if_pos hsearched]
    exact bufScan_visits h
  · have hskip := hsearched
    rw [BufferSearched, not_not] at hskip
    rw [if_pos hskip] at h
    exact absurd h (by simp)

/-- A symbol that is taken from the buffers is one of the object that the last library is. -/
theorem LastIs.found {i : ℕ} (h : LastIs env s i) (hkept : (bufTables env s).Kept s.mem name j)
    (hhit : bufHit env s name j = some v) :
    (slotTables env s i).Genuine s.mem name j ∧
      v = ((slotTables env s i).sym s.mem j).value + (s.neededObj i).bias := by
  rw [bufHit] at hhit
  split_ifs at hhit with hdefines hbase
  · obtain ⟨hgenuine, hsym⟩ := h.genuine (hkept.genuine hdefines)
    refine ⟨hgenuine, ?_⟩
    rw [hsym, ← h.loadBias]
    exact (Option.some.inj hhit).symm
  · exact absurd h.loadBase hbase

theorem AllKept.preserve_sound {sym : UInt32}
    (h : AllKept env s (loadWord s.mem sym + s.main.strtab) (preserveVisits env s sym))
    (hlast : ∀ j, (none, j) ∈ preserveVisits env s sym →
      bufHit env s (loadWord s.mem sym + s.main.strtab) j ≠ none → ∃ i, LastIs env s i) :
    Sound env s (loadWord s.mem sym + s.main.strtab) (resolveNeededSymbolPreserve env s sym)
      (preserveVisits env s sym) := by
  refine ⟨fun v hv ↦ ?_, fun o j hj ↦ (h o j hj).inside⟩
  rw [resolveNeededSymbolPreserve] at hv
  rw [preserveVisits] at h hlast
  by_cases hname : s.main.strtab = 0 ∨ s.main.strsz = 0 ∨ s.main.strsz ≤ loadWord s.mem sym
  · rw [if_pos hname] at hv
    exact absurd hv (by simp)
  rw [if_neg hname] at hv h hlast
  cases hresult : resolveNeededSymbolTable env
      { s with currentMainSymVersym := mainSymVersym s sym }
      (loadWord s.mem sym + s.main.strtab) with
  | found w =>
    rw [hresult] at hv
    obtain ⟨i, hi, j, hj, hoffers, hvalue⟩ := resolveFrom_visits (hresult.trans hv)
    rw [Nat.zero_add] at hi
    exact ⟨i, hi, j, (h _ _ (List.mem_append_left _ hj)).genuine hoffers.2.2.1, hvalue⟩
  | exited =>
    rw [hresult] at hv
    exact absurd hv (by simp [Lookup.orElse])
  | missing =>
    rw [hresult] at hv
    rw [if_pos hresult] at h hlast
    obtain ⟨k, hk, hhit⟩ := resolveInBuffer_visits hv
    have hmem := List.mem_append_right (lookupVisits env
      { s with currentMainSymVersym := mainSymVersym s sym } (loadWord s.mem sym + s.main.strtab))
      (List.mem_map_of_mem (f := ((none : Option ℕ), ·)) hk)
    obtain ⟨i, hi⟩ := hlast k hmem (ne_of_eq_of_ne hhit (Option.some_ne_none v))
    have hkept := h none k hmem
    rw [tablesOf] at hkept
    exact ⟨i, hi.registered, k, hi.found hkept hhit⟩

end Sound

/-- The registry after a library with 34 symbols, none of them defined, and another one that defines
`g`: of the first symbol table 512 bytes have been kept. The string `f` of the first library is at
the place in its strings at which `g` is in those of the second; the main program has an `f` at
`0x60000`. -/
def overrun : State :=
  let m := writeBytes (fun _ ↦ 0) (bareEnv.strtabSlot 0) 3 (fileByte [0, 0x66, 0])
  let m := writeBytes m (bareEnv.strtabSlot 1) 3 (fileByte [0, 0x67, 0])
  let m := writeBytes m (bareEnv.symtabSlot 1) 32
    (fileByte (fileOfWords [0, 0, 0, 0, 1, 0x44, 0, 0x12]))
  { State.initial (storeByte m 0x60000 0x66) {} with
    neededObjCount := 2
    neededObj := fun i ↦
      if i = 0 then
        { bias := 0x02000000, strtabRead := 3, symtabRead := 512, syment := 16, symcount := 34 }
      else { bias := 0x02100000, strtabRead := 3, symtabRead := 32, syment := 16 } }

end CaribeOS.Ld
