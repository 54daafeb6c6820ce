import CaribeOS.Loader.Resolve

/-!
# The GNU hash table

The hash table of an object is a short cut to a symbol that the scan of the symbol table would find
as well. For a well-formed table the short cut ends at the same symbol: equal names have equal
hashes, the symbols with one hash are in one bucket, and a bucket is walked from its first symbol
on, so the first definition met on the walk is the first one in the symbol table. A miss costs
nothing, because the scan follows it.
-/

namespace CaribeOS.Ld

open ByteMemory

/-! ## Hashes of names -/

theorem gnuHashFrom_eq_foldl {m : Mem} {a : UInt32} {name : List UInt8} (h : IsCstr m a name)
    {n : ℕ} (hn : name.length < n) (acc : UInt32) :
    gnuHashFrom m n a acc = name.foldl (fun h c ↦ 33 * h + c.toUInt32) acc := by
  induction name generalizing a n acc with
  | nil =>
    obtain ⟨k, rfl⟩ : ∃ k, n = k + 1 := ⟨n - 1, by rw [List.length_nil] at hn; omega⟩
    exact if_pos h
  | cons c cs ih =>
    obtain ⟨hc, hne, hcs⟩ := h
    obtain ⟨k, rfl⟩ : ∃ k, n = k + 1 := ⟨n - 1, by rw [List.length_cons] at hn; omega⟩
    rw [gnuHashFrom, if_neg (hc ▸ hne), hc, List.foldl_cons]
    exact ih hcs (Nat.lt_of_succ_lt_succ hn) _

theorem gnuHashName_congr {m : Mem} {a b : UInt32} (h : cstrEqual m a b = true) :
    gnuHashName m a = gnuHashName m b := by
  obtain ⟨name, hlen, ha, hb⟩ := cstrEqualFrom_eq_true_iff.mp h
  rw [gnuHashName, gnuHashName, gnuHashFrom_eq_foldl ha hlen, gnuHashFrom_eq_foldl hb hlen]

/-! ## Well-formed tables -/

section Table

variable (env : Env) (s : State) (i : ℕ)

def hashNbucket : UInt32 := loadWord s.mem (s.neededObj i).gnuhash

def hashSymoffset : UInt32 := loadWord s.mem ((s.neededObj i).gnuhash + 4)

def hashBloomSize : UInt32 := loadWord s.mem ((s.neededObj i).gnuhash + 8)

def hashBloomShift : UInt32 := loadWord s.mem ((s.neededObj i).gnuhash + 12)

/-- The word of the bloom filter for a hash. -/
def hashBloom (hash : UInt32) : UInt32 :=
  loadWord s.mem ((s.neededObj i).gnuhash + 16 + 4 * ((hash >>> (5 : UInt32)) % hashBloomSize s i))

/-- The two bits of a hash in its word of the bloom filter. -/
def hashMask (hash : UInt32) : UInt32 :=
  (1 <<< (hash &&& 31)) ||| (1 <<< ((hash >>> hashBloomShift s i) &&& 31))

/-- The bucket for a hash. -/
def hashBucket (hash : UInt32) : UInt32 :=
  loadWord s.mem
    ((s.neededObj i).gnuhash + 16 + 4 * hashBloomSize s i + 4 * (hash % hashNbucket s i))

/-- Where the chain word of symbol `j` is. -/
def hashChainAddr (j : ℕ) : UInt32 :=
  (s.neededObj i).gnuhash + 16 + 4 * hashBloomSize s i + 4 * hashNbucket s i +
    4 * (.ofNat j - hashSymoffset s i)

/-- The chain word of symbol `j`. -/
def hashChain (j : ℕ) : UInt32 := loadWord s.mem (hashChainAddr s i j)

/-- The hash of the name of symbol `j`. -/
def symHash (j : ℕ) : UInt32 :=
  gnuHashName s.mem (env.strtabSlot i + (slotSym env s i (.ofNat j)).name)

/-- The `DT_GNU_HASH` section of object `i` is well formed over `n` symbols. The first symbol, which
is the undefined one, is not hashed. -/
structure GnuHashTable (n : ℕ) : Prop where
  nbucket_ne : hashNbucket s i ≠ 0
  bloomSize_ne : hashBloomSize s i ≠ 0
  symoffset_pos : 0 < (hashSymoffset s i).toNat
  below : ∀ j < (hashSymoffset s i).toNat, (slotSym env s i (.ofNat j)).value = 0
  bloom : ∀ j, (hashSymoffset s i).toNat ≤ j → j < n →
    hashBloom s i (symHash env s i j) &&& hashMask s i (symHash env s i j) =
      hashMask s i (symHash env s i j)
  chain : ∀ j, (hashSymoffset s i).toNat ≤ j → j < n →
    (hashChain s i j ^^^ symHash env s i j) >>> 1 = 0
  last : ∀ j, (hashSymoffset s i).toNat ≤ j → j < n →
    (hashChain s i j &&& 1 ≠ 0 ↔
      j + 1 = n ∨ symHash env s i (j + 1) % hashNbucket s i ≠ symHash env s i j % hashNbucket s i)
  /-- The bucket of a symbol begins at or before it, and all of the symbols from there to it are in
  that bucket. -/
  bucket : ∀ j, (hashSymoffset s i).toNat ≤ j → j < n →
    ∃ b, (hashSymoffset s i).toNat ≤ b ∧ b ≤ j ∧ hashBucket s i (symHash env s i j) = .ofNat b ∧
      ∀ k, b ≤ k → k ≤ j → symHash env s i k % hashNbucket s i = symHash env s i j % hashNbucket s i

/-- The first definition of a name among symbols `j`, `j + 1`, …, `left` of them. -/
def firstDefinition (name : UInt32) (j left : ℕ) : Option ℕ :=
  (List.range' j left).find? fun k ↦ SlotDefines env s name i (.ofNat k)

/-- What a look-up in one object comes to: its first definition of the name, if there is one. -/
def Lookup.ofDefinition : Option ℕ → Lookup
  | none => .missing
  | some j => slotHit env s i (.ofNat j)

end Table

/-! ## Walk and scan -/

section Walk

variable {env : Env} {s : State} {name hash : UInt32} {i : ℕ}

theorem ofNat_succ (j : ℕ) : UInt32.ofNat (j + 1) = .ofNat j + 1 := UInt32.ofNat_add j 1

theorem symtabScan_eq (j left : ℕ) :
    symtabScan env s name i left (.ofNat j) =
      Lookup.ofDefinition env s i (firstDefinition env s i name j left) := by
  induction left generalizing j with
  | zero => rfl
  | succ left ih =>
    rw [symtabScan, firstDefinition, List.range'_succ, List.find?_cons]
    by_cases hdefines : SlotDefines env s name i (.ofNat j)
    · rw [if_pos hdefines, decide_eq_true hdefines]
      rfl
    · rw [if_neg hdefines, decide_eq_false hdefines, ← ofNat_succ]
      exact ih (j + 1)

/-- A walk finds nothing, or it ends at a definition such that no definition with the hash comes
before it on the chain. -/
theorem gnuhashWalk_spec {n : UInt32} (fuel : ℕ) {j : ℕ} (hj : j ≤ n.toNat) :
    gnuhashWalk env s name hash i n fuel (.ofNat j) (hashChainAddr s i j) = .missing ∨
      ∃ k, j ≤ k ∧ k < n.toNat ∧ SlotDefines env s name i (.ofNat k) ∧
        gnuhashWalk env s name hash i n fuel (.ofNat j) (hashChainAddr s i j) =
          slotHit env s i (.ofNat k) ∧
        ∀ k', j ≤ k' → k' < k →
          ¬((hashChain s i k' ^^^ hash) >>> 1 = 0 ∧ SlotDefines env s name i (.ofNat k')) := by
  induction fuel generalizing j with
  | zero => exact .inl rfl
  | succ fuel ih =>
    have hlt : j < 4294967296 := lt_of_le_of_lt hj n.toNat_lt
    have hnext : hashChainAddr s i j + 4 = hashChainAddr s i (j + 1) := by
      rw [hashChainAddr, hashChainAddr, UInt32.ofNat_add]
      grind
    rw [gnuhashWalk, hnext, ← ofNat_succ]
    by_cases hend : n ≤ .ofNat j
    · rw [if_pos hend]
      exact .inl rfl
    rw [if_neg hend]
    have hin : j < n.toNat := by
      rw [UInt32.le_iff_toNat_le, toNat_ofNat_lt hlt] at hend
      exact Nat.lt_of_not_le hend
    by_cases hhit : (loadWord s.mem (hashChainAddr s i j) ^^^ hash) >>> 1 = 0 ∧
        SlotDefines env s name i (.ofNat j)
    · rw [if_pos hhit]
      exact .inr ⟨j, le_rfl, hin, hhit.2, rfl, fun k' hle hlt' ↦ absurd hle (by omega)⟩
    rw [if_neg hhit]
    by_cases hlast : loadWord s.mem (hashChainAddr s i j) &&& 1 ≠ 0
    · rw [if_pos hlast]
      exact .inl rfl
    rw [if_neg hlast]
    rcases ih (j := j + 1) hin with hmiss | ⟨k, hjk, hkn, hdefines, heq, hbefore⟩
    · exact .inl hmiss
    · refine .inr ⟨k, by omega, hkn, hdefines, heq, ?_⟩
      intro k' hle hlt'
      rcases Nat.eq_or_lt_of_le hle with rfl | hgt
      · exact hhit
      · exact hbefore k' hgt hlt'

theorem resolveNeededSymbolGnuhash_eq (n : UInt32) :
    resolveNeededSymbolGnuhash env s name hash i n =
      if hashNbucket s i = 0 ∨ hashBloomSize s i = 0 then .missing
      else if hashBloom s i hash &&& hashMask s i hash ≠ hashMask s i hash then .missing
      else if hashBucket s i hash < hashSymoffset s i ∨ n ≤ hashBucket s i hash then .missing
      else gnuhashWalk env s name hash i n n.toNat (.ofNat (hashBucket s i hash).toNat)
        (hashChainAddr s i (hashBucket s i hash).toNat) := by
  rw [hashChainAddr, UInt32.ofNat_toNat]
  rfl

theorem GnuHashTable.bucket_le {n k : ℕ} (htable : GnuHashTable env s i n) (hk : k < n)
    (hn : n ≤ 4294967296) (hdefines : SlotDefines env s name i (.ofNat k)) :
    (hashBucket s i (gnuHashName s.mem name)).toNat ≤ k ∧
      (hashChain s i k ^^^ gnuHashName s.mem name) >>> 1 = 0 := by
  obtain ⟨-, hname, hdef⟩ := hdefines
  have hhash : symHash env s i k = gnuHashName s.mem name := (gnuHashName_congr hname).symm
  have hoffset : (hashSymoffset s i).toNat ≤ k := by
    by_contra hlt
    exact hdef.2.2 (htable.below k (Nat.lt_of_not_le hlt))
  obtain ⟨b, -, hbk, hb, -⟩ := htable.bucket k hoffset hk
  have hchain := htable.chain k hoffset hk
  rw [hhash] at hb hchain
  refine ⟨?_, hchain⟩
  have hlt : b < 4294967296 := by omega
  rw [hb, toNat_ofNat_lt hlt]
  exact hbk

/-- The short cut finds nothing, or the first definition that the scan would find. -/
theorem resolveNeededSymbolGnuhash_spec {n : UInt32} (htable : GnuHashTable env s i n.toNat) :
    resolveNeededSymbolGnuhash env s name (gnuHashName s.mem name) i n = .missing ∨
      resolveNeededSymbolGnuhash env s name (gnuHashName s.mem name) i n =
        Lookup.ofDefinition env s i (firstDefinition env s i name 1 (n.toNat - 1)) := by
  rw [resolveNeededSymbolGnuhash_eq]
  split_ifs with hempty hbloom hrange
  · exact .inl rfl
  · exact .inl rfl
  · exact .inl rfl
  obtain ⟨hlow, hhigh⟩ := not_or.mp hrange
  rw [UInt32.not_lt, UInt32.le_iff_toNat_le] at hlow
  rw [UInt32.not_le, UInt32.lt_iff_toNat_lt] at hhigh
  rcases @gnuhashWalk_spec env s name (gnuHashName s.mem name) i n n.toNat _ hhigh.le with
    hmiss | ⟨k, hbk, hkn, hdefines, heq, hbefore⟩
  · exact .inl hmiss
  · -- an earlier definition would be on the chain between the bucket and `k`
    have hfirst : firstDefinition env s i name 1 (n.toNat - 1) = some k := by
      rw [firstDefinition, List.find?_range'_eq_some]
      have hpos := htable.symoffset_pos
      refine ⟨decide_eq_true hdefines, List.mem_range'_1.mpr ⟨by omega, by omega⟩, ?_⟩
      intro j hj hjk
      have hjn : j < n.toNat := by omega
      rw [Bool.not_eq_true', decide_eq_false_iff_not]
      intro hj'
      obtain ⟨hle, hchain⟩ := htable.bucket_le hjn n.toNat_lt.le hj'
      exact hbefore j hle hjk ⟨hchain, hj'⟩
    rw [heq, hfirst]
    exact .inr rfl

theorem resolveInObject_eq (hsyment : 16 ≤ (s.neededObj i).syment)
    (hread : (s.neededObj i).symtabRead ≠ 0)
    (htable : (s.neededObj i).gnuhash ≠ 0 →
      GnuHashTable env s i (objSymbols (s.neededObj i)).toNat) :
    resolveInObject env s name (gnuHashName s.mem name) i =
      Lookup.ofDefinition env s i
        (firstDefinition env s i name 1 ((objSymbols (s.neededObj i)).toNat - 1)) := by
  rw [resolveInObject]
  by_cases hfew : objSymbols (s.neededObj i) ≤ 1
  · rw [if_pos (.inr (.inr hfew))]
    have hzero : (objSymbols (s.neededObj i)).toNat - 1 = 0 :=
      Nat.sub_eq_zero_of_le (UInt32.le_iff_toNat_le.mp hfew)
    rw [hzero]
    rfl
  have hscan := @symtabScan_eq env s name i 1 ((objSymbols (s.neededObj i)).toNat - 1)
  rw [if_neg (not_or.mpr ⟨UInt32.not_lt.mpr hsyment, not_or.mpr ⟨hread, hfew⟩⟩)]
  by_cases hhash : (s.neededObj i).gnuhash ≠ 0
  · rw [if_pos hhash]
    rcases @resolveNeededSymbolGnuhash_spec env s name i _ (htable hhash) with hmiss | hhit
    · rw [hmiss]
      exact hscan
    · rw [hhit]
      cases hfirst : firstDefinition env s i name 1 ((objSymbols (s.neededObj i)).toNat - 1) with
      | none =>
        rw [hfirst] at hscan
        exact hscan
      | some k =>
        rw [Lookup.ofDefinition, slotHit]
        split <;> rfl
  · rw [if_neg hhash]
    exact hscan

end Walk

/-! ## Agreement -/

/-- Object `i` without its hash table. -/
def withoutGnuhash (s : State) (i : ℕ) : State :=
  { s with neededObj := Function.update s.neededObj i { s.neededObj i with gnuhash := 0 } }

section Agreement

variable (env : Env) (s : State) (name : UInt32) (i : ℕ)

theorem withoutGnuhash_neededObj (k : ℕ) :
    (withoutGnuhash s i).neededObj k =
      { s.neededObj k with gnuhash := if k = i then 0 else (s.neededObj k).gnuhash } := by
  change Function.update s.neededObj i _ k = _
  by_cases hk : k = i
  · subst hk
    rw [Function.update_self, if_pos rfl]
  · rw [Function.update_of_ne hk, if_neg hk]

/-- The hash tables play no part in what is at an index of the symbol table. -/
theorem withoutGnuhash_slot (k : ℕ) (j : UInt32) :
    (SlotDefines env (withoutGnuhash s i) name k j ↔ SlotDefines env s name k j) ∧
      slotHit env (withoutGnuhash s i) k j = slotHit env s k j := by
  have hobj := withoutGnuhash_neededObj s i k
  have hsym : slotSym env (withoutGnuhash s i) k j = slotSym env s k j := by
    rw [slotSym, slotSym, hobj]
    rfl
  constructor
  · rw [SlotDefines, SlotDefines, hsym, hobj]
    rfl
  · have hnames : requirementNames (withoutGnuhash s i) k ↔ requirementNames s k := by
      rw [requirementNames, requirementNames, hobj]
      rfl
    have hversym : enforceVersym (withoutGnuhash s i) k j = enforceVersym s k j := by
      rw [enforceVersym, enforceVersym, enforceMissingNeededVersym, enforceMissingNeededVersym,
        enforceNeededVersym, enforceNeededVersym, hobj]
      simp only [hnames]
      rfl
    rw [slotHit, slotHit, hversym, hsym, hobj]

theorem symtabScan_withoutGnuhash (k left : ℕ) (j : UInt32) :
    symtabScan env (withoutGnuhash s i) name k left j = symtabScan env s name k left j := by
  induction left generalizing j with
  | zero => rfl
  | succ left ih =>
    obtain ⟨hdefines, hhit⟩ := withoutGnuhash_slot env s name i k j
    rw [symtabScan, symtabScan, ih, hhit]
    exact if_congr hdefines rfl rfl

theorem gnuhashWalk_withoutGnuhash (hash n : UInt32) (k fuel : ℕ) (j chain : UInt32) :
    gnuhashWalk env (withoutGnuhash s i) name hash k n fuel j chain =
      gnuhashWalk env s name hash k n fuel j chain := by
  induction fuel generalizing j chain with
  | zero => rfl
  | succ fuel ih =>
    obtain ⟨hdefines, hhit⟩ := withoutGnuhash_slot env s name i k j
    rw [gnuhashWalk, gnuhashWalk, ih, hhit]
    exact if_congr Iff.rfl rfl (if_congr (and_congr Iff.rfl hdefines) rfl rfl)

/-- The other objects are not concerned. -/
theorem resolveInObject_withoutGnuhash {k : ℕ} (hk : k ≠ i) (hash : UInt32) :
    resolveInObject env (withoutGnuhash s i) name hash k = resolveInObject env s name hash k := by
  have hobj : (withoutGnuhash s i).neededObj k = s.neededObj k := Function.update_of_ne hk _ _
  have hwalk : resolveNeededSymbolGnuhash env (withoutGnuhash s i) name hash k =
      resolveNeededSymbolGnuhash env s name hash k := by
    funext n
    rw [resolveNeededSymbolGnuhash, resolveNeededSymbolGnuhash, hobj]
    simp only [gnuhashWalk_withoutGnuhash]
    rfl
  rw [resolveInObject, resolveInObject, hobj, hwalk]
  simp only [symtabScan_withoutGnuhash]

/-- **The short cut agrees with the scan.** With a well-formed hash table an object answers with its
first definition of the name, and every look-up comes to what it comes to without the table. -/
theorem gnuhash_agrees (hsyment : 16 ≤ (s.neededObj i).syment)
    (hread : (s.neededObj i).symtabRead ≠ 0)
    (htable : GnuHashTable env s i (objSymbols (s.neededObj i)).toNat) :
    resolveInObject env s name (gnuHashName s.mem name) i =
        Lookup.ofDefinition env s i
          (firstDefinition env s i name 1 ((objSymbols (s.neededObj i)).toNat - 1)) ∧
      resolveNeededSymbolTable env s name =
        resolveNeededSymbolTable env (withoutGnuhash s i) name := by
  have hwith := @resolveInObject_eq env s name i hsyment hread fun _ ↦ htable
  refine ⟨hwith, ?_⟩
  have hself : resolveInObject env (withoutGnuhash s i) name (gnuHashName s.mem name) i =
      resolveInObject env s name (gnuHashName s.mem name) i := by
    have hobj := withoutGnuhash_neededObj s i i
    have hwithout := @resolveInObject_eq env (withoutGnuhash s i) name i
      (by rw [hobj]; exact hsyment) (by rw [hobj]; exact hread)
      fun hne ↦ absurd (by rw [hobj]; exact if_pos rfl) hne
    have hsymbols : objSymbols ((withoutGnuhash s i).neededObj i) = objSymbols (s.neededObj i) := by
      rw [hobj]
      rfl
    have hfirst : ∀ left, firstDefinition env (withoutGnuhash s i) i name 1 left =
        firstDefinition env s i name 1 left := by
      intro left
      rw [firstDefinition, firstDefinition]
      simp only [(withoutGnuhash_slot env s name i i _).1]
    have hhit : Lookup.ofDefinition env (withoutGnuhash s i) i = Lookup.ofDefinition env s i := by
      funext first
      cases first with
      | none => rfl
      | some j => exact (withoutGnuhash_slot env s name i i _).2
    rw [hsymbols, hfirst, hhit] at hwithout
    exact hwithout.trans hwith.symm
  have hfrom : ∀ left k, resolveFrom env (withoutGnuhash s i) name (gnuHashName s.mem name) left k =
      resolveFrom env s name (gnuHashName s.mem name) left k := by
    intro left
    induction left with
    | zero => exact fun _ ↦ rfl
    | succ left ih =>
      intro k
      rw [resolveFrom, resolveFrom, ih]
      by_cases hk : k = i
      · rw [hk, hself]
      · rw [resolveInObject_withoutGnuhash env s name i hk]
  exact (hfrom _ _).symm

end Agreement

/-- The string table of `hashed`: `a` and `b`. -/
def hashedStrings : List UInt8 := [0, 0x61, 0, 0x62, 0]

/-- The symbols of `hashed`. -/
def hashedSymbols : File := fileOfWords [0, 0, 0, 0, 1, 0x40, 0, 0x12, 3, 0x44, 0, 0x12]

/-- The hash table of `hashed`, with one bucket. The hashes of the names differ in the bit that marks
the end of a chain. -/
def hashedTable : File := fileOfWords [1, 1, 1, 5, 0xffffffff, 1, 0x2b606, 0x2b607]

/-- One object with two symbols and a hash table, and the name `b` at `0x60000`. -/
def hashed : State :=
  let m := writeBytes (fun _ ↦ 0) (bareEnv.strtabSlot 0) 5 (fileByte hashedStrings)
  let m := writeBytes m (bareEnv.symtabSlot 0) 48 (fileByte hashedSymbols)
  let m := writeBytes m 0x50000 32 (fileByte hashedTable)
  { State.initial (storeByte m 0x60000 0x62) {} with
    neededObjCount := 1
    neededObj := fun _ ↦
      { bias := 0x02000000, strtabRead := 5, symtabRead := 48, syment := 16, symcount := 3,
        gnuhash := 0x50000 } }

theorem gnuHashTable_hashed : GnuHashTable bareEnv hashed 0 3 where
  nbucket_ne := by decide
  bloomSize_ne := by decide
  symoffset_pos := by decide
  below := by decide
  bloom := by decide
  chain := by decide
  last := by decide
  bucket := by
    intro j hlow hj
    have hone : (hashSymoffset hashed 0).toNat = 1 := by decide
    refine ⟨1, hone.le, hone ▸ hlow, ?_, ?_⟩
    · revert j
      decide
    · intro k _ _
      have hbucket : hashNbucket hashed 0 = 1 := by decide
      rw [hbucket, UInt32.mod_one, UInt32.mod_one]

/-- The name `b` is found at symbol 2, by way of the hash table as well as without it. -/
theorem gnuhash_agrees_hashed :
    resolveNeededSymbolTable bareEnv hashed 0x60000 = .found 0x02000044 ∧
      resolveNeededSymbolTable bareEnv (withoutGnuhash hashed 0) 0x60000 = .found 0x02000044 := by
  have hfound : resolveNeededSymbolTable bareEnv hashed 0x60000 = .found 0x02000044 := by
    decide
  have hagrees := gnuhash_agrees bareEnv hashed 0x60000 0 (by decide) (by decide)
    gnuHashTable_hashed
  exact ⟨hfound, hagrees.2 ▸ hfound⟩

end CaribeOS.Ld
