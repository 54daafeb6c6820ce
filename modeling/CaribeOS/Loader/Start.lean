import CaribeOS.Loader.Initializers
import CaribeOS.Loader.Soundness
import CaribeOS.Loader.Versions

/-!
# Starting the program

From the libraries on, `_start` goes through the version requirements, the two relocation tables of
the main program and the initialisers, and jumps to the program. An entry that cannot be resolved
does not keep it from doing so: the loops fall through to the next entry when there is no symbol
table, no definition, another size of entries or another kind of table, and only a version that
does not match ends the program. `noDangling_iff` says which programs start without a dangling
reference.
-/

namespace CaribeOS.Ld

open ByteMemory

/-! ## The run -/

/-- The libraries and the version requirements, up to the relocation of the main program. -/
def loadLibraries (env : Env) (depth : ℕ) (s : State) : Except Stop State := do
  let s ← probeNeededLibraries env depth s
  readMainVerneed env s

/-- `_start` from the parsed dynamic section up to the jump. -/
def start (env : Env) (body : UInt32 → Mem → Mem) (depth : ℕ) (s : State) : Except Stop State := do
  let s ← loadLibraries env depth s
  let s ← applyMainRel env s
  let s ← applyMainJmprel env s
  return callMainInitializers body (callNeededInitializers body s).1

/-- The states and entries that a loop over a table comes to. -/
def tableVisits (entry : State → UInt32 → Except Stop State) :
    ℕ → State → UInt32 → List (State × UInt32)
  | 0, _, _ => []
  | n + 1, s, a =>
    (s, a) :: match entry s a with
      | .error _ => []
      | .ok s' => tableVisits entry n s' (a + 8)

/-- A loop that comes to its end has come to the end of every entry. -/
theorem applyTable_visit {entry : State → UInt32 → Except Stop State} {n : ℕ} {s s' : State}
    {a : UInt32} (h : applyTable entry n s a = .ok s') {v : State × UInt32}
    (hv : v ∈ tableVisits entry n s a) : ∃ t, entry v.1 v.2 = .ok t := by
  induction n generalizing s a with
  | zero => exact absurd hv List.not_mem_nil
  | succ n ih =>
    rw [applyTable] at h
    rw [tableVisits] at hv
    cases hentry : entry s a with
    | error e =>
      rw [hentry] at h
      exact absurd h (by simp)
    | ok t =>
      rw [hentry] at h hv
      rcases List.mem_cons.mp hv with rfl | htail
      · exact ⟨t, hentry⟩
      · exact ih h htail

/-! ## Entries of the main program -/

/-- The entries of a table that no loop comes to. -/
def unvisited (s : State) (a size stride : UInt32) : List (State × UInt32) :=
  if a = 0 then [] else (List.range (size / stride).toNat).map fun k ↦ (s, a + .ofNat k * stride)

/-- The loop over `DT_REL` is entered. -/
def RelHandled (s : State) : Prop := ¬(s.main.rel = 0 ∨ s.main.relsz = 0 ∨ s.main.relent ≠ 8)
  deriving Decidable

/-- The loop over `DT_JMPREL` is entered. -/
def JmprelHandled (s : State) : Prop :=
  ¬(s.main.jmprel = 0 ∨ s.main.pltrelsz = 0 ∨ s.main.pltrel ≠ dtRel)
  deriving Decidable

section Entries

variable (env : Env)

/-- All of the entries of `DT_REL`, each with the state in which its turn comes. Without `DT_RELENT`
they have the eight bytes of an `Elf32_Rel`. -/
def relVisits (s : State) : List (State × UInt32) :=
  if RelHandled s then tableVisits (mainRelEntry env) (s.main.relsz / 8).toNat s s.main.rel
  else unvisited s s.main.rel s.main.relsz (if s.main.relent = 0 then 8 else s.main.relent)

/-- All of the entries of `DT_JMPREL`. Those of `DT_RELA` have twelve bytes. -/
def jmprelVisits (s : State) : List (State × UInt32) :=
  if JmprelHandled s then
    tableVisits (mainJmprelEntry env) (s.main.pltrelsz / 8).toNat s s.main.jmprel
  else unvisited s s.main.jmprel s.main.pltrelsz (if s.main.pltrel = 7 then 12 else 8)

/-- The entry asks for the address of a symbol that is not weak. Without a symbol table nothing makes
it weak. -/
def StrongReference (s : State) (r : Rel) : Prop :=
  (r.type = rRiscv32 ∨ r.type = rRiscvJumpSlot) ∧
    ¬(s.main.symtab ≠ 0 ∧ s.main.syment ≠ 0 ∧ (symAt s.mem (mainSymbol s r)).Weak)
  deriving Decidable

/-- The state in which the libraries are searched for the symbol of an entry. -/
def forSymbol (s : State) (r : Rel) : State :=
  { s with currentMainSymVersym := mainSymVersym s (mainSymbol s r) }

/-- Where the name of the symbol of an entry is. -/
def mainName (s : State) (r : Rel) : UInt32 := loadWord s.mem (mainSymbol s r) + s.main.strtab

/-- The symbol of an entry has a name within the string table. -/
def Named (s : State) (r : Rel) : Prop :=
  ¬(s.main.strtab = 0 ∨ s.main.strsz = 0 ∨ s.main.strsz ≤ loadWord s.mem (mainSymbol s r))

/-- A registered library has a definition of the symbol, at `S`. -/
def LibraryDefinition (s : State) (r : Rel) (S : UInt32) : Prop :=
  Named s r ∧ ∃ i < s.neededObjCount, ∃ k : UInt32,
    Offers env (forSymbol s r) (mainName s r) (gnuHashName s.mem (mainName s r)) i k ∧
      S = (slotSym env s i k).value + (s.neededObj i).bias

/-- The symbol of an entry has a definition at `S`: a nonzero one of its own, else that of a
registered library. -/
def Definition (s : State) (r : Rel) (S : UInt32) : Prop :=
  s.main.symtab ≠ 0 ∧ s.main.syment ≠ 0 ∧
    (loadWord s.mem (mainSymbol s r + 4) ≠ 0 ∧
        S = loadWord s.mem (mainSymbol s r + 4) + s.main.mainBias ∨
      loadWord s.mem (mainSymbol s r + 4) = 0 ∧ LibraryDefinition env s r S)

/-- The entry has been resolved and applied: the rule stores the word of the psABI for a
definition. -/
def Bound (rule : State → Rel → Except Stop (Option UInt32)) (s : State) (r : Rel) : Prop :=
  ∃ S, Definition env s r S ∧
    rule s r = .ok (some (r.word s.main.mainBias (loadWord s.mem (r.offset + s.main.mainBias))
      (.found S)))

/-- No strong reference of the two tables is left dangling, when relocation begins in `s` and the
second table in `t`. -/
structure NoDangling (s t : State) : Prop where
  rel : ∀ v ∈ relVisits env s, StrongReference v.1 (relAt v.1.mem v.2) →
    RelHandled s ∧ Bound env (mainRel env) v.1 (relAt v.1.mem v.2)
  jmprel : ∀ v ∈ jmprelVisits env t, StrongReference v.1 (relAt v.1.mem v.2) →
    JmprelHandled t ∧ Bound env (mainJmprel env) v.1 (relAt v.1.mem v.2)

/-- Every strong reference has a definition and is in a table of the kind that is handled there. -/
structure Resolvable (s t : State) : Prop where
  rel : ∀ v ∈ relVisits env s, StrongReference v.1 (relAt v.1.mem v.2) →
    RelHandled s ∧ ∃ S, Definition env v.1 (relAt v.1.mem v.2) S
  jmprel : ∀ v ∈ jmprelVisits env t, StrongReference v.1 (relAt v.1.mem v.2) →
    JmprelHandled t ∧ (relAt v.1.mem v.2).type = rRiscvJumpSlot ∧
      ∃ S, Definition env v.1 (relAt v.1.mem v.2) S

end Entries

/-! ## Definitions are found -/

variable {S : UInt32} {w : Option UInt32}

section Found

variable {env : Env} {s : State} {name hash : UInt32}

theorem Lookup.orElse_ne_missing {l l' : Lookup} (h : l ≠ .missing ∨ l' ≠ .missing) :
    l.orElse l' ≠ .missing := by
  cases l with
  | missing => exact h.resolve_left (fun hne ↦ hne rfl)
  | exited => exact fun h ↦ by cases h
  | found v => exact fun h ↦ by cases h

theorem Offers.resolveInObject_ne_missing {i : ℕ} {k : UInt32}
    (h : Offers env s name hash i k) : resolveInObject env s name hash i ≠ .missing := by
  obtain ⟨hsearched, hk, hdefines, hzero⟩ := h
  rw [resolveInObject, if_neg hsearched]
  apply Lookup.orElse_ne_missing
  by_cases hk0 : k = 0
  · left
    rw [if_pos (hzero hk0).1]
    exact (hzero hk0).2
  · right
    have hpos : 0 < k.toNat := by
      rw [Nat.pos_iff_ne_zero]
      exact fun hnat ↦ hk0 (UInt32.toNat_inj.mp hnat)
    rw [show (1 : UInt32) = .ofNat 1 from rfl, symtabScan_eq]
    cases hfirst : firstDefinition env s i name 1 ((objSymbols (s.neededObj i)).toNat - 1) with
    | none =>
      rw [firstDefinition, List.find?_eq_none] at hfirst
      have hmem := hfirst k.toNat (List.mem_range'_1.mpr ⟨hpos, by omega⟩)
      rw [UInt32.ofNat_toNat, decide_eq_true_iff] at hmem
      exact absurd hdefines hmem
    | some j => exact slotHit_ne_missing _

theorem resolveFrom_ne_missing {left k i : ℕ} (hk : k ≤ i) (hi : i < k + left)
    (h : resolveInObject env s name hash i ≠ .missing) :
    resolveFrom env s name hash left k ≠ .missing := by
  induction left generalizing k with
  | zero => exact absurd hk (by omega)
  | succ left ih =>
    apply Lookup.orElse_ne_missing
    rcases Nat.eq_or_lt_of_le hk with rfl | hlt
    · exact .inl h
    · exact .inr (ih hlt (by omega))

/-- A symbol with a definition in a registered library: the look-up ends the program, or it finds
one. -/
theorem LibraryDefinition.lookup {r : Rel} (h : LibraryDefinition env s r S) :
    resolveNeededSymbolPreserve env s (mainSymbol s r) = .exited ∨
      ∃ S, LibraryDefinition env s r S ∧
        resolveNeededSymbolPreserve env s (mainSymbol s r) = .found S := by
  obtain ⟨hnamed, i, hi, k, hoffers, -⟩ := h
  have heq : resolveNeededSymbolPreserve env s (mainSymbol s r) =
      (resolveNeededSymbolTable env (forSymbol s r) (mainName s r)).orElse
        (resolveInBuffer env (forSymbol s r) (mainName s r)) := by
    exact if_neg hnamed
  have hne : resolveNeededSymbolTable env (forSymbol s r) (mainName s r) ≠ .missing :=
    resolveFrom_ne_missing (Nat.zero_le i) (by rw [Nat.zero_add]; exact hi)
      hoffers.resolveInObject_ne_missing
  rw [heq]
  cases htable : resolveNeededSymbolTable env (forSymbol s r) (mainName s r) with
  | missing => exact absurd htable hne
  | exited => exact .inl rfl
  | found v =>
    obtain ⟨j, hj, k', -, hoffers', hv⟩ := resolveFrom_visits htable
    rw [Nat.zero_add] at hj
    exact .inr ⟨v, ⟨hnamed, j, hj, k', hoffers', hv⟩, rfl⟩

theorem Definition.lookup {r : Rel} (h : Definition env s r S) :
    mainLookup env s r = some .exited ∨
      ∃ S, Definition env s r S ∧ mainLookup env s r = some (.found S) := by
  obtain ⟨hsymtab, hsyment, hdef⟩ := h
  have htables : ¬(s.main.symtab = 0 ∨ s.main.syment = 0) := not_or.mpr ⟨hsymtab, hsyment⟩
  rcases hdef with ⟨hown, rfl⟩ | ⟨hown, hlib⟩
  · refine .inr ⟨_, ⟨hsymtab, hsyment, .inl ⟨hown, rfl⟩⟩, ?_⟩
    rw [mainLookup, if_neg htables]
    exact if_pos hown
  · have hlook : mainLookup env s r =
        some (resolveNeededSymbolPreserve env s (mainSymbol s r)) := by
      rw [mainLookup, if_neg htables]
      exact if_neg (not_not.mpr hown)
    rcases hlib.lookup with hexit | ⟨S', hlib', hfound⟩
    · rw [hlook, hexit]
      exact .inl rfl
    · rw [hlook, hfound]
      exact .inr ⟨S', ⟨hsymtab, hsyment, .inr ⟨hown, hlib'⟩⟩, rfl⟩

end Found

/-! ## Entries are applied -/

section Applied

variable {env : Env} {s : State} {r : Rel}

theorem applyEntry_ok {rule : State → Rel → Except Stop (Option UInt32)} {bias : State → UInt32}
    {a : UInt32} {t : State} (h : applyEntry rule bias s a = .ok t) :
    ∃ w, rule s (relAt s.mem a) = .ok w := by
  rw [applyEntry] at h
  cases hrule : rule s (relAt s.mem a) with
  | error e =>
    rw [hrule] at h
    exact absurd h (by simp)
  | ok w => exact ⟨w, rfl⟩

theorem mainJumpSlot_bound (h : Definition env s r S) (hok : mainJumpSlot env s r = .ok w) :
    ∃ S, Definition env s r S ∧ mainJumpSlot env s r = .ok (some S) := by
  rcases h.lookup with hexit | ⟨S', hdef, hfound⟩
  · rw [mainJumpSlot, hexit] at hok
    exact absurd hok (by simp)
  · refine ⟨S', hdef, ?_⟩
    rw [mainJumpSlot, hfound]

theorem mainRel_bound (h : Definition env s r S)
    (htype : r.type = rRiscv32 ∨ r.type = rRiscvJumpSlot) (hok : mainRel env s r = .ok w) :
    Bound env (mainRel env) s r := by
  have hrelative32 : rRiscv32 ≠ rRiscvRelative := by decide
  have hrelativeSlot : rRiscvJumpSlot ≠ rRiscvRelative := by decide
  have hslot32 : rRiscvJumpSlot ≠ rRiscv32 := by decide
  rcases htype with htype | htype
  · have hne : r.type ≠ rRiscvRelative := by rw [htype]; exact hrelative32
    rw [mainRel, if_neg hne, if_pos htype] at hok
    rcases h.lookup with hexit | ⟨S', hdef, hfound⟩
    · rw [hexit] at hok
      exact absurd hok (by simp)
    · refine ⟨S', hdef, ?_⟩
      rw [mainRel, if_neg hne, if_pos htype, hfound, Rel.word, if_neg hne, if_pos htype]
      rfl
  · have hne : r.type ≠ rRiscvRelative := by rw [htype]; exact hrelativeSlot
    have hne32 : r.type ≠ rRiscv32 := by rw [htype]; exact hslot32
    rw [mainRel, if_neg hne, if_neg hne32, if_pos htype] at hok
    obtain ⟨S', hdef, hslot⟩ := mainJumpSlot_bound h hok
    refine ⟨S', hdef, ?_⟩
    rw [mainRel, if_neg hne, if_neg hne32, if_pos htype, hslot, Rel.word, if_neg hne, if_neg hne32]
    rfl

theorem mainJmprel_bound (h : Definition env s r S) (htype : r.type = rRiscvJumpSlot)
    (hok : mainJmprel env s r = .ok w) : Bound env (mainJmprel env) s r := by
  have hne : r.type ≠ rRiscvRelative := by rw [htype]; decide
  have hne32 : r.type ≠ rRiscv32 := by rw [htype]; decide
  rw [mainJmprel, if_pos htype] at hok
  obtain ⟨S', hdef, hslot⟩ := mainJumpSlot_bound h hok
  refine ⟨S', hdef, ?_⟩
  rw [mainJmprel, if_pos htype, hslot, Rel.word, if_neg hne, if_neg hne32]
  rfl

/-- In `DT_JMPREL` only jump slots are applied. -/
theorem Bound.jumpSlot (h : Bound env (mainJmprel env) s r) : r.type = rRiscvJumpSlot := by
  obtain ⟨S, -, hrule⟩ := h
  by_contra hne
  rw [mainJmprel, if_neg hne] at hrule
  exact absurd hrule (by simp)

end Applied

/-- What `_start` has gone through when it comes to the jump. -/
theorem start_ok {env : Env} {body : UInt32 → Mem → Mem} {depth : ℕ} {s s' : State}
    (h : start env body depth s = .ok s') :
    ∃ s₁ s₂ s₃, loadLibraries env depth s = .ok s₁ ∧ applyMainRel env s₁ = .ok s₂ ∧
      applyMainJmprel env s₂ = .ok s₃ := by
  rw [start] at h
  cases hload : loadLibraries env depth s with
  | error e =>
    rw [hload] at h
    exact absurd h (by simp [bind, Except.bind])
  | ok s₁ =>
    cases hrel : applyMainRel env s₁ with
    | error e =>
      rw [hload] at h
      simp only [bind, Except.bind, hrel] at h
      exact absurd h (by simp)
    | ok s₂ =>
      cases hjmprel : applyMainJmprel env s₂ with
      | error e =>
        rw [hload] at h
        simp only [bind, Except.bind, hrel, hjmprel] at h
        exact absurd h (by simp)
      | ok s₃ => exact ⟨s₁, s₂, s₃, rfl, hrel, hjmprel⟩

/-- **Dangling references.** When the loader comes to the jump, all of the strong references of the
main program have been resolved and applied exactly when each of them has a definition and is in a
table that is handled, which in `DT_JMPREL` is so for jump slots only. -/
theorem noDangling_iff {env : Env} {body : UInt32 → Mem → Mem} {depth : ℕ} {s s' : State}
    (h : start env body depth s = .ok s') :
    ∃ s₁ s₂ s₃, loadLibraries env depth s = .ok s₁ ∧ applyMainRel env s₁ = .ok s₂ ∧
      applyMainJmprel env s₂ = .ok s₃ ∧ (NoDangling env s₁ s₂ ↔ Resolvable env s₁ s₂) := by
  obtain ⟨s₁, s₂, s₃, hload, hrel, hjmprel⟩ := start_ok h
  refine ⟨s₁, s₂, s₃, hload, hrel, hjmprel, ?_, ?_⟩
  · intro hbound
    constructor
    · intro v hv hstrong
      obtain ⟨hhandled, S, hdef, -⟩ := hbound.rel v hv hstrong
      exact ⟨hhandled, S, hdef⟩
    · intro v hv hstrong
      obtain ⟨hhandled, hb⟩ := hbound.jmprel v hv hstrong
      have htype := hb.jumpSlot
      obtain ⟨S, hdef, -⟩ := hb
      exact ⟨hhandled, htype, S, hdef⟩
  · intro hres
    constructor
    · intro v hv hstrong
      obtain ⟨hhandled, S, hdef⟩ := hres.rel v hv hstrong
      rw [relVisits, if_pos hhandled] at hv
      rw [applyMainRel, if_neg hhandled] at hrel
      obtain ⟨t, ht⟩ := applyTable_visit hrel hv
      obtain ⟨w, hw⟩ := applyEntry_ok ht
      exact ⟨hhandled, mainRel_bound hdef hstrong.1 hw⟩
    · intro v hv hstrong
      obtain ⟨hhandled, htype, S, hdef⟩ := hres.jmprel v hv hstrong
      rw [jmprelVisits, if_pos hhandled] at hv
      rw [applyMainJmprel, if_neg hhandled] at hjmprel
      obtain ⟨t, ht⟩ := applyTable_visit hjmprel hv
      obtain ⟨w, hw⟩ := applyEntry_ok ht
      exact ⟨hhandled, mainJmprel_bound hdef htype hw⟩

/-! ## Samples -/

/-- A main program with one jump slot in `DT_REL`, for symbol 1, which is global and has the value
given. The symbols are at `0x10000`, the table at `0x10100` and the slot at `0x10200`, which is
`0x40` more than its offset. -/
def jumpSlotMain (value : UInt32) : State :=
  let symbols := fileOfWords [0, 0, 0, 0, 1, value, 0, 0x10]
  let table := fileOfWords [0x101c0, 0x105]
  let m := writeBytes (fun _ ↦ 0) 0x10000 symbols.length (fileByte symbols)
  State.initial (writeBytes m 0x10100 table.length (fileByte table))
    { strtab := 0x10300, strsz := 2, symtab := 0x10000, syment := 16,
      rel := 0x10100, relsz := 8, relent := 8, mainBias := 0x40 }

/-- The state at the jump. -/
def started (s : State) : State :=
  match start bareEnv (fun _ m ↦ m) 1 s with
  | .ok s => s
  | .error _ => s

theorem relVisits_jumpSlotMain (value : UInt32) :
    relVisits bareEnv (jumpSlotMain value) = [(jumpSlotMain value, 0x10100)] := by
  have hhandled : RelHandled (jumpSlotMain value) := by
    change ¬((0x10100 : UInt32) = 0 ∨ (8 : UInt32) = 0 ∨ (8 : UInt32) ≠ 8)
    decide
  have hone : ((jumpSlotMain value).main.relsz / 8).toNat = 1 := by
    change ((8 : UInt32) / 8).toNat = 1
    decide
  rw [relVisits, if_pos hhandled, hone, tableVisits]
  split
  · rfl
  · rfl

/-- A jump slot for a symbol of the program itself. -/
theorem noDangling_jumpSlotMain :
    NoDangling bareEnv (jumpSlotMain 0x44) (started (jumpSlotMain 0x44)) := by
  have hstart : start bareEnv (fun _ m ↦ m) 1 (jumpSlotMain 0x44) =
      .ok (started (jumpSlotMain 0x44)) := rfl
  obtain ⟨s₁, s₂, s₃, hload, hrel, -, hiff⟩ := noDangling_iff hstart
  obtain rfl : jumpSlotMain 0x44 = s₁ := Except.ok.inj hload
  obtain rfl : started (jumpSlotMain 0x44) = s₂ := Except.ok.inj hrel
  refine hiff.mpr ⟨?_, ?_⟩
  · rw [relVisits_jumpSlotMain, List.forall_mem_singleton]
    exact fun _ ↦ ⟨by decide, 0x84, by decide, by decide, .inl ⟨by decide, by decide⟩⟩
  · exact fun v hv ↦ absurd hv List.not_mem_nil

/-- A jump slot for an undefined symbol, without any library: the program starts, and the slot is
what it was. -/
theorem started_with_dangling_reference :
    start bareEnv (fun _ m ↦ m) 1 (jumpSlotMain 0) = .ok (started (jumpSlotMain 0)) ∧
      StrongReference (jumpSlotMain 0) (relAt (jumpSlotMain 0).mem 0x10100) ∧
        loadWord (started (jumpSlotMain 0)).mem 0x10200 = 0 ∧
          ¬NoDangling bareEnv (jumpSlotMain 0) (started (jumpSlotMain 0)) := by
  have hstrong : StrongReference (jumpSlotMain 0) (relAt (jumpSlotMain 0).mem 0x10100) := by
    decide
  refine ⟨rfl, hstrong, by decide, fun h ↦ ?_⟩
  have hvisit : (jumpSlotMain 0, 0x10100) ∈ relVisits bareEnv (jumpSlotMain 0) := by
    exact List.mem_singleton_self _
  obtain ⟨-, S, ⟨-, -, hdef⟩, -⟩ := h.rel _ hvisit hstrong
  rcases hdef with ⟨hown, -⟩ | ⟨-, -, i, hi, -⟩
  · exact hown (by decide)
  · exact absurd hi (Nat.not_lt_zero i)

end CaribeOS.Ld
