import CaribeOS.Loader.Clean
import CaribeOS.Loader.Descent
import CaribeOS.Loader.Soundness

/-!
# Registered libraries

The second half of a load: relocation, which stays in the slot of the library, and registration,
which copies the tables. With the first half it makes the entry of a `Loadable` library in the
registry a function of its file, whatever the libraries before it have left behind:
`registered_entry_is_library`.
-/

namespace CaribeOS.Ld

open ByteMemory

/-! ## Look-ups that do not end the program -/

section Matched

variable {env : Env} {s : State}

theorem slotHit_of_unmatched (h : s.verneed.matched = false) (i : ℕ) (j : UInt32) :
    slotHit env s i j = .found ((slotSym env s i j).value + (s.neededObj i).bias) := by
  have henforce : enforceVersym s i j = true := by
    rw [enforceVersym]
    by_cases hversym : (s.neededObj i).versym = 0
    · rw [if_pos hversym, enforceMissingNeededVersym, h]
      rfl
    · rw [if_neg hversym, enforceNeededVersym, h]
      rfl
  rw [slotHit, if_pos henforce]

/-- As long as no requirement of the main program has been matched, versions are not looked at. -/
theorem resolveInObject_ne_exited (h : s.verneed.matched = false) (name hash : UInt32) (i : ℕ) :
    resolveInObject env s name hash i ≠ .exited := by
  have hscan : symtabScan env s name i ((objSymbols (s.neededObj i)).toNat - 1) 1 ≠ .exited := by
    rw [show (1 : UInt32) = .ofNat 1 from rfl, symtabScan_eq]
    cases firstDefinition env s i name 1 ((objSymbols (s.neededObj i)).toNat - 1) with
    | none => exact fun hexit ↦ by cases hexit
    | some k =>
      rw [Lookup.ofDefinition, slotHit_of_unmatched h]
      exact fun hexit ↦ by cases hexit
  rw [resolveInObject]
  split_ifs with hskip hhash
  · exact fun hexit ↦ by cases hexit
  · by_cases hmiss : resolveNeededSymbolGnuhash env s name hash i (objSymbols (s.neededObj i)) =
        .missing
    · rw [hmiss]
      exact hscan
    · obtain ⟨k, -, -, heq⟩ := resolveNeededSymbolGnuhash_hit hmiss
      rw [heq, slotHit_of_unmatched h]
      exact fun hexit ↦ by cases hexit
  · exact hscan

theorem resolveNeededSymbolTable_ne_exited (h : s.verneed.matched = false) (name : UInt32) :
    resolveNeededSymbolTable env s name ≠ .exited := by
  have hfrom : ∀ hash left k, resolveFrom env s name hash left k ≠ .exited := by
    intro hash left
    induction left with
    | zero => exact fun k hexit ↦ by cases hexit
    | succ left ih =>
      intro k
      rw [resolveFrom]
      have hobject : resolveInObject env s name hash k ≠ .exited :=
        resolveInObject_ne_exited h name hash k
      cases hlook : resolveInObject env s name hash k with
      | missing => exact ih (k + 1)
      | exited => exact absurd hlook hobject
      | found v => exact fun hexit ↦ by cases hexit
  exact hfrom _ _ _

theorem neededRel_ok_of_unmatched (h : s.verneed.matched = false) (r : Rel) :
    ∃ w, neededRel env s r = .ok w := by
  rw [neededRel]
  split_ifs
  · exact ⟨_, rfl⟩
  · cases hlook : neededLookup env s r with
    | none => exact ⟨none, rfl⟩
    | some l =>
      cases l with
      | missing => exact ⟨none, rfl⟩
      | found v => exact ⟨_, rfl⟩
      | exited =>
        rw [neededLookup] at hlook
        split_ifs at hlook
        exact absurd (Option.some.inj hlook) (resolveNeededSymbolTable_ne_exited h _)
  · exact ⟨none, rfl⟩

end Matched

/-! ## Entries one after the other -/

/-- A loop over entries that are given by their addresses. -/
def applyEntries (entry : State → UInt32 → Except Stop State) :
    List UInt32 → State → Except Stop State
  | [], s => .ok s
  | a :: as, s =>
    match entry s a with
    | .error e => .error e
    | .ok s' => applyEntries entry as s'

variable {s : State} {m : Mem}

variable {a : UInt32} {bias : State → UInt32} {rule : State → Rel → Except Stop (Option UInt32)}
  {t : State} {m' : Mem} {pos : ℕ}

section Entries

variable {entry : State → UInt32 → Except Stop State}

theorem applyTable_eq_applyEntries (n : ℕ) (s : State) (a : UInt32) :
    applyTable entry n s a =
      applyEntries entry ((List.range n).map fun k ↦ a + .ofNat (8 * k)) s := by
  induction n generalizing s a with
  | zero => rfl
  | succ n ih =>
    have hnext : (List.range n).map ((fun k ↦ a + .ofNat (8 * k)) ∘ Nat.succ) =
        (List.range n).map fun k ↦ a + 8 + .ofNat (8 * k) := by
      refine List.map_congr_left fun k _ ↦ ?_
      rw [Function.comp_apply, Nat.mul_succ, Nat.add_comm, ← add_ofNat_add]
      rfl
    rw [applyTable, List.range_succ_eq_map, List.map_cons, List.map_map, hnext, applyEntries,
      Nat.mul_zero, add_ofNat_zero]
    cases hentry : entry s a with
    | error e => rfl
    | ok s' => exact ih s' (a + 8)

theorem applyEntries_append (as bs : List UInt32) (s : State) :
    applyEntries entry (as ++ bs) s =
      match applyEntries entry as s with
      | .error e => .error e
      | .ok t => applyEntries entry bs t := by
  induction as generalizing s with
  | nil => rfl
  | cons a as ih =>
    rw [List.cons_append, applyEntries, applyEntries]
    cases entry s a with
    | error e => rfl
    | ok t => exact ih t

theorem applyEntry_mem_only (h : applyEntry rule bias s a = .ok t) :
    t = { s with mem := t.mem } := by
  rw [applyEntry] at h
  split at h
  · exact absurd h (by simp)
  · cases Except.ok.inj h
    rfl
  · cases Except.ok.inj h
    rfl

theorem applyEntries_mem_only {as : List UInt32}
    (h : applyEntries (applyEntry rule bias) as s = .ok t) : t = { s with mem := t.mem } := by
  induction as generalizing s with
  | nil =>
    cases Except.ok.inj h
    rfl
  | cons a as ih =>
    rw [applyEntries] at h
    cases hentry : applyEntry rule bias s a with
    | error e =>
      rw [hentry] at h
      exact absurd h (by simp)
    | ok u =>
      rw [hentry] at h
      rw [ih h, applyEntry_mem_only hentry]

end Entries

/-! ## Relocation in the slot -/

section Relocation

variable {env : Env} {f : File} {i : ℕ} {t : State}

theorem applyNeededRelocationTable_eq (hbias : s.scratch.loadBias = fileBias f i)
    (rel relsz relent : UInt32) :
    applyNeededRelocationTable env s rel relsz relent =
      applyEntries (neededRelEntry env) ((relocTable f rel relsz relent).map (slotBase i + ·)) s := by
  rw [applyNeededRelocationTable, relocTable]
  split_ifs
  · rfl
  · rw [applyTable_eq_applyEntries, hbias, add_fileBias, List.map_map]
    refine congrArg (applyEntries (neededRelEntry env) · s) (List.map_congr_left fun k _ ↦ ?_)
    exact UInt32.add_assoc _ _ _

theorem applyNeededRelocations_eq (h : TablesIn env f i t) :
    applyNeededRelocations env t =
      applyEntries (neededRelEntry env) ((relocEntries f).map (slotBase i + ·)) t := by
  rw [applyNeededRelocations, relocEntries, h.lib]
  rw [List.map_append, applyEntries_append, applyNeededRelocationTable_eq h.bias]
  cases hrel : applyEntries (neededRelEntry env)
      ((relocTable f (fileLib f).rel (fileLib f).relsz (fileLib f).relent).map (slotBase i + ·))
      t with
  | error e => rfl
  | ok u =>
    have hbias : u.scratch.loadBias = fileBias f i := by
      rw [applyEntries_mem_only hrel]
      exact h.bias
    split_ifs
    · exact applyNeededRelocationTable_eq hbias _ _ _
    · rfl

/-- While a library is being relocated: memory outside its slot is as it was, and so are the
entries. -/
structure Relocating (f : File) (i : ℕ) (m m' : Mem) : Prop where
  outside : SameOutside (InSlot i) m m'
  entries : ∀ e ∈ relocEntries f, relAt m' (slotBase i + e) = relAt (image f) e

theorem relAt_congr (h : ∀ k < 8, m' (a + .ofNat k) = m (a + .ofNat k)) :
    relAt m' a = relAt m a := by
  have hfirst := loadWord_image h (o := 0) (by omega)
  have hsecond : loadWord m' (a + 4) = loadWord m (a + 4) := loadWord_image h (o := 4) (by omega)
  rw [add_ofNat_zero] at hfirst
  rw [relAt, relAt, hfirst, hsecond]

theorem Loadable.relocating (h : Loadable f) (himaged : Imaged f i m) : Relocating f i m m where
  outside := .refl _ _
  entries := by
    intro e he
    have hblock := himaged.block (h.relocs.entries e he).1
    have hfirst := loadWord_image hblock (o := 0) (by omega)
    have hsecond : loadWord m (slotBase i + e + 4) = loadWord (image f) (e + 4) :=
      loadWord_image hblock (o := 4) (by omega)
    rw [add_ofNat_zero, add_ofNat_zero] at hfirst
    rw [relAt, relAt, hfirst, hsecond]

theorem Relocating.store (h : Loadable f) (hm : Relocating f i m m') {e : UInt32}
    (he : e ∈ relocEntries f) (w : UInt32) :
    Relocating f i m (storeWord m' (slotBase i + relocTarget f e) w) where
  outside := by
    refine hm.outside.trans fun x hx ↦ storeWord_of_le m' w ?_
    by_contra hlt
    apply hx
    have htarget := h.relocs.targets e he
    rw [UInt32.not_le, UInt32.lt_iff_toNat_lt] at hlt
    have hblock : InBlock (slotBase i + relocTarget f e) 4 x := hlt
    have hofNat : relocTarget f e = .ofNat (relocTarget f e).toNat := by rw [UInt32.ofNat_toNat]
    rw [hofNat] at hblock
    exact hblock.of_add htarget (by decide)
  entries := by
    intro e' he'
    rw [← hm.entries e' he']
    refine relAt_congr fun k hk ↦ storeWord_of_le m' w ?_
    obtain ⟨hle, hle'⟩ := h.relocs.apart e he e' he'
    have hdist : slotBase i + e' + .ofNat k - (slotBase i + relocTarget f e) =
        e' - relocTarget f e + .ofNat k := by grind
    -- the entry is eight bytes, none of which is among the four of the target
    rw [hdist, UInt32.le_iff_toNat_le, UInt32.toNat_add, UInt32.toNat_ofNat']
    rw [UInt32.le_iff_toNat_le] at hle hle'
    have hsub : (relocTarget f e - e').toNat = (4294967296 - (e' - relocTarget f e).toNat) %
        4294967296 := by
      have hneg : relocTarget f e - e' = 0 - (e' - relocTarget f e) := by grind
      rw [hneg, UInt32.toNat_sub, UInt32.toNat_zero]
      rfl
    have h8 : (8 : UInt32).toNat = 8 := rfl
    omega

theorem neededRelEntry_relocating (h : Loadable f)
    (hbias : t.scratch.loadBias = fileBias f i) {m : Mem} (hm : Relocating f i t.mem m)
    {e : UInt32} (he : e ∈ relocEntries f) :
    neededRelEntry env { t with mem := m } (slotBase i + e) = .error .exited ∨
      ∃ m', neededRelEntry env { t with mem := m } (slotBase i + e) = .ok { t with mem := m' } ∧
        Relocating f i t.mem m' := by
  have hentry : relAt m (slotBase i + e) = relAt (image f) e := hm.entries e he
  rw [neededRelEntry, applyEntry]
  rw [hentry]
  cases hrule : neededRel env { t with mem := m } (relAt (image f) e) with
  | error e' =>
    have hexited : e' = .exited := by
      rw [neededRel] at hrule
      split_ifs at hrule
      split at hrule
      · exact absurd hrule (by simp)
      · exact (Except.error.inj hrule).symm
      · exact absurd hrule (by simp)
      · exact absurd hrule (by simp)
    rw [hexited]
    exact .inl rfl
  | ok w =>
    cases w with
    | none => exact .inr ⟨m, rfl, hm⟩
    | some w =>
      refine .inr ⟨_, rfl, ?_⟩
      rw [hbias, add_fileBias]
      exact hm.store h he w

theorem applyEntries_relocating (h : Loadable f) (hbias : t.scratch.loadBias = fileBias f i)
    {es : List UInt32} (hes : ∀ e ∈ es, e ∈ relocEntries f) (hm : Relocating f i t.mem m) :
    applyEntries (neededRelEntry env) (es.map (slotBase i + ·)) { t with mem := m } =
        .error .exited ∨
      ∃ m', applyEntries (neededRelEntry env) (es.map (slotBase i + ·)) { t with mem := m } =
          .ok { t with mem := m' } ∧ Relocating f i t.mem m' := by
  induction es generalizing m with
  | nil => exact .inr ⟨m, rfl, hm⟩
  | cons e es ih =>
    rw [List.map_cons, applyEntries]
    rcases @neededRelEntry_relocating env _ _ _ h hbias _ hm _ (hes e List.mem_cons_self) with
      hexit | ⟨m', hok, hm'⟩
    · rw [hexit]
      exact .inl rfl
    · rw [hok]
      exact ih (fun e' he' ↦ hes e' (List.mem_cons_of_mem e he')) hm'

/-- **Relocation stays in the slot.** -/
theorem applyNeededRelocations_loadable (h : Loadable f) (ht : TablesIn env f i t)
    (himaged : Imaged f i t.mem) :
    applyNeededRelocations env t = .error .exited ∨
      ∃ m', applyNeededRelocations env t = .ok { t with mem := m' } ∧ Relocating f i t.mem m' := by
  rw [applyNeededRelocations_eq ht]
  exact applyEntries_relocating h ht.bias (fun _ he ↦ he) (h.relocating himaged)

/-- Without a matched requirement it does not end the program. -/
theorem applyNeededRelocations_ne_exited (ht : TablesIn env f i t)
    (hmatched : t.verneed.matched = false) : applyNeededRelocations env t ≠ .error .exited := by
  rw [applyNeededRelocations_eq ht]
  clear ht
  generalize (relocEntries f).map (slotBase i + ·) = as
  induction as generalizing t with
  | nil => exact fun hexit ↦ by cases hexit
  | cons a as ih =>
    rw [applyEntries]
    obtain ⟨w, hw⟩ := @neededRel_ok_of_unmatched env _ hmatched (relAt t.mem a)
    cases hentry : neededRelEntry env t a with
    | error e =>
      rw [neededRelEntry, applyEntry, hw] at hentry
      cases w with
      | none => exact absurd hentry (by simp)
      | some w => exact absurd hentry (by simp)
    | ok u =>
      refine ih ?_
      rw [applyEntry_mem_only hentry]
      exact hmatched

end Relocation

/-! ## From the header to the registration -/

/-- The library `f` has been read and mapped as object `i`, and it is not yet relocated. -/
structure ReadIn (env : Env) (f : File) (i : ℕ) (s t : State) : Prop where
  tables : TablesIn env f i t
  slot : InSlotOf f i t.scratch
  imaged : Imaged f i t.mem
  registry : SameRegistry s t
  maps : t.maps = s.maps ++ ((filePhdrs f).filter (Mapped t.scratch ·)).map (segmentCall t.scratch)
  outside : SameOutside (fun x ↦ InBuffers env 256 1280 x ∨ InSlot i x) s.mem t.mem

section Load

variable {env : Env} {f : File} {s t : State} {i : ℕ}

theorem loadNeededSegments_loadable (h : Loadable f) (hi : s.currentNeededObjIndex ≤ 8)
    (hserves : Serves env s.calls (filePhdrs f).length) (hfd : s.fd = some ⟨f, pos⟩)
    (hin : HeaderIn env s.mem f) :
    loadNeededSegments env s = afterSegments (withSlot s (fileBounds f)) f (filePhdrs f) ∧
      SameOutside (InSlot s.currentNeededObjIndex) s.mem (loadNeededSegments env s).mem ∧
        Imaged f s.currentNeededObjIndex (loadNeededSegments env s).mem := by
  have heq := loadNeededSegments_served hin h.header h.segments.fit h.segments.accepted
    (fun k hk ↦ (hserves k hk).mmap) hfd hi
  have hslot : InSlotOf f s.currentNeededObjIndex (withSlot s (fileBounds f)).scratch := ⟨rfl, rfl⟩
  refine ⟨heq, ?_, ?_⟩
  · rw [heq]
    exact foldl_mapSegment_sameOutside hslot hi h.segments.fit s.mem
  · rw [heq]
    intro x hx
    exact foldl_mapSegment_image hslot hi (.inr hx)

theorem beforeRegister_read (h : Loadable f) (hi : s.currentNeededObjIndex ≤ 8)
    (hserves : Serves env s.calls ((filePhdrs f).length + 6)) (hfd : s.fd = some ⟨f, pos⟩)
    (hin : HeaderIn env s.mem f) (hread : s.scratch.read = fileRead f 0 256) :
    ∃ t, ReadIn env f s.currentNeededObjIndex s t ∧
      beforeRegister env s = applyNeededRelocations env t := by
  rw [beforeRegister, probeNeededPhdrs_eq hin h.header hread h.tables.dynamic]
  generalize hu : ({ s with
    scratch :=
      { s.scratch with
        dynamicOff := (dynamicPhdr f).offset
        dynamicSize := (dynamicPhdr f).filesz } } : State) = u
  have hindex : u.currentNeededObjIndex = s.currentNeededObjIndex := by rw [← hu]
  have hfd' : u.fd = some ⟨f, pos⟩ := by rw [← hu]; exact hfd
  have hin' : HeaderIn env u.mem f := by rw [← hu]; exact hin
  have hcalls : u.calls = s.calls := by rw [← hu]
  have hmem : u.mem = s.mem := by rw [← hu]
  have hserves' : Serves env u.calls (filePhdrs f).length := by
    rw [hcalls]
    exact hserves.tail (i := 0) (by omega)
  obtain ⟨hload, hsame, himaged⟩ :=
    loadNeededSegments_loadable h (hindex.symm ▸ hi) hserves' hfd' hin'
  have hslots : ((loadNeededSegments env u).scratch =
        { u.scratch with
          loadMinVaddr := (fileBounds f).minVaddr
          loadMaxVaddr := (fileBounds f).maxVaddr
          loadCount := (fileBounds f).count
          loadBase := slotBase u.currentNeededObjIndex
          loadBias := slotBase u.currentNeededObjIndex - (fileBounds f).minVaddr }) ∧
      (loadNeededSegments env u).fd = u.fd ∧
      (loadNeededSegments env u).calls =
        u.calls + ((filePhdrs f).filter (Mapped (loadNeededSegments env u).scratch ·)).length ∧
      (loadNeededSegments env u).maps =
        u.maps ++ ((filePhdrs f).filter
          (Mapped (loadNeededSegments env u).scratch ·)).map
            (segmentCall (loadNeededSegments env u).scratch) := by
    rw [hload]
    exact ⟨rfl, rfl, rfl, rfl⟩
  have hregistry : SameRegistry u (loadNeededSegments env u) := loadNeededSegments_sameRegistry env u
  generalize loadNeededSegments env u = v at hsame himaged hslots hregistry
  obtain ⟨hscratch, hvfd, hvcalls, hvmaps⟩ := hslots
  rw [hindex] at hscratch hsame himaged
  have hvin : HeaderIn env v.mem f := by
    refine Holds.mono hin' hsame fun k _ hk ↦ not_inSlot_buffers env hi (by omega)
  have hvserves : Serves env v.calls 6 := by
    have hle := List.length_filter_le (Mapped v.scratch ·) (filePhdrs f)
    rw [hvcalls, hcalls]
    exact hserves.tail (by omega)
  have hbase : v.scratch.loadBase = slotBase s.currentNeededObjIndex := by rw [hscratch]
  have hbias : v.scratch.loadBias = fileBias f s.currentNeededObjIndex := by
    rw [hscratch, fileBias, lowest]
  have hminVaddr : v.scratch.loadMinVaddr = lowest f := by rw [hscratch, lowest]
  have hprobe := probeNeededDynamic_loadable h hi hvserves (hvfd.trans hfd') hvin himaged
    (by rw [hscratch, ← hu]) (by rw [hscratch, ← hu]) hbase hbias
  have htables : TablesIn env f s.currentNeededObjIndex (probeNeededDynamic env v) :=
    (tablesIn_afterTables hbase hbias).congr hprobe
  have hregistry' := hregistry.trans (probeNeededDynamic_reads env v).toSameRegistry
  have hmaps' : (probeNeededDynamic env v).maps = v.maps := by
    obtain ⟨value, size, addr, hsame⟩ := hprobe
    rw [hsame]
    exact afterTables_maps v
  have hmin' : (probeNeededDynamic env v).scratch.loadMinVaddr = v.scratch.loadMinVaddr := by
    obtain ⟨value, size, addr, hsame⟩ := hprobe
    rw [hsame, afterTables_scratch]
  have hmem' : SameOutside (InBuffers env 256 1280) v.mem (probeNeededDynamic env v).mem := by
    obtain ⟨value, size, addr, hsame⟩ := hprobe
    rw [hsame]
    exact afterTables_sameOutside v f _
  have hslot : InSlotOf f s.currentNeededObjIndex (probeNeededDynamic env v).scratch :=
    ⟨htables.base, hmin'.trans hminVaddr⟩
  refine ⟨_, ⟨htables, hslot, himaged.tables h.segments.fit hi hmem', ?_, ?_, ?_⟩, rfl⟩
  · rw [← hu] at hregistry'
    exact { hregistry' with }
  · have hslot' : InSlotOf f s.currentNeededObjIndex v.scratch := ⟨hbase, hminVaddr⟩
    rw [hmaps', hvmaps, ← hu]
    congr 1
    rw [List.filter_congr fun p _ ↦ ?_, List.map_congr_left fun p _ ↦ ?_]
    · rw [segmentCall, segmentCall, segmentAddr_eq hslot hi, segmentAddr_eq hslot' hi,
        segmentLen_eq hslot hi, segmentLen_eq hslot' hi]
    · simp only [mapped_iff hslot hi, mapped_iff hslot' hi]
  · rw [hmem] at hsame
    exact (hsame.mono fun x hx ↦ .inr hx).trans (hmem'.mono fun x hx ↦ .inl hx)

end Load

/-! ## Registration -/

section Register

variable {env : Env} {f : File} {i : ℕ} {t : State}

theorem toNat_fileStrtabRead_le (f : File) : (fileStrtabRead f).toNat ≤ 512 :=
  (fileRead_le f _ _).trans (toNat_fileStrtabBytes_le f)

theorem toNat_fileSymtabRead_le (f : File) : (fileSymtabRead f).toNat ≤ 512 :=
  (fileRead_le f _ _).trans (toNat_fileSymtabBytes_le f)

theorem atMost_eq_self {size n : UInt32} (h : n.toNat ≤ size.toNat) : atMost size n = n := by
  rw [atMost]
  split_ifs with hle
  · exact UInt32.le_antisymm hle (UInt32.le_iff_toNat_le.mpr h)
  · rfl

theorem TablesIn.newObj_eq (h : TablesIn env f i t) : newObj t = fileObj f i t.neededCurrentName := by
  rw [newObj, fileObj, h.base, h.bias, h.strtabRead, h.symtabRead, h.lib, h.symcount, h.gnuhash,
    h.versym, h.verdefNdx, h.verdefHash, h.verdefNameOff]
  rfl

/-- A library that is loadable is registered as long as there is a place for it. -/
theorem TablesIn.registrable_iff (h : TablesIn env f i t) (hf : Loadable f) (hi : i ≤ 8) :
    Registrable t ↔ t.currentNeededObjIndex < maxNeededObjects := by
  rw [Registrable, h.base, h.strtabRead, h.symtabRead]
  exact ⟨fun hreg ↦ hreg.1,
    fun hlt ↦ ⟨hlt, slotBase_ne_zero hi, hf.tables.strtabRead, hf.tables.symtabRead⟩⟩

/-- The pools of the strings and the symbols of object `i`. -/
def InPools (env : Env) (i : ℕ) (x : UInt32) : Prop :=
  InBuffers env (1536 + i * 512) 512 x ∨ InBuffers env (5632 + i * 512) 512 x

theorem copyBytes_sameOutside (env : Env) (m : Mem) {o n : ℕ} (src : UInt32) (hn : n ≤ 512) :
    SameOutside (InBuffers env o 512) m (copyBytes m (env.neededElfHeader + .ofNat o) src n) :=
  (sameOutside_writeBytes _ _ _ _).mono fun _ hx ↦ InBlock.mono hx hn

/-- Whatever the lengths are, the copies of the tables stay in the pools of the object. -/
theorem copyTables_sameOutside (env : Env) (t : State) (i : ℕ) :
    SameOutside (InPools env i) t.mem (copyTables env t i) := by
  rw [copyTables, env.strtabSlot_eq, env.symtabSlot_eq]
  have hstrtab := copyBytes_sameOutside env t.mem (o := 1536 + i * 512) env.neededStrtabBuf
    (toNat_atMost_le neededObjStrtabBytes t.scratch.strtabRead)
  generalize copyBytes t.mem _ _ _ = m at hstrtab
  have hsymtab := copyBytes_sameOutside env m (o := 5632 + i * 512) env.neededSymtabBuf
    (toNat_atMost_le neededObjSymtabBytes t.scratch.symtabRead)
  exact (hstrtab.mono fun _ hx ↦ .inl hx).trans (hsymtab.mono fun _ hx ↦ .inr hx)

theorem Holds.copyBytes {o o' n off : ℕ} (h : Holds env m o f off n) (ho' : o' + n ≤ 9732) :
    Holds env (copyBytes m (env.neededElfHeader + .ofNat o') (env.neededElfHeader + .ofNat o) n) o' f
      off n := by
  intro k hk
  rw [Ld.copyBytes, ← add_ofNat_add, writeBytes_add _ _ _ hk (by omega), add_ofNat_add]
  exact h k hk

theorem copyTables_loadable (h : TablesIn env f i t) (hi : i < 8) :
    Holds env (copyTables env t i) (1536 + i * 512) f (strtabOff f).toNat (fileStrtabRead f).toNat ∧
      Holds env (copyTables env t i) (5632 + i * 512) f (symtabOff f).toNat
        (fileSymtabRead f).toNat := by
  have hstrtab := toNat_fileStrtabRead_le f
  have hsymtab := toNat_fileSymtabRead_le f
  rw [copyTables, h.strtabRead, h.symtabRead, atMost_eq_self hstrtab, atMost_eq_self hsymtab,
    env.strtabSlot_eq, env.symtabSlot_eq, env.neededStrtabBuf_eq, env.neededSymtabBuf_eq]
  generalize hm : copyBytes t.mem (env.neededElfHeader + .ofNat (1536 + i * 512))
    (env.neededElfHeader + .ofNat 512) (fileStrtabRead f).toNat = m
  have hfirst : SameOutside (InBuffers env (1536 + i * 512) 512) t.mem m := by
    rw [← hm]
    exact copyBytes_sameOutside env t.mem _ hstrtab
  have hsecond := @copyBytes_sameOutside env m (5632 + i * 512) _ (env.neededElfHeader + .ofNat 1024)
    hsymtab
  have hstrings : Holds env m (1536 + i * 512) f (strtabOff f).toNat (fileStrtabRead f).toNat := by
    rw [← hm]
    exact h.strtab.copyBytes (by omega)
  have hsymbols : Holds env m 1024 f (symtabOff f).toNat (fileSymtabRead f).toNat := by
    refine h.symtab.mono hfirst fun k hk hk' ↦ ?_
    rw [inBuffers_add env (by omega) (by omega)]
    omega
  refine ⟨hstrings.mono hsecond fun k hk hk' ↦ ?_, hsymbols.copyBytes (by omega)⟩
  rw [inBuffers_add env (by omega) (by omega)]
  omega

theorem afterRegister_loadable (h : TablesIn env f i t) (hf : Loadable f)
    (hi : t.currentNeededObjIndex = i) (hlt : i < 8) :
    afterRegister env t =
      { t with
        mem := copyTables env t i
        neededObj := Function.update t.neededObj i (fileObj f i t.neededCurrentName)
        neededObjCount := i + 1
        fd := none } := by
  have hreg : Registrable t := (h.registrable_iff hf hlt.le).mpr (hi.symm ▸ hlt)
  rw [afterRegister, registerNeededObject, if_pos hreg, h.newObj_eq, hi]

end Register

/-! ## The entry of a library -/

theorem foldl_loadBounds_min (b : LoadBounds) (ps : List Phdr) :
    (ps.foldl LoadBounds.add b).minVaddr ≤ b.minVaddr ∧
      (∀ p ∈ ps, p.type = ptLoad → (ps.foldl LoadBounds.add b).minVaddr ≤ p.vaddr) ∧
        ((ps.foldl LoadBounds.add b).minVaddr = b.minVaddr ∨
          ∃ p ∈ ps, p.type = ptLoad ∧ p.vaddr = (ps.foldl LoadBounds.add b).minVaddr) := by
  induction ps generalizing b with
  | nil => exact ⟨UInt32.le_refl _, fun p hp ↦ absurd hp List.not_mem_nil, .inl rfl⟩
  | cons p ps ih =>
    obtain ⟨hle, hall, hattained⟩ := ih (b.add p)
    have hadd : (b.add p).minVaddr ≤ b.minVaddr ∧
        (p.type = ptLoad → (b.add p).minVaddr ≤ p.vaddr) ∧
          ((b.add p).minVaddr = b.minVaddr ∨ p.type = ptLoad ∧ p.vaddr = (b.add p).minVaddr) := by
      rw [LoadBounds.add]
      by_cases htype : p.type = ptLoad
      · rw [if_pos htype]
        by_cases hmin : b.minVaddr ≤ p.vaddr
        · dsimp only
          rw [if_pos hmin]
          exact ⟨UInt32.le_refl _, fun _ ↦ hmin, .inl rfl⟩
        · dsimp only
          rw [if_neg hmin]
          exact ⟨UInt32.le_of_lt (UInt32.not_le.mp hmin), fun _ ↦ UInt32.le_refl _,
            .inr ⟨htype, rfl⟩⟩
      · rw [if_neg htype]
        exact ⟨UInt32.le_refl _, fun h ↦ absurd h htype, .inl rfl⟩
    refine ⟨UInt32.le_trans hle hadd.1, ?_, ?_⟩
    · intro q hq hload
      rcases List.mem_cons.mp hq with rfl | htail
      · exact UInt32.le_trans hle (hadd.2.1 hload)
      · exact hall q htail hload
    · rcases hattained with heq | ⟨q, hq, hload, heq⟩
      · rcases hadd.2.2 with hkept | ⟨hload, hvaddr⟩
        · exact .inl (heq.trans hkept)
        · exact .inr ⟨p, List.mem_cons_self, hload, hvaddr.trans heq.symm⟩
      · exact .inr ⟨q, List.mem_cons_of_mem p hq, hload, heq⟩

theorem foldl_loadBounds_count {b : LoadBounds} {ps : List Phdr}
    (h : ∀ p ∈ ps, p.type ≠ ptLoad) : (ps.foldl LoadBounds.add b).count = b.count := by
  induction ps generalizing b with
  | nil => rfl
  | cons p ps ih =>
    rw [List.foldl_cons, ih fun q hq ↦ h q (List.mem_cons_of_mem p hq), LoadBounds.add,
      if_neg (h p List.mem_cons_self)]

theorem lowest_eq_vaddr {f : File} (h : (fileBounds f).Accepted) :
    (∃ p ∈ filePhdrs f, p.type = ptLoad ∧ p.vaddr = lowest f) ∧
      ∀ p ∈ filePhdrs f, p.type = ptLoad → lowest f ≤ p.vaddr := by
  obtain ⟨-, hall, hattained⟩ := foldl_loadBounds_min ⟨0xffffffff, 0, 0⟩ (filePhdrs f)
  refine ⟨?_, hall⟩
  rcases hattained with htop | hsegment
  · -- then every segment is at the last address, and there is one
    have hsome : ∃ p ∈ filePhdrs f, p.type = ptLoad := by
      by_contra hnone
      have hcount := foldl_loadBounds_count (b := ⟨0xffffffff, 0, 0⟩)
        fun p hp hload ↦ hnone ⟨p, hp, hload⟩
      exact h.1 hcount
    obtain ⟨p, hp, hload⟩ := hsome
    have hle := hall p hp hload
    rw [htop] at hle
    refine ⟨p, hp, hload, ?_⟩
    rw [lowest, fileBounds, loadBounds, htop]
    apply UInt32.toNat_inj.mp
    have hlt := p.vaddr.toNat_lt
    have hle' : (4294967295 : ℕ) ≤ p.vaddr.toNat := UInt32.le_iff_toNat_le.mp hle
    change p.vaddr.toNat = 4294967295
    omega
  · exact hsegment

/-- What is registered as object `i` in `t`, by a call in `s`, is the library `f`. -/
structure EntryOf (env : Env) (f : File) (name : Name) (i : ℕ) (s t : State) : Prop where
  base : (t.neededObj i).base = 0x02000000 + .ofNat i * 0x00100000
  bias : ∃ v, (t.neededObj i).bias = (t.neededObj i).base - v ∧
    (∃ p ∈ filePhdrs f, p.type = ptLoad ∧ p.vaddr = v) ∧
      ∀ p ∈ filePhdrs f, p.type = ptLoad → v ≤ p.vaddr
  mapped : ∀ p ∈ filePhdrs f, p.type = ptLoad → p.filesz ≠ 0 →
    ∃ c ∈ t.maps.drop s.maps.length, c.ok = true ∧
      c.addr = ((t.neededObj i).bias + p.vaddr) &&& ~~~0xfff ∧ c.off = p.offset &&& ~~~0xfff ∧
        c.len = (p.memsz + (((t.neededObj i).bias + p.vaddr) &&& 0xfff) + 0xfff) &&& ~~~0xfff
  strtab : ∀ k < (t.neededObj i).strtabRead.toNat,
    t.mem (env.strtabSlot i + .ofNat k) = fileByte f ((strtabOff f).toNat + k)
  symtab : ∀ k < (t.neededObj i).symtabRead.toNat,
    t.mem (env.symtabSlot i + .ofNat k) = fileByte f ((symtabOff f).toNat + k)
  entry : t.neededObj i = fileObj f i name

section Entry

variable {env : Env} {f : File} {s t : State} {name : Name}

theorem TablesIn.relocated {i : ℕ} {u : State} (h : TablesIn env f i u) (hi : i ≤ 8)
    (hm : SameOutside (InSlot i) u.mem m) : TablesIn env f i { u with mem := m } := by
  have hstrtab := toNat_fileStrtabRead_le f
  have hsymtab := toNat_fileSymtabRead_le f
  exact { h with
    strtab := h.strtab.mono hm fun k _ hk ↦ not_inSlot_buffers env hi (by omega)
    symtab := h.symtab.mono hm fun k _ hk ↦ not_inSlot_buffers env hi (by omega) }

section Read

variable (hi : s.currentNeededObjIndex ≤ 8)
  (hfile : env.openat s.calls (neededPath (name.take 63)) = some f) (hf : Loadable f)
  (hserves : Serves env (s.calls + 1) ((filePhdrs f).length + 7))
include hi hfile hf hserves

/-- The tables of a loadable library are read, and what is left is to relocate it. -/
theorem opened_read : ∃ u, ReadIn env f s.currentNeededObjIndex (opened env s name) u ∧
    beforeRegister env (opened env s name) = applyNeededRelocations env u := by
  have hopen := opened_loadable hf.header hfile (hserves.head (by omega))
  have hindex : (opened env s name).currentNeededObjIndex = s.currentNeededObjIndex :=
    (opened_sameRegistry env s name).index
  obtain ⟨pos, hfd⟩ := hopen.fd
  have hcalls : Serves env (opened env s name).calls ((filePhdrs f).length + 6) := by
    rw [hopen.calls]
    exact hserves.tail (i := 1) (by omega)
  obtain ⟨u, hu, heq⟩ := beforeRegister_read hf (hindex.symm ▸ hi) hcalls hfd hopen.header
    (by rw [hopen.scratch])
  rw [hindex] at hu
  exact ⟨u, hu, heq⟩

theorem Opens.readIn (h : Opens env s name t) :
    ∃ u m, ReadIn env f s.currentNeededObjIndex (opened env s name) u ∧
      (opened env s name).maps = s.maps ∧ t = { u with mem := m } ∧
        Relocating f s.currentNeededObjIndex u.mem m := by
  have hopen := opened_loadable hf.header hfile (hserves.head (by omega))
  obtain ⟨u, hu, heq⟩ := opened_read hi hfile hf hserves
  have hload := h.load
  rw [heq] at hload
  rcases applyNeededRelocations_loadable hf hu.tables hu.imaged with hexit | ⟨m, hok, hm⟩
  · rw [hexit] at hload
    exact absurd hload (by simp)
  · rw [hok] at hload
    exact ⟨u, m, hu, hopen.maps, (Except.ok.inj hload).symm, hm⟩

/-- A loadable library comes to its registration, as long as no requirement has been matched. -/
theorem exists_opens (hfresh : isNeededNameLoaded s name = false)
    (hmatched : s.verneed.matched = false) : ∃ t, Opens env s name t := by
  obtain ⟨pos, hfd⟩ := (opened_loadable hf.header hfile (hserves.head (by omega))).fd
  obtain ⟨u, hu, heq⟩ := opened_read hi hfile hf hserves
  have hmatched' : u.verneed.matched = false := by
    rw [hu.registry.verneed, (opened_sameRegistry env s name).verneed]
    exact hmatched
  rcases applyNeededRelocations_loadable hf hu.tables hu.imaged with hexit | ⟨m, hok, -⟩
  · exact absurd hexit (applyNeededRelocations_ne_exited hu.tables hmatched')
  · exact ⟨_, hfresh, by rw [hfd]; rfl, heq.trans hok⟩

/-- Whether a loadable library is registered depends on the number of those before it only. -/
theorem Opens.registrable_iff (h : Opens env s name t) :
    Registrable t ↔ s.currentNeededObjIndex < maxNeededObjects := by
  obtain ⟨u, m, hread, -, rfl, hm⟩ := h.readIn hi hfile hf hserves
  have htables := hread.tables.relocated hi hm.outside
  have hindex : u.currentNeededObjIndex = s.currentNeededObjIndex :=
    hread.registry.index.trans (opened_sameRegistry env s name).index
  rw [htables.registrable_iff hf hi, ← hindex]

end Read

/-- **A registered library is that library.** Whatever the libraries before have left in the slots
and buffers: when the kernel serves the calls for a loadable library and `register_needed_object`
takes it, the entry is the one of its file. -/
theorem registered_entry_is_library (h : Opens env s name t)
    (hfile : env.openat s.calls (neededPath (name.take 63)) = some f) (hf : Loadable f)
    (hserves : Serves env (s.calls + 1) ((filePhdrs f).length + 7)) (hreg : Registrable t) :
    EntryOf env f (name.take 63) s.currentNeededObjIndex s (afterRegister env t) := by
  have hindex : t.currentNeededObjIndex = s.currentNeededObjIndex := h.registry.2.2
  have hlt : s.currentNeededObjIndex < 8 := hindex ▸ hreg.1
  have hname : t.neededCurrentName = name.take 63 := h.registry.1
  obtain ⟨u, m, hread, hmaps, rfl, hm⟩ := h.readIn hlt.le hfile hf hserves
  have htables := hread.tables.relocated hlt.le hm.outside
  obtain ⟨hstrtab, hsymtab⟩ := copyTables_loadable htables hlt
  rw [afterRegister_loadable htables hf hindex hlt]
  generalize hi : s.currentNeededObjIndex = i at *
  have hentry : Function.update u.neededObj i (fileObj f i u.neededCurrentName) i =
      fileObj f i (name.take 63) := by
    rw [Function.update_self]
    exact congrArg (fileObj f i) hname
  have hbias : fileBias f i = slotBase i - lowest f := rfl
  refine ⟨?_, ⟨lowest f, ?_, lowest_eq_vaddr hf.segments.accepted⟩, ?_, ?_, ?_, hentry⟩
  · change (Function.update u.neededObj i _ i).base = _
    rw [hentry]
    exact UInt32.add_comm _ _
  · change (Function.update u.neededObj i _ i).bias = (Function.update u.neededObj i _ i).base - _
    rw [hentry]
    rfl
  · intro p hp htype hfilesz
    have hmapped := (mapped_iff hread.slot hlt.le p).mpr (hf.segments.mapped p hp htype hfilesz)
    have hdst : segmentDst u.scratch p = fileBias f i + p.vaddr := by
      rw [segmentDst, hread.slot.base, hread.slot.minVaddr, hbias]
      grind
    refine ⟨segmentCall u.scratch p, ?_, rfl, ?_, rfl, ?_⟩
    · change _ ∈ u.maps.drop s.maps.length
      rw [hread.maps, hmaps, List.drop_left]
      exact List.mem_map.mpr ⟨p, List.mem_filter.mpr ⟨hp, decide_eq_true hmapped⟩, rfl⟩
    · change _ = ((Function.update u.neededObj i _ i).bias + _) &&& _
      rw [hentry]
      exact congrArg (· &&& ~~~0xfff) hdst
    · change _ = (p.memsz + (((Function.update u.neededObj i _ i).bias + _) &&& _) + _) &&& _
      rw [hentry]
      exact congrArg (fun v ↦ (p.memsz + (v &&& 0xfff) + 0xfff) &&& ~~~0xfff) hdst
  · change ∀ k < (Function.update u.neededObj i _ i).strtabRead.toNat, _
    rw [hentry]
    intro k hk
    rw [env.strtabSlot_eq, add_ofNat_add]
    exact hstrtab k hk
  · change ∀ k < (Function.update u.neededObj i _ i).symtabRead.toNat, _
    rw [hentry]
    intro k hk
    rw [env.symtabSlot_eq, add_ofNat_add]
    exact hsymtab k hk

end Entry

/-! ## Samples -/

theorem serves_shelf (files : List (Name × File)) (k n : ℕ) : Serves (shelf files) k n :=
  fun _ _ ↦ ⟨⟨4096, by decide, rfl⟩, rfl, rfl⟩

/-- A library that needs itself. -/
def selfLibrary : File :=
  sampleLibrary (sampleDynamic 3 ++ [1, 1]) [0, 0x78, 0] [] (fileOfWords [0, 0, 0, 0])

-- Statements about the elements of a list are decided along the list, not over all words.
attribute [local instance (high)] List.decidableBAll

theorem loadable_selfLibrary : Loadable selfLibrary where
  header := by constructor <;> decide +kernel
  segments := by constructor <;> decide
  tables := by constructor <;> decide +kernel
  relocs := by constructor <;> decide +kernel

def selfMain : State := sampleMain (cString "x") [0]

/-- A library with one relocation, of the word at `offset`. -/
def relocatingLibrary (offset : UInt32) : File :=
  sampleLibrary (sampleDynamic 3 ++ [17, 0x140, 18, 8, 19, 8]) [0, 0x79, 0] [offset, 3]
    (fileOfWords [0, 0, 0, 0])

theorem loadable_relocatingLibrary : Loadable (relocatingLibrary 0x150) where
  header := by constructor <;> decide +kernel
  segments := by constructor <;> decide
  tables := by constructor <;> decide +kernel
  relocs := by constructor <;> decide +kernel

def pairEnv (offset : UInt32) : Env :=
  shelf [(cString "x", selfLibrary), (cString "y", relocatingLibrary offset)]

/-- The first of the two libraries has been loaded. -/
def selfLoaded : State := (loadStep (pairEnv 0x150) selfMain (some (cString "x"))).getD selfMain

theorem exists_opens_relocatingLibrary :
    selfLoaded.neededObjCount = 1 ∧
      (pairEnv 0x150).openat (nextObject selfLoaded).calls (neededPath ((cString "y").take 63)) =
        some (relocatingLibrary 0x150) ∧
      ∃ t, Opens (pairEnv 0x150) (nextObject selfLoaded) (cString "y") t ∧ Registrable t := by
  have hstate : selfLoaded.neededObjCount = 1 ∧
      isNeededNameLoaded (nextObject selfLoaded) (cString "y") = false ∧
        (nextObject selfLoaded).verneed.matched = false := by
    decide +kernel
  obtain ⟨hcount, hfresh, hmatched⟩ := hstate
  have hfile : (pairEnv 0x150).openat (nextObject selfLoaded).calls
      (neededPath ((cString "y").take 63)) = some (relocatingLibrary 0x150) := by
    decide +kernel
  have hindex := (index_nextObject selfLoaded).trans hcount
  have hle : (nextObject selfLoaded).currentNeededObjIndex ≤ 8 := by rw [hindex]; decide
  obtain ⟨t, ht⟩ := exists_opens hle hfile loadable_relocatingLibrary (serves_shelf _ _ _) hfresh
    hmatched
  refine ⟨hcount, hfile, t, ht, ?_⟩
  rw [ht.registrable_iff hle hfile loadable_relocatingLibrary (serves_shelf _ _ _), hindex]
  decide

/-- It is registered as what it is. -/
theorem entry_of_relocatingLibrary :
    ∃ t, Opens (pairEnv 0x150) (nextObject selfLoaded) (cString "y") t ∧
      EntryOf (pairEnv 0x150) (relocatingLibrary 0x150) (cString "y") 1 (nextObject selfLoaded)
        (afterRegister (pairEnv 0x150) t) := by
  obtain ⟨hcount, hfile, t, ht, hreg⟩ := exists_opens_relocatingLibrary
  have hentry := registered_entry_is_library ht hfile loadable_relocatingLibrary
    (serves_shelf _ _ _) hreg
  rw [index_nextObject, hcount] at hentry
  exact ⟨t, ht, hentry⟩

/-- A second library that is a header and nothing else. -/
def bareLibraryEnv : Env :=
  shelf [(cString "x", selfLibrary), (cString "y", fileOfWords (libraryHeader 0))]

/-- A program that needs both. -/
def bareLibraryMain : State := sampleMain [0x78, 0, 0x79, 0] [0, 2]

/-- The second library is registered with base, bias and strings of the first one. -/
theorem bare_library_registered :
    probeNeededLibraries bareLibraryEnv 9 bareLibraryMain =
        .ok (loaded bareLibraryEnv bareLibraryMain) ∧
      (loaded bareLibraryEnv bareLibraryMain).neededObjCount = 2 ∧
        ((loaded bareLibraryEnv bareLibraryMain).neededObj 1).name = cString "y" ∧
          ((loaded bareLibraryEnv bareLibraryMain).neededObj 1).base = 0x02000000 ∧
            ((loaded bareLibraryEnv bareLibraryMain).neededObj 1).strtabRead = 3 ∧
              (loaded bareLibraryEnv bareLibraryMain).mem (bareLibraryEnv.strtabSlot 1 + 1) =
                0x78 ∧
                filePhdrs (fileOfWords (libraryHeader 0)) = [] := by
  refine ⟨probeNeededLibraries_loaded (by decide +kernel), ?_⟩
  decide +kernel

/-- The two libraries are loaded one after the other. -/
theorem exists_run_of_bareLibraries : ∃ as,
    Runs.run (loadStep bareLibraryEnv) { bareLibraryMain with neededObjCount := 0 } as =
      some (loaded bareLibraryEnv bareLibraryMain) :=
  exists_run_of_probeNeededLibraries (probeNeededLibraries_loaded (by decide +kernel))

end CaribeOS.Ld
