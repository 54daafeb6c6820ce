import CaribeOS.Loader.Probe

/-!
# What loading a library leaves alone

Between the header of a library and its registration the loader works on memory, on the file and on
the slots of the library that is being loaded. The registry, the index and the name of the library,
and what it knows of the main program, are not touched until `register_needed_object`.
-/

namespace CaribeOS.Ld

open ByteMemory

/-! ## Buffers -/

/-- The buffers of the loader from `o` on, `n` bytes of them. -/
def InBuffers (env : Env) (o n : ℕ) (x : UInt32) : Prop :=
  InBlock (env.neededElfHeader + .ofNat o) n x

section Buffers

variable {o n : ℕ}

theorem Env.neededDynamicBuf_eq (env : Env) :
    env.neededDynamicBuf = env.neededElfHeader + .ofNat 256 := rfl

theorem Env.neededStrtabBuf_eq (env : Env) :
    env.neededStrtabBuf = env.neededElfHeader + .ofNat 512 := rfl

theorem Env.neededSymtabBuf_eq (env : Env) :
    env.neededSymtabBuf = env.neededElfHeader + .ofNat 1024 := rfl

theorem Env.strtabSlot_eq (env : Env) (i : ℕ) :
    env.strtabSlot i = env.neededElfHeader + .ofNat (1536 + i * 512) := by
  rw [UInt32.ofNat_add, UInt32.ofNat_mul, ← UInt32.add_assoc]
  rfl

theorem Env.symtabSlot_eq (env : Env) (i : ℕ) :
    env.symtabSlot i = env.neededElfHeader + .ofNat (5632 + i * 512) := by
  rw [UInt32.ofNat_add, UInt32.ofNat_mul, ← UInt32.add_assoc]
  rfl

theorem toNat_buffers (env : Env) {k : ℕ} (hk : k < 9732) :
    (env.neededElfHeader + .ofNat k).toNat = env.neededElfHeader.toNat + k := by
  have hbelow := env.below
  have hlt : k < 4294967296 := by omega
  have hsum : env.neededElfHeader.toNat + k < 4294967296 := by omega
  rw [UInt32.toNat_add, toNat_ofNat_lt hlt, Nat.mod_eq_of_lt hsum]

theorem inBuffers_add (env : Env) {k : ℕ} (ho : o + n ≤ 9732) (hk : k < 9732) :
    InBuffers env o n (env.neededElfHeader + .ofNat k) ↔ o ≤ k ∧ k < o + n := by
  have hbelow := env.below
  rcases Nat.eq_zero_or_pos n with rfl | hpos
  · rw [InBuffers]
    simp only [inBlock_zero, false_iff]
    omega
  have hstart := toNat_buffers env (k := o) (by omega)
  rw [InBuffers, inBlock_iff (by rw [hstart]; omega), hstart, toNat_buffers env hk]
  omega

end Buffers

/-- What the loader reads files into: the four buffers at the beginning, and the last one. -/
def InReadBuffers (env : Env) (x : UInt32) : Prop := InBuffers env 0 1536 x ∨ InBuffers env 9728 4 x

theorem InBuffers.read {env : Env} {o n : ℕ} {x : UInt32} (hx : InBuffers env o n x)
    (hon : o + n ≤ 1536) : InReadBuffers env x := by
  obtain ⟨k, hk, rfl⟩ := InBlock.exists_eq_add hx
  left
  rw [add_ofNat_add, inBuffers_add env (by omega) (by omega)]
  omega

/-! ## The registry -/

/-- Two states with the same registry, the same library at hand and the same main program. -/
structure SameRegistry (s t : State) : Prop where
  main : t.main = s.main
  verneed : t.verneed = s.verneed
  index : t.currentNeededObjIndex = s.currentNeededObjIndex
  name : t.neededCurrentName = s.neededCurrentName
  count : t.neededObjCount = s.neededObjCount
  obj : t.neededObj = s.neededObj

namespace SameRegistry

theorem refl (s : State) : SameRegistry s s := ⟨rfl, rfl, rfl, rfl, rfl, rfl⟩

theorem trans {s t u : State} (h : SameRegistry s t) (h' : SameRegistry t u) : SameRegistry s u :=
  ⟨h'.main.trans h.main, h'.verneed.trans h.verneed, h'.index.trans h.index,
    h'.name.trans h.name, h'.count.trans h.count, h'.obj.trans h.obj⟩

end SameRegistry

/-- Two states between which there are reads into the buffers only. -/
structure Reads (env : Env) (s t : State) : Prop extends SameRegistry s t where
  mem : SameOutside (InReadBuffers env) s.mem t.mem

namespace Reads

variable {env : Env} {s t u : State}

theorem refl (env : Env) (s : State) : Reads env s s := ⟨.refl s, .refl _ _⟩

theorem trans (h : Reads env s t) (h' : Reads env t u) : Reads env s u :=
  ⟨h.toSameRegistry.trans h'.toSameRegistry, h.mem.trans h'.mem⟩

theorem with_scratch (h : Reads env s t) (c : Scratch) : Reads env s { t with scratch := c } :=
  { h with }

end Reads

section Steps

variable (env : Env) (s : State)

theorem sysRead_reads (f : OpenFile) {buf n : UInt32}
    (hbuf : ∀ x, InBlock buf n.toNat x → InReadBuffers env x) :
    Reads env s (sysRead env s f buf n).1 := by
  rw [sysRead]
  split
  · exact { Reads.refl env s with }
  · rename_i most _
    have hwrite := sameOutside_writeBytes s.mem buf
      (min (f.file.length - f.pos) (min n.toNat most)) fun i ↦ fileByte f.file (f.pos + i)
    refine ⟨{ SameRegistry.refl s with }, hwrite.mono fun x hx ↦ hbuf x (InBlock.mono hx ?_)⟩
    exact (min_le_right _ _).trans (min_le_left _ _)

theorem sysLlseek_reads (f : OpenFile) (off : UInt32) : Reads env s (sysLlseek env s f off).1 := by
  rw [sysLlseek]
  split
  · exact { Reads.refl env s with }
  · exact { Reads.refl env s with }

theorem readAt_reads (off : UInt32) {buf n : UInt32}
    (hbuf : ∀ x, InBlock buf n.toNat x → InReadBuffers env x) :
    Reads env s (readAt env s off buf n).1 := by
  rw [readAt]
  cases hfd : s.fd with
  | none => exact .refl env s
  | some f =>
    have hseek := sysLlseek_reads env s f off
    dsimp only
    split
    · rename_i t heq
      rw [heq] at hseek
      exact hseek
    · rename_i t f' heq
      rw [heq] at hseek
      exact hseek.trans (sysRead_reads env t f' hbuf)

theorem toNat_atMost_le (size n : UInt32) : (atMost size n).toNat ≤ size.toNat := by
  rw [atMost]
  split_ifs with hle
  · exact le_rfl
  · exact (UInt32.lt_iff_toNat_lt.mp (UInt32.not_le.mp hle)).le

theorem readNeededStrtab_reads : Reads env s (readNeededStrtab env s) := by
  have hbuf : ∀ x, InBlock env.neededStrtabBuf
      (atMost neededObjStrtabBytes s.scratch.lib.strsz).toNat x → InReadBuffers env x := by
    intro x hx
    exact InBuffers.read (InBlock.mono hx (toNat_atMost_le _ _)) (by decide)
  rw [readNeededStrtab]
  split_ifs with hstrtab hstrsz
  · exact .refl env s
  · split
    · exact .refl env s
    · split
      · exact .refl env s
      · exact sysLlseek_reads env s _ _
  · split
    · exact .refl env s
    · rename_i off _
      have hread := readAt_reads env s off hbuf
      split
      · rename_i t heq
        rw [heq] at hread
        exact hread
      · rename_i t a0 heq
        rw [heq] at hread
        exact hread.with_scratch _

theorem readNeededVerdef_reads : Reads env s (readNeededVerdef s) := by
  rw [readNeededVerdef]
  dsimp only
  split_ifs
  · exact .refl env s
  · exact { Reads.refl env s with }
  · exact { Reads.refl env s with }

theorem materializeNeededSym1_reads : Reads env s (materializeNeededSym1 env s) := by
  have hbuf : ∀ x, InBlock env.neededSym1RuntimeBuf (atMost 4 s.scratch.sym1Size).toNat x →
      InReadBuffers env x := by
    intro x hx
    exact .inr (InBlock.mono hx (toNat_atMost_le _ _))
  have hzero : Reads env s { s with scratch := { s.scratch with sym1RuntimeAddr := 0 } } :=
    { Reads.refl env s with }
  rw [materializeNeededSym1]
  by_cases hvalue : s.scratch.sym1Value = 0
  · rw [if_pos hvalue]
    exact hzero
  rw [if_neg hvalue]
  by_cases hbase : s.scratch.loadBase ≠ 0
  · rw [if_pos hbase]
    exact { Reads.refl env s with }
  rw [if_neg hbase]
  split
  · exact hzero
  by_cases hsize : s.scratch.sym1Size = 0
  · rw [if_pos hsize]
    split
    · exact hzero
    · exact hzero.trans (sysLlseek_reads env _ _ _)
  rw [if_neg hsize]
  rename_i off _
  have hread := hzero.trans (readAt_reads env
    { s with scratch := { s.scratch with sym1RuntimeAddr := 0 } } off hbuf)
  split
  · rename_i t heq
    rw [heq] at hread
    exact hread
  · rename_i t a0 heq
    rw [heq] at hread
    split
    · exact hread
    · exact hread.with_scratch _

theorem toNat_symtabBytes_le (c : Scratch) : (symtabBytes c).toNat ≤ 512 := by
  rw [symtabBytes]
  split_ifs
  · exact le_rfl
  · exact toNat_atMost_le _ _

theorem readNeededSymtab_reads : Reads env s (readNeededSymtab env s) := by
  have hbuf : ∀ x, InBlock env.neededSymtabBuf (symtabBytes s.scratch).toNat x →
      InReadBuffers env x := by
    intro x hx
    exact InBuffers.read (InBlock.mono hx (toNat_symtabBytes_le _)) (by decide)
  rw [readNeededSymtab]
  split_ifs
  · exact .refl env s
  · split
    · exact .refl env s
    · rename_i off _
      have hread := readAt_reads env s off hbuf
      split
      · rename_i t heq
        rw [heq] at hread
        exact hread
      · rename_i t a0 heq
        rw [heq] at hread
        split_ifs
        · exact hread.with_scratch _
        · exact (hread.with_scratch _).trans (materializeNeededSym1_reads env _)

theorem toNat_dynamicBytes_le (c : Scratch) : (dynamicBytes c).toNat ≤ 256 := by
  rw [dynamicBytes]
  split_ifs
  · exact le_rfl
  · exact toNat_atMost_le _ _

theorem probeNeededDynamic_reads : Reads env s (probeNeededDynamic env s) := by
  have hbuf : ∀ x, InBlock env.neededDynamicBuf (dynamicBytes s.scratch).toNat x →
      InReadBuffers env x := by
    intro x hx
    exact InBuffers.read (InBlock.mono hx (toNat_dynamicBytes_le _)) (by decide)
  rw [probeNeededDynamic]
  split_ifs
  · exact .refl env s
  · have hread := readAt_reads env s s.scratch.dynamicOff hbuf
    split
    · rename_i t heq
      rw [heq] at hread
      exact hread
    · rename_i t a0 heq
      rw [heq] at hread
      split_ifs
      · exact hread.with_scratch _
      · refine Reads.trans ?_ (readNeededSymtab_reads env _)
        refine Reads.trans ?_ (readNeededVerdef_reads env _)
        -- the other three look at memory only
        refine Reads.trans ?_ ((Reads.refl env _).with_scratch _)
        refine Reads.trans ?_ ((Reads.refl env _).with_scratch _)
        refine Reads.trans ?_ ((Reads.refl env _).with_scratch _)
        refine Reads.trans ?_ (readNeededStrtab_reads env _)
        exact (hread.with_scratch _).with_scratch _

theorem probeNeededPhdrs_reads : Reads env s (probeNeededPhdrs env s) := by
  rw [probeNeededPhdrs]
  split_ifs
  · exact .refl env s
  · split
    · exact .refl env s
    · exact (Reads.refl env s).with_scratch _

theorem copySegment_sameRegistry (a : UInt32) : SameRegistry s (copySegment env s a) := by
  rw [copySegment]
  split
  · exact .refl s
  · split
    · exact ⟨rfl, rfl, rfl, rfl, rfl, rfl⟩
    · exact .refl s

theorem foldl_copySegment_sameRegistry (as : List UInt32) :
    SameRegistry s (as.foldl (copySegment env) s) := by
  induction as generalizing s with
  | nil => exact .refl s
  | cons a as ih => exact (copySegment_sameRegistry env s a).trans (ih _)

theorem loadNeededSegments_sameRegistry : SameRegistry s (loadNeededSegments env s) := by
  rw [loadNeededSegments]
  split_ifs
  · have hslot : SameRegistry s (withSlot s (loadBounds (s.phdrs env))) :=
      ⟨rfl, rfl, rfl, rfl, rfl, rfl⟩
    exact hslot.trans (foldl_copySegment_sameRegistry env _ _)
  · exact ⟨rfl, rfl, rfl, rfl, rfl, rfl⟩

theorem applyEntry_sameRegistry {rule : State → Rel → Except Stop (Option UInt32)}
    {bias : State → UInt32} {s t : State} {a : UInt32} (h : applyEntry rule bias s a = .ok t) :
    SameRegistry s t := by
  rw [applyEntry] at h
  split at h
  · exact absurd h (by simp)
  · cases Except.ok.inj h
    exact .refl s
  · cases Except.ok.inj h
    exact ⟨rfl, rfl, rfl, rfl, rfl, rfl⟩

theorem applyTable_sameRegistry {entry : State → UInt32 → Except Stop State}
    (hentry : ∀ {s t : State} {a : UInt32}, entry s a = .ok t → SameRegistry s t) {n : ℕ}
    {s t : State} {a : UInt32} (h : applyTable entry n s a = .ok t) : SameRegistry s t := by
  induction n generalizing s a with
  | zero =>
    cases Except.ok.inj h
    exact .refl _
  | succ n ih =>
    rw [applyTable] at h
    split at h
    · exact absurd h (by simp)
    · rename_i s' heq
      exact (hentry heq).trans (ih h)

theorem applyNeededRelocationTable_sameRegistry {s t : State} {rel relsz relent : UInt32}
    (h : applyNeededRelocationTable env s rel relsz relent = .ok t) : SameRegistry s t := by
  rw [applyNeededRelocationTable] at h
  split_ifs at h
  · cases Except.ok.inj h
    exact .refl s
  · exact applyTable_sameRegistry applyEntry_sameRegistry h

theorem applyNeededRelocations_ok {s u : State} (h : applyNeededRelocations env s = .ok u) :
    ∃ t, applyNeededRelocationTable env s s.scratch.lib.rel s.scratch.lib.relsz
        s.scratch.lib.relent = .ok t ∧
      (if s.scratch.lib.pltrel = dtRel then
          applyNeededRelocationTable env t s.scratch.lib.jmprel s.scratch.lib.pltrelsz
            s.scratch.lib.relent
        else .ok t) = .ok u := by
  rw [applyNeededRelocations] at h
  cases hrel : applyNeededRelocationTable env s s.scratch.lib.rel s.scratch.lib.relsz
      s.scratch.lib.relent with
  | error e =>
    rw [hrel] at h
    exact absurd h (by simp [bind, Except.bind])
  | ok t =>
    rw [hrel] at h
    exact ⟨t, rfl, h⟩

theorem applyNeededRelocations_sameRegistry {s t : State}
    (h : applyNeededRelocations env s = .ok t) : SameRegistry s t := by
  obtain ⟨u, hrel, hjmprel⟩ := applyNeededRelocations_ok env h
  have hfirst := applyNeededRelocationTable_sameRegistry env hrel
  split_ifs at hjmprel
  · exact hfirst.trans (applyNeededRelocationTable_sameRegistry env hjmprel)
  · cases Except.ok.inj hjmprel
    exact hfirst

end Steps

/-! ## Up to the registration -/

theorem beforeRegister_sameRegistry {env : Env} {s t : State} (h : beforeRegister env s = .ok t) :
    SameRegistry s t :=
  (((probeNeededPhdrs_reads env s).toSameRegistry.trans
    (loadNeededSegments_sameRegistry env _)).trans
      (probeNeededDynamic_reads env _).toSameRegistry).trans
        (applyNeededRelocations_sameRegistry env h)

/-- The state after the header of a library has been looked at. -/
def opened (env : Env) (s : State) (name : Name) : State :=
  openNeededLibrary env { s with fd := none } name

theorem probeNeededLibrary_eq (env : Env) (depth : ℕ) (s : State) (name : Name) :
    probeNeededLibrary env (depth + 1) s name =
      if isNeededNameLoaded s name then .ok { s with fd := none }
      else if (opened env s name).fd.isNone then .ok (opened env s name)
      else
        match beforeRegister env (opened env s name) with
        | .error e => .error e
        | .ok t =>
          loadTransitiveNeeded (probeNeededLibrary env depth)
            (transitiveNames env (afterRegister env t)) (afterRegister env t) := by
  rw [probeNeededLibrary, opened]
  dsimp only
  rw [loadNeededLibrary_eq]
  generalize openNeededLibrary env { s with fd := none } name = u
  cases beforeRegister env u with
  | error e => rfl
  | ok t => rfl

theorem opened_reads (env : Env) (s : State) (name : Name) :
    Reads env { s with neededCurrentName := name.take 63 } (opened env s name) := by
  have hbuf : ∀ x, InBlock env.neededElfHeader (256 : UInt32).toNat x → InReadBuffers env x := by
    intro x hx
    rw [← add_ofNat_zero env.neededElfHeader] at hx
    exact InBuffers.read hx (by decide)
  rw [opened, openNeededLibrary, copyCstrBounded_eq]
  dsimp only
  split
  · exact { Reads.refl env _ with }
  · rename_i file _
    have hread := sysRead_reads env { s with
      neededCurrentName := name.take 63, calls := s.calls + 1, fd := some ⟨file, 0⟩ } ⟨file, 0⟩ hbuf
    split_ifs
    · exact { hread with }
    · exact { hread with }

theorem opened_sameRegistry (env : Env) (s : State) (name : Name) :
    SameRegistry { s with neededCurrentName := name.take 63 } (opened env s name) :=
  (opened_reads env s name).toSameRegistry

end CaribeOS.Ld
