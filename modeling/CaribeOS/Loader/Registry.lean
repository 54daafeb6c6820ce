import CaribeOS.Loader.Registered
import CaribeOS.Loader.Start

/-!
# The registry

`register_needed_object` is the only place where the loader means to write to the registry: to the
arrays of the objects, and to the pools in memory that hold their strings and symbols. It checks the
index, and cuts the tables off, so that these stores are always in the places of an index below
eight.

The pools are in memory, and so are the targets of relocations and the pages of segments, about which
nothing is checked. `registry_append_only` is for loads that keep those above `0x02000000`, out of the
loader; `relocation_in_registry` is a library that does not.
-/

namespace CaribeOS.Ld

open ByteMemory

/-! ## Where a load writes -/

/-- The buffers for files, and what is not below the libraries. -/
def InWork (env : Env) (x : UInt32) : Prop := InReadBuffers env x ∨ 0x02000000 ≤ x

/-- The entries of a relocation table, each with the state in which its turn comes. -/
def neededTableVisits (env : Env) (s : State) (rel relsz relent : UInt32) : List (State × UInt32) :=
  if rel = 0 ∨ relsz = 0 ∨ relent ≠ 8 then []
  else tableVisits (neededRelEntry env) (relsz / 8).toNat s (rel + s.scratch.loadBias)

/-- The entries of both tables of a library. -/
def neededVisits (env : Env) (s : State) : List (State × UInt32) :=
  let lib := s.scratch.lib
  neededTableVisits env s lib.rel lib.relsz lib.relent ++
    match applyNeededRelocationTable env s lib.rel lib.relsz lib.relent with
    | .error _ => []
    | .ok t =>
      if lib.pltrel = dtRel then neededTableVisits env t lib.jmprel lib.pltrelsz lib.relent else []

/-- If the entry is of a kind that is applied, its word is not below the libraries. -/
def EntryAbove (v : State × UInt32) : Prop :=
  let r := relAt v.1.mem v.2
  r.type = rRiscvRelative ∨ r.type = rRiscv32 ∨ r.type = rRiscvJumpSlot →
    0x02000000 ≤ (r.offset + v.1.scratch.loadBias).toNat ∧
      (r.offset + v.1.scratch.loadBias).toNat + 4 ≤ 4294967296
  deriving Decidable

/-- A load that comes to a registration has segments that fit the slot, and relocations that stay
out of the loader. -/
def Tame (env : Env) (s : State) : Option Name → Prop
  | none => True
  | some name => ∀ t, Opens env (nextObject s) name t →
    let u := probeNeededPhdrs env (opened env (nextObject s) name)
    SegmentsFit env u ∧
      ∀ v ∈ neededVisits env (probeNeededDynamic env (loadNeededSegments env u)), EntryAbove v

variable {a x : UInt32} {i : ℕ}

section Frames

variable {env : Env} {s t : State} {i : ℕ}

theorem InSlot.above (hi : i ≤ 8) (hx : InSlot i x) : 0x02000000 ≤ x := by
  have hslot := toNat_slotBase hi
  rw [InSlot, inBlock_iff (by rw [hslot, slotBytes]; omega), hslot] at hx
  exact (Nat.le_add_right _ _).trans hx.1

theorem foldl_copySegment_sameOutside {as : List UInt32} (hi : i ≤ 8)
    (hbase : s.scratch.loadBase = slotBase i)
    (hfit : s.fd ≠ none → ∀ v ∈ copyVisits env s as,
      SegmentFits s.scratch.loadMinVaddr (phdrAt v.1.mem v.2)) :
    SameOutside (InSlot i) s.mem (as.foldl (copySegment env) s).mem := by
  induction as generalizing s with
  | nil => exact .refl _ _
  | cons a as ih =>
    have hfirst : SameOutside (InSlot i) s.mem (copySegment env s a).mem :=
      copySegment_sameOutside hi hbase fun hfd ↦ hfit hfd (s, a) List.mem_cons_self
    refine hfirst.trans (ih ?_ ?_)
    · rw [copySegment_scratch]
      exact hbase
    · intro hfd v hv
      rw [copySegment_scratch]
      rw [copySegment_fd] at hfd
      exact hfit hfd v (List.mem_cons_of_mem _ hv)

theorem loadNeededSegments_sameOutside (hi : s.currentNeededObjIndex ≤ 8)
    (hfit : SegmentsFit env s) :
    SameOutside (InSlot s.currentNeededObjIndex) s.mem (loadNeededSegments env s).mem := by
  rw [loadNeededSegments]
  by_cases haccepted : (loadBounds (s.phdrs env)).Accepted
  · rw [if_pos haccepted]
    have hloop := @foldl_copySegment_sameOutside env (withSlot s (loadBounds (s.phdrs env)))
      s.currentNeededObjIndex (phdrAddrs s.mem env.neededElfHeader) hi rfl
        fun hfd ↦ hfit hfd haccepted
    exact hloop
  · rw [if_neg haccepted]
    exact .refl _ _

theorem neededRelEntry_above (habove : EntryAbove (s, a)) (h : neededRelEntry env s a = .ok t) :
    SameOutside (fun x ↦ 0x02000000 ≤ x) s.mem t.mem := by
  rw [neededRelEntry, applyEntry] at h
  cases hrule : neededRel env s (relAt s.mem a) with
  | error e =>
    rw [hrule] at h
    exact absurd h (by simp)
  | ok w =>
    rw [hrule] at h
    cases w with
    | none =>
      rw [← Except.ok.inj h]
      exact .refl _ _
    | some w =>
      have hkind : (relAt s.mem a).type = rRiscvRelative ∨ (relAt s.mem a).type = rRiscv32 ∨
          (relAt s.mem a).type = rRiscvJumpSlot := by
        rw [neededRel] at hrule
        split_ifs at hrule with hrelative hsymbol
        · exact .inl hrelative
        · exact .inr hsymbol
        · exact absurd hrule (by simp)
      obtain ⟨hlow, hhigh⟩ := habove hkind
      rw [← Except.ok.inj h]
      intro x hx
      have hbelow : x.toNat < 0x02000000 :=
        Nat.not_le.mp fun hle ↦ hx (UInt32.le_iff_toNat_le.mpr hle)
      refine storeWord_of_le s.mem w ?_
      dsimp only at hlow hhigh
      rw [UInt32.le_iff_toNat_le, UInt32.toNat_sub]
      have h4 : (4 : UInt32).toNat = 4 := rfl
      omega

theorem applyTable_above {n : ℕ}
    (habove : ∀ v ∈ tableVisits (neededRelEntry env) n s a, EntryAbove v)
    (h : applyTable (neededRelEntry env) n s a = .ok t) :
    SameOutside (fun x ↦ 0x02000000 ≤ x) s.mem t.mem := by
  induction n generalizing s a with
  | zero =>
    rw [← Except.ok.inj h]
    exact .refl _ _
  | succ n ih =>
    rw [applyTable] at h
    rw [tableVisits] at habove
    cases hentry : neededRelEntry env s a with
    | error e =>
      rw [hentry] at h
      exact absurd h (by simp)
    | ok u =>
      rw [hentry] at h habove
      exact (neededRelEntry_above (habove _ List.mem_cons_self) hentry).trans
        (ih (fun v hv ↦ habove v (List.mem_cons_of_mem _ hv)) h)

theorem applyNeededRelocationTable_above {rel relsz relent : UInt32}
    (habove : ∀ v ∈ neededTableVisits env s rel relsz relent, EntryAbove v)
    (h : applyNeededRelocationTable env s rel relsz relent = .ok t) :
    SameOutside (fun x ↦ 0x02000000 ≤ x) s.mem t.mem := by
  rw [applyNeededRelocationTable] at h
  rw [neededTableVisits] at habove
  split_ifs at h habove
  · rw [← Except.ok.inj h]
    exact .refl _ _
  · exact applyTable_above habove h

theorem applyNeededRelocations_above (habove : ∀ v ∈ neededVisits env s, EntryAbove v)
    (h : applyNeededRelocations env s = .ok t) :
    SameOutside (fun x ↦ 0x02000000 ≤ x) s.mem t.mem := by
  obtain ⟨u, hrel, hjmprel⟩ := applyNeededRelocations_ok env h
  rw [neededVisits, hrel] at habove
  have hfirst := applyNeededRelocationTable_above
    (fun v hv ↦ habove v (List.mem_append_left _ hv)) hrel
  split_ifs at hjmprel with hpltrel
  · refine hfirst.trans (applyNeededRelocationTable_above (fun v hv ↦ ?_) hjmprel)
    refine habove v (List.mem_append_right _ ?_)
    dsimp only
    rw [if_pos hpltrel]
    exact hv
  · rw [← Except.ok.inj hjmprel]
    exact hfirst

theorem Opens.sameOutside {name : Name} (h : Opens env (nextObject s) name t)
    (hs : s.neededObjCount ≤ 8) (htame : Tame env s (some name)) :
    SameOutside (InWork env) s.mem t.mem := by
  obtain ⟨hfit, habove⟩ := htame t h
  have hopen := opened_reads env (nextObject s) name
  have hphdrs := probeNeededPhdrs_reads env (opened env (nextObject s) name)
  have hindex : (probeNeededPhdrs env (opened env (nextObject s) name)).currentNeededObjIndex ≤ 8 :=
    (hphdrs.index.trans hopen.index).trans_le hs
  have hsegments := loadNeededSegments_sameOutside hindex hfit
  have hdynamic := probeNeededDynamic_reads env
    (loadNeededSegments env (probeNeededPhdrs env (opened env (nextObject s) name)))
  have hrelocs := applyNeededRelocations_above habove h.load
  have hread : ∀ x, InReadBuffers env x → InWork env x := fun x hx ↦ .inl hx
  exact ((((hopen.mem.mono hread).trans (hphdrs.mem.mono hread)).trans
    (hsegments.mono fun x hx ↦ .inr (hx.above hindex))).trans (hdynamic.mem.mono hread)).trans
      (hrelocs.mono fun x hx ↦ .inr hx)

end Frames

/-! ## Append only -/

/-- From `s` on, the registry has only been added to: entries and tables of the objects that there
were are the same, and the stores are in the places of new objects with an index below eight. -/
structure Appends (env : Env) (s t : State) : Prop where
  count_le : s.neededObjCount ≤ t.neededObjCount
  kept : ∀ j < s.neededObjCount,
    t.neededObj j = s.neededObj j ∧ ∀ x, InPools env j x → t.mem x = s.mem x
  entries : ∀ j, t.neededObj j ≠ s.neededObj j → s.neededObjCount ≤ j ∧ j < maxNeededObjects
  stores : ∀ x, t.mem x ≠ s.mem x → InWork env x ∨
    ∃ j, s.neededObjCount ≤ j ∧ j < maxNeededObjects ∧ InPools env j x
  names : ∀ j, s.neededObjCount ≤ j → j < t.neededObjCount → (t.neededObj j).name.length < 64

section Appends

variable {env : Env} {s t u : State}

theorem Appends.refl (env : Env) (s : State) : Appends env s s where
  count_le := le_rfl
  kept := fun _ _ ↦ ⟨rfl, fun _ _ ↦ rfl⟩
  entries := fun _ h ↦ absurd rfl h
  stores := fun _ h ↦ absurd rfl h
  names := fun _ hle hlt ↦ absurd hlt (Nat.not_lt.mpr hle)

theorem Appends.trans (h : Appends env s t) (h' : Appends env t u) : Appends env s u where
  count_le := h.count_le.trans h'.count_le
  kept := by
    intro j hj
    obtain ⟨hobj, hmem⟩ := h.kept j hj
    obtain ⟨hobj', hmem'⟩ := h'.kept j (hj.trans_le h.count_le)
    exact ⟨hobj'.trans hobj, fun x hx ↦ (hmem' x hx).trans (hmem x hx)⟩
  entries := by
    intro j hj
    by_cases hlater : u.neededObj j = t.neededObj j
    · rw [hlater] at hj
      exact h.entries j hj
    · obtain ⟨hle, hlt⟩ := h'.entries j hlater
      exact ⟨h.count_le.trans hle, hlt⟩
  stores := by
    intro x hx
    by_cases hlater : u.mem x = t.mem x
    · rw [hlater] at hx
      exact h.stores x hx
    · refine (h'.stores x hlater).imp_right ?_
      rintro ⟨j, hle, hlt, hin⟩
      exact ⟨j, h.count_le.trans hle, hlt, hin⟩
  names := by
    intro j hle hlt
    rcases Nat.lt_or_ge j t.neededObjCount with hbefore | hafter
    · rw [(h'.kept j hbefore).1]
      exact h.names j hle hbefore
    · exact h'.names j hafter hlt

/-- Pools are apart from the buffers for files, and below the libraries. -/
theorem not_inWork_of_inPools (hi : i < 8) (hx : InPools env i x) : ¬InWork env x := by
  have hplace : ∃ k, 1536 ≤ k ∧ k < 9728 ∧ x = env.neededElfHeader + .ofNat k := by
    rcases hx with hx | hx
    · obtain ⟨k, hk, rfl⟩ := InBlock.exists_eq_add hx
      exact ⟨1536 + i * 512 + k, by omega, by omega, add_ofNat_add _ _ _⟩
    · obtain ⟨k, hk, rfl⟩ := InBlock.exists_eq_add hx
      exact ⟨5632 + i * 512 + k, by omega, by omega, add_ofNat_add _ _ _⟩
  obtain ⟨k, hlow, hhigh, rfl⟩ := hplace
  rintro ((hread | hread) | habove)
  · rw [inBuffers_add env (by omega) (by omega)] at hread
    omega
  · rw [inBuffers_add env (by omega) (by omega)] at hread
    omega
  · have hbelow := env.below
    have haddr := toNat_buffers env (k := k) (by omega)
    have hle : (0x02000000 : UInt32).toNat ≤ (env.neededElfHeader + .ofNat k).toNat :=
      UInt32.le_iff_toNat_le.mp habove
    have hbound : (0x02000000 : UInt32).toNat = 0x02000000 := rfl
    omega

theorem not_inPools_of_ne {j : ℕ} (hi : i < 8) (hj : j < 8) (hij : i ≠ j) (hx : InPools env i x) :
    ¬InPools env j x := by
  have hplace : ∃ k, k < 512 ∧ (x = env.neededElfHeader + .ofNat (1536 + i * 512 + k) ∨
      x = env.neededElfHeader + .ofNat (5632 + i * 512 + k)) := by
    rcases hx with hx | hx
    · obtain ⟨k, hk, rfl⟩ := InBlock.exists_eq_add hx
      exact ⟨k, hk, .inl (add_ofNat_add _ _ _)⟩
    · obtain ⟨k, hk, rfl⟩ := InBlock.exists_eq_add hx
      exact ⟨k, hk, .inr (add_ofNat_add _ _ _)⟩
  obtain ⟨k, hk, rfl | rfl⟩ := hplace
  · rw [InPools, inBuffers_add env (by omega) (by omega), inBuffers_add env (by omega) (by omega)]
    omega
  · rw [InPools, inBuffers_add env (by omega) (by omega), inBuffers_add env (by omega) (by omega)]
    omega

/-- What leaves the registry alone and writes to the work area only. -/
theorem Appends.of_sameOutside (hcount : t.neededObjCount = s.neededObjCount)
    (hobj : t.neededObj = s.neededObj) (hmem : SameOutside (InWork env) s.mem t.mem)
    (hs : s.neededObjCount ≤ 8) : Appends env s t where
  count_le := hcount.ge
  kept := by
    intro j hj
    exact ⟨by rw [hobj], fun x hx ↦ hmem x (not_inWork_of_inPools (hj.trans_le hs) hx)⟩
  entries := fun j hj ↦ absurd (by rw [hobj]) hj
  stores := by
    intro x hx
    by_contra hout
    exact hx (hmem x fun hwork ↦ hout (.inl hwork))
  names := by
    intro j hle hlt
    rw [hcount] at hlt
    exact absurd hlt (Nat.not_lt.mpr hle)

theorem afterRegister_appends (hindex : t.currentNeededObjIndex = t.neededObjCount)
    (hname : t.neededCurrentName.length < 64) : Appends env t (afterRegister env t) := by
  by_cases hreg : Registrable t
  · have hafter : afterRegister env t =
        { t with
          mem := copyTables env t t.currentNeededObjIndex
          neededObj := Function.update t.neededObj t.currentNeededObjIndex (newObj t)
          neededObjCount := t.currentNeededObjIndex + 1
          fd := none } := by
      rw [afterRegister, registerNeededObject, if_pos hreg]
    have hlt : t.neededObjCount < 8 := hindex ▸ hreg.1
    have hpools := copyTables_sameOutside env t t.currentNeededObjIndex
    rw [hafter, hindex]
    rw [hindex] at hpools
    refine ⟨Nat.le_succ _, ?_, ?_, ?_, ?_⟩
    · intro j hj
      refine ⟨Function.update_of_ne hj.ne _ _, fun x hx ↦ hpools x ?_⟩
      exact not_inPools_of_ne (hj.trans hlt) hlt hj.ne hx
    · intro j hj
      by_cases heq : j = t.neededObjCount
      · exact ⟨heq.ge, heq ▸ hlt⟩
      · exact absurd (Function.update_of_ne heq _ _) hj
    · intro x hx
      by_contra hout
      exact hx (hpools x fun hin ↦ hout (.inr ⟨_, le_rfl, hlt, hin⟩))
    · intro j hle hj
      obtain rfl : j = t.neededObjCount := Nat.le_antisymm (Nat.le_of_lt_succ hj) hle
      change (Function.update t.neededObj t.neededObjCount (newObj t) t.neededObjCount).name.length
        < 64
      rw [Function.update_self]
      exact hname
  · have hafter : afterRegister env t = { t with fd := none } := by
      rw [afterRegister, registerNeededObject, if_neg hreg]
    rw [hafter]
    exact { Appends.refl env t with }

theorem afterRegister_count_le (hindex : t.currentNeededObjIndex = t.neededObjCount)
    (ht : t.neededObjCount ≤ 8) : (afterRegister env t).neededObjCount ≤ 8 := by
  rw [afterRegister_count t hindex]
  split_ifs with hreg
  · exact hindex ▸ hreg.1
  · exact ht

theorem loadStep_appends {a : Option Name} (hs : s.neededObjCount ≤ 8) (htame : Tame env s a)
    (h : loadStep env s a = some t) : Appends env s t ∧ t.neededObjCount ≤ 8 := by
  rcases loadStep_cases h with rfl | ⟨name, rfl, rfl⟩ | ⟨name, u, rfl, hopens, rfl⟩
  · exact ⟨{ Appends.refl env s with }, hs⟩
  · have hopen := opened_reads env (nextObject s) name
    exact ⟨.of_sameOutside hopen.count hopen.obj (hopen.mem.mono fun x hx ↦ .inl hx) hs,
      hopen.count.trans_le hs⟩
  · have hregistry := (opened_sameRegistry env (nextObject s) name).trans
      (beforeRegister_sameRegistry hopens.load)
    have hindex : u.currentNeededObjIndex = u.neededObjCount :=
      hregistry.index.trans hregistry.count.symm
    have hname : u.neededCurrentName.length < 64 := by
      rw [hregistry.name]
      exact lt_of_le_of_lt (List.length_take_le _ _) (by decide)
    have hload : Appends env s u :=
      .of_sameOutside hregistry.count hregistry.obj (hopens.sameOutside hs htame) hs
    exact ⟨hload.trans (afterRegister_appends hindex hname),
      afterRegister_count_le hindex (hregistry.count.trans_le hs)⟩

end Appends

/-- **The registry is append-only.** For any files, any answers of the kernel and any order of loads,
as long as each of them is tame: from any state of the run to any later one the registry has only
been added to, it has eight objects at most, and every name ends within 64 bytes. -/
theorem registry_append_only {env : Env} {main s t : State}
    (hs : Runs.Reachable (loadStep env) (Tame env) { main with neededObjCount := 0 } s)
    (ht : Runs.Reachable (loadStep env) (Tame env) s t) :
    Appends env s t ∧ t.neededObjCount ≤ maxNeededObjects ∧
      ∀ j < t.neededObjCount, (t.neededObj j).name.length < 64 := by
  have hrun : ∀ {u v : State}, u.neededObjCount ≤ 8 →
      Runs.Reachable (loadStep env) (Tame env) u v → Appends env u v ∧ v.neededObjCount ≤ 8 := by
    intro u v hu hv
    refine @Runs.Reachable.invariant _ _ _ _ u v
      (fun v ↦ Appends env u v ∧ v.neededObjCount ≤ 8) hv ⟨.refl env u, hu⟩ ?_
    rintro w w' a ⟨happends, hcount⟩ htame hstep
    obtain ⟨hlater, hcount'⟩ := loadStep_appends hcount htame hstep
    exact ⟨happends.trans hlater, hcount'⟩
  obtain ⟨hstart, hcount⟩ := hrun (Nat.zero_le _) hs
  obtain ⟨happends, hcount'⟩ := hrun hcount ht
  exact ⟨happends, hcount', fun j hj ↦ (hstart.trans happends).names j (Nat.zero_le j) hj⟩

/-! ## Samples -/

/-- The loads of a library without relocations and of one with a relocation within its image. -/
theorem tame_relocatingLibrary :
    Tame (pairEnv 0x150) selfMain (some (cString "x")) ∧
      Tame (pairEnv 0x150) selfLoaded (some (cString "y")) := by
  refine ⟨fun _ _ ↦ ⟨fun _ _ ↦ ?_, ?_⟩, fun _ _ ↦ ⟨fun _ _ ↦ ?_, ?_⟩⟩ <;> decide +kernel

/-- The registry before and after the second of them. -/
theorem appends_relocatingLibrary :
    ∃ t, loadStep (pairEnv 0x150) selfLoaded (some (cString "y")) = some t ∧
      Appends (pairEnv 0x150) selfLoaded t ∧ selfLoaded.neededObjCount = 1 ∧
        t.neededObjCount = 2 := by
  obtain ⟨hcount, -, u, hu, hreg⟩ := exists_opens_relocatingLibrary
  have hsome : (loadStep (pairEnv 0x150) selfMain (some (cString "x"))).isSome := by decide +kernel
  have hfirst : loadStep (pairEnv 0x150) selfMain (some (cString "x")) = some selfLoaded := by
    obtain ⟨v, hv⟩ := Option.isSome_iff_exists.mp hsome
    rw [selfLoaded, hv, Option.getD_some]
  have hstep := hu.loadStep_eq
  have happends := @registry_append_only (pairEnv 0x150) selfMain _ _
    (.next .start tame_relocatingLibrary.1 hfirst) (.next .start tame_relocatingLibrary.2 hstep)
  refine ⟨_, hstep, happends.1, hcount, ?_⟩
  rw [afterRegister_count u (hu.registry.2.2.trans hu.registry.2.1.symm), if_pos hreg,
    hu.registry.2.1]
  dsimp only [nextObject]
  rw [hcount]

/-- A library with one relocation, whose word is in the strings of object 0 when the library is
loaded as object 1. -/
def strayEnv : Env := pairEnv (0x41000 + 1536 - 0x02100000)

/-- The load of this library changes the strings of the one before it. -/
theorem relocation_in_registry :
    ((Runs.run (loadStep strayEnv) selfMain [some (cString "x")]).map fun t ↦
        (t.neededObjCount, t.mem (strayEnv.strtabSlot 0 + 2))) = some (1, 0) ∧
      ((Runs.run (loadStep strayEnv) selfMain [some (cString "x"), some (cString "y")]).map fun t ↦
        (t.neededObjCount, t.mem (strayEnv.strtabSlot 0 + 2))) = some (2, 0x10) := by
  decide +kernel

end CaribeOS.Ld
