import CaribeOS.Loader.Registered

/-!
# Termination

`probe_needed_library` and `load_transitive_needed_libraries` call each other, and what ends their
descent is the number of registered libraries: a name that has been registered is skipped, and at
eight of them the descent is over. A library that is not registered, however, is followed all the
same. When such libraries need one another in a circle, the loader never comes back.

`loading_terminates` has the condition on the libraries that are not registered, and
`loading_forever` a library that does not meet it.
-/

namespace CaribeOS.Ld

open ByteMemory

/-! ## Fuel -/

variable {names : List Name} {probe : State → Name → Except Stop State} {s : State} {depth : ℕ}
  {env : Env} {name : Name}

/-- More fuel for the calls changes nothing in a descent that has come to its end. -/
theorem loadTransitiveNeeded_mono {probe' : State → Name → Except Stop State}
    (hprobe : ∀ s name, Finished (probe s name) → probe' s name = probe s name)
    (h : Finished (loadTransitiveNeeded probe names s)) :
    loadTransitiveNeeded probe' names s = loadTransitiveNeeded probe names s := by
  induction names generalizing s with
  | nil => rfl
  | cons name names ih =>
    rw [loadTransitiveNeeded] at h
    rw [loadTransitiveNeeded, loadTransitiveNeeded]
    by_cases hempty : name = []
    · rw [if_pos hempty] at h ⊢
      rw [if_pos hempty]
      exact ih h
    rw [if_neg hempty] at h ⊢
    rw [if_neg hempty]
    by_cases hfull : maxNeededObjects ≤ s.neededObjCount
    · rw [if_pos hfull, if_pos hfull]
    rw [if_neg hfull] at h ⊢
    rw [if_neg hfull]
    have hfinished : Finished (probe { s with currentNeededObjIndex := s.neededObjCount } name) := by
      intro hcut
      rw [hcut] at h
      exact h rfl
    rw [hprobe _ _ hfinished]
    cases hcall : probe { s with currentNeededObjIndex := s.neededObjCount } name with
    | error e => rfl
    | ok t =>
      rw [hcall] at h
      exact ih h

theorem probeNeededLibrary_zero (env : Env) (s : State) (name : Name) :
    probeNeededLibrary env 0 s name = .error .outOfFuel := rfl

theorem probeNeededLibrary_succ (h : Finished (probeNeededLibrary env depth s name)) :
    probeNeededLibrary env (depth + 1) s name = probeNeededLibrary env depth s name := by
  induction depth generalizing s name with
  | zero => exact absurd (probeNeededLibrary_zero env s name) h
  | succ depth ih =>
    rw [probeNeededLibrary_eq] at h
    rw [probeNeededLibrary_eq, probeNeededLibrary_eq]
    by_cases hloaded : isNeededNameLoaded s name = true
    · rw [if_pos hloaded, if_pos hloaded]
    rw [if_neg hloaded] at h ⊢
    rw [if_neg hloaded]
    by_cases hopen : (opened env s name).fd.isNone = true
    · rw [if_pos hopen, if_pos hopen]
    rw [if_neg hopen] at h ⊢
    rw [if_neg hopen]
    cases hload : beforeRegister env (opened env s name) with
    | error e => rfl
    | ok t =>
      rw [hload] at h
      exact loadTransitiveNeeded_mono (fun s name hs ↦ ih hs) h

theorem probeNeededLibrary_mono {depth' : ℕ} (hle : depth ≤ depth')
    (h : Finished (probeNeededLibrary env depth s name)) :
    probeNeededLibrary env depth' s name = probeNeededLibrary env depth s name := by
  induction depth', hle using Nat.le_induction with
  | base => rfl
  | succ n _ ih =>
    rw [probeNeededLibrary_succ (by rw [ih]; exact h), ih]

/-! ## The loads of a run -/

mutual

/-- The call of `probe_needed_library` for `name` in `s` comes to `register_needed_object` in `u`, by
itself or in a call below it. -/
inductive LibraryLoad (env : Env) : State → Name → State → Prop
  | here {s : State} {name : Name} {t : State} (h : Opens env s name t) : LibraryLoad env s name t
  | nested {s : State} {name : Name} {t u : State} (h : Opens env s name t)
      (hnested : TransitiveLoad env (transitiveNames env (afterRegister env t))
        (afterRegister env t) u) : LibraryLoad env s name u

/-- The descent into `names` from `s` comes to `register_needed_object` in `u`. -/
inductive TransitiveLoad (env : Env) : List Name → State → State → Prop
  | empty {names : List Name} {s u : State} (h : TransitiveLoad env names s u) :
      TransitiveLoad env ([] :: names) s u
  | first {name : Name} {names : List Name} {s u : State} (hname : name ≠ [])
      (hcount : s.neededObjCount < maxNeededObjects) (h : LibraryLoad env (nextObject s) name u) :
      TransitiveLoad env (name :: names) s u
  | later {name : Name} {names : List Name} {s s' u : State} {depth : ℕ} (hname : name ≠ [])
      (hcount : s.neededObjCount < maxNeededObjects)
      (hprobe : probeNeededLibrary env depth (nextObject s) name = .ok s')
      (h : TransitiveLoad env names s' u) : TransitiveLoad env (name :: names) s u

end

/-- The loop over the `DT_NEEDED` of the main program comes to `register_needed_object` in `u`. -/
inductive MainLoad (env : Env) : List UInt32 → State → State → Prop
  | noStrtab {off : UInt32} {offs : List UInt32} {s u : State} (hstrtab : s.main.strtab = 0)
      (h : MainLoad env offs s u) : MainLoad env (off :: offs) s u
  | noName {off : UInt32} {offs : List UInt32} {s u : State} (hstrtab : s.main.strtab ≠ 0)
      (hptr : s.main.strtab + off = 0)
      (h : MainLoad env offs { nextObject s with fd := none } u) : MainLoad env (off :: offs) s u
  | first {off : UInt32} {offs : List UInt32} {s u : State} (hstrtab : s.main.strtab ≠ 0)
      (hptr : s.main.strtab + off ≠ 0)
      (h : LibraryLoad env (nextObject s) (cstrTake s.mem 64 (s.main.strtab + off)) u) :
      MainLoad env (off :: offs) s u
  | later {off : UInt32} {offs : List UInt32} {s s' u : State} {depth : ℕ}
      (hstrtab : s.main.strtab ≠ 0) (hptr : s.main.strtab + off ≠ 0)
      (hprobe : probeNeededLibrary env depth (nextObject s)
        (cstrTake s.mem 64 (s.main.strtab + off)) = .ok s')
      (h : MainLoad env offs s' u) : MainLoad env (off :: offs) s u

/-- A load in a run of `probe_needed_libraries`. -/
def RunLoad (env : Env) (s t : State) : Prop :=
  MainLoad env s.main.neededOffsets { s with neededObjCount := 0 } t

/-! A load of a run, and the call that it belongs to. -/

mutual

theorem LibraryLoad.opens {env : Env} {s u : State} {name : Name}
    (hs : s.currentNeededObjIndex = s.neededObjCount) (h : LibraryLoad env s name u) :
    ∃ s' name', s'.currentNeededObjIndex = s'.neededObjCount ∧ Opens env s' name' u :=
  match h with
  | .here hopens => ⟨s, name, hs, hopens⟩
  | .nested _ hnested => hnested.opens

theorem TransitiveLoad.opens {env : Env} {s u : State} {names : List Name}
    (h : TransitiveLoad env names s u) :
    ∃ s' name', s'.currentNeededObjIndex = s'.neededObjCount ∧ Opens env s' name' u :=
  match h with
  | .empty hrest => hrest.opens
  | .first _ _ hfirst => hfirst.opens rfl
  | .later _ _ _ hrest => hrest.opens

end

theorem MainLoad.opens {u : State} {offs : List UInt32} (h : MainLoad env offs s u) :
    ∃ s' name', s'.currentNeededObjIndex = s'.neededObjCount ∧ Opens env s' name' u := by
  induction h with
  | noStrtab _ _ ih => exact ih
  | noName _ _ _ ih => exact ih
  | first _ _ hfirst => exact hfirst.opens rfl
  | later _ _ _ _ ih => exact ih

/-- When `register_needed_object` refuses a library before all of the eight places are taken, the
libraries that it needs come after it in some order. -/
def Sinks (env : Env) (rank : Name → ℕ) (t : State) : Prop :=
  Registrable t ∨ maxNeededObjects ≤ t.neededObjCount ∨
    ∀ m ∈ transitiveNames env t, m ≠ [] → rank m < rank t.neededCurrentName

/-! ## The number of registered libraries -/

section Count

variable {env : Env}

theorem loadTransitiveNeeded_count_le (hprobe : ∀ s name t, probe (nextObject s) name = .ok t →
      s.neededObjCount ≤ t.neededObjCount) {t : State}
    (h : loadTransitiveNeeded probe names s = .ok t) : s.neededObjCount ≤ t.neededObjCount := by
  induction names generalizing s with
  | nil => rw [← Except.ok.inj h]
  | cons name names ih =>
    rw [loadTransitiveNeeded] at h
    split_ifs at h
    · exact ih h
    · rw [← Except.ok.inj h]
    · split at h
      · exact absurd h (by simp)
      · rename_i u hcall
        exact (hprobe s name u hcall).trans (ih h)

theorem probeNeededLibrary_count_le {t : State}
    (h : probeNeededLibrary env depth (nextObject s) name = .ok t) :
    s.neededObjCount ≤ t.neededObjCount := by
  induction depth generalizing s t name with
  | zero => exact absurd h (by simp [probeNeededLibrary])
  | succ depth ih =>
    rcases probe_cases env (nextObject s) name with ⟨u, hopens⟩ | ⟨r, -, hcount, hcall⟩
    · rw [hopens.probe_eq] at h
      obtain ⟨-, hcount, hindex⟩ := hopens.registry
      have hle := loadTransitiveNeeded_count_le (fun s name t ht ↦ ih ht) h
      rw [afterRegister_count u (hindex.trans hcount.symm), hcount] at hle
      have hsame : (nextObject s).neededObjCount = s.neededObjCount := rfl
      split_ifs at hle
      · omega
      · omega
    · rw [hcall] at h
      rw [hcount t h]
      exact le_rfl

end Count

/-! ## Descents that end -/

section Ends

variable {env : Env} {rank : Name → ℕ}

theorem loadTransitiveNeeded_full (h : maxNeededObjects ≤ s.neededObjCount) :
    loadTransitiveNeeded probe names s = .ok s := by
  induction names with
  | nil => rfl
  | cons name names ih =>
    rw [loadTransitiveNeeded, if_pos h]
    split_ifs
    · exact ih
    · rfl

theorem loadTransitiveNeeded_cons (hname : name ≠ []) (hcount : s.neededObjCount < maxNeededObjects)
    : loadTransitiveNeeded probe (name :: names) s =
      match probe (nextObject s) name with
      | .error e => .error e
      | .ok t => loadTransitiveNeeded probe names t := by
  rw [loadTransitiveNeeded, if_neg hname, if_neg (Nat.not_le.mpr hcount)]
  rfl

theorem exists_transitive_finished {n : ℕ}
    (hcalls : ∀ name ∈ names, name ≠ [] → ∀ s : State, n ≤ s.neededObjCount →
      (∀ u, LibraryLoad env (nextObject s) name u → Sinks env rank u) →
        ∃ depth, Finished (probeNeededLibrary env depth (nextObject s) name))
    (hs : n ≤ s.neededObjCount) (h : ∀ u, TransitiveLoad env names s u → Sinks env rank u) :
    ∃ depth, Finished (loadTransitiveNeeded (probeNeededLibrary env depth) names s) := by
  induction names generalizing s with
  | nil => exact ⟨0, finished_ok s⟩
  | cons name names ih =>
    have hrest := fun name' hmem ↦ hcalls name' (List.mem_cons_of_mem name hmem)
    rcases Nat.lt_or_ge s.neededObjCount maxNeededObjects with hcount | hfull
    swap
    · exact ⟨0, by rw [loadTransitiveNeeded_full hfull]; exact finished_ok s⟩
    by_cases hname : name = []
    · subst hname
      obtain ⟨depth, hdepth⟩ := ih hrest hs fun u hu ↦ h u (.empty hu)
      refine ⟨depth, ?_⟩
      exact hdepth
    obtain ⟨depth, hfirst⟩ := hcalls name List.mem_cons_self hname s hs
      fun u hu ↦ h u (.first hname hcount hu)
    cases hcall : probeNeededLibrary env depth (nextObject s) name with
    | error e =>
      refine ⟨depth, ?_⟩
      rw [loadTransitiveNeeded_cons hname hcount, hcall]
      rw [hcall] at hfirst
      exact hfirst
    | ok t =>
      -- the rest of the names, with fuel for the first one as well
      obtain ⟨depth', hlater⟩ := ih hrest (hs.trans (probeNeededLibrary_count_le hcall))
        fun u hu ↦ h u (.later hname hcount hcall hu)
      refine ⟨max depth depth', ?_⟩
      rw [loadTransitiveNeeded_cons hname hcount,
        probeNeededLibrary_mono (le_max_left depth depth') hfirst, hcall]
      dsimp only
      rw [loadTransitiveNeeded_mono
        (fun s name hs ↦ probeNeededLibrary_mono (le_max_right depth depth') hs) hlater]
      exact hlater

theorem length_mem_transitiveNames {t : State} {m : Name} (h : m ∈ transitiveNames env t) :
    m.length ≤ 63 := by
  obtain ⟨off, -, rfl⟩ := List.mem_map.mp h
  split_ifs
  · exact length_cstrTake_le _
  · exact Nat.zero_le _

/-- A call ends: the induction is on the number of places that are left, and for libraries that do
not take one on their rank. -/
theorem exists_probe_finished {left r : ℕ} (hleft : maxNeededObjects - s.neededObjCount = left)
    (hrank : rank (name.take 63) = r)
    (h : ∀ u, LibraryLoad env (nextObject s) name u → Sinks env rank u) :
    ∃ depth, Finished (probeNeededLibrary env depth (nextObject s) name) := by
  induction left using Nat.strong_induction_on generalizing r s name with
  | _ left ihLeft =>
    induction r using Nat.strong_induction_on generalizing s name with
    | _ r ihRank =>
      rcases probe_cases env (nextObject s) name with ⟨t, hopens⟩ | ⟨result, hresult, -, hcall⟩
      swap
      · exact ⟨1, by rw [hcall 0]; exact hresult⟩
      obtain ⟨htname, htcount, htindex⟩ := hopens.registry
      have hcount : (afterRegister env t).neededObjCount = _ :=
        afterRegister_count t (htindex.trans htcount.symm)
      have hsame : t.neededObjCount = s.neededObjCount := htcount
      suffices hdescent : ∃ depth, Finished (loadTransitiveNeeded (probeNeededLibrary env depth)
          (transitiveNames env (afterRegister env t)) (afterRegister env t)) by
        obtain ⟨depth, hdepth⟩ := hdescent
        exact ⟨depth + 1, by rw [hopens.probe_eq]; exact hdepth⟩
      have hbelow : ∀ u, TransitiveLoad env (transitiveNames env (afterRegister env t))
          (afterRegister env t) u → Sinks env rank u := fun u hu ↦ h u (.nested hopens hu)
      rcases Nat.lt_or_ge s.neededObjCount maxNeededObjects with hplace | hfull
      swap
      · refine ⟨0, ?_⟩
        rw [loadTransitiveNeeded_full]
        · exact finished_ok _
        · rw [hcount, hsame]
          split_ifs
          · omega
          · exact hfull
      by_cases hreg : Registrable t
      · -- one place less, whatever the names are
        rw [if_pos hreg, hsame] at hcount
        refine exists_transitive_finished (n := s.neededObjCount + 1) ?_ hcount.ge hbelow
        intro m _ _ s' hs' hloads
        exact ihLeft _ (by omega) rfl rfl hloads
      · have hsink : ∀ m ∈ transitiveNames env t, m ≠ [] → rank m < rank t.neededCurrentName :=
          ((h t (.here hopens)).resolve_left hreg).resolve_left (by omega)
        have hnames : transitiveNames env (afterRegister env t) = transitiveNames env t := by
          rw [afterRegister, registerNeededObject, if_neg hreg]
          rfl
        rw [if_neg hreg, hsame] at hcount
        refine exists_transitive_finished (n := s.neededObjCount) ?_ hcount.ge hbelow
        intro m hm hne s' hs' hloads
        rw [hnames] at hm
        rcases Nat.eq_or_lt_of_le hs' with heq | hlt
        · refine ihRank (rank (m.take 63)) ?_ (by rw [← heq, hleft]) rfl hloads
          rw [List.take_of_length_le (length_mem_transitiveNames hm), ← hrank, ← htname]
          exact hsink m hm hne
        · exact ihLeft _ (by omega) rfl rfl hloads

theorem exists_main_finished {offs : List UInt32}
    (h : ∀ u, MainLoad env offs s u → Sinks env rank u) :
    ∃ depth, ∀ depth' ≥ depth, Finished (probeNeededFrom env depth' offs s) := by
  induction offs generalizing s with
  | nil => exact ⟨0, fun depth' _ ↦ finished_ok s⟩
  | cons off offs ih =>
    by_cases hstrtab : s.main.strtab = 0
    · obtain ⟨depth, hdepth⟩ := ih fun u hu ↦ h u (.noStrtab hstrtab hu)
      refine ⟨depth, fun depth' hle ↦ ?_⟩
      rw [probeNeededFrom, if_pos hstrtab]
      exact hdepth depth' hle
    by_cases hptr : s.main.strtab + off = 0
    · obtain ⟨depth, hdepth⟩ := ih fun u hu ↦ h u (.noName hstrtab hptr hu)
      refine ⟨depth, fun depth' hle ↦ ?_⟩
      rw [probeNeededFrom, if_neg hstrtab]
      rw [if_pos hptr]
      exact hdepth depth' hle
    obtain ⟨depth, hfirst⟩ := exists_probe_finished rfl rfl fun u hu ↦ h u (.first hstrtab hptr hu)
    have hstep : ∀ depth' ≥ depth, probeNeededFrom env depth' (off :: offs) s =
        match probeNeededLibrary env depth (nextObject s)
          (cstrTake s.mem 64 (s.main.strtab + off)) with
        | .error e => .error e
        | .ok s => probeNeededFrom env depth' offs s := by
      intro depth' hle
      rw [probeNeededFrom, if_neg hstrtab]
      rw [if_neg hptr, ← probeNeededLibrary_mono hle hfirst]
      rfl
    cases hcall : probeNeededLibrary env depth (nextObject s)
        (cstrTake s.mem 64 (s.main.strtab + off)) with
    | error e =>
      refine ⟨depth, fun depth' hle ↦ ?_⟩
      rw [hstep depth' hle, hcall]
      rw [hcall] at hfirst
      exact hfirst
    | ok t =>
      obtain ⟨depth', hlater⟩ := ih fun u hu ↦ h u (.later hstrtab hptr hcall hu)
      refine ⟨max depth depth', fun depth'' hle ↦ ?_⟩
      rw [hstep depth'' (le_trans (le_max_left _ _) hle), hcall]
      exact hlater depth'' (le_trans (le_max_right _ _) hle)

end Ends

/-- **Termination.** With any files, any answers of the kernel and any main program: when the
libraries that are refused while there are places left do not need one another in a circle, the
calls are nested to some depth only. -/
theorem loading_terminates (env : Env) (s : State) (rank : Name → ℕ)
    (h : ∀ t, RunLoad env s t → Sinks env rank t) :
    ∃ depth, ∀ depth' ≥ depth, Finished (probeNeededLibraries env depth' s) :=
  exists_main_finished h

/-! ## A library that is refused -/

/-- A library that needs `x` and has a span that the loader does not accept. -/
def circularLibrary : File :=
  padTo 0x80 (fileOfWords (libraryHeader 2 ++ (Phdr.words ⟨1, 0, 0, 0x103, 0x8000, 7⟩ ++
    Phdr.words ⟨2, 0x80, 0x80, 24, 24, 6⟩))) ++
  (padTo 0x80 (fileOfWords [1, 1, 5, 0x100, 10, 3]) ++ [0, 0x78, 0])

def circularEnv : Env := shelf [(cString "x", circularLibrary)]

theorem headerLoadable_circularLibrary : HeaderLoadable circularLibrary := by
  constructor <;> decide +kernel

theorem fileLib_circularLibrary :
    fileLib circularLibrary = { strtab := 0x100, strsz := 3, neededOffsets := [1] } := by
  decide +kernel

theorem fileNeeded_circularLibrary : fileNeeded circularLibrary = [cString "x"] := by
  decide +kernel

theorem namesInside_circularLibrary : NamesInside circularLibrary := by
  intro off hoff
  rw [fileLib_circularLibrary] at hoff
  obtain rfl := List.mem_singleton.mp hoff
  exact ⟨cString "x", by decide +kernel, by decide +kernel⟩

/-- It has no other tables than its strings, so that nothing more is read and nothing is
relocated. -/
theorem readTables_circularLibrary (hlib : s.scratch.lib = fileLib circularLibrary) :
    applyNeededRelocations env (readNeededSymtab env (readNeededVerdef (readNeededVersym
        (readNeededGnuHash (readNeededHash s))))) =
      .ok { s with
        scratch := { s.scratch with symcount := 0, gnuhashRuntime := 0, versymRuntime := 0 } } := by
  rw [fileLib_circularLibrary] at hlib
  rw [readNeededHash, readNeededGnuHash, readNeededVersym, readNeededVerdef, hlib]
  dsimp only
  rw [hlib, if_pos (.inl rfl), readNeededSymtab]
  rfl

theorem strings_scratch (env : Env) (s : State) (f : File) :
    (afterStrtab env (afterDynamic env s f) f).scratch.lib = fileLib f ∧
      (afterStrtab env (afterDynamic env s f) f).scratch.loadBase = s.scratch.loadBase ∧
        (afterStrtab env (afterDynamic env s f) f).scratch.strtabRead = fileStrtabRead f := by
  rw [afterStrtab_scratch, afterDynamic_scratch]
  exact ⟨rfl, rfl, rfl⟩

/-- From any state it comes to its registration, with the base that there was. -/
theorem beforeRegister_circularLibrary (hserves : ∀ k n, Serves env k n)
    (hfile : env.openat s.calls (neededPath (name.take 63)) = some circularLibrary) :
    ∃ t, beforeRegister env (opened env s name) = .ok t ∧ (opened env s name).fd.isNone = false ∧
      t.scratch.loadBase = s.scratch.loadBase ∧ transitiveNames env t = [cString "x"] := by
  have hf := headerLoadable_circularLibrary
  have hopen := opened_loadable hf hfile (hserves _ 1 0 (by decide))
  generalize hu : opened env s name = u at hopen
  obtain ⟨pos, hfd⟩ := hopen.fd
  have hread : u.scratch.read = fileRead circularLibrary 0 256 := by rw [hopen.scratch]
  have hrefused : ¬(fileBounds circularLibrary).Accepted := by decide
  -- the span is refused, and the slots for base and bias are left alone
  have hsegments : ∃ v, loadNeededSegments env (probeNeededPhdrs env u) = v ∧
      v.fd = u.fd ∧ v.mem = u.mem ∧ v.scratch.loadBase = s.scratch.loadBase ∧
        v.scratch.dynamicOff = (dynamicPhdr circularLibrary).offset ∧
          v.scratch.dynamicSize = (dynamicPhdr circularLibrary).filesz := by
    rw [probeNeededPhdrs_eq hopen.header hf hread (by decide), loadNeededSegments]
    rw [State.phdrs, hopen.header.phdrs_eq hf, ← fileBounds, if_neg hrefused]
    refine ⟨_, rfl, rfl, rfl, ?_, rfl, rfl⟩
    rw [hopen.scratch]
  obtain ⟨v, hv, hvfd, hvmem, hvbase, hoff, hbytes⟩ := hsegments
  have hin : HeaderIn env v.mem circularLibrary := by
    rw [hvmem]
    exact hopen.header
  have hin' := hin.mono (afterDynamic_sameOutside v circularLibrary)
  obtain ⟨pos', hfd'⟩ := @afterDynamic_fd env circularLibrary v
  have hprobe : probeNeededDynamic env v = _ :=
    probeNeededDynamic_served (hserves _ 2) (hvfd.trans hfd) hf.size (by decide) hoff hbytes
  rw [readNeededStrtab_served (hserves _ 2) hfd' hin' hf (by rw [afterDynamic_scratch])
    (by decide +kernel) (by decide +kernel)] at hprobe
  generalize hw : afterStrtab env (afterDynamic env v circularLibrary) circularLibrary = w at hprobe
  have hscratch : w.scratch.lib = fileLib circularLibrary ∧ w.scratch.loadBase = s.scratch.loadBase ∧
      w.scratch.strtabRead = fileStrtabRead circularLibrary := by
    rw [← hw, ← hvbase]
    exact strings_scratch env v circularLibrary
  have hstrtab : Holds env w.mem 512 circularLibrary (strtabOff circularLibrary).toNat
      (fileStrtabRead circularLibrary).toNat := by
    rw [← hw, afterStrtab_mem]
    have hle := toNat_fileStrtabBytes_le circularLibrary
    exact afterRead_holds _ (by omega) 2
  obtain ⟨hlib, hwbase, hstrtabRead⟩ := hscratch
  refine ⟨{ w with
      scratch := { w.scratch with symcount := 0, gnuhashRuntime := 0, versymRuntime := 0 } },
    ?_, ?_, hwbase, ?_⟩
  · rw [beforeRegister, hv, hprobe]
    exact readTables_circularLibrary hlib
  · rw [hfd]
    rfl
  · rw [← fileNeeded_circularLibrary]
    exact transitiveNames_eq hf.size namesInside_circularLibrary hlib hstrtabRead hstrtab

def refusedEnv : Env := shelf [(cString "x", selfLibrary), (cString "y", circularLibrary)]

/-- A program that needs the library that is refused, which needs one that is registered. -/
theorem refusedLibrary_terminates :
    ∃ depth, ∀ depth' ≥ depth,
      Finished (probeNeededLibraries refusedEnv depth' (sampleMain (cString "y") [0])) := by
  refine loading_terminates refusedEnv _ (fun name ↦ if name = cString "y" then 1 else 0)
    fun t ht ↦ ?_
  obtain ⟨s, name, hindex, hopens⟩ := ht.opens
  have hcount := hopens.registry.2.1
  obtain ⟨f, hfile⟩ := hopens.exists_file
  obtain ⟨⟨name', f'⟩, hfind, rfl⟩ := Option.map_eq_some_iff.mp hfile
  rcases List.mem_pair.mp (List.mem_of_find?_eq_some hfind) with heq | heq
  · obtain ⟨rfl, rfl⟩ := Prod.mk.inj heq
    rcases Nat.lt_or_ge s.currentNeededObjIndex maxNeededObjects with hplace | hfull
    · exact .inl ((hopens.registrable_iff hplace.le hfile loadable_selfLibrary
        (serves_shelf _ _ _)).mpr hplace)
    · refine .inr (.inl ?_)
      rw [hcount, ← hindex]
      exact hfull
  · obtain ⟨rfl, rfl⟩ := Prod.mk.inj heq
    have hname : t.neededCurrentName = cString "y" := by
      have hpath := List.find?_some hfind
      rw [hopens.registry.1]
      exact (List.append_cancel_left (of_decide_eq_true hpath)).symm
    have hserves : ∀ k n, Serves refusedEnv k n := serves_shelf _
    obtain ⟨t', hload, -, -, hnames⟩ := beforeRegister_circularLibrary hserves hfile
    obtain rfl : t = t' := Except.ok.inj (hopens.load.symm.trans hload)
    refine .inr (.inr fun m hm ↦ ?_)
    rw [hnames] at hm
    rw [List.mem_singleton.mp hm, hname]
    decide

/-- Without a base and without libraries it is refused. -/
theorem opens_circularLibrary (hbase : s.scratch.loadBase = 0) (hcount : s.neededObjCount = 0) :
    ∃ t, Opens circularEnv s (cString "x") t ∧ t.scratch.loadBase = 0 ∧
      transitiveNames circularEnv t = [cString "x"] := by
  have hfile : circularEnv.openat 0 (neededPath ((cString "x").take 63)) =
      some circularLibrary := by decide +kernel
  have hfresh : isNeededNameLoaded s (cString "x") = false := by
    rw [isNeededNameLoaded, hcount]
    rfl
  have hserves : ∀ k n, Serves circularEnv k n := serves_shelf _
  obtain ⟨t, hload, hopen, htbase, hnames⟩ := beforeRegister_circularLibrary hserves hfile
  exact ⟨t, ⟨hfresh, hopen, hload⟩, htbase.trans hbase, hnames⟩

/-- Whatever the depth, there is another call below. -/
theorem probeNeededLibrary_circularLibrary (depth : ℕ) (hbase : s.scratch.loadBase = 0)
    (hcount : s.neededObjCount = 0) :
    probeNeededLibrary circularEnv depth s (cString "x") = .error .outOfFuel := by
  induction depth generalizing s with
  | zero => rfl
  | succ depth ih =>
    obtain ⟨t, hopens, htbase, hnames⟩ := opens_circularLibrary hbase hcount
    have hreg : ¬Registrable t := fun h ↦ h.2.1 htbase
    have hafter : afterRegister circularEnv t = { t with fd := none } := by
      rw [afterRegister, registerNeededObject, if_neg hreg]
    have htcount : t.neededObjCount = 0 := hopens.registry.2.1.trans hcount
    rw [hopens.probe_eq, hafter, show transitiveNames circularEnv { t with fd := none } =
      [cString "x"] from hnames, loadTransitiveNeeded_cons (by decide) (by rw [htcount]; decide)]
    rw [ih (s := nextObject { t with fd := none }) htbase htcount]

/-- A program that needs this library. -/
def circularMain : State := sampleMain (cString "x") [0]

/-- The library cannot be registered and is followed again and again: no depth of calls is
enough. -/
theorem loading_forever :
    ¬∃ depth, Finished (probeNeededLibraries circularEnv depth circularMain) := by
  rintro ⟨depth, hfinished⟩
  apply hfinished
  have hname : cstrTake circularMain.mem 64 (circularMain.main.strtab + 0) = cString "x" := by
    decide
  have hprobe := probeNeededLibrary_circularLibrary depth
    (s := { circularMain with neededObjCount := 0, currentNeededObjIndex := 0 }) rfl rfl
  rw [← hname] at hprobe
  change probeNeededFrom circularEnv depth [0] { circularMain with neededObjCount := 0 } = _
  rw [probeNeededFrom, if_neg (by decide)]
  rw [if_neg (by decide), hprobe]

end CaribeOS.Ld
