import CaribeOS.Foundation.Runs
import CaribeOS.Loader.Frame

/-!
# The descent into the libraries

`probe_needed_library` opens a library, loads it, registers it and then descends into what it
needs. Without the descent this is one step on the state of the loader, `loadStep`, and all that
the two functions do by calling each other is to take such steps one after the other:
`exists_run_of_probeNeededLibraries`. What every single load keeps is therefore kept by all of
them, in whatever order they come.
-/

namespace CaribeOS.Ld

open ByteMemory

/-- The state in which a library is probed: it is to have the next index. -/
def nextObject (s : State) : State := { s with currentNeededObjIndex := s.neededObjCount }

theorem index_nextObject (s : State) : (nextObject s).currentNeededObjIndex = s.neededObjCount := rfl

/-- The call for `name` in `s` opens a library and comes to `register_needed_object` in `t`. -/
structure Opens (env : Env) (s : State) (name : Name) (t : State) : Prop where
  fresh : isNeededNameLoaded s name = false
  isOpen : (opened env s name).fd.isNone = false
  load : beforeRegister env (opened env s name) = .ok t

/-! ## One call -/

/-- The run has not been cut off. -/
def Finished (result : Except Stop State) : Prop := result ≠ .error .outOfFuel

theorem finished_ok (s : State) : Finished (.ok s) := fun h ↦ by cases h

variable {s t : State} {name : Name} {depth : ℕ}

theorem neededRel_error {env : Env} {r : Rel} {e : Stop} (h : neededRel env s r = .error e) :
    e = .exited := by
  rw [neededRel] at h
  split at h
  · exact absurd h (by simp)
  · split at h
    · split at h
      · exact absurd h (by simp)
      · exact (Except.error.inj h).symm
      · exact absurd h (by simp)
      · exact absurd h (by simp)
    · exact absurd h (by simp)

theorem applyTable_finished (env : Env) (n : ℕ) (s : State) (a : UInt32) :
    Finished (applyTable (neededRelEntry env) n s a) := by
  induction n generalizing s a with
  | zero => exact finished_ok s
  | succ n ih =>
    rw [applyTable]
    cases hentry : neededRelEntry env s a with
    | ok t => exact ih t (a + 8)
    | error e =>
      rw [neededRelEntry, applyEntry] at hentry
      split at hentry
      · rename_i e' hrule
        rw [← Except.error.inj hentry, neededRel_error hrule]
        exact fun h ↦ by cases h
      · exact absurd hentry (by simp)
      · exact absurd hentry (by simp)

/-- Relocation needs no fuel. -/
theorem beforeRegister_finished (env : Env) (s : State) : Finished (beforeRegister env s) := by
  have htable : ∀ t rel relsz relent,
      Finished (applyNeededRelocationTable env t rel relsz relent) := by
    intro t rel relsz relent
    rw [applyNeededRelocationTable]
    split_ifs
    · exact finished_ok t
    · exact applyTable_finished env _ _ _
  rw [beforeRegister, applyNeededRelocations]
  generalize probeNeededDynamic env (loadNeededSegments env (probeNeededPhdrs env s)) = t
  have hfirst := htable t t.scratch.lib.rel t.scratch.lib.relsz t.scratch.lib.relent
  cases hrel : applyNeededRelocationTable env t t.scratch.lib.rel t.scratch.lib.relsz
      t.scratch.lib.relent with
  | error e =>
    rw [hrel] at hfirst
    exact hfirst
  | ok u =>
    split_ifs
    · exact htable u _ _ _
    · exact finished_ok u

section Call

variable {env : Env}

theorem afterRegister_count (t : State) (h : t.currentNeededObjIndex = t.neededObjCount) :
    (afterRegister env t).neededObjCount =
      if Registrable t then t.neededObjCount + 1 else t.neededObjCount := by
  rw [afterRegister, registerNeededObject]
  split_ifs
  · rw [← h]
  · rfl

/-- What is known of a load besides its state. -/
theorem Opens.registry (h : Opens env s name t) :
    t.neededCurrentName = name.take 63 ∧ t.neededObjCount = s.neededObjCount ∧
      t.currentNeededObjIndex = s.currentNeededObjIndex := by
  have hsame := (opened_sameRegistry env s name).trans (beforeRegister_sameRegistry h.load)
  exact ⟨hsame.name, hsame.count, hsame.index⟩

theorem Opens.exists_file (h : Opens env s name t) :
    ∃ f, env.openat s.calls (neededPath (name.take 63)) = some f := by
  have hopen := h.isOpen
  rw [opened, openNeededLibrary, copyCstrBounded_eq] at hopen
  cases hfile : env.openat s.calls (neededPath (name.take 63)) with
  | none =>
    rw [hfile] at hopen
    exact absurd hopen (by simp)
  | some f => exact ⟨f, rfl⟩

theorem Opens.probe_eq (h : Opens env s name t) (depth : ℕ) :
    probeNeededLibrary env (depth + 1) s name =
      loadTransitiveNeeded (probeNeededLibrary env depth)
        (transitiveNames env (afterRegister env t)) (afterRegister env t) := by
  rw [probeNeededLibrary_eq, if_neg (by rw [h.fresh]; simp), if_neg (by rw [h.isOpen]; simp), h.load]

theorem probe_cases (env : Env) (s : State) (name : Name) :
    (∃ t, Opens env s name t) ∨ ∃ r, Finished r ∧ (∀ t, r = .ok t →
      t.neededObjCount = s.neededObjCount) ∧
      ∀ depth, probeNeededLibrary env (depth + 1) s name = r := by
  by_cases hloaded : isNeededNameLoaded s name = true
  · refine .inr ⟨.ok { s with fd := none }, finished_ok _, ?_, fun depth ↦ ?_⟩
    · rintro t ht
      rw [← Except.ok.inj ht]
    · rw [probeNeededLibrary_eq, if_pos hloaded]
  by_cases hclosed : (opened env s name).fd.isNone = true
  · refine .inr ⟨.ok (opened env s name), finished_ok _, ?_, fun depth ↦ ?_⟩
    · rintro t ht
      rw [← Except.ok.inj ht]
      exact (opened_sameRegistry env s name).count
    · rw [probeNeededLibrary_eq, if_neg hloaded, if_pos hclosed]
  cases hload : beforeRegister env (opened env s name) with
  | ok t => exact .inl ⟨t, eq_false_of_ne_true hloaded, eq_false_of_ne_true hclosed, hload⟩
  | error e =>
    have hfinished := beforeRegister_finished env (opened env s name)
    rw [hload] at hfinished
    refine .inr ⟨.error e, ?_, fun t ht ↦ absurd ht (by simp), fun depth ↦ ?_⟩
    · exact hfinished
    · rw [probeNeededLibrary_eq, if_neg hloaded, if_neg hclosed, hload]

end Call

/-! ## Loads as steps -/

/-- A call of `probe_needed_library` for a name, or for no name, without the descent. -/
def loadStep (env : Env) (s : State) : Option Name → Option State
  | none => some { nextObject s with fd := none }
  | some name =>
    if isNeededNameLoaded (nextObject s) name then some { nextObject s with fd := none }
    else if (opened env (nextObject s) name).fd.isNone then some (opened env (nextObject s) name)
    else (beforeRegister env (opened env (nextObject s) name)).toOption.map (afterRegister env)

section Steps

variable {env : Env} {s t : State} {name : Name}

theorem loadStep_cases {a : Option Name} (h : loadStep env s a = some t) :
    t = { nextObject s with fd := none } ∨
      (∃ name, a = some name ∧ t = opened env (nextObject s) name) ∨
        ∃ name u, a = some name ∧ Opens env (nextObject s) name u ∧ t = afterRegister env u := by
  cases a with
  | none => exact .inl (Option.some.inj h).symm
  | some name =>
    rw [loadStep] at h
    split_ifs at h with hloaded hclosed
    · exact .inl (Option.some.inj h).symm
    · exact .inr (.inl ⟨name, rfl, (Option.some.inj h).symm⟩)
    · obtain ⟨u, hu, rfl⟩ := Option.map_eq_some_iff.mp h
      have hload : beforeRegister env (opened env (nextObject s) name) = .ok u := by
        cases hresult : beforeRegister env (opened env (nextObject s) name) with
        | error e =>
          rw [hresult] at hu
          exact absurd hu (by simp [Except.toOption])
        | ok v =>
          rw [hresult] at hu
          exact congrArg Except.ok (Option.some.inj hu)
      exact .inr (.inr ⟨name, u, rfl,
        ⟨eq_false_of_ne_true hloaded, eq_false_of_ne_true hclosed, hload⟩, rfl⟩)

theorem Opens.loadStep_eq {u : State} (h : Opens env (nextObject s) name u) :
    loadStep env s (some name) = some (afterRegister env u) := by
  rw [loadStep, if_neg (by rw [h.fresh]; simp), if_neg (by rw [h.isOpen]; simp), h.load]
  rfl

theorem exists_run_of_loadTransitiveNeeded {probe : State → Name → Except Stop State}
    (hprobe : ∀ s name t, probe (nextObject s) name = .ok t →
      ∃ as, Runs.run (loadStep env) s as = some t) {names : List Name}
    (h : loadTransitiveNeeded probe names s = .ok t) :
    ∃ as, Runs.run (loadStep env) s as = some t := by
  induction names generalizing s with
  | nil => exact ⟨[], congrArg some (Except.ok.inj h)⟩
  | cons name names ih =>
    rw [loadTransitiveNeeded] at h
    split_ifs at h
    · exact ih h
    · exact ⟨[], congrArg some (Except.ok.inj h)⟩
    · split at h
      · exact absurd h (by simp)
      · rename_i u hcall
        obtain ⟨as, has⟩ := hprobe s name u hcall
        obtain ⟨bs, hbs⟩ := ih h
        exact ⟨as ++ bs, Runs.run_append_of_eq _ has hbs⟩

theorem exists_run_of_probeNeededLibrary
    (h : probeNeededLibrary env depth (nextObject s) name = .ok t) :
    ∃ as, Runs.run (loadStep env) s as = some t := by
  induction depth generalizing s t name with
  | zero => exact absurd h (by simp [probeNeededLibrary])
  | succ depth ih =>
    rw [probeNeededLibrary_eq] at h
    by_cases hloaded : isNeededNameLoaded (nextObject s) name = true
    · rw [if_pos hloaded] at h
      refine ⟨[none], ?_⟩
      rw [← Except.ok.inj h]
      rfl
    by_cases hclosed : (opened env (nextObject s) name).fd.isNone = true
    · rw [if_neg hloaded, if_pos hclosed] at h
      refine ⟨[some name], ?_⟩
      rw [Runs.run, loadStep, if_neg hloaded, if_pos hclosed, ← Except.ok.inj h]
      rfl
    rw [if_neg hloaded, if_neg hclosed] at h
    cases hload : beforeRegister env (opened env (nextObject s) name) with
    | error e =>
      rw [hload] at h
      exact absurd h (by simp)
    | ok u =>
      rw [hload] at h
      have hopens : Opens env (nextObject s) name u :=
        ⟨eq_false_of_ne_true hloaded, eq_false_of_ne_true hclosed, hload⟩
      obtain ⟨as, has⟩ := exists_run_of_loadTransitiveNeeded (fun s name t ht ↦ ih ht) h
      refine ⟨some name :: as, ?_⟩
      rw [Runs.run, hopens.loadStep_eq]
      exact has

theorem exists_run_of_probeNeededFrom {offs : List UInt32}
    (h : probeNeededFrom env depth offs s = .ok t) :
    ∃ as, Runs.run (loadStep env) s as = some t := by
  induction offs generalizing s with
  | nil => exact ⟨[], congrArg some (Except.ok.inj h)⟩
  | cons off offs ih =>
    rw [probeNeededFrom] at h
    dsimp only at h
    split_ifs at h
    · exact ih h
    · obtain ⟨as, has⟩ := ih h
      exact ⟨none :: as, has⟩
    · split at h
      · exact absurd h (by simp)
      · rename_i u hcall
        obtain ⟨as, has⟩ := exists_run_of_probeNeededLibrary (s := s) hcall
        obtain ⟨bs, hbs⟩ := ih h
        exact ⟨as ++ bs, Runs.run_append_of_eq _ has hbs⟩

/-- **The descent is a run of loads.** -/
theorem exists_run_of_probeNeededLibraries (h : probeNeededLibraries env depth s = .ok t) :
    ∃ as, Runs.run (loadStep env) { s with neededObjCount := 0 } as = some t :=
  exists_run_of_probeNeededFrom h

end Steps

end CaribeOS.Ld
