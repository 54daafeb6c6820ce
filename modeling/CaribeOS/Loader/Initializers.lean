import CaribeOS.Loader.Library
import CaribeOS.Loader.Probe

/-!
# Initialisers

`call_needed_initializers` goes over the registered libraries from the last one to the first and
calls `DT_INIT` and the functions of `DT_INIT_ARRAY` of each. Every one of them is called exactly
once. Whether a library is initialised after the libraries that it needs is decided by the order of
registration alone: a library that has been registered after the one that needs it comes first.
That is not so for a library that the main program lists before the one that needs it.

What an initialiser does to memory is arbitrary.
-/

namespace CaribeOS.Ld

open ByteMemory

/-! ## Calls -/

/-- Which of the initialisers of a library: `DT_INIT`, or a function of `DT_INIT_ARRAY`. -/
inductive InitEntry where
  | init
  | array (k : ℕ)
deriving DecidableEq

/-- The call of an initialiser of an object. -/
structure InitCall where
  object : ℕ
  entry : InitEntry
  addr : UInt32
deriving DecidableEq

section Calls

variable (body : UInt32 → Mem → Mem)

/-- The functions at `a`, `left` of them, from number `k` on: memory afterwards and the calls. Each
address is read when its turn comes. -/
def callInitArray (i : ℕ) : ℕ → ℕ → UInt32 → Mem → Mem × List InitCall
  | 0, _, _, m => (m, [])
  | left + 1, k, a, m =>
    let addr := loadWord m a
    let (m, calls) := callInitArray i left (k + 1) (a + 4) (body addr m)
    (m, ⟨i, .array k, addr⟩ :: calls)

/-- `DT_INIT` of object `i`. -/
def callInit (i : ℕ) (init : UInt32) (m : Mem) : Mem × List InitCall :=
  if init = 0 then (m, []) else (body init m, [⟨i, .init, init⟩])

/-- The number of functions in `DT_INIT_ARRAY`. -/
def initArrayLength (initArray initArraysz : UInt32) : ℕ :=
  if initArray = 0 ∨ initArraysz = 0 then 0 else (initArraysz / 4).toNat

/-- The loop body of `call_needed_initializers`. -/
def callObjectInitializers (i : ℕ) (o : NeededObj) (m : Mem) : Mem × List InitCall :=
  let (m, calls) := callInit body i o.init m
  let (m, calls') :=
    callInitArray body i (initArrayLength o.initArray o.initArraysz) 0 o.initArray m
  (m, calls ++ calls')

/-- The loop of `call_needed_initializers` over the objects below `n`, from the last one on. -/
def callInitializersBelow (obj : ℕ → NeededObj) : ℕ → Mem → Mem × List InitCall
  | 0, m => (m, [])
  | i + 1, m =>
    let (m, calls) := callObjectInitializers body i (obj i) m
    let (m, calls') := callInitializersBelow obj i m
    (m, calls ++ calls')

def callNeededInitializers (s : State) : State × List InitCall :=
  let (m, calls) := callInitializersBelow body s.neededObj s.neededObjCount s.mem
  ({ s with mem := m }, calls)

/-- `call_main_init` and `call_main_init_array`. -/
def callMainInitializers (s : State) : State :=
  let main := s.main
  let (m, _) := callInit body 0 main.init s.mem
  let (m, _) := callInitArray body 0 (initArrayLength main.initArray main.initArraysz) 0
    main.initArray m
  { s with mem := m }

end Calls

/-! ## Exactly once -/

/-- The initialisers of a library, in the order in which they are called. -/
def initEntries (o : NeededObj) : List InitEntry :=
  (if o.init = 0 then [] else [.init]) ++
    (List.range (initArrayLength o.initArray o.initArraysz)).map .array

/-- The initialisers of the objects below `n`, in the order in which they are called. -/
def initOrder (obj : ℕ → NeededObj) : ℕ → List (ℕ × InitEntry)
  | 0 => []
  | i + 1 => (initEntries (obj i)).map (i, ·) ++ initOrder obj i

/-- Object and initialiser of a call. -/
def InitCall.key (c : InitCall) : ℕ × InitEntry := (c.object, c.entry)

section Once

variable (body : UInt32 → Mem → Mem)

theorem callInitArray_keys (i left k : ℕ) (a : UInt32) (m : Mem) :
    (callInitArray body i left k a m).2.map InitCall.key =
      (List.range' k left).map fun k ↦ (i, .array k) := by
  induction left generalizing k a m with
  | zero => rfl
  | succ left ih =>
    rw [callInitArray, List.range'_succ, List.map_cons, List.map_cons, ih]
    rfl

theorem callObjectInitializers_keys (i : ℕ) (o : NeededObj) (m : Mem) :
    (callObjectInitializers body i o m).2.map InitCall.key = (initEntries o).map (i, ·) := by
  rw [callObjectInitializers, initEntries, List.map_append, List.map_append, callInitArray_keys,
    List.map_map, List.range_eq_range']
  congr 1
  rw [callInit]
  split_ifs
  · rfl
  · rfl

/-- Which initialisers are called, and in which order, does not depend on what they do. -/
theorem callInitializersBelow_keys (obj : ℕ → NeededObj) (n : ℕ) (m : Mem) :
    (callInitializersBelow body obj n m).2.map InitCall.key = initOrder obj n := by
  induction n generalizing m with
  | zero => rfl
  | succ n ih =>
    rw [callInitializersBelow, initOrder, List.map_append, callObjectInitializers_keys, ih]

theorem callNeededInitializers_keys (s : State) :
    (callNeededInitializers body s).2.map InitCall.key = initOrder s.neededObj s.neededObjCount :=
  callInitializersBelow_keys body s.neededObj s.neededObjCount s.mem

end Once

theorem nodup_initEntries (o : NeededObj) : (initEntries o).Nodup := by
  rw [initEntries, List.nodup_append]
  refine ⟨?_, ?_, ?_⟩
  · split_ifs
    · exact List.nodup_nil
    · exact List.nodup_singleton _
  · exact List.nodup_range.map fun _ _ h ↦ InitEntry.array.inj h
  · rintro e he e' he' rfl
    split_ifs at he
    · exact absurd he List.not_mem_nil
    · rw [List.mem_singleton.mp he] at he'
      simp at he'

theorem mem_initOrder {obj : ℕ → NeededObj} {n i : ℕ} {e : InitEntry} :
    (i, e) ∈ initOrder obj n ↔ i < n ∧ e ∈ initEntries (obj i) := by
  induction n with
  | zero => simp [initOrder]
  | succ n ih =>
    rw [initOrder, List.mem_append, ih, List.mem_map]
    constructor
    · rintro (⟨e', he', heq⟩ | ⟨hi, he⟩)
      · obtain ⟨rfl, rfl⟩ := Prod.mk.inj heq
        exact ⟨Nat.lt_succ_self _, he'⟩
      · exact ⟨hi.trans (Nat.lt_succ_self n), he⟩
    · rintro ⟨hi, he⟩
      rcases Nat.lt_succ_iff_lt_or_eq.mp hi with hlt | rfl
      · exact .inr ⟨hlt, he⟩
      · exact .inl ⟨e, he, rfl⟩

theorem nodup_initOrder (obj : ℕ → NeededObj) (n : ℕ) : (initOrder obj n).Nodup := by
  induction n with
  | zero => exact List.nodup_nil
  | succ n ih =>
    rw [initOrder, List.nodup_append]
    refine ⟨(nodup_initEntries _).map fun _ _ h ↦ (Prod.mk.inj h).2, ih, ?_⟩
    rintro c hc c' hc' rfl
    obtain ⟨e, -, rfl⟩ := List.mem_map.mp hc
    exact absurd (mem_initOrder.mp hc').1 (lt_irrefl n)

theorem pairwise_initOrder (obj : ℕ → NeededObj) (n : ℕ) :
    (initOrder obj n).Pairwise fun c d ↦ d.1 ≤ c.1 := by
  induction n with
  | zero => exact List.Pairwise.nil
  | succ n ih =>
    rw [initOrder, List.pairwise_append]
    refine ⟨List.pairwise_map.mpr (List.pairwise_of_forall fun _ _ ↦ le_rfl), ih, ?_⟩
    intro c hc d hd
    obtain ⟨e, -, rfl⟩ := List.mem_map.mp hc
    exact (mem_initOrder.mp hd).1.le

/-- A call for an object comes before each call for an object below it. -/
theorem sublist_initOrder {obj : ℕ → NeededObj} {n i j : ℕ} {e e' : InitEntry} (hij : j < i)
    (hi : i < n) (he : e ∈ initEntries (obj i)) (he' : e' ∈ initEntries (obj j)) :
    [(i, e), (j, e')].Sublist (initOrder obj n) := by
  induction n with
  | zero => exact absurd hi (Nat.not_lt_zero i)
  | succ n ih =>
    rcases Nat.lt_succ_iff_lt_or_eq.mp hi with hlt | rfl
    · exact (ih hlt).trans (List.sublist_append_right _ _)
    · have hfirst : [(i, e)].Sublist ((initEntries (obj i)).map (i, ·)) :=
        List.singleton_sublist.mpr (List.mem_map_of_mem he)
      exact hfirst.append (List.singleton_sublist.mpr (mem_initOrder.mpr ⟨hij, he'⟩))

/-! ## Dependencies first -/

/-- Object `i` names object `j` among the libraries that it needs. -/
def Needs (deps : Name → List Name) (s : State) (i j : ℕ) : Prop :=
  (s.neededObj j).name ∈ deps (s.neededObj i).name
  deriving Decidable

/-- Every initialiser of every registered library is called exactly once. -/
structure InitializedOnce (s : State) (calls : List InitCall) : Prop where
  complete : ∀ i e, (∃ c ∈ calls, c.object = i ∧ c.entry = e) ↔
    i < s.neededObjCount ∧ e ∈ initEntries (s.neededObj i)
  once : (calls.map InitCall.key).Nodup

/-- No initialiser of a library comes before one of a library that it needs. -/
def DependenciesFirst (deps : Name → List Name) (s : State) (calls : List InitCall) : Prop :=
  calls.Pairwise fun c d ↦ ¬Needs deps s c.object d.object

/-- Where both have initialisers, a library is registered before those that it needs. -/
def RegisteredBefore (deps : Name → List Name) (s : State) : Prop :=
  ∀ i < s.neededObjCount, ∀ j < s.neededObjCount, initEntries (s.neededObj i) ≠ [] →
    initEntries (s.neededObj j) ≠ [] → Needs deps s i j → i < j

/-- **Initialisers.** Each one is called exactly once, and those of the libraries that a library needs
come before its own exactly when the library has been registered before them. -/
theorem initializers_iff (body : UInt32 → Mem → Mem) (deps : Name → List Name) (s : State)
    (hself : ∀ i < s.neededObjCount, ¬Needs deps s i i) :
    InitializedOnce s (callNeededInitializers body s).2 ∧
      (DependenciesFirst deps s (callNeededInitializers body s).2 ↔ RegisteredBefore deps s) := by
  have hkeys := callNeededInitializers_keys body s
  refine ⟨⟨?_, ?_⟩, ?_⟩
  · intro i e
    rw [← mem_initOrder, ← hkeys, List.mem_map]
    simp only [InitCall.key, Prod.mk.injEq]
  · rw [hkeys]
    exact nodup_initOrder _ _
  · have hdeps : DependenciesFirst deps s (callNeededInitializers body s).2 ↔
        (initOrder s.neededObj s.neededObjCount).Pairwise fun c d ↦ ¬Needs deps s c.1 d.1 := by
      rw [← hkeys, List.pairwise_map]
      rfl
    rw [hdeps]
    constructor
    · intro hpair i hi j hj hinit hinit' hneeds
      obtain ⟨e, he⟩ := List.exists_mem_of_ne_nil _ hinit
      obtain ⟨e', he'⟩ := List.exists_mem_of_ne_nil _ hinit'
      by_contra hle
      rcases Nat.eq_or_lt_of_le (Nat.not_lt.mp hle) with rfl | hlt
      · exact hself _ hi hneeds
      · have hpair' := hpair.sublist (sublist_initOrder hlt hi he he')
        exact List.pairwise_cons.mp hpair' |>.1 _ (List.mem_singleton_self _) hneeds
    · intro hbefore
      refine (pairwise_initOrder s.neededObj s.neededObjCount).imp_of_mem ?_
      rintro ⟨i, e⟩ ⟨j, e'⟩ hc hd hle hneeds
      obtain ⟨hi, he⟩ := mem_initOrder.mp hc
      obtain ⟨hj, he'⟩ := mem_initOrder.mp hd
      exact absurd (hbefore i hi j hj (List.ne_nil_of_mem he) (List.ne_nil_of_mem he') hneeds)
        (Nat.not_lt.mpr hle)

/-! ## Samples -/

/-- A library with an initialiser at `0x140`, and one that needs it and has another. -/
def initLibraries : List (Name × File) :=
  let tables := sampleDynamic 3 ++ [12, 0x140]
  [(cString "b", sampleLibrary (tables ++ [0, 0]) [0] [] (List.replicate 16 0)),
    (cString "a", sampleLibrary (tables ++ [1, 1, 0, 0]) (0 :: cString "b" ++ [0]) []
      (List.replicate 16 0))]

/-- What the libraries of a shelf need. -/
def shelfDeps (files : List (Name × File)) (name : Name) : List Name :=
  ((files.find? (·.1 = name)).map fun e ↦ neededNames e.2).getD []

/-- The libraries when the main program needs those at some offsets of its strings. -/
def initLoaded (needed : List UInt32) : State :=
  loaded (shelf initLibraries) (sampleMain (cString "a" ++ (0 :: cString "b" ++ [0])) needed)

/-- The main program needs `a` only, and `b` is loaded for it. -/
theorem initializers_dependencies_first :
    DependenciesFirst (shelfDeps initLibraries) (initLoaded [0])
      (callNeededInitializers (fun _ m ↦ m) (initLoaded [0])).2 := by
  have hstate : (initLoaded [0]).neededObjCount = 2 ∧
      ¬Needs (shelfDeps initLibraries) (initLoaded [0]) 0 0 ∧
        ¬Needs (shelfDeps initLibraries) (initLoaded [0]) 1 1 ∧
          ¬Needs (shelfDeps initLibraries) (initLoaded [0]) 1 0 := by
    decide +kernel
  obtain ⟨hcount, h00, h11, h10⟩ := hstate
  refine (initializers_iff (fun _ m ↦ m) (shelfDeps initLibraries) (initLoaded [0]) ?_).2.mpr ?_
  · intro i hi
    rw [hcount] at hi
    interval_cases i
    · exact h00
    · exact h11
  · intro i hi j hj _ _ hneeds
    rw [hcount] at hi hj
    interval_cases i <;> interval_cases j
    · exact absurd hneeds h00
    · exact Nat.zero_lt_one
    · exact absurd hneeds h10
    · exact absurd hneeds h11

/-- The main program needs `b` and then `a`, so that `a` is registered last and initialised first,
before the library that it needs. -/
theorem initializer_before_dependency :
    (probeNeededLibraries (shelf initLibraries) 9
        (sampleMain (cString "a" ++ (0 :: cString "b" ++ [0])) [2, 0])).isOk = true ∧
      Needs (shelfDeps initLibraries) (initLoaded [2, 0]) 1 0 ∧
        ¬Needs (shelfDeps initLibraries) (initLoaded [2, 0]) 0 1 ∧
          (callNeededInitializers (fun _ m ↦ m) (initLoaded [2, 0])).2 =
              [⟨1, .init, 0x02100140⟩, ⟨0, .init, 0x02000140⟩] ∧
            ¬DependenciesFirst (shelfDeps initLibraries) (initLoaded [2, 0])
              (callNeededInitializers (fun _ m ↦ m) (initLoaded [2, 0])).2 := by
  have hrun : (probeNeededLibraries (shelf initLibraries) 9
      (sampleMain (cString "a" ++ (0 :: cString "b" ++ [0])) [2, 0])).isOk = true ∧
        Needs (shelfDeps initLibraries) (initLoaded [2, 0]) 1 0 ∧
          ¬Needs (shelfDeps initLibraries) (initLoaded [2, 0]) 0 1 ∧
            (callNeededInitializers (fun _ m ↦ m) (initLoaded [2, 0])).2 =
              [⟨1, .init, 0x02100140⟩, ⟨0, .init, 0x02000140⟩] := by
    decide +kernel
  obtain ⟨hok, hneeds, hnot, hcalls⟩ := hrun
  refine ⟨hok, hneeds, hnot, hcalls, fun hfirst ↦ ?_⟩
  rw [hcalls] at hfirst
  exact (List.pairwise_cons.mp hfirst).1 _ (List.mem_singleton_self _) hneeds

end CaribeOS.Ld
