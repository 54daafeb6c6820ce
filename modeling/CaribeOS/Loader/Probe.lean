import CaribeOS.Loader.Load

/-!
# Loading the libraries of a program

`probe_needed_library` loads one library and then, by way of `load_transitive_needed_libraries`,
what that library needs; the two call each other. All of the slots and buffers are shared, so that
the names of the dependencies are copied before the descent.

The depth of the calls is not bounded by anything in the source. Here it is bounded by fuel, and a
run that needs more of it ends in `Stop.outOfFuel`.
-/

namespace CaribeOS.Ld

open ByteMemory

/-- `is_needed_name_loaded`. The name is given by its first 64 characters, which is as far as the
comparison goes; a registered name has 63 at most. -/
def isNeededNameLoaded (s : State) (name : Name) : Bool :=
  (List.range s.neededObjCount).any fun i ↦ (s.neededObj i).name = name

/-- The path of a library. -/
def neededPath (name : Name) : List UInt8 := cString "/lib/" ++ name

/-- The characters that `copy_cstr_bounded` stores of a string, before the zero that ends them. -/
def copyCstrBounded : ℕ → Name → Name
  | n + 2, c :: cs => c :: copyCstrBounded (n + 1) cs
  | _, _ => []

theorem copyCstrBounded_eq (n : ℕ) (name : Name) : copyCstrBounded (n + 1) name = name.take n := by
  induction n generalizing name with
  | zero => rfl
  | succ n ih =>
    cases name with
    | nil => rfl
    | cons c cs => rw [copyCstrBounded, ih, List.take_succ_cons]

/-- What `probe_needed_library` asks of the header. -/
def HeaderAccepted (env : Env) (s : State) : Prop :=
  52 ≤ s.scratch.read ∧ loadWord s.mem env.neededElfHeader = 0x464c457f ∧
    s.mem (env.neededElfHeader + 4) = 1 ∧ loadHalf s.mem (env.neededElfHeader + 18) = emRiscv ∧
      loadHalf s.mem (env.neededElfHeader + 16) = etDyn
  deriving Decidable

/-- The first half of `probe_needed_library`: the file is open afterwards and its header in the
buffer, or there is nothing to load. -/
def openNeededLibrary (env : Env) (s : State) (name : Name) : State :=
  let s := { s with neededCurrentName := copyCstrBounded 64 name }
  match env.openat s.calls (neededPath s.neededCurrentName) with
  | none => { s with calls := s.calls + 1 }
  | some file =>
    let (s, a0) := sysRead env { s with calls := s.calls + 1, fd := some ⟨file, 0⟩ } ⟨file, 0⟩
      env.neededElfHeader 256
    let s := { s with scratch := { s.scratch with read := a0 } }
    if ¬negative a0 ∧ HeaderAccepted env s then s else { s with fd := none }

/-- The names that `load_transitive_needed_libraries` copies before it descends. -/
def transitiveNames (env : Env) (s : State) : List Name :=
  (s.scratch.lib.neededOffsets.take maxTransitiveNeeded).map fun off ↦
    if off < s.scratch.strtabRead then cstrTake s.mem 63 (env.neededStrtabBuf + off) else []

/-- The second loop of `load_transitive_needed_libraries`, over the names that have been copied. -/
def loadTransitiveNeeded (probe : State → Name → Except Stop State) :
    List Name → State → Except Stop State
  | [], s => .ok s
  | name :: names, s =>
    if name = [] then loadTransitiveNeeded probe names s
    else if maxNeededObjects ≤ s.neededObjCount then .ok s
    else
      match probe { s with currentNeededObjIndex := s.neededObjCount } name with
      | .error e => .error e
      | .ok s => loadTransitiveNeeded probe names s

/-- `probe_needed_library` with calls nested at most so deep. -/
def probeNeededLibrary (env : Env) : ℕ → State → Name → Except Stop State
  | 0, _, _ => .error .outOfFuel
  | depth + 1, s, name =>
    let s := { s with fd := none }
    if isNeededNameLoaded s name then .ok s
    else
      let s := openNeededLibrary env s name
      if s.fd.isNone then .ok s
      else
        match loadNeededLibrary env s with
        | .error e => .error e
        | .ok s =>
          loadTransitiveNeeded (probeNeededLibrary env depth) (transitiveNames env s) s

/-- The loop of `probe_needed_libraries` over the `DT_NEEDED` of the main program. -/
def probeNeededFrom (env : Env) (depth : ℕ) : List UInt32 → State → Except Stop State
  | [], s => .ok s
  | off :: offs, s =>
    if s.main.strtab = 0 then probeNeededFrom env depth offs s
    else
      let s := { s with currentNeededObjIndex := s.neededObjCount }
      let ptr := s.main.strtab + off
      if ptr = 0 then probeNeededFrom env depth offs { s with fd := none }
      else
        match probeNeededLibrary env depth s (cstrTake s.mem 64 ptr) with
        | .error e => .error e
        | .ok s => probeNeededFrom env depth offs s

def probeNeededLibraries (env : Env) (depth : ℕ) (s : State) : Except Stop State :=
  probeNeededFrom env depth s.main.neededOffsets { s with neededObjCount := 0 }

/-! ## Samples -/

/-- Fill up with zeros. -/
def padTo (n : ℕ) (bytes : List UInt8) : List UInt8 := bytes ++ List.replicate (n - bytes.length) 0

/-- A library with one segment: its dynamic section is at `0x80`, its strings at `0x100`, other words
at `0x140` and its symbols at `0x180`. -/
def sampleLibrary (dyn : List UInt32) (strings : List UInt8) (words : List UInt32)
    (symbols : List UInt8) : File :=
  let n : UInt32 := 0x180 + .ofNat symbols.length
  let d : UInt32 := 4 * .ofNat dyn.length
  let header := libraryHeader 2 ++
    (Phdr.words ⟨1, 0, 0, n, n, 7⟩ ++ Phdr.words ⟨2, 0x80, 0x80, d, d, 6⟩)
  padTo 0x80 (fileOfWords header) ++ (padTo 0x80 (fileOfWords dyn) ++ (padTo 0x40 strings ++
    (padTo 0x40 (fileOfWords words) ++ symbols)))

/-- The entries for the tables of a sample library. -/
def sampleDynamic (strsz : UInt32) : List UInt32 := [5, 0x100, 10, strsz, 6, 0x180, 11, 16]

/-- A kernel that has some libraries and serves every call. -/
def shelf (files : List (Name × File)) : Env where
  neededElfHeader := bareEnv.neededElfHeader
  below := bareEnv.below
  openat := fun _ path ↦ (files.find? (neededPath ·.1 = path)).map (·.2)
  read := fun _ ↦ .upTo 4096
  llseek := fun _ ↦ true
  mmap := fun _ ↦ true

/-- A main program with its strings at `0x10000`. -/
def sampleMain (strings : List UInt8) (needed : List UInt32) : State :=
  State.initial (writeBytes (fun _ ↦ 0) 0x10000 strings.length (fileByte strings))
    { strtab := 0x10000, strsz := .ofNat strings.length, neededOffsets := needed }

/-- The state after the libraries have been loaded. -/
def loaded (env : Env) (s : State) : State :=
  match probeNeededLibraries env 9 s with
  | .ok s => s
  | .error _ => s

theorem probeNeededLibraries_loaded {env : Env} {s : State}
    (h : (probeNeededLibraries env 9 s).isOk = true) :
    probeNeededLibraries env 9 s = .ok (loaded env s) := by
  rw [loaded]
  cases hprobe : probeNeededLibraries env 9 s with
  | ok s' => rfl
  | error e =>
    rw [hprobe] at h
    exact absurd h (by simp [Except.isOk, Except.toBool])

end CaribeOS.Ld
