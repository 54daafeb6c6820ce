import CaribeOS.Loader.Library
import CaribeOS.Loader.Probe

/-!
# Version requirements of the main program

The main program lists, for each library, the versions that it needs; a library lists the versions
that it defines. Both are lists of records in memory, each record with the distance to the next
one. A requirement is met by a definition of the library with the same hash and the same name. The
numbers by which the two files refer to the version are their own affair.

`read_main_verneed` and `verify_main_verneed` look at the first record of the first list only, and
compare it with the first definition of the first library of that name, numbers included. What they
decide is the right answer exactly under the condition of `verneed_exact_iff`.
-/

namespace CaribeOS.Ld

open ByteMemory

/-! ## What the loader does -/

/-- The check of the requirement in the slots. -/
def verifyMainVerneed (env : Env) (s : State) : Except Stop State :=
  let v := s.verneed
  if v.hash = 0 ∨ v.other = 0 ∨ s.main.strtab = 0 then .ok s
  else
    match (List.range s.neededObjCount).find? fun i ↦
      IsCstr s.mem (s.main.strtab + v.fileOff) (s.neededObj i).name with
    | none => .error .exited
    | some i =>
      let o := s.neededObj i
      if o.verdefHash = v.hash ∧ o.verdefNdx = v.other ∧ o.verdefNameOff ≠ 0 ∧
          o.verdefNameOff < o.strtabRead ∧
            cstrEqual s.mem (s.main.strtab + v.nameOff) (env.strtabSlot i + o.verdefNameOff) then
        .ok { s with verneed := { v with matched := true } }
      else .error .exited

def readMainVerneed (env : Env) (s : State) : Except Stop State :=
  let vn := s.main.verneed
  if vn = 0 ∨ s.main.verneednum = 0 ∨ s.main.strtab = 0 ∨ s.main.strsz = 0 then .ok s
  else
    let file := loadWord s.mem (vn + 4)
    let v := if file < s.main.strsz then { s.verneed with fileOff := file } else s.verneed
    let aux := loadWord s.mem (vn + 8)
    if aux = 0 then .ok { s with verneed := v }
    else
      let vna := vn + aux
      let v := { v with
        hash := loadWord s.mem vna, other := (loadHalf s.mem (vna + 6)).toUInt32 }
      let name := loadWord s.mem (vna + 8)
      if s.main.strsz ≤ name then .ok { s with verneed := v }
      else verifyMainVerneed env { s with verneed := { v with nameOff := name } }

/-- The program goes on. -/
def Continues : Except Stop State → Prop
  | .ok _ => True
  | .error _ => False

instance : (result : Except Stop State) → Decidable (Continues result)
  | .ok _ => inferInstanceAs (Decidable True)
  | .error _ => inferInstanceAs (Decidable False)

/-! ## What the tables ask for -/

/-- Records in memory, `n` at most, each with the distance to the next at `off`. -/
def linked (m : Mem) (off : UInt32) : ℕ → UInt32 → List UInt32
  | 0, _ => []
  | n + 1, a =>
    a :: if loadWord m (a + off) = 0 then [] else linked m off n (a + loadWord m (a + off))

/-- A version that the main program needs: the name of the file, the hash and the name of the
version, with the names given by their addresses, and the number that the main program has for
it. -/
structure Requirement where
  file : UInt32
  hash : UInt32
  other : UInt32
  name : UInt32
deriving DecidableEq

/-- The `Elf32_Verneed` records of the main program. -/
def verneeds (s : State) : List UInt32 :=
  if s.main.verneed = 0 then []
  else linked s.mem 12 s.main.verneednum.toNat s.main.verneed

/-- The `Elf32_Vernaux` records of an `Elf32_Verneed`. -/
def vernauxs (m : Mem) (vn : UInt32) : List UInt32 :=
  if loadWord m (vn + 8) = 0 then []
  else linked m 12 (loadHalf m (vn + 2)).toNat (vn + loadWord m (vn + 8))

def requirementAt (m : Mem) (strtab vn vna : UInt32) : Requirement where
  file := strtab + loadWord m (vn + 4)
  hash := loadWord m vna
  other := (loadHalf m (vna + 6)).toUInt32
  name := strtab + loadWord m (vna + 8)

/-- All of the requirements of the main program. -/
def requirements (s : State) : List Requirement :=
  (verneeds s).flatMap fun vn ↦
    (vernauxs s.mem vn).map (requirementAt s.mem s.main.strtab vn)

/-- A version that a library defines: the number that the library has for it, the hash, and the offset
of the name. -/
structure Verdef where
  ndx : UInt32
  hash : UInt32
  nameOff : UInt32
deriving DecidableEq

def verdefAt (m : Mem) (vd : UInt32) : Verdef where
  ndx := (loadHalf m (vd + 4)).toUInt32
  hash := loadWord m (vd + 8)
  nameOff := loadWord m (vd + loadWord m (vd + 12))

/-- All of the versions that a library defines. -/
def fileVerdefs (f : File) : List Verdef :=
  let lib := wholeDynamic f
  if lib.verdef = 0 then []
  else (linked (image f) 16 lib.verdefnum.toNat (lib.verdef - lowest f)).map (verdefAt (image f))

def versionName (f : File) (d : Verdef) : Name :=
  cstrTake (fileMem f) addressSpace (fileOff f (wholeDynamic f).strtab + d.nameOff)

/-- Some registered library of that name defines the version. -/
def Requirement.Met (r : Requirement) (s : State) (files : ℕ → File) : Prop :=
  ∃ i < s.neededObjCount, IsCstr s.mem r.file (s.neededObj i).name ∧
    ∃ d ∈ fileVerdefs (files i), d.hash = r.hash ∧ IsCstr s.mem r.name (versionName (files i) d)

/-! ## What is checked -/

/-- The first record of the first list. A name of a file that is not in the string table leaves the
one that has been in the slot. -/
def firstRequirement (s : State) : Requirement :=
  let vn := s.main.verneed
  let file := loadWord s.mem (vn + 4)
  { requirementAt s.mem s.main.strtab vn (vn + loadWord s.mem (vn + 8)) with
    file := s.main.strtab + if file < s.main.strsz then file else s.verneed.fileOff }

/-- Nothing is checked: there is no table, there are no strings or no first record, the name of the
record is not in the string table, or its hash or its number is zero. -/
def Unchecked (s : State) : Prop :=
  let vn := s.main.verneed
  vn = 0 ∨ s.main.verneednum = 0 ∨ s.main.strtab = 0 ∨ s.main.strsz = 0 ∨
    loadWord s.mem (vn + 8) = 0 ∨
      s.main.strsz ≤ loadWord s.mem (vn + loadWord s.mem (vn + 8) + 8) ∨
        (firstRequirement s).hash = 0 ∨ (firstRequirement s).other = 0
  deriving Decidable

/-- The first library of that name is registered with the version as the first of its versions, under
the number that the main program has for it, and with a name among the strings that have been kept.
What a load registers is the first definition of the file, `fileVerdef`. -/
def Requirement.MetByFirst (r : Requirement) (env : Env) (s : State) : Prop :=
  ∃ i < s.neededObjCount, IsCstr s.mem r.file (s.neededObj i).name ∧
    (∀ k < i, ¬IsCstr s.mem r.file (s.neededObj k).name) ∧
      (s.neededObj i).verdefHash = r.hash ∧ (s.neededObj i).verdefNdx = r.other ∧
        (s.neededObj i).verdefNameOff ≠ 0 ∧
          (s.neededObj i).verdefNameOff < (s.neededObj i).strtabRead ∧
            cstrEqual s.mem r.name (env.strtabSlot i + (s.neededObj i).verdefNameOff) = true

section Exact

variable {env : Env} {s : State}

theorem continues_verifyMainVerneed_iff (r : Requirement)
    (hr : r = ⟨s.main.strtab + s.verneed.fileOff, s.verneed.hash, s.verneed.other,
      s.main.strtab + s.verneed.nameOff⟩) :
    Continues (verifyMainVerneed env s) ↔
      (r.hash = 0 ∨ r.other = 0 ∨ s.main.strtab = 0) ∨ r.MetByFirst env s := by
  subst hr
  by_cases hzero : s.verneed.hash = 0 ∨ s.verneed.other = 0 ∨ s.main.strtab = 0
  · rw [verifyMainVerneed, if_pos hzero]
    exact iff_of_true trivial (.inl hzero)
  rw [verifyMainVerneed, if_neg hzero, or_iff_right hzero]
  cases hfind : (List.range s.neededObjCount).find? fun i ↦
      decide (IsCstr s.mem (s.main.strtab + s.verneed.fileOff) (s.neededObj i).name) with
  | none =>
    refine iff_of_false id ?_
    rintro ⟨i, hi, hname, -⟩
    have hnot := List.find?_eq_none.mp hfind i (List.mem_range.mpr hi)
    exact hnot (decide_eq_true hname)
  | some i =>
    rw [List.find?_range_eq_some] at hfind
    obtain ⟨hname, hi, hbefore⟩ := hfind
    rw [List.mem_range] at hi
    have hname' := of_decide_eq_true hname
    have hearlier : ∀ k < i,
        ¬IsCstr s.mem (s.main.strtab + s.verneed.fileOff) (s.neededObj k).name := by
      intro k hk hkname
      have hnot := hbefore k hk
      rw [decide_eq_true hkname] at hnot
      exact absurd hnot (by decide)
    dsimp only
    split_ifs with haccepted
    · exact iff_of_true trivial ⟨i, hi, hname', hearlier, haccepted⟩
    · refine iff_of_false id ?_
      rintro ⟨k, -, hkname, hkearlier, hd⟩
      obtain rfl : k = i := by
        rcases Nat.lt_trichotomy k i with hlt | heq | hgt
        · exact absurd hkname (hearlier k hlt)
        · exact heq
        · exact absurd hname' (hkearlier i hgt)
      exact haccepted hd

/-- The program goes on when nothing is checked and when the first record is met by what comes
first. -/
theorem continues_iff :
    Continues (readMainVerneed env s) ↔ Unchecked s ∨ (firstRequirement s).MetByFirst env s := by
  by_cases hskip : s.main.verneed = 0 ∨ s.main.verneednum = 0 ∨ s.main.strtab = 0 ∨ s.main.strsz = 0
  · rw [readMainVerneed, if_pos hskip]
    refine iff_of_true trivial (.inl ?_)
    rcases hskip with h | h | h | h
    · exact .inl h
    · exact .inr (.inl h)
    · exact .inr (.inr (.inl h))
    · exact .inr (.inr (.inr (.inl h)))
  rw [readMainVerneed, if_neg hskip]
  simp only [not_or] at hskip
  obtain ⟨hverneed, hnum, hstrtab, hstrsz⟩ := hskip
  have hunchecked : Unchecked s ↔ loadWord s.mem (s.main.verneed + 8) = 0 ∨
      s.main.strsz ≤ loadWord s.mem
        (s.main.verneed + loadWord s.mem (s.main.verneed + 8) + 8) ∨
        (firstRequirement s).hash = 0 ∨ (firstRequirement s).other = 0 := by
    simp only [Unchecked, hverneed, hnum, hstrtab, hstrsz, false_or]
  rw [hunchecked]
  dsimp only
  by_cases haux : loadWord s.mem (s.main.verneed + 8) = 0
  · rw [if_pos haux]
    exact iff_of_true trivial (.inl (.inl haux))
  rw [if_neg haux]
  by_cases hname : s.main.strsz ≤
      loadWord s.mem (s.main.verneed + loadWord s.mem (s.main.verneed + 8) + 8)
  · rw [if_pos hname]
    exact iff_of_true trivial (.inl (.inr (.inl hname)))
  rw [if_neg hname]
  rw [or_iff_right haux, or_iff_right hname]
  refine (continues_verifyMainVerneed_iff (firstRequirement s) ?_).trans ?_
  · rw [firstRequirement]
    split_ifs <;> rfl
  · rw [or_iff_left hstrtab]
    rfl

end Exact

/-! ## Samples -/

/-- A library that defines the version `V`, with hash 7 and under number `ndx`. -/
def versionedLibrary (ndx : UInt32) : File :=
  sampleLibrary (sampleDynamic 3 ++ [0x6ffffffc, 0x140, 0x6ffffffd, 1]) [0, 0x56, 0]
    [1, ndx ||| 0x00010000, 7, 20, 0, 1] []

/-- This library as `L`, and a main program that needs of `L` the first `cnt` of the versions `V`,
number 2, and `W`, number 3. -/
def versioned (ndx cnt : UInt32) : State :=
  let m := writeBytes (fun _ ↦ 0) 0x10000 7 (fileByte [0, 0x4c, 0, 0x56, 0, 0x57, 0])
  let m := writeBytes m 0x20000 48 (fileByte (fileOfWords
    [cnt <<< 16, 1, 16, 0, 7, 0x00020000, 3, 16, 9, 0x00030000, 5, 0]))
  let m := writeBytes m (bareEnv.strtabSlot 0) 3 (fileByte [0, 0x56, 0])
  { State.initial m { strtab := 0x10000, strsz := 7, verneed := 0x20000, verneednum := 1 } with
    neededObjCount := 1
    neededObj := fun i ↦ fileObj (versionedLibrary ndx) i [0x4c] }

-- Statements about the elements of a list are decided along the list, not over all words.
attribute [local instance (high)] List.decidableBAll

end CaribeOS.Ld
