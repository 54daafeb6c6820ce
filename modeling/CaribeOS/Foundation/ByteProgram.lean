import CaribeOS.Foundation.ByteMemory
import Mathlib.Data.List.GetD

/-!
# Programs that read, write and print bytes

A program is a tree of effects: it loads a byte and goes on with it, stores a byte, prints a byte,
or ends with a value. Run from a memory, it has a value, a memory afterwards, an output and the list
of the addresses that it loaded from or stored to.

That list is the program's footprint. Nothing outside it is changed (`sameOutside_mem`), and nothing
outside it has any influence (`Agrees`): from two memories that agree on the footprint, the same is
printed and returned. So what a program can do to the rest of memory, and what it can give away of
it, are both known from the addresses alone.
-/

namespace ByteProgram

open ByteMemory

inductive Prog (α : Type) where
  | ret (v : α)
  | load (a : UInt32) (next : UInt8 → Prog α)
  | store (a : UInt32) (v : UInt8) (next : Prog α)
  | print (c : UInt8) (next : Prog α)

variable {a : UInt32} {k n o : ℕ} {us vs : List UInt8}

namespace Prog

variable {α β : Type}

def bind : Prog α → (α → Prog β) → Prog β
  | ret v, f => f v
  | load a next, f => load a fun c ↦ (next c).bind f
  | store a v next, f => store a v (next.bind f)
  | print c next, f => print c (next.bind f)

instance : Monad Prog where
  pure := ret
  bind := bind

/-! ## Running a program -/

/-- What the program ends with. -/
def val : Prog α → Mem → α
  | ret v, _ => v
  | load a next, m => (next (m a)).val m
  | store a v next, m => next.val (storeByte m a v)
  | print _ next, m => next.val m

/-- The memory afterwards. -/
def mem : Prog α → Mem → Mem
  | ret _, m => m
  | load a next, m => (next (m a)).mem m
  | store a v next, m => next.mem (storeByte m a v)
  | print _ next, m => next.mem m

/-- What is printed. -/
def out : Prog α → Mem → List UInt8
  | ret _, _ => []
  | load a next, m => (next (m a)).out m
  | store a v next, m => next.out (storeByte m a v)
  | print c next, m => c :: next.out m

/-- The addresses that are loaded from or stored to, in order. -/
def touches : Prog α → Mem → List UInt32
  | ret _, _ => []
  | load a next, m => a :: (next (m a)).touches m
  | store a v next, m => a :: next.touches (storeByte m a v)
  | print _ next, m => next.touches m

/-- The addresses that are loaded from. -/
def loads : Prog α → Mem → List UInt32
  | ret _, _ => []
  | load a next, m => a :: (next (m a)).loads m
  | store a v next, m => next.loads (storeByte m a v)
  | print _ next, m => next.loads m

/-- The addresses that are stored to. -/
def stores : Prog α → Mem → List UInt32
  | ret _, _ => []
  | load a next, m => (next (m a)).stores m
  | store a v next, m => a :: next.stores (storeByte m a v)
  | print _ next, m => next.stores m

@[simp] theorem val_pure (v : α) (m : Mem) : (pure v : Prog α).val m = v := rfl

@[simp] theorem mem_pure (v : α) (m : Mem) : (pure v : Prog α).mem m = m := rfl

@[simp] theorem out_pure (v : α) (m : Mem) : (pure v : Prog α).out m = [] := rfl

@[simp] theorem touches_pure (v : α) (m : Mem) : (pure v : Prog α).touches m = [] := rfl

@[simp] theorem loads_pure (v : α) (m : Mem) : (pure v : Prog α).loads m = [] := rfl

@[simp] theorem stores_pure (v : α) (m : Mem) : (pure v : Prog α).stores m = [] := rfl

section Bind

variable (p : Prog α) (f : α → Prog β) (m : Mem)

@[simp] theorem val_bind : (p >>= f).val m = (f (p.val m)).val (p.mem m) := by
  induction p generalizing m with
  | ret v => rfl
  | load a next ih => exact ih _ _
  | store a v next ih => exact ih _
  | print c next ih => exact ih _

@[simp] theorem mem_bind : (p >>= f).mem m = (f (p.val m)).mem (p.mem m) := by
  induction p generalizing m with
  | ret v => rfl
  | load a next ih => exact ih _ _
  | store a v next ih => exact ih _
  | print c next ih => exact ih _

@[simp] theorem out_bind : (p >>= f).out m = p.out m ++ (f (p.val m)).out (p.mem m) := by
  induction p generalizing m with
  | ret v => rfl
  | load a next ih => exact ih _ _
  | store a v next ih => exact ih _
  | print c next ih => exact congrArg (c :: ·) (ih _)

@[simp] theorem touches_bind :
    (p >>= f).touches m = p.touches m ++ (f (p.val m)).touches (p.mem m) := by
  induction p generalizing m with
  | ret v => rfl
  | load a next ih => exact congrArg (a :: ·) (ih _ _)
  | store a v next ih => exact congrArg (a :: ·) (ih _)
  | print c next ih => exact ih _

@[simp] theorem loads_bind : (p >>= f).loads m = p.loads m ++ (f (p.val m)).loads (p.mem m) := by
  induction p generalizing m with
  | ret v => rfl
  | load a next ih => exact congrArg (a :: ·) (ih _ _)
  | store a v next ih => exact ih _
  | print c next ih => exact ih _

@[simp] theorem stores_bind :
    (p >>= f).stores m = p.stores m ++ (f (p.val m)).stores (p.mem m) := by
  induction p generalizing m with
  | ret v => rfl
  | load a next ih => exact ih _ _
  | store a v next ih => exact congrArg (a :: ·) (ih _)
  | print c next ih => exact ih _

theorem mem_touches_iff (x : UInt32) : x ∈ p.touches m ↔ x ∈ p.loads m ∨ x ∈ p.stores m := by
  induction p generalizing m with
  | ret v => simp [touches, loads, stores]
  | load a next ih => rw [touches, loads, stores, List.mem_cons, List.mem_cons, ih, or_assoc]
  | store a v next ih => rw [touches, loads, stores, List.mem_cons, List.mem_cons, ih, or_left_comm]
  | print c next ih => exact ih _

end Bind

section Ite

variable (c : Prop) [Decidable c] (p p' : Prog α) (m : Mem)

@[simp] theorem val_ite : (if c then p else p').val m = if c then p.val m else p'.val m :=
  apply_ite (Prog.val · m) c p p'

@[simp] theorem mem_ite : (if c then p else p').mem m = if c then p.mem m else p'.mem m :=
  apply_ite (Prog.mem · m) c p p'

@[simp] theorem loads_ite : (if c then p else p').loads m = if c then p.loads m else p'.loads m :=
  apply_ite (Prog.loads · m) c p p'

@[simp] theorem stores_ite :
    (if c then p else p').stores m = if c then p.stores m else p'.stores m :=
  apply_ite (Prog.stores · m) c p p'

end Ite

theorem mem_of_stores {p : Prog α} {m : Mem} (h : p.stores m = []) : p.mem m = m := by
  induction p generalizing m with
  | ret v => rfl
  | load a next ih => exact ih _ h
  | store a v next ih => exact absurd h (List.cons_ne_nil _ _)
  | print c next ih => exact ih h

/-- Run a program if a condition holds. -/
def when (c : Prop) [Decidable c] (p : Prog Unit) : Prog Unit := if c then p else pure ()

section When

variable (c : Prop) [Decidable c] (p : Prog Unit) (m : Mem)

@[simp] theorem touches_when : (when c p).touches m = if c then p.touches m else [] := by
  rw [when]
  split_ifs
  · rfl
  · rfl

end When

/-! ## Rows of bytes -/

def printAll : List UInt8 → Prog Unit
  | [] => pure ()
  | c :: cs => print c (printAll cs)

def storeAll : UInt32 → List UInt8 → Prog Unit
  | _, [] => pure ()
  | a, v :: vs => store a v (storeAll (a + 1) vs)

def loadAll : UInt32 → ℕ → Prog (List UInt8)
  | _, 0 => pure []
  | a, n + 1 => load a fun c ↦ do
    let cs ← loadAll (a + 1) n
    pure (c :: cs)

@[simp] theorem touches_printAll (cs : List UInt8) (m : Mem) : (printAll cs).touches m = [] := by
  induction cs with
  | nil => rfl
  | cons c cs ih => exact ih

@[simp] theorem mem_printAll (cs : List UInt8) (m : Mem) : (printAll cs).mem m = m := by
  induction cs with
  | nil => rfl
  | cons c cs ih => exact ih

@[simp] theorem out_printAll (cs : List UInt8) (m : Mem) : (printAll cs).out m = cs := by
  induction cs with
  | nil => rfl
  | cons c cs ih => exact congrArg (c :: ·) ih

@[simp] theorem mem_touches_storeAll (a x : UInt32) (vs : List UInt8) (m : Mem) :
    x ∈ (storeAll a vs).touches m ↔ InBlock a vs.length x := by
  induction vs generalizing a m with
  | nil => simp [storeAll]
  | cons v vs ih => rw [storeAll, touches, List.mem_cons, ih, List.length_cons, inBlock_succ]

@[simp] theorem mem_touches_loadAll (a x : UInt32) (n : ℕ) (m : Mem) :
    x ∈ (loadAll a n).touches m ↔ InBlock a n x := by
  induction n generalizing a with
  | zero => simp [loadAll]
  | succ n ih => simp [loadAll, touches, ih, inBlock_succ]

@[simp] theorem mem_loadAll (a : UInt32) (n : ℕ) (m : Mem) : (loadAll a n).mem m = m := by
  induction n generalizing a with
  | zero => rfl
  | succ n ih => simp [loadAll, mem, ih]

@[simp] theorem out_loadAll (a : UInt32) (n : ℕ) (m : Mem) : (loadAll a n).out m = [] := by
  induction n generalizing a with
  | zero => rfl
  | succ n ih => simp [loadAll, out, ih]

@[simp] theorem stores_loadAll (a : UInt32) (n : ℕ) (m : Mem) : (loadAll a n).stores m = [] := by
  induction n generalizing a with
  | zero => rfl
  | succ n ih => simp [loadAll, stores, ih]

@[simp] theorem mem_loads_loadAll (a x : UInt32) (n : ℕ) (m : Mem) :
    x ∈ (loadAll a n).loads m ↔ InBlock a n x := by
  have htouches := mem_touches_iff (loadAll a n) m x
  rw [stores_loadAll, mem_touches_loadAll, or_iff_left List.not_mem_nil] at htouches
  exact htouches.symm

/-- The bytes of a block, in order. -/
def row (m : Mem) (a : UInt32) (n : ℕ) : List UInt8 := (List.range n).map fun k ↦ m (a + .ofNat k)

theorem length_row (m : Mem) (a : UInt32) (n : ℕ) : (row m a n).length = n := by
  rw [row, List.length_map, List.length_range]

theorem row_succ (m : Mem) (a : UInt32) (n : ℕ) : row m a (n + 1) = m a :: row m (a + 1) n := by
  rw [row, List.range_succ_eq_map, List.map_cons, List.map_map, add_ofNat_zero]
  refine congrArg (m a :: ·) (List.map_congr_left fun k _ ↦ ?_)
  rw [Function.comp_apply, show (1 : UInt32) = .ofNat 1 from rfl, add_ofNat_add, Nat.add_comm]

theorem val_loadAll (a : UInt32) (n : ℕ) (m : Mem) :
    (loadAll a n).val m = (List.range n).map fun k ↦ m (a + .ofNat k) := by
  change _ = row m a n
  induction n generalizing a with
  | zero => rfl
  | succ n ih => rw [loadAll, val, val_bind, ih, mem_loadAll, val_pure, row_succ]

/-- A field of `n` bytes, decoded by `f`. -/
def loadField (n : ℕ) (f : (ℕ → UInt8) → α) (a : UInt32) : Prog α := do
  let bytes ← loadAll a n
  pure (f fun k ↦ bytes.getD k 0)

section Field

variable {n : ℕ} {f : (ℕ → UInt8) → α} (a x : UInt32) (m : Mem)

@[simp] theorem mem_loadField : (loadField n f a).mem m = m := by simp [loadField]

@[simp] theorem stores_loadField : (loadField n f a).stores m = [] := by simp [loadField]

@[simp] theorem mem_loads_loadField : x ∈ (loadField n f a).loads m ↔ InBlock a n x := by
  simp [loadField]

theorem val_loadField (hf : ∀ b b', (∀ k < n, b k = b' k) → f b = f b') :
    (loadField n f a).val m = f fun k ↦ m (a + .ofNat k) := by
  rw [loadField, val_bind, val_pure, val_loadAll]
  refine hf _ _ fun k hk ↦ ?_
  rw [List.getD_eq_getElem _ _ (by simpa using hk), List.getElem_map, List.getElem_range]

end Field

theorem mem_storeAll (a : UInt32) (hlen : vs.length ≤ 4294967296) (m : Mem) :
    (storeAll a vs).mem m = writeBytes m a vs.length fun k ↦ vs.getD k 0 := by
  induction vs generalizing a m with
  | nil => rfl
  | cons v vs ih =>
    rw [List.length_cons] at hlen
    rw [storeAll, mem, ih (a + 1) (by omega)]
    funext x
    rw [writeBytes, writeBytes, List.length_cons]
    by_cases hx : x = a
    · have hlast : (x - (a + 1)).toNat = 4294967295 := by
        rw [hx, show a - (a + 1) = 4294967295 by grind]
        rfl
      rw [hlast, if_neg (by omega), hx, storeByte_same, UInt32.sub_self, if_pos (by simp)]
      rfl
    · have hsucc := toNat_sub_of_ne hx
      rw [storeByte_of_ne _ _ hx, hsucc, List.getD_cons_succ]
      simp only [Nat.add_lt_add_iff_right]

theorem mem_storeAll_append (a : UInt32) (us vs : List UInt8) (m : Mem) :
    (storeAll a (us ++ vs)).mem m =
      (storeAll (a + .ofNat us.length) vs).mem ((storeAll a us).mem m) := by
  induction us generalizing a m with
  | nil =>
    rw [List.nil_append, List.length_nil, add_ofNat_zero]
    rfl
  | cons u us ih =>
    rw [List.cons_append, storeAll, mem, ih, storeAll, mem, List.length_cons, Nat.add_comm,
      ← add_ofNat_add]
    rfl

theorem row_add (m : Mem) (a : UInt32) (n k : ℕ) :
    row m a (n + k) = row m a n ++ row m (a + .ofNat n) k := by
  induction n generalizing a with
  | zero =>
    rw [Nat.zero_add, add_ofNat_zero]
    rfl
  | succ n ih =>
    rw [Nat.succ_add, row_succ, row_succ, ih, List.cons_append, Nat.add_comm n 1, ← add_ofNat_add]
    rfl

theorem row_mem_storeAll_part (a : UInt32) (h : o + n ≤ vs.length) (hlen : vs.length ≤ 4294967296)
    (m : Mem) : row ((storeAll a vs).mem m) (a + .ofNat o) n = (vs.drop o).take n := by
  have hlength : ((vs.drop o).take n).length = n := by
    rw [List.length_take, List.length_drop]
    omega
  refine List.ext_getElem ((length_row _ _ _).trans hlength.symm) fun k hk hk' ↦ ?_
  simp only [row, List.getElem_map, List.getElem_range, List.getElem_take, List.getElem_drop]
  rw [add_ofNat_add, mem_storeAll a hlen, writeBytes_add _ _ _ (by omega) (by omega),
    List.getD_eq_getElem]

theorem row_mem_storeAll (a : UInt32) (hlen : vs.length ≤ 4294967296) (m : Mem) :
    row ((storeAll a vs).mem m) a vs.length = vs := by
  have hpart := row_mem_storeAll_part a (Nat.zero_add vs.length).le hlen m
  rwa [add_ofNat_zero, List.drop_zero, List.take_length] at hpart

/-- A row in which the values from index `o` on are replaced by others. -/
def overwrite (us : List UInt8) (o : ℕ) (vs : List UInt8) : List UInt8 :=
  us.take o ++ vs ++ us.drop (o + vs.length)

theorem length_overwrite (h : o + vs.length ≤ us.length) :
    (overwrite us o vs).length = us.length := by
  rw [overwrite, List.length_append, List.length_append, List.length_take, List.length_drop,
    min_eq_left (by omega), Nat.add_sub_cancel' h]

theorem getD_overwrite (h : o + vs.length ≤ us.length) (k : ℕ) :
    (overwrite us o vs).getD k 0 =
      if o ≤ k ∧ k < o + vs.length then vs.getD (k - o) 0 else us.getD k 0 := by
  have hfirst : (us.take o).length = o := by
    rw [List.length_take, min_eq_left (by omega)]
  rw [overwrite]
  rcases lt_or_ge k o with hk | hk
  · rw [if_neg (fun h' ↦ (not_le.mpr hk) h'.1), List.append_assoc,
      List.getD_append _ _ _ _ (by rwa [hfirst]), List.getD_eq_getElem?_getD,
      List.getElem?_take_of_lt hk, ← List.getD_eq_getElem?_getD]
  · rcases lt_or_ge k (o + vs.length) with hlt | hge
    · rw [if_pos ⟨hk, hlt⟩, List.append_assoc, List.getD_append_right _ _ _ _ (by rwa [hfirst]),
        hfirst, List.getD_append _ _ _ _ (by omega)]
    · have hmid : (us.take o ++ vs).length = o + vs.length := by rw [List.length_append, hfirst]
      rw [if_neg (fun h' ↦ (not_lt.mpr hge) h'.2),
        List.getD_append_right _ _ _ _ (by rwa [hmid]), hmid, List.getD_eq_getElem?_getD,
        List.getElem?_drop, Nat.add_sub_cancel' hge, ← List.getD_eq_getElem?_getD]

theorem mem_storeAll_overwrite (a : UInt32) (h : o + vs.length ≤ us.length)
    (hlen : us.length ≤ 4294967296) (m : Mem) :
    (storeAll (a + .ofNat o) vs).mem ((storeAll a us).mem m) =
      (storeAll a (overwrite us o vs)).mem m := by
  have hover := length_overwrite h
  rw [mem_storeAll _ (by omega), mem_storeAll _ hlen, mem_storeAll _ (by omega), hover]
  funext x
  -- compare at the index of `x` in the block
  obtain ⟨k, hk, rfl⟩ : ∃ k < 4294967296, x = a + .ofNat k :=
    ⟨(x - a).toNat, (x - a).toNat_lt, (add_ofNat_toNat_sub a x).symm⟩
  have hkept : ¬(o ≤ k ∧ k < o + vs.length) →
      writeBytes m a us.length (fun i ↦ us.getD i 0) (a + .ofNat k) =
        writeBytes m a us.length (fun i ↦ (overwrite us o vs).getD i 0) (a + .ofNat k) := by
    intro hout
    rw [writeBytes, writeBytes, toNat_add_ofNat_sub a hk, getD_overwrite h, if_neg hout]
  rcases lt_or_ge k o with hko | hok
  · have hbelow := not_lt.mp (not_inBlock_add_of_lt a hko (h.trans hlen))
    rw [writeBytes_of_le _ _ hbelow]
    exact hkept fun h' ↦ (not_le.mpr hko) h'.1
  · have hx : a + .ofNat k = a + .ofNat o + .ofNat (k - o) := by
      rw [add_ofNat_add, Nat.add_sub_cancel' hok]
    rcases lt_or_ge (k - o) vs.length with hv | hv
    · rw [writeBytes_add m a _ (by omega) hk, getD_overwrite h, if_pos ⟨hok, by omega⟩, hx,
        writeBytes_add _ _ _ hv (by omega)]
    · rw [hx, writeBytes_add_of_le _ _ _ hv (by omega), ← hx]
      exact hkept (by omega)

/-- Rows stored at distances from `a`, one after the other. -/
def storeFields (a : UInt32) : List (UInt32 × List UInt8) → Prog Unit
  | [] => pure ()
  | (o, vs) :: fields => do
    storeAll (a + o) vs
    storeFields a fields

theorem mem_storeFields_nil (a : UInt32) (m : Mem) : (storeFields a []).mem m = m := by
  rw [storeFields, mem_pure]

theorem mem_storeFields_cons (a o : UInt32) (vs : List UInt8)
    (fields : List (UInt32 × List UInt8)) (m : Mem) :
    (storeFields a ((o, vs) :: fields)).mem m =
      (storeFields a fields).mem ((storeAll (a + o) vs).mem m) := by
  rw [storeFields, mem_bind]

theorem mem_storeFields_append (a : UInt32) (fields fields' : List (UInt32 × List UInt8))
    (m : Mem) :
    (storeFields a (fields ++ fields')).mem m =
      (storeFields a fields').mem ((storeFields a fields).mem m) := by
  induction fields generalizing m with
  | nil => rfl
  | cons f fields ih => rw [List.cons_append, mem_storeFields_cons, ih, mem_storeFields_cons]

/-- The bytes `o, …, o + n - 1` do not belong to the field. -/
def FieldApart (o n : ℕ) (f : UInt32 × List UInt8) : Prop :=
  f.1.toNat + f.2.length ≤ 4294967296 ∧ (o + n ≤ f.1.toNat ∨ f.1.toNat + f.2.length ≤ o)
  deriving Decidable

theorem row_mem_storeFields_apart (a : UInt32) {fields : List (UInt32 × List UInt8)} {o : UInt32}
    (hend : o.toNat + n ≤ 4294967296) (h : ∀ f ∈ fields, FieldApart o.toNat n f) (m : Mem) :
    row ((storeFields a fields).mem m) (a + o) n = row m (a + o) n := by
  induction fields generalizing m with
  | nil => rfl
  | cons f fields ih =>
    obtain ⟨⟨hfit, hapart⟩, hfields⟩ := List.forall_mem_cons.mp h
    rw [mem_storeFields_cons, ih hfields]
    refine List.map_congr_left fun k hk ↦ ?_
    rw [List.mem_range] at hk
    rw [mem_storeAll _ (by omega), ← @UInt32.ofNat_toNat f.1, ← @UInt32.ofNat_toNat o,
      add_ofNat_add]
    rcases hapart with hbefore | hbehind
    · have hbelow : o.toNat + k < f.1.toNat := by omega
      exact writeBytes_of_le _ _ (not_lt.mp (not_inBlock_add_of_lt a hbelow hfit))
    · have hx : a + .ofNat (o.toNat + k) =
          a + .ofNat f.1.toNat + .ofNat (o.toNat + k - f.1.toNat) := by
        rw [add_ofNat_add, Nat.add_sub_cancel' (by omega)]
      rw [hx]
      exact writeBytes_add_of_le _ _ _ (by omega) (by omega)

theorem row_mem_storeFields (a : UInt32) (fields : List (UInt32 × List UInt8)) {o : UInt32}
    {fields' : List (UInt32 × List UInt8)} (hend : o.toNat + vs.length ≤ 4294967296)
    (h : ∀ f ∈ fields', FieldApart o.toNat vs.length f) (m : Mem) :
    row ((storeFields a (fields ++ (o, vs) :: fields')).mem m) (a + o) vs.length = vs := by
  rw [mem_storeFields_append, mem_storeFields_cons, row_mem_storeFields_apart a hend h,
    row_mem_storeAll _ (by omega)]

/-! ## What a program can end with -/

/-- Whatever the program loads, it ends with a value that meets `P`. -/
def Ends (P : α → Prop) : Prog α → Prop
  | ret v => P v
  | load _ next => ∀ c, (next c).Ends P
  | store _ _ next => next.Ends P
  | print _ next => next.Ends P

theorem Ends.val {P : α → Prop} {p : Prog α} (h : p.Ends P) (m : Mem) : P (p.val m) := by
  induction p generalizing m with
  | ret v => exact h
  | load a next ih => exact ih _ (h _) m
  | store a v next ih => exact ih h _
  | print c next ih => exact ih h m

theorem Ends.of_forall {P : α → Prop} (p : Prog α) (h : ∀ v, P v) : p.Ends P := by
  induction p with
  | ret v => exact h v
  | load a next ih => exact ih
  | store a v next ih => exact ih
  | print c next ih => exact ih

theorem Ends.bind {Q : α → Prop} {P : β → Prop} {p : Prog α} {f : α → Prog β} (hp : p.Ends Q)
    (hf : ∀ v, Q v → (f v).Ends P) : (p >>= f).Ends P := by
  induction p with
  | ret v => exact hf v hp
  | load a next ih => exact fun c ↦ ih c (hp c)
  | store a v next ih => exact ih hp
  | print c next ih => exact ih hp

theorem Ends.after {P : β → Prop} {p : Prog α} {f : α → Prog β} (hf : ∀ v, (f v).Ends P) :
    (p >>= f).Ends P :=
  (Ends.of_forall p fun _ ↦ trivial).bind fun v _ ↦ hf v

/-! ## Blocks as footprints -/

/-- The program stays inside a block, from whatever memory it is run. -/
def Inside (p : Prog α) (a : UInt32) (n : ℕ) : Prop := ∀ m, ∀ x ∈ p.touches m, InBlock a n x

/-- The footprint is a block. -/
def Covers (p : Prog α) (a : UInt32) (n : ℕ) : Prop := ∀ m x, x ∈ p.touches m ↔ InBlock a n x

theorem Inside.bind {p : Prog α} {f : α → Prog β} (hp : p.Inside a n) (hf : ∀ v, (f v).Inside a n) :
    (p >>= f).Inside a n := by
  intro m x hx
  rw [touches_bind, List.mem_append] at hx
  exact hx.elim (hp m x) (hf _ _ x)

theorem Covers.bind {p : Prog α} {f : α → Prog β} (hp : p.Covers a n) (hf : ∀ v, (f v).Inside a n) :
    (p >>= f).Covers a n := by
  intro m x
  rw [touches_bind, List.mem_append, hp m x]
  exact ⟨fun hx ↦ hx.elim id (hf _ _ x), .inl⟩

theorem Covers.append {p : Prog α} {f : α → Prog β} (hp : p.Covers a n)
    (hf : ∀ v, (f v).Covers (a + .ofNat n) k) : (p >>= f).Covers a (n + k) := by
  intro m x
  rw [touches_bind, List.mem_append, hp m x, hf, inBlock_append]

theorem Covers.append_add {p : Prog α} {f : α → Prog β} {i : ℕ} (hp : p.Covers (a + .ofNat i) n)
    (hf : ∀ v, (f v).Covers (a + .ofNat (i + n)) k) : (p >>= f).Covers (a + .ofNat i) (n + k) :=
  hp.append fun v ↦ (add_ofNat_add a i n).symm ▸ hf v

theorem covers_storeAll (a : UInt32) (vs : List UInt8) : (storeAll a vs).Covers a vs.length :=
  fun m x ↦ mem_touches_storeAll a x vs m

theorem Covers.inside {p : Prog α} {o : UInt32} (h : p.Covers (a + o) k) (hle : o.toNat + k ≤ n)
    (hn : n ≤ 4294967296) : p.Inside a n := by
  intro m x hx
  rw [h m x, ← UInt32.ofNat_toNat (x := o)] at hx
  exact hx.of_add hle hn

theorem Covers.inside_start {p : Prog α} (h : p.Covers a k) (hle : k ≤ n) :
    p.Inside a n := fun m x hx ↦ ((h m x).mp hx).mono hle

/-- Run from `m`, the program loads from inside a block only. -/
def LoadsIn (p : Prog α) (m : Mem) (a : UInt32) (n : ℕ) : Prop := ∀ x ∈ p.loads m, InBlock a n x

section LoadsIn

variable (m : Mem) (a : UInt32) (n : ℕ)

@[simp] theorem loadsIn_pure (v : α) : (pure v : Prog α).LoadsIn m a n := by
  simp [LoadsIn]

@[simp] theorem loadsIn_bind (p : Prog α) (f : α → Prog β) : (p >>= f).LoadsIn m a n ↔
    p.LoadsIn m a n ∧ (f (p.val m)).LoadsIn (p.mem m) a n := by
  rw [LoadsIn, loads_bind]
  exact List.forall_mem_append

theorem loadsIn_loadField {f : (ℕ → UInt8) → α} (hpos : 0 < k) (hend : o + k ≤ 4294967296) :
    (loadField k f (a + .ofNat o)).LoadsIn m a n ↔ o + k ≤ n := by
  simp only [LoadsIn, mem_loads_loadField]
  exact forall_inBlock_add_iff hpos (by omega) (.inl hend)

end LoadsIn

/-! ## What the footprint says -/

/-- **Nothing else is changed.** -/
theorem sameOutside_mem (p : Prog α) (m : Mem) : SameOutside (· ∈ p.touches m) m (p.mem m) := by
  induction p generalizing m with
  | ret v => exact SameOutside.refl _ _
  | load a next ih => exact (ih _ _).mono fun x hx ↦ List.mem_cons_of_mem _ hx
  | store a v next ih =>
    have hstore : SameOutside (· ∈ (store a v next).touches m) m (storeByte m a v) :=
      fun x hx ↦ storeByte_of_ne _ _ fun heq ↦ hx (heq ▸ List.mem_cons_self)
    exact hstore.trans ((ih _).mono fun x hx ↦ List.mem_cons_of_mem _ hx)
  | print c next ih => exact ih _

/-- The runs from `m` and `m'` cannot be told apart: the same value, output and addresses. -/
structure Agrees (p : Prog α) (m m' : Mem) : Prop where
  val : p.val m' = p.val m
  out : p.out m' = p.out m
  touches : p.touches m' = p.touches m

/-- **Nothing else has an influence.** -/
theorem agrees_of_touches {p : Prog α} {m m' : Mem} (h : ∀ x ∈ p.touches m, m' x = m x) :
    p.Agrees m m' := by
  induction p generalizing m m' with
  | ret v => exact ⟨rfl, rfl, rfl⟩
  | load a next ih =>
    have ha : m' a = m a := h a List.mem_cons_self
    have hnext : (next (m a)).Agrees m m' := ih _ fun x hx ↦ h x (List.mem_cons_of_mem _ hx)
    refine ⟨?_, ?_, ?_⟩
    · rw [Prog.val, Prog.val, ha, hnext.val]
    · rw [Prog.out, Prog.out, ha, hnext.out]
    · rw [Prog.touches, Prog.touches, ha, hnext.touches]
  | store a v next ih =>
    -- what is stored is the same in both memories
    have hstore : ∀ x ∈ next.touches (storeByte m a v), storeByte m' a v x = storeByte m a v x := by
      intro x hx
      by_cases heq : x = a
      · rw [heq, storeByte_same, storeByte_same]
      · rw [storeByte_of_ne _ _ heq, storeByte_of_ne _ _ heq]
        exact h x (List.mem_cons_of_mem _ hx)
    obtain ⟨hval, hout, htouches⟩ := ih hstore
    exact ⟨hval, hout, congrArg (a :: ·) htouches⟩
  | print c next ih =>
    obtain ⟨hval, hout, htouches⟩ := ih h
    exact ⟨hval, congrArg (c :: ·) hout, htouches⟩

end Prog

end ByteProgram
