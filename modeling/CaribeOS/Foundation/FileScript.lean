import Mathlib.Data.List.Basic
import Mathlib.Tactic

/-!
# Programs that write to a file and can fail

A file is a buffer of bytes. A script is run on a file: it ends with a value or with an error, and it
has by then made a list of writes. An error does not undo the writes made before it. What a run that
is cut short leaves behind is the file after a prefix of the list.

Reading does not write, so a function that only reads is a function of the file (`Script.ask`). The
order of the writes matters only where two of them cover the same byte: a byte that is covered by
writes of one and the same value has that value afterwards (`Buf.byte_writes_eq`), and a byte that is
not covered is left alone (`Buf.byte_writes_of_not_covers`).
-/

namespace FileScript

/-- Bytes in memory or in a file. What `byte` says beyond `size` does not matter. -/
structure Buf where
  size : ℕ
  byte : ℕ → UInt8

namespace Buf

def zeros (n : ℕ) : Buf := ⟨n, fun _ ↦ 0⟩

def ofList (bytes : List UInt8) : Buf := ⟨bytes.length, fun k ↦ bytes.getD k 0⟩

/-- At most `n` bytes from `off` on. -/
def slice (b : Buf) (off n : ℕ) : Buf := ⟨min n (b.size - off), fun k ↦ b.byte (off + k)⟩

def append (a b : Buf) : Buf :=
  ⟨a.size + b.size, fun k ↦ if k < a.size then a.byte k else b.byte (k - a.size)⟩

/-- The same bytes. -/
def Same (a b : Buf) : Prop := a.size = b.size ∧ ∀ k < a.size, a.byte k = b.byte k

theorem Same.refl (a : Buf) : a.Same a := ⟨rfl, fun _ _ ↦ rfl⟩

@[simp] theorem size_slice (b : Buf) {off n : ℕ} (h : off + n ≤ b.size) :
    (b.slice off n).size = n := by
  rw [slice]
  dsimp only
  omega

end Buf

/-! ## Writes -/

structure Write where
  off : ℕ
  data : Buf

/-- The write puts a byte to `x`. -/
def Write.Covers (w : Write) (x : ℕ) : Prop := w.off ≤ x ∧ x < w.off + w.data.size
  deriving Decidable

/-- The byte that the write puts to `x`. -/
def Write.value (w : Write) (x : ℕ) : UInt8 := w.data.byte (x - w.off)

namespace Buf

/-- The file after a write. A write behind the end fills the gap with zeros. -/
def write (f : Buf) (w : Write) : Buf where
  size := if w.data.size = 0 then f.size else max f.size (w.off + w.data.size)
  byte x := if w.Covers x then w.value x else if x < f.size then f.byte x else 0

/-- The file after a list of writes. -/
def writes (f : Buf) (ws : List Write) : Buf := ws.foldl write f

@[simp] theorem writes_nil (f : Buf) : f.writes [] = f := rfl

@[simp] theorem writes_cons (f : Buf) (w : Write) (ws : List Write) :
    f.writes (w :: ws) = (f.write w).writes ws := rfl

theorem writes_append (f : Buf) (ws ws' : List Write) :
    f.writes (ws ++ ws') = (f.writes ws).writes ws' := List.foldl_append

end Buf

/-- The writes cover bytes of `R` only. -/
def Touches (R : Set ℕ) (ws : List Write) : Prop := ∀ w ∈ ws, ∀ x, w.Covers x → x ∈ R

namespace Touches

variable {R S : Set ℕ} {ws ws' : List Write}

theorem mono (h : Touches R ws) (hsub : R ⊆ S) : Touches S ws := fun w hw x hx ↦ hsub (h w hw x hx)

theorem append (h : Touches R ws) (h' : Touches R ws') : Touches R (ws ++ ws') := by
  intro w hw
  rcases List.mem_append.mp hw with hw | hw
  · exact h w hw
  · exact h' w hw

theorem take (h : Touches R ws) (k : ℕ) : Touches R (ws.take k) :=
  fun w hw ↦ h w (List.mem_of_mem_take hw)

end Touches

namespace Buf

variable {f : Buf} {w : Write} {ws : List Write} {x : ℕ}

theorem size_write (h : ∀ x, w.Covers x → x < f.size) : (f.write w).size = f.size := by
  rw [write]
  dsimp only
  split_ifs with hempty
  · rfl
  · have hlast := h (w.off + w.data.size - 1) ⟨by omega, by omega⟩
    omega

theorem size_writes (h : Touches (Set.Iio f.size) ws) : (f.writes ws).size = f.size := by
  induction ws generalizing f with
  | nil => rfl
  | cons w ws ih =>
    have hsize := size_write (h w List.mem_cons_self)
    rw [writes_cons, ih, hsize]
    intro w' hw'
    rw [hsize]
    exact h w' (List.mem_cons_of_mem w hw')

theorem size_le_size_write (f : Buf) (w : Write) : f.size ≤ (f.write w).size := by
  rw [write]
  split_ifs
  · exact le_rfl
  · exact le_max_left _ _

theorem byte_write_of_not_covers (hx : x < f.size) (h : ¬w.Covers x) :
    (f.write w).byte x = f.byte x := by
  rw [write]
  dsimp only
  rw [if_neg h, if_pos hx]

/-- **Locality.** A byte that no write covers stays as it is. -/
theorem byte_writes_of_not_covers (hx : x < f.size) (h : ∀ w ∈ ws, ¬w.Covers x) :
    (f.writes ws).byte x = f.byte x := by
  induction ws generalizing f with
  | nil => rfl
  | cons w ws ih =>
    rw [List.forall_mem_cons] at h
    rw [writes_cons, ih (hx.trans_le (size_le_size_write f w)) h.2, byte_write_of_not_covers hx h.1]

theorem byte_writes_of_touches {R : Set ℕ} (hx : x < f.size) (h : Touches R ws) (hR : x ∉ R) :
    (f.writes ws).byte x = f.byte x :=
  byte_writes_of_not_covers hx fun w hw hc ↦ hR (h w hw x hc)

/-- **A byte that is covered** has the value of the writes that cover it, if they agree. -/
theorem byte_writes_eq {v : UInt8} (h : ∀ w ∈ ws, w.Covers x → w.value x = v)
    (hcovers : ∃ w ∈ ws, w.Covers x) : (f.writes ws).byte x = v := by
  induction ws generalizing f with
  | nil =>
    obtain ⟨w, hw, -⟩ := hcovers
    exact absurd hw List.not_mem_nil
  | cons w ws ih =>
    rw [List.forall_mem_cons] at h
    rw [writes_cons]
    by_cases hlater : ∃ w' ∈ ws, w'.Covers x
    · exact ih h.2 hlater
    · -- the first write is the only one that covers the byte
      obtain ⟨w', hw', hc⟩ := hcovers
      have hw : w.Covers x := by
        rcases List.mem_cons.mp hw' with rfl | hin
        · exact hc
        · exact absurd ⟨w', hin, hc⟩ hlater
      have hx : x < (f.write w).size := by
        have hlt := hw.2
        have hle := hw.1
        rw [write]
        rw [if_neg (by omega)]
        exact hlt.trans_le (le_max_right _ _)
      rw [byte_writes_of_not_covers hx fun w' hin hc' ↦ hlater ⟨w', hin, hc'⟩, write]
      dsimp only
      rw [if_pos hw, h.1 hw]

/-- **Writing what is there** changes nothing. -/
theorem writes_same (h : ∀ w ∈ ws, ∀ x, w.Covers x → x < f.size ∧ w.value x = f.byte x) :
    (f.writes ws).Same f := by
  have hsize : (f.writes ws).size = f.size := size_writes fun w hw x hx ↦ (h w hw x hx).1
  refine ⟨hsize, fun x hx ↦ ?_⟩
  by_cases hcovers : ∃ w ∈ ws, w.Covers x
  · exact byte_writes_eq (fun w hw hc ↦ (h w hw x hc).2) hcovers
  · rw [hsize] at hx
    exact byte_writes_of_not_covers hx fun w hw hc ↦ hcovers ⟨w, hw, hc⟩

end Buf

/-! ## Computations that can fail -/

section Except

variable {ε α β σ : Type}

theorem ok_bind (a : α) (f : α → Except ε β) : (Except.ok a >>= f) = f a := rfl

theorem bind_eq_ok {x : Except ε α} {f : α → Except ε β} {b : β} :
    (x >>= f) = .ok b ↔ ∃ a, x = .ok a ∧ f a = .ok b := by
  cases x with
  | error e =>
    exact ⟨fun h ↦ (by cases h), fun ⟨a, h, _⟩ ↦ (by cases h)⟩
  | ok a =>
    exact ⟨fun h ↦ ⟨a, rfl, h⟩, fun ⟨a', h, hf⟩ ↦ by rwa [Except.ok.inj h]⟩

theorem mapM_eq_ok {f : α → Except ε β} {g : α → β} {l : List α} (h : ∀ x ∈ l, f x = .ok (g x)) :
    l.mapM f = .ok (l.map g) := by
  induction l with
  | nil => rfl
  | cons x l ih =>
    rw [List.mapM_cons, h x List.mem_cons_self, ok_bind,
      ih fun y hy ↦ h y (List.mem_cons_of_mem x hy), ok_bind]
    rfl

theorem exists_of_mapM_eq_ok {f : α → Except ε β} {l : List α} {r : List β}
    (h : l.mapM f = .ok r) : ∀ x ∈ l, ∃ y, f x = .ok y := by
  induction l generalizing r with
  | nil => exact fun x hx ↦ absurd hx List.not_mem_nil
  | cons a l ih =>
    rw [List.mapM_cons] at h
    obtain ⟨y, hy, h⟩ := bind_eq_ok.mp h
    obtain ⟨ys, hys, -⟩ := bind_eq_ok.mp h
    exact List.forall_mem_cons.mpr ⟨⟨y, hy⟩, ih hys⟩

end Except

/-! ## Scripts -/

/-- A program on a file: the value or the error it ends with, and the writes it has made. -/
def Script (ε α : Type) : Type := Buf → Except ε α × List Write

namespace Script

variable {ε α β : Type}

/-- What is found out by reading only. -/
def ask (q : Buf → Except ε α) : Script ε α := fun f ↦ (q f, [])

/-- Write `data` at offset `off`. -/
def put (off : ℕ) (data : Buf) : Script ε Unit := fun _ ↦ (.ok (), [⟨off, data⟩])

def bind (x : Script ε α) (g : α → Script ε β) : Script ε β := fun f ↦
  match x f with
  | (.error e, ws) => (.error e, ws)
  | (.ok a, ws) => ((g a (f.writes ws)).1, ws ++ (g a (f.writes ws)).2)

instance : Monad (Script ε) where
  pure a := fun _ ↦ (.ok a, [])
  bind := bind

variable {x : Script ε α} {g : α → Script ε β} {f : Buf}

@[simp] theorem pure_apply (a : α) (f : Buf) : (pure a : Script ε α) f = (.ok a, []) := rfl

@[simp] theorem ask_apply (q : Buf → Except ε α) (f : Buf) : ask q f = (q f, []) := rfl

@[simp] theorem put_apply (off : ℕ) (data : Buf) (f : Buf) :
    (put off data : Script ε Unit) f = (.ok (), [⟨off, data⟩]) := rfl

theorem bind_apply (x : Script ε α) (g : α → Script ε β) (f : Buf) : (x >>= g) f = bind x g f := rfl

theorem bind_of_ok {a : α} {ws : List Write} (h : x f = (.ok a, ws)) :
    (x >>= g) f = ((g a (f.writes ws)).1, ws ++ (g a (f.writes ws)).2) := by
  rw [bind_apply, bind, h]

theorem bind_of_error {e : ε} {ws : List Write} (h : x f = (.error e, ws)) :
    (x >>= g) f = (.error e, ws) := by
  rw [bind_apply, bind, h]

theorem bind_run {a : α} {ws ws' : List Write} {r : Except ε β} (h : x f = (.ok a, ws))
    (hg : g a (f.writes ws) = (r, ws')) : (x >>= g) f = (r, ws ++ ws') := by
  rw [bind_of_ok h, hg]

/-- A question first: nothing is written by it. -/
theorem ask_bind_of_ok {q : Buf → Except ε α} {a : α} (h : q f = .ok a) :
    (ask q >>= g) f = g a f := by
  rw [bind_of_ok (by rw [ask_apply, h]), Buf.writes_nil, List.nil_append]

theorem ask_bind_of_error {q : Buf → Except ε α} {e : ε} (h : q f = .error e) :
    (ask q >>= g) f = (.error e, []) :=
  bind_of_error (by rw [ask_apply, h])

end Script

end FileScript
