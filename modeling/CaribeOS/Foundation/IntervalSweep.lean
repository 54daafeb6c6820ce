import Mathlib.Order.Interval.Set.Basic
import Mathlib.Tactic

/-!
# Sweeping a window with labelled intervals

A window `[a, b)` of a linear order is cut into labelled pieces by running a cursor over intervals
that are sorted by their left end. What lies under an interval gets that interval's label, the first
interval winning where two overlap; what lies under none gets the label `free`.

The pieces are laid end to end (`Tiles`), which is the form in which the cursor proves it: one step
appends pieces that start where the cursor was and end where it stops. Disjointness, order and
coverage are read off `Tiles` afterwards. That a point under an interval is never in a free piece
is where sortedness enters: a free piece ends at the left end of some interval already swept, and
the intervals still to come start no earlier.
-/

namespace IntervalSweep

variable {α τ : Type*}

/-- A half-open interval `[lo, hi)` with a label. -/
@[ext] structure Segment (α τ : Type*) where
  lo : α
  hi : α
  label : τ

variable [LinearOrder α]

/-- The points of a segment. -/
def Segment.points (s : Segment α τ) : Set α := Set.Ico s.lo s.hi

@[simp] theorem Segment.mem_points_iff {s : Segment α τ} {x : α} :
    x ∈ s.points ↔ s.lo ≤ x ∧ x < s.hi := Iff.rfl

/-! ## Segments laid end to end -/

/-- Non-empty segments laid end to end from `a` to `b`. -/
def Tiles : α → List (Segment α τ) → α → Prop
  | a, [], b => a = b
  | a, s :: l, b => s.lo = a ∧ a < s.hi ∧ Tiles s.hi l b

namespace Tiles

variable {a b c : α} {l l' : List (Segment α τ)}

theorem append (h : Tiles a l b) (h' : Tiles b l' c) : Tiles a (l ++ l') c := by
  induction l generalizing a with
  | nil =>
    obtain rfl : a = b := h
    exact h'
  | cons s l ih => exact ⟨h.1, h.2.1, ih h.2.2⟩

theorem le (h : Tiles a l b) : a ≤ b := by
  induction l generalizing a with
  | nil => exact le_of_eq h
  | cons s l ih => exact h.2.1.le.trans (ih h.2.2)

theorem bounds (h : Tiles a l b) {s : Segment α τ} (hs : s ∈ l) :
    a ≤ s.lo ∧ s.lo < s.hi ∧ s.hi ≤ b := by
  induction l generalizing a with
  | nil => exact absurd hs List.not_mem_nil
  | cons t l ih =>
    rcases List.mem_cons.mp hs with rfl | hs
    · exact ⟨h.1.ge, h.1 ▸ h.2.1, h.2.2.le⟩
    · obtain ⟨hlo, hne, hhi⟩ := ih h.2.2 hs
      exact ⟨h.2.1.le.trans hlo, hne, hhi⟩

theorem pairwise (h : Tiles a l b) : l.Pairwise fun s t ↦ s.hi ≤ t.lo := by
  induction l generalizing a with
  | nil => exact List.Pairwise.nil
  | cons s l ih => exact List.pairwise_cons.mpr ⟨fun t ht ↦ (h.2.2.bounds ht).1, ih h.2.2⟩

theorem isChain (h : Tiles a l b) : l.IsChain fun s t ↦ s.hi = t.lo := by
  induction l generalizing a with
  | nil => exact List.isChain_nil
  | cons s l ih =>
    cases l with
    | nil => exact List.isChain_singleton s
    | cons t l => exact List.isChain_cons_cons.mpr ⟨h.2.2.1.symm, ih h.2.2⟩

theorem exists_mem_iff (h : Tiles a l b) (x : α) : (∃ s ∈ l, x ∈ s.points) ↔ a ≤ x ∧ x < b := by
  constructor
  · rintro ⟨s, hs, hlo, hhi⟩
    obtain ⟨ha, -, hb⟩ := h.bounds hs
    exact ⟨ha.trans hlo, hhi.trans_le hb⟩
  · rintro ⟨ha, hb⟩
    induction l generalizing a with
    | nil => exact absurd (ha.trans_lt hb) (h ▸ lt_irrefl a)
    | cons s l ih =>
      rcases lt_or_ge x s.hi with hx | hx
      · exact ⟨s, List.mem_cons_self, h.1 ▸ ha, hx⟩
      · obtain ⟨t, ht, hmem⟩ := ih h.2.2 hx
        exact ⟨t, List.mem_cons_of_mem _ ht, hmem⟩

end Tiles

/-! ## The sweep -/

/-- One interval: skipped when the cursor is past it; otherwise a free piece up to its left end if
there is a gap, and the part of it that the cursor has not covered. -/
def sweepStep (free : τ) (st : α × List (Segment α τ)) (r : Segment α τ) : α × List (Segment α τ) :=
  if r.hi ≤ st.1 then st
  else
    (r.hi, st.2 ++ (if st.1 < r.lo then [⟨st.1, r.lo, free⟩] else [])
      ++ [⟨if r.lo < st.1 then st.1 else r.lo, r.hi, r.label⟩])

/-- The cursor and the pieces after all intervals. -/
def sweepRun (free : τ) (a : α) (rs : List (Segment α τ)) : α × List (Segment α τ) :=
  rs.foldl (sweepStep free) (a, [])

/-- The pieces of the window `[a, b)`: after the last interval the rest is free. -/
def sweep (free : τ) (a b : α) (rs : List (Segment α τ)) : List (Segment α τ) :=
  (sweepRun free a rs).2 ++
    if (sweepRun free a rs).1 < b then [⟨(sweepRun free a rs).1, b, free⟩] else []

/-- What the sweep has achieved when it has seen `rs` and stands at `st`. -/
structure SweepInv (free : τ) (a : α) (rs : List (Segment α τ)) (st : α × List (Segment α τ)) :
    Prop where
  /-- The pieces fill the window up to the cursor. -/
  tiles : Tiles a st.2 st.1
  /-- Every interval seen is behind the cursor. -/
  passed : ∀ r ∈ rs, r.hi ≤ st.1
  /-- A free piece ends where some interval starts. -/
  freeEnds : ∀ s ∈ st.2, s.label = free → ∃ r ∈ rs, s.hi = r.lo
  /-- A free piece has no point of any interval seen. -/
  freeClear : ∀ s ∈ st.2, s.label = free → ∀ r ∈ rs, ∀ x ∈ s.points, x ∉ r.points
  /-- A piece that is not free lies under an interval with its label. -/
  taken : ∀ s ∈ st.2, s.label ≠ free → ∃ r ∈ rs, r.label = s.label ∧ s.points ⊆ r.points

variable {free : τ} {a b : α} {rs : List (Segment α τ)}

theorem sweepInv_nil : SweepInv free a [] (a, ([] : List (Segment α τ))) := by
  refine ⟨rfl, ?_, ?_, ?_, ?_⟩ <;> simp

section Step

variable {st : α × List (Segment α τ)} {r : Segment α τ}

/-- The old free pieces end before an interval that starts no earlier than those seen. -/
theorem SweepInv.notMem_next (h : SweepInv free a rs st) (hsorted : ∀ t ∈ rs, t.lo ≤ r.lo)
    {s : Segment α τ} (hs : s ∈ st.2) (hfree : s.label = free) : ∀ x ∈ s.points, x ∉ r.points := by
  obtain ⟨t, ht, hend⟩ := h.freeEnds s hs hfree
  have hle : s.hi ≤ r.lo := hend ▸ hsorted t ht
  rintro x ⟨-, hx⟩ ⟨hx', -⟩
  exact absurd (hle.trans hx') (not_le.mpr hx)

/-- The gap piece that a step emits, if there is a gap. -/
def gapPiece (free : τ) (cursor : α) (r : Segment α τ) : List (Segment α τ) :=
  if cursor < r.lo then [⟨cursor, r.lo, free⟩] else []

/-- The part of the interval that the cursor has not covered. -/
def ownPiece (cursor : α) (r : Segment α τ) : Segment α τ :=
  ⟨if r.lo < cursor then cursor else r.lo, r.hi, r.label⟩

theorem sweepStep_of_lt (h : st.1 < r.hi) : sweepStep free st r
    = (r.hi, st.2 ++ gapPiece free st.1 r ++ [ownPiece st.1 r]) := by
  rw [sweepStep, if_neg (not_le.mpr h), gapPiece, ownPiece]

theorem mem_gapPiece {cursor : α} {s : Segment α τ} (hs : s ∈ gapPiece free cursor r) :
    s = ⟨cursor, r.lo, free⟩ ∧ cursor < r.lo := by
  rw [gapPiece] at hs
  split at hs
  · next h => exact ⟨List.mem_singleton.mp hs, h⟩
  · exact absurd hs List.not_mem_nil

theorem tiles_gapPiece_ownPiece {cursor : α} (h : cursor < r.hi) (hr : r.lo < r.hi) :
    Tiles cursor (gapPiece free cursor r ++ [ownPiece cursor r]) r.hi := by
  rw [gapPiece, ownPiece]
  by_cases hgap : cursor < r.lo
  · rw [if_pos hgap, if_neg (not_lt.mpr hgap.le)]
    exact ⟨rfl, hgap, rfl, hr, rfl⟩
  · rw [if_neg hgap]
    refine ⟨?_, h, rfl⟩
    by_cases hlo : r.lo < cursor
    · exact if_pos hlo
    · rw [if_neg hlo]
      exact le_antisymm (not_lt.mp hgap) (not_lt.mp hlo)

theorem ownPiece_subset (cursor : α) : (ownPiece cursor r).points ⊆ r.points := by
  rintro x ⟨hlo, hhi⟩
  refine ⟨?_, hhi⟩
  rw [ownPiece] at hlo
  by_cases h : r.lo < cursor
  · rw [if_pos h] at hlo
    exact h.le.trans hlo
  · rwa [if_neg h] at hlo

theorem SweepInv.step (h : SweepInv free a rs st) (hsorted : ∀ t ∈ rs, t.lo ≤ r.lo)
    (hr : r.lo < r.hi) (hlabel : r.label ≠ free) :
    SweepInv free a (rs ++ [r]) (sweepStep free st r) := by
  have hmem : ∀ {t}, t ∈ rs → t ∈ rs ++ [r] := fun ht ↦ List.mem_append_left _ ht
  have hlast : r ∈ rs ++ [r] := List.mem_append_right _ (List.mem_singleton_self r)
  have hcases : ∀ {P : Segment α τ → Prop}, (∀ t ∈ rs, P t) → P r → ∀ t ∈ rs ++ [r], P t := by
    intro P hrs hP t ht
    rcases List.mem_append.mp ht with ht | ht
    · exact hrs t ht
    · rwa [List.mem_singleton.mp ht]
  by_cases hskip : r.hi ≤ st.1
  · rw [sweepStep, if_pos hskip]
    refine ⟨h.tiles, hcases h.passed hskip, fun s hs hf ↦ ?_, fun s hs hf ↦ ?_, fun s hs hf ↦ ?_⟩
    · obtain ⟨t, ht, hend⟩ := h.freeEnds s hs hf
      exact ⟨t, hmem ht, hend⟩
    · exact hcases (h.freeClear s hs hf) (h.notMem_next hsorted hs hf)
    · obtain ⟨t, ht, hsub⟩ := h.taken s hs hf
      exact ⟨t, hmem ht, hsub⟩
  · have hlt : st.1 < r.hi := not_le.mp hskip
    rw [sweepStep_of_lt hlt, List.append_assoc]
    -- a piece is an old one, the gap, or the interval's own part
    have hpiece : ∀ s ∈ st.2 ++ (gapPiece free st.1 r ++ [ownPiece st.1 r]),
        s ∈ st.2 ∨ (s = ⟨st.1, r.lo, free⟩ ∧ st.1 < r.lo) ∨ s = ownPiece st.1 r := by
      intro s hs
      rcases List.mem_append.mp hs with hs | hs
      · exact Or.inl hs
      rcases List.mem_append.mp hs with hs | hs
      · exact Or.inr (Or.inl (mem_gapPiece hs))
      · exact Or.inr (Or.inr (List.mem_singleton.mp hs))
    refine ⟨h.tiles.append (tiles_gapPiece_ownPiece hlt hr), ?_, ?_, ?_, ?_⟩
    · exact hcases (fun t ht ↦ (h.passed t ht).trans hlt.le) le_rfl
    · intro s hs hf
      rcases hpiece s hs with hs | ⟨rfl, -⟩ | rfl
      · obtain ⟨t, ht, hend⟩ := h.freeEnds s hs hf
        exact ⟨t, hmem ht, hend⟩
      · exact ⟨r, hlast, rfl⟩
      · exact absurd hf hlabel
    · intro s hs hf
      rcases hpiece s hs with hs | ⟨rfl, -⟩ | rfl
      · exact hcases (h.freeClear s hs hf) (h.notMem_next hsorted hs hf)
      · refine hcases (fun t ht ↦ ?_) ?_
        · -- the gap starts at the cursor, which is past every interval seen
          rintro x ⟨hx, -⟩ ⟨-, hx'⟩
          exact absurd ((h.passed t ht).trans hx) (not_le.mpr hx')
        · rintro x ⟨-, hx⟩ ⟨hx', -⟩
          exact absurd hx' (not_le.mpr hx)
      · exact absurd hf hlabel
    · intro s hs hf
      rcases hpiece s hs with hs | ⟨rfl, -⟩ | rfl
      · obtain ⟨t, ht, hsub⟩ := h.taken s hs hf
        exact ⟨t, hmem ht, hsub⟩
      · exact absurd rfl hf
      · exact ⟨r, hlast, rfl, ownPiece_subset st.1⟩

end Step

theorem sweepRun_concat (r : Segment α τ) :
    sweepRun free a (rs ++ [r]) = sweepStep free (sweepRun free a rs) r := by
  rw [sweepRun, List.foldl_append]
  rfl

/-- What is asked of the intervals: sorted by their left end, non-empty, inside the window, and
none labelled `free`. -/
structure Sweepable (free : τ) (a b : α) (rs : List (Segment α τ)) : Prop where
  sorted : rs.Pairwise fun s t ↦ s.lo ≤ t.lo
  nonempty : ∀ r ∈ rs, r.lo < r.hi
  inside : ∀ r ∈ rs, a ≤ r.lo ∧ r.hi ≤ b
  label_ne : ∀ r ∈ rs, r.label ≠ free

theorem sweepRun_inv (hsorted : rs.Pairwise fun s t ↦ s.lo ≤ t.lo)
    (hne : ∀ r ∈ rs, r.lo < r.hi) (hlabel : ∀ r ∈ rs, r.label ≠ free) :
    SweepInv free a rs (sweepRun free a rs) := by
  induction rs using List.reverseRecOn with
  | nil => exact sweepInv_nil
  | append_singleton rs r ih =>
    obtain ⟨hsorted, -, hr⟩ := List.pairwise_append.mp hsorted
    have hlast : r ∈ rs ++ [r] := List.mem_append_right _ (List.mem_singleton_self r)
    rw [sweepRun_concat]
    exact (ih hsorted (fun t ht ↦ hne t (List.mem_append_left _ ht))
      (fun t ht ↦ hlabel t (List.mem_append_left _ ht))).step
      (fun t ht ↦ hr t ht r (List.mem_singleton_self r)) (hne r hlast) (hlabel r hlast)

theorem sweepRun_fst_le (hab : a ≤ b) (hin : ∀ r ∈ rs, r.hi ≤ b) : (sweepRun free a rs).1 ≤ b := by
  induction rs using List.reverseRecOn with
  | nil => exact hab
  | append_singleton rs r ih =>
    have hprev := ih fun t ht ↦ hin t (List.mem_append_left _ ht)
    rw [sweepRun_concat, sweepStep]
    split
    · exact hprev
    · exact hin r (List.mem_append_right _ (List.mem_singleton_self r))

/-- Every end of a piece is an end of the window or of an interval: what holds of those holds of
the pieces. -/
theorem sweepRun_ends {P : α → Prop} (ha : P a) (hrs : ∀ r ∈ rs, P r.lo ∧ P r.hi) :
    P (sweepRun free a rs).1 ∧ ∀ s ∈ (sweepRun free a rs).2, P s.lo ∧ P s.hi := by
  induction rs using List.reverseRecOn with
  | nil => exact ⟨ha, fun s hs ↦ absurd hs List.not_mem_nil⟩
  | append_singleton rs r ih =>
    obtain ⟨hcursor, hpieces⟩ := ih fun t ht ↦ hrs t (List.mem_append_left _ ht)
    obtain ⟨hlo, hhi⟩ := hrs r (List.mem_append_right _ (List.mem_singleton_self r))
    rw [sweepRun_concat]
    by_cases hskip : r.hi ≤ (sweepRun free a rs).1
    · rw [sweepStep, if_pos hskip]
      exact ⟨hcursor, hpieces⟩
    · rw [sweepStep_of_lt (not_le.mp hskip)]
      refine ⟨hhi, fun s hs ↦ ?_⟩
      rcases List.mem_append.mp hs with hs | hs
      · rcases List.mem_append.mp hs with hs | hs
        · exact hpieces s hs
        · obtain ⟨rfl, -⟩ := mem_gapPiece hs
          exact ⟨hcursor, hlo⟩
      · rw [List.mem_singleton.mp hs, ownPiece]
        refine ⟨?_, hhi⟩
        split
        · exact hcursor
        · exact hlo

theorem sweep_ends {P : α → Prop} (ha : P a) (hb : P b) (hrs : ∀ r ∈ rs, P r.lo ∧ P r.hi)
    {s : Segment α τ} (hs : s ∈ sweep free a b rs) : P s.lo ∧ P s.hi := by
  have hends : P (sweepRun free a rs).1 ∧ ∀ t ∈ (sweepRun free a rs).2, P t.lo ∧ P t.hi :=
    sweepRun_ends ha hrs
  obtain ⟨hcursor, hpieces⟩ := hends
  rcases List.mem_append.mp hs with hs | hs
  · exact hpieces s hs
  · split at hs
    · rw [List.mem_singleton.mp hs]
      exact ⟨hcursor, hb⟩
    · exact absurd hs List.not_mem_nil

/-- **The sweep tiles the window.** -/
theorem tiles_sweep (hab : a ≤ b) (h : Sweepable free a b rs) : Tiles a (sweep free a b rs) b := by
  have hinv := sweepRun_inv (a := a) h.sorted h.nonempty h.label_ne
  have hle : (sweepRun free a rs).1 ≤ b := sweepRun_fst_le hab fun r hr ↦ (h.inside r hr).2
  rw [sweep]
  by_cases hlt : (sweepRun free a rs).1 < b
  · rw [if_pos hlt]
    exact hinv.tiles.append ⟨rfl, hlt, rfl⟩
  · rw [if_neg hlt, List.append_nil]
    have hend := hinv.tiles
    rwa [le_antisymm hle (not_lt.mp hlt)] at hend

theorem length_sweepRun_le : (sweepRun free a rs).2.length ≤ 2 * rs.length := by
  induction rs using List.reverseRecOn with
  | nil => exact le_rfl
  | append_singleton rs r ih =>
    rw [sweepRun_concat, sweepStep, List.length_append, List.length_singleton]
    split
    · omega
    · simp only [List.length_append, List.length_singleton]
      split
      · rw [List.length_singleton]
        omega
      · rw [List.length_nil]
        omega

theorem length_sweep_le : (sweep free a b rs).length ≤ 2 * rs.length + 1 := by
  have hrun : (sweepRun free a rs).2.length ≤ 2 * rs.length := length_sweepRun_le
  rw [sweep, List.length_append]
  split
  · rw [List.length_singleton]
    omega
  · rw [List.length_nil]
    omega

/-- **Taken points.** A point of the window lies in a piece that is not free exactly when it lies
under some interval. -/
theorem exists_taken_iff (hab : a ≤ b) (h : Sweepable free a b rs) (x : α) :
    (∃ s ∈ sweep free a b rs, s.label ≠ free ∧ x ∈ s.points) ↔ ∃ r ∈ rs, x ∈ r.points := by
  have hinv := sweepRun_inv (a := a) h.sorted h.nonempty h.label_ne
  -- a piece comes from the run or is the free rest
  have hpiece : ∀ s ∈ sweep free a b rs, s ∈ (sweepRun free a rs).2 ∨
      s = ⟨(sweepRun free a rs).1, b, free⟩ := by
    intro s hs
    rcases List.mem_append.mp hs with hs | hs
    · exact Or.inl hs
    · split at hs
      · exact Or.inr (List.mem_singleton.mp hs)
      · exact absurd hs List.not_mem_nil
  constructor
  · rintro ⟨s, hs, hlabel, hx⟩
    rcases hpiece s hs with hs | rfl
    · obtain ⟨r, hr, -, hsub⟩ := hinv.taken s hs hlabel
      exact ⟨r, hr, hsub hx⟩
    · exact absurd rfl hlabel
  · rintro ⟨r, hr, hx⟩
    have hwindow : a ≤ x ∧ x < b := ⟨(h.inside r hr).1.trans hx.1, hx.2.trans_le (h.inside r hr).2⟩
    obtain ⟨s, hs, hxs⟩ := ((tiles_sweep hab h).exists_mem_iff x).mpr hwindow
    refine ⟨s, hs, fun hfree ↦ ?_, hxs⟩
    rcases hpiece s hs with hs | rfl
    · exact hinv.freeClear s hs hfree r hr x hxs hx
    · exact absurd ((hinv.passed r hr).trans hxs.1) (not_le.mpr hx.2)

end IntervalSweep
