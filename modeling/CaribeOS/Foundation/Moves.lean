import Mathlib.Data.List.Basic
import Mathlib.Logic.Function.Basic

/-!
# Moves

A block copy, a clearing loop, or any sequence of the two, is a list of *moves*: each puts a value
in one place, and the value is a constant or what stands in another place at that time. Where
sources and destinations overlap, a move may read what an earlier one has written.

If no place is written twice, `forall_run_iff` says exactly when the overlap does no harm: every
place ends with what the list was meant to put there iff no move reads a place that an earlier
move has given another value.
-/

namespace Moves

variable {α β : Type*} [DecidableEq α]

/-- Put into `dst` what stands in a place, or a constant. -/
structure Move (α β : Type*) where
  dst : α
  source : α ⊕ β

/-- The value that the move puts into its destination, in the memory `m`. -/
def Move.value (m : α → β) (mv : Move α β) : β := mv.source.elim m id

def Move.apply (m : α → β) (mv : Move α β) : α → β := Function.update m mv.dst (mv.value m)

/-- The moves, one after the other. -/
def run (m : α → β) (moves : List (Move α β)) : α → β := moves.foldl Move.apply m

theorem run_cons (m : α → β) (mv : Move α β) (moves : List (Move α β)) :
    run m (mv :: moves) = run (mv.apply m) moves := rfl

theorem run_append (m : α → β) (moves moves' : List (Move α β)) :
    run m (moves ++ moves') = run (run m moves) moves' := List.foldl_append

theorem run_concat (m : α → β) (mv : Move α β) (moves : List (Move α β)) :
    run m (moves ++ [mv]) = mv.apply (run m moves) := run_append m moves [mv]

theorem run_of_forall_ne {m : α → β} {moves : List (Move α β)} {x : α}
    (h : ∀ mv ∈ moves, mv.dst ≠ x) : run m moves x = m x := by
  induction moves generalizing m with
  | nil => rfl
  | cons mv moves ih =>
    rw [run_cons, ih fun q hq ↦ h q (List.mem_cons_of_mem _ hq), Move.apply,
      Function.update_of_ne (h mv List.mem_cons_self).symm]

theorem Move.value_apply_of_ne {m : α → β} {mv q : Move α β} (h : q.source ≠ .inl mv.dst) :
    q.value (mv.apply m) = q.value m := by
  rcases hq : q.source with a | c
  · have hne : a ≠ mv.dst := fun ha ↦ h (by rw [hq, ha])
    rw [value, value, hq, Sum.elim_inl, Sum.elim_inl, apply, Function.update_of_ne hne]
  · rw [value, value, hq, Sum.elim_inr, Sum.elim_inr]

theorem Move.value_apply_of_eq {m : α → β} {mv q : Move α β} (h : q.source = .inl mv.dst) :
    q.value (mv.apply m) = mv.value m := by
  rw [value, h, Sum.elim_inl, apply, Function.update_self]

theorem run_dst_of_source {m : α → β} {moves : List (Move α β)} {q : Move α β} {a : α}
    (hdst : moves.Pairwise fun p q ↦ p.dst ≠ q.dst) (hq : q ∈ moves) (hsource : q.source = .inl a)
    (ha : ∀ mv ∈ moves, mv.dst ≠ a) : run m moves q.dst = m a := by
  induction moves generalizing m with
  | nil => exact absurd hq List.not_mem_nil
  | cons p moves ih =>
    rw [List.pairwise_cons] at hdst
    rw [run_cons]
    rcases List.mem_cons.mp hq with rfl | hq
    · rw [run_of_forall_ne fun r hr ↦ (hdst.1 r hr).symm, Move.apply, Function.update_self,
        Move.value, hsource, Sum.elim_inl]
    · rw [ih hdst.2 hq fun r hr ↦ ha r (List.mem_cons_of_mem _ hr), Move.apply,
        Function.update_of_ne (ha p List.mem_cons_self).symm]

/-- No move reads a place that an earlier one has given another value. Both values are those of the
memory before the first move. -/
def Unharmed (m : α → β) (moves : List (Move α β)) : Prop :=
  moves.Pairwise fun p q ↦ q.source = .inl p.dst → p.value m = q.value m

instance [DecidableEq β] (m : α → β) (moves : List (Move α β)) : Decidable (Unharmed m moves) :=
  List.instDecidablePairwise moves

theorem Move.value_apply {m : α → β} {p q : Move α β}
    (h : q.source = .inl p.dst → p.value m = q.value m) : q.value (p.apply m) = q.value m := by
  by_cases hq : q.source = .inl p.dst
  · rw [value_apply_of_eq hq, h hq]
  · exact value_apply_of_ne hq

/-- **What a list of moves puts in place.** If no place is written twice, every destination ends
with the value meant for it iff the moves are unharmed. -/
theorem forall_run_iff {m : α → β} {moves : List (Move α β)}
    (hdst : moves.Pairwise fun p q ↦ p.dst ≠ q.dst) :
    (∀ mv ∈ moves, run m moves mv.dst = mv.value m) ↔ Unharmed m moves := by
  -- the induction carries the memory along: the first move may change what the rest reads
  induction moves generalizing m with
  | nil => exact ⟨fun _ ↦ List.Pairwise.nil, fun _ _ h ↦ absurd h List.not_mem_nil⟩
  | cons p moves ih =>
    rw [List.pairwise_cons] at hdst
    have hfirst : ∀ r ∈ moves, r.dst ≠ p.dst := fun r hr ↦ (hdst.1 r hr).symm
    have hunharmed : (∀ q ∈ moves, q.value (p.apply m) = q.value m) →
        (Unharmed (p.apply m) moves ↔ Unharmed m moves) := by
      intro hvalue
      refine List.Pairwise.iff_of_mem fun {q r} hq hr ↦ ?_
      rw [hvalue q hq, hvalue r hr]
    rw [Unharmed, List.pairwise_cons, ← Unharmed, List.forall_mem_cons]
    constructor
    · rintro ⟨-, hrest⟩
      have hhead : ∀ q ∈ moves, q.source = .inl p.dst → p.value m = q.value m := by
        intro q hq hsource
        rw [← hrest q hq, run_cons, run_dst_of_source hdst.2 hq hsource hfirst, Move.apply,
          Function.update_self]
      have hvalue : ∀ q ∈ moves, q.value (p.apply m) = q.value m :=
        fun q hq ↦ Move.value_apply (hhead q hq)
      refine ⟨hhead, (hunharmed hvalue).mp ((ih hdst.2).mp fun q hq ↦ ?_)⟩
      rw [hvalue q hq, ← hrest q hq, run_cons]
    · rintro ⟨hhead, hrest⟩
      have hvalue : ∀ q ∈ moves, q.value (p.apply m) = q.value m :=
        fun q hq ↦ Move.value_apply (hhead q hq)
      refine ⟨?_, fun q hq ↦ ?_⟩
      · rw [run_cons, run_of_forall_ne hfirst, Move.apply, Function.update_self]
      · rw [run_cons, (ih hdst.2).mpr ((hunharmed hvalue).mpr hrest) q hq, hvalue q hq]

end Moves
