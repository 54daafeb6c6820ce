import Mathlib.Data.List.Basic
import Mathlib.Tactic

/-!
# Runs of a transition system

A system moves by actions; an action that is not enabled gives `none`. Safety is proved along
`Reachable`, which asks a condition of every step taken; termination is proved along `run` with a
measure that some actions decrease and the others leave alone.
-/

namespace Runs

variable {S A : Type*} (step : S → A → Option S)

/-- Take the actions of a list one after the other. -/
def run : S → List A → Option S
  | s, [] => some s
  | s, a :: as => (step s a).bind fun t ↦ run t as

theorem run_append (s : S) (as bs : List A) :
    run step s (as ++ bs) = (run step s as).bind fun t ↦ run step t bs := by
  induction as generalizing s with
  | nil => rfl
  | cons a as ih =>
    rw [List.cons_append, run, run, Option.bind_assoc]
    exact congrArg _ (funext ih)

theorem run_append_of_eq {s t u : S} {as bs : List A} (h : run step s as = some t)
    (h' : run step t bs = some u) : run step s (as ++ bs) = some u := by
  rw [run_append, h, Option.bind_some, h']

/-- The states reached from `init` by steps that all meet the condition `ok`. -/
inductive Reachable (ok : S → A → Prop) (init : S) : S → Prop
  | start : Reachable ok init init
  | next {s t : S} {a : A} : Reachable ok init s → ok s a → step s a = some t → Reachable ok init t

variable {step} {ok : S → A → Prop} {init : S}

/-- **Invariants.** What holds at the start and is kept by every step that meets the condition holds
in every state reached. -/
theorem Reachable.invariant {s : S} (Inv : S → Prop) (h : Reachable step ok init s) (h0 : Inv init)
    (hstep : ∀ {s t a}, Inv s → ok s a → step s a = some t → Inv t) : Inv s := by
  induction h with
  | start => exact h0
  | next _ hok hs ih => exact hstep ih hok hs

/-- Take the actions of a list as long as they meet the condition. -/
def runWhile (step : S → A → Option S) (ok : S → A → Prop) [∀ s a, Decidable (ok s a)] :
    S → List A → Option S
  | s, [] => some s
  | s, a :: as => if ok s a then (step s a).bind fun t ↦ runWhile step ok t as else none

theorem Reachable.of_runWhile [∀ s a, Decidable (ok s a)] {s t : S} {as : List A}
    (hs : Reachable step ok init s) (h : runWhile step ok s as = some t) :
    Reachable step ok init t := by
  induction as generalizing s with
  | nil => rwa [← Option.some.inj h]
  | cons a as ih =>
    rw [runWhile] at h
    split_ifs at h with hok
    obtain ⟨u, hu, hrest⟩ := Option.bind_eq_some_iff.mp h
    exact ih (hs.next hok hu) hrest

/-- **Bounded progress.** If the actions that satisfy `p` decrease a measure and the others do not
increase it, a run takes no more of the former than the measure was at its start. -/
theorem countP_le_of_run {p q : A → Bool} {μ : S → ℕ}
    (hdec : ∀ {s t a}, q a = true → p a = true → step s a = some t → μ t < μ s)
    (hle : ∀ {s t a}, q a = true → step s a = some t → μ t ≤ μ s) {s t : S} {as : List A}
    (hq : ∀ a ∈ as, q a = true) (h : run step s as = some t) : as.countP p + μ t ≤ μ s := by
  induction as generalizing s with
  | nil =>
    obtain rfl : s = t := Option.some.inj h
    simp
  | cons a as ih =>
    obtain ⟨u, hu, hrun⟩ := Option.bind_eq_some_iff.mp h
    have hrest := ih (fun b hb ↦ hq b (List.mem_cons_of_mem _ hb)) hrun
    have ha := hq a List.mem_cons_self
    rw [List.countP_cons]
    split
    · have := hdec ha ‹_› hu
      omega
    · have := hle ha hu
      omega

end Runs
