import CaribeOS.Foundation.Runs
import Mathlib.Data.Nat.Bitwise

/-!
# The booter's timer

`rdtime64` (`booter/trap.c`) reads the 64-bit clock in two halves, and `wr_stimecmp` sets the
comparator in three writes, while the clock goes on. An interrupt is pending whenever the comparator
is not above the clock, between any two of those writes as well.

`rdtime64_exact`: the two halves belong together. `ticks_not_early`: in every run of the handler the
count of ticks never runs ahead of the clock, and no write on the way makes an interrupt pending.
-/

namespace CaribeOS.Timer

/-- The clock at the moments at which the hart executes an instruction on a CSR. It does not go back,
and its upper half has not reached the last value, which takes 58000 years at 10 MHz. -/
structure Clock where
  time : ℕ → ℕ
  mono : Monotone time
  lt : ∀ i, time i < 0xffffffff00000000

/-! ## The two halves of a register -/

def high (x : UInt64) : UInt32 := (x >>> 32).toUInt32

def low (x : UInt64) : UInt32 := x.toUInt32

/-- `((uint64_t)hi << 32) | lo`. -/
def pair (hi lo : UInt32) : UInt64 := hi.toUInt64 <<< 32 ||| lo.toUInt64

theorem toNat_high (x : UInt64) : (high x).toNat = x.toNat / 2 ^ 32 := by
  have hx := x.toNat_lt
  have hshift : (x >>> 32).toNat = x.toNat / 2 ^ 32 := by
    rw [UInt64.toNat_shiftRight, Nat.shiftRight_eq_div_pow]
    rfl
  rw [high, UInt64.toNat_toUInt32, hshift]
  omega

theorem toNat_low (x : UInt64) : (low x).toNat = x.toNat % 2 ^ 32 := UInt64.toNat_toUInt32 x

theorem toNat_pair (hi lo : UInt32) : (pair hi lo).toNat = hi.toNat * 2 ^ 32 + lo.toNat := by
  have hhi := hi.toNat_lt
  have hshift : (hi.toUInt64 <<< 32).toNat = hi.toNat <<< 32 := by
    rw [UInt64.toNat_shiftLeft, UInt32.toNat_toUInt64]
    refine Nat.mod_eq_of_lt ?_
    change hi.toNat <<< 32 < 2 ^ 64
    rw [Nat.shiftLeft_eq]
    omega
  rw [pair, UInt64.toNat_or, hshift, UInt32.toNat_toUInt64,
    ← Nat.shiftLeft_add_eq_or_of_lt lo.toNat_lt, Nat.shiftLeft_eq]

/-! ## Reading the clock -/

/-- `rdtime64`, from the `i`-th instruction on, with a bound on its rounds: the value, and the number
of the instruction after it. The kernel's `csr_read_time` is the same loop. -/
def rdtime64 (clock : Clock) : ℕ → ℕ → Option (UInt64 × ℕ)
  | 0, _ => none
  | fuel + 1, i =>
    let hi1 := high (.ofNat (clock.time i))
    let lo := low (.ofNat (clock.time (i + 1)))
    let hi2 := high (.ofNat (clock.time (i + 2)))
    if hi1 ≠ hi2 then rdtime64 clock fuel (i + 3) else some (pair hi2 lo, i + 3)

variable {clock : Clock}

theorem toNat_ofNat_time (clock : Clock) (i : ℕ) : (UInt64.ofNat (clock.time i)).toNat = clock.time i :=
  Nat.mod_eq_of_lt (lt_trans (clock.lt i) (by decide))

theorem high_eq_iff (i j : ℕ) : high (.ofNat (clock.time i)) = high (.ofNat (clock.time j)) ↔
    clock.time i / 2 ^ 32 = clock.time j / 2 ^ 32 := by
  rw [← UInt32.toNat_inj, toNat_high, toNat_high, toNat_ofNat_time, toNat_ofNat_time]

/-- A value that is returned is that of the clock when the lower half was read. -/
theorem rdtime64_eq {fuel i n : ℕ} {now : UInt64} (h : rdtime64 clock fuel i = some (now, n)) :
    ∃ k, i ≤ k ∧ k < n ∧ now.toNat = clock.time k := by
  induction fuel generalizing i with
  | zero => cases h
  | succ fuel ih =>
    rw [rdtime64] at h
    split_ifs at h with hne
    · obtain ⟨k, hle, hlt, heq⟩ := ih h
      exact ⟨k, by omega, hlt, heq⟩
    · obtain ⟨rfl, rfl⟩ := Prod.mk.inj (Option.some.inj h)
      rw [not_not, high_eq_iff] at hne
      -- the upper half is the same before and after, so it is the same in between
      have hfirst := clock.mono (Nat.le_succ i)
      have hsecond := clock.mono (Nat.le_succ (i + 1))
      refine ⟨i + 1, by omega, by omega, ?_⟩
      rw [toNat_pair, toNat_high, toNat_low, toNat_ofNat_time, toNat_ofNat_time]
      change clock.time i ≤ clock.time (i + 1) at hfirst
      change clock.time (i + 1) ≤ clock.time (i + 2) at hsecond
      omega

/-- **The clock is read in one piece.** If the lower half does not run through all its values during
six instructions, two rounds are enough, and the value is that of the clock at one moment of the
call. -/
theorem rdtime64_exact {i : ℕ} (hspan : clock.time (i + 5) < clock.time i + 2 ^ 32) :
    ∀ fuel ≥ 2, ∃ now n k, rdtime64 clock fuel i = some (now, n) ∧ n ≤ i + 6 ∧ i ≤ k ∧ k < n ∧
      now.toNat = clock.time k := by
  intro fuel hfuel
  obtain ⟨fuel, rfl⟩ : ∃ n, fuel = n + 2 := ⟨fuel - 2, by omega⟩
  have hreturns : ∃ now n, rdtime64 clock (fuel + 2) i = some (now, n) ∧ n ≤ i + 6 := by
    rw [rdtime64]
    split_ifs with hne
    · have hagain : high (.ofNat (clock.time (i + 3))) = high (.ofNat (clock.time (i + 3 + 2))) := by
        rw [ne_eq, high_eq_iff] at hne
        rw [high_eq_iff]
        have hstart := clock.mono (by omega : i ≤ i + 2)
        have hmiddle := clock.mono (by omega : i + 2 ≤ i + 3)
        have hend := clock.mono (Nat.le_add_right (i + 3) 2)
        change clock.time (i + 3 + 2) < _ at hspan
        omega
      rw [rdtime64, if_neg (not_not.mpr hagain)]
      exact ⟨_, _, rfl, le_rfl⟩
    · exact ⟨_, _, rfl, by omega⟩
  obtain ⟨now, n, hread, hn⟩ := hreturns
  obtain ⟨k, hle, hlt, heq⟩ := rdtime64_eq hread
  exact ⟨now, n, k, hread, hn, hle, hlt, heq⟩

/-- A clock whose upper half changes after the first moment. -/
def coarseClock : Clock where
  time i := min (4294967295 + 50000 * i) 5000000000
  mono i j h := by
    dsimp only
    omega
  lt i := lt_of_le_of_lt (min_le_right _ _) (by decide)

/-- The first round sees the change, and the second one returns. -/
theorem rdtime64_exact_coarse : rdtime64 coarseClock 1 0 = none ∧
    ∃ now n k, rdtime64 coarseClock 2 0 = some (now, n) ∧ n ≤ 6 ∧ 0 ≤ k ∧ k < n ∧
      now.toNat = coarseClock.time k :=
  ⟨by decide, rdtime64_exact (by decide) 2 le_rfl⟩

/-! ## Setting the comparator -/

def csrwStimecmp (cmp : UInt64) (lo : UInt32) : UInt64 := pair (high cmp) lo

def csrwStimecmph (cmp : UInt64) (hi : UInt32) : UInt64 := pair hi (low cmp)

/-- `wr_stimecmp`: the comparator after each of the writes. -/
def wrStimecmp (val cmp : UInt64) : List UInt64 :=
  let first := csrwStimecmph cmp 0xffffffff
  let second := csrwStimecmp first (low val)
  [first, second, csrwStimecmph second (high val)]

/-- The last write leaves the value that was asked for, and none of them one that the clock has
reached before that. -/
theorem wrStimecmp_spec (clock : Clock) (val cmp : UInt64) :
    (wrStimecmp val cmp).getLast? = some val ∧
      ∀ c ∈ wrStimecmp val cmp, ∀ i, c.toNat ≤ clock.time i → val.toNat ≤ clock.time i := by
  have hlast : csrwStimecmph (csrwStimecmp (csrwStimecmph cmp 0xffffffff) (low val)) (high val)
      = val := by
    rw [← UInt64.toNat_inj, csrwStimecmph, toNat_pair, toNat_high, toNat_low, csrwStimecmp,
      toNat_pair, toNat_low]
    omega
  -- with the upper half at its last value, the comparator is above every clock
  have habove : ∀ lo i, ¬(pair 0xffffffff lo).toNat ≤ clock.time i := by
    intro lo i
    rw [toNat_pair, not_le]
    exact lt_of_lt_of_le (clock.lt i) (Nat.le_add_right _ _)
  have hsecond : csrwStimecmp (csrwStimecmph cmp 0xffffffff) (low val)
      = pair 0xffffffff (low val) := by
    rw [csrwStimecmp, csrwStimecmph]
    congr 1
    rw [← UInt32.toNat_inj, toNat_high, toNat_pair]
    have := (low cmp).toNat_lt
    change (4294967295 * 2 ^ 32 + _) / 2 ^ 32 = 4294967295
    omega
  rw [wrStimecmp, hlast, hsecond]
  refine ⟨rfl, ?_⟩
  simp only [List.forall_mem_cons, List.not_mem_nil, false_imp_iff, implies_true, and_true]
  exact ⟨fun i h ↦ absurd h (habove _ i), fun i h ↦ absurd h (habove _ i), fun i h ↦ h⟩

/-! ## The handler -/

/-- The comparator, `g_ticks`, and the number of the next instruction on a CSR. -/
structure State where
  moment : ℕ
  stimecmp : UInt64
  ticks : UInt32

/-- An interrupt is pending. -/
def Pending (clock : Clock) (cmp : UInt64) (i : ℕ) : Prop := cmp.toNat ≤ clock.time i
  deriving Decidable

/-- `now + 100000`, and the three writes: what `timer_init` and the handler have in common. -/
def arm (now cmp : UInt64) : List UInt64 := wrStimecmp (now + 100000) cmp

/-- The branch of `trap_handle_c` for the timer. The interrupt is taken at `a.1`; `console_on_tick` is
done at `a.2`, and the clock is then read in at most `fuel` rounds. -/
def timerStep (clock : Clock) (fuel : ℕ) (s : State) (a : ℕ × ℕ) : Option State := do
  guard (s.moment ≤ a.1 ∧ Pending clock s.stimecmp a.1 ∧ a.1 ≤ a.2)
  let (now, n) ← rdtime64 clock fuel a.2
  let cmp ← (arm now s.stimecmp).getLast?
  pure ⟨n + 3, cmp, s.ticks + 1⟩

theorem toNat_deadline {now : UInt64} {k : ℕ} (h : now.toNat = clock.time k) :
    (now + 100000).toNat = clock.time k + 100000 := by
  have hlt := clock.lt k
  rw [UInt64.toNat_add, h]
  change (clock.time k + 100000) % 2 ^ 64 = _
  omega

/-- **Step lemma.** A tick counts one, and puts the comparator at 100000 or more above what it was. -/
theorem timerStep_spec {fuel : ℕ} {s t : State} {a : ℕ × ℕ}
    (h : timerStep clock fuel s a = some t) :
    t.ticks = s.ticks + 1 ∧ s.stimecmp.toNat + 100000 ≤ t.stimecmp.toNat := by
  obtain ⟨_, hguard, h⟩ := Option.bind_eq_some_iff.mp h
  obtain ⟨⟨now, n⟩, hread, h⟩ := Option.bind_eq_some_iff.mp h
  obtain ⟨cmp, hlast, h⟩ := Option.bind_eq_some_iff.mp h
  rw [arm, (wrStimecmp_spec clock _ _).1, Option.some_inj] at hlast
  obtain rfl := Option.some.inj h
  obtain ⟨k, hle, -, hnow⟩ := rdtime64_eq hread
  have hpending : s.moment ≤ a.1 ∧ Pending clock s.stimecmp a.1 ∧ a.1 ≤ a.2 :=
    (Option.guard_eq_some' _).mp hguard
  have hclock := clock.mono (hpending.2.2.trans hle)
  refine ⟨rfl, ?_⟩
  change _ ≤ cmp.toNat
  rw [← hlast, toNat_deadline hnow]
  exact Nat.add_le_add_right (hpending.2.1.trans hclock) _

/-- **The ticks are not early.** After `timer_init` has armed the timer at `now`, a run of any length,
with any bound on the rounds in which the clock is read, counts its ticks, and the interrupt for the
next one is pending only when the clock has gone 100000 further for each of them; the writes of the
handler do not make it pending before the time either. -/
theorem ticks_not_early {clock : Clock} {now : UInt64} {k n : ℕ} (hnow : now.toNat = clock.time k)
    {fuel : ℕ} {as : List (ℕ × ℕ)} {s : State}
    (h : Runs.run (timerStep clock fuel) ⟨n, now + 100000, 0⟩ as = some s) :
    s.ticks = .ofNat as.length ∧
      (∀ i, Pending clock s.stimecmp i → clock.time k + (as.length + 1) * 100000 ≤ clock.time i) ∧
      ∀ i now' cmp, now'.toNat = clock.time i → ∀ c ∈ arm now' cmp, ∀ j, Pending clock c j →
        clock.time i + 100000 ≤ clock.time j := by
  have hrun : ∀ (as : List (ℕ × ℕ)) (s t : State), Runs.run (timerStep clock fuel) s as = some t →
      t.ticks = s.ticks + .ofNat as.length ∧
        s.stimecmp.toNat + as.length * 100000 ≤ t.stimecmp.toNat := by
    intro as
    induction as with
    | nil =>
      intro s t h
      obtain rfl := Option.some.inj h
      exact ⟨(UInt32.add_zero _).symm, by simp⟩
    | cons a as ih =>
      intro s t h
      obtain ⟨u, hstep, hrest⟩ := Option.bind_eq_some_iff.mp h
      obtain ⟨hticks, hcmp⟩ := timerStep_spec hstep
      obtain ⟨hticks', hcmp'⟩ := ih u t hrest
      refine ⟨?_, ?_⟩
      · rw [hticks', hticks, List.length_cons, UInt32.add_assoc, UInt32.ofNat_add, UInt32.add_comm 1]
        rfl
      · rw [List.length_cons]
        omega
  obtain ⟨hticks, hcmp⟩ := hrun as _ s h
  change (now + 100000).toNat + _ ≤ _ at hcmp
  rw [toNat_deadline hnow] at hcmp
  refine ⟨hticks.trans (UInt32.zero_add _), fun i hi ↦ ?_, ?_⟩
  · have hle := hcmp.trans hi
    omega
  · intro i now' cmp hnow' c hc j hj
    rw [← toNat_deadline hnow']
    exact (wrStimecmp_spec clock _ _).2 c hc j hj

/-- The first tick, once the clock has come to the deadline. -/
theorem ticks_not_early_coarse : ∃ s,
    Runs.run (timerStep coarseClock 3) ⟨0, 4295067295, 0⟩ [(2, 2)] = some s ∧ s.ticks = 1 ∧
      ∀ i, Pending coarseClock s.stimecmp i →
        coarseClock.time 0 + 2 * 100000 ≤ coarseClock.time i := by
  have hrun : Runs.run (timerStep coarseClock 3) ⟨0, 4294967295 + 100000, 0⟩ [(2, 2)]
      = some ⟨8, 4295217295, 1⟩ := by rfl
  obtain ⟨hticks, hpending, -⟩ := ticks_not_early (k := 0) rfl hrun
  exact ⟨_, hrun, hticks, hpending⟩

end CaribeOS.Timer
