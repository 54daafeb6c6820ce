import Mathlib.Algebra.Order.Ring.Nat
import Mathlib.Data.Prod.Lex
import CaribeOS.Stage0.Syscalls

/-!
# The clock of the Linux calls

`linux_time_now` turns the time counter into seconds and nanoseconds. It keeps the low 32 bits of
the counter, divides them by the frequency of the timebase and multiplies the remainder by a whole
number of nanoseconds per tick.

## Ticks as seconds and nanoseconds

Over the naturals the pair `(t / hz, t % hz * k)` is strictly increasing in `t` as long as
`1 ≤ k`, in the lexicographic order. So nothing the division does can make the clock run
backwards: the order of two readings is the order of the tick values they keep, and only the
narrowing of the counter can break it. In the same way the product stays below a second as long
as `hz * k` is at most a second, which the clamp of `k` to one gives up for frequencies above
one gigahertz.
-/

namespace CaribeOS

/-! ## Ticks over the naturals -/

/-- Seconds and subunits of `t` ticks at `hz` ticks a second and `k` subunits a tick. -/
def splitTicks (hz k t : ℕ) : ℕ ×ₗ ℕ := toLex (t / hz, t % hz * k)

theorem splitTicks_strictMono {k : ℕ} (hz : ℕ) (hk : 0 < k) : StrictMono (splitTicks hz k) := by
  intro s t hst
  rw [splitTicks, splitTicks, Prod.Lex.toLex_lt_toLex]
  rcases (Nat.div_le_div_right hst.le : s / hz ≤ t / hz).lt_or_eq with hlt | heq
  · exact Or.inl hlt
  · -- within one second the remainders are in the order of the ticks
    have hs := Nat.div_add_mod s hz
    have ht := Nat.div_add_mod t hz
    rw [heq] at hs
    have hmod : s % hz < t % hz := by omega
    exact Or.inr ⟨heq, Nat.mul_lt_mul_of_pos_right hmod hk⟩

/-- The subunits stay below a second when a second is at least `hz * k` of them. -/
theorem mod_mul_lt {hz k second : ℕ} (t : ℕ) (hhz : 0 < hz) (hk : 0 < k)
    (h : hz * k ≤ second) : t % hz * k < second :=
  calc t % hz * k < hz * k := Nat.mul_lt_mul_of_pos_right (t.mod_lt hhz) hk
    _ ≤ second := h

/-- When `hz` divides a second, seconds and subunits add up to the time without rounding. -/
theorem splitTicks_exact {hz second : ℕ} (t : ℕ) (hhz : 0 < hz) (h : hz ∣ second) :
    t / hz * second + t % hz * (second / hz) = t * second / hz := by
  obtain ⟨k, rfl⟩ := h
  rw [Nat.mul_div_cancel_left k hhz, ← Nat.mul_assoc, ← Nat.add_mul, Nat.div_add_mod',
    Nat.mul_left_comm t hz k, Nat.mul_div_cancel_left _ hhz]

/-! ## The clock of the kernel -/

/-- The frequency `linux_time_now` divides by. -/
def timebase (info : Stage0Info) : UInt32 :=
  if info.timebaseHz ≠ 0 then info.timebaseHz else 10000000

/-- The nanoseconds `linux_time_now` counts for a tick. -/
def nsPerTick (hz : UInt32) : UInt32 := if 1000000000 / hz = 0 then 1 else 1000000000 / hz

theorem timebase_ne_zero (info : Stage0Info) : timebase info ≠ 0 := by
  rw [timebase]
  split_ifs with h
  · exact h
  · decide

theorem timebase_pos (info : Stage0Info) : 0 < (timebase info).toNat := by
  refine Nat.pos_of_ne_zero fun h ↦ timebase_ne_zero info ?_
  exact UInt32.toNat_inj.mp h

theorem linuxTimeNow_eq (info : Stage0Info) (time : UInt64) :
    linuxTimeNow info time = (time.toUInt32 / timebase info,
      time.toUInt32 % timebase info * nsPerTick (timebase info)) := by
  have h : linuxTimeNow info time =
      (if timebase info ≠ 0 then time.toUInt32 / timebase info else 0,
        if timebase info ≠ 0 then time.toUInt32 % timebase info *
          (if (if timebase info ≠ 0 then 1000000000 / timebase info else 100) = 0 then 1
            else if timebase info ≠ 0 then 1000000000 / timebase info else 100) else 0) := rfl
  rw [h]
  simp only [if_pos (timebase_ne_zero info)]
  rfl

theorem toNat_nsPerTick (hz : UInt32) : (nsPerTick hz).toNat = max (1000000000 / hz.toNat) 1 := by
  have hdiv : ((1000000000 : UInt32) / hz).toNat = 1000000000 / hz.toNat := UInt32.toNat_div _ _
  rw [nsPerTick, ← hdiv]
  split_ifs with h
  · rw [h]
    rfl
  · have hpos : 0 < ((1000000000 : UInt32) / hz).toNat :=
      Nat.pos_of_ne_zero fun h0 ↦ h (UInt32.toNat_inj.mp h0)
    exact (max_eq_left hpos).symm

theorem nsPerTick_pos (hz : UInt32) : 0 < (nsPerTick hz).toNat := by
  rw [toNat_nsPerTick]
  exact lt_max_of_lt_right Nat.one_pos

/-- Up to a gigahertz the ticks of a second make at most a second of nanoseconds. -/
theorem mul_nsPerTick_le {hz : UInt32} (hz0 : 0 < hz.toNat) (h : hz.toNat ≤ 1000000000) :
    hz.toNat * (nsPerTick hz).toNat ≤ 1000000000 := by
  have hdiv : 1 ≤ 1000000000 / hz.toNat := (Nat.one_le_div_iff hz0).mpr h
  rw [toNat_nsPerTick, max_eq_left hdiv]
  exact Nat.mul_div_le _ _

/-- Above a gigahertz a tick counts for one nanosecond. -/
theorem nsPerTick_of_lt {hz : UInt32} (h : 1000000000 < hz.toNat) : (nsPerTick hz).toNat = 1 := by
  rw [toNat_nsPerTick, Nat.div_eq_of_lt h]
  rfl

/-- The product of `linux_time_now` is below `2 ^ 32`, whatever the frequency. -/
theorem mod_mul_nsPerTick_lt {hz : UInt32} (t : ℕ) (hz0 : 0 < hz.toNat) :
    t % hz.toNat * (nsPerTick hz).toNat < 2 ^ 32 := by
  rcases le_or_gt hz.toNat 1000000000 with h | h
  · exact (mod_mul_lt t hz0 (nsPerTick_pos hz) (mul_nsPerTick_le hz0 h)).trans (by decide)
  · rw [nsPerTick_of_lt h, Nat.mul_one]
    exact (t.mod_lt hz0).trans hz.toNat_lt

/-- The seconds and nanoseconds as numbers, in the order in which they are compared. -/
def timePair (info : Stage0Info) (time : UInt64) : ℕ ×ₗ ℕ :=
  toLex ((linuxTimeNow info time).1.toNat, (linuxTimeNow info time).2.toNat)

theorem toNat_linuxTimeNow_fst (info : Stage0Info) (time : UInt64) :
    (linuxTimeNow info time).1.toNat = time.toNat % 2 ^ 32 / (timebase info).toNat := by
  rw [linuxTimeNow_eq, UInt32.toNat_div, UInt64.toNat_toUInt32]

theorem toNat_linuxTimeNow_snd (info : Stage0Info) (time : UInt64) :
    (linuxTimeNow info time).2.toNat =
      time.toNat % 2 ^ 32 % (timebase info).toNat * (nsPerTick (timebase info)).toNat := by
  rw [linuxTimeNow_eq, UInt32.toNat_mul, UInt32.toNat_mod, UInt64.toNat_toUInt32,
    Nat.mod_eq_of_lt (mod_mul_nsPerTick_lt _ (timebase_pos info))]

theorem timePair_eq (info : Stage0Info) (time : UInt64) :
    timePair info time =
      splitTicks (timebase info).toNat (nsPerTick (timebase info)).toNat (time.toNat % 2 ^ 32) := by
  rw [timePair, toNat_linuxTimeNow_fst, toNat_linuxTimeNow_snd, splitTicks]

/-- **The clock and the counter.** Of two readings the clock gives the later the larger time
exactly when the low words of the counter are in that order. -/
theorem timePair_le_iff (info : Stage0Info) (t₁ t₂ : UInt64) :
    timePair info t₁ ≤ timePair info t₂ ↔ t₁.toNat % 2 ^ 32 ≤ t₂.toNat % 2 ^ 32 := by
  rw [timePair_eq, timePair_eq]
  exact (splitTicks_strictMono _ (nsPerTick_pos _)).le_iff_le

/-- The largest reading whose high word is zero, and the next one: the clock falls back to zero. -/
theorem clock_runs_backwards :
    (0xffffffff : UInt64) ≤ 0x100000000 ∧
      ¬timePair { kernelSize := 0, timebaseHz := 10000000 } 0xffffffff ≤
        timePair { kernelSize := 0, timebaseHz := 10000000 } 0x100000000 := by
  refine ⟨by decide, ?_⟩
  decide

/-! ## Valid and accurate nanoseconds -/

/-- What the callers of the clock rely on: the nanoseconds are less than a second, the product
they are computed by fits 32 bits, and where a tick is a whole number of nanoseconds the pair is
the exact time. -/
structure ValidTime (info : Stage0Info) (time : UInt64) : Prop where
  nsec_lt : (linuxTimeNow info time).2.toNat < 1000000000
  no_overflow : (time.toUInt32 % timebase info).toNat * (nsPerTick (timebase info)).toNat < 2 ^ 32
  exact_of_dvd : (timebase info).toNat ∣ 1000000000 →
    (linuxTimeNow info time).1.toNat * 1000000000 + (linuxTimeNow info time).2.toNat =
      time.toUInt32.toNat * 1000000000 / (timebase info).toNat

theorem nsec_lt_iff (info : Stage0Info) (time : UInt64) :
    (linuxTimeNow info time).2.toNat < 1000000000 ↔
      (timebase info).toNat ≤ 1000000000 ∨
        time.toUInt32.toNat % (timebase info).toNat < 1000000000 := by
  rw [toNat_linuxTimeNow_snd, UInt64.toNat_toUInt32]
  rcases le_or_gt (timebase info).toNat 1000000000 with h | h
  · have hlt := mod_mul_lt (time.toNat % 2 ^ 32) (timebase_pos info) (nsPerTick_pos _)
      (mul_nsPerTick_le (timebase_pos info) h)
    exact iff_of_true hlt (Or.inl h)
  · rw [nsPerTick_of_lt h, Nat.mul_one, or_iff_right h.not_ge]

theorem linuxTimeNow_exact (info : Stage0Info) (time : UInt64)
    (h : (timebase info).toNat ∣ 1000000000) :
    (linuxTimeNow info time).1.toNat * 1000000000 + (linuxTimeNow info time).2.toNat =
      time.toUInt32.toNat * 1000000000 / (timebase info).toNat := by
  have hle : 1 ≤ 1000000000 / (timebase info).toNat :=
    (Nat.one_le_div_iff (timebase_pos info)).mpr (Nat.le_of_dvd (by decide) h)
  rw [toNat_linuxTimeNow_fst, toNat_linuxTimeNow_snd, toNat_nsPerTick, max_eq_left hle,
    splitTicks_exact _ (timebase_pos info) h, UInt64.toNat_toUInt32]

/-- **When the nanoseconds are valid.** The clamp of the nanoseconds per tick to one is the only
defect: above a gigahertz the remainder itself is returned, whatever its size. -/
theorem validTime_iff (info : Stage0Info) (time : UInt64) :
    ValidTime info time ↔
      (timebase info).toNat ≤ 1000000000 ∨
        time.toUInt32.toNat % (timebase info).toNat < 1000000000 := by
  rw [← nsec_lt_iff]
  refine ⟨fun h ↦ h.nsec_lt, fun h ↦ ⟨h, ?_, linuxTimeNow_exact info time⟩⟩
  exact mod_mul_nsPerTick_lt _ (timebase_pos info)

/-- At two gigahertz, three quarters of a second are reported as 1.5e9 nanoseconds. -/
theorem nanoseconds_beyond_second :
    ¬ValidTime { kernelSize := 0, timebaseHz := 2000000000 } 1500000000 :=
  fun h ↦ absurd h.nsec_lt (by decide)

end CaribeOS
