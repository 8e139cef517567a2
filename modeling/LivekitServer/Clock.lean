import Mathlib.Data.Int.Basic
import Mathlib.Tactic.Linarith
import Mathlib.Tactic.NormNum

/-!
# 64-bit integers and the system clock

Durations and time points count ticks or seconds in a 64-bit integer. Sums are taken modulo
`2 ^ 64`, as the machine takes them. The clock ticks a fixed whole number of times a second, and
`duration_cast` to seconds truncates towards zero.
-/

namespace LivekitServer

def InInt64 (n : ℤ) : Prop := -2 ^ 63 ≤ n ∧ n < 2 ^ 63

instance (n : ℤ) : Decidable (InInt64 n) := inferInstanceAs (Decidable (_ ∧ _))

theorem inInt64_zero : InInt64 0 := by decide

def InInt32 (n : ℤ) : Prop := -2 ^ 31 ≤ n ∧ n < 2 ^ 31

instance (n : ℤ) : Decidable (InInt32 n) := inferInstanceAs (Decidable (_ ∧ _))

def wrapInt64 (n : ℤ) : ℤ := (n + 2 ^ 63) % 2 ^ 64 - 2 ^ 63

theorem inInt64_wrapInt64 (n : ℤ) : InInt64 (wrapInt64 n) := by
  unfold InInt64 wrapInt64
  omega

theorem wrapInt64_eq {n : ℤ} (h : InInt64 n) : wrapInt64 n = n := by
  unfold InInt64 at h
  unfold wrapInt64
  omega

structure SystemClock where
  ticksPerSecond : ℕ
  ticks_pos : 0 < ticksPerSecond

/-- The clock of libstdc++. -/
def SystemClock.nanoseconds : SystemClock := ⟨1000000000, by decide⟩

structure TimePoint where
  ticks : ℤ
  inRange : InInt64 ticks

/-- Second 1700000000 of the clock of libstdc++. -/
def sampleNow : TimePoint := ⟨1700000000000000000, by decide⟩

namespace SystemClock

variable (clock : SystemClock)

/-- `duration_cast<seconds>(t.time_since_epoch()).count()`. -/
def secondsSinceEpoch (t : TimePoint) : ℤ := t.ticks.tdiv clock.ticksPerSecond

/-- `time_point(std::chrono::seconds(n))`. -/
def timePoint (n : ℤ) : TimePoint :=
  ⟨wrapInt64 (n * clock.ticksPerSecond), inInt64_wrapInt64 _⟩

/-- `duration_cast<seconds>(duration::max()).count()`. -/
def maxSeconds : ℤ := (2 ^ 63 - 1 : ℤ).tdiv clock.ticksPerSecond

theorem inInt64_secondsSinceEpoch (t : TimePoint) : InInt64 (clock.secondsSinceEpoch t) := by
  have hrange := t.inRange
  have habs : (t.ticks.tdiv clock.ticksPerSecond).natAbs ≤ t.ticks.natAbs :=
    Int.natAbs_tdiv_le_natAbs _ _
  have hup : 0 ≤ t.ticks → 0 ≤ t.ticks.tdiv clock.ticksPerSecond := fun h =>
    Int.tdiv_nonneg h (Int.natCast_nonneg _)
  have hdown : t.ticks ≤ 0 → 0 ≤ (-t.ticks).tdiv clock.ticksPerSecond := fun h =>
    Int.tdiv_nonneg (by omega) (Int.natCast_nonneg _)
  rw [Int.neg_tdiv] at hdown
  unfold InInt64 at *
  unfold secondsSinceEpoch
  omega

theorem maxSeconds_lt : clock.maxSeconds < 2 ^ 63 := by
  have habs : ((2 ^ 63 - 1 : ℤ).tdiv clock.ticksPerSecond).natAbs ≤ (2 ^ 63 - 1 : ℤ).natAbs :=
    Int.natAbs_tdiv_le_natAbs _ _
  unfold maxSeconds
  omega

theorem inInt64_of_le_maxSeconds {n : ℤ} (hpos : 0 ≤ n) (hmax : n ≤ clock.maxSeconds) :
    InInt64 n := by
  have hlt := clock.maxSeconds_lt
  unfold InInt64
  omega

theorem secondsSinceEpoch_timePoint {n : ℤ} (h : InInt64 (n * clock.ticksPerSecond)) :
    clock.secondsSinceEpoch (clock.timePoint n) = n := by
  have hpos := clock.ticks_pos
  have hticks : (clock.timePoint n).ticks = n * clock.ticksPerSecond := wrapInt64_eq h
  unfold secondsSinceEpoch
  rw [hticks]
  exact Int.mul_tdiv_cancel n (by omega)

end SystemClock
end LivekitServer
