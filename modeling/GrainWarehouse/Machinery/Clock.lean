import Mathlib.Algebra.Order.Group.Nat

/-!
# Machinery/Clock — a tick counter that wraps

A 32-bit counter shows the true time modulo `2 ^ 32`.  **The difference of two readings is the time
between them, if it is less than a round of the counter** (`toNat_tick_sub`), and so is a comparison
with a period (`le_tick_sub_iff`).
-/

namespace GrainWarehouse

/-- What the counter shows at a time. -/
def tick (t : ℕ) : UInt32 := UInt32.ofNat t

theorem toNat_tick (t : ℕ) : (tick t).toNat = t % 2 ^ 32 := UInt32.toNat_ofNat'

/-- **The counter measures time**, up to a round of it… -/
theorem toNat_tick_sub {a b : ℕ} (hle : a ≤ b) (hlt : b < a + 2 ^ 32) :
    (tick b - tick a).toNat = b - a := by
  rw [UInt32.toNat_sub, toNat_tick, toNat_tick]
  omega

/-- …and so it tells whether a period is over… -/
theorem le_tick_sub_iff {a b : ℕ} (hle : a ≤ b) (hlt : b < a + 2 ^ 32) (period : UInt32) :
    period ≤ tick b - tick a ↔ period.toNat ≤ b - a := by
  rw [UInt32.le_iff_toNat_le, toNat_tick_sub hle hlt]

/-- …or not. -/
theorem tick_sub_lt_iff {a b : ℕ} (hle : a ≤ b) (hlt : b < a + 2 ^ 32) (period : UInt32) :
    tick b - tick a < period ↔ b - a < period.toNat := by
  rw [UInt32.lt_iff_toNat_lt, toNat_tick_sub hle hlt]

end GrainWarehouse
