import Mathlib.Data.Nat.Basic

/-!
# Report/Averages — samples, and the averages of a period

The two messages that carry measurements between tasks, and `data_process_task`, which turns the
samples of a minute into one average.
-/

namespace GrainWarehouse

/-- `env_sample_t`. -/
structure EnvSample where
  errBits : UInt8
  temperature : UInt8
  humidity : UInt8
  /-- `0` wet, `1` dry. -/
  rainStatus : UInt8
  co2Value : UInt16
  coValue : UInt16
  deriving DecidableEq

/-- `env_avg_t`. -/
structure EnvAvg where
  errBits : UInt8
  tempAvgX10 : UInt16
  humiAvgX10 : UInt16
  /-- `0` dry, `1` wet. -/
  rainFlag : UInt8
  co2Avg : UInt16
  coAvg : UInt16
  sampleCount : UInt32
  deriving DecidableEq

/-- Error bit `n` is clear. -/
def Fine (err : UInt8) (n : ℕ) : Prop := err &&& (1 <<< UInt8.ofNat n) = 0

instance (err : UInt8) (n : ℕ) : Decidable (Fine err n) := inferInstanceAs (Decidable (_ = _))

/-- The local variables of `data_process_task`. -/
structure DataProcess where
  tempSum : UInt32
  humiSum : UInt32
  co2Sum : UInt32
  coSum : UInt32
  rainSum : UInt32
  cnt : UInt32
  lastErr : UInt8
  periodStart : UInt32
  deriving DecidableEq

/-- `data_process_task` at the start of a period. -/
def DataProcess.start (lastErr : UInt8) (periodStart : UInt32) : DataProcess where
  tempSum := 0
  humiSum := 0
  co2Sum := 0
  coSum := 0
  rainSum := 0
  cnt := 0
  lastErr := lastErr
  periodStart := periodStart

namespace DataProcess

/-- A sample is added to the sums of the sensors that have no error. -/
def add (sample : EnvSample) (p : DataProcess) : DataProcess :=
  let ok := Fine sample.errBits
  { p with
    tempSum := if ok 0 then p.tempSum + sample.temperature.toUInt32 * 10 else p.tempSum
    humiSum := if ok 0 then p.humiSum + sample.humidity.toUInt32 * 10 else p.humiSum
    rainSum := if ok 1 then p.rainSum + (if sample.rainStatus ≠ 0 then 0 else 1) else p.rainSum
    co2Sum := if ok 3 then p.co2Sum + sample.co2Value.toUInt32 else p.co2Sum
    coSum := if ok 4 then p.coSum + sample.coValue.toUInt32 else p.coSum
    cnt := p.cnt + 1
    lastErr := sample.errBits }

/-- The averages of the period. -/
def average (p : DataProcess) : EnvAvg where
  errBits := p.lastErr
  tempAvgX10 := (p.tempSum / p.cnt).toUInt16
  humiAvgX10 := (p.humiSum / p.cnt).toUInt16
  co2Avg := (p.co2Sum / p.cnt).toUInt16
  coAvg := (p.coSum / p.cnt).toUInt16
  sampleCount := p.cnt
  rainFlag := if p.rainSum * 10 ≥ p.cnt * 3 then 1 else 0

/-- One round of `data_process_task`: it has waited for a sample, with or without success, and
ends the period when a minute is over. -/
def round (got : Option EnvSample) (now : UInt32) (p : DataProcess) : Option EnvAvg × DataProcess :=
  let p := got.elim p p.add
  if now - p.periodStart < 60000 then (none, p)
  else (if p.cnt = 0 then none else some p.average, start p.lastErr now)

end DataProcess

end GrainWarehouse
