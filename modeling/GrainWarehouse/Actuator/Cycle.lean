import Mathlib
import GrainWarehouse.Actuator.Sensor
import GrainWarehouse.Machinery.Runs

/-!
# Actuator/Cycle — the drivers under the sensor task

`DHT11_Read_Data` and `MQ135_ReadCO2`, and the cycles of the sensor task over what the buses give.
The driver of the CO2 sensor replaces what it cannot read, and the task judges the value by the
range of an ADC.  **The error bit of the CO2 sensor says whether its readings fail exactly in the
runs without failures and without readings of 4096 or more** (`errBit_run_iff`), and **a decision
heeds a reading exactly when it is below 4096, or CO is high anyway** (`heeds_iff`).
-/

namespace GrainWarehouse

/-! ## The error bits -/

theorem toBitVec_shift {n : ℕ} (hn : n < 8) :
    ((1 : UInt8) <<< UInt8.ofNat n).toBitVec = BitVec.twoPow 8 n := by
  interval_cases n <;> rfl

/-- Error bit `n` as a bit. -/
theorem fine_iff_getLsbD {n : ℕ} (hn : n < 8) (err : UInt8) :
    Fine err n ↔ err.toBitVec.getLsbD n = false := by
  rw [Fine, ← UInt8.toBitVec_inj, UInt8.toBitVec_and, toBitVec_shift hn, BitVec.and_twoPow]
  cases err.toBitVec.getLsbD n
  · simp
  · simp only [if_true, Bool.true_eq_false, iff_false]
    interval_cases n <;> decide

/-- **`setErr` writes its own bit, and leaves the others alone.** -/
theorem fine_setErr {n m : ℕ} (hn : n < 8) (hm : m < 8) (ok : Bool) (err : UInt8) :
    Fine (setErr n ok err) m ↔ if m = n then ok = true else Fine err m := by
  rw [fine_iff_getLsbD hm, fine_iff_getLsbD hm]
  cases ok
  · rw [setErr, if_neg Bool.false_ne_true, UInt8.toBitVec_or, toBitVec_shift hn,
      BitVec.getLsbD_or, BitVec.getLsbD_twoPow]
    split_ifs with h
    · simp [h, hn]
    · simp [Ne.symm h]
  · rw [setErr, if_pos rfl, UInt8.toBitVec_and, UInt8.toBitVec_not, toBitVec_shift hn,
      BitVec.getLsbD_and, BitVec.getLsbD_not, BitVec.getLsbD_twoPow]
    split_ifs with h
    · simp [h, hn]
    · simp [Ne.symm h, hm]

/-- Error bit 0 of a sample is clear when the DHT11 was read… -/
@[simp] theorem fine_readSensors_dht (r : Readings) (s : SensorState) :
    Fine (readSensors r s).1.errBits 0 ↔ r.dhtOk = true := by
  simp [readSensors, fine_setErr]

/-- …bit 1 when the rain value is in range… -/
@[simp] theorem fine_readSensors_rain (r : Readings) (s : SensorState) :
    Fine (readSensors r s).1.errBits 1 ↔ inRange r.rainValue = true := by
  simp [readSensors, fine_setErr]

/-- …bit 3 when the CO2 value is… -/
@[simp] theorem fine_readSensors_co2 (r : Readings) (s : SensorState) :
    Fine (readSensors r s).1.errBits 3 ↔ inRange r.co2Value = true := by
  simp [readSensors, fine_setErr]

/-- …and bit 4 when the CO value is. -/
@[simp] theorem fine_readSensors_co (r : Readings) (s : SensorState) :
    Fine (readSensors r s).1.errBits 4 ↔ inRange r.coValue = true := by
  simp [readSensors, fine_setErr]

/-- A CO2 value in range is the one in the sample… -/
theorem co2Value_readSensors {r : Readings} (h : inRange r.co2Value = true) (s : SensorState) :
    (readSensors r s).1.co2Value = r.co2Value := if_pos h

/-- …and so is a CO value. -/
theorem coValue_readSensors {r : Readings} (h : inRange r.coValue = true) (s : SensorState) :
    (readSensors r s).1.coValue = r.coValue := if_pos h

/-! ## The drivers -/

/-- What the DHT11 sends in a `DHT11_Read_Data`. -/
structure Dht11 where
  /-- `DHT11_Check` returns 0. -/
  answers : Bool
  buf0 : UInt8
  buf1 : UInt8
  buf2 : UInt8
  buf3 : UInt8
  buf4 : UInt8

/-- `DHT11_Read_Data`: what it returns, and `*temp` and `*humi` after it.  With a wrong checksum
it returns success, and leaves them. -/
def dht11ReadData (bus : Dht11) (temp humi : UInt8) : UInt8 × UInt8 × UInt8 :=
  if bus.answers then
    if bus.buf0.toNat + bus.buf1.toNat + bus.buf2.toNat + bus.buf3.toNat = bus.buf4.toNat then
      (0, bus.buf2, bus.buf0)
    else (0, temp, humi)
  else (1, temp, humi)

/-- What the SGP30 does in a `MQ135_ReadCO2`: its answers to the four `I2C_WaitAck`, and the bytes
that are read after them. -/
structure Sgp30 where
  ackWrite : Bool
  ackCommand1 : Bool
  ackCommand2 : Bool
  ackRead : Bool
  data0 : UInt8
  data1 : UInt8
  data2 : UInt8

/-- `co2_eq`. -/
def Sgp30.co2Eq (bus : Sgp30) : UInt16 := bus.data0.toUInt16 <<< 8 ||| bus.data1.toUInt16

/-- The static variables of `MQ135_ReadCO2`. -/
structure Mq135 where
  lastValid : UInt16
  retryCount : UInt8

/-- Before the first `MQ135_ReadCO2`. -/
def Mq135.boot : Mq135 := ⟨400, 0⟩

/-- `goto READ_ERROR` after a missing acknowledge. -/
def Mq135.readError (m : Mq135) : UInt16 × Mq135 :=
  (m.lastValid, { m with retryCount := m.retryCount + 1 })

/-- `MQ135_ReadCO2`. -/
def mq135ReadCo2 (bus : Sgp30) (m : Mq135) : UInt16 × Mq135 :=
  if bus.ackWrite = false then m.readError
  else if bus.ackCommand1 = false then m.readError
  else if bus.ackCommand2 = false then m.readError
  else if bus.ackRead = false then m.readError
  else if bus.co2Eq ≥ 400 ∧ bus.co2Eq ≤ 60000 then (bus.co2Eq, ⟨bus.co2Eq, 0⟩)
  else (m.lastValid, m)

/-- **A fresh valid reading**: everything is acknowledged, and the value is one of the sensor. -/
def Sgp30.fresh (bus : Sgp30) : Option UInt16 :=
  if bus.ackWrite ∧ bus.ackCommand1 ∧ bus.ackCommand2 ∧ bus.ackRead ∧
      400 ≤ bus.co2Eq ∧ bus.co2Eq ≤ 60000 then some bus.co2Eq
  else none

theorem Sgp30.le_of_mem_fresh {bus : Sgp30} {v : UInt16} (h : v ∈ bus.fresh) : 400 ≤ v := by
  rw [fresh, Option.mem_def, Option.ite_none_right_eq_some] at h
  obtain ⟨⟨-, -, -, -, hle, -⟩, hv⟩ := h
  exact Option.some.inj hv ▸ hle

/-- A fresh reading is returned, and kept… -/
theorem mq135ReadCo2_of_fresh {bus : Sgp30} {v : UInt16} (h : v ∈ bus.fresh) (m : Mq135) :
    mq135ReadCo2 bus m = (v, ⟨v, 0⟩) := by
  rw [Sgp30.fresh, Option.mem_def, Option.ite_none_right_eq_some] at h
  obtain ⟨⟨hwrite, hc1, hc2, hread, hle, hge⟩, hv⟩ := h
  obtain rfl := Option.some.inj hv
  simp only [mq135ReadCo2, hwrite, hc1, hc2, hread, Bool.true_eq_false, if_false,
    if_pos (And.intro hle hge)]

/-- …and without one, the last one is. -/
theorem mq135ReadCo2_of_none {bus : Sgp30} (h : bus.fresh = none) (m : Mq135) :
    (mq135ReadCo2 bus m).1 = m.lastValid ∧ (mq135ReadCo2 bus m).2.lastValid = m.lastValid := by
  simp only [mq135ReadCo2]
  split_ifs with hwrite hc1 hc2 hread hrange
  iterate 4 exact ⟨rfl, rfl⟩
  · rw [Sgp30.fresh, if_pos ⟨Bool.eq_true_of_not_eq_false hwrite, Bool.eq_true_of_not_eq_false hc1,
      Bool.eq_true_of_not_eq_false hc2, Bool.eq_true_of_not_eq_false hread, hrange⟩] at h
    cases h
  · exact ⟨rfl, rfl⟩

/-! ## Cycles -/

/-- What the sensors give in a cycle. -/
structure SensorCycle where
  dht11 : Dht11
  rainValue : UInt16
  rainStatus : UInt8
  sgp30 : Sgp30
  coValue : UInt16

/-- CO is read, and too high. -/
def SensorCycle.CoHigh (c : SensorCycle) : Prop := inRange c.coValue = true ∧ 200 < c.coValue

instance (c : SensorCycle) : Decidable c.CoHigh := inferInstanceAs (Decidable (_ ∧ _))

/-- The sensor task between two cycles. -/
structure SensorTask where
  sensor : SensorState
  mq135 : Mq135
  /-- The samples so far, the newest first. -/
  samples : List EnvSample

namespace SensorTask

/-- Before the first cycle. -/
def boot : SensorTask := ⟨.boot, .boot, []⟩

/-- What the drivers return. -/
def readings (t : SensorTask) (c : SensorCycle) : Readings × Mq135 :=
  let (ret, temperature, humidity) := dht11ReadData c.dht11 0 0
  let (co2Value, mq135) := mq135ReadCo2 c.sgp30 t.mq135
  (⟨ret, temperature, humidity, c.rainValue, c.rainStatus, co2Value, c.coValue⟩, mq135)

/-- The sample of a cycle. -/
def sample (t : SensorTask) (c : SensorCycle) : EnvSample :=
  (readSensors (t.readings c).1 t.sensor).1

/-- What a cycle leaves.  Deciding on a gear and watching the manual mode have no part in it. -/
def next (t : SensorTask) (c : SensorCycle) : SensorTask :=
  ⟨(readSensors (t.readings c).1 t.sensor).2, (t.readings c).2, t.sample c :: t.samples⟩

/-- The automatic decision of a cycle. -/
def gear (t : SensorTask) (c : SensorCycle) : ℤ := autoCmd (t.sample c)

theorem fine_sample_co2 (t : SensorTask) (c : SensorCycle) :
    Fine (t.sample c).errBits 3 ↔ inRange (mq135ReadCo2 c.sgp30 t.mq135).1 = true :=
  fine_readSensors_co2 _ _

theorem inRange_iff_of_fresh {bus : Sgp30} {v : UInt16} (h : v ∈ bus.fresh) :
    inRange v = true ↔ v < 4096 := by
  have hpos : 0 < v := UInt16.lt_of_lt_of_le (by decide) (Sgp30.le_of_mem_fresh h)
  simp [inRange, hpos]

/-! ## The error bit of the CO2 sensor -/

/-- The driver has kept nothing that the task rejects. -/
def Plausible (t : SensorTask) : Prop := inRange t.mq135.lastValid = true

/-- What `errBit_run_iff` is by step. -/
theorem errBit_iff {t : SensorTask} (h : t.Plausible) (c : SensorCycle) :
    (¬ Fine (t.sample c).errBits 3 ↔ c.sgp30.fresh = none) ↔ ∃ v ∈ c.sgp30.fresh, v < 4096 := by
  rw [fine_sample_co2]
  cases hfresh : c.sgp30.fresh with
  | none =>
    rw [(mq135ReadCo2_of_none hfresh t.mq135).1, show inRange t.mq135.lastValid = true from h]
    simp
  | some v =>
    rw [mq135ReadCo2_of_fresh hfresh, inRange_iff_of_fresh hfresh]
    simp

theorem Plausible.next {t : SensorTask} {c : SensorCycle}
    (h : ∃ v ∈ c.sgp30.fresh, v < 4096) : (t.next c).Plausible := by
  obtain ⟨v, hv, hlt⟩ := h
  have hread : (t.next c).mq135 = (mq135ReadCo2 c.sgp30 t.mq135).2 := rfl
  rw [Plausible, hread, mq135ReadCo2_of_fresh hv]
  exact (inRange_iff_of_fresh hv).mpr hlt

/-- **In every run, the CO2 error bit of each sample is set if and only if no fresh valid reading
was obtained, exactly when each cycle obtains one, and one below 4096.** -/
theorem errBit_run_iff (cs : List SensorCycle) :
    EachStep next (fun t c => ¬ Fine (t.sample c).errBits 3 ↔ c.sgp30.fresh = none) boot cs ↔
      ∀ c ∈ cs, ∃ v ∈ c.sgp30.fresh, v < 4096 := by
  have hboot : boot.Plausible := rfl
  rw [← EachStep.const_iff next boot]
  constructor
  · exact EachStep.imp (fun t c ht hc => Plausible.next ((errBit_iff ht c).mp hc))
      (fun t c ht hc => (errBit_iff ht c).mp hc) cs hboot
  · exact EachStep.imp (fun t c _ hc => Plausible.next hc)
      (fun t c ht hc => (errBit_iff ht c).mpr hc) cs hboot

/-- Nobody on the bus: the sample has 400 ppm, and no error. -/
def deadSgp30 : SensorCycle :=
  ⟨⟨true, 50, 0, 20, 0, 70⟩, 2000, 1, ⟨false, false, false, false, 0, 0, 0⟩, 50⟩

theorem deadSgp30_errBit : ¬ EachStep next
    (fun t c => ¬ Fine (t.sample c).errBits 3 ↔ c.sgp30.fresh = none) boot [deadSgp30] := by
  decide +kernel

/-! ## The decision -/

/-- What the other sensors ask for, when the CO2 sensor does not ask for the high gear. -/
def elseGear (t : SensorTask) (c : SensorCycle) : ℤ :=
  if c.CoHigh then applayValHi
  else if (t.readings c).1.dhtOk ∧ (t.readings c).1.humidity > 60 then applayValMid
  else if inRange c.rainValue ∧ c.rainStatus = 0 then applayValLow
  else applayValOff

theorem gear_le (t : SensorTask) (c : SensorCycle) : t.gear c ≤ applayValHi := by
  simp only [gear, autoCmd]
  split_ifs <;> decide

theorem elseGear_eq_hi_iff (t : SensorTask) (c : SensorCycle) :
    t.elseGear c = applayValHi ↔ c.CoHigh := by
  simp only [elseGear]
  split_ifs with h
  · exact iff_of_true rfl h
  all_goals exact iff_of_false (by decide) h

/-- **The gear for a fresh reading**, whatever the cycles before have left. -/
theorem gear_of_fresh {c : SensorCycle} {v : UInt16} (h : v ∈ c.sgp30.fresh) (t : SensorTask) :
    t.gear c = if v < 4096 ∧ 1000 < v then applayValHi else t.elseGear c := by
  have hread : (t.readings c).1.co2Value = v :=
    congrArg Prod.fst (mq135ReadCo2_of_fresh h t.mq135)
  -- a value in range is the one in the sample
  have hco2 : inRange (t.readings c).1.co2Value = true ∧ (t.sample c).co2Value > 1000 ↔
      v < 4096 ∧ 1000 < v := by
    rw [hread, inRange_iff_of_fresh h]
    refine and_congr_right fun hlt => ?_
    rw [sample, co2Value_readSensors (hread ▸ (inRange_iff_of_fresh h).mpr hlt), hread]
  have hco : inRange (t.readings c).1.coValue = true ∧ (t.sample c).coValue > 200 ↔ c.CoHigh :=
    and_congr_right fun hin => by rw [sample, coValue_readSensors hin]; exact Iff.rfl
  simp only [gear, autoCmd, elseGear, sample, fine_readSensors_dht, fine_readSensors_rain,
    fine_readSensors_co2, fine_readSensors_co] at hco2 hco ⊢
  simp only [hco2, hco]
  rfl

/-- **The gear heeds the CO2 reading**: a fresh one above `CO2_SAFE_THRESHOLD` means the high
gear, and no lower one would have meant more. -/
def Heeds (t : SensorTask) (c : SensorCycle) : Prop :=
  ∀ v ∈ c.sgp30.fresh, (1000 < v → t.gear c = applayValHi) ∧
    ∀ bus : Sgp30, ∀ v' ∈ bus.fresh, v' ≤ v → t.gear { c with sgp30 := bus } ≤ t.gear c

/-- **From every state, the gear heeds a fresh reading exactly when it is below 4096, or CO is
high anyway.** -/
theorem heeds_iff (t : SensorTask) (c : SensorCycle) :
    t.Heeds c ↔ c.CoHigh ∨ ∀ v ∈ c.sgp30.fresh, v < 4096 := by
  constructor
  · intro h
    by_contra hno
    push Not at hno
    obtain ⟨hco, v, hv, hge⟩ := hno
    have hlt : 1000 < v := UInt16.lt_of_lt_of_le (b := 4096) (by decide) (UInt16.not_lt.mp hge)
    have hhi := (h v hv).1 hlt
    rw [gear_of_fresh hv, if_neg fun hr => hge hr.1,
      elseGear_eq_hi_iff] at hhi
    exact hco hhi
  · rintro h v hv
    -- nothing is more than the high gear
    suffices hgear : t.gear c = applayValHi ∨ (t.gear c = t.elseGear c ∧ ¬ 1000 < v) by
      rcases hgear with hhi | ⟨helse, hle⟩
      · exact ⟨fun _ => hhi, fun bus v' _ _ => hhi ▸ gear_le t _⟩
      · refine ⟨fun hlt => absurd hlt hle, fun bus v' hv' hvv => ?_⟩
        have hlow : ¬ (v' < 4096 ∧ 1000 < v') :=
          fun hr => hle (UInt16.lt_of_lt_of_le hr.2 hvv)
        rw [gear_of_fresh hv', if_neg hlow, helse]
        exact le_refl _
    rw [gear_of_fresh hv]
    rcases h with hco | hlt
    · rw [(elseGear_eq_hi_iff t c).mpr hco]
      exact Or.inl (ite_self _)
    · by_cases hdanger : 1000 < v
      · exact Or.inl (if_pos ⟨hlt v hv, hdanger⟩)
      · exact Or.inr ⟨if_neg fun hr => hdanger hr.2, hdanger⟩

/-- 5000 ppm, and the fan stays off. -/
theorem danger_heeds : ¬ boot.Heeds
    ⟨⟨true, 50, 0, 20, 0, 70⟩, 2000, 1, ⟨true, true, true, true, 0x13, 0x88, 0⟩, 50⟩ := by
  intro h
  have hhi := (h 5000 (by decide)).1 (by decide)
  exact absurd hhi (by decide)

end SensorTask

end GrainWarehouse
