import GrainWarehouse.Report.Averages
import GrainWarehouse.Actuator.Apply

/-!
# Actuator/Sensor — what the sensor task reads, decides and remembers

The parts of `sensor_data_get_task` that other tasks have no part in: reading the sensors, deciding
on a gear, and the clock of the manual mode.
-/

namespace GrainWarehouse

/-- What the drivers return in a cycle.  A failed `DHT11_Read_Data` leaves the two zeros. -/
structure Readings where
  dht11 : UInt8
  temperature : UInt8
  humidity : UInt8
  rainValue : UInt16
  rainStatus : UInt8
  co2Value : UInt16
  coValue : UInt16

/-- The static variables of `sensor_data_get_task`. -/
structure SensorState where
  readError : UInt8
  lastValidRain : UInt16
  lastValidCo2 : UInt16
  lastValidCo : UInt16
  /-- `-1` before the first decision. -/
  lastAutoCmd : ℤ
  manualEnterTick : UInt32
  prevModeControl : UInt8

/-- The task before its first cycle. -/
def SensorState.boot : SensorState where
  readError := 0
  lastValidRain := 0
  lastValidCo2 := 0
  lastValidCo := 0
  lastAutoCmd := -1
  manualEnterTick := 0
  prevModeControl := 0

/-- Clear or set error bit `n`. -/
def setErr (n : ℕ) (ok : Bool) (err : UInt8) : UInt8 :=
  if ok then err &&& ~~~(1 <<< UInt8.ofNat n) else err ||| (1 <<< UInt8.ofNat n)

/-- The range of a value that counts as read. -/
def inRange (v : UInt16) : Bool := 0 < v ∧ v < 4096

/-- `DHT11_Read_Data` has succeeded, with values in range. -/
def Readings.dhtOk (r : Readings) : Bool :=
  r.dht11 = 0 ∧ r.temperature > 0 ∧ r.temperature < 50 ∧ r.humidity > 0 ∧ r.humidity < 100

/-- The reading half of a cycle: the sample, and what is remembered of the sensors.  A value out
of range is replaced by the last one in range. -/
def readSensors (r : Readings) (s : SensorState) : EnvSample × SensorState :=
  let rain := if inRange r.rainValue then r.rainValue else s.lastValidRain
  let co2 := if inRange r.co2Value then r.co2Value else s.lastValidCo2
  let co := if inRange r.coValue then r.coValue else s.lastValidCo
  let err := setErr 0 r.dhtOk s.readError
  let err := setErr 1 (inRange r.rainValue) err
  let err := setErr 3 (inRange r.co2Value) err
  let err := setErr 4 (inRange r.coValue) err
  (⟨err, r.temperature, r.humidity, r.rainStatus, co2, co⟩,
    { s with readError := err, lastValidRain := rain, lastValidCo2 := co2, lastValidCo := co })

/-- `auto_cmd`: the gear for a sample. -/
def autoCmd (sample : EnvSample) : ℤ :=
  if Fine sample.errBits 3 ∧ sample.co2Value > 1000 then applayValHi
  else if Fine sample.errBits 4 ∧ sample.coValue > 200 then applayValHi
  else if Fine sample.errBits 0 ∧ sample.humidity > 60 then applayValMid
  else if Fine sample.errBits 1 ∧ sample.rainStatus = 0 then applayValLow
  else applayValOff

/-- The fan command for a decision. -/
def autoMsg (cmd : ℤ) : ApplayMsg := ⟨.fan, cmd, .auto⟩

/-- The clock of the manual mode, read twice: it starts when the mode is first seen, and `true`
says that half an hour is over. -/
def watchManual (entered now : UInt32) (s : SensorState) : Bool × SensorState :=
  let s := if s.prevModeControl = 0 then { s with manualEnterTick := entered } else s
  if now - s.manualEnterTick ≥ 1800000 then (true, { s with prevModeControl := 0 })
  else (false, { s with prevModeControl := 1 })

/-- Readings in range, with this much CO2. -/
def Readings.ofCo2 (co2 : UInt16) : Readings := ⟨0, 20, 50, 2000, 1, co2, 50⟩

theorem isAuto_autoMsg (cmd : ℤ) : (autoMsg cmd).IsAuto := ⟨rfl, rfl⟩

end GrainWarehouse
