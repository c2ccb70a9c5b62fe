import GrainWarehouse.Actuator.Cycle

/-!
# Actuator/Hold — what a sample carries when a sensor fails

A value out of range is to be replaced by the last one in range.  The task does so for rain, CO2 and
CO, and not for the DHT11, whose values go into the sample as they are.  **In each sample of a run
every value whose error bit is set is the last one that was read without error, exactly when the
DHT11 delivers zeros up to its first good reading, and good readings from then on**
(`holds_run_iff`).
-/

namespace GrainWarehouse

/-- The measured values of a sample. -/
inductive Measured
  | temperature
  | humidity
  | co2
  | co
  deriving DecidableEq

namespace Measured

/-- The error bit of its sensor. -/
def bit : Measured → ℕ
  | temperature => 0
  | humidity => 0
  | co2 => 3
  | co => 4

def value : Measured → EnvSample → UInt16
  | temperature, s => s.temperature.toUInt16
  | humidity, s => s.humidity.toUInt16
  | co2, s => s.co2Value
  | co, s => s.coValue

/-- **The last value that was read without error**, or 0; the newest sample is the first. -/
def lastGood (q : Measured) : List EnvSample → UInt16
  | [] => 0
  | s :: rest => if Fine s.errBits q.bit then q.value s else q.lastGood rest

end Measured

/-! ## The DHT11 -/

/-- The DHT11 was read, with values in range. -/
def Dht11.good (bus : Dht11) : Bool :=
  let (ret, temperature, humidity) := dht11ReadData bus 0 0
  ret = 0 ∧ temperature > 0 ∧ temperature < 50 ∧ humidity > 0 ∧ humidity < 100

/-- The DHT11 delivers nothing: no answer, a wrong checksum, or two zeros. -/
def Dht11.zeros (bus : Dht11) : Bool := (dht11ReadData bus 0 0).2 = (0, 0)

/-- A reading that fails delivers zeros. -/
theorem dht11ReadData_ret (bus : Dht11) :
    (dht11ReadData bus 0 0).1 = 0 ∨ (dht11ReadData bus 0 0).2 = (0, 0) := by
  simp only [dht11ReadData]
  split_ifs
  · exact Or.inl rfl
  · exact Or.inl rfl
  · exact Or.inr rfl

/-- **The DHT11 is never lost**: zeros up to its first good reading, and good readings from then
on. -/
def DhtKept : List SensorCycle → Prop
  | [] => True
  | c :: cs =>
    if c.dht11.good then ∀ b ∈ cs, b.dht11.good = true else c.dht11.zeros = true ∧ DhtKept cs

namespace SensorTask

/-- **Every value whose error bit is set is the last one that was read without error.** -/
def HoldsLast (t : SensorTask) (c : SensorCycle) : Prop :=
  ∀ q : Measured, ¬ Fine (t.sample c).errBits q.bit → q.value (t.sample c) = q.lastGood t.samples

/-- The DHT11's part of it. -/
def HoldsDht (t : SensorTask) (c : SensorCycle) : Prop :=
  c.dht11.good = false →
    (t.sample c).temperature.toUInt16 = Measured.temperature.lastGood t.samples ∧
      (t.sample c).humidity.toUInt16 = Measured.humidity.lastGood t.samples

theorem fine_sample_dht (t : SensorTask) (c : SensorCycle) :
    Fine (t.sample c).errBits 0 ↔ c.dht11.good = true := fine_readSensors_dht _ _

/-- **The static variables keep the last good values** of CO2 and CO. -/
structure Kept (t : SensorTask) : Prop where
  co2 : t.sensor.lastValidCo2 = Measured.co2.lastGood t.samples
  co : t.sensor.lastValidCo = Measured.co.lastGood t.samples

theorem Kept.next {t : SensorTask} (h : t.Kept) (c : SensorCycle) : (t.next c).Kept := by
  constructor
  · change (if inRange (t.readings c).1.co2Value then _ else _) =
      if Fine (t.sample c).errBits 3 then (if inRange (t.readings c).1.co2Value then _ else _)
        else _
    rw [sample, if_congr (fine_readSensors_co2 _ _) rfl rfl, ← h.co2]
    split_ifs <;> rfl
  · change (if inRange (t.readings c).1.coValue then _ else _) =
      if Fine (t.sample c).errBits 4 then (if inRange (t.readings c).1.coValue then _ else _)
        else _
    rw [sample, if_congr (fine_readSensors_co _ _) rfl rfl, ← h.co]
    split_ifs <;> rfl

/-- So it is the DHT11 that decides. -/
theorem Kept.holdsLast_iff {t : SensorTask} (h : t.Kept) (c : SensorCycle) :
    t.HoldsLast c ↔ t.HoldsDht c := by
  constructor
  · intro hall hbad
    have hbit : ¬ Fine (t.sample c).errBits 0 := by rw [fine_sample_dht, hbad]; decide
    exact ⟨hall .temperature hbit, hall .humidity hbit⟩
  · intro hdht q hbit
    cases q with
    | temperature =>
      exact (hdht (Bool.eq_false_of_not_eq_true (mt (fine_sample_dht t c).mpr hbit))).1
    | humidity =>
      exact (hdht (Bool.eq_false_of_not_eq_true (mt (fine_sample_dht t c).mpr hbit))).2
    | co2 => exact (if_neg (mt (fine_readSensors_co2 _ _).mpr hbit)).trans h.co2
    | co => exact (if_neg (mt (fine_readSensors_co _ _).mpr hbit)).trans h.co

/-- Nothing has been read from the DHT11. -/
structure Cold (t : SensorTask) : Prop where
  temperature : Measured.temperature.lastGood t.samples = 0
  humidity : Measured.humidity.lastGood t.samples = 0

/-- Something has, and it was in range. -/
structure Warm (t : SensorTask) : Prop where
  temperature : 0 < Measured.temperature.lastGood t.samples ∧
    Measured.temperature.lastGood t.samples < 50
  humidity : 0 < Measured.humidity.lastGood t.samples ∧
    Measured.humidity.lastGood t.samples < 100

theorem lastGood_next_dht (t : SensorTask) (c : SensorCycle) :
    Measured.temperature.lastGood (t.next c).samples =
        (if c.dht11.good then (t.sample c).temperature.toUInt16
          else Measured.temperature.lastGood t.samples) ∧
      Measured.humidity.lastGood (t.next c).samples =
        (if c.dht11.good then (t.sample c).humidity.toUInt16
          else Measured.humidity.lastGood t.samples) :=
  ⟨if_congr (fine_sample_dht t c) rfl rfl, if_congr (fine_sample_dht t c) rfl rfl⟩

/-- A bad reading leaves everything as it is… -/
theorem Cold.next {t : SensorTask} {c : SensorCycle} (h : t.Cold) (hbad : c.dht11.good = false) :
    (t.next c).Cold := by
  obtain ⟨ht, hh⟩ := lastGood_next_dht t c
  rw [hbad] at ht hh
  exact ⟨ht.trans h.temperature, hh.trans h.humidity⟩

/-- …a good one is the first… -/
theorem warm_next {t : SensorTask} {c : SensorCycle} (hgood : c.dht11.good = true) :
    (t.next c).Warm := by
  obtain ⟨ht, hh⟩ := lastGood_next_dht t c
  rw [hgood, if_pos rfl] at ht hh
  have hrange := of_decide_eq_true hgood
  constructor
  · rw [ht]
    exact ⟨UInt8.toUInt16_lt.mpr hrange.2.1, UInt8.toUInt16_lt.mpr hrange.2.2.1⟩
  · rw [hh]
    exact ⟨UInt8.toUInt16_lt.mpr hrange.2.2.2.1, UInt8.toUInt16_lt.mpr hrange.2.2.2.2⟩

/-- Before the first good reading the zeros of a failed one are right. -/
theorem Cold.holdsDht_iff {t : SensorTask} (h : t.Cold) {c : SensorCycle}
    (hbad : c.dht11.good = false) : t.HoldsDht c ↔ c.dht11.zeros = true := by
  rw [HoldsDht, h.temperature, h.humidity, Dht11.zeros, decide_eq_true_iff, Prod.ext_iff]
  constructor
  · intro hall
    obtain ⟨ht, hh⟩ := hall hbad
    exact ⟨UInt8.toUInt16_inj.mp ht, UInt8.toUInt16_inj.mp hh⟩
  · rintro ⟨ht, hh⟩ -
    exact ⟨congrArg UInt8.toUInt16 ht, congrArg UInt8.toUInt16 hh⟩

/-- **After it nothing is**: a failed reading delivers zeros, and no good one is zero. -/
theorem Warm.holdsDht_iff {t : SensorTask} (h : t.Warm) {c : SensorCycle} :
    t.HoldsDht c ↔ c.dht11.good = true := by
  refine ⟨fun hall => ?_, fun hgood hbad => absurd hgood (by rw [hbad]; decide)⟩
  by_contra hbad
  obtain ⟨ht, hh⟩ := hall (Bool.eq_false_of_not_eq_true hbad)
  have htemp := ht ▸ h.temperature
  have hhumi := hh ▸ h.humidity
  rcases dht11ReadData_ret c.dht11 with hret | hzero
  · exact hbad (decide_eq_true ⟨hret, UInt8.toUInt16_lt.mp htemp.1, UInt8.toUInt16_lt.mp htemp.2,
      UInt8.toUInt16_lt.mp hhumi.1, UInt8.toUInt16_lt.mp hhumi.2⟩)
  · have hnone : (t.sample c).temperature = 0 := congrArg Prod.fst hzero
    rw [hnone] at htemp
    exact absurd htemp.1 (by decide)

/-- The run from a good reading on… -/
theorem Warm.run_iff {t : SensorTask} (hkept : t.Kept) (h : t.Warm) (cs : List SensorCycle) :
    EachStep next HoldsLast t cs ↔ ∀ c ∈ cs, c.dht11.good = true := by
  rw [← EachStep.const_iff next t]
  have hstep : ∀ (t : SensorTask) (c : SensorCycle), t.Kept ∧ t.Warm →
      (t.HoldsLast c ↔ c.dht11.good = true) := fun t c ht =>
    (ht.1.holdsLast_iff c).trans ht.2.holdsDht_iff
  constructor
  · exact EachStep.imp (fun t c ht hc => ⟨ht.1.next c, warm_next ((hstep t c ht).mp hc)⟩)
      (fun t c ht hc => (hstep t c ht).mp hc) cs ⟨hkept, h⟩
  · exact EachStep.imp (fun t c ht hc => ⟨ht.1.next c, warm_next hc⟩)
      (fun t c ht hc => (hstep t c ht).mpr hc) cs ⟨hkept, h⟩

/-- …and before the first. -/
theorem Cold.run_iff : ∀ (cs : List SensorCycle) {t : SensorTask}, t.Kept → t.Cold →
    (EachStep SensorTask.next HoldsLast t cs ↔ DhtKept cs)
  | [], _, _, _ => Iff.rfl
  | c :: cs, t, hkept, h => by
      rw [EachStep, DhtKept, hkept.holdsLast_iff]
      split_ifs with hgood
      · rw [(warm_next hgood).run_iff (hkept.next c)]
        refine ⟨And.right, fun hall => ⟨fun hbad => absurd hgood (by rw [hbad]; decide), hall⟩⟩
      · have hbad := Bool.eq_false_of_not_eq_true hgood
        rw [h.holdsDht_iff hbad, Cold.run_iff cs (hkept.next c) (h.next hbad)]

/-- **In each cycle of a run every value with its error bit set is the last one read without
error, or 0, exactly when the DHT11 delivers zeros up to its first good reading, and good readings
from then on.** -/
theorem holds_run_iff (cs : List SensorCycle) : EachStep next HoldsLast boot cs ↔ DhtKept cs :=
  Cold.run_iff cs ⟨rfl, rfl⟩ ⟨rfl, rfl⟩

/-- The DHT11 reads 20 degrees, and then does not answer: the next sample has 0. -/
theorem lost_holdsLast : ¬ EachStep next HoldsLast boot
    [⟨⟨true, 50, 0, 20, 0, 70⟩, 2000, 1, ⟨true, true, true, true, 2, 0, 0⟩, 50⟩,
      ⟨⟨false, 0, 0, 0, 0, 0⟩, 2000, 1, ⟨true, true, true, true, 2, 0, 0⟩, 50⟩] := by
  rintro ⟨-, hlost, -⟩
  exact absurd (hlost .temperature (by decide)) (by decide)

end SensorTask

end GrainWarehouse
