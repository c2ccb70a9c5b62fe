import Mathlib
import GrainWarehouse.Report.Averages

/-!
# Report/Period — the averages of a period, sensor by sensor

The sums of `data_process_task` leave out what a sensor could not measure, but all of them are
divided by the number of all samples.  **An average is that of the sensor's own samples exactly when
the samples it has missed would not change it by one** (`Quantity.fair_iff`), and the rain flag
likewise (`rainFair_iff`).
-/

namespace GrainWarehouse

/-! ## A period -/

/-- **A period**: rounds within the minute, and one that finds it over.  Each brings a sample, or
has waited in vain. -/
structure Period where
  lastErr : UInt8
  start : UInt32
  rounds : List (Option EnvSample × UInt32)
  last : Option EnvSample × UInt32
  running : ∀ r ∈ rounds, r.2 - start < 60000
  ended : ¬ last.2 - start < 60000

namespace Period

/-- The samples that have been received. -/
def samples (p : Period) : List EnvSample := (p.rounds ++ [p.last]).filterMap Prod.fst

/-- What `data_process_task` reports at the end. -/
def report (p : Period) : Option EnvAvg :=
  ((p.rounds.foldl (fun (t : DataProcess) r => (t.round r.1 r.2).2)
    (.start p.lastErr p.start)).round p.last.1 p.last.2).1

end Period

/-- Samples are added, one after the other. -/
def DataProcess.addAll (samples : List EnvSample) (t : DataProcess) : DataProcess :=
  samples.foldl (fun t s => t.add s) t

/-- Within the minute the samples are added. -/
theorem foldl_round_eq {t₀ : UInt32} : ∀ (rounds : List (Option EnvSample × UInt32))
    (t : DataProcess), t.periodStart = t₀ → (∀ r ∈ rounds, r.2 - t₀ < 60000) →
    rounds.foldl (fun t r => (t.round r.1 r.2).2) t = t.addAll (rounds.filterMap Prod.fst)
  | [], _, _, _ => rfl
  | (got, now) :: rounds, t, ht, hrun => by
      have hnow := hrun _ List.mem_cons_self
      have hrest := fun r hr => hrun r (List.mem_cons_of_mem _ hr)
      cases got with
      | none =>
        have hround : (t.round none now).2 = t := by
          rw [DataProcess.round, Option.elim_none, ht, if_pos hnow]
        rw [List.foldl_cons, hround, foldl_round_eq rounds t ht hrest]
        rfl
      | some s =>
        have hround : (t.round (some s) now).2 = t.add s := by
          have hstart : (t.add s).periodStart = t₀ := ht
          rw [DataProcess.round, Option.elim_some, hstart, if_pos hnow]
        rw [List.foldl_cons, hround, foldl_round_eq rounds (t.add s) ht hrest]
        rfl

theorem periodStart_addAll : ∀ (samples : List EnvSample) (t : DataProcess),
    (t.addAll samples).periodStart = t.periodStart
  | [], _ => rfl
  | s :: samples, t => periodStart_addAll samples (t.add s)

/-- **A period reports the averages of its samples**, if there are any. -/
theorem Period.report_eq (p : Period) :
    p.report = if ((DataProcess.start p.lastErr p.start).addAll p.samples).cnt = 0 then none
      else some ((DataProcess.start p.lastErr p.start).addAll p.samples).average := by
  have hall : (DataProcess.start p.lastErr p.start).addAll p.samples =
      p.last.1.elim ((DataProcess.start p.lastErr p.start).addAll (p.rounds.filterMap Prod.fst))
        ((DataProcess.start p.lastErr p.start).addAll (p.rounds.filterMap Prod.fst)).add := by
    rw [samples, DataProcess.addAll, List.filterMap_append, List.foldl_append]
    cases hgot : p.last.1 with
    | none =>
      rw [List.filterMap_cons_none hgot]
      rfl
    | some s =>
      rw [List.filterMap_cons_some hgot]
      rfl
  have hstart : ((DataProcess.start p.lastErr p.start).addAll p.samples).periodStart = p.start :=
    periodStart_addAll _ _
  have hfold := foldl_round_eq p.rounds (.start p.lastErr p.start) rfl p.running
  rw [report, hfold, DataProcess.round, ← hall, hstart, if_neg p.ended]

/-- **A counter to which every sample adds its share.** -/
theorem counter_addAll {counter : DataProcess → UInt32} {share : EnvSample → ℕ}
    (h : ∀ s t, counter (t.add s) = counter t + UInt32.ofNat (share s)) :
    ∀ (samples : List EnvSample) (t : DataProcess),
    counter (t.addAll samples) = counter t + UInt32.ofNat (samples.map share).sum
  | [], t => (UInt32.add_zero _).symm
  | s :: samples, t => by
      have ih := counter_addAll h samples (t.add s)
      rw [DataProcess.addAll] at ih ⊢
      rw [List.foldl_cons, ih, h, List.map_cons, List.sum_cons, UInt32.ofNat_add, UInt32.add_assoc]

/-- Only some samples have a share. -/
theorem sum_map_filter (p : EnvSample → Prop) [DecidablePred p] (v : EnvSample → ℕ)
    (samples : List EnvSample) :
    ((samples.filter p).map v).sum = (samples.map fun s => if p s then v s else 0).sum := by
  rw [List.sum_map_ite, List.map_const', List.sum_replicate, smul_zero, add_zero]

/-! ## A sensor's average -/

/-- A measured quantity: the error bit of its sensor, its value in a sample, the sum that it goes
into, and its average. -/
structure Quantity where
  bit : ℕ
  value : EnvSample → ℕ
  sum : DataProcess → UInt32
  avg : EnvAvg → UInt16
  sum_start : ∀ err t, sum (.start err t) = 0
  sum_add : ∀ s t, sum (t.add s) =
    if Fine s.errBits bit then sum t + UInt32.ofNat (value s) else sum t
  avg_average : ∀ t, avg t.average = (sum t / t.cnt).toUInt16
  value_lt : ∀ s, value s < 2 ^ 16

namespace Quantity

theorem ten_mul_toUInt32 (v : UInt8) : v.toUInt32 * 10 = UInt32.ofNat (10 * v.toNat) := by
  have hv := v.toNat_lt
  refine UInt32.toNat_inj.mp ?_
  rw [UInt32.toNat_mul, UInt8.toNat_toUInt32, UInt32.toNat_ofNat', Nat.mul_comm]
  rfl

theorem ofNat_toNat_uint16 (v : UInt16) : v.toUInt32 = UInt32.ofNat v.toNat := by
  refine UInt32.toNat_inj.mp ?_
  have hv := v.toNat_lt
  rw [UInt16.toNat_toUInt32, UInt32.toNat_ofNat', Nat.mod_eq_of_lt (by omega)]

/-- The temperature, in tenths. -/
def temp : Quantity where
  bit := 0
  value s := 10 * s.temperature.toNat
  sum := DataProcess.tempSum
  avg := EnvAvg.tempAvgX10
  sum_start _ _ := rfl
  sum_add s t := by rw [← ten_mul_toUInt32]; rfl
  avg_average _ := rfl
  value_lt s := by have := s.temperature.toNat_lt; omega

/-- The humidity, in tenths. -/
def humi : Quantity where
  bit := 0
  value s := 10 * s.humidity.toNat
  sum := DataProcess.humiSum
  avg := EnvAvg.humiAvgX10
  sum_start _ _ := rfl
  sum_add s t := by rw [← ten_mul_toUInt32]; rfl
  avg_average _ := rfl
  value_lt s := by have := s.humidity.toNat_lt; omega

/-- CO2. -/
def co2 : Quantity where
  bit := 3
  value s := s.co2Value.toNat
  sum := DataProcess.co2Sum
  avg := EnvAvg.co2Avg
  sum_start _ _ := rfl
  sum_add s t := by rw [← ofNat_toNat_uint16]; rfl
  avg_average _ := rfl
  value_lt s := s.co2Value.toNat_lt

/-- CO. -/
def co : Quantity where
  bit := 4
  value s := s.coValue.toNat
  sum := DataProcess.coSum
  avg := EnvAvg.coAvg
  sum_start _ _ := rfl
  sum_add s t := by rw [← ofNat_toNat_uint16]; rfl
  avg_average _ := rfl
  value_lt s := s.coValue.toNat_lt

variable (q : Quantity)

/-- The samples in which the sensor has no error. -/
def valid (samples : List EnvSample) : List EnvSample :=
  samples.filter fun s => Fine s.errBits q.bit

/-- The sum of its values in these. -/
def total (samples : List EnvSample) : ℕ := ((q.valid samples).map q.value).sum

theorem length_valid_le (samples : List EnvSample) : (q.valid samples).length ≤ samples.length :=
  List.length_filter_le _ _

theorem total_le : ∀ samples : List EnvSample,
    q.total samples ≤ (q.valid samples).length * (2 ^ 16 - 1)
  | [] => Nat.zero_le _
  | s :: samples => by
      have hs := q.value_lt s
      have ih := total_le samples
      rw [total, valid] at ih ⊢
      rw [List.filter_cons]
      split_ifs
      · rw [List.map_cons, List.sum_cons, List.length_cons]
        omega
      · exact ih

/-- **The sum of a quantity is that of the samples in which its sensor has no error.** -/
theorem sum_addAll (samples : List EnvSample) (t : DataProcess) :
    q.sum (t.addAll samples) = q.sum t + UInt32.ofNat (q.total samples) := by
  rw [total, valid, sum_map_filter]
  refine counter_addAll (fun s t => ?_) samples t
  rw [q.sum_add]
  split_ifs
  · rfl
  · exact (UInt32.add_zero _).symm

end Quantity

theorem cnt_addAll (samples : List EnvSample) (t : DataProcess) :
    (t.addAll samples).cnt = t.cnt + UInt32.ofNat samples.length := by
  have h := counter_addAll (fun s t => (rfl : (t.add s).cnt = t.cnt + UInt32.ofNat 1)) samples t
  rwa [List.map_const', List.sum_replicate_nat, Nat.mul_one] at h

/-- **A sum of `n` values, divided by `c` in 32 bits, is their average exactly when it has not
wrapped around and what is left of it makes up for the difference.** -/
theorem wrapped_div_eq_iff {total n c : ℕ} (hn : 0 < n) (hnc : n ≤ c) (hc : c < 2 ^ 32)
    (htotal : total ≤ n * (2 ^ 16 - 1)) :
    total % 2 ^ 32 / c % 2 ^ 16 = total / n ↔
      total < 2 ^ 32 ∧ (c - n) * (total / n) ≤ total % n := by
  have hq : total / n < 2 ^ 16 := by
    rw [Nat.div_lt_iff_lt_mul hn]
    have : n * (2 ^ 16 - 1) < 2 ^ 16 * n := by omega
    omega
  have hmono (m : ℕ) : m / c ≤ m / n := Nat.div_le_div_left hnc hn
  by_cases hwrap : total < 2 ^ 32
  · have hle := hmono total
    rw [Nat.mod_eq_of_lt hwrap, Nat.mod_eq_of_lt (by omega : total / c < 2 ^ 16),
      and_iff_right hwrap, le_antisymm_iff, and_iff_right hle, Nat.le_div_iff_mul_le (by omega)]
    have hsplit := Nat.div_add_mod total n
    obtain ⟨d, rfl⟩ := Nat.exists_eq_add_of_le hnc
    rw [Nat.add_sub_cancel_left, Nat.mul_add, Nat.mul_comm d]
    rw [Nat.mul_comm n] at hsplit
    omega
  · refine iff_of_false (fun heq => ?_) fun h => hwrap h.1
    -- a sum that has wrapped around is too small by one at least, after division
    have hless : total % 2 ^ 32 ≤ total - n := by
      have := Nat.div_add_mod total (2 ^ 32)
      have hone : 1 ≤ total / 2 ^ 32 := Nat.div_pos (by omega) (by decide)
      omega
    have hstep : total / n = (total - n) / n + 1 := Nat.div_eq_sub_div hn (by omega)
    have hle : total % 2 ^ 32 / c ≤ (total - n) / n :=
      Nat.le_trans (hmono _) (Nat.div_le_div_right hless)
    have hmod := Nat.mod_le (total % 2 ^ 32 / c) (2 ^ 16)
    omega

/-! ## The law -/

/-- **A quantity that was measured at all is reported as the average of what was measured.** -/
def Quantity.Fair (q : Quantity) (p : Period) : Prop :=
  0 < (q.valid p.samples).length → ∃ avg, p.report = some avg ∧
    (q.avg avg).toNat = q.total p.samples / (q.valid p.samples).length

/-- The sum fits, and the samples that the sensor has missed would not change its average by one. -/
def Quantity.Tolerates (q : Quantity) (p : Period) : Prop :=
  0 < (q.valid p.samples).length → q.total p.samples < 2 ^ 32 ∧
    (p.samples.length - (q.valid p.samples).length) *
        (q.total p.samples / (q.valid p.samples).length) ≤
      q.total p.samples % (q.valid p.samples).length

/-- The samples in which the rain sensor has no error. -/
def rainValid (samples : List EnvSample) : List EnvSample :=
  samples.filter fun s => Fine s.errBits 1

/-- How many of them say rain. -/
def rainCount (samples : List EnvSample) : ℕ :=
  ((rainValid samples).filter fun s => s.rainStatus = 0).length

/-- **It has rained if three in ten of what the sensor says, say so.** -/
def RainFair (p : Period) : Prop :=
  0 < (rainValid p.samples).length → ∃ avg, p.report = some avg ∧
    (avg.rainFlag = 1 ↔ 3 * (rainValid p.samples).length ≤ 10 * rainCount p.samples)

/-- Three in ten of the sensor's samples are three in ten of all, or neither is reached. -/
def RainTolerates (p : Period) : Prop :=
  0 < (rainValid p.samples).length →
    ¬ (3 * (rainValid p.samples).length ≤ 10 * rainCount p.samples ∧
      10 * rainCount p.samples < 3 * p.samples.length)

variable {p : Period}

/-- A period with samples has a report. -/
theorem Period.report_eq_some (hlen : 10 * p.samples.length < 2 ^ 32)
    (hne : 0 < p.samples.length) :
    p.report = some ((DataProcess.start p.lastErr p.start).addAll p.samples).average ∧
      ((DataProcess.start p.lastErr p.start).addAll p.samples).cnt.toNat = p.samples.length := by
  have hcnt : ((DataProcess.start p.lastErr p.start).addAll p.samples).cnt.toNat =
      p.samples.length := by
    rw [cnt_addAll, DataProcess.start, UInt32.zero_add, UInt32.toNat_ofNat',
      Nat.mod_eq_of_lt (by omega)]
  refine ⟨?_, hcnt⟩
  rw [Period.report_eq, if_neg]
  intro h0
  rw [h0, UInt32.toNat_zero] at hcnt
  omega

/-- **A quantity is reported as it was measured exactly when its average tolerates the samples that
its sensor has missed.** -/
theorem Quantity.fair_iff (q : Quantity) (hlen : 10 * p.samples.length < 2 ^ 32) :
    q.Fair p ↔ q.Tolerates p := by
  refine forall_congr' fun hpos => ?_
  have hle := q.length_valid_le p.samples
  obtain ⟨hreport, hcnt⟩ := Period.report_eq_some hlen (by omega)
  have hsum := q.sum_addAll p.samples (.start p.lastErr p.start)
  rw [q.sum_start, UInt32.zero_add] at hsum
  simp only [hreport, Option.some.injEq, exists_eq_left', q.avg_average, hsum,
    UInt32.toNat_toUInt16, UInt32.toNat_div, UInt32.toNat_ofNat', hcnt]
  exact wrapped_div_eq_iff hpos hle (by omega) (q.total_le p.samples)

theorem rainSum_addAll (samples : List EnvSample) (t : DataProcess) :
    (t.addAll samples).rainSum = t.rainSum + UInt32.ofNat (rainCount samples) := by
  have hcount : rainCount samples = ((rainValid samples).map
      fun s => if s.rainStatus = 0 then 1 else 0).sum := by
    rw [← sum_map_filter, List.map_const', List.sum_replicate_nat, Nat.mul_one, rainCount]
  rw [hcount, rainValid, sum_map_filter]
  refine counter_addAll (fun s t => ?_) samples t
  have hadd : (t.add s).rainSum = if Fine s.errBits 1 then
      t.rainSum + (if s.rainStatus ≠ 0 then 0 else 1) else t.rainSum := rfl
  rw [hadd]
  by_cases hfine : Fine s.errBits 1
  · rw [if_pos hfine, if_pos hfine]
    by_cases hwet : s.rainStatus = 0
    · rw [if_pos hwet, if_neg (not_not_intro hwet)]
      rfl
    · rw [if_neg hwet, if_pos hwet]
      rfl
  · rw [if_neg hfine, if_neg hfine]
    exact (UInt32.add_zero _).symm

/-- **…and so is rain.** -/
theorem rainFair_iff (hlen : 10 * p.samples.length < 2 ^ 32) : RainFair p ↔ RainTolerates p := by
  refine forall_congr' fun hpos => ?_
  have hvalid : (rainValid p.samples).length ≤ p.samples.length := List.length_filter_le _ _
  have hcount : rainCount p.samples ≤ (rainValid p.samples).length := List.length_filter_le _ _
  obtain ⟨hreport, hcnt⟩ := Period.report_eq_some hlen (by omega)
  have hsum := rainSum_addAll p.samples (.start p.lastErr p.start)
  have hstart : (DataProcess.start p.lastErr p.start).rainSum = 0 := rfl
  rw [hstart, UInt32.zero_add] at hsum
  have hflag : ((DataProcess.start p.lastErr p.start).addAll p.samples).average.rainFlag = 1 ↔
      3 * p.samples.length ≤ 10 * rainCount p.samples := by
    have hten : (UInt32.ofNat (rainCount p.samples) * 10).toNat = 10 * rainCount p.samples := by
      have h10 : (10 : UInt32).toNat = 10 := rfl
      rw [UInt32.toNat_mul, UInt32.toNat_ofNat', Nat.mod_eq_of_lt (a := rainCount _) (by omega),
        h10, Nat.mul_comm, Nat.mod_eq_of_lt (by omega)]
    have hthree : (((DataProcess.start p.lastErr p.start).addAll p.samples).cnt * 3).toNat =
        3 * p.samples.length := by
      have h3 : (3 : UInt32).toNat = 3 := rfl
      rw [UInt32.toNat_mul, hcnt, h3, Nat.mul_comm, Nat.mod_eq_of_lt (by omega)]
    simp only [DataProcess.average, hsum, ge_iff_le, UInt32.le_iff_toNat_le, hten, hthree]
    split_ifs with h
    · exact iff_of_true rfl h
    · exact iff_of_false (by decide) h
  simp only [hreport, Option.some.injEq, exists_eq_left', hflag]
  omega

/-- **Every sensor's report is fair exactly when each tolerates what it has missed.** -/
theorem report_fair_iff (p : Period) (hlen : 10 * p.samples.length < 2 ^ 32) :
    (Quantity.temp.Fair p ∧ Quantity.humi.Fair p ∧ Quantity.co2.Fair p ∧ Quantity.co.Fair p ∧
        RainFair p) ↔
      (Quantity.temp.Tolerates p ∧ Quantity.humi.Tolerates p ∧ Quantity.co2.Tolerates p ∧
        Quantity.co.Tolerates p ∧ RainTolerates p) := by
  simp only [Quantity.fair_iff _ hlen, rainFair_iff hlen]

/-! ## A sensor that fails once -/

instance (q : Quantity) (p : Period) : Decidable (q.Tolerates p) :=
  inferInstanceAs (Decidable (_ → _))

instance (p : Period) : Decidable (RainTolerates p) := inferInstanceAs (Decidable (_ → _))

/-- Two samples, the second of which reports the errors `errBits`. -/
def twoSamples (errBits : UInt8) : Period where
  lastErr := 0
  start := 0
  rounds := [(some ⟨0, 25, 60, 1, 800, 0⟩, 500)]
  last := (some ⟨errBits, 25, 60, 1, 800, 0⟩, 60000)
  running := by simp
  ended := by simp

/-- Two samples without an error have a fair report. -/
theorem report_fair_iff_flawless :
    10 * (twoSamples 0).samples.length < 2 ^ 32 ∧
      (Quantity.temp.Fair (twoSamples 0) ∧ Quantity.humi.Fair (twoSamples 0) ∧
        Quantity.co2.Fair (twoSamples 0) ∧ Quantity.co.Fair (twoSamples 0) ∧
        RainFair (twoSamples 0)) := by
  have hlen : 10 * (twoSamples 0).samples.length < 2 ^ 32 := by decide
  exact ⟨hlen, (report_fair_iff _ hlen).mpr (by decide)⟩

/-- **The CO2 sensor has measured 800 ppm once, and failed once: 400 ppm are reported.** -/
theorem co2_failed_once_unfair :
    ¬ (Quantity.temp.Fair (twoSamples 8) ∧ Quantity.humi.Fair (twoSamples 8) ∧
        Quantity.co2.Fair (twoSamples 8) ∧ Quantity.co.Fair (twoSamples 8) ∧
        RainFair (twoSamples 8)) := by
  intro ⟨_, _, hco2, _⟩
  have htol := (Quantity.co2.fair_iff (by decide)).mp hco2
  exact absurd htol (by decide)

end GrainWarehouse
