import Mathlib
import GrainWarehouse.Machinery.Numeral

/-!
# Monitor/Cpu — the share of the CPU that is not idle

`sys_calc_cpu_pct` reads two 32-bit counters, and takes a counter that has wrapped around for one
that has been reset.  **It returns the share of the time since the last call exactly when no counter
has wrapped and the idle increase, times 100, fits into 32 bits**, or a counter has wrapped and the
reading happens to give the same percentage (`sysCalcCpuPct_iff`).
-/

namespace GrainWarehouse

/-- What `sys_calc_cpu_pct` uses of a `TaskStatus_t`. -/
structure TaskStatus where
  pcTaskName : List UInt8
  ulRunTimeCounter : UInt32

/-- What the kernel answers in a call. -/
structure CpuReading where
  /-- `portGET_RUN_TIME_COUNTER_VALUE()`. -/
  totalRuntime : UInt32
  /-- `uxTaskGetNumberOfTasks()`. -/
  n : ℕ
  /-- The array, if there is memory for it, as `uxTaskGetSystemState` has filled it. -/
  arr : Option (List TaskStatus)

/-- `last_total_runtime` and `last_idle_runtime`. -/
structure CpuLast where
  lastTotalRuntime : UInt32
  lastIdleRuntime : UInt32

/-- The counter of the first task with a name in `IDLE…`, or 0. -/
def idleTime (arr : List TaskStatus) : UInt32 :=
  (arr.find? fun t => (ascii "IDLE").isPrefixOf t.pcTaskName).elim 0 TaskStatus.ulRunTimeCounter

/-- The difference to the last reading, or the reading itself if it is smaller. -/
def deltaRuntime (reading last : UInt32) : UInt32 :=
  if reading ≥ last then reading - last else reading

/-- `sys_calc_cpu_pct`. -/
def sysCalcCpuPct (r : CpuReading) (s : CpuLast) : UInt8 × CpuLast :=
  if r.totalRuntime < 1000 then (0, s)
  else if r.n = 0 then (0, s)
  else
    match r.arr with
    | none => (0, s)
    | some arr =>
      let deltaTotal := deltaRuntime r.totalRuntime s.lastTotalRuntime
      let deltaIdle := deltaRuntime (idleTime arr) s.lastIdleRuntime
      let s' : CpuLast := ⟨r.totalRuntime, idleTime arr⟩
      if deltaTotal = 0 then (0, s')
      else
        let cpu := 100 - deltaIdle * 100 / deltaTotal
        ((if cpu > 100 then 100 else cpu).toUInt8, s')

/-! ## Increases -/

/-- A counter at `last` has wrapped after an increase of `d`. -/
def Wraps (last : UInt32) (d : ℕ) : Prop := 2 ^ 32 ≤ last.toNat + d

instance (last : UInt32) (d : ℕ) : Decidable (Wraps last d) := inferInstanceAs (Decidable (_ ≤ _))

/-- The increase since the last reading, or since the wrap. -/
def sinceWrap (last : UInt32) (d : ℕ) : ℕ :=
  if Wraps last d then last.toNat + d - 2 ^ 32 else d

/-- **A counter that has wrapped is taken for one that has been reset.** -/
theorem toNat_deltaRuntime (last : UInt32) {d : ℕ} (hd : d < 2 ^ 32) :
    (deltaRuntime (last + UInt32.ofNat d) last).toNat = sinceWrap last d := by
  have hlast := last.toNat_lt
  have hread : (last + UInt32.ofNat d).toNat = (last.toNat + d) % 2 ^ 32 := by
    rw [UInt32.toNat_add, UInt32.toNat_ofNat', Nat.add_mod_mod]
  simp only [deltaRuntime, sinceWrap, ge_iff_le, UInt32.le_iff_toNat_le, hread]
  by_cases hwrap : Wraps last d
  · rw [if_pos hwrap]
    rw [Wraps] at hwrap
    have hmod : (last.toNat + d) % 2 ^ 32 = last.toNat + d - 2 ^ 32 := by omega
    rw [hmod, if_neg (by omega), hread, hmod]
  · rw [if_neg hwrap]
    rw [Wraps] at hwrap
    have hmod : (last.toNat + d) % 2 ^ 32 = last.toNat + d := by omega
    rw [hmod, if_pos (by omega), UInt32.toNat_sub, hread, hmod]
    omega

/-- **The percentage, from the increases as they are taken.** -/
def takenPct (total idle : ℕ) : ℕ :=
  let share := 100 * idle % 2 ^ 32 / total
  if share ≤ 100 then 100 - share else 100

/-- What is asked of a call: there is a measurement. -/
structure Measures (r : CpuReading) (s : CpuLast) (total idle : ℕ) : Prop where
  total_pos : 0 < total
  total_lt : total < 2 ^ 32
  idle_le : idle ≤ total
  reading : r.totalRuntime = s.lastTotalRuntime + UInt32.ofNat total
  enough : 1000 ≤ r.totalRuntime
  tasks : r.n ≠ 0
  idleReading : ∃ arr, r.arr = some arr ∧ idleTime arr = s.lastIdleRuntime + UInt32.ofNat idle

/-- A share of more than 100 percent comes out as none. -/
theorem toNat_cpu (share : UInt32) :
    (if 100 - share > 100 then 100 else 100 - share).toUInt8.toNat =
      if share.toNat ≤ 100 then 100 - share.toNat else 100 := by
  have hlt := share.toNat_lt
  have hsub : (100 - share).toNat = (2 ^ 32 - share.toNat + 100) % 2 ^ 32 := UInt32.toNat_sub _ _
  have hover : 100 - share > 100 ↔ ¬ share.toNat ≤ 100 := by
    rw [gt_iff_lt, UInt32.lt_iff_toNat_lt, hsub]
    change 100 < _ ↔ _
    omega
  rw [if_congr hover rfl rfl]
  split_ifs with hle
  · rw [UInt32.toNat_toUInt8, hsub]
    omega
  · rfl

namespace Measures

variable {r : CpuReading} {s : CpuLast} {total idle : ℕ}

/-- The increase of the total counter is never taken for nothing. -/
theorem sinceWrap_pos (h : Measures r s total idle) : 0 < sinceWrap s.lastTotalRuntime total := by
  have hread : r.totalRuntime.toNat = (s.lastTotalRuntime.toNat + total) % 2 ^ 32 := by
    rw [h.reading, UInt32.toNat_add, UInt32.toNat_ofNat', Nat.add_mod_mod]
  have hge : 1000 ≤ r.totalRuntime.toNat := UInt32.le_iff_toNat_le.mp h.enough
  have hlast := s.lastTotalRuntime.toNat_lt
  have hlt := h.total_lt
  have hpos := h.total_pos
  rw [sinceWrap]
  split_ifs with hwrap
  · rw [Wraps] at hwrap
    omega
  · exact hpos

/-- **What is returned.** -/
theorem sysCalcCpuPct_eq (h : Measures r s total idle) :
    (sysCalcCpuPct r s).1.toNat =
      takenPct (sinceWrap s.lastTotalRuntime total) (sinceWrap s.lastIdleRuntime idle) := by
  obtain ⟨arr, harr, hidle⟩ := h.idleReading
  have hilt : idle < 2 ^ 32 := h.idle_le.trans_lt h.total_lt
  have htotal := toNat_deltaRuntime s.lastTotalRuntime h.total_lt
  have hidl := toNat_deltaRuntime s.lastIdleRuntime hilt
  rw [← h.reading] at htotal
  rw [← hidle] at hidl
  have hpos := h.sinceWrap_pos
  have hne : deltaRuntime r.totalRuntime s.lastTotalRuntime ≠ 0 := fun hzero => by
    rw [hzero, UInt32.toNat_zero] at htotal
    omega
  have hnot : ¬ r.totalRuntime < 1000 := UInt32.not_lt.mpr h.enough
  simp only [sysCalcCpuPct, if_neg hnot, if_neg h.tasks, harr, if_neg hne, toNat_cpu, takenPct]
  rw [UInt32.toNat_div, UInt32.toNat_mul, htotal, hidl, Nat.mul_comm]
  rfl

/-- The increases are taken as they are when nothing has wrapped. -/
theorem takenPct_eq_iff (htotal : 0 < total) (hlt : total < 2 ^ 32) (hidle : idle ≤ total) :
    takenPct total idle = 100 - 100 * idle / total ↔ 100 * idle < 2 ^ 32 := by
  have hshare : 100 * idle / total ≤ 100 := by
    rw [Nat.div_le_iff_le_mul_add_pred htotal]
    omega
  have hless : 100 * idle % 2 ^ 32 / total ≤ 100 * idle / total :=
    Nat.div_le_div_right (Nat.mod_le _ _)
  simp only [takenPct, if_pos (hless.trans hshare)]
  constructor
  · intro heq
    by_contra hge
    -- what is lost in 32 bits is more than a percent of the time
    have hmod : 100 * idle % 2 ^ 32 + total ≤ 100 * idle := by
      have hdiv := Nat.div_add_mod (100 * idle) (2 ^ 32)
      have hone : 1 ≤ 100 * idle / 2 ^ 32 := Nat.div_pos (by omega) (by decide)
      omega
    have hstep := Nat.div_le_div_right (c := total) hmod
    rw [Nat.add_div_right _ htotal] at hstep
    omega
  · intro hfits
    rw [Nat.mod_eq_of_lt hfits]

end Measures

/-- **By chance the same percentage**: the increases that are taken after a wrap give it, or more
than 100 percent idle where it was less than one. -/
def Coincides (s : CpuLast) (total idle : ℕ) : Prop :=
  let measured := 100 * sinceWrap s.lastIdleRuntime idle % 2 ^ 32
  let divisor := sinceWrap s.lastTotalRuntime total
  let share := 100 * idle / total
  (share * divisor ≤ measured ∧ measured < (share + 1) * divisor) ∨
    (share = 0 ∧ 101 * divisor ≤ measured)

/-- **`sys_calc_cpu_pct` returns `100 - ⌊100 · I / T⌋` exactly when neither counter has wrapped
since the last call and `100 · I` fits into 32 bits**, or when one has, and the percentage
coincides. -/
theorem sysCalcCpuPct_iff {r : CpuReading} {s : CpuLast} {total idle : ℕ}
    (h : Measures r s total idle) :
    (sysCalcCpuPct r s).1.toNat = 100 - 100 * idle / total ↔
      (¬ Wraps s.lastTotalRuntime total ∧ ¬ Wraps s.lastIdleRuntime idle ∧ 100 * idle < 2 ^ 32) ∨
        ((Wraps s.lastTotalRuntime total ∨ Wraps s.lastIdleRuntime idle) ∧
          Coincides s total idle) := by
  rw [h.sysCalcCpuPct_eq]
  by_cases hwrap : Wraps s.lastTotalRuntime total ∨ Wraps s.lastIdleRuntime idle
  · have hpos := h.sinceWrap_pos
    have hshare : 100 * idle / total ≤ 100 := by
      rw [Nat.div_le_iff_le_mul_add_pred h.total_pos]
      have := h.idle_le
      omega
    have hfirst : ¬ (¬ Wraps s.lastTotalRuntime total ∧ ¬ Wraps s.lastIdleRuntime idle ∧
        100 * idle < 2 ^ 32) := fun hn => hwrap.elim hn.1 hn.2.1
    rw [or_iff_right hfirst, and_iff_right hwrap]
    -- both sides as conditions on the quotient
    have hquot : ∀ k, k ≤ 100 * sinceWrap s.lastIdleRuntime idle % 2 ^ 32 /
        sinceWrap s.lastTotalRuntime total ↔ k * sinceWrap s.lastTotalRuntime total ≤
          100 * sinceWrap s.lastIdleRuntime idle % 2 ^ 32 := fun k =>
      Nat.le_div_iff_mul_le hpos
    simp only [Coincides, takenPct, ← Nat.not_le, ← hquot]
    split_ifs <;> omega
  · obtain ⟨htotal, hidle⟩ := not_or.mp hwrap
    rw [sinceWrap, if_neg htotal, sinceWrap, if_neg hidle,
      Measures.takenPct_eq_iff h.total_pos h.total_lt h.idle_le]
    simp only [htotal, hidle, not_false_eq_true, true_and, or_self, false_and, or_false]

/-- Four fifths of the time were idle. -/
def mostlyIdle : CpuReading := ⟨1125000, 1, some [⟨ascii "IDLE", 900000⟩]⟩

theorem sysCalcCpuPct_iff_mostlyIdle :
    (sysCalcCpuPct mostlyIdle ⟨0, 0⟩).1.toNat = 100 - 100 * 900000 / 1125000 ↔
      (¬ Wraps 0 1125000 ∧ ¬ Wraps 0 900000 ∧ 100 * 900000 < 2 ^ 32) ∨
        ((Wraps 0 1125000 ∨ Wraps 0 900000) ∧ Coincides ⟨0, 0⟩ 1125000 900000) :=
  sysCalcCpuPct_iff
    ⟨by decide, by decide, by decide, by decide, by decide, by decide, _, rfl, by decide⟩

/-- Nothing has run for `2 ^ 31` ticks, and the CPU is shown as fully busy. -/
theorem idle_sysCalcCpuPct : ¬ ∀ (r : CpuReading) (s : CpuLast) (total idle : ℕ),
    Measures r s total idle →
      (sysCalcCpuPct r s).1.toNat = 100 - 100 * idle / total := by
  intro hall
  have hidle := hall ⟨2147483648, 1, some [⟨ascii "IDLE", 2147483648⟩]⟩ ⟨0, 0⟩ 2147483648 2147483648
    ⟨by decide, by decide, by decide, by decide, by decide, by decide, _, rfl, by decide⟩
  exact absurd hidle (by decide +kernel)

end GrainWarehouse
