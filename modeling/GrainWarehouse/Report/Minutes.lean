import GrainWarehouse.Machinery.Clock
import GrainWarehouse.Report.Period
import GrainWarehouse.Report.Uplinks

/-!
# Report/Minutes — one average for each minute

`data_process_task` is woken by a sample or by a timeout, and ends a period when a minute is over.
**In every run each sample counts in exactly one period, and each period ends with the average of
its own samples, which the GUI always gets** (`minutes_run`), unless the number of samples is one
that the counter takes for 0.
-/

namespace GrainWarehouse

/-- **The average of these samples**, in the arithmetic of the code. -/
def averageOf (samples : List EnvSample) : EnvAvg :=
  let cnt := UInt32.ofNat samples.length
  let mean (q : Quantity) := (UInt32.ofNat (q.total samples) / cnt).toUInt16
  { errBits := samples.getLast?.elim 0 EnvSample.errBits
    tempAvgX10 := mean .temp
    humiAvgX10 := mean .humi
    rainFlag := if UInt32.ofNat (rainCount samples) * 10 ≥ cnt * 3 then 1 else 0
    co2Avg := mean .co2
    coAvg := mean .co
    sampleCount := cnt }

namespace DataProcess

theorem addAll_append (as bs : List EnvSample) (p : DataProcess) :
    p.addAll (as ++ bs) = (p.addAll as).addAll bs := List.foldl_append

theorem lastErr_addAll (samples : List EnvSample) (p : DataProcess) :
    (p.addAll samples).lastErr = samples.getLast?.elim p.lastErr EnvSample.errBits := by
  rcases List.eq_nil_or_concat samples with rfl | ⟨init, last, rfl⟩
  · rfl
  · rw [List.concat_eq_append, addAll_append, List.getLast?_concat]
    rfl

theorem sum_start_addAll (q : Quantity) (err : UInt8) (t : UInt32) (samples : List EnvSample) :
    q.sum ((start err t).addAll samples) = UInt32.ofNat (q.total samples) := by
  rw [q.sum_addAll, q.sum_start, UInt32.zero_add]

theorem cnt_start_addAll (err : UInt8) (t : UInt32) (samples : List EnvSample) :
    ((start err t).addAll samples).cnt = UInt32.ofNat samples.length := by
  rw [cnt_addAll, start, UInt32.zero_add]

/-- **A period that starts afresh is worth the average of its samples.** -/
theorem average_addAll (err : UInt8) (t : UInt32) {samples : List EnvSample}
    (hne : samples ≠ []) : ((start err t).addAll samples).average = averageOf samples := by
  have hlast : ((start err t).addAll samples).lastErr =
      samples.getLast?.elim 0 EnvSample.errBits := by
    rw [lastErr_addAll, List.getLast?_eq_getLast_of_ne_nil hne]
    rfl
  have hmean (q : Quantity) : (q.sum ((start err t).addAll samples) /
      ((start err t).addAll samples).cnt).toUInt16 =
      (UInt32.ofNat (q.total samples) / UInt32.ofNat samples.length).toUInt16 := by
    rw [sum_start_addAll, cnt_start_addAll]
  have hrain : ((start err t).addAll samples).rainSum = UInt32.ofNat (rainCount samples) := by
    rw [rainSum_addAll, start, UInt32.zero_add]
  -- the quantities are the fields of the average
  calc ((start err t).addAll samples).average
      = ⟨((start err t).addAll samples).lastErr,
          (Quantity.temp.sum ((start err t).addAll samples) /
            ((start err t).addAll samples).cnt).toUInt16,
          (Quantity.humi.sum ((start err t).addAll samples) /
            ((start err t).addAll samples).cnt).toUInt16,
          if ((start err t).addAll samples).rainSum * 10 ≥
            ((start err t).addAll samples).cnt * 3 then 1 else 0,
          (Quantity.co2.sum ((start err t).addAll samples) /
            ((start err t).addAll samples).cnt).toUInt16,
          (Quantity.co.sum ((start err t).addAll samples) /
            ((start err t).addAll samples).cnt).toUInt16,
          ((start err t).addAll samples).cnt⟩ := rfl
    _ = averageOf samples := by
      rw [hmean, hmean, hmean, hmean, hlast, hrain, cnt_start_addAll]
      rfl

/-- **A round of a period at true times**: within the minute the sample joins the others; when it is
over, they are averaged. -/
theorem round_eq {start now : ℕ} (hle : start ≤ now) (hlt : now < start + 2 ^ 32) (err : UInt8)
    (samples : List EnvSample) (got : Option EnvSample) :
    ((DataProcess.start err (tick start)).addAll samples).round got (tick now) =
      if now - start < 60000 then
        (none, (DataProcess.start err (tick start)).addAll (samples ++ got.toList))
      else
        (if 2 ^ 32 ∣ (samples ++ got.toList).length then none
          else some (averageOf (samples ++ got.toList)),
        DataProcess.start
          ((DataProcess.start err (tick start)).addAll (samples ++ got.toList)).lastErr
          (tick now)) := by
  have hadd : got.elim ((DataProcess.start err (tick start)).addAll samples)
      ((DataProcess.start err (tick start)).addAll samples).add =
      (DataProcess.start err (tick start)).addAll (samples ++ got.toList) := by
    rw [addAll_append]
    cases got <;> rfl
  have hstart : ((DataProcess.start err (tick start)).addAll (samples ++ got.toList)).periodStart =
      tick start := periodStart_addAll _ _
  have hover : tick now - tick start < 60000 ↔ now - start < 60000 := tick_sub_lt_iff hle hlt 60000
  have hcnt : ((DataProcess.start err (tick start)).addAll (samples ++ got.toList)).cnt = 0 ↔
      2 ^ 32 ∣ (samples ++ got.toList).length := by
    rw [cnt_start_addAll, ← UInt32.toNat_inj, UInt32.toNat_ofNat', UInt32.toNat_zero,
      Nat.dvd_iff_mod_eq_zero]
  simp only [round, hadd, hstart, hover, hcnt]
  split_ifs with hrun hdvd
  · rfl
  · rfl
  · have hne : samples ++ got.toList ≠ [] := fun hnil => hdvd (by rw [hnil]; exact dvd_zero _)
    rw [average_addAll err (tick start) hne]

end DataProcess

/-! ## Runs at true times -/

/-- A step that is a round of `data_process_task`. -/
def UplinkAct.isProcess : UplinkAct → Bool
  | .process _ _ => true
  | _ => false

/-- **A step at true times.** -/
inductive TimedUplink
  /-- `data_process_task` wakes up, with or without a sample. -/
  | wake (got : Option EnvSample) (now : ℕ)
  | other (a : UplinkAct) (h : a.isProcess = false)

/-- What the tasks see of it. -/
def TimedUplink.act : TimedUplink → UplinkAct
  | wake got now => .process got (tick now)
  | other a _ => a

/-- The tasks, and the minutes as they are.  The newest are the first. -/
structure Minutes where
  up : Uplinks
  lastWake : ℕ
  /-- The start of the present period. -/
  start : ℕ
  /-- Its samples. -/
  samples : List EnvSample
  /-- The samples of the periods that are over. -/
  periods : List (List EnvSample)
  /-- All samples. -/
  received : List EnvSample
  /-- The averages that have been emitted, and when. -/
  emitted : List (ℕ × EnvAvg)
  /-- The averages that have been written to `LV_RXDataQueue`. -/
  shown : List EnvAvg

namespace Minutes

/-- The tasks start at some time. -/
def boot (t₀ : ℕ) : Minutes where
  up := { Uplinks.boot with proc := .start 0 (tick t₀) }
  lastWake := t₀
  start := t₀
  samples := []
  periods := []
  received := []
  emitted := []
  shown := []

/-- What is emitted in a step. -/
def emission (m : Minutes) (a : TimedUplink) : Option EnvAvg :=
  if m.up.sending.isSome then none else (m.up.next a.act).sending

/-- What is written to `LV_RXDataQueue` in a step, when an average has been sent or dropped. -/
def showing (m : Minutes) (a : TimedUplink) : Option EnvAvg :=
  if m.up.sending.isSome ∧ (m.up.next a.act).sending = none then (m.up.next a.act).lvRx else none

/-- **A step, and what it means for the minutes.**  A task that is sending does not wake up. -/
def next (m : Minutes) (a : TimedUplink) : Minutes :=
  let m' := { m with up := m.up.next a.act, shown := (m.showing a).toList ++ m.shown }
  match a with
  | .other _ _ => m'
  | .wake got now =>
    if m.up.sending.isSome then m'
    else
      let m' := { m' with
        lastWake := now
        received := m.received ++ got.toList
        emitted := ((m.emission a).map fun avg => (now, avg)).toList ++ m.emitted }
      if now - m.start < 60000 then { m' with samples := m.samples ++ got.toList }
      else
        { m' with
          start := now, samples := [], periods := (m.samples ++ got.toList) :: m.periods }

/-- The clock runs forward, and consecutive wake-ups are less than `2 ^ 31` ticks apart. -/
def InTime (m : Minutes) : TimedUplink → Prop
  | .wake _ now => m.up.sending = none → m.lastWake ≤ now ∧ now < m.lastWake + 2 ^ 31
  | .other _ _ => True

/-- **What happens at a wake-up**: an average is emitted when a minute is over and there are enough
samples, it is that of the samples of the period, and it comes a minute or more after any other. -/
def OnTime (enough : ℕ → Prop) [DecidablePred enough] (m : Minutes) : TimedUplink → Prop
  | .wake got now => m.up.sending = none →
    m.emission (.wake got now) =
        (if 60000 ≤ now - m.start ∧ enough (m.samples ++ got.toList).length then
          some (averageOf (m.samples ++ got.toList))
        else none) ∧
      ((m.emission (.wake got now)).isSome → ∀ e ∈ m.emitted, e.1 + 60000 ≤ now)
  | .other _ _ => True

/-- **What is accounted for**: each sample in one period, the present one in the sums, and every
average that has been emitted on the screen, or about to be. -/
structure Accounted (m : Minutes) : Prop where
  samples : m.received = m.periods.reverse.flatten ++ m.samples
  sums : ∃ err, m.up.proc = (DataProcess.start err (tick m.start)).addAll m.samples
  shown : m.emitted.map Prod.snd = m.up.sending.toList ++ m.shown

/-- **The invariant**: what is accounted for, and where the clock is. -/
structure Counting (m : Minutes) : Prop extends Accounted m where
  start_le : m.start ≤ m.lastWake
  running : m.lastWake < m.start + 60000
  emitted_le : ∀ e ∈ m.emitted, e.1 ≤ m.start

theorem counting_boot (t₀ : ℕ) : (boot t₀).Counting where
  samples := rfl
  sums := ⟨0, rfl⟩
  shown := rfl
  start_le := le_refl t₀
  running := Nat.lt_add_of_pos_right (by decide)
  emitted_le _ h := absurd h List.not_mem_nil

/-- The other tasks leave the sums alone, and the average that is being sent is not lost: it stays,
or the GUI has it. -/
theorem leaves_next {s : Uplinks} {a : UplinkAct} (h : a.isProcess = false) :
    (s.next a).proc = s.proc ∧ ((s.next a).sending = s.sending ∨
      ∃ avg, s.sending = some avg ∧ (s.next a).sending = none ∧ (s.next a).lvRx = some avg) := by
  cases a with
  | process got now => cases h
  | post =>
    simp only [Uplinks.next]
    split
    · exact ⟨rfl, Or.inl rfl⟩
    · next avg hsend =>
      split
      · exact ⟨rfl, Or.inl rfl⟩
      · exact ⟨rfl, Or.inr ⟨avg, hsend, rfl, rfl⟩⟩
  | giveUp =>
    simp only [Uplinks.next]
    split
    · exact ⟨rfl, Or.inl rfl⟩
    · next avg hsend =>
      split_ifs
      · exact ⟨rfl, Or.inl rfl⟩
      · exact ⟨rfl, Or.inr ⟨avg, hsend, rfl, rfl⟩⟩
  | pump => exact ⟨rfl, Or.inl rfl⟩
  | loraReceive =>
    simp only [Uplinks.next]
    split <;> exact ⟨rfl, Or.inl rfl⟩
  | loraSend =>
    simp only [Uplinks.next]
    split <;> exact ⟨rfl, Or.inl rfl⟩
  | mqttReceive =>
    simp only [Uplinks.next]
    split <;> exact ⟨rfl, Or.inl rfl⟩
  | mqttPublish =>
    simp only [Uplinks.next]
    split <;> exact ⟨rfl, Or.inl rfl⟩

/-- What is being sent, and what has been shown. -/
theorem toList_sending {m : Minutes} {a : UplinkAct} (h : a.isProcess = false) :
    (m.up.next a).sending.toList ++ ((m.showing (.other a h)).toList ++ m.shown) =
      m.up.sending.toList ++ m.shown := by
  rcases (leaves_next (s := m.up) h).2 with hsame | ⟨avg, hsend, hnone, hlv⟩
  · have hshow : m.showing (.other a h) = none := if_neg fun hs => by
      have hnone : m.up.sending = none := hsame.symm.trans hs.2
      rw [hnone] at hs
      cases hs.1
    rw [hshow, hsame]
    rfl
  · have hshow : m.showing (.other a h) = some avg :=
      (if_pos ⟨by rw [hsend]; rfl, hnone⟩).trans hlv
    rw [hshow, hnone, hsend]
    rfl

/-- **The round of a wake-up in time.** -/
theorem Counting.round {m : Minutes} (h : m.Counting) {got : Option EnvSample} {now : ℕ}
    (hsend : m.up.sending = none) (hin : m.InTime (.wake got now)) :
    ∃ err err', m.up.next (.process got (tick now)) =
      if now - m.start < 60000 then
        { m.up with
          sending := none
          proc := (DataProcess.start err (tick m.start)).addAll (m.samples ++ got.toList) }
      else
        { m.up with
          sending := if 2 ^ 32 ∣ (m.samples ++ got.toList).length then none
            else some (averageOf (m.samples ++ got.toList))
          proc := DataProcess.start err' (tick now) } := by
  obtain ⟨hle, hlt⟩ := hin hsend
  obtain ⟨err, hsums⟩ := h.sums
  have hstart := h.start_le
  have hrun := h.running
  have hround := DataProcess.round_eq (hstart.trans hle) (by omega) err m.samples got
  refine ⟨err,
    ((DataProcess.start err (tick m.start)).addAll (m.samples ++ got.toList)).lastErr, ?_⟩
  have hidle : ¬ m.up.sending.isSome = true := by rw [hsend]; decide
  simp only [Uplinks.next, if_neg hidle, hsums, hround]
  split_ifs <;> rfl

/-- **What is emitted at a wake-up in time.** -/
theorem Counting.emission {m : Minutes} (h : m.Counting) {got : Option EnvSample} {now : ℕ}
    (hsend : m.up.sending = none) (hin : m.InTime (.wake got now)) :
    m.emission (.wake got now) =
      if 60000 ≤ now - m.start ∧ ¬ 2 ^ 32 ∣ (m.samples ++ got.toList).length then
        some (averageOf (m.samples ++ got.toList))
      else none := by
  obtain ⟨err, err', hround⟩ := h.round hsend hin
  have hidle : ¬ m.up.sending.isSome = true := by rw [hsend]; decide
  rw [Minutes.emission, if_neg hidle, TimedUplink.act, hround]
  by_cases hrun : now - m.start < 60000
  · rw [if_pos hrun, if_neg fun hc => absurd hc.1 (Nat.not_le.mpr hrun)]
  · rw [if_neg hrun]
    by_cases hdvd : 2 ^ 32 ∣ (m.samples ++ got.toList).length
    · exact (if_pos hdvd).trans (if_neg fun hc => hc.2 hdvd).symm
    · exact (if_neg hdvd).trans (if_pos ⟨Nat.not_lt.mp hrun, hdvd⟩).symm

theorem Counting.onTime {m : Minutes} (h : m.Counting) (a : TimedUplink) (hin : m.InTime a) :
    m.OnTime (fun n => ¬ 2 ^ 32 ∣ n) a := by
  cases a with
  | other a _ => trivial
  | wake got now =>
    intro hsend
    have hemit := h.emission hsend hin
    refine ⟨hemit, fun hsome e hmem => ?_⟩
    rw [hemit] at hsome
    split_ifs at hsome with hover
    · have hle := h.emitted_le e hmem
      have hrun := h.start_le
      have hwake := (hin hsend).1
      omega
    · cases hsome

/-- Nothing is shown while the task has nothing to send. -/
theorem showing_wake {m : Minutes} (hsend : m.up.sending = none) (got : Option EnvSample)
    (now : ℕ) : m.showing (.wake got now) = none :=
  if_neg fun hs => by
    rw [hsend] at hs
    cases hs.1

/-- **What has been emitted after a wake-up** is what is shown or about to be sent. -/
theorem Counting.shown_wake {m : Minutes} (h : m.Counting) (hsend : m.up.sending = none)
    (got : Option EnvSample) (now : ℕ) :
    (((m.emission (.wake got now)).map fun avg => (now, avg)).toList ++ m.emitted).map Prod.snd =
      (m.up.next (.process got (tick now))).sending.toList ++ m.shown := by
  have hidle : ¬ m.up.sending.isSome = true := by rw [hsend]; decide
  have hshown : m.emitted.map Prod.snd = m.shown := by
    rw [h.shown, hsend]
    rfl
  rw [Minutes.emission, if_neg hidle, TimedUplink.act, List.map_append, hshown]
  cases (m.up.next (.process got (tick now))).sending <;> rfl

/-- An emission at a wake-up is no later than the wake-up. -/
theorem Counting.emitted_le_wake {m : Minutes} (h : m.Counting) {now : ℕ} (hle : m.start ≤ now)
    (emission : Option EnvAvg) :
    ∀ e ∈ (emission.map fun avg => (now, avg)).toList ++ m.emitted, e.1 ≤ now := by
  intro e hmem
  rcases List.mem_append.mp hmem with hnew | hold
  · cases emission with
    | none => cases hnew
    | some avg =>
      obtain rfl := List.mem_singleton.mp hnew
      exact le_refl now
  · exact (h.emitted_le e hold).trans hle

/-- **What a wake-up in time preserves.** -/
theorem Counting.wake {m : Minutes} (h : m.Counting) (hsend : m.up.sending = none)
    {got : Option EnvSample} {now : ℕ} (hin : m.InTime (.wake got now)) :
    (m.next (.wake got now)).Counting := by
  have hidle : ¬ m.up.sending.isSome = true := by rw [hsend]; decide
  have hemit := h.shown_wake hsend got now
  obtain ⟨hle, hlt⟩ := hin hsend
  obtain ⟨err, err', hround⟩ := h.round hsend hin
  have hon := h.emission hsend hin
  have hstart := h.start_le
  simp only [Minutes.next, if_neg hidle, showing_wake hsend]
  by_cases hrun : now - m.start < 60000
  · rw [if_pos hrun]
    rw [if_neg fun hc => absurd hc.1 (Nat.not_le.mpr hrun)] at hon
    refine ⟨⟨?_, ⟨err, ?_⟩, hemit⟩, hstart.trans hle, ?_, ?_⟩
    · change m.received ++ got.toList = _ ++ (m.samples ++ got.toList)
      rw [h.samples, List.append_assoc]
    · rw [TimedUplink.act, hround, if_pos hrun]
    · change now < m.start + 60000
      omega
    · rw [hon]
      exact h.emitted_le
  · rw [if_neg hrun]
    refine ⟨⟨?_, ⟨err', ?_⟩, hemit⟩, le_refl now, Nat.lt_add_of_pos_right (by decide),
      h.emitted_le_wake (hstart.trans hle) _⟩
    · change m.received ++ got.toList =
        ((m.samples ++ got.toList) :: m.periods).reverse.flatten ++ []
      rw [h.samples, List.reverse_cons, List.flatten_append, List.flatten_singleton,
        List.append_nil, List.append_assoc]
    · rw [TimedUplink.act, hround, if_neg hrun]
      rfl

/-- **What a step preserves**, in time. -/
theorem Counting.next {m : Minutes} (a : TimedUplink) (h : m.Counting) (hin : m.InTime a) :
    (m.next a).Counting := by
  cases a with
  | other a hproc =>
    obtain ⟨err, hsums⟩ := h.sums
    exact ⟨⟨h.samples, ⟨err, (leaves_next hproc).1.trans hsums⟩,
      h.shown.trans (toList_sending hproc).symm⟩, h.start_le, h.running, h.emitted_le⟩
  | wake got now =>
    cases hsend : m.up.sending with
    | some avg =>
      -- the task is elsewhere
      have hbusy : m.up.sending.isSome = true := by rw [hsend]; rfl
      have hup : m.up.next (.process got (tick now)) = m.up := if_pos hbusy
      have hshow : m.showing (.wake got now) = none := if_neg fun hs => by
        rw [TimedUplink.act, hup, hsend] at hs
        cases hs.2
      simp only [Minutes.next, TimedUplink.act, hup, hshow, if_pos hbusy]
      exact h
    | none => exact h.wake hsend hin

/-- **The wait for room comes to an end, and the GUI gets the average**, whether `ReportQueue` is
full or not. -/
theorem lvRx_of_sending {s : Uplinks} {avg : EnvAvg} (h : s.sending = some avg) :
    (s.next (if s.queue.Room then .post else .giveUp)).sending = none ∧
      (s.next (if s.queue.Room then .post else .giveUp)).lvRx = some avg := by
  split_ifs with hroom
  · obtain ⟨q, hq⟩ := Option.isSome_iff_exists.mp (Fifo.send_isSome (a := avg).mpr hroom)
    simp only [Uplinks.next, h, hq, and_self]
  · simp only [Uplinks.next, h, if_neg hroom, and_self]

/-- A run of the tasks from some time on. -/
def run (t₀ : ℕ) (as : List TimedUplink) : Minutes := runFrom next (boot t₀) as

/-- **In every run in time**, at each wake-up an average is emitted exactly when a minute of the
period is over and its number of samples is not a multiple of `2 ^ 32`; it is the average of these
samples, a minute or more after the one before.  Each sample is in one period, and each average that
has been emitted has been written to `LV_RXDataQueue`, or is the next to be. -/
theorem minutes_run (t₀ : ℕ) (as : List TimedUplink) (h : EachStep next InTime (boot t₀) as) :
    EachStep next (OnTime fun n => ¬ 2 ^ 32 ∣ n) (boot t₀) as ∧ (run t₀ as).Accounted ∧
      ∀ avg ∈ (run t₀ as).up.sending,
        ((run t₀ as).up.next (if (run t₀ as).up.queue.Room then .post else .giveUp)).lvRx =
          some avg :=
  ⟨EachStep.imp (fun _ a hm hin => Counting.next a hm hin) (fun _ a hm hin => hm.onTime a hin) as
    (counting_boot t₀) h,
    (EachStep.run (fun _ a hm hin => Counting.next a hm hin) as (counting_boot t₀) h).toAccounted,
    fun _ havg => (lvRx_of_sending havg).2⟩

instance (m : Minutes) : ∀ a : TimedUplink, Decidable (m.InTime a)
  | .wake _ now => inferInstanceAs (Decidable (m.up.sending = none →
      m.lastWake ≤ now ∧ now < m.lastWake + 2 ^ 31))
  | .other _ _ => inferInstanceAs (Decidable True)

/-- Three minutes with a sample each, the counter wraps in the first, and nobody reads
`ReportQueue`: the last average finds it full. -/
def threeMinutes : List TimedUplink :=
  let minute (t : ℕ) : List TimedUplink :=
    [.wake (some ⟨0, 20, 50, 1, 400, 50⟩) (t + 500), .wake none (t + 60500)]
  minute 4294960000 ++ [.other .post rfl] ++ minute 4295020500 ++ [.other .post rfl] ++
    minute 4295081000 ++ [.other .giveUp rfl]

theorem minutes_run_threeMinutes :
    EachStep next (OnTime fun n => ¬ 2 ^ 32 ∣ n) (boot 4294960000) threeMinutes ∧
      (run 4294960000 threeMinutes).Accounted ∧
      ∀ avg ∈ (run 4294960000 threeMinutes).up.sending,
        ((run 4294960000 threeMinutes).up.next
          (if (run 4294960000 threeMinutes).up.queue.Room then .post else .giveUp)).lvRx =
          some avg :=
  minutes_run 4294960000 threeMinutes (by decide +kernel)

/-- All three have been shown. -/
example : (run 4294960000 threeMinutes).shown.length = 3 := by decide +kernel

/-! ## A counter that wraps -/

/-- Samples without a pause. -/
def burst (n : ℕ) : List TimedUplink := List.replicate n (.wake (some ⟨0, 20, 50, 1, 400, 50⟩) 0)

/-- The first millisecond, with this many samples. -/
structure Flooded (n : ℕ) (m : Minutes) : Prop extends Counting m where
  idle : m.up.sending = none
  first : m.start = 0
  now : m.lastWake = 0
  length : m.samples.length = n

theorem Flooded.inTime {n : ℕ} {m : Minutes} (h : m.Flooded n) {got : Option EnvSample} {t : ℕ}
    (ht : t < 2 ^ 31) : m.InTime (.wake got t) := fun _ => by
  rw [h.now]
  omega

theorem Flooded.next {n : ℕ} {m : Minutes} (h : m.Flooded n) (s : EnvSample) :
    (m.next (.wake (some s) 0)).Flooded (n + 1) := by
  have hin : m.InTime (.wake (some s) 0) := h.inTime (by decide)
  obtain ⟨err, err', hround⟩ := h.toCounting.round h.idle hin
  have hidle : ¬ m.up.sending.isSome = true := by rw [h.idle]; decide
  have hrun : 0 - m.start < 60000 := by omega
  rw [if_pos hrun] at hround
  have hnext : (m.next (.wake (some s) 0)).Counting := h.toCounting.next _ hin
  refine ⟨hnext, ?_, ?_, ?_, ?_⟩
  all_goals simp only [Minutes.next, if_neg hidle, if_pos hrun, TimedUplink.act]
  · rw [hround]
  · exact h.first
  · simp only [Option.toList_some, List.length_append, h.length, List.length_singleton]

/-- A burst is in time, and all of it is in the period. -/
theorem Flooded.burst : ∀ (n : ℕ) {k : ℕ} {m : Minutes}, m.Flooded k →
    EachStep Minutes.next InTime m (burst n) ∧ (runFrom Minutes.next m (burst n)).Flooded (k + n)
  | 0, _, _, h => ⟨trivial, h⟩
  | n + 1, k, m, h => by
      obtain ⟨hin, hrun⟩ := Flooded.burst n (h.next ⟨0, 20, 50, 1, 400, 50⟩)
      rw [Nat.add_right_comm] at hrun
      exact ⟨⟨h.inTime (by decide), hin⟩, hrun⟩

/-- **With `2 ^ 32` samples in a minute there is no average.** -/
theorem burst_onTime : ¬ ∀ (t₀ : ℕ) (as : List TimedUplink), EachStep next InTime (boot t₀) as →
    EachStep next (OnTime fun n => 0 < n) (boot t₀) as := by
  intro hall
  have hboot : (boot 0).Flooded 0 := ⟨counting_boot 0, rfl, rfl, rfl, rfl⟩
  obtain ⟨hin, hflood⟩ := Flooded.burst (2 ^ 32) hboot
  have hlast : InTime (runFrom next (boot 0) (burst (2 ^ 32))) (.wake none 60000) :=
    hflood.inTime (by decide)
  have hrun := hall 0 (burst (2 ^ 32) ++ [.wake none 60000])
    (EachStep.append_iff.mpr ⟨hin, hlast, trivial⟩)
  have hon := ((EachStep.append_iff.mp hrun).2.1 hflood.idle).1
  have hlen : ((runFrom next (boot 0) (burst (2 ^ 32))).samples ++
      (none : Option EnvSample).toList).length = 2 ^ 32 := by
    rw [Option.toList_none, List.append_nil, hflood.length, Nat.zero_add]
  rw [hflood.toCounting.emission hflood.idle hlast, hlen, hflood.first,
    if_neg fun hc => hc.2 (dvd_refl _), if_pos ⟨by decide, by decide⟩] at hon
  cases hon

end Minutes

end GrainWarehouse
