import GrainWarehouse.Machinery.Recent
import GrainWarehouse.Machinery.Runs
import GrainWarehouse.Report.Averages

/-!
# Report/History — the hours behind the screen

`apply_avg_to_gui` keeps the last 60 averages of each channel, and before it takes every sixtieth
one further it pushes their mean into a second ring, of 24 hours.  **The hours are the means of the
blocks of 60 averages, one after the other** (`hourly_eq`), and **`my_gui_get_average` gives the
means of the last ones** (`gui_hours`).  Values are exact.
-/

namespace GrainWarehouse

/-- `HISTORY_BUCKETS`. -/
abbrev historyBuckets : ℕ := 60

/-- `HOUR_HISTORY`. -/
abbrev hourHistory : ℕ := 24

/-- The channels of the screen. -/
inductive Chan
  | temp | hum | co2 | co
  deriving DecidableEq

/-- `chan_pick_value_from_avg`. -/
def chanPickValueFromAvg (ch : Chan) (a : EnvAvg) : ℚ :=
  match ch with
  | .temp => a.tempAvgX10.toNat / 10
  | .hum => a.humiAvgX10.toNat / 10
  | .co2 => a.co2Avg.toNat
  | .co => a.coAvg.toNat

/-- **The history of the screen**, with the values that have been pushed into the hours. -/
structure GuiHistory where
  curValues : Chan → ℚ
  /-- `history`, `hist_head` and `hist_count`. -/
  history : Chan → Recent historyBuckets ℚ
  /-- `history_hour`, `hour_head` and `hour_count`. -/
  historyHour : Chan → Recent hourHistory ℚ
  sensorDataCountMin : ℕ
  hourly : Chan → List ℚ

namespace GuiHistory

/-- `history_init`. -/
def init : GuiHistory where
  curValues _ := 0
  history _ := .init 0
  historyHour _ := .init 0
  sensorDataCountMin := 0
  hourly _ := []

/-- The mean of the written slots of `history[ch]`. -/
def hourMean (g : GuiHistory) (ch : Chan) : ℚ := (g.history ch).slots.sum / (g.history ch).count

/-- The roll-up of an hour, channel by channel. -/
def rollUp (g : GuiHistory) : GuiHistory :=
  { g with
    sensorDataCountMin := 0
    historyHour := fun ch =>
      if (g.history ch).count = 0 then g.historyHour ch else (g.historyHour ch).push (g.hourMean ch)
    hourly := fun ch =>
      if (g.history ch).count = 0 then g.hourly ch else g.hourly ch ++ [g.hourMean ch] }

/-- `apply_avg_to_gui`. -/
def applyAvgToGui (g : GuiHistory) (avg : EnvAvg) : GuiHistory :=
  let g := { g with curValues := fun ch => chanPickValueFromAvg ch avg }
  let g := if g.sensorDataCountMin ≥ 60 then g.rollUp else g
  { g with
    sensorDataCountMin := g.sensorDataCountMin + 1
    history := fun ch => (g.history ch).push (g.curValues ch) }

/-- The history after these averages. -/
def after (avgs : List EnvAvg) : GuiHistory := runFrom applyAvgToGui init avgs

end GuiHistory

/-- What `my_gui_get_average` gives. -/
structure GuiAverages where
  avg30min : ℚ
  avg60min : ℚ
  avg12h : ℚ
  avg24h : ℚ

/-- `my_gui_get_average`. -/
def myGuiGetAverage (g : GuiHistory) (ch : Chan) : GuiAverages :=
  let n := (g.history ch).count
  let nh := (g.historyHour ch).count
  let take30 := if n ≥ 30 then 30 else n
  let take24 := if nh ≥ hourHistory then hourHistory else nh
  let take12 := if nh ≥ 12 then 12 else nh
  { avg60min := if n > 0 then (g.history ch).slots.sum / n else -1
    avg30min := if n > 0 then ((g.history ch).latest take30).sum / take30 else -1
    avg24h := if nh > 0 then ((g.historyHour ch).latest take24).sum / take24 else -1
    avg12h := if nh > 0 then ((g.historyHour ch).latest take12).sum / take12 else -1 }

/-! ## Means -/

/-- The mean of a list. -/
def mean (xs : List ℚ) : ℚ := xs.sum / xs.length

/-- The means of the first `h` blocks of 60. -/
def blockMeans (xs : List ℚ) (h : ℕ) : List ℚ :=
  (List.range h).map fun k => mean ((xs.drop (60 * k)).take 60)

/-- More values change nothing about the blocks that are full. -/
theorem blockMeans_append {xs : List ℚ} {h : ℕ} (hh : 60 * h ≤ xs.length) (ys : List ℚ) :
    blockMeans (xs ++ ys) h = blockMeans xs h := by
  refine List.map_congr_left fun k hk => ?_
  have hk' := List.mem_range.mp hk
  rw [List.drop_append_of_le_length (by omega), List.take_append_of_le_length]
  rw [List.length_drop]
  omega

/-- One more block. -/
theorem blockMeans_succ (xs : List ℚ) {h : ℕ} (hh : xs.length = 60 * (h + 1)) :
    blockMeans xs (h + 1) = blockMeans xs h ++ [mean (xs.rtake 60)] := by
  have hlast : (xs.drop (60 * h)).take 60 = xs.rtake 60 := by
    have hskip : xs.length - 60 = 60 * h := by omega
    rw [List.rtake, hskip, List.take_of_length_le]
    rw [List.length_drop]
    omega
  rw [blockMeans, List.range_succ, List.map_append, List.map_singleton, hlast]
  rfl

/-! ## What the history holds -/

/-- **After these averages**, what the history holds. -/
structure GuiHistory.Shows (g : GuiHistory) (avgs : List EnvAvg) : Prop where
  minutes : ∀ ch, (g.history ch).Holds (avgs.map (chanPickValueFromAvg ch))
  hours : ∀ ch, (g.historyHour ch).Holds (g.hourly ch)
  hourly : ∀ ch, g.hourly ch =
    blockMeans (avgs.map (chanPickValueFromAvg ch)) ((avgs.length - 1) / 60)
  count : g.sensorDataCountMin = if avgs.length = 0 then 0 else (avgs.length - 1) % 60 + 1

namespace GuiHistory.Shows

variable {g : GuiHistory} {avgs : List EnvAvg}

theorem init : GuiHistory.init.Shows [] where
  minutes _ := Recent.holds_init 0
  hours _ := Recent.holds_init 0
  hourly _ := rfl
  count := rfl

/-- **When an hour is over, its mean is pushed.** -/
theorem rollUp (h : g.Shows avgs) {m : ℕ} (hlen : avgs.length = 60 * (m + 1)) (ch : Chan) :
    (g.rollUp.historyHour ch).Holds (g.rollUp.hourly ch) ∧
      g.rollUp.hourly ch = blockMeans (avgs.map (chanPickValueFromAvg ch)) (m + 1) := by
  have hxs : (avgs.map (chanPickValueFromAvg ch)).length = 60 * (m + 1) := by
    rw [List.length_map, hlen]
  have hcount : (g.history ch).count = 60 := by
    rw [(h.minutes ch).count, hxs]
    exact Nat.min_eq_right (by rw [historyBuckets]; omega)
  have hmean : g.hourMean ch = mean ((avgs.map (chanPickValueFromAvg ch)).rtake 60) := by
    have hlast : ((avgs.map (chanPickValueFromAvg ch)).rtake 60).length = 60 := by
      rw [List.rtake, List.length_drop, hxs]
      omega
    rw [GuiHistory.hourMean, (h.minutes ch).sum_slots, mean, hlast, hcount]
  have hne : (g.history ch).count ≠ 0 := by
    rw [hcount]
    decide
  have hprev : (avgs.length - 1) / 60 = m := by omega
  have hpushed : g.rollUp.hourly ch = g.hourly ch ++ [g.hourMean ch] := if_neg hne
  constructor
  · have hring : g.rollUp.historyHour ch = (g.historyHour ch).push (g.hourMean ch) := if_neg hne
    rw [hring, hpushed]
    exact (h.hours ch).push _
  · rw [hpushed, h.hourly ch, hprev, hmean, blockMeans_succ _ hxs]

/-- The hours as the next average finds them. -/
theorem hour (h : g.Shows avgs) {g' : GuiHistory}
    (hg' : g' = if g.sensorDataCountMin ≥ 60 then g.rollUp else g) :
    g'.sensorDataCountMin = avgs.length % 60 ∧ ∀ ch, (g'.historyHour ch).Holds (g'.hourly ch) ∧
      g'.hourly ch = blockMeans (avgs.map (chanPickValueFromAvg ch)) (avgs.length / 60) := by
  have hcount := h.count
  by_cases hover : g.sensorDataCountMin ≥ 60
  · rw [if_pos hover] at hg'
    rw [hcount] at hover
    split_ifs at hover
    · exact absurd hover (by decide)
    · have hblocks : avgs.length = 60 * ((avgs.length - 1) / 60 + 1) := by omega
      have hnext : (avgs.length - 1) / 60 + 1 = avgs.length / 60 := by omega
      subst hg'
      refine ⟨?_, fun ch => ?_⟩
      · have hzero : g.rollUp.sensorDataCountMin = 0 := rfl
        rw [hzero]
        omega
      · rw [← hnext]
        exact h.rollUp hblocks ch
  · rw [if_neg hover] at hg'
    subst hg'
    rw [hcount] at hover ⊢
    have hsame : (avgs.length - 1) / 60 = avgs.length / 60 := by
      split_ifs at hover
      · next hzero => rw [hzero]
      · omega
    refine ⟨?_, fun ch => ⟨h.hours ch, hsame ▸ h.hourly ch⟩⟩
    split_ifs at hover ⊢
    · next hzero => rw [hzero]
    · omega

/-- **One more average.** -/
theorem applyAvgToGui (h : g.Shows avgs) (avg : EnvAvg) :
    (g.applyAvgToGui avg).Shows (avgs ++ [avg]) := by
  have hset : ({ g with curValues := fun ch => chanPickValueFromAvg ch avg } : GuiHistory).Shows
      avgs := ⟨h.minutes, h.hours, h.hourly, h.count⟩
  obtain ⟨hcount, hhours⟩ := hset.hour rfl
  have hlen : (avgs ++ [avg]).length = avgs.length + 1 := List.length_append
  refine ⟨fun ch => ?_, fun ch => (hhours ch).1, fun ch => ?_, ?_⟩
  · rw [List.map_append, List.map_singleton]
    have hpush := (h.minutes ch).push (chanPickValueFromAvg ch avg)
    rw [GuiHistory.applyAvgToGui]
    split_ifs
    · exact hpush
    · exact hpush
  · rw [hlen, Nat.add_sub_cancel, List.map_append, blockMeans_append]
    · exact (hhours ch).2
    · rw [List.length_map]
      omega
  · rw [hlen, if_neg (Nat.succ_ne_zero _), Nat.add_sub_cancel, ← hcount]
    rfl

/-- **After any averages.** -/
theorem after (avgs : List EnvAvg) : (GuiHistory.after avgs).Shows avgs := by
  induction avgs using List.reverseRecOn with
  | nil => exact init
  | append_singleton avgs avg ih =>
    rw [GuiHistory.after, runFrom_append]
    exact ih.applyAvgToGui avg

end GuiHistory.Shows

/-! ## What the screen reads -/

/-- The mean of a list read backwards. -/
theorem sum_reverse_div {xs : List ℚ} {k : ℕ} (hk : k ≤ xs.length) :
    (xs.rtake k).reverse.sum / k = mean (xs.rtake k) := by
  have hlen : (xs.rtake k).length = k := by
    rw [List.rtake, List.length_drop]
    omega
  rw [List.sum_reverse, mean, hlen]

/-- **Taking the latest values of a ring takes the last of all.** -/
theorem Recent.Holds.mean_latest {n : ℕ} [NeZero n] {r : Recent n ℚ} {xs : List ℚ}
    (h : r.Holds xs) {limit : ℕ} (hlimit : limit ≤ n) :
    (r.latest (if r.count ≥ limit then limit else r.count)).sum /
        ((if r.count ≥ limit then limit else r.count : ℕ) : ℚ) =
      mean (xs.rtake (min limit xs.length)) := by
  have hcount := h.count
  have htake : (if r.count ≥ limit then limit else r.count) = min limit xs.length := by
    split_ifs
    · omega
    · omega
  rw [htake, h.latest_eq (by omega), sum_reverse_div (by omega)]

namespace GuiHistory.Shows

variable {g : GuiHistory} {avgs : List EnvAvg}

theorem length_hourly (h : g.Shows avgs) (ch : Chan) :
    (g.hourly ch).length = (avgs.length - 1) / 60 := by
  rw [h.hourly ch, blockMeans, List.length_map, List.length_range]

theorem getElem?_hourly (h : g.Shows avgs) (ch : Chan) {k : ℕ} (hk : k < (g.hourly ch).length) :
    (g.hourly ch)[k]? =
      some (mean (((avgs.map (chanPickValueFromAvg ch)).drop (60 * k)).take 60)) := by
  rw [h.length_hourly] at hk
  rw [h.hourly ch, blockMeans, List.getElem?_map, List.getElem?_range hk]
  rfl

/-- There is an hour in the ring exactly when one has been pushed. -/
theorem hours_pos_iff (h : g.Shows avgs) (ch : Chan) :
    (g.historyHour ch).count > 0 ↔ ¬ (g.hourly ch).length = 0 := by
  have hcount := (h.hours ch).count
  have hpos : 0 < hourHistory := by decide
  omega

/-- There is an average in the ring exactly when one has been applied. -/
theorem minutes_pos_iff (h : g.Shows avgs) (ch : Chan) :
    (g.history ch).count > 0 ↔ ¬ avgs.length = 0 := by
  have hcount := (h.minutes ch).count
  have hpos : 0 < historyBuckets := by decide
  rw [List.length_map] at hcount
  omega

/-- **The mean of the last 12 hours…** -/
theorem avg12h_eq (h : g.Shows avgs) (ch : Chan) : (myGuiGetAverage g ch).avg12h =
    if (g.hourly ch).length = 0 then -1
    else mean ((g.hourly ch).rtake (min 12 (g.hourly ch).length)) := by
  have hmean := (h.hours ch).mean_latest (by decide : 12 ≤ hourHistory)
  simp only [myGuiGetAverage, h.hours_pos_iff ch, ite_not, hmean]

/-- **…and of the last 24.** -/
theorem avg24h_eq (h : g.Shows avgs) (ch : Chan) : (myGuiGetAverage g ch).avg24h =
    if (g.hourly ch).length = 0 then -1
    else mean ((g.hourly ch).rtake (min 24 (g.hourly ch).length)) := by
  have hmean := (h.hours ch).mean_latest (by decide : 24 ≤ hourHistory)
  simp only [myGuiGetAverage, h.hours_pos_iff ch, ite_not, hmean]

/-- The mean of the last 30 averages… -/
theorem avg30min_eq (h : g.Shows avgs) (ch : Chan) : (myGuiGetAverage g ch).avg30min =
    if avgs.length = 0 then -1
    else mean ((avgs.map (chanPickValueFromAvg ch)).rtake (min 30 avgs.length)) := by
  have hmean := (h.minutes ch).mean_latest (by decide : 30 ≤ historyBuckets)
  rw [List.length_map] at hmean
  simp only [myGuiGetAverage, h.minutes_pos_iff ch, ite_not, hmean]

/-- …and of the last 60. -/
theorem avg60min_eq (h : g.Shows avgs) (ch : Chan) : (myGuiGetAverage g ch).avg60min =
    if avgs.length = 0 then -1 else mean ((avgs.map (chanPickValueFromAvg ch)).rtake 60) := by
  have hlen : ((avgs.map (chanPickValueFromAvg ch)).rtake 60).length = (g.history ch).count := by
    rw [(h.minutes ch).count, List.rtake, List.length_drop, historyBuckets]
    omega
  simp only [myGuiGetAverage, h.minutes_pos_iff ch, ite_not, (h.minutes ch).sum_slots, mean, hlen]

end GuiHistory.Shows

/-- **The hours of a channel are the means of the blocks of 60 averages**, as many as are over when
one more average has come; `my_gui_get_average` gives the means of the last 12 and of the last 24 of
them, or of all if there are fewer, and `-1` if there are none. -/
theorem gui_hours (avgs : List EnvAvg) (ch : Chan) :
    ((GuiHistory.after avgs).hourly ch).length = (avgs.length - 1) / 60 ∧
      (∀ k < ((GuiHistory.after avgs).hourly ch).length,
        ((GuiHistory.after avgs).hourly ch)[k]? =
          some (mean (((avgs.map (chanPickValueFromAvg ch)).drop (60 * k)).take 60))) ∧
      (myGuiGetAverage (.after avgs) ch).avg12h =
        (if ((GuiHistory.after avgs).hourly ch).length = 0 then -1
          else mean (((GuiHistory.after avgs).hourly ch).rtake
            (min 12 ((GuiHistory.after avgs).hourly ch).length))) ∧
      (myGuiGetAverage (.after avgs) ch).avg24h =
        if ((GuiHistory.after avgs).hourly ch).length = 0 then -1
        else mean (((GuiHistory.after avgs).hourly ch).rtake
          (min 24 ((GuiHistory.after avgs).hourly ch).length)) := by
  have h := GuiHistory.Shows.after avgs
  exact ⟨h.length_hourly ch, fun _ hk => h.getElem?_hourly ch hk, h.avg12h_eq ch, h.avg24h_eq ch⟩

end GrainWarehouse
