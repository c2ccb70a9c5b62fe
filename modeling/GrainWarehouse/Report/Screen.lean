import GrainWarehouse.Report.History

/-!
# Report/Screen — one ring of minutes, and three ways to read it

`history_push_one` writes a ring of 60 slots with indices of 8 bits; `my_gui_get_average` reads it
from the start and backwards from the write position, and `update_detail_page` forwards from the
oldest value.  **All three stay within the array, and read the values that have been pushed last**
(`screen_run`); the points of the chart are whole numbers.
-/

namespace GrainWarehouse

/-! ## The ring as the code has it -/

/-- `history[ch]`, `hist_count[ch]` and `hist_head[ch]`. -/
structure ChanRing where
  history : Fin historyBuckets → ℚ
  histCount : UInt8
  histHead : UInt8

/-- `history_init`, for one channel. -/
def ChanRing.init : ChanRing := ⟨fun _ => 0, 0, 0⟩

/-- What a value becomes in a variable of type `int8_t`. -/
def int8 (x : ℤ) : ℤ := x.bmod 256

/-- `idx`, going back from the write position. -/
def backIdx (histHead : UInt8) (i : ℕ) : ℤ :=
  let idx := int8 (int8 histHead.toNat - 1 - i)
  if idx < 0 then int8 (idx + historyBuckets) else idx

namespace ChanRing

/-- `history[ch][idx]`.  Outside the array nothing can be said. -/
def get? (r : ChanRing) (idx : ℤ) : Option ℚ :=
  if h : 0 ≤ idx ∧ idx < historyBuckets then some (r.history ⟨idx.toNat, by omega⟩) else none

/-- `history_push_one`. -/
def historyPushOne (v : ℚ) (r : ChanRing) : Option ChanRing :=
  if h : r.histHead.toNat < historyBuckets then
    some ⟨Function.update r.history ⟨r.histHead.toNat, h⟩ v,
      if r.histCount.toNat < historyBuckets then r.histCount + 1 else r.histCount,
      UInt8.ofNat ((r.histHead.toNat + 1) % historyBuckets)⟩
  else none

/-- A loop that adds up `n` elements. -/
def sumAt (r : ChanRing) (idx : ℕ → ℤ) (n : ℕ) : Option ℚ :=
  (List.range n).foldlM (fun sum i => (r.get? (idx i)).map (sum + ·)) 0

/-- `*avg_60min` in `my_gui_get_average`. -/
def avg60min (r : ChanRing) : Option ℚ :=
  let n := r.histCount.toNat
  if n > 0 then (r.sumAt (fun i => i) n).map (· / n) else some (-1)

/-- `*avg_30min` in `my_gui_get_average`. -/
def avg30min (r : ChanRing) : Option ℚ :=
  let n := r.histCount.toNat
  let take := if n ≥ 30 then 30 else n
  if n > 0 then (r.sumAt (backIdx r.histHead) take).map (· / take) else some (-1)

end ChanRing

/-- `min` in `chan_info`. -/
def Chan.min : Chan → ℤ
  | temp => -10
  | hum => 0
  | co2 => 0
  | co => 0

/-- `max` in `chan_info`. -/
def Chan.max : Chan → ℤ
  | temp => 60
  | hum => 100
  | co2 => 5000
  | co => 500

/-- A value without its fraction. -/
def trunc (v : ℚ) : ℤ := if 0 ≤ v then ⌊v⌋ else ⌈v⌉

/-- The whole part fits into a `lv_coord_t`. -/
def FitsCoord (v : ℚ) : Prop := -2 ^ 15 ≤ trunc v ∧ trunc v < 2 ^ 15

instance : DecidablePred FitsCoord := fun _ => inferInstanceAs (Decidable (_ ∧ _))

/-- The cast to `lv_coord_t`, which is undefined for a value that does not fit. -/
def lvCoord (v : ℚ) : Option ℤ := if FitsCoord v then some (trunc v) else none

/-- `LV_CHART_POINT_NONE`. -/
def lvChartPointNone : ℤ := 32767

/-- `lv_chart_set_value_by_id`, in a chart of 60 points. -/
def lvChartSetValueById (id : ℕ) (value : ℤ) (y : ℕ → ℤ) : ℕ → ℤ :=
  if id ≥ historyBuckets then y else Function.update y id value

/-- All points are cleared. -/
def clearChart (y : ℕ → ℤ) : ℕ → ℤ :=
  (List.range historyBuckets).foldl (fun y i => lvChartSetValueById i lvChartPointNone y) y

/-- A value, kept within the range of its channel. -/
def chanClamp (ch : Chan) (v : ℤ) : ℤ :=
  let v := if v < ch.min then ch.min else v
  if v > ch.max then ch.max else v

/-- The point that `update_detail_page` makes of element `start + i`. -/
def chartPoint (ch : Chan) (r : ChanRing) (start i : ℕ) : Option ℤ := do
  let x ← r.get? (((start + i) % historyBuckets : ℕ) : ℤ)
  let v ← lvCoord x
  some (chanClamp ch v)

/-- The points of the chart after `update_detail_page`. -/
def updateDetailPage (ch : Chan) (r : ChanRing) (y : ℕ → ℤ) : Option (ℕ → ℤ) :=
  let n := r.histCount.toNat
  if n = 0 then some (clearChart y)
  else
    let start := if n < historyBuckets then 0 else r.histHead.toNat
    (List.range n).foldlM
      (fun y i => do
        let v ← chartPoint ch r start i
        some (lvChartSetValueById i v y))
      (clearChart y)

/-- All channels after `history_init`. -/
def screenInit : Chan → ChanRing := fun _ => .init

/-- `history_push_one` on one of them. -/
def pushOne (g : Chan → ChanRing) (p : Chan × ℚ) : Option (Chan → ChanRing) :=
  ((g p.1).historyPushOne p.2).map (Function.update g p.1)

/-- One value after the other. -/
def pushAll (ps : List (Chan × ℚ)) : Option (Chan → ChanRing) := ps.foldlM pushOne screenInit

/-- The values of a channel. -/
def valuesOf (ch : Chan) (ps : List (Chan × ℚ)) : List ℚ :=
  (ps.filter fun p => p.1 = ch).map Prod.snd

/-! ## The ring as it is meant -/

/-- The ring of 8-bit indices is one of slots. -/
structure ChanRing.Refines (r : ChanRing) (q : Recent historyBuckets ℚ) : Prop where
  history : r.history = q.buf
  histCount : r.histCount.toNat = q.count
  histHead : r.histHead.toNat = q.head

namespace ChanRing.Refines

variable {r : ChanRing} {q : Recent historyBuckets ℚ}

theorem init : ChanRing.init.Refines (.init 0) := ⟨rfl, rfl, rfl⟩

/-- An element of the array is a slot. -/
theorem get?_eq (h : r.Refines q) (k : Fin historyBuckets) :
    r.get? ((k : ℕ) : ℤ) = some (q.buf k) := by
  have hk := k.isLt
  rw [get?, dif_pos ⟨by omega, by omega⟩, h.history]
  rfl

/-- **A push is a push.** -/
theorem push (h : r.Refines q) (v : ℚ) :
    ∃ r', r.historyPushOne v = some r' ∧ r'.Refines (q.push v) := by
  have hhead := q.head.isLt
  have hlt : r.histHead.toNat < historyBuckets := h.histHead ▸ hhead
  refine ⟨_, dif_pos hlt, ?_, ?_, ?_⟩
  · have hslot : (⟨r.histHead.toNat, hlt⟩ : Fin historyBuckets) = q.head := Fin.ext h.histHead
    rw [hslot, h.history]
    rfl
  · change (if r.histCount.toNat < historyBuckets then r.histCount + 1 else r.histCount).toNat =
      if q.count < historyBuckets then q.count + 1 else q.count
    rw [h.histCount]
    split_ifs with hroom
    · rw [UInt8.toNat_add, h.histCount]
      exact Nat.mod_eq_of_lt (lt_of_le_of_lt hroom (by decide))
    · exact h.histCount
  · change (UInt8.ofNat ((r.histHead.toNat + 1) % historyBuckets)).toNat =
      ((q.head + 1 : Fin historyBuckets) : ℕ)
    have hmod := Nat.mod_lt ((q.head : ℕ) + 1) (by decide : 0 < historyBuckets)
    rw [h.histHead, UInt8.toNat_ofNat', Nat.mod_eq_of_lt (hmod.trans (by decide)), Fin.val_add,
      Fin.val_one', Nat.add_mod_mod]

end ChanRing.Refines

theorem int8_eq {x : ℤ} (hlo : -128 ≤ x) (hhi : x < 128) : int8 x = x := by
  rw [int8, Int.bmod_def]
  split_ifs <;> omega

/-- **The signed index goes back from the write position**, with one correction. -/
theorem backIdx_eq {head : UInt8} {k : Fin historyBuckets} (hk : head.toNat = k) {i : ℕ}
    (hi : i < historyBuckets) : backIdx head i = ((Recent.back k i : Fin historyBuckets) : ℕ) := by
  have hlt : (k : ℕ) < 60 := k.isLt
  have hi' : i < 60 := hi
  have h60 : (historyBuckets : ℤ) = 60 := rfl
  simp only [backIdx, Recent.back, hk, h60, Fin.val_ofNat]
  rw [int8_eq (x := (k : ℕ)) (by omega) (by omega), int8_eq (by omega) (by omega)]
  split_ifs with hneg
  · rw [int8_eq (by omega) (by omega), Nat.mod_eq_of_lt (by omega)]
    omega
  · rw [Nat.mod_eq_of_lt (by omega)]
    omega

/-- A loop over elements of the array gives their sum. -/
theorem ChanRing.sumAt_eq {r : ChanRing} {idx : ℕ → ℤ} {f : ℕ → ℚ} :
    ∀ {n : ℕ}, (∀ i < n, r.get? (idx i) = some (f i)) →
      r.sumAt idx n = some ((List.range n).map f).sum
  | 0, _ => rfl
  | n + 1, h => by
      have ih := sumAt_eq fun i hi => h i (Nat.lt_succ_of_lt hi)
      rw [sumAt] at ih ⊢
      rw [List.range_succ, List.foldlM_append, ih, List.map_append, List.sum_append]
      simp [h n (Nat.lt_succ_self n)]

namespace ChanRing.Refines

variable {r : ChanRing} {q : Recent historyBuckets ℚ} {xs : List ℚ}

/-- **The mean of all slots is that of the last 60 values**… -/
theorem avg60min_eq (h : r.Refines q) (hq : q.Holds xs) :
    r.avg60min = some (if xs = [] then -1 else mean (xs.rtake 60)) := by
  have hcount := hq.count
  have hsum : r.sumAt (fun i => i) q.count = some q.slots.sum := by
    refine sumAt_eq fun i hi => ?_
    have hlt : i < historyBuckets := by omega
    have hslot : Fin.ofNat historyBuckets i = ⟨i, hlt⟩ := Fin.ext (Nat.mod_eq_of_lt hlt)
    rw [zero_add, hslot]
    exact h.get?_eq ⟨i, hlt⟩
  have hlen : (xs.rtake 60).length = q.count := by
    rw [hcount, List.rtake, List.length_drop, historyBuckets]
    omega
  have hpos : q.count > 0 ↔ ¬ xs = [] := by
    rw [← List.length_eq_zero_iff, hcount, historyBuckets]
    omega
  simp only [avg60min, h.histCount, hsum, hq.sum_slots, hpos, Option.map_some, ite_not]
  rw [mean, hlen]
  split_ifs <;> rfl

/-- …and going backwards gives that of the last 30. -/
theorem avg30min_eq (h : r.Refines q) (hq : q.Holds xs) :
    r.avg30min = some (if xs = [] then -1 else mean (xs.rtake 30)) := by
  have hcount := hq.count
  have hsum : ∀ take ≤ q.count, r.sumAt (backIdx r.histHead) take =
      some (q.latest take).sum := fun take hle => by
    refine sumAt_eq fun i hi => ?_
    have hlt : i < historyBuckets := by omega
    rw [backIdx_eq h.histHead hlt]
    exact h.get?_eq _
  have hpos : q.count > 0 ↔ ¬ xs = [] := by
    rw [← List.length_eq_zero_iff, hcount, historyBuckets]
    omega
  have hmean := hq.mean_latest (by decide : 30 ≤ historyBuckets)
  have hshort : xs.rtake (min 30 xs.length) = xs.rtake 30 := by
    rw [List.rtake, List.rtake]
    congr 1
    omega
  have htake : (if q.count ≥ 30 then 30 else q.count) ≤ q.count := by
    split_ifs <;> omega
  simp only [avg30min, h.histCount, hsum _ htake, hpos, Option.map_some, hmean, hshort, ite_not]
  split_ifs <;> rfl

end ChanRing.Refines

/-! ## The chart -/

/-- Points are set, one after the other. -/
theorem lvChartSetValueById_apply {n : ℕ} (hn : n < historyBuckets) {y₀ y : ℕ → ℤ} {g : ℕ → ℤ}
    (h : ∀ i, y i = if i < n then g i else y₀ i) (i : ℕ) :
    lvChartSetValueById n (g n) y i = if i < n + 1 then g i else y₀ i := by
  rw [lvChartSetValueById, if_neg (Nat.not_le.mpr hn), Function.update_apply, h]
  split_ifs with hi hlt hlt hlt'
  · rw [hi]
  · omega
  · rfl
  · omega
  · omega
  · rfl

/-- **Clearing reaches every point.** -/
theorem clearChart_apply (y : ℕ → ℤ) {i : ℕ} (hi : i < historyBuckets) :
    clearChart y i = lvChartPointNone := by
  have hall : ∀ n ≤ historyBuckets, ∀ i,
      (List.range n).foldl (fun y i => lvChartSetValueById i lvChartPointNone y) y i =
        if i < n then lvChartPointNone else y i := by
    intro n
    induction n with
    | zero => exact fun _ i => rfl
    | succ n ih =>
      intro hn i
      rw [List.range_succ, List.foldl_append]
      exact lvChartSetValueById_apply hn (ih (Nat.le_of_succ_le hn)) i
  rw [clearChart, hall historyBuckets (le_refl _), if_pos hi]

/-- **A loop that sets points sets each of them**, if nothing is undefined. -/
theorem foldlM_setValueById {f : ℕ → Option ℤ} {g : ℕ → ℤ} (y₀ : ℕ → ℤ) :
    ∀ {n : ℕ}, n ≤ historyBuckets → (∀ i < n, f i = some (g i)) →
      ∃ y, (List.range n).foldlM (fun y i => do
        let v ← f i
        some (lvChartSetValueById i v y)) y₀ = some y ∧
        ∀ i, y i = if i < n then g i else y₀ i
  | 0, _, _ => ⟨y₀, rfl, fun _ => rfl⟩
  | n + 1, hn, h => by
      obtain ⟨y, hy, hset⟩ := foldlM_setValueById y₀ (Nat.le_of_succ_le hn) fun i hi =>
        h i (Nat.lt_succ_of_lt hi)
      refine ⟨lvChartSetValueById n (g n) y, ?_, lvChartSetValueById_apply hn hset⟩
      rw [List.range_succ, List.foldlM_append, hy]
      simp [h n (Nat.lt_succ_self n)]

theorem trunc_mono : Monotone trunc := by
  intro v w hvw
  rw [trunc, trunc]
  split_ifs with hv hw hw
  · exact Int.floor_mono hvw
  · exact absurd (hv.trans hvw) hw
  · exact (Int.ceil_le.mpr (by push_cast; exact (not_le.mp hv).le)).trans (Int.floor_nonneg.mpr hw)
  · exact Int.ceil_mono hvw

theorem trunc_intCast (z : ℤ) : trunc z = z := by
  rw [trunc]
  split_ifs
  · exact Int.floor_intCast z
  · exact Int.ceil_intCast z

/-- **Whole numbers are kept within the range like the values themselves.** -/
theorem chanClamp_trunc (ch : Chan) (v : ℚ) :
    chanClamp ch (trunc v) = trunc (Min.min (Max.max v ch.min) ch.max) := by
  have hle : ch.min ≤ ch.max := by cases ch <;> decide
  rw [trunc_mono.map_min, trunc_mono.map_max, trunc_intCast, trunc_intCast, chanClamp]
  split_ifs <;> omega

/-- **The value of a point**: clamped to the range of the channel, without its fraction. -/
def pointOf (ch : Chan) (v : ℚ) : ℤ := trunc (Min.min (Max.max v ch.min) ch.max)

/-- **What the chart shows of these values**: the last 60, the oldest first, and nothing behind
them. -/
structure Charted (ch : Chan) (xs : List ℚ) (y : ℕ → ℤ) : Prop where
  point : ∀ i v, (xs.rtake 60)[i]? = some v → y i = pointOf ch v
  none : ∀ i < historyBuckets, xs.length ≤ i → y i = lvChartPointNone

namespace ChanRing.Refines

variable {r : ChanRing} {q : Recent historyBuckets ℚ} {xs : List ℚ}

/-- The values from the oldest on. -/
theorem rtake_getElem? (hq : q.Holds xs) {i : ℕ} (hi : i < q.count) :
    (xs.rtake 60)[i]? =
      some (q.buf ((if q.count < historyBuckets then 0 else q.head) + Fin.ofNat _ i)) := by
  rw [← hq.window_oldest, window, List.getElem?_map, List.getElem?_range hi]
  rfl

/-- **Going forwards from the oldest value gives the points in order.** -/
theorem chartPoint_eq (h : r.Refines q) (hq : q.Holds xs) (ch : Chan) {i : ℕ} (hi : i < q.count)
    {v : ℚ} (hv : (xs.rtake 60)[i]? = some v) (hfit : FitsCoord v) :
    chartPoint ch r (if q.count < historyBuckets then 0 else q.head) i = some (pointOf ch v) := by
  rw [rtake_getElem? hq hi, Option.some.injEq] at hv
  have hidx : ((if q.count < historyBuckets then 0 else (q.head : ℕ)) + i) % historyBuckets =
      (((if q.count < historyBuckets then 0 else q.head) + Fin.ofNat _ i :
        Fin historyBuckets) : ℕ) := by
    rw [Fin.val_add, Fin.val_ofNat, Nat.add_mod_mod]
    split_ifs <;> rfl
  have hcoord : lvCoord v = some (trunc v) := if_pos hfit
  rw [chartPoint, hidx, h.get?_eq, hv]
  simp only [Option.bind_eq_bind, Option.bind_some, hcoord, chanClamp_trunc, pointOf]

/-- **The chart shows the last values.** -/
theorem charted (h : r.Refines q) (hq : q.Holds xs) (ch : Chan)
    (hfit : ∀ v ∈ xs.rtake 60, FitsCoord v) (y : ℕ → ℤ) :
    ∃ y', updateDetailPage ch r y = some y' ∧ Charted ch xs y' := by
  have hcount := hq.count
  have hlast : ∀ i v, (xs.rtake 60)[i]? = some v → i < q.count := fun i v hv => by
    have hlt := (List.getElem?_eq_some_iff.mp hv).1
    rw [List.rtake, List.length_drop] at hlt
    rw [hcount, historyBuckets]
    omega
  by_cases hzero : q.count = 0
  · refine ⟨clearChart y, ?_, fun i v hv => ?_, fun i hi _ => clearChart_apply y hi⟩
    · rw [updateDetailPage, h.histCount, if_pos hzero]
    · have hlt := hlast i v hv
      omega
  · -- the value of each point, from the ring
    obtain ⟨g, hg⟩ : ∃ g : ℕ → ℤ, ∀ i v, (xs.rtake 60)[i]? = some v → g i = pointOf ch v :=
      ⟨fun i => pointOf ch ((xs.rtake 60)[i]?.getD 0),
        fun i v hv => by simp only [hv, Option.getD_some]⟩
    obtain ⟨y', hy', hset⟩ := foldlM_setValueById (clearChart y)
      (f := chartPoint ch r (if q.count < historyBuckets then 0 else q.head)) (g := g)
      (n := q.count) (by omega) fun i hi => by
        have hv := rtake_getElem? hq hi
        rw [hg i _ hv]
        exact h.chartPoint_eq hq ch hi hv (hfit _ (List.mem_of_getElem? hv))
    refine ⟨y', ?_, fun i v hv => ?_, fun i hi hlen => ?_⟩
    · simp only [updateDetailPage, h.histCount, h.histHead, if_neg hzero]
      exact hy'
    · rw [hset, if_pos (hlast i v hv), hg i v hv]
    · rw [hset, if_neg (by omega), clearChart_apply y hi]

end ChanRing.Refines

/-! ## Runs -/

/-- **After these values every channel's ring holds its own.** -/
theorem pushAll_refines (ps : List (Chan × ℚ)) : ∃ g, pushAll ps = some g ∧
    ∀ ch, ∃ q, (g ch).Refines q ∧ q.Holds (valuesOf ch ps) := by
  induction ps using List.reverseRecOn with
  | nil => exact ⟨screenInit, rfl, fun _ => ⟨.init 0, .init, Recent.holds_init 0⟩⟩
  | append_singleton ps p ih =>
    obtain ⟨g, hg, hall⟩ := ih
    obtain ⟨q, hq, hholds⟩ := hall p.1
    obtain ⟨r, hr, hpush⟩ := hq.push p.2
    refine ⟨Function.update g p.1 r, ?_, fun ch => ?_⟩
    · rw [pushAll] at hg ⊢
      rw [List.foldlM_append, hg]
      simp [pushOne, hr]
    · by_cases hch : ch = p.1
      · subst hch
        refine ⟨q.push p.2, ?_, ?_⟩
        · rw [Function.update_self]
          exact hpush
        · have hval : valuesOf p.1 (ps ++ [p]) = valuesOf p.1 ps ++ [p.2] := by
            simp [valuesOf, List.filter_append]
          rw [hval]
          exact hholds.push p.2
      · have hval : valuesOf ch (ps ++ [p]) = valuesOf ch ps := by
          simp [valuesOf, List.filter_append, Ne.symm hch]
        rw [Function.update_of_ne hch, hval]
        exact hall ch

/-- **The indices of a ring stay within the array**: the write position, the number of values, and
the signed index. -/
structure ChanRing.InBounds (r : ChanRing) : Prop where
  head : r.histHead.toNat < historyBuckets
  count : r.histCount.toNat ≤ historyBuckets
  back : ∀ i < historyBuckets, 0 ≤ backIdx r.histHead i ∧ backIdx r.histHead i < historyBuckets

theorem ChanRing.Refines.inBounds {r : ChanRing} {q : Recent historyBuckets ℚ} {xs : List ℚ}
    (h : r.Refines q) (hq : q.Holds xs) : r.InBounds where
  head := h.histHead ▸ q.head.isLt
  count := by
    rw [h.histCount, hq.count]
    exact Nat.min_le_right _ _
  back i hi := by
    rw [backIdx_eq h.histHead hi]
    have hlt := (Recent.back q.head i : Fin historyBuckets).isLt
    omega

/-- **After any number of values**, the averages are the means of the last 60 and of the last 30
values of a channel, or `-1`; the indices stay within the array; and if the whole parts of the last
60 values fit into 16 bits, the chart shows them, without their fractions. -/
theorem screen_run (ps : List (Chan × ℚ)) (ch : Chan) (y : ℕ → ℤ) :
    ∃ g, pushAll ps = some g ∧ (g ch).InBounds ∧
      (g ch).avg60min =
        some (if valuesOf ch ps = [] then -1 else mean ((valuesOf ch ps).rtake 60)) ∧
      (g ch).avg30min =
        some (if valuesOf ch ps = [] then -1 else mean ((valuesOf ch ps).rtake 30)) ∧
      ((∀ v ∈ (valuesOf ch ps).rtake 60, FitsCoord v) →
        ∃ y', updateDetailPage ch (g ch) y = some y' ∧ Charted ch (valuesOf ch ps) y') := by
  obtain ⟨g, hg, hall⟩ := pushAll_refines ps
  obtain ⟨q, hq, hholds⟩ := hall ch
  exact ⟨g, hg, hq.inBounds hholds, hq.avg60min_eq hholds, hq.avg30min_eq hholds,
    fun hfit => hq.charted hholds ch hfit y⟩

theorem trunc_fraction : trunc (237 / 10) = 23 := by
  rw [trunc, if_pos (by norm_num), Int.floor_eq_iff]
  norm_num

/-- 23.7 degrees are shown as 23. -/
theorem fraction_chart : ¬ ∀ (ps : List (Chan × ℚ)) (ch : Chan) (y : ℕ → ℤ), ∃ g,
    pushAll ps = some g ∧ ∃ y', updateDetailPage ch (g ch) y = some y' ∧
      ∀ (i : ℕ) (v : ℚ), ((valuesOf ch ps).rtake 60)[i]? = some v →
        (y' i : ℚ) = Min.min (Max.max v ch.min) ch.max := by
  intro hall
  obtain ⟨g, hg, y', hy', hpoints⟩ := hall [(.temp, 237 / 10)] .temp fun _ => 0
  have hval : (valuesOf .temp [(.temp, 237 / 10)]).rtake 60 = [237 / 10] := by
    simp [valuesOf, List.rtake]
  have hfirst : ((valuesOf .temp [(.temp, 237 / 10)]).rtake 60)[0]? = some (237 / 10) := by
    rw [hval]
    rfl
  have hclamp : Min.min (Max.max (237 / 10 : ℚ) (Chan.temp.min : ℤ)) (Chan.temp.max : ℤ) =
      237 / 10 := by
    norm_num [Chan.min, Chan.max]
  -- what the chart shows
  obtain ⟨g', hg', hrings⟩ := pushAll_refines [(.temp, 237 / 10)]
  obtain rfl := Option.some.inj (hg.symm.trans hg')
  obtain ⟨q, hq, hholds⟩ := hrings .temp
  obtain ⟨y'', hy'', hchart⟩ := hq.charted hholds .temp (fun v hv => by
    rw [hval, List.mem_singleton] at hv
    rw [hv, FitsCoord, trunc_fraction]
    decide) fun _ => 0
  obtain rfl := Option.some.inj (hy'.symm.trans hy'')
  have hpoint := hpoints 0 (237 / 10) hfirst
  rw [hchart.point 0 (237 / 10) hfirst, pointOf, hclamp, trunc_fraction] at hpoint
  norm_num at hpoint

end GrainWarehouse
