import GrainWarehouse.Monitor.Cpu
import GrainWarehouse.Report.History

/-!
# Monitor/Pages — the pages of the screen

`my_gui.c` makes all its pages at the start and switches between them by hiding and showing objects:
the home page, its chart over the whole screen, a detail page for each channel, and the system page.
`View` says what the user sees of that: a page, with a way in and a way back.

**The objects on the screen are those of the page** (`screen_follows`), after any clicks, averages
and timer calls; and whatever page it is shows the data of that moment: the detail page all averages
so far, the system page the load of the last twenty samples taken while it was open.
-/

namespace GrainWarehouse

/-! ## The objects -/

/-- The objects that are hidden or shown one by one, or clicked, and what they stand in.  Labels and
boxes besides go with what they stand in. -/
inductive Widget
  | homeRoot
  | sensorSection | tempLabel | humidityLabel | co2Label | coLabel
  | fanControlSection | fanSwitch | fanSlider | fanSpeedLabel
  | alertSection | alertLed
  | chartContainer | chartTitle | tempChart
  | channelButtonsBar | channelBtn (ch : Chan) | sysBtn
  | fsBackBtn
  | detailRoot | detailBackBtn | detailHistChart
  | sysRoot | sysBackBtn
  deriving DecidableEq

namespace Widget

/-- What an object stands in. -/
def parent : Widget → Option Widget
  | homeRoot | detailRoot | sysRoot => none
  | sensorSection | fanControlSection | alertSection | chartContainer | channelButtonsBar
  | fsBackBtn => some homeRoot
  | tempLabel | humidityLabel | co2Label | coLabel => some sensorSection
  | fanSwitch | fanSlider | fanSpeedLabel => some fanControlSection
  | alertLed => some alertSection
  | chartTitle | tempChart => some chartContainer
  | channelBtn _ | sysBtn => some channelButtonsBar
  | detailBackBtn | detailHistChart => some detailRoot
  | sysBackBtn => some sysRoot

/-- The object, and all that it stands in. -/
def path (w : Widget) : List Widget :=
  match w.parent with
  | none => [w]
  | some p => w :: p :: p.parent.toList

end Widget

open Widget

/-! ## The code -/

/-- `CPU_BUF_SIZE`. -/
abbrev cpuBufSize : ℕ := 20

local instance neZeroBuckets : @NeZero ℕ Zero.ofOfNat0 historyBuckets := ⟨by decide⟩

/-- The labels of the detail page, and the values that its chart draws. -/
structure DetailPage where
  title : Chan
  /-- `--` without a value. -/
  cur : Option ℚ
  averages : GuiAverages
  chart : List ℚ

/-- The load on the system page: the label, and the points of the chart. -/
structure SystemPage where
  cpu : ℕ
  chart : List UInt8

/-- The static variables of `my_gui.c` that have to do with the pages. -/
structure Pages where
  hidden : Widget → Bool
  chartFullscreen : Bool
  /-- `fs_back_btn` is not `NULL`. -/
  fsBackBtn : Bool
  homeLabelTitle : List UInt8
  fsTitleBackup : List UInt8
  detailChannel : Chan
  hasCurrentData : Bool
  gui : GuiHistory
  detail : DetailPage
  cpuHist : Recent cpuBufSize UInt8
  cpuLast : CpuLast
  sys : SystemPage

/-- The title of the home page. -/
def homeTitle : List UInt8 := ascii "Grain Warehouse Environment Monitoring System"

/-- The title of its chart. -/
def trendsTitle : List UInt8 := ascii "Data Trends"

/-- What `chart_fullscreen_event_cb` hides. -/
def hiddenByTrends : List Widget :=
  [tempLabel, humidityLabel, co2Label, coLabel, fanSwitch, fanSlider, fanSpeedLabel, alertLed,
    channelButtonsBar]

/-- What `back_butten_event_cb` shows. -/
def shownByBack : List Widget :=
  [tempLabel, humidityLabel, co2Label, coLabel, fanSwitch, fanSpeedLabel, fanSlider, alertLed,
    channelButtonsBar, tempChart, chartTitle, chartContainer]

/-- `cpu_avg_1min`. -/
def cpuAvg1min (r : Recent cpuBufSize UInt8) : ℕ :=
  if r.count = 0 then 0 else (r.slots.map UInt8.toNat).sum / r.count

namespace Pages

/-- `my_gui`, what is on the labels of the hidden pages being as it is. -/
def start (detail : DetailPage) (sys : SystemPage) : Pages where
  hidden w := w = detailRoot ∨ w = sysRoot ∨ w = detailHistChart
  chartFullscreen := false
  fsBackBtn := false
  homeLabelTitle := homeTitle
  fsTitleBackup := []
  detailChannel := .temp
  hasCurrentData := false
  gui := .init
  detail := detail
  cpuHist := .init 0
  cpuLast := ⟨0, 0⟩
  sys := sys

/-- `lv_obj_add_flag` or `lv_obj_clear_flag`, for these objects. -/
def setHidden (ws : List Widget) (set : Bool) (s : Pages) : Pages :=
  { s with hidden := fun w => if w ∈ ws then set else s.hidden w }

/-- `set_flag_recursive`. -/
def setFlagRecursive (obj : Widget) (set : Bool) (s : Pages) : Pages :=
  { s with hidden := fun w => if obj ∈ w.path then set else s.hidden w }

/-- An object is on the screen. -/
def Visible (s : Pages) (w : Widget) : Prop :=
  (∀ a ∈ w.path, s.hidden a = false) ∧ (w = .fsBackBtn → s.fsBackBtn = true)

instance (s : Pages) (w : Widget) : Decidable (s.Visible w) := inferInstanceAs (Decidable (_ ∧ _))

/-- `chart_fullscreen_event_cb`, on a click on the chart. -/
def chartFullscreenEventCb (s : Pages) : Pages :=
  if s.chartFullscreen then s
  else
    let s := { s with
      chartFullscreen := true
      fsTitleBackup := s.homeLabelTitle.take 63
      homeLabelTitle := trendsTitle
      fsBackBtn := true }
    (s.setHidden [.fsBackBtn] false).setHidden hiddenByTrends true

/-- `back_butten_event_cb`. -/
def backButtenEventCb (s : Pages) : Pages :=
  let s := { s with
    chartFullscreen := false
    fsBackBtn := false
    homeLabelTitle := if s.fsTitleBackup ≠ [] then s.fsTitleBackup else homeTitle }
  s.setHidden shownByBack false

/-- `update_detail_page`; the values are still to be fitted to the chart. -/
def updateDetailPage (ch : Chan) (s : Pages) : Pages :=
  let r := s.gui.history ch
  let s := { s with
    detail :=
      { title := ch
        cur := if s.hasCurrentData then some (s.gui.curValues ch) else none
        averages := myGuiGetAverage s.gui ch
        chart := window r.buf (if r.count < historyBuckets then 0 else r.head) r.count } }
  s.setHidden [detailHistChart] (r.count = 0)

/-- `update_system_page`. -/
def updateSystemPage (s : Pages) : Pages :=
  let r := s.cpuHist
  { s with
    sys :=
      { cpu := cpuAvg1min r
        chart := window r.buf (if r.count < cpuBufSize then 0 else r.head) r.count } }

/-- What both of the callbacks do that lead back to the home page. -/
def backHome (root : Widget) (s : Pages) : Pages :=
  let s := (s.setHidden [root] true).setHidden [homeRoot] false
  (s.setFlagRecursive homeRoot false).setHidden [detailHistChart] false

/-- `detail_back_event_cb`. -/
def detailBackEventCb : Pages → Pages := backHome detailRoot

/-- `sys_back_event_cb`. -/
def sysBackEventCb : Pages → Pages := backHome sysRoot

/-- `detail_channel_btn_event_cb`, of the button of this channel. -/
def detailChannelBtnEventCb (ch : Chan) (s : Pages) : Pages :=
  if s.chartFullscreen then s
  else
    let s := updateDetailPage ch { s with detailChannel := ch }
    (s.setFlagRecursive homeRoot true).setHidden [detailRoot] false

/-- `sys_btn_event_cb`. -/
def sysBtnEventCb (s : Pages) : Pages :=
  if s.chartFullscreen then s
  else (s.updateSystemPage.setFlagRecursive homeRoot true).setHidden [sysRoot] false

/-- `apply_avg_to_gui`, its refreshing of the open page included. -/
def applyAvgToGui (avg : EnvAvg) (s : Pages) : Pages :=
  let s := { s with gui := s.gui.applyAvgToGui avg, hasCurrentData := true }
  let s := if s.Visible detailRoot then s.updateDetailPage s.detailChannel else s
  if s.Visible sysRoot then s.updateSystemPage else s

/-- `sys_refresh_timer_cb`. -/
def sysRefreshTimerCb (r : CpuReading) (s : Pages) : Pages :=
  if s.Visible sysRoot then
    let cpu := sysCalcCpuPct r s.cpuLast
    updateSystemPage { s with cpuHist := s.cpuHist.push cpu.1, cpuLast := cpu.2 }
  else s

end Pages

/-- What happens to the screen. -/
inductive PageEv
  | click (w : Widget)
  | average (avg : EnvAvg)
  | timer (r : CpuReading)

/-- The callback of an object. -/
def Pages.clicked (s : Pages) : Widget → Pages
  | .chartContainer | .tempChart => s.chartFullscreenEventCb
  | .fsBackBtn => s.backButtenEventCb
  | .channelBtn ch => s.detailChannelBtnEventCb ch
  | .sysBtn => s.sysBtnEventCb
  | .detailBackBtn => s.detailBackEventCb
  | .sysBackBtn => s.sysBackEventCb
  | _ => s

/-- **An event**; only what is on the screen can be clicked. -/
def Pages.next (s : Pages) : PageEv → Pages
  | .click w => if s.Visible w then s.clicked w else s
  | .average avg => s.applyAvgToGui avg
  | .timer r => s.sysRefreshTimerCb r

/-! ## What the user sees -/

/-- The pages. -/
inductive Page
  | home
  | trends
  | detail (ch : Chan)
  | system
  deriving DecidableEq

/-- A page, the averages so far, and the samples taken on the system page. -/
structure View where
  page : Page
  avgs : List EnvAvg
  samples : List UInt8
  last : CpuLast

/-- **The ways from page to page.** -/
def Page.click : Page → Widget → Page
  | .home, .chartContainer | .home, .tempChart => .trends
  | .home, .channelBtn ch => .detail ch
  | .home, .sysBtn => .system
  | .trends, .fsBackBtn | .detail _, .detailBackBtn | .system, .sysBackBtn => .home
  | p, _ => p

/-- **An event, as the user sees it.** -/
def View.next (v : View) : PageEv → View
  | .click w => { v with page := v.page.click w }
  | .average avg => { v with avgs := v.avgs ++ [avg] }
  | .timer r =>
    if v.page = .system then
      let cpu := sysCalcCpuPct r v.last
      { v with samples := v.samples ++ [cpu.1], last := cpu.2 }
    else v

/-- At the start. -/
def View.start : View := ⟨.home, [], [], ⟨0, 0⟩⟩

/-- **What a page hides.** -/
def Page.hides (p : Page) (w : Widget) : Bool :=
  match p with
  | .home => w ∈ [detailRoot, sysRoot, Widget.fsBackBtn]
  | .trends => w ∈ detailRoot :: sysRoot :: hiddenByTrends
  | .detail _ => homeRoot ∈ w.path ∨ w = sysRoot
  | .system => homeRoot ∈ w.path ∨ w = detailRoot

/-- What is on a page, the chart of a detail page apart. -/
def Page.Has (p : Page) (w : Widget) : Prop := ∀ a ∈ w.path, p.hides a = false

instance (p : Page) (w : Widget) : Decidable (p.Has w) :=
  inferInstanceAs (Decidable (∀ a ∈ w.path, p.hides a = false))

/-- What a detail page shows after these averages. -/
def DetailPage.of (ch : Chan) (avgs : List EnvAvg) : DetailPage where
  title := ch
  cur := avgs.getLast?.map (chanPickValueFromAvg ch)
  averages := myGuiGetAverage (GuiHistory.after avgs) ch
  chart := (avgs.map (chanPickValueFromAvg ch)).rtake historyBuckets

/-- What the system page shows after these samples: the mean of the last twenty, and these. -/
def SystemPage.of (samples : List UInt8) : SystemPage where
  cpu := ((samples.rtake cpuBufSize).map UInt8.toNat).sum / (samples.rtake cpuBufSize).length
  chart := samples.rtake cpuBufSize

/-! ## The invariant -/

/-- **The objects, and what is on them, are those of the view.** -/
structure Pages.Shows (s : Pages) (v : View) : Prop where
  hidden : ∀ w, w ≠ .fsBackBtn → w ≠ .detailHistChart → s.hidden w = v.page.hides w
  fsBackBtn : s.fsBackBtn = decide (v.page = .trends)
  wayBack : v.page = .trends → s.hidden .fsBackBtn = false
  chartFullscreen : s.chartFullscreen = decide (v.page = .trends)
  title : s.homeLabelTitle = if v.page = .trends then trendsTitle else homeTitle
  backup : v.page = .trends → s.fsTitleBackup = homeTitle
  gui : s.gui = GuiHistory.after v.avgs
  current : s.hasCurrentData = !v.avgs.isEmpty
  detail : ∀ ch, v.page = .detail ch → s.detailChannel = ch ∧ s.detail = DetailPage.of ch v.avgs ∧
    s.hidden .detailHistChart = v.avgs.isEmpty
  cpuHist : s.cpuHist.Holds v.samples
  cpuLast : s.cpuLast = v.last
  sys : v.page = .system → s.sys = SystemPage.of v.samples

namespace Pages

variable {s : Pages} {v : View}

theorem shows_start (detail : DetailPage) (sys : SystemPage) :
    (start detail sys).Shows .start where
  hidden := fun w hw hw' => by cases w <;> first | rfl | exact absurd rfl hw | exact absurd rfl hw'
  fsBackBtn := rfl
  wayBack := fun h => by cases h
  chartFullscreen := rfl
  title := rfl
  backup := fun h => by cases h
  gui := rfl
  current := rfl
  detail := fun _ h => by cases h
  cpuHist := Recent.holds_init 0
  cpuLast := rfl
  sys := fun h => by cases h

/-- The button on the open chart is there or not… -/
theorem Shows.visible_fsBackBtn (h : s.Shows v) :
    s.Visible .fsBackBtn ↔ v.page.Has .fsBackBtn := by
  have hroot := h.hidden homeRoot (by decide) (by decide)
  have hbtn := h.fsBackBtn
  have hway := h.wayBack
  cases hp : v.page with
  | trends =>
    rw [hp] at hroot hbtn
    simp [Visible, Page.Has, path, parent, Page.hides, hiddenByTrends, hroot, hbtn, hway hp]
  | home =>
    rw [hp] at hbtn
    simp [Visible, Page.Has, path, parent, Page.hides, hbtn]
  | detail ch =>
    rw [hp] at hbtn
    simp [Visible, Page.Has, path, parent, Page.hides, hbtn]
  | system =>
    rw [hp] at hbtn
    simp [Visible, Page.Has, path, parent, Page.hides, hbtn]

/-- …the others are hidden or not: **what is on the screen is what is on the page.** -/
theorem Shows.visible_iff (h : s.Shows v) {w : Widget} (hw : w ≠ .detailHistChart) :
    s.Visible w ↔ v.page.Has w := by
  by_cases hback : w = .fsBackBtn
  · rw [hback]
    exact h.visible_fsBackBtn
  · have hsame : ∀ a ∈ w.path, s.hidden a = v.page.hides a := by
      intro a ha
      refine h.hidden a (fun ha' => ?_) fun ha' => ?_
      · subst ha'
        cases w <;> simp_all [path, parent]
      · subst ha'
        cases w <;> simp_all [path, parent]
    exact ⟨fun hv a ha => (hsame a ha).symm.trans (hv.1 a ha),
      fun hv => ⟨fun a ha => (hsame a ha).trans (hv a ha), fun hw' => absurd hw' hback⟩⟩

/-- Nothing is clicked that is not on the page. -/
theorem click_of_not_has {p : Page} {w : Widget} (h : ¬ p.Has w) : p.click w = p := by
  cases p <;> cases w <;> first
    | rfl
    | exact absurd (by simp [Page.Has, path, parent, Page.hides, hiddenByTrends]) h

/-! ## What is on the labels -/

theorem curValues_after (avgs : List EnvAvg) (a : EnvAvg) (ch : Chan) :
    (GuiHistory.after (avgs ++ [a])).curValues ch = chanPickValueFromAvg ch a := by
  rw [GuiHistory.after, runFrom_append, runFrom_cons, runFrom_nil, GuiHistory.applyAvgToGui]
  dsimp only
  split_ifs
  · rfl
  · rfl

/-- The detail page, freshly written. -/
theorem detail_updateDetailPage (ch : Chan) (hgui : s.gui = GuiHistory.after v.avgs)
    (hcur : s.hasCurrentData = !v.avgs.isEmpty) :
    (s.updateDetailPage ch).detail = DetailPage.of ch v.avgs ∧
      (s.updateDetailPage ch).hidden .detailHistChart = v.avgs.isEmpty := by
  have hholds := (GuiHistory.Shows.after v.avgs).minutes ch
  constructor
  · simp only [updateDetailPage, setHidden, DetailPage.of, hgui, hholds.window_oldest, hcur]
    rcases List.eq_nil_or_concat' v.avgs with hnil | ⟨avgs, a, hcons⟩
    · rw [hnil]
      rfl
    · rw [hcons, List.getLast?_append, curValues_after]
      simp
  · have hcount := hholds.count
    rw [List.length_map] at hcount
    simp only [updateDetailPage, setHidden, hgui, List.mem_singleton, if_true, hcount]
    cases v.avgs with
    | nil => rfl
    | cons a avgs =>
      have hbuckets : historyBuckets = 60 := rfl
      rw [List.length_cons, List.isEmpty_cons, decide_eq_false_iff_not]
      omega

/-- The system page, freshly written. -/
theorem sys_updateSystemPage (hcpu : s.cpuHist.Holds v.samples) :
    s.updateSystemPage.sys = SystemPage.of v.samples := by
  have hlen : (v.samples.rtake cpuBufSize).length = s.cpuHist.count := by
    rw [← hcpu.held, length_window]
  have hsum := (hcpu.map UInt8.toNat).sum_slots
  rw [Recent.slots_map, Recent.rtake_map] at hsum
  simp only [updateSystemPage, SystemPage.of, hcpu.window_oldest, cpuAvg1min, hsum, hlen]
  split_ifs with h0
  · rw [h0, Nat.div_zero]
  · rfl

/-! ## From page to page -/

theorem Shows.not_chartFullscreen (h : s.Shows v) (hp : v.page = .home) :
    s.chartFullscreen = false := by
  rw [h.chartFullscreen, hp]
  rfl

/-- The chart is opened… -/
theorem Shows.chartFullscreenEventCb (h : s.Shows v) (hp : v.page = .home) :
    s.chartFullscreenEventCb.Shows { v with page := .trends } := by
  have hfull := h.not_chartFullscreen hp
  have htitle : s.homeLabelTitle = homeTitle := by rw [h.title, hp]; rfl
  have hcb : s.chartFullscreenEventCb =
      (({ s with
        chartFullscreen := true
        fsTitleBackup := s.homeLabelTitle.take 63
        homeLabelTitle := trendsTitle
        fsBackBtn := true } : Pages).setHidden [.fsBackBtn] false).setHidden hiddenByTrends
          true := by
    rw [Pages.chartFullscreenEventCb, hfull]
    rfl
  rw [hcb]
  refine ⟨fun w hw hw' => ?_, rfl, fun _ => rfl, rfl, rfl, fun _ => ?_, h.gui, h.current,
    (by intro _ hp'; cases hp'), h.cpuHist, h.cpuLast, (by intro hp'; cases hp')⟩
  · have hh := h.hidden w hw hw'
    rw [hp] at hh
    simp only [setHidden, hh]
    cases w <;> rfl
  · simp only [setHidden, htitle]
    decide +kernel

/-- …and closed. -/
theorem Shows.backButtenEventCb (h : s.Shows v) (hp : v.page = .trends) :
    s.backButtenEventCb.Shows { v with page := .home } := by
  refine ⟨fun w hw hw' => ?_, rfl, (by intro hp'; cases hp'), rfl, ?_,
    (by intro hp'; cases hp'), h.gui, h.current, (by intro _ hp'; cases hp'), h.cpuHist, h.cpuLast,
    (by intro hp'; cases hp')⟩
  · have hh := h.hidden w hw hw'
    rw [hp] at hh
    simp only [Pages.backButtenEventCb, setHidden, hh]
    cases w <;> first | rfl | exact absurd rfl hw
  · simp only [Pages.backButtenEventCb, setHidden, h.backup hp, ite_self]
    rfl

/-- A detail page is opened. -/
theorem Shows.detailChannelBtnEventCb (h : s.Shows v) (hp : v.page = .home) (ch : Chan) :
    (s.detailChannelBtnEventCb ch).Shows { v with page := .detail ch } := by
  have hfull := h.not_chartFullscreen hp
  have htitle := h.title
  rw [hp] at htitle
  have hcb : s.detailChannelBtnEventCb ch =
      ((updateDetailPage ch { s with detailChannel := ch }).setFlagRecursive homeRoot
        true).setHidden [detailRoot] false := by
    rw [Pages.detailChannelBtnEventCb, hfull]
    rfl
  rw [hcb]
  have hback := h.fsBackBtn
  rw [hp] at hback
  obtain ⟨hdetail, hchart⟩ := detail_updateDetailPage
    (s := { s with detailChannel := ch }) (v := v) ch h.gui h.current
  refine ⟨fun w hw hw' => ?_, hback, (by intro hp'; cases hp'), hfull, htitle,
    (by intro hp'; cases hp'), h.gui, h.current, fun ch' hch' => ?_, h.cpuHist, h.cpuLast,
    (by intro hp'; cases hp')⟩
  · have hh := h.hidden w hw hw'
    rw [hp] at hh
    simp only [setHidden, setFlagRecursive, updateDetailPage, hh]
    cases w <;> first | rfl | exact absurd rfl hw | exact absurd rfl hw'
  · cases hch'
    exact ⟨rfl, hdetail, hchart⟩

/-- The system page is opened. -/
theorem Shows.sysBtnEventCb (h : s.Shows v) (hp : v.page = .home) :
    s.sysBtnEventCb.Shows { v with page := .system } := by
  have hfull := h.not_chartFullscreen hp
  have htitle := h.title
  have hback := h.fsBackBtn
  rw [hp] at htitle hback
  have hcb : s.sysBtnEventCb =
      (s.updateSystemPage.setFlagRecursive homeRoot true).setHidden [sysRoot] false := by
    rw [Pages.sysBtnEventCb, hfull]
    rfl
  rw [hcb]
  refine ⟨fun w hw hw' => ?_, hback, (by intro hp'; cases hp'), hfull, htitle,
    (by intro hp'; cases hp'), h.gui, h.current, (by intro _ hp'; cases hp'), h.cpuHist, h.cpuLast,
    fun _ => sys_updateSystemPage h.cpuHist⟩
  have hh := h.hidden w hw hw'
  rw [hp] at hh
  simp only [setHidden, setFlagRecursive, updateSystemPage, hh]
  cases w <;> rfl

/-- A page is left. -/
theorem Shows.backHome (h : s.Shows v) {root : Widget}
    (hroot : (∃ ch, v.page = .detail ch) ∧ root = detailRoot ∨ v.page = .system ∧ root = sysRoot) :
    (s.backHome root).Shows { v with page := .home } := by
  have hpage : v.page ≠ .trends := by
    rcases hroot with ⟨⟨ch, hp⟩, -⟩ | ⟨hp, -⟩
    · rw [hp]
      exact fun h => by cases h
    · rw [hp]
      exact fun h => by cases h
  have hfull := h.chartFullscreen
  have htitle := h.title
  have hback := h.fsBackBtn
  rw [decide_eq_false hpage] at hfull hback
  rw [if_neg hpage] at htitle
  refine ⟨fun w hw hw' => ?_, hback, (by intro hp'; cases hp'), hfull, htitle,
    (by intro hp'; cases hp'), h.gui, h.current, (by intro _ hp'; cases hp'), h.cpuHist, h.cpuLast,
    (by intro hp'; cases hp')⟩
  have hh := h.hidden w hw hw'
  rcases hroot with ⟨⟨ch, hp⟩, rfl⟩ | ⟨hp, rfl⟩
  · rw [hp] at hh
    simp only [Pages.backHome, setHidden, setFlagRecursive, hh]
    cases w <;> first | rfl | exact absurd rfl hw
  · rw [hp] at hh
    simp only [Pages.backHome, setHidden, setFlagRecursive, hh]
    cases w <;> first | rfl | exact absurd rfl hw

/-! ## Whatever happens -/

theorem detailRoot_iff (p : Page) : p.Has detailRoot ↔ ∃ ch, p = .detail ch := by
  cases p <;> simp [Page.Has, path, parent, Page.hides]

theorem sysRoot_iff (p : Page) : p.Has sysRoot ↔ p = .system := by
  cases p <;> simp [Page.Has, path, parent, Page.hides]

theorem Shows.visible_detailRoot (h : s.Shows v) :
    s.Visible detailRoot ↔ ∃ ch, v.page = .detail ch :=
  (h.visible_iff (by decide)).trans (detailRoot_iff v.page)

theorem Shows.visible_sysRoot (h : s.Shows v) : s.Visible sysRoot ↔ v.page = .system :=
  (h.visible_iff (by decide)).trans (sysRoot_iff v.page)

theorem Shows.gui_average (h : s.Shows v) (avg : EnvAvg) :
    s.gui.applyAvgToGui avg = GuiHistory.after (v.avgs ++ [avg]) := by
  rw [h.gui, GuiHistory.after, GuiHistory.after, runFrom_append]
  rfl

/-- An average comes in, and an open detail page is written again… -/
theorem Shows.average_detail (h : s.Shows v) (avg : EnvAvg) {ch : Chan}
    (hp : v.page = .detail ch) :
    (s.applyAvgToGui avg).Shows { v with avgs := v.avgs ++ [avg] } := by
  obtain ⟨rfl, -, -⟩ := h.detail ch hp
  have hcur : true = !(v.avgs ++ [avg]).isEmpty := by simp
  have hv : Visible { s with gui := s.gui.applyAvgToGui avg, hasCurrentData := true } detailRoot :=
    h.visible_detailRoot.mpr ⟨_, hp⟩
  -- the page that is written again does not bring the other one to the screen
  have hv' : ¬ Visible (updateDetailPage s.detailChannel
      { s with gui := s.gui.applyAvgToGui avg, hasCurrentData := true }) sysRoot := by
    intro hv'
    have hroot := hv'.1 sysRoot (by decide)
    have hsame := h.hidden sysRoot (by decide) (by decide)
    simp only [updateDetailPage, setHidden, List.mem_singleton, hsame, hp] at hroot
    cases hroot
  obtain ⟨hlabels, hchart⟩ := detail_updateDetailPage
    (s := { s with gui := s.gui.applyAvgToGui avg, hasCurrentData := true })
    (v := { v with avgs := v.avgs ++ [avg] }) s.detailChannel (h.gui_average avg) hcur
  simp only [Pages.applyAvgToGui, if_pos hv, if_neg hv']
  refine ⟨fun w hw hw' => ?_, h.fsBackBtn, fun hp' => ?_, h.chartFullscreen, h.title, h.backup,
    h.gui_average avg, hcur, fun ch' hp' => ?_, h.cpuHist, h.cpuLast, fun hp' => ?_⟩
  · simp only [updateDetailPage, setHidden, List.mem_singleton, if_neg hw']
    exact h.hidden w hw hw'
  · rw [hp] at hp'
    cases hp'
  · rw [hp] at hp'
    cases hp'
    exact ⟨rfl, hlabels, hchart⟩
  · rw [hp] at hp'
    cases hp'

/-- …or an open system page… -/
theorem Shows.average_system (h : s.Shows v) (avg : EnvAvg) (hp : v.page = .system) :
    (s.applyAvgToGui avg).Shows { v with avgs := v.avgs ++ [avg] } := by
  have hcur : true = !(v.avgs ++ [avg]).isEmpty := by simp
  have hnone (ch : Chan) (hch : v.page = .detail ch) : False := by
    rw [hp] at hch
    cases hch
  have hv : ¬ Visible { s with gui := s.gui.applyAvgToGui avg, hasCurrentData := true }
      detailRoot := mt h.visible_detailRoot.mp (not_exists.mpr hnone)
  have hv' : Visible { s with gui := s.gui.applyAvgToGui avg, hasCurrentData := true } sysRoot :=
    h.visible_sysRoot.mpr hp
  simp only [Pages.applyAvgToGui, if_neg hv, if_pos hv']
  exact ⟨h.hidden, h.fsBackBtn, h.wayBack, h.chartFullscreen, h.title, h.backup,
    h.gui_average avg, hcur, fun ch hch => (hnone ch hch).elim, h.cpuHist, h.cpuLast,
    fun _ => sys_updateSystemPage (v := v) h.cpuHist⟩

/-- …or neither of them is open. -/
theorem Shows.average_other (h : s.Shows v) (avg : EnvAvg) (hd : ¬ ∃ ch, v.page = .detail ch)
    (hp : v.page ≠ .system) : (s.applyAvgToGui avg).Shows { v with avgs := v.avgs ++ [avg] } := by
  have hcur : true = !(v.avgs ++ [avg]).isEmpty := by simp
  have hv : ¬ Visible { s with gui := s.gui.applyAvgToGui avg, hasCurrentData := true }
      detailRoot := mt h.visible_detailRoot.mp hd
  have hv' : ¬ Visible { s with gui := s.gui.applyAvgToGui avg, hasCurrentData := true }
      sysRoot := mt h.visible_sysRoot.mp hp
  simp only [Pages.applyAvgToGui, if_neg hv, if_neg hv']
  exact ⟨h.hidden, h.fsBackBtn, h.wayBack, h.chartFullscreen, h.title, h.backup,
    h.gui_average avg, hcur, fun ch hch => (hd ⟨ch, hch⟩).elim, h.cpuHist, h.cpuLast,
    fun hp' => absurd hp' hp⟩

/-- **An average comes in.** -/
theorem Shows.applyAvgToGui (h : s.Shows v) (avg : EnvAvg) :
    (s.applyAvgToGui avg).Shows { v with avgs := v.avgs ++ [avg] } := by
  by_cases hd : ∃ ch, v.page = .detail ch
  · obtain ⟨ch, hp⟩ := hd
    exact h.average_detail avg hp
  · by_cases hp : v.page = .system
    · exact h.average_system avg hp
    · exact h.average_other avg hd hp

/-- **The timer takes a sample** while the system page is open. -/
theorem Shows.sysRefreshTimerCb (h : s.Shows v) (r : CpuReading) :
    (s.sysRefreshTimerCb r).Shows (v.next (.timer r)) := by
  by_cases hp : v.page = .system
  · have hholds : (s.cpuHist.push (sysCalcCpuPct r s.cpuLast).1).Holds
        (v.samples ++ [(sysCalcCpuPct r v.last).1]) := by
      rw [h.cpuLast]
      exact h.cpuHist.push _
    have hlast : (sysCalcCpuPct r s.cpuLast).2 = (sysCalcCpuPct r v.last).2 := by rw [h.cpuLast]
    rw [Pages.sysRefreshTimerCb, if_pos (h.visible_sysRoot.mpr hp), View.next, if_pos hp]
    exact ⟨h.hidden, h.fsBackBtn, h.wayBack, h.chartFullscreen, h.title, h.backup, h.gui, h.current,
      h.detail, hholds, hlast, fun _ => sys_updateSystemPage
        (v := { v with samples := v.samples ++ [(sysCalcCpuPct r v.last).1] }) hholds⟩
  · rw [Pages.sysRefreshTimerCb, if_neg (mt h.visible_sysRoot.mp hp), View.next, if_neg hp]
    exact h

theorem chart_iff (p : Page) : p.Has chartContainer ↔ p = .home ∨ p = .trends := by
  cases p <;> simp [Page.Has, path, parent, Page.hides, hiddenByTrends]

theorem tempChart_iff (p : Page) : p.Has tempChart ↔ p = .home ∨ p = .trends := by
  cases p <;> simp [Page.Has, path, parent, Page.hides, hiddenByTrends]

theorem channelBtn_iff (p : Page) (ch : Chan) : p.Has (channelBtn ch) ↔ p = .home := by
  cases p <;> simp [Page.Has, path, parent, Page.hides, hiddenByTrends]

theorem sysBtn_iff (p : Page) : p.Has sysBtn ↔ p = .home := by
  cases p <;> simp [Page.Has, path, parent, Page.hides, hiddenByTrends]

theorem fsBackBtn_iff (p : Page) : p.Has .fsBackBtn ↔ p = .trends := by
  cases p <;> simp [Page.Has, path, parent, Page.hides, hiddenByTrends]

theorem detailBackBtn_iff (p : Page) : p.Has detailBackBtn ↔ ∃ ch, p = .detail ch := by
  cases p <;> simp [Page.Has, path, parent, Page.hides]

theorem sysBackBtn_iff (p : Page) : p.Has sysBackBtn ↔ p = .system := by
  cases p <;> simp [Page.Has, path, parent, Page.hides]

/-- A click on the chart, which may be open. -/
theorem Shows.clickChart (h : s.Shows v) (hp : v.page = .home ∨ v.page = .trends) :
    s.chartFullscreenEventCb.Shows { v with page := .trends } := by
  rcases hp with hp | hp
  · exact h.chartFullscreenEventCb hp
  · have hsame : s.chartFullscreenEventCb = s := by
      rw [Pages.chartFullscreenEventCb, h.chartFullscreen, hp]
      rfl
    rw [hsame, ← hp]
    exact h

/-- An object without a callback. -/
theorem Shows.inert (h : s.Shows v) {w : Widget} (hs : s.clicked w = s)
    (hp : ∀ p : Page, p.click w = p) : (s.clicked w).Shows { v with page := v.page.click w } := by
  rw [hs, hp]
  exact h

/-- **Something on the page is clicked.** -/
theorem Shows.clicked (h : s.Shows v) {w : Widget} (hw : v.page.Has w) :
    (s.clicked w).Shows { v with page := v.page.click w } := by
  cases w with
  | chartContainer =>
    have hp := (chart_iff v.page).mp hw
    have hclick : v.page.click .chartContainer = .trends := by
      rcases hp with hp | hp <;> rw [hp] <;> rfl
    rw [hclick]
    exact h.clickChart hp
  | tempChart =>
    have hp := (tempChart_iff v.page).mp hw
    have hclick : v.page.click .tempChart = .trends := by
      rcases hp with hp | hp <;> rw [hp] <;> rfl
    rw [hclick]
    exact h.clickChart hp
  | fsBackBtn =>
    have hp := (fsBackBtn_iff v.page).mp hw
    rw [hp]
    exact h.backButtenEventCb hp
  | channelBtn ch =>
    have hp := (channelBtn_iff v.page ch).mp hw
    rw [hp]
    exact h.detailChannelBtnEventCb hp ch
  | sysBtn =>
    have hp := (sysBtn_iff v.page).mp hw
    rw [hp]
    exact h.sysBtnEventCb hp
  | detailBackBtn =>
    obtain ⟨ch, hp⟩ := (detailBackBtn_iff v.page).mp hw
    rw [hp]
    exact h.backHome (Or.inl ⟨⟨ch, hp⟩, rfl⟩)
  | sysBackBtn =>
    have hp := (sysBackBtn_iff v.page).mp hw
    rw [hp]
    exact h.backHome (Or.inr ⟨hp, rfl⟩)
  | _ => exact h.inert rfl fun p => by cases p <;> rfl

/-- **An event.** -/
theorem Shows.next (h : s.Shows v) (ev : PageEv) : (s.next ev).Shows (v.next ev) := by
  cases ev with
  | click w =>
    by_cases hchart : w = .detailHistChart
    · subst hchart
      have hsame : v.page.click .detailHistChart = v.page := by cases v.page <;> rfl
      rw [Pages.next, View.next, hsame]
      split_ifs
      · exact h
      · exact h
    rw [Pages.next, View.next]
    by_cases hv : s.Visible w
    · rw [if_pos hv]
      exact h.clicked ((h.visible_iff hchart).mp hv)
    · rw [if_neg hv, click_of_not_has (mt (h.visible_iff hchart).mpr hv)]
      exact h
  | average avg => exact h.applyAvgToGui avg
  | timer r => exact h.sysRefreshTimerCb r

/-- **…and a whole run.** -/
theorem shows_run : ∀ (evs : List PageEv) {s : Pages} {v : View}, s.Shows v →
    (runFrom Pages.next s evs).Shows (runFrom View.next v evs)
  | [], _, _, h => h
  | ev :: evs, _, _, h => shows_run evs (h.next ev)

/-- There is a way back from each page. -/
theorem exists_way_back {p : Page} (hp : p ≠ .home) :
    ∃ w, w ≠ .detailHistChart ∧ p.Has w ∧ p.click w = .home := by
  cases p with
  | home => exact absurd rfl hp
  | trends => exact ⟨.fsBackBtn, by decide, by decide, rfl⟩
  | detail ch =>
    exact ⟨.detailBackBtn, by decide, by simp [Page.Has, path, parent, Page.hides], rfl⟩
  | system => exact ⟨.sysBackBtn, by decide, by decide, rfl⟩

end Pages

/-- **The screen follows the user, and is up to date.**  After any events the objects on the screen
are those of the page that the user has gone to, with a way back to the home page; an open detail
page shows all averages so far, and draws its chart if there are any; an open system page shows the
load of the last twenty samples. -/
theorem screen_follows (detail : DetailPage) (sys : SystemPage) (evs : List PageEv) :
    let s := runFrom Pages.next (Pages.start detail sys) evs
    let v := runFrom View.next View.start evs
    (∀ w, w ≠ .detailHistChart → (s.Visible w ↔ v.page.Has w)) ∧
      (s.Visible .detailHistChart ↔ (∃ ch, v.page = .detail ch) ∧ v.avgs ≠ []) ∧
      (v.page ≠ .home → ∃ w, s.Visible w ∧ v.page.click w = .home) ∧
      (∀ ch, v.page = .detail ch → s.detail = DetailPage.of ch v.avgs) ∧
      (v.page = .system → s.sys = SystemPage.of v.samples) ∧
      s.homeLabelTitle = if v.page = .trends then trendsTitle else homeTitle := by
  intro s v
  have h : s.Shows v := Pages.shows_run evs (Pages.shows_start detail sys)
  refine ⟨fun w hw => h.visible_iff hw, ⟨fun hv => ?_, fun ⟨⟨ch, hp⟩, hne⟩ => ⟨fun a ha => ?_, ?_⟩⟩,
    fun hp => ?_, fun ch hp => (h.detail ch hp).2.1, h.sys, h.title⟩
  · have hroot : s.Visible detailRoot :=
      ⟨fun a ha => hv.1 a (by
        rw [List.mem_singleton.mp ha]
        decide), fun hw => by cases hw⟩
    obtain ⟨ch, hp⟩ := h.visible_detailRoot.mp hroot
    have hchart := hv.1 .detailHistChart (by decide)
    rw [(h.detail ch hp).2.2] at hchart
    exact ⟨⟨ch, hp⟩, fun hnil => by simp [hnil] at hchart⟩
  · have hcases : a = .detailHistChart ∨ a = detailRoot := by
      simpa [path, parent] using ha
    rcases hcases with rfl | rfl
    · rw [(h.detail ch hp).2.2]
      simpa using hne
    · rw [h.hidden _ (by decide) (by decide), hp]
      rfl
  · exact fun hw => by cases hw
  · obtain ⟨w, hw, hhas, hclick⟩ := Pages.exists_way_back hp
    exact ⟨w, (h.visible_iff hw).mpr hhas, hclick⟩

end GrainWarehouse
