import GrainWarehouse.Machinery.Fifo
import GrainWarehouse.Actuator.Gui
import GrainWarehouse.Actuator.Channels

/-!
# Actuator/Status — two tasks that write the status of the fan

The GUI writes `fan_running` and `fan_speed` when the user acts, and `applay_task` when the command
for it arrives.  Both do so one variable after the other, and anything may happen in between.
**When all is quiet the status agrees with the motor, unless the last command of the GUI found the
queue full** (`FanTasks.agrees_run`): then it says what the user wanted.
-/

namespace GrainWarehouse

/-! ## One write after the other -/

/-- A write of `fan_apply`. -/
inductive FanWrite
  | pwm (a : ℤ)
  | running (v : UInt8)
  | speed (v : UInt8)
  | light (lit : Bool)
  | mode

namespace FanWrite

/-- …and what it does. -/
def exec (s : Actuators) : FanWrite → Actuators
  | pwm a => motorSetSpeed a s
  | running v => { s with fanRunning := v }
  | speed v => { s with fanSpeed := v }
  | light lit => { s with lightFan := lit }
  | mode => { s with modeControl := 1 }

/-- The writes of a case of the `switch` over the gears. -/
def gear (isManual : Bool) (a : ℤ) (v pct : UInt8) (lit : Bool) : List FanWrite :=
  [pwm a, running v, speed pct] ++ (if isManual then [mode] else []) ++ [light lit]

/-- **The writes of `fan_apply`**, in order. -/
def all (msg : ApplayMsg) : List FanWrite :=
  if msg.source = .gui then
    let pct := guiPct msg.value
    if pct = 0 then [pwm 0, running 0, speed 0, light false, mode]
    else [pwm (pct.toNat * 3), running 1, speed pct, light true, mode]
  else
    let isManual : Bool := msg.source ≠ .auto
    if msg.value = applayValOff then gear isManual 0 0 0 false
    else if msg.value = applayValLow then gear isManual 100 1 33 true
    else if msg.value = applayValMid then gear isManual 200 1 66 true
    else if msg.value = applayValHi then gear isManual 300 1 100 true
    else []

theorem foldl_gear (isManual : Bool) (a : ℤ) (v pct : UInt8) (lit : Bool) (s : Actuators) :
    (gear isManual a v pct lit).foldl exec s = setGear isManual a v pct lit s := by
  cases isManual <;> rfl

/-- **All the writes together are `fan_apply`.** -/
theorem foldl_all (msg : ApplayMsg) (s : Actuators) : (all msg).foldl exec s = fanApply msg s := by
  rw [all, fanApply]
  by_cases hgui : msg.source = .gui
  · rw [if_pos hgui, if_pos hgui, fanApplyGui_eq]
    dsimp only
    split_ifs <;> rfl
  · simp only [hgui, if_false]
    split_ifs
    all_goals first | exact foldl_gear _ _ _ _ _ s | rfl

end FanWrite

/-- A write of a GUI callback. -/
inductive GuiWrite
  | running (v : UInt8)
  | speed (v : UInt8)

/-- …and what it does. -/
def GuiWrite.exec (f : Fan) : GuiWrite → Fan
  | running v => { f with fanRunning := v }
  | speed v => { f with fanSpeed := v }

/-- The value of the command that a callback sends. -/
inductive GuiValue
  | known (value : ℤ)
  /-- It has still to be read from `fan_speed`. -/
  | fanSpeed

/-- **A GUI callback under way**: the writes to come, and the command that follows them. -/
structure GuiJob where
  writes : List GuiWrite
  value : GuiValue

namespace GuiJob

/-- What a callback does that is left alone. -/
def finish (job : GuiJob) (f : Fan) : ApplayMsg × Fan :=
  let f := job.writes.foldl GuiWrite.exec f
  match job.value with
  | .known value => (guiMsg value, f)
  | .fanSpeed => (guiMsg f.fanSpeed.toNat, f)

local instance neZeroSlider : @NeZero ℕ Zero.ofOfNat0 101 := ⟨by decide⟩

/-- `fan_switch_event_cb`, and the controls after it. -/
def switch (on : Bool) (g : Gui) : GuiJob × Gui :=
  if on then
    (⟨[.running 1], .known g.slider.val⟩,
      { g with switchOn := true, alertAutoOn := false, sliderDisabled := false })
  else
    (⟨[.running 0, .speed 0], .known applayValOff⟩,
      { g with switchOn := false, alertAutoOn := false, sliderDisabled := true, slider := 0 })

/-- `fan_slider_event_cb`. -/
def slide (pct : Fin 101) (g : Gui) : GuiJob × Gui :=
  (⟨[.speed (UInt8.ofNat pct.val)], .known pct.val⟩, { g with slider := pct })

/-- The alarm linkage, when it has something to do. -/
def update (avg : EnvAvg) (g : Gui) : Option GuiJob × Gui :=
  if avg.Alert then
    if ¬ g.alertAutoOn then
      let slider : Fin 101 := if g.slider < 80 then 80 else g.slider
      (some ⟨[.running 1, .speed (UInt8.ofNat slider.val)], .fanSpeed⟩,
        { g with alertAutoOn := true, switchOn := true, sliderDisabled := false, slider := slider })
    else (none, g)
  else if g.alertAutoOn then
    (some ⟨[.running 0, .speed 0], .known applayValOff⟩,
      { g with alertAutoOn := false, switchOn := false, sliderDisabled := true, slider := 0 })
  else (none, g)

/-- **Left alone, the jobs are the callbacks.** -/
theorem finish_switch (on : Bool) (g : Gui) (f : Fan) :
    (((switch on g).1.finish f).1, (switch on g).2, ((switch on g).1.finish f).2) =
      fanSwitchEventCb on g f := by
  cases on <;> rfl

theorem finish_slide (pct : Fin 101) (g : Gui) (f : Fan) :
    (((slide pct g).1.finish f).1, (slide pct g).2, ((slide pct g).1.finish f).2) =
      fanSliderEventCb pct g f := rfl

theorem finish_update (avg : EnvAvg) (g : Gui) (f : Fan) :
    (((update avg g).1.map fun job => (job.finish f).1), (update avg g).2,
        ((update avg g).1.elim f fun job => (job.finish f).2)) =
      updateSensorDisplay avg g f := by
  simp only [update, updateSensorDisplay]
  split_ifs <;> rfl

end GuiJob

/-- **`fan_running` and `fan_speed` say what the motor does.** -/
structure Fan.Agrees (f : Fan) : Prop where
  running_iff : f.fanRunning = 1 ↔ 0 < f.motorPwm
  speed : f.fanSpeed.toNat = f.motorPwm / 3

theorem Fan.Consistent.agrees {f : Fan} (h : f.Consistent) : f.Agrees := ⟨h.running_iff, h.speed⟩

/-! ## The tasks -/

/-- The two tasks, and what they share. -/
structure FanTasks where
  act : Actuators
  /-- `ActuatorCmdQueue`. -/
  queue : Fifo ApplayMsg 10
  /-- The writes that `fan_apply` has still to make. -/
  applying : List FanWrite
  gui : Gui
  /-- The callback that the GUI is in. -/
  job : Option GuiJob
  /-- A command has been applied to the fan. -/
  applied : Bool
  /-- A command of the GUI was dropped since `applay_task` last took one for the fan. -/
  dropped : Bool

/-- After start-up. -/
def FanTasks.boot : FanTasks where
  act := .boot
  queue := .empty
  applying := []
  gui := .boot
  job := none
  applied := false
  dropped := false

/-- A step of a task. -/
inductive FanAct
  /-- The user taps the switch. -/
  | switch
  /-- The user moves the slider. -/
  | slide (pct : Fin 101)
  /-- The GUI is shown an average. -/
  | update (avg : EnvAvg)
  /-- The GUI goes on with its callback. -/
  | gui
  /-- Some other task sends a command. -/
  | post (msg : ApplayMsg)
  /-- `applay_task` takes a command from the queue. -/
  | receive
  /-- …and goes on with it. -/
  | apply

namespace FanTasks

/-- A callback makes a write, reads `fan_speed`, or sends its command. -/
def guiStep (job : GuiJob) (s : FanTasks) : FanTasks :=
  match job with
  | ⟨w :: writes, value⟩ =>
    { s with act := { s.act with toFan := w.exec s.act.toFan }, job := some ⟨writes, value⟩ }
  | ⟨[], .fanSpeed⟩ => { s with job := some ⟨[], .known s.act.fanSpeed.toNat⟩ }
  | ⟨[], .known value⟩ =>
    match s.queue.send (guiMsg value) with
    | some q => { s with queue := q, job := none }
    | none => { s with dropped := true, job := none }

/-- `applay_task` has taken a command: one for the fan is applied write by write, the others touch
nothing that is shared here. -/
def take (msg : ApplayMsg) (s : FanTasks) : FanTasks :=
  if msg.target = .fan then
    if msg.FanEffective then
      { s with applying := FanWrite.all msg, applied := true, dropped := false }
    else s
  else { s with act := applayDispatch msg s.act }

/-- **A step**: nothing, if its task is elsewhere. -/
def next (s : FanTasks) : FanAct → FanTasks
  | .switch =>
    if s.job.isSome then s
    else
      let d := GuiJob.switch (!s.gui.switchOn) s.gui
      { s with job := some d.1, gui := d.2 }
  | .slide pct =>
    if s.job.isSome ∨ s.gui.sliderDisabled then s
    else
      let d := GuiJob.slide pct s.gui
      { s with job := some d.1, gui := d.2 }
  | .update avg =>
    if s.job.isSome then s
    else
      let d := GuiJob.update avg s.gui
      { s with job := d.1, gui := d.2 }
  | .gui => s.job.elim s fun job => s.guiStep job
  | .post msg => { s with queue := (s.queue.send msg).getD s.queue }
  | .receive =>
    match s.applying, s.queue.receive with
    | [], some (msg, q) => { s with queue := q }.take msg
    | _, _ => s
  | .apply =>
    match s.applying with
    | w :: rest => { s with act := w.exec s.act, applying := rest }
    | [] => s

/-- **A run of the tasks** from start-up. -/
def run (as : List FanAct) : FanTasks := runFrom next boot as

/-- All is quiet. -/
structure Quiet (s : FanTasks) : Prop where
  queue : s.queue.items = []
  applying : s.applying = []
  job : s.job = none

/-! ## Agreement -/

/-- **What makes the status come right**: a command of the GUI that is on its way, or the writes
that are still to come, unless one was dropped. -/
def Settling (s : FanTasks) : Prop :=
  s.applied = false ∨ s.dropped = true ∨ (∃ msg ∈ s.queue.items, msg.FanEffective) ∨
    s.job.isSome = true ∨ (s.applying.foldl FanWrite.exec s.act).toFan.Agrees

theorem agrees_all {msg : ApplayMsg} (h : msg.FanEffective) (s : Actuators) :
    ((FanWrite.all msg).foldl FanWrite.exec s).toFan.Agrees := by
  obtain ⟨f, hf⟩ := Option.isSome_iff_exists.mp ((ApplayMsg.fan?_isSome_iff h.1).mpr h)
  rw [FanWrite.foldl_all, toFan_fanApply, hf, Option.getD_some]
  exact (ApplayMsg.consistent_of_fan? hf).agrees

theorem settling_guiStep (job : GuiJob) (s : FanTasks) : (s.guiStep job).Settling := by
  obtain ⟨_ | ⟨w, writes⟩, value⟩ := job
  · cases value with
    | fanSpeed => exact Or.inr (Or.inr (Or.inr (Or.inl rfl)))
    | known value =>
      simp only [FanTasks.guiStep]
      split
      · next q hq =>
        -- the command is on the queue now, and sets the fan
        refine Or.inr (Or.inr (Or.inl ⟨guiMsg value, ?_, rfl, Or.inl rfl⟩))
        rw [Fifo.items_send hq]
        exact List.mem_append_right _ List.mem_cons_self
      · exact Or.inr (Or.inl rfl)
  · exact Or.inr (Or.inr (Or.inr (Or.inl rfl)))

/-- A command of `post` is behind those that are there. -/
theorem mem_queue_post {msg msg' : ApplayMsg} {q : Fifo ApplayMsg 10} (h : msg ∈ q.items) :
    msg ∈ ((q.send msg').getD q).items := by
  cases hsend : q.send msg' with
  | none => exact h
  | some q' =>
    rw [Option.getD_some, Fifo.items_send hsend]
    exact List.mem_append_left _ h

theorem Settling.receive {s : FanTasks} (h : s.Settling) (happ : s.applying = [])
    {msg : ApplayMsg} {q : Fifo ApplayMsg 10} (hq : s.queue.receive = some (msg, q)) :
    ({ s with queue := q }.take msg).Settling := by
  have hitems := Fifo.items_receive hq
  -- what sets the fan is still on the queue, unless it has just been taken
  have hrest (hnot : ¬ msg.FanEffective) (hex : ∃ m ∈ s.queue.items, m.FanEffective) :
      ∃ m ∈ q.items, m.FanEffective := by
    obtain ⟨m, hm, heff⟩ := hex
    rw [hitems] at hm
    rcases List.mem_cons.mp hm with rfl | hm
    · exact absurd heff hnot
    · exact ⟨m, hm, heff⟩
  simp only [take]
  split_ifs with htarget heff
  · exact Or.inr (Or.inr (Or.inr (Or.inr (agrees_all heff s.act))))
  · exact h.imp_right (Or.imp_right (Or.imp_left (hrest heff)))
  · have hnot : ¬ msg.FanEffective := fun heff => htarget heff.1
    refine h.imp_right (Or.imp_right (Or.imp (hrest hnot) (Or.imp_right fun hagree => ?_)))
    simp only [happ, List.foldl_nil] at hagree ⊢
    rwa [(fan_mode_of_target_ne htarget s.act).1]

/-- **Every step of a task keeps it so.** -/
theorem Settling.next {s : FanTasks} (h : s.Settling) (a : FanAct) : (s.next a).Settling := by
  cases a with
  | switch =>
    simp only [FanTasks.next]
    split_ifs
    · exact h
    · exact Or.inr (Or.inr (Or.inr (Or.inl rfl)))
  | slide pct =>
    simp only [FanTasks.next]
    split_ifs
    · exact h
    · exact Or.inr (Or.inr (Or.inr (Or.inl rfl)))
  | update avg =>
    simp only [FanTasks.next]
    split_ifs with hjob
    · exact h
    · refine h.imp_right (Or.imp_right (Or.imp_right fun h => ?_))
      exact Or.inr (h.resolve_left hjob)
  | gui =>
    simp only [FanTasks.next]
    cases s.job with
    | none => exact h
    | some job => exact settling_guiStep job s
  | post msg =>
    exact h.imp_right (Or.imp_right (Or.imp_left fun ⟨m, hm, heff⟩ =>
      ⟨m, mem_queue_post hm, heff⟩))
  | receive =>
    simp only [FanTasks.next]
    split
    · next msg q happ hq => exact h.receive happ hq
    · exact h
  | apply =>
    simp only [FanTasks.next]
    split
    · next w rest happ =>
      refine h.imp_right (Or.imp_right (Or.imp_right (Or.imp_right fun hagree => ?_)))
      rwa [happ, List.foldl_cons] at hagree
    · exact h

/-- **In every run: when all is quiet, a fan that a command has set agrees with its status**, unless
a command of the GUI was dropped since the last one for the fan was taken. -/
theorem agrees_run (as : List FanAct) (hquiet : (run as).Quiet) (happlied : (run as).applied = true)
    (hdropped : (run as).dropped = false) : (run as).act.toFan.Agrees := by
  have hsettling : (run as).Settling :=
    runFrom_invariant (P := Settling) (fun _ a hs => hs.next a) as (Or.inl rfl)
  rcases hsettling with h | h | ⟨m, hm, -⟩ | h | h
  · rw [happlied] at h
    cases h
  · rw [hdropped] at h
    cases h
  · rw [hquiet.queue] at hm
    cases hm
  · rw [hquiet.job] at h
    cases h
  · rwa [hquiet.applying, List.foldl_nil] at h

/-- The user taps the switch, and everything takes its course. -/
def tapped : List FanAct := [.switch, .gui, .gui, .receive, .apply, .apply, .apply, .apply, .apply]

theorem agrees_run_tapped : (run tapped).act.toFan.Agrees :=
  agrees_run tapped ⟨by decide +kernel, by decide +kernel, by decide +kernel⟩ (by decide +kernel)
    (by decide +kernel)

/-- The fan is turned off, the queue fills up with commands for the heater, the user taps the
switch, and the queue is emptied. -/
def tappedInVain : List FanAct :=
  [.post ⟨.fan, 0, .auto⟩, .receive, .apply, .apply, .apply, .apply] ++
    List.replicate 10 (.post ⟨.heat, 1, .network⟩) ++ [.switch, .gui, .gui] ++
    List.replicate 10 .receive

/-- **The fan is reported as running, and stands still.** -/
theorem tappedInVain_disagrees : (run tappedInVain).Quiet ∧ (run tappedInVain).applied = true ∧
    ¬ (run tappedInVain).act.toFan.Agrees := by
  refine ⟨⟨by decide +kernel, by decide +kernel, by decide +kernel⟩, by decide +kernel, fun h => ?_⟩
  have hpwm : 0 < (run tappedInVain).act.motorPwm := h.running_iff.mp (by decide +kernel)
  exact absurd hpwm (by decide +kernel)

end FanTasks

end GrainWarehouse
