import GrainWarehouse.Report.Averages
import GrainWarehouse.Actuator.Apply

/-!
# Actuator/Gui — the fan switch, the fan slider and the alarm linkage

The callbacks of `my_gui.c` that write `fan_running` and `fan_speed` and make up a command for
`ActuatorCmdQueue`; the command is sent after the writes, by the same task.
-/

namespace GrainWarehouse

/-- What `my_gui.c` keeps of the fan control. -/
structure Gui where
  alertAutoOn : Bool
  /-- `fan_switch` is checked. -/
  switchOn : Bool
  /-- `fan_slider` takes no input. -/
  sliderDisabled : Bool
  /-- `lv_slider_get_value(fan_slider)`; an animated slider already has its new value. -/
  slider : Fin 101
  deriving DecidableEq

/-- After `create_fan_control_section`. -/
def Gui.boot : Gui where
  alertAutoOn := false
  switchOn := false
  sliderDisabled := true
  slider := 50

/-- A fan command of the GUI. -/
def guiMsg (value : ℤ) : ApplayMsg := ⟨.fan, value, .gui⟩

/-- `fan_switch_event_cb`, the switch having been set by the user. -/
def fanSwitchEventCb (on : Bool) (g : Gui) (f : Fan) : ApplayMsg × Gui × Fan :=
  if on then
    (guiMsg g.slider.val,
      { g with switchOn := true, alertAutoOn := false, sliderDisabled := false },
      { f with fanRunning := 1 })
  else
    (guiMsg applayValOff,
      { g with switchOn := false, alertAutoOn := false, sliderDisabled := true, slider := 0 },
      { f with fanRunning := 0, fanSpeed := 0 })

/-- `fan_slider_event_cb`, the slider having been moved by the user. -/
def fanSliderEventCb (pct : Fin 101) (g : Gui) (f : Fan) : ApplayMsg × Gui × Fan :=
  (guiMsg pct.val, { g with slider := pct }, { f with fanSpeed := UInt8.ofNat pct.val })

/-- `alert_now`: an average with too much CO2 or CO. -/
def EnvAvg.Alert (avg : EnvAvg) : Prop := avg.co2Avg > 1500 ∨ avg.coAvg > 100

instance : DecidablePred EnvAvg.Alert := fun _ => inferInstanceAs (Decidable (_ ∨ _))

/-- The alarm linkage of `update_sensor_display`: the fan goes on with the alarm and off after it,
with one command each. -/
def updateSensorDisplay (avg : EnvAvg) (g : Gui) (f : Fan) : Option ApplayMsg × Gui × Fan :=
  if avg.Alert then
    if ¬ g.alertAutoOn then
      let slider : Fin 101 := if g.slider < 80 then 80 else g.slider
      let speed := UInt8.ofNat slider.val
      (some (guiMsg speed.toNat),
        { g with alertAutoOn := true, switchOn := true, sliderDisabled := false, slider := slider },
        { f with fanRunning := 1, fanSpeed := speed })
    else (none, g, f)
  else if g.alertAutoOn then
    (some (guiMsg applayValOff),
      { g with alertAutoOn := false, switchOn := false, sliderDisabled := true, slider := 0 },
      { f with fanRunning := 0, fanSpeed := 0 })
  else (none, g, f)

/-- **Without an alarm, and after none, the linkage does nothing.** -/
theorem updateSensorDisplay_of_not_alert {avg : EnvAvg} (h : ¬ avg.Alert) {g : Gui}
    (hg : g.alertAutoOn = false) (f : Fan) : updateSensorDisplay avg g f = (none, g, f) := by
  rw [updateSensorDisplay, if_neg h, if_neg (by rw [hg]; exact Bool.false_ne_true)]

end GrainWarehouse
