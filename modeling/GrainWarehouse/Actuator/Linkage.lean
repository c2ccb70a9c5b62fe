import GrainWarehouse.Machinery.Runs
import GrainWarehouse.Actuator.Gui

/-!
# Actuator/Linkage — who turned the fan on

`alert_auto_on` is to remember that the alarm has turned the fan on, so that only such a fan is
turned off when the alarm is over.  What it does remember is that an average in alarm has been shown
since the fan switch was last touched (`Linked.Armed.next`).  **An alarm leaves the user's fan alone
in a run exactly when none is cleared that began with the fan on, or in which the user had a hand,
but for one who touches the switch at the very end** (`Linked.eachStep_earned_iff`).
-/

namespace GrainWarehouse

/-- What has happened in the alarm that is on. -/
structure AlarmHistory where
  /-- The last average was in alarm. -/
  on : Bool
  /-- `fan_running` was 0 when the alarm began. -/
  offAtStart : Bool
  /-- The linkage has found the fan off and turned it on. -/
  turnedOn : Bool
  /-- The user has operated the switch or the slider. -/
  touched : Bool
  /-- An average in alarm has been shown since the user last operated the switch. -/
  shown : Bool
  deriving DecidableEq

/-- No alarm. -/
def AlarmHistory.quiet : AlarmHistory where
  on := false
  offAtStart := false
  turnedOn := false
  touched := false
  shown := false

/-- The fan control of the GUI, with the fan and the history of the alarm. -/
structure Linked where
  gui : Gui
  fan : Fan
  alarm : AlarmHistory
  deriving DecidableEq

/-- After start-up. -/
def Linked.boot : Linked where
  gui := .boot
  fan := Actuators.boot.toFan
  alarm := .quiet

/-- What changes the fan control. -/
inductive LinkedEv
  /-- An average is shown. -/
  | update (avg : EnvAvg)
  /-- The user taps the switch. -/
  | switch
  /-- The user moves the slider. -/
  | slide (pct : Fin 101)
  /-- A command has been applied to the fan. -/
  | applied (f : Fan)

namespace Linked

/-- The history after an average. -/
def noteUpdate (avg : EnvAvg) (s : Linked) : AlarmHistory :=
  if avg.Alert then
    let turnsOn : Bool := s.fan.fanRunning = 0 ∧ (updateSensorDisplay avg s.gui s.fan).1.isSome
    if s.alarm.on then { s.alarm with turnedOn := s.alarm.turnedOn || turnsOn, shown := true }
    else ⟨true, s.fan.fanRunning = 0, turnsOn, false, true⟩
  else .quiet

/-- **An event**; a disabled slider takes none. -/
def next (s : Linked) : LinkedEv → Linked
  | .update avg =>
    let d := updateSensorDisplay avg s.gui s.fan
    ⟨d.2.1, d.2.2, s.noteUpdate avg⟩
  | .switch =>
    let d := fanSwitchEventCb (!s.gui.switchOn) s.gui s.fan
    ⟨d.2.1, d.2.2, { s.alarm with touched := true, shown := false }⟩
  | .slide pct =>
    if s.gui.sliderDisabled then s
    else
      let d := fanSliderEventCb pct s.gui s.fan
      ⟨d.2.1, d.2.2, { s.alarm with touched := true }⟩
  | .applied f => { s with fan := f }

/-- **An alarm that is cleared with a command** has turned the fan on, which was off before it, and
the user has not been at it. -/
def Earned (s : Linked) : LinkedEv → Prop
  | .update avg => ¬ avg.Alert → (updateSensorDisplay avg s.gui s.fan).1.isSome →
      s.alarm.offAtStart = true ∧ s.alarm.turnedOn = true ∧ s.alarm.touched = false
  | _ => True

/-- An alarm that is cleared, and was shown since the switch was touched, began with the fan off and
without a hand of the user. -/
def ClearsUntouched (s : Linked) : LinkedEv → Prop
  | .update avg => ¬ avg.Alert → s.alarm.on = true → s.alarm.shown = true →
      s.alarm.offAtStart = true ∧ s.alarm.touched = false
  | _ => True

/-- **What `alert_auto_on` stands for**; an alarm has turned on a fan that it has found off. -/
structure Armed (s : Linked) : Prop where
  auto : s.gui.alertAutoOn = (s.alarm.on && s.alarm.shown)
  turnedOn : s.alarm.on = true → s.alarm.offAtStart = true → s.alarm.turnedOn = true

/-- The linkage sends a command exactly when its flag changes. -/
theorem isSome_updateSensorDisplay (avg : EnvAvg) (g : Gui) (f : Fan) :
    (updateSensorDisplay avg g f).1.isSome =
      if avg.Alert then !g.alertAutoOn else g.alertAutoOn := by
  rw [updateSensorDisplay]
  cases g.alertAutoOn <;> split_ifs <;> simp_all

theorem alertAutoOn_updateSensorDisplay (avg : EnvAvg) (g : Gui) (f : Fan) :
    (updateSensorDisplay avg g f).2.1.alertAutoOn = decide avg.Alert := by
  rw [updateSensorDisplay]
  split_ifs <;> simp_all

theorem alertAutoOn_fanSwitchEventCb (on : Bool) (g : Gui) (f : Fan) :
    (fanSwitchEventCb on g f).2.1.alertAutoOn = false := by
  rw [fanSwitchEventCb]
  split_ifs <;> rfl

theorem armed_boot : boot.Armed := ⟨rfl, fun h => by cases h⟩

/-- **Every event keeps the flag's meaning.** -/
theorem Armed.next {s : Linked} (h : s.Armed) (ev : LinkedEv) : (s.next ev).Armed := by
  cases ev with
  | update avg =>
    by_cases halert : avg.Alert
    · have hcmd := isSome_updateSensorDisplay avg s.gui s.fan
      rw [if_pos halert, h.auto] at hcmd
      refine ⟨?_, ?_⟩
      · simp only [Linked.next, noteUpdate, alertAutoOn_updateSensorDisplay, if_pos halert]
        cases s.alarm.on <;> simp_all
      · simp only [Linked.next, noteUpdate, if_pos halert, hcmd]
        cases hon : s.alarm.on with
        | true =>
          intro _ hoff
          simpa using Or.inl (h.turnedOn hon hoff)
        | false =>
          intro _ hoff
          simpa using hoff
    · refine ⟨?_, ?_⟩
      · simp [Linked.next, noteUpdate, alertAutoOn_updateSensorDisplay, halert,
          AlarmHistory.quiet]
      · intro hon
        simp [Linked.next, noteUpdate, halert, AlarmHistory.quiet] at hon
  | switch => exact ⟨by simp [Linked.next, alertAutoOn_fanSwitchEventCb], h.turnedOn⟩
  | slide pct =>
    simp only [Linked.next]
    split_ifs
    · exact h
    · exact ⟨h.auto, h.turnedOn⟩
  | applied f => exact ⟨h.auto, h.turnedOn⟩

/-- …so that it tells which alarms are cleared with a command. -/
theorem Armed.earned_iff {s : Linked} (h : s.Armed) (ev : LinkedEv) :
    s.Earned ev ↔ s.ClearsUntouched ev := by
  cases ev with
  | update avg =>
    refine forall_congr' fun halert => ?_
    rw [isSome_updateSensorDisplay, if_neg halert, h.auto, Bool.and_eq_true]
    constructor
    · intro hearned hon hshown
      exact ⟨(hearned ⟨hon, hshown⟩).1, (hearned ⟨hon, hshown⟩).2.2⟩
    · rintro hclear ⟨hon, hshown⟩
      obtain ⟨hoff, htouched⟩ := hclear hon hshown
      exact ⟨hoff, h.turnedOn hon hoff, htouched⟩
  | switch => exact Iff.rfl
  | slide pct => exact Iff.rfl
  | applied f => exact Iff.rfl

/-- **In a run every alarm that is cleared with a command is the fan's own exactly when every alarm
that is cleared after it was shown began with the fan off and went by without the user.** -/
theorem eachStep_earned_iff (evs : List LinkedEv) :
    EachStep next Earned boot evs ↔ EachStep next ClearsUntouched boot evs := by
  have hkeep {C : Linked → LinkedEv → Prop} : ∀ s ev, Armed s → C s ev → Armed (s.next ev) :=
    fun _ ev h _ => h.next ev
  exact ⟨EachStep.imp hkeep (fun _ ev h hev => (h.earned_iff ev).mp hev) evs armed_boot,
    EachStep.imp hkeep (fun _ ev h hev => (h.earned_iff ev).mpr hev) evs armed_boot⟩

/-- An average with this much CO2. -/
def avgOfCo2 (co2 : UInt16) : EnvAvg := ⟨0, 200, 500, 0, co2, 50, 60⟩

/-- **The fan that the user had running goes off with the alarm.** -/
theorem user_fan_cleared :
    ¬ EachStep next Earned boot [.switch, .update (avgOfCo2 1501), .update (avgOfCo2 400)] ∧
      (runFrom next boot [.switch, .update (avgOfCo2 1501), .update (avgOfCo2 400)]).fan.fanRunning
        = 0 := by
  refine ⟨fun h => ?_, by decide⟩
  have hcleared := h.2.2.1 (by decide) (by decide)
  exact absurd hcleared.1 (by decide)

end Linked

end GrainWarehouse
