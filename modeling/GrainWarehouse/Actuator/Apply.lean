import Mathlib.Data.Int.Basic

/-!
# Actuator/Apply — what a command does to the fan, the heater and the humidifier

`applay_dispatch` and the three functions behind it.  A fan command from the GUI is a percentage,
any other a gear; a command that is not automatic puts the fan into manual mode (`mode_control`).
The functions hold `FanMutex` throughout, and `applay_task` is the only one to call them.
-/

namespace GrainWarehouse

/-- `source_t`. -/
inductive Source
  | auto | key | lora | gui | network
  deriving DecidableEq

/-- `applay_target_t`. -/
inductive ApplayTarget
  | fan | heat | humid
  deriving DecidableEq

/-- `APPLAY_VAL_OFF`. -/
abbrev applayValOff : ℤ := 0

/-- `APPLAY_VAL_ON`, for the heater and the humidifier. -/
abbrev applayValOn : ℤ := 1

/-- `APPLAY_VAL_LOW`. -/
abbrev applayValLow : ℤ := 1

/-- `APPLAY_VAL_MID`. -/
abbrev applayValMid : ℤ := 2

/-- `APPLAY_VAL_HI`. -/
abbrev applayValHi : ℤ := 3

/-- `applay_msg_t`; the value of an `applay_val_t` may also be a percentage. -/
structure ApplayMsg where
  target : ApplayTarget
  value : ℤ
  source : Source
  deriving DecidableEq

/-- The fan: its PWM compare value, the two globals that report it, and its light. -/
structure Fan where
  motorPwm : ℕ
  fanRunning : UInt8
  fanSpeed : UInt8
  lightFan : Bool
  deriving DecidableEq

/-- All actuators, and the mode. -/
structure Actuators extends Fan where
  modeControl : UInt8
  heater : Bool
  heatRunning : UInt8
  lightHeat : Bool
  humidRunning : UInt8
  lightHumid : Bool
  deriving DecidableEq

/-- After reset: the timer starts with half its period, `fan_speed` with 50. -/
def Actuators.boot : Actuators where
  motorPwm := 149
  fanRunning := 0
  fanSpeed := 50
  lightFan := false
  modeControl := 0
  heater := false
  heatRunning := 0
  lightHeat := false
  humidRunning := 0
  lightHumid := false

/-- `motor_set_speed`. -/
def motorSetSpeed (a : ℤ) (s : Actuators) : Actuators :=
  if a ≥ 0 ∧ a ≤ 300 then { s with motorPwm := a.toNat } else s

/-- The GUI branch of `fan_apply`. -/
def fanApplyGui (value : ℤ) (s : Actuators) : Actuators :=
  let pct : UInt8 := if UInt8.ofInt value ≤ 100 then UInt8.ofInt value else 100
  let s :=
    if pct = 0 then { motorSetSpeed 0 s with fanRunning := 0, fanSpeed := 0, lightFan := false }
    else
      { motorSetSpeed (pct.toNat * 3) s with fanRunning := 1, fanSpeed := pct, lightFan := true }
  { s with modeControl := 1 }

/-- A case of the `switch` over the gears. -/
def setGear (isManual : Bool) (pwm : ℤ) (running pct : UInt8) (light : Bool) (s : Actuators) :
    Actuators :=
  let s := { motorSetSpeed pwm s with fanRunning := running, fanSpeed := pct, lightFan := light }
  if isManual then { s with modeControl := 1 } else s

/-- `fan_apply`. -/
def fanApply (msg : ApplayMsg) (s : Actuators) : Actuators :=
  if msg.source = .gui then fanApplyGui msg.value s
  else
    let isManual : Bool := msg.source ≠ .auto
    if msg.value = applayValOff then setGear isManual 0 0 0 false s
    else if msg.value = applayValLow then setGear isManual 100 1 33 true s
    else if msg.value = applayValMid then setGear isManual 200 1 66 true s
    else if msg.value = applayValHi then setGear isManual 300 1 100 true s
    else s

/-- `heat_apply`. -/
def heatApply (msg : ApplayMsg) (s : Actuators) : Actuators :=
  if msg.value = applayValOff then { s with heater := false, heatRunning := 0, lightHeat := false }
  else { s with heater := true, heatRunning := 1, lightHeat := true }

/-- `humid_apply`. -/
def humidApply (msg : ApplayMsg) (s : Actuators) : Actuators :=
  if msg.value = applayValOff then { s with humidRunning := 0, lightHumid := false }
  else { s with humidRunning := 1, lightHumid := true }

/-- `applay_dispatch`. -/
def applayDispatch (msg : ApplayMsg) (s : Actuators) : Actuators :=
  match msg.target with
  | .fan => fanApply msg s
  | .heat => heatApply msg s
  | .humid => humidApply msg s

/-! ## What a command does to the mode -/

/-- A fan command that takes the fan over: a percentage, or a gear that is not automatic. -/
def ApplayMsg.TakesOver (msg : ApplayMsg) : Prop :=
  msg.target = .fan ∧ (msg.source = .gui ∨
    msg.source ≠ .auto ∧ (msg.value = applayValOff ∨ msg.value = applayValLow ∨
      msg.value = applayValMid ∨ msg.value = applayValHi))

instance : DecidablePred ApplayMsg.TakesOver := fun _ => inferInstanceAs (Decidable (_ ∧ _))

/-- An automatic fan command. -/
def ApplayMsg.IsAuto (msg : ApplayMsg) : Prop := msg.target = .fan ∧ msg.source = .auto

instance : DecidablePred ApplayMsg.IsAuto := fun _ => inferInstanceAs (Decidable (_ ∧ _))

theorem ApplayMsg.IsAuto.not_takesOver {msg : ApplayMsg} (h : msg.IsAuto) : ¬ msg.TakesOver := by
  rintro ⟨-, hgui | ⟨hauto, -⟩⟩
  · rw [h.2] at hgui
    cases hgui
  · exact hauto h.2

theorem modeControl_motorSetSpeed (a : ℤ) (s : Actuators) :
    (motorSetSpeed a s).modeControl = s.modeControl := by
  rw [motorSetSpeed]
  split_ifs <;> rfl

theorem modeControl_setGear (isManual : Bool) (pwm : ℤ) (running pct : UInt8) (light : Bool)
    (s : Actuators) :
    (setGear isManual pwm running pct light s).modeControl =
      if isManual then 1 else s.modeControl := by
  simp only [setGear]
  split_ifs
  · rfl
  · exact modeControl_motorSetSpeed pwm s

/-- **A command that takes over sets manual mode, and no other command touches the mode.** -/
theorem modeControl_applayDispatch (msg : ApplayMsg) (s : Actuators) :
    (applayDispatch msg s).modeControl = if msg.TakesOver then 1 else s.modeControl := by
  obtain ⟨target, value, source⟩ := msg
  cases target with
  | fan =>
    simp only [applayDispatch, fanApply, ApplayMsg.TakesOver, true_and]
    by_cases hgui : source = .gui
    · rw [if_pos hgui, if_pos (Or.inl hgui)]
      rfl
    · simp only [hgui, if_false, false_or]
      split_ifs <;> simp_all [modeControl_setGear]
  | heat =>
    rw [if_neg fun h => by cases h.1]
    simp only [applayDispatch, heatApply]
    split_ifs <;> rfl
  | humid =>
    rw [if_neg fun h => by cases h.1]
    simp only [applayDispatch, humidApply]
    split_ifs <;> rfl

end GrainWarehouse
