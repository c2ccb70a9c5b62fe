import GrainWarehouse.Machinery.Latest
import GrainWarehouse.Actuator.Apply

/-!
# Actuator/Channels — three channels that know nothing of each other

The fan, the mode, the heater and the humidifier are registers of the commands: **each is as the
last command that sets it left it** (`channels_run`), and how the commands of the channels are
interleaved makes no difference (`run_eq_of_channels`).  What a fan command leaves behind is
consistent (`Fan.Consistent`).
-/

namespace GrainWarehouse

/-! ## What a fan command sets -/

/-- `pct` of `fan_apply`: the value as a byte, above 100 counts as 100. -/
def guiPct (value : ℤ) : UInt8 := if UInt8.ofInt value ≤ 100 then UInt8.ofInt value else 100

/-- The fan at a percentage. -/
def Fan.ofPct (pct : UInt8) : Fan :=
  if pct = 0 then ⟨0, 0, 0, false⟩ else ⟨pct.toNat * 3, 1, pct, true⟩

/-- The fan in a gear, unless there is no such gear. -/
def Fan.ofGear (value : ℤ) : Option Fan :=
  if value = applayValOff then some ⟨0, 0, 0, false⟩
  else if value = applayValLow then some ⟨100, 1, 33, true⟩
  else if value = applayValMid then some ⟨200, 1, 66, true⟩
  else if value = applayValHi then some ⟨300, 1, 100, true⟩
  else none

/-- The fan that a command of the fan channel asks for. -/
def ApplayMsg.fan? (msg : ApplayMsg) : Option Fan :=
  if msg.source = .gui then some (.ofPct (guiPct msg.value)) else Fan.ofGear msg.value

/-- The command sets the fan. -/
def ApplayMsg.FanEffective (msg : ApplayMsg) : Prop :=
  msg.target = .fan ∧ (msg.source = .gui ∨ 0 ≤ msg.value ∧ msg.value ≤ 3)

instance : DecidablePred ApplayMsg.FanEffective := fun _ => inferInstanceAs (Decidable (_ ∧ _))

/-- **The four variables of the fan agree.** -/
structure Fan.Consistent (f : Fan) : Prop where
  pwm_le : f.motorPwm ≤ 300
  speed : f.fanSpeed.toNat = f.motorPwm / 3
  running_iff : f.fanRunning = 1 ↔ 0 < f.motorPwm
  light_iff : f.lightFan = true ↔ 0 < f.motorPwm

theorem guiPct_le (value : ℤ) : (guiPct value).toNat ≤ 100 := by
  rw [guiPct]
  split_ifs with h
  · exact UInt8.le_iff_toNat_le.mp h
  · exact le_rfl

theorem Fan.consistent_ofPct {pct : UInt8} (h : pct.toNat ≤ 100) : (Fan.ofPct pct).Consistent := by
  rw [Fan.ofPct]
  split_ifs with hzero
  · constructor <;> decide
  · have hpos : 0 < pct.toNat := Nat.pos_of_ne_zero fun h0 => hzero (UInt8.toNat_inj.mp h0)
    have hpwm : 0 < pct.toNat * 3 := Nat.mul_pos hpos (by decide)
    exact ⟨Nat.mul_le_mul_right 3 h, (Nat.mul_div_cancel _ (by decide)).symm,
      iff_of_true rfl hpwm, iff_of_true rfl hpwm⟩

theorem Fan.consistent_ofGear {value : ℤ} {f : Fan} (h : Fan.ofGear value = some f) :
    f.Consistent := by
  rw [Fan.ofGear] at h
  split_ifs at h
  all_goals
    cases h
    constructor <;> decide

/-- **Whatever fan a command asks for is consistent.** -/
theorem ApplayMsg.consistent_of_fan? {msg : ApplayMsg} {f : Fan} (h : msg.fan? = some f) :
    f.Consistent := by
  rw [ApplayMsg.fan?] at h
  split_ifs at h
  · cases h
    exact Fan.consistent_ofPct (guiPct_le _)
  · exact Fan.consistent_ofGear h

theorem Fan.ofGear_isSome_iff (value : ℤ) : (Fan.ofGear value).isSome ↔ 0 ≤ value ∧ value ≤ 3 := by
  simp only [Fan.ofGear, applayValOff, applayValLow, applayValMid, applayValHi]
  split_ifs
  all_goals
    simp only [Option.isSome_some, Option.isSome_none, Bool.false_eq_true, true_iff, false_iff]
    omega

theorem ApplayMsg.fan?_isSome_iff {msg : ApplayMsg} (h : msg.target = .fan) :
    msg.fan?.isSome ↔ msg.FanEffective := by
  rw [ApplayMsg.fan?, ApplayMsg.FanEffective]
  by_cases hgui : msg.source = .gui
  · simp [h, hgui]
  · simp [h, hgui, Fan.ofGear_isSome_iff]

theorem motorPwm_motorSetSpeed {a : ℤ} (h : 0 ≤ a ∧ a ≤ 300) (s : Actuators) :
    motorSetSpeed a s = { s with motorPwm := a.toNat } := if_pos h

theorem toFan_setGear (isManual : Bool) {pwm : ℤ} (h : 0 ≤ pwm ∧ pwm ≤ 300) (running pct : UInt8)
    (light : Bool) (s : Actuators) :
    (setGear isManual pwm running pct light s).toFan = ⟨pwm.toNat, running, pct, light⟩ := by
  simp only [setGear, motorPwm_motorSetSpeed h]
  split_ifs <;> rfl

theorem fanApplyGui_eq (value : ℤ) (s : Actuators) : fanApplyGui value s =
    { (if guiPct value = 0 then
        { motorSetSpeed 0 s with fanRunning := 0, fanSpeed := 0, lightFan := false }
      else
        { motorSetSpeed ((guiPct value).toNat * 3) s with
          fanRunning := 1, fanSpeed := guiPct value, lightFan := true }) with
      modeControl := 1 } := rfl

theorem toFan_fanApplyGui (value : ℤ) (s : Actuators) :
    (fanApplyGui value s).toFan = .ofPct (guiPct value) := by
  have hle := guiPct_le value
  rw [fanApplyGui_eq, Fan.ofPct]
  split_ifs
  · rw [motorPwm_motorSetSpeed (by decide)]
    rfl
  · rw [motorPwm_motorSetSpeed (by omega)]
    rfl

/-- **`fan_apply` sets the fan that its command asks for**, and leaves it when there is none. -/
theorem toFan_fanApply (msg : ApplayMsg) (s : Actuators) :
    (fanApply msg s).toFan = msg.fan?.getD s.toFan := by
  rw [fanApply, ApplayMsg.fan?]
  by_cases hgui : msg.source = .gui
  · rw [if_pos hgui, if_pos hgui]
    exact toFan_fanApplyGui msg.value s
  · simp only [hgui, if_false, Fan.ofGear]
    split_ifs
    · exact toFan_setGear _ (by decide) 0 0 false s
    · exact toFan_setGear _ (by decide) 1 33 true s
    · exact toFan_setGear _ (by decide) 1 66 true s
    · exact toFan_setGear _ (by decide) 1 100 true s
    · rfl

/-! ## The registers -/

/-- The heater: the device, its status and its light. -/
def Actuators.heat (s : Actuators) : Bool × UInt8 × Bool := (s.heater, s.heatRunning, s.lightHeat)

/-- The humidifier, which has no device yet. -/
def Actuators.humid (s : Actuators) : UInt8 × Bool := (s.humidRunning, s.lightHumid)

/-- `applay_dispatch`, as a step on the actuators. -/
def Actuators.next (s : Actuators) (msg : ApplayMsg) : Actuators := applayDispatch msg s

/-- `applay_dispatch`, command after command. -/
def applayAll (s : Actuators) (msgs : List ApplayMsg) : Actuators := runFrom Actuators.next s msgs

theorem Actuators.ext_channels {s s' : Actuators} (hfan : s.toFan = s'.toFan)
    (hmode : s.modeControl = s'.modeControl) (hheat : s.heat = s'.heat)
    (hhumid : s.humid = s'.humid) : s = s' := by
  cases s
  cases s'
  simp only [Actuators.heat, Actuators.humid, Prod.mk.injEq] at hfan hmode hheat hhumid
  simp only [hfan, hmode, hheat, hhumid]

theorem others_motorSetSpeed (a : ℤ) (s : Actuators) :
    ((motorSetSpeed a s).heat, (motorSetSpeed a s).humid) = (s.heat, s.humid) := by
  rw [motorSetSpeed]
  split_ifs <;> rfl

theorem others_setGear (isManual : Bool) (pwm : ℤ) (running pct : UInt8) (light : Bool)
    (s : Actuators) : ((setGear isManual pwm running pct light s).heat,
      (setGear isManual pwm running pct light s).humid) = (s.heat, s.humid) := by
  simp only [setGear]
  split_ifs
  · exact others_motorSetSpeed pwm s
  · exact others_motorSetSpeed pwm s

/-- A fan command leaves the heater and the humidifier alone. -/
theorem others_fanApply (msg : ApplayMsg) (s : Actuators) :
    ((fanApply msg s).heat, (fanApply msg s).humid) = (s.heat, s.humid) := by
  rw [fanApply]
  by_cases hgui : msg.source = .gui
  · rw [if_pos hgui, fanApplyGui]
    split_ifs
    all_goals exact others_motorSetSpeed _ s
  · simp only [hgui, if_false]
    split_ifs
    all_goals first | exact others_setGear _ _ _ _ _ s | rfl

/-- **A command of another channel leaves the fan and the mode alone.** -/
theorem fan_mode_of_target_ne {msg : ApplayMsg} (h : msg.target ≠ .fan) (s : Actuators) :
    (applayDispatch msg s).toFan = s.toFan ∧
      (applayDispatch msg s).modeControl = s.modeControl := by
  cases ht : msg.target with
  | fan => exact absurd ht h
  | heat =>
    simp only [applayDispatch, ht, heatApply]
    split_ifs <;> exact ⟨rfl, rfl⟩
  | humid =>
    simp only [applayDispatch, ht, humidApply]
    split_ifs <;> exact ⟨rfl, rfl⟩

theorem register_fan : Register Actuators.next Actuators.toFan ApplayMsg.FanEffective where
  own msg heff s s' := by
    obtain ⟨f, hf⟩ := Option.isSome_iff_exists.mp ((ApplayMsg.fan?_isSome_iff heff.1).mpr heff)
    simp only [Actuators.next, applayDispatch, heff.1, toFan_fanApply, hf, Option.getD_some]
  other msg hnot s := by
    by_cases htarget : msg.target = .fan
    · have hf : msg.fan? = none := by
        rwa [← Option.not_isSome_iff_eq_none, ApplayMsg.fan?_isSome_iff htarget]
      simp only [Actuators.next, applayDispatch, htarget, toFan_fanApply, hf, Option.getD_none]
    · exact (fan_mode_of_target_ne htarget s).1

theorem register_mode : Register Actuators.next Actuators.modeControl ApplayMsg.TakesOver where
  own msg htakes s s' := by
    simp only [Actuators.next, modeControl_applayDispatch, if_pos htakes]
  other msg hnot s := by simp only [Actuators.next, modeControl_applayDispatch, if_neg hnot]

theorem register_heat : Register Actuators.next Actuators.heat (·.target = .heat) where
  own msg htarget s s' := by
    simp only [Actuators.next, applayDispatch, htarget, heatApply]
    split_ifs <;> rfl
  other msg hnot s := by
    cases htarget : msg.target with
    | fan =>
      simp only [Actuators.next, applayDispatch, htarget]
      exact congrArg Prod.fst (others_fanApply msg s)
    | heat => exact absurd htarget hnot
    | humid =>
      simp only [Actuators.next, applayDispatch, htarget, humidApply]
      split_ifs <;> rfl

theorem register_humid : Register Actuators.next Actuators.humid (·.target = .humid) where
  own msg htarget s s' := by
    simp only [Actuators.next, applayDispatch, htarget, humidApply]
    split_ifs <;> rfl
  other msg hnot s := by
    cases htarget : msg.target with
    | fan =>
      simp only [Actuators.next, applayDispatch, htarget]
      exact congrArg Prod.snd (others_fanApply msg s)
    | heat =>
      simp only [Actuators.next, applayDispatch, htarget, heatApply]
      split_ifs <;> rfl
    | humid => exact absurd htarget hnot

/-! ## Interleaving the channels -/

/-- The commands of a narrower kind, out of those of one channel. -/
theorem filter_filter_target {Own : ApplayMsg → Prop} [DecidablePred Own] {t : ApplayTarget}
    (hOwn : ∀ msg, Own msg → msg.target = t) (msgs : List ApplayMsg) :
    (msgs.filter (·.target = t)).filter Own = msgs.filter Own := by
  rw [List.filter_filter]
  refine List.filter_congr fun msg _ => ?_
  by_cases h : Own msg
  · simp [h, hOwn msg h]
  · simp [h]

/-- **How the commands of the channels are interleaved makes no difference.** -/
theorem run_eq_of_channels {msgs msgs' : List ApplayMsg}
    (h : ∀ t, msgs.filter (·.target = t) = msgs'.filter (·.target = t)) (s : Actuators) :
    applayAll s msgs = applayAll s msgs' := by
  refine Actuators.ext_channels (register_fan.run_congr ?_ s) (register_mode.run_congr ?_ s)
    (register_heat.run_congr (h .heat) s) (register_humid.run_congr (h .humid) s)
  · rw [← filter_filter_target (fun _ heff => heff.1) msgs, h,
      filter_filter_target fun _ heff => heff.1]
  · rw [← filter_filter_target (fun _ htakes => htakes.1) msgs, h,
      filter_filter_target fun _ htakes => htakes.1]

/-- …of two commands in particular. -/
theorem applayDispatch_comm {msg msg' : ApplayMsg} (h : msg.target ≠ msg'.target)
    (s : Actuators) :
    applayDispatch msg' (applayDispatch msg s) = applayDispatch msg (applayDispatch msg' s) := by
  have hfilter : ∀ t, [msg, msg'].filter (·.target = t) = [msg', msg].filter (·.target = t) := by
    intro t
    by_cases ht : msg.target = t
    · have ht' : msg'.target ≠ t := fun h' => h (ht.trans h'.symm)
      simp [ht, ht']
    · by_cases ht' : msg'.target = t
      · simp [ht, ht']
      · simp [ht, ht']
  exact run_eq_of_channels hfilter s

/-- A fan set by some command is consistent. -/
theorem consistent_applayAll {msgs : List ApplayMsg} (h : ∃ msg ∈ msgs, msg.FanEffective)
    (s : Actuators) : (applayAll s msgs).toFan.Consistent := by
  obtain ⟨msg, hmem, heff⟩ := h
  have hne : msgs.filter ApplayMsg.FanEffective ≠ [] :=
    List.ne_nil_of_mem (List.mem_filter.mpr ⟨hmem, decide_eq_true heff⟩)
  obtain ⟨last, hlast⟩ := Option.ne_none_iff_exists'.mp (mt List.getLast?_eq_none_iff.mp hne)
  have heff' := of_decide_eq_true (List.mem_filter.mp (List.mem_of_getLast? hlast)).2
  obtain ⟨f, hf⟩ := Option.isSome_iff_exists.mp ((ApplayMsg.fan?_isSome_iff heff'.1).mpr heff')
  rw [applayAll, register_fan.run_of_getLast hlast s s]
  simp only [Actuators.next, applayDispatch, heff'.1, toFan_fanApply, hf, Option.getD_some]
  exact ApplayMsg.consistent_of_fan? hf

/-- **The channels are separate**: the heater and the humidifier never touch the fan or the mode,
and commands of different channels commute. -/
structure ChannelsSeparate : Prop where
  fan_mode : ∀ msg s, msg.target ≠ .fan →
    (applayDispatch msg s).toFan = s.toFan ∧ (applayDispatch msg s).modeControl = s.modeControl
  comm : ∀ msg msg' s, msg.target ≠ msg'.target →
    applayDispatch msg' (applayDispatch msg s) = applayDispatch msg (applayDispatch msg' s)

/-- **Each channel is as its last command leaves it**, and the fan is consistent once a command has
set it. -/
theorem channels_run (msgs : List ApplayMsg) (h : ∃ msg ∈ msgs, msg.FanEffective)
    (s : Actuators) :
    LastSets Actuators.next Actuators.toFan ApplayMsg.FanEffective s msgs ∧
      LastSets Actuators.next Actuators.heat (·.target = .heat) s msgs ∧
      LastSets Actuators.next Actuators.humid (·.target = .humid) s msgs ∧
      ChannelsSeparate ∧ (applayAll s msgs).toFan.Consistent :=
  ⟨register_fan.lastSets s msgs, register_heat.lastSets s msgs, register_humid.lastSets s msgs,
    ⟨fun _ s' hne => fan_mode_of_target_ne hne s', fun _ _ s' hne => applayDispatch_comm hne s'⟩,
    consistent_applayAll h s⟩

/-- An automatic gear, the heater, and half speed from the GUI. -/
def threeSources : List ApplayMsg := [⟨.fan, 2, .auto⟩, ⟨.heat, 1, .lora⟩, ⟨.fan, 50, .gui⟩]

theorem channels_run_threeSources :
    LastSets Actuators.next Actuators.toFan ApplayMsg.FanEffective .boot threeSources ∧
      LastSets Actuators.next Actuators.heat (·.target = .heat) .boot threeSources ∧
      LastSets Actuators.next Actuators.humid (·.target = .humid) .boot threeSources ∧
      ChannelsSeparate ∧ (applayAll .boot threeSources).toFan.Consistent :=
  channels_run threeSources (by decide) .boot

/-- A fan command with a percentage or a gear as its source promises them. -/
def ApplayMsg.FanInRange (msg : ApplayMsg) : Prop :=
  msg.target = .fan ∧ (msg.source = .gui ∧ 0 ≤ msg.value ∧ msg.value ≤ 100 ∨
    msg.source ≠ .gui ∧ 0 ≤ msg.value ∧ msg.value ≤ 3)

instance : DecidablePred ApplayMsg.FanInRange := fun _ => inferInstanceAs (Decidable (_ ∧ _))

/-- Half speed, and a percentage out of range. -/
def halfThenMore : List ApplayMsg := [⟨.fan, 50, .gui⟩, ⟨.fan, 150, .gui⟩]

/-- **A percentage out of range counts as well**, as full speed. -/
theorem fanInRange_not_last : halfThenMore.any (·.FanInRange) = true ∧
    ¬ LastSets Actuators.next Actuators.toFan ApplayMsg.FanInRange .boot halfThenMore := by
  refine ⟨by decide, fun h => ?_⟩
  have hpwm := congrArg Fan.motorPwm (h .boot)
  exact absurd hpwm (by decide)

end GrainWarehouse
