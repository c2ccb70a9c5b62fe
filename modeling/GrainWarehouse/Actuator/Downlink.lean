import GrainWarehouse.Machinery.Numeral
import GrainWarehouse.Actuator.Apply

/-!
# Actuator/Downlink — commands from afar

What `lora_task` makes of a frame, and `mqtt_on_message` of the target and value it has found in a
message: a command for `ActuatorCmdQueue`, or nothing.
-/

namespace GrainWarehouse

/-- `LORA_FRAME_LEN`. -/
abbrev loraFrameLen : ℕ := 4

/-- `LORA_FRAME_HEAD`. -/
abbrev loraFrameHead : UInt8 := 0xAA

/-- `lora_parse_frame`: the target and the command byte. -/
def loraParseFrame (buf : List UInt8) : Option (ApplayTarget × UInt8) :=
  if buf.length < loraFrameLen then none
  else
    let b (i : ℕ) : UInt8 := buf.getD i 0
    if b 0 ≠ loraFrameHead then none
    else if b 0 + b 1 + b 2 ≠ b 3 then none
    else
      (if b 1 = 0x01 then some .fan
        else if b 1 = 0x02 then some .heat
        else if b 1 = 0x03 then some .humid
        -- `LORA_TYPE_QUERY`, `LORA_TYPE_ACK` and unknown types
        else none).map fun target => (target, b 2)

/-- A gear or a switch position as a command; a fan has no others. -/
def remoteMsg (source : Source) (target : ApplayTarget) (value : ℤ) : Option ApplayMsg :=
  match target with
  | .fan => if 0 ≤ value ∧ value ≤ 3 then some ⟨.fan, value, source⟩ else none
  | .heat => some ⟨.heat, if value = 0 then applayValOff else applayValOn, source⟩
  | .humid => some ⟨.humid, if value = 0 then applayValOff else applayValOn, source⟩

/-- The receiving half of a round of `lora_task`. -/
def loraCommand (buf : List UInt8) : Option ApplayMsg :=
  (loraParseFrame buf).bind fun (target, command) => remoteMsg .lora target command.toNat

/-- The second half of `mqtt_on_message`: the target text and the value have been found. -/
def networkCommand (target : List UInt8) (value : ℤ) : Option ApplayMsg :=
  if value < 0 then none
  else if target = ascii "fan" then remoteMsg .network .fan value
  else if target = ascii "heat" then remoteMsg .network .heat value
  else if target = ascii "humid" then remoteMsg .network .humid value
  else none

theorem source_of_remoteMsg {source : Source} {target : ApplayTarget} {value : ℤ}
    {msg : ApplayMsg} (h : remoteMsg source target value = some msg) : msg.source = source := by
  cases target with
  | fan =>
    simp only [remoteMsg] at h
    split_ifs at h
    cases h
    rfl
  | heat =>
    cases h
    rfl
  | humid =>
    cases h
    rfl

/-- **A frame makes no automatic command.** -/
theorem source_of_loraCommand {buf : List UInt8} {msg : ApplayMsg}
    (h : loraCommand buf = some msg) : msg.source = .lora := by
  obtain ⟨d, -, hd⟩ := Option.bind_eq_some_iff.mp h
  exact source_of_remoteMsg hd

/-- …and neither does a message. -/
theorem source_of_networkCommand {target : List UInt8} {value : ℤ} {msg : ApplayMsg}
    (h : networkCommand target value = some msg) : msg.source = .network := by
  rw [networkCommand] at h
  split_ifs at h
  all_goals exact source_of_remoteMsg h

/-! ## What a message may order -/

/-- **A message that is obeyed** names a target and has a value that is not negative, for the fan
one of its gears. -/
theorem networkCommand_eq_some {target : List UInt8} {value : ℤ} {msg : ApplayMsg}
    (h : networkCommand target value = some msg) :
    0 ≤ value ∧ ((target = ascii "fan" ∧ msg.target = .fan ∧ value ≤ 3) ∨
      ((target = ascii "heat" ∨ target = ascii "humid") ∧ msg.target ≠ .fan)) := by
  rw [networkCommand] at h
  split_ifs at h with hneg hfan hheat hhumid
  · simp only [remoteMsg] at h
    split_ifs at h with hgear
    obtain rfl := Option.some.inj h
    exact ⟨hgear.1, Or.inl ⟨hfan, rfl, hgear.2⟩⟩
  · obtain rfl := Option.some.inj h
    exact ⟨not_lt.mp hneg, Or.inr ⟨Or.inl hheat, nofun⟩⟩
  · obtain rfl := Option.some.inj h
    exact ⟨not_lt.mp hneg, Or.inr ⟨Or.inr hhumid, nofun⟩⟩

/-- Every gear of the fan is obeyed. -/
theorem networkCommand_fan {value : ℤ} (hlo : 0 ≤ value) (hhi : value ≤ 3) :
    networkCommand (ascii "fan") value = some ⟨.fan, value, .network⟩ := by
  rw [networkCommand, if_neg (not_lt.mpr hlo), if_pos rfl]
  exact if_pos ⟨hlo, hhi⟩

/-- …and every value of a switch. -/
theorem networkCommand_switch {target : List UInt8} {value : ℤ}
    (htarget : target = ascii "heat" ∨ target = ascii "humid") (hlo : 0 ≤ value) :
    ∃ msg, networkCommand target value = some msg ∧ msg.target ≠ .fan := by
  have hfan : ascii "heat" ≠ ascii "fan" ∧ ascii "humid" ≠ ascii "fan" ∧
      ascii "humid" ≠ ascii "heat" := by decide
  rcases htarget with rfl | rfl
  · rw [networkCommand, if_neg (not_lt.mpr hlo), if_neg hfan.1, if_pos rfl]
    exact ⟨_, rfl, nofun⟩
  · rw [networkCommand, if_neg (not_lt.mpr hlo), if_neg hfan.2.1, if_neg hfan.2.2, if_pos rfl]
    exact ⟨_, rfl, nofun⟩

end GrainWarehouse
