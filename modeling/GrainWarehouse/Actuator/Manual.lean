import GrainWarehouse.Actuator.System

/-!
# Actuator/Manual — an automatic command that arrives in manual mode

The sensor task looks at the mode before it sends, and `fan_apply` does not look at it at all.  So a
command that was on its way when the fan was taken over is applied in manual mode.  **As long as
none is on its way at any takeover, no automatic command moves the fan in manual mode**
(`eachStep_keepsManual`).
-/

namespace GrainWarehouse

namespace Sys

/-- An automatic command is on its way: the sensor task has passed its check, or the queue holds
one. -/
def AutoPending (s : Sys) : Prop :=
  (∃ cmd, s.pc = .send cmd) ∨ ∃ msg ∈ s.queue.items, msg.IsAuto

instance (s : Sys) : Decidable s.AutoPending :=
  match h : s.pc with
  | .send cmd => .isTrue (Or.inl ⟨cmd, h⟩)
  | .sense | .watch | .expire =>
    decidable_of_iff (∃ msg ∈ s.queue.items, msg.IsAuto)
      ⟨Or.inr, fun hp => hp.resolve_left fun ⟨cmd, hc⟩ => by rw [hc] at h; cases h⟩

/-- When a command takes the fan over, no automatic command is on its way. -/
def CleanTakeover (s : Sys) : Act → Prop
  | .dispatch => ∀ msg ∈ s.held, msg.TakesOver → ¬ s.AutoPending
  | _ => True

/-- An automatic command that is applied in manual mode leaves the fan alone. -/
def KeepsManual (s : Sys) : Act → Prop
  | .dispatch => ∀ msg ∈ s.held, msg.IsAuto → s.act.modeControl = 1 →
    (applayDispatch msg s.act).toFan = s.act.toFan
  | _ => True

instance (s : Sys) : ∀ a : Act, Decidable (s.CleanTakeover a)
  | .dispatch => inferInstanceAs (Decidable (∀ msg ∈ s.held, msg.TakesOver → ¬ s.AutoPending))
  | .sense _ | .autoSend | .watch _ _ | .expire | .lora _ | .network _ _ | .switch | .slide _
  | .pump _ | .guiSend | .receive => .isTrue trivial

instance (s : Sys) : ∀ a : Act, Decidable (s.KeepsManual a)
  | .dispatch => inferInstanceAs (Decidable (∀ msg ∈ s.held, msg.IsAuto →
      s.act.modeControl = 1 → (applayDispatch msg s.act).toFan = s.act.toFan))
  | .sense _ | .autoSend | .watch _ _ | .expire | .lora _ | .network _ _ | .switch | .slide _
  | .pump _ | .guiSend | .receive => .isTrue trivial

/-- **Outside automatic mode no automatic command is anywhere.** -/
structure Manual (s : Sys) : Prop where
  outbox : ∀ msg ∈ s.outbox, ¬ msg.IsAuto
  mode : s.act.modeControl = 0 ∨ ¬ s.AutoPending ∧ ∀ msg ∈ s.held, ¬ msg.IsAuto

/-- A command that is not automatic changes nothing by being sent. -/
theorem Manual.post {msg : ApplayMsg} (hmsg : ¬ msg.IsAuto) {s : Sys} (h : s.Manual) :
    (s.post msg).Manual where
  outbox := h.outbox
  mode := h.mode.imp_right fun ⟨hpend, hheld⟩ => ⟨fun hp => hpend (hp.imp_right
    fun ⟨msg', hmem, hauto⟩ => ⟨msg', (mem_post hmem).resolve_right fun heq => hmsg (heq ▸ hauto),
      hauto⟩), hheld⟩

/-- A command of the GUI comes with writes that leave the mode alone. -/
theorem Manual.guiDone {out : Option ApplayMsg} (hout : ∀ msg ∈ out, ¬ msg.IsAuto) (g : Gui)
    (f : Fan) {s : Sys} (h : s.Manual) : (s.guiDone out g f).Manual := ⟨hout, h.mode⟩

/-- A command that comes from elsewhere is not automatic. -/
theorem not_isAuto_of_source {msg : ApplayMsg} {source : Source} (h : msg.source = source)
    (hne : source ≠ .auto) : ¬ msg.IsAuto := fun hauto => hne (h.symm.trans hauto.2)

theorem not_isAuto_guiMsg (value : ℤ) : ¬ (guiMsg value).IsAuto :=
  @not_isAuto_of_source (guiMsg value) .gui rfl (by decide)

theorem not_isAuto_updateSensorDisplay (avg : EnvAvg) (g : Gui) (f : Fan) :
    ∀ msg ∈ (updateSensorDisplay avg g f).1, ¬ msg.IsAuto := by
  intro msg hmsg
  rw [updateSensorDisplay] at hmsg
  split_ifs at hmsg
  all_goals cases hmsg
  all_goals exact not_isAuto_guiMsg _

/-- A sensor task that is not about to send has no automatic command. -/
theorem Manual.sensor {st : SensorState} {pc : SensorPc} {record : List SensorEv} {s : Sys}
    (h : s.Manual) (hpc : ∀ cmd, pc ≠ .send cmd) :
    Manual { s with sensor := st, pc := pc, record := record } where
  outbox := h.outbox
  mode := h.mode.imp_right fun hm => ⟨fun hp => hm.1 (Or.inr
    (hp.resolve_left fun hsend => hsend.elim hpc)), hm.2⟩

/-- …such as one past a decision. -/
theorem Manual.decided (d : Decision) {s : Sys} (h : s.Manual) : (s.decided d).Manual :=
  h.sensor fun _ hc => by cases hc

/-- **What an action preserves**, if takeovers are clean. -/
theorem Manual.next {s : Sys} (a : Act) (h : s.Manual) (hclean : s.CleanTakeover a) :
    (s.next a).Manual := by
  cases a with
  | sense r =>
    simp only [Sys.next, Sys.sense]
    split_ifs with hpc hcmd hmode
    · exact ⟨h.outbox, Or.inl hmode⟩
    · exact Manual.decided _ ⟨h.outbox, h.mode⟩
    · exact Manual.decided _ ⟨h.outbox, h.mode⟩
    · exact h
  | autoSend =>
    simp only [Sys.next]
    split
    · next cmd hpc =>
      -- the task is about to send, so the mode is automatic
      have hmode := h.mode.resolve_right fun hm => hm.1 (Or.inl ⟨cmd, hpc⟩)
      exact ⟨h.outbox, Or.inl hmode⟩
    · exact h
  | watch entered now =>
    simp only [Sys.next, Sys.watch]
    split_ifs
    all_goals first | exact h.sensor (fun _ hc => by cases hc) | exact h
  | expire =>
    simp only [Sys.next, Sys.expire]
    split_ifs
    · exact ⟨h.outbox, Or.inl rfl⟩
    · exact h
  | lora frame =>
    simp only [Sys.next]
    cases hmsg : loraCommand frame with
    | none => exact h
    | some msg => exact h.post (not_isAuto_of_source (source_of_loraCommand hmsg) (by decide))
  | network target value =>
    simp only [Sys.next]
    cases hmsg : networkCommand target value with
    | none => exact h
    | some msg => exact h.post (not_isAuto_of_source (source_of_networkCommand hmsg) (by decide))
  | switch =>
    simp only [Sys.next]
    split_ifs
    · exact h
    · refine h.guiDone (fun msg hmsg => ?_) _ _
      obtain rfl := Option.some.inj hmsg
      rw [fanSwitchEventCb]
      split_ifs <;> exact not_isAuto_guiMsg _
  | slide pct =>
    simp only [Sys.next]
    split_ifs
    · exact h
    · exact h.guiDone (fun msg hmsg => by
        obtain rfl := Option.some.inj hmsg
        exact not_isAuto_guiMsg _) _ _
  | pump avg =>
    simp only [Sys.next]
    split_ifs
    · exact h
    · exact h.guiDone (not_isAuto_updateSensorDisplay avg _ _) _ _
  | guiSend =>
    simp only [Sys.next]
    split
    · next msg hout =>
      have hpost := h.post (h.outbox msg hout)
      exact ⟨fun _ hm => absurd hm (Option.not_mem_none _), hpost.mode⟩
    · exact h
  | receive =>
    simp only [Sys.next]
    split
    · next msg q hheld hq =>
      have hitems := Fifo.items_receive hq
      refine ⟨h.outbox, h.mode.imp_right fun hm =>
        ⟨fun hp => hm.1 (hp.imp_right ?pending), ?held⟩⟩
      case pending =>
        rintro ⟨msg', hmem, hauto⟩
        exact ⟨msg', hitems ▸ List.mem_cons_of_mem msg hmem, hauto⟩
      case held =>
        rintro msg' hmsg hauto
        obtain rfl := Option.some.inj hmsg
        exact hm.1 (Or.inr ⟨msg, hitems ▸ List.mem_cons_self, hauto⟩)
    · exact h
  | dispatch =>
    simp only [Sys.next]
    split
    · next msg hheld =>
      refine ⟨h.outbox, ?_⟩
      have hmode := modeControl_applayDispatch msg s.act
      by_cases hover : msg.TakesOver
      · exact Or.inr ⟨hclean msg hheld hover, fun _ hm => by cases hm⟩
      · rw [if_neg hover] at hmode
        exact h.mode.imp (fun hz => hmode.trans hz) fun hm =>
          ⟨hm.1, fun _ hmsg => by cases hmsg⟩
    · exact h

/-- In manual mode `applay_task` holds no automatic command. -/
theorem Manual.keepsManual {s : Sys} (a : Act) (h : s.Manual) : s.KeepsManual a := by
  cases a with
  | dispatch =>
    intro msg hmsg hauto hone
    rcases h.mode with hz | ⟨-, hheld⟩
    · rw [hz] at hone
      cases hone
    · exact absurd hauto (hheld msg hmsg)
  | _ => trivial

/-- **With clean takeovers, no automatic command changes the fan in manual mode**: not its PWM, not
`fan_running`, not `fan_speed`, not its light. -/
theorem eachStep_keepsManual (as : List Act) (h : EachStep next CleanTakeover boot as) :
    EachStep next KeepsManual boot as := by
  have hboot : boot.Manual := ⟨fun _ hm => absurd hm (Option.not_mem_none _), Or.inl rfl⟩
  exact EachStep.imp (fun s a hs hclean => hs.next a hclean) (fun s a hs _ => hs.keepsManual a) as
    hboot h

/-- The fan is switched off from afar, and nothing else happens. -/
def takeover : List Act := [.lora [0xAA, 0x01, 0x00, 0xAB], .receive, .dispatch]

theorem eachStep_keepsManual_takeover : EachStep next KeepsManual boot takeover :=
  eachStep_keepsManual takeover (by decide +kernel)

/-- The sensor task has looked at the mode when the command to switch off is put on the queue, and
sends its own behind it: the fan goes to full speed in manual mode. -/
theorem overtaken_keepsManual : ¬ EachStep next KeepsManual boot
    [.sense (.ofCo2 2000), .lora [0xAA, 0x01, 0x00, 0xAB], .autoSend, .receive, .dispatch,
      .receive, .dispatch] := by
  decide +kernel

end Sys

end GrainWarehouse
