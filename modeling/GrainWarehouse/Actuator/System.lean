import GrainWarehouse.Machinery.Runs
import GrainWarehouse.Machinery.Fifo
import GrainWarehouse.Actuator.Sensor
import GrainWarehouse.Actuator.Gui
import GrainWarehouse.Actuator.Downlink

/-!
# Actuator/System — the tasks that command the actuators

Four producers put commands on `ActuatorCmdQueue`, and `applay_task` takes them off and applies
them.  A `Sys` is what they share, with the place of each task between two accesses to it; an `Act`
is one such access, so that a list of actions is an interleaving.  An action whose task is elsewhere
does nothing.

A producer that blocks on a full queue sends later, or gives up: it is its action that comes later,
or finds no room.
-/

namespace GrainWarehouse

/-- Where `sensor_data_get_task` is. -/
inductive SensorPc
  /-- Before a cycle. -/
  | sense
  /-- Between the check of the mode and the send. -/
  | send (cmd : ℤ)
  /-- Before the check for the end of manual mode. -/
  | watch
  /-- About to end manual mode. -/
  | expire
  deriving DecidableEq

/-- A decision of the sensor task, when it is through with it. -/
structure Decision where
  cmd : ℤ
  /-- It differs from the one before. -/
  changed : Bool
  /-- Its command was put on the queue. -/
  sent : Bool
  /-- The mode was automatic throughout, and the queue had a free slot. -/
  free : Bool
  deriving DecidableEq

/-- What the sensor task leaves behind. -/
inductive SensorEv
  | decision (d : Decision)
  /-- `mode_control` is back to 0. -/
  | reset
  deriving DecidableEq

/-- The shared state, and the places of the tasks. -/
structure Sys where
  /-- `ActuatorCmdQueue`. -/
  queue : Fifo ApplayMsg 10
  act : Actuators
  /-- The command that `applay_task` has received and not applied yet. -/
  held : Option ApplayMsg
  sensor : SensorState
  pc : SensorPc
  gui : Gui
  /-- The command that the GUI task has made up and not sent yet. -/
  outbox : Option ApplayMsg
  /-- The record of the sensor task, the newest entry first. -/
  record : List SensorEv

/-- After start-up. -/
def Sys.boot : Sys where
  queue := .empty
  act := .boot
  held := none
  sensor := .boot
  pc := .sense
  gui := .boot
  outbox := none
  record := []

/-- An access to the shared state. -/
inductive Act
  /-- The sensor task reads its sensors, decides, and checks the mode if it has to. -/
  | sense (r : Readings)
  /-- …sends the command. -/
  | autoSend
  /-- …checks for the end of manual mode. -/
  | watch (entered now : UInt32)
  /-- …and ends it. -/
  | expire
  /-- The LoRa task has received a frame. -/
  | lora (frame : List UInt8)
  /-- A message has come from the broker. -/
  | network (target : List UInt8) (value : ℤ)
  /-- The user taps the fan switch. -/
  | switch
  /-- The user moves the fan slider. -/
  | slide (pct : Fin 101)
  /-- The GUI task takes an average from its queue. -/
  | pump (avg : EnvAvg)
  /-- …and sends the command it has made up. -/
  | guiSend
  /-- `applay_task` takes a command from the queue. -/
  | receive
  /-- …and applies it. -/
  | dispatch

/-- An action of the sensor task. -/
def Act.BySensor : Act → Prop
  | .sense _ | .autoSend | .watch _ _ | .expire => True
  | _ => False

namespace Sys

/-- `xQueueSend`, the result being nobody's concern. -/
def post (msg : ApplayMsg) (s : Sys) : Sys := { s with queue := (s.queue.send msg).getD s.queue }

/-- A decision has been made. -/
def decided (d : Decision) (s : Sys) : Sys :=
  { s with
    sensor := { s.sensor with lastAutoCmd := d.cmd }
    pc := .watch
    record := .decision d :: s.record }

/-- The first half of a cycle of the sensor task.  A decision that has not changed is not sent;
one that has is remembered, sent or not. -/
def sense (r : Readings) (s : Sys) : Sys :=
  let cmd := autoCmd (readSensors r s.sensor).1
  let s' := { s with sensor := (readSensors r s.sensor).2 }
  if cmd ≠ s.sensor.lastAutoCmd then
    if s.act.modeControl = 0 then { s' with pc := .send cmd }
    else s'.decided ⟨cmd, true, false, false⟩
  else s'.decided ⟨cmd, false, false, s.act.modeControl = 0 ∧ s.queue.Room⟩

/-- The send.  Only this task ends manual mode, so the mode was automatic all the time if it still
is. -/
def autoSend (cmd : ℤ) (s : Sys) : Sys :=
  (s.post (autoMsg cmd)).decided
    ⟨cmd, true, (s.queue.send (autoMsg cmd)).isSome, s.act.modeControl = 0 ∧ s.queue.Room⟩

/-- The second half of the cycle. -/
def watch (entered now : UInt32) (s : Sys) : Sys :=
  if s.act.modeControl = 1 then
    let w := watchManual entered now s.sensor
    { s with sensor := w.2, pc := if w.1 then .expire else .sense }
  else { s with pc := .sense }

/-- The end of manual mode. -/
def expire (s : Sys) : Sys :=
  { s with act := { s.act with modeControl := 0 }, pc := .sense, record := .reset :: s.record }

/-- The GUI task has written the globals and made up a command. -/
def guiDone (out : Option ApplayMsg) (g : Gui) (f : Fan) (s : Sys) : Sys :=
  { s with act := { s.act with toFan := f }, gui := g, outbox := out }

/-- **An action**: nothing, if its task is elsewhere. -/
def next (s : Sys) : Act → Sys
  | .sense r => if s.pc = .sense then s.sense r else s
  | .autoSend =>
    match s.pc with
    | .send cmd => s.autoSend cmd
    | _ => s
  | .watch entered now => if s.pc = .watch then s.watch entered now else s
  | .expire => if s.pc = .expire then s.expire else s
  | .lora frame => (loraCommand frame).elim s fun msg => s.post msg
  | .network target value => (networkCommand target value).elim s fun msg => s.post msg
  | .switch =>
    if s.outbox.isSome then s
    else
      let d := fanSwitchEventCb (!s.gui.switchOn) s.gui s.act.toFan
      s.guiDone (some d.1) d.2.1 d.2.2
  | .slide pct =>
    if s.outbox.isSome ∨ s.gui.sliderDisabled then s
    else
      let d := fanSliderEventCb pct s.gui s.act.toFan
      s.guiDone (some d.1) d.2.1 d.2.2
  | .pump avg =>
    if s.outbox.isSome then s
    else
      let d := updateSensorDisplay avg s.gui s.act.toFan
      s.guiDone d.1 d.2.1 d.2.2
  | .guiSend =>
    match s.outbox with
    | some msg => { s.post msg with outbox := none }
    | none => s
  | .receive =>
    match s.held, s.queue.receive with
    | none, some (msg, q) => { s with queue := q, held := some msg }
    | _, _ => s
  | .dispatch =>
    match s.held with
    | some msg => { s with act := applayDispatch msg s.act, held := none }
    | none => s

/-- **What is on the queue after a send** was there before, or is what was sent. -/
theorem mem_post {msg msg' : ApplayMsg} {s : Sys} (h : msg' ∈ (s.post msg).queue.items) :
    msg' ∈ s.queue.items ∨ msg' = msg := by
  simp only [post] at h
  cases hsend : s.queue.send msg with
  | none => exact Or.inl (by simpa [hsend] using h)
  | some q =>
    rw [hsend, Option.getD_some, Fifo.items_send hsend, List.mem_append, List.mem_singleton] at h
    exact h

/-- The sensor task has done nothing: what is its own is left alone, and manual mode goes on. -/
structure SensorIdle (s s' : Sys) : Prop where
  sensor : s'.sensor = s.sensor
  pc : s'.pc = s.pc
  record : s'.record = s.record
  mode : s'.act.modeControl = s.act.modeControl ∨ s'.act.modeControl = 1

theorem SensorIdle.refl (s : Sys) : SensorIdle s s := ⟨rfl, rfl, rfl, Or.inl rfl⟩

/-- **In an action of another task** the sensor task does nothing. -/
theorem sensorIdle_next {s : Sys} {a : Act} (h : ¬ a.BySensor) : SensorIdle s (s.next a) := by
  cases a with
  | lora frame =>
    simp only [Sys.next]
    cases loraCommand frame <;> exact ⟨rfl, rfl, rfl, Or.inl rfl⟩
  | network target value =>
    simp only [Sys.next]
    cases networkCommand target value <;> exact ⟨rfl, rfl, rfl, Or.inl rfl⟩
  | switch =>
    simp only [Sys.next]
    split_ifs <;> exact ⟨rfl, rfl, rfl, Or.inl rfl⟩
  | slide pct =>
    simp only [Sys.next]
    split_ifs <;> exact ⟨rfl, rfl, rfl, Or.inl rfl⟩
  | pump avg =>
    simp only [Sys.next]
    split_ifs <;> exact ⟨rfl, rfl, rfl, Or.inl rfl⟩
  | guiSend =>
    simp only [Sys.next]
    split <;> exact ⟨rfl, rfl, rfl, Or.inl rfl⟩
  | receive =>
    simp only [Sys.next]
    split <;> exact ⟨rfl, rfl, rfl, Or.inl rfl⟩
  | dispatch =>
    simp only [Sys.next]
    split
    · next msg _ =>
      refine ⟨rfl, rfl, rfl, ?_⟩
      have hmode := modeControl_applayDispatch msg s.act
      split_ifs at hmode
      · exact Or.inr hmode
      · exact Or.inl hmode
    · exact .refl s
  | _ => exact absurd trivial h

/-- **A run of the tasks** from start-up. -/
def run (as : List Act) : Sys := runFrom next boot as

end Sys

end GrainWarehouse
