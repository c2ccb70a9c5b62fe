import GrainWarehouse.Mqtt.Session
import GrainWarehouse.Mqtt.Task
import GrainWarehouse.Report.Uplinks

/-!
# Mqtt/Rounds — the MQTT task over its client

The rounds of `mqtt_task` with the client and the driver under it, for any script of the module.
**They are rounds of the phase machine** (`NetTask.Follows.round`), whose calls turn out, and last,
as the client's do, so that the phases keep the same law (`netTask_rounds`).  **They are also runs
of the client's calls** (`NetTask.exists_calls_run`), so that the laws of the session hold: in a
calm run a report goes out while the link is up (`linkUp_of_mqttIsConnected`).
-/

namespace GrainWarehouse

/-! ## The settings of `task_mqtt.c` -/

/-- `MQTT_WIFI_SSID`. -/
def mqttWifiSsid : List UInt8 := ascii "<YOUR_WIFI_SSID>"

/-- `MQTT_WIFI_PASS`. -/
def mqttWifiPass : List UInt8 := ascii "<YOUR_WIFI_PASS>"

/-- `MQTT_BROKER_HOST`. -/
def mqttBrokerHost : List UInt8 := ascii "broker-cn.emqx.io"

/-- `MQTT_BROKER_PORT`. -/
abbrev mqttBrokerPort : UInt16 := 1883

/-- `MQTT_TOPIC_REPORT`. -/
def mqttTopicReport : List UInt8 := ascii "device/report"

/-- `MQTT_TOPIC_CTRL`. -/
def mqttTopicCtrl : List UInt8 := ascii "device/ctrl"

/-! ## The task -/

/-- **`mqtt_task`** between two rounds, and what it works with. -/
structure NetTask where
  phase : MqttPhase
  phaseTick : UInt32
  esp : Esp Client
  /-- `HAL_GetTick` when the scheduler was started; `SysTick_Handler` counts both from then on. -/
  started : UInt32

namespace NetTask

/-- `xTaskGetTickCount`. -/
def tickCount (s : NetTask) : UInt32 := s.esp.halTick - s.started

/-- As the loop begins. -/
def start (started : UInt32) (e : Esp Client) : NetTask := ⟨.init, e.halTick - started, e, started⟩

/-- `phase = …; phase_tick = xTaskGetTickCount();` -/
def enter (p : MqttPhase) (s : NetTask) : NetTask := { s with phase := p, phaseTick := s.tickCount }

/-- A call that moves the task on if it succeeds, and a delay if it does not. -/
def tried (r : Bool × Esp Client) (p : MqttPhase) (ms : UInt32) (s : NetTask) : NetTask :=
  if r.1 then { s with esp := r.2 }.enter p else { s with esp := r.2.pass ms }

/-- The report from `ReportQueue`, if there is one. -/
def report (avg : Option EnvAvg) (e : Esp Client) : Esp Client :=
  avg.elim e fun avg => (mqttPublish mqttTopicReport (reportJson avg) 0 e).2

/-- The `switch` over the phase. -/
def act (avg : Option EnvAvg) (s : NetTask) : NetTask :=
  match s.phase with
  | .init =>
    let r := connectWifi mqttWifiSsid mqttWifiPass s.esp
    s.tried (r.1 = .ok, r.2) .mqttInit 5000
  | .mqttInit => s.enter .connect
  | .connect =>
    let r := connectBroker mqttBrokerHost mqttBrokerPort s.esp
    s.tried (r.1 = .ok, r.2) .sub 3000
  | .sub =>
    let r := mqttSubscribe mqttTopicCtrl 0 s.esp
    s.tried (r.1 = .ok, r.2) .run 1000
  | .run =>
    if ¬ mqttIsConnected s.esp then { s with esp := (mqttDisconnect s.esp).2 }.enter .init
    else { s with esp := (report avg s.esp).pass 100 }

/-- `mqtt_loop`, and the `switch`. -/
def advance (avg : Option EnvAvg) (s : NetTask) : NetTask :=
  { s with esp := mqttLoop s.esp }.act avg

/-- The phase is stuck. -/
def Stuck (s : NetTask) : Prop := s.phase ≠ .run ∧ s.tickCount - s.phaseTick > 30000

instance (s : NetTask) : Decidable s.Stuck := inferInstanceAs (Decidable (_ ∧ _))

/-- **A round of `mqtt_task`**, with the report that `ReportQueue` holds for it. -/
def round (s : NetTask) (avg : Option EnvAvg) : NetTask :=
  let s := s.advance avg
  if s.Stuck then { s with esp := (mqttDisconnect s.esp).2 }.enter .init else s

/-! ## Its rounds are rounds of the phase machine -/

/-- **The phase machine is where the task is**, by the same clock. -/
structure Follows (t : MqttTask) (s : NetTask) : Prop where
  phase : t.phase = s.phase
  phaseTick : t.phaseTick = s.phaseTick
  tick : t.tickCount = s.tickCount

section

variable {t : MqttTask} {s : NetTask}

theorem follows_start (now : ℕ) (started : UInt32) (e : Esp Client)
    (h : UInt32.ofNat now = e.halTick - started) : Follows (.start now) (start started e) :=
  ⟨rfl, h, h⟩

/-- The ticks that a call takes. -/
def span (s : NetTask) (e : Esp Client) : ℕ := (e.halTick - s.esp.halTick).toNat

/-- **A call of the client lets time go by.** -/
theorem Follows.wait (h : Follows t s) (e : Esp Client) :
    Follows (t.wait (s.span e)) { s with esp := e } := by
  refine ⟨h.phase, h.phaseTick, ?_⟩
  have htick : UInt32.ofNat t.now = s.esp.halTick - s.started := h.tick
  rw [MqttTask.tickCount, MqttTask.wait, tickCount, UInt32.ofNat_add, htick, span,
    UInt32.ofNat_toNat]
  grind

theorem Follows.did (h : Follows t s) (c : MqttCall) (e : Esp Client) :
    Follows (t.did c (s.span e)) { s with esp := e } :=
  ⟨h.phase, h.phaseTick, (h.wait e).tick⟩

/-- A delay lasts for its argument, and maybe longer. -/
theorem Follows.delay (h : Follows t s) (ms : UInt32) (e : Esp Client) :
    ∃ late, Follows (t.wait (ms.toNat + late)) { s with esp := e } := by
  refine ⟨(e.halTick - s.esp.halTick - ms).toNat, h.phase, h.phaseTick, ?_⟩
  have htick : UInt32.ofNat t.now = s.esp.halTick - s.started := h.tick
  rw [MqttTask.tickCount, MqttTask.wait, tickCount, UInt32.ofNat_add, UInt32.ofNat_add, htick,
    UInt32.ofNat_toNat, UInt32.ofNat_toNat]
  grind

theorem Follows.enter (h : Follows t s) (p : MqttPhase) : Follows (t.enter p) (s.enter p) :=
  ⟨rfl, h.tick, h.tick⟩

theorem Follows.stuck_iff (h : Follows t s) : t.Stuck ↔ s.Stuck := by
  rw [MqttTask.Stuck, NetTask.Stuck, h.phase, h.phaseTick, h.tick]

/-- **A call that moves the task on, or is tried again.** -/
theorem Follows.tried (h : Follows t s) (c : Bool → MqttCall) (r : Bool × Esp Client)
    (p : MqttPhase) (ms : UInt32) :
    ∃ o : Outcomes, o.connected = mqttIsConnected s.esp ∧ Follows
      (if o.ok then (t.did (c true) o.call).enter p
        else (t.did (c false) o.call).wait (ms.toNat + o.late))
      (s.tried r p ms) := by
  have hcall := h.did (c r.1) r.2
  obtain ⟨late, hlate⟩ := hcall.delay ms (r.2.pass ms)
  refine ⟨⟨0, r.1, s.span r.2, mqttIsConnected s.esp, 0, late, 0, 0⟩, rfl, ?_⟩
  rw [NetTask.tried]
  cases hr : r.1 with
  | true =>
    rw [hr] at hcall
    exact hcall.enter p
  | false =>
    rw [hr] at hlate
    exact hlate

/-- **A phase does what that phase of the machine does**, whose calls turn out, and last, as the
client's. -/
theorem Follows.act (h : Follows t s) (avg : Option EnvAvg) :
    ∃ o : Outcomes, o.connected = mqttIsConnected s.esp ∧ Follows (t.act o) (s.act avg) := by
  have hphase := h.phase
  rw [NetTask.act]
  cases hp : s.phase with
  | init =>
    obtain ⟨o, hconn, hnext⟩ := h.tried .wifi _ .mqttInit 5000
    refine ⟨o, hconn, ?_⟩
    rw [MqttTask.act, hphase, hp]
    exact hnext
  | mqttInit =>
    refine ⟨⟨0, false, 0, mqttIsConnected s.esp, 0, 0, 0, 0⟩, rfl, ?_⟩
    rw [MqttTask.act, hphase, hp]
    exact h.enter .connect
  | connect =>
    obtain ⟨o, hconn, hnext⟩ := h.tried .broker _ .sub 3000
    refine ⟨o, hconn, ?_⟩
    rw [MqttTask.act, hphase, hp]
    exact hnext
  | sub =>
    obtain ⟨o, hconn, hnext⟩ := h.tried .subscribe _ .run 1000
    refine ⟨o, hconn, ?_⟩
    rw [MqttTask.act, hphase, hp]
    exact hnext
  | run =>
    by_cases hconn : mqttIsConnected s.esp = true
    · obtain ⟨late, hlate⟩ := (h.wait (report avg s.esp)).delay 100 ((report avg s.esp).pass 100)
      refine ⟨⟨0, false, 0, mqttIsConnected s.esp, s.span (report avg s.esp), late, 0, 0⟩, rfl, ?_⟩
      rw [MqttTask.act, hphase, hp]
      dsimp only
      rw [if_neg (not_not.mpr hconn), if_neg (not_not.mpr hconn), ← hp]
      exact hlate
    · have hclose := h.did .disconnect (mqttDisconnect s.esp).2
      refine ⟨⟨0, false, 0, mqttIsConnected s.esp, 0, 0, s.span (mqttDisconnect s.esp).2, 0⟩,
        rfl, ?_⟩
      rw [MqttTask.act, hphase, hp]
      dsimp only
      rw [if_pos hconn, if_pos hconn]
      exact hclose.enter .init

/-- The `switch` does not depend on how long the other calls of the round take. -/
theorem act_outcomes (o : Outcomes) (loop reset : ℕ) (t : MqttTask) :
    t.act { o with loop := loop, reset := reset } = t.act o := rfl

/-- **A round of the task is a round of the machine.** -/
theorem Follows.round (h : Follows t s) (avg : Option EnvAvg) :
    ∃ o : Outcomes, o.connected = mqttIsConnected (mqttLoop s.esp) ∧
      Follows (t.round o) (s.round avg) := by
  obtain ⟨o, hconn, hact⟩ := (h.wait (mqttLoop s.esp)).act avg
  have hreset := hact.did .disconnect (mqttDisconnect (s.advance avg).esp).2
  refine ⟨{ o with
    loop := s.span (mqttLoop s.esp)
    reset := (s.advance avg).span (mqttDisconnect (s.advance avg).esp).2 }, hconn, ?_⟩
  rw [MqttTask.round, NetTask.round, MqttTask.advance, act_outcomes]
  by_cases hs : (s.advance avg).Stuck
  · rw [if_pos (hact.stuck_iff.mpr hs)]
    simp only [if_pos hs]
    exact hreset.enter .init
  · rw [if_neg fun ht => hs (hact.stuck_iff.mp ht)]
    simp only [if_neg hs]
    exact hact

end

/-! ## The law of the rounds -/

/-- `mqtt_subscribe` succeeds for a connected client only. -/
theorem mqttIsConnected_of_mqttSubscribe {topic : List UInt8} {qos : UInt8} {e : Esp Client}
    (h : (mqttSubscribe topic qos e).1 = .ok) : mqttIsConnected e = true := by
  rw [mqttSubscribe] at h
  split_ifs at h with hconn
  exact decide_eq_true (not_not.mp hconn)

/-- **What holds of every round of the task.** -/
structure RoundLaw (s : NetTask) (avg : Option EnvAvg) : Prop where
  /-- `RUN` is entered from `SUB`, by a client that is connected. -/
  entersRun : s.phase ≠ .run → (s.round avg).phase = .run →
    s.phase = .sub ∧ mqttIsConnected (mqttLoop s.esp) = true
  /-- It is left exactly when the client is not. -/
  leavesRun : s.phase = .run →
    ((s.round avg).phase ≠ .run ↔ mqttIsConnected (mqttLoop s.esp) = false)
  /-- No other phase is older than 30000 ticks at the end of a round. -/
  recent : (s.round avg).phase ≠ .run → (s.round avg).tickCount - (s.round avg).phaseTick ≤ 30000

/-- A subscription that moves the task on is that of a connected client. -/
theorem mqttIsConnected_of_sub {s : NetTask} {avg : Option EnvAvg} (hsub : s.phase = .sub)
    (hrun : (s.round avg).phase = .run) : mqttIsConnected (mqttLoop s.esp) = true := by
  have hadv : (s.advance avg).phase = .run := by
    simp only [round] at hrun
    split_ifs at hrun
    · cases hrun
    · exact hrun
  rw [advance, act] at hadv
  simp only [hsub, tried] at hadv
  split_ifs at hadv with hok
  exact mqttIsConnected_of_mqttSubscribe (of_decide_eq_true hok)

theorem Follows.roundLaw {t : MqttTask} {s : NetTask} (h : Follows t s) (hkept : t.Kept)
    (avg : Option EnvAvg) : RoundLaw s avg := by
  obtain ⟨o, hconn, hround⟩ := h.round avg
  have hlaw := hkept.roundLaw o
  constructor
  · intro hne hrun
    have hsub : s.phase = .sub := by
      rw [← h.phase]
      exact (hlaw.entersRun (h.phase ▸ hne) (hround.phase.trans hrun)).1
    exact ⟨hsub, mqttIsConnected_of_sub hsub hrun⟩
  · intro hrun
    rw [← hround.phase, ← hconn]
    exact hlaw.leavesRun (h.phase.trans hrun)
  · intro hne
    rw [← hround.tick, ← hround.phaseTick]
    exact hlaw.recent (hround.phase ▸ hne)

/-! ## They are runs of the client's calls -/

theorem runCalls_cons (c : Call) (calls : List Call) (e : Esp Client) :
    runCalls (c :: calls) e = runCalls calls (c.run e) := rfl

theorem runCalls_append (before after : List Call) (e : Esp Client) :
    runCalls (before ++ after) e = runCalls after (runCalls before e) := List.foldl_append

theorem exists_calls_tried (s : NetTask) (c : Call) {r : Bool × Esp Client}
    (h : c.run s.esp = r.2) (p : MqttPhase) (ms : UInt32) :
    ∃ calls, (s.tried r p ms).esp = runCalls calls s.esp := by
  rw [tried]
  split_ifs
  · exact ⟨[c], h.symm⟩
  · exact ⟨[c, .pause ms], congrArg (Esp.pass ms) h.symm⟩

/-- The calls of a phase. -/
theorem exists_calls_act (s : NetTask) (avg : Option EnvAvg) :
    ∃ calls, (s.act avg).esp = runCalls calls s.esp := by
  rw [act]
  cases s.phase with
  | init => exact exists_calls_tried s (.connectWifi mqttWifiSsid mqttWifiPass) rfl _ _
  | mqttInit => exact ⟨[], rfl⟩
  | connect => exact exists_calls_tried s (.connectBroker mqttBrokerHost mqttBrokerPort) rfl _ _
  | sub => exact exists_calls_tried s (.subscribe mqttTopicCtrl 0) rfl _ _
  | run =>
    dsimp only
    split_ifs
    · cases avg with
      | none => exact ⟨[.pause 100], rfl⟩
      | some avg => exact ⟨[.publish mqttTopicReport (reportJson avg) 0, .pause 100], rfl⟩
    · exact ⟨[.disconnect], rfl⟩

/-- **The calls of a round.** -/
theorem exists_calls_round (s : NetTask) (avg : Option EnvAvg) :
    ∃ calls, (s.round avg).esp = runCalls calls s.esp := by
  obtain ⟨calls, hcalls⟩ := exists_calls_act { s with esp := mqttLoop s.esp } avg
  have hadv : (s.advance avg).esp = runCalls (.loop :: calls) s.esp := by
    rw [advance, hcalls, runCalls_cons, Call.run]
  rw [round]
  generalize s.advance avg = s' at hadv
  split_ifs
  · refine ⟨.loop :: calls ++ [.disconnect], ?_⟩
    rw [runCalls_append, ← hadv]
    rfl
  · exact ⟨.loop :: calls, hadv⟩

/-- **…and of a run.** -/
theorem exists_calls_run : ∀ (avgs : List (Option EnvAvg)) (s : NetTask),
    ∃ calls, (runFrom round s avgs).esp = runCalls calls s.esp
  | [], _ => ⟨[], rfl⟩
  | avg :: avgs, s => by
      obtain ⟨calls, hround⟩ := exists_calls_round s avg
      obtain ⟨later, hrun⟩ := exists_calls_run avgs (s.round avg)
      refine ⟨calls ++ later, ?_⟩
      rw [runFrom_cons, hrun, hround, runCalls_append]

end NetTask

/-- **Every round of `mqtt_task` over its client keeps the law**, whatever the module does. -/
theorem netTask_rounds (started : UInt32) (e : Esp Client) (avgs : List (Option EnvAvg)) :
    EachStep NetTask.round NetTask.RoundLaw (.start started e) avgs := by
  have hstart : ∃ t : MqttTask, t.Kept ∧ NetTask.Follows t (.start started e) :=
    ⟨_, MqttTask.kept_start _, NetTask.follows_start _ started e UInt32.ofNat_toNat⟩
  refine EachStep.imp (C := fun _ _ => True)
    (P := fun s => ∃ t : MqttTask, t.Kept ∧ NetTask.Follows t s)
    ?_ ?_ avgs hstart (EachStep.of_forall fun _ _ _ => trivial)
  · rintro s avg ⟨t, hkept, hfollows⟩ -
    obtain ⟨o, -, hround⟩ := hfollows.round avg
    exact ⟨t.round o, hkept.round o, hround⟩
  · rintro s avg ⟨t, hkept, hfollows⟩ -
    exact hfollows.roundLaw hkept avg

/-- **In a calm run, a client that the task finds connected has a link that is up**: a report goes
out then only. -/
theorem linkUp_of_mqttIsConnected (started : UInt32) (calls : List Call) (air : List Arrival)
    (avgs : List (Option EnvAvg)) {s : NetTask}
    (hs : s = runFrom NetTask.round (.start started (runCalls calls (Esp.boot .boot air))) avgs)
    (hcalm : (mqttLoop s.esp).Calm) (hconn : mqttIsConnected (mqttLoop s.esp) = true) :
    linkUp (mqttLoop s.esp) = true := by
  have hboot := lasting_held.runCalls calls (held_boot air)
  obtain ⟨later, hrun⟩ := NetTask.exists_calls_run avgs
    (.start started (runCalls calls (Esp.boot .boot air)))
  have hheld : s.esp.Held := by
    rw [hs, hrun]
    exact lasting_held.runCalls later hboot
  have hjoined := looped_held.mqttLoop hheld hcalm
  rw [linkUp_of_id hjoined.id]
  exact hjoined.up (of_decide_eq_true hconn)

end GrainWarehouse
