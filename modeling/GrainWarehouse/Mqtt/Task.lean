import Mathlib
import GrainWarehouse.Machinery.Runs

/-!
# Mqtt/Task — the phases of the MQTT task

A round of `mqtt_task` makes the calls of its phase, each with an outcome and a duration of its
own, and then resets a phase that has lasted for more than 30 s.  **`RUN` follows a successful
subscription to the last broker connected to, and the other phases never outlast a round by more
than 30000 ticks** (`mqttTask_rounds`), as `xTaskGetTickCount` counts them, in 32 bits; they are
ticks of the clock unless a single round has lasted for almost `2 ^ 32` of them.
-/

namespace GrainWarehouse

/-- `mqtt_phase_t`. -/
inductive MqttPhase
  | init | mqttInit | connect | sub | run
  deriving DecidableEq

/-- A call that matters for the connection, and whether it has succeeded. -/
inductive MqttCall
  | wifi (ok : Bool)
  | broker (ok : Bool)
  | subscribe (ok : Bool)
  | disconnect
  deriving DecidableEq

/-- **How the calls of a round turn out**, and the ticks that they take. -/
structure Outcomes where
  /-- `mqtt_loop`. -/
  loop : ℕ
  /-- The phase's own call: `esp8266_connect_wifi`, `mqtt_connect_broker` or `mqtt_subscribe`. -/
  ok : Bool
  call : ℕ
  /-- `mqtt_is_connected`. -/
  connected : Bool
  /-- `mqtt_publish`, if there is a report. -/
  publish : ℕ
  /-- What `vTaskDelay` takes on top of its argument. -/
  late : ℕ
  /-- `mqtt_disconnect`, in phase `RUN` and in a reset. -/
  close : ℕ
  reset : ℕ

/-- **The task**, between two rounds. -/
structure MqttTask where
  phase : MqttPhase
  phaseTick : UInt32
  /-- The ticks since the start of the system. -/
  now : ℕ
  /-- When the phase was entered, or last reset. -/
  entered : ℕ
  trace : List MqttCall

namespace MqttTask

/-- As the loop begins. -/
def start (now : ℕ) : MqttTask := ⟨.init, UInt32.ofNat now, now, now, []⟩

/-- `xTaskGetTickCount`. -/
def tickCount (t : MqttTask) : UInt32 := UInt32.ofNat t.now

/-- Ticks go by. -/
def wait (n : ℕ) (t : MqttTask) : MqttTask := { t with now := t.now + n }

/-- A call, and its duration. -/
def did (c : MqttCall) (n : ℕ) (t : MqttTask) : MqttTask :=
  { t with now := t.now + n, trace := t.trace ++ [c] }

/-- `phase = …; phase_tick = xTaskGetTickCount();` -/
def enter (p : MqttPhase) (t : MqttTask) : MqttTask :=
  { t with phase := p, phaseTick := t.tickCount, entered := t.now }

/-- The `switch` over the phase. -/
def act (o : Outcomes) (t : MqttTask) : MqttTask :=
  match t.phase with
  | .init =>
    if o.ok then (t.did (.wifi true) o.call).enter .mqttInit
    else (t.did (.wifi false) o.call).wait (5000 + o.late)
  | .mqttInit => t.enter .connect
  | .connect =>
    if o.ok then (t.did (.broker true) o.call).enter .sub
    else (t.did (.broker false) o.call).wait (3000 + o.late)
  | .sub =>
    if o.ok then (t.did (.subscribe true) o.call).enter .run
    else (t.did (.subscribe false) o.call).wait (1000 + o.late)
  | .run =>
    if ¬ o.connected then (t.did .disconnect o.close).enter .init
    else (t.wait o.publish).wait (100 + o.late)

/-- `mqtt_loop`, and the `switch`. -/
def advance (o : Outcomes) (t : MqttTask) : MqttTask := (t.wait o.loop).act o

/-- The phase is stuck. -/
def Stuck (t : MqttTask) : Prop := t.phase ≠ .run ∧ t.tickCount - t.phaseTick > 30000

instance (t : MqttTask) : Decidable t.Stuck := inferInstanceAs (Decidable (_ ∧ _))

/-- **A round of `mqtt_task`.** -/
def round (t : MqttTask) (o : Outcomes) : MqttTask :=
  if (t.advance o).Stuck then ((t.advance o).did .disconnect o.reset).enter .init else t.advance o

end MqttTask

/-! ## What a round does -/

namespace MqttTask

variable {t : MqttTask} {o : Outcomes}

/-- **What a round does before it looks whether it is stuck**: it stays in its phase, or moves on
and takes the time. -/
inductive Advance (o : Outcomes) (t : MqttTask) : MqttTask → Prop
  | stay (c : List MqttCall) (n : ℕ) (hrun : t.phase = .run → o.connected = true)
    (hsub : t.phase = .sub → c = [.subscribe false]) :
    Advance o t { t with now := t.now + n, trace := t.trace ++ c }
  | wifi (n : ℕ) (h : t.phase = .init) : Advance o t ((t.did (.wifi true) n).enter .mqttInit)
  | mqttInit (n : ℕ) (h : t.phase = .mqttInit) : Advance o t ((t.wait n).enter .connect)
  | broker (n : ℕ) (h : t.phase = .connect) : Advance o t ((t.did (.broker true) n).enter .sub)
  | subscribe (n : ℕ) (h : t.phase = .sub) : Advance o t ((t.did (.subscribe true) n).enter .run)
  | lost (n : ℕ) (h : t.phase = .run) (hlost : o.connected = false) :
    Advance o t ((t.did .disconnect n).enter .init)

/-- A call that has failed, and the wait behind it. -/
theorem Advance.failed (c : MqttCall) (n : ℕ) (hrun : t.phase ≠ .run)
    (hsub : t.phase = .sub → c = .subscribe false) :
    Advance o t (((t.wait o.loop).did c o.call).wait n) := by
  have hadd : ((t.wait o.loop).did c o.call).wait n =
      { t with now := t.now + (o.loop + o.call + n), trace := t.trace ++ [c] } := by
    rw [wait, did, wait, ← Nat.add_assoc, ← Nat.add_assoc]
  rw [hadd]
  exact .stay [c] _ (fun h => absurd h hrun) fun h => by rw [hsub h]

theorem advance_cases (o : Outcomes) (t : MqttTask) : Advance o t (t.advance o) := by
  have hadd (c : MqttCall) (n : ℕ) : (t.wait o.loop).did c n = t.did c (o.loop + n) := by
    rw [wait, did, did, Nat.add_assoc]
  have hphase : (t.wait o.loop).phase = t.phase := rfl
  rw [advance, act, hphase]
  cases hp : t.phase with
  | init =>
    dsimp only
    split_ifs
    · rw [hadd]
      exact .wifi _ hp
    · exact .failed _ _ (by simp [hp]) (by simp [hp])
  | mqttInit => exact .mqttInit _ hp
  | connect =>
    dsimp only
    split_ifs
    · rw [hadd]
      exact .broker _ hp
    · exact .failed _ _ (by simp [hp]) (by simp [hp])
  | sub =>
    dsimp only
    split_ifs
    · rw [hadd]
      exact .subscribe _ hp
    · exact .failed _ _ (by simp [hp]) fun _ => rfl
  | run =>
    dsimp only
    split_ifs with hconn
    · have hnow : t.now + (o.loop + o.publish + (100 + o.late)) =
          t.now + o.loop + o.publish + (100 + o.late) := by omega
      have hidle : ((t.wait o.loop).wait o.publish).wait (100 + o.late) =
          { t with
            now := t.now + (o.loop + o.publish + (100 + o.late))
            trace := t.trace ++ [] } := by
        rw [hnow, List.append_nil]
        rfl
      rw [hidle]
      exact .stay [] _ (fun _ => hconn) (by simp [hp])
    · rw [hadd]
      exact .lost _ hp (by simpa using hconn)

/-- **A phase that has just been entered is not stuck.** -/
theorem not_stuck_enter (p : MqttPhase) (t : MqttTask) : ¬ (t.enter p).Stuck := by
  intro h
  have hzero : (t.enter p).tickCount - (t.enter p).phaseTick = 0 := UInt32.sub_self _
  rw [Stuck, hzero] at h
  exact absurd h.2 (by decide)

/-- **Whoever moves on is not stuck.** -/
theorem Advance.not_stuck {t' : MqttTask} (h : Advance o t t') (hne : t'.phase ≠ t.phase) :
    ¬ t'.Stuck := by
  cases h with
  | stay => exact absurd rfl hne
  | wifi => exact not_stuck_enter _ _
  | mqttInit => exact not_stuck_enter _ _
  | broker => exact not_stuck_enter _ _
  | subscribe => exact not_stuck_enter _ _
  | lost => exact not_stuck_enter _ _

/-! ## What lasts -/

/-- **The clock of the phase is right, and phase `SUB` has a broker**: since it was connected to,
only subscriptions have failed. -/
structure Kept (t : MqttTask) : Prop where
  stamped : t.phaseTick = UInt32.ofNat t.entered
  past : t.entered ≤ t.now
  sub : t.phase = .sub →
    ∃ pre n, t.trace = pre ++ .broker true :: List.replicate n (.subscribe false)

theorem kept_start (now : ℕ) : (start now).Kept where
  stamped := rfl
  past := Nat.le_refl now
  sub h := nomatch h

theorem kept_enter {p : MqttPhase} (hp : p ≠ .sub) (t : MqttTask) : (t.enter p).Kept where
  stamped := rfl
  past := Nat.le_refl t.now
  sub h := absurd h hp

theorem Kept.advance (h : t.Kept) {t' : MqttTask} (hadv : Advance o t t') : t'.Kept := by
  cases hadv with
  | stay c n hrun hsub =>
    refine ⟨h.stamped, Nat.le_add_right_of_le h.past, fun hp => ?_⟩
    obtain ⟨pre, m, htrace⟩ := h.sub hp
    refine ⟨pre, m + 1, ?_⟩
    rw [htrace, hsub hp, List.append_assoc, List.replicate_succ']
    rfl
  | wifi => exact kept_enter (by decide) _
  | mqttInit => exact kept_enter (by decide) _
  | broker n => exact ⟨rfl, Nat.le_refl _, fun _ => ⟨t.trace, 0, rfl⟩⟩
  | subscribe => exact kept_enter (by decide) _
  | lost => exact kept_enter (by decide) _

/-- **Every round keeps it.** -/
theorem Kept.round (h : t.Kept) (o : Outcomes) : (t.round o).Kept := by
  rw [MqttTask.round]
  split_ifs
  · exact kept_enter (by decide) _
  · exact h.advance (advance_cases o t)

/-! ## The law -/

/-- **What holds of every round.** -/
structure RoundLaw (t : MqttTask) (o : Outcomes) : Prop where
  /-- `RUN` is entered from `SUB`, right after a successful subscription, and since the last broker
  was connected to, only subscriptions have failed. -/
  entersRun : t.phase ≠ .run → (t.round o).phase = .run → t.phase = .sub ∧
    (t.round o).trace = t.trace ++ [.subscribe true] ∧
    ∃ pre n, t.trace = pre ++ .broker true :: List.replicate n (.subscribe false)
  /-- It is left exactly when the check finds the connection lost. -/
  leavesRun : t.phase = .run → ((t.round o).phase ≠ .run ↔ o.connected = false)
  /-- No other phase is older than 30000 ticks at the end of a round. -/
  recent : (t.round o).phase ≠ .run → (t.round o).tickCount - (t.round o).phaseTick ≤ 30000
  stamped : (t.round o).phaseTick = UInt32.ofNat (t.round o).entered
  /-- A round that has moved on is not reset. -/
  fresh : (t.advance o).phase ≠ t.phase → ¬ (t.advance o).Stuck

/-- Phase `RUN` is never reset. -/
theorem round_of_run (h : (t.advance o).phase = .run) : t.round o = t.advance o :=
  if_neg fun hstuck => hstuck.1 h

theorem phase_round_eq_run_iff : (t.round o).phase = .run ↔ (t.advance o).phase = .run := by
  constructor
  · intro h
    rw [MqttTask.round] at h
    split_ifs at h
    · cases h
    · exact h
  · intro h
    rwa [round_of_run h]

theorem Kept.roundLaw (h : t.Kept) (o : Outcomes) : RoundLaw t o where
  entersRun hne hrun := by
    have hadv := advance_cases o t
    have hrun' := phase_round_eq_run_iff.mp hrun
    rw [round_of_run hrun']
    generalize t.advance o = t' at hadv hrun' ⊢
    cases hadv with
    | stay => exact absurd hrun' hne
    | wifi => cases hrun'
    | mqttInit => cases hrun'
    | broker => cases hrun'
    | subscribe n hp => exact ⟨hp, rfl, h.sub hp⟩
    | lost => cases hrun'
  leavesRun hp := by
    have hadv := advance_cases o t
    rw [ne_eq, phase_round_eq_run_iff]
    generalize t.advance o = t' at hadv ⊢
    cases hadv with
    | stay c n hconn =>
      rw [hconn hp]
      exact iff_of_false (fun hne => hne hp) (by decide)
    | wifi n h' => cases hp.symm.trans h'
    | mqttInit n h' => cases hp.symm.trans h'
    | broker n h' => cases hp.symm.trans h'
    | subscribe n h' => cases hp.symm.trans h'
    | lost n h' hlost =>
      rw [hlost]
      exact iff_of_true (fun h => nomatch h) rfl
  recent hne := by
    rw [MqttTask.round] at hne ⊢
    split_ifs at hne ⊢ with hstuck
    · have hzero (u : MqttTask) : (u.enter .init).tickCount - (u.enter .init).phaseTick = 0 :=
        UInt32.sub_self _
      rw [hzero]
      decide
    · exact UInt32.not_lt.mp fun hlt => hstuck ⟨hne, hlt⟩
  stamped := (h.round o).stamped
  fresh := (advance_cases o t).not_stuck

/-! ## Ticks of the clock -/

/-- The round lasts for less than the counter takes to wrap around. -/
def Brisk (t : MqttTask) (o : Outcomes) : Prop := (t.advance o).now - t.now + 30000 < 2 ^ 32

/-- No phase but `RUN` is older than 30000 ticks of the clock. -/
def Young (t : MqttTask) : Prop := t.phase ≠ .run → t.now - t.entered ≤ 30000

theorem young_enter (p : MqttPhase) (t : MqttTask) : (t.enter p).Young := fun _ => by
  have hnow : (t.enter p).now - (t.enter p).entered = 0 := Nat.sub_self t.now
  omega

/-- Within its range, the counter's difference is that of the clock. -/
theorem Kept.tickCount_sub (h : t.Kept) (hlt : t.now - t.entered < 2 ^ 32) :
    (t.tickCount - t.phaseTick).toNat = t.now - t.entered := by
  rw [h.stamped, tickCount, ← UInt32.ofNat_sub h.past, UInt32.toNat_ofNat', Nat.mod_eq_of_lt hlt]

/-- **A brisk round leaves no phase but `RUN` too old.** -/
theorem Young.round (hyoung : t.Young) (h : t.Kept) (hbrisk : Brisk t o) : (t.round o).Young := by
  have hadv := advance_cases o t
  have hkept := h.advance hadv
  rw [MqttTask.round]
  rw [Brisk] at hbrisk
  split_ifs with hstuck
  · exact young_enter _ _
  · generalize t.advance o = t' at hadv hkept hbrisk hstuck ⊢
    cases hadv with
    | stay c n =>
      intro hne
      have hage := hyoung hne
      have hpast := h.past
      have hlt : t.now + n - t.entered < 2 ^ 32 := by
        dsimp only at hbrisk
        omega
      have hsmall := UInt32.not_lt.mp fun hgt => hstuck ⟨hne, hgt⟩
      rw [UInt32.le_iff_toNat_le, hkept.tickCount_sub hlt] at hsmall
      exact hsmall
    | wifi => exact young_enter _ _
    | mqttInit => exact young_enter _ _
    | broker => exact young_enter _ _
    | subscribe => exact young_enter _ _
    | lost => exact young_enter _ _

end MqttTask

/-- **Every round of every run keeps the law.**  As long as no round lasts for as long as the
counter takes to wrap around, its ticks are ticks of the clock. -/
theorem mqttTask_rounds (now : ℕ) (os : List Outcomes) :
    EachStep MqttTask.round MqttTask.RoundLaw (.start now) os ∧
      (EachStep MqttTask.round MqttTask.Brisk (.start now) os →
        EachStep MqttTask.round (fun t o => (t.round o).Young) (.start now) os) := by
  have hstart := MqttTask.kept_start now
  constructor
  · exact EachStep.imp (C := fun _ _ => True) (fun _ o h _ => h.round o)
      (fun _ o h _ => h.roundLaw o) os hstart (EachStep.of_forall fun _ _ _ => trivial)
  · intro hbrisk
    have hyoung : (MqttTask.start now).Young := fun _ => by
      rw [MqttTask.start, Nat.sub_self]
      omega
    exact EachStep.imp (P := fun t => t.Kept ∧ t.Young)
      (fun _ o h hb => ⟨h.1.round o, h.2.round h.1 hb⟩) (fun _ _ h hb => h.2.round h.1 hb) os
      ⟨hstart, hyoung⟩ hbrisk

instance (t : MqttTask) (o : Outcomes) : Decidable (t.Brisk o) :=
  inferInstanceAs (Decidable (_ < _))

/-- From the first WiFi to phase `RUN`, and back when the connection is lost. -/
def thereAndBack : List Outcomes :=
  [⟨0, true, 7000, false, 0, 0, 0, 0⟩, ⟨0, true, 0, false, 0, 0, 0, 0⟩,
    ⟨0, false, 25000, false, 0, 0, 0, 0⟩, ⟨5, true, 900, true, 0, 0, 0, 0⟩,
    ⟨5, true, 300, true, 0, 0, 0, 0⟩, ⟨5, true, 0, true, 200, 1, 0, 0⟩,
    ⟨5, true, 0, false, 0, 0, 400, 0⟩]

/-- Each of these rounds keeps the law, and leaves no phase but `RUN` too old. -/
theorem mqttTask_rounds_thereAndBack :
    EachStep MqttTask.round MqttTask.RoundLaw (.start 2000) thereAndBack ∧
      EachStep MqttTask.round (fun t o => (t.round o).Young) (.start 2000) thereAndBack :=
  ⟨(mqttTask_rounds 2000 thereAndBack).1, (mqttTask_rounds 2000 thereAndBack).2 (by decide)⟩

end GrainWarehouse
