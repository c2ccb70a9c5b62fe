import GrainWarehouse.Actuator.System

/-!
# Actuator/Decision — does the queue have the current decision?

The sensor task remembers its last decision and sends only changes, but it remembers a decision that
it could not send as if it had sent it, and does not forget it when manual mode ends.  **If each
decision that is found unchanged was sent when it was made, and manual mode has not ended since,
then after every undisturbed cycle the last command sent is the current decision**
(`delivered_run`).

All notions here are about the record of the sensor task, the newest entry first.
-/

namespace GrainWarehouse

/-- The last automatic command put on the queue since the mode last became automatic. -/
def lastAuto : List SensorEv → Option ℤ
  | [] => none
  | .reset :: _ => none
  | .decision d :: rest => if d.sent then some d.cmd else lastAuto rest

/-- **After each undisturbed decision, the last command on the queue is that decision.** -/
def Delivered : List SensorEv → Prop
  | [] => True
  | .reset :: rest => Delivered rest
  | .decision d :: rest =>
    (d.free → lastAuto (.decision d :: rest) = some d.cmd) ∧ Delivered rest

/-- The decision that stands was sent when it was made, and manual mode has not ended since. -/
def Standing : List SensorEv → Prop
  | [] => False
  | .reset :: _ => False
  | .decision d :: rest => if d.changed then d.sent = true else Standing rest

/-- A decision that is found unchanged in an undisturbed cycle is one that stands. -/
def Vouched : List SensorEv → Prop
  | [] => True
  | .reset :: rest => Vouched rest
  | .decision d :: rest => (d.free → ¬ d.changed → Standing rest) ∧ Vouched rest

instance decidableDelivered : DecidablePred Delivered
  | [] => .isTrue trivial
  | .reset :: rest => decidableDelivered rest
  | .decision _ :: rest =>
    have := decidableDelivered rest
    inferInstanceAs (Decidable (_ ∧ Delivered rest))

instance decidableStanding : DecidablePred Standing
  | [] => .isFalse not_false
  | .reset :: _ => .isFalse not_false
  | .decision _ :: rest =>
    have := decidableStanding rest
    inferInstanceAs (Decidable (ite _ _ (Standing rest)))

instance decidableVouched : DecidablePred Vouched
  | [] => .isTrue trivial
  | .reset :: rest => decidableVouched rest
  | .decision _ :: rest =>
    have := decidableVouched rest
    inferInstanceAs (Decidable (_ ∧ Vouched rest))

/-- The last decision on the record, `-1` before the first. -/
def lastCmd : List SensorEv → ℤ
  | [] => -1
  | .reset :: rest => lastCmd rest
  | .decision d :: _ => d.cmd

/-- What the code makes sure of: an unchanged decision is the last one, and is not sent; a changed
one is sent in an undisturbed cycle. -/
def WellKept : List SensorEv → Prop
  | [] => True
  | .reset :: rest => WellKept rest
  | .decision d :: rest =>
    ((¬ d.changed → d.cmd = lastCmd rest ∧ ¬ d.sent) ∧ (d.changed → d.free → d.sent)) ∧
      WellKept rest

/-- **What stands is the last command sent.** -/
theorem WellKept.lastAuto_eq : ∀ {record : List SensorEv}, WellKept record → Standing record →
    lastAuto record = some (lastCmd record)
  | .decision d :: rest, hkept, hstand => by
      by_cases hchanged : d.changed
      · rw [Standing, if_pos hchanged] at hstand
        rw [lastAuto, if_pos hstand, lastCmd]
      · rw [Standing, if_neg hchanged] at hstand
        obtain ⟨hcmd, hsent⟩ := hkept.1.1 hchanged
        rw [lastAuto, if_neg hsent, lastAuto_eq hkept.2 hstand, lastCmd, hcmd]

/-- **A record in which unchanged decisions stand delivers.** -/
theorem WellKept.delivered : ∀ record : List SensorEv, WellKept record → Vouched record →
    Delivered record
  | [], _, _ => trivial
  | .reset :: rest, hkept, hvouch => WellKept.delivered rest hkept hvouch
  | .decision d :: rest, hkept, hvouch => by
      refine ⟨fun hfree => ?_, WellKept.delivered rest hkept.2 hvouch.2⟩
      by_cases hchanged : d.changed
      · rw [lastAuto, if_pos (hkept.1.2 hchanged hfree)]
      · obtain ⟨hcmd, hsent⟩ := hkept.1.1 hchanged
        rw [lastAuto, if_neg hsent, hkept.2.lastAuto_eq (hvouch.1 hfree hchanged), hcmd]

namespace Sys

/-- The sensor task remembers its last decision, sent or not. -/
structure Remembers (s : Sys) : Prop where
  last : s.sensor.lastAutoCmd = lastCmd s.record
  kept : WellKept s.record

/-- Reading the sensors leaves the decision alone. -/
theorem Remembers.sensor {st : SensorState} {pc : SensorPc} {s : Sys} (h : s.Remembers)
    (hst : st.lastAutoCmd = s.sensor.lastAutoCmd) :
    Remembers { s with sensor := st, pc := pc } := ⟨hst.trans h.last, h.kept⟩

theorem lastAutoCmd_watchManual (entered now : UInt32) (st : SensorState) :
    (watchManual entered now st).2.lastAutoCmd = st.lastAutoCmd := by
  simp only [watchManual]
  split_ifs <;> rfl

/-- **Every action keeps the record as the code means to.** -/
theorem Remembers.next {s : Sys} (a : Act) (h : s.Remembers) : (s.next a).Remembers := by
  by_cases hsensor : a.BySensor
  · cases a with
    | sense r =>
      simp only [Sys.next, Sys.sense]
      split_ifs with hpc hcmd hmode
      · exact h.sensor rfl
      · exact ⟨rfl, ⟨⟨fun hn => absurd rfl hn, fun _ hfree => by cases hfree⟩, h.kept⟩⟩
      · refine ⟨rfl, ⟨⟨fun _ => ⟨?_, Bool.false_ne_true⟩, fun hc => by cases hc⟩, h.kept⟩⟩
        exact (not_not.mp hcmd).trans h.last
      · exact h
    | autoSend =>
      simp only [Sys.next]
      split
      · next cmd _ =>
        refine ⟨rfl, ⟨⟨fun hn => absurd rfl hn, fun _ hfree => ?_⟩, h.kept⟩⟩
        exact Fifo.send_isSome.mpr (of_decide_eq_true hfree).2
      · exact h
    | watch entered now =>
      simp only [Sys.next, Sys.watch]
      split_ifs
      · exact h.sensor (lastAutoCmd_watchManual entered now s.sensor)
      · exact h.sensor (lastAutoCmd_watchManual entered now s.sensor)
      · exact ⟨h.last, h.kept⟩
      · exact h
    | expire =>
      simp only [Sys.next, Sys.expire]
      split_ifs
      · exact ⟨h.last, h.kept⟩
      · exact h
    | _ => exact hsensor.elim
  · -- the other tasks neither decide nor write the record
    have hidle := sensorIdle_next (s := s) hsensor
    constructor
    · rw [hidle.sensor, hidle.record]
      exact h.last
    · rw [hidle.record]
      exact h.kept

/-- **In a run whose unchanged decisions stand, after every undisturbed cycle the last automatic
command put on the queue since the mode last became automatic is the decision of the cycle.** -/
theorem delivered_run (as : List Act) (h : Vouched (run as).record) :
    Delivered (run as).record := by
  have hboot : boot.Remembers := ⟨rfl, trivial⟩
  exact WellKept.delivered _ (runFrom_invariant (fun _ a hs => hs.next a) as hboot).kept h

/-- High CO2 from the start, in automatic mode. -/
def steady : List Act :=
  [.sense (.ofCo2 2000), .autoSend, .watch 0 0, .receive, .dispatch, .sense (.ofCo2 2000)]

theorem delivered_run_steady : Delivered (run steady).record :=
  delivered_run steady (by decide +kernel)

/-- The CO2 rises while the fan is off by hand, and half an hour later nobody tells it to run. -/
theorem forgotten_delivered : ¬ Delivered (run
    [.lora [0xAA, 0x01, 0x00, 0xAB], .receive, .dispatch, .sense (.ofCo2 2000), .watch 0 0,
      .sense (.ofCo2 2000), .watch 0 1800000, .expire, .sense (.ofCo2 2000)]).record := by
  decide +kernel

end Sys

end GrainWarehouse
