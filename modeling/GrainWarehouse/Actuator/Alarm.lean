import GrainWarehouse.Actuator.System

/-!
# Actuator/Alarm — the alarm linkage takes the fan over

The alarm linkage of the GUI sends its commands as the GUI's own, and so they count as manual.
**Without a user, the fan stays in automatic mode whatever the tasks do, exactly when no average
that the GUI takes is in alarm** (`modeControl_run_iff`).
-/

namespace GrainWarehouse

/-- A user has a hand in it, on the screen or from afar. -/
def Act.ByUser : Act → Prop
  | .lora _ | .network _ _ | .switch | .slide _ => True
  | _ => False

/-- The averages that the GUI is given. -/
def pumped (as : List Act) : List EnvAvg :=
  as.filterMap fun
    | .pump avg => some avg
    | _ => none

namespace Sys

/-- **All commands are automatic, and no alarm is on.** -/
structure Untouched (s : Sys) : Prop where
  queue : ∀ msg ∈ s.queue.items, msg.IsAuto
  held : ∀ msg ∈ s.held, msg.IsAuto
  outbox : s.outbox = none
  alert : s.gui.alertAutoOn = false
  mode : s.act.modeControl = 0

theorem untouched_boot : boot.Untouched where
  queue _ hm := absurd hm List.not_mem_nil
  held _ hm := absurd hm (Option.not_mem_none _)
  outbox := rfl
  alert := rfl
  mode := rfl

/-- **What an action preserves** that no user and no alarm has a part in. -/
theorem Untouched.next {s : Sys} {a : Act} (h : s.Untouched) (huser : ¬ a.ByUser)
    (halert : ∀ avg, a = .pump avg → ¬ avg.Alert) : (s.next a).Untouched := by
  cases a with
  | sense r =>
    simp only [Sys.next, Sys.sense]
    split_ifs
    all_goals exact ⟨h.queue, h.held, h.outbox, h.alert, h.mode⟩
  | autoSend =>
    simp only [Sys.next]
    split
    · next cmd _ =>
      refine ⟨fun msg hmem => ?_, h.held, h.outbox, h.alert, h.mode⟩
      rcases mem_post hmem with hold | rfl
      · exact h.queue msg hold
      · exact isAuto_autoMsg cmd
    · exact h
  | watch entered now =>
    simp only [Sys.next, Sys.watch]
    split_ifs
    all_goals exact ⟨h.queue, h.held, h.outbox, h.alert, h.mode⟩
  | expire =>
    simp only [Sys.next, Sys.expire]
    split_ifs
    · exact ⟨h.queue, h.held, h.outbox, h.alert, rfl⟩
    · exact h
  | pump avg =>
    simp only [Sys.next, h.outbox, Option.isSome_none, Bool.false_eq_true, if_false,
      updateSensorDisplay_of_not_alert (halert avg rfl) h.alert]
    exact ⟨h.queue, h.held, rfl, h.alert, h.mode⟩
  | guiSend =>
    simp only [Sys.next, h.outbox]
    exact h
  | receive =>
    simp only [Sys.next]
    split
    · next msg q _ hq =>
      have hitems := Fifo.items_receive hq
      refine ⟨fun m hm => h.queue m (hitems ▸ List.mem_cons_of_mem msg hm), fun m hm => ?_,
        h.outbox, h.alert, h.mode⟩
      obtain rfl := Option.some.inj hm
      exact h.queue msg (hitems ▸ List.mem_cons_self)
    · exact h
  | dispatch =>
    simp only [Sys.next]
    split
    · next msg hheld =>
      refine ⟨h.queue, fun m hm => absurd hm (Option.not_mem_none _), h.outbox, h.alert, ?_⟩
      have hmode := modeControl_applayDispatch msg s.act
      rw [if_neg (h.held msg hheld).not_takesOver] at hmode
      exact hmode.trans h.mode
    · exact h
  | lora frame => exact absurd trivial huser
  | network target value => exact absurd trivial huser
  | switch => exact absurd trivial huser
  | slide pct => exact absurd trivial huser

theorem mem_pumped {as : List Act} {avg : EnvAvg} : avg ∈ pumped as ↔ Act.pump avg ∈ as := by
  rw [pumped, List.mem_filterMap]
  constructor
  · rintro ⟨a, hmem, ha⟩
    cases a <;> cases ha
    exact hmem
  · exact fun hmem => ⟨_, hmem, rfl⟩

/-- A run without users and alarms. -/
theorem untouched_run {as : List Act} (huser : ∀ a ∈ as, ¬ a.ByUser)
    (halert : ∀ avg ∈ pumped as, ¬ avg.Alert) : (run as).Untouched := by
  have hstep : EachStep next (fun _ a => ¬ a.ByUser ∧ ∀ avg, a = .pump avg → ¬ avg.Alert) boot as :=
    EachStep.of_forall (fun _ a ha => ⟨huser a ha, fun avg heq =>
      halert avg (mem_pumped.mpr (heq ▸ ha))⟩)
  exact EachStep.run (fun _ _ hs hc => hs.next hc.1 hc.2) as untouched_boot hstep

/-- The GUI takes these averages, one after the other. -/
theorem run_pumps : ∀ {avgs : List EnvAvg} {s : Sys}, (∀ avg ∈ avgs, ¬ avg.Alert) →
    s.outbox = none → s.gui.alertAutoOn = false → runFrom next s (avgs.map .pump) = s
  | [], _, _, _, _ => rfl
  | avg :: avgs, s, h, hout, halert => by
      have hpump : s.next (.pump avg) = s := by
        simp only [Sys.next, hout, Option.isSome_none, Bool.false_eq_true, if_false,
          updateSensorDisplay_of_not_alert (h avg List.mem_cons_self) halert, Sys.guiDone]
        rw [← hout]
      rw [List.map_cons, runFrom_cons, hpump]
      exact run_pumps (fun a ha => h a (List.mem_cons_of_mem avg ha)) hout halert

/-- **The first average in alarm puts the fan into manual mode**, once its command is applied. -/
theorem modeControl_of_alert {avg : EnvAvg} (h : avg.Alert) :
    (run [.pump avg, .guiSend, .receive, .dispatch]).act.modeControl = 1 := by
  have hpump : boot.next (.pump avg) =
      boot.guiDone (some (guiMsg 80)) ⟨true, true, false, 80⟩ ⟨149, 1, 80, false⟩ := by
    simp only [Sys.next, updateSensorDisplay, if_pos h]
    rfl
  rw [run, runFrom_cons, hpump]
  rfl

/-- **Without a user, `mode_control` stays 0 in every run with these averages exactly when none of
them is in alarm.** -/
theorem modeControl_run_iff (avgs : List EnvAvg) :
    (∀ as : List Act, (∀ a ∈ as, ¬ a.ByUser) → pumped as <+: avgs →
      (run as).act.modeControl = 0) ↔ ∀ avg ∈ avgs, ¬ avg.Alert := by
  constructor
  · intro hall avg hmem halert
    -- the averages before the first alarm leave everything as it is
    have hsome : (avgs.find? fun a => decide a.Alert).isSome :=
      List.find?_isSome.mpr ⟨avg, hmem, decide_eq_true halert⟩
    obtain ⟨first, hfirst⟩ := Option.isSome_iff_exists.mp hsome
    obtain ⟨halarm, pre, post, rfl, hpre⟩ := List.find?_eq_some_iff_append.mp hfirst
    have hmode := hall (pre.map .pump ++ [.pump first, .guiSend, .receive, .dispatch])
      (fun a ha => ?_) ?_
    · rw [run, runFrom_append, run_pumps (fun a ha => by simpa using hpre a ha) rfl rfl, ← run,
        modeControl_of_alert (of_decide_eq_true halarm)] at hmode
      cases hmode
    · simp only [List.mem_append, List.mem_map, List.mem_cons, List.not_mem_nil, or_false] at ha
      rcases ha with ⟨b, -, rfl⟩ | rfl | rfl | rfl | rfl
      all_goals exact not_false
    · have hpumped : pumped (pre.map .pump ++ [.pump first, .guiSend, .receive, .dispatch]) =
          pre ++ [first] := by
        simp [pumped, List.filterMap_append, List.filterMap_map]
      rw [hpumped]
      exact ⟨post, by rw [List.append_assoc, List.singleton_append]⟩
  · exact fun h as huser hpump =>
      (untouched_run huser fun avg hmem => h avg (hpump.subset hmem)).mode

/-- A minute with too much CO2. -/
def alarming : EnvAvg := ⟨0, 200, 500, 0, 1501, 50, 120⟩

/-- Nobody has touched anything, and the fan is in manual mode. -/
theorem alarming_modeControl : ¬ ∀ as : List Act, (∀ a ∈ as, ¬ a.ByUser) →
    pumped as <+: [alarming] → (run as).act.modeControl = 0 := by
  intro hall
  have hmode := hall [.pump alarming, .guiSend, .receive, .dispatch]
    (by simp [Act.ByUser]) (List.prefix_refl _)
  rw [modeControl_of_alert (by decide)] at hmode
  cases hmode

end Sys

end GrainWarehouse
