import Mathlib
import GrainWarehouse.Machinery.Clock
import GrainWarehouse.Actuator.System

/-!
# Actuator/Episodes — manual mode ends after half an hour

The sensor task times manual mode with two static variables and a tick counter that wraps, while
other tasks begin it at any time.  **In every run, each manual episode ends in the first cycle that
comes half an hour or more after the first one that saw it** (`endsOnTime_run`), whatever the
episodes before it have left in the static variables.
-/

namespace GrainWarehouse

/-- An action that checks for the end of manual mode. -/
def Act.isWatch : Act → Bool
  | .watch _ _ => true
  | _ => false

/-- **An action at true times.**  A cycle reads the counter twice, or not at all. -/
inductive TimedAct
  | cycle (entered now : ℕ)
  | other (a : Act) (h : a.isWatch = false)

/-- What the system sees of it. -/
def TimedAct.act : TimedAct → Act
  | cycle entered now => .watch (tick entered) (tick now)
  | other a _ => a

/-- The system, and the true times of the cycles that have seen manual mode: those of the present
episode, and those of the ones that are over.  The newest are the first. -/
structure Watched where
  sys : Sys
  /-- The time of the last cycle. -/
  lastTime : Option ℕ
  current : List (ℕ × ℕ)
  past : List (List (ℕ × ℕ))

namespace Watched

/-- After start-up. -/
def boot : Watched := ⟨.boot, none, [], []⟩

/-- An action, and what it means for the episodes. -/
def next (w : Watched) (a : TimedAct) : Watched :=
  let sys := w.sys.next a.act
  if w.sys.act.modeControl = 1 ∧ sys.act.modeControl = 0 then
    ⟨sys, w.lastTime, [], w.current :: w.past⟩
  else
    match a with
    | .cycle entered now =>
      if w.sys.pc = .watch then
        ⟨sys, some now,
          if w.sys.act.modeControl = 1 then (entered, now) :: w.current else w.current, w.past⟩
      else { w with sys := sys }
    | .other _ _ => { w with sys := sys }

/-- The clock runs forward, and consecutive cycles are less than `2 ^ 31` ticks apart. -/
def InTime (w : Watched) : TimedAct → Prop
  | .cycle entered now => w.sys.pc = .watch → (entered ≤ now ∧ now < entered + 2 ^ 31) ∧
      ∀ t ∈ w.lastTime, t ≤ now ∧ now < t + 2 ^ 31
  | .other _ _ => True

instance (w : Watched) : ∀ a : TimedAct, Decidable (w.InTime a)
  | .cycle _ now => inferInstanceAs (Decidable (_ = _ → (_ ∧ _) ∧
      ∀ t ∈ w.lastTime, t ≤ now ∧ now < t + 2 ^ 31))
  | .other _ _ => inferInstanceAs (Decidable True)

end Watched

/-- The tick of the first cycle that saw the episode. -/
def startTick : List (ℕ × ℕ) → ℕ
  | [] => 0
  | [c] => c.1
  | _ :: b :: older => startTick (b :: older)

/-- A cycle comes half an hour or more after this. -/
def Due (start : ℕ) (c : ℕ × ℕ) : Prop := 1800000 ≤ c.2 - start

instance (start : ℕ) (c : ℕ × ℕ) : Decidable (Due start c) := inferInstanceAs (Decidable (_ ≤ _))

/-- **The episode was over in its first cycle that was due.** -/
def EndsOnTime (episode : List (ℕ × ℕ)) : Prop :=
  ∃ c older, episode = c :: older ∧ Due (startTick episode) c ∧
    ∀ b ∈ older, ¬ Due (startTick episode) b

namespace Sys

/-- The clock of the manual mode is left alone, and manual mode is not ended. -/
structure KeepsWatch (s s' : Sys) : Prop where
  entered : s'.sensor.manualEnterTick = s.sensor.manualEnterTick
  prev : s'.sensor.prevModeControl = s.sensor.prevModeControl
  pc : s'.pc = .expire ↔ s.pc = .expire
  mode : s'.act.modeControl = s.act.modeControl ∨ s'.act.modeControl = 1

theorem KeepsWatch.refl (s : Sys) : KeepsWatch s s := ⟨rfl, rfl, Iff.rfl, Or.inl rfl⟩

/-- **All actions but the check for the end of manual mode, and its end, keep the watch.** -/
theorem keepsWatch_next {s : Sys} {a : Act} (hwatch : a.isWatch = false)
    (hexp : a = .expire → s.pc ≠ .expire) : KeepsWatch s (s.next a) := by
  by_cases hsensor : a.BySensor
  · cases a with
    | sense r =>
      simp only [Sys.next, Sys.sense]
      split_ifs with h
      all_goals first
        | exact .refl s
        | exact ⟨rfl, rfl, ⟨fun hp => (by cases hp), fun hp => (by cases h.symm.trans hp)⟩,
            Or.inl rfl⟩
    | autoSend =>
      simp only [Sys.next]
      split
      · next cmd h =>
        exact ⟨rfl, rfl, ⟨fun hp => (by cases hp), fun hp => (by cases h.symm.trans hp)⟩,
          Or.inl rfl⟩
      · exact .refl s
    | watch entered now => cases hwatch
    | expire =>
      rw [Sys.next, if_neg (hexp rfl)]
      exact .refl s
    | _ => exact hsensor.elim
  · have hidle := sensorIdle_next (s := s) hsensor
    exact ⟨by rw [hidle.sensor], by rw [hidle.sensor], by rw [hidle.pc], hidle.mode⟩

end Sys

namespace Watched

/-- **What the static variables know of the present episode.** -/
structure Tracks (w : Watched) (c : ℕ × ℕ) (older : List (ℕ × ℕ)) : Prop where
  last : w.lastTime = some c.2
  start : startTick (c :: older) ≤ c.2
  early : ∀ b ∈ older, ¬ Due (startTick (c :: older)) b
  due : Due (startTick (c :: older)) c ↔ w.sys.pc = .expire
  prev : w.sys.sensor.prevModeControl = if w.sys.pc = .expire then 0 else 1
  entered : w.sys.sensor.manualEnterTick = tick (startTick (c :: older))

/-- **The invariant**: an episode that nobody has seen leaves no trace, one that has been seen is
tracked, and those that are over ended on time. -/
structure Watching (w : Watched) : Prop where
  mode : w.sys.act.modeControl = 0 ∨ w.sys.act.modeControl = 1
  auto : w.sys.act.modeControl = 0 → w.current = []
  unseen : w.current = [] → w.sys.sensor.prevModeControl = 0 ∧ w.sys.pc ≠ .expire
  seen : ∀ c older, w.current = c :: older → w.Tracks c older
  past : ∀ episode ∈ w.past, EndsOnTime episode

theorem watching_boot : boot.Watching where
  mode := Or.inl rfl
  auto _ := rfl
  unseen _ := ⟨rfl, SensorPc.noConfusion⟩
  seen _ _ h := by cases h
  past _ h := absurd h List.not_mem_nil

/-- An action that keeps the watch keeps the invariant. -/
theorem Watching.keepsWatch {w : Watched} (h : w.Watching) {s : Sys} (hs : w.sys.KeepsWatch s)
    (hmode : ¬ (w.sys.act.modeControl = 1 ∧ s.act.modeControl = 0)) :
    Watching { w with sys := s } where
  mode := hs.mode.elim (fun heq => heq ▸ h.mode) Or.inr
  auto hz := h.auto (h.mode.resolve_right fun hone => hmode ⟨hone, hz⟩)
  unseen hnil := by
    obtain ⟨hprev, hpc⟩ := h.unseen hnil
    exact ⟨hs.prev.trans hprev, fun hp => hpc (hs.pc.mp hp)⟩
  seen c older hcur := by
    have ht := h.seen c older hcur
    exact ⟨ht.last, ht.start, ht.early, ht.due.trans hs.pc.symm,
      hs.prev.trans (ht.prev.trans (if_congr hs.pc.symm rfl rfl)), hs.entered.trans ht.entered⟩
  past := h.past

/-- **The clock, read in the second half of a cycle**: it has kept the start of the episode, and
tells whether the cycle is due. -/
theorem watchManual_eq {w : Watched} (h : w.Watching) (hpc : w.sys.pc = .watch) {entered now : ℕ}
    (hin : w.InTime (.cycle entered now)) :
    let start := startTick ((entered, now) :: w.current)
    start ≤ now ∧ (∀ b ∈ w.current, ¬ Due start b) ∧
      watchManual (tick entered) (tick now) w.sys.sensor =
        if Due start (entered, now) then
          (true, { w.sys.sensor with manualEnterTick := tick start, prevModeControl := 0 })
        else
          (false, { w.sys.sensor with manualEnterTick := tick start, prevModeControl := 1 }) := by
  intro start
  obtain ⟨⟨hle, hlt⟩, hlast⟩ := hin hpc
  suffices hstart : start ≤ now ∧ now < start + 2 ^ 32 ∧ (∀ b ∈ w.current, ¬ Due start b) ∧
      (if w.sys.sensor.prevModeControl = 0 then
        { w.sys.sensor with manualEnterTick := tick entered } else w.sys.sensor) =
      { w.sys.sensor with manualEnterTick := tick start } by
    obtain ⟨hs, hl, hearly, hentered⟩ := hstart
    refine ⟨hs, hearly, ?_⟩
    rw [watchManual, hentered]
    exact if_congr (le_tick_sub_iff hs hl 1800000) rfl rfl
  cases hcur : w.current with
  | nil =>
    have hst : start = entered := by simp only [start, hcur, startTick]
    rw [hst, if_pos (h.unseen hcur).1]
    exact ⟨hle, by omega, fun _ hb => absurd hb List.not_mem_nil, rfl⟩
  | cons c older =>
    have ht := h.seen c older hcur
    have hst : start = startTick (c :: older) := by simp only [start, hcur, startTick]
    have hnot : ¬ Due start c := fun hdue => by
      have hp := ht.due.mp (hst ▸ hdue)
      rw [hpc] at hp
      cases hp
    have hprev := ht.prev
    rw [hpc, if_neg (by decide)] at hprev
    obtain ⟨hcn, hnc⟩ := hlast c.2 ht.last
    have hsc := ht.start
    rw [← hst] at hsc
    rw [if_neg (by rw [hprev]; decide)]
    refine ⟨hsc.trans hcn, ?_, ?_, ?_⟩
    · -- the last cycle was not due, and it is less than half a round ago
      rw [Due] at hnot
      omega
    · rw [List.forall_mem_cons]
      exact ⟨hnot, hst ▸ ht.early⟩
    · rw [hst, ← ht.entered]

/-- A cycle that sees manual mode… -/
theorem Watching.cycle {w : Watched} (h : w.Watching) (hpc : w.sys.pc = .watch)
    (hone : w.sys.act.modeControl = 1) {entered now : ℕ} (hin : w.InTime (.cycle entered now)) :
    Watching ⟨w.sys.watch (tick entered) (tick now), some now, (entered, now) :: w.current,
      w.past⟩ := by
  obtain ⟨hstart, hearly, hwatch⟩ := watchManual_eq h hpc hin
  rw [Sys.watch, if_pos hone, hwatch]
  refine ⟨Or.inr hone, fun hz => ?_, fun hnil => (by cases hnil), ?_, h.past⟩
  · exact absurd (hone.symm.trans hz) (by decide)
  · rintro c older hcur
    obtain ⟨rfl, rfl⟩ := List.cons.inj hcur
    split_ifs with hdue
    · exact ⟨rfl, hstart, hearly, iff_of_true hdue rfl, rfl, rfl⟩
    · exact ⟨rfl, hstart, hearly, iff_of_false hdue SensorPc.noConfusion, rfl, rfl⟩

/-- …one that does not… -/
theorem Watching.pass {w : Watched} (h : w.Watching) (hzero : w.sys.act.modeControl = 0)
    (now : ℕ) : Watching ⟨{ w.sys with pc := .sense }, some now, w.current, w.past⟩ := by
  have hnil := h.auto hzero
  exact ⟨h.mode, h.auto, fun _ => ⟨(h.unseen hnil).1, SensorPc.noConfusion⟩,
    fun c older hcur => (by cases hnil.symm.trans hcur), h.past⟩

/-- …and the end of an episode. -/
theorem Watching.expire {w : Watched} (h : w.Watching) (hpc : w.sys.pc = .expire) :
    w.sys.act.modeControl = 1 ∧ Watching ⟨w.sys.expire, w.lastTime, [], w.current :: w.past⟩ := by
  cases hcur : w.current with
  | nil => exact absurd hpc (h.unseen hcur).2
  | cons c older =>
    have ht := h.seen c older hcur
    have hone : w.sys.act.modeControl = 1 := h.mode.resolve_left fun hz => by
      cases hcur.symm.trans (h.auto hz)
    have hprev := ht.prev
    rw [if_pos hpc] at hprev
    refine ⟨hone, Or.inl rfl, fun _ => rfl, fun _ => ⟨hprev, SensorPc.noConfusion⟩,
      fun _ _ hnil => (by cases hnil), ?_⟩
    rw [List.forall_mem_cons]
    exact ⟨⟨c, older, rfl, ht.due.mpr hpc, ht.early⟩, h.past⟩

/-- **What an action preserves**, in time. -/
theorem Watching.next {w : Watched} (a : TimedAct) (h : w.Watching) (hin : w.InTime a) :
    (w.next a).Watching := by
  cases a with
  | cycle entered now =>
    by_cases hpc : w.sys.pc = .watch
    · have hsys : w.sys.next (.watch (tick entered) (tick now)) =
          w.sys.watch (tick entered) (tick now) := if_pos hpc
      rcases h.mode with hzero | hone
      · have hnot : ¬ w.sys.act.modeControl = 1 := fun hone =>
          absurd (hzero.symm.trans hone) (by decide)
        have hwatch : w.sys.watch (tick entered) (tick now) = { w.sys with pc := .sense } :=
          if_neg hnot
        simp only [Watched.next, TimedAct.act, hsys, hwatch, hnot, hpc, false_and, if_false,
          if_true]
        exact h.pass hzero now
      · have hmode : ¬ (w.sys.watch (tick entered) (tick now)).act.modeControl = 0 := by
          rw [Sys.watch, if_pos hone]
          exact fun hz => absurd (hone.symm.trans hz) (by decide)
        simp only [Watched.next, TimedAct.act, hsys, hmode, hone, hpc, and_false, if_false, if_true]
        exact h.cycle hpc hone hin
    · have hsys : w.sys.next (.watch (tick entered) (tick now)) = w.sys := if_neg hpc
      have hmode : ¬ (w.sys.act.modeControl = 1 ∧ w.sys.act.modeControl = 0) := fun hb =>
        absurd (hb.1.symm.trans hb.2) (by decide)
      simp only [Watched.next, TimedAct.act, hsys, hmode, hpc, if_false]
      exact h
  | other a hwatch =>
    by_cases hexp : a = .expire ∧ w.sys.pc = .expire
    · obtain ⟨rfl, hpc⟩ := hexp
      obtain ⟨hone, hover⟩ := h.expire hpc
      have hsys : w.sys.next .expire = w.sys.expire := if_pos hpc
      rw [Watched.next, TimedAct.act, hsys, if_pos ⟨hone, rfl⟩]
      exact hover
    · have hkeeps := Sys.keepsWatch_next hwatch fun ha hpc => hexp ⟨ha, hpc⟩
      have hmode : ¬ (w.sys.act.modeControl = 1 ∧ (w.sys.next a).act.modeControl = 0) := by
        rintro ⟨hone, hzero⟩
        rcases hkeeps.mode with heq | hset
        · exact absurd (hone.symm.trans (heq.symm.trans hzero)) (by decide)
        · exact absurd (hset.symm.trans hzero) (by decide)
      rw [Watched.next, TimedAct.act, if_neg hmode]
      exact h.keepsWatch hkeeps hmode

/-- The present episode, if it has been seen, goes on until a cycle is due; then the sensor task is
about to end it. -/
def GoesOn (w : Watched) : Prop :=
  ∀ c older, w.current = c :: older → (∀ b ∈ older, ¬ Due (startTick w.current) b) ∧
    (Due (startTick w.current) c ↔ w.sys.pc = .expire)

/-- A run, at true times. -/
def run (as : List TimedAct) : Watched := runFrom next boot as

/-- **In every run, manual mode ends exactly in the first cycle that comes 1800000 ticks or more
after the first cycle that saw the episode.** -/
theorem endsOnTime_run (as : List TimedAct) (h : EachStep next InTime boot as) :
    (∀ episode ∈ (run as).past, EndsOnTime episode) ∧ (run as).GoesOn := by
  have hinv := EachStep.run (fun _ a hs hin => Watching.next a hs hin) as watching_boot h
  refine ⟨hinv.past, fun c older hcur => ?_⟩
  have ht := hinv.seen c older hcur
  rw [show (run as).current = c :: older from hcur]
  exact ⟨ht.early, ht.due⟩

/-- The fan is switched off from afar twice; the counter wraps in the first episode, and the second
one starts before any cycle has seen the end of the first. -/
def twoEpisodes : List TimedAct :=
  let takeover : List TimedAct := [.other (.lora [0xAA, 0x01, 0x00, 0xAB]) rfl,
    .other .receive rfl, .other .dispatch rfl]
  let cycle (t : ℕ) : List TimedAct := [.other (.sense (.ofCo2 500)) rfl, .cycle t t]
  takeover ++ cycle 4294967000 ++ cycle 4295967000 ++ cycle 4296767001 ++ [.other .expire rfl] ++
    takeover ++ cycle 4296768000 ++ cycle 4297000000

theorem endsOnTime_run_twoEpisodes :
    (∀ episode ∈ (run twoEpisodes).past, EndsOnTime episode) ∧ (run twoEpisodes).GoesOn :=
  endsOnTime_run twoEpisodes (by decide +kernel)

/-- One episode is over, and the other one goes on. -/
example : ((run twoEpisodes).past.length, (run twoEpisodes).current.length) = (1, 2) := by
  decide +kernel

end Watched

end GrainWarehouse
