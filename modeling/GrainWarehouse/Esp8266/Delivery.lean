import GrainWarehouse.Esp8266.Stream

/-!
# Esp8266/Delivery — which frames of a stream reach the callback

Three things take bytes off the ring: the frame pass, the line pass, and the search for an answer.
Only the first delivers frames; a removal by one of the others is *harmless* when it holds no `+`,
so no byte of a frame.

Over any run of the driver, frames are neither invented nor reordered.  `Kept` is the account in
frames — what was delivered, then what is still in the stream — and holds as long as every removal
was harmless; `Spent` is the account in `+` bytes and holds always, so that a single removal that
was not harmless leaves too few for all the frames.  Together (`frames_eq_iff`): **every frame is
delivered, intact and in order, if and only if every other removal was harmless**.
-/

namespace GrainWarehouse

variable {α : Type}

/-! ## What a run delivers and removes -/

/-- The frames handed to the callback, in order. -/
def Esp.frames (e : Esp α) : List (ℤ × List UInt8) :=
  e.log.filterMap fun
    | .recv link data => some (link, data)
    | _ => none

/-- A removal that takes no byte of a frame. -/
def Ev.Harmless : Ev α → Prop
  | .found ring at' => PLUS ∉ ring.take (lineSpan ring at')
  | .cleared ring => PLUS ∉ ring
  | .line piece _ => PLUS ∉ piece
  | .tx _ => True
  | .recv _ _ => True

/-- No removal so far took a byte of a frame. -/
def Esp.Unharmed (e : Esp α) : Prop := ∀ ev ∈ e.log, ev.Harmless

/-! ## Callbacks that only send -/

/-- A property that the whole driver preserves, whatever the layer above does with its own
state. -/
structure Esp.Sound (P : Esp α → Prop) : Prop extends Esp.Stable P where
  up : ∀ u e, P e → P { e with up := u }

/-- A callback that changes its own state and sends. -/
def RecvCb.SendsOnly (cb : RecvCb α) : Prop :=
  ∀ P, Esp.Sound P → ∀ link data e, P e → P (cb link data e)

/-- …and the two passes preserve it as well. -/
structure Esp.Carried (P : Esp α → Prop) : Prop extends Esp.Sound P where
  round : ∀ o e e', parseRound e = some (o, e') → P e → P e'
  line : ∀ e e', lineBody e = some e' → P e → P e'

namespace Esp.Carried

variable {P : Esp α → Prop} (hP : Esp.Carried P) {cb : RecvCb α} (hcb : cb.SendsOnly)

include hP

theorem urcLines {e : Esp α} (h : P e) : P (urcLines e) :=
  loop_invariant hP.line _ e h

include hcb

theorem parseIpdFrames {e : Esp α} (h : P e) : P (parseIpdFrames cb e) := by
  refine loop_invariant (fun e e' hs he => ?_) _ e h
  rcases parseBody_cases hs with hround | ⟨link, data, e₀, hround, rfl⟩
  · exact hP.round _ e e' hround he
  · exact hcb P hP.toSound link data e₀ (hP.round _ e e₀ hround he)

/-- **`esp8266_loop` preserves what each of its rounds preserves.** -/
theorem esp8266Loop {e : Esp α} (h : P e) : P (esp8266Loop cb e) :=
  hP.urcLines (hP.parseIpdFrames hcb h)

end Esp.Carried

/-! ### The driver reads what it is given -/

theorem pending_pass (ms : UInt32) (e : Esp α) : (e.pass ms).pending ≤ e.pending := by
  obtain ⟨t, r, k, bs, hk, hcoming, hr, heq⟩ := e.pass_eq ms
  rw [heq, Esp.pending, Esp.pending, hcoming]
  change r.bytes.length + _ ≤ _
  rw [hr]
  simp only [List.length_append, List.length_take, Esp.coming]
  omega

theorem todo_lt_of_line {e e' : Esp α} (h : lineBody e = some e') : e'.todo < e.todo := by
  obtain ⟨n, last, hfind, -, hn, rfl⟩ := lineBody_cases h
  obtain ⟨rx, w, ls, hrx, heq⟩ := takeLine_eq n e
  have hlast := findSub_add_le hfind
  rw [List.length_singleton] at hlast
  rw [heq]
  change e.air.length + (rx.bytes.length + e.coming.length) <
    e.air.length + (e.ring.length + e.coming.length)
  rw [hrx, List.length_drop]
  omega

theorem todo_lt_of_round {o : Option (ℤ × List UInt8)} {e e' : Esp α}
    (h : parseRound e = some (o, e')) : e'.todo < e.todo := by
  have hair : e'.air = e.air := by
    rcases parseRound_cases h with
      ⟨-, rx, n, -, -, -, rfl⟩ | ⟨pre, hdr, link, data, rx, -, -, -, rfl⟩
    · rfl
    · rfl
  rw [Esp.todo, Esp.todo, hair]
  exact Nat.add_lt_add_left (pending_parseRound h) _

/-- **Nothing is added to what is left to happen.** -/
theorem carried_todo (k : ℕ) : Esp.Carried fun e : Esp α => e.todo ≤ k where
  pass ms e h := by
    refine le_trans (Nat.add_le_add ?_ (pending_pass ms e)) h
    obtain ⟨t, r, j, bs, -, -, -, heq⟩ := e.pass_eq ms
    rw [heq]
    exact (List.length_tail (l := e.air)).trans_le (Nat.sub_le _ _)
  sent _ _ h := h
  cleared e h := by
    refine le_trans (Nat.add_le_add_left ?_ e.air.length) h
    rw [Esp.pending, ring_clearRing]
    exact Nat.add_le_add_right (Nat.zero_le _) _
  found needle at' e _ h := by
    refine le_trans (Nat.add_le_add_left ?_ e.air.length) h
    change (ringConsume e.sRx _).bytes.length + e.coming.length ≤ _
    rw [bytes_ringConsume, List.length_drop]
    exact Nat.add_le_add_right (Nat.sub_le _ _) _
  up _ _ h := h
  round _ _ _ hround h := (todo_lt_of_round hround).le.trans h
  line _ _ hline h := (todo_lt_of_line hline).le.trans h

theorem todo_lt_of_parseBody {cb : RecvCb α} (hcb : cb.SendsOnly) (e e' : Esp α)
    (h : parseBody cb e = some e') : e'.todo < e.todo := by
  rcases parseBody_cases h with hround | ⟨link, data, e₀, hround, rfl⟩
  · exact todo_lt_of_round hround
  · exact (hcb _ (carried_todo e₀.todo).toSound link data e₀ le_rfl).trans_lt
      (todo_lt_of_round hround)

/-- **The frame pass ends**: no round is possible any more. -/
theorem parseIpdFrames_exit {cb : RecvCb α} (hcb : cb.SendsOnly) (e : Esp α) :
    parseRound (parseIpdFrames cb e) = none := by
  have hexit : parseBody cb (parseIpdFrames cb e) = none :=
    loop_exit (todo_lt_of_parseBody hcb) _ e (Nat.lt_succ_self _)
  exact parseBody_eq_none_iff.mp hexit

/-- **`esp8266_loop` does nothing, or uses up something.** -/
theorem esp8266Loop_eq_or {cb : RecvCb α} (hcb : cb.SendsOnly) (e : Esp α) :
    esp8266Loop cb e = e ∨ (esp8266Loop cb e).todo < e.todo := by
  have hframes : parseIpdFrames cb e = e ∨ (parseIpdFrames cb e).todo < e.todo := by
    rw [parseIpdFrames]
    exact loop_eq_or_lt (todo_lt_of_parseBody hcb) _ e
  have hlines (e : Esp α) : urcLines e = e ∨ (urcLines e).todo < e.todo := by
    rw [urcLines]
    exact loop_eq_or_lt (fun _ _ hs => todo_lt_of_line hs) _ e
  have hlines := hlines (parseIpdFrames cb e)
  rw [esp8266Loop]
  rcases hframes with hframes | hframes
  · rwa [hframes] at hlines ⊢
  · rcases hlines with hlines | hlines
    · rw [hlines]
      exact Or.inr hframes
    · exact Or.inr (hlines.trans hframes)

/-! ## The account in frames -/

/-- **Delivered, then still to come, makes all**: as long as nothing was lost and every removal was
harmless, the frames delivered and those of the bytes yet to be read are `total`. -/
def Esp.Kept (total : List (ℤ × List UInt8)) (e : Esp α) : Prop :=
  e.lost = 0 → e.Unharmed →
    ∃ fs, Layout (e.ring ++ e.coming) fs ∧ e.frames ++ fs.map Frame.pair = total

/-- A pause that loses nothing moves bytes from the script to the ring. -/
theorem pass_lost {e : Esp α} {ms : UInt32} (h : (e.pass ms).lost = 0) :
    e.lost = 0 ∧ (e.pass ms).ring ++ (e.pass ms).coming = e.ring ++ e.coming ∧
      (e.pass ms).log = e.log := by
  obtain ⟨t, r, k, bs, hk, hcoming, hr, heq⟩ := e.pass_eq ms
  rw [heq] at h ⊢
  change e.lost + (bs.length - k) = 0 at h
  obtain rfl : k = bs.length := by omega
  refine ⟨by omega, ?_, rfl⟩
  change r.bytes ++ (e.air.tail.map Arrival.bytes).flatten = _
  rw [hr, hcoming, List.take_length, List.append_assoc]

theorem unharmed_append {e : Esp α} {ev : Ev α} (h : ∀ ev' ∈ e.log ++ [ev], ev'.Harmless) :
    e.Unharmed ∧ ev.Harmless :=
  ⟨fun ev' hev' => h ev' (List.mem_append_left _ hev'), h ev (by simp)⟩

theorem unharmed_snoc {e : Esp α} {ev : Ev α} (h : e.Unharmed) (hev : ev.Harmless) :
    ∀ ev' ∈ e.log ++ [ev], ev'.Harmless := fun ev' hev' => by
  rw [List.mem_append, List.mem_singleton] at hev'
  exact hev'.elim (h ev') fun he => he ▸ hev

/-- **The account in frames is kept by everything the driver does.** -/
theorem carried_kept (total : List (ℤ × List UInt8)) :
    Esp.Carried (Esp.Kept total : Esp α → Prop) where
  pass ms e he hlost hun := by
    obtain ⟨hl, hring, hlog⟩ := pass_lost hlost
    rw [Esp.Unharmed, hlog] at hun
    rw [hring, Esp.frames, hlog]
    exact he hl hun
  sent data e he hlost hun := by
    obtain ⟨fs, hlay, htot⟩ := he hlost (unharmed_append hun).1
    refine ⟨fs, hlay, ?_⟩
    simpa [Esp.frames] using htot
  cleared e he hlost hun := by
    obtain ⟨hun, hev⟩ := unharmed_append hun
    obtain ⟨fs, hlay, htot⟩ := he hlost hun
    refine ⟨fs, ?_, by simpa [Esp.frames, clearRing] using htot⟩
    rw [ring_clearRing]
    exact Layout.of_append hlay hev
  found needle at' e hat he hlost hun := by
    obtain ⟨hun, hev⟩ := unharmed_append hun
    obtain ⟨fs, hlay, htot⟩ := he hlost hun
    refine ⟨fs, ?_, by simpa [Esp.frames, dropLine] using htot⟩
    refine Layout.of_append (a := e.ring.take (lineSpan e.ring at')) ?_ hev
    change Layout (_ ++ ((ringConsume e.sRx _).bytes ++ e.coming)) fs
    rw [bytes_ringConsume, ← List.append_assoc]
    change Layout (e.ring.take _ ++ e.ring.drop _ ++ e.coming) fs
    rwa [List.take_append_drop]
  up _ _ he := he
  round o e e' hround he hlost hun := by
    have hgrow : e'.lost = e.lost ∧ ∃ evs, e'.log = e.log ++ evs := by
      rcases parseRound_cases hround with
        ⟨-, rx, n, -, -, -, rfl⟩ | ⟨pre, hdr, link, data, rx, -, -, -, rfl⟩
      · exact ⟨rfl, [], (List.append_nil _).symm⟩
      · exact ⟨rfl, _, rfl⟩
    obtain ⟨hlost', evs, hlog⟩ := hgrow
    have hun' : e.Unharmed := fun ev hev => hun ev (hlog ▸ List.mem_append_left evs hev)
    obtain ⟨fs, hlay, htot⟩ := he (hlost' ▸ hlost) hun'
    rcases parseRound_layout hlay with ⟨hnone, -⟩ | ⟨g, f, fs', rx, rfl, hlay', -, -, hsome⟩
    · rw [hnone] at hround
      cases hround
    · obtain ⟨-, rfl⟩ := Prod.mk.inj (Option.some.inj (hsome.symm.trans hround))
      refine ⟨fs', hlay', ?_⟩
      rw [← htot, List.map_cons]
      simp [Esp.frames, delivered, Frame.pair]
  line e e' hline he hlost hun := by
    obtain ⟨n, -, -, -, -, rfl⟩ := lineBody_cases hline
    obtain ⟨rx, w, ls, hrx, heq⟩ := takeLine_eq n e
    rw [heq] at hlost hun ⊢
    obtain ⟨hun, hev⟩ := unharmed_append hun
    obtain ⟨fs, hlay, htot⟩ := he hlost hun
    refine ⟨fs, Layout.of_append (a := e.ring.take n) ?_ hev, by simpa [Esp.frames] using htot⟩
    change Layout (_ ++ (rx.bytes ++ e.coming)) fs
    rwa [hrx, ← List.append_assoc, List.take_append_drop]

/-- The account once no byte is left to come: everything was delivered. -/
def Esp.Complete (total : List (ℤ × List UInt8)) (e : Esp α) : Prop :=
  e.lost = 0 → e.Unharmed → e.coming = [] → e.frames = total

/-- The line pass delivers nothing, so it leaves a complete account complete. -/
theorem complete_urcLines {total : List (ℤ × List UInt8)} {e : Esp α} (h : e.Complete total) :
    (urcLines e).Complete total := by
  refine loop_invariant (P := Esp.Complete total) (fun e e' hline he hlost hun hcoming => ?_) _ e h
  obtain ⟨n, -, -, -, -, rfl⟩ := lineBody_cases hline
  obtain ⟨rx, w, ls, hrx, heq⟩ := takeLine_eq n e
  rw [heq] at hlost hun hcoming ⊢
  simpa [Esp.frames] using he hlost (unharmed_append hun).1 hcoming

/-- **After `esp8266_loop` the account is complete.** -/
theorem complete_esp8266Loop {cb : RecvCb α} (hcb : cb.SendsOnly)
    {total : List (ℤ × List UInt8)} {e : Esp α} (h : e.Kept total) :
    (esp8266Loop cb e).Complete total := by
  refine complete_urcLines fun hlost hun hcoming => ?_
  obtain ⟨fs, hlay, htot⟩ := (carried_kept total).parseIpdFrames hcb h hlost hun
  rcases parseRound_layout hlay with ⟨-, hfs⟩ | ⟨g, f, fs', rx, -, -, -, -, hsome⟩
  · rw [← htot, hfs hcoming, List.map_nil, List.append_nil]
  · rw [parseIpdFrames_exit hcb e] at hsome
    cases hsome

/-- Losses and harmful removals are never undone. -/
theorem carried_lost (k : ℕ) : Esp.Carried fun e : Esp α => k ≤ e.lost where
  pass ms e he := by
    obtain ⟨t, r, j, bs, -, -, -, heq⟩ := e.pass_eq ms
    rw [heq]
    exact he.trans (Nat.le_add_right _ _)
  sent _ _ he := he
  cleared _ he := he
  found _ _ _ _ he := he
  up _ _ he := he
  round o e e' hround he := by
    rcases parseRound_cases hround with
      ⟨-, rx, n, -, -, -, rfl⟩ | ⟨pre, hdr, link, data, rx, -, -, -, rfl⟩
    · exact he
    · exact he
  line e e' hline he := by
    obtain ⟨n, -, -, -, -, rfl⟩ := lineBody_cases hline
    obtain ⟨rx, w, ls, -, heq⟩ := takeLine_eq n e
    rw [heq]
    exact he

theorem harmed_append {e : Esp α} (h : ¬ e.Unharmed) (ev : Ev α) :
    ¬ ∀ ev' ∈ e.log ++ [ev], ev'.Harmless :=
  fun hun => h (unharmed_append hun).1

theorem carried_harmed : Esp.Carried fun e : Esp α => ¬ e.Unharmed where
  pass ms e he := by
    obtain ⟨t, r, j, bs, -, -, -, heq⟩ := e.pass_eq ms
    rw [heq]
    exact he
  sent _ _ he := harmed_append he _
  cleared _ he := harmed_append he _
  found _ _ _ _ he := harmed_append he _
  up _ _ he := he
  round o e e' hround he := by
    rcases parseRound_cases hround with
      ⟨-, rx, n, -, -, -, rfl⟩ | ⟨pre, hdr, link, data, rx, -, -, -, rfl⟩
    · exact he
    · exact harmed_append he _
  line e e' hline he := by
    obtain ⟨n, -, -, -, -, rfl⟩ := lineBody_cases hline
    obtain ⟨rx, w, ls, -, heq⟩ := takeLine_eq n e
    rw [heq]
    exact harmed_append he _

/-! ## The account in `+` bytes -/

/-- The `+` bytes still to be read, and those of the frames delivered. -/
def Esp.plusCount (e : Esp α) : ℕ :=
  e.ring.count PLUS + e.coming.count PLUS + (e.frames.map fun d => 1 + d.2.count PLUS).sum

/-- **The `+` bytes are at most `bound`**, and fewer once a removal took one. -/
def Esp.Spent (bound : ℕ) (e : Esp α) : Prop :=
  e.plusCount ≤ bound ∧ (e.Unharmed ∨ e.plusCount < bound)

/-- The account after a removal of the bytes `a` from the ring. -/
theorem spent_remove {bound : ℕ} {e e' : Esp α} {ev : Ev α} {n : ℕ} (h : e.Spent bound)
    (hring : e'.ring = e.ring.drop n) (hcoming : e'.coming = e.coming)
    (hlog : e'.log = e.log ++ [ev]) (hframes : e'.frames = e.frames)
    (hev : PLUS ∉ e.ring.take n → ev.Harmless) : e'.Spent bound := by
  obtain ⟨hle, hun⟩ := h
  have hcount : e.ring.count PLUS = (e.ring.take n).count PLUS + (e.ring.drop n).count PLUS := by
    rw [← List.count_append, List.take_append_drop]
  have hplus : e'.plusCount + (e.ring.take n).count PLUS = e.plusCount := by
    rw [Esp.plusCount, Esp.plusCount, hring, hcoming, hframes]
    omega
  refine ⟨by omega, ?_⟩
  by_cases hmem : PLUS ∈ e.ring.take n
  · have := List.count_pos_iff.mpr hmem
    exact Or.inr (by omega)
  · refine hun.imp (fun hun => ?_) (fun hlt => by omega)
    rw [Esp.Unharmed, hlog]
    exact unharmed_snoc hun (hev hmem)

/-- …and after a step that removes none. -/
theorem spent_mono {bound : ℕ} {e e' : Esp α} (h : e.Spent bound)
    (hle : e'.plusCount ≤ e.plusCount) (hun : e.Unharmed → e'.Unharmed) : e'.Spent bound :=
  ⟨hle.trans h.1, h.2.imp hun hle.trans_lt⟩

theorem plusCount_pass (ms : UInt32) (e : Esp α) : (e.pass ms).plusCount ≤ e.plusCount := by
  obtain ⟨t, r, k, bs, hk, hcoming, hr, heq⟩ := e.pass_eq ms
  rw [heq]
  change r.bytes.count PLUS + (e.air.tail.map Arrival.bytes).flatten.count PLUS + _ ≤
    e.ring.count PLUS + e.coming.count PLUS + _
  have hsplit : bs.count PLUS = (bs.take k).count PLUS + (bs.drop k).count PLUS := by
    rw [← List.count_append, List.take_append_drop]
  rw [hr, hcoming, List.count_append, List.count_append]
  refine Nat.add_le_add_right ?_ _
  omega

/-- **The account in `+` bytes is kept by everything the driver does.** -/
theorem carried_spent (bound : ℕ) : Esp.Carried (Esp.Spent bound : Esp α → Prop) where
  pass ms e he := by
    refine spent_mono he (plusCount_pass ms e) fun hun => ?_
    obtain ⟨t, r, k, bs, -, -, -, heq⟩ := e.pass_eq ms
    rw [heq]
    exact hun
  sent data e he := by
    refine spent_mono he ?_ fun hun => unharmed_snoc hun trivial
    simp [Esp.plusCount, Esp.frames, Esp.coming]
  cleared e he := by
    refine spent_remove (n := e.ring.length) he ?_ rfl rfl ?_ ?_
    · rw [ring_clearRing, List.drop_length]
    · simp [Esp.frames, clearRing]
    · rw [List.take_length]
      exact id
  found needle at' e hat he := by
    refine spent_remove (n := lineSpan e.ring at') he (bytes_ringConsume _ _) rfl rfl ?_ id
    simp [Esp.frames, dropLine]
  up _ _ he := he
  round o e e' hround he := by
    rcases parseRound_cases hround with
      ⟨-, rx, n, -, -, hrx, rfl⟩ | ⟨pre, hdr, link, data, rx, -, hring, hp, rfl⟩
    · refine spent_mono he ?_ id
      change rx.bytes.count PLUS + e.coming.count PLUS + _ ≤ e.ring.count PLUS + _ + _
      rw [hrx]
      exact Nat.add_le_add_right
        (Nat.add_le_add_right ((List.drop_sublist _ _).count_le PLUS) _) _
    · -- the header of a frame holds the `+` its delivery is counted for
      have hone : 1 ≤ hdr.count PLUS := List.count_pos_iff.mpr (hp.subset (by decide))
      refine spent_mono he ?_ fun hun => unharmed_snoc hun trivial
      have hframes : (delivered pre.length link data rx e).frames = e.frames ++ [(link, data)] := by
        simp [Esp.frames, delivered]
      rw [Esp.plusCount, Esp.plusCount, hframes, hring]
      change rx.bytes.count PLUS + e.coming.count PLUS + _ ≤ _
      simp only [List.map_append, List.map_singleton, List.sum_append, List.sum_singleton,
        List.count_append]
      omega
  line e e' hline he := by
    obtain ⟨n, -, -, -, -, rfl⟩ := lineBody_cases hline
    obtain ⟨rx, w, ls, hrx, heq⟩ := takeLine_eq n e
    rw [heq]
    refine spent_remove he hrx rfl rfl ?_ id
    simp [Esp.frames]

/-! ## From a fresh driver -/

/-- A driver that has received nothing yet. -/
structure Esp.Fresh (e : Esp α) : Prop where
  ring : e.ring = []
  lost : e.lost = 0
  log : e.log = []

namespace Esp.Fresh

variable {e : Esp α} (h : e.Fresh) {fs : List Frame} (hlay : Layout e.coming fs)

include h

theorem frames : e.frames = [] := by rw [Esp.frames, h.log, List.filterMap_nil]

theorem unharmed : e.Unharmed := fun ev hev => by simp [h.log] at hev

include hlay

theorem kept : e.Kept (fs.map Frame.pair) :=
  fun _ _ => ⟨fs, by rwa [h.ring], by rw [h.frames, List.nil_append]⟩

theorem complete : e.Complete (fs.map Frame.pair) := fun _ _ hnil => by
  cases fs with
  | nil => exact h.frames
  | cons f fs =>
    have := hlay.count_plus
    rw [List.map_cons, List.sum_cons, hnil, List.count_nil] at this
    omega

theorem spent : e.Spent (fs.map fun f => 1 + f.payload.count PLUS).sum := by
  refine ⟨?_, Or.inl h.unharmed⟩
  rw [← hlay.count_plus, Esp.plusCount, h.frames, h.ring, List.count_nil, Nat.zero_add]
  exact le_rfl

end Esp.Fresh

/-- **Every frame is delivered, intact and in order, if and only if every other removal from the
ring was harmless.** -/
theorem frames_eq_iff {e : Esp α} {fs : List Frame}
    (hcomplete : e.Complete (fs.map Frame.pair))
    (hspent : e.Spent (fs.map fun f => 1 + f.payload.count PLUS).sum)
    (hlost : e.lost = 0) (hcoming : e.coming = []) :
    e.frames = fs.map Frame.pair ↔ e.Unharmed := by
  refine ⟨fun h => ?_, fun h => hcomplete hlost h hcoming⟩
  have hsum : (e.frames.map fun d => 1 + d.2.count PLUS).sum =
      (fs.map fun f => 1 + f.payload.count PLUS).sum := by
    rw [h, List.map_map]
    rfl
  refine hspent.2.resolve_right fun hlt => ?_
  rw [Esp.plusCount, hsum] at hlt
  omega

end GrainWarehouse
