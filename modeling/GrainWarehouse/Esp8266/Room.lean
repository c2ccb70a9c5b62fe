import GrainWarehouse.Machinery.Runs
import GrainWarehouse.Esp8266.Chunks

/-!
# Esp8266/Room — whether the ring has room after `esp8266_loop`

Both passes of `esp8266_loop` stop early where they wait for more bytes: for the LF of a line, for
the colon of a header, for the rest of a frame.  On a full ring these bytes never come.

`Jammed` is a full ring on which all of these waits hold.  **A loop leaves room exactly when it
does not begin jammed** (`ringFree_pos_iff`, and `roomAfterLoops_iff` over a run), and a jammed ring
stays as it is whatever is received and however often the loop is called (`jammed_forever`).
-/

namespace GrainWarehouse

variable {α : Type}

/-! ## Where the frame pass waits -/

/-- **The frame pass waits**: for the colon of the header at `hit`, or for the rest of the frame it
announces. -/
def HeaderWaits (ring : List UInt8) (hit : ℕ) : Prop :=
  let hdr := headerAt ring hit
  hdr.getLast? ≠ some 58 ∨
    (0 ≤ (parseIpdHeader hdr).1 ∧ (parseIpdHeader hdr).2 ≠ 0 ∧
      ring.length < hit + hdr.length + (parseIpdHeader hdr).2)

/-- **A ring without room on which both passes wait**: no LF, and at the first `+IPD,`, if there is
one, a header or a frame that is not all there. -/
def Jammed (ring : List UInt8) : Prop :=
  ring.length = 1023 ∧ LF ∉ ring ∧
    ∀ hit, findSub (ascii "+IPD,") ring = some hit → HeaderWaits ring hit

/-- The frame pass does nothing exactly on a short ring, on one without `+IPD,`, and where it
waits. -/
theorem parseRound_eq_none_iff {e : Esp α} : parseRound e = none ↔
    e.ring.length < 6 ∨
      ∀ hit, findSub (ascii "+IPD,") e.ring = some hit → HeaderWaits e.ring hit := by
  rw [parseRound]
  dsimp only
  split_ifs with hused
  · exact iff_of_true rfl (Or.inl hused)
  rw [or_iff_right hused]
  split
  · next hfind => simp [hfind]
  next hit hfind =>
  simp only [hfind, Option.some.injEq, forall_eq', HeaderWaits]
  split_ifs with hcolon hbad hshort hbig hgot
  · exact iff_of_true rfl (Or.inl hcolon)
  · refine iff_of_false not_false ?_
    rintro (h | ⟨hlink, hlen, -⟩)
    · exact hcolon h
    · omega
  · exact iff_of_true rfl (Or.inr ⟨by omega, by omega, hshort⟩)
  -- the frame is all there, so the round takes it off the ring, whatever it does with it
  all_goals
    refine iff_of_false not_false ?_
    rintro (h | ⟨-, -, hlt⟩)
    · exact hcolon h
    · exact hshort hlt

/-! ## One loop -/

/-- **Nothing is received once the script has run out.** -/
theorem carried_air : Esp.Carried fun e : Esp α => e.air = [] where
  pass ms e h := by rw [air_pass, h, List.tail_nil]
  sent _ _ h := h
  cleared _ h := h
  found _ _ _ _ h := h
  up _ _ h := h
  round _ _ _ hround h := (parseRound_frame hround).1.trans h
  line e e' hline h := by
    obtain ⟨n, -, -, -, -, rfl⟩ := lineBody_cases hline
    obtain ⟨rx, w, ls, -, heq⟩ := takeLine_eq n e
    rw [heq]
    exact h

/-- Then what is left to do is what is in the ring. -/
theorem todo_eq_length {e : Esp α} (hair : e.air = []) : e.todo = e.ring.length := by
  simp [Esp.todo, Esp.pending, Esp.coming, hair]

/-- A loop that changes nothing had nothing to do. -/
theorem idle_of_esp8266Loop_eq {cb : RecvCb α} (hcb : cb.SendsOnly) {e : Esp α}
    (h : esp8266Loop cb e = e) : parseRound e = none ∧ LF ∉ e.ring := by
  have hlines (e : Esp α) : (urcLines e).todo ≤ e.todo := by
    rcases loop_eq_or_lt (fun _ _ hs => todo_lt_of_line hs) (e.ring.length + 1) e with hsame | hlt
    · exact (congrArg Esp.todo hsame).le
    · exact hlt.le
  have hframes : parseIpdFrames cb e = e := by
    rcases loop_eq_or_lt (todo_lt_of_parseBody hcb) (e.todo + 1) e with hsame | hlt
    · exact hsame
    · -- a frame pass that took something cannot be made up for
      have hle := hlines (parseIpdFrames cb e)
      rw [← esp8266Loop, h] at hle
      exact absurd hlt (Nat.not_lt.mpr hle)
  refine ⟨hframes ▸ parseIpdFrames_exit hcb e, ?_⟩
  rw [← lineBody_eq_none_iff, ← h, esp8266Loop]
  exact urcLines_exit _

/-- …and one that has nothing to do changes nothing. -/
theorem esp8266Loop_of_idle (cb : RecvCb α) {e : Esp α} (hround : parseRound e = none)
    (hlf : LF ∉ e.ring) : esp8266Loop cb e = e := by
  have hframes : parseIpdFrames cb e = e := loop_of_none (parseBody_eq_none_iff.mpr hround) _
  rw [esp8266Loop, hframes]
  exact loop_of_none (lineBody_eq_none_iff.mpr hlf) _

theorem length_ring_le (e : Esp α) : e.ring.length ≤ 1023 := by
  have hlt := ringUsed_lt e.sRx
  rw [length_bytes]
  omega

theorem jammed_iff {e : Esp α} :
    Jammed e.ring ↔ e.ring.length = 1023 ∧ parseRound e = none ∧ LF ∉ e.ring := by
  rw [Jammed, parseRound_eq_none_iff]
  constructor
  · rintro ⟨hfull, hlf, hwait⟩
    exact ⟨hfull, Or.inr hwait, hlf⟩
  · rintro ⟨hfull, hshort | hwait, hlf⟩
    · omega
    · exact ⟨hfull, hlf, hwait⟩

/-- **A loop during which nothing arrives leaves room exactly when it does not begin jammed.** -/
theorem ringFree_pos_iff {cb : RecvCb α} (hcb : cb.SendsOnly) {e : Esp α} (hair : e.air = []) :
    0 < ringFree (esp8266Loop cb e).sRx ↔ ¬ Jammed e.ring := by
  rw [Nat.pos_iff_ne_zero, ne_eq, ringFree_eq_zero_iff, not_iff_not, jammed_iff]
  change (esp8266Loop cb e).ring.length = 1023 ↔ _
  constructor
  · intro hfull
    have hsame : esp8266Loop cb e = e := by
      refine (esp8266Loop_eq_or hcb e).resolve_right fun hlt => ?_
      rw [todo_eq_length (carried_air.esp8266Loop hcb hair), todo_eq_length hair, hfull] at hlt
      exact absurd (length_ring_le e) (Nat.not_le.mpr hlt)
    obtain ⟨hround, hlf⟩ := idle_of_esp8266Loop_eq hcb hsame
    exact ⟨hsame ▸ hfull, hround, hlf⟩
  · rintro ⟨hfull, hround, hlf⟩
    rw [esp8266Loop_of_idle cb hround hlf, hfull]

/-! ## Bytes and loops -/

/-- What happens at the ring: the interrupt receives bytes, the task calls `esp8266_loop`. -/
inductive RingStep
  | bytes (bs : List UInt8)
  | loop

def RingStep.run (cb : RecvCb α) (e : Esp α) : RingStep → Esp α
  | bytes bs => Esp.receive bs e
  | loop => esp8266Loop cb e

theorem air_receive (bs : List UInt8) (e : Esp α) : (Esp.receive bs e).air = e.air := by
  obtain ⟨r, k, -, -, heq⟩ := Esp.receive_eq bs e
  rw [heq]

theorem air_run {cb : RecvCb α} (hcb : cb.SendsOnly) {e : Esp α} (hair : e.air = []) :
    ∀ s : RingStep, (s.run cb e).air = []
  | .bytes bs => (air_receive bs e).trans hair
  | .loop => carried_air.esp8266Loop hcb hair

/-- **Whenever the loop returns there is room in the ring, if and only if no loop begins
jammed** — for every sequence of bytes and every schedule of loops. -/
theorem roomAfterLoops_iff {cb : RecvCb α} (hcb : cb.SendsOnly) (up : α) (steps : List RingStep) :
    EachStep (RingStep.run cb) (fun e s => s = .loop → 0 < ringFree (s.run cb e).sRx)
        (Esp.boot up []) steps ↔
      EachStep (RingStep.run cb) (fun e s => s = .loop → ¬ Jammed e.ring)
        (Esp.boot up []) steps := by
  have hnext (C : Esp α → RingStep → Prop) (e : Esp α) (s : RingStep) (hair : e.air = [])
      (_ : C e s) : (s.run cb e).air = [] := air_run hcb hair s
  constructor
  · refine EachStep.imp (hnext _) (fun e s hair h hs => ?_) steps rfl
    subst hs
    exact (ringFree_pos_iff hcb hair).mp (h rfl)
  · refine EachStep.imp (hnext _) (fun e s hair h hs => ?_) steps rfl
    subst hs
    exact (ringFree_pos_iff hcb hair).mpr (h rfl)

theorem roomAfterLoops_line :
    EachStep (RingStep.run (handler fun _ _ u => u))
        (fun e s => s = .loop → 0 < ringFree (s.run (handler fun _ _ u => u) e).sRx)
        (Esp.boot () []) [.bytes (ascii "OK\r\n"), .loop] := by
  refine (roomAfterLoops_iff (sendsOnly_handler _) () _).mpr ⟨nofun, fun _ hjam => ?_, trivial⟩
  exact absurd hjam.1 (by decide +kernel)

/-- **A jammed ring stays as it is**, whatever is received and however often the loop is called. -/
theorem jammed_forever {cb : RecvCb α} {e : Esp α} (hjam : Jammed e.ring) (steps : List RingStep) :
    (runFrom (RingStep.run cb) e steps).ring = e.ring := by
  refine runFrom_invariant (P := fun e' : Esp α => e'.ring = e.ring) (fun e' s h => ?_) steps rfl
  have hjam' : Jammed e'.ring := h ▸ hjam
  cases s with
  | bytes bs =>
    obtain ⟨r, k, hk, hr, heq⟩ := Esp.receive_eq bs e'
    have hle : r.bytes.length ≤ 1023 := by
      have hlt := ringUsed_lt r
      rw [length_bytes]
      omega
    rw [hr, List.length_append, hjam'.1] at hle
    have hnil : bs.take k = [] := List.length_eq_zero_iff.mp (by omega)
    change (Esp.receive bs e').ring = _
    rw [heq]
    change r.bytes = _
    rw [hr, hnil, List.append_nil, h]
  | loop =>
    obtain ⟨-, hround, hlf⟩ := jammed_iff.mp hjam'
    change (esp8266Loop cb e').ring = _
    rw [esp8266Loop_of_idle cb hround hlf, h]

/-! ## An over-long frame -/

/-- A frame that announces 2000 bytes, as far as the ring takes it. -/
def longFrame : List UInt8 := ascii "+IPD,2000:" ++ List.replicate 1013 120

theorem jammed_longFrame : Jammed longFrame := by
  have hlen : longFrame.length = 1023 := by
    rw [longFrame, List.length_append, List.length_replicate]
    rfl
  have hhit : findSub (ascii "+IPD,") longFrame = some 0 :=
    findSub_prefix_self ⟨ascii "2000:" ++ List.replicate 1013 120, rfl⟩
  have hfront : longFrame.take 63 = ascii "+IPD,2000:" ++ List.replicate 53 120 := by
    rw [longFrame, List.take_append, List.take_replicate]
    rfl
  have hhdr : headerAt longFrame 0 = ascii "+IPD,2000:" := by
    rw [headerAt, List.drop_zero, hfront]
    decide
  refine ⟨hlen, ?_, fun hit hfind => ?_⟩
  · rw [longFrame, List.mem_append, List.mem_replicate]
    decide
  · obtain rfl : 0 = hit := Option.some.inj (hhit.symm.trans hfind)
    rw [HeaderWaits, hhdr, hlen]
    exact Or.inr (by decide)

/-- The ring takes 1023 bytes of the frame, and the loop leaves them there. -/
theorem longFrame_stays :
    ¬ EachStep (RingStep.run (handler fun _ _ u => u))
        (fun e s => s = .loop → 0 < ringFree (s.run (handler fun _ _ u => u) e).sRx)
        (Esp.boot () []) [.bytes longFrame, .loop] := by
  rintro ⟨-, hroom, -⟩
  have hboot : (Esp.boot () [] : Esp Unit).ring = [] := rfl
  have hring : (Esp.receive longFrame (Esp.boot () [])).ring = longFrame := by
    obtain ⟨r, hr, heq⟩ := Esp.receive_room longFrame (Esp.boot () [])
      (by rw [hboot, List.length_nil, jammed_longFrame.1])
    rw [heq]
    exact hr.trans (by rw [hboot, List.nil_append])
  refine (ringFree_pos_iff (sendsOnly_handler _) ?_).mp (hroom rfl) ?_
  · exact air_receive longFrame (Esp.boot () [])
  · change Jammed (Esp.receive longFrame (Esp.boot () [])).ring
    rw [hring]
    exact jammed_longFrame

end GrainWarehouse
