import GrainWarehouse.Esp8266.Answers
import GrainWarehouse.Esp8266.Reports
import GrainWarehouse.Mqtt.Receive

/-!
# Mqtt/Interleave — frames that arrive while a send waits

A history of sends and `esp8266_loop` calls under the client's own callback, which answers a PUBLISH
from inside the delivery of its frame, with frames and answers coming in between.  `at_wait_for`
drops the length of the line it found *from the front of the ring*, wherever the line stands, so a
frame that came before the answer loses its head.

**Every frame is delivered, once, intact and in order, exactly when no removal by `at_wait_for` or
by the line pass takes a `+`** (`frames_runHistory_iff`): the account of `Esp8266/Delivery`, kept
over a history.

Only a PUBLISH with QoS 1 is answered, so a stream without one is left alone
(`undisturbed_onEspRecv`).
-/

namespace GrainWarehouse

variable {α : Type} {P : Esp α → Prop}

/-- A step of a history preserves what the driver preserves. -/
theorem Esp.Carried.step (hP : Esp.Carried P) {cb : RecvCb α} (hcb : cb.SendsOnly)
    (s : SendStep) {e : Esp α} (h : P e) : P (s.run cb e) := by
  cases s with
  | pause ms => exact hP.pass ms e h
  | loop => exact hP.esp8266Loop hcb h
  | send linkId data own => exact hP.tcpSend linkId data h

/-- …and so does a history. -/
theorem Esp.Carried.runHistory (hP : Esp.Carried P) {cb : RecvCb α} (hcb : cb.SendsOnly) :
    ∀ (steps : List SendStep) {e : Esp α}, P e → P (runHistory cb steps e)
  | [], _, h => h
  | s :: steps, _, h => runHistory hP hcb steps (hP.step hcb s h)

/-- **Frames survive a history of sends exactly when nothing else took a byte of theirs off the
ring.**  The stream comes in before or during the history, whole; a last `esp8266_loop` ends it. -/
theorem frames_runHistory_iff (steps : List SendStep) (fs : List Frame) (e : Esp Client)
    (hfresh : e.Fresh) (hstream : Layout e.coming fs)
    (hlost : (esp8266Loop onEspRecv (runHistory onEspRecv steps e)).lost = 0)
    (hcoming : (esp8266Loop onEspRecv (runHistory onEspRecv steps e)).coming = []) :
    (esp8266Loop onEspRecv (runHistory onEspRecv steps e)).frames = fs.map Frame.pair ↔
      (esp8266Loop onEspRecv (runHistory onEspRecv steps e)).Unharmed := by
  have hcb := sendsOnly_onEspRecv
  have hkept := (carried_kept _).runHistory hcb steps (hfresh.kept hstream)
  have hspent := (carried_spent _).runHistory hcb steps (hfresh.spent hstream)
  exact frames_eq_iff (complete_esp8266Loop hcb hkept) ((carried_spent _).esp8266Loop hcb hspent)
    hlost hcoming

/-! ## Segments that ask for no answer -/

/-- A PUBLISH with QoS 1. -/
def WantsAnswer (pkt : List UInt8) : Prop := ∃ m, parsePublish pkt = some m ∧ m.qos = 1

/-- Any other packet leaves the driver alone. -/
theorem handlePacket_apart {pkt : List UInt8} (h : ¬ WantsAnswer pkt) (payload : List UInt8)
    (e : Esp Client) : (handlePacket pkt payload e).ring = e.ring ∧
      (handlePacket pkt payload e).flags = e.flags := by
  simp only [handlePacket]
  split_ifs
  · obtain ⟨new, t, met, evs, heq⟩ := handleConnack_up pkt payload e
    rw [heq]
    exact ⟨rfl, rfl⟩
  · exact ⟨rfl, rfl⟩
  · rw [handlePublish]
    split
    · exact ⟨rfl, rfl⟩
    · next m hm =>
      rw [if_neg fun hq => h ⟨m, hm, hq⟩]
      split
      · exact ⟨rfl, rfl⟩
      · exact ⟨rfl, rfl⟩
  · exact ⟨rfl, rfl⟩

/-- **A segment that asks for no answer leaves the driver alone.** -/
theorem onEspRecv_apart {data : List UInt8} (h : ∀ pkt, pkt <:+: data → ¬ WantsAnswer pkt)
    (link : ℤ) (e : Esp Client) : (onEspRecv link data e).ring = e.ring ∧
      (onEspRecv link data e).flags = e.flags := by
  rw [onEspRecv]
  split_ifs
  · exact ⟨rfl, rfl⟩
  · refine (loop_invariant (P := fun s : List UInt8 × Esp Client =>
      s.1 <:+: data ∧ s.2.ring = e.ring ∧ s.2.flags = e.flags) (fun s s' hs hP => ?_) _ _
      ⟨(List.take_prefix _ _).isInfix, rfl, rfl⟩).2
    obtain ⟨hin, hring, hflags⟩ := hP
    obtain ⟨pkt, payload, -, hdata, -, heq⟩ := rxBody_cases hs
    rw [hdata] at hin
    obtain ⟨hring', hflags'⟩ :=
      handlePacket_apart (h pkt ((List.prefix_append _ _).isInfix.trans hin)) payload s.2
    rw [heq]
    exact ⟨(List.suffix_append _ _).isInfix.trans hin, hring'.trans hring, hflags'.trans hflags⟩

/-- **A stream whose frames ask for no answer is left alone** by the client's callback. -/
theorem undisturbed_onEspRecv {pieces : List Piece} {e : Esp Client}
    (h : e.ring = pieceBytes pieces)
    (hno : ∀ f, Piece.frame f ∈ pieces → ∀ pkt, pkt <:+: f.payload → ¬ WantsAnswer pkt) :
    Undisturbed onEspRecv e :=
  undisturbed_of_pieces h fun f hf => onEspRecv_apart (hno f hf) f.link

/-- The frame `+IPD,1:A`. -/
def aFrame : Frame := .plain [65] (by decide)

/-- The frame comes after the answers of the send. -/
def frameAfter : Esp Client :=
  Esp.boot .boot [⟨0, ascii ">"⟩, ⟨0, ascii "\r\nSEND OK\r\n" ++ aFrame.bytes⟩]

theorem frames_runHistory_iff_frameAfter :
    (esp8266Loop onEspRecv (runHistory onEspRecv [.send 0 [1] none] frameAfter)).frames =
        [aFrame.pair] ↔
      (esp8266Loop onEspRecv (runHistory onEspRecv [.send 0 [1] none] frameAfter)).Unharmed :=
  frames_runHistory_iff [.send 0 [1] none] [aFrame] frameAfter ⟨rfl, rfl, rfl⟩
    (Layout.frame (g := ascii ">\r\nSEND OK\r\n") (s := []) (by decide) aFrame
      (Layout.text List.not_mem_nil))
    (by decide +kernel) (by decide +kernel)

/-- The frame comes just before the prompt. -/
def frameBefore : Esp Client :=
  Esp.boot .boot [⟨0, aFrame.bytes ++ ascii ">"⟩, ⟨0, ascii "\r\nSEND OK\r\n"⟩]

/-- The send succeeds and the frame is gone. -/
theorem frameBefore_gone :
    frameBefore.Fresh ∧ Layout frameBefore.coming [aFrame] ∧
      (esp8266Loop onEspRecv (runHistory onEspRecv [.send 0 [1] none] frameBefore)).lost = 0 ∧
      (esp8266Loop onEspRecv (runHistory onEspRecv [.send 0 [1] none] frameBefore)).coming = [] ∧
      (esp8266Loop onEspRecv (runHistory onEspRecv [.send 0 [1] none] frameBefore)).frames ≠
        [aFrame.pair] :=
  ⟨⟨rfl, rfl, rfl⟩,
    Layout.frame (g := []) (s := ascii ">\r\nSEND OK\r\n") List.not_mem_nil aFrame
      (Layout.text (by decide)),
    by decide +kernel, by decide +kernel, by decide +kernel⟩

end GrainWarehouse
