import GrainWarehouse.Esp8266.Frames

/-!
# Esp8266/Answers — whose `SEND OK` makes a send succeed

`esp8266_tcp_send` takes any `SEND OK` it sees in the ring for its own, and neither it nor its
caller clears the ring before: the bytes there may answer an earlier call, or be a payload.

A history is a list of calls, pauses and `esp8266_loop` calls; the module's own `SEND OK` for a
call, if it ever comes, stands at a given place of its output.  What a call finds follows from the
ring it meets and the bytes that come in while it waits: nobody else reads the ring, and the wait
for the prompt drops as many bytes **from the front** as the prompt's line has from the prompt on.
**Every call that succeeds was itself answered** exactly when what is left then, with what comes in
after it, shows no `SEND OK` before the call's own one is complete (`answered_iff`, call by call;
`everySend_answered_iff`, over the history).
-/

namespace GrainWarehouse

variable {α : Type}

/-! ## The ring while nobody reads it -/

/-- What the ring holds after these bursts: each leaves in it what there is room for. -/
def ringAfter (ring : List UInt8) (bursts : List (List UInt8)) : List UInt8 :=
  bursts.foldl (fun ring bs => ring ++ bs.take (espRxbufSize - 1 - ring.length)) ring

theorem ringAfter_append (ring : List UInt8) (bursts bursts' : List (List UInt8)) :
    ringAfter ring (bursts ++ bursts') = ringAfter (ringAfter ring bursts) bursts' :=
  List.foldl_append

namespace Esp

/-- The bursts still to come, one for each pause. -/
def bursts (e : Esp α) : List (List UInt8) := e.air.map Arrival.bytes

/-- The bytes the module has put out so far. -/
def heard (e : Esp α) : ℕ := e.rxd + e.lost

/-- The bytes it will have put out after `k` more pauses. -/
def heardAfter (k : ℕ) (e : Esp α) : ℕ := e.heard + (e.bursts.take k).flatten.length

theorem heardAfter_add (j k : ℕ) (e : Esp α) :
    e.heardAfter (j + k) = e.heardAfter j + ((e.bursts.drop j).take k).flatten.length := by
  rw [heardAfter, heardAfter, List.take_add, List.flatten_append, List.length_append,
    Nat.add_assoc]

/-- **Receiving fills the ring** up to its last byte but one. -/
theorem ring_receive : ∀ (bs : List UInt8) (e : Esp α),
    (receive bs e).ring = e.ring ++ bs.take (espRxbufSize - 1 - e.ring.length)
  | [], e => by
      rw [List.take_nil, List.append_nil]
      rfl
  | b :: bs, e => by
      have hused := ringUsed_lt e.sRx
      rw [← length_bytes] at hused
      change (receive bs (e.irq b)).ring = _
      rw [ring_receive bs]
      rcases Nat.lt_or_ge e.ring.length 1023 with hroom | hfull
      · obtain ⟨hbytes, htaken⟩ := bytes_ringPush hroom b
        have hirq : (e.irq b).ring = e.ring ++ [b] := by
          simp only [irq, htaken, if_true]
          exact hbytes
        have hleft : espRxbufSize - 1 - e.ring.length =
            espRxbufSize - 1 - (e.ring ++ [b]).length + 1 := by
          rw [List.length_append, List.length_singleton]
          change 1023 - _ = 1023 - _ + 1
          omega
        rw [hirq, hleft, List.take_succ_cons, List.append_assoc, List.singleton_append]
      · have hlen : e.ring.length = 1023 := le_antisymm (Nat.le_of_lt_succ hused) hfull
        have hirq : (e.irq b).ring = e.ring := by simp [irq, ringPush_full hlen b]
        rw [hirq, hlen]
        rfl

theorem heard_receive (bs : List UInt8) (e : Esp α) :
    (receive bs e).heard = e.heard + bs.length := by
  obtain ⟨r, k, hk, -, heq⟩ := receive_eq bs e
  rw [heq]
  change e.rxd + k + (e.lost + (bs.length - k)) = e.rxd + e.lost + bs.length
  omega

theorem bursts_receive (bs : List UInt8) (e : Esp α) : (receive bs e).bursts = e.bursts := by
  obtain ⟨r, k, -, -, heq⟩ := receive_eq bs e
  rw [heq]
  rfl

/-- **From `e` to `e'`, `k` pauses have gone by and nobody has read the ring.** -/
structure Paused (k : ℕ) (e e' : Esp α) : Prop where
  ring : e'.ring = ringAfter e.ring (e.bursts.take k)
  bursts : e'.bursts = e.bursts.drop k
  heard : e'.heard = e.heardAfter k

theorem Paused.refl (e : Esp α) : Paused 0 e e := ⟨rfl, rfl, rfl⟩

theorem Paused.trans {j k : ℕ} {e e' e'' : Esp α} (h : Paused j e e') (h' : Paused k e' e'') :
    Paused (j + k) e e'' where
  ring := by
    rw [h'.ring, h.ring, h.bursts, List.take_add, ringAfter_append]
  bursts := by rw [h'.bursts, h.bursts, List.drop_drop]
  heard := by
    rw [h'.heard, heardAfter, h.heard, h.bursts, heardAfter_add]

theorem paused_pass (ms : UInt32) (e : Esp α) : Paused 1 e (e.pass ms) := by
  rw [pass]
  split
  · next hair =>
    have hnone : e.bursts = [] := by rw [bursts, hair, List.map_nil]
    refine ⟨?_, ?_, ?_⟩
    · rw [hnone]
      rfl
    · rw [hnone]
      exact hnone
    · rw [heardAfter, hnone]
      rfl
  · next a rest hair =>
    have hfirst : e.bursts = a.bytes :: rest.map Arrival.bytes := by
      rw [bursts, hair, List.map_cons]
    refine ⟨?_, ?_, ?_⟩
    · rw [ring_receive, hfirst]
      rfl
    · rw [bursts_receive, hfirst]
      rfl
    · rw [heard_receive, heardAfter, hfirst, List.take_succ_cons, List.take_zero,
        List.flatten_singleton]
      rfl

theorem paused_iterate : ∀ (k : ℕ) (e : Esp α), Paused k e ((pass 10)^[k] e)
  | 0, e => .refl e
  | k + 1, e => by
      rw [Function.iterate_succ_apply, Nat.add_comm k 1]
      exact (paused_pass 10 e).trans (paused_iterate k _)

theorem heardAfter_mono (e : Esp α) : Monotone fun k => e.heardAfter k :=
  fun _ _ h => Nat.add_le_add_left
    ((List.take_sublist_take_left h).flatten.length_le) e.heard

end Esp

/-! ## Waiting, seen from outside -/

/-- The needle stands in the ring at one of the polls, nobody else reading. -/
def Esp.Comes (needle : List UInt8) (polls : ℕ) (e : Esp α) : Prop :=
  ∃ i < polls, needle <:+: ((Esp.pass 10)^[i] e).ring

instance (needle : List UInt8) (polls : ℕ) (e : Esp α) : Decidable (e.Comes needle polls) :=
  inferInstanceAs (Decidable (∃ i < polls, _ <:+: _))

/-- **`at_wait_for` succeeds exactly when its needle comes.** -/
theorem atWaitLoop_isSome_iff {needle : List UInt8} {n : ℕ} {e : Esp α} :
    (atWaitLoop needle n e).1.isSome ↔ e.Comes needle n := by
  rcases atWaitLoop_cases needle n e with ⟨i, at', hi, -, hat, heq⟩ | ⟨hnone, heq⟩
  · exact iff_of_true (by rw [heq]; rfl) ⟨i, hi, exists_findSub_iff.mp ⟨at', hat⟩⟩
  · refine iff_of_false (by rw [heq]; exact Bool.false_ne_true) ?_
    rintro ⟨i, hi, hin⟩
    exact hnone i hi hin

/-- The call is one that sends: its parameters pass, and the prompt comes. -/
def Sends (linkId : ℤ) (data : List UInt8) (e : Esp α) : Prop :=
  (0 ≤ linkId ∧ linkId < espMaxLinkId ∧ data.length ≠ 0) ∧
    (atSendLine (ascii "AT+CIPSEND=" ++ decimal data.length) e).Comes (ascii ">") 200

instance (linkId : ℤ) (data : List UInt8) (e : Esp α) : Decidable (Sends linkId data e) :=
  inferInstanceAs (Decidable (_ ∧ _))

theorem tcpSend_eq_ok_iff_comes {linkId : ℤ} {data : List UInt8} {e : Esp α} :
    (tcpSend linkId data e).1 = .ok ↔
      Sends linkId data e ∧ (dataOut data e).Comes (ascii "SEND OK") 500 := by
  rw [tcpSend_eq_ok_iff, prompt, atWaitFor, atWaitFor, atWaitLoop_isSome_iff,
    atWaitLoop_isSome_iff]
  exact and_assoc.symm

/-! ## The prompt -/

/-- **The prompt is found** at poll `i`, at place `at'` of a call that meets this ring, these bursts
being to come: the first goes by while the command is sent. -/
def PromptAt (ring : List UInt8) (bursts : List (List UInt8)) (i at' : ℕ) : Prop :=
  i < 200 ∧ findSub (ascii ">") (ringAfter ring (bursts.take (i + 1))) = some at' ∧
    ∀ j < i, ¬ ascii ">" <:+: ringAfter ring (bursts.take (j + 1))

/-- It is found once. -/
theorem PromptAt.unique {ring : List UInt8} {bursts : List (List UInt8)} {i i' at' at'' : ℕ}
    (h : PromptAt ring bursts i at') (h' : PromptAt ring bursts i' at'') :
    i = i' ∧ at' = at'' := by
  obtain ⟨-, hat, hfirst⟩ := h
  obtain ⟨-, hat', hfirst'⟩ := h'
  obtain hlt | rfl | hgt := lt_trichotomy i i'
  · exact absurd (exists_findSub_iff.mp ⟨at', hat⟩) (hfirst' i hlt)
  · exact ⟨rfl, Option.some.inj (hat.symm.trans hat')⟩
  · exact absurd (exists_findSub_iff.mp ⟨at'', hat'⟩) (hfirst i' hgt)

/-- What the ring holds when the prompt has been found: as many bytes are gone from its front as
the prompt's line has from the prompt on, whatever stood there. -/
def promptRest (ring : List UInt8) (bursts : List (List UInt8)) (i at' : ℕ) : List UInt8 :=
  let found := ringAfter ring (bursts.take (i + 1))
  found.drop (lineSpan found at')

/-- **A call finds its prompt if there is one to be found**, and its data go out one pause later,
the ring as the prompt left it. -/
theorem prompt_spec (data : List UInt8) (e : Esp α) :
    (∃ i at', PromptAt e.ring e.bursts i at' ∧ (prompt data e).1.isSome ∧
      (dataOut data e).ring =
        ringAfter (promptRest e.ring e.bursts i at') ((e.bursts.drop (i + 1)).take 1) ∧
      (dataOut data e).bursts = e.bursts.drop (i + 2) ∧
      (dataOut data e).heard = e.heardAfter (i + 2)) ∨
    ((∀ i at', ¬ PromptAt e.ring e.bursts i at') ∧ ¬ (prompt data e).1.isSome) := by
  set c := atSendLine (ascii "AT+CIPSEND=" ++ decimal data.length) e with hc
  have hsent : Esp.Paused 1 e c :=
    ⟨(e.paused_pass 0).ring, (e.paused_pass 0).bursts, (e.paused_pass 0).heard⟩
  have hpoll (i : ℕ) : Esp.Paused (i + 1) e ((Esp.pass 10)^[i] c) := by
    rw [Nat.add_comm i 1]
    exact hsent.trans (Esp.paused_iterate i c)
  rw [dataOut, prompt, atWaitFor, ← hc]
  rcases atWaitLoop_cases (ascii ">") 200 c with ⟨i, at', hi, hfirst, hat, heq⟩ | ⟨hnone, heq⟩
  · refine Or.inl ⟨i, at', ⟨hi, ?_, fun j hj => ?_⟩, by rw [heq]; rfl, ?_⟩
    · rw [← (hpoll i).ring]
      exact hat
    · rw [← (hpoll j).ring]
      exact hfirst j hj
    · -- what the line's removal leaves meets one more burst while the data go out
      set p := (Esp.pass 10)^[i] c
      have hdropped : (dropLine at' p).ring = promptRest e.ring e.bursts i at' := by
        change (ringConsume p.sRx _).bytes = _
        rw [bytes_ringConsume, promptRest, ← (hpoll i).ring]
      have hpause := (dropLine at' p).paused_pass 0
      have hheard := (hpoll i).trans (p.paused_pass 0)
      rw [heq]
      refine ⟨?_, ?_, ?_⟩
      · rw [← hdropped, ← (hpoll i).bursts]
        exact hpause.ring
      · rw [← hheard.bursts, (p.paused_pass 0).bursts]
        exact hpause.bursts
      · rw [← hheard.heard, (p.paused_pass 0).heard]
        exact hpause.heard
  · refine Or.inr ⟨?_, by rw [heq]; exact Bool.false_ne_true⟩
    rintro i at' ⟨hi, hat, -⟩
    rw [← (hpoll i).ring] at hat
    exact hnone i hi (exists_findSub_iff.mp ⟨at', hat⟩)

/-! ## One call -/

/-- The module's `SEND OK` at `p` answers the data sent at `e`: it begins after them. -/
def Esp.Own (own : Option ℕ) (e : Esp α) (p : ℕ) : Prop := p ∈ own ∧ e.heard ≤ p

/-- **A call that succeeds was itself answered**: when it returns `ESP_OK`, a `SEND OK` of its own
is complete, and begins after its data were out. -/
def Answered (linkId : ℤ) (data : List UInt8) (own : Option ℕ) (e : Esp α) : Prop :=
  (tcpSend linkId data e).1 = .ok →
    ∃ p, (dataOut data e).Own own p ∧ p + 7 ≤ (tcpSend linkId data e).2.heard

/-- **No `SEND OK` shows before the call's own one is complete**: if the prompt is found at poll
`i`, then of what that leaves in the ring and of the bursts after it none makes a `SEND OK` up to
the poll by which the module has put out the last byte of its own, which begins after the burst
that comes in while the data go out. -/
def Unmistaken (linkId : ℤ) (data : List UInt8) (own : Option ℕ) (e : Esp α) : Prop :=
  0 ≤ linkId ∧ linkId < espMaxLinkId ∧ data.length ≠ 0 →
    ∀ i at', PromptAt e.ring e.bursts i at' → ∀ j < 500,
      (∀ p ∈ own, e.heardAfter (i + 2) ≤ p → e.heardAfter (i + 2 + j) < p + 7) →
        ¬ ascii "SEND OK" <:+:
          ringAfter (promptRest e.ring e.bursts i at') ((e.bursts.drop (i + 1)).take (j + 1))

/-- The same, read at the polls: a call is answered if it succeeds, exactly when no poll after its
data finds a `SEND OK` before its own one is complete. -/
theorem answered_iff_polls (linkId : ℤ) (data : List UInt8) (own : Option ℕ) (e : Esp α) :
    Answered linkId data own e ↔
      (0 ≤ linkId ∧ linkId < espMaxLinkId ∧ data.length ≠ 0) → (prompt data e).1.isSome →
        ∀ j < 500, (∀ p, (dataOut data e).Own own p →
          ((Esp.pass 10)^[j] (dataOut data e)).heard < p + 7) →
            ¬ ascii "SEND OK" <:+: ((Esp.pass 10)^[j] (dataOut data e)).ring := by
  set d := dataOut data e with hd
  have hwait : atWaitFor (ascii "SEND OK") 5000 d = atWaitLoop (ascii "SEND OK") 500 d := by
    rw [atWaitFor]
  rcases atWaitLoop_cases (ascii "SEND OK") 500 d with ⟨i, at', hi, hfirst, hat, heq⟩ | ⟨hnone, heq⟩
  · have hin : ascii "SEND OK" <:+: ((Esp.pass 10)^[i] d).ring := exists_findSub_iff.mp ⟨at', hat⟩
    have hleft (h : (tcpSend linkId data e).1 = .ok) :
        (tcpSend linkId data e).2.heard = ((Esp.pass 10)^[i] d).heard := by
      rw [tcpSend_of_ok h, ← hd, hwait, heq]
      rfl
    constructor
    · intro hans hparams hprompt j hj hbefore hin'
      have hok : (tcpSend linkId data e).1 = .ok :=
        tcpSend_eq_ok_iff.mpr ⟨hparams, hprompt, by rw [← hd, hwait, heq]; rfl⟩
      obtain ⟨p, hp, hle⟩ := hans hok
      rw [hleft hok] at hle
      -- the call returned at poll `i`, the first with a `SEND OK` in the ring
      have hij : i ≤ j := not_lt.mp fun hji => hfirst j hji hin'
      have hmono : ((Esp.pass 10)^[i] d).heard ≤ ((Esp.pass 10)^[j] d).heard := by
        rw [(Esp.paused_iterate i d).heard, (Esp.paused_iterate j d).heard]
        exact d.heardAfter_mono hij
      exact absurd (hle.trans hmono) (Nat.not_le.mpr (hbefore p hp))
    · intro hun hok
      obtain ⟨hparams, hprompt, -⟩ := tcpSend_eq_ok_iff.mp hok
      rw [hleft hok]
      by_contra hno
      exact hun hparams hprompt i hi
        (fun p hp => Nat.lt_of_not_le fun hle => hno ⟨p, hp, hle⟩) hin
  · refine iff_of_true (fun hok => ?_) fun _ _ j hj _ => hnone j hj
    obtain ⟨-, -, hfound⟩ := tcpSend_eq_ok_iff.mp hok
    rw [← hd, hwait, heq] at hfound
    cases hfound

/-- **A call is answered if it succeeds, exactly when it cannot mistake another `SEND OK` for its
own.** -/
theorem answered_iff (linkId : ℤ) (data : List UInt8) (own : Option ℕ) (e : Esp α) :
    Answered linkId data own e ↔ Unmistaken linkId data own e := by
  rw [answered_iff_polls]
  refine imp_congr_right fun _ => ?_
  rcases prompt_spec data e with ⟨i, at', hprompt, hsome, hring, hbursts, hheard⟩ | ⟨hnone, hsome⟩
  · have hpoll (j : ℕ) : ((Esp.pass 10)^[j] (dataOut data e)).ring =
        ringAfter (promptRest e.ring e.bursts i at') ((e.bursts.drop (i + 1)).take (j + 1)) := by
      rw [(Esp.paused_iterate j _).ring, hring, hbursts, Nat.add_comm j 1, List.take_add,
        List.drop_drop, ringAfter_append]
    have hout (j : ℕ) : ((Esp.pass 10)^[j] (dataOut data e)).heard = e.heardAfter (i + 2 + j) := by
      rw [(Esp.paused_iterate j _).heard, Esp.heardAfter, hheard, hbursts,
        ← Esp.heardAfter_add (i + 2) j e]
    have hown (j : ℕ) : (∀ p, (dataOut data e).Own own p →
        ((Esp.pass 10)^[j] (dataOut data e)).heard < p + 7) ↔
        ∀ p ∈ own, e.heardAfter (i + 2) ≤ p → e.heardAfter (i + 2 + j) < p + 7 := by
      simp only [Esp.Own, hheard, hout, and_imp]
    simp only [hown, hpoll]
    constructor
    · intro h i' at'' hprompt'
      obtain ⟨rfl, rfl⟩ := hprompt.unique hprompt'
      exact h hsome
    · exact fun h _ => h i at' hprompt
  · exact iff_of_true (fun h => absurd h hsome) fun i at' h => absurd h (hnone i at')

/-! ## A history of calls -/

/-- One step of a history. -/
inductive SendStep
  | pause (ms : UInt32)
  | loop
  /-- A call, with the place of the module's `SEND OK` for it, if there ever is one. -/
  | send (linkId : ℤ) (data : List UInt8) (own : Option ℕ)

def SendStep.run (cb : RecvCb α) : SendStep → Esp α → Esp α
  | pause ms, e => e.pass ms
  | loop, e => esp8266Loop cb e
  | send linkId data _, e => (tcpSend linkId data e).2

/-- The state after a history. -/
def runHistory (cb : RecvCb α) (steps : List SendStep) (e : Esp α) : Esp α :=
  steps.foldl (fun e s => s.run cb e) e

/-- Every call of a history, at the state it was made in. -/
def EverySend (Q : ℤ → List UInt8 → Option ℕ → Esp α → Prop) (cb : RecvCb α) :
    List SendStep → Esp α → Prop
  | [], _ => True
  | s :: steps, e =>
    (∀ linkId data own, s = .send linkId data own → Q linkId data own e) ∧
      EverySend Q cb steps (s.run cb e)

theorem everySend_congr {Q Q' : ℤ → List UInt8 → Option ℕ → Esp α → Prop} {cb : RecvCb α}
    (h : ∀ linkId data own e, Q linkId data own e ↔ Q' linkId data own e) :
    ∀ (steps : List SendStep) (e : Esp α), EverySend Q cb steps e ↔ EverySend Q' cb steps e
  | [], _ => Iff.rfl
  | s :: steps, e => by
      simp only [EverySend, h, everySend_congr h steps (s.run cb e)]

/-- **In any history, every call that succeeds was itself answered exactly when no call could
mistake another `SEND OK` for its own.** -/
theorem everySend_answered_iff (cb : RecvCb α) (steps : List SendStep) (e : Esp α) :
    EverySend Answered cb steps e ↔ EverySend Unmistaken cb steps e :=
  everySend_congr answered_iff steps e

/-- Two calls: the first is prompted and answered only after its five seconds, the second is
prompted and refused. -/
def lateAnswer : Esp Unit :=
  Esp.boot () (⟨0, ascii ">"⟩ :: List.replicate 501 ⟨0, []⟩ ++
    [⟨0, ascii "\r\nSEND OK\r\n>"⟩, ⟨0, []⟩, ⟨0, ascii "\r\nSEND FAIL\r\n"⟩])

/-- The second call succeeds on the first one's answer. -/
theorem lateAnswer_mistaken :
    ¬ EverySend Answered (fun _ _ e => e) [.send 0 [1] (some 3), .send 0 [2] none] lateAnswer := by
  intro h
  obtain ⟨p, ⟨hp, -⟩, -⟩ := h.2.1 0 [2] none rfl (by decide +kernel)
  cases hp

end GrainWarehouse
