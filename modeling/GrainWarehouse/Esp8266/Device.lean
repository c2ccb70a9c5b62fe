import GrainWarehouse.Machinery.Numeral
import GrainWarehouse.Machinery.Search
import GrainWarehouse.Esp8266.Ring

/-!
# Esp8266/Device — the driver's state, its surroundings, and waiting for an answer

`Esp α` is the static state of `esp8266.c` over a state `α` of the layer above it (the owner of the
receive callback).  The surroundings are a script: `air` lists, for each pause of the running task,
the ticks that pass beyond the pause itself and the bytes the UART interrupt receives meanwhile.
A run is a function of its script, so "for every module output" is "for every script".

The interrupt touches nothing but the ring, and only pauses read the script.  A pass of
`at_wait_for` reads `ring_used` once and never looks past it, so what arrives during the pass is as
good as received at its end.  The rounds of `esp8266_loop` do see what arrives between them: here
they run on the ring as the last pause has left it, and later bytes are those of the next pause.

`Esp.Stable` is the rule for everything built from waiting and sending: what a pause, a transmission
and the removal of a matched line preserve, `at_wait_for` and `esp8266_tcp_send` preserve.
-/

namespace GrainWarehouse

/-- `'\r'`. -/
abbrev CR : UInt8 := 13

/-- `'\n'`. -/
abbrev LF : UInt8 := 10

/-- `ESP_MAX_LINK_ID`. -/
abbrev espMaxLinkId : ℕ := 5

instance : NeZero espMaxLinkId := ⟨by decide⟩

/-- What happens around one pause of the running task. -/
structure Arrival where
  /-- Ticks beyond the pause itself. -/
  ticks : UInt32
  /-- Bytes the UART interrupt receives. -/
  bytes : List UInt8

/-- What a run leaves behind: bytes transmitted, callbacks made, and every removal of bytes from
the ring that is not the delivery of a frame. -/
inductive Ev (α : Type)
  /-- `uart_send` transmitted these bytes. -/
  | tx (data : List UInt8)
  /-- `at_wait_for` found its needle at this offset of the ring and is about to drop a line. -/
  | found (ring : List UInt8) (at' : ℕ)
  /-- `s_recv_cb` was called. -/
  | recv (link : ℤ) (data : List UInt8)
  /-- A command cleared the ring of these bytes. -/
  | cleared (ring : List UInt8)
  /-- `esp8266_loop` took these bytes off the ring as a line, the layer above being in this state.
  -/
  | line (piece : List UInt8) (up : α)

/-- The static state of `esp8266.c`, with the script of its surroundings and the record of its
run. -/
structure Esp (α : Type) where
  sRx : RingT
  sWifiConnected : Bool
  sLinkState : Fin espMaxLinkId → Bool
  /-- `HAL_GetTick()`. -/
  halTick : UInt32
  /-- The state of the layer above. -/
  up : α
  /-- The rest of the script. -/
  air : List Arrival
  /-- Bytes the ring has taken so far. -/
  rxd : ℕ
  /-- Bytes the ring has refused so far. -/
  lost : ℕ
  /-- `rxd` when the last transmission ended. -/
  txAt : ℕ
  /-- How many bytes the ring had taken before the first byte of the frame last delivered. -/
  frameAt : ℕ
  log : List (Ev α)

/-- `esp_err_t`. -/
inductive EspErr
  | ok | timeout | noResp | resp | param | busy
  deriving DecidableEq

variable {α : Type}

namespace Esp

/-- The unread bytes. -/
abbrev ring (e : Esp α) : List UInt8 := e.sRx.bytes

/-- The driver after reset, a script before it. -/
def boot (up : α) (air : List Arrival) : Esp α where
  sRx := RingT.empty
  sWifiConnected := false
  sLinkState := fun _ => false
  halTick := 0
  up := up
  air := air
  rxd := 0
  lost := 0
  txAt := 0
  frameAt := 0
  log := []

/-- The bytes the script still holds. -/
def coming (e : Esp α) : List UInt8 := (e.air.map Arrival.bytes).flatten

/-- `ESP_UART_IRQHandler`: one byte goes to the ring, or is lost. -/
def irq (e : Esp α) (b : UInt8) : Esp α :=
  let r := ringPush e.sRx b
  if r.2 then { e with sRx := r.1, rxd := e.rxd + 1 }
  else { e with sRx := r.1, lost := e.lost + 1 }

/-- The interrupt receives these bytes. -/
def receive (bs : List UInt8) (e : Esp α) : Esp α := bs.foldl irq e

/-- A pause of `ms` milliseconds.  A script that has run out leaves the line silent, and time
moves on. -/
def pass (ms : UInt32) (e : Esp α) : Esp α :=
  match e.air with
  | [] => { e with halTick := e.halTick + if ms = 0 then 1 else ms }
  | a :: rest => receive a.bytes { e with halTick := e.halTick + ms + a.ticks, air := rest }

/-! ### What a pause does -/

/-- **Receiving appends to the ring** what the ring can hold, and changes nothing else. -/
theorem receive_eq : ∀ (bs : List UInt8) (e : Esp α), ∃ (r : RingT) (k : ℕ),
    k ≤ bs.length ∧ r.bytes = e.ring ++ bs.take k ∧
      receive bs e = { e with sRx := r, rxd := e.rxd + k, lost := e.lost + (bs.length - k) }
  | [], e => ⟨e.sRx, 0, le_rfl, by simp, rfl⟩
  | b :: bs, e => by
      have hlt := ringUsed_lt e.sRx
      rw [← length_bytes] at hlt
      rcases Nat.lt_or_ge e.sRx.bytes.length 1023 with h | h
      · obtain ⟨hbytes, htaken⟩ := bytes_ringPush h b
        have hirq : irq e b = { e with sRx := (ringPush e.sRx b).1, rxd := e.rxd + 1 } := by
          simp only [irq, htaken, if_true]
        obtain ⟨r, k, hk, hr, heq⟩ := receive_eq bs (irq e b)
        refine ⟨r, k + 1, Nat.succ_le_succ hk, ?_, ?_⟩
        · rw [hr, hirq, List.take_succ_cons]
          change (ringPush e.sRx b).1.bytes ++ _ = _
          rw [hbytes, List.append_assoc, List.singleton_append]
        · rw [receive, List.foldl_cons]
          refine heq.trans ?_
          rw [hirq, List.length_cons, Nat.add_sub_add_right]
          simp only [Nat.add_assoc, Nat.add_comm 1 k]
      · -- a full ring stays full, so the rest is lost too
        have hfull := ringPush_full (r := e.sRx) (by omega) b
        have hirq : irq e b = { e with lost := e.lost + 1 } := by simp [irq, hfull]
        obtain ⟨r, k, hk, hr, heq⟩ := receive_eq bs (irq e b)
        have hrlt := ringUsed_lt r
        rw [← length_bytes, hr, hirq, List.length_append, List.length_take] at hrlt
        change e.sRx.bytes.length + _ < _ at hrlt
        obtain rfl : k = 0 := by omega
        refine ⟨r, 0, Nat.zero_le _, by rw [hr, hirq]; simp, ?_⟩
        rw [receive, List.foldl_cons]
        refine heq.trans ?_
        rw [hirq]
        simp only [List.length_cons, Nat.sub_zero, Nat.add_zero, Nat.add_assoc, Nat.add_comm 1]

/-- **A ring with room for them takes all the bytes.** -/
theorem receive_room : ∀ (bs : List UInt8) (e : Esp α), e.ring.length + bs.length ≤ 1023 →
    ∃ r : RingT, r.bytes = e.ring ++ bs ∧
      receive bs e = { e with sRx := r, rxd := e.rxd + bs.length }
  | [], e, _ => ⟨e.sRx, (List.append_nil _).symm, rfl⟩
  | b :: bs, e, h => by
      rw [List.length_cons] at h
      have hspace : e.sRx.bytes.length < 1023 := by
        change e.ring.length < 1023
        omega
      obtain ⟨hbytes, htaken⟩ := bytes_ringPush hspace b
      have hirq : irq e b = { e with sRx := (ringPush e.sRx b).1, rxd := e.rxd + 1 } := by
        simp only [irq, htaken, if_true]
      have hring : (irq e b).ring = e.ring ++ [b] := by
        rw [hirq]
        exact hbytes
      obtain ⟨r, hr, heq⟩ := receive_room bs (irq e b)
        (by rw [hring, List.length_append, List.length_singleton]; omega)
      refine ⟨r, by rw [hr, hring, List.append_assoc, List.singleton_append], ?_⟩
      change receive bs (irq e b) = _
      rw [heq, hirq, List.length_cons]
      simp only [Nat.add_assoc, Nat.add_comm 1]

/-- **A pause** moves time on, and moves the head of the script into the ring. -/
theorem pass_eq (ms : UInt32) (e : Esp α) : ∃ (t : UInt32) (r : RingT) (k : ℕ) (bs : List UInt8),
    k ≤ bs.length ∧ e.coming = bs ++ (e.air.tail.map Arrival.bytes).flatten ∧
      r.bytes = e.ring ++ bs.take k ∧
      e.pass ms = { e with
        halTick := t
        sRx := r
        air := e.air.tail
        rxd := e.rxd + k
        lost := e.lost + (bs.length - k) } := by
  rw [pass]
  split
  · next hair =>
    exact ⟨e.halTick + if ms = 0 then 1 else ms, e.sRx, 0, [], le_rfl, by simp [coming, hair],
      by simp, by simp [hair]⟩
  · next a rest hair =>
    obtain ⟨r, k, hk, hr, heq⟩ := receive_eq a.bytes
      { e with halTick := e.halTick + ms + a.ticks, air := rest }
    exact ⟨_, r, k, a.bytes, hk, by simp [coming, hair], hr, by rw [heq, hair]; rfl⟩

end Esp

/-- `uart_send`: the task waits while the bytes go out. -/
def uartSend (data : List UInt8) (e : Esp α) : Esp α :=
  let e := e.pass 0
  { e with txAt := e.rxd, log := e.log ++ [.tx data] }

/-- `at_send_line`. -/
def atSendLine (line : List UInt8) (e : Esp α) : Esp α := uartSend (line ++ [CR, LF]) e

/-- `ring_consume(&s_rx, ring_used(&s_rx))`, before most commands. -/
def clearRing (e : Esp α) : Esp α :=
  { e with
    sRx := ringConsume e.sRx (ringUsed e.sRx)
    log := e.log ++ [.cleared e.ring] }

theorem ring_clearRing (e : Esp α) : (clearRing e).ring = [] := by
  change (ringConsume e.sRx (ringUsed e.sRx)).bytes = []
  rw [bytes_ringConsume, ← length_bytes, List.drop_length]

/-! ## `at_wait_for` -/

/-- The text copied to `out_line`: from the needle to the CR, at most 200 bytes. -/
def outLine (ring : List UInt8) (at' : ℕ) : List UInt8 :=
  ((ring.drop at').take 200).takeWhile (· ≠ CR)

/-- `consume`: the length of the needle's line, from the needle to its LF. -/
def lineSpan (ring : List UInt8) (at' : ℕ) : ℕ := upThrough LF (ring.drop at')

/-- The needle stands at `at'`: `ring_consume(&s_rx, consume)` drops that many bytes **from the
front of the ring**, wherever the needle stands. -/
def dropLine (at' : ℕ) (e : Esp α) : Esp α :=
  { e with
    sRx := ringConsume e.sRx (lineSpan e.ring at')
    log := e.log ++ [.found e.ring at'] }

/-- One round of the polling loop: the line found, if the needle is in the ring. -/
def atPoll (needle : List UInt8) (e : Esp α) : Option (List UInt8 × Esp α) :=
  if needle.length ≤ e.ring.length then
    (findSub needle e.ring).map fun at' => (outLine e.ring at', dropLine at' e)
  else none

/-- The polling loop with `n` rounds left, a `delay_ms(10)` after each. -/
def atWaitLoop (needle : List UInt8) : ℕ → Esp α → Option (List UInt8) × Esp α
  | 0, e => (none, e)
  | n + 1, e =>
    match atPoll needle e with
    | some (line, e') => (some line, e')
    | none => atWaitLoop needle n (e.pass 10)

/-- `at_wait_for`: `elapsed` runs through `0, 10, 20, …` below the timeout. -/
@[irreducible] def atWaitFor (needle : List UInt8) (timeoutMs : ℕ) (e : Esp α) :
    Option (List UInt8) × Esp α :=
  atWaitLoop needle ((timeoutMs + 9) / 10) e

theorem atPoll_eq_some {needle line : List UInt8} {e e' : Esp α}
    (h : atPoll needle e = some (line, e')) :
    ∃ at', findSub needle e.ring = some at' ∧ line = outLine e.ring at' ∧ e' = dropLine at' e := by
  rw [atPoll] at h
  split at h
  · obtain ⟨at', hat, heq⟩ := Option.map_eq_some_iff.mp h
    exact ⟨at', hat, (congrArg Prod.fst heq).symm, (congrArg Prod.snd heq).symm⟩
  · cases h

/-- **A poll fails exactly when the needle is not in the ring.** -/
theorem atPoll_eq_none_iff {needle : List UInt8} {e : Esp α} :
    atPoll needle e = none ↔ ¬ needle <:+: e.ring := by
  rw [atPoll]
  split
  · rw [Option.map_eq_none_iff, findSub_eq_none_iff]
  · next h => exact iff_of_true rfl fun hin => h hin.length_le

/-- **What `at_wait_for` does**: it finds the needle at the first poll whose ring holds it, or lets
all its polls go by. -/
theorem atWaitLoop_cases (needle : List UInt8) : ∀ (n : ℕ) (e : Esp α),
    (∃ i at', i < n ∧ (∀ j < i, ¬ needle <:+: ((Esp.pass 10)^[j] e).ring) ∧
      findSub needle ((Esp.pass 10)^[i] e).ring = some at' ∧
      atWaitLoop needle n e = (some (outLine ((Esp.pass 10)^[i] e).ring at'),
        dropLine at' ((Esp.pass 10)^[i] e))) ∨
    ((∀ j < n, ¬ needle <:+: ((Esp.pass 10)^[j] e).ring) ∧
      atWaitLoop needle n e = (none, (Esp.pass 10)^[n] e))
  | 0, e => Or.inr ⟨fun j hj => absurd hj (Nat.not_lt_zero j), rfl⟩
  | n + 1, e => by
      cases hpoll : atPoll needle e with
      | some r =>
        obtain ⟨at', hat, hline, hdrop⟩ := atPoll_eq_some hpoll
        refine Or.inl ⟨0, at', Nat.succ_pos n, fun j hj => absurd hj (Nat.not_lt_zero j), hat, ?_⟩
        simp only [atWaitLoop, hpoll, hline, hdrop, Function.iterate_zero_apply]
      | none =>
        have hnow := atPoll_eq_none_iff.mp hpoll
        have hfirst {m : ℕ} (h : ∀ j < m, ¬ needle <:+: ((Esp.pass 10)^[j] (e.pass 10)).ring) :
            ∀ j < m + 1, ¬ needle <:+: ((Esp.pass 10)^[j] e).ring
          | 0, _ => hnow
          | j + 1, hj => h j (Nat.lt_of_succ_lt_succ hj)
        rcases atWaitLoop_cases needle n (e.pass 10) with
          ⟨i, at', hi, hbefore, hat, heq⟩ | ⟨hnone, heq⟩
        · refine Or.inl ⟨i + 1, at', Nat.succ_lt_succ hi, hfirst hbefore, hat, ?_⟩
          simp only [atWaitLoop, hpoll, heq, Function.iterate_succ_apply]
        · refine Or.inr ⟨hfirst hnone, ?_⟩
          simp only [atWaitLoop, hpoll, heq, Function.iterate_succ_apply]

/-! ## `esp8266_tcp_send` -/

/-- `AT+CIPSEND`, and the wait for the prompt. -/
def prompt (data : List UInt8) (e : Esp α) : Option (List UInt8) × Esp α :=
  atWaitFor (ascii ">") 2000 (atSendLine (ascii "AT+CIPSEND=" ++ decimal data.length) e)

/-- …then the data. -/
def dataOut (data : List UInt8) (e : Esp α) : Esp α := uartSend data (prompt data e).2

/-- `esp8266_tcp_send`. -/
def tcpSend (linkId : ℤ) (data : List UInt8) (e : Esp α) : EspErr × Esp α :=
  if linkId < 0 ∨ (espMaxLinkId : ℤ) ≤ linkId then (.param, e)
  else if data.length = 0 then (.param, e)
  else if (prompt data e).1.isNone then (.noResp, (prompt data e).2)
  else
    let sent := atWaitFor (ascii "SEND OK") 5000 (dataOut data e)
    if sent.1.isNone then (.resp, sent.2) else (.ok, sent.2)

/-- **A send succeeds** when the prompt is found and, the data being out, `SEND OK` is. -/
theorem tcpSend_eq_ok_iff {linkId : ℤ} {data : List UInt8} {e : Esp α} :
    (tcpSend linkId data e).1 = .ok ↔
      (0 ≤ linkId ∧ linkId < espMaxLinkId ∧ data.length ≠ 0) ∧ (prompt data e).1.isSome ∧
        (atWaitFor (ascii "SEND OK") 5000 (dataOut data e)).1.isSome := by
  simp only [tcpSend, Option.isNone_iff_eq_none, ← Option.ne_none_iff_isSome]
  split_ifs <;> simp_all
  omega

/-- …and what it leaves is then what that wait leaves. -/
theorem tcpSend_of_ok {linkId : ℤ} {data : List UInt8} {e : Esp α}
    (h : (tcpSend linkId data e).1 = .ok) :
    (tcpSend linkId data e).2 = (atWaitFor (ascii "SEND OK") 5000 (dataOut data e)).2 := by
  simp only [tcpSend] at h ⊢
  split_ifs at h ⊢
  dsimp only

/-! ## What waiting and sending preserve -/

/-- A property of the driver that pauses, transmissions and removals from the ring preserve. -/
structure Esp.Stable (P : Esp α → Prop) : Prop where
  pass : ∀ ms e, P e → P (e.pass ms)
  sent : ∀ data e, P e → P { e with txAt := e.rxd, log := e.log ++ [.tx data] }
  cleared : ∀ e, P e → P (clearRing e)
  found : ∀ needle at' e, findSub needle e.ring = some at' → P e → P (dropLine at' e)

/-- **The layer above and the link flags are nobody's business** but that of a callback and of the
line pass. -/
theorem Esp.stable_up (Q : α → (Fin espMaxLinkId → Bool) → Prop) :
    Esp.Stable fun e => Q e.up e.sLinkState where
  pass ms e h := by
    obtain ⟨t, r, k, bs, -, -, -, heq⟩ := e.pass_eq ms
    rw [heq]
    exact h
  sent _ _ h := h
  cleared _ h := h
  found _ _ _ _ h := h

/-- **The record only grows.** -/
theorem Esp.stable_log (l : List (Ev α)) : Esp.Stable fun e => l <+: e.log where
  pass ms e h := by
    obtain ⟨t, r, k, bs, -, -, -, heq⟩ := e.pass_eq ms
    rw [heq]
    exact h
  sent _ _ h := h.trans (List.prefix_append _ _)
  cleared _ h := h.trans (List.prefix_append _ _)
  found _ _ _ _ h := h.trans (List.prefix_append _ _)

namespace Esp.Stable

variable {P : Esp α → Prop} (hP : Esp.Stable P)

include hP

theorem uartSend (data : List UInt8) {e : Esp α} (h : P e) : P (uartSend data e) :=
  hP.sent data _ (hP.pass 0 e h)

theorem atSendLine (line : List UInt8) {e : Esp α} (h : P e) : P (atSendLine line e) :=
  hP.uartSend _ h

theorem atWaitLoop (needle : List UInt8) : ∀ (n : ℕ) {e : Esp α}, P e →
    P (atWaitLoop needle n e).2
  | 0, _, h => h
  | n + 1, e, h => by
      rw [GrainWarehouse.atWaitLoop]
      split
      · next line e' hpoll =>
        obtain ⟨at', hat, -, rfl⟩ := atPoll_eq_some hpoll
        exact hP.found needle at' e hat h
      · exact atWaitLoop needle n (hP.pass 10 e h)

/-- **Waiting for an answer preserves a stable property.** -/
theorem atWaitFor (needle : List UInt8) (timeoutMs : ℕ) {e : Esp α} (h : P e) :
    P (atWaitFor needle timeoutMs e).2 := by
  rw [GrainWarehouse.atWaitFor]
  exact hP.atWaitLoop needle _ h

/-- **Sending preserves a stable property.** -/
theorem tcpSend (linkId : ℤ) (data : List UInt8) {e : Esp α} (h : P e) :
    P (tcpSend linkId data e).2 := by
  have hprompt : P (prompt data e).2 := hP.atWaitFor _ 2000 (hP.atSendLine _ h)
  have hsent := hP.atWaitFor (ascii "SEND OK") 5000 (hP.uartSend data hprompt)
  simp only [GrainWarehouse.tcpSend]
  split_ifs
  all_goals dsimp only
  · exact h
  · exact h
  · exact hprompt
  · exact hsent
  · exact hsent

end Esp.Stable

end GrainWarehouse
