import GrainWarehouse.Esp8266.Commands
import GrainWarehouse.Esp8266.Delivery

/-!
# Esp8266/Setup — bringing the module up, and asking it questions

`esp8266_init` is a script: each command is sent into an empty ring, and some of them must be
answered before the next one goes out.  `initScript` is that script, and **whatever the module
answers, what has been transmitted is the script, all of it when the call succeeds, or up to one of
the commands that must be answered** (`esp8266Init_sends`), all flags being down when it succeeds.

`esp8266_print_netinfo` and `esp8266_ping` poll until an answer or the clock ends them.  A round
that finds something uses up bytes, and one that finds nothing lets time go by, so they end
(`netinfo_exit`, `ping_exit`); and **a ping succeeds only if the module has said so since it was
asked** (`answered_of_ping`).
-/

namespace GrainWarehouse

variable {α : Type}

/-- The ring is cleared, a command sent and its answer awaited. -/
def ask (cmd needle : List UInt8) (timeoutMs : ℕ) (e : Esp α) : Option (List UInt8) × Esp α :=
  atWaitFor needle timeoutMs (atSendLine cmd (clearRing e))

/-- `esp8266_disconnect_wifi`. -/
def disconnectWifi (e : Esp α) : EspErr × Esp α :=
  let w := atWaitFor (ascii "OK") 3000 (atSendLine (ascii "AT+CWQAP") e)
  if w.1.isSome then (.ok, setWifi false w.2) else (.resp, w.2)

/-- `esp8266_query_tcp_status`. -/
def queryTcpStatus (linkId : ℤ) (e : Esp α) : EspErr × Esp α :=
  if linkId < 0 ∨ (espMaxLinkId : ℤ) ≤ linkId then (.param, e)
  else
    let w := ask (ascii "AT+CIPSTATUS=" ++ decimal linkId.toNat) (ascii "STATUS:") 2000 e
    (.ok, (atWaitFor (ascii "OK") 1000 w.2).2)

/-! ## `esp8266_print_netinfo` -/

/-- A round of its loops, with whether `OK` has been seen. -/
def netinfoBody (t0 : UInt32) : Bool × Esp α → Option (Bool × Esp α)
  | (true, _) => none
  | (false, e) =>
    if 3000 ≤ e.halTick - t0 then none
    else
      let w := atWaitFor (ascii "+") 200 e
      if w.1.isSome then some (false, w.2)
      else
        let w := atWaitFor (ascii "OK") 100 w.2
        some (w.1.isSome, w.2)

/-- The rounds that `limit` ticks and the bytes still to come allow. -/
def pollRounds (limit : ℕ) (e : Esp α) : ℕ := limit * e.todo + limit + 2

/-- One of its two questions. -/
def netinfo (cmd : List UInt8) (e : Esp α) : Esp α :=
  let e := atSendLine cmd (clearRing e)
  (loop (netinfoBody e.halTick) (pollRounds 3000 e) (false, e)).2

/-- `esp8266_print_netinfo`. -/
def printNetinfo (e : Esp α) : Esp α := netinfo (ascii "AT+CIPSTA?") (netinfo (ascii "AT+CIFSR") e)

/-! ## `esp8266_ping` -/

/-- `line[1]` is a digit, or the line says `PONG`. -/
def saysPong (text : List UInt8) : Bool :=
  text[1]?.any isDigit || (findSub (ascii "PONG") (text.takeWhile (· ≠ 0))).isSome

/-- The line says `timeout`. -/
def saysTimeout (text : List UInt8) : Bool :=
  (findSub (ascii "timeout") (text.takeWhile (· ≠ 0))).isSome

/-- A round of its loop, with what it has returned and `pong_found`. -/
def pingBody (t0 : UInt32) : Option EspErr × Bool × Esp α → Option (Option EspErr × Bool × Esp α)
  | (some _, _, _) => none
  | (none, pong, e) =>
    if 35000 ≤ e.halTick - t0 then none
    else
      let w := atWaitFor (ascii "+") 200 e
      match w.1 with
      | some text =>
        if saysPong text then some (none, true, w.2)
        else if saysTimeout text then some (some .resp, pong, (atWaitFor (ascii "OK") 2000 w.2).2)
        else some (none, pong, w.2)
      | none =>
        let w := atWaitFor (ascii "OK") 100 w.2
        if w.1.isSome then some (some (if pong then .ok else .resp), pong, w.2)
        else
          let w := atWaitFor (ascii "ERROR") 50 w.2
          if w.1.isSome then some (some .resp, pong, w.2) else some (none, pong, w.2)

/-- The state in which `esp8266_ping` begins to poll. -/
def pinging (host : List UInt8) (e : Esp α) : Esp α :=
  atSendLine (snprintf 64 (ascii "AT+PING=\"" ++ host ++ ascii "\"")) (clearRing e)

/-- `esp8266_ping`. -/
def esp8266Ping (host : List UInt8) (e : Esp α) : EspErr × Esp α :=
  let e := pinging host e
  let r := loop (pingBody e.halTick) (pollRounds 35000 e) (none, false, e)
  (r.1.getD .timeout, r.2.2)

/-! ## `esp8266_init` -/

/-- Up to `n` tries of `AT`: whether one was answered. -/
def atTries : ℕ → Esp α → Bool × Esp α
  | 0, e => (false, e)
  | n + 1, e =>
    let w := ask (ascii "AT") (ascii "OK") 1000 e
    if w.1.isSome then (true, w.2) else atTries n w.2

/-- `memset(s_link_state, 0, …)`, and the WiFi flag with it. -/
def lowerFlags (e : Esp α) : Esp α :=
  { e with sWifiConnected := false, sLinkState := fun _ => false }

/-- `esp8266_init`, `uart4` being what `uart4_init` returns. -/
def esp8266Init (uart4 : EspErr) (e : Esp α) : EspErr × Esp α :=
  if uart4 ≠ .ok then (uart4, e)
  else
    let w := ask (ascii "ATE0") (ascii "OK") 1500 e
    if w.1.isNone then (.noResp, w.2)
    else
      let w := ask (ascii "AT+CWMODE=1") (ascii "OK") 1500 w.2
      if w.1.isNone then (.noResp, w.2)
      else
        let t := atTries 5 w.2
        if ¬ t.1 then (.noResp, t.2)
        else
          let w := ask (ascii "AT+CIPMUX=0") (ascii "OK") 2000 t.2
          if w.1.isNone then (.noResp, w.2)
          else
            let e := (ask (ascii "AT+CIPMODE=0") (ascii "OK") 1000 w.2).2
            let w := ask (ascii "AT+CWJAP?") (ascii "+CWJAP:") 3000 e
            -- the WiFi flag set here does not outlive the next statement
            (.ok, printNetinfo (lowerFlags (setWifi w.1.isSome w.2)))

/-! ## The loops end -/

/-- A line that holds a needle is not empty. -/
theorem lineSpan_pos {needle : List UInt8} (hne : needle ≠ []) {at' : ℕ} {ring : List UInt8}
    (h : findSub needle ring = some at') : 0 < lineSpan ring at' := by
  have hle := findSub_add_le h
  have hpos := List.length_pos_of_ne_nil hne
  obtain ⟨b, bs, hdrop⟩ : ∃ b bs, ring.drop at' = b :: bs :=
    List.exists_cons_of_ne_nil (List.ne_nil_of_length_pos (by rw [List.length_drop]; omega))
  rw [lineSpan, hdrop, upThrough]
  split
  · exact Nat.one_pos
  · exact Nat.succ_pos _

/-- **Waiting adds nothing to what is still to come.** -/
theorem stable_pending (k : ℕ) : Esp.Stable fun e : Esp α => e.pending ≤ k where
  pass ms e h := (pending_pass ms e).trans h
  sent _ _ h := h
  cleared e h := by
    refine le_trans ?_ h
    rw [Esp.pending, ring_clearRing]
    exact Nat.add_le_add_right (Nat.zero_le _) _
  found needle at' e _ h := by
    refine le_trans (Nat.add_le_add_right ?_ e.coming.length) h
    change (ringConsume e.sRx _).bytes.length ≤ _
    rw [bytes_ringConsume, List.length_drop]
    exact Nat.sub_le _ _

/-- …and what is found is used up. -/
theorem todo_lt_of_found {needle : List UInt8} (hne : needle ≠ []) {ms : ℕ} {e : Esp α}
    (h : (atWaitFor needle ms e).1.isSome) : (atWaitFor needle ms e).2.todo < e.todo := by
  rw [atWaitFor] at h ⊢
  rcases atWaitLoop_cases needle ((ms + 9) / 10) e with ⟨i, at', -, -, hat, heq⟩ | ⟨-, heq⟩
  · have hspan := lineSpan_pos hne hat
    have hle := findSub_add_le hat
    have hpos := List.length_pos_of_ne_nil hne
    have hring : 0 < ((Esp.pass 10)^[i] e).ring.length := by omega
    have hbefore : ((Esp.pass 10)^[i] e).todo ≤ e.todo := by
      have hiterate : ∀ (i : ℕ) (e : Esp α), ((Esp.pass 10)^[i] e).todo ≤ e.todo := fun i => by
        induction i with
        | zero => exact fun _ => le_rfl
        | succ i ih => exact fun e => (ih _).trans ((carried_todo e.todo).pass 10 e le_rfl)
      exact hiterate i e
    rw [heq]
    refine lt_of_lt_of_le (Nat.add_lt_add_left (Nat.add_lt_add_right ?_ _) _) hbefore
    change (ringConsume ((Esp.pass 10)^[i] e).sRx _).bytes.length < _
    rw [bytes_ringConsume, List.length_drop]
    exact Nat.sub_lt hring hspan
  · rw [heq] at h
    cases h

/-- A bound on the rounds left to a loop that polls for `limit` ticks. -/
def pollLeft (limit : ℕ) (t0 : UInt32) (e : Esp α) : ℕ :=
  limit * e.todo + (limit - (e.halTick - t0).toNat)

/-- Using up bytes lowers it… -/
theorem pollLeft_lt_of_todo {limit : ℕ} {t0 : UInt32} {e e' : Esp α}
    (hbefore : (e.halTick - t0).toNat < limit) (h : e'.todo < e.todo) :
    pollLeft limit t0 e' < pollLeft limit t0 e := by
  have hmul : limit * e'.todo + limit ≤ limit * e.todo := by
    rw [← Nat.mul_succ]
    exact Nat.mul_le_mul_left limit h
  rw [pollLeft, pollLeft]
  omega

/-- **…and so does waiting.** -/
theorem pollLeft_lt_of_waited {limit j : ℕ} {t0 : UInt32} {e e' : Esp α} (hj : 0 < j)
    (hj' : j ≤ 100) (hlimit : limit ≤ 100000) (hbefore : (e.halTick - t0).toNat < limit)
    (h : Waited j e e') (hpending : e'.pending ≤ e.pending) :
    pollLeft limit t0 e' < pollLeft limit t0 e := by
  rcases hair : e.air with _ | ⟨a, air⟩
  · have hsum : (e'.halTick - t0).toNat = (e.halTick - t0).toNat + 10 * j := by
      rw [h.tick hair]
      simp only [UInt32.toNat_sub, UInt32.toNat_add, UInt32.toNat_ofNat'] at hbefore ⊢
      omega
    have htodo : e'.todo ≤ e.todo := by
      refine Nat.add_le_add ?_ hpending
      rw [h.air, hair, List.drop_nil]
    have hmul := Nat.mul_le_mul_left limit htodo
    rw [pollLeft, pollLeft, hsum]
    omega
  · refine pollLeft_lt_of_todo hbefore (Nat.add_lt_add_of_lt_of_le ?_ hpending)
    rw [h.air, hair, List.length_drop, List.length_cons]
    omega

/-- Before the limit. -/
theorem toNat_lt_of_not_le {limit : UInt32} {t : UInt32} (h : ¬ limit ≤ t) :
    t.toNat < limit.toNat := by
  rw [UInt32.not_le, UInt32.lt_iff_toNat_lt] at h
  exact h

/-- What is left to the loops of `esp8266_print_netinfo`. -/
def netinfoLeft (t0 : UInt32) : Bool × Esp α → ℕ
  | (true, _) => 0
  | (false, e) => pollLeft 3000 t0 e + 1

theorem netinfoLeft_lt {t0 : UInt32} {r r' : Bool × Esp α} (h : netinfoBody t0 r = some r') :
    netinfoLeft t0 r' < netinfoLeft t0 r := by
  obtain ⟨_ | _, e⟩ := r
  · simp only [netinfoBody] at h
    obtain ⟨j₁, hj₁, hfail, hw₁⟩ := waited_atWaitFor (ascii "+") 200 e
    have hfound (h : (atWaitFor (ascii "+") 200 e).1.isSome) := todo_lt_of_found (by decide) h
    have hpend₁ := (stable_pending e.pending).atWaitFor (ascii "+") 200 le_rfl
    set w₁ := atWaitFor (ascii "+") 200 e
    obtain ⟨j₂, hj₂, -, hw₂⟩ := waited_atWaitFor (ascii "OK") 100 w₁.2
    have hpend₂ := (stable_pending e.pending).atWaitFor (ascii "OK") 100 hpend₁
    set w₂ := atWaitFor (ascii "OK") 100 w₁.2
    split_ifs at h with hover h₁
    · cases h
      exact Nat.succ_lt_succ (pollLeft_lt_of_todo (toNat_lt_of_not_le hover) (hfound h₁))
    · obtain rfl := Option.some.inj h
      cases w₂.1.isSome with
      | true => exact Nat.succ_pos _
      | false =>
        have := hfail h₁
        exact Nat.succ_lt_succ (pollLeft_lt_of_waited (by omega) (by omega) (by omega)
          (toNat_lt_of_not_le hover) (hw₁.trans hw₂) hpend₂)
  · cases h

/-- **The loops of `esp8266_print_netinfo` are left by `OK` or by the clock.** -/
theorem netinfo_exit (e : Esp α) :
    netinfoBody e.halTick (loop (netinfoBody e.halTick) (pollRounds 3000 e) (false, e)) = none :=
  loop_exit (fun _ _ h => netinfoLeft_lt h) _ _ (by
    rw [netinfoLeft, pollLeft, pollRounds]
    omega)

/-- What is left to a ping. -/
def pingLeft (t0 : UInt32) : Option EspErr × Bool × Esp α → ℕ
  | (some _, _, _) => 0
  | (none, _, e) => pollLeft 35000 t0 e + 1

theorem pingLeft_lt {t0 : UInt32} {r r' : Option EspErr × Bool × Esp α}
    (h : pingBody t0 r = some r') : pingLeft t0 r' < pingLeft t0 r := by
  obtain ⟨_ | res, pong, e⟩ := r
  · simp only [pingBody] at h
    obtain ⟨j₁, hj₁, hfail, hw₁⟩ := waited_atWaitFor (ascii "+") 200 e
    have hfound (h : (atWaitFor (ascii "+") 200 e).1.isSome) := todo_lt_of_found (by decide) h
    have hpend₁ := (stable_pending e.pending).atWaitFor (ascii "+") 200 le_rfl
    set w₁ := atWaitFor (ascii "+") 200 e
    obtain ⟨j₂, hj₂, -, hw₂⟩ := waited_atWaitFor (ascii "OK") 100 w₁.2
    have hpend₂ := (stable_pending e.pending).atWaitFor (ascii "OK") 100 hpend₁
    set w₂ := atWaitFor (ascii "OK") 100 w₁.2
    obtain ⟨j₃, hj₃, -, hw₃⟩ := waited_atWaitFor (ascii "ERROR") 50 w₂.2
    have hpend₃ := (stable_pending e.pending).atWaitFor (ascii "ERROR") 50 hpend₂
    set w₃ := atWaitFor (ascii "ERROR") 50 w₂.2
    split at h
    · cases h
    next hover =>
    have hbefore : (e.halTick - t0).toNat < 35000 := toNat_lt_of_not_le hover
    split at h
    · next text htext =>
      have hless := Nat.succ_lt_succ
        (pollLeft_lt_of_todo hbefore (hfound (by rw [htext]; rfl)))
      split_ifs at h
      all_goals cases h
      · exact hless
      · exact Nat.succ_pos _
      · exact hless
    · next hnone =>
      have hj := hfail (by rw [hnone]; exact Bool.false_ne_true)
      split_ifs at h
      all_goals cases h
      · exact Nat.succ_pos _
      · exact Nat.succ_pos _
      · exact Nat.succ_pos _
      · exact Nat.succ_lt_succ (pollLeft_lt_of_waited (by omega) (by omega) (by omega) hbefore
          (hw₁.trans (hw₂.trans hw₃)) hpend₃)
  · cases h

/-- **`esp8266_ping` leaves its loop by a return or by the clock.** -/
theorem ping_exit (e : Esp α) :
    pingBody e.halTick (loop (pingBody e.halTick) (pollRounds 35000 e) (none, false, e)) = none :=
  loop_exit (fun _ _ h => pingLeft_lt h) _ _ (by
    rw [pingLeft, pollLeft, pollRounds]
    omega)

/-! ## What has been transmitted -/

/-- What went out over the UART, block by block. -/
def transmitted (log : List (Ev α)) : List (List UInt8) :=
  log.filterMap fun
    | .tx data => some data
    | _ => none

theorem transmitted_append (l l' : List (Ev α)) :
    transmitted (l ++ l') = transmitted l ++ transmitted l' := List.filterMap_append

/-- Pauses and searches transmit nothing. -/
structure Esp.Patient (P : Esp α → Prop) : Prop where
  pass : ∀ ms e, P e → P (e.pass ms)
  found : ∀ needle at' e, findSub needle e.ring = some at' → P e → P (dropLine at' e)

theorem Esp.Patient.atWaitLoop {P : Esp α → Prop} (hP : Esp.Patient P) (needle : List UInt8) :
    ∀ (n : ℕ) {e : Esp α}, P e → P (atWaitLoop needle n e).2
  | 0, _, h => h
  | n + 1, e, h => by
      rw [GrainWarehouse.atWaitLoop]
      split
      · next text e' hpoll =>
        obtain ⟨at', hat, -, rfl⟩ := atPoll_eq_some hpoll
        exact hP.found needle at' e hat h
      · exact hP.atWaitLoop needle n (hP.pass 10 e h)

/-- **What pauses and finds preserve, waiting preserves.** -/
theorem Esp.Patient.atWaitFor {P : Esp α → Prop} (hP : Esp.Patient P) (needle : List UInt8)
    (timeoutMs : ℕ) {e : Esp α} (h : P e) : P (atWaitFor needle timeoutMs e).2 := by
  rw [GrainWarehouse.atWaitFor]
  exact hP.atWaitLoop needle _ h

theorem patient_transmitted (sent : List (List UInt8)) :
    Esp.Patient fun e : Esp α => transmitted e.log = sent where
  pass ms e h := by
    obtain ⟨t, r, k, bs, -, -, -, heq⟩ := e.pass_eq ms
    rw [heq]
    exact h
  found needle at' e _ h := by
    change transmitted (e.log ++ [_]) = sent
    rw [transmitted_append, h]
    exact List.append_nil _

/-- Waiting transmits nothing… -/
theorem transmitted_atWaitFor (needle : List UInt8) (ms : ℕ) (e : Esp α) :
    transmitted (atWaitFor needle ms e).2.log = transmitted e.log :=
  (patient_transmitted _).atWaitFor needle ms rfl

/-- …and a transmission is one block. -/
theorem transmitted_uartSend (data : List UInt8) (e : Esp α) :
    transmitted (uartSend data e).log = transmitted e.log ++ [data] := by
  have hpass := (patient_transmitted (transmitted e.log)).pass 0 e rfl
  change transmitted ((e.pass 0).log ++ [_]) = _
  rw [transmitted_append, hpass]
  rfl

theorem transmitted_clearRing (e : Esp α) : transmitted (clearRing e).log = transmitted e.log := by
  change transmitted (e.log ++ [_]) = _
  rw [transmitted_append]
  exact List.append_nil _

/-- A command on the wire. -/
def onWire (cmd : List UInt8) : List UInt8 := cmd ++ [CR, LF]

theorem transmitted_ask (cmd needle : List UInt8) (ms : ℕ) (e : Esp α) :
    transmitted (ask cmd needle ms e).2.log = transmitted e.log ++ [onWire cmd] := by
  rw [ask, transmitted_atWaitFor, atSendLine, transmitted_uartSend, transmitted_clearRing]
  rfl

theorem transmitted_netinfo (cmd : List UInt8) (e : Esp α) :
    transmitted (netinfo cmd e).log = transmitted e.log ++ [onWire cmd] := by
  have hstart : transmitted (atSendLine cmd (clearRing e)).log =
      transmitted e.log ++ [onWire cmd] := by
    rw [atSendLine, transmitted_uartSend, transmitted_clearRing]
    rfl
  refine loop_invariant (P := fun r : Bool × Esp α =>
    transmitted r.2.log = transmitted e.log ++ [onWire cmd]) (fun r r' hr he => ?_) _ _ hstart
  obtain ⟨_ | _, e'⟩ := r
  · simp only [netinfoBody] at hr
    split_ifs at hr
    all_goals cases hr
    all_goals simpa only [transmitted_atWaitFor] using he
  · cases hr

/-- **What `esp8266_init` has to say**: `AT` is tried up to five times. -/
def initScript (tries : ℕ) : List (List UInt8) :=
  [onWire (ascii "ATE0"), onWire (ascii "AT+CWMODE=1")] ++
    List.replicate tries (onWire (ascii "AT")) ++
    [onWire (ascii "AT+CIPMUX=0"), onWire (ascii "AT+CIPMODE=0"), onWire (ascii "AT+CWJAP?"),
      onWire (ascii "AT+CIFSR"), onWire (ascii "AT+CIPSTA?")]

/-- The tries end with the first that is answered, or are all made. -/
theorem atTries_spec : ∀ (n : ℕ) (e : Esp α), ∃ k ≤ n,
    transmitted (atTries n e).2.log =
      transmitted e.log ++ List.replicate k (onWire (ascii "AT")) ∧
    ((atTries n e).1 = false → k = n) ∧ ((atTries n e).1 = true → 0 < k)
  | 0, e => ⟨0, le_rfl, (List.append_nil _).symm, fun _ => rfl, fun h => by cases h⟩
  | n + 1, e => by
      have hask := transmitted_ask (ascii "AT") (ascii "OK") 1000 e
      rw [atTries]
      split
      · exact ⟨1, Nat.le_add_left 1 n, hask, nofun, fun _ => Nat.one_pos⟩
      · obtain ⟨k, hk, hsent, hall, -⟩ := atTries_spec n (ask (ascii "AT") (ascii "OK") 1000 e).2
        refine ⟨k + 1, Nat.succ_le_succ hk, ?_, fun h => congrArg _ (hall h),
          fun _ => Nat.succ_pos _⟩
        rw [hsent, hask, List.append_assoc, List.replicate_succ, List.singleton_append]

/-- All flags are down. -/
def Esp.Down (e : Esp α) : Prop := e.sWifiConnected = false ∧ ∀ i, e.sLinkState i = false

/-- Nothing that waits or sends raises a flag. -/
theorem stable_down : Esp.Stable (Esp.Down : Esp α → Prop) where
  pass ms e h := by
    obtain ⟨t, r, k, bs, -, -, -, heq⟩ := e.pass_eq ms
    rw [heq]
    exact h
  sent _ _ h := h
  cleared _ h := h
  found _ _ _ _ h := h

theorem Esp.Stable.netinfo {P : Esp α → Prop} (hP : Esp.Stable P) (cmd : List UInt8) {e : Esp α}
    (h : P e) : P (netinfo cmd e) := by
  refine loop_invariant (P := fun r : Bool × Esp α => P r.2) (fun r r' hr he => ?_) _ _
    (hP.atSendLine cmd (hP.cleared e h))
  obtain ⟨_ | _, e'⟩ := r
  · have h₁ := hP.atWaitFor (ascii "+") 200 he
    have h₂ := hP.atWaitFor (ascii "OK") 100 h₁
    simp only [netinfoBody] at hr
    split_ifs at hr
    all_goals cases hr
    · exact h₁
    · exact h₂
  · cases hr

/-- **Where the script may stop**: after `ATE0`, `AT+CWMODE=1`, the last of five tries of `AT`, or
`AT+CIPMUX=0`.  The other commands need not be answered, and nor do the first four tries. -/
def MayStop (tries k : ℕ) : Prop := k = 1 ∨ k = 2 ∨ (tries = 5 ∧ k = tries + 2) ∨ k = tries + 3

/-- The script up to there. -/
theorem take_initScript (tries : ℕ) :
    (initScript tries).length = tries + 7 ∧
      (initScript tries).take 1 = [onWire (ascii "ATE0")] ∧
      (initScript tries).take 2 = [onWire (ascii "ATE0"), onWire (ascii "AT+CWMODE=1")] ∧
      (initScript tries).take (tries + 2) =
        [onWire (ascii "ATE0"), onWire (ascii "AT+CWMODE=1")] ++
          List.replicate tries (onWire (ascii "AT")) ∧
      (initScript tries).take (tries + 3) =
        [onWire (ascii "ATE0"), onWire (ascii "AT+CWMODE=1")] ++
          List.replicate tries (onWire (ascii "AT")) ++ [onWire (ascii "AT+CIPMUX=0")] := by
  have hlen : ([onWire (ascii "ATE0"), onWire (ascii "AT+CWMODE=1")] ++
      List.replicate tries (onWire (ascii "AT"))).length = tries + 2 := by
    rw [List.length_append, List.length_replicate, Nat.add_comm]
    rfl
  refine ⟨?_, rfl, rfl, ?_, ?_⟩
  · rw [initScript, List.length_append, hlen]
    rfl
  · rw [initScript, List.take_append_of_le_length hlen.ge, ← hlen, List.take_length]
  · have h3 : tries + 3 = ([onWire (ascii "ATE0"), onWire (ascii "AT+CWMODE=1")] ++
        List.replicate tries (onWire (ascii "AT"))).length + 1 := by rw [hlen]
    rw [initScript, h3, List.take_length_add_append]
    rfl

/-- A call that stops where it may has not come to the end of the script. -/
theorem MayStop.sends {tries k : ℕ} (hk : MayStop tries k) (htries : tries ≤ 5) (hpos : 0 < tries)
    {before : List (List UInt8)} {r : EspErr × Esp α} (hr : r.1 = .noResp)
    (hsent : transmitted r.2.log = before ++ (initScript tries).take k) :
    ∃ tries ≤ 5, 0 < tries ∧ ∃ k ≤ (initScript tries).length,
      transmitted r.2.log = before ++ (initScript tries).take k ∧
        (r.1 = .ok ↔ k = (initScript tries).length) ∧
        (r.1 = .ok → r.2.Down) ∧ (r.1 ≠ .ok → r.1 = .noResp ∧ MayStop tries k) := by
  have hlen := (take_initScript tries).1
  have hshort : k < (initScript tries).length := by
    rw [hlen]
    obtain rfl | rfl | ⟨-, rfl⟩ | rfl := hk <;> omega
  have hne : r.1 ≠ .ok := by
    rw [hr]
    decide
  exact ⟨tries, htries, hpos, k, hshort.le, hsent, iff_of_false hne hshort.ne,
    fun h => absurd h hne, fun _ => ⟨hr, hk⟩⟩

/-- **What `esp8266_init` has transmitted when it returns**, whatever the module answers: its
script, with one to five tries of `AT`, and all of it exactly when the call succeeds, the flags all
being down then.  Otherwise it has stopped where it may stop, for want of an answer. -/
theorem esp8266Init_sends (e : Esp α) : ∃ tries ≤ 5, 0 < tries ∧ ∃ k ≤ (initScript tries).length,
    transmitted (esp8266Init .ok e).2.log = transmitted e.log ++ (initScript tries).take k ∧
      ((esp8266Init .ok e).1 = .ok ↔ k = (initScript tries).length) ∧
      ((esp8266Init .ok e).1 = .ok → (esp8266Init .ok e).2.Down) ∧
      ((esp8266Init .ok e).1 ≠ .ok → (esp8266Init .ok e).1 = .noResp ∧ MayStop tries k) := by
  have h₁ := transmitted_ask (ascii "ATE0") (ascii "OK") 1500 e
  set w₁ := ask (ascii "ATE0") (ascii "OK") 1500 e with hw₁
  have h₂ := transmitted_ask (ascii "AT+CWMODE=1") (ascii "OK") 1500 w₁.2
  set w₂ := ask (ascii "AT+CWMODE=1") (ascii "OK") 1500 w₁.2 with hw₂
  obtain ⟨tries, htries, h₃, hall, hpos⟩ := atTries_spec 5 w₂.2
  set t := atTries 5 w₂.2 with ht
  have h₄ := transmitted_ask (ascii "AT+CIPMUX=0") (ascii "OK") 2000 t.2
  set w₄ := ask (ascii "AT+CIPMUX=0") (ascii "OK") 2000 t.2 with hw₄
  have h₅ := transmitted_ask (ascii "AT+CIPMODE=0") (ascii "OK") 1000 w₄.2
  set w₅ := ask (ascii "AT+CIPMODE=0") (ascii "OK") 1000 w₄.2 with hw₅
  have h₆ := transmitted_ask (ascii "AT+CWJAP?") (ascii "+CWJAP:") 3000 w₅.2
  set w₆ := ask (ascii "AT+CWJAP?") (ascii "+CWJAP:") 3000 w₅.2 with hw₆
  obtain ⟨hlen, htake₁, htake₂, htake₃, htake₄⟩ := take_initScript tries
  have hsent₂ : transmitted w₂.2.log =
      transmitted e.log ++ [onWire (ascii "ATE0"), onWire (ascii "AT+CWMODE=1")] := by
    rw [h₂, h₁, List.append_assoc]
    rfl
  have hsent₃ : transmitted t.2.log = transmitted e.log ++ (initScript tries).take (tries + 2) := by
    rw [h₃, hsent₂, htake₃, List.append_assoc]
  have hsent₄ : transmitted w₄.2.log =
      transmitted e.log ++ (initScript tries).take (tries + 3) := by
    rw [h₄, hsent₃, htake₃, htake₄, List.append_assoc]
  have hsent₆ : transmitted (printNetinfo (lowerFlags (setWifi w₆.1.isSome w₆.2))).log =
      transmitted e.log ++ (initScript tries).take (initScript tries).length := by
    rw [printNetinfo, transmitted_netinfo, transmitted_netinfo]
    change transmitted w₆.2.log ++ _ ++ _ = _
    rw [h₆, h₅, hsent₄, htake₄, List.take_length, initScript]
    simp only [List.append_assoc, List.cons_append, List.nil_append]
  have hdown : (printNetinfo (lowerFlags (setWifi w₆.1.isSome w₆.2))).Down :=
    stable_down.netinfo _ (stable_down.netinfo _ ⟨rfl, fun _ => rfl⟩)
  simp only [esp8266Init, ne_eq, not_true_eq_false, if_false, ← hw₁, ← hw₂, ← ht, ← hw₄, ← hw₅,
    ← hw₆]
  split
  · have hstop : MayStop 1 1 := Or.inl rfl
    exact hstop.sends (by decide) Nat.one_pos rfl h₁
  split
  · have hstop : MayStop 1 2 := Or.inr (Or.inl rfl)
    exact hstop.sends (by decide) Nat.one_pos rfl hsent₂
  split
  · next htried =>
    have hfive : tries = 5 := hall (by simpa using htried)
    have hstop : MayStop tries (tries + 2) := Or.inr (Or.inr (Or.inl ⟨hfive, rfl⟩))
    exact hstop.sends htries (by omega) rfl hsent₃
  next htried =>
  have hone := hpos (by simpa using htried)
  split
  · have hstop : MayStop tries (tries + 3) := Or.inr (Or.inr (Or.inr rfl))
    exact hstop.sends htries hone rfl hsent₄
  · exact ⟨tries, htries, hone, _, le_rfl, hsent₆, iff_of_true rfl rfl, fun _ => hdown,
      fun h => absurd rfl h⟩

/-! ## What a ping is worth -/

/-- **From `b` to `e`**: all that is in the ring has come since. -/
def Esp.Elapsed (b e : Esp α) : Prop := b.log <+: e.log ∧ e.ring.length + b.rxd ≤ e.rxd

/-- …and a search for `+` has found a line of this kind, of bytes that have come since. -/
def Esp.FoundSince (good : List UInt8 → Prop) (b e : Esp α) : Prop :=
  ∃ evs ring at', e.log = b.log ++ evs ∧ Ev.found ring at' ∈ evs ∧
    findSub (ascii "+") ring = some at' ∧ good (outLine ring at') ∧ ring.length + b.rxd ≤ e.rxd

theorem stable_elapsed (b : Esp α) : Esp.Stable b.Elapsed where
  pass ms e h := by
    obtain ⟨t, r, k, bs, hk, -, hr, heq⟩ := e.pass_eq ms
    rw [heq]
    refine ⟨h.1, ?_⟩
    have hlen : r.bytes.length = e.ring.length + k := by
      rw [hr, List.length_append, List.length_take, min_eq_left hk]
    have := h.2
    change r.bytes.length + b.rxd ≤ e.rxd + k
    omega
  sent _ _ h := ⟨h.1.trans (List.prefix_append _ _), h.2⟩
  cleared e h := by
    refine ⟨h.1.trans (List.prefix_append _ _), ?_⟩
    rw [ring_clearRing, List.length_nil]
    exact (Nat.add_le_add_right (Nat.zero_le _) _).trans h.2
  found needle at' e _ h := by
    refine ⟨h.1.trans (List.prefix_append _ _), le_trans (Nat.add_le_add_right ?_ _) h.2⟩
    change (ringConsume e.sRx _).bytes.length ≤ _
    rw [bytes_ringConsume, List.length_drop]
    exact Nat.sub_le _ _

theorem stable_foundSince (good : List UInt8 → Prop) (b : Esp α) :
    Esp.Stable (b.FoundSince good) where
  pass ms e h := by
    obtain ⟨t, r, k, bs, -, -, -, heq⟩ := e.pass_eq ms
    obtain ⟨evs, ring, at', hlog, hmem, hat, hgood, hle⟩ := h
    rw [heq]
    exact ⟨evs, ring, at', hlog, hmem, hat, hgood, Nat.le_add_right_of_le hle⟩
  sent data e h := by
    obtain ⟨evs, ring, at', hlog, hmem, hat, hgood, hle⟩ := h
    refine ⟨evs ++ [.tx data], ring, at', ?_, List.mem_append_left _ hmem, hat, hgood, hle⟩
    rw [← List.append_assoc, ← hlog]
  cleared e h := by
    obtain ⟨evs, ring, at', hlog, hmem, hat, hgood, hle⟩ := h
    refine ⟨evs ++ [.cleared e.ring], ring, at', ?_, List.mem_append_left _ hmem, hat, hgood, hle⟩
    rw [← List.append_assoc, ← hlog]
    rfl
  found needle at'' e _ h := by
    obtain ⟨evs, ring, at', hlog, hmem, hat, hgood, hle⟩ := h
    refine ⟨evs ++ [.found e.ring at''], ring, at', ?_, List.mem_append_left _ hmem, hat, hgood,
      hle⟩
    rw [← List.append_assoc, ← hlog]
    rfl

/-- A search that succeeds has found its needle in the ring, and drops its line. -/
theorem atWaitFor_eq_some {needle text : List UInt8} {ms : ℕ} {e : Esp α}
    (h : (atWaitFor needle ms e).1 = some text) :
    ∃ i at', findSub needle ((Esp.pass 10)^[i] e).ring = some at' ∧
      text = outLine ((Esp.pass 10)^[i] e).ring at' ∧
      (atWaitFor needle ms e).2 = dropLine at' ((Esp.pass 10)^[i] e) := by
  rw [atWaitFor] at h ⊢
  rcases atWaitLoop_cases needle ((ms + 9) / 10) e with ⟨i, at', -, -, hat, heq⟩ | ⟨-, heq⟩
  · rw [heq] at h ⊢
    exact ⟨i, at', hat, (Option.some.inj h).symm, rfl⟩
  · rw [heq] at h
    cases h

theorem Esp.Stable.iterate_pass {P : Esp α → Prop} (hP : Esp.Stable P) :
    ∀ (i : ℕ) {e : Esp α}, P e → P ((Esp.pass 10)^[i] e)
  | 0, _, h => h
  | i + 1, _, h => hP.iterate_pass i (hP.pass 10 _ h)

/-- **What is found now has come since.** -/
theorem foundSince_of_atWaitFor {good : List UInt8 → Prop} {b e : Esp α} {ms : ℕ}
    {text : List UInt8} (h : b.Elapsed e) (hw : (atWaitFor (ascii "+") ms e).1 = some text)
    (hgood : good text) : b.FoundSince good (atWaitFor (ascii "+") ms e).2 := by
  obtain ⟨i, at', hat, rfl, heq⟩ := atWaitFor_eq_some hw
  obtain ⟨⟨evs, hlog⟩, hle⟩ := (stable_elapsed b).iterate_pass i h
  rw [heq]
  refine ⟨evs ++ [.found ((Esp.pass 10)^[i] e).ring at'], _, at', ?_,
    List.mem_append_right _ List.mem_cons_self, hat, hgood, hle⟩
  rw [← List.append_assoc, hlog]
  rfl

/-- A ping that has not returned goes on before the limit. -/
theorem over_of_pingBody {t0 : UInt32} {pong : Bool} {e : Esp α}
    (h : pingBody t0 (none, pong, e) = none) : 35000 ≤ e.halTick - t0 := by
  by_contra hover
  simp only [pingBody, if_neg hover] at h
  split at h
  · split_ifs at h
  · split at h
    · cases h
    · split_ifs at h

/-- **Since the question, `pong_found` has been earned**, and success with it. -/
structure PingKept (b : Esp α) (r : Option EspErr × Bool × Esp α) : Prop where
  elapsed : b.Elapsed r.2.2
  pong : r.2.1 = true → b.FoundSince (fun text => saysPong text = true) r.2.2
  ok : r.1 = some .ok → r.2.1 = true
  ne_timeout : r.1 ≠ some .timeout

theorem PingKept.step {b : Esp α} {t0 : UInt32} {r r' : Option EspErr × Bool × Esp α}
    (hr : pingBody t0 r = some r') (h : PingKept b r) : PingKept b r' := by
  obtain ⟨_ | res, pong, e'⟩ := r
  · obtain ⟨hs, hp, -, -⟩ := h
    have hs₁ := (stable_elapsed b).atWaitFor (ascii "+") 200 hs
    have hp₁ (hpong : pong = true) := (stable_foundSince _ b).atWaitFor (ascii "+") 200 (hp hpong)
    have hs₂ := (stable_elapsed b).atWaitFor (ascii "OK") 100 hs₁
    have hp₂ (hpong : pong = true) :=
      (stable_foundSince _ b).atWaitFor (ascii "OK") 100 (hp₁ hpong)
    have hs₃ := (stable_elapsed b).atWaitFor (ascii "ERROR") 50 hs₂
    have hp₃ (hpong : pong = true) :=
      (stable_foundSince _ b).atWaitFor (ascii "ERROR") 50 (hp₂ hpong)
    simp only [pingBody] at hr
    split at hr
    · cases hr
    split at hr
    · next text htext =>
      split_ifs at hr with hpong htimeout
      all_goals obtain rfl := Option.some.inj hr
      · exact ⟨hs₁, fun _ => foundSince_of_atWaitFor hs htext hpong, nofun, nofun⟩
      · exact ⟨(stable_elapsed b).atWaitFor _ _ hs₁,
          fun h => (stable_foundSince _ b).atWaitFor _ _ (hp₁ h), nofun, nofun⟩
      · exact ⟨hs₁, hp₁, nofun, nofun⟩
    · split at hr
      · obtain rfl := Option.some.inj hr
        refine ⟨hs₂, hp₂, fun hres => ?_, fun hres => ?_⟩
        · cases pong with
          | true => rfl
          | false => cases hres
        · cases pong with
          | true => cases hres
          | false => cases hres
      · split_ifs at hr
        all_goals obtain rfl := Option.some.inj hr
        · exact ⟨hs₃, hp₃, nofun, nofun⟩
        · exact ⟨hs₃, hp₃, nofun, nofun⟩
  · cases hr

/-- **A ping succeeds only if the module has said so since it was asked**, and it gives up only when
35 seconds have gone by on the clock. -/
theorem answered_of_ping (host : List UInt8) (e : Esp α) :
    ((esp8266Ping host e).1 = .ok →
      e.FoundSince (fun text => saysPong text = true) (esp8266Ping host e).2) ∧
    ((esp8266Ping host e).1 = .timeout →
      35000 ≤ (esp8266Ping host e).2.halTick - (pinging host e).halTick) := by
  have hsince : e.Elapsed (pinging host e) :=
    (stable_elapsed e).atSendLine _ ⟨List.prefix_append _ _, by
      rw [ring_clearRing]
      exact (Nat.zero_add _).le⟩
  have hkept : PingKept e (loop (pingBody (pinging host e).halTick)
      (pollRounds 35000 (pinging host e)) (none, false, pinging host e)) :=
    loop_invariant (fun _ _ hr h => h.step hr) _ _ ⟨hsince, nofun, nofun, nofun⟩
  have hexit := ping_exit (pinging host e)
  simp only [esp8266Ping]
  generalize loop (pingBody (pinging host e).halTick) (pollRounds 35000 (pinging host e))
    (none, false, pinging host e) = r at hexit hkept ⊢
  obtain ⟨res, pong, e'⟩ := r
  cases res with
  | none => exact ⟨nofun, fun _ => over_of_pingBody hexit⟩
  | some res =>
    refine ⟨fun h => hkept.pong (hkept.ok (congrArg some h)), fun h => ?_⟩
    exact absurd (congrArg some h) hkept.ne_timeout

end GrainWarehouse
