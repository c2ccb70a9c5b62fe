import GrainWarehouse.Machinery.Loop
import GrainWarehouse.Esp8266.Device

/-!
# Esp8266/Commands — joining the WiFi, opening and closing the TCP link

`esp8266_connect_wifi`, `esp8266_tcp_connect` and `esp8266_tcp_close` as sequences of waits.
`esp8266_tcp_connect` polls for five answers in turn until fifteen seconds are over; a round that
does not return waits at least 400 ms, so the clock ends the loop (`tcpConnect_exit`).

`Esp.Stable.tcpConnect` and its companions say what the commands preserve: what waiting preserves,
if it is also indifferent to the flag the command sets.
-/

namespace GrainWarehouse

variable {α : Type}

/-- `s_link_state[0] = …`. -/
def setLink (up : Bool) (e : Esp α) : Esp α :=
  { e with sLinkState := Function.update e.sLinkState 0 up }

theorem setLink_self (up : Bool) (e : Esp α) : (setLink up e).sLinkState 0 = up := by
  simp only [setLink, Function.update_self]

/-- `s_wifi_connected = …`. -/
def setWifi (up : Bool) (e : Esp α) : Esp α := { e with sWifiConnected := up }

/-- `esp8266_connect_wifi`, sending the credentials (`ESP8266_USE_STORED_AP` is `0`). -/
def connectWifi (ssid pwd : List UInt8) (e : Esp α) : EspErr × Esp α :=
  let e := atSendLine
    (snprintf 128 (ascii "AT+CWJAP=\"" ++ ssid ++ ascii "\",\"" ++ pwd ++ ascii "\""))
    (clearRing e)
  let refused := atWaitFor (ascii "+CWJAP:") 30000 e
  if refused.1.isSome then (.resp, setWifi false refused.2)
  else
    let got := atWaitFor (ascii "WIFI GOT IP") 8000 refused.2
    -- the `OK` behind it makes no difference to the result
    if got.1.isSome then (.ok, setWifi true (atWaitFor (ascii "OK") 2000 got.2).2)
    else (.timeout, setWifi false got.2)

/-- One round of the loop of `esp8266_tcp_connect`, with the value it has returned, if it has. -/
def connectBody (t0 : UInt32) : Option ℤ × Esp α → Option (Option ℤ × Esp α)
  | (some _, _) => none
  | (none, e) =>
    if 15000 ≤ e.halTick - t0 then none
    else
      let w := atWaitFor (ascii "0,CONNECTED") 200 e
      if w.1.isSome then some (some 0, setLink true w.2)
      else
        let w := atWaitFor (ascii "CONNECT") 200 w.2
        if w.1.isSome then some (some 0, setLink true w.2)
        else
          let w := atWaitFor (ascii "OK") 100 w.2
          -- `CONNECT` may follow `OK`
          if w.1.isSome then some (none, w.2)
          else
            let w := atWaitFor (ascii "ERROR") 100 w.2
            if w.1.isSome then some (some (-1), w.2)
            else
              let w := atWaitFor (ascii "0,CLOSED") 100 w.2
              if w.1.isSome then some (some (-1), w.2) else some (none, w.2)

/-- The state in which `esp8266_tcp_connect` begins to poll. -/
def connecting (host : List UInt8) (port : UInt16) (e : Esp α) : Esp α :=
  atSendLine (snprintf 128
    (ascii "AT+CIPSTART=\"TCP\",\"" ++ host ++ ascii "\"," ++ decimal port.toNat)) (clearRing e)

/-- The rounds of the loop: more than the clock allows. -/
def connectRounds (e : Esp α) : ℕ := 15000 * e.air.length + 15002

/-- `esp8266_tcp_connect`: the link id, or `-1`. -/
def tcpConnect (host : List UInt8) (port : UInt16) (e : Esp α) : ℤ × Esp α :=
  if e.sWifiConnected then
    let e := connecting host port e
    let r := loop (connectBody e.halTick) (connectRounds e) (none, e)
    (r.1.getD (-1), r.2)
  else (-1, e)

/-- `esp8266_tcp_close`. -/
def tcpClose (linkId : ℤ) (e : Esp α) : EspErr × Esp α :=
  if linkId < 0 ∨ (espMaxLinkId : ℤ) ≤ linkId then (.param, e)
  else
    let w := atWaitFor (ascii "OK") 3000 (atSendLine (ascii "AT+CIPCLOSE") e)
    if w.1.isSome then (.ok, setLink false w.2) else (.resp, w.2)

/-! ## The clock -/

/-- From `e` to `e'`, `j` pauses of ten milliseconds have gone by. -/
structure Waited (j : ℕ) (e e' : Esp α) : Prop where
  air : e'.air = e.air.drop j
  tick : e.air = [] → e'.halTick = e.halTick + UInt32.ofNat (10 * j)

theorem Waited.trans {j k : ℕ} {e e' e'' : Esp α} (h : Waited j e e') (h' : Waited k e' e'') :
    Waited (j + k) e e'' where
  air := by rw [h'.air, h.air, List.drop_drop]
  tick hnil := by
    rw [h'.tick (by rw [h.air, hnil, List.drop_nil]), h.tick hnil, UInt32.add_assoc,
      ← UInt32.ofNat_add, Nat.mul_add]

theorem waited_pass (e : Esp α) : Waited 1 e (e.pass 10) where
  air := by
    obtain ⟨t, r, k, bs, -, -, -, heq⟩ := e.pass_eq 10
    rw [heq, List.drop_one]
  tick hnil := by
    rw [Esp.pass, hnil]
    rfl

theorem waited_iterate : ∀ (j : ℕ) (e : Esp α), Waited j e ((Esp.pass 10)^[j] e)
  | 0, e => ⟨rfl, fun _ => by simp⟩
  | j + 1, e => by
      rw [Function.iterate_succ_apply, Nat.add_comm j 1]
      exact (waited_pass e).trans (waited_iterate j _)

/-- **A wait takes at most its time, and all of it when it fails.** -/
theorem waited_atWaitFor (needle : List UInt8) (ms : ℕ) (e : Esp α) :
    ∃ j ≤ (ms + 9) / 10, (¬ (atWaitFor needle ms e).1.isSome → j = (ms + 9) / 10) ∧
      Waited j e (atWaitFor needle ms e).2 := by
  rw [atWaitFor]
  rcases atWaitLoop_cases needle ((ms + 9) / 10) e with ⟨i, at', hi, -, -, heq⟩ | ⟨-, heq⟩
  · rw [heq]
    exact ⟨i, hi.le, fun h => absurd rfl h, ⟨(waited_iterate i e).air, (waited_iterate i e).tick⟩⟩
  · rw [heq]
    exact ⟨_, le_rfl, fun _ => rfl, waited_iterate _ e⟩

/-- A bound on the pauses left before `limit` ticks after `t0`. -/
def timeLeft (limit : ℕ) (t0 : UInt32) (e : Esp α) : ℕ :=
  limit * e.air.length + (limit - (e.halTick - t0).toNat)

/-- **Waiting uses up the time left**, whatever the script says about the clock. -/
theorem timeLeft_lt {limit j : ℕ} {t0 : UInt32} {e e' : Esp α} (hj : 0 < j) (hj' : j ≤ 100)
    (hlimit : limit ≤ 100000) (hbefore : (e.halTick - t0).toNat < limit) (h : Waited j e e') :
    timeLeft limit t0 e' < timeLeft limit t0 e := by
  rcases hair : e.air with _ | ⟨a, air⟩
  · have hsum : (e'.halTick - t0).toNat = (e.halTick - t0).toNat + 10 * j := by
      rw [h.tick hair]
      simp only [UInt32.toNat_sub, UInt32.toNat_add, UInt32.toNat_ofNat'] at hbefore ⊢
      omega
    rw [timeLeft, timeLeft, h.air, hair, List.drop_nil, hsum]
    simp only [List.length_nil, Nat.mul_zero, Nat.zero_add]
    omega
  · have hlen : e'.air.length + 1 ≤ e.air.length := by
      rw [h.air, hair, List.length_drop, List.length_cons]
      omega
    have hmul : limit * e'.air.length + limit ≤ limit * e.air.length := by
      rw [← Nat.mul_succ]
      exact Nat.mul_le_mul_left limit hlen
    rw [timeLeft, timeLeft]
    omega

/-! ## `esp8266_tcp_connect` ends -/

/-- The time left to a call that has not returned. -/
def connectLeft (t0 : UInt32) : Option ℤ × Esp α → ℕ
  | (some _, _) => 0
  | (none, e) => timeLeft 15000 t0 e + 1

/-- A round that does not return waits at least for `0,CONNECTED`. -/
theorem connectLeft_lt {t0 : UInt32} {r r' : Option ℤ × Esp α} (h : connectBody t0 r = some r') :
    connectLeft t0 r' < connectLeft t0 r := by
  obtain ⟨_ | res, e⟩ := r
  · simp only [connectBody] at h
    obtain ⟨j₁, hj₁, hfail, hw₁⟩ := waited_atWaitFor (ascii "0,CONNECTED") 200 e
    set w₁ := atWaitFor (ascii "0,CONNECTED") 200 e
    obtain ⟨j₂, hj₂, -, hw₂⟩ := waited_atWaitFor (ascii "CONNECT") 200 w₁.2
    set w₂ := atWaitFor (ascii "CONNECT") 200 w₁.2
    obtain ⟨j₃, hj₃, -, hw₃⟩ := waited_atWaitFor (ascii "OK") 100 w₂.2
    set w₃ := atWaitFor (ascii "OK") 100 w₂.2
    obtain ⟨j₄, hj₄, -, hw₄⟩ := waited_atWaitFor (ascii "ERROR") 100 w₃.2
    set w₄ := atWaitFor (ascii "ERROR") 100 w₃.2
    obtain ⟨j₅, hj₅, -, hw₅⟩ := waited_atWaitFor (ascii "0,CLOSED") 100 w₄.2
    set w₅ := atWaitFor (ascii "0,CLOSED") 100 w₄.2
    have left {j : ℕ} {e' : Esp α} (hover : ¬ 15000 ≤ e.halTick - t0) (h₁ : ¬ w₁.1.isSome)
        (hj : j ≤ 50) (hw : Waited j w₁.2 e') :
        connectLeft t0 (none, e') < connectLeft t0 (none, e) := by
      have hbefore : (e.halTick - t0).toNat < 15000 := by
        rw [UInt32.not_le, UInt32.lt_iff_toNat_lt] at hover
        exact hover
      have := hfail h₁
      exact Nat.succ_lt_succ (timeLeft_lt (by omega) (by omega) (by omega) hbefore (hw₁.trans hw))
    split_ifs at h with hover h₁ h₂ h₃ h₄ h₅
    all_goals cases h
    · exact Nat.succ_pos _
    · exact Nat.succ_pos _
    · exact left hover h₁ (by omega) (hw₂.trans hw₃)
    · exact Nat.succ_pos _
    · exact Nat.succ_pos _
    · exact left hover h₁ (by omega) (hw₂.trans (hw₃.trans (hw₄.trans hw₅)))
  · cases h

/-- **`esp8266_tcp_connect` leaves its loop by a return or by the clock.** -/
theorem tcpConnect_exit (e : Esp α) :
    connectBody e.halTick (loop (connectBody e.halTick) (connectRounds e) (none, e)) = none :=
  loop_exit (fun _ _ h => connectLeft_lt h) _ _ (by
    rw [connectLeft, timeLeft, connectRounds]
    omega)

/-! ## What the commands preserve -/

namespace Esp.Stable

variable {P : Esp α → Prop} (hP : Esp.Stable P)

include hP

/-- Joining the WiFi preserves a stable property that does not look at the WiFi flag. -/
theorem connectWifi (hwifi : ∀ up e, P e → P (setWifi up e)) (ssid pwd : List UInt8) {e : Esp α}
    (h : P e) : P (connectWifi ssid pwd e).2 := by
  have h₀ := hP.atSendLine
    (snprintf 128 (ascii "AT+CWJAP=\"" ++ ssid ++ ascii "\",\"" ++ pwd ++ ascii "\""))
    (hP.cleared e h)
  have h₁ := hP.atWaitFor (ascii "+CWJAP:") 30000 h₀
  have h₂ := hP.atWaitFor (ascii "WIFI GOT IP") 8000 h₁
  have h₃ := hP.atWaitFor (ascii "OK") 2000 h₂
  simp only [GrainWarehouse.connectWifi]
  split_ifs
  all_goals dsimp only
  · exact hwifi _ _ h₁
  · exact hwifi _ _ h₃
  · exact hwifi _ _ h₂

/-- **Opening the link preserves a stable property that setting the link flag preserves.** -/
theorem tcpConnect (hlink : ∀ e, P e → P (setLink true e)) (host : List UInt8) (port : UInt16)
    {e : Esp α} (h : P e) : P (tcpConnect host port e).2 := by
  simp only [GrainWarehouse.tcpConnect]
  split_ifs
  · refine loop_invariant (P := fun r : Option ℤ × Esp α => P r.2) (fun r r' hr hPr => ?_) _ _
      (hP.atSendLine _ (hP.cleared e h))
    obtain ⟨_ | res, e⟩ := r
    · have h₁ := hP.atWaitFor (ascii "0,CONNECTED") 200 hPr
      have h₂ := hP.atWaitFor (ascii "CONNECT") 200 h₁
      have h₃ := hP.atWaitFor (ascii "OK") 100 h₂
      have h₄ := hP.atWaitFor (ascii "ERROR") 100 h₃
      have h₅ := hP.atWaitFor (ascii "0,CLOSED") 100 h₄
      simp only [connectBody] at hr
      split_ifs at hr
      all_goals cases hr
      · exact hlink _ h₁
      · exact hlink _ h₂
      · exact h₃
      · exact h₄
      · exact h₅
      · exact h₅
    · cases hr
  · exact h

/-- Closing the link preserves a stable property that clearing the link flag preserves. -/
theorem tcpClose (hlink : ∀ e, P e → P (setLink false e)) (linkId : ℤ) {e : Esp α} (h : P e) :
    P (tcpClose linkId e).2 := by
  have h₁ := hP.atWaitFor (ascii "OK") 3000 (hP.atSendLine (ascii "AT+CIPCLOSE") h)
  simp only [GrainWarehouse.tcpClose]
  split_ifs
  all_goals dsimp only
  · exact h
  · exact hlink _ h₁
  · exact h₁

end Esp.Stable

/-- What a round of the loop may return. -/
theorem connectBody_result {t0 : UInt32} {r r' : Option ℤ × Esp α}
    (h : connectBody t0 r = some r') :
    r'.1 = none ∨ r'.1 = some (-1) ∨ r'.1 = some 0 ∧ r'.2.sLinkState 0 = true := by
  obtain ⟨_ | res, e⟩ := r
  · simp only [connectBody] at h
    split_ifs at h
    all_goals cases h
    · exact Or.inr (Or.inr ⟨rfl, setLink_self _ _⟩)
    · exact Or.inr (Or.inr ⟨rfl, setLink_self _ _⟩)
    · exact Or.inl rfl
    · exact Or.inr (Or.inl rfl)
    · exact Or.inr (Or.inl rfl)
    · exact Or.inl rfl
  · cases h

/-- **A link id is returned with the link recorded up**, and it is always `0`. -/
theorem link_of_tcpConnect {host : List UInt8} {port : UInt16} {e : Esp α}
    (h : 0 ≤ (tcpConnect host port e).1) :
    (tcpConnect host port e).1 = 0 ∧ (tcpConnect host port e).2.sLinkState 0 = true := by
  have result (t0 : UInt32) (n : ℕ) (e : Esp α) :
      ∀ res ∈ (loop (connectBody t0) n (none, e)).1,
        res = -1 ∨ res = 0 ∧ (loop (connectBody t0) n (none, e)).2.sLinkState 0 = true := by
    refine loop_invariant (P := fun r : Option ℤ × Esp α =>
      ∀ res ∈ r.1, res = -1 ∨ res = 0 ∧ r.2.sLinkState 0 = true) (fun r r' hr _ res hres => ?_) n _
      fun res hres => by cases hres
    rcases connectBody_result hr with hr' | hr' | ⟨hr', hlink⟩
    · simp [hr'] at hres
    · exact Or.inl (by simpa [hr'] using hres.symm)
    · exact Or.inr ⟨by simpa [hr'] using hres.symm, hlink⟩
  rw [tcpConnect] at h ⊢
  split at h
  · next hwifi =>
    rw [if_pos hwifi]
    dsimp only at h ⊢
    cases hr : (loop (connectBody (connecting host port e).halTick)
        (connectRounds (connecting host port e)) (none, connecting host port e)).1 with
    | none => simp [hr] at h
    | some res =>
      rw [hr, Option.getD_some] at h
      rw [Option.getD_some]
      exact (result _ _ _ res hr).resolve_left (by omega)
  · exact absurd h (by simp)

end GrainWarehouse
