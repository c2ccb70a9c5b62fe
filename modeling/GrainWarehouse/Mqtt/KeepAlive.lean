import GrainWarehouse.Machinery.Clock
import GrainWarehouse.Machinery.Runs
import GrainWarehouse.Mqtt.Session

/-!
# Mqtt/KeepAlive — how far apart the PINGREQs of a connected client are

`mqtt_loop` attempts a PINGREQ when `s_last_ping_ms` is a keep-alive old, and notes the time there;
but `handle_rx` notes the time there too, of each PINGRESP and of each CONNACK it accepts.
`answers` lists the readings of the clock at which a call handles these.

A run is a list of calls that leaves the client connected, with the time of each check; a `Beat`
adds what is to be said about the pings.  An answer puts the next PINGREQ off, so that two attempts
are more than a keep-alive and a loop period apart as soon as an answer comes between them and the
checks fall badly.  **They are not, if no answer has been handled in the last keep-alive whenever a
PINGREQ is due** (`punctual_run`), and elsewhere there is no room for the next check to be late
(`roomLeft_iff_undisturbed`).
-/

namespace GrainWarehouse

/-! ## The answers a call handles -/

/-- The packets on which `handle_rx` notes the time: PINGRESP, and a CONNACK with return code 0. -/
def IsAnswer (pkt payload : List UInt8) : Prop :=
  (pkt.headD 0 >>> 4) &&& 0x0F = ctrlPingresp ∨
    (pkt.headD 0 >>> 4) &&& 0x0F = ctrlConnack ∧ 2 ≤ payload.length ∧ payload[1]? = some 0

instance (pkt payload : List UInt8) : Decidable (IsAnswer pkt payload) :=
  inferInstanceAs (Decidable (_ ∨ _))

/-- The reading of the clock at which a round of `handle_rx` handles an answer, if it does. -/
def rxAnswers : List UInt8 × Esp Client → List UInt32
  | (data, e) =>
    match mqttDecodeLen data.tail with
    | none => []
    | some (rem, remBytes) =>
      let pkt := data.take (1 + remBytes + rem.toNat)
      if IsAnswer pkt (pkt.drop (1 + remBytes)) then [e.halTick] else []

/-- …and those at which a round of `parse_ipd_frames` does. -/
def frameAnswers (e : Esp Client) : List UInt32 :=
  match parseRound e with
  | some (some (link, data), e) =>
    if link ≠ (e.up.sLinkId.toNat : ℤ) then []
    else (rounds rxBody ((data.take 512).length + 1) (data.take 512, e)).flatMap rxAnswers
  | _ => []

/-- **The answers `esp8266_loop` handles**, by the readings of the clock then. -/
def answers (e : Esp Client) : List UInt32 :=
  (rounds (parseBody onEspRecv) (e.todo + 1) e).flatMap frameAnswers

/-- A PUBLISH is answered without a note of the time. -/
theorem lastPing_handlePublish (buf : List UInt8) (e : Esp Client) :
    (handlePublish buf e).up.sLastPingMs = e.up.sLastPingMs := by
  rw [handlePublish]
  split
  · rfl
  · next m _ =>
    have hmsg : (if e.up.sMsgCb then note (.message m.topic m.payload) e else e).up.sLastPingMs =
        e.up.sLastPingMs := by
      split_ifs
      all_goals rfl
    dsimp only
    split
    · rw [up_tcpSend]
      exact hmsg
    · exact hmsg

/-- **An answer sets the time, and no other packet does.** -/
theorem lastPing_handlePacket (pkt payload : List UInt8) (e : Esp Client) :
    (handlePacket pkt payload e).up.sLastPingMs =
      if IsAnswer pkt payload then e.halTick else e.up.sLastPingMs := by
  simp only [handlePacket]
  by_cases hconn : (pkt.headD 0 >>> 4) &&& 0x0F = ctrlConnack
  · have hping : ¬ (pkt.headD 0 >>> 4) &&& 0x0F = ctrlPingresp := by
      rw [hconn]
      decide
    have hans : IsAnswer pkt payload ↔ 2 ≤ payload.length ∧ payload[1]? = some 0 := by
      rw [IsAnswer, or_iff_right hping, and_iff_right hconn]
    rw [if_pos hconn, handleConnack]
    split
    · next hacc => exact (if_pos (hans.mpr hacc)).symm
    · next hrej =>
      obtain ⟨evs, heq⟩ := setState_up .disconnected (some ⟨pkt, e.frameAt, linkUp e⟩)
        (noteConnack ⟨pkt, e.frameAt, linkUp e⟩ e)
      rw [if_neg (mt hans.mp hrej), heq]
      rfl
  · rw [if_neg hconn]
    by_cases hping : (pkt.headD 0 >>> 4) &&& 0x0F = ctrlPingresp
    · have hans : IsAnswer pkt payload := Or.inl hping
      rw [if_pos hping, if_pos hans]
      rfl
    · have hans : ¬ IsAnswer pkt payload := fun h => h.elim hping fun h => hconn h.1
      rw [if_neg hping, if_neg hans]
      split
      · exact lastPing_handlePublish pkt e
      · rfl

/-- A round of `handle_rx` leaves the time of its answer, if it handles one… -/
theorem lastPing_rxBody {s s' : List UInt8 × Esp Client} (h : rxBody s = some s') :
    s'.2.up.sLastPingMs = (rxAnswers s).foldl (fun _ r => r) s.2.up.sLastPingMs := by
  obtain ⟨data, e⟩ := s
  rw [rxBody] at h
  split_ifs at h with hlen
  split at h
  · cases h
  next rem remBytes hdec =>
  dsimp only at h
  split_ifs at h with htotal
  obtain rfl := Option.some.inj h
  rw [lastPing_handlePacket, rxAnswers]
  simp only [hdec]
  split_ifs
  all_goals rfl

/-- …and so does a round of `parse_ipd_frames`… -/
theorem lastPing_parseBody {e e' : Esp Client} (h : parseBody onEspRecv e = some e') :
    e'.up.sLastPingMs = (frameAnswers e).foldl (fun _ r => r) e.up.sLastPingMs := by
  rcases parseBody_cases h with hround | ⟨link, data, e₀, hround, rfl⟩
  · rw [up_parseRound hround, frameAnswers, hround]
    rfl
  · simp only [frameAnswers, hround, onEspRecv]
    split_ifs
    · rw [up_parseRound hround]
      rfl
    · rw [← up_parseRound hround]
      exact view_loop (fun s s' => lastPing_rxBody) _ (data.take 512, e₀)

/-- …and so **the last answer of a call is what it leaves in `s_last_ping_ms`**. -/
theorem lastPing_esp8266Loop (e : Esp Client) :
    (esp8266Loop onEspRecv e).up.sLastPingMs =
      (answers e).foldl (fun _ r => r) e.up.sLastPingMs := by
  rw [esp8266Loop, up_urcLines, parseIpdFrames]
  exact view_loop (fun e e' => lastPing_parseBody) _ e

/-! ## Staying connected -/

/-- Whether an entry of the record is a change of `s_state`. -/
def MqttEv.isState : MqttEv → Bool
  | .state _ _ _ _ => true
  | _ => false

/-- How often `s_state` has changed. -/
def stateChanges (e : Esp Client) : ℕ := e.up.trace.countP MqttEv.isState

theorem stateChanges_note {ev : MqttEv} (hev : ev.isState = false) (e : Esp Client) :
    stateChanges (note ev e) = stateChanges e := by
  have hone : [ev].countP MqttEv.isState = 0 := by
    rw [List.countP_singleton, hev]
    rfl
  rw [stateChanges, note, List.countP_append, hone]
  rfl

theorem setState_self {new : MqttState} {e : Esp Client} (h : e.up.sState = new)
    (k : Option Connack) : setState new k e = e := by
  simp only [setState, if_pos h]
  rw [← h]

theorem stateChanges_setState {new : MqttState} {e : Esp Client} (h : e.up.sState ≠ new)
    (k : Option Connack) : stateChanges (setState new k e) = stateChanges e + 1 := by
  have hone (ev : MqttEv) (hev : ev.isState = true) : [ev].countP MqttEv.isState = 1 := by
    rw [List.countP_singleton, hev]
    rfl
  simp only [stateChanges, setState, if_neg h, note, List.countP_append]
  rw [hone _ rfl]

/-- **At least `n` changes of state, and `Q` as long as there are no more.** -/
def Esp.Remains (Q : Client → Prop) (n : ℕ) (e : Esp Client) : Prop :=
  n ≤ stateChanges e ∧ (stateChanges e = n → Q e.up)

theorem remains_congr {Q : Client → Prop} {n : ℕ} {e e' : Esp Client} (h : e'.up = e.up) :
    e'.Remains Q n ↔ e.Remains Q n := by
  rw [Esp.Remains, Esp.Remains, stateChanges, stateChanges, h]

section Remains

variable {Q : Client → Prop}
  (hQ : ∀ c t met trace, Q c → Q { c with sLastPingMs := t, met := met, trace := trace })

include hQ in
theorem remains_note (ev : MqttEv) (hev : ev.isState = false) {n : ℕ} {e : Esp Client}
    (h : e.Remains Q n) : (note ev e).Remains Q n := by
  rw [Esp.Remains, stateChanges_note hev]
  exact ⟨h.1, fun heq => hQ _ e.up.sLastPingMs e.up.met _ (h.2 heq)⟩

/-- Setting the state is a change or does nothing. -/
theorem remains_setState (new : MqttState) (k : Option Connack) {n : ℕ} {e : Esp Client}
    (h : e.Remains Q n) : (setState new k e).Remains Q n := by
  by_cases hs : e.up.sState = new
  · rwa [setState_self hs]
  · rw [Esp.Remains, stateChanges_setState hs]
    have := h.1
    exact ⟨by omega, fun heq => by omega⟩

include hQ in
theorem looped_remains (n : ℕ) : Esp.Looped (Esp.Remains Q n) :=
  { Esp.stable_up fun (c : Client) _ =>
      n ≤ c.trace.countP MqttEv.isState ∧ (c.trace.countP MqttEv.isState = n → Q c) with
    lastPing := fun t e h => ⟨h.1, fun heq => hQ _ t e.up.met _ (h.2 heq)⟩
    message := fun topic payload _ h => remains_note hQ (.message topic payload) rfl h
    puback := fun packet _ h => remains_note hQ (.puback packet) rfl h
    connack := fun pkt payload e _ _ h => by
      have hmet : (noteConnack ⟨pkt, e.frameAt, linkUp e⟩ e).Remains Q n :=
        ⟨h.1, fun heq => hQ _ e.up.sLastPingMs _ e.up.trace (h.2 heq)⟩
      simp only [handleConnack]
      split
      · have hset := remains_setState .connected (some ⟨pkt, e.frameAt, linkUp e⟩) hmet
        exact ⟨hset.1, fun heq => hQ _ _ _ _ (hset.2 heq)⟩
      · exact remains_setState _ _ hmet
    round := fun o e e' hround h => (remains_congr (up_parseRound hround)).mpr h
    line := fun e e' hline h => (remains_congr (up_lineBody hline)).mpr h
    returned := fun e h => remains_note hQ (.returned e.up.sState (linkUp e)) rfl h }

end Remains

/-- More than `n` changes. -/
theorem remains_false_iff {n : ℕ} {e : Esp Client} :
    e.Remains (fun _ => False) n ↔ n < stateChanges e :=
  ⟨fun h => Nat.lt_of_le_of_ne h.1 fun heq => h.2 heq.symm,
    fun h => ⟨h.le, fun heq => Nat.ne_of_gt h heq⟩⟩

/-- The note of a running attempt is no change. -/
theorem remains_setAttempt (attempt : Option ℕ) {n : ℕ} {e : Esp Client}
    (h : e.Remains (fun _ => False) n) : (setAttempt attempt e).Remains (fun _ => False) n := h

/-- **`mqtt_connect_broker` fails before it touches the client, or changes its state.** -/
theorem connectBroker_changes (host : List UInt8) (port : UInt16) {e : Esp Client}
    (hstate : e.up.sState = .connected) : (connectBroker host port e).2.up = e.up ∨
      stateChanges e < stateChanges (connectBroker host port e).2 := by
  have htcp : (tcpConnect host port e).2.up = e.up :=
    (Esp.stable_up fun c _ => c = e.up).tcpConnect (fun _ h => h) host port rfl
  have hlooped := looped_remains (Q := fun _ => False) (fun _ _ _ _ h => h) (stateChanges e)
  simp only [connectBroker]
  split
  · exact Or.inl rfl
  split
  · exact Or.inl htcp
  refine Or.inr (remains_false_iff.mp ?_)
  set e₁ : Esp Client := { (tcpConnect host port e).2 with
    up := { (tcpConnect host port e).2.up with
      sLinkId := UInt8.ofInt (tcpConnect host port e).1 } } with he₁
  have hopen : (setState .tcpOpen none e₁).Remains (fun _ => False) (stateChanges e) := by
    have hne : e₁.up.sState ≠ .tcpOpen := by
      change (tcpConnect host port e).2.up.sState ≠ .tcpOpen
      rw [htcp, hstate]
      decide
    have hsame : stateChanges e₁ = stateChanges e := by
      change (tcpConnect host port e).2.up.trace.countP MqttEv.isState = _
      rw [htcp]
      rfl
    rw [remains_false_iff, stateChanges_setState hne, hsame]
    exact Nat.lt_succ_self _
  split
  · exact hopen
  next buf _ =>
  have hsent := remains_setState .connectSent none hopen
  generalize setState .connectSent none (setState .tcpOpen none e₁) = e₂ at hsent ⊢
  split
  · exact remains_setState .disconnected none (hlooped.tcpSend _ _ hsent)
  · have hwait := hlooped.awaitConnack
      (fun link e _ h => (remains_congr (up_tcpClose link e)).mpr h)
      (fun link e h => remains_setState .disconnected none
        ((remains_congr (up_tcpClose link e)).mpr h))
      (remains_setAttempt (some (dataOut buf e₂).txAt) (hlooped.tcpSend e₂.up.link buf hsent))
    exact remains_setAttempt none hwait

/-- What the heartbeat of a client depends on. -/
def Client.beat (c : Client) : MqttState × UInt8 × UInt32 := (c.sState, c.sKeepalive, c.sLastPingMs)

/-- **A call of a connected client other than `mqtt_loop` changes its state, or leaves its heartbeat
alone.** -/
theorem beat_run {c : Call} (hloop : c ≠ .loop) {e : Esp Client} (hstate : e.up.sState = .connected)
    (hstays : stateChanges (c.run e) = stateChanges e) : (c.run e).up.beat = e.up.beat := by
  have hstable := Esp.stable_up fun (c : Client) _ => c.beat = e.up.beat
  have hsend (buf : Option (List UInt8)) (e₁ : Esp Client) (h : e₁.up.beat = e.up.beat) :
      (sendPacket buf e₁).2.up.beat = e.up.beat := by
    cases buf with
    | none => exact h
    | some buf =>
      simp only [sendPacket]
      split
      all_goals exact hstable.tcpSend _ _ h
  have hid (qos : UInt8) : (if qos > 0 then nextPacketId e else e).up.beat = e.up.beat := by
    split_ifs
    all_goals rfl
  have hidle (e₁ : Esp Client) (hs : e₁.up.sState = .connected)
      (htrace : e₁.up.trace = e.up.trace) :
      stateChanges (setState .idle none e₁) ≠ stateChanges e := by
    rw [stateChanges_setState (by rw [hs]; decide), stateChanges, stateChanges, htrace]
    exact Nat.succ_ne_self _
  cases c with
  | pause ms => exact hstable.pass ms e rfl
  | clientInit clientId user pass keepaliveSec => exact absurd hstays (hidle _ hstate rfl)
  | setMessageCb => rfl
  | connectWifi ssid pwd => exact hstable.connectWifi (fun _ _ h => h) ssid pwd rfl
  | tcpConnect host port => exact hstable.tcpConnect (fun _ h => h) host port rfl
  | tcpSend linkId data => exact hstable.tcpSend linkId data rfl
  | connectBroker host port =>
    rcases connectBroker_changes host port hstate with hup | hlt
    · exact congrArg Client.beat hup
    · exact absurd hstays (Nat.ne_of_gt hlt)
  | disconnect =>
    refine absurd hstays ?_
    have hgo : ¬ (e.up.sState ≠ .connected ∧ e.up.sState ≠ .tcpOpen ∧
        e.up.sState ≠ .connectSent) := fun h => h.1 hstate
    simp only [Call.run, mqttDisconnect, if_neg hgo]
    refine hidle _ ?_ ?_
    · rw [up_tcpClose]
      exact (congrArg Client.sState (up_tcpSend _ _ e)).trans hstate
    · rw [up_tcpClose]
      exact congrArg Client.trace (up_tcpSend _ _ e)
  | publish topic payload qos =>
    simp only [Call.run, mqttPublish]
    split
    · rfl
    · exact hsend _ _ (hid _)
  | subscribe topic qos =>
    simp only [Call.run, mqttSubscribe]
    split
    · rfl
    · exact hsend _ _ rfl
  | unsubscribe topic =>
    simp only [Call.run, mqttUnsubscribe]
    split
    · rfl
    · exact hsend _ _ rfl
  | loop => exact absurd rfl hloop

/-! ## The heartbeat -/

/-- The keep-alive in milliseconds. -/
def Client.keepaliveMs (c : Client) : ℕ := c.sKeepalive.toNat * 1000

/-- The comparison of `mqtt_loop`. -/
def PingDue (e : Esp Client) : Prop :=
  e.halTick - e.up.sLastPingMs ≥ e.up.sKeepalive.toUInt32 * 1000

instance (e : Esp Client) : Decidable (PingDue e) := inferInstanceAs (Decidable (_ ≥ _))

theorem pingDue_iff (e : Esp Client) :
    PingDue e ↔ e.up.keepaliveMs ≤ (e.halTick - e.up.sLastPingMs).toNat := by
  have hk := e.up.sKeepalive.toNat_lt
  have hms : (e.up.sKeepalive.toUInt32 * 1000).toNat = e.up.keepaliveMs := by
    have h1000 : (1000 : UInt32).toNat = 1000 := rfl
    rw [UInt32.toNat_mul, UInt8.toNat_toUInt32, h1000, Client.keepaliveMs]
    omega
  rw [PingDue, ge_iff_le, UInt32.le_iff_toNat_le, hms]

/-- **Behind `esp8266_loop`, `mqtt_loop` sets the time of a PINGREQ**, and changes no state. -/
theorem beat_mqttLoop {e e₁ : Esp Client} (h : esp8266Loop onEspRecv e = e₁) :
    (mqttLoop e).up.beat = (e₁.up.sState, e₁.up.sKeepalive,
        if e₁.up.sState = .connected ∧ PingDue e₁ then e₁.halTick else e₁.up.sLastPingMs) ∧
      stateChanges (mqttLoop e) = stateChanges e₁ := by
  have hnote (e₂ : Esp Client) :
      (note (.returned e₂.up.sState (linkUp e₂)) e₂).up.beat = e₂.up.beat ∧
        stateChanges (note (.returned e₂.up.sState (linkUp e₂)) e₂) = stateChanges e₂ :=
    ⟨rfl, stateChanges_note rfl e₂⟩
  have hping (e₂ : Esp Client) (hup : e₂.up = e₁.up) : (setLastPing e₁.halTick e₂).up.beat =
        (e₁.up.sState, e₁.up.sKeepalive, e₁.halTick) ∧
      stateChanges (setLastPing e₁.halTick e₂) = stateChanges e₁ := by
    change _ ∧ _ = e₁.up.trace.countP MqttEv.isState
    rw [← hup]
    exact ⟨rfl, rfl⟩
  simp only [mqttLoop, h]
  rw [(hnote _).1, (hnote _).2]
  by_cases hstate : e₁.up.sState = .connected
  · by_cases hdue : PingDue e₁
    · rw [if_pos (And.intro hstate hdue), if_pos hstate, if_pos (show _ ≥ _ from hdue)]
      exact hping _ (up_tcpSend e₁.up.link [ctrlPingreq <<< 4, 0] e₁)
    · rw [if_pos hstate, if_neg (show ¬ _ ≥ _ from hdue), if_neg fun h => hdue h.2]
      exact ⟨rfl, rfl⟩
  · rw [if_neg hstate, if_neg fun h => hstate h.1]
    exact ⟨rfl, rfl⟩

/-- Whether a call is one of `mqtt_loop`. -/
def Call.isLoop : Call → Bool
  | .loop => true
  | _ => false

instance (c : Call) : Decidable (c = .loop) :=
  decidable_of_iff (c.isLoop = true) (by cases c <;> simp [Call.isLoop])

/-- A client, and what is to be said about its heartbeat. -/
structure Beat where
  esp : Esp Client
  /-- When `mqtt_loop` last attempted a PINGREQ. -/
  sent : Option ℕ
  /-- When it last asked for the time. -/
  checked : Option ℕ
  /-- What the clock showed at the last answer since that attempt. -/
  heard : Option UInt32

theorem foldl_last : ∀ (rs : List UInt32) (t : UInt32),
    rs.foldl (fun _ r => r) t = rs.getLast?.getD t
  | [], _ => rfl
  | r :: rs, t => by rw [List.foldl_cons, foldl_last rs r, List.getLast?_cons, Option.getD_some]

namespace Beat

/-- A run begins. -/
def start (e : Esp Client) : Beat := ⟨e, none, none, none⟩

/-- The last answer since the last attempt, at the check of a call of `mqtt_loop`. -/
def lastAnswer (s : Beat) : Option UInt32 := (answers s.esp).getLast?.or s.heard

/-- **A call**, and the time at which it asks for the time, if it does: `mqtt_loop` does once
`esp8266_loop` is over, and is due to send or not. -/
def next (s : Beat) (c : Call × ℕ) : Beat :=
  if c.1 = .loop then
    let e := esp8266Loop onEspRecv s.esp
    if e.up.sState = .connected ∧ PingDue e then ⟨mqttLoop s.esp, some c.2, some c.2, none⟩
    else ⟨mqttLoop s.esp, s.sent, some c.2, s.lastAnswer⟩
  else { s with esp := c.1.run s.esp }

/-- **A step of a run in which the client stays connected** and checks every `d` milliseconds: the
clock shows the time, as far as 32 bits go. -/
structure InRun (d : ℕ) (s : Beat) (c : Call × ℕ) : Prop where
  stays : stateChanges (c.1.run s.esp) = stateChanges s.esp
  clock : c.1 = .loop → (esp8266Loop onEspRecv s.esp).halTick = tick c.2
  often : c.1 = .loop → ∀ u ∈ s.checked, u ≤ c.2 ∧ c.2 ≤ u + d

/-- **No check finds the last attempt more than a keep-alive and `d` milliseconds ago**, be it that
of the next attempt or not. -/
def Punctual (d : ℕ) (s : Beat) (c : Call × ℕ) : Prop :=
  c.1 = .loop → ∀ a ∈ s.sent, c.2 ≤ a + s.esp.up.keepaliveMs + d

/-- **Where more than a keep-alive has gone by since the last attempt, no answer has been handled in
the last keep-alive.** -/
def Undisturbed (s : Beat) (c : Call × ℕ) : Prop :=
  c.1 = .loop → ∀ a ∈ s.sent, a + s.esp.up.keepaliveMs < c.2 →
    ∀ r ∈ s.lastAnswer, s.esp.up.keepaliveMs ≤ (tick c.2 - r).toNat

/-- The next check may come `d` milliseconds later and still be punctual. -/
def RoomLeft (d : ℕ) (s : Beat) (c : Call × ℕ) : Prop :=
  c.1 = .loop → (s.next c).Punctual d (.loop, c.2 + d)

/-- What holds throughout a run: the client is connected, its keep-alive is `k`, and
`s_last_ping_ms` is the time of the last attempt, or of the last answer since. -/
structure Kept (k : UInt8) (s : Beat) : Prop where
  connected : s.esp.up.sState = .connected
  keepalive : s.esp.up.sKeepalive = k
  last : ∀ a ∈ s.sent, s.esp.up.sLastPingMs = s.heard.getD (tick a)

variable {k : UInt8} {d : ℕ} {s : Beat}

/-- At the check of a call of `mqtt_loop`, the client is still connected. -/
theorem Kept.check (h : s.Kept k) (hstays : stateChanges (mqttLoop s.esp) = stateChanges s.esp) :
    (esp8266Loop onEspRecv s.esp).up.sState = .connected ∧
      (esp8266Loop onEspRecv s.esp).up.sKeepalive = k := by
  have hlooped := looped_remains (Q := fun c => c.sState = .connected ∧ c.sKeepalive = k)
    (fun _ _ _ _ h => h) (stateChanges s.esp)
  have hremains := hlooped.esp8266Loop ⟨le_rfl, fun _ => ⟨h.connected, h.keepalive⟩⟩
  exact hremains.2 ((beat_mqttLoop rfl).2.symm.trans hstays)

/-- …and `s_last_ping_ms` is that of the last attempt or answer, those of this call included. -/
theorem Kept.last_check (h : s.Kept k) {a : ℕ} (ha : a ∈ s.sent) :
    (esp8266Loop onEspRecv s.esp).up.sLastPingMs = s.lastAnswer.getD (tick a) := by
  rw [lastPing_esp8266Loop, foldl_last, h.last a ha, lastAnswer]
  cases (answers s.esp).getLast?
  all_goals rfl

theorem InRun.stays_loop {c : Call × ℕ} (hc : s.InRun d c) (hloop : c.1 = .loop) :
    stateChanges (mqttLoop s.esp) = stateChanges s.esp := by
  have hstays := hc.stays
  rwa [hloop] at hstays

/-- A check that attempts a PINGREQ… -/
theorem next_of_due {c : Call × ℕ} (hloop : c.1 = .loop)
    (hconn : (esp8266Loop onEspRecv s.esp).up.sState = .connected)
    (hdue : PingDue (esp8266Loop onEspRecv s.esp)) :
    s.next c = ⟨mqttLoop s.esp, some c.2, some c.2, none⟩ := by
  rw [next, if_pos hloop]
  exact if_pos ⟨hconn, hdue⟩

/-- …and one that does not. -/
theorem next_of_not_due {c : Call × ℕ} (hloop : c.1 = .loop)
    (hdue : ¬ PingDue (esp8266Loop onEspRecv s.esp)) :
    s.next c = ⟨mqttLoop s.esp, s.sent, some c.2, s.lastAnswer⟩ := by
  rw [next, if_pos hloop]
  exact if_neg fun h => hdue h.2

/-- **What holds throughout a run is kept by each step of it.** -/
theorem Kept.next {c : Call × ℕ} (h : s.Kept k) (hc : s.InRun d c) : (s.next c).Kept k := by
  by_cases hloop : c.1 = .loop
  · obtain ⟨hconn, hkeep⟩ := h.check (hc.stays_loop hloop)
    have hbeat := (beat_mqttLoop (e := s.esp) rfl).1
    rw [Client.beat, Prod.mk.injEq, Prod.mk.injEq] at hbeat
    obtain ⟨hstate, hkeep', hlast⟩ := hbeat
    rw [hconn] at hstate
    rw [hkeep] at hkeep'
    by_cases hdue : PingDue (esp8266Loop onEspRecv s.esp)
    · rw [if_pos ⟨hconn, hdue⟩, hc.clock hloop] at hlast
      rw [next_of_due hloop hconn hdue]
      refine ⟨hstate, hkeep', fun a ha => ?_⟩
      obtain rfl := Option.some.inj ha
      exact hlast
    · rw [if_neg fun hd => hdue hd.2] at hlast
      rw [next_of_not_due hloop hdue]
      exact ⟨hstate, hkeep', fun a ha => hlast.trans (h.last_check ha)⟩
  · have hbeat := beat_run hloop h.connected hc.stays
    simp only [Client.beat, Prod.mk.injEq] at hbeat
    obtain ⟨hstate, hkeep, hlast⟩ := hbeat
    rw [Beat.next, if_neg hloop]
    exact ⟨hstate.trans h.connected, hkeep.trans h.keepalive,
      fun a ha => hlast.trans (h.last a ha)⟩

/-- **What a check does**: it attempts a PINGREQ if one is due, and not otherwise. -/
theorem Kept.sent_next {c : Call × ℕ} (h : s.Kept k) (hc : s.InRun d c) (hloop : c.1 = .loop) :
    (s.next c).checked = some c.2 ∧
      (PingDue (esp8266Loop onEspRecv s.esp) ∧ (s.next c).sent = some c.2 ∨
        ¬ PingDue (esp8266Loop onEspRecv s.esp) ∧ (s.next c).sent = s.sent) := by
  by_cases hdue : PingDue (esp8266Loop onEspRecv s.esp)
  · rw [next_of_due hloop (h.check (hc.stays_loop hloop)).1 hdue]
    exact ⟨rfl, Or.inl ⟨hdue, rfl⟩⟩
  · rw [next_of_not_due hloop hdue]
    exact ⟨rfl, Or.inr ⟨hdue, rfl⟩⟩

theorem Kept.keepaliveMs (h : s.Kept k) : s.esp.up.keepaliveMs = k.toNat * 1000 := by
  rw [Client.keepaliveMs, h.keepalive]

/-- **When a PINGREQ is due**: `s_last_ping_ms`, as the check finds it, is a keep-alive old. -/
theorem Kept.due_iff (h : s.Kept k) {c : Call × ℕ} (hc : s.InRun d c) (hloop : c.1 = .loop) :
    PingDue (esp8266Loop onEspRecv s.esp) ↔
      k.toNat * 1000 ≤ (tick c.2 - (esp8266Loop onEspRecv s.esp).up.sLastPingMs).toNat := by
  rw [pingDue_iff, Client.keepaliveMs, (h.check (hc.stays_loop hloop)).2, hc.clock hloop]

/-- The last check was at most a keep-alive after the last attempt. -/
def Fresh (s : Beat) : Prop :=
  ∀ a ∈ s.sent, ∃ u ∈ s.checked, a ≤ u ∧ u ≤ a + s.esp.up.keepaliveMs

/-- The check that follows is punctual then. -/
theorem Fresh.punctual (h : s.Fresh) {c : Call × ℕ} (hc : s.InRun d c) : s.Punctual d c := by
  intro hloop a ha
  obtain ⟨u, hu, -, hle⟩ := h a ha
  have := (hc.often hloop u hu).2
  omega

/-- **A check keeps room for the next one exactly where it is undisturbed**: there a PINGREQ is
attempted once a keep-alive is over, and elsewhere it is put off. -/
theorem Fresh.roomLeft_iff (h : s.Fresh) (hkept : s.Kept k) (hd : k.toNat * 1000 + d < 2 ^ 32)
    {c : Call × ℕ} (hc : s.InRun d c) : s.RoomLeft d c ↔ s.Undisturbed c := by
  have hms := hkept.keepaliveMs
  have hms' := (hkept.next hc).keepaliveMs
  constructor
  · intro hroom hloop a ha hlate r hr
    by_contra hyoung
    have hnot : ¬ PingDue (esp8266Loop onEspRecv s.esp) := by
      rw [hkept.due_iff hc hloop, hkept.last_check ha, hr]
      rwa [hms] at hyoung
    rcases (hkept.sent_next hc hloop).2 with ⟨hdue, -⟩ | ⟨-, hsent⟩
    · exact hnot hdue
    have := hroom hloop rfl a (hsent ▸ ha)
    rw [hms'] at this
    omega
  · intro hcalm hloop _ a ha
    suffices hle : c.2 ≤ a + k.toNat * 1000 by
      rw [hms']
      omega
    rcases (hkept.sent_next hc hloop).2 with ⟨-, hsent⟩ | ⟨hnot, hsent⟩
    · rw [hsent] at ha
      obtain rfl := Option.some.inj ha
      exact Nat.le_add_right _ _
    · rw [hsent] at ha
      by_contra hlate
      refine hnot ((hkept.due_iff hc hloop).mpr ?_)
      rw [hkept.last_check ha]
      cases hans : s.lastAnswer with
      | some r =>
        rw [← hms]
        exact hcalm hloop a ha (by omega) r hans
      | none =>
        -- nobody has answered, and the counter has not gone round since
        obtain ⟨u, hu, hau, hle⟩ := h a ha
        obtain ⟨huc, hcu⟩ := hc.often hloop u hu
        rw [hms] at hle
        rw [Option.getD_none, toNat_tick_sub (by omega) (by omega)]
        omega

/-- The last check stays within a keep-alive of the last attempt then. -/
theorem Fresh.next (h : s.Fresh) (hkept : s.Kept k) {c : Call × ℕ} (hc : s.InRun d c)
    (hroom : s.RoomLeft d c) : (s.next c).Fresh := by
  have hms := hkept.keepaliveMs
  have hms' := (hkept.next hc).keepaliveMs
  by_cases hloop : c.1 = .loop
  · intro a ha
    have hle : c.2 + d ≤ a + (s.next c).esp.up.keepaliveMs + d := hroom hloop rfl a ha
    obtain ⟨hchecked, hsent⟩ := hkept.sent_next hc hloop
    refine ⟨c.2, hchecked, ?_, by omega⟩
    rcases hsent with ⟨-, hsent⟩ | ⟨-, hsent⟩
    · rw [hsent] at ha
      exact (Option.some.inj ha).ge
    · rw [hsent] at ha
      obtain ⟨u, hu, hau, -⟩ := h a ha
      exact hau.trans (hc.often hloop u hu).1
  · intro a ha
    rw [hms']
    rw [Beat.next, if_neg hloop] at ha ⊢
    obtain ⟨u, hu, hau, hle⟩ := h a ha
    rw [hms] at hle
    exact ⟨u, hu, hau, hle⟩

/-- A run begins with a client that is connected and has not pinged yet. -/
theorem kept_start {e : Esp Client} (hstate : e.up.sState = .connected) :
    (start e).Kept e.up.sKeepalive ∧ (start e).Fresh :=
  ⟨⟨hstate, rfl, fun _ ha => by cases ha⟩, fun _ ha => by cases ha⟩

section Run

variable {e : Esp Client} {cs : List (Call × ℕ)}

/-- **Exactly undisturbed runs leave room everywhere**: up to each of its checks, and whatever comes
after it, the next one is in time. -/
theorem roomLeft_iff_undisturbed (hstate : e.up.sState = .connected)
    (hd : e.up.keepaliveMs + d < 2 ^ 32) (hrun : EachStep Beat.next (InRun d) (start e) cs) :
    EachStep Beat.next (RoomLeft d) (start e) cs ↔
      EachStep Beat.next Undisturbed (start e) cs := by
  have hinv (s : Beat) (c : Call × ℕ) (hs : s.Kept e.up.sKeepalive ∧ s.Fresh)
      (hc : s.InRun d c ∧ s.RoomLeft d c) :
      (s.next c).Kept e.up.sKeepalive ∧ (s.next c).Fresh :=
    ⟨hs.1.next hc.1, hs.2.next hs.1 hc.1 hc.2⟩
  constructor
  · intro hroom
    exact EachStep.imp hinv (fun s c hs hc => (hs.2.roomLeft_iff hs.1 hd hc.1).mp hc.2) cs
      (kept_start hstate) (hrun.and hroom)
  · intro hcalm
    refine EachStep.imp (C := fun s c => s.InRun d c ∧ s.Undisturbed c)
      (fun s c hs hc => hinv s c hs ⟨hc.1, ?_⟩) (fun s c hs hc => ?_) cs (kept_start hstate)
      (hrun.and hcalm)
    all_goals exact (hs.2.roomLeft_iff hs.1 hd hc.1).mpr hc.2

/-- **In every run in which the client stays connected and checks every `d` milliseconds, no check
finds the last attempt more than a keep-alive and `d` milliseconds ago**, if each check is
undisturbed. -/
theorem punctual_run (hstate : e.up.sState = .connected) (hd : e.up.keepaliveMs + d < 2 ^ 32)
    (hrun : EachStep Beat.next (InRun d) (start e) cs)
    (hcalm : EachStep Beat.next Undisturbed (start e) cs) :
    EachStep Beat.next (Punctual d) (start e) cs := by
  have hroom := (roomLeft_iff_undisturbed hstate hd hrun).mpr hcalm
  exact EachStep.imp (P := fun s => s.Kept e.up.sKeepalive ∧ s.Fresh)
    (fun s c hs hc => ⟨hs.1.next hc.1, hs.2.next hs.1 hc.1 hc.2⟩)
    (fun s c hs hc => hs.2.punctual hc.1) cs (kept_start hstate) (hrun.and hroom)

end Run

/-! ## Two runs -/

instance (d : ℕ) (s : Beat) (c : Call × ℕ) : Decidable (s.InRun d c) :=
  decidable_of_iff (stateChanges (c.1.run s.esp) = stateChanges s.esp ∧
    (c.1 = .loop → (esp8266Loop onEspRecv s.esp).halTick = tick c.2) ∧
    (c.1 = .loop → ∀ u ∈ s.checked, u ≤ c.2 ∧ c.2 ≤ u + d))
    ⟨fun h => ⟨h.1, h.2.1, h.2.2⟩, fun h => ⟨h.stays, h.clock, h.often⟩⟩

instance (d : ℕ) (s : Beat) (c : Call × ℕ) : Decidable (s.Punctual d c) :=
  inferInstanceAs (Decidable (c.1 = .loop → ∀ a ∈ s.sent, c.2 ≤ a + s.esp.up.keepaliveMs + d))

instance (s : Beat) (c : Call × ℕ) : Decidable (s.Undisturbed c) :=
  inferInstanceAs (Decidable (c.1 = .loop → ∀ a ∈ s.sent, a + s.esp.up.keepaliveMs < c.2 →
    ∀ r ∈ s.lastAnswer, s.esp.up.keepaliveMs ≤ (tick c.2 - r).toNat))

/-- A connected client with a keep-alive of ten seconds; the module takes its first PINGREQ, and two
seconds later has these bytes for it. -/
def pinger (bytes : List UInt8) : Esp Client :=
  Esp.boot { Client.boot with sState := .connected }
    [⟨0, []⟩, ⟨0, []⟩, ⟨0, ascii ">"⟩, ⟨0, []⟩, ⟨0, ascii "SEND OK\r\n"⟩, ⟨0, []⟩, ⟨0, bytes⟩]

/-- A PINGRESP, as the module hands it on. -/
def pingresp : List UInt8 := ascii "+IPD,2:" ++ [0xD0, 0x00]

/-- A check each second, from the tenth to that before the `n`-th. -/
def pingRun (n : ℕ) : List (Call × ℕ) :=
  (.pause 10000, 0) :: (.loop, 10000) :: (.pause 980, 0) :: (.loop, 11000) ::
    (List.range (n - 12)).flatMap fun i => [(.pause 1000, 0), (.loop, 12000 + 1000 * i)]

/-- Nobody answers: the next attempt is made ten seconds later. -/
theorem punctual_run_silent :
    EachStep Beat.next (Punctual 1000) (start (pinger [])) (pingRun 21) :=
  punctual_run rfl (by decide) (by decide +kernel) (by decide +kernel)

/-- A PINGRESP comes two seconds after its PINGREQ: the next attempt is made ten seconds after
that. -/
theorem pingresp_late :
    EachStep Beat.next (InRun 1000) (start (pinger pingresp)) (pingRun 23) ∧
      (runFrom Beat.next (start (pinger pingresp)) (pingRun 22)).sent = some 10000 ∧
      (runFrom Beat.next (start (pinger pingresp)) (pingRun 23)).sent = some 22000 ∧
      ¬ EachStep Beat.next (Punctual 1000) (start (pinger pingresp)) (pingRun 23) := by
  decide +kernel

end Beat

end GrainWarehouse
