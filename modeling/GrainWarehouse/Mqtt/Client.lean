import GrainWarehouse.Esp8266.Commands
import GrainWarehouse.Mqtt.Receive

/-!
# Mqtt/Client — the calls of the client

The public functions of `mqtt.c` over the driver.  `mqtt_connect_broker` waits for the CONNACK in a
loop of `mqtt_loop` calls that ends by the clock (`connectBroker_exit`): a round that handles
nothing lets time go by, and one that handles something uses up bytes.

`Esp.Lasting` gathers what a property must bear for every call to preserve it (`Esp.Lasting.run`).
-/

namespace GrainWarehouse

/-- `mqtt_err_t`. -/
inductive MqttErr
  | ok | timeout | resp | param | state | net
  deriving DecidableEq

/-- `mqtt_client_init`. -/
def clientInit (clientId user pass : List UInt8) (keepaliveSec : UInt16) (e : Esp Client) :
    Esp Client :=
  -- `strncpy` into 64-byte buffers
  let cfg : MqttConfig :=
    { sClientId := clientId.take 63
      sUser := user.take 63
      sPass := pass.take 63
      sKeepalive := (if keepaliveSec ≠ 0 then keepaliveSec else 10).toUInt8 }
  setLastPing e.halTick (setState .idle none { e with up := { e.up with toMqttConfig := cfg } })

/-- `mqtt_loop`. -/
def mqttLoop (e : Esp Client) : Esp Client :=
  let e := esp8266Loop onEspRecv e
  let e :=
    if e.up.sState = .connected then
      let now := e.halTick
      if now - e.up.sLastPingMs ≥ e.up.sKeepalive.toUInt32 * 1000 then
        let sent :=
          match buildPingreq 2 with
          | some buf => (tcpSend e.up.link buf e).2
          | none => e
        setLastPing now sent
      else e
    else e
  note (.returned e.up.sState (linkUp e)) e

/-- One round of the wait for the CONNACK, with what the call has returned, if it has. -/
def brokerBody (start : UInt32) : Option MqttErr × Esp Client → Option (Option MqttErr × Esp Client)
  | (some _, _) => none
  | (none, e) =>
    if 10000 ≤ e.halTick - start then none
    else if e.up.sState = .connected then some (some .ok, e)
    else if e.up.sState = .disconnected then some (some .resp, (tcpClose e.up.link e).2)
    -- the round takes time, and bytes come in meanwhile
    else some (none, mqttLoop (e.pass 0))

/-- The rounds of that loop: more than the clock and the bytes allow. -/
def brokerRounds (e : Esp Client) : ℕ := 10000 * e.todo + 10002

/-- The wait for the CONNACK, and what follows it. -/
def awaitConnack (e : Esp Client) : MqttErr × Esp Client :=
  let r := loop (brokerBody e.halTick) (brokerRounds e) (none, e)
  match r.1 with
  | some err => (err, r.2)
  | none => (.timeout, setState .disconnected none (tcpClose r.2.up.link r.2).2)

/-- The running `mqtt_connect_broker` has its CONNECT out since then, or is over. -/
def setAttempt (attempt : Option ℕ) (e : Esp Client) : Esp Client :=
  { e with up := { e.up with attempt := attempt } }

/-- `mqtt_connect_broker`. -/
def connectBroker (host : List UInt8) (port : UInt16) (e : Esp Client) : MqttErr × Esp Client :=
  if ¬ e.sWifiConnected then (.net, e)
  else
    let tcp := tcpConnect host port e
    if tcp.1 < 0 then (.net, tcp.2)
    else
      let e := { tcp.2 with up := { tcp.2.up with sLinkId := UInt8.ofInt tcp.1 } }
      let e := setState .tcpOpen none e
      match buildConnect 256 e.up.toMqttConfig with
      | none => (.param, e)
      | some buf =>
        let e := setState .connectSent none e
        let sent := tcpSend e.up.link buf e
        if sent.1 ≠ .ok then (.net, setState .disconnected none sent.2)
        else
          -- the data of a send are out when its wait for `SEND OK` begins
          let r := awaitConnack (setAttempt (some (dataOut buf e).txAt) sent.2)
          (r.1, setAttempt none r.2)

/-- `mqtt_disconnect`. -/
def mqttDisconnect (e : Esp Client) : MqttErr × Esp Client :=
  if e.up.sState ≠ .connected ∧ e.up.sState ≠ .tcpOpen ∧ e.up.sState ≠ .connectSent then (.state, e)
  else
    let e :=
      match buildDisconnect 2 with
      | some buf => (tcpSend e.up.link buf e).2
      | none => e
    (.ok, setState .idle none (tcpClose e.up.link e).2)

/-- The next packet id; `0` is left out. -/
def nextPacketId (e : Esp Client) : Esp Client :=
  let next := e.up.sNextPacketId + 1
  { e with up := { e.up with sNextPacketId := if next = 0 then 1 else next } }

/-- The end of the calls that send one packet. -/
def sendPacket (buf : Option (List UInt8)) (e : Esp Client) : MqttErr × Esp Client :=
  match buf with
  | none => (.param, e)
  | some buf =>
    let sent := tcpSend e.up.link buf e
    if sent.1 ≠ .ok then (.net, sent.2) else (.ok, sent.2)

/-- `mqtt_publish`. -/
def mqttPublish (topic payload : List UInt8) (qos : UInt8) (e : Esp Client) :
    MqttErr × Esp Client :=
  if e.up.sState ≠ .connected then (.state, e)
  else
    let qos := if qos > 1 then 1 else qos
    let pid := if qos > 0 then e.up.sNextPacketId else 0
    sendPacket (buildPublish 512 topic payload qos pid) (if qos > 0 then nextPacketId e else e)

/-- `mqtt_subscribe`. -/
def mqttSubscribe (topic : List UInt8) (qos : UInt8) (e : Esp Client) : MqttErr × Esp Client :=
  if e.up.sState ≠ .connected then (.state, e)
  else sendPacket (buildSubscribe 256 topic qos e.up.sNextPacketId) (nextPacketId e)

/-- `mqtt_unsubscribe`. -/
def mqttUnsubscribe (topic : List UInt8) (e : Esp Client) : MqttErr × Esp Client :=
  if e.up.sState ≠ .connected then (.state, e)
  else sendPacket (buildUnsubscribe 256 topic e.up.sNextPacketId) (nextPacketId e)

/-- `mqtt_is_connected`. -/
def mqttIsConnected (e : Esp Client) : Bool := e.up.sState = .connected

/-! ## The wait for the CONNACK ends -/

/-- Behind `esp8266_loop`, `mqtt_loop` only sends. -/
theorem Esp.Sound.mqttLoop {P : Esp Client → Prop} (hP : Esp.Sound P) {e : Esp Client}
    (h : P (esp8266Loop onEspRecv e)) : P (mqttLoop e) := by
  simp only [GrainWarehouse.mqttLoop]
  refine hP.up _ _ ?_
  split_ifs
  · refine hP.up _ _ ?_
    split
    · exact hP.tcpSend _ _ h
    · exact h
  · exact h
  · exact h

/-- A round that handles nothing lets time go by. -/
theorem tick_mqttLoop_pass {e : Esp Client} (hair : e.air = []) (hstate : e.up.sState ≠ .connected)
    (hidle : esp8266Loop onEspRecv (e.pass 0) = e.pass 0) :
    (mqttLoop (e.pass 0)).halTick = e.halTick + 1 ∧ (mqttLoop (e.pass 0)).todo = e.todo := by
  have hpass : e.pass 0 = { e with halTick := e.halTick + 1 } := by
    rw [Esp.pass, hair]
    simp
  have hstate' : ¬ (e.pass 0).up.sState = .connected := by rwa [hpass]
  simp only [mqttLoop, hidle, if_neg hstate']
  rw [hpass]
  exact ⟨rfl, rfl⟩

/-- What is left to a call that has not returned. -/
def brokerLeft (start : UInt32) : Option MqttErr × Esp Client → ℕ
  | (some _, _) => 0
  | (none, e) => 10000 * e.todo + (10000 - (e.halTick - start).toNat) + 1

theorem brokerLeft_lt {start : UInt32} (r r' : Option MqttErr × Esp Client)
    (h : brokerBody start r = some r') : brokerLeft start r' < brokerLeft start r := by
  obtain ⟨_ | res, e⟩ := r
  · simp only [brokerBody] at h
    split_ifs at h with hover hconn hdis
    all_goals cases h
    · exact Nat.succ_pos _
    · exact Nat.succ_pos _
    · have hbefore : (e.halTick - start).toNat < 10000 := by
        rw [UInt32.not_le, UInt32.lt_iff_toNat_lt] at hover
        exact hover
      have hpass := (carried_todo e.todo).pass 0 e le_rfl
      have hloop := (carried_todo (e.pass 0).todo).esp8266Loop sendsOnly_onEspRecv le_rfl
      have hsend := (carried_todo (esp8266Loop onEspRecv (e.pass 0)).todo).mqttLoop le_rfl
      simp only [brokerLeft]
      by_cases hlt : (mqttLoop (e.pass 0)).todo < e.todo
      · omega
      · -- nothing was used up: the script is empty and nothing was handled
        have hair : e.air = [] := by
          by_contra hne
          have hlen := List.length_pos_of_ne_nil hne
          have : (e.pass 0).todo < e.todo := by
            have := pending_pass 0 e
            obtain ⟨t, r, k, bs, -, -, -, heq⟩ := e.pass_eq 0
            rw [Esp.todo, Esp.todo, heq, List.length_tail, ← heq]
            omega
          omega
        have hidle : esp8266Loop onEspRecv (e.pass 0) = e.pass 0 := by
          refine (esp8266Loop_eq_or sendsOnly_onEspRecv (e.pass 0)).resolve_right fun hless => ?_
          omega
        obtain ⟨htick, htodo⟩ := tick_mqttLoop_pass hair hconn hidle
        have hnow : (e.halTick + 1 - start).toNat = (e.halTick - start).toNat + 1 := by
          simp only [UInt32.toNat_sub, UInt32.toNat_add, UInt32.toNat_one] at hbefore ⊢
          omega
        rw [htick, htodo, hnow]
        omega
  · cases h

/-- **`mqtt_connect_broker` leaves its wait by a return or by the clock.** -/
theorem awaitConnack_exit (e : Esp Client) :
    brokerBody e.halTick (loop (brokerBody e.halTick) (brokerRounds e) (none, e)) = none := by
  refine loop_exit brokerLeft_lt _ _ ?_
  rw [brokerLeft, brokerRounds]
  omega

/-! ## Runs -/

/-- A call of the driver or the client, or time that goes by between two of them. -/
inductive Call
  | pause (ms : UInt32)
  | clientInit (clientId user pass : List UInt8) (keepaliveSec : UInt16)
  | setMessageCb
  | connectWifi (ssid pwd : List UInt8)
  | tcpConnect (host : List UInt8) (port : UInt16)
  | tcpSend (linkId : ℤ) (data : List UInt8)
  | connectBroker (host : List UInt8) (port : UInt16)
  | disconnect
  | publish (topic payload : List UInt8) (qos : UInt8)
  | subscribe (topic : List UInt8) (qos : UInt8)
  | unsubscribe (topic : List UInt8)
  | loop

def Call.run : Call → Esp Client → Esp Client
  | pause ms, e => e.pass ms
  | clientInit clientId user pass keepaliveSec, e =>
    GrainWarehouse.clientInit clientId user pass keepaliveSec e
  | setMessageCb, e => { e with up := { e.up with sMsgCb := true } }
  | connectWifi ssid pwd, e => (GrainWarehouse.connectWifi ssid pwd e).2
  | tcpConnect host port, e => (GrainWarehouse.tcpConnect host port e).2
  | tcpSend linkId data, e => (GrainWarehouse.tcpSend linkId data e).2
  | connectBroker host port, e => (GrainWarehouse.connectBroker host port e).2
  | disconnect, e => (mqttDisconnect e).2
  | publish topic payload qos, e => (mqttPublish topic payload qos e).2
  | subscribe topic qos, e => (mqttSubscribe topic qos e).2
  | unsubscribe topic, e => (mqttUnsubscribe topic e).2
  | loop, e => mqttLoop e

/-- The state after a run of calls. -/
def runCalls (calls : List Call) (e : Esp Client) : Esp Client :=
  calls.foldl (fun e c => c.run e) e

/-! ## What the calls preserve -/

/-- A property that `mqtt_loop` preserves, step by step. -/
structure Esp.Looped (P : Esp Client → Prop) : Prop extends Esp.Handled P where
  round : ∀ o e e', parseRound e = some (o, e') → P e → P e'
  line : ∀ e e', lineBody e = some e' → P e → P e'
  returned : ∀ e, P e → P (note (.returned e.up.sState (linkUp e)) e)

namespace Esp.Looped

variable {P : Esp Client → Prop} (hP : Esp.Looped P)

include hP

theorem esp8266Loop {e : Esp Client} (h : P e) : P (esp8266Loop GrainWarehouse.onEspRecv e) := by
  rw [GrainWarehouse.esp8266Loop, urcLines, parseIpdFrames]
  refine loop_invariant hP.line _ _ (loop_invariant (fun e e' hs he => ?_) _ e h)
  rcases parseBody_cases hs with hround | ⟨link, data, e₀, hround, rfl⟩
  · exact hP.round _ e e' hround he
  · exact hP.toHandled.onEspRecv link data (hP.round _ e e₀ hround he)

theorem mqttLoop {e : Esp Client} (h : P e) : P (mqttLoop e) := by
  have hloop := hP.esp8266Loop h
  simp only [GrainWarehouse.mqttLoop]
  refine hP.returned _ ?_
  split_ifs
  · refine hP.lastPing _ _ ?_
    split
    · exact hP.tcpSend _ _ hloop
    · exact hloop
  · exact hloop
  · exact hloop

/-- The wait for the CONNACK preserves what closing a link that is not in use preserves. -/
theorem awaitConnack
    (hclose : ∀ link e, e.up.sState = .disconnected → P e → P (tcpClose link e).2)
    (hsettle : ∀ link e, P e → P (setState .disconnected none (tcpClose link e).2))
    {e : Esp Client} (h : P e) : P (awaitConnack e).2 := by
  have hloop (n : ℕ) : P (loop (brokerBody e.halTick) n (none, e)).2 := by
    refine loop_invariant (P := fun r : Option MqttErr × Esp Client => P r.2)
      (fun r r' hr he => ?_) n _ h
    obtain ⟨_ | err, e'⟩ := r
    · simp only [brokerBody] at hr
      split_ifs at hr with hover hconn hdis
      all_goals cases hr
      · exact he
      · exact hclose _ e' hdis he
      · exact hP.mqttLoop (hP.pass 0 e' he)
    · cases hr
  rw [GrainWarehouse.awaitConnack]
  split
  · exact hloop _
  · exact hsettle _ _ (hloop _)

end Esp.Looped

/-- A property that every call preserves, `mqtt_connect_broker` by a proof of its own. -/
structure Esp.Lasting (P : Esp Client → Prop) : Prop extends Esp.Looped P where
  config : ∀ cfg e, P e → P { e with up := { e.up with toMqttConfig := cfg } }
  packetId : ∀ n e, P e → P { e with up := { e.up with sNextPacketId := n } }
  msgCb : ∀ b e, P e → P { e with up := { e.up with sMsgCb := b } }
  wifi : ∀ up e, P e → P (setWifi up e)
  linkTrue : ∀ e, P e → P (setLink true e)
  idle : ∀ e, P e → P (setState .idle none e)
  close : ∀ link e, P e → P (setState .idle none (GrainWarehouse.tcpClose link e).2)
  connectBroker : ∀ host port e, P e → P (GrainWarehouse.connectBroker host port e).2

namespace Esp.Lasting

variable {P : Esp Client → Prop} (hP : Esp.Lasting P)

include hP

theorem sendPacket (buf : Option (List UInt8)) {e : Esp Client} (h : P e) :
    P (sendPacket buf e).2 := by
  cases buf with
  | none => exact h
  | some buf =>
    simp only [GrainWarehouse.sendPacket]
    split
    · exact hP.tcpSend _ _ h
    · exact hP.tcpSend _ _ h

/-- **Every call preserves a lasting property.** -/
theorem run (c : Call) {e : Esp Client} (h : P e) : P (c.run e) := by
  cases c with
  | pause ms => exact hP.pass ms e h
  | clientInit clientId user pass keepaliveSec =>
    exact hP.lastPing _ _ (hP.idle _ (hP.config _ _ h))
  | setMessageCb => exact hP.msgCb true e h
  | connectWifi ssid pwd => exact hP.toStable.connectWifi hP.wifi ssid pwd h
  | tcpConnect host port => exact hP.toStable.tcpConnect hP.linkTrue host port h
  | tcpSend linkId data => exact hP.tcpSend linkId data h
  | connectBroker host port => exact hP.connectBroker host port e h
  | disconnect =>
    simp only [Call.run, mqttDisconnect]
    split
    · exact h
    · refine hP.close _ _ ?_
      split
      · exact hP.tcpSend _ _ h
      · exact h
  | publish topic payload qos =>
    simp only [Call.run, mqttPublish]
    split
    · exact h
    · have hid (qos : UInt8) : P (if qos > 0 then nextPacketId e else e) := by
        split
        · exact hP.packetId _ _ h
        · exact h
      exact hP.sendPacket _ (hid _)
  | subscribe topic qos =>
    simp only [Call.run, mqttSubscribe]
    split
    · exact h
    · exact hP.sendPacket _ (hP.packetId _ _ h)
  | unsubscribe topic =>
    simp only [Call.run, mqttUnsubscribe]
    split
    · exact h
    · exact hP.sendPacket _ (hP.packetId _ _ h)
  | loop => exact hP.mqttLoop h

/-- **…and so does a run of calls.** -/
theorem runCalls : ∀ (calls : List Call) {e : Esp Client}, P e → P (runCalls calls e)
  | [], _, h => h
  | c :: calls, _, h => runCalls calls (hP.run c h)

end Esp.Lasting

end GrainWarehouse
