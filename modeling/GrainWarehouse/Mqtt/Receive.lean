import GrainWarehouse.Esp8266.Delivery
import GrainWarehouse.Mqtt.Length

/-!
# Mqtt/Receive — what a TCP segment does to the client

`on_esp_recv` hands each segment to `handle_rx`, which takes whole packets off its front as long as
it finds one (`rxBody`) and forgets the rest: nothing is kept from one segment to the next.

The client is the layer above the driver, so its functions act on `Esp Client`.  `trace` records
what it does to the world: changes of `s_state`, messages handed on, PUBACKs.  `met` records the
CONNACKs that reach it, each with the state it meets.

The driver calls `on_esp_recv` once `mqtt_client_init` has registered it.  Here it is registered from
the start, so the runs that matter are those of a client that has been initialised.
-/

namespace GrainWarehouse

/-- `mqtt_state_t`. -/
inductive MqttState
  | idle | tcpOpen | connectSent | connected | disconnected
  deriving DecidableEq

/-- A CONNACK as it was met: the packet, where its frame began, and the link flag then. -/
structure Connack where
  packet : List UInt8
  frameAt : ℕ
  linkUp : Bool
  deriving DecidableEq

/-- A CONNACK, with the state it meets, and since when the CONNECT of the running
`mqtt_connect_broker` is out. -/
structure Met where
  state : MqttState
  connack : Connack
  attempt : Option ℕ
  deriving DecidableEq

/-- What the client does. -/
inductive MqttEv
  /-- `s_state` changes, on a CONNACK or by a call; `attempt` tells since when the CONNECT of the
  running `mqtt_connect_broker` is out. -/
  | state (old new : MqttState) (connack : Option Connack) (attempt : Option ℕ)
  /-- `s_msg_cb` is called. -/
  | message (topic payload : List UInt8)
  /-- A PUBACK is sent. -/
  | puback (packet : List UInt8)
  /-- `mqtt_loop` returns, in this state and with this link flag. -/
  | returned (state : MqttState) (linkUp : Bool)
  deriving DecidableEq

/-- The static state of `mqtt.c`, with the record of its run. -/
structure Client extends MqttConfig where
  sState : MqttState
  sLinkId : UInt8
  sLastPingMs : UInt32
  sNextPacketId : UInt16
  /-- Whether `s_msg_cb` is set. -/
  sMsgCb : Bool
  /-- How many bytes had come when the CONNECT of the running `mqtt_connect_broker` was out. -/
  attempt : Option ℕ
  met : List Met
  trace : List MqttEv

/-- The client after reset. -/
def Client.boot : Client where
  sClientId := []
  sUser := []
  sPass := []
  sKeepalive := 10
  sState := .idle
  sLinkId := 0
  sLastPingMs := 0
  sNextPacketId := 1
  sMsgCb := false
  attempt := none
  met := []
  trace := []

/-- `s_link_id`, passed as an `int8_t`. -/
def Client.link (c : Client) : ℤ := c.sLinkId.toInt8.toInt

/-- `s_link_state[s_link_id]`. -/
def linkUp (e : Esp Client) : Bool := e.sLinkState (Fin.ofNat espMaxLinkId e.up.sLinkId.toNat)

/-- An entry of the record. -/
def note (ev : MqttEv) (e : Esp Client) : Esp Client :=
  { e with up := { e.up with trace := e.up.trace ++ [ev] } }

/-- `s_state = …`, on a CONNACK or not; only a change is worth an entry. -/
def setState (new : MqttState) (connack : Option Connack) (e : Esp Client) : Esp Client :=
  let noted :=
    if e.up.sState = new then e else note (.state e.up.sState new connack e.up.attempt) e
  { noted with up := { noted.up with sState := new } }

/-- `s_last_ping_ms = …`. -/
def setLastPing (t : UInt32) (e : Esp Client) : Esp Client :=
  { e with up := { e.up with sLastPingMs := t } }

/-! ## `handle_publish` -/

/-- What `handle_publish` reads out of a PUBLISH. -/
structure Publish where
  qos : UInt8
  topic : List UInt8
  payload : List UInt8
  pid : UInt16
  deriving DecidableEq

/-- The packet id of a PUBLISH, which only QoS above 0 has, and what follows it. -/
def publishPid (qos : UInt8) (rest : List UInt8) : Option (UInt16 × List UInt8) :=
  if qos > 0 then
    match rest with
    | hi :: lo :: rest => some (readU16 hi lo, rest)
    | _ => none
  else some (0, rest)

/-- The reading half of `handle_publish`; `none` where it returns early. -/
def parsePublish (buf : List UInt8) : Option Publish :=
  if buf.length < 4 then none
  else
    let qos := ((buf.headD 0 &&& 0x0F) >>> 1) &&& 0x03
    match mqttDecodeLen buf.tail with
    | none => none
    | some (rem, remBytes) =>
      -- from `p` to `end`
      match (buf.take (1 + remBytes + rem.toNat)).drop (1 + remBytes) with
      | hi :: lo :: rest =>
        let tn := (readU16 hi lo).toNat
        if rest.length < tn then none
        else
          -- `s_cur_topic` holds 127 characters, and `p` moves on by as many
          let tn := if tn ≥ 128 then 127 else tn
          (publishPid qos (rest.drop tn)).map fun (pid, payload) =>
            ⟨qos, rest.take tn, payload, pid⟩
      | _ => none

/-- The answer to a PUBLISH with QoS 1. -/
def pubackPacket (pid : UInt16) : List UInt8 := [ctrlPuback <<< 4, 2] ++ writeU16 pid

/-- `handle_publish`. -/
def handlePublish (buf : List UInt8) (e : Esp Client) : Esp Client :=
  match parsePublish buf with
  | none => e
  | some m =>
    let e := if e.up.sMsgCb then note (.message m.topic m.payload) e else e
    if m.qos = 1 then
      (tcpSend e.up.link (pubackPacket m.pid) (note (.puback (pubackPacket m.pid)) e)).2
    else e

/-! ## `handle_rx` -/

/-- A CONNACK is met. -/
def noteConnack (k : Connack) (e : Esp Client) : Esp Client :=
  { e with up := { e.up with met := e.up.met ++ [⟨e.up.sState, k, e.up.attempt⟩] } }

/-- The CONNACK branch: a return code 0 makes the client connected. -/
def handleConnack (pkt payload : List UInt8) (e : Esp Client) : Esp Client :=
  let k : Connack := ⟨pkt, e.frameAt, linkUp e⟩
  let e := noteConnack k e
  if 2 ≤ payload.length ∧ payload[1]? = some 0 then
    setLastPing e.halTick (setState .connected (some k) e)
  else setState .disconnected (some k) e

/-- The `switch` over the type of a whole packet. -/
def handlePacket (pkt payload : List UInt8) (e : Esp Client) : Esp Client :=
  let type := (pkt.headD 0 >>> 4) &&& 0x0F
  if type = ctrlConnack then handleConnack pkt payload e
  else if type = ctrlPingresp then setLastPing e.halTick e
  else if type = ctrlPublish then handlePublish pkt e
  else e

/-- One round of the loop of `handle_rx`. -/
def rxBody : List UInt8 × Esp Client → Option (List UInt8 × Esp Client)
  | (data, e) =>
    if data.length < 2 then none
    else
      match mqttDecodeLen data.tail with
      | none => none
      | some (rem, remBytes) =>
        let total := 1 + remBytes + rem.toNat
        -- incomplete
        if total > data.length then none
        else
          some (data.drop total,
            handlePacket (data.take total) ((data.take total).drop (1 + remBytes)) e)

/-- `handle_rx`. -/
def handleRx (data : List UInt8) (e : Esp Client) : Esp Client :=
  (loop rxBody (data.length + 1) (data, e)).2

/-- `on_esp_recv`. -/
def onEspRecv : RecvCb Client := fun linkId data e =>
  if linkId ≠ (e.up.sLinkId.toNat : ℤ) then e else handleRx (data.take 512) e

/-! ## What receiving preserves -/

/-- A whole packet, and what its remaining length counts. -/
def Whole (pkt payload : List UInt8) : Prop :=
  ∃ rem n, mqttDecodeLen pkt.tail = some (rem, n) ∧ pkt.length = 1 + n + rem.toNat ∧
    payload = pkt.drop (1 + n)

/-- A round of `handle_rx` takes a whole packet off the front, and handles it. -/
theorem rxBody_cases {data data' : List UInt8} {e e' : Esp Client}
    (h : rxBody (data, e) = some (data', e')) :
    ∃ pkt payload, Whole pkt payload ∧ data = pkt ++ data' ∧ 0 < pkt.length ∧
      e' = handlePacket pkt payload e := by
  rw [rxBody] at h
  split_ifs at h with hlen
  split at h
  · cases h
  next rem remBytes hdec =>
  dsimp only at h
  split_ifs at h with htotal
  obtain ⟨rfl, rfl⟩ := Prod.mk.inj (Option.some.inj h)
  have hpkt : (data.take (1 + remBytes + rem.toNat)).length = 1 + remBytes + rem.toNat := by
    rw [List.length_take]
    omega
  refine ⟨_, _, ⟨rem, remBytes, ?_, hpkt, rfl⟩, (List.take_append_drop _ _).symm, by omega, rfl⟩
  obtain ⟨b, data, rfl⟩ : ∃ b d, data = b :: d :=
    List.exists_cons_of_ne_nil (by rintro rfl; exact hlen (by decide))
  have htake : 1 + remBytes + rem.toNat = remBytes + rem.toNat + 1 := by omega
  rw [htake, List.take_succ_cons, List.tail_cons]
  exact mqttDecodeLen_take hdec (Nat.le_add_right _ _)

/-- **A whole packet at the front of a segment is taken off and handled.** -/
theorem rxBody_whole {pkt payload : List UInt8} (hw : Whole pkt payload) (rest : List UInt8)
    (e : Esp Client) : rxBody (pkt ++ rest, e) = some (rest, handlePacket pkt payload e) := by
  obtain ⟨rem, n, hdec, hlen, rfl⟩ := hw
  obtain ⟨b, tail, rfl⟩ : ∃ b d, pkt = b :: d :=
    List.exists_cons_of_ne_nil (by rintro rfl; cases hdec)
  have hdec' : mqttDecodeLen (b :: tail ++ rest).tail = some (rem, n) :=
    mqttDecodeLen_append hdec rest
  have hn := (decodeLenLoop_take hdec (Nat.le_add_left n 0)).1
  have hge : ¬ (b :: tail ++ rest).length < 2 := by
    rw [List.length_append, hlen]
    omega
  have hle : ¬ (b :: tail).length > (b :: tail ++ rest).length := by
    rw [List.length_append]
    omega
  simp only [rxBody, if_neg hge, hdec', ← hlen, if_neg hle, List.drop_left, List.take_left]

/-- **The packet at the front of a segment is determined.** -/
theorem Whole.front_unique {pkt pkt' payload payload' rest rest' : List UInt8}
    (hw : Whole pkt payload) (hw' : Whole pkt' payload') (h : pkt ++ rest = pkt' ++ rest') :
    pkt = pkt' ∧ payload = payload' ∧ rest = rest' := by
  have hround := rxBody_whole hw rest (Esp.boot .boot [])
  rw [h, rxBody_whole hw' rest'] at hround
  obtain rfl := (Prod.mk.inj (Option.some.inj hround)).1
  obtain rfl := List.append_cancel_right h
  obtain ⟨rem, n, hdec, -, rfl⟩ := hw
  obtain ⟨rem', n', hdec', -, rfl⟩ := hw'
  rw [hdec] at hdec'
  obtain ⟨rfl, rfl⟩ := Prod.mk.inj (Option.some.inj hdec')
  exact ⟨rfl, rfl, rfl⟩

/-- …and so is its payload. -/
theorem Whole.payload_unique {pkt payload payload' : List UInt8} (hw : Whole pkt payload)
    (hw' : Whole pkt payload') : payload = payload' := by
  have hsame : pkt ++ [] = pkt ++ [] := rfl
  exact (hw.front_unique hw' hsame).2.1

/-- **`handle_rx` reads all there is to read**: no whole packet is left. -/
theorem handleRx_exit (data : List UInt8) (e : Esp Client) :
    rxBody (loop rxBody (data.length + 1) (data, e)) = none := by
  refine loop_exit (μ := fun s => s.1.length) (fun s s' hs => ?_) _ _ (Nat.lt_succ_self _)
  obtain ⟨pkt, payload, -, hdata, hpos, -⟩ := rxBody_cases hs
  rw [hdata, List.length_append]
  omega

/-- A property that the branches of the `switch` other than CONNACK preserve. -/
structure Esp.Received (P : Esp Client → Prop) : Prop extends Esp.Stable P where
  lastPing : ∀ t e, P e → P (setLastPing t e)
  message : ∀ topic payload e, P e → P (note (.message topic payload) e)
  puback : ∀ packet e, P e → P (note (.puback packet) e)

theorem Esp.Received.handlePublish {P : Esp Client → Prop} (hP : Esp.Received P)
    (buf : List UInt8) (e : Esp Client) (h : P e) : P (handlePublish buf e) := by
  rw [GrainWarehouse.handlePublish]
  split
  · exact h
  · next m _ =>
    have hmsg : P (if e.up.sMsgCb then note (.message m.topic m.payload) e else e) := by
      split
      · exact hP.message m.topic m.payload e h
      · exact h
    dsimp only
    split
    · exact hP.tcpSend _ _ (hP.puback _ _ hmsg)
    · exact hmsg

/-- …and CONNACK as well. -/
structure Esp.Handled (P : Esp Client → Prop) : Prop extends Esp.Received P where
  connack : ∀ pkt payload e, Whole pkt payload → (pkt.headD 0 >>> 4) &&& 0x0F = ctrlConnack →
    P e → P (handleConnack pkt payload e)

namespace Esp.Handled

variable {P : Esp Client → Prop} (hP : Esp.Handled P)

include hP

theorem handlePacket {pkt payload : List UInt8} (hw : Whole pkt payload) (e : Esp Client)
    (h : P e) : P (handlePacket pkt payload e) := by
  simp only [GrainWarehouse.handlePacket]
  split_ifs with htype
  · exact hP.connack pkt payload e hw htype h
  · exact hP.lastPing _ e h
  · exact hP.handlePublish pkt e h
  · exact h

/-- **Whatever the branches of the `switch` preserve, a segment preserves.** -/
theorem onEspRecv (linkId : ℤ) (data : List UInt8) {e : Esp Client} (h : P e) :
    P (onEspRecv linkId data e) := by
  rw [GrainWarehouse.onEspRecv]
  split_ifs
  · exact h
  · refine loop_invariant (P := fun s : List UInt8 × Esp Client => P s.2)
      (fun s s' hs he => ?_) _ _ h
    obtain ⟨pkt, payload, hw, -, -, heq⟩ := rxBody_cases hs
    rw [heq]
    exact hP.handlePacket hw s.2 he

end Esp.Handled

theorem setState_up (new : MqttState) (k : Option Connack) (e : Esp Client) :
    ∃ evs, setState new k e =
      { e with up := { e.up with sState := new, trace := e.up.trace ++ evs } } := by
  simp only [setState]
  split
  · exact ⟨[], by rw [List.append_nil]⟩
  · exact ⟨_, rfl⟩

/-- A CONNACK is met, and sets the state, and perhaps the time of the last ping. -/
theorem handleConnack_up (pkt payload : List UInt8) (e : Esp Client) :
    ∃ new t met evs, handleConnack pkt payload e =
      { e with
        up := { e.up with
          sState := new
          sLastPingMs := t
          met := met
          trace := e.up.trace ++ evs } } := by
  simp only [handleConnack]
  set k : Connack := ⟨pkt, e.frameAt, linkUp e⟩
  split
  · obtain ⟨evs, heq⟩ := setState_up .connected (some k) (noteConnack k e)
    exact ⟨_, _, _, evs, by rw [heq]; rfl⟩
  · obtain ⟨evs, heq⟩ := setState_up .disconnected (some k) (noteConnack k e)
    exact ⟨_, _, _, evs, by rw [heq]; rfl⟩

/-- **The client only sends**: what it does to the driver from inside the callback is waiting and
sending. -/
theorem sendsOnly_onEspRecv : RecvCb.SendsOnly onEspRecv := by
  intro P hP link data e he
  have hrec : Esp.Handled P :=
    { hP.toStable with
      lastPing := fun _ e h => hP.up _ e h
      message := fun _ _ e h => hP.up _ e h
      puback := fun _ e h => hP.up _ e h
      connack := fun pkt payload e _ _ h => by
        obtain ⟨new, t, met, evs, heq⟩ := handleConnack_up pkt payload e
        rw [heq]
        exact hP.up _ e h }
  exact hrec.onEspRecv link data he

end GrainWarehouse
