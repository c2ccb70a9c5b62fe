import GrainWarehouse.Mqtt.Builders
import GrainWarehouse.Mqtt.Client

/-!
# Mqtt/Packets — what a broker makes of the packets of a client

`readPacket` is the broker's reading: it goes by the grammar of MQTT 3.1.1 (`decodeConnect` and its
companions) and by the type in the first byte.  **Every packet that the client builds is read as
what it was built for** (`readPacket_buildConnect`, …), in particular with the packet id that it was
given.

`ClientPacket.session` is the order that MQTT asks for, PUBACKs apart: a session begins with CONNECT
and ends with DISCONNECT.
-/

namespace GrainWarehouse

/-- A packet that a client may send. -/
inductive ClientPacket
  | connect (c : ConnectPacket)
  | publish (p : PublishPacket)
  | puback (packetId : ℕ)
  | subscribe (packetId : ℕ) (filters : List (List UInt8 × ℕ))
  | unsubscribe (packetId : ℕ) (filters : List (List UInt8))
  | pingreq
  | disconnect

/-- A packet of this type that has no flags. -/
def decodePlain (ctrl : ℕ) (bytes : List UInt8) : Option (List UInt8) := do
  let (type, flags, body) ← decodePacket bytes
  guard (type = ctrl ∧ flags = 0)
  some body

/-- **A PUBACK**: the packet id that it acknowledges. -/
def decodePuback (bytes : List UInt8) : Option ℕ := do
  let body ← decodePlain 4 bytes
  let (packetId, l) ← takeId body
  guard (l = [])
  some packetId

/-- A packet of this type that is nothing but its header. -/
def decodeEmpty (ctrl : ℕ) (bytes : List UInt8) : Option Unit := do
  let body ← decodePlain ctrl bytes
  guard (body = [])

/-- **What a broker reads**, by the type of the packet. -/
def readPacket (bytes : List UInt8) : Option ClientPacket :=
  match (bytes.headD 0).toNat / 16 with
  | 1 => (decodeConnect bytes).map .connect
  | 3 => (decodePublish bytes).map .publish
  | 4 => (decodePuback bytes).map .puback
  | 8 => (decodeSubscribe bytes).map fun r => .subscribe r.1 r.2
  | 10 => (decodeUnsubscribe bytes).map fun r => .unsubscribe r.1 r.2
  | 12 => (decodeEmpty 12 bytes).map fun _ => .pingreq
  | 14 => (decodeEmpty 14 bytes).map fun _ => .disconnect
  | _ => none

/-! ## Reading what the client builds -/

/-- A packet begins with the byte that it was given. -/
theorem headD_packet {cap n : ℕ} {first : UInt8} {body buf : List UInt8}
    (h : packet cap first n body = some buf) : buf.headD 0 = first := by
  rw [packet] at h
  split_ifs at h
  obtain rfl := Option.some.inj h
  rfl

/-- A CONNECT is read as the configuration, if its flags may be read at all. -/
theorem readPacket_buildConnect {c : MqttConfig} (h : c.Fits) (hflags : c.sPass = [] ∨ c.sUser ≠ [])
    {buf : List UInt8} (hbuf : buildConnect 256 c = some buf) :
    buf.length ≤ 256 ∧ readPacket buf = some (.connect c.packet) := by
  obtain ⟨buf', hbuf', hlen, hdec⟩ := buildConnect_fits h
  obtain rfl : buf' = buf := Option.some.inj (hbuf'.symm.trans hbuf)
  rw [if_pos hflags] at hdec
  have htype : (ctrlConnect <<< 4).toNat / 16 = 1 := by decide
  refine ⟨hlen, ?_⟩
  rw [readPacket, headD_packet hbuf, htype]
  simp only [hdec, Option.map_some]

section Topic

variable {cap : ℕ} {topic payload buf : List UInt8} {qos : UInt8} {pid : UInt16}

/-- The topic is cut where its length says. -/
theorem strlen16_take (topic : List UInt8) :
    strlen16 (topic.take (strlen16 topic).toNat) = strlen16 topic := by
  rw [strlen16, (lengthPrefixed_take topic).2, UInt16.ofNat_toNat]

/-- What fits the buffer was shorter. -/
theorem length_le_of_packet {n : ℕ} {first : UInt8} {body : List UInt8}
    (h : packet cap first n body = some buf) : n ≤ cap := by
  rw [packet] at h
  split_ifs at h with hroom
  omega

/-- **A PUBLISH is read with the packet id that goes with its QoS**… -/
theorem readPacket_buildPublish (hcap : cap < 2 ^ 16) (hqos : qos ≤ 1)
    (h : buildPublish cap topic payload qos pid = some buf) :
    buf.length ≤ cap ∧ ∃ p : PublishPacket, readPacket buf = some (.publish p) ∧
      p.packetId = if qos = 0 then none else some pid.toNat := by
  have hroom := length_le_of_packet h
  have htake : buildPublish cap (topic.take (strlen16 topic).toNat) payload qos pid = some buf := by
    rw [buildPublish, strlen16_take, (lengthPrefixed_take topic).1]
    exact h
  have htopic : (topic.take (strlen16 topic).toNat).length < 2 ^ 16 := by
    rw [(lengthPrefixed_take topic).2]
    exact (strlen16 topic).toNat_lt
  obtain ⟨hlen, hdec⟩ := decodePublish_buildPublish htopic (by omega) hqos htake
  have htype : ((ctrlPublish <<< 4) ||| (if qos > 0 then qos <<< 1 else 0)).toNat / 16 = 3 := by
    have hcases : qos = 0 ∨ qos = 1 :=
      (Nat.le_one_iff_eq_zero_or_eq_one.mp (UInt8.le_iff_toNat_le.mp hqos)).imp
        UInt8.toNat_inj.mp UInt8.toNat_inj.mp
    rcases hcases with rfl | rfl
    all_goals decide
  refine ⟨hlen, ⟨topic.take (strlen16 topic).toNat, payload, qos.toNat,
    if qos = 0 then none else some pid.toNat, false, false⟩, ?_, rfl⟩
  rw [readPacket, headD_packet h, htype]
  simp only [hdec, Option.map_some]

/-- …and so are a SUBSCRIBE… -/
theorem readPacket_buildSubscribe (hqos : qos ≤ 2)
    (h : buildSubscribe cap topic qos pid = some buf) :
    buf.length ≤ cap ∧ ∃ filters, readPacket buf = some (.subscribe pid.toNat filters) := by
  have htake : buildSubscribe cap (topic.take (strlen16 topic).toNat) qos pid = some buf := by
    rw [buildSubscribe, strlen16_take, (lengthPrefixed_take topic).1]
    exact h
  have htopic : (topic.take (strlen16 topic).toNat).length < 2 ^ 16 := by
    rw [(lengthPrefixed_take topic).2]
    exact (strlen16 topic).toNat_lt
  obtain ⟨hlen, hdec⟩ := decodeSubscribe_buildSubscribe htopic hqos htake
  have htype : ((ctrlSubscribe <<< 4) ||| 0x02).toNat / 16 = 8 := by decide
  refine ⟨hlen, [(topic.take (strlen16 topic).toNat, qos.toNat)], ?_⟩
  rw [readPacket, headD_packet h, htype]
  simp only [hdec, Option.map_some]

/-- …and an UNSUBSCRIBE. -/
theorem readPacket_buildUnsubscribe (h : buildUnsubscribe cap topic pid = some buf) :
    buf.length ≤ cap ∧ ∃ filters, readPacket buf = some (.unsubscribe pid.toNat filters) := by
  have htake : buildUnsubscribe cap (topic.take (strlen16 topic).toNat) pid = some buf := by
    rw [buildUnsubscribe, strlen16_take, (lengthPrefixed_take topic).1]
    exact h
  have htopic : (topic.take (strlen16 topic).toNat).length < 2 ^ 16 := by
    rw [(lengthPrefixed_take topic).2]
    exact (strlen16 topic).toNat_lt
  obtain ⟨hlen, hdec⟩ := decodeUnsubscribe_buildUnsubscribe htopic htake
  have htype : ((ctrlUnsubscribe <<< 4) ||| 0x02).toNat / 16 = 10 := by decide
  refine ⟨hlen, [topic.take (strlen16 topic).toNat], ?_⟩
  rw [readPacket, headD_packet h, htype]
  simp only [hdec, Option.map_some]

end Topic

/-- A PUBACK is read with the packet id that is acknowledged. -/
theorem readPacket_pubackPacket (pid : UInt16) :
    readPacket (pubackPacket pid) = some (.puback pid.toNat) := by
  have hpacket : decodePacket (pubackPacket pid) = some (4, 0, writeU16 pid) := rfl
  have hid : takeId (writeU16 pid) = some (pid.toNat, []) := takeId_writeU16 pid []
  have hplain : decodePlain 4 (pubackPacket pid) = some (writeU16 pid) := by
    simp only [decodePlain, hpacket, Option.bind_eq_bind, Option.bind_some, and_self,
      guard_of True.intro]
  have hdec : decodePuback (pubackPacket pid) = some pid.toNat := by
    simp only [decodePuback, hplain, hid, Option.bind_eq_bind, Option.bind_some,
      guard_of True.intro]
  have htype : ((pubackPacket pid).headD 0).toNat / 16 = 4 :=
    (by decide : (ctrlPuback <<< 4).toNat / 16 = 4)
  rw [readPacket, htype]
  simp only [hdec, Option.map_some]

/-! ## Sessions -/

/-- **What a packet may do in a session**, and whether one is open after it: CONNECT opens one,
DISCONNECT closes it, and the others need one.  A PUBACK is let pass: `handle_publish` sends one in
any state. -/
def ClientPacket.session : Bool → ClientPacket → Option Bool
  | _, .connect _ => some true
  | isOpen, .puback _ => some isOpen
  | true, .disconnect => some false
  | true, .publish _ | true, .subscribe _ _ | true, .unsubscribe _ _ | true, .pingreq => some true
  | false, _ => none

/-- Whether a session is open behind these packets; `none` if one of them was out of order. -/
def session (ps : List ClientPacket) : Option Bool := ps.foldlM ClientPacket.session false

theorem session_append_singleton (ps : List ClientPacket) (p : ClientPacket) :
    session (ps ++ [p]) = (session ps).bind fun isOpen => p.session isOpen := by
  rw [session, List.foldlM_append]
  change (session ps).bind _ = _
  congr 1
  funext isOpen
  exact bind_pure (p.session isOpen)

/-- The packet id that a call of the client has drawn for the packet. -/
def ClientPacket.drawn : ClientPacket → Option ℕ
  | .publish p => p.packetId
  | .subscribe packetId _ | .unsubscribe packetId _ => some packetId
  | .connect _ | .puback _ | .pingreq | .disconnect => none

end GrainWarehouse
