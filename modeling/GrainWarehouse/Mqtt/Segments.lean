import GrainWarehouse.Mqtt.Receive

/-!
# Mqtt/Segments — packets in segments

Each segment is read for itself, so what counts is whether it holds whole packets: then it has
exactly the effect of its packets, one after the other (`onEspRecv_flatten`), and how many of them
share a segment makes no difference (`deliver_groups`).  A packet cut in two has no effect in the
first segment and is misread in the second (`connack_cut`).
-/

namespace GrainWarehouse

/-- A packet the broker sends. -/
inductive Packet
  | connack (flags returnCode : UInt8)
  | publish (dup retain : Bool) (qos : Fin 3) (topic : List UInt8) (pid : UInt16)
      (payload : List UInt8)
  | puback (pid : UInt16)
  | suback (pid : UInt16) (codes : List UInt8)
  | pingresp

namespace Packet

/-- The first byte: type and flags. -/
def first : Packet → UInt8
  | connack _ _ => ctrlConnack <<< 4
  | publish dup retain qos _ _ _ =>
    (ctrlPublish <<< 4) ||| (if dup then (8 : UInt8) else 0) ||| (UInt8.ofNat qos.val <<< 1) |||
      (if retain then 1 else 0)
  | puback _ => ctrlPuback <<< 4
  | suback _ _ => ctrlSuback <<< 4
  | pingresp => ctrlPingresp <<< 4

/-- What the remaining length counts. -/
def body : Packet → List UInt8
  | connack flags returnCode => [flags, returnCode]
  | publish _ _ qos topic pid payload =>
    lengthPrefixed topic ++ (if 0 < qos.val then writeU16 pid else []) ++ payload
  | puback pid => writeU16 pid
  | suback pid codes => writeU16 pid ++ codes
  | pingresp => []

/-- The packet on the wire. -/
def bytes (p : Packet) : List UInt8 :=
  p.first :: (mqttEncodeLen (UInt32.ofNat p.body.length) ++ p.body)

theorem body_lt_bytes (p : Packet) : p.body.length < p.bytes.length := by
  rw [bytes, List.length_cons, List.length_append]
  omega

end Packet

/-- The client meets a packet. -/
def meet (e : Esp Client) (p : Packet) : Esp Client := handlePacket p.bytes p.body e

/-! ## Whole packets in a segment -/

/-- A packet is whole. -/
theorem Packet.whole (p : Packet) (hp : p.body.length < 2 ^ 28) : Whole p.bytes p.body := by
  have hrem : (UInt32.ofNat p.body.length).toNat = p.body.length := by
    rw [UInt32.toNat_ofNat']
    omega
  refine ⟨_, _, mqttDecodeLen_mqttEncodeLen (by rwa [hrem]) p.body, ?_, ?_⟩
  · rw [bytes, List.length_cons, List.length_append, hrem]
    omega
  · rw [bytes, Nat.add_comm, List.drop_succ_cons, List.drop_left]

/-- **A packet at the front of a segment is met.** -/
theorem rxBody_packet (p : Packet) (hp : p.body.length < 2 ^ 28) (rest : List UInt8)
    (e : Esp Client) : rxBody (p.bytes ++ rest, e) = some (rest, meet e p) :=
  rxBody_whole (p.whole hp) rest e

/-- **A segment of whole packets has the effect of its packets**, one after the other. -/
theorem loop_rxBody_flatten : ∀ (ps : List Packet) (n : ℕ) (e : Esp Client),
    (∀ p ∈ ps, p.body.length < 2 ^ 28) → ps.length < n →
      loop rxBody n ((ps.map Packet.bytes).flatten, e) = ([], ps.foldl meet e)
  | [], n, e, _, _ => loop_of_none rfl n
  | p :: ps, n + 1, e, hps, hn => by
      have hround := rxBody_packet p (hps p List.mem_cons_self) (ps.map Packet.bytes).flatten e
      rw [List.map_cons, List.flatten_cons, loop_succ_of_some hround, List.foldl_cons]
      exact loop_rxBody_flatten ps n _ (fun q hq => hps q (List.mem_cons_of_mem p hq))
        (Nat.lt_of_succ_lt_succ hn)

theorem length_le_flatten : ∀ ps : List Packet,
    ps.length ≤ (ps.map Packet.bytes).flatten.length
  | [] => le_rfl
  | p :: ps => by
      have := length_le_flatten ps
      rw [List.map_cons, List.flatten_cons, List.length_append, List.length_cons, Packet.bytes,
        List.length_cons]
      omega

/-- …all of it, when the segment has at most 512 bytes. -/
theorem handleRx_flatten (ps : List Packet) (h : (ps.map Packet.bytes).flatten.length ≤ 512)
    (e : Esp Client) : handleRx (ps.map Packet.bytes).flatten e = ps.foldl meet e := by
  have hmem : ∀ p ∈ ps, p.body.length < 2 ^ 28 := fun p hp => by
    have hle := (List.sublist_flatten_of_mem (List.mem_map_of_mem (f := Packet.bytes) hp)).length_le
    have := p.body_lt_bytes
    omega
  rw [handleRx, loop_rxBody_flatten ps _ e hmem (Nat.lt_succ_of_le (length_le_flatten ps))]

/-- Packets do not move the client to another link. -/
theorem sLinkId_meet (e : Esp Client) (p : Packet) : (meet e p).up.sLinkId = e.up.sLinkId := by
  have hrec : Esp.Received fun e' => e'.up.sLinkId = e.up.sLinkId :=
    { Esp.stable_up fun (c : Client) _ => c.sLinkId = e.up.sLinkId with
      lastPing := fun _ _ h => h
      message := fun _ _ _ h => h
      puback := fun _ _ h => h }
  simp only [meet, handlePacket]
  split_ifs
  · obtain ⟨new, t, met, evs, heq⟩ := handleConnack_up p.bytes p.body e
    rw [heq]
  · rfl
  · exact hrec.handlePublish _ e rfl
  · rfl

/-- **On its own link the client sees whole packets**, on any other nothing. -/
theorem onEspRecv_flatten (link : ℤ) (ps : List Packet)
    (h : (ps.map Packet.bytes).flatten.length ≤ 512) (e : Esp Client) :
    onEspRecv link (ps.map Packet.bytes).flatten e =
      if link = e.up.sLinkId.toNat then ps.foldl meet e else e := by
  rw [onEspRecv, List.take_of_length_le h, handleRx_flatten ps h, ite_not]

/-! ## Segments one by one -/

/-- Segments of the client's link, one by one. -/
def deliver (link : ℤ) (segs : List (List UInt8)) (e : Esp Client) : Esp Client :=
  segs.foldl (fun e seg => onEspRecv link seg e) e

/-- A group of packets in one segment does what it does in segments of its own. -/
theorem onEspRecv_eq_deliver (link : ℤ) : ∀ (ps : List Packet),
    (ps.map Packet.bytes).flatten.length ≤ 512 → ∀ e : Esp Client,
      onEspRecv link (ps.map Packet.bytes).flatten e = deliver link (ps.map Packet.bytes) e
  | [], h, e => by
      rw [onEspRecv_flatten link [] h e]
      exact ite_self e
  | p :: ps, h, e => by
      have hps : (ps.map Packet.bytes).flatten.length ≤ 512 := by
        rw [List.map_cons, List.flatten_cons, List.length_append] at h
        omega
      have hp : (([p] : List Packet).map Packet.bytes).flatten.length ≤ 512 := by
        rw [List.map_cons, List.flatten_cons, List.length_append] at h
        simp only [List.map_cons, List.map_nil, List.flatten_cons, List.flatten_nil,
          List.append_nil]
        omega
      have hone := onEspRecv_flatten link [p] hp e
      simp only [List.map_cons, List.map_nil, List.flatten_cons, List.flatten_nil, List.append_nil,
        List.foldl_cons, List.foldl_nil] at hone
      have hrest := onEspRecv_eq_deliver link ps hps (onEspRecv link p.bytes e)
      rw [onEspRecv_flatten link (p :: ps) h e]
      refine Eq.trans ?_ hrest
      rw [onEspRecv_flatten link ps hps, hone]
      by_cases hl : link = e.up.sLinkId.toNat
      · rw [if_pos hl, if_pos hl, if_pos (by rw [sLinkId_meet]; exact hl), List.foldl_cons]
      · rw [if_neg hl, if_neg hl, if_neg hl]

/-- **How the packets are grouped into segments makes no difference**, as long as no segment ends
inside a packet. -/
theorem deliver_groups (link : ℤ) : ∀ (groups : List (List Packet)) (e : Esp Client),
    (∀ ps ∈ groups, (ps.map Packet.bytes).flatten.length ≤ 512) →
      deliver link (groups.map fun ps => (ps.map Packet.bytes).flatten) e =
        deliver link (groups.flatten.map Packet.bytes) e
  | [], _, _ => rfl
  | ps :: groups, e, h => by
      rw [List.flatten_cons, List.map_append, deliver, deliver, List.foldl_append, List.map_cons,
        List.foldl_cons, onEspRecv_eq_deliver link ps (h ps List.mem_cons_self)]
      exact deliver_groups link groups _ fun qs hqs => h qs (List.mem_cons_of_mem ps hqs)

/-- What can be seen of the client: changes of state, messages, PUBACKs. -/
def effects (e : Esp Client) : List MqttEv :=
  e.up.trace.filterMap fun
    | .state old new _ _ => some (.state old new none none)
    | .message topic payload => some (.message topic payload)
    | .puback packet => some (.puback packet)
    | .returned _ _ => none

/-- A PINGRESP and a CONNACK in one segment, a PUBLISH of QoS 1 in the next. -/
theorem deliver_groups_three :
    deliver 0 [[0xD0, 0, 0x20, 2, 0, 0], [0x32, 6, 0, 1, 116, 0, 7, 49]] (Esp.boot .boot []) =
      deliver 0 [[0xD0, 0], [0x20, 2, 0, 0], [0x32, 6, 0, 1, 116, 0, 7, 49]] (Esp.boot .boot []) :=
  deliver_groups 0 [[.pingresp, .connack 0 0], [.publish false false 1 [116] 7 [49]]] _ (by decide)

/-- **Cut in two, an accepting CONNACK is lost.** -/
theorem connack_cut :
    effects (deliver 0 [[0x20, 0x02], [0x00, 0x00]]
        (Esp.boot { Client.boot with sState := .connectSent } [])) ≠
      effects (deliver 0 [[0x20, 0x02, 0x00, 0x00]]
        (Esp.boot { Client.boot with sState := .connectSent } [])) := by
  decide +kernel

end GrainWarehouse
