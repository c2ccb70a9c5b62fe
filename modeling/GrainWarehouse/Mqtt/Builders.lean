import GrainWarehouse.Machinery.Writes
import GrainWarehouse.Mqtt.Connect

/-!
# Mqtt/Builders — PUBLISH, SUBSCRIBE and UNSUBSCRIBE, store by store

The three builders compute the remaining length before they write, check the capacity against it,
and move a pointer over the fields as they store them.  `buildPublishOut_eq` and its siblings show
that the stores are those of the packets of `Mqtt/Codec`, one byte behind the other from the front
of `out`.

`decodePublish`, `decodeSubscribe` and `decodeUnsubscribe` read packets by the grammar of MQTT
3.1.1, and know nothing of `mqtt.c`.  **What is built within the capacity reads back**
(`builders_right`), and nothing is stored where a builder refuses; when that is, the capacity alone
decides (`ret_builders_iff`).
-/

namespace GrainWarehouse

/-! ## Packets of MQTT 3.1.1 -/

/-- The type, the flags and the body of one packet: its remaining length counts the whole body. -/
def decodePacket : List UInt8 → Option (ℕ × ℕ × List UInt8)
  | first :: l => do
    let (rem, body) ← varLen 4 l
    guard (body.length = rem)
    some (first.toNat / 16, first.toNat % 16, body)
  | [] => none

/-- A packet id, and what follows it. -/
def takeId : List UInt8 → Option (ℕ × List UInt8)
  | hi :: lo :: l => some (hi.toNat * 256 + lo.toNat, l)
  | _ => none

/-- The contents of a PUBLISH: there is a packet id unless the QoS is 0. -/
structure PublishPacket where
  topic : List UInt8
  payload : List UInt8
  qos : ℕ
  packetId : Option ℕ
  dup : Bool
  retain : Bool

/-- **A PUBLISH**, from its first byte to its last. -/
def decodePublish (bytes : List UInt8) : Option PublishPacket := do
  let (type, flags, body) ← decodePacket bytes
  let qos := flags / 2 % 4
  guard (type = 3 ∧ qos ≠ 3 ∧ ¬ (qos = 0 ∧ flags.testBit 3))
  let (topic, l) ← takeField body
  let (packetId, payload) ←
    if qos = 0 then some (none, l) else (takeId l).map fun r => (some r.1, r.2)
  some ⟨topic, payload, qos, packetId, flags.testBit 3, flags.testBit 0⟩

/-- Items up to the end of the packet, `k` of them at most. -/
def takeAll {α : Type} (item : List UInt8 → Option (α × List UInt8)) :
    ℕ → List UInt8 → Option (List α)
  | _, [] => some []
  | 0, _ :: _ => none
  | k + 1, b :: bs => do
    let (x, l) ← item (b :: bs)
    (takeAll item k l).map fun xs => x :: xs

/-- A packet id and at least one item, in a packet of this type. -/
def decodeItems {α : Type} (item : List UInt8 → Option (α × List UInt8)) (ctrl : ℕ)
    (bytes : List UInt8) : Option (ℕ × List α) := do
  let (type, flags, body) ← decodePacket bytes
  -- these packets have bit 1 of the flags set, and no other
  guard (type = ctrl ∧ flags = 2)
  let (packetId, l) ← takeId body
  let items ← takeAll item l.length l
  guard (items.length ≠ 0)
  some (packetId, items)

/-- A topic filter and the QoS that is asked for. -/
def takeRequest (l : List UInt8) : Option ((List UInt8 × ℕ) × List UInt8) := do
  let (filter, l) ← takeField l
  match l with
  | qos :: l => if qos.toNat < 3 then some ((filter, qos.toNat), l) else none
  | [] => none

/-- **A SUBSCRIBE**: its packet id, and the filters with their QoS. -/
def decodeSubscribe (bytes : List UInt8) : Option (ℕ × List (List UInt8 × ℕ)) :=
  decodeItems takeRequest 8 bytes

/-- **An UNSUBSCRIBE**: its packet id, and the filters. -/
def decodeUnsubscribe (bytes : List UInt8) : Option (ℕ × List (List UInt8)) :=
  decodeItems takeField 10 bytes

/-! ## The builders -/

/-- What a builder stores into `out`, and what it returns. -/
structure Out where
  stores : List (ℕ × UInt8)
  ret : ℤ

/-- `return (int)(p - out)`. -/
def Out.done (c : Cursor UInt8) : Out := ⟨c.stores, c.p⟩

/-- `build_publish`. -/
def buildPublishOut (outCap : UInt16) (topic : List UInt8) (payload : ℕ → UInt8) (len : UInt16)
    (qos : UInt8) (packetId : UInt16) : Out :=
  let tn := strlen16 topic
  let rem : UInt32 := 2 + tn.toUInt32 + (if qos > 0 then 2 else 0) + len.toUInt32
  if outCap.toUInt32 < 2 + 4 + rem then ⟨[], -1⟩
  else
    let flags : UInt8 := if qos > 0 then qos <<< 1 else 0
    let out := Cursor.start.put [(ctrlPublish <<< 4) ||| flags]
    let p := out.put (mqttEncodeLen rem)
    let p := p.put (writeU16 tn)
    let p := p.put (topic.take tn.toNat)
    let p := if qos > 0 then p.put (writeU16 packetId) else p
    let p := p.put (contents payload 0 len.toNat)
    Out.done p

/-- `build_subscribe`. -/
def buildSubscribeOut (outCap : UInt16) (topic : List UInt8) (qos : UInt8) (packetId : UInt16) :
    Out :=
  let tn := strlen16 topic
  let rem : UInt32 := 2 + 2 + tn.toUInt32 + 1
  if outCap.toUInt32 < 2 + 4 + rem then ⟨[], -1⟩
  else
    let out := Cursor.start.put [(ctrlSubscribe <<< 4) ||| 0x02]
    let p := out.put (mqttEncodeLen rem)
    let p := p.put (writeU16 packetId)
    let p := p.put (writeU16 tn)
    let p := p.put (topic.take tn.toNat)
    let p := p.put [qos]
    Out.done p

/-- `build_unsubscribe`. -/
def buildUnsubscribeOut (outCap : UInt16) (topic : List UInt8) (packetId : UInt16) : Out :=
  let tn := strlen16 topic
  let rem : UInt32 := 2 + 2 + tn.toUInt32
  if outCap.toUInt32 < 2 + 4 + rem then ⟨[], -1⟩
  else
    let out := Cursor.start.put [(ctrlUnsubscribe <<< 4) ||| 0x02]
    let p := out.put (mqttEncodeLen rem)
    let p := p.put (writeU16 packetId)
    let p := p.put (writeU16 tn)
    let p := p.put (topic.take tn.toNat)
    Out.done p

/-! ## Store by store, and as lists -/

/-- A packet stored from the front of `out` on; a refusal stores nothing. -/
def Out.ofBytes : Option (List UInt8) → Out
  | some buf => Out.done (Cursor.of buf)
  | none => ⟨[], -1⟩

/-- The capacity is checked against the same length that is sent. -/
theorem Out.ofBytes_packet {cap : UInt16} {first : UInt8} {rem : UInt32} {n : ℕ}
    {body : List UInt8} (hrem : rem.toNat = n) (hn : n < 2 ^ 28) :
    (if cap.toUInt32 < 2 + 4 + rem then (⟨[], -1⟩ : Out)
      else Out.done (Cursor.of (first :: (mqttEncodeLen rem ++ body)))) =
      Out.ofBytes (packet cap.toNat first n body) := by
  have hroom : cap.toUInt32 < 2 + 4 + rem ↔ cap.toNat < 2 + 4 + n := by
    rw [UInt32.lt_iff_toNat_lt, UInt32.toNat_add, UInt16.toNat_toUInt32, hrem]
    have h6 : (2 + 4 : UInt32).toNat = 6 := by decide
    rw [h6, Nat.mod_eq_of_lt (by omega)]
  have hnum : UInt32.ofNat n = rem := by rw [← hrem, UInt32.ofNat_toNat]
  rw [packet, hnum]
  by_cases h : cap.toNat < 2 + 4 + n
  · rw [if_pos (hroom.mpr h), if_pos h]
    rfl
  · rw [if_neg (mt hroom.mp h), if_neg h]
    rfl

theorem buildPublishOut_eq (outCap : UInt16) (topic : List UInt8) (payload : ℕ → UInt8)
    (len : UInt16) (qos : UInt8) (packetId : UInt16) :
    buildPublishOut outCap topic payload len qos packetId =
      Out.ofBytes
        (buildPublish outCap.toNat topic (contents payload 0 len.toNat) qos packetId) := by
  have htn := (strlen16 topic).toNat_lt
  have hlen := len.toNat_lt
  have hrem : (2 + (strlen16 topic).toUInt32 + (if qos > 0 then 2 else 0) + len.toUInt32).toNat =
      2 + (strlen16 topic).toNat + (if qos > 0 then 2 else 0) + len.toNat := by
    have h2 : (2 : UInt32).toNat = 2 := rfl
    split_ifs
    all_goals
      simp only [UInt32.toNat_add, UInt16.toNat_toUInt32, h2, UInt32.toNat_zero]
      omega
  rw [buildPublish, length_contents, ← Out.ofBytes_packet hrem (by split_ifs <;> omega)]
  unfold buildPublishOut
  by_cases hq : qos > 0
  · simp only [if_pos hq, Cursor.start_put, Cursor.of_put, lengthPrefixed, List.cons_append,
      List.nil_append, List.append_assoc]
  · simp only [if_neg hq, Cursor.start_put, Cursor.of_put, lengthPrefixed, List.cons_append,
      List.nil_append, List.append_assoc]

theorem buildSubscribeOut_eq (outCap : UInt16) (topic : List UInt8) (qos : UInt8)
    (packetId : UInt16) : buildSubscribeOut outCap topic qos packetId =
      Out.ofBytes (buildSubscribe outCap.toNat topic qos packetId) := by
  have htn := (strlen16 topic).toNat_lt
  have hrem : (2 + 2 + (strlen16 topic).toUInt32 + 1).toNat =
      2 + 2 + (strlen16 topic).toNat + 1 := by
    have h4 : (2 + 2 : UInt32).toNat = 4 := by decide
    rw [UInt32.toNat_add, UInt32.toNat_add, UInt16.toNat_toUInt32, h4, UInt32.toNat_one]
    omega
  rw [buildSubscribe, ← Out.ofBytes_packet hrem (by omega)]
  simp only [buildSubscribeOut, Cursor.start_put, Cursor.of_put, lengthPrefixed, List.cons_append,
    List.nil_append, List.append_assoc]

theorem buildUnsubscribeOut_eq (outCap : UInt16) (topic : List UInt8) (packetId : UInt16) :
    buildUnsubscribeOut outCap topic packetId =
      Out.ofBytes (buildUnsubscribe outCap.toNat topic packetId) := by
  have htn := (strlen16 topic).toNat_lt
  have hrem : (2 + 2 + (strlen16 topic).toUInt32).toNat = 2 + 2 + (strlen16 topic).toNat := by
    have h4 : (2 + 2 : UInt32).toNat = 4 := by decide
    rw [UInt32.toNat_add, UInt16.toNat_toUInt32, h4]
    omega
  rw [buildUnsubscribe, ← Out.ofBytes_packet hrem (by omega)]
  simp only [buildUnsubscribeOut, Cursor.start_put, Cursor.of_put, lengthPrefixed,
    List.cons_append, List.nil_append, List.append_assoc]

/-- **A builder refuses exactly when its packet might not fit**, had its remaining length taken four
bytes. -/
theorem Out.ret_ofBytes_packet (cap : ℕ) (first : UInt8) (n : ℕ) (body : List UInt8) :
    (Out.ofBytes (packet cap first n body)).ret = -1 ↔ cap < 2 + 4 + n := by
  rw [packet]
  split_ifs with h
  · exact iff_of_true rfl h
  · refine iff_of_false (fun hret => ?_) h
    have hnat : ((first :: (mqttEncodeLen (UInt32.ofNat n) ++ body)).length : ℤ) = -1 := hret
    omega

/-! ## What was built reads back -/

theorem takeId_writeU16 (v : UInt16) (rest : List UInt8) :
    takeId (writeU16 v ++ rest) = some (v.toNat, rest) := by
  have h8 : (8 : UInt16).toNat % 16 = 8 := by decide
  have hv := v.toNat_lt
  have hval : (v >>> 8).toUInt8.toNat * 256 + v.toUInt8.toNat = v.toNat := by
    rw [UInt16.toNat_toUInt8, UInt16.toNat_toUInt8, UInt16.toNat_shiftRight, h8,
      Nat.shiftRight_eq_div_pow]
    omega
  rw [writeU16, List.cons_append, List.cons_append, takeId, hval]
  rfl

/-- **A packet is as long as it says**, and within the capacity. -/
theorem decodePacket_packet {cap n : ℕ} {first : UInt8} {body buf : List UInt8}
    (h : packet cap first n body = some buf) (hbody : body.length = n) (hn : n < 2 ^ 28) :
    buf.length ≤ cap ∧ decodePacket buf = some (first.toNat / 16, first.toNat % 16, body) := by
  rw [packet] at h
  split_ifs at h with hroom
  obtain rfl := Option.some.inj h
  have hnat : (UInt32.ofNat n).toNat = n := by
    rw [UInt32.toNat_ofNat']
    exact Nat.mod_eq_of_lt (by omega)
  have hlen : (mqttEncodeLen (UInt32.ofNat n)).length ≤ 5 := length_encodeLenLoop_le 5 _
  constructor
  · rw [List.length_cons, List.length_append, hbody]
    omega
  · simp only [decodePacket, varLen_mqttEncodeLen (hnat.symm ▸ hn), hnat, Option.bind_eq_bind,
      Option.bind_some, guard_of hbody]

/-- A list of one item is that item. -/
theorem decodeItems_one {α : Type} {item : List UInt8 → Option (α × List UInt8)} {x : α}
    {first : UInt8} {bytes rest : List UInt8} {pid : UInt16}
    (h : decodePacket bytes = some (first.toNat / 16, first.toNat % 16, writeU16 pid ++ rest))
    (hflags : first.toNat % 16 = 2) (hitem : item rest = some (x, [])) (hne : rest ≠ []) :
    decodeItems item (first.toNat / 16) bytes = some (pid.toNat, [x]) := by
  obtain ⟨b, bs, rfl⟩ := List.exists_cons_of_ne_nil hne
  have hall : takeAll item (b :: bs).length (b :: bs) = some [x] := by
    rw [List.length_cons, takeAll, hitem, Option.bind_eq_bind, Option.bind_some]
    cases bs.length
    all_goals rfl
  simp only [decodeItems, h, Option.bind_eq_bind, Option.bind_some, true_and, guard_of hflags,
    takeId_writeU16, hall]
  rfl

theorem length_lengthPrefixed (s : List UInt8) :
    (lengthPrefixed s).length = 2 + (s.take (strlen16 s).toNat).length := by
  rw [lengthPrefixed, List.length_append]
  rfl

theorem lengthPrefixed_ne_nil (s : List UInt8) : lengthPrefixed s ≠ [] :=
  List.ne_nil_of_length_pos (by rw [length_lengthPrefixed]; omega)

/-- What `decodePublish` reads behind a header without DUP and RETAIN. -/
theorem decodePublish_eq {bytes body topic rest : List UInt8} {qos : ℕ} (hqos : qos = 0 ∨ qos = 1)
    (h : decodePacket bytes = some (3, 2 * qos, body))
    (htopic : takeField body = some (topic, rest)) :
    decodePublish bytes =
      (if qos = 0 then some (none, rest) else (takeId rest).map fun r => (some r.1, r.2)).map
        fun r => ⟨topic, r.2, qos, r.1, false, false⟩ := by
  rcases hqos with rfl | rfl
  all_goals
    simp only [decodePublish, h, htopic, Option.bind_eq_bind, Option.bind_some]
    rw [guard_of (by decide), Option.bind_some]
    cases takeId rest
    all_goals rfl

section ReadBack

variable {cap : ℕ} {topic payload buf : List UInt8} {qos : UInt8} {pid : UInt16}

/-- **A PUBLISH reads back**, and has no packet id with QoS 0… -/
theorem decodePublish_buildPublish (htopic : topic.length < 2 ^ 16)
    (hpayload : payload.length < 2 ^ 16) (hqos : qos ≤ 1)
    (h : buildPublish cap topic payload qos pid = some buf) :
    buf.length ≤ cap ∧ decodePublish buf = some
      ⟨topic, payload, qos.toNat, if qos = 0 then none else some pid.toNat, false, false⟩ := by
  obtain ⟨hpre, hlen⟩ := lengthPrefixed_of_lt htopic
  have hbody : (lengthPrefixed topic ++ (if qos > 0 then writeU16 pid else []) ++ payload).length =
      2 + (strlen16 topic).toNat + (if qos > 0 then 2 else 0) + payload.length := by
    rw [hpre, strlen16, hlen]
    split_ifs
    all_goals simp only [List.length_append, List.length_cons, List.length_nil, writeU16]
  have hn := (strlen16 topic).toNat_lt
  obtain ⟨hcap, hdec⟩ := decodePacket_packet h hbody (by split_ifs <;> omega)
  refine ⟨hcap, ?_⟩
  have hcases : qos = 0 ∨ qos = 1 :=
    (Nat.le_one_iff_eq_zero_or_eq_one.mp (UInt8.le_iff_toNat_le.mp hqos)).imp
      UInt8.toNat_inj.mp UInt8.toNat_inj.mp
  have hfirst : ((ctrlPublish <<< 4) ||| (if qos > 0 then qos <<< 1 else 0)).toNat =
      48 + 2 * qos.toNat := by
    rcases hcases with rfl | rfl
    all_goals decide
  have hbit := UInt8.le_iff_toNat_le.mp hqos
  have h1 : (1 : UInt8).toNat = 1 := rfl
  have hparts : (48 + 2 * qos.toNat) / 16 = 3 ∧ (48 + 2 * qos.toNat) % 16 = 2 * qos.toNat := by
    omega
  rw [hfirst, hparts.1, hparts.2, List.append_assoc] at hdec
  rw [decodePublish_eq (by omega) hdec (takeField_lengthPrefixed htopic _)]
  rcases hcases with rfl | rfl
  · rfl
  · have hpid : (if (1 : UInt8) > 0 then writeU16 pid else []) = writeU16 pid := rfl
    rw [hpid, takeId_writeU16]
    rfl

/-- …and so do a SUBSCRIBE… -/
theorem decodeSubscribe_buildSubscribe (htopic : topic.length < 2 ^ 16) (hqos : qos ≤ 2)
    (h : buildSubscribe cap topic qos pid = some buf) :
    buf.length ≤ cap ∧ decodeSubscribe buf = some (pid.toNat, [(topic, qos.toNat)]) := by
  obtain ⟨hpre, hlen⟩ := lengthPrefixed_of_lt htopic
  have hbody : (writeU16 pid ++ lengthPrefixed topic ++ [qos]).length =
      2 + 2 + (strlen16 topic).toNat + 1 := by
    rw [hpre, strlen16, hlen]
    simp only [List.length_append, List.length_cons, List.length_nil, writeU16]
    omega
  have hn := (strlen16 topic).toNat_lt
  obtain ⟨hcap, hdec⟩ := decodePacket_packet h hbody (by omega)
  have hitem : takeRequest (lengthPrefixed topic ++ [qos]) = some ((topic, qos.toNat), []) := by
    have hlt : qos.toNat < 3 := Nat.lt_succ_of_le (UInt8.le_iff_toNat_le.mp hqos)
    simp only [takeRequest, takeField_lengthPrefixed htopic, Option.bind_eq_bind,
      Option.bind_some, if_pos hlt]
  rw [List.append_assoc] at hdec
  exact ⟨hcap, decodeItems_one hdec (by decide) hitem
    (List.append_ne_nil_of_left_ne_nil (lengthPrefixed_ne_nil topic) _)⟩

/-- …and an UNSUBSCRIBE. -/
theorem decodeUnsubscribe_buildUnsubscribe (htopic : topic.length < 2 ^ 16)
    (h : buildUnsubscribe cap topic pid = some buf) :
    buf.length ≤ cap ∧ decodeUnsubscribe buf = some (pid.toNat, [topic]) := by
  obtain ⟨hpre, hlen⟩ := lengthPrefixed_of_lt htopic
  have hbody : (writeU16 pid ++ lengthPrefixed topic).length =
      2 + 2 + (strlen16 topic).toNat := by
    rw [hpre, strlen16, hlen]
    simp only [List.length_append, List.length_cons, List.length_nil, writeU16]
    omega
  have hn := (strlen16 topic).toNat_lt
  obtain ⟨hcap, hdec⟩ := decodePacket_packet h hbody (by omega)
  have hitem : takeField (lengthPrefixed topic) = some (topic, []) := by
    have := takeField_lengthPrefixed htopic []
    rwa [List.append_nil] at this
  exact ⟨hcap, decodeItems_one hdec (by decide) hitem (lengthPrefixed_ne_nil topic)⟩

end ReadBack

/-! ## The contract of a builder -/

/-- **What a builder owes its caller**: it returns -1 and has stored nothing, or it returns `n`
within the capacity, has stored into the first `n` bytes of `out` only, and there, whatever they
held, is now what `reads` says. -/
def Out.Right (cap : UInt16) (reads : List UInt8 → Prop) (o : Out) : Prop :=
  (o.ret = -1 ∧ o.stores = []) ∨
    ∃ n : ℕ, o.ret = n ∧ n ≤ cap.toNat ∧ (∀ w ∈ o.stores, w.1 < n) ∧
      ∀ mem : ℕ → UInt8, reads (contents (storeAll mem o.stores) 0 n)

/-- Storing a packet from the front is right, if the packet is. -/
theorem Out.right_ofBytes {cap : UInt16} {reads : List UInt8 → Prop} :
    ∀ {packet : Option (List UInt8)},
      (∀ buf, packet = some buf → buf.length ≤ cap.toNat ∧ reads buf) →
        (Out.ofBytes packet).Right cap reads
  | none, _ => Or.inl ⟨rfl, rfl⟩
  | some buf, h => by
      obtain ⟨hcap, hreads⟩ := h buf rfl
      refine Or.inr ⟨buf.length, rfl, hcap, fun w hw => ?_, fun mem => ?_⟩
      · have := (mem_storesAt hw).2
        omega
      · have hback := contents_storeAll_storesAt buf 0 mem
        exact hback.symm ▸ hreads

/-- **Each builder refuses exactly when `out` is not six bytes longer than the remaining length**
that it would send. -/
theorem ret_builders_iff (outCap : UInt16) (topic : List UInt8) (payload : ℕ → UInt8)
    (len : UInt16) (qos : UInt8) (pid : UInt16) :
    ((buildPublishOut outCap topic payload len qos pid).ret = -1 ↔
      outCap.toNat < 6 + (2 + (strlen16 topic).toNat + (if qos > 0 then 2 else 0) + len.toNat)) ∧
    ((buildSubscribeOut outCap topic qos pid).ret = -1 ↔
      outCap.toNat < 6 + (4 + (strlen16 topic).toNat + 1)) ∧
    ((buildUnsubscribeOut outCap topic pid).ret = -1 ↔
      outCap.toNat < 6 + (4 + (strlen16 topic).toNat)) := by
  rw [buildPublishOut_eq, buildSubscribeOut_eq, buildUnsubscribeOut_eq, buildPublish,
    length_contents]
  exact ⟨Out.ret_ofBytes_packet _ _ _ _, Out.ret_ofBytes_packet _ _ _ _,
    Out.ret_ofBytes_packet _ _ _ _⟩

/-- **The three builders are right**, for every topic that a 16-bit length can count, and every
payload, packet id and capacity. -/
theorem builders_right (outCap : UInt16) {topic : List UInt8} (htopic : topic.length < 2 ^ 16)
    (payload : ℕ → UInt8) (len : UInt16) {qosPublish qosSubscribe : UInt8}
    (hpublish : qosPublish ≤ 1) (hsubscribe : qosSubscribe ≤ 2) (pid : UInt16) :
    (buildPublishOut outCap topic payload len qosPublish pid).Right outCap (fun bytes =>
      decodePublish bytes = some ⟨topic, contents payload 0 len.toNat, qosPublish.toNat,
        if qosPublish = 0 then none else some pid.toNat, false, false⟩) ∧
    (buildSubscribeOut outCap topic qosSubscribe pid).Right outCap (fun bytes =>
      decodeSubscribe bytes = some (pid.toNat, [(topic, qosSubscribe.toNat)])) ∧
    (buildUnsubscribeOut outCap topic pid).Right outCap (fun bytes =>
      decodeUnsubscribe bytes = some (pid.toNat, [topic])) := by
  have hpayload : (contents payload 0 len.toNat).length < 2 ^ 16 := by
    rw [length_contents]
    exact len.toNat_lt
  refine ⟨?_, ?_, ?_⟩
  · rw [buildPublishOut_eq]
    exact Out.right_ofBytes fun buf h => decodePublish_buildPublish htopic hpayload hpublish h
  · rw [buildSubscribeOut_eq]
    exact Out.right_ofBytes fun buf h => decodeSubscribe_buildSubscribe htopic hsubscribe h
  · rw [buildUnsubscribeOut_eq]
    exact Out.right_ofBytes fun buf h => decodeUnsubscribe_buildUnsubscribe htopic h

/-- A topic of two bytes, with the highest QoS of each. -/
theorem builders_right_gt :
    (buildPublishOut 64 (ascii "gt") (fun _ => 7) 3 1 9).Right 64 (fun bytes =>
      decodePublish bytes = some ⟨ascii "gt", [7, 7, 7], 1, some 9, false, false⟩) ∧
    (buildSubscribeOut 64 (ascii "gt") 2 9).Right 64 (fun bytes =>
      decodeSubscribe bytes = some (9, [(ascii "gt", 2)])) ∧
    (buildUnsubscribeOut 64 (ascii "gt") 9).Right 64 (fun bytes =>
      decodeUnsubscribe bytes = some (9, [ascii "gt"])) :=
  builders_right 64 (by decide) (fun _ => 7) 3 (by decide) (by decide) 9

end GrainWarehouse
