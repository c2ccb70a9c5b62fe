import GrainWarehouse.Mqtt.Segments

/-!
# Mqtt/Publish — a PUBLISH, from its bytes to the callback

`IsPublish buf m` says that the bytes are a well-formed PUBLISH with the contents of `m`, however
its remaining length is written.  `handle_publish` moves on by as many bytes as it keeps of the
topic, so that **a topic of 128 bytes or more runs into the payload** (`parsePublish_of_isPublish`):
the message is handed on and acknowledged as it was sent exactly when the topic is shorter
(`publishAnswered_iff`).
-/

namespace GrainWarehouse

/-- The packet id that goes with this QoS. -/
def pidBytes (qos : UInt8) (pid : UInt16) : List UInt8 := if qos > 0 then writeU16 pid else []

/-- What the remaining length of a PUBLISH counts. -/
def Publish.body (m : Publish) : List UInt8 :=
  lengthPrefixed m.topic ++ pidBytes m.qos m.pid ++ m.payload

/-- **A well-formed PUBLISH** of QoS 0 or 1; DUP and RETAIN may be set. -/
structure IsPublish (buf : List UInt8) (m : Publish) : Prop where
  type : (buf.headD 0 >>> 4) &&& 0x0F = ctrlPublish
  qos : ((buf.headD 0 &&& 0x0F) >>> 1) &&& 0x03 = m.qos
  qos_le : m.qos = 0 ∨ m.qos = 1
  topic_lt : m.topic.length < 2 ^ 16
  whole : Whole buf m.body

/-! ## Reading it -/

/-- A packet id is read where it was written, and nothing without one. -/
theorem publishPid_pidBytes (qos : UInt8) (pid : UInt16) (rest : List UInt8) :
    publishPid qos (pidBytes qos pid ++ rest) = some (if qos > 0 then pid else 0, rest) := by
  unfold publishPid pidBytes
  by_cases hq : qos > 0
  · simp only [if_pos hq, writeU16, List.cons_append, List.nil_append, readU16_writeU16]
  · simp only [if_neg hq, List.nil_append]

/-- …and what stands before the two of them ends up in the payload, or moves it there. -/
theorem publishPid_append (qos : UInt8) (pid : UInt16) (extra payload : List UInt8) :
    ∃ r, publishPid qos (extra ++ (pidBytes qos pid ++ payload)) = some r ∧
      r.2.length = extra.length + payload.length := by
  unfold publishPid pidBytes
  by_cases hq : qos > 0
  · simp only [if_pos hq, writeU16, List.cons_append, List.nil_append]
    match extra with
    | [] => exact ⟨_, rfl, (Nat.zero_add _).symm⟩
    | [a] => exact ⟨_, rfl, Nat.add_comm _ _⟩
    | a :: b :: extra =>
      refine ⟨(readU16 a b, extra ++ (pid >>> 8).toUInt8 :: pid.toUInt8 :: payload), rfl, ?_⟩
      simp only [List.length_append, List.length_cons]
      omega
  · simp only [if_neg hq, List.nil_append]
    exact ⟨_, rfl, List.length_append⟩

theorem lengthPrefixed_of_lt {s : List UInt8} (h : s.length < 2 ^ 16) :
    lengthPrefixed s = writeU16 (UInt16.ofNat s.length) ++ s ∧
      (UInt16.ofNat s.length).toNat = s.length := by
  have hlen : (UInt16.ofNat s.length).toNat = s.length := by
    rw [UInt16.toNat_ofNat']
    exact Nat.mod_eq_of_lt h
  refine ⟨?_, hlen⟩
  rw [lengthPrefixed, strlen16, hlen, List.take_length]

/-- **What `handle_publish` reads**: a topic of up to 127 bytes, and the rest behind these, where
the packet id and the payload only are if the topic ends there. -/
theorem parsePublish_of_isPublish {buf : List UInt8} {m : Publish} (h : IsPublish buf m) :
    parsePublish buf =
      (publishPid m.qos (m.topic.drop 127 ++ (pidBytes m.qos m.pid ++ m.payload))).map
        fun r => ⟨m.qos, m.topic.take 127, r.2, r.1⟩ := by
  obtain ⟨rem, n, hdec, hlen, hbody⟩ := h.whole
  obtain ⟨hpre, htn⟩ := lengthPrefixed_of_lt h.topic_lt
  have hbody' : m.body = (UInt16.ofNat m.topic.length >>> 8).toUInt8 ::
      (UInt16.ofNat m.topic.length).toUInt8 ::
        (m.topic ++ (pidBytes m.qos m.pid ++ m.payload)) := by
    simp only [Publish.body, hpre, writeU16, List.cons_append, List.nil_append, List.append_assoc]
  have hrem : rem.toNat = m.body.length := by
    rw [hbody, List.length_drop, hlen]
    omega
  have hfour : ¬ buf.length < 4 := by
    have := (decodeLenLoop_take hdec (Nat.le_add_left n 0)).1
    have := congrArg List.length hbody'
    simp only [List.length_cons] at this
    omega
  have hrest : ¬ (m.topic ++ (pidBytes m.qos m.pid ++ m.payload)).length < m.topic.length := by
    rw [List.length_append]
    omega
  simp only [parsePublish, if_neg hfour, hdec, ← hlen, List.take_length, ← hbody, hbody',
    readU16_writeU16, htn, if_neg hrest, h.qos]
  by_cases hshort : m.topic.length ≥ 128
  · rw [if_pos hshort, List.drop_append_of_le_length (by omega),
      List.take_append_of_le_length (by omega)]
  · rw [if_neg hshort, List.drop_left, List.take_left, List.take_of_length_le (by omega),
      List.drop_of_length_le (by omega), List.nil_append]

/-! ## Handling it -/

/-- The message is handed on with its payload, and with the topic as far as there is room for it;
QoS 1 is acknowledged under its own packet id. -/
def answer (m : Publish) (e : Esp Client) : Esp Client :=
  let e := note (.message (m.topic.take 127) m.payload) e
  if m.qos = 1 then
    (tcpSend e.up.link (pubackPacket m.pid) (note (.puback (pubackPacket m.pid)) e)).2
  else e

/-- **One message, and one PUBACK for QoS 1.** -/
structure PublishAnswered (m : Publish) (e e' : Esp Client) : Prop where
  eq : e' = answer m e
  trace : e'.up.trace = e.up.trace ++ .message (m.topic.take 127) m.payload ::
    if m.qos = 1 then [.puback (pubackPacket m.pid)] else []

/-- Sending leaves the record alone. -/
theorem trace_tcpSend (linkId : ℤ) (data : List UInt8) (e : Esp Client) :
    (tcpSend linkId data e).2.up.trace = e.up.trace :=
  (Esp.stable_up fun (c : Client) _ => c.trace = e.up.trace).tcpSend linkId data rfl

theorem trace_answer (m : Publish) (e : Esp Client) :
    (answer m e).up.trace = e.up.trace ++ .message (m.topic.take 127) m.payload ::
      if m.qos = 1 then [.puback (pubackPacket m.pid)] else [] := by
  simp only [answer]
  split_ifs
  · rw [trace_tcpSend]
    simp only [note, List.append_assoc, List.singleton_append]
  · rfl

/-- **A segment that is a PUBLISH is handed to `handle_publish`.** -/
theorem handleRx_of_isPublish {buf : List UInt8} {m : Publish} (h : IsPublish buf m)
    (e : Esp Client) : handleRx buf e = handlePublish buf e := by
  have hround := rxBody_whole h.whole [] e
  rw [List.append_nil] at hround
  have hpkt : handlePacket buf m.body e = handlePublish buf e := by
    simp only [handlePacket, h.type]
    rfl
  rw [handleRx, loop_succ_of_some hround, loop_of_none (by rfl), hpkt]

/-- …and what is read there is answered. -/
theorem handlePublish_eq {buf : List UInt8} {m : Publish} (h : parsePublish buf = some m)
    {e : Esp Client} (hcb : e.up.sMsgCb = true) :
    handlePublish buf e =
      let e := note (.message m.topic m.payload) e
      if m.qos = 1 then
        (tcpSend e.up.link (pubackPacket m.pid) (note (.puback (pubackPacket m.pid)) e)).2
      else e := by
  simp only [handlePublish, h, hcb, if_true]

/-- The first thing in the record is the message that was read. -/
theorem trace_handlePublish {buf : List UInt8} {m : Publish} (h : parsePublish buf = some m)
    {e : Esp Client} (hcb : e.up.sMsgCb = true) : ∃ evs,
    (handlePublish buf e).up.trace = e.up.trace ++ .message m.topic m.payload :: evs := by
  rw [handlePublish_eq h hcb]
  dsimp only
  split_ifs
  · rw [trace_tcpSend]
    exact ⟨[.puback (pubackPacket m.pid)], by simp [note]⟩
  · exact ⟨[], rfl⟩

/-- **A PUBLISH is answered as it was sent exactly when its topic fits the buffer**, where the
callback is set. -/
theorem publishAnswered_iff {buf : List UInt8} {m : Publish} (h : IsPublish buf m)
    (e : Esp Client) (hcb : e.up.sMsgCb = true) :
    PublishAnswered m e (handleRx buf e) ↔ m.topic.length ≤ 127 := by
  have hparse := parsePublish_of_isPublish h
  rw [handleRx_of_isPublish h]
  constructor
  · intro hans
    obtain ⟨r, hr, hrlen⟩ := publishPid_append m.qos m.pid (m.topic.drop 127) m.payload
    rw [hr, Option.map_some] at hparse
    obtain ⟨evs, htrace⟩ := trace_handlePublish hparse hcb
    rw [hans.trace, List.append_cancel_left_eq, List.cons.injEq, MqttEv.message.injEq] at htrace
    have hsame := congrArg List.length htrace.1.2
    rw [hrlen, List.length_drop] at hsame
    omega
  · intro hshort
    rw [List.drop_of_length_le hshort, List.nil_append, publishPid_pidBytes, Option.map_some]
      at hparse
    have heq : handlePublish buf e = answer m e := by
      rw [handlePublish_eq hparse hcb, answer]
      dsimp only
      by_cases hq : m.qos = 1
      · rw [if_pos hq, if_pos hq, if_pos (by rw [hq]; decide)]
      · rw [if_neg hq, if_neg hq]
    exact ⟨heq, by rw [heq]; exact trace_answer m e⟩

/-- A connected client whose callback is set. -/
def listening : Esp Client :=
  Esp.boot { Client.boot with sState := .connected, sMsgCb := true } []

/-- A message with a topic of this length, to be acknowledged. -/
def longTopic (n : ℕ) : Publish := ⟨1, List.replicate n 97, [49], 7⟩

/-- …with its remaining length in two bytes. -/
def longTopicBytes (n : ℕ) : List UInt8 :=
  0x32 :: (mqttEncodeLen (UInt32.ofNat (longTopic n).body.length) ++ (longTopic n).body)

theorem isPublish_longTopicBytes {n : ℕ} (h : n = 127 ∨ n = 128) :
    IsPublish (longTopicBytes n) (longTopic n) := by
  rcases h with rfl | rfl
  · exact ⟨by decide, by decide, by decide, by decide +kernel, 132, 2, by decide +kernel,
      by decide +kernel, by decide +kernel⟩
  · exact ⟨by decide, by decide, by decide, by decide +kernel, 133, 2, by decide +kernel,
      by decide +kernel, by decide +kernel⟩

theorem publishAnswered_iff_full :
    PublishAnswered (longTopic 127) listening (handleRx (longTopicBytes 127) listening) ↔
      (longTopic 127).topic.length ≤ 127 :=
  publishAnswered_iff (isPublish_longTopicBytes (Or.inl rfl)) listening rfl

/-- **One byte more, and the last one of the topic counts as the packet id.** -/
theorem longTopic_misread : IsPublish (longTopicBytes 128) (longTopic 128) ∧
    ¬ PublishAnswered (longTopic 128) listening (handleRx (longTopicBytes 128) listening) :=
  ⟨isPublish_longTopicBytes (Or.inr rfl), fun h => absurd h.trace (by decide +kernel)⟩

/-! ## What `build_publish` builds -/

/-- The string behind its length, cut where its length says. -/
theorem lengthPrefixed_take (s : List UInt8) :
    lengthPrefixed (s.take (strlen16 s).toNat) = lengthPrefixed s ∧
      (s.take (strlen16 s).toNat).length = (strlen16 s).toNat := by
  have hle : (strlen16 s).toNat ≤ s.length := by
    rw [strlen16, UInt16.toNat_ofNat']
    exact Nat.mod_le _ _
  have hlen : (s.take (strlen16 s).toNat).length = (strlen16 s).toNat := by
    rw [List.length_take, Nat.min_eq_left hle]
  refine ⟨?_, hlen⟩
  have hlt : (s.take (strlen16 s).toNat).length < 2 ^ 16 := by
    rw [hlen]
    exact (strlen16 s).toNat_lt
  rw [(lengthPrefixed_of_lt hlt).1, hlen, UInt16.ofNat_toNat, lengthPrefixed]

/-- **What `build_publish` builds is a well-formed PUBLISH**, its topic as long as a `uint16_t`
says. -/
theorem isPublish_buildPublish {outCap : ℕ} {topic payload buf : List UInt8} {qos : UInt8}
    {pid : UInt16} (hbuf : buildPublish outCap topic payload qos pid = some buf)
    (hqos : qos = 0 ∨ qos = 1) (hpayload : payload.length < 2 ^ 16) :
    IsPublish buf ⟨qos, topic.take (strlen16 topic).toNat, payload, pid⟩ := by
  obtain ⟨hpre, htopic⟩ := lengthPrefixed_take topic
  set m : Publish := ⟨qos, topic.take (strlen16 topic).toNat, payload, pid⟩
  have hlt := (strlen16 topic).toNat_lt
  have hbody : m.body = lengthPrefixed topic ++ pidBytes qos pid ++ payload := by
    rw [Publish.body, hpre]
  have hrem : m.body.length =
      2 + (strlen16 topic).toNat + (if qos > 0 then 2 else 0) + payload.length := by
    rw [hbody, lengthPrefixed, pidBytes]
    split_ifs
    all_goals
      simp only [List.length_append, writeU16, List.length_cons, List.length_nil, htopic]
  have hnat : (UInt32.ofNat m.body.length).toNat = m.body.length := by
    rw [UInt32.toNat_ofNat', hrem]
    split_ifs <;> omega
  have hsmall : m.body.length < 2 ^ 28 := by
    rw [hrem]
    split_ifs <;> omega
  have hbytes : buf = ((ctrlPublish <<< 4) ||| (if qos > 0 then qos <<< 1 else 0)) ::
      (mqttEncodeLen (UInt32.ofNat m.body.length) ++ m.body) := by
    rw [buildPublish, ← hrem, packet] at hbuf
    split_ifs at hbuf
    all_goals
      rw [hbody]
      simp_all [pidBytes]
  refine ⟨?_, ?_, hqos, ?_, ?_⟩
  · rw [hbytes, List.headD_cons]
    rcases hqos with rfl | rfl <;> decide
  · rw [hbytes, List.headD_cons]
    change _ = qos
    rcases hqos with rfl | rfl <;> decide
  · rw [htopic]
    exact hlt
  · rw [hbytes]
    refine ⟨_, _, mqttDecodeLen_mqttEncodeLen (by rwa [hnat]) m.body, ?_, ?_⟩
    · rw [List.length_cons, List.length_append, hnat]
      omega
    · rw [Nat.add_comm, List.drop_succ_cons, List.drop_left]

end GrainWarehouse
