import GrainWarehouse.Machinery.Numeral

/-!
# Mqtt/Codec — MQTT 3.1.1 packets as `mqtt.c` builds and measures them

The remaining length is a base-128 numeral of at most four bytes, lowest first (`Mqtt/Length`).  The
builders return `none` where the code returns `-1`.
-/

namespace GrainWarehouse

/-! ## The remaining length -/

/-- The loop of `mqtt_encode_len`, at most `n` bytes of it. -/
def encodeLenLoop : ℕ → UInt32 → List UInt8
  | 0, _ => []
  | n + 1, len =>
    let b := (len &&& 0x7F).toUInt8
    let len := len >>> 7
    if len > 0 then (b ||| 0x80) :: encodeLenLoop n len else [b]

/-- `mqtt_encode_len`: 32 bits take five bytes at most. -/
def mqttEncodeLen (len : UInt32) : List UInt8 := encodeLenLoop 5 len

/-- The loop of `mqtt_decode_len`, `i` bytes read. -/
def decodeLenLoop : List UInt8 → (multiplier value : UInt32) → (i : ℕ) → Option (UInt32 × ℕ)
  | [], _, _, _ => none
  | b :: bs, multiplier, value, i =>
    let value := value + (b &&& 0x7F).toUInt32 * multiplier
    if multiplier > 128 * 128 * 128 then none
    else if b &&& 0x80 ≠ 0 then decodeLenLoop bs (multiplier * 128) value (i + 1)
    else some (value, i + 1)

/-- `mqtt_decode_len`: the length, and how many bytes it takes. -/
def mqttDecodeLen (bytes : List UInt8) : Option (UInt32 × ℕ) := decodeLenLoop bytes 1 0 0

/-- Seven bits at a time. -/
theorem toNat_shiftRight_seven (len : UInt32) : (len >>> 7).toNat = len.toNat / 128 := by
  have h : (7 : UInt32).toNat % 32 = 7 := by decide
  rw [UInt32.toNat_shiftRight, h, Nat.shiftRight_eq_div_pow]

theorem toNat_low_seven (len : UInt32) : (len &&& 0x7F).toUInt8.toNat = len.toNat % 128 := by
  have h : (0x7F : UInt32).toNat = 2 ^ 7 - 1 := rfl
  rw [UInt32.toNat_toUInt8, UInt32.toNat_and, h, Nat.and_two_pow_sub_one_eq_mod]
  omega

theorem toNat_and_low_seven (b : UInt8) : (b &&& 0x7F).toNat = b.toNat % 128 := by
  have h : (0x7F : UInt8).toNat = 2 ^ 7 - 1 := rfl
  rw [UInt8.toNat_and, h, Nat.and_two_pow_sub_one_eq_mod]

/-- A byte below 128 with its continuation bit set. -/
theorem toNat_or_top {b : UInt8} (h : b.toNat < 128) : (b ||| 0x80).toNat = b.toNat + 128 := by
  have h80 : (0x80 : UInt8).toNat = 2 ^ 7 * 1 := rfl
  rw [UInt8.toNat_or, h80, Nat.or_comm, ← Nat.two_pow_add_eq_or_of_lt h]
  omega

theorem and_top_eq_zero_iff (b : UInt8) : b &&& 0x80 = 0 ↔ b.toNat < 128 := by
  have h80 : (0x80 : UInt8).toNat = 2 ^ 7 := rfl
  have hb := b.toNat_lt
  rw [← UInt8.toNat_inj, UInt8.toNat_and, h80, Nat.and_two_pow, Nat.testBit_eq_decide_div_mod_eq]
  by_cases h : b.toNat / 2 ^ 7 % 2 = 1
  · simp only [h, decide_true, Bool.toNat_true]
    exact iff_of_false (by decide) (by omega)
  · simp only [h, decide_false, Bool.toNat_false]
    exact iff_of_true (by decide) (by omega)

/-- The digits below the one being read fit the multiplier. -/
theorem multiplier_le {i : ℕ} (hi : i ≤ 3) : ¬ UInt32.ofNat (128 ^ i) > 128 * 128 * 128 := by
  interval_cases i <;> decide

theorem length_encodeLenLoop_le : ∀ (n : ℕ) (len : UInt32), (encodeLenLoop n len).length ≤ n
  | 0, _ => le_rfl
  | n + 1, len => by
      have ih := length_encodeLenLoop_le n (len >>> 7)
      rw [encodeLenLoop]
      split
      · exact Nat.succ_le_succ ih
      · exact Nat.succ_le_succ (Nat.zero_le n)

/-- Rounds beyond the last digit write nothing. -/
theorem encodeLenLoop_succ : ∀ {n : ℕ} {len : UInt32}, len.toNat < 128 ^ (n + 1) →
    encodeLenLoop (n + 2) len = encodeLenLoop (n + 1) len
  | 0, len, h => by
      have hq : ¬ len >>> 7 > 0 := by
        rw [gt_iff_lt, UInt32.lt_iff_toNat_lt, toNat_shiftRight_seven]
        exact Nat.not_lt.mpr (by omega)
      simp only [encodeLenLoop, if_neg hq]
  | n + 1, len, h => by
      have hq : (len >>> 7).toNat < 128 ^ (n + 1) := by
        rw [toNat_shiftRight_seven, Nat.div_lt_iff_lt_mul (by decide), ← pow_succ]
        exact h
      have round (k : ℕ) : encodeLenLoop (k + 1) len = if len >>> 7 > 0 then
          ((len &&& 0x7F).toUInt8 ||| 0x80) :: encodeLenLoop k (len >>> 7)
          else [(len &&& 0x7F).toUInt8] := rfl
      rw [round, round, encodeLenLoop_succ hq]

/-- Decoding looks at no byte behind those it counts. -/
theorem decodeLenLoop_take : ∀ {bytes : List UInt8} {multiplier value rem : UInt32} {i n k : ℕ},
    decodeLenLoop bytes multiplier value i = some (rem, n) → n ≤ i + k →
      i < n ∧ decodeLenLoop (bytes.take k) multiplier value i = some (rem, n)
  | [], _, _, _, _, _, _, h, _ => by cases h
  | b :: bs, multiplier, value, rem, i, n, k, h, hk => by
      simp only [decodeLenLoop] at h
      split_ifs at h with hmul htop
      · have hlt : i < n := by
          have := (decodeLenLoop_take (k := n) h (Nat.le_add_left _ _)).1
          omega
        obtain ⟨k, rfl⟩ : ∃ k', k = k' + 1 := ⟨k - 1, by omega⟩
        refine ⟨hlt, ?_⟩
        simp only [List.take_succ_cons, decodeLenLoop, if_neg hmul, if_pos htop]
        exact (decodeLenLoop_take h (by omega)).2
      · obtain ⟨rfl, rfl⟩ := Prod.mk.inj (Option.some.inj h)
        obtain ⟨k, rfl⟩ : ∃ k', k = k' + 1 := ⟨k - 1, by omega⟩
        refine ⟨Nat.lt_succ_self i, ?_⟩
        simp only [List.take_succ_cons, decodeLenLoop, if_neg hmul, if_neg htop]

theorem mqttDecodeLen_take {bytes : List UInt8} {rem : UInt32} {n k : ℕ}
    (h : mqttDecodeLen bytes = some (rem, n)) (hk : n ≤ k) :
    mqttDecodeLen (bytes.take k) = some (rem, n) :=
  (decodeLenLoop_take h (by omega)).2

/-- Decoding does not look at what follows. -/
theorem decodeLenLoop_append (rest : List UInt8) : ∀ {bytes : List UInt8}
    {multiplier value : UInt32} {i : ℕ} {r : UInt32 × ℕ},
    decodeLenLoop bytes multiplier value i = some r →
      decodeLenLoop (bytes ++ rest) multiplier value i = some r
  | [], _, _, _, _, h => by cases h
  | b :: bs, multiplier, value, i, r, h => by
      simp only [decodeLenLoop, List.cons_append] at h ⊢
      split_ifs at h ⊢
      · exact decodeLenLoop_append rest h
      · exact h

theorem mqttDecodeLen_append {bytes : List UInt8} {r : UInt32 × ℕ}
    (h : mqttDecodeLen bytes = some r) (rest : List UInt8) :
    mqttDecodeLen (bytes ++ rest) = some r := decodeLenLoop_append rest h

/-! ## The builders -/

/-- The packet types, `MQTT_CTRL_…`. -/
abbrev ctrlConnect : UInt8 := 1
abbrev ctrlConnack : UInt8 := 2
abbrev ctrlPublish : UInt8 := 3
abbrev ctrlPuback : UInt8 := 4
abbrev ctrlSubscribe : UInt8 := 8
abbrev ctrlSuback : UInt8 := 9
abbrev ctrlUnsubscribe : UInt8 := 10
abbrev ctrlPingreq : UInt8 := 12
abbrev ctrlPingresp : UInt8 := 13
abbrev ctrlDisconnect : UInt8 := 14

/-- `write_u16`. -/
def writeU16 (v : UInt16) : List UInt8 := [(v >>> 8).toUInt8, v.toUInt8]

/-- `read_u16`. -/
def readU16 (hi lo : UInt8) : UInt16 := (hi.toUInt16 <<< 8) ||| lo.toUInt16

theorem readU16_writeU16 (v : UInt16) : readU16 (v >>> 8).toUInt8 v.toUInt8 = v := or_high_low v

/-- `strlen`, as a `uint16_t`. -/
def strlen16 (s : List UInt8) : UInt16 := UInt16.ofNat s.length

/-- A string behind its length. -/
def lengthPrefixed (s : List UInt8) : List UInt8 :=
  writeU16 (strlen16 s) ++ s.take (strlen16 s).toNat

/-- What `build_connect` sends of the configuration. -/
structure MqttConfig where
  sClientId : List UInt8
  sUser : List UInt8
  sPass : List UInt8
  sKeepalive : UInt8

/-- The packet of this type and flags, remaining length first; `none` when it may not fit. -/
def packet (outCap : ℕ) (first : UInt8) (rem : ℕ) (body : List UInt8) : Option (List UInt8) :=
  if outCap < 2 + 4 + rem then none
  else some (first :: (mqttEncodeLen (UInt32.ofNat rem) ++ body))

/-- The variable header of a CONNECT. -/
def connectVar (c : MqttConfig) : List UInt8 :=
  [0x00, 0x04] ++ ascii "MQTT" ++ [0x04,
    0x02 ||| (if c.sUser = [] then 0 else 0x80) ||| (if c.sPass = [] then 0 else 0x40),
    -- the high byte of an 8-bit keep-alive
    0x00, c.sKeepalive]

/-- The payload of a CONNECT. -/
def connectPayload (c : MqttConfig) : List UInt8 :=
  lengthPrefixed c.sClientId ++ (if c.sUser = [] then [] else lengthPrefixed c.sUser) ++
    (if c.sPass = [] then [] else lengthPrefixed c.sPass)

/-- `build_connect`. -/
def buildConnect (outCap : ℕ) (c : MqttConfig) : Option (List UInt8) :=
  packet outCap (ctrlConnect <<< 4) ((connectVar c).length + (connectPayload c).length)
    (connectVar c ++ connectPayload c)

/-- `build_publish`. -/
def buildPublish (outCap : ℕ) (topic payload : List UInt8) (qos : UInt8) (packetId : UInt16) :
    Option (List UInt8) :=
  packet outCap ((ctrlPublish <<< 4) ||| (if qos > 0 then qos <<< 1 else 0))
    (2 + (strlen16 topic).toNat + (if qos > 0 then 2 else 0) + payload.length)
    (lengthPrefixed topic ++ (if qos > 0 then writeU16 packetId else []) ++ payload)

/-- `build_subscribe`. -/
def buildSubscribe (outCap : ℕ) (topic : List UInt8) (qos : UInt8) (packetId : UInt16) :
    Option (List UInt8) :=
  packet outCap ((ctrlSubscribe <<< 4) ||| 0x02) (2 + 2 + (strlen16 topic).toNat + 1)
    (writeU16 packetId ++ lengthPrefixed topic ++ [qos])

/-- `build_unsubscribe`. -/
def buildUnsubscribe (outCap : ℕ) (topic : List UInt8) (packetId : UInt16) :
    Option (List UInt8) :=
  packet outCap ((ctrlUnsubscribe <<< 4) ||| 0x02) (2 + 2 + (strlen16 topic).toNat)
    (writeU16 packetId ++ lengthPrefixed topic)

/-- `build_pingreq`. -/
def buildPingreq (outCap : ℕ) : Option (List UInt8) :=
  if outCap < 2 then none else some [ctrlPingreq <<< 4, 0]

/-- `build_disconnect`. -/
def buildDisconnect (outCap : ℕ) : Option (List UInt8) :=
  if outCap < 2 then none else some [ctrlDisconnect <<< 4, 0]

end GrainWarehouse
