import Mathlib.Data.Nat.Digits.Defs
import GrainWarehouse.Mqtt.Codec

/-!
# Mqtt/Length — which bytes are a remaining length

`mqtt_decode_len` accepts one shape only: up to three bytes with the continuation bit, then one
without it (`mqttDecodeLen_eq_some_iff`); and `mqtt_encode_len` writes that shape
(`opensWith_mqttEncodeLen`), so that what was written reads back (`mqttDecodeLen_mqttEncodeLen`).

The multiplier check of the decoder comes after the sum: a fifth byte is read and added before it is
refused, but the sum it would spoil is never returned.
-/

namespace GrainWarehouse

/-- The base-128 value of length bytes, lowest first; the continuation bits do not count. -/
def base128 (bytes : List UInt8) : ℕ := Nat.ofDigits 128 (bytes.map fun b => b.toNat % 128)

theorem base128_cons (b : UInt8) (bytes : List UInt8) :
    base128 (b :: bytes) = b.toNat % 128 + 128 * base128 bytes := by
  rw [base128, List.map_cons, Nat.ofDigits_cons, base128]

theorem base128_lt (bytes : List UInt8) : base128 bytes < 128 ^ bytes.length := by
  have h := Nat.ofDigits_lt_base_pow_length (b := 128)
    (l := bytes.map fun b : UInt8 => b.toNat % 128) (by decide) fun d hd => by
      obtain ⟨b, -, rfl⟩ := List.mem_map.mp hd
      exact Nat.mod_lt _ (by decide)
  rwa [List.length_map] at h

/-- `bytes` opens with a length field of `n` bytes: only the last has no continuation bit. -/
def OpensWith (bytes : List UInt8) (n : ℕ) : Prop :=
  ∃ front last rest, bytes = front ++ last :: rest ∧ (∀ b ∈ front, 128 ≤ b.toNat) ∧
    last.toNat < 128 ∧ n = front.length + 1

theorem OpensWith.cons_iff {b : UInt8} {bytes : List UInt8} {n : ℕ} (hb : 128 ≤ b.toNat) :
    OpensWith (b :: bytes) (n + 1) ↔ OpensWith bytes n := by
  constructor
  · rintro ⟨front, last, rest, heq, hfront, hlast, hn⟩
    cases front with
    | nil =>
      obtain ⟨rfl, -⟩ := List.cons.inj heq
      omega
    | cons c front =>
      obtain ⟨-, rfl⟩ := List.cons.inj heq
      exact ⟨front, last, rest, rfl, fun b hb => hfront b (List.mem_cons_of_mem _ hb), hlast,
        Nat.succ.inj hn⟩
  · rintro ⟨front, last, rest, rfl, hfront, hlast, rfl⟩
    refine ⟨b :: front, last, rest, rfl, fun c hc => ?_, hlast, rfl⟩
    rcases List.mem_cons.mp hc with rfl | hc
    · exact hb
    · exact hfront c hc

theorem OpensWith.of_lt {b : UInt8} {bytes : List UInt8} {n : ℕ} (hb : b.toNat < 128) :
    OpensWith (b :: bytes) n ↔ n = 1 := by
  constructor
  · rintro ⟨front, last, rest, heq, hfront, -, rfl⟩
    cases front with
    | nil => rfl
    | cons c front =>
      obtain ⟨rfl, -⟩ := List.cons.inj heq
      exact absurd (hfront b (List.mem_cons_self ..)) (Nat.not_le.mpr hb)
  · rintro rfl
    exact ⟨[], b, bytes, rfl, fun _ hc => absurd hc List.not_mem_nil, hb, rfl⟩

theorem OpensWith.pos {bytes : List UInt8} {n : ℕ} (h : OpensWith bytes n) : 0 < n := by
  obtain ⟨front, -, -, -, -, -, rfl⟩ := h
  exact Nat.succ_pos _

/-- One more digit, read on top of a value that fits those before it. -/
theorem toNat_next_digit {value : UInt32} {i : ℕ} (b : UInt8) (hi : i ≤ 3)
    (hvalue : value.toNat < 128 ^ i) :
    (value + (b &&& 0x7F).toUInt32 * UInt32.ofNat (128 ^ i)).toNat =
        value.toNat + b.toNat % 128 * 128 ^ i ∧
      (value + (b &&& 0x7F).toUInt32 * UInt32.ofNat (128 ^ i)).toNat < 128 ^ (i + 1) := by
  have hd : (b &&& 0x7F).toUInt32.toNat = b.toNat % 128 := by
    rw [UInt8.toNat_toUInt32, toNat_and_low_seven]
  have hpow : (128 : ℕ) ^ (i + 1) = 128 ^ i * 128 := pow_succ 128 i
  have hbound : value.toNat + b.toNat % 128 * 128 ^ i < 128 ^ (i + 1) := by
    have := Nat.mul_le_mul_right (128 ^ i) (show b.toNat % 128 ≤ 127 by omega)
    omega
  have hword : (128 : ℕ) ^ (i + 1) < 2 ^ 32 := by interval_cases i <;> decide
  have hval : (value + (b &&& 0x7F).toUInt32 * UInt32.ofNat (128 ^ i)).toNat =
      value.toNat + b.toNat % 128 * 128 ^ i := by
    rw [UInt32.toNat_add, UInt32.toNat_mul, UInt32.toNat_ofNat', hd,
      Nat.mod_eq_of_lt (show 128 ^ i < 2 ^ 32 by omega)]
    omega
  exact ⟨hval, hval.trans_lt hbound⟩

/-- **What the loop accepts**, `i` bytes read: a length field that ends within four bytes, and the
value it returns is that of the field on top of what has been read. -/
theorem decodeLenLoop_eq_some_iff : ∀ {bytes : List UInt8} {value r : UInt32} {i n : ℕ}, i ≤ 4 →
    value.toNat < 128 ^ i →
    (decodeLenLoop bytes (UInt32.ofNat (128 ^ i)) value i = some (r, i + n) ↔
      OpensWith bytes n ∧ i + n ≤ 4 ∧
        r.toNat = value.toNat + 128 ^ i * base128 (bytes.take n))
  | [], _, _, _, _, _, _ => by
      refine iff_of_false (by simp [decodeLenLoop]) ?_
      rintro ⟨⟨front, last, rest, heq, -⟩, -⟩
      simp at heq
  | b :: bs, value, r, i, n, hi, hvalue => by
      rcases hi.lt_or_eq with hlt | rfl
      · obtain ⟨hval, hbound⟩ := toNat_next_digit b (show i ≤ 3 by omega) hvalue
        have hmul : UInt32.ofNat (128 ^ i) * 128 = UInt32.ofNat (128 ^ (i + 1)) := by
          rw [pow_succ, UInt32.ofNat_mul]
          rfl
        simp only [decodeLenLoop, if_neg (multiplier_le (show i ≤ 3 by omega)), hmul, ne_eq,
          and_top_eq_zero_iff]
        by_cases hb : b.toNat < 128
        · rw [if_neg (not_not_intro hb), OpensWith.of_lt hb, Option.some.injEq, Prod.mk.injEq,
            ← UInt32.toNat_inj, hval, Nat.add_left_cancel_iff]
          have hone : base128 [b] = b.toNat % 128 := by
            rw [base128_cons]
            rfl
          have hcomm : b.toNat % 128 * 128 ^ i = 128 ^ i * (b.toNat % 128) := Nat.mul_comm _ _
          constructor
          · rintro ⟨hr, rfl⟩
            refine ⟨rfl, by omega, ?_⟩
            rw [← hr, List.take_succ_cons, List.take_zero, hone, hcomm]
          · rintro ⟨rfl, -, hr⟩
            refine ⟨?_, rfl⟩
            rw [hr, List.take_succ_cons, List.take_zero, hone, hcomm]
        · rw [if_pos hb]
          cases n with
          | zero =>
            refine iff_of_false (fun h => ?_) fun h => absurd h.1.pos (Nat.lt_irrefl 0)
            have := (decodeLenLoop_take (k := i) h (by omega)).1
            omega
          | succ n =>
            rw [OpensWith.cons_iff (by omega), List.take_succ_cons, base128_cons,
              ← Nat.add_assoc, Nat.add_right_comm i n 1, decodeLenLoop_eq_some_iff hlt
                hbound, hval]
            have hvalue : value.toNat + b.toNat % 128 * 128 ^ i +
                128 ^ (i + 1) * base128 (bs.take n) =
                value.toNat + 128 ^ i * (b.toNat % 128 + 128 * base128 (bs.take n)) := by ring
            rw [hvalue]
      · -- the fifth byte
        refine iff_of_false ?_ fun h => by have := h.1.pos; omega
        simp [decodeLenLoop]

/-- **What `mqtt_decode_len` accepts**, and the length it returns. -/
theorem mqttDecodeLen_eq_some_iff {bytes : List UInt8} {value : UInt32} {n : ℕ} :
    mqttDecodeLen bytes = some (value, n) ↔
      OpensWith bytes n ∧ n ≤ 4 ∧ value.toNat = base128 (bytes.take n) := by
  have h : decodeLenLoop bytes (UInt32.ofNat (128 ^ 0)) 0 0 = some (value, 0 + n) ↔ _ :=
    decodeLenLoop_eq_some_iff (Nat.zero_le 4) (by decide)
  simpa [mqttDecodeLen] using h

/-- The last byte of the field is within the bytes, and has no continuation bit. -/
theorem OpensWith.getLast {bytes : List UInt8} {n : ℕ} (h : OpensWith bytes n) :
    n ≤ bytes.length ∧ ∃ b, (bytes.take n).getLast? = some b ∧ b &&& 0x80 = 0 := by
  obtain ⟨front, last, rest, rfl, -, hlast, rfl⟩ := h
  refine ⟨by simp, last, ?_, (and_top_eq_zero_iff last).mpr hlast⟩
  simp [List.take_append]

/-- **Four bytes that go on, or all there are, are no length.** -/
theorem mqttDecodeLen_eq_none {bytes : List UInt8} (h : ∀ b ∈ bytes.take 4, b &&& 0x80 ≠ 0) :
    mqttDecodeLen bytes = none := by
  refine Option.eq_none_iff_forall_ne_some.mpr fun ⟨value, n⟩ hdec => ?_
  obtain ⟨hopens, hfour, -⟩ := mqttDecodeLen_eq_some_iff.mp hdec
  obtain ⟨-, b, hlast, hstop⟩ := hopens.getLast
  have hmem : b ∈ bytes.take 4 := (List.take_subset_take_left _ hfour) (List.mem_of_getLast? hlast)
  exact h b hmem hstop

/-- The encoder's loop ends by itself: five bytes take any 32 bits. -/
theorem encodeLenLoop_eq (len : UInt32) : ∀ k, encodeLenLoop (k + 5) len = mqttEncodeLen len
  | 0 => rfl
  | k + 1 => by
      have hlen : len.toNat < 128 ^ (k + 4 + 1) := len.toNat_lt.trans_le
        ((show 2 ^ 32 ≤ 128 ^ 5 by decide).trans (Nat.pow_le_pow_right (by decide) (by omega)))
      exact (encodeLenLoop_succ hlen).trans (encodeLenLoop_eq len k)

/-- **What the encoder writes** is a length field, and its value is the length. -/
theorem opensWith_encodeLenLoop : ∀ (n : ℕ) (len : UInt32) (rest : List UInt8),
    len.toNat < 128 ^ (n + 1) →
    OpensWith (encodeLenLoop (n + 1) len ++ rest) (encodeLenLoop (n + 1) len).length ∧
      base128 (encodeLenLoop (n + 1) len) = len.toNat
  | n, len, rest, hlen => by
      have hb := toNat_low_seven len
      have hq := toNat_shiftRight_seven len
      have hb128 : (len &&& 0x7F).toUInt8.toNat < 128 := hb.trans_lt (Nat.mod_lt _ (by decide))
      rw [encodeLenLoop]
      split
      · next hpos =>
        have hqpos : 0 < (len >>> 7).toNat := UInt32.lt_iff_toNat_lt.mp hpos
        have htop := toNat_or_top hb128
        cases n with
        | zero => omega
        | succ n =>
          have hpow : (128 : ℕ) ^ (n + 1 + 1) = 128 ^ (n + 1) * 128 := pow_succ 128 (n + 1)
          obtain ⟨hopens, hvalue⟩ := opensWith_encodeLenLoop n (len >>> 7) rest (by omega)
          rw [List.cons_append, List.length_cons, OpensWith.cons_iff (by omega), base128_cons,
            hvalue, htop]
          exact ⟨hopens, by omega⟩
      · next hpos =>
        have hq0 : (len >>> 7).toNat = 0 := by
          rw [gt_iff_lt, UInt32.lt_iff_toNat_lt] at hpos
          exact Nat.eq_zero_of_not_pos hpos
        rw [List.singleton_append, OpensWith.of_lt hb128, base128_cons]
        refine ⟨rfl, ?_⟩
        change _ + 128 * 0 = _
        omega

/-- A length below 2²⁸ is written as a field of at most four bytes, whatever follows it. -/
theorem opensWith_mqttEncodeLen {len : UInt32} (h : len.toNat < 2 ^ 28) (rest : List UInt8) :
    OpensWith (mqttEncodeLen len ++ rest) (mqttEncodeLen len).length ∧
      (mqttEncodeLen len).length ≤ 4 ∧ base128 (mqttEncodeLen len) = len.toNat := by
  have hpow : (2 : ℕ) ^ 28 = 128 ^ (3 + 1) := by norm_num
  rw [mqttEncodeLen, encodeLenLoop_succ (hpow ▸ h)]
  obtain ⟨hopens, hvalue⟩ := opensWith_encodeLenLoop 3 len rest (hpow ▸ h)
  exact ⟨hopens, length_encodeLenLoop_le 4 len, hvalue⟩

/-- The length is written in one to four bytes. -/
theorem length_mqttEncodeLen {len : UInt32} (h : len.toNat < 2 ^ 28) :
    1 ≤ (mqttEncodeLen len).length ∧ (mqttEncodeLen len).length ≤ 4 := by
  obtain ⟨hopens, hfour, -⟩ := opensWith_mqttEncodeLen h []
  exact ⟨hopens.pos, hfour⟩

/-- **A remaining length below 2²⁸ reads back**, whatever follows it. -/
theorem mqttDecodeLen_mqttEncodeLen {len : UInt32} (h : len.toNat < 2 ^ 28) (rest : List UInt8) :
    mqttDecodeLen (mqttEncodeLen len ++ rest) = some (len, (mqttEncodeLen len).length) := by
  obtain ⟨hopens, hfour, hvalue⟩ := opensWith_mqttEncodeLen h rest
  exact mqttDecodeLen_eq_some_iff.mpr ⟨hopens, hfour, by rw [List.take_left, hvalue]⟩

/-- **The remaining length reads back, and only a remaining length is read**: what is written is
read back whatever follows, what is read ends within four bytes and is their base-128 value, and
bytes that only go on are refused. -/
theorem remainingLength_codec :
    (∀ (len : UInt32) (suffix : List UInt8), len.toNat < 2 ^ 28 →
      mqttDecodeLen (mqttEncodeLen len ++ suffix) = some (len, (mqttEncodeLen len).length) ∧
        1 ≤ (mqttEncodeLen len).length ∧ (mqttEncodeLen len).length ≤ 4) ∧
    (∀ (bytes : List UInt8) (value : UInt32) (n : ℕ), mqttDecodeLen bytes = some (value, n) →
      n ≤ min 4 bytes.length ∧ (∃ b, (bytes.take n).getLast? = some b ∧ b &&& 0x80 = 0) ∧
        value.toNat < 2 ^ 28 ∧ value.toNat = base128 (bytes.take n)) ∧
    ∀ bytes : List UInt8, (∀ b ∈ bytes.take 4, b &&& 0x80 ≠ 0) → mqttDecodeLen bytes = none := by
  refine ⟨fun len suffix h => ⟨mqttDecodeLen_mqttEncodeLen h suffix, length_mqttEncodeLen h⟩,
    fun bytes value n hdec => ?_, fun bytes h => mqttDecodeLen_eq_none h⟩
  obtain ⟨hopens, hfour, hvalue⟩ := mqttDecodeLen_eq_some_iff.mp hdec
  obtain ⟨hlen, hlast⟩ := hopens.getLast
  have hlt : base128 (bytes.take n) < 128 ^ 4 :=
    (base128_lt _).trans_le
      (Nat.pow_le_pow_right (by decide) ((List.length_take_le n _).trans hfour))
  refine ⟨le_min hfour hlen, hlast, ?_, hvalue⟩
  rw [hvalue]
  exact hlt

/-- Length 321 in front of a byte, written and read, and five bytes that go on. -/
theorem remainingLength_codec_samples :
    mqttDecodeLen (mqttEncodeLen 321 ++ [0xFF]) = some (321, (mqttEncodeLen 321).length) ∧
      (321 : UInt32).toNat = base128 ([0xC1, 0x02, 0xFF].take 2) ∧
      mqttDecodeLen [0x80, 0x80, 0x80, 0x80, 0x01] = none :=
  ⟨(remainingLength_codec.1 321 [0xFF] (by decide)).1,
    (remainingLength_codec.2.1 [0xC1, 0x02, 0xFF] 321 2 (by decide)).2.2.2,
    remainingLength_codec.2.2 [0x80, 0x80, 0x80, 0x80, 0x01] (by decide +kernel)⟩

end GrainWarehouse
