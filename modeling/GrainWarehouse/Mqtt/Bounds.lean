import GrainWarehouse.Machinery.Reads
import GrainWarehouse.Mqtt.Receive

/-!
# Mqtt/Bounds — where the receiving functions read

`handle_rx`, `mqtt_decode_len` and `handle_publish` once more, on pointers into a memory whose first
`len` bytes are the segment.  They compute what the functions on lists do (`handleRx_slice`), and
**they stay within the segment unless it ends in a CONNACK without a body** (`rxSafe_iff`), whose
first byte is printed all the same.
-/

namespace GrainWarehouse

/-! ## Segments of whole packets -/

/-- A CONNACK without a body. -/
def EmptyConnack (pkt : List UInt8) : Prop :=
  Whole pkt [] ∧ (pkt.headD 0 >>> 4) &&& 0x0F = ctrlConnack

/-- **The segment is made of whole packets, the last of which is a CONNACK without a body.** -/
def EndsInEmptyConnack (seg : List UInt8) : Prop :=
  ∃ (pkts : List (List UInt8)) (pkt : List UInt8), (∀ p ∈ pkts, ∃ payload, Whole p payload) ∧
    EmptyConnack pkt ∧ seg = pkts.flatten ++ pkt

/-- There is a packet at the front of such a segment. -/
theorem EndsInEmptyConnack.front {seg : List UInt8} (h : EndsInEmptyConnack seg) :
    ∃ pkt payload rest, Whole pkt payload ∧ seg = pkt ++ rest := by
  obtain ⟨pkts, last, hpkts, hlast, rfl⟩ := h
  match pkts, hpkts with
  | [], _ => exact ⟨last, [], [], hlast.1, (List.append_nil _).symm⟩
  | p :: pkts, hpkts =>
    obtain ⟨payload, hp⟩ := hpkts p List.mem_cons_self
    exact ⟨p, payload, pkts.flatten ++ last, hp, by rw [List.flatten_cons, List.append_assoc]⟩

/-- **Behind a packet at the front, or the packet itself.** -/
theorem endsInEmptyConnack_append_iff {pkt payload rest : List UInt8} (hw : Whole pkt payload) :
    EndsInEmptyConnack (pkt ++ rest) ↔
      EmptyConnack pkt ∧ rest = [] ∨ EndsInEmptyConnack rest := by
  constructor
  · rintro ⟨pkts, last, hpkts, hlast, hseg⟩
    match pkts, hpkts with
    | [], _ =>
      rw [List.flatten_nil, List.nil_append, ← List.append_nil last] at hseg
      obtain ⟨rfl, -, rfl⟩ := hw.front_unique hlast.1 hseg
      exact Or.inl ⟨hlast, rfl⟩
    | p :: pkts, hpkts =>
      obtain ⟨payload', hp⟩ := hpkts p List.mem_cons_self
      rw [List.flatten_cons, List.append_assoc] at hseg
      obtain ⟨rfl, -, rfl⟩ := hw.front_unique hp hseg
      exact Or.inr ⟨pkts, last, fun q hq => hpkts q (List.mem_cons_of_mem _ hq), hlast, rfl⟩
  · rintro (⟨hlast, rfl⟩ | ⟨pkts, last, hpkts, hlast, rfl⟩)
    · exact ⟨[], pkt, fun _ h => absurd h List.not_mem_nil, hlast, by simp⟩
    · refine ⟨pkt :: pkts, last, ?_, hlast, by simp⟩
      exact List.forall_mem_cons.mpr ⟨⟨payload, hw⟩, hpkts⟩

variable (mem : ℕ → UInt8)

/-! ## The functions -/

/-- The loop of `mqtt_decode_len`, `i` bytes read and `left` to go. -/
def decodeLenAt (p : ℕ) : (left : ℕ) → (multiplier value : UInt32) → (i : ℕ) →
    Reads (Option (UInt32 × ℕ))
  | 0, _, _, _ => pure none
  | left + 1, multiplier, value, i => do
    let b ← Reads.read mem (p + i)
    let value := value + (b &&& 0x7F).toUInt32 * multiplier
    if multiplier > 128 * 128 * 128 then pure none
    else if b &&& 0x80 ≠ 0 then decodeLenAt p left (multiplier * 128) value (i + 1)
    else pure (some (value, i + 1))

/-- `mqtt_decode_len`. -/
def mqttDecodeLenAt (p inLen : ℕ) : Reads (Option (UInt32 × ℕ)) := decodeLenAt mem p inLen 1 0 0

/-- A message as it is handed to the callback: the topic has been copied, the payload has not. -/
structure PublishAt where
  qos : UInt8
  topic : List UInt8
  payloadAt : ℕ
  payloadLen : ℕ
  pid : UInt16

/-- The message that the callback finds. -/
def PublishAt.publish (m : PublishAt) : Publish where
  qos := m.qos
  topic := m.topic
  payload := slice mem m.payloadAt m.payloadLen
  pid := m.pid

/-- `handle_publish` from the packet id on, up to the callback. -/
def publishPidAt (qos : UInt8) (topic : List UInt8) (p stop : ℕ) : Reads (Option PublishAt) :=
  if qos > 0 then
    if p + 2 > stop then pure none
    else do
      let hi ← Reads.read mem p
      let lo ← Reads.read mem (p + 1)
      pure (some ⟨qos, topic, p + 2, stop - (p + 2), readU16 hi lo⟩)
  else pure (some ⟨qos, topic, p, stop - p, 0⟩)

/-- …and from the topic on. -/
def publishTopicAt (qos : UInt8) (p stop : ℕ) : Reads (Option PublishAt) :=
  if p + 2 > stop then pure none
  else do
    let hi ← Reads.read mem p
    let lo ← Reads.read mem (p + 1)
    let tn := (readU16 hi lo).toNat
    if p + 2 + tn > stop then pure none
    else do
      let tn := if tn ≥ 128 then 127 else tn
      let topic ← Reads.copy mem (p + 2) tn
      publishPidAt mem qos topic (p + 2 + tn) stop

/-- `handle_publish`, up to the callback. -/
def handlePublishAt (buf len : ℕ) : Reads (Option PublishAt) :=
  if len < 4 then pure none
  else do
    let first ← Reads.read mem buf
    let qos := ((first &&& 0x0F) >>> 1) &&& 0x03
    match ← mqttDecodeLenAt mem (buf + 1) (len - 1) with
    | none => pure none
    | some (rem, remBytes) =>
      publishTopicAt mem qos (buf + 1 + remBytes)
        (min (buf + 1 + remBytes + rem.toNat) (buf + len))

/-- The CONNACK branch of `handle_rx`; a rejected one is printed. -/
def connackAt (payload : ℕ) (plen : UInt16) : Reads Bool :=
  if plen ≥ 2 then do
    let code ← Reads.read mem (payload + 1)
    if code = 0 then pure true
    else do
      let _flags ← Reads.read mem payload
      let _code ← Reads.read mem (payload + 1)
      pure false
  else do
    let _flags ← Reads.read mem payload
    pure false

/-- The `switch` of `handle_rx`. -/
def handlePacketAt (type : UInt8) (data total payload : ℕ) (plen : UInt16) :
    Reads (Option PublishAt) :=
  if type = ctrlConnack then do
    let _accepted ← connackAt mem payload plen
    pure none
  else if type = ctrlPublish then handlePublishAt mem data total
  else pure none

/-- The head of a round of `handle_rx`: the first byte, the remaining length and its bytes, unless
no whole packet is left. -/
def roundAt (data len : ℕ) : Reads (Option (UInt8 × UInt32 × ℕ)) :=
  if len < 2 then pure none
  else do
    let first ← Reads.read mem data
    match ← mqttDecodeLenAt mem (data + 1) (len - 1) with
    | none => pure none
    | some (rem, remBytes) =>
      if 1 + remBytes + rem.toNat > len then pure none
      else pure (some (first, rem, remBytes))

/-- A packet that `handle_rx` has met. -/
structure PacketAt where
  data : ℕ
  total : ℕ
  payload : ℕ
  publish : Option PublishAt

/-- `handle_rx`, for `n` rounds at most; `none` if these are not enough. -/
def handleRxAt : (n : ℕ) → (data len : ℕ) → Reads (Option (List PacketAt))
  | 0, _, _ => pure none
  | n + 1, data, len => do
    match ← roundAt mem data len with
    | none => pure (some [])
    | some (first, rem, remBytes) =>
      let total := 1 + remBytes + rem.toNat
      let payload := data + 1 + remBytes
      let type := (first >>> 4) &&& 0x0F
      let publish ← handlePacketAt mem type data total payload rem.toUInt16
      let rest ← handleRxAt n (data + total) (len - total)
      pure (rest.map fun packets => ⟨data, total, payload, publish⟩ :: packets)

/-! ## `mqtt_decode_len` -/

theorem val_decodeLenAt (p : ℕ) : ∀ (left : ℕ) (multiplier value : UInt32) (i : ℕ),
    (decodeLenAt mem p left multiplier value i).val =
      decodeLenLoop (slice mem (p + i) left) multiplier value i
  | 0, _, _, _ => rfl
  | left + 1, multiplier, value, i => by
      rw [slice_succ, decodeLenLoop]
      simp only [decodeLenAt, Reads.val_bind]
      by_cases hmul : multiplier > 128 * 128 * 128
      · rw [if_pos hmul, if_pos hmul, Reads.val_pure]
      · rw [if_neg hmul, if_neg hmul]
        by_cases htop : mem (p + i) &&& 0x80 ≠ 0
        · rw [if_pos htop, if_pos htop]
          exact val_decodeLenAt p left _ _ (i + 1)
        · rw [if_neg htop, if_neg htop, Reads.val_pure]

theorem within_decodeLenAt (p : ℕ) : ∀ (left : ℕ) (multiplier value : UInt32) (i : ℕ),
    (decodeLenAt mem p left multiplier value i).Within (p + i) (p + i + left)
  | 0, _, _, _ => Reads.within_pure none
  | left + 1, multiplier, value, i => by
      simp only [decodeLenAt, Reads.within_bind_iff]
      refine ⟨Reads.within_read mem le_rfl (by omega), ?_⟩
      split_ifs
      · exact Reads.within_pure none
      · exact (within_decodeLenAt p left _ _ (i + 1)).mono (by omega) (by omega)
      · exact Reads.within_pure _

@[simp] theorem val_mqttDecodeLenAt (p inLen : ℕ) :
    (mqttDecodeLenAt mem p inLen).val = mqttDecodeLen (slice mem p inLen) :=
  val_decodeLenAt mem p inLen 1 0 0

/-- **`mqtt_decode_len` reads what it is told to.** -/
theorem within_mqttDecodeLenAt (p inLen : ℕ) :
    (mqttDecodeLenAt mem p inLen).Within p (p + inLen) :=
  within_decodeLenAt mem p inLen 1 0 0

/-! ## `handle_publish` -/

/-- What stands from `p` up to `stop`, as `handle_publish` sees it. -/
theorem val_publishPidAt (qos : UInt8) (topic : List UInt8) (p stop : ℕ) :
    (publishPidAt mem qos topic p stop).val.map (PublishAt.publish mem) =
      (publishPid qos (slice mem p (stop - p))).map fun r => ⟨qos, topic, r.2, r.1⟩ := by
  unfold publishPidAt publishPid
  by_cases hq : qos > 0
  · rw [if_pos hq, if_pos hq]
    by_cases hshort : p + 2 > stop
    · rw [if_pos hshort]
      obtain h0 | h1 : stop - p = 0 ∨ stop - p = 1 := by omega
      · rw [h0]
        rfl
      · rw [h1]
        rfl
    · have hsub : stop - p - 2 = stop - (p + 2) := by omega
      rw [if_neg hshort, slice_of_two_le mem p (by omega), hsub]
      rfl
  · rw [if_neg hq, if_neg hq]
    rfl

theorem val_publishTopicAt (qos : UInt8) (p stop : ℕ) :
    (publishTopicAt mem qos p stop).val.map (PublishAt.publish mem) =
      match slice mem p (stop - p) with
      | hi :: lo :: rest =>
        if rest.length < (readU16 hi lo).toNat then none
        else
          let tn := if (readU16 hi lo).toNat ≥ 128 then 127 else (readU16 hi lo).toNat
          (publishPid qos (rest.drop tn)).map fun r => ⟨qos, rest.take tn, r.2, r.1⟩
      | _ => none := by
  unfold publishTopicAt
  by_cases hshort : p + 2 > stop
  · rw [if_pos hshort]
    obtain h0 | h1 : stop - p = 0 ∨ stop - p = 1 := by omega
    · rw [h0]
      rfl
    · rw [h1]
      rfl
  · rw [if_neg hshort, slice_of_two_le mem p (by omega)]
    simp only [Reads.val_bind, length_slice]
    set tn := (readU16 (mem p) (mem (p + 1))).toNat with htn
    by_cases hlong : p + 2 + tn > stop
    · rw [if_pos hlong, if_pos (show stop - p - 2 < tn by omega)]
      rfl
    · rw [if_neg hlong, if_neg (show ¬ stop - p - 2 < tn by omega), Reads.val_bind,
        val_publishPidAt]
      set kept := if tn ≥ 128 then 127 else tn with hkept
      have hle : kept ≤ tn := by
        rw [hkept]
        split_ifs <;> omega
      have hrest : stop - (p + 2 + kept) = stop - p - 2 - kept := by omega
      rw [drop_slice, take_slice, Nat.min_eq_left (by omega), hrest]
      rfl

/-- **On pointers as on lists**: `handle_publish`. -/
theorem val_handlePublishAt (buf len : ℕ) :
    (handlePublishAt mem buf len).val.map (PublishAt.publish mem) =
      parsePublish (slice mem buf len) := by
  unfold handlePublishAt parsePublish
  rw [length_slice]
  by_cases hfour : len < 4
  · rw [if_pos hfour, if_pos hfour]
    rfl
  · rw [if_neg hfour, if_neg hfour, headD_slice mem buf (by omega), tail_slice]
    simp only [Reads.val_bind, val_mqttDecodeLenAt]
    cases mqttDecodeLen (slice mem (buf + 1) (len - 1)) with
    | none => rfl
    | some r =>
      obtain ⟨rem, n⟩ := r
      have hslice : ((slice mem buf len).take (1 + n + rem.toNat)).drop (1 + n) =
          slice mem (buf + 1 + n)
            (min (buf + 1 + n + rem.toNat) (buf + len) - (buf + 1 + n)) := by
        rw [take_slice, drop_slice, ← Nat.add_assoc]
        congr 1
        omega
      dsimp only
      rw [hslice]
      exact val_publishTopicAt mem _ _ _

/-- A message whose payload stands from `lo` up to `hi`. -/
def PublishAt.In (lo hi : ℕ) (r : Option PublishAt) : Prop :=
  ∀ m ∈ r, lo ≤ m.payloadAt ∧ m.payloadAt + m.payloadLen ≤ hi

theorem PublishAt.in_none (lo hi : ℕ) : PublishAt.In lo hi none := fun _ h => by cases h

theorem PublishAt.in_some {lo hi : ℕ} {m : PublishAt}
    (h : lo ≤ m.payloadAt ∧ m.payloadAt + m.payloadLen ≤ hi) : PublishAt.In lo hi (some m) :=
  fun _ hm => Option.some.inj hm ▸ h

theorem spec_publishPidAt (qos : UInt8) (topic : List UInt8) {p stop : ℕ} (hp : p ≤ stop) :
    (publishPidAt mem qos topic p stop).Spec p stop (PublishAt.In p stop) := by
  unfold publishPidAt
  split_ifs with _ hshort
  · exact Reads.spec_pure (PublishAt.in_none p stop)
  · have hle : p + 2 ≤ stop := by omega
    refine (Reads.spec_read mem le_rfl (by omega)).bind fun _ _ =>
      (Reads.spec_read mem (by omega) (by omega)).bind fun _ _ => Reads.spec_pure ?_
    exact PublishAt.in_some ⟨Nat.le_add_right p 2, (Nat.add_sub_cancel' hle).le⟩
  · exact Reads.spec_pure (PublishAt.in_some ⟨le_rfl, (Nat.add_sub_cancel' hp).le⟩)

theorem spec_publishTopicAt (qos : UInt8) (p stop : ℕ) :
    (publishTopicAt mem qos p stop).Spec p stop (PublishAt.In p stop) := by
  unfold publishTopicAt
  split_ifs with hshort
  · exact Reads.spec_pure (PublishAt.in_none p stop)
  · refine (Reads.spec_read mem le_rfl (by omega)).bind fun hi _ =>
      (Reads.spec_read mem (by omega) (by omega)).bind fun lo _ => ?_
    by_cases hlong : p + 2 + (readU16 hi lo).toNat > stop
    · rw [if_pos hlong]
      exact Reads.spec_pure (PublishAt.in_none p stop)
    · rw [if_neg hlong]
      set kept := if (readU16 hi lo).toNat ≥ 128 then 127 else (readU16 hi lo).toNat with hkept
      have hle : kept ≤ (readU16 hi lo).toNat := by
        rw [hkept]
        split_ifs <;> omega
      refine (Reads.spec_copy mem (by omega) (by omega)).bind fun topic _ => ?_
      refine (spec_publishPidAt mem qos topic (by omega)).mono (by omega) le_rfl fun r hr m hm => ?_
      have := hr m hm
      omega

/-- **`handle_publish` stays within its packet**, and so does the payload that it hands on. -/
theorem spec_handlePublishAt (buf len : ℕ) :
    (handlePublishAt mem buf len).Spec buf (buf + len) (PublishAt.In buf (buf + len)) := by
  unfold handlePublishAt
  split_ifs with hfour
  · exact Reads.spec_pure (PublishAt.in_none _ _)
  · have hdec : (mqttDecodeLenAt mem (buf + 1) (len - 1)).Spec buf (buf + len) fun _ => True :=
      ⟨(within_mqttDecodeLenAt mem _ _).mono (by omega) (by omega), trivial⟩
    refine (Reads.spec_read mem le_rfl (by omega)).bind fun first _ => hdec.bind fun r _ => ?_
    cases r with
    | none => exact Reads.spec_pure (PublishAt.in_none _ _)
    | some r =>
      refine (spec_publishTopicAt mem _ _ _).mono (by omega) (Nat.min_le_right _ _)
        fun r hr m hm => ?_
      have := hr m hm
      omega

/-! ## `handle_rx` -/

/-- The head of a round stays within the segment. -/
theorem within_roundAt (data len : ℕ) : (roundAt mem data len).Within data (data + len) := by
  unfold roundAt
  split_ifs with hlen
  · exact Reads.within_pure none
  · simp only [Reads.within_bind_iff]
    refine ⟨Reads.within_read mem le_rfl (by omega),
      (within_mqttDecodeLenAt mem _ _).mono (by omega) (by omega), ?_⟩
    split
    · exact Reads.within_pure none
    · split_ifs
      · exact Reads.within_pure none
      · exact Reads.within_pure _

/-- **A round finds no packet**, and then there is none. -/
theorem rxBody_of_roundAt_none {data len : ℕ} (h : (roundAt mem data len).val = none)
    (e : Esp Client) : rxBody (slice mem data len, e) = none := by
  unfold roundAt at h
  rw [rxBody, length_slice]
  by_cases hlen : len < 2
  · rw [if_pos hlen]
  · rw [if_neg hlen] at h ⊢
    rw [tail_slice]
    simp only [Reads.val_bind, val_mqttDecodeLenAt] at h
    cases hdec : mqttDecodeLen (slice mem (data + 1) (len - 1)) with
    | none => rfl
    | some r =>
      rw [hdec] at h
      dsimp only at h ⊢
      split_ifs at h with htotal
      rw [if_pos htotal]

/-- **…or it finds the one at the front.** -/
theorem whole_of_roundAt {data len n : ℕ} {first : UInt8} {rem : UInt32}
    (h : (roundAt mem data len).val = some (first, rem, n)) :
    first = mem data ∧ 1 + n + rem.toNat ≤ len ∧
      Whole (slice mem data (1 + n + rem.toNat)) (slice mem (data + 1 + n) rem.toNat) := by
  unfold roundAt at h
  by_cases hlen : len < 2
  · rw [if_pos hlen] at h
    cases h
  · rw [if_neg hlen] at h
    simp only [Reads.val_bind, val_mqttDecodeLenAt] at h
    cases hdec : mqttDecodeLen (slice mem (data + 1) (len - 1)) with
    | none =>
      rw [hdec] at h
      cases h
    | some r =>
      obtain ⟨rem', n'⟩ := r
      rw [hdec] at h
      dsimp only at h
      split_ifs at h with htotal
      obtain ⟨hfirst, rfl, rfl⟩ : mem data = first ∧ rem' = rem ∧ n' = n := by
        simpa only [Reads.val_pure, Option.some.injEq, Prod.mk.injEq] using h
      refine ⟨hfirst.symm, by omega, rem', n', ?_, length_slice _ _ _, ?_⟩
      · rw [tail_slice]
        have htake := mqttDecodeLen_take (k := n' + rem'.toNat) hdec (Nat.le_add_right _ _)
        rw [take_slice, Nat.min_eq_left (by omega)] at htake
        rwa [Nat.add_assoc, Nat.add_sub_cancel_left]
      · rw [drop_slice, Nat.add_sub_cancel_left, Nat.add_assoc]

/-- A CONNACK is read up to its body's end, but one byte of it in any case. -/
theorem within_connackAt {payload lo hi : ℕ} {plen : UInt16} (hlo : lo ≤ payload)
    (hone : payload < hi) (hhi : payload + plen.toNat ≤ hi) :
    (connackAt mem payload plen).Within lo hi := by
  have hflags : (Reads.read mem payload).Within lo hi := Reads.within_read mem hlo hone
  unfold connackAt
  by_cases htwo : plen ≥ 2
  · have hlen : 2 ≤ plen.toNat := UInt16.le_iff_toNat_le.mp htwo
    have hcode : (Reads.read mem (payload + 1)).Within lo hi :=
      Reads.within_read mem (by omega) (by omega)
    rw [if_pos htwo, Reads.within_bind_iff]
    refine ⟨hcode, ?_⟩
    split_ifs
    · exact Reads.within_pure true
    · simp only [Reads.within_bind_iff]
      exact ⟨hflags, hcode, Reads.within_pure false⟩
  · rw [if_neg htwo, Reads.within_bind_iff]
    exact ⟨hflags, Reads.within_pure false⟩

/-- **The `switch` stays within the packet**, but for the first byte of a body that is not there. -/
theorem within_handlePacketAt_iff (type : UInt8) {data total payload len : ℕ} {rem : UInt32}
    (hrem : rem.toNat < 2 ^ 16) (htotal : payload + rem.toNat = data + total)
    (hle : total ≤ len) :
    (handlePacketAt mem type data total payload rem.toUInt16).Within 0 (data + len) ↔
      ¬ (type = ctrlConnack ∧ rem = 0 ∧ total = len) := by
  have hplen : rem.toUInt16.toNat = rem.toNat := by
    rw [UInt32.toNat_toUInt16]
    exact Nat.mod_eq_of_lt hrem
  have hzero : rem = 0 ↔ rem.toNat = 0 := UInt32.toNat_inj.symm
  unfold handlePacketAt
  split_ifs with hconnack hpublish
  · simp only [Reads.within_bind_iff, hconnack, true_and]
    constructor
    · rintro ⟨hin, -⟩ ⟨rfl, rfl⟩
      have hflags := hin payload List.mem_cons_self
      rw [UInt32.toNat_zero] at htotal
      omega
    · intro hnot
      refine ⟨within_connackAt mem (Nat.zero_le _) ?_ (by omega), Reads.within_pure none⟩
      rw [hzero] at hnot
      omega
  · exact iff_of_true ((spec_handlePublishAt mem data total).1.mono (Nat.zero_le _) (by omega))
      fun h => hconnack h.1
  · exact iff_of_true (Reads.within_pure none) fun h => hconnack h.1

/-- What the callback is handed by the `switch` stands in the packet. -/
theorem in_handlePacketAt (type : UInt8) (data total payload : ℕ) (plen : UInt16) :
    PublishAt.In data (data + total) (handlePacketAt mem type data total payload plen).val := by
  unfold handlePacketAt
  split_ifs
  · exact PublishAt.in_none _ _
  · exact (spec_handlePublishAt mem data total).2
  · exact PublishAt.in_none _ _

/-- The packet at the front is a CONNACK without a body. -/
theorem emptyConnack_slice_iff {data n : ℕ} {rem : UInt32}
    (hw : Whole (slice mem data (1 + n + rem.toNat)) (slice mem (data + 1 + n) rem.toNat)) :
    EmptyConnack (slice mem data (1 + n + rem.toNat)) ↔
      (mem data >>> 4) &&& 0x0F = ctrlConnack ∧ rem = 0 := by
  have hzero : rem = 0 ↔ rem.toNat = 0 := UInt32.toNat_inj.symm
  rw [EmptyConnack, headD_slice mem data (by omega), and_comm, hzero]
  refine and_congr_right fun _ => ⟨fun hnil => ?_, fun h0 => ?_⟩
  · have hbody := congrArg List.length (hw.front_unique hnil (rfl : _ ++ [] = _ ++ [])).2.1
    rwa [length_slice] at hbody
  · rwa [h0, slice_zero, ← h0] at hw

/-- **`handle_rx` comes to an end**, and all it hands to the callback stands in the segment. -/
theorem handleRxAt_some : ∀ (n data len : ℕ), len < n → ∃ packets,
    (handleRxAt mem n data len).val = some packets ∧
      ∀ p ∈ packets, PublishAt.In data (data + len) p.publish
  | n + 1, data, len, hn => by
      simp only [handleRxAt, Reads.val_bind]
      cases hround : (roundAt mem data len).val with
      | none => exact ⟨[], rfl, fun _ h => absurd h List.not_mem_nil⟩
      | some r =>
        obtain ⟨first, rem, k⟩ := r
        obtain ⟨-, hle, hwhole⟩ := whole_of_roundAt mem hround
        obtain ⟨packets, hval, hin⟩ := handleRxAt_some n (data + (1 + k + rem.toNat))
          (len - (1 + k + rem.toNat)) (by omega)
        simp only [Reads.val_bind, Reads.val_pure, hval, Option.map_some]
        refine ⟨_, rfl, List.forall_mem_cons.mpr ⟨fun m hm => ?_, fun p hp m hm => ?_⟩⟩
        · have := in_handlePacketAt mem _ _ _ _ _ m hm
          omega
        · have := hin p hp m hm
          omega

/-- **`handle_rx` reads within the segment unless it ends in a CONNACK without a body.** -/
theorem within_handleRxAt_iff : ∀ (n data len : ℕ), len < n → len < 2 ^ 16 →
    ((handleRxAt mem n data len).Within 0 (data + len) ↔
      ¬ EndsInEmptyConnack (slice mem data len))
  | n + 1, data, len, hn, hlen => by
      simp only [handleRxAt, Reads.within_bind_iff]
      rw [and_iff_right ((within_roundAt mem data len).mono (Nat.zero_le _) le_rfl)]
      cases hround : (roundAt mem data len).val with
      | none =>
        refine iff_of_true (Reads.within_pure _) fun hends => ?_
        obtain ⟨pkt, payload, rest, hw, hseg⟩ := hends.front
        have hnone := rxBody_of_roundAt_none mem hround (Esp.boot .boot [])
        rw [hseg, rxBody_whole hw] at hnone
        cases hnone
      | some r =>
        obtain ⟨first, rem, k⟩ := r
        obtain ⟨rfl, hle, hwhole⟩ := whole_of_roundAt mem hround
        have hempty := emptyConnack_slice_iff mem hwhole
        have hpkt : (handlePacketAt mem ((mem data >>> 4) &&& 0x0F) data (1 + k + rem.toNat)
            (data + 1 + k) rem.toUInt16).Within 0 (data + len) ↔ _ :=
          within_handlePacketAt_iff mem _ (by omega) (by omega) hle
        have hrest := within_handleRxAt_iff n (data + (1 + k + rem.toNat))
          (len - (1 + k + rem.toNat)) (by omega) (by omega)
        have hend : data + (1 + k + rem.toNat) + (len - (1 + k + rem.toNat)) = data + len := by
          omega
        have hnil : slice mem (data + (1 + k + rem.toNat)) (len - (1 + k + rem.toNat)) = [] ↔
            1 + k + rem.toNat = len := by
          rw [← List.length_eq_zero_iff, length_slice]
          omega
        rw [hend] at hrest
        rw [slice_split mem data hle, endsInEmptyConnack_append_iff hwhole, not_or, ← hrest, hempty,
          hnil, and_assoc, ← hpkt]
        simp only [Reads.within_bind_iff, Reads.within_pure, and_true]

/-! ## As on lists -/

/-- The packets that have been met are handled, one after the other. -/
def handleAll (packets : List PacketAt) (e : Esp Client) : Esp Client :=
  packets.foldl (fun e p => handlePacket (slice mem p.data p.total)
    (slice mem p.payload (p.data + p.total - p.payload)) e) e

theorem loop_rxBody_slice : ∀ (n data len : ℕ) {packets : List PacketAt} (e : Esp Client),
    (handleRxAt mem n data len).val = some packets →
      (loop rxBody n (slice mem data len, e)).2 = handleAll mem packets e
  | 0, _, _, _, _, h => by cases h
  | n + 1, data, len, packets, e, h => by
      simp only [handleRxAt, Reads.val_bind] at h
      cases hround : (roundAt mem data len).val with
      | none =>
        rw [hround] at h
        obtain rfl := Option.some.inj h
        rw [loop_of_none (rxBody_of_roundAt_none mem hround e)]
        rfl
      | some r =>
        obtain ⟨first, rem, k⟩ := r
        obtain ⟨rfl, hle, hwhole⟩ := whole_of_roundAt mem hround
        rw [hround] at h
        simp only [Reads.val_bind, Reads.val_pure] at h
        obtain ⟨rest, hrest, rfl⟩ := Option.map_eq_some_iff.mp h
        have hbody := rxBody_whole hwhole
          (slice mem (data + (1 + k + rem.toNat)) (len - (1 + k + rem.toNat))) e
        rw [← slice_split mem data hle] at hbody
        have hlen : data + (1 + k + rem.toNat) - (data + 1 + k) = rem.toNat := by omega
        rw [loop_succ_of_some hbody, loop_rxBody_slice n _ _ _ hrest, handleAll, handleAll,
          List.foldl_cons, hlen]

/-- **On pointers as on lists**: `handle_rx` handles the packets that it has met, and
`val_handlePublishAt` says what it finds in a PUBLISH. -/
theorem handleRx_slice (len : ℕ) {packets : List PacketAt} (e : Esp Client)
    (h : (handleRxAt mem (len + 1) 0 len).val = some packets) :
    handleRx (slice mem 0 len) e = handleAll mem packets e := by
  rw [handleRx, length_slice]
  exact loop_rxBody_slice mem (len + 1) 0 len e h

/-! ## The law -/

/-- **`handle_rx` comes to an end, reads nothing behind the segment and hands nothing behind it to
the callback.** -/
structure RxSafe (len : ℕ) : Prop where
  terminates : (handleRxAt mem (len + 1) 0 len).val.isSome
  reads : ∀ i ∈ (handleRxAt mem (len + 1) 0 len).addrs, i < len
  payloads : ∀ packets ∈ (handleRxAt mem (len + 1) 0 len).val, ∀ p ∈ packets, ∀ m ∈ p.publish,
    m.payloadAt + m.payloadLen ≤ len

/-- **`handle_rx` is safe exactly on the segments that do not end in a CONNACK without a body.** -/
theorem rxSafe_iff {len : ℕ} (hlen : len ≤ 512) :
    RxSafe mem len ↔ ¬ EndsInEmptyConnack (slice mem 0 len) := by
  have hreads := within_handleRxAt_iff mem (len + 1) 0 len (Nat.lt_succ_self _) (by omega)
  obtain ⟨packets, hval, hin⟩ := handleRxAt_some mem (len + 1) 0 len (Nat.lt_succ_self _)
  rw [Nat.zero_add] at hreads hin
  constructor
  · exact fun hsafe => hreads.mp fun i hi => ⟨Nat.zero_le i, hsafe.reads i hi⟩
  · intro hends
    refine ⟨by rw [hval]; rfl, fun i hi => (hreads.mpr hends i hi).2, fun ps hps p hp m hm => ?_⟩
    obtain rfl : packets = ps := Option.some.inj (hval.symm.trans hps)
    exact (hin p hp m hm).2

/-- An accepting CONNACK. -/
theorem rxSafe_iff_accepted :
    RxSafe (fun i => [0x20, 2, 0, 0].getD i 0xFF) 4 ↔
      ¬ EndsInEmptyConnack (slice (fun i => [0x20, 2, 0, 0].getD i 0xFF) 0 4) :=
  rxSafe_iff _ (by decide)

/-- **A CONNACK without a body is read beyond its end.** -/
theorem emptyConnack_unsafe : ¬ RxSafe (fun i => [0x20, 0].getD i 0xFF) 2 := fun h =>
  absurd (h.reads 2 (by decide +kernel)) (by decide)

end GrainWarehouse
