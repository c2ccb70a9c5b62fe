import GrainWarehouse.Mqtt.Client
import GrainWarehouse.Mqtt.Publish

/-!
# Mqtt/Connect — what a broker reads from the CONNECT of a configured client

`decodeConnect` reads a CONNECT by the grammar of MQTT 3.1.1, and knows nothing of `mqtt.c`: the
remaining length, the flags and what each of them brings, the fields behind their lengths, and
nothing left over.

`mqtt_client_init` keeps 63 bytes of each string and eight bits of the keep-alive, and
`build_connect` sets the two credential flags each for itself.  The packet always fits
(`connectFits`), and **says what was configured exactly when** the keep-alive is below 256 and a
password comes with a user name (`connectRight_iff`).
-/

namespace GrainWarehouse

/-! ## CONNECT in MQTT 3.1.1 -/

/-- A last will. -/
structure Will where
  topic : List UInt8
  message : List UInt8
  qos : ℕ
  retain : Bool

/-- The contents of a CONNECT. -/
structure ConnectPacket where
  clientId : List UInt8
  cleanSession : Bool
  keepAlive : ℕ
  will : Option Will
  user : Option (List UInt8)
  password : Option (List UInt8)

/-- A base-128 numeral, lowest digit first, of at most `k` digits; and what follows it. -/
def varLen : ℕ → List UInt8 → Option (ℕ × List UInt8)
  | 0, _ => none
  | _, [] => none
  | k + 1, b :: bs =>
    if b.toNat < 128 then some (b.toNat, bs)
    else (varLen k bs).map fun r => (b.toNat - 128 + 128 * r.1, r.2)

/-- A field behind its 16-bit length, and what follows it. -/
def takeField : List UInt8 → Option (List UInt8 × List UInt8)
  | hi :: lo :: rest =>
    let n := hi.toNat * 256 + lo.toNat
    if rest.length < n then none else some (rest.take n, rest.drop n)
  | _ => none

/-- …if its flag is set. -/
def takeFieldIf (flag : Bool) (l : List UInt8) : Option (Option (List UInt8) × List UInt8) :=
  if flag then (takeField l).map fun r => (some r.1, r.2) else some (none, l)

/-- **The rules for the connect flags**: bit 0 is reserved, a will's QoS and retain flag need a
will, there is no QoS 3, and a password needs a user name. -/
def flagsValid (flags : ℕ) : Bool :=
  !flags.testBit 0 &&
    (flags.testBit 2 || !(flags.testBit 3 || flags.testBit 4 || flags.testBit 5)) &&
    !(flags.testBit 3 && flags.testBit 4) && (flags.testBit 7 || !flags.testBit 6)

/-- The will of a CONNECT with these flags. -/
def takeWill (flags : ℕ) (l : List UInt8) : Option (Option Will × List UInt8) :=
  if flags.testBit 2 then do
    let (topic, l) ← takeField l
    let (message, l) ← takeField l
    some (some ⟨topic, message, flags / 8 % 4, flags.testBit 5⟩, l)
  else some (none, l)

/-- What stands behind the protocol name. -/
def decodeConnectBody : List UInt8 → Option ConnectPacket
  | level :: flags :: hi :: lo :: l => do
    guard (level = 4 ∧ flagsValid flags.toNat)
    let (clientId, l) ← takeField l
    -- a client without an id starts a clean session
    guard (clientId ≠ [] ∨ flags.toNat.testBit 1)
    let (will, l) ← takeWill flags.toNat l
    let (user, l) ← takeFieldIf (flags.toNat.testBit 7) l
    let (password, l) ← takeFieldIf (flags.toNat.testBit 6) l
    guard (l = [])
    some ⟨clientId, flags.toNat.testBit 1, hi.toNat * 256 + lo.toNat, will, user, password⟩
  | _ => none

/-- **A CONNECT**, from its first byte to its last. -/
def decodeConnect : List UInt8 → Option ConnectPacket
  | first :: l => do
    guard (first = 0x10)
    let (rem, body) ← varLen 4 l
    guard (body.length = rem)
    let (name, l) ← takeField body
    guard (name = ascii "MQTT")
    decodeConnectBody l
  | [] => none

/-- A rule that is kept. -/
theorem guard_of {p : Prop} [Decidable p] (h : p) : (guard p : Option Unit) = some () := if_pos h

/-! ## What was written reads back -/

/-- A length field is read to its last byte. -/
theorem varLen_of_opensWith : ∀ {bytes : List UInt8} {k n : ℕ}, OpensWith bytes n → n ≤ k →
    varLen k bytes = some (base128 (bytes.take n), bytes.drop n)
  | _, 0, _, h, hk => absurd h.pos (Nat.not_lt.mpr hk)
  | [], _, _, ⟨_, _, _, heq, _⟩, _ => absurd heq.symm (by simp)
  | b :: bs, k + 1, n, h, hk => by
      rw [varLen]
      split
      · next hb =>
        obtain rfl := (OpensWith.of_lt hb).mp h
        rw [List.take_succ_cons, List.take_zero, base128_cons, Nat.mod_eq_of_lt hb]
        rfl
      · next hb =>
        obtain ⟨n, rfl⟩ := Nat.exists_eq_add_of_le' h.pos
        have hrest := varLen_of_opensWith ((OpensWith.cons_iff (Nat.not_lt.mp hb)).mp h)
          (Nat.le_of_succ_le_succ hk)
        have htop : b.toNat - 128 = b.toNat % 128 := by
          have := b.toNat_lt
          omega
        rw [hrest, Option.map_some, htop, List.take_succ_cons, base128_cons, List.drop_succ_cons]

/-- **The remaining length reads back.** -/
theorem varLen_mqttEncodeLen {len : UInt32} (h : len.toNat < 2 ^ 28) (rest : List UInt8) :
    varLen 4 (mqttEncodeLen len ++ rest) = some (len.toNat, rest) := by
  obtain ⟨hopens, hfour, hvalue⟩ := opensWith_mqttEncodeLen h rest
  rw [varLen_of_opensWith hopens hfour, List.take_left, hvalue, List.drop_left]

/-- **A field reads back.** -/
theorem takeField_lengthPrefixed {s : List UInt8} (h : s.length < 2 ^ 16) (rest : List UInt8) :
    takeField (lengthPrefixed s ++ rest) = some (s, rest) := by
  obtain ⟨hpre, hlen⟩ := lengthPrefixed_of_lt h
  have hval : (UInt16.ofNat s.length >>> 8).toUInt8.toNat * 256 +
      (UInt16.ofNat s.length).toUInt8.toNat = s.length := by
    have h8 : (8 : UInt16).toNat % 16 = 8 := by decide
    rw [UInt16.toNat_toUInt8, UInt16.toNat_toUInt8, UInt16.toNat_shiftRight, h8,
      Nat.shiftRight_eq_div_pow, hlen]
    omega
  simp only [hpre, writeU16, List.cons_append, List.nil_append, takeField]
  rw [hval, if_neg (by rw [List.length_append]; omega), List.take_left, List.drop_left]

/-- A string that is sent only if there is one. -/
theorem takeFieldIf_lengthPrefixed {s : List UInt8} (h : s.length < 2 ^ 16) (rest : List UInt8) :
    takeFieldIf (decide (s ≠ [])) ((if s = [] then [] else lengthPrefixed s) ++ rest) =
      some (if s = [] then none else some s, rest) := by
  by_cases hs : s = []
  · simp [takeFieldIf, hs]
  · simp [takeFieldIf, hs, takeField_lengthPrefixed h]

/-! ## The CONNECT of a configuration -/

/-- The flags `build_connect` sends. -/
def connectFlags (c : MqttConfig) : UInt8 :=
  0x02 ||| (if c.sUser = [] then 0 else 0x80) ||| (if c.sPass = [] then 0 else 0x40)

/-- What the flags say, one by one. -/
theorem connectFlags_spec (c : MqttConfig) :
    (connectFlags c).toNat.testBit 1 = true ∧ (connectFlags c).toNat.testBit 2 = false ∧
      (connectFlags c).toNat.testBit 7 = decide (c.sUser ≠ []) ∧
      (connectFlags c).toNat.testBit 6 = decide (c.sPass ≠ []) ∧
      (flagsValid (connectFlags c).toNat = true ↔ (c.sPass = [] ∨ c.sUser ≠ [])) := by
  by_cases hu : c.sUser = []
  all_goals
    by_cases hp : c.sPass = []
    all_goals
      simp only [connectFlags, ne_eq, hu, hp, not_true_eq_false, not_false_eq_true, if_true,
        if_false, decide_true, decide_false]
      decide

/-- What a broker reads from a configuration, if it may be sent. -/
def MqttConfig.packet (c : MqttConfig) : ConnectPacket where
  clientId := c.sClientId
  cleanSession := true
  keepAlive := c.sKeepalive.toNat
  will := none
  user := if c.sUser = [] then none else some c.sUser
  password := if c.sPass = [] then none else some c.sPass

/-- **A string that is left out is empty.** -/
theorem MqttConfig.getD_packet (c : MqttConfig) :
    c.packet.user.getD [] = c.sUser ∧ c.packet.password.getD [] = c.sPass := by
  have hgetD (s : List UInt8) : (if s = [] then none else some s).getD [] = s := by
    split_ifs with hs
    · exact hs.symm
    · rfl
  exact ⟨hgetD c.sUser, hgetD c.sPass⟩

/-- …and one that is sent is not. -/
theorem MqttConfig.mem_user_packet {c : MqttConfig} {u : List UInt8} :
    u ∈ c.packet.user ↔ c.sUser ≠ [] ∧ u = c.sUser := by
  change (if c.sUser = [] then none else some c.sUser) = some u ↔ _
  split_ifs with hs
  · exact iff_of_false not_false fun h => h.1 hs
  · rw [Option.some.injEq, eq_comm, and_iff_right hs]

/-- Strings that fit the buffers of the client. -/
structure MqttConfig.Fits (c : MqttConfig) : Prop where
  clientId : c.sClientId.length ≤ 63
  user : c.sUser.length ≤ 63
  pass : c.sPass.length ≤ 63

theorem connectVar_eq (c : MqttConfig) :
    connectVar c = lengthPrefixed (ascii "MQTT") ++ [0x04, connectFlags c, 0x00, c.sKeepalive] := by
  have hname : lengthPrefixed (ascii "MQTT") = [0x00, 0x04] ++ ascii "MQTT" := by decide
  rw [hname]
  rfl

/-- **The flags decide whether the rest may be read**; it then reads back. -/
theorem decodeConnectBody_connect {c : MqttConfig} (h : c.Fits) :
    decodeConnectBody ([0x04, connectFlags c, 0x00, c.sKeepalive] ++ connectPayload c) =
      if c.sPass = [] ∨ c.sUser ≠ [] then some c.packet else none := by
  obtain ⟨hclean, hwill, huser, hpass, hvalid⟩ := connectFlags_spec c
  have hid := h.clientId
  have hu := h.user
  have hp := h.pass
  have hrest := takeFieldIf_lengthPrefixed (s := c.sPass) (by omega) []
  rw [List.append_nil] at hrest
  rw [connectPayload, List.append_assoc]
  simp only [List.cons_append, List.nil_append, decodeConnectBody, hvalid, true_and, hclean, huser,
    hpass, takeField_lengthPrefixed (s := c.sClientId) (by omega), takeWill, hwill]
  by_cases hv : c.sPass = [] ∨ c.sUser ≠ []
  · rw [if_pos hv]
    simp only [guard_of hv, Option.bind_eq_bind, Option.bind_some, or_true, guard_of,
      Bool.false_eq_true, if_false, takeFieldIf_lengthPrefixed (s := c.sUser) (by omega), hrest,
      MqttConfig.packet]
    simp
  · have hfalse : (guard (c.sPass = [] ∨ c.sUser ≠ []) : Option Unit) = none := if_neg hv
    rw [if_neg hv, hfalse]
    rfl

/-- **A CONNECT reads back as its configuration, if its flags may be read at all.** -/
theorem decodeConnect_connect {c : MqttConfig} (h : c.Fits)
    (hsmall : (connectVar c).length + (connectPayload c).length < 2 ^ 28) :
    decodeConnect ((ctrlConnect <<< 4) ::
        (mqttEncodeLen (UInt32.ofNat ((connectVar c).length + (connectPayload c).length)) ++
          (connectVar c ++ connectPayload c))) =
      if c.sPass = [] ∨ c.sUser ≠ [] then some c.packet else none := by
  have hnat : (UInt32.ofNat ((connectVar c).length + (connectPayload c).length)).toNat =
      (connectVar c).length + (connectPayload c).length := by
    rw [UInt32.toNat_ofNat']
    exact Nat.mod_eq_of_lt (by omega)
  have hfirst : ctrlConnect <<< 4 = 0x10 := by decide
  have hname : takeField (connectVar c ++ connectPayload c) =
      some (ascii "MQTT", [0x04, connectFlags c, 0x00, c.sKeepalive] ++ connectPayload c) := by
    rw [connectVar_eq, List.append_assoc, takeField_lengthPrefixed (by decide)]
  simp only [decodeConnect, guard_of hfirst, Option.bind_eq_bind, Option.bind_some,
    varLen_mqttEncodeLen (hnat ▸ hsmall), hnat, guard_of List.length_append, hname, guard_of,
    decodeConnectBody_connect h]

/-! ## The buffers -/

theorem length_lengthPrefixed_le (s : List UInt8) : (lengthPrefixed s).length ≤ 2 + s.length := by
  rw [lengthPrefixed, List.length_append, List.length_take, writeU16]
  exact Nat.add_le_add_left (min_le_right _ _) 2

/-- The bytes of a CONNECT stay in `var[16]` and `payload[256]`. -/
theorem length_connect_le {c : MqttConfig} (h : c.Fits) :
    (connectVar c).length = 10 ∧ (connectPayload c).length ≤ 195 := by
  have hid := length_lengthPrefixed_le c.sClientId
  have hu := length_lengthPrefixed_le c.sUser
  have hp := length_lengthPrefixed_le c.sPass
  have := h.clientId
  have := h.user
  have := h.pass
  refine ⟨rfl, ?_⟩
  rw [connectPayload, List.length_append, List.length_append]
  have hnil : ([] : List UInt8).length = 0 := rfl
  split_ifs
  all_goals omega

/-- **A CONNECT is never refused for want of space**, and never longer than its buffer. -/
theorem buildConnect_fits {c : MqttConfig} (h : c.Fits) : ∃ buf,
    buildConnect 256 c = some buf ∧ buf.length ≤ 256 ∧
      decodeConnect buf = if c.sPass = [] ∨ c.sUser ≠ [] then some c.packet else none := by
  obtain ⟨hvar, hpayload⟩ := length_connect_le h
  have hlen := length_encodeLenLoop_le 5
    (UInt32.ofNat ((connectVar c).length + (connectPayload c).length))
  refine ⟨_, ?_, ?_, decodeConnect_connect h (by omega)⟩
  · rw [buildConnect, packet, if_neg (by omega)]
  · simp only [List.length_cons, List.length_append, mqttEncodeLen]
    omega

/-! ## The exact condition -/

/-- The keep-alive in effect: 10 s where none is asked for. -/
def effectiveKeepalive (keepaliveSec : UInt16) : ℕ :=
  if keepaliveSec = 0 then 10 else keepaliveSec.toNat

/-- **The CONNECT of a client with this configuration is right**: it is written within its buffers,
and a broker reads from it what was configured, the strings being `text` where MQTT wants text. -/
def ConnectRight (text : List UInt8 → Prop) (clientId user pass : List UInt8)
    (keepaliveSec : UInt16) (e : Esp Client) : Prop :=
  let c := (clientInit clientId user pass keepaliveSec e).up.toMqttConfig
  (connectVar c).length ≤ 16 ∧ (connectPayload c).length ≤ 256 ∧
    ∃ buf p, buildConnect 256 c = some buf ∧ buf.length ≤ 256 ∧ decodeConnect buf = some p ∧
      text p.clientId ∧ (∀ u ∈ p.user, text u) ∧ p.will = none ∧
      p.clientId = clientId.take 63 ∧ p.user.getD [] = user.take 63 ∧
      p.password.getD [] = pass.take 63 ∧ p.keepAlive = effectiveKeepalive keepaliveSec

/-- What `mqtt_client_init` keeps. -/
theorem config_clientInit (clientId user pass : List UInt8) (keepaliveSec : UInt16)
    (e : Esp Client) : (clientInit clientId user pass keepaliveSec e).up.toMqttConfig =
      ⟨clientId.take 63, user.take 63, pass.take 63,
        (if keepaliveSec ≠ 0 then keepaliveSec else 10).toUInt8⟩ := by
  obtain ⟨evs, heq⟩ := setState_up .idle none { e with
    up := { e.up with
      sClientId := clientId.take 63
      sUser := user.take 63
      sPass := pass.take 63
      sKeepalive := (if keepaliveSec ≠ 0 then keepaliveSec else 10).toUInt8 } }
  simp only [clientInit]
  rw [heq]
  rfl

/-- …is an eight-bit keep-alive. -/
theorem toNat_keepalive (keepaliveSec : UInt16) :
    (if keepaliveSec ≠ 0 then keepaliveSec else 10).toUInt8.toNat =
      effectiveKeepalive keepaliveSec % 256 := by
  rw [UInt16.toNat_toUInt8, effectiveKeepalive]
  split_ifs <;> simp_all

theorem take_eq_nil_iff_63 (s : List UInt8) : s.take 63 = [] ↔ s = [] := by
  rw [List.take_eq_nil_iff, or_iff_right (by decide)]

/-- **The CONNECT is right if and only if** the keep-alive in effect is below 256, a password comes
with a user name, and the client id and the user name are still text where they are cut. -/
theorem connectRight_iff (text : List UInt8 → Prop) (clientId user pass : List UInt8)
    (keepaliveSec : UInt16) (e : Esp Client) :
    ConnectRight text clientId user pass keepaliveSec e ↔
      effectiveKeepalive keepaliveSec < 256 ∧ (pass = [] ∨ user ≠ []) ∧
        text (clientId.take 63) ∧ (user ≠ [] → text (user.take 63)) := by
  have hkept := toNat_keepalive keepaliveSec
  rw [ConnectRight, config_clientInit]
  generalize (if keepaliveSec ≠ 0 then keepaliveSec else 10).toUInt8 = kept at hkept ⊢
  have hfits : MqttConfig.Fits ⟨clientId.take 63, user.take 63, pass.take 63, kept⟩ :=
    ⟨List.length_take_le _ _, List.length_take_le _ _, List.length_take_le _ _⟩
  obtain ⟨hvar, hpayload⟩ := length_connect_le hfits
  obtain ⟨buf, hbuf, hlen, hdec⟩ := buildConnect_fits hfits
  dsimp only at hdec ⊢
  simp only [ne_eq, take_eq_nil_iff_63] at hdec
  constructor
  · rintro ⟨-, -, buf', p, hbuf', -, hdec', htext, husertext, -, hclient, huser, -, hkeep⟩
    obtain rfl : buf = buf' := Option.some.inj (hbuf.symm.trans hbuf')
    rw [hdec] at hdec'
    split_ifs at hdec' with hvalid
    obtain rfl := Option.some.inj hdec'
    refine ⟨?_, hvalid, htext, fun hne => husertext _ (MqttConfig.mem_user_packet.mpr ⟨?_, rfl⟩)⟩
    · change kept.toNat = _ at hkeep
      rw [← hkeep]
      exact kept.toNat_lt
    · rwa [ne_eq, take_eq_nil_iff_63]
  · rintro ⟨hkeep, hvalid, htext, husertext⟩
    rw [if_pos hvalid] at hdec
    obtain ⟨huser, hpass⟩ :=
      MqttConfig.getD_packet ⟨clientId.take 63, user.take 63, pass.take 63, kept⟩
    refine ⟨by omega, by omega, buf, _, hbuf, hlen, hdec, htext, fun u hu => ?_, rfl, rfl, huser,
      hpass, ?_⟩
    · obtain ⟨hne, rfl⟩ := MqttConfig.mem_user_packet.mp hu
      exact husertext (by rwa [ne_eq, take_eq_nil_iff_63] at hne)
    · change kept.toNat = _
      rw [hkept, Nat.mod_eq_of_lt hkeep]

/-- A keep-alive of five minutes is sent as 44 seconds. -/
theorem connectRight_fiveMinutes :
    ¬ ConnectRight (fun _ => True) (ascii "grain") [] [] 300 (Esp.boot Client.boot []) := by
  rintro ⟨-, -, buf, p, hbuf, -, hdec, -, -, -, -, -, -, hkeep⟩
  have h44 : ((buildConnect 256
      (clientInit (ascii "grain") [] [] 300 (Esp.boot Client.boot [])).up.toMqttConfig).bind
        decodeConnect).map ConnectPacket.keepAlive = some 44 := by decide +kernel
  rw [hbuf, Option.bind_some, hdec, Option.map_some, hkeep] at h44
  exact absurd h44 (by decide)

end GrainWarehouse
