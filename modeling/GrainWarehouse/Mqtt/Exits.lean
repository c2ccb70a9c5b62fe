import GrainWarehouse.Esp8266.Answers
import GrainWarehouse.Mqtt.Connect
import GrainWarehouse.Mqtt.Session

/-!
# Mqtt/Exits — what `mqtt_connect_broker` leaves behind when it fails

Seven exits: no host, no WiFi, no TCP link, a CONNECT that does not fit, a failed send, a refusal
and a timeout.  All of them leave the client outside a session, and the fourth is never taken
(`buildConnect_fits`).  The last two close the TCP link, the failed send does not: **a failure
leaves no link behind exactly when** the module, having opened the link, takes the CONNECT
(`exitsCleanly_iff`).
-/

namespace GrainWarehouse

/-! ## Attempts to close, on the record -/

section Record

variable {α : Type}

/-- What `esp8266_tcp_close` sends. -/
def closeLine : List UInt8 := ascii "AT+CIPCLOSE" ++ [CR, LF]

/-- `AT+CIPCLOSE` went out. -/
def Ev.isClose : Ev α → Bool
  | .tx data => data = closeLine
  | _ => false

/-- How often a close of the link has been attempted. -/
def Esp.closes (e : Esp α) : ℕ := e.log.countP Ev.isClose

theorem closes_mono {e e' : Esp α} (h : e.log <+: e'.log) : e.closes ≤ e'.closes :=
  h.sublist.countP_le

theorem closes_pass (ms : UInt32) (e : Esp α) : (e.pass ms).closes = e.closes := by
  obtain ⟨t, r, k, bs, -, -, -, heq⟩ := e.pass_eq ms
  rw [heq]
  rfl

theorem closes_iterate : ∀ (n : ℕ) (e : Esp α), ((Esp.pass 10)^[n] e).closes = e.closes
  | 0, _ => rfl
  | n + 1, e => by
      rw [Function.iterate_succ_apply, closes_iterate n, closes_pass]

/-- Waiting attempts nothing. -/
theorem closes_atWaitFor (needle : List UInt8) (ms : ℕ) (e : Esp α) :
    (atWaitFor needle ms e).2.closes = e.closes := by
  rw [atWaitFor]
  rcases atWaitLoop_cases needle ((ms + 9) / 10) e with ⟨i, at', -, -, -, heq⟩ | ⟨-, heq⟩
  · rw [heq, ← closes_iterate i e]
    simp only [Esp.closes, dropLine, List.countP_append, List.countP_singleton, Ev.isClose]
    rfl
  · rw [heq, closes_iterate]

theorem closes_uartSend (data : List UInt8) (e : Esp α) :
    (uartSend data e).closes = e.closes + if data = closeLine then 1 else 0 := by
  rw [← closes_pass 0 e]
  simp only [Esp.closes, uartSend, List.countP_append, List.countP_singleton, Ev.isClose,
    decide_eq_true_eq]

/-- **A send of other bytes attempts nothing.** -/
theorem closes_tcpSend (link : ℤ) {data : List UInt8} (h : data ≠ closeLine) (e : Esp α) :
    (tcpSend link data e).2.closes = e.closes := by
  have hline : ascii "AT+CIPSEND=" ++ decimal data.length ++ [CR, LF] ≠ closeLine := by
    intro heq
    -- the seventh letters differ
    have hseven := congrArg (fun l => (l.drop 6).head?) heq
    rw [List.append_assoc, List.drop_append_of_le_length (by decide),
      List.head?_append_of_ne_nil _ (by decide)] at hseven
    exact absurd hseven (by decide)
  have hprompt : (prompt data e).2.closes = e.closes := by
    rw [prompt, closes_atWaitFor, atSendLine, closes_uartSend, if_neg hline, Nat.add_zero]
  have hsent : (atWaitFor (ascii "SEND OK") 5000 (dataOut data e)).2.closes = e.closes := by
    rw [closes_atWaitFor, dataOut, closes_uartSend, if_neg h, Nat.add_zero, hprompt]
  simp only [tcpSend]
  split_ifs
  all_goals dsimp only
  · exact hprompt
  · exact hsent
  · exact hsent

/-- **`esp8266_tcp_close` attempts it once**, for a link there may be. -/
theorem closes_tcpClose {link : ℤ} (h : 0 ≤ link ∧ link < espMaxLinkId) (e : Esp α) :
    (tcpClose link e).2.closes = e.closes + 1 := by
  have hwait : (atWaitFor (ascii "OK") 3000 (atSendLine (ascii "AT+CIPCLOSE") e)).2.closes =
      e.closes + 1 := by
    have hline : ascii "AT+CIPCLOSE" ++ [CR, LF] = closeLine := rfl
    rw [closes_atWaitFor, atSendLine, closes_uartSend, if_pos hline]
  simp only [tcpClose]
  rw [if_neg (not_or.mpr ⟨not_lt.mpr h.1, not_le.mpr h.2⟩)]
  split_ifs
  · exact hwait
  · exact hwait

end Record

/-! ## The wait for the CONNACK -/

/-- The client is at link 0, and its record began like this. -/
structure Esp.Past (l : List (Ev Client)) (e : Esp Client) : Prop where
  id : e.up.sLinkId = 0
  log : l <+: e.log

theorem stable_past (l : List (Ev Client)) : Esp.Stable (Esp.Past l) where
  pass ms e h := by
    obtain ⟨t, r, k, bs, -, -, -, heq⟩ := e.pass_eq ms
    rw [heq]
    exact ⟨h.id, h.log⟩
  sent _ _ h := ⟨h.id, h.log.trans (List.prefix_append _ _)⟩
  cleared _ h := ⟨h.id, h.log.trans (List.prefix_append _ _)⟩
  found _ _ _ _ h := ⟨h.id, h.log.trans (List.prefix_append _ _)⟩

theorem looped_past (l : List (Ev Client)) : Esp.Looped (Esp.Past l) :=
  { stable_past l with
    lastPing := fun _ _ h => ⟨h.id, h.log⟩
    message := fun _ _ _ h => ⟨h.id, h.log⟩
    puback := fun _ _ h => ⟨h.id, h.log⟩
    connack := fun pkt payload e _ _ h => by
      obtain ⟨new, t, met, evs, heq⟩ := handleConnack_up pkt payload e
      rw [heq]
      exact ⟨h.id, h.log⟩
    round := fun o e e' hround h => by
      rcases parseRound_cases hround with
        ⟨-, rx, n, -, -, -, rfl⟩ | ⟨pre, hdr, link, data, rx, -, -, -, rfl⟩
      · exact ⟨h.id, h.log⟩
      · exact ⟨h.id, h.log.trans (List.prefix_append _ _)⟩
    line := fun e e' hline h => by
      obtain ⟨n, -, -, -, -, rfl⟩ := lineBody_cases hline
      obtain ⟨rx, w, ls, -, heq⟩ := takeLine_eq n e
      rw [heq]
      exact ⟨h.id, h.log.trans (List.prefix_append _ _)⟩
    returned := fun _ h => ⟨h.id, h.log⟩ }

/-- The client's link is one there may be. -/
theorem Esp.Past.link {l : List (Ev Client)} {e : Esp Client} (h : e.Past l) :
    0 ≤ e.up.link ∧ e.up.link < espMaxLinkId := by
  rw [Client.link, h.id]
  decide

/-- Closing it leaves one more attempt on the record. -/
theorem Esp.Past.lt_closes {e₀ e : Esp Client} (h : e.Past e₀.log) :
    e₀.closes < (tcpClose e.up.link e).2.closes := by
  rw [closes_tcpClose h.link]
  exact Nat.lt_succ_of_le (closes_mono h.log)

/-- How the wait for the CONNACK stands: it goes on, or has ended connected, or has ended with the
link closed. -/
def Esp.Awaits (e₀ : Esp Client) (r : Option MqttErr × Esp Client) : Prop :=
  (r.1 = none ∧ r.2.Past e₀.log) ∨ r.1 = some .ok ∨
    (∃ err, r.1 = some err) ∧ r.2.up.sState = .disconnected ∧ e₀.closes < r.2.closes

theorem awaits_step {e₀ : Esp Client} {start : UInt32} {r r' : Option MqttErr × Esp Client}
    (hr : brokerBody start r = some r') (h : e₀.Awaits r) : e₀.Awaits r' := by
  obtain ⟨_ | err, e⟩ := r
  · have hpast : e.Past e₀.log := by
      rcases h with ⟨-, hpast⟩ | hok | ⟨⟨err, herr⟩, -⟩
      · exact hpast
      · cases hok
      · cases herr
    simp only [brokerBody] at hr
    split_ifs at hr with hover hconn hdis
    all_goals cases hr
    · exact Or.inr (Or.inl rfl)
    · exact Or.inr (Or.inr ⟨⟨_, rfl⟩, by rw [up_tcpClose]; exact hdis, hpast.lt_closes⟩)
    · exact Or.inl ⟨rfl, (looped_past e₀.log).mqttLoop ((stable_past e₀.log).pass 0 e hpast)⟩
  · cases hr

/-- **The wait for the CONNACK ends connected, or with the link closed.** -/
theorem awaitConnack_closes {e : Esp Client} (hid : e.up.sLinkId = 0) :
    (awaitConnack e).1 = .ok ∨
      (awaitConnack e).2.up.sState = .disconnected ∧ e.closes < (awaitConnack e).2.closes := by
  have hloop : e.Awaits (loop (brokerBody e.halTick) (brokerRounds e) (none, e)) :=
    loop_invariant (fun _ _ => awaits_step) _ _ (Or.inl ⟨rfl, hid, List.prefix_refl _⟩)
  rw [awaitConnack]
  generalize loop (brokerBody e.halTick) (brokerRounds e) (none, e) = r at hloop ⊢
  rcases hloop with ⟨hnone, hpast⟩ | hok | ⟨⟨err, herr⟩, hstate, hcloses⟩
  · rw [hnone]
    refine Or.inr ⟨sState_setState _ _ _, ?_⟩
    obtain ⟨evs, heq⟩ := setState_up .disconnected none (tcpClose r.2.up.link r.2).2
    rw [heq]
    exact hpast.lt_closes
  · rw [hok]
    exact Or.inl rfl
  · rw [herr]
    exact Or.inr ⟨hstate, hcloses⟩

/-! ## The exits -/

/-- `mqtt_connect_broker`, the check of its pointer included. -/
def mqttConnectBroker (host : Option (List UInt8)) (port : UInt16) (e : Esp Client) :
    MqttErr × Esp Client :=
  match host with
  | none => (.param, e)
  | some host => connectBroker host port e

/-- Outside a session, and outside an attempt to begin one. -/
def Client.Down (c : Client) : Prop := c.sState = .idle ∨ c.sState = .disconnected

/-- The configuration is one that `mqtt_client_init` has accepted. -/
def Esp.Configured (e : Esp Client) : Prop :=
  ∃ clientId user pass keepaliveSec e₀,
    e.up.toMqttConfig = (clientInit clientId user pass keepaliveSec e₀).up.toMqttConfig

/-- **A failure leaves nothing behind**: the client is outside a session, and if the call has opened
the TCP link it has since tried to close it. -/
def ExitsCleanly (host : Option (List UInt8)) (port : UInt16) (e : Esp Client) : Prop :=
  (mqttConnectBroker host port e).1 ≠ .ok →
    (mqttConnectBroker host port e).2.up.Down ∧
      ∀ h ∈ host, 0 ≤ (tcpConnect h port e).1 →
        (tcpConnect h port e).2.closes < (mqttConnectBroker host port e).2.closes

/-- The state behind the TCP link. -/
def tcpOpened (host : List UInt8) (port : UInt16) (e : Esp Client) : Esp Client :=
  setState .tcpOpen none
    { (tcpConnect host port e).2 with
      up := { (tcpConnect host port e).2.up with
        sLinkId := UInt8.ofInt (tcpConnect host port e).1 } }

/-- …in which the CONNECT is handed to `esp8266_tcp_send`. -/
def connectReady (host : List UInt8) (port : UInt16) (e : Esp Client) : Esp Client :=
  setState .connectSent none (tcpOpened host port e)

/-- **The module takes the CONNECT**: it prompts for it within two seconds, and says `SEND OK`
within five after it is out. -/
def TakesConnect (host : List UInt8) (port : UInt16) (e : Esp Client) : Prop :=
  ∀ buf ∈ buildConnect 256 e.up.toMqttConfig,
    Sends 0 buf (connectReady host port e) ∧
      (dataOut buf (connectReady host port e)).Comes (ascii "SEND OK") 500

instance (host : List UInt8) (port : UInt16) (e : Esp Client) :
    Decidable (TakesConnect host port e) :=
  inferInstanceAs (Decidable (∀ buf ∈ buildConnect 256 e.up.toMqttConfig, _ ∧ _))

theorem up_tcpConnect (host : List UInt8) (port : UInt16) (e : Esp Client) :
    (tcpConnect host port e).2.up = e.up :=
  (Esp.stable_up fun c _ => c = e.up).tcpConnect (fun _ h => h) host port rfl

theorem fits_of_configured {e : Esp Client} (h : e.Configured) : e.up.toMqttConfig.Fits := by
  obtain ⟨clientId, user, pass, keepaliveSec, e₀, heq⟩ := h
  rw [heq, config_clientInit]
  exact ⟨List.length_take_le _ _, List.length_take_le _ _, List.length_take_le _ _⟩

/-- A CONNECT is no `AT+CIPCLOSE`. -/
theorem buildConnect_ne_closeLine {max : ℕ} {c : MqttConfig} {buf : List UInt8}
    (h : buildConnect max c = some buf) : buf ≠ closeLine := by
  rintro rfl
  rw [buildConnect, packet] at h
  split_ifs at h
  have hfirst := congrArg List.head? (Option.some.inj h)
  rw [List.head?_cons] at hfirst
  exact absurd hfirst (by decide)

/-- With the link open, the client is at link 0, and nothing else has happened to it. -/
theorem tcpOpened_spec {host : List UInt8} {port : UInt16} {e : Esp Client}
    (hopen : 0 ≤ (tcpConnect host port e).1) :
    (tcpOpened host port e).up.sLinkId = 0 ∧
      (tcpOpened host port e).up.toMqttConfig = e.up.toMqttConfig ∧
      (tcpOpened host port e).log = (tcpConnect host port e).2.log := by
  obtain ⟨evs, heq⟩ := setState_up .tcpOpen none
    { (tcpConnect host port e).2 with
      up := { (tcpConnect host port e).2.up with
        sLinkId := UInt8.ofInt (tcpConnect host port e).1 } }
  rw [tcpOpened, heq]
  refine ⟨?_, by rw [up_tcpConnect], rfl⟩
  rw [(link_of_tcpConnect hopen).1]
  rfl

theorem connectReady_spec {host : List UInt8} {port : UInt16} {e : Esp Client}
    (hopen : 0 ≤ (tcpConnect host port e).1) :
    (connectReady host port e).up.sLinkId = 0 ∧
      (connectReady host port e).closes = (tcpConnect host port e).2.closes := by
  obtain ⟨hid, -, hlog⟩ := tcpOpened_spec hopen
  obtain ⟨evs, heq⟩ := setState_up .connectSent none (tcpOpened host port e)
  rw [connectReady, heq]
  exact ⟨hid, congrArg (List.countP Ev.isClose) hlog⟩

/-- The state in which the wait for the CONNACK begins. -/
def connectOut (buf host : List UInt8) (port : UInt16) (e : Esp Client) : Esp Client :=
  setAttempt (some (dataOut buf (connectReady host port e)).txAt)
    (tcpSend 0 buf (connectReady host port e)).2

theorem sLinkId_connectOut {host : List UInt8} {port : UInt16} {e : Esp Client} (buf : List UInt8)
    (hopen : 0 ≤ (tcpConnect host port e).1) : (connectOut buf host port e).up.sLinkId = 0 := by
  rw [connectOut, setAttempt, up_tcpSend]
  exact (connectReady_spec hopen).1

/-- **With the link open, the call sends the CONNECT and waits.** -/
theorem connectBroker_of_open {host : List UInt8} {port : UInt16} {e : Esp Client}
    {buf : List UInt8} (hopen : 0 ≤ (tcpConnect host port e).1)
    (hbuf : buildConnect 256 e.up.toMqttConfig = some buf) :
    connectBroker host port e =
      if (tcpSend 0 buf (connectReady host port e)).1 ≠ .ok then
        (.net, setState .disconnected none (tcpSend 0 buf (connectReady host port e)).2)
      else
        ((awaitConnack (connectOut buf host port e)).1,
          setAttempt none (awaitConnack (connectOut buf host port e)).2) := by
  have hwifi : e.sWifiConnected = true := by
    by_contra hno
    rw [tcpConnect, if_neg hno] at hopen
    exact absurd (show (0 : ℤ) ≤ -1 from hopen) (by decide)
  have hlink : (connectReady host port e).up.link = 0 := by
    rw [Client.link, (connectReady_spec hopen).1]
    decide
  have hconfig : buildConnect 256 (tcpOpened host port e).up.toMqttConfig = some buf := by
    rw [(tcpOpened_spec hopen).2.1, hbuf]
  rw [connectBroker, if_neg (not_not.mpr hwifi)]
  simp only [if_neg (not_lt.mpr hopen)]
  rw [← tcpOpened, hconfig]
  dsimp only
  rw [← connectReady, hlink]
  rfl

/-- Every exit leaves the client outside a session. -/
theorem down_of_failed {host : Option (List UInt8)} {port : UInt16} {e : Esp Client}
    (hconf : e.Configured) (hdown : e.up.Down) (hfail : (mqttConnectBroker host port e).1 ≠ .ok) :
    (mqttConnectBroker host port e).2.up.Down := by
  obtain ⟨buf, hbuf, -⟩ := buildConnect_fits (fits_of_configured hconf)
  cases host with
  | none => exact hdown
  | some host =>
    rw [mqttConnectBroker] at hfail ⊢
    by_cases hopen : 0 ≤ (tcpConnect host port e).1
    · rw [connectBroker_of_open hopen hbuf] at hfail ⊢
      split_ifs at hfail ⊢ with hsend
      · exact Or.inr (sState_setState _ _ _)
      · have hid := sLinkId_connectOut buf hopen
        exact Or.inr ((awaitConnack_closes hid).resolve_left hfail).1
    · have hout : (connectBroker host port e).2.up = e.up := by
        rw [connectBroker]
        split_ifs
        · simp only [if_pos (not_le.mp hopen), up_tcpConnect]
        · rfl
      rw [hout]
      exact hdown

/-- **With the link open, the link is closed again exactly when the CONNECT was taken**, or the call
succeeds. -/
theorem closes_connectBroker_iff {host : List UInt8} {port : UInt16} {e : Esp Client}
    (hconf : e.Configured) (hopen : 0 ≤ (tcpConnect host port e).1) :
    ((connectBroker host port e).1 ≠ .ok →
      (tcpConnect host port e).2.closes < (connectBroker host port e).2.closes) ↔
        TakesConnect host port e := by
  obtain ⟨buf, hbuf, -⟩ := buildConnect_fits (fits_of_configured hconf)
  have hcloses := (connectReady_spec hopen).2
  have hsent := closes_tcpSend 0 (buildConnect_ne_closeLine hbuf) (connectReady host port e)
  have htakes : TakesConnect host port e ↔
      (tcpSend 0 buf (connectReady host port e)).1 = .ok := by
    rw [TakesConnect, hbuf, tcpSend_eq_ok_iff_comes]
    exact ⟨fun h => h buf rfl, fun h buf' hbuf' => Option.some.inj hbuf' ▸ h⟩
  rw [htakes, connectBroker_of_open hopen hbuf]
  by_cases hsend : (tcpSend 0 buf (connectReady host port e)).1 = .ok
  · rw [if_neg (not_not.mpr hsend)]
    refine iff_of_true (fun hfail => ?_) hsend
    have hid := sLinkId_connectOut buf hopen
    have hlt := ((awaitConnack_closes hid).resolve_left hfail).2
    rw [← hcloses, ← hsent]
    exact hlt
  · rw [if_pos hsend]
    refine iff_of_false (fun h => ?_) hsend
    obtain ⟨evs, heq⟩ := setState_up .disconnected none (tcpSend 0 buf (connectReady host port e)).2
    have hlt := h MqttErr.noConfusion
    rw [heq, ← hcloses, ← hsent] at hlt
    exact lt_irrefl _ hlt

/-- **A failure leaves nothing behind if and only if** the module takes the CONNECT, where the call
has opened the TCP link. -/
theorem exitsCleanly_iff (host : Option (List UInt8)) (port : UInt16) {e : Esp Client}
    (hconf : e.Configured) (hdown : e.up.Down) :
    ExitsCleanly host port e ↔
      ∀ h ∈ host, 0 ≤ (tcpConnect h port e).1 → TakesConnect h port e := by
  constructor
  · rintro hclean h rfl hopen
    exact (closes_connectBroker_iff hconf hopen).mp fun hfail => (hclean hfail).2 h rfl hopen
  · refine fun htakes hfail => ⟨down_of_failed hconf hdown hfail, ?_⟩
    rintro h rfl hopen
    exact (closes_connectBroker_iff hconf hopen).mpr (htakes h rfl hopen) hfail

/-- A configured client on the WiFi, at a module that says this. -/
def newcomer (air : List Arrival) : Esp Client :=
  setWifi true (clientInit (ascii "grain") [] [] 60 (Esp.boot .boot air))

theorem configured_newcomer (air : List Arrival) : (newcomer air).Configured :=
  ⟨ascii "grain", [], [], 60, Esp.boot .boot air, rfl⟩

theorem down_newcomer (air : List Arrival) : (newcomer air).up.Down := Or.inl rfl

/-- The module opens the link, takes the CONNECT, brings a refusal, and closes the link. -/
def refusal : List Arrival :=
  [⟨0, ascii "0,CONNECTED\r\n"⟩, ⟨0, ascii ">"⟩, ⟨0, ascii "\r\nSEND OK\r\n"⟩,
    ⟨0, ascii "+IPD,4:" ++ [0x20, 0x02, 0x00, 0x05]⟩, ⟨0, ascii "OK\r\n"⟩]

theorem exitsCleanly_iff_refusal :
    ExitsCleanly (some (ascii "broker")) 1883 (newcomer refusal) := by
  refine (exitsCleanly_iff _ _ (configured_newcomer refusal) (down_newcomer refusal)).mpr ?_
  rintro h ⟨⟩ -
  decide +kernel

/-- The module opens the link and says no more. -/
def silence : List Arrival := [⟨0, ascii "0,CONNECTED\r\n"⟩]

/-- The CONNECT is not prompted for, and the link stays open. -/
theorem silence_unclean : (newcomer silence).Configured ∧ (newcomer silence).up.Down ∧
    ¬ ExitsCleanly (some (ascii "broker")) 1883 (newcomer silence) := by
  refine ⟨configured_newcomer silence, down_newcomer silence, fun h => ?_⟩
  have hfail : (mqttConnectBroker (some (ascii "broker")) 1883 (newcomer silence)).1 ≠ .ok := by
    decide +kernel
  exact absurd ((h hfail).2 _ rfl (by decide +kernel)) (by decide +kernel)

end GrainWarehouse
