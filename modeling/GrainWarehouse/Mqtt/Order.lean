import GrainWarehouse.Machinery.Runs
import GrainWarehouse.Esp8266.Wire
import GrainWarehouse.Mqtt.Exits
import GrainWarehouse.Mqtt.Packets

/-!
# Mqtt/Order — what a broker hears from this client, over whole runs

The calls of the driver and the client, in any order, at a module that says what it likes and
decides for itself whether it gives leave for an announced block; the callers see to what
`Doing.Proper` says.  Three laws of what goes out, as long as the prompts come in time:

* **The driver and the module do not fall out of step** (`dialogue_inStep`): behind each call the
  module is between two commands, it has taken in whole commands and whole MQTT packets, and these
  are all the bytes there were.
* **The packets are in order** (`sessions_ordered`): as long as a CONNACK makes the client connected
  only in CONNECT_SENT, every packet but a PUBACK goes out behind a CONNECT, and none but a PUBACK
  goes out behind a DISCONNECT before the next CONNECT.
* **Packet ids do not come again before 65,535 others were drawn** (`packetIds_drawn`), and none
  is `0`.

They are proved of the module as the driver has it, where each call keeps them
(`Esp.Ordered.run`).
-/

namespace GrainWarehouse

/-! ## What has been said -/

/-- **So far the client has said these packets**, among commands, and nothing has been left
unfinished. -/
structure Esp.Said (ps : List ClientPacket) (e : Esp Client) : Prop where
  idle : e.listener.Idle
  lines : ∀ text, .line text ∈ e.listener.heard → IsCommand text
  packets : (Listener.blocks e.listener.heard).map readPacket = ps.map some

/-- Only what has been heard has been said. -/
theorem Esp.Said.of_listener {ps : List ClientPacket} {e e' : Esp Client} (h : e.Said ps)
    (heq : e'.listener = e.listener) : e'.Said ps := ⟨heq ▸ h.idle, heq ▸ h.lines, heq ▸ h.packets⟩

theorem Esp.Said.of_log {ps : List ClientPacket} {e e' : Esp Client} (h : e.Said ps)
    (hlog : e'.log = e.log) : e'.Said ps := h.of_listener (listener_of_log hlog)

/-- More has been heard. -/
theorem said_of_heard {ps : List ClientPacket} {e e' : Esp Client} (h : e.Said ps)
    {more : List (Heard UInt8)} {ps' : List ClientPacket} (hidle : e'.listener.Idle)
    (hheard : e'.listener.heard = e.listener.heard ++ more)
    (hlines : ∀ text, .line text ∈ more → IsCommand text)
    (hpackets : (Listener.blocks more).map readPacket = ps'.map some) : e'.Said (ps ++ ps') where
  idle := hidle
  lines text hmem := by
    rw [hheard] at hmem
    exact (List.mem_append.mp hmem).elim (h.lines text) (hlines text)
  packets := by
    rw [hheard, Listener.blocks_append, List.map_append, h.packets, List.map_append, hpackets]

/-- Commands are no packets, and what waits changes nothing. -/
theorem spoken_said (ps : List ClientPacket) (Q : Client → Prop) :
    Esp.Spoken fun e => e.Said ps ∧ Q e.up := by
  refine ⟨⟨fun ms e h => ?_, fun e h => ?_, fun needle at' e hneedle hat h => ?_⟩,
    fun text e hcmd h => ?_, fun up e h => ⟨h.1.of_log rfl, h.2⟩,
    fun up e h => ⟨h.1.of_log rfl, h.2⟩, fun e h => ⟨h.1.of_log rfl, h.2⟩⟩
  · refine ⟨h.1.of_listener ((hushed_listener _).pass ms e rfl), ?_⟩
    obtain ⟨t, r, k, bs, -, -, -, heq⟩ := e.pass_eq ms
    rw [heq]
    exact h.2
  · exact ⟨h.1.of_listener ((hushed_listener _).cleared e rfl), h.2⟩
  · exact ⟨h.1.of_listener ((hushed_listener _).found needle at' e hneedle hat rfl), h.2⟩
  · have hup : (atSendLine text e).up = e.up :=
      (Esp.stable_up fun u _ => u = e.up).atSendLine text rfl
    have hline := listener_atSendLine h.1.idle hcmd.oneLine.1
    have hmore (t : List UInt8) (ht : .line t ∈ [Heard.line text]) : IsCommand t := by
      obtain rfl : t = text := by simpa using ht
      exact hcmd
    have hsaid : (atSendLine text e).Said (ps ++ []) :=
      said_of_heard h.1 (by rw [hline]; exact ⟨rfl, rfl⟩) (by rw [hline]) hmore rfl
    rw [List.append_nil] at hsaid
    exact ⟨hsaid, hup ▸ h.2⟩

/-- **A send says its packet or nothing**, and the packet if it succeeds. -/
theorem said_tcpSend {ps : List ClientPacket} {e : Esp Client} (h : e.Said ps) (link : ℤ)
    {data : List UInt8} {p : ClientPacket} (hread : readPacket data = some p)
    (hlen : data.length < 2 ^ 16) :
    (tcpSend link data e).2.up = e.up ∧ ∃ ps' ∈ [ps, ps ++ [p]],
      (tcpSend link data e).2.Said ps' ∧ ((tcpSend link data e).1 = .ok → ps' = ps ++ [p]) := by
  refine ⟨(Esp.stable_up fun u _ => u = e.up).tcpSend link data rfl, ?_⟩
  obtain ⟨hidle, more, hheard, hsends, hok⟩ := listener_tcpSend link data h.idle
  have hline (text : List UInt8) (ht : text = sendLine data) : IsCommand text :=
    ht ▸ isCommand_sendLine hlen
  cases hsends with
  | nothing =>
    refine ⟨ps, List.mem_cons_self, ?_, fun hs => absurd (hok hs) (by simp)⟩
    rw [← List.append_nil ps]
    exact said_of_heard h hidle hheard nofun rfl
  | refused =>
    refine ⟨ps, List.mem_cons_self, ?_, fun hs => absurd (hok hs) (by simp)⟩
    rw [← List.append_nil ps]
    exact said_of_heard h hidle hheard (fun t ht => hline t (by simpa using ht)) rfl
  | sent =>
    refine ⟨ps ++ [p], List.mem_cons_of_mem _ List.mem_cons_self, ?_, fun _ => rfl⟩
    refine said_of_heard h hidle hheard (fun t ht => hline t (by simpa using ht)) ?_
    simp [Listener.blocks, hread]

/-! ## What the client does between two calls -/

/-- An entry that is not a change of the state. -/
def MqttEv.Aside : MqttEv → Prop
  | .state _ _ _ _ => False
  | .message _ _ | .puback _ | .returned _ _ => True

/-- A property that `mqtt_loop` preserves, each packet it sends under the condition under which it
sends it. -/
structure Esp.Conversed (P : Esp Client → Prop) : Prop extends Esp.Spoken P where
  round : ∀ o e e', parseRound e = some (o, e') → P e → P e'
  urc : ∀ e e', lineBody e = some e' → P e → P e'
  lastPing : ∀ t e, P e → P (setLastPing t e)
  aside : ∀ ev e, ev.Aside → P e → P (note ev e)
  connack : ∀ pkt payload e, P e → P (handleConnack pkt payload e)
  puback : ∀ pid e, P e → P (tcpSend e.up.link (pubackPacket pid) e).2
  ping : ∀ buf e, e.up.sState = .connected → buildPingreq 2 = some buf → P e →
    P (tcpSend e.up.link buf e).2

namespace Esp.Conversed

variable {P : Esp Client → Prop} (hP : Esp.Conversed P)

include hP

theorem handlePublish (buf : List UInt8) {e : Esp Client} (h : P e) : P (handlePublish buf e) := by
  rw [GrainWarehouse.handlePublish]
  split
  · exact h
  · next m _ =>
    have hmsg : P (if e.up.sMsgCb then note (.message m.topic m.payload) e else e) := by
      split
      · exact hP.aside (.message m.topic m.payload) e trivial h
      · exact h
    dsimp only
    split
    · exact hP.puback _ _ (hP.aside (.puback (pubackPacket m.pid)) _ trivial hmsg)
    · exact hmsg

theorem onEspRecv (linkId : ℤ) (data : List UInt8) {e : Esp Client} (h : P e) :
    P (onEspRecv linkId data e) := by
  rw [GrainWarehouse.onEspRecv]
  split_ifs
  · exact h
  · refine loop_invariant (P := fun s : List UInt8 × Esp Client => P s.2)
      (fun s s' hs he => ?_) _ _ h
    obtain ⟨pkt, payload, -, -, -, heq⟩ := rxBody_cases hs
    rw [heq]
    simp only [handlePacket]
    split_ifs
    · exact hP.connack pkt payload s.2 he
    · exact hP.lastPing _ s.2 he
    · exact hP.handlePublish pkt he
    · exact he

theorem mqttLoop {e : Esp Client} (h : P e) : P (mqttLoop e) := by
  have hloop : P (esp8266Loop GrainWarehouse.onEspRecv e) := by
    rw [GrainWarehouse.esp8266Loop, urcLines, parseIpdFrames]
    refine loop_invariant hP.urc _ _ (loop_invariant (fun e e' hs he => ?_) _ e h)
    rcases parseBody_cases hs with hround | ⟨link, data, e₀, hround, rfl⟩
    · exact hP.round _ e e' hround he
    · exact hP.onEspRecv link data (hP.round _ e e₀ hround he)
  simp only [GrainWarehouse.mqttLoop]
  refine hP.aside (.returned _ _) _ trivial ?_
  split_ifs with hconn
  · refine hP.lastPing _ _ ?_
    split
    · next buf hbuf => exact hP.ping buf _ hconn hbuf hloop
    · exact hloop
  · exact hloop
  · exact hloop

/-- The wait for the CONNACK. -/
theorem awaitConnack (hsettle : ∀ e, P e → P (setState .disconnected none e)) {e : Esp Client}
    (h : P e) : P (awaitConnack e).2 := by
  have hloop (n : ℕ) : P (loop (brokerBody e.halTick) n (none, e)).2 := by
    refine loop_invariant (P := fun r : Option MqttErr × Esp Client => P r.2)
      (fun r r' hr he => ?_) n _ h
    obtain ⟨_ | err, e'⟩ := r
    · simp only [brokerBody] at hr
      split_ifs at hr with hover hconn hdis
      all_goals cases hr
      · exact he
      · exact hP.tcpClose _ he
      · exact hP.mqttLoop (hP.pass 0 e' he)
    · cases hr
  rw [GrainWarehouse.awaitConnack]
  split
  · exact hloop _
  · exact hsettle _ (hP.tcpClose _ (hloop _))

end Esp.Conversed

/-! ## The laws -/

/-- The packet id of the draw of this number. -/
def drawnId (k : ℕ) : ℕ := k % 65535 + 1

/-- A change to CONNECTED comes from CONNECT_SENT. -/
def MqttEv.Expected : MqttEv → Prop
  | .state old new _ _ => new = .connected → old = .connectSent
  | .message _ _ | .puback _ | .returned _ _ => True

instance : DecidablePred MqttEv.Expected
  | .state _ _ _ _ => inferInstanceAs (Decidable (_ → _ = _))
  | .message _ _ | .puback _ | .returned _ _ => inferInstanceAs (Decidable True)

/-- **Every CONNACK that made the client connected was expected.** -/
def Client.Answered (c : Client) : Prop := ∀ ev ∈ c.trace, ev.Expected

instance (c : Client) : Decidable c.Answered := inferInstanceAs (Decidable (∀ ev ∈ c.trace, _))

/-- **What holds of the packets said so far at any moment**, `k` packet ids having been drawn. -/
structure Client.Drafted (k : ℕ) (ps : List ClientPacket) (c : Client) : Prop where
  fits : c.toMqttConfig.Fits
  flags : c.sPass = [] ∨ c.sUser ≠ []
  nextId : c.sNextPacketId.toNat = drawnId k
  ids : ∃ ds : List ℕ, ds.Pairwise (· < ·) ∧ (∀ d ∈ ds, d < k) ∧
    ps.filterMap ClientPacket.drawn = ds.map drawnId
  order : c.Answered → (session ps).isSome

/-- …and between two calls: a client that is connected, or waits to be, has a session open. -/
structure Client.Lawful (k : ℕ) (ps : List ClientPacket) (c : Client) : Prop
    extends Client.Drafted k ps c where
  settled : c.sState ≠ .tcpOpen
  live : c.Answered → c.sState = .connected ∨ c.sState = .connectSent → session ps = some true

/-- **The run so far has kept the laws.** -/
def Esp.Ordered (k : ℕ) (e : Esp Client) : Prop := ∃ ps, e.Said ps ∧ e.up.Lawful k ps

section Laws

variable {k : ℕ} {ps : List ClientPacket} {c c' : Client} {p : ClientPacket}

/-- The laws look at the configuration, the next id, the record and the state. -/
theorem Client.Drafted.congr (h : c.Drafted k ps) (hcfg : c'.toMqttConfig = c.toMqttConfig)
    (hid : c'.sNextPacketId = c.sNextPacketId) (htrace : c'.Answered → c.Answered) :
    c'.Drafted k ps where
  fits := hcfg ▸ h.fits
  flags := by
    have := h.flags
    rwa [← hcfg] at this
  nextId := hid ▸ h.nextId
  ids := h.ids
  order ha := h.order (htrace ha)

theorem Client.Lawful.congr (h : c.Lawful k ps) (hcfg : c'.toMqttConfig = c.toMqttConfig)
    (hid : c'.sNextPacketId = c.sNextPacketId) (htrace : c'.Answered → c.Answered)
    (hstate : c'.sState = c.sState) : c'.Lawful k ps where
  toDrafted := h.toDrafted.congr hcfg hid htrace
  settled := hstate ▸ h.settled
  live ha hs := h.live (htrace ha) (hstate ▸ hs)

/-- A packet without an id of its own. -/
theorem Client.Drafted.append (h : c.Drafted k ps) (hdrawn : p.drawn = none)
    (hs : c.Answered → ((session ps).bind fun isOpen => p.session isOpen).isSome) :
    c.Drafted k (ps ++ [p]) where
  fits := h.fits
  flags := h.flags
  nextId := h.nextId
  ids := by
    obtain ⟨ds, hds, hlt, heq⟩ := h.ids
    exact ⟨ds, hds, hlt, by rw [List.filterMap_append, heq]; simp [hdrawn]⟩
  order ha := by
    rw [session_append_singleton]
    exact hs ha

/-- **A packet that leaves the session as it was.** -/
theorem Client.Lawful.append (h : c.Lawful k ps) (hdrawn : p.drawn = none)
    (hs : c.Answered → ∀ isOpen, session ps = some isOpen → p.session isOpen = some isOpen) :
    c.Lawful k (ps ++ [p]) where
  toDrafted := by
    refine h.toDrafted.append hdrawn fun ha => ?_
    obtain ⟨isOpen, hopen⟩ := Option.isSome_iff_exists.mp (h.order ha)
    rw [hopen, Option.bind_some, hs ha isOpen hopen]
    rfl
  settled := h.settled
  live ha hlive := by
    have hopen := h.live ha hlive
    rw [session_append_singleton, hopen, Option.bind_some, hs ha true hopen]

/-- **A packet id is drawn**, and perhaps a packet with it said, in a session. -/
theorem Client.Lawful.draw (h : c.Lawful k ps) (hstate : c.sState = .connected)
    (hnext : c'.sNextPacketId =
      if c.sNextPacketId + 1 = 0 then 1 else c.sNextPacketId + 1)
    (hcfg : c'.toMqttConfig = c.toMqttConfig) (htrace : c'.trace = c.trace)
    (hstate' : c'.sState = c.sState) :
    c'.Lawful (k + 1) ps ∧
      (p.drawn = some (drawnId k) → p.session true = some true →
        c'.Lawful (k + 1) (ps ++ [p])) := by
  have hid : c'.sNextPacketId.toNat = drawnId (k + 1) := by
    have hk := h.nextId
    have hzero : c.sNextPacketId + 1 = 0 ↔ c.sNextPacketId.toNat = 65535 := by
      rw [← UInt16.toNat_inj, UInt16.toNat_add, UInt16.toNat_one, UInt16.toNat_zero]
      have := c.sNextPacketId.toNat_lt
      omega
    rw [drawnId] at hk ⊢
    rw [hnext]
    split_ifs with hz
    · have := hzero.mp hz
      rw [UInt16.toNat_one]
      omega
    · have := mt hzero.mpr hz
      rw [UInt16.toNat_add, UInt16.toNat_one]
      omega
  have ha : c'.Answered ↔ c.Answered := by rw [Client.Answered, htrace, Client.Answered]
  obtain ⟨ds, hds, hlt, heq⟩ := h.ids
  have hfits : c'.toMqttConfig.Fits := hcfg ▸ h.fits
  have hflags : c'.sPass = [] ∨ c'.sUser ≠ [] := by
    have := h.flags
    rwa [← hcfg] at this
  have hsettled : c'.sState ≠ .tcpOpen := hstate' ▸ h.settled
  constructor
  · exact
      { fits := hfits
        flags := hflags
        nextId := hid
        ids := ⟨ds, hds, fun d hd => Nat.lt_succ_of_lt (hlt d hd), heq⟩
        order := fun h' => h.order (ha.mp h')
        settled := hsettled
        live := fun h' hs => h.live (ha.mp h') (hstate' ▸ hs) }
  · intro hdrawn hsession
    have hopen (h' : c'.Answered) : session (ps ++ [p]) = some true := by
      rw [session_append_singleton, h.live (ha.mp h') (Or.inl hstate), Option.bind_some, hsession]
    exact
      { fits := hfits
        flags := hflags
        nextId := hid
        ids := ⟨ds ++ [k], List.pairwise_append.mpr ⟨hds, List.pairwise_singleton _ _,
            fun d hd d' hd' => by rw [List.mem_singleton.mp hd']; exact hlt d hd⟩,
          fun d hd => (List.mem_append.mp hd).elim (fun hd => Nat.lt_succ_of_lt (hlt d hd))
            fun hd => by rw [List.mem_singleton.mp hd]; exact Nat.lt_succ_self k,
          by rw [List.filterMap_append, heq, List.map_append]; simp [hdrawn]⟩
        order := fun h' => by rw [hopen h']; rfl
        settled := hsettled
        live := fun h' _ => hopen h' }

end Laws

/-! ## Every call keeps the laws -/

/-- A record that begins like this one. -/
theorem Client.Answered.of_prefix {c c' : Client} (h : c'.Answered) (hpre : c.trace <+: c'.trace) :
    c.Answered := fun ev hev => h ev (hpre.subset hev)

/-- **A client that leaves its session for good is lawful**, whatever it has said last. -/
theorem Client.Drafted.settle {k : ℕ} {ps : List ClientPacket} {e : Esp Client}
    (h : e.up.Drafted k ps) {new : MqttState} (hnew : new = .idle ∨ new = .disconnected)
    (r : Option Connack) : (setState new r e).up.Lawful k ps := by
  obtain ⟨evs, heq⟩ := setState_up new r e
  rw [heq]
  refine ⟨h.congr rfl rfl fun ha => ha.of_prefix (List.prefix_append _ _), ?_, fun _ hs => ?_⟩
  · rcases hnew with rfl | rfl
    all_goals exact nofun
  · rcases hnew with rfl | rfl
    all_goals exact hs.elim nofun nofun

theorem Esp.Said.setState {ps : List ClientPacket} {e : Esp Client} (h : e.Said ps)
    (new : MqttState) (r : Option Connack) : (setState new r e).Said ps := by
  obtain ⟨evs, heq⟩ := setState_up new r e
  exact h.of_log (by rw [heq])

/-- A CONNACK connects a client whose CONNECT is out. -/
theorem ordered_handleConnack {k : ℕ} {e : Esp Client} (h : e.Ordered k)
    (pkt payload : List UInt8) : (handleConnack pkt payload e).Ordered k := by
  have hmet (r : Connack) : (noteConnack r e).Ordered k := by
    obtain ⟨ps, hsaid, hlaw⟩ := h
    exact ⟨ps, hsaid.of_log rfl, hlaw.congr rfl rfl (fun ha => ha) rfl⟩
  simp only [handleConnack]
  generalize (⟨pkt, e.frameAt, linkUp e⟩ : Connack) = r
  obtain ⟨ps, hsaid, hlaw⟩ := hmet r
  generalize noteConnack r e = e at hsaid hlaw ⊢
  split
  · refine ⟨ps, (hsaid.setState .connected (some r)).of_log rfl, ?_⟩
    obtain ⟨evs, heq⟩ := setState_up .connected (some r) e
    have htrace := trace_prefix_setState .connected (some r) e
    refine ⟨hlaw.toDrafted.congr (by rw [heq]; rfl) (by rw [heq]; rfl)
      fun ha => Client.Answered.of_prefix ha htrace, ?_, fun ha _ => ?_⟩
    · rw [heq]
      exact fun h => by cases h
    · refine hlaw.live (Client.Answered.of_prefix ha htrace) ?_
      by_cases hconn : e.up.sState = .connected
      · exact Or.inl hconn
      · refine Or.inr (ha (.state e.up.sState .connected (some r) e.up.attempt) ?_ rfl)
        simp only [setLastPing, GrainWarehouse.setState, if_neg hconn]
        exact List.mem_append_right _ List.mem_cons_self
  · exact ⟨ps, hsaid.setState _ _, hlaw.toDrafted.settle (Or.inr rfl) _⟩

/-- **A send keeps the laws** if they hold with its packet as well as without. -/
theorem ordered_tcpSend {k : ℕ} {ps : List ClientPacket} {e : Esp Client} (hsaid : e.Said ps)
    (hlaw : e.up.Lawful k ps) {data : List UInt8} {p : ClientPacket}
    (hread : readPacket data = some p) (hlen : data.length ≤ 512)
    (hlaw' : e.up.Lawful k (ps ++ [p])) (link : ℤ) : (tcpSend link data e).2.Ordered k := by
  obtain ⟨hup, ps', hmem, hsaid', -⟩ := said_tcpSend hsaid link hread (by omega)
  refine ⟨ps', hsaid', ?_⟩
  rw [hup]
  rcases List.mem_cons.mp hmem with rfl | hmem
  · exact hlaw
  · rw [List.mem_singleton.mp hmem]
    exact hlaw'

theorem spoken_ordered (k : ℕ) : Esp.Spoken (Esp.Ordered k) := by
  have hspoken (ps : List ClientPacket) := spoken_said ps (Client.Lawful k ps)
  exact
    { pass := fun ms e ⟨ps, h⟩ => ⟨ps, (hspoken ps).pass ms e h⟩
      cleared := fun e ⟨ps, h⟩ => ⟨ps, (hspoken ps).cleared e h⟩
      found := fun needle at' e hneedle hat ⟨ps, h⟩ =>
        ⟨ps, (hspoken ps).found needle at' e hneedle hat h⟩
      line := fun text e hcmd ⟨ps, h⟩ => ⟨ps, (hspoken ps).line text e hcmd h⟩
      wifi := fun up e ⟨ps, h⟩ => ⟨ps, (hspoken ps).wifi up e h⟩
      link := fun up e ⟨ps, h⟩ => ⟨ps, (hspoken ps).link up e h⟩
      lower := fun e ⟨ps, h⟩ => ⟨ps, (hspoken ps).lower e h⟩ }

/-- The frame pass and the line pass tell the module nothing. -/
theorem listener_parseRound {α : Type} {o : Option (ℤ × List UInt8)} {e e' : Esp α}
    (h : parseRound e = some (o, e')) : e'.listener = e.listener := by
  rcases parseRound_cases h with
    ⟨-, rx, n, -, -, -, rfl⟩ | ⟨pre, hdr, link, data, rx, -, -, -, rfl⟩
  · rfl
  · exact listener_push (.recv link data) rfl

theorem listener_lineBody {α : Type} {e e' : Esp α} (h : lineBody e = some e') :
    e'.listener = e.listener := by
  obtain ⟨n, -, -, -, -, rfl⟩ := lineBody_cases h
  obtain ⟨rx, w, ls, -, heq⟩ := takeLine_eq n e
  rw [heq]
  exact listener_push (.line (e.ring.take n) e.up) rfl

/-- **`mqtt_loop` keeps the laws.** -/
theorem conversed_ordered (k : ℕ) : Esp.Conversed (Esp.Ordered k) :=
  { spoken_ordered k with
    round := fun o e e' hround ⟨ps, hsaid, hlaw⟩ =>
      ⟨ps, hsaid.of_listener (listener_parseRound hround), by rwa [up_parseRound hround]⟩
    urc := fun e e' hline ⟨ps, hsaid, hlaw⟩ =>
      ⟨ps, hsaid.of_listener (listener_lineBody hline), by rwa [up_lineBody hline]⟩
    lastPing := fun t e ⟨ps, hsaid, hlaw⟩ =>
      ⟨ps, hsaid.of_log rfl, hlaw.congr rfl rfl (fun ha => ha) rfl⟩
    aside := fun ev e _ ⟨ps, hsaid, hlaw⟩ => ⟨ps, hsaid.of_log rfl,
      hlaw.congr rfl rfl (fun ha => Client.Answered.of_prefix ha (List.prefix_append _ _)) rfl⟩
    connack := fun pkt payload e h => ordered_handleConnack h pkt payload
    puback := fun pid e ⟨ps, hsaid, hlaw⟩ =>
      ordered_tcpSend hsaid hlaw (readPacket_pubackPacket pid)
        ((by decide : 4 ≤ 512) : (pubackPacket pid).length ≤ 512)
        (hlaw.append rfl fun _ _ _ => rfl) _
    ping := fun buf e hconn hbuf ⟨ps, hsaid, hlaw⟩ => by
      obtain rfl : [ctrlPingreq <<< 4, 0] = buf := Option.some.inj hbuf
      have hread : readPacket [ctrlPingreq <<< 4, 0] = some .pingreq := by rfl
      refine ordered_tcpSend hsaid hlaw hread (by decide) (hlaw.append rfl fun ha o ho => ?_) _
      obtain rfl : o = true := Option.some.inj (ho.symm.trans (hlaw.live ha (Or.inl hconn)))
      rfl }

/-- With the link open, the client is in CONNECT_SENT, and its CONNECT is not yet out. -/
theorem drafted_connectReady {k : ℕ} {host : List UInt8} (hhost : OneLine host) (port : UInt16)
    {e : Esp Client} (h : e.Ordered k) :
    ∃ ps, (connectReady host port e).Said ps ∧ (connectReady host port e).up.Drafted k ps ∧
      (connectReady host port e).up.toMqttConfig = e.up.toMqttConfig ∧
      (connectReady host port e).up.sState = .connectSent := by
  obtain ⟨ps, hsaid, hlaw⟩ := (spoken_ordered k).tcpConnect hhost port h
  have hcfg := congrArg Client.toMqttConfig (up_tcpConnect host port e)
  set opened : Esp Client := { (tcpConnect host port e).2 with
    up := { (tcpConnect host port e).2.up with
      sLinkId := UInt8.ofInt (tcpConnect host port e).1 } } with hopened
  have hopened' : opened.Said ps := hsaid.of_log rfl
  have hready : connectReady host port e =
      setState .connectSent none (setState .tcpOpen none opened) := rfl
  obtain ⟨evs₁, heq₁⟩ := setState_up .tcpOpen none opened
  obtain ⟨evs₂, heq₂⟩ := setState_up .connectSent none (setState .tcpOpen none opened)
  have hcfg' : (connectReady host port e).up.toMqttConfig =
      (tcpConnect host port e).2.up.toMqttConfig := by rw [hready, heq₂, heq₁]
  have hpre : opened.up.trace <+: (connectReady host port e).up.trace :=
    (trace_prefix_setState _ _ _).trans (trace_prefix_setState _ _ _)
  refine ⟨ps, (hopened'.setState _ _).setState _ _, ?_, hcfg'.trans hcfg, sState_setState _ _ _⟩
  exact hlaw.toDrafted.congr hcfg' (by rw [hready, heq₂, heq₁])
    fun ha => Client.Answered.of_prefix ha hpre

/-- **An attempt to connect keeps the laws**: the client waits in CONNECT_SENT only when its CONNECT
is out. -/
theorem ordered_connectBroker {k : ℕ} {host : List UInt8} (hhost : OneLine host) (port : UInt16)
    {e : Esp Client} (h : e.Ordered k) : (connectBroker host port e).2.Ordered k := by
  by_cases hopen : 0 ≤ (tcpConnect host port e).1
  · obtain ⟨ps, hsaid, hdraft, hcfg, hstate⟩ := drafted_connectReady hhost port h
    obtain ⟨buf, hbuf, -⟩ := buildConnect_fits hdraft.fits
    obtain ⟨hlen, hread⟩ := readPacket_buildConnect hdraft.fits hdraft.flags hbuf
    rw [connectBroker_of_open hopen (hcfg ▸ hbuf)]
    set ready := connectReady host port e
    obtain ⟨hup, ps', hmem, hsaid', hok⟩ := said_tcpSend hsaid 0 hread (by omega)
    have hopens (ha : ready.up.Answered) :
        session (ps ++ [.connect ready.up.toMqttConfig.packet]) = some true := by
      obtain ⟨isOpen, ho⟩ := Option.isSome_iff_exists.mp (hdraft.order ha)
      rw [session_append_singleton, ho]
      rfl
    have hsent : (tcpSend 0 buf ready).2.up.Drafted k ps' := by
      rw [hup]
      rcases List.mem_cons.mp hmem with rfl | hmem
      · exact hdraft
      · rw [List.mem_singleton.mp hmem]
        refine hdraft.append rfl fun ha => ?_
        rw [← session_append_singleton, hopens ha]
        rfl
    split
    · exact ⟨ps', hsaid'.setState _ _, hsent.settle (Or.inr rfl) _⟩
    · next hres =>
      obtain rfl := hok (not_not.mp hres)
      have hout : (connectOut buf host port e).Ordered k := by
        refine ⟨_, hsaid'.of_log rfl, hsent.congr rfl rfl fun ha => ha, ?_, fun ha _ => ?_⟩
        · change (tcpSend 0 buf ready).2.up.sState ≠ _
          rw [hup, hstate]
          exact nofun
        · refine hopens ?_
          rw [← hup]
          exact ha
      have hsettle (e : Esp Client) (he : e.Ordered k) :
          (setState .disconnected none e).Ordered k := by
        obtain ⟨ps, hsaid, hlaw⟩ := he
        exact ⟨ps, hsaid.setState _ _, hlaw.toDrafted.settle (Or.inr rfl) _⟩
      obtain ⟨ps, hsaid, hlaw⟩ := (conversed_ordered k).awaitConnack hsettle hout
      exact ⟨ps, hsaid.of_log rfl, hlaw.congr rfl rfl (fun ha => ha) rfl⟩
  · have htcp := (spoken_ordered k).tcpConnect hhost port h
    rw [connectBroker]
    split_ifs
    · simp only [if_pos (not_le.mp hopen)]
      exact htcp
    · exact h

/-- **The end of the calls that send one packet.** -/
theorem ordered_sendPacket {k : ℕ} {ps : List ClientPacket} {e : Esp Client} (hsaid : e.Said ps)
    (hlaw : e.up.Lawful k ps) {buf : Option (List UInt8)}
    (hbuf : ∀ data, buf = some data → data.length ≤ 512 ∧
      ∃ p, readPacket data = some p ∧ e.up.Lawful k (ps ++ [p])) :
    (sendPacket buf e).2.Ordered k := by
  cases buf with
  | none => exact ⟨ps, hsaid, hlaw⟩
  | some data =>
    obtain ⟨hlen, p, hread, hlaw'⟩ := hbuf data rfl
    have hsend := ordered_tcpSend hsaid hlaw hread hlen hlaw' e.up.link
    simp only [sendPacket]
    split
    · exact hsend
    · exact hsend

/-- A packet that a connected client says with an id of its own. -/
theorem ordered_drawn {k : ℕ} {e : Esp Client} (h : e.Ordered k) (hconn : e.up.sState = .connected)
    {buf : Option (List UInt8)} (hbuf : ∀ data, buf = some data → data.length ≤ 512 ∧
      ∃ p : ClientPacket, readPacket data = some p ∧
        p.drawn = some e.up.sNextPacketId.toNat ∧ p.session true = some true) :
    (sendPacket buf (nextPacketId e)).2.Ordered (k + 1) := by
  obtain ⟨ps, hsaid, hlaw⟩ := h
  have hdraw (p : ClientPacket) : (nextPacketId e).up.Lawful (k + 1) ps ∧ (p.drawn =
      some (drawnId k) → p.session true = some true →
        (nextPacketId e).up.Lawful (k + 1) (ps ++ [p])) := hlaw.draw hconn rfl rfl rfl rfl
  have hsaid' : (nextPacketId e).Said ps := hsaid.of_log rfl
  refine ordered_sendPacket hsaid' (hdraw .pingreq).1 fun data hdata => ?_
  obtain ⟨hlen, p, hread, hdrawn, hsession⟩ := hbuf data hdata
  exact ⟨hlen, p, hread, (hdraw p).2 (hlaw.nextId ▸ hdrawn) hsession⟩

theorem ordered_publish {k : ℕ} {e : Esp Client} (h : e.Ordered k) (topic payload : List UInt8)
    (qos : UInt8) :
    ∃ k' ≤ k + if 0 < qos then 1 else 0, (mqttPublish topic payload qos e).2.Ordered k' := by
  by_cases hconn : e.up.sState ≠ .connected
  · simp only [mqttPublish, if_pos hconn]
    exact ⟨k, Nat.le_add_right _ _, h⟩
  simp only [mqttPublish, if_neg hconn]
  rw [ne_eq, not_not] at hconn
  have hle : (if qos > 1 then 1 else qos) ≤ 1 ∧ (0 < (if qos > 1 then 1 else qos) ↔ 0 < qos) := by
    split
    · next hq => exact ⟨UInt8.le_refl 1, iff_of_true (by decide) (UInt8.lt_trans (by decide) hq)⟩
    · next hq => exact ⟨UInt8.not_lt.mp hq, Iff.rfl⟩
  rw [← if_congr hle.2 rfl rfl]
  obtain ⟨hle, -⟩ := hle
  generalize (if qos > 1 then 1 else qos) = qos at hle
  by_cases hq : 0 < qos
  · refine ⟨k + 1, by rw [if_pos hq], ?_⟩
    rw [if_pos hq, if_pos hq]
    refine ordered_drawn h hconn fun data hdata => ?_
    obtain ⟨hlen, p, hread, hpid⟩ := readPacket_buildPublish (by decide) hle hdata
    rw [if_neg (UInt8.pos_iff_ne_zero.mp hq)] at hpid
    exact ⟨hlen, _, hread, hpid, rfl⟩
  · refine ⟨k, Nat.le_add_right _ _, ?_⟩
    rw [if_neg hq, if_neg hq]
    obtain ⟨ps, hsaid, hlaw⟩ := h
    refine ordered_sendPacket hsaid hlaw fun data hdata => ?_
    obtain ⟨hlen, p, hread, hpid⟩ := readPacket_buildPublish (by decide) hle hdata
    rw [if_pos (by simpa using hq)] at hpid
    refine ⟨hlen, _, hread, hlaw.append hpid fun ha o ho => ?_⟩
    obtain rfl : o = true := Option.some.inj (ho.symm.trans (hlaw.live ha (Or.inl hconn)))
    rfl

theorem ordered_subscribe {k : ℕ} {e : Esp Client} (h : e.Ordered k) (topic : List UInt8)
    {qos : UInt8} (hqos : qos ≤ 2) : ∃ k' ≤ k + 1, (mqttSubscribe topic qos e).2.Ordered k' := by
  simp only [mqttSubscribe]
  split
  · exact ⟨k, Nat.le_succ k, h⟩
  · next hconn =>
    refine ⟨k + 1, le_rfl, ordered_drawn h (not_not.mp hconn) fun data hdata => ?_⟩
    obtain ⟨hlen, filters, hread⟩ := readPacket_buildSubscribe hqos hdata
    exact ⟨by omega, _, hread, rfl, rfl⟩

theorem ordered_unsubscribe {k : ℕ} {e : Esp Client} (h : e.Ordered k) (topic : List UInt8) :
    ∃ k' ≤ k + 1, (mqttUnsubscribe topic e).2.Ordered k' := by
  simp only [mqttUnsubscribe]
  split
  · exact ⟨k, Nat.le_succ k, h⟩
  · next hconn =>
    refine ⟨k + 1, le_rfl, ordered_drawn h (not_not.mp hconn) fun data hdata => ?_⟩
    obtain ⟨hlen, filters, hread⟩ := readPacket_buildUnsubscribe hdata
    exact ⟨by omega, _, hread, rfl, rfl⟩

/-- **A DISCONNECT closes the session that is open.** -/
theorem ordered_disconnect {k : ℕ} {e : Esp Client} (h : e.Ordered k) :
    (mqttDisconnect e).2.Ordered k := by
  simp only [mqttDisconnect]
  split
  · exact h
  next hstate =>
  obtain ⟨ps, hsaid, hlaw⟩ := h
  have hlive : e.up.sState = .connected ∨ e.up.sState = .connectSent := by
    have hsettled := hlaw.settled
    by_contra hnot
    rw [not_or] at hnot
    exact hstate ⟨hnot.1, hsettled, hnot.2⟩
  have hread : readPacket [ctrlDisconnect <<< 4, 0] = some .disconnect := by rfl
  obtain ⟨hup, ps', hmem, hsaid', -⟩ := said_tcpSend hsaid e.up.link hread (by decide)
  have hdraft : (tcpSend e.up.link [ctrlDisconnect <<< 4, 0] e).2.up.Drafted k ps' := by
    rw [hup]
    rcases List.mem_cons.mp hmem with rfl | hmem
    · exact hlaw.toDrafted
    · rw [List.mem_singleton.mp hmem]
      refine hlaw.toDrafted.append rfl fun ha => ?_
      rw [hlaw.live ha hlive]
      rfl
  have hclose := (spoken_said ps' (Client.Drafted k ps')).tcpClose
    (tcpSend e.up.link [ctrlDisconnect <<< 4, 0] e).2.up.link ⟨hsaid', hdraft⟩
  exact ⟨ps', hclose.1.setState _ _, hclose.2.settle (Or.inl rfl) _⟩

/-! ## Runs -/

/-- A call of the client or of the driver, or time that goes by. -/
inductive Doing
  | call (c : Call)
  | init (uart4 : EspErr)
  | disconnectWifi
  | tcpClose (linkId : ℤ)
  | queryTcpStatus (linkId : ℤ)
  | printNetinfo
  | ping (host : List UInt8)

def Doing.run (e : Esp Client) : Doing → Esp Client
  | call c => c.run e
  | init uart4 => (esp8266Init uart4 e).2
  | disconnectWifi => (GrainWarehouse.disconnectWifi e).2
  | tcpClose linkId => (GrainWarehouse.tcpClose linkId e).2
  | queryTcpStatus linkId => (GrainWarehouse.queryTcpStatus linkId e).2
  | printNetinfo => GrainWarehouse.printNetinfo e
  | ping host => (esp8266Ping host e).2

/-- **What the callers see to**: names and passwords of one line, no password without a user name,
a QoS that there is; and only the client sends data. -/
def Doing.Proper : Doing → Prop
  | call (.clientInit _ user pass _) => pass = [] ∨ user ≠ []
  | call (.connectWifi ssid pwd) => OneLine ssid ∧ OneLine pwd
  | call (.tcpConnect host _) | call (.connectBroker host _) | ping host => OneLine host
  | call (.tcpSend _ _) => False
  | call (.subscribe _ qos) => qos ≤ 2
  | _ => True

/-- A call that may draw a packet id. -/
def Doing.draws : Doing → Bool
  | call (.publish _ _ qos) => 0 < qos
  | call (.subscribe _ _) | call (.unsubscribe _) => true
  | _ => false

/-- **Every proper call keeps the laws.** -/
theorem Esp.Ordered.run {k : ℕ} {e : Esp Client} (h : e.Ordered k) {d : Doing} (hd : d.Proper) :
    ∃ k' ≤ k + if d.draws then 1 else 0, (d.run e).Ordered k' := by
  have hP := conversed_ordered k
  have still {e' : Esp Client} (he : e'.Ordered k) (n : ℕ) : ∃ k' ≤ k + n, e'.Ordered k' :=
    ⟨k, Nat.le_add_right k n, he⟩
  cases d with
  | init uart4 => exact still (hP.esp8266Init uart4 h) _
  | disconnectWifi => exact still (hP.disconnectWifi h) _
  | tcpClose linkId => exact still (hP.tcpClose linkId h) _
  | queryTcpStatus linkId => exact still (hP.queryTcpStatus linkId h) _
  | printNetinfo => exact still (hP.printNetinfo h) _
  | ping host => exact still (hP.esp8266Ping hd h) _
  | call c =>
    cases c with
    | pause ms => exact still (hP.pass ms e h) _
    | clientInit clientId user pass keepaliveSec =>
      obtain ⟨ps, hsaid, hlaw⟩ := h
      refine still (hP.lastPing _ _ ?_) _
      refine ⟨ps, Esp.Said.setState ?_ _ _, Client.Drafted.settle ?_ (Or.inl rfl) _⟩
      · exact hsaid.of_log rfl
      · exact
          { hlaw.toDrafted with
            fits := ⟨List.length_take_le _ _, List.length_take_le _ _, List.length_take_le _ _⟩
            flags := hd.imp (take_eq_nil_iff_63 pass).mpr (mt (take_eq_nil_iff_63 user).mp) }
    | setMessageCb =>
      obtain ⟨ps, hsaid, hlaw⟩ := h
      refine still ⟨ps, ?_, ?_⟩ _
      · exact hsaid.of_log rfl
      · exact hlaw.congr rfl rfl (fun ha => ha) rfl
    | connectWifi ssid pwd => exact still (hP.connectWifi hd.1 hd.2 h) _
    | tcpConnect host port => exact still (hP.tcpConnect hd port h) _
    | tcpSend linkId data => exact hd.elim
    | connectBroker host port => exact still (ordered_connectBroker hd port h) _
    | disconnect => exact still (ordered_disconnect h) _
    | publish topic payload qos =>
      obtain ⟨k', hk', hord⟩ := ordered_publish h topic payload qos
      refine ⟨k', ?_, hord⟩
      simpa only [Doing.draws, decide_eq_true_eq] using hk'
    | subscribe topic qos => exact ordered_subscribe h topic hd
    | unsubscribe topic => exact ordered_unsubscribe h topic
    | loop => exact still (hP.mqttLoop h) _

/-- The client after reset has said nothing. -/
theorem ordered_boot (air : List Arrival) : (Esp.boot Client.boot air).Ordered 0 := by
  refine ⟨[], ⟨⟨rfl, rfl⟩, fun text h => absurd h List.not_mem_nil, rfl⟩, ?_⟩
  exact
    { fits := ⟨Nat.zero_le _, Nat.zero_le _, Nat.zero_le _⟩
      flags := Or.inl rfl
      nextId := rfl
      ids := ⟨[], List.Pairwise.nil, nofun, rfl⟩
      order := fun _ => rfl
      settled := nofun
      live := fun _ hs => hs.elim nofun nofun }

/-- **…and so does every run of them.** -/
theorem ordered_run : ∀ (ds : List Doing) {k : ℕ} {e : Esp Client}, e.Ordered k →
    (∀ d ∈ ds, d.Proper) → ∃ k' ≤ k + ds.countP Doing.draws, (runFrom Doing.run e ds).Ordered k'
  | [], k, e, h, _ => ⟨k, le_rfl, h⟩
  | d :: ds, k, e, h, hds => by
      obtain ⟨k₁, hk₁, h₁⟩ := h.run (hds d List.mem_cons_self)
      obtain ⟨k₂, hk₂, h₂⟩ := ordered_run ds h₁ fun d' hd' => hds d' (List.mem_cons_of_mem d hd')
      refine ⟨k₂, ?_, h₂⟩
      rw [List.countP_cons]
      omega

/-! ## The three laws -/

/-- A run from reset. -/
def dialogue (air : List Arrival) (ds : List Doing) : Esp Client :=
  runFrom Doing.run (Esp.boot .boot air) ds

/-- The client joins, asks for the state of its link, and says something that it wants acknowledged.
-/
def joinAndPublish : List Doing :=
  joining.map .call ++ [.queryTcpStatus 0, .call (.publish (ascii "grain") (ascii "1") 1)]

theorem proper_joinAndPublish : ∀ d ∈ joinAndPublish, d.Proper := by
  simp only [joinAndPublish, joining, List.map_cons, List.map_nil, List.cons_append,
    List.nil_append, List.forall_mem_cons, Doing.Proper, true_or, true_and]
  exact ⟨by decide, fun _ h => absurd h List.not_mem_nil⟩

/-- The module gives leave for the CONNECT, and says nothing when the PUBLISH is announced. -/
def leaveOnce (k : ℕ) : Bool := k = 0

/-- **The driver and the module do not fall out of step.**  After any run of proper calls, whatever
the module has said and decided, as long as its prompts come in time: it is between two commands;
what it has taken in are commands and packets a broker can read, each in one piece; and these are
all the bytes that were transmitted. -/
theorem dialogue_inStep (air : List Arrival) (ds : List Doing) (hds : ∀ d ∈ ds, d.Proper)
    {leave : ℕ → Bool} (hleave : (dialogue air ds).Prompted leave) :
    ((dialogue air ds).module leave).Idle ∧
      (∀ text, .line text ∈ ((dialogue air ds).module leave).heard → IsCommand text) ∧
      (∀ data, .block data ∈ ((dialogue air ds).module leave).heard → (readPacket data).isSome) ∧
      Listener.spelled atMarks ((dialogue air ds).module leave).heard =
        (transmitted (dialogue air ds).log).flatten := by
  obtain ⟨k, -, ps, hsaid, -⟩ := ordered_run ds (ordered_boot air) hds
  rw [module_eq hleave]
  refine ⟨⟨hsaid.idle.got, hsaid.idle.due⟩, hsaid.lines, fun data hdata => ?_, ?_⟩
  · have hmem : readPacket data ∈ ps.map some := by
      rw [← hsaid.packets]
      exact List.mem_map_of_mem (List.mem_filterMap.mpr ⟨_, hdata, rfl⟩)
    obtain ⟨p, -, hp⟩ := List.mem_map.mp hmem
    rw [← hp]
    rfl
  · have hspelled := Listener.spelled_follow atMarks (dialogue air ds).sounds .start
    have hgot : (dialogue air ds).listener.got = [] := hsaid.idle.got
    rw [← Esp.listener, hgot, List.append_nil] at hspelled
    exact hspelled.trans (reduceOption_sounds _)

theorem dialogue_inStep_joining : ((dialogue welcome joinAndPublish).module leaveOnce).Idle :=
  (dialogue_inStep welcome joinAndPublish proper_joinAndPublish (by decide +kernel)).1

-- a prompt for the PUBLISH that comes too late leaves the module waiting for its data
example : ¬ ((dialogue welcome joinAndPublish).module fun _ => true).Idle := by decide +kernel

/-- **The packets are in order.**  In any such run in which only expected CONNACKs connect the
client, the packets that went out, PUBACKs apart, make up sessions, from CONNECT to DISCONNECT; and
while the client is connected, a session is open. -/
theorem sessions_ordered (air : List Arrival) (ds : List Doing) (hds : ∀ d ∈ ds, d.Proper)
    {leave : ℕ → Bool} (hleave : (dialogue air ds).Prompted leave)
    (hanswered : (dialogue air ds).up.Answered) :
    ∃ ps : List ClientPacket,
      (Listener.blocks ((dialogue air ds).module leave).heard).map readPacket = ps.map some ∧
      (session ps).isSome ∧
      (mqttIsConnected (dialogue air ds) = true → session ps = some true) := by
  obtain ⟨k, -, ps, hsaid, hlaw⟩ := ordered_run ds (ordered_boot air) hds
  rw [module_eq hleave]
  exact ⟨ps, hsaid.packets, hlaw.order hanswered, fun hc =>
    hlaw.live hanswered (Or.inl (of_decide_eq_true hc))⟩

theorem sessions_ordered_joining : ∃ ps : List ClientPacket,
    (Listener.blocks ((dialogue welcome joinAndPublish).module leaveOnce).heard).map readPacket =
      ps.map some ∧ session ps = some true := by
  obtain ⟨ps, hps, -, hopen⟩ := sessions_ordered welcome joinAndPublish proper_joinAndPublish
    (by decide +kernel : (dialogue welcome joinAndPublish).Prompted leaveOnce) (by decide +kernel)
  exact ⟨ps, hps, hopen (by decide +kernel)⟩

/-- **Packet ids count the draws.**  In any such run, the packets that went out with an id of their
own carry the ids of ever later draws, and there are no more draws than calls that draw; so none is
`0`, and as long as there are at most 65,535 such calls no id comes twice. -/
theorem packetIds_drawn (air : List Arrival) (ds : List Doing) (hds : ∀ d ∈ ds, d.Proper)
    {leave : ℕ → Bool} (hleave : (dialogue air ds).Prompted leave) :
    ∃ ps : List ClientPacket,
      (Listener.blocks ((dialogue air ds).module leave).heard).map readPacket = ps.map some ∧
      (∃ ns : List ℕ, ns.Pairwise (· < ·) ∧ (∀ n ∈ ns, n < ds.countP Doing.draws) ∧
        ps.filterMap ClientPacket.drawn = ns.map drawnId) ∧
      (∀ id ∈ ps.filterMap ClientPacket.drawn, 0 < id ∧ id < 2 ^ 16) ∧
      (ds.countP Doing.draws ≤ 65535 → (ps.filterMap ClientPacket.drawn).Nodup) := by
  obtain ⟨k, hk, ps, hsaid, hlaw⟩ := ordered_run ds (ordered_boot air) hds
  rw [Nat.zero_add] at hk
  obtain ⟨ns, hns, hlt, heq⟩ := hlaw.ids
  rw [module_eq hleave]
  refine ⟨ps, hsaid.packets, ⟨ns, hns, fun n hn => (hlt n hn).trans_le hk, heq⟩, ?_, fun hfew => ?_⟩
  · intro id hid
    rw [heq] at hid
    obtain ⟨n, -, rfl⟩ := List.mem_map.mp hid
    rw [drawnId]
    omega
  · rw [heq]
    refine List.Nodup.map_on (fun n hn m hm hsame => ?_) (hns.imp Nat.ne_of_lt)
    have hn' := hlt n hn
    have hm' := hlt m hm
    rw [drawnId, drawnId, Nat.mod_eq_of_lt (by omega), Nat.mod_eq_of_lt (by omega)] at hsame
    exact Nat.succ.inj hsame

theorem packetIds_drawn_joining : ∃ ps : List ClientPacket,
    (Listener.blocks ((dialogue welcome joinAndPublish).module leaveOnce).heard).map readPacket =
      ps.map some ∧ (ps.filterMap ClientPacket.drawn).Nodup := by
  obtain ⟨ps, hps, -, -, hnodup⟩ := packetIds_drawn welcome joinAndPublish proper_joinAndPublish
    (by decide +kernel : (dialogue welcome joinAndPublish).Prompted leaveOnce)
  exact ⟨ps, hps, hnodup (by decide)⟩

end GrainWarehouse
