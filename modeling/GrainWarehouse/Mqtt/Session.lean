import GrainWarehouse.Mqtt.Client

/-!
# Mqtt/Session — when the client is connected, and what that is worth

Two laws about `s_state` over arbitrary runs of calls, with the module saying what it likes.

* **Which CONNACK makes a client connected** (`runCalls_earned_iff`): `handle_rx` takes any
  accepting CONNACK, in any state.  Each change to CONNECTED answers the CONNECT of the running call
  exactly when no accepting CONNACK comes to a client that is neither connected nor in CONNECT_SENT,
  and none began before that CONNECT was out.
* **What CONNECTED says about the link** (`linkUp_of_returned`): nobody tells the client that the
  link has gone down.  As long as no line reporting that is met while CONNECTED, and no CONNACK is
  accepted on a link that is down, CONNECTED at the end of `mqtt_loop` means that the link is up.
-/

namespace GrainWarehouse

/-! ## Which CONNACK makes a client connected -/

/-- A whole CONNACK with return code 0. -/
def AcceptsConnack (pkt : List UInt8) : Prop :=
  (pkt.headD 0 >>> 4) &&& 0x0F = ctrlConnack ∧
    ∃ payload, Whole pkt payload ∧ 2 ≤ payload.length ∧ payload[1]? = some 0

/-- **A change to CONNECTED comes from CONNECT_SENT, by an accepting CONNACK whose frame began after
the CONNECT of the running call was out.** -/
def MqttEv.Earned : MqttEv → Prop
  | .state old new k attempt => new = .connected →
    old = .connectSent ∧ ∃ c ∈ k, AcceptsConnack c.packet ∧ ∃ t ∈ attempt, t ≤ c.frameAt
  | _ => True

/-- **An accepting CONNACK comes in time**, unless the client is connected anyway: it meets
CONNECT_SENT, and its frame began after the CONNECT of the running call was out. -/
def Met.Timely (m : Met) : Prop :=
  AcceptsConnack m.connack.packet → m.state ≠ .connected →
    m.state = .connectSent ∧ ∃ t ∈ m.attempt, t ≤ m.connack.frameAt

/-- A change to CONNECTED is the work of an accepting CONNACK that was met. -/
def MqttEv.Caused (met : List Met) : MqttEv → Prop
  | .state old new k attempt => new = .connected → old ≠ .connected ∧
    ∃ c ∈ k, AcceptsConnack c.packet ∧ ⟨old, c, attempt⟩ ∈ met
  | _ => True

/-- **All accepting CONNACKs that met a client not yet connected have connected it**, and nothing
else has. -/
structure Client.Matched (c : Client) : Prop where
  caused : ∀ ev ∈ c.trace, ev.Caused c.met
  accepted : ∀ m ∈ c.met, AcceptsConnack m.connack.packet → m.state ≠ .connected →
    .state m.state .connected (some m.connack) m.attempt ∈ c.trace

theorem sState_setState (new : MqttState) (k : Option Connack) (e : Esp Client) :
    (setState new k e).up.sState = new := by
  obtain ⟨evs, heq⟩ := setState_up new k e
  rw [heq]

/-- Setting the state adds one entry to the record, if any. -/
theorem forall_trace_setState {Q : MqttEv → Prop} {new : MqttState} {k : Option Connack}
    {e : Esp Client} (h : ∀ ev ∈ e.up.trace, Q ev)
    (hev : e.up.sState ≠ new → Q (.state e.up.sState new k e.up.attempt)) :
    ∀ ev ∈ (setState new k e).up.trace, Q ev := by
  simp only [setState]
  split
  · exact h
  · next hne => exact List.forall_mem_append.mpr ⟨h, List.forall_mem_singleton.mpr (hev hne)⟩

theorem trace_prefix_setState (new : MqttState) (k : Option Connack) (e : Esp Client) :
    e.up.trace <+: (setState new k e).up.trace := by
  obtain ⟨evs, heq⟩ := setState_up new k e
  rw [heq]
  exact List.prefix_append _ _

theorem met_setState (new : MqttState) (k : Option Connack) (e : Esp Client) :
    (setState new k e).up.met = e.up.met := by
  obtain ⟨evs, heq⟩ := setState_up new k e
  rw [heq]

/-- The rest of the client does not matter. -/
theorem Client.Matched.frame {c c' : Client} (h : c.Matched) (hmet : c'.met = c.met)
    (htrace : c'.trace = c.trace) : c'.Matched where
  caused := by
    rw [hmet, htrace]
    exact h.caused
  accepted := by
    rw [hmet, htrace]
    exact h.accepted

theorem matched_setAttempt (attempt : Option ℕ) {e : Esp Client} (h : e.up.Matched) :
    (setAttempt attempt e).up.Matched := h.frame rfl rfl

/-- A cause does not go away. -/
theorem MqttEv.Caused.mono {ev : MqttEv} {met : List Met} (h : ev.Caused met) (m : Met) :
    ev.Caused (met ++ [m]) := by
  cases ev with
  | state old new k attempt =>
    intro hnew
    obtain ⟨hold, c, hc, hacc, hmet⟩ := h hnew
    exact ⟨hold, c, hc, hacc, List.mem_append_left _ hmet⟩
  | message topic payload => trivial
  | puback packet => trivial
  | returned state up => trivial

/-- An entry that is no change to CONNECTED. -/
theorem matched_note {ev : MqttEv} {e : Esp Client} (h : e.up.Matched)
    (hev : ev.Caused e.up.met) : (note ev e).up.Matched where
  caused := List.forall_mem_append.mpr ⟨h.caused, List.forall_mem_singleton.mpr hev⟩
  accepted m hm hacc hstate := List.mem_append_left _ (h.accepted m hm hacc hstate)

/-- A change to another state than CONNECTED. -/
theorem matched_setState {new : MqttState} (hnew : new ≠ .connected) (k : Option Connack)
    {e : Esp Client} (h : e.up.Matched) : (setState new k e).up.Matched where
  caused := by
    rw [met_setState]
    exact forall_trace_setState h.caused fun _ hc => absurd hc hnew
  accepted m hm hacc hstate := by
    rw [met_setState] at hm
    exact (trace_prefix_setState new k e).subset (h.accepted m hm hacc hstate)

/-- A CONNACK that does not accept, or comes to a connected client, is met and changes nothing. -/
theorem matched_noteConnack {k : Connack} {e : Esp Client} (h : e.up.Matched)
    (hk : AcceptsConnack k.packet → e.up.sState = .connected) : (noteConnack k e).up.Matched where
  caused ev hev := (h.caused ev hev).mono _
  accepted m hm hacc hstate := by
    rcases List.mem_append.mp hm with hm | hm
    · exact h.accepted m hm hacc hstate
    · obtain rfl := List.mem_singleton.mp hm
      exact absurd (hk hacc) hstate

/-- **Meeting an accepting CONNACK and being connected by it go together.** -/
theorem matched_handleConnack {pkt payload : List UInt8} {e : Esp Client} (hw : Whole pkt payload)
    (htype : (pkt.headD 0 >>> 4) &&& 0x0F = ctrlConnack) (h : e.up.Matched) :
    (handleConnack pkt payload e).up.Matched := by
  simp only [handleConnack]
  set k : Connack := ⟨pkt, e.frameAt, linkUp e⟩
  split
  · next hcode =>
    have hacc : AcceptsConnack k.packet := ⟨htype, payload, hw, hcode⟩
    suffices h : (setState .connected (some k) (noteConnack k e)).up.Matched from h.frame rfl rfl
    by_cases hstate : e.up.sState = .connected
    · -- no change, and no cause
      have hmet : (noteConnack k e).up.Matched := matched_noteConnack h fun _ => hstate
      rw [setState, if_pos (show (noteConnack k e).up.sState = .connected from hstate)]
      exact hmet.frame rfl rfl
    · rw [setState, if_neg (show ¬ (noteConnack k e).up.sState = .connected from hstate)]
      refine ⟨List.forall_mem_append.mpr ⟨fun ev hev => (h.caused ev hev).mono _, ?_⟩,
        fun m hm hacc' hstate' => ?_⟩
      · exact List.forall_mem_singleton.mpr fun _ =>
          ⟨hstate, k, rfl, hacc, List.mem_append_right _ (List.mem_singleton_self _)⟩
      · rcases List.mem_append.mp hm with hm | hm
        · exact List.mem_append_left _ (h.accepted m hm hacc' hstate')
        · obtain rfl := List.mem_singleton.mp hm
          exact List.mem_append_right _ (List.mem_singleton_self _)
  · next hcode =>
    refine matched_setState (by decide) _ (matched_noteConnack h fun hacc => ?_)
    obtain ⟨-, payload', hw', hcode'⟩ := hacc
    rw [← hw.payload_unique hw'] at hcode'
    exact absurd hcode' hcode

theorem looped_matched : Esp.Looped fun e => e.up.Matched :=
  { Esp.stable_up fun (c : Client) _ => c.Matched with
    lastPing := fun _ _ h => h.frame rfl rfl
    message := fun _ _ _ h => matched_note h trivial
    puback := fun _ _ h => matched_note h trivial
    connack := fun _ _ _ hw htype h => matched_handleConnack hw htype h
    round := fun o e e' hround h => by rwa [up_parseRound hround]
    line := fun e e' hline h => by rwa [up_lineBody hline]
    returned := fun _ h => matched_note h trivial }

/-- The driver's own calls leave the client alone. -/
theorem up_tcpClose (link : ℤ) (e : Esp Client) : (tcpClose link e).2.up = e.up :=
  (Esp.stable_up fun c _ => c = e.up).tcpClose (fun _ h => h) link rfl

theorem up_tcpSend (link : ℤ) (data : List UInt8) (e : Esp Client) :
    (tcpSend link data e).2.up = e.up :=
  (Esp.stable_up fun c _ => c = e.up).tcpSend link data rfl

/-- **`mqtt_connect_broker` changes the state to CONNECTED by its CONNACK alone.** -/
theorem matched_connectBroker (host : List UInt8) (port : UInt16) {e : Esp Client}
    (h : e.up.Matched) : (connectBroker host port e).2.up.Matched := by
  have htcp : (tcpConnect host port e).2.up.Matched :=
    (Esp.stable_up fun (c : Client) _ => c.Matched).tcpConnect (fun _ h => h) host port h
  simp only [connectBroker]
  split
  · exact h
  · split
    · exact htcp
    · have hopen : (setState .tcpOpen none { (tcpConnect host port e).2 with
          up := { (tcpConnect host port e).2.up with
            sLinkId := UInt8.ofInt (tcpConnect host port e).1 } }).up.Matched :=
        matched_setState (by decide) none (htcp.frame rfl rfl)
      split
      · exact hopen
      · next buf _ =>
        have hsent (link : ℤ) := looped_matched.tcpSend link buf
          (matched_setState (show MqttState.connectSent ≠ .connected by decide) none hopen)
        split
        · exact matched_setState (by decide) none (hsent _)
        · refine matched_setAttempt none (looped_matched.awaitConnack (fun link e _ h => ?_)
            (fun link e h => ?_) (matched_setAttempt _ (hsent _)))
          · rw [up_tcpClose]
            exact h
          · exact matched_setState (by decide) none (by rw [up_tcpClose]; exact h)

theorem lasting_matched : Esp.Lasting fun e => e.up.Matched :=
  { looped_matched with
    config := fun _ _ h => h.frame rfl rfl
    packetId := fun _ _ h => h.frame rfl rfl
    msgCb := fun _ _ h => h.frame rfl rfl
    wifi := fun _ _ h => h
    linkTrue := fun _ h => h
    idle := fun _ h => matched_setState (by decide) none h
    close := fun _ _ h => matched_setState (by decide) none (by rw [up_tcpClose]; exact h)
    connectBroker := fun host port _ h => matched_connectBroker host port h }

/-- **In any run, each change to CONNECTED answers the CONNECT of the running call exactly when all
accepting CONNACKs come in time.** -/
theorem runCalls_earned_iff (calls : List Call) (air : List Arrival) :
    (∀ ev ∈ (runCalls calls (Esp.boot .boot air)).up.trace, ev.Earned) ↔
      ∀ m ∈ (runCalls calls (Esp.boot .boot air)).up.met, m.Timely := by
  have hboot : (Esp.boot Client.boot air).up.Matched :=
    ⟨fun _ hev => absurd hev List.not_mem_nil, fun _ hm => absurd hm List.not_mem_nil⟩
  have hrun := lasting_matched.runCalls calls hboot
  constructor
  · intro h m hm hacc hstate
    obtain ⟨hold, c, hc, -, hattempt⟩ := h _ (hrun.accepted m hm hacc hstate) rfl
    obtain rfl := Option.mem_some.mp hc
    exact ⟨hold, hattempt⟩
  · intro h ev hev
    have hcaused := hrun.caused ev hev
    cases ev with
    | state old new k attempt =>
      intro hnew
      obtain ⟨hold, c, hc, hacc, hmet⟩ := hcaused hnew
      obtain ⟨hsent, hattempt⟩ := h _ hmet hacc hold
      exact ⟨hsent, c, hc, hacc, hattempt⟩
    | message topic payload => trivial
    | puback packet => trivial
    | returned state up => trivial

/-- An accepting CONNACK that nobody asked for. -/
def unsolicited : List Arrival := [⟨0, ascii "+IPD,4:" ++ [0x20, 0x02, 0x00, 0x00]⟩]

/-- It makes an idle client connected. -/
theorem unsolicited_connects :
    ¬ ∀ ev ∈ (runCalls [.clientInit (ascii "grain") [] [] 60, .pause 0, .loop]
      (Esp.boot .boot unsolicited)).up.trace, ev.Earned := by
  have hrun : (runCalls [.clientInit (ascii "grain") [] [] 60, .pause 0, .loop]
      (Esp.boot .boot unsolicited)).up.trace =
      [.state .idle .connected (some ⟨[0x20, 0x02, 0x00, 0x00], 0, false⟩) none,
        .returned .connected false] := by
    decide +kernel
  intro h
  rw [hrun] at h
  cases (h _ List.mem_cons_self rfl).1

/-! ## What CONNECTED says about the link -/

/-- A line after which this link is down, though it was up. -/
def ReportsDown (piece : List UInt8) (id : Fin espMaxLinkId) : Prop :=
  (applyUrc (urcLine piece)
    { Esp.boot () [] with sLinkState := fun _ => true }).sLinkState id = false

/-- A line that does not report it leaves the link up. -/
theorem link_applyUrc {α : Type} {piece : List UInt8} {id : Fin espMaxLinkId} {e : Esp α}
    (hup : e.sLinkState id = true) (h : ¬ ReportsDown piece id) :
    (applyUrc (urcLine piece) e).sLinkState id = true := by
  rw [ReportsDown, Bool.not_eq_false] at h
  simp only [applyUrc] at h ⊢
  split_ifs at h ⊢
  all_goals simp_all [Function.update_apply]

/-- A line met while CONNECTED does not report the client's link down. -/
def Ev.Quiet : Ev Client → Prop
  | .line piece c => c.sState = .connected →
    ¬ ReportsDown piece (Fin.ofNat espMaxLinkId c.sLinkId.toNat)
  | _ => True

/-- A CONNACK that is accepted is met on a link that is up. -/
def MqttEv.Linked : MqttEv → Prop
  | .state _ new k _ => new = .connected → ∀ c ∈ k, c.linkUp = true
  | _ => True

/-- When `mqtt_loop` returns CONNECTED, the link is up. -/
def MqttEv.LinkUp : MqttEv → Prop
  | .returned st up => st = .connected → up = true
  | _ => True

/-- **Each time `mqtt_loop` has returned CONNECTED, the link was up.** -/
def Esp.ReturnsUp (e : Esp Client) : Prop := ∀ ev ∈ e.up.trace, ev.LinkUp

/-- **No link went down under a connected client**, as far as the driver was told. -/
def Esp.Calm (e : Esp Client) : Prop :=
  (∀ ev ∈ e.log, ev.Quiet) ∧ ∀ ev ∈ e.up.trace, ev.Linked

instance : DecidablePred Ev.Quiet
  | .line _ _ => inferInstanceAs (Decidable (_ → ¬ _ = _))
  | .tx _ | .found _ _ | .recv _ _ | .cleared _ => inferInstanceAs (Decidable True)

instance : DecidablePred MqttEv.Linked
  | .state _ _ _ _ => inferInstanceAs (Decidable (_ → ∀ c ∈ _, _))
  | .message _ _ | .puback _ | .returned _ _ => inferInstanceAs (Decidable True)

instance : DecidablePred MqttEv.LinkUp
  | .returned _ _ => inferInstanceAs (Decidable (_ → _ = _))
  | .message _ _ | .puback _ | .state _ _ _ _ => inferInstanceAs (Decidable True)

instance (e : Esp Client) : Decidable e.ReturnsUp :=
  inferInstanceAs (Decidable (∀ ev ∈ e.up.trace, ev.LinkUp))

instance (e : Esp Client) : Decidable e.Calm := inferInstanceAs (Decidable (_ ∧ _))

/-- **A connected client's link is up.** -/
structure Esp.Joined (e : Esp Client) : Prop where
  id : e.up.sLinkId = 0
  up : e.up.sState = .connected → e.sLinkState 0 = true
  returned : ∀ ev ∈ e.up.trace, ev.LinkUp

/-- …in a calm run. -/
def Esp.Held (e : Esp Client) : Prop := e.Calm → e.Joined

/-- What a step adds to the records may only make a run less calm. -/
theorem Esp.Held.step {e e' : Esp Client} (h : e.Held) (hlog : e.log <+: e'.log)
    (htrace : e.up.trace <+: e'.up.trace) (hstep : e'.Calm → e.Joined → e'.Joined) : e'.Held :=
  fun hc => hstep hc (h ⟨fun ev hev => hc.1 ev (hlog.subset hev),
    fun ev hev => hc.2 ev (htrace.subset hev)⟩)

/-- A step that leaves the link flags, and of the client the link, the state and the record, alone.
-/
theorem Esp.Held.frame {e e' : Esp Client} (h : e.Held) (hlog : e.log <+: e'.log)
    (hid : e'.up.sLinkId = e.up.sLinkId) (hstate : e'.up.sState = e.up.sState)
    (htrace : e'.up.trace = e.up.trace) (hlinks : e'.sLinkState = e.sLinkState) : e'.Held :=
  h.step hlog (by rw [htrace]) fun _ hj => ⟨hid.trans hj.id, by rw [hstate, hlinks]; exact hj.up,
    by rw [htrace]; exact hj.returned⟩

theorem stable_held : Esp.Stable Esp.Held where
  pass ms e h := by
    obtain ⟨t, r, k, bs, -, -, -, heq⟩ := e.pass_eq ms
    rw [heq]
    exact h.frame (List.prefix_refl _) rfl rfl rfl rfl
  sent _ _ h := h.frame (List.prefix_append _ _) rfl rfl rfl rfl
  cleared _ h := h.frame (List.prefix_append _ _) rfl rfl rfl rfl
  found _ _ _ _ h := h.frame (List.prefix_append _ _) rfl rfl rfl rfl

/-- The client's link is link 0. -/
theorem linkUp_of_id {e : Esp Client} (h : e.up.sLinkId = 0) : linkUp e = e.sLinkState 0 := by
  rw [linkUp, h]
  rfl

/-- An entry that tells nothing about states and links. -/
theorem held_note {ev : MqttEv} {e : Esp Client} (h : e.Held)
    (hev : e.Joined → ev.LinkUp) : (note ev e).Held :=
  h.step (List.prefix_refl _) (List.prefix_append _ _) fun _ hj => ⟨hj.id, hj.up,
    List.forall_mem_append.mpr ⟨hj.returned, List.forall_mem_singleton.mpr (hev hj)⟩⟩

/-- **Leaving CONNECTED is always right**, also after steps that took the link down. -/
theorem held_setState {new : MqttState} (hnew : new ≠ .connected) (k : Option Connack)
    {e e' : Esp Client} (hlog : e.log <+: e'.log) (hup : e'.up = e.up) (h : e.Held) :
    (setState new k e').Held := by
  obtain ⟨evs, heq⟩ := setState_up new k e'
  refine h.step (by rw [heq]; exact hlog) (hup ▸ trace_prefix_setState new k e') fun _ hj =>
    ⟨by rw [heq, hup]; exact hj.id,
      fun hc => absurd ((sState_setState new k e').symm.trans hc) hnew,
      forall_trace_setState (hup ▸ hj.returned) fun _ => trivial⟩

/-- An accepted CONNACK leaves the entry that says whether the link was up. -/
theorem held_connected {pkt : List UInt8} {e : Esp Client} (h : e.Held) :
    (setState .connected (some ⟨pkt, e.frameAt, linkUp e⟩) e).Held := by
  obtain ⟨evs, heq⟩ := setState_up .connected (some ⟨pkt, e.frameAt, linkUp e⟩) e
  refine h.step (by rw [heq]) (trace_prefix_setState _ _ e) fun hc hj =>
    ⟨by rw [heq]; exact hj.id, fun _ => ?_, forall_trace_setState hj.returned fun _ => trivial⟩
  rw [heq]
  by_cases hold : e.up.sState = .connected
  · exact hj.up hold
  · have hev : MqttEv.Linked (.state e.up.sState .connected
        (some ⟨pkt, e.frameAt, linkUp e⟩) e.up.attempt) := by
      refine hc.2 _ ?_
      rw [setState, if_neg hold]
      exact List.mem_append_right _ (List.mem_singleton_self _)
    exact (linkUp_of_id hj.id).symm.trans (hev rfl _ rfl)

theorem looped_held : Esp.Looped Esp.Held :=
  { stable_held with
    lastPing := fun _ _ h => h.frame (List.prefix_refl _) rfl rfl rfl rfl
    message := fun _ _ _ h => held_note h fun _ => trivial
    puback := fun _ _ h => held_note h fun _ => trivial
    connack := fun pkt payload e _ _ h => by
      have hmet : (noteConnack ⟨pkt, e.frameAt, linkUp e⟩ e).Held :=
        h.frame (List.prefix_refl _) rfl rfl rfl rfl
      simp only [handleConnack]
      split
      · exact (held_connected hmet).frame (List.prefix_refl _) rfl rfl rfl rfl
      · exact held_setState (by decide) _ (List.prefix_refl _) rfl hmet
    round := fun o e e' hround h => by
      rcases parseRound_cases hround with
        ⟨-, rx, n, -, -, -, rfl⟩ | ⟨pre, hdr, link, data, rx, -, -, -, rfl⟩
      · exact h.frame (List.prefix_refl _) rfl rfl rfl rfl
      · exact h.frame (List.prefix_append _ _) rfl rfl rfl rfl
    line := fun e e' hline h => by
      obtain ⟨n, -, -, -, -, rfl⟩ := lineBody_cases hline
      obtain ⟨rx, w, ls, -, heq⟩ := takeLine_eq n e
      refine h.step (by rw [heq]; exact List.prefix_append _ _) (by rw [heq]) fun hc hj =>
        ⟨by rw [heq]; exact hj.id, fun hconn => ?_, by rw [heq]; exact hj.returned⟩
      have hold : e.up.sState = .connected := by rwa [heq] at hconn
      have hquiet : Ev.Quiet (.line (e.ring.take n) e.up) := by
        refine hc.1 _ ?_
        rw [heq]
        exact List.mem_append_right _ (List.mem_singleton_self _)
      have hnot := hquiet hold
      rw [hj.id, ← (ringCopyOut_eq e.sRx n).1] at hnot
      exact link_applyUrc (hj.up hold) hnot
    returned := fun e h => held_note h fun hj hconn => (linkUp_of_id hj.id).trans (hj.up hconn) }

/-- Closing a link keeps the record of what was before. -/
theorem log_prefix_tcpClose (link : ℤ) (e : Esp Client) : e.log <+: (tcpClose link e).2.log :=
  (Esp.stable_log e.log).tcpClose (fun _ h => h) link (List.prefix_refl _)

theorem held_linkTrue {e : Esp Client} (h : e.Held) : (setLink true e).Held :=
  h.step (List.prefix_refl _) (List.prefix_refl _) fun _ hj =>
    ⟨hj.id, fun _ => setLink_self true e, hj.returned⟩

theorem held_setAttempt (attempt : Option ℕ) {e : Esp Client} (h : e.Held) :
    (setAttempt attempt e).Held := h.frame (List.prefix_refl _) rfl rfl rfl rfl

/-- A client that is connected after `mqtt_connect_broker` has a link that is up. -/
theorem held_connectBroker (host : List UInt8) (port : UInt16) {e : Esp Client} (h : e.Held) :
    (connectBroker host port e).2.Held := by
  have htcp : (tcpConnect host port e).2.Held :=
    stable_held.tcpConnect (fun _ h => held_linkTrue h) host port h
  simp only [connectBroker]
  split
  · exact h
  · split
    · exact htcp
    · next hid =>
      have hzero := (link_of_tcpConnect (not_lt.mp hid)).1
      have hset : Esp.Held { (tcpConnect host port e).2 with
          up := { (tcpConnect host port e).2.up with
            sLinkId := UInt8.ofInt (tcpConnect host port e).1 } } :=
        htcp.step (List.prefix_refl _) (List.prefix_refl _) fun _ hj =>
          ⟨by rw [hzero]; rfl, hj.up, hj.returned⟩
      have hopen := held_setState (show MqttState.tcpOpen ≠ .connected by decide) none
        (List.prefix_refl _) rfl hset
      split
      · exact hopen
      · next buf _ =>
        have hsent (link : ℤ) := stable_held.tcpSend link buf
          (held_setState (show MqttState.connectSent ≠ .connected by decide) none
            (List.prefix_refl _) rfl hopen)
        split
        · exact held_setState (by decide) none (List.prefix_refl _) rfl (hsent _)
        · refine held_setAttempt none (looped_held.awaitConnack (fun link e hdis he => ?_)
            (fun link e he => ?_) (held_setAttempt _ (hsent _)))
          · have hup := up_tcpClose link e
            refine he.step (log_prefix_tcpClose link e) (by rw [hup]) fun _ hj =>
              ⟨by rw [hup]; exact hj.id, fun hc => ?_, by rw [hup]; exact hj.returned⟩
            rw [hup, hdis] at hc
            cases hc
          · exact held_setState (by decide) none (log_prefix_tcpClose link e)
              (up_tcpClose link e) he

theorem lasting_held : Esp.Lasting Esp.Held :=
  { looped_held with
    config := fun _ _ h => h.frame (List.prefix_refl _) rfl rfl rfl rfl
    packetId := fun _ _ h => h.frame (List.prefix_refl _) rfl rfl rfl rfl
    msgCb := fun _ _ h => h.frame (List.prefix_refl _) rfl rfl rfl rfl
    wifi := fun _ _ h => h.frame (List.prefix_refl _) rfl rfl rfl rfl
    linkTrue := fun _ h => held_linkTrue h
    idle := fun _ h => held_setState (by decide) none (List.prefix_refl _) rfl h
    close := fun link e h => held_setState (by decide) none (log_prefix_tcpClose link e)
      (up_tcpClose link e) h
    connectBroker := fun host port _ h => held_connectBroker host port h }

theorem held_boot (air : List Arrival) : (Esp.boot Client.boot air).Held := fun _ =>
  ⟨rfl, fun (hc : MqttState.idle = .connected) => absurd hc (by decide),
    fun _ hev => absurd hev List.not_mem_nil⟩

/-- **In a calm run, CONNECTED at the end of `mqtt_loop` means that the link is up.** -/
theorem linkUp_of_returned (calls : List Call) (air : List Arrival)
    (hcalm : (runCalls calls (Esp.boot .boot air)).Calm) :
    (runCalls calls (Esp.boot .boot air)).ReturnsUp :=
  (lasting_held.runCalls calls (held_boot air) hcalm).returned

/-- The module lets the client join and connect, line by line. -/
def welcome : List Arrival :=
  [⟨0, ascii "WIFI GOT IP\r\n"⟩, ⟨0, ascii "0,CONNECTED\r\n"⟩, ⟨0, ascii ">"⟩,
    ⟨0, ascii "\r\nSEND OK\r\n"⟩, ⟨0, ascii "+IPD,4:" ++ [0x20, 0x02, 0x00, 0x00]⟩]

/-- The calls that make use of it. -/
def joining : List Call :=
  [.clientInit (ascii "grain") [] [] 60, .pause 0, .loop, .connectBroker (ascii "broker") 1883]

theorem linkUp_of_returned_joining : (runCalls joining (Esp.boot .boot welcome)).ReturnsUp :=
  linkUp_of_returned joining welcome (by decide +kernel)

/-- When the module then reports `CLOSED`, the driver knows, and the client stays connected. -/
theorem closed_unnoticed : ¬ (runCalls (joining ++ [.pause 0, .loop])
    (Esp.boot .boot (welcome ++ [⟨0, ascii "CLOSED\r\n"⟩]))).ReturnsUp := by
  decide +kernel

end GrainWarehouse
