import GrainWarehouse.Machinery.Listener
import GrainWarehouse.Esp8266.Setup

/-!
# Esp8266/Wire — the driver's side of the UART, as the module takes it in

The module takes commands, a line each, and between two of them the data that `AT+CIPSEND` has
announced, if it gives leave for them.  `Esp.module` is a module that goes by the bytes that were
transmitted and by decisions of its own, block by block.  `Esp.listener` is the module as the driver
has it: leave is given when the driver finds the prompt.  **The two are the same as long as each
prompt comes in time, and none is found that is not meant** (`module_eq`).

`esp8266_tcp_send` writes its data only behind a prompt, and as many bytes as it has announced, so
**it leaves the listener between two commands, whatever comes of it** (`listener_tcpSend`); every
other call writes whole lines (`Esp.Spoken`).
-/

namespace GrainWarehouse

variable {α : Type}

/-! ## The module -/

/-- What a line announces: `AT+CIPSEND=n`, and `n` bytes. -/
def announcement (text : List UInt8) : Option ℕ :=
  if ascii "AT+CIPSEND=" <+: text then some (number (text.drop (ascii "AT+CIPSEND=").length))
  else none

/-- The marks of the AT dialogue. -/
def atMarks : Marks UInt8 := ⟨CR, LF, announcement⟩

/-- What an entry of the record is on the line: bytes, or a prompt that was found. -/
def Ev.sounds : Ev α → List (Option UInt8)
  | .tx data => data.map some
  | .found ring at' => if findSub (ascii ">") ring = some at' then [none] else []
  | .recv _ _ | .cleared _ | .line _ _ => []

namespace Esp

/-- All that has gone over the line. -/
def sounds (e : Esp α) : List (Option UInt8) := e.log.flatMap Ev.sounds

/-- **The module as the driver has it**: it gives leave when its prompt is found. -/
def listener (e : Esp α) : Listener UInt8 := e.sounds.foldl (Listener.follow atMarks) .start

/-- **The module**, behind all the bytes that were transmitted: it gives leave for the `k`-th
announced block, or not, as it pleases. -/
def module (leave : ℕ → Bool) (e : Esp α) : Listener UInt8 :=
  .alone atMarks leave (transmitted e.log).flatten

/-- What the driver makes of the announcements, one after the other: whether it finds a prompt
before it transmits anything else. -/
def prompts (e : Esp α) : List Bool := Listener.leaves atMarks .start e.sounds

/-- **Each prompt comes in time, and none is found that is not meant**: the module gives leave for a
block if and only if the driver, having announced it, finds a prompt. -/
def Prompted (leave : ℕ → Bool) (e : Esp α) : Prop :=
  e.prompts = (List.range e.prompts.length).map leave

instance (leave : ℕ → Bool) (e : Esp α) : Decidable (e.Prompted leave) :=
  inferInstanceAs (Decidable (_ = _))

end Esp

/-- What goes over the line are the bytes that are transmitted, and prompts. -/
theorem reduceOption_sounds : ∀ log : List (Ev α),
    (log.flatMap Ev.sounds).reduceOption = (transmitted log).flatten
  | [] => rfl
  | ev :: log => by
      have hone : ev.sounds.reduceOption = (transmitted [ev]).flatten := by
        cases ev with
        | tx data =>
          have htx : transmitted [(.tx data : Ev α)] = [data] := rfl
          rw [htx, List.flatten_singleton]
          exact List.filterMap_map.trans List.filterMap_some
        | found ring at' =>
          rw [Ev.sounds]
          split
          all_goals rfl
        | recv link data => rfl
        | cleared ring => rfl
        | line piece up => rfl
      have hcons : transmitted (ev :: log) = transmitted [ev] ++ transmitted log :=
        transmitted_append [ev] log
      rw [List.flatMap_cons, List.reduceOption_append, hone, reduceOption_sounds log, hcons,
        List.flatten_append]

/-- **The module is the one that the driver has.** -/
theorem module_eq {leave : ℕ → Bool} {e : Esp α} (h : e.Prompted leave) :
    e.module leave = e.listener.forget := by
  rw [Esp.module, ← reduceOption_sounds]
  exact Listener.alone_eq atMarks h

/-- One line, so that nothing in it ends it. -/
def OneLine (text : List UInt8) : Prop := CR ∉ text ∧ LF ∉ text

instance (text : List UInt8) : Decidable (OneLine text) := inferInstanceAs (Decidable (_ ∧ _))

/-- **A command**: one line that begins with `AT` and fits the buffers of the driver. -/
structure IsCommand (text : List UInt8) : Prop where
  at' : ascii "AT" <+: text
  oneLine : OneLine text
  fits : text.length ≤ 127

instance (text : List UInt8) : Decidable (IsCommand text) :=
  decidable_of_iff (ascii "AT" <+: text ∧ OneLine text ∧ text.length ≤ 127)
    ⟨fun h => ⟨h.1, h.2.1, h.2.2⟩, fun h => ⟨h.at', h.oneLine, h.fits⟩⟩

theorem OneLine.append {s t : List UInt8} (hs : OneLine s) (ht : OneLine t) : OneLine (s ++ t) :=
  ⟨fun h => (List.mem_append.mp h).elim hs.1 ht.1, fun h => (List.mem_append.mp h).elim hs.2 ht.2⟩

theorem oneLine_decimal (n : ℕ) : OneLine (decimal n) :=
  ⟨notMem_decimal (by decide) n, notMem_decimal (by decide) n⟩

/-- `snprintf` makes commands of texts that begin like one. -/
theorem isCommand_snprintf {size : ℕ} {rest : List UInt8} (hsize : 3 ≤ size ∧ size ≤ 128)
    (h : OneLine rest) : IsCommand (snprintf size (ascii "AT" ++ rest)) := by
  have htake : snprintf size (ascii "AT" ++ rest) = ascii "AT" ++ rest.take (size - 3) := by
    have hlen : (ascii "AT").length = 2 := by decide
    rw [snprintf, List.take_append, List.take_of_length_le (by omega), hlen, Nat.sub_sub]
  have hcut : OneLine (rest.take (size - 3)) :=
    ⟨fun hmem => h.1 (List.mem_of_mem_take hmem), fun hmem => h.2 (List.mem_of_mem_take hmem)⟩
  refine ⟨htake ▸ List.prefix_append _ _, ?_, ?_⟩
  · rw [htake]
    exact .append (by decide) hcut
  · rw [snprintf, List.length_take]
    omega

/-! ## What is quiet, and what is said -/

/-- A property that pauses, removals from the ring and answers other than a prompt preserve. -/
structure Esp.Hushed (P : Esp α → Prop) : Prop where
  pass : ∀ ms e, P e → P (e.pass ms)
  cleared : ∀ e, P e → P (clearRing e)
  found : ∀ needle at' e, needle.headD 62 ≠ 62 → findSub needle e.ring = some at' → P e →
    P (dropLine at' e)

theorem Esp.Hushed.atWaitLoop {P : Esp α → Prop} (hP : Esp.Hushed P) {needle : List UInt8}
    (hneedle : needle.headD 62 ≠ 62) : ∀ (n : ℕ) {e : Esp α}, P e → P (atWaitLoop needle n e).2
  | 0, _, h => h
  | n + 1, e, h => by
      rw [GrainWarehouse.atWaitLoop]
      split
      · next text e' hpoll =>
        obtain ⟨at', hat, -, rfl⟩ := atPoll_eq_some hpoll
        exact hP.found needle at' e hneedle hat h
      · exact hP.atWaitLoop hneedle n (hP.pass 10 e h)

theorem Esp.Hushed.atWaitFor {P : Esp α → Prop} (hP : Esp.Hushed P) (needle : List UInt8) (ms : ℕ)
    (hneedle : needle.headD 62 ≠ 62) {e : Esp α} (h : P e) : P (atWaitFor needle ms e).2 := by
  rw [GrainWarehouse.atWaitFor]
  exact hP.atWaitLoop hneedle _ h

/-- The needle stands where it is found. -/
theorem headD_drop_of_findSub {needle ring : List UInt8} {at' : ℕ} (c : UInt8) (hne : needle ≠ [])
    (h : findSub needle ring = some at') : (ring.drop at').headD c = needle.headD c := by
  obtain ⟨pre, post, rfl, rfl⟩ := findSub_eq_some h
  obtain ⟨b, bs, rfl⟩ := List.exists_cons_of_ne_nil hne
  rw [List.append_assoc, List.drop_left]
  rfl

theorem listener_push {e e' : Esp α} (ev : Ev α) (h : e'.log = e.log ++ [ev]) :
    e'.listener = ev.sounds.foldl (Listener.follow atMarks) e.listener := by
  rw [Esp.listener, Esp.sounds, h, List.flatMap_append, List.foldl_append, List.flatMap_singleton]
  rfl

theorem listener_of_log {e e' : Esp α} (h : e'.log = e.log) : e'.listener = e.listener := by
  rw [Esp.listener, Esp.sounds, h, Esp.listener, Esp.sounds]

/-- Bytes are taken in one by one. -/
theorem listener_tx {e e' : Esp α} {data : List UInt8} (h : e'.log = e.log ++ [.tx data]) :
    e'.listener = e.listener.hear atMarks data := by
  rw [listener_push _ h, Ev.sounds, List.foldl_map]
  rfl

/-- The module is not concerned. -/
theorem hushed_listener (s : Listener UInt8) : Esp.Hushed fun e : Esp α => e.listener = s where
  pass ms e h := by
    obtain ⟨t, r, k, bs, -, -, -, heq⟩ := e.pass_eq ms
    rw [heq]
    exact h
  cleared e h := (listener_push (.cleared e.ring) rfl).trans h
  found needle at' e hneedle hat h := by
    have hprompt : findSub (ascii ">") e.ring ≠ some at' := fun hp => by
      have hne : needle ≠ [] := by
        rintro rfl
        exact hneedle rfl
      have hhead := headD_drop_of_findSub 62 (by decide) hp
      rw [headD_drop_of_findSub 62 hne hat] at hhead
      exact hneedle hhead
    refine (listener_push (.found e.ring at') rfl).trans ?_
    rw [Ev.sounds, if_neg hprompt]
    exact h

/-- A line is taken in at its end… -/
theorem listener_atSendLine {e : Esp α} (h : e.listener.Idle) {text : List UInt8}
    (hcr : CR ∉ text) : (atSendLine text e).listener =
      ⟨e.listener.heard ++ [.line text], [], announcement text, 0⟩ := by
  have hpass := (hushed_listener e.listener).pass 0 e rfl
  refine (listener_tx (e := e.pass 0) rfl).trans ?_
  rw [hpass]
  exact h.hear_line atMarks hcr (by decide)

/-- …and so is announced data. -/
theorem listener_uartSend {e : Esp α} {data : List UInt8} (hgot : e.listener.got = [])
    (hdue : e.listener.due = data.length) (hne : data ≠ []) :
    (uartSend data e).listener = ⟨e.listener.heard ++ [.block data], [], none, 0⟩ := by
  have hpass := (hushed_listener e.listener).pass 0 e rfl
  refine (listener_tx (e := e.pass 0) rfl).trans ?_
  rw [hpass, Listener.hear_block atMarks hdue hne, hgot]
  rfl

/-! ## `esp8266_tcp_send` -/

/-- What announces the data. -/
def sendLine (data : List UInt8) : List UInt8 := ascii "AT+CIPSEND=" ++ decimal data.length

theorem announcement_sendLine (data : List UInt8) :
    announcement (sendLine data) = some data.length := by
  have hpre : ascii "AT+CIPSEND=" <+: sendLine data := List.prefix_append _ _
  rw [announcement, if_pos hpre, sendLine, List.drop_left, number_decimal]

theorem isCommand_sendLine {data : List UInt8} (h : data.length < 2 ^ 16) :
    IsCommand (sendLine data) := by
  refine ⟨?_, .append (by decide) (oneLine_decimal _), ?_⟩
  · exact List.IsPrefix.trans (by decide) (List.prefix_append (ascii "AT+CIPSEND=") _)
  · have hdec := length_decimal_le (n := data.length) (k := 5) (by decide) (by omega)
    have hlen : (ascii "AT+CIPSEND=").length = 11 := by decide
    rw [sendLine, List.length_append, hlen]
    omega

/-- What a send comes to: nothing, a prompt that did not come, or the data. -/
inductive HeardOf (data : List UInt8) : List (Heard UInt8) → Prop
  | nothing : HeardOf data []
  | refused : HeardOf data [.line (sendLine data)]
  | sent : HeardOf data [.line (sendLine data), .block data]

/-- The wait for the prompt: the module goes on to the data when it is found. -/
theorem listener_prompt (data : List UInt8) {e : Esp α} (h : e.listener.Idle) :
    (prompt data e).2.listener = ⟨e.listener.heard ++ [.line (sendLine data)], [],
      if (prompt data e).1.isSome then none else some data.length,
      if (prompt data e).1.isSome then data.length else 0⟩ := by
  have hcr : CR ∉ sendLine data := fun hmem => (List.mem_append.mp hmem).elim
    (by decide) (notMem_decimal (by decide) _)
  have hline := listener_atSendLine h hcr
  rw [announcement_sendLine] at hline
  have hwait (i : ℕ) : ((Esp.pass 10)^[i] (atSendLine (sendLine data) e)).listener =
      (atSendLine (sendLine data) e).listener := by
    induction i with
    | zero => rfl
    | succ i ih =>
      rw [Function.iterate_succ_apply']
      exact (hushed_listener _).pass 10 _ ih
  rw [prompt, atWaitFor]
  rcases atWaitLoop_cases (ascii ">") ((2000 + 9) / 10) (atSendLine (sendLine data) e) with
    ⟨i, at', -, -, hat, heq⟩ | ⟨-, heq⟩
  · rw [← sendLine, heq]
    refine (listener_push (.found _ at') rfl).trans ?_
    rw [Ev.sounds, if_pos hat, hwait, hline]
    rfl
  · rw [← sendLine, heq]
    simp only [Option.isSome_none, Bool.false_eq_true, if_false]
    rw [hwait, hline]

/-- **A send leaves the module between two commands, whatever comes of it**, and a send that
succeeds has sent the data. -/
theorem listener_tcpSend (link : ℤ) (data : List UInt8) {e : Esp α} (h : e.listener.Idle) :
    (tcpSend link data e).2.listener.Idle ∧
      ∃ more, (tcpSend link data e).2.listener.heard = e.listener.heard ++ more ∧
        HeardOf data more ∧ ((tcpSend link data e).1 = .ok →
          more = [.line (sendLine data), .block data]) := by
  have hprompt := listener_prompt data h
  simp only [tcpSend]
  split_ifs with hlink hlen hnone hsent
  · exact ⟨h, [], (List.append_nil _).symm, .nothing, fun h => by cases h⟩
  · exact ⟨h, [], (List.append_nil _).symm, .nothing, fun h => by cases h⟩
  · have hsome : ¬ (prompt data e).1.isSome = true := by
      rw [Option.isNone_iff_eq_none] at hnone
      rw [hnone]
      exact Bool.false_ne_true
    rw [if_neg hsome, if_neg hsome] at hprompt
    rw [hprompt]
    exact ⟨⟨rfl, rfl⟩, _, rfl, .refused, fun h => by cases h⟩
  all_goals
    have hsome : (prompt data e).1.isSome = true :=
      Option.isSome_iff_ne_none.mpr fun hn => hnone (Option.isNone_iff_eq_none.mpr hn)
    rw [if_pos hsome, if_pos hsome] at hprompt
    have hdata : (dataOut data e).listener =
        ⟨(prompt data e).2.listener.heard ++ [.block data], [], none, 0⟩ :=
      listener_uartSend (by rw [hprompt]) (by rw [hprompt])
        (List.ne_nil_of_length_pos (Nat.pos_of_ne_zero hlen))
    have hwait := (hushed_listener _).atWaitFor (ascii "SEND OK") 5000 (by decide) hdata
    rw [hprompt, List.append_assoc] at hwait
    rw [hwait]
  · exact ⟨⟨rfl, rfl⟩, _, rfl, .sent, fun h => by cases h⟩
  · exact ⟨⟨rfl, rfl⟩, _, rfl, .sent, fun _ => rfl⟩

/-! ## The other calls -/

/-- A property that commands and the flags of the driver preserve as well. -/
structure Esp.Spoken (P : Esp α → Prop) : Prop extends Esp.Hushed P where
  line : ∀ text e, IsCommand text → P e → P (atSendLine text e)
  wifi : ∀ up e, P e → P (setWifi up e)
  link : ∀ up e, P e → P (setLink up e)
  lower : ∀ e, P e → P (lowerFlags e)

namespace Esp.Spoken

variable {P : Esp α → Prop} (hP : Esp.Spoken P)

include hP

theorem ask {cmd : List UInt8} (needle : List UInt8) (ms : ℕ) (hcmd : IsCommand cmd)
    (hneedle : needle.headD 62 ≠ 62) {e : Esp α} (h : P e) : P (ask cmd needle ms e).2 :=
  hP.atWaitFor needle ms hneedle (hP.line _ _ hcmd (hP.cleared e h))

theorem connectWifi {ssid pwd : List UInt8} (hssid : OneLine ssid) (hpwd : OneLine pwd)
    {e : Esp α} (h : P e) : P (connectWifi ssid pwd e).2 := by
  have hcmd : IsCommand
      (snprintf 128 (ascii "AT+CWJAP=\"" ++ ssid ++ ascii "\",\"" ++ pwd ++ ascii "\"")) := by
    have hrest : OneLine (ascii "+CWJAP=\"" ++ ssid ++ ascii "\",\"" ++ pwd ++ ascii "\"") :=
      ((((by decide : OneLine (ascii "+CWJAP=\"")).append hssid).append (by decide)).append
        hpwd).append (by decide)
    exact isCommand_snprintf (by decide) hrest
  have h₀ := hP.line _ _ hcmd (hP.cleared e h)
  have h₁ := hP.atWaitFor (ascii "+CWJAP:") 30000 (by decide) h₀
  have h₂ := hP.atWaitFor (ascii "WIFI GOT IP") 8000 (by decide) h₁
  have h₃ := hP.atWaitFor (ascii "OK") 2000 (by decide) h₂
  simp only [GrainWarehouse.connectWifi]
  split_ifs
  all_goals dsimp only
  · exact hP.wifi _ _ h₁
  · exact hP.wifi _ _ h₃
  · exact hP.wifi _ _ h₂

theorem disconnectWifi {e : Esp α} (h : P e) : P (disconnectWifi e).2 := by
  have h₁ := hP.atWaitFor (ascii "OK") 3000 (by decide)
    (hP.line (ascii "AT+CWQAP") e (by decide) h)
  simp only [GrainWarehouse.disconnectWifi]
  split_ifs
  · exact hP.wifi _ _ h₁
  · exact h₁

theorem tcpConnect {host : List UInt8} (hhost : OneLine host) (port : UInt16) {e : Esp α}
    (h : P e) : P (tcpConnect host port e).2 := by
  have hcmd : IsCommand (snprintf 128
      (ascii "AT+CIPSTART=\"TCP\",\"" ++ host ++ ascii "\"," ++ decimal port.toNat)) := by
    have hrest : OneLine
        (ascii "+CIPSTART=\"TCP\",\"" ++ host ++ ascii "\"," ++ decimal port.toNat) :=
      (((by decide : OneLine (ascii "+CIPSTART=\"TCP\",\"")).append hhost).append
        (by decide)).append (oneLine_decimal _)
    exact isCommand_snprintf (by decide) hrest
  simp only [GrainWarehouse.tcpConnect]
  split_ifs
  · refine loop_invariant (P := fun r : Option ℤ × Esp α => P r.2) (fun r r' hr hPr => ?_) _ _
      (hP.line _ _ hcmd (hP.cleared e h))
    obtain ⟨_ | res, e⟩ := r
    · have h₁ := hP.atWaitFor (ascii "0,CONNECTED") 200 (by decide) hPr
      have h₂ := hP.atWaitFor (ascii "CONNECT") 200 (by decide) h₁
      have h₃ := hP.atWaitFor (ascii "OK") 100 (by decide) h₂
      have h₄ := hP.atWaitFor (ascii "ERROR") 100 (by decide) h₃
      have h₅ := hP.atWaitFor (ascii "0,CLOSED") 100 (by decide) h₄
      simp only [connectBody] at hr
      split_ifs at hr
      all_goals cases hr
      · exact hP.link _ _ h₁
      · exact hP.link _ _ h₂
      · exact h₃
      · exact h₄
      · exact h₅
      · exact h₅
    · cases hr
  · exact h

theorem tcpClose (linkId : ℤ) {e : Esp α} (h : P e) : P (tcpClose linkId e).2 := by
  have h₁ := hP.atWaitFor (ascii "OK") 3000 (by decide)
    (hP.line (ascii "AT+CIPCLOSE") e (by decide) h)
  simp only [GrainWarehouse.tcpClose]
  split_ifs
  all_goals dsimp only
  · exact h
  · exact hP.link _ _ h₁
  · exact h₁

theorem queryTcpStatus (linkId : ℤ) {e : Esp α} (h : P e) : P (queryTcpStatus linkId e).2 := by
  simp only [GrainWarehouse.queryTcpStatus]
  split_ifs with hlink
  · exact h
  · have hid : linkId.toNat < 10 := by
      have h5 : espMaxLinkId = 5 := rfl
      omega
    have hcmd : IsCommand (ascii "AT+CIPSTATUS=" ++ decimal linkId.toNat) := by
      refine ⟨.trans (by decide) (List.prefix_append (ascii "AT+CIPSTATUS=") _),
        .append (by decide) (oneLine_decimal _), ?_⟩
      have hlen : (ascii "AT+CIPSTATUS=").length = 13 := by decide
      rw [List.length_append, hlen, decimal_of_lt hid, List.length_singleton]
      omega
    exact hP.atWaitFor _ 1000 (by decide) (hP.ask _ 2000 hcmd (by decide) h)

theorem netinfo {cmd : List UInt8} (hcmd : IsCommand cmd) {e : Esp α} (h : P e) :
    P (netinfo cmd e) := by
  refine loop_invariant (P := fun r : Bool × Esp α => P r.2) (fun r r' hr he => ?_) _ _
    (hP.line _ _ hcmd (hP.cleared e h))
  obtain ⟨_ | _, e'⟩ := r
  · have h₁ := hP.atWaitFor (ascii "+") 200 (by decide) he
    have h₂ := hP.atWaitFor (ascii "OK") 100 (by decide) h₁
    simp only [netinfoBody] at hr
    split_ifs at hr
    all_goals cases hr
    · exact h₁
    · exact h₂
  · cases hr

theorem printNetinfo {e : Esp α} (h : P e) : P (printNetinfo e) :=
  hP.netinfo (by decide) (hP.netinfo (by decide) h)

theorem esp8266Ping {host : List UInt8} (hhost : OneLine host) {e : Esp α} (h : P e) :
    P (esp8266Ping host e).2 := by
  have hcmd : IsCommand (snprintf 64 (ascii "AT+PING=\"" ++ host ++ ascii "\"")) := by
    have hrest : OneLine (ascii "+PING=\"" ++ host ++ ascii "\"") :=
      ((by decide : OneLine (ascii "+PING=\"")).append hhost).append (by decide)
    exact isCommand_snprintf (by decide) hrest
  refine loop_invariant (P := fun r : Option EspErr × Bool × Esp α => P r.2.2)
    (fun r r' hr he => ?_) _ _ (hP.line _ _ hcmd (hP.cleared e h))
  obtain ⟨_ | res, pong, e'⟩ := r
  · have h₁ := hP.atWaitFor (ascii "+") 200 (by decide) he
    have h₂ := hP.atWaitFor (ascii "OK") 100 (by decide) h₁
    have h₃ := hP.atWaitFor (ascii "ERROR") 50 (by decide) h₂
    simp only [pingBody] at hr
    split at hr
    · cases hr
    split at hr
    · split_ifs at hr
      all_goals obtain rfl := Option.some.inj hr
      · exact h₁
      · exact hP.atWaitFor _ 2000 (by decide) h₁
      · exact h₁
    · split_ifs at hr
      all_goals obtain rfl := Option.some.inj hr
      · exact h₂
      · exact h₂
      · exact h₃
      · exact h₃
  · cases hr

theorem atTries : ∀ (n : ℕ) {e : Esp α}, P e → P (atTries n e).2
  | 0, _, h => h
  | n + 1, e, h => by
      have hask : P (GrainWarehouse.ask (ascii "AT") (ascii "OK") 1000 e).2 :=
        hP.ask _ 1000 (by decide) (by decide) h
      rw [GrainWarehouse.atTries]
      split
      · exact hask
      · exact atTries n hask

theorem esp8266Init (uart4 : EspErr) {e : Esp α} (h : P e) : P (esp8266Init uart4 e).2 := by
  have step {cmd : List UInt8} (needle : List UInt8) (ms : ℕ) {e : Esp α} (hcmd : IsCommand cmd)
      (hneedle : needle.headD 62 ≠ 62) (h : P e) : P (GrainWarehouse.ask cmd needle ms e).2 :=
    hP.ask needle ms hcmd hneedle h
  have h₁ := step (ascii "OK") 1500 (by decide : IsCommand (ascii "ATE0")) (by decide) h
  have h₂ := step (ascii "OK") 1500 (by decide : IsCommand (ascii "AT+CWMODE=1")) (by decide) h₁
  have h₃ := hP.atTries 5 h₂
  have h₄ := step (ascii "OK") 2000 (by decide : IsCommand (ascii "AT+CIPMUX=0")) (by decide) h₃
  have h₅ := step (ascii "OK") 1000 (by decide : IsCommand (ascii "AT+CIPMODE=0")) (by decide) h₄
  have h₆ := step (ascii "+CWJAP:") 3000 (by decide : IsCommand (ascii "AT+CWJAP?")) (by decide) h₅
  simp only [GrainWarehouse.esp8266Init]
  split_ifs
  all_goals dsimp only
  · exact h
  · exact h₁
  · exact h₂
  · exact h₄
  · exact hP.printNetinfo (hP.lower _ (hP.wifi _ _ h₆))
  · exact h₃

end Esp.Spoken

end GrainWarehouse
