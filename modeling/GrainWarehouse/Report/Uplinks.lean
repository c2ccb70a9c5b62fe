import GrainWarehouse.Machinery.Numeral
import GrainWarehouse.Machinery.Runs
import GrainWarehouse.Machinery.Fifo
import GrainWarehouse.Report.Averages

/-!
# Report/Uplinks — one queue of averages, and two tasks that read it

`data_process_task` puts each average on `ReportQueue` once; `lora_task` and `mqtt_task` both take
averages from it and send what they took.  **What was put on the queue is shared between the
uplinks** (`shared_run`), so that each of them gets all of it only when there is nothing to get
(`bothUplinks_iff`).
-/

namespace GrainWarehouse

/-! ## What the uplinks send -/

/-- `put_be16`. -/
def putBe16 (v : UInt16) : List UInt8 := [(v >>> 8).toUInt8, v.toUInt8]

/-- The LoRa REPORT frame. -/
def loraReport (seq : UInt8) (avg : EnvAvg) : List UInt8 :=
  [0xAA, 0x20, seq] ++ putBe16 avg.tempAvgX10 ++ putBe16 avg.humiAvgX10 ++ [avg.rainFlag] ++
    putBe16 avg.co2Avg ++ putBe16 avg.coAvg ++ [avg.errBits]

/-- The JSON text of `mqtt_task`. -/
def reportJson (avg : EnvAvg) : List UInt8 :=
  let tenths (v : UInt16) := decimal (v.toNat / 10) ++ ascii "." ++ decimal (v.toNat % 10)
  ascii "\x7b\"t\":" ++ tenths avg.tempAvgX10 ++ ascii ",\"h\":" ++ tenths avg.humiAvgX10 ++
    ascii ",\"rain\":" ++ decimal avg.rainFlag.toNat ++ ascii ",\"co2\":" ++
    decimal avg.co2Avg.toNat ++ ascii ",\"co\":" ++ decimal avg.coAvg.toNat ++
    ascii ",\"err\":" ++ decimal avg.errBits.toNat ++ ascii "\x7d"

/-- **The buffer of 192 bytes always holds the text.** -/
theorem length_reportJson_lt (avg : EnvAvg) : (reportJson avg).length < 192 := by
  have h16 (v : UInt16) : (decimal v.toNat).length ≤ 5 :=
    length_decimal_le (by decide) (v.toNat_lt.trans (by decide))
  have h8 (v : UInt8) : (decimal v.toNat).length ≤ 3 :=
    length_decimal_le (by decide) (v.toNat_lt.trans (by decide))
  have hten (v : UInt16) : (decimal (v.toNat / 10)).length ≤ 5 :=
    length_decimal_le (by decide) ((Nat.div_le_self _ _).trans_lt (v.toNat_lt.trans (by decide)))
  have hone (v : UInt16) : (decimal (v.toNat % 10)).length ≤ 1 :=
    length_decimal_le (by decide) (Nat.mod_lt _ (by decide))
  have hlit : (ascii "\x7b\"t\":").length = 5 ∧ (ascii ",\"h\":").length = 5 ∧
      (ascii ",\"rain\":").length = 8 ∧ (ascii ",\"co2\":").length = 7 ∧
      (ascii ",\"co\":").length = 6 ∧ (ascii ",\"err\":").length = 7 ∧
      (ascii "\x7d").length = 1 ∧ (ascii ".").length = 1 := by decide
  have := hten avg.tempAvgX10
  have := hone avg.tempAvgX10
  have := hten avg.humiAvgX10
  have := hone avg.humiAvgX10
  have := h8 avg.rainFlag
  have := h16 avg.co2Avg
  have := h16 avg.coAvg
  have := h8 avg.errBits
  simp only [reportJson, List.length_append]
  omega

/-! ## The tasks -/

/-- The shared state, the places of the tasks, and the record of what went out. -/
structure Uplinks where
  proc : DataProcess
  /-- The average that `data_process_task` is sending. -/
  sending : Option EnvAvg
  /-- `ReportQueue`. -/
  queue : Fifo EnvAvg 2
  /-- `LV_RXDataQueue`. -/
  lvRx : Option EnvAvg
  /-- The average that `lora_task` has received and not sent yet. -/
  loraHeld : Option EnvAvg
  /-- The average that `mqtt_task` has received and not published yet. -/
  mqttHeld : Option EnvAvg
  /-- `g_report_seq`. -/
  reportSeq : UInt8
  /-- The averages put on `ReportQueue`. -/
  enqueued : List EnvAvg
  /-- The averages sent by LoRa, with their frames. -/
  loraTx : List (EnvAvg × List UInt8)
  /-- The averages published, with their texts. -/
  mqttTx : List (EnvAvg × List UInt8)

/-- The state when the tasks start. -/
def Uplinks.boot : Uplinks where
  proc := .start 0 0
  sending := none
  queue := .empty
  lvRx := none
  loraHeld := none
  mqttHeld := none
  reportSeq := 0
  enqueued := []
  loraTx := []
  mqttTx := []

/-- A step of a task. -/
inductive UplinkAct
  /-- `data_process_task` has waited for a sample. -/
  | process (got : Option EnvSample) (now : UInt32)
  /-- …sends the average it has, when there is room. -/
  | post
  /-- …gives up after 100 ms without room. -/
  | giveUp
  /-- The GUI takes the average it is shown. -/
  | pump
  /-- `lora_task` takes an average from the queue. -/
  | loraReceive
  /-- …and sends it. -/
  | loraSend
  /-- `mqtt_task` takes an average from the queue. -/
  | mqttReceive
  /-- …and publishes it. -/
  | mqttPublish

namespace Uplinks

/-- **A step**: nothing, if its task is elsewhere. -/
def next (s : Uplinks) : UplinkAct → Uplinks
  | .process got now =>
    if s.sending.isSome then s
    else { s with sending := (s.proc.round got now).1, proc := (s.proc.round got now).2 }
  | .post =>
    match s.sending with
    | none => s
    | some avg =>
      match s.queue.send avg with
      | none => s
      | some q =>
        { s with queue := q, sending := none, lvRx := some avg, enqueued := s.enqueued ++ [avg] }
  | .giveUp =>
    match s.sending with
    | none => s
    | some avg => if s.queue.Room then s else { s with sending := none, lvRx := some avg }
  | .pump => { s with lvRx := none }
  | .loraReceive =>
    match s.loraHeld, s.queue.receive with
    | none, some (avg, q) => { s with queue := q, loraHeld := some avg }
    | _, _ => s
  | .loraSend =>
    match s.loraHeld with
    | none => s
    | some avg =>
      { s with
        loraHeld := none
        reportSeq := s.reportSeq + 1
        loraTx := s.loraTx ++ [(avg, loraReport s.reportSeq avg)] }
  | .mqttReceive =>
    match s.mqttHeld, s.queue.receive with
    | none, some (avg, q) => { s with queue := q, mqttHeld := some avg }
    | _, _ => s
  | .mqttPublish =>
    match s.mqttHeld with
    | none => s
    | some avg => { s with mqttHeld := none, mqttTx := s.mqttTx ++ [(avg, reportJson avg)] }

/-- A run of the tasks. -/
def run (as : List UplinkAct) : Uplinks := runFrom next boot as

/-- What LoRa has sent. -/
def loraSent (s : Uplinks) : List EnvAvg := s.loraTx.map Prod.fst

/-- What has been published. -/
def mqttSent (s : Uplinks) : List EnvAvg := s.mqttTx.map Prod.fst

/-- No average is on its way. -/
structure Idle (s : Uplinks) : Prop where
  queue : s.queue.items = []
  lora : s.loraHeld = none
  mqtt : s.mqttHeld = none

/-! ## Each average goes one way -/

/-- **What was taken from the queue is shared between the uplinks**, and the rest is still there. -/
def Shared (s : Uplinks) : Prop :=
  ∃ taken, s.enqueued = taken ++ s.queue.items ∧
    Shuffle (s.loraSent ++ s.loraHeld.toList) (s.mqttSent ++ s.mqttHeld.toList) taken

/-- **Every step shares.** -/
theorem Shared.next {s : Uplinks} (a : UplinkAct) (h : s.Shared) : (s.next a).Shared := by
  obtain ⟨taken, henq, hshuffle⟩ := h
  cases a with
  | process got now =>
    simp only [Uplinks.next]
    split_ifs
    all_goals exact ⟨taken, henq, hshuffle⟩
  | post =>
    simp only [Uplinks.next]
    split
    · exact ⟨taken, henq, hshuffle⟩
    · next avg _ =>
      split
      · exact ⟨taken, henq, hshuffle⟩
      · next q hq =>
        refine ⟨taken, ?_, hshuffle⟩
        change s.enqueued ++ [avg] = taken ++ q.items
        rw [henq, Fifo.items_send hq, List.append_assoc]
  | giveUp =>
    simp only [Uplinks.next]
    split
    · exact ⟨taken, henq, hshuffle⟩
    · split_ifs
      all_goals exact ⟨taken, henq, hshuffle⟩
  | pump => exact ⟨taken, henq, hshuffle⟩
  | loraReceive =>
    simp only [Uplinks.next]
    split
    · next avg q hheld hq =>
      refine ⟨taken ++ [avg], ?_, ?_⟩
      · rw [henq, Fifo.items_receive hq, List.append_assoc, List.singleton_append]
      · rw [hheld, Option.toList_none, List.append_nil] at hshuffle
        exact hshuffle.left avg
    · exact ⟨taken, henq, hshuffle⟩
  | loraSend =>
    simp only [Uplinks.next]
    split
    · exact ⟨taken, henq, hshuffle⟩
    · next avg hheld =>
      refine ⟨taken, henq, ?_⟩
      rw [hheld, Option.toList_some] at hshuffle
      simpa [loraSent, mqttSent] using hshuffle
  | mqttReceive =>
    simp only [Uplinks.next]
    split
    · next avg q hheld hq =>
      refine ⟨taken ++ [avg], ?_, ?_⟩
      · rw [henq, Fifo.items_receive hq, List.append_assoc, List.singleton_append]
      · rw [hheld, Option.toList_none, List.append_nil] at hshuffle
        exact hshuffle.right avg
    · exact ⟨taken, henq, hshuffle⟩
  | mqttPublish =>
    simp only [Uplinks.next]
    split
    · exact ⟨taken, henq, hshuffle⟩
    · next avg hheld =>
      refine ⟨taken, henq, ?_⟩
      rw [hheld, Option.toList_some] at hshuffle
      simpa [loraSent, mqttSent] using hshuffle

/-- **In every run, each average goes to one uplink, and keeps its place there.** -/
theorem shared_run (as : List UplinkAct) : (run as).Shared :=
  runFrom_invariant (fun _ a hs => hs.next a) as ⟨[], rfl, .nil⟩

/-- …and is sent there in the order of the queue. -/
theorem sublist_run (as : List UplinkAct) : (run as).loraSent.Sublist (run as).enqueued ∧
    (run as).mqttSent.Sublist (run as).enqueued := by
  obtain ⟨taken, henq, hshuffle⟩ := shared_run as
  have htaken : taken.Sublist (run as).enqueued := henq ▸ List.sublist_append_left _ _
  exact ⟨((List.sublist_append_left _ _).trans hshuffle.sublists.1).trans htaken,
    ((List.sublist_append_left _ _).trans hshuffle.sublists.2).trans htaken⟩

/-- With no average on its way, the uplinks have all of them between them. -/
theorem Shared.shuffle {s : Uplinks} (h : s.Shared) (hidle : s.Idle) :
    Shuffle s.loraSent s.mqttSent s.enqueued := by
  obtain ⟨taken, henq, hshuffle⟩ := h
  rw [hidle.queue, List.append_nil] at henq
  rw [hidle.lora, hidle.mqtt, Option.toList_none, List.append_nil, List.append_nil] at hshuffle
  exact henq ▸ hshuffle

/-- **Both uplinks have sent all the averages exactly when there are none**, in every run that ends
with none on its way. -/
theorem bothUplinks_iff (as : List UplinkAct) (h : (run as).Idle) :
    (run as).loraSent = (run as).enqueued ∧ (run as).mqttSent = (run as).enqueued ↔
      (run as).enqueued = [] :=
  ((shared_run as).shuffle h).eq_nil_iff

/-- A minute with one sample, and LoRa looks first. -/
def oneMinute : List UplinkAct :=
  [.process (some ⟨0, 20, 50, 1, 400, 50⟩) 60000, .post, .loraReceive, .loraSend, .mqttReceive]

theorem bothUplinks_iff_oneMinute :
    (run oneMinute).loraSent = (run oneMinute).enqueued ∧
      (run oneMinute).mqttSent = (run oneMinute).enqueued ↔ (run oneMinute).enqueued = [] :=
  bothUplinks_iff oneMinute ⟨by decide +kernel, by decide +kernel, by decide +kernel⟩

/-- The average never reaches the broker. -/
theorem oneMinute_unpublished : (run oneMinute).Idle ∧
    ¬ ((run oneMinute).loraSent = (run oneMinute).enqueued ∧
      (run oneMinute).mqttSent = (run oneMinute).enqueued) := by
  refine ⟨⟨by decide +kernel, by decide +kernel, by decide +kernel⟩, fun h => ?_⟩
  have hmqtt : (run oneMinute).mqttSent ≠ (run oneMinute).enqueued := by decide +kernel
  exact hmqtt h.2

end Uplinks

end GrainWarehouse
