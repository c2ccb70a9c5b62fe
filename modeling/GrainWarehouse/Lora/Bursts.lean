import Mathlib.Algebra.BigOperators.Group.List.Basic
import GrainWarehouse.Lora.Uart

/-!
# Lora/Bursts — what a stream of bursts makes the LoRa task send

A burst of less than four bytes is marked as finished like any other, but `lora_task` restarts the
receiver for a frame of four bytes or more only: the bytes stay, and the next burst is appended to
them.  **All streams with bursts of given lengths are answered as they should exactly when each
burst has at least four bytes, up to some at the end that have less than four together**
(`bursts_answered_iff`).
-/

namespace GrainWarehouse.Lora

/-! ## Bursts -/

/-- **A burst**: its bytes with what happens before the next one, the last byte, the time until
the frame timer has expired, or should have, and the time until the next burst. -/
structure Burst where
  body : List (UInt8 × List Pause)
  final : UInt8
  wait : List Pause
  rest : List Pause
  unbroken : ∀ x ∈ body, ticks x.2 < timPeriod
  waited : ticks wait = timPeriod
  bounded : body.length < uartRxBufSize - 1

/-- The bytes of a burst. -/
def Burst.bytes (B : Burst) : List UInt8 := B.body.map Prod.fst ++ [B.final]

theorem Burst.bytes_ne_nil (B : Burst) : B.bytes ≠ [] :=
  List.append_ne_nil_of_right_ne_nil _ (List.cons_ne_nil _ _)

theorem Burst.length_bytes (B : Burst) : B.bytes.length = B.body.length + 1 := by
  rw [bytes, List.length_append, List.length_map, List.length_singleton]

namespace LoraRx

/-- A byte and what happens before the next one. -/
def hear (s : LoraRx) (x : UInt8 × List Pause) : LoraRx := runFrom pass (s.byte x.1) x.2

/-- All bytes of a burst have been received. -/
def listen (s : LoraRx) (B : Burst) : LoraRx := (runFrom hear s B.body).byte B.final

/-- …and the frame timer has expired, or should have. -/
def expired (s : LoraRx) (B : Burst) : LoraRx := runFrom pass (s.listen B) B.wait

/-- …and the next burst begins. -/
def burst (s : LoraRx) (B : Burst) : LoraRx := runFrom pass (s.expired B) B.rest

end LoraRx

/-- A poll begins and ends within `ps`. -/
def WholePoll (s : LoraRx) (ps : List Pause) : Prop :=
  ∃ a b c, ps = a ++ (b ++ c) ∧ .task ∈ b ∧ (runFrom LoraRx.pass s a).stage = .poll ∧
    (runFrom LoraRx.pass (runFrom LoraRx.pass s a) b).stage = .poll

/-- After the frame timer has expired, and before the next burst begins, `lora_task` polls. -/
def Polled (s : LoraRx) (B : Burst) : Prop := WholePoll (s.expired B) B.rest

/-! ## What a burst should bring -/

/-- **A valid command frame**, and the message that it asks for. -/
inductive IsCommand : List UInt8 → ApplayMsg → Prop
  | fan (value : UInt8) (h : value ≤ 3) :
    IsCommand [0xAA, 0x01, value, 0xAA + 0x01 + value] ⟨.fan, value.toNat, .lora⟩
  | heat (value : UInt8) :
    IsCommand [0xAA, 0x02, value, 0xAA + 0x02 + value]
      ⟨.heat, if value = 0 then applayValOff else applayValOn, .lora⟩
  | humid (value : UInt8) :
    IsCommand [0xAA, 0x03, value, 0xAA + 0x03 + value]
      ⟨.humid, if value = 0 then applayValOff else applayValOn, .lora⟩

/-- A wrong head, or a wrong checksum. -/
def Foreign (bytes : List UInt8) : Prop :=
  ∃ b₀ b₁ b₂ b₃, bytes.take loraFrameLen = [b₀, b₁, b₂, b₃] ∧ (b₀ ≠ 0xAA ∨ b₀ + b₁ + b₂ ≠ b₃)

/-- **What a burst should bring**: its command, if it is one; nothing, if it is too short or
foreign. -/
structure Answered (bytes : List UInt8) (sent : List ApplayMsg) : Prop where
  command : ∀ msg, IsCommand bytes msg → sent = [msg]
  rejected : bytes.length < loraFrameLen ∨ Foreign bytes → sent = []

/-- A burst is answered as it should. -/
def Answers (s : LoraRx) (B : Burst) : Prop :=
  ∃ sent, (s.burst B).sent = s.sent ++ sent ∧ Answered B.bytes sent

theorem length_of_isCommand {bytes : List UInt8} {msg : ApplayMsg} (h : IsCommand bytes msg) :
    bytes.length = loraFrameLen := by
  cases h <;> rfl

/-- **A command is read as what it asks for.** -/
theorem loraCommand_of_isCommand {bytes : List UInt8} {msg : ApplayMsg}
    (h : IsCommand bytes msg) : loraCommand bytes = some msg := by
  cases h with
  | fan value h =>
    have hvalue : value.toNat ≤ 3 := UInt8.le_iff_toNat_le.mp h
    simp [loraCommand, loraParseFrame, remoteMsg, hvalue]
  | heat value => simp [loraCommand, loraParseFrame, remoteMsg, ← UInt8.toNat_inj]
  | humid value => simp [loraCommand, loraParseFrame, remoteMsg, ← UInt8.toNat_inj]

/-- **…and foreign bytes as nothing.** -/
theorem loraCommand_of_foreign {bytes : List UInt8} (h : Foreign bytes) :
    loraCommand (bytes.take loraFrameLen) = none := by
  obtain ⟨b₀, b₁, b₂, b₃, htake, hwrong⟩ := h
  rw [htake, loraCommand, loraParseFrame]
  rcases hwrong with hhead | hsum
  · simp [hhead]
  · simp [hsum]

theorem answered_nil_of_short {bytes : List UInt8} (h : bytes.length < loraFrameLen) :
    Answered bytes [] where
  command _ hmsg := absurd (length_of_isCommand hmsg) (Nat.ne_of_lt h)
  rejected _ := rfl

/-- **The first four bytes decide.** -/
theorem answered_of_long {bytes : List UInt8} (h : loraFrameLen ≤ bytes.length) :
    Answered bytes (loraCommand (bytes.take loraFrameLen)).toList where
  command msg hmsg := by
    rw [List.take_of_length_le (Nat.le_of_eq (length_of_isCommand hmsg)),
      loraCommand_of_isCommand hmsg]
    rfl
  rejected hbad := by
    rw [loraCommand_of_foreign (hbad.resolve_left (Nat.not_lt.mpr h))]
    rfl

/-! ## A burst on its own -/

section

variable {q : List ApplayMsg} {left bytes : List UInt8} {c : ℕ} {s : LoraRx}

theorem Filling.hear_run : ∀ {body : List (UInt8 × List Pause)} {bytes : List UInt8} {c : ℕ}
    {s : LoraRx}, Filling q bytes c s → (∀ x ∈ body, ticks x.2 < timPeriod) →
    bytes.length + body.length < uartRxBufSize →
    ∃ c', Filling q (bytes ++ body.map Prod.fst) c' (runFrom LoraRx.hear s body)
  | [], bytes, c, _, h, _, _ => ⟨c, by rwa [List.map_nil, List.append_nil]⟩
  | x :: body, bytes, c, s, h, hticks, hroom => by
      rw [List.length_cons] at hroom
      have hbyte := h.byte (by omega) x.1
      have hgap : 0 + ticks x.2 < timPeriod := by
        rw [Nat.zero_add]
        exact hticks x List.mem_cons_self
      have hrest : ∀ y ∈ body, ticks y.2 < timPeriod :=
        fun y hy => hticks y (List.mem_cons_of_mem _ hy)
      obtain ⟨c', hrun⟩ := (hbyte.pass_run hgap).hear_run hrest
        (by rw [List.length_append, List.length_singleton]; omega)
      refine ⟨c', ?_⟩
      rwa [List.append_assoc, List.singleton_append] at hrun

/-- **A burst fills the receiver**, if nothing has been left behind. -/
theorem Waiting.listen (h : Waiting q [] s) (B : Burst) : Filling q B.bytes 0 (s.listen B) := by
  have hbounded := B.bounded
  have hunbroken := B.unbroken
  rw [LoraRx.listen, Burst.bytes]
  cases hbody : B.body with
  | nil => exact h.byte_of_nil B.final
  | cons x body =>
    rw [hbody] at hbounded hunbroken
    rw [List.length_cons] at hbounded
    have hgap : 0 + ticks x.2 < timPeriod := by
      rw [Nat.zero_add]
      exact hunbroken x List.mem_cons_self
    have hrest : ∀ y ∈ body, ticks y.2 < timPeriod :=
      fun y hy => hunbroken y (List.mem_cons_of_mem _ hy)
    obtain ⟨c, hrun⟩ := ((h.byte_of_nil x.1).pass_run hgap).hear_run hrest
      (by rw [List.length_singleton]; omega)
    refine hrun.byte ?_ B.final
    rw [List.length_append, List.length_singleton, List.length_map]
    omega

/-- **The frame timer expires in time.** -/
theorem Filling.wait : ∀ {ps : List Pause} {c : ℕ} {s : LoraRx}, Filling q bytes c s →
    c < timPeriod → timPeriod ≤ c + ticks ps →
    ∃ a b, ps = a ++ b ∧ Complete q bytes (runFrom LoraRx.pass s a)
  | [], c, _, _, hc, hps => absurd hps (Nat.not_le.mpr hc)
  | .task :: ps, c, s, h, hc, hps => by
      have hcount : ticks (.task :: ps) = ticks ps := List.count_cons_of_ne (by decide)
      rw [hcount] at hps
      obtain ⟨a, b, rfl, hdone⟩ := h.wait hc hps
      refine ⟨.task :: a, b, rfl, ?_⟩
      rwa [runFrom_cons, LoraRx.pass, h.task_eq]
  | .tick :: ps, c, s, h, hc, hps => by
      have hcount : ticks (.tick :: ps) = ticks ps + 1 := List.count_cons_self
      rw [hcount] at hps
      by_cases hnext : c + 1 < timPeriod
      · have hps' : timPeriod ≤ c + 1 + ticks ps := by omega
        obtain ⟨a, b, rfl, hdone⟩ := (h.tick hnext).wait hnext hps'
        exact ⟨.tick :: a, b, rfl, hdone⟩
      · exact ⟨[.tick], ps, rfl, h.expire hnext⟩

/-- The frame timer has marked the burst as finished, before what has happened then. -/
theorem Waiting.complete (h : Waiting q [] s) (B : Burst) :
    ∃ t b, Complete q B.bytes t ∧ s.expired B = runFrom LoraRx.pass t b := by
  have hwaited : timPeriod ≤ 0 + ticks B.wait := by rw [B.waited, Nat.zero_add]
  obtain ⟨a, b, hsplit, hdone⟩ := (h.listen B).wait (by decide) hwaited
  exact ⟨_, b, hdone, by rw [LoraRx.expired, hsplit, runFrom_append]⟩

/-- **A short burst is left behind.** -/
theorem Waiting.burst_of_short (h : Waiting q [] s) {B : Burst}
    (hshort : B.bytes.length < loraFrameLen) : Waiting q B.bytes (s.burst B) := by
  obtain ⟨t, b, hdone, hexp⟩ := h.complete B
  have hwait := hdone.waiting B.bytes_ne_nil hshort
  rw [LoraRx.burst, hexp, hwait.pass_run, hwait.pass_run]
  exact hwait

/-- A finished frame, noticed or not. -/
def Due (q : List ApplayMsg) (bytes : List UInt8) (s : LoraRx) : Prop :=
  Complete q bytes s ∨ Serving q (bytes.take loraFrameLen) s

theorem Due.pass (hlong : loraFrameLen ≤ bytes.length) (h : Due q bytes s) (p : Pause) :
    Due q bytes (s.pass p) := by
  rcases h with h | h
  · cases p with
    | tick => exact .inl (by rwa [h.tick_eq])
    | task => exact .inr (h.task hlong)
  · exact .inr (h.pass p)

/-- A step of the task notices it. -/
theorem Due.serving (hlong : loraFrameLen ≤ bytes.length) : ∀ {ps : List Pause} {s : LoraRx},
    Due q bytes s → .task ∈ ps → Serving q (bytes.take loraFrameLen) (runFrom LoraRx.pass s ps)
  | p :: ps, s, h, hmem => by
      rw [runFrom_cons]
      rcases h with h | h
      · cases p with
        | tick =>
          rw [h.tick_eq]
          exact Due.serving hlong (.inl h) ((List.mem_cons.mp hmem).resolve_left (by decide))
        | task => exact runFrom_invariant (fun _ p h => h.pass p) ps (h.task hlong)
      · exact runFrom_invariant (fun _ p h => h.pass p) ps (h.pass p)

/-- **Whoever polls to the end has served the frame.** -/
theorem Due.served (hlong : loraFrameLen ≤ bytes.length) {ps : List Pause} (h : Due q bytes s)
    (hmem : .task ∈ ps) (hstage : (runFrom LoraRx.pass s ps).stage = .poll) :
    Waiting (q ++ (loraCommand (bytes.take loraFrameLen)).toList) [] (runFrom LoraRx.pass s ps) :=
  (h.serving hlong hmem).waiting hstage

/-- **A long burst is served**, and nothing is left behind. -/
theorem Waiting.burst_of_long (h : Waiting q [] s) {B : Burst} (hpoll : Polled s B)
    (hlong : loraFrameLen ≤ B.bytes.length) :
    Waiting (q ++ (loraCommand (B.bytes.take loraFrameLen)).toList) [] (s.burst B) := by
  obtain ⟨t, b, hdone, hexp⟩ := h.complete B
  obtain ⟨u, v, w, hrest, hmem, -, hend⟩ := hpoll
  have hdue : Due q B.bytes (runFrom LoraRx.pass (s.expired B) u) := by
    rw [hexp, ← runFrom_append]
    exact runFrom_invariant (fun _ p h => h.pass hlong p) _ (.inl hdone)
  have hserved := hdue.served hlong hmem hend
  rw [LoraRx.burst, hrest, runFrom_append, runFrom_append, hserved.pass_run]
  exact hserved

/-! ## A burst after bytes that have been left behind -/

theorem Waiting.hear (h : Waiting q left s) (hne : left ≠ []) (x : UInt8 × List Pause)
    (hshort : left.length + 1 < loraFrameLen) : Waiting q (left ++ [x.1]) (s.hear x) := by
  have hbyte := (h.byte hne x.1).waiting (List.append_ne_nil_of_left_ne_nil hne _)
    (by rwa [List.length_append, List.length_singleton])
  rw [LoraRx.hear, hbyte.pass_run]
  exact hbyte

theorem Waiting.hear_run : ∀ {body : List (UInt8 × List Pause)} {left : List UInt8} {s : LoraRx},
    Waiting q left s → left ≠ [] → left.length + body.length < loraFrameLen →
    Waiting q (left ++ body.map Prod.fst) (runFrom LoraRx.hear s body)
  | [], left, _, h, _, _ => by rwa [List.map_nil, List.append_nil]
  | x :: body, left, s, h, hne, hshort => by
      rw [List.length_cons] at hshort
      have hroom : (left ++ [x.1]).length + body.length < loraFrameLen := by
        rw [List.length_append, List.length_singleton]
        omega
      have hnext := (h.hear hne x (by omega)).hear_run
        (List.append_ne_nil_of_left_ne_nil hne _) hroom
      rwa [List.append_assoc, List.singleton_append] at hnext

/-- **It joins them**, as long as they are less than a frame together. -/
theorem Waiting.burst_of_fits (h : Waiting q left s) {B : Burst}
    (hshort : left.length + B.bytes.length < loraFrameLen) :
    Waiting q (left ++ B.bytes) (s.burst B) := by
  by_cases hne : left = []
  · subst hne
    exact h.burst_of_short ((Nat.zero_add _).symm.trans_lt hshort)
  have hbody : left.length + B.body.length < loraFrameLen := by
    rw [B.length_bytes] at hshort
    omega
  have hcomplete := (h.hear_run hne hbody).byte (List.append_ne_nil_of_left_ne_nil hne _) B.final
  rw [List.append_assoc] at hcomplete
  have hlisten : Waiting q (left ++ B.bytes) (s.listen B) :=
    hcomplete.waiting (List.append_ne_nil_of_left_ne_nil hne _) (by rwa [List.length_append])
  rw [LoraRx.burst, LoraRx.expired, hlisten.pass_run, hlisten.pass_run]
  exact hlisten

end

/-! ## Streams -/

/-- **No burst is read together with bytes of an earlier one**, when `left` bytes have been left
behind. -/
def Apart : ℕ → List ℕ → Prop
  | _, [] => True
  | left, n :: lens =>
    if left + n < loraFrameLen then Apart (left + n) lens else left = 0 ∧ Apart 0 lens

/-- **Bursts that are read apart are answered as they should.** -/
theorem Waiting.answers : ∀ {bursts : List Burst} {q : List ApplayMsg} {left : List UInt8}
    {s : LoraRx}, Waiting q left s → EachStep LoraRx.burst Polled s bursts →
    Apart left.length (bursts.map fun B => B.bytes.length) →
    EachStep LoraRx.burst Answers s bursts
  | [], _, _, _, _, _, _ => trivial
  | B :: bursts, q, left, s, h, ⟨hpoll, hrest⟩, hapart => by
      rw [List.map_cons, Apart] at hapart
      by_cases hshort : left.length + B.bytes.length < loraFrameLen
      · rw [if_pos hshort] at hapart
        have hnext := h.burst_of_fits hshort
        refine ⟨⟨[], ?_, answered_nil_of_short (by omega)⟩, hnext.answers hrest ?_⟩
        · rw [List.append_nil, hnext.sent, h.sent]
        · rwa [List.length_append]
      · rw [if_neg hshort] at hapart
        obtain ⟨hleft, hapart⟩ := hapart
        have hnil := List.length_eq_zero_iff.mp hleft
        subst hnil
        have hlong : loraFrameLen ≤ B.bytes.length := by
          rw [List.length_nil] at hshort
          omega
        have hnext := h.burst_of_long hpoll hlong
        refine ⟨⟨_, ?_, answered_of_long hlong⟩, hnext.answers hrest hapart⟩
        rw [hnext.sent, h.sent]

/-! ## Streams that go wrong -/

/-- `lora_task` polls without being interrupted. -/
def wholePoll : List Pause := List.replicate 6 .task

namespace LoraRx

variable {s : LoraRx}

/-- **A poll comes to its end.** -/
theorem stage_wholePoll (h : s.stage = .poll) : (runFrom pass s wholePoll).stage = .poll := by
  by_cases hlen : loraFrameLen ≤ s.uart.rxGetFrameLen
  · have hfirst : s.pass .task = { s with stage := .get } := by
      rw [pass, task, h]
      exact if_pos hlen
    rw [wholePoll, List.replicate_succ, runFrom_cons, hfirst]
    rfl
  · have hidle : s.pass .task = s := by
      rw [pass, task, h]
      exact if_neg hlen
    have hrun : ∀ n : ℕ, runFrom pass s (List.replicate n .task) = s := by
      intro n
      induction n with
      | zero => rfl
      | succ n ih => rw [List.replicate_succ, runFrom_cons, hidle, ih]
    rw [wholePoll, hrun, h]

/-- Time does not change where the task stands. -/
theorem stage_ticks : ∀ (n : ℕ) {s : LoraRx}, s.stage = .poll →
    (runFrom pass s (List.replicate n .tick)).stage = .poll
  | 0, _, h => h
  | n + 1, _, h => by
      rw [List.replicate_succ, runFrom_cons]
      exact stage_ticks n h

/-- Bytes with a poll after each. -/
def heard (s : LoraRx) (bytes : List UInt8) : LoraRx :=
  runFrom hear s (bytes.map fun b => (b, wholePoll))

theorem stage_heard : ∀ (bytes : List UInt8) {s : LoraRx}, s.stage = .poll →
    (s.heard bytes).stage = .poll
  | [], _, h => h
  | b :: bytes, s, h => by
      have hbyte : (s.byte b).stage = .poll := h
      exact stage_heard bytes (stage_wholePoll hbyte)

/-- **What has been sent has been sent.** -/
theorem sent_pass {q : List ApplayMsg} (s : LoraRx) (p : Pause) (h : q <+: s.sent) :
    q <+: (s.pass p).sent := by
  cases p with
  | tick => exact h
  | task =>
    obtain ⟨u, stage, sent⟩ := s
    cases stage with
    | poll =>
      rw [pass, task]
      dsimp only
      split_ifs <;> exact h
    | get => exact h
    | copy => exact h
    | clearLen b => exact h
    | clearFinsh b => exact h
    | dispatch b => exact h.trans (List.prefix_append _ _)

theorem sent_heard {q : List ApplayMsg} (bytes : List UInt8) (h : q <+: s.sent) :
    q <+: (s.heard bytes).sent :=
  runFrom_invariant (P := fun t => q <+: LoraRx.sent t)
    (fun t x ht => runFrom_invariant (P := fun t => q <+: LoraRx.sent t) sent_pass x.2
      (show q <+: (t.byte x.1).sent from ht)) _ h

end LoraRx

/-- A burst with a poll after each byte. -/
def Burst.attentive (bytes : List UInt8) (hne : bytes ≠ []) (hlen : bytes.length < uartRxBufSize) :
    Burst where
  body := bytes.dropLast.map fun b => (b, wholePoll)
  final := bytes.getLast hne
  wait := wholePoll ++ List.replicate timPeriod .tick
  rest := wholePoll
  unbroken x hx := by
    obtain ⟨b, -, rfl⟩ := List.mem_map.mp hx
    exact Nat.zero_lt_succ _
  waited := by rw [ticks, List.count_append, List.count_replicate_self]; rfl
  bounded := by
    have hpos := List.length_pos_of_ne_nil hne
    rw [List.length_map, List.length_dropLast]
    omega

section

variable {bytes : List UInt8} {hne : bytes ≠ []} {hlen : bytes.length < uartRxBufSize}
  {s : LoraRx}

theorem Burst.bytes_attentive : (attentive bytes hne hlen).bytes = bytes := by
  have hfst : (bytes.dropLast.map fun b => (b, wholePoll)).map Prod.fst = bytes.dropLast := by
    rw [List.map_map]
    exact List.map_id _
  rw [Burst.bytes, attentive, hfst, List.dropLast_append_getLast]

theorem expired_attentive : s.expired (.attentive bytes hne hlen) =
    runFrom LoraRx.pass (s.heard bytes) (List.replicate timPeriod .tick) := by
  have hsplit : bytes.map (fun b => (b, wholePoll)) =
      bytes.dropLast.map (fun b => (b, wholePoll)) ++ [(bytes.getLast hne, wholePoll)] := by
    conv_lhs => rw [← List.dropLast_append_getLast hne, List.map_append]
    rfl
  rw [LoraRx.heard, hsplit, runFrom_append, LoraRx.expired, Burst.attentive, runFrom_append]
  rfl

/-- Such a burst meets what a stream has to meet. -/
theorem polled_attentive (h : s.stage = .poll) : Polled s (.attentive bytes hne hlen) := by
  have hstage : (s.expired (.attentive bytes hne hlen)).stage = .poll := by
    rw [expired_attentive]
    exact LoraRx.stage_ticks _ (LoraRx.stage_heard _ h)
  refine ⟨[], wholePoll, [], (List.append_nil _).symm, by decide, ?_, ?_⟩
  · rw [runFrom_nil]
    exact hstage
  · rw [runFrom_nil]
    exact LoraRx.stage_wholePoll hstage

theorem stage_attentive (h : s.stage = .poll) :
    (s.burst (.attentive bytes hne hlen)).stage = .poll := by
  rw [LoraRx.burst, expired_attentive]
  exact LoraRx.stage_wholePoll (LoraRx.stage_ticks _ (LoraRx.stage_heard _ h))

/-- The bounds of a burst's length. -/
abbrev IsBurstLength (n : ℕ) : Prop := 1 ≤ n ∧ n ≤ 127

/-- There is a burst with these bytes, after each of which `lora_task` polls. -/
theorem exists_burst (h : s.stage = .poll) (hlen : IsBurstLength bytes.length) :
    ∃ B : Burst, B.bytes = bytes ∧ Polled s B ∧ (s.burst B).stage = .poll ∧
      ∀ {q}, q <+: (s.heard bytes).sent → q <+: (s.burst B).sent := by
  have hne : bytes ≠ [] := List.ne_nil_of_length_pos hlen.1
  have hroom : bytes.length < uartRxBufSize := Nat.lt_succ_of_le hlen.2
  refine ⟨.attentive bytes hne hroom, Burst.bytes_attentive, polled_attentive h,
    stage_attentive h, fun hq => ?_⟩
  rw [LoraRx.burst, expired_attentive, ← runFrom_append]
  exact runFrom_invariant LoraRx.sent_pass _ hq

end

/-- There are streams with bursts of any lengths. -/
theorem exists_polled : ∀ {lens : List ℕ} {s : LoraRx}, s.stage = .poll →
    (∀ n ∈ lens, IsBurstLength n) →
    ∃ bursts : List Burst, (bursts.map fun B => B.bytes.length) = lens ∧
      EachStep LoraRx.burst Polled s bursts
  | [], _, _, _ => ⟨[], rfl, trivial⟩
  | n :: lens, s, h, hlens => by
      have hlen : (List.replicate n (0 : UInt8)).length = n := List.length_replicate
      obtain ⟨B, hbytes, hpoll, hstage, -⟩ :=
        exists_burst h (hlen.symm ▸ hlens n List.mem_cons_self)
      obtain ⟨bursts, hmap, hpolls⟩ := exists_polled hstage
        (fun m hm => hlens m (List.mem_cons_of_mem _ hm))
      refine ⟨B :: bursts, ?_, hpoll, hpolls⟩
      rw [List.map_cons, hbytes, hlen, hmap]

/-- A fan command, which may arrive in pieces. -/
def fanLow : List UInt8 := [0xAA, 0x01, 0x01, 0xAC]

section

variable {q : List ApplayMsg} {left : List UInt8} {s : LoraRx}

/-- **Bytes that complete a frame with what has been left behind are read as that frame.** -/
theorem Waiting.misread : ∀ {bytes left : List UInt8} {s : LoraRx}, Waiting q left s →
    left ≠ [] → left ++ bytes = fanLow → (s.heard bytes).sent = q ++ [⟨.fan, 1, .lora⟩]
  | [], left, _, h, _, hframe => by
      have hshort := h.short
      rw [List.append_nil] at hframe
      rw [hframe] at hshort
      exact absurd hshort (by decide)
  | b :: bytes, left, s, h, hne, hframe => by
      have hlen := congrArg List.length hframe
      rw [List.length_append, List.length_cons] at hlen
      have hsplit : left ++ [b] ++ bytes = fanLow := by
        rw [List.append_assoc]
        exact hframe
      cases bytes with
      | nil =>
        rw [List.append_nil] at hsplit
        have hcomplete := h.byte hne b
        rw [hsplit] at hcomplete
        have hdue : Due q fanLow (s.byte b) := .inl hcomplete
        exact (hdue.served (by decide) (by decide) (LoraRx.stage_wholePoll hcomplete.stage)).sent
      | cons b' bytes =>
        have hshort : left.length + 1 < loraFrameLen := by
          have hfour : fanLow.length = loraFrameLen := rfl
          rw [List.length_cons] at hlen
          omega
        exact (h.hear hne (b, wholePoll) hshort).misread
          (List.append_ne_nil_of_left_ne_nil hne _) hsplit

/-- The bytes that complete the frame are no frame themselves. -/
theorem foreign_drop_fanLow {k : ℕ} (hpos : k ≠ 0) (hk : k < 4) (m : ℕ) :
    Foreign (fanLow.drop k ++ List.replicate (m + k) 0) := by
  have hcases : k = 1 ∨ k = 2 ∨ k = 3 := by omega
  rcases hcases with rfl | rfl | rfl
  · exact ⟨0x01, 0x01, 0xAC, 0, by simp [fanLow, List.replicate_succ], by decide⟩
  · exact ⟨0x01, 0xAC, 0, 0, by simp [fanLow, List.replicate_succ], by decide⟩
  · exact ⟨0xAC, 0, 0, 0, by simp [fanLow, List.replicate_succ], by decide⟩

/-- **A burst that completes a frame with what has been left behind may be answered wrongly.** -/
theorem Waiting.exists_misread {n : ℕ} (h : Waiting q left s) (hne : left ≠ [])
    (hpiece : left <+: fanLow) (hn : IsBurstLength n) (hfull : loraFrameLen ≤ left.length + n) :
    ∃ B : Burst, B.bytes.length = n ∧ Polled s B ∧ (s.burst B).stage = .poll ∧
      ¬ Answers s B := by
  obtain ⟨tail, hframe⟩ := hpiece
  have hshort := h.short
  have hpos : left.length ≠ 0 := fun h0 => hne (List.length_eq_zero_iff.mp h0)
  have hfour : left.length + tail.length = loraFrameLen := by
    rw [← List.length_append, hframe]
    rfl
  have hdrop : tail = fanLow.drop left.length := by rw [← hframe, List.drop_left]
  have hlen : (tail ++ List.replicate (n - tail.length) (0 : UInt8)).length = n := by
    rw [List.length_append, List.length_replicate]
    omega
  obtain ⟨B, hbytes, hpoll, hstage, hsent⟩ := exists_burst h.stage (hlen.symm ▸ hn)
  rw [← hbytes] at hlen
  refine ⟨B, hlen, hpoll, hstage, ?_⟩
  rintro ⟨sent, hout, hanswered⟩
  have hcommand : q ++ [⟨.fan, 1, .lora⟩] <+: (s.burst B).sent := by
    refine hsent ?_
    rw [LoraRx.heard, List.map_append, runFrom_append, ← h.misread hne hframe]
    exact LoraRx.sent_heard _ (List.prefix_refl _)
  have hbad : B.bytes.length < loraFrameLen ∨ Foreign B.bytes := by
    rcases Nat.lt_or_ge n loraFrameLen with hlt | hge
    · exact .inl (hlen.trans_lt hlt)
    · obtain ⟨m, rfl⟩ := Nat.exists_eq_add_of_le' hge
      have hrep : m + loraFrameLen - tail.length = m + left.length := by omega
      rw [hbytes, hrep, hdrop]
      exact .inr (foreign_drop_fanLow hpos hshort m)
  rw [hout, hanswered.rejected hbad, List.append_nil, h.sent] at hcommand
  have hle := hcommand.length_le
  rw [List.length_append, List.length_singleton] at hle
  omega

/-- **A stream that is not read apart may be answered wrongly.** -/
theorem Waiting.exists_not_answers : ∀ {lens : List ℕ} {q : List ApplayMsg} {left : List UInt8}
    {s : LoraRx}, Waiting q left s → left <+: fanLow → (∀ n ∈ lens, IsBurstLength n) →
    ¬ Apart left.length lens →
    ∃ bursts : List Burst, (bursts.map fun B => B.bytes.length) = lens ∧
      EachStep LoraRx.burst Polled s bursts ∧ ¬ EachStep LoraRx.burst Answers s bursts
  | [], _, _, _, _, _, _, hapart => absurd trivial hapart
  | n :: lens, q, left, s, h, hpiece, hlens, hapart => by
      have hn := hlens n List.mem_cons_self
      have hrest : ∀ m ∈ lens, IsBurstLength m := fun m hm => hlens m (List.mem_cons_of_mem _ hm)
      rw [Apart] at hapart
      by_cases hfits : left.length + n < loraFrameLen
      · -- the next piece of the frame is left behind with the others
        rw [if_pos hfits] at hapart
        obtain ⟨tail, hframe⟩ := hpiece
        have hlen : (tail.take n).length = n := by
          have hfour : left.length + tail.length = loraFrameLen := by
            rw [← List.length_append, hframe]
            rfl
          rw [List.length_take]
          omega
        obtain ⟨B, hbytes, hpoll, -⟩ := exists_burst h.stage (hlen.symm ▸ hn)
        rw [← hbytes] at hlen
        have hnext : Waiting q (left ++ B.bytes) (s.burst B) := h.burst_of_fits (by rwa [hlen])
        have hpiece' : left ++ B.bytes <+: fanLow := by
          rw [← hframe, hbytes]
          exact (List.prefix_append_right_inj left).mpr (List.take_prefix _ _)
        rw [← hlen, ← List.length_append] at hapart
        obtain ⟨bursts, hmap, hpolls, hwrong⟩ := hnext.exists_not_answers hpiece' hrest hapart
        refine ⟨B :: bursts, ?_, ⟨hpoll, hpolls⟩, fun hall => hwrong hall.2⟩
        rw [List.map_cons, hmap, hlen]
      · rw [if_neg hfits] at hapart
        by_cases hne : left = []
        · -- nothing has been left behind: the burst is served
          subst hne
          have hlen : (List.replicate n (0 : UInt8)).length = n := List.length_replicate
          obtain ⟨B, hbytes, hpoll, -⟩ := exists_burst h.stage (hlen.symm ▸ hn)
          rw [← hbytes] at hlen
          have hlong : loraFrameLen ≤ B.bytes.length := by
            rw [List.length_nil] at hfits
            omega
          have hapart' : ¬ Apart 0 lens := fun hall => hapart ⟨rfl, hall⟩
          obtain ⟨bursts, hmap, hpolls, hwrong⟩ :=
            (h.burst_of_long hpoll hlong).exists_not_answers List.nil_prefix hrest hapart'
          refine ⟨B :: bursts, ?_, ⟨hpoll, hpolls⟩, fun hall => hwrong hall.2⟩
          rw [List.map_cons, hmap, hlen]
        · obtain ⟨B, hlen, hpoll, hstage, hwrong⟩ :=
            h.exists_misread hne hpiece hn (Nat.not_lt.mp hfits)
          obtain ⟨bursts, hmap, hpolls⟩ := exists_polled hstage hrest
          refine ⟨B :: bursts, ?_, ⟨hpoll, hpolls⟩, fun hall => hwrong hall.1⟩
          rw [List.map_cons, hmap, hlen]

end

/-! ## The law -/

/-- The receiver as `lora_task` begins. -/
def LoraRx.start : LoraRx where
  uart := ⟨List.replicate uartRxBufSize 0, 0, false, 0, false⟩
  stage := .poll
  sent := []

/-- After bytes have been left behind, only so many may follow. -/
theorem apart_iff_of_pos : ∀ {lens : List ℕ} {left : ℕ}, left ≠ 0 → left < loraFrameLen →
    (Apart left lens ↔ left + lens.sum < loraFrameLen)
  | [], _, _, hlt => iff_of_true trivial hlt
  | n :: lens, left, hpos, hlt => by
      rw [Apart, List.sum_cons, ← Nat.add_assoc]
      by_cases hfits : left + n < loraFrameLen
      · rw [if_pos hfits]
        exact apart_iff_of_pos (by omega) hfits
      · rw [if_neg hfits]
        exact iff_of_false (fun h => hpos h.1) (by omega)

/-- **Bursts are read apart if each has at least four bytes**, up to some at the end that have less
than four together. -/
theorem apart_iff : ∀ {lens : List ℕ}, (∀ n ∈ lens, IsBurstLength n) →
    (Apart 0 lens ↔ ∃ full last, lens = full ++ last ∧ (∀ n ∈ full, loraFrameLen ≤ n) ∧
      last.sum < loraFrameLen)
  | [], _ => iff_of_true trivial ⟨[], [], rfl, by simp, by decide⟩
  | n :: lens, hlens => by
      have hpos := (hlens n List.mem_cons_self).1
      have hrest : ∀ m ∈ lens, IsBurstLength m := fun m hm => hlens m (List.mem_cons_of_mem _ hm)
      rw [Apart, Nat.zero_add]
      by_cases hshort : n < loraFrameLen
      · rw [if_pos hshort, apart_iff_of_pos (by omega) hshort]
        constructor
        · intro hsum
          exact ⟨[], n :: lens, rfl, by simp, by rwa [List.sum_cons]⟩
        · rintro ⟨full, last, hsplit, hfull, hlast⟩
          cases full with
          | nil =>
            rw [List.nil_append] at hsplit
            rwa [← hsplit, List.sum_cons] at hlast
          | cons m full =>
            obtain ⟨rfl, -⟩ := List.cons.inj hsplit
            exact absurd (hfull n List.mem_cons_self) (Nat.not_le.mpr hshort)
      · rw [if_neg hshort, and_iff_right rfl, apart_iff hrest]
        constructor
        · rintro ⟨full, last, rfl, hfull, hlast⟩
          refine ⟨n :: full, last, rfl, fun m hm => ?_, hlast⟩
          rcases List.mem_cons.mp hm with rfl | hm
          · exact Nat.not_lt.mp hshort
          · exact hfull m hm
        · rintro ⟨full, last, hsplit, hfull, hlast⟩
          cases full with
          | nil =>
            rw [List.nil_append] at hsplit
            rw [← hsplit, List.sum_cons] at hlast
            omega
          | cons m full =>
            obtain ⟨rfl, rfl⟩ := List.cons.inj hsplit
            exact ⟨full, last, rfl, fun m hm => hfull m (List.mem_cons_of_mem _ hm), hlast⟩

/-- `lora_task` waits, no burst is under way, and nothing has been received since the last restart
of the receiver. -/
def LoraRx.Idle (s : LoraRx) : Prop := Waiting s.sent [] s

/-- **All streams with bursts of these lengths are answered as they should exactly when each burst
has at least four bytes, up to some at the end that have less than four together.** -/
theorem bursts_answered_iff (lens : List ℕ) (hlens : ∀ n ∈ lens, IsBurstLength n) :
    (∀ (s : LoraRx) (bursts : List Burst), s.Idle → (bursts.map fun B => B.bytes.length) = lens →
        EachStep LoraRx.burst Polled s bursts → EachStep LoraRx.burst Answers s bursts) ↔
      ∃ full last, lens = full ++ last ∧ (∀ n ∈ full, loraFrameLen ≤ n) ∧
        last.sum < loraFrameLen := by
  rw [← apart_iff hlens]
  constructor
  · intro hall
    by_contra hapart
    have hidle : LoraRx.start.Idle := ⟨⟨rfl, rfl, rfl, rfl, rfl⟩, rfl, rfl, by decide⟩
    obtain ⟨bursts, hmap, hpoll, hwrong⟩ :=
      hidle.exists_not_answers List.nil_prefix hlens hapart
    exact hwrong (hall _ bursts hidle hmap hpoll)
  · intro hapart s bursts hidle hmap hpoll
    exact hidle.answers hpoll (by rwa [hmap])

/-- Bursts of four, five and three bytes are answered as they should. -/
theorem bursts_answered_iff_short_last :
    (∀ n ∈ [4, 5, 3], IsBurstLength n) ∧
      ((∀ (s : LoraRx) (bursts : List Burst), s.Idle →
          (bursts.map fun B => B.bytes.length) = [4, 5, 3] →
          EachStep LoraRx.burst Polled s bursts → EachStep LoraRx.burst Answers s bursts) ↔
        ∃ full last, [4, 5, 3] = full ++ last ∧ (∀ n ∈ full, loraFrameLen ≤ n) ∧
          last.sum < loraFrameLen) :=
  ⟨by decide, bursts_answered_iff [4, 5, 3] (by decide)⟩

/-- A stray byte, and then a fan command. -/
def strayByte : List Burst :=
  [.attentive [0x00] (by decide) (by decide), .attentive fanLow (by decide) (by decide)]

/-- **After a stray byte a fan command is lost.** -/
theorem strayByte_not_answers :
    LoraRx.start.Idle ∧ EachStep LoraRx.burst Polled .start strayByte ∧
      ¬ EachStep LoraRx.burst Answers .start strayByte := by
  refine ⟨⟨⟨rfl, rfl, rfl, rfl, rfl⟩, rfl, rfl, by decide⟩,
    ⟨polled_attentive rfl, polled_attentive (stage_attentive rfl), trivial⟩, ?_⟩
  rintro ⟨-, ⟨sent, hout, hanswered⟩, -⟩
  have hcommand : IsCommand fanLow ⟨.fan, 1, .lora⟩ := .fan 1 (by decide)
  have hsent := hanswered.command _ (by rwa [Burst.bytes_attentive])
  have hnone : (runFrom LoraRx.burst .start strayByte).sent = [] := by decide +kernel
  rw [strayByte, runFrom_cons, runFrom_cons, runFrom_nil, hout, hsent] at hnone
  exact absurd hnone (List.append_ne_nil_of_right_ne_nil _ (List.cons_ne_nil _ _))

end GrainWarehouse.Lora
