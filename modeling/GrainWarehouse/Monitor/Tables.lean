import GrainWarehouse.Machinery.Numeral

/-!
# Monitor/Tables — the tables of the kernel, and what the monitor reads out of them

`vTaskList` and `vTaskGetRunTimeStats` print one line for each task, and nothing above them.  The
parsers of the monitor skip headers, one line and two: **they lose the first task, and so they never
recover all tasks** (`not_recovers`); the tasks on the first two lines of the second table get no
percentage, and the others get theirs, in whatever order the two tables are (`parseCpuPct_stats`).
-/

namespace GrainWarehouse

/-! ## The tables -/

/-- `eTaskState` of a task that exists. -/
inductive TaskState
  | running | ready | blocked | suspended | deleted

/-- The character for it. -/
def TaskState.char : TaskState → UInt8
  | running => 88
  | ready => 82
  | blocked => 66
  | suspended => 83
  | deleted => 68

/-- What the tables use of a `TaskStatus_t`. -/
structure TaskEntry where
  pcTaskName : List UInt8
  eCurrentState : TaskState
  uxCurrentPriority : ℕ
  usStackHighWaterMark : ℕ
  xTaskNumber : ℕ
  ulRunTimeCounter : ℕ

/-- `prvWriteNameToBuffer`: the name, padded with spaces to 15 characters. -/
def prvWriteNameToBuffer (name : List UInt8) : List UInt8 :=
  name ++ List.replicate (15 - name.length) 32

/-- The line of a task in `vTaskList`, without its newline. -/
def taskLine (t : TaskEntry) : List UInt8 :=
  prvWriteNameToBuffer t.pcTaskName ++ 9 :: t.eCurrentState.char :: 9 ::
    (decimal t.uxCurrentPriority ++ 9 :: (decimal t.usStackHighWaterMark ++ 9 ::
      (decimal t.xTaskNumber ++ [13])))

/-- `vTaskList`. -/
def vTaskList (ts : List TaskEntry) : List UInt8 := ts.flatMap fun t => taskLine t ++ [10]

/-- The percentage of a task, as it is printed. -/
def printedPct (totalTime : ℕ) (t : TaskEntry) : ℕ :=
  if t.ulRunTimeCounter / (totalTime / 100) > 0 then t.ulRunTimeCounter / (totalTime / 100) else 1

/-- The line of a task in `vTaskGetRunTimeStats`, without its newline. -/
def statsLine (totalTime : ℕ) (t : TaskEntry) : List UInt8 :=
  prvWriteNameToBuffer t.pcTaskName ++ 9 :: (decimal t.ulRunTimeCounter ++ 9 :: 9 ::
    if t.ulRunTimeCounter / (totalTime / 100) > 0 then
      decimal (t.ulRunTimeCounter / (totalTime / 100)) ++ [37, 13]
    else [60, 49, 37, 13])

/-- `vTaskGetRunTimeStats`: nothing is printed before the total has reached 100. -/
def vTaskGetRunTimeStats (totalTime : ℕ) (ts : List TaskEntry) : List UInt8 :=
  if totalTime / 100 > 0 then ts.flatMap fun t => statsLine totalTime t ++ [10] else []

/-! ## The parsers -/

/-- `strchr(p, '\n')`: the line at `p`, and the text behind its newline, if it has one. -/
def splitLine : List UInt8 → List UInt8 × Option (List UInt8)
  | [] => ([], none)
  | c :: cs => if c = 10 then ([], some cs) else (c :: (splitLine cs).1, (splitLine cs).2)

/-- The loop that copies a name, with room for this many characters. -/
def copyName : ℕ → List UInt8 → List UInt8
  | 0, _ => []
  | _ + 1, [] => []
  | room + 1, c :: cs => if c = 32 then [] else c :: copyName room cs

/-- A line of which something is left after its leading spaces. -/
def notBlank (line : List UInt8) : Bool := 0 < line.length ∧ line.dropWhile (· = 32) ≠ []

/-- The loop of `parse_vtable_names`, with the names so far. -/
def parseVtableNamesLoop : ℕ → List UInt8 → UInt8 → List (List UInt8) → List (List UInt8)
  | 0, _, _, names => names
  | fuel + 1, p, lineNo, names =>
    if p = [] ∨ ¬ names.length < 16 then names
    else
      let names := if lineNo ≥ 1 ∧ notBlank (splitLine p).1 then
        names ++ [copyName 15 (splitLine p).1] else names
      match (splitLine p).2 with
      | none => names
      | some p => parseVtableNamesLoop fuel p (lineNo + 1) names

/-- `parse_vtable_names`; `task_count` is the number of names. -/
def parseVtableNames (table : List UInt8) : List (List UInt8) :=
  parseVtableNamesLoop table.length table 0 []

/-- A task in `sys_status_t`. -/
structure TaskStat where
  name : List UInt8
  cpuPct : ℕ
  deriving DecidableEq

/-- The scan for the percent sign, from the end of a line: what stands before it, read backwards. -/
def scanPct : List UInt8 → Option (List UInt8)
  | [] => none
  | c :: cs => if c = 37 then some cs else scanPct cs

/-- The loop that copies digits backwards, with room for this many. -/
def copyDigits : ℕ → List UInt8 → List UInt8
  | 0, _ => []
  | _ + 1, [] => []
  | room + 1, c :: cs => if isDigit c then c :: copyDigits room cs else []

/-- Two characters are exchanged. -/
def swapChars (i j : ℕ) (l : List UInt8) : List UInt8 := (l.set i (l.getD j 0)).set j (l.getD i 0)

/-- The loop that reverses `numbuf` between `a` and `b`. -/
def reverseLoop : ℕ → ℕ → ℕ → List UInt8 → List UInt8
  | 0, _, _, l => l
  | fuel + 1, a, b, l =>
    if a < b then reverseLoop fuel (a + 1) (b - 1) (swapChars a (b - 1) l) else l

/-- The percentage in a line, if there is a percent sign; `atoi` sees digits only. -/
def linePct (line : List UInt8) : Option ℕ :=
  (scanPct line.reverse).map fun before =>
    let digits := copyDigits 7 (before.dropWhile (· = 32))
    if digits.length > 0 then number (reverseLoop digits.length 0 digits.length digits) else 0

/-- The first task of this name gets the percentage. -/
def setCpuPct (name : List UInt8) (pct : ℕ) : List TaskStat → List TaskStat
  | [] => []
  | t :: ts => if t.name = name then { t with cpuPct := pct } :: ts else t :: setCpuPct name pct ts

/-- The loop of `parse_cpu_pct`. -/
def parseCpuPctLoop : ℕ → List UInt8 → UInt8 → List TaskStat → List TaskStat
  | 0, _, _, tasks => tasks
  | fuel + 1, p, lineNo, tasks =>
    if p = [] then tasks
    else
      let tasks := if lineNo ≥ 2 ∧ notBlank (splitLine p).1 then
        (linePct (splitLine p).1).elim tasks fun pct =>
          setCpuPct (copyName 15 (splitLine p).1) pct tasks
        else tasks
      match (splitLine p).2 with
      | none => tasks
      | some p => parseCpuPctLoop fuel p (lineNo + 1) tasks

/-- `parse_cpu_pct`. -/
def parseCpuPct (table : List UInt8) (tasks : List TaskStat) : List TaskStat :=
  parseCpuPctLoop table.length table 0 tasks

/-! ## Lines and names -/

/-- A line ends at its newline. -/
theorem splitLine_append : ∀ {line : List UInt8}, 10 ∉ line → ∀ rest : List UInt8,
    splitLine (line ++ 10 :: rest) = (line, some rest)
  | [], _, _ => rfl
  | c :: cs, h, rest => by
      obtain ⟨hc, hcs⟩ := not_or.mp (mt List.mem_cons.mpr h)
      rw [List.cons_append, splitLine, if_neg (Ne.symm hc), splitLine_append hcs rest]

theorem notMem_splitLine : ∀ p : List UInt8, 10 ∉ (splitLine p).1
  | [] => List.not_mem_nil
  | c :: cs => by
      rw [splitLine]
      split_ifs with hc
      · exact List.not_mem_nil
      · rw [List.mem_cons, not_or]
        exact ⟨Ne.symm hc, notMem_splitLine cs⟩

theorem copyName_subset : ∀ (room : ℕ) (line : List UInt8), copyName room line ⊆ line
  | 0, _ => List.nil_subset _
  | _ + 1, [] => List.nil_subset _
  | room + 1, c :: cs => by
      rw [copyName]
      split_ifs
      · exact List.nil_subset _
      · exact List.cons_subset_cons c (copyName_subset room cs)

/-- **A name is copied up to the space behind it**, or until there is no more room. -/
theorem copyName_append : ∀ {name : List UInt8} {room : ℕ}, 32 ∉ name → name.length ≤ room →
    ∀ {rest : List UInt8}, (name.length = room ∨ ∃ cs, rest = 32 :: cs) →
      copyName room (name ++ rest) = name
  | [], 0, _, _, _, _ => rfl
  | [], _ + 1, _, _, _, h => by
      obtain hlen | ⟨cs, rfl⟩ := h
      · cases hlen
      · rfl
  | c :: cs, room + 1, hspace, hle, rest, h => by
      obtain ⟨hc, hcs⟩ := not_or.mp (mt List.mem_cons.mpr hspace)
      rw [List.cons_append, copyName, if_neg (Ne.symm hc),
        copyName_append hcs (Nat.le_of_succ_le_succ hle)
          (h.imp_left fun hlen => Nat.succ.inj hlen)]

/-- **The name of a padded line.** -/
theorem copyName_prvWriteNameToBuffer {name : List UInt8} (hspace : 32 ∉ name)
    (hle : name.length ≤ 15) (rest : List UInt8) :
    copyName 15 (prvWriteNameToBuffer name ++ rest) = name := by
  rw [prvWriteNameToBuffer, List.append_assoc]
  refine copyName_append hspace hle ?_
  rcases Nat.lt_or_ge name.length 15 with hlt | hge
  · obtain ⟨k, hk⟩ := Nat.exists_eq_add_of_lt hlt
    refine Or.inr ⟨List.replicate k 32 ++ rest, ?_⟩
    rw [(by omega : 15 - name.length = k + 1), List.replicate_succ, List.cons_append]
  · exact Or.inl (by omega)

/-- Something is left of a line after its spaces. -/
theorem notBlank_of_mem {line : List UInt8} {c : UInt8} (hmem : c ∈ line) (hc : c ≠ 32) :
    notBlank line = true := by
  refine decide_eq_true ⟨List.length_pos_of_mem hmem, fun hnil => ?_⟩
  exact hc (of_decide_eq_true (List.dropWhile_eq_nil_iff.mp hnil c hmem))

theorem notMem_prvWriteNameToBuffer {name : List UInt8} (h : 10 ∉ name) :
    10 ∉ prvWriteNameToBuffer name := by
  rw [prvWriteNameToBuffer, List.mem_append, not_or]
  exact ⟨h, fun hmem => absurd (List.eq_of_mem_replicate hmem) (by decide)⟩

theorem notMem_taskLine {t : TaskEntry} (h : 10 ∉ t.pcTaskName) : 10 ∉ taskLine t := by
  have hname := notMem_prvWriteNameToBuffer h
  have hdec := notMem_decimal (c := 10) (by decide)
  have hstate : 10 ≠ t.eCurrentState.char := by cases t.eCurrentState <;> decide
  simp [taskLine, hname, hdec, hstate]

theorem notMem_statsLine {t : TaskEntry} (h : 10 ∉ t.pcTaskName) (totalTime : ℕ) :
    10 ∉ statsLine totalTime t := by
  have hname := notMem_prvWriteNameToBuffer h
  have hdec := notMem_decimal (c := 10) (by decide)
  rw [statsLine]
  split_ifs <;> simp [hname, hdec]

/-- The next line. -/
theorem toNat_lineNo_succ {lineNo : UInt8} (h : lineNo.toNat + 1 < 256) :
    (lineNo + 1).toNat = lineNo.toNat + 1 := by
  rw [UInt8.toNat_add]
  exact Nat.mod_eq_of_lt h

/-! ## What the parsers recover -/

/-- A text of lines. -/
def textOf (lines : List (List UInt8)) : List UInt8 := lines.flatMap fun line => line ++ [10]

theorem textOf_cons (line : List UInt8) (lines : List (List UInt8)) :
    textOf (line :: lines) = line ++ 10 :: textOf lines := by
  rw [textOf, List.flatMap_cons, List.append_assoc]
  rfl

theorem length_le_textOf : ∀ lines : List (List UInt8), lines.length ≤ (textOf lines).length
  | [] => Nat.le_refl 0
  | line :: lines => by
      have ih := length_le_textOf lines
      rw [textOf_cons, List.length_cons, List.length_append, List.length_cons]
      omega

/-- **Past its header, the loop takes the name of each line.** -/
theorem parseVtableNamesLoop_eq : ∀ {lines : List (List UInt8)} {fuel : ℕ} {lineNo : UInt8}
    (names : List (List UInt8)), (∀ line ∈ lines, 10 ∉ line ∧ notBlank line = true) →
    lines.length ≤ fuel → 1 ≤ lineNo.toNat → lineNo.toNat + lines.length < 256 →
    names.length + lines.length ≤ 16 →
    parseVtableNamesLoop fuel (textOf lines) lineNo names = names ++ lines.map (copyName 15)
  | [], 0, _, names, _, _, _, _, _ => (List.append_nil names).symm
  | [], _ + 1, _, names, _, _, _, _, _ => (List.append_nil names).symm
  | line :: lines, fuel + 1, lineNo, names, hlines, hfuel, hno, hwrap, hroom => by
      rw [List.length_cons] at hfuel hwrap hroom
      obtain ⟨hnl, hblank⟩ := hlines line List.mem_cons_self
      have hsplit := splitLine_append hnl (textOf lines)
      have hgo : ¬ (line ++ 10 :: textOf lines = [] ∨ ¬ names.length < 16) := by
        rw [not_or, not_not]
        exact ⟨List.append_ne_nil_of_right_ne_nil _ (List.cons_ne_nil _ _), by omega⟩
      have hone : (1 : UInt8) ≤ lineNo := UInt8.le_iff_toNat_le.mpr hno
      have hnext := @toNat_lineNo_succ lineNo (by omega)
      rw [textOf_cons, parseVtableNamesLoop, if_neg hgo, hsplit]
      simp only [if_pos (And.intro hone hblank)]
      rw [parseVtableNamesLoop_eq (names ++ [copyName 15 line])
        (fun l hl => hlines l (List.mem_cons_of_mem _ hl)) (by omega) (by omega) (by omega)
        (by rw [List.length_append, List.length_singleton]; omega),
        List.map_cons, List.append_assoc, List.singleton_append]

/-- **The names of all lines but the first.** -/
theorem parseVtableNames_eq {line : List UInt8} {lines : List (List UInt8)}
    (hline : 10 ∉ line) (hlines : ∀ line ∈ lines, 10 ∉ line ∧ notBlank line = true)
    (hroom : lines.length ≤ 16) :
    parseVtableNames (textOf (line :: lines)) = lines.map (copyName 15) := by
  have hfuel := length_le_textOf lines
  have hsplit := splitLine_append hline (textOf lines)
  obtain ⟨fuel, hlen⟩ : ∃ fuel, (textOf (line :: lines)).length = fuel + 1 ∧
      (textOf lines).length ≤ fuel := by
    rw [textOf_cons, List.length_append, List.length_cons]
    exact ⟨line.length + (textOf lines).length, by omega, by omega⟩
  have hgo : ¬ (line ++ 10 :: textOf lines = [] ∨ ¬ ([] : List (List UInt8)).length < 16) := by
    rw [not_or, not_not]
    exact ⟨List.append_ne_nil_of_right_ne_nil _ (List.cons_ne_nil _ _), by decide⟩
  have hheader : ¬ ((0 : UInt8) ≥ 1 ∧ notBlank line = true) := fun h => absurd h.1 (by decide)
  rw [parseVtableNames, hlen.1, textOf_cons, parseVtableNamesLoop, if_neg hgo, hsplit]
  simp only [if_neg hheader]
  exact parseVtableNamesLoop_eq [] hlines (by omega) (by decide)
    (by change 1 + _ < 256; omega) (by rw [List.length_nil]; omega)

/-- No name that is recovered has a newline in it. -/
theorem notMem_parseVtableNamesLoop : ∀ (fuel : ℕ) (p : List UInt8) (lineNo : UInt8)
    {names : List (List UInt8)}, (∀ name ∈ names, 10 ∉ name) →
    ∀ name ∈ parseVtableNamesLoop fuel p lineNo names, 10 ∉ name
  | 0, _, _, _, h => h
  | fuel + 1, p, lineNo, names, h => by
      have hadd : ∀ name ∈ names ++ [copyName 15 (splitLine p).1], 10 ∉ name := by
        intro name hmem
        rcases List.mem_append.mp hmem with hold | hnew
        · exact h name hold
        · obtain rfl := List.mem_singleton.mp hnew
          exact fun hnl => notMem_splitLine p (copyName_subset 15 _ hnl)
      rw [parseVtableNamesLoop]
      split_ifs
      · exact h
      · cases (splitLine p).2 with
        | none => exact hadd
        | some rest => exact notMem_parseVtableNamesLoop fuel rest (lineNo + 1) hadd
      · cases (splitLine p).2 with
        | none => exact h
        | some rest => exact notMem_parseVtableNamesLoop fuel rest (lineNo + 1) h

/-- A task name as the kernel keeps it, without spaces. -/
structure NameOk (name : List UInt8) : Prop where
  length : name.length ≤ 15
  space : 32 ∉ name
  nul : 0 ∉ name

theorem vTaskList_eq (ts : List TaskEntry) : vTaskList ts = textOf (ts.map taskLine) := by
  rw [vTaskList, textOf, List.flatMap_map]

theorem copyName_taskLine {t : TaskEntry} (h : NameOk t.pcTaskName) :
    copyName 15 (taskLine t) = t.pcTaskName :=
  copyName_prvWriteNameToBuffer h.space h.length _

theorem notBlank_taskLine (t : TaskEntry) : notBlank (taskLine t) = true :=
  notBlank_of_mem (c := 9) (List.mem_append_right _ List.mem_cons_self) (by decide)

/-- **The first task is lost**, and the names of the others are recovered. -/
theorem parseVtableNames_vTaskList {t : TaskEntry} {ts : List TaskEntry}
    (hname : ∀ t' ∈ t :: ts, NameOk t'.pcTaskName ∧ 10 ∉ t'.pcTaskName) (hlen : ts.length ≤ 16) :
    parseVtableNames (vTaskList (t :: ts)) = ts.map TaskEntry.pcTaskName := by
  have hlines : ∀ line ∈ ts.map taskLine, 10 ∉ line ∧ notBlank line = true := by
    intro line hmem
    obtain ⟨t', ht', rfl⟩ := List.mem_map.mp hmem
    exact ⟨notMem_taskLine (hname t' (List.mem_cons_of_mem t ht')).2, notBlank_taskLine t'⟩
  rw [vTaskList_eq, List.map_cons, parseVtableNames_eq
    (notMem_taskLine (hname t List.mem_cons_self).2) hlines (by rwa [List.length_map]),
    List.map_map]
  exact List.map_congr_left fun t' ht' =>
    copyName_taskLine (hname t' (List.mem_cons_of_mem t ht')).1

/-- **All tasks are recovered**, with the percentages of their own lines: `ts` are the tasks in the
order of the first table, and `us` are they when the second is printed, with the counters and in the
order of that moment (the kernel rotates its ready lists). -/
structure Recovers (totalTime : ℕ) (ts us : List TaskEntry) : Prop where
  names : parseVtableNames (vTaskList ts) = ts.map TaskEntry.pcTaskName
  pcts : ∀ t ∈ us, ⟨t.pcTaskName, printedPct totalTime t⟩ ∈
    parseCpuPct (vTaskGetRunTimeStats totalTime us)
      ((parseVtableNames (vTaskList ts)).map fun name => ⟨name, 0⟩)

/-- **The monitor never recovers all tasks**, whatever their names, and whatever the second table:
there is one line for each of them, and the first is taken for a header. -/
theorem not_recovers {totalTime : ℕ} {ts us : List TaskEntry} (hone : 1 ≤ ts.length)
    (hlen : ts.length ≤ 16) (hname : ∀ t ∈ ts, NameOk t.pcTaskName) :
    ¬ Recovers totalTime ts us := by
  intro h
  have hnames := h.names
  by_cases hnl : ∀ t ∈ ts, 10 ∉ t.pcTaskName
  · obtain _ | ⟨t, ts⟩ := ts
    · cases hone
    · rw [parseVtableNames_vTaskList (fun t' ht' => ⟨hname t' ht', hnl t' ht'⟩)
        (Nat.le_of_succ_le hlen)] at hnames
      have hcount := congrArg List.length hnames
      rw [List.length_map, List.length_map, List.length_cons] at hcount
      omega
  · -- no name with a newline in it comes back
    push Not at hnl
    obtain ⟨t, ht, hmem⟩ := hnl
    have hback : t.pcTaskName ∈ parseVtableNames (vTaskList ts) :=
      hnames ▸ List.mem_map_of_mem ht
    exact notMem_parseVtableNamesLoop _ _ _ (fun _ hn => absurd hn List.not_mem_nil) _ hback hmem

/-- The idle task alone. -/
def idleOnly : List TaskEntry := [⟨ascii "IDLE", .ready, 0, 100, 1, 950⟩]

theorem not_recovers_idleOnly : ¬ Recovers 1000 idleOnly idleOnly :=
  not_recovers (by decide) (by decide)
    (fun t ht => by
      obtain rfl := List.mem_singleton.mp ht
      exact ⟨by decide, by decide, by decide⟩)

/-- It is taken for a header. -/
theorem idleOnly_names : parseVtableNames (vTaskList idleOnly) ≠
    idleOnly.map TaskEntry.pcTaskName := by
  decide +kernel

/-! ## Percentages -/

theorem set_append_cons {pre post : List UInt8} {x : UInt8} (y : UInt8) :
    (pre ++ x :: post).set pre.length y = pre ++ y :: post := by
  rw [List.set_append_right _ _ (Nat.le_refl _), Nat.sub_self, List.set_cons_zero]

theorem getD_append_cons {pre post : List UInt8} {x : UInt8} :
    (pre ++ x :: post).getD pre.length 0 = x := by
  rw [List.getD_append_right _ _ _ _ (Nat.le_refl _), Nat.sub_self, List.getD_cons_zero]

/-- **Exchanging the ends of a stretch.** -/
theorem swapChars_ends (pre mid post : List UInt8) (x y : UInt8) :
    swapChars pre.length (pre.length + mid.length + 1) (pre ++ x :: (mid ++ y :: post)) =
      pre ++ y :: (mid ++ x :: post) := by
  have hsplit (u : UInt8) : pre ++ u :: (mid ++ y :: post) = (pre ++ u :: mid) ++ y :: post := by
    rw [List.append_assoc, List.cons_append]
  have hlen (u : UInt8) : (pre ++ u :: mid).length = pre.length + mid.length + 1 := by
    rw [List.length_append, List.length_cons, Nat.add_assoc]
  have hend : (pre ++ x :: (mid ++ y :: post)).getD (pre.length + mid.length + 1) 0 = y := by
    rw [hsplit, ← hlen x, getD_append_cons]
  rw [swapChars, hend, getD_append_cons, set_append_cons, hsplit, ← hlen y, set_append_cons,
    List.append_assoc, List.cons_append]

/-- **The loop reverses what is between its indices.** -/
theorem reverseLoop_eq (mid : List UInt8) : ∀ {fuel : ℕ}, mid.length ≤ fuel →
    ∀ pre post : List UInt8,
      reverseLoop fuel pre.length (pre.length + mid.length) (pre ++ (mid ++ post)) =
        pre ++ (mid.reverse ++ post) := by
  induction mid using List.bidirectionalRec with
  | nil =>
    intro fuel _ pre post
    cases fuel with
    | zero => rfl
    | succ fuel =>
      rw [reverseLoop, List.length_nil, Nat.add_zero, if_neg (Nat.lt_irrefl _)]
      rfl
  | singleton x =>
    intro fuel hfuel pre post
    obtain ⟨fuel, rfl⟩ := Nat.exists_eq_add_of_le' hfuel
    rw [List.length_singleton, reverseLoop, if_pos (Nat.lt_succ_self _), Nat.add_sub_cancel,
      swapChars, List.singleton_append, getD_append_cons, set_append_cons, set_append_cons]
    cases fuel with
    | zero => rfl
    | succ fuel =>
      rw [reverseLoop, if_neg (by omega)]
      rfl
  | cons_append x mid y ih =>
    intro fuel hfuel pre post
    rw [List.length_cons, List.length_append, List.length_singleton] at hfuel
    obtain ⟨fuel, rfl⟩ := Nat.exists_eq_add_of_le' (Nat.le_trans (Nat.le_add_left 1 _) hfuel)
    have hlen : (x :: (mid ++ [y])).length = mid.length + 2 := by
      rw [List.length_cons, List.length_append, List.length_singleton]
    have hlast : pre.length + (mid.length + 2) - 1 = pre.length + mid.length + 1 := by omega
    have hnext := ih (by omega : mid.length ≤ fuel) (pre ++ [y]) (x :: post)
    rw [List.length_append, List.length_singleton, List.append_assoc, List.singleton_append,
      Nat.add_right_comm] at hnext
    rw [hlen, reverseLoop, if_pos (by omega), hlast, List.cons_append, List.append_assoc,
      List.singleton_append, swapChars_ends, hnext]
    simp

/-- Digits are copied up to the character before them. -/
theorem copyDigits_append : ∀ {digits : List UInt8} {room : ℕ}, (∀ c ∈ digits, isDigit c = true) →
    digits.length ≤ room → ∀ {b : UInt8} {rest : List UInt8}, isDigit b = false →
      copyDigits room (digits ++ b :: rest) = digits
  | [], 0, _, _, _, _, _ => rfl
  | [], _ + 1, _, _, _, _, hb => by
      rw [List.nil_append, copyDigits, if_neg (by rw [hb]; decide)]
  | c :: cs, room + 1, hdigits, hle, _, _, hb => by
      rw [List.cons_append, copyDigits, if_pos (hdigits c List.mem_cons_self),
        copyDigits_append (fun d hd => hdigits d (List.mem_cons_of_mem c hd))
          (Nat.le_of_succ_le_succ hle) hb]

/-- **The number before the percent sign**, if it has no more than seven digits. -/
theorem linePct_eq (front : List UInt8) {digits : List UInt8} {b : UInt8} (hb : isDigit b = false)
    (hdigits : ∀ c ∈ digits, isDigit c = true) (hne : digits ≠ []) (hlen : digits.length ≤ 7) :
    linePct (front ++ b :: (digits ++ [37, 13])) = some (number digits) := by
  have hrev : (front ++ b :: (digits ++ [37, 13])).reverse =
      13 :: 37 :: (digits.reverse ++ b :: front.reverse) := by simp
  have hscan : scanPct (13 :: 37 :: (digits.reverse ++ b :: front.reverse)) =
      some (digits.reverse ++ b :: front.reverse) := rfl
  have hspaces : (digits.reverse ++ b :: front.reverse).dropWhile (· = 32) =
      digits.reverse ++ b :: front.reverse := by
    cases hd : digits.reverse with
    | nil => exact absurd (List.reverse_eq_nil_iff.mp hd) hne
    | cons c cs =>
      have hc : isDigit c = true :=
        hdigits c (List.mem_reverse.mp (hd ▸ List.mem_cons_self))
      have hnot : ¬ c = 32 := fun heq => by
        rw [heq] at hc
        exact absurd hc (by decide)
      rw [List.cons_append, List.dropWhile_cons_of_neg (by simp [hnot])]
  have hcopy : copyDigits 7 (digits.reverse ++ b :: front.reverse) = digits.reverse :=
    copyDigits_append (fun c hc => hdigits c (List.mem_reverse.mp hc))
      (by rwa [List.length_reverse]) hb
  have hpos : digits.reverse.length > 0 := by
    rw [List.length_reverse]
    exact List.length_pos_of_ne_nil hne
  have hreverse := reverseLoop_eq digits.reverse (Nat.le_refl _) [] []
  rw [List.nil_append, List.nil_append, List.append_nil, List.append_nil, List.reverse_reverse,
    List.length_nil, Nat.zero_add] at hreverse
  rw [linePct, hrev, hscan, Option.map_some]
  simp only [hspaces, hcopy, if_pos hpos, hreverse]

/-- **The percentage of a line is the one that was printed on it.** -/
theorem linePct_statsLine {totalTime : ℕ} {t : TaskEntry}
    (h : printedPct totalTime t < 10 ^ 7) :
    linePct (statsLine totalTime t) = some (printedPct totalTime t) := by
  rw [statsLine, printedPct] at *
  split_ifs at h ⊢ with hpos
  · have hline := linePct_eq
      (prvWriteNameToBuffer t.pcTaskName ++ 9 :: (decimal t.ulRunTimeCounter ++ [9]))
      (b := 9) (by decide) isDigit_of_mem_decimal (decimal_ne_nil _)
      (length_decimal_le (by decide) h)
    rw [number_decimal] at hline
    rw [← hline]
    simp
  · have hdigits : ∀ c ∈ [(49 : UInt8)], isDigit c = true := fun c hc => by
      rw [List.mem_singleton.mp hc]
      decide
    have hline := linePct_eq
      (prvWriteNameToBuffer t.pcTaskName ++ 9 :: (decimal t.ulRunTimeCounter ++ [9, 9]))
      (b := 60) (by decide) hdigits (by decide) (by decide)
    have hone := number_decimal 1
    rw [decimal_of_lt (by decide)] at hone
    rw [show number [49] = 1 from hone] at hline
    rw [← hline]
    simp

/-- What `parse_cpu_pct` does with a line behind the headers. -/
def readLine (tasks : List TaskStat) (line : List UInt8) : List TaskStat :=
  (linePct line).elim tasks fun pct => setCpuPct (copyName 15 line) pct tasks

/-- **A line sets the percentage of its task.** -/
theorem readLine_statsLine {totalTime : ℕ} {t : TaskEntry} (hname : NameOk t.pcTaskName)
    (hpct : printedPct totalTime t < 10 ^ 7) (tasks : List TaskStat) :
    readLine tasks (statsLine totalTime t) =
      setCpuPct t.pcTaskName (printedPct totalTime t) tasks := by
  have hcopy : copyName 15 (statsLine totalTime t) = t.pcTaskName :=
    copyName_prvWriteNameToBuffer hname.space hname.length _
  rw [readLine, linePct_statsLine hpct, hcopy]
  rfl

/-- …and so do all lines, one after the other. -/
theorem foldl_readLine {totalTime : ℕ} : ∀ {ts : List TaskEntry},
    (∀ t ∈ ts, NameOk t.pcTaskName ∧ printedPct totalTime t < 10 ^ 7) →
    ∀ tasks : List TaskStat, (ts.map (statsLine totalTime)).foldl readLine tasks =
      ts.foldl (fun tasks t => setCpuPct t.pcTaskName (printedPct totalTime t) tasks) tasks
  | [], _, _ => rfl
  | t :: ts, h, tasks => by
      obtain ⟨hname, hpct⟩ := h t List.mem_cons_self
      rw [List.map_cons, List.foldl_cons, List.foldl_cons, readLine_statsLine hname hpct,
        foldl_readLine fun s hs => h s (List.mem_cons_of_mem t hs)]

/-- **Past its headers, the loop reads each line.** -/
theorem parseCpuPctLoop_eq : ∀ {lines : List (List UInt8)} {fuel : ℕ} {lineNo : UInt8}
    (tasks : List TaskStat), (∀ line ∈ lines, 10 ∉ line ∧ notBlank line = true) →
    lines.length ≤ fuel → 2 ≤ lineNo.toNat → lineNo.toNat + lines.length < 256 →
    parseCpuPctLoop fuel (textOf lines) lineNo tasks = lines.foldl readLine tasks
  | [], 0, _, _, _, _, _, _ => rfl
  | [], _ + 1, _, _, _, _, _, _ => rfl
  | line :: lines, fuel + 1, lineNo, tasks, hlines, hfuel, hno, hwrap => by
      rw [List.length_cons] at hfuel hwrap
      obtain ⟨hnl, hblank⟩ := hlines line List.mem_cons_self
      have hsplit := splitLine_append hnl (textOf lines)
      have htwo : (2 : UInt8) ≤ lineNo := UInt8.le_iff_toNat_le.mpr hno
      have hnext := @toNat_lineNo_succ lineNo (by omega)
      rw [textOf_cons, parseCpuPctLoop, hsplit,
        if_neg (List.append_ne_nil_of_right_ne_nil _ (List.cons_ne_nil _ _))]
      simp only [if_pos (And.intro htwo hblank)]
      exact parseCpuPctLoop_eq _ (fun l hl => hlines l (List.mem_cons_of_mem _ hl)) (by omega)
        (by omega) (by omega)

/-- A header is passed over. -/
theorem parseCpuPctLoop_header {line : List UInt8} (hnl : 10 ∉ line) (rest : List UInt8)
    {lineNo : UInt8} (hno : lineNo < 2) (fuel : ℕ) (tasks : List TaskStat) :
    parseCpuPctLoop (fuel + 1) (line ++ 10 :: rest) lineNo tasks =
      parseCpuPctLoop fuel rest (lineNo + 1) tasks := by
  have hheader : ¬ (lineNo ≥ 2 ∧ notBlank line = true) := fun h =>
    absurd h.1 (UInt8.not_le.mpr hno)
  rw [parseCpuPctLoop, splitLine_append hnl,
    if_neg (List.append_ne_nil_of_right_ne_nil _ (List.cons_ne_nil _ _))]
  simp only [if_neg hheader]

/-- **All lines but the first two are read.** -/
theorem parseCpuPct_eq {line line' : List UInt8} {lines : List (List UInt8)} (hline : 10 ∉ line)
    (hline' : 10 ∉ line') (hlines : ∀ line ∈ lines, 10 ∉ line ∧ notBlank line = true)
    (hlen : lines.length ≤ 16) (tasks : List TaskStat) :
    parseCpuPct (textOf (line :: line' :: lines)) tasks = lines.foldl readLine tasks := by
  have hfuel := length_le_textOf lines
  obtain ⟨fuel, htotal, hle⟩ : ∃ fuel, (textOf (line :: line' :: lines)).length = fuel + 1 + 1 ∧
      (textOf lines).length ≤ fuel := by
    rw [textOf_cons, textOf_cons, List.length_append, List.length_cons, List.length_append,
      List.length_cons]
    exact ⟨line.length + line'.length + (textOf lines).length, by omega, by omega⟩
  rw [parseCpuPct, htotal, textOf_cons, parseCpuPctLoop_header hline _ (by decide), textOf_cons,
    parseCpuPctLoop_header hline' _ (by decide)]
  exact parseCpuPctLoop_eq tasks hlines (by omega) (by decide) (by change 2 + _ < 256; omega)

/-- A percentage goes to the task of its name. -/
theorem setCpuPct_map (name : List UInt8) (pct : ℕ) (old : List UInt8 → ℕ) :
    ∀ {names : List (List UInt8)}, names.Nodup →
      setCpuPct name pct (names.map fun n => ⟨n, old n⟩) =
        names.map fun n => ⟨n, if n = name then pct else old n⟩
  | [], _ => rfl
  | n :: names, h => by
      obtain ⟨hn, hnames⟩ := List.nodup_cons.mp h
      rw [List.map_cons, List.map_cons, setCpuPct]
      by_cases heq : n = name
      · have hrest : ∀ m ∈ names, (⟨m, old m⟩ : TaskStat) =
            ⟨m, if m = name then pct else old m⟩ := by
          intro m hm
          rw [if_neg (ne_of_mem_of_not_mem hm (heq ▸ hn))]
        rw [if_pos heq, if_pos heq, List.map_congr_left hrest]
      · rw [if_neg heq, if_neg heq, setCpuPct_map name pct old hnames]

/-- **Tasks of different names get their percentages one by one**, in whatever order they come. -/
theorem foldl_setCpuPct (pct : TaskEntry → ℕ) {names : List (List UInt8)} (h : names.Nodup) :
    ∀ {us : List TaskEntry}, (us.map TaskEntry.pcTaskName).Nodup → ∀ old : List UInt8 → ℕ,
      us.foldl (fun tasks t => setCpuPct t.pcTaskName (pct t) tasks)
          (names.map fun n => ⟨n, old n⟩) =
        names.map fun n => ⟨n, (us.find? (·.pcTaskName = n)).elim (old n) pct⟩
  | [], _, _ => rfl
  | u :: us, hnodup, old => by
      rw [List.map_cons, List.nodup_cons] at hnodup
      rw [List.foldl_cons, setCpuPct_map _ _ old h, foldl_setCpuPct pct h hnodup.2]
      refine List.map_congr_left fun n _ => ?_
      by_cases heq : u.pcTaskName = n
      · have hnone : us.find? (·.pcTaskName = n) = none := by
          rw [List.find?_eq_none]
          intro s hs hsn
          have hname : s.pcTaskName = u.pcTaskName := (of_decide_eq_true hsn).trans heq.symm
          exact hnodup.1 (hname ▸ List.mem_map_of_mem hs)
        have hfirst : (u :: us).find? (·.pcTaskName = n) = some u :=
          List.find?_cons_of_pos (by simpa using heq)
        rw [hnone, hfirst, Option.elim_none, if_pos heq.symm, Option.elim_some]
      · have hrest : (u :: us).find? (·.pcTaskName = n) = us.find? (·.pcTaskName = n) :=
          List.find?_cons_of_neg (by simpa using heq)
        rw [hrest, if_neg (Ne.symm heq)]

/-- **What the monitor recovers**: the first task of the first table is lost, and each of the others
gets the percentage on its own line of the second table, unless that is one of its first two lines,
or keeps 0. -/
theorem parseCpuPct_stats {totalTime : ℕ} (htime : totalTime / 100 > 0) {t u u' : TaskEntry}
    {ts us : List TaskEntry} (hts : ∀ s ∈ t :: ts, NameOk s.pcTaskName ∧ 10 ∉ s.pcTaskName)
    (hus : ∀ s ∈ u :: u' :: us, NameOk s.pcTaskName ∧ 10 ∉ s.pcTaskName)
    (hdistinct : (ts.map TaskEntry.pcTaskName).Nodup)
    (hdistinct' : (us.map TaskEntry.pcTaskName).Nodup)
    (hpct : ∀ s ∈ us, printedPct totalTime s < 10 ^ 7) (hlen : ts.length ≤ 16)
    (hlen' : us.length ≤ 16) :
    parseCpuPct (vTaskGetRunTimeStats totalTime (u :: u' :: us))
        ((parseVtableNames (vTaskList (t :: ts))).map fun name => ⟨name, 0⟩) =
      ts.map fun s => ⟨s.pcTaskName,
        (us.find? (·.pcTaskName = s.pcTaskName)).elim 0 (printedPct totalTime)⟩ := by
  have hok : ∀ s ∈ us, NameOk s.pcTaskName ∧ 10 ∉ s.pcTaskName := fun s hs =>
    hus s (List.mem_cons_of_mem _ (List.mem_cons_of_mem _ hs))
  have htext : vTaskGetRunTimeStats totalTime (u :: u' :: us) =
      textOf ((u :: u' :: us).map (statsLine totalTime)) := by
    rw [vTaskGetRunTimeStats, if_pos htime, textOf, List.flatMap_map]
  have hlines : ∀ line ∈ us.map (statsLine totalTime), 10 ∉ line ∧ notBlank line = true := by
    intro line hmem
    obtain ⟨s, hs, rfl⟩ := List.mem_map.mp hmem
    exact ⟨notMem_statsLine (hok s hs).2 totalTime,
      notBlank_of_mem (c := 9) (List.mem_append_right _ List.mem_cons_self) (by decide)⟩
  rw [parseVtableNames_vTaskList hts hlen, htext, List.map_cons, List.map_cons,
    parseCpuPct_eq (notMem_statsLine (hus u List.mem_cons_self).2 totalTime)
      (notMem_statsLine (hus u' (List.mem_cons_of_mem _ List.mem_cons_self)).2 totalTime) hlines
      (by rwa [List.length_map]),
    foldl_readLine fun s hs => ⟨(hok s hs).1, hpct s hs⟩,
    foldl_setCpuPct (printedPct totalTime) hdistinct hdistinct' fun _ => 0, List.map_map]
  rfl

end GrainWarehouse
