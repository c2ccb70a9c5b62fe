import GrainWarehouse.Mqtt.Value

/-!
# Mqtt/Cut — what the cut after 127 bytes does to a command

`mqtt_on_message` parses the first 127 bytes of a payload.  What the finders read there is what they
would read in the whole of it, unless the text runs out under them: inside the digits of the value,
or inside the name of the target.

`cutSafe_iff`: **the command is that of the whole payload, or there is none, exactly when** the cut
neither takes digits from a value so that it orders something else (`NumberCut`), nor shortens a
longer name to that of a target (`NameCut`).
-/

namespace GrainWarehouse

/-- **The cut yields no other command**: the message is that of the whole payload, or there is
none. -/
def CutSafe (payload : List UInt8) : Prop :=
  mqttOnMessage payload = none ∨ mqttOnMessage payload = jsonCommand (cString payload)

/-- **The cut falls into the digits of the value**, and those before it order something that all of
them do not. -/
def NumberCut (json : List UInt8) : Prop :=
  ∃ start neg d, Written json (ascii "value") start neg d ∧
    start < 127 ∧ 127 < start + d.length ∧
    ∃ target, jsonFindStr (json.take 127) (ascii "target") 16 = some target ∧
      networkCommand target (wrapped (signed neg (d.take (127 - start)))) ≠ none ∧
      networkCommand target (wrapped (signed neg (d.take (127 - start)))) ≠
        networkCommand target (wrapped (signed neg d))

/-- The string of the target goes on with `name` up to the cut, and does not end there. -/
def CutAfter (json name : List UInt8) : Prop :=
  ∃ at' c rest, findSub (strNeedle (ascii "target")) json = some at' ∧
    json.drop (at' + (strNeedle (ascii "target")).length) = name ++ c :: rest ∧ c ≠ 34 ∧
    at' + (strNeedle (ascii "target")).length + name.length = 127

/-- The names of the targets. -/
def targetNames : List (List UInt8) := [ascii "fan", ascii "heat", ascii "humid"]

/-- **The cut falls right behind a target's name** that goes on, and there is a value for it. -/
def NameCut (json : List UInt8) : Prop :=
  ∃ name ∈ targetNames, CutAfter json name ∧
    networkCommand name (jsonFindInt (json.take 127) (ascii "value")) ≠ none

/-! ## The name -/

/-- The key `target` fits its buffer. -/
theorem jsonFindStr_target (json : List UInt8) : jsonFindStr json (ascii "target") 16 =
    (findSub (strNeedle (ascii "target")) json).map fun at' =>
      ((json.drop (at' + (strNeedle (ascii "target")).length)).takeWhile (· ≠ 34)).take 15 := by
  rw [jsonFindStr, if_neg (by decide)]

/-- A string that ends before the text does is read as far as there. -/
theorem takeWhile_append_of_mem {l : List UInt8} (h : (34 : UInt8) ∈ l) (u : List UInt8) :
    (l ++ u).takeWhile (· ≠ 34) = l.takeWhile (· ≠ 34) := by
  obtain ⟨a, b, rfl, ha⟩ := List.eq_append_cons_of_mem h
  have hbefore : ∀ c ∈ a, decide (c ≠ 34) = true := fun c hc =>
    decide_eq_true fun heq => ha (heq ▸ hc)
  rw [List.append_assoc, List.takeWhile_append_of_pos hbefore, List.takeWhile_append_of_pos hbefore]
  rfl

/-- …and one that does not goes on behind it. -/
theorem takeWhile_append_of_notMem {l : List UInt8} (h : (34 : UInt8) ∉ l) (u : List UInt8) :
    (l ++ u).takeWhile (· ≠ 34) = l ++ u.takeWhile (· ≠ 34) :=
  List.takeWhile_append_of_pos fun _ hc => decide_eq_true fun heq => h (heq ▸ hc)

/-- **Behind the cut the name goes on.** -/
theorem CutAfter.reads {json name : List UInt8} (h : CutAfter json name)
    (hquote : (34 : UInt8) ∉ name) (hlen : name.length < 15) :
    jsonFindStr (json.take 127) (ascii "target") 16 = some name ∧
      ∃ c more, jsonFindStr json (ascii "target") 16 = some (name ++ c :: more) := by
  obtain ⟨at', c, rest, hat, hdrop, hc, hcut⟩ := h
  set k := at' + (strNeedle (ascii "target")).length with hk
  have hkept : (json.take 127).drop k = name := by
    rw [List.drop_take, hdrop, show 127 - k = name.length by omega, List.take_left]
  constructor
  · rw [jsonFindStr_target, findSub_take hat (by omega), Option.map_some, ← hk, hkept]
    have hall := takeWhile_append_of_notMem hquote []
    rw [List.append_nil] at hall
    rw [hall, List.takeWhile_nil, List.append_nil, List.take_of_length_le (by omega)]
  · obtain ⟨j, hj⟩ : ∃ j, 15 - name.length = j + 1 := ⟨14 - name.length, by omega⟩
    have hgo : (c :: rest).takeWhile (· ≠ 34) = c :: rest.takeWhile (· ≠ 34) :=
      List.takeWhile_cons_of_pos (decide_eq_true hc)
    refine ⟨c, (rest.takeWhile (· ≠ 34)).take j, ?_⟩
    rw [jsonFindStr_target, hat, Option.map_some, ← hk, hdrop, takeWhile_append_of_notMem hquote,
      hgo, List.take_append, List.take_of_length_le (by omega), hj, List.take_succ_cons]

/-- **Only there the whole payload may have another name.** -/
theorem cutAfter_of_ne {json name : List UInt8} (hlen : name.length < 15)
    (hkept : jsonFindStr (json.take 127) (ascii "target") 16 = some name)
    (hne : jsonFindStr json (ascii "target") 16 ≠ some name) : CutAfter json name := by
  rw [jsonFindStr_target] at hkept hne
  obtain ⟨at', hat, hname⟩ := Option.map_eq_some_iff.mp hkept
  have hat' := findSub_append_right hat (json.drop 127)
  rw [List.take_append_drop] at hat'
  have hle := findSub_add_le hat
  set k := at' + (strNeedle (ascii "target")).length with hk
  rw [hat', Option.map_some, ← hk] at hne
  -- the text behind the key, as far as it is kept and all of it
  set l := (json.take 127).drop k with hl
  have hsplit : json.drop k = l ++ json.drop 127 := by
    rw [hl, ← List.drop_append_of_le_length hle, List.take_append_drop]
  rw [hsplit] at hne
  have hkeep : l.length = min 127 json.length - k := by
    rw [hl, List.length_drop, List.length_take]
  have hshort : l.takeWhile (· ≠ 34) = name := by
    rw [← hname, List.take_of_length_le]
    by_contra hlong
    have := congrArg List.length hname
    rw [List.length_take] at this
    omega
  by_cases hmem : (34 : UInt8) ∈ l
  · rw [takeWhile_append_of_mem hmem, hshort, List.take_of_length_le (by omega)] at hne
    exact absurd rfl hne
  have hall := takeWhile_append_of_notMem hmem []
  rw [List.append_nil, List.takeWhile_nil, List.append_nil, hshort] at hall
  subst hall
  cases hrest : json.drop 127 with
  | nil =>
    rw [hrest, List.append_nil, hshort, List.take_of_length_le (by omega)] at hne
    exact absurd rfl hne
  | cons c rest =>
    refine ⟨at', c, rest, hat', by rw [← hk, hsplit, hrest], ?_, ?_⟩
    · rintro rfl
      rw [hrest, takeWhile_append_of_notMem hmem, List.takeWhile_cons_of_neg (by simp),
        List.append_nil, List.take_of_length_le (by omega)] at hne
      exact absurd rfl hne
    · have hlong := congrArg List.length hrest
      rw [List.length_drop, List.length_cons] at hlong
      rw [List.length_take] at hle
      omega

theorem mem_targetNames {name : List UInt8} : name ∈ targetNames ↔
    name = ascii "fan" ∨ name = ascii "heat" ∨ name = ascii "humid" := by
  simp [targetNames]

/-- No name begins another one, and each is shorter than its buffer. -/
theorem targetNames_prefixFree : (∀ a ∈ targetNames, ∀ b ∈ targetNames, a <+: b → a = b) ∧
    ∀ a ∈ targetNames, (34 : UInt8) ∉ a ∧ a.length < 15 := by
  decide

/-- Only a target has commands. -/
theorem mem_of_networkCommand {name : List UInt8} {value : ℤ} {m : ApplayMsg}
    (h : networkCommand name value = some m) : name ∈ targetNames := by
  rw [mem_targetNames]
  rcases (networkCommand_eq_some h).2 with ⟨hfan, -⟩ | ⟨hswitch, -⟩
  · exact Or.inl hfan
  · exact Or.inr hswitch

/-- **A longer name is no target.** -/
theorem networkCommand_longer {name more : List UInt8} {c : UInt8} (h : name ∈ targetNames)
    (value : ℤ) : networkCommand (name ++ c :: more) value = none := by
  refine Option.eq_none_iff_forall_ne_some.mpr fun m hm => ?_
  have hsame := targetNames_prefixFree.1 _ h _ (mem_of_networkCommand hm) (List.prefix_append _ _)
  have hlen := congrArg List.length hsame
  rw [List.length_append, List.length_cons] at hlen
  omega

/-! ## The command -/

/-- **A shortened name orders what the whole payload does not.** -/
theorem NameCut.misleads {json : List UInt8} (h : NameCut json) :
    jsonCommand (json.take 127) ≠ none ∧ jsonCommand json = none := by
  obtain ⟨name, hname, hcut, hcmd⟩ := h
  obtain ⟨hquote, hlen⟩ := targetNames_prefixFree.2 name hname
  obtain ⟨hkept, c, more, hwhole⟩ := hcut.reads hquote hlen
  rw [jsonCommand_eq, hkept, Option.bind_some, jsonCommand_eq, hwhole, Option.bind_some]
  exact ⟨hcmd, networkCommand_longer hname _⟩

/-- The whole payload has the name that was kept, or the cut has shortened its own. -/
theorem name_or_nameCut {json target : List UInt8}
    (hkept : jsonFindStr (json.take 127) (ascii "target") 16 = some target)
    (hcmd : networkCommand target (jsonFindInt (json.take 127) (ascii "value")) ≠ none) :
    jsonFindStr json (ascii "target") 16 = some target ∨ NameCut json := by
  obtain ⟨m, hm⟩ := Option.ne_none_iff_exists'.mp hcmd
  have hname := mem_of_networkCommand hm
  by_cases hsame : jsonFindStr json (ascii "target") 16 = some target
  · exact Or.inl hsame
  · exact Or.inr ⟨target, hname,
      cutAfter_of_ne (targetNames_prefixFree.2 target hname).2 hkept hsame, hcmd⟩

/-- A value that is kept is written in the whole payload, the first of its digits before the
cut. -/
theorem written_of_kept (json : List UInt8)
    (h : jsonFindInt (json.take 127) (ascii "value") ≠ -1) :
    ∃ start neg d, Written json (ascii "value") start neg d ∧ start < 127 := by
  obtain ⟨-, start, neg, d, hw⟩ := written_of_jsonFindInt h
  have happ := hw.append (json.drop 127)
  rw [List.take_append_drop] at happ
  exact ⟨start, neg, _, happ, lt_of_jsonFindInt_take happ h⟩

/-- What a payload orders in which a value is written. -/
theorem jsonCommand_of_written {json target d : List UInt8} {start : ℕ} {neg : Bool}
    (hw : Written json (ascii "value") start neg d)
    (htarget : jsonFindStr json (ascii "target") 16 = some target) :
    jsonCommand json = networkCommand target (wrapped (signed neg d)) := by
  rw [jsonCommand_eq, htarget, Option.bind_some, jsonFindInt_of_written hw length_value]
  rfl

/-- …and what the kept part of it orders. -/
theorem jsonCommand_take_of_written {json target d : List UInt8} {start : ℕ} {neg : Bool}
    (hw : Written json (ascii "value") start neg d) (hlt : start < 127)
    (hkept : jsonFindStr (json.take 127) (ascii "target") 16 = some target) :
    jsonCommand (json.take 127) =
      networkCommand target (wrapped (signed neg (d.take (127 - start)))) := by
  rw [jsonCommand_eq, hkept, Option.bind_some, jsonFindInt_take hw hlt]

/-- **A shortened number orders what the whole payload does not.** -/
theorem NumberCut.misleads {json : List UInt8} (h : NumberCut json) :
    jsonCommand (json.take 127) ≠ none ∧ jsonCommand (json.take 127) ≠ jsonCommand json := by
  obtain ⟨start, neg, d, hw, hlt, -, target, hkept, hcmd, hdiff⟩ := h
  have hread := jsonFindInt_take hw hlt
  rcases name_or_nameCut hkept (by rwa [hread]) with hsame | hname
  · rw [jsonCommand_take_of_written hw hlt hkept, jsonCommand_of_written hw hsame]
    exact ⟨hcmd, hdiff⟩
  · obtain ⟨hne, hnone⟩ := hname.misleads
    rw [hnone]
    exact ⟨hne, hne⟩

/-- **Nothing else misleads.** -/
theorem cut_of_misleads {json : List UInt8} (hcmd : jsonCommand (json.take 127) ≠ none)
    (hdiff : jsonCommand (json.take 127) ≠ jsonCommand json) : NumberCut json ∨ NameCut json := by
  obtain ⟨m, hm⟩ := Option.ne_none_iff_exists'.mp hcmd
  obtain ⟨target, hkept, hm'⟩ := jsonCommand_eq_some_iff.mp hm
  have hpos := (networkCommand_eq_some hm').1
  obtain ⟨start, neg, d, hw, hlt⟩ := written_of_kept json (by omega)
  rcases name_or_nameCut hkept (by rw [hm']; exact Option.some_ne_none m) with hsame | hname
  · have hpart := jsonCommand_take_of_written hw hlt hkept
    rw [jsonCommand_of_written hw hsame, hpart] at hdiff
    rw [hpart] at hcmd
    refine Or.inl ⟨start, neg, d, hw, hlt, ?_, target, hkept, hcmd, hdiff⟩
    -- a cut behind the last digit would change nothing
    by_contra hle
    rw [List.take_of_length_le (by omega)] at hdiff
    exact hdiff rfl
  · exact Or.inr hname

/-- **The cut is safe if and only if** it neither takes digits from a value so that it orders
something else, nor shortens a longer name to that of a target. -/
theorem cutSafe_iff (payload : List UInt8) : CutSafe payload ↔
    ¬ (NumberCut (cString payload) ∨ NameCut (cString payload)) := by
  rw [CutSafe, mqttOnMessage_eq, ← not_iff_not, not_not, not_or]
  constructor
  · rintro ⟨hcmd, hdiff⟩
    exact cut_of_misleads hcmd hdiff
  · rintro (hnumber | hname)
    · exact hnumber.misleads
    · obtain ⟨hcmd, hnone⟩ := hname.misleads
      rw [hnone]
      exact ⟨hcmd, hcmd⟩

/-- A fan gear of 25, its second digit behind the cut. -/
def cutGear : List UInt8 :=
  ascii "\x7b\"target\":\"fan\"," ++ List.replicate 102 32 ++ ascii "\"value\":25\x7d"

/-- The fan is set to its second gear; the whole payload orders nothing. -/
theorem cutGear_unsafe : ¬ CutSafe cutGear := by
  have hcut : mqttOnMessage cutGear = some ⟨.fan, 2, .network⟩ := by decide +kernel
  have hall : jsonCommand (cString cutGear) = none := by decide +kernel
  rw [CutSafe, hcut, hall]
  exact fun h => h.elim (Option.some_ne_none _) (Option.some_ne_none _)

end GrainWarehouse
