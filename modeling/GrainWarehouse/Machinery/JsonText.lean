import Mathlib
import GrainWarehouse.Machinery.Numeral

/-!
# Machinery/JsonText — texts of JSON values, by their grammar

The grammar of RFC 8259 over bytes, white space, escapes and all: `JsonValue l` says that `l` is a
value, `Spells l s` that `s` is the string between the quotes of `l`.  Bytes from 128 on are
characters; whether they are UTF-8 is left open.

A field of an object keeps its white space (`JsonField`), so an object is a list of fields
(`JsonObject`) and any field splits its text (`JsonObject.text_eq`).  **No text holds a byte below
9** (`JsonValue.nine_le`).
-/

namespace GrainWarehouse

/-! ## Tokens -/

/-- White space: blank, tab, line feed, carriage return. -/
def isJsonWs (c : UInt8) : Bool := c = 32 || c = 9 || c = 10 || c = 13

/-- A character that stands for itself in a string. -/
def isJsonPlain (c : UInt8) : Bool := 32 ≤ c && c ≠ 34 && c ≠ 92

/-- The escapes of one letter, and the characters they name. -/
def jsonEscapes : List (UInt8 × UInt8) :=
  [(34, 34), (92, 92), (47, 47), (98, 8), (102, 12), (110, 10), (114, 13), (116, 9)]

/-- `0`–`9`, `A`–`F`, `a`–`f`. -/
def isHexDigit (c : UInt8) : Bool :=
  isDigit c || (65 ≤ c && c ≤ 70) || (97 ≤ c && c ≤ 102)

def hexDigit (c : UInt8) : ℕ :=
  if isDigit c then c.toNat - 48 else if c ≤ 70 then c.toNat - 55 else c.toNat - 87

/-- The number that hexadecimal digits write. -/
def hexNumber (l : List UInt8) : ℕ := l.foldl (fun n c => n * 16 + hexDigit c) 0

/-- The UTF-8 of a code unit; half of a surrogate pair is encoded for itself. -/
def utf8Unit (u : ℕ) : List UInt8 :=
  if u < 0x80 then [UInt8.ofNat u]
  else if u < 0x800 then [UInt8.ofNat (0xC0 + u / 64), UInt8.ofNat (0x80 + u % 64)]
  else [UInt8.ofNat (0xE0 + u / 4096), UInt8.ofNat (0x80 + u / 64 % 64),
    UInt8.ofNat (0x80 + u % 64)]

/-- **What stands between the quotes spells a string.** -/
inductive Spells : List UInt8 → List UInt8 → Prop
  | nil : Spells [] []
  | plain {c : UInt8} {l s : List UInt8} (hc : isJsonPlain c = true) (h : Spells l s) :
      Spells (c :: l) (c :: s)
  | escape {c d : UInt8} {l s : List UInt8} (hc : (c, d) ∈ jsonEscapes) (h : Spells l s) :
      Spells (92 :: c :: l) (d :: s)
  | unicode {u l s : List UInt8} (hlen : u.length = 4) (hu : ∀ c ∈ u, isHexDigit c = true)
      (h : Spells l s) : Spells (92 :: 117 :: (u ++ l)) (utf8Unit (hexNumber u) ++ s)

/-- A string without escapes spells itself. -/
theorem spells_self : ∀ {s : List UInt8}, (∀ c ∈ s, isJsonPlain c = true) → Spells s s
  | [], _ => Spells.nil
  | _ :: _, h =>
    Spells.plain (h _ List.mem_cons_self) (spells_self fun c hc => h c (List.mem_cons_of_mem _ hc))

/-- The digits of an integer: no zero in front of others. -/
def IntDigits (d : List UInt8) : Prop :=
  d ≠ [] ∧ (∀ c ∈ d, isDigit c = true) ∧ (d.head? = some 48 → d = [48])

/-- A minus sign, or nothing. -/
def jsonMinus (neg : Bool) : List UInt8 := if neg then [45] else []

/-- A point and digits. -/
def FracText (l : List UInt8) : Prop :=
  ∃ d, d ≠ [] ∧ (∀ c ∈ d, isDigit c = true) ∧ l = 46 :: d

/-- `e` or `E`, perhaps a sign, and digits. -/
def ExpText (l : List UInt8) : Prop :=
  ∃ e sgn d, (e = 101 ∨ e = 69) ∧ (sgn = [] ∨ sgn = [43] ∨ sgn = [45]) ∧ d ≠ [] ∧
    (∀ c ∈ d, isDigit c = true) ∧ l = e :: (sgn ++ d)

def NumberText (l : List UInt8) : Prop :=
  ∃ neg d frac exp, IntDigits d ∧ (frac = [] ∨ FracText frac) ∧ (exp = [] ∨ ExpText exp) ∧
    l = jsonMinus neg ++ (d ++ (frac ++ exp))

/-! ## Values -/

/-- An element of an array, with the white space around it. -/
structure JsonElement where
  before : List UInt8
  value : List UInt8
  after : List UInt8

def JsonElement.text (x : JsonElement) : List UInt8 := x.before ++ (x.value ++ x.after)

/-- A field of an object, with the white space around its name and its value. -/
structure JsonField where
  before : List UInt8
  name : List UInt8
  behindName : List UInt8
  behindColon : List UInt8
  value : List UInt8
  after : List UInt8

def JsonField.text (f : JsonField) : List UInt8 :=
  f.before ++ (34 :: (f.name ++ 34 :: (f.behindName ++ 58 ::
    (f.behindColon ++ (f.value ++ f.after)))))

/-- White space where it should be, and a name that is a string. -/
structure JsonField.Spaced (f : JsonField) : Prop where
  before : ∀ c ∈ f.before, isJsonWs c = true
  name : ∃ s, Spells f.name s
  behindName : ∀ c ∈ f.behindName, isJsonWs c = true
  behindColon : ∀ c ∈ f.behindColon, isJsonWs c = true
  after : ∀ c ∈ f.after, isJsonWs c = true

/-- **The text of a value.** -/
inductive JsonValue : List UInt8 → Prop
  | literal {l : List UInt8} (h : l ∈ [ascii "null", ascii "true", ascii "false"]) : JsonValue l
  | number {l : List UInt8} (h : NumberText l) : JsonValue l
  | string {l s : List UInt8} (h : Spells l s) : JsonValue (34 :: (l ++ [34]))
  | emptyArray {ws : List UInt8} (h : ∀ c ∈ ws, isJsonWs c = true) : JsonValue (91 :: (ws ++ [93]))
  | array {xs : List JsonElement} (hne : xs ≠ [])
      (hws : ∀ x ∈ xs, ∀ c ∈ x.before ++ x.after, isJsonWs c = true)
      (hval : ∀ x ∈ xs, JsonValue x.value) :
      JsonValue (91 :: ([44].intercalate (xs.map JsonElement.text) ++ [93]))
  | emptyObject {ws : List UInt8} (h : ∀ c ∈ ws, isJsonWs c = true) :
      JsonValue (123 :: (ws ++ [125]))
  | object {fs : List JsonField} (hne : fs ≠ []) (hfs : ∀ f ∈ fs, f.Spaced)
      (hval : ∀ f ∈ fs, JsonValue f.value) :
      JsonValue (123 :: ([44].intercalate (fs.map JsonField.text) ++ [125]))

/-! ## No control characters -/

/-- No byte below 9. -/
def NineLe (l : List UInt8) : Prop := ∀ c ∈ l, 9 ≤ c

theorem NineLe.append {l m : List UInt8} (hl : NineLe l) (hm : NineLe m) : NineLe (l ++ m) :=
  List.forall_mem_append.mpr ⟨hl, hm⟩

theorem NineLe.cons {c : UInt8} {l : List UInt8} (hc : 9 ≤ c) (hl : NineLe l) : NineLe (c :: l) :=
  List.forall_mem_cons.mpr ⟨hc, hl⟩

theorem NineLe.ws {l : List UInt8} (h : ∀ c ∈ l, isJsonWs c = true) : NineLe l := by
  intro c hc
  have hws := h c hc
  simp only [isJsonWs, Bool.or_eq_true, decide_eq_true_eq] at hws
  rcases hws with ((rfl | rfl) | rfl) | rfl
  all_goals decide

theorem NineLe.digits {l : List UInt8} (h : ∀ c ∈ l, isDigit c = true) : NineLe l := by
  intro c hc
  have hd := h c hc
  have h48 : (9 : UInt8) ≤ 48 := by decide
  simp only [isDigit, Bool.and_eq_true, decide_eq_true_eq] at hd
  exact UInt8.le_trans h48 hd.1

theorem NineLe.intercalate : ∀ {ls : List (List UInt8)}, (∀ l ∈ ls, NineLe l) →
    NineLe ([44].intercalate ls)
  | [], _ => fun _ hc => absurd hc List.not_mem_nil
  | [l], h => by
      rw [List.intercalate_singleton]
      exact h l List.mem_cons_self
  | l :: l' :: ls, h => by
      rw [List.intercalate_cons_cons]
      refine ((h l List.mem_cons_self).append (NineLe.cons (by decide) fun _ hc => ?_)).append ?_
      · cases hc
      · exact NineLe.intercalate fun x hx => h x (List.mem_cons_of_mem l hx)

theorem Spells.nine_le : ∀ {l s : List UInt8}, Spells l s → NineLe l
  | _, _, Spells.nil => fun _ hc => absurd hc List.not_mem_nil
  | _, _, Spells.plain hc h => by
      have h32 : (9 : UInt8) ≤ 32 := by decide
      simp only [isJsonPlain, Bool.and_eq_true, decide_eq_true_eq] at hc
      exact NineLe.cons (UInt8.le_trans h32 hc.1.1) h.nine_le
  | _, _, Spells.escape hc h => by
      have hall : (jsonEscapes.all fun x => 9 ≤ x.1) = true := by decide
      exact NineLe.cons (by decide)
        (NineLe.cons (of_decide_eq_true (List.all_eq_true.mp hall _ hc)) h.nine_le)
  | _, _, Spells.unicode hlen hu h => by
      refine NineLe.cons (by decide)
        (NineLe.cons (by decide) (NineLe.append (fun c hc => ?_) h.nine_le))
      have hhex := hu c hc
      have hlow : (9 : UInt8) ≤ 48 ∧ (9 : UInt8) ≤ 65 ∧ (9 : UInt8) ≤ 97 := by decide
      simp only [isHexDigit, isDigit, Bool.or_eq_true, Bool.and_eq_true, decide_eq_true_eq] at hhex
      rcases hhex with (h | h) | h
      · exact UInt8.le_trans hlow.1 h.1
      · exact UInt8.le_trans hlow.2.1 h.1
      · exact UInt8.le_trans hlow.2.2 h.1

theorem NumberText.nine_le {l : List UInt8} (h : NumberText l) : NineLe l := by
  obtain ⟨neg, d, frac, exp, hd, hfrac, hexp, rfl⟩ := h
  have hnil : NineLe [] := fun _ hc => absurd hc List.not_mem_nil
  refine NineLe.append ?_ ((NineLe.digits hd.2.1).append (NineLe.append ?_ ?_))
  · cases neg
    · exact hnil
    · exact NineLe.cons (by decide) hnil
  · rcases hfrac with rfl | ⟨d, -, hd, rfl⟩
    · exact hnil
    · exact NineLe.cons (by decide) (NineLe.digits hd)
  · rcases hexp with rfl | ⟨e, sgn, d, he, hsgn, -, hd, rfl⟩
    · exact hnil
    · refine NineLe.cons ?_ (NineLe.append ?_ (NineLe.digits hd))
      · rcases he with rfl | rfl <;> decide
      · rcases hsgn with rfl | rfl | rfl
        · exact hnil
        · exact NineLe.cons (by decide) hnil
        · exact NineLe.cons (by decide) hnil

theorem JsonField.nine_le {f : JsonField} (hf : f.Spaced) (hval : NineLe f.value) :
    NineLe f.text := by
  obtain ⟨s, hs⟩ := hf.name
  exact (NineLe.ws hf.before).append (NineLe.cons (by decide) (hs.nine_le.append
    (NineLe.cons (by decide) ((NineLe.ws hf.behindName).append (NineLe.cons (by decide)
      ((NineLe.ws hf.behindColon).append (hval.append (NineLe.ws hf.after))))))))

/-- **No value holds a byte below 9.** -/
theorem JsonValue.nine_le {l : List UInt8} (h : JsonValue l) : NineLe l := by
  have hend {c : UInt8} (hc : 9 ≤ c) : NineLe [c] :=
    NineLe.cons hc fun _ hc => absurd hc List.not_mem_nil
  induction h with
  | @literal l h =>
    have hall : ∀ l ∈ [ascii "null", ascii "true", ascii "false"], ∀ c ∈ l, 9 ≤ c := by
      decide +kernel
    exact hall l h
  | number h => exact h.nine_le
  | string h => exact NineLe.cons (by decide) (h.nine_le.append (hend (by decide)))
  | emptyArray h => exact NineLe.cons (by decide) ((NineLe.ws h).append (hend (by decide)))
  | array hne hws hval ih =>
    refine NineLe.cons (by decide) ((NineLe.intercalate ?_).append (hend (by decide)))
    refine List.forall_mem_map.mpr fun x hx => ?_
    have hx' := List.forall_mem_append.mp (hws x hx)
    exact (NineLe.ws hx'.1).append ((ih x hx).append (NineLe.ws hx'.2))
  | emptyObject h => exact NineLe.cons (by decide) ((NineLe.ws h).append (hend (by decide)))
  | object hne hfs hval ih =>
    refine NineLe.cons (by decide) ((NineLe.intercalate ?_).append (hend (by decide)))
    exact List.forall_mem_map.mpr fun f hf => JsonField.nine_le (hfs f hf) (ih f hf)

/-! ## Objects -/

/-- An object with fields, as a text of its own. -/
structure JsonObject where
  before : List UInt8
  fields : List JsonField
  after : List UInt8

namespace JsonObject

def text (o : JsonObject) : List UInt8 :=
  o.before ++ (123 :: ([44].intercalate (o.fields.map JsonField.text) ++ 125 :: o.after))

/-- **The text is an object by the grammar.** -/
structure Valid (o : JsonObject) : Prop where
  before : ∀ c ∈ o.before, isJsonWs c = true
  spaced : ∀ f ∈ o.fields, f.Spaced
  value : ∀ f ∈ o.fields, JsonValue f.value
  after : ∀ c ∈ o.after, isJsonWs c = true

theorem nine_le {o : JsonObject} (h : o.Valid) : NineLe o.text := by
  refine (NineLe.ws h.before).append (NineLe.cons (by decide) ((NineLe.intercalate ?_).append
    (NineLe.cons (by decide) (NineLe.ws h.after))))
  exact List.forall_mem_map.mpr fun f hf =>
    JsonField.nine_le (h.spaced f hf) (h.value f hf).nine_le

end JsonObject

/-- A comma follows each text but the last. -/
theorem intercalate_cons_of_ne_nil {l : List UInt8} {ls : List (List UInt8)} (h : ls ≠ []) :
    [44].intercalate (l :: ls) = l ++ 44 :: [44].intercalate ls := by
  obtain ⟨l', ls, rfl⟩ := List.exists_cons_of_ne_nil h
  rw [List.intercalate_cons_cons, List.append_assoc, List.singleton_append]

/-- **Each text between commas** stands between the texts before it and the texts after it. -/
theorem exists_of_intercalate : ∀ (a b : List (List UInt8)) (l : List UInt8), ∃ rest,
    [44].intercalate (a ++ l :: b) = (a.flatMap fun l => l ++ [44]) ++ (l ++ rest) ∧
      ∀ c ∈ rest.head?, c = 44
  | [], [], l => ⟨[], by simp, fun _ hc => absurd hc (Option.not_mem_none _)⟩
  | [], l' :: b, l => by
      refine ⟨44 :: [44].intercalate (l' :: b), ?_, fun c hc => (Option.some.inj hc).symm⟩
      exact intercalate_cons_of_ne_nil (List.cons_ne_nil l' b)
  | k :: a, b, l => by
      obtain ⟨rest, heq, hrest⟩ := exists_of_intercalate a b l
      refine ⟨rest, ?_, hrest⟩
      rw [List.cons_append, intercalate_cons_of_ne_nil (by simp), heq, List.flatMap_cons]
      simp only [List.append_assoc, List.cons_append, List.nil_append]

namespace JsonObject

/-- What stands in front of a field that these fields precede. -/
def upTo (o : JsonObject) (fs : List JsonField) : List UInt8 :=
  o.before ++ (123 :: (fs.map JsonField.text).flatMap fun l => l ++ [44])

/-- **A field splits the text of its object**, and a comma or a brace follows it. -/
theorem text_eq {o : JsonObject} {a b : List JsonField} {f : JsonField}
    (h : o.fields = a ++ f :: b) :
    ∃ rest, o.text = o.upTo a ++ (f.text ++ rest) ∧ ∀ c ∈ rest.head?, c = 44 ∨ c = 125 := by
  obtain ⟨rest, heq, hrest⟩ :=
    exists_of_intercalate (a.map JsonField.text) (b.map JsonField.text) f.text
  refine ⟨rest ++ 125 :: o.after, ?_, fun c hc => ?_⟩
  · rw [text, h, List.map_append, List.map_cons, heq, upTo]
    simp only [List.append_assoc, List.cons_append]
  · cases rest with
    | nil => exact Or.inr (Option.some.inj hc).symm
    | cons x rest => exact Or.inl (hrest c hc)

end JsonObject

end GrainWarehouse
