import Mathlib

/-!
# Machinery/Search — the first place a pattern stands in a list

`findSub pat l` is the least offset at which `pat` stands in `l`, the answer of the usual nested
loop over start positions.  The search is stable under appending (`findSub_append_right`), skips a
prefix that misses the pattern's head (`findSub_append_left`), and splits the list it succeeds on
(`findSub_eq_some`).  `upThrough x l` counts a line: the elements up to and including the first `x`.
-/

namespace GrainWarehouse

variable {β : Type*} [DecidableEq β]

/-- The least offset at which `pat` stands in the list. -/
def findSub (pat : List β) : List β → Option ℕ
  | [] => if pat.isEmpty then some 0 else none
  | x :: xs => if pat.isPrefixOf (x :: xs) then some 0 else (findSub pat xs).map (· + 1)

theorem findSub_prefix_self {pat l : List β} (h : pat <+: l) : findSub pat l = some 0 := by
  cases l with
  | nil => simp [findSub, List.prefix_nil.mp h]
  | cons x xs => rw [findSub, if_pos (List.isPrefixOf_iff_prefix.mpr h)]

theorem findSub_cons_of_not {pat xs : List β} {x : β} (h : ¬ pat <+: x :: xs) :
    findSub pat (x :: xs) = (findSub pat xs).map (· + 1) := by
  rw [findSub, if_neg (by rwa [List.isPrefixOf_iff_prefix])]

/-- **A successful search splits the list** at the occurrence it found. -/
theorem findSub_eq_some {pat : List β} : ∀ {l : List β} {i : ℕ}, findSub pat l = some i →
    ∃ pre post, l = pre ++ pat ++ post ∧ pre.length = i
  | [], i, h => by
      rw [findSub] at h
      split at h
      · next he =>
        obtain rfl := List.isEmpty_iff.mp he
        exact ⟨[], [], rfl, by simpa using h⟩
      · cases h
  | x :: xs, i, h => by
      by_cases hp : pat <+: x :: xs
      · obtain ⟨post, hpost⟩ := hp
        rw [findSub_prefix_self ⟨post, hpost⟩, Option.some.injEq] at h
        exact ⟨[], post, by simpa using hpost.symm, h⟩
      · rw [findSub_cons_of_not hp, Option.map_eq_some_iff] at h
        obtain ⟨j, hj, rfl⟩ := h
        obtain ⟨pre, post, rfl, rfl⟩ := findSub_eq_some hj
        exact ⟨x :: pre, post, rfl, rfl⟩

/-- The occurrence lies inside the list. -/
theorem findSub_add_le {pat l : List β} {i : ℕ} (h : findSub pat l = some i) :
    i + pat.length ≤ l.length := by
  obtain ⟨pre, post, rfl, rfl⟩ := findSub_eq_some h
  simp only [List.length_append]
  omega

/-- **A search fails exactly when the pattern stands nowhere.** -/
theorem findSub_eq_none_iff {pat : List β} : ∀ {l : List β}, findSub pat l = none ↔ ¬ pat <:+: l
  | [] => by
      rw [findSub, List.infix_nil, ← List.isEmpty_iff]
      split <;> simp_all
  | x :: xs => by
      rw [List.infix_cons_iff]
      by_cases hp : pat <+: x :: xs
      · simp [findSub_prefix_self hp, hp]
      · rw [findSub_cons_of_not hp, Option.map_eq_none_iff, findSub_eq_none_iff]
        simp [hp]

theorem exists_findSub_iff {pat l : List β} : (∃ i, findSub pat l = some i) ↔ pat <:+: l := by
  rw [← Option.isSome_iff_exists, ← Option.ne_none_iff_isSome, ne_eq, findSub_eq_none_iff, not_not]

/-- **A prefix without the pattern's first element is skipped.** -/
theorem findSub_append_left {c : β} {t : List β} :
    ∀ {pre : List β}, c ∉ pre → ∀ l : List β,
      findSub (c :: t) (pre ++ l) = (findSub (c :: t) l).map (· + pre.length)
  | [], _, l => by simp
  | x :: pre, hc, l => by
      obtain ⟨hx, hpre⟩ : c ≠ x ∧ c ∉ pre := by simpa using hc
      have hp : ¬ (c :: t) <+: x :: (pre ++ l) := fun h => hx (List.cons_prefix_cons.mp h).1
      rw [List.cons_append, findSub_cons_of_not hp, findSub_append_left hpre l,
        Option.map_map]
      exact congrArg (fun f => Option.map f (findSub (c :: t) l)) (funext fun k => by
        simp only [Function.comp_apply, List.length_cons]; omega)

/-- Without the pattern's first element there is nothing to find. -/
theorem findSub_of_notMem {c : β} {t l : List β} (hc : c ∉ l) : findSub (c :: t) l = none :=
  findSub_eq_none_iff.mpr fun h => hc (h.subset List.mem_cons_self)

/-- **An occurrence stays the first one when the list grows at its end.** -/
theorem findSub_append_right {pat : List β} : ∀ {l : List β} {i : ℕ}, findSub pat l = some i →
    ∀ m : List β, findSub pat (l ++ m) = some i
  | [], i, h, m => by
      obtain ⟨pre, post, hl, rfl⟩ := findSub_eq_some h
      obtain ⟨rfl, rfl, rfl⟩ : pre = [] ∧ pat = [] ∧ post = [] := by simpa using hl.symm
      exact findSub_prefix_self List.nil_prefix
  | x :: xs, i, h, m => by
      by_cases hp : pat <+: x :: xs
      · rw [findSub_prefix_self hp] at h
        rw [findSub_prefix_self (hp.trans (List.prefix_append _ _)), h]
      · have hle := findSub_add_le h
        have hp' : ¬ pat <+: x :: (xs ++ m) := fun hm =>
          hp (List.prefix_of_prefix_length_le hm (List.prefix_append (x :: xs) m) (by omega))
        rw [findSub_cons_of_not hp, Option.map_eq_some_iff] at h
        obtain ⟨j, hj, rfl⟩ := h
        rw [List.cons_append, findSub_cons_of_not hp', findSub_append_right hj m]
        rfl

/-- …and when the list is cut behind it. -/
theorem findSub_take {pat l : List β} {i n : ℕ} (h : findSub pat l = some i)
    (hn : i + pat.length ≤ n) : findSub pat (l.take n) = some i := by
  obtain ⟨pre, post, rfl, rfl⟩ := findSub_eq_some h
  have hcut : (pre ++ pat ++ post).take n = pre ++ pat ++ post.take (n - (pre ++ pat).length) := by
    rw [List.take_append, List.take_of_length_le (by rw [List.length_append]; exact hn)]
  cases hfind : findSub pat ((pre ++ pat ++ post).take n) with
  | none => exact absurd ⟨pre, post.take _, hcut.symm⟩ (findSub_eq_none_iff.mp hfind)
  | some j =>
    have hsame := findSub_append_right hfind ((pre ++ pat ++ post).drop n)
    rw [List.take_append_drop, h] at hsame
    exact hsame.symm

/-- **A pattern does not reach across an element it does not have.** -/
theorem findSub_append_cons {c : β} {pat : List β} (hne : pat ≠ []) (hc : c ∉ pat) :
    ∀ {a : List β}, ¬ pat <:+: a → ∀ b : List β,
      findSub pat (a ++ c :: b) = (findSub pat b).map (· + (a.length + 1))
  | [], _, b => by
      have hp : ¬ pat <+: c :: b := by
        obtain ⟨x, pat, rfl⟩ := List.exists_cons_of_ne_nil hne
        intro hp
        exact hc ((List.cons_prefix_cons.mp hp).1 ▸ List.mem_cons_self)
      rw [List.nil_append, findSub_cons_of_not hp]
      rfl
  | x :: a, h, b => by
      have hp : ¬ pat <+: x :: (a ++ c :: b) := by
        intro hp
        rcases Nat.lt_or_ge (x :: a).length pat.length with hlt | hle
        · -- the pattern would hold the element
          have hin : x :: a ++ [c] <+: pat := List.prefix_of_prefix_length_le
            ⟨b, by rw [List.append_assoc, List.singleton_append]; rfl⟩ hp (by simpa using hlt)
          exact hc (hin.subset (by simp))
        · exact h (List.prefix_of_prefix_length_le hp (List.prefix_append _ _) hle).isInfix
      rw [List.cons_append, findSub_cons_of_not hp,
        findSub_append_cons hne hc (fun ha => h (ha.trans (List.suffix_cons x a).isInfix)) b,
        Option.map_map]
      exact congrArg (fun f => Option.map f (findSub pat b)) (funext fun k => by
        simp only [Function.comp_apply, List.length_cons]; omega)

/-! ## Lines -/

/-- The length of the list through the first `x` — all of it when there is none. -/
def upThrough (x : β) : List β → ℕ
  | [] => 0
  | y :: ys => if y = x then 1 else upThrough x ys + 1

theorem upThrough_le_length (x : β) : ∀ l : List β, upThrough x l ≤ l.length
  | [] => le_rfl
  | y :: ys => by
      have ih := upThrough_le_length x ys
      rw [upThrough, List.length_cons]
      split <;> omega

/-- **A line of a list holding `x` is what stands before the first `x`, and `x`.** -/
theorem upThrough_append_cons {x : β} : ∀ {a : List β}, x ∉ a → ∀ b : List β,
    upThrough x (a ++ x :: b) = a.length + 1
  | [], _, b => by simp [upThrough]
  | y :: a, h, b => by
      obtain ⟨hy, ha⟩ : x ≠ y ∧ x ∉ a := by simpa using h
      rw [List.cons_append, upThrough, if_neg (Ne.symm hy), upThrough_append_cons ha b,
        List.length_cons]

end GrainWarehouse
