import Mathlib.Data.List.OfFn
import Mathlib.Data.List.DropRight

/-!
# Machinery/Cells — arrays that notice an index out of bounds

`Cells β n` is an array of `n` cells.  To read or write a cell it does not have is `none`, and a
program in `Option` stops there: one that returns has kept to the bounds.

`Cells.of l` holds `l` from the front and zeros behind it, which is what an array `{0}` becomes when
`l` is written into it (`write_of`).  The scans of a C program are run on such an array by
`startsWith_of`, `foldWhile_of` and `stringAt_of`.
-/

namespace GrainWarehouse

/-- An array of `n` cells. -/
abbrev Cells (β : Type) (n : ℕ) : Type := Fin n → β

namespace Cells

variable {β σ : Type} {n : ℕ}

/-- `a[i]`. -/
def read (a : Cells β n) (i : ℕ) : Option β := if h : i < n then some (a ⟨i, h⟩) else none

/-- `a[i] = b`. -/
def write (a : Cells β n) (i : ℕ) (b : β) : Option (Cells β n) :=
  if h : i < n then some (Function.update a ⟨i, h⟩ b) else none

/-- The first `k` cells. -/
def front (a : Cells β n) (k : ℕ) : List β := (List.ofFn a).take k

/-- The text stands at `i`; read up to the first cell that differs. -/
def startsWith [DecidableEq β] (a : Cells β n) : List β → ℕ → Option Bool
  | [], _ => some true
  | c :: text, i => do
    let b ← a.read i
    if b = c then startsWith a text (i + 1) else some false

/-- `while (p(a[i])) { s = f(s, a[i]); i++; }`, for `k` cells at most. -/
def foldWhile (p : β → Bool) (f : σ → β → σ) (a : Cells β n) : ℕ → ℕ → σ → Option (σ × ℕ)
  | 0, _, _ => none
  | k + 1, i, s => do
    let b ← a.read i
    if p b then foldWhile p f a k (i + 1) (f s b) else some (s, i)

/-- The string at `i`: all up to the first zero, which is read too. -/
def stringAt [Zero β] [DecidableEq β] (a : Cells β n) : ℕ → ℕ → Option (List β)
  | 0, _ => none
  | k + 1, i => do
    let b ← a.read i
    if b = 0 then some [] else (stringAt a k (i + 1)).map (b :: ·)

/-! ## An array that holds a list -/

variable [Zero β]

/-- The array that holds `l`, and zeros behind it. -/
def of (l : List β) : Cells β n := fun i => l.getD i 0

variable {l : List β}

theorem read_of {i : ℕ} (hi : i < n) : (of l : Cells β n).read i = some (l.getD i 0) := dif_pos hi

theorem read_of_append {c : β} {pre rest : List β} (h : (pre ++ c :: rest).length ≤ n) :
    (of (pre ++ c :: rest) : Cells β n).read pre.length = some c := by
  rw [List.length_append, List.length_cons] at h
  rw [read_of (by omega)]
  simp [List.getD]

/-- A zero at the end is not seen. -/
theorem of_append_zero (l : List β) : (of (l ++ [0]) : Cells β n) = of l := by
  funext i
  simp only [of, List.getD]
  rcases Nat.lt_trichotomy i.val l.length with hi | hi | hi
  · rw [List.getElem?_append_left hi]
  · rw [hi]
    simp
  · rw [List.getElem?_eq_none (by simp; omega), List.getElem?_eq_none (by omega)]

theorem write_of_append (c b : β) {pre : List β} (h : pre.length < n) :
    (of (pre ++ [c]) : Cells β n).write pre.length b = some (of (pre ++ [b])) := by
  rw [write, dif_pos h]
  refine congrArg some (funext fun i => ?_)
  by_cases hi : i = ⟨pre.length, h⟩
  · subst hi
    rw [Function.update_self]
    simp [of, List.getD]
  · have hne : i.val ≠ pre.length := fun heq => hi (Fin.ext heq)
    rw [Function.update_of_ne hi]
    simp only [of, List.getD]
    rcases Nat.lt_or_gt_of_ne hne with hlt | hgt
    · rw [List.getElem?_append_left hlt, List.getElem?_append_left hlt]
    · rw [List.getElem?_eq_none (by simp; omega), List.getElem?_eq_none (by simp; omega)]

/-- **Writing behind the list appends to it.** -/
theorem write_of (b : β) (h : l.length < n) :
    (of l : Cells β n).write l.length b = some (of (l ++ [b])) := by
  rw [← of_append_zero l]
  exact write_of_append 0 b h

theorem front_of (h : l.length ≤ n) : (of l : Cells β n).front l.length = l := by
  refine List.ext_getElem? fun i => ?_
  rw [front, List.getElem?_take]
  split
  · next hi =>
    rw [List.getElem?_ofFn, dif_pos (by omega)]
    simp [of, List.getD, List.getElem?_eq_getElem hi]
  · next hi => rw [List.getElem?_eq_none (by omega)]

theorem startsWith_of [DecidableEq β] : ∀ {text pre rest : List β},
    (pre ++ (text ++ rest)).length ≤ n →
    (of (pre ++ (text ++ rest)) : Cells β n).startsWith text pre.length = some true
  | [], _, _, _ => rfl
  | c :: text, pre, rest, h => by
      have ih : (of (pre ++ [c] ++ (text ++ rest)) : Cells β n).startsWith text
          (pre ++ [c]).length = some true := startsWith_of (by simpa using h)
      rw [List.append_assoc, List.singleton_append, List.length_append, List.length_singleton] at ih
      rw [List.cons_append, startsWith, read_of_append (by simpa using h), Option.bind_eq_bind,
        Option.bind_some, if_pos rfl]
      exact ih

/-- **A loop over the run of a class of characters**, up to the first that is not of it. -/
theorem foldWhile_of {p : β → Bool} (f : σ → β → σ) : ∀ {k : ℕ} {d pre rest : List β} {c : β}
    (s : σ), (pre ++ (d ++ c :: rest)).length ≤ n → (∀ b ∈ d, p b = true) → p c = false →
    d.length < k →
    (of (pre ++ (d ++ c :: rest)) : Cells β n).foldWhile p f k pre.length s =
      some (d.foldl f s, pre.length + d.length)
  | 0, _, _, _, _, _, _, _, _, hk => absurd hk (Nat.not_lt_zero _)
  | k + 1, [], pre, rest, c, s, h, _, hc, _ => by
      rw [List.nil_append, foldWhile, read_of_append h, Option.bind_eq_bind, Option.bind_some,
        if_neg (by simp [hc])]
      rfl
  | k + 1, b :: d, pre, rest, c, s, h, hd, hc, hk => by
      have ih : (of (pre ++ [b] ++ (d ++ c :: rest)) : Cells β n).foldWhile p f k
          (pre ++ [b]).length (f s b) = some (d.foldl f (f s b), (pre ++ [b]).length + d.length) :=
        foldWhile_of f (f s b) (by simpa using h)
          (fun b' hb' => hd b' (List.mem_cons_of_mem _ hb')) hc (Nat.lt_of_succ_lt_succ hk)
      rw [List.append_assoc, List.singleton_append, List.length_append, List.length_singleton] at ih
      rw [List.cons_append, foldWhile, read_of_append (by simpa using h), Option.bind_eq_bind,
        Option.bind_some, if_pos (hd b List.mem_cons_self), ih, List.foldl_cons, List.length_cons,
        Nat.add_right_comm, Nat.add_assoc]

theorem stringAt_of [DecidableEq β] : ∀ {k : ℕ} {rest pre : List β},
    (pre ++ rest).length < n → rest.length < k →
    (of (pre ++ rest) : Cells β n).stringAt k pre.length = some (rest.takeWhile (· ≠ 0))
  | 0, _, _, _, hk => absurd hk (Nat.not_lt_zero _)
  | k + 1, [], pre, h, _ => by
      rw [List.append_nil] at h
      have hend : pre.getD pre.length 0 = 0 := by simp [List.getD]
      rw [List.append_nil, stringAt, read_of h, hend, Option.bind_eq_bind, Option.bind_some,
        if_pos rfl]
      rfl
  | k + 1, b :: rest, pre, h, hk => by
      rw [stringAt, read_of_append h.le, Option.bind_eq_bind, Option.bind_some]
      by_cases hb : b = 0
      · rw [if_pos hb, List.takeWhile_cons_of_neg (by simp [hb])]
      · have ih : (of (pre ++ [b] ++ rest) : Cells β n).stringAt k (pre ++ [b]).length =
            some (rest.takeWhile (· ≠ 0)) :=
          stringAt_of (by simpa using h) (Nat.lt_of_succ_lt_succ hk)
        rw [List.append_assoc, List.singleton_append, List.length_append, List.length_singleton]
          at ih
        rw [if_neg hb, ih, List.takeWhile_cons_of_pos (by simp [hb])]
        rfl

end Cells

end GrainWarehouse
