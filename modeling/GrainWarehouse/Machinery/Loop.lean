import Mathlib

/-!
# Machinery/Loop — a loop whose body may leave it

A C loop `while (1) { … }` is a *body* `σ → Option σ`: `none` is a `return` or a `break`, `some s'`
the next round.  `loop body n` runs at most `n` rounds, and a measure that every round lowers turns
the bound into a fact (`loop_exit`): with enough rounds the loop has really left through its body.
`tryLoop` is the loop of a body that may also go wrong, and `tryLoop_exit` its rule.
What its rounds do to a part of the state is read off the states they begin in (`view_loop`).
-/

namespace GrainWarehouse

variable {σ : Type*} {body : σ → Option σ}

/-- At most `n` rounds of a loop body. -/
def loop (body : σ → Option σ) : ℕ → σ → σ
  | 0, s => s
  | n + 1, s =>
    match body s with
    | none => s
    | some s' => loop body n s'

theorem loop_of_none {s : σ} (h : body s = none) : ∀ n : ℕ, loop body n s = s
  | 0 => rfl
  | n + 1 => by simp only [loop, h]

theorem loop_succ_of_some {s s' : σ} (h : body s = some s') (n : ℕ) :
    loop body (n + 1) s = loop body n s' := by simp only [loop, h]

/-- **What a round preserves, the loop preserves.** -/
theorem loop_invariant {P : σ → Prop} (hstep : ∀ s s', body s = some s' → P s → P s') :
    ∀ (n : ℕ) (s : σ), P s → P (loop body n s)
  | 0, _, hs => hs
  | n + 1, s, hs => by
      cases hb : body s with
      | none => rwa [loop_of_none hb]
      | some s' =>
        rw [loop_succ_of_some hb]
        exact loop_invariant hstep n s' (hstep s s' hb hs)

/-- A loop does nothing, or lowers what each of its rounds lowers. -/
theorem loop_eq_or_lt {μ : σ → ℕ} (hμ : ∀ s s', body s = some s' → μ s' < μ s) :
    ∀ (n : ℕ) (s : σ), loop body n s = s ∨ μ (loop body n s) < μ s
  | 0, _ => Or.inl rfl
  | n + 1, s => by
      cases hb : body s with
      | none => exact Or.inl (loop_of_none hb _)
      | some s' =>
        rw [loop_succ_of_some hb]
        have hlt := hμ s s' hb
        rcases loop_eq_or_lt hμ n s' with h | h
        · exact Or.inr (h.symm ▸ hlt)
        · exact Or.inr (h.trans hlt)

/-- **Enough rounds leave the loop**: a measure that each round lowers bounds their number. -/
theorem loop_exit {μ : σ → ℕ} (hμ : ∀ s s', body s = some s' → μ s' < μ s) :
    ∀ (n : ℕ) (s : σ), μ s < n → body (loop body n s) = none
  | 0, _, hn => absurd hn (Nat.not_lt_zero _)
  | n + 1, s, hn => by
      cases hb : body s with
      | none => rw [loop_of_none hb, hb]
      | some s' =>
        rw [loop_succ_of_some hb]
        exact loop_exit hμ n s' (by have := hμ s s' hb; omega)

/-! ## A loop whose rounds may go wrong -/

/-- At most `n` rounds of a body that may go wrong: `none` where a round does, `some none` where the
rounds run out, and else the state in which the body left. -/
def tryLoop (body : σ → Option (Option σ)) : ℕ → σ → Option (Option σ)
  | 0, _ => some none
  | n + 1, s =>
    match body s with
    | none => none
    | some none => some (some s)
    | some (some s') => tryLoop body n s'

/-- **Rounds that go right and lower a measure** leave the loop, and nothing goes wrong on the way.
-/
theorem tryLoop_exit {body : σ → Option (Option σ)} {P : σ → Prop} {μ : σ → ℕ}
    (h : ∀ s, P s → ∃ o, body s = some o ∧ ∀ s' ∈ o, P s' ∧ μ s' < μ s) :
    ∀ {k : ℕ} {s : σ}, P s → μ s ≤ k →
      ∃ t, P t ∧ μ t ≤ μ s ∧ ∀ n, μ s < n → tryLoop body n s = some (some t)
  | k, s, hs, hk => by
      obtain ⟨o, hbody, hround⟩ := h s hs
      cases o with
      | none =>
        refine ⟨s, hs, le_rfl, fun n hn => ?_⟩
        obtain ⟨n, rfl⟩ := Nat.exists_eq_add_of_lt hn
        simp only [tryLoop, hbody]
      | some s' =>
        obtain ⟨hs', hlt⟩ := hround s' rfl
        cases k with
        | zero => exact absurd (hlt.trans_le hk) (Nat.not_lt_zero _)
        | succ k =>
          obtain ⟨t, ht, hle, hloop⟩ := tryLoop_exit h (k := k) hs' (by omega)
          refine ⟨t, ht, hle.trans hlt.le, fun n hn => ?_⟩
          obtain ⟨n, rfl⟩ := Nat.exists_eq_succ_of_ne_zero (Nat.ne_zero_of_lt hn)
          simp only [tryLoop, hbody]
          exact hloop n (by omega)

/-! ## The record of a loop -/

/-- The states in which the rounds of a loop begin. -/
def rounds (body : σ → Option σ) : ℕ → σ → List σ
  | 0, _ => []
  | n + 1, s =>
    match body s with
    | none => []
    | some s' => s :: rounds body n s'

/-- **A view that each round updates by entries of its own** is updated by those of all rounds, one
after the other. -/
theorem view_loop {β γ : Type*} {v : σ → β} {out : σ → List γ} {upd : β → γ → β}
    (h : ∀ s s', body s = some s' → v s' = (out s).foldl upd (v s)) :
    ∀ (n : ℕ) (s : σ), v (loop body n s) = ((rounds body n s).flatMap out).foldl upd (v s)
  | 0, _ => rfl
  | n + 1, s => by
      cases hb : body s with
      | none => simp only [loop_of_none hb, rounds, hb, List.flatMap_nil, List.foldl_nil]
      | some s' =>
        rw [loop_succ_of_some hb, view_loop h n s', h s s' hb]
        simp only [rounds, hb, List.flatMap_cons, List.foldl_append]

end GrainWarehouse
