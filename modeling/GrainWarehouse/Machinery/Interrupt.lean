import Mathlib.Data.List.ReduceOption

/-!
# Machinery/Interrupt — programs that an interrupt may cut between any two steps

A `Prog σ α` is a task over a state it shares with an interrupt: a tree of *atoms*, each of which
updates the state at once and goes on from the state it found.  A *schedule* lists what happens
next, `some k` for the interrupt with its data and `none` for an atom of the task; `exec` runs a
task under a schedule, to its end or to wherever the schedule stops.

`Sim V R p q` says that the task `p` does what the task `q` over another state does, from states
related by `R`; the relation between any two atoms must bear the interrupt.  `Sim.exec` is what that
is good for: under every schedule, `p` is where `q` is under a schedule with the same interrupts.
-/

namespace GrainWarehouse

/-- A task over a shared state: finished, or about to take an atom. -/
inductive Prog (σ α : Type) : Type
  | ret (a : α)
  | atom (upd : σ → σ) (next : σ → Prog σ α)

variable {σ τ κ ι α β γ : Type}

namespace Prog

protected def bind : Prog σ α → (α → Prog σ β) → Prog σ β
  | ret a, f => f a
  | atom upd next, f => atom upd fun s => (next s).bind f

instance : Monad (Prog σ) where
  pure := ret
  bind := Prog.bind

instance : LawfulMonad (Prog σ) := by
  refine LawfulMonad.mk' _ (fun p => ?_) (fun _ _ => rfl) fun p f g => ?_
  · induction p with
    | ret a => rfl
    | atom upd next ih => exact congrArg (atom upd) (funext ih)
  · induction p with
    | ret a => rfl
    | atom upd next ih => exact congrArg (atom upd) (funext ih)

/-- Read part of the state. -/
def load (f : σ → α) : Prog σ α := atom id fun s => ret (f s)

/-- Update the state. -/
def store (upd : σ → σ) : Prog σ Unit := atom upd fun _ => ret ()

/-- One task for each item, in order. -/
def each (f : ι → Prog σ α) : List ι → Prog σ (List α)
  | [] => ret []
  | i :: is => do
    let a ← f i
    let as ← each f is
    return a :: as

/-! ## Running under a schedule -/

/-- The task and the state after a schedule. -/
def exec (irq : κ → σ → σ) : List (Option κ) → Prog σ α → σ → Prog σ α × σ
  | [], p, s => (p, s)
  | some k :: sched, p, s => exec irq sched p (irq k s)
  | none :: sched, ret a, s => exec irq sched (ret a) s
  | none :: sched, atom upd next, s => exec irq sched (next s) (upd s)

/-- The task takes at most `n` atoms. -/
inductive Bounded : ℕ → Prog σ α → Prop
  | ret {n : ℕ} (a : α) : Bounded n (ret a)
  | atom {n : ℕ} {upd : σ → σ} {next : σ → Prog σ α} (h : ∀ s, Bounded n (next s)) :
      Bounded (n + 1) (atom upd next)

theorem Bounded.mono {p : Prog σ α} {m n : ℕ} (h : Bounded m p) (hmn : m ≤ n) : Bounded n p := by
  induction h generalizing n with
  | ret a => exact .ret a
  | atom _ ih =>
    obtain ⟨n, rfl⟩ := Nat.exists_eq_add_of_le' (Nat.one_le_of_lt hmn)
    exact .atom fun s => ih s (Nat.le_of_succ_le_succ hmn)

/-- **A bounded task has finished** once the schedule has granted it its atoms. -/
theorem Bounded.exec (irq : κ → σ → σ) : ∀ (sched : List (Option κ)) {n : ℕ} {p : Prog σ α}
    (s : σ), Bounded n p → n ≤ sched.countP Option.isNone →
      ∃ a, (exec irq sched p s).1 = .ret a
  | [], n, p, s, h, hn => by
      obtain rfl : n = 0 := Nat.le_zero.mp hn
      cases h with
      | ret a => exact ⟨a, rfl⟩
  | some k :: sched, n, p, s, h, hn => by
      rw [List.countP_cons_of_neg (by simp)] at hn
      exact Bounded.exec irq sched (irq k s) h hn
  | none :: sched, n, p, s, h, hn => by
      rw [List.countP_cons_of_pos rfl] at hn
      cases h with
      | ret a => exact Bounded.exec irq sched s (.ret (n := 0) a) (Nat.zero_le _)
      | atom h => exact Bounded.exec irq sched _ (h s) (Nat.le_of_succ_le_succ hn)

/-! ## One task does what another does -/

/-- The relation implies the `base` one, and the interrupt of either state preserves it. -/
structure Stable (irq : κ → σ → σ) (irq' : κ → τ → τ) (base R : σ → τ → Prop) : Prop where
  base : ∀ s t, R s t → base s t
  irq : ∀ k s t, R s t → R (irq k s) (irq' k t)

variable (irq : κ → σ → σ) (irq' : κ → τ → τ) (base : σ → τ → Prop)

/-- **The task `p` does what `q` does**, from states related by `R` and with results and states
related by `V`.  An atom of `p` is one of `q`, or none of its business. -/
inductive Sim (V : α → β → σ → τ → Prop) : (σ → τ → Prop) → Prog σ α → Prog τ β → Prop
  | ret {R : σ → τ → Prop} {a : α} {b : β} (hR : Stable irq irq' base R)
      (hV : ∀ s t, R s t → V a b s t) : Sim V R (ret a) (ret b)
  | skip {R : σ → τ → Prop} {upd : σ → σ} {next : σ → Prog σ α} {q : Prog τ β}
      (R' : σ → τ → σ → τ → Prop) (hR : Stable irq irq' base R)
      (hupd : ∀ s t, R s t → R' s t (upd s) t)
      (hnext : ∀ s t, R s t → Sim V (R' s t) (next s) q) : Sim V R (atom upd next) q
  | both {R : σ → τ → Prop} {upd : σ → σ} {next : σ → Prog σ α} {upd' : τ → τ}
      {next' : τ → Prog τ β} (R' : σ → τ → σ → τ → Prop) (hR : Stable irq irq' base R)
      (hupd : ∀ s t, R s t → R' s t (upd s) (upd' t))
      (hnext : ∀ s t, R s t → Sim V (R' s t) (next s) (next' t)) :
      Sim V R (atom upd next) (atom upd' next')

variable {irq irq' base}

namespace Sim

variable {V : α → β → σ → τ → Prop} {R : σ → τ → Prop} {p : Prog σ α} {q : Prog τ β}

theorem stable (h : Sim irq irq' base V R p q) : Stable irq irq' base R := by
  cases h with
  | ret hR => exact hR
  | skip R' hR => exact hR
  | both R' hR => exact hR

/-- A stronger relation to begin with. -/
theorem weaken {R₀ : σ → τ → Prop} (h : Sim irq irq' base V R p q)
    (hR₀ : Stable irq irq' base R₀) (hle : ∀ s t, R₀ s t → R s t) :
    Sim irq irq' base V R₀ p q := by
  cases h with
  | ret _ hV => exact .ret hR₀ fun s t hst => hV s t (hle s t hst)
  | skip R' _ hupd hnext =>
    exact .skip R' hR₀ (fun s t hst => hupd s t (hle s t hst)) fun s t hst =>
      hnext s t (hle s t hst)
  | both R' _ hupd hnext =>
    exact .both R' hR₀ (fun s t hst => hupd s t (hle s t hst)) fun s t hst =>
      hnext s t (hle s t hst)

/-- **One after the other**: the second tasks begin where the first have ended. -/
theorem bind {α' β' : Type} {W : α' → β' → σ → τ → Prop} {f : α → Prog σ α'} {g : β → Prog τ β'}
    (h : Sim irq irq' base V R p q) (hfg : ∀ a b, Sim irq irq' base W (V a b) (f a) (g b)) :
    Sim irq irq' base W R (p >>= f) (q >>= g) := by
  induction h with
  | ret hR hV => exact (hfg _ _).weaken hR hV
  | skip R' hR hupd _ ih => exact .skip R' hR hupd ih
  | both R' hR hupd _ ih => exact .both R' hR hupd ih

/-- A load of what the relation tells. -/
theorem load {f : σ → γ} {k : γ → Prog σ α} {x : γ} (hf : ∀ s t, R s t → f s = x)
    (h : Sim irq irq' base V R (k x) q) : Sim irq irq' base V R (load f >>= k) q :=
  .skip (fun _ _ => R) h.stable (fun _ _ hst => hst) fun s t hst => by
    change Sim irq irq' base V R (k (f s)) q
    rw [hf s t hst]
    exact h

/-- A store of either task. -/
theorem store {R' : σ → τ → Prop} {upd : σ → σ} {upd' : τ → τ} {k : Unit → Prog σ α}
    {k' : Unit → Prog τ β} (hR : Stable irq irq' base R)
    (hupd : ∀ s t, R s t → R' (upd s) (upd' t)) (h : Sim irq irq' base V R' (k ()) (k' ())) :
    Sim irq irq' base V R (store upd >>= k) (store upd' >>= k') :=
  .both (fun _ _ => R') hR hupd fun _ _ _ => h

/-- What is about neither state rides along. -/
theorem frame (P : Prop) (h : Sim irq irq' base V R p q) :
    Sim irq irq' base (fun a b s t => P ∧ V a b s t) (fun s t => P ∧ R s t) p q := by
  have stable {R : σ → τ → Prop} (hR : Stable irq irq' base R) :
      Stable irq irq' base fun s t => P ∧ R s t :=
    ⟨fun s t hst => hR.base s t hst.2, fun k s t hst => ⟨hst.1, hR.irq k s t hst.2⟩⟩
  induction h with
  | ret hR hV => exact .ret (stable hR) fun s t hst => ⟨hst.1, hV s t hst.2⟩
  | skip R' hR hupd _ ih =>
    exact .skip (fun s t s' t' => P ∧ R' s t s' t') (stable hR)
      (fun s t hst => ⟨hst.1, hupd s t hst.2⟩) fun s t hst => ih s t hst.2
  | both R' hR hupd _ ih =>
    exact .both (fun s t s' t' => P ∧ R' s t s' t') (stable hR)
      (fun s t hst => ⟨hst.1, hupd s t hst.2⟩) fun s t hst => ih s t hst.2

/-- Less to be shown of the results. -/
theorem mono {V' : α → β → σ → τ → Prop} (h : Sim irq irq' base V R p q)
    (hV : ∀ a b s t, V a b s t → V' a b s t) : Sim irq irq' base V' R p q := by
  induction h with
  | ret hR hst => exact .ret hR fun s t h => hV _ _ s t (hst s t h)
  | skip R' hR hupd _ ih => exact .skip R' hR hupd ih
  | both R' hR hupd _ ih => exact .both R' hR hupd ih

/-- **Under every schedule** the one task is where the other is, under a schedule with the same
interrupts; when it has finished, so has the other. -/
theorem exec : ∀ (sched : List (Option κ)) {R : σ → τ → Prop} {p : Prog σ α} {q : Prog τ β}
    {s : σ} {t : τ}, Sim irq irq' base V R p q → R s t →
    ∃ sched' : List (Option κ), sched'.reduceOption = sched.reduceOption ∧
      base (exec irq sched p s).2 (exec irq' sched' q t).2 ∧
      ∀ a, (exec irq sched p s).1 = .ret a → ∃ b, (exec irq' sched' q t).1 = .ret b ∧
        V a b (exec irq sched p s).2 (exec irq' sched' q t).2
  | [], R, p, q, s, t, h, hst => by
      refine ⟨[], rfl, h.stable.base s t hst, fun a ha => ?_⟩
      change p = .ret a at ha
      subst ha
      cases h with
      | ret _ hV => exact ⟨_, rfl, hV s t hst⟩
  | some k :: sched, R, p, q, s, t, h, hst => by
      obtain ⟨sched', hirqs, hrun⟩ := exec sched h (h.stable.irq k s t hst)
      exact ⟨some k :: sched', by simp [List.reduceOption_cons_of_some, hirqs], hrun⟩
  | none :: sched, R, p, q, s, t, h, hst => by
      cases h with
      | ret hR hV =>
        obtain ⟨sched', hirqs, hrun⟩ := exec sched (.ret hR hV) hst
        exact ⟨sched', by simp [List.reduceOption_cons_of_none, hirqs], hrun⟩
      | skip R' _ hupd hnext =>
        obtain ⟨sched', hirqs, hrun⟩ := exec sched (hnext s t hst) (hupd s t hst)
        exact ⟨sched', by simp [List.reduceOption_cons_of_none, hirqs], hrun⟩
      | both R' _ hupd hnext =>
        obtain ⟨sched', hirqs, hrun⟩ := exec sched (hnext s t hst) (hupd s t hst)
        exact ⟨none :: sched', by simp [List.reduceOption_cons_of_none, hirqs], hrun⟩

end Sim

end Prog

end GrainWarehouse
