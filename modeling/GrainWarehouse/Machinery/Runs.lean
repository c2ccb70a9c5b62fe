import Mathlib.Data.List.Basic

/-!
# Machinery/Runs — runs of a transition function, and what their steps meet

A run applies a list of actions to a state.  `EachStep next C s as` says that each step of the run
meets `C`, a condition on the state before it and on its action.  **What a step preserves under
`C`, a run preserves** (`EachStep.run`), and what it guarantees it guarantees everywhere
(`EachStep.imp`).
-/

namespace GrainWarehouse

variable {σ κ : Type*} {next : σ → κ → σ}

/-- The state after these actions. -/
def runFrom (next : σ → κ → σ) (s : σ) (as : List κ) : σ := as.foldl next s

@[simp] theorem runFrom_nil (s : σ) : runFrom next s [] = s := rfl

@[simp] theorem runFrom_cons (s : σ) (a : κ) (as : List κ) :
    runFrom next s (a :: as) = runFrom next (next s a) as := rfl

theorem runFrom_append (s : σ) (as bs : List κ) :
    runFrom next s (as ++ bs) = runFrom next (runFrom next s as) bs := List.foldl_append

/-- **What every step preserves, a run preserves.** -/
theorem runFrom_invariant {P : σ → Prop} (hP : ∀ s a, P s → P (next s a)) :
    ∀ (as : List κ) {s : σ}, P s → P (runFrom next s as)
  | [], _, h => h
  | a :: as, _, h => runFrom_invariant hP as (hP _ a h)

/-- Each step of the run meets `C`. -/
def EachStep (next : σ → κ → σ) (C : σ → κ → Prop) : σ → List κ → Prop
  | _, [] => True
  | s, a :: as => C s a ∧ EachStep next C (next s a) as

instance decidableEachStep {C : σ → κ → Prop} [∀ s a, Decidable (C s a)] :
    ∀ (s : σ) (as : List κ), Decidable (EachStep next C s as)
  | _, [] => inferInstanceAs (Decidable True)
  | s, a :: as =>
    have : Decidable (EachStep next C (next s a) as) := decidableEachStep (next s a) as
    inferInstanceAs (Decidable (C s a ∧ EachStep next C (next s a) as))

namespace EachStep

variable {C D : σ → κ → Prop} {P : σ → Prop}

/-- **An invariant of the steps that meet `C`**, at the end of a run of such steps. -/
theorem run (hP : ∀ s a, P s → C s a → P (next s a)) :
    ∀ (as : List κ) {s : σ}, P s → EachStep next C s as → P (runFrom next s as)
  | [], _, h, _ => h
  | _ :: as, _, h, hs => run hP as (hP _ _ h hs.1) hs.2

/-- …and at each of its steps, where it may give more. -/
theorem imp (hP : ∀ s a, P s → C s a → P (next s a)) (hD : ∀ s a, P s → C s a → D s a) :
    ∀ (as : List κ) {s : σ}, P s → EachStep next C s as → EachStep next D s as
  | [], _, _, _ => trivial
  | _ :: as, _, h, hs => ⟨hD _ _ h hs.1, imp hP hD as (hP _ _ h hs.1) hs.2⟩

/-- Steps that meet two conditions. -/
theorem and : ∀ {as : List κ} {s : σ}, EachStep next C s as → EachStep next D s as →
    EachStep next (fun s a => C s a ∧ D s a) s as
  | [], _, _, _ => trivial
  | _ :: _, _, hC, hD => ⟨⟨hC.1, hD.1⟩, hC.2.and hD.2⟩

/-- A run in two parts. -/
theorem append_iff : ∀ {as bs : List κ} {s : σ}, EachStep next C s (as ++ bs) ↔
    EachStep next C s as ∧ EachStep next C (runFrom next s as) bs
  | [], _, _ => ⟨fun h => ⟨trivial, h⟩, And.right⟩
  | a :: as, bs, s => by
      rw [List.cons_append, EachStep, append_iff, EachStep, and_assoc, runFrom_cons]

/-- A condition on the actions alone… -/
theorem of_forall : ∀ {as : List κ} {s : σ}, (∀ s, ∀ a ∈ as, C s a) → EachStep next C s as
  | [], _, _ => trivial
  | a :: _, s, h =>
    ⟨h s a List.mem_cons_self, of_forall fun s b hb => h s b (List.mem_cons_of_mem a hb)⟩

/-- …is one on the list of them. -/
theorem const_iff (next : σ → κ → σ) (s : σ) {C : κ → Prop} {as : List κ} :
    EachStep next (fun _ a => C a) s as ↔ ∀ a ∈ as, C a := by
  induction as generalizing s with
  | nil => simp [EachStep]
  | cons a as ih => rw [EachStep, ih, List.forall_mem_cons]

end EachStep

end GrainWarehouse
