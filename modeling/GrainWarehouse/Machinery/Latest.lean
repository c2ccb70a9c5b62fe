import GrainWarehouse.Machinery.Runs

/-!
# Machinery/Latest — registers, and the last message that wrote them

A *register* is a view of the state that some messages set, whatever it was before, and all others
leave alone.  **After a run it is what the last message that sets it makes it**
(`Register.lastSets`), so that a run may be cut down to those messages (`Register.run_congr`).
-/

namespace GrainWarehouse

variable {σ κ β : Type*}

/-- `view` is a register of the messages `Own`. -/
structure Register (next : σ → κ → σ) (view : σ → β) (Own : κ → Prop) : Prop where
  own : ∀ a, Own a → ∀ s s', view (next s a) = view (next s' a)
  other : ∀ a, ¬ Own a → ∀ s, view (next s a) = view s

/-- After these messages `view` is what the last one of `Own` makes it, from any state; it is
untouched if there is none. -/
def LastSets (next : σ → κ → σ) (view : σ → β) (Own : κ → Prop) [DecidablePred Own] (s : σ)
    (as : List κ) : Prop :=
  match (as.filter Own).getLast? with
  | some a => ∀ s₀, view (runFrom next s as) = view (next s₀ a)
  | none => view (runFrom next s as) = view s

namespace Register

variable {next : σ → κ → σ} {view : σ → β} {Own : κ → Prop} (h : Register next view Own)

include h

/-- Without a message of its own a register stays. -/
theorem run_of_forall_not : ∀ (as : List κ) (s : σ), (∀ a ∈ as, ¬ Own a) →
    view (runFrom next s as) = view s
  | [], _, _ => rfl
  | a :: as, s, has => by
      rw [runFrom_cons, run_of_forall_not as _ fun b hb => has b (List.mem_cons_of_mem a hb)]
      exact h.other a (has a List.mem_cons_self) s

/-- **A run ends with what the last own message sets.** -/
theorem run_append_cons (pre : List κ) {a : κ} {post : List κ} (ha : Own a)
    (hpost : ∀ b ∈ post, ¬ Own b) (s s₀ : σ) :
    view (runFrom next s (pre ++ a :: post)) = view (next s₀ a) := by
  rw [runFrom_append, runFrom_cons, h.run_of_forall_not post _ hpost]
  exact h.own a ha _ s₀

variable [DecidablePred Own]

/-- …found by looking at the own messages only. -/
theorem run_of_getLast {as : List κ} {a : κ} (ha : (as.filter Own).getLast? = some a) (s s₀ : σ) :
    view (runFrom next s as) = view (next s₀ a) := by
  obtain ⟨own, hown⟩ := List.getLast?_eq_some_iff.mp ha
  obtain ⟨pre, post, rfl, -, hpost⟩ := List.filter_eq_append_iff.mp hown
  obtain ⟨mid, post, rfl, -, hOwn, hpost⟩ := List.filter_eq_cons_iff.mp hpost
  rw [← List.append_assoc]
  refine h.run_append_cons (pre ++ mid) (of_decide_eq_true hOwn) (fun b hb => ?_) s s₀
  simpa using List.filter_eq_nil_iff.mp hpost b hb

theorem run_of_filter_nil {as : List κ} (has : as.filter Own = []) (s : σ) :
    view (runFrom next s as) = view s :=
  h.run_of_forall_not as s fun a ha => by simpa using List.filter_eq_nil_iff.mp has a ha

/-- **The last own message sets a register.** -/
theorem lastSets (s : σ) (as : List κ) : LastSets next view Own s as := by
  rw [LastSets]
  split
  · next a ha => exact h.run_of_getLast ha s
  · next hnone => exact h.run_of_filter_nil (List.getLast?_eq_none_iff.mp hnone) s

/-- **Runs with the same own messages agree**, wherever the others stand. -/
theorem run_congr {as bs : List κ} (hab : as.filter Own = bs.filter Own) (s : σ) :
    view (runFrom next s as) = view (runFrom next s bs) := by
  cases hlast : (as.filter Own).getLast? with
  | some a => rw [h.run_of_getLast hlast s s, h.run_of_getLast (hab ▸ hlast) s s]
  | none =>
    have hnil := List.getLast?_eq_none_iff.mp hlast
    rw [h.run_of_filter_nil hnil, h.run_of_filter_nil (hab ▸ hnil)]

end Register

end GrainWarehouse
