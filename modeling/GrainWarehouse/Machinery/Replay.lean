import GrainWarehouse.Machinery.Fifo

/-!
# Machinery/Replay — callers that wait for a shared object, and what they may conclude

An object answers a request or refuses it for now (`Attempt`).  Its callers come in any order, and
one that is refused may try again later or give up.  `Replays f s os t` says what such a history
`os` is worth: **from `s`, the answers are those of the object asked by one caller at a time, in the
order of `os`**, they lead to `t`, and whoever gave up had been refused while he was there.

For a bounded queue (`Fifo.attempt`): as long as nobody pushes in front or overwrites, what was
received and what is still queued is what was sent, in order (`Replays.received_append`).
-/

namespace GrainWarehouse

variable {ρ β σ α : Type*} {cap : ℕ}

/-- An answer and the state behind it, or a refusal. -/
abbrev Attempt (ρ β σ : Type*) := ρ → σ → Option (β × σ)

/-- How a request ended, when `since` others had ended as it was made: it was answered, or its
caller gave up, having been refused when `refused` others had ended. -/
inductive Outcome (ρ β : Type*)
  | answered (since : ℕ) (r : ρ) (b : β)
  | gaveUp (since refused : ℕ) (r : ρ)
  deriving DecidableEq

/-- **These outcomes are those of one caller after the other**, and lead from `s` to this state. -/
inductive Replays (f : Attempt ρ β σ) (s : σ) : List (Outcome ρ β) → σ → Prop
  | nil : Replays f s [] s
  | answered {os : List (Outcome ρ β)} {t t' : σ} {since : ℕ} {r : ρ} {b : β} :
      Replays f s os t → since ≤ os.length → f r t = some (b, t') →
        Replays f s (os ++ [.answered since r b]) t'
  | gaveUp {os : List (Outcome ρ β)} {t t₀ : σ} {since k : ℕ} {r : ρ} :
      Replays f s os t → since ≤ k → k ≤ os.length → Replays f s (os.take k) t₀ → f r t₀ = none →
        Replays f s (os ++ [.gaveUp since k r]) t

/-- `r` was refused when `k` of these had ended, `since` at the earliest. -/
def RefusedAt (f : Attempt ρ β σ) (s : σ) (os : List (Outcome ρ β)) (since k : ℕ) (r : ρ) : Prop :=
  since ≤ k ∧ k ≤ os.length ∧ ∃ t, Replays f s (os.take k) t ∧ f r t = none

/-- **A refusal stays one** as others come to their end. -/
theorem RefusedAt.append {f : Attempt ρ β σ} {s : σ} {os : List (Outcome ρ β)} {since k : ℕ}
    {r : ρ} (h : RefusedAt f s os since k r) (o : Outcome ρ β) :
    RefusedAt f s (os ++ [o]) since k r := by
  obtain ⟨hsince, hk, t, ht, hrefuse⟩ := h
  refine ⟨hsince, ?_, t, ?_, hrefuse⟩
  · rw [List.length_append]
    exact Nat.le_add_right_of_le hk
  · rwa [List.take_append_of_le_length hk]

/-- A refusal now. -/
theorem Replays.refusedAt {f : Attempt ρ β σ} {s t : σ} {os : List (Outcome ρ β)} {since : ℕ}
    {r : ρ} (h : Replays f s os t) (hsince : since ≤ os.length) (hrefuse : f r t = none) :
    RefusedAt f s os since os.length r :=
  ⟨hsince, Nat.le_refl _, t, by rwa [List.take_length], hrefuse⟩

/-- Giving up after a refusal. -/
theorem RefusedAt.gaveUp {f : Attempt ρ β σ} {s t : σ} {os : List (Outcome ρ β)} {since k : ℕ}
    {r : ρ} (h : RefusedAt f s os since k r) (hrun : Replays f s os t) :
    Replays f s (os ++ [.gaveUp since k r]) t := by
  obtain ⟨hsince, hk, t₀, ht₀, hrefuse⟩ := h
  exact hrun.gaveUp hsince hk ht₀ hrefuse

/-! ## A bounded queue -/

namespace Fifo

/-- Put `a` in front of the others, if there is room. -/
def sendFront (a : α) (q : Fifo α cap) : Option (Fifo α cap) :=
  if h : q.Room then some ⟨a :: q.items, h⟩ else none

/-- `a` takes the place of whatever there is. -/
def overwrite (a : α) (_q : Fifo α cap) : Option (Fifo α cap) :=
  if h : 0 < cap then some ⟨[a], h⟩ else none

/-- What a queue may be asked for. -/
inductive Request (α : Type*)
  | send (a : α)
  | sendFront (a : α)
  | overwrite (a : α)
  | receive
  | peek

/-- **What it does**: a reader gets an item, a sender gets nothing back. -/
def attempt : Attempt (Request α) (Option α) (Fifo α cap)
  | .send a, q => (q.send a).map fun q' => (none, q')
  | .sendFront a, q => (q.sendFront a).map fun q' => (none, q')
  | .overwrite a, q => (q.overwrite a).map fun q' => (none, q')
  | .receive, q => q.receive.map fun (a, q') => (some a, q')
  | .peek, q => q.items.head?.map fun a => (some a, q)

/-- A request that keeps the order. -/
def Request.Plain : Request α → Prop
  | .sendFront _ => False
  | .overwrite _ => False
  | _ => True

/-- What was put into the queue… -/
def sent : List (Outcome (Request α) (Option α)) → List α :=
  List.filterMap fun
    | .answered _ (.send a) _ => some a
    | _ => none

/-- …and what was taken out of it. -/
def received : List (Outcome (Request α) (Option α)) → List α :=
  List.filterMap fun
    | .answered _ .receive b => b
    | _ => none

end Fifo

/-- The request of an outcome. -/
def Outcome.req : Outcome ρ β → ρ
  | answered _ r _ => r
  | gaveUp _ _ r => r

/-- **Nothing is lost, doubled or reordered**: what was received, and then what is still there, is
what was sent. -/
theorem Replays.received_append {os : List (Outcome (Fifo.Request α) (Option α))}
    {q : Fifo α cap} (h : Replays Fifo.attempt Fifo.empty os q)
    (hplain : ∀ o ∈ os, o.req.Plain) : Fifo.received os ++ q.items = Fifo.sent os := by
  induction h with
  | nil => rfl
  | @answered os q q' since r b _ _ hr ih =>
    rw [List.forall_mem_append, List.forall_mem_singleton] at hplain
    have ih := ih hplain.1
    have hsent : Fifo.sent (os ++ [.answered since r b]) =
        Fifo.sent os ++ Fifo.sent [.answered since r b] := List.filterMap_append
    have hrecv : Fifo.received (os ++ [.answered since r b]) =
        Fifo.received os ++ Fifo.received [.answered since r b] := List.filterMap_append
    rw [hsent, hrecv]
    cases r with
    | send a =>
      obtain ⟨q₁, hq₁, heq⟩ := Option.map_eq_some_iff.mp hr
      obtain rfl : q₁ = q' := congrArg Prod.snd heq
      have hnone : Fifo.received [Outcome.answered since (.send a) b] = [] := rfl
      have hput : Fifo.sent [Outcome.answered since (.send a) b] = [a] := rfl
      rw [hnone, hput, Fifo.items_send hq₁, ← ih, List.append_nil, List.append_assoc]
    | sendFront a => exact absurd hplain.2 not_false
    | overwrite a => exact absurd hplain.2 not_false
    | receive =>
      obtain ⟨⟨a, q₁⟩, hq₁, heq⟩ := Option.map_eq_some_iff.mp hr
      obtain ⟨rfl, rfl⟩ := Prod.mk.inj heq
      have hitems := Fifo.items_receive hq₁
      have htaken : Fifo.received [.answered since .receive (some a)] = [a] := rfl
      have hnone : Fifo.sent [Outcome.answered since Fifo.Request.receive (some a)] = [] := rfl
      rw [htaken, hnone, List.append_nil, ← ih, hitems, List.append_assoc, List.singleton_append]
    | peek =>
      obtain ⟨a, -, heq⟩ := Option.map_eq_some_iff.mp hr
      obtain ⟨rfl, rfl⟩ := Prod.mk.inj heq
      have hnone : Fifo.received [Outcome.answered since Fifo.Request.peek (some a)] = [] := rfl
      have hnone' : Fifo.sent [Outcome.answered since Fifo.Request.peek (some a)] = [] := rfl
      rw [hnone, hnone', List.append_nil, List.append_nil, ih]
  | @gaveUp os q _ since k r _ _ _ _ _ ih _ =>
    rw [List.forall_mem_append] at hplain
    have hsent : Fifo.sent (os ++ [.gaveUp since k r]) = Fifo.sent os ++ [] :=
      List.filterMap_append
    have hrecv : Fifo.received (os ++ [.gaveUp since k r]) = Fifo.received os ++ [] :=
      List.filterMap_append
    rw [hsent, hrecv, List.append_nil, List.append_nil]
    exact ih hplain.1

end GrainWarehouse
