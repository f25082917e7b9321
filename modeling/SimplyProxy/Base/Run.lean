import Mathlib.Data.List.Induction
import Mathlib.Logic.Function.Basic

/-!
# Runs of a labelled transition system

A run is the list of labels of the steps taken so far together with the state
they lead to. Labels are appended at the end, so the history that an invariant
talks about is the list itself, oldest label first.

`Run.alike`: what two systems keep in step holds of runs side by side.
`Simulates.run`: a system that is simulated by another one, with some of its labels
hidden, has runs of the other one behind its own.
`forall_pending`: what holds of the calls that the threads of a system have pending.
-/

namespace Runs

variable {σ α : Type*} {step : σ → α → σ → Prop} {s₀ : σ}

/-- `Run step s₀ labels s`: the steps with the given labels, in this order, lead
from `s₀` to `s`. -/
inductive Run (step : σ → α → σ → Prop) (s₀ : σ) : List α → σ → Prop
  | nil : Run step s₀ [] s₀
  | snoc {labels : List α} {s s' : σ} {a : α} :
      Run step s₀ labels s → step s a s' → Run step s₀ (labels ++ [a]) s'

/-- The invariant rule. The invariant may mention the whole history. -/
theorem Run.invariant {I : List α → σ → Prop} (init : I [] s₀)
    (keep : ∀ {labels s a s'}, I labels s → step s a s' → I (labels ++ [a]) s')
    {labels : List α} {s : σ} (run : Run step s₀ labels s) : I labels s := by
  induction run with
  | nil => exact init
  | snoc _ hstep ih => exact keep ih hstep

/-- Executing a partial step function on a list of labels makes a run. -/
theorem Run.of_foldlM {next : σ → α → Option σ} {labels : List α} {s : σ}
    (h : labels.foldlM next s₀ = some s) : Run (fun s a s' => next s a = some s') s₀ labels s := by
  induction labels using List.reverseRecOn generalizing s with
  | nil =>
    obtain rfl : s₀ = s := by simpa using h
    exact .nil
  | append_singleton labels a ih =>
    rw [List.foldlM_append, Option.bind_eq_bind, Option.bind_eq_some_iff] at h
    obtain ⟨mid, before, last⟩ := h
    exact .snoc (ih before) (by simpa using last)

/-- A run can be cut before any of its labels. -/
theorem Run.cut {labels : List α} {s : σ} (run : Run step s₀ labels s) :
    ∀ before a after, labels = before ++ a :: after →
      ∃ mid next, Run step s₀ before mid ∧ step mid a next := by
  induction run with
  | nil => simp
  | @snoc labels s s' a run hstep ih =>
    intro before b after split
    rcases List.eq_nil_or_concat after with rfl | ⟨after, last, rfl⟩
    · obtain ⟨rfl, equal⟩ := List.append_inj' split rfl
      obtain rfl := List.singleton_inj.mp equal
      exact ⟨s, s', run, hstep⟩
    · rw [List.concat_eq_append, ← List.cons_append, ← List.append_assoc] at split
      exact ih before b after (List.append_inj' split rfl).1

/-- A run can be cut between any two of its labels. -/
theorem Run.split {before after : List α} {s : σ} (run : Run step s₀ (before ++ after) s) :
    ∃ mid, Run step s₀ before mid ∧ Run step mid after s := by
  induction after using List.reverseRecOn generalizing s with
  | nil => exact ⟨s, by simpa using run, .nil⟩
  | append_singleton after a ih =>
    rw [← List.append_assoc] at run
    generalize h : before ++ after ++ [a] = labels at run
    cases run with
    | nil => simp at h
    | snoc run last =>
      obtain ⟨rfl, equal⟩ := List.append_inj' h rfl
      obtain rfl := List.singleton_inj.mp equal
      obtain ⟨mid, first, rest⟩ := ih run
      exact ⟨mid, first, rest.snoc last⟩

/-- What holds of all labels of a run holds of its steps. -/
theorem Run.restrict {P : α → Prop} {labels : List α} {s : σ} (run : Run step s₀ labels s)
    (all : ∀ a ∈ labels, P a) : Run (fun s a s' => step s a s' ∧ P a) s₀ labels s := by
  induction run with
  | nil => exact .nil
  | snoc _ last ih =>
    exact (ih fun a mem => all a (List.mem_append_left _ mem)).snoc ⟨last, all _ (by simp)⟩

/-- Two runs, maybe of two systems, side by side. When steps with the same input lead from
related states to related ones with the same output, then so do runs. -/
theorem Run.alike {τ β ι κ : Type*} {step' : τ → β → τ → Prop} {t₀ : τ} {R : σ → τ → Prop}
    {input : α → ι} {input' : β → ι} {output : α → κ} {output' : β → κ}
    (keep : ∀ {s t a b s' t'}, R s t → step s a s' → step' t b t' → input a = input' b →
      output a = output' b ∧ R s' t')
    (start : R s₀ t₀) {labels : List α} {labels' : List β} {s : σ} {t : τ}
    (run : Run step s₀ labels s) (run' : Run step' t₀ labels' t)
    (same : labels.map input = labels'.map input') :
    labels.map output = labels'.map output' ∧ R s t := by
  induction run generalizing labels' t with
  | nil =>
    cases run' with
    | nil => exact ⟨rfl, start⟩
    | snoc _ _ => simp at same
  | @snoc labels s s' a _ last ih =>
    cases run' with
    | nil => simp at same
    | @snoc labels' t t' b run' last' =>
      simp only [List.map_append, List.map_cons, List.map_nil] at same ⊢
      obtain ⟨before, inputs⟩ := List.append_inj' same rfl
      obtain ⟨outputs, related⟩ := ih run' before
      obtain ⟨output, related⟩ := keep related last last' (List.singleton_inj.mp inputs)
      exact ⟨by rw [outputs, output], related⟩

/-- When the input of a step determines its label and its result, the inputs of a run
determine the run. -/
theorem Run.determined {ι : Type*} {input : α → ι}
    (determined : ∀ {s a b t u}, step s a t → step s b u → input a = input b → a = b ∧ t = u)
    {labels labels' : List α} {s s' : σ} (run : Run step s₀ labels s)
    (run' : Run step s₀ labels' s') (same : labels.map input = labels'.map input) :
    labels = labels' ∧ s = s' := by
  have both : labels.map id = labels'.map id ∧ s = s' := by
    refine run.alike (fun equal first second inputs => ?_) rfl run' same
    subst equal
    exact determined first second inputs
  simpa using both

/-! ## Threads -/

/-- What holds of all pending calls, when one thread gets another call or none: of that call, and
still of those of the other threads. -/
theorem forall_pending {ι κ : Type*} [DecidableEq ι] {P : ι → κ → Prop} {pending : ι → Option κ}
    {thread : ι} {call : Option κ} (others : ∀ t ≠ thread, ∀ c, pending t = some c → P t c)
    (own : ∀ c, call = some c → P thread c) :
    ∀ t c, Function.update pending thread call t = some c → P t c :=
  (Function.forall_update_iff pending fun t held => ∀ c, held = some c → P t c).mpr ⟨own, others⟩

/-! ## Simulations -/

section Simulation
variable {τ β : Type*}

/-- Every step is hidden from the other system or one of its steps. `label` says which. -/
structure Simulates (step : σ → α → σ → Prop) (step' : τ → β → τ → Prop) (label : α → Option β)
    (R : σ → τ → Prop) : Prop where
  hidden : ∀ {s t a s'}, R s t → step s a s' → label a = none → R s' t
  visible : ∀ {s t a s' b}, R s t → step s a s' → label a = some b → ∃ t', step' t b t' ∧ R s' t'

/-- A run is simulated by the run with the labels that are not hidden. -/
theorem Simulates.run {step' : τ → β → τ → Prop} {label : α → Option β} {R : σ → τ → Prop}
    (sim : Simulates step step' label R) {t₀ : τ} (start : R s₀ t₀) {labels : List α} {s : σ}
    (run : Run step s₀ labels s) :
    ∃ t, Run step' t₀ (labels.filterMap label) t ∧ R s t := by
  refine run.invariant (I := fun labels s => ∃ t, Run step' t₀ (labels.filterMap label) t ∧ R s t)
    ⟨t₀, .nil, start⟩ ?_
  rintro labels s a s' ⟨t, behind, related⟩ hstep
  rw [List.filterMap_append]
  cases seen : label a with
  | none =>
    refine ⟨t, ?_, sim.hidden related hstep seen⟩
    simpa [seen] using behind
  | some b =>
    obtain ⟨t', next, related'⟩ := sim.visible related hstep seen
    refine ⟨t', ?_, related'⟩
    simpa [seen] using behind.snoc next

end Simulation

end Runs
