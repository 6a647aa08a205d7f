import Mathlib.Data.List.Basic

/-!
# Runs of a machine with inputs

A machine is a partial function `step : σ → α → Option σ`: everything the
environment decides (the scheduler, the kernel's answers, what user code does
next) is in the input, and `none` says that the input is not possible in that
state. `Reach step ok s₀ as s` is a run from `s₀` to `s` through the inputs
`as`, each of them admitted by `ok` in the state in which it was taken.

An invariant is proved once, from one step, by `Reach.invariant`. Two machines
are compared by `Reach.simulation`.
-/

set_option autoImplicit false

namespace CS
namespace Transition

variable {σ τ α : Type*}

/-- Feed a list of inputs to the machine, oldest first. -/
def run (step : σ → α → Option σ) : σ → List α → Option σ
  | s, [] => some s
  | s, a :: as => (step s a).bind fun t => run step t as

/-- A run: the inputs `as` lead from `s₀` to `s`, and `ok` admitted each of
them in the state in which it was taken. -/
inductive Reach (step : σ → α → Option σ) (ok : σ → α → Prop) (s₀ : σ) :
    List α → σ → Prop
  | nil : Reach step ok s₀ [] s₀
  | snoc {as : List α} {a : α} {s t : σ} :
      Reach step ok s₀ as s → ok s a → step s a = some t → Reach step ok s₀ (as ++ [a]) t

/-- The condition that admits every input. -/
def Always (_ : σ) (_ : α) : Prop := True

/-- The machine given by a guard and an effect. -/
def guarded (guard : σ → α → Bool) (effect : σ → α → σ) (s : σ) (a : α) : Option σ :=
  if guard s a then some (effect s a) else none

variable {step : σ → α → Option σ} {ok ok' : σ → α → Prop} {s₀ s t : σ} {as bs : List α} {a : α}

/-- A guarded step is one whose guard holds. -/
theorem guarded_eq_some_iff {guard : σ → α → Bool} {effect : σ → α → σ} :
    guarded guard effect s a = some t ↔ guard s a = true ∧ effect s a = t := by
  simp [guarded]

@[simp] theorem run_nil : run step s [] = some s := rfl

@[simp] theorem run_cons : run step s (a :: as) = (step s a).bind fun t => run step t as := rfl

/-- A run of two parts. -/
theorem run_append :
    run step s (as ++ bs) = (run step s as).bind fun t => run step t bs := by
  induction as generalizing s with
  | nil => rfl
  | cons a as ih =>
    simp only [List.cons_append, run_cons]
    cases step s a with
    | none => rfl
    | some u => exact ih

theorem run_concat : run step s (as ++ [a]) = (run step s as).bind fun t => step t a := by
  rw [run_append]
  congr 1
  funext t
  simp

/-- A run under a condition is a run. -/
theorem Reach.run_eq (h : Reach step ok s₀ as s) : run step s₀ as = some s := by
  induction h with
  | nil => rfl
  | snoc _ _ hstep ih => rw [run_concat, ih]; exact hstep

/-- A weaker condition, or a step function with more steps, has more runs. -/
theorem Reach.mono {step' : σ → α → Option σ} (h : Reach step ok s₀ as s)
    (himp : ∀ s a t, ok s a → step s a = some t → ok' s a ∧ step' s a = some t) :
    Reach step' ok' s₀ as s := by
  induction h with
  | nil => exact .nil
  | snoc _ ha hstep ih =>
    obtain ⟨ha', hstep'⟩ := himp _ _ _ ha hstep
    exact ih.snoc ha' hstep'

/-- What follows for a step may use the run that led to it. -/
theorem Reach.imp (h : Reach step ok s₀ as s)
    (himp : ∀ {as s a t}, Reach step ok s₀ as s → ok s a → step s a = some t → ok' s a) :
    Reach step ok' s₀ as s := by
  induction h with
  | nil => exact .nil
  | snoc hrun ha hstep ih => exact ih.snoc (himp hrun ha hstep) hstep

theorem Reach.always (h : Reach step ok s₀ as s) : Reach step Always s₀ as s :=
  h.mono fun _ _ _ _ hstep => ⟨trivial, hstep⟩

/-- What holds of every input of a run may be assumed of each of its steps. -/
theorem Reach.restrict {p : α → Prop} (h : Reach step ok s₀ as s) (hp : ∀ a ∈ as, p a) :
    Reach step (fun s a => ok s a ∧ p a) s₀ as s := by
  induction h with
  | nil => exact .nil
  | snoc _ ha hstep ih =>
    have hinit := ih fun a hmem => hp a (List.mem_append_left _ hmem)
    exact hinit.snoc ⟨ha, hp _ (List.mem_append_right _ (List.mem_singleton_self _))⟩ hstep

/-- Runs can be joined. -/
theorem Reach.append (h : Reach step ok s₀ as s) (h' : Reach step ok s bs t) :
    Reach step ok s₀ (as ++ bs) t := by
  induction h' with
  | nil => simpa using h
  | snoc _ ha hstep ih =>
    rw [← List.append_assoc]
    exact ih.snoc ha hstep

/-- `run`, stopping at the first input that `ok` does not admit. -/
def runIf (step : σ → α → Option σ) (ok : σ → α → Prop) [∀ s a, Decidable (ok s a)] :
    σ → List α → Option σ
  | s, [] => some s
  | s, a :: as => if ok s a then (step s a).bind fun t => runIf step ok t as else none

/-- A run whose condition has been checked on the way. -/
theorem reach_of_runIf [∀ s a, Decidable (ok s a)] (h : runIf step ok s₀ as = some s) :
    Reach step ok s₀ as s := by
  induction as generalizing s₀ with
  | nil =>
    obtain rfl := Option.some_inj.mp h
    exact .nil
  | cons a as ih =>
    simp only [runIf, Option.ite_none_right_eq_some, Option.bind_eq_some_iff] at h
    obtain ⟨ha, u, hu, hrest⟩ := h
    have hhead : Reach step ok s₀ [a] u := Reach.snoc .nil ha hu
    exact hhead.append (ih hrest)

/-- The run to the state that is computed. -/
theorem reach_get [∀ s a, Decidable (ok s a)] (h : (runIf step ok s₀ as).isSome = true) :
    Reach step ok s₀ as (Option.get _ h) :=
  reach_of_runIf (Option.some_get h).symm

/-- Every list of inputs that the machine accepts is a run. -/
theorem reach_of_run (h : run step s₀ as = some s) : Reach step Always s₀ as s := by
  induction as generalizing s₀ with
  | nil =>
    obtain rfl := Option.some_inj.mp h
    exact .nil
  | cons a as ih =>
    obtain ⟨u, hu, hrest⟩ := Option.bind_eq_some_iff.mp h
    have hhead : Reach step Always s₀ [a] u := Reach.snoc .nil trivial hu
    exact hhead.append (ih hrest)

/-- The invariant rule. The step may use the run that led to its state, and so
every invariant already proved of runs. -/
theorem Reach.invariant {I : σ → Prop} (h : Reach step ok s₀ as s) (init : I s₀)
    (preserved : ∀ {as s a t}, Reach step ok s₀ as s → I s → ok s a → step s a = some t → I t) :
    I s := by
  induction h with
  | nil => exact init
  | snoc hrun ha hstep ih => exact preserved hrun ih ha hstep

/-- A run in which `I` holds after every step is one with only steps that `ok` admits,
if this is so of each step that is taken where `I` holds. -/
theorem reach_iff_of_step {I : σ → Prop} (init : I s₀)
    (hstep : ∀ {as s a t}, Reach step Always s₀ as s → I s → step s a = some t → (I t ↔ ok s a)) :
    Reach step (fun s a => ∀ t, step s a = some t → I t) s₀ as s ↔ Reach step ok s₀ as s := by
  constructor
  · intro h
    have hI : ∀ {as s}, Reach step (fun s a => ∀ t, step s a = some t → I t) s₀ as s → I s :=
      fun hrun => hrun.invariant init fun _ _ hkeeps ht => hkeeps _ ht
    exact h.imp fun hrun hkeeps ht => (hstep hrun.always (hI hrun) ht).mp (hkeeps _ ht)
  · intro h
    have hI : ∀ {as s}, Reach step ok s₀ as s → I s :=
      fun hrun => hrun.invariant init fun hrun hs ha ht => (hstep hrun.always hs ht).mpr ha
    refine h.imp fun hrun ha _ t ht => (hstep hrun.always (hI hrun) ht).mpr ha

/-- Forward simulation into a machine that is a total function of the same
inputs: related states stay related along every run. -/
theorem Reach.simulation {spec : τ → α → τ} {R : σ → τ → Prop} {q₀ : τ}
    (h : Reach step ok s₀ as s) (init : R s₀ q₀)
    (simulates : ∀ {s a t q}, R s q → ok s a → step s a = some t → R t (spec q a)) :
    R s (as.foldl spec q₀) := by
  induction h with
  | nil => exact init
  | snoc _ ha hstep ih =>
    rw [List.foldl_append]
    exact simulates ih ha hstep

/-- A run of a machine with finer steps is a run of the other, in which the steps without
a label are not seen. -/
theorem Reach.stuttering {β : Type*} {step' : τ → β → Option τ} {view : σ → τ}
    {label : α → Option β} (h : Reach step ok s₀ as s)
    (hnone : ∀ {as s a t}, Reach step ok s₀ as s → step s a = some t → label a = none →
      view t = view s)
    (hsome : ∀ {as s a t b}, Reach step ok s₀ as s → step s a = some t → label a = some b →
      step' (view s) b = some (view t)) :
    Reach step' Always (view s₀) (as.filterMap label) (view s) := by
  induction h with
  | nil => exact .nil
  | @snoc as a s t hrun _ hstep ih =>
    rw [List.filterMap_append]
    cases hlabel : label a with
    | none =>
      rw [List.filterMap_cons_none hlabel, List.filterMap_nil, List.append_nil,
        hnone hrun hstep hlabel]
      exact ih
    | some b =>
      rw [List.filterMap_cons_some hlabel, List.filterMap_nil]
      exact ih.snoc trivial (hsome hrun hstep hlabel)

/-- `ok` admits every input of the run of `as` from `s`, as far as there is one. -/
def Admits (step : σ → α → Option σ) (ok : σ → α → Prop) : σ → List α → Prop
  | _, [] => True
  | s, a :: as => ok s a ∧ ∀ t, step s a = some t → Admits step ok t as

/-- A condition that every input meets, in whatever state. -/
theorem admits_of_forall (h : ∀ a ∈ as, ∀ s, ok s a) : Admits step ok s as := by
  induction as generalizing s with
  | nil => trivial
  | cons a as ih =>
    exact ⟨h a List.mem_cons_self s, fun t _ => ih fun b hb => h b (List.mem_cons_of_mem a hb)⟩

theorem admits_always : Admits step Always s as := admits_of_forall fun _ _ _ => trivial

/-- A run whose every step is admitted. -/
theorem reach_of_admits (hadmits : Admits step ok s₀ as) (h : run step s₀ as = some s) :
    Reach step ok s₀ as s := by
  induction as generalizing s₀ with
  | nil =>
    obtain rfl := Option.some_inj.mp h
    exact .nil
  | cons a as ih =>
    obtain ⟨u, hu, hrest⟩ := Option.bind_eq_some_iff.mp h
    have hhead : Reach step ok s₀ [a] u := Reach.snoc .nil hadmits.1 hu
    exact hhead.append (ih (hadmits.2 u hu) hrest)

end Transition
end CS
