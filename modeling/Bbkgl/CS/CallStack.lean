import Bbkgl.CS.Transition
import Mathlib.Logic.Function.Basic

/-!
# Threads with call stacks

Threads share some data, and each has a stack of calls still to be made, the next
one on top. A step makes the next call of one thread: it changes the data and
leaves the calls that the thread makes in turn, before it goes on with the rest.
The input of a step says which thread it is and what the environment decides.

Where a call may be made is a relation `Home` between threads and calls. If a
call at home leaves only calls at home, and takes no other call's home away, then
no thread ever makes a call that is not at home there.
-/

set_option autoImplicit false

namespace CS

open Transition

/-- A state that all threads share, and each thread's stack of the calls still to be made, the
next one first. -/
structure CallStack (T F σ : Type*) where
  data : σ
  stack : T → List F

namespace CallStack

variable {T F σ ι : Type*} [DecidableEq T] {exec : T → ι → σ → F → Option (σ × List F)}
  {s₀ s t : CallStack T F σ} {a : T × ι} {as : List (T × ι)}

/-- A thread makes the call on top of its stack: it is replaced by the calls that it makes itself.
-/
def step (exec : T → ι → σ → F → Option (σ × List F)) (s : CallStack T F σ) (a : T × ι) :
    Option (CallStack T F σ) :=
  match s.stack a.1 with
  | [] => none
  | f :: fs => (exec a.1 a.2 s.data f).map fun (d, next) =>
      ⟨d, Function.update s.stack a.1 (next ++ fs)⟩

/-- A step pops the top call of its thread, lets it act on the data, and pushes what it calls. -/
theorem step_eq_some (h : step exec s a = some t) : ∃ f fs next,
    s.stack a.1 = f :: fs ∧ exec a.1 a.2 s.data f = some (t.data, next) ∧
      t.stack = Function.update s.stack a.1 (next ++ fs) := by
  rw [step] at h
  split at h
  · exact absurd h (by simp)
  · next f fs hstack =>
    obtain ⟨⟨d, next⟩, hexec, rfl⟩ := Option.map_eq_some_iff.mp h
    exact ⟨f, fs, next, hstack, hexec, rfl⟩

/-- All calls of all threads are at home. -/
def AtHome (Home : σ → T → F → Prop) (s : CallStack T F σ) : Prop :=
  ∀ u, ∀ f ∈ s.stack u, Home s.data u f

/-- What one call of one thread has to keep. -/
structure Keeps (exec : T → ι → σ → F → Option (σ × List F)) (Good : σ → Prop)
    (Home : σ → T → F → Prop) : Prop where
  good : ∀ {u k d f d' next}, Good d → Home d u f → exec u k d f = some (d', next) → Good d'
  next : ∀ {u k d f d' next}, Good d → Home d u f → exec u k d f = some (d', next) →
    ∀ g ∈ next, Home d' u g
  other : ∀ {u k d f d' next}, Good d → Home d u f → exec u k d f = some (d', next) →
    ∀ {v g}, Home d v g → Home d' v g

variable {Good : σ → Prop} {Home : σ → T → F → Prop}

/-- The step lemma of `Keeps`: good data stay good, and every thread's calls stay at home. -/
theorem Keeps.step (h : Keeps exec Good Home) (hgood : Good s.data) (hhome : AtHome Home s)
    (hstep : CallStack.step exec s a = some t) : Good t.data ∧ AtHome Home t := by
  obtain ⟨f, fs, next, hstack, hexec, hnext⟩ := step_eq_some hstep
  have hf : Home s.data a.1 f := hhome a.1 f (hstack ▸ List.mem_cons_self)
  refine ⟨h.good hgood hf hexec, fun u g hg => ?_⟩
  rw [hnext] at hg
  by_cases hu : u = a.1
  · subst hu
    rw [Function.update_self] at hg
    rcases List.mem_append.mp hg with hg | hg
    · exact h.next hgood hf hexec g hg
    · exact h.other hgood hf hexec (hhome a.1 g (hstack ▸ List.mem_cons_of_mem f hg))
  · rw [Function.update_of_ne hu] at hg
    exact h.other hgood hf hexec (hhome u g hg)

/-- The calls stay at home over a whole run. -/
theorem Keeps.reach (h : Keeps exec Good Home) {ok : CallStack T F σ → T × ι → Prop}
    (hrun : Reach (CallStack.step exec) ok s₀ as s) (hgood : Good s₀.data)
    (hhome : AtHome Home s₀) : Good s.data ∧ AtHome Home s :=
  hrun.invariant (I := fun s => Good s.data ∧ AtHome Home s) ⟨hgood, hhome⟩
    fun _ hs _ hstep => h.step hs.1 hs.2 hstep

end CallStack
end CS
