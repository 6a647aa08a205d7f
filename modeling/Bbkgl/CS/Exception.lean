import Bbkgl.CS.Transition

/-!
# Steps that throw

`throwing step raises` is a machine whose steps may end in an exception that nobody
catches. The environment's part in it is a second component of the input, and `raises`
says what is thrown by a step from one state to another. An exception ends the run in
the state before the step, so a run of the machine is a run of `step`, and perhaps the
step that throws (`reach_of_throwing`).
-/

set_option autoImplicit false

namespace CS
namespace Transition

variable {σ α β ε : Type*}

/-- The machine in which a step may raise an exception: the state stays as it was before the step,
and no step follows. -/
def throwing (step : σ → α → Option σ) (raises : σ → α → β → σ → Option ε) :
    σ × Option ε → α × β → Option (σ × Option ε)
  | (s, none), (a, b) => (step s a).map fun t =>
    match raises s a b t with
    | none => (t, none)
    | some e => (s, some e)
  | (_, some _), _ => none

variable {step : σ → α → Option σ} {raises : σ → α → β → σ → Option ε}
  {s₀ s : σ} {q q' : σ × Option ε} {x : α × β} {xs : List (α × β)} {e : ε}

/-- A step either is one of `step` that throws nothing, or leaves the state alone and throws. -/
theorem throwing_cases (h : throwing step raises q x = some q') : q.2 = none ∧
    ∃ t, step q.1 x.1 = some t ∧
      (raises q.1 x.1 x.2 t = none ∧ q' = (t, none) ∨
        ∃ e, raises q.1 x.1 x.2 t = some e ∧ q' = (q.1, some e)) := by
  obtain ⟨s, _ | e⟩ := q
  · obtain ⟨t, ht, hq'⟩ := Option.map_eq_some_iff.mp h
    refine ⟨rfl, t, ht, ?_⟩
    split at hq'
    · next hraises => exact Or.inl ⟨hraises, hq'.symm⟩
    · next e hraises => exact Or.inr ⟨e, hraises, hq'.symm⟩
  · exact absurd h (by simp [throwing])

/-- The run as far as nothing is thrown. -/
theorem reach_of_throwing (ok : σ → α → Prop)
    (h : Reach (throwing step raises) (fun q x => ok q.1 x.1) (s₀, none) xs q) :
    ∃ as, Reach step ok s₀ as q.1 := by
  induction h with
  | nil => exact ⟨[], .nil⟩
  | snoc _ hok hstep ih =>
    obtain ⟨as, hrun⟩ := ih
    obtain ⟨-, t, ht, ⟨-, rfl⟩ | ⟨e, -, rfl⟩⟩ := throwing_cases hstep
    · exact ⟨_, hrun.snoc hok ht⟩
    · exact ⟨as, hrun⟩

/-- What has been thrown, a step of the run has thrown. -/
theorem raises_of_throwing (ok : σ → α → Prop)
    (h : Reach (throwing step raises) (fun q x => ok q.1 x.1) (s₀, none) xs (s, some e)) :
    ∃ as a b t, Reach step ok s₀ as s ∧ ok s a ∧ step s a = some t ∧ raises s a b t = some e := by
  generalize hq : (s, some e) = q at h
  cases h with
  | nil => exact absurd hq (by simp)
  | @snoc xs x q q' hrun hok hstep =>
    obtain ⟨as, hreach⟩ := reach_of_throwing ok hrun
    obtain ⟨-, t, ht, ⟨-, rfl⟩ | ⟨e', hraises, rfl⟩⟩ := throwing_cases hstep
    · exact absurd hq (by simp)
    · obtain ⟨rfl, he⟩ := Prod.mk.inj hq
      obtain rfl := Option.some_inj.mp he
      exact ⟨as, x.1, x.2, t, hreach, hok, ht, hraises⟩

end Transition
end CS
