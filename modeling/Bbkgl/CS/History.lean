import Bbkgl.CS.Transition

/-!
# Machines with a record

A record kept beside the state of a machine: every step is that of the machine,
and the record is brought up to date from the state before the step. It restricts
nothing, so a property of all runs may be stated with the help of a record.
-/

set_option autoImplicit false

namespace CS
namespace Transition

variable {σ η α : Type*}

/-- The machine `step` with the record `record` beside it. -/
def recorded (step : σ → α → Option σ) (record : σ → η → α → η) (q : σ × η) (a : α) :
    Option (σ × η) :=
  (step q.1 a).map fun t => (t, record q.1 q.2 a)

variable {step : σ → α → Option σ} {record : σ → η → α → η} {ok : σ → α → Prop} {s₀ s : σ}
  {h₀ : η} {q r : σ × η} {as : List α} {a : α}

/-- A recorded step is a step, with its record. -/
theorem recorded_eq_some_iff :
    recorded step record q a = some r ↔ step q.1 a = some r.1 ∧ record q.1 q.2 a = r.2 := by
  rw [recorded, Option.map_eq_some_iff]
  constructor
  · rintro ⟨t, hstep, rfl⟩
    exact ⟨hstep, rfl⟩
  · rintro ⟨hstep, hrecord⟩
    exact ⟨r.1, hstep, by rw [hrecord]⟩

/-- Every run of the machine can be recorded. -/
theorem Reach.exists_record (h : Reach step ok s₀ as s) (h₀ : η) :
    ∃ h' : η, Reach (recorded step record) (fun q a => ok q.1 a) (s₀, h₀) as (s, h') := by
  induction h with
  | nil => exact ⟨h₀, .nil⟩
  | snoc _ ha hstep ih =>
    obtain ⟨h', hrun⟩ := ih
    exact ⟨_, hrun.snoc ha (recorded_eq_some_iff.mpr ⟨hstep, rfl⟩)⟩

/-- A recorded run is a run of the machine, whatever its steps had to meet. -/
theorem Reach.forget {okRecorded : σ × η → α → Prop}
    (h : Reach (recorded step record) okRecorded q as r)
    (hok : ∀ {bs t a}, Reach (recorded step record) okRecorded q bs t → okRecorded t a → ok t.1 a) :
    Reach step ok q.1 as r.1 := by
  induction h with
  | nil => exact .nil
  | snoc hrun ha hstep ih => exact ih.snoc (hok hrun ha) (recorded_eq_some_iff.mp hstep).1

/-- A part of a record that is kept by itself. -/
theorem Reach.project {θ : Type*} {record' : σ → θ → α → θ} (part : η → θ)
    {okRecorded : σ × η → α → Prop} {okPart : σ × θ → α → Prop}
    (h : Reach (recorded step record) okRecorded q as r)
    (hpart : ∀ s h a, part (record s h a) = record' s (part h) a)
    (hok : ∀ t a, okRecorded t a → okPart (t.1, part t.2) a) :
    Reach (recorded step record') okPart (q.1, part q.2) as (r.1, part r.2) := by
  induction h with
  | nil => exact .nil
  | snoc _ ha hstep ih =>
    obtain ⟨hmachine, hrecord⟩ := recorded_eq_some_iff.mp hstep
    refine ih.snoc (hok _ _ ha) (recorded_eq_some_iff.mpr ⟨hmachine, ?_⟩)
    rw [← hpart, hrecord]

end Transition
end CS
