/-!
# Iteration to a fixed point

A step is repeated until it changes nothing or the fuel is used up. The sets computed for an
automaton are fixed points of steps that only add, so a bound on what can be added is fuel enough.
-/

namespace ShiftReduce

/-- Repeats a step until the value stays the same. -/
def untilStable {α : Type} [DecidableEq α] (step : α → α) : Nat → α → α
  | 0, x => x
  | fuel + 1, x => if step x = x then x else untilStable step fuel (step x)

variable {α : Type} [DecidableEq α] {step : α → α}

/-- A property kept by the step holds of the result. -/
theorem untilStable_induction {p : α → Prop} (h : ∀ x, p x → p (step x)) (fuel : Nat) (x : α)
    (hx : p x) : p (untilStable step fuel x) := by
  induction fuel generalizing x with
  | zero => exact hx
  | succ fuel ih =>
    rw [untilStable]
    split
    · exact hx
    · exact ih _ (h x hx)

/-- If every step that changes a value uses up some of a measure, then fuel beyond the measure ends
at a fixed point. -/
theorem step_untilStable {p : α → Prop} (h : ∀ x, p x → p (step x)) (measure : α → Nat)
    (hdec : ∀ x, p x → step x ≠ x → measure (step x) < measure x) (fuel : Nat) (x : α)
    (hx : p x) (hfuel : measure x < fuel) :
    step (untilStable step fuel x) = untilStable step fuel x := by
  induction fuel generalizing x with
  | zero => omega
  | succ fuel ih =>
    rw [untilStable]
    split
    · assumption
    · next hne =>
      have := hdec x hx hne
      exact ih _ (h x hx) (by omega)

end ShiftReduce
