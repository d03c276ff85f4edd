import Lindenmayer.Random.Source

/-!
# What holds whatever is drawn

A property of all results of a computation that takes draws. It is followed through the computation
step by step: what is known of the result of one step may be used for the next.
-/

namespace Lindenmayer.Drawing

variable {σ α β : Type} {P Q : α → Prop}

/-- Every result of a computation has the property, whatever the state of the source. -/
def Always (computation : Drawing σ α) (P : α → Prop) : Prop :=
  ∀ source, P (computation.run source).1

/-- What is drawn without a source is known. -/
theorem always_pure {a : α} (h : P a) : Always (pure a : Drawing σ α) P :=
  fun _ => h

theorem always_true (computation : Drawing σ α) : Always computation fun _ => True :=
  fun _ => trivial

/-- A property of what is drawn first carries over to what is drawn from it. -/
theorem Always.bind {first : Drawing σ α} {next : α → Drawing σ β} {P : α → Prop} {Q : β → Prop}
    (hfirst : Always first P) (hnext : ∀ a, P a → Always (next a) Q) :
    Always (first >>= next) Q :=
  fun source => hnext _ (hfirst source) _

/-- What always holds implies what follows from it. -/
theorem Always.mono {computation : Drawing σ α} (h : Always computation P)
    (hPQ : ∀ a, P a → Q a) : Always computation Q :=
  fun source => hPQ _ (h source)

/-- A whole number is drawn from the range that is asked for. -/
theorem always_integer [ChoiceSource σ] {low high : Nat} (h : low ≤ high) :
    Always (integer low high : Drawing σ Nat) fun n => low ≤ n ∧ n ≤ high := by
  refine (always_true _).bind fun offset _ => always_pure ?_
  have := offset.isLt
  omega

/-- One of the choices is drawn. -/
theorem always_choose [ChoiceSource σ] (first : α) (others : List α) :
    Always (choose first others : Drawing σ α) (· ∈ first :: others) :=
  (always_true _).bind fun _ _ => always_pure (List.getElem_mem _)

end Lindenmayer.Drawing
