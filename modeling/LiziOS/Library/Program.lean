import Mathlib.Tactic.TypeStar

universe u

/-! Programs that read and change a state and stop at the first failure, in the state they have
reached. -/

namespace Program

variable {ε σ α β : Type u} {c : EStateM ε σ α} {f : α → EStateM ε σ β} {s t : σ} {a : α} {b : β} {e : ε}

theorem bind_ok (first : c s = .ok a t) : (c >>= f) s = f a t := by
  change EStateM.bind c f s = f a t
  simp only [EStateM.bind, first]

theorem bind_error (first : c s = .error e t) : (c >>= f) s = .error e t := by
  change EStateM.bind c f s = .error e t
  simp only [EStateM.bind, first]

theorem bind_same {d : EStateM ε σ α} (first : c s = d t) : (c >>= f) s = (d >>= f) t := by
  change EStateM.bind c f s = EStateM.bind d f t
  simp only [EStateM.bind, first]

theorem bind_completed {u : σ} (completed : (c >>= f) s = .ok b u) :
    ∃ a t, c s = .ok a t ∧ f a t = .ok b u := by
  cases first : c s with
  | ok a t => exact ⟨a, t, rfl, by rw [← completed, bind_ok first]⟩
  | error e t => rw [bind_error first] at completed; contradiction

theorem bind_get (f : σ → EStateM ε σ β) (s : σ) :
    ((get : EStateM ε σ σ) >>= f) s = f s s := rfl

theorem bind_modify (g : σ → σ) (f : PUnit → EStateM ε σ β) (s : σ) :
    ((modify g : EStateM ε σ PUnit) >>= f) s = f ⟨⟩ (g s) := rfl

/-- The state a program ends in, when it completes and when it fails. -/
def finish (result : EStateM.Result ε σ α) : σ :=
  match result with
  | .ok _ t => t
  | .error _ t => t

end Program
