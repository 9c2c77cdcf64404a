import Mathlib.Logic.Function.Basic

namespace Transition

/-- A program seen from outside. An action is impossible in a state (`none`), stops the program
    at a failed check, or leads to the next state. -/
structure System (State Action Fault : Type*) where
  start : State → Prop
  step : State → Action → Option (Except Fault State)

namespace System

variable {State Action Fault : Type*} (system : System State Action Fault)

/-- The states of the runs all of whose actions meet the condition `allowed`. -/
inductive ReachableBy (allowed : State → Action → Prop) : State → Prop where
  | start {s : State} (initial : system.start s) : ReachableBy allowed s
  | next {s t : State} {a : Action} (earlier : ReachableBy allowed s) (permitted : allowed s a)
      (stepped : system.step s a = some (.ok t)) : ReachableBy allowed t

abbrev Reachable : State → Prop := system.ReachableBy fun _ _ => True

/-- The state after a list of actions, when each of them is possible and completes. -/
def execute (s : State) : List Action → Option State
  | [] => some s
  | a :: rest =>
    match system.step s a with
    | some (.ok t) => execute t rest
    | _ => none

/-- The same steps, from a state of a run. -/
def after (s : State) : System State Action Fault where
  start t := t = s
  step := system.step

variable {system} {allowed : State → Action → Prop} {s : State}

/-- What holds at the start and survives every permitted step holds throughout. -/
theorem ReachableBy.invariant {inv : State → Prop} (reached : system.ReachableBy allowed s)
    (initial : ∀ s, system.start s → inv s)
    (preserved : ∀ s a t, system.ReachableBy allowed s → inv s → allowed s a →
      system.step s a = some (.ok t) → inv t) : inv s := by
  induction reached with
  | start begun => exact initial _ begun
  | next earlier permitted stepped ih => exact preserved _ _ _ earlier ih permitted stepped

theorem ReachableBy.weaken {wider : State → Action → Prop} (reached : system.ReachableBy allowed s)
    (implies : ∀ s a, allowed s a → wider s a) : system.ReachableBy wider s := by
  induction reached with
  | start begun => exact .start begun
  | next _ permitted stepped ih => exact .next ih (implies _ _ permitted) stepped

theorem ReachableBy.execute {acts : List Action} {t : State}
    (reached : system.ReachableBy allowed s) (permitted : ∀ a ∈ acts, ∀ s, allowed s a)
    (executed : system.execute s acts = some t) : system.ReachableBy allowed t := by
  induction acts generalizing s with
  | nil => cases executed; exact reached
  | cons a rest ih =>
    simp only [System.execute] at executed
    split at executed
    · rename_i next stepped
      have first := reached.next (permitted a List.mem_cons_self s) stepped
      exact ih first (fun b later => permitted b (List.mem_cons_of_mem a later)) executed
    · contradiction

end System

end Transition
