import WebTransportD.Shared.Execution

set_option autoImplicit false

namespace WebTransportD.Simulation

open Execution

variable {S A T B : Type}

structure Simulates (step : S -> A -> Option S) (other : T -> B -> Option T) (inv : S -> Prop)
    (view : S -> T) (label : S -> A -> Option B) : Prop where
  preserved : ∀ s a t, inv s -> step s a = some t -> inv t
  matched : ∀ s a t b, inv s -> step s a = some t -> label s a = some b ->
    other (view s) b = some (view t)
  silent : ∀ s a t, inv s -> step s a = some t -> label s a = none -> view t = view s

variable {step : S -> A -> Option S} {other : T -> B -> Option T} {inv : S -> Prop} {view : S -> T}

def trace (step : S -> A -> Option S) (label : S -> A -> Option B) : S -> List A -> List B
  | _, [] => []
  | s, a :: rest => (label s a).toList ++ (step s a).elim [] fun next => trace step label next rest

theorem Simulates.traced {label : S -> A -> Option B}
    (simulates : Simulates step other inv view label) (s t : S) (schedule : List A)
    (initial : inv s) (run : exec step s schedule = some t) :
    exec other (view s) (trace step label s schedule) = some (view t) := by
  induction schedule generalizing s with
  | nil =>
    simp only [exec_nil, Option.some.injEq] at run
    simp [trace, run]
  | cons a rest ih =>
    obtain ⟨next, taken, later⟩ := (exec_cons step s t a rest).mp run
    have further := ih next (simulates.preserved s a next initial taken) later
    cases kind : label s a with
    | none =>
      rw [simulates.silent s a next initial taken kind] at further
      simpa [trace, kind, taken] using further
    | some b =>
      have first := simulates.matched s a next b initial taken kind
      simp only [trace, kind, taken, Option.toList_some, List.singleton_append, Option.elim_some]
      exact (exec_cons other _ _ b _).mpr ⟨_, first, further⟩

theorem Simulates.reaches {label : S -> A -> Option B}
    (simulates : Simulates step other inv view label) (s t : S) (schedule : List A)
    (initial : inv s) (run : exec step s schedule = some t) :
    inv t ∧ ∃ steps, exec other (view s) steps = some (view t) :=
  ⟨exec_invariant step inv simulates.preserved s t schedule initial run, _,
    simulates.traced s t schedule initial run⟩

theorem trace_restricted {label : S -> A -> Option B} (ok : S -> A -> Bool) (s t : S)
    (schedule : List A) (run : exec (restricted step ok) s schedule = some t) :
    trace (restricted step ok) label s schedule = trace step label s schedule := by
  induction schedule generalizing s with
  | nil => rfl
  | cons a rest ih =>
    obtain ⟨next, taken, later⟩ := (exec_cons _ s t a rest).mp run
    have free := ((restricted_iff step ok s a next).mp taken).2
    simp only [trace, taken, free, Option.elim_some, ih next later]

theorem trace_static (label : A -> Option B) (s t : S) (schedule : List A)
    (run : exec step s schedule = some t) :
    trace step (fun _ => label) s schedule = schedule.filterMap label := by
  induction schedule generalizing s with
  | nil => rfl
  | cons a rest ih =>
    obtain ⟨next, taken, later⟩ := (exec_cons step s t a rest).mp run
    rw [trace, taken, Option.elim_some, ih next later, List.filterMap_cons]
    cases label a <;> rfl

theorem Simulates.exec {label : A -> Option B}
    (simulates : Simulates step other inv view fun _ => label) (s t : S) (schedule : List A)
    (initial : inv s) (run : Execution.exec step s schedule = some t) :
    Execution.exec other (view s) (schedule.filterMap label) = some (view t) := by
  rw [← trace_static label s t schedule run]
  exact simulates.traced s t schedule initial run

theorem exec_view {other : T -> A -> Option T}
    (preserved : ∀ s a t, inv s -> step s a = some t -> inv t)
    (alike : ∀ s a, inv s -> (step s a).map view = other (view s) a) (s : S) (schedule : List A)
    (initial : inv s) :
    (Execution.exec step s schedule).map view = Execution.exec other (view s) schedule := by
  induction schedule generalizing s with
  | nil => rfl
  | cons a rest ih =>
    have here := alike s a initial
    simp only [Execution.exec]
    cases taken : step s a with
    | none => rw [← here, taken]; rfl
    | some next =>
      rw [← here, taken]
      exact ih next (preserved s a next initial taken)

end WebTransportD.Simulation
