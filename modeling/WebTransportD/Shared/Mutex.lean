import WebTransportD.Shared.Simulation

set_option autoImplicit false

namespace WebTransportD.Mutex

open Execution Simulation

variable {T E M S L : Type}

-- What a thread does next: one step that needs no lock, or steps to be made under the mutex.
inductive Action (M S L : Type) where
  | free (f : S -> L -> Option (S × L))
  | guarded (body : List M)

-- Threads that share a state and one mutex; `E` is what a step gets from outside.
structure Program (T E M S L : Type) where
  next : T -> E -> L -> Option (Action M S L)
  micro : M -> S -> L -> S × L

-- `holder` is the thread that has the mutex, with what it has left to do before it unlocks.
structure Machine (T M S L : Type) where
  shared : S
  locals : T -> L
  holder : Option (T × List M)

structure Atomic (T S L : Type) where
  shared : S
  locals : T -> L

inductive MachineStep (T E : Type) where
  | step (t : T) (e : E)
  | run
  | unlock

def Program.finish (p : Program T E M S L) : List M -> S -> L -> S × L
  | [], s, l => (s, l)
  | m :: rest, s, l => p.finish rest (p.micro m s l).1 (p.micro m s l).2

variable [DecidableEq T]

def machineStep (p : Program T E M S L) (m : Machine T M S L) :
    MachineStep T E -> Option (Machine T M S L)
  | .step t e =>
      if m.holder.any (·.1 = t) then none
      else match p.next t e (m.locals t) with
        | none => none
        | some (.free f) =>
            (f m.shared (m.locals t)).map fun made =>
              { m with shared := made.1, locals := Function.update m.locals t made.2 }
        | some (.guarded body) =>
            if m.holder.isSome then none else some { m with holder := some (t, body) }
  | .run =>
      match m.holder with
      | some (t, a :: rest) =>
          let made := p.micro a m.shared (m.locals t)
          some { shared := made.1, locals := Function.update m.locals t made.2
                 holder := some (t, rest) }
      | _ => none
  | .unlock =>
      match m.holder with
      | some (_, []) => some { m with holder := none }
      | _ => none

def Atomic.moves (s : Atomic T S L) (t : T) (shared : S) (l : L) : Atomic T S L :=
  { shared, locals := Function.update s.locals t l }

@[simp] theorem moves_shared (s : Atomic T S L) (t : T) (shared : S) (l : L) :
    (s.moves t shared l).shared = shared := rfl

@[simp] theorem moves_self (s : Atomic T S L) (t : T) (shared : S) (l : L) :
    (s.moves t shared l).locals t = l := by
  simp [Atomic.moves]

@[simp] theorem moves_other (s : Atomic T S L) (t u : T) (shared : S) (l : L) (other : u ≠ t) :
    (s.moves t shared l).locals u = s.locals u := by
  simp [Atomic.moves, other]

def atomicStep (p : Program T E M S L) (s : Atomic T S L) (a : T × E) : Option (Atomic T S L) :=
  match p.next a.1 a.2 (s.locals a.1) with
  | none => none
  | some (.free f) =>
      (f s.shared (s.locals a.1)).map fun made => s.moves a.1 made.1 made.2
  | some (.guarded body) =>
      let made := p.finish body s.shared (s.locals a.1)
      some (s.moves a.1 made.1 made.2)

-- A section counts as made from the moment its thread has the mutex.
def Program.view (p : Program T E M S L) (m : Machine T M S L) : Atomic T S L :=
  match m.holder with
  | none => { shared := m.shared, locals := m.locals }
  | some (t, rest) =>
      let made := p.finish rest m.shared (m.locals t)
      { shared := made.1, locals := Function.update m.locals t made.2 }

def label : MachineStep T E -> Option (T × E)
  | .step t e => some (t, e)
  | .run | .unlock => none

def Program.Commutes (p : Program T E M S L) (inv : Machine T M S L -> Prop) : Prop :=
  ∀ m u rest t e f s l, inv m -> m.holder = some (u, rest) -> t ≠ u ->
    p.next t e (m.locals t) = some (.free f) -> f m.shared (m.locals t) = some (s, l) ->
    f (p.finish rest m.shared (m.locals u)).1 (m.locals t) =
        some ((p.finish rest s (m.locals u)).1, l) ∧
      (p.finish rest s (m.locals u)).2 = (p.finish rest m.shared (m.locals u)).2

theorem machineStep_cases (p : Program T E M S L) (m : Machine T M S L) (a : MachineStep T E)
    (n : Machine T M S L) (taken : machineStep p m a = some n) :
    (∃ t e f s l, a = .step t e ∧ (∀ u rest, m.holder = some (u, rest) -> t ≠ u) ∧
      p.next t e (m.locals t) = some (.free f) ∧ f m.shared (m.locals t) = some (s, l) ∧
      n = { m with shared := s, locals := Function.update m.locals t l }) ∨
    (∃ t e body, a = .step t e ∧ m.holder = none ∧
      p.next t e (m.locals t) = some (.guarded body) ∧ n = { m with holder := some (t, body) }) ∨
    (∃ t b rest, a = .run ∧ m.holder = some (t, b :: rest) ∧
      n = { shared := (p.micro b m.shared (m.locals t)).1
            locals := Function.update m.locals t (p.micro b m.shared (m.locals t)).2
            holder := some (t, rest) }) ∨
    (∃ t, a = .unlock ∧ m.holder = some (t, []) ∧ n = { m with holder := none }) := by
  cases a with
  | step t e =>
    by_cases inside : m.holder.any (·.1 = t) = true
    · simp [machineStep, inside] at taken
    rw [machineStep, if_neg inside] at taken
    have outside : ∀ u rest, m.holder = some (u, rest) -> t ≠ u := by
      rintro u rest held rfl
      simp [held] at inside
    rcases next : p.next t e (m.locals t) with _ | f | body
    · simp [next] at taken
    · simp only [next, Option.map_eq_some_iff] at taken
      obtain ⟨⟨s, l⟩, made, rfl⟩ := taken
      exact .inl ⟨t, e, f, s, l, rfl, outside, next, made, rfl⟩
    · simp only [next] at taken
      split_ifs at taken with held
      have unheld : m.holder = none := by simpa using held
      exact .inr (.inl ⟨t, e, body, rfl, unheld, next, (Option.some.inj taken).symm⟩)
  | run =>
    rcases held : m.holder with _ | ⟨t, _ | ⟨b, rest⟩⟩ <;> simp [machineStep, held] at taken
    exact .inr (.inr (.inl ⟨t, b, rest, rfl, rfl, taken.symm⟩))
  | unlock =>
    rcases held : m.holder with _ | ⟨t, _ | ⟨b, rest⟩⟩ <;> simp [machineStep, held] at taken
    exact .inr (.inr (.inr ⟨t, rfl, rfl, taken.symm⟩))

theorem view_matched (p : Program T E M S L) (inv : Machine T M S L -> Prop)
    (commutes : p.Commutes inv) (m : Machine T M S L) (a : MachineStep T E) (n : Machine T M S L)
    (b : T × E) (held : inv m) (taken : machineStep p m a = some n) (kind : label a = some b) :
    atomicStep p (p.view m) b = some (p.view n) := by
  rcases machineStep_cases p m a n taken with ⟨t, e, f, s, l, rfl, outside, next, made, rfl⟩ |
    ⟨t, e, body, rfl, unheld, next, rfl⟩ | ⟨t, b, rest, rfl, -⟩ | ⟨t, rfl, -⟩
  · obtain rfl : (t, e) = b := Option.some.inj kind
    rcases holder : m.holder with _ | ⟨u, rest⟩
    · simp [Program.view, holder, atomicStep, next, made, Atomic.moves]
    · have other := outside u rest holder
      obtain ⟨later, same⟩ := commutes m u rest t e f s l held holder other next made
      simp [Program.view, holder, atomicStep, other, other.symm, next, later, same, Atomic.moves,
        Function.update_comm other]
  · obtain rfl : (t, e) = b := Option.some.inj kind
    simp [Program.view, unheld, atomicStep, next, Atomic.moves]
  · simp [label] at kind
  · simp [label] at kind

theorem view_silent (p : Program T E M S L) (m : Machine T M S L) (a : MachineStep T E)
    (n : Machine T M S L) (taken : machineStep p m a = some n) (kind : label a = none) :
    p.view n = p.view m := by
  rcases machineStep_cases p m a n taken with ⟨t, e, f, s, l, rfl, -⟩ | ⟨t, e, body, rfl, -⟩ |
    ⟨t, b, rest, rfl, holder, rfl⟩ | ⟨t, rfl, holder, rfl⟩
  · simp [label] at kind
  · simp [label] at kind
  · simp [Program.view, holder, Program.finish]
  · simp [Program.view, holder, Program.finish]

theorem mutex_simulates (p : Program T E M S L) (inv : Machine T M S L -> Prop)
    (preserved : ∀ m a n, inv m -> machineStep p m a = some n -> inv n)
    (commutes : p.Commutes inv) :
    Simulates (machineStep p) (atomicStep p) inv p.view fun _ => label where
  preserved := preserved
  matched := view_matched p inv commutes
  silent m a n _ := view_silent p m a n

theorem holder_unlocks (p : Program T E M S L) (m : Machine T M S L) :
    ∃ schedule n, exec (machineStep p) m schedule = some n ∧ n.holder = none ∧
      p.view n = p.view m ∧ schedule.filterMap label = ([] : List (T × E)) := by
  rcases holder : m.holder with _ | ⟨t, rest⟩
  · exact ⟨[], m, rfl, holder, rfl, rfl⟩
  · induction rest generalizing m with
    | nil =>
      refine ⟨[.unlock], { m with holder := none }, ?_, rfl, ?_, rfl⟩
      · simp [exec, machineStep, holder]
      · simp [Program.view, holder, Program.finish]
    | cons b rest ih =>
      let next : Machine T M S L :=
        { shared := (p.micro b m.shared (m.locals t)).1
          locals := Function.update m.locals t (p.micro b m.shared (m.locals t)).2
          holder := some (t, rest) }
      have same : p.view next = p.view m := by simp [Program.view, holder, Program.finish, next]
      obtain ⟨schedule, n, run, released, view, silent⟩ := ih next rfl
      refine ⟨.run :: schedule, n, ?_, released, view.trans same, silent⟩
      exact (exec_cons _ m n _ schedule).mpr ⟨next, by simp [machineStep, holder, next], run⟩

theorem atomicStep_reached (p : Program T E M S L) (m : Machine T M S L) (b : T × E)
    (a : Atomic T S L) (unheld : m.holder = none) (taken : atomicStep p (p.view m) b = some a) :
    ∃ schedule n, exec (machineStep p) m schedule = some n ∧ n.holder = none ∧ p.view n = a ∧
      schedule.filterMap label = [b] := by
  obtain ⟨t, e⟩ := b
  have here : p.view m = { shared := m.shared, locals := m.locals } := by
    simp [Program.view, unheld]
  rw [here] at taken
  rcases next : p.next t e (m.locals t) with _ | f | body
  · simp [atomicStep, next] at taken
  · simp only [atomicStep, next, Option.map_eq_some_iff] at taken
    obtain ⟨⟨s, l⟩, made, rfl⟩ := taken
    refine ⟨[.step t e], { m with shared := s, locals := Function.update m.locals t l }, ?_, unheld,
      by simp [Program.view, unheld, Atomic.moves], rfl⟩
    simp [exec, machineStep, unheld, next, made]
  · let inside : Machine T M S L := { m with holder := some (t, body) }
    have made : p.view inside = a := by
      simpa [atomicStep, next, Program.view, inside, Atomic.moves] using taken
    obtain ⟨schedule, n, run, released, view, silent⟩ := holder_unlocks p inside
    refine ⟨.step t e :: schedule, n, ?_, released, view.trans made, by simp [label, silent]⟩
    have entered : machineStep p m (.step t e) = some inside := by
      simp [machineStep, unheld, next, inside]
    exact (exec_cons _ m n _ schedule).mpr ⟨inside, entered, run⟩

theorem atomic_reached (p : Program T E M S L) (m : Machine T M S L) (steps : List (T × E))
    (a : Atomic T S L) (unheld : m.holder = none)
    (run : exec (atomicStep p) (p.view m) steps = some a) :
    ∃ schedule n, exec (machineStep p) m schedule = some n ∧ n.holder = none ∧ p.view n = a ∧
      schedule.filterMap label = steps := by
  induction steps generalizing m with
  | nil =>
    simp only [exec_nil, Option.some.injEq] at run
    exact ⟨[], m, rfl, unheld, run, rfl⟩
  | cons b rest ih =>
    obtain ⟨next, taken, later⟩ := (exec_cons _ _ a b rest).mp run
    obtain ⟨first, n, reached, released, rfl, names⟩ := atomicStep_reached p m b next unheld taken
    obtain ⟨second, o, further, final, view, others⟩ := ih n released later
    refine ⟨first ++ second, o, ?_, final, view, by simp [names, others]⟩
    exact (exec_append _ m o first second).mpr ⟨n, reached, further⟩

end WebTransportD.Mutex
