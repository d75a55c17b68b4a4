import Mathlib.Algebra.GroupWithZero.Nat
import Mathlib.Data.List.Basic
import Mathlib.Data.List.Induction

set_option autoImplicit false

namespace WebTransportD.Execution

variable {S A : Type}

-- A step that is not enabled in a state has no successor, so only enabled schedules run.
def exec (step : S -> A -> Option S) : S -> List A -> Option S
  | s, [] => some s
  | s, a :: rest => (step s a).bind fun next => exec step next rest

def Meets (step : S -> A -> Option S) (ok : S -> A -> Prop) : S -> List A -> Prop
  | _, [] => True
  | s, a :: rest => ∀ next, step s a = some next -> ok s a ∧ Meets step ok next rest

variable (step : S -> A -> Option S)

@[simp] theorem exec_nil (s : S) : exec step s [] = some s := rfl

theorem exec_cons (s t : S) (a : A) (rest : List A) :
    exec step s (a :: rest) = some t ↔
      ∃ next, step s a = some next ∧ exec step next rest = some t := by
  simp [exec, Option.bind_eq_some_iff]

theorem exec_snoc (s t u : S) (first : List A) (a : A) (run : exec step s first = some t)
    (taken : step t a = some u) : exec step s (first ++ [a]) = some u := by
  induction first generalizing s with
  | nil =>
    simp only [exec_nil, Option.some.injEq] at run
    simp [exec, run, taken]
  | cons b rest ih =>
    obtain ⟨next, here, later⟩ := (exec_cons step s t b rest).mp run
    exact (exec_cons step s u b (rest ++ [a])).mpr ⟨next, here, ih next later⟩

theorem exec_append (s t : S) (first second : List A) :
    exec step s (first ++ second) = some t ↔
      ∃ middle, exec step s first = some middle ∧ exec step middle second = some t := by
  induction first generalizing s with
  | nil => simp
  | cons a rest ih =>
    simp only [List.cons_append, exec_cons, ih]
    constructor
    · rintro ⟨next, taken, middle, reached, done⟩
      exact ⟨middle, ⟨next, taken, reached⟩, done⟩
    · rintro ⟨middle, ⟨next, taken, reached⟩, done⟩
      exact ⟨next, taken, middle, reached, done⟩

theorem exec_invariant_meets (ok : S -> A -> Prop) (inv : S -> Prop)
    (preserved : ∀ s a t, inv s -> ok s a -> step s a = some t -> inv t)
    (s t : S) (schedule : List A) (initial : inv s) (met : Meets step ok s schedule)
    (run : exec step s schedule = some t) : inv t := by
  induction schedule generalizing s with
  | nil =>
    simp only [exec_nil, Option.some.injEq] at run
    exact run ▸ initial
  | cons a rest ih =>
    obtain ⟨next, taken, done⟩ := (exec_cons step s t a rest).mp run
    obtain ⟨here, later⟩ := met next taken
    exact ih next (preserved s a next initial here taken) later done

theorem Meets.left (ok : S -> A -> Prop) (s : S) (first second : List A)
    (met : Meets step ok s (first ++ second)) : Meets step ok s first := by
  induction first generalizing s with
  | nil => trivial
  | cons a rest ih => exact fun next taken => ⟨(met next taken).1, ih next (met next taken).2⟩

theorem Meets.at (ok : S -> A -> Prop) (s : S) (first : List A) (a : A) (second : List A) (t u : S)
    (met : Meets step ok s (first ++ a :: second)) (run : exec step s first = some t)
    (taken : step t a = some u) : ok t a := by
  induction first generalizing s with
  | nil =>
    obtain rfl : s = t := by simpa using run
    exact (met u taken).1
  | cons b rest ih =>
    obtain ⟨next, here, later⟩ := (exec_cons step s t b rest).mp run
    exact ih next (met next here).2 later

theorem meets_of_forall (ok : S -> A -> Prop) (s : S) (schedule : List A)
    (each : ∀ first a second t u, schedule = first ++ a :: second ->
      exec step s first = some t -> step t a = some u -> ok t a) :
    Meets step ok s schedule := by
  induction schedule generalizing s with
  | nil => trivial
  | cons a rest ih =>
    intro next taken
    refine ⟨each [] a rest s next rfl rfl taken, ih next ?_⟩
    intro first b second t u split run last
    exact each (a :: first) b second t u (by rw [split]; rfl)
      ((exec_cons step s t a first).mpr ⟨next, taken, run⟩) last

def restricted (ok : S -> A -> Bool) (s : S) (a : A) : Option S :=
  if ok s a then step s a else none

theorem restricted_iff (ok : S -> A -> Bool) (s : S) (a : A) (t : S) :
    restricted step ok s a = some t ↔ ok s a = true ∧ step s a = some t := by
  cases met : ok s a <;> simp [restricted, met]

theorem exec_restricted_iff (ok : S -> A -> Bool) (s t : S) (schedule : List A) :
    exec (restricted step ok) s schedule = some t ↔
      Meets step (fun s a => ok s a = true) s schedule ∧ exec step s schedule = some t := by
  induction schedule generalizing s with
  | nil => simp [Meets]
  | cons a rest ih =>
    simp only [exec_cons, restricted_iff, ih]
    constructor
    · rintro ⟨next, ⟨met, taken⟩, later, run⟩
      refine ⟨fun other same => ?_, next, taken, run⟩
      obtain rfl : next = other := Option.some.inj (taken.symm.trans same)
      exact ⟨met, later⟩
    · rintro ⟨met, next, taken, run⟩
      exact ⟨next, ⟨(met next taken).1, taken⟩, (met next taken).2, run⟩

theorem exec_restricted_final (good : S -> Bool)
    (kept : ∀ s a t, step s a = some t -> good t = true -> good s = true) (s t : S)
    (schedule : List A) (run : exec step s schedule = some t) (final : good t = true) :
    exec (restricted step fun s a => (step s a).all good) s schedule = some t ∧ good s = true := by
  induction schedule generalizing s with
  | nil =>
    obtain rfl : s = t := by simpa using run
    exact ⟨rfl, final⟩
  | cons a rest ih =>
    obtain ⟨next, taken, later⟩ := (exec_cons step s t a rest).mp run
    obtain ⟨further, well⟩ := ih next later
    refine ⟨(exec_cons _ s t a rest).mpr ⟨next, ?_, further⟩, kept s a next taken well⟩
    exact (restricted_iff step _ s a next).mpr ⟨by simp [taken, well], taken⟩

theorem exec_invariant (inv : S -> Prop)
    (preserved : ∀ s a t, inv s -> step s a = some t -> inv t)
    (s t : S) (schedule : List A) (initial : inv s) (run : exec step s schedule = some t) :
    inv t := by
  have always : Meets step (fun _ _ => True) s schedule :=
    meets_of_forall step _ s schedule fun _ _ _ _ _ _ _ _ => trivial
  exact exec_invariant_meets step _ inv (fun s a t held _ taken => preserved s a t held taken)
    s t schedule initial always run

-- A condition on the steps is exactly what keeps every state good, if it carries the invariant
-- `strong` along and a step that breaks it reaches a state that is not good.
theorem throughout_iff_meets (ok : S -> A -> Prop) (strong good : S -> Prop)
    (preserved : ∀ s a t, strong s -> ok s a -> step s a = some t -> strong t)
    (enough : ∀ s, strong s -> good s)
    (needed : ∀ s a t, strong s -> step s a = some t -> good t -> ok s a)
    (s : S) (initial : strong s) (schedule : List A) :
    (∀ first second t, schedule = first ++ second -> exec step s first = some t -> good t) ↔
      Meets step ok s schedule := by
  constructor
  · intro always
    induction schedule generalizing s with
    | nil => trivial
    | cons a rest ih =>
      intro next taken
      have reached := always [a] rest next rfl (by simp [exec, taken])
      have allowed := needed s a next initial taken reached
      refine ⟨allowed, ih next (preserved s a next initial allowed taken) ?_⟩
      intro first second t split run
      exact always (a :: first) second t (by simp [split])
        ((exec_cons step s t a first).mpr ⟨next, taken, run⟩)
  · rintro met first second t rfl run
    apply enough
    exact exec_invariant_meets step ok strong preserved s t first initial
      (met.left step ok s first second) run

theorem exec_history (inv : List A -> S -> Prop)
    (preserved : ∀ past s a t, inv past s -> step s a = some t -> inv (past ++ [a]) t)
    (past : List A) (s t : S) (schedule : List A) (initial : inv past s)
    (run : exec step s schedule = some t) : inv (past ++ schedule) t := by
  induction schedule generalizing past s with
  | nil =>
    simp only [exec_nil, Option.some.injEq] at run
    simpa [← run] using initial
  | cons a rest ih =>
    obtain ⟨next, taken, done⟩ := (exec_cons step s t a rest).mp run
    simpa using ih (past ++ [a]) next (preserved past s a next initial taken) done

theorem exec_snoc_iff (s u : S) (first : List A) (a : A) :
    exec step s (first ++ [a]) = some u ↔
      ∃ t, exec step s first = some t ∧ step t a = some u := by
  simp [exec_append, exec_cons]

theorem exec_history_ok (ok : List A -> A -> Prop) (inv : List A -> S -> Prop)
    (preserved : ∀ past s a t, inv past s -> ok past a -> step s a = some t -> inv (past ++ [a]) t)
    (s : S) (initial : inv [] s) (schedule : List A)
    (each : ∀ first a second t u, schedule = first ++ a :: second -> exec step s first = some t ->
      inv first t -> step t a = some u -> ok first a)
    (first second : List A) (t : S) (split : schedule = first ++ second)
    (run : exec step s first = some t) : inv first t := by
  induction first using List.reverseRecOn generalizing second t with
  | nil =>
    obtain rfl : s = t := by simpa using run
    exact initial
  | append_singleton first a ih =>
    obtain ⟨before, reached, taken⟩ := (exec_snoc_iff step s t first a).mp run
    have whole : schedule = first ++ a :: second := by simpa using split
    have held := ih (a :: second) before whole reached
    exact preserved first before a t held (each first a second before t whole reached held taken)
      taken

theorem throughout_iff_history (ok : List A -> A -> Prop) (strong : List A -> S -> Prop)
    (good : S -> Prop)
    (preserved : ∀ past s a t, strong past s -> ok past a -> step s a = some t ->
      strong (past ++ [a]) t)
    (enough : ∀ past s, strong past s -> good s)
    (needed : ∀ past s a t, strong past s -> step s a = some t -> good t -> ok past a)
    (s : S) (initial : strong [] s) (schedule : List A) :
    (∀ first second t, schedule = first ++ second -> exec step s first = some t -> good t) ↔
      ∀ first a second t, schedule = first ++ a :: second ->
        exec step s (first ++ [a]) = some t -> ok first a := by
  have strongly := exec_history_ok step ok strong preserved s initial schedule
  constructor
  · intro always first a second u split run
    obtain ⟨t, reached, taken⟩ := (exec_snoc_iff step s u first a).mp run
    have each : ∀ first a second t u, schedule = first ++ a :: second ->
        exec step s first = some t -> strong first t -> step t a = some u -> ok first a := by
      intro first a second t u split reached held taken
      exact needed first t a u held taken (always (first ++ [a]) second u (by simpa using split)
        (exec_snoc step s t u first a reached taken))
    exact each first a second t u split reached
      (strongly each first (a :: second) t split reached) taken
  · intro each first second t split run
    refine enough first t (strongly ?_ first second t split run)
    intro first a second t u split reached _ taken
    exact each first a second u split (exec_snoc step s t u first a reached taken)

theorem enabled_by_part {P : Type} (allowed : A -> Prop) (s : S) (a : A) (part : Option P)
    (whole : P -> S) (same : step s a = part.map whole) (chosen : allowed a)
    (enabled : part.isSome = true) : ∃ a t, allowed a ∧ step s a = some t := by
  obtain ⟨moved, taken⟩ := Option.isSome_iff_exists.mp enabled
  exact ⟨a, whole moved, chosen, by rw [same, taken, Option.map_some]⟩

theorem exec_split (s t : S) (first : List A) (a : A) (second : List A)
    (run : exec step s (first ++ a :: second) = some t) :
    ∃ before after, exec step s first = some before ∧ step before a = some after ∧
      exec step after second = some t := by
  obtain ⟨before, reached, later⟩ := (exec_append step s t first (a :: second)).mp run
  obtain ⟨after, taken, rest⟩ := (exec_cons step before t a second).mp later
  exact ⟨before, after, reached, taken, rest⟩

theorem exec_measure (measure : S -> Nat) (cost : A -> Nat)
    (bounded : ∀ s a t, step s a = some t -> measure t + 1 ≤ measure s + cost a)
    (s t : S) (schedule : List A) (run : exec step s schedule = some t) :
    measure t + schedule.length ≤ measure s + (schedule.map cost).sum := by
  induction schedule generalizing s with
  | nil =>
    simp only [exec_nil, Option.some.injEq] at run
    simp [run]
  | cons a rest ih =>
    obtain ⟨next, taken, done⟩ := (exec_cons step s t a rest).mp run
    have here := bounded s a next taken
    have later := ih next done
    simp only [List.length_cons, List.map_cons, List.sum_cons]
    omega

theorem exec_completes (measure : S -> Nat) (final : S -> Prop)
    (progress : ∀ s, ¬ final s -> ∃ a t, step s a = some t ∧ measure t < measure s) (s : S) :
    ∃ schedule t, exec step s schedule = some t ∧ final t := by
  induction height : measure s using Nat.strongRecOn generalizing s with
  | ind n ih =>
    by_cases finished : final s
    · exact ⟨[], s, rfl, finished⟩
    · obtain ⟨a, next, taken, lower⟩ := progress s finished
      obtain ⟨rest, t, run, done⟩ := ih (measure next) (height ▸ lower) next rfl
      exact ⟨a :: rest, t, (exec_cons step s t a rest).mpr ⟨next, taken, run⟩, done⟩

theorem exec_completes_by (allowed : A -> Prop) (inv : S -> Prop) (measure : S -> Nat)
    (final : S -> Prop)
    (progress : ∀ s, inv s -> ¬ final s ->
      ∃ a t, allowed a ∧ step s a = some t ∧ inv t ∧ measure t < measure s)
    (s : S) (initial : inv s) :
    ∃ schedule t, (∀ a ∈ schedule, allowed a) ∧ exec step s schedule = some t ∧ final t := by
  induction height : measure s using Nat.strongRecOn generalizing s with
  | ind n ih =>
    by_cases finished : final s
    · exact ⟨[], s, by simp, rfl, finished⟩
    · obtain ⟨a, next, good, taken, held, lower⟩ := progress s initial finished
      obtain ⟨rest, t, each, run, done⟩ := ih (measure next) (height ▸ lower) next held rfl
      exact ⟨a :: rest, t, List.forall_mem_cons.mpr ⟨good, each⟩,
        (exec_cons step s t a rest).mpr ⟨next, taken, run⟩, done⟩

end WebTransportD.Execution
