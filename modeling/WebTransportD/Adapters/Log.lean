import WebTransportD.Adapters.Env
import WebTransportD.Shared.Mutex

set_option autoImplicit false

namespace WebTransportD.Log

open Execution Simulation Mutex
open Env (ascii)

inductive LogLevel where
  | quiet
  | error
  | warn
  | info
  | trace
  deriving DecidableEq, Repr

def LogLevel.toNat : LogLevel -> Nat
  | .quiet => 0
  | .error => 1
  | .warn => 2
  | .info => 3
  | .trace => 4

def levelPrefix : LogLevel -> List UInt8
  | .error => ascii "[ERROR] "
  | .warn => ascii "[WARN] "
  | .info => ascii "[INFO] "
  | .trace => ascii "[TRACE] "
  | .quiet => ascii ""

-- A call of `wtd_log` that has passed the level check; `text` is what vfprintf makes of its
-- arguments.
structure Line (T : Type) where
  caller : T
  level : LogLevel
  text : List UInt8
  deriving DecidableEq, Repr

def Line.bytes {T : Type} (line : Line T) : List UInt8 :=
  levelPrefix line.level ++ line.text ++ ascii "\n"

-- `levels` records what `s_level` has been, and `begun` the lines whose first bytes are out.
structure LogState (T : Type) where
  sLevel : LogLevel
  stderr : List UInt8
  levels : List LogLevel
  begun : List (Line T)

-- `admitted` records the lines of the thread that have passed the level check.
structure LogLocal (T : Type) where
  line : Option (Line T)
  admitted : List (Line T)

inductive LogInput where
  | call (level : LogLevel) (text : List UInt8)
  | setLevel (level : LogLevel)
  | go
  deriving DecidableEq, Repr

inductive LogStore where
  | fputs
  | vfprintf
  | fputc
  | fflush
  deriving DecidableEq, Repr

def logBody : List LogStore :=
  [.fputs, .vfprintf, .fputc, .fflush]

variable {T : Type}

-- What one call adds to stderr; the order of the bytes does not depend on when they are flushed.
def LogStore.adds (line : Line T) : LogStore -> List UInt8
  | .fputs => levelPrefix line.level
  | .vfprintf => line.text
  | .fputc => ascii "\n"
  | .fflush => []

def logStore (b : LogStore) (s : LogState T) (l : LogLocal T) : LogState T × LogLocal T :=
  match l.line with
  | none => (s, l)
  | some line =>
      ({ s with
         stderr := s.stderr ++ b.adds line
         begun := if b = .fputs then s.begun ++ [line] else s.begun },
        if b = .fflush then { l with line := none } else l)

def checkLevel (line : Line T) (s : LogState T) (l : LogLocal T) :
    Option (LogState T × LogLocal T) :=
  if line.level.toNat > s.sLevel.toNat then some (s, l)
  else some (s, { line := some line, admitted := l.admitted ++ [line] })

def wtdLogSetLevel (level : LogLevel) (s : LogState T) (l : LogLocal T) :
    Option (LogState T × LogLocal T) :=
  some ({ s with sLevel := level, levels := s.levels ++ [level] }, l)

def logNext (t : T) (e : LogInput) (l : LogLocal T) :
    Option (Action LogStore (LogState T) (LogLocal T)) :=
  match e, l.line with
  | .call level text, none => some (.free (checkLevel { caller := t, level, text }))
  | .setLevel level, none => some (.free (wtdLogSetLevel level))
  | .go, some _ => some (.guarded logBody)
  | _, _ => none

def wtdLog : Program T LogInput LogStore (LogState T) (LogLocal T) :=
  { next := logNext, micro := logStore }

theorem finish_writes (rest : List LogStore) (s : LogState T) (l : LogLocal T) (line : Line T)
    (inside : rest ≠ [] -> l.line = some line) (ordered : rest <:+ logBody) :
    wtdLog.finish rest s l =
      ({ s with
         stderr := s.stderr ++ rest.flatMap (LogStore.adds line)
         begun := if rest = logBody then s.begun ++ [line] else s.begun },
        if rest = [] then l else { l with line := none }) := by
  simp only [logBody, List.suffix_cons_iff, List.suffix_nil] at ordered
  rcases ordered with rfl | rfl | rfl | rfl | rfl
  case inr.inr.inr.inr => simp [Program.finish, logBody]
  all_goals
    have here := inside (by simp)
    simp [Program.finish, wtdLog, logStore, LogStore.adds, logBody, here]

variable [DecidableEq T]

structure Printed (a : Atomic T (LogState T) (LogLocal T)) : Prop where
  whole : a.shared.stderr = a.shared.begun.flatMap Line.bytes
  own : ∀ t line, (a.locals t).line = some line -> line.caller = t
  each : ∀ t, (a.shared.begun.filter fun line => line.caller = t) ++ (a.locals t).line.toList =
    (a.locals t).admitted
  inForce : a.shared.sLevel ∈ a.shared.levels
  allowed : ∀ t, ∀ line ∈ (a.locals t).admitted,
    ∃ v ∈ a.shared.levels, line.level.toNat ≤ v.toNat

theorem Printed.setLevel {a : Atomic T (LogState T) (LogLocal T)} (printed : Printed a) (t : T)
    (level : LogLevel) :
    Printed (a.moves t { a.shared with sLevel := level, levels := a.shared.levels ++ [level] }
      (a.locals t)) := by
  have same : ∀ u, (a.moves t { a.shared with
      sLevel := level, levels := a.shared.levels ++ [level] } (a.locals t)).locals u =
      a.locals u := by
    simp [Atomic.moves]
  refine ⟨printed.whole, fun u => ?_, fun u => ?_, by simp, fun u line member => ?_⟩
  · rw [same]
    exact printed.own u
  · rw [same]
    exact printed.each u
  · rw [same] at member
    obtain ⟨v, known, below⟩ := printed.allowed u line member
    exact ⟨v, by simp [known], below⟩

structure Writing (m : Machine T LogStore (LogState T) (LogLocal T)) : Prop where
  printed : Printed (wtdLog.view m)
  ordered : ∀ t rest, m.holder = some (t, rest) -> rest <:+ logBody
  inside : ∀ t rest, m.holder = some (t, rest) ->
    ∃ before line, (wtdLog.view m).shared.begun = before ++ [line] ∧ line.caller = t ∧
      (rest ≠ [] -> (m.locals t).line = some line)

omit [DecidableEq T] in
theorem adds_suffix (line : Line T) (rest : List LogStore) (ordered : rest <:+ logBody) :
    rest.flatMap (LogStore.adds line) <:+ line.bytes := by
  obtain ⟨first, whole⟩ := ordered
  refine ⟨first.flatMap (LogStore.adds line), ?_⟩
  rw [← List.flatMap_append, whole]
  simp [logBody, LogStore.adds, Line.bytes]

theorem Writing.left {m : Machine T LogStore (LogState T) (LogLocal T)} (writing : Writing m) :
    ∃ left, m.shared.stderr ++ left = (wtdLog.view m).shared.stderr ∧
      (m.holder = none -> left = []) ∧
      ∀ t rest, m.holder = some (t, rest) ->
        ∃ before line, (wtdLog.view m).shared.begun = before ++ [line] ∧ line.caller = t ∧
          left <:+ line.bytes := by
  rcases holder : m.holder with _ | ⟨u, rest⟩
  · exact ⟨[], by simp [Program.view, holder], fun _ => rfl, by simp⟩
  · obtain ⟨before, line, begun, caller, inside⟩ := writing.inside u rest holder
    have ordered := writing.ordered u rest holder
    refine ⟨rest.flatMap (LogStore.adds line), ?_, by simp, ?_⟩
    · simp [Program.view, holder, finish_writes rest _ _ line inside ordered]
    · intro t rest' held
      obtain ⟨rfl, rfl⟩ : u = t ∧ rest = rest' := by simpa using held
      exact ⟨before, line, begun, caller, adds_suffix line rest ordered⟩

theorem Writing.locals {m : Machine T LogStore (LogState T) (LogLocal T)} (writing : Writing m) :
    (wtdLog.view m).shared.levels = m.shared.levels ∧
      ∀ t, ((wtdLog.view m).locals t).admitted = (m.locals t).admitted ∧
        ((m.locals t).line = none -> ((wtdLog.view m).locals t).line = none) := by
  rcases holder : m.holder with _ | ⟨u, rest⟩
  · simp [Program.view, holder]
  · obtain ⟨before, line, begun, caller, inside⟩ := writing.inside u rest holder
    have written := finish_writes rest m.shared (m.locals u) line inside
      (writing.ordered u rest holder)
    refine ⟨by simp [Program.view, holder, written], fun t => ?_⟩
    by_cases same : t = u
    · subst same
      by_cases ended : rest = []
      · simp [Program.view, holder, ended, Program.finish]
      · simp [Program.view, holder, written, ended]
    · simp [Program.view, holder, same]

end WebTransportD.Log
