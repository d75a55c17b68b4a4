import Mathlib.Data.List.Basic
import Mathlib.Logic.Function.Basic

set_option autoImplicit false

namespace WebTransportD.Descriptors

variable {F : Type}

structure Entry (F : Type) where
  file : F
  cloexec : Bool
  deriving DecidableEq, Repr

def Table (F : Type) : Type := Nat -> Option (Entry F)

def Table.set (table : Table F) (fd : Nat) (entry : Option (Entry F)) : Table F :=
  Function.update table fd entry

@[simp] theorem set_apply (table : Table F) (fd : Nat) (entry : Option (Entry F)) (number : Nat) :
    table.set fd entry number = if number = fd then entry else table number :=
  Function.update_apply ..

def openAt (table : Table F) (fd : Nat) (file : F) : Table F :=
  table.set fd (some { file, cloexec := false })

def close (table : Table F) (fd : Nat) : Table F :=
  table.set fd none

def setCloexec (table : Table F) (fd : Nat) : Table F :=
  match table fd with
  | none => table
  | some entry => table.set fd (some { entry with cloexec := true })

-- The copy never has FD_CLOEXEC; a descriptor copied onto itself is left as it is.
def dup2 (table : Table F) (source target : Nat) : Table F :=
  if source = target then table
  else match table source with
    | none => table
    | some entry => table.set target (some { entry with cloexec := false })

def exec (table : Table F) : Table F :=
  fun fd => (table fd).filter fun entry => !entry.cloexec

def lowestFree (limit : Nat) (table : Table F) : Option Nat :=
  (List.range limit).find? fun fd => (table fd).isNone

structure PipeFds where
  readFd : Nat
  writeFd : Nat
  deriving DecidableEq, Repr

-- Both ends get the lowest numbers free below `limit`; with fewer than two nothing is opened.
def pipe (limit : Nat) (table : Table F) (reader writer : F) : Option (PipeFds × Table F) :=
  match lowestFree limit table with
  | none => none
  | some readFd =>
      let half := openAt table readFd reader
      match lowestFree limit half with
      | none => none
      | some writeFd => some ({ readFd, writeFd }, openAt half writeFd writer)

@[simp] theorem openAt_apply (table : Table F) (fd : Nat) (file : F) (number : Nat) :
    openAt table fd file number =
      if number = fd then some { file, cloexec := false } else table number :=
  set_apply ..

@[simp] theorem close_apply (table : Table F) (fd number : Nat) :
    close table fd number = if number = fd then none else table number :=
  set_apply ..

theorem openAt_eq_none (table : Table F) (fd : Nat) (file : F) (number : Nat) :
    openAt table fd file number = none ↔ number ≠ fd ∧ table number = none := by
  by_cases same : number = fd
  · simp [same]
  · simp [same]

theorem setCloexec_apply (table : Table F) (fd number : Nat) :
    setCloexec table fd number =
      if number = fd then (table fd).map fun entry => { entry with cloexec := true }
      else table number := by
  cases opened : table fd with
  | none =>
    by_cases same : number = fd
    · simp [setCloexec, opened, same]
    · simp [setCloexec, opened, same]
  | some entry => simp [setCloexec, opened]

theorem dup2_apply (table : Table F) (source target number : Nat) (entry : Entry F)
    (apart : source ≠ target) (opened : table source = some entry) :
    dup2 table source target number =
      if number = target then some { entry with cloexec := false } else table number := by
  simp [dup2, apart, opened]

theorem exec_eq_some (table : Table F) (fd : Nat) (entry : Entry F) :
    exec table fd = some entry ↔ table fd = some entry ∧ entry.cloexec = false := by
  simp [exec, Option.filter_eq_some_iff]

theorem lowestFree_free (limit : Nat) (table : Table F) (fd : Nat)
    (found : lowestFree limit table = some fd) : table fd = none := by
  simpa using List.find?_some found

theorem lowestFree_least (limit : Nat) (table : Table F) (fd number : Nat)
    (found : lowestFree limit table = some fd) (free : table number = none) : fd ≤ number := by
  by_contra above
  obtain ⟨-, bound, taken⟩ := List.find?_range_eq_some.mp found
  have opened := taken number (by omega)
  simp [free] at opened

theorem pipe_spec (limit : Nat) (table : Table F) (reader writer : F) (fds : PipeFds)
    (after : Table F) (opened : pipe limit table reader writer = some (fds, after)) :
    table fds.readFd = none ∧ table fds.writeFd = none ∧ fds.readFd ≠ fds.writeFd ∧
      (∀ number, table number = none -> fds.readFd ≤ number) ∧
      after = openAt (openAt table fds.readFd reader) fds.writeFd writer := by
  simp only [pipe] at opened
  cases first : lowestFree limit table with
  | none => simp [first] at opened
  | some readFd =>
    cases second : lowestFree limit (openAt table readFd reader) with
    | none => simp [first, second] at opened
    | some writeFd =>
      simp only [first, second, Option.some.injEq, Prod.mk.injEq] at opened
      obtain ⟨rfl, rfl⟩ := opened
      have free := lowestFree_free limit _ writeFd second
      by_cases same : writeFd = readFd
      · simp [same] at free
      · refine ⟨lowestFree_free limit table readFd first, ?_, Ne.symm same, ?_, rfl⟩
        · simpa [same] using free
        · exact fun number => lowestFree_least limit table readFd number first

def closePair (table : Table F) (fds : PipeFds) : Table F :=
  close (close table fds.readFd) fds.writeFd

theorem closePair_pipe (limit : Nat) (table : Table F) (reader writer : F) (fds : PipeFds)
    (after : Table F) (opened : pipe limit table reader writer = some (fds, after)) :
    closePair after fds = table := by
  obtain ⟨readFree, writeFree, apart, -, rfl⟩ :=
    pipe_spec limit table reader writer fds after opened
  funext number
  by_cases write : number = fds.writeFd
  · simp [closePair, write, writeFree]
  · by_cases read : number = fds.readFd
    · simp [closePair, read, readFree]
    · simp [closePair, write, read]

theorem closePair_comm (table : Table F) (first second : PipeFds) :
    closePair (closePair table first) second = closePair (closePair table second) first := by
  funext number
  simp only [closePair, close_apply]
  grind

end WebTransportD.Descriptors
