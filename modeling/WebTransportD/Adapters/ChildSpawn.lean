import WebTransportD.Adapters.ChildProcess
import WebTransportD.Shared.Descriptors
import WebTransportD.Shared.Execution

set_option autoImplicit false

namespace WebTransportD.ChildSpawn

open ChildProcess Descriptors

inductive Role where
  | stdin
  | stdout
  | stderr
  deriving DecidableEq, Repr

inductive Side where
  | reading
  | writing
  deriving DecidableEq, Repr

-- What a descriptor of the daemon or of a child can be open on: an end of a pipe made for one of
-- the streams of the numbered spawn, or one of the daemon's own files.
inductive File where
  | pipeEnd (spawn : Nat) (role : Role) (side : Side)
  | own (id : Nat)
  deriving DecidableEq, Repr

def Role.childSide : Role -> Side
  | .stdin => .reading
  | .stdout | .stderr => .writing

def Role.daemonSide : Role -> Side
  | .stdin => .writing
  | .stdout | .stderr => .reading

def Role.fileno : Role -> Nat
  | .stdin => 0
  | .stdout => 1
  | .stderr => 2

def einval : Nat := 22

def emfile : Nat := 24

-- What the calls of one spawn answer. A `pipe` fails with the given errno, or with EMFILE when the
-- table has no room for it; `fork` gives an errno or the child's pid.
structure SpawnEnv where
  argv : List String
  pipeError : Role -> Option Nat
  fork : Except Nat Nat
  exec : Bool

-- `started` is the table the child's program begins with.
structure SpawnResult where
  ret : Int
  child : WtdChild
  table : Table File
  started : Option (Table File)

def noChild : WtdChild :=
  { pid := -1, stdinFd := -1, stdoutFd := -1, stderrFd := -1 }

def spawnFailed (errno : Nat) (table : Table File) : SpawnResult :=
  { ret := -errno, child := noChild, table, started := none }

def makePipe (limit spawn : Nat) (env : SpawnEnv) (role : Role) (table : Table File) :
    Except Nat (PipeFds × Table File) :=
  match env.pipeError role with
  | some errno => .error errno
  | none =>
      match pipe limit table (.pipeEnd spawn role .reading) (.pipeEnd spawn role .writing) with
      | none => .error emfile
      | some made => .ok made

def childBranch (table : Table File) (input output error : PipeFds) : Table File :=
  let table := dup2 table input.readFd 0
  let table := dup2 table output.writeFd 1
  let table := dup2 table error.writeFd 2
  close (close (close (close (close (close table input.readFd) input.writeFd)
    output.readFd) output.writeFd) error.readFd) error.writeFd

def parentBranch (table : Table File) (input output error : PipeFds) : Table File :=
  let table := close (close (close table input.readFd) output.writeFd) error.writeFd
  setCloexec (setCloexec (setCloexec table input.writeFd) output.readFd) error.readFd

def wtdChildSpawn (limit spawn : Nat) (env : SpawnEnv) (table : Table File) : SpawnResult :=
  if env.argv.isEmpty then spawnFailed einval table
  else match makePipe limit spawn env .stdin table with
    | .error errno => spawnFailed errno table
    | .ok (input, table) =>
        match makePipe limit spawn env .stdout table with
        | .error errno => spawnFailed errno (closePair table input)
        | .ok (output, table) =>
            match makePipe limit spawn env .stderr table with
            | .error errno => spawnFailed errno (closePair (closePair table input) output)
            | .ok (error, table) =>
                match env.fork with
                | .error errno =>
                    spawnFailed errno (closePair (closePair (closePair table input) output) error)
                | .ok pid =>
                    { ret := 0
                      child := { pid, stdinFd := input.writeFd, stdoutFd := output.readFd
                                 stderrFd := error.readFd }
                      table := parentBranch table input output error
                      started :=
                        if env.exec then some (exec (childBranch table input output error))
                        else none }

-- The same three lines stand in peer_child_close.
def closeStdin (child : WtdChild) : WtdChild × List SysCall :=
  let stdin := closeFd child.stdinFd
  ({ child with stdinFd := stdin.1 }, stdin.2)

def runCalls (table : Table File) : List SysCall -> Table File
  | [] => table
  | .close fd :: rest => runCalls (close table fd.toNat) rest
  | _ :: rest => runCalls table rest

inductive SpawnOp where
  | spawn (env : SpawnEnv)
  | terminate (spawn : Nat) (waits : Nat -> WaitOutcome)
  | closeStdin (spawn : Nat)

-- The daemon's descriptors, the `wtd_child_t` of each spawn that succeeded, and the tables that the
-- programs executed so far began with.
structure SpawnDaemon where
  table : Table File
  spawned : Nat
  children : Nat -> Option WtdChild
  started : List (Nat × Table File)

def SpawnDaemon.begun (s : SpawnDaemon) (made : SpawnResult) : SpawnDaemon :=
  { table := made.table
    spawned := s.spawned + 1
    children :=
      if made.ret = 0 then Function.update s.children s.spawned (some made.child) else s.children
    started := s.started ++ (made.started.map fun table => (s.spawned, table)).toList }

def SpawnDaemon.ended (s : SpawnDaemon) (spawn : Nat) (result : WtdChild × List SysCall) :
    SpawnDaemon :=
  { s with
    table := runCalls s.table result.2
    children := Function.update s.children spawn (some result.1) }

def spawnStep (limit : Nat) (s : SpawnDaemon) : SpawnOp -> Option SpawnDaemon
  | .spawn env => some (s.begun (wtdChildSpawn limit s.spawned env s.table))
  | .terminate spawn waits =>
      (s.children spawn).map fun child => s.ended spawn (wtdChildTerminate child waits)
  | .closeStdin spawn =>
      (s.children spawn).map fun child => s.ended spawn (closeStdin child)

def startDaemon (files : Table Nat) : SpawnDaemon :=
  { table := fun fd => (files fd).map fun entry => { entry with file := .own entry.file }
    spawned := 0
    children := fun _ => none
    started := [] }

structure Unused (table : Table File) (input output error : PipeFds) : Prop where
  distinct : [input.readFd, input.writeFd, output.readFd, output.writeFd, error.readFd,
    error.writeFd].Nodup
  free : ∀ fd ∈ [input.readFd, input.writeFd, output.readFd, output.writeFd, error.readFd,
    error.writeFd], table fd = none

def piped (spawn : Nat) (role : Role) (table : Table File) (fds : PipeFds) : Table File :=
  openAt (openAt table fds.readFd (.pipeEnd spawn role .reading)) fds.writeFd
    (.pipeEnd spawn role .writing)

def threePipes (spawn : Nat) (table : Table File) (input output error : PipeFds) : Table File :=
  piped spawn .stderr (piped spawn .stdout (piped spawn .stdin table input) output) error

theorem makePipe_spec (limit spawn : Nat) (env : SpawnEnv) (role : Role) (table after : Table File)
    (fds : PipeFds) (made : makePipe limit spawn env role table = .ok (fds, after)) :
    table fds.readFd = none ∧ table fds.writeFd = none ∧ fds.readFd ≠ fds.writeFd ∧
      (∀ number, table number = none -> fds.readFd ≤ number) ∧
      after = piped spawn role table fds ∧ closePair after fds = table := by
  simp only [makePipe] at made
  cases failing : env.pipeError role with
  | some errno => simp [failing] at made
  | none =>
    simp only [failing] at made
    split at made
    next => simp at made
    next result opened =>
      obtain rfl : result = (fds, after) := by simpa using made
      obtain ⟨read, write, apart, least, rest⟩ := pipe_spec limit table _ _ fds after opened
      exact ⟨read, write, apart, least, rest, closePair_pipe limit table _ _ fds after opened⟩

theorem threePipes_unused (limit spawn : Nat) (env : SpawnEnv)
    (table first second third : Table File) (input output error : PipeFds)
    (stdin : makePipe limit spawn env .stdin table = .ok (input, first))
    (stdout : makePipe limit spawn env .stdout first = .ok (output, second))
    (stderr : makePipe limit spawn env .stderr second = .ok (error, third)) :
    Unused table input output error ∧ third = threePipes spawn table input output error := by
  obtain ⟨inputRead, inputWrite, inputApart, -, rfl, -⟩ :=
    makePipe_spec limit spawn env .stdin table first input stdin
  obtain ⟨outputRead, outputWrite, outputApart, -, rfl, -⟩ :=
    makePipe_spec limit spawn env .stdout _ second output stdout
  obtain ⟨errorRead, errorWrite, errorApart, -, rfl, -⟩ :=
    makePipe_spec limit spawn env .stderr _ third error stderr
  -- A number that is free after the earlier pipes was free before them and is none of theirs.
  simp only [piped, openAt_eq_none] at outputRead outputWrite errorRead errorWrite
  refine ⟨⟨?_, ?_⟩, rfl⟩
  · simp only [List.nodup_cons, List.mem_cons, List.not_mem_nil, or_false, not_or, List.nodup_nil]
    grind
  · simp only [List.forall_mem_cons]
    grind

theorem parentBranch_apply (spawn : Nat) (table : Table File) (input output error : PipeFds)
    (unused : Unused table input output error) (number : Nat) :
    parentBranch (threePipes spawn table input output error) input output error number =
      if number = input.writeFd then
        some { file := .pipeEnd spawn .stdin .writing, cloexec := true }
      else if number = output.readFd then
        some { file := .pipeEnd spawn .stdout .reading, cloexec := true }
      else if number = error.readFd then
        some { file := .pipeEnd spawn .stderr .reading, cloexec := true }
      else table number := by
  obtain ⟨distinct, free⟩ := unused
  simp only [List.nodup_cons, List.mem_cons, List.not_mem_nil, or_false, not_or, List.nodup_nil,
    forall_eq_or_imp, forall_eq] at distinct free
  simp only [parentBranch, setCloexec_apply, close_apply, threePipes, piped, openAt_apply]
  grind

theorem childBranch_apply (spawn : Nat) (table : Table File) (input output error : PipeFds)
    (unused : Unused table input output error) (standard : ∀ fd < 3, (table fd).isSome = true)
    (number : Nat) :
    childBranch (threePipes spawn table input output error) input output error number =
      if number = 0 then some { file := .pipeEnd spawn .stdin .reading, cloexec := false }
      else if number = 1 then some { file := .pipeEnd spawn .stdout .writing, cloexec := false }
      else if number = 2 then some { file := .pipeEnd spawn .stderr .writing, cloexec := false }
      else table number := by
  have above : ∀ fd, table fd = none -> 3 ≤ fd := by
    intro fd none
    by_contra low
    have opened := standard fd (by omega)
    simp [none] at opened
  obtain ⟨distinct, free⟩ := unused
  have low := fun fd member => above fd (free fd member)
  simp only [List.nodup_cons, List.mem_cons, List.not_mem_nil, or_false, not_or, List.nodup_nil,
    forall_eq_or_imp, forall_eq] at distinct free low
  have input0 : threePipes spawn table input output error input.readFd =
      some { file := .pipeEnd spawn .stdin .reading, cloexec := false } := by
    simp [threePipes, piped, distinct]
  have output1 : threePipes spawn table input output error output.writeFd =
      some { file := .pipeEnd spawn .stdout .writing, cloexec := false } := by
    simp [threePipes, piped, distinct]
  have error2 : threePipes spawn table input output error error.writeFd =
      some { file := .pipeEnd spawn .stderr .writing, cloexec := false } := by
    simp [threePipes, piped]
  have dupped0 := fun number => dup2_apply _ input.readFd 0 number _ (by omega) input0
  have dupped1 := fun number => dup2_apply _ output.writeFd 1 number _ (by omega)
    ((dupped0 output.writeFd).trans (by rw [if_neg (by omega), output1]))
  have dupped2 := fun number => dup2_apply _ error.writeFd 2 number _ (by omega)
    ((dupped1 error.writeFd).trans (by
      rw [if_neg (by omega), dupped0, if_neg (by omega), error2]))
  simp only [childBranch, close_apply, dupped2, dupped1, dupped0]
  simp only [threePipes, piped, openAt_apply]
  grind

theorem wtdChildSpawn_cases (limit spawn : Nat) (env : SpawnEnv) (table : Table File) :
    (∃ errno, wtdChildSpawn limit spawn env table = spawnFailed errno table) ∨
      ∃ input output error pid, Unused table input output error ∧
        (∀ number, table number = none -> input.readFd ≤ number) ∧ env.fork = .ok pid ∧
        wtdChildSpawn limit spawn env table =
          { ret := 0
            child := { pid, stdinFd := input.writeFd, stdoutFd := output.readFd
                       stderrFd := error.readFd }
            table := parentBranch (threePipes spawn table input output error) input output error
            started :=
              if env.exec then
                some (exec (childBranch (threePipes spawn table input output error)
                  input output error))
              else none } := by
  simp only [wtdChildSpawn]
  split
  next => exact .inl ⟨einval, rfl⟩
  next =>
    rcases stdin : makePipe limit spawn env .stdin table with errno | ⟨input, first⟩
    · exact .inl ⟨errno, rfl⟩
    · obtain ⟨-, -, -, least, -, undo1⟩ :=
        makePipe_spec limit spawn env .stdin table first input stdin
      rcases stdout : makePipe limit spawn env .stdout first with errno | ⟨output, second⟩
      · exact .inl ⟨errno, by simp only [stdout, undo1]⟩
      · have undo2 := (makePipe_spec limit spawn env .stdout first second output stdout).2.2.2.2.2
        rcases stderr : makePipe limit spawn env .stderr second with errno | ⟨error, third⟩
        · refine .inl ⟨errno, ?_⟩
          simp only [stdout, stderr, closePair_comm second input output, undo2, undo1]
        · have undo3 := (makePipe_spec limit spawn env .stderr second third error stderr).2.2.2.2.2
          rcases forked : env.fork with errno | pid
          · refine .inl ⟨errno, ?_⟩
            simp only [stdout, stderr, closePair_comm _ output error,
              closePair_comm third input error, undo3, closePair_comm second input output, undo2,
              undo1]
          · obtain ⟨unused, rfl⟩ := threePipes_unused limit spawn env table first second third
              input output error stdin stdout stderr
            refine .inr ⟨input, output, error, pid, unused, least, rfl, ?_⟩
            simp only [stdout, stderr]

theorem runCalls_append (table : Table File) (first second : List SysCall) :
    runCalls table (first ++ second) = runCalls (runCalls table first) second := by
  fun_induction runCalls table first with
  | case1 => rfl
  | case2 table fd rest ih => exact ih
  | case3 table call rest other ih =>
    cases call with
    | close fd => exact absurd rfl (other fd)
    | _ => exact ih

theorem runCalls_ofProcess (table : Table File) (calls : List SysCall)
    (process : calls.all SysCall.ofProcess = true) : runCalls table calls = table := by
  induction calls with
  | nil => rfl
  | cons call rest ih =>
    simp only [List.all_cons, Bool.and_eq_true] at process
    cases call with
    | write _ _ _ | close _ => simp [SysCall.ofProcess] at process
    | _ => exact ih process.2

theorem runCalls_closeFd (table : Table File) (fd : Int) (number : Nat) :
    runCalls table (closeFd fd).2 number = if fd = number then none else table number := by
  by_cases opened : fd ≥ 0
  · simp only [closeFd, opened, if_true, runCalls, close_apply]
    grind
  · simp only [closeFd, opened, if_false, runCalls]
    grind

def Role.fd (child : WtdChild) : Role -> Int
  | .stdin => child.stdinFd
  | .stdout => child.stdoutFd
  | .stderr => child.stderrFd

structure OwnEndsOnly (spawn : Nat) (table : Table File) : Prop where
  wired : ∀ role : Role, (table role.fileno).map Entry.file =
    some (.pipeEnd spawn role role.childSide)
  nothingElse : ∀ fd entry other role side, table fd = some entry ->
    entry.file = .pipeEnd other role side ->
    other = spawn ∧ side = role.childSide ∧ fd = role.fileno

structure Owned (s : SpawnDaemon) : Prop where
  standard : ∀ fd < 3, ∃ id cloexec, s.table fd = some { file := .own id, cloexec }
  held : ∀ fd entry spawn role side, s.table fd = some entry ->
    entry.file = .pipeEnd spawn role side ->
    entry.cloexec = true ∧ side = role.daemonSide ∧
      ∃ child, s.children spawn = some child ∧ role.fd child = fd
  owns : ∀ spawn child (role : Role) (fd : Nat), s.children spawn = some child ->
    role.fd child = fd ->
    s.table fd = some { file := .pipeEnd spawn role role.daemonSide, cloexec := true }
  unspawned : ∀ spawn, s.spawned ≤ spawn -> s.children spawn = none
  started : ∀ spawn table, (spawn, table) ∈ s.started -> OwnEndsOnly spawn table

theorem owned_start (files : Table Nat) (standard : ∀ fd < 3, (files fd).isSome = true) :
    Owned (startDaemon files) where
  standard fd low := by
    obtain ⟨entry, opened⟩ := Option.isSome_iff_exists.mp (standard fd low)
    exact ⟨entry.file, entry.cloexec, by simp [startDaemon, opened]⟩
  held fd entry spawn role side opened pipeEnd := by
    obtain ⟨before, -, rfl⟩ := Option.map_eq_some_iff.mp opened
    simp at pipeEnd
  owns spawn child role fd known := by simp [startDaemon] at known
  unspawned spawn _ := rfl
  started spawn table member := by simp [startDaemon] at member

theorem owned_ended (s : SpawnDaemon) (owned : Owned s) (spawn : Nat) (child : WtdChild)
    (known : s.children spawn = some child) (result : WtdChild × List SysCall)
    (closed : Role -> Prop)
    (dropped : ∀ role, closed role -> role.fd result.1 < 0)
    (kept : ∀ role, ¬ closed role -> role.fd result.1 = role.fd child)
    (calls : ∀ number entry, runCalls s.table result.2 number = some entry ↔
      s.table number = some entry ∧ ∀ role, closed role -> role.fd child ≠ number) :
    Owned (s.ended spawn result) where
  standard fd low := by
    obtain ⟨id, cloexec, opened⟩ := owned.standard fd low
    refine ⟨id, cloexec, (calls fd _).mpr ⟨opened, fun role _ same => ?_⟩⟩
    simp [owned.owns spawn child role fd known same] at opened
  held fd entry other role side opened pipeEnd := by
    obtain ⟨before, apart⟩ := (calls fd entry).mp opened
    obtain ⟨cloexec, ours, owner, recorded, field⟩ := owned.held fd entry other role side before
      pipeEnd
    refine ⟨cloexec, ours, ?_⟩
    by_cases same : other = spawn
    · subst same
      obtain rfl : child = owner := by simpa [known] using recorded
      have still : ¬ closed role := fun gone => apart role gone field
      exact ⟨result.1, by simp [SpawnDaemon.ended], (kept role still).trans field⟩
    · exact ⟨owner, by simpa [SpawnDaemon.ended, same] using recorded, field⟩
  owns other owner role fd recorded field := by
    by_cases same : other = spawn
    · subst same
      obtain rfl : result.1 = owner := by simpa [SpawnDaemon.ended] using recorded
      have still : ¬ closed role := fun gone => by
        have negative := dropped role gone
        omega
      have before := owned.owns other child role fd known ((kept role still).symm.trans field)
      refine (calls fd _).mpr ⟨before, fun second gone shared => ?_⟩
      have again := owned.owns other child second fd known shared
      obtain rfl : role = second := by simp_all
      exact still gone
    · have before := owned.owns other owner role fd
        (by simpa [SpawnDaemon.ended, same] using recorded) field
      refine (calls fd _).mpr ⟨before, fun second gone shared => ?_⟩
      have again := owned.owns spawn child second fd known shared
      simp_all
  unspawned other later := by
    by_cases same : other = spawn
    · subst same
      simp [owned.unspawned other later] at known
    · simpa [SpawnDaemon.ended, same] using owned.unspawned other later
  started := owned.started

theorem owned_closeStdin (s : SpawnDaemon) (owned : Owned s) (spawn : Nat) (child : WtdChild)
    (known : s.children spawn = some child) : Owned (s.ended spawn (closeStdin child)) := by
  apply owned_ended s owned spawn child known _ (· = .stdin)
  · rintro role rfl
    exact closeFd_closed child.stdinFd
  · intro role other
    cases role <;> simp_all [closeStdin, Role.fd]
  · intro number entry
    simp only [closeStdin, runCalls_closeFd, forall_eq, Role.fd]
    split_ifs with same <;> simp [same]

theorem owned_terminate (s : SpawnDaemon) (owned : Owned s) (spawn : Nat) (child : WtdChild)
    (known : s.children spawn = some child) (waits : Nat -> WaitOutcome) :
    Owned (s.ended spawn (wtdChildTerminate child waits)) := by
  obtain ⟨pid, ended, process, eq⟩ := wtdChildTerminate_eq child waits
  rw [eq]
  apply owned_ended s owned spawn child known _ (fun _ => True)
  · intro role _
    cases role <;> apply closeFd_closed
  · intro role other
    exact absurd trivial other
  · intro number entry
    simp only [runCalls_append, runCalls_ofProcess _ ended process, runCalls_closeFd]
    constructor
    · intro opened
      split_ifs at opened with stderr stdout stdin
      refine ⟨opened, fun role _ => ?_⟩
      cases role <;> assumption
    · rintro ⟨opened, apart⟩
      have stdin := apart .stdin trivial
      have stdout := apart .stdout trivial
      have stderr := apart .stderr trivial
      simp_all [Role.fd]

theorem childBranch_streams (spawn : Nat) (table : Table File) (input output error : PipeFds)
    (unused : Unused table input output error) (standard : ∀ fd < 3, (table fd).isSome = true)
    (role : Role) :
    (exec (childBranch (threePipes spawn table input output error) input output error)
      role.fileno).map Entry.file = some (.pipeEnd spawn role role.childSide) := by
  have begins := childBranch_apply spawn table input output error unused standard
  cases role <;> simp [exec, begins, Role.fileno, Role.childSide]

theorem childBranch_open (spawn : Nat) (table : Table File) (input output error : PipeFds)
    (unused : Unused table input output error) (standard : ∀ fd < 3, (table fd).isSome = true)
    (fd : Nat) (entry : Entry File)
    (opened : exec (childBranch (threePipes spawn table input output error) input output error) fd =
      some entry) :
    (∃ role : Role, fd = role.fileno ∧ entry.file = .pipeEnd spawn role role.childSide) ∨
      table fd = some entry ∧ entry.cloexec = false := by
  obtain ⟨before, inherited⟩ := (exec_eq_some _ fd entry).mp opened
  rw [childBranch_apply spawn table input output error unused standard] at before
  split_ifs at before with stdin stdout stderr
  · exact .inl ⟨.stdin, stdin, by simp [← Option.some.inj before, Role.childSide]⟩
  · exact .inl ⟨.stdout, stdout, by simp [← Option.some.inj before, Role.childSide]⟩
  · exact .inl ⟨.stderr, stderr, by simp [← Option.some.inj before, Role.childSide]⟩
  · exact .inr ⟨before, inherited⟩

theorem childBranch_ownEndsOnly (s : SpawnDaemon) (owned : Owned s) (input output error : PipeFds)
    (unused : Unused s.table input output error) :
    OwnEndsOnly s.spawned (exec
      (childBranch (threePipes s.spawned s.table input output error) input output error)) := by
  have standard : ∀ fd < 3, (s.table fd).isSome = true := by
    intro fd low
    obtain ⟨id, cloexec, opened⟩ := owned.standard fd low
    simp [opened]
  constructor
  · exact childBranch_streams s.spawned s.table input output error unused standard
  · intro fd entry other role side opened pipeEnd
    have found := childBranch_open s.spawned s.table input output error unused standard fd entry
      opened
    rcases found with ⟨own, number, file⟩ | ⟨before, inherited⟩
    · obtain ⟨rfl, rfl, rfl⟩ := File.pipeEnd.inj (file.symm.trans pipeEnd)
      exact ⟨rfl, rfl, number⟩
    · -- What the daemon holds of other children's pipes is all closed by exec.
      have guarded := (owned.held fd entry other role side before pipeEnd).1
      simp [inherited] at guarded

theorem begun_children (s : SpawnDaemon) (owned : Owned s) (made : SpawnResult) (spawn : Nat)
    (child : WtdChild) :
    (s.begun made).children spawn = some child ↔
      s.children spawn = some child ∨ spawn = s.spawned ∧ made.ret = 0 ∧ made.child = child := by
  have unknown := owned.unspawned s.spawned (Nat.le_refl _)
  by_cases succeeded : made.ret = 0
  · by_cases same : spawn = s.spawned
    · simp [SpawnDaemon.begun, succeeded, same, unknown]
    · simp [SpawnDaemon.begun, succeeded, same]
  · simp [SpawnDaemon.begun, succeeded]

theorem owned_begun (s : SpawnDaemon) (owned : Owned s) (made : SpawnResult)
    (kept : ∀ fd, s.table fd ≠ none -> made.table fd = s.table fd)
    (added : ∀ fd entry, made.table fd = some entry -> s.table fd = some entry ∨
      ∃ role : Role, made.ret = 0 ∧ role.fd made.child = fd ∧
        entry = { file := .pipeEnd s.spawned role role.daemonSide, cloexec := true })
    (recorded : ∀ (role : Role) (fd : Nat), role.fd made.child = fd ->
      made.table fd = some { file := .pipeEnd s.spawned role role.daemonSide, cloexec := true })
    (executed : ∀ table, made.started = some table -> OwnEndsOnly s.spawned table) :
    Owned (s.begun made) where
  standard fd low := by
    obtain ⟨id, cloexec, opened⟩ := owned.standard fd low
    exact ⟨id, cloexec, (kept fd (by simp [opened])).trans opened⟩
  held fd entry spawn role side opened pipeEnd := by
    simp only [begun_children s owned made]
    rcases added fd entry opened with before | ⟨own, succeeded, field, rfl⟩
    · obtain ⟨cloexec, ours, child, known, field⟩ := owned.held fd entry spawn role side before
        pipeEnd
      exact ⟨cloexec, ours, child, .inl known, field⟩
    · obtain ⟨rfl, rfl, rfl⟩ := File.pipeEnd.inj pipeEnd
      exact ⟨rfl, rfl, made.child, .inr ⟨rfl, succeeded, rfl⟩, field⟩
  owns spawn child role fd known field := by
    rcases (begun_children s owned made spawn child).mp known with earlier | ⟨rfl, -, rfl⟩
    · have before := owned.owns spawn child role fd earlier field
      exact (kept fd (by simp [before])).trans before
    · exact recorded role fd field
  unspawned spawn later := by
    by_contra present
    obtain ⟨child, known⟩ := Option.ne_none_iff_exists'.mp present
    have bound : s.spawned + 1 ≤ spawn := later
    rcases (begun_children s owned made spawn child).mp known with earlier | ⟨here, -⟩
    · simp [owned.unspawned spawn (by omega)] at earlier
    · omega
  started spawn table member := by
    rcases List.mem_append.mp member with earlier | here
    · exact owned.started spawn table earlier
    · obtain ⟨begins, rfl⟩ : made.started = some table ∧ s.spawned = spawn := by
        simpa using here
      exact executed table begins

theorem wtdChildSpawn_opens (limit spawn : Nat) (env : SpawnEnv) (table : Table File)
    (made : SpawnResult) (result : wtdChildSpawn limit spawn env table = made) :
    (∀ fd, table fd ≠ none -> made.table fd = table fd) ∧
    (∀ fd entry, made.table fd = some entry -> table fd = some entry ∨
      ∃ role : Role, made.ret = 0 ∧ role.fd made.child = fd ∧
        entry = { file := .pipeEnd spawn role role.daemonSide, cloexec := true }) ∧
    ∀ (role : Role) (fd : Nat), role.fd made.child = fd ->
      made.table fd = some { file := .pipeEnd spawn role role.daemonSide, cloexec := true } := by
  rcases wtdChildSpawn_cases limit spawn env table with
    ⟨errno, failed⟩ | ⟨input, output, error, pid, unused, -, -, succeeded⟩
  · obtain rfl := failed.symm.trans result
    refine ⟨fun fd _ => rfl, fun fd entry opened => .inl opened, ?_⟩
    intro role fd field
    have closed : role.fd noChild = -1 := by cases role <;> rfl
    have field : role.fd noChild = fd := field
    omega
  · obtain rfl := succeeded.symm.trans result
    have after := parentBranch_apply spawn table input output error unused
    refine ⟨?_, ?_, ?_⟩
    · intro fd opened
      have apart := fun member => opened (unused.free fd member)
      grind
    · intro fd entry opened
      simp only [after] at opened
      split_ifs at opened with stdin stdout stderr
      · exact .inr ⟨.stdin, rfl, by simp [Role.fd, stdin], (Option.some.inj opened).symm⟩
      · exact .inr ⟨.stdout, rfl, by simp [Role.fd, stdout], (Option.some.inj opened).symm⟩
      · exact .inr ⟨.stderr, rfl, by simp [Role.fd, stderr], (Option.some.inj opened).symm⟩
      · exact .inl opened
    · intro role fd field
      have distinct := unused.distinct
      simp only [List.nodup_cons, List.mem_cons, not_or] at distinct
      cases role <;> obtain rfl := Int.ofNat_inj.mp field <;> grind [Role.daemonSide]

theorem wtdChildSpawn_started (limit spawn : Nat) (env : SpawnEnv) (table program : Table File)
    (begins : (wtdChildSpawn limit spawn env table).started = some program) :
    ∃ input output error, Unused table input output error ∧
      (∀ number, table number = none -> input.readFd ≤ number) ∧
      program = exec (childBranch (threePipes spawn table input output error)
        input output error) := by
  rcases wtdChildSpawn_cases limit spawn env table with
    ⟨errno, failed⟩ | ⟨input, output, error, pid, unused, least, -, succeeded⟩
  · simp [failed, spawnFailed] at begins
  · obtain ⟨-, rfl⟩ : env.exec = true ∧ exec _ = program := by simpa [succeeded] using begins
    exact ⟨input, output, error, unused, least, rfl⟩

theorem owned_spawn (limit : Nat) (s : SpawnDaemon) (env : SpawnEnv) (owned : Owned s) :
    Owned (s.begun (wtdChildSpawn limit s.spawned env s.table)) := by
  obtain ⟨kept, added, recorded⟩ := wtdChildSpawn_opens limit s.spawned env s.table _ rfl
  refine owned_begun s owned _ kept added recorded ?_
  intro table begins
  obtain ⟨input, output, error, unused, -, rfl⟩ :=
    wtdChildSpawn_started limit s.spawned env s.table table begins
  exact childBranch_ownEndsOnly s owned input output error unused

theorem spawnStep_owned (limit : Nat) (s : SpawnDaemon) (op : SpawnOp) (next : SpawnDaemon)
    (owned : Owned s) (taken : spawnStep limit s op = some next) : Owned next := by
  cases op with
  | spawn env =>
    obtain rfl := Option.some.inj taken
    exact owned_spawn limit s env owned
  | terminate spawn waits =>
    obtain ⟨child, known, rfl⟩ := Option.map_eq_some_iff.mp taken
    exact owned_terminate s owned spawn child known waits
  | closeStdin spawn =>
    obtain ⟨child, known, rfl⟩ := Option.map_eq_some_iff.mp taken
    exact owned_closeStdin s owned spawn child known

theorem failed_spawn_restores (limit spawn : Nat) (env : SpawnEnv) (table : Table File)
    (failed : (wtdChildSpawn limit spawn env table).ret ≠ 0) :
    (wtdChildSpawn limit spawn env table).table = table := by
  rcases wtdChildSpawn_cases limit spawn env table with
    ⟨errno, result⟩ | ⟨input, output, error, pid, -, -, -, result⟩
  · rw [result]
    rfl
  · simp [result] at failed

theorem children_never_share_pipes (limit : Nat) (files : Table Nat)
    (standard : ∀ fd < 3, (files fd).isSome = true) (schedule : List SpawnOp) (s : SpawnDaemon)
    (run : Execution.exec (spawnStep limit) (startDaemon files) schedule = some s) :
    (∀ spawn table, (spawn, table) ∈ s.started -> OwnEndsOnly spawn table) ∧
      (∀ fd entry spawn role side, s.table fd = some entry ->
        entry.file = .pipeEnd spawn role side ->
        side = role.daemonSide ∧ ∃ child, s.children spawn = some child ∧ role.fd child = fd) ∧
      (∀ env, (wtdChildSpawn limit s.spawned env s.table).ret ≠ 0 ->
        (wtdChildSpawn limit s.spawned env s.table).table = s.table) := by
  have owned : Owned s := Execution.exec_invariant (spawnStep limit) Owned
    (spawnStep_owned limit) (startDaemon files) s schedule (owned_start files standard) run
  refine ⟨owned.started, ?_, fun env => failed_spawn_restores limit s.spawned env s.table⟩
  intro fd entry spawn role side opened pipeEnd
  exact (owned.held fd entry spawn role side opened pipeEnd).2

def stdio : Table Nat := fun fd => if fd < 3 then some { file := fd, cloexec := false } else none

def spawning (pid : Nat) : SpawnOp :=
  .spawn { argv := ["cat"], pipeError := fun _ => none, fork := .ok pid, exec := true }

-- Two sessions, the first of which ends, so that the third spawn gets its numbers again.
def sessionsInTurn : List SpawnOp :=
  [spawning 100, spawning 101, .closeStdin 0, .terminate 0 fun _ => .reaped, spawning 102]

theorem children_never_share_pipes_in_turn :
    ∃ s, Execution.exec (spawnStep 64) (startDaemon stdio) sessionsInTurn = some s ∧
      s.started.length = 3 ∧
      (s.children 2).map WtdChild.stdinFd = some 4 ∧
      ∀ spawn table, (spawn, table) ∈ s.started -> OwnEndsOnly spawn table :=
  ⟨_, rfl, by decide, by decide,
    (children_never_share_pipes 64 stdio (by decide) sessionsInTurn _ rfl).1⟩

structure Wired (spawn : Nat) (table : Table File) : Prop where
  streams : ∀ role : Role, (table role.fileno).map Entry.file =
    some (.pipeEnd spawn role role.childSide)
  others : ∀ fd entry (role : Role), table fd = some entry ->
    entry.file ≠ .pipeEnd spawn role role.daemonSide

-- With descriptors 0, 1 and 2 open the pipes get higher numbers. With one of them closed the first
-- pipe's reading end gets a number below 3, which is closed again before exec.
theorem child_wired_iff (limit spawn : Nat) (env : SpawnEnv) (table program : Table File)
    (fresh : ∀ fd entry role side, table fd = some entry ->
      entry.file ≠ .pipeEnd spawn role side)
    (begins : (wtdChildSpawn limit spawn env table).started = some program) :
    Wired spawn program ↔ ∀ fd < 3, (table fd).isSome = true := by
  obtain ⟨input, output, error, unused, least, rfl⟩ :=
    wtdChildSpawn_started limit spawn env table program begins
  constructor
  · intro wired fd low
    by_contra closed
    have reused := least fd (by simpa using closed)
    obtain ⟨role, standard⟩ : ∃ role : Role, role.fileno = input.readFd := by
      have small : input.readFd = 0 ∨ input.readFd = 1 ∨ input.readFd = 2 := by omega
      rcases small with same | same | same
      · exact ⟨.stdin, same.symm⟩
      · exact ⟨.stdout, same.symm⟩
      · exact ⟨.stderr, same.symm⟩
    have stream := wired.streams role
    simp [standard, exec, childBranch] at stream
  · intro standard
    constructor
    · exact childBranch_streams spawn table input output error unused standard
    · intro fd entry role opened
      rcases childBranch_open spawn table input output error unused standard fd entry opened with
        ⟨own, -, file⟩ | ⟨before, -⟩
      · rw [file]
        intro same
        obtain ⟨-, rfl, side⟩ := File.pipeEnd.inj same
        cases own <;> simp [Role.childSide, Role.daemonSide] at side
      · exact fresh fd entry role role.daemonSide before

def catEnv : SpawnEnv :=
  { argv := ["cat"], pipeError := fun _ => none, fork := .ok 100, exec := true }

theorem child_wired_with_stdio :
    ∃ program, (wtdChildSpawn 64 0 catEnv (startDaemon stdio).table).started = some program ∧
      Wired 0 program := by
  refine ⟨_, rfl, (child_wired_iff 64 0 catEnv (startDaemon stdio).table _ ?_ rfl).mpr (by decide)⟩
  intro fd entry role side opened
  obtain ⟨before, -, rfl⟩ := Option.map_eq_some_iff.mp opened
  simp

-- A daemon started with descriptor 0 closed: pipe returns 0 for in_pipe[0].
theorem child_stdin_closed :
    ∃ program,
      (wtdChildSpawn 64 0 catEnv (startDaemon (close stdio 0)).table).started = some program ∧
      program 0 = none ∧ ¬ Wired 0 program := by
  refine ⟨_, rfl, rfl, fun wired => ?_⟩
  exact absurd (wired.streams .stdin) (by decide)

end WebTransportD.ChildSpawn
