import WebTransportD.Adapters.ChildSpawn
import WebTransportD.Adapters.CmdlineBuild
import WebTransportD.Adapters.ExecCommand
import WebTransportD.Shared.Execution

set_option autoImplicit false

namespace WebTransportD.WinProcess

open CmdlineBuild Memory ExecCommand
open CmdlineSplit (tokens tokens_blank tokens_found)
open ChildSpawn (Role Side einval)
open Descriptors (PipeFds)

inductive Object where
  | own (id : Nat)
  | pipeEnd (spawn : Nat) (role : Role) (side : Side)
  | process (spawn : Nat)
  | thread (spawn : Nat)
  deriving DecidableEq, Repr

structure Handle where
  object : Object
  inherit : Bool
  deriving DecidableEq, Repr

-- The handles of the daemon, the handle behind each descriptor of the C runtime, and which of the
-- processes it created have not ended.
@[ext] structure WinState where
  handles : Nat -> Option Handle
  fds : Nat -> Option Nat
  running : Nat -> Bool

-- A `wtd_child_t`; a `pid` of zero is NULL.
structure WinChild where
  pid : Nat
  stdinFd : Int
  stdoutFd : Int
  stderrFd : Int
  deriving DecidableEq, Repr

def noChild : WinChild :=
  { pid := 0, stdinFd := -1, stdoutFd := -1, stderrFd := -1 }

def fdOf (child : WinChild) : Role -> Int
  | .stdin => child.stdinFd
  | .stdout => child.stdoutFd
  | .stderr => child.stderrFd

def eio : Nat := 5

def e2big : Nat := 7

-- What the calls of one spawn answer; `cmdline` is what the array on the stack holds before.
structure WinEnv where
  argv : List (List UInt8)
  cmdline : Nat -> UInt8
  pipe : Role -> Option PipeFds
  hidden : Role -> Bool
  process : Option (Nat × Nat)
  openFd : Role -> Option Nat

-- The system hands out numbers that are neither NULL nor in use.
def unused (w : WinState) (h : Nat) : Bool :=
  h != 0 && (w.handles h).isNone

def setHandle (w : WinState) (h : Nat) (handle : Option Handle) : WinState :=
  { w with handles := Function.update w.handles h handle }

def closeHandle (w : WinState) (h : Nat) : WinState :=
  if h = 0 then w else setHandle w h none

def closeAll (w : WinState) : List Nat -> WinState
  | [] => w
  | h :: rest => closeAll (closeHandle w h) rest

def createPipe (answer : Option PipeFds) (spawn : Nat) (role : Role) (w : WinState) :
    Option (PipeFds × WinState) :=
  match answer with
  | none => none
  | some ends =>
      if unused w ends.readFd && unused w ends.writeFd && ends.readFd != ends.writeFd then
        let w := setHandle w ends.readFd
          (some { object := .pipeEnd spawn role .reading, inherit := true })
        some (ends, setHandle w ends.writeFd
          (some { object := .pipeEnd spawn role .writing, inherit := true }))
      else none

-- SetHandleInformation(h, HANDLE_FLAG_INHERIT, 0); what it returns is not looked at.
def hide (done : Bool) (w : WinState) (h : Nat) : WinState :=
  match w.handles h with
  | some handle => if done then setHandle w h (some { handle with inherit := false }) else w
  | none => w

def inherited (w : WinState) : Nat -> Option Handle :=
  fun h => (w.handles h).filter Handle.inherit

def createProcess (answer : Option (Nat × Nat)) (spawn : Nat) (w : WinState) :
    Option ((Nat × Nat) × WinState) :=
  match answer with
  | none => none
  | some (process, thread) =>
      if unused w process && unused w thread && process != thread then
        let w := setHandle w process (some { object := .process spawn, inherit := false })
        let w := setHandle w thread (some { object := .thread spawn, inherit := false })
        some ((process, thread), { w with running := Function.update w.running spawn true })
      else none

def endProcess (w : WinState) (h : Nat) : WinState :=
  match w.handles h with
  | some { object := .process spawn, .. } =>
      { w with running := Function.update w.running spawn false }
  | _ => w

-- WaitForSingleObject(h, 500); `exits` says that the process ends while it waits.
def waitShortly (w : WinState) (h : Nat) (exits : Bool) : Bool × WinState :=
  match w.handles h with
  | some { object := .process spawn, .. } =>
      if w.running spawn then (exits, if exits then endProcess w h else w) else (true, w)
  | _ => (false, w)

def openOsfhandle (answer : Option Nat) (h : Nat) (w : WinState) : Int × WinState :=
  match answer with
  | none => (-1, w)
  | some fd =>
      if (w.fds fd).isSome then (-1, w)
      else (fd, { w with fds := Function.update w.fds fd (some h) })

-- _close, which also closes the handle behind the descriptor.
def crtClose (w : WinState) (fd : Nat) : WinState :=
  match w.fds fd with
  | none => w
  | some h => { setHandle w h none with fds := Function.update w.fds fd none }

def closeFd (w : WinState) (fd : Int) : Int × WinState :=
  if fd ≥ 0 then (-1, crtClose w fd.toNat) else (fd, w)

def closeEither (w : WinState) (fd : Int) (h : Nat) : WinState :=
  if fd ≥ 0 then crtClose w fd.toNat else closeHandle w h

-- `started` is the command line and the handles that the child's program begins with.
structure WinResult where
  ret : Int
  child : WinChild
  win : WinState
  started : Option ((Nat -> UInt8) × (Nat -> Option Handle))

def spawnFailed (errno : Nat) (w : WinState) : WinResult :=
  { ret := -errno, child := noChild, win := w, started := none }

def hideThree (w : WinState) (done : Role -> Bool) (ends : Role -> Nat) : WinState :=
  hide (done .stderr) (hide (done .stdout) (hide (done .stdin) w (ends .stdin)) (ends .stdout))
    (ends .stderr)

def daemonEnd (input output error : PipeFds) : Role -> Nat
  | .stdin => input.writeFd
  | .stdout => output.readFd
  | .stderr => error.readFd

-- From the three _open_osfhandle on.
def wrapHandles (env : WinEnv) (process : Nat) (ends : Role -> Nat)
    (started : (Nat -> UInt8) × (Nat -> Option Handle)) (w : WinState) : WinResult :=
  let input := openOsfhandle (env.openFd .stdin) (ends .stdin) w
  let output := openOsfhandle (env.openFd .stdout) (ends .stdout) input.2
  let error := openOsfhandle (env.openFd .stderr) (ends .stderr) output.2
  if input.1 < 0 || output.1 < 0 || error.1 < 0 then
    let w := closeEither error.2 input.1 (ends .stdin)
    let w := closeEither w output.1 (ends .stdout)
    let w := closeEither w error.1 (ends .stderr)
    let w := setHandle (endProcess w process) process none
    { ret := -eio, child := noChild, win := w, started := some started }
  else
    { ret := 0
      child := { pid := process, stdinFd := input.1, stdoutFd := output.1, stderrFd := error.1 }
      win := error.2, started := some started }

def wtdChildSpawn (spawn : Nat) (env : WinEnv) (w : WinState) : WinResult :=
  if env.argv.isEmpty then spawnFailed einval w
  else match createPipe (env.pipe .stdin) spawn .stdin w with
    | none => spawnFailed eio w
    | some (input, w) =>
        match createPipe (env.pipe .stdout) spawn .stdout w with
        | none => spawnFailed eio (closeAll w [input.readFd, input.writeFd])
        | some (output, w) =>
            match createPipe (env.pipe .stderr) spawn .stderr w with
            | none =>
                spawnFailed eio
                  (closeAll w [input.readFd, input.writeFd, output.readFd, output.writeFd])
            | some (error, w) =>
                let parent := daemonEnd input output error
                let w := hideThree w env.hidden parent
                let built := wtdBuildCmdline (some env.argv) (some env.cmdline) 4096
                if built.1 ≠ 0 then
                  spawnFailed e2big (closeAll w [input.readFd, input.writeFd, output.readFd,
                    output.writeFd, error.readFd, error.writeFd])
                else
                  match createProcess env.process spawn w with
                  | none =>
                      spawnFailed eio (closeAll w [input.readFd, output.writeFd, error.writeFd,
                        input.writeFd, output.readFd, error.readFd])
                  | some ((process, thread), made) =>
                      let made := closeAll made [input.readFd, output.writeFd, error.writeFd]
                      wrapHandles env process parent (built.2.getD env.cmdline, inherited w)
                        (setHandle made thread none)

-- The wait without a limit after TerminateProcess returns once the process has ended.
def reap (w : WinState) (h : Nat) (exits : Bool) : WinState :=
  let wait := waitShortly w h exits
  setHandle (if wait.1 then wait.2 else endProcess wait.2 h) h none

def wtdChildTerminate (child : WinChild) (exits : Bool) (w : WinState) : WinChild × WinState :=
  let stdin := closeFd w child.stdinFd
  let w := if child.pid ≠ 0 then reap stdin.2 child.pid exits else stdin.2
  let stdout := closeFd w child.stdoutFd
  let stderr := closeFd stdout.2 child.stderrFd
  ({ pid := 0, stdinFd := stdin.1, stdoutFd := stdout.1, stderrFd := stderr.1 }, stderr.2)

def closeStdin (child : WinChild) (w : WinState) : WinChild × WinState :=
  let stdin := closeFd w child.stdinFd
  ({ child with stdinFd := stdin.1 }, stdin.2)

inductive WinOp where
  | spawn (env : WinEnv)
  | terminate (spawn : Nat) (exits : Bool)
  | closeStdin (spawn : Nat)
  | exit (spawn : Nat)

structure Program where
  spawn : Nat
  cmdline : Nat -> UInt8
  table : Nat -> Option Handle

structure WinDaemon where
  win : WinState
  spawned : Nat
  children : Nat -> Option WinChild
  started : List Program

def WinDaemon.begun (s : WinDaemon) (made : WinResult) : WinDaemon :=
  { win := made.win
    spawned := s.spawned + 1
    children :=
      if made.ret = 0 then Function.update s.children s.spawned (some made.child) else s.children
    started := s.started ++
      (made.started.map fun program =>
        { spawn := s.spawned, cmdline := program.1, table := program.2 }).toList }

def WinDaemon.ended (s : WinDaemon) (spawn : Nat) (child : WinChild) (w : WinState) : WinDaemon :=
  { s with win := w, children := Function.update s.children spawn (some child) }

def winStep (s : WinDaemon) : WinOp -> Option WinDaemon
  | .spawn env => some (s.begun (wtdChildSpawn s.spawned env s.win))
  | .terminate spawn exits =>
      (s.children spawn).map fun child =>
        let result := wtdChildTerminate child exits s.win
        s.ended spawn result.1 result.2
  | .closeStdin spawn =>
      (s.children spawn).map fun child =>
        let result := closeStdin child s.win
        s.ended spawn result.1 result.2
  -- A child's program ends of its own accord.
  | .exit spawn =>
      some { s with win := { s.win with running := Function.update s.win.running spawn false } }

def startDaemon (handles : Nat -> Option Handle) (fds : Nat -> Option Nat) : WinDaemon :=
  { win := { handles, fds, running := fun _ => false }
    spawned := 0
    children := fun _ => none
    started := [] }

theorem tokens_sublist (s : List UInt8) : (tokens s).flatten.Sublist s := by
  induction size : s.length using Nat.strong_induction_on generalizing s with
  | _ size ih =>
    subst size
    have skipped := List.dropWhile_sublist CString.isBlank (l := s)
    cases found : s.dropWhile CString.isBlank with
    | nil => simp [tokens_blank s found]
    | cons c rest =>
      rw [found] at skipped
      have shorter := skipped.length_le
      simp only [List.length_cons] at shorter
      refine List.Sublist.trans ?_ skipped
      rw [tokens_found s rest c found]
      split
      · have after := List.length_dropWhile_le (· != CString.quote) rest
        have later := ih _ (by rw [List.length_tail]; omega)
          (rest.dropWhile (· != CString.quote)).tail rfl
        rw [List.flatten_cons]
        refine .cons _ ?_
        conv =>
          rhs
          rw [← List.takeWhile_append_dropWhile (p := (· != CString.quote)) (l := rest)]
        exact (List.Sublist.refl _).append (later.trans (List.tail_sublist _))
      · have after := List.length_dropWhile_le (!CString.isBlank ·) rest
        have later := ih _ (by omega) (rest.dropWhile (!CString.isBlank ·)) rfl
        rw [List.flatten_cons, List.cons_append]
        refine .cons_cons _ ?_
        conv => rhs; rw [← List.takeWhile_append_dropWhile (p := (!CString.isBlank ·)) (l := rest)]
        exact (List.Sublist.refl _).append later

theorem escape_length (quoted : Bool) (bs : Nat) (a : List UInt8) :
    (escape quoted bs a).length ≤ 2 * (bs + a.length) := by
  fun_induction escape quoted bs a with
  | case1 bs => cases quoted <;> simp <;> omega
  | case2 bs rest ih =>
    simp only [List.length_cons]
    omega
  | case3 bs rest other ih | case4 bs c rest other literal ih =>
    simp only [List.length_append, List.length_replicate, List.length_cons]
    omega

theorem encodeArgs_length (i : Nat) (argv : List (List UInt8)) :
    (encodeArgs i argv).length ≤ 2 * argv.flatten.length + 3 * argv.length := by
  induction argv generalizing i with
  | nil => simp [encodeArgs]
  | cons a rest ih =>
    have later := ih (i + 1)
    have arg : (encodeArg a).length ≤ 2 * a.length + 2 := by
      have quoted := escape_length true 0 a
      have bare := escape_length false 0 a
      cases needs : needsQuotes a <;> simp [encodeArg, needs] <;> omega
    have gap : (if i > 0 then [space] else []).length ≤ 1 := by split <;> simp
    simp only [encodeArgs, List.length_append, List.flatten_cons, List.length_cons]
    omega

theorem spawnArgv_fits (path stack : List UInt8) (nulFree : 0 ∉ path) :
    (encodeArgs 0 (prepareExec (some path) stack).spawnArgv).length < 4096 := by
  rw [prepareExec_spawnArgv path stack nulFree]
  have bound := encodeArgs_length 0 ((tokens (path.take 1023)).take 63)
  have whole : ((tokens (path.take 1023)).take 63 ++ (tokens (path.take 1023)).drop 63).flatten =
      (tokens (path.take 1023)).flatten := by
    rw [List.take_append_drop]
  have inside := (tokens_sublist (path.take 1023)).length_le
  rw [← whole, List.flatten_append, List.length_append] at inside
  have short := List.length_take_le 1023 path
  have few := List.length_take_le 63 (tokens (path.take 1023))
  omega

theorem spawnArgv_nulFree (path stack : List UInt8) (nulFree : 0 ∉ path) :
    ∀ a ∈ (prepareExec (some path) stack).spawnArgv, 0 ∉ a := by
  rw [prepareExec_spawnArgv path stack nulFree]
  intro a member zero
  have inside := (tokens_sublist (path.take 1023)).subset
    (List.mem_flatten.mpr ⟨a, List.mem_of_mem_take member, zero⟩)
  exact nulFree (List.mem_of_mem_take inside)

theorem wtdBuildCmdline_fits (argv : List (List UInt8)) (mem : Nat -> UInt8) (cap : Nat)
    (fits : (encodeArgs 0 argv).length < cap) :
    wtdBuildCmdline (some argv) (some mem) cap =
      (0, some (store (copy mem 0 (encodeArgs 0 argv)) (encodeArgs 0 argv).length 0)) := by
  simp only [wtdBuildCmdline, putArgs_eq]
  rcases putAll_cases cap (encodeArgs 0 argv) { pos := 0, out := mem } with
    ⟨-, result⟩ | ⟨full, -⟩
  · simp [result, Nat.not_le.mpr fits]
  · exact absurd (.inr (by simpa using fits)) full

theorem wrapHandles_started (env : WinEnv) (process : Nat) (ends : Role -> Nat)
    (started : (Nat -> UInt8) × (Nat -> Option Handle)) (w : WinState) :
    (wrapHandles env process ends started w).started = some started := by
  rw [wrapHandles]
  split <;> rfl

theorem wrapHandles_ret (env : WinEnv) (process : Nat) (ends : Role -> Nat)
    (started : (Nat -> UInt8) × (Nat -> Option Handle)) (w : WinState) :
    (wrapHandles env process ends started w).ret ≠ -e2big := by
  rw [wrapHandles]
  split <;> simp [eio, e2big]

theorem wtdChildSpawn_cmdline (spawn : Nat) (env : WinEnv) (w : WinState) :
    ((wtdChildSpawn spawn env w).ret = -e2big ->
        (wtdBuildCmdline (some env.argv) (some env.cmdline) 4096).1 ≠ 0) ∧
      ∀ cmdline table, (wtdChildSpawn spawn env w).started = some (cmdline, table) ->
        cmdline = (wtdBuildCmdline (some env.argv) (some env.cmdline) 4096).2.getD env.cmdline := by
  -- Every return before CreateProcessA is one of `spawnFailed`, and only one of them is E2BIG.
  have early : ∀ errno v, errno ≠ e2big -> (spawnFailed errno v).ret ≠ -e2big := by
    intro errno v other same
    exact other (Int.ofNat_inj.mp (by simpa [spawnFailed] using same))
  unfold wtdChildSpawn
  split
  next => exact ⟨fun large => absurd large (early einval _ (by decide)), by simp [spawnFailed]⟩
  split
  next => exact ⟨fun large => absurd large (early eio _ (by decide)), by simp [spawnFailed]⟩
  split
  next => exact ⟨fun large => absurd large (early eio _ (by decide)), by simp [spawnFailed]⟩
  split
  next => exact ⟨fun large => absurd large (early eio _ (by decide)), by simp [spawnFailed]⟩
  dsimp only
  split
  next long => exact ⟨fun _ => long, by simp [spawnFailed]⟩
  split
  next => exact ⟨fun large => absurd large (early eio _ (by decide)), by simp [spawnFailed]⟩
  next =>
    refine ⟨fun large => absurd large (wrapHandles_ret _ _ _ _ _), fun cmdline table started => ?_⟩
    rw [wrapHandles_started] at started
    exact (Prod.mk.inj (Option.some.inj started)).1.symm

theorem win_child_gets_argv (path stack : List UInt8) (nulFree : 0 ∉ path) (spawn : Nat)
    (env : WinEnv) (w : WinState) (argv : env.argv = (prepareExec (some path) stack).spawnArgv)
    (doubled : Bool) :
    (wtdChildSpawn spawn env w).ret ≠ -e2big ∧
      ∀ cmdline table, (wtdChildSpawn spawn env w).started = some (cmdline, table) ->
        ∃ n < 4096, cmdline n = 0 ∧ (∀ i < n, cmdline i ≠ 0) ∧
          decode doubled (slice cmdline 0 n) none .plain 0 =
            (prepareExec (some path) stack).spawnArgv := by
  have fits := spawnArgv_fits path stack nulFree
  have nul := encodeArgs_nulFree 0 _ (spawnArgv_nulFree path stack nulFree)
  have inverse := decode_encodeArgs doubled 0 (prepareExec (some path) stack).spawnArgv
  have built := wtdBuildCmdline_fits _ env.cmdline 4096 fits
  rw [← argv] at *
  obtain ⟨large, begun⟩ := wtdChildSpawn_cmdline spawn env w
  rw [built] at large begun
  refine ⟨fun failed => large failed rfl, fun cmdline table started => ?_⟩
  obtain rfl := begun cmdline table started
  have string : slice (store (copy env.cmdline 0 (encodeArgs 0 env.argv))
      (encodeArgs 0 env.argv).length 0) 0 (encodeArgs 0 env.argv).length =
        encodeArgs 0 env.argv := by
    rw [slice_store, slice_copy]
  refine ⟨(encodeArgs 0 env.argv).length, fits, by simp [store], ?_, ?_⟩
  · intro i below zero
    have member := mem_slice (store (copy env.cmdline 0 (encodeArgs 0 env.argv))
      (encodeArgs 0 env.argv).length 0) _ i below
    rw [string] at member
    exact nul (zero ▸ member)
  · rw [Option.getD_some, string, inverse]

def noHandles : WinState :=
  { handles := fun _ => none, fds := fun _ => none, running := fun _ => false }

def easySpawn (argv : List (List UInt8)) (first fd : Nat) : WinEnv :=
  { argv
    cmdline := fun _ => 0xcc
    pipe := fun role => some
      { readFd := first + 2 * role.fileno, writeFd := first + 2 * role.fileno + 1 }
    hidden := fun _ => true
    process := some (first + 6, first + 7)
    openFd := fun role => some (fd + role.fileno) }

-- echo "a b"
def echoPath : List UInt8 :=
  [0x65, 0x63, 0x68, 0x6f, 0x20, 0x22, 0x61, 0x20, 0x62, 0x22]

theorem win_child_gets_argv_echo :
    (wtdChildSpawn 0 (easySpawn (prepareExec (some echoPath) []).spawnArgv 4 0) noHandles).ret = 0 ∧
      (wtdChildSpawn 0 (easySpawn (prepareExec (some echoPath) []).spawnArgv 4 0) noHandles).ret ≠
        -e2big ∧
      ∀ cmdline table, (wtdChildSpawn 0 (easySpawn (prepareExec (some echoPath) []).spawnArgv 4 0)
          noHandles).started = some (cmdline, table) ->
        ∃ n < 4096, cmdline n = 0 ∧ (∀ i < n, cmdline i ≠ 0) ∧
          decode true (slice cmdline 0 n) none .plain 0 =
            (prepareExec (some echoPath) []).spawnArgv :=
  ⟨by decide +kernel, win_child_gets_argv echoPath [] (by decide +kernel) 0 _ noHandles rfl true⟩

end WebTransportD.WinProcess
