import Mathlib.Data.List.Basic

set_option autoImplicit false

namespace WebTransportD.ChildProcess

inductive Signal where
  | sigterm
  | sigkill
  deriving DecidableEq, Repr

-- waitpid on the child: still running, its pid, or a failure with or without EINTR.
inductive WaitOutcome where
  | running
  | reaped
  | eintr
  | error
  deriving DecidableEq, Repr

inductive SysCall where
  | write (fd : Int) (data : List UInt8) (ret : Int)
  | close (fd : Int)
  | kill (pid : Int) (signal : Signal)
  | waitpid (pid : Int) (block : Bool) (outcome : WaitOutcome)
  | nanosleep
  deriving DecidableEq, Repr

structure WtdChild where
  pid : Int
  stdinFd : Int
  stdoutFd : Int
  stderrFd : Int
  deriving DecidableEq, Repr

def wtdChildPidNone : Int := -1

def closeFd (fd : Int) : Int × List SysCall :=
  if fd ≥ 0 then (-1, [.close fd]) else (fd, [])

theorem closeFd_closed (fd : Int) : (closeFd fd).1 < 0 := by
  unfold closeFd
  split_ifs <;> grind

-- The polling loop of `wtd_child_terminate`: the pid it leaves, the calls it makes, and how many
-- waitpid outcomes it has used.
def pollExit (waits : Nat -> WaitOutcome) : Nat -> Nat -> Int -> Int × List SysCall × Nat
  | 0, used, pid => (pid, [], used)
  | rounds + 1, used, pid =>
      if pid > 0 then
        match waits used with
        | .reaped => (wtdChildPidNone, [.waitpid pid false .reaped], used + 1)
        | .error => (pid, [.waitpid pid false .error], used + 1)
        | outcome =>
            let later := pollExit waits rounds (used + 1) pid
            (later.1, .waitpid pid false outcome :: .nanosleep :: later.2.1, later.2.2)
      else (pid, [], used)

def wtdChildTerminate (child : WtdChild) (waits : Nat -> WaitOutcome) : WtdChild × List SysCall :=
  let stdin := closeFd child.stdinFd
  let (pid, ended) :=
    if child.pid > 0 then
      let (pid, polled, used) := pollExit waits 50 0 child.pid
      if pid > 0 then
        (wtdChildPidNone, .kill child.pid .sigterm :: polled ++
          [.kill pid .sigkill, .waitpid pid true (waits used)])
      else (pid, .kill child.pid .sigterm :: polled)
    else (child.pid, [])
  let stdout := closeFd child.stdoutFd
  let stderr := closeFd child.stderrFd
  ({ pid, stdinFd := stdin.1, stdoutFd := stdout.1, stderrFd := stderr.1 },
    stdin.2 ++ ended ++ stdout.2 ++ stderr.2)

def SysCall.ofProcess : SysCall -> Bool
  | .kill _ _ | .waitpid _ _ _ | .nanosleep => true
  | .write _ _ _ | .close _ => false

theorem pollExit_ofProcess (waits : Nat -> WaitOutcome) (rounds used : Nat) (pid : Int) :
    (pollExit waits rounds used pid).2.1.all SysCall.ofProcess = true := by
  induction rounds generalizing used with
  | zero => rfl
  | succ rounds ih =>
    unfold pollExit
    split_ifs
    · cases waits used <;> simp [SysCall.ofProcess, ih]
    · rfl

theorem wtdChildTerminate_eq (child : WtdChild) (waits : Nat -> WaitOutcome) :
    ∃ pid ended, ended.all SysCall.ofProcess = true ∧
      wtdChildTerminate child waits =
        ({ pid, stdinFd := (closeFd child.stdinFd).1, stdoutFd := (closeFd child.stdoutFd).1
           stderrFd := (closeFd child.stderrFd).1 },
          (closeFd child.stdinFd).2 ++ ended ++ (closeFd child.stdoutFd).2 ++
            (closeFd child.stderrFd).2) := by
  have polled := pollExit_ofProcess waits 50 0 child.pid
  simp only [wtdChildTerminate]
  split_ifs
  · refine ⟨_, _, ?_, rfl⟩
    simp [SysCall.ofProcess, polled]
  · refine ⟨_, _, ?_, rfl⟩
    simp [SysCall.ofProcess, polled]
  · exact ⟨child.pid, [], rfl, rfl⟩

-- waitpid on a child of the caller fails with EINTR or with ECHILD, so `error` says that there is
-- no such child and, like `reaped`, settles the wait.
def WaitOutcome.pending : WaitOutcome -> Bool
  | .running | .eintr => true
  | .reaped | .error => false

def quietCalls (pid : Int) (outcomes : List WaitOutcome) : List SysCall :=
  outcomes.flatMap fun outcome => [.waitpid pid false outcome, .nanosleep]

theorem mem_quietCalls (pid : Int) (outcomes : List WaitOutcome) (call : SysCall) :
    call ∈ quietCalls pid outcomes ↔
      ∃ outcome ∈ outcomes, call = .waitpid pid false outcome ∨ call = .nanosleep := by
  simp [quietCalls]

theorem pollExit_cases (waits : Nat -> WaitOutcome) (rounds used : Nat) (pid : Int)
    (live : 0 < pid) :
    ∃ quiet : List WaitOutcome, (∀ outcome ∈ quiet, outcome.pending = true) ∧
      (((∀ i < rounds, (waits (used + i)).pending = true) ∧
        pollExit waits rounds used pid = (pid, quietCalls pid quiet, used + rounds)) ∨
      ∃ k < rounds, (waits (used + k)).pending = false ∧
        pollExit waits rounds used pid =
          (if waits (used + k) = .reaped then wtdChildPidNone else pid,
            quietCalls pid quiet ++ [.waitpid pid false (waits (used + k))], used + k + 1)) := by
  induction rounds generalizing used with
  | zero => exact ⟨[], by simp, .inl ⟨by simp, rfl⟩⟩
  | succ rounds ih =>
    cases settled : (waits used).pending with
    | false =>
      refine ⟨[], by simp, .inr ⟨0, by omega, settled, ?_⟩⟩
      cases now : waits used <;> simp_all [pollExit, WaitOutcome.pending, quietCalls]
    | true =>
      have again : pollExit waits (rounds + 1) used pid =
          ((pollExit waits rounds (used + 1) pid).1,
            quietCalls pid [waits used] ++ (pollExit waits rounds (used + 1) pid).2.1,
            (pollExit waits rounds (used + 1) pid).2.2) := by
        cases now : waits used <;> simp_all [pollExit, WaitOutcome.pending, quietCalls]
      obtain ⟨quiet, all, later⟩ := ih (used + 1)
      refine ⟨waits used :: quiet, by simpa [settled] using all, ?_⟩
      rcases later with ⟨rest, same⟩ | ⟨k, bound, ended, same⟩
      · refine .inl ⟨?_, ?_⟩
        · intro i below
          cases i with
          | zero => exact settled
          | succ i => simpa [Nat.add_comm, Nat.add_left_comm] using rest i (by omega)
        · simp [again, same, quietCalls, Nat.add_comm, Nat.add_left_comm]
      · have index : used + (k + 1) = used + 1 + k := by omega
        exact .inr ⟨k + 1, by omega, by rw [index]; exact ended, by
          simp [again, same, quietCalls, index]⟩

def SysCall.reaps : SysCall -> Bool
  | .waitpid _ _ .reaped => true
  | _ => false

def SysCall.settles (pid : Int) : SysCall -> Bool
  | .waitpid p _ outcome => p = pid && !outcome.pending
  | _ => false

-- A blocking wait for a child that dies once killed does not answer that it is still running.
def SysCall.unanswered : SysCall -> Bool
  | .waitpid _ true .running => true
  | _ => false

def SysCall.closes : SysCall -> Option Int
  | .close fd => some fd
  | _ => none

-- All rounds of the loop leave the child pending, and a handler interrupts the wait after SIGKILL.
def Interrupted (waits : Nat -> WaitOutcome) : Prop :=
  (∀ i < 50, (waits i).pending = true) ∧ waits 50 = .eintr

theorem quietCalls_ofProcess (pid : Int) (quiet : List WaitOutcome)
    (pending : ∀ outcome ∈ quiet, outcome.pending = true) (call : SysCall)
    (member : call ∈ quietCalls pid quiet) :
    call.ofProcess = true ∧ call.reaps = false ∧ ∀ p, call.settles p = false := by
  obtain ⟨outcome, inside, rfl | rfl⟩ := (mem_quietCalls pid quiet call).mp member
  · have quietly := pending outcome inside
    cases outcome <;> simp_all [SysCall.ofProcess, SysCall.reaps, SysCall.settles,
      WaitOutcome.pending]
  · simp [SysCall.ofProcess, SysCall.reaps, SysCall.settles]

theorem wtdChildTerminate_live (child : WtdChild) (waits : Nat -> WaitOutcome)
    (live : 0 < child.pid) :
    ∃ before block outcome,
      (∀ call ∈ before, call.ofProcess = true ∧ call.reaps = false) ∧
      wtdChildTerminate child waits =
        ({ pid := wtdChildPidNone, stdinFd := (closeFd child.stdinFd).1
           stdoutFd := (closeFd child.stdoutFd).1, stderrFd := (closeFd child.stderrFd).1 },
          (closeFd child.stdinFd).2 ++ (before ++ [.waitpid child.pid block outcome]) ++
            (closeFd child.stdoutFd).2 ++ (closeFd child.stderrFd).2) ∧
      ((∃ k < 50, (waits k).pending = false) ∧
          (before.any (SysCall.settles child.pid) = true ∨ outcome.pending = false) ∨
        (∀ i < 50, (waits i).pending = true) ∧ before.any (SysCall.settles child.pid) = false ∧
          block = true ∧ outcome = waits 50) := by
  obtain ⟨quiet, pending, ⟨all, polled⟩ | ⟨k, bound, ended, polled⟩⟩ :=
    pollExit_cases waits 50 0 child.pid live
  all_goals
    simp only [Nat.zero_add] at *
    have quietly := quietCalls_ofProcess child.pid quiet pending
  · refine ⟨.kill child.pid .sigterm :: quietCalls child.pid quiet ++ [.kill child.pid .sigkill],
      true, waits 50, ?_, ?_, .inr ⟨all, ?_, rfl, rfl⟩⟩
    · grind [SysCall.ofProcess, SysCall.reaps]
    · simp [wtdChildTerminate, live, polled]
    · grind [SysCall.settles]
  · cases now : waits k with
    | running => simp [now, WaitOutcome.pending] at ended
    | eintr => simp [now, WaitOutcome.pending] at ended
    | reaped =>
      refine ⟨.kill child.pid .sigterm :: quietCalls child.pid quiet, false, .reaped, ?_, ?_,
        .inl ⟨⟨k, bound, ended⟩, .inr rfl⟩⟩
      · grind [SysCall.ofProcess, SysCall.reaps]
      · simp [wtdChildTerminate, live, polled, now, wtdChildPidNone]
    | error =>
      refine ⟨.kill child.pid .sigterm :: quietCalls child.pid quiet ++
        [.waitpid child.pid false .error, .kill child.pid .sigkill], true, waits (k + 1), ?_, ?_,
        .inl ⟨⟨k, bound, ended⟩, .inl ?_⟩⟩
      · grind [SysCall.ofProcess, SysCall.reaps]
      · simp [wtdChildTerminate, live, polled, now]
      · simp [SysCall.settles, WaitOutcome.pending]

theorem closeFd_closes (fd : Int) :
    (closeFd fd).2.filterMap SysCall.closes = [fd].filter (0 ≤ ·) := by
  by_cases isOpen : 0 ≤ fd <;> simp [closeFd, isOpen, SysCall.closes]

theorem mem_closeFd (fd : Int) (call : SysCall) (member : call ∈ (closeFd fd).2) :
    call = .close fd := by
  by_cases isOpen : 0 ≤ fd <;> simp_all [closeFd]

theorem ofProcess_closes (calls : List SysCall) (process : ∀ call ∈ calls, call.ofProcess = true) :
    calls.filterMap SysCall.closes = [] := by
  rw [List.filterMap_eq_nil_iff]
  intro call member
  have kind := process call member
  cases call <;> simp_all [SysCall.ofProcess, SysCall.closes]

theorem wtdChildTerminate_closes (child : WtdChild) (waits : Nat -> WaitOutcome) :
    (wtdChildTerminate child waits).2.filterMap SysCall.closes =
      [child.stdinFd, child.stdoutFd, child.stderrFd].filter (0 ≤ ·) := by
  obtain ⟨pid, ended, process, same⟩ := wtdChildTerminate_eq child waits
  simp only [same, List.filterMap_append, closeFd_closes,
    ofProcess_closes ended (List.all_eq_true.mp process), List.append_nil, ← List.filter_append]
  rfl

def WtdChild.Valid (child : WtdChild) : Prop :=
  (0 < child.pid ∨ child.pid = wtdChildPidNone) ∧
    -1 ≤ child.stdinFd ∧ -1 ≤ child.stdoutFd ∧ -1 ≤ child.stderrFd

structure Terminated (child : WtdChild) (waits : Nat -> WaitOutcome) : Prop where
  settled : 0 < child.pid ->
    (wtdChildTerminate child waits).2.any (SysCall.settles child.pid) = true
  unsignalled : (wtdChildTerminate child waits).2.Pairwise fun earlier later =>
    ∀ pid block signal, earlier = .waitpid pid block .reaped -> later ≠ .kill pid signal
  cleared : (wtdChildTerminate child waits).1 =
    { pid := wtdChildPidNone, stdinFd := -1, stdoutFd := -1, stderrFd := -1 }
  closed : (wtdChildTerminate child waits).2.filterMap SysCall.closes =
    [child.stdinFd, child.stdoutFd, child.stderrFd].filter (0 ≤ ·)
  again : ∀ later, wtdChildTerminate (wtdChildTerminate child waits).1 later =
    ((wtdChildTerminate child waits).1, [])

theorem closeFd_valid (fd : Int) (valid : -1 ≤ fd) : (closeFd fd).1 = -1 := by
  unfold closeFd
  split_ifs <;> grind

theorem wtdChildTerminate_cleared (later : Nat -> WaitOutcome) :
    wtdChildTerminate { pid := wtdChildPidNone, stdinFd := -1, stdoutFd := -1, stderrFd := -1 }
      later = ({ pid := wtdChildPidNone, stdinFd := -1, stdoutFd := -1, stderrFd := -1 }, []) :=
  rfl

theorem unsignalled_append (before after : List SysCall)
    (unreaped : ∀ call ∈ before, call.reaps = false)
    (silent : ∀ call ∈ after, ∀ pid signal, call ≠ .kill pid signal) :
    (before ++ after).Pairwise fun earlier later =>
      ∀ pid block signal, earlier = .waitpid pid block .reaped -> later ≠ .kill pid signal := by
  have first : ∀ earlier ∈ before, ∀ later : SysCall, ∀ pid block signal,
      earlier = .waitpid pid block .reaped -> later ≠ .kill pid signal := by
    intro earlier member later pid block signal same
    have still := unreaped earlier member
    simp [same, SysCall.reaps] at still
  refine List.pairwise_append.mpr ⟨?_, ?_, fun earlier member later _ => first earlier member later⟩
  · exact List.pairwise_of_forall_mem_list fun earlier member later _ => first earlier member later
  · exact List.pairwise_of_forall_mem_list fun _ _ later member pid _ signal _ =>
      silent later member pid signal

theorem terminated_of_calls (child : WtdChild) (waits : Nat -> WaitOutcome) (valid : child.Valid)
    (before after : List SysCall)
    (unreaped : ∀ call ∈ before, call.reaps = false)
    (silent : ∀ call ∈ after, ∀ pid signal, call ≠ .kill pid signal)
    (same : wtdChildTerminate child waits =
      ({ pid := wtdChildPidNone, stdinFd := (closeFd child.stdinFd).1
         stdoutFd := (closeFd child.stdoutFd).1, stderrFd := (closeFd child.stderrFd).1 },
        (closeFd child.stdinFd).2 ++ (before ++ after) ++ (closeFd child.stdoutFd).2 ++
          (closeFd child.stderrFd).2))
    (settled : 0 < child.pid ->
      (wtdChildTerminate child waits).2.any (SysCall.settles child.pid) = true) :
    Terminated child waits := by
  obtain ⟨-, stdin, stdout, stderr⟩ := valid
  have cleared : (wtdChildTerminate child waits).1 =
      { pid := wtdChildPidNone, stdinFd := -1, stdoutFd := -1, stderrFd := -1 } := by
    simp [same, closeFd_valid, stdin, stdout, stderr]
  refine ⟨settled, ?_, cleared, wtdChildTerminate_closes child waits, ?_⟩
  · have regrouped : (wtdChildTerminate child waits).2 = ((closeFd child.stdinFd).2 ++ before) ++
        (after ++ (closeFd child.stdoutFd).2 ++ (closeFd child.stderrFd).2) := by
      simp [same]
    rw [regrouped]
    apply unsignalled_append
    · intro call member
      rcases List.mem_append.mp member with closing | earlier
      · simp [mem_closeFd _ call closing, SysCall.reaps]
      · exact unreaped call earlier
    · intro call member pid signal
      simp only [List.mem_append] at member
      rcases member with (later | closing) | closing
      · exact silent call later pid signal
      · simp [mem_closeFd _ call closing]
      · simp [mem_closeFd _ call closing]
  · intro later
    rw [cleared, wtdChildTerminate_cleared]

theorem terminated_none (child : WtdChild) (waits : Nat -> WaitOutcome) (valid : child.Valid)
    (unspawned : child.pid = wtdChildPidNone) : Terminated child waits := by
  have gone : ¬ 0 < child.pid := by simp [unspawned, wtdChildPidNone]
  apply terminated_of_calls child waits valid [] []
  · simp
  · simp
  · simp [wtdChildTerminate, unspawned, wtdChildPidNone]
  · exact fun live => absurd live gone

theorem terminated_live (child : WtdChild) (waits : Nat -> WaitOutcome) (valid : child.Valid)
    (live : 0 < child.pid)
    (settled : (wtdChildTerminate child waits).2.any (SysCall.settles child.pid) = true) :
    Terminated child waits := by
  obtain ⟨before, block, outcome, process, same, -⟩ := wtdChildTerminate_live child waits live
  apply terminated_of_calls child waits valid before [.waitpid child.pid block outcome]
  · exact fun call member => (process call member).2
  · simp
  · exact same
  · exact fun _ => settled

theorem closeFd_settles (fd pid : Int) : (closeFd fd).2.any (SysCall.settles pid) = false := by
  by_cases isOpen : 0 ≤ fd <;> simp [closeFd, isOpen, SysCall.settles]

theorem wtdChildTerminate_settles_iff (child : WtdChild) (waits : Nat -> WaitOutcome)
    (live : 0 < child.pid)
    (dies : (wtdChildTerminate child waits).2.any SysCall.unanswered = false) :
    (wtdChildTerminate child waits).2.any (SysCall.settles child.pid) = true ↔
      ¬ Interrupted waits := by
  obtain ⟨before, block, outcome, -, same, ⟨⟨k, bound, ended⟩, settled⟩ |
    ⟨all, quiet, rfl, rfl⟩⟩ := wtdChildTerminate_live child waits live
  · have uninterrupted : ¬ Interrupted waits := by
      intro interrupted
      simp [interrupted.1 k bound] at ended
    simp only [same, List.any_append, closeFd_settles]
    rcases settled with earlier | last
    · simp [earlier, uninterrupted]
    · simp [SysCall.settles, last, uninterrupted]
  · have ended : waits 50 ≠ .running := by
      intro running
      simp [same, running, SysCall.unanswered] at dies
    simp only [same, List.any_append, closeFd_settles, quiet]
    cases last : waits 50 <;>
      simp_all [SysCall.settles, WaitOutcome.pending, Interrupted]

theorem wtdChildTerminate_reaps_iff (child : WtdChild) (waits : Nat -> WaitOutcome)
    (valid : child.Valid)
    (dies : (wtdChildTerminate child waits).2.any SysCall.unanswered = false) :
    Terminated child waits ↔ ¬ (0 < child.pid ∧ Interrupted waits) := by
  rcases valid.1 with live | unspawned
  · have decided := wtdChildTerminate_settles_iff child waits live dies
    constructor
    · rintro terminated ⟨-, interrupted⟩
      exact decided.mp (terminated.settled live) interrupted
    · intro uninterrupted
      exact terminated_live child waits valid live
        (decided.mpr fun interrupted => uninterrupted ⟨live, interrupted⟩)
  · have gone : ¬ 0 < child.pid := by simp [unspawned, wtdChildPidNone]
    exact ⟨fun _ both => gone both.1, fun _ => terminated_none child waits valid unspawned⟩

def catChild : WtdChild := { pid := 7, stdinFd := 4, stdoutFd := 5, stderrFd := 7 }

theorem wtdChildTerminate_reaps_cooperative :
    Terminated catChild fun i => if i = 0 then .running else .reaped := by
  refine (wtdChildTerminate_reaps_iff catChild _ ?_ ?_).mpr ?_
  · simp [WtdChild.Valid, catChild]
  · decide
  · rintro ⟨-, quiet, -⟩
    simpa [WaitOutcome.pending] using quiet 1

-- SIGTERM reaches the daemon while it waits for a child that has outlived the polling loop.
def stubbornWaits (i : Nat) : WaitOutcome :=
  if i < 50 then .running else .eintr

theorem wtdChildTerminate_leaves_zombie :
    (wtdChildTerminate catChild stubbornWaits).2.any SysCall.unanswered = false ∧
    (wtdChildTerminate catChild stubbornWaits).2.any (SysCall.settles catChild.pid) = false ∧
    (wtdChildTerminate catChild stubbornWaits).1.pid = wtdChildPidNone ∧
    ¬ Terminated catChild stubbornWaits := by
  have unsettled : (wtdChildTerminate catChild stubbornWaits).2.any
      (SysCall.settles catChild.pid) = false := by
    decide +kernel
  refine ⟨by decide +kernel, unsettled, by decide +kernel, ?_⟩
  intro terminated
  simpa [unsettled] using terminated.settled (by decide)

end WebTransportD.ChildProcess
