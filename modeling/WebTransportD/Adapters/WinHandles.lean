import Mathlib.Data.List.Nodup
import WebTransportD.Adapters.WinProcess
import WebTransportD.Shared.Ownership

set_option autoImplicit false

namespace WebTransportD.WinHandles

open CmdlineBuild Execution Ownership WinProcess
open ChildSpawn (Role Side einval)
open Descriptors (PipeFds)

-- Which handle the daemon keeps for each object, which descriptor for each stream of a child, and
-- which processes run.
@[ext] structure Account where
  held : Object -> Option (Nat × Handle)
  wrapped : Nat × Role -> Option (Nat × Nat)
  runs : Nat -> Bool

structure Books (base w : WinState) (a : Account) : Prop where
  handles : Ledger base.handles w.handles a.held
  fds : Ledger base.fds w.fds a.wrapped
  running : w.running = a.runs
  named : ∀ o h v, a.held o = some (h, v) -> h ≠ 0 ∧ v.object = o

def Account.give (a : Account) (o : Object) (h : Nat) (inherit : Bool) : Account :=
  { a with held := Function.update a.held o (some (h, { object := o, inherit })) }

def Account.drop (a : Account) (o : Object) : Account :=
  { a with held := Function.update a.held o none }

def descriptor (fd : Int) (h : Nat) : Option (Nat × Nat) :=
  if 0 ≤ fd then some (fd.toNat, h) else none

def Account.wrap (a : Account) (q : Nat × Role) (slot : Option (Nat × Nat)) : Account :=
  { a with wrapped := Function.update a.wrapped q slot }

def Account.run (a : Account) (spawn : Nat) (alive : Bool) : Account :=
  { a with runs := Function.update a.runs spawn alive }

@[simp] theorem give_held (a : Account) (o p : Object) (h : Nat) (inherit : Bool) :
    (a.give o h inherit).held p =
      if p = o then some (h, { object := o, inherit }) else a.held p := by
  simp [Account.give, Function.update_apply]

@[simp] theorem drop_held (a : Account) (o p : Object) :
    (a.drop o).held p = if p = o then none else a.held p := by
  simp [Account.drop, Function.update_apply]

@[simp] theorem wrap_wrapped (a : Account) (q r : Nat × Role) (slot : Option (Nat × Nat)) :
    (a.wrap q slot).wrapped r = if r = q then slot else a.wrapped r := by
  simp [Account.wrap, Function.update_apply]

@[simp] theorem run_runs (a : Account) (spawn i : Nat) (alive : Bool) :
    (a.run spawn alive).runs i = if i = spawn then alive else a.runs i := by
  simp [Account.run, Function.update_apply]

@[simp] theorem give_rest (a : Account) (o : Object) (h : Nat) (inherit : Bool) :
    (a.give o h inherit).wrapped = a.wrapped ∧ (a.give o h inherit).runs = a.runs :=
  ⟨rfl, rfl⟩

@[simp] theorem drop_rest (a : Account) (o : Object) :
    (a.drop o).wrapped = a.wrapped ∧ (a.drop o).runs = a.runs :=
  ⟨rfl, rfl⟩

@[simp] theorem wrap_rest (a : Account) (q : Nat × Role) (slot : Option (Nat × Nat)) :
    (a.wrap q slot).held = a.held ∧ (a.wrap q slot).runs = a.runs :=
  ⟨rfl, rfl⟩

@[simp] theorem run_rest (a : Account) (spawn : Nat) (alive : Bool) :
    (a.run spawn alive).held = a.held ∧ (a.run spawn alive).wrapped = a.wrapped :=
  ⟨rfl, rfl⟩

variable {base w v : WinState} {a : Account}

theorem Books.unique (books : Books base w a) (again : Books base v a) : w = v := by
  ext1
  · exact books.handles.unique again.handles
  · exact books.fds.unique again.fds
  · exact books.running.trans again.running.symm

theorem Books.setHandle (books : Books base w a) (o : Object) (h : Nat) (inherit : Bool)
    (idle : a.held o = none) (free : unused w h = true) :
    Books base (setHandle w h (some { object := o, inherit })) (a.give o h inherit) := by
  simp only [unused, bne_iff_ne, Bool.and_eq_true, Option.isNone_iff_eq_none] at free
  refine ⟨books.handles.acquire o h _ idle free.2, books.fds, books.running, ?_⟩
  intro p k u owned
  by_cases same : p = o
  · obtain ⟨rfl, rfl⟩ := by simpa [Account.give, same] using owned
    exact ⟨free.1, same.symm⟩
  · exact books.named p k u (by simpa [Account.give, same] using owned)

theorem Books.dropHandle (books : Books base w a) (o : Object) (h : Nat) (u : Handle)
    (owned : a.held o = some (h, u)) : Books base (WinProcess.setHandle w h none) (a.drop o) := by
  refine ⟨books.handles.release o h u owned, books.fds, books.running, ?_⟩
  intro p k v kept
  have differs : p ≠ o := by
    rintro rfl
    simp [Account.drop] at kept
  exact books.named p k v (by simpa [Account.drop, differs] using kept)

theorem Books.closeHandle (books : Books base w a) (o : Object) (h : Nat) (u : Handle)
    (owned : a.held o = some (h, u)) : Books base (closeHandle w h) (a.drop o) := by
  have valid := (books.named o h u owned).1
  simpa [WinProcess.closeHandle, valid] using books.dropHandle o h u owned

def Account.dropAll (a : Account) : List Object -> Account
  | [] => a
  | o :: rest => (a.drop o).dropAll rest

theorem dropAll_held (a : Account) (os : List Object) (o : Object) :
    (a.dropAll os).held o = if o ∈ os then none else a.held o := by
  induction os generalizing a with
  | nil => simp [Account.dropAll]
  | cons p rest ih =>
    rw [Account.dropAll, ih]
    by_cases same : o = p <;> simp [Account.drop, same]

theorem dropAll_rest (a : Account) (os : List Object) :
    (a.dropAll os).wrapped = a.wrapped ∧ (a.dropAll os).runs = a.runs := by
  induction os generalizing a with
  | nil => simp [Account.dropAll]
  | cons p rest ih => simpa [Account.dropAll, Account.drop] using ih (a.drop p)

theorem Books.closeAll (books : Books base w a) (owners : List (Object × Nat))
    (apart : (owners.map Prod.fst).Nodup)
    (owned : ∀ e ∈ owners, ∃ u, a.held e.1 = some (e.2, u)) :
    Books base (closeAll w (owners.map Prod.snd)) (a.dropAll (owners.map Prod.fst)) := by
  induction owners generalizing w a with
  | nil => exact books
  | cons first rest ih =>
    obtain ⟨u, here⟩ := owned first (by simp)
    simp only [List.map_cons, List.nodup_cons] at apart
    refine ih (books.closeHandle first.1 first.2 u here) apart.2 ?_
    intro e member
    have differs : e.1 ≠ first.1 := fun same => apart.1 (same ▸ List.mem_map_of_mem member)
    simpa [Account.drop, differs] using owned e (List.mem_cons_of_mem first member)

theorem Books.hide (books : Books base w a) (done : Bool) (o : Object) (h : Nat)
    (owned : a.held o = some (h, { object := o, inherit := true })) :
    Books base (hide done w h) (a.give o h (!done)) := by
  have entry := (books.handles.entries o h _ owned).1
  cases done with
  | false =>
    have same : a.give o h true = a := by
      simp [Account.give, ← owned]
    simpa [WinProcess.hide, entry, same] using books
  | true =>
    simp only [WinProcess.hide, entry]
    refine ⟨books.handles.change o h _ _ owned, books.fds, books.running, ?_⟩
    intro p k u held
    by_cases same : p = o
    · obtain ⟨rfl, rfl⟩ := by simpa [Account.give, same] using held
      exact ⟨(books.named o h _ owned).1, same.symm⟩
    · exact books.named p k u (by simpa [Account.give, same] using held)

theorem Books.createPipe (books : Books base w a) (answer : Option PipeFds) (spawn : Nat)
    (role : Role) (ends : PipeFds) (made : createPipe answer spawn role w = some (ends, v))
    (idle : ∀ side, a.held (.pipeEnd spawn role side) = none) :
    Books base v ((a.give (.pipeEnd spawn role .reading) ends.readFd true).give
      (.pipeEnd spawn role .writing) ends.writeFd true) := by
  cases answer with
  | none => simp [WinProcess.createPipe] at made
  | some given =>
    simp only [WinProcess.createPipe, Option.ite_none_right_eq_some, Bool.and_eq_true,
      Option.some.injEq, Prod.mk.injEq, bne_iff_ne] at made
    obtain ⟨⟨⟨read, write⟩, apart⟩, rfl, rfl⟩ := made
    refine (books.setHandle _ _ true (idle .reading) read).setHandle _ _ true ?_ ?_
    · simpa [Account.give] using idle .writing
    · simpa [unused, WinProcess.setHandle, Function.update_apply, apart, Ne.symm apart] using write

theorem Books.createProcess (books : Books base w a) (answer : Option (Nat × Nat)) (spawn : Nat)
    (process thread : Nat)
    (made : createProcess answer spawn w = some ((process, thread), v))
    (noProcess : a.held (.process spawn) = none) (noThread : a.held (.thread spawn) = none) :
    Books base v (((a.give (.process spawn) process false).give (.thread spawn) thread false).run
      spawn true) := by
  cases answer with
  | none => simp [WinProcess.createProcess] at made
  | some given =>
    simp only [WinProcess.createProcess, Option.ite_none_right_eq_some, Bool.and_eq_true,
      Option.some.injEq, Prod.mk.injEq, bne_iff_ne] at made
    obtain ⟨⟨⟨first, second⟩, apart⟩, ⟨rfl, rfl⟩, rfl⟩ := made
    have both := (books.setHandle (.process spawn) given.1 false noProcess first).setHandle
      (.thread spawn) given.2 false (by simpa [Account.give] using noThread)
      (by simpa [unused, WinProcess.setHandle, Function.update_apply, Ne.symm apart] using second)
    exact ⟨both.handles, both.fds, congrArg (Function.update · spawn true) both.running, both.named⟩

theorem Books.endProcess (books : Books base w a) (spawn h : Nat) (u : Handle)
    (owned : a.held (.process spawn) = some (h, u)) :
    Books base (endProcess w h) (a.run spawn false) := by
  have entry := (books.handles.entries _ h u owned).1
  have object := (books.named _ h u owned).2
  obtain ⟨_, inherit⟩ := u
  subst object
  simp only [WinProcess.endProcess, entry]
  exact ⟨books.handles, books.fds, by simp [Account.run, ← books.running], books.named⟩

theorem Books.reap (books : Books base w a) (spawn h : Nat) (u : Handle) (exits : Bool)
    (owned : a.held (.process spawn) = some (h, u)) :
    Books base (reap w h exits) ((a.run spawn false).drop (.process spawn)) := by
  have entry := (books.handles.entries _ h u owned).1
  have object := (books.named _ h u owned).2
  have ended := books.endProcess spawn h u owned
  have waited : WinProcess.reap w h exits =
      WinProcess.setHandle (WinProcess.endProcess w h) h none := by
    obtain ⟨_, inherit⟩ := u
    subst object
    cases alive : w.running spawn with
    | false =>
      have same : Function.update w.running spawn false = w.running := by simp [← alive]
      simp [WinProcess.reap, waitShortly, WinProcess.endProcess, entry, alive, same]
    | true => cases exits <;> simp [WinProcess.reap, waitShortly, entry, alive]
  rw [waited]
  exact ended.dropHandle _ h u owned

theorem Books.openOsfhandle (books : Books base w a) (answer : Option Nat) (q : Nat × Role)
    (h : Nat) (idle : a.wrapped q = none) :
    Books base (openOsfhandle answer h w).2
      (a.wrap q (descriptor (openOsfhandle answer h w).1 h)) := by
  have unchanged : a.wrap q none = a := by simp [Account.wrap, ← idle]
  cases answer with
  | none => simpa [WinProcess.openOsfhandle, descriptor, unchanged] using books
  | some fd =>
    cases taken : w.fds fd with
    | some old => simpa [WinProcess.openOsfhandle, taken, descriptor, unchanged] using books
    | none =>
      simp only [WinProcess.openOsfhandle, taken, Option.isSome_none, Bool.false_eq_true, if_false,
        descriptor, Int.natCast_nonneg, if_true, Int.toNat_natCast]
      exact ⟨books.handles, books.fds.acquire q fd h idle taken, books.running, books.named⟩

theorem Books.crtClose (books : Books base w a) (o : Object) (q : Nat × Role) (fd h : Nat)
    (u : Handle) (owned : a.held o = some (h, u)) (wrapped : a.wrapped q = some (fd, h)) :
    Books base (crtClose w fd) ((a.drop o).wrap q none) := by
  have entry := (books.fds.entries q fd h wrapped).1
  have dropped := books.dropHandle o h u owned
  simp only [WinProcess.crtClose, entry]
  exact ⟨dropped.handles, books.fds.release q fd h wrapped, dropped.running, dropped.named⟩

theorem Books.closeEither (books : Books base w a) (o : Object) (q : Nat × Role) (fd : Int)
    (h : Nat) (owned : ∃ u, a.held o = some (h, u)) (wrapped : a.wrapped q = descriptor fd h) :
    Books base (closeEither w fd h) ((a.drop o).wrap q none) := by
  obtain ⟨u, owned⟩ := owned
  by_cases valid : 0 ≤ fd
  · rw [descriptor, if_pos valid] at wrapped
    simpa [WinProcess.closeEither, valid] using books.crtClose o q fd.toNat h u owned wrapped
  · rw [descriptor, if_neg valid] at wrapped
    have unchanged : (a.drop o).wrap q none = a.drop o := by
      simp [Account.wrap, Account.drop, ← wrapped]
    rw [unchanged]
    simpa [WinProcess.closeEither, valid] using books.closeHandle o h u owned

structure Kept (a : Account) (spawn : Nat) (role : Role) (fd : Int) (h : Nat) : Prop where
  wrapped : a.wrapped (spawn, role) = descriptor fd h
  present : 0 ≤ fd -> ∃ u, a.held (.pipeEnd spawn role role.daemonSide) = some (h, u)
  absent : fd < 0 -> a.held (.pipeEnd spawn role role.daemonSide) = none

theorem Books.closeFd (books : Books base w a) (spawn : Nat) (role : Role) (fd : Int) (h : Nat)
    (kept : Kept a spawn role fd h) :
    Books base (closeFd w fd).2 ((a.drop (.pipeEnd spawn role role.daemonSide)).wrap
      (spawn, role) none) := by
  by_cases valid : 0 ≤ fd
  · obtain ⟨u, owned⟩ := kept.present valid
    have wrapped := kept.wrapped
    rw [descriptor, if_pos valid] at wrapped
    simpa [WinProcess.closeFd, valid] using books.crtClose _ _ fd.toNat h u owned wrapped
  · have gone := kept.absent (by omega)
    have wrapped := kept.wrapped
    rw [descriptor, if_neg valid] at wrapped
    have unchanged :
        (a.drop (.pipeEnd spawn role role.daemonSide)).wrap (spawn, role) none = a := by
      simp [Account.wrap, Account.drop, ← wrapped, ← gone]
    simpa [WinProcess.closeFd, valid, unchanged] using books

structure Fresh (a : Account) (spawn : Nat) : Prop where
  ends : ∀ role side, a.held (.pipeEnd spawn role side) = none
  process : a.held (.process spawn) = none
  thread : a.held (.thread spawn) = none
  wrapped : ∀ role, a.wrapped (spawn, role) = none
  runs : a.runs spawn = false

def endOf (ends : PipeFds) : Side -> Nat
  | .reading => ends.readFd
  | .writing => ends.writeFd

def three (input output error : PipeFds) : Role -> PipeFds
  | .stdin => input
  | .stdout => output
  | .stderr => error

-- All three pipes are open; an end of the daemon is inheritable only where hiding it failed.
def Account.piped (a : Account) (spawn : Nat) (ends : Role -> PipeFds) (hidden : Role -> Bool) :
    Account :=
  { a with
    held := fun o =>
      match o with
      | .pipeEnd i role side =>
          if i = spawn then
            some (endOf (ends role) side,
              { object := o, inherit := !(hidden role && side == role.daemonSide) })
          else a.held o
      | o => a.held o }

def Account.launched (a : Account) (spawn process : Nat) (ends : Role -> Nat)
    (hidden : Role -> Bool) : Account :=
  { a with
    held := fun o =>
      match o with
      | .pipeEnd i role side =>
          if i = spawn then
            if side = role.daemonSide then
              some (ends role, { object := o, inherit := !hidden role })
            else none
          else a.held o
      | .process i =>
          if i = spawn then some (process, { object := o, inherit := false }) else a.held o
      | o => a.held o
    runs := Function.update a.runs spawn true }

def Account.spawned (a : Account) (spawn process : Nat) (ends : Role -> Nat) (fds : Role -> Int)
    (hidden : Role -> Bool) : Account :=
  { a.launched spawn process ends hidden with
    wrapped := fun q => if q.1 = spawn then descriptor (fds q.2) (ends q.2) else a.wrapped q }

theorem Books.settle {b : Account} (books : Books base w a) (held : ∀ o, a.held o = b.held o)
    (wrapped : ∀ q, a.wrapped q = b.wrapped q) (runs : ∀ i, a.runs i = b.runs i) :
    Books base w b :=
  Account.ext (funext held) (funext wrapped) (funext runs) ▸ books

theorem Books.threePipes {first second third : WinState} (books : Books base w a) (spawn : Nat)
    (env : WinEnv) (fresh : Fresh a spawn) (input output error : PipeFds)
    (stdin : WinProcess.createPipe (env.pipe .stdin) spawn .stdin w = some (input, first))
    (stdout : WinProcess.createPipe (env.pipe .stdout) spawn .stdout first = some (output, second))
    (stderr : WinProcess.createPipe (env.pipe .stderr) spawn .stderr second = some (error, third)) :
    Books base (hideThree third env.hidden (daemonEnd input output error))
      (a.piped spawn (three input output error) env.hidden) := by
  have one := books.createPipe _ spawn .stdin input stdin (fresh.ends .stdin)
  have two := one.createPipe _ spawn .stdout output stdout
    (fun side => by simpa [Account.give] using fresh.ends .stdout side)
  have all := two.createPipe _ spawn .stderr error stderr
    (fun side => by simpa [Account.give] using fresh.ends .stderr side)
  have hidden := ((all.hide (env.hidden .stdin) (.pipeEnd spawn .stdin .writing) input.writeFd
    (by simp [Account.give])).hide (env.hidden .stdout) (.pipeEnd spawn .stdout .reading)
    output.readFd (by simp [Account.give])).hide (env.hidden .stderr)
    (.pipeEnd spawn .stderr .reading) error.readFd (by simp [Account.give])
  refine hidden.settle (fun o => ?_) (fun q => rfl) (fun i => rfl)
  cases o with
  | pipeEnd i role side =>
    by_cases same : i = spawn
    · subst same
      cases role <;> cases side <;>
        simp [Account.give, Account.piped, three, endOf, Role.daemonSide]
    · simp [Account.give, Account.piped, same]
  | own | process | thread => simp [Account.give, Account.piped]

theorem Books.giveUp {b : Account} (os : List Object) (books : Books base w (b.dropAll os))
    (off : ∀ o, o ∉ os -> b.held o = a.held o) (on : ∀ o ∈ os, a.held o = none)
    (wrapped : b.wrapped = a.wrapped) (runs : b.runs = a.runs) : Books base w a := by
  refine books.settle (fun o => ?_) (fun q => ?_) (fun i => ?_)
  · rw [dropAll_held]
    by_cases member : o ∈ os
    · rw [if_pos member, on o member]
    · rw [if_neg member, off o member]
  · rw [(dropAll_rest b os).1, wrapped]
  · rw [(dropAll_rest b os).2, runs]

theorem Books.abandon {ends : Role -> PipeFds} {hidden : Role -> Bool} (spawn : Nat)
    (fresh : Fresh a spawn) (books : Books base w (a.piped spawn ends hidden))
    (which : List (Role × Side)) (apart : which.Nodup) (all : ∀ role side, (role, side) ∈ which) :
    Books base (WinProcess.closeAll w (which.map fun e => endOf (ends e.1) e.2)) a := by
  have closed := books.closeAll
    (which.map fun e => (.pipeEnd spawn e.1 e.2, endOf (ends e.1) e.2)) ?_ ?_
  · rw [List.map_map, List.map_map] at closed
    refine closed.giveUp _ (fun o outside => ?_) (fun o member => ?_) rfl rfl
    · cases o with
      | pipeEnd i role side =>
        have other : i ≠ spawn := by
          rintro rfl
          exact outside (List.mem_map.mpr ⟨(role, side), all role side, rfl⟩)
        simp [Account.piped, other]
      | own | process | thread => rfl
    · obtain ⟨e, -, rfl⟩ := List.mem_map.mp member
      exact fresh.ends e.1 e.2
  · rw [List.map_map]
    refine List.Nodup.map (fun e f same => ?_) apart
    simpa [Prod.ext_iff] using same
  · intro owner member
    obtain ⟨e, -, rfl⟩ := List.mem_map.mp member
    simp [Account.piped]

theorem Books.launch {ends : Role -> PipeFds} {hidden : Role -> Bool} {spawn process thread : Nat}
    {answer : Option (Nat × Nat)} (fresh : Fresh a spawn)
    (books : Books base w (a.piped spawn ends hidden))
    (created : WinProcess.createProcess answer spawn w = some ((process, thread), v)) :
    Books base (WinProcess.setHandle (WinProcess.closeAll v [(ends .stdin).readFd,
        (ends .stdout).writeFd, (ends .stderr).writeFd]) thread none)
      (a.launched spawn process (fun role => endOf (ends role) role.daemonSide) hidden) := by
  have live := books.createProcess answer spawn process thread created fresh.process fresh.thread
  have closed := (live.closeAll [(.pipeEnd spawn .stdin .reading, (ends .stdin).readFd),
    (.pipeEnd spawn .stdout .writing, (ends .stdout).writeFd),
    (.pipeEnd spawn .stderr .writing, (ends .stderr).writeFd)] (by simp)
    (by simp [Account.piped, endOf])).dropHandle
    (.thread spawn) thread { object := .thread spawn, inherit := false } (by simp [dropAll_held])
  refine closed.settle (fun o => ?_) (fun q => ?_) (fun i => ?_)
  · cases o with
    | pipeEnd i role side =>
      by_cases here : i = spawn
      · subst here
        cases role <;> cases side <;>
          simp [dropAll_held, Account.piped, Account.launched, Role.daemonSide]
      · simp [dropAll_held, Account.piped, Account.launched, here]
    | process i => by_cases here : i = spawn <;>
        simp [dropAll_held, Account.piped, Account.launched, here]
    | thread i =>
      by_cases here : i = spawn
      · simp [here, Account.launched, fresh.thread]
      · simp [dropAll_held, Account.piped, Account.launched, here]
    | own => simp [dropAll_held, Account.piped, Account.launched]
  · simp [dropAll_rest, Account.piped, Account.launched]
  · simp [dropAll_rest, Account.piped, Account.launched, Function.update_apply]

theorem wtdChildSpawn_cases (books : Books base w a) (spawn : Nat) (env : WinEnv)
    (fresh : Fresh a spawn) :
    (∃ errno, errno ≠ 0 ∧ wtdChildSpawn spawn env w = spawnFailed errno w) ∨
      ∃ (ends : Role -> PipeFds) (process : Nat) (before after : WinState),
        (wtdBuildCmdline (some env.argv) (some env.cmdline) 4096).1 = 0 ∧
        Books base before (a.piped spawn ends env.hidden) ∧
        Books base after (a.launched spawn process
          (fun role => endOf (ends role) role.daemonSide) env.hidden) ∧
        wtdChildSpawn spawn env w =
          wrapHandles env process (fun role => endOf (ends role) role.daemonSide)
            ((wtdBuildCmdline (some env.argv) (some env.cmdline) 4096).2.getD env.cmdline,
              inherited before) after := by
  have back : ∀ errno v, errno ≠ 0 -> Books base v a ->
      wtdChildSpawn spawn env w = spawnFailed errno v ->
      ∃ errno, errno ≠ 0 ∧ wtdChildSpawn spawn env w = spawnFailed errno w := by
    intro errno v nonzero restored failed
    exact ⟨errno, nonzero, restored.unique books ▸ failed⟩
  unfold wtdChildSpawn at back ⊢
  by_cases empty : env.argv.isEmpty = true
  · exact .inl (back einval w (by decide) books (by rw [if_pos empty]))
  rw [if_neg empty] at back ⊢
  rcases stdin : WinProcess.createPipe (env.pipe .stdin) spawn .stdin w with _ | ⟨input, first⟩
  · simp only [stdin] at back ⊢
    exact .inl (back eio w (by decide) books rfl)
  have one := books.createPipe _ spawn .stdin input stdin (fresh.ends .stdin)
  simp only [stdin] at back ⊢
  rcases stdout : WinProcess.createPipe (env.pipe .stdout) spawn .stdout first with
    _ | ⟨output, second⟩
  · simp only [stdout] at back ⊢
    have closed := one.closeAll [(.pipeEnd spawn .stdin .reading, input.readFd),
      (.pipeEnd spawn .stdin .writing, input.writeFd)] (by simp) (by simp [Account.give])
    refine .inl (back eio _ (by decide) (closed.giveUp _ ?_ ?_ rfl rfl) rfl)
    · intro o outside
      simp_all [Account.give]
    · simp [fresh.ends]
  have two := one.createPipe _ spawn .stdout output stdout
    (fun side => by simpa [Account.give] using fresh.ends .stdout side)
  simp only [stdout] at back ⊢
  rcases stderr : WinProcess.createPipe (env.pipe .stderr) spawn .stderr second with
    _ | ⟨error, third⟩
  · simp only [stderr] at back ⊢
    have closed := two.closeAll [(.pipeEnd spawn .stdin .reading, input.readFd),
      (.pipeEnd spawn .stdin .writing, input.writeFd),
      (.pipeEnd spawn .stdout .reading, output.readFd),
      (.pipeEnd spawn .stdout .writing, output.writeFd)] (by simp) (by simp [Account.give])
    refine .inl (back eio _ (by decide) (closed.giveUp _ ?_ ?_ rfl rfl) rfl)
    · intro o outside
      simp_all [Account.give]
    · simp [fresh.ends]
  have open3 := books.threePipes spawn env fresh input output error stdin stdout stderr
  simp only [stderr] at back ⊢
  by_cases long : (wtdBuildCmdline (some env.argv) (some env.cmdline) 4096).1 ≠ 0
  · rw [if_pos long] at back ⊢
    exact .inl (back e2big _ (by decide) (open3.abandon spawn fresh
      [(.stdin, .reading), (.stdin, .writing), (.stdout, .reading), (.stdout, .writing),
        (.stderr, .reading), (.stderr, .writing)] (by decide) (by
        intro role side
        cases role <;> cases side <;> simp)) rfl)
  rw [if_neg long] at back ⊢
  rcases created : WinProcess.createProcess env.process spawn
      (hideThree third env.hidden (daemonEnd input output error)) with
    _ | ⟨⟨process, thread⟩, made⟩
  · simp only [created] at back ⊢
    exact .inl (back eio _ (by decide) (open3.abandon spawn fresh
      [(.stdin, .reading), (.stdout, .writing), (.stderr, .writing), (.stdin, .writing),
        (.stdout, .reading), (.stderr, .reading)] (by decide) (by
        intro role side
        cases role <;> cases side <;> simp)) rfl)
  have same : (fun role => endOf (three input output error role) role.daemonSide) =
      daemonEnd input output error := by
    funext role
    cases role <;> rfl
  exact .inr ⟨three input output error, process, _, _, not_not.mp long, open3,
    open3.launch fresh created, by rw [same]; rfl⟩

theorem wrapHandles_spec {spawn process : Nat} {ends : Role -> Nat} {hidden : Role -> Bool}
    (fresh : Fresh a spawn) (books : Books base w (a.launched spawn process ends hidden))
    (env : WinEnv) (started : (Nat -> UInt8) × (Nat -> Option Handle)) :
    ((wrapHandles env process ends started w).ret ≠ 0 ∧
        (wrapHandles env process ends started w).child = noChild ∧
        Books base (wrapHandles env process ends started w).win a) ∨
      ((wrapHandles env process ends started w).ret = 0 ∧
        (wrapHandles env process ends started w).child.pid ≠ 0 ∧
        (∀ role, 0 ≤ fdOf (wrapHandles env process ends started w).child role) ∧
        Books base (wrapHandles env process ends started w).win
          (a.spawned spawn (wrapHandles env process ends started w).child.pid ends
            (fdOf (wrapHandles env process ends started w).child) hidden)) := by
  have held : ∀ role, (a.launched spawn process ends hidden).held
      (.pipeEnd spawn role role.daemonSide) =
        some (ends role,
          { object := .pipeEnd spawn role role.daemonSide, inherit := !hidden role }) := by
    simp [Account.launched]
  have owned : (a.launched spawn process ends hidden).held (.process spawn) =
      some (process, { object := .process spawn, inherit := false }) := by
    simp [Account.launched]
  have valid := (books.named _ process _ owned).1
  have one := books.openOsfhandle (env.openFd .stdin) (spawn, .stdin) (ends .stdin)
    (by simpa [Account.launched] using fresh.wrapped .stdin)
  have two := one.openOsfhandle (env.openFd .stdout) (spawn, .stdout) (ends .stdout)
    (by simpa [Account.launched, Account.wrap] using fresh.wrapped .stdout)
  have all := two.openOsfhandle (env.openFd .stderr) (spawn, .stderr) (ends .stderr)
    (by simpa [Account.launched, Account.wrap] using fresh.wrapped .stderr)
  simp only [wrapHandles]
  generalize WinProcess.openOsfhandle (env.openFd .stdin) (ends .stdin) w = input at *
  generalize WinProcess.openOsfhandle (env.openFd .stdout) (ends .stdout) input.2 = output at *
  generalize WinProcess.openOsfhandle (env.openFd .stderr) (ends .stderr) output.2 = error at *
  split
  next failed =>
    have freed := ((all.closeEither (.pipeEnd spawn .stdin Role.stdin.daemonSide)
      (spawn, .stdin) input.1 (ends .stdin) (by simp [held]) (by simp)).closeEither
      (.pipeEnd spawn .stdout Role.stdout.daemonSide) (spawn, .stdout) output.1 (ends .stdout)
      (by simp [held]) (by simp)).closeEither (.pipeEnd spawn .stderr Role.stderr.daemonSide)
      (spawn, .stderr) error.1 (ends .stderr) (by simp [held]) (by simp)
    have killed := (freed.endProcess spawn process { object := .process spawn, inherit := false }
      (by simp [owned])).dropHandle (.process spawn) process
      { object := .process spawn, inherit := false } (by simp [owned])
    refine .inl ⟨by simp [eio], rfl, killed.settle (fun o => ?_) (fun q => ?_) (fun i => ?_)⟩
    · cases o with
      | pipeEnd i role side =>
        by_cases here : i = spawn
        · subst here
          cases role <;> cases side <;> simp [Account.launched, Role.daemonSide, fresh.ends]
        · simp [Account.launched, here]
      | process i => by_cases here : i = spawn <;> simp [Account.launched, here, fresh.process]
      | own | thread => simp [Account.launched]
    · obtain ⟨i, role⟩ := q
      by_cases here : i = spawn
      · subst here
        cases role <;> simp [fresh.wrapped]
      · simp [Account.launched, here]
    · by_cases here : i = spawn <;> simp [Account.launched, here, fresh.runs]
  next worked =>
    simp only [Bool.or_eq_true, decide_eq_true_eq, not_or, Int.not_lt] at worked
    refine .inr ⟨rfl, valid, ?_, all.settle (fun o => rfl) (fun q => ?_) (fun i => rfl)⟩
    · intro role
      cases role
      exacts [worked.1.1, worked.1.2, worked.2]
    · obtain ⟨i, role⟩ := q
      by_cases here : i = spawn
      · subst here
        cases role <;> simp [Account.spawned, fdOf]
      · simp [Account.spawned, Account.launched, here]

theorem wtdChildSpawn_spec (books : Books base w a) (spawn : Nat) (env : WinEnv)
    (fresh : Fresh a spawn) :
    ((wtdChildSpawn spawn env w).ret ≠ 0 ∧ (wtdChildSpawn spawn env w).child = noChild ∧
        (wtdChildSpawn spawn env w).win = w) ∨
      ((wtdChildSpawn spawn env w).ret = 0 ∧ (wtdChildSpawn spawn env w).child.pid ≠ 0 ∧
        (∀ role, 0 ≤ fdOf (wtdChildSpawn spawn env w).child role) ∧
        ∃ ends, Books base (wtdChildSpawn spawn env w).win
          (a.spawned spawn (wtdChildSpawn spawn env w).child.pid ends
            (fdOf (wtdChildSpawn spawn env w).child) env.hidden)) := by
  rcases wtdChildSpawn_cases books spawn env fresh with
    ⟨errno, nonzero, failed⟩ | ⟨ends, process, before, after, -, -, launched, result⟩
  · rw [failed]
    exact .inl ⟨by simpa [spawnFailed] using nonzero, rfl, rfl⟩
  · rw [result]
    rcases wrapHandles_spec fresh launched env _ with
      ⟨failed, nothing, restored⟩ | ⟨worked, valid, opened, kept⟩
    · exact .inl ⟨failed, nothing, restored.unique books⟩
    · exact .inr ⟨worked, valid, opened, _, kept⟩

theorem wtdChildSpawn_started (books : Books base w a) (spawn : Nat) (env : WinEnv)
    (fresh : Fresh a spawn) (cmdline : Nat -> UInt8) (table : Nat -> Option Handle)
    (started : (wtdChildSpawn spawn env w).started = some (cmdline, table)) :
    ∃ ends before, Books base before (a.piped spawn ends env.hidden) ∧
      (wtdBuildCmdline (some env.argv) (some env.cmdline) 4096).1 = 0 ∧
      cmdline = (wtdBuildCmdline (some env.argv) (some env.cmdline) 4096).2.getD env.cmdline ∧
      table = inherited before := by
  rcases wtdChildSpawn_cases books spawn env fresh with
    ⟨errno, nonzero, failed⟩ | ⟨ends, process, before, after, built, piped, launched, result⟩
  · simp [failed, spawnFailed] at started
  · rw [result, wrapHandles_started] at started
    obtain ⟨rfl, rfl⟩ := by simpa using started
    exact ⟨ends, before, piped, built, rfl, rfl⟩

def setFd (child : WinChild) (role : Role) (fd : Int) : WinChild :=
  match role with
  | .stdin => { child with stdinFd := fd }
  | .stdout => { child with stdoutFd := fd }
  | .stderr => { child with stderrFd := fd }

theorem fdOf_setFd (child : WinChild) (role other : Role) (fd : Int) :
    fdOf (setFd child role fd) other = if other = role then fd else fdOf child other := by
  cases role <;> cases other <;> rfl

theorem setFd_pid (child : WinChild) (role : Role) (fd : Int) :
    (setFd child role fd).pid = child.pid := by
  cases role <;> rfl

theorem closeFd_fst (w : WinState) (fd : Int) : (closeFd w fd).1 < 0 := by
  by_cases valid : fd ≥ 0
  · simp [closeFd, valid]
  · rw [closeFd, if_neg valid]
    exact Int.not_le.mp valid

structure Recorded (a : Account) (spawn : Nat) (child : WinChild) : Prop where
  process : child.pid ≠ 0 ->
    a.held (.process spawn) = some (child.pid, { object := .process spawn, inherit := false })
  ended : child.pid = 0 -> a.held (.process spawn) = none ∧ a.runs spawn = false
  kept : ∀ role, ∃ h, Kept a spawn role (fdOf child role) h
  childEnds : ∀ role side, side ≠ role.daemonSide -> a.held (.pipeEnd spawn role side) = none
  thread : a.held (.thread spawn) = none

def Idle (child : WinChild) : Prop :=
  child.pid = 0 ∧ ∀ role, fdOf child role < 0

theorem noChild_idle : Idle noChild :=
  ⟨rfl, fun role => by cases role <;> decide⟩

theorem Recorded.fresh {spawn : Nat} {child : WinChild} (recorded : Recorded a spawn child)
    (idle : Idle child) : Fresh a spawn where
  ends role side := by
    by_cases mine : side = role.daemonSide
    · obtain ⟨h, kept⟩ := recorded.kept role
      exact mine ▸ kept.absent (idle.2 role)
    · exact recorded.childEnds role side mine
  process := (recorded.ended idle.1).1
  thread := recorded.thread
  wrapped role := by
    obtain ⟨h, kept⟩ := recorded.kept role
    rw [kept.wrapped, descriptor, if_neg (Int.not_le.mpr (idle.2 role))]
  runs := (recorded.ended idle.1).2

theorem Recorded.frame {b : Account} {spawn : Nat} {child : WinChild}
    (recorded : Recorded a spawn child)
    (ends : ∀ role side, b.held (.pipeEnd spawn role side) = a.held (.pipeEnd spawn role side))
    (process : b.held (.process spawn) = a.held (.process spawn))
    (thread : b.held (.thread spawn) = a.held (.thread spawn))
    (wrapped : ∀ role, b.wrapped (spawn, role) = a.wrapped (spawn, role))
    (runs : b.runs spawn = a.runs spawn) : Recorded b spawn child where
  process live := process.trans (recorded.process live)
  ended dead := by
    rw [process, runs]
    exact recorded.ended dead
  kept role := by
    obtain ⟨h, kept⟩ := recorded.kept role
    refine ⟨h, ⟨(wrapped role).trans kept.wrapped, ?_, ?_⟩⟩ <;> rw [ends role role.daemonSide]
    exacts [kept.present, kept.absent]
  childEnds role side other := (ends role side).trans (recorded.childEnds role side other)
  thread := thread.trans recorded.thread

theorem Recorded.closeFd {spawn : Nat} {child : WinChild} (recorded : Recorded a spawn child)
    (role : Role) (fd : Int) (closed : fd < 0) :
    Recorded ((a.drop (.pipeEnd spawn role role.daemonSide)).wrap (spawn, role) none) spawn
      (setFd child role fd) where
  process live := by
    rw [setFd_pid] at live ⊢
    simpa using recorded.process live
  ended dead := by
    rw [setFd_pid] at dead
    simpa using recorded.ended dead
  kept other := by
    obtain ⟨h, kept⟩ := recorded.kept other
    rw [fdOf_setFd]
    by_cases same : other = role
    · subst same
      rw [if_pos rfl]
      exact ⟨h, by simp [descriptor, closed], by omega, by simp⟩
    · rw [if_neg same]
      refine ⟨h, ?_, ?_, ?_⟩
      · simpa [same] using kept.wrapped
      · simpa [same] using kept.present
      · simpa [same] using kept.absent
  childEnds other side differs := by
    simpa using fun _ => recorded.childEnds other side differs
  thread := by simpa using recorded.thread

theorem Recorded.reap {spawn : Nat} {child : WinChild} (recorded : Recorded a spawn child) :
    Recorded ((a.run spawn false).drop (.process spawn)) spawn { child with pid := 0 } where
  process live := absurd rfl live
  ended _ := by simp
  kept role := by
    obtain ⟨h, kept⟩ := recorded.kept role
    have same : fdOf { child with pid := 0 } role = fdOf child role := by cases role <;> rfl
    rw [same]
    exact ⟨h, by simpa using kept.wrapped, by simpa using kept.present, by simpa using kept.absent⟩
  childEnds role side differs := by simpa using recorded.childEnds role side differs
  thread := by simpa using recorded.thread

structure Tracks (tight : Prop) (base w : WinState) (a : Account) (child : Nat -> WinChild) :
    Prop where
  books : Books base w a
  recorded : ∀ i, Recorded a i (child i)
  own : ∀ id, a.held (.own id) = none
  sealed : tight -> ∀ o h u, a.held o = some (h, u) -> u.inherit = false

section Tracking

variable {tight : Prop} {child : Nat -> WinChild}

theorem Tracks.closeFd (tracks : Tracks tight base w a child) (spawn : Nat) (role : Role) :
    ∃ b, Tracks tight base (closeFd w (fdOf (child spawn) role)).2 b
      (Function.update child spawn
        (setFd (child spawn) role (closeFd w (fdOf (child spawn) role)).1)) := by
  obtain ⟨h, kept⟩ := (tracks.recorded spawn).kept role
  refine ⟨_, tracks.books.closeFd spawn role _ h kept, fun i => ?_, fun id => ?_, ?_⟩
  · by_cases same : i = spawn
    · subst same
      simpa using (tracks.recorded i).closeFd role _ (closeFd_fst w _)
    · rw [Function.update_of_ne same]
      exact (tracks.recorded i).frame (by simp [same]) (by simp) (by simp) (by simp [same]) rfl
  · simpa using tracks.own id
  · intro strict o k u held
    have old : a.held o = some (k, u) := by
      by_cases mine : o = .pipeEnd spawn role role.daemonSide <;> simp_all
    exact tracks.sealed strict o k u old

theorem Tracks.reap (tracks : Tracks tight base w a child) (spawn : Nat) (exits : Bool)
    (live : (child spawn).pid ≠ 0) :
    ∃ b, Tracks tight base (reap w (child spawn).pid exits) b
      (Function.update child spawn { child spawn with pid := 0 }) := by
  have owned := (tracks.recorded spawn).process live
  refine ⟨_, tracks.books.reap spawn _ _ exits owned, fun i => ?_, fun id => ?_, ?_⟩
  · by_cases same : i = spawn
    · subst same
      simpa using (tracks.recorded i).reap
    · rw [Function.update_of_ne same]
      exact (tracks.recorded i).frame (by simp) (by simp [same]) (by simp) (by simp)
        (by simp [same])
  · simpa using tracks.own id
  · intro strict o k u held
    have old : a.held o = some (k, u) := by
      by_cases mine : o = .process spawn <;> simp_all
    exact tracks.sealed strict o k u old

theorem Tracks.terminate (tracks : Tracks tight base w a child) (spawn : Nat) (exits : Bool) :
    ∃ b, Tracks tight base (wtdChildTerminate (child spawn) exits w).2 b
      (Function.update child spawn (wtdChildTerminate (child spawn) exits w).1) := by
  obtain ⟨one, input⟩ := tracks.closeFd spawn .stdin
  have reaped : ∃ b, Tracks tight base
      (if (child spawn).pid ≠ 0 then
        WinProcess.reap (WinProcess.closeFd w (child spawn).stdinFd).2 (child spawn).pid exits
        else (WinProcess.closeFd w (child spawn).stdinFd).2) b
      (Function.update child spawn { child spawn with
        pid := 0
        stdinFd := (WinProcess.closeFd w (child spawn).stdinFd).1 }) := by
    by_cases live : (child spawn).pid ≠ 0
    · obtain ⟨two, process⟩ := input.reap spawn exits (by simpa [setFd] using live)
      exact ⟨two, by simpa [live, setFd, fdOf] using process⟩
    · have dead := not_not.mp live
      refine ⟨one, ?_⟩
      rw [if_neg live, ← dead]
      exact input
  obtain ⟨two, process⟩ := reaped
  obtain ⟨three, output⟩ := process.closeFd spawn .stdout
  obtain ⟨four, error⟩ := output.closeFd spawn .stderr
  exact ⟨four, by simpa [setFd, fdOf, wtdChildTerminate] using error⟩

theorem Tracks.exit (tracks : Tracks tight base w a child) (spawn : Nat) :
    Tracks tight base { w with running := Function.update w.running spawn false }
      (a.run spawn false) child where
  books := ⟨tracks.books.handles, tracks.books.fds,
    congrArg (Function.update · spawn false) tracks.books.running, tracks.books.named⟩
  recorded i := by
    have old := tracks.recorded i
    refine ⟨old.process, fun dead => ?_, fun role => ?_, old.childEnds, old.thread⟩
    · simpa using ⟨(old.ended dead).1, fun _ => (old.ended dead).2⟩
    · obtain ⟨h, kept⟩ := old.kept role
      exact ⟨h, kept.wrapped, kept.present, kept.absent⟩
  own := tracks.own
  sealed := tracks.sealed

theorem Tracks.spawned (tracks : Tracks tight base w a child) (spawn process : Nat)
    (ends : Role -> Nat) (fds : Role -> Int) (hidden : Role -> Bool) (made : WinChild)
    (valid : made.pid ≠ 0) (pid : made.pid = process) (opened : ∀ role, 0 ≤ fdOf made role)
    (wrapped : fdOf made = fds) (strict : tight -> ∀ role, hidden role = true)
    (fresh : Fresh a spawn)
    (books : Books base v (a.spawned spawn process ends fds hidden)) :
    Tracks tight base v (a.spawned spawn process ends fds hidden)
      (Function.update child spawn made) := by
  subst pid wrapped
  refine ⟨books, fun i => ?_, fun id => tracks.own id, fun narrow o h u held => ?_⟩
  · by_cases same : i = spawn
    · subst same
      rw [Function.update_self]
      refine ⟨fun _ => ?_, fun dead => absurd dead valid, fun role => ⟨ends role, ?_, ?_, ?_⟩,
        fun role side differs => ?_, fresh.thread⟩
      · simp [Account.spawned, Account.launched]
      · simp [Account.spawned]
      · simp [Account.spawned, Account.launched]
      · exact fun closed => absurd (opened role) (Int.not_le.mpr closed)
      · simp [Account.spawned, Account.launched, differs]
    · rw [Function.update_of_ne same]
      refine (tracks.recorded i).frame ?_ ?_ rfl ?_ ?_ <;>
        simp [Account.spawned, Account.launched, same]
  · have old := tracks.sealed narrow
    cases o with
    | pipeEnd i role side =>
      by_cases same : i = spawn
      · subst same
        by_cases mine : side = role.daemonSide
        · obtain ⟨-, rfl⟩ := by simpa [Account.spawned, Account.launched, mine] using held
          simp [strict narrow role]
        · simp [Account.spawned, Account.launched, mine] at held
      · exact old _ h u (by simpa [Account.spawned, Account.launched, same] using held)
    | process i =>
      by_cases same : i = spawn
      · obtain ⟨-, rfl⟩ := by simpa [Account.spawned, Account.launched, same] using held
        rfl
      · exact old _ h u (by simpa [Account.spawned, Account.launched, same] using held)
    | own | thread => exact old _ h u held

end Tracking

structure OwnEnds (base : WinState) (program : Program) : Prop where
  only : ∀ h u, program.table h = some u ->
    (base.handles h = some u ∧ u.inherit = true) ∨
      ∃ role : Role, u = { object := .pipeEnd program.spawn role role.childSide, inherit := true }
  each : ∀ role : Role, ∃ h, program.table h =
    some { object := .pipeEnd program.spawn role role.childSide, inherit := true }

theorem inherited_ownEnds {ends : Role -> PipeFds} {hidden : Role -> Bool} {spawn : Nat}
    (sealed : ∀ o h u, a.held o = some (h, u) -> u.inherit = false)
    (strict : ∀ role, hidden role = true) (books : Books base w (a.piped spawn ends hidden))
    (cmdline : Nat -> UInt8) :
    OwnEnds base { spawn, cmdline, table := inherited w } where
  only h u passed := by
    obtain ⟨entry, inheritable⟩ : w.handles h = some u ∧ u.inherit = true := by
      simpa [inherited, Option.filter_eq_some_iff] using passed
    by_cases owned : ∃ o x, (a.piped spawn ends hidden).held o = some (h, x)
    · obtain ⟨o, x, owned⟩ := owned
      obtain rfl : u = x := by
        simpa [entry] using (books.handles.entries o h x owned).1
      have closed : a.held o ≠ some (h, u) := by
        intro old
        simp [sealed o h u old] at inheritable
      cases o with
      | pipeEnd i role side =>
        by_cases same : i = spawn
        · subst same
          obtain ⟨-, rfl⟩ := by simpa [Account.piped] using owned
          refine .inr ⟨role, ?_⟩
          cases role <;> cases side <;> simp_all [Role.daemonSide, Role.childSide]
        · exact absurd (by simpa [Account.piped, same] using owned) closed
      | own | process | thread => exact absurd owned closed
    · rw [books.handles.others h fun o x held => owned ⟨o, x, held⟩] at entry
      exact .inl ⟨entry, inheritable⟩
  each role := by
    have owned : (a.piped spawn ends hidden).held (.pipeEnd spawn role role.childSide) =
        some (endOf (ends role) role.childSide,
          { object := .pipeEnd spawn role role.childSide, inherit := true }) := by
      cases role <;> simp [Account.piped, Role.childSide, Role.daemonSide]
    have entry := (books.handles.entries _ _ _ owned).1
    exact ⟨endOf (ends role) role.childSide, by simp [inherited, entry]⟩

def Hides : WinOp -> Prop
  | .spawn env => ∀ role, env.hidden role = true
  | .terminate _ _ | .closeStdin _ | .exit _ => True

structure Sound (tight : Prop) (base : WinState) (s : WinDaemon) : Prop where
  tracks : ∃ a, Tracks tight base s.win a fun i => (s.children i).getD noChild
  unspawned : ∀ i, s.spawned ≤ i -> s.children i = none
  programs : tight -> ∀ program ∈ s.started, OwnEnds base program

theorem getD_update (children : Nat -> Option WinChild) (spawn : Nat) (made : WinChild) :
    (fun i => (Function.update children spawn (some made) i).getD noChild) =
      Function.update (fun i => (children i).getD noChild) spawn made := by
  funext i
  by_cases same : i = spawn <;> simp [same]

theorem Tracks.fresh {tight : Prop} {children : Nat -> Option WinChild}
    (tracks : Tracks tight base w a fun i => (children i).getD noChild) (spawn : Nat)
    (absent : children spawn = none) : Fresh a spawn := by
  have recorded := tracks.recorded spawn
  rw [absent] at recorded
  exact recorded.fresh noChild_idle

theorem Sound.ended {tight : Prop} {s : WinDaemon} (sound : Sound tight base s) (spawn : Nat)
    (old made : WinChild) (present : s.children spawn = some old)
    (tracks : ∃ b, Tracks tight base w b
      (Function.update (fun i => (s.children i).getD noChild) spawn made)) :
    Sound tight base (s.ended spawn made w) where
  tracks := by simpa [WinDaemon.ended, getD_update] using tracks
  unspawned i late := by
    have known := sound.unspawned i late
    have other : i ≠ spawn := by
      rintro rfl
      simp [known] at present
    simpa [WinDaemon.ended, other] using known
  programs := sound.programs

theorem Sound.begun {tight : Prop} {s : WinDaemon} (sound : Sound tight base s) (env : WinEnv)
    (strict : tight -> ∀ role, env.hidden role = true) :
    Sound tight base (s.begun (wtdChildSpawn s.spawned env s.win)) := by
  obtain ⟨⟨a, tracks⟩, unspawned, programs⟩ := sound
  have fresh := tracks.fresh s.spawned (unspawned s.spawned le_rfl)
  have later : ∀ i, s.spawned + 1 ≤ i -> s.children i = none := fun i late => unspawned i (by omega)
  have begins := wtdChildSpawn_started tracks.books s.spawned env fresh
  have spec := wtdChildSpawn_spec tracks.books s.spawned env fresh
  generalize wtdChildSpawn s.spawned env s.win = made at begins spec ⊢
  have begun : tight -> ∀ program ∈ (s.begun made).started, OwnEnds base program := by
    intro narrow program member
    simp only [WinDaemon.begun, List.mem_append, Option.mem_toList,
      Option.map_eq_some_iff] at member
    rcases member with old | ⟨⟨cmdline, table⟩, started, rfl⟩
    · exact programs narrow program old
    · obtain ⟨ends, before, piped, -, -, rfl⟩ := begins cmdline table started
      exact inherited_ownEnds (tracks.sealed narrow) (strict narrow) piped cmdline
  rcases spec with ⟨failed, -, same⟩ | ⟨worked, valid, opened, ends, books⟩
  · refine ⟨⟨a, ?_⟩, ?_, begun⟩
    · simpa [WinDaemon.begun, failed, same] using tracks
    · simpa [WinDaemon.begun, failed] using later
  · refine ⟨⟨a.spawned s.spawned made.child.pid ends (fdOf made.child) env.hidden, ?_⟩,
      fun i late => ?_, begun⟩
    · simp only [WinDaemon.begun, if_pos worked, getD_update]
      exact tracks.spawned _ _ _ _ _ _ valid rfl opened rfl strict fresh books
    · have other : i ≠ s.spawned := by
        rintro rfl
        exact absurd late (by simp [WinDaemon.begun])
      simpa [WinDaemon.begun, worked, other] using later i late

theorem sound_step {tight : Prop} (s t : WinDaemon) (op : WinOp) (sound : Sound tight base s)
    (strict : tight -> Hides op) (taken : winStep s op = some t) : Sound tight base t := by
  obtain ⟨a, tracks⟩ := sound.tracks
  cases op with
  | spawn env =>
    obtain rfl : s.begun (wtdChildSpawn s.spawned env s.win) = t := by simpa [winStep] using taken
    exact sound.begun env strict
  | terminate spawn exits =>
    obtain ⟨child, present, rfl⟩ := by simpa [winStep] using taken
    refine sound.ended spawn child _ present ?_
    simpa [present] using tracks.terminate spawn exits
  | closeStdin spawn =>
    obtain ⟨child, present, rfl⟩ := by simpa [winStep] using taken
    refine sound.ended spawn child _ present ?_
    simpa [present, closeStdin, fdOf, setFd] using tracks.closeFd spawn .stdin
  | exit spawn =>
    obtain rfl := by simpa [winStep] using taken
    exact ⟨⟨_, tracks.exit spawn⟩, sound.unspawned, sound.programs⟩

theorem sound_start (tight : Prop) (handles : Nat -> Option Handle) (fds : Nat -> Option Nat) :
    Sound tight (startDaemon handles fds).win (startDaemon handles fds) where
  tracks := by
    refine ⟨{ held := fun _ => none, wrapped := fun _ => none, runs := fun _ => false },
      ⟨.empty _, .empty _, rfl, by simp⟩, fun i => ?_, by simp, by simp⟩
    refine ⟨by simp [startDaemon, noChild], by simp, fun role => ⟨0, ?_, ?_, by simp⟩, by simp, rfl⟩
    all_goals cases role <;> simp [startDaemon, noChild, fdOf, descriptor]
  unspawned := by simp [startDaemon]
  programs := by simp [startDaemon]

theorem Tracks.holder {tight : Prop} {child : Nat -> WinChild}
    (tracks : Tracks tight base w a child) (o : Object) (h : Nat) (u : Handle)
    (owned : a.held o = some (h, u)) :
    ∃ i, ((child i).pid ≠ 0 ∧ (child i).pid = h) ∨
      ∃ role, 0 ≤ fdOf (child i) role ∧ w.fds (fdOf (child i) role).toNat = some h := by
  cases o with
  | own id => simp [tracks.own id] at owned
  | thread i => simp [(tracks.recorded i).thread] at owned
  | process i =>
    by_cases dead : (child i).pid = 0
    · simp [((tracks.recorded i).ended dead).1] at owned
    · obtain ⟨same, -⟩ := by simpa [(tracks.recorded i).process dead] using owned
      exact ⟨i, .inl ⟨dead, same⟩⟩
  | pipeEnd i role side =>
    by_cases mine : side = role.daemonSide
    · subst mine
      obtain ⟨k, kept⟩ := (tracks.recorded i).kept role
      by_cases closed : fdOf (child i) role < 0
      · simp [kept.absent closed] at owned
      · have valid := Int.not_lt.mp closed
        obtain ⟨x, present⟩ := kept.present valid
        obtain ⟨rfl, -⟩ := by simpa [present] using owned
        have wrapped := kept.wrapped
        rw [descriptor, if_pos valid] at wrapped
        exact ⟨i, .inr ⟨role, valid, (tracks.books.fds.entries _ _ _ wrapped).1⟩⟩
    · simp [(tracks.recorded i).childEnds role side mine] at owned

theorem Tracks.restored {tight : Prop} {child : Nat -> WinChild}
    (tracks : Tracks tight base w a child) (idle : ∀ i, Idle (child i))
    (quiet : base.running = fun _ => false) : w = base := by
  have fresh := fun i => (tracks.recorded i).fresh (idle i)
  have settled : Books base w
      { held := fun _ => none, wrapped := fun _ => none, runs := fun _ => false } := by
    refine tracks.books.settle (fun o => ?_) (fun q => (fresh q.1).wrapped q.2)
      (fun i => (fresh i).runs)
    cases o with
    | own id => exact tracks.own id
    | pipeEnd i role side => exact (fresh i).ends role side
    | process i => exact (fresh i).process
    | thread i => exact (fresh i).thread
  exact settled.unique ⟨.empty _, .empty _, quiet, by simp⟩

end WebTransportD.WinHandles
