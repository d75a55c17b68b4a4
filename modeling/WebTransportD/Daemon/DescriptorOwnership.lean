import WebTransportD.Adapters.ChildSpawn
import WebTransportD.Adapters.TransportPeer
import WebTransportD.Shared.Execution

set_option autoImplicit false

namespace WebTransportD.DescriptorOwnership

open ChildProcess Descriptors ChildSpawn TransportPeer

-- A peer's descriptor numbers in memory: its `wtd_child_t`, and the copy that its output reader was
-- started with, until the reader is joined.
structure PeerFds where
  child : WtdChild
  output : Option Int

-- The field that close_fd or peer_child_close resets.
def dropFd (child : WtdChild) (fd : Int) : WtdChild :=
  if child.stdinFd = fd then { child with stdinFd := -1 }
  else if child.stdoutFd = fd then { child with stdoutFd := -1 }
  else if child.stderrFd = fd then { child with stderrFd := -1 }
  else child

def PeerFds.after (h : PeerFds) : Effect -> PeerFds
  | .sys (.close fd) => { h with child := dropFd h.child fd }
  | .outputStart => { h with output := some h.child.stdoutFd }
  | .outputStop true => { h with output := none }
  | _ => h

structure Busy where
  peer : Nat
  remaining : List Effect
  final : Option WtdPeer

-- Peers are named by the number of their spawn. `readers` are the running reader threads with their
-- copies of the descriptor; `misuse` records that a call named a descriptor which the peer it was
-- made for did not own then.
structure Daemon where
  table : Table File
  spawned : Nat
  records : Nat -> PeerFds
  peers : Nat -> Option WtdPeer
  readers : Nat -> Option Int
  busy : Option Busy
  misuse : Bool

structure ConnectCalls where
  malloc : Bool
  spawn : SpawnEnv
  outputStart : Bool
  declarePrefix : Bool
  waits : Nat -> WaitOutcome
  positive : ∀ pid, spawn.fork = .ok pid -> 0 < pid

inductive Act where
  | connect (stream : Nat) (calls : ConnectCalls)
  | callback (peer : Nat) (event : Event)
  | effect
  | read (peer : Nat)
  | readerExit (peer : Nat)

def spawnedOf (made : SpawnResult) : Option Spawned :=
  if running : made.ret = 0 ∧ 0 < made.child.pid then
    some
      { pid := made.child.pid.toNat
        stdin := made.child.stdinFd.toNat
        stdout := made.child.stdoutFd.toNat
        stderr := made.child.stderrFd.toNat
        running := by omega }
  else none

def owns (s : Daemon) (peer : Nat) (role : Role) (fd : Int) : Bool :=
  decide (0 ≤ fd) && decide (role.fd (s.records peer).child = fd) &&
    decide ((s.table fd.toNat).map Entry.file = some (.pipeEnd peer role role.daemonSide))

def ownsNamed (s : Daemon) (peer : Nat) : Effect -> Bool
  | .sys (.write fd _ _) => owns s peer .stdin fd
  | .sys (.close fd) => owns s peer .stdin fd || owns s peer .stdout fd || owns s peer .stderr fd
  | _ => true

def Daemon.perform (s : Daemon) (b : Busy) (e : Effect) (rest : List Effect) : Daemon :=
  { s with
    table :=
      match e with
      | .sys (.close fd) => close s.table fd.toNat
      | _ => s.table
    records := Function.update s.records b.peer ((s.records b.peer).after e)
    readers :=
      match e with
      | .outputStart =>
          Function.update s.readers b.peer (some (s.records b.peer).child.stdoutFd)
      | _ => s.readers
    busy := some { b with remaining := rest }
    misuse := s.misuse || !ownsNamed s b.peer e }

def joins : Effect -> Bool
  | .outputStop joined => joined
  | _ => false

-- Events are handled one after another by the network thread; reader threads act between any two of
-- its calls.
def daemonStep (limit : Nat) (s : Daemon) : Act -> Option Daemon
  | .connect stream calls =>
      if s.busy.isSome then none
      else if !calls.malloc then some s
      else
        let made := wtdChildSpawn limit s.spawned calls.spawn s.table
        let handled := wtSessionCb none (.connect stream
          { malloc := true, spawn := spawnedOf made, outputStart := calls.outputStart
            declarePrefix := calls.declarePrefix, waits := calls.waits })
        some { s with
          table := made.table
          spawned := s.spawned + 1
          records := Function.update s.records s.spawned { child := made.child, output := none }
          busy := some { peer := s.spawned, remaining := handled.2.1, final := handled.1 } }
  | .callback peer event =>
      if s.busy.isSome || connects event then none
      else
        (s.peers peer).map fun p =>
          let handled := wtSessionCb (some p) event
          { s with busy := some { peer, remaining := handled.2.1, final := handled.1 } }
  | .effect =>
      match s.busy with
      | none => none
      | some b =>
          match b.remaining with
          | [] => some { s with peers := Function.update s.peers b.peer b.final, busy := none }
          | e :: rest =>
              -- pthread_join waits for the reader to return.
              if joins e && (s.readers b.peer).isSome then none else some (s.perform b e rest)
  | .read peer =>
      (s.readers peer).map fun fd => { s with misuse := s.misuse || !owns s peer .stdout fd }
  | .readerExit peer =>
      (s.readers peer).map fun _ => { s with readers := Function.update s.readers peer none }

def start (files : Table Nat) : Daemon :=
  { table := (startDaemon files).table
    spawned := 0
    records := fun _ => { child := noChild, output := none }
    peers := fun _ => none
    readers := fun _ => none
    busy := none
    misuse := false }

structure Ledger (table : Table File) (children : Nat -> WtdChild) : Prop where
  held : ∀ fd entry peer role side, table fd = some entry ->
    entry.file = .pipeEnd peer role side ->
    side = role.daemonSide ∧ role.fd (children peer) = fd
  owns : ∀ peer (role : Role) (fd : Nat), role.fd (children peer) = fd ->
    (table fd).map Entry.file = some (.pipeEnd peer role role.daemonSide)

theorem Ledger.unique {table : Table File} {children : Nat -> WtdChild}
    (ledger : Ledger table children) (fd peer other : Nat) (role second : Role)
    (first : role.fd (children peer) = fd) (again : second.fd (children other) = fd) :
    other = peer ∧ second = role := by
  have here := ledger.owns peer role fd first
  have there := ledger.owns other second fd again
  rw [here] at there
  obtain ⟨same, kind, -⟩ := File.pipeEnd.inj (Option.some.inj there)
  exact ⟨same.symm, kind.symm⟩

theorem fd_dropFd (child : WtdChild) (fd : Int) (role other : Role) (field : role.fd child = fd)
    (unique : ∀ second : Role, second.fd child = fd -> second = role) :
    other.fd (dropFd child fd) = if other = role then -1 else other.fd child := by
  have stdin : role ≠ .stdin -> child.stdinFd ≠ fd :=
    fun apart same => apart (unique .stdin same).symm
  have stdout : role ≠ .stdout -> child.stdoutFd ≠ fd :=
    fun apart same => apart (unique .stdout same).symm
  clear unique
  cases role <;> cases other <;> simp_all [dropFd, Role.fd]

theorem Ledger.close {table : Table File} {children : Nat -> WtdChild}
    (ledger : Ledger table children) (peer fd : Nat) (role : Role)
    (field : role.fd (children peer) = fd) :
    Ledger (Descriptors.close table fd)
      (Function.update children peer (dropFd (children peer) fd)) := by
  have dropped := fun other => fd_dropFd (children peer) fd role other field
    fun second again => (ledger.unique fd peer peer role second field again).2
  constructor
  · intro number entry owner kind side opened pipeEnd
    have apart : number ≠ fd := by
      rintro rfl
      simp at opened
    have before : table number = some entry := by simpa [apart] using opened
    obtain ⟨ours, recorded⟩ := ledger.held number entry owner kind side before pipeEnd
    refine ⟨ours, ?_⟩
    by_cases same : owner = peer
    · subst same
      have other : kind ≠ role := by
        rintro rfl
        omega
      simpa [dropped, other] using recorded
    · simpa [same] using recorded
  · intro owner kind number recorded
    have before : kind.fd (children owner) = number ∧ (owner = peer -> kind ≠ role) := by
      by_cases same : owner = peer
      · subst same
        by_cases kept : kind = role
        · simp only [Function.update_self, dropped, kept, if_true] at recorded
          omega
        · exact ⟨by simpa [dropped, kept] using recorded, fun _ => kept⟩
      · exact ⟨by simpa [same] using recorded, fun here => absurd here same⟩
    have apart : number ≠ fd := by
      rintro rfl
      obtain ⟨same, kept⟩ := ledger.unique number peer owner role kind field before.1
      exact before.2 same kept
    simpa [apart] using ledger.owns owner kind number before.1

theorem Ledger.spawn {table : Table File} {children : Nat -> WtdChild}
    (ledger : Ledger table children) (limit peer : Nat) (env : SpawnEnv)
    (fresh : ∀ role : Role, role.fd (children peer) < 0) :
    Ledger (wtdChildSpawn limit peer env table).table
      (Function.update children peer (wtdChildSpawn limit peer env table).child) := by
  obtain ⟨kept, added, recorded⟩ := wtdChildSpawn_opens limit peer env table _ rfl
  constructor
  · intro fd entry owner role side opened pipeEnd
    rcases added fd entry opened with before | ⟨own, -, field, rfl⟩
    · obtain ⟨ours, known⟩ := ledger.held fd entry owner role side before pipeEnd
      have other : owner ≠ peer := by
        rintro rfl
        have negative := fresh role
        omega
      exact ⟨ours, by simpa [other] using known⟩
    · obtain ⟨rfl, rfl, rfl⟩ := File.pipeEnd.inj pipeEnd
      exact ⟨rfl, by simpa using field⟩
  · intro owner role fd field
    by_cases same : owner = peer
    · subst same
      rw [recorded role fd (by simpa using field)]
      rfl
    · have before := ledger.owns owner role fd (by simpa [same] using field)
      have opened : table fd ≠ none := fun closed => by simp [closed] at before
      rw [kept fd opened, before]

def Gone (h : PeerFds) : Prop :=
  (∀ role : Role, role.fd h.child < 0) ∧ h.output = none

def Settled (h : PeerFds) : Option WtdPeer -> Prop
  | some p =>
      h = { child := p.child, output := some p.child.stdoutFd } ∧ 0 ≤ p.child.stdoutFd ∧
        p.threadStarted = true
  | none => Gone h

def inOrder (h : PeerFds) : Effect -> Bool
  | .sys (.write fd _ _) => 0 ≤ fd && h.child.stdinFd = fd
  | .sys (.close fd) => 0 ≤ fd &&
      (h.child.stdinFd = fd || h.child.stdoutFd = fd && h.output = none || h.child.stderrFd = fd)
  | .outputStart => 0 ≤ h.child.stdoutFd && h.output = none
  | _ => true

def orderStep (h : PeerFds) (e : Effect) : Option PeerFds :=
  if inOrder h e then some (h.after e) else none

theorem closeStdin_inOrder (child : WtdChild) (output : Option Int) :
    Execution.exec orderStep { child, output } ((closeFd child.stdinFd).2.map .sys) =
      some { child := { child with stdinFd := (closeFd child.stdinFd).1 }, output } := by
  by_cases isOpen : child.stdinFd ≥ 0
  · simp [closeFd, isOpen, Execution.exec, orderStep, inOrder, PeerFds.after, dropFd]
  · simp [closeFd, isOpen]

theorem closeStdout_inOrder (child : WtdChild) (stdin : child.stdinFd < 0) :
    Execution.exec orderStep { child, output := none } ((closeFd child.stdoutFd).2.map .sys) =
      some { child := { child with stdoutFd := (closeFd child.stdoutFd).1 }, output := none } := by
  by_cases isOpen : child.stdoutFd ≥ 0
  · have apart : child.stdinFd ≠ child.stdoutFd := by omega
    simp [closeFd, isOpen, Execution.exec, orderStep, inOrder, PeerFds.after, dropFd, apart]
  · simp [closeFd, isOpen]

theorem closeStderr_inOrder (child : WtdChild) (stdin : child.stdinFd < 0)
    (stdout : child.stdoutFd < 0) :
    Execution.exec orderStep { child, output := none } ((closeFd child.stderrFd).2.map .sys) =
      some { child := { child with stderrFd := (closeFd child.stderrFd).1 }, output := none } := by
  by_cases isOpen : child.stderrFd ≥ 0
  · have first : child.stdinFd ≠ child.stderrFd := by omega
    have second : child.stdoutFd ≠ child.stderrFd := by omega
    simp [closeFd, isOpen, Execution.exec, orderStep, inOrder, PeerFds.after, dropFd, first, second]
  · simp [closeFd, isOpen]

theorem process_inOrder (h : PeerFds) (calls : List SysCall)
    (process : calls.all SysCall.ofProcess = true) :
    Execution.exec orderStep h (calls.map .sys) = some h := by
  induction calls with
  | nil => rfl
  | cons call rest ih =>
    simp only [List.all_cons, Bool.and_eq_true] at process
    cases call with
    | write _ _ _ | close _ => simp [SysCall.ofProcess] at process
    | _ => exact ih process.2

theorem terminate_inOrder (child : WtdChild) (waits : Nat -> WaitOutcome) :
    ∃ goal, Execution.exec orderStep { child, output := none }
      ((wtdChildTerminate child waits).2.map .sys) = some goal ∧ Gone goal := by
  obtain ⟨pid, ended, process, eq⟩ := wtdChildTerminate_eq child waits
  have stdin := closeFd_closed child.stdinFd
  have stdout := closeFd_closed child.stdoutFd
  refine ⟨{ child := { child with
    stdinFd := (closeFd child.stdinFd).1
    stdoutFd := (closeFd child.stdoutFd).1
    stderrFd := (closeFd child.stderrFd).1 }, output := none }, ?_, ?_⟩
  · simp only [eq, List.map_append, Execution.exec_append]
    exact ⟨_, ⟨_, ⟨_, closeStdin_inOrder child none, process_inOrder _ ended process⟩,
      closeStdout_inOrder _ stdin⟩, closeStderr_inOrder _ stdin stdout⟩
  · refine ⟨fun role => ?_, rfl⟩
    cases role <;> apply closeFd_closed

theorem remove_inOrder (p : WtdPeer) (waits : Nat -> WaitOutcome)
    (started : p.threadStarted = true) :
    ∃ goal, Execution.exec orderStep { child := p.child, output := some p.child.stdoutFd }
      (peerRemove p waits) = some goal ∧ Gone goal := by
  obtain ⟨goal, run, gone⟩ := terminate_inOrder p.child waits
  refine ⟨goal, ?_, gone⟩
  rw [peerRemove, started]
  exact run

theorem connect_inOrder (stream : Nat) (env : ConnectEnv) (spawned : Spawned)
    (malloc : env.malloc = true) (spawn : env.spawn = some spawned) :
    ∃ goal, Execution.exec orderStep { child := spawned.child, output := none }
        (wtSessionCb none (.connect stream env)).2.1 = some goal ∧
      Settled goal (wtSessionCb none (.connect stream env)).1 := by
  have positive : 0 ≤ spawned.child.stdoutFd := Int.natCast_nonneg spawned.stdout
  cases reading : env.outputStart with
  | false =>
    obtain ⟨goal, run, gone⟩ := terminate_inOrder spawned.child env.waits
    refine ⟨goal, ?_, ?_⟩
    · simp only [wtSessionCb, peerCreate, malloc, spawn, reading]
      have ended : Execution.exec orderStep { child := spawned.child, output := none }
          ((wtdChildTerminate spawned.child env.waits).2.map .sys ++ [.sessionDestroy]) =
          some goal := (Execution.exec_append orderStep _ _ _ _).mpr ⟨goal, run, rfl⟩
      exact ended
    · simpa [wtSessionCb, peerCreate, malloc, spawn, reading, Settled] using gone
  | true =>
    have begun : Execution.exec orderStep { child := spawned.child, output := none }
        [.spawn spawned.child, .outputStart] =
        some { child := spawned.child, output := some spawned.child.stdoutFd } := by
      simp [Execution.exec, orderStep, inOrder, PeerFds.after, positive]
    cases declared : env.declarePrefix with
    | true =>
      refine ⟨{ child := spawned.child, output := some spawned.child.stdoutFd }, ?_, ?_⟩
      · simpa [wtSessionCb, peerCreate, malloc, spawn, reading, declared] using begun
      · simp [wtSessionCb, peerCreate, malloc, spawn, reading, declared, Settled, freshPeer,
          positive]
    | false =>
      obtain ⟨goal, run, gone⟩ := remove_inOrder
        { freshPeer spawned with controlStreamId := stream } env.waits rfl
      refine ⟨goal, ?_, ?_⟩
      · have both := (Execution.exec_append orderStep _ _ _ _).mpr ⟨_, begun, run⟩
        simpa [wtSessionCb, peerCreate, malloc, spawn, reading, declared] using both
      · simpa [wtSessionCb, peerCreate, malloc, spawn, reading, declared, Settled] using gone

def Tracked (p q : WtdPeer) (effects : List Effect) : Prop :=
  q.child.stdoutFd = p.child.stdoutFd ∧ q.threadStarted = p.threadStarted ∧
    ∀ output, Execution.exec orderStep { child := p.child, output } effects =
      some { child := q.child, output }

theorem tracked_trans (p q r : WtdPeer) (first second : List Effect)
    (before : Tracked p q first) (after : Tracked q r second) :
    Tracked p r (first ++ second) :=
  ⟨after.1.trans before.1, after.2.1.trans before.2.1, fun output =>
    (Execution.exec_append orderStep _ _ _ _).mpr ⟨_, before.2.2 output, after.2.2 output⟩⟩

theorem childCall_tracked (p : WtdPeer) (call : Session.ChildCall) :
    Tracked p (childCall p call).1 (childCall p call).2 := by
  cases call with
  | write data ret =>
    refine ⟨rfl, rfl, fun output => ?_⟩
    by_cases closed : p.child.stdinFd < 0
    · simp [childCall, peerChildWrite, closed]
    · simp [childCall, peerChildWrite, closed, Execution.exec, orderStep, inOrder, PeerFds.after,
        Int.not_lt.mp closed]
  | closeInput =>
    have made := closeStdin_inOrder p.child
    by_cases isOpen : p.child.stdinFd ≥ 0
    · refine ⟨?_, ?_, fun output => ?_⟩
      · simp [childCall, peerChildClose, isOpen]
      · simp [childCall, peerChildClose, isOpen]
      · simpa [childCall, peerChildClose, closeFd, isOpen] using made output
    · exact ⟨by simp [childCall, peerChildClose, isOpen],
        by simp [childCall, peerChildClose, isOpen],
        fun output => by simp [childCall, peerChildClose, isOpen]⟩

theorem transportCall_tracked (p : WtdPeer) (call : Session.TransportCall) :
    Tracked p (transportCall p call).1 (transportCall p call).2 := by
  cases call with
  | sendStream data ret =>
    refine ⟨rfl, rfl, fun output => ?_⟩
    by_cases unbound : p.dataStreamId = uint64Max
    · simp [transportCall, peerSendStream, unbound]
    · simp [transportCall, peerSendStream, unbound, Execution.exec, orderStep, inOrder,
        PeerFds.after]
  | sendDatagram data ret =>
    by_cases queued : ret = 0
    · refine ⟨?_, ?_, fun output => ?_⟩ <;>
        simp [transportCall, peerSendDatagram, queued, Execution.exec, orderStep, inOrder,
          PeerFds.after]
    · refine ⟨?_, ?_, fun output => ?_⟩ <;> simp [transportCall, peerSendDatagram, queued]
  | sendFin ret =>
    refine ⟨rfl, rfl, fun output => ?_⟩
    by_cases unbound : p.dataStreamId = uint64Max
    · simp [transportCall, peerSendFin, unbound]
    · simp [transportCall, peerSendFin, unbound, Execution.exec, orderStep, inOrder,
        PeerFds.after]

theorem tracked_refl (p : WtdPeer) : Tracked p p [] :=
  ⟨rfl, rfl, fun _ => rfl⟩

theorem deliver_tracked (p : WtdPeer) (result : Session.WtdSession × List Session.ChildCall) :
    Tracked p (peerDeliver p result).1 (peerDeliver p result).2 :=
  carryOut_rule childCall Tracked tracked_refl tracked_trans childCall_tracked
    { p with session := result.1 } result.2

theorem pump_tracked (p : WtdPeer) (mallocs : Nat -> Bool) :
    Tracked p (peerPump p mallocs).1 (peerPump p mallocs).2 :=
  carryOut_rule transportCall Tracked tracked_refl tracked_trans transportCall_tracked
    { p with session := (Session.wtdSessionPump p.session (transportPort p mallocs)).1 } _

theorem bindDataStream_tracked (p : WtdPeer) (stream : Nat) :
    Tracked p (bindDataStream p stream) [] := by
  by_cases unbound : p.dataStreamId = uint64Max
  · refine ⟨?_, ?_, fun output => ?_⟩ <;> simp [bindDataStream, unbound]
  · rw [bindDataStream, if_neg unbound]
    exact tracked_refl p

theorem postStream_tracked (p : WtdPeer) (stream : Nat) (bytes : List UInt8)
    (env : Session.DeliverEnv) (fin : Bool) :
    Tracked p (postStream p stream bytes env fin).1 (postStream p stream bytes env fin).2 := by
  by_cases control : stream = p.controlStreamId
  · simpa [postStream, control] using tracked_refl p
  · have bound := bindDataStream_tracked p stream
    have delivered : Tracked (bindDataStream p stream)
        (deliverBytes (bindDataStream p stream) bytes env).1
        (deliverBytes (bindDataStream p stream) bytes env).2 := by
      by_cases some : bytes.length > 0
      · simpa [deliverBytes, some] using deliver_tracked _ _
      · simpa [deliverBytes, some] using tracked_refl _
    have both := tracked_trans _ _ _ _ _ bound delivered
    cases fin with
    | false => simpa [postStream, control] using both
    | true =>
      have finished := tracked_trans _ _ _ _ _ both (deliver_tracked _
        (Session.wtdSessionDeliverFin
          (deliverBytes (bindDataStream p stream) bytes env).1.session))
      simpa [postStream, control] using finished

theorem provideDatagram_tracked (p : WtdPeer) (granted : Bool) :
    Tracked p (provideDatagram p granted).1 (provideDatagram p granted).2 := by
  cases queued : p.dgrams with
  | nil => simpa [provideDatagram, queued] using tracked_refl p
  | cons d rest =>
    cases rest with
    | nil =>
      refine ⟨?_, ?_, fun output => ?_⟩ <;>
        simp [provideDatagram, queued, Execution.exec, orderStep, inOrder, PeerFds.after]
    | cons next rest =>
      refine ⟨?_, ?_, fun output => ?_⟩ <;>
        simp [provideDatagram, queued, Execution.exec, orderStep, inOrder, PeerFds.after]

theorem tracked_settled (p q : WtdPeer) (effects : List Effect) (h : PeerFds)
    (settled : Settled h (some p)) (tracked : Tracked p q effects) :
    ∃ goal, Execution.exec orderStep h effects = some goal ∧ Settled goal (some q) := by
  obtain ⟨rfl, positive, started⟩ := settled
  obtain ⟨same, thread, run⟩ := tracked
  refine ⟨_, run _, ?_, ?_, ?_⟩
  · rw [same]
  · rw [same]
    exact positive
  · rw [thread]
    exact started

theorem callback_inOrder (p : WtdPeer) (event : Event) (other : connects event = false)
    (h : PeerFds) (settled : Settled h (some p)) :
    ∃ goal, Execution.exec orderStep h (wtSessionCb (some p) event).2.1 = some goal ∧
      Settled goal (wtSessionCb (some p) event).1 := by
  cases event with
  | connect stream env => simp [connects] at other
  | postData stream bytes env =>
    exact tracked_settled p _ _ h settled (postStream_tracked p stream bytes env false)
  | postFin stream bytes env =>
    exact tracked_settled p _ _ h settled (postStream_tracked p stream bytes env true)
  | postDatagram bytes env =>
    by_cases some : bytes.length > 0
    · have made := tracked_settled p _ _ h settled (deliver_tracked p
        (Session.wtdSessionDeliverDatagram p.session bytes (childPort p env)))
      simpa [wtSessionCb, some] using made
    · simpa [wtSessionCb, some] using tracked_settled p p [] h settled (tracked_refl p)
  | provideData mallocs => exact tracked_settled p _ _ h settled (pump_tracked p mallocs)
  | provideDatagram granted =>
    exact tracked_settled p _ _ h settled (provideDatagram_tracked p granted)
  | deregister waits =>
    obtain ⟨rfl, -, started⟩ := settled
    exact remove_inOrder p waits started
  | unhandled => exact tracked_settled p p [] h settled (tracked_refl p)

structure Sound (s : Daemon) : Prop where
  proper : s.misuse = false
  ledger : Ledger s.table fun peer => (s.records peer).child
  reading : ∀ peer fd, s.readers peer = some fd -> (s.records peer).output = some fd
  copied : ∀ peer fd, (s.records peer).output = some fd ->
    (s.records peer).child.stdoutFd = fd ∧ 0 ≤ fd
  unspawned : ∀ peer, s.spawned ≤ peer -> Gone (s.records peer)
  idle : ∀ peer, (∀ b, s.busy = some b -> b.peer ≠ peer) ->
    Settled (s.records peer) (s.peers peer)
  busy : ∀ b, s.busy = some b -> b.peer < s.spawned ∧
    ∃ goal, Execution.exec orderStep (s.records b.peer) b.remaining = some goal ∧
      Settled goal b.final

theorem gone_noChild : Gone { child := noChild, output := none } :=
  ⟨fun role => by cases role <;> decide, rfl⟩

theorem sound_start (files : Table Nat) : Sound (start files) where
  proper := rfl
  ledger := by
    constructor
    · intro fd entry peer role side opened pipeEnd
      obtain ⟨before, -, rfl⟩ := Option.map_eq_some_iff.mp opened
      simp at pipeEnd
    · intro peer role fd field
      have closed : role.fd noChild = -1 := by cases role <;> rfl
      have field : role.fd noChild = fd := field
      omega
  reading peer fd running := by simp [start] at running
  copied peer fd kept := by simp [start] at kept
  unspawned _ _ := gone_noChild
  idle _ _ := gone_noChild
  busy b handled := by simp [start] at handled

theorem Sound.owns {s : Daemon} (sound : Sound s) (peer : Nat) (role : Role) (fd : Int)
    (positive : 0 ≤ fd) (field : role.fd (s.records peer).child = fd) :
    owns s peer role fd = true := by
  have opened := sound.ledger.owns peer role fd.toNat (by simpa [positive] using field)
  simp [DescriptorOwnership.owns, positive, field, opened]

theorem children_update (records : Nat -> PeerFds) (peer : Nat) (h : PeerFds) :
    (fun other => (Function.update records peer h other).child) =
      Function.update (fun other => (records other).child) peer h.child := by
  funext other
  by_cases same : other = peer
  · subst same
    simp
  · simp [same]

theorem spawnedOf_cases (limit spawn : Nat) (env : SpawnEnv) (table : Table File)
    (positive : ∀ pid, env.fork = .ok pid -> 0 < pid) :
    (spawnedOf (wtdChildSpawn limit spawn env table) = none ∧
      (wtdChildSpawn limit spawn env table).child = noChild) ∨
    ∃ spawned, spawnedOf (wtdChildSpawn limit spawn env table) = some spawned ∧
      (wtdChildSpawn limit spawn env table).child = spawned.child := by
  rcases wtdChildSpawn_cases limit spawn env table with
    ⟨errno, failed⟩ | ⟨input, output, error, pid, -, -, forked, succeeded⟩
  · rw [failed]
    exact .inl ⟨by simp [spawnedOf, spawnFailed, noChild], rfl⟩
  · rw [succeeded]
    have running := positive pid forked
    exact .inr ⟨{ pid, stdin := input.writeFd, stdout := output.readFd, stderr := error.readFd
                  running }, by simp [spawnedOf, running], rfl⟩

theorem connect_sound (limit stream : Nat) (calls : ConnectCalls) (s t : Daemon)
    (sound : Sound s) (taken : daemonStep limit s (.connect stream calls) = some t) :
    Sound t := by
  cases free : s.busy with
  | some b => simp [daemonStep, free] at taken
  | none =>
    cases malloc : calls.malloc with
    | false =>
      obtain rfl : s = t := by simpa [daemonStep, free, malloc] using taken
      exact sound
    | true =>
      have gone := sound.unspawned s.spawned (Nat.le_refl _)
      simp only [daemonStep, free, malloc, Option.isSome_none, Bool.false_eq_true, if_false,
        Bool.not_true, Option.some.injEq] at taken
      subst taken
      constructor
      · exact sound.proper
      · have opened := sound.ledger.spawn limit s.spawned calls.spawn gone.1
        simpa only [children_update] using opened
      · intro peer fd running
        have before := sound.reading peer fd running
        have other : peer ≠ s.spawned := by
          rintro rfl
          simp [gone.2] at before
        simpa [other] using before
      · intro peer fd
        by_cases same : peer = s.spawned
        · subst same
          simp
        · simpa [same] using sound.copied peer fd
      · intro peer later
        have bound : s.spawned + 1 ≤ peer := later
        simpa [show peer ≠ s.spawned by omega] using sound.unspawned peer (by omega)
      · intro peer other
        have apart : s.spawned ≠ peer := other _ rfl
        simpa [apart.symm] using sound.idle peer (by simp [free])
      · intro b handled
        obtain rfl := Option.some.inj handled
        refine ⟨Nat.lt_succ_self _, ?_⟩
        simp only [Function.update_self]
        rcases spawnedOf_cases limit s.spawned calls.spawn s.table calls.positive with
          ⟨failed, child⟩ | ⟨spawned, succeeded, child⟩
        · rw [failed, child]
          exact ⟨_, rfl, gone_noChild⟩
        · rw [succeeded, child]
          exact connect_inOrder stream _ spawned rfl rfl

theorem callback_sound (limit peer : Nat) (event : Event) (s t : Daemon) (sound : Sound s)
    (taken : daemonStep limit s (.callback peer event) = some t) : Sound t := by
  cases free : s.busy with
  | some b => simp [daemonStep, free] at taken
  | none =>
    cases other : connects event with
    | true => simp [daemonStep, other] at taken
    | false =>
      simp only [daemonStep, free, other, Option.isSome_none, Bool.or_self, Bool.false_eq_true,
        if_false] at taken
      obtain ⟨p, live, rfl⟩ := Option.map_eq_some_iff.mp taken
      have settled := sound.idle peer (by simp [free])
      rw [live] at settled
      refine ⟨sound.proper, sound.ledger, sound.reading, sound.copied, sound.unspawned, ?_, ?_⟩
      · exact fun quiet _ => sound.idle quiet (by simp [free])
      · intro b handled
        obtain rfl := Option.some.inj handled
        refine ⟨?_, callback_inOrder p event other _ settled⟩
        by_contra late
        have gone := sound.unspawned peer (Nat.not_lt.mp late)
        rw [settled.1] at gone
        simpa using gone.2

theorem inOrder_close (h : PeerFds) (fd : Int) (ordered : inOrder h (.sys (.close fd)) = true) :
    0 ≤ fd ∧ ∃ role : Role, role.fd h.child = fd ∧ (role = .stdout -> h.output = none) := by
  simp only [inOrder, Bool.and_eq_true, Bool.or_eq_true, decide_eq_true_eq] at ordered
  obtain ⟨positive, (stdin | ⟨stdout, joined⟩) | stderr⟩ := ordered
  · exact ⟨positive, .stdin, stdin, by simp⟩
  · exact ⟨positive, .stdout, stdout, fun _ => joined⟩
  · exact ⟨positive, .stderr, stderr, by simp⟩

theorem Sound.ownsNamed {s : Daemon} (sound : Sound s) (peer : Nat) (e : Effect)
    (ordered : inOrder (s.records peer) e = true) : ownsNamed s peer e = true := by
  cases e with
  | sys call =>
    cases call with
    | write fd data ret =>
      simp only [inOrder, Bool.and_eq_true, decide_eq_true_eq] at ordered
      exact sound.owns peer .stdin fd ordered.1 ordered.2
    | close fd =>
      obtain ⟨positive, role, field, -⟩ := inOrder_close _ fd ordered
      have owned := sound.owns peer role fd positive field
      cases role <;> simp [DescriptorOwnership.ownsNamed, owned]
    | _ => rfl
  | _ => rfl

theorem perform_records (s : Daemon) (b : Busy) (e : Effect) (rest : List Effect) (other : Nat) :
    (s.perform b e rest).records other =
      if other = b.peer then (s.records b.peer).after e else s.records other :=
  Function.update_apply ..

def tableAfter (table : Table File) : Effect -> Table File
  | .sys (.close fd) => close table fd.toNat
  | _ => table

theorem Ledger.effect {table : Table File} {records : Nat -> PeerFds}
    (ledger : Ledger table fun other => (records other).child) (peer : Nat) (e : Effect)
    (ordered : inOrder (records peer) e = true) :
    Ledger (tableAfter table e)
      fun other => (Function.update records peer ((records peer).after e) other).child := by
  have unchanged : ((records peer).after e).child = (records peer).child ->
      Ledger table
        fun other => (Function.update records peer ((records peer).after e) other).child := by
    intro same
    have children := children_update records peer ((records peer).after e)
    rw [same, Function.update_eq_self] at children
    exact children ▸ ledger
  cases e with
  | sys call =>
    cases call with
    | close fd =>
      obtain ⟨positive, role, field, -⟩ := inOrder_close _ fd ordered
      have closed := ledger.close peer fd.toNat role (by simpa [positive] using field)
      simp only [Int.toNat_of_nonneg positive] at closed
      simpa only [tableAfter, children_update, PeerFds.after] using closed
    | _ => exact unchanged rfl
  | outputStop joined => cases joined <;> exact unchanged rfl
  | _ => exact unchanged rfl

theorem Sound.perform_ledger {s : Daemon} (sound : Sound s) (b : Busy) (e : Effect)
    (rest : List Effect) (ordered : inOrder (s.records b.peer) e = true) :
    Ledger (s.perform b e rest).table
      fun other => ((s.perform b e rest).records other).child :=
  sound.ledger.effect b.peer e ordered

theorem Sound.perform_copied {s : Daemon} (sound : Sound s) (b : Busy) (e : Effect)
    (ordered : inOrder (s.records b.peer) e = true) (fd : Int)
    (kept : ((s.records b.peer).after e).output = some fd) :
    ((s.records b.peer).after e).child.stdoutFd = fd ∧ 0 ≤ fd := by
  have before := sound.copied b.peer fd
  cases e with
  | sys call =>
    cases call with
    | close closed =>
      obtain ⟨positive, role, field, joined⟩ := inOrder_close _ closed ordered
      have other : role ≠ .stdout := by
        intro same
        have unread := joined same
        simp [PeerFds.after, unread] at kept
      have dropped := fd_dropFd (s.records b.peer).child closed role .stdout field
        fun second again => (sound.ledger.unique closed.toNat b.peer b.peer role second
          (by simpa [positive] using field) (by simpa [positive] using again)).2
      rw [if_neg other.symm] at dropped
      exact ⟨dropped.trans (before kept).1, (before kept).2⟩
    | _ => exact before kept
  | outputStart =>
    simp only [inOrder, Bool.and_eq_true, decide_eq_true_eq] at ordered
    obtain rfl : (s.records b.peer).child.stdoutFd = fd := by simpa [PeerFds.after] using kept
    exact ⟨rfl, ordered.1⟩
  | outputStop joined =>
    cases joined with
    | true => simp [PeerFds.after] at kept
    | false => exact before kept
  | _ => exact before kept

theorem Sound.perform_reading {s : Daemon} (sound : Sound s) (b : Busy) (e : Effect)
    (rest : List Effect) (joined : joins e = true -> s.readers b.peer = none) (peer : Nat)
    (fd : Int) (running : (s.perform b e rest).readers peer = some fd) :
    ((s.perform b e rest).records peer).output = some fd := by
  rw [perform_records]
  by_cases same : peer = b.peer
  · subst same
    rw [if_pos rfl]
    have before := sound.reading b.peer fd
    cases e with
    | sys call => cases call <;> exact before running
    | outputStart => simpa [Daemon.perform, PeerFds.after] using running
    | outputStop waited =>
      cases waited with
      | true =>
        have gone := joined rfl
        simp [Daemon.perform, gone] at running
      | false => exact before running
    | _ => exact before running
  · rw [if_neg same]
    apply sound.reading
    cases e with
    | outputStart => simpa [Daemon.perform, same] using running
    | _ => exact running

theorem Sound.perform {s : Daemon} (sound : Sound s) (b : Busy) (handled : s.busy = some b)
    (e : Effect) (rest : List Effect) (remaining : b.remaining = e :: rest)
    (joined : joins e = true -> s.readers b.peer = none) : Sound (s.perform b e rest) := by
  obtain ⟨bound, goal, run, settled⟩ := sound.busy b handled
  rw [remaining, Execution.exec_cons] at run
  obtain ⟨next, taken, later⟩ := run
  obtain ⟨ordered, rfl⟩ : inOrder (s.records b.peer) e = true ∧ (s.records b.peer).after e = next :=
    by simpa [orderStep] using taken
  constructor
  · have owned := sound.ownsNamed b.peer e ordered
    simp [Daemon.perform, sound.proper, owned]
  · exact sound.perform_ledger b e rest ordered
  · exact sound.perform_reading b e rest joined
  · intro peer fd kept
    rw [perform_records] at kept ⊢
    split_ifs at kept ⊢ with same
    · exact sound.perform_copied b e ordered fd kept
    · exact sound.copied peer fd kept
  · intro peer later
    have late : s.spawned ≤ peer := later
    rw [perform_records, if_neg (by omega)]
    exact sound.unspawned peer later
  · intro peer other
    have apart : b.peer ≠ peer := other { b with remaining := rest } rfl
    rw [perform_records, if_neg apart.symm]
    exact sound.idle peer (by simpa [handled] using apart)
  · intro now same
    obtain rfl := Option.some.inj same
    refine ⟨bound, goal, ?_, settled⟩
    rw [perform_records, if_pos rfl]
    exact later

theorem effect_sound (limit : Nat) (s t : Daemon) (sound : Sound s)
    (taken : daemonStep limit s .effect = some t) : Sound t := by
  cases handled : s.busy with
  | none => simp [daemonStep, handled] at taken
  | some b =>
    cases remaining : b.remaining with
    | nil =>
      obtain ⟨-, goal, run, settled⟩ := sound.busy b handled
      simp only [daemonStep, handled, remaining, Option.some.injEq] at taken
      subst taken
      obtain rfl : s.records b.peer = goal := by simpa [remaining] using run
      refine ⟨sound.proper, sound.ledger, sound.reading, sound.copied, sound.unspawned, ?_, ?_⟩
      · intro peer _
        by_cases same : peer = b.peer
        · subst same
          simpa using settled
        · simpa [same] using sound.idle peer (by simp [handled, Ne.symm same])
      · simp
    | cons e rest =>
      by_cases waiting : (joins e && (s.readers b.peer).isSome) = true
      · simp [daemonStep, handled, remaining, waiting] at taken
      · obtain rfl : s.perform b e rest = t := by
          simpa [daemonStep, handled, remaining, waiting] using taken
        apply sound.perform b handled e rest remaining
        intro joined
        simpa [joined] using waiting

theorem daemonStep_sound (limit : Nat) (s : Daemon) (act : Act) (t : Daemon) (sound : Sound s)
    (taken : daemonStep limit s act = some t) : Sound t := by
  cases act with
  | connect stream calls => exact connect_sound limit stream calls s t sound taken
  | callback peer event => exact callback_sound limit peer event s t sound taken
  | effect => exact effect_sound limit s t sound taken
  | read peer =>
    obtain ⟨fd, running, rfl⟩ := Option.map_eq_some_iff.mp taken
    have kept := sound.copied peer fd (sound.reading peer fd running)
    have owned := sound.owns peer .stdout fd kept.2 kept.1
    have proper : (s.misuse || !owns s peer .stdout fd) = false := by simp [sound.proper, owned]
    exact { sound with proper }
  | readerExit peer =>
    obtain ⟨fd, running, rfl⟩ := Option.map_eq_some_iff.mp taken
    refine { sound with reading := ?_ }
    intro other fd running
    by_cases same : other = peer
    · subst same
      simp at running
    · exact sound.reading other fd (by simpa [same] using running)

theorem Sound.owner {s : Daemon} (sound : Sound s) (free : s.busy = none) (fd : Nat)
    (entry : Entry File) (peer : Nat) (role : Role) (side : Side)
    (opened : s.table fd = some entry) (pipeEnd : entry.file = .pipeEnd peer role side) :
    ∃ p, s.peers peer = some p ∧ role.fd p.child = fd := by
  obtain ⟨-, field⟩ := sound.ledger.held fd entry peer role side opened pipeEnd
  have settled := sound.idle peer (by simp [free])
  cases live : s.peers peer with
  | none =>
    rw [live] at settled
    have negative := settled.1 role
    omega
  | some p =>
    rw [live] at settled
    rw [settled.1] at field
    exact ⟨p, rfl, field⟩

theorem descriptors_owned_by_one_peer (limit : Nat) (files : Table Nat) (acts : List Act)
    (s : Daemon) (run : Execution.exec (daemonStep limit) (start files) acts = some s) :
    s.misuse = false ∧
    (s.busy = none ->
      (∀ fd entry spawn role side, s.table fd = some entry ->
        entry.file = .pipeEnd spawn role side ->
        ∃! owner : Nat × Role, ∃ p, s.peers owner.1 = some p ∧ owner.2.fd p.child = fd) ∧
      ((∀ peer, s.peers peer = none) -> ∀ fd entry spawn role side, s.table fd = some entry ->
        entry.file ≠ .pipeEnd spawn role side)) := by
  have sound : Sound s := Execution.exec_invariant (daemonStep limit) Sound
    (daemonStep_sound limit) (start files) s acts (sound_start files) run
  refine ⟨sound.proper, fun free => ⟨?_, ?_⟩⟩
  · intro fd entry spawn role side opened pipeEnd
    have owned := sound.owner free fd entry spawn role side opened pipeEnd
    refine ⟨(spawn, role), owned, ?_⟩
    rintro ⟨other, second⟩ ⟨p, live, field⟩
    have settled := sound.idle other (by simp [free])
    rw [live] at settled
    have first := (sound.ledger.held fd entry spawn role side opened pipeEnd).2
    obtain ⟨rfl, rfl⟩ := sound.ledger.unique fd spawn other role second first
      (by rw [settled.1]; exact field)
    rfl
  · intro none fd entry spawn role side opened pipeEnd
    obtain ⟨p, live, -⟩ := sound.owner free fd entry spawn role side opened pipeEnd
    simp [none spawn] at live

def catCalls (pid : Nat) (running : 0 < pid) (outputStart : Bool) : ConnectCalls :=
  { malloc := true
    spawn := { argv := ["cat"], pipeError := fun _ => none, fork := .ok pid, exec := true }
    outputStart
    declarePrefix := true
    waits := fun _ => .reaped
    positive := by simpa using running }

-- Of two sessions the first sends its FIN and leaves; a connect fails, and the next gets the
-- numbers of the session that left.
def sessionsLeaving : List Act :=
  .connect 0 (catCalls 201 (by decide) true) :: List.replicate 3 .effect ++
    .connect 4 (catCalls 202 (by decide) true) :: List.replicate 3 .effect ++
    .callback 0 (.postFin 8 [] { malloc := true, block := fun _ => 0, ret := 0 }) ::
    .effect :: .read 0 :: .effect ::
    .callback 0 (.deregister fun _ => .reaped) :: .readerExit 0 :: List.replicate 7 .effect ++
    .connect 12 (catCalls 203 (by decide) false) :: List.replicate 8 .effect ++
    .connect 16 (catCalls 204 (by decide) true) :: List.replicate 3 .effect

theorem descriptors_owned_after_leaving :
    ∃ s, Execution.exec (daemonStep 64) (start stdio) sessionsLeaving = some s ∧
      s.busy = none ∧ s.misuse = false ∧
      (s.peers 3).map (fun p => p.child.stdinFd) = some 4 ∧
      ∃! owner : Nat × Role, ∃ p, s.peers owner.1 = some p ∧ owner.2.fd p.child = 4 := by
  have ran : (Execution.exec (daemonStep 64) (start stdio) sessionsLeaving).map (fun s =>
      (s.busy.isNone, (s.peers 3).map fun p => p.child.stdinFd, (s.table 4).map Entry.file)) =
      some (true, some 4, some (.pipeEnd 3 .stdin .writing)) := by
    decide +kernel
  obtain ⟨s, run, facts⟩ := Option.map_eq_some_iff.mp ran
  simp only [Prod.mk.injEq, Option.isNone_iff_eq_none, Option.map_eq_some_iff] at facts
  obtain ⟨free, stdin, entry, opened, pipeEnd⟩ := facts
  have proved := descriptors_owned_by_one_peer 64 stdio sessionsLeaving s run
  refine ⟨s, run, free, proved.1, by simpa using stdin, ?_⟩
  exact (proved.2 free).1 4 entry 3 .stdin .writing opened pipeEnd

end WebTransportD.DescriptorOwnership
