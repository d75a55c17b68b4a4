import WebTransportD.Daemon.PeerStreams

set_option autoImplicit false

namespace WebTransportD.ChildDeath

open WebTransportD.Frame Session SessionInput ChildProcess TransportPeer PeerDelivery
open PeerStreams Execution

inductive PosixSignal where
  | sigterm
  | sigint
  | sigpipe
  deriving DecidableEq, Repr

-- The default action of each of these signals is to terminate the process.
inductive Disposition where
  | default
  | handler
  deriving DecidableEq, Repr

-- The dispositions `wtd_transport_run` leaves: `on_sigterm` for two signals, and no other call.
def installed : PosixSignal -> Disposition
  | .sigterm | .sigint => .handler
  | .sigpipe => .default

structure SessionState where
  peer : Option WtdPeer
  childExited : Bool

structure Daemon where
  sessions : Nat -> SessionState
  running : Bool

inductive DaemonStep where
  | callback (i : Nat) (event : Event)
  | pump (i : Nat) (mallocs : Nat -> Bool)
  | output (i : Nat) (malloc : Bool) (flag : UInt8) (payload : List UInt8)
  | outputEof (i : Nat)
  | childExit (i : Nat)

def idleDaemon : Daemon :=
  { sessions := fun _ => { peer := none, childExited := false }, running := true }

-- The child holds the only read end of its stdin pipe, so its exit closes the last one.
def raises (childExited : Bool) : Effect -> Option PosixSignal
  | .sys (.write _ _ _) => if childExited then some .sigpipe else none
  | _ => none

def survives (childExited : Bool) (effects : List Effect) : Bool :=
  effects.all fun e =>
    match raises childExited e with
    | none => true
    | some signal => installed signal ≠ .default

def setSession (d : Daemon) (i : Nat) (s : SessionState) : Nat -> SessionState :=
  Function.update d.sessions i s

def daemonStep (d : Daemon) (a : DaemonStep) : Option Daemon :=
  if !d.running then none
  else match a with
    | .callback i event =>
        let s := d.sessions i
        -- A connect starts a session of its own, with a child that has just been spawned.
        if connects event && s.peer.isSome then none
        else
          let made := wtSessionCb s.peer event
          some { sessions := setSession d i
                   { peer := made.1, childExited := s.childExited && !connects event }
                 running := survives s.childExited made.2.1 }
    | .pump i mallocs =>
        (d.sessions i).peer.map fun p =>
          let made := peerPump p mallocs
          { sessions := setSession d i { d.sessions i with peer := some made.1 }
            running := survives (d.sessions i).childExited made.2 }
    | .output i malloc flag payload =>
        (d.sessions i).peer.map fun p =>
          { d with sessions := setSession d i { d.sessions i with
              peer := some { p with
                session := wtdSessionOnOutput p.session malloc flag payload } } }
    | .outputEof i =>
        (d.sessions i).peer.map fun p =>
          { d with sessions := setSession d i { d.sessions i with
              peer := some { p with session := wtdSessionOnOutputEof p.session } } }
    | .childExit i =>
        (d.sessions i).peer.map fun _ =>
          { d with sessions := setSession d i { d.sessions i with childExited := true } }

def isWrite : Effect -> Bool
  | .sys (.write _ _ _) => true
  | _ => false

theorem survives_eq (childExited : Bool) (effects : List Effect) :
    survives childExited effects = !(childExited && effects.any isWrite) := by
  induction effects with
  | nil => simp [survives]
  | cons e rest ih =>
    have split : survives childExited (e :: rest) =
        (survives childExited [e] && survives childExited rest) := by
      simp [survives]
    rw [split, ih]
    rcases e with _ | ⟨_ | _ | _ | _ | _⟩ | _ | _ | _ | _ | _ | _ <;> cases childExited <;>
      simp [survives, raises, installed, isWrite]

def writesToChild : Option WtdPeer -> Event -> Bool
  | some p, .postData stream bytes env | some p, .postFin stream bytes env =>
      stream != p.controlStreamId && reachesChild p bytes env
  | some p, .postDatagram bytes env => reachesChild p bytes env
  | _, _ => false

theorem messageEffects_write (p : WtdPeer) (flag : UInt8) (data : List UInt8) (env : DeliverEnv) :
    (messageEffects p flag data env).any isWrite = reachesChild p data env := by
  cases reached : reachesChild p data env <;> simp [messageEffects, reached, isWrite]

theorem postStream_write (p : WtdPeer) (stream : Nat) (bytes : List UInt8) (env : DeliverEnv)
    (fin : Bool) :
    (postStream p stream bytes env fin).2.any isWrite =
      (stream != p.controlStreamId && reachesChild p bytes env) := by
  by_cases control : stream = p.controlStreamId
  · simp [postStream, control]
  · rw [postStream_eq p stream bytes env fin control, List.any_append, messageEffects_write]
    cases closing : fin && closesStdin p <;> simp [control, isWrite]

theorem transportCall_write (p : WtdPeer) (calls : List TransportCall) :
    (carryOut transportCall p calls).2.any isWrite = false := by
  apply carryOut_rule transportCall (fun _ _ effects => effects.any isWrite = false)
  · exact fun _ => rfl
  · intro p q r first second here later
    rw [List.any_append, here, later, Bool.or_false]
  · intro p c
    cases c <;> simp only [transportCall, peerSendStream, peerSendDatagram, peerSendFin] <;>
      split_ifs <;> rfl

theorem ofProcess_write (calls : List SysCall) (ended : calls.all SysCall.ofProcess = true) :
    (calls.map Effect.sys).any isWrite = false := by
  simp only [List.all_eq_true] at ended
  simp only [List.any_map, List.any_eq_false]
  intro call member
  have process := ended call member
  cases call <;> simp_all [SysCall.ofProcess, isWrite]

theorem closeFd_write (fd : Int) : ((closeFd fd).2.map Effect.sys).any isWrite = false := by
  unfold closeFd
  split_ifs <;> rfl

theorem terminate_write (child : WtdChild) (waits : Nat -> WaitOutcome) :
    ((wtdChildTerminate child waits).2.map Effect.sys).any isWrite = false := by
  obtain ⟨pid, ended, process, eq⟩ := wtdChildTerminate_eq child waits
  simp only [eq, List.map_append, List.any_append, closeFd_write, ofProcess_write ended process,
    Bool.or_false]

theorem peerRemove_write (p : WtdPeer) (waits : Nat -> WaitOutcome) :
    (peerRemove p waits).any isWrite = false := by
  rw [peerRemove, List.any_append, terminate_write]
  rfl

theorem peerCreate_write (env : ConnectEnv) : (peerCreate env).2.any isWrite = false := by
  rcases env with ⟨_ | _, _ | spawned, _ | _, declared, waits⟩
  case true.some.false =>
    change (_ :: _ ++ _).any isWrite = false
    rw [List.any_append, List.any_cons, terminate_write]
    rfl
  all_goals rfl

theorem callback_write (p : Option WtdPeer) (event : Event) :
    (wtSessionCb p event).2.1.any isWrite = writesToChild p event := by
  cases event with
  | connect stream env =>
    have silent := peerCreate_write env
    have none : writesToChild p (.connect stream env) = false := by cases p <;> rfl
    rw [none]
    rcases made : peerCreate env with ⟨_ | created, effects⟩
    · simpa [wtSessionCb, made] using silent
    · rw [made] at silent
      cases declared : env.declarePrefix with
      | true => simpa [wtSessionCb, made, declared] using silent
      | false =>
        have removed := peerRemove_write { created with controlStreamId := stream } env.waits
        simp only [wtSessionCb, made, declared, Bool.false_eq_true, if_false, List.any_append,
          silent, removed, Bool.or_false]
  | postData stream bytes env =>
    cases p with
    | none => rfl
    | some p => exact postStream_write p stream bytes env false
  | postFin stream bytes env =>
    cases p with
    | none => rfl
    | some p => exact postStream_write p stream bytes env true
  | postDatagram bytes env =>
    cases p with
    | none => rfl
    | some p =>
      have delivered := deliver_message p wtdFrameFlagUnreliable bytes env (.inr rfl)
      by_cases filled : bytes.length > 0
      · have written := messageEffects_write p wtdFrameFlagUnreliable bytes env
        simp only [wtSessionCb, filled, if_true, wtdSessionDeliverDatagram, delivered, written,
          writesToChild]
      · have empty : bytes = [] := by simpa using filled
        simp [wtSessionCb, writesToChild, reachesChild, sendable, empty]
  | provideData mallocs =>
    cases p with
    | none => rfl
    | some p => exact transportCall_write _ _
  | provideDatagram granted =>
    cases p with
    | none => rfl
    | some p =>
      rcases queue : p.dgrams with _ | ⟨d, _ | ⟨e, rest⟩⟩ <;>
        simp [wtSessionCb, provideDatagram, queue, isWrite, writesToChild]
  | deregister waits =>
    cases p with
    | none => rfl
    | some p => exact peerRemove_write p waits
  | unhandled => cases p <;> rfl

def SparesDeadChild (d : Daemon) : DaemonStep -> Prop
  | .callback i event =>
      (d.sessions i).childExited = true -> writesToChild (d.sessions i).peer event = false
  | _ => True

theorem running_iff (d : Daemon) (a : DaemonStep) (next : Daemon)
    (taken : daemonStep d a = some next) : next.running = true ↔ SparesDeadChild d a := by
  unfold daemonStep at taken
  split_ifs at taken with stopped
  have running : d.running = true := by simpa using stopped
  cases a with
  | callback i event =>
    dsimp only at taken
    split_ifs at taken
    obtain rfl : _ = next := by simpa using taken
    dsimp only
    rw [survives_eq, callback_write]
    cases exited : (d.sessions i).childExited <;> simp [SparesDeadChild, exited]
  | pump i mallocs =>
    obtain ⟨p, live, rfl⟩ := Option.map_eq_some_iff.mp taken
    have silent : (peerPump p mallocs).2.any isWrite = false := transportCall_write _ _
    simp [survives_eq, silent, SparesDeadChild]
  | output i malloc flag payload =>
    obtain ⟨p, live, rfl⟩ := Option.map_eq_some_iff.mp taken
    simp [running, SparesDeadChild]
  | outputEof i =>
    obtain ⟨p, live, rfl⟩ := Option.map_eq_some_iff.mp taken
    simp [running, SparesDeadChild]
  | childExit i =>
    obtain ⟨p, live, rfl⟩ := Option.map_eq_some_iff.mp taken
    simp [running, SparesDeadChild]

theorem daemon_survives_iff (schedule : List DaemonStep) :
    (∀ first second d, schedule = first ++ second ->
      exec daemonStep idleDaemon first = some d -> d.running = true) ↔
    Meets daemonStep SparesDeadChild idleDaemon schedule := by
  apply throughout_iff_meets daemonStep SparesDeadChild (fun d => d.running = true)
    (fun d => d.running = true)
  · intro d a next _ spared taken
    exact (running_iff d a next taken).mpr spared
  · exact fun _ held => held
  · intro d a next _ taken running
    exact (running_iff d a next taken).mp running
  · rfl

def sampleConnect (stream : Nat) : Event :=
  .connect stream
    { malloc := true, spawn := some sampleSpawn, outputStart := true, declarePrefix := true
      waits := fun _ => .reaped }

-- Two sessions; the child of the first exits, and the peer of the first sends one more byte.
def dataAfterExit : List DaemonStep :=
  [.callback 0 (sampleConnect 0), .callback 1 (sampleConnect 0), .childExit 0,
    .callback 0 (.postData 4 [7] (accepting (-1)))]

theorem daemon_killed_by_data_after_exit :
    ∃ d, exec daemonStep idleDaemon dataAfterExit = some d ∧ d.running = false ∧
      (d.sessions 1).peer.isSome = true ∧ (d.sessions 1).childExited = false :=
  ⟨_, rfl, rfl, rfl, rfl⟩

end WebTransportD.ChildDeath
