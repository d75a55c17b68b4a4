import WebTransportD.Adapters.ChildProcess
import WebTransportD.Core.Session

set_option autoImplicit false

namespace WebTransportD.TransportPeer

open WebTransportD.Frame Session ChildProcess

def uint64Max : Nat := 2 ^ 64 - 1

-- A `wtd_peer_t`; `dgrams` is the outbound datagram FIFO, oldest first.
structure WtdPeer where
  child : WtdChild
  session : WtdSession
  threadStarted : Bool
  controlStreamId : Nat
  dataStreamId : Nat
  dgrams : List (List UInt8)
  deriving DecidableEq, Repr

inductive Effect where
  | spawn (child : WtdChild)
  | sys (call : SysCall)
  | outputStart
  | outputStop (joined : Bool)
  | sessionDestroy
  | addToStream (stream : Nat) (data : List UInt8) (fin : Bool)
  | setDatagramReady (stream : Nat)
  | provideDatagram (data : List UInt8) (copied : Bool)
  deriving DecidableEq, Repr

def peerSendStream (p : WtdPeer) (data : List UInt8) : Int × List Effect :=
  if p.dataStreamId = uint64Max then (-1, []) else (0, [.addToStream p.dataStreamId data false])

def peerSendDatagram (p : WtdPeer) (malloc : Bool) (data : List UInt8) :
    Int × WtdPeer × List Effect :=
  if malloc then
    (0, { p with dgrams := p.dgrams ++ [data] }, [.setDatagramReady p.controlStreamId])
  else (-1, p, [])

def peerSendFin (p : WtdPeer) : Int × List Effect :=
  if p.dataStreamId = uint64Max then (-1, []) else (0, [.addToStream p.dataStreamId [] true])

-- `ret` is what write(2) returns when it is called.
def peerChildWrite (p : WtdPeer) (data : List UInt8) (ret : Int) : Int × List Effect :=
  if p.child.stdinFd < 0 then (-1, []) else (ret, [.sys (.write p.child.stdinFd data ret)])

def peerChildClose (p : WtdPeer) : WtdPeer × List Effect :=
  if p.child.stdinFd ≥ 0 then
    ({ p with child := { p.child with stdinFd := -1 } }, [.sys (.close p.child.stdinFd)])
  else (p, [])

def childCall (p : WtdPeer) : ChildCall -> WtdPeer × List Effect
  | .write data ret => (p, (peerChildWrite p data ret).2)
  | .closeInput => peerChildClose p

def transportCall (p : WtdPeer) : TransportCall -> WtdPeer × List Effect
  | .sendStream data _ => (p, (peerSendStream p data).2)
  | .sendDatagram data ret => (peerSendDatagram p (ret == 0) data).2
  | .sendFin _ => (p, (peerSendFin p).2)

def carryOut {C : Type} (call : WtdPeer -> C -> WtdPeer × List Effect) :
    WtdPeer -> List C -> WtdPeer × List Effect
  | p, [] => (p, [])
  | p, c :: rest =>
      let done := call p c
      let later := carryOut call done.1 rest
      (later.1, done.2 ++ later.2)

theorem carryOut_rule {C : Type} (call : WtdPeer -> C -> WtdPeer × List Effect)
    (related : WtdPeer -> WtdPeer -> List Effect -> Prop) (refl : ∀ p, related p p [])
    (trans : ∀ p q r first second, related p q first -> related q r second ->
      related p r (first ++ second))
    (each : ∀ p c, related p (call p c).1 (call p c).2) (p : WtdPeer) (calls : List C) :
    related p (carryOut call p calls).1 (carryOut call p calls).2 := by
  induction calls generalizing p with
  | nil => exact refl p
  | cons c rest ih => exact trans p _ _ _ _ (each p c) (ih (call p c).1)

-- The child port answers with -1 once stdin is closed, and with what write(2) says before.
def childPort (p : WtdPeer) (env : DeliverEnv) : DeliverEnv :=
  { env with ret := (peerChildWrite p [] env.ret).1 }

-- The transport port's answers during one pump; `mallocs i` is about the i-th drained frame.
def transportPort (p : WtdPeer) (mallocs : Nat -> Bool) : PumpEnv :=
  { data := fun i =>
      match p.session.outbound[i]? with
      | some f =>
          if f.flag = wtdFrameFlagReliable then (peerSendStream p f.payload).1
          else (peerSendDatagram p (mallocs i) f.payload).1
      | none => 0
    fin := (peerSendFin p).1 }

def peerDeliver (p : WtdPeer) (result : WtdSession × List ChildCall) : WtdPeer × List Effect :=
  carryOut childCall { p with session := result.1 } result.2

def peerPump (p : WtdPeer) (mallocs : Nat -> Bool) : WtdPeer × List Effect :=
  let result := wtdSessionPump p.session (transportPort p mallocs)
  carryOut transportCall { p with session := result.1 } result.2

structure Spawned where
  pid : Nat
  stdin : Nat
  stdout : Nat
  stderr : Nat
  running : 0 < pid
  deriving DecidableEq, Repr

def Spawned.child (s : Spawned) : WtdChild :=
  { pid := s.pid, stdinFd := s.stdin, stdoutFd := s.stdout, stderrFd := s.stderr }

def sampleSpawn : Spawned :=
  { pid := 9, stdin := 5, stdout := 6, stderr := 7, running := by decide }

-- What the calls of one connect answer; `spawn` is `none` when `wtd_child_spawn` fails.
structure ConnectEnv where
  malloc : Bool
  spawn : Option Spawned
  outputStart : Bool
  declarePrefix : Bool
  waits : Nat -> WaitOutcome

def freshPeer (spawned : Spawned) : WtdPeer :=
  { child := spawned.child, session := wtdSessionInit, threadStarted := true
    controlStreamId := uint64Max, dataStreamId := uint64Max, dgrams := [] }

def peerCreate (env : ConnectEnv) : Option WtdPeer × List Effect :=
  if !env.malloc then (none, [])
  else match env.spawn with
    | none => (none, [])
    | some spawned =>
        if !env.outputStart then
          (none, .spawn spawned.child ::
            (wtdChildTerminate spawned.child env.waits).2.map .sys ++ [.sessionDestroy])
        else
          (some (freshPeer spawned), [.spawn spawned.child, .outputStart])

def peerRemove (p : WtdPeer) (waits : Nat -> WaitOutcome) : List Effect :=
  -- The reader is joined first, and the child is terminated only afterwards.
  [.outputStop p.threadStarted, .sessionDestroy] ++ (wtdChildTerminate p.child waits).2.map .sys

inductive Event where
  | connect (stream : Nat) (env : ConnectEnv)
  | postData (stream : Nat) (bytes : List UInt8) (env : DeliverEnv)
  | postFin (stream : Nat) (bytes : List UInt8) (env : DeliverEnv)
  | postDatagram (bytes : List UInt8) (env : DeliverEnv)
  | provideData (mallocs : Nat -> Bool)
  | provideDatagram (granted : Bool)
  | deregister (waits : Nat -> WaitOutcome)
  | unhandled

def connects : Event -> Bool
  | .connect _ _ => true
  | _ => false

def bindDataStream (p : WtdPeer) (stream : Nat) : WtdPeer :=
  if p.dataStreamId = uint64Max then { p with dataStreamId := stream } else p

def deliverBytes (p : WtdPeer) (bytes : List UInt8) (env : DeliverEnv) : WtdPeer × List Effect :=
  if bytes.length > 0 then
    peerDeliver p (wtdSessionDeliverStream p.session bytes (childPort p env))
  else (p, [])

def postStream (p : WtdPeer) (stream : Nat) (bytes : List UInt8) (env : DeliverEnv) (fin : Bool) :
    WtdPeer × List Effect :=
  if stream = p.controlStreamId then (p, [])
  else
    let delivered := deliverBytes (bindDataStream p stream) bytes env
    if fin then
      let finished := peerDeliver delivered.1 (wtdSessionDeliverFin delivered.1.session)
      (finished.1, delivered.2 ++ finished.2)
    else delivered

def provideDatagram (p : WtdPeer) (granted : Bool) : WtdPeer × List Effect :=
  match p.dgrams with
  | [] => (p, [])
  | d :: rest =>
      ({ p with dgrams := rest },
        .provideDatagram d granted ::
          if rest.isEmpty then [] else [.setDatagramReady p.controlStreamId])

def wtSessionCb (p : Option WtdPeer) : Event -> Option WtdPeer × List Effect × Int
  | .connect stream env =>
      match peerCreate env with
      | (none, effects) => (p, effects, -1)
      | (some created, effects) =>
          let created := { created with controlStreamId := stream }
          if env.declarePrefix then (some created, effects, 0)
          else (p, effects ++ peerRemove created env.waits, -1)
  | event =>
      match p with
      | none => (none, [], 0)
      | some p =>
          match event with
          | .postData stream bytes env =>
              let made := postStream p stream bytes env false
              (some made.1, made.2, 0)
          | .postFin stream bytes env =>
              let made := postStream p stream bytes env true
              (some made.1, made.2, 0)
          | .postDatagram bytes env =>
              if bytes.length > 0 then
                let made := peerDeliver p
                  (wtdSessionDeliverDatagram p.session bytes (childPort p env))
                (some made.1, made.2, 0)
              else (some p, [], 0)
          | .provideData mallocs =>
              let made := peerPump p mallocs
              (some made.1, made.2, 0)
          | .provideDatagram granted =>
              let made := provideDatagram p granted
              (some made.1, made.2, 0)
          | .deregister waits => (none, peerRemove p waits, 0)
          | .connect _ _ | .unhandled => (some p, [], 0)

end WebTransportD.TransportPeer
