import WebTransportD.Core.FrameRoundTrip

set_option autoImplicit false

namespace WebTransportD.Session

open WebTransportD.Frame Memory

structure OutboundFrame where
  flag : UInt8
  payload : List UInt8
  deriving DecidableEq, Repr

structure WtdSession where
  outbound : List OutboundFrame
  outputEof : Bool
  childInputClosed : Bool
  streamFinSent : Bool
  deriving DecidableEq, Repr

def wtdSessionInit : WtdSession :=
  { outbound := [], outputEof := false, childInputClosed := false, streamFinSent := false }

inductive ChildCall where
  | write (data : List UInt8) (ret : Int)
  | closeInput
  deriving DecidableEq, Repr

-- What one delivery gets from outside: whether malloc succeeds, what the fresh block holds, and
-- what `child.write` returns if it is called.
structure DeliverEnv where
  malloc : Bool
  block : Nat -> UInt8
  ret : Int

def deliverToChild (s : WtdSession) (flag : UInt8) (data : List UInt8) (env : DeliverEnv) :
    WtdSession × List ChildCall :=
  if s.childInputClosed || data.length == 0 then
    (s, [])
  else
    let cap := sizeT (data.length + 9)
    if !env.malloc then
      (s, [])
    else
      let encoded := wtdFrameEncode flag data env.block cap 0
      if encoded.status = .ok then
        -- The return value is only logged; nothing of a short write is kept or retried.
        (s, [.write (slice encoded.out 0 encoded.outLen) env.ret])
      else
        (s, [])

def wtdSessionDeliverStream (s : WtdSession) (data : List UInt8) (env : DeliverEnv) :
    WtdSession × List ChildCall :=
  deliverToChild s wtdFrameFlagReliable data env

def wtdSessionDeliverDatagram (s : WtdSession) (data : List UInt8) (env : DeliverEnv) :
    WtdSession × List ChildCall :=
  deliverToChild s wtdFrameFlagUnreliable data env

def wtdSessionDeliverFin (s : WtdSession) : WtdSession × List ChildCall :=
  if s.childInputClosed then
    (s, [])
  else
    ({ s with childInputClosed := true }, [.closeInput])

def wtdWorkQueuePush (queue : List OutboundFrame) (f : OutboundFrame) : List OutboundFrame :=
  queue ++ [f]

def wtdWorkQueueDrain (queue : List OutboundFrame) : List OutboundFrame × List OutboundFrame :=
  (queue, [])

def wtdSessionOnOutput (s : WtdSession) (malloc : Bool) (flag : UInt8) (data : List UInt8) :
    WtdSession :=
  if malloc then
    { s with outbound := wtdWorkQueuePush s.outbound { flag, payload := data } }
  else
    s

def wtdSessionOnOutputEof (s : WtdSession) : WtdSession :=
  { s with outputEof := true }

inductive TransportCall where
  | sendStream (data : List UInt8) (ret : Int)
  | sendDatagram (data : List UInt8) (ret : Int)
  | sendFin (ret : Int)
  deriving DecidableEq, Repr

def sendFrame (f : OutboundFrame) (ret : Int) : TransportCall :=
  if f.flag = wtdFrameFlagReliable then .sendStream f.payload ret else .sendDatagram f.payload ret

-- The return values of one pump: `data i` for its i-th frame, `fin` for `send_fin`.
structure PumpEnv where
  data : Nat -> Int
  fin : Int

def flushFrames (ret : Nat -> Int) : Nat -> List OutboundFrame -> List TransportCall
  | _, [] => []
  | i, f :: rest => sendFrame f (ret i) :: flushFrames ret (i + 1) rest

def wtdSessionPump (s : WtdSession) (env : PumpEnv) : WtdSession × List TransportCall :=
  let drained := wtdWorkQueueDrain s.outbound
  let s := { s with outbound := drained.2 }
  let sent := flushFrames env.data 0 drained.1
  if s.outputEof && !s.streamFinSent then
    if env.fin = 0 then
      ({ s with streamFinSent := true }, sent ++ [.sendFin env.fin])
    else
      (s, sent ++ [.sendFin env.fin])
  else
    (s, sent)

theorem deliverToChild_session (s : WtdSession) (flag : UInt8) (data : List UInt8)
    (env : DeliverEnv) : (deliverToChild s flag data env).1 = s := by
  simp only [deliverToChild]
  split_ifs <;> rfl

theorem deliverToChild_calls (s : WtdSession) (flag : UInt8) (data : List UInt8) (env : DeliverEnv)
    (valid : KnownFlag flag) :
    (deliverToChild s flag data env).2 =
      if s.childInputClosed = false ∧ data ≠ [] ∧ data.length ≤ wtdFrameMaxPayload ∧
        env.malloc = true
      then [.write (canonicalFrame flag data) env.ret] else [] := by
  have reserved := (reserved_bits flag).mpr valid
  by_cases closed : s.childInputClosed = true
  · simp [deliverToChild, closed]
  by_cases empty : data = []
  · simp [deliverToChild, empty]
  by_cases allocated : env.malloc = true
  swap
  · simp [deliverToChild, allocated]
  by_cases small : data.length ≤ wtdFrameMaxPayload
  · have room := neededSize_cap data small
    simp [deliverToChild, closed, empty, allocated, small,
      wtdFrameEncode_ok flag data env.block _ 0 valid small room, encoded_slice]
  · have big : wtdFrameMaxPayload < data.length := by omega
    simp [deliverToChild, closed, empty, allocated, small, wtdFrameEncode, reserved, big]

end WebTransportD.Session
