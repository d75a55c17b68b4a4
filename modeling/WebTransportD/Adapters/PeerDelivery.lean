import WebTransportD.Adapters.TransportPeer
import WebTransportD.Core.SessionInput

set_option autoImplicit false

namespace WebTransportD.PeerDelivery

open WebTransportD.Frame Session SessionInput ChildProcess TransportPeer

def reachesChild (p : WtdPeer) (data : List UInt8) (env : DeliverEnv) : Bool :=
  !p.session.childInputClosed && sendable data && env.malloc && decide (0 ≤ p.child.stdinFd)

def messageEffects (p : WtdPeer) (flag : UInt8) (data : List UInt8) (env : DeliverEnv) :
    List Effect :=
  if reachesChild p data env then
    [.sys (.write p.child.stdinFd (canonicalFrame flag data) env.ret)]
  else []

theorem deliver_message (p : WtdPeer) (flag : UInt8) (data : List UInt8) (env : DeliverEnv)
    (valid : KnownFlag flag) :
    peerDeliver p (deliverToChild p.session flag data (childPort p env)) =
      (p, messageEffects p flag data env) := by
  simp only [peerDeliver, deliverToChild_session, deliverToChild_calls _ _ _ _ valid]
  split_ifs with written
  · obtain ⟨opened, filled, small, served⟩ := written
    have served : env.malloc = true := served
    by_cases fd : p.child.stdinFd < 0
    · have none : ¬ 0 ≤ p.child.stdinFd := by omega
      simp [carryOut, childCall, peerChildWrite, fd, messageEffects, reachesChild, none]
    · have some : 0 ≤ p.child.stdinFd := by omega
      simp [carryOut, childCall, peerChildWrite, childPort, fd, messageEffects, reachesChild, some,
        opened, filled, small, served, sendable]
  · have stopped : reachesChild p data env = false := by
      by_contra reached
      simp only [reachesChild, sendable, Bool.not_eq_false, Bool.and_eq_true, Bool.not_eq_true',
        decide_eq_true_eq] at reached
      exact written ⟨reached.1.1.1, reached.1.1.2.1, reached.1.1.2.2, reached.1.2⟩
    simp [carryOut, messageEffects, stopped]

def closesStdin (p : WtdPeer) : Bool :=
  !p.session.childInputClosed && decide (0 ≤ p.child.stdinFd)

def inputClosed (p : WtdPeer) : WtdPeer :=
  { p with
    session := { p.session with childInputClosed := true }
    child := { p.child with stdinFd := if closesStdin p then -1 else p.child.stdinFd } }

theorem deliver_fin (p : WtdPeer) :
    peerDeliver p (wtdSessionDeliverFin p.session) =
      (inputClosed p, if closesStdin p then [.sys (.close p.child.stdinFd)] else []) := by
  cases closed : p.session.childInputClosed with
  | true =>
    have same : { p.session with childInputClosed := true } = p.session := by
      rw [← closed]
    simp [wtdSessionDeliverFin, closed, peerDeliver, carryOut, closesStdin, inputClosed, same]
  | false =>
    by_cases fd : 0 ≤ p.child.stdinFd <;>
      simp [wtdSessionDeliverFin, closed, peerDeliver, carryOut, childCall, peerChildClose,
        closesStdin, inputClosed, fd]

theorem bind_fields (p : WtdPeer) (stream : Nat) :
    (bindDataStream p stream).session = p.session ∧ (bindDataStream p stream).child = p.child ∧
      (bindDataStream p stream).controlStreamId = p.controlStreamId := by
  unfold bindDataStream
  split_ifs <;> exact ⟨rfl, rfl, rfl⟩

theorem messageEffects_bind (p : WtdPeer) (stream : Nat) (flag : UInt8) (data : List UInt8)
    (env : DeliverEnv) :
    messageEffects (bindDataStream p stream) flag data env = messageEffects p flag data env := by
  obtain ⟨session, child, -⟩ := bind_fields p stream
  have same : reachesChild (bindDataStream p stream) data env = reachesChild p data env := by
    simp only [reachesChild, session, child]
  rw [messageEffects, same, child, messageEffects]

theorem closesStdin_bind (p : WtdPeer) (stream : Nat) :
    closesStdin (bindDataStream p stream) = closesStdin p := by
  obtain ⟨session, child, -⟩ := bind_fields p stream
  simp only [closesStdin, session, child]

theorem deliverBytes_eq (p : WtdPeer) (bytes : List UInt8) (env : DeliverEnv) :
    deliverBytes p bytes env = (p, messageEffects p wtdFrameFlagReliable bytes env) := by
  unfold deliverBytes
  split_ifs with filled
  · exact deliver_message p _ bytes env (.inl rfl)
  · have empty : bytes = [] := by simpa using filled
    simp [messageEffects, reachesChild, sendable, empty]

theorem postStream_eq (p : WtdPeer) (stream : Nat) (bytes : List UInt8) (env : DeliverEnv)
    (fin : Bool) (other : stream ≠ p.controlStreamId) :
    postStream p stream bytes env fin =
      (if fin then inputClosed (bindDataStream p stream) else bindDataStream p stream,
        messageEffects p wtdFrameFlagReliable bytes env ++
          if fin && closesStdin p then [.sys (.close p.child.stdinFd)] else []) := by
  have child := (bind_fields p stream).2.1
  have delivered := deliverBytes_eq (bindDataStream p stream) bytes env
  rw [messageEffects_bind] at delivered
  have finished := deliver_fin (bindDataStream p stream)
  rw [closesStdin_bind, child] at finished
  cases fin with
  | false => simp [postStream, other, delivered]
  | true => simp [postStream, other, delivered, finished]

end WebTransportD.PeerDelivery
