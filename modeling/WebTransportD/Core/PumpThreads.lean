import WebTransportD.Core.Session
import WebTransportD.Shared.Execution

set_option autoImplicit false

namespace WebTransportD.PumpThreads

open WebTransportD.Frame Session Execution

inductive PumpPc where
  | idle
  | flushing (batch : List OutboundFrame)
  | finning
  deriving DecidableEq, Repr

-- The session with the pump's program counter; `calls` and `pushed` record the run so far.
structure Threads where
  session : WtdSession
  pump : PumpPc
  calls : List TransportCall
  pushed : List OutboundFrame
  deriving DecidableEq, Repr

inductive ThreadStep where
  | push (f : OutboundFrame)
  | setEof
  | drain
  | send (ret : Int)
  | load
  | sendFin (ret : Int)
  deriving DecidableEq, Repr

def initial : Threads :=
  { session := wtdSessionInit, pump := .idle, calls := [], pushed := [] }

def threadStep (t : Threads) : ThreadStep -> Option Threads
  | .push f =>
      -- The reader stores output_eof last and pushes nothing after it.
      if t.session.outputEof then none
      else some { t with
        session := wtdSessionOnOutput t.session true f.flag f.payload
        pushed := t.pushed ++ [f] }
  | .setEof =>
      if t.session.outputEof then none
      else some { t with session := wtdSessionOnOutputEof t.session }
  | .drain =>
      match t.pump with
      | .idle =>
          let drained := wtdWorkQueueDrain t.session.outbound
          some { t with
            session := { t.session with outbound := drained.2 }
            pump := .flushing drained.1 }
      | _ => none
  | .send ret =>
      match t.pump with
      | .flushing (f :: rest) =>
          some { t with pump := .flushing rest, calls := t.calls ++ [sendFrame f ret] }
      | _ => none
  | .load =>
      match t.pump with
      | .flushing [] =>
          if t.session.outputEof && !t.session.streamFinSent then some { t with pump := .finning }
          else some { t with pump := .idle }
      | _ => none
  | .sendFin ret =>
      match t.pump with
      | .finning =>
          some { t with
            session := if ret = 0 then { t.session with streamFinSent := true } else t.session
            pump := .idle
            calls := t.calls ++ [.sendFin ret] }
      | _ => none

theorem threadStep_cases (t : Threads) (a : ThreadStep) (u : Threads)
    (taken : threadStep t a = some u) :
    (∃ f, a = .push f ∧ t.session.outputEof = false ∧
      u = { t with session := { t.session with outbound := t.session.outbound ++ [f] }
                   pushed := t.pushed ++ [f] }) ∨
    (a = .setEof ∧ t.session.outputEof = false ∧
      u = { t with session := { t.session with outputEof := true } }) ∨
    (a = .drain ∧ t.pump = .idle ∧
      u = { t with session := { t.session with outbound := [] }
                   pump := .flushing t.session.outbound }) ∨
    (∃ ret f rest, a = .send ret ∧ t.pump = .flushing (f :: rest) ∧
      u = { t with pump := .flushing rest, calls := t.calls ++ [sendFrame f ret] }) ∨
    (a = .load ∧ t.pump = .flushing [] ∧ t.session.outputEof = true ∧
      t.session.streamFinSent = false ∧ u = { t with pump := .finning }) ∨
    (a = .load ∧ t.pump = .flushing [] ∧
      (t.session.outputEof = false ∨ t.session.streamFinSent = true) ∧
      u = { t with pump := .idle }) ∨
    (∃ ret, a = .sendFin ret ∧ t.pump = .finning ∧
      u = { t with
            session := if ret = 0 then { t.session with streamFinSent := true } else t.session
            pump := .idle
            calls := t.calls ++ [.sendFin ret] }) := by
  cases a with
  | push f =>
    simp only [threadStep, wtdSessionOnOutput, wtdWorkQueuePush] at taken
    split_ifs at taken with done
    refine .inl ⟨f, rfl, by simpa using done, ?_⟩
    simpa using taken.symm
  | setEof =>
    simp only [threadStep, wtdSessionOnOutputEof] at taken
    split_ifs at taken with done
    exact .inr (.inl ⟨rfl, by simpa using done, by simpa using taken.symm⟩)
  | drain =>
    cases pc : t.pump <;> simp [threadStep, wtdWorkQueueDrain, pc] at taken
    exact .inr (.inr (.inl ⟨rfl, rfl, taken.symm⟩))
  | send ret =>
    rcases pc : t.pump with _ | (_ | ⟨f, rest⟩) | _ <;> simp [threadStep, pc] at taken
    exact .inr (.inr (.inr (.inl ⟨ret, f, rest, rfl, rfl, taken.symm⟩)))
  | load =>
    rcases pc : t.pump with _ | (_ | ⟨f, rest⟩) | _ <;> simp [threadStep, pc] at taken
    split_ifs at taken with ready
    · exact .inr (.inr (.inr (.inr (.inl ⟨rfl, rfl, ready.1, ready.2, by simpa using taken.symm⟩))))
    · refine .inr (.inr (.inr (.inr (.inr (.inl ⟨rfl, rfl, ?_, by simpa using taken.symm⟩)))))
      cases eof : t.session.outputEof <;> simp_all
  | sendFin ret =>
    cases pc : t.pump <;> simp [threadStep, pc] at taken
    exact .inr (.inr (.inr (.inr (.inr (.inr ⟨ret, rfl, rfl, taken.symm⟩)))))

inductive Sent where
  | stream (data : List UInt8)
  | datagram (data : List UInt8)
  deriving DecidableEq, Repr

def route (f : OutboundFrame) : Sent :=
  if f.flag = wtdFrameFlagReliable then .stream f.payload else .datagram f.payload

def sentOf : TransportCall -> Option Sent
  | .sendStream data _ => some (.stream data)
  | .sendDatagram data _ => some (.datagram data)
  | .sendFin _ => none

def sentLog (calls : List TransportCall) : List Sent :=
  calls.filterMap sentOf

def PumpPc.batch : PumpPc -> List OutboundFrame
  | .flushing batch => batch
  | _ => []

theorem sentLog_frame (calls : List TransportCall) (f : OutboundFrame) (ret : Int) :
    sentLog (calls ++ [sendFrame f ret]) = sentLog calls ++ [route f] := by
  by_cases reliable : f.flag = wtdFrameFlagReliable <;>
    simp [sentLog, sendFrame, route, sentOf, reliable]

theorem sentLog_fin (calls : List TransportCall) (ret : Int) :
    sentLog (calls ++ [.sendFin ret]) = sentLog calls := by
  simp [sentLog, sentOf]

def Routed (t : Threads) : Prop :=
  ∃ sent, t.pushed = sent ++ t.pump.batch ++ t.session.outbound ∧
    sentLog t.calls = sent.map route

theorem routed_step (t : Threads) (a : ThreadStep) (u : Threads) (routed : Routed t)
    (taken : threadStep t a = some u) : Routed u := by
  obtain ⟨sent, places, logged⟩ := routed
  rcases threadStep_cases t a u taken with ⟨f, rfl, -, rfl⟩ | ⟨rfl, -, rfl⟩ | ⟨rfl, idle, rfl⟩ |
    ⟨ret, f, rest, rfl, flushing, rfl⟩ | ⟨rfl, empty, -, -, rfl⟩ | ⟨rfl, empty, -, rfl⟩ |
    ⟨ret, rfl, finning, rfl⟩
  · exact ⟨sent, by simp [places], logged⟩
  · exact ⟨sent, places, logged⟩
  · exact ⟨sent, by simpa [idle, PumpPc.batch] using places, logged⟩
  · refine ⟨sent ++ [f], by simpa [flushing, PumpPc.batch] using places, ?_⟩
    rw [sentLog_frame, logged, List.map_append, List.map_singleton]
  · exact ⟨sent, by simpa [empty, PumpPc.batch] using places, logged⟩
  · exact ⟨sent, by simpa [empty, PumpPc.batch] using places, logged⟩
  · refine ⟨sent, ?_, by rw [sentLog_fin, logged]⟩
    by_cases accepted : ret = 0 <;> simpa [finning, PumpPc.batch, accepted] using places

theorem routing_from_start (schedule : List ThreadStep) (t : Threads)
    (run : exec threadStep initial schedule = some t) : Routed t :=
  exec_invariant threadStep Routed routed_step initial t schedule ⟨[], rfl, rfl⟩ run

theorem routing_exactly_once (schedule : List ThreadStep) (t : Threads)
    (run : exec threadStep initial schedule = some t) :
    (∃ sent, t.pushed = sent ++ t.pump.batch ++ t.session.outbound ∧
      sentLog t.calls = sent.map route) ∧
    sentLog t.calls ++ t.pump.batch.map route ++ t.session.outbound.map route =
      t.pushed.map route := by
  have routed := routing_from_start schedule t run
  obtain ⟨sent, places, logged⟩ := routed
  refine ⟨⟨sent, places, logged⟩, ?_⟩
  rw [logged, places, List.map_append, List.map_append]

def pushDuringFlush : List ThreadStep :=
  [.push ⟨0, [1]⟩, .push ⟨1, [2]⟩, .drain, .push ⟨0, [3]⟩, .send 0]

theorem routing_push_during_flush :
    ∃ t, exec threadStep initial pushDuringFlush = some t ∧
      sentLog t.calls = [.stream [1]] ∧ t.pump.batch = [⟨1, [2]⟩] ∧
      t.session.outbound = [⟨0, [3]⟩] ∧
      sentLog t.calls ++ t.pump.batch.map route ++ t.session.outbound.map route =
        t.pushed.map route :=
  ⟨_, rfl, by decide, rfl, rfl, (routing_exactly_once pushDuringFlush _ rfl).2⟩

def FinLast (t : Threads) : Prop :=
  ∀ before after, t.calls = before ++ .sendFin 0 :: after ->
    sentLog before = t.pushed.map route ∧ ∀ data ret, .sendStream data ret ∉ after

def QueueEmptyAtFin (t : Threads) (a : ThreadStep) : Prop :=
  a = .sendFin 0 -> t.session.outbound = []

def FinPending (t : Threads) : Prop :=
  (t.pump = .finning -> t.session.outputEof = true ∧ t.session.streamFinSent = false) ∧
  (t.session.streamFinSent = false -> .sendFin 0 ∉ t.calls)

theorem finPending_step (t : Threads) (a : ThreadStep) (u : Threads) (pending : FinPending t)
    (taken : threadStep t a = some u) : FinPending u := by
  obtain ⟨waiting, fresh⟩ := pending
  rcases threadStep_cases t a u taken with ⟨f, rfl, -, rfl⟩ | ⟨rfl, -, rfl⟩ | ⟨rfl, idle, rfl⟩ |
    ⟨ret, f, rest, rfl, flushing, rfl⟩ | ⟨rfl, empty, eof, unsent, rfl⟩ | ⟨rfl, empty, -, rfl⟩ |
    ⟨ret, rfl, finning, rfl⟩
  · exact ⟨waiting, fresh⟩
  · exact ⟨fun pc => ⟨rfl, (waiting pc).2⟩, fresh⟩
  · exact ⟨by simp, fresh⟩
  · refine ⟨by simp, fun unsent => ?_⟩
    by_cases reliable : f.flag = wtdFrameFlagReliable <;>
      simpa [sendFrame, reliable] using fresh unsent
  · exact ⟨fun _ => ⟨eof, unsent⟩, fresh⟩
  · exact ⟨by simp, fresh⟩
  · refine ⟨by simp, fun unsent => ?_⟩
    by_cases accepted : ret = 0
    · simp [accepted] at unsent
    · simp only [accepted, if_false] at unsent
      simpa [Ne.symm accepted] using fresh unsent

def FinSettled (t : Threads) : Prop :=
  t.session.streamFinSent = true ->
    t.session.outputEof = true ∧ t.session.outbound = [] ∧ t.pump.batch = [] ∧ t.pump ≠ .finning ∧
    ∃ before, t.calls = before ++ [.sendFin 0] ∧ .sendFin 0 ∉ before ∧
      sentLog before = t.pushed.map route

def FinOrdered (t : Threads) : Prop :=
  Routed t ∧ FinPending t ∧ FinSettled t

theorem finSettled_step (t : Threads) (a : ThreadStep) (u : Threads) (routed : Routed t)
    (pending : FinPending t) (settled : FinSettled t) (empty : QueueEmptyAtFin t a)
    (taken : threadStep t a = some u) : FinSettled u := by
  rcases threadStep_cases t a u taken with ⟨f, rfl, running, rfl⟩ | ⟨rfl, running, rfl⟩ |
    ⟨rfl, idle, rfl⟩ | ⟨ret, f, rest, rfl, flushing, rfl⟩ | ⟨rfl, last, -, unsent, rfl⟩ |
    ⟨rfl, last, -, rfl⟩ | ⟨ret, rfl, finning, rfl⟩
  · intro sent
    have done := (settled sent).1
    simp [running] at done
  · intro sent
    have done := (settled sent).1
    simp [running] at done
  · intro sent
    obtain ⟨eof, queue, -, -, log⟩ := settled sent
    exact ⟨eof, rfl, by simpa [PumpPc.batch] using queue, by simp, log⟩
  · intro sent
    obtain ⟨-, -, batch, -, -⟩ := settled sent
    simp [flushing, PumpPc.batch] at batch
  · intro sent
    simp [unsent] at sent
  · intro sent
    obtain ⟨eof, queue, -, -, log⟩ := settled sent
    exact ⟨eof, queue, rfl, by simp, log⟩
  · by_cases accepted : ret = 0
    · subst accepted
      obtain ⟨eof, unsent⟩ := pending.1 finning
      obtain ⟨sent, places, logged⟩ := routed
      have queue := empty rfl
      simp only [finning, PumpPc.batch, queue, List.append_nil] at places
      intro _
      exact ⟨by simpa using eof, by simpa using queue, rfl, by simp, t.calls, rfl,
        pending.2 unsent, by rw [logged, places]⟩
    · intro sent
      simp only [accepted, if_false] at sent
      exact absurd finning (settled sent).2.2.2.1

theorem finLast_of_ordered (t : Threads) (ordered : FinOrdered t) : FinLast t := by
  obtain ⟨-, pending, settled⟩ := ordered
  intro before after split
  cases sent : t.session.streamFinSent with
  | false =>
    have fresh := pending.2 sent
    simp [split] at fresh
  | true =>
    obtain ⟨-, -, -, -, log, calls, fresh, all⟩ := settled sent
    rw [calls] at split
    rcases List.append_eq_append_iff.mp split with ⟨mid, rfl, tail⟩ | ⟨mid, rfl, tail⟩
    · cases mid with
      | nil =>
        simp only [List.nil_append, List.cons.injEq, true_and] at tail
        subst tail
        exact ⟨by simpa using all, by simp⟩
      | cons call mid => simp at tail
    · cases mid with
      | nil =>
        simp only [List.nil_append, List.cons.injEq, true_and] at tail
        subst tail
        exact ⟨by simpa using all, by simp⟩
      | cons call mid =>
        simp only [List.cons_append, List.cons.injEq] at tail
        simp [← tail.1] at fresh

theorem finOrdered_step (t : Threads) (a : ThreadStep) (u : Threads) (ordered : FinOrdered t)
    (empty : QueueEmptyAtFin t a) (taken : threadStep t a = some u) : FinOrdered u := by
  obtain ⟨routed, pending, settled⟩ := ordered
  exact ⟨routed_step t a u routed taken, finPending_step t a u pending taken,
    finSettled_step t a u routed pending settled empty taken⟩

theorem finOrdered_initial : FinOrdered initial :=
  ⟨⟨[], rfl, rfl⟩, ⟨by simp [initial], by simp [initial]⟩,
    by simp [FinSettled, initial, wtdSessionInit]⟩

theorem queue_empty_of_finLast (t : Threads) (a : ThreadStep) (u : Threads) (routed : Routed t)
    (taken : threadStep t a = some u) (last : FinLast u) : QueueEmptyAtFin t a := by
  rintro rfl
  cases pc : t.pump <;> simp [threadStep, pc] at taken
  subst taken
  obtain ⟨sent, places, logged⟩ := routed
  have all := (last t.calls [] rfl).1
  simp only [pc, PumpPc.batch, List.append_nil] at places
  rw [logged, places, List.map_append] at all
  simpa using all

theorem fin_last_iff_queue_empty (schedule : List ThreadStep) :
    (∀ first second t, schedule = first ++ second -> exec threadStep initial first = some t ->
      FinLast t) ↔
    Meets threadStep QueueEmptyAtFin initial schedule := by
  apply throughout_iff_meets threadStep QueueEmptyAtFin FinOrdered FinLast finOrdered_step
    finLast_of_ordered _ initial finOrdered_initial
  intro t a u ordered taken last
  exact queue_empty_of_finLast t a u ordered.1 taken last

def pushOf : ThreadStep -> Option OutboundFrame
  | .push f => some f
  | _ => none

def pushedSinceDrain (past : List ThreadStep) : List OutboundFrame :=
  (past.reverse.takeWhile (· ≠ .drain)).reverse.filterMap pushOf

theorem pushedSinceDrain_snoc (past : List ThreadStep) (a : ThreadStep) :
    pushedSinceDrain (past ++ [a]) =
      if a = .drain then [] else pushedSinceDrain past ++ (pushOf a).toList := by
  by_cases drains : a = .drain
  · simp [pushedSinceDrain, drains]
  · cases pushed : pushOf a <;> simp [pushedSinceDrain, drains, pushed]

theorem queue_step (past : List ThreadStep) (t : Threads) (a : ThreadStep) (u : Threads)
    (queue : t.session.outbound = pushedSinceDrain past) (taken : threadStep t a = some u) :
    u.session.outbound = pushedSinceDrain (past ++ [a]) := by
  rw [pushedSinceDrain_snoc, ← queue]
  rcases threadStep_cases t a u taken with ⟨f, rfl, -, rfl⟩ | ⟨rfl, -, rfl⟩ | ⟨rfl, -, rfl⟩ |
    ⟨ret, f, rest, rfl, -, rfl⟩ | ⟨rfl, -, -, -, rfl⟩ | ⟨rfl, -, -, rfl⟩ | ⟨ret, rfl, -, rfl⟩
  · simp [pushOf]
  · simp [pushOf]
  · simp
  · simp [pushOf]
  · simp [pushOf]
  · simp [pushOf]
  · by_cases accepted : ret = 0 <;> simp [pushOf, accepted]

theorem queue_since_drain (schedule : List ThreadStep) (t : Threads)
    (run : exec threadStep initial schedule = some t) :
    t.session.outbound = pushedSinceDrain schedule := by
  have held := exec_history threadStep (fun past t => t.session.outbound = pushedSinceDrain past)
    queue_step [] initial t schedule rfl run
  rwa [List.nil_append] at held

theorem queue_empty_iff_unpushed (schedule : List ThreadStep) :
    Meets threadStep QueueEmptyAtFin initial schedule ↔
      ∀ past later t u, schedule = past ++ .sendFin 0 :: later ->
        exec threadStep initial past = some t -> threadStep t (.sendFin 0) = some u ->
        pushedSinceDrain past = [] := by
  constructor
  · rintro met past later t u rfl reached taken
    rw [← queue_since_drain past t reached]
    exact met.at threadStep QueueEmptyAtFin initial past (.sendFin 0) later t u reached taken rfl
  · intro unpushed
    apply meets_of_forall
    rintro past a later t u split reached taken rfl
    rw [queue_since_drain past t reached]
    exact unpushed past later t u split reached taken

def overtaking : List ThreadStep :=
  [.drain, .push ⟨0, [7]⟩, .setEof, .load, .sendFin 0, .drain, .send 0]

-- The frame is pushed after the drain and before the load of output_eof.
theorem fin_overtakes_data :
    ∃ t, exec threadStep initial overtaking = some t ∧ t.pushed = [⟨0, [7]⟩] ∧
      t.calls = [.sendFin 0, .sendStream [7] 0] ∧ ¬ FinLast t := by
  refine ⟨_, rfl, rfl, rfl, ?_⟩
  intro last
  have all := (last [] [.sendStream [7] 0] rfl).1
  simp [sentLog] at all

def sendSteps (ret : Nat -> Int) : Nat -> List OutboundFrame -> List ThreadStep
  | _, [] => []
  | i, _ :: rest => .send (ret i) :: sendSteps ret (i + 1) rest

def pumpSteps (s : WtdSession) (env : PumpEnv) : List ThreadStep :=
  .drain :: (sendSteps env.data 0 s.outbound ++ .load ::
    if s.outputEof && !s.streamFinSent then [.sendFin env.fin] else [])

theorem exec_sendSteps (t : Threads) (ret : Nat -> Int) (i : Nat) (batch : List OutboundFrame)
    (flushing : t.pump = .flushing batch) :
    exec threadStep t (sendSteps ret i batch) =
      some { t with pump := .flushing [], calls := t.calls ++ flushFrames ret i batch } := by
  induction batch generalizing t i with
  | nil => simp [sendSteps, flushFrames, ← flushing]
  | cons f rest ih =>
    have next := ih { t with pump := .flushing rest, calls := t.calls ++ [sendFrame f (ret i)] }
      (i + 1) rfl
    simp only [sendSteps, exec, threadStep, flushing, Option.bind_some, next, flushFrames]
    simp

theorem exec_pumpSteps (t : Threads) (env : PumpEnv) (idle : t.pump = .idle) :
    exec threadStep t (pumpSteps t.session env) =
      some { t with
        session := (wtdSessionPump t.session env).1
        calls := t.calls ++ (wtdSessionPump t.session env).2 } := by
  have flushed := exec_sendSteps
    { t with session := { t.session with outbound := [] }, pump := .flushing t.session.outbound }
    env.data 0 t.session.outbound rfl
  rw [pumpSteps, exec_cons]
  refine ⟨_, by simp [threadStep, idle, wtdWorkQueueDrain]; rfl, ?_⟩
  rw [exec_append]
  refine ⟨_, flushed, ?_⟩
  cases eof : t.session.outputEof <;> cases sent : t.session.streamFinSent <;>
    by_cases accepted : env.fin = 0 <;>
    simp [exec, threadStep, wtdSessionPump, wtdWorkQueueDrain, eof, sent, accepted, idle]

end WebTransportD.PumpThreads
