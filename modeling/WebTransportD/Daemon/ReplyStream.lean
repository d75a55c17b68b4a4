import WebTransportD.Daemon.PeerStreams
import WebTransportD.Daemon.SessionTeardown

set_option autoImplicit false

namespace WebTransportD.ReplyStream

open WebTransportD.Frame Session SessionInput ChildProcess TransportPeer PeerDelivery
open PeerStreams SessionTeardown Execution

def sentStream : Effect -> Option Nat
  | .addToStream stream _ _ => some stream
  | _ => none

def sentOn (effects : List Effect) : List Nat :=
  effects.filterMap sentStream

@[simp] theorem sentOn_nil : sentOn [] = [] := rfl

@[simp] theorem sentOn_append (first second : List Effect) :
    sentOn (first ++ second) = sentOn first ++ sentOn second :=
  List.filterMap_append

def onStream : TransportCall -> Bool
  | .sendStream _ _ | .sendFin _ => true
  | .sendDatagram _ _ => false

structure Replied (p q : WtdPeer) (effects : List Effect) (replies : Prop) : Prop where
  control : q.controlStreamId = p.controlStreamId
  data : q.dataStreamId = p.dataStreamId
  session : q.session = p.session
  sent : ∀ stream, stream ∈ sentOn effects ↔
    stream = p.dataStreamId ∧ p.dataStreamId ≠ uint64Max ∧ replies

theorem transportCall_replied (p : WtdPeer) (c : TransportCall) :
    Replied p (transportCall p c).1 (transportCall p c).2 (onStream c = true) := by
  cases c with
  | sendStream data ret =>
    refine ⟨rfl, rfl, rfl, fun stream => ?_⟩
    by_cases unbound : p.dataStreamId = uint64Max <;>
      simp [transportCall, peerSendStream, unbound, sentOn, sentStream, onStream]
  | sendDatagram data ret =>
    cases served : ret == 0 <;>
      exact ⟨by simp [transportCall, peerSendDatagram, served],
        by simp [transportCall, peerSendDatagram, served],
        by simp [transportCall, peerSendDatagram, served],
        by simp [transportCall, peerSendDatagram, served, sentOn, sentStream, onStream]⟩
  | sendFin ret =>
    refine ⟨rfl, rfl, rfl, fun stream => ?_⟩
    by_cases unbound : p.dataStreamId = uint64Max <;>
      simp [transportCall, peerSendFin, unbound, sentOn, sentStream, onStream]

theorem carryOut_replied (p : WtdPeer) (calls : List TransportCall) :
    Replied p (carryOut transportCall p calls).1 (carryOut transportCall p calls).2
      (∃ c ∈ calls, onStream c = true) := by
  induction calls generalizing p with
  | nil => exact ⟨rfl, rfl, rfl, by simp [carryOut]⟩
  | cons c rest ih =>
    have here := transportCall_replied p c
    have later := ih (transportCall p c).1
    refine ⟨later.control.trans here.control, later.data.trans here.data,
      later.session.trans here.session, fun stream => ?_⟩
    have first := here.sent stream
    have second := later.sent stream
    rw [here.data] at second
    simp only [carryOut, sentOn_append, List.mem_append, first, second, List.exists_mem_cons_iff]
    rw [← and_or_left, ← and_or_left]

def hasReliable (s : WtdSession) : Prop :=
  ∃ f ∈ s.outbound, f.flag = wtdFrameFlagReliable

def hasReply (s : WtdSession) : Prop :=
  hasReliable s ∨ (s.outputEof && !s.streamFinSent) = true

theorem onStream_frame (f : OutboundFrame) (ret : Int) :
    onStream (sendFrame f ret) = true ↔ f.flag = wtdFrameFlagReliable := by
  by_cases reliable : f.flag = wtdFrameFlagReliable <;> simp [sendFrame, reliable, onStream]

theorem flushFrames_onStream (ret : Nat -> Int) (i : Nat) (frames : List OutboundFrame) :
    (∃ c ∈ flushFrames ret i frames, onStream c = true) ↔
      ∃ f ∈ frames, f.flag = wtdFrameFlagReliable := by
  induction frames generalizing i with
  | nil => simp [flushFrames]
  | cons f rest ih => simp only [flushFrames, List.exists_mem_cons_iff, ih, onStream_frame]

theorem pump_onStream (s : WtdSession) (env : PumpEnv) :
    (∃ c ∈ (wtdSessionPump s env).2, onStream c = true) ↔ hasReply s := by
  have flushed := flushFrames_onStream env.data 0 s.outbound
  unfold hasReply hasReliable
  rw [← flushed]
  cases due : s.outputEof && !s.streamFinSent <;> by_cases accepted : env.fin = 0 <;>
    simp only [wtdSessionPump, wtdWorkQueueDrain, due, accepted, if_true, if_false,
      Bool.false_eq_true, or_false, List.mem_append, List.mem_singleton, or_and_right, exists_or]
  · simp [onStream]
  · simp [onStream]

theorem pump_session (s : WtdSession) (env : PumpEnv) :
    (wtdSessionPump s env).1.outbound = [] ∧
      (wtdSessionPump s env).1.outputEof = s.outputEof ∧
      ((wtdSessionPump s env).1.streamFinSent = true -> s.streamFinSent = true ∨
        (s.outputEof && !s.streamFinSent) = true ∧ env.fin = 0) := by
  cases due : s.outputEof && !s.streamFinSent <;> by_cases accepted : env.fin = 0 <;>
    simp [wtdSessionPump, wtdWorkQueueDrain, due, accepted]

theorem messageEffects_unsent (p : WtdPeer) (flag : UInt8) (data : List UInt8)
    (env : DeliverEnv) : sentOn (messageEffects p flag data env) = [] := by
  unfold messageEffects
  split_ifs <;> rfl

def sameOutput (p q : WtdPeer) : Prop :=
  q.session.outbound = p.session.outbound ∧ q.session.outputEof = p.session.outputEof ∧
    q.session.streamFinSent = p.session.streamFinSent

theorem postStream_bound (p : WtdPeer) (stream : Nat) (bytes : List UInt8) (env : DeliverEnv)
    (fin : Bool) :
    (postStream p stream bytes env fin).1.controlStreamId = p.controlStreamId ∧
    (postStream p stream bytes env fin).1.dataStreamId =
      (if stream ≠ p.controlStreamId ∧ p.dataStreamId = uint64Max then stream
       else p.dataStreamId) ∧
    sameOutput p (postStream p stream bytes env fin).1 ∧
    sentOn (postStream p stream bytes env fin).2 = [] := by
  by_cases control : stream = p.controlStreamId
  · simp [postStream, control, sameOutput]
  · rw [postStream_eq p stream bytes env fin control]
    have silent : sentOn (if fin && closesStdin p then [Effect.sys (.close p.child.stdinFd)]
        else []) = [] := by
      split_ifs <;> rfl
    refine ⟨?_, ?_, ?_, by rw [sentOn_append, messageEffects_unsent, silent]; rfl⟩
    · cases fin <;> simp [inputClosed, bind_fields]
    · by_cases unbound : p.dataStreamId = uint64Max <;> cases fin <;>
        simp [inputClosed, bindDataStream, control, unbound]
    · cases fin <;> simp [sameOutput, inputClosed, bind_fields]

structure Traffic where
  conversation : Conversation
  posted : List Nat

def postedOn : ConversationStep -> List Nat
  | .callback (.postData stream _ _) | .callback (.postFin stream _ _) => [stream]
  | _ => []

def trafficStep (t : Traffic) (a : ConversationStep) : Option Traffic :=
  if inSession a then
    (conversationStep t.conversation a).map fun conversation =>
      { conversation, posted := t.posted ++ postedOn a }
  else none

def pumps : ConversationStep -> Bool
  | .loop _ | .callback (.provideData _) => true
  | _ => false

def pushesReliable : ConversationStep -> Bool
  | .output malloc flag _ => malloc && flag == wtdFrameFlagReliable
  | _ => false

def setsEof : ConversationStep -> Bool
  | .outputEof => true
  | _ => false

-- The first stream other than the control stream on which the peer has posted. UINT64_MAX is no
-- stream id.
def firstStream (control : Nat) (past : List ConversationStep) : Option Nat :=
  (past.flatMap postedOn).find? fun stream => stream != control && stream != uint64Max

def reliableWaits (past : List ConversationStep) : Bool :=
  (past.reverse.takeWhile fun a => !pumps a).any pushesReliable

theorem firstStream_snoc (control : Nat) (past : List ConversationStep) (a : ConversationStep) :
    firstStream control (past ++ [a]) =
      (firstStream control past).or
        ((postedOn a).find? fun stream => stream != control && stream != uint64Max) := by
  simp [firstStream, List.find?_append]

theorem reliableWaits_snoc (past : List ConversationStep) (a : ConversationStep) :
    reliableWaits (past ++ [a]) = (!pumps a && (pushesReliable a || reliableWaits past)) := by
  cases pump : pumps a <;> simp [reliableWaits, pump]

def boundTo (p : WtdPeer) : List Nat -> Nat
  | [] => p.dataStreamId
  | stream :: _ =>
      if stream ≠ p.controlStreamId ∧ p.dataStreamId = uint64Max then stream else p.dataStreamId

structure Moved (p : WtdPeer) (a : ConversationStep) (q : WtdPeer) (effects : List Effect) :
    Prop where
  control : q.controlStreamId = p.controlStreamId
  data : q.dataStreamId = boundTo p (postedOn a)
  queue : hasReliable q.session ↔
    pumps a = false ∧ (pushesReliable a = true ∨ hasReliable p.session)
  eof : q.session.outputEof = (p.session.outputEof || setsEof a)
  fin : q.session.streamFinSent = true -> p.session.streamFinSent = true ∨
    p.dataStreamId ≠ uint64Max ∧ pumps a = true ∧ hasReply p.session
  sent : ∀ stream, stream ∈ sentOn effects ↔
    stream = p.dataStreamId ∧ p.dataStreamId ≠ uint64Max ∧ pumps a = true ∧ hasReply p.session

theorem pump_moved (p : WtdPeer) (a : ConversationStep) (mallocs : Nat -> Bool)
    (pump : pumps a = true) (unposted : postedOn a = []) (going : setsEof a = false) :
    Moved p a (peerPump p mallocs).1 (peerPump p mallocs).2 := by
  have carried := carryOut_replied
    { p with session := (wtdSessionPump p.session (transportPort p mallocs)).1 }
    (wtdSessionPump p.session (transportPort p mallocs)).2
  obtain ⟨drained, eof, fin⟩ := pump_session p.session (transportPort p mallocs)
  have session : (peerPump p mallocs).1.session =
      (wtdSessionPump p.session (transportPort p mallocs)).1 := carried.session
  constructor
  · exact carried.control
  · rw [unposted]
    exact carried.data
  · simp [session, hasReliable, drained, pump]
  · simp [session, eof, going]
  · intro sent
    refine (fin (session ▸ sent)).imp_right fun ⟨due, accepted⟩ => ⟨?_, pump, .inr due⟩
    intro unbound
    simp [transportPort, peerSendFin, unbound] at accepted
  · intro stream
    rw [pump, eq_self, true_and, ← pump_onStream p.session (transportPort p mallocs)]
    exact carried.sent stream

theorem moved_quietly (p q : WtdPeer) (a : ConversationStep) (effects : List Effect)
    (control : q.controlStreamId = p.controlStreamId)
    (data : q.dataStreamId = boundTo p (postedOn a)) (same : sameOutput p q)
    (idle : pumps a = false) (input : pushesReliable a = false) (going : setsEof a = false)
    (silent : sentOn effects = []) : Moved p a q effects := by
  obtain ⟨queue, eof, fin⟩ := same
  exact ⟨control, data, by simp [hasReliable, queue, idle, input], by simp [eof, going],
    by rw [fin]; exact .inl, by simp [silent, idle]⟩

theorem postStream_moved (p : WtdPeer) (a : ConversationStep) (stream : Nat) (bytes : List UInt8)
    (env : DeliverEnv) (fin : Bool) (posted : postedOn a = [stream]) (idle : pumps a = false)
    (input : pushesReliable a = false) (going : setsEof a = false) :
    Moved p a (postStream p stream bytes env fin).1 (postStream p stream bytes env fin).2 := by
  obtain ⟨control, data, same, silent⟩ := postStream_bound p stream bytes env fin
  exact moved_quietly p _ a _ control (by rw [posted]; exact data) same idle input going silent

theorem sameOutput_refl (p : WtdPeer) : sameOutput p p :=
  ⟨rfl, rfl, rfl⟩

theorem callback_moved (p : WtdPeer) (event : Event)
    (within : inSession (.callback event) = true) :
    ∃ q, (wtSessionCb (some p) event).1 = some q ∧
      Moved p (.callback event) q (wtSessionCb (some p) event).2.1 := by
  have same := sameOutput_refl p
  cases event with
  | connect stream env => simp [inSession] at within
  | deregister waits => simp [inSession] at within
  | postData stream bytes env =>
    exact ⟨_, rfl, postStream_moved p _ stream bytes env false rfl rfl rfl rfl⟩
  | postFin stream bytes env =>
    exact ⟨_, rfl, postStream_moved p _ stream bytes env true rfl rfl rfl rfl⟩
  | postDatagram bytes env =>
    by_cases filled : bytes.length > 0
    · have delivered := deliver_message p wtdFrameFlagUnreliable bytes env (.inr rfl)
      have silent := messageEffects_unsent p wtdFrameFlagUnreliable bytes env
      refine ⟨p, by simp [wtSessionCb, filled, wtdSessionDeliverDatagram, delivered], ?_⟩
      apply moved_quietly p p _ _ rfl rfl same rfl rfl rfl
      simpa [wtSessionCb, filled, wtdSessionDeliverDatagram, delivered] using silent
    · refine ⟨p, by simp [wtSessionCb, filled], ?_⟩
      apply moved_quietly p p _ _ rfl rfl same rfl rfl rfl
      simp [wtSessionCb, filled]
  | provideData mallocs => exact ⟨_, rfl, pump_moved p _ mallocs rfl rfl rfl⟩
  | provideDatagram granted =>
    refine ⟨_, rfl, ?_⟩
    rcases queue : p.dgrams with _ | ⟨d, _ | ⟨e, rest⟩⟩ <;>
      exact moved_quietly p _ _ _ (by simp [provideDatagram, queue])
        (by simp [provideDatagram, queue, boundTo, postedOn])
        (by simp [provideDatagram, queue, sameOutput]) rfl rfl rfl
        (by simp [wtSessionCb, provideDatagram, queue, sentOn, sentStream])
  | unhandled => exact ⟨p, rfl, moved_quietly p p _ _ rfl rfl same rfl rfl rfl rfl⟩

theorem trafficStep_moved (t : Traffic) (a : ConversationStep) (u : Traffic) (p : WtdPeer)
    (live : t.conversation.peer = some p) (taken : trafficStep t a = some u) :
    u.posted = t.posted ++ postedOn a ∧ ∃ q effects, u.conversation.peer = some q ∧
      u.conversation.log = t.conversation.log ++ effects ∧ Moved p a q effects := by
  simp only [trafficStep] at taken
  split_ifs at taken with allowed
  obtain ⟨next, stepped, rfl⟩ := Option.map_eq_some_iff.mp taken
  refine ⟨rfl, ?_⟩
  cases a with
  | callback event =>
    obtain ⟨q, made, moved⟩ := callback_moved p event allowed
    obtain rfl : _ = next := by simpa [conversationStep] using stepped
    exact ⟨q, _, by simpa [live] using made, rfl, by simpa [live] using moved⟩
  | loop mallocs =>
    obtain rfl : _ = next := by simpa [conversationStep, live] using stepped
    exact ⟨_, _, rfl, rfl, pump_moved p _ mallocs rfl rfl rfl⟩
  | output malloc flag payload =>
    obtain rfl : _ = next := by simpa [conversationStep, live] using stepped
    refine ⟨_, [], rfl, by simp, rfl, rfl, ?_, ?_, ?_, ?_⟩
    · cases malloc <;>
        simp [hasReliable, wtdSessionOnOutput, wtdWorkQueuePush, pumps, pushesReliable,
          or_and_right, exists_or, or_comm]
    · cases malloc <;> simp [wtdSessionOnOutput, setsEof]
    · cases malloc <;> exact .inl
    · simp [pumps, sentOn]
  | outputEof =>
    obtain rfl : _ = next := by simpa [conversationStep, live] using stepped
    refine ⟨_, [], rfl, by simp, rfl, rfl, ?_, ?_, .inl, ?_⟩
    · simp [hasReliable, wtdSessionOnOutputEof, pumps, pushesReliable]
    · simp [wtdSessionOnOutputEof, setsEof]
    · simp [pumps, sentOn]
  | childExit =>
    simp only [conversationStep] at stepped
    split_ifs at stepped
    obtain rfl : _ = next := by simpa using stepped
    exact ⟨p, [], live, by simp,
      moved_quietly p p _ [] rfl rfl (sameOutput_refl p) rfl rfl rfl rfl⟩

structure Bound (control : Nat) (past : List ConversationStep) (t : Traffic) (p : WtdPeer) :
    Prop where
  live : t.conversation.peer = some p
  ours : p.controlStreamId = control
  posted : t.posted = past.flatMap postedOn
  data : p.dataStreamId = (firstStream control past).getD uint64Max
  queue : hasReliable p.session ↔ reliableWaits past = true
  eof : p.session.outputEof = past.any setsEof
  fin : p.session.streamFinSent = true -> ∃ stream, stream ∈ sentOn t.conversation.log
  sent : ∀ stream ∈ sentOn t.conversation.log,
    firstStream control past = some stream ∧ stream % 4 = 0

theorem firstStream_posted {control : Nat} {past : List ConversationStep} {stream : Nat}
    (first : firstStream control past = some stream) :
    stream ∈ past.flatMap postedOn ∧ stream ≠ control ∧ stream ≠ uint64Max := by
  have passes := List.find?_some first
  exact ⟨List.mem_of_find?_eq_some first, by simpa using passes⟩

theorem Bound.stream {control : Nat} {past : List ConversationStep} {t : Traffic} {p : WtdPeer}
    (bound : Bound control past t p) (stream : Nat) :
    firstStream control past = some stream ↔
      stream = p.dataStreamId ∧ p.dataStreamId ≠ uint64Max := by
  rw [bound.data]
  cases first : firstStream control past with
  | none => simp
  | some other =>
    have proper := (firstStream_posted first).2.2
    simp [proper, eq_comm]

def BidirectionalReplies (control : Nat) (t : Traffic) : Prop :=
  (∀ stream ∈ sentOn t.conversation.log,
    stream % 4 = 0 ∧ stream ≠ control ∧ stream ∈ t.posted) ∧
  ∀ first ∈ sentOn t.conversation.log, ∀ second ∈ sentOn t.conversation.log, first = second

def FirstBidirectional (control : Nat) (past : List ConversationStep) (a : ConversationStep) :
    Prop :=
  pumps a = true -> (reliableWaits past = true ∨ past.any setsEof = true) ->
    ∀ stream, firstStream control past = some stream -> stream % 4 = 0

theorem boundTo_first {control : Nat} {past : List ConversationStep} {t : Traffic} {p : WtdPeer}
    (bound : Bound control past t p) (a : ConversationStep) :
    boundTo p (postedOn a) = (firstStream control (past ++ [a])).getD uint64Max := by
  rw [firstStream_snoc]
  have data := bound.data
  have single : postedOn a = [] ∨ ∃ stream, postedOn a = [stream] := by
    unfold postedOn
    split <;> simp
  cases first : firstStream control past with
  | some stream =>
    have proper := (firstStream_posted first).2.2
    rw [first, Option.getD_some] at data
    rcases single with none | ⟨other, one⟩
    · simp [none, boundTo, data]
    · simp [one, boundTo, data, proper]
  | none =>
    rw [first, Option.getD_none] at data
    rcases single with none | ⟨stream, one⟩
    · simp [none, boundTo, data]
    · rw [one]
      by_cases ours : stream = control
      · simp [boundTo, data, bound.ours, ours]
      · by_cases proper : stream = uint64Max <;> simp [boundTo, data, bound.ours, ours, proper]

theorem firstStream_kept {control : Nat} {past : List ConversationStep} {stream : Nat}
    (a : ConversationStep) (first : firstStream control past = some stream) :
    firstStream control (past ++ [a]) = some stream := by
  simp [firstStream_snoc, first]

theorem bound_step (control : Nat) (past : List ConversationStep) (t : Traffic)
    (a : ConversationStep) (u : Traffic) (bound : ∃ p, Bound control past t p)
    (ok : FirstBidirectional control past a) (taken : trafficStep t a = some u) :
    ∃ q, Bound control (past ++ [a]) u q := by
  obtain ⟨p, bound⟩ := bound
  obtain ⟨posted, q, effects, live, log, moved⟩ := trafficStep_moved t a u p bound.live taken
  refine ⟨q, live, moved.control.trans bound.ours, ?_, ?_, ?_, ?_, ?_, ?_⟩
  · rw [posted, bound.posted, List.flatMap_append, List.flatMap_singleton]
  · rw [moved.data, boundTo_first bound]
  · rw [moved.queue, bound.queue, reliableWaits_snoc]
    simp
  · rw [moved.eof, bound.eof, List.any_append]
    simp
  · intro finished
    rw [log, sentOn_append]
    rcases moved.fin finished with before | ⟨settled, pump, reply⟩
    · obtain ⟨stream, sent⟩ := bound.fin before
      exact ⟨stream, List.mem_append_left _ sent⟩
    · exact ⟨p.dataStreamId, List.mem_append_right _
        ((moved.sent p.dataStreamId).mpr ⟨rfl, settled, pump, reply⟩)⟩
  · intro stream member
    rw [log, sentOn_append] at member
    rcases List.mem_append.mp member with early | now
    · exact ⟨firstStream_kept a (bound.sent stream early).1, (bound.sent stream early).2⟩
    · obtain ⟨rfl, settled, pump, reply⟩ := (moved.sent stream).mp now
      have first := (bound.stream _).mpr ⟨rfl, settled⟩
      have due : reliableWaits past = true ∨ past.any setsEof = true := by
        refine reply.imp bound.queue.mp fun finishing => ?_
        rw [← bound.eof]
        exact (Bool.and_eq_true_iff.mp finishing).1
      exact ⟨firstStream_kept a first, ok pump due _ first⟩

theorem bidirectional_of_bound (control : Nat) (past : List ConversationStep) (t : Traffic)
    (bound : ∃ p, Bound control past t p) : BidirectionalReplies control t := by
  obtain ⟨p, bound⟩ := bound
  constructor
  · intro stream member
    obtain ⟨first, even⟩ := bound.sent stream member
    obtain ⟨posted, other, -⟩ := firstStream_posted first
    exact ⟨even, other, bound.posted ▸ posted⟩
  · intro first here second there
    exact Option.some.inj ((bound.sent first here).1.symm.trans (bound.sent second there).1)

-- Where nothing is left to send, an earlier pump has sent the FIN, on the first stream as well.
theorem bidirectional_needed (control : Nat) (past : List ConversationStep) (t : Traffic)
    (a : ConversationStep) (u : Traffic) (bound : ∃ p, Bound control past t p)
    (taken : trafficStep t a = some u) (replies : BidirectionalReplies control u) :
    FirstBidirectional control past a := by
  obtain ⟨p, bound⟩ := bound
  intro pump due stream first
  obtain ⟨rfl, settled⟩ := (bound.stream stream).mp first
  obtain ⟨-, q, effects, -, log, moved⟩ := trafficStep_moved t a u p bound.live taken
  by_cases reply : hasReply p.session
  · have sent := (moved.sent p.dataStreamId).mpr ⟨rfl, settled, pump, reply⟩
    exact (replies.1 p.dataStreamId (by simp [log, sent])).1
  · obtain ⟨unqueued, finished⟩ := not_or.mp reply
    have ended : p.session.outputEof = true := by
      rw [bound.eof]
      exact due.resolve_left fun waits => unqueued (bound.queue.mpr waits)
    obtain ⟨other, sent⟩ := bound.fin (by simpa [ended] using finished)
    obtain ⟨same, even⟩ := bound.sent other sent
    exact Option.some.inj (same.symm.trans first) ▸ even

def connectedTraffic (control : Nat) (spawned : Spawned) : Traffic :=
  { conversation :=
      { peer := some (connected control spawned), childExited := false
        log := [.spawn spawned.child, .outputStart] }
    posted := [] }

theorem replies_bidirectional_iff (control : Nat) (spawned : Spawned)
    (schedule : List ConversationStep) :
    (∀ first second t, schedule = first ++ second ->
      exec trafficStep (connectedTraffic control spawned) first = some t ->
      (∀ stream ∈ sentOn t.conversation.log,
        stream % 4 = 0 ∧ stream ≠ control ∧ stream ∈ t.posted) ∧
      ∀ one ∈ sentOn t.conversation.log, ∀ other ∈ sentOn t.conversation.log, one = other) ↔
    ∀ past a later t, schedule = past ++ a :: later ->
      exec trafficStep (connectedTraffic control spawned) (past ++ [a]) = some t ->
      FirstBidirectional control past a := by
  apply throughout_iff_history trafficStep (FirstBidirectional control)
    (fun past t => ∃ p, Bound control past t p) (BidirectionalReplies control)
    (bound_step control) (bidirectional_of_bound control) (bidirectional_needed control)
  refine ⟨_, rfl, rfl, rfl, rfl, ?_, rfl, ?_, ?_⟩
  · simp [hasReliable, connected, freshPeer, wtdSessionInit, reliableWaits]
  · simp [connected, freshPeer, wtdSessionInit]
  · simp [connectedTraffic, sentOn, sentStream]

-- A unidirectional stream delivers first; the child's answer is then sent on it.
def unidirectionalFirst : List ConversationStep :=
  [.callback (.postData 2 [7] (accepting 3)), .callback (.postData 4 [8] (accepting 3)),
    .output true 0 [9], .loop fun _ => true]

theorem reply_on_unidirectional :
    ∃ t, exec trafficStep (connectedTraffic 0 sampleSpawn) unidirectionalFirst = some t ∧
      sentOn t.conversation.log = [2] ∧ ¬ BidirectionalReplies 0 t := by
  refine ⟨_, rfl, rfl, ?_⟩
  rintro ⟨each, -⟩
  have even := (each 2 List.mem_cons_self).1
  cases even

end WebTransportD.ReplyStream
