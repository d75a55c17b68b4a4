import WebTransportD.Daemon.ChildDeath
import WebTransportD.Daemon.SessionTeardown

set_option autoImplicit false

namespace WebTransportD.CrossTalk

open WebTransportD.Frame Session ChildProcess TransportPeer PeerDelivery SessionTeardown
open ChildDeath (isWrite)

def streamReply : Effect -> Option (List UInt8)
  | .addToStream _ data false => some data
  | _ => none

def datagramReply : Effect -> Option (List UInt8)
  | .provideDatagram data true => some data
  | _ => none

def childInput : Effect -> Option (List UInt8)
  | .sys (.write _ data _) => some data
  | _ => none

def childOutput : ConversationStep -> Option OutboundFrame
  | .output true flag payload => some { flag, payload }
  | _ => none

def clientMessage : ConversationStep -> Option (List UInt8)
  | .callback (.postData _ bytes _) | .callback (.postFin _ bytes _) =>
      some (canonicalFrame wtdFrameFlagReliable bytes)
  | .callback (.postDatagram bytes _) => some (canonicalFrame wtdFrameFlagUnreliable bytes)
  | _ => none

def streamOf (f : OutboundFrame) : Option (List UInt8) :=
  if f.flag = wtdFrameFlagReliable then some f.payload else none

def datagramOf (f : OutboundFrame) : Option (List UInt8) :=
  if f.flag = wtdFrameFlagReliable then none else some f.payload

def queued (p : Option WtdPeer) : List OutboundFrame :=
  p.elim [] fun p => p.session.outbound

def waiting (p : Option WtdPeer) : List (List UInt8) :=
  p.elim [] WtdPeer.dgrams

structure Carries (p q : Option WtdPeer) (effects : List Effect) (given : List OutboundFrame)
    (message : List (List UInt8)) : Prop where
  stream : (effects.filterMap streamReply ++ (queued q).filterMap streamOf).Sublist
    ((queued p).filterMap streamOf ++ given.filterMap streamOf)
  datagram :
    (effects.filterMap datagramReply ++ (waiting q ++ (queued q).filterMap datagramOf)).Sublist
      (waiting p ++ (queued p).filterMap datagramOf ++ given.filterMap datagramOf)
  input : (effects.filterMap childInput).Sublist message

def isReply : Effect -> Bool
  | .addToStream _ _ _ | .provideDatagram _ _ => true
  | _ => false

theorem unreplied (effects : List Effect) (silent : effects.any isReply = false) :
    effects.filterMap streamReply = [] ∧ effects.filterMap datagramReply = [] := by
  simp only [List.any_eq_false] at silent
  constructor <;>
    · apply List.filterMap_eq_nil_iff.mpr
      intro e member
      have quiet := silent e member
      cases e <;> simp_all [isReply, streamReply, datagramReply]

theorem unwritten (effects : List Effect) (silent : effects.any isWrite = false) :
    effects.filterMap childInput = [] := by
  simp only [List.any_eq_false] at silent
  apply List.filterMap_eq_nil_iff.mpr
  intro e member
  have quiet := silent e member
  rcases e with _ | ⟨_ | _ | _ | _ | _⟩ | _ | _ | _ | _ | _ | _ <;> simp_all [isWrite, childInput]

theorem Carries.silent {p q : Option WtdPeer} {effects : List Effect}
    (replies : effects.any isReply = false) (writes : effects.any isWrite = false)
    (frames : (queued q).Sublist (queued p)) (datagrams : (waiting q).Sublist (waiting p))
    (message : List (List UInt8)) : Carries p q effects [] message := by
  obtain ⟨stream, datagram⟩ := unreplied effects replies
  refine ⟨?_, ?_, ?_⟩
  · simpa [stream] using frames.filterMap streamOf
  · simpa [datagram] using datagrams.append (frames.filterMap datagramOf)
  · simp [unwritten effects writes]

theorem sys_unreplied (calls : List SysCall) : (calls.map Effect.sys).any isReply = false := by
  simp [isReply, Function.comp_def]

theorem peerRemove_unreplied (p : WtdPeer) (waits : Nat -> WaitOutcome) :
    (peerRemove p waits).any isReply = false := by
  rw [peerRemove, List.any_append, sys_unreplied]
  rfl

theorem peerCreate_unreplied (env : ConnectEnv) : (peerCreate env).2.any isReply = false := by
  rcases env with ⟨_ | _, _ | spawned, _ | _, declared, waits⟩
  case true.some.false =>
    change (_ :: _ ++ _).any isReply = false
    rw [List.any_append, List.any_cons, sys_unreplied]
    rfl
  all_goals rfl

theorem peerCreate_fresh (env : ConnectEnv) (p : WtdPeer) (made : (peerCreate env).1 = some p) :
    p.session.outbound = [] ∧ p.dgrams = [] ∧ p.dataStreamId = uint64Max := by
  rcases env with ⟨_ | _, _ | spawned, _ | _, declared, waits⟩ <;> simp [peerCreate] at made
  rw [← made]
  exact ⟨rfl, rfl, rfl⟩

theorem connect_peer (p : Option WtdPeer) (stream : Nat) (env : ConnectEnv) :
    (wtSessionCb p (.connect stream env)).1 = p ∨
      ∃ created, (peerCreate env).1 = some created ∧
        (wtSessionCb p (.connect stream env)).1 =
          some { created with controlStreamId := stream } := by
  rcases made : peerCreate env with ⟨_ | created, effects⟩
  · exact .inl (by simp [wtSessionCb, made])
  · cases declared : env.declarePrefix with
    | true => exact .inr ⟨created, rfl, by simp [wtSessionCb, made, declared]⟩
    | false => exact .inl (by simp [wtSessionCb, made, declared])

theorem connect_silent (p : Option WtdPeer) (stream : Nat) (env : ConnectEnv) :
    (wtSessionCb p (.connect stream env)).2.1.any isReply = false ∧
      (wtSessionCb p (.connect stream env)).2.1.any isWrite = false := by
  have replies := peerCreate_unreplied env
  have writes := ChildDeath.peerCreate_write env
  rcases made : peerCreate env with ⟨_ | created, effects⟩ <;> rw [made] at replies writes
  · simp only [wtSessionCb, made]
    exact ⟨replies, writes⟩
  · cases declared : env.declarePrefix with
    | true =>
      simp only [wtSessionCb, made, declared, if_true]
      exact ⟨replies, writes⟩
    | false =>
      simp only [wtSessionCb, made, declared, Bool.false_eq_true, if_false, List.any_append,
        replies, writes, peerRemove_unreplied, ChildDeath.peerRemove_write]
      exact ⟨rfl, rfl⟩

theorem connect_carries (p : Option WtdPeer) (stream : Nat) (env : ConnectEnv) :
    Carries p (wtSessionCb p (.connect stream env)).1 (wtSessionCb p (.connect stream env)).2.1 []
      [] := by
  obtain ⟨replies, writes⟩ := connect_silent p stream env
  rcases connect_peer p stream env with same | ⟨created, made, result⟩
  · exact .silent replies writes (by rw [same]) (by rw [same]) []
  · have fresh := peerCreate_fresh env created made
    exact .silent replies writes (by simp [result, queued, fresh])
      (by simp [result, waiting, fresh]) []

theorem messageEffects_kinds (p : WtdPeer) (flag : UInt8) (data : List UInt8) (env : DeliverEnv) :
    (messageEffects p flag data env).filterMap streamReply = [] ∧
      (messageEffects p flag data env).filterMap datagramReply = [] ∧
      ((messageEffects p flag data env).filterMap childInput).Sublist
        [canonicalFrame flag data] := by
  cases reached : reachesChild p data env <;>
    simp [messageEffects, reached, streamReply, datagramReply, childInput]

theorem message_carries (p q : WtdPeer) (flag : UInt8) (data : List UInt8) (env : DeliverEnv)
    (more : List Effect) (session : q.session.outbound = p.session.outbound)
    (dgrams : q.dgrams = p.dgrams) (replies : more.any isReply = false)
    (writes : more.any isWrite = false) :
    Carries (some p) (some q) (messageEffects p flag data env ++ more) []
      [canonicalFrame flag data] := by
  obtain ⟨stream, datagram⟩ := unreplied more replies
  have input := unwritten more writes
  obtain ⟨noStream, noDatagram, frame⟩ := messageEffects_kinds p flag data env
  refine ⟨?_, ?_, ?_⟩
  · simp [List.filterMap_append, noStream, stream, queued, session]
  · simp [List.filterMap_append, noDatagram, datagram, queued, waiting, session, dgrams]
  · simpa [List.filterMap_append, input] using frame

theorem bind_dgrams (p : WtdPeer) (stream : Nat) : (bindDataStream p stream).dgrams = p.dgrams := by
  unfold bindDataStream
  split_ifs <;> rfl

theorem postStream_carries (p : WtdPeer) (stream : Nat) (bytes : List UInt8) (env : DeliverEnv)
    (fin : Bool) :
    Carries (some p) (some (postStream p stream bytes env fin).1)
      (postStream p stream bytes env fin).2 [] [canonicalFrame wtdFrameFlagReliable bytes] := by
  by_cases control : stream = p.controlStreamId
  · have same : postStream p stream bytes env fin = (p, []) := by simp [postStream, control]
    rw [same]
    exact .silent rfl rfl (.refl _) (.refl _) _
  · have session := (bind_fields p stream).1
    have dgrams := bind_dgrams p stream
    rw [postStream_eq p stream bytes env fin control]
    apply message_carries
    · cases fin <;> simp [inputClosed, session]
    · cases fin <;> simp [inputClosed, dgrams]
    · cases fin && closesStdin p <;> rfl
    · cases fin && closesStdin p <;> rfl

def streamCall : TransportCall -> Option (List UInt8)
  | .sendStream data _ => some data
  | _ => none

def datagramCall : TransportCall -> Option (List UInt8)
  | .sendDatagram data _ => some data
  | _ => none

theorem filterMap_cons_toList {A B : Type} (f : A -> Option B) (a : A) (rest : List A) :
    (a :: rest).filterMap f = (f a).toList ++ rest.filterMap f := by
  rw [List.filterMap_cons]
  cases f a <;> rfl

theorem flushFrames_data (ret : Nat -> Int) (i : Nat) (frames : List OutboundFrame) :
    (flushFrames ret i frames).filterMap streamCall = frames.filterMap streamOf ∧
      (flushFrames ret i frames).filterMap datagramCall = frames.filterMap datagramOf := by
  induction frames generalizing i with
  | nil => exact ⟨rfl, rfl⟩
  | cons f rest ih =>
    obtain ⟨stream, datagram⟩ := ih (i + 1)
    simp only [flushFrames, filterMap_cons_toList, stream, datagram]
    by_cases reliable : f.flag = wtdFrameFlagReliable <;>
      simp [sendFrame, reliable, streamCall, streamOf, datagramCall, datagramOf]

theorem transportCall_data (p : WtdPeer) (call : TransportCall) :
    ((transportCall p call).2.filterMap streamReply).Sublist (streamCall call).toList ∧
      (transportCall p call).2.filterMap datagramReply = [] ∧
      (transportCall p call).1.dgrams.Sublist (p.dgrams ++ (datagramCall call).toList) ∧
      (transportCall p call).1.session = p.session := by
  cases call with
  | sendStream data ret =>
    simp only [transportCall, peerSendStream]
    split_ifs <;> simp [streamReply, datagramReply, streamCall, datagramCall]
  | sendDatagram data ret =>
    simp only [transportCall, peerSendDatagram]
    split_ifs <;> simp [streamReply, datagramReply, streamCall, datagramCall]
  | sendFin ret =>
    simp only [transportCall, peerSendFin]
    split_ifs <;> simp [streamReply, datagramReply, streamCall, datagramCall]

theorem carryOut_data (p : WtdPeer) (calls : List TransportCall) :
    ((carryOut transportCall p calls).2.filterMap streamReply).Sublist
        (calls.filterMap streamCall) ∧
      (carryOut transportCall p calls).2.filterMap datagramReply = [] ∧
      (carryOut transportCall p calls).1.dgrams.Sublist
        (p.dgrams ++ calls.filterMap datagramCall) ∧
      (carryOut transportCall p calls).1.session = p.session := by
  induction calls generalizing p with
  | nil => simp [carryOut]
  | cons call rest ih =>
    obtain ⟨stream, datagram, dgrams, session⟩ := transportCall_data p call
    obtain ⟨stream', datagram', dgrams', session'⟩ := ih (transportCall p call).1
    simp only [carryOut, List.filterMap_append, filterMap_cons_toList]
    refine ⟨stream.append stream', by rw [datagram, datagram']; rfl, ?_, session'.trans session⟩
    rw [← List.append_assoc]
    exact dgrams'.trans (dgrams.append_right _)

theorem pump_data (s : WtdSession) (env : PumpEnv) :
    (wtdSessionPump s env).1.outbound = [] ∧
      (wtdSessionPump s env).2.filterMap streamCall = s.outbound.filterMap streamOf ∧
      (wtdSessionPump s env).2.filterMap datagramCall = s.outbound.filterMap datagramOf := by
  obtain ⟨stream, datagram⟩ := flushFrames_data env.data 0 s.outbound
  simp only [wtdSessionPump, wtdWorkQueueDrain]
  split_ifs <;> simp [stream, datagram, streamCall, datagramCall]

theorem peerPump_carries (p : WtdPeer) (mallocs : Nat -> Bool) :
    Carries (some p) (some (peerPump p mallocs).1) (peerPump p mallocs).2 [] [] := by
  obtain ⟨empty, frames, datagrams⟩ := pump_data p.session (transportPort p mallocs)
  obtain ⟨stream, datagram, dgrams, session⟩ := carryOut_data
    { p with session := (wtdSessionPump p.session (transportPort p mallocs)).1 }
    (wtdSessionPump p.session (transportPort p mallocs)).2
  rw [frames] at stream
  rw [datagrams] at dgrams
  have writes := ChildDeath.transportCall_write
    { p with session := (wtdSessionPump p.session (transportPort p mallocs)).1 }
    (wtdSessionPump p.session (transportPort p mallocs)).2
  refine ⟨?_, ?_, ?_⟩
  · simpa [peerPump, queued, session, empty] using stream
  · simpa [peerPump, queued, waiting, session, empty, datagram] using dgrams
  · simp [peerPump, unwritten _ writes]

theorem provideDatagram_carries (p : WtdPeer) (granted : Bool) :
    Carries (some p) (some (provideDatagram p granted).1) (provideDatagram p granted).2 [] [] := by
  rcases dgrams : p.dgrams with _ | ⟨d, _ | ⟨e, rest⟩⟩ <;> cases granted <;>
    refine ⟨?_, ?_, ?_⟩ <;>
    simp [provideDatagram, dgrams, queued, waiting, streamReply, datagramReply, childInput]

theorem callback_carries (p : Option WtdPeer) (event : Event) :
    Carries p (wtSessionCb p event).1 (wtSessionCb p event).2.1 []
      (clientMessage (.callback event)).toList := by
  cases event with
  | connect stream env => exact connect_carries p stream env
  | postData stream bytes env =>
    cases p with
    | none => exact .silent rfl rfl (.refl _) (.refl _) _
    | some p => exact postStream_carries p stream bytes env false
  | postFin stream bytes env =>
    cases p with
    | none => exact .silent rfl rfl (.refl _) (.refl _) _
    | some p => exact postStream_carries p stream bytes env true
  | postDatagram bytes env =>
    cases p with
    | none => exact .silent rfl rfl (.refl _) (.refl _) _
    | some p =>
      by_cases filled : bytes.length > 0
      · have delivered := deliver_message p wtdFrameFlagUnreliable bytes env (.inr rfl)
        simp only [wtSessionCb, filled, if_true, wtdSessionDeliverDatagram, delivered]
        have carried := message_carries p p wtdFrameFlagUnreliable bytes env [] rfl rfl rfl rfl
        rw [List.append_nil] at carried
        exact carried
      · simp only [wtSessionCb, filled, if_false]
        exact .silent rfl rfl (.refl _) (.refl _) _
  | provideData mallocs =>
    cases p with
    | none => exact .silent rfl rfl (.refl _) (.refl _) _
    | some p => exact peerPump_carries p mallocs
  | provideDatagram granted =>
    cases p with
    | none => exact .silent rfl rfl (.refl _) (.refl _) _
    | some p => exact provideDatagram_carries p granted
  | deregister waits =>
    cases p with
    | none => exact .silent rfl rfl (.refl _) (.refl _) _
    | some p =>
      refine .silent (peerRemove_unreplied p waits) (ChildDeath.peerRemove_write p waits) ?_ ?_ _
      · exact List.nil_sublist _
      · exact List.nil_sublist _
  | unhandled => cases p <;> exact .silent rfl rfl (.refl _) (.refl _) _

def Turn (p : Option WtdPeer) (b : ConversationStep) (q : Option WtdPeer)
    (effects : List Effect) : Prop :=
  conversationStep { peer := p, childExited := false, log := [] } b =
    some { peer := q, childExited := false, log := effects }

theorem Turn.cases {p q : Option WtdPeer} {b : ConversationStep} {effects : List Effect}
    (turn : Turn p b q effects) :
    (∃ event, b = .callback event ∧ (wtSessionCb p event).1 = q ∧
      (wtSessionCb p event).2.1 = effects) ∨
    (∃ mallocs, b = .loop mallocs ∧
      ((p = none ∧ q = none ∧ effects = []) ∨
        ∃ live, p = some live ∧ q = some (peerPump live mallocs).1 ∧
          (peerPump live mallocs).2 = effects)) ∨
    (∃ live session, p = some live ∧ q = some { live with session } ∧ effects = [] ∧
      ((∃ malloc flag payload, b = .output malloc flag payload ∧
        session = wtdSessionOnOutput live.session malloc flag payload) ∨
        b = .outputEof ∧ session = wtdSessionOnOutputEof live.session)) := by
  cases b with
  | callback event =>
    simp only [Turn, conversationStep, List.nil_append, Option.some.injEq,
      Conversation.mk.injEq] at turn
    exact .inl ⟨event, rfl, turn.1, turn.2.2⟩
  | loop mallocs =>
    refine .inr (.inl ⟨mallocs, rfl, ?_⟩)
    cases p with
    | none =>
      simp only [Turn, conversationStep, Option.some.injEq, Conversation.mk.injEq] at turn
      exact .inl ⟨rfl, turn.1.symm, turn.2.2.symm⟩
    | some live =>
      simp only [Turn, conversationStep, List.nil_append, Option.some.injEq,
        Conversation.mk.injEq] at turn
      exact .inr ⟨live, rfl, turn.1.symm, turn.2.2⟩
  | output malloc flag payload =>
    cases p with
    | none => simp [Turn, conversationStep] at turn
    | some live =>
      simp only [Turn, conversationStep, Option.map_some, Option.some.injEq,
        Conversation.mk.injEq] at turn
      exact .inr (.inr ⟨live, _, rfl, turn.1.symm, turn.2.2.symm,
        .inl ⟨malloc, flag, payload, rfl, rfl⟩⟩)
  | outputEof =>
    cases p with
    | none => simp [Turn, conversationStep] at turn
    | some live =>
      simp only [Turn, conversationStep, Option.map_some, Option.some.injEq,
        Conversation.mk.injEq] at turn
      exact .inr (.inr ⟨live, _, rfl, turn.1.symm, turn.2.2.symm, .inr ⟨rfl, rfl⟩⟩)
  | childExit =>
    simp only [Turn, conversationStep] at turn
    split_ifs at turn
    simp at turn

theorem Turn.carries {p q : Option WtdPeer} {b : ConversationStep} {effects : List Effect}
    (turn : Turn p b q effects) :
    Carries p q effects (childOutput b).toList (clientMessage b).toList := by
  rcases turn.cases with ⟨event, rfl, rfl, rfl⟩ | ⟨mallocs, rfl, alone | ⟨live, rfl, rfl, rfl⟩⟩ |
    ⟨live, session, rfl, rfl, rfl, ⟨malloc, flag, payload, rfl, rfl⟩ | ⟨rfl, rfl⟩⟩
  · exact callback_carries p event
  · obtain ⟨rfl, rfl, rfl⟩ := alone
    exact .silent rfl rfl (.refl _) (.refl _) []
  · exact peerPump_carries live mallocs
  · cases malloc <;> refine ⟨?_, ?_, ?_⟩ <;>
      simp [queued, waiting, childOutput, wtdSessionOnOutput, wtdWorkQueuePush]
  · refine ⟨?_, ?_, ?_⟩ <;> simp [queued, waiting, childOutput, wtdSessionOnOutputEof]

end WebTransportD.CrossTalk
