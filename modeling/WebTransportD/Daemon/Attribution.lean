import WebTransportD.Daemon.CrossTalk
import WebTransportD.Daemon.DescriptorOwnership
import WebTransportD.Daemon.ReplyStream
import WebTransportD.Daemon.SessionIsolation

set_option autoImplicit false

namespace WebTransportD.Attribution

open WebTransportD.Frame Session ChildProcess ChildSpawn TransportPeer Execution CrossTalk
open Descriptors (Table Entry)
open DescriptorOwnership (ConnectCalls Gone Ledger PeerFds Settled inOrder orderStep spawnedOf
  tableAfter)
open PeerRegistry (Server ServerStep emptyServer serverStep setAt setAt_apply)
open ReplyStream (postedOn sentOn)
open SessionIsolation
open SessionTeardown (ConversationStep)

-- A connection with the stream of its CONNECT.
abbrev SessionId := Nat × Nat

-- What passed in and out of the daemon: on a stream or a datagram, with the session it belongs to,
-- and by a descriptor, with the file that the descriptor was open on.
inductive Deed where
  | opened (child : Nat) (session : SessionId)
  | received (session : Option SessionId) (flag : UInt8) (bytes : List UInt8)
  | wrote (file : Option File) (data : List UInt8)
  | read (file : Option File) (frame : OutboundFrame)
  | sentStream (session : Option SessionId) (data : List UInt8)
  | sentDatagram (session : Option SessionId) (data : List UInt8)
  deriving DecidableEq

-- `child` is the number of the spawn made for a peer, `home` its cnx and control stream. `session`
-- is which session a stream of a connection belongs to.
structure World where
  server : Server
  table : Table File
  spawned : Nat
  child : Nat -> Nat
  home : Nat -> SessionId
  session : Nat -> Nat -> Option SessionId
  deeds : List Deed

inductive WorldStep where
  | connect (cnx stream : Nat) (calls : ConnectCalls)
  | server (a : ServerStep)
  | output (peer : Nat) (malloc : Bool) (flag : UInt8) (payload : List UInt8)
  | outputEof (peer : Nat)

def fileAt (table : Table File) (fd : Int) : Option File :=
  if 0 ≤ fd then (table fd.toNat).map Entry.file else none

-- `target` is the session whose datagram callback is running.
def World.deedsOf (w : World) (target : Option SessionId) (e : Nat × Effect) : List Deed :=
  match e.2 with
  | .sys (.write fd data _) => [.wrote (fileAt w.table fd) data]
  | .addToStream stream data false => [.sentStream (w.session (w.home e.1).1 stream) data]
  | .provideDatagram data true => [.sentDatagram target data]
  | _ => []

def World.perform (target : Option SessionId) (w : World) (e : Nat × Effect) : World :=
  { w with table := tableAfter w.table e.2, deeds := w.deeds ++ w.deedsOf target e }

theorem performed_server (target : Option SessionId) (effects : List (Nat × Effect)) (w : World) :
    (effects.foldl (World.perform target) w).server = w.server := by
  induction effects generalizing w with
  | nil => rfl
  | cons e rest ih => exact ih _

def World.received (w : World) : ServerStep -> List Deed
  | .onStream cnx stream (.postData bytes _) | .onStream cnx stream (.postFin bytes _) =>
      [.received (w.session cnx stream) wtdFrameFlagReliable bytes]
  | .onDatagram cnx control (.postDatagram bytes _) =>
      [.received (some (cnx, control)) wtdFrameFlagUnreliable bytes]
  | _ => []

def target : ServerStep -> Option SessionId
  | .onDatagram cnx control _ => some (cnx, control)
  | _ => none

def World.routed (w : World) : ServerStep -> Nat -> Nat -> Option SessionId
  | .join cnx stream control => setAt w.session cnx stream (some (cnx, control))
  | _ => w.session

def World.serve (w : World) (a : ServerStep) : Option World :=
  (serverStep w.server a).map fun server =>
    (serverEffects w.server a).foldl (World.perform (target a))
      { w with server, session := w.routed a, deeds := w.deeds ++ w.received a }

-- A stream joins one session, once. A connect comes with the calls of its spawn instead.
def World.admits (w : World) : ServerStep -> Bool
  | .connect _ _ _ => false
  | .join cnx stream _ => (w.session cnx stream).isNone
  | _ => true

def World.spawn (w : World) (limit : Nat) (calls : ConnectCalls) : World × Option Spawned :=
  if calls.malloc then
    let made := wtdChildSpawn limit w.spawned calls.spawn w.table
    ({ w with table := made.table, spawned := w.spawned + 1 }, spawnedOf made)
  else (w, none)

def connectEnv (calls : ConnectCalls) (spawn : Option Spawned) : ConnectEnv :=
  { malloc := calls.malloc, spawn, outputStart := calls.outputStart
    declarePrefix := calls.declarePrefix, waits := calls.waits }

def World.naming (w : World) (peer child : Nat) (session : SessionId) : World :=
  { w with
    child := Function.update w.child peer child
    home := Function.update w.home peer session
    session := setAt w.session session.1 session.2 (some session) }

def World.open (w : World) (peer child : Nat) (session : SessionId) : World :=
  if (w.server.heap peer).isSome then { w with deeds := w.deeds ++ [.opened child session] } else w

def World.outputOf (w : World) (peer : Nat) : Option File :=
  (w.server.heap peer).bind fun cell => fileAt w.table cell.value.child.stdoutFd

def worldStep (limit : Nat) (w : World) : WorldStep -> Option World
  | .connect cnx stream calls =>
      -- h3zero accepts one CONNECT on a stream.
      if (w.session cnx stream).isSome then none
      else
        let made := w.spawn limit calls
        let peer := w.server.allocations
        ((made.1.naming peer w.spawned (cnx, stream)).serve
          (.connect cnx stream (connectEnv calls made.2))).map fun n =>
            n.open peer w.spawned (cnx, stream)
  | .server a => if w.admits a then w.serve a else none
  | .output peer malloc flag payload =>
      (w.server.access peer fun p =>
        { p with session := wtdSessionOnOutput p.session malloc flag payload }).map fun server =>
          { w with server, deeds := w.deeds ++ [.read (w.outputOf peer) { flag, payload }] }
  | .outputEof peer =>
      (w.server.access peer fun p =>
        { p with session := wtdSessionOnOutputEof p.session }).map fun server =>
          { w with server }

def start (files : Table Nat) : World :=
  { server := emptyServer
    table := (startDaemon files).table
    spawned := 0
    child := fun _ => 0
    home := fun _ => (0, 0)
    session := fun _ _ => none
    deeds := [] }

def streamTo (session : SessionId) : Deed -> Option (List UInt8)
  | .sentStream dest data => if dest = some session then some data else none
  | _ => none

def datagramTo (session : SessionId) : Deed -> Option (List UInt8)
  | .sentDatagram dest data => if dest = some session then some data else none
  | _ => none

def receivedFrom (session : SessionId) : Deed -> Option (List UInt8)
  | .received source flag bytes =>
      if source = some session then some (canonicalFrame flag bytes) else none
  | _ => none

def writtenInto (child : Nat) : Deed -> Option (List UInt8)
  | .wrote file data => if file = some (.pipeEnd child .stdin .writing) then some data else none
  | _ => none

def readFrom (child : Nat) : Deed -> Option OutboundFrame
  | .read file frame => if file = some (.pipeEnd child .stdout .reading) then some frame else none
  | _ => none

def Placed (deeds : List Deed) : Deed -> Prop
  | .opened _ _ | .received _ _ _ => True
  | .wrote file _ => ∃ child session, .opened child session ∈ deeds ∧
      file = some (.pipeEnd child .stdin .writing)
  | .read file _ => ∃ child session, .opened child session ∈ deeds ∧
      file = some (.pipeEnd child .stdout .reading)
  | .sentStream dest _ | .sentDatagram dest _ => ∃ child session, .opened child session ∈ deeds ∧
      dest = some session

theorem Placed.more {deeds : List Deed} {d : Deed} (placed : Placed deeds d) (rest : List Deed) :
    Placed (deeds ++ rest) d := by
  cases d with
  | opened | received => trivial
  | _ =>
    obtain ⟨child, session, opened, named⟩ := placed
    exact ⟨child, session, List.mem_append_left _ opened, named⟩

-- Effects as they should come out: to the child and to the session of the peer they are for.
def attributed (child : Nat) (session : SessionId) : Effect -> List Deed
  | .sys (.write _ data _) => [.wrote (some (.pipeEnd child .stdin .writing)) data]
  | .addToStream _ data false => [.sentStream (some session) data]
  | .provideDatagram data true => [.sentDatagram (some session) data]
  | _ => []

structure Proper (w : World) (target : Option SessionId) (e : Nat × Effect) : Prop where
  stream : ∀ stream data, e.2 = .addToStream stream data false ->
    w.session (w.home e.1).1 stream = some (w.home e.1)
  datagram : ∀ data, e.2 = .provideDatagram data true -> target = some (w.home e.1)

theorem fileAt_owned {table : Table File} {records : Nat -> PeerFds}
    (ledger : Ledger table fun k => (records k).child) (k : Nat) (role : Role) (fd : Int)
    (positive : 0 ≤ fd) (field : role.fd (records k).child = fd) :
    fileAt table fd = some (.pipeEnd k role role.daemonSide) := by
  have owned := ledger.owns k role fd.toNat (by simpa [positive] using field)
  simpa [fileAt, positive] using owned

theorem deedsOf_attributed (w : World) (target : Option SessionId) (e : Nat × Effect)
    (records : Nat -> PeerFds) (ledger : Ledger w.table fun k => (records k).child)
    (ordered : inOrder (records (w.child e.1)) e.2 = true) (proper : Proper w target e) :
    w.deedsOf target e = attributed (w.child e.1) (w.home e.1) e.2 := by
  obtain ⟨id, effect⟩ := e
  cases effect with
  | sys call =>
    cases call with
    | write fd data ret =>
      simp only [inOrder, Bool.and_eq_true, decide_eq_true_eq] at ordered
      have owned := fileAt_owned ledger (w.child id) .stdin fd ordered.1 ordered.2
      simp only [World.deedsOf, attributed, owned]
      rfl
    | _ => rfl
  | addToStream stream data fin =>
    cases fin with
    | true => rfl
    | false => simp only [World.deedsOf, attributed, proper.stream stream data rfl]
  | provideDatagram data copied =>
    cases copied with
    | false => rfl
    | true => simp only [World.deedsOf, attributed, proper.datagram data rfl]
  | _ => rfl

-- Effects carried out by number and by stream come out as attributed, if each peer's are in order.
theorem performed_attributed (target : Option SessionId) (bound : Nat)
    (effects : List (Nat × Effect)) (w : World) (records : Nat -> PeerFds)
    (ledger : Ledger w.table fun k => (records k).child)
    (single : ∀ id < bound, ∀ other < bound, w.child id = w.child other -> id = other)
    (ordered : ∀ id < bound,
      ∃ goal, exec orderStep (records (w.child id)) (logOf id effects) = some goal)
    (inside : ∀ e ∈ effects, e.1 < bound) (proper : ∀ e ∈ effects, Proper w target e) :
    ∃ (table : Table File) (after : Nat -> PeerFds), effects.foldl (World.perform target) w =
        { w with
          table
          deeds := w.deeds ++ effects.flatMap fun e =>
            attributed (w.child e.1) (w.home e.1) e.2 } ∧
      Ledger table (fun k => (after k).child) ∧
      (∀ id < bound,
        exec orderStep (records (w.child id)) (logOf id effects) = some (after (w.child id))) ∧
      ∀ k, (∀ id < bound, w.child id ≠ k) -> after k = records k := by
  induction effects generalizing w records with
  | nil =>
    exact ⟨w.table, records, by simp, ledger, fun id below => rfl, fun k unused => rfl⟩
  | cons e rest ih =>
    obtain ⟨id, effect⟩ := e
    have below : id < bound := inside (id, effect) List.mem_cons_self
    have logged : logOf id ((id, effect) :: rest) = effect :: logOf id rest := by simp [logOf]
    have unlogged : ∀ other, other ≠ id ->
        logOf other ((id, effect) :: rest) = logOf other rest := by
      intro other apart
      simp [logOf, Ne.symm apart]
    obtain ⟨goal, run⟩ := ordered id below
    rw [logged, exec_cons] at run
    obtain ⟨next, taken, later⟩ := run
    obtain ⟨allowed, rfl⟩ : inOrder (records (w.child id)) effect = true ∧
        (records (w.child id)).after effect = next := by
      simpa [orderStep] using taken
    have here := deedsOf_attributed w target (id, effect) records ledger allowed
      (proper _ List.mem_cons_self)
    have others : ∀ other < bound, other ≠ id ->
        Function.update records (w.child id) ((records (w.child id)).after effect)
          (w.child other) = records (w.child other) := by
      intro other inBound apart
      have differ : w.child other ≠ w.child id := fun same =>
        apart (single other inBound id below same)
      simp [differ]
    have further := ih (w.perform target (id, effect))
      (Function.update records (w.child id) ((records (w.child id)).after effect))
      (ledger.effect (w.child id) effect allowed) single ?_
      (fun e member => inside e (List.mem_cons_of_mem _ member))
      (fun e member => ⟨(proper e (List.mem_cons_of_mem _ member)).stream,
        (proper e (List.mem_cons_of_mem _ member)).datagram⟩)
    · obtain ⟨table, after, performed, kept, goals, untouched⟩ := further
      refine ⟨table, after, ?_, kept, fun other inBound => ?_, fun k unused => ?_⟩
      · rw [List.foldl_cons, performed]
        simp [World.perform, here]
      · have reached := goals other inBound
        by_cases same : other = id
        · subst same
          rw [logged, exec_cons]
          exact ⟨_, taken, by simpa [World.perform] using reached⟩
        · rw [unlogged other same]
          simpa only [World.perform, others other inBound same] using reached
      · rw [untouched k unused]
        exact Function.update_of_ne (unused id below).symm _ _
    · intro other inBound
      by_cases same : other = id
      · subst same
        exact ⟨goal, by simpa [World.perform] using later⟩
      · obtain ⟨goal, run⟩ := ordered other inBound
        rw [unlogged other same] at run
        exact ⟨goal, by simpa only [World.perform, others other inBound same] using run⟩

def opens : ConversationStep -> Bool
  | .callback event => connects event
  | _ => false

theorem absent_callback (event : Event) (other : connects event = false) :
    wtSessionCb none event = (none, [], 0) := by
  cases event <;> simp [connects] at other <;> rfl

theorem turn_inOrder {p q : Option WtdPeer} {b : ConversationStep} {effects : List Effect}
    (turn : Turn p b q effects) (later : opens b = false) (h : PeerFds) (settled : Settled h p) :
    ∃ goal, exec orderStep h effects = some goal ∧ Settled goal q := by
  rcases turn.cases with ⟨event, rfl, rfl, rfl⟩ |
    ⟨mallocs, rfl, ⟨rfl, rfl, rfl⟩ | ⟨live, rfl, rfl, rfl⟩⟩ | ⟨live, session, rfl, rfl, rfl, -⟩
  · cases p with
    | none =>
      rw [absent_callback event later]
      exact ⟨h, rfl, settled⟩
    | some live => exact DescriptorOwnership.callback_inOrder live event later h settled
  · exact ⟨h, rfl, settled⟩
  · exact DescriptorOwnership.tracked_settled live _ _ h settled
      (DescriptorOwnership.pump_tracked live mallocs)
  · exact ⟨h, rfl, settled⟩

theorem turn_stream {p q : Option WtdPeer} {b : ConversationStep} {effects : List Effect}
    (turn : Turn p b q effects) (later : opens b = false) :
    (∀ stream ∈ sentOn effects, ∃ live, p = some live ∧ live.dataStreamId = stream ∧
      stream ≠ uint64Max) ∧
    ∀ next, q = some next -> ∃ live, p = some live ∧
      (next.dataStreamId = live.dataStreamId ∨ next.dataStreamId ∈ postedOn b) := by
  have moved : ∀ live next, p = some live -> ReplyStream.Moved live b next effects ->
      q = some next -> (∀ stream ∈ sentOn effects, ∃ live, p = some live ∧
        live.dataStreamId = stream ∧ stream ≠ uint64Max) ∧
      ∀ next, q = some next -> ∃ live, p = some live ∧
        (next.dataStreamId = live.dataStreamId ∨ next.dataStreamId ∈ postedOn b) := by
    intro live next here moved there
    refine ⟨fun stream sent => ?_, fun other same => ?_⟩
    · obtain ⟨rfl, bound, -⟩ := (moved.sent stream).mp sent
      exact ⟨live, here, rfl, bound⟩
    · obtain rfl : next = other := Option.some.inj (there.symm.trans same)
      refine ⟨live, here, ?_⟩
      rw [moved.data]
      cases postedOn b with
      | nil => exact .inl rfl
      | cons stream rest =>
        simp only [ReplyStream.boundTo]
        split_ifs <;> simp
  rcases turn.cases with ⟨event, rfl, result, made⟩ |
    ⟨mallocs, rfl, ⟨rfl, rfl, rfl⟩ | ⟨live, rfl, rfl, rfl⟩⟩ | ⟨live, session, rfl, rfl, rfl, -⟩
  · cases p with
    | none =>
      rw [absent_callback event later] at result made
      subst result made
      simp
    | some live =>
      by_cases within : SessionTeardown.inSession (.callback event) = true
      · obtain ⟨next, there, moves⟩ := ReplyStream.callback_moved live event within
        exact moved live next rfl (made ▸ moves) (result.symm.trans there)
      · cases event with
        | connect stream env => simp [opens, connects] at later
        | deregister waits =>
          subst result made
          refine ⟨fun stream sent => ?_, by simp [wtSessionCb]⟩
          obtain ⟨e, member, sends⟩ := List.mem_filterMap.mp sent
          have silent := List.any_eq_false.mp (peerRemove_unreplied live waits) e member
          cases e <;> simp_all [isReply, ReplyStream.sentStream]
        | _ => exact absurd rfl within
  · simp
  · exact moved live _ rfl (ReplyStream.pump_moved live _ mallocs rfl rfl rfl) rfl
  · exact ⟨by simp, fun next same => ⟨live, rfl, .inl (by simp [← Option.some.inj same])⟩⟩

theorem postStream_datagram (p : WtdPeer) (stream : Nat) (bytes : List UInt8) (env : DeliverEnv)
    (fin : Bool) : (postStream p stream bytes env fin).2.filterMap datagramReply = [] := by
  by_cases control : stream = p.controlStreamId
  · simp [postStream, control]
  · rw [PeerDelivery.postStream_eq p stream bytes env fin control, List.filterMap_append,
      (messageEffects_kinds _ _ _ _).2.1]
    cases fin && PeerDelivery.closesStdin p <;> rfl

theorem callback_datagram (p : WtdPeer) (event : Event) (later : connects event = false)
    (other : ∀ granted, event ≠ .provideDatagram granted) :
    (wtSessionCb (some p) event).2.1.filterMap datagramReply = [] := by
  cases event with
  | connect stream env => simp [connects] at later
  | provideDatagram granted => exact absurd rfl (other granted)
  | postData stream bytes env => exact postStream_datagram p stream bytes env false
  | postFin stream bytes env => exact postStream_datagram p stream bytes env true
  | postDatagram bytes env =>
    by_cases filled : bytes.length > 0
    · have delivered := PeerDelivery.deliver_message p wtdFrameFlagUnreliable bytes env (.inr rfl)
      simp only [wtSessionCb, filled, if_true, wtdSessionDeliverDatagram, delivered]
      exact (messageEffects_kinds p wtdFrameFlagUnreliable bytes env).2.1
    · simp [wtSessionCb, filled]
  | provideData mallocs => exact (carryOut_data _ _).2.1
  | deregister waits => exact (unreplied _ (peerRemove_unreplied p waits)).2
  | unhandled => rfl

theorem turn_datagram {p q : Option WtdPeer} {b : ConversationStep} {effects : List Effect}
    (turn : Turn p b q effects) (later : opens b = false) (data : List UInt8)
    (sent : .provideDatagram data true ∈ effects) :
    ∃ granted, b = .callback (.provideDatagram granted) := by
  have some : effects.filterMap datagramReply ≠ [] := by
    intro none
    have silent := List.filterMap_eq_nil_iff.mp none _ sent
    simp [datagramReply] at silent
  rcases turn.cases with ⟨event, rfl, rfl, rfl⟩ |
    ⟨mallocs, rfl, ⟨rfl, rfl, rfl⟩ | ⟨live, rfl, rfl, rfl⟩⟩ | ⟨live, session, rfl, rfl, rfl, -⟩
  · by_contra other
    cases p with
    | none => simp [absent_callback event later] at sent
    | some live =>
      refine some (callback_datagram live event later fun granted same => ?_)
      exact other ⟨granted, by rw [same]⟩
  · simp at sent
  · exact absurd (carryOut_data _ _).2.1 some
  · simp at sent

theorem turn_absent {q : Option WtdPeer} {b : ConversationStep} {effects : List Effect}
    (turn : Turn none b q effects) (later : opens b = false) : effects = [] := by
  rcases turn.cases with ⟨event, rfl, rfl, rfl⟩ |
    ⟨mallocs, rfl, ⟨-, -, rfl⟩ | ⟨live, missing, -⟩⟩ | ⟨live, session, missing, -⟩
  · rw [absent_callback event later]
  · rfl
  · simp at missing
  · simp at missing

-- What a step of the server or of a reader is for one peer, where nothing is an unhandled event.
def stepOf (id : Nat) (s : Server) (a : HostStep) : ConversationStep :=
  (stepFor id { server := s, log := [] } a).getD (.callback .unhandled)

theorem isolated_turn (id : Nat) (s t : Server) (a : HostStep) (effects : List (Nat × Effect))
    (isolated : Isolated id { server := s, log := [] }
      (stepFor id { server := s, log := [] } a) { server := t, log := effects }) :
    Turn (valueAt s.heap id) (stepOf id s a) (valueAt t.heap id) (logOf id effects) := by
  obtain ⟨-, matched, silent⟩ := isolated
  cases kind : stepFor id { server := s, log := [] } a with
  | some b =>
    rw [stepOf, kind]
    exact matched b kind
  | none =>
    have same := silent kind
    simp only [conversationOf, SessionTeardown.Conversation.mk.injEq] at same
    rw [stepOf, kind, show valueAt t.heap id = valueAt s.heap id from same.1,
      show logOf id effects = [] from same.2.2]
    cases valueAt s.heap id <;> rfl

theorem intact_turns (s t : Server) (a : HostStep) (effects : List (Nat × Effect))
    (listed : Listed s) (intact : t.fault = false)
    (taken : hostStep (fun h _ => h) { server := s, log := [] } a =
      some { server := t, log := effects }) :
    Listed t ∧
      ∀ id, Turn (valueAt s.heap id) (stepOf id s a) (valueAt t.heap id) (logOf id effects) := by
  have well : intactStep (fun h _ => h) { server := s, log := [] } a =
      some { server := t, log := effects } :=
    (restricted_iff _ _ _ _ _).mpr ⟨by simp [taken, Host.intact, intact], taken⟩
  have isolated := fun id => hostStep_isolated (fun h _ => h) id _ a _ listed well
  exact ⟨(isolated 0).1, fun id => isolated_turn id s t a effects (isolated id)⟩

theorem serve_turns (s t : Server) (a : ServerStep) (listed : Listed s)
    (step : serverStep s a = some t) (intact : t.fault = false) :
    Listed t ∧ ∀ id, Turn (valueAt s.heap id) (stepOf id s (.server a)) (valueAt t.heap id)
      (logOf id (serverEffects s a)) :=
  intact_turns s t (.server a) _ listed intact (by simp [hostStep, step, intact])

theorem access_turns (s t : Server) (peer : Nat) (f : WtdPeer -> WtdPeer) (a : HostStep)
    (listed : Listed s) (taken : s.access peer f = some t) (intact : t.fault = false)
    (same : hostStep (fun h _ => h) { server := s, log := [] } a =
      (s.access peer f).map fun t => { server := t, log := [] }) :
    Listed t ∧
      ∀ id, Turn (valueAt s.heap id) (stepOf id s a) (valueAt t.heap id) (logOf id []) :=
  intact_turns s t a [] listed intact (by rw [same, taken]; rfl)

def names (s : Server) : Nat × (Nat -> Nat -> Option Nat) × (Nat -> Nat -> Option Nat) :=
  (s.allocations, s.prefixCtx, s.streamCtx)

theorem access_names (s t : Server) (id : Nat) (f : WtdPeer -> WtdPeer)
    (taken : s.access id f = some t) : names t = names s := by
  cases here : s.heap id with
  | none => simp [Server.access, here] at taken
  | some cell =>
    simp only [Server.access, here, Option.some.injEq] at taken
    rw [← taken]
    rfl

theorem peerRemove_names (s t : Server) (id : Nat) (taken : s.peerRemove id = some t) :
    names t = names s := by
  simp only [Server.peerRemove] at taken
  split at taken
  · simp at taken
  · split at taken
    · simp at taken
    · rw [← Option.some.inj taken]
      rfl

theorem settle_names (s : Server) (result : Option Server)
    (kept : ∀ t, result = some t -> names t = names s) : names (s.settle result) = names s := by
  cases result with
  | none => rfl
  | some t => exact kept t rfl

theorem callback_names (s : Server) (ctx : Option Nat) (event : Event) :
    names (s.settle (s.callback ctx event)) = names s := by
  apply settle_names
  intro t taken
  cases ctx with
  | none => rw [← Option.some.inj taken]
  | some id =>
    simp only [Server.callback] at taken
    split_ifs at taken
    · split at taken
      · exact peerRemove_names s t id taken
      · exact access_names s t id _ taken
    · rw [← Option.some.inj taken]

theorem loop_names (s : Server) (mallocs : Nat -> Nat -> Bool) :
    names (s.settle (s.serverLoopCb mallocs)) = names s := by
  apply settle_names
  intro t taken
  simp only [Server.serverLoopCb] at taken
  split at taken
  · simp at taken
  · rw [← Option.some.inj taken]
    rfl

structure Kept (s t : Server) (a : ServerStep) : Prop where
  allocations : t.allocations = s.allocations
  prefixes : ∀ cnx control id, t.prefixCtx cnx control = some id ->
    s.prefixCtx cnx control = some id
  streams : ∀ cnx stream id, t.streamCtx cnx stream = some id ->
    s.streamCtx cnx stream = some id ∨
      ∃ control, a = .join cnx stream control ∧ s.prefixCtx cnx control = some id

theorem kept_of_names {s t : Server} (a : ServerStep) (same : names t = names s) :
    Kept s t a := by
  simp only [names, Prod.mk.injEq] at same
  obtain ⟨allocations, prefixes, streams⟩ := same
  exact ⟨allocations, fun _ _ _ named => prefixes ▸ named,
    fun _ _ _ named => .inl (streams ▸ named)⟩

theorem serverStep_kept (s t : Server) (a : ServerStep) (step : serverStep s a = some t)
    (later : ∀ cnx stream env, a ≠ .connect cnx stream env) : Kept s t a := by
  have running := serverStep_running s t a step
  simp only [serverStep, running, Bool.false_eq_true, if_false] at step
  cases a with
  | connect cnx stream env => exact absurd rfl (later cnx stream env)
  | post cnx stream =>
    obtain ⟨-, rfl⟩ := (PeerRegistry.onOpen_eq_some s cnx _ t).mp step
    exact kept_of_names _ rfl
  | onStream cnx stream event =>
    obtain ⟨-, rfl⟩ := (PeerRegistry.onOpen_eq_some s cnx _ t).mp step
    exact kept_of_names _ (callback_names s _ _)
  | onDatagram cnx control event =>
    cases named : s.prefixCtx cnx control with
    | none => simp [PeerRegistry.eventStep, named] at step
    | some id =>
      simp only [PeerRegistry.eventStep, named] at step
      obtain ⟨-, rfl⟩ := (PeerRegistry.onOpen_eq_some s cnx _ t).mp step
      exact kept_of_names _ (callback_names s _ _)
  | join cnx stream control =>
    cases named : s.prefixCtx cnx control with
    | none => simp [PeerRegistry.eventStep, named] at step
    | some id =>
      simp only [PeerRegistry.eventStep, named] at step
      obtain ⟨-, rfl⟩ := (PeerRegistry.onOpen_eq_some s cnx _ t).mp step
      refine ⟨rfl, fun _ _ _ known => known, fun other number peer bound => ?_⟩
      simp only [Server.joined, setAt_apply] at bound
      split_ifs at bound with here
      · obtain ⟨rfl, rfl⟩ := here
        exact .inr ⟨control, rfl, named.trans bound⟩
      · exact .inl bound
  | deregister cnx control waits =>
    cases named : s.prefixCtx cnx control with
    | none => simp [PeerRegistry.eventStep, named] at step
    | some id =>
      simp only [PeerRegistry.eventStep, named, Option.some.injEq] at step
      have same := callback_names (s.deleteStreamPrefix cnx control) (some id) (.deregister waits)
      rw [step] at same
      obtain ⟨allocations, prefixes, streams⟩ := kept_of_names (.free cnx control) same
      refine ⟨allocations, fun other number peer known => ?_, fun other number peer bound => ?_⟩
      · have known := prefixes other number peer known
        simp only [Server.deleteStreamPrefix, setAt_apply] at known
        split_ifs at known
        exact known
      · exact (streams other number peer bound).imp_right (by simp)
  | free cnx stream =>
    obtain rfl := Option.some.inj step
    exact kept_of_names _ (callback_names s _ _)
  | loop mallocs =>
    obtain rfl := Option.some.inj step
    exact kept_of_names _ (loop_names s mallocs)

theorem connect_names (s : Server) (cnx stream : Nat) (env : ConnectEnv) :
    names (s.settle (s.connect cnx stream env)) = names s ∨
      env.malloc = true ∧
      (s.settle (s.connect cnx stream env)).allocations = s.allocations + 1 ∧
      (s.settle (s.connect cnx stream env)).streamCtx =
        setAt s.streamCtx cnx stream (some s.allocations) ∧
      ((s.settle (s.connect cnx stream env)).prefixCtx = s.prefixCtx ∨
        (s.settle (s.connect cnx stream env)).prefixCtx =
          setAt s.prefixCtx cnx stream (some s.allocations)) := by
  cases made : (TransportPeer.peerCreate env).1 with
  | none =>
    rw [connect_refused s cnx stream env made]
    exact .inl rfl
  | some p =>
    have malloc : env.malloc = true := by
      by_contra failed
      rw [Bool.not_eq_true] at failed
      simp [TransportPeer.peerCreate, failed] at made
    rw [connect_created s cnx stream env p made]
    split_ifs
    · exact .inr ⟨malloc, rfl, rfl, .inr rfl⟩
    · cases removed : (s.added cnx stream { p with controlStreamId := stream }).peerRemove
        s.allocations with
      | none => exact .inl rfl
      | some t =>
        have same := peerRemove_names _ t _ removed
        simp only [names, Prod.mk.injEq] at same
        exact .inr ⟨malloc, same.1, same.2.2, .inl same.2.1⟩

end WebTransportD.Attribution
