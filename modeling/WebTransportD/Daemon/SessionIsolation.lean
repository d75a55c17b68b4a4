import WebTransportD.Daemon.PeerRegistry
import WebTransportD.Daemon.SessionTeardown
import WebTransportD.Shared.Simulation

set_option autoImplicit false

namespace WebTransportD.SessionIsolation

open Session TransportPeer Chain Execution Simulation PeerRegistry
open SessionTeardown (Conversation ConversationStep conversationStep)

structure Host where
  server : Server
  log : List (Nat × Effect)

def emptyHost : Host :=
  { server := emptyServer, log := [] }

inductive HostStep where
  | server (a : ServerStep)
  | output (peer : Nat) (malloc : Bool) (flag : UInt8) (payload : List UInt8)
  | outputEof (peer : Nat)

def tagged (peer : Nat) (effects : List Effect) : List (Nat × Effect) :=
  effects.map fun e => (peer, e)

def callbackEffects (s : Server) (peer : Nat) (event : Event) : List (Nat × Effect) :=
  match s.heap peer with
  | none => []
  | some cell => tagged peer (wtSessionCb (some cell.value) event).2.1

-- h3zero declares a prefix only once.
def declaring (s : Server) (cnx stream : Nat) (env : ConnectEnv) : ConnectEnv :=
  { env with declarePrefix := env.declarePrefix && (s.prefixCtx cnx stream).isNone }

-- What one step of the server does. A connect acts for the peer that it would be the first to
-- allocate; the loop goes through the peers in the order of the list.
def serverEffects (s : Server) : ServerStep -> List (Nat × Effect)
  | .connect cnx stream env =>
      tagged s.allocations (wtSessionCb none (.connect stream (declaring s cnx stream env))).2.1
  | .onStream cnx stream event =>
      (s.streamCtx cnx stream).elim [] fun peer => callbackEffects s peer (event.event stream)
  | .onDatagram cnx control event =>
      (s.prefixCtx cnx control).elim [] fun peer => callbackEffects s peer event.event
  | .deregister cnx control waits =>
      (s.prefixCtx cnx control).elim [] fun peer => callbackEffects s peer (.deregister waits)
  | .loop mallocs =>
      ((collect (s.allocations + 1) s.heap s.peers).getD []).flatMap fun cell =>
        tagged cell.1 (peerPump cell.2 (mallocs cell.1)).2
  | .post _ _ | .join _ _ _ | .free _ _ => []

def Host.faulty (h : Host) : Host :=
  { h with server := { h.server with fault := true } }

-- The steps of the network thread and of the readers. A reader runs as long as its peer is there:
-- `peer_remove` joins it first. What follows the use of a freed peer, whose memory may have become
-- another's, is up to `wreck`.
def hostStep (wreck : Host -> ServerStep -> Host) (h : Host) : HostStep -> Option Host
  | .server a =>
      (serverStep h.server a).map fun s =>
        if s.fault then (wreck h a).faulty
        else { server := s, log := h.log ++ serverEffects h.server a }
  | .output peer malloc flag payload =>
      (h.server.access peer fun p =>
        { p with session := wtdSessionOnOutput p.session malloc flag payload }).map fun s =>
          { h with server := s }
  | .outputEof peer =>
      (h.server.access peer fun p =>
        { p with session := wtdSessionOnOutputEof p.session }).map fun s => { h with server := s }

def logOf (peer : Nat) (log : List (Nat × Effect)) : List Effect :=
  log.filterMap fun e => if e.1 = peer then some e.2 else none

def conversationOf (peer : Nat) (h : Host) : Conversation :=
  { peer := (h.server.heap peer).map Cell.value, childExited := false, log := logOf peer h.log }

def ifLive (s : Server) (peer : Nat) (ctx : Option Nat) (event : Event) : Option ConversationStep :=
  if ctx = some peer ∧ (s.heap peer).isSome = true then some (.callback event) else none

def stepFor (peer : Nat) (h : Host) : HostStep -> Option ConversationStep
  | .server (.connect cnx stream env) =>
      if peer = h.server.allocations then
        some (.callback (.connect stream (declaring h.server cnx stream env)))
      else none
  | .server (.onStream cnx stream event) =>
      ifLive h.server peer (h.server.streamCtx cnx stream) (event.event stream)
  | .server (.onDatagram cnx control event) =>
      ifLive h.server peer (h.server.prefixCtx cnx control) event.event
  | .server (.deregister cnx control waits) =>
      ifLive h.server peer (h.server.prefixCtx cnx control) (.deregister waits)
  | .server (.loop mallocs) => some (.loop (mallocs peer))
  | .server _ => none
  | .output other malloc flag payload =>
      if other = peer then some (.output malloc flag payload) else none
  | .outputEof other => if other = peer then some .outputEof else none

theorem logOf_append (peer : Nat) (first second : List (Nat × Effect)) :
    logOf peer (first ++ second) = logOf peer first ++ logOf peer second :=
  List.filterMap_append

theorem logOf_tagged (peer other : Nat) (effects : List Effect) :
    logOf peer (tagged other effects) = if other = peer then effects else [] := by
  by_cases same : other = peer
  · simp [logOf, tagged, same, List.filterMap_map]
  · simp [logOf, tagged, same, List.filterMap_map]

structure Listed (s : Server) : Prop where
  exact : Exact s.heap s.peers
  bounded : ∀ id, (s.heap id).isSome = true -> id < s.allocations

theorem listed_empty : Listed emptyServer :=
  ⟨exact_empty, by simp [emptyServer]⟩

theorem Listed.fresh {s : Server} (listed : Listed s) : s.heap s.allocations = none := by
  by_contra present
  have below := listed.bounded s.allocations (Option.isSome_iff_ne_none.mpr present)
  omega

def valueAt (heap : Nat -> Option (Cell Nat WtdPeer)) (id : Nat) : Option WtdPeer :=
  (heap id).map Cell.value

theorem Listed.access {s t : Server} (listed : Listed s) (id : Nat) (f : WtdPeer -> WtdPeer)
    (taken : s.access id f = some t) :
    Listed t ∧ t.allocations = s.allocations ∧ t.prefixCtx = s.prefixCtx ∧
      ∀ other, valueAt t.heap other =
        if other = id then (valueAt s.heap other).map f else valueAt s.heap other := by
  cases here : s.heap id with
  | none => simp [Server.access, here] at taken
  | some cell =>
    simp only [Server.access, here, Option.some.injEq] at taken
    subst taken
    refine ⟨⟨listed.exact.set id cell _ here, fun other live => listed.bounded other ?_⟩, rfl, rfl,
      fun other => ?_⟩
    · by_cases same : other = id
      · simp [same, here]
      · simpa [same] using live
    · by_cases same : other = id
      · simp [valueAt, same, here]
      · simp [valueAt, same]

theorem Listed.peerRemove {s : Server} (listed : Listed s) (id : Nat) :
    (s.heap id = none ∧ s.peerRemove id = none) ∨
      ∃ t, s.peerRemove id = some t ∧ Listed t ∧ (s.heap id).isSome = true ∧
        ∀ other, valueAt t.heap other = if other = id then none else valueAt s.heap other := by
  cases here : s.heap id with
  | none =>
    refine .inl ⟨rfl, ?_⟩
    simp only [Server.peerRemove, unlink]
    cases search s.heap id (s.allocations + 1) none s.peers <;> simp [here]
  | some cell =>
    have live : (s.heap id).isSome = true := by simp [here]
    obtain ⟨heap, peers, done, exact, same⟩ := listed.exact.unlink id live (s.allocations + 1)
      (spells_length s.allocations listed.bounded)
    obtain ⟨removed, there⟩ := Option.isSome_iff_exists.mp ((same id).trans live)
    refine .inr ⟨{ s with heap := Function.update heap id none, peers },
      by simp only [Server.peerRemove, done, there], ⟨exact, fun other left => ?_⟩, rfl,
      fun other => ?_⟩
    · apply listed.bounded other
      by_cases eq : other = id
      · simp [eq] at left
      · simpa [eq, same] using left
    · by_cases eq : other = id
      · simp [valueAt, eq]
      · simpa [valueAt, eq] using unlink_values _ s.heap heap s.peers peers id other done

theorem logOf_cells (peer : Nat) (cells : List (Nat × WtdPeer))
    (effects : Nat × WtdPeer -> List Effect) (distinct : (addresses cells).Nodup) :
    (∀ p, (peer, p) ∈ cells ->
      logOf peer (cells.flatMap fun cell => tagged cell.1 (effects cell)) = effects (peer, p)) ∧
    (peer ∉ addresses cells ->
      logOf peer (cells.flatMap fun cell => tagged cell.1 (effects cell)) = []) := by
  induction cells with
  | nil => simp [logOf]
  | cons cell rest ih =>
    obtain ⟨id, p⟩ := cell
    obtain ⟨outside, distinct⟩ := List.nodup_cons.mp distinct
    obtain ⟨present, absent⟩ := ih distinct
    rw [List.flatMap_cons, logOf_append, logOf_tagged]
    constructor
    · intro q member
      rcases List.mem_cons.mp member with same | later
      · obtain ⟨rfl, rfl⟩ : peer = id ∧ q = p := by simpa using same
        simp [absent outside]
      · have other : id ≠ peer := by
          rintro rfl
          exact outside (List.mem_map.mpr ⟨_, later, rfl⟩)
        simp [other, present q later]
    · intro missing
      simp only [addresses_cons, List.mem_cons, not_or] at missing
      simp [Ne.symm missing.1, absent missing.2]

theorem Listed.serverLoopCb {s : Server} (listed : Listed s) (mallocs : Nat -> Nat -> Bool) :
    ∃ t, s.serverLoopCb mallocs = some t ∧ Listed t ∧
      ∀ id, valueAt t.heap id = (valueAt s.heap id).map (fun p => (peerPump p (mallocs id)).1) ∧
        logOf id (serverEffects s (.loop mallocs)) =
          (valueAt s.heap id).elim [] fun p => (peerPump p (mallocs id)).2 := by
  obtain ⟨cells, spelled, values⟩ := listed.exact.cells
  have enough := spells_length s.allocations listed.bounded cells spelled
  have distinct := spells_nodup _ _ cells spelled
  obtain ⟨after, done, exact, same⟩ := listed.exact.visit
    (fun id p => (peerPump p (mallocs id)).1) (s.allocations + 1)
    (spells_length s.allocations listed.bounded)
  obtain ⟨visited, again, kept, -⟩ := visit_spells (fun id p => (peerPump p (mallocs id)).1)
    (s.allocations + 1) s.heap s.peers cells spelled enough
  obtain rfl : after = visited := by simpa [done] using again
  refine ⟨{ s with heap := after }, by simp only [Server.serverLoopCb, done],
    ⟨exact, fun id live => listed.bounded id (by rwa [← same id])⟩, fun id => ?_⟩
  have effects : serverEffects s (.loop mallocs) = cells.flatMap fun cell =>
      tagged cell.1 (peerPump cell.2 (mallocs cell.1)).2 := by
    simp [serverEffects, collect_spells _ s.heap s.peers cells spelled enough]
  have logged := logOf_cells id cells (fun cell => (peerPump cell.2 (mallocs cell.1)).2) distinct
  cases here : valueAt s.heap id with
  | none =>
    have missing : s.heap id = none := by simpa [valueAt] using here
    have outside : id ∉ addresses cells := by
      intro member
      obtain ⟨cell, inside, rfl⟩ := List.mem_map.mp member
      have value := (values cell.1 cell.2).mp inside
      simp [missing] at value
    refine ⟨?_, by rw [effects, logged.2 outside]; rfl⟩
    have gone := same id
    simp only [missing, Option.isSome_none, Option.isSome_eq_false_iff, Option.isNone_iff_eq_none]
      at gone
    simp [valueAt, gone]
  | some p =>
    have member := (values id p).mpr here
    refine ⟨?_, by rw [effects, logged.1 p member]; rfl⟩
    obtain ⟨front, rest, split⟩ := List.append_of_mem member
    rw [split, List.map_append, List.map_cons] at kept
    obtain ⟨next, cell, -⟩ := spells_cell after s.peers _ id _ _ kept
    simp [valueAt, cell]

theorem unread_callback (p : WtdPeer) (event : Event) (other : connects event = false)
    (unread : readsPeer event = false) :
    (wtSessionCb (some p) event).1 = some p ∧ (wtSessionCb (some p) event).2.1 = [] := by
  cases event <;> simp [readsPeer, connects] at other unread <;> simp [wtSessionCb, unread]

theorem kept_callback (p : WtdPeer) (event : Event) (other : connects event = false)
    (kept : ∀ waits, event ≠ .deregister waits) :
    ∃ q, (wtSessionCb (some p) event).1 = some q := by
  cases event with
  | connect stream env => simp [connects] at other
  | deregister waits => exact absurd rfl (kept waits)
  | postDatagram bytes env =>
    by_cases some : bytes.length > 0 <;> simp [wtSessionCb, some]
  | _ => simp [wtSessionCb]

theorem Listed.callback {s : Server} (listed : Listed s) (id : Nat) (event : Event)
    (other : connects event = false) :
    Listed (s.settle (s.callback (some id) event)) ∧
      ∀ peer, valueAt (s.settle (s.callback (some id) event)).heap peer =
        if peer = id then (valueAt s.heap peer).bind fun p => (wtSessionCb (some p) event).1
        else valueAt s.heap peer := by
  by_cases reads : readsPeer event = true
  · by_cases leaving : ∃ waits, event = .deregister waits
    · obtain ⟨waits, rfl⟩ := leaving
      rcases listed.peerRemove id with ⟨gone, result⟩ | ⟨t, result, after, -, values⟩
      · simp only [Server.callback, reads, if_true, result, Server.settle, Option.getD_none]
        refine ⟨⟨listed.exact, listed.bounded⟩, fun peer => ?_⟩
        by_cases same : peer = id <;> simp [same, valueAt, gone]
      · simp only [Server.callback, reads, if_true, result, Server.settle, Option.getD_some]
        refine ⟨after, fun peer => ?_⟩
        by_cases same : peer = id <;> simp [values, same, wtSessionCb]
    · have kept : ∀ waits, event ≠ .deregister waits := fun waits same => leaving ⟨waits, same⟩
      have access : s.callback (some id) event =
          s.access id fun p => ((wtSessionCb (some p) event).1).getD p := by
        cases event with
        | deregister waits => exact absurd rfl (kept waits)
        | _ => simp [Server.callback, reads]
      rw [access]
      cases result : s.access id fun p => ((wtSessionCb (some p) event).1).getD p with
      | none =>
        have gone : s.heap id = none := by
          cases here : s.heap id <;> simp [Server.access, here] at result ⊢
        refine ⟨⟨listed.exact, listed.bounded⟩, fun peer => ?_⟩
        by_cases same : peer = id <;> simp [Server.settle, same, valueAt, gone]
      | some t =>
        obtain ⟨after, -, -, values⟩ := listed.access id _ result
        refine ⟨after, fun peer => ?_⟩
        rw [Server.settle, Option.getD_some, values]
        cases here : valueAt s.heap peer with
        | none => simp
        | some p =>
          obtain ⟨q, result⟩ := kept_callback p event other kept
          simp [result]
  · have unread : readsPeer event = false := by simpa using reads
    have same : s.settle (s.callback (some id) event) = s := by
      simp [Server.callback, unread, Server.settle]
    rw [same]
    refine ⟨listed, fun peer => ?_⟩
    cases here : valueAt s.heap peer with
    | none => simp
    | some p => simp [(unread_callback p event other unread).1]

def Isolated (peer : Nat) (h : Host) (c : Option ConversationStep) (n : Host) : Prop :=
  Listed n.server ∧
    (∀ b, c = some b -> conversationStep (conversationOf peer h) b = some (conversationOf peer n)) ∧
    (c = none -> conversationOf peer n = conversationOf peer h)

theorem logOf_callback (s : Server) (peer id : Nat) (event : Event) :
    logOf peer (callbackEffects s id event) =
      if id = peer then (valueAt s.heap peer).elim [] fun p => (wtSessionCb (some p) event).2.1
      else [] := by
  cases here : s.heap id with
  | none =>
    by_cases same : id = peer
    · simp [callbackEffects, here, logOf, valueAt, ← same]
    · simp [callbackEffects, here, logOf, same]
  | some cell =>
    by_cases same : id = peer
    · simp [callbackEffects, here, logOf_tagged, valueAt, ← same]
    · simp [callbackEffects, here, logOf_tagged, same]

theorem conversationOf_append (peer : Nat) (s : Server) (log more : List (Nat × Effect)) :
    conversationOf peer { server := s, log := log ++ more } =
      { peer := valueAt s.heap peer, childExited := false
        log := logOf peer log ++ logOf peer more } := by
  simp [conversationOf, valueAt, logOf_append]

theorem callback_isolated (peer : Nat) (h : Host) (s : Server) (ctx : Option Nat) (event : Event)
    (listed : Listed h.server) (heap : s.heap = h.server.heap) (peers : s.peers = h.server.peers)
    (allocations : s.allocations = h.server.allocations) (other : connects event = false) :
    Isolated peer h (ifLive h.server peer ctx event)
      { server := s.settle (s.callback ctx event)
        log := h.log ++ ctx.elim [] fun id => callbackEffects h.server id event } := by
  have here : Listed s := by
    refine ⟨?_, ?_⟩
    · rw [heap, peers]
      exact listed.exact
    · rw [heap, allocations]
      exact listed.bounded
  cases ctx with
  | none =>
    refine ⟨here, by simp [ifLive], fun _ => ?_⟩
    simp [conversationOf, Server.callback, Server.settle, heap]
  | some id =>
    obtain ⟨after, values⟩ := here.callback id event other
    have value := values peer
    rw [heap] at value
    have before : conversationOf peer h =
        { peer := valueAt h.server.heap peer, childExited := false, log := logOf peer h.log } := rfl
    refine ⟨after, fun b kind => ?_, fun kind => ?_⟩ <;>
      rw [conversationOf_append, value, Option.elim_some, logOf_callback]
    · simp only [ifLive, Option.some.injEq] at kind
      split_ifs at kind with named
      obtain ⟨rfl, live⟩ := named
      obtain ⟨cell, present⟩ := Option.isSome_iff_exists.mp live
      obtain rfl := Option.some.inj kind
      simp [before, conversationStep, valueAt, present]
    · simp only [ifLive, Option.some.injEq] at kind
      split_ifs at kind with named
      by_cases same : id = peer
      · have gone : valueAt h.server.heap peer = none := by
          simpa [same, valueAt] using named
        simp [before, gone]
      · simp [before, same, Ne.symm same]

theorem Listed.added {s : Server} (listed : Listed s) (cnx stream : Nat) (p : WtdPeer) :
    Listed (s.added cnx stream p) ∧
      ∀ peer, valueAt (s.added cnx stream p).heap peer =
        if peer = s.allocations then some p else valueAt s.heap peer := by
  refine ⟨⟨listed.exact.push s.allocations p listed.fresh, fun id live => ?_⟩, fun peer => ?_⟩
  · by_cases new : id = s.allocations
    · simp [Server.added, new]
    · have before := listed.bounded id (by simpa [Server.added, new] using live)
      exact Nat.lt_succ_of_lt before
  · by_cases new : peer = s.allocations <;> simp [valueAt, Server.added, new]

theorem connect_refused (s : Server) (cnx stream : Nat) (env : ConnectEnv)
    (failed : (TransportPeer.peerCreate env).1 = none) : s.connect cnx stream env = some s := by
  simp [Server.connect, Server.peerCreate, failed]

theorem connect_created (s : Server) (cnx stream : Nat) (env : ConnectEnv) (p : WtdPeer)
    (made : (TransportPeer.peerCreate env).1 = some p) :
    s.connect cnx stream env =
      if (declaring s cnx stream env).declarePrefix then
        some { s.added cnx stream { p with controlStreamId := stream } with
          prefixCtx := setAt s.prefixCtx cnx stream (some s.allocations)
          refused := setAt s.refused cnx stream false }
      else
        ((s.added cnx stream { p with controlStreamId := stream }).peerRemove s.allocations).map
          fun t => { t with refused := setAt t.refused cnx stream true } := by
  by_cases declared : (declaring s cnx stream env).declarePrefix = true <;>
    simp only [Server.connect, Server.peerCreate, made, Server.access, Function.update_self,
      Function.update_idem, Server.added, declared, if_true] <;>
    simp only [declaring] at declared
  · rw [if_pos declared]
  · rw [if_neg declared]
    split <;> simp_all

theorem Listed.connect {s : Server} (listed : Listed s) (cnx stream : Nat) (env : ConnectEnv) :
    Listed (s.settle (s.connect cnx stream env)) ∧
      ∀ peer, valueAt (s.settle (s.connect cnx stream env)).heap peer =
        if peer = s.allocations then
          (wtSessionCb none (.connect stream (declaring s cnx stream env))).1
        else valueAt s.heap peer := by
  have fresh : valueAt s.heap s.allocations = none := by simp [valueAt, listed.fresh]
  have create : TransportPeer.peerCreate (declaring s cnx stream env) =
      TransportPeer.peerCreate env := rfl
  rcases made : TransportPeer.peerCreate env with ⟨_ | p, effects⟩
  · rw [connect_refused s cnx stream env (by rw [made])]
    refine ⟨listed, fun peer => ?_⟩
    by_cases new : peer = s.allocations
    · simp [Server.settle, new, fresh, wtSessionCb, create, made]
    · simp [Server.settle, new]
  · rw [connect_created s cnx stream env p (by rw [made])]
    obtain ⟨added, values⟩ := listed.added cnx stream { p with controlStreamId := stream }
    cases declared : (declaring s cnx stream env).declarePrefix with
    | true =>
      refine ⟨⟨added.exact, added.bounded⟩, fun peer => ?_⟩
      rw [if_pos rfl, Server.settle, Option.getD_some, values]
      by_cases new : peer = s.allocations
      · simp [new, wtSessionCb, create, made, declared]
      · simp [new]
    | false =>
      rcases added.peerRemove s.allocations with ⟨gone, -⟩ | ⟨t, removed, after, -, left⟩
      · simp [Server.added] at gone
      · simp only [Bool.false_eq_true, if_false, removed, Option.map_some, Server.settle,
          Option.getD_some]
        refine ⟨⟨after.exact, after.bounded⟩, fun peer => ?_⟩
        rw [left, values]
        by_cases new : peer = s.allocations
        · simp [new, wtSessionCb, create, made, declared]
        · simp [new]

theorem connect_isolated (peer : Nat) (h : Host) (cnx stream : Nat) (env : ConnectEnv)
    (listed : Listed h.server) :
    Isolated peer h (stepFor peer h (.server (.connect cnx stream env)))
      { server := h.server.settle (h.server.connect cnx stream env)
        log := h.log ++ serverEffects h.server (.connect cnx stream env) } := by
  obtain ⟨after, values⟩ := listed.connect cnx stream env
  have before : conversationOf peer h =
      { peer := valueAt h.server.heap peer, childExited := false, log := logOf peer h.log } := rfl
  refine ⟨after, fun b kind => ?_, fun kind => ?_⟩ <;>
    rw [conversationOf_append, values, serverEffects, logOf_tagged]
  · simp only [stepFor] at kind
    split_ifs at kind with new
    obtain rfl := Option.some.inj kind
    have fresh : valueAt h.server.heap peer = none := by simp [valueAt, new, listed.fresh]
    simp [before, fresh, conversationStep, ← new]
  · simp only [stepFor] at kind
    split_ifs at kind with new
    simp [before, new, Ne.symm new]

theorem loop_isolated (peer : Nat) (h : Host) (mallocs : Nat -> Nat -> Bool)
    (listed : Listed h.server) :
    Isolated peer h (some (.loop (mallocs peer)))
      { server := h.server.settle (h.server.serverLoopCb mallocs)
        log := h.log ++ serverEffects h.server (.loop mallocs) } := by
  obtain ⟨t, done, after, each⟩ := listed.serverLoopCb mallocs
  obtain ⟨value, logged⟩ := each peer
  rw [done, Server.settle, Option.getD_some]
  refine ⟨after, fun b kind => ?_, by simp⟩
  obtain rfl := Option.some.inj kind
  rw [conversationOf_append, value, logged]
  cases here : valueAt h.server.heap peer with
  | none =>
    simp [conversationStep, conversationOf,
      show (h.server.heap peer).map Cell.value = none from here]
  | some p =>
    simp [conversationStep, conversationOf,
      show (h.server.heap peer).map Cell.value = some p from here]

theorem access_isolated (peer other : Nat) (h : Host) (f : WtdPeer -> WtdPeer)
    (b : ConversationStep) (t : Server) (listed : Listed h.server)
    (taken : h.server.access other f = some t)
    (own : ∀ c : Conversation,
      conversationStep c b = c.peer.map fun p => { c with peer := some (f p) }) :
    Isolated peer h (if other = peer then some b else none) { h with server := t } := by
  obtain ⟨after, -, -, values⟩ := listed.access other f taken
  have value := values peer
  refine ⟨after, fun c kind => ?_, fun kind => ?_⟩
  · split_ifs at kind with same
    obtain rfl := Option.some.inj kind
    subst same
    cases here : h.server.heap other with
    | none => simp [Server.access, here] at taken
    | some cell =>
      have now : (t.heap other).map Cell.value = some (f cell.value) := by
        simpa [valueAt, here] using value
      simp [own, conversationOf, here, now]
  · split_ifs at kind with same
    have now : (t.heap peer).map Cell.value = (h.server.heap peer).map Cell.value := by
      simpa [valueAt, Ne.symm same] using value
    simp [conversationOf, now]

theorem unseen_isolated (peer : Nat) (h : Host) (s : Server) (listed : Listed h.server)
    (heap : s.heap = h.server.heap) (peers : s.peers = h.server.peers)
    (allocations : s.allocations = h.server.allocations) :
    Isolated peer h none { server := s, log := h.log ++ [] } := by
  refine ⟨⟨?_, ?_⟩, by simp, fun _ => by simp [conversationOf, heap]⟩
  · rw [heap, peers]
    exact listed.exact
  · rw [heap, allocations]
    exact listed.bounded

variable (wreck : Host -> ServerStep -> Host)

def Host.intact (h : Host) : Bool :=
  !h.server.fault

theorem serverStep_running (s t : Server) (a : ServerStep) (taken : serverStep s a = some t) :
    s.fault = false := by
  by_contra fault
  simp [serverStep, fault] at taken

theorem access_fault (s t : Server) (id : Nat) (f : WtdPeer -> WtdPeer)
    (taken : s.access id f = some t) : t.fault = s.fault := by
  cases here : s.heap id with
  | none => simp [Server.access, here] at taken
  | some cell =>
    simp only [Server.access, here, Option.some.injEq] at taken
    rw [← taken]

theorem intact_kept (h : Host) (a : HostStep) (n : Host) (taken : hostStep wreck h a = some n)
    (well : n.intact = true) : h.intact = true := by
  cases a with
  | server a =>
    obtain ⟨s, step, -⟩ := Option.map_eq_some_iff.mp taken
    simp [Host.intact, serverStep_running h.server s a step]
  | output other malloc flag payload =>
    obtain ⟨t, access, rfl⟩ := Option.map_eq_some_iff.mp taken
    simpa [Host.intact, access_fault _ _ _ _ access] using well
  | outputEof other =>
    obtain ⟨t, access, rfl⟩ := Option.map_eq_some_iff.mp taken
    simpa [Host.intact, access_fault _ _ _ _ access] using well

def intactStep : Host -> HostStep -> Option Host :=
  restricted (hostStep wreck) fun h a => (hostStep wreck h a).all Host.intact

theorem intactStep_server (h : Host) (a : ServerStep) (n : Host)
    (taken : intactStep wreck h (.server a) = some n) :
    ∃ s, serverStep h.server a = some s ∧
      n = { server := s, log := h.log ++ serverEffects h.server a } := by
  obtain ⟨well, taken⟩ := (restricted_iff _ _ _ _ _).mp taken
  rw [taken, Option.all_some] at well
  obtain ⟨s, step, rfl⟩ := Option.map_eq_some_iff.mp taken
  cases fault : s.fault with
  | true => simp [fault, Host.intact, Host.faulty] at well
  | false => exact ⟨s, step, by simp⟩

theorem hostStep_isolated (peer : Nat) (h : Host) (a : HostStep) (n : Host)
    (listed : Listed h.server) (intact : intactStep wreck h a = some n) :
    Isolated peer h (stepFor peer h a) n := by
  have taken := ((restricted_iff _ _ _ _ _).mp intact).2
  cases a with
  | output other malloc flag payload =>
    obtain ⟨t, access, rfl⟩ := Option.map_eq_some_iff.mp taken
    exact access_isolated peer other h _ (.output malloc flag payload) t listed access fun _ => rfl
  | outputEof other =>
    obtain ⟨t, access, rfl⟩ := Option.map_eq_some_iff.mp taken
    exact access_isolated peer other h _ .outputEof t listed access fun _ => rfl
  | server a =>
    obtain ⟨s, step, rfl⟩ := intactStep_server wreck h a n intact
    have running := serverStep_running h.server s a step
    simp only [serverStep, running, Bool.false_eq_true, if_false] at step
    cases a with
    | connect cnx stream env =>
      obtain ⟨-, rfl⟩ := (onOpen_eq_some h.server cnx _ s).mp step
      exact connect_isolated peer h cnx stream env listed
    | onStream cnx stream event =>
      obtain ⟨-, rfl⟩ := (onOpen_eq_some h.server cnx _ s).mp step
      exact callback_isolated peer h h.server _ _ listed rfl rfl rfl (by cases event <;> rfl)
    | onDatagram cnx control event =>
      cases named : h.server.prefixCtx cnx control with
      | none => simp [eventStep, named] at step
      | some id =>
        simp only [eventStep, named] at step
        obtain ⟨-, rfl⟩ := (onOpen_eq_some h.server cnx _ s).mp step
        have acts := callback_isolated peer h h.server (some id) event.event listed rfl rfl rfl
          (by cases event <;> rfl)
        simpa only [stepFor, serverEffects, named] using acts
    | deregister cnx control waits =>
      cases named : h.server.prefixCtx cnx control with
      | none => simp [eventStep, named] at step
      | some id =>
        simp only [eventStep, named, Option.some.injEq] at step
        subst step
        have acts := callback_isolated peer h (h.server.deleteStreamPrefix cnx control) (some id)
          (.deregister waits) listed rfl rfl rfl rfl
        simpa only [stepFor, serverEffects, named] using acts
    | loop mallocs =>
      obtain rfl := Option.some.inj step
      exact loop_isolated peer h mallocs listed
    | post cnx stream =>
      obtain ⟨-, rfl⟩ := (onOpen_eq_some h.server cnx _ s).mp step
      exact unseen_isolated peer h h.server listed rfl rfl rfl
    | join cnx stream control =>
      cases named : h.server.prefixCtx cnx control with
      | none => simp [eventStep, named] at step
      | some id =>
        simp only [eventStep, named] at step
        obtain ⟨-, rfl⟩ := (onOpen_eq_some h.server cnx _ s).mp step
        exact unseen_isolated peer h _ listed rfl rfl rfl
    | free cnx stream =>
      obtain rfl := Option.some.inj step
      have same : h.server.settle (h.server.callback (h.server.streamCtx cnx stream) .unhandled) =
          h.server := by
        cases h.server.streamCtx cnx stream <;> simp [Server.callback, readsPeer, Server.settle]
      rw [same]
      exact unseen_isolated peer h h.server listed rfl rfl rfl

theorem host_simulates (peer : Nat) :
    Simulates (intactStep wreck) conversationStep (fun h => Listed h.server) (conversationOf peer)
      (stepFor peer) where
  preserved h a n listed taken := (hostStep_isolated wreck peer h a n listed taken).1
  matched h a n b listed taken := (hostStep_isolated wreck peer h a n listed taken).2.1 b
  silent h a n listed taken := (hostStep_isolated wreck peer h a n listed taken).2.2

theorem server_isolates_sessions (schedule : List HostStep) (h : Host)
    (run : exec (hostStep wreck) emptyHost schedule = some h) (intact : h.server.fault = false)
    (peer : Nat) :
    exec conversationStep SessionTeardown.idle
        (trace (hostStep wreck) (stepFor peer) emptyHost schedule) =
      some { peer := (h.server.heap peer).map Cell.value, childExited := false
             log := logOf peer h.log } := by
  have well := (exec_restricted_final _ Host.intact (intact_kept wreck) emptyHost h schedule run
    (by simp [Host.intact, intact])).1
  have alone := (host_simulates wreck peer).traced emptyHost h schedule listed_empty well
  rwa [intactStep, trace_restricted _ emptyHost h schedule well] at alone

def twoSessions : List HostStep :=
  [.server (.connect 0 0 SessionTeardown.smoothConnect),
    .server (.connect 1 0 { SessionTeardown.smoothConnect with
      spawn := some { pid := 101, stdin := 9, stdout := 10, stderr := 12, running := by decide } }),
    .server (.join 0 4 0),
    .server (.onStream 0 4 (.postData [7] { malloc := true, block := fun _ => 0, ret := 3 })),
    .output 0 true 0 [9], .server (.deregister 1 0 fun _ => .reaped),
    .server (.loop fun _ _ => true)]

theorem server_isolates_two_sessions :
    ∃ h t, exec (hostStep fun h _ => h) emptyHost twoSessions = some h ∧
      h.server.fault = false ∧
      exec conversationStep SessionTeardown.idle
        (trace (hostStep fun h _ => h) (stepFor 0) emptyHost twoSessions) = some t ∧
      t.log = logOf 0 h.log ∧ t.log.getLast? = some (.addToStream 4 [9] false) ∧
      (h.server.heap 1).isNone = true :=
  ⟨_, _, rfl, rfl, server_isolates_sessions _ twoSessions _ rfl rfl 0, rfl, rfl, rfl⟩

end WebTransportD.SessionIsolation
