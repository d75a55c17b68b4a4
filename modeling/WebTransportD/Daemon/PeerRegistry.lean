import WebTransportD.Adapters.TransportPeer
import WebTransportD.Shared.Chain
import WebTransportD.Shared.Execution

set_option autoImplicit false

namespace WebTransportD.PeerRegistry

open Session ChildProcess TransportPeer Chain

-- The server context with the contexts h3zero keeps for it. A peer is named by the number of its
-- allocation and `heap` holds the peers that are not freed, so a freed peer's name stays without a
-- cell. `refused` marks the streams whose context was last set by a connect whose prefix could not
-- be declared; `fault` records that a field of a freed peer was used.
structure Server where
  heap : Nat -> Option (Cell Nat WtdPeer)
  allocations : Nat
  peers : Option Nat
  streamCtx : Nat -> Nat -> Option Nat
  prefixCtx : Nat -> Nat -> Option Nat
  closing : Nat -> Bool
  refused : Nat -> Nat -> Bool
  fault : Bool

def emptyServer : Server :=
  { heap := fun _ => none, allocations := 0, peers := none, streamCtx := fun _ _ => none
    prefixCtx := fun _ _ => none, closing := fun _ => false, refused := fun _ _ => false
    fault := false }

def setAt {V : Type} (table : Nat -> Nat -> V) (cnx stream : Nat) (v : V) : Nat -> Nat -> V :=
  Function.update table cnx (Function.update (table cnx) stream v)

theorem setAt_apply {V : Type} (table : Nat -> Nat -> V) (cnx stream : Nat) (v : V)
    (other number : Nat) :
    setAt table cnx stream v other number =
      if other = cnx ∧ number = stream then v else table other number := by
  by_cases same : other = cnx
  · subst same
    by_cases here : number = stream <;> simp [setAt, here]
  · simp [setAt, same]

-- Use fields of a peer; there is no result if it has been freed.
def Server.access (s : Server) (id : Nat) (f : WtdPeer -> WtdPeer) : Option Server :=
  match s.heap id with
  | none => none
  | some cell =>
      some { s with heap := Function.update s.heap id (some { cell with value := f cell.value }) }

-- A peer that `peer_create` frees again was never linked or handed out.
def Server.peerCreate (s : Server) (env : ConnectEnv) : Server × Option Nat :=
  match (TransportPeer.peerCreate env).1 with
  | none => (s, none)
  | some p =>
      let id := s.allocations
      ({ s with
         heap := Function.update s.heap id (some { next := s.peers, value := p })
         allocations := id + 1
         peers := some id }, some id)

def Server.peerRemove (s : Server) (id : Nat) : Option Server :=
  match unlink (s.allocations + 1) s.heap s.peers id with
  | none => none
  | some (heap, peers) =>
      match heap id with
      | none => none
      | some _ => some { s with heap := Function.update heap id none, peers }

-- `wt_session_cb` for a connect. A prefix that is declared already cannot be declared again.
def Server.connect (s : Server) (cnx stream : Nat) (env : ConnectEnv) : Option Server :=
  match s.peerCreate env with
  | (s, none) => some s
  | (s, some id) =>
      match s.access id fun p => { p with controlStreamId := stream } with
      | none => none
      | some s =>
          let s := { s with streamCtx := setAt s.streamCtx cnx stream (some id) }
          if env.declarePrefix && (s.prefixCtx cnx stream).isNone then
            some { s with
              prefixCtx := setAt s.prefixCtx cnx stream (some id)
              refused := setAt s.refused cnx stream false }
          else
            -- The stream's context still names the peer that is removed here.
            match s.peerRemove id with
            | none => none
            | some s => some { s with refused := setAt s.refused cnx stream true }

def readsPeer : Event -> Bool
  | .postData _ _ _ | .postFin _ _ _ | .provideData _ | .provideDatagram _ | .deregister _ => true
  | .postDatagram bytes _ => decide (bytes.length > 0)
  | .connect _ _ | .unhandled => false

def Server.callback (s : Server) (ctx : Option Nat) (event : Event) : Option Server :=
  match ctx with
  | none => some s
  | some id =>
      if readsPeer event then
        match event with
        | .deregister _ => s.peerRemove id
        | _ => s.access id fun p => ((wtSessionCb (some p) event).1).getD p
      else some s

def Server.serverLoopCb (s : Server) (mallocs : Nat -> Nat -> Bool) : Option Server :=
  match visit (fun id p => (peerPump p (mallocs id)).1) (s.allocations + 1) s.heap s.peers with
  | none => none
  | some heap => some { s with heap }

inductive StreamEvent where
  | postData (bytes : List UInt8) (env : DeliverEnv)
  | postFin (bytes : List UInt8) (env : DeliverEnv)
  | provideData (mallocs : Nat -> Bool)
  | reset

def StreamEvent.event (stream : Nat) : StreamEvent -> Event
  | .postData bytes env => .postData stream bytes env
  | .postFin bytes env => .postFin stream bytes env
  | .provideData mallocs => .provideData mallocs
  | .reset => .unhandled

inductive DatagramEvent where
  | postDatagram (bytes : List UInt8) (env : DeliverEnv)
  | provideDatagram (granted : Bool)

def DatagramEvent.event : DatagramEvent -> Event
  | .postDatagram bytes env => .postDatagram bytes env
  | .provideDatagram granted => .provideDatagram granted

inductive ServerStep where
  | connect (cnx stream : Nat) (env : ConnectEnv)
  | post (cnx stream : Nat)
  | onStream (cnx stream : Nat) (event : StreamEvent)
  | onDatagram (cnx control : Nat) (event : DatagramEvent)
  | join (cnx stream control : Nat)
  | deregister (cnx control : Nat) (waits : Nat -> WaitOutcome)
  | free (cnx stream : Nat)
  | loop (mallocs : Nat -> Nat -> Bool)

def Server.settle (s : Server) (result : Option Server) : Server :=
  result.getD { s with fault := true }

def onOpen (s : Server) (cnx : Nat) (next : Server) : Option Server :=
  if s.closing cnx then none else some next

-- A stream that joins a session copies the context of the session's prefix.
def Server.joined (s : Server) (cnx stream id : Nat) : Server :=
  { s with
    streamCtx := setAt s.streamCtx cnx stream (some id)
    refused := setAt s.refused cnx stream false }

def Server.deleteStreamPrefix (s : Server) (cnx control : Nat) : Server :=
  { s with
    prefixCtx := setAt s.prefixCtx cnx control none
    closing := Function.update s.closing cnx true }

-- The events h3zero delivers. After the first deregister of a connection only further ones and
-- frees are left for it.
def eventStep (s : Server) : ServerStep -> Option Server
  | .connect cnx stream env => onOpen s cnx (s.settle (s.connect cnx stream env))
  -- A post comes with the server context in the peer's place; its branch does not look at it.
  | .post cnx _ => onOpen s cnx s
  | .onStream cnx stream event =>
      onOpen s cnx (s.settle (s.callback (s.streamCtx cnx stream) (event.event stream)))
  | .onDatagram cnx control event =>
      match s.prefixCtx cnx control with
      | none => none
      | some id => onOpen s cnx (s.settle (s.callback (some id) event.event))
  | .join cnx stream control =>
      match s.prefixCtx cnx control with
      | none => none
      | some id => onOpen s cnx (s.joined cnx stream id)
  | .deregister cnx control waits =>
      match s.prefixCtx cnx control with
      | none => none
      | some id =>
          let s := s.deleteStreamPrefix cnx control
          some (s.settle (s.callback (some id) (.deregister waits)))
  | .free cnx stream => some (s.settle (s.callback (s.streamCtx cnx stream) .unhandled))
  | .loop mallocs => some (s.settle (s.serverLoopCb mallocs))

def serverStep (s : Server) (a : ServerStep) : Option Server :=
  if s.fault then none else eventStep s a

structure Sound (s : Server) : Prop where
  running : s.fault = false
  exact : Exact s.heap s.peers
  bounded : ∀ id, (s.heap id).isSome = true -> id < s.allocations
  table : ∀ cnx control id, s.prefixCtx cnx control = some id -> (s.heap id).isSome = true
  single : ∀ cnx control other number id, s.prefixCtx cnx control = some id ->
    s.prefixCtx other number = some id -> cnx = other ∧ control = number
  joined : ∀ cnx stream id, s.closing cnx = false -> s.refused cnx stream = false ->
    s.streamCtx cnx stream = some id -> ∃ control, s.prefixCtx cnx control = some id
  dangling : ∀ cnx stream, s.refused cnx stream = true ->
    ∃ id, s.streamCtx cnx stream = some id ∧ id < s.allocations ∧ s.heap id = none

theorem sound_empty : Sound emptyServer where
  running := rfl
  exact := exact_empty
  bounded id live := by simp [emptyServer] at live
  table cnx control id declared := by simp [emptyServer] at declared
  single cnx control other number id declared := by simp [emptyServer] at declared
  joined cnx stream id opened accepted bound := by simp [emptyServer] at bound
  dangling cnx stream marked := by simp [emptyServer] at marked

theorem Sound.sameCells {s : Server} (sound : Sound s) (heap : Nat -> Option (Cell Nat WtdPeer))
    (exact : Exact heap s.peers) (same : ∀ id, (heap id).isSome = (s.heap id).isSome) :
    Sound { s with heap } where
  running := sound.running
  exact := exact
  bounded id live := sound.bounded id (by rwa [← same id])
  table cnx control id declared := (same id).trans (sound.table cnx control id declared)
  single := sound.single
  joined := sound.joined
  dangling cnx stream marked := by
    obtain ⟨id, bound, old, freed⟩ := sound.dangling cnx stream marked
    exact ⟨id, bound, old, by simpa [freed] using same id⟩

theorem Sound.access {s : Server} (sound : Sound s) (id : Nat) (f : WtdPeer -> WtdPeer)
    (live : (s.heap id).isSome = true) : ∃ t, s.access id f = some t ∧ Sound t := by
  obtain ⟨cell, here⟩ := Option.isSome_iff_exists.mp live
  refine ⟨{ s with
      heap := Function.update s.heap id (some { cell with value := f cell.value }) },
    by simp only [Server.access, here], sound.sameCells _ ?_ ?_⟩
  · exact sound.exact.set id cell _ here
  · intro other
    by_cases eq : other = id
    · simp [eq, here]
    · simp [eq]

theorem Sound.serverLoopCb {s : Server} (sound : Sound s) (mallocs : Nat -> Nat -> Bool) :
    ∃ t, s.serverLoopCb mallocs = some t ∧ Sound t := by
  obtain ⟨heap, done, exact, same⟩ := sound.exact.visit
    (fun id p => (peerPump p (mallocs id)).1) (s.allocations + 1)
    (spells_length s.allocations sound.bounded)
  exact ⟨{ s with heap }, by simp only [Server.serverLoopCb, done], sound.sameCells heap exact same⟩

theorem Sound.peerRemove {s : Server} (sound : Sound s) (id : Nat)
    (live : (s.heap id).isSome = true)
    (unnamed : ∀ cnx control, s.prefixCtx cnx control ≠ some id) :
    ∃ t, s.peerRemove id = some t ∧ Sound t := by
  obtain ⟨heap, peers, done, exact, same⟩ := sound.exact.unlink id live (s.allocations + 1)
    (spells_length s.allocations sound.bounded)
  obtain ⟨cell, here⟩ := Option.isSome_iff_exists.mp ((same id).trans live)
  have cells : ∀ other, (Function.update heap id none other).isSome = true ↔
      other ≠ id ∧ (s.heap other).isSome = true := by
    intro other
    by_cases eq : other = id
    · simp [eq]
    · simp [eq, same]
  refine ⟨{ s with heap := Function.update heap id none, peers },
    by simp only [Server.peerRemove, done, here], ?_⟩
  constructor
  · exact sound.running
  · exact exact
  · exact fun other present => sound.bounded other ((cells other).mp present).2
  · intro cnx control other declared
    apply (cells other).mpr
    refine ⟨?_, sound.table cnx control other declared⟩
    rintro rfl
    exact unnamed cnx control declared
  · exact sound.single
  · exact sound.joined
  · intro cnx stream marked
    obtain ⟨other, bound, old, freed⟩ := sound.dangling cnx stream marked
    refine ⟨other, bound, old, ?_⟩
    have absent := mt (cells other).mp (by simp [freed])
    simpa using absent

theorem Sound.callback {s : Server} (sound : Sound s) (id : Nat) (event : Event)
    (live : (s.heap id).isSome = true) (kept : ∀ waits, event ≠ .deregister waits) :
    ∃ t, s.callback (some id) event = some t ∧ Sound t := by
  cases reads : readsPeer event with
  | false => exact ⟨s, by simp [Server.callback, reads], sound⟩
  | true =>
    obtain ⟨t, done, after⟩ := sound.access id
      (fun p => ((wtSessionCb (some p) event).1).getD p) live
    refine ⟨t, ?_, after⟩
    cases event with
    | deregister waits => exact absurd rfl (kept waits)
    | _ => simpa [Server.callback, reads] using done

def Server.added (s : Server) (cnx stream : Nat) (p : WtdPeer) : Server :=
  { s with
    heap := Function.update s.heap s.allocations (some { next := s.peers, value := p })
    allocations := s.allocations + 1
    peers := some s.allocations
    streamCtx := setAt s.streamCtx cnx stream (some s.allocations) }

theorem connect_cases (s : Server) (cnx stream : Nat) (env : ConnectEnv) :
    s.connect cnx stream env = some s ∨
      ∃ p, s.connect cnx stream env =
        if env.declarePrefix && (s.prefixCtx cnx stream).isNone then
          some { s.added cnx stream p with
            prefixCtx := setAt s.prefixCtx cnx stream (some s.allocations)
            refused := setAt s.refused cnx stream false }
        else
          ((s.added cnx stream p).peerRemove s.allocations).map fun t =>
            { t with refused := setAt t.refused cnx stream true } := by
  cases made : (TransportPeer.peerCreate env).1 with
  | none => exact .inl (by simp [Server.connect, Server.peerCreate, made])
  | some p =>
    refine .inr ⟨{ p with controlStreamId := stream }, ?_⟩
    simp only [Server.connect, Server.peerCreate, made, Server.access, Function.update_self,
      Function.update_idem, Server.added]
    split_ifs
    · rfl
    · split <;> simp_all

theorem Sound.fresh {s : Server} (sound : Sound s) : s.heap s.allocations = none := by
  by_contra present
  have below := sound.bounded s.allocations (Option.isSome_iff_ne_none.mpr present)
  omega

theorem added_peerRemove (s : Server) (sound : Sound s) (cnx stream : Nat) (p : WtdPeer) :
    (s.added cnx stream p).peerRemove s.allocations =
      some { s with
        allocations := s.allocations + 1
        streamCtx := setAt s.streamCtx cnx stream (some s.allocations) } := by
  have restored : Function.update s.heap s.allocations none = s.heap := by
    rw [Function.update_eq_self_iff, sound.fresh]
  simp [Server.peerRemove, Server.added, unlink, search, restored]

theorem Sound.declared {s : Server} (sound : Sound s) (cnx stream : Nat) (p : WtdPeer)
    (undeclared : s.prefixCtx cnx stream = none) :
    Sound { s.added cnx stream p with
      prefixCtx := setAt s.prefixCtx cnx stream (some s.allocations)
      refused := setAt s.refused cnx stream false } := by
  have older : ∀ other number id, s.prefixCtx other number = some id -> id < s.allocations :=
    fun other number id known => sound.bounded id (sound.table other number id known)
  constructor
  · exact sound.running
  · exact sound.exact.push s.allocations p sound.fresh
  · intro id live
    by_cases new : id = s.allocations
    · simp [Server.added, new]
    · have before := sound.bounded id (by simpa [Server.added, new] using live)
      exact Nat.lt_succ_of_lt before
  · intro other number id known
    simp only [setAt_apply] at known
    split_ifs at known with here
    · obtain rfl := Option.some.inj known
      simp [Server.added]
    · have live := sound.table other number id known
      have before := older other number id known
      simpa [Server.added, Nat.ne_of_lt before] using live
  · intro first control second number id known again
    simp only [setAt_apply] at known again
    split_ifs at known again with here there there
    · exact ⟨here.1.trans there.1.symm, here.2.trans there.2.symm⟩
    · have before := older second number id again
      have same := Option.some.inj known
      omega
    · have before := older first control id known
      have same := Option.some.inj again
      omega
    · exact sound.single first control second number id known again
  · intro other number id opened accepted bound
    simp only [Server.added, setAt_apply] at accepted bound ⊢
    split_ifs at accepted bound with here
    · exact ⟨stream, by simp [here, Option.some.inj bound]⟩
    · obtain ⟨control, known⟩ := sound.joined other number id opened accepted bound
      refine ⟨control, ?_⟩
      rw [if_neg, known]
      rintro ⟨rfl, rfl⟩
      simp [undeclared] at known
  · intro other number marked
    simp only [Server.added, setAt_apply] at marked ⊢
    split_ifs at marked ⊢ with here
    obtain ⟨id, bound, old, freed⟩ := sound.dangling other number marked
    exact ⟨id, bound, Nat.lt_succ_of_lt old, by simp [Nat.ne_of_lt old, freed]⟩

theorem Sound.refuse {s : Server} (sound : Sound s) (cnx stream : Nat) :
    Sound { s with
      allocations := s.allocations + 1
      streamCtx := setAt s.streamCtx cnx stream (some s.allocations)
      refused := setAt s.refused cnx stream true } := by
  constructor
  · exact sound.running
  · exact sound.exact
  · exact fun id live => Nat.lt_succ_of_lt (sound.bounded id live)
  · exact sound.table
  · exact sound.single
  · intro other number id opened accepted bound
    simp only [setAt_apply] at accepted bound
    split_ifs at accepted bound with here
    exact sound.joined other number id opened accepted bound
  · intro other number marked
    simp only [setAt_apply] at marked ⊢
    split_ifs at marked ⊢ with here
    · exact ⟨s.allocations, rfl, Nat.lt_succ_self _, sound.fresh⟩
    · obtain ⟨id, bound, old, freed⟩ := sound.dangling other number marked
      exact ⟨id, bound, Nat.lt_succ_of_lt old, freed⟩

theorem Sound.connect {s : Server} (sound : Sound s) (cnx stream : Nat) (env : ConnectEnv) :
    ∃ t, s.connect cnx stream env = some t ∧ Sound t := by
  rcases connect_cases s cnx stream env with failed | ⟨p, result⟩
  · exact ⟨s, failed, sound⟩
  · rw [result]
    split_ifs with declares
    · have undeclared : s.prefixCtx cnx stream = none := by
        simpa using (Bool.and_eq_true_iff.mp declares).2
      exact ⟨_, rfl, sound.declared cnx stream p undeclared⟩
    · rw [added_peerRemove s sound]
      exact ⟨_, rfl, sound.refuse cnx stream⟩

theorem Sound.join {s : Server} (sound : Sound s) (cnx stream control id : Nat)
    (declared : s.prefixCtx cnx control = some id) : Sound (s.joined cnx stream id) := by
  constructor
  · exact sound.running
  · exact sound.exact
  · exact sound.bounded
  · exact sound.table
  · exact sound.single
  · intro other number bound opened accepted named
    simp only [Server.joined, setAt_apply] at accepted named ⊢
    split_ifs at accepted named with here
    · exact ⟨control, by simpa [here, Option.some.inj named] using declared⟩
    · exact sound.joined other number bound opened accepted named
  · intro other number marked
    simp only [Server.joined, setAt_apply] at marked ⊢
    split_ifs at marked ⊢ with here
    exact sound.dangling other number marked

theorem deleteStreamPrefix_named (s : Server) (cnx control other number id : Nat)
    (named : (s.deleteStreamPrefix cnx control).prefixCtx other number = some id) :
    ¬ (other = cnx ∧ number = control) ∧ s.prefixCtx other number = some id := by
  simp only [Server.deleteStreamPrefix, setAt_apply] at named
  split_ifs at named with here
  exact ⟨here, named⟩

theorem Sound.deleteStreamPrefix {s : Server} (sound : Sound s) (cnx control : Nat) :
    Sound (s.deleteStreamPrefix cnx control) where
  running := sound.running
  exact := sound.exact
  bounded := sound.bounded
  table other number id named :=
    sound.table other number id (deleteStreamPrefix_named s cnx control other number id named).2
  single first number second further id known again :=
    sound.single first number second further id
      (deleteStreamPrefix_named s cnx control first number id known).2
      (deleteStreamPrefix_named s cnx control second further id again).2
  joined other stream id opened accepted named := by
    by_cases same : other = cnx
    · simp [Server.deleteStreamPrefix, same] at opened
    · obtain ⟨number, known⟩ := sound.joined other stream id
        (by simpa [Server.deleteStreamPrefix, same] using opened) accepted named
      exact ⟨number, by simpa [Server.deleteStreamPrefix, setAt_apply, same] using known⟩
  dangling := sound.dangling

theorem Sound.deregister {s : Server} (sound : Sound s) (cnx control id : Nat)
    (declared : s.prefixCtx cnx control = some id) :
    ∃ t, (s.deleteStreamPrefix cnx control).peerRemove id = some t ∧ Sound t := by
  have live := sound.table cnx control id declared
  apply (sound.deleteStreamPrefix cnx control).peerRemove id live
  intro other number named
  obtain ⟨elsewhere, known⟩ := deleteStreamPrefix_named s cnx control other number id named
  have same := sound.single cnx control other number id declared known
  exact elsewhere ⟨same.1.symm, same.2.symm⟩

def SparesRefused (s : Server) : ServerStep -> Prop
  | .onStream cnx stream event => readsPeer (event.event stream) = true ->
      s.refused cnx stream = false
  | _ => True

theorem Sound.onStream {s : Server} (sound : Sound s) (cnx stream : Nat) (event : StreamEvent)
    (opened : s.closing cnx = false) (spared : SparesRefused s (.onStream cnx stream event)) :
    ∃ t, s.callback (s.streamCtx cnx stream) (event.event stream) = some t ∧ Sound t := by
  cases bound : s.streamCtx cnx stream with
  | none => exact ⟨s, rfl, sound⟩
  | some id =>
    cases reads : readsPeer (event.event stream) with
    | false => exact ⟨s, by simp [Server.callback, reads], sound⟩
    | true =>
      obtain ⟨control, named⟩ := sound.joined cnx stream id opened (spared reads) bound
      apply sound.callback id _ (sound.table cnx control id named)
      intro waits
      cases event <;> simp [StreamEvent.event]

theorem Sound.settle {s : Server} (t : Server) (result : Option Server)
    (fine : ∃ next, result = some next ∧ Sound next) (done : s.settle result = t) : Sound t := by
  obtain ⟨next, rfl, sound⟩ := fine
  exact done ▸ sound

theorem onOpen_eq_some (s : Server) (cnx : Nat) (next t : Server) :
    onOpen s cnx next = some t ↔ s.closing cnx = false ∧ next = t := by
  cases shut : s.closing cnx <;> simp [onOpen, shut]

theorem serverStep_sound (s : Server) (a : ServerStep) (t : Server) (sound : Sound s)
    (spared : SparesRefused s a) (taken : serverStep s a = some t) : Sound t := by
  simp only [serverStep, sound.running, Bool.false_eq_true, if_false] at taken
  cases a with
  | connect cnx stream env =>
    obtain ⟨-, done⟩ := (onOpen_eq_some s cnx _ t).mp taken
    exact Sound.settle t _ (sound.connect cnx stream env) done
  | post cnx stream =>
    obtain ⟨-, rfl⟩ := (onOpen_eq_some s cnx _ t).mp taken
    exact sound
  | onStream cnx stream event =>
    obtain ⟨opened, done⟩ := (onOpen_eq_some s cnx _ t).mp taken
    exact Sound.settle t _ (sound.onStream cnx stream event opened spared) done
  | onDatagram cnx control event =>
    cases named : s.prefixCtx cnx control with
    | none => simp [eventStep, named] at taken
    | some id =>
      simp only [eventStep, named] at taken
      obtain ⟨-, done⟩ := (onOpen_eq_some s cnx _ t).mp taken
      apply Sound.settle t _ _ done
      apply sound.callback id _ (sound.table cnx control id named)
      intro waits
      cases event <;> simp [DatagramEvent.event]
  | join cnx stream control =>
    cases named : s.prefixCtx cnx control with
    | none => simp [eventStep, named] at taken
    | some id =>
      simp only [eventStep, named] at taken
      obtain ⟨-, rfl⟩ := (onOpen_eq_some s cnx _ t).mp taken
      exact sound.join cnx stream control id named
  | deregister cnx control waits =>
    cases named : s.prefixCtx cnx control with
    | none => simp [eventStep, named] at taken
    | some id =>
      simp only [eventStep, named, Option.some.injEq] at taken
      exact Sound.settle t _ (sound.deregister cnx control id named) taken
  | free cnx stream =>
    simp only [eventStep, Option.some.injEq] at taken
    apply Sound.settle t _ ⟨s, _, sound⟩ taken
    cases s.streamCtx cnx stream <;> rfl
  | loop mallocs =>
    simp only [eventStep, Option.some.injEq] at taken
    exact Sound.settle t _ (sound.serverLoopCb mallocs) taken

def RegistryExact (s : Server) : Prop :=
  s.fault = false ∧
    ∃ cells, Spells s.heap s.peers cells ∧ (addresses cells).Nodup ∧
      ∀ id, id ∈ addresses cells ↔ (s.heap id).isSome = true

theorem Sound.registryExact {s : Server} (sound : Sound s) : RegistryExact s := by
  obtain ⟨cells, spelled, all⟩ := sound.exact
  exact ⟨sound.running, cells, spelled, spells_nodup s.heap s.peers cells spelled, all⟩

theorem refused_event_faults (s : Server) (a : ServerStep) (t : Server) (sound : Sound s)
    (taken : serverStep s a = some t) (exact : RegistryExact t) : SparesRefused s a := by
  cases a with
  | onStream cnx stream event =>
    intro reads
    by_contra marked
    obtain ⟨id, bound, -, freed⟩ := sound.dangling cnx stream (by simpa using marked)
    simp only [serverStep, sound.running, Bool.false_eq_true, if_false] at taken
    obtain ⟨-, done⟩ := (onOpen_eq_some s cnx _ t).mp taken
    have used : s.callback (s.streamCtx cnx stream) (event.event stream) = none := by
      cases event with
      | reset => simp [StreamEvent.event, readsPeer] at reads
      | _ => simp [bound, Server.callback, StreamEvent.event, readsPeer, Server.access, freed]
    have faulted := exact.1
    simp [← done, used, Server.settle] at faulted
  | _ => trivial

theorem registry_exact_iff (schedule : List ServerStep) :
    (∀ first second t, schedule = first ++ second ->
      Execution.exec serverStep emptyServer first = some t -> RegistryExact t) ↔
      Execution.Meets serverStep SparesRefused emptyServer schedule :=
  Execution.throughout_iff_meets serverStep SparesRefused Sound RegistryExact serverStep_sound
    (fun _ sound => sound.registryExact) refused_event_faults emptyServer sound_empty schedule

-- The prefix cannot be declared, and the peer then sends a byte on the stream of its connect.
def dataAfterRefusal : List ServerStep :=
  [.connect 0 0
    { malloc := true, spawn := some sampleSpawn, outputStart := true, declarePrefix := false
      waits := fun _ => .reaped },
    .onStream 0 0 (.postData [7] { malloc := true, block := fun _ => 0, ret := 3 })]

theorem freed_peer_used_after_refusal :
    ∃ t, Execution.exec serverStep emptyServer dataAfterRefusal = some t ∧
      t.streamCtx 0 0 = some 0 ∧ t.heap 0 = none ∧ t.fault = true ∧ ¬ RegistryExact t :=
  ⟨_, rfl, rfl, rfl, rfl, fun exact => absurd exact.1 (by decide)⟩

end WebTransportD.PeerRegistry
