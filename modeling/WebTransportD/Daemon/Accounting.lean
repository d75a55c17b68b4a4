import WebTransportD.Daemon.Attribution

set_option autoImplicit false

namespace WebTransportD.Accounting

open Session ChildSpawn TransportPeer Execution CrossTalk Attribution
open Descriptors (Table)
open DescriptorOwnership (Gone Ledger PeerFds Settled)
open PeerRegistry (Server ServerStep setAt_apply)
open ReplyStream (postedOn sentOn)
open SessionIsolation
open SessionTeardown (ConversationStep)

structure Named (w : World) : Prop where
  listed : Listed w.server
  spawned : ∀ id < w.server.allocations, w.child id < w.spawned
  single : ∀ id < w.server.allocations, ∀ other < w.server.allocations,
    w.child id = w.child other -> id = other
  homes : ∀ id < w.server.allocations, w.session (w.home id).1 (w.home id).2 = some (w.home id)
  apart : ∀ id < w.server.allocations, ∀ other < w.server.allocations,
    w.home id = w.home other -> id = other
  stays : ∀ cnx stream session, w.session cnx stream = some session -> session.1 = cnx
  prefixes : ∀ cnx control id, w.server.prefixCtx cnx control = some id ->
    id < w.server.allocations ∧ w.home id = (cnx, control)
  streams : ∀ cnx stream id, w.server.streamCtx cnx stream = some id ->
    id < w.server.allocations ∧ w.session cnx stream = some (w.home id)
  data : ∀ id p, valueAt w.server.heap id = some p -> p.dataStreamId ≠ uint64Max ->
    w.session (w.home id).1 p.dataStreamId = some (w.home id)

structure Filed (w : World) (records : Nat -> PeerFds) : Prop where
  ledger : Ledger w.table fun k => (records k).child
  live : ∀ id < w.server.allocations, Settled (records (w.child id)) (valueAt w.server.heap id)
  unused : ∀ k, (∀ id < w.server.allocations, w.child id ≠ k) -> Gone (records k)

-- Up to now, what was written into a child came from its session, and what was sent to the session
-- or waits to be sent was read from the child.
structure Own (deeds : List Deed) (child : Nat) (session : SessionId) (p : Option WtdPeer) :
    Prop where
  stream : (deeds.filterMap (streamTo session) ++ (queued p).filterMap streamOf).Sublist
    ((deeds.filterMap (readFrom child)).filterMap streamOf)
  datagram : (deeds.filterMap (datagramTo session) ++
      (waiting p ++ (queued p).filterMap datagramOf)).Sublist
    ((deeds.filterMap (readFrom child)).filterMap datagramOf)
  input : (deeds.filterMap (writtenInto child)).Sublist (deeds.filterMap (receivedFrom session))

structure Accounted (w : World) : Prop where
  opened : ∀ child session, .opened child session ∈ w.deeds ->
    ∃ id < w.server.allocations, w.child id = child ∧ w.home id = session
  live : ∀ id p, valueAt w.server.heap id = some p -> .opened (w.child id) (w.home id) ∈ w.deeds
  placed : ∀ d ∈ w.deeds, Placed w.deeds d
  own : ∀ id < w.server.allocations,
    Own w.deeds (w.child id) (w.home id) (valueAt w.server.heap id)

structure Sound (w : World) : Prop where
  named : Named w
  filed : ∃ records, Filed w records
  accounted : Accounted w

theorem Own.carry {deeds : List Deed} {child : Nat} {session : SessionId} {p q : Option WtdPeer}
    (own : Own deeds child session p) (more : List Deed) (effects : List Effect)
    (given : List OutboundFrame) (message : List (List UInt8))
    (carries : Carries p q effects given message)
    (stream : more.filterMap (streamTo session) = effects.filterMap streamReply)
    (datagram : more.filterMap (datagramTo session) = effects.filterMap datagramReply)
    (input : more.filterMap (writtenInto child) = effects.filterMap childInput)
    (frames : given.Sublist (more.filterMap (readFrom child)))
    (messages : message.Sublist (more.filterMap (receivedFrom session))) :
    Own (deeds ++ more) child session q := by
  refine ⟨?_, ?_, ?_⟩
  · simp only [List.filterMap_append, stream, List.append_assoc]
    refine (carries.stream.append_left _).trans ?_
    rw [← List.append_assoc]
    exact own.stream.append (frames.filterMap streamOf)
  · simp only [List.filterMap_append, datagram, List.append_assoc]
    refine (carries.datagram.append_left _).trans ?_
    rw [← List.append_assoc]
    exact own.datagram.append (frames.filterMap datagramOf)
  · simp only [List.filterMap_append, input]
    exact own.input.append (carries.input.trans messages)

theorem attributed_filter {B : Type} (f : Deed -> Option B) (g : Effect -> Option B)
    (child : Nat -> Nat) (home : Nat -> SessionId) (id : Nat) (effects : List (Nat × Effect))
    (own : ∀ e, (attributed (child id) (home id) e).filterMap f = (g e).toList)
    (others : ∀ e ∈ effects, e.1 ≠ id ->
      (attributed (child e.1) (home e.1) e.2).filterMap f = []) :
    (effects.flatMap fun e => attributed (child e.1) (home e.1) e.2).filterMap f =
      (logOf id effects).filterMap g := by
  induction effects with
  | nil => rfl
  | cons e rest ih =>
    obtain ⟨peer, effect⟩ := e
    have later := ih fun e member => others e (List.mem_cons_of_mem _ member)
    rw [List.flatMap_cons, List.filterMap_append, later]
    by_cases same : peer = id
    · subst same
      have logged : logOf peer ((peer, effect) :: rest) = effect :: logOf peer rest := by
        simp [logOf]
      rw [own, logged, filterMap_cons_toList]
    · have logged : logOf id ((peer, effect) :: rest) = logOf id rest := by simp [logOf, same]
      rw [others _ List.mem_cons_self same, logged, List.nil_append]

theorem attributed_cases (child : Nat) (session : SessionId) (e : Effect) :
    attributed child session e = [] ∧ streamReply e = none ∧ datagramReply e = none ∧
      childInput e = none ∨
    (∃ data, attributed child session e = [.wrote (some (.pipeEnd child .stdin .writing)) data] ∧
      streamReply e = none ∧ datagramReply e = none ∧ childInput e = some data) ∨
    (∃ data, attributed child session e = [.sentStream (some session) data] ∧
      streamReply e = some data ∧ datagramReply e = none ∧ childInput e = none) ∨
    ∃ data, attributed child session e = [.sentDatagram (some session) data] ∧
      streamReply e = none ∧ datagramReply e = some data ∧ childInput e = none := by
  cases e with
  | sys call =>
    cases call with
    | write fd data ret => exact .inr (.inl ⟨data, rfl, rfl, rfl, rfl⟩)
    | _ => exact .inl ⟨rfl, rfl, rfl, rfl⟩
  | addToStream stream data fin =>
    cases fin with
    | false => exact .inr (.inr (.inl ⟨data, rfl, rfl, rfl, rfl⟩))
    | true => exact .inl ⟨rfl, rfl, rfl, rfl⟩
  | provideDatagram data copied =>
    cases copied with
    | true => exact .inr (.inr (.inr ⟨data, rfl, rfl, rfl, rfl⟩))
    | false => exact .inl ⟨rfl, rfl, rfl, rfl⟩
  | _ => exact .inl ⟨rfl, rfl, rfl, rfl⟩

theorem attributed_placed (child : Nat) (session : SessionId) (e : Effect) (deeds : List Deed)
    (opened : .opened child session ∈ deeds) (d : Deed) (member : d ∈ attributed child session e) :
    Placed deeds d ∧ ∀ k s, d ≠ .opened k s := by
  rcases attributed_cases child session e with ⟨none, -⟩ | ⟨data, one, -⟩ | ⟨data, one, -⟩ |
    ⟨data, one, -⟩
  · simp [none] at member
  all_goals
    obtain rfl : d = _ := by simpa [one] using member
    exact ⟨⟨child, session, opened, rfl⟩, by simp⟩

theorem attributed_own (child : Nat -> Nat) (home : Nat -> SessionId) (id : Nat)
    (effects : List (Nat × Effect)) (single : ∀ e ∈ effects, child e.1 = child id -> e.1 = id)
    (apart : ∀ e ∈ effects, home e.1 = home id -> e.1 = id) :
    let deeds := effects.flatMap fun e => attributed (child e.1) (home e.1) e.2
    deeds.filterMap (streamTo (home id)) = (logOf id effects).filterMap streamReply ∧
      deeds.filterMap (datagramTo (home id)) = (logOf id effects).filterMap datagramReply ∧
      deeds.filterMap (writtenInto (child id)) = (logOf id effects).filterMap childInput := by
  refine ⟨?_, ?_, ?_⟩
  all_goals
    apply attributed_filter
    · intro e
      rcases attributed_cases (child id) (home id) e with ⟨one, stream, datagram, input⟩ |
        ⟨data, one, stream, datagram, input⟩ | ⟨data, one, stream, datagram, input⟩ |
        ⟨data, one, stream, datagram, input⟩ <;>
        simp [one, stream, datagram, input, streamTo, datagramTo, writtenInto]
    · intro e member other
      have differs : child e.1 ≠ child id := fun same => other (single e member same)
      have elsewhere : home e.1 ≠ home id := fun same => other (apart e member same)
      rcases attributed_cases (child e.1) (home e.1) e.2 with ⟨one, -⟩ | ⟨data, one, -⟩ |
        ⟨data, one, -⟩ | ⟨data, one, -⟩ <;>
        simp [one, streamTo, datagramTo, writtenInto, differs, elsewhere]

def incoming : Deed -> Bool
  | .received _ _ _ | .read _ _ => true
  | _ => false

theorem incoming_own (arrived : List Deed) (incomes : ∀ d ∈ arrived, incoming d = true)
    (child : Nat) (session : SessionId) :
    arrived.filterMap (streamTo session) = [] ∧ arrived.filterMap (datagramTo session) = [] ∧
      arrived.filterMap (writtenInto child) = [] := by
  simp only [List.filterMap_eq_nil_iff]
  refine ⟨?_, ?_, ?_⟩ <;> intro d member <;> have kind := incomes d member <;>
    cases d <;> simp [incoming] at kind <;> rfl

-- A step `b` of one peer and what comes with it: the messages and frames that have arrived, the
-- sessions of the streams, and the session that may send a datagram.
structure Fits (w : World) (session : Nat -> Nat -> Option SessionId) (arrived : List Deed)
    (target : Option SessionId) (id : Nat) (b : ConversationStep) : Prop where
  later : opens b = false
  posted : ∀ stream ∈ postedOn b, session (w.home id).1 stream = some (w.home id)
  asked : ∀ granted, b = .callback (.provideDatagram granted) -> target = some (w.home id)
  messages : (clientMessage b).toList.Sublist (arrived.filterMap (receivedFrom (w.home id)))
  frames : (childOutput b).toList.Sublist (arrived.filterMap (readFrom (w.child id)))

structure Given (w : World) (session : Nat -> Nat -> Option SessionId) (arrived : List Deed)
    (target : Option SessionId) (b : Nat -> ConversationStep) : Prop where
  grows : ∀ cnx stream known, w.session cnx stream = some known ->
    session cnx stream = some known
  stays : ∀ cnx stream known, session cnx stream = some known -> known.1 = cnx
  incomes : ∀ d ∈ arrived, incoming d = true ∧ Placed w.deeds d
  fits : ∀ id, Fits w session arrived target id (b id)

section

variable {w : World} {session : Nat -> Nat -> Option SessionId} {arrived : List Deed}
  {target : Option SessionId} {b : Nat -> ConversationStep} {effects : List (Nat × Effect)}
  {t : Server}

theorem mem_logOf {e : Nat × Effect} (member : e ∈ effects) : e.2 ∈ logOf e.1 effects :=
  List.mem_filterMap.mpr ⟨e, member, if_pos rfl⟩

theorem acting_live (given : Given w session arrived target b)
    (turns : ∀ id, Turn (valueAt w.server.heap id) (b id) (valueAt t.heap id) (logOf id effects))
    (e : Nat × Effect) (member : e ∈ effects) : ∃ p, valueAt w.server.heap e.1 = some p := by
  cases here : valueAt w.server.heap e.1 with
  | some p => exact ⟨p, rfl⟩
  | none =>
    have turn := turns e.1
    rw [here] at turn
    have logged := mem_logOf member
    rw [turn_absent turn (given.fits e.1).later] at logged
    simp at logged

theorem live_below (named : Named w) (id : Nat) (p : WtdPeer)
    (here : valueAt w.server.heap id = some p) : id < w.server.allocations := by
  apply named.listed.bounded
  obtain ⟨cell, present, -⟩ := Option.map_eq_some_iff.mp here
  simp [present]

theorem acting_proper (named : Named w) (given : Given w session arrived target b)
    (turns : ∀ id, Turn (valueAt w.server.heap id) (b id) (valueAt t.heap id) (logOf id effects))
    (deeds : List Deed) (e : Nat × Effect) (member : e ∈ effects) :
    Proper { w with server := t, session, deeds } target e := by
  have logged := mem_logOf member
  constructor
  · intro stream data sends
    have sent : stream ∈ sentOn (logOf e.1 effects) :=
      List.mem_filterMap.mpr ⟨e.2, logged, by rw [sends]; rfl⟩
    obtain ⟨p, here, rfl, bound⟩ := (turn_stream (turns e.1) (given.fits e.1).later).1 stream sent
    exact given.grows _ _ _ (named.data e.1 p here bound)
  · intro data sends
    rw [sends] at logged
    obtain ⟨granted, asked⟩ := turn_datagram (turns e.1) (given.fits e.1).later data logged
    exact (given.fits e.1).asked granted asked

theorem Named.advance (named : Named w) (given : Given w session arrived target b)
    (listed : Listed t) (allocations : t.allocations = w.server.allocations)
    (prefixes : ∀ cnx control id, t.prefixCtx cnx control = some id ->
      w.server.prefixCtx cnx control = some id)
    (streams : ∀ cnx stream id, t.streamCtx cnx stream = some id ->
      id < w.server.allocations ∧ session cnx stream = some (w.home id))
    (turns : ∀ id, Turn (valueAt w.server.heap id) (b id) (valueAt t.heap id) (logOf id effects))
    (table : Table File) (deeds : List Deed) :
    Named { w with server := t, session, table, deeds } where
  listed := listed
  spawned := by simpa only [allocations] using named.spawned
  single := by simpa only [allocations] using named.single
  homes := by
    simp only [allocations]
    exact fun id below => given.grows _ _ _ (named.homes id below)
  apart := by simpa only [allocations] using named.apart
  stays := given.stays
  prefixes cnx control id known := by
    simpa only [allocations] using named.prefixes cnx control id (prefixes cnx control id known)
  streams := by simpa only [allocations] using streams
  data id q there bound := by
    obtain ⟨p, here, kept | posted⟩ := (turn_stream (turns id) (given.fits id).later).2 q there
    · rw [kept] at bound ⊢
      exact given.grows _ _ _ (named.data id p here bound)
    · exact (given.fits id).posted _ posted

theorem Accounted.advance (accounted : Accounted w) (named : Named w)
    (given : Given w session arrived target b)
    (allocations : t.allocations = w.server.allocations)
    (turns : ∀ id, Turn (valueAt w.server.heap id) (b id) (valueAt t.heap id) (logOf id effects))
    (table : Table File) :
    Accounted { w with
      server := t, session, table
      deeds := w.deeds ++ arrived ++ effects.flatMap fun e =>
        attributed (w.child e.1) (w.home e.1) e.2 } := by
  have acting := acting_live given turns
  have below := fun e member => (acting e member).elim fun p here => live_below named e.1 p here
  have due : ∀ d ∈ effects.flatMap (fun e => attributed (w.child e.1) (w.home e.1) e.2),
      Placed w.deeds d ∧ ∀ k s, d ≠ .opened k s := by
    intro d member
    obtain ⟨e, acts, inside⟩ := List.mem_flatMap.mp member
    obtain ⟨p, here⟩ := acting e acts
    exact attributed_placed _ _ e.2 w.deeds (accounted.live e.1 p here) d inside
  constructor
  · intro child known member
    simp only [allocations]
    apply accounted.opened
    simp only [List.append_assoc, List.mem_append] at member
    rcases member with before | came | done
    · exact before
    · have kind := (given.incomes _ came).1
      simp [incoming] at kind
    · exact absurd rfl ((due _ done).2 child known)
  · intro id q there
    obtain ⟨p, here, -⟩ := (turn_stream (turns id) (given.fits id).later).2 q there
    simp [accounted.live id p here]
  · intro d member
    rw [List.append_assoc]
    apply Placed.more
    simp only [List.append_assoc, List.mem_append] at member
    rcases member with before | came | done
    · exact accounted.placed d before
    · exact (given.incomes d came).2
    · exact (due d done).1
  · intro id inside
    rw [allocations] at inside
    obtain ⟨stream, datagram, input⟩ := attributed_own w.child w.home id effects
      (fun e member same => named.single e.1 (below e member) id inside same)
      (fun e member same => named.apart e.1 (below e member) id inside same)
    obtain ⟨noStream, noDatagram, noInput⟩ := incoming_own arrived
      (fun d came => (given.incomes d came).1) (w.child id) (w.home id)
    rw [List.append_assoc]
    apply (accounted.own id inside).carry _ _ _ _ (turns id).carries
    · simp [List.filterMap_append, noStream, stream]
    · simp [List.filterMap_append, noDatagram, datagram]
    · simp [List.filterMap_append, noInput, input]
    · rw [List.filterMap_append]
      exact (given.fits id).frames.trans (List.sublist_append_left _ _)
    · rw [List.filterMap_append]
      exact (given.fits id).messages.trans (List.sublist_append_left _ _)

theorem Sound.advance (sound : Sound w) (given : Given w session arrived target b)
    (listed : Listed t) (allocations : t.allocations = w.server.allocations)
    (prefixes : ∀ cnx control id, t.prefixCtx cnx control = some id ->
      w.server.prefixCtx cnx control = some id)
    (streams : ∀ cnx stream id, t.streamCtx cnx stream = some id ->
      id < w.server.allocations ∧ session cnx stream = some (w.home id))
    (turns : ∀ id, Turn (valueAt w.server.heap id) (b id) (valueAt t.heap id) (logOf id effects)) :
    Sound (effects.foldl (World.perform target)
      { w with server := t, session, deeds := w.deeds ++ arrived }) := by
  obtain ⟨records, filed⟩ := sound.filed
  have settled := fun id (below : id < w.server.allocations) =>
    turn_inOrder (turns id) (given.fits id).later _ (filed.live id below)
  obtain ⟨table, after, performed, ledger, goals, untouched⟩ :=
    performed_attributed target w.server.allocations effects
      { w with server := t, session, deeds := w.deeds ++ arrived } records filed.ledger
      sound.named.single (fun id below => (settled id below).imp fun _ ran => ran.1)
      (fun e member => (acting_live given turns e member).elim
        fun p here => live_below sound.named e.1 p here)
      (acting_proper sound.named given turns _)
  rw [performed]
  refine ⟨sound.named.advance given listed allocations prefixes streams turns _ _, ⟨after, ?_⟩,
    sound.accounted.advance sound.named given allocations turns table⟩
  constructor
  · exact ledger
  · intro id below
    rw [allocations] at below
    obtain ⟨goal, run, rests⟩ := settled id below
    obtain rfl : goal = after (w.child id) := Option.some.inj (run.symm.trans (goals id below))
    exact rests
  · intro k free
    rw [allocations] at free
    rw [untouched k free]
    exact filed.unused k free

end

theorem stepOf_cases (id : Nat) (s : Server) (a : ServerStep)
    (later : ∀ cnx stream env, a ≠ .connect cnx stream env) :
    stepOf id s (.server a) = .callback .unhandled ∨
    (∃ cnx stream event, a = .onStream cnx stream event ∧ s.streamCtx cnx stream = some id ∧
      stepOf id s (.server a) = .callback (event.event stream)) ∨
    (∃ cnx control event, a = .onDatagram cnx control event ∧
      s.prefixCtx cnx control = some id ∧ stepOf id s (.server a) = .callback event.event) ∨
    (∃ waits, stepOf id s (.server a) = .callback (.deregister waits)) ∨
    ∃ mallocs, stepOf id s (.server a) = .loop mallocs := by
  cases a with
  | connect cnx stream env => exact absurd rfl (later cnx stream env)
  | onStream cnx stream event =>
    by_cases named : s.streamCtx cnx stream = some id ∧ (s.heap id).isSome = true
    · exact .inr (.inl ⟨cnx, stream, event, rfl, named.1, by simp [stepOf, stepFor, ifLive, named]⟩)
    · exact .inl (by simp [stepOf, stepFor, ifLive, named])
  | onDatagram cnx control event =>
    by_cases named : s.prefixCtx cnx control = some id ∧ (s.heap id).isSome = true
    · exact .inr (.inr (.inl ⟨cnx, control, event, rfl, named.1,
        by simp [stepOf, stepFor, ifLive, named]⟩))
    · exact .inl (by simp [stepOf, stepFor, ifLive, named])
  | deregister cnx control waits =>
    by_cases named : s.prefixCtx cnx control = some id ∧ (s.heap id).isSome = true
    · exact .inr (.inr (.inr (.inl ⟨waits, by simp [stepOf, stepFor, ifLive, named]⟩)))
    · exact .inl (by simp [stepOf, stepFor, ifLive, named])
  | loop mallocs => exact .inr (.inr (.inr (.inr ⟨mallocs id, rfl⟩)))
  | _ => exact .inl rfl

theorem admits_later {w : World} {a : ServerStep} (admitted : w.admits a = true) :
    ∀ cnx stream env, a ≠ .connect cnx stream env := by
  rintro cnx stream env rfl
  simp [World.admits] at admitted

theorem routed_grows {w : World} {a : ServerStep} (admitted : w.admits a = true)
    (cnx stream : Nat) (known : SessionId) (before : w.session cnx stream = some known) :
    w.routed a cnx stream = some known := by
  cases a with
  | join other number control =>
    simp only [World.routed, setAt_apply]
    split_ifs with here
    · obtain ⟨rfl, rfl⟩ := here
      simp [World.admits, before] at admitted
    · exact before
  | _ => exact before

theorem received_incomes (w : World) (a : ServerStep) (d : Deed) (member : d ∈ w.received a) :
    incoming d = true ∧ Placed w.deeds d := by
  cases a with
  | onStream cnx stream event =>
    cases event with
    | postData bytes env | postFin bytes env =>
      obtain rfl : d = _ := by simpa [World.received] using member
      exact ⟨rfl, trivial⟩
    | _ => simp [World.received] at member
  | onDatagram cnx control event =>
    cases event with
    | postDatagram bytes env =>
      obtain rfl : d = _ := by simpa [World.received] using member
      exact ⟨rfl, trivial⟩
    | _ => simp [World.received] at member
  | _ => simp [World.received] at member

theorem fits_silent (w : World) (session : Nat -> Nat -> Option SessionId) (arrived : List Deed)
    (target : Option SessionId) (id : Nat) (b : ConversationStep) (later : opens b = false)
    (posted : postedOn b = []) (message : clientMessage b = none) (output : childOutput b = none)
    (unasked : ∀ granted, b ≠ .callback (.provideDatagram granted)) :
    Fits w session arrived target id b :=
  ⟨later, by simp [posted], fun granted asks => absurd asks (unasked granted), by simp [message],
    by simp [output]⟩

theorem stream_fits {w : World} (named : Named w) (cnx stream id : Nat)
    (event : PeerRegistry.StreamEvent) (bound : w.server.streamCtx cnx stream = some id) :
    Fits w w.session (w.received (.onStream cnx stream event)) none id
      (.callback (event.event stream)) := by
  have owned := (named.streams cnx stream id bound).2
  have here : (w.home id).1 = cnx := named.stays cnx stream _ owned
  cases event with
  | postData bytes env | postFin bytes env =>
    refine ⟨rfl, ?_, by simp [PeerRegistry.StreamEvent.event], ?_, List.nil_sublist _⟩
    · simpa [PeerRegistry.StreamEvent.event, postedOn, here] using owned
    · simp [PeerRegistry.StreamEvent.event, clientMessage, World.received, receivedFrom, owned]
  | provideData mallocs | reset =>
    exact fits_silent _ _ _ _ _ _ rfl rfl rfl rfl (by simp [PeerRegistry.StreamEvent.event])

theorem datagram_fits {w : World} (named : Named w) (cnx control id : Nat)
    (event : PeerRegistry.DatagramEvent) (known : w.server.prefixCtx cnx control = some id) :
    Fits w w.session (w.received (.onDatagram cnx control event)) (some (cnx, control)) id
      (.callback event.event) := by
  have owned := (named.prefixes cnx control id known).2
  refine ⟨by cases event <;> rfl, ?_, fun granted asks => by rw [owned], ?_, ?_⟩
  · cases event <;> simp [PeerRegistry.DatagramEvent.event, postedOn]
  · cases event <;> simp [PeerRegistry.DatagramEvent.event, clientMessage, World.received,
      receivedFrom, owned]
  · cases event <;> exact List.nil_sublist _

theorem server_given {w : World} (named : Named w) (a : ServerStep)
    (admitted : w.admits a = true) :
    Given w (w.routed a) (w.received a) (target a) fun id => stepOf id w.server (.server a) := by
  refine ⟨routed_grows admitted, fun cnx stream known there => ?_, received_incomes w a,
    fun id => ?_⟩
  · cases a with
    | join other number control =>
      simp only [World.routed, setAt_apply] at there
      split_ifs at there with here
      · rw [← Option.some.inj there, here.1]
      · exact named.stays cnx stream known there
    | _ => exact named.stays cnx stream known there
  · rcases stepOf_cases id w.server a (admits_later admitted) with
      same | ⟨cnx, stream, event, rfl, bound, same⟩ | ⟨cnx, control, event, rfl, known, same⟩ |
      ⟨waits, same⟩ | ⟨mallocs, same⟩ <;> rw [same]
    · exact fits_silent _ _ _ _ _ _ rfl rfl rfl rfl (by simp)
    · exact stream_fits named cnx stream id event bound
    · exact datagram_fits named cnx control id event known
    · exact fits_silent _ _ _ _ _ _ rfl rfl rfl rfl (by simp)
    · exact fits_silent _ _ _ _ _ _ rfl rfl rfl rfl (by simp)

theorem server_sound (w n : World) (a : ServerStep) (sound : Sound w)
    (admitted : w.admits a = true) (taken : w.serve a = some n)
    (intact : n.server.fault = false) : Sound n := by
  obtain ⟨t, step, rfl⟩ := Option.map_eq_some_iff.mp taken
  have given := server_given sound.named a admitted
  have kept := serverStep_kept w.server t a step (admits_later admitted)
  rw [performed_server] at intact
  obtain ⟨listed, turns⟩ := serve_turns w.server t a sound.named.listed step intact
  apply sound.advance given listed kept.allocations kept.prefixes _ turns
  intro cnx stream id bound
  rcases kept.streams cnx stream id bound with before | ⟨control, rfl, known⟩
  · obtain ⟨below, owned⟩ := sound.named.streams cnx stream id before
    exact ⟨below, given.grows _ _ _ owned⟩
  · obtain ⟨below, home⟩ := sound.named.prefixes cnx control id known
    exact ⟨below, by simp [World.routed, setAt_apply, home]⟩

theorem outputOf_owned {w : World} (sound : Sound w) (peer : Nat) (p : WtdPeer)
    (here : valueAt w.server.heap peer = some p) :
    w.outputOf peer = some (.pipeEnd (w.child peer) .stdout .reading) := by
  obtain ⟨records, filed⟩ := sound.filed
  have settled := filed.live peer (live_below sound.named peer p here)
  rw [here] at settled
  obtain ⟨cell, present, rfl⟩ := Option.map_eq_some_iff.mp here
  simp only [World.outputOf, present, Option.bind_some]
  exact fileAt_owned filed.ledger (w.child peer) .stdout _ settled.2.1 (by rw [settled.1]; rfl)

theorem reader_sound (w : World) (t : Server) (peer : Nat) (f : WtdPeer -> WtdPeer)
    (a : HostStep) (b : ConversationStep) (arrived : List Deed) (sound : Sound w)
    (taken : w.server.access peer f = some t) (intact : t.fault = false)
    (same : hostStep (fun h _ => h) { server := w.server, log := [] } a =
      (w.server.access peer f).map fun t => { server := t, log := [] })
    (kind : ∀ id, stepOf id w.server a = if peer = id then b else .callback .unhandled)
    (incomes : ∀ d ∈ arrived, incoming d = true ∧ Placed w.deeds d)
    (fits : Fits w w.session arrived none peer b) :
    Sound { w with server := t, deeds := w.deeds ++ arrived } := by
  have kept := kept_of_names (.loop fun _ _ => true) (access_names w.server t peer f taken)
  obtain ⟨listed, turns⟩ := access_turns w.server t peer f a sound.named.listed taken intact same
  have given : Given w w.session arrived none fun id => stepOf id w.server a := by
    refine ⟨fun _ _ _ known => known, sound.named.stays, incomes, fun id => ?_⟩
    rw [kind]
    split_ifs with own
    · exact own ▸ fits
    · exact fits_silent _ _ _ _ _ _ rfl rfl rfl rfl (by simp)
  exact sound.advance given listed kept.allocations kept.prefixes
    (fun cnx stream id bound => sound.named.streams cnx stream id
      ((kept.streams cnx stream id bound).resolve_right (by simp))) turns

end WebTransportD.Accounting
