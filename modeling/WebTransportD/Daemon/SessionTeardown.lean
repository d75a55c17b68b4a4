import WebTransportD.Adapters.PeerDelivery
import WebTransportD.Shared.Execution

set_option autoImplicit false

namespace WebTransportD.SessionTeardown

open WebTransportD.Frame Session ChildProcess TransportPeer PeerDelivery Execution

-- One WebTransport session with its child; `log` records what the daemon has done.
structure Conversation where
  peer : Option WtdPeer
  childExited : Bool
  log : List Effect

inductive ConversationStep where
  | callback (event : Event)
  | loop (mallocs : Nat -> Bool)
  | output (malloc : Bool) (flag : UInt8) (payload : List UInt8)
  | outputEof
  | childExit

def causesEof (child : WtdChild) : Effect -> Bool
  | .sys (.close fd) => fd == child.stdinFd
  | .sys (.kill pid _) => pid == child.pid
  | _ => false

def spawnedOf : Effect -> Option WtdChild
  | .spawn child => some child
  | _ => none

-- A child exits only once its stdin is closed or it has been signalled.
def mayExit (log : List Effect) : Bool :=
  (log.filterMap spawnedOf).all fun child => log.any (causesEof child)

def idle : Conversation :=
  { peer := none, childExited := false, log := [] }

def conversationStep (t : Conversation) : ConversationStep -> Option Conversation
  | .callback event =>
      let made := wtSessionCb t.peer event
      some { t with peer := made.1, log := t.log ++ made.2.1 }
  | .loop mallocs =>
      match t.peer with
      | none => some t
      | some p =>
          let made := peerPump p mallocs
          some { t with peer := some made.1, log := t.log ++ made.2 }
  | .output malloc flag payload =>
      t.peer.map fun p =>
        { t with peer := some { p with
            session := wtdSessionOnOutput p.session malloc flag payload } }
  | .outputEof =>
      t.peer.map fun p =>
        { t with peer := some { p with session := wtdSessionOnOutputEof p.session } }
  | .childExit => if mayExit t.log then some { t with childExited := true } else none

def inSession : ConversationStep -> Bool
  | .callback (.connect _ _) | .callback (.deregister _) => false
  | _ => true

def finishes (control : Nat) : ConversationStep -> Bool
  | .callback (.postFin stream _ _) => stream != control
  | _ => false

def StopsAfterEof (log : List Effect) : Prop :=
  ∀ before joined after, log = before ++ .outputStop joined :: after ->
    ∃ child, .spawn child ∈ before ∧ before.any (causesEof child) = true

def sessionSchedule (stream : Nat) (env : ConnectEnv) (middle : List ConversationStep)
    (waits : Nat -> WaitOutcome) : List ConversationStep :=
  .callback (.connect stream env) :: (middle ++ [.callback (.deregister waits)])

def creates (env : ConnectEnv) : Bool :=
  env.malloc && env.spawn.isSome && env.outputStart

def quiet : Effect -> Bool
  | .spawn _ | .outputStop _ | .sys (.close _) | .sys (.kill _ _) => false
  | _ => true

structure Steady (p q : WtdPeer) (effects : List Effect) : Prop where
  child : q.child = p.child
  control : q.controlStreamId = p.controlStreamId
  input : q.session.childInputClosed = p.session.childInputClosed
  quiet : ∀ e ∈ effects, quiet e = true

theorem Steady.refl (p : WtdPeer) : Steady p p [] :=
  ⟨rfl, rfl, rfl, by simp⟩

theorem Steady.trans {p q r : WtdPeer} {first second : List Effect} (here : Steady p q first)
    (later : Steady q r second) : Steady p r (first ++ second) where
  child := later.child.trans here.child
  control := later.control.trans here.control
  input := later.input.trans here.input
  quiet := by
    intro e member
    rcases List.mem_append.mp member with early | late
    · exact here.quiet e early
    · exact later.quiet e late

theorem transportCall_steady (p : WtdPeer) (c : TransportCall) :
    Steady p (transportCall p c).1 (transportCall p c).2 := by
  cases c with
  | sendStream data ret =>
    refine ⟨rfl, rfl, rfl, ?_⟩
    simp only [transportCall, peerSendStream]
    split_ifs <;> simp [quiet]
  | sendDatagram data ret =>
    simp only [transportCall, peerSendDatagram]
    split_ifs
    · exact ⟨rfl, rfl, rfl, by simp [quiet]⟩
    · exact .refl p
  | sendFin ret =>
    refine ⟨rfl, rfl, rfl, ?_⟩
    simp only [transportCall, peerSendFin]
    split_ifs <;> simp [quiet]

theorem peerPump_steady (p : WtdPeer) (mallocs : Nat -> Bool) :
    Steady p (peerPump p mallocs).1 (peerPump p mallocs).2 := by
  have sent := carryOut_rule transportCall Steady .refl
    (fun _ _ _ _ _ here later => here.trans later) transportCall_steady
    { p with session := (wtdSessionPump p.session (transportPort p mallocs)).1 }
    (wtdSessionPump p.session (transportPort p mallocs)).2
  have input : (wtdSessionPump p.session (transportPort p mallocs)).1.childInputClosed =
      p.session.childInputClosed := by
    simp only [wtdSessionPump]
    split_ifs <;> rfl
  exact ⟨sent.child, sent.control, sent.input.trans input, sent.quiet⟩

theorem message_steady (p : WtdPeer) (flag : UInt8) (data : List UInt8) (env : DeliverEnv) :
    Steady p p (messageEffects p flag data env) := by
  refine ⟨rfl, rfl, rfl, ?_⟩
  unfold messageEffects
  split_ifs <;> simp [quiet]

theorem post_steady (p : WtdPeer) (stream : Nat) (bytes : List UInt8) (env : DeliverEnv) :
    Steady p (bindDataStream p stream) (messageEffects p wtdFrameFlagReliable bytes env) := by
  obtain ⟨session, child, control⟩ := bind_fields p stream
  exact ⟨child, control, by rw [session], (message_steady p _ bytes env).quiet⟩

theorem postData_steady (p : WtdPeer) (stream : Nat) (bytes : List UInt8) (env : DeliverEnv) :
    Steady p (postStream p stream bytes env false).1 (postStream p stream bytes env false).2 := by
  by_cases control : stream = p.controlStreamId
  · simpa [postStream, control] using Steady.refl p
  · rw [postStream_eq p stream bytes env false control]
    simpa using post_steady p stream bytes env

theorem provideDatagram_steady (p : WtdPeer) (granted : Bool) :
    Steady p (provideDatagram p granted).1 (provideDatagram p granted).2 := by
  rcases queue : p.dgrams with _ | ⟨d, rest⟩
  · simpa [provideDatagram, queue] using Steady.refl p
  · simp only [provideDatagram, queue]
    refine ⟨rfl, rfl, rfl, ?_⟩
    split_ifs <;> simp [quiet]

def isStop : Effect -> Bool
  | .outputStop _ => true
  | _ => false

-- The peer is connected; `finished` tells whether a FIN has already closed the child's stdin.
structure Live (stream : Nat) (spawned : Spawned) (finished : Bool) (p : WtdPeer)
    (log : List Effect) : Prop where
  control : p.controlStreamId = stream
  input : p.session.childInputClosed = finished
  child : p.child =
    { spawned.child with stdinFd := if finished then -1 else spawned.child.stdinFd }
  spawn : log.filterMap spawnedOf = [spawned.child]
  eof : log.any (causesEof spawned.child) = finished
  running : log.any isStop = false

theorem quiet_spawn (effects : List Effect) (silent : ∀ e ∈ effects, quiet e = true) :
    effects.filterMap spawnedOf = [] := by
  apply List.filterMap_eq_nil_iff.mpr
  intro e member
  have here := silent e member
  cases e <;> simp_all [quiet, spawnedOf]

theorem quiet_any (mark : Effect -> Bool) (loud : ∀ e, mark e = true -> quiet e = false)
    (effects : List Effect) (silent : ∀ e ∈ effects, quiet e = true) :
    effects.any mark = false := by
  apply List.any_eq_false.mpr
  intro e member marked
  have here := silent e member
  rw [loud e marked] at here
  cases here

theorem causesEof_loud (child : WtdChild) (e : Effect) (caused : causesEof child e = true) :
    quiet e = false := by
  rcases e with _ | ⟨_ | _ | _ | _ | _⟩ | _ | _ | _ | _ | _ | _ <;> simp_all [quiet, causesEof]

theorem isStop_loud (e : Effect) (stop : isStop e = true) : quiet e = false := by
  cases e <;> simp_all [quiet, isStop]

theorem Live.steady {stream : Nat} {spawned : Spawned} {finished : Bool} {p q : WtdPeer}
    {log effects : List Effect} (live : Live stream spawned finished p log)
    (steady : Steady p q effects) : Live stream spawned finished q (log ++ effects) where
  control := steady.control.trans live.control
  input := steady.input.trans live.input
  child := steady.child.trans live.child
  spawn := by
    rw [List.filterMap_append, live.spawn, quiet_spawn effects steady.quiet, List.append_nil]
  eof := by
    rw [List.any_append, live.eof, quiet_any _ (causesEof_loud _) effects steady.quiet,
      Bool.or_false]
  running := by
    rw [List.any_append, live.running, quiet_any _ isStop_loud effects steady.quiet,
      Bool.or_false]

theorem Live.fin {stream : Nat} {spawned : Spawned} {finished : Bool} {p : WtdPeer}
    {log : List Effect} (live : Live stream spawned finished p log) :
    Live stream spawned true (inputClosed p)
      (log ++ if closesStdin p then [.sys (.close p.child.stdinFd)] else []) := by
  cases finished with
  | true =>
    have closed : closesStdin p = false := by simp [closesStdin, live.input]
    refine ⟨live.control, rfl, by simp [inputClosed, closed, live.child], ?_, ?_, ?_⟩
    · simpa [closed] using live.spawn
    · simpa [closed] using live.eof
    · simpa [closed] using live.running
  | false =>
    have opened : p.child.stdinFd = spawned.stdin := by simp [live.child, Spawned.child]
    have closes : closesStdin p = true := by simp [closesStdin, live.input, opened]
    refine ⟨live.control, rfl, by simp [inputClosed, closes, live.child], ?_, ?_, ?_⟩
    · rw [List.filterMap_append, live.spawn, closes]
      rfl
    · simp [closes, causesEof, opened, Spawned.child]
    · rw [List.any_append, live.running, closes]
      rfl

theorem session_callback (stream : Nat) (spawned : Spawned) (finished : Bool) (p : WtdPeer)
    (log : List Effect) (event : Event) (live : Live stream spawned finished p log)
    (within : inSession (.callback event) = true) :
    ∃ q, (wtSessionCb (some p) event).1 = some q ∧
      Live stream spawned (finished || finishes stream (.callback event)) q
        (log ++ (wtSessionCb (some p) event).2.1) := by
  cases event with
  | connect stream env => simp [inSession] at within
  | deregister waits => simp [inSession] at within
  | postData id bytes env =>
    simpa [wtSessionCb, finishes] using live.steady (postData_steady p id bytes env)
  | postFin id bytes env =>
    by_cases control : id = stream
    · -- A FIN on the control stream is skipped with the rest of its data.
      subst control
      have skipped : postStream p id bytes env true = (p, []) := by
        simp [postStream, live.control]
      simpa [wtSessionCb, finishes, skipped] using live
    · have other : id ≠ p.controlStreamId := by rwa [live.control]
      have closed := (live.steady (post_steady p id bytes env)).fin
      rw [List.append_assoc, closesStdin_bind, (bind_fields p id).2.1] at closed
      have told : (finished || finishes stream (.callback (.postFin id bytes env))) = true := by
        simp [finishes, control]
      refine ⟨inputClosed (bindDataStream p id), ?_, ?_⟩
      · simp [wtSessionCb, postStream_eq p id bytes env true other]
      · rw [told]
        simpa [wtSessionCb, postStream_eq p id bytes env true other] using closed
  | postDatagram bytes env =>
    by_cases filled : bytes.length > 0
    · have delivered := live.steady (message_steady p wtdFrameFlagUnreliable bytes env)
      have message := deliver_message p wtdFrameFlagUnreliable bytes env (.inr rfl)
      simpa [wtSessionCb, finishes, filled, wtdSessionDeliverDatagram, message] using delivered
    · simpa [wtSessionCb, finishes, filled] using live
  | provideData mallocs =>
    simpa [wtSessionCb, finishes] using live.steady (peerPump_steady p mallocs)
  | provideDatagram granted =>
    simpa [wtSessionCb, finishes] using
      live.steady (provideDatagram_steady p granted)
  | unhandled => simpa [wtSessionCb, finishes] using live

theorem session_step (stream : Nat) (spawned : Spawned) (finished : Bool) (p : WtdPeer)
    (t : Conversation) (a : ConversationStep) (u : Conversation) (connected : t.peer = some p)
    (live : Live stream spawned finished p t.log) (within : inSession a = true)
    (taken : conversationStep t a = some u) :
    ∃ q, u.peer = some q ∧ Live stream spawned (finished || finishes stream a) q u.log := by
  cases a with
  | callback event =>
    simp only [conversationStep, Option.some.injEq, connected] at taken
    rw [← taken]
    exact session_callback stream spawned finished p t.log event live within
  | loop mallocs =>
    simp only [conversationStep, connected, Option.some.injEq] at taken
    rw [← taken]
    simpa [finishes] using live.steady (peerPump_steady p mallocs)
  | output malloc flag payload =>
    simp only [conversationStep, connected, Option.map_some, Option.some.injEq] at taken
    rw [← taken]
    have queued : Steady p
        { p with session := wtdSessionOnOutput p.session malloc flag payload } [] := by
      refine ⟨rfl, rfl, ?_, by simp⟩
      simp only [wtdSessionOnOutput]
      split_ifs <;> rfl
    simpa [finishes] using live.steady queued
  | outputEof =>
    simp only [conversationStep, connected, Option.map_some, Option.some.injEq] at taken
    rw [← taken]
    have marked : Steady p { p with session := wtdSessionOnOutputEof p.session } [] :=
      ⟨rfl, rfl, rfl, by simp⟩
    simpa [finishes] using live.steady marked
  | childExit =>
    simp only [conversationStep] at taken
    split_ifs at taken
    rw [← Option.some.inj taken]
    exact ⟨p, connected, by simpa [finishes] using live⟩

theorem session_run (stream : Nat) (spawned : Spawned) (finished : Bool) (p : WtdPeer)
    (t u : Conversation) (middle : List ConversationStep) (connected : t.peer = some p)
    (live : Live stream spawned finished p t.log) (within : ∀ a ∈ middle, inSession a = true)
    (run : exec conversationStep t middle = some u) :
    ∃ q, u.peer = some q ∧
      Live stream spawned (finished || middle.any (finishes stream)) q u.log := by
  induction middle generalizing t p finished with
  | nil =>
    simp only [exec_nil, Option.some.injEq] at run
    exact ⟨p, run ▸ connected, by simpa [← run] using live⟩
  | cons a rest ih =>
    obtain ⟨next, taken, later⟩ := (exec_cons _ t u a rest).mp run
    obtain ⟨q, here, alive⟩ := session_step stream spawned finished p t a next connected live
      (within a List.mem_cons_self) taken
    simpa [Bool.or_assoc] using ih (finished || finishes stream a) q next here alive
      (fun b member => within b (List.mem_cons_of_mem a member)) later

theorem peerless_run (t u : Conversation) (schedule : List ConversationStep)
    (gone : t.peer = none)
    (within : ∀ a ∈ schedule, ∀ stream env, a ≠ .callback (.connect stream env))
    (run : exec conversationStep t schedule = some u) : u.log = t.log := by
  have met : Meets conversationStep (fun _ a => ∀ stream env, a ≠ .callback (.connect stream env))
      t schedule := by
    refine meets_of_forall _ _ _ _ fun first a second _ _ split _ _ => within a ?_
    rw [split]
    simp
  have kept := exec_invariant_meets conversationStep _ (fun v => v.peer = none ∧ v.log = t.log)
    ?_ t u schedule ⟨gone, rfl⟩ met run
  · exact kept.2
  · rintro v a w ⟨none, same⟩ unconnected taken
    cases a with
    | callback event =>
      cases event with
      | connect stream env => exact absurd rfl (unconnected stream env)
      | _ => simp_all [conversationStep, wtSessionCb, ← Option.some.inj taken]
    | loop mallocs => simp_all [conversationStep]
    | output malloc flag payload => simp [conversationStep, none] at taken
    | outputEof => simp [conversationStep, none] at taken
    | childExit =>
      simp only [conversationStep] at taken
      split_ifs at taken
      simp [← Option.some.inj taken, none, same]

theorem stop_unique (log rest before after : List Effect) (one other : Bool)
    (early : log.any isStop = false) (late : rest.any isStop = false)
    (same : log ++ .outputStop one :: rest = before ++ .outputStop other :: after) :
    before = log := by
  induction log generalizing before with
  | nil =>
    cases before with
    | nil => rfl
    | cons e more =>
      have tail : rest = more ++ .outputStop other :: after := by simpa using (List.cons.inj same).2
      simp [tail, isStop] at late
  | cons e more ih =>
    simp only [List.any_cons, Bool.or_eq_false_iff] at early
    cases before with
    | nil =>
      have head : e = .outputStop other := (List.cons.inj same).1
      simp [head, isStop] at early
    | cons f others =>
      obtain ⟨rfl, tail⟩ := List.cons.inj same
      rw [ih others early.2 tail]

theorem stops_after_eof_iff (log rest : List Effect) (joined : Bool) (child : WtdChild)
    (early : log.any isStop = false) (late : rest.any isStop = false)
    (spawn : log.filterMap spawnedOf = [child]) :
    StopsAfterEof (log ++ .outputStop joined :: rest) ↔ log.any (causesEof child) = true := by
  have only : ∀ c, .spawn c ∈ log ↔ c = child := by
    intro c
    have listed : .spawn c ∈ log ↔ c ∈ log.filterMap spawnedOf := by
      rw [List.mem_filterMap]
      constructor
      · intro member
        exact ⟨_, member, rfl⟩
      · rintro ⟨e, member, which⟩
        cases e <;> simp_all [spawnedOf]
    rw [listed, spawn, List.mem_singleton]
  constructor
  · intro safe
    obtain ⟨c, member, caused⟩ := safe log joined rest rfl
    rwa [(only c).mp member] at caused
  · intro caused before other after split
    rw [stop_unique log rest before after joined other early late split]
    exact ⟨child, (only child).mpr rfl, caused⟩

theorem peerRemove_shape (p : WtdPeer) (waits : Nat -> WaitOutcome) :
    ∃ rest, peerRemove p waits = .outputStop p.threadStarted :: rest ∧ rest.any isStop = false :=
  ⟨_, rfl, by simp [isStop]⟩

theorem connect_cases (stream : Nat) (env : ConnectEnv) :
    (creates env = false ∧ (wtSessionCb none (.connect stream env)).1 = none ∧
      (wtSessionCb none (.connect stream env)).2.1.any isStop = false) ∨
    (∃ spawned rest joined, creates env = true ∧ env.declarePrefix = false ∧
      (wtSessionCb none (.connect stream env)).1 = none ∧ rest.any isStop = false ∧
      (wtSessionCb none (.connect stream env)).2.1 =
        [.spawn (Spawned.child spawned), .outputStart] ++ .outputStop joined :: rest) ∨
    (∃ spawned p, creates env = true ∧ env.declarePrefix = true ∧
      (wtSessionCb none (.connect stream env)).1 = some p ∧
      Live stream spawned false p (wtSessionCb none (.connect stream env)).2.1) := by
  cases allocated : env.malloc with
  | false => exact .inl (by simp [creates, wtSessionCb, peerCreate, allocated])
  | true =>
    rcases started : env.spawn with _ | spawned
    · exact .inl (by simp [creates, wtSessionCb, peerCreate, allocated, started])
    cases reader : env.outputStart with
    | false =>
      exact .inl (by simp [creates, wtSessionCb, peerCreate, allocated, started, reader, isStop])
    | true =>
      have created : creates env = true := by simp [creates, allocated, started, reader]
      have made : peerCreate env =
          (some (freshPeer spawned), [.spawn spawned.child, .outputStart]) := by
        simp [peerCreate, allocated, started, reader]
      cases declared : env.declarePrefix with
      | false =>
        obtain ⟨rest, shape, quiet⟩ := peerRemove_shape
          { freshPeer spawned with controlStreamId := stream } env.waits
        refine .inr (.inl ⟨spawned, rest, true, created, rfl, ?_, quiet, ?_⟩)
        · simp [wtSessionCb, made, declared]
        · simp only [wtSessionCb, made, declared, Bool.false_eq_true, if_false, shape]
          rfl
      | true =>
        refine .inr (.inr ⟨spawned, { freshPeer spawned with controlStreamId := stream }, created,
          rfl, ?_, ?_⟩)
        · simp [wtSessionCb, made, declared]
        · simp only [wtSessionCb, made, declared, if_true]
          exact ⟨rfl, rfl, rfl, rfl, rfl, rfl⟩

theorem reader_joined_after_eof_iff (stream : Nat) (env : ConnectEnv)
    (middle : List ConversationStep) (waits : Nat -> WaitOutcome) (t : Conversation)
    (within : ∀ a ∈ middle, inSession a = true)
    (run : exec conversationStep idle (sessionSchedule stream env middle waits) = some t) :
    StopsAfterEof t.log ↔
      (creates env = true ->
        env.declarePrefix = true ∧ ∃ a ∈ middle, finishes stream a = true) := by
  obtain ⟨next, taken, later⟩ := (exec_cons _ idle t _ _).mp run
  simp only [conversationStep, idle, List.nil_append, Option.some.injEq] at taken
  have settled : ∀ a ∈ middle ++ [.callback (.deregister waits)],
      ∀ stream env, a ≠ .callback (.connect stream env) := by
    rintro a member stream env rfl
    rcases List.mem_append.mp member with inside | last
    · simpa [inSession] using within _ inside
    · simp at last
  rcases connect_cases stream env with ⟨failed, gone, quiet⟩ |
    ⟨spawned, rest, joined, created, refused, gone, quiet, shape⟩ |
    ⟨spawned, p, created, declared, connected, live⟩
  · have same : t.log = (wtSessionCb none (.connect stream env)).2.1 := by
      rw [peerless_run next t _ (by rw [← taken]; exact gone) settled later, ← taken]
    refine ⟨fun _ yes => absurd yes (by simp [failed]), fun _ before other after split => ?_⟩
    rw [← same, split] at quiet
    simp [isStop] at quiet
  · -- The prefix could not be declared: the new peer is removed with the child's stdin open.
    rw [peerless_run next t _ (by rw [← taken]; exact gone) settled later, ← taken, shape,
      stops_after_eof_iff _ rest joined spawned.child rfl quiet rfl]
    simp [causesEof, created, refused]
  · obtain ⟨last, inside, ended⟩ := (exec_append _ next t middle _).mp later
    obtain ⟨q, here, alive⟩ := session_run stream spawned false p next last middle
      (by rw [← taken]; exact connected) (by rw [← taken]; exact live) within inside
    obtain ⟨rest, shape, quiet⟩ := peerRemove_shape q waits
    have removed : t.log = last.log ++ .outputStop q.threadStarted :: rest := by
      simp only [exec, conversationStep, here, wtSessionCb, shape, Option.bind_some,
        Option.some.injEq] at ended
      rw [← ended]
    rw [removed, stops_after_eof_iff _ rest _ spawned.child alive.running quiet alive.spawn,
      alive.eof, Bool.false_or, List.any_eq_true]
    simp [created, declared]

def smoothConnect : ConnectEnv :=
  { malloc := true, spawn := some ⟨100, 5, 6, 7, by decide⟩, outputStart := true
    declarePrefix := true, waits := fun _ => .reaped }

def oneMessage : ConversationStep :=
  .callback (.postData 4 [104, 105] { malloc := true, block := fun _ => 0, ret := 4 })

def peerFin : ConversationStep :=
  .callback (.postFin 4 [] { malloc := true, block := fun _ => 0, ret := 0 })

theorem reader_joined_after_peer_fin :
    ∃ t, exec conversationStep idle
        (sessionSchedule 0 smoothConnect [oneMessage, peerFin, .childExit] fun _ => .reaped) =
          some t ∧
      StopsAfterEof t.log :=
  ⟨_, rfl, (reader_joined_after_eof_iff 0 smoothConnect [oneMessage, peerFin, .childExit]
    (fun _ => .reaped) _ (by simp [oneMessage, peerFin, inSession]) rfl).mpr
      fun _ => ⟨rfl, peerFin, by simp, rfl⟩⟩

-- The peer sends a message and goes away without finishing its stream.
theorem reader_joined_with_stdin_open :
    ∃ t before after, exec conversationStep idle
        (sessionSchedule 0 smoothConnect [oneMessage] fun _ => .reaped) = some t ∧
      t.log = before ++ .outputStop true :: after ∧ mayExit before = false ∧
      ¬ StopsAfterEof t.log := by
  refine ⟨_, [.spawn ⟨100, 5, 6, 7⟩, .outputStart, .sys (.write 5 [0, 2, 104, 105] 4)], _, rfl, rfl,
    rfl, ?_⟩
  intro safe
  obtain ⟨child, member, caused⟩ :=
    safe [.spawn ⟨100, 5, 6, 7⟩, .outputStart, .sys (.write 5 [0, 2, 104, 105] 4)] true _ rfl
  simp [causesEof] at caused

end WebTransportD.SessionTeardown
