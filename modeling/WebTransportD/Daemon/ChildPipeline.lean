import WebTransportD.Adapters.ReaderFeed
import WebTransportD.Children.FrameChild
import WebTransportD.Daemon.EchoPipeline
import WebTransportD.Shared.Simulation

set_option autoImplicit false

namespace WebTransportD.ChildPipeline

open WebTransportD.Frame Memory Session Execution Simulation ChildOutput ReaderFeed PumpThreads
open SessionInput FrameChild
open EchoPipeline (PeerMessage Pipeline PipelineStep pipelineStep)

-- One session with one of the child programs: `run` has the child with the bytes in its two pipes,
-- and `inbox` the peer's messages to come.
structure Relay where
  inbox : List PeerMessage
  run : ChildRun
  reader : Reader
  threads : Threads

inductive RelayStep where
  | deliver (env : DeliverEnv)
  | fin
  | child (a : RunStep)
  | take (n : Nat)
  | eof
  | readFails (eintr : Bool)
  | advance (malloc : Bool)
  | pump (a : ThreadStep)

def startWith (block : Nat -> UInt8) (messages : List PeerMessage) : Relay :=
  { inbox := messages, run := childOn [] block, reader := readerStart true, threads := initial }

def hasExited (c : Child) : Bool :=
  match c.pc with
  | .exited _ => true
  | _ => false

def hear (malloc : Bool) (t : Threads) : ReaderCall -> Threads
  | .onOutput flag payload =>
      { t with
        session := wtdSessionOnOutput t.session malloc flag payload
        pushed := if malloc then t.pushed ++ [{ flag, payload }] else t.pushed }
  | .onOutputEof => { t with session := wtdSessionOnOutputEof t.session }
  | .wake => t

def readerTurn (wake malloc : Bool) (p : Relay) (a : ReaderStep) (stdout : List UInt8) :
    Option Relay :=
  (readerMain wake p.reader a).map fun made =>
    { p with
      run := { p.run with stdout }
      reader := made.1
      threads := made.2.foldl (hear malloc) p.threads }

def ofReader : ThreadStep -> Bool
  | .push _ | .setEof => true
  | .drain | .send _ | .load | .sendFin _ => false

-- The child meets end of file when the daemon has closed its end, and the client sends nothing
-- after its FIN. Whatever else the system may refuse, it may refuse here.
def relayStep (filter : PayloadFilter) (wake : Bool) (p : Relay) :
    RelayStep -> Option Relay
  | .deliver env =>
      match p.inbox with
      | [] => none
      | m :: rest =>
          let result :=
            if m.reliable then wtdSessionDeliverStream p.threads.session m.data env
            else wtdSessionDeliverDatagram p.threads.session m.data env
          some { p with
            inbox := rest
            run := { p.run with stdin := p.run.stdin ++ childInput result.2 }
            threads := { p.threads with session := result.1 } }
  | .fin =>
      if p.inbox.isEmpty then
        some { p with
          threads := { p.threads with session := (wtdSessionDeliverFin p.threads.session).1 } }
      else none
  | .child a =>
      if a == .eof && !p.threads.session.childInputClosed then none
      else (runStep filter p.run a).map fun run => { p with run }
  | .take n =>
      if 0 < n ∧ n ≤ p.run.stdout.length ∧ n ≤ wtdReadBufSize - p.reader.buf.length then
        readerTurn wake true p (.read (.got (p.run.stdout.take n))) (p.run.stdout.drop n)
      else none
  | .eof =>
      if hasExited p.run.child ∧ p.run.stdout = [] then
        readerTurn wake true p (.read (.got [])) []
      else none
  | .readFails eintr => readerTurn wake true p (.read (.failed eintr)) p.run.stdout
  | .advance malloc => readerTurn wake malloc p .advance p.run.stdout
  | .pump a =>
      if ofReader a then none else (threadStep p.threads a).map fun threads => { p with threads }

-- The daemon's write takes the whole frame, allocations succeed, the transport takes what it is
-- given, and no read or write of the child or read of the reader fails for good.
def smooth (p : Relay) : RelayStep -> Bool
  | .deliver env => env.malloc && p.inbox.head?.all fun m => env.ret == neededSize m.data
  | .child a => !a.fails
  | .readFails eintr => eintr
  | .advance malloc => malloc
  | .pump a => EchoPipeline.accepted a
  | .fin | .take _ | .eof => true

def smoothStep (filter : PayloadFilter) (wake : Bool) : Relay -> RelayStep -> Option Relay :=
  restricted (relayStep filter wake) smooth

def answered (filter : PayloadFilter) (m : PeerMessage) : PeerMessage where
  reliable := m.reliable
  data := filter.apply m.data
  filled := by
    intro empty
    have length := filter.length_apply m.data
    rw [empty, List.length_nil] at length
    exact m.filled (List.eq_nil_of_length_eq_zero length.symm)
  small := by
    rw [filter.length_apply]
    exact m.small

-- What the child has still to write stands in the pipe of an ideal child that copies bytes.
def view (filter : PayloadFilter) (p : Relay) : Pipeline :=
  { inbox := p.inbox.map (answered filter)
    stdin := p.run.child.remaining filter p.run.stdin
    stdout := p.run.stdout
    childExited := hasExited p.run.child
    reader := p.reader
    threads := p.threads }

def label : RelayStep -> Option PipelineStep
  | .deliver env => some (.deliver env.block)
  | .fin => some .fin
  | .child (.write (.took n)) => some (.echo n)
  | .child .eof => some .exit
  | .child _ => none
  | .take n => some (.take n)
  | .eof => some .eof
  | .readFails _ => some .eintr
  | .advance _ => some .advance
  | .pump a => some (.pump a)

def Boundary (filter : PayloadFilter) (bytes : List UInt8) : Prop :=
  ∀ more, replies filter (bytes ++ more) = replies filter bytes ++ replies filter more ∧
    exitCode (bytes ++ more) = exitCode more

theorem boundary_nil (filter : PayloadFilter) : Boundary filter [] := fun more => by
  simp [(replies_nil filter).1]

theorem boundary_frame (filter : PayloadFilter) (bytes : List UInt8) (flag : UInt8)
    (payload : List UInt8) (known : KnownFlag flag) (small : payload.length ≤ wtdFrameMaxPayload)
    (boundary : Boundary filter bytes) :
    Boundary filter (bytes ++ canonicalFrame flag payload) ∧
      replies filter (bytes ++ canonicalFrame flag payload) =
        replies filter bytes ++ canonicalFrame flag (filter.apply payload) := by
  have alone := replies_frame filter flag payload [] known small
  rw [List.append_nil, (replies_nil filter).1, List.append_nil] at alone
  refine ⟨fun more => ?_, by rw [(boundary _).1, alone.1]⟩
  obtain ⟨first, code⟩ := replies_frame filter flag payload more known small
  rw [List.append_assoc, (boundary _).1, (boundary _).1, (boundary _).2, first, code, alone.1,
    List.append_assoc]
  exact ⟨rfl, rfl⟩

theorem boundary_decoded (filter : PayloadFilter) (buf rest : List UInt8) (d : Decoded)
    (ok : wtdFrameDecode buf = .ok d) (room : buf.length ≤ bufCap)
    (boundary : Boundary filter (buf ++ rest)) : Boundary filter (buf.drop d.consumed ++ rest) := by
  intro more
  obtain ⟨replied, code⟩ := boundary more
  have first := replies_ok filter buf (rest ++ more) d ok room
  have alone := replies_ok filter buf rest d ok room
  have later := IncrementalParse.ending_item frameParser bufCap buf (rest ++ more) _ _
    (parseFrame_ok _ d ok) room
  rw [List.append_assoc, first, alone, List.append_assoc, List.append_cancel_left_eq] at replied
  rw [List.append_assoc, exitCode, later, ← exitCode] at code
  rw [List.append_assoc]
  exact ⟨replied, code⟩

def unanswered (c : Child) : List UInt8 :=
  match c.pc with
  | .reading | .decoding => c.inBuf
  | .writing _ _ consumed => c.inBuf.drop consumed
  | .exited _ => []

-- The daemon writes whole frames, so that what is not answered is always a number of them.
structure Whole (filter : PayloadFilter) (p : Relay) : Prop where
  sound : p.run.child.Sound
  boundary : Boundary filter (unanswered p.run.child ++ p.run.stdin)
  finished : p.threads.session.childInputClosed = true -> p.inbox = []
  exited : hasExited p.run.child = true -> p.inbox = [] ∧ p.run.stdin = []

theorem start_whole (filter : PayloadFilter) (block : Nat -> UInt8) (messages : List PeerMessage) :
    Whole filter (startWith block messages) where
  sound := (childOn_onCourse filter [] block).sound
  boundary := boundary_nil filter
  finished := by simp [startWith, initial, wtdSessionInit]
  exited := by simp [startWith, childOn, childStart, hasExited]

theorem remaining_frame (filter : PayloadFilter) (c : Child) (stdin : List UInt8) (m : PeerMessage)
    (running : hasExited c = false) (boundary : Boundary filter (unanswered c ++ stdin)) :
    c.remaining filter (stdin ++ m.frame) =
        c.remaining filter stdin ++ (answered filter m).frame ∧
      Boundary filter (unanswered c ++ (stdin ++ m.frame)) := by
  obtain ⟨next, more⟩ := boundary_frame filter _ _ m.data (flagOf_known m.reliable) m.small boundary
  rw [List.append_assoc] at next more
  refine ⟨?_, next⟩
  cases pc : c.pc with
  | exited code => simp [hasExited, pc] at running
  | writing outLen done consumed =>
    simp only [unanswered, pc] at more
    simp only [Child.remaining, pc, PeerMessage.frame, more, List.append_assoc]
    rfl
  | _ =>
    simp only [unanswered, pc] at more
    simp only [Child.remaining, pc, PeerMessage.frame, more]
    rfl

theorem label_silent (a : RunStep) (stdin : List UInt8)
    (reads : a.childStep stdin ≠ .read (.got []))
    (writes : ∀ n, a.childStep stdin ≠ .write (.took n)) :
    label (.child a) = none := by
  cases a with
  | eof => simp [RunStep.childStep] at reads
  | write result =>
    cases result with
    | took n => exact absurd rfl (writes n)
    | failed eintr => rfl
  | _ => rfl

theorem child_step (filter : PayloadFilter) (r : ChildRun) (a : RunStep) (s : ChildRun)
    (sound : r.child.Sound) (boundary : Boundary filter (unanswered r.child ++ r.stdin))
    (working : a.fails = false) (taken : runStep filter r a = some s) :
    s.child.Sound ∧ Boundary filter (unanswered s.child ++ s.stdin) ∧
      hasExited r.child = false ∧
      ((a = .eof ∧ hasExited s.child = true ∧ r.stdin = [] ∧ s.stdin = [] ∧
          r.child.remaining filter r.stdin = [] ∧ s.child.remaining filter s.stdin = [] ∧
          s.stdout = r.stdout) ∨
        (∃ n, a = .write (.took n) ∧ hasExited s.child = false ∧
          s.child.remaining filter s.stdin = (r.child.remaining filter r.stdin).drop n ∧
          s.stdout = r.stdout ++ (r.child.remaining filter r.stdin).take n) ∨
        (label (.child a) = none ∧ hasExited s.child = false ∧
          s.child.remaining filter s.stdin = r.child.remaining filter r.stdin ∧
          s.stdout = r.stdout)) := by
  obtain ⟨written, main, provided, stdout, onlyEof⟩ := runStep_child filter r a s taken
  have fails := (childStep_fails r.stdin a).trans working
  obtain ⟨remaining, fate⟩ := childMain_remaining sound provided fails main
  have silent := label_silent a r.stdin
  have code : exitCode (unanswered r.child ++ r.stdin) = 0 := by
    have whole := (boundary []).2
    rwa [List.append_nil, (replies_nil filter).2] at whole
  refine ⟨childMain_sound sound provided main, ?_⟩
  rcases childMain_cases filter r.child _ s.child written main with
    ⟨step, pc, space, next, rfl⟩ | ⟨chunk, step, filled, pc, space, next, rfl⟩ |
    ⟨interrupted, next, rfl⟩ | ⟨failed, -⟩ |
    ⟨n, outLen, done, consumed, step, positive, pc, within, next, rfl⟩ |
    ⟨step, pc, full, next, rfl⟩ | ⟨step, pc, incomplete, next, rfl⟩ |
    ⟨e, step, pc, failed, settled, next, rfl⟩ | ⟨d, step, pc, ok, next, rfl⟩ |
    ⟨outLen, done, consumed, step, pc, finished, next, rfl⟩
  · rw [step] at provided
    have ended : r.stdin = [] := provided.2.2 rfl
    have left : s.stdin = [] := by simpa [ended] using provided.1.symm
    have nothing : s.child.remaining filter s.stdin = [] := by simp [Child.remaining, next]
    rw [nothing] at remaining
    refine ⟨?_, by simp [hasExited, pc], .inl ⟨onlyEof step, by simp [hasExited, next], ended, left,
      remaining, nothing, by simpa using stdout⟩⟩
    simpa [unanswered, next, left] using boundary_nil filter
  · rw [step] at provided
    have same : unanswered s.child ++ s.stdin = unanswered r.child ++ r.stdin := by
      simp [unanswered, next, pc, provided.1]
    refine ⟨same ▸ boundary, by simp [hasExited, pc], .inr (.inr ⟨silent ?_ ?_,
      by simp [hasExited, next], remaining.symm, by simpa using stdout⟩)⟩
    · simpa [step] using filled
    · simp [step]
  · have same : s.stdin = r.stdin := failed_provides provided (.inl interrupted)
    have running : hasExited r.child = false := by
      cases pc : r.child.pc with
      | exited code => simp [runStep_exited filter r a code pc] at taken
      | _ => simp [hasExited, pc]
    refine ⟨by rwa [next, same], running, .inr (.inr ⟨silent ?_ ?_, by rwa [next],
      remaining.symm, by simpa using stdout⟩)⟩
    · intro step
      simp [step, ChildStep.interrupted] at interrupted
    · intro n step
      simp [step, ChildStep.interrupted, WriteResult.interrupted] at interrupted
  · simp [fails] at failed
  · rw [step] at provided
    have same : unanswered s.child ++ s.stdin = unanswered r.child ++ r.stdin := by
      simp [unanswered, next, pc, show s.stdin = r.stdin from provided]
    have shape : a = .write (.took n) := by
      cases a <;> simp_all [RunStep.childStep]
    have length : (slice r.child.outBuf done n).length = n := by simp [slice]
    refine ⟨same ▸ boundary, by simp [hasExited, pc], .inr (.inl ⟨n, shape,
      by simp [hasExited, next], ?_, ?_⟩)⟩
    · rw [remaining, List.drop_left' length]
    · rw [remaining, List.take_left' length]
      exact stdout
  · simp only [Child.fate, pc, next] at fate
    simp [unanswered, pc, fate] at code
  · rw [step] at provided
    have same : unanswered s.child ++ s.stdin = unanswered r.child ++ r.stdin := by
      simp [unanswered, next, pc, show s.stdin = r.stdin from provided]
    exact ⟨same ▸ boundary, by simp [hasExited, pc], .inr (.inr ⟨silent (by simp [step])
      (by simp [step]), by simp [hasExited, next], remaining.symm, by simpa using stdout⟩)⟩
  · simp only [Child.fate, pc, next] at fate
    simp [unanswered, pc, fate] at code
  · rw [step] at provided
    have later := boundary_decoded filter r.child.inBuf r.stdin d ok sound.room
      (by simpa [unanswered, pc] using boundary)
    refine ⟨?_, by simp [hasExited, pc], .inr (.inr ⟨silent (by simp [step])
      (by simp [step]), by simp [hasExited, next], remaining.symm, by simpa using stdout⟩)⟩
    simpa [unanswered, next, show s.stdin = r.stdin from provided] using later
  · rw [step] at provided
    have same : unanswered s.child ++ s.stdin = unanswered r.child ++ r.stdin := by
      simp [unanswered, next, pc, show s.stdin = r.stdin from provided]
    exact ⟨same ▸ boundary, by simp [hasExited, pc], .inr (.inr ⟨silent (by simp [step])
      (by simp [step]), by simp [hasExited, next], remaining.symm, by simpa using stdout⟩)⟩

theorem hear_granted : hear true = EchoPipeline.hear := by
  funext t call
  cases call <;> rfl

theorem hear_closed (t : Threads) (calls : List ReaderCall) :
    (calls.foldl EchoPipeline.hear t).session.childInputClosed =
      t.session.childInputClosed := by
  induction calls generalizing t with
  | nil => rfl
  | cons call rest ih =>
    rw [List.foldl_cons, ih]
    cases call <;> simp [EchoPipeline.hear, wtdSessionOnOutput, wtdSessionOnOutputEof]

theorem deliver_session (s : WtdSession) (m : PeerMessage) (env : DeliverEnv) :
    (if m.reliable then wtdSessionDeliverStream s m.data env
      else wtdSessionDeliverDatagram s m.data env) =
      (s, (deliverToChild s (flagOf m.reliable) m.data env).2) := by
  cases kind : m.reliable <;>
    simp [wtdSessionDeliverStream, wtdSessionDeliverDatagram, flagOf, Prod.ext_iff,
      deliverToChild_session]

theorem readerTurn_view (filter : PayloadFilter) (wake : Bool) (p q : Relay) (b : ReaderStep)
    (stdout : List UInt8) (made : readerTurn wake true p b stdout = some q) :
    EchoPipeline.readerTurn wake (view filter p) b stdout = some (view filter q) ∧
      q.inbox = p.inbox ∧ q.run.child = p.run.child ∧ q.run.stdin = p.run.stdin ∧
      q.threads.session.childInputClosed = p.threads.session.childInputClosed := by
  simp only [readerTurn, hear_granted, Option.map_eq_some_iff] at made
  obtain ⟨⟨reader, calls⟩, step, rfl⟩ := made
  refine ⟨?_, rfl, rfl, rfl, hear_closed ..⟩
  simp [EchoPipeline.readerTurn, view, step]

theorem smoothStep_cases (filter : PayloadFilter) (wake : Bool) (p : Relay) (a : RelayStep)
    (q : Relay) (taken : smoothStep filter wake p a = some q) :
    (∃ env m rest, a = .deliver env ∧ p.inbox = m :: rest ∧
      env = { malloc := true, block := env.block, ret := neededSize m.data } ∧
      q = { p with
        inbox := rest
        run := { p.run with
          stdin := p.run.stdin ++ childInput (deliverToChild p.threads.session
            (flagOf m.reliable) m.data env).2 } }) ∨
    (a = .fin ∧ p.inbox = [] ∧
      q = { p with threads := { p.threads with
        session := (wtdSessionDeliverFin p.threads.session).1 } }) ∨
    (∃ b, a = .child b ∧ b.fails = false ∧
      (b = .eof -> p.threads.session.childInputClosed = true) ∧
      runStep filter p.run b = some q.run ∧ q = { p with run := q.run }) ∨
    (∃ b, label a = some b ∧ pipelineStep wake (view filter p) b = some (view filter q) ∧
      q.inbox = p.inbox ∧ q.run.child = p.run.child ∧ q.run.stdin = p.run.stdin ∧
      q.threads.session.childInputClosed = p.threads.session.childInputClosed) := by
  obtain ⟨met, taken⟩ := (restricted_iff _ _ _ _ _).mp taken
  have turned := readerTurn_view filter wake p q
  cases a with
  | deliver env =>
    rcases inbox : p.inbox with _ | ⟨m, rest⟩
    · simp [relayStep, inbox] at taken
    · simp only [relayStep, inbox, deliver_session, Option.some.injEq] at taken
      obtain ⟨granted, whole⟩ : env.malloc = true ∧ env.ret = neededSize m.data := by
        simpa [smooth, inbox] using met
      exact .inl ⟨env, m, rest, rfl, rfl, by rw [← granted, ← whole], taken.symm⟩
  | fin =>
    simp only [relayStep, List.isEmpty_iff] at taken
    split_ifs at taken with empty
    exact .inr (.inl ⟨rfl, empty, (Option.some.inj taken).symm⟩)
  | child b =>
    simp only [relayStep] at taken
    split_ifs at taken with barred
    obtain ⟨run, step, rfl⟩ := Option.map_eq_some_iff.mp taken
    simp only [Bool.and_eq_true, beq_iff_eq, Bool.not_eq_true', not_and,
      Bool.not_eq_false] at barred
    exact .inr (.inr (.inl ⟨b, rfl, by simpa [smooth] using met, barred, step, rfl⟩))
  | take n =>
    simp only [relayStep] at taken
    split_ifs at taken with legal
    obtain ⟨step, rest⟩ := turned _ _ taken
    exact .inr (.inr (.inr ⟨.take n, rfl, by rw [pipelineStep, if_pos (by exact legal)]; exact step,
      rest⟩))
  | eof =>
    simp only [relayStep] at taken
    split_ifs at taken with ended
    obtain ⟨step, rest⟩ := turned _ _ taken
    exact .inr (.inr (.inr ⟨.eof, rfl, by rw [pipelineStep, if_pos (by exact ended)]; exact step,
      rest⟩))
  | readFails eintr =>
    obtain rfl : eintr = true := met
    obtain ⟨step, rest⟩ := turned _ _ taken
    exact .inr (.inr (.inr ⟨.eintr, rfl, step, rest⟩))
  | advance malloc =>
    obtain rfl : malloc = true := met
    obtain ⟨step, rest⟩ := turned _ _ taken
    exact .inr (.inr (.inr ⟨.advance, rfl, step, rest⟩))
  | pump b =>
    simp only [relayStep] at taken
    split_ifs at taken
    obtain ⟨threads, step, rfl⟩ := Option.map_eq_some_iff.mp taken
    have allowed : EchoPipeline.accepted b = true := met
    refine .inr (.inr (.inr ⟨.pump b, rfl, ?_, rfl, rfl, rfl, ?_⟩))
    · simp [pipelineStep, allowed, view, step]
    · exact (EchoPipeline.threadStep_pump allowed step).2.1

theorem running_of_inbox {filter : PayloadFilter} {p : Relay} {m : PeerMessage}
    {rest : List PeerMessage} (whole : Whole filter p) (inbox : p.inbox = m :: rest) :
    hasExited p.run.child = false ∧ p.threads.session.childInputClosed = false := by
  constructor
  · cases gone : hasExited p.run.child with
    | false => rfl
    | true => simp [(whole.exited gone).1] at inbox
  · cases closed : p.threads.session.childInputClosed with
    | false => rfl
    | true => simp [whole.finished closed] at inbox

theorem whole_step (filter : PayloadFilter) (wake : Bool) (p : Relay) (a : RelayStep) (q : Relay)
    (whole : Whole filter p) (taken : smoothStep filter wake p a = some q) : Whole filter q := by
  rcases smoothStep_cases filter wake p a q taken with ⟨env, m, rest, -, inbox, granted, rfl⟩ |
    ⟨-, empty, rfl⟩ | ⟨b, -, working, ended, step, next⟩ | ⟨b, -, -, inbox, child, stdin, closed⟩
  · obtain ⟨running, closed⟩ := running_of_inbox whole inbox
    have more := (remaining_frame filter p.run.child p.run.stdin m running whole.boundary).2
    refine ⟨whole.sound, ?_, by simp [closed], by simp [running]⟩
    rwa [granted, EchoPipeline.deliver_frame _ m env.block closed]
  · exact ⟨whole.sound, whole.boundary, fun _ => empty, whole.exited⟩
  · obtain ⟨sound, boundary, running, kind⟩ :=
      child_step filter p.run b q.run whole.sound whole.boundary working step
    rw [next]
    refine ⟨sound, boundary, whole.finished, fun gone => ?_⟩
    rcases kind with ⟨eof, -, -, left, -⟩ | ⟨n, -, alive, -⟩ | ⟨-, alive, -⟩
    · exact ⟨whole.finished (ended eof), left⟩
    · exact absurd gone (by simp [alive])
    · exact absurd gone (by simp [alive])
  · obtain ⟨sound, boundary, finished, exited⟩ := whole
    constructor
    · rwa [child]
    · rwa [child, stdin]
    · rwa [closed, inbox]
    · rwa [child, inbox, stdin]

theorem relay_simulates (filter : PayloadFilter) (wake : Bool) :
    Simulates (smoothStep filter wake) (pipelineStep wake) (Whole filter) (view filter)
      fun _ => label where
  preserved := whole_step filter wake
  matched := by
    intro p a q b whole taken kind
    rcases smoothStep_cases filter wake p a q taken with ⟨env, m, rest, rfl, inbox, granted, rfl⟩ |
      ⟨rfl, empty, rfl⟩ | ⟨c, rfl, working, ended, step, next⟩ | ⟨c, same, matched, -⟩
    · obtain rfl : _ = b := Option.some.inj kind
      obtain ⟨running, closed⟩ := running_of_inbox whole inbox
      have more := (remaining_frame filter p.run.child p.run.stdin m running whole.boundary).1
      have ideal := EchoPipeline.deliver_frame p.threads.session (answered filter m) env.block
        closed
      have real := EchoPipeline.deliver_frame p.threads.session m env.block closed
      rw [granted]
      simp only [pipelineStep, view, inbox, List.map_cons, deliver_session, ideal, real, more]
    · obtain rfl : _ = b := Option.some.inj kind
      simp [pipelineStep, view, empty]
    · obtain ⟨-, -, running, kinds⟩ :=
        child_step filter p.run c q.run whole.sound whole.boundary working step
      rw [next]
      rcases kinds with ⟨rfl, gone, -, -, none, done, stdout⟩ | ⟨n, rfl, alive, rest, stdout⟩ |
        ⟨silent, -⟩
      · obtain rfl : _ = b := Option.some.inj kind
        simp [pipelineStep, view, ended rfl, none, done, gone, stdout]
      · obtain rfl : _ = b := Option.some.inj kind
        simp [pipelineStep, view, running, alive, rest, stdout]
      · simp [silent] at kind
    · obtain rfl : c = b := Option.some.inj (same.symm.trans kind)
      exact matched
  silent := by
    intro p a q whole taken kind
    rcases smoothStep_cases filter wake p a q taken with ⟨env, m, rest, rfl, inbox, granted, rfl⟩ |
      ⟨rfl, empty, rfl⟩ | ⟨c, rfl, working, ended, step, next⟩ | ⟨c, same, matched, -⟩
    · simp [label] at kind
    · simp [label] at kind
    · obtain ⟨-, -, running, kinds⟩ :=
        child_step filter p.run c q.run whole.sound whole.boundary working step
      rw [next]
      rcases kinds with ⟨rfl, -⟩ | ⟨n, rfl, -⟩ | ⟨-, alive, rest, stdout⟩
      · simp [label] at kind
      · simp [label] at kind
      · simp [view, rest, stdout, alive, running]
    · simp [same] at kind

theorem view_start (filter : PayloadFilter) (block : Nat -> UInt8) (messages : List PeerMessage) :
    view filter (startWith block messages) =
      EchoPipeline.start (messages.map (answered filter)) := by
  have nothing := (replies_nil filter).1
  simp [view, startWith, EchoPipeline.start, childOn, childStart, Child.remaining, nothing,
    hasExited]

theorem relay_refines_echo (filter : PayloadFilter) (wake : Bool) (block : Nat -> UInt8)
    (messages : List PeerMessage) (schedule : List RelayStep) (p : Relay)
    (run : exec (relayStep filter wake) (startWith block messages) schedule = some p)
    (smoothly : Meets (relayStep filter wake) (fun p a => smooth p a = true)
      (startWith block messages) schedule) :
    exec (pipelineStep wake) (EchoPipeline.start (messages.map (answered filter)))
      (schedule.filterMap label) = some (view filter p) := by
  rw [← view_start filter block messages]
  exact (relay_simulates filter wake).exec _ p schedule (start_whole filter block messages)
    ((exec_restricted_iff _ _ _ _ _).mpr ⟨smoothly, run⟩)

structure Serving (filter : PayloadFilter) (messages : List PeerMessage) (p : Relay) : Prop where
  whole : Whole filter p
  carried : EchoPipeline.Carried (messages.map (answered filter)) (view filter p)

theorem serving_start (filter : PayloadFilter) (block : Nat -> UInt8)
    (messages : List PeerMessage) : Serving filter messages (startWith block messages) where
  whole := start_whole filter block messages
  carried := by
    rw [view_start]
    exact EchoPipeline.start_carried _

theorem serving_step (filter : PayloadFilter) (wake : Bool) (messages : List PeerMessage)
    (p : Relay) (a : RelayStep) (q : Relay) (serving : Serving filter messages p)
    (taken : smoothStep filter wake p a = some q) : Serving filter messages q where
  whole := whole_step filter wake p a q serving.whole taken
  carried := by
    have simulates := relay_simulates filter wake
    cases kind : label a with
    | none =>
      rw [simulates.silent p a q serving.whole taken kind]
      exact serving.carried
    | some b =>
      exact EchoPipeline.carried_step wake _ _ b _ serving.carried
        (simulates.matched p a q b serving.whole taken kind)

theorem carried_sent (messages : List PeerMessage) (p : Pipeline)
    (carried : EchoPipeline.Carried messages p) :
    sentLog p.threads.calls ++ (p.threads.pump.batch ++ (p.threads.session.outbound ++
        EchoPipeline.outputsOf (p.reader.remaining p.future))).map route =
      messages.map fun m => route m.outbound := by
  obtain ⟨sent, places, logged⟩ := carried.routed
  have frames := carried.frames
  rw [places, List.append_assoc, List.append_assoc] at frames
  have routed := congrArg (List.map route) frames
  rwa [List.map_append, ← logged, List.map_map] at routed

-- Every byte on its way costs more at each place than at the next.
def Relay.height (messages : List PeerMessage) (p : Relay) : Nat :=
  (p.inbox.map fun m => 30 * m.frame.length + 1).sum + 5 * p.run.height +
    Feed.height { reader := p.reader, pending := p.run.stdout, calls := [] } +
    6 * (messages.length - p.threads.pushed.length) + 5 * p.threads.session.outbound.length +
    match p.threads.pump with
    | .flushing batch => 2 * batch.length + 2
    | .finning => 1
    | .idle => 0

theorem hear_queue (t : Threads) (calls : List ReaderCall) :
    (calls.foldl EchoPipeline.hear t).pushed = t.pushed ++ EchoPipeline.outputsOf calls ∧
      (calls.foldl EchoPipeline.hear t).session.outbound =
        t.session.outbound ++ EchoPipeline.outputsOf calls ∧
      (calls.foldl EchoPipeline.hear t).pump = t.pump := by
  induction calls generalizing t with
  | nil => simp [EchoPipeline.outputsOf]
  | cons call rest ih =>
    obtain ⟨pushed, queue, pump⟩ := ih (EchoPipeline.hear t call)
    rw [List.foldl_cons, pushed, queue, pump]
    cases call <;>
      simp [EchoPipeline.hear, EchoPipeline.outputsOf, wtdSessionOnOutput, wtdWorkQueuePush,
        wtdSessionOnOutputEof]

def feedLabel : FeedStep -> RelayStep
  | .take n => .take n
  | .eof => .eof
  | .eintr => .readFails true
  | .advance => .advance true

theorem smoothStep_feed (filter : PayloadFilter) (wake : Bool) (p : Relay) (a : FeedStep) (g : Feed)
    (going : a ≠ .eof)
    (taken :
      feedStep wake { reader := p.reader, pending := p.run.stdout, calls := [] } a = some g) :
    smoothStep filter wake p (feedLabel a) = some { p with
      run := { p.run with stdout := g.pending }
      reader := g.reader
      threads := g.calls.foldl EchoPipeline.hear p.threads } := by
  have turned (b : ReaderStep) (stdout : List UInt8)
      (made : Feed.make wake { reader := p.reader, pending := p.run.stdout, calls := [] } b stdout =
        some g) :
      readerTurn wake true p b stdout = some { p with
        run := { p.run with stdout := g.pending }
        reader := g.reader
        threads := g.calls.foldl EchoPipeline.hear p.threads } := by
    obtain ⟨calls, step, pending, log⟩ := make_some made
    simp only [List.nil_append] at log
    simp only at step
    simp [readerTurn, hear_granted, step, pending, log]
  refine (restricted_iff _ _ _ _ _).mpr ?_
  cases a with
  | take n =>
    simp only [feedStep] at taken
    split_ifs at taken with legal
    simp only [feedLabel, relayStep]
    rw [if_pos legal]
    exact ⟨rfl, turned _ _ taken⟩
  | eof => exact absurd rfl going
  | eintr => exact ⟨rfl, turned _ _ taken⟩
  | advance => exact ⟨rfl, turned _ _ taken⟩

theorem smoothStep_pump (filter : PayloadFilter) (wake : Bool) (p : Relay) (a : ThreadStep)
    (t : Threads) (accepted : EchoPipeline.accepted a = true)
    (taken : threadStep p.threads a = some t) :
    smoothStep filter wake p (.pump a) = some { p with threads := t } := by
  have own : ofReader a = false := by cases a <;> simp_all [EchoPipeline.accepted, ofReader]
  simp [smoothStep, restricted, smooth, accepted, relayStep, own, taken]

theorem pump_progress (filter : PayloadFilter) (wake : Bool) (messages : List PeerMessage)
    (p : Relay) (busy : p.threads.pump ≠ .idle ∨ p.threads.session.outbound ≠ []) :
    ∃ a q, smoothStep filter wake p a = some q ∧ q.height messages < p.height messages := by
  have moves := fun a t accepted taken =>
    (⟨.pump a, _, smoothStep_pump filter wake p a t accepted taken, ·⟩ :
      ({ p with threads := t } : Relay).height messages < p.height messages ->
        ∃ a q, smoothStep filter wake p a = some q ∧ q.height messages < p.height messages)
  rcases pc : p.threads.pump with _ | (_ | ⟨f, rest⟩) | _
  · have positive : 0 < p.threads.session.outbound.length := by
      apply List.length_pos_of_ne_nil
      simpa [pc] using busy
    refine moves .drain _ rfl (by simp only [threadStep, pc]; rfl) ?_
    simp only [Relay.height, pc, wtdWorkQueueDrain, List.length_nil]
    omega
  · cases ready : p.threads.session.outputEof && !p.threads.session.streamFinSent with
    | true =>
      refine moves .load _ rfl (by simp only [threadStep, pc, ready, if_true]; rfl) ?_
      simp only [Relay.height, pc, List.length_nil]
      omega
    | false =>
      refine moves .load _ rfl (by simp [threadStep, pc, ready]; rfl) ?_
      simp only [Relay.height, pc, List.length_nil]
      omega
  · refine moves (.send 0) _ rfl (by simp only [threadStep, pc]; rfl) ?_
    simp only [Relay.height, pc, List.length_cons]
    omega
  · refine moves (.sendFin 0) _ rfl (by simp [threadStep, pc]; rfl) ?_
    simp only [Relay.height, pc]
    omega

theorem deliver_progress (filter : PayloadFilter) (wake : Bool) (messages : List PeerMessage)
    (p : Relay) (serving : Serving filter messages p) (waiting : p.inbox ≠ []) :
    ∃ a q, smoothStep filter wake p a = some q ∧ q.height messages < p.height messages := by
  obtain ⟨m, rest, inbox⟩ := List.exists_cons_of_ne_nil waiting
  obtain ⟨-, closed⟩ := running_of_inbox serving.whole inbox
  have frame := EchoPipeline.deliver_frame p.threads.session m (fun _ => 0) closed
  refine ⟨.deliver { malloc := true, block := fun _ => 0, ret := neededSize m.data }, _, by
    simp [smoothStep, restricted, smooth, relayStep, inbox, deliver_session, frame]; rfl, ?_⟩
  simp only [Relay.height, ChildRun.height, inbox, List.map_cons, List.sum_cons,
    List.length_append]
  omega

theorem child_progress (filter : PayloadFilter) (wake : Bool) (messages : List PeerMessage)
    (p : Relay) (running : hasExited p.run.child = false)
    (busy : p.run.child.pc ≠ .reading ∨ p.run.stdin ≠ []) :
    ∃ a q, smoothStep filter wake p a = some q ∧ q.height messages < p.height messages := by
  obtain ⟨a, s, ⟨working, quiet⟩, taken⟩ := runStep_progress filter p.run fun code exited => by
    simp [hasExited, exited] at running
  have going : a ≠ .eof := by
    rintro rfl
    simp only [runStep] at taken
    split_ifs at taken with ended
    cases pc : p.run.child.pc <;> simp_all [ChildRun.make, childMain]
  have lower := runStep_height filter p.run a s taken
  rw [quiet, Bool.toNat_false, Nat.add_zero] at lower
  have paid := runStep_written filter p.run a s taken
  refine ⟨.child a, { p with run := s }, by
    simp [smoothStep, restricted, smooth, relayStep, working, going, taken], ?_⟩
  simp only [Relay.height, Feed.height]
  omega

theorem reader_progress (filter : PayloadFilter) (wake : Bool) (messages : List PeerMessage)
    (p : Relay) (serving : Serving filter messages p) (running : p.reader.pc ≠ .exited)
    (busy : p.reader.pc ≠ .reading ∨ p.run.stdout ≠ []) :
    ∃ a q, smoothStep filter wake p a = some q ∧ q.height messages < p.height messages := by
  obtain ⟨a, g, quiet, taken⟩ := feed_progress wake
    { reader := p.reader, pending := p.run.stdout, calls := [] } running
  have going : a ≠ .eof := by
    rintro rfl
    simp only [feedStep] at taken
    split_ifs at taken with ended
    cases pc : p.reader.pc <;> simp_all [Feed.make, readerMain]
  have lower := feedStep_height wake _ a g taken
  have free : a.interrupts = 0 := by
    cases a <;> simp_all [FeedStep.interrupts]
  have step := smoothStep_feed filter wake p a g going taken
  have next := (serving_step filter wake messages p _ _ serving step).carried.frames
  obtain ⟨pushed, queue, pump⟩ := hear_queue p.threads g.calls
  refine ⟨_, _, step, ?_⟩
  have bound := congrArg List.length next
  simp only [view, pushed, List.length_append, List.length_map] at bound
  simp only [Relay.height, pushed, queue, pump, List.length_append]
  have same : g.height = Feed.height { reader := g.reader, pending := g.pending, calls := [] } :=
    rfl
  rw [show ChildRun.height { p.run with stdout := g.pending } = p.run.height from rfl]
  omega

theorem quiet_sent (filter : PayloadFilter) (messages : List PeerMessage) (p : Relay)
    (serving : Serving filter messages p) (idle : p.threads.pump = .idle)
    (queue : p.threads.session.outbound = []) (inbox : p.inbox = [])
    (child : hasExited p.run.child = true ∨ p.run.child.pc = .reading ∧ p.run.stdin = [])
    (reader : p.reader.pc = .exited ∨ p.reader.pc = .reading ∧ p.run.stdout = []) :
    sentLog p.threads.calls = messages.map fun m => route (answered filter m).outbound := by
  have silent : p.run.child.remaining filter p.run.stdin = [] := by
    rcases child with gone | ⟨pc, empty⟩
    · cases pc : p.run.child.pc <;> simp_all [hasExited, Child.remaining]
    · simp [Child.remaining, pc, empty, replies_waiting _ _ (serving.whole.sound.waiting pc)]
  have nothing : EchoPipeline.outputsOf (p.reader.remaining (view filter p).future) = [] := by
    rcases reader with pc | ⟨pc, empty⟩
    · simp [Reader.remaining, pc, EchoPipeline.outputsOf]
    · have waiting := frameOutputs_waiting _ (serving.carried.sound.waiting pc)
      have future : (view filter p).future = [] := by
        simp [Pipeline.future, view, silent, inbox, empty]
      rw [show (view filter p).reader = p.reader from rfl] at waiting
      simp [Reader.remaining, pc, future, waiting, EchoPipeline.outputsOf]
  have sent := carried_sent _ _ serving.carried
  rw [List.map_map] at sent
  rw [show (view filter p).threads = p.threads from rfl,
    show (view filter p).reader = p.reader from rfl, idle, queue, nothing] at sent
  simpa [PumpPc.batch, Function.comp_def] using sent

theorem relay_progress (filter : PayloadFilter) (wake : Bool) (messages : List PeerMessage)
    (p : Relay) (serving : Serving filter messages p)
    (unsent : sentLog p.threads.calls ≠
      messages.map fun m => route (answered filter m).outbound) :
    ∃ a q, smoothStep filter wake p a = some q ∧ q.height messages < p.height messages := by
  by_cases pump : p.threads.pump = .idle ∧ p.threads.session.outbound = []
  · by_cases inbox : p.inbox = []
    · by_cases child : hasExited p.run.child = true ∨ p.run.child.pc = .reading ∧ p.run.stdin = []
      · by_cases reader : p.reader.pc = .exited ∨ p.reader.pc = .reading ∧ p.run.stdout = []
        · have sent := quiet_sent filter messages p serving pump.1 pump.2 inbox child reader
          exact absurd sent unsent
        · obtain ⟨running, busy⟩ := not_or.mp reader
          exact reader_progress filter wake messages p serving running (not_and_or.mp busy)
      · obtain ⟨running, busy⟩ := not_or.mp child
        exact child_progress filter wake messages p (by simpa using running) (not_and_or.mp busy)
    · exact deliver_progress filter wake messages p serving inbox
  · exact pump_progress filter wake messages p (not_and_or.mp pump)

theorem relay_answers_every_message (filter : PayloadFilter) (wake : Bool) (block : Nat -> UInt8)
    (messages : List PeerMessage) (schedule : List RelayStep) (p : Relay)
    (run : exec (relayStep filter wake) (startWith block messages) schedule = some p)
    (smoothly : Meets (relayStep filter wake) (fun p a => smooth p a = true)
      (startWith block messages) schedule) :
    (sentLog p.threads.calls <+: messages.map fun m => route (answered filter m).outbound) ∧
    ∃ more q, Meets (relayStep filter wake) (fun p a => smooth p a = true) p more ∧
      exec (relayStep filter wake) p more = some q ∧
      EchoPipeline.datagramsSent q.threads.calls =
        EchoPipeline.datagrams (messages.map (answered filter)) ∧
      EchoPipeline.streamSent q.threads.calls =
        EchoPipeline.streamChunks (messages.map (answered filter)) := by
  have serving := exec_invariant (smoothStep filter wake) (Serving filter messages)
    (serving_step filter wake messages) _ p schedule (serving_start filter block messages)
    ((exec_restricted_iff _ _ _ _ _).mpr ⟨smoothly, run⟩)
  constructor
  · have sent := carried_sent _ _ serving.carried
    rw [List.map_map] at sent
    exact ⟨_, sent⟩
  · obtain ⟨more, q, -, later, all⟩ := exec_completes_by (smoothStep filter wake) (fun _ => True)
      (Serving filter messages) (Relay.height messages)
      (fun q => sentLog q.threads.calls =
        messages.map fun m => route (answered filter m).outbound)
      (fun p serving unsent => by
        obtain ⟨a, q, taken, lower⟩ := relay_progress filter wake messages p serving unsent
        exact ⟨a, q, trivial, taken, serving_step filter wake messages p a q serving taken, lower⟩)
      p serving
    obtain ⟨met, later⟩ := (exec_restricted_iff _ _ _ _ _).mp later
    obtain ⟨unreliable, stream⟩ := EchoPipeline.routed_payloads (messages.map (answered filter))
    rw [List.map_map] at unreliable stream
    refine ⟨more, q, met, later, ?_, ?_⟩
    · rw [EchoPipeline.datagramsSent_log, all]
      exact unreliable
    · rw [EchoPipeline.streamSent_log, all]
      exact stream

def greeting : List PeerMessage :=
  [⟨true, [0x68], by decide, by decide⟩, ⟨false, [0x69, 0x21], by decide, by decide⟩]

-- The first frame is read by the child in two parts and by the daemon before the second is sent.
def greetingRun : List RelayStep :=
  [.deliver { malloc := true, block := fun _ => 0, ret := 3 }, .child (.take 2), .child .advance,
    .child (.take 1), .child .advance, .child (.write (.took 3)), .take 3, .advance true,
    .deliver { malloc := true, block := fun _ => 0, ret := 4 }, .pump .drain, .advance true,
    .pump (.send 0), .child .advance, .child .advance, .child (.take 4), .pump .load]

theorem greeting_smooth :
    ∃ p, exec (smoothStep shout true) (startWith (fun _ => 0) greeting) greetingRun = some p ∧
      sentLog p.threads.calls = [.stream [0x48]] :=
  ⟨_, rfl, rfl⟩

theorem relay_refines_echo_greeting :
    ∃ p, exec (relayStep shout true) (startWith (fun _ => 0) greeting) greetingRun = some p ∧
      exec (pipelineStep true) (EchoPipeline.start (greeting.map (answered shout)))
        (greetingRun.filterMap label) = some (view shout p) := by
  obtain ⟨p, run, -⟩ := greeting_smooth
  obtain ⟨met, run⟩ := (exec_restricted_iff _ _ _ _ _).mp run
  exact ⟨p, run, relay_refines_echo shout true (fun _ => 0) greeting greetingRun p run met⟩

theorem relay_answers_greeting :
    ∃ p, exec (relayStep shout true) (startWith (fun _ => 0) greeting) greetingRun = some p ∧
      sentLog p.threads.calls = [.stream [0x48]] ∧
      ∃ more q, exec (relayStep shout true) p more = some q ∧
        EchoPipeline.datagramsSent q.threads.calls = [[0x49, 0x21]] := by
  obtain ⟨p, run, sent⟩ := greeting_smooth
  obtain ⟨met, run⟩ := (exec_restricted_iff _ _ _ _ _).mp run
  obtain ⟨-, more, q, -, later, unreliable, -⟩ := relay_answers_every_message shout true
    (fun _ => 0) greeting greetingRun p run met
  exact ⟨p, run, sent, more, q, later, unreliable⟩

end WebTransportD.ChildPipeline
