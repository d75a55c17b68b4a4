import WebTransportD.Adapters.ChildOutput
import WebTransportD.Core.PumpThreads
import WebTransportD.Core.SessionInput

set_option autoImplicit false

namespace WebTransportD.EchoPipeline

open WebTransportD.Frame Session Execution IncrementalParse ChildOutput PumpThreads SessionInput

structure PeerMessage where
  reliable : Bool
  data : List UInt8
  filled : data ≠ []
  small : data.length ≤ wtdFrameMaxPayload

def PeerMessage.outbound (m : PeerMessage) : OutboundFrame :=
  { flag := flagOf m.reliable, payload := m.data }

def PeerMessage.frame (m : PeerMessage) : List UInt8 :=
  canonicalFrame (flagOf m.reliable) m.data

-- One session with a child that echoes: `inbox` has the peer's messages to come, `stdin` and
-- `stdout` the bytes in the child's two pipes.
structure Pipeline where
  inbox : List PeerMessage
  stdin : List UInt8
  stdout : List UInt8
  childExited : Bool
  reader : Reader
  threads : Threads

inductive PipelineStep where
  | deliver (block : Nat -> UInt8)
  | fin
  | echo (n : Nat)
  | exit
  | take (n : Nat)
  | eof
  | eintr
  | advance
  | pump (a : ThreadStep)

def start (messages : List PeerMessage) : Pipeline :=
  { inbox := messages, stdin := [], stdout := [], childExited := false
    reader := readerStart true, threads := initial }

def hear (t : Threads) : ReaderCall -> Threads
  | .onOutput flag payload =>
      { t with
        session := wtdSessionOnOutput t.session true flag payload
        pushed := t.pushed ++ [{ flag, payload }] }
  | .onOutputEof => { t with session := wtdSessionOnOutputEof t.session }
  | .wake => t

def readerTurn (wake : Bool) (p : Pipeline) (a : ReaderStep) (stdout : List UInt8) :
    Option Pipeline :=
  (readerMain wake p.reader a).map fun made =>
    { p with stdout, reader := made.1, threads := made.2.foldl hear p.threads }

-- The network thread's part of a pump, on a transport that accepts everything.
def accepted : ThreadStep -> Bool
  | .drain | .load => true
  | .send ret | .sendFin ret => ret == 0
  | .push _ | .setEof => false

def pipelineStep (wake : Bool) (p : Pipeline) : PipelineStep -> Option Pipeline
  | .deliver block =>
      match p.inbox with
      | [] => none
      | m :: rest =>
          -- The child port takes every write in full.
          let env := { malloc := true, block, ret := neededSize m.data }
          let result :=
            if m.reliable then wtdSessionDeliverStream p.threads.session m.data env
            else wtdSessionDeliverDatagram p.threads.session m.data env
          some { p with
            inbox := rest
            stdin := p.stdin ++ childInput result.2
            threads := { p.threads with session := result.1 } }
  | .fin =>
      if p.inbox.isEmpty then
        some { p with
          threads := { p.threads with session := (wtdSessionDeliverFin p.threads.session).1 } }
      else none
  | .echo n =>
      if p.childExited then none
      else some { p with stdin := p.stdin.drop n, stdout := p.stdout ++ p.stdin.take n }
  | .exit =>
      -- The child leaves when it has read end of file, that is all there was to read.
      if p.threads.session.childInputClosed ∧ p.stdin = [] then some { p with childExited := true }
      else none
  | .take n =>
      if 0 < n ∧ n ≤ p.stdout.length ∧ n ≤ wtdReadBufSize - p.reader.buf.length then
        readerTurn wake p (.read (.got (p.stdout.take n))) (p.stdout.drop n)
      else none
  | .eof =>
      if p.childExited ∧ p.stdout = [] then readerTurn wake p (.read (.got [])) [] else none
  | .eintr => readerTurn wake p (.read (.failed true)) p.stdout
  | .advance => readerTurn wake p .advance p.stdout
  | .pump a =>
      if accepted a then (threadStep p.threads a).map fun threads => { p with threads } else none

def Pipeline.future (p : Pipeline) : List UInt8 :=
  p.stdout ++ (p.stdin ++ p.inbox.flatMap PeerMessage.frame)

def outputsOf (calls : List ReaderCall) : List OutboundFrame :=
  calls.filterMap fun
    | .onOutput flag payload => some { flag, payload }
    | _ => none

@[simp] theorem outputsOf_append (first second : List ReaderCall) :
    outputsOf (first ++ second) = outputsOf first ++ outputsOf second :=
  List.filterMap_append

@[simp] theorem outputsOf_eof : outputsOf [.onOutputEof] = [] := rfl

@[simp] theorem outputsOf_sessionCalls (calls : List ReaderCall) :
    outputsOf (sessionCalls calls) = outputsOf calls := by
  induction calls with
  | nil => rfl
  | cons call rest ih =>
    cases call <;> simp_all [sessionCalls, outputsOf]

theorem hear_routed (t : Threads) (call : ReaderCall) (routed : Routed t) :
    Routed (hear t call) := by
  obtain ⟨sent, places, logged⟩ := routed
  cases call with
  | onOutput flag payload =>
    exact ⟨sent, by simp [hear, wtdSessionOnOutput, wtdWorkQueuePush, places], logged⟩
  | onOutputEof => exact ⟨sent, places, logged⟩
  | wake => exact ⟨sent, places, logged⟩

theorem hear_all (t : Threads) (calls : List ReaderCall) (routed : Routed t) :
    Routed (calls.foldl hear t) ∧ (calls.foldl hear t).pushed = t.pushed ++ outputsOf calls ∧
      (outputsOf calls = [] -> (calls.foldl hear t).session.outbound = t.session.outbound) ∧
      (calls.foldl hear t).session.childInputClosed = t.session.childInputClosed := by
  induction calls generalizing t with
  | nil => exact ⟨routed, by simp [outputsOf], fun _ => rfl, rfl⟩
  | cons call rest ih =>
    obtain ⟨later, pushed, queue, input⟩ := ih (hear t call) (hear_routed t call routed)
    refine ⟨later, ?_, ?_, ?_⟩
    · rw [List.foldl_cons, pushed]
      cases call <;> simp [hear, outputsOf]
    · intro silent
      cases call with
      | onOutput flag payload => simp [outputsOf] at silent
      | onOutputEof => exact queue (by simpa [outputsOf] using silent)
      | wake => exact queue (by simpa [outputsOf] using silent)
    · rw [List.foldl_cons, input]
      cases call <;> simp [hear, wtdSessionOnOutput, wtdSessionOnOutputEof]

theorem PeerMessage.parse (m : PeerMessage) :
    parseFrame m.frame = .item (flagOf m.reliable, m.data) m.frame.length := by
  obtain ⟨d, ok, flag, consumed, -, -, -, bytes⟩ := wtdFrameDecode_of_frame _ _ _ []
    (canonicalFrame_isFrame (flagOf m.reliable) m.data (flagOf_known m.reliable) m.small)
  rw [List.append_nil] at ok bytes
  rw [PeerMessage.frame, parseFrame_ok _ d ok, flag, consumed, bytes]

theorem PeerMessage.frame_fits (m : PeerMessage) : m.frame.length ≤ wtdReadBufSize := by
  rw [PeerMessage.frame, length_canonicalFrame]
  exact neededSize_le m.data m.small

theorem frameOutputs_messages (messages : List PeerMessage) :
    outputsOf (frameOutputs (messages.flatMap PeerMessage.frame)) =
      messages.map PeerMessage.outbound := by
  have fit : messages.takeWhile (fun m => decide (m.frame.length ≤ wtdReadBufSize)) = messages :=
    List.takeWhile_eq_self_iff.mpr fun m _ => by simpa using m.frame_fits
  rw [frameOutputs, items_flatMap frameParser _ _ _ messages PeerMessage.parse, fit, outputsOf,
    List.map_map, List.filterMap_map]
  exact congrFun (List.filterMap_eq_map (f := PeerMessage.outbound)) messages

theorem deliver_frame (s : WtdSession) (m : PeerMessage) (block : Nat -> UInt8)
    (running : s.childInputClosed = false) :
    childInput (deliverToChild s (flagOf m.reliable) m.data
      { malloc := true, block, ret := neededSize m.data }).2 = m.frame := by
  rw [deliverToChild_calls _ _ _ _ (flagOf_known m.reliable),
    if_pos ⟨running, m.filled, m.small, rfl⟩]
  simp [childInput, acceptedBytes, PeerMessage.frame, List.take_of_length_le,
    length_canonicalFrame]

structure Carried (messages : List PeerMessage) (p : Pipeline) : Prop where
  sound : p.reader.Sound
  routed : Routed p.threads
  frames : p.threads.pushed ++ outputsOf (p.reader.remaining p.future) =
    messages.map PeerMessage.outbound
  finished : p.threads.session.childInputClosed = true -> p.inbox = []
  exited : p.childExited = true -> p.inbox = [] ∧ p.stdin = []

theorem start_carried (messages : List PeerMessage) : Carried messages (start messages) where
  sound := ⟨by simp [start, readerStart], fun _ => wtdFrameDecode_nil⟩
  routed := ⟨[], rfl, rfl⟩
  frames := by
    have all := frameOutputs_messages messages
    simp [start, initial, readerStart, Reader.remaining, Pipeline.future, all]
  finished := by simp [start, initial, wtdSessionInit]
  exited := by simp [start]

-- `tail` stands for the bytes that are still in front of the child's stdout.
def Reads (p : Pipeline) (b : ReaderStep) (stdout : List UInt8) : Prop :=
  ∀ tail, (p.childExited = true -> tail = []) ->
    Supplies p.reader (p.stdout ++ tail) b (stdout ++ tail)

theorem readerTurn_some {wake : Bool} {p : Pipeline} {b : ReaderStep} {stdout : List UInt8}
    {q : Pipeline} (taken : readerTurn wake p b stdout = some q) :
    ∃ calls, readerMain wake p.reader b = some (q.reader, calls) ∧
      q = { p with stdout, reader := q.reader, threads := calls.foldl hear p.threads } := by
  simp only [readerTurn, Option.map_eq_some_iff] at taken
  obtain ⟨⟨reader, calls⟩, step, rfl⟩ := taken
  exact ⟨calls, step, rfl⟩

theorem pipelineStep_cases (wake : Bool) (p : Pipeline) (a : PipelineStep) (q : Pipeline)
    (taken : pipelineStep wake p a = some q) :
    (∃ block m rest, a = .deliver block ∧ p.inbox = m :: rest ∧
      q = { p with
            inbox := rest
            stdin := p.stdin ++ childInput (deliverToChild p.threads.session (flagOf m.reliable)
              m.data { malloc := true, block, ret := neededSize m.data }).2 }) ∨
    (a = .fin ∧ p.inbox = [] ∧
      q = { p with threads := { p.threads with
              session := (wtdSessionDeliverFin p.threads.session).1 } }) ∨
    (∃ n, a = .echo n ∧
      q = { p with stdin := p.stdin.drop n, stdout := p.stdout ++ p.stdin.take n }) ∨
    (a = .exit ∧ p.threads.session.childInputClosed = true ∧ p.stdin = [] ∧
      q = { p with childExited := true }) ∨
    (∃ b stdout calls, (∀ c, a ≠ .pump c) ∧ Reads p b stdout ∧
      readerMain wake p.reader b = some (q.reader, calls) ∧
      q = { p with stdout, reader := q.reader, threads := calls.foldl hear p.threads }) ∨
    (∃ b, a = .pump b ∧ accepted b = true ∧ threadStep p.threads b = some q.threads ∧
      q = { p with threads := q.threads }) := by
  cases a with
  | deliver block =>
    rcases inbox : p.inbox with _ | ⟨m, rest⟩
    · simp [pipelineStep, inbox] at taken
    · refine .inl ⟨block, m, rest, rfl, rfl, ?_⟩
      simp only [pipelineStep, inbox, Option.some.injEq] at taken
      rw [← taken]
      rcases m with ⟨_ | _, data, filled, small⟩ <;>
        simp [wtdSessionDeliverStream, wtdSessionDeliverDatagram, deliverToChild_session, flagOf]
  | fin =>
    simp only [pipelineStep, List.isEmpty_iff] at taken
    split_ifs at taken with empty
    exact .inr (.inl ⟨rfl, empty, (Option.some.inj taken).symm⟩)
  | echo n =>
    simp only [pipelineStep] at taken
    split_ifs at taken
    exact .inr (.inr (.inl ⟨n, rfl, (Option.some.inj taken).symm⟩))
  | exit =>
    simp only [pipelineStep] at taken
    split_ifs at taken with ended
    exact .inr (.inr (.inr (.inl ⟨rfl, ended.1, ended.2, (Option.some.inj taken).symm⟩)))
  | take n =>
    simp only [pipelineStep] at taken
    split_ifs at taken with legal
    obtain ⟨calls, step, next⟩ := readerTurn_some taken
    refine .inr (.inr (.inr (.inr (.inl ⟨_, _, calls, by simp, ?_, step, next⟩))))
    intro tail _
    have length : (p.stdout.take n).length = n := by
      rw [List.length_take]
      omega
    refine ⟨by rw [← List.append_assoc, List.take_append_drop], by omega, ?_⟩
    intro empty
    rw [empty, List.length_nil] at length
    omega
  | eof =>
    simp only [pipelineStep] at taken
    split_ifs at taken with ended
    obtain ⟨calls, step, next⟩ := readerTurn_some taken
    refine .inr (.inr (.inr (.inr (.inl ⟨_, _, calls, by simp, ?_, step, next⟩))))
    intro tail last
    simp [Supplies, ended.2, last ended.1]
  | eintr =>
    obtain ⟨calls, step, next⟩ := readerTurn_some taken
    refine .inr (.inr (.inr (.inr (.inl ⟨_, _, calls, by simp, ?_, step, next⟩))))
    exact fun _ _ => ⟨rfl, rfl⟩
  | advance =>
    obtain ⟨calls, step, next⟩ := readerTurn_some taken
    refine .inr (.inr (.inr (.inr (.inl ⟨_, _, calls, by simp, ?_, step, next⟩))))
    exact fun _ _ => rfl
  | pump b =>
    simp only [pipelineStep] at taken
    split_ifs at taken with allowed
    obtain ⟨threads, step, rfl⟩ := Option.map_eq_some_iff.mp taken
    exact .inr (.inr (.inr (.inr (.inr ⟨b, rfl, allowed, step, rfl⟩))))

theorem threadStep_pump {t : Threads} {b : ThreadStep} {u : Threads} (allowed : accepted b = true)
    (taken : threadStep t b = some u) :
    u.pushed = t.pushed ∧ u.session.childInputClosed = t.session.childInputClosed ∧
      (b = .drain ∨ t.session.outbound = [] -> u.session.outbound = []) := by
  rcases threadStep_cases t b u taken with ⟨f, rfl, -, rfl⟩ | ⟨rfl, -, rfl⟩ | ⟨rfl, idle, rfl⟩ |
    ⟨ret, f, rest, rfl, flushing, rfl⟩ | ⟨rfl, empty, -, -, rfl⟩ | ⟨rfl, empty, -, rfl⟩ |
    ⟨ret, rfl, finning, rfl⟩
  · simp [accepted] at allowed
  · simp [accepted] at allowed
  · exact ⟨rfl, rfl, fun _ => rfl⟩
  · exact ⟨rfl, rfl, by simp⟩
  · exact ⟨rfl, rfl, by simp⟩
  · exact ⟨rfl, rfl, by simp⟩
  · by_cases latched : ret = 0 <;> simp [latched]

theorem carried_step (wake : Bool) (messages : List PeerMessage) (p : Pipeline) (a : PipelineStep)
    (q : Pipeline) (carried : Carried messages p) (taken : pipelineStep wake p a = some q) :
    Carried messages q := by
  obtain ⟨sound, routed, frames, finished, exited⟩ := carried
  rcases pipelineStep_cases wake p a q taken with ⟨block, m, rest, -, inbox, rfl⟩ |
    ⟨-, empty, rfl⟩ | ⟨n, -, rfl⟩ | ⟨-, closed, drained, rfl⟩ |
    ⟨b, stdout, calls, -, reads, step, next⟩ | ⟨b, -, allowed, step, next⟩
  · have running : p.threads.session.childInputClosed = false := by
      cases closed : p.threads.session.childInputClosed with
      | false => rfl
      | true => simp [finished closed] at inbox
    refine ⟨sound, routed, ?_, ?_, ?_⟩
    · rw [deliver_frame _ m block running, ← frames]
      simp [Pipeline.future, inbox]
    · intro closed
      exact absurd closed (by simp [running])
    · intro gone
      simp [(exited gone).1] at inbox
  · have queue : (wtdSessionDeliverFin p.threads.session).1.outbound =
        p.threads.session.outbound := by
      unfold wtdSessionDeliverFin
      split_ifs <;> rfl
    obtain ⟨sent, places, logged⟩ := routed
    exact ⟨sound, ⟨sent, by rw [queue]; exact places, logged⟩, frames, fun _ => empty, exited⟩
  · refine ⟨sound, routed, ?_, finished, ?_⟩
    · have moved : p.stdin.take n ++ (p.stdin.drop n ++ p.inbox.flatMap PeerMessage.frame) =
          p.stdin ++ p.inbox.flatMap PeerMessage.frame := by
        rw [← List.append_assoc, List.take_append_drop]
      rw [← frames]
      simp only [Pipeline.future, List.append_assoc, moved]
    · intro gone
      simp [exited gone]
  · exact ⟨sound, routed, frames, finished, fun _ => ⟨finished closed, drained⟩⟩
  · have supplied := reads (p.stdin ++ p.inbox.flatMap PeerMessage.frame) fun gone => by
      simp [exited gone]
    have here := readerMain_remaining sound supplied step
    obtain ⟨heard, pushed, -, input⟩ := hear_all p.threads calls routed
    rw [next]
    refine ⟨readerMain_sound sound supplied step, heard, ?_, ?_, exited⟩
    · rw [pushed, ← frames, List.append_assoc]
      congr 1
      rw [Pipeline.future, Pipeline.future, here, outputsOf_append, outputsOf_sessionCalls]
    · rw [input]
      exact finished
  · obtain ⟨pushed, input, -⟩ := threadStep_pump allowed step
    rw [next]
    refine ⟨sound, routed_step _ b _ routed step, ?_, ?_, exited⟩
    · rw [pushed]
      exact frames
    · rw [input]
      exact finished

theorem pushed_grows (wake : Bool) (messages : List PeerMessage) (p : Pipeline) (a : PipelineStep)
    (q : Pipeline) (carried : Carried messages p) (taken : pipelineStep wake p a = some q) :
    ∃ more, q.threads.pushed = p.threads.pushed ++ more ∧
      (more = [] -> p.threads.session.outbound = [] -> q.threads.session.outbound = []) := by
  rcases pipelineStep_cases wake p a q taken with ⟨block, m, rest, -, inbox, rfl⟩ |
    ⟨-, empty, rfl⟩ | ⟨n, -, rfl⟩ | ⟨-, closed, drained, rfl⟩ |
    ⟨b, stdout, calls, -, reads, step, next⟩ | ⟨b, -, allowed, step, next⟩
  · exact ⟨[], by simp, fun _ queue => queue⟩
  · refine ⟨[], by simp, fun _ queue => ?_⟩
    simp only [wtdSessionDeliverFin]
    split_ifs <;> exact queue
  · exact ⟨[], by simp, fun _ queue => queue⟩
  · exact ⟨[], by simp, fun _ queue => queue⟩
  · obtain ⟨-, pushed, kept, -⟩ := hear_all p.threads calls carried.routed
    rw [next]
    exact ⟨outputsOf calls, pushed, fun silent queue => (kept silent).trans queue⟩
  · obtain ⟨pushed, -, queue⟩ := threadStep_pump allowed step
    exact ⟨[], by simp [pushed], fun _ before => queue (.inr before)⟩

structure AllPushed (messages : List PeerMessage) (p : Pipeline) : Prop where
  carried : Carried messages p
  pushed : p.threads.pushed = messages.map PeerMessage.outbound

theorem allPushed_step (wake : Bool) (messages : List PeerMessage) (p : Pipeline) (a : PipelineStep)
    (q : Pipeline) (all : AllPushed messages p) (taken : pipelineStep wake p a = some q) :
    AllPushed messages q ∧
      (p.threads.session.outbound = [] -> q.threads.session.outbound = []) := by
  have carried := carried_step wake messages p a q all.carried taken
  obtain ⟨more, grown, queue⟩ := pushed_grows wake messages p a q all.carried taken
  have none : more = [] := by
    have total := carried.frames
    rw [grown, all.pushed, List.append_assoc] at total
    exact (List.append_eq_nil_iff.mp (List.append_right_eq_self.mp total)).1
  exact ⟨⟨carried, by rw [grown, none, List.append_nil, all.pushed]⟩, queue none⟩

def caughtUp (r : Reader) : Prop :=
  match r.pc with
  | .decoding => r.buf = []
  | .waking consumed => r.buf.drop consumed = []
  | _ => True

structure AllRead (p : Pipeline) : Prop where
  inbox : p.inbox = []
  stdin : p.stdin = []
  stdout : p.stdout = []
  reader : caughtUp p.reader

theorem allRead_pushed (messages : List PeerMessage) (p : Pipeline) (carried : Carried messages p)
    (read : AllRead p) : AllPushed messages p := by
  have future : p.future = [] := by
    simp [Pipeline.future, read.inbox, read.stdin, read.stdout]
  have nothing : outputsOf (p.reader.remaining p.future) = [] := by
    have last := read.reader
    have empty := frameOutputs_waiting [] wtdFrameDecode_nil
    rw [future, Reader.remaining]
    cases pc : p.reader.pc with
    | reading => simp [frameOutputs_waiting _ (carried.sound.waiting pc), outputsOf]
    | decoding =>
      rw [caughtUp, pc] at last
      simp [show p.reader.buf = [] from last, empty, outputsOf]
    | waking consumed =>
      rw [caughtUp, pc] at last
      simp [show p.reader.buf.drop consumed = [] from last, empty, outputsOf]
    | done => rfl
    | eofWaking => rfl
    | exited => rfl
  have frames := carried.frames
  rw [nothing, List.append_nil] at frames
  exact ⟨carried, frames⟩

theorem drained_sent (wake : Bool) (messages : List PeerMessage) (p q : Pipeline)
    (schedule : List PipelineStep) (all : AllPushed messages p)
    (run : exec (pipelineStep wake) p schedule = some q) (drained : .pump .drain ∈ schedule)
    (idle : q.threads.pump = .idle) :
    sentLog q.threads.calls = messages.map fun m => route m.outbound := by
  obtain ⟨first, second, rfl⟩ := List.append_of_mem drained
  obtain ⟨before, early, run⟩ := (exec_append _ p q first _).mp run
  obtain ⟨after, taken, late⟩ := (exec_cons _ before q _ second).mp run
  have ready := exec_invariant (pipelineStep wake) (AllPushed messages)
    (fun p a q all taken => (allPushed_step wake messages p a q all taken).1)
    p before first all early
  have empty : after.threads.session.outbound = [] := by
    simp only [pipelineStep, accepted, if_true, Option.map_eq_some_iff] at taken
    obtain ⟨threads, step, rfl⟩ := taken
    exact (threadStep_pump rfl step).2.2 (.inl rfl)
  have flushed := exec_invariant (pipelineStep wake)
    (fun p => AllPushed messages p ∧ p.threads.session.outbound = [])
    (fun p a q held taken =>
      have next := allPushed_step wake messages p a q held.1 taken
      ⟨next.1, next.2 held.2⟩)
    after q second ⟨(allPushed_step wake messages before _ after ready taken).1, empty⟩ late
  obtain ⟨sent, places, logged⟩ := flushed.1.carried.routed
  rw [flushed.2, idle, flushed.1.pushed] at places
  rw [logged, show sent = messages.map PeerMessage.outbound by
    simpa [PumpPc.batch] using places.symm, List.map_map]
  rfl

def datagramsSent (calls : List TransportCall) : List (List UInt8) :=
  calls.filterMap fun
    | .sendDatagram data _ => some data
    | _ => none

def streamSent (calls : List TransportCall) : List (List UInt8) :=
  calls.filterMap fun
    | .sendStream data _ => some data
    | _ => none

def datagrams (messages : List PeerMessage) : List (List UInt8) :=
  (messages.filter fun m => !m.reliable).map PeerMessage.data

def streamChunks (messages : List PeerMessage) : List (List UInt8) :=
  (messages.filter fun m => m.reliable).map PeerMessage.data

def datagramOf : Sent -> Option (List UInt8)
  | .datagram data => some data
  | .stream _ => none

def streamOf : Sent -> Option (List UInt8)
  | .stream data => some data
  | .datagram _ => none

theorem datagramsSent_log (calls : List TransportCall) :
    datagramsSent calls = (sentLog calls).filterMap datagramOf := by
  rw [sentLog, List.filterMap_filterMap, datagramsSent]
  congr 1
  funext call
  cases call <;> rfl

theorem streamSent_log (calls : List TransportCall) :
    streamSent calls = (sentLog calls).filterMap streamOf := by
  rw [sentLog, List.filterMap_filterMap, streamSent]
  congr 1
  funext call
  cases call <;> rfl

theorem route_outbound (m : PeerMessage) :
    route m.outbound = if m.reliable then .stream m.data else .datagram m.data := by
  rcases m with ⟨_ | _, data, filled, small⟩ <;> rfl

theorem routed_payloads (messages : List PeerMessage) :
    (messages.map fun m => route m.outbound).filterMap datagramOf = datagrams messages ∧
      (messages.map fun m => route m.outbound).filterMap streamOf = streamChunks messages := by
  induction messages with
  | nil => exact ⟨rfl, rfl⟩
  | cons m rest ih =>
    rw [List.map_cons, route_outbound, List.filterMap_cons, List.filterMap_cons, ih.1, ih.2]
    cases kind : m.reliable <;> simp [datagrams, streamChunks, datagramOf, streamOf, kind]

theorem echo_transparent (wake : Bool) (messages : List PeerMessage)
    (first second : List PipelineStep) (middle last : Pipeline)
    (run : exec (pipelineStep wake) (start messages) first = some middle) (read : AllRead middle)
    (later : exec (pipelineStep wake) middle second = some last)
    (drained : .pump .drain ∈ second) (idle : last.threads.pump = .idle) :
    datagramsSent last.threads.calls = datagrams messages ∧
      (streamSent last.threads.calls).flatten = (streamChunks messages).flatten := by
  have carried := exec_invariant (pipelineStep wake) (Carried messages)
    (carried_step wake messages) _ middle first (start_carried messages) run
  have sent := drained_sent wake messages middle last second
    (allRead_pushed messages middle carried read) later drained idle
  obtain ⟨unreliable, stream⟩ := routed_payloads messages
  rw [datagramsSent_log, streamSent_log, sent, unreliable, stream]
  exact ⟨rfl, rfl⟩

def oneOfEach : List PeerMessage :=
  [⟨true, [7], by decide, by decide⟩, ⟨false, [8, 9], by decide, by decide⟩]

def oneOfEachRun : List PipelineStep :=
  [.deliver fun _ => 0, .echo 2, .take 1, .advance, .deliver fun _ => 0, .pump .drain, .echo 9,
    .take 4, .advance, .advance, .pump .load, .advance, .eintr, .take 2, .advance, .advance,
    .advance]

def oneOfEachPump : List PipelineStep :=
  [.pump .drain, .pump (.send 0), .pump (.send 0), .pump .load]

theorem echo_one_of_each :
    ∃ middle last, exec (pipelineStep true) (start oneOfEach) oneOfEachRun = some middle ∧
      AllRead middle ∧ exec (pipelineStep true) middle oneOfEachPump = some last ∧
      datagramsSent last.threads.calls = [[8, 9]] ∧
      (streamSent last.threads.calls).flatten = [7] :=
  ⟨_, _, rfl, ⟨rfl, rfl, rfl, trivial⟩, rfl,
    echo_transparent true oneOfEach oneOfEachRun oneOfEachPump _ _ rfl ⟨rfl, rfl, rfl, trivial⟩ rfl
      (by simp [oneOfEachPump]) rfl⟩

end WebTransportD.EchoPipeline
