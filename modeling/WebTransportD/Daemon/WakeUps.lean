import WebTransportD.Adapters.ChildOutput
import WebTransportD.Core.PumpThreads

set_option autoImplicit false

namespace WebTransportD.WakeUps

open WebTransportD.Frame Session Execution ChildOutput PumpThreads

-- One session with its reader; `eofSeen` records that a pump has loaded `output_eof` as set.
structure ReaderSession where
  reader : Reader
  threads : Threads
  eofSeen : Bool

-- Awake, the network thread is in `server_loop_cb`, with the peers of `todo` still to be pumped.
inductive NetPc where
  | asleep
  | pumping (todo : List Nat)
  deriving DecidableEq, Repr

structure WakeSystem where
  sessions : Nat -> ReaderSession
  peers : List Nat
  tokens : Nat
  net : NetPc

inductive WakeStep where
  | connect (i : Nat) (malloc : Bool)
  | deregister (i : Nat)
  | reader (i : Nat) (step : ReaderStep) (malloc full : Bool)
  | cycle (consumed : Nat)
  | pump (a : ThreadStep)
  | sleep

def freshSession (malloc : Bool) : ReaderSession :=
  { reader := readerStart malloc, threads := initial, eofSeen := false }

def quietSystem : WakeSystem :=
  { sessions := fun _ => freshSession true, peers := [], tokens := 0, net := .asleep }

-- `on_reader_ready` writes to a non-blocking pipe: a write that fails finds a token there.
def onReaderReady (full : Bool) (tokens : Nat) : Option Nat :=
  if full then if tokens = 0 then none else some tokens
  else some (tokens + 1)

def hearCall (malloc full : Bool) (heard : Threads × Nat) : ReaderCall -> Option (Threads × Nat)
  | .onOutput flag payload =>
      let t := heard.1
      some ({ t with
        session := wtdSessionOnOutput t.session malloc flag payload
        pushed := t.pushed ++ if malloc then [{ flag, payload }] else [] }, heard.2)
  | .onOutputEof =>
      some ({ heard.1 with session := wtdSessionOnOutputEof heard.1.session }, heard.2)
  | .wake => (onReaderReady full heard.2).map fun tokens => (heard.1, tokens)

def networkStep : ThreadStep -> Bool
  | .drain | .send _ | .load | .sendFin _ => true
  | .push _ | .setEof => false

def pumpSession (s : ReaderSession) (a : ThreadStep) : Option ReaderSession :=
  if networkStep a then
    (threadStep s.threads a).map fun threads =>
      { s with
        threads
        eofSeen := s.eofSeen || (a == .load && s.threads.session.outputEof) }
  else none

def wakeStep (w : WakeSystem) : WakeStep -> Option WakeSystem
  | .connect i malloc =>
      if w.net = .pumping [] ∧ i ∉ w.peers then
        some { w with
          sessions := Function.update w.sessions i (freshSession malloc)
          peers := i :: w.peers }
      else none
  | .deregister i =>
      if w.net = .pumping [] then some { w with peers := w.peers.filter (· ≠ i) } else none
  | .reader i step malloc full =>
      if i ∈ w.peers then
        let s := w.sessions i
        (readerMain true s.reader step).bind fun made =>
          (made.2.foldlM (hearCall malloc full) (s.threads, w.tokens)).map fun heard =>
            { w with
              sessions := Function.update w.sessions i
                { s with reader := made.1, threads := heard.1 }
              tokens := heard.2 }
      else none
  | .cycle consumed =>
      -- A cycle that consumes no token is one that a packet or a timer started.
      if w.net = .asleep ∧ consumed ≤ w.tokens then
        some { w with tokens := w.tokens - consumed, net := .pumping w.peers }
      else none
  | .pump a =>
      match w.net with
      | .pumping (i :: rest) =>
          (pumpSession (w.sessions i) a).map fun s =>
            { w with
              sessions := Function.update w.sessions i s
              net := .pumping (if s.threads.pump = .idle then rest else i :: rest) }
      | _ => none
  | .sleep => if w.net = .pumping [] then some { w with net := .asleep } else none

def aboutToWake (r : Reader) : Bool :=
  match r.pc with
  | .waking _ | .eofWaking => true
  | _ => false

theorem wake_heard (t : Threads) (tokens : Nat) (malloc full : Bool) (calls : List ReaderCall)
    (heard : Threads × Nat) (awake : calls = wakeCalls true)
    (called : calls.foldlM (hearCall malloc full) (t, tokens) = some heard) :
    heard.1 = t ∧ 0 < heard.2 := by
  cases full with
  | false =>
    obtain rfl : _ = heard := by simpa [awake, wakeCalls, hearCall, onReaderReady] using called
    exact ⟨rfl, Nat.succ_pos _⟩
  | true =>
    by_cases empty : tokens = 0
    · simp [awake, wakeCalls, hearCall, onReaderReady, empty] at called
    · obtain rfl : _ = heard := by
        simpa [awake, wakeCalls, hearCall, onReaderReady, empty] using called
      exact ⟨rfl, Nat.pos_of_ne_zero empty⟩

theorem reader_cases (s : ReaderSession) (tokens : Nat) (step : ReaderStep) (malloc full : Bool)
    (made : Reader × List ReaderCall) (heard : Threads × Nat)
    (taken : readerMain true s.reader step = some made)
    (called : made.2.foldlM (hearCall malloc full) (s.threads, tokens) = some heard) :
    (aboutToWake made.1 = true ∧ heard.1.pump = s.threads.pump ∧ heard.2 = tokens) ∨
    (heard.1 = s.threads ∧ 0 < heard.2) ∨
    (aboutToWake made.1 = aboutToWake s.reader ∧ heard = (s.threads, tokens)) := by
  obtain ⟨next, calls⟩ := made
  have silent (same : aboutToWake next = aboutToWake s.reader) (none : calls = []) :
      aboutToWake next = aboutToWake s.reader ∧ heard = (s.threads, tokens) :=
    ⟨same, by simpa [none] using called.symm⟩
  rcases readerMain_cases true s.reader step next calls taken with
    ⟨rfl, pc, -, rfl, none⟩ | ⟨chunk, rfl, -, pc, -, rfl, none⟩ |
    ⟨rfl, pc, -, rfl, none⟩ | ⟨rfl, pc, -, rfl, none⟩ | ⟨rfl, pc, -, rfl, none⟩ |
    ⟨rfl, pc, -, rfl, none⟩ | ⟨e, rfl, pc, -, -, rfl, none⟩ |
    ⟨d, rfl, pc, -, rfl, rfl⟩ | ⟨consumed, rfl, pc, rfl, awake⟩ | ⟨rfl, pc, rfl, rfl⟩ |
    ⟨rfl, pc, rfl, awake⟩
  · exact .inr (.inr (silent (by simp [aboutToWake, pc]) none))
  · exact .inr (.inr (silent (by simp [aboutToWake, pc]) none))
  · exact .inr (.inr (silent rfl none))
  · exact .inr (.inr (silent (by simp [aboutToWake, pc]) none))
  · exact .inr (.inr (silent (by simp [aboutToWake, pc]) none))
  · exact .inr (.inr (silent (by simp [aboutToWake, pc]) none))
  · exact .inr (.inr (silent (by simp [aboutToWake, pc]) none))
  · obtain rfl : _ = heard := by simpa [hearCall] using called
    exact .inl ⟨rfl, rfl, rfl⟩
  · exact .inr (.inl (wake_heard s.threads tokens malloc full calls heard awake called))
  · obtain rfl : _ = heard := by simpa [hearCall] using called
    exact .inl ⟨rfl, rfl, rfl⟩
  · exact .inr (.inl (wake_heard s.threads tokens malloc full calls heard awake called))

def Alerted (s : ReaderSession) (tokens : Nat) : Prop :=
  0 < tokens ∨ aboutToWake s.reader = true

def NetPc.todo : NetPc -> List Nat
  | .asleep => []
  | .pumping todo => todo

structure Watched (i : Nat) (s : ReaderSession) (tokens : Nat) (todo : List Nat) : Prop where
  queue : s.threads.session.outbound ≠ [] ->
    Alerted s tokens ∨ (i ∈ todo ∧ s.threads.pump = .idle)
  eof : s.threads.session.outputEof = true -> s.eofSeen = false ->
    Alerted s tokens ∨ i ∈ todo
  finning : s.threads.pump = .finning -> s.eofSeen = true
  busy : s.threads.pump ≠ .idle -> todo.head? = some i

theorem fresh_watched (i : Nat) (malloc : Bool) (tokens : Nat) (todo : List Nat) :
    Watched i (freshSession malloc) tokens todo where
  queue filled := absurd rfl filled
  eof set := by simp [freshSession, initial, wtdSessionInit] at set
  finning pc := by simp [freshSession, initial] at pc
  busy pc := absurd rfl pc

theorem Watched.alerted {i : Nat} {s t : ReaderSession} {tokens more : Nat} {todo : List Nat}
    (watched : Watched i s tokens todo) (alerted : Alerted t more)
    (pump : t.threads.pump = s.threads.pump) (seen : t.eofSeen = s.eofSeen) :
    Watched i t more todo where
  queue _ := .inl alerted
  eof _ _ := .inl alerted
  finning pc := by
    rw [seen]
    exact watched.finning (pump.symm.trans pc)
  busy pc := watched.busy (by rwa [← pump])

theorem Watched.cycle {i : Nat} {s : ReaderSession} {tokens left : Nat} {peers : List Nat}
    (watched : Watched i s tokens []) (member : i ∈ peers) : Watched i s left peers := by
  have idle : s.threads.pump = .idle := by
    by_contra pc
    simpa using watched.busy pc
  exact ⟨fun _ => .inr ⟨member, idle⟩, fun _ _ => .inr member, watched.finning,
    fun pc => absurd idle pc⟩

theorem Watched.other {i j : Nat} {s : ReaderSession} {tokens : Nat} {rest todo : List Nat}
    (watched : Watched i s tokens (j :: rest)) (apart : i ≠ j)
    (kept : i ∈ rest -> i ∈ todo) : Watched i s tokens todo := by
  have idle : s.threads.pump = .idle := by
    by_contra pc
    exact apart (by simpa using (watched.busy pc).symm)
  have later (turn : i ∈ j :: rest) : i ∈ todo := kept ((List.mem_cons.mp turn).resolve_left apart)
  refine ⟨fun filled => ?_, fun set unseen => ?_, watched.finning, fun pc => absurd idle pc⟩
  · exact (watched.queue filled).imp_right fun turn => ⟨later turn.1, turn.2⟩
  · exact (watched.eof set unseen).imp_right later

theorem Watched.pump {i : Nat} {s t : ReaderSession} {tokens : Nat} {rest : List Nat}
    {a : ThreadStep} (watched : Watched i s tokens (i :: rest))
    (taken : pumpSession s a = some t) :
    Watched i t tokens (if t.threads.pump = .idle then rest else i :: rest) := by
  simp only [pumpSession] at taken
  split_ifs at taken with network
  obtain ⟨threads, stepped, rfl⟩ := Option.map_eq_some_iff.mp taken
  have alerted (pc : s.threads.pump ≠ .idle) (filled : s.threads.session.outbound ≠ []) :
      Alerted s tokens := (watched.queue filled).resolve_right fun turn => pc turn.2
  rcases threadStep_cases s.threads a threads stepped with ⟨f, rfl, -, rfl⟩ | ⟨rfl, -, rfl⟩ |
    ⟨rfl, idle, rfl⟩ | ⟨ret, f, more, rfl, flushing, rfl⟩ | ⟨rfl, empty, eof, unsent, rfl⟩ |
    ⟨rfl, empty, settled, rfl⟩ | ⟨ret, rfl, finning, rfl⟩
  · simp [networkStep] at network
  · simp [networkStep] at network
  · -- drain
    refine ⟨fun filled => absurd rfl filled, fun _ _ => .inr (by simp), by simp, by simp⟩
  · -- send
    have busy : s.threads.pump ≠ .idle := by simp [flushing]
    exact ⟨fun filled => .inl (alerted busy filled), fun _ _ => .inr (by simp), by simp, by simp⟩
  · -- load, and the FIN is due
    have busy : s.threads.pump ≠ .idle := by simp [empty]
    exact ⟨fun filled => .inl (alerted busy filled), fun _ _ => .inr (by simp), by simp [eof],
      by simp⟩
  · -- load, and the pump returns
    have busy : s.threads.pump ≠ .idle := by simp [empty]
    refine ⟨fun filled => .inl (alerted busy filled), fun set unseen => ?_, by simp, by simp⟩
    simp [show s.threads.session.outputEof = true from set] at unseen
  · -- send_fin
    have busy : s.threads.pump ≠ .idle := by simp [finning]
    have seen := watched.finning finning
    refine ⟨fun filled => ?_, fun set unseen => ?_, by simp, by simp⟩
    · have before : s.threads.session.outbound ≠ [] := by
        by_cases accepted : ret = 0 <;> simpa [accepted] using filled
      exact .inl (alerted busy before)
    · simp [seen] at unseen

def Attentive (w : WakeSystem) : Prop :=
  ∀ i ∈ w.peers, Watched i (w.sessions i) w.tokens w.net.todo

theorem reader_attentive (w : WakeSystem) (i : Nat) (step : ReaderStep) (malloc full : Bool)
    (next : WakeSystem) (attentive : Attentive w)
    (taken : wakeStep w (.reader i step malloc full) = some next) : Attentive next := by
  simp only [wakeStep] at taken
  split_ifs at taken with present
  obtain ⟨made, stepped, later⟩ := Option.bind_eq_some_iff.mp taken
  obtain ⟨heard, called, rfl⟩ := Option.map_eq_some_iff.mp later
  intro j member
  have watched := attentive j member
  by_cases same : j = i
  · subst same
    simp only [Function.update_self]
    rcases reader_cases (w.sessions j) w.tokens step malloc full made heard stepped called with
      ⟨waking, pump, -⟩ | ⟨kept, pending⟩ | ⟨still, rfl⟩
    · exact watched.alerted (.inr waking) pump rfl
    · exact watched.alerted (.inl pending) (by rw [kept]) rfl
    · have alike (alerted : Alerted (w.sessions j) w.tokens) :
          Alerted { w.sessions j with reader := made.1 } w.tokens :=
        alerted.imp_right fun waking => still.trans waking
      exact ⟨fun filled => (watched.queue filled).imp_left alike,
        fun set unseen => (watched.eof set unseen).imp_left alike, watched.finning, watched.busy⟩
  · simp only [Function.update_of_ne same]
    rcases reader_cases (w.sessions i) w.tokens step malloc full made heard stepped called with
      ⟨-, -, tokens⟩ | ⟨-, pending⟩ | ⟨-, rfl⟩
    · rwa [tokens]
    · exact watched.alerted (.inl pending) rfl rfl
    · exact watched

theorem pump_attentive (w : WakeSystem) (a : ThreadStep) (next : WakeSystem)
    (attentive : Attentive w) (taken : wakeStep w (.pump a) = some next) : Attentive next := by
  rcases net : w.net with _ | (_ | ⟨i, rest⟩) <;> simp only [wakeStep, net, reduceCtorEq] at taken
  obtain ⟨s, pumped, rfl⟩ := Option.map_eq_some_iff.mp taken
  intro j member
  have watched := attentive j member
  rw [net] at watched
  by_cases same : j = i
  · subst same
    simpa only [Function.update_self, NetPc.todo] using Watched.pump watched pumped
  · simp only [Function.update_of_ne same]
    apply Watched.other watched same
    intro turn
    simp only [NetPc.todo]
    split_ifs
    · exact turn
    · exact List.mem_cons_of_mem _ turn

theorem attentive_step (w : WakeSystem) (a : WakeStep) (next : WakeSystem)
    (attentive : Attentive w) (taken : wakeStep w a = some next) : Attentive next := by
  cases a with
  | connect i malloc =>
    simp only [wakeStep] at taken
    split_ifs at taken with allowed
    obtain rfl : _ = next := by simpa using taken
    intro j member
    by_cases same : j = i
    · subst same
      simpa only [Function.update_self] using fresh_watched j malloc w.tokens w.net.todo
    · simp only [Function.update_of_ne same]
      exact attentive j ((List.mem_cons.mp member).resolve_left same)
  | deregister i =>
    simp only [wakeStep] at taken
    split_ifs at taken
    obtain rfl : _ = next := by simpa using taken
    intro j member
    exact attentive j (List.mem_filter.mp member).1
  | reader i step malloc full => exact reader_attentive w i step malloc full next attentive taken
  | cycle consumed =>
    simp only [wakeStep] at taken
    split_ifs at taken with allowed
    obtain rfl : _ = next := by simpa using taken
    intro j member
    have watched := attentive j member
    rw [allowed.1] at watched
    exact watched.cycle member
  | pump a => exact pump_attentive w a next attentive taken
  | sleep =>
    simp only [wakeStep] at taken
    split_ifs at taken with finished
    obtain rfl : _ = next := by simpa using taken
    intro j member
    have watched := attentive j member
    rwa [finished] at watched

theorem no_lost_wakeup (schedule : List WakeStep) (w : WakeSystem)
    (run : exec wakeStep quietSystem schedule = some w) (i : Nat) (member : i ∈ w.peers) :
    ¬ (w.net = .asleep ∧ w.tokens = 0 ∧ aboutToWake (w.sessions i).reader = false ∧
      ((w.sessions i).threads.session.outbound ≠ [] ∨
        ((w.sessions i).threads.session.outputEof = true ∧ (w.sessions i).eofSeen = false))) := by
  have attentive := exec_invariant wakeStep Attentive attentive_step quietSystem w schedule
    (by simp [Attentive, quietSystem]) run
  rintro ⟨asleep, empty, quiet, pending⟩
  have watched := attentive i member
  have unalerted : ¬ Alerted (w.sessions i) w.tokens := by simp [Alerted, empty, quiet]
  simp only [asleep, NetPc.todo] at watched
  rcases pending with filled | ⟨set, unseen⟩
  · rcases watched.queue filled with alerted | ⟨turn, -⟩
    · exact unalerted alerted
    · simp at turn
  · rcases watched.eof set unseen with alerted | turn
    · exact unalerted alerted
    · simp at turn

-- The reader pushes a frame while the pump is between its drain and its load.
def pushBehindDrain : List WakeStep :=
  [.cycle 0, .connect 3 true, .sleep, .cycle 0, .pump .drain,
    .reader 3 (.read (.got [0, 1, 7])) true false, .reader 3 .advance true false, .pump .load,
    .sleep]

theorem no_lost_wakeup_behind_drain :
    ∃ w, exec wakeStep quietSystem pushBehindDrain = some w ∧ w.net = .asleep ∧ w.tokens = 0 ∧
      (w.sessions 3).threads.session.outbound = [⟨0, [7]⟩] ∧
      aboutToWake (w.sessions 3).reader = true := by
  refine ⟨_, rfl, rfl, rfl, rfl, ?_⟩
  by_contra quiet
  exact no_lost_wakeup pushBehindDrain _ rfl 3 (by decide)
    ⟨rfl, rfl, by simpa using quiet, .inl (by decide)⟩

end WebTransportD.WakeUps
