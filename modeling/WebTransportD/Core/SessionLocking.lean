import WebTransportD.Core.QueueMemory

set_option autoImplicit false

namespace WebTransportD.SessionLocking

open Session Execution Simulation Chain Mutex PumpThreads QueueMemory

theorem store_edited (b : QueueStore) (pushes : b ∈ pushBody) (s : SessionMemory) (l : Local)
    (freed : Option Nat) (away : ∀ g ∈ freed, Away s l g) (batch : List (Nat × OutboundFrame))
    (calls : List TransportCall) (fin : Bool) :
    queueStore b (s.edited freed batch calls fin) l =
      ((queueStore b s l).1.edited freed batch calls fin, (queueStore b s l).2) := by
  simp only [pushBody, List.mem_cons, List.not_mem_nil, or_false] at pushes
  cases l with
  | made f =>
    have other : ∀ g ∈ freed, g ≠ f := fun g member => (away g member f rfl).1
    have self := edited_heap s freed batch calls fin f other
    rcases pushes with rfl | rfl | rfl
    · simp only [queueStore, self]
      cases s.queue.heap f with
      | none => rfl
      | some node => simp only [edited_setCell s freed batch calls fin f _ other]
    · simp only [queueStore,
        show (s.edited freed batch calls fin).queue.tail = s.queue.tail from rfl]
      cases last : s.queue.tail with
      | none => rfl
      | some t =>
        have apart : ∀ g ∈ freed, g ≠ t := by
          rintro g member rfl
          exact (away g member f rfl).2 last
        simp only [edited_heap s freed batch calls fin t apart]
        cases s.queue.heap t with
        | none => rfl
        | some node => simp only [edited_setCell s freed batch calls fin t _ apart]
    · simp only [queueStore, self]
      rfl
  | _ => rcases pushes with rfl | rfl | rfl <;> rfl

theorem store_outside (b : QueueStore) (s : SessionMemory) (l : Local) :
    (queueStore b s l).1.outputEof = s.outputEof ∧
      (queueStore b s l).1.streamFinSent = s.streamFinSent ∧
      (queueStore b s l).1.calls = s.calls ∧ s.pushed <+: (queueStore b s l).1.pushed ∧
      (s.fault = true -> (queueStore b s l).1.fault = true) := by
  cases b <;> cases l <;> simp only [queueStore]
  all_goals repeat' split
  all_goals simp [SessionMemory.broken, SessionMemory.setCell]

theorem store_keeps (b : QueueStore) (pushes : b ∈ pushBody) (s : SessionMemory) (l : Local) :
    (∀ g, Away s l g -> (queueStore b s l).1.queue.heap g = s.queue.heap g) ∧
      (queueStore b s l).1.batch = s.batch ∧
      ∀ f, (queueStore b s l).2 = .made f ->
        l = .made f ∧ (queueStore b s l).1.queue.tail = s.queue.tail := by
  simp only [pushBody, List.mem_cons, List.not_mem_nil, or_false] at pushes
  cases l with
  | made f =>
    rcases pushes with rfl | rfl | rfl
    · cases cell : s.queue.heap f with
      | none => simp [queueStore, cell, SessionMemory.broken]
      | some node =>
        simp only [queueStore, cell]
        refine ⟨fun g away => ?_, rfl, fun _ same => ⟨same, rfl⟩⟩
        exact Function.update_of_ne (away f rfl).1 ..
    · cases last : s.queue.tail with
      | none => simp [queueStore, last]
      | some t =>
        cases cell : s.queue.heap t with
        | none => simp [queueStore, last, cell, SessionMemory.broken]
        | some node =>
          simp only [queueStore, last, cell]
          refine ⟨fun g away => ?_, rfl, fun _ same => ⟨same, last⟩⟩
          apply Function.update_of_ne
          rintro rfl
          exact (away f rfl).2 last
    · simp [queueStore]
  | _ => rcases pushes with rfl | rfl | rfl <;> simp [queueStore]

theorem away_store {b : QueueStore} (pushes : b ∈ pushBody) {s : SessionMemory} {l : Local}
    {g : Nat} (away : Away s l g) : Away (queueStore b s l).1 (queueStore b s l).2 g := by
  intro f here
  obtain ⟨same, tail⟩ := (store_keeps b pushes s l).2.2 f here
  rw [tail]
  exact away f same

theorem finish_edited (rest : List QueueStore) (pushes : ∀ b ∈ rest, b ∈ pushBody)
    (s : SessionMemory) (l : Local) (freed : Option Nat) (away : ∀ g ∈ freed, Away s l g)
    (batch : List (Nat × OutboundFrame)) (calls : List TransportCall) (fin : Bool) :
    session.finish rest (s.edited freed batch calls fin) l =
      ((session.finish rest s l).1.edited freed batch calls fin, (session.finish rest s l).2) := by
  induction rest generalizing s l with
  | nil => rfl
  | cons b rest ih =>
    obtain ⟨here, pushes⟩ := List.forall_mem_cons.mp pushes
    have step := store_edited b here s l freed away batch calls fin
    have later := ih pushes (queueStore b s l).1 (queueStore b s l).2
      fun g member => away_store here (away g member)
    simp only [Program.finish, show session.micro = queueStore from rfl, step]
    exact later

theorem finish_outside (rest : List QueueStore) (s : SessionMemory) (l : Local) :
    (session.finish rest s l).1.outputEof = s.outputEof ∧
      (session.finish rest s l).1.streamFinSent = s.streamFinSent ∧
      (session.finish rest s l).1.calls = s.calls ∧
      s.pushed <+: (session.finish rest s l).1.pushed ∧
      (s.fault = true -> (session.finish rest s l).1.fault = true) := by
  induction rest generalizing s l with
  | nil => exact ⟨rfl, rfl, rfl, List.prefix_refl _, id⟩
  | cons b rest ih =>
    obtain ⟨eof, fin, calls, pushed, fault⟩ := store_outside b s l
    obtain ⟨eof', fin', calls', pushed', fault'⟩ := ih (queueStore b s l).1 (queueStore b s l).2
    exact ⟨eof'.trans eof, fin'.trans fin, calls'.trans calls, pushed.trans pushed',
      fun broken => fault' (fault broken)⟩

theorem finish_keeps (rest : List QueueStore) (pushes : ∀ b ∈ rest, b ∈ pushBody)
    (s : SessionMemory) (l : Local) :
    (∀ g, Away s l g -> (session.finish rest s l).1.queue.heap g = s.queue.heap g) ∧
      (session.finish rest s l).1.batch = s.batch := by
  induction rest generalizing s l with
  | nil => exact ⟨fun _ _ => rfl, rfl⟩
  | cons b rest ih =>
    obtain ⟨here, pushes⟩ := List.forall_mem_cons.mp pushes
    obtain ⟨heap, batch, -⟩ := store_keeps b here s l
    obtain ⟨later, batch'⟩ := ih pushes (queueStore b s l).1 (queueStore b s l).2
    refine ⟨fun g away => ?_, batch'.trans batch⟩
    exact (later g (away_store here away)).trans (heap g away)

theorem finish_filled (rest : List QueueStore) (drains : ∀ b ∈ rest, b ∈ drainBody)
    (s : SessionMemory) (l : Local) (heap : Nat -> Option (Cell Nat OutboundFrame)) (eof : Bool) :
    session.finish rest (s.filled heap eof) l =
        ((session.finish rest s l).1.filled heap eof, (session.finish rest s l).2) ∧
      (session.finish rest s l).1.queue.heap = s.queue.heap := by
  induction rest generalizing s l with
  | nil => exact ⟨rfl, rfl⟩
  | cons b rest ih =>
    obtain ⟨here, drains⟩ := List.forall_mem_cons.mp drains
    have step : queueStore b (s.filled heap eof) l =
          ((queueStore b s l).1.filled heap eof, (queueStore b s l).2) ∧
        (queueStore b s l).1.queue.heap = s.queue.heap := by
      simp only [drainBody, List.mem_cons, List.not_mem_nil, or_false] at here
      rcases here with rfl | rfl | rfl <;> cases l <;> exact ⟨rfl, rfl⟩
    obtain ⟨later, same⟩ := ih drains (queueStore b s l).1 (queueStore b s l).2
    refine ⟨?_, same.trans step.2⟩
    simp only [Program.finish, show session.micro = queueStore from rfl, step.1]
    exact later

structure Locked (m : SessionMachine) : Prop where
  sound : Sound (session.view m)
  pushing : ∀ rest, m.holder = some (.reader, rest) -> (∀ b ∈ rest, b ∈ pushBody) ∧
    ∀ g ∈ addresses m.shared.batch, Away m.shared (m.locals .reader) g
  draining : ∀ rest, m.holder = some (.network, rest) -> ∀ b ∈ rest, b ∈ drainBody

theorem networkAt_frame {heap : Nat -> Option (Cell Nat OutboundFrame)}
    {batch : List (Nat × OutboundFrame)} {l : Local} (f : Nat) (here : NetworkAt heap batch l)
    (place : l = .walking (some f) ∨ ∃ next, l = .sending f next ∨ l = .freeing f next) :
    f ∈ addresses batch ∧ ∃ node, heap f = some node := by
  rcases place with rfl | ⟨next, rfl | rfl⟩
  · cases batch with
    | nil => simp [NetworkAt, Spells] at here
    | cons cell rest =>
      obtain ⟨same, next, live, -⟩ := here
      obtain rfl : f = cell.1 := Option.some.inj same
      exact ⟨by simp [addresses], _, live⟩
  · obtain ⟨frame, rest, rfl, live, -⟩ := here
    exact ⟨by simp, _, live⟩
  · obtain ⟨frame, rest, rfl, live, -⟩ := here
    exact ⟨by simp, _, live⟩

theorem network_commutes (m : SessionMachine)
    (rest : List QueueStore) (locked : Locked m) (holder : m.holder = some (.reader, rest))
    (e : Input) (f : SessionMemory -> Local -> Option (SessionMemory × Local)) (s : SessionMemory)
    (l : Local) (next : sessionNext .network e (m.locals .network) = some (.free f))
    (made : f m.shared (m.locals .network) = some (s, l)) :
    f (session.finish rest m.shared (m.locals .reader)).1 (m.locals .network) =
        some ((session.finish rest s (m.locals .reader)).1, l) ∧
      (session.finish rest s (m.locals .reader)).2 =
        (session.finish rest m.shared (m.locals .reader)).2 := by
  obtain ⟨pushes, away⟩ := locked.pushing rest holder
  obtain ⟨heap, batch⟩ := finish_keeps rest pushes m.shared (m.locals .reader)
  obtain ⟨eof, fin, calls, -⟩ := finish_outside rest m.shared (m.locals .reader)
  have edited := finish_edited rest pushes m.shared (m.locals .reader)
  have here := locked.sound.network
  simp only [Program.view, holder, ne_eq, reduceCtorEq, not_false_eq_true, Function.update_of_ne,
    batch] at here
  cases e with
  | output node frame => cases place : m.locals .network <;> simp [sessionNext] at next
  | eof => cases place : m.locals .network <;> simp [sessionNext] at next
  | go ret =>
    rcases place : m.locals .network with _ | _ | _ | _ | (_ | g) | ⟨g, link⟩ | ⟨g, link⟩ | _ <;>
      simp [sessionNext, place] at next <;> subst next
    · simp only [loadEof, Option.some.injEq, Prod.mk.injEq] at made
      obtain ⟨rfl, rfl⟩ := made
      simp [loadEof, eof, fin]
    · obtain ⟨member, node, live⟩ := networkAt_frame g here (.inl place)
      have same := heap g (away g member)
      rw [same] at live
      obtain ⟨rfl, rfl⟩ : m.shared = s ∧ Local.sending g node.next = l := by
        simpa [readNext, live] using made
      simp [readNext, same, live]
    · obtain ⟨member, node, live⟩ := networkAt_frame g here (.inr ⟨link, .inl place⟩)
      have same := heap g (away g member)
      rw [same] at live
      simp only [send, live, Option.some.injEq, Prod.mk.injEq] at made
      obtain ⟨rfl, rfl⟩ := made
      have changed := edited none (by simp) m.shared.batch
        (m.shared.calls ++ [sendFrame node.value ret]) m.shared.streamFinSent
      simp only [send, same, live, calls]
      rw [show { m.shared with calls := m.shared.calls ++ [sendFrame node.value ret] } =
        m.shared.edited none m.shared.batch _ m.shared.streamFinSent from rfl, changed,
        ← batch, ← fin]
      exact ⟨rfl, rfl⟩
    · obtain ⟨member, node, live⟩ := networkAt_frame g here (.inr ⟨link, .inr place⟩)
      have same := heap g (away g member)
      rw [same] at live
      simp only [freeNode, live, Option.some.injEq, Prod.mk.injEq] at made
      obtain ⟨rfl, rfl⟩ := made
      have changed := edited (some g) (by simpa using away g member) m.shared.batch.tail
        m.shared.calls m.shared.streamFinSent
      simp only [freeNode, same, live, batch]
      rw [show { m.shared.setCell g none with batch := m.shared.batch.tail } =
        m.shared.edited (some g) m.shared.batch.tail m.shared.calls m.shared.streamFinSent from rfl,
        changed, ← calls, ← fin]
      exact ⟨rfl, rfl⟩
    · simp only [sendFin, Option.some.injEq, Prod.mk.injEq] at made
      obtain ⟨rfl, rfl⟩ := made
      have changed := edited none (by simp) m.shared.batch
        (m.shared.calls ++ [.sendFin ret]) (if ret = 0 then true else m.shared.streamFinSent)
      simp only [sendFin, calls, fin]
      rw [show { m.shared with
          calls := m.shared.calls ++ [.sendFin ret]
          streamFinSent := if ret = 0 then true else m.shared.streamFinSent } =
        m.shared.edited none m.shared.batch _ _ from rfl, changed, ← batch]
      exact ⟨rfl, rfl⟩

theorem reader_commutes (m : SessionMachine)
    (rest : List QueueStore) (locked : Locked m) (holder : m.holder = some (.network, rest))
    (e : Input) (f : SessionMemory -> Local -> Option (SessionMemory × Local)) (s : SessionMemory)
    (l : Local) (next : sessionNext .reader e (m.locals .reader) = some (.free f))
    (made : f m.shared (m.locals .reader) = some (s, l)) :
    f (session.finish rest m.shared (m.locals .network)).1 (m.locals .reader) =
        some ((session.finish rest s (m.locals .network)).1, l) ∧
      (session.finish rest s (m.locals .network)).2 =
        (session.finish rest m.shared (m.locals .network)).2 := by
  have filled := finish_filled rest (locked.draining rest holder) m.shared (m.locals .network)
  obtain ⟨-, heap⟩ := filled m.shared.queue.heap m.shared.outputEof
  obtain ⟨eof, -⟩ := finish_outside rest m.shared (m.locals .network)
  cases e with
  | output node frame =>
    cases place : m.locals .reader <;> simp [sessionNext, place] at next
    subst next
    cases node with
    | none =>
      obtain ⟨rfl, rfl⟩ : m.shared = s ∧ Local.ready = l := by simpa [makeNode] using made
      exact ⟨rfl, rfl⟩
    | some x =>
      simp only [makeNode] at made
      split_ifs at made with used
      obtain ⟨rfl, rfl⟩ : _ = s ∧ Local.made x = l := by simpa using made
      have changed := (filled (Function.update m.shared.queue.heap x
        (some { next := none, value := frame })) m.shared.outputEof).1
      simp only [makeNode, heap, used]
      rw [show m.shared.setCell x (some { next := none, value := frame }) =
        m.shared.filled _ m.shared.outputEof from rfl, changed, ← heap, ← eof]
      exact ⟨rfl, rfl⟩
  | eof =>
    cases place : m.locals .reader <;> simp [sessionNext, place] at next
    subst next
    simp only [storeEof, Option.some.injEq, Prod.mk.injEq] at made
    obtain ⟨rfl, rfl⟩ := made
    have changed := (filled m.shared.queue.heap true).1
    simp only [storeEof]
    rw [show { m.shared with outputEof := true } =
      m.shared.filled m.shared.queue.heap true from rfl, changed, ← heap]
    exact ⟨rfl, rfl⟩
  | go ret => cases place : m.locals .reader <;> simp [sessionNext, place] at next

theorem session_commutes : session.Commutes Locked := by
  intro m u rest t e f s l locked holder other next made
  cases u with
  | reader =>
    cases t with
    | reader => exact absurd rfl other
    | network => exact network_commutes m rest locked holder e f s l next made
  | network =>
    cases t with
    | reader => exact reader_commutes m rest locked holder e f s l next made
    | network => exact absurd rfl other

theorem network_free_shrinks (e : Input) (l : Local)
    (f : SessionMemory -> Local -> Option (SessionMemory × Local)) (s : SessionMemory)
    (made : SessionMemory × Local) (next : sessionNext .network e l = some (.free f))
    (taken : f s l = some made) :
    made.1.queue.tail = s.queue.tail ∧ made.1.batch ⊆ s.batch := by
  cases e with
  | output node frame => cases l <;> simp [sessionNext] at next
  | eof => cases l <;> simp [sessionNext] at next
  | go ret =>
    rcases l with _ | _ | _ | _ | (_ | g) | ⟨g, link⟩ | ⟨g, link⟩ | _ <;>
      simp only [sessionNext, Option.some.injEq, Action.free.injEq, reduceCtorEq] at next <;>
      subst next
    · obtain rfl := Option.some.inj taken
      exact ⟨rfl, List.Subset.refl _⟩
    · cases cell : s.queue.heap g <;> simp only [readNext, cell, Option.some.injEq] at taken <;>
        subst taken <;> exact ⟨rfl, List.Subset.refl _⟩
    · cases cell : s.queue.heap g <;> simp only [send, cell, Option.some.injEq] at taken <;>
        subst taken <;> exact ⟨rfl, List.Subset.refl _⟩
    · cases cell : s.queue.heap g <;> simp only [freeNode, cell, Option.some.injEq] at taken <;>
        subst taken
      · exact ⟨rfl, List.Subset.refl _⟩
      · exact ⟨rfl, List.tail_subset _⟩
    · obtain rfl := Option.some.inj taken
      exact ⟨rfl, List.Subset.refl _⟩

theorem locked_step (m : SessionMachine) (a : MachineStep Thread Input) (n : SessionMachine)
    (locked : Locked m) (taken : machineStep session m a = some n) : Locked n := by
  have sound : Sound (session.view n) := by
    cases kind : label a with
    | none =>
      rw [view_silent session m a n taken kind]
      exact locked.sound
    | some b =>
      exact session_simulates.preserved _ b _ locked.sound
        (view_matched session Locked session_commutes m a n b locked taken kind)
  refine ⟨sound, ?_, ?_⟩
  · intro rest holder
    rcases machineStep_cases session m a n taken with
      ⟨t, e, f, s, l, rfl, outside, next, made, rfl⟩ | ⟨t, e, body, rfl, unheld, next, rfl⟩ |
      ⟨t, b, rest', rfl, held, rfl⟩ | ⟨t, rfl, held, rfl⟩
    · cases t with
      | reader => exact absurd rfl (outside .reader rest holder)
      | network =>
        obtain ⟨pushes, away⟩ := locked.pushing rest holder
        obtain ⟨tail, fewer⟩ := network_free_shrinks e _ f m.shared (s, l) next made
        refine ⟨pushes, fun g member h place => ?_⟩
        have old := away g (List.map_subset _ fewer member) h (by simpa using place)
        exact ⟨old.1, by rw [tail]; exact old.2⟩
    · obtain ⟨rfl, rfl⟩ : t = .reader ∧ body = rest := by simpa using holder
      have here : session.view m = { shared := m.shared, locals := m.locals } := by
        simp [Program.view, unheld]
      have before := locked.sound
      rw [here] at before
      refine ⟨?_, before.away⟩
      cases e <;> cases place : m.locals .reader <;> simp [sessionNext, place] at next
      simp [← next]
    · obtain ⟨rfl, rfl⟩ : t = .reader ∧ rest' = rest := by simpa using holder
      obtain ⟨pushes, away⟩ := locked.pushing _ held
      obtain ⟨here, pushes⟩ := List.forall_mem_cons.mp pushes
      have same := (store_keeps b here m.shared (m.locals .reader)).2.1
      refine ⟨pushes, fun g member => ?_⟩
      simp only [Function.update_self]
      exact away_store here (away g (same ▸ member))
    · simp at holder
  · intro rest holder
    rcases machineStep_cases session m a n taken with
      ⟨t, e, f, s, l, rfl, outside, next, made, rfl⟩ | ⟨t, e, body, rfl, unheld, next, rfl⟩ |
      ⟨t, b, rest', rfl, held, rfl⟩ | ⟨t, rfl, held, rfl⟩
    · exact locked.draining rest holder
    · obtain ⟨rfl, rfl⟩ : t = .network ∧ body = rest := by simpa using holder
      cases e <;> rcases place : m.locals .network with _ | _ | _ | _ | (_ | g) | _ | _ | _ <;>
        simp [sessionNext, place] at next
      simp [← next]
    · obtain ⟨rfl, rfl⟩ : t = .network ∧ rest' = rest := by simpa using holder
      exact (List.forall_mem_cons.mp (locked.draining _ held)).2
    · simp at holder

theorem locked_start : Locked sessionStart :=
  ⟨sound_start, by simp [sessionStart], by simp [sessionStart]⟩

theorem locked_simulates :
    Simulates (machineStep session) (atomicStep session) Locked session.view fun _ => label :=
  mutex_simulates session Locked locked_step session_commutes

theorem locked_reaches (schedule : List (MachineStep Thread Input)) (m : SessionMachine)
    (run : exec (machineStep session) sessionStart schedule = some m) :
    Locked m ∧ ∃ steps, exec threadStep initial steps = some (threadsOf (session.view m)) := by
  obtain ⟨locked, steps, atomic⟩ :=
    locked_simulates.reaches sessionStart m schedule locked_start run
  obtain ⟨-, lists⟩ := session_simulates.reaches _ _ steps sound_start atomic
  exact ⟨locked, lists⟩

theorem Locked.intact {m : SessionMachine} (locked : Locked m) : m.shared.fault = false := by
  have intact := locked.sound.intact
  rcases holder : m.holder with _ | ⟨t, rest⟩
  · simpa [Program.view, holder] using intact
  · simp only [Program.view, holder] at intact
    by_contra fault
    have broken := (finish_outside rest m.shared (m.locals t)).2.2.2.2 (by simpa using fault)
    simp [broken] at intact

theorem view_outside (m : SessionMachine) :
    (session.view m).shared.outputEof = m.shared.outputEof ∧
      (session.view m).shared.streamFinSent = m.shared.streamFinSent ∧
      (session.view m).shared.calls = m.shared.calls ∧
      m.shared.pushed <+: (session.view m).shared.pushed := by
  rcases holder : m.holder with _ | ⟨t, rest⟩
  · simp [Program.view, holder]
  · obtain ⟨eof, fin, calls, pushed, -⟩ := finish_outside rest m.shared (m.locals t)
    simp only [Program.view, holder]
    exact ⟨eof, fin, calls, pushed⟩

def pushWhileSending : List (MachineStep Thread Input) :=
  [.step .reader (.output (some 1) ⟨0, [7]⟩), .step .reader (.go 0), .run, .run, .run, .unlock,
    .step .network (.go 0), .run, .run, .run, .unlock, .step .network (.go 0),
    .step .reader (.output (some 2) ⟨1, [8]⟩), .step .reader (.go 0), .run,
    .step .network (.go 0), .run, .step .network (.go 0), .run]

def Rested (a : State) : Prop :=
  inHand (a.locals .reader) = [] ∧ a.locals .network = .ready ∧ a.shared.queued = []

def stepsLeft : Local -> Nat
  | .walking _ => 3
  | .sending _ _ => 2
  | .freeing _ _ | .finning => 1
  | _ => 0

def height (a : State) : Nat :=
  10 * (inHand (a.locals .reader)).length + 8 * a.shared.queued.length +
    4 * a.shared.batch.length + stepsLeft (a.locals .network)

theorem atomic_progress (ret : Int) (a : State) (sound : Sound a) (busy : ¬ Rested a) :
    ∃ b n, b.2 = .go ret ∧ atomicStep session a b = some n ∧ Sound n ∧ height n < height a := by
  -- Soundness of the next state is the simulation's; only the step and its measure are left.
  suffices step : ∃ t n, atomicStep session a (t, .go ret) = some n ∧ height n < height a by
    obtain ⟨t, n, taken, lower⟩ := step
    exact ⟨(t, .go ret), n, rfl, taken, session_simulates.preserved a _ n sound taken, lower⟩
  by_cases making : ∃ f, a.locals .reader = .made f
  · obtain ⟨f, made⟩ := making
    obtain ⟨node, queue, live, finish, -⟩ := sound.push f made
    refine ⟨.reader, _, by simp only [atomicStep, session_next, made, sessionNext, finish]; rfl, ?_⟩
    simp [height, made, inHand]
    omega
  have empty : inHand (a.locals .reader) = [] := by
    cases here : a.locals .reader <;> simp [inHand]
    exact making ⟨_, here⟩
  refine ⟨.network, ?_⟩
  have here := sound.network
  rcases now : a.locals .network with _ | _ | _ | _ | (_ | f) | ⟨f, next⟩ | ⟨f, next⟩ | _ <;>
    rw [now] at here
  · have idle : a.shared.batch = [] := here
    have waiting : a.shared.queued ≠ [] := fun none => busy ⟨empty, now, none⟩
    have some := List.length_pos_iff.mpr waiting
    refine ⟨_, by simp only [atomicStep, session_next, now, sessionNext, finish_drain]; rfl, ?_⟩
    simp [height, now, stepsLeft, idle]
    omega
  · exact here.elim
  · exact here.elim
  · exact here.elim
  · refine ⟨_, by simp only [atomicStep, session_next, now, sessionNext, loadEof]; rfl, ?_⟩
    cases a.shared.outputEof && !a.shared.streamFinSent <;> simp [height, now, stepsLeft]
  · obtain ⟨-, node, live⟩ := networkAt_frame f here (.inl rfl)
    refine ⟨_, by simp only [atomicStep, session_next, now, sessionNext, readNext, live]; rfl, ?_⟩
    simp [height, now, stepsLeft]
  · obtain ⟨-, node, live⟩ := networkAt_frame f here (.inr ⟨next, .inl rfl⟩)
    refine ⟨_, by simp only [atomicStep, session_next, now, sessionNext, send, live]; rfl, ?_⟩
    simp [height, now, stepsLeft]
  · obtain ⟨frame, rest, batch, live, -⟩ := here
    refine ⟨_, by simp only [atomicStep, session_next, now, sessionNext, freeNode, live]; rfl, ?_⟩
    simp [height, now, stepsLeft, batch, SessionMemory.setCell]
    omega
  · refine ⟨_, by simp only [atomicStep, session_next, now, sessionNext, sendFin]; rfl, ?_⟩
    simp [height, now, stepsLeft]

theorem pushed_grows (t u : Threads) (steps : List ThreadStep)
    (run : exec threadStep t steps = some u) : t.pushed <+: u.pushed := by
  refine exec_invariant threadStep (fun u => t.pushed <+: u.pushed) ?_ t u steps
    (List.prefix_refl _) run
  intro s a v grown taken
  rcases threadStep_cases s a v taken with ⟨f, -, -, rfl⟩ | ⟨-, -, rfl⟩ | ⟨-, -, rfl⟩ |
    ⟨ret, f, rest, -, -, rfl⟩ | ⟨-, -, -, -, rfl⟩ | ⟨-, -, -, rfl⟩ | ⟨ret, -, -, rfl⟩
  · exact grown.trans (List.prefix_append _ _)
  all_goals exact grown

theorem session_always_drains (schedule : List (MachineStep Thread Input)) (m : SessionMachine)
    (run : exec (machineStep session) sessionStart schedule = some m) (ret : Int) :
    ∃ more n, exec (machineStep session) m more = some n ∧
      (∀ b ∈ more.filterMap label, b.2 = .go ret) ∧ n.holder = none ∧
      m.shared.pushed <+: n.shared.pushed ∧
      sentLog n.shared.calls = n.shared.pushed.map route ∧
      n.shared.queue.heap = (fun _ => none) ∧ n.shared.fault = false := by
  obtain ⟨locked, first, started⟩ := locked_reaches schedule m run
  obtain ⟨released, k, unlocks, unheld, same, silent⟩ := holder_unlocks session m
  obtain ⟨steps, a, quiet, atomic, rested⟩ := exec_completes_by (atomicStep session)
    (fun b => b.2 = .go ret) Sound height Rested (atomic_progress ret) (session.view m) locked.sound
  rw [← same] at atomic
  obtain ⟨drains, n, reached, free, rfl, names⟩ := atomic_reached session k steps a unheld atomic
  rw [same] at atomic
  obtain ⟨sound, second, further⟩ := session_simulates.reaches _ _ steps locked.sound atomic
  obtain ⟨sent, places, logged⟩ := routing_from_start (first ++ second) _
    ((exec_append _ _ _ first second).mpr ⟨_, started, further⟩)
  have view : session.view n = { shared := n.shared, locals := n.locals } := by
    simp [Program.view, free]
  have grown := (view_outside m).2.2.2.trans (pushed_grows _ _ second further)
  rw [view] at rested sound places logged grown
  have hand : inHand (n.locals .reader) = [] := rested.1
  have idle : n.locals .network = .ready := rested.2.1
  have queue : n.shared.queued = [] := rested.2.2
  have batch : n.shared.batch = [] := by simpa [idle, NetworkAt] using sound.network
  refine ⟨released ++ drains, n, (exec_append _ _ _ released drains).mpr ⟨k, unlocks, reached⟩,
    by simpa [silent, names] using quiet, free, grown, ?_, ?_, sound.intact⟩
  · have all : n.shared.pushed = sent := by
      simpa [threadsOf, idle, pumpOf, PumpPc.batch, queue] using places
    rw [all]
    exact logged
  · funext x
    have unused := sound.exact x
    simpa [owned, hand, queue, batch] using unused

theorem session_drains_push_while_sending :
    ∃ m more n, exec (machineStep session) sessionStart pushWhileSending = some m ∧
      m.holder ≠ none ∧ exec (machineStep session) m more = some n ∧
      m.shared.pushed <+: n.shared.pushed ∧
      sentLog n.shared.calls = n.shared.pushed.map route := by
  obtain ⟨more, n, run, -, -, grown, sent, -⟩ :=
    session_always_drains pushWhileSending _ rfl (-1)
  exact ⟨_, more, n, rfl, by simp, run, grown, sent⟩

-- The loop of the source has no bound; `fuel` is one on the number of nodes it frees.
def wtdWorkQueueDestroy (fuel : Nat) (q : Queue Nat OutboundFrame) :
    Option (Queue Nat OutboundFrame) :=
  let cur := q.head
  let q := { q with head := none, tail := none }
  (release fuel q.heap cur).map fun heap => { q with heap }

def wtdSessionDestroy (fuel : Nat) (s : SessionMemory) : Option SessionMemory :=
  (wtdWorkQueueDestroy fuel s.queue).map fun queue => { s with queue, queued := [] }

theorem session_destroy_frees_all (schedule : List (MachineStep Thread Input)) (m : SessionMachine)
    (run : exec (machineStep session) sessionStart schedule = some m) (unheld : m.holder = none)
    (joined : m.locals .reader = .gone) (returned : m.locals .network = .ready) (fuel : Nat)
    (enough : m.shared.queued.length < fuel) :
    wtdSessionDestroy fuel m.shared =
        some { m.shared with queue := Queue.empty fun _ => none, queued := [] } ∧
      sentLog m.shared.calls ++ (m.shared.queued.map fun cell => route cell.2) =
        m.shared.pushed.map route := by
  obtain ⟨locked, steps, lists⟩ := locked_reaches schedule m run
  obtain ⟨sent, places, logged⟩ := routing_from_start steps _ lists
  have view : session.view m = { shared := m.shared, locals := m.locals } := by
    simp [Program.view, unheld]
  have sound := locked.sound
  rw [view] at sound places logged
  have batch : m.shared.batch = [] := by simpa [returned, NetworkAt] using sound.network
  obtain ⟨after, freed, gone, kept⟩ :=
    release_spells fuel m.shared.queue.heap m.shared.queue.head _ sound.holds.chain enough
  have empty : after = fun _ => none := by
    funext x
    by_cases queued : x ∈ addresses m.shared.queued
    · exact gone x queued
    · have unused := sound.exact x
      rw [kept x queued]
      simpa [owned, joined, inHand, batch, queued] using unused
  constructor
  · simp [wtdSessionDestroy, wtdWorkQueueDestroy, freed, empty, Queue.empty]
  · have all : m.shared.pushed = sent ++ m.shared.queued.map Prod.snd := by
      simpa [threadsOf, returned, pumpOf, PumpPc.batch] using places
    rw [all, List.map_append, List.map_map]
    exact congrArg (· ++ _) logged

def pushAtEnd : List (MachineStep Thread Input) :=
  [.step .reader (.output (some 1) ⟨0, [7]⟩), .step .reader (.go 0), .run, .run, .run, .unlock,
    .step .reader .eof]

theorem session_destroy_push_at_end :
    ∃ m, exec (machineStep session) sessionStart pushAtEnd = some m ∧
      m.shared.queued = [(1, ⟨0, [7]⟩)] ∧
      wtdSessionDestroy 2 m.shared =
        some { m.shared with queue := Queue.empty fun _ => none, queued := [] } :=
  ⟨_, rfl, rfl, (session_destroy_frees_all pushAtEnd _ rfl rfl rfl rfl 2 (by decide)).1⟩

end WebTransportD.SessionLocking
