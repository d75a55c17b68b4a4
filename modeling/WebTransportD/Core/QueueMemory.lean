import WebTransportD.Core.PumpThreads
import WebTransportD.Shared.Chain
import WebTransportD.Shared.Mutex

set_option autoImplicit false

namespace WebTransportD.QueueMemory

open Session Execution Simulation Chain Mutex PumpThreads

inductive Thread where
  | reader
  | network
  deriving DecidableEq, Repr

inductive QueueStore where
  | clearNext
  | link
  | setTail
  | loadHead
  | clearHead
  | clearTail
  deriving DecidableEq, Repr

def pushBody : List QueueStore :=
  [.clearNext, .link, .setTail]

def drainBody : List QueueStore :=
  [.loadHead, .clearHead, .clearTail]

-- The session in memory. `queued` and `batch` record the nodes in the queue and those that the pump
-- has still to free, `pushed` all frames that were ever queued, and `fault` that memory was used
-- which is not allocated.
structure SessionMemory where
  queue : Queue Nat OutboundFrame
  outputEof : Bool
  streamFinSent : Bool
  calls : List TransportCall
  queued : List (Nat × OutboundFrame)
  batch : List (Nat × OutboundFrame)
  pushed : List OutboundFrame
  fault : Bool

-- `made` to `gone` are places of the reader, the later ones of the network thread.
inductive Local where
  | ready
  | made (f : Nat)
  | gone
  | loaded (h : Option Nat)
  | walking (frame : Option Nat)
  | sending (frame : Nat) (next : Option Nat)
  | freeing (frame : Nat) (next : Option Nat)
  | finning
  deriving DecidableEq, Repr

-- What a step gets from outside: the frame the reader has decoded with what malloc returns for its
-- node, or what a call of the transport returns.
inductive Input where
  | output (node : Option Nat) (frame : OutboundFrame)
  | eof
  | go (ret : Int)
  deriving DecidableEq, Repr

def SessionMemory.setCell (s : SessionMemory) (a : Nat) (cell : Option (Cell Nat OutboundFrame)) :
    SessionMemory :=
  { s with queue := { s.queue with heap := Function.update s.queue.heap a cell } }

def SessionMemory.broken (s : SessionMemory) : SessionMemory :=
  { s with fault := true }

def queueStore : QueueStore -> SessionMemory -> Local -> SessionMemory × Local
  | .clearNext, s, .made f =>
      match s.queue.heap f with
      | none => (s.broken, .made f)
      | some node => (s.setCell f (some { node with next := none }), .made f)
  | .link, s, .made f =>
      match s.queue.tail with
      | none => ({ s with queue := { s.queue with head := some f } }, .made f)
      | some t =>
          match s.queue.heap t with
          | none => (s.broken, .made f)
          | some last => (s.setCell t (some { last with next := some f }), .made f)
  | .setTail, s, .made f =>
      let frames := (s.queue.heap f).toList.map Cell.value
      ({ s with
         queue := { s.queue with tail := some f }
         queued := s.queued ++ frames.map fun frame => (f, frame)
         pushed := s.pushed ++ frames }, .ready)
  | .loadHead, s, _ => (s, .loaded s.queue.head)
  | .clearHead, s, l => ({ s with queue := { s.queue with head := none } }, l)
  | .clearTail, s, .loaded h =>
      ({ s with queue := { s.queue with tail := none }, queued := [], batch := s.queued },
        .walking h)
  | _, s, l => (s, l)

-- wtd_session_on_output up to the push. malloc never returns a block that is in use.
def makeNode (node : Option Nat) (frame : OutboundFrame) (s : SessionMemory) (_ : Local) :
    Option (SessionMemory × Local) :=
  match node with
  | none => some (s, .ready)
  | some a =>
      if (s.queue.heap a).isSome then none
      else some (s.setCell a (some { next := none, value := frame }), .made a)

def storeEof (s : SessionMemory) (_ : Local) : Option (SessionMemory × Local) :=
  some ({ s with outputEof := true }, .gone)

-- The loop of wtd_session_pump over the drained chain, and what follows it.
def readNext (f : Nat) (s : SessionMemory) (_ : Local) : Option (SessionMemory × Local) :=
  match s.queue.heap f with
  | none => some (s.broken, .ready)
  | some node => some (s, .sending f node.next)

def send (f : Nat) (next : Option Nat) (ret : Int) (s : SessionMemory) (_ : Local) :
    Option (SessionMemory × Local) :=
  match s.queue.heap f with
  | none => some (s.broken, .ready)
  | some node =>
      some ({ s with calls := s.calls ++ [sendFrame node.value ret] }, .freeing f next)

def freeNode (f : Nat) (next : Option Nat) (s : SessionMemory) (_ : Local) :
    Option (SessionMemory × Local) :=
  match s.queue.heap f with
  | none => some (s.broken, .ready)
  | some _ => some ({ s.setCell f none with batch := s.batch.tail }, .walking next)

def loadEof (s : SessionMemory) (_ : Local) : Option (SessionMemory × Local) :=
  some (s, if s.outputEof && !s.streamFinSent then .finning else .ready)

def sendFin (ret : Int) (s : SessionMemory) (_ : Local) : Option (SessionMemory × Local) :=
  some ({ s with
    streamFinSent := if ret = 0 then true else s.streamFinSent
    calls := s.calls ++ [.sendFin ret] }, .ready)

def sessionNext : Thread -> Input -> Local -> Option (Action QueueStore SessionMemory Local)
  | .reader, .output node frame, .ready => some (.free (makeNode node frame))
  | .reader, .go _, .made _ => some (.guarded pushBody)
  | .reader, .eof, .ready => some (.free storeEof)
  | .network, .go _, .ready => some (.guarded drainBody)
  | .network, .go _, .walking (some f) => some (.free (readNext f))
  | .network, .go ret, .sending f next => some (.free (send f next ret))
  | .network, .go _, .freeing f next => some (.free (freeNode f next))
  | .network, .go _, .walking none => some (.free loadEof)
  | .network, .go ret, .finning => some (.free (sendFin ret))
  | _, _, _ => none

def session : Program Thread Input QueueStore SessionMemory Local :=
  { next := sessionNext, micro := queueStore }

@[simp] theorem session_next (t : Thread) (e : Input) (l : Local) :
    session.next t e l = sessionNext t e l := rfl

def emptyMemory : SessionMemory :=
  { queue := Queue.empty fun _ => none, outputEof := false, streamFinSent := false, calls := []
    queued := [], batch := [], pushed := [], fault := false }

abbrev SessionMachine := Machine Thread QueueStore SessionMemory Local

def sessionStart : SessionMachine :=
  { shared := emptyMemory, locals := fun _ => .ready, holder := none }

def NetworkAt (heap : Nat -> Option (Cell Nat OutboundFrame)) (batch : List (Nat × OutboundFrame)) :
    Local -> Prop
  | .ready | .finning => batch = []
  | .walking frame => Spells heap frame batch
  | .sending f next | .freeing f next =>
      ∃ frame rest, batch = (f, frame) :: rest ∧ heap f = some { next, value := frame } ∧
        Spells heap next rest
  | _ => False

def ReaderAt : Local -> Prop
  | .ready | .made _ | .gone => True
  | _ => False

def inHand : Local -> List Nat
  | .made f => [f]
  | _ => []

def owned (a : Atomic Thread SessionMemory Local) : List Nat :=
  inHand (a.locals .reader) ++ (addresses a.shared.queued ++ addresses a.shared.batch)

structure Sound (a : Atomic Thread SessionMemory Local) : Prop where
  intact : a.shared.fault = false
  holds : a.shared.queue.Holds a.shared.queued
  network : NetworkAt a.shared.queue.heap a.shared.batch (a.locals .network)
  reader : ReaderAt (a.locals .reader)
  distinct : (owned a).Nodup
  exact : ∀ x, (a.shared.queue.heap x).isSome = true ↔ x ∈ owned a
  eof : a.shared.outputEof = true ↔ a.locals .reader = .gone

theorem sound_start : Sound (session.view sessionStart) where
  intact := rfl
  holds := Queue.holds_empty _
  network := rfl
  reader := trivial
  distinct := List.nodup_nil
  exact x := by
    simp [Program.view, sessionStart, emptyMemory, Queue.empty, owned, inHand, addresses]
  eof := by simp [Program.view, sessionStart, emptyMemory]

theorem finish_push (s : SessionMemory) (f : Nat) (node : Cell Nat OutboundFrame)
    (live : s.queue.heap f = some node) (outside : f ∉ addresses s.queued)
    (holds : s.queue.Holds s.queued) :
    ∃ queue, s.queue.push f node.value = some queue ∧
      session.finish pushBody s (.made f) =
        ({ s with
           queue
           queued := s.queued ++ [(f, node.value)]
           pushed := s.pushed ++ [node.value] }, .ready) := by
  rcases tail : s.queue.tail with _ | t
  · refine ⟨_, by simp only [Queue.push, tail]; rfl, ?_⟩
    simp [pushBody, Program.finish, session, queueStore, live, tail, SessionMemory.setCell]
  · have other : t ≠ f := by
      rintro rfl
      have last := holds.last
      rw [tail] at last
      exact outside (List.mem_of_getLast? last.symm)
    obtain ⟨frame, cell⟩ := holds.tail_cell t tail
    refine ⟨_, by simp only [Queue.push, tail, Function.update_of_ne other, cell]; rfl, ?_⟩
    simp [pushBody, Program.finish, session, queueStore, live, tail, SessionMemory.setCell, other,
      other.symm, cell]

theorem finish_drain (s : SessionMemory) :
    session.finish drainBody s .ready =
      ({ s with
         queue := { s.queue with head := none, tail := none }
         queued := []
         batch := s.queued }, .walking s.queue.head) := rfl

theorem NetworkAt.congr {heap other : Nat -> Option (Cell Nat OutboundFrame)}
    {batch : List (Nat × OutboundFrame)} {l : Local} (here : NetworkAt heap batch l)
    (same : ∀ x ∈ addresses batch, other x = heap x) : NetworkAt other batch l := by
  cases l with
  | walking frame => exact spells_congr heap other frame batch same here
  | sending f next | freeing f next =>
    obtain ⟨frame, rest, rfl, cell, later⟩ := here
    simp only [addresses_cons, List.mem_cons, forall_eq_or_imp] at same
    exact ⟨frame, rest, rfl, same.1.trans cell, spells_congr heap other next rest same.2 later⟩
  | _ => exact here

abbrev State := Atomic Thread SessionMemory Local

theorem Sound.apart {a : State} (sound : Sound a) (x : Nat)
    (queued : x ∈ addresses a.shared.queued) : x ∉ addresses a.shared.batch := by
  intro taken
  have separate := (List.nodup_append.mp (List.nodup_append.mp sound.distinct).2.1).2.2
  exact separate x queued x taken rfl

theorem Sound.unowned {a : State} (sound : Sound a) (x : Nat)
    (fresh : a.shared.queue.heap x = none) : x ∉ owned a := by
  intro member
  have live := (sound.exact x).mpr member
  simp [fresh] at live

theorem Sound.make {a : State} (sound : Sound a) (place : a.locals .reader = .ready) (x : Nat)
    (frame : OutboundFrame) (fresh : a.shared.queue.heap x = none) :
    Sound (a.moves .reader (a.shared.setCell x (some { next := none, value := frame }))
      (.made x)) := by
  have unused := sound.unowned x fresh
  have before : owned a = addresses a.shared.queued ++ addresses a.shared.batch := by
    simp [owned, place, inHand]
  have after : owned (a.moves .reader (a.shared.setCell x (some { next := none, value := frame }))
      (.made x)) = x :: owned a := by
    rw [before]
    simp [owned, inHand, SessionMemory.setCell]
  constructor
  · exact sound.intact
  · exact ⟨spells_update _ _ _ x _ (sound.holds.fresh x fresh) sound.holds.chain, sound.holds.last⟩
  · simp only [moves_shared, moves_other, ne_eq, reduceCtorEq, not_false_eq_true]
    refine sound.network.congr fun y member => Function.update_of_ne ?_ ..
    rintro rfl
    exact unused (by simp [before, member])
  · simp [ReaderAt]
  · rw [after]
    exact List.nodup_cons.mpr ⟨unused, sound.distinct⟩
  · intro y
    rw [after, List.mem_cons]
    by_cases same : y = x
    · simp [same, SessionMemory.setCell]
    · simpa [same, SessionMemory.setCell] using sound.exact y
  · have eof := sound.eof
    simpa [place, SessionMemory.setCell] using eof

theorem Sound.push {a : State} (sound : Sound a) (f : Nat) (place : a.locals .reader = .made f) :
    ∃ node queue, a.shared.queue.heap f = some node ∧
      session.finish pushBody a.shared (.made f) =
        ({ a.shared with
           queue
           queued := a.shared.queued ++ [(f, node.value)]
           pushed := a.shared.pushed ++ [node.value] }, .ready) ∧
      Sound (a.moves .reader { a.shared with
        queue
        queued := a.shared.queued ++ [(f, node.value)]
        pushed := a.shared.pushed ++ [node.value] } .ready) := by
  have before : owned a = f :: (addresses a.shared.queued ++ addresses a.shared.batch) := by
    simp [owned, place, inHand]
  have distinct := sound.distinct
  rw [before] at distinct
  obtain ⟨alone, apart⟩ := List.nodup_cons.mp distinct
  have outside : f ∉ addresses a.shared.queued := fun member => alone (by simp [member])
  obtain ⟨node, live⟩ := Option.isSome_iff_exists.mp ((sound.exact f).mpr (by simp [before]))
  obtain ⟨queue, pushed, finish⟩ := finish_push a.shared f node live outside sound.holds
  obtain ⟨next, same, holds, frame⟩ := sound.holds.push f node.value outside
  obtain rfl : queue = next := by simpa [pushed] using same
  refine ⟨node, queue, live, finish, ?_⟩
  have after : (owned (a.moves .reader { a.shared with
      queue
      queued := a.shared.queued ++ [(f, node.value)]
      pushed := a.shared.pushed ++ [node.value] } .ready)).Perm (owned a) := by
    rw [before]
    simp only [owned, moves_self, moves_shared, inHand, addresses_append, addresses_cons,
      addresses_nil, List.nil_append, List.append_assoc, List.singleton_append]
    exact List.perm_middle
  constructor
  · exact sound.intact
  · exact holds
  · simp only [moves_shared, moves_other, ne_eq, reduceCtorEq, not_false_eq_true]
    refine sound.network.congr fun x member => frame x ?_ ?_
    · exact fun queued => sound.apart x queued member
    · rintro rfl
      exact alone (by simp [member])
  · simp [ReaderAt]
  · exact after.nodup_iff.mpr sound.distinct
  · intro x
    rw [after.mem_iff, ← sound.exact x]
    by_cases inside : x ∈ addresses (a.shared.queued ++ [(f, node.value)])
    · have now := spells_live _ _ _ holds.chain x inside
      have earlier := (sound.exact x).mpr (by
        simp only [addresses_append, addresses_cons, addresses_nil, List.mem_append,
          List.mem_singleton] at inside
        rw [before]
        rcases inside with queued | rfl <;> simp [*])
      exact ⟨fun _ => earlier, fun _ => now⟩
    · simp only [addresses_append, addresses_cons, addresses_nil, List.mem_append,
        List.mem_singleton, not_or] at inside
      rw [moves_shared, frame x inside.1 inside.2]
  · have eof := sound.eof
    simpa [place] using eof

theorem Sound.drain {a : State} (sound : Sound a) (place : a.locals .network = .ready) :
    Sound (a.moves .network { a.shared with
      queue := { a.shared.queue with head := none, tail := none }
      queued := []
      batch := a.shared.queued } (.walking a.shared.queue.head)) := by
  have idle : a.shared.batch = [] := by
    simpa [place, NetworkAt] using sound.network
  have same : owned (a.moves .network { a.shared with
      queue := { a.shared.queue with head := none, tail := none }
      queued := []
      batch := a.shared.queued } (.walking a.shared.queue.head)) = owned a := by
    simp [owned, idle]
  constructor
  · exact sound.intact
  · exact ⟨rfl, rfl⟩
  · simpa [NetworkAt] using sound.holds.chain
  · simpa using sound.reader
  · rw [same]
    exact sound.distinct
  · rw [same]
    exact sound.exact
  · simpa using sound.eof

theorem Sound.walk {a : State} (sound : Sound a) (l : Local) (calls : List TransportCall)
    (fin : Bool) (here : NetworkAt a.shared.queue.heap a.shared.batch l) :
    Sound (a.moves .network { a.shared with calls, streamFinSent := fin } l) := by
  have same : owned (a.moves .network { a.shared with calls, streamFinSent := fin } l) =
      owned a := by
    simp [owned]
  constructor
  · exact sound.intact
  · exact sound.holds
  · simpa using here
  · simpa using sound.reader
  · rw [same]
    exact sound.distinct
  · rw [same]
    exact sound.exact
  · simpa using sound.eof

theorem Sound.free {a : State} (sound : Sound a) (f : Nat) (next : Option Nat)
    (place : a.locals .network = .freeing f next) :
    Sound (a.moves .network { a.shared.setCell f none with batch := a.shared.batch.tail }
      (.walking next)) := by
  have here := sound.network
  rw [place] at here
  obtain ⟨frame, rest, batch, cell, later⟩ := here
  have before : (owned a).Perm
      (f :: (inHand (a.locals .reader) ++ (addresses a.shared.queued ++ addresses rest))) := by
    rw [owned, batch, addresses_cons, ← List.append_assoc, ← List.append_assoc]
    exact List.perm_middle
  have after : owned (a.moves .network { a.shared.setCell f none with
      batch := a.shared.batch.tail } (.walking next)) =
      inHand (a.locals .reader) ++ (addresses a.shared.queued ++ addresses rest) := by
    simp [owned, batch, SessionMemory.setCell]
  obtain ⟨alone, distinct⟩ := List.nodup_cons.mp (before.nodup_iff.mp sound.distinct)
  simp only [List.mem_append, not_or] at alone
  constructor
  · exact sound.intact
  · exact ⟨spells_update _ _ _ f _ alone.2.1 sound.holds.chain, sound.holds.last⟩
  · simpa [NetworkAt, batch, SessionMemory.setCell] using
      spells_update _ _ _ f none alone.2.2 later
  · simpa using sound.reader
  · rwa [after]
  · intro x
    have old := sound.exact x
    rw [before.mem_iff, List.mem_cons] at old
    rw [after]
    by_cases same : x = f
    · simp [same, SessionMemory.setCell, alone]
    · simpa [same, SessionMemory.setCell] using old
  · simpa [SessionMemory.setCell] using sound.eof

def pumpOf (batch : List (Nat × OutboundFrame)) : Local -> PumpPc
  | .finning => .finning
  | .walking _ | .sending _ _ => .flushing (batch.map Prod.snd)
  | .freeing _ _ => .flushing (batch.map Prod.snd).tail
  | _ => .idle

def threadsOf (a : State) : Threads :=
  { session :=
      { outbound := a.shared.queued.map Prod.snd, outputEof := a.shared.outputEof
        childInputClosed := false, streamFinSent := a.shared.streamFinSent }
    pump := pumpOf a.shared.batch (a.locals .network)
    calls := a.shared.calls
    pushed := a.shared.pushed }

def threadLabel (a : State) : Thread × Input -> Option ThreadStep
  | (.reader, .go _) =>
      match a.locals .reader with
      | .made f => (a.shared.queue.heap f).map fun node => .push node.value
      | _ => none
  | (.reader, .eof) => some .setEof
  | (.network, .go ret) =>
      match a.locals .network with
      | .ready => some .drain
      | .walking none => some .load
      | .sending _ _ => some (.send ret)
      | .finning => some (.sendFin ret)
      | _ => none
  | _ => none

def Follows (a : State) (b : Thread × Input) (n : State) : Prop :=
  Sound n ∧ (∀ c, threadLabel a b = some c -> threadStep (threadsOf a) c = some (threadsOf n)) ∧
    (threadLabel a b = none -> threadsOf n = threadsOf a)

theorem reader_follows (a : State) (e : Input) (n : State) (sound : Sound a)
    (taken : atomicStep session a (.reader, e) = some n) : Follows a (.reader, e) n := by
  cases e with
  | output node frame =>
    cases place : a.locals .reader <;> simp [atomicStep, sessionNext, place] at taken
    obtain ⟨s, l, made, rfl⟩ := taken
    cases node with
    | none =>
      obtain ⟨rfl, rfl⟩ : a.shared = s ∧ Local.ready = l := by simpa [makeNode] using made
      have same : a.moves .reader a.shared .ready = a := by
        rw [Atomic.moves, ← place, Function.update_eq_self]
      rw [same]
      exact ⟨sound, by simp [threadLabel], fun _ => rfl⟩
    | some x =>
      simp only [makeNode] at made
      split_ifs at made with used
      obtain ⟨rfl, rfl⟩ : _ = s ∧ Local.made x = l := by simpa using made
      have fresh : a.shared.queue.heap x = none := by simpa using used
      refine ⟨sound.make place x frame fresh, by simp [threadLabel], fun _ => ?_⟩
      simp [threadsOf, SessionMemory.setCell]
  | eof =>
    cases place : a.locals .reader <;>
      simp [atomicStep, sessionNext, place, storeEof] at taken
    subst taken
    have running : a.shared.outputEof = false := by
      simpa [place] using sound.eof
    refine ⟨?_, ?_, by simp [threadLabel]⟩
    · have same : owned (a.moves .reader { a.shared with outputEof := true } .gone) = owned a := by
        simp [owned, place, inHand]
      exact ⟨sound.intact, sound.holds, by simpa using sound.network, by simp [ReaderAt],
        by rw [same]; exact sound.distinct, by rw [same]; exact sound.exact, by simp⟩
    · intro c kind
      obtain rfl : ThreadStep.setEof = c := by simpa [threadLabel] using kind
      simp [threadStep, threadsOf, running, wtdSessionOnOutputEof]
  | go ret =>
    cases place : a.locals .reader <;> simp [atomicStep, sessionNext, place] at taken
    next f =>
      obtain ⟨node, queue, live, finish, after⟩ := sound.push f place
      rw [finish] at taken
      subst taken
      have running : a.shared.outputEof = false := by
        simpa [place] using sound.eof
      refine ⟨after, ?_, by simp [threadLabel, place, live]⟩
      intro c kind
      obtain rfl : ThreadStep.push node.value = c := by
        simpa [threadLabel, place, live] using kind
      simp [threadStep, threadsOf, running, wtdSessionOnOutput, wtdWorkQueuePush]

theorem network_follows (a : State) (e : Input) (n : State) (sound : Sound a)
    (taken : atomicStep session a (.network, e) = some n) : Follows a (.network, e) n := by
  have here := sound.network
  cases e with
  | output node frame => cases place : a.locals .network <;> simp [atomicStep, sessionNext] at taken
  | eof => cases place : a.locals .network <;> simp [atomicStep, sessionNext] at taken
  | go ret =>
    rcases place : a.locals .network with _ | _ | _ | _ | (_ | f) | ⟨f, next⟩ | ⟨f, next⟩ | _ <;>
      simp [atomicStep, sessionNext, place] at taken <;> rw [place] at here
    · rw [finish_drain] at taken
      subst taken
      refine ⟨sound.drain place, ?_, by simp [threadLabel, place]⟩
      intro c kind
      obtain rfl : ThreadStep.drain = c := by simpa [threadLabel, place] using kind
      simp [threadStep, threadsOf, place, pumpOf, wtdWorkQueueDrain]
    · -- The end of the chain: load output_eof.
      have empty : a.shared.batch = [] := by
        cases batch : a.shared.batch with
        | nil => rfl
        | cons cell rest =>
          rw [batch] at here
          simp [NetworkAt, Spells] at here
      simp only [loadEof, Option.some.injEq, Prod.mk.injEq] at taken
      obtain ⟨s, l, ⟨rfl, rfl⟩, rfl⟩ := taken
      refine ⟨sound.walk _ _ _ (by split_ifs <;> exact empty), ?_, by simp [threadLabel, place]⟩
      intro c kind
      obtain rfl : ThreadStep.load = c := by simpa [threadLabel, place] using kind
      cases ready : a.shared.outputEof && !a.shared.streamFinSent <;>
        simp [threadStep, threadsOf, place, pumpOf, empty, ready]
    · obtain ⟨cell, rest, batch⟩ : ∃ cell rest, a.shared.batch = cell :: rest := by
        cases batch : a.shared.batch with
        | nil =>
          rw [batch] at here
          simp [NetworkAt, Spells] at here
        | cons cell rest => exact ⟨cell, rest, rfl⟩
      rw [batch] at here
      obtain ⟨same, next, live, later⟩ := here
      obtain rfl : f = cell.1 := Option.some.inj same
      obtain ⟨s, l, read, rfl⟩ := taken
      obtain ⟨rfl, rfl⟩ : a.shared = s ∧ Local.sending cell.1 next = l := by
        simpa [readNext, live] using read
      refine ⟨sound.walk _ _ _ ⟨cell.2, rest, batch, live, later⟩, by simp [threadLabel, place],
        fun _ => ?_⟩
      simp [threadsOf, place, pumpOf]
    · obtain ⟨frame, rest, batch, live, later⟩ := here
      obtain ⟨s, l, sent, rfl⟩ := taken
      simp only [send, live, Option.some.injEq, Prod.mk.injEq] at sent
      obtain ⟨rfl, rfl⟩ := sent
      refine ⟨sound.walk _ _ _ ⟨frame, rest, batch, live, later⟩, ?_, by simp [threadLabel, place]⟩
      intro c kind
      obtain rfl : ThreadStep.send ret = c := by simpa [threadLabel, place] using kind
      simp [threadStep, threadsOf, place, pumpOf, batch]
    · obtain ⟨frame, rest, batch, live, later⟩ := here
      obtain ⟨s, l, freed, rfl⟩ := taken
      simp only [freeNode, live, Option.some.injEq, Prod.mk.injEq] at freed
      obtain ⟨rfl, rfl⟩ := freed
      refine ⟨sound.free f next place, by simp [threadLabel, place], fun _ => ?_⟩
      simp [threadsOf, place, pumpOf, SessionMemory.setCell]
    · obtain ⟨s, l, sent, rfl⟩ := taken
      simp only [sendFin, Option.some.injEq, Prod.mk.injEq] at sent
      obtain ⟨rfl, rfl⟩ := sent
      refine ⟨sound.walk _ _ _ here, ?_, by simp [threadLabel, place]⟩
      intro c kind
      obtain rfl : ThreadStep.sendFin ret = c := by simpa [threadLabel, place] using kind
      by_cases latched : ret = 0 <;> simp [threadStep, threadsOf, place, pumpOf, latched]

theorem session_simulates :
    Simulates (atomicStep session) threadStep Sound threadsOf threadLabel := by
  have follows (a : State) (b : Thread × Input) (n : State) (sound : Sound a)
      (taken : atomicStep session a b = some n) : Follows a b n := by
    obtain ⟨t, e⟩ := b
    cases t with
    | reader => exact reader_follows a e n sound taken
    | network => exact network_follows a e n sound taken
  exact ⟨fun a b n sound taken => (follows a b n sound taken).1,
    fun a b n c sound taken => (follows a b n sound taken).2.1 c,
    fun a b n sound taken => (follows a b n sound taken).2.2⟩

-- What the network thread changes without the mutex: `freed` is a node it frees.
def SessionMemory.edited (s : SessionMemory) (freed : Option Nat)
    (batch : List (Nat × OutboundFrame)) (calls : List TransportCall) (fin : Bool) :
    SessionMemory :=
  { s with
    queue := { s.queue with
      heap := freed.elim s.queue.heap fun g => Function.update s.queue.heap g none }
    batch
    calls
    streamFinSent := fin }

def SessionMemory.filled (s : SessionMemory) (heap : Nat -> Option (Cell Nat OutboundFrame))
    (eof : Bool) : SessionMemory :=
  { s with queue := { s.queue with heap }, outputEof := eof }

theorem edited_heap (s : SessionMemory) (freed : Option Nat) (batch : List (Nat × OutboundFrame))
    (calls : List TransportCall) (fin : Bool) (x : Nat) (other : ∀ g ∈ freed, g ≠ x) :
    (s.edited freed batch calls fin).queue.heap x = s.queue.heap x := by
  cases freed with
  | none => rfl
  | some g => exact Function.update_of_ne (other g rfl).symm ..

theorem edited_setCell (s : SessionMemory) (freed : Option Nat)
    (batch : List (Nat × OutboundFrame)) (calls : List TransportCall) (fin : Bool) (x : Nat)
    (cell : Option (Cell Nat OutboundFrame)) (other : ∀ g ∈ freed, g ≠ x) :
    (s.edited freed batch calls fin).setCell x cell =
      (s.setCell x cell).edited freed batch calls fin := by
  cases freed with
  | none => rfl
  | some g => simp [SessionMemory.setCell, SessionMemory.edited, Function.update_comm (other g rfl)]

def Away (s : SessionMemory) (l : Local) (g : Nat) : Prop :=
  ∀ f, l = .made f -> g ≠ f ∧ s.queue.tail ≠ some g

theorem Sound.away {a : State} (sound : Sound a) (g : Nat) (member : g ∈ addresses a.shared.batch) :
    Away a.shared (a.locals .reader) g := by
  intro f place
  constructor
  · rintro rfl
    have distinct := sound.distinct
    simp only [owned, place, inHand, List.singleton_append, List.nodup_cons, List.mem_append,
      not_or] at distinct
    exact distinct.1.2 member
  · intro last
    rw [sound.holds.last] at last
    exact sound.apart g (List.mem_of_getLast? last) member

end WebTransportD.QueueMemory
