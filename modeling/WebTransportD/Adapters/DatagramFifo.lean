import WebTransportD.Adapters.TransportPeer
import WebTransportD.Shared.Chain
import WebTransportD.Shared.Execution

set_option autoImplicit false

namespace WebTransportD.DatagramFifo

open WebTransportD.Frame Session Execution Chain TransportPeer

-- The queue behind `dgram_head` and `dgram_tail` with h3zero's ready flag for the session;
-- `queued`, `removed` and `copied` record the run, payloads being known by their position.
structure DgramFifo where
  queue : Queue Nat (List UInt8)
  ready : Bool
  dangling : Bool
  queued : List (List UInt8)
  removed : Nat
  copied : List (Nat × List UInt8)

inductive FifoStep where
  | send (address : Nat) (data : List UInt8)
  | provide (granted : Bool)
  deriving DecidableEq, Repr

def emptyFifo : DgramFifo :=
  { queue := Queue.empty fun _ => none, ready := false, dangling := false
    queued := [], removed := 0, copied := [] }

def fifoStep (f : DgramFifo) : FifoStep -> Option DgramFifo
  | .send address data =>
      -- malloc may hand out a freed address again, but none that is in use.
      if (f.queue.heap address).isSome then none
      else match f.queue.push address data with
        | none => some { f with dangling := true }
        | some queue => some { f with queue, ready := true, queued := f.queued ++ [data] }
  | .provide granted =>
      -- h3zero clears the flag just before the callback; the callback sets it again.
      match f.queue.pop with
      | none => some { f with ready := false, dangling := true }
      | some (_, none) => some { f with ready := false }
      | some (queue, some (_, data)) =>
          some { f with
            queue
            ready := queue.head.isSome
            removed := f.removed + 1
            copied := f.copied ++ if granted then [(f.removed, data)] else [] }

-- `gone` are the payloads already taken off the queue, `cells` the nodes still on it.
structure FifoSound (f : DgramFifo) (gone : List (List UInt8)) (cells : List (Nat × List UInt8)) :
    Prop where
  intact : f.dangling = false
  holds : f.queue.Holds cells
  places : f.queued = gone ++ cells.map Prod.snd
  counted : f.removed = gone.length
  order : (f.copied.map Prod.snd).Sublist gone
  once : (f.copied.map Prod.fst).Pairwise (· < ·)
  known : ∀ i data, (i, data) ∈ f.copied -> gone[i]? = some data
  armed : f.queue.head ≠ none -> f.ready = true

theorem emptyFifo_sound : FifoSound emptyFifo [] [] where
  intact := rfl
  holds := Queue.holds_empty _
  places := rfl
  counted := rfl
  order := List.Sublist.refl _
  once := List.Pairwise.nil
  known := by simp [emptyFifo]
  armed := by simp [emptyFifo, Queue.empty]

theorem send_sound (f g : DgramFifo) (gone : List (List UInt8)) (cells : List (Nat × List UInt8))
    (address : Nat) (data : List UInt8) (sound : FifoSound f gone cells)
    (taken : fifoStep f (.send address data) = some g) :
    FifoSound g gone (cells ++ [(address, data)]) := by
  simp only [fifoStep] at taken
  split_ifs at taken with used
  have fresh : f.queue.heap address = none := by simpa using used
  obtain ⟨queue, pushed, holds, -⟩ :=
    sound.holds.push address data (sound.holds.fresh address fresh)
  simp only [pushed, Option.some.injEq] at taken
  subst taken
  exact { sound with
    holds
    places := by simp [sound.places]
    armed := fun _ => rfl }

theorem provide_step (f : DgramFifo) (a : Nat) (data : List UInt8)
    (rest : List (Nat × List UInt8)) (granted : Bool) (holds : f.queue.Holds ((a, data) :: rest)) :
    ∃ queue, queue.Holds rest ∧ queue.heap = Function.update f.queue.heap a none ∧
      fifoStep f (.provide granted) = some { f with
        queue
        ready := queue.head.isSome
        removed := f.removed + 1
        copied := f.copied ++ if granted then [(f.removed, data)] else [] } := by
  obtain ⟨queue, popped, kept, freed⟩ := holds.pop
  exact ⟨queue, kept, freed, by simp [fifoStep, popped]⟩

theorem provide_empty (f : DgramFifo) (granted : Bool) (holds : f.queue.Holds []) :
    fifoStep f (.provide granted) = some { f with ready := false } := by
  simp [fifoStep, Queue.pop, holds.ends.1.mpr rfl]

theorem provide_sound (f g : DgramFifo) (gone : List (List UInt8)) (a : Nat) (data : List UInt8)
    (rest : List (Nat × List UInt8)) (granted : Bool) (sound : FifoSound f gone ((a, data) :: rest))
    (taken : fifoStep f (.provide granted) = some g) : FifoSound g (gone ++ [data]) rest := by
  obtain ⟨queue, holds, -, step⟩ := provide_step f a data rest granted sound.holds
  rw [step, Option.some.injEq] at taken
  subst taken
  have earlier (i : Nat) (payload : List UInt8) (member : (i, payload) ∈ f.copied) :
      i < gone.length := (List.getElem?_eq_some_iff.mp (sound.known i payload member)).1
  exact
    { intact := sound.intact
      holds
      places := by simp [sound.places]
      counted := by simp [sound.counted]
      order := by
        cases granted
        · simpa using sound.order.trans (List.sublist_append_left gone [data])
        · simpa using sound.order.append (List.Sublist.refl [data])
      once := by
        cases granted
        · simpa using sound.once
        · simp only [if_true, List.map_append, List.map_cons, List.map_nil]
          refine List.pairwise_append.mpr ⟨sound.once, List.pairwise_singleton _ _, ?_⟩
          intro i member j last
          obtain ⟨⟨i, payload⟩, copied, rfl⟩ := List.mem_map.mp member
          rw [List.mem_singleton.mp last, sound.counted]
          exact earlier i payload copied
      known := by
        intro i payload member
        rcases List.mem_append.mp member with before | now
        · rw [List.getElem?_append_left (earlier i payload before)]
          exact sound.known i payload before
        · cases granted
          · simp at now
          · obtain ⟨rfl, rfl⟩ : i = f.removed ∧ payload = data := by simpa using now
            simp [sound.counted]
      armed := fun more => by simpa [Option.isSome_iff_ne_none] using more }

def Sound (f : DgramFifo) : Prop :=
  ∃ gone cells, FifoSound f gone cells

theorem sound_step (f : DgramFifo) (a : FifoStep) (g : DgramFifo) (sound : Sound f)
    (taken : fifoStep f a = some g) : Sound g := by
  obtain ⟨gone, cells, sound⟩ := sound
  cases a with
  | send address data => exact ⟨gone, _, send_sound f g gone cells address data sound taken⟩
  | provide granted =>
    cases cells with
    | nil =>
      rw [provide_empty f granted sound.holds, Option.some.injEq] at taken
      subst taken
      have empty := sound.holds.ends.1.mpr rfl
      exact ⟨gone, [], { sound with armed := fun more => absurd empty more }⟩
    | cons cell rest =>
      exact ⟨_, rest, provide_sound f g gone cell.1 cell.2 rest granted sound taken⟩

theorem fifo_sound (schedule : List FifoStep) (f : DgramFifo)
    (run : exec fifoStep emptyFifo schedule = some f) : Sound f :=
  exec_invariant fifoStep Sound sound_step emptyFifo f schedule ⟨[], [], emptyFifo_sound⟩ run

theorem dgram_fifo_keeps_representation (schedule : List FifoStep) (f : DgramFifo)
    (run : exec fifoStep emptyFifo schedule = some f) :
    f.dangling = false ∧ (f.queue.head = none ↔ f.queue.tail = none) ∧
    (∃ cells, Spells f.queue.heap f.queue.head cells ∧ (addresses cells).Nodup ∧
      f.queue.tail = (addresses cells).getLast? ∧
      f.queued.drop f.removed = cells.map Prod.snd ∧
      ∀ granted a data rest, cells = (a, data) :: rest ->
        ∃ g, fifoStep f (.provide granted) = some g ∧ Spells g.queue.heap g.queue.head rest ∧
          g.queue.heap = Function.update f.queue.heap a none ∧
          g.copied = f.copied ++ if granted then [(f.removed, data)] else []) ∧
    ((f.copied.map Prod.snd).Sublist f.queued ∧ (f.copied.map Prod.fst).Pairwise (· < ·) ∧
      ∀ i data, (i, data) ∈ f.copied -> f.queued[i]? = some data) ∧
    (f.queue.head ≠ none -> f.ready = true) := by
  obtain ⟨gone, cells, sound⟩ := fifo_sound schedule f run
  obtain ⟨headEnds, tailEnds⟩ := sound.holds.ends
  refine ⟨sound.intact, headEnds.trans tailEnds.symm, ?_, ⟨?_, sound.once, ?_⟩, sound.armed⟩
  · refine ⟨cells, sound.holds.chain, spells_nodup _ _ _ sound.holds.chain, sound.holds.last,
      by simp [sound.places, sound.counted], ?_⟩
    rintro granted a data rest rfl
    obtain ⟨queue, holds, freed, step⟩ := provide_step f a data rest granted sound.holds
    exact ⟨_, step, holds.chain, freed, rfl⟩
  · rw [sound.places]
    exact sound.order.trans (List.sublist_append_left gone _)
  · intro i data member
    have found := sound.known i data member
    rw [sound.places, List.getElem?_append_left (List.getElem?_eq_some_iff.mp found).1, found]

-- One to empty and back, an address that malloc hands out again, and a datagram without a buffer.
def fifoRoundTrip : List FifoStep :=
  [.send 4 [1], .provide true, .send 4 [2], .send 9 [3], .provide false, .send 4 [5]]

theorem dgram_fifo_round_trip :
    ∃ f, exec fifoStep emptyFifo fifoRoundTrip = some f ∧ f.copied = [(0, [1])] ∧
      f.queue.head = some 9 ∧ f.queue.tail = some 4 ∧ f.ready = true := by
  refine ⟨_, rfl, rfl, rfl, rfl, ?_⟩
  exact (dgram_fifo_keeps_representation fifoRoundTrip _ rfl).2.2.2.2 (by decide)

def Represents (f : DgramFifo) (p : WtdPeer) : Prop :=
  ∃ gone cells, FifoSound f gone cells ∧ cells.map Prod.snd = p.dgrams

theorem send_refines (f g : DgramFifo) (p : WtdPeer) (address : Nat) (data : List UInt8)
    (represents : Represents f p) (taken : fifoStep f (.send address data) = some g) :
    Represents g (peerSendDatagram p true data).2.1 ∧ g.ready = true := by
  obtain ⟨gone, cells, sound, same⟩ := represents
  have next := send_sound f g gone cells address data sound taken
  have filled : g.queue.head ≠ none := fun empty => by simpa using next.holds.ends.1.mp empty
  exact ⟨⟨gone, _, next, by simp [peerSendDatagram, same]⟩, next.armed filled⟩

theorem provide_refines (f g : DgramFifo) (p : WtdPeer) (granted : Bool)
    (represents : Represents f p) (taken : fifoStep f (.provide granted) = some g) :
    Represents g (provideDatagram p granted).1 ∧
    (g.ready = true ↔ .setDatagramReady p.controlStreamId ∈ (provideDatagram p granted).2) := by
  obtain ⟨gone, cells, sound, same⟩ := represents
  cases cells with
  | nil =>
    rw [provide_empty f granted sound.holds, Option.some.injEq] at taken
    subst taken
    have none : p.dgrams = [] := same.symm
    have empty := sound.holds.ends.1.mpr rfl
    exact ⟨⟨gone, [], { sound with armed := fun more => absurd empty more },
      by simp [provideDatagram, none]⟩, by simp [provideDatagram, none]⟩
  | cons cell rest =>
    have next := provide_sound f g gone cell.1 cell.2 rest granted sound taken
    obtain ⟨queue, holds, -, step⟩ := provide_step f cell.1 cell.2 rest granted sound.holds
    obtain rfl : { f with
      queue
      ready := queue.head.isSome
      removed := f.removed + 1
      copied := f.copied ++ if granted then [(f.removed, cell.2)] else [] } = g := by
      simpa [step] using taken
    have ends := holds.ends.1
    have front : p.dgrams = cell.2 :: rest.map Prod.snd := by simpa using same.symm
    refine ⟨⟨_, rest, next, by simp [provideDatagram, front]⟩, ?_⟩
    cases rest with
    | nil => simp [provideDatagram, front, ends.mpr rfl]
    | cons other more => simp [provideDatagram, front, Option.isSome_iff_ne_none, ends]

inductive DatagramOp where
  | send (malloc : Bool) (data : List UInt8)
  | provide (space : Nat)
  deriving DecidableEq, Repr

def h3zeroProvideDatagramBuffer (space length : Nat) : Bool :=
  0 < length && length ≤ space

-- A peer with what its datagram callbacks have done; `passed` are the payloads given to
-- `peer_send_datagram`.
structure Outlet where
  peer : WtdPeer
  effects : List Effect
  passed : List (List UInt8)

def grantedSpace (p : WtdPeer) (space : Nat) : Bool :=
  match p.dgrams with
  | [] => false
  | d :: _ => h3zeroProvideDatagramBuffer space d.length

def datagramStep (o : Outlet) : DatagramOp -> Option Outlet
  | .send malloc data =>
      let made := peerSendDatagram o.peer malloc data
      some { peer := made.2.1, effects := o.effects ++ made.2.2, passed := o.passed ++ [data] }
  | .provide space =>
      let made := provideDatagram o.peer (grantedSpace o.peer space)
      some { o with peer := made.1, effects := o.effects ++ made.2 }

def copiedPayload : Effect -> Option (List UInt8)
  | .provideDatagram data true => some data
  | _ => none

def Outlet.copied (o : Outlet) : List (List UInt8) :=
  o.effects.filterMap copiedPayload

def Conserved (o : Outlet) : Prop :=
  o.copied ++ o.peer.dgrams = o.passed

def HasRoom (o : Outlet) : DatagramOp -> Prop
  | .send malloc _ => malloc = true
  | .provide space =>
      ∀ d rest, o.peer.dgrams = d :: rest -> h3zeroProvideDatagramBuffer space d.length = true

theorem datagramStep_cases (o : Outlet) (a : DatagramOp) (next : Outlet)
    (taken : datagramStep o a = some next) :
    (∃ data, a = .send true data ∧ next.copied = o.copied ∧
      next.peer.dgrams = o.peer.dgrams ++ [data] ∧ next.passed = o.passed ++ [data]) ∨
    (∃ data, a = .send false data ∧ next.copied = o.copied ∧
      next.peer.dgrams = o.peer.dgrams ∧ next.passed = o.passed ++ [data]) ∨
    (∃ space, a = .provide space ∧ o.peer.dgrams = [] ∧ next.copied = o.copied ∧
      next.peer.dgrams = [] ∧ next.passed = o.passed) ∨
    (∃ space d rest, a = .provide space ∧ o.peer.dgrams = d :: rest ∧
      next.copied =
        o.copied ++ (if h3zeroProvideDatagramBuffer space d.length then [d] else []) ∧
      next.peer.dgrams = rest ∧ next.passed = o.passed) := by
  cases a with
  | send malloc data =>
    cases malloc <;> simp only [datagramStep, peerSendDatagram, Option.some.injEq] at taken <;>
      simp [← taken, Outlet.copied, copiedPayload]
  | provide space =>
    simp only [datagramStep, Option.some.injEq] at taken
    subst taken
    cases front : o.peer.dgrams with
    | nil => simp [Outlet.copied, provideDatagram, front]
    | cons d rest =>
      cases fits : h3zeroProvideDatagramBuffer space d.length <;>
        cases rest <;>
        simp [Outlet.copied, provideDatagram, grantedSpace, front, fits, copiedPayload]

theorem conserved_step (o : Outlet) (a : DatagramOp) (next : Outlet) (conserved : Conserved o)
    (room : HasRoom o a) (taken : datagramStep o a = some next) : Conserved next := by
  unfold Conserved at conserved ⊢
  rcases datagramStep_cases o a next taken with ⟨data, rfl, copied, queue, passed⟩ |
    ⟨data, rfl, copied, queue, passed⟩ | ⟨space, rfl, empty, copied, queue, passed⟩ |
    ⟨space, d, rest, rfl, front, copied, queue, passed⟩
  · rw [copied, queue, passed, ← conserved, List.append_assoc]
  · simp [HasRoom] at room
  · rw [copied, queue, passed, ← conserved, empty]
  · rw [copied, queue, passed, ← conserved, front, room d rest front]
    simp

theorem room_of_conserved (o : Outlet) (a : DatagramOp) (next : Outlet) (conserved : Conserved o)
    (taken : datagramStep o a = some next) (after : Conserved next) : HasRoom o a := by
  unfold Conserved at conserved after
  rcases datagramStep_cases o a next taken with ⟨data, rfl, copied, queue, passed⟩ |
    ⟨data, rfl, copied, queue, passed⟩ | ⟨space, rfl, empty, copied, queue, passed⟩ |
    ⟨space, d, rest, rfl, front, copied, queue, passed⟩
  · rfl
  · rw [copied, queue, passed, conserved] at after
    simp at after
  · intro d rest front
    simp [empty] at front
  · intro other more same
    obtain ⟨rfl, rfl⟩ : d = other ∧ rest = more := by simpa [front] using same
    by_contra small
    rw [copied, queue, passed, ← conserved, front] at after
    simp [small] at after

theorem datagrams_conserved_iff_room (p : WtdPeer) (empty : p.dgrams = [])
    (ops : List DatagramOp) :
    (∀ first second o, ops = first ++ second ->
      exec datagramStep { peer := p, effects := [], passed := [] } first = some o ->
      o.copied ++ o.peer.dgrams = o.passed) ↔
    Meets datagramStep HasRoom { peer := p, effects := [], passed := [] } ops :=
  throughout_iff_meets datagramStep HasRoom Conserved Conserved conserved_step
    (fun _ held => held) room_of_conserved _ (by simp [Conserved, Outlet.copied, empty]) ops

def samplePeer : WtdPeer :=
  { freshPeer sampleSpawn with controlStreamId := 0 }

def sampleOutlet : Outlet :=
  { peer := samplePeer, effects := [], passed := [] }

def burstWithRoom : List DatagramOp :=
  [.send true [1], .send true [2, 3], .provide 1200, .provide 1198]

theorem datagrams_conserved_with_room :
    ∃ o, exec datagramStep sampleOutlet burstWithRoom = some o ∧ o.copied = [[1], [2, 3]] ∧
      o.copied ++ o.peer.dgrams = o.passed := by
  refine ⟨_, rfl, rfl, ?_⟩
  apply (datagrams_conserved_iff_room samplePeer rfl burstWithRoom).mpr _ burstWithRoom [] _ rfl rfl
  intro next taken
  cases taken
  refine ⟨rfl, ?_⟩
  intro next taken
  cases taken
  refine ⟨rfl, ?_⟩
  intro next taken
  cases taken
  refine ⟨by rintro d rest ⟨⟩; rfl, ?_⟩
  intro next taken
  cases taken
  exact ⟨by rintro d rest ⟨⟩; rfl, trivial⟩

theorem second_datagram_lost (first second : List UInt8) (space left : Nat)
    (sent : first ≠ []) (fits : first.length ≤ space) (tight : left < second.length) :
    exec datagramStep sampleOutlet
        [.send true first, .send true second, .provide space, .provide left] = some
      { peer := samplePeer
        effects := [.setDatagramReady 0, .setDatagramReady 0, .provideDatagram first true,
          .setDatagramReady 0, .provideDatagram second false]
        passed := [first, second] } := by
  have none_left : samplePeer.dgrams = [] := rfl
  have control : samplePeer.controlStreamId = 0 := rfl
  simp [exec, datagramStep, sampleOutlet, peerSendDatagram, provideDatagram, grantedSpace,
    h3zeroProvideDatagramBuffer, none_left, control, List.length_pos_iff.mpr sent, fits,
    Nat.not_le.mpr tight]
  rfl

-- The second callback is offered what the first datagram left of the packet.
def burstInOnePacket : List DatagramOp :=
  [.send true (List.replicate 700 1), .send true (List.replicate 600 2), .provide 1200,
    .provide 490]

theorem datagram_lost_in_burst :
    ∃ o, exec datagramStep sampleOutlet burstInOnePacket = some o ∧
      o.passed = [List.replicate 700 1, List.replicate 600 2] ∧
      o.copied = [List.replicate 700 1] ∧ o.peer.dgrams = [] ∧
      o.effects.getLast? = some (.provideDatagram (List.replicate 600 2) false) ∧
      o.copied ++ o.peer.dgrams ≠ o.passed := by
  have run := second_datagram_lost (List.replicate 700 1) (List.replicate 600 2) 1200 490
    (by simp [-List.reduceReplicate]) (by simp [-List.reduceReplicate])
    (by simp [-List.reduceReplicate])
  exact ⟨_, run, rfl, rfl, rfl, rfl, fun same => absurd (congrArg List.length same) (by decide)⟩

-- The loop of peer_remove over the FIFO; `fuel` bounds the number of datagrams it frees.
def freeDgrams (fuel : Nat) (f : DgramFifo) : Option (Nat -> Option (Cell Nat (List UInt8))) :=
  release fuel f.queue.heap f.queue.head

def Covered (f : DgramFifo) : Prop :=
  ∃ gone cells, FifoSound f gone cells ∧ ∀ a, a ∉ addresses cells -> f.queue.heap a = none

theorem covered_step (f : DgramFifo) (a : FifoStep) (g : DgramFifo) (covered : Covered f)
    (taken : fifoStep f a = some g) : Covered g := by
  obtain ⟨gone, cells, sound, only⟩ := covered
  cases a with
  | send address data =>
    refine ⟨gone, _, send_sound f g gone cells address data sound taken, fun b outside => ?_⟩
    simp only [fifoStep] at taken
    split_ifs at taken with used
    have fresh : f.queue.heap address = none := by simpa using used
    obtain ⟨queue, pushed, -, kept⟩ :=
      sound.holds.push address data (sound.holds.fresh address fresh)
    simp only [pushed, Option.some.injEq] at taken
    subst taken
    obtain ⟨old, new⟩ : b ∉ addresses cells ∧ b ≠ address := by simpa using outside
    exact (kept b old new).trans (only b old)
  | provide granted =>
    cases cells with
    | nil =>
      have empty := sound.holds.ends.1.mpr rfl
      rw [provide_empty f granted sound.holds, Option.some.injEq] at taken
      subst taken
      exact ⟨gone, [], { sound with armed := fun more => absurd empty more }, only⟩
    | cons cell rest =>
      refine ⟨_, rest, provide_sound f g gone cell.1 cell.2 rest granted sound taken,
        fun b outside => ?_⟩
      obtain ⟨queue, -, freed, step⟩ := provide_step f cell.1 cell.2 rest granted sound.holds
      rw [step, Option.some.injEq] at taken
      subst taken
      rw [freed]
      by_cases first : b = cell.1
      · rw [first, Function.update_self]
      · rw [Function.update_of_ne first]
        exact only b (by simpa [addresses, first] using outside)

theorem dgram_fifo_freed (schedule : List FifoStep) (f : DgramFifo)
    (run : exec fifoStep emptyFifo schedule = some f) (fuel : Nat)
    (enough : f.queued.length < f.removed + fuel) :
    freeDgrams fuel f = some fun _ => none := by
  obtain ⟨gone, cells, sound, only⟩ := exec_invariant fifoStep Covered covered_step emptyFifo f
    schedule ⟨[], [], emptyFifo_sound, fun _ _ => rfl⟩ run
  have left : cells.length < fuel := by
    rw [sound.places, sound.counted, List.length_append, List.length_map] at enough
    omega
  obtain ⟨after, freed, gone, kept⟩ :=
    release_spells fuel f.queue.heap f.queue.head cells sound.holds.chain left
  rw [freeDgrams, freed, Option.some.injEq]
  funext a
  by_cases member : a ∈ addresses cells
  · exact gone a member
  · exact (kept a member).trans (only a member)

theorem dgram_fifo_freed_round_trip :
    ∃ f, exec fifoStep emptyFifo fifoRoundTrip = some f ∧ f.queued.length = 4 ∧ f.removed = 2 ∧
      freeDgrams 3 f = some fun _ => none :=
  ⟨_, rfl, rfl, rfl, dgram_fifo_freed fifoRoundTrip _ rfl 3 (by decide)⟩

end WebTransportD.DatagramFifo
