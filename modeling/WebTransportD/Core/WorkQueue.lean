import WebTransportD.Core.Session
import WebTransportD.Shared.Chain
import WebTransportD.Shared.Execution

set_option autoImplicit false

namespace WebTransportD.WorkQueue

open Session Chain Execution

def wtdWorkQueueInit (heap : Nat -> Option (Cell Nat OutboundFrame)) : Queue Nat OutboundFrame :=
  Queue.empty heap

-- Pushing stores NULL in the node's link and leaves its flag and payload; `none` is a dangling use.
def wtdWorkQueuePush (q : Queue Nat OutboundFrame) :
    Option Nat -> Option (Queue Nat OutboundFrame)
  | none => some q
  | some f =>
      match q.heap f with
      | none => none
      | some node => q.push f node.value

def wtdWorkQueueDrain (q : Queue Nat OutboundFrame) : Queue Nat OutboundFrame × Option Nat :=
  ({ q with head := none, tail := none }, q.head)

-- The queue in its heap; `pushed` records the nodes pushed since the last drain, and `drained` the
-- chains that drains have returned, oldest first, as far as their nodes are not freed yet.
structure Work where
  queue : Queue Nat OutboundFrame
  pushed : List (Nat × OutboundFrame)
  drained : List (Option Nat × List (Nat × OutboundFrame))
  dangling : Bool

inductive WorkOp where
  | alloc (a : Nat) (node : Cell Nat OutboundFrame)
  | push (f : Option Nat)
  | drain
  | free

def nodes (w : Work) : List Nat :=
  addresses w.pushed ++ w.drained.flatMap fun chain => addresses chain.2

def workStart (heap : Nat -> Option (Cell Nat OutboundFrame)) : Work :=
  { queue := wtdWorkQueueInit heap, pushed := [], drained := [], dangling := false }

def workStep (w : Work) : WorkOp -> Option Work
  | .alloc a node =>
      if (w.queue.heap a).isSome then none
      else
        let heap := Function.update w.queue.heap a (some node)
        some { w with queue := { w.queue with heap } }
  | .push none => (wtdWorkQueuePush w.queue none).map fun queue => { w with queue }
  | .push (some f) =>
      match w.queue.heap f with
      | none => none
      | some node =>
          if f ∈ nodes w then none
          else match wtdWorkQueuePush w.queue (some f) with
            | none => some { w with dangling := true }
            | some queue => some { w with queue, pushed := w.pushed ++ [(f, node.value)] }
  | .drain =>
      let made := wtdWorkQueueDrain w.queue
      some { w with
        queue := made.1
        pushed := []
        drained := w.drained ++ [(made.2, w.pushed)] }
  -- The loop that consumes a chain reads the link of its first node and frees the node.
  | .free =>
      match w.drained with
      | [] => none
      | (none, _) :: later => some { w with drained := later }
      | (some frame, chain) :: later =>
          match w.queue.heap frame with
          | none => some { w with dangling := true }
          | some node =>
              let heap := Function.update w.queue.heap frame none
              some { w with
                queue := { w.queue with heap }
                drained := (node.next, chain.tail) :: later }

structure Sound (w : Work) : Prop where
  intact : w.dangling = false
  holds : w.queue.Holds w.pushed
  chains : ∀ chain ∈ w.drained, Spells w.queue.heap chain.1 chain.2
  distinct : (nodes w).Nodup

theorem sound_start (heap : Nat -> Option (Cell Nat OutboundFrame)) : Sound (workStart heap) where
  intact := rfl
  holds := Queue.holds_empty heap
  chains chain member := by simp [workStart] at member
  distinct := List.nodup_nil

theorem mem_nodes (w : Work) (chain : Option Nat × List (Nat × OutboundFrame))
    (member : chain ∈ w.drained) (a : Nat) (inside : a ∈ addresses chain.2) : a ∈ nodes w :=
  List.mem_append.mpr (.inr (List.mem_flatMap.mpr ⟨chain, member, inside⟩))

theorem Sound.apart {w : Work} (sound : Sound w)
    (chain : Option Nat × List (Nat × OutboundFrame)) (member : chain ∈ w.drained) (a : Nat)
    (inside : a ∈ addresses chain.2) : a ∉ addresses w.pushed := by
  intro queued
  have separate := (List.nodup_append.mp sound.distinct).2.2
  exact separate a queued a (List.mem_flatMap.mpr ⟨chain, member, inside⟩) rfl

theorem Sound.push {w : Work} (sound : Sound w) (f : Nat) (node : Cell Nat OutboundFrame)
    (live : w.queue.heap f = some node) (unused : f ∉ nodes w) :
    ∃ t, workStep w (.push (some f)) = some t ∧ Sound t ∧
      t.pushed = w.pushed ++ [(f, node.value)] ∧ t.drained = w.drained ∧
      ∀ chain ∈ w.drained, ∀ a ∈ addresses chain.2, t.queue.heap a = w.queue.heap a := by
  have outside : f ∉ addresses w.pushed := fun member => unused (List.mem_append_left _ member)
  obtain ⟨queue, pushed, holds, frame⟩ := sound.holds.push f node.value outside
  have kept : ∀ chain ∈ w.drained, ∀ a ∈ addresses chain.2, queue.heap a = w.queue.heap a := by
    intro chain member a inside
    apply frame a (sound.apart chain member a inside)
    rintro rfl
    exact unused (mem_nodes w chain member a inside)
  refine ⟨{ w with queue, pushed := w.pushed ++ [(f, node.value)] }, ?_, ?_, rfl, rfl, kept⟩
  · simp [workStep, wtdWorkQueuePush, live, unused, pushed]
  · constructor
    · exact sound.intact
    · exact holds
    · intro chain member
      exact spells_congr _ _ _ _ (kept chain member) (sound.chains chain member)
    · have separate := List.nodup_cons.mpr ⟨unused, sound.distinct⟩
      apply List.Perm.nodup _ separate
      simp only [nodes, addresses_append, addresses_cons, addresses_nil, List.append_assoc,
        List.singleton_append]
      exact List.perm_middle.symm

theorem Sound.drain {w : Work} (sound : Sound w) :
    ∃ t, workStep w .drain = some t ∧ Sound t ∧ t.queue.head = none ∧ t.queue.tail = none ∧
      t.pushed = [] ∧ t.drained = w.drained ++ [(w.queue.head, w.pushed)] ∧
      t.queue.heap = w.queue.heap := by
  refine ⟨_, rfl, ?_, rfl, rfl, rfl, rfl, rfl⟩
  constructor
  · exact sound.intact
  · exact ⟨rfl, rfl⟩
  · intro chain member
    rcases List.mem_append.mp member with earlier | now
    · exact sound.chains chain earlier
    · rw [List.mem_singleton.mp now]
      exact sound.holds.chain
  · apply List.Perm.nodup _ sound.distinct
    simpa [nodes, wtdWorkQueueDrain] using List.perm_append_comm

theorem Sound.free {w t : Work} (sound : Sound w) (taken : workStep w .free = some t) :
    Sound t ∧ t.pushed = w.pushed := by
  rcases front : w.drained with _ | ⟨⟨_ | frame, chain⟩, later⟩
  · simp [workStep, front] at taken
  · obtain rfl : _ = t := by simpa [workStep, front] using taken
    have ended := sound.chains (none, chain) (by simp [front])
    have distinct := sound.distinct
    cases chain with
    | cons cell rest => simp [Spells] at ended
    | nil =>
      refine ⟨⟨sound.intact, sound.holds, ?_, by simpa [nodes, front] using distinct⟩, rfl⟩
      intro chain member
      exact sound.chains chain (by simp [front, member])
  · have spelled := sound.chains (some frame, chain) (by simp [front])
    have distinct := sound.distinct
    cases chain with
    | nil => simp [Spells] at spelled
    | cons cell rest =>
      obtain ⟨a, v⟩ := cell
      obtain ⟨same, next, live, linked⟩ := spelled
      obtain rfl := Option.some.inj same
      simp only [nodes, front, List.flatMap_cons, addresses_cons, List.cons_append] at distinct
      obtain ⟨gone, separate⟩ := List.nodup_cons.mp (List.perm_middle.nodup_iff.mp distinct)
      obtain rfl : _ = t := by simpa [workStep, front, live] using taken
      simp only [List.mem_append, List.mem_flatMap, not_or, not_exists, not_and] at gone
      refine ⟨⟨sound.intact, ⟨?_, sound.holds.last⟩, ?_, by simpa [nodes] using separate⟩, rfl⟩
      · exact spells_update _ _ _ _ _ gone.1 sound.holds.chain
      · intro chain member
        rcases List.mem_cons.mp member with rfl | other
        · exact spells_update _ _ _ _ _ gone.2.1 linked
        · have spelled := sound.chains chain (by simp [front, other])
          exact spells_update _ _ _ _ _ (gone.2.2 chain other) spelled

theorem Sound.alloc {w t : Work} (sound : Sound w) (a : Nat) (node : Cell Nat OutboundFrame)
    (taken : workStep w (.alloc a node) = some t) : Sound t ∧ t.pushed = w.pushed := by
  simp only [workStep] at taken
  split_ifs at taken with used
  obtain rfl := Option.some.inj taken
  have unused : w.queue.heap a = none := by simpa using used
  have outside := sound.holds.fresh a unused
  refine ⟨⟨sound.intact, ⟨?_, sound.holds.last⟩, ?_, sound.distinct⟩, rfl⟩
  · exact spells_update _ _ _ _ _ outside sound.holds.chain
  · intro chain member
    have spelled := sound.chains chain member
    apply spells_update _ _ _ _ _ _ spelled
    intro inside
    have live := spells_live _ _ _ spelled a inside
    simp [unused] at live

theorem Sound.pushed {w t : Work} (sound : Sound w) (f : Nat)
    (taken : workStep w (.push (some f)) = some t) :
    ∃ node, w.queue.heap f = some node ∧ Sound t ∧ t.pushed = w.pushed ++ [(f, node.value)] := by
  cases live : w.queue.heap f with
  | none => simp [workStep, live] at taken
  | some node =>
    by_cases used : f ∈ nodes w
    · simp [workStep, live, used] at taken
    · obtain ⟨next, step, after, pushed, -⟩ := sound.push f node live used
      obtain rfl : next = t := by simpa [step] using taken
      exact ⟨node, rfl, after, pushed⟩

def pushedBy (pushed : List Nat) : WorkOp -> List Nat
  | .push (some f) => pushed ++ [f]
  | .drain => []
  | .alloc _ _ | .push none | .free => pushed

def pushedSince (ops : List WorkOp) : List Nat :=
  ops.foldl pushedBy []

theorem workStep_sound (w : Work) (op : WorkOp) (t : Work) (sound : Sound w)
    (taken : workStep w op = some t) :
    Sound t ∧ addresses t.pushed = pushedBy (addresses w.pushed) op := by
  cases op with
  | alloc a node =>
    obtain ⟨after, same⟩ := sound.alloc a node taken
    exact ⟨after, congrArg addresses same⟩
  | push f =>
    cases f with
    | none =>
      obtain rfl : w = t := by simpa [workStep, wtdWorkQueuePush] using taken
      exact ⟨sound, rfl⟩
    | some f =>
      obtain ⟨node, -, after, pushed⟩ := sound.pushed f taken
      exact ⟨after, by simp [pushed, pushedBy]⟩
  | drain =>
    obtain ⟨next, step, after, -, -, emptied, -⟩ := sound.drain
    obtain rfl : next = t := by simpa [step] using taken
    exact ⟨after, congrArg addresses emptied⟩
  | free =>
    obtain ⟨after, same⟩ := sound.free taken
    exact ⟨after, congrArg addresses same⟩

theorem run_sound (heap : Nat -> Option (Cell Nat OutboundFrame)) (ops : List WorkOp) (w : Work)
    (run : exec workStep (workStart heap) ops = some w) :
    Sound w ∧ addresses w.pushed = pushedSince ops := by
  have step : ∀ past w op t, (Sound w ∧ addresses w.pushed = pushedSince past) ->
      workStep w op = some t -> Sound t ∧ addresses t.pushed = pushedSince (past ++ [op]) := by
    intro past w op t before taken
    obtain ⟨after, pushed⟩ := workStep_sound w op t before.1 taken
    exact ⟨after, by simp [pushed, before.2, pushedSince]⟩
  have kept := exec_history workStep
    (fun past w => Sound w ∧ addresses w.pushed = pushedSince past) step [] (workStart heap) w ops
    ⟨sound_start heap, rfl⟩ run
  simpa using kept

def frames (w : Work) : List OutboundFrame :=
  w.pushed.map Prod.snd

theorem push_refines (w t : Work) (f : Nat) (node : Cell Nat OutboundFrame) (sound : Sound w)
    (live : w.queue.heap f = some node) (taken : workStep w (.push (some f)) = some t) :
    frames t = Session.wtdWorkQueuePush (frames w) node.value := by
  obtain ⟨held, here, -, pushed⟩ := sound.pushed f taken
  obtain rfl : held = node := by simpa [live] using here.symm
  simp [frames, pushed, Session.wtdWorkQueuePush]

theorem drain_refines (w t : Work) (taken : workStep w .drain = some t) :
    (frames w, frames t) = Session.wtdWorkQueueDrain (frames w) := by
  obtain rfl := Option.some.inj taken
  rfl

theorem workQueue_refines_list (heap : Nat -> Option (Cell Nat OutboundFrame)) (ops : List WorkOp)
    (w : Work) (run : exec workStep (workStart heap) ops = some w) :
    w.dangling = false ∧
    (w.queue.head = none ↔ w.queue.tail = none) ∧
    (∃ cells, addresses cells = pushedSince ops ∧ (addresses cells).Nodup ∧
      Spells w.queue.heap w.queue.head cells ∧ w.queue.tail = (addresses cells).getLast? ∧
      (∀ t, w.queue.tail = some t ->
        ∃ frame, w.queue.heap t = some { next := none, value := frame }) ∧
      ∃ t, workStep w .drain = some t ∧ t.drained = w.drained ++ [(w.queue.head, cells)] ∧
        Spells t.queue.heap w.queue.head cells ∧ t.queue.head = none ∧ t.queue.tail = none) ∧
    (∀ chain ∈ w.drained, Spells w.queue.heap chain.1 chain.2) ∧
    ∀ f node, w.queue.heap f = some node -> f ∉ nodes w ->
      ∃ t, workStep w (.push (some f)) = some t ∧ t.drained = w.drained ∧
        ∀ chain ∈ w.drained, ∀ a ∈ addresses chain.2, t.queue.heap a = w.queue.heap a := by
  obtain ⟨sound, since⟩ := run_sound heap ops w run
  have ends := sound.holds.ends
  refine ⟨sound.intact, ends.1.trans ends.2.symm, ⟨w.pushed, since, ?_, sound.holds.chain,
    sound.holds.last, sound.holds.tail_cell, ?_⟩, sound.chains, ?_⟩
  · exact (List.nodup_append.mp sound.distinct).1
  · obtain ⟨t, taken, -, head, tail, -, drained, heap⟩ := sound.drain
    exact ⟨t, taken, drained, heap ▸ sound.holds.chain, head, tail⟩
  · intro f node live unused
    obtain ⟨t, taken, -, -, drained, kept⟩ := sound.push f node live unused
    exact ⟨t, taken, drained, kept⟩

def blankNode : Cell Nat OutboundFrame :=
  { next := some 9, value := { flag := 0, payload := [1] } }

def twoBatches : List WorkOp :=
  [.alloc 1 blankNode, .push (some 1), .alloc 2 blankNode, .push (some 2), .drain, .push none,
    .alloc 3 blankNode, .push (some 3), .free]

theorem workQueue_refines_list_twoBatches :
    ∃ w, exec workStep (workStart fun _ => none) twoBatches = some w ∧
      pushedSince twoBatches = [3] ∧ w.dangling = false ∧
      ∀ chain ∈ w.drained, Spells w.queue.heap chain.1 chain.2 := by
  refine ⟨_, rfl, rfl, ?_⟩
  have proved := workQueue_refines_list (fun _ => none) twoBatches _ rfl
  exact ⟨proved.1, proved.2.2.2.1⟩

end WebTransportD.WorkQueue
