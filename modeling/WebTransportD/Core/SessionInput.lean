import WebTransportD.Core.Session

set_option autoImplicit false

namespace WebTransportD.SessionInput

open WebTransportD.Frame Session

inductive DeliverOp where
  | message (reliable : Bool) (data : List UInt8) (env : DeliverEnv)
  | fin

structure Inlet where
  session : WtdSession
  calls : List ChildCall

def deliverStep (i : Inlet) (op : DeliverOp) : Inlet :=
  let result := match op with
    | .message true data env => wtdSessionDeliverStream i.session data env
    | .message false data env => wtdSessionDeliverDatagram i.session data env
    | .fin => wtdSessionDeliverFin i.session
  { session := result.1, calls := i.calls ++ result.2 }

def runDeliver (ops : List DeliverOp) : Inlet :=
  ops.foldl deliverStep { session := wtdSessionInit, calls := [] }

-- A non-negative return value n means the child took the first n bytes; a negative one, none.
def acceptedBytes : ChildCall -> List UInt8
  | .write data ret => data.take ret.toNat
  | .closeInput => []

def childInput (calls : List ChildCall) : List UInt8 :=
  calls.flatMap acceptedBytes

structure Message where
  position : Nat
  reliable : Bool
  data : List UInt8
  beforeFin : Bool
  deriving DecidableEq

def flagOf (reliable : Bool) : UInt8 :=
  if reliable then wtdFrameFlagReliable else wtdFrameFlagUnreliable

def Message.frame (m : Message) : List UInt8 :=
  canonicalFrame (flagOf m.reliable) m.data

def messagesFrom : Nat -> Bool -> List DeliverOp -> List Message
  | _, _, [] => []
  | position, beforeFin, .message reliable data _ :: rest =>
      { position, reliable, data, beforeFin } :: messagesFrom (position + 1) beforeFin rest
  | position, _, .fin :: rest => messagesFrom (position + 1) false rest

def messages (ops : List DeliverOp) : List Message :=
  messagesFrom 0 true ops

def Message.Required (m : Message) : Prop :=
  m.reliable = true ∧ m.data ≠ [] ∧ m.data.length ≤ wtdFrameMaxPayload ∧ m.beforeFin = true

structure Covers (delivered kept : List Message) (bytes : List UInt8) : Prop where
  order : kept.Sublist delivered
  required : ∀ m ∈ delivered, m.Required -> m ∈ kept
  encodable : ∀ m ∈ kept, m.data.length ≤ wtdFrameMaxPayload
  bytes : bytes <+: kept.flatMap Message.frame

def CutOnlyLast : List ChildCall -> Prop
  | [] => True
  | .write data ret :: rest =>
      (0 < ret -> ret < data.length -> childInput rest = []) ∧ CutOnlyLast rest
  | .closeInput :: rest => CutOnlyLast rest

def Aligned (ops : List DeliverOp) : Prop :=
  (∃ kept, Covers (messages ops) kept (childInput (runDeliver ops).calls)) ∧
  CutOnlyLast (runDeliver ops).calls

def sendable (data : List UInt8) : Bool :=
  data ≠ [] && data.length ≤ wtdFrameMaxPayload

def takesBytes (data : List UInt8) (env : DeliverEnv) : Bool :=
  sendable data && env.malloc && 0 < env.ret

def takesFrame (data : List UInt8) (env : DeliverEnv) : Bool :=
  sendable data && env.malloc && env.ret == (neededSize data : Int)

def settled (reliable : Bool) (data : List UInt8) (env : DeliverEnv) : Bool :=
  !sendable data || takesFrame data env || (!reliable && !takesBytes data env)

def unbroken : Bool -> List DeliverOp -> Bool
  | _, [] => true
  | _, .fin :: _ => true
  | owed, .message reliable data env :: rest =>
      !(owed && takesBytes data env) && unbroken (owed || !settled reliable data env) rest

def messageCalls (reliable : Bool) (data : List UInt8) (env : DeliverEnv) : List ChildCall :=
  if sendable data && env.malloc then [.write (canonicalFrame (flagOf reliable) data) env.ret]
  else []

def callsFrom : List DeliverOp -> List ChildCall
  | [] => []
  | .fin :: _ => [.closeInput]
  | .message reliable data env :: rest => messageCalls reliable data env ++ callsFrom rest

@[simp] theorem childInput_append (first second : List ChildCall) :
    childInput (first ++ second) = childInput first ++ childInput second :=
  List.flatMap_append

theorem flagOf_known (reliable : Bool) : KnownFlag (flagOf reliable) := by
  cases reliable
  · exact .inr rfl
  · exact .inl rfl

theorem deliver_message (i : Inlet) (reliable : Bool) (data : List UInt8) (env : DeliverEnv) :
    deliverStep i (.message reliable data env) =
      { session := i.session,
        calls := i.calls ++
          if i.session.childInputClosed then [] else messageCalls reliable data env } := by
  have routed : deliverStep i (.message reliable data env) =
      { session := i.session,
        calls := i.calls ++ (deliverToChild i.session (flagOf reliable) data env).2 } := by
    cases reliable <;>
      simp [deliverStep, wtdSessionDeliverStream, wtdSessionDeliverDatagram,
        deliverToChild_session, flagOf]
  rw [routed, deliverToChild_calls _ _ _ _ (flagOf_known reliable)]
  cases closed : i.session.childInputClosed with
  | true => simp
  | false => simp [messageCalls, sendable, and_assoc]

theorem run_closed (i : Inlet) (ops : List DeliverOp) (closed : i.session.childInputClosed = true) :
    (ops.foldl deliverStep i).calls = i.calls := by
  induction ops with
  | nil => rfl
  | cons op rest ih =>
    have still : deliverStep i op = i := by
      cases op with
      | message reliable data env => simp [deliver_message, closed]
      | fin => simp [deliverStep, wtdSessionDeliverFin, closed]
    rw [List.foldl_cons, still, ih]

theorem run_calls (i : Inlet) (ops : List DeliverOp)
    (running : i.session.childInputClosed = false) :
    (ops.foldl deliverStep i).calls = i.calls ++ callsFrom ops := by
  induction ops generalizing i with
  | nil => simp [callsFrom]
  | cons op rest ih =>
    cases op with
    | message reliable data env =>
      rw [List.foldl_cons, ih _ (by rw [deliver_message]; exact running), deliver_message]
      simp [running, callsFrom]
    | fin =>
      rw [List.foldl_cons, run_closed _ _ (by simp [deliverStep, wtdSessionDeliverFin, running])]
      simp [deliverStep, wtdSessionDeliverFin, running, callsFrom]

theorem runDeliver_calls (ops : List DeliverOp) : (runDeliver ops).calls = callsFrom ops := by
  simpa [runDeliver] using run_calls { session := wtdSessionInit, calls := [] } ops rfl

theorem message_whole (reliable : Bool) (data : List UInt8) (env : DeliverEnv)
    (whole : takesFrame data env = true) :
    childInput (messageCalls reliable data env) = canonicalFrame (flagOf reliable) data := by
  simp only [takesFrame, Bool.and_eq_true, beq_iff_eq] at whole
  have all : (canonicalFrame (flagOf reliable) data).length ≤ env.ret.toNat := by
    rw [length_canonicalFrame, whole.2]
    simp
  simp [messageCalls, whole.1, childInput, acceptedBytes, List.take_of_length_le all]

theorem message_nothing (reliable : Bool) (data : List UInt8) (env : DeliverEnv)
    (nothing : takesBytes data env = false) : childInput (messageCalls reliable data env) = [] := by
  unfold messageCalls
  split_ifs with reaches
  · have refused : env.ret ≤ 0 := by
      simpa [takesBytes, reaches] using nothing
    simp [childInput, acceptedBytes, refused]
  · rfl

theorem message_part (reliable : Bool) (data : List UInt8) (env : DeliverEnv) :
    childInput (messageCalls reliable data env) <+: canonicalFrame (flagOf reliable) data := by
  unfold messageCalls
  split_ifs
  · simpa [childInput, acceptedBytes] using List.take_prefix _ _
  · exact List.nil_prefix

theorem owed_silent (ops : List DeliverOp) (quiet : unbroken true ops = true) :
    childInput (callsFrom ops) = [] := by
  induction ops with
  | nil => rfl
  | cons op rest ih =>
    cases op with
    | message reliable data env =>
      simp only [unbroken, Bool.true_and, Bool.true_or, Bool.and_eq_true,
        Bool.not_eq_true'] at quiet
      simp [callsFrom, message_nothing reliable data env quiet.1, ih quiet.2]
    | fin => rfl

theorem unbroken_message (reliable : Bool) (data : List UInt8) (env : DeliverEnv)
    (rest : List DeliverOp) (whole : unbroken false (.message reliable data env :: rest) = true) :
    unbroken (!settled reliable data env) rest = true := by
  simpa [unbroken] using whole

theorem unbroken_take (owed : Bool) (first second : List DeliverOp)
    (whole : unbroken owed (first ++ second) = true) : unbroken owed first = true := by
  induction first generalizing owed with
  | nil => rfl
  | cons op rest ih =>
    cases op with
    | message reliable data env =>
      simp only [List.cons_append, unbroken, Bool.and_eq_true] at whole ⊢
      exact ⟨whole.1, ih _ whole.2⟩
    | fin => rfl

theorem callsFrom_cut (ops : List DeliverOp) (owed : Bool) (quiet : unbroken owed ops = true) :
    CutOnlyLast (callsFrom ops) := by
  induction ops generalizing owed with
  | nil => trivial
  | cons op rest ih =>
    cases op with
    | message reliable data env =>
      simp only [unbroken, Bool.and_eq_true] at quiet
      have later := ih _ quiet.2
      unfold callsFrom messageCalls
      split_ifs with reaches
      · refine ⟨?_, later⟩
        intro some part
        rw [length_canonicalFrame] at part
        have unsettled : settled reliable data env = false := by
          have short : (env.ret == (neededSize data : Int)) = false := by
            simpa using part.ne
          simp only [Bool.and_eq_true] at reaches
          simp [settled, takesFrame, takesBytes, reaches, short, some]
        rw [unsettled, Bool.not_false, Bool.or_true] at quiet
        exact owed_silent rest quiet.2
      · exact later
    | fin => trivial

theorem Covers.skip {delivered kept : List Message} {bytes : List UInt8} (m : Message)
    (optional : ¬ m.Required) (rest : Covers delivered kept bytes) :
    Covers (m :: delivered) kept bytes where
  order := rest.order.cons m
  required := by
    intro other member needed
    rcases List.mem_cons.mp member with rfl | later
    · exact absurd needed optional
    · exact rest.required other later needed
  encodable := rest.encodable
  bytes := rest.bytes

theorem Covers.keep {delivered kept : List Message} {bytes : List UInt8} (m : Message)
    (small : m.data.length ≤ wtdFrameMaxPayload) (rest : Covers delivered kept bytes) :
    Covers (m :: delivered) (m :: kept) (m.frame ++ bytes) where
  order := rest.order.cons_cons m
  required := by
    intro other member needed
    rcases List.mem_cons.mp member with rfl | later
    · exact List.mem_cons_self
    · exact List.mem_cons_of_mem _ (rest.required other later needed)
  encodable := by
    intro other member
    rcases List.mem_cons.mp member with rfl | later
    · exact small
    · exact rest.encodable other later
  bytes := by
    rw [List.flatMap_cons]
    exact (List.prefix_append_right_inj _).mpr rest.bytes

theorem Covers.idle (delivered : List Message) :
    Covers delivered (delivered.filter fun m => m.data.length ≤ wtdFrameMaxPayload) [] where
  order := List.filter_sublist
  required := by
    intro m member needed
    exact List.mem_filter.mpr ⟨member, by simpa using needed.2.2.1⟩
  encodable := by
    intro m member
    simpa using (List.mem_filter.mp member).2
  bytes := List.nil_prefix

theorem Covers.shorten {delivered kept : List Message} {bytes part : List UInt8}
    (whole : Covers delivered kept bytes) (shorter : part <+: bytes) :
    Covers delivered kept part :=
  { whole with bytes := shorter.trans whole.bytes }

theorem callsFrom_aligned (position : Nat) (ops : List DeliverOp)
    (quiet : unbroken false ops = true) :
    ∃ kept, Covers (messagesFrom position true ops) kept (childInput (callsFrom ops)) := by
  induction ops generalizing position with
  | nil => exact ⟨_, Covers.idle _⟩
  | cons op rest ih =>
    cases op with
    | fin => exact ⟨_, Covers.idle _⟩
    | message reliable data env =>
      have next := unbroken_message reliable data env rest quiet
      let m : Message := ⟨position, reliable, data, true⟩
      rw [callsFrom, childInput_append, messagesFrom]
      by_cases fits : sendable data = true
      swap
      · -- An empty or oversize message is dropped, and was not required.
        have optional : ¬ m.Required := by
          rintro ⟨_, filled, small, _⟩
          exact fits (by simpa [sendable] using ⟨filled, small⟩)
        have silent := message_nothing reliable data env (by simp [takesBytes, fits])
        rw [show settled reliable data env = true by simp [settled, fits]] at next
        obtain ⟨kept, covers⟩ := ih (position + 1) next
        exact ⟨kept, by rw [silent]; exact covers.skip m optional⟩
      have small : m.data.length ≤ wtdFrameMaxPayload := by
        simp only [sendable, Bool.and_eq_true, decide_eq_true_eq] at fits
        exact fits.2
      by_cases whole : takesFrame data env = true
      · rw [show settled reliable data env = true by simp [settled, whole]] at next
        obtain ⟨kept, covers⟩ := ih (position + 1) next
        exact ⟨m :: kept, by
          rw [message_whole reliable data env whole]
          exact covers.keep m small⟩
      cases done : settled reliable data env with
      | true =>
        -- Settled without its frame: a datagram of which nothing was taken.
        have dropped : reliable = false ∧ takesBytes data env = false := by
          simpa [settled, fits, whole] using done
        have optional : ¬ m.Required := by
          rintro ⟨stream, _⟩
          exact absurd stream (by simp [m, dropped.1])
        rw [done] at next
        obtain ⟨kept, covers⟩ := ih (position + 1) next
        exact ⟨kept, by
          rw [message_nothing reliable data env dropped.2]
          exact covers.skip m optional⟩
      | false =>
        rw [done] at next
        rw [owed_silent rest next]
        have part : childInput (messageCalls reliable data env) ++ [] <+: m.frame ++ [] := by
          rw [List.append_nil, List.append_nil]
          exact message_part reliable data env
        exact ⟨_, ((Covers.idle _).keep m small).shorten part⟩

theorem aligned_while_unbroken (ops : List DeliverOp) (quiet : unbroken false ops = true)
    (first second : List DeliverOp) (reached : ops = first ++ second) : Aligned first := by
  have quiet := unbroken_take false first second (reached ▸ quiet)
  unfold Aligned
  rw [runDeliver_calls]
  exact ⟨callsFrom_aligned 0 first quiet, callsFrom_cut first false quiet⟩

def accepting (ret : Int) : DeliverEnv :=
  { malloc := true, block := fun _ => 0, ret }

-- A whole frame, a datagram the full pipe refuses, and a last frame of which two bytes fit.
def almostFull : List DeliverOp :=
  [.message true [7] (accepting 3), .message false [8, 8] (accepting (-1)),
    .message true [1, 2, 3] (accepting 2), .message true [9] (accepting 0), .fin]

theorem aligned_with_refused_datagram :
    unbroken false almostFull = true ∧ Aligned almostFull ∧
      childInput (runDeliver almostFull).calls = [0, 1, 7, 0, 3] :=
  ⟨by decide, aligned_while_unbroken almostFull (by decide) almostFull [] (by simp), by
    rw [runDeliver_calls]
    decide⟩

-- PIPE_BUF is 4096: a longer write to a pipe that is nearly full can be taken in part.
def cutThenNext : List DeliverOp :=
  [.message true (List.replicate 5000 1) (accepting 4096), .message true [9] (accepting 3)]

theorem cut_frame_breaks_alignment :
    childInput (runDeliver cutThenNext).calls =
        [0, 0x53, 0x88] ++ List.replicate 4093 1 ++ [0, 1, 9] ∧
      ¬ Aligned cutThenNext := by
  have first : canonicalFrame 0 (List.replicate 5000 1) =
      [0, 0x53, 0x88] ++ List.replicate 5000 1 := by
    rw [canonicalFrame, frameBytes, List.length_replicate]
    rfl
  have second : canonicalFrame 0 [9] = [0, 1, 9] := by decide
  have bytes : childInput (runDeliver cutThenNext).calls =
      [0, 0x53, 0x88] ++ List.replicate 4093 1 ++ [0, 1, 9] := by
    rw [runDeliver_calls]
    simp [-List.reduceReplicate, cutThenNext, callsFrom, messageCalls, sendable, accepting,
      wtdFrameMaxPayload, childInput, acceptedBytes, flagOf, wtdFrameFlagReliable, first, second]
  refine ⟨bytes, ?_⟩
  rintro ⟨⟨kept, covers⟩, _⟩
  have both : kept = messages cutThenNext := by
    have needed : messages cutThenNext ⊆ kept := by
      intro m member
      refine covers.required m member ?_
      simp only [messages, cutThenNext, messagesFrom, List.mem_cons, List.not_mem_nil,
        or_false] at member
      rcases member with rfl | rfl <;>
        simp [-List.reduceReplicate, Message.Required, wtdFrameMaxPayload]
    have distinct : (messages cutThenNext).Nodup := by
      simp [-List.reduceReplicate, messages, cutThenNext, messagesFrom]
    exact covers.order.eq_of_length_le (distinct.subperm needed).length_le
  have start := covers.bytes
  rw [bytes, both] at start
  -- Where the first frame is cut the child finds the flag of the second.
  obtain ⟨rest, same⟩ := start
  have cut := congrArg (fun list => list[4096]?) same
  simp [-List.reduceReplicate, messages, cutThenNext, messagesFrom, Message.frame, flagOf,
    wtdFrameFlagReliable, first, List.getElem?_append] at cut

end WebTransportD.SessionInput
