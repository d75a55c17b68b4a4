import WebTransportD.Core.SessionInput

set_option autoImplicit false

namespace WebTransportD.ChildStdin

open WebTransportD.Frame Memory Session SessionInput

def decodeFrames (buf : List UInt8) : List (UInt8 × List UInt8) × List UInt8 :=
  match _ok : wtdFrameDecode buf with
  | .ok d =>
      let later := decodeFrames (buf.drop d.consumed)
      ((d.flag, d.bytes buf) :: later.1, later.2)
  | .error _ => ([], buf)
termination_by buf.length
decreasing_by
  have positive := consumed_pos buf d _ok
  have within := consumed_le buf d _ok
  simp only [List.length_drop]
  omega

theorem decodeFrames_nil : decodeFrames [] = ([], []) := by
  rw [decodeFrames]
  simp [wtdFrameDecode_nil]

theorem decodeFrames_frame (flag : UInt8) (payload rest : List UInt8) (valid : KnownFlag flag)
    (small : payload.length ≤ wtdFrameMaxPayload) :
    decodeFrames (canonicalFrame flag payload ++ rest) =
      ((flag, payload) :: (decodeFrames rest).1, (decodeFrames rest).2) := by
  obtain ⟨d, ok, sameFlag, whole, -, -, -, bytes⟩ := wtdFrameDecode_of_frame flag payload _ rest
    (canonicalFrame_isFrame flag payload valid small)
  rw [decodeFrames]
  split
  next other found =>
    obtain rfl : d = other := by simpa [ok] using found
    simp [sameFlag, whole, bytes]
  next error failed => simp [ok] at failed

def Message.item (m : Message) : UInt8 × List UInt8 :=
  (flagOf m.reliable, m.data)

theorem decodeFrames_messages (ms : List Message)
    (small : ∀ m ∈ ms, m.data.length ≤ wtdFrameMaxPayload) :
    decodeFrames (ms.flatMap Message.frame) = (ms.map Message.item, []) := by
  induction ms with
  | nil => exact decodeFrames_nil
  | cons m rest ih =>
    have later := ih fun other member => small other (List.mem_cons_of_mem _ member)
    have first := decodeFrames_frame (flagOf m.reliable) m.data (rest.flatMap Message.frame)
      (flagOf_known m.reliable) (small m List.mem_cons_self)
    simpa [Message.frame, later, Message.item] using first

def framedFrom (position : Nat) (beforeFin : Bool) (ops : List DeliverOp) : List Message :=
  (messagesFrom position beforeFin ops).filter fun m => m.beforeFin && sendable m.data

def framed (ops : List DeliverOp) : List Message :=
  framedFrom 0 true ops

theorem framedFrom_finished (position : Nat) (ops : List DeliverOp) :
    framedFrom position false ops = [] := by
  induction ops generalizing position with
  | nil => rfl
  | cons op rest ih =>
    cases op with
    | message reliable data env => simpa [framedFrom, messagesFrom] using ih (position + 1)
    | fin => exact ih (position + 1)

theorem framed_small (ops : List DeliverOp) (m : Message) (member : m ∈ framed ops) :
    m.data.length ≤ wtdFrameMaxPayload := by
  have kept := (List.mem_filter.mp member).2
  simp only [sendable, Bool.and_eq_true, decide_eq_true_eq] at kept
  exact kept.2.2

def isFin : DeliverOp -> Bool
  | .fin => true
  | .message _ _ _ => false

def written : ChildCall -> List UInt8
  | .write data _ => data
  | .closeInput => []

def AcceptsAll (calls : List ChildCall) : Prop :=
  ∀ data ret, .write data ret ∈ calls -> ret = data.length

theorem childInput_accepted (calls : List ChildCall) (accepted : AcceptsAll calls) :
    childInput calls = calls.flatMap written := by
  induction calls with
  | nil => rfl
  | cons call rest ih =>
    have later := ih fun data ret member => accepted data ret (List.mem_cons_of_mem _ member)
    cases call with
    | write data ret =>
      have whole := accepted data ret List.mem_cons_self
      simpa [childInput, acceptedBytes, written, whole] using later
    | closeInput => simpa [childInput, acceptedBytes, written] using later

theorem callsFrom_written (position : Nat) (ops : List DeliverOp)
    (allocated : ∀ reliable data env, .message reliable data env ∈ ops -> env.malloc = true) :
    (callsFrom ops).flatMap written = (framedFrom position true ops).flatMap Message.frame := by
  induction ops generalizing position with
  | nil => rfl
  | cons op rest ih =>
    cases op with
    | message reliable data env =>
      have later := ih (position + 1) fun reliable data env member =>
        allocated reliable data env (List.mem_cons_of_mem _ member)
      have served := allocated reliable data env List.mem_cons_self
      cases fits : sendable data <;>
        simpa [callsFrom, messageCalls, framedFrom, messagesFrom, fits, served, written,
          Message.frame] using later
    | fin =>
      change [] = (framedFrom (position + 1) false rest).flatMap Message.frame
      rw [framedFrom_finished, List.flatMap_nil]

theorem messageCalls_keeps_open (reliable : Bool) (data : List UInt8) (env : DeliverEnv) :
    ChildCall.closeInput ∉ messageCalls reliable data env := by
  unfold messageCalls
  split_ifs <;> simp

theorem callsFrom_closes (ops : List DeliverOp) :
    (callsFrom ops).count .closeInput = if ops.any isFin then 1 else 0 := by
  induction ops with
  | nil => rfl
  | cons op rest ih =>
    cases op with
    | message reliable data env =>
      have none := List.count_eq_zero.mpr (messageCalls_keeps_open reliable data env)
      simpa [callsFrom, List.count_append, none, isFin] using ih
    | fin => simp [callsFrom, isFin]

theorem callsFrom_ends (ops : List DeliverOp) (before after : List ChildCall)
    (split : callsFrom ops = before ++ .closeInput :: after) : after = [] := by
  induction ops generalizing before with
  | nil => simp [callsFrom] at split
  | cons op rest ih =>
    cases op with
    | message reliable data env =>
      have none := messageCalls_keeps_open reliable data env
      rcases List.append_eq_append_iff.mp split with ⟨mid, rfl, tail⟩ | ⟨mid, first, tail⟩
      · exact ih mid tail
      · cases mid with
        | nil => exact ih [] (by simpa using tail.symm)
        | cons call mid =>
          simp only [List.cons_append, List.cons.injEq] at tail
          simp [first, ← tail.1] at none
    | fin =>
      cases before with
      | nil => simpa [callsFrom] using split.symm
      | cons call before => simp [callsFrom] at split

-- The block deliver_to_child allocates; `len + 9` wraps for the last nine values of size_t.
def frameCap (data : List UInt8) : Nat := sizeT (data.length + 9)

theorem encode_within_cap (flag : UInt8) (data : List UInt8) (block : Nat -> UInt8)
    (valid : KnownFlag flag) :
    let encoded := wtdFrameEncode flag data block (frameCap data) 0
    encoded.status ≠ .errBufTooSmall ∧
      ∀ index, frameCap data ≤ index -> encoded.out index = block index := by
  by_cases small : data.length ≤ wtdFrameMaxPayload
  · have room : neededSize data ≤ frameCap data := neededSize_cap data small
    rw [wtdFrameEncode_ok flag data block _ 0 valid small room]
    refine ⟨by simp, fun index outside => ?_⟩
    apply copy_above
    rw [length_canonicalFrame]
    omega
  · have big : wtdFrameMaxPayload < data.length := by omega
    simp [wtdFrameEncode, (reserved_bits flag).mpr valid, big]

theorem child_stdin_is_framed_sequence (ops : List DeliverOp)
    (allocated : ∀ reliable data env, .message reliable data env ∈ ops -> env.malloc = true)
    (accepted : AcceptsAll (runDeliver ops).calls) :
    let calls := (runDeliver ops).calls
    childInput calls = (framed ops).flatMap Message.frame ∧
    decodeFrames (childInput calls) = ((framed ops).map Message.item, []) ∧
    (∀ reliable data env, .message reliable data env ∈ ops ->
      let encoded := wtdFrameEncode (flagOf reliable) data env.block (frameCap data) 0
      encoded.status ≠ .errBufTooSmall ∧
        ∀ index, frameCap data ≤ index -> encoded.out index = env.block index) ∧
    (calls.count .closeInput = if ops.any isFin then 1 else 0) ∧
    ∀ before after, calls = before ++ .closeInput :: after -> after = [] := by
  have bytes : childInput (runDeliver ops).calls = (framed ops).flatMap Message.frame := by
    rw [childInput_accepted _ accepted, runDeliver_calls]
    exact callsFrom_written 0 ops allocated
  refine ⟨bytes, ?_, ?_, ?_, ?_⟩
  · rw [bytes]
    exact decodeFrames_messages _ (framed_small ops)
  · intro reliable data env _
    exact encode_within_cap _ data env.block (flagOf_known reliable)
  · rw [runDeliver_calls]
    exact callsFrom_closes ops
  · rw [runDeliver_calls]
    exact callsFrom_ends ops

-- An empty message, two that are framed, a FIN, and one that comes too late.
def mixedDeliveries : List DeliverOp :=
  [.message true [] (accepting 0), .message true [7] (accepting 3),
    .message false [8, 9] (accepting 4), .fin, .message true [1] (accepting 3), .fin]

theorem child_stdin_mixed :
    childInput (runDeliver mixedDeliveries).calls = [0, 1, 7, 1, 2, 8, 9] ∧
    decodeFrames (childInput (runDeliver mixedDeliveries).calls) =
      ([(0, [7]), (1, [8, 9])], []) := by
  have sequence := child_stdin_is_framed_sequence mixedDeliveries
    (by
      intro reliable data env member
      simp only [mixedDeliveries, List.mem_cons, DeliverOp.message.injEq, reduceCtorEq,
        List.not_mem_nil, or_false, false_or] at member
      rcases member with ⟨-, -, rfl⟩ | ⟨-, -, rfl⟩ | ⟨-, -, rfl⟩ | ⟨-, -, rfl⟩ <;> rfl)
    (by
      intro data ret member
      rw [runDeliver_calls] at member
      have known : callsFrom mixedDeliveries =
          [.write [0, 1, 7] 3, .write [1, 2, 8, 9] 4, .closeInput] := by decide
      simp only [known, List.mem_cons, ChildCall.write.injEq, reduceCtorEq, List.not_mem_nil,
        or_false] at member
      rcases member with ⟨rfl, rfl⟩ | ⟨rfl, rfl⟩ <;> rfl)
  refine ⟨?_, ?_⟩
  · rw [sequence.1]
    decide
  · rw [sequence.2.1]
    decide

end WebTransportD.ChildStdin
