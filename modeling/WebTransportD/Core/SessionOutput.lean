import WebTransportD.Core.Session

set_option autoImplicit false

namespace WebTransportD.SessionOutput

open WebTransportD.Frame Session

inductive OutputOp where
  | onOutput (malloc : Bool) (flag : UInt8) (data : List UInt8)
  | onOutputEof
  | pump (env : PumpEnv)

structure Outlet where
  session : WtdSession
  calls : List TransportCall
  given : List OutboundFrame

def outletInit : Outlet :=
  { session := wtdSessionInit, calls := [], given := [] }

def outputStep (o : Outlet) : OutputOp -> Outlet
  | .onOutput malloc flag data =>
      { o with
        session := wtdSessionOnOutput o.session malloc flag data
        given := o.given ++ [{ flag, payload := data }] }
  | .onOutputEof => { o with session := wtdSessionOnOutputEof o.session }
  | .pump env =>
      { o with
        session := (wtdSessionPump o.session env).1
        calls := o.calls ++ (wtdSessionPump o.session env).2 }

def runOutput (ops : List OutputOp) : Outlet :=
  ops.foldl outputStep outletInit

theorem runOutput_snoc (ops : List OutputOp) (op : OutputOp) :
    runOutput (ops ++ [op]) = outputStep (runOutput ops) op := by
  simp [runOutput]

def reliablePayload (f : OutboundFrame) : List UInt8 :=
  if f.flag = wtdFrameFlagReliable then f.payload else []

def reliableBytes (frames : List OutboundFrame) : List UInt8 :=
  frames.flatMap reliablePayload

def acceptedPayload : TransportCall -> List UInt8
  | .sendStream data ret => if ret = 0 then data else []
  | _ => []

def acceptedBytes (calls : List TransportCall) : List UInt8 :=
  calls.flatMap acceptedPayload

@[simp] theorem reliableBytes_append (left right : List OutboundFrame) :
    reliableBytes (left ++ right) = reliableBytes left ++ reliableBytes right := by
  simp [reliableBytes]

@[simp] theorem acceptedBytes_append (left right : List TransportCall) :
    acceptedBytes (left ++ right) = acceptedBytes left ++ acceptedBytes right := by
  simp [acceptedBytes]

@[simp] theorem acceptedBytes_fin (ret : Int) : acceptedBytes [.sendFin ret] = [] := rfl

def Lossless (o : Outlet) : Prop :=
  acceptedBytes o.calls ++ reliableBytes o.session.outbound = reliableBytes o.given

instance (o : Outlet) : Decidable (Lossless o) :=
  inferInstanceAs (Decidable (_ = _))

def FinComplete (o : Outlet) (op : OutputOp) : Prop :=
  ∀ env, op = .pump env -> .sendFin 0 ∈ (wtdSessionPump o.session env).2 ->
    acceptedBytes (outputStep o op).calls = reliableBytes (outputStep o op).given

def ReliableKept (ops : List OutputOp) : Prop :=
  (∀ first second, ops = first ++ second -> Lossless (runOutput first)) ∧
  ∀ first op second, ops = first ++ op :: second -> FinComplete (runOutput first) op

def Accepts (o : Outlet) : OutputOp -> Prop
  | .onOutput malloc flag data => flag = wtdFrameFlagReliable -> data ≠ [] -> malloc = true
  | .onOutputEof => True
  | .pump env => ∀ i f, o.session.outbound[i]? = some f -> f.flag = wtdFrameFlagReliable ->
      f.payload ≠ [] -> env.data i = 0

theorem accepted_sendFrame (f : OutboundFrame) (ret : Int) :
    acceptedPayload (sendFrame f ret) = if ret = 0 then reliablePayload f else [] := by
  by_cases reliable : f.flag = wtdFrameFlagReliable <;>
    simp [sendFrame, acceptedPayload, reliablePayload, reliable]

theorem accepted_flush_length (ret : Nat -> Int) (i : Nat) (batch : List OutboundFrame) :
    (acceptedBytes (flushFrames ret i batch)).length ≤ (reliableBytes batch).length := by
  induction batch generalizing i with
  | nil => simp [flushFrames, acceptedBytes]
  | cons f rest ih =>
    have tail := ih (i + 1)
    simp only [acceptedBytes, reliableBytes] at tail
    simp only [flushFrames, acceptedBytes, reliableBytes, List.flatMap_cons, accepted_sendFrame,
      List.length_append]
    split_ifs
    · omega
    · simp only [List.length_nil]
      omega

theorem accepted_flush_iff (ret : Nat -> Int) (i : Nat) (batch : List OutboundFrame) :
    acceptedBytes (flushFrames ret i batch) = reliableBytes batch ↔
      ∀ j f, batch[j]? = some f -> f.flag = wtdFrameFlagReliable -> f.payload ≠ [] ->
        ret (i + j) = 0 := by
  induction batch generalizing i with
  | nil => simp [flushFrames, acceptedBytes, reliableBytes]
  | cons f rest ih =>
    -- A refused frame leaves the accepted side short, so equality forces its payload empty.
    have head : acceptedBytes (flushFrames ret i (f :: rest)) = reliableBytes (f :: rest) ↔
        (reliablePayload f ≠ [] -> ret i = 0) ∧
          acceptedBytes (flushFrames ret (i + 1) rest) = reliableBytes rest := by
      have shorter := accepted_flush_length ret (i + 1) rest
      simp only [acceptedBytes, reliableBytes] at shorter
      simp only [flushFrames, acceptedBytes, reliableBytes, List.flatMap_cons, accepted_sendFrame]
      by_cases accepted : ret i = 0
      · simp [accepted]
      · simp only [accepted, if_false, List.nil_append]
        constructor
        · intro same
          have length := congrArg List.length same
          rw [List.length_append] at length
          have empty : reliablePayload f = [] := List.eq_nil_of_length_eq_zero (by omega)
          rw [empty, List.nil_append] at same
          exact ⟨fun present => absurd empty present, same⟩
        · rintro ⟨refused, same⟩
          have empty : reliablePayload f = [] := by
            by_contra present
            exact refused present
          rw [empty, List.nil_append, same]
    rw [head, ih]
    constructor
    · rintro ⟨first, later⟩ j g found reliable present
      cases j with
      | zero =>
        simp only [List.getElem?_cons_zero, Option.some.injEq] at found
        subst found
        exact first (by simpa [reliablePayload, reliable] using present)
      | succ j =>
        have answer := later j g (by simpa using found) reliable present
        rwa [Nat.add_right_comm] at answer
    · intro each
      constructor
      · intro present
        by_cases reliable : f.flag = wtdFrameFlagReliable
        · exact each 0 f rfl reliable (by simpa [reliablePayload, reliable] using present)
        · simp [reliablePayload, reliable] at present
      · intro j g found reliable present
        have answer := each (j + 1) g (by simpa using found) reliable present
        rwa [← Nat.add_assoc, Nat.add_right_comm] at answer

theorem pump_calls (s : WtdSession) (env : PumpEnv) :
    acceptedBytes (wtdSessionPump s env).2 = acceptedBytes (flushFrames env.data 0 s.outbound) := by
  simp only [wtdSessionPump, wtdWorkQueueDrain]
  split_ifs <;> simp

theorem pump_outbound (s : WtdSession) (env : PumpEnv) :
    (wtdSessionPump s env).1.outbound = [] := by
  simp only [wtdSessionPump, wtdWorkQueueDrain]
  split_ifs <;> rfl

theorem lossless_step_iff (o : Outlet) (op : OutputOp) (lossless : Lossless o) :
    Lossless (outputStep o op) ↔ Accepts o op := by
  unfold Lossless at lossless
  cases op with
  | onOutput malloc flag data =>
    simp only [Lossless, outputStep, wtdSessionOnOutput, wtdWorkQueuePush, Accepts,
      reliableBytes_append, ← lossless]
    cases malloc <;> simp [reliableBytes, reliablePayload]
  | onOutputEof => simpa [Lossless, outputStep, wtdSessionOnOutputEof, Accepts] using lossless
  | pump env =>
    have flushed := accepted_flush_iff env.data 0 o.session.outbound
    simp only [Nat.zero_add] at flushed
    simp only [Lossless, outputStep, acceptedBytes_append, pump_calls, pump_outbound, Accepts,
      ← lossless, ← flushed]
    simp [reliableBytes]

theorem finComplete_of_lossless (o : Outlet) (op : OutputOp)
    (lossless : Lossless (outputStep o op)) : FinComplete o op := by
  rintro env rfl -
  simpa [Lossless, outputStep, pump_outbound, reliableBytes] using lossless

theorem lossless_of_accepts (ops : List OutputOp)
    (accepts : ∀ first op second, ops = first ++ op :: second -> Accepts (runOutput first) op) :
    Lossless (runOutput ops) := by
  induction ops using List.reverseRecOn with
  | nil => rfl
  | append_singleton ops op ih =>
    have before := ih (fun first a second split =>
      accepts first a (second ++ [op]) (by simp [split]))
    rw [runOutput_snoc]
    exact (lossless_step_iff _ op before).mpr (accepts ops op [] rfl)

theorem reliable_kept_iff_accepted (ops : List OutputOp) :
    ReliableKept ops ↔
      ∀ first op second, ops = first ++ op :: second -> Accepts (runOutput first) op := by
  constructor
  · rintro ⟨lossless, -⟩ first op second split
    have after := lossless (first ++ [op]) second (by simp [split])
    rw [runOutput_snoc] at after
    exact (lossless_step_iff _ op (lossless first _ split)).mp after
  · intro accepts
    have lossless : ∀ first second, ops = first ++ second -> Lossless (runOutput first) := by
      rintro first second rfl
      exact lossless_of_accepts first fun a op b split =>
        accepts a op (b ++ second) (by simp [split])
    refine ⟨lossless, fun first op second split => ?_⟩
    have after := lossless (first ++ [op]) second (by simp [split])
    rw [runOutput_snoc] at after
    exact finComplete_of_lossless _ op after

-- A greeting pumped before the stream is bound, then EOF, binding and an accepted FIN.
def earlyGreeting : List OutputOp :=
  [.onOutput true 0 [72, 105], .pump ⟨fun _ => -1, -1⟩, .onOutputEof, .pump ⟨fun _ => 0, 0⟩]

theorem early_greeting_lost :
    (runOutput earlyGreeting).calls = [.sendStream [72, 105] (-1), .sendFin 0] ∧
      ¬ ReliableKept earlyGreeting := by
  refine ⟨by decide, ?_⟩
  rintro ⟨lossless, -⟩
  have all := lossless earlyGreeting [] (by simp)
  exact absurd all (by decide)

end WebTransportD.SessionOutput
