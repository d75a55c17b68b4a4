import WebTransportD.Adapters.PeerDelivery
import WebTransportD.Shared.Execution

set_option autoImplicit false

namespace WebTransportD.PeerStreams

open WebTransportD.Frame Session SessionInput ChildProcess TransportPeer PeerDelivery Execution

structure Arrival where
  stream : Nat
  bytes : List UInt8
  fin : Bool
  env : DeliverEnv

def Arrival.event (a : Arrival) : Event :=
  if a.fin then .postFin a.stream a.bytes a.env else .postData a.stream a.bytes a.env

def connected (control : Nat) (spawned : Spawned) : WtdPeer :=
  { freshPeer spawned with controlStreamId := control }

def arrivalStep (p : WtdPeer) (a : Arrival) : Option WtdPeer :=
  (wtSessionCb (some p) a.event).1

def arrivalEffects (p : WtdPeer) (a : Arrival) : List Effect :=
  (wtSessionCb (some p) a.event).2.1

theorem arrival_eq (p : WtdPeer) (a : Arrival) :
    wtSessionCb (some p) a.event =
      (some (postStream p a.stream a.bytes a.env a.fin).1,
        (postStream p a.stream a.bytes a.env a.fin).2, 0) := by
  cases fin : a.fin <;> simp [Arrival.event, wtSessionCb, fin]

def unfinished (past : List Arrival) : Prop :=
  ∀ a ∈ past, a.fin = false

structure Tracked (control : Nat) (spawned : Spawned) (past : List Arrival) (p : WtdPeer) :
    Prop where
  control : p.controlStreamId = control
  input : p.session.childInputClosed = past.any Arrival.fin
  stdin : past.any Arrival.fin = false -> p.child.stdinFd = spawned.stdin

theorem tracked_step (control : Nat) (spawned : Spawned) (past : List Arrival) (p : WtdPeer)
    (a : Arrival) (tracked : Tracked control spawned past p) (other : a.stream ≠ control) :
    ∃ q, arrivalStep p a = some q ∧ Tracked control spawned (past ++ [a]) q := by
  have apart : a.stream ≠ p.controlStreamId := by rwa [tracked.control]
  obtain ⟨session, child, same⟩ := bind_fields p a.stream
  refine ⟨_, by rw [arrivalStep, arrival_eq], ?_⟩
  rw [postStream_eq p a.stream a.bytes a.env a.fin apart]
  cases fin : a.fin with
  | false =>
    exact ⟨by simpa [same] using tracked.control, by simpa [session, fin] using tracked.input,
      by simpa [child, fin] using tracked.stdin⟩
  | true => exact ⟨by simpa [inputClosed, same] using tracked.control, by simp [inputClosed, fin],
      by simp [fin]⟩

theorem tracked_run (control : Nat) (spawned : Spawned) (arrivals : List Arrival)
    (other : ∀ a ∈ arrivals, a.stream ≠ control) :
    ∃ p, exec arrivalStep (connected control spawned) arrivals = some p ∧
      Tracked control spawned arrivals p := by
  induction arrivals using List.reverseRecOn with
  | nil => exact ⟨_, rfl, rfl, rfl, fun _ => rfl⟩
  | append_singleton past a ih =>
    obtain ⟨p, run, tracked⟩ := ih fun b member => other b (List.mem_append_left _ member)
    obtain ⟨q, taken, next⟩ := tracked_step control spawned past p a tracked
      (other a (by simp))
    exact ⟨q, exec_snoc arrivalStep _ p q past a run taken, next⟩

theorem Tracked.closes {control : Nat} {spawned : Spawned} {past : List Arrival} {p : WtdPeer}
    (tracked : Tracked control spawned past p) : closesStdin p = !past.any Arrival.fin := by
  cases finished : past.any Arrival.fin with
  | true => simp [closesStdin, tracked.input, finished]
  | false => simp [closesStdin, tracked.input, tracked.stdin finished, finished]

theorem Tracked.reaches {control : Nat} {spawned : Spawned} {past : List Arrival} {p : WtdPeer}
    (tracked : Tracked control spawned past p) (a : Arrival) :
    reachesChild p a.bytes a.env = (!past.any Arrival.fin && sendable a.bytes && a.env.malloc) := by
  cases finished : past.any Arrival.fin with
  | true => simp [reachesChild, tracked.input, finished]
  | false => simp [reachesChild, tracked.input, tracked.stdin finished, finished]

theorem arrival_effects (control : Nat) (spawned : Spawned) (past : List Arrival) (p : WtdPeer)
    (a : Arrival) (tracked : Tracked control spawned past p) (other : a.stream ≠ control) :
    arrivalEffects p a =
      (if !past.any Arrival.fin && sendable a.bytes && a.env.malloc then
        [.sys (.write spawned.stdin (canonicalFrame wtdFrameFlagReliable a.bytes) a.env.ret)]
       else []) ++
      if a.fin && !past.any Arrival.fin then [.sys (.close spawned.stdin)] else [] := by
  have apart : a.stream ≠ p.controlStreamId := by rwa [tracked.control]
  rw [arrivalEffects, arrival_eq, postStream_eq p a.stream a.bytes a.env a.fin apart,
    messageEffects, tracked.reaches, tracked.closes]
  cases finished : past.any Arrival.fin with
  | true => simp
  | false => simp [tracked.stdin finished]

def Independent (spawned : Spawned) (past : List Arrival) (a : Arrival) (effects : List Effect) :
    Prop :=
  (.sys (.close spawned.stdin) ∈ effects -> ∀ b ∈ past ++ [a], b.bytes ≠ [] ->
    ∃ c ∈ past ++ [a], c.stream = b.stream ∧ c.fin = true) ∧
  (a.bytes ≠ [] -> (∀ b ∈ past, b.stream = a.stream -> b.fin = false) ->
    .sys (.write spawned.stdin (canonicalFrame wtdFrameFlagReliable a.bytes) a.env.ret) ∈ effects)

-- A chunk on an unfinished stream comes before any FIN, is allocated and is not too large; and the
-- first FIN comes when no other stream has carried data.
def SingleStream (past : List Arrival) (a : Arrival) : Prop :=
  (a.bytes ≠ [] -> (∀ b ∈ past, b.stream = a.stream -> b.fin = false) ->
    unfinished past ∧ a.bytes.length ≤ wtdFrameMaxPayload ∧ a.env.malloc = true) ∧
  (a.fin = true -> unfinished past -> ∀ b ∈ past, b.bytes ≠ [] -> b.stream = a.stream)

theorem any_fin_iff (past : List Arrival) : past.any Arrival.fin = false ↔ unfinished past := by
  simp [unfinished]

theorem arrival_writes (control : Nat) (spawned : Spawned) (past : List Arrival) (p : WtdPeer)
    (a : Arrival) (tracked : Tracked control spawned past p) (other : a.stream ≠ control) :
    .sys (.write spawned.stdin (canonicalFrame wtdFrameFlagReliable a.bytes) a.env.ret) ∈
        arrivalEffects p a ↔
      unfinished past ∧ sendable a.bytes = true ∧ a.env.malloc = true := by
  rw [arrival_effects control spawned past p a tracked other, ← any_fin_iff]
  cases past.any Arrival.fin <;> cases sendable a.bytes <;> cases a.env.malloc <;>
    cases a.fin <;> simp

theorem arrival_closes (control : Nat) (spawned : Spawned) (past : List Arrival) (p : WtdPeer)
    (a : Arrival) (tracked : Tracked control spawned past p) (other : a.stream ≠ control) :
    .sys (.close spawned.stdin) ∈ arrivalEffects p a ↔ a.fin = true ∧ unfinished past := by
  rw [arrival_effects control spawned past p a tracked other, ← any_fin_iff]
  cases past.any Arrival.fin <;> cases sendable a.bytes <;> cases a.env.malloc <;>
    cases a.fin <;> simp

theorem first_fin_iff (past : List Arrival) (a : Arrival) (fin : a.fin = true)
    (first : unfinished past) :
    (∀ b ∈ past ++ [a], b.bytes ≠ [] -> ∃ c ∈ past ++ [a], c.stream = b.stream ∧ c.fin = true) ↔
      ∀ b ∈ past, b.bytes ≠ [] -> b.stream = a.stream := by
  constructor
  · intro finished b member filled
    obtain ⟨c, arrived, same, ended⟩ := finished b (by simp [member]) filled
    rcases List.mem_append.mp arrived with early | now
    · simp [first c early] at ended
    · rw [← same, List.mem_singleton.mp now]
  · intro alone b member filled
    refine ⟨a, by simp, ?_, fin⟩
    rcases List.mem_append.mp member with early | now
    · exact (alone b early filled).symm
    · rw [List.mem_singleton.mp now]

theorem independent_iff (control : Nat) (spawned : Spawned) (past : List Arrival) (p : WtdPeer)
    (a : Arrival) (tracked : Tracked control spawned past p) (other : a.stream ≠ control) :
    Independent spawned past a (arrivalEffects p a) ↔ SingleStream past a := by
  unfold Independent SingleStream
  rw [arrival_writes control spawned past p a tracked other,
    arrival_closes control spawned past p a tracked other, and_comm]
  apply and_congr
  · apply imp_congr_right
    intro filled
    simp [sendable, filled]
  · rw [and_imp]
    apply imp_congr_right
    intro fin
    apply imp_congr_right
    exact first_fin_iff past a fin

theorem streams_independent_iff (control : Nat) (spawned : Spawned) (arrivals : List Arrival)
    (other : ∀ a ∈ arrivals, a.stream ≠ control) :
    (∀ past a later p, arrivals = past ++ a :: later ->
      exec arrivalStep (connected control spawned) past = some p ->
      Independent spawned past a (arrivalEffects p a)) ↔
    ∀ past a later, arrivals = past ++ a :: later -> SingleStream past a := by
  constructor
  · intro independent past a later split
    obtain ⟨p, run, tracked⟩ := tracked_run control spawned past
      fun b member => other b (by simp [split, member])
    exact (independent_iff control spawned past p a tracked (other a (by simp [split]))).mp
      (independent past a later p split run)
  · intro single past a later p split run
    obtain ⟨q, same, tracked⟩ := tracked_run control spawned past
      fun b member => other b (by simp [split, member])
    obtain rfl : p = q := by simpa [run] using same
    exact (independent_iff control spawned past p a tracked (other a (by simp [split]))).mpr
      (single past a later split)

def arrival (stream : Nat) (bytes : List UInt8) (fin : Bool) : Arrival :=
  { stream, bytes, fin, env := accepting (neededSize bytes) }

def finishedStream : List Arrival := [arrival 4 [7] false, arrival 4 [8] true]

theorem finishedStream_single (past : List Arrival) (a : Arrival) (later : List Arrival)
    (split : finishedStream = past ++ a :: later) : SingleStream past a := by
  rcases past with _ | ⟨b, _ | ⟨c, past⟩⟩
  · obtain ⟨rfl, -⟩ : arrival 4 [7] false = a ∧ _ := by simpa [finishedStream] using split
    exact ⟨fun _ _ => ⟨by simp [unfinished], by decide, rfl⟩, by simp⟩
  · obtain ⟨rfl, rfl, -⟩ : arrival 4 [7] false = b ∧ arrival 4 [8] true = a ∧ _ := by
      simpa [finishedStream] using split
    exact ⟨fun _ _ => ⟨by simp [unfinished, arrival], by decide, rfl⟩, by simp [arrival]⟩
  · simp [finishedStream] at split

theorem streams_independent_single :
    ∃ p, exec arrivalStep (connected 0 sampleSpawn) [arrival 4 [7] false] = some p ∧
      Independent sampleSpawn [arrival 4 [7] false] (arrival 4 [8] true)
        (arrivalEffects p (arrival 4 [8] true)) := by
  refine ⟨_, rfl, ?_⟩
  exact (streams_independent_iff 0 sampleSpawn finishedStream
    (by simp [finishedStream, arrival])).mpr finishedStream_single _ _ [] _ rfl rfl

-- Stream 4 carries data and is never finished; an empty stream 8 is.
def finOnOtherStream : List Arrival :=
  [arrival 4 [7] false, arrival 8 [] true, arrival 4 [8] false]

theorem fin_on_other_stream_cuts_off :
    ∃ p q, exec arrivalStep (connected 0 sampleSpawn) (finOnOtherStream.take 1) = some p ∧
      p.dataStreamId = 4 ∧ arrivalEffects p (arrival 8 [] true) = [.sys (.close 5)] ∧
      exec arrivalStep (connected 0 sampleSpawn) (finOnOtherStream.take 2) = some q ∧
      arrivalEffects q (arrival 4 [8] false) = [] ∧
      ¬ Independent sampleSpawn (finOnOtherStream.take 1) (arrival 8 [] true)
          (arrivalEffects p (arrival 8 [] true)) ∧
      ¬ Independent sampleSpawn (finOnOtherStream.take 2) (arrival 4 [8] false)
          (arrivalEffects q (arrival 4 [8] false)) := by
  refine ⟨_, _, rfl, rfl, rfl, rfl, rfl, ?_, ?_⟩
  · rintro ⟨closes, -⟩
    obtain ⟨c, member, same, ended⟩ := closes List.mem_cons_self (arrival 4 [7] false)
      List.mem_cons_self (by simp [arrival])
    simp only [finOnOtherStream, List.take_succ_cons, List.take_zero, List.cons_append,
      List.nil_append, List.mem_cons, List.not_mem_nil, or_false] at member
    rcases member with rfl | rfl <;> simp [arrival] at same ended
  · rintro ⟨-, writes⟩
    have written := writes (by simp [arrival]) (by simp [finOnOtherStream, arrival])
    cases written

end WebTransportD.PeerStreams
