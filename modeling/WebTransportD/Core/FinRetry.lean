import WebTransportD.Core.PumpThreads

set_option autoImplicit false

namespace WebTransportD.FinRetry

open WebTransportD.Frame Session Execution PumpThreads

def isReaderStep : ThreadStep -> Bool
  | .push _ | .setEof => true
  | _ => false

def finStep : ThreadStep -> Option Int
  | .sendFin ret => some ret
  | _ => none

def finCall : TransportCall -> Option Int
  | .sendFin ret => some ret
  | _ => none

structure Recorded (past : List ThreadStep) (t : Threads) : Prop where
  eof : t.session.outputEof = true ↔ .setEof ∈ past
  latched : t.session.streamFinSent = true ↔ .sendFin 0 ∈ past
  waiting : t.pump = .finning -> t.session.outputEof = true ∧ t.session.streamFinSent = false
  calls : t.calls.filterMap finCall = past.filterMap finStep

theorem recorded_initial : Recorded [] initial :=
  ⟨by simp [initial, wtdSessionInit], by simp [initial, wtdSessionInit], by simp [initial], rfl⟩

theorem finCall_frame (f : OutboundFrame) (ret : Int) : finCall (sendFrame f ret) = none := by
  unfold sendFrame
  split_ifs <;> rfl

theorem finStep_other (past : List ThreadStep) (a : ThreadStep) (other : finStep a = none) :
    past.filterMap finStep = (past ++ [a]).filterMap finStep := by
  simp [other]

theorem recorded_step (past : List ThreadStep) (t : Threads) (a : ThreadStep) (u : Threads)
    (recorded : Recorded past t) (taken : threadStep t a = some u) :
    Recorded (past ++ [a]) u := by
  obtain ⟨eof, latched, waiting, calls⟩ := recorded
  rcases threadStep_cases t a u taken with ⟨f, rfl, -, rfl⟩ | ⟨rfl, -, rfl⟩ | ⟨rfl, -, rfl⟩ |
    ⟨ret, f, rest, rfl, -, rfl⟩ | ⟨rfl, -, ended, unsent, rfl⟩ | ⟨rfl, -, -, rfl⟩ |
    ⟨ret, rfl, finning, rfl⟩
  · exact ⟨by simpa using eof, by simpa using latched, waiting,
      calls.trans (finStep_other past _ rfl)⟩
  · exact ⟨by simp, by simpa using latched, fun pc => ⟨rfl, (waiting pc).2⟩,
      calls.trans (finStep_other past _ rfl)⟩
  · exact ⟨by simpa using eof, by simpa using latched, by simp,
      calls.trans (finStep_other past _ rfl)⟩
  · exact ⟨by simpa using eof, by simpa using latched, by simp,
      by simpa [finCall_frame] using calls.trans (finStep_other past (.send ret) rfl)⟩
  · exact ⟨by simpa using eof, by simpa using latched, fun _ => ⟨ended, unsent⟩,
      calls.trans (finStep_other past _ rfl)⟩
  · exact ⟨by simpa using eof, by simpa using latched, by simp,
      calls.trans (finStep_other past _ rfl)⟩
  · have unsent := (waiting finning).2
    by_cases accepted : ret = 0
    · subst accepted
      exact ⟨by simpa using eof, by simp, by simp, by simp [finStep, finCall, calls]⟩
    · refine ⟨by simpa [accepted] using eof, ?_, by simp, by simp [finStep, finCall, calls]⟩
      simpa [accepted, Ne.symm accepted] using latched

theorem recorded_run (past : List ThreadStep) (t : Threads)
    (run : exec threadStep initial past = some t) : Recorded past t :=
  exec_history threadStep Recorded recorded_step [] initial t past recorded_initial run

theorem sendFin_enabled (t : Threads) (ret : Int) (u : Threads)
    (taken : threadStep t (.sendFin ret) = some u) : t.pump = .finning ∧ u.pump = .idle := by
  cases pc : t.pump <;> simp [threadStep, pc] at taken
  simp [← taken]

theorem load_finning (t u : Threads) (eof : t.session.outputEof = true)
    (unsent : t.session.streamFinSent = false) (taken : threadStep t .load = some u) :
    u.pump = .finning := by
  rcases pc : t.pump with _ | (_ | ⟨f, rest⟩) | _ <;> simp [threadStep, pc, eof, unsent] at taken
  simp [← taken]

theorem idle_until_drain (t u : Threads) (steps : List ThreadStep) (idle : t.pump = .idle)
    (none : .drain ∉ steps) (run : exec threadStep t steps = some u) : u.pump = .idle := by
  have kept := exec_history threadStep (fun past s => .drain ∉ past -> s.pump = .idle)
    (by
      intro past s a next held taken fresh
      simp only [List.mem_append, List.mem_singleton, not_or] at fresh
      have still := held fresh.1
      cases a <;> simp [threadStep, still] at taken fresh <;> simp [← taken.2])
    [] t u steps (fun _ => idle) run
  exact kept none

theorem finning_kept (t u : Threads) (steps : List ThreadStep) (finning : t.pump = .finning)
    (reader : ∀ a ∈ steps, isReaderStep a = true) (run : exec threadStep t steps = some u) :
    u.pump = .finning := by
  have kept := exec_history threadStep
    (fun past s => (∀ a ∈ past, isReaderStep a = true) -> s.pump = .finning)
    (by
      intro past s a next held taken all
      have still := held fun b member => all b (List.mem_append_left _ member)
      have mine := all a (by simp)
      cases a <;> simp [isReaderStep] at mine <;> simp [threadStep] at taken <;>
        simp [← taken.2, still])
    [] t u steps (fun _ => finning) run
  exact kept reader

theorem finning_next (t u : Threads) (a : ThreadStep) (finning : t.pump = .finning)
    (pump : isReaderStep a = false) (taken : threadStep t a = some u) :
    ∃ ret, a = .sendFin ret := by
  cases a <;> simp [isReaderStep, threadStep, finning] at pump taken
  exact ⟨_, rfl⟩

theorem sendFin_after (schedule : List ThreadStep) (t : Threads)
    (run : exec threadStep initial schedule = some t) (first : List ThreadStep) (ret : Int)
    (second : List ThreadStep) (split : schedule = first ++ .sendFin ret :: second) :
    .setEof ∈ first ∧ .sendFin 0 ∉ first := by
  subst split
  obtain ⟨before, after, reached, taken, -⟩ := exec_split threadStep _ _ _ _ _ run
  have recorded := recorded_run first before reached
  have pending := recorded.waiting (sendFin_enabled before ret after taken).1
  refine ⟨recorded.eof.mp pending.1, fun earlier => ?_⟩
  have sent := recorded.latched.mpr earlier
  simp [pending.2] at sent

theorem fin_attempted_until_accepted (schedule : List ThreadStep) (t : Threads)
    (run : exec threadStep initial schedule = some t) :
    t.calls.filterMap finCall = schedule.filterMap finStep ∧
    (∀ first ret second, schedule = first ++ .sendFin ret :: second -> .setEof ∈ first) ∧
    (∀ first ret mid again second,
      schedule = first ++ .sendFin ret :: (mid ++ .sendFin again :: second) -> .drain ∈ mid) ∧
    (∀ first mid second u, schedule = first ++ .load :: (mid ++ second) -> .setEof ∈ first ->
      .sendFin 0 ∉ first -> (∀ a ∈ mid, isReaderStep a = true) ->
      exec threadStep initial (first ++ .load :: mid) = some u ->
      (∀ ret, (threadStep u (.sendFin ret)).isSome) ∧
      ∀ a rest, second = a :: rest -> isReaderStep a = false -> ∃ ret, a = .sendFin ret) ∧
    (∀ first second, schedule = first ++ .sendFin 0 :: second -> ∀ ret, .sendFin ret ∉ second) := by
  refine ⟨(recorded_run schedule t run).calls, ?_, ?_, ?_, ?_⟩
  · intro first ret second split
    exact (sendFin_after schedule t run first ret second split).1
  · intro first ret mid again second split
    subst split
    obtain ⟨before, after, -, called, later⟩ := exec_split threadStep _ _ _ _ _ run
    obtain ⟨second, last, reached, repeated, -⟩ := exec_split threadStep _ _ _ _ _ later
    by_contra none
    have idle := idle_until_drain after second mid (sendFin_enabled _ _ _ called).2 none reached
    have finning := (sendFin_enabled _ _ _ repeated).1
    simp [idle] at finning
  · intro first mid second u split eof unsent reader reached
    obtain ⟨before, after, started, loaded, waited⟩ := exec_split threadStep _ _ _ _ _ reached
    have recorded := recorded_run first before started
    have open_ : before.session.streamFinSent = false := by
      simpa using fun sent => unsent (recorded.latched.mp sent)
    have finning := finning_kept after u mid
      (load_finning before after (recorded.eof.mpr eof) open_ loaded) reader waited
    refine ⟨fun ret => by simp [threadStep, finning], ?_⟩
    rintro a rest rfl pump
    have whole : schedule = (first ++ .load :: mid) ++ a :: rest := by simp [split]
    obtain ⟨here, next, same, taken, -⟩ := exec_split threadStep _ _ _ _ _ (whole ▸ run)
    obtain rfl : u = here := by simpa [reached] using same
    exact finning_next u next a finning pump taken
  · intro first second split ret again
    obtain ⟨mid, rest, rfl⟩ := List.append_of_mem again
    have latest := (sendFin_after schedule t run (first ++ .sendFin 0 :: mid) ret rest
      (by simp [split])).2
    simp at latest

-- The stream is bound late: two pumps get -1, the third is accepted, the fourth is silent.
def lateBinding : List ThreadStep :=
  [.setEof, .drain, .load, .sendFin (-1), .drain, .load, .sendFin (-1), .drain, .load,
    .sendFin 0, .drain, .load]

theorem fin_attempted_late_binding :
    ∃ t, exec threadStep initial lateBinding = some t ∧
      t.calls.filterMap finCall = [-1, -1, 0] := by
  obtain ⟨t, run⟩ : ∃ t, exec threadStep initial lateBinding = some t := ⟨_, rfl⟩
  refine ⟨t, run, ?_⟩
  rw [(fin_attempted_until_accepted lateBinding t run).1]
  rfl

end WebTransportD.FinRetry
