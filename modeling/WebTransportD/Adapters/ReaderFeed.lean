import WebTransportD.Adapters.ChildOutput

set_option autoImplicit false

namespace WebTransportD.ReaderFeed

open WebTransportD.Frame Execution IncrementalParse ChildOutput

-- The reader on a pipe that still holds `pending` and whose writer has gone.
structure Feed where
  reader : Reader
  pending : List UInt8
  calls : List ReaderCall
  deriving DecidableEq, Repr

inductive FeedStep where
  | take (n : Nat)
  | eof
  | eintr
  | advance
  deriving DecidableEq, Repr

def Feed.make (wake : Bool) (f : Feed) (a : ReaderStep) (pending : List UInt8) : Option Feed :=
  (readerMain wake f.reader a).map fun made =>
    { reader := made.1, pending, calls := f.calls ++ made.2 }

-- read() hands over any non-empty part of what the pipe holds that fits the space offered.
def feedStep (wake : Bool) (f : Feed) : FeedStep -> Option Feed
  | .take n =>
      if 0 < n ∧ n ≤ f.pending.length ∧ n ≤ wtdReadBufSize - f.reader.buf.length then
        f.make wake (.read (.got (f.pending.take n))) (f.pending.drop n)
      else none
  | .eof => if f.pending = [] then f.make wake (.read (.got [])) [] else none
  | .eintr => f.make wake (.read (.failed true)) f.pending
  | .advance => f.make wake .advance f.pending

def feed (bytes : List UInt8) : Feed :=
  { reader := readerStart true, pending := bytes, calls := [] }

def FeedStep.interrupts : FeedStep -> Nat
  | .eintr => 1
  | _ => 0

theorem make_some {wake : Bool} {f : Feed} {a : ReaderStep} {pending : List UInt8} {g : Feed}
    (made : f.make wake a pending = some g) :
    ∃ calls, readerMain wake f.reader a = some (g.reader, calls) ∧ g.pending = pending ∧
      g.calls = f.calls ++ calls := by
  simp only [Feed.make, Option.map_eq_some_iff] at made
  obtain ⟨⟨reader, calls⟩, step, rfl⟩ := made
  exact ⟨calls, step, rfl, rfl⟩

theorem feedStep_reader (wake : Bool) (f : Feed) (a : FeedStep) (g : Feed)
    (taken : feedStep wake f a = some g) :
    ∃ b calls, readerMain wake f.reader b = some (g.reader, calls) ∧
      Supplies f.reader f.pending b g.pending ∧ g.calls = f.calls ++ calls ∧
      (b = .read (.failed true) -> a = .eintr) := by
  cases a with
  | take n =>
    simp only [feedStep] at taken
    split_ifs at taken with legal
    obtain ⟨calls, step, pending, log⟩ := make_some taken
    refine ⟨_, calls, step, ?_, log, by simp⟩
    have filled : f.pending.take n ≠ [] := by
      intro empty
      have length := congrArg List.length empty
      simp only [List.length_take, List.length_nil] at length
      omega
    refine ⟨by rw [pending, List.take_append_drop], ?_, fun empty => absurd empty filled⟩
    rw [List.length_take]
    omega
  | eof =>
    simp only [feedStep] at taken
    split_ifs at taken with ended
    obtain ⟨calls, step, pending, log⟩ := make_some taken
    exact ⟨_, calls, step, ⟨by rw [ended, pending]; rfl, by simp, fun _ => ended⟩, log, by simp⟩
  | eintr =>
    obtain ⟨calls, step, pending, log⟩ := make_some taken
    exact ⟨_, calls, step, ⟨rfl, pending⟩, log, fun _ => rfl⟩
  | advance =>
    obtain ⟨calls, step, pending, log⟩ := make_some taken
    exact ⟨_, calls, step, pending, log, by simp⟩

structure OnTrack (total : List ReaderCall) (f : Feed) : Prop where
  sound : f.reader.Sound
  calls : sessionCalls f.calls ++ f.reader.remaining f.pending = total

theorem feedStep_onTrack (wake : Bool) (total : List ReaderCall) (f : Feed) (a : FeedStep)
    (g : Feed) (track : OnTrack total f) (taken : feedStep wake f a = some g) :
    OnTrack total g := by
  obtain ⟨b, calls, step, supplied, log, -⟩ := feedStep_reader wake f a g taken
  have sound := readerMain_sound track.sound supplied step
  have here := readerMain_remaining track.sound supplied step
  refine ⟨sound, ?_⟩
  rw [log, sessionCalls_append, List.append_assoc, ← here]
  exact track.calls

def expectedCalls (bytes : List UInt8) : List ReaderCall :=
  frameOutputs bytes ++ [.onOutputEof]

theorem feed_onTrack (wake : Bool) (bytes : List UInt8) (schedule : List FeedStep) (t : Feed)
    (run : exec (feedStep wake) (feed bytes) schedule = some t) :
    OnTrack (expectedCalls bytes) t := by
  refine exec_invariant (feedStep wake) _ (feedStep_onTrack wake (expectedCalls bytes)) _ t schedule
    ?_ run
  exact ⟨⟨by simp [feed, readerStart], fun _ => wtdFrameDecode_nil⟩, rfl⟩

-- Reading counts twice for each byte, once for its read and once for its decoding.
def Feed.height (f : Feed) : Nat :=
  4 * f.pending.length + match f.reader.pc with
    | .reading => 2 * f.reader.buf.length + 3
    | .decoding => 2 * f.reader.buf.length + 4
    | .waking consumed => 2 * (f.reader.buf.drop consumed).length + 5
    | .done => 2
    | .eofWaking => 1
    | .exited => 0

theorem feedStep_height (wake : Bool) (f : Feed) (a : FeedStep) (g : Feed)
    (taken : feedStep wake f a = some g) : g.height + 1 ≤ f.height + a.interrupts := by
  obtain ⟨b, calls, step, supplied, -, interrupted⟩ := feedStep_reader wake f a g taken
  rcases readerMain_cases wake f.reader b g.reader calls step with
    ⟨rfl, pc, space, next, -⟩ | ⟨chunk, rfl, filled, pc, space, next, -⟩ |
    ⟨rfl, pc, space, next, -⟩ | ⟨rfl, pc, space, next, -⟩ | ⟨rfl, pc, full, next, -⟩ |
    ⟨rfl, pc, incomplete, next, -⟩ | ⟨e, rfl, pc, failed, settled, next, -⟩ |
    ⟨d, rfl, pc, ok, next, -⟩ | ⟨consumed, rfl, pc, next, -⟩ | ⟨rfl, pc, next, -⟩ |
    ⟨rfl, pc, next, -⟩
  all_goals simp only [Feed.height, next, pc]
  · have same : f.pending = g.pending := supplied.1
    rw [same]
    omega
  · have positive := List.length_pos_of_ne_nil filled
    have split : f.pending.length = chunk.length + g.pending.length := by
      rw [supplied.1, List.length_append]
    simp only [List.length_append]
    omega
  · rw [interrupted rfl, supplied.2]
    simp only [FeedStep.interrupts]
    omega
  · exact absurd supplied.1 (by simp)
  · rw [show g.pending = f.pending from supplied]
    omega
  · rw [show g.pending = f.pending from supplied]
    omega
  · rw [show g.pending = f.pending from supplied]
    omega
  · have positive := consumed_pos _ d ok
    have within := consumed_le _ d ok
    rw [show g.pending = f.pending from supplied]
    simp only [List.length_drop]
    omega
  · rw [show g.pending = f.pending from supplied]
    omega
  · rw [show g.pending = f.pending from supplied]
    omega
  · rw [show g.pending = f.pending from supplied]
    omega

theorem feed_progress (wake : Bool) (f : Feed) (running : f.reader.pc ≠ .exited) :
    ∃ a g, a ≠ .eintr ∧ feedStep wake f a = some g := by
  have moves := fun a call pending (same : feedStep wake f a = f.make wake call pending) =>
    enabled_by_part (feedStep wake) (· ≠ .eintr) f a (readerMain wake f.reader call) _ same
  have advances := moves .advance .advance f.pending rfl (by simp)
  cases pc : f.reader.pc with
  | reading =>
    by_cases full : wtdReadBufSize ≤ f.reader.buf.length
    · exact advances (by simp [readerMain, pc, full])
    by_cases empty : f.pending = []
    · exact moves .eof (.read (.got [])) [] (by rw [feedStep, if_pos empty]) (by simp)
        (by simp [readerMain, pc, full])
    · have positive := List.length_pos_of_ne_nil empty
      have legal : 0 < 1 ∧ 1 ≤ f.pending.length ∧ 1 ≤ wtdReadBufSize - f.reader.buf.length := by
        omega
      exact moves (.take 1) (.read (.got (f.pending.take 1))) (f.pending.drop 1)
        (by rw [feedStep, if_pos legal]) (by simp) (by simp [readerMain, pc, full, empty])
  | decoding =>
    apply advances
    simp only [readerMain, pc]
    split <;> rfl
  | waking consumed => exact advances (by simp [readerMain, pc])
  | done => exact advances (by simp [readerMain, pc])
  | eofWaking => exact advances (by simp [readerMain, pc])
  | exited => exact absurd pc running

theorem feed_completes (wake : Bool) (bytes : List UInt8) :
    ∃ schedule t, exec (feedStep wake) (feed bytes) schedule = some t ∧ t.reader.pc = .exited := by
  refine exec_completes (feedStep wake) Feed.height (fun f => f.reader.pc = .exited) ?_ _
  intro f running
  obtain ⟨a, g, uninterrupted, taken⟩ := feed_progress wake f running
  have lower := feedStep_height wake f a g taken
  have free : a.interrupts = 0 := by
    cases a <;> simp_all [FeedStep.interrupts]
  exact ⟨a, g, taken, by omega⟩

structure ReaderYields (wake : Bool) (bytes : List UInt8) (expected : List ReaderCall) : Prop where
  room : ∀ schedule t, exec (feedStep wake) (feed bytes) schedule = some t ->
    t.reader.buf.length ≤ wtdReadBufSize
  bounded : ∀ schedule t, exec (feedStep wake) (feed bytes) schedule = some t ->
    schedule.length ≤ 4 * bytes.length + 3 + (schedule.map FeedStep.interrupts).sum
  progress : ∀ schedule t, exec (feedStep wake) (feed bytes) schedule = some t ->
    t.reader.pc ≠ .exited -> ∃ a next, a ≠ .eintr ∧ feedStep wake t a = some next
  soFar : ∀ schedule t, exec (feedStep wake) (feed bytes) schedule = some t ->
    sessionCalls t.calls <+: expected
  result : ∀ schedule t, exec (feedStep wake) (feed bytes) schedule = some t ->
    t.reader.pc = .exited -> sessionCalls t.calls = expected

theorem reader_yields (wake : Bool) (bytes : List UInt8) :
    ReaderYields wake bytes (expectedCalls bytes) where
  room := fun schedule t run => (feed_onTrack wake bytes schedule t run).sound.room
  bounded := by
    intro schedule t run
    have steps := exec_measure (feedStep wake) Feed.height FeedStep.interrupts
      (feedStep_height wake) _ t schedule run
    have start : (feed bytes).height = 4 * bytes.length + 3 := rfl
    omega
  progress := fun _ t _ running => feed_progress wake t running
  soFar := fun schedule t run => ⟨_, (feed_onTrack wake bytes schedule t run).calls⟩
  result := by
    intro schedule t run exited
    have track := (feed_onTrack wake bytes schedule t run).calls
    simpa [Reader.remaining, exited] using track

theorem yields_unique (wake : Bool) (bytes : List UInt8) (one other : List ReaderCall)
    (first : ReaderYields wake bytes one) (second : ReaderYields wake bytes other) :
    one = other := by
  obtain ⟨schedule, t, run, exited⟩ := feed_completes wake bytes
  rw [← first.result schedule t run exited, second.result schedule t run exited]

theorem reader_insensitive_to_chunking (wake : Bool) (bytes : List UInt8) :
    ReaderYields wake bytes (frameOutputs bytes ++ [.onOutputEof]) :=
  reader_yields wake bytes

structure CompleteFrame where
  bytes : List UInt8
  decoded : Decoded
  accepted : wtdFrameDecode bytes = .ok decoded
  whole : decoded.consumed = bytes.length

def CompleteFrame.call (f : CompleteFrame) : ReaderCall :=
  .onOutput f.decoded.flag (f.decoded.bytes f.bytes)

theorem frameOutputs_frames (frames : List CompleteFrame) :
    frameOutputs (frames.flatMap CompleteFrame.bytes) =
      (frames.takeWhile fun f => decide (f.bytes.length ≤ wtdReadBufSize)).map
        CompleteFrame.call := by
  have each : ∀ f : CompleteFrame, parseFrame f.bytes =
      .item (f.decoded.flag, f.decoded.bytes f.bytes) f.bytes.length := by
    intro f
    rw [parseFrame_ok _ _ f.accepted, f.whole]
  rw [frameOutputs, items_flatMap frameParser _ _ _ frames each, List.map_map]
  rfl

theorem frames_yield (wake : Bool) (frames : List CompleteFrame) :
    ReaderYields wake (frames.flatMap CompleteFrame.bytes)
      ((frames.takeWhile fun f => decide (f.bytes.length ≤ wtdReadBufSize)).map
        CompleteFrame.call ++ [.onOutputEof]) := by
  rw [← frameOutputs_frames]
  exact reader_yields wake _

theorem frames_delivered_iff_fit (wake : Bool) (frames : List CompleteFrame) :
    ReaderYields wake (frames.flatMap CompleteFrame.bytes)
        (frames.map CompleteFrame.call ++ [.onOutputEof]) ↔
      ∀ f ∈ frames, f.bytes.length ≤ wtdReadBufSize := by
  have actual := frames_yield wake frames
  constructor
  · intro delivered
    have same := List.append_cancel_right (yields_unique wake _ _ _ actual delivered)
    have all : frames.takeWhile (fun f => decide (f.bytes.length ≤ wtdReadBufSize)) = frames :=
      (List.takeWhile_prefix _).eq_of_length (by simpa using congrArg List.length same)
    simpa using List.takeWhile_eq_self_iff.mp all
  · intro fit
    rwa [List.takeWhile_eq_self_iff.mpr (by simpa using fit)] at actual

-- A payload of the largest size behind the widest length field.
def widestFrame : CompleteFrame where
  bytes := frameBytes 3 wtdFrameFlagReliable (List.replicate wtdFrameMaxPayload 0)
  decoded :=
    { consumed := 1 + 2 ^ 3 + wtdFrameMaxPayload, flag := wtdFrameFlagReliable
      payload := 1 + 2 ^ 3, payloadLen := wtdFrameMaxPayload }
  accepted := by
    have decoded := wtdFrameDecode_frame 3 wtdFrameFlagReliable
      (List.replicate wtdFrameMaxPayload 0) [] (.inl rfl) (by simp) (by decide)
      (by rw [List.length_replicate]; decide)
    simpa only [List.append_nil, length_frameBytes, List.length_replicate] using decoded
  whole := by simp only [length_frameBytes, List.length_replicate]

theorem length_widestFrame : widestFrame.bytes.length = wtdReadBufSize + 4 := by
  simp only [widestFrame, length_frameBytes, List.length_replicate, wtdReadBufSize]
  omega

theorem widest_frame_stops_reader :
    ReaderYields true ([widestFrame].flatMap CompleteFrame.bytes) [.onOutputEof] ∧
      ¬ ReaderYields true ([widestFrame].flatMap CompleteFrame.bytes)
        ([widestFrame].map CompleteFrame.call ++ [.onOutputEof]) := by
  have actual := frames_yield true [widestFrame]
  have large : decide (widestFrame.bytes.length ≤ wtdReadBufSize) = false := by
    rw [length_widestFrame]
    simp
  rw [List.takeWhile_cons, large] at actual
  refine ⟨actual, ?_⟩
  intro delivered
  have same := congrArg List.length (yields_unique true _ _ _ actual delivered)
  simp at same

end WebTransportD.ReaderFeed
