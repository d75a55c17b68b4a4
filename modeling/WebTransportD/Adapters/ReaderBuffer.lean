import WebTransportD.Shared.ReadBuffer
import WebTransportD.Shared.Simulation
import WebTransportD.Adapters.ReaderFeed

set_option autoImplicit false

namespace WebTransportD.ReaderBuffer

open WebTransportD.Frame Memory Execution ReadBuffer ChildOutput ReaderFeed

structure BlockReader where
  pc : ReaderPc
  buffer : Buffer UInt8

-- used - consumed on size_t.
def sizeSub (used consumed : Nat) : Nat :=
  sizeT (used + 2 ^ 64 - consumed)

def touchAll (b : Buffer UInt8) (reads : List Nat) : Buffer UInt8 :=
  reads.foldl (fun b i => b.touch (i + 1)) b

def decodeIn (b : Buffer UInt8) : Buffer UInt8 × Except FrameStatus Decoded :=
  let decoded := wtdFrameDecodeAccess b.content
  (touchAll b decoded.reads, decoded.value)

def blockReaderMain (wake : Bool) (r : BlockReader) :
    ReaderStep -> Option (BlockReader × List ReaderCall)
  | .read result =>
      match r.pc with
      | .reading =>
          if r.buffer.used ≥ wtdReadBufSize then none
          else
            -- read() may write to all of the space it is offered.
            let buffer := r.buffer.touch (r.buffer.used + sizeSub wtdReadBufSize r.buffer.used)
            match result with
            | .got chunk =>
                if chunk.length = 0 then some ({ pc := .done, buffer }, [])
                else some ({ pc := .decoding, buffer := buffer.receive chunk }, [])
            | .failed eintr =>
                if eintr then some ({ r with buffer }, []) else some ({ pc := .done, buffer }, [])
      | _ => none
  | .advance =>
      match r.pc with
      | .reading =>
          if r.buffer.used ≥ wtdReadBufSize then some ({ r with pc := .done }, []) else none
      | .decoding =>
          match decodeIn r.buffer with
          | (buffer, .error .incomplete) => some ({ pc := .reading, buffer }, [])
          | (buffer, .error _) => some ({ pc := .done, buffer }, [])
          | (buffer, .ok d) =>
              let payload := slice buffer.block d.payload d.payloadLen
              some ({ pc := .waking d.consumed, buffer := buffer.touch (d.payload + d.payloadLen) },
                [.onOutput d.flag payload])
      | .waking consumed =>
          let rest := sizeSub r.buffer.used consumed
          some ({ pc := .decoding, buffer := r.buffer.moveDown consumed rest }, wakeCalls wake)
      | .done => some ({ r with pc := .eofWaking }, [.onOutputEof])
      | .eofWaking => some ({ r with pc := .exited }, wakeCalls wake)
      | .exited => none

def BlockReader.view (r : BlockReader) : Reader :=
  { pc := r.pc, buf := r.buffer.content }

structure BlockReader.Inside (r : BlockReader) : Prop where
  used : r.buffer.used ≤ wtdReadBufSize
  reach : r.buffer.reach ≤ wtdReadBufSize
  consumed : ∀ n, r.pc = .waking n -> n ≤ r.buffer.used

def Fits (r : BlockReader) : ReaderStep -> Prop
  | .read (.got chunk) => chunk.length ≤ wtdReadBufSize - r.buffer.used
  | _ => True

theorem sizeSub_eq (used consumed : Nat) (enough : consumed ≤ used)
    (small : used ≤ wtdReadBufSize) : sizeSub used consumed = used - consumed := by
  have bound : wtdReadBufSize < 2 ^ 64 := by decide
  rw [sizeSub, sizeT]
  omega

theorem touchAll_filled (b : Buffer UInt8) (reads : List Nat) :
    (touchAll b reads).block = b.block ∧ (touchAll b reads).used = b.used := by
  induction reads generalizing b with
  | nil => exact ⟨rfl, rfl⟩
  | cons i rest ih => exact ih (b.touch (i + 1))

theorem touchAll_reach (b : Buffer UInt8) (reads : List Nat) (cap : Nat)
    (below : ∀ i ∈ reads, i < cap) (reach : b.reach ≤ cap) : (touchAll b reads).reach ≤ cap := by
  induction reads generalizing b with
  | nil => exact reach
  | cons i rest ih =>
    have first : i < cap := below i (by simp)
    exact ih (b.touch (i + 1)) (fun j member => below j (by simp [member]))
      (Nat.max_le.mpr ⟨reach, first⟩)

theorem decoded_inside (buf : List UInt8) (d : Decoded) (ok : wtdFrameDecode buf = .ok d) :
    d.payload + d.payloadLen ≤ d.consumed ∧ d.consumed ≤ buf.length := by
  refine ⟨?_, consumed_le buf d ok⟩
  obtain ⟨form, flag, payload, rest, rfl, -, -, -, -, rfl⟩ := wtdFrameDecode_ok_inv buf d ok
  simp only [length_frameBytes]
  omega

theorem decodeIn_spec (b : Buffer UInt8) (used : b.used ≤ wtdReadBufSize)
    (reach : b.reach ≤ wtdReadBufSize) :
    ∃ after, decodeIn b = (after, wtdFrameDecode b.content) ∧ after.block = b.block ∧
      after.used = b.used ∧ after.reach ≤ wtdReadBufSize := by
  obtain ⟨block, filled⟩ := touchAll_filled b (wtdFrameDecodeAccess b.content).reads
  refine ⟨_, rfl, block, filled, touchAll_reach _ _ _ (fun i read => ?_) reach⟩
  have bound := wtdFrameDecodeAccess_reads _ i read
  rw [length_content] at bound
  omega

theorem blockReader_decodes (wake : Bool) (r : BlockReader) (inside : r.Inside)
    (pc : r.pc = .decoding) :
    ∃ next calls, blockReaderMain wake r .advance = some (next, calls) ∧
      readerMain wake r.view .advance = some (next.view, calls) ∧ next.Inside := by
  obtain ⟨buffer, made, block, used, reach⟩ := decodeIn_spec r.buffer inside.used inside.reach
  have content : buffer.content = r.buffer.content := by
    rw [Buffer.content, block, used, Buffer.content]
  have room : buffer.used ≤ wtdReadBufSize := used ▸ inside.used
  cases decoded : wtdFrameDecode r.buffer.content with
  | error e =>
    rw [decoded] at made
    by_cases waiting : e = .incomplete
    · refine ⟨{ pc := .reading, buffer }, [], ?_, ?_, ⟨room, reach, by simp⟩⟩
      · simp [blockReaderMain, pc, made, waiting]
      · simp [readerMain, BlockReader.view, pc, decoded, waiting, content]
    · refine ⟨{ pc := .done, buffer }, [], ?_, ?_, ⟨room, reach, by simp⟩⟩
      · simp only [blockReaderMain, pc, made]
      · simp only [readerMain, BlockReader.view, pc, decoded, content]
  | ok d =>
    rw [decoded] at made
    obtain ⟨within, whole⟩ := decoded_inside _ d decoded
    rw [length_content] at whole
    have payload : slice buffer.block d.payload d.payloadLen = d.bytes r.buffer.content := by
      rw [block, slice_content r.buffer _ _ (within.trans whole)]
      rfl
    refine ⟨{ pc := .waking d.consumed, buffer := buffer.touch (d.payload + d.payloadLen) },
      [.onOutput d.flag (d.bytes r.buffer.content)], ?_, ?_, ⟨room, ?_, ?_⟩⟩
    · simp only [blockReaderMain, pc, made, payload]
    · simp only [readerMain, BlockReader.view, pc, decoded, content_touch, content]
    · have bound := inside.used
      exact Nat.max_le.mpr ⟨reach, by omega⟩
    · intro n same
      obtain rfl : d.consumed = n := by simpa using same
      exact used ▸ whole

theorem blockReader_reads (wake : Bool) (r : BlockReader) (result : ReadResult)
    (inside : r.Inside) (fits : Fits r (.read result)) (pc : r.pc = .reading)
    (space : r.buffer.used < wtdReadBufSize) :
    ∃ next, blockReaderMain wake r (.read result) = some (next, []) ∧
      readerMain wake r.view (.read result) = some (next.view, []) ∧ next.Inside := by
  have offered : r.buffer.used + sizeSub wtdReadBufSize r.buffer.used = wtdReadBufSize := by
    rw [sizeSub_eq _ _ space.le le_rfl]
    omega
  have reach : (r.buffer.touch wtdReadBufSize).reach ≤ wtdReadBufSize :=
    Nat.max_le.mpr ⟨inside.reach, le_rfl⟩
  let buffer := r.buffer.touch wtdReadBufSize
  cases result with
  | failed eintr =>
    refine ⟨{ pc := if eintr then .reading else .done, buffer }, ?_, ?_, ⟨inside.used, reach, ?_⟩⟩
    · cases eintr <;> simp [blockReaderMain, pc, space, offered, buffer]
    · cases eintr <;> simp [readerMain, BlockReader.view, buffer, pc, space]
    · cases eintr <;> simp
  | got chunk =>
    cases chunk with
    | nil =>
      refine ⟨{ pc := .done, buffer }, ?_, ?_, ⟨inside.used, reach, by simp⟩⟩
      · simp [blockReaderMain, pc, space, offered, buffer]
      · simp [readerMain, BlockReader.view, buffer, pc, space]
    | cons b rest =>
      have bound : (b :: rest).length ≤ wtdReadBufSize - r.buffer.used := fits
      have filled : r.buffer.used + (b :: rest).length ≤ wtdReadBufSize := by omega
      refine ⟨{ pc := .decoding, buffer := buffer.receive (b :: rest) }, ?_, ?_,
        ⟨filled, Nat.max_le.mpr ⟨reach, filled⟩, by simp⟩⟩
      · simp [blockReaderMain, pc, space, offered, buffer]
      · simp [readerMain, BlockReader.view, buffer, content_receive, pc, space]

theorem blockReader_moves (wake : Bool) (r : BlockReader) (consumed : Nat) (inside : r.Inside)
    (pc : r.pc = .waking consumed) :
    ∃ next, blockReaderMain wake r .advance = some (next, wakeCalls wake) ∧
      readerMain wake r.view .advance = some (next.view, wakeCalls wake) ∧ next.Inside := by
  have enough := inside.consumed consumed pc
  have rest := sizeSub_eq _ _ enough inside.used
  have whole : consumed + (r.buffer.used - consumed) = r.buffer.used := by omega
  have bound := inside.used
  refine ⟨{ pc := .decoding, buffer := r.buffer.moveDown consumed (r.buffer.used - consumed) },
    ?_, ?_, ⟨?_, ?_, by simp⟩⟩
  · simp only [blockReaderMain, pc, rest]
  · simp only [readerMain, BlockReader.view, pc, content_moveDown _ _ _ whole]
  · show r.buffer.used - consumed ≤ wtdReadBufSize
    omega
  · exact Nat.max_le.mpr ⟨inside.reach, by omega⟩

theorem blockReaderMain_step (wake : Bool) (r : BlockReader) (a : ReaderStep) (inside : r.Inside)
    (fits : Fits r a) :
    (blockReaderMain wake r a = none ∧ readerMain wake r.view a = none) ∨
    ∃ next calls, blockReaderMain wake r a = some (next, calls) ∧
      readerMain wake r.view a = some (next.view, calls) ∧ next.Inside := by
  have turned : ∀ pc, (∀ n, pc ≠ .waking n) -> BlockReader.Inside { r with pc } :=
    fun pc other => ⟨inside.used, inside.reach, fun n same => absurd same (other n)⟩
  cases a with
  | read result =>
    by_cases pc : r.pc = .reading
    · by_cases space : r.buffer.used < wtdReadBufSize
      · obtain ⟨next, made, seen, kept⟩ := blockReader_reads wake r result inside fits pc space
        exact .inr ⟨next, [], made, seen, kept⟩
      · left
        constructor
        · simp [blockReaderMain, pc, Nat.not_lt.mp space]
        · simp [readerMain, BlockReader.view, pc, Nat.not_lt.mp space]
    · left
      cases other : r.pc <;> simp_all [blockReaderMain, readerMain, BlockReader.view]
  | advance =>
    cases pc : r.pc with
    | reading =>
      by_cases space : r.buffer.used < wtdReadBufSize
      · left
        constructor
        · simp [blockReaderMain, pc, space]
        · simp [readerMain, BlockReader.view, pc, space]
      · refine .inr ⟨{ r with pc := .done }, [], ?_, ?_, turned _ (by simp)⟩
        · simp [blockReaderMain, pc, Nat.not_lt.mp space]
        · simp [readerMain, BlockReader.view, pc, Nat.not_lt.mp space]
    | decoding => exact .inr (blockReader_decodes wake r inside pc)
    | waking consumed =>
      obtain ⟨next, made, seen, kept⟩ := blockReader_moves wake r consumed inside pc
      exact .inr ⟨next, _, made, seen, kept⟩
    | done =>
      refine .inr ⟨{ r with pc := .eofWaking }, [.onOutputEof], ?_, ?_, turned _ (by simp)⟩
      · simp only [blockReaderMain, pc]
      · simp only [readerMain, BlockReader.view, pc]
    | eofWaking =>
      refine .inr ⟨{ r with pc := .exited }, wakeCalls wake, ?_, ?_, turned _ (by simp)⟩
      · simp only [blockReaderMain, pc]
      · simp only [readerMain, BlockReader.view, pc]
    | exited =>
      left
      constructor
      · simp only [blockReaderMain, pc]
      · simp only [readerMain, BlockReader.view, pc]

structure BlockFeed where
  reader : BlockReader
  pending : List UInt8
  calls : List ReaderCall

def BlockFeed.view (f : BlockFeed) : Feed :=
  { reader := f.reader.view, pending := f.pending, calls := f.calls }

def BlockFeed.Inside (f : BlockFeed) : Prop :=
  f.reader.Inside

def BlockFeed.make (wake : Bool) (f : BlockFeed) (a : ReaderStep) (pending : List UInt8) :
    Option BlockFeed :=
  (blockReaderMain wake f.reader a).map fun made =>
    { reader := made.1, pending, calls := f.calls ++ made.2 }

def blockFeedStep (wake : Bool) (f : BlockFeed) : FeedStep -> Option BlockFeed
  | .take n =>
      if 0 < n ∧ n ≤ f.pending.length ∧ n ≤ wtdReadBufSize - f.reader.buffer.used then
        f.make wake (.read (.got (f.pending.take n))) (f.pending.drop n)
      else none
  | .eof => if f.pending = [] then f.make wake (.read (.got [])) [] else none
  | .eintr => f.make wake (.read (.failed true)) f.pending
  | .advance => f.make wake .advance f.pending

def blockFeed (block : Nat -> UInt8) (bytes : List UInt8) : BlockFeed :=
  { reader := { pc := .reading, buffer := { block, used := 0, reach := 0 } }
    pending := bytes
    calls := [] }

theorem make_alike (wake : Bool) (f : BlockFeed) (a : ReaderStep) (pending : List UInt8)
    (inside : f.Inside) (fits : Fits f.reader a) :
    (f.make wake a pending).map BlockFeed.view = f.view.make wake a pending ∧
      ∀ g, f.make wake a pending = some g -> g.Inside := by
  rcases blockReaderMain_step wake f.reader a inside fits with ⟨none, seen⟩ | moved
  · simp [BlockFeed.make, Feed.make, BlockFeed.view, none, seen]
  · obtain ⟨next, calls, made, seen, kept⟩ := moved
    refine ⟨by simp [BlockFeed.make, Feed.make, BlockFeed.view, made, seen], fun g taken => ?_⟩
    obtain rfl : _ = g := by simpa [BlockFeed.make, made] using taken
    exact kept

theorem blockFeedStep_alike (wake : Bool) (f : BlockFeed) (a : FeedStep)
    (inside : f.Inside) :
    (blockFeedStep wake f a).map BlockFeed.view = feedStep wake f.view a ∧
      ∀ g, blockFeedStep wake f a = some g -> g.Inside := by
  have size : f.view.reader.buf.length = f.reader.buffer.used := length_content _
  have pending : f.view.pending = f.pending := rfl
  cases a with
  | take n =>
    simp only [blockFeedStep, feedStep, size, pending]
    split_ifs with legal
    · refine make_alike wake f _ _ inside ?_
      show (f.pending.take n).length ≤ _
      rw [List.length_take]
      omega
    · simp
  | eof =>
    simp only [blockFeedStep, feedStep, pending]
    split_ifs with ended
    · exact make_alike wake f _ _ inside (Nat.zero_le _)
    · simp
  | eintr => exact make_alike wake f _ _ inside trivial
  | advance => exact make_alike wake f _ _ inside trivial

theorem reader_stays_in_buffer (wake : Bool) (block : Nat -> UInt8) (bytes : List UInt8)
    (schedule : List FeedStep) :
    (exec (blockFeedStep wake) (blockFeed block bytes) schedule).map BlockFeed.view =
        exec (feedStep wake) (feed bytes) schedule ∧
      ∀ t, exec (blockFeedStep wake) (blockFeed block bytes) schedule = some t ->
        t.reader.buffer.used ≤ wtdReadBufSize ∧ t.reader.buffer.reach ≤ wtdReadBufSize := by
  have start : (blockFeed block bytes).Inside :=
    ⟨Nat.zero_le _, Nat.zero_le _, by simp [blockFeed]⟩
  have kept : ∀ f a g, BlockFeed.Inside f -> blockFeedStep wake f a = some g -> g.Inside :=
    fun f a g inside taken => (blockFeedStep_alike wake f a inside).2 g taken
  constructor
  · exact Simulation.exec_view kept (fun f a inside => (blockFeedStep_alike wake f a inside).1) _
      schedule start
  · intro t run
    have inside := exec_invariant (blockFeedStep wake) BlockFeed.Inside kept _ t schedule start run
    exact ⟨inside.used, inside.reach⟩

end WebTransportD.ReaderBuffer
