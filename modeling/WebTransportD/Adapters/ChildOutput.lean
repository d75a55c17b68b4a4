import WebTransportD.Core.FrameRoundTrip
import WebTransportD.Shared.Execution
import WebTransportD.Shared.IncrementalParse

set_option autoImplicit false

namespace WebTransportD.ChildOutput

open WebTransportD.Frame Execution IncrementalParse

def wtdReadBufSize : Nat := 1 + 4 + wtdFrameMaxPayload

inductive ReadResult where
  | got (chunk : List UInt8)
  | failed (eintr : Bool)
  deriving DecidableEq, Repr

inductive ReaderPc where
  | reading
  | decoding
  | waking (consumed : Nat)
  | done
  | eofWaking
  | exited
  deriving DecidableEq, Repr

-- `buf` holds the first `used` bytes of the block.
structure Reader where
  pc : ReaderPc
  buf : List UInt8
  deriving DecidableEq, Repr

inductive ReaderCall where
  | onOutput (flag : UInt8) (payload : List UInt8)
  | onOutputEof
  | wake
  deriving DecidableEq, Repr

inductive ReaderStep where
  | read (result : ReadResult)
  | advance
  deriving DecidableEq, Repr

-- Without its buffer the reader goes straight to the calls that follow the loop.
def readerStart (malloc : Bool) : Reader :=
  { pc := if malloc then .reading else .done, buf := [] }

def wakeCalls (wake : Bool) : List ReaderCall :=
  if wake then [.wake] else []

def readerMain (wake : Bool) (r : Reader) : ReaderStep -> Option (Reader × List ReaderCall)
  | .read result =>
      match r.pc with
      | .reading =>
          if wtdReadBufSize ≤ r.buf.length then none
          else match result with
            | .got chunk =>
                if chunk.length = 0 then some ({ r with pc := .done }, [])
                else some ({ pc := .decoding, buf := r.buf ++ chunk }, [])
            | .failed eintr =>
                if eintr then some (r, []) else some ({ r with pc := .done }, [])
      | _ => none
  | .advance =>
      match r.pc with
      | .reading =>
          if wtdReadBufSize ≤ r.buf.length then some ({ r with pc := .done }, []) else none
      | .decoding =>
          match wtdFrameDecode r.buf with
          | .error .incomplete => some ({ r with pc := .reading }, [])
          | .error _ => some ({ r with pc := .done }, [])
          | .ok d =>
              some ({ r with pc := .waking d.consumed }, [.onOutput d.flag (d.bytes r.buf)])
      | .waking consumed =>
          some ({ pc := .decoding, buf := r.buf.drop consumed }, wakeCalls wake)
      | .done => some ({ r with pc := .eofWaking }, [.onOutputEof])
      | .eofWaking => some ({ r with pc := .exited }, wakeCalls wake)
      | .exited => none

theorem readerMain_cases (wake : Bool) (r : Reader) (a : ReaderStep) (next : Reader)
    (calls : List ReaderCall) (taken : readerMain wake r a = some (next, calls)) :
    (a = .read (.got []) ∧ r.pc = .reading ∧ r.buf.length < wtdReadBufSize ∧
      next = { r with pc := .done } ∧ calls = []) ∨
    (∃ chunk, a = .read (.got chunk) ∧ chunk ≠ [] ∧ r.pc = .reading ∧
      r.buf.length < wtdReadBufSize ∧ next = { pc := .decoding, buf := r.buf ++ chunk } ∧
      calls = []) ∨
    (a = .read (.failed true) ∧ r.pc = .reading ∧ r.buf.length < wtdReadBufSize ∧ next = r ∧
      calls = []) ∨
    (a = .read (.failed false) ∧ r.pc = .reading ∧ r.buf.length < wtdReadBufSize ∧
      next = { r with pc := .done } ∧ calls = []) ∨
    (a = .advance ∧ r.pc = .reading ∧ wtdReadBufSize ≤ r.buf.length ∧
      next = { r with pc := .done } ∧ calls = []) ∨
    (a = .advance ∧ r.pc = .decoding ∧ wtdFrameDecode r.buf = .error .incomplete ∧
      next = { r with pc := .reading } ∧ calls = []) ∨
    (∃ e, a = .advance ∧ r.pc = .decoding ∧ wtdFrameDecode r.buf = .error e ∧ e ≠ .incomplete ∧
      next = { r with pc := .done } ∧ calls = []) ∨
    (∃ d, a = .advance ∧ r.pc = .decoding ∧ wtdFrameDecode r.buf = .ok d ∧
      next = { r with pc := .waking d.consumed } ∧
      calls = [.onOutput d.flag (d.bytes r.buf)]) ∨
    (∃ consumed, a = .advance ∧ r.pc = .waking consumed ∧
      next = { pc := .decoding, buf := r.buf.drop consumed } ∧ calls = wakeCalls wake) ∨
    (a = .advance ∧ r.pc = .done ∧ next = { r with pc := .eofWaking } ∧
      calls = [.onOutputEof]) ∨
    (a = .advance ∧ r.pc = .eofWaking ∧ next = { r with pc := .exited } ∧
      calls = wakeCalls wake) := by
  cases a with
  | read result =>
    cases pc : r.pc <;> simp only [readerMain, pc, reduceCtorEq] at taken
    split_ifs at taken with full
    have space : r.buf.length < wtdReadBufSize := by omega
    cases result with
    | got chunk =>
      cases chunk with
      | nil => simp_all
      | cons b rest => simp_all
    | failed eintr => cases eintr <;> simp_all
  | advance =>
    cases pc : r.pc with
    | reading =>
      simp only [readerMain, pc] at taken
      split_ifs at taken with full
      simp_all
    | decoding =>
      simp only [readerMain, pc] at taken
      split at taken <;> simp_all
    | waking consumed => simp_all [readerMain]
    | done => simp_all [readerMain]
    | eofWaking => simp_all [readerMain]
    | exited => simp [readerMain, pc] at taken

def parseFrame (buf : List UInt8) : Verdict (UInt8 × List UInt8) :=
  match wtdFrameDecode buf with
  | .ok d => .item (d.flag, d.bytes buf) d.consumed
  | .error .incomplete => .more
  | .error _ => .bad

theorem parseFrame_ok (buf : List UInt8) (d : Decoded) (ok : wtdFrameDecode buf = .ok d) :
    parseFrame buf = .item (d.flag, d.bytes buf) d.consumed := by
  simp [parseFrame, ok]

theorem parseFrame_incomplete (buf : List UInt8) :
    wtdFrameDecode buf = .error .incomplete ↔ parseFrame buf = .more := by
  unfold parseFrame
  split <;> simp_all

theorem parseFrame_error (buf : List UInt8) (e : FrameStatus) (settled : e ≠ .incomplete)
    (failed : wtdFrameDecode buf = .error e) : parseFrame buf = .bad := by
  unfold parseFrame
  split <;> simp_all

theorem parseFrame_item (buf : List UInt8) (value : UInt8 × List UInt8) (size : Nat)
    (item : parseFrame buf = .item value size) :
    ∃ d, wtdFrameDecode buf = .ok d ∧ value = (d.flag, d.bytes buf) ∧ size = d.consumed := by
  unfold parseFrame at item
  split at item <;> simp_all

def frameParser : StableParser UInt8 (UInt8 × List UInt8) where
  parse := parseFrame
  item_pos := by
    intro buf value size item
    obtain ⟨d, ok, -, rfl⟩ := parseFrame_item buf value size item
    exact consumed_pos buf d ok
  item_le := by
    intro buf value size item
    obtain ⟨d, ok, -, rfl⟩ := parseFrame_item buf value size item
    exact consumed_le buf d ok
  item_exact := by
    intro buf value size item
    obtain ⟨d, ok, rfl, rfl⟩ := parseFrame_item buf value size item
    obtain ⟨form, flag, payload, rest, rfl, valid, small, known, fits, rfl⟩ :=
      wtdFrameDecode_ok_inv buf d ok
    have alone := wtdFrameDecode_frame form flag payload [] valid small known fits
    have same := frame_slice form flag payload []
    rw [List.append_nil] at alone same
    rw [List.take_left, parseFrame_ok _ _ alone]
    simp only [Decoded.bytes, same, frame_slice]
  stable := by
    intro buf ext settled
    rw [ne_eq, ← parseFrame_incomplete] at settled
    have same := wtdFrameDecode_stable buf ext settled
    cases result : wtdFrameDecode buf with
    | error e =>
      have final : e ≠ .incomplete := by
        rintro rfl
        exact settled result
      rw [parseFrame_error _ e final result, parseFrame_error _ e final (same.trans result)]
    | ok d =>
      rw [parseFrame_ok _ d result, parseFrame_ok _ d (same.trans result),
        wtdFrameDecode_bytes_stable buf ext d result]

def frameOutputs (bytes : List UInt8) : List ReaderCall :=
  (frameParser.items wtdReadBufSize bytes).map fun frame => .onOutput frame.1 frame.2

def sessionCalls (calls : List ReaderCall) : List ReaderCall :=
  calls.filter fun call => call ≠ .wake

@[simp] theorem sessionCalls_append (first second : List ReaderCall) :
    sessionCalls (first ++ second) = sessionCalls first ++ sessionCalls second :=
  List.filter_append ..

@[simp] theorem sessionCalls_wake (wake : Bool) : sessionCalls (wakeCalls wake) = [] := by
  cases wake <;> rfl

def Reader.remaining (r : Reader) (future : List UInt8) : List ReaderCall :=
  match r.pc with
  | .reading | .decoding => frameOutputs (r.buf ++ future) ++ [.onOutputEof]
  | .waking consumed => frameOutputs (r.buf.drop consumed ++ future) ++ [.onOutputEof]
  | .done => [.onOutputEof]
  | .eofWaking | .exited => []

-- What a step may do to the bytes to come: end of file means that there are none.
def Supplies (r : Reader) (future : List UInt8) : ReaderStep -> List UInt8 -> Prop
  | .read (.got chunk), rest =>
      future = chunk ++ rest ∧ chunk.length ≤ wtdReadBufSize - r.buf.length ∧
        (chunk = [] -> future = [])
  | .read (.failed eintr), rest => eintr = true ∧ rest = future
  | .advance, rest => rest = future

structure Reader.Sound (r : Reader) : Prop where
  room : r.buf.length ≤ wtdReadBufSize
  waiting : r.pc = .reading -> wtdFrameDecode r.buf = .error .incomplete

theorem readerMain_sound {wake : Bool} {r : Reader} {a : ReaderStep} {next : Reader}
    {calls : List ReaderCall} {future rest : List UInt8} (sound : r.Sound)
    (supplied : Supplies r future a rest) (taken : readerMain wake r a = some (next, calls)) :
    next.Sound := by
  have room := sound.room
  rcases readerMain_cases wake r a next calls taken with
    ⟨rfl, pc, space, rfl, rfl⟩ | ⟨chunk, rfl, filled, pc, space, rfl, rfl⟩ |
    ⟨rfl, pc, space, rfl, rfl⟩ | ⟨rfl, pc, space, rfl, rfl⟩ | ⟨rfl, pc, full, rfl, rfl⟩ |
    ⟨rfl, pc, incomplete, rfl, rfl⟩ | ⟨e, rfl, pc, failed, settled, rfl, rfl⟩ |
    ⟨d, rfl, pc, ok, rfl, rfl⟩ | ⟨consumed, rfl, pc, rfl, rfl⟩ | ⟨rfl, pc, rfl, rfl⟩ |
    ⟨rfl, pc, rfl, rfl⟩
  · exact ⟨room, by simp⟩
  · refine ⟨?_, by simp⟩
    have bound := supplied.2.1
    simp only [List.length_append]
    omega
  · exact sound
  · exact ⟨room, by simp⟩
  · exact ⟨room, by simp⟩
  · exact ⟨room, fun _ => incomplete⟩
  · exact ⟨room, by simp⟩
  · exact ⟨room, by simp⟩
  · refine ⟨?_, by simp⟩
    simp only [List.length_drop]
    omega
  · exact ⟨room, by simp⟩
  · exact ⟨room, by simp⟩

theorem frameOutputs_waiting (buf : List UInt8)
    (waiting : wtdFrameDecode buf = .error .incomplete) : frameOutputs buf = [] := by
  rw [frameOutputs, items_more frameParser _ _ ((parseFrame_incomplete buf).mp waiting),
    List.map_nil]

theorem readerMain_remaining {wake : Bool} {r : Reader} {a : ReaderStep} {next : Reader}
    {calls : List ReaderCall} {future rest : List UInt8} (sound : r.Sound)
    (supplied : Supplies r future a rest) (taken : readerMain wake r a = some (next, calls)) :
    r.remaining future = sessionCalls calls ++ next.remaining rest := by
  rcases readerMain_cases wake r a next calls taken with
    ⟨rfl, pc, space, rfl, rfl⟩ | ⟨chunk, rfl, filled, pc, space, rfl, rfl⟩ |
    ⟨rfl, pc, space, rfl, rfl⟩ | ⟨rfl, pc, space, rfl, rfl⟩ | ⟨rfl, pc, full, rfl, rfl⟩ |
    ⟨rfl, pc, incomplete, rfl, rfl⟩ | ⟨e, rfl, pc, failed, settled, rfl, rfl⟩ |
    ⟨d, rfl, pc, ok, rfl, rfl⟩ | ⟨consumed, rfl, pc, rfl, rfl⟩ | ⟨rfl, pc, rfl, rfl⟩ |
    ⟨rfl, pc, rfl, rfl⟩
  · -- End of file in the middle of a frame, or between two: nothing more comes out.
    have ended : future = [] := supplied.2.2 rfl
    simp [Reader.remaining, pc, ended, frameOutputs_waiting _ (sound.waiting pc), sessionCalls]
  · simp [Reader.remaining, pc, supplied.1, sessionCalls]
  · simp [Reader.remaining, pc, supplied.2, sessionCalls]
  · exact absurd supplied.1 (by simp)
  · -- The buffer is full and holds no whole frame, so the next frame does not fit.
    have stopped := items_full frameParser wtdReadBufSize r.buf future
      ((parseFrame_incomplete _).mp (sound.waiting pc)) full
    simp [Reader.remaining, pc, frameOutputs, stopped, sessionCalls]
  · simp [Reader.remaining, pc, show rest = future from supplied, sessionCalls]
  · have stopped := items_bad frameParser wtdReadBufSize r.buf future
      (parseFrame_error _ e settled failed)
    simp [Reader.remaining, pc, frameOutputs, stopped, sessionCalls]
  · have first := items_item frameParser wtdReadBufSize r.buf future _ _ (parseFrame_ok _ d ok)
    have fits := (consumed_le r.buf d ok).trans sound.room
    simp [Reader.remaining, pc, frameOutputs, first, fits, show rest = future from supplied,
      sessionCalls]
  · simp [Reader.remaining, pc, show rest = future from supplied]
  · simp [Reader.remaining, pc, sessionCalls]
  · simp [Reader.remaining, pc]

end WebTransportD.ChildOutput
