import WebTransportD.Adapters.ChildOutput

set_option autoImplicit false

namespace WebTransportD.FrameChild

open WebTransportD.Frame Memory Execution IncrementalParse ChildOutput

def bufCap : Nat := 1 + 4 + wtdFrameMaxPayload

structure PayloadFilter where
  apply : List UInt8 -> List UInt8
  length_apply : ∀ payload, (apply payload).length = payload.length

def echo : PayloadFilter :=
  { apply := id, length_apply := fun _ => rfl }

-- (c >= 'a' && c <= 'z') ? c - 32 : c
def upper (c : UInt8) : UInt8 :=
  if 0x61 ≤ c ∧ c ≤ 0x7a then c - 32 else c

def shout : PayloadFilter :=
  { apply := List.map upper, length_apply := fun _ => List.length_map .. }

inductive WriteResult where
  | took (n : Nat)
  | failed (eintr : Bool)
  deriving DecidableEq, Repr

-- Inside `write_all`, `done` of the first `outLen` bytes of `out_buf` are written.
inductive ChildPc where
  | reading
  | decoding
  | writing (outLen done consumed : Nat)
  | exited (code : Nat)
  deriving DecidableEq, Repr

-- `inBuf` holds the first `used` bytes of `in_buf`.
structure Child where
  pc : ChildPc
  inBuf : List UInt8
  outBuf : Nat -> UInt8

inductive ChildStep where
  | read (result : ReadResult)
  | write (result : WriteResult)
  | advance
  deriving DecidableEq, Repr

def childStart (mallocs : Bool) (block : Nat -> UInt8) : Child :=
  { pc := if mallocs then .reading else .exited 1, inBuf := [], outBuf := block }

-- The two loops of `main` with `write_all`; the bytes are those that reach stdout.
def childMain (filter : PayloadFilter) (c : Child) :
    ChildStep -> Option (Child × List UInt8)
  | .read result =>
      match c.pc with
      | .reading =>
          if bufCap ≤ c.inBuf.length then none
          else match result with
            | .got chunk =>
                if chunk.length = 0 then some ({ c with pc := .exited 0 }, [])
                else some ({ c with pc := .decoding, inBuf := c.inBuf ++ chunk }, [])
            | .failed eintr =>
                if eintr then some (c, []) else some ({ c with pc := .exited 3 }, [])
      | _ => none
  | .write result =>
      match c.pc with
      | .writing outLen done consumed =>
          if outLen ≤ done then none
          else match result with
            | .took n =>
                if n = 0 then some ({ c with pc := .exited 6 }, [])
                else if outLen < done + n then none
                else some ({ c with pc := .writing outLen (done + n) consumed },
                  slice c.outBuf done n)
            | .failed eintr =>
                if eintr then some (c, []) else some ({ c with pc := .exited 6 }, [])
      | _ => none
  | .advance =>
      match c.pc with
      | .reading =>
          if bufCap ≤ c.inBuf.length then some ({ c with pc := .exited 2 }, []) else none
      | .decoding =>
          match wtdFrameDecode c.inBuf with
          | .error .incomplete => some ({ c with pc := .reading }, [])
          | .error _ => some ({ c with pc := .exited 4 }, [])
          | .ok d =>
              let made := wtdFrameEncode d.flag (filter.apply (d.bytes c.inBuf)) c.outBuf bufCap 0
              if made.status = .ok then
                some ({ c with pc := .writing made.outLen 0 d.consumed, outBuf := made.out }, [])
              else some ({ c with pc := .exited 5, outBuf := made.out }, [])
      | .writing outLen done consumed =>
          if outLen ≤ done then
            some ({ c with pc := .decoding, inBuf := c.inBuf.drop consumed }, [])
          else none
      | .exited _ => none

def echoMain := childMain echo

def shoutMain := childMain shout

def reply (filter : PayloadFilter) (frame : UInt8 × List UInt8) : List UInt8 :=
  canonicalFrame frame.1 (filter.apply frame.2)

theorem reencoded (filter : PayloadFilter) (buf : List UInt8) (out : Nat -> UInt8) (d : Decoded)
    (ok : wtdFrameDecode buf = .ok d) :
    wtdFrameEncode d.flag (filter.apply (d.bytes buf)) out bufCap 0 =
        { status := .ok, out := copy out 0 (reply filter (d.flag, d.bytes buf)),
          outLen := (reply filter (d.flag, d.bytes buf)).length } ∧
      (reply filter (d.flag, d.bytes buf)).length ≤ d.consumed := by
  obtain ⟨form, flag, payload, rest, rfl, valid, small, known, fits, rfl⟩ :=
    wtdFrameDecode_ok_inv buf d ok
  have same := frame_slice form flag payload rest
  have kept := filter.length_apply payload
  have width := varintSize_le payload.length form known fits
  simp only [Decoded.bytes, same, reply, length_canonicalFrame]
  constructor
  · exact wtdFrameEncode_ok flag _ out bufCap 0 valid (by omega)
      (neededSize_le _ (by omega))
  · simp only [neededSize, kept, length_frameBytes]
    omega

def WriteResult.interrupted : WriteResult -> Bool
  | .failed eintr => eintr
  | .took _ => false

def WriteResult.fails : WriteResult -> Bool
  | .failed eintr => !eintr
  | .took n => n == 0

def ChildStep.interrupted : ChildStep -> Bool
  | .read (.failed eintr) => eintr
  | .write result => result.interrupted
  | _ => false

def ChildStep.fails : ChildStep -> Bool
  | .read (.failed eintr) => !eintr
  | .write result => result.fails
  | _ => false

theorem childMain_cases (filter : PayloadFilter) (c : Child) (a : ChildStep)
    (next : Child) (written : List UInt8)
    (taken : childMain filter c a = some (next, written)) :
    (a = .read (.got []) ∧ c.pc = .reading ∧ c.inBuf.length < bufCap ∧
      next = { c with pc := .exited 0 } ∧ written = []) ∨
    (∃ chunk, a = .read (.got chunk) ∧ chunk ≠ [] ∧ c.pc = .reading ∧
      c.inBuf.length < bufCap ∧ next = { c with pc := .decoding, inBuf := c.inBuf ++ chunk } ∧
      written = []) ∨
    (a.interrupted = true ∧ next = c ∧ written = []) ∨
    (a.fails = true ∧ (∃ code, (code = 3 ∨ code = 6) ∧ next = { c with pc := .exited code }) ∧
      written = []) ∨
    (∃ n outLen done consumed, a = .write (.took n) ∧ 0 < n ∧ c.pc = .writing outLen done consumed ∧
      done + n ≤ outLen ∧ next = { c with pc := .writing outLen (done + n) consumed } ∧
      written = slice c.outBuf done n) ∨
    (a = .advance ∧ c.pc = .reading ∧ bufCap ≤ c.inBuf.length ∧
      next = { c with pc := .exited 2 } ∧ written = []) ∨
    (a = .advance ∧ c.pc = .decoding ∧ wtdFrameDecode c.inBuf = .error .incomplete ∧
      next = { c with pc := .reading } ∧ written = []) ∨
    (∃ e, a = .advance ∧ c.pc = .decoding ∧ wtdFrameDecode c.inBuf = .error e ∧
      e ≠ .incomplete ∧ next = { c with pc := .exited 4 } ∧ written = []) ∨
    (∃ d, a = .advance ∧ c.pc = .decoding ∧ wtdFrameDecode c.inBuf = .ok d ∧
      next = { c with
        pc := .writing (reply filter (d.flag, d.bytes c.inBuf)).length 0 d.consumed
        outBuf := copy c.outBuf 0 (reply filter (d.flag, d.bytes c.inBuf)) } ∧ written = []) ∨
    (∃ outLen done consumed, a = .advance ∧ c.pc = .writing outLen done consumed ∧
      outLen ≤ done ∧ next = { c with pc := .decoding, inBuf := c.inBuf.drop consumed } ∧
      written = []) := by
  cases a with
  | read result =>
    cases pc : c.pc <;> simp only [childMain, pc, reduceCtorEq] at taken
    split_ifs at taken with full
    have space : c.inBuf.length < bufCap := by omega
    cases result with
    | got chunk => cases chunk <;> simp_all
    | failed eintr => cases eintr <;> simp_all [ChildStep.interrupted, ChildStep.fails]
  | write result =>
    cases pc : c.pc <;> simp only [childMain, pc, reduceCtorEq] at taken
    split_ifs at taken with finished
    cases result with
    | took n =>
      simp only at taken
      split_ifs at taken with none beyond
      · simp_all [ChildStep.fails, WriteResult.fails]
      · simp_all [Nat.pos_of_ne_zero]
    | failed eintr =>
      cases eintr <;> simp_all [ChildStep.interrupted, ChildStep.fails, WriteResult.interrupted,
        WriteResult.fails]
  | advance =>
    cases pc : c.pc with
    | reading =>
      simp only [childMain, pc] at taken
      split_ifs at taken with full
      simp_all
    | decoding =>
      simp only [childMain, pc] at taken
      split at taken
      · simp_all
      · simp_all
      next d ok =>
        rw [(reencoded filter c.inBuf c.outBuf d ok).1] at taken
        simp_all
    | writing outLen done consumed =>
      simp only [childMain, pc] at taken
      split_ifs at taken with finished
      simp_all
    | exited code => simp [childMain, pc] at taken

def replies (filter : PayloadFilter) (bytes : List UInt8) : List UInt8 :=
  (frameParser.items bufCap bytes).flatMap (reply filter)

def endingCode : Ending -> Nat
  | .starved => 0
  | .oversized => 2
  | .refused => 4

def exitCode (bytes : List UInt8) : Nat :=
  endingCode (frameParser.ending bufCap bytes)

def Child.remaining (filter : PayloadFilter) (c : Child) (future : List UInt8) : List UInt8 :=
  match c.pc with
  | .reading | .decoding => replies filter (c.inBuf ++ future)
  | .writing outLen done consumed =>
      slice c.outBuf done (outLen - done) ++ replies filter (c.inBuf.drop consumed ++ future)
  | .exited _ => []

def Child.fate (c : Child) (future : List UInt8) : Nat :=
  match c.pc with
  | .reading | .decoding => exitCode (c.inBuf ++ future)
  | .writing _ _ consumed => exitCode (c.inBuf.drop consumed ++ future)
  | .exited code => code

-- What a step may do to the bytes to come: end of file means that there are none.
def Provides (c : Child) (future : List UInt8) : ChildStep -> List UInt8 -> Prop
  | .read (.got chunk), rest =>
      future = chunk ++ rest ∧ chunk.length ≤ bufCap - c.inBuf.length ∧
        (chunk = [] -> future = [])
  | _, rest => rest = future

theorem failed_provides {c : Child} {a : ChildStep} {future rest : List UInt8}
    (provided : Provides c future a rest) (failed : a.interrupted = true ∨ a.fails = true) :
    rest = future := by
  cases a with
  | read result =>
    cases result with
    | got chunk => simp [ChildStep.interrupted, ChildStep.fails] at failed
    | failed eintr => exact provided
  | write result => exact provided
  | advance => exact provided

structure Child.Sound (c : Child) : Prop where
  room : c.inBuf.length ≤ bufCap
  waiting : c.pc = .reading -> wtdFrameDecode c.inBuf = .error .incomplete

theorem childMain_sound {filter : PayloadFilter} {c : Child} {a : ChildStep} {next : Child}
    {written future rest : List UInt8} (sound : c.Sound) (provided : Provides c future a rest)
    (taken : childMain filter c a = some (next, written)) : next.Sound := by
  have room := sound.room
  rcases childMain_cases filter c a next written taken with
    ⟨rfl, pc, space, rfl, rfl⟩ | ⟨chunk, rfl, filled, pc, space, rfl, rfl⟩ |
    ⟨interrupted, rfl, rfl⟩ | ⟨fails, ⟨code, known, rfl⟩, rfl⟩ |
    ⟨n, outLen, done, consumed, rfl, positive, pc, within, rfl, rfl⟩ | ⟨rfl, pc, full, rfl, rfl⟩ |
    ⟨rfl, pc, incomplete, rfl, rfl⟩ | ⟨e, rfl, pc, failed, settled, rfl, rfl⟩ |
    ⟨d, rfl, pc, ok, rfl, rfl⟩ | ⟨outLen, done, consumed, rfl, pc, finished, rfl, rfl⟩
  · exact ⟨room, by simp⟩
  · refine ⟨?_, by simp⟩
    have bound := provided.2.1
    simp only [List.length_append]
    omega
  · exact sound
  · exact ⟨room, by simp⟩
  · exact ⟨room, by simp⟩
  · exact ⟨room, by simp⟩
  · exact ⟨room, fun _ => incomplete⟩
  · exact ⟨room, by simp⟩
  · exact ⟨room, by simp⟩
  · refine ⟨?_, by simp⟩
    simp only [List.length_drop]
    omega

theorem replies_waiting (filter : PayloadFilter) (buf : List UInt8)
    (waiting : wtdFrameDecode buf = .error .incomplete) : replies filter buf = [] := by
  rw [replies, items_more frameParser _ _ ((parseFrame_incomplete buf).mp waiting),
    List.flatMap_nil]

theorem replies_ok (filter : PayloadFilter) (buf ext : List UInt8) (d : Decoded)
    (ok : wtdFrameDecode buf = .ok d) (room : buf.length ≤ bufCap) :
    replies filter (buf ++ ext) =
      reply filter (d.flag, d.bytes buf) ++ replies filter (buf.drop d.consumed ++ ext) := by
  have first := items_item frameParser bufCap buf ext _ _ (parseFrame_ok _ d ok)
  rw [if_pos ((consumed_le buf d ok).trans room)] at first
  rw [replies, first, List.flatMap_cons, replies]

theorem childMain_remaining {filter : PayloadFilter} {c : Child} {a : ChildStep} {next : Child}
    {written future rest : List UInt8} (sound : c.Sound) (provided : Provides c future a rest)
    (working : a.fails = false) (taken : childMain filter c a = some (next, written)) :
    c.remaining filter future = written ++ next.remaining filter rest ∧
      c.fate future = next.fate rest := by
  rcases childMain_cases filter c a next written taken with
    ⟨rfl, pc, space, rfl, rfl⟩ | ⟨chunk, rfl, filled, pc, space, rfl, rfl⟩ |
    ⟨interrupted, rfl, rfl⟩ | ⟨fails, -⟩ |
    ⟨n, outLen, done, consumed, rfl, positive, pc, within, rfl, rfl⟩ | ⟨rfl, pc, full, rfl, rfl⟩ |
    ⟨rfl, pc, incomplete, rfl, rfl⟩ | ⟨e, rfl, pc, failed, settled, rfl, rfl⟩ |
    ⟨d, rfl, pc, ok, rfl, rfl⟩ | ⟨outLen, done, consumed, rfl, pc, finished, rfl, rfl⟩
  · have ended : future = [] := provided.2.2 rfl
    have waiting := sound.waiting pc
    have starved := ending_starved frameParser bufCap c.inBuf
      ((parseFrame_incomplete _).mp waiting) space
    simp [Child.remaining, Child.fate, pc, ended, replies_waiting _ _ waiting, exitCode, starved,
      endingCode]
  · simp [Child.remaining, Child.fate, pc, provided.1]
  · rw [failed_provides provided (.inl interrupted)]
    exact ⟨rfl, rfl⟩
  · simp [working] at fails
  · have same : rest = future := provided
    have split : outLen - done = n + (outLen - (done + n)) := by omega
    simp [Child.remaining, Child.fate, pc, same, split, slice_split]
  · -- `in_buf` is full and holds no whole frame.
    have waiting := (parseFrame_incomplete _).mp (sound.waiting pc)
    have stopped := items_full frameParser bufCap c.inBuf future waiting full
    have oversized := ending_full frameParser bufCap c.inBuf future waiting
      (Nat.le_antisymm sound.room full)
    simp [Child.remaining, Child.fate, pc, replies, stopped, exitCode, oversized, endingCode]
  · simp [Child.remaining, Child.fate, pc, show rest = future from provided]
  · have bad := parseFrame_error _ e settled failed
    have stopped := items_bad frameParser bufCap c.inBuf future bad
    have refused := ending_bad frameParser bufCap c.inBuf future bad sound.room
    simp [Child.remaining, Child.fate, pc, replies, stopped, exitCode, refused, endingCode]
  · have first := replies_ok filter c.inBuf future d ok sound.room
    have later := ending_item frameParser bufCap c.inBuf future _ _ (parseFrame_ok _ d ok)
      sound.room
    simp [Child.remaining, Child.fate, pc, show rest = future from provided, first, slice_copy,
      exitCode, later]
  · simp [Child.remaining, Child.fate, pc, show rest = future from provided,
      Nat.sub_eq_zero_of_le finished, slice]

-- The child on a stdin that holds all it will ever hold, with what it has written so far.
structure ChildRun where
  child : Child
  stdin : List UInt8
  stdout : List UInt8

inductive RunStep where
  | take (n : Nat)
  | eof
  | readFails (eintr : Bool)
  | write (result : WriteResult)
  | advance
  deriving DecidableEq, Repr

def ChildRun.make (filter : PayloadFilter) (r : ChildRun) (a : ChildStep) (stdin : List UInt8) :
    Option ChildRun :=
  (childMain filter r.child a).map fun made =>
    { child := made.1, stdin, stdout := r.stdout ++ made.2 }

def runStep (filter : PayloadFilter) (r : ChildRun) : RunStep -> Option ChildRun
  | .take n =>
      if 0 < n ∧ n ≤ r.stdin.length ∧ n ≤ bufCap - r.child.inBuf.length then
        r.make filter (.read (.got (r.stdin.take n))) (r.stdin.drop n)
      else none
  | .eof => if r.stdin = [] then r.make filter (.read (.got [])) [] else none
  | .readFails eintr => r.make filter (.read (.failed eintr)) r.stdin
  | .write result => r.make filter (.write result) r.stdin
  | .advance => r.make filter .advance r.stdin

def childOn (bytes : List UInt8) (block : Nat -> UInt8) : ChildRun :=
  { child := childStart true block, stdin := bytes, stdout := [] }

def RunStep.interrupted : RunStep -> Bool
  | .readFails eintr => eintr
  | .write result => result.interrupted
  | _ => false

def RunStep.fails : RunStep -> Bool
  | .readFails eintr => !eintr
  | .write result => result.fails
  | _ => false

def RunStep.childStep (stdin : List UInt8) : RunStep -> ChildStep
  | .take n => .read (.got (stdin.take n))
  | .eof => .read (.got [])
  | .readFails eintr => .read (.failed eintr)
  | .write result => .write result
  | .advance => .advance

theorem childStep_fails (stdin : List UInt8) (a : RunStep) :
    (a.childStep stdin).fails = a.fails := by
  cases a <;> rfl

theorem childStep_interrupted (stdin : List UInt8) (a : RunStep) :
    (a.childStep stdin).interrupted = a.interrupted := by
  cases a <;> rfl

theorem runStep_child (filter : PayloadFilter) (r : ChildRun) (a : RunStep) (s : ChildRun)
    (taken : runStep filter r a = some s) :
    ∃ written, childMain filter r.child (a.childStep r.stdin) = some (s.child, written) ∧
      Provides r.child r.stdin (a.childStep r.stdin) s.stdin ∧ s.stdout = r.stdout ++ written ∧
      (a.childStep r.stdin = .read (.got []) -> a = .eof) := by
  have made (b : ChildStep) (stdin : List UInt8) (step : r.make filter b stdin = some s) :
      ∃ written, childMain filter r.child b = some (s.child, written) ∧ s.stdin = stdin ∧
        s.stdout = r.stdout ++ written := by
    simp only [ChildRun.make, Option.map_eq_some_iff] at step
    obtain ⟨⟨child, written⟩, main, rfl⟩ := step
    exact ⟨written, main, rfl, rfl⟩
  cases a with
  | take n =>
    simp only [runStep] at taken
    split_ifs at taken with legal
    have filled : r.stdin.take n ≠ [] := by
      intro empty
      have length := congrArg List.length empty
      simp only [List.length_take, List.length_nil] at length
      omega
    obtain ⟨written, main, stdin, stdout⟩ := made _ _ taken
    refine ⟨written, main, ⟨by rw [stdin, List.take_append_drop], ?_, fun empty => ?_⟩, stdout, ?_⟩
    · rw [List.length_take]
      omega
    · exact absurd empty filled
    · simpa [RunStep.childStep] using filled
  | eof =>
    simp only [runStep] at taken
    split_ifs at taken with ended
    obtain ⟨written, main, stdin, stdout⟩ := made _ _ taken
    exact ⟨written, main, ⟨by simp [ended, stdin], by simp, fun _ => ended⟩, stdout, fun _ => rfl⟩
  | readFails eintr =>
    obtain ⟨written, main, stdin, stdout⟩ := made _ _ taken
    exact ⟨written, main, stdin, stdout, by simp [RunStep.childStep]⟩
  | write result =>
    obtain ⟨written, main, stdin, stdout⟩ := made _ _ taken
    exact ⟨written, main, stdin, stdout, by simp [RunStep.childStep]⟩
  | advance =>
    obtain ⟨written, main, stdin, stdout⟩ := made _ _ taken
    exact ⟨written, main, stdin, stdout, by simp [RunStep.childStep]⟩

structure OnCourse (filter : PayloadFilter) (bytes : List UInt8) (r : ChildRun) : Prop where
  sound : r.child.Sound
  output : r.stdout ++ r.child.remaining filter r.stdin = replies filter bytes
  code : r.child.fate r.stdin = exitCode bytes

structure Broken (filter : PayloadFilter) (bytes : List UInt8) (r : ChildRun) : Prop where
  code : r.child.pc = .exited 3 ∨ r.child.pc = .exited 6
  output : r.stdout <+: replies filter bytes

theorem runStep_onCourse (filter : PayloadFilter) (bytes : List UInt8) (r : ChildRun) (a : RunStep)
    (s : ChildRun) (course : OnCourse filter bytes r) (taken : runStep filter r a = some s) :
    (a.fails = false ∧ OnCourse filter bytes s) ∨ (a.fails = true ∧ Broken filter bytes s) := by
  obtain ⟨written, main, provided, stdout, -⟩ := runStep_child filter r a s taken
  have same := childStep_fails r.stdin a
  generalize a.childStep r.stdin = b at main provided same
  cases fails : a.fails with
  | false =>
    obtain ⟨output, code⟩ :=
      childMain_remaining course.sound provided (same.trans fails) main
    refine .inl ⟨rfl, childMain_sound course.sound provided main, ?_, code.symm.trans course.code⟩
    rw [stdout, List.append_assoc, ← output]
    exact course.output
  | true =>
    rw [fails] at same
    refine .inr ⟨rfl, ?_⟩
    rcases childMain_cases filter r.child b s.child written main with
      ⟨rfl, -⟩ | ⟨chunk, rfl, -⟩ | ⟨interrupted, -⟩ | ⟨-, ⟨code, known, next⟩, rfl⟩ |
      ⟨n, -, -, -, rfl, positive, -⟩ | ⟨rfl, -⟩ | ⟨rfl, -⟩ | ⟨e, rfl, -⟩ | ⟨d, rfl, -⟩ |
      ⟨-, -, -, rfl, -⟩
    · simp [ChildStep.fails] at same
    · simp [ChildStep.fails] at same
    · rcases b with (_ | _) | (_ | _) | _ <;>
        simp_all [ChildStep.fails, ChildStep.interrupted, WriteResult.fails,
          WriteResult.interrupted]
    · refine ⟨?_, ?_⟩
      · rcases known with rfl | rfl <;> simp [next]
      · rw [stdout, List.append_nil, ← course.output]
        exact List.prefix_append ..
    · simp only [ChildStep.fails, WriteResult.fails, beq_iff_eq] at same
      omega
    all_goals simp [ChildStep.fails] at same

theorem runStep_exited (filter : PayloadFilter) (r : ChildRun) (a : RunStep) (code : Nat)
    (exited : r.child.pc = .exited code) : runStep filter r a = none := by
  have stuck (b : ChildStep) (stdin : List UInt8) : r.make filter b stdin = none := by
    cases b <;> simp [ChildRun.make, childMain, exited]
  cases a <;> simp [runStep, stuck]

theorem childOn_onCourse (filter : PayloadFilter) (bytes : List UInt8) (block : Nat -> UInt8) :
    OnCourse filter bytes (childOn bytes block) where
  sound := ⟨by simp [childOn, childStart], fun _ => wtdFrameDecode_nil⟩
  output := by simp [childOn, childStart, Child.remaining]
  code := by simp [childOn, childStart, Child.fate]

theorem run_onCourse (filter : PayloadFilter) (bytes : List UInt8) (block : Nat -> UInt8)
    (schedule : List RunStep) (t : ChildRun)
    (run : exec (runStep filter) (childOn bytes block) schedule = some t) :
    (schedule.any RunStep.fails = false ∧ OnCourse filter bytes t) ∨
      (schedule.any RunStep.fails = true ∧ Broken filter bytes t) := by
  refine exec_history (runStep filter) (fun past r =>
    (past.any RunStep.fails = false ∧ OnCourse filter bytes r) ∨
      (past.any RunStep.fails = true ∧ Broken filter bytes r)) ?_ [] _ t schedule
      (.inl ⟨rfl, childOn_onCourse filter bytes block⟩) run
  intro past r a s held taken
  rcases held with ⟨clean, course⟩ | ⟨failed, broken⟩
  · simpa [clean] using runStep_onCourse filter bytes r a s course taken
  · rcases broken.code with exited | exited <;> simp [runStep_exited filter r a _ exited] at taken

-- A byte counts for its read, for its part of a write and for the decoding between the two.
def ChildRun.height (r : ChildRun) : Nat :=
  6 * r.stdin.length + match r.child.pc with
    | .reading => 4 * r.child.inBuf.length + 1
    | .decoding => 4 * r.child.inBuf.length + 2
    | .writing outLen done consumed =>
        4 * (r.child.inBuf.drop consumed).length + (outLen - done) + 3
    | .exited _ => 0

theorem runStep_height (filter : PayloadFilter) (r : ChildRun) (a : RunStep) (s : ChildRun)
    (taken : runStep filter r a = some s) : s.height + 1 ≤ r.height + a.interrupted.toNat := by
  obtain ⟨written, main, provided, -⟩ := runStep_child filter r a s taken
  have same := childStep_interrupted r.stdin a
  generalize a.childStep r.stdin = b at main provided same
  rcases childMain_cases filter r.child b s.child written main with
    ⟨rfl, pc, space, next, -⟩ | ⟨chunk, rfl, filled, pc, space, next, -⟩ |
    ⟨interrupted, next, -⟩ | ⟨fails, ⟨code, known, next⟩, -⟩ |
    ⟨n, outLen, done, consumed, rfl, positive, pc, within, next, -⟩ | ⟨rfl, pc, full, next, -⟩ |
    ⟨rfl, pc, incomplete, next, -⟩ | ⟨e, rfl, pc, failed, settled, next, -⟩ |
    ⟨d, rfl, pc, ok, next, -⟩ | ⟨outLen, done, consumed, rfl, pc, finished, next, -⟩
  · have same : s.stdin = r.stdin := provided.1.symm
    simp only [ChildRun.height, next, pc, same]
    omega
  · have positive := List.length_pos_of_ne_nil filled
    have split : r.stdin.length = chunk.length + s.stdin.length := by
      rw [provided.1, List.length_append]
    simp only [ChildRun.height, next, pc, List.length_append]
    omega
  · rw [← same, interrupted]
    simp [ChildRun.height, next, failed_provides provided (.inl interrupted)]
  · have running : 6 * r.stdin.length + 1 ≤ r.height := by
      unfold ChildRun.height
      cases pc : r.child.pc with
      | exited code => simp [runStep_exited filter r a code pc] at taken
      | _ => simp only; omega
    simp only [ChildRun.height, next, failed_provides provided (.inr fails)] at running ⊢
    omega
  · simp only [ChildRun.height, next, pc, show s.stdin = r.stdin from provided]
    omega
  · simp only [ChildRun.height, next, pc, show s.stdin = r.stdin from provided]
    omega
  · simp only [ChildRun.height, next, pc, show s.stdin = r.stdin from provided]
    omega
  · simp only [ChildRun.height, next, pc, show s.stdin = r.stdin from provided]
    omega
  · have shorter := (reencoded filter r.child.inBuf r.child.outBuf d ok).2
    have positive := consumed_pos _ d ok
    have within := consumed_le _ d ok
    simp only [ChildRun.height, next, pc, show s.stdin = r.stdin from provided, List.length_drop]
    omega
  · simp only [ChildRun.height, next, pc, show s.stdin = r.stdin from provided]
    omega

theorem runStep_written (filter : PayloadFilter) (r : ChildRun) (a : RunStep) (s : ChildRun)
    (taken : runStep filter r a = some s) :
    s.height + s.stdout.length ≤ r.height + r.stdout.length := by
  have lower := runStep_height filter r a s taken
  have once := Bool.toNat_le a.interrupted
  obtain ⟨written, main, provided, stdout, -⟩ := runStep_child filter r a s taken
  by_cases silent : written = []
  · rw [stdout, silent, List.append_nil]
    omega
  · rcases childMain_cases filter r.child _ s.child written main with
      ⟨-, -, -, -, none⟩ | ⟨-, -, -, -, -, -, none⟩ | ⟨-, -, none⟩ | ⟨-, -, none⟩ |
      ⟨n, outLen, done, consumed, step, positive, pc, within, next, rfl⟩ | ⟨-, -, -, -, none⟩ |
      ⟨-, -, -, -, none⟩ | ⟨-, -, -, -, -, -, none⟩ | ⟨-, -, -, -, -, none⟩ |
      ⟨-, -, -, -, -, -, -, none⟩
    on_goal 5 =>
      rw [step] at provided
      have length : (slice r.child.outBuf done n).length = n := by simp [slice]
      rw [stdout, List.length_append, length]
      simp only [ChildRun.height, next, pc, show s.stdin = r.stdin from provided]
      omega
    all_goals exact absurd none silent

def RunStep.clean (a : RunStep) : Prop :=
  a.fails = false ∧ a.interrupted = false

theorem runStep_progress (filter : PayloadFilter) (r : ChildRun)
    (running : ∀ code, r.child.pc ≠ .exited code) :
    ∃ a s, RunStep.clean a ∧ runStep filter r a = some s := by
  have moves := fun a call stdin (same : runStep filter r a = r.make filter call stdin) =>
    enabled_by_part (runStep filter) RunStep.clean r a (childMain filter r.child call) _ same
  have advances := moves .advance .advance r.stdin rfl ⟨rfl, rfl⟩
  cases pc : r.child.pc with
  | reading =>
    by_cases full : bufCap ≤ r.child.inBuf.length
    · exact advances (by simp [childMain, pc, full])
    by_cases empty : r.stdin = []
    · exact moves .eof (.read (.got [])) [] (by rw [runStep, if_pos empty]) ⟨rfl, rfl⟩
        (by simp [childMain, pc, full])
    · have positive := List.length_pos_of_ne_nil empty
      have legal : 0 < 1 ∧ 1 ≤ r.stdin.length ∧ 1 ≤ bufCap - r.child.inBuf.length := by omega
      exact moves (.take 1) (.read (.got (r.stdin.take 1))) (r.stdin.drop 1)
        (by rw [runStep, if_pos legal]) ⟨rfl, rfl⟩ (by simp [childMain, pc, full, empty])
  | decoding =>
    apply advances
    simp only [childMain, pc]
    split
    · rfl
    · rfl
    · split_ifs <;> rfl
  | writing outLen done consumed =>
    by_cases finished : outLen ≤ done
    · exact advances (by simp [childMain, pc, finished])
    · exact moves (.write (.took 1)) (.write (.took 1)) r.stdin rfl ⟨rfl, rfl⟩
        (by simp [childMain, pc, finished, show ¬ outLen < done + 1 by omega])
  | exited code => exact absurd pc (running code)

theorem run_completes (filter : PayloadFilter) (r : ChildRun) :
    ∃ schedule t, (∀ a ∈ schedule, RunStep.clean a) ∧
      exec (runStep filter) r schedule = some t ∧ ∃ code, t.child.pc = .exited code := by
  refine exec_completes_by (runStep filter) RunStep.clean (fun _ => True) ChildRun.height _ ?_ r
    trivial
  intro r _ running
  obtain ⟨a, s, clean, taken⟩ := runStep_progress filter r (not_exists.mp running)
  have lower := runStep_height filter r a s taken
  rw [clean.2, Bool.toNat_false, Nat.add_zero] at lower
  exact ⟨a, s, clean, taken, trivial, lower⟩

theorem run_finished (filter : PayloadFilter) (bytes : List UInt8) (block : Nat -> UInt8)
    (schedule : List RunStep) (t : ChildRun) (code : Nat)
    (run : exec (runStep filter) (childOn bytes block) schedule = some t)
    (clean : schedule.any RunStep.fails = false) (exited : t.child.pc = .exited code) :
    code = exitCode bytes ∧ t.stdout = replies filter bytes := by
  rcases run_onCourse filter bytes block schedule t run with ⟨-, course⟩ | ⟨failed, -⟩
  · have code := course.code
    have output := course.output
    simp only [Child.fate, Child.remaining, exited, List.append_nil] at code output
    exact ⟨code, output⟩
  · simp [clean] at failed

theorem frame_child_answers (filter : PayloadFilter) (bytes : List UInt8) (block : Nat -> UInt8)
    (schedule : List RunStep) (t : ChildRun)
    (run : exec (runStep filter) (childOn bytes block) schedule = some t) :
    t.stdout <+: replies filter bytes ∧
    schedule.length ≤ 6 * bytes.length + 1 + (schedule.map fun a => a.interrupted.toNat).sum ∧
    (schedule.any RunStep.fails = true -> t.child.pc = .exited 3 ∨ t.child.pc = .exited 6) ∧
    (schedule.any RunStep.fails = false ->
      (∀ code, t.child.pc = .exited code ->
        code = exitCode bytes ∧ t.stdout = replies filter bytes) ∧
      ∃ more u, exec (runStep filter) t more = some u ∧ u.child.pc = .exited (exitCode bytes) ∧
        u.stdout = replies filter bytes) := by
  refine ⟨?_, ?_, ?_, ?_⟩
  · rcases run_onCourse filter bytes block schedule t run with ⟨-, course⟩ | ⟨-, broken⟩
    · exact course.output ▸ List.prefix_append ..
    · exact broken.output
  · have bound := exec_measure (runStep filter) ChildRun.height _ (runStep_height filter) _ t
      schedule run
    have top : (childOn bytes block).height = 6 * bytes.length + 1 := rfl
    omega
  · intro failed
    rcases run_onCourse filter bytes block schedule t run with ⟨clean, -⟩ | ⟨-, broken⟩
    · simp [failed] at clean
    · exact broken.code
  · intro clean
    refine ⟨fun code => run_finished filter bytes block schedule t code run clean, ?_⟩
    obtain ⟨more, u, each, later, code, exited⟩ := run_completes filter t
    have whole := (exec_append (runStep filter) _ u schedule more).mpr ⟨t, run, later⟩
    have quiet : (schedule ++ more).any RunStep.fails = false := by
      simpa [clean] using fun a member => (each a member).1
    obtain ⟨rfl, output⟩ := run_finished filter bytes block _ u code whole quiet exited
    exact ⟨more, u, later, exited, output⟩

-- A reply of four bytes in two writes, and an input that ends inside its second frame.
def shoutRun : List RunStep :=
  [.take 3, .advance, .readFails true, .take 2, .advance, .write (.took 1), .write (.failed true),
    .write (.took 3), .advance, .advance]

theorem frame_child_answers_shout :
    ∃ t, exec (runStep shout) (childOn [0, 2, 0x68, 0x7b, 1] fun _ => 0xee) shoutRun = some t ∧
      t.stdout = [0, 2, 0x48, 0x7b] ∧ t.stdout <+: replies shout [0, 2, 0x68, 0x7b, 1] ∧
      ∃ more u, exec (runStep shout) t more = some u ∧
        u.child.pc = .exited (exitCode [0, 2, 0x68, 0x7b, 1]) := by
  obtain ⟨part, -, -, ends⟩ := frame_child_answers shout [0, 2, 0x68, 0x7b, 1] (fun _ => 0xee)
    shoutRun _ rfl
  obtain ⟨more, u, later, exited, -⟩ := (ends rfl).2
  exact ⟨_, rfl, rfl, part, more, u, later, exited⟩

theorem replies_frame (filter : PayloadFilter) (flag : UInt8) (payload rest : List UInt8)
    (known : KnownFlag flag) (small : payload.length ≤ wtdFrameMaxPayload) :
    replies filter (canonicalFrame flag payload ++ rest) =
        canonicalFrame flag (filter.apply payload) ++ replies filter rest ∧
      exitCode (canonicalFrame flag payload ++ rest) = exitCode rest := by
  obtain ⟨d, ok, same, consumed, -, -, -, bytes⟩ := wtdFrameDecode_of_frame flag payload _ []
    (canonicalFrame_isFrame flag payload known small)
  rw [List.append_nil] at ok bytes
  have room : (canonicalFrame flag payload).length ≤ bufCap := by
    rw [length_canonicalFrame]
    exact neededSize_le payload small
  have first := replies_ok filter _ rest d ok room
  have later := ending_item frameParser bufCap _ rest _ _ (parseFrame_ok _ d ok) room
  rw [bytes, consumed, same, List.drop_length, List.nil_append] at first
  rw [consumed, List.drop_length, List.nil_append] at later
  exact ⟨first, by rw [exitCode, later, exitCode]⟩

theorem replies_nil (filter : PayloadFilter) : replies filter [] = [] ∧ exitCode [] = 0 := by
  have starved := ending_starved frameParser bufCap []
    ((parseFrame_incomplete []).mp wtdFrameDecode_nil) (by simp [bufCap])
  exact ⟨replies_waiting filter [] wtdFrameDecode_nil, by rw [exitCode, starved, endingCode]⟩

theorem replies_frames (filter : PayloadFilter) (frames : List (UInt8 × List UInt8))
    (valid : ∀ f ∈ frames, KnownFlag f.1 ∧ f.2.length ≤ wtdFrameMaxPayload) :
    replies filter (frames.flatMap fun f => canonicalFrame f.1 f.2) =
        frames.flatMap (reply filter) ∧
      exitCode (frames.flatMap fun f => canonicalFrame f.1 f.2) = 0 := by
  induction frames with
  | nil => exact replies_nil filter
  | cons f rest ih =>
    obtain ⟨⟨known, small⟩, valid⟩ := List.forall_mem_cons.mp valid
    obtain ⟨first, code⟩ := replies_frame filter f.1 f.2
      (rest.flatMap fun f => canonicalFrame f.1 f.2) known small
    obtain ⟨later, zero⟩ := ih valid
    exact ⟨by rw [List.flatMap_cons, first, later, List.flatMap_cons, reply],
      by rw [List.flatMap_cons, code, zero]⟩

theorem echo_byte_stable_iff (bytes : List UInt8) (block : Nat -> UInt8) (schedule : List RunStep)
    (t : ChildRun) (code : Nat)
    (run : exec (runStep echo) (childOn bytes block) schedule = some t)
    (clean : schedule.any RunStep.fails = false) (exited : t.child.pc = .exited code) :
    (code = 0 ∧ t.stdout = bytes) ↔
      ∃ frames : List (UInt8 × List UInt8),
        (∀ f ∈ frames, KnownFlag f.1 ∧ f.2.length ≤ wtdFrameMaxPayload) ∧
          bytes = frames.flatMap fun f => canonicalFrame f.1 f.2 := by
  obtain ⟨rfl, output⟩ := run_finished echo bytes block schedule t code run clean exited
  rw [output]
  constructor
  · rintro ⟨-, same⟩
    refine ⟨frameParser.items bufCap bytes, items_forall frameParser _ ?_ bufCap bytes, same.symm⟩
    intro buf value size item
    obtain ⟨d, ok, rfl, -⟩ := parseFrame_item buf value size item
    obtain ⟨form, flag, payload, rest, rfl, valid, small, -, -, rfl⟩ :=
      wtdFrameDecode_ok_inv buf d ok
    simpa only [Decoded.bytes, frame_slice] using ⟨valid, small⟩
  · rintro ⟨frames, valid, rfl⟩
    obtain ⟨same, zero⟩ := replies_frames echo frames valid
    exact ⟨zero, same⟩

theorem echo_byte_stable_short :
    ∃ frames : List (UInt8 × List UInt8),
      (∀ f ∈ frames, KnownFlag f.1 ∧ f.2.length ≤ wtdFrameMaxPayload) ∧
        [1, 1, 7] = frames.flatMap fun f => canonicalFrame f.1 f.2 :=
  (echo_byte_stable_iff [1, 1, 7] (fun _ => 0)
    [.take 3, .advance, .write (.took 3), .advance, .advance, .eof] _ 0 rfl rfl rfl).mp
    ⟨rfl, rfl⟩

end WebTransportD.FrameChild
