import WebTransportD.Shared.Numeral
import WebTransportD.Adapters.Env
import WebTransportD.Children.FrameChild

set_option autoImplicit false

namespace WebTransportD.PythonChild

open WebTransportD.Frame BigEndian Execution IncrementalParse ChildOutput FrameChild
open Env (ascii)
open Numeral (decimal)

-- inp.read(n) of the buffered stdin: all n bytes, or what is left before the end of the input.
def inpRead (n : Nat) (input : List UInt8) : List UInt8 × List UInt8 :=
  (input.take n, input.drop n)

-- Every turn of the loop adds a byte, so `n` turns are enough.
def readExactLoop (n : Nat) :
    Nat -> List UInt8 -> List UInt8 -> Option (List UInt8) × List UInt8
  | 0, buf, input => (some buf, input)
  | turns + 1, buf, input =>
      if buf.length < n then
        let (chunk, input) := inpRead (n - buf.length) input
        if chunk.isEmpty then (none, input) else readExactLoop n turns (buf ++ chunk) input
      else (some buf, input)

def readExact (n : Nat) (input : List UInt8) : Option (List UInt8) × List UInt8 :=
  readExactLoop n n [] input

def readVarint (input : List UInt8) : Option Nat × List UInt8 :=
  match inpRead 1 input with
  | ([], input) => (none, input)
  | (first :: _, input) =>
      let low := (first &&& 0x3f).toNat
      if first >>> 6 = 0 then (some low, input)
      else if first >>> 6 = 1 then
        match inpRead 1 input with
        | ([], input) => (none, input)
        | (b1 :: _, input) => (some (low <<< 8 ||| b1.toNat), input)
      else if first >>> 6 = 2 then
        match readExact 3 input with
        | (some [b1, b2, b3], input) =>
            (some (low <<< 24 ||| b1.toNat <<< 16 ||| b2.toNat <<< 8 ||| b3.toNat), input)
        | (_, input) => (none, input)
      else
        match readExact 7 input with
        | (some rest, input) => (some (rest.foldl (fun val b => val <<< 8 ||| b.toNat) low), input)
        | (none, input) => (none, input)

def encodeVarint (n : Nat) : List UInt8 :=
  if n < 1 <<< 6 then [UInt8.ofNat n]
  else if n < 1 <<< 14 then [UInt8.ofNat (0x40 ||| n >>> 8), UInt8.ofNat (n &&& 0xff)]
  else if n < 1 <<< 30 then
    [UInt8.ofNat (0x80 ||| n >>> 24 &&& 0x3f), UInt8.ofNat (n >>> 16 &&& 0xff),
      UInt8.ofNat (n >>> 8 &&& 0xff), UInt8.ofNat (n &&& 0xff)]
  else
    [UInt8.ofNat (0xc0 ||| n >>> 56 &&& 0x3f), UInt8.ofNat (n >>> 48 &&& 0xff),
      UInt8.ofNat (n >>> 40 &&& 0xff), UInt8.ofNat (n >>> 32 &&& 0xff),
      UInt8.ofNat (n >>> 24 &&& 0xff), UInt8.ofNat (n >>> 16 &&& 0xff),
      UInt8.ofNat (n >>> 8 &&& 0xff), UInt8.ofNat (n &&& 0xff)]

def writeFrame (flag : UInt8) (payload : List UInt8) : List UInt8 :=
  [flag] ++ encodeVarint payload.length ++ payload

theorem readExactLoop_eq (n turns : Nat) (buf input : List UInt8) (within : buf.length ≤ n)
    (enough : n - buf.length ≤ turns) :
    readExactLoop n turns buf input =
      if n ≤ buf.length + input.length then
        (some (buf ++ input.take (n - buf.length)), input.drop (n - buf.length))
      else (none, []) := by
  induction turns generalizing buf input with
  | zero =>
    have full : n - buf.length = 0 := by omega
    rw [readExactLoop, if_pos (by omega), full]
    simp
  | succ turns ih =>
    by_cases more : buf.length < n
    · cases input with
      | nil =>
        have short : ¬ n ≤ buf.length := by omega
        simp [readExactLoop, more, inpRead, short]
      | cons first rest =>
        obtain ⟨k, missing⟩ : ∃ k, n - buf.length = k + 1 := ⟨n - buf.length - 1, by omega⟩
        have chunk : ((first :: rest).take (n - buf.length)).isEmpty = false := by simp [missing]
        have size := List.length_take (i := n - buf.length) (l := first :: rest)
        have step := ih (buf ++ (first :: rest).take (n - buf.length))
          ((first :: rest).drop (n - buf.length)) (by simp only [List.length_append]; omega)
          (by simp only [List.length_append, List.length_cons] at *; omega)
        simp only [readExactLoop, more, if_true, inpRead, chunk, Bool.false_eq_true, if_false, step]
        -- Either the first read brings all that is missing, or the input ends there.
        by_cases fits : n ≤ buf.length + (first :: rest).length
        · have filled : (buf ++ (first :: rest).take (n - buf.length)).length = n := by
            simp only [List.length_append]
            omega
          rw [filled, if_pos (Nat.le_add_right n _), if_pos fits, Nat.sub_self, List.take_zero,
            List.drop_zero, List.append_nil]
        · have short : (first :: rest).length ≤ n - buf.length := by omega
          rw [List.take_of_length_le short, List.drop_of_length_le short, if_neg fits,
            if_neg (by simpa using fits)]
    · have full : n - buf.length = 0 := by omega
      simp [readExactLoop, more, full, show n ≤ buf.length + input.length by omega]

theorem readExact_eq (n : Nat) (input : List UInt8) :
    readExact n input =
      if n ≤ input.length then (some (input.take n), input.drop n) else (none, []) := by
  simpa [readExact] using readExactLoop_eq n n [] input (by simp) (by simp)

theorem foldl_joined (low : Nat) (rest : List UInt8) :
    rest.foldl (fun val b => val <<< 8 ||| b.toNat) low =
      low <<< (8 * rest.length) ||| joined rest := by
  induction rest generalizing low with
  | nil => simp [joined]
  | cons b rest ih =>
    rw [List.foldl_cons, ih, Nat.shiftLeft_or_distrib, ← Nat.shiftLeft_add, joined,
      List.length_cons, Nat.or_assoc]
    congr 2
    omega

theorem readVarint_eq (first : UInt8) (input : List UInt8) :
    readVarint (first :: input) =
      if input.length + 1 < 2 ^ (first.toNat / 64) then (none, [])
      else (some (value ((first &&& 0x3f) :: input.take (2 ^ (first.toNat / 64) - 1))),
        input.drop (2 ^ (first.toNat / 64) - 1)) := by
  simp only [readVarint, inpRead, List.take_succ_cons, List.take_zero, List.drop_succ_cons,
    List.drop_zero, form_eq, readExact_eq]
  rcases form_cases _ (form_lt first) with form | form | form | form <;> simp only [form]
  · simp [value]
  · rcases input with _ | ⟨b1, input⟩ <;> simp [← joined_value, joined]
  · rcases input with _ | ⟨b1, _ | ⟨b2, _ | ⟨b3, input⟩⟩⟩ <;>
      simp [← joined_value, joined, Nat.or_assoc]
  · by_cases short : 7 ≤ input.length
    · have width : (input.take 7).length = 7 := by simp [short]
      simp [short, show ¬ input.length + 1 < 8 by omega, foldl_joined, ← joined_value, joined]
    · simp [short, show input.length + 1 < 8 by omega]

theorem readVarint_shrinks (input : List UInt8) :
    (readVarint input).2.length ≤ input.length := by
  cases input with
  | nil => simp [readVarint, inpRead]
  | cons first input =>
    rw [readVarint_eq]
    split
    · simp
    · simp only [List.length_drop, List.length_cons]
      omega

theorem readExact_shrinks (n : Nat) (input : List UInt8) :
    (readExact n input).2.length ≤ input.length := by
  rw [readExact_eq]
  split <;> simp

section Scripts

variable {S : Type} (respond : S -> List UInt8 -> S × List UInt8)

-- The loop that the scripts share; `respond` is what they do with a payload, and may depend on what
-- came before.
def scriptMain (state : S) (input : List UInt8) : List UInt8 :=
  match input with
  | [] => []
  | flag :: input =>
      let varint := readVarint input
      match varint.1 with
      | none => []
      | some length =>
          let read := readExact length varint.2
          match read.1 with
          | none => []
          | some payload =>
              let answer := respond state payload
              writeFrame flag answer.2 ++ scriptMain answer.1 read.2
termination_by input.length
decreasing_by
  have field := readVarint_shrinks input
  have rest := readExact_shrinks length (readVarint input).2
  simp only [List.length_cons]
  omega

def answers : S -> List (UInt8 × List UInt8) -> List (UInt8 × List UInt8)
  | _, [] => []
  | state, (flag, payload) :: rest =>
      (flag, (respond state payload).2) :: answers (respond state payload).1 rest

theorem scriptMain_cons (state : S) (flag : UInt8) (input : List UInt8) (length : Nat)
    (found : (readVarint input).1 = some length) :
    scriptMain respond state (flag :: input) =
      if length ≤ (readVarint input).2.length then
        writeFrame flag (respond state ((readVarint input).2.take length)).2 ++
          scriptMain respond (respond state ((readVarint input).2.take length)).1
            ((readVarint input).2.drop length)
      else [] := by
  rw [scriptMain]
  simp only [found, readExact_eq]
  by_cases fits : length ≤ (readVarint input).2.length <;> simp [fits]

theorem scriptMain_frame (state : S) (form : Nat) (flag : UInt8) (payload rest : List UInt8)
    (known : form < 4) (fits : payload.length < varintLimit form) :
    scriptMain respond state (frameBytes form flag payload ++ rest) =
      writeFrame flag (respond state payload).2 ++
        scriptMain respond (respond state payload).1 rest := by
  obtain ⟨b0, tail, shape, width, top, low⟩ := varintField_cons form payload.length known fits
  have read : readVarint (varintField form payload.length ++ (payload ++ rest)) =
      (some payload.length, payload ++ rest) := by
    have enough : ¬ (tail ++ (payload ++ rest)).length + 1 < 2 ^ form := by
      rw [List.length_append]
      omega
    have split : 2 ^ form - 1 = tail.length := by omega
    rw [shape, List.cons_append, readVarint_eq, top, if_neg enough, split, List.take_left,
      List.drop_left, low]
  rw [frameBytes, List.cons_append, List.append_assoc,
    scriptMain_cons respond state flag _ payload.length (by rw [read]), read]
  simp

theorem scriptMain_incomplete (state : S) (input : List UInt8)
    (waiting : wtdFrameDecode input = .error .incomplete) :
    scriptMain respond state input = [] := by
  rcases input with _ | ⟨flag, input⟩
  · rw [scriptMain]
  by_cases known : KnownFlag flag
  swap
  · simp [wtdFrameDecode_reserved flag input known] at waiting
  rcases input with _ | ⟨first, input⟩
  · rw [scriptMain]
    simp [readVarint, inpRead]
  have varint := varintDecode_rest (flag :: first :: input) 1 0 first input rfl
  have read := readVarint_eq first input
  by_cases short : input.length + 1 < 2 ^ (first.toNat / 64)
  · rw [scriptMain, read, if_pos short]
  · rw [if_neg short] at varint read
    have decoded := wtdFrameDecode_cons flag (first :: input) known (by simp) _ _ varint
    rw [waiting] at decoded
    rw [scriptMain_cons respond state flag _ _ (by rw [read]), read]
    have width := form_width _ (form_lt first)
    have positive := Nat.two_pow_pos (first.toNat / 64)
    have capped : wtdFrameMaxPayload = 2 ^ 24 := rfl
    generalize value ((first &&& 0x3f) :: input.take (2 ^ (first.toNat / 64) - 1)) = length at *
    rw [if_neg (by omega)] at decoded
    split_ifs at decoded with large few
    · simp at decoded
    · rw [sizeT_small _ (by omega)] at few
      simp only [List.length_cons] at few
      rw [if_neg]
      simp only [List.length_drop]
      omega

theorem scriptMain_items (state : S) (bytes : List UInt8) :
    ((answers respond state (frameParser.items bufCap bytes)).flatMap fun a =>
        writeFrame a.1 a.2) <+:
      scriptMain respond state bytes ∧
      (exitCode bytes = 0 -> scriptMain respond state bytes =
        (answers respond state (frameParser.items bufCap bytes)).flatMap fun a =>
          writeFrame a.1 a.2) := by
  induction size : bytes.length using Nat.strong_induction_on generalizing state bytes with
  | _ size ih =>
    subst size
    have whole := List.take_append_drop bufCap bytes
    have within : (bytes.take bufCap).length ≤ bufCap := List.length_take_le ..
    rcases found : frameParser.parse (bytes.take bufCap) with _ | _ | ⟨value, consumed⟩
    · by_cases full : bufCap ≤ bytes.length
      · have none := items_full frameParser bufCap _ (bytes.drop bufCap) found (by simpa using full)
        have oversized := ending_full frameParser bufCap _ (bytes.drop bufCap) found
          (by simpa using full)
        rw [whole] at none oversized
        simp [none, answers, exitCode, oversized, endingCode]
      · have same : bytes.take bufCap = bytes := List.take_of_length_le (by omega)
        rw [same] at found
        have none := items_more frameParser bufCap bytes found
        have waiting := (parseFrame_incomplete bytes).mpr found
        simp [none, answers, scriptMain_incomplete respond state bytes waiting]
    · have none := items_bad frameParser bufCap _ (bytes.drop bufCap) found
      have refused := ending_bad frameParser bufCap _ (bytes.drop bufCap) found within
      rw [whole] at none refused
      simp [none, answers, exitCode, refused, endingCode]
    · have first := items_item frameParser bufCap _ (bytes.drop bufCap) value consumed found
      have later := ending_item frameParser bufCap _ (bytes.drop bufCap) value consumed found within
      obtain ⟨d, ok, rfl, rfl⟩ := parseFrame_item _ value consumed found
      rw [whole, if_pos ((consumed_le _ d ok).trans within)] at first
      rw [whole] at later
      obtain ⟨form, flag, payload, rest, shape, -, -, known, fits, rfl⟩ :=
        wtdFrameDecode_ok_inv _ d ok
      have cut : ((frameBytes form flag payload ++ rest).drop
          (frameBytes form flag payload).length) = rest := List.drop_left
      simp only [Decoded.bytes, shape, frame_slice, cut] at first later
      have input : bytes = frameBytes form flag payload ++ (rest ++ bytes.drop bufCap) := by
        rw [← List.append_assoc, ← shape, whole]
      have step := scriptMain_frame respond state form flag payload (rest ++ bytes.drop bufCap)
        known fits
      rw [← input] at step
      have shorter : (rest ++ bytes.drop bufCap).length < bytes.length := by
        have size := congrArg List.length input
        simp only [frameBytes, List.length_append, List.length_cons] at size ⊢
        omega
      obtain ⟨part, equal⟩ := ih _ shorter (respond state payload).1 _ rfl
      rw [step, first, exitCode, later]
      simp only [answers, List.flatMap_cons]
      exact ⟨(List.prefix_append_right_inj _).mpr part, fun clean => by rw [equal clean]⟩

end Scripts

theorem encodeVarint_eq (n : Nat) (bound : n < varintLimit 3) :
    encodeVarint n = varintField (shortestForm n) n := by
  rw [varintLimit_three] at bound
  have masked : ∀ m, m < 64 -> m &&& 0x3f = m := fun m small =>
    (Nat.and_two_pow_sub_one_eq_mod m 6).trans (Nat.mod_eq_of_lt small)
  simp only [encodeVarint, shortestForm, varintLimit_zero, varintLimit_one, varintLimit_two]
  split_ifs with one two four
  · rw [varintField_zero]
  · rw [varintField_one n two]
  · rw [varintField_two n four, masked]
    rw [Nat.shiftRight_eq_div_pow]
    omega
  · rw [varintField_three n bound, masked]
    rw [Nat.shiftRight_eq_div_pow]
    omega

theorem writeFrame_eq (flag : UInt8) (payload : List UInt8)
    (small : payload.length < varintLimit 3) :
    writeFrame flag payload = canonicalFrame flag payload := by
  simp [writeFrame, encodeVarint_eq _ small, canonicalFrame, frameBytes]

def echoScript (input : List UInt8) : List UInt8 :=
  scriptMain (fun (_ : Unit) payload => ((), payload)) () input

theorem answers_echo (frames : List (UInt8 × List UInt8)) :
    answers (fun (_ : Unit) payload => ((), payload)) () frames = frames := by
  induction frames with
  | nil => rfl
  | cons frame rest ih => rw [answers, ih]

theorem items_small (bytes : List UInt8) : ∀ frame ∈ frameParser.items bufCap bytes,
    KnownFlag frame.1 ∧ frame.2.length ≤ wtdFrameMaxPayload := by
  refine items_forall frameParser _ (fun buf value size item => ?_) bufCap bytes
  obtain ⟨d, ok, rfl, rfl⟩ := parseFrame_item buf value size item
  obtain ⟨form, flag, payload, rest, rfl, known, small, -, -, rfl⟩ := wtdFrameDecode_ok_inv buf d ok
  simpa only [Decoded.bytes, frame_slice] using ⟨known, small⟩

theorem small_fits (payload : List UInt8) (small : payload.length ≤ wtdFrameMaxPayload) :
    payload.length < varintLimit 3 :=
  (payload_fits payload small).trans_le (varintLimit_mono 2 3 (by decide))

theorem echoScript_replies (bytes : List UInt8) :
    replies echo bytes <+: echoScript bytes ∧
      (exitCode bytes = 0 -> echoScript bytes = replies echo bytes) := by
  have same : (frameParser.items bufCap bytes).flatMap (fun a => writeFrame a.1 a.2) =
      replies echo bytes :=
    List.flatMap_congr fun frame member =>
      writeFrame_eq frame.1 frame.2 (small_fits _ (items_small bytes frame member).2)
  have agreed := scriptMain_items (fun (_ : Unit) payload => ((), payload)) () bytes
  rwa [answers_echo, same] at agreed

theorem echo_script_stands_in (bytes : List UInt8) (block : Nat -> UInt8)
    (schedule : List RunStep) (t : ChildRun)
    (run : exec (runStep echo) (childOn bytes block) schedule = some t) :
    t.stdout <+: echoScript bytes ∧ (t.child.pc = .exited 0 -> t.stdout = echoScript bytes) := by
  obtain ⟨part, equal⟩ := echoScript_replies bytes
  rcases run_onCourse echo bytes block schedule t run with ⟨clean, course⟩ | ⟨-, broken⟩
  · refine ⟨(course.output ▸ List.prefix_append ..).trans part, fun exited => ?_⟩
    obtain ⟨code, stdout⟩ := run_finished echo bytes block schedule t 0 run clean exited
    rw [stdout, equal code.symm]
  · refine ⟨broken.output.trans part, fun exited => ?_⟩
    rcases broken.code with code | code <;> simp [exited] at code

-- A frame with a reserved flag, at which `echo.c` stops and the script does not.
theorem echo_script_stands_in_reserved :
    ∃ t, exec (runStep echo) (childOn [2, 1, 0x61] fun _ => 0) [.take 3, .advance] = some t ∧
      t.child.pc = .exited 4 ∧ t.stdout <+: echoScript [2, 1, 0x61] ∧
      echoScript [2, 1, 0x61] = [2, 1, 0x61] :=
  ⟨_, rfl, rfl, (echo_script_stands_in [2, 1, 0x61] (fun _ => 0) [.take 3, .advance] _ rfl).1,
    by decide +kernel⟩

theorem items_frame (flag : UInt8) (payload rest : List UInt8) (known : KnownFlag flag)
    (small : payload.length ≤ wtdFrameMaxPayload) :
    frameParser.items wtdReadBufSize (canonicalFrame flag payload ++ rest) =
      (flag, payload) :: frameParser.items wtdReadBufSize rest := by
  obtain ⟨d, ok, rfl, consumed, -, -, -, bytes⟩ := wtdFrameDecode_of_frame flag payload _ []
    (canonicalFrame_isFrame flag payload known small)
  rw [List.append_nil] at ok bytes
  have room : d.consumed ≤ wtdReadBufSize := by
    rw [consumed, length_canonicalFrame]
    exact neededSize_le payload small
  rw [items_item frameParser wtdReadBufSize _ rest _ _ (parseFrame_ok _ d ok), if_pos room, bytes,
    consumed, List.drop_length, List.nil_append]

theorem items_oversized (flag : UInt8) (payload rest : List UInt8) (known : KnownFlag flag)
    (fits : payload.length < varintLimit 3) (large : wtdFrameMaxPayload < payload.length) :
    frameParser.items wtdReadBufSize (canonicalFrame flag payload ++ rest) = [] := by
  have refused := wtdFrameDecode_tooBig flag (shortestForm payload.length) payload.length payload
    known (shortestForm_lt _) (shortestForm_fits _ fits) large
  exact items_bad frameParser wtdReadBufSize _ rest
    (parseFrame_error (canonicalFrame flag payload) _ (by decide) refused)

def allowed (frame : UInt8 × List UInt8) : Bool :=
  frame.2.length ≤ wtdFrameMaxPayload

theorem items_frames (frames : List (UInt8 × List UInt8))
    (valid : ∀ a ∈ frames, KnownFlag a.1 ∧ a.2.length < varintLimit 3) :
    frameParser.items wtdReadBufSize (frames.flatMap fun a => writeFrame a.1 a.2) =
      frames.takeWhile allowed := by
  induction frames with
  | nil => exact items_more frameParser wtdReadBufSize [] rfl
  | cons frame rest ih =>
    obtain ⟨known, fits⟩ := valid frame (by simp)
    rw [List.flatMap_cons, writeFrame_eq _ _ fits, List.takeWhile_cons]
    by_cases small : frame.2.length ≤ wtdFrameMaxPayload
    · rw [items_frame _ _ _ known small,
        ih fun a member => valid a (List.mem_cons_of_mem frame member),
        if_pos (by simp [allowed, small])]
    · rw [items_oversized _ _ _ known fits (Nat.not_le.mp small),
        if_neg (by simp [allowed, small])]

theorem answers_flags {S : Type} (respond : S -> List UInt8 -> S × List UInt8) (state : S)
    (frames : List (UInt8 × List UInt8)) :
    (answers respond state frames).map Prod.fst = frames.map Prod.fst := by
  induction frames generalizing state with
  | nil => rfl
  | cons frame rest ih => rw [answers, List.map_cons, ih, List.map_cons]

theorem scripts_answer_each_frame {S : Type} (respond : S -> List UInt8 -> S × List UInt8)
    (state : S) (bytes : List UInt8) (whole : exitCode bytes = 0)
    (encodable : ∀ a ∈ answers respond state (frameParser.items bufCap bytes),
      a.2.length < varintLimit 3) :
    frameOutputs (scriptMain respond state bytes) =
      ((answers respond state (frameParser.items bufCap bytes)).takeWhile allowed).map
        fun a => .onOutput a.1 a.2 := by
  have flags := answers_flags respond state (frameParser.items bufCap bytes)
  have valid : ∀ a ∈ answers respond state (frameParser.items bufCap bytes),
      KnownFlag a.1 ∧ a.2.length < varintLimit 3 := by
    intro a member
    have first : a.1 ∈ (frameParser.items bufCap bytes).map Prod.fst :=
      flags ▸ List.mem_map_of_mem member
    obtain ⟨frame, inside, same⟩ := List.mem_map.mp first
    exact ⟨same ▸ (items_small bytes frame inside).1, encodable a member⟩
  rw [frameOutputs, (scriptMain_items respond state bytes).2 whole, items_frames _ valid]

-- Decoding and encoding again give a payload of valid UTF-8 back as it was.
def validUtf8 (payload : List UInt8) : Bool :=
  (ByteArray.mk payload.toArray).validateUTF8

def counterResponse (count : Nat) (payload : List UInt8) : Nat × List UInt8 :=
  let count := count + 1
  let response :=
    if validUtf8 payload then payload
    else ascii "<binary " ++ decimal payload.length ++ ascii " bytes>"
  (count, ascii "[" ++ decimal count ++ ascii "] " ++ response)

theorem scripts_answer_each_frame_numbered :
    frameOutputs (scriptMain counterResponse 0 [0, 1, 0x61, 1, 1, 0xff]) =
        ((answers counterResponse 0 (frameParser.items bufCap [0, 1, 0x61, 1, 1, 0xff])).takeWhile
          allowed).map (fun a => .onOutput a.1 a.2) ∧
      answers counterResponse 0 (frameParser.items bufCap [0, 1, 0x61, 1, 1, 0xff]) =
        [(0, ascii "[1] a"), (1, ascii "[2] <binary 1 bytes>")] := by
  have seen : answers counterResponse 0 (frameParser.items bufCap [0, 1, 0x61, 1, 1, 0xff]) =
      [(0, ascii "[1] a"), (1, ascii "[2] <binary 1 bytes>")] := by
    decide +kernel
  refine ⟨scripts_answer_each_frame counterResponse 0 _ (by decide +kernel) ?_, seen⟩
  rw [seen]
  simp [varintLimit_three, ascii]

end WebTransportD.PythonChild
