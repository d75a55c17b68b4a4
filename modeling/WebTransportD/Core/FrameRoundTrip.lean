import WebTransportD.Core.FrameGrammar

set_option autoImplicit false

namespace WebTransportD.Frame

open Memory

def canonicalFrame (flag : UInt8) (payload : List UInt8) : List UInt8 :=
  frameBytes (shortestForm payload.length) flag payload

def neededSize (payload : List UInt8) : Nat :=
  1 + varintSize payload.length + payload.length

theorem length_canonicalFrame (flag : UInt8) (payload : List UInt8) :
    (canonicalFrame flag payload).length = neededSize payload := by
  rw [canonicalFrame, neededSize, length_frameBytes, varintSize_eq]

theorem payload_fits (payload : List UInt8) (small : payload.length ≤ wtdFrameMaxPayload) :
    payload.length < varintLimit 2 := by
  have capped : wtdFrameMaxPayload = 2 ^ 24 := rfl
  have limit : varintLimit 2 = 2 ^ 30 := rfl
  omega

theorem payload_value (payload : List UInt8) (small : payload.length ≤ wtdFrameMaxPayload) :
    payload.length < varintLimit 3 := by
  have fits := payload_fits payload small
  have wider := varintLimit_mono 2 3 (by decide)
  omega

theorem shortest_fits (payload : List UInt8) (small : payload.length ≤ wtdFrameMaxPayload) :
    payload.length < varintLimit (shortestForm payload.length) :=
  shortestForm_fits _ (payload_value payload small)

theorem neededSize_le (payload : List UInt8) (small : payload.length ≤ wtdFrameMaxPayload) :
    neededSize payload ≤ 5 + wtdFrameMaxPayload := by
  have width := varintSize_le payload.length 2 (by decide) (payload_fits payload small)
  rw [neededSize]
  omega

theorem neededSize_cap (payload : List UInt8) (small : payload.length ≤ wtdFrameMaxPayload) :
    neededSize payload ≤ sizeT (payload.length + 9) := by
  have capped : wtdFrameMaxPayload = 2 ^ 24 := rfl
  have width := (form_width _ (shortestForm_lt payload.length)).2
  rw [sizeT_small _ (by omega), neededSize, varintSize_eq]
  omega

theorem canonicalFrame_isFrame (flag : UInt8) (payload : List UInt8) (valid : KnownFlag flag)
    (small : payload.length ≤ wtdFrameMaxPayload) :
    IsFrame flag payload (canonicalFrame flag payload) :=
  (isFrame_iff _ _ _).mpr
    ⟨valid, small, _, shortestForm_lt _, shortest_fits payload small, rfl⟩

theorem wtdFrameEncode_ok (flag : UInt8) (payload : List UInt8) (out : Nat -> UInt8)
    (outSize outLen : Nat) (valid : KnownFlag flag) (small : payload.length ≤ wtdFrameMaxPayload)
    (room : neededSize payload ≤ outSize) :
    wtdFrameEncode flag payload out outSize outLen =
      { status := .ok, out := copy out 0 (canonicalFrame flag payload),
        outLen := neededSize payload } := by
  have capped : wtdFrameMaxPayload = 2 ^ 24 := rfl
  have bound := neededSize_le payload small
  have size : sizeT (neededSize payload) = neededSize payload := sizeT_small _ (by omega)
  have value := payload_value payload small
  have written : copy (copy (store out 0 flag) 1
        (varintField (shortestForm payload.length) payload.length))
        (1 + 2 ^ shortestForm payload.length) payload =
      copy out 0 (canonicalFrame flag payload) := by
    rw [canonicalFrame, frameBytes, copy, copy_append, length_varintField]
  have reserved := (reserved_bits flag).mpr valid
  unfold neededSize at size room
  simp only [wtdFrameEncode, reserved, ne_eq, not_true_eq_false, if_false, gt_iff_lt,
    if_neg (show ¬ wtdFrameMaxPayload < payload.length by omega), size,
    if_neg (Nat.not_lt.mpr room), wtdFrameEncodeVarint_eq _ _ _ value, written, neededSize]

theorem canonicalFrame_written (flag : UInt8) (payload : List UInt8) (out : Nat -> UInt8)
    (small : payload.length ≤ wtdFrameMaxPayload) :
    let varint := wtdFrameEncodeVarint payload.length out 1
    neededSize payload = 1 + varint.1 + payload.length ∧
      canonicalFrame flag payload = flag :: slice varint.2 1 varint.1 ++ payload := by
  rw [wtdFrameEncodeVarint_eq _ _ _ (payload_value payload small)]
  constructor
  · rw [neededSize, varintSize_eq]
  · have field := slice_copy out 1 (varintField (shortestForm payload.length) payload.length)
    rw [length_varintField] at field
    rw [canonicalFrame, frameBytes, field]
    rfl

-- The checks in the order the encoder makes them, and what each leaves behind.
theorem wtdFrameEncode_cases (flag : UInt8) (payload : List UInt8) (out : Nat -> UInt8)
    (outSize outLen : Nat) :
    (flag &&& ~~~wtdFrameFlagMask ≠ 0 ∧
      wtdFrameEncode flag payload out outSize outLen = { status := .errReserved, out, outLen }) ∨
    (flag &&& ~~~wtdFrameFlagMask = 0 ∧ wtdFrameMaxPayload < payload.length ∧
      wtdFrameEncode flag payload out outSize outLen = { status := .errTooBig, out, outLen }) ∨
    (flag &&& ~~~wtdFrameFlagMask = 0 ∧ payload.length ≤ wtdFrameMaxPayload ∧
      outSize < neededSize payload ∧
      wtdFrameEncode flag payload out outSize outLen =
        { status := .errBufTooSmall, out, outLen }) ∨
    (flag &&& ~~~wtdFrameFlagMask = 0 ∧ payload.length ≤ wtdFrameMaxPayload ∧
      neededSize payload ≤ outSize ∧
      wtdFrameEncode flag payload out outSize outLen =
        { status := .ok, out := copy out 0 (canonicalFrame flag payload),
          outLen := neededSize payload }) := by
  by_cases reserved : flag &&& ~~~wtdFrameFlagMask = 0
  · by_cases small : payload.length ≤ wtdFrameMaxPayload
    · by_cases room : neededSize payload ≤ outSize
      · have valid := (reserved_bits flag).mp reserved
        exact .inr (.inr (.inr ⟨reserved, small, room,
          wtdFrameEncode_ok flag payload out outSize outLen valid small room⟩))
      · have capped : wtdFrameMaxPayload = 2 ^ 24 := rfl
        have bound := neededSize_le payload small
        have size : sizeT (neededSize payload) = neededSize payload := sizeT_small _ (by omega)
        have short : outSize < neededSize payload := by omega
        refine .inr (.inr (.inl ⟨reserved, small, short, ?_⟩))
        unfold neededSize at size short
        simp [wtdFrameEncode, reserved, Nat.not_lt.mpr small, size, short]
    · exact .inr (.inl ⟨reserved, by omega, by simp [wtdFrameEncode, reserved, small]⟩)
  · exact .inl ⟨reserved, by simp [wtdFrameEncode, reserved]⟩

theorem wtdFrameEncode_all_or_nothing (flag : UInt8) (payload : List UInt8) (out : Nat -> UInt8)
    (outSize outLen : Nat) :
    ∃ e varint, wtdFrameEncode flag payload out outSize outLen = e ∧
    wtdFrameEncodeVarint payload.length (store out 0 flag) 1 = varint ∧
    (e.status = .ok ↔ flag &&& ~~~wtdFrameFlagMask = 0 ∧
      payload.length ≤ wtdFrameMaxPayload ∧
      1 + varintSize payload.length + payload.length ≤ outSize) ∧
    (e.status = .ok ->
      e.outLen = 1 + varint.1 + payload.length ∧
      slice e.out 0 e.outLen = canonicalFrame flag payload ∧
      canonicalFrame flag payload = flag :: slice varint.2 1 varint.1 ++ payload ∧
      ∀ index, e.outLen ≤ index -> e.out index = out index) ∧
    (e.status ≠ .ok -> e.out = out ∧ e.outLen = outLen) ∧
    (e.status = .errReserved ↔ flag &&& ~~~wtdFrameFlagMask ≠ 0) ∧
    (e.status = .errTooBig ↔ flag &&& ~~~wtdFrameFlagMask = 0 ∧
      wtdFrameMaxPayload < payload.length) ∧
    (e.status = .errBufTooSmall ↔ flag &&& ~~~wtdFrameFlagMask = 0 ∧
      payload.length ≤ wtdFrameMaxPayload ∧
      outSize < 1 + varintSize payload.length + payload.length) := by
  have needed : 1 + varintSize payload.length + payload.length = neededSize payload := rfl
  rw [needed]
  refine ⟨_, _, rfl, rfl, ?_⟩
  rcases wtdFrameEncode_cases flag payload out outSize outLen with
    ⟨reserved, eq⟩ | ⟨valid, big, eq⟩ | ⟨valid, small, short, eq⟩ | ⟨valid, small, room, eq⟩
  · simp [eq, reserved]
  · simp [eq, valid, big]
  · simp [eq, valid, small, short]
  · obtain ⟨size, bytes⟩ := canonicalFrame_written flag payload (store out 0 flag) small
    have length := length_canonicalFrame flag payload
    rw [eq]
    refine ⟨?_, ?_, ?_, ?_, ?_, ?_⟩
    · simp [valid, small, room]
    · intro _
      dsimp only
      refine ⟨size, ?_, bytes, fun index above => copy_above out 0 _ index (by omega)⟩
      rw [← length, slice_copy]
    · simp
    · simp [valid]
    · simp [small]
    · simp [room]

theorem encoded_slice (flag : UInt8) (payload : List UInt8) (out : Nat -> UInt8) :
    slice (copy out 0 (canonicalFrame flag payload)) 0 (neededSize payload) =
      canonicalFrame flag payload := by
  rw [← length_canonicalFrame flag payload, slice_copy]

def Decoded.Shortest (d : Decoded) : Prop :=
  ∀ form < 4, d.payloadLen < varintLimit form -> d.payload - 1 ≤ 2 ^ form

theorem frameBytes_injective (form other : Nat) (flag : UInt8) (payload : List UInt8)
    (same : frameBytes form flag payload = frameBytes other flag payload) : form = other := by
  have length := congrArg List.length same
  simp only [length_frameBytes] at length
  exact Nat.pow_right_injective (le_refl 2) (by simpa using length)

theorem shortest_iff (form : Nat) (payload : List UInt8) (known : form < 4)
    (fits : payload.length < varintLimit form) :
    form = shortestForm payload.length ↔
      ∀ other < 4, payload.length < varintLimit other -> 2 ^ form ≤ 2 ^ other := by
  constructor
  · rintro rfl other ok room
    rw [← varintSize_eq]
    exact varintSize_le _ other ok room
  · intro least
    have smaller := shortestForm_le _ form known fits
    have limit : payload.length < varintLimit 3 := by
      have wide := varintLimit_mono form 3 (by omega)
      omega
    have larger := least _ (shortestForm_lt _) (shortestForm_fits _ limit)
    have exponent := (Nat.pow_le_pow_iff_right (by decide)).mp larger
    omega

theorem wtdFrameEncode_reencode (buf : List UInt8) (d : Decoded) (out : Nat -> UInt8)
    (outSize outLen : Nat) (ok : wtdFrameDecode buf = .ok d)
    (room : neededSize (d.bytes buf) ≤ outSize) :
    let e := wtdFrameEncode d.flag (d.bytes buf) out outSize outLen
    e.status = .ok ∧ e.outLen ≤ d.consumed ∧
      (slice e.out 0 e.outLen = buf.take d.consumed ↔ d.Shortest) := by
  obtain ⟨form, flag, payload, rest, rfl, valid, small, known, fits, rfl⟩ :=
    wtdFrameDecode_ok_inv buf d ok
  simp only [Decoded.bytes, frame_slice] at room ⊢
  rw [wtdFrameEncode_ok flag payload out outSize outLen valid small room]
  have shorter := varintSize_le payload.length form known fits
  refine ⟨rfl, ?_, ?_⟩
  · simp only [neededSize, length_frameBytes]
    omega
  · simp only [encoded_slice, List.take_left, Decoded.Shortest, Nat.add_sub_cancel_left]
    rw [← shortest_iff form payload known fits, canonicalFrame]
    constructor
    · intro same
      exact (frameBytes_injective _ _ _ _ same).symm
    · rintro same
      rw [← same]

theorem wtdFrame_codec_bijection :
    (∀ flag payload rest out outSize outLen, KnownFlag flag ->
      payload.length ≤ wtdFrameMaxPayload -> neededSize payload ≤ outSize ->
      let e := wtdFrameEncode flag payload out outSize outLen
      e.status = .ok ∧ ∃ d, wtdFrameDecode (slice e.out 0 e.outLen ++ rest) = .ok d ∧
        d.flag = flag ∧ d.bytes (slice e.out 0 e.outLen ++ rest) = payload ∧
        d.consumed = e.outLen) ∧
    (∀ buf d out outSize outLen, wtdFrameDecode buf = .ok d ->
      neededSize (d.bytes buf) ≤ outSize ->
      let e := wtdFrameEncode d.flag (d.bytes buf) out outSize outLen
      e.status = .ok ∧ e.outLen ≤ d.consumed ∧
        (slice e.out 0 e.outLen = buf.take d.consumed ↔ d.Shortest)) := by
  constructor
  · intro flag payload rest out outSize outLen valid small room
    obtain ⟨d, ok, sameFlag, consumed, -, -, -, bytes⟩ :=
      wtdFrameDecode_of_frame flag payload _ rest (canonicalFrame_isFrame flag payload valid small)
    rw [wtdFrameEncode_ok flag payload out outSize outLen valid small room]
    simp only [encoded_slice]
    exact ⟨trivial, d, ok, sameFlag, bytes, by rw [consumed, length_canonicalFrame]⟩
  · intro buf d out outSize outLen ok room
    exact wtdFrameEncode_reencode buf d out outSize outLen ok room

-- A two-byte length field for a one-byte payload decodes but does not survive re-encoding.
theorem wtdFrame_codec_two_byte_field :
    wtdFrameDecode [0, 0x40, 1, 9] = .ok ⟨4, 0, 3, 1⟩ ∧
    (let e := wtdFrameEncode 0 [9] (fun _ => 0) 3 0;
      e.status = .ok ∧ e.outLen ≤ 4 ∧
        (slice e.out 0 e.outLen = [0, 0x40, 1, 9] ↔ (Decoded.mk 4 0 3 1).Shortest)) :=
  ⟨by decide, wtdFrame_codec_bijection.2 [0, 0x40, 1, 9] ⟨4, 0, 3, 1⟩ (fun _ => 0) 3 0
    (by decide) (by decide)⟩

end WebTransportD.Frame
