import WebTransportD.Core.FrameVarint

set_option autoImplicit false

namespace WebTransportD.Frame

open Memory

def KnownFlag (flag : UInt8) : Prop :=
  flag = wtdFrameFlagReliable ∨ flag = wtdFrameFlagUnreliable

instance (flag : UInt8) : Decidable (KnownFlag flag) :=
  inferInstanceAs (Decidable (_ ∨ _))

def frameBytes (form : Nat) (flag : UInt8) (payload : List UInt8) : List UInt8 :=
  flag :: (varintField form payload.length ++ payload)

def IsFrame (flag : UInt8) (payload bytes : List UInt8) : Prop :=
  KnownFlag flag ∧ payload.length ≤ wtdFrameMaxPayload ∧
    ∃ field, IsVarint payload.length field ∧ bytes = flag :: (field ++ payload)

theorem reserved_bits (flag : UInt8) : flag &&& ~~~wtdFrameFlagMask = 0 ↔ KnownFlag flag := by
  have every : ∀ i : Fin 256, UInt8.ofNat i.val &&& ~~~wtdFrameFlagMask = 0 ↔
      KnownFlag (UInt8.ofNat i.val) := by decide +kernel
  simpa using every ⟨flag.toNat, flag.toNat_lt⟩

theorem sizeT_small (n : Nat) (small : n < 2 ^ 64) : sizeT n = n := Nat.mod_eq_of_lt small

@[simp] theorem length_frameBytes (form : Nat) (flag : UInt8) (payload : List UInt8) :
    (frameBytes form flag payload).length = 1 + 2 ^ form + payload.length := by
  simp [frameBytes]
  omega

theorem form_width (form : Nat) (known : form < 4) : 1 ≤ 2 ^ form ∧ 2 ^ form ≤ 8 := by
  rcases form_cases form known with rfl | rfl | rfl | rfl <;> decide

theorem isFrame_iff (flag : UInt8) (payload bytes : List UInt8) :
    IsFrame flag payload bytes ↔
      KnownFlag flag ∧ payload.length ≤ wtdFrameMaxPayload ∧
        ∃ form < 4, payload.length < varintLimit form ∧ bytes = frameBytes form flag payload := by
  constructor
  · rintro ⟨valid, small, field, ⟨form, known, fits, rfl⟩, rfl⟩
    exact ⟨valid, small, form, known, fits, rfl⟩
  · rintro ⟨valid, small, form, known, fits, rfl⟩
    exact ⟨valid, small, _, ⟨form, known, fits, rfl⟩, rfl⟩

theorem wtdFrameDecode_nil : wtdFrameDecode [] = .error .incomplete := rfl

theorem wtdFrameDecode_reserved (b0 : UInt8) (rest : List UInt8) (unknown : ¬ KnownFlag b0) :
    wtdFrameDecode (b0 :: rest) = .error .errReserved := by
  rw [← reserved_bits] at unknown
  simp [wtdFrameDecode, wtdFrameDecodeAccess, unknown]

theorem wtdFrameDecode_cons (b0 : UInt8) (rest : List UInt8) (known : KnownFlag b0)
    (present : rest ≠ []) (vlen plen : Nat)
    (varint : (varintDecode (b0 :: rest) 1 rest.length 0).value = (vlen, plen)) :
    wtdFrameDecode (b0 :: rest) =
      if vlen = 0 then .error .incomplete
      else if wtdFrameMaxPayload < plen then .error .errTooBig
      else if (b0 :: rest).length < sizeT (1 + vlen + plen) then .error .incomplete
      else .ok { consumed := sizeT (1 + vlen + plen), flag := b0, payload := 1 + vlen,
                 payloadLen := plen } := by
  rw [← reserved_bits] at known
  have positive := List.length_pos_of_ne_nil present
  have one : ¬ rest.length + 1 < 1 := by omega
  have two : ¬ rest.length + 1 < 2 := by omega
  simp only [wtdFrameDecode, wtdFrameDecodeAccess, one, two, if_false, Access.bind_value,
    peek_value, List.getD_cons_zero, known, ne_eq, not_true_eq_false, List.length_cons,
    Nat.add_sub_cancel, varint, Access.ite_value, Access.pure_value, gt_iff_lt]

theorem varintDecode_header (b0 : UInt8) (form n : Nat) (rest : List UInt8) (known : form < 4)
    (fits : n < varintLimit form) :
    (varintDecode (b0 :: (varintField form n ++ rest)) 1 (varintField form n ++ rest).length
      0).value = (2 ^ form, n) := by
  have decoded := varintDecode_field (b0 :: (varintField form n ++ rest)) 1 0 form n rest known
    fits rfl
  simpa using decoded

theorem field_ne_nil (form n : Nat) (rest : List UInt8) : varintField form n ++ rest ≠ [] := by
  intro empty
  have length := congrArg List.length empty
  have positive := Nat.one_le_two_pow (n := form)
  simp only [List.length_append, length_varintField, List.length_nil] at length
  omega

theorem wtdFrameDecode_tooBig (b0 : UInt8) (form n : Nat) (rest : List UInt8)
    (flag : KnownFlag b0) (known : form < 4) (fits : n < varintLimit form)
    (big : wtdFrameMaxPayload < n) :
    wtdFrameDecode (b0 :: (varintField form n ++ rest)) = .error .errTooBig := by
  have positive := (form_width form known).1
  rw [wtdFrameDecode_cons b0 _ flag (field_ne_nil form n rest) _ _
    (varintDecode_header b0 form n rest known fits)]
  rw [if_neg (by omega), if_pos big]

theorem wtdFrameDecode_frame (form : Nat) (flag : UInt8) (payload rest : List UInt8)
    (valid : KnownFlag flag) (small : payload.length ≤ wtdFrameMaxPayload) (known : form < 4)
    (fits : payload.length < varintLimit form) :
    wtdFrameDecode (frameBytes form flag payload ++ rest) =
      .ok { consumed := (frameBytes form flag payload).length, flag,
            payload := 1 + 2 ^ form, payloadLen := payload.length } := by
  have width := form_width form known
  have capped : wtdFrameMaxPayload = 2 ^ 24 := rfl
  have total : sizeT (1 + 2 ^ form + payload.length) = 1 + 2 ^ form + payload.length :=
    sizeT_small _ (by omega)
  have shape : frameBytes form flag payload ++ rest =
      flag :: (varintField form payload.length ++ (payload ++ rest)) := by
    simp [frameBytes]
  rw [shape, wtdFrameDecode_cons flag _ valid (field_ne_nil _ _ _) _ _
    (varintDecode_header flag form payload.length _ known fits), total, length_frameBytes]
  rw [if_neg (by omega), if_neg (by omega), if_neg]
  simp only [List.length_cons, List.length_append, length_varintField]
  omega

theorem wtdFrameDecode_cases (buf : List UInt8) :
    wtdFrameDecode buf = .error .incomplete ∨
    (∃ b0 rest, buf = b0 :: rest ∧ ¬ KnownFlag b0) ∨
    (∃ b0 form n rest, buf = b0 :: (varintField form n ++ rest) ∧ KnownFlag b0 ∧ form < 4 ∧
      n < varintLimit form ∧ wtdFrameMaxPayload < n) ∨
    (∃ form flag payload rest, buf = frameBytes form flag payload ++ rest ∧ KnownFlag flag ∧
      payload.length ≤ wtdFrameMaxPayload ∧ form < 4 ∧ payload.length < varintLimit form) := by
  rcases buf with _ | ⟨b0, rest⟩
  · exact .inl rfl
  by_cases flag : KnownFlag b0
  swap
  · exact .inr (.inl ⟨b0, rest, rfl, flag⟩)
  by_cases present : rest = []
  · subst present
    rw [← reserved_bits] at flag
    exact .inl (by simp [wtdFrameDecode, wtdFrameDecodeAccess, flag])
  rcases varint : (varintDecode (b0 :: rest) 1 rest.length 0).value with ⟨vlen, plen⟩
  have decoded := wtdFrameDecode_cons b0 rest flag present vlen plen varint
  by_cases none : vlen = 0
  · exact .inl (by rw [decoded, if_pos none])
  obtain ⟨form, known, fits, rfl, shape⟩ := varintDecode_sound (b0 :: rest) 1 0 vlen plen
    (by simpa using List.length_pos_of_ne_nil present) (by simpa using varint) none
  simp only [List.drop_one, List.tail_cons] at shape
  rw [if_neg none] at decoded
  by_cases big : wtdFrameMaxPayload < plen
  · exact .inr (.inr (.inl ⟨b0, form, plen, _, by rw [← shape], flag, known, fits, big⟩))
  have width := form_width form known
  have capped : wtdFrameMaxPayload = 2 ^ 24 := rfl
  rw [if_neg big, sizeT_small _ (by omega)] at decoded
  by_cases short : (b0 :: rest).length < 1 + 2 ^ form + plen
  · exact .inl (by rw [decoded, if_pos short])
  refine .inr (.inr (.inr ⟨form, b0, (rest.drop (2 ^ form)).take plen,
    (rest.drop (2 ^ form)).drop plen, ?_, flag, ?_⟩))
  all_goals
    have taken : ((rest.drop (2 ^ form)).take plen).length = plen := by
      simp only [List.length_cons] at short
      simp only [List.length_take, List.length_drop]
      omega
    simp only [frameBytes, taken]
  · rw [Nat.add_comm, List.drop_succ_cons] at shape
    rw [List.cons_append, List.append_assoc, List.take_append_drop, ← shape]
  · exact ⟨by omega, known, fits⟩

theorem wtdFrameDecode_ok_inv (buf : List UInt8) (d : Decoded) (ok : wtdFrameDecode buf = .ok d) :
    ∃ form flag payload rest, buf = frameBytes form flag payload ++ rest ∧ KnownFlag flag ∧
      payload.length ≤ wtdFrameMaxPayload ∧ form < 4 ∧ payload.length < varintLimit form ∧
      d = { consumed := (frameBytes form flag payload).length, flag,
            payload := 1 + 2 ^ form, payloadLen := payload.length } := by
  rcases wtdFrameDecode_cases buf with waiting | ⟨b0, rest, rfl, unknown⟩ |
    ⟨b0, form, n, rest, rfl, flag, known, fits, big⟩ |
    ⟨form, flag, payload, rest, rfl, valid, small, known, fits⟩
  · simp [waiting] at ok
  · simp [wtdFrameDecode_reserved b0 rest unknown] at ok
  · simp [wtdFrameDecode_tooBig b0 form n rest flag known fits big] at ok
  · rw [wtdFrameDecode_frame form flag payload rest valid small known fits] at ok
    exact ⟨form, flag, payload, rest, rfl, valid, small, known, fits, (Except.ok.inj ok).symm⟩

theorem frame_slice (form : Nat) (flag : UInt8) (payload rest : List UInt8) :
    ((frameBytes form flag payload ++ rest).drop (1 + 2 ^ form)).take payload.length = payload := by
  have skipped : (frameBytes form flag payload ++ rest).drop (1 + 2 ^ form) = payload ++ rest := by
    rw [Nat.add_comm, frameBytes, List.cons_append, List.drop_succ_cons, List.append_assoc,
      List.drop_left' (length_varintField _ _)]
  rw [skipped, List.take_left]

theorem wtdFrameDecode_stable (buf ext : List UInt8)
    (settled : wtdFrameDecode buf ≠ .error .incomplete) :
    wtdFrameDecode (buf ++ ext) = wtdFrameDecode buf := by
  rcases wtdFrameDecode_cases buf with waiting | ⟨b0, rest, rfl, unknown⟩ |
    ⟨b0, form, n, rest, rfl, flag, known, fits, big⟩ |
    ⟨form, flag, payload, rest, rfl, valid, small, known, fits⟩
  · exact absurd waiting settled
  · rw [List.cons_append, wtdFrameDecode_reserved _ _ unknown, wtdFrameDecode_reserved _ _ unknown]
  · rw [List.cons_append, List.append_assoc, wtdFrameDecode_tooBig _ _ _ _ flag known fits big,
      wtdFrameDecode_tooBig _ _ _ _ flag known fits big]
  · rw [List.append_assoc, wtdFrameDecode_frame _ _ _ _ valid small known fits,
      wtdFrameDecode_frame _ _ _ _ valid small known fits]

theorem wtdFrameDecode_of_frame (flag : UInt8) (payload p rest : List UInt8)
    (frame : IsFrame flag payload p) :
    ∃ d, wtdFrameDecode (p ++ rest) = .ok d ∧ d.flag = flag ∧ d.consumed = p.length ∧
      2 ≤ d.consumed ∧ d.payloadLen = payload.length ∧ d.payload + d.payloadLen = p.length ∧
      d.bytes (p ++ rest) = payload := by
  obtain ⟨valid, small, form, known, fits, rfl⟩ := (isFrame_iff flag payload p).mp frame
  have width := form_width form known
  have length := length_frameBytes form flag payload
  refine ⟨_, wtdFrameDecode_frame form flag payload rest valid small known fits, rfl, rfl, ?_, rfl,
    ?_, frame_slice form flag payload rest⟩
  · simp only
    omega
  · simp only
    omega

theorem varintDecode_reads (buf : List UInt8) (base avail old i : Nat) (some : 1 ≤ avail)
    (read : i ∈ (varintDecode buf base avail old).reads) : i < base + avail := by
  simp only [varintDecode, Access.bind_reads, Access.ite_reads, Access.pure_reads, peek_reads]
    at read
  split_ifs at read <;> simp at read <;> omega

theorem wtdFrameDecodeAccess_reads (buf : List UInt8) (i : Nat)
    (read : i ∈ (wtdFrameDecodeAccess buf).reads) : i < buf.length := by
  simp only [wtdFrameDecodeAccess, Access.ite_reads, Access.bind_reads, Access.pure_reads,
    peek_reads, ite_self] at read
  split_ifs at read with empty reserved short <;> simp at read
  · omega
  · omega
  · rcases read with rfl | read
    · omega
    · have bound := varintDecode_reads buf 1 (buf.length - 1) 0 i (by omega) (by simpa using read)
      omega

theorem wtdFrameDecode_ok_iff (buf : List UInt8) :
    (∃ d, wtdFrameDecode buf = .ok d) ↔ ∃ p flag payload, p <+: buf ∧ IsFrame flag payload p := by
  constructor
  · rintro ⟨d, ok⟩
    obtain ⟨form, flag, payload, rest, rfl, valid, small, known, fits, -⟩ :=
      wtdFrameDecode_ok_inv buf d ok
    exact ⟨frameBytes form flag payload, flag, payload, List.prefix_append _ _,
      (isFrame_iff _ _ _).mpr ⟨valid, small, form, known, fits, rfl⟩⟩
  · rintro ⟨p, flag, payload, ⟨rest, rfl⟩, frame⟩
    obtain ⟨d, ok, -⟩ := wtdFrameDecode_of_frame flag payload p rest frame
    exact ⟨d, ok⟩

theorem wtdFrameDecode_incomplete_iff (buf : List UInt8) :
    wtdFrameDecode buf = .error .incomplete ↔
      (¬ ∃ p flag payload, p <+: buf ∧ IsFrame flag payload p) ∧
      ¬ ∃ p e, p <+: buf ∧ e ≠ .incomplete ∧ wtdFrameDecode p = .error e := by
  constructor
  · intro waiting
    constructor
    · rw [← wtdFrameDecode_ok_iff]
      rintro ⟨d, ok⟩
      simp [waiting] at ok
    · rintro ⟨p, e, ⟨rest, rfl⟩, settled, failed⟩
      have same := wtdFrameDecode_stable p rest (by simpa [failed] using settled)
      rw [waiting, failed, Except.error.injEq] at same
      exact settled same.symm
  · rintro ⟨frameless, errorless⟩
    rw [← wtdFrameDecode_ok_iff] at frameless
    rcases result : wtdFrameDecode buf with e | d
    · by_cases waiting : e = .incomplete
      · rw [waiting]
      · exact absurd ⟨buf, e, List.prefix_refl buf, waiting, result⟩ errorless
    · exact absurd ⟨d, result⟩ frameless

theorem wtdFrameDecode_bytes_stable (buf ext : List UInt8) (d : Decoded)
    (ok : wtdFrameDecode buf = .ok d) : d.bytes (buf ++ ext) = d.bytes buf := by
  obtain ⟨form, flag, payload, rest, rfl, -, -, -, -, rfl⟩ := wtdFrameDecode_ok_inv buf d ok
  simp only [Decoded.bytes]
  rw [List.append_assoc, frame_slice, frame_slice]

theorem consumed_pos (buf : List UInt8) (d : Decoded) (ok : wtdFrameDecode buf = .ok d) :
    0 < d.consumed := by
  obtain ⟨form, flag, payload, rest, -, -, -, known, -, rfl⟩ := wtdFrameDecode_ok_inv buf d ok
  have width := form_width form known
  simp only [length_frameBytes]
  omega

theorem consumed_le (buf : List UInt8) (d : Decoded) (ok : wtdFrameDecode buf = .ok d) :
    d.consumed ≤ buf.length := by
  obtain ⟨form, flag, payload, rest, rfl, -, -, -, -, rfl⟩ := wtdFrameDecode_ok_inv buf d ok
  simp only [List.length_append]
  omega

theorem wtdFrameDecode_recognises_grammar (buf : List UInt8) :
    (∀ i ∈ (wtdFrameDecodeAccess buf).reads, i < buf.length) ∧
    ((∃ d, wtdFrameDecode buf = .ok d) ↔ ∃ p flag payload, p <+: buf ∧ IsFrame flag payload p) ∧
    (∀ p flag payload, p <+: buf -> IsFrame flag payload p ->
      ∃ d, wtdFrameDecode buf = .ok d ∧ d.flag = flag ∧ d.consumed = p.length ∧
        2 ≤ d.consumed ∧ d.consumed ≤ buf.length ∧ d.payloadLen = payload.length ∧
        d.payload + d.payloadLen = p.length ∧ d.bytes buf = payload) ∧
    (∀ ext d, wtdFrameDecode buf = .ok d ->
      wtdFrameDecode (buf ++ ext) = .ok d ∧ d.bytes (buf ++ ext) = d.bytes buf) ∧
    (∀ ext e, e = .errReserved ∨ e = .errTooBig -> wtdFrameDecode buf = .error e ->
      wtdFrameDecode (buf ++ ext) = .error e) ∧
    (wtdFrameDecode buf = .error .incomplete ↔
      (¬ ∃ p flag payload, p <+: buf ∧ IsFrame flag payload p) ∧
      ¬ ∃ p e, p <+: buf ∧ e ≠ .incomplete ∧ wtdFrameDecode p = .error e) := by
  refine ⟨wtdFrameDecodeAccess_reads buf, wtdFrameDecode_ok_iff buf, ?_, ?_, ?_,
    wtdFrameDecode_incomplete_iff buf⟩
  · rintro p flag payload ⟨rest, rfl⟩ frame
    obtain ⟨d, ok, sameFlag, consumed, two, length, last, bytes⟩ :=
      wtdFrameDecode_of_frame flag payload p rest frame
    have within : d.consumed ≤ (p ++ rest).length := by
      rw [consumed, List.length_append]
      omega
    exact ⟨d, ok, sameFlag, consumed, two, within, length, last, bytes⟩
  · intro ext d ok
    refine ⟨?_, wtdFrameDecode_bytes_stable buf ext d ok⟩
    rw [wtdFrameDecode_stable buf ext (by simp [ok]), ok]
  · intro ext e settled failed
    rw [wtdFrameDecode_stable buf ext, failed]
    rcases settled with rfl | rfl <;> simp [failed]

end WebTransportD.Frame
