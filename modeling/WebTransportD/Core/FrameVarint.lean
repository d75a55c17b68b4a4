import WebTransportD.Core.Frame
import WebTransportD.Shared.BigEndian

set_option autoImplicit false

namespace WebTransportD.Frame

open Memory BigEndian

-- The two top bits of the first byte name the form; a form of width w holds 8 * w - 2 bits.
def varintLimit (form : Nat) : Nat := 2 ^ (8 * 2 ^ form - 2)

def varintField (form n : Nat) : List UInt8 :=
  bytes (2 ^ form) (form * varintLimit form + n)

def IsVarint (n : Nat) (field : List UInt8) : Prop :=
  ∃ form < 4, n < varintLimit form ∧ field = varintField form n

def shortestForm (v : Nat) : Nat :=
  if v < varintLimit 0 then 0
  else if v < varintLimit 1 then 1
  else if v < varintLimit 2 then 2
  else 3

theorem form_cases (form : Nat) (known : form < 4) :
    form = 0 ∨ form = 1 ∨ form = 2 ∨ form = 3 := by
  omega

@[simp] theorem length_varintField (form n : Nat) : (varintField form n).length = 2 ^ form := by
  simp [varintField]

theorem varintLimit_zero : varintLimit 0 = 1 <<< 6 := by decide

theorem varintLimit_one : varintLimit 1 = 1 <<< 14 := by decide

theorem varintLimit_two : varintLimit 2 = 1 <<< 30 := by decide

theorem varintLimit_three : varintLimit 3 = 1 <<< 62 := by decide

theorem varintLimit_eq (form : Nat) : varintLimit form = 64 * 256 ^ (2 ^ form - 1) := by
  have width : 8 * 2 ^ form - 2 = 6 + 8 * (2 ^ form - 1) := by
    have positive := Nat.one_le_two_pow (n := form)
    omega
  rw [varintLimit, width, pow_add, pow_mul]
  norm_num

theorem varintLimit_of_width (form rest : Nat) (width : rest + 1 = 2 ^ form) :
    varintLimit form = 64 * 256 ^ rest := by
  rw [varintLimit_eq, ← width, Nat.add_sub_cancel]

theorem varintLimit_mono (form wider : Nat) (le : form ≤ wider) :
    varintLimit form ≤ varintLimit wider := by
  have width : 2 ^ form ≤ 2 ^ wider := Nat.pow_le_pow_right (by decide) le
  exact Nat.pow_le_pow_right (by decide) (by omega)

theorem field_lt (form n : Nat) (known : form < 4) (fits : n < varintLimit form) :
    form * varintLimit form + n < 256 ^ 2 ^ form := by
  have width : 2 ^ form = 2 ^ form - 1 + 1 := by
    have positive := Nat.one_le_two_pow (n := form)
    omega
  have scaled := Nat.mul_le_mul_right (varintLimit form) (show form + 1 ≤ 4 by omega)
  have top : 256 ^ 2 ^ form = 4 * varintLimit form := by
    rw [varintLimit_eq, width, pow_succ, Nat.add_sub_cancel]
    ring
  rw [top]
  linarith

theorem shortestForm_lt (v : Nat) : shortestForm v < 4 := by
  unfold shortestForm
  split_ifs <;> omega

theorem shortestForm_fits (v : Nat) (bound : v < varintLimit 3) :
    v < varintLimit (shortestForm v) := by
  unfold shortestForm
  split_ifs <;> assumption

theorem shortestForm_le (v form : Nat) (known : form < 4) (fits : v < varintLimit form) :
    shortestForm v ≤ form := by
  unfold shortestForm
  rcases form_cases form known with rfl | rfl | rfl | rfl <;> split_ifs <;> omega

theorem varintSize_eq (v : Nat) : varintSize v = 2 ^ shortestForm v := by
  simp only [varintSize, shortestForm, varintLimit_zero, varintLimit_one, varintLimit_two]
  split_ifs <;> rfl

theorem varintSize_le (v form : Nat) (known : form < 4) (fits : v < varintLimit form) :
    varintSize v ≤ 2 ^ form := by
  rw [varintSize_eq]
  exact Nat.pow_le_pow_right (by decide) (shortestForm_le v form known fits)

theorem tag_byte (form high whole : Nat) (small : high < 64)
    (same : (form * 64 + high) % 256 = whole % 256) :
    UInt8.ofNat whole = UInt8.ofNat (form * 64 ||| high) := by
  have joined := Nat.two_pow_add_eq_or_of_lt (show high < 2 ^ 6 from small) form
  rw [Nat.mul_comm form 64, show 64 * form ||| high = 64 * form + high from joined.symm]
  exact ofNat_congr _ _ (by omega)

theorem low_byte (x whole : Nat) (same : x % 256 = whole % 256) :
    UInt8.ofNat whole = UInt8.ofNat (x &&& 0xff) := by
  rw [show x &&& 0xff = x % 2 ^ 8 from Nat.and_two_pow_sub_one_eq_mod x 8]
  exact ofNat_congr _ _ (by omega)

theorem varintField_zero (v : Nat) : varintField 0 v = [UInt8.ofNat v] := by
  simp [varintField, bytes]

theorem varintField_one (v : Nat) (bound : v < 1 <<< 14) :
    varintField 1 v = [UInt8.ofNat (0x40 ||| v >>> 8), UInt8.ofNat (v &&& 0xff)] := by
  change bytes 2 (1 * 2 ^ 14 + v) = _
  simp only [bytes, Nat.shiftRight_eq_div_pow, List.cons.injEq, and_true]
  refine ⟨tag_byte 1 _ _ ?_ ?_, low_byte _ _ ?_⟩
  all_goals omega

theorem varintField_two (v : Nat) (bound : v < 1 <<< 30) :
    varintField 2 v =
      [UInt8.ofNat (0x80 ||| v >>> 24), UInt8.ofNat (v >>> 16 &&& 0xff),
        UInt8.ofNat (v >>> 8 &&& 0xff), UInt8.ofNat (v &&& 0xff)] := by
  change bytes 4 (2 * 2 ^ 30 + v) = _
  simp only [bytes, Nat.shiftRight_eq_div_pow, List.cons.injEq, and_true]
  refine ⟨tag_byte 2 _ _ ?_ ?_, low_byte _ _ ?_, low_byte _ _ ?_, low_byte _ _ ?_⟩
  all_goals omega

theorem varintField_three (v : Nat) (bound : v < 1 <<< 62) :
    varintField 3 v =
      [UInt8.ofNat (0xc0 ||| v >>> 56), UInt8.ofNat (v >>> 48 &&& 0xff),
        UInt8.ofNat (v >>> 40 &&& 0xff), UInt8.ofNat (v >>> 32 &&& 0xff),
        UInt8.ofNat (v >>> 24 &&& 0xff), UInt8.ofNat (v >>> 16 &&& 0xff),
        UInt8.ofNat (v >>> 8 &&& 0xff), UInt8.ofNat (v &&& 0xff)] := by
  change bytes 8 (3 * 2 ^ 62 + v) = _
  simp only [bytes, Nat.shiftRight_eq_div_pow, List.cons.injEq, and_true]
  refine ⟨tag_byte 3 _ _ ?_ ?_, low_byte _ _ ?_, low_byte _ _ ?_, low_byte _ _ ?_,
    low_byte _ _ ?_, low_byte _ _ ?_, low_byte _ _ ?_, low_byte _ _ ?_⟩
  all_goals omega

theorem wtdFrameEncodeVarint_eq (v : Nat) (out : Nat -> UInt8) (start : Nat)
    (bound : v < varintLimit 3) :
    wtdFrameEncodeVarint v out start =
      (2 ^ shortestForm v, copy out start (varintField (shortestForm v) v)) := by
  rw [varintLimit_three] at bound
  simp only [wtdFrameEncodeVarint, shortestForm, varintLimit_zero, varintLimit_one,
    varintLimit_two]
  split_ifs with one two four
  · rw [varintField_zero]; rfl
  · rw [varintField_one v two]; rfl
  · rw [varintField_two v four]; rfl
  · rw [varintField_three v bound]; rfl

theorem form_toNat (b0 : UInt8) : (b0 >>> 6).toNat = b0.toNat / 64 := by
  simp [Nat.shiftRight_eq_div_pow]

theorem form_lt (b0 : UInt8) : b0.toNat / 64 < 4 := by
  have small := b0.toNat_lt
  omega

theorem low_toNat (b0 : UInt8) : (b0 &&& 0x3f).toNat = b0.toNat % 64 := by
  have masked := Nat.and_two_pow_sub_one_eq_mod b0.toNat 6
  simpa using masked

theorem form_eq (b0 form : UInt8) : b0 >>> 6 = form ↔ b0.toNat / 64 = form.toNat := by
  rw [← UInt8.toNat_inj, form_toNat]

theorem value_split (b0 : UInt8) (tail : List UInt8) :
    value (b0 :: tail) =
      b0.toNat / 64 * (64 * 256 ^ tail.length) + value ((b0 &&& 0x3f) :: tail) := by
  have whole : b0.toNat = b0.toNat / 64 * 64 + b0.toNat % 64 := by omega
  simp only [value, low_toNat]
  conv_lhs => rw [whole]
  ring

theorem value_low_lt (b0 : UInt8) (tail : List UInt8) :
    value ((b0 &&& 0x3f) :: tail) < 64 * 256 ^ tail.length := by
  have low := value_lt tail
  have small : b0.toNat % 64 + 1 ≤ 64 := by omega
  have scaled := Nat.mul_le_mul_right (256 ^ tail.length) small
  simp only [value, low_toNat]
  linarith

theorem getD_drop (buf : List UInt8) (base i : Nat) :
    buf.getD (base + i) default = (buf.drop base).getD i default := by
  simp [List.getD_eq_getElem?_getD]

theorem varintDecode_rest (buf : List UInt8) (base old : Nat) (b0 : UInt8) (tail : List UInt8)
    (here : buf.drop base = b0 :: tail) :
    (varintDecode buf base (tail.length + 1) old).value =
      if tail.length + 1 < 2 ^ (b0.toNat / 64) then (0, old)
      else (2 ^ (b0.toNat / 64),
        value ((b0 &&& 0x3f) :: tail.take (2 ^ (b0.toNat / 64) - 1))) := by
  have first : buf.getD base default = b0 := by
    simpa [here] using getD_drop buf base 0
  simp only [varintDecode, Access.bind_value, Access.ite_value, Access.pure_value, peek_value,
    first, getD_drop, here, form_eq]
  rcases form_cases _ (form_lt b0) with form | form | form | form <;> simp only [form]
  · have kept : b0.toNat % 64 = b0.toNat := by omega
    simp [value, ← low_toNat] at kept ⊢
    exact kept.symm
  · rcases tail with _ | ⟨b1, tail⟩ <;> simp [← joined_value, joined]
  · rcases tail with _ | ⟨b1, _ | ⟨b2, _ | ⟨b3, tail⟩⟩⟩ <;>
      simp [← joined_value, joined, Nat.or_assoc]
  · rcases tail with
      _ | ⟨b1, _ | ⟨b2, _ | ⟨b3, _ | ⟨b4, _ | ⟨b5, _ | ⟨b6, _ | ⟨b7, tail⟩⟩⟩⟩⟩⟩⟩ <;>
      simp [← joined_value, joined, Nat.or_assoc]

theorem quotient_unique (size a b r s : Nat) (left : r < size) (right : s < size)
    (same : a * size + r = b * size + s) : a = b ∧ r = s := by
  have quotient (q t : Nat) (small : t < size) : (q * size + t) / size = q := by
    rw [Nat.mul_comm, Nat.mul_add_div (by omega), Nat.div_eq_of_lt small, Nat.add_zero]
  have equal : a = b := by
    rw [← quotient a r left, ← quotient b s right, same]
  subst equal
  exact ⟨rfl, by omega⟩

theorem varintField_cons (form n : Nat) (known : form < 4) (fits : n < varintLimit form) :
    ∃ b0 tail, varintField form n = b0 :: tail ∧ tail.length + 1 = 2 ^ form ∧
      b0.toNat / 64 = form ∧ value ((b0 &&& 0x3f) :: tail) = n := by
  have whole : value (varintField form n) = form * varintLimit form + n :=
    value_bytes_of_lt _ _ (field_lt form n known fits)
  have width := length_varintField form n
  rcases shape : varintField form n with _ | ⟨b0, tail⟩
  · have positive := Nat.one_le_two_pow (n := form)
    simp only [shape, List.length_nil] at width
    omega
  · rw [shape, List.length_cons] at width
    have limit := varintLimit_of_width form tail.length width
    rw [shape, value_split, ← limit] at whole
    have low := value_low_lt b0 tail
    rw [← limit] at low
    obtain ⟨top, rest⟩ := quotient_unique _ _ _ _ _ low fits whole
    exact ⟨b0, tail, rfl, width, top, rest⟩

theorem varintDecode_field (buf : List UInt8) (base old form n : Nat) (rest : List UInt8)
    (known : form < 4) (fits : n < varintLimit form)
    (here : buf.drop base = varintField form n ++ rest) :
    (varintDecode buf base (buf.length - base) old).value = (2 ^ form, n) := by
  obtain ⟨b0, tail, shape, width, top, low⟩ := varintField_cons form n known fits
  rw [shape, List.cons_append] at here
  have avail : buf.length - base = (tail ++ rest).length + 1 := by
    rw [← List.length_drop, here, List.length_cons]
  have enough : ¬ (tail ++ rest).length + 1 < 2 ^ form := by
    rw [← width, List.length_append]
    omega
  have kept : (tail ++ rest).take (2 ^ form - 1) = tail := by
    rw [← width, Nat.add_sub_cancel, List.take_left]
  rw [avail, varintDecode_rest buf base old b0 _ here, top, if_neg enough, kept, low]

theorem varintField_value (b0 : UInt8) (tail : List UInt8)
    (width : tail.length + 1 = 2 ^ (b0.toNat / 64)) :
    value ((b0 &&& 0x3f) :: tail) < varintLimit (b0.toNat / 64) ∧
      varintField (b0.toNat / 64) (value ((b0 &&& 0x3f) :: tail)) = b0 :: tail := by
  have limit := varintLimit_of_width _ tail.length width
  have digits := bytes_value (b0 :: tail)
  rw [List.length_cons, width] at digits
  constructor
  · rw [limit]
    exact value_low_lt b0 tail
  · rw [varintField, limit, ← value_split, digits]

theorem length_taken (tail : List UInt8) (form : Nat) (enough : ¬ tail.length + 1 < 2 ^ form) :
    (tail.take (2 ^ form - 1)).length + 1 = 2 ^ form := by
  have positive := Nat.one_le_two_pow (n := form)
  rw [List.length_take]
  omega

theorem varintDecode_sound (buf : List UInt8) (base old vlen n : Nat) (inside : base < buf.length)
    (decoded : (varintDecode buf base (buf.length - base) old).value = (vlen, n))
    (present : vlen ≠ 0) :
    ∃ form < 4, n < varintLimit form ∧ vlen = 2 ^ form ∧
      buf.drop base = varintField form n ++ buf.drop (base + vlen) := by
  rcases here : buf.drop base with _ | ⟨b0, tail⟩
  · simp only [List.drop_eq_nil_iff] at here
    omega
  have avail : buf.length - base = tail.length + 1 := by
    rw [← List.length_drop, here, List.length_cons]
  rw [avail, varintDecode_rest buf base old b0 tail here] at decoded
  split_ifs at decoded with short
  · simp only [Prod.mk.injEq] at decoded
    exact absurd decoded.1.symm present
  simp only [Prod.mk.injEq] at decoded
  obtain ⟨rfl, rfl⟩ := decoded
  obtain ⟨fits, field⟩ := varintField_value b0 _ (length_taken tail _ short)
  refine ⟨b0.toNat / 64, form_lt b0, fits, rfl, ?_⟩
  have beyond : buf.drop (base + 2 ^ (b0.toNat / 64)) = tail.drop (2 ^ (b0.toNat / 64) - 1) := by
    have positive := Nat.one_le_two_pow (n := b0.toNat / 64)
    rw [← List.drop_drop, here]
    conv_lhs => rw [show 2 ^ (b0.toNat / 64) = 2 ^ (b0.toNat / 64) - 1 + 1 by omega]
    rfl
  rw [field, beyond, List.cons_append, List.take_append_drop]

def varintWidths : List (Nat × Nat) :=
  [(1, 6), (2, 14), (4, 30), (8, 62)]

def announcedWidth (b0 : UInt8) : Nat := 2 ^ (b0 >>> 6).toNat

theorem mem_varintWidths (width bits : Nat) :
    (width, bits) ∈ varintWidths ↔ ∃ form < 4, width = 2 ^ form ∧ 2 ^ bits = varintLimit form := by
  constructor
  · intro member
    simp only [varintWidths, List.mem_cons, Prod.mk.injEq, List.not_mem_nil, or_false] at member
    rcases member with ⟨rfl, rfl⟩ | ⟨rfl, rfl⟩ | ⟨rfl, rfl⟩ | ⟨rfl, rfl⟩
    · exact ⟨0, by decide, rfl, rfl⟩
    · exact ⟨1, by decide, rfl, rfl⟩
    · exact ⟨2, by decide, rfl, rfl⟩
    · exact ⟨3, by decide, rfl, rfl⟩
  · rintro ⟨form, known, rfl, limit⟩
    obtain rfl : bits = 8 * 2 ^ form - 2 := Nat.pow_right_injective (le_refl 2) limit
    rcases form_cases form known with rfl | rfl | rfl | rfl <;> decide

theorem varintSize_fits (v : Nat) (bound : v < varintLimit 3) :
    ∃ bits, (varintSize v, bits) ∈ varintWidths ∧ v < 2 ^ bits := by
  have fits := shortestForm_fits v bound
  refine ⟨8 * 2 ^ shortestForm v - 2, ?_, fits⟩
  exact (mem_varintWidths _ _).mpr ⟨_, shortestForm_lt v, varintSize_eq v, rfl⟩

theorem wtdFrameEncodeVarint_beyond (v : Nat) (out : Nat -> UInt8) (start : Nat)
    (beyond : varintLimit 3 ≤ v) : wtdFrameEncodeVarint v out start = (0, out) := by
  rw [varintLimit_three] at beyond
  have six : ¬ v < 1 <<< 6 := by omega
  have fourteen : ¬ v < 1 <<< 14 := by omega
  have thirty : ¬ v < 1 <<< 30 := by omega
  simp only [wtdFrameEncodeVarint, six, fourteen, thirty, Nat.not_lt.mpr beyond, if_false]

theorem announcedWidth_eq (b0 : UInt8) : announcedWidth b0 = 2 ^ (b0.toNat / 64) := by
  rw [announcedWidth, form_toNat]

theorem varintDecode_announced (before tail : List UInt8) (b0 : UInt8) (old : Nat) :
    ∃ len n, (varintDecode (before ++ b0 :: tail) before.length (tail.length + 1) old).value =
        (len, n) ∧
      (len = 0 ↔ tail.length + 1 < announcedWidth b0) ∧
      (len ≠ 0 -> len = announcedWidth b0 ∧ n < varintLimit 3 ∧ varintSize n ≤ len) := by
  have here : (before ++ b0 :: tail).drop before.length = b0 :: tail := List.drop_left
  have result := varintDecode_rest (before ++ b0 :: tail) before.length old b0 tail here
  have positive := Nat.two_pow_pos (b0.toNat / 64)
  rw [announcedWidth_eq]
  by_cases short : tail.length + 1 < 2 ^ (b0.toNat / 64)
  · exact ⟨0, old, by rw [result, if_pos short], by simp [short], by simp⟩
  · rw [if_neg short] at result
    obtain ⟨fits, -⟩ := varintField_value b0 _ (length_taken tail _ short)
    have known := form_lt b0
    have wide := varintLimit_mono (b0.toNat / 64) 3 (by omega)
    refine ⟨_, _, result, by omega, fun _ => ⟨rfl, ?_, ?_⟩⟩
    · exact Nat.lt_of_lt_of_le fits wide
    · exact varintSize_le _ _ known fits

theorem varint_exact :
    (∀ v < 2 ^ 62, ∃ n field, n = varintSize v ∧ field.length = n ∧
      (∃ bits, (n, bits) ∈ varintWidths ∧ v < 2 ^ bits) ∧
      (∀ width bits, (width, bits) ∈ varintWidths -> v < 2 ^ bits -> n ≤ width) ∧
      (∀ out start, wtdFrameEncodeVarint v out start = (n, copy out start field)) ∧
      ∀ before rest old, (varintDecode (before ++ (field ++ rest)) before.length
        (field ++ rest).length old).value = (n, v)) ∧
    (∀ v, 2 ^ 62 ≤ v -> ∀ out start, wtdFrameEncodeVarint v out start = (0, out)) ∧
    (∀ before b0 tail old, ∃ len n,
      (varintDecode (before ++ b0 :: tail) before.length (b0 :: tail).length old).value = (len, n) ∧
      (len = 0 ↔ (b0 :: tail).length < announcedWidth b0) ∧
      (len ≠ 0 -> len = announcedWidth b0 ∧ n < 2 ^ 62 ∧ varintSize n ≤ len)) := by
  have limit : varintLimit 3 = 2 ^ 62 := rfl
  simp only [← limit]
  refine ⟨?_, fun v beyond out start => wtdFrameEncodeVarint_beyond v out start beyond,
    fun before b0 tail old => varintDecode_announced before tail b0 old⟩
  intro v bound
  refine ⟨varintSize v, varintField (shortestForm v) v, rfl, ?_, varintSize_fits v bound, ?_, ?_,
    ?_⟩
  · rw [length_varintField, varintSize_eq]
  · intro width bits member fits
    obtain ⟨form, known, rfl, same⟩ := (mem_varintWidths width bits).mp member
    exact varintSize_le v form known (same ▸ fits)
  · intro out start
    rw [wtdFrameEncodeVarint_eq v out start bound, varintSize_eq]
  · intro before rest old
    have here : (before ++ (varintField (shortestForm v) v ++ rest)).drop before.length =
        varintField (shortestForm v) v ++ rest := List.drop_left
    have decoded := varintDecode_field _ before.length old _ v rest (shortestForm_lt v)
      (shortestForm_fits v bound) here
    rw [List.length_append, Nat.add_sub_cancel_left] at decoded
    rw [decoded, varintSize_eq]

-- The largest value, in the form that no frame of the daemon uses.
theorem varint_exact_largest :
    ∃ field : List UInt8, field.length = 8 ∧
      (∀ out start, wtdFrameEncodeVarint (2 ^ 62 - 1) out start = (8, copy out start field)) ∧
      (varintDecode (field ++ [7]) 0 9 0).value = (8, 2 ^ 62 - 1) := by
  obtain ⟨n, field, size, length, -, -, written, decoded⟩ := varint_exact.1 (2 ^ 62 - 1) (by decide)
  obtain rfl : n = 8 := size
  refine ⟨field, length, written, ?_⟩
  have whole := decoded [] [7] 0
  rwa [List.length_append, length] at whole

end WebTransportD.Frame
