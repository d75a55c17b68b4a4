import Mathlib.Data.Nat.Bitwise
import Mathlib.Tactic.Linarith
import Mathlib.Tactic.Positivity
import Mathlib.Tactic.Ring

set_option autoImplicit false

namespace WebTransportD.BigEndian

def value : List UInt8 -> Nat
  | [] => 0
  | byte :: rest => byte.toNat * 256 ^ rest.length + value rest

def bytes : Nat -> Nat -> List UInt8
  | 0, _ => []
  | width + 1, n => UInt8.ofNat (n / 256 ^ width) :: bytes width n

@[simp] theorem length_bytes (width n : Nat) : (bytes width n).length = width := by
  induction width with
  | zero => rfl
  | succ width ih => simp [bytes, ih]

theorem value_lt (digits : List UInt8) : value digits < 256 ^ digits.length := by
  induction digits with
  | nil => simp [value]
  | cons byte rest ih =>
    have small : byte.toNat + 1 ≤ 256 := byte.toNat_lt
    have scaled := Nat.mul_le_mul_right (256 ^ rest.length) small
    simp only [value, List.length_cons, pow_succ]
    linarith

theorem value_bytes (width n : Nat) : value (bytes width n) = n % 256 ^ width := by
  induction width with
  | zero => simp [bytes, value, Nat.mod_one]
  | succ width ih =>
    have digit : (UInt8.ofNat (n / 256 ^ width)).toNat = n / 256 ^ width % 256 := by simp
    rw [bytes, value, length_bytes, ih, digit, pow_succ, Nat.mod_mul]
    ring

theorem value_bytes_of_lt (width n : Nat) (bound : n < 256 ^ width) :
    value (bytes width n) = n := by
  rw [value_bytes, Nat.mod_eq_of_lt bound]

theorem ofNat_congr (m n : Nat) (same : m % 256 = n % 256) : UInt8.ofNat m = UInt8.ofNat n := by
  apply UInt8.toNat_inj.mp
  simpa using same

theorem bytes_mod (width n : Nat) : bytes width (n % 256 ^ width) = bytes width n := by
  have lower (w : Nat) : w ≤ width -> bytes w (n % 256 ^ width) = bytes w n := by
    induction w with
    | zero => intro _; rfl
    | succ w ih =>
      intro within
      have split : 256 ^ width = 256 ^ w * (256 * 256 ^ (width - (w + 1))) := by
        rw [← pow_succ', ← pow_add]
        congr 1
        omega
      simp only [bytes, ih (by omega), List.cons.injEq, and_true]
      apply ofNat_congr
      rw [split, Nat.mod_mul_right_div_self, Nat.mod_mul_right_mod]
  exact lower width le_rfl

theorem bytes_value (digits : List UInt8) : bytes digits.length (value digits) = digits := by
  induction digits with
  | nil => rfl
  | cons byte rest ih =>
    have low := value_lt rest
    have tail : bytes rest.length (value (byte :: rest)) = rest := by
      rw [← bytes_mod, value, Nat.mul_add_mod_self_right, Nat.mod_eq_of_lt low, ih]
    have head : value (byte :: rest) / 256 ^ rest.length = byte.toNat := by
      rw [value, Nat.add_comm, Nat.add_mul_div_right _ _ (by positivity), Nat.div_eq_of_lt low,
        Nat.zero_add]
    simp only [List.length_cons, bytes, head, tail, UInt8.ofNat_toNat]

def joined : List UInt8 -> Nat
  | [] => 0
  | byte :: rest => byte.toNat <<< (8 * rest.length) ||| joined rest

theorem joined_value (digits : List UInt8) : joined digits = value digits := by
  induction digits with
  | nil => rfl
  | cons byte rest ih =>
    have low : value rest < 2 ^ (8 * rest.length) := by
      simpa [pow_mul] using value_lt rest
    simp only [joined, value, ih]
    rw [← Nat.shiftLeft_add_eq_or_of_lt low, Nat.shiftLeft_eq, pow_mul]
    rfl

end WebTransportD.BigEndian
