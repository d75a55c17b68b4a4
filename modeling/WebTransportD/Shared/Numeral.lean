import Mathlib.Data.Nat.Digits.Defs

set_option autoImplicit false

namespace WebTransportD.Numeral

def isSpace (c : UInt8) : Bool :=
  c == 0x20 || (0x09 ≤ c && c ≤ 0x0d)

def isDigit (c : UInt8) : Bool :=
  0x30 ≤ c && c ≤ 0x39

def digitValue (c : UInt8) : Nat :=
  c.toNat - 0x30

def magnitude (s : List UInt8) : Nat :=
  (s.takeWhile isDigit).foldl (fun n c => digitValue c + 10 * n) 0

-- `strtol(s, NULL, 10)` where a long goes from `-limit` to `limit - 1`.
def strtol (limit : Nat) (s : List UInt8) : Int :=
  let rest := s.dropWhile isSpace
  if rest.head? = some 0x2d then max (-magnitude rest.tail) (-limit)
  else if rest.head? = some 0x2b then min (magnitude rest.tail) (limit - 1)
  else min (magnitude rest) (limit - 1)

def digitChar (d : Nat) : UInt8 :=
  UInt8.ofNat (0x30 + d)

def decimal (n : Nat) : List UInt8 :=
  if n = 0 then [digitChar 0] else (Nat.digits 10 n).reverse.map digitChar

theorem digitChar_spec (d : Nat) (small : d < 10) :
    isDigit (digitChar d) = true ∧ isSpace (digitChar d) = false ∧ digitChar d ≠ 0x2d ∧
      digitChar d ≠ 0x2b ∧ digitValue (digitChar d) = d := by
  have all : ∀ d < 10, isDigit (digitChar d) = true ∧ isSpace (digitChar d) = false ∧
      digitChar d ≠ 0x2d ∧ digitChar d ≠ 0x2b ∧ digitValue (digitChar d) = d := by
    decide
  exact all d small

theorem magnitude_digits (ds : List Nat) (small : ∀ d ∈ ds, d < 10) :
    magnitude (ds.reverse.map digitChar) = Nat.ofDigits 10 ds := by
  have digits : ∀ c ∈ ds.reverse.map digitChar, isDigit c = true := by
    intro c member
    obtain ⟨d, inside, rfl⟩ := List.mem_map.mp member
    exact (digitChar_spec d (small d (List.mem_reverse.mp inside))).1
  have whole : (ds.reverse.map digitChar).takeWhile isDigit = ds.reverse.map digitChar := by
    rw [← List.append_nil (ds.reverse.map digitChar), List.takeWhile_append_of_pos digits]
    rfl
  rw [magnitude, whole, List.foldl_map, List.foldl_reverse]
  clear whole
  induction ds with
  | nil => rfl
  | cons d rest ih =>
    have first := digitChar_spec d (small d (by simp))
    have later := ih (fun e inside => small e (List.mem_cons_of_mem d inside))
      (fun c member => digits c (by simp_all))
    rw [List.foldr_cons, later, Nat.ofDigits_cons, first.2.2.2.2]

theorem strtol_decimal (limit n : Nat) (fits : n < limit) : strtol limit (decimal n) = n := by
  obtain ⟨ds, small, nonempty, printed, value⟩ : ∃ ds : List Nat, (∀ d ∈ ds, d < 10) ∧ ds ≠ [] ∧
      decimal n = ds.reverse.map digitChar ∧ Nat.ofDigits 10 ds = n := by
    by_cases zero : n = 0
    · exact ⟨[0], by simp, by simp, by simp [decimal, zero], by simp [zero]⟩
    · exact ⟨Nat.digits 10 n, fun d member => Nat.digits_lt_base (by decide) member,
        Nat.digits_ne_nil_iff_ne_zero.mpr zero, by simp [decimal, zero],
        Nat.ofDigits_digits 10 n⟩
  have read := magnitude_digits ds small
  rw [← printed, value] at read
  obtain ⟨d, rest, split⟩ := List.exists_cons_of_ne_nil (mt List.reverse_eq_nil_iff.mp nonempty)
  have member : d ∈ ds := List.mem_reverse.mp (by simp [split])
  obtain ⟨-, solid, minus, plus, -⟩ := digitChar_spec d (small d member)
  rw [split, List.map_cons] at printed
  rw [printed] at read ⊢
  have start : (digitChar d :: rest.map digitChar).dropWhile isSpace =
      digitChar d :: rest.map digitChar := by
    simp [solid]
  simp only [strtol, start, List.head?_cons, Option.some.injEq, minus, plus, if_false, read]
  omega

end WebTransportD.Numeral
