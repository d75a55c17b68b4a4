import WebTransportD.Shared.CString

set_option autoImplicit false

namespace WebTransportD.BoundedString

open CString

-- A buffer is a block of memory of just this length; `none` is an access outside it.
def load (buf : List UInt8) (p : Nat) : Option UInt8 :=
  buf[p]?

def store (buf : List UInt8) (p : Nat) (c : UInt8) : Option (List UInt8) :=
  if p < buf.length then some (buf.set p c) else none

def memcpy (buf : List UInt8) (p : Nat) : List UInt8 -> Option (List UInt8)
  | [] => some buf
  | c :: rest => do
      let buf ← store buf p c
      memcpy buf (p + 1) rest

def stopIn (test : UInt8 -> Bool) : List UInt8 -> Option Nat
  | [] => none
  | c :: rest => if test c then (stopIn test rest).map (· + 1) else some 0

-- while (test(*p)) p++;
def scan (test : UInt8 -> Bool) (buf : List UInt8) (p : Nat) : Option Nat :=
  (stopIn test (buf.drop p)).map (p + ·)

def readString (buf : List UInt8) (p : Nat) : Option (List UInt8) := do
  let stop ← scan (· != 0) buf p
  some ((buf.drop p).take (stop - p))

def strtokR (delim : UInt8 -> Bool) (buf : List UInt8) (p : Nat) :
    Option (Option (Nat × List UInt8 × Nat)) := do
  let start ← scan delim buf p
  let first ← load buf start
  if first = 0 then some none
  else
    let stop ← scan (fun c => c != 0 && !delim c) buf start
    let last ← load buf stop
    if last = 0 then some (some (start, buf, stop))
    else
      let buf ← store buf stop 0
      some (some (start, buf, stop + 1))

theorem memcpy_append (done bytes old : List UInt8) (room : bytes.length ≤ old.length) :
    memcpy (done ++ old) done.length bytes = some (done ++ bytes ++ old.drop bytes.length) := by
  induction bytes generalizing done old with
  | nil => simp [memcpy]
  | cons c rest ih =>
    rcases old with _ | ⟨first, old⟩
    · simp at room
    · have next := ih (done ++ [c]) old (by simpa using room)
      simpa [memcpy, store] using next

theorem store_append (done old : List UInt8) (c : UInt8) (room : old ≠ []) :
    store (done ++ old) done.length c = some (done ++ c :: old.tail) := by
  rcases old with _ | ⟨first, old⟩
  · exact absurd rfl room
  · simp [store]

-- A string starts at `p`: a NUL comes before the end of the block.
def Terminated (buf : List UInt8) (p : Nat) : Prop :=
  0 ∈ buf.drop p

theorem terminated_iff (buf : List UInt8) (p : Nat) :
    Terminated buf p ↔ ∃ i, p ≤ i ∧ buf[i]? = some 0 := by
  rw [Terminated, List.mem_iff_getElem?]
  constructor
  · rintro ⟨i, found⟩
    exact ⟨p + i, Nat.le_add_right p i, by rwa [List.getElem?_drop] at found⟩
  · rintro ⟨i, after, found⟩
    exact ⟨i - p, by rwa [List.getElem?_drop, Nat.add_sub_cancel' after]⟩

theorem Terminated.inside {buf : List UInt8} {p : Nat} (ended : Terminated buf p) :
    p < buf.length := by
  obtain ⟨i, after, found⟩ := (terminated_iff buf p).mp ended
  exact after.trans_lt (List.getElem?_eq_some_iff.mp found).1

theorem Terminated.load {buf : List UInt8} {p : Nat} (ended : Terminated buf p) :
    load buf p = some (byteAt buf p) := by
  simp [BoundedString.load, byteAt, ended.inside]

theorem Terminated.set {buf : List UInt8} {p : Nat} (ended : Terminated buf p) (place : Nat) :
    Terminated (buf.set place 0) p := by
  obtain ⟨i, after, found⟩ := (terminated_iff buf p).mp ended
  refine (terminated_iff _ p).mpr ⟨i, after, ?_⟩
  obtain ⟨inside, -⟩ := List.getElem?_eq_some_iff.mp found
  by_cases same : place = i
  · simp [same, inside]
  · rwa [List.getElem?_set_ne same]

theorem stopIn_eq (test : UInt8 -> Bool) (stops : test 0 = false) (s : List UInt8)
    (ended : 0 ∈ s) : stopIn test s = some (s.takeWhile test).length := by
  induction s with
  | nil => simp at ended
  | cons c rest ih =>
    cases passes : test c with
    | false => simp [stopIn, passes]
    | true =>
      have later : 0 ∈ rest := by
        rcases List.mem_cons.mp ended with rfl | later
        · simp [stops] at passes
        · exact later
      simp [stopIn, passes, ih later]

theorem drop_advance (test : UInt8 -> Bool) (buf : List UInt8) (p : Nat) :
    buf.drop (advance test buf p) = (buf.drop p).dropWhile test :=
  calc buf.drop (advance test buf p)
    _ = (buf.drop p).drop ((buf.drop p).takeWhile test).length := List.drop_drop.symm
    _ = ((buf.drop p).takeWhile test ++ (buf.drop p).dropWhile test).drop
          ((buf.drop p).takeWhile test).length := by rw [List.takeWhile_append_dropWhile]
    _ = (buf.drop p).dropWhile test := List.drop_left

section Strings

variable (test : UInt8 -> Bool) (stops : test 0 = false) {buf : List UInt8} {p : Nat}
  (ended : Terminated buf p)

include stops ended

theorem scan_eq : scan test buf p = some (advance test buf p) := by
  simp [scan, advance, stopIn_eq test stops _ ended]

theorem terminated_advance : Terminated buf (advance test buf p) := by
  have member : 0 ∈ (buf.drop p).takeWhile test ++ (buf.drop p).dropWhile test := by
    rw [List.takeWhile_append_dropWhile]
    exact ended
  rw [Terminated, drop_advance]
  rcases List.mem_append.mp member with passed | kept
  · simp [List.mem_takeWhile_imp passed] at stops
  · exact kept

end Strings

theorem readString_eq {buf : List UInt8} {p : Nat} (ended : Terminated buf p) :
    readString buf p = some (cString buf p) := by
  have stop : advance (· != 0) buf p - p = (cString buf p).length := Nat.add_sub_cancel_left ..
  rw [readString, scan_eq (· != 0) (by decide) ended]
  simp only [Option.bind_eq_bind, Option.bind_some, stop]
  exact congrArg some (List.prefix_iff_eq_take.mp (List.takeWhile_prefix _)).symm

theorem strtokR_eq (delim : UInt8 -> Bool) (stops : delim 0 = false) {buf : List UInt8} {p : Nat}
    (ended : Terminated buf p) :
    strtokR delim buf p = some (CString.strtokR delim buf p) ∧
      ∀ start next save, CString.strtokR delim buf p = some (start, next, save) ->
        Terminated next start ∧ Terminated next save := by
  have from_start := terminated_advance delim stops ended
  have token : (fun c => c != 0 && !delim c) 0 = false := by simp
  have from_stop := terminated_advance (fun c => c != 0 && !delim c) token from_start
  simp only [strtokR, CString.strtokR, terminate, scan_eq delim stops ended, from_start.load,
    Option.bind_eq_bind, Option.bind_some]
  by_cases none_left : byteAt buf (advance delim buf p) = 0
  · simp [none_left]
  · simp only [none_left, if_false, scan_eq (fun c => c != 0 && !delim c) token from_start,
      from_stop.load, Option.bind_some]
    generalize stopped : advance (fun c => c != 0 && !delim c) buf (advance delim buf p) = stop at *
    have later : advance delim buf p ≤ stop := stopped ▸ Nat.le_add_right ..
    by_cases last : byteAt buf stop = 0
    · simp only [last, if_true, true_and, Option.some.injEq, Prod.mk.injEq]
      rintro _ _ _ ⟨rfl, rfl, rfl⟩
      exact ⟨from_start, from_stop⟩
    · simp only [last, if_false, store, from_stop.inside, if_true, Option.bind_some, true_and,
        Option.some.injEq, Prod.mk.injEq]
      rintro _ _ _ ⟨rfl, rfl, rfl⟩
      refine ⟨from_start.set stop, Terminated.set ?_ stop⟩
      obtain ⟨i, after, found⟩ := (terminated_iff buf stop).mp from_stop
      refine (terminated_iff buf (stop + 1)).mpr ⟨i, Nat.succ_le_of_lt (after.lt_of_ne ?_), found⟩
      rintro rfl
      exact last (by simp [byteAt, found])

end WebTransportD.BoundedString
