import Mathlib.Data.List.TakeWhile

set_option autoImplicit false

namespace WebTransportD.CString

-- Buffers are lists of bytes. What lies beyond a buffer reads as NUL, so no loop runs past its end.
def byteAt (buf : List UInt8) (p : Nat) : UInt8 :=
  buf.getD p 0

-- Where the loop `while (test(*p)) p++` stops.
def advance (test : UInt8 -> Bool) (buf : List UInt8) (p : Nat) : Nat :=
  p + ((buf.drop p).takeWhile test).length

def cString (buf : List UInt8) (a : Nat) : List UInt8 :=
  (buf.drop a).takeWhile (· != 0)

-- The end of a token in place: `if (*p != 0) *p++ = 0`.
def terminate (buf : List UInt8) (p : Nat) : List UInt8 × Nat :=
  if byteAt buf p = 0 then (buf, p) else (buf.set p 0, p + 1)

-- One call of `strtok_r`: the token, the buffer after it and the saved position.
def strtokR (delim : UInt8 -> Bool) (buf : List UInt8) (p : Nat) :
    Option (Nat × List UInt8 × Nat) :=
  let start := advance delim buf p
  if byteAt buf start = 0 then none
  else
    let ended := terminate buf (advance (fun c => c != 0 && !delim c) buf start)
    some (start, ended.1, ended.2)

def quote : UInt8 := 0x22

def isBlank (c : UInt8) : Bool :=
  c = 0x20 || c = 0x09

-- `snprintf(buf, size, "%s", s)`.
def snprintfString (buf : List UInt8) (size : Nat) (s : List UInt8) : List UInt8 :=
  if size = 0 then buf
  else
    let copied := s.take (size - 1)
    copied ++ 0 :: buf.drop (copied.length + 1)

@[simp] theorem byteAt_append (done rest : List UInt8) :
    byteAt (done ++ rest) done.length = rest.headD 0 := by
  cases rest <;> simp [byteAt]

@[simp] theorem advance_append (test : UInt8 -> Bool) (done rest : List UInt8) :
    advance test (done ++ rest) done.length = done.length + (rest.takeWhile test).length := by
  simp [advance]

theorem takeWhile_terminated (test : UInt8 -> Bool) (stops : test 0 = false)
    (s tail : List UInt8) : (s ++ 0 :: tail).takeWhile test = s.takeWhile test := by
  induction s with
  | nil => simp [stops]
  | cons c rest ih => cases passes : test c <;> simp [passes, ih]

theorem takeWhile_nulFree (test : UInt8 -> Bool) (s : List UInt8) (nulFree : 0 ∉ s) :
    (s.takeWhile fun c => c != 0 && test c) = s.takeWhile test := by
  induction s with
  | nil => rfl
  | cons c rest ih =>
    have byte : c ≠ 0 := fun zero => nulFree (by simp [zero])
    have later := ih fun member => nulFree (List.mem_cons_of_mem c member)
    cases passes : test c <;> simp [passes, byte, later]

theorem advance_string (test : UInt8 -> Bool) (stops : test 0 = false) (done s tail : List UInt8) :
    advance test (done ++ (s ++ 0 :: tail)) done.length = (done ++ s.takeWhile test).length := by
  rw [advance_append, takeWhile_terminated test stops, List.length_append]

theorem advance_end (test : UInt8 -> Bool) (stops : test 0 = false) (done s tail : List UInt8)
    (none : s.dropWhile test = []) :
    byteAt (done ++ (s ++ 0 :: tail)) (advance test (done ++ (s ++ 0 :: tail)) done.length) =
      0 := by
  have all : s.takeWhile test = s :=
    List.takeWhile_eq_self_iff.mpr (List.dropWhile_eq_nil_iff.mp none)
  rw [advance_string test stops, all, ← List.append_assoc, byteAt_append]
  rfl

theorem advance_found (test : UInt8 -> Bool) (stops : test 0 = false) (done s tail : List UInt8)
    (nulFree : 0 ∉ s) (more : s.dropWhile test ≠ []) :
    ∃ lead c rest, s = lead ++ c :: rest ∧ s.dropWhile test = c :: rest ∧
      (∀ b ∈ lead, test b = true) ∧ test c = false ∧ 0 ∉ c :: rest ∧
      advance test (done ++ (s ++ 0 :: tail)) done.length = (done ++ lead).length := by
  obtain ⟨c, rest, found⟩ := List.exists_cons_of_ne_nil more
  have first := List.head_dropWhile_not test more
  refine ⟨s.takeWhile test, c, rest, ?_, found, fun b => List.mem_takeWhile_imp, ?_, ?_,
    advance_string test stops done s tail⟩
  · rw [← found, List.takeWhile_append_dropWhile]
  · simpa [found] using first
  · rw [← found]
    exact fun member => nulFree ((List.dropWhile_sublist test).mem member)

theorem cString_append (done s tail : List UInt8) (nulFree : 0 ∉ s) :
    cString (done ++ (s ++ 0 :: tail)) done.length = s := by
  simp only [cString, List.drop_left, takeWhile_terminated (· != 0) (by decide)]
  rw [List.takeWhile_eq_self_iff]
  intro c member
  have byte : c ≠ 0 := fun zero => nulFree (zero ▸ member)
  simpa using byte

-- The token before `s` is ended: by a NUL over the first byte of `s`, or by the one that was there.
-- Whatever becomes of the rest of `s` later, the NUL stays.
theorem terminate_append (done s tail : List UInt8) (nulFree : 0 ∉ s) :
    ∃ mark, terminate (done ++ (s ++ 0 :: tail)) done.length =
        ((done ++ mark) ++ (s.tail ++ 0 :: tail), (done ++ mark).length) ∧
      mark.length + s.tail.length = s.length ∧
      ∀ cut, cut.length = s.tail.length -> ∃ rest, mark ++ (cut ++ 0 :: tail) = 0 :: rest := by
  cases s with
  | nil =>
    refine ⟨[], by simp [terminate], rfl, ?_⟩
    intro cut empty
    exact ⟨tail, by simp [List.eq_nil_of_length_eq_zero empty]⟩
  | cons c rest =>
    have byte : c ≠ 0 := fun zero => nulFree (by simp [zero])
    exact ⟨[0], by simp [terminate, byte], by simp [Nat.add_comm], fun cut _ => ⟨_, rfl⟩⟩

theorem set_nul (done s tail : List UInt8) :
    ∃ cut rest, (done ++ (s ++ 0 :: tail)).set done.length 0 = done ++ (cut ++ 0 :: tail) ∧
      cut.length = s.length ∧ cut ++ 0 :: tail = 0 :: rest := by
  cases s with
  | nil => exact ⟨[], tail, by simp, rfl, rfl⟩
  | cons c s => exact ⟨0 :: s, s ++ 0 :: tail, by simp, rfl, rfl⟩

def fields (delim : UInt8 -> Bool) (s : List UInt8) : List (List UInt8) :=
  (s.splitOnP delim).filter (· ≠ [])

theorem fields_lead (delim : UInt8 -> Bool) (lead s : List UInt8)
    (delims : ∀ c ∈ lead, delim c = true) : fields delim (lead ++ s) = fields delim s := by
  induction lead with
  | nil => rfl
  | cons c rest ih =>
    have first := delims c (by simp)
    have later := ih fun d member => delims d (List.mem_cons_of_mem c member)
    simpa [fields, List.splitOnP_cons_eq_if_modifyHead, first] using later

theorem fields_token (delim : UInt8 -> Bool) (token after : List UInt8) (some : token ≠ [])
    (inside : ∀ c ∈ token, delim c = false) (ended : ∀ d ∈ after.head?, delim d = true) :
    fields delim (token ++ after) = token :: fields delim after.tail := by
  cases after with
  | nil => simp [fields, List.splitOnP_eq_singleton inside, some]
  | cons d rest =>
    have delimiter := ended d (by simp)
    simp [fields, List.splitOnP_append_cons_of_forall_mem inside d delimiter, some]

theorem strtokR_none (delim : UInt8 -> Bool) (stops : delim 0 = false) (done s tail : List UInt8)
    (none : s.dropWhile delim = []) :
    fields delim s = [] ∧ strtokR delim (done ++ (s ++ 0 :: tail)) done.length = .none := by
  constructor
  · have skipped := fields_lead delim s [] (List.dropWhile_eq_nil_iff.mp none)
    simpa [fields] using skipped
  · simp only [strtokR, advance_end delim stops done s tail none, if_true]

theorem strtokR_some (delim : UInt8 -> Bool) (stops : delim 0 = false) (done s tail : List UInt8)
    (nulFree : 0 ∉ s) (more : s.dropWhile delim ≠ []) :
    ∃ lead token after mark, s = lead ++ (token ++ after) ∧
      fields delim s = token :: fields delim after.tail ∧
      (∃ rest, mark ++ (after.tail ++ 0 :: tail) = 0 :: rest) ∧
      strtokR delim (done ++ (s ++ 0 :: tail)) done.length =
        some ((done ++ lead).length, (done ++ lead ++ token ++ mark) ++ (after.tail ++ 0 :: tail),
          (done ++ lead ++ token ++ mark).length) := by
  obtain ⟨lead, c, rest, parts, -, leading, first, restFree, start⟩ :=
    advance_found delim stops done s tail nulFree more
  obtain ⟨token, after, taken, left, word⟩ : ∃ token after,
      (c :: rest).takeWhile (!delim ·) = token ∧ (c :: rest).dropWhile (!delim ·) = after ∧
        c :: rest = token ++ after :=
    ⟨_, _, rfl, rfl, List.takeWhile_append_dropWhile.symm⟩
  have byte : c ≠ 0 := fun zero => restFree (by simp [zero])
  obtain ⟨mark, ended, -, stays⟩ := terminate_append (done ++ lead ++ token) after tail
    fun member => restFree (by rw [word]; exact List.mem_append_right _ member)
  refine ⟨lead, token, after, mark, by rw [parts, word], ?_, stays after.tail rfl, ?_⟩
  · have inside : ∀ d ∈ token, delim d = false := by
      rw [← taken]
      exact fun d member => by simpa using List.mem_takeWhile_imp member
    rw [parts, fields_lead delim lead _ leading, word]
    apply fields_token delim token after _ inside
    · intro d member
      have stopped := List.head?_dropWhile_not (!delim ·) (c :: rest)
      simpa [left, Option.mem_def.mp member] using stopped
    · simp [← taken, first]
  · have buffer : done ++ (s ++ 0 :: tail) = (done ++ lead) ++ (c :: rest ++ 0 :: tail) := by
      simp [parts]
    have stop : advance (fun c => c != 0 && !delim c) (done ++ (s ++ 0 :: tail))
        (done ++ lead).length = (done ++ lead ++ token).length := by
      rw [buffer, advance_string _ (by simp), takeWhile_nulFree (!delim ·) _ restFree, taken]
    have whole : done ++ (s ++ 0 :: tail) = (done ++ lead ++ token) ++ (after ++ 0 :: tail) := by
      rw [buffer, word]
      simp
    have here : byteAt (done ++ (s ++ 0 :: tail)) (done ++ lead).length ≠ 0 := by
      rw [buffer, byteAt_append]
      exact byte
    simp only [strtokR, start, here, if_false, stop]
    rw [whole, ended]

end WebTransportD.CString
