import WebTransportD.Shared.CString
import WebTransportD.Shared.Memory

set_option autoImplicit false

namespace WebTransportD.CmdlineBuild

open CString Memory

def space : UInt8 := 0x20

def backslash : UInt8 := 0x5c

structure Build where
  pos : Nat
  out : Nat -> UInt8

-- `PUT(c)`: an error is the return of -1, with the buffer as it is then.
def put (cap : Nat) (c : UInt8) (b : Build) : Except Build Build :=
  if b.pos + 1 ≥ cap then .error b
  else .ok { pos := b.pos + 1, out := store b.out b.pos c }

def putRun (cap : Nat) (c : UInt8) : Nat -> Build -> Except Build Build
  | 0, b => .ok b
  | n + 1, b => do
      let b ← put cap c b
      putRun cap c n b

-- strpbrk(a, " \t\"") and the empty argument.
def needsQuotes (a : List UInt8) : Bool :=
  a.isEmpty || a.any fun c => isBlank c || c == quote

def putBytes (cap : Nat) (quoted : Bool) (s : List UInt8) (b : Build) : Except Build Build :=
  match s with
  | [] => .ok b
  | c :: rest =>
      if c = backslash then
        let bs := (rest.takeWhile (· == backslash)).length + 1
        match found : rest.dropWhile (· == backslash) with
        | [] => putRun cap backslash (if quoted then bs * 2 else bs) b
        | d :: more =>
            if d = quote then do
              let b ← putRun cap backslash (bs * 2) b
              let b ← put cap backslash b
              let b ← put cap quote b
              putBytes cap quoted more b
            else do
              let b ← putRun cap backslash bs b
              putBytes cap quoted (d :: more) b
      else if c = quote then do
        let b ← put cap backslash b
        let b ← put cap quote b
        putBytes cap quoted rest b
      else do
        let b ← put cap c b
        putBytes cap quoted rest b
termination_by s.length
decreasing_by
  · have shorter := List.length_dropWhile_le (· == backslash) rest
    simp only [found, List.length_cons] at *
    omega
  · have shorter := List.length_dropWhile_le (· == backslash) rest
    simp only [found, List.length_cons] at *
    omega
  · simp
  · simp

def putArg (cap : Nat) (a : List UInt8) (b : Build) : Except Build Build := do
  let quoted := needsQuotes a
  let b ← if quoted then put cap quote b else .ok b
  let b ← putBytes cap quoted a b
  if quoted then put cap quote b else .ok b

def putArgs (cap : Nat) : Nat -> List (List UInt8) -> Build -> Except Build Build
  | _, [], b => .ok b
  | i, a :: rest, b => do
      let b ← if i > 0 then put cap space b else .ok b
      let b ← putArg cap a b
      putArgs cap (i + 1) rest b

def wtdBuildCmdline (argv : Option (List (List UInt8))) (out : Option (Nat -> UInt8))
    (cap : Nat) : Int × Option (Nat -> UInt8) :=
  match argv, out with
  | some args, some mem =>
      match putArgs cap 0 args { pos := 0, out := mem } with
      | .error b => (-1, some b.out)
      | .ok b => if b.pos ≥ cap then (-1, some b.out) else (0, some (store b.out b.pos 0))
  | _, _ => (-1, out)

def putAll (cap : Nat) (bytes : List UInt8) (b : Build) : Except Build Build :=
  bytes.foldlM (fun b c => put cap c b) b

theorem putAll_append (cap : Nat) (first second : List UInt8) :
    putAll cap (first ++ second) = fun b => putAll cap first b >>= putAll cap second :=
  funext fun _ => List.foldlM_append ..

theorem putAll_cons (cap : Nat) (c : UInt8) (rest : List UInt8) :
    putAll cap (c :: rest) = fun b => put cap c b >>= putAll cap rest :=
  funext fun _ => List.foldlM_cons ..

theorem putAll_singleton (cap : Nat) (c : UInt8) : putAll cap [c] = put cap c := by
  funext b
  rw [putAll_cons]
  exact bind_pure (put cap c b)

theorem putRun_eq (cap : Nat) (c : UInt8) (n : Nat) (b : Build) :
    putRun cap c n b = putAll cap (List.replicate n c) b := by
  induction n generalizing b with
  | zero => rfl
  | succ n ih =>
    rw [List.replicate_succ, putAll_cons, putRun]
    congr 1
    funext next
    exact ih next

-- The bytes of an argument as the rules write them, after `bs` backslashes not yet written.
def escape (quoted : Bool) : Nat -> List UInt8 -> List UInt8
  | bs, [] => List.replicate (if quoted then bs * 2 else bs) backslash
  | bs, c :: rest =>
      if c = backslash then escape quoted (bs + 1) rest
      else if c = quote then
        List.replicate (bs * 2 + 1) backslash ++ quote :: escape quoted 0 rest
      else List.replicate bs backslash ++ c :: escape quoted 0 rest

theorem escape_run (quoted : Bool) (bs : Nat) (s : List UInt8) :
    escape quoted bs s = escape quoted (bs + (s.takeWhile (· == backslash)).length)
      (s.dropWhile (· == backslash)) := by
  induction s generalizing bs with
  | nil => rfl
  | cons c rest ih =>
    by_cases same : c = backslash
    · simp only [escape, same, if_true, beq_self_eq_true, List.takeWhile_cons_of_pos,
        List.dropWhile_cons_of_pos, List.length_cons]
      rw [ih (bs + 1)]
      congr 1
      omega
    · simp [same]

theorem putBytes_eq (cap : Nat) (quoted : Bool) (s : List UInt8) (b : Build) :
    putBytes cap quoted s b = putAll cap (escape quoted 0 s) b := by
  have counted : ∀ rest, escape quoted 0 (backslash :: rest) =
      escape quoted ((rest.takeWhile (· == backslash)).length + 1)
        (rest.dropWhile (· == backslash)) := by
    intro rest
    simp only [escape, if_true]
    rw [escape_run, Nat.zero_add, Nat.add_comm]
  fun_induction putBytes cap quoted s b with
  | case1 b => cases quoted <;> rfl
  | case2 b rest bs found =>
    rw [counted, found, putRun_eq, escape]
  | case3 b rest bs more found ih =>
    have plain : quote ≠ backslash := by decide
    rw [counted, found]
    simp only [escape, plain, if_false, if_true, putRun_eq, ih, List.replicate_succ', bs,
      putAll_append, putAll_cons, bind_assoc]
    rfl
  | case4 b rest bs d more found other ih =>
    have plain : d ≠ backslash := by
      have first := List.head_dropWhile_not (· == backslash) (l := rest) (by simp [found])
      simpa [found] using first
    rw [counted, found]
    simp only [ih, escape, plain, other, if_false, putRun_eq, putAll_append, putAll_cons,
      List.replicate_zero, List.nil_append, bs]
  | case5 b rest plain ih =>
    simp only [ih, escape, plain, if_false, if_true, Nat.zero_mul, Nat.zero_add,
      List.replicate_one, List.cons_append, List.nil_append, putAll_cons]
  | case6 b c rest plain other ih =>
    simp only [ih, escape, plain, other, if_false, putAll_cons, List.replicate_zero,
      List.nil_append]

def encodeArg (a : List UInt8) : List UInt8 :=
  if needsQuotes a then quote :: (escape true 0 a ++ [quote]) else escape false 0 a

def encodeArgs : Nat -> List (List UInt8) -> List UInt8
  | _, [] => []
  | i, a :: rest => (if i > 0 then [space] else []) ++ (encodeArg a ++ encodeArgs (i + 1) rest)

theorem putArg_eq (cap : Nat) (a : List UInt8) (b : Build) :
    putArg cap a b = putAll cap (encodeArg a) b := by
  cases quoted : needsQuotes a with
  | true =>
    simp only [putArg, encodeArg, quoted, if_true, putBytes_eq]
    rw [putAll_cons]
    simp only [putAll_append, putAll_singleton]
  | false =>
    simp only [putArg, encodeArg, quoted, putBytes_eq, Bool.false_eq_true, if_false]
    exact bind_pure (putAll cap (escape false 0 a) b)

theorem putArgs_eq (cap i : Nat) (argv : List (List UInt8)) (b : Build) :
    putArgs cap i argv b = putAll cap (encodeArgs i argv) b := by
  induction argv generalizing i b with
  | nil => rfl
  | cons a rest ih =>
    by_cases later : i > 0
    · simp only [putArgs, encodeArgs, later, if_true, putArg_eq, ih, putAll_append,
        putAll_singleton]
    · simp only [putArgs, encodeArgs, later, if_false, putArg_eq, ih, putAll_append,
        List.nil_append]
      rfl

theorem putAll_cases (cap : Nat) (bytes : List UInt8) (b : Build) :
    ((bytes = [] ∨ b.pos + bytes.length < cap) ∧
      putAll cap bytes b =
        .ok { pos := b.pos + bytes.length, out := copy b.out b.pos bytes }) ∨
    (¬ (bytes = [] ∨ b.pos + bytes.length < cap) ∧
      ∃ stopped, putAll cap bytes b = .error stopped ∧
        ∀ i, cap ≤ i + 1 -> stopped.out i = b.out i) := by
  induction bytes generalizing b with
  | nil => exact .inl ⟨.inl rfl, rfl⟩
  | cons c rest ih =>
    by_cases full : b.pos + 1 ≥ cap
    · refine .inr ⟨by simp; omega, b, ?_, fun _ _ => rfl⟩
      simp only [putAll_cons, put, full, if_true]
      rfl
    · have written : putAll cap (c :: rest) b =
          putAll cap rest { pos := b.pos + 1, out := store b.out b.pos c } := by
        simp only [putAll_cons, put, full, if_false]
        rfl
      rcases ih { pos := b.pos + 1, out := store b.out b.pos c } with
        ⟨fits, result⟩ | ⟨full, stopped, result, kept⟩
      · refine .inl ⟨.inr ?_, ?_⟩
        · rcases fits with rfl | fits
          · simp; omega
          · simp at fits ⊢; omega
        · rw [written, result]
          simp only [List.length_cons, copy, Nat.add_assoc, Nat.add_comm 1]
      · refine .inr ⟨?_, stopped, by rw [written, result], ?_⟩
        · simp at full ⊢
          omega
        · intro i beyond
          have apart : i ≠ b.pos := by omega
          exact (kept i beyond).trans (Function.update_of_ne apart ..)

-- `closing` is the state right after a quote that may have ended a quoted part.
inductive Mode where
  | plain
  | quoted
  | closing
  deriving DecidableEq, Repr

def finish : Option (List UInt8) -> Nat -> List (List UInt8)
  | none, 0 => []
  | current, slashes => [current.getD [] ++ List.replicate slashes backslash]

-- The rules of `cmdline.h` read the other way. With `doubled`, two adjacent quotes inside quotes
-- are a literal quote.
def decode (doubled : Bool) :
    List UInt8 -> Option (List UInt8) -> Mode -> Nat -> List (List UInt8)
  | [], current, _, slashes => finish current slashes
  | c :: rest, current, mode, slashes =>
      if c = backslash then
        decode doubled rest current (if mode = .closing then .plain else mode) (slashes + 1)
      else if c = quote then
        let taken := current.getD [] ++ List.replicate (slashes / 2) backslash
        if slashes % 2 = 1 then decode doubled rest (some (taken ++ [quote])) mode 0
        else match mode with
          | .plain => decode doubled rest (some taken) .quoted 0
          | .quoted => decode doubled rest (some taken) .closing 0
          | .closing =>
              if doubled then decode doubled rest (some (taken ++ [quote])) .quoted 0
              else decode doubled rest (some taken) .quoted 0
      else if isBlank c && mode ≠ .quoted then
        finish current slashes ++ decode doubled rest none .plain 0
      else
        decode doubled rest
          (some (current.getD [] ++ List.replicate slashes backslash ++ [c]))
          (if mode = .closing then .plain else mode) 0

theorem decode_slashes (doubled : Bool) (k : Nat) (rest : List UInt8)
    (current : Option (List UInt8)) (mode : Mode) (settled : mode ≠ .closing) (slashes : Nat) :
    decode doubled (List.replicate k backslash ++ rest) current mode slashes =
      decode doubled rest current mode (slashes + k) := by
  induction k generalizing slashes with
  | zero => rfl
  | succ k ih =>
    simp only [List.replicate_succ, List.cons_append, decode, if_true, settled, if_false, ih]
    congr 1
    omega

theorem decode_ended (doubled : Bool) (rest : List UInt8) (current : Option (List UInt8))
    (mode : Mode) (outside : mode ≠ .quoted) (slashes : Nat)
    (ended : ∀ b ∈ rest.head?, isBlank b = true) :
    decode doubled rest current mode slashes =
      finish current slashes ++ decode doubled rest none .plain 0 := by
  cases rest with
  | nil => simp [decode, finish]
  | cons b rest =>
    have blank := ended b (by simp)
    have plain : b ≠ backslash ∧ b ≠ quote := by
      constructor <;> (rintro rfl; exact absurd blank (by decide))
    simp [decode, plain, blank, outside, finish]

theorem escape_bare (bs : Nat) (a : List UInt8) (plain : quote ∉ a) :
    escape false bs a = List.replicate bs backslash ++ a := by
  induction a generalizing bs with
  | nil => simp [escape]
  | cons c rest ih =>
    have other : c ≠ quote := fun same => plain (by simp [same])
    have later := fun bs => ih bs fun member => plain (List.mem_cons_of_mem c member)
    by_cases same : c = backslash
    · simp [escape, same, later, List.replicate_succ']
    · simp [escape, same, other, later]

theorem decode_bare (doubled : Bool) (a rest : List UInt8) (current : Option (List UInt8))
    (slashes : Nat) (plain : ∀ c ∈ a, isBlank c = false ∧ c ≠ quote)
    (begun : a ≠ [] ∨ current ≠ none ∨ slashes ≠ 0)
    (ended : ∀ b ∈ rest.head?, isBlank b = true) :
    decode doubled (a ++ rest) current .plain slashes =
      (current.getD [] ++ List.replicate slashes backslash ++ a) ::
        decode doubled rest none .plain 0 := by
  induction a generalizing current slashes with
  | nil =>
    rw [List.nil_append, decode_ended doubled rest current .plain (by decide) slashes ended]
    cases current <;> cases slashes <;> simp_all [finish]
  | cons c a ih =>
    have first := plain c (by simp)
    have later := fun current slashes =>
      ih current slashes fun b member => plain b (List.mem_cons_of_mem c member)
    by_cases same : c = backslash
    · simp [decode, same, later, List.replicate_succ']
    · simp [decode, same, first, later]

theorem decode_escape (doubled : Bool) (bs : Nat) (a rest acc : List UInt8) :
    decode doubled (escape true bs a ++ quote :: rest) (some acc) .quoted 0 =
      decode doubled rest (some (acc ++ List.replicate bs backslash ++ a)) .closing 0 := by
  have other : quote ≠ backslash := by decide
  induction a generalizing bs acc with
  | nil =>
    simp only [escape, if_true]
    rw [decode_slashes doubled _ _ _ _ (by decide)]
    simp [decode, other]
  | cons c a ih =>
    by_cases slash : c = backslash
    · simp [escape, slash, ih, List.replicate_succ']
    · by_cases literal : c = quote
      · have half : (bs * 2 + 1) / 2 = bs := by omega
        have odd : (bs * 2 + 1) % 2 = 1 := by omega
        simp only [escape, literal, other, if_false, if_true, List.append_assoc, List.cons_append]
        rw [decode_slashes doubled _ _ _ _ (by decide)]
        simp [decode, other, half, odd, ih]
      · simp only [escape, slash, literal, if_false, List.append_assoc, List.cons_append]
        rw [decode_slashes doubled _ _ _ _ (by decide)]
        simp [decode, slash, literal, ih]

theorem decode_encodeArg (doubled : Bool) (a rest : List UInt8)
    (ended : ∀ b ∈ rest.head?, isBlank b = true) :
    decode doubled (encodeArg a ++ rest) none .plain 0 =
      a :: decode doubled rest none .plain 0 := by
  cases quoted : needsQuotes a with
  | true =>
    have other : quote ≠ backslash := by decide
    have opened : decode doubled (encodeArg a ++ rest) none .plain 0 =
        decode doubled (escape true 0 a ++ quote :: rest) (some []) .quoted 0 := by
      simp [encodeArg, quoted, decode, other]
    rw [opened, decode_escape, decode_ended doubled rest _ .closing (by decide) 0 ended]
    simp [finish]
  | false =>
    have solid : a ≠ [] ∧ ∀ c ∈ a, isBlank c = false ∧ c ≠ quote := by
      simpa [needsQuotes] using quoted
    have bare := escape_bare 0 a fun member => (solid.2 quote member).2 rfl
    simp only [encodeArg, quoted, Bool.false_eq_true, if_false, bare, List.replicate_zero,
      List.nil_append]
    simpa using decode_bare doubled a rest none 0 solid.2 (.inl solid.1) ended

theorem decode_encodeArgs (doubled : Bool) (i : Nat) (argv : List (List UInt8)) :
    decode doubled (encodeArgs i argv) none .plain 0 = argv := by
  induction argv generalizing i with
  | nil => rfl
  | cons a rest ih =>
    have ended : ∀ b ∈ (encodeArgs (i + 1) rest).head?, isBlank b = true := by
      cases rest <;> simp [encodeArgs, space, isBlank]
    have spaced : decode doubled (encodeArgs i (a :: rest)) none .plain 0 =
        decode doubled (encodeArg a ++ encodeArgs (i + 1) rest) none .plain 0 := by
      by_cases later : i > 0
      · simp [encodeArgs, later, decode, finish, show space ≠ backslash by decide,
          show space ≠ quote by decide, show isBlank space = true by decide]
      · simp [encodeArgs, later]
    rw [spaced, decode_encodeArg doubled a _ ended, ih]

theorem escape_nulFree (quoted : Bool) (bs : Nat) (a : List UInt8) (nulFree : 0 ∉ a) :
    0 ∉ escape quoted bs a := by
  have run : ∀ n, 0 ∉ List.replicate n backslash := by
    intro n member
    exact absurd (List.eq_of_mem_replicate member) (by decide)
  fun_induction escape quoted bs a with
  | case1 bs => exact run _
  | case2 bs rest ih => exact ih fun member => nulFree (List.mem_cons_of_mem _ member)
  | case3 bs rest other ih =>
    have later := ih fun member => nulFree (List.mem_cons_of_mem _ member)
    simp [run, later, quote, -List.mem_replicate]
  | case4 bs c rest other literal ih =>
    have later := ih fun member => nulFree (List.mem_cons_of_mem _ member)
    have byte : 0 ≠ c := fun zero => nulFree (by simp [zero])
    simp [run, later, byte, -List.mem_replicate]

theorem encodeArgs_nulFree (i : Nat) (argv : List (List UInt8))
    (nulFree : ∀ a ∈ argv, 0 ∉ a) : 0 ∉ encodeArgs i argv := by
  induction argv generalizing i with
  | nil => simp [encodeArgs]
  | cons a rest ih =>
    have first := nulFree a (by simp)
    have later := ih (i + 1) fun b member => nulFree b (List.mem_cons_of_mem a member)
    have arg : 0 ∉ encodeArg a := by
      cases quoted : needsQuotes a <;>
        simp [encodeArg, quoted, escape_nulFree _ 0 a first, quote]
    by_cases more : i > 0 <;> simp [encodeArgs, more, arg, later, space]

theorem mem_slice (m : Nat -> UInt8) (n i : Nat) (below : i < n) : m i ∈ slice m 0 n :=
  List.mem_map.mpr ⟨i, List.mem_range.mpr below, by simp⟩

theorem slice_store (m : Nat -> UInt8) (n : Nat) (c : UInt8) :
    slice (store m n c) 0 n = slice m 0 n := by
  apply List.map_congr_left
  intro i below
  have apart : 0 + i ≠ n := by
    have bound := List.mem_range.mp below
    omega
  exact Function.update_of_ne apart ..

theorem wtdBuildCmdline_inverted (argv : List (List UInt8)) (nulFree : ∀ a ∈ argv, 0 ∉ a)
    (mem : Nat -> UInt8) (cap : Nat) (doubled : Bool) :
    ∃ ret out, wtdBuildCmdline (some argv) (some mem) cap = (ret, some out) ∧
      (∀ i, cap ≤ i -> out i = mem i) ∧
      (ret = 0 ↔ (encodeArgs 0 argv).length + 1 ≤ cap) ∧
      (ret = 0 -> ∃ n < cap, out n = 0 ∧ (∀ i < n, out i ≠ 0) ∧
        decode doubled (slice out 0 n) none .plain 0 = argv) := by
  have nul := encodeArgs_nulFree 0 argv nulFree
  have inverse := decode_encodeArgs doubled 0 argv
  simp only [wtdBuildCmdline, putArgs_eq]
  generalize encodeArgs 0 argv = bytes at nul inverse
  rcases putAll_cases cap bytes { pos := 0, out := mem } with
    ⟨fits, result⟩ | ⟨full, stopped, result, kept⟩
  · simp only [Nat.zero_add] at fits result
    by_cases room : bytes.length < cap
    · have string : slice (store (copy mem 0 bytes) bytes.length 0) 0 bytes.length = bytes := by
        rw [slice_store, slice_copy]
      refine ⟨0, store (copy mem 0 bytes) bytes.length 0, ?_, ?_, ?_, ?_⟩
      · simp [result, Nat.not_le.mpr room]
      · intro i beyond
        rw [store, Function.update_of_ne (by omega), copy_above mem 0 bytes i (by omega)]
      · exact ⟨fun _ => room, fun _ => rfl⟩
      · intro _
        refine ⟨bytes.length, room, by simp [store], ?_, by rw [string, inverse]⟩
        intro i below zero
        have member := mem_slice (store (copy mem 0 bytes) bytes.length 0) bytes.length i below
        rw [string, zero] at member
        exact nul member
    · obtain rfl : bytes = [] := fits.resolve_right room
      refine ⟨-1, mem, ?_, fun _ _ => rfl, ?_, by simp⟩
      · simp only [result, List.length_nil, Nat.le_zero_eq] at room ⊢
        simp [copy, show cap = 0 by omega]
      · simp at room
        simp [room]
  · refine ⟨-1, stopped.out, by simp [result], fun i beyond => kept i (by omega), ?_, by simp⟩
    simp only [Nat.zero_add, not_or] at full
    constructor
    · simp
    · intro fits
      omega

def sampleArgv : List (List UInt8) :=
  [[0x61], [], [0x62, 0x20, 0x5c], [0x5c, 0x22, 0x5c, 0x63]]

theorem wtdBuildCmdline_inverted_sample :
    ∃ out, wtdBuildCmdline (some sampleArgv) (some fun _ => 0xff) 64 = (0, some out) ∧
      ∃ n < 64, out n = 0 ∧ decode true (slice out 0 n) none .plain 0 = sampleArgv := by
  obtain ⟨ret, out, result, -, fits, inverse⟩ :=
    wtdBuildCmdline_inverted sampleArgv (by decide) (fun _ => 0xff) 64 true
  have success : ret = 0 := fits.mpr (by decide)
  obtain ⟨n, bound, ended, -, same⟩ := inverse success
  exact ⟨out, by rw [result, success], n, bound, ended, same⟩

end WebTransportD.CmdlineBuild
