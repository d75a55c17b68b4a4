import Mathlib.Logic.Function.Basic
import WebTransportD.Shared.CString

set_option autoImplicit false

namespace WebTransportD.CmdlineSplit

open CString

-- The string buffer with its read position, and the argv array with the slots filled so far; a slot
-- holds a position in the buffer or NULL.
structure SplitState where
  buf : List UInt8
  p : Nat
  argv : Nat -> Option Nat
  argc : Nat

def tokenSpan (buf : List UInt8) (p : Nat) : Nat × Nat :=
  if byteAt buf p = quote then
    (p + 1, advance (fun c => c != 0 && c != quote) buf (p + 1))
  else
    (p, advance (fun c => c != 0 && !isBlank c) buf p)

-- Every iteration fills a slot, so `slots` counts what `argc + 1 < argv_cap` still allows.
def splitLoop : Nat -> SplitState -> SplitState
  | 0, st => st
  | slots + 1, st =>
      let p := advance isBlank st.buf st.p
      if byteAt st.buf p = 0 then { st with p }
      else
        let span := tokenSpan st.buf p
        let ended := terminate st.buf span.2
        splitLoop slots
          { buf := ended.1
            p := ended.2
            argv := Function.update st.argv st.argc (some span.1)
            argc := st.argc + 1 }

def wtdSplitCmdline (cmd : Option (List UInt8)) (argv : Option (Nat -> Option Nat))
    (argvCap : Nat) : Nat × Option (List UInt8) × Option (Nat -> Option Nat) :=
  match cmd, argv with
  | some buf, some slots =>
      if argvCap = 0 then (0, cmd, argv)
      else
        let st := splitLoop (argvCap - 1) { buf, p := 0, argv := slots, argc := 0 }
        (st.argc, some st.buf, some (Function.update st.argv st.argc none))
  | _, _ => (0, cmd, argv)

def tokens (s : List UInt8) : List (List UInt8) :=
  match _ : s.dropWhile isBlank with
  | [] => []
  | c :: rest =>
      if c = quote then
        (rest.takeWhile (· != quote)) :: tokens (rest.dropWhile (· != quote)).tail
      else
        (c :: rest.takeWhile (!isBlank ·)) :: tokens (rest.dropWhile (!isBlank ·))
termination_by s.length
decreasing_by
  all_goals
    have skipped := List.length_dropWhile_le isBlank s
    rename_i found _
    rw [found, List.length_cons] at skipped
  · have after := List.length_dropWhile_le (· != quote) rest
    rw [List.length_tail]
    omega
  · have after := List.length_dropWhile_le (!isBlank ·) rest
    omega

theorem tokens_blank (s : List UInt8) (blank : s.dropWhile isBlank = []) : tokens s = [] := by
  rw [tokens]
  split
  · rfl
  · simp_all

theorem tokens_found (s rest : List UInt8) (c : UInt8) (found : s.dropWhile isBlank = c :: rest) :
    tokens s =
      if c = quote then
        (rest.takeWhile (· != quote)) :: tokens (rest.dropWhile (· != quote)).tail
      else (c :: rest.takeWhile (!isBlank ·)) :: tokens (rest.dropWhile (!isBlank ·)) := by
  rw [tokens]
  split
  · simp_all
  · rename_i same
    obtain ⟨rfl, rfl⟩ := List.cons.inj (same.symm.trans found)
    rfl

theorem tokens_skip (b : UInt8) (s : List UInt8) (blank : isBlank b = true) :
    tokens (b :: s) = tokens s := by
  cases found : s.dropWhile isBlank with
  | nil => rw [tokens_blank s found, tokens_blank (b :: s) (by simp [blank, found])]
  | cons c rest =>
    rw [tokens_found s rest c found, tokens_found (b :: s) rest c (by simp [blank, found])]

theorem tokens_afterWord (s : List UInt8) :
    tokens (s.dropWhile (!isBlank ·)) = tokens (s.dropWhile (!isBlank ·)).tail := by
  cases after : s.dropWhile (!isBlank ·) with
  | nil => rfl
  | cons b rest =>
    have ended := List.head_dropWhile_not (!isBlank ·) (l := s) (by simp [after])
    exact tokens_skip b rest (by simpa [after] using ended)

theorem tokenSpan_quoted (before rest tail : List UInt8) (nulFree : 0 ∉ rest) :
    tokenSpan (before ++ quote :: (rest ++ 0 :: tail)) before.length =
      (before.length + 1, before.length + 1 + (rest.takeWhile (· != quote)).length) := by
  have opened : before ++ quote :: (rest ++ 0 :: tail) =
      (before ++ [quote]) ++ (rest ++ 0 :: tail) := by simp
  have position : before.length + 1 = (before ++ [quote]).length := by simp
  have stop : advance (fun c => c != 0 && c != quote) (before ++ quote :: (rest ++ 0 :: tail))
      (before.length + 1) = before.length + 1 + (rest.takeWhile (· != quote)).length := by
    rw [opened, position, advance_string _ (by decide),
      takeWhile_nulFree (· != quote) rest nulFree, List.length_append]
  simp [tokenSpan, stop]

theorem tokenSpan_word (before rest tail : List UInt8) (c : UInt8) (nulFree : 0 ∉ c :: rest)
    (bare : c ≠ quote) (solid : isBlank c = false) :
    tokenSpan (before ++ c :: (rest ++ 0 :: tail)) before.length =
      (before.length, before.length + (c :: rest.takeWhile (!isBlank ·)).length) := by
  have stop : (c :: (rest ++ 0 :: tail)).takeWhile (fun c => c != 0 && !isBlank c) =
      c :: rest.takeWhile (!isBlank ·) := by
    rw [← List.cons_append, takeWhile_terminated _ (by decide),
      takeWhile_nulFree (!isBlank ·) _ nulFree]
    simp [solid]
  simp only [tokenSpan, byteAt_append, advance_append, stop, List.headD_cons, bare, if_false]

theorem tokenSpan_spec (done s tail : List UInt8) (nulFree : 0 ∉ s)
    (more : s.dropWhile isBlank ≠ []) :
    ∃ lead token after, s = lead ++ (token ++ after) ∧
      tokens s = token :: tokens after.tail ∧
      byteAt (done ++ (s ++ 0 :: tail)) (advance isBlank (done ++ (s ++ 0 :: tail)) done.length)
        ≠ 0 ∧
      tokenSpan (done ++ (s ++ 0 :: tail)) (advance isBlank (done ++ (s ++ 0 :: tail)) done.length)
        = (done.length + lead.length, done.length + lead.length + token.length) := by
  obtain ⟨lead, c, rest, parts, found, -, solid, restFree, position⟩ :=
    advance_found isBlank (by decide) done s tail nulFree more
  have buffer : done ++ (s ++ 0 :: tail) =
      (done ++ lead) ++ c :: (rest ++ 0 :: tail) := by
    simp [parts]
  have byte : c ≠ 0 := fun zero => restFree (by simp [zero])
  rw [position, buffer, byteAt_append, List.headD_cons]
  by_cases quoted : c = quote
  · subst quoted
    refine ⟨lead ++ [quote], rest.takeWhile (· != quote), rest.dropWhile (· != quote), ?_, ?_, ?_,
      ?_⟩
    · simp [parts]
    · rw [tokens_found s rest quote found, if_pos rfl]
    · exact byte
    · have inside : 0 ∉ rest := fun member => restFree (List.mem_cons_of_mem _ member)
      rw [tokenSpan_quoted (done ++ lead) rest tail inside]
      simp [Nat.add_assoc]
  · refine ⟨lead, c :: rest.takeWhile (!isBlank ·), rest.dropWhile (!isBlank ·), ?_, ?_, ?_, ?_⟩
    · simp [parts]
    · rw [tokens_found s rest c found, if_neg quoted, tokens_afterWord]
    · exact byte
    · rw [tokenSpan_word (done ++ lead) rest tail c restFree quoted solid]
      simp [Nat.add_assoc]

def storeAll (argv : Nat -> Option Nat) (argc : Nat) (starts : List Nat) : Nat -> Option Nat :=
  fun i => if i < argc then argv i else starts[i - argc]?.or (argv i)

theorem storeAll_nil (argv : Nat -> Option Nat) (argc : Nat) : storeAll argv argc [] = argv := by
  funext i
  simp [storeAll]

theorem storeAll_cons (argv : Nat -> Option Nat) (argc start : Nat) (starts : List Nat) :
    storeAll (Function.update argv argc (some start)) (argc + 1) starts =
      storeAll argv argc (start :: starts) := by
  funext i
  rcases Nat.lt_trichotomy i argc with below | rfl | above
  · simp [storeAll, below, Nat.lt_succ_of_lt below, Nat.ne_of_lt below]
  · simp [storeAll]
  · obtain ⟨j, rfl⟩ : ∃ j, i = argc + 1 + j := ⟨i - (argc + 1), by omega⟩
    have shift : argc + 1 + j - argc = j + 1 := by omega
    simp [storeAll, shift, show ¬ argc + 1 + j < argc by omega,
      show ¬ argc + 1 + j < argc + 1 by omega, show argc + 1 + j ≠ argc by omega]

-- The loop over the rest of a string. What lies before it is done with: later rounds write only
-- between there and the terminating NUL.
theorem splitLoop_spec (slots : Nat) (done s tail : List UInt8) (nulFree : 0 ∉ s)
    (argv : Nat -> Option Nat) (argc : Nat) :
    ∃ cut starts p, cut.length = s.length ∧
      starts.map (cString (done ++ (cut ++ 0 :: tail))) = (tokens s).take slots ∧
      splitLoop slots { buf := done ++ (s ++ 0 :: tail), p := done.length, argv, argc } =
        { buf := done ++ (cut ++ 0 :: tail), p, argv := storeAll argv argc starts
          argc := argc + starts.length } := by
  induction slots generalizing done s argv argc with
  | zero => exact ⟨s, [], done.length, rfl, rfl, by simp [splitLoop, storeAll_nil]⟩
  | succ slots ih =>
    by_cases more : s.dropWhile isBlank = []
    · have ended := advance_end isBlank (by decide) done s tail more
      exact ⟨s, [], advance isBlank (done ++ (s ++ 0 :: tail)) done.length, rfl,
        by simp [tokens_blank s more],
        by simp only [splitLoop, ended, if_true, storeAll_nil, List.length_nil, Nat.add_zero]⟩
    · obtain ⟨lead, token, after, parts, spelled, byte, span⟩ :=
        tokenSpan_spec done s tail nulFree more
      subst parts
      simp only [List.mem_append, not_or] at nulFree
      have place : done.length + lead.length + token.length = (done ++ lead ++ token).length := by
        simp [Nat.add_assoc]
      have buffer : done ++ (lead ++ (token ++ after) ++ 0 :: tail) =
          (done ++ lead ++ token) ++ (after ++ 0 :: tail) := by simp
      obtain ⟨mark, ended, marked, stays⟩ :=
        terminate_append (done ++ lead ++ token) after tail nulFree.2.2
      obtain ⟨cut, starts, p, size, strings, run⟩ := ih (done ++ lead ++ token ++ mark) after.tail
        (fun member => nulFree.2.2 (List.mem_of_mem_tail member))
        (Function.update argv argc (some (done.length + lead.length))) (argc + 1)
      obtain ⟨rest, nul⟩ := stays cut size
      have same : done ++ (lead ++ token ++ mark ++ cut ++ 0 :: tail) =
          done ++ lead ++ token ++ mark ++ (cut ++ 0 :: tail) := by simp
      have whole : done ++ (lead ++ token ++ mark ++ cut ++ 0 :: tail) =
          (done ++ lead) ++ (token ++ 0 :: rest) := by
        rw [← nul]
        simp
      refine ⟨lead ++ token ++ mark ++ cut, (done.length + lead.length) :: starts, p, ?_, ?_, ?_⟩
      · simp only [List.length_append] at *
        omega
      · have first := cString_append (done ++ lead) token rest nulFree.2.1
        rw [List.length_append, ← whole] at first
        rw [spelled, List.take_succ_cons, List.map_cons, first, ← strings, same]
      · rw [splitLoop]
        simp only [span, byte, if_false, place]
        have counted : argc + (starts.length + 1) = argc + 1 + starts.length := by omega
        rw [buffer, ended, same, List.length_cons, counted, ← storeAll_cons]
        exact run

theorem wtdSplitCmdline_eq (s tail : List UInt8) (nulFree : 0 ∉ s) (argv : Nat -> Option Nat)
    (argvCap : Nat) (room : 1 ≤ argvCap) :
    ∃ cut starts, cut.length = s.length ∧
      starts.map (cString (cut ++ 0 :: tail)) = (tokens s).take (argvCap - 1) ∧
      wtdSplitCmdline (some (s ++ 0 :: tail)) (some argv) argvCap =
        (starts.length, some (cut ++ 0 :: tail),
          some (Function.update (storeAll argv 0 starts) starts.length none)) := by
  obtain ⟨cut, starts, p, size, strings, run⟩ :=
    splitLoop_spec (argvCap - 1) [] s tail nulFree argv 0
  simp only [List.nil_append, List.length_nil, Nat.zero_add] at strings run
  refine ⟨cut, starts, size, strings, ?_⟩
  simp [wtdSplitCmdline, Nat.ne_of_gt room, run]

theorem wtdSplitCmdline_exact (s tail : List UInt8) (nulFree : 0 ∉ s) (argv : Nat -> Option Nat)
    (argvCap : Nat) (room : 1 ≤ argvCap) :
    ∃ k buf out,
      wtdSplitCmdline (some (s ++ 0 :: tail)) (some argv) argvCap = (k, some buf, some out) ∧
      k = min (tokens s).length (argvCap - 1) ∧
      out k = none ∧ (∀ j, k < j -> out j = argv j) ∧
      buf.length = (s ++ 0 :: tail).length ∧ buf.drop s.length = 0 :: tail ∧
      ∀ i < k, ∃ start, out i = some start ∧ some (cString buf start) = (tokens s)[i]? := by
  obtain ⟨cut, starts, size, strings, result⟩ := wtdSplitCmdline_eq s tail nulFree argv argvCap room
  have count : starts.length = min (tokens s).length (argvCap - 1) := by
    have lengths := congrArg List.length strings
    simpa [Nat.min_comm] using lengths
  refine ⟨starts.length, _, _, result, count, by simp, ?_, ?_, ?_, ?_⟩
  · intro j beyond
    simp [Nat.ne_of_gt beyond, storeAll, List.getElem?_eq_none (Nat.le_of_lt beyond)]
  · simp [size]
  · simp [← size]
  · intro i below
    have same := congrArg (fun list => list[i]?) strings
    simp only [List.getElem?_map, List.getElem?_take, show i < argvCap - 1 by omega, if_true,
      List.getElem?_eq_getElem below, Option.map_some] at same
    exact ⟨starts[i], by simp [Nat.ne_of_lt below, storeAll, below], same⟩

-- `py "a b.py"`
def scriptCommand : List UInt8 :=
  [0x70, 0x79, 0x20, 0x22, 0x61, 0x20, 0x62, 0x2e, 0x70, 0x79, 0x22]

theorem wtdSplitCmdline_exact_script :
    (wtdSplitCmdline (some (scriptCommand ++ [0])) (some fun _ => some 99) 8).1 = 2 ∧
    ∃ k buf out, wtdSplitCmdline (some (scriptCommand ++ [0])) (some fun _ => some 99) 8 =
        (k, some buf, some out) ∧
      k = min (tokens scriptCommand).length 7 ∧ out k = none ∧
      ∀ i < k, ∃ start, out i = some start ∧
        some (cString buf start) = (tokens scriptCommand)[i]? := by
  refine ⟨by decide, ?_⟩
  obtain ⟨k, buf, out, result, count, ended, -, -, -, strings⟩ :=
    wtdSplitCmdline_exact scriptCommand [] (by decide) (fun _ => some 99) 8 (by decide)
  exact ⟨k, buf, out, result, count, ended, strings⟩

def readArgv (buf : List UInt8) (argv : Nat -> Option Nat) : Nat -> Nat -> List (List UInt8)
  | 0, _ => []
  | slots + 1, i =>
      match argv i with
      | none => []
      | some start => cString buf start :: readArgv buf argv slots (i + 1)

theorem readArgv_slots (buf : List UInt8) (argv : Nat -> Option Nat) (slots i : Nat)
    (starts : List Nat) (filled : ∀ j < starts.length, argv (i + j) = starts[j]?)
    (ended : argv (i + starts.length) = none) (room : starts.length < slots) :
    readArgv buf argv slots i = starts.map (cString buf) := by
  induction starts generalizing slots i with
  | nil =>
    cases slots with
    | zero => rfl
    | succ slots => simp_all [readArgv]
  | cons start rest ih =>
    cases slots with
    | zero => simp at room
    | succ slots =>
      have first : argv i = some start := by simpa using filled 0
      have later := ih slots (i + 1)
        (fun j below => by
          simpa [Nat.add_comm, Nat.add_left_comm] using filled (j + 1) (by simpa using below))
        (by simpa [Nat.add_comm, Nat.add_left_comm] using ended) (by simpa using room)
      simp [readArgv, first, later]

def splitWords (cmd : List UInt8) (argv : Nat -> Option Nat) (argvCap : Nat) :
    List (List UInt8) :=
  match wtdSplitCmdline (some cmd) (some argv) argvCap with
  | (_, some buf, some out) => readArgv buf out argvCap 0
  | _ => []

theorem splitWords_eq (s tail : List UInt8) (nulFree : 0 ∉ s) (argv : Nat -> Option Nat)
    (argvCap : Nat) (room : 1 ≤ argvCap) :
    splitWords (s ++ 0 :: tail) argv argvCap = (tokens s).take (argvCap - 1) := by
  obtain ⟨cut, starts, -, strings, result⟩ := wtdSplitCmdline_eq s tail nulFree argv argvCap room
  have bound : starts.length < argvCap := by
    have lengths := congrArg List.length strings
    simp only [List.length_map, List.length_take] at lengths
    omega
  simp only [splitWords, result, ← strings]
  apply readArgv_slots
  · intro j below
    simp [Nat.ne_of_lt below, storeAll, below]
  · simp
  · exact bound

end WebTransportD.CmdlineSplit
