import Mathlib.Data.List.TakeDrop
import WebTransportD.Adapters.CmdlineSplit

set_option autoImplicit false

namespace WebTransportD.ExecCommand

open CString CmdlineSplit

def apostrophe : UInt8 := 0x27

inductive Quoting where
  | bare
  | double
  | single
  deriving DecidableEq, Repr

structure Written where
  word : List UInt8
  quoting : Quoting
  gap : List UInt8
  nonempty : word ≠ []
  plain : ∀ c ∈ word, c ≠ 0 ∧ c ≠ quote ∧ c ≠ apostrophe
  solid : quoting = .bare -> ∀ c ∈ word, isBlank c = false
  spaced : gap ≠ [] ∧ ∀ c ∈ gap, isBlank c = true

def Written.text (w : Written) : List UInt8 :=
  match w.quoting with
  | .bare => w.word
  | .double => quote :: (w.word ++ [quote])
  | .single => apostrophe :: (w.word ++ [apostrophe])

def commandLine : List Written -> List UInt8
  | [] => []
  | [w] => w.text
  | w :: next :: rest => w.text ++ (w.gap ++ commandLine (next :: rest))

theorem tokens_gap (gap s : List UInt8) (blank : ∀ c ∈ gap, isBlank c = true) :
    tokens (gap ++ s) = tokens s := by
  induction gap with
  | nil => rfl
  | cons b rest ih =>
    rw [List.cons_append, tokens_skip b _ (blank b (by simp))]
    exact ih fun c member => blank c (List.mem_cons_of_mem b member)

theorem tokens_bare (word after : List UInt8) (c : UInt8) (bare : c ≠ quote)
    (solid : ∀ b ∈ c :: word, isBlank b = false) (ended : ∀ b ∈ after.head?, isBlank b = true) :
    tokens (c :: word ++ after) = (c :: word) :: tokens after := by
  have first : isBlank c = false := solid c (by simp)
  have inside : ∀ b ∈ word, (!isBlank b) = true := fun b member => by
    simp [solid b (List.mem_cons_of_mem c member)]
  have stop : after.takeWhile (!isBlank ·) = [] ∧ after.dropWhile (!isBlank ·) = after := by
    cases after with
    | nil => simp
    | cons b rest => simp [ended b (by simp)]
  rw [List.cons_append, tokens_found _ (word ++ after) c (by simp [first]), if_neg bare,
    List.takeWhile_append_of_pos inside, List.dropWhile_append_of_pos inside, stop.1, stop.2,
    List.append_nil]

theorem tokens_double (word after : List UInt8) (plain : ∀ c ∈ word, c ≠ quote) :
    tokens (quote :: (word ++ [quote]) ++ after) = word :: tokens after := by
  have inside : ∀ c ∈ word, (c != quote) = true := fun c member => by simpa using plain c member
  have found : (quote :: (word ++ [quote]) ++ after).dropWhile isBlank =
      quote :: (word ++ quote :: after) := by
    simp [show isBlank quote = false by decide]
  rw [tokens_found _ _ _ found, if_pos rfl, List.takeWhile_append_of_pos inside,
    List.dropWhile_append_of_pos inside]
  simp

theorem tokens_single (s : List UInt8) : ∃ rest later, tokens (apostrophe :: s) =
    (apostrophe :: rest) :: later := by
  have found : (apostrophe :: s).dropWhile isBlank = apostrophe :: s := by
    simp [show isBlank apostrophe = false by decide]
  exact ⟨_, _, by rw [tokens_found _ _ _ found, if_neg (by decide)]⟩

theorem commandLine_cons (w : Written) (rest : List Written) :
    ∃ after, commandLine (w :: rest) = w.text ++ after ∧ tokens after = tokens (commandLine rest) ∧
      ∀ b ∈ after.head?, isBlank b = true := by
  cases rest with
  | nil => exact ⟨[], by simp [commandLine], rfl, by simp⟩
  | cons next rest =>
    refine ⟨w.gap ++ commandLine (next :: rest), rfl, tokens_gap _ _ w.spaced.2, ?_⟩
    obtain ⟨b, blanks, same⟩ := List.exists_cons_of_ne_nil w.spaced.1
    have blank := w.spaced.2 b (by simp [same])
    simpa [same] using blank

theorem tokens_text (w : Written) (after : List UInt8)
    (ended : ∀ b ∈ after.head?, isBlank b = true) :
    (w.quoting ≠ .single ∧ tokens (w.text ++ after) = w.word :: tokens after) ∨
      w.quoting = .single ∧ ∃ token later, tokens (w.text ++ after) = token :: later ∧
        token ≠ w.word := by
  obtain ⟨c, word, same⟩ := List.exists_cons_of_ne_nil w.nonempty
  have first := w.plain c (by simp [same])
  cases quoting : w.quoting with
  | bare =>
    have solid := w.solid quoting
    rw [same] at solid
    refine .inl ⟨by simp, ?_⟩
    simp only [Written.text, quoting, same]
    exact tokens_bare word after c first.2.1 solid ended
  | double =>
    refine .inl ⟨by simp, ?_⟩
    simp only [Written.text, quoting]
    exact tokens_double w.word after fun c member => (w.plain c member).2.1
  | single =>
    obtain ⟨rest, later, found⟩ := tokens_single (w.word ++ [apostrophe] ++ after)
    refine .inr ⟨rfl, apostrophe :: rest, later, ?_, ?_⟩
    · simpa only [Written.text, quoting, List.cons_append] using found
    · intro equal
      rw [same] at equal
      exact first.2.2 (List.cons.inj equal).1.symm

theorem commandLine_tokens (words : List Written) (n : Nat) (room : words.length ≤ n) :
    (tokens (commandLine words)).take n = words.map Written.word ↔
      ∀ w ∈ words, w.quoting ≠ .single := by
  induction words generalizing n with
  | nil => simp [commandLine, tokens_blank [] rfl]
  | cons w rest ih =>
    obtain ⟨n, rfl⟩ : ∃ m, n = m + 1 := ⟨n - 1, by simp at room; omega⟩
    obtain ⟨after, text, later, ended⟩ := commandLine_cons w rest
    rcases tokens_text w after ended with ⟨plain, found⟩ | ⟨single, token, others, found, wrong⟩
    · have tail := ih n (by simpa using room)
      simp [text, found, later, tail, plain]
    · simp [text, found, wrong, single]

theorem text_nulFree (w : Written) : 0 ∉ w.text := by
  have word : 0 ∉ w.word := fun member => (w.plain 0 member).1 rfl
  cases quoting : w.quoting with
  | bare => simpa [Written.text, quoting] using word
  | double => simp [Written.text, quoting, word, quote]
  | single => simp [Written.text, quoting, word, apostrophe]

theorem commandLine_nulFree (words : List Written) : 0 ∉ commandLine words := by
  fun_induction commandLine words with
  | case1 => simp
  | case2 w => exact text_nulFree w
  | case3 w next rest ih =>
    have gap : 0 ∉ w.gap := fun member => absurd (w.spaced.2 0 member) (by decide)
    simp [text_nulFree w, gap, ih]

theorem quoted_words_survive_iff (words : List Written) (bound : words.length ≤ 63)
    (tail : List UInt8) (argv : Nat -> Option Nat) :
    splitWords (commandLine words ++ 0 :: tail) argv 64 = words.map Written.word ↔
      ∀ w ∈ words, w.quoting ≠ .single := by
  rw [splitWords_eq _ tail (commandLine_nulFree words) argv 64 (by decide)]
  exact commandLine_tokens words 63 bound

def written (word : List UInt8) (quoting : Quoting) (nonempty : word ≠ [])
    (plain : ∀ c ∈ word, c ≠ 0 ∧ c ≠ quote ∧ c ≠ apostrophe)
    (solid : quoting = .bare -> ∀ c ∈ word, isBlank c = false) : Written :=
  { word, quoting, gap := [0x20], nonempty, plain, solid, spaced := by simp [isBlank] }

-- `sh -c` and the script `a b` in the quotes given.
def shellCommand (quoting : Quoting) (quoted : quoting ≠ .bare) : List Written :=
  [written [0x73, 0x68] .bare (by simp) (by simp [quote, apostrophe]) (by simp [isBlank]),
    written [0x2d, 0x63] .bare (by simp) (by simp [quote, apostrophe]) (by simp [isBlank]),
    written [0x61, 0x20, 0x62] quoting (by simp) (by simp [quote, apostrophe])
      fun bare => absurd bare quoted]

theorem quoted_words_survive_double :
    splitWords (commandLine (shellCommand .double (by decide)) ++ [0]) (fun _ => none) 64 =
      [[0x73, 0x68], [0x2d, 0x63], [0x61, 0x20, 0x62]] :=
  (quoted_words_survive_iff (shellCommand .double (by decide)) (by decide) [] fun _ => none).mpr
    (by decide)

-- The README's form: the script arrives as `'a` and `b'`.
theorem single_quotes_split :
    splitWords (commandLine (shellCommand .single (by decide)) ++ [0]) (fun _ => none) 64 =
      [[0x73, 0x68], [0x2d, 0x63], [0x27, 0x61], [0x62, 0x27]] ∧
    splitWords (commandLine (shellCommand .single (by decide)) ++ [0]) (fun _ => none) 64 ≠
      (shellCommand .single (by decide)).map Written.word := by
  decide

structure ExecContext where
  buf : List UInt8
  argv : Nat -> Option Nat

-- `stack` is what the 1024 bytes of `exec_buf` hold before anything is written to them.
def prepareExec (execPath : Option (List UInt8)) (stack : List UInt8) : ExecContext :=
  let noArgv : Nat -> Option Nat := fun _ => none
  match execPath with
  | none => { buf := stack, argv := noArgv }
  | some path =>
      let made := wtdSplitCmdline (some (snprintfString stack 1024 path)) (some noArgv) 64
      { buf := made.2.1.getD stack, argv := made.2.2.getD noArgv }

def ExecContext.spawnArgv (ctx : ExecContext) : List (List UInt8) :=
  readArgv ctx.buf ctx.argv 64 0

theorem prepareExec_spawnArgv (path stack : List UInt8) (nulFree : 0 ∉ path) :
    (prepareExec (some path) stack).spawnArgv = (tokens (path.take 1023)).take 63 := by
  obtain ⟨junk, printed⟩ : ∃ junk, snprintfString stack 1024 path = path.take 1023 ++ 0 :: junk :=
    ⟨_, rfl⟩
  have copied : 0 ∉ path.take 1023 := fun member => nulFree (List.mem_of_mem_take member)
  have words := splitWords_eq (path.take 1023) junk copied (fun _ => none) 64 (by decide)
  obtain ⟨cut, starts, -, -, result⟩ :=
    wtdSplitCmdline_eq (path.take 1023) junk copied (fun _ => none) 64 (by decide)
  simp only [splitWords, result] at words
  simpa only [ExecContext.spawnArgv, prepareExec, printed, result, Option.getD_some] using words

theorem exec_command_complete_iff (path stack : List UInt8) (nulFree : 0 ∉ path) :
    (cString (snprintfString stack 1024 path) 0 = path ∧
      (prepareExec (some path) stack).spawnArgv = tokens path) ↔
    path.length ≤ 1023 ∧ (tokens path).length ≤ 63 := by
  have copied : cString (snprintfString stack 1024 path) 0 = path.take 1023 :=
    cString_append [] (path.take 1023) _ fun member => nulFree (List.mem_of_mem_take member)
  rw [copied, prepareExec_spawnArgv path stack nulFree, List.take_eq_self_iff]
  constructor
  · rintro ⟨fits, same⟩
    rw [List.take_of_length_le fits, List.take_eq_self_iff] at same
    exact ⟨fits, same⟩
  · rintro ⟨fits, slots⟩
    rw [List.take_of_length_le fits, List.take_eq_self_iff]
    exact ⟨fits, slots⟩

theorem commandLine_words (words : List Written) (plain : ∀ w ∈ words, w.quoting ≠ .single) :
    tokens (commandLine words) = words.map Written.word := by
  have all := (commandLine_tokens words (max words.length (tokens (commandLine words)).length)
    (Nat.le_max_left ..)).mpr plain
  rwa [List.take_of_length_le (Nat.le_max_right ..)] at all

theorem exec_command_complete_shell :
    (prepareExec (some (commandLine (shellCommand .double (by decide)))) []).spawnArgv =
      tokens (commandLine (shellCommand .double (by decide))) := by
  have words := commandLine_words (shellCommand .double (by decide)) (by decide)
  exact ((exec_command_complete_iff _ [] (commandLine_nulFree _)).mpr
    ⟨by decide, by rw [words]; decide⟩).2

def longWord (n : Nat) (positive : n ≠ 0) : Written :=
  written (List.replicate n 0x61) .bare (by simpa using positive)
    (fun c member => by rw [List.eq_of_mem_replicate member]; decide)
    (fun _ c member => by rw [List.eq_of_mem_replicate member]; decide)

def longCommand : List UInt8 :=
  commandLine [longWord 1024 (by decide)]

def wordyCommand : List UInt8 :=
  commandLine (List.replicate 64 (longWord 1 (by decide)))

theorem tokens_longWord (n : Nat) (positive : n ≠ 0) :
    tokens (List.replicate n 0x61) = [List.replicate n 0x61] :=
  commandLine_words [longWord n positive] (by simp [longWord, written])

-- One word of 1024 bytes loses its last byte, and of 64 short words the last is not passed on.
theorem exec_command_cut :
    (prepareExec (some longCommand) []).spawnArgv = [List.replicate 1023 0x61] ∧
    tokens longCommand = [List.replicate 1024 0x61] ∧
    (prepareExec (some wordyCommand) []).spawnArgv = List.replicate 63 [0x61] ∧
    tokens wordyCommand = List.replicate 64 [0x61] := by
  have wordy : tokens wordyCommand = List.replicate 64 [0x61] := by
    rw [wordyCommand, commandLine_words _ (by simp [longWord, written]), List.map_replicate]
    rfl
  refine ⟨?_, tokens_longWord 1024 (by decide), ?_, wordy⟩
  · have cut : longCommand.take 1023 = List.replicate 1023 0x61 := List.take_replicate
    rw [prepareExec_spawnArgv longCommand [] (commandLine_nulFree _), cut,
      tokens_longWord 1023 (by decide)]
    rfl
  · have short : wordyCommand.length ≤ 1023 := by decide +kernel
    rw [prepareExec_spawnArgv wordyCommand [] (commandLine_nulFree _),
      List.take_of_length_le short, wordy]
    rfl

end WebTransportD.ExecCommand
