import Mathlib.Data.List.Perm.Basic
import WebTransportD.Adapters.Log
import WebTransportD.Core.FrameRoundTrip
import WebTransportD.Shared.Numeral

set_option autoImplicit false

namespace WebTransportD.CommandLine

open WebTransportD.Frame Memory Numeral
open Env (ascii)
open Log (LogLevel)

inductive Field where
  | cert
  | key
  | port
  | exec
  | dir
  | logLevel
  deriving DecidableEq, Repr

def Field.lead : Field -> List UInt8
  | .cert => ascii "--cert="
  | .key => ascii "--key="
  | .port => ascii "--port="
  | .exec => ascii "--exec="
  | .dir => ascii "--dir="
  | .logLevel => ascii "--log-level="

-- In the order in which the loop of main tries them.
def Field.all : List Field :=
  [.cert, .key, .port, .exec, .dir, .logLevel]

structure Options where
  isServer : Bool
  value : Field -> Option (List UInt8)

structure TransportConfig where
  cert : List UInt8
  key : Option (List UInt8)
  port : Nat
  execPath : Option (List UInt8)
  dirPath : Option (List UInt8)
  deriving DecidableEq, Repr

-- What main prints; `log` is the text of a `wtd_log` at level error.
inductive Shown where
  | stdout (text : List UInt8)
  | stderr (text : List UInt8)
  | log (text : List UInt8)
  deriving DecidableEq, Repr

def wtdVersion : List UInt8 := ascii "0.1.0-dev"

def usage : List UInt8 :=
  ascii "webtransportd: HTTP/3 WebTransport daemon\n" ++
  ascii "usage:\n" ++
  ascii "  --version          Print version and exit\n" ++
  ascii "  --selftest         Run self-tests\n" ++
  ascii "  --server --cert=<pem> --key=<pem> --port=<N>\n" ++
  ascii "                      Start server\n" ++
  ascii "    --exec=<bin>      Spawn bin on connection\n" ++
  ascii "    --dir=<path>      Serve static files\n" ++
  ascii "    --log-level=<0-4> Set logging level\n" ++
  ascii "\nframing: WebTransport frames encode flag, varint length, payload\n"

inductive MainResult where
  | exit (code : Nat) (shown : List Shown)
  | run (level : LogLevel) (cfg : TransportConfig)
  deriving DecidableEq, Repr

-- `stack` is what the 256 bytes of `buf` hold before.
def cmdSelftest (stack : Nat -> UInt8) : MainResult :=
  let payload := ascii "test"
  let encoded := wtdFrameEncode 0 payload stack 256 0
  if encoded.status ≠ .ok ∨ encoded.outLen = 0 then .exit 1 []
  else
    let buf := slice encoded.out 0 encoded.outLen
    match wtdFrameDecode buf with
    | .error _ => .exit 1 []
    | .ok d =>
        if d.payloadLen ≠ payload.length ∨ d.bytes buf ≠ payload then .exit 1 []
        else .exit 0 [.stdout (ascii "selftest ok\n")]

def parseArgValue (arg lead : List UInt8) : Option (List UInt8) :=
  if lead.isPrefixOf arg then some (arg.drop lead.length) else none

def parseField (arg : List UInt8) : Option (Field × List UInt8) :=
  Field.all.findSome? fun field => (parseArgValue arg field.lead).map fun value => (field, value)

def logError (level : LogLevel) (text : List UInt8) : List Shown :=
  if LogLevel.error.toNat > level.toNat then [] else [.log text]

-- The loop over argv[1..]; an error is a return from inside it.
def mainLoop (stack : Nat -> UInt8) : Options -> List (List UInt8) -> Except MainResult Options
  | opts, [] => .ok opts
  | opts, arg :: rest =>
      if arg = ascii "--version" then
        .error (.exit 0 [.stdout (ascii "webtransportd " ++ wtdVersion ++ ascii "\n")])
      else if arg = ascii "--selftest" then .error (cmdSelftest stack)
      else if arg = ascii "--help" ∨ arg = ascii "-h" then .error (.exit 0 [.stdout usage])
      else if arg = ascii "--server" then mainLoop stack { opts with isServer := true } rest
      else match parseField arg with
        | some (field, value) =>
            mainLoop stack { opts with value := Function.update opts.value field (some value) } rest
        | none =>
            .error (.exit 2 (logError .info (ascii "webtransportd: unknown argument: " ++ arg) ++
              [.stderr usage]))

def longLimit : Nat := 2 ^ 63

def levelOf : Int -> LogLevel
  | 0 => .quiet
  | 1 => .error
  | 2 => .warn
  | 3 => .info
  | _ => .trace

def startServer (level : LogLevel) (opts : Options) : MainResult :=
  let missing := .exit 2 (logError level
    (ascii "webtransportd: --server requires cert, key, port") ++ [.stderr usage])
  match opts.value .port, opts.value .cert with
  | some portStr, some cert =>
      if cert ≠ ascii "auto" ∧ opts.value .key = none then missing
      else
        let port := strtol longLimit portStr
        if port ≤ 0 ∨ port > 65535 then
          .exit 2 (logError level (ascii "webtransportd: bad --port=" ++ portStr))
        else
          .run level
            { cert, key := opts.value .key, port := port.toNat, execPath := opts.value .exec
              dirPath := opts.value .dir }
  | _, _ => missing

def afterLoop (opts : Options) : MainResult :=
  let finish := fun level =>
    if opts.isServer then startServer level opts else .exit 2 [.stderr usage]
  match opts.value .logLevel with
  | none => finish .info
  | some text =>
      let level := strtol longLimit text
      if level < 0 ∨ level > 4 then
        .exit 2 (logError .info (ascii "webtransportd: bad --log-level=" ++ text))
      else finish (levelOf level)

def main (stack : Nat -> UInt8) (args : List (List UInt8)) : MainResult :=
  match mainLoop stack { isServer := false, value := fun _ => none } args with
  | .error result => result
  | .ok opts => afterLoop opts

theorem cmdSelftest_ok (stack : Nat -> UInt8) :
    cmdSelftest stack = .exit 0 [.stdout (ascii "selftest ok\n")] := by
  have valid : KnownFlag 0 := by decide
  have small : (ascii "test").length ≤ wtdFrameMaxPayload := by decide
  have encoded := wtdFrameEncode_ok 0 (ascii "test") stack 256 0 valid small (by decide)
  obtain ⟨d, decoded, -, -, -, length, -, bytes⟩ := wtdFrameDecode_of_frame 0 (ascii "test") _ []
    (canonicalFrame_isFrame 0 (ascii "test") valid small)
  rw [List.append_nil] at decoded bytes
  have size : neededSize (ascii "test") ≠ 0 := by decide
  simp [cmdSelftest, encoded, size, encoded_slice, decoded, length, bytes]

theorem parseArgValue_eq (arg lead value : List UInt8) :
    parseArgValue arg lead = some value ↔ arg = lead ++ value := by
  constructor
  · intro found
    obtain ⟨fits, rfl⟩ := by simpa [parseArgValue] using found
    exact (List.prefix_iff_eq_append.mp fits).symm
  · rintro rfl
    simp [parseArgValue]

theorem lead_apart (first second : Field) (arg : List UInt8) (one : first.lead <+: arg)
    (two : second.lead <+: arg) : first = second := by
  rcases List.prefix_or_prefix_of_prefix one two with inside | inside <;>
    revert inside <;> cases first <;> cases second <;> decide

theorem parseField_eq (arg : List UInt8) (field : Field) (value : List UInt8) :
    parseField arg = some (field, value) ↔ arg = field.lead ++ value := by
  have sound : ∀ found, parseField arg = some found -> arg = found.1.lead ++ found.2 := by
    intro found parsed
    obtain ⟨other, -, here⟩ := List.exists_of_findSome?_eq_some parsed
    obtain ⟨text, matched, rfl⟩ := Option.map_eq_some_iff.mp here
    exact (parseArgValue_eq arg other.lead text).mp matched
  refine ⟨sound (field, value), fun written => ?_⟩
  cases parsed : parseField arg with
  | none =>
    have matched := (parseArgValue_eq arg field.lead value).mpr written
    have missed := List.findSome?_eq_none_iff.mp parsed field (by cases field <;> decide)
    simp [matched] at missed
  | some found =>
    have other := sound found parsed
    have same := lead_apart found.1 field arg ⟨found.2, other.symm⟩ ⟨value, written.symm⟩
    rw [other, same] at written
    rw [← same, ← List.append_cancel_left written]

def Accepted (arg : List UInt8) : Prop :=
  arg = ascii "--server" ∨ ∃ (field : Field) (value : List UInt8), arg = field.lead ++ value

def lastValue (field : Field) (args : List (List UInt8)) : Option (List UInt8) :=
  (args.filterMap fun arg => parseArgValue arg field.lead).getLast?

def informing : List (List UInt8) :=
  [ascii "--version", ascii "--selftest", ascii "--help", ascii "-h"]

theorem lead_special (field : Field) (value arg : List UInt8)
    (special : arg ∈ ascii "--server" :: informing) : field.lead ++ value ≠ arg := by
  intro same
  have begins : ∀ arg ∈ ascii "--server" :: informing, ¬ field.lead <+: arg := by
    cases field <;> decide
  exact begins arg special ⟨value, same⟩

theorem informing_unaccepted (arg : List UInt8) (member : arg ∈ informing) : ¬ Accepted arg := by
  rintro (rfl | ⟨field, value, rfl⟩)
  · exact absurd member (by decide)
  · exact lead_special field value _ (List.mem_cons_of_mem _ member) rfl

theorem mainLoop_server (stack : Nat -> UInt8) (opts : Options) (rest : List (List UInt8)) :
    mainLoop stack opts (ascii "--server" :: rest) =
      mainLoop stack { opts with isServer := true } rest := by
  rw [mainLoop, if_neg (by decide), if_neg (by decide), if_neg (by decide), if_pos rfl]

theorem mainLoop_field (stack : Nat -> UInt8) (opts : Options) (field : Field)
    (value : List UInt8) (rest : List (List UInt8)) :
    mainLoop stack opts ((field.lead ++ value) :: rest) =
      mainLoop stack { opts with value := Function.update opts.value field (some value) } rest := by
  have other := lead_special field value
  simp only [informing, List.forall_mem_cons, ne_eq] at other
  rw [mainLoop, if_neg other.2.1, if_neg other.2.2.1,
    if_neg (not_or.mpr ⟨other.2.2.2.1, other.2.2.2.2.1⟩), if_neg other.1,
    (parseField_eq _ field value).mpr rfl]

theorem mainLoop_refused (stack : Nat -> UInt8) (opts : Options) (arg : List UInt8)
    (rest : List (List UInt8)) (refused : ¬ Accepted arg) :
    ∃ code shown, mainLoop stack opts (arg :: rest) = .error (.exit code shown) ∧
      (code = 0 ∧ arg ∈ informing ∨ code = 2 ∧ arg ∉ informing) := by
  have plain : arg ≠ ascii "--server" := fun same => refused (.inl same)
  have unknown : parseField arg = none := by
    cases parsed : parseField arg with
    | none => rfl
    | some found =>
      exact absurd (.inr ⟨_, _, (parseField_eq arg found.1 found.2).mp parsed⟩) refused
  rw [mainLoop, cmdSelftest_ok]
  by_cases version : arg = ascii "--version"
  · exact ⟨0, _, by rw [if_pos version], .inl ⟨rfl, by simp [informing, version]⟩⟩
  by_cases selftest : arg = ascii "--selftest"
  · exact ⟨0, _, by rw [if_neg version, if_pos selftest], .inl ⟨rfl, by simp [informing, selftest]⟩⟩
  by_cases help : arg = ascii "--help" ∨ arg = ascii "-h"
  · exact ⟨0, _, by rw [if_neg version, if_neg selftest, if_pos help],
      .inl ⟨rfl, by rcases help with help | help <;> simp [informing, help]⟩⟩
  · refine ⟨2, _, by rw [if_neg version, if_neg selftest, if_neg help, if_neg plain, unknown], ?_⟩
    exact .inr ⟨rfl, by simp [informing, version, selftest, not_or.mp help]⟩

theorem lastValue_cons (field : Field) (arg : List UInt8) (rest : List (List UInt8)) :
    lastValue field (arg :: rest) =
      (lastValue field rest).or (parseArgValue arg field.lead) := by
  cases matched : parseArgValue arg field.lead with
  | none => simp [lastValue, matched]
  | some value =>
    simp [lastValue, matched, List.getLast?_cons]

theorem parseArgValue_other (field other : Field) (value : List UInt8) (differs : other ≠ field) :
    parseArgValue (field.lead ++ value) other.lead = none := by
  cases matched : parseArgValue (field.lead ++ value) other.lead with
  | none => rfl
  | some text =>
    have same := (parseArgValue_eq _ _ _).mp matched
    exact absurd (lead_apart other field _ ⟨text, same.symm⟩ ⟨value, rfl⟩) differs

theorem parseArgValue_server (field : Field) :
    parseArgValue (ascii "--server") field.lead = none := by
  cases field <;> decide

theorem mainLoop_accepted (stack : Nat -> UInt8) (opts : Options) (args : List (List UInt8))
    (accepted : ∀ arg ∈ args, Accepted arg) :
    mainLoop stack opts args =
      .ok { isServer := opts.isServer || decide (ascii "--server" ∈ args)
            value := fun field => (lastValue field args).or (opts.value field) } := by
  induction args generalizing opts with
  | nil => simp [mainLoop, lastValue]
  | cons arg rest ih =>
    have later := fun opts =>
      ih opts fun other member => accepted other (List.mem_cons_of_mem arg member)
    rcases accepted arg (by simp) with rfl | ⟨field, value, rfl⟩
    · rw [mainLoop_server, later]
      simp [lastValue_cons, parseArgValue_server]
    · have plain := lead_special field value (ascii "--server") (by simp)
      rw [mainLoop_field, later]
      simp only [List.mem_cons, plain.symm, false_or, Except.ok.injEq, Options.mk.injEq, true_and]
      funext other
      rw [lastValue_cons, Option.or_assoc]
      congr 1
      by_cases same : other = field
      · subst same
        simp [(parseArgValue_eq _ _ _).mpr rfl]
      · simp [parseArgValue_other field other value same, Function.update_of_ne same]

structure Starts (value : Field -> Option (List UInt8)) (level : LogLevel)
    (cfg : TransportConfig) : Prop where
  cert : value .cert = some cfg.cert
  key : value .key = cfg.key
  exec : value .exec = cfg.execPath
  dir : value .dir = cfg.dirPath
  signed : cfg.cert = ascii "auto" ∨ cfg.key ≠ none
  port : ∃ text, value .port = some text ∧ strtol longLimit text = cfg.port
  range : 1 ≤ cfg.port ∧ cfg.port ≤ 65535
  level : value .logLevel = none ∧ level = .info ∨
    ∃ text, value .logLevel = some text ∧ strtol longLimit text = level.toNat

theorem levelOf_toNat (level : LogLevel) : levelOf level.toNat = level := by
  cases level <;> rfl

theorem toNat_levelOf (n : Int) (low : 0 ≤ n) (high : n ≤ 4) : (levelOf n).toNat = n := by
  obtain rfl | rfl | rfl | rfl | rfl : n = 0 ∨ n = 1 ∨ n = 2 ∨ n = 3 ∨ n = 4 := by omega
  all_goals rfl

theorem startServer_cases (level : LogLevel) (opts : Options) :
    (∃ shown, startServer level opts = .exit 2 shown) ∨
      ∃ cfg, startServer level opts = .run level cfg := by
  simp only [startServer]
  split
  · split_ifs <;> simp
  · simp

theorem startServer_run_iff (level given : LogLevel) (opts : Options) (cfg : TransportConfig) :
    startServer level opts = .run given cfg ↔
      given = level ∧ opts.value .cert = some cfg.cert ∧ opts.value .key = cfg.key ∧
        opts.value .exec = cfg.execPath ∧ opts.value .dir = cfg.dirPath ∧
        (cfg.cert = ascii "auto" ∨ cfg.key ≠ none) ∧
        (∃ text, opts.value .port = some text ∧ strtol longLimit text = cfg.port) ∧
        1 ≤ cfg.port ∧ cfg.port ≤ 65535 := by
  obtain ⟨cert, key, port, execPath, dirPath⟩ := cfg
  cases portStr : opts.value .port with
  | none => simp [startServer, portStr]
  | some text =>
    cases certStr : opts.value .cert with
    | none => simp [startServer, portStr, certStr]
    | some path =>
      simp only [startServer, portStr, certStr, Option.some.injEq, exists_eq_left']
      split_ifs with missing bad
      · refine ⟨by simp, ?_⟩
        rintro ⟨-, rfl, rfl, -, -, signed, -⟩
        exact absurd signed (by simpa using missing)
      · refine ⟨by simp, ?_⟩
        rintro ⟨-, -, -, -, -, -, value, low, high⟩
        omega
      · have signed : path = ascii "auto" ∨ opts.value .key ≠ none := by
          simpa [or_iff_not_imp_left] using missing
        have whole : ((strtol longLimit text).toNat : Int) = strtol longLimit text :=
          Int.toNat_of_nonneg (by omega)
        constructor
        · intro same
          obtain ⟨rfl, rfl, rfl, rfl, rfl, rfl⟩ := by simpa using same
          exact ⟨rfl, rfl, rfl, rfl, rfl, signed, whole.symm, by omega, by omega⟩
        · rintro ⟨rfl, rfl, rfl, rfl, rfl, -, value, -, -⟩
          simp [value]

theorem afterLoop_run_iff (opts : Options) (level : LogLevel) (cfg : TransportConfig) :
    afterLoop opts = .run level cfg ↔ opts.isServer = true ∧ Starts opts.value level cfg := by
  have finish : ∀ given, (if opts.isServer then startServer given opts
      else .exit 2 [.stderr usage]) = .run level cfg ↔
        opts.isServer = true ∧ startServer given opts = .run level cfg := by
    intro given
    cases opts.isServer <;> simp
  simp only [afterLoop]
  cases text : opts.value .logLevel with
  | none =>
    rw [finish, startServer_run_iff]
    refine and_congr_right fun _ => ?_
    constructor
    · rintro ⟨same, cert, key, exec, dir, signed, port, range⟩
      exact ⟨cert, key, exec, dir, signed, port, range, .inl ⟨text, same⟩⟩
    · rintro ⟨cert, key, exec, dir, signed, port, range, ⟨-, same⟩ | ⟨other, given, -⟩⟩
      · exact ⟨same, cert, key, exec, dir, signed, port, range⟩
      · simp [text] at given
  | some digits =>
    by_cases bad : strtol longLimit digits < 0 ∨ strtol longLimit digits > 4
    · simp only [if_pos bad]
      refine ⟨by simp, ?_⟩
      rintro ⟨-, starts⟩
      rcases starts.level with ⟨given, -⟩ | ⟨other, given, value⟩
      · simp [text] at given
      · obtain rfl : digits = other := by simpa [text] using given
        rw [value] at bad
        cases level <;> simp [LogLevel.toNat] at bad
    · have read := toNat_levelOf (strtol longLimit digits) (by omega) (by omega)
      simp only [if_neg bad]
      rw [finish, startServer_run_iff]
      refine and_congr_right fun _ => ?_
      constructor
      · rintro ⟨same, cert, key, exec, dir, signed, port, range⟩
        exact ⟨cert, key, exec, dir, signed, port, range, .inr ⟨digits, text, same ▸ read.symm⟩⟩
      · rintro ⟨cert, key, exec, dir, signed, port, range, ⟨given, -⟩ | ⟨other, given, value⟩⟩
        · simp [text] at given
        · obtain rfl : digits = other := by simpa [text] using given
          exact ⟨by rw [value, levelOf_toNat], cert, key, exec, dir, signed, port, range⟩

theorem afterLoop_code (opts : Options) (code : Nat) (shown : List Shown)
    (exited : afterLoop opts = .exit code shown) : code = 2 := by
  have finish : ∀ given, (if opts.isServer then startServer given opts
      else .exit 2 [.stderr usage]) = .exit code shown -> code = 2 := by
    intro given result
    split at result
    · rcases startServer_cases given opts with ⟨other, same⟩ | ⟨cfg, same⟩ <;> simp_all
    · simp_all
  simp only [afterLoop] at exited
  split at exited
  · exact finish _ exited
  · split at exited
    · simp_all
    · exact finish _ exited

theorem first_refused (args : List (List UInt8)) :
    (∀ arg ∈ args, Accepted arg) ∨ ∃ before arg after, args = before ++ arg :: after ∧
      (∀ other ∈ before, Accepted other) ∧ ¬ Accepted arg := by
  induction args with
  | nil => simp
  | cons arg rest ih =>
    by_cases accepted : Accepted arg
    · rcases ih with all | ⟨before, other, after, rfl, all, refused⟩
      · exact .inl (by simpa using ⟨accepted, all⟩)
      · exact .inr ⟨arg :: before, other, after, rfl, by simpa using ⟨accepted, all⟩, refused⟩
    · exact .inr ⟨[], arg, rest, rfl, by simp, accepted⟩

theorem refused_unique {before first after rest : List (List UInt8)} {arg second : List UInt8}
    (same : before ++ arg :: after = first ++ second :: rest)
    (accepted : ∀ other ∈ before, Accepted other) (met : ∀ other ∈ first, Accepted other)
    (refused : ¬ Accepted arg) (stopped : ¬ Accepted second) : arg = second := by
  induction before generalizing first with
  | nil =>
    cases first with
    | nil => exact (List.cons.inj same).1
    | cons head tail =>
      obtain ⟨rfl, -⟩ := List.cons.inj same
      exact absurd (met arg (by simp)) refused
  | cons head tail ih =>
    cases first with
    | nil =>
      obtain ⟨rfl, -⟩ := List.cons.inj same
      exact absurd (accepted head (by simp)) stopped
    | cons other others =>
      exact ih (List.cons.inj same).2
        (fun item member => accepted item (List.mem_cons_of_mem head member))
        (fun item member => met item (List.mem_cons_of_mem other member))

theorem mainLoop_append (stack : Nat -> UInt8) (opts : Options) (before after : List (List UInt8))
    (accepted : ∀ arg ∈ before, Accepted arg) :
    ∃ later, mainLoop stack opts (before ++ after) = mainLoop stack later after := by
  induction before generalizing opts with
  | nil => exact ⟨opts, rfl⟩
  | cons arg rest ih =>
    have later := fun opts =>
      ih opts fun other member => accepted other (List.mem_cons_of_mem arg member)
    rcases accepted arg (by simp) with rfl | ⟨field, value, rfl⟩
    · rw [List.cons_append, mainLoop_server]
      exact later _
    · rw [List.cons_append, mainLoop_field]
      exact later _

theorem main_accepted (stack : Nat -> UInt8) (args : List (List UInt8))
    (accepted : ∀ arg ∈ args, Accepted arg) :
    main stack args = afterLoop
      { isServer := decide (ascii "--server" ∈ args)
        value := fun field => lastValue field args } := by
  rw [main, mainLoop_accepted stack _ args accepted]
  simp

theorem main_refused (stack : Nat -> UInt8) (before after : List (List UInt8)) (arg : List UInt8)
    (accepted : ∀ other ∈ before, Accepted other) (refused : ¬ Accepted arg) :
    ∃ code shown, main stack (before ++ arg :: after) = .exit code shown ∧
      (code = 0 ∧ arg ∈ informing ∨ code = 2 ∧ arg ∉ informing) := by
  obtain ⟨later, skipped⟩ := mainLoop_append stack { isServer := false, value := fun _ => none }
    before (arg :: after) accepted
  obtain ⟨code, shown, stopped, kind⟩ := mainLoop_refused stack later arg after refused
  exact ⟨code, shown, by rw [main, skipped, stopped], kind⟩

theorem main_run_iff (stack : Nat -> UInt8) (args : List (List UInt8)) (level : LogLevel)
    (cfg : TransportConfig) :
    main stack args = .run level cfg ↔
      (∀ arg ∈ args, Accepted arg) ∧ ascii "--server" ∈ args ∧
        Starts (fun field => lastValue field args) level cfg := by
  rcases first_refused args with all | ⟨before, arg, after, rfl, accepted, refused⟩
  · rw [main_accepted stack args all, afterLoop_run_iff, decide_eq_true_iff]
    exact ⟨fun starts => ⟨all, starts⟩, fun starts => starts.2⟩
  · obtain ⟨code, shown, result, -⟩ := main_refused stack before after arg accepted refused
    simp only [result, reduceCtorEq, false_iff, not_and]
    exact fun all => absurd (all arg (by simp)) refused

theorem main_decides (stack : Nat -> UInt8) (args : List (List UInt8)) :
    (∀ level cfg, main stack args = .run level cfg ↔
      (∀ arg ∈ args, Accepted arg) ∧ ascii "--server" ∈ args ∧
        Starts (fun field => lastValue field args) level cfg) ∧
    ∀ code shown, main stack args = .exit code shown ->
      (code = 0 ∧ ∃ before arg after, args = before ++ arg :: after ∧
        (∀ other ∈ before, Accepted other) ∧ arg ∈ informing) ∨
      (code = 2 ∧ ∀ before arg after, args = before ++ arg :: after ->
        (∀ other ∈ before, Accepted other) -> arg ∉ informing) := by
  refine ⟨main_run_iff stack args, fun code shown exited => ?_⟩
  rcases first_refused args with all | ⟨before, arg, after, rfl, accepted, refused⟩
  · refine .inr ⟨?_, ?_⟩
    · rw [main_accepted stack args all] at exited
      exact afterLoop_code _ code shown exited
    · rintro before arg after rfl - member
      exact informing_unaccepted arg member (all arg (by simp))
  · obtain ⟨given, texts, result, kind⟩ := main_refused stack before after arg accepted refused
    obtain ⟨rfl, rfl⟩ : given = code ∧ texts = shown := by simpa [result] using exited
    rcases kind with ⟨rfl, member⟩ | ⟨rfl, other⟩
    · exact .inl ⟨rfl, before, arg, after, rfl, accepted, member⟩
    · refine .inr ⟨rfl, fun first second rest same met member => ?_⟩
      have here := refused_unique same accepted met refused (informing_unaccepted second member)
      exact other (here ▸ member)

-- The last port counts, and only the digits it begins with.
example : main (fun _ => 0) [ascii "--server", ascii "--cert=auto", ascii "--port=1",
      ascii "--port=80x"] =
    .run .info
      { cert := ascii "auto", key := none, port := 80, execPath := none, dirPath := none } := by
  decide +kernel

def arguments (level : LogLevel) (cfg : TransportConfig) : List (List UInt8) :=
  [ascii "--server", Field.cert.lead ++ cfg.cert, Field.port.lead ++ decimal cfg.port,
    Field.logLevel.lead ++ decimal level.toNat] ++
  (cfg.key.map (Field.key.lead ++ ·)).toList ++ (cfg.execPath.map (Field.exec.lead ++ ·)).toList ++
    (cfg.dirPath.map (Field.dir.lead ++ ·)).toList

theorem arguments_accepted (level : LogLevel) (cfg : TransportConfig) :
    ∀ arg ∈ arguments level cfg, Accepted arg := by
  intro arg member
  simp only [arguments, List.mem_append, List.mem_cons, List.not_mem_nil, or_false,
    Option.mem_toList, Option.map_eq_some_iff] at member
  rcases member with (((rfl | rfl | rfl | rfl) | ⟨value, -, rfl⟩) | ⟨value, -, rfl⟩) |
    ⟨value, -, rfl⟩
  · exact .inl rfl
  all_goals exact .inr ⟨_, _, rfl⟩

def valueIn (level : LogLevel) (cfg : TransportConfig) : Field -> Option (List UInt8)
  | .cert => some cfg.cert
  | .key => cfg.key
  | .port => some (decimal cfg.port)
  | .exec => cfg.execPath
  | .dir => cfg.dirPath
  | .logLevel => some (decimal level.toNat)

theorem arguments_values (level : LogLevel) (cfg : TransportConfig) (field : Field) :
    (arguments level cfg).filterMap (fun arg => parseArgValue arg field.lead) =
      (valueIn level cfg field).toList := by
  have own : ∀ value, parseArgValue (field.lead ++ value) field.lead = some value :=
    fun value => (parseArgValue_eq _ _ _).mpr rfl
  have other := fun given value differs => parseArgValue_other given field value differs
  have server := parseArgValue_server field
  obtain ⟨cert, key, port, execPath, dirPath⟩ := cfg
  cases field <;> cases key <;> cases execPath <;> cases dirPath <;>
    simp [arguments, valueIn, own, other, server]

theorem lastValue_perm {level : LogLevel} {cfg : TransportConfig} {args : List (List UInt8)}
    (order : args.Perm (arguments level cfg)) (field : Field) :
    lastValue field args = valueIn level cfg field := by
  have values := order.filterMap fun arg => parseArgValue arg field.lead
  rw [arguments_values] at values
  cases given : valueIn level cfg field with
  | none =>
    rw [given, Option.toList_none] at values
    simp [lastValue, values.eq_nil]
  | some value =>
    rw [given, Option.toList_some] at values
    simp [lastValue, List.perm_singleton.mp values]

theorem main_round_trip (stack : Nat -> UInt8) (level : LogLevel) (cfg : TransportConfig)
    (args : List (List UInt8)) (range : 1 ≤ cfg.port ∧ cfg.port ≤ 65535)
    (signed : cfg.cert = ascii "auto" ∨ cfg.key ≠ none)
    (order : args.Perm (arguments level cfg)) : main stack args = .run level cfg := by
  have accepted : ∀ arg ∈ args, Accepted arg := fun arg member =>
    arguments_accepted level cfg arg (order.mem_iff.mp member)
  have server : ascii "--server" ∈ args := order.mem_iff.mpr (by simp [arguments])
  have value := lastValue_perm order
  have small : level.toNat < longLimit := by cases level <;> decide
  have port : cfg.port < longLimit := Nat.lt_of_le_of_lt range.2 (by decide)
  rw [main_accepted stack args accepted, afterLoop_run_iff]
  refine ⟨by simpa using server, value .cert, value .key, value .exec, value .dir, signed,
    ⟨_, value .port, strtol_decimal longLimit _ port⟩, range,
    .inr ⟨_, value .logLevel, strtol_decimal longLimit _ small⟩⟩

def autoConfig : TransportConfig :=
  { cert := ascii "auto", key := none, port := 4433, execPath := some (ascii "./echo")
    dirPath := none }

theorem main_round_trip_auto :
    main (fun _ => 0xcc) (arguments .warn autoConfig).reverse = .run .warn autoConfig :=
  main_round_trip _ .warn autoConfig _ (by decide) (.inl rfl) (List.reverse_perm _)

end WebTransportD.CommandLine
