import Mathlib.Data.List.DropRight
import Mathlib.Logic.Function.Basic
import WebTransportD.Shared.CString

set_option autoImplicit false

namespace WebTransportD.Env

open CString

def comma : UInt8 := 0x2c

def equals : UInt8 := 0x3d

def ascii (s : String) : List UInt8 :=
  s.toList.map fun c => UInt8.ofNat c.toNat

structure WtdEnvRequest where
  remoteAddr : Option (List UInt8)
  remotePort : Option (List UInt8)
  path : Option (List UInt8)
  authority : Option (List UInt8)
  version : Option (List UInt8)

-- Whether each allocation succeeds, and what realloc leaves beyond the slots it copies.
structure Allocator where
  grants : Nat -> Bool
  junk : Nat -> Nat -> Option (List UInt8)

-- The array under construction. `inBounds` records that both stores of every append were below the
-- capacity then allocated.
structure EnvArray where
  slots : Nat -> Option (List UInt8)
  count : Nat
  cap : Nat
  allocs : Nat
  inBounds : Bool

def kvAlloc (grant : Bool) (key : List UInt8) (value : Option (List UInt8)) :
    Option (List UInt8) :=
  if grant then some (key ++ equals :: value.getD []) else none

def EnvArray.reallocated (alloc : Allocator) (e : EnvArray) : EnvArray :=
  { e with
    cap := if e.cap = 0 then 8 else e.cap * 2
    slots := fun i => if i < e.cap then e.slots i else alloc.junk e.allocs i
    allocs := e.allocs + 1 }

def EnvArray.store (e : EnvArray) (entry : List UInt8) : EnvArray :=
  { e with
    slots := Function.update (Function.update e.slots e.count (some entry)) (e.count + 1) none
    count := e.count + 1
    inBounds := e.inBounds && decide (e.count + 1 < e.cap) }

def envAppend (alloc : Allocator) (e : EnvArray) (entry : Option (List UInt8)) :
    Option EnvArray :=
  match entry with
  | none => none
  | some entry =>
      if e.count + 1 ≥ e.cap then
        if alloc.grants e.allocs then some ((e.reallocated alloc).store entry) else none
      else some (e.store entry)

-- env_append(.., kv_alloc(key, value)) as every caller has it.
def appendKv (alloc : Allocator) (key : List UInt8) (value : Option (List UInt8))
    (e : EnvArray) : Option EnvArray :=
  envAppend alloc { e with allocs := e.allocs + 1 } (kvAlloc (alloc.grants e.allocs) key value)

-- while (end > s && blank(end[-1])) end--, as a length from `s`.
def retreat (buf : List UInt8) (s : Nat) : Nat -> Nat
  | 0 => 0
  | n + 1 => if isBlank (byteAt buf (s + n)) then retreat buf s n else n + 1

def trim (buf : List UInt8) (s : Nat) : List UInt8 × Nat :=
  let s := advance isBlank buf s
  (buf.set (s + retreat buf s (cString buf s).length) 0, s)

def passToken (alloc : Allocator) (getenv : List UInt8 -> Option (List UInt8)) (buf : List UInt8)
    (tok : Nat) (e : EnvArray) : List UInt8 × Option EnvArray :=
  let (buf, name) := trim buf tok
  if byteAt buf name = 0 then (buf, some e)
  else
    match getenv (cString buf name) with
    | none => (buf, some e)
    | some value => (buf, appendKv alloc (cString buf name) (some value) e)

def passLoop (alloc : Allocator) (getenv : List UInt8 -> Option (List UInt8)) :
    Nat -> List UInt8 -> Nat -> EnvArray -> Option EnvArray
  | 0, _, _, e => some e
  | fuel + 1, buf, p, e =>
      match strtokR (· == comma) buf p with
      | none => some e
      | some (tok, buf, save) =>
          match passToken alloc getenv buf tok e with
          | (_, none) => none
          | (buf, some e) => passLoop alloc getenv fuel buf save e

def fixedCount : Nat := 5

def wtdEnvBuild (alloc : Allocator) (getenv : List UInt8 -> Option (List UInt8))
    (req : Option WtdEnvRequest) (passenv : Option (List UInt8)) : Option EnvArray := do
  let req ← req
  if !alloc.grants 0 then none
  else
    let e : EnvArray :=
      { slots := fun _ => none, count := 0, cap := fixedCount + 1, allocs := 1, inBounds := true }
    let e ← appendKv alloc (ascii "WEBTRANSPORT_REMOTE_ADDR") req.remoteAddr e
    let e ← appendKv alloc (ascii "WEBTRANSPORT_REMOTE_PORT") req.remotePort e
    let e ← appendKv alloc (ascii "WEBTRANSPORT_PATH") req.path e
    let e ← appendKv alloc (ascii "WEBTRANSPORT_AUTHORITY") req.authority e
    let e ← appendKv alloc (ascii "WEBTRANSPORT_VERSION") req.version e
    match passenv with
    | none | some [] => some e
    | some list =>
        -- strdup
        if alloc.grants e.allocs then
          passLoop alloc getenv (list.length + 1) (list ++ [0]) 0 { e with allocs := e.allocs + 1 }
        else none

structure EnvArray.Holds (e : EnvArray) (entries : List (List UInt8)) : Prop where
  counted : e.count = entries.length
  room : e.count < e.cap
  stored : ∀ i ≤ e.count, e.slots i = entries[i]?
  inBounds : e.inBounds = true

theorem reallocated_holds (alloc : Allocator) (e : EnvArray) (entries : List (List UInt8))
    (holds : e.Holds entries) (full : e.count + 1 ≥ e.cap) :
    (e.reallocated alloc).Holds entries ∧
      (e.reallocated alloc).count + 1 < (e.reallocated alloc).cap := by
  have room := holds.room
  have doubled : (e.reallocated alloc).cap = e.cap * 2 := if_neg (by omega)
  have same : (e.reallocated alloc).count = e.count := rfl
  refine ⟨⟨holds.counted, by omega, ?_, holds.inBounds⟩, by omega⟩
  intro i below
  have inside : i < e.cap := Nat.lt_of_le_of_lt below room
  simpa [EnvArray.reallocated, inside] using holds.stored i below

theorem store_holds (e : EnvArray) (entries : List (List UInt8)) (holds : e.Holds entries)
    (room : e.count + 1 < e.cap) (entry : List UInt8) :
    (e.store entry).Holds (entries ++ [entry]) := by
  have counted := holds.counted
  constructor
  · simp [EnvArray.store, counted]
  · exact room
  · intro i below
    have bound : i ≤ entries.length + 1 := by simpa [EnvArray.store, counted] using below
    rcases Nat.lt_trichotomy i entries.length with earlier | rfl | last
    · have old := holds.stored i (by omega)
      simp [EnvArray.store, counted, List.getElem?_append_left earlier, old,
        show i ≠ entries.length + 1 by omega, show i ≠ entries.length by omega]
    · simp [EnvArray.store, counted]
    · obtain rfl : i = entries.length + 1 := by omega
      simp [EnvArray.store, counted]
  · simp [EnvArray.store, holds.inBounds, room]

theorem appendKv_holds (alloc : Allocator) (grants : ∀ n, alloc.grants n = true) (e : EnvArray)
    (entries : List (List UInt8)) (holds : e.Holds entries) (key : List UInt8)
    (value : Option (List UInt8)) :
    ∃ next, appendKv alloc key value e = some next ∧
      next.Holds (entries ++ [key ++ equals :: value.getD []]) := by
  have counted : EnvArray.Holds { e with allocs := e.allocs + 1 } entries :=
    ⟨holds.counted, holds.room, holds.stored, holds.inBounds⟩
  by_cases full : e.count + 1 ≥ e.cap
  · obtain ⟨kept, room⟩ := reallocated_holds alloc _ entries counted full
    refine ⟨_, ?_, store_holds _ entries kept room (key ++ equals :: value.getD [])⟩
    simp [appendKv, envAppend, kvAlloc, grants, full]
  · refine ⟨_, ?_, store_holds _ entries counted (by simpa using full)
      (key ++ equals :: value.getD [])⟩
    simp [appendKv, envAppend, kvAlloc, grants, full]

def trimBlank (s : List UInt8) : List UInt8 :=
  (s.dropWhile isBlank).rdropWhile isBlank

theorem retreat_append (before s after : List UInt8) :
    retreat (before ++ (s ++ after)) before.length s.length =
      (s.rdropWhile isBlank).length := by
  induction s using List.reverseRecOn generalizing after with
  | nil => simp [retreat]
  | append_singleton s c ih =>
    have last : byteAt (before ++ (s ++ [c] ++ after)) (before.length + s.length) = c := by
      rw [← List.length_append, List.append_assoc, ← List.append_assoc before, byteAt_append]
      rfl
    rw [List.length_append, List.length_singleton, retreat, last]
    cases blank : isBlank c with
    | true =>
      have shorter := ih (c :: after)
      rw [if_pos rfl, List.rdropWhile_concat_pos _ _ _ blank, ← shorter]
      simp
    | false =>
      simp [List.rdropWhile_concat_neg _ _ _ (by simp [blank] : ¬ isBlank c = true)]

theorem trim_append (before token rest : List UInt8) (nulFree : 0 ∉ token) :
    ∃ cut name, cut.length = token.length ∧
      trim (before ++ (token ++ 0 :: rest)) before.length =
        (before ++ (cut ++ 0 :: rest), name) ∧
      cString (before ++ (cut ++ 0 :: rest)) name = trimBlank token ∧
      byteAt (before ++ (cut ++ 0 :: rest)) name = (trimBlank token).headD 0 := by
  obtain ⟨lead, body, kept, trail, skipped, left, cutOff, parts⟩ :
      ∃ lead body kept trail, token.takeWhile isBlank = lead ∧ token.dropWhile isBlank = body ∧
        body.rdropWhile isBlank = kept ∧ token = lead ++ body ∧ body = kept ++ trail :=
    ⟨_, _, _, (token.dropWhile isBlank).rtakeWhile isBlank, rfl, rfl, rfl,
      List.takeWhile_append_dropWhile.symm, (List.rdropWhile_append_rtakeWhile ..).symm⟩
  have name : trimBlank token = kept := by rw [trimBlank, left, cutOff]
  have bodyFree : 0 ∉ body := fun member => nulFree (by rw [parts.1]; simp [member])
  have keptFree : 0 ∉ kept := fun member => bodyFree (by rw [parts.2]; simp [member])
  have buffer : before ++ (token ++ 0 :: rest) = (before ++ lead) ++ (body ++ 0 :: rest) := by
    simp [parts.1]
  have start : advance isBlank (before ++ (token ++ 0 :: rest)) before.length =
      (before ++ lead).length := by
    rw [advance_string isBlank (by decide), skipped]
  have stop : (before ++ lead).length + retreat ((before ++ lead) ++ (body ++ 0 :: rest))
      (before ++ lead).length body.length = (before ++ lead ++ kept).length := by
    rw [retreat_append, cutOff]
    exact List.length_append.symm
  have whole : (before ++ lead) ++ (body ++ 0 :: rest) =
      (before ++ lead ++ kept) ++ (trail ++ 0 :: rest) := by
    simp [parts.2]
  obtain ⟨cut, later, stored, size, nul⟩ := set_nul (before ++ lead ++ kept) trail rest
  have ended : before ++ (lead ++ kept ++ cut ++ 0 :: rest) =
      (before ++ lead) ++ (kept ++ 0 :: later) := by
    rw [← nul]
    simp
  refine ⟨lead ++ kept ++ cut, (before ++ lead).length, ?_, ?_, ?_, ?_⟩
  · simp [parts.1, parts.2, size]
  · simp only [trim, start]
    rw [buffer, cString_append _ _ _ bodyFree, stop, whole, stored]
    simp
  · rw [ended, cString_append _ _ _ keptFree, name]
  · rw [ended, byteAt_append, name]
    cases kept <;> rfl

def passNames (passenv : List UInt8) : List (List UInt8) :=
  ((passenv.splitOn comma).map trimBlank).filter (· ≠ [])

def hostEntries (getenv : List UInt8 -> Option (List UInt8)) (names : List (List UInt8)) :
    List (List UInt8) :=
  names.filterMap fun name => (getenv name).map fun value => name ++ equals :: value

theorem filter_trimmed (parts : List (List UInt8)) :
    ((parts.filter (· ≠ [])).map trimBlank).filter (· ≠ []) =
      (parts.map trimBlank).filter (· ≠ []) := by
  induction parts with
  | nil => rfl
  | cons part rest ih =>
    by_cases empty : part = []
    · have trimmed : trimBlank [] = [] := rfl
      simpa [empty, trimmed] using ih
    · have kept : (part :: rest).filter (· ≠ []) = part :: rest.filter (· ≠ []) := by
        simp [empty]
      rw [kept, List.map_cons, List.map_cons, List.filter_cons, List.filter_cons, ih]

theorem passNames_fields (passenv : List UInt8) :
    passNames passenv = ((fields (· == comma) passenv).map trimBlank).filter (· ≠ []) :=
  (filter_trimmed _).symm

theorem passToken_holds (alloc : Allocator) (grants : ∀ n, alloc.grants n = true)
    (getenv : List UInt8 -> Option (List UInt8)) (before token rest : List UInt8)
    (nulFree : 0 ∉ token) (e : EnvArray) (entries : List (List UInt8)) (holds : e.Holds entries) :
    ∃ cut next, cut.length = token.length ∧
      passToken alloc getenv (before ++ (token ++ 0 :: rest)) before.length e =
        (before ++ (cut ++ 0 :: rest), some next) ∧
      next.Holds (entries ++ hostEntries getenv ([trimBlank token].filter (· ≠ []))) := by
  obtain ⟨cut, name, size, trimmed, string, byte⟩ := trim_append before token rest nulFree
  simp only [passToken, trimmed, string, byte]
  cases kept : trimBlank token with
  | nil => exact ⟨cut, e, size, by simp, by simpa [hostEntries] using holds⟩
  | cons c more =>
    have solid : c ≠ 0 := by
      rintro rfl
      have inside : 0 ∈ trimBlank token := by simp [kept]
      exact nulFree ((List.dropWhile_sublist _).mem ((List.rdropWhile_prefix _ _).subset inside))
    cases found : getenv (c :: more) with
    | none => exact ⟨cut, e, size, by simp [solid], by simpa [hostEntries, found] using holds⟩
    | some value =>
      obtain ⟨next, appended, after⟩ := appendKv_holds alloc grants e entries holds (c :: more)
        (some value)
      exact ⟨cut, next, size, by simp [solid, appended],
        by simpa [hostEntries, found] using after⟩

theorem passLoop_holds (alloc : Allocator) (grants : ∀ n, alloc.grants n = true)
    (getenv : List UInt8 -> Option (List UInt8)) (fuel : Nat) (done s tail : List UInt8)
    (nulFree : 0 ∉ s) (enough : s.length < fuel) (e : EnvArray) (entries : List (List UInt8))
    (holds : e.Holds entries) :
    ∃ final, passLoop alloc getenv fuel (done ++ (s ++ 0 :: tail)) done.length e = some final ∧
      final.Holds (entries ++ hostEntries getenv (passNames s)) := by
  induction fuel generalizing done s e entries with
  | zero => omega
  | succ fuel ih =>
    by_cases more : s.dropWhile (· == comma) = []
    · obtain ⟨none, stopped⟩ := strtokR_none (· == comma) (by decide) done s tail more
      exact ⟨e, by simp [passLoop, stopped],
        by simpa [passNames_fields, none, hostEntries] using holds⟩
    · obtain ⟨lead, token, after, mark, parts, first, ⟨rest, nul⟩, called⟩ :=
        strtokR_some (· == comma) (by decide) done s tail nulFree more
      have names : passNames s = [trimBlank token].filter (· ≠ []) ++ passNames after.tail := by
        simp only [passNames_fields, first, List.map_cons, ← List.filter_append,
          List.singleton_append]
      obtain ⟨cut, next, size, taken, kept⟩ := passToken_holds alloc grants getenv (done ++ lead)
        token rest (fun member => nulFree (by simp [parts, member])) e entries holds
      have shorter : after.tail.length < fuel := by
        have size := congrArg List.length parts
        have some : 0 < s.length := List.length_pos_iff.mpr fun empty => more (by simp [empty])
        simp only [List.length_append, List.length_tail] at size ⊢
        omega
      obtain ⟨final, run, held⟩ := ih (done ++ lead ++ cut ++ mark) after.tail
        (fun member => nulFree (by simp [parts, List.mem_of_mem_tail member])) shorter next _ kept
      refine ⟨final, ?_, by simpa [names, hostEntries] using held⟩
      -- The rest of the buffer is where the saved position points, trimmed token or not.
      have buffer : (done ++ lead ++ token ++ mark) ++ (after.tail ++ 0 :: tail) =
          (done ++ lead) ++ (token ++ 0 :: rest) := by
        rw [← nul]
        simp
      have left : (done ++ lead) ++ (cut ++ 0 :: rest) =
          (done ++ lead ++ cut ++ mark) ++ (after.tail ++ 0 :: tail) := by
        rw [← nul]
        simp
      have place : (done ++ lead ++ token ++ mark).length =
          (done ++ lead ++ cut ++ mark).length := by
        simp [size]
      simp only [passLoop, called]
      rw [buffer, taken, left, place]
      exact run

def cgiEntries (req : WtdEnvRequest) : List (List UInt8) :=
  [ascii "WEBTRANSPORT_REMOTE_ADDR" ++ equals :: req.remoteAddr.getD [],
    ascii "WEBTRANSPORT_REMOTE_PORT" ++ equals :: req.remotePort.getD [],
    ascii "WEBTRANSPORT_PATH" ++ equals :: req.path.getD [],
    ascii "WEBTRANSPORT_AUTHORITY" ++ equals :: req.authority.getD [],
    ascii "WEBTRANSPORT_VERSION" ++ equals :: req.version.getD []]

def envEntries (getenv : List UInt8 -> Option (List UInt8)) (req : WtdEnvRequest)
    (passenv : Option (List UInt8)) : List (List UInt8) :=
  cgiEntries req ++ hostEntries getenv (passNames (passenv.getD []))

theorem wtdEnvBuild_holds (alloc : Allocator) (grants : ∀ n, alloc.grants n = true)
    (getenv : List UInt8 -> Option (List UInt8)) (req : WtdEnvRequest)
    (passenv : Option (List UInt8)) (nulFree : ∀ list ∈ passenv, 0 ∉ list) :
    ∃ e, wtdEnvBuild alloc getenv (some req) passenv = some e ∧
      e.Holds (envEntries getenv req passenv) := by
  have fresh : EnvArray.Holds
      { slots := fun _ => none, count := 0, cap := fixedCount + 1, allocs := 1, inBounds := true }
      [] := ⟨rfl, by decide, by simp, rfl⟩
  obtain ⟨e1, addr, holds1⟩ := appendKv_holds alloc grants _ _ fresh
    (ascii "WEBTRANSPORT_REMOTE_ADDR") req.remoteAddr
  obtain ⟨e2, port, holds2⟩ := appendKv_holds alloc grants _ _ holds1
    (ascii "WEBTRANSPORT_REMOTE_PORT") req.remotePort
  obtain ⟨e3, path, holds3⟩ := appendKv_holds alloc grants _ _ holds2
    (ascii "WEBTRANSPORT_PATH") req.path
  obtain ⟨e4, authority, holds4⟩ := appendKv_holds alloc grants _ _ holds3
    (ascii "WEBTRANSPORT_AUTHORITY") req.authority
  obtain ⟨e5, version, holds5⟩ := appendKv_holds alloc grants _ _ holds4
    (ascii "WEBTRANSPORT_VERSION") req.version
  have cgi : e5.Holds (cgiEntries req) := by simpa [cgiEntries] using holds5
  rcases passenv with _ | _ | ⟨c, rest⟩
  · refine ⟨e5, by simp [wtdEnvBuild, grants, addr, port, path, authority, version], ?_⟩
    simpa [envEntries, passNames, hostEntries, trimBlank] using cgi
  · refine ⟨e5, by simp [wtdEnvBuild, grants, addr, port, path, authority, version], ?_⟩
    simpa [envEntries, passNames, hostEntries, trimBlank] using cgi
  · obtain ⟨e, run, holds⟩ := passLoop_holds alloc grants getenv ((c :: rest).length + 1) []
      (c :: rest) [] (nulFree _ rfl) (by omega) { e5 with allocs := e5.allocs + 1 } _
      ⟨cgi.counted, cgi.room, cgi.stored, cgi.inBounds⟩
    refine ⟨e, ?_, holds⟩
    simpa [wtdEnvBuild, grants, addr, port, path, authority, version] using run

theorem wtdEnvBuild_exact (alloc : Allocator) (grants : ∀ n, alloc.grants n = true)
    (getenv : List UInt8 -> Option (List UInt8)) (req : WtdEnvRequest)
    (passenv : Option (List UInt8)) (nulFree : ∀ list ∈ passenv, 0 ∉ list) :
    (∃ e, wtdEnvBuild alloc getenv (some req) passenv = some e ∧
      e.Holds (envEntries getenv req passenv)) ∧
    (∀ e entries, e.Holds entries -> ∀ key value, ∃ next,
      appendKv alloc key value e = some next ∧
        next.Holds (entries ++ [key ++ equals :: value.getD []])) ∧
    ∀ other, (∀ name ∈ passNames (passenv.getD []), other name = getenv name) ->
      ∃ e, wtdEnvBuild alloc other (some req) passenv = some e ∧
        e.Holds (envEntries getenv req passenv) := by
  refine ⟨wtdEnvBuild_holds alloc grants getenv req passenv nulFree, ?_, ?_⟩
  · exact fun e entries holds => appendKv_holds alloc grants e entries holds
  · intro other agree
    have same : envEntries other req passenv = envEntries getenv req passenv := by
      simp only [envEntries, hostEntries]
      congr 1
      apply List.filterMap_congr
      intro name member
      rw [agree name member]
    rw [← same]
    exact wtdEnvBuild_holds alloc grants other req passenv nulFree

def plainAllocator : Allocator :=
  { grants := fun _ => true, junk := fun _ _ => some (ascii "junk") }

def homeOnly (name : List UInt8) : Option (List UInt8) :=
  if name = ascii "HOME" then some (ascii "/root") else none

def bareRequest : WtdEnvRequest :=
  { remoteAddr := none, remotePort := none, path := none, authority := none, version := none }

theorem wtdEnvBuild_exact_home :
    hostEntries homeOnly (passNames (ascii " HOME ,,ABSENT")) = [ascii "HOME=/root"] ∧
    ∃ e, wtdEnvBuild plainAllocator homeOnly (some bareRequest) (some (ascii " HOME ,,ABSENT")) =
        some e ∧
      e.Holds (envEntries homeOnly bareRequest (some (ascii " HOME ,,ABSENT"))) := by
  refine ⟨by decide +kernel, (wtdEnvBuild_exact plainAllocator (fun _ => rfl) homeOnly bareRequest
    (some (ascii " HOME ,,ABSENT")) ?_).1⟩
  intro list same
  obtain rfl := Option.some.inj same
  decide

end WebTransportD.Env
