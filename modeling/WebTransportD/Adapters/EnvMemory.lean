import WebTransportD.Shared.BoundedString
import WebTransportD.Shared.Heap
import WebTransportD.Adapters.Env

set_option autoImplicit false

namespace WebTransportD.EnvMemory

open BoundedString Heap
open CString (isBlank cString byteAt)
open Env (comma equals ascii fixedCount WtdEnvRequest EnvArray)

-- The size of a text block is the number of its bytes.
inductive Block where
  | text (bytes : List UInt8)
  | array (slots : Nat -> Option Nat) (cap : Nat)

abbrev Mem := Store Nat Block

-- `garbage` is what realloc leaves in the slots beyond those it copies, `noise` what malloc leaves
-- in the bytes.
structure EnvAllocator extends Heap.Allocator Nat Block where
  garbage : Nat -> Nat -> Option Nat
  noise : Nat -> Nat -> UInt8

def EnvAllocator.raw (alloc : EnvAllocator) (n size : Nat) : Block :=
  .text ((List.range size).map (alloc.noise n))

structure EnvVars where
  envp : Nat
  count : Nat
  cap : Nat

def writeEntry (key value : List UInt8) : Block -> Option Block
  | .text s => do
      let s ← memcpy s 0 key
      let s ← store s key.length equals
      let s ← memcpy s (key.length + 1) value
      let s ← store s (key.length + 1 + value.length) 0
      some (.text s)
  | .array _ _ => none

-- `kv_alloc`. Here and below `none` is an access outside the memory that is allocated.
def kvAlloc (alloc : EnvAllocator) (m : Mem) (key : List UInt8) (value : Option (List UInt8)) :
    Option (Mem × Option Nat) :=
  let value := value.getD []
  match malloc alloc.toAllocator m
      (alloc.raw m.requests (key.length + 1 + value.length + 1)) with
  | (m, none) => some (m, none)
  | (m, some s) => do
      let m ← modify m s (writeEntry key value)
      some (m, some s)

def resize (alloc : EnvAllocator) (n newCap : Nat) : Block -> Block
  | .array slots cap => .array (fun i => if i < cap then slots i else alloc.garbage n i) newCap
  | .text bytes => .text bytes

def loadSlot (m : Mem) (envp i : Nat) : Option (Option Nat) :=
  match m.blocks.lookup envp with
  | some (.array slots cap) => if i < cap then some (slots i) else none
  | _ => none

def setSlot (i : Nat) (p : Option Nat) : Block -> Option Block
  | .array slots cap => if i < cap then some (.array (Function.update slots i p) cap) else none
  | .text _ => none

def storeSlot (m : Mem) (envp i : Nat) (p : Option Nat) : Option Mem :=
  modify m envp (setSlot i p)

def storeEntry (m : Mem) (v : EnvVars) (entry : Nat) : Option (Mem × EnvVars × Bool) := do
  let m ← storeSlot m v.envp v.count (some entry)
  let m ← storeSlot m v.envp (v.count + 1) none
  some (m, { v with count := v.count + 1 }, true)

-- `env_append`; the Boolean says whether it returned 0.
def envAppend (alloc : EnvAllocator) (m : Mem) (v : EnvVars) (entry : Option Nat) :
    Option (Mem × EnvVars × Bool) :=
  match entry with
  | none => some (m, v, false)
  | some entry =>
      if v.count + 1 ≥ v.cap then do
        let newCap := if v.cap = 0 then 8 else v.cap * 2
        match ← realloc alloc.toAllocator m v.envp (resize alloc m.requests newCap) with
        | (m, none) =>
            let m ← free m entry
            some (m, v, false)
        | (m, some n) => storeEntry m { v with envp := n, cap := newCap } entry
      else storeEntry m v entry

def appendKv (alloc : EnvAllocator) (m : Mem) (v : EnvVars) (key : List UInt8)
    (value : Option (List UInt8)) : Option (Mem × EnvVars × Bool) := do
  let (m, entry) ← kvAlloc alloc m key value
  envAppend alloc m v entry

-- `left` is the room from `i` to the end of the array.
def freeEntries : Nat -> Mem -> Nat -> Nat -> Option Mem
  | 0, _, _, _ => none
  | left + 1, m, envp, i => do
      match ← loadSlot m envp i with
      | none => some m
      | some entry =>
          let m ← free m entry
          freeEntries left m envp (i + 1)

def wtdEnvFree (m : Mem) (envp : Option Nat) : Option Mem :=
  match envp with
  | none => some m
  | some envp =>
      match m.blocks.lookup envp with
      | some (.array _ cap) => do
          let m ← freeEntries cap m envp 0
          free m envp
      | _ => none

-- The five appends joined by `||`: the first that fails is the last.
def appendFixed (alloc : EnvAllocator) :
    List (List UInt8 × Option (List UInt8)) -> Mem -> EnvVars -> Option (Mem × EnvVars × Bool)
  | [], m, v => some (m, v, true)
  | (key, value) :: rest, m, v => do
      match ← appendKv alloc m v key value with
      | (m, v, false) => some (m, v, false)
      | (m, v, true) => appendFixed alloc rest m v

def fixedPairs (req : WtdEnvRequest) : List (List UInt8 × Option (List UInt8)) :=
  [(ascii "WEBTRANSPORT_REMOTE_ADDR", req.remoteAddr),
    (ascii "WEBTRANSPORT_REMOTE_PORT", req.remotePort),
    (ascii "WEBTRANSPORT_PATH", req.path),
    (ascii "WEBTRANSPORT_AUTHORITY", req.authority),
    (ascii "WEBTRANSPORT_VERSION", req.version)]

-- while (end > s && blank(end[-1])) end--, as a length from `s`.
def retreat (buf : List UInt8) (s : Nat) : Nat -> Option Nat
  | 0 => some 0
  | n + 1 => do
      let last ← load buf (s + n)
      if isBlank last then retreat buf s n else some (n + 1)

def trim (buf : List UInt8) (s : Nat) : Option (List UInt8 × Nat) := do
  let s ← scan isBlank buf s
  let stop ← scan (· != 0) buf s
  let kept ← retreat buf s (stop - s)
  let buf ← store buf (s + kept) 0
  some (buf, s)

-- `list` is the address of the copy of passenv that strtok_r and trim cut up.
def passToken (alloc : EnvAllocator) (getenv : List UInt8 -> Option (List UInt8)) (m : Mem)
    (list : Nat) (buf : List UInt8) (tok : Nat) (v : EnvVars) :
    Option (Mem × EnvVars × Bool) := do
  let (buf, name) ← trim buf tok
  let m ← modify m list fun _ => some (.text buf)
  let first ← load buf name
  if first = 0 then some (m, v, true)
  else
    let key ← readString buf name
    match getenv key with
    | none => some (m, v, true)
    | some value => appendKv alloc m v key (some value)

def passLoop (alloc : EnvAllocator) (getenv : List UInt8 -> Option (List UInt8)) (list : Nat) :
    Nat -> Mem -> Nat -> EnvVars -> Option (Mem × EnvVars × Bool)
  | 0, m, _, v => some (m, v, true)
  | fuel + 1, m, p, v =>
      match m.blocks.lookup list with
      | some (.text buf) => do
          match ← strtokR (· == comma) buf p with
          | none => some (m, v, true)
          | some (tok, buf, save) =>
              match ← passToken alloc getenv m list buf tok v with
              | (m, v, false) => some (m, v, false)
              | (m, v, true) => passLoop alloc getenv list fuel m save v
      | _ => none

def writeString (s : List UInt8) : Block -> Option Block
  | .text buf => (memcpy buf 0 (s ++ [0])).map .text
  | .array _ _ => none

-- wtd_env_free(envp); return NULL;
def giveUp (m : Mem) (v : EnvVars) : Option (Mem × Option Nat) := do
  let m ← wtdEnvFree m (some v.envp)
  some (m, none)

def appendHost (alloc : EnvAllocator) (getenv : List UInt8 -> Option (List UInt8)) (m : Mem)
    (v : EnvVars) (passenv : Option (List UInt8)) : Option (Mem × Option Nat) :=
  match passenv with
  | none | some [] => some (m, some v.envp)
  | some passenv =>
      match malloc alloc.toAllocator m (alloc.raw m.requests (passenv.length + 1)) with
      | (m, none) => giveUp m v
      | (m, some list) => do
          let m ← modify m list (writeString passenv)
          let (m, v, ok) ← passLoop alloc getenv list (passenv.length + 1) m 0 v
          let m ← free m list
          if ok then some (m, some v.envp) else giveUp m v

def wtdEnvBuild (alloc : EnvAllocator) (getenv : List UInt8 -> Option (List UInt8)) (m : Mem)
    (req : Option WtdEnvRequest) (passenv : Option (List UInt8)) : Option (Mem × Option Nat) :=
  match req with
  | none => some (m, none)
  | some req =>
      match malloc alloc.toAllocator m (.array (fun _ => none) (fixedCount + 1)) with
      | (m, none) => some (m, none)
      | (m, some envp) => do
          match ← appendFixed alloc (fixedPairs req) m
              { envp, count := 0, cap := fixedCount + 1 } with
          | (m, v, false) => giveUp m v
          | (m, v, true) => appendHost alloc getenv m v passenv

inductive Owner where
  | array
  | entry (i : Nat)
  | list
  deriving DecidableEq

def owners (freed envp cap : Nat) (slots : Nat -> Option Nat) (cells : List (Nat × List UInt8))
    (list : Option (Nat × List UInt8)) : Owner -> Option (Nat × Block)
  | .array => some (envp, .array slots cap)
  | .entry i => if i < freed then none else cells[i]?.map fun c => (c.1, .text (c.2 ++ [0]))
  | .list => list.map fun l => (l.1, .text l.2)

section Owners

variable (freed envp cap : Nat) (slots : Nat -> Option Nat) (cells : List (Nat × List UInt8))
  (list : Option (Nat × List UInt8))

theorem owners_array (n size : Nat) (next : Nat -> Option Nat) :
    Function.update (owners freed envp cap slots cells list) .array
        (some (n, .array next size)) =
      owners freed n size next cells list := by
  funext o
  cases o <;> simp [owners]

theorem owners_list (text : Option (Nat × List UInt8)) :
    Function.update (owners freed envp cap slots cells list) .list
        (text.map fun l => (l.1, .text l.2)) =
      owners freed envp cap slots cells text := by
  funext o
  cases o <;> simp [owners]

theorem owners_entry (p : Nat) (entry : List UInt8) :
    Function.update (owners 0 envp cap slots cells list) (.entry cells.length)
        (some (p, .text (entry ++ [0]))) =
      owners 0 envp cap slots (cells ++ [(p, entry)]) list := by
  funext o
  cases o with
  | array => simp [owners]
  | list => simp [owners]
  | entry i =>
    rcases Nat.lt_trichotomy i cells.length with earlier | rfl | later
    · simp [owners, earlier.ne, List.getElem?_append_left earlier]
    · simp [owners]
    · have beyond : (cells ++ [(p, entry)])[i]? = none := by
        simp only [List.getElem?_eq_none_iff, List.length_append, List.length_singleton]
        omega
      simp [owners, later.ne', beyond, List.getElem?_eq_none later.le]

theorem owners_entry_freed :
    Function.update (owners freed envp cap slots cells list) (.entry freed) none =
      owners (freed + 1) envp cap slots cells list := by
  funext o
  cases o with
  | array => simp [owners]
  | list => simp [owners]
  | entry i =>
    rcases Nat.lt_trichotomy i freed with earlier | rfl | later
    · simp [owners, earlier.ne, earlier, Nat.lt_succ_of_lt earlier]
    · simp [owners]
    · simp [owners, later.ne', later.not_gt, show ¬ i < freed + 1 by omega]

theorem owners_entry_dropped (p : Nat) (entry : List UInt8) :
    Function.update (owners 0 envp cap slots (cells ++ [(p, entry)]) list) (.entry cells.length)
        none =
      owners 0 envp cap slots cells list := by
  rw [← owners_entry, Function.update_idem, Function.update_eq_self_iff]
  simp [owners]

end Owners

structure Mirrors (v : EnvVars) (e : EnvArray) (slots : Nat -> Option Nat)
    (cells : List (Nat × List UInt8)) : Prop where
  size : v.count = cells.length
  count : e.count = v.count
  cap : e.cap = v.cap
  room : v.count < v.cap
  stored : ∀ i ≤ v.count, slots i = (cells.map Prod.fst)[i]?
  entries : ∀ i ≤ v.count, e.slots i = (cells.map Prod.snd)[i]?

theorem update_ended {A : Type} (f : Nat -> Option A) (xs : List A) (n : Nat)
    (size : n = xs.length) (held : ∀ i ≤ n, f i = xs[i]?) (x : A) (i : Nat) (below : i ≤ n + 1) :
    Function.update (Function.update f n (some x)) (n + 1) none i = (xs ++ [x])[i]? := by
  subst size
  rcases Nat.lt_trichotomy i xs.length with earlier | rfl | last
  · rw [Function.update_of_ne (by omega), Function.update_of_ne earlier.ne, held i earlier.le,
      List.getElem?_append_left earlier]
  · simp
  · obtain rfl : i = xs.length + 1 := by omega
    simp

variable {base : Blocks Nat Block} {m : Mem} {v : EnvVars} {e : EnvArray}
  {slots : Nat -> Option Nat} {cells : List (Nat × List UInt8)}
  {text : Option (Nat × List UInt8)}

theorem writeEntry_raw (alloc : EnvAllocator) (n : Nat) (key value : List UInt8) :
    writeEntry key value (alloc.raw n (key.length + 1 + value.length + 1)) =
      some (.text (key ++ equals :: value ++ [0])) := by
  generalize sized : (List.range (key.length + 1 + value.length + 1)).map (alloc.noise n) = old
  have size : old.length = key.length + 1 + value.length + 1 := by simp [← sized]
  have first := memcpy_append [] key old (by omega)
  have sign := store_append key (old.drop key.length) equals (by
    rw [Ne, List.drop_eq_nil_iff]
    omega)
  have second := memcpy_append (key ++ [equals]) value (old.drop key.length).tail (by
    simp only [List.length_tail, List.length_drop]
    omega)
  have last := store_append (key ++ equals :: value)
    ((old.drop key.length).tail.drop value.length) 0 (by
      rw [Ne, List.drop_eq_nil_iff, List.length_tail, List.length_drop]
      omega)
  have full : ((old.drop key.length).tail.drop value.length).tail = [] := by
    rw [← List.length_eq_zero_iff]
    simp only [List.length_tail, List.length_drop]
    omega
  have place : (key ++ equals :: value).length = key.length + 1 + value.length := by
    simp only [List.length_append, List.length_cons]
    omega
  rw [full, place, List.append_assoc] at last
  simp only [List.nil_append, List.length_nil] at first
  simp only [List.append_assoc, List.length_append, List.length_singleton,
    List.singleton_append] at second
  simp only [writeEntry, EnvAllocator.raw, sized, Option.bind_eq_bind, first, Option.bind_some,
    sign, second, last, List.append_assoc]

theorem writeString_raw (alloc : EnvAllocator) (n : Nat) (s : List UInt8) :
    writeString s (alloc.raw n (s.length + 1)) = some (.text (s ++ [0])) := by
  generalize sized : (List.range (s.length + 1)).map (alloc.noise n) = old
  have size : old.length = (s ++ [0]).length := by simp [← sized]
  have copied := memcpy_append [] (s ++ [0]) old size.ge
  rw [← size, List.drop_length] at copied
  simpa [writeString, EnvAllocator.raw, sized] using copied

theorem retreat_eq (buf : List UInt8) (s n : Nat) (inside : s + n ≤ buf.length) :
    retreat buf s n = some (Env.retreat buf s n) ∧ Env.retreat buf s n ≤ n := by
  induction n with
  | zero => exact ⟨rfl, Nat.le_refl 0⟩
  | succ n ih =>
    obtain ⟨same, within⟩ := ih (by omega)
    have read : load buf (s + n) = some (byteAt buf (s + n)) := by
      simp [load, byteAt, show s + n < buf.length by omega]
    simp only [retreat, Env.retreat, read, Option.bind_eq_bind, Option.bind_some]
    split
    · exact ⟨same, by omega⟩
    · exact ⟨rfl, Nat.le_refl _⟩

theorem trim_eq {buf : List UInt8} {tok : Nat} (ended : Terminated buf tok) :
    trim buf tok = some (Env.trim buf tok) ∧
      Terminated (Env.trim buf tok).1 (Env.trim buf tok).2 ∧
      ∀ p, Terminated buf p -> Terminated (Env.trim buf tok).1 p := by
  have start := terminated_advance isBlank (by decide) ended
  have stop := (terminated_advance (· != 0) (by decide) start).inside
  have length : CString.advance (· != 0) buf (CString.advance isBlank buf tok) -
      CString.advance isBlank buf tok = (cString buf (CString.advance isBlank buf tok)).length :=
    Nat.add_sub_cancel_left ..
  have whole : CString.advance isBlank buf tok +
      (cString buf (CString.advance isBlank buf tok)).length < buf.length := stop
  obtain ⟨back, within⟩ := retreat_eq buf (CString.advance isBlank buf tok)
    (cString buf (CString.advance isBlank buf tok)).length whole.le
  refine ⟨?_, start.set _, fun p later => later.set _⟩
  rw [trim, scan_eq isBlank (by decide) ended]
  simp only [Option.bind_eq_bind, Option.bind_some, scan_eq (· != 0) (by decide) start, length,
    back]
  rw [store, if_pos (by omega)]
  rfl

theorem storeSlot_owned (envp cap i : Nat) (p : Option Nat) (inside : i < cap)
    (owns : Owns base m (owners 0 envp cap slots cells text)) :
    ∃ after, storeSlot m envp i p = some after ∧ after.requests = m.requests ∧
      Owns base after (owners 0 envp cap (Function.update slots i p) cells text) := by
  obtain ⟨after, stored, same, kept⟩ := owns.modify .array envp (.array slots cap)
    (.array (Function.update slots i p) cap) rfl (setSlot i p) (if_pos inside)
  rw [owners_array] at kept
  exact ⟨after, stored, same, kept⟩

-- The entry is already owned; the two stores put it where the array's NULL was.
theorem storeEntry_mirrors (p : Nat) (entry : List UInt8) (mirrors : Mirrors v e slots cells)
    (room : v.count + 1 < v.cap)
    (owns : Owns base m (owners 0 v.envp v.cap slots (cells ++ [(p, entry)]) text)) :
    ∃ after next, storeEntry m v p = some (after, { v with count := v.count + 1 }, true) ∧
      after.requests = m.requests ∧
      Owns base after (owners 0 v.envp v.cap next (cells ++ [(p, entry)]) text) ∧
      Mirrors { v with count := v.count + 1 } (e.store entry) next (cells ++ [(p, entry)]) := by
  obtain ⟨first, stored, same, held⟩ :=
    storeSlot_owned v.envp v.cap v.count (some p) mirrors.room owns
  obtain ⟨after, ended, again, kept⟩ :=
    storeSlot_owned v.envp v.cap (v.count + 1) none room held
  refine ⟨after, _, by simp [storeEntry, stored, ended], again.trans same, kept, ?_⟩
  have size := mirrors.size
  constructor
  · simp [size]
  · simp [EnvArray.store, mirrors.count]
  · exact mirrors.cap
  · exact room
  · intro i below
    simpa using update_ended slots _ v.count (by simpa using size) mirrors.stored p i below
  · intro i below
    have counted := mirrors.count
    simpa [EnvArray.store, counted] using
      update_ended e.slots _ v.count (by simpa using size) mirrors.entries entry i below

def Holding (base : Blocks Nat Block) (text : Option (Nat × List UInt8)) (m : Mem) (v : EnvVars)
    (e : EnvArray) : Prop :=
  ∃ slots cells, Mirrors v e slots cells ∧ e.allocs = m.requests ∧
    Owns base m (owners 0 v.envp v.cap slots cells text)

def Follows (base : Blocks Nat Block) (text : Option (Nat × List UInt8)) :
    Option (Mem × EnvVars × Bool) -> Option EnvArray -> Prop
  | some (m, v, true), some e => Holding base text m v e
  | some (m, v, false), none => ∃ e, Holding base text m v e
  | _, _ => False

theorem Follows.cases {base : Blocks Nat Block} {text : Option (Nat × List UInt8)}
    {concrete : Option (Mem × EnvVars × Bool)} {abstract : Option EnvArray}
    (follows : Follows base text concrete abstract) :
    (∃ m v e, concrete = some (m, v, true) ∧ abstract = some e ∧ Holding base text m v e) ∨
    ∃ m v e, concrete = some (m, v, false) ∧ abstract = none ∧ Holding base text m v e := by
  rcases concrete with _ | ⟨m, v, ok⟩
  · exact follows.elim
  · cases ok <;> cases abstract
    · obtain ⟨e, holding⟩ := follows
      exact .inr ⟨m, v, e, rfl, rfl, holding⟩
    · exact follows.elim
    · exact follows.elim
    · exact .inl ⟨m, v, _, rfl, rfl, follows⟩

def EnvAllocator.plain (alloc : EnvAllocator) (junk : Nat -> Nat -> Option (List UInt8)) :
    Env.Allocator :=
  { grants := alloc.grants, junk }

variable (alloc : EnvAllocator) (junk : Nat -> Nat -> Option (List UInt8))

theorem Mirrors.counted (mirrors : Mirrors v e slots cells) (allocs : Nat) :
    Mirrors v { e with allocs } slots cells :=
  ⟨mirrors.size, mirrors.count, mirrors.cap, mirrors.room, mirrors.stored, mirrors.entries⟩

theorem grow_mirrors (mirrors : Mirrors v e slots cells) (full : v.count + 1 ≥ v.cap)
    (n envp : Nat) :
    ∃ next, resize alloc n (if v.cap = 0 then 8 else v.cap * 2) (.array slots v.cap) =
        .array next (v.cap * 2) ∧
      v.count + 1 < v.cap * 2 ∧
      Mirrors { v with envp, cap := v.cap * 2 } (e.reallocated (alloc.plain junk)) next cells := by
  have room := mirrors.room
  have cap := mirrors.cap
  have positive : ¬ v.cap = 0 := by omega
  refine ⟨_, by rw [if_neg positive]; rfl, by omega, ?_⟩
  constructor
  · exact mirrors.size
  · exact mirrors.count
  · simp [EnvArray.reallocated, cap, positive]
  · show v.count < v.cap * 2
    omega
  · intro i below
    have inside : i < v.cap := Nat.lt_of_le_of_lt below room
    simpa [inside] using mirrors.stored i below
  · intro i below
    have inside : i < v.cap := Nat.lt_of_le_of_lt below room
    simpa [EnvArray.reallocated, cap, inside] using mirrors.entries i below

theorem envAppend_follows (p : Nat) (entry : List UInt8) (mirrors : Mirrors v e slots cells)
    (requests : e.allocs = m.requests)
    (owns : Owns base m (owners 0 v.envp v.cap slots (cells ++ [(p, entry)]) text)) :
    Follows base text (envAppend alloc m v (some p))
      (Env.envAppend (alloc.plain junk) e (some entry)) := by
  have counts := mirrors.count
  have caps := mirrors.cap
  by_cases full : v.count + 1 ≥ v.cap
  · cases granted : alloc.grants m.requests with
    | false =>
      have kept := owns.realloc_refused alloc.toAllocator .array v.envp (.array slots v.cap) rfl
        (resize alloc m.requests (if v.cap = 0 then 8 else v.cap * 2)) granted
      obtain ⟨after, freed, same, left⟩ :=
        Owns.free (s := { m with requests := m.requests + 1 }) owns (.entry cells.length) p
          (.text (entry ++ [0])) (by simp [owners])
      rw [owners_entry_dropped] at left
      have concrete : envAppend alloc m v (some p) = some (after, v, false) := by
        simp only [envAppend, if_pos full, kept, Option.bind_eq_bind, Option.bind_some, freed]
      have abstract : Env.envAppend (alloc.plain junk) e (some entry) = none := by
        simp [Env.envAppend, EnvAllocator.plain, counts, caps, full, requests, granted]
      rw [concrete, abstract]
      exact ⟨_, slots, cells, mirrors.counted after.requests, rfl, left⟩
    | true =>
      obtain ⟨grown, n, moved, next, held⟩ := owns.realloc alloc.toAllocator .array v.envp
        (.array slots v.cap) rfl (resize alloc m.requests (if v.cap = 0 then 8 else v.cap * 2))
        granted
      obtain ⟨wider, resized, room, grew⟩ :=
        grow_mirrors alloc junk mirrors full m.requests n
      rw [resized, owners_array] at held
      obtain ⟨after, final, stored, same, kept, done⟩ :=
        storeEntry_mirrors p entry grew room held
      have concrete : envAppend alloc m v (some p) =
          some (after, { envp := n, count := v.count + 1, cap := v.cap * 2 }, true) := by
        simp only [envAppend, if_pos full, moved, Option.bind_eq_bind, Option.bind_some]
        rwa [if_neg (by omega)]
      have abstract : Env.envAppend (alloc.plain junk) e (some entry) =
          some ((e.reallocated (alloc.plain junk)).store entry) := by
        simp [Env.envAppend, EnvAllocator.plain, counts, caps, full, requests, granted]
      rw [concrete, abstract]
      refine ⟨final, _, done, ?_, kept⟩
      rw [same, next, ← requests]
      rfl
  · obtain ⟨after, final, stored, same, kept, done⟩ :=
      storeEntry_mirrors p entry mirrors (by omega) owns
    have concrete : envAppend alloc m v (some p) =
        some (after, { v with count := v.count + 1 }, true) := by
      simpa only [envAppend, if_neg full] using stored
    have abstract : Env.envAppend (alloc.plain junk) e (some entry) = some (e.store entry) := by
      simp [Env.envAppend, counts, caps, full]
    rw [concrete, abstract]
    exact ⟨final, _, done, requests.trans same.symm, kept⟩

theorem kvAlloc_refused (key : List UInt8) (value : Option (List UInt8))
    (refused : alloc.grants m.requests = false) :
    kvAlloc alloc m key value = some ({ m with requests := m.requests + 1 }, none) := by
  simp only [kvAlloc, malloc_refused _ _ _ refused]

theorem kvAlloc_owned (key : List UInt8) (value : Option (List UInt8))
    (granted : alloc.grants m.requests = true)
    (owns : Owns base m (owners 0 v.envp v.cap slots cells text)) :
    ∃ after p, kvAlloc alloc m key value = some (after, some p) ∧
      after.requests = m.requests + 1 ∧
      Owns base after (owners 0 v.envp v.cap slots
        (cells ++ [(p, key ++ equals :: value.getD [])]) text) := by
  obtain ⟨allocated, p, taken, next, held⟩ := owns.malloc alloc.toAllocator
    (.entry cells.length) (alloc.raw m.requests (key.length + 1 + (value.getD []).length + 1))
    (by simp [owners]) granted
  obtain ⟨after, written, same, kept⟩ := held.modify (.entry cells.length) p _ _
    (Function.update_self ..) (writeEntry key (value.getD [])) (writeEntry_raw alloc ..)
  rw [Function.update_idem, owners_entry] at kept
  refine ⟨after, p, ?_, same.trans next, kept⟩
  simp only [kvAlloc, taken, Option.bind_eq_bind, written, Option.bind_some]

theorem appendKv_follows (key : List UInt8) (value : Option (List UInt8))
    (holding : Holding base text m v e) :
    Follows base text (appendKv alloc m v key value)
      (Env.appendKv (alloc.plain junk) key value e) := by
  obtain ⟨slots, cells, mirrors, requests, owns⟩ := holding
  cases granted : alloc.grants m.requests with
  | false =>
    have concrete : appendKv alloc m v key value =
        some ({ m with requests := m.requests + 1 }, v, false) := by
      simp only [appendKv, kvAlloc_refused alloc key value granted, Option.bind_eq_bind,
        Option.bind_some, envAppend]
    have abstract : Env.appendKv (alloc.plain junk) key value e = none := by
      simp [Env.appendKv, Env.kvAlloc, Env.envAppend, EnvAllocator.plain, requests, granted]
    rw [concrete, abstract]
    exact ⟨_, slots, cells, mirrors.counted (m.requests + 1), rfl, owns⟩
  | true =>
    obtain ⟨after, p, allocated, next, held⟩ := kvAlloc_owned alloc key value granted owns
    have concrete : appendKv alloc m v key value = envAppend alloc after v (some p) := by
      simp only [appendKv, allocated, Option.bind_eq_bind, Option.bind_some]
    have abstract : Env.appendKv (alloc.plain junk) key value e =
        Env.envAppend (alloc.plain junk) { e with allocs := e.allocs + 1 }
          (some (key ++ equals :: value.getD [])) := by
      simp [Env.appendKv, Env.kvAlloc, EnvAllocator.plain, requests, granted]
    rw [concrete, abstract]
    exact envAppend_follows alloc junk p _ (mirrors.counted (e.allocs + 1))
      (by simp [next, requests]) held

def appendPairs (plain : Env.Allocator) (pairs : List (List UInt8 × Option (List UInt8)))
    (e : EnvArray) : Option EnvArray :=
  pairs.foldlM (fun e pair => Env.appendKv plain pair.1 pair.2 e) e

theorem appendFixed_follows (pairs : List (List UInt8 × Option (List UInt8)))
    (holding : Holding base text m v e) :
    Follows base text (appendFixed alloc pairs m v)
      (appendPairs (alloc.plain junk) pairs e) := by
  induction pairs generalizing m v e with
  | nil => exact holding
  | cons pair rest ih =>
    simp only [appendFixed, appendPairs, List.foldlM_cons]
    rcases (appendKv_follows alloc junk pair.1 pair.2 holding).cases with
      ⟨_, _, _, concrete, abstract, next⟩ | ⟨_, _, failed, concrete, abstract, next⟩
    · rw [concrete, abstract]
      exact ih next
    · rw [concrete, abstract]
      exact ⟨failed, next⟩

theorem passToken_follows (getenv : List UInt8 -> Option (List UInt8)) (a tok : Nat)
    (old buf : List UInt8) (ended : Terminated buf tok)
    (holding : Holding base (some (a, old)) m v e) :
    Follows base (some (a, (Env.trim buf tok).1)) (passToken alloc getenv m a buf tok v)
      (Env.passToken (alloc.plain junk) getenv buf tok e).2 := by
  obtain ⟨slots, cells, mirrors, requests, owns⟩ := holding
  obtain ⟨trimmed, named, -⟩ := trim_eq ended
  obtain ⟨after, cut, same, kept⟩ := owns.modify .list a (.text old)
    (.text (Env.trim buf tok).1) rfl (fun _ => some (.text (Env.trim buf tok).1)) rfl
  have held : Holding base (some (a, (Env.trim buf tok).1)) after v e := by
    refine ⟨slots, cells, mirrors, requests.trans same.symm, ?_⟩
    exact owners_list 0 v.envp v.cap slots cells _ (some (a, (Env.trim buf tok).1)) ▸ kept
  simp only [passToken, Env.passToken, trimmed, cut, named.load, readString_eq named,
    Option.bind_eq_bind, Option.bind_some]
  by_cases empty : byteAt (Env.trim buf tok).1 (Env.trim buf tok).2 = 0
  · simp only [if_pos empty]
    exact held
  · simp only [if_neg empty]
    cases getenv (cString (Env.trim buf tok).1 (Env.trim buf tok).2) with
    | none => exact held
    | some value => exact appendKv_follows alloc junk _ _ held

theorem passToken_buf (plain : Env.Allocator) (getenv : List UInt8 -> Option (List UInt8))
    (buf : List UInt8) (tok : Nat) (e : EnvArray) :
    (Env.passToken plain getenv buf tok e).1 = (Env.trim buf tok).1 := by
  simp only [Env.passToken]
  split
  · rfl
  · split <;> rfl

theorem passLoop_follows (getenv : List UInt8 -> Option (List UInt8)) (a fuel p : Nat)
    (buf : List UInt8) (ended : Terminated buf p) (holding : Holding base (some (a, buf)) m v e) :
    ∃ last, Follows base (some (a, last)) (passLoop alloc getenv a fuel m p v)
      (Env.passLoop (alloc.plain junk) getenv fuel buf p e) := by
  induction fuel generalizing m v e buf p with
  | zero => exact ⟨buf, holding⟩
  | succ fuel ih =>
    have found : m.blocks.lookup a = some (.text buf) := by
      obtain ⟨slots, cells, mirrors, requests, owns⟩ := holding
      exact owns.lookup .list a (.text buf) rfl
    obtain ⟨same, later⟩ := strtokR_eq (· == comma) (by decide) ended
    simp only [passLoop, Env.passLoop, found, same, Option.bind_eq_bind, Option.bind_some]
    cases cut : CString.strtokR (· == comma) buf p with
    | none => exact ⟨buf, holding⟩
    | some next =>
      obtain ⟨tok, cut_buf, save⟩ := next
      obtain ⟨from_tok, from_save⟩ := later tok cut_buf save cut
      have step := passToken_follows alloc junk getenv a tok buf cut_buf from_tok holding
      have kept := (trim_eq from_tok).2.2 save from_save
      rw [← passToken_buf (alloc.plain junk) getenv cut_buf tok e] at step kept
      cases taken : Env.passToken (alloc.plain junk) getenv cut_buf tok e with
      | mk rest result =>
      rw [taken] at step kept
      rcases step.cases with
        ⟨_, _, _, concrete, abstract, next⟩ | ⟨_, _, failed, concrete, abstract, next⟩
      · subst abstract
        simp only [concrete, taken, Option.bind_some]
        exact ih save rest kept next
      · subst abstract
        simp only [concrete, taken, Option.bind_some]
        exact ⟨rest, failed, next⟩

theorem freeEntries_owned (left envp cap i : Nat) (ended : cells.length < cap)
    (stored : ∀ i ≤ cells.length, slots i = (cells.map Prod.fst)[i]?) (whole : i + left = cap)
    (reached : i ≤ cells.length) (owns : Owns base m (owners i envp cap slots cells text)) :
    ∃ after, freeEntries left m envp i = some after ∧
      Owns base after (owners cells.length envp cap slots cells text) := by
  induction left generalizing m i with
  | zero => omega
  | succ left ih =>
    have loaded : loadSlot m envp i = some (slots i) := by
      have array := owns.lookup .array envp (.array slots cap) rfl
      have inside : i < cap := by omega
      simp [loadSlot, array, inside]
    by_cases last : i = cells.length
    · subst last
      have nul : slots cells.length = none := by simp [stored]
      exact ⟨m, by simp [freeEntries, loaded, nul], owns⟩
    · have inside : i < cells.length := by omega
      have entry : slots i = some cells[i].1 := by simp [stored i reached, inside]
      obtain ⟨after, freed, -, kept⟩ := owns.free (.entry i) cells[i].1
        (.text (cells[i].2 ++ [0])) (by simp [owners, inside])
      rw [owners_entry_freed] at kept
      obtain ⟨final, run, rest⟩ := ih (i + 1) (by omega) (by omega) kept
      exact ⟨final, by simp [freeEntries, loaded, entry, freed, run], rest⟩

theorem wtdEnvFree_settles (holding : Holding base none m v e) :
    (wtdEnvFree m (some v.envp)).map Store.blocks = some base := by
  obtain ⟨slots, cells, mirrors, requests, owns⟩ := holding
  have size := mirrors.size
  have array := owns.lookup .array v.envp (.array slots v.cap) rfl
  obtain ⟨emptied, run, kept⟩ := freeEntries_owned v.cap v.envp v.cap 0
    (by have room := mirrors.room; omega) (size ▸ mirrors.stored) (by omega) (by omega) owns
  obtain ⟨after, freed, -, left⟩ := kept.free .array v.envp (.array slots v.cap) rfl
  have settled : after.blocks = base := by
    refine left.settled fun o => ?_
    cases o <;> simp [owners]
  simp [wtdEnvFree, array, run, freed, settled]

def entryAt (m : Mem) (envp i : Nat) : Option (Option (List UInt8)) := do
  match ← loadSlot m envp i with
  | none => some none
  | some p =>
      match m.blocks.lookup p with
      | some (.text bytes) => some (some bytes)
      | _ => none

theorem entryAt_mirrors (holding : Holding base text m v e) (i : Nat) (below : i ≤ e.count) :
    entryAt m v.envp i = some ((e.slots i).map (· ++ [0])) := by
  obtain ⟨slots, cells, mirrors, requests, owns⟩ := holding
  rw [mirrors.count] at below
  have array := owns.lookup .array v.envp (.array slots v.cap) rfl
  have loaded : loadSlot m v.envp i = some (slots i) := by
    simp [loadSlot, array, Nat.lt_of_le_of_lt below mirrors.room]
  rw [mirrors.entries i below]
  cases cell : cells[i]? with
  | none => simp [entryAt, loaded, mirrors.stored i below, cell]
  | some c =>
    have entry := owns.lookup (.entry i) c.1 (.text (c.2 ++ [0])) (by simp [owners, cell])
    simp [entryAt, loaded, mirrors.stored i below, cell, entry]

def Delivers (base : Blocks Nat Block) (m : Mem) : Option Nat -> Option EnvArray -> Prop
  | none, none => m.blocks = base
  | some envp, some e =>
      (∀ i ≤ e.count, entryAt m envp i = some ((e.slots i).map (· ++ [0]))) ∧
      (wtdEnvFree m (some envp)).map Store.blocks = some base
  | _, _ => False

theorem giveUp_delivers (holding : Holding base none m v e) :
    ∃ after, giveUp m v = some (after, none) ∧ Delivers base after none none := by
  obtain ⟨after, freed, settled⟩ := Option.map_eq_some_iff.mp (wtdEnvFree_settles holding)
  exact ⟨after, by simp [giveUp, freed], settled⟩

theorem holding_delivers (holding : Holding base none m v e) :
    Delivers base m (some v.envp) (some e) :=
  ⟨entryAt_mirrors holding, wtdEnvFree_settles holding⟩

theorem freeList_holding (a : Nat) (buf : List UInt8)
    (holding : Holding base (some (a, buf)) m v e) :
    ∃ after, free m a = some after ∧ Holding base none after v e := by
  obtain ⟨slots, cells, mirrors, requests, owns⟩ := holding
  obtain ⟨after, freed, same, kept⟩ := owns.free .list a (.text buf) rfl
  refine ⟨after, freed, slots, cells, mirrors, requests.trans same.symm, ?_⟩
  exact owners_list 0 v.envp v.cap slots cells _ none ▸ kept

def hostPart (alloc : Env.Allocator) (getenv : List UInt8 -> Option (List UInt8))
    (passenv : Option (List UInt8)) (e : EnvArray) : Option EnvArray :=
  match passenv with
  | none | some [] => some e
  | some list =>
      if alloc.grants e.allocs then
        Env.passLoop alloc getenv (list.length + 1) (list ++ [0]) 0
          { e with allocs := e.allocs + 1 }
      else none

theorem appendHost_delivers (getenv : List UInt8 -> Option (List UInt8))
    (passenv : Option (List UInt8)) (holding : Holding base none m v e) :
    ∃ after result, appendHost alloc getenv m v passenv = some (after, result) ∧
      Delivers base after result (hostPart (alloc.plain junk) getenv passenv e) := by
  rcases passenv with _ | _ | ⟨c, rest⟩
  · exact ⟨m, _, rfl, holding_delivers holding⟩
  · exact ⟨m, _, rfl, holding_delivers holding⟩
  · obtain ⟨slots, cells, mirrors, requests, owns⟩ := holding
    cases granted : alloc.grants m.requests with
    | false =>
      obtain ⟨after, given, settled⟩ := giveUp_delivers
        (m := { m with requests := m.requests + 1 })
        ⟨slots, cells, mirrors.counted (m.requests + 1), rfl, owns⟩
      refine ⟨after, none, ?_, ?_⟩
      · simpa only [appendHost, malloc_refused _ _ _ granted] using given
      · simpa [hostPart, EnvAllocator.plain, requests, granted] using settled
    | true =>
      obtain ⟨raw, a, allocated, next, held⟩ := owns.malloc alloc.toAllocator .list
        (alloc.raw m.requests ((c :: rest).length + 1)) rfl granted
      obtain ⟨copied, written, same, kept⟩ := held.modify .list a _ _ (Function.update_self ..)
        (writeString (c :: rest)) (writeString_raw alloc m.requests (c :: rest))
      rw [Function.update_idem] at kept
      have copy : Holding base (some (a, c :: rest ++ [0])) copied v
          { e with allocs := e.allocs + 1 } := by
        refine ⟨slots, cells, mirrors.counted _, by simp [same, next, requests], ?_⟩
        exact owners_list 0 v.envp v.cap slots cells none (some (a, c :: rest ++ [0])) ▸ kept
      have abstract : hostPart (alloc.plain junk) getenv (some (c :: rest)) e =
          Env.passLoop (alloc.plain junk) getenv ((c :: rest).length + 1) (c :: rest ++ [0]) 0
            { e with allocs := e.allocs + 1 } := by
        simp [hostPart, EnvAllocator.plain, requests, granted]
      obtain ⟨last, run⟩ :=
        passLoop_follows alloc junk getenv a ((c :: rest).length + 1) 0 _ (by simp [Terminated])
          copy
      simp only [appendHost, allocated, abstract, Option.bind_eq_bind, written, Option.bind_some]
      rcases run.cases with ⟨_, _, _, loop, result, run⟩ | ⟨_, _, _, loop, result, run⟩
      · obtain ⟨after, freed, held⟩ := freeList_holding a last run
        rw [loop, result]
        exact ⟨after, _, by simp [freed], holding_delivers held⟩
      · obtain ⟨after, freed, held⟩ := freeList_holding a last run
        obtain ⟨final, given, settled⟩ := giveUp_delivers held
        rw [loop, result]
        exact ⟨final, none, by simp [freed, given], settled⟩

def emptyArray : EnvArray :=
  { slots := fun _ => none, count := 0, cap := fixedCount + 1, allocs := 1, inBounds := true }

theorem wtdEnvBuild_parts (plain : Env.Allocator) (getenv : List UInt8 -> Option (List UInt8))
    (req : WtdEnvRequest) (passenv : Option (List UInt8)) (granted : plain.grants 0 = true) :
    Env.wtdEnvBuild plain getenv (some req) passenv =
      (appendPairs plain (fixedPairs req) emptyArray).bind (hostPart plain getenv passenv) := by
  simp only [Env.wtdEnvBuild, granted, fixedPairs, appendPairs, List.foldlM_cons, List.foldlM_nil,
    Option.bind_eq_bind, Option.bind_assoc, Option.bind_some, Option.pure_def]
  rfl

theorem env_build_keeps_memory (getenv : List UInt8 -> Option (List UInt8))
    (base : Blocks Nat Block) (req : Option WtdEnvRequest) (passenv : Option (List UInt8)) :
    ∃ after result,
      wtdEnvBuild alloc getenv { blocks := base, requests := 0 } req passenv =
        some (after, result) ∧
      Delivers base after result (Env.wtdEnvBuild (alloc.plain junk) getenv req passenv) := by
  cases req with
  | none => exact ⟨_, none, rfl, rfl⟩
  | some req =>
    cases granted : alloc.grants 0 with
    | false =>
      refine ⟨{ blocks := base, requests := 1 }, none, ?_, ?_⟩
      · simp only [wtdEnvBuild, malloc_refused alloc.toAllocator
          { blocks := base, requests := 0 } _ granted]
      · simp [Env.wtdEnvBuild, EnvAllocator.plain, granted, Delivers]
    | true =>
      obtain ⟨m, envp, allocated, next, owns⟩ := (owns_nothing (O := Owner)
        { blocks := base, requests := 0 }).malloc alloc.toAllocator .array
          (.array (fun _ => none) (fixedCount + 1)) rfl granted
      have holding : Holding base none m { envp, count := 0, cap := fixedCount + 1 }
          emptyArray := by
        refine ⟨fun _ => none, [], ?_, next.symm, ?_⟩
        · constructor <;> simp [emptyArray, fixedCount]
        · convert owns using 1
          funext o
          cases o <;> simp [owners]
      have run := appendFixed_follows alloc junk (fixedPairs req) holding
      rw [wtdEnvBuild_parts (alloc.plain junk) getenv req passenv granted]
      simp only [wtdEnvBuild, allocated]
      rcases run.cases with ⟨_, _, _, fixed, result, run⟩ | ⟨_, _, _, fixed, result, run⟩
      · rw [fixed, result]
        exact appendHost_delivers alloc junk getenv passenv run
      · obtain ⟨after, given, settled⟩ := giveUp_delivers run
        rw [fixed, result]
        exact ⟨after, none, given, settled⟩

def refusing (n : Nat) : EnvAllocator where
  grants k := k != n
  place blocks _ := above blocks
  fresh blocks _ := lookup_above blocks
  garbage _ i := some i
  noise _ i := UInt8.ofNat i

example : (wtdEnvBuild (refusing 4) Env.homeOnly { blocks := ∅, requests := 0 }
    (some Env.bareRequest) none).map Prod.snd = some none := by
  decide +kernel

end WebTransportD.EnvMemory
