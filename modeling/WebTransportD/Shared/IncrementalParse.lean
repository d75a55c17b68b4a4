import Mathlib.Data.List.TakeWhile

set_option autoImplicit false

namespace WebTransportD.IncrementalParse

variable {A B : Type}

inductive Verdict (B : Type) where
  | more
  | bad
  | item (value : B) (size : Nat)

-- A parser of one item from the front of a buffer whose verdicts more input never changes, and that
-- looks at no more than the item it returns.
structure StableParser (A B : Type) where
  parse : List A -> Verdict B
  item_pos : ∀ buf value size, parse buf = .item value size -> 0 < size
  item_le : ∀ buf value size, parse buf = .item value size -> size ≤ buf.length
  item_exact : ∀ buf value size, parse buf = .item value size ->
    parse (buf.take size) = .item value size
  stable : ∀ buf ext, parse buf ≠ .more -> parse (buf ++ ext) = parse buf

variable (p : StableParser A B)

def StableParser.items (cap : Nat) (input : List A) : List B :=
  match _found : p.parse input with
  | .more => []
  | .bad => []
  | .item value size =>
      if size ≤ cap then value :: StableParser.items cap (input.drop size) else []
termination_by input.length
decreasing_by
  have positive := p.item_pos _ _ _ _found
  have within := p.item_le _ _ _ _found
  simp only [List.length_drop]
  omega

theorem items_more (cap : Nat) (input : List A) (waiting : p.parse input = .more) :
    p.items cap input = [] := by
  rw [StableParser.items]
  split <;> simp_all

theorem items_bad (cap : Nat) (buf ext : List A) (failed : p.parse buf = .bad) :
    p.items cap (buf ++ ext) = [] := by
  have same : p.parse (buf ++ ext) = .bad := by
    rw [p.stable buf ext (by simp [failed]), failed]
  rw [StableParser.items]
  split <;> simp_all

theorem items_item (cap : Nat) (buf ext : List A) (value : B) (size : Nat)
    (found : p.parse buf = .item value size) :
    p.items cap (buf ++ ext) =
      if size ≤ cap then value :: p.items cap (buf.drop size ++ ext) else [] := by
  have same : p.parse (buf ++ ext) = .item value size := by
    rw [p.stable buf ext (by simp [found]), found]
  have rest : (buf ++ ext).drop size = buf.drop size ++ ext :=
    List.drop_append_of_le_length (p.item_le _ _ _ found)
  rw [StableParser.items]
  split <;> simp_all

theorem parse_of_longer (buf ext : List A) (value : B) (size : Nat)
    (found : p.parse (buf ++ ext) = .item value size) (within : size ≤ buf.length) :
    p.parse buf = .item value size := by
  have exact := p.item_exact _ _ _ found
  rw [List.take_append_of_le_length within] at exact
  have extended := p.stable (buf.take size) (buf.drop size) (by simp [exact])
  rwa [List.take_append_drop, exact] at extended

theorem items_full (cap : Nat) (buf ext : List A) (waiting : p.parse buf = .more)
    (full : cap ≤ buf.length) : p.items cap (buf ++ ext) = [] := by
  rcases found : p.parse (buf ++ ext) with _ | _ | ⟨value, size⟩
  · exact items_more p cap _ found
  · simpa using items_bad p cap (buf ++ ext) [] found
  · -- An item that fits would lie inside the buffer, where the parser asked for more.
    have large : ¬ size ≤ cap := by
      intro fits
      have inside := parse_of_longer p buf ext value size found (fits.trans full)
      simp [waiting] at inside
    have stopped := items_item p cap (buf ++ ext) [] value size found
    rwa [List.append_nil, if_neg large] at stopped

theorem items_flatMap {C : Type} (cap : Nat) (bytes : C -> List A) (value : C -> B)
    (whole : List C) (each : ∀ c, p.parse (bytes c) = .item (value c) (bytes c).length) :
    p.items cap (whole.flatMap bytes) =
      (whole.takeWhile fun c => decide ((bytes c).length ≤ cap)).map value := by
  induction whole with
  | nil =>
    rcases found : p.parse [] with _ | _ | ⟨v, size⟩
    · exact items_more p cap _ found
    · simpa using items_bad p cap [] [] found
    · have positive := p.item_pos _ _ _ found
      have within := p.item_le _ _ _ found
      simp only [List.length_nil] at within
      omega
  | cons c rest ih =>
    rw [List.flatMap_cons, items_item p cap _ (rest.flatMap bytes) _ _ (each c),
      List.takeWhile_cons, List.drop_length, List.nil_append, ih]
    by_cases fits : (bytes c).length ≤ cap <;> simp [fits]

theorem items_forall (good : B -> Prop)
    (each : ∀ buf value size, p.parse buf = .item value size -> good value) (cap : Nat)
    (input : List A) : ∀ value ∈ p.items cap input, good value := by
  fun_induction StableParser.items p cap input with
  | case1 input found => simp
  | case2 input found => simp
  | case3 input value size found fits ih => simpa using ⟨each _ _ _ found, ih⟩
  | case4 input value size found large => simp

-- Why no further item is taken through a window of `cap`: the input ends inside an item, the parser
-- refuses what is next, or the window is full and no item is in it.
inductive Ending where
  | starved
  | refused
  | oversized
  deriving DecidableEq, Repr

def StableParser.ending (cap : Nat) (input : List A) : Ending :=
  match _found : p.parse (input.take cap) with
  | .more => if cap ≤ input.length then .oversized else .starved
  | .bad => .refused
  | .item _ size => StableParser.ending cap (input.drop size)
termination_by input.length
decreasing_by
  have positive := p.item_pos _ _ _ _found
  have within := p.item_le _ _ _ _found
  simp only [List.length_take, List.length_drop] at *
  omega

theorem parse_window (cap : Nat) (buf ext : List A) (settled : p.parse buf ≠ .more)
    (within : buf.length ≤ cap) : p.parse ((buf ++ ext).take cap) = p.parse buf := by
  rw [List.take_append, List.take_of_length_le within, p.stable buf _ settled]

theorem ending_starved (cap : Nat) (buf : List A) (waiting : p.parse buf = .more)
    (room : buf.length < cap) : p.ending cap buf = .starved := by
  rw [StableParser.ending]
  split <;> simp_all [List.take_of_length_le (Nat.le_of_lt room), Nat.not_le.mpr room]

theorem ending_full (cap : Nat) (buf ext : List A) (waiting : p.parse buf = .more)
    (full : buf.length = cap) : p.ending cap (buf ++ ext) = .oversized := by
  have window : (buf ++ ext).take cap = buf := by simp [← full]
  rw [StableParser.ending]
  split <;> simp_all

theorem ending_bad (cap : Nat) (buf ext : List A) (failed : p.parse buf = .bad)
    (within : buf.length ≤ cap) : p.ending cap (buf ++ ext) = .refused := by
  have window := parse_window p cap buf ext (by simp [failed]) within
  rw [StableParser.ending]
  split <;> simp_all

theorem ending_item (cap : Nat) (buf ext : List A) (value : B) (size : Nat)
    (found : p.parse buf = .item value size) (within : buf.length ≤ cap) :
    p.ending cap (buf ++ ext) = p.ending cap (buf.drop size ++ ext) := by
  have window := parse_window p cap buf ext (by simp [found]) within
  have rest : (buf ++ ext).drop size = buf.drop size ++ ext :=
    List.drop_append_of_le_length (p.item_le _ _ _ found)
  rw [StableParser.ending]
  split <;> simp_all

end WebTransportD.IncrementalParse
