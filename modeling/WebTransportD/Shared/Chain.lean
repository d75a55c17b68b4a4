import Mathlib.Data.List.Nodup
import Mathlib.Data.List.Perm.Subperm
import Mathlib.Logic.Function.Basic

set_option autoImplicit false

namespace WebTransportD.Chain

variable {A V : Type}

structure Cell (A V : Type) where
  next : Option A
  value : V

-- Following the cells from `head` visits these addresses and values and then ends; an address
-- without a cell is one that is not allocated.
def Spells (heap : A -> Option (Cell A V)) : Option A -> List (A × V) -> Prop
  | head, [] => head = none
  | head, (a, v) :: rest =>
      head = some a ∧ ∃ next, heap a = some { next, value := v } ∧ Spells heap next rest

def addresses (cells : List (A × V)) : List A :=
  cells.map Prod.fst

@[simp] theorem addresses_nil : addresses ([] : List (A × V)) = [] := rfl

@[simp] theorem addresses_cons (a : A) (v : V) (rest : List (A × V)) :
    addresses ((a, v) :: rest) = a :: addresses rest := rfl

@[simp] theorem addresses_append (first second : List (A × V)) :
    addresses (first ++ second) = addresses first ++ addresses second :=
  List.map_append

theorem spells_unique (heap : A -> Option (Cell A V)) (head : Option A)
    (cells others : List (A × V)) (first : Spells heap head cells)
    (second : Spells heap head others) : cells = others := by
  induction cells generalizing head others with
  | nil =>
    cases others with
    | nil => rfl
    | cons cell rest =>
      have ended : head = none := first
      have started := second.1
      simp [ended] at started
  | cons cell rest ih =>
    obtain ⟨a, v⟩ := cell
    obtain ⟨rfl, next, here, later⟩ := first
    cases others with
    | nil => simp [Spells] at second
    | cons other more =>
      obtain ⟨b, w⟩ := other
      obtain ⟨same, after, there, further⟩ := second
      obtain rfl : a = b := by simpa using same
      obtain ⟨rfl, rfl⟩ : next = after ∧ v = w := by simpa [here] using there
      rw [ih next more later further]

theorem spells_from (heap : A -> Option (Cell A V)) (head : Option A) (cells : List (A × V))
    (a : A) (spelled : Spells heap head cells) (member : a ∈ addresses cells) :
    ∃ before v rest, cells = before ++ (a, v) :: rest ∧ Spells heap (some a) ((a, v) :: rest) := by
  induction cells generalizing head with
  | nil => simp at member
  | cons cell rest ih =>
    obtain ⟨b, v⟩ := cell
    obtain ⟨rfl, next, here, later⟩ := spelled
    rcases List.mem_cons.mp member with rfl | further
    · exact ⟨[], v, rest, rfl, rfl, next, here, later⟩
    · obtain ⟨before, w, more, split, found⟩ := ih next later further
      exact ⟨(b, v) :: before, w, more, by simp [split], found⟩

-- A chain that came back to an address would never end.
theorem spells_nodup (heap : A -> Option (Cell A V)) (head : Option A) (cells : List (A × V))
    (spelled : Spells heap head cells) : (addresses cells).Nodup := by
  induction cells generalizing head with
  | nil => exact List.nodup_nil
  | cons cell rest ih =>
    obtain ⟨a, v⟩ := cell
    have whole := spelled
    obtain ⟨rfl, next, here, later⟩ := spelled
    apply List.nodup_cons.mpr
    refine ⟨fun again => ?_, ih next later⟩
    obtain ⟨before, w, more, split, found⟩ := spells_from heap next rest a later again
    have same := spells_unique heap (some a) _ _ whole found
    have lengths := congrArg List.length same
    simp only [split, List.length_cons, List.length_append] at lengths
    omega

theorem spells_cell (heap : A -> Option (Cell A V)) (head : Option A) (front : List (A × V))
    (a : A) (v : V) (rest : List (A × V)) (spelled : Spells heap head (front ++ (a, v) :: rest)) :
    ∃ next, heap a = some { next, value := v } ∧ Spells heap next rest := by
  induction front generalizing head with
  | nil => exact spelled.2
  | cons cell front ih =>
    obtain ⟨-, next, -, later⟩ := spelled
    exact ih next later

theorem spells_live (heap : A -> Option (Cell A V)) (head : Option A) (cells : List (A × V))
    (spelled : Spells heap head cells) (a : A) (member : a ∈ addresses cells) :
    (heap a).isSome = true := by
  obtain ⟨-, v, rest, -, -, next, here, -⟩ := spells_from heap head cells a spelled member
  simp [here]

theorem spells_congr (heap other : A -> Option (Cell A V)) (head : Option A)
    (cells : List (A × V)) (same : ∀ a ∈ addresses cells, other a = heap a)
    (spelled : Spells heap head cells) : Spells other head cells := by
  induction cells generalizing head with
  | nil => exact spelled
  | cons cell rest ih =>
    obtain ⟨a, v⟩ := cell
    obtain ⟨rfl, next, here, later⟩ := spelled
    have kept := same a List.mem_cons_self
    exact ⟨rfl, next, kept.trans here,
      ih next (fun b member => same b (List.mem_cons_of_mem _ member)) later⟩

variable [DecidableEq A]

theorem spells_update (heap : A -> Option (Cell A V)) (head : Option A) (cells : List (A × V))
    (a : A) (cell : Option (Cell A V)) (outside : a ∉ addresses cells)
    (spelled : Spells heap head cells) : Spells (Function.update heap a cell) head cells := by
  apply spells_congr heap _ head cells _ spelled
  intro b member
  apply Function.update_of_ne
  rintro rfl
  exact outside member

theorem spells_relink (heap : A -> Option (Cell A V)) (head link : Option A)
    (front : List (A × V)) (t : A) (v w : V) (rest back : List (A × V))
    (spelled : Spells heap head (front ++ (t, v) :: rest)) (apart : t ∉ addresses back)
    (linked : Spells heap link back) :
    Spells (Function.update heap t (some { next := link, value := w })) head
      (front ++ (t, w) :: back) := by
  have distinct := spells_nodup heap head _ spelled
  induction front generalizing head with
  | nil =>
    exact ⟨spelled.1, link, Function.update_self .., spells_update heap link back t _ apart linked⟩
  | cons cell front ih =>
    obtain ⟨a, u⟩ := cell
    obtain ⟨rfl, next, here, later⟩ := spelled
    simp only [List.cons_append, addresses_cons, addresses_append, List.nodup_cons, List.mem_append,
      List.mem_cons, not_or] at distinct
    refine ⟨rfl, next, ?_, ih next later ?_⟩
    · rw [Function.update_of_ne distinct.1.2.1, here]
    · simpa using distinct.2

inductive Search (A : Type) where
  | found (holder : Option A)
  | absent
  | dangling

-- Walk along the links until one leads to `target`. The link is in the cell `holder`, or is the
-- head pointer; a walk that meets an address without a cell, or does not end, is `dangling`.
def search (heap : A -> Option (Cell A V)) (target : A) : Nat -> Option A -> Option A -> Search A
  | 0, _, _ => .dangling
  | _ + 1, _, none => .absent
  | fuel + 1, holder, some a =>
      if a = target then .found holder
      else match heap a with
        | none => .dangling
        | some cell => search heap target fuel (some a) cell.next

def unlink (fuel : Nat) (heap : A -> Option (Cell A V)) (head : Option A) (target : A) :
    Option ((A -> Option (Cell A V)) × Option A) :=
  match search heap target fuel none head with
  | .dangling => none
  | .absent => some (heap, head)
  | .found holder =>
      match heap target with
      | none => none
      | some cell =>
          match holder with
          | none => some (heap, cell.next)
          | some t =>
              match heap t with
              | none => none
              | some before =>
                  some (Function.update heap t (some { before with next := cell.next }), head)

theorem search_found (heap : A -> Option (Cell A V)) (target : A) (fuel : Nat)
    (holder head : Option A) (front : List (A × V)) (v : V) (rest : List (A × V))
    (spelled : Spells heap head (front ++ (target, v) :: rest)) (enough : front.length < fuel) :
    search heap target fuel holder head =
      .found (((addresses front).getLast?).orElse fun _ => holder) := by
  have distinct := spells_nodup heap head _ spelled
  induction front generalizing fuel holder head with
  | nil =>
    obtain ⟨fuel, rfl⟩ : ∃ less, fuel = less + 1 := ⟨fuel - 1, by grind⟩
    simp [search, spelled.1]
  | cons cell front ih =>
    obtain ⟨a, w⟩ := cell
    obtain ⟨fuel, rfl⟩ : ∃ less, fuel = less + 1 := ⟨fuel - 1, by grind⟩
    obtain ⟨rfl, next, here, later⟩ := spelled
    simp only [List.cons_append, addresses_cons, addresses_append, List.nodup_cons, List.mem_append,
      List.mem_cons, not_or] at distinct
    have further := ih fuel (some a) next later (by simpa using enough) (by simpa using distinct.2)
    simp only [search, distinct.1.2.1, if_false, here, further]
    cases last : (addresses front).getLast? with
    | none => simp [List.getLast?_cons, last]
    | some t => simp [List.getLast?_cons, last]

theorem unlink_spells (heap : A -> Option (Cell A V)) (head : Option A) (fuel : Nat)
    (front : List (A × V)) (target : A) (v : V) (rest : List (A × V))
    (spelled : Spells heap head (front ++ (target, v) :: rest)) (enough : front.length < fuel) :
    ∃ after link, unlink fuel heap head target = some (after, link) ∧
      Spells after link (front ++ rest) ∧ ∀ a, (after a).isSome = (heap a).isSome := by
  obtain ⟨next, cell, later⟩ := spells_cell heap head front target v rest spelled
  have reached := search_found heap target fuel none head front v rest spelled enough
  have distinct := spells_nodup heap head _ spelled
  rcases List.eq_nil_or_concat front with rfl | ⟨earlier, ⟨t, w⟩, rfl⟩
  · exact ⟨heap, next, by simp [unlink, reached, cell], later, fun _ => rfl⟩
  · rw [List.concat_eq_append] at spelled reached distinct ⊢
    simp only [List.append_assoc, List.singleton_append] at spelled
    obtain ⟨link, holder, -⟩ := spells_cell heap head earlier t w _ spelled
    have apart : t ∉ addresses rest := by
      simp only [addresses_append, addresses_cons, addresses_nil, List.nodup_append] at distinct
      grind
    refine ⟨Function.update heap t (some { next, value := w }), head, ?_, ?_, ?_⟩
    · simp [unlink, reached, cell, holder]
    · simpa using spells_relink heap head next earlier t w w _ rest spelled apart later
    · intro a
      by_cases same : a = t
      · simp [same, holder]
      · simp [same]

theorem unlink_values (fuel : Nat) (heap after : A -> Option (Cell A V)) (head link : Option A)
    (target a : A) (done : unlink fuel heap head target = some (after, link)) :
    (after a).map Cell.value = (heap a).map Cell.value := by
  cases reached : search heap target fuel none head with
  | dangling => simp [unlink, reached] at done
  | absent =>
    obtain ⟨rfl, -⟩ : heap = after ∧ head = link := by simpa [unlink, reached] using done
    rfl
  | found holder =>
    cases cell : heap target with
    | none => simp [unlink, reached, cell] at done
    | some removed =>
      cases holder with
      | none =>
        obtain ⟨rfl, -⟩ : heap = after ∧ removed.next = link := by
          simpa [unlink, reached, cell] using done
        rfl
      | some t =>
        cases here : heap t with
        | none => simp [unlink, reached, cell, here] at done
        | some before =>
          obtain ⟨rfl, -⟩ : _ = after ∧ head = link := by
            simpa [unlink, reached, cell, here] using done
          by_cases same : a = t
          · simp [same, here]
          · simp [same]

-- Apply `f` to the value of every cell in turn; a walk that meets an address without a cell, or
-- does not end, has no result.
def visit (f : A -> V -> V) : Nat -> (A -> Option (Cell A V)) -> Option A ->
    Option (A -> Option (Cell A V))
  | 0, _, _ => none
  | _ + 1, heap, none => some heap
  | fuel + 1, heap, some a =>
      match heap a with
      | none => none
      | some cell =>
          let heap := Function.update heap a (some { cell with value := f a cell.value })
          visit f fuel heap cell.next

theorem visit_spells (f : A -> V -> V) (fuel : Nat) (heap : A -> Option (Cell A V))
    (head : Option A) (cells : List (A × V)) (spelled : Spells heap head cells)
    (enough : cells.length < fuel) :
    ∃ after, visit f fuel heap head = some after ∧
      Spells after head (cells.map fun cell => (cell.1, f cell.1 cell.2)) ∧
      (∀ a, (after a).isSome = (heap a).isSome) ∧ ∀ a, a ∉ addresses cells -> after a = heap a := by
  have distinct := spells_nodup heap head _ spelled
  induction cells generalizing fuel heap head with
  | nil =>
    obtain ⟨fuel, rfl⟩ : ∃ less, fuel = less + 1 := ⟨fuel - 1, by grind⟩
    obtain rfl : head = none := spelled
    exact ⟨heap, rfl, rfl, fun _ => rfl, fun _ _ => rfl⟩
  | cons cell rest ih =>
    obtain ⟨a, v⟩ := cell
    obtain ⟨fuel, rfl⟩ : ∃ less, fuel = less + 1 := ⟨fuel - 1, by grind⟩
    obtain ⟨rfl, next, here, later⟩ := spelled
    obtain ⟨outside, distinct⟩ := List.nodup_cons.mp distinct
    let changed := Function.update heap a (some { next, value := f a v })
    obtain ⟨after, done, kept, same, frame⟩ := ih fuel changed next
      (spells_update heap next rest a _ outside later) (by simpa using enough) distinct
    have cell : after a = some { next, value := f a v } :=
      (frame a outside).trans (Function.update_self ..)
    refine ⟨after, by simpa [visit, here] using done, ⟨rfl, next, cell, kept⟩, ?_, ?_⟩
    · intro b
      by_cases eq : b = a
      · simp [eq, cell, here]
      · simp [same, changed, eq]
    · intro b notIn
      simp only [addresses_cons, List.mem_cons, not_or] at notIn
      simp [frame b notIn.2, changed, notIn.1]

def collect : Nat -> (A -> Option (Cell A V)) -> Option A -> Option (List (A × V))
  | 0, _, _ => none
  | _ + 1, _, none => some []
  | fuel + 1, heap, some a =>
      match heap a with
      | none => none
      | some cell => (collect fuel heap cell.next).map fun rest => (a, cell.value) :: rest

omit [DecidableEq A] in
theorem collect_spells (fuel : Nat) (heap : A -> Option (Cell A V)) (head : Option A)
    (cells : List (A × V)) (spelled : Spells heap head cells) (enough : cells.length < fuel) :
    collect fuel heap head = some cells := by
  induction cells generalizing fuel head with
  | nil =>
    obtain ⟨fuel, rfl⟩ : ∃ less, fuel = less + 1 := ⟨fuel - 1, by grind⟩
    obtain rfl : head = none := spelled
    rfl
  | cons cell rest ih =>
    obtain ⟨a, v⟩ := cell
    obtain ⟨fuel, rfl⟩ : ∃ less, fuel = less + 1 := ⟨fuel - 1, by grind⟩
    obtain ⟨rfl, next, here, later⟩ := spelled
    simp [collect, here, ih fuel next later (by simpa using enough)]

def release : Nat -> (A -> Option (Cell A V)) -> Option A -> Option (A -> Option (Cell A V))
  | 0, _, _ => none
  | _ + 1, heap, none => some heap
  | fuel + 1, heap, some a =>
      match heap a with
      | none => none
      | some cell => release fuel (Function.update heap a none) cell.next

theorem release_spells (fuel : Nat) (heap : A -> Option (Cell A V)) (head : Option A)
    (cells : List (A × V)) (spelled : Spells heap head cells) (enough : cells.length < fuel) :
    ∃ after, release fuel heap head = some after ∧ (∀ a ∈ addresses cells, after a = none) ∧
      ∀ a, a ∉ addresses cells -> after a = heap a := by
  have distinct := spells_nodup heap head _ spelled
  induction cells generalizing fuel heap head with
  | nil =>
    obtain ⟨fuel, rfl⟩ : ∃ less, fuel = less + 1 := ⟨fuel - 1, by grind⟩
    obtain rfl : head = none := spelled
    exact ⟨heap, rfl, by simp, fun _ _ => rfl⟩
  | cons cell rest ih =>
    obtain ⟨a, v⟩ := cell
    obtain ⟨fuel, rfl⟩ : ∃ less, fuel = less + 1 := ⟨fuel - 1, by grind⟩
    obtain ⟨rfl, next, here, later⟩ := spelled
    obtain ⟨outside, distinct⟩ := List.nodup_cons.mp distinct
    obtain ⟨after, done, freed, frame⟩ := ih fuel (Function.update heap a none) next
      (spells_update heap next rest a none outside later) (by simpa using enough) distinct
    refine ⟨after, by simpa [release, here] using done, ?_, ?_⟩
    · intro b member
      rcases List.mem_cons.mp member with rfl | further
      · exact (frame b outside).trans (Function.update_self ..)
      · exact freed b further
    · intro b notIn
      simp only [addresses_cons, List.mem_cons, not_or] at notIn
      rw [frame b notIn.2, Function.update_of_ne notIn.1]

def Exact (heap : A -> Option (Cell A V)) (head : Option A) : Prop :=
  ∃ cells, Spells heap head cells ∧ ∀ a, a ∈ addresses cells ↔ (heap a).isSome = true

omit [DecidableEq A] in
theorem Exact.cells {heap : A -> Option (Cell A V)} {head : Option A} (exact : Exact heap head) :
    ∃ cells, Spells heap head cells ∧
      ∀ a v, (a, v) ∈ cells ↔ (heap a).map Cell.value = some v := by
  obtain ⟨cells, spelled, all⟩ := exact
  have value : ∀ a v, (a, v) ∈ cells -> (heap a).map Cell.value = some v := by
    intro a v member
    obtain ⟨front, rest, rfl⟩ := List.append_of_mem member
    obtain ⟨next, here, -⟩ := spells_cell heap head front a v rest spelled
    simp [here]
  refine ⟨cells, spelled, fun a v => ⟨value a v, fun here => ?_⟩⟩
  obtain ⟨cell, live, rfl⟩ := Option.map_eq_some_iff.mp here
  obtain ⟨⟨b, w⟩, member, rfl⟩ := List.mem_map.mp ((all a).mpr (by simp [live]))
  have same := value b w member
  simp only [live, Option.map_some, Option.some.injEq] at same
  rwa [same]

omit [DecidableEq A] in
theorem exact_empty : Exact (fun _ => none : A -> Option (Cell A V)) none :=
  ⟨[], rfl, by simp⟩

theorem Exact.push {heap : A -> Option (Cell A V)} {head : Option A} (exact : Exact heap head)
    (a : A) (v : V) (fresh : heap a = none) :
    Exact (Function.update heap a (some { next := head, value := v })) (some a) := by
  obtain ⟨cells, spelled, all⟩ := exact
  have outside : a ∉ addresses cells := by simp [all, fresh]
  refine ⟨(a, v) :: cells, ⟨rfl, head, Function.update_self .., ?_⟩, ?_⟩
  · exact spells_update heap head cells a _ outside spelled
  · intro b
    by_cases same : b = a
    · simp [same]
    · simp [same, all]

theorem Exact.set {heap : A -> Option (Cell A V)} {head : Option A} (exact : Exact heap head)
    (a : A) (cell : Cell A V) (v : V) (live : heap a = some cell) :
    Exact (Function.update heap a (some { cell with value := v })) head := by
  obtain ⟨cells, spelled, all⟩ := exact
  obtain ⟨front, w, rest, rfl, -, next, here, later⟩ :=
    spells_from heap head cells a spelled ((all a).mpr (by simp [live]))
  obtain rfl : cell = { next, value := w } := by simpa [live] using here
  have distinct := spells_nodup heap head _ spelled
  have apart : a ∉ addresses rest := by
    simp only [addresses_append, addresses_cons, List.nodup_append, List.nodup_cons] at distinct
    exact distinct.2.1.1
  refine ⟨_, spells_relink heap head next front a w v rest rest spelled apart later, fun b => ?_⟩
  have member := all b
  by_cases same : b = a
  · simp [same]
  · simpa [same] using member

theorem Exact.visit {heap : A -> Option (Cell A V)} {head : Option A} (exact : Exact heap head)
    (f : A -> V -> V) (fuel : Nat)
    (enough : ∀ cells, Spells heap head cells -> cells.length < fuel) :
    ∃ after, visit f fuel heap head = some after ∧ Exact after head ∧
      ∀ a, (after a).isSome = (heap a).isSome := by
  obtain ⟨cells, spelled, all⟩ := exact
  obtain ⟨after, done, kept, same, -⟩ :=
    visit_spells f fuel heap head cells spelled (enough cells spelled)
  refine ⟨after, done, ⟨_, kept, fun a => ?_⟩, same⟩
  have names : addresses (cells.map fun cell => (cell.1, f cell.1 cell.2)) = addresses cells := by
    simp [addresses]
  rw [names, all, same]

theorem Exact.unlink {heap : A -> Option (Cell A V)} {head : Option A} (exact : Exact heap head)
    (a : A) (live : (heap a).isSome = true) (fuel : Nat)
    (enough : ∀ cells, Spells heap head cells -> cells.length < fuel) :
    ∃ after link, unlink fuel heap head a = some (after, link) ∧
      Exact (Function.update after a none) link ∧
      ∀ b, (after b).isSome = (heap b).isSome := by
  obtain ⟨cells, spelled, all⟩ := exact
  obtain ⟨front, v, rest, rfl, -⟩ := spells_from heap head cells a spelled ((all a).mpr live)
  have short := enough _ spelled
  have distinct := spells_nodup heap head _ spelled
  obtain ⟨after, link, done, kept, same⟩ := unlink_spells heap head fuel front a v rest spelled
    (by simp at short; omega)
  have outside : a ∉ addresses (front ++ rest) := by
    simp only [addresses_append, addresses_cons, List.nodup_append, List.nodup_cons,
      List.mem_append] at distinct ⊢
    grind
  refine ⟨after, link, done, ⟨_, spells_update after link _ a none outside kept, fun b => ?_⟩, same⟩
  have member := all b
  by_cases eq : b = a
  · simpa [eq] using outside
  · simpa [eq, same] using member

theorem spells_length {heap : Nat -> Option (Cell Nat V)} {head : Option Nat} (bound : Nat)
    (below : ∀ a, (heap a).isSome = true -> a < bound) (cells : List (Nat × V))
    (spelled : Spells heap head cells) : cells.length < bound + 1 := by
  have distinct := spells_nodup heap head cells spelled
  have inside : addresses cells ⊆ List.range bound := by
    intro a member
    exact List.mem_range.mpr (below a (spells_live heap head cells spelled a member))
  have shorter := (List.subperm_of_subset distinct inside).length_le
  simp only [addresses, List.length_map, List.length_range] at shorter
  omega

structure Queue (A V : Type) where
  heap : A -> Option (Cell A V)
  head : Option A
  tail : Option A

def Queue.empty (heap : A -> Option (Cell A V)) : Queue A V :=
  { heap, head := none, tail := none }

-- The new cell is written first; `none` means that the tail pointer dangles.
def Queue.push (q : Queue A V) (a : A) (v : V) : Option (Queue A V) :=
  let heap := Function.update q.heap a (some { next := none, value := v })
  match q.tail with
  | none => some { heap, head := some a, tail := some a }
  | some t =>
      match heap t with
      | none => none
      | some last =>
          some { heap := Function.update heap t (some { last with next := some a })
                 head := q.head, tail := some a }

-- Takes the first cell off and frees it; `none` means that the head pointer dangles.
def Queue.pop (q : Queue A V) : Option (Queue A V × Option (A × V)) :=
  match q.head with
  | none => some (q, none)
  | some a =>
      match q.heap a with
      | none => none
      | some first =>
          some ({ heap := Function.update q.heap a none
                  head := first.next
                  tail := if first.next = none then none else q.tail },
            some (a, first.value))

structure Queue.Holds (q : Queue A V) (cells : List (A × V)) : Prop where
  chain : Spells q.heap q.head cells
  last : q.tail = (addresses cells).getLast?

omit [DecidableEq A] in
theorem Queue.holds_empty (heap : A -> Option (Cell A V)) : (Queue.empty heap).Holds [] :=
  ⟨rfl, rfl⟩

omit [DecidableEq A] in
theorem Queue.Holds.ends {q : Queue A V} {cells : List (A × V)} (holds : q.Holds cells) :
    (q.head = none ↔ cells = []) ∧ (q.tail = none ↔ cells = []) := by
  obtain ⟨chain, last⟩ := holds
  cases cells with
  | nil => exact ⟨by simpa [Spells] using chain, by simpa using last⟩
  | cons cell rest => simp [chain.1, last, addresses]

omit [DecidableEq A] in
theorem Queue.Holds.tail_cell {q : Queue A V} {cells : List (A × V)} (holds : q.Holds cells)
    (t : A) (last : q.tail = some t) : ∃ v, q.heap t = some { next := none, value := v } := by
  rcases List.eq_nil_or_concat cells with rfl | ⟨front, ⟨a, v⟩, rfl⟩
  · simp [holds.last] at last
  · obtain rfl : a = t := by simpa [holds.last] using last
    have chain := holds.chain
    rw [List.concat_eq_append] at chain
    obtain ⟨next, cell, ended⟩ := spells_cell q.heap q.head front a v [] chain
    obtain rfl : next = none := ended
    exact ⟨v, cell⟩

omit [DecidableEq A] in
theorem Queue.Holds.fresh {q : Queue A V} {cells : List (A × V)} (holds : q.Holds cells) (a : A)
    (unused : q.heap a = none) : a ∉ addresses cells := by
  intro member
  have live := spells_live q.heap q.head cells holds.chain a member
  simp [unused] at live

theorem Queue.Holds.push {q : Queue A V} {cells : List (A × V)} (holds : q.Holds cells) (a : A)
    (v : V) (outside : a ∉ addresses cells) :
    ∃ next, q.push a v = some next ∧ next.Holds (cells ++ [(a, v)]) ∧
      ∀ b, b ∉ addresses cells -> b ≠ a -> next.heap b = q.heap b := by
  obtain ⟨chain, last⟩ := holds
  let heap := Function.update q.heap a (some { next := none, value := v })
  have alone : Spells heap (some a) [(a, v)] := ⟨rfl, none, Function.update_self .., rfl⟩
  have kept : Spells heap q.head cells := spells_update q.heap q.head cells a _ outside chain
  rcases List.eq_nil_or_concat cells with rfl | ⟨front, ⟨t, w⟩, rfl⟩
  · have tail : q.tail = none := last
    refine ⟨{ heap, head := some a, tail := some a }, by simp [Queue.push, tail, heap],
      ⟨alone, rfl⟩, ?_⟩
    intro b _ other
    exact Function.update_of_ne other ..
  · have tail : q.tail = some t := by simpa using last
    rw [List.concat_eq_append] at kept outside ⊢
    obtain ⟨after, cell, -⟩ := spells_cell heap q.head front t w [] kept
    have other : t ≠ a := by
      rintro rfl
      simp at outside
    have joined := spells_relink heap q.head (some a) front t w w [] [(a, v)] kept
      (by simpa using other) alone
    refine ⟨{ heap := Function.update heap t (some { next := some a, value := w })
              head := q.head, tail := some a }, ?_, ⟨by simpa using joined, by simp⟩, ?_⟩
    · simp only [Queue.push, tail, show Function.update q.heap a _ t = _ from cell]
      rfl
    · intro b notIn differs
      have away : b ≠ t := by
        rintro rfl
        simp at notIn
      simp [heap, away, differs]

theorem Queue.Holds.pop {q : Queue A V} {a : A} {v : V} {rest : List (A × V)}
    (holds : q.Holds ((a, v) :: rest)) :
    ∃ next, q.pop = some (next, some (a, v)) ∧ next.Holds rest ∧
      next.heap = Function.update q.heap a none := by
  obtain ⟨chain, last⟩ := holds
  have distinct := spells_nodup q.heap q.head _ chain
  obtain ⟨head, next, cell, later⟩ := chain
  have outside := (List.nodup_cons.mp distinct).1
  have kept := spells_update q.heap next rest a none outside later
  refine ⟨_, by simp only [Queue.pop, head, cell]; rfl, ⟨kept, ?_⟩, rfl⟩
  cases rest with
  | nil => simp [show next = none from later]
  | cons other more => simp [later.1, last, addresses]

end WebTransportD.Chain
