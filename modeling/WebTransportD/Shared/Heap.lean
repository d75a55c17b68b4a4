import Mathlib.Data.Finmap
import Mathlib.Order.Lattice.Nat
import WebTransportD.Shared.Ownership

set_option autoImplicit false

namespace WebTransportD.Heap

open Ownership

abbrev Blocks (K B : Type) := Finmap fun _ : K => B

variable {K B O : Type} [DecidableEq K]

structure Allocator (K B : Type) [DecidableEq K] where
  grants : Nat -> Bool
  place : Blocks K B -> Nat -> K
  fresh : ∀ (blocks : Blocks K B) n, blocks.lookup (place blocks n) = none

structure Store (K B : Type) where
  blocks : Blocks K B
  requests : Nat

def malloc (alloc : Allocator K B) (s : Store K B) (block : B) : Store K B × Option K :=
  if alloc.grants s.requests then
    let a := alloc.place s.blocks s.requests
    ({ blocks := s.blocks.insert a block, requests := s.requests + 1 }, some a)
  else ({ s with requests := s.requests + 1 }, none)

-- A block that is not allocated can be neither freed nor resized nor changed.
def free (s : Store K B) (a : K) : Option (Store K B) :=
  (s.blocks.lookup a).map fun _ => { s with blocks := s.blocks.erase a }

-- The old block is gone when the new one is placed, so both may have the same address.
def realloc (alloc : Allocator K B) (s : Store K B) (a : K) (resize : B -> B) :
    Option (Store K B × Option K) :=
  (s.blocks.lookup a).map fun block =>
    if alloc.grants s.requests then
      let rest := s.blocks.erase a
      let b := alloc.place rest s.requests
      ({ blocks := rest.insert b (resize block), requests := s.requests + 1 }, some b)
    else ({ s with requests := s.requests + 1 }, none)

def modify (s : Store K B) (a : K) (change : B -> Option B) : Option (Store K B) := do
  let block ← s.blocks.lookup a
  let next ← change block
  some { s with blocks := s.blocks.insert a next }

theorem lookup_insert_update (blocks : Blocks K B) (a : K) (block : B) :
    (fun k => (blocks.insert a block).lookup k) =
      Function.update (fun k => blocks.lookup k) a (some block) := by
  funext k
  by_cases same : k = a
  · subst same
    simp
  · rw [Finmap.lookup_insert_of_ne _ same, Function.update_of_ne same]

theorem lookup_erase_update (blocks : Blocks K B) (a : K) :
    (fun k => (blocks.erase a).lookup k) = Function.update (fun k => blocks.lookup k) a none := by
  funext k
  by_cases same : k = a
  · subst same
    simp
  · rw [Finmap.lookup_erase_ne same, Function.update_of_ne same]

def Owns (base : Blocks K B) (s : Store K B) (slots : O -> Option (K × B)) : Prop :=
  Ledger (fun k => base.lookup k) (fun k => s.blocks.lookup k) slots

variable {base : Blocks K B} {s : Store K B} {slots : O -> Option (K × B)}

theorem owns_nothing (s : Store K B) : Owns s.blocks s fun _ : O => none :=
  Ledger.empty _

theorem Owns.lookup (owns : Owns base s slots) (o : O) (a : K) (block : B)
    (owned : slots o = some (a, block)) : s.blocks.lookup a = some block :=
  (owns.entries o a block owned).1

theorem malloc_refused (alloc : Allocator K B) (s : Store K B) (block : B)
    (refused : alloc.grants s.requests = false) :
    malloc alloc s block = ({ s with requests := s.requests + 1 }, none) := by
  simp [malloc, refused]

theorem Owns.realloc_refused (owns : Owns base s slots) (alloc : Allocator K B) (o : O) (a : K)
    (block : B) (owned : slots o = some (a, block)) (resize : B -> B)
    (refused : alloc.grants s.requests = false) :
    realloc alloc s a resize = some ({ s with requests := s.requests + 1 }, none) := by
  simp [realloc, owns.lookup o a block owned, refused]

theorem Owns.settled (owns : Owns base s slots) (none : ∀ o, slots o = none) :
    s.blocks = base := by
  refine Finmap.ext_lookup fun k => owns.others k fun o block owned => ?_
  simp [none o] at owned

variable [DecidableEq O]

theorem Owns.malloc (owns : Owns base s slots) (alloc : Allocator K B) (o : O) (block : B)
    (idle : slots o = none) (granted : alloc.grants s.requests = true) :
    ∃ after a, malloc alloc s block = (after, some a) ∧ after.requests = s.requests + 1 ∧
      Owns base after (Function.update slots o (some (a, block))) := by
  have placed := owns.acquire o (alloc.place s.blocks s.requests) block idle (alloc.fresh _ _)
  rw [← lookup_insert_update] at placed
  refine ⟨{ blocks := s.blocks.insert _ block, requests := s.requests + 1 }, _, ?_, rfl, placed⟩
  simp only [Heap.malloc, granted, if_true]

theorem Owns.free (owns : Owns base s slots) (o : O) (a : K) (block : B)
    (owned : slots o = some (a, block)) :
    ∃ after, free s a = some after ∧ after.requests = s.requests ∧
      Owns base after (Function.update slots o none) := by
  have released := owns.release o a block owned
  rw [← lookup_erase_update] at released
  refine ⟨{ s with blocks := s.blocks.erase a }, ?_, rfl, released⟩
  rw [Heap.free, owns.lookup o a block owned, Option.map_some]

theorem Owns.realloc (owns : Owns base s slots) (alloc : Allocator K B) (o : O) (a : K) (block : B)
    (owned : slots o = some (a, block)) (resize : B -> B)
    (granted : alloc.grants s.requests = true) :
    ∃ after b, realloc alloc s a resize = some (after, some b) ∧
      after.requests = s.requests + 1 ∧
      Owns base after (Function.update slots o (some (b, resize block))) := by
  have released := owns.release o a block owned
  rw [← lookup_erase_update] at released
  have placed := released.acquire o (alloc.place (s.blocks.erase a) s.requests) (resize block)
    (by simp) (alloc.fresh _ _)
  rw [← lookup_insert_update, Function.update_idem] at placed
  refine ⟨{ blocks := (s.blocks.erase a).insert _ (resize block), requests := s.requests + 1 }, _,
    ?_, rfl, placed⟩
  simp only [Heap.realloc, owns.lookup o a block owned, Option.map_some, granted, if_true]

theorem Owns.modify (owns : Owns base s slots) (o : O) (a : K) (block next : B)
    (owned : slots o = some (a, block)) (change : B -> Option B)
    (changed : change block = some next) :
    ∃ after, modify s a change = some after ∧ after.requests = s.requests ∧
      Owns base after (Function.update slots o (some (a, next))) := by
  have kept := owns.change o a block next owned
  rw [← lookup_insert_update] at kept
  refine ⟨{ s with blocks := s.blocks.insert a next }, ?_, rfl, kept⟩
  simp only [Heap.modify, owns.lookup o a block owned, Option.bind_eq_bind, Option.bind_some,
    changed]

def freeAll (s : Store K B) (keys : List K) : Option (Store K B) :=
  keys.foldlM free s

def placeAll (blocks : Blocks K B) (block : B) (keys : List K) : Blocks K B :=
  keys.foldr (fun k placed => placed.insert k block) blocks

theorem placeAll_append (blocks : Blocks K B) (block : B) (first second : List K) :
    placeAll blocks block (first ++ second) =
      placeAll (placeAll blocks block second) block first :=
  List.foldr_append ..

theorem lookup_placeAll (blocks : Blocks K B) (block : B) (keys : List K) (k : K)
    (outside : k ∉ keys) : (placeAll blocks block keys).lookup k = blocks.lookup k := by
  induction keys with
  | nil => rfl
  | cons first rest ih =>
    obtain ⟨other, later⟩ := not_or.mp (mt List.mem_cons.mpr outside)
    rw [placeAll, List.foldr_cons, Finmap.lookup_insert_of_ne _ other]
    exact ih later

theorem free_insert (blocks : Blocks K B) (requests : Nat) (k : K) (block : B)
    (unused : blocks.lookup k = none) :
    free { blocks := blocks.insert k block, requests } k = some { blocks, requests } := by
  have back : (blocks.insert k block).erase k = blocks := by
    refine Finmap.ext_lookup fun other => ?_
    by_cases same : other = k
    · subst same
      rw [Finmap.lookup_erase, unused]
    · rw [Finmap.lookup_erase_ne same, Finmap.lookup_insert_of_ne _ same]
  simp [free, back]

theorem freeAll_placeAll (blocks : Blocks K B) (requests : Nat) (block : B) (keys : List K)
    (distinct : keys.Nodup) (unused : ∀ k ∈ keys, blocks.lookup k = none) :
    freeAll { blocks := placeAll blocks block keys, requests } keys =
      some { blocks, requests } := by
  induction keys with
  | nil => rfl
  | cons k rest ih =>
    obtain ⟨alone, others⟩ := List.nodup_cons.mp distinct
    have first := free_insert (placeAll blocks block rest) requests k block
      (by rw [lookup_placeAll _ _ _ _ alone]; exact unused k (by simp))
    rw [freeAll, List.foldlM_cons, placeAll, List.foldr_cons]
    exact (congrArg (· >>= fun s => rest.foldlM free s) first).trans
      (ih others fun l member => unused l (List.mem_cons_of_mem k member))

def above (blocks : Blocks Nat B) : Nat :=
  blocks.keys.sup id + 1

theorem lookup_above (blocks : Blocks Nat B) : blocks.lookup (above blocks) = none := by
  refine Finmap.lookup_eq_none.mpr fun member => ?_
  exact absurd (Finset.le_sup (f := id) (Finmap.mem_keys.mpr member)) (Nat.not_succ_le_self _)

end WebTransportD.Heap
