import Mathlib.Data.List.Basic
import Mathlib.Logic.Function.Basic

set_option autoImplicit false

namespace WebTransportD.Memory

structure Access (A : Type) where
  value : A
  reads : List Nat

instance : Monad Access where
  pure a := { value := a, reads := [] }
  bind x f := { value := (f x.value).value, reads := x.reads ++ (f x.value).reads }

namespace Access

variable {A B : Type}

@[simp] theorem pure_value (a : A) : (pure a : Access A).value = a := rfl

@[simp] theorem pure_reads (a : A) : (pure a : Access A).reads = [] := rfl

@[simp] theorem bind_value (x : Access A) (f : A -> Access B) :
    (x >>= f).value = (f x.value).value := rfl

@[simp] theorem bind_reads (x : Access A) (f : A -> Access B) :
    (x >>= f).reads = x.reads ++ (f x.value).reads := rfl

@[simp] theorem ite_value (p : Prop) [Decidable p] (x y : Access A) :
    (if p then x else y).value = if p then x.value else y.value := by
  split <;> rfl

@[simp] theorem ite_reads (p : Prop) [Decidable p] (x y : Access A) :
    (if p then x else y).reads = if p then x.reads else y.reads := by
  split <;> rfl

end Access

variable {B : Type}

-- A read past the end yields a default and stays visible in the log.
def peek [Inhabited B] (buf : List B) (index : Nat) : Access B :=
  { value := buf.getD index default, reads := [index] }

@[simp] theorem peek_value [Inhabited B] (buf : List B) (index : Nat) :
    (peek buf index).value = buf.getD index default := rfl

@[simp] theorem peek_reads [Inhabited B] (buf : List B) (index : Nat) :
    (peek buf index).reads = [index] := rfl

def store (m : Nat -> B) (index : Nat) (b : B) : Nat -> B :=
  Function.update m index b

def copy (m : Nat -> B) (start : Nat) : List B -> Nat -> B
  | [] => m
  | b :: rest => copy (store m start b) (start + 1) rest

def slice (m : Nat -> B) (start len : Nat) : List B :=
  (List.range len).map fun i => m (start + i)

theorem copy_append (m : Nat -> B) (start : Nat) (xs ys : List B) :
    copy m start (xs ++ ys) = copy (copy m start xs) (start + xs.length) ys := by
  induction xs generalizing m start with
  | nil => rfl
  | cons x xs ih =>
    simp only [List.cons_append, copy, ih, List.length_cons]
    congr 1
    omega

theorem copy_below (m : Nat -> B) (start : Nat) (xs : List B) (index : Nat)
    (below : index < start) : copy m start xs index = m index := by
  induction xs generalizing m start with
  | nil => rfl
  | cons x xs ih =>
    rw [copy, ih _ _ (by omega), store, Function.update_of_ne (by omega)]

theorem copy_above (m : Nat -> B) (start : Nat) (xs : List B) (index : Nat)
    (above : start + xs.length ≤ index) : copy m start xs index = m index := by
  induction xs generalizing m start with
  | nil => rfl
  | cons x xs ih =>
    simp only [List.length_cons] at above
    rw [copy, ih _ _ (by omega), store, Function.update_of_ne (by omega)]

theorem slice_copy (m : Nat -> B) (start : Nat) (xs : List B) :
    slice (copy m start xs) start xs.length = xs := by
  induction xs generalizing m start with
  | nil => rfl
  | cons x xs ih =>
    have head : copy (store m start x) (start + 1) xs start = x := by
      rw [copy_below _ _ _ _ (by omega), store, Function.update_self]
    have tail := ih (store m start x) (start + 1)
    simp only [slice] at tail
    simp only [slice, List.length_cons, List.range_succ_eq_map, List.map_cons, List.map_map,
      copy, Nat.add_zero, head, List.cons.injEq, true_and]
    simpa [Function.comp_def, Nat.add_comm, Nat.add_left_comm] using tail

theorem slice_split (m : Nat -> B) (start first second : Nat) :
    slice m start (first + second) = slice m start first ++ slice m (start + first) second := by
  simp [slice, List.range_add, Function.comp_def, Nat.add_assoc]

end WebTransportD.Memory
