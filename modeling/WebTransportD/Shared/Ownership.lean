import Mathlib.Logic.Function.Basic

set_option autoImplicit false

namespace WebTransportD.Ownership

variable {K V O : Type}

structure Ledger (base table : K -> Option V) (slots : O -> Option (K × V)) : Prop where
  entries : ∀ o k v, slots o = some (k, v) -> table k = some v ∧ base k = none
  apart : ∀ o p k v w, slots o = some (k, v) -> slots p = some (k, w) -> o = p
  others : ∀ k, (∀ o v, slots o ≠ some (k, v)) -> table k = base k

variable {base table other : K -> Option V} {slots : O -> Option (K × V)}

theorem Ledger.empty (base : K -> Option V) : Ledger base base fun _ : O => none where
  entries o k v owned := by simp at owned
  apart o p k v w owned := by simp at owned
  others k _ := rfl

theorem Ledger.free (ledger : Ledger base table slots) (k : K) (unused : table k = none) :
    base k = none ∧ ∀ o v, slots o ≠ some (k, v) := by
  have unowned : ∀ o v, slots o ≠ some (k, v) := by
    intro o v owned
    have entry := (ledger.entries o k v owned).1
    simp [unused] at entry
  exact ⟨(ledger.others k unowned).symm.trans unused, unowned⟩

theorem Ledger.unique (ledger : Ledger base table slots) (again : Ledger base other slots) :
    table = other := by
  funext k
  by_cases owned : ∃ o v, slots o = some (k, v)
  · obtain ⟨o, v, owned⟩ := owned
    rw [(ledger.entries o k v owned).1, (again.entries o k v owned).1]
  · have unowned : ∀ o v, slots o ≠ some (k, v) := fun o v same => owned ⟨o, v, same⟩
    rw [ledger.others k unowned, again.others k unowned]

variable [DecidableEq K] [DecidableEq O]

theorem Ledger.acquire (ledger : Ledger base table slots) (o : O) (k : K) (v : V)
    (idle : slots o = none) (unused : table k = none) :
    Ledger base (Function.update table k (some v)) (Function.update slots o (some (k, v))) := by
  obtain ⟨free, unowned⟩ := ledger.free k unused
  constructor
  · intro p l w owned
    by_cases new : p = o
    · obtain ⟨rfl, rfl⟩ : k = l ∧ v = w := by simpa [new] using owned
      simp [free]
    · have old : slots p = some (l, w) := by simpa [new] using owned
      have differs : l ≠ k := by
        rintro rfl
        exact unowned p w old
      simpa [differs] using ledger.entries p l w old
  · intro p q l u w first second
    by_cases one : p = o <;> by_cases two : q = o
    · rw [one, two]
    · obtain ⟨rfl, rfl⟩ : k = l ∧ v = u := by simpa [one] using first
      exact absurd (by simpa [two] using second) (unowned q w)
    · obtain ⟨rfl, rfl⟩ : k = l ∧ v = w := by simpa [two] using second
      exact absurd (by simpa [one] using first) (unowned p u)
    · exact ledger.apart p q l u w (by simpa [one] using first) (by simpa [two] using second)
  · intro l left
    have differs : l ≠ k := by
      rintro rfl
      exact left o v (by simp)
    rw [Function.update_of_ne differs]
    refine ledger.others l fun p w owned => ?_
    have same : p ≠ o := by
      rintro rfl
      simp [idle] at owned
    exact left p w (by simpa [same] using owned)

theorem Ledger.release (ledger : Ledger base table slots) (o : O) (k : K) (v : V)
    (owned : slots o = some (k, v)) :
    Ledger base (Function.update table k none) (Function.update slots o none) := by
  have free := (ledger.entries o k v owned).2
  have old : ∀ p l w, Function.update slots o none p = some (l, w) ->
      slots p = some (l, w) ∧ l ≠ k := by
    intro p l w kept
    have differs : p ≠ o := by
      rintro rfl
      simp at kept
    have before : slots p = some (l, w) := by simpa [differs] using kept
    refine ⟨before, ?_⟩
    rintro rfl
    exact differs (ledger.apart p o l w v before owned)
  constructor
  · intro p l w kept
    obtain ⟨before, differs⟩ := old p l w kept
    simpa [differs] using ledger.entries p l w before
  · intro p q l u w first second
    exact ledger.apart p q l u w (old p l u first).1 (old q l w second).1
  · intro l left
    by_cases same : l = k
    · simp [same, free]
    · rw [Function.update_of_ne same]
      refine ledger.others l fun p w held => left p w ?_
      have differs : p ≠ o := by
        rintro rfl
        rw [owned] at held
        obtain ⟨rfl, -⟩ : k = l ∧ v = w := by simpa using held
        exact same rfl
      simpa [differs] using held

theorem Ledger.change (ledger : Ledger base table slots) (o : O) (k : K) (v w : V)
    (owned : slots o = some (k, v)) :
    Ledger base (Function.update table k (some w)) (Function.update slots o (some (k, w))) := by
  have released := ledger.release o k v owned
  simpa using released.acquire o k w (by simp) (by simp)

end WebTransportD.Ownership
