import Mathlib.Data.List.Basic

/-! Round-robin rotation.  One member is current and the others wait in a queue; a rotation makes
the front of the queue current and puts the member that was current at the back, and new members
join at the back. -/

namespace Arsenal.Lib

structure RoundRobin (α : Type*) where
  current : α
  queue : List α

namespace RoundRobin

variable {α : Type*}

def join (r : RoundRobin α) (a : α) : RoundRobin α := { r with queue := r.queue ++ [a] }

/-- `Turns j r r'`: from `r` one comes to `r'` by `j` rotations, with any joins between them. -/
inductive Turns (r : RoundRobin α) : ℕ → RoundRobin α → Prop
  | refl : Turns r 0 r
  | join {j : ℕ} {r' : RoundRobin α} (a : α) (h : Turns r j r') : Turns r j (r'.join a)
  | rotate {j : ℕ} {r' : RoundRobin α} {a : α} {rest : List α} (h : Turns r j r')
      (hq : r'.queue = a :: rest) : Turns r (j + 1) ⟨a, rest ++ [r'.current]⟩

/-- A member moves one place forward with each rotation, and the rotation after it reaches the front
makes it current. -/
theorem Turns.position {r r' : RoundRobin α} {j k : ℕ} {a : α} (h : Turns r j r')
    (ha : r.queue[k]? = some a) :
    (j ≤ k → r'.queue[k - j]? = some a) ∧ (j = k + 1 → r'.current = a) := by
  induction h with
  | refl => exact ⟨fun _ => ha, by omega⟩
  | join b h ih =>
    refine ⟨fun hj => ?_, ih.2⟩
    have hold := ih.1 hj
    rw [RoundRobin.join, List.getElem?_append_left (List.getElem?_eq_some_iff.mp hold).1]
    exact hold
  | @rotate j r' b rest h hq ih =>
    constructor
    · intro hj
      have hold := ih.1 (by omega)
      rw [hq, show k - j = k - (j + 1) + 1 by omega, List.getElem?_cons_succ] at hold
      rw [List.getElem?_append_left (List.getElem?_eq_some_iff.mp hold).1]
      exact hold
    · intro hj
      have hold := ih.1 (by omega)
      rw [hq, show k - j = 0 by omega, List.getElem?_cons_zero, Option.some_inj] at hold
      exact hold

end RoundRobin

end Arsenal.Lib
