import Arsenal.Lib.Transition

/-! A stream that passes through two buffers.  What is produced goes into the first buffer, from
there in pieces into the second, and from there it is delivered. -/

namespace Arsenal.Lib

structure Conduit (α : Type*) where
  produced : List α
  outgoing : List α
  buffered : List α
  delivered : List α

namespace Conduit

variable {α : Type*} {c c' : Conduit α}

inductive Step (c : Conduit α) : Conduit α → Prop
  | produce (l : List α) :
      Step c { c with produced := c.produced ++ l, outgoing := c.outgoing ++ l }
  | pass (n : ℕ) :
      Step c { c with
        outgoing := c.outgoing.drop n, buffered := c.buffered ++ c.outgoing.take n }
  | deliver (n : ℕ) :
      Step c { c with
        buffered := c.buffered.drop n, delivered := c.delivered ++ c.buffered.take n }

/-- What is delivered and what waits is what was produced, in this order. -/
def InOrder (c : Conduit α) : Prop := c.delivered ++ (c.buffered ++ c.outgoing) = c.produced

theorem InOrder.step (h : c.InOrder) (hs : Step c c') : c'.InOrder := by
  unfold InOrder at *
  cases hs with
  | produce l => simp only [← h, List.append_assoc]
  | pass n => simp only [← h, List.append_assoc, List.take_append_drop]
  | deliver n =>
    calc c.delivered ++ c.buffered.take n ++ (c.buffered.drop n ++ c.outgoing)
        = c.delivered ++ (c.buffered.take n ++ c.buffered.drop n ++ c.outgoing) := by
          simp only [List.append_assoc]
      _ = c.produced := by rw [List.take_append_drop, h]

theorem InOrder.run (h : c.InOrder) (hs : Relation.ReflTransGen Step c c') : c'.InOrder :=
  invariant_of_step InOrder h (fun _ _ => InOrder.step) hs

/-- Everything is delivered exactly if nothing waits. -/
theorem InOrder.complete_iff (h : c.InOrder) :
    c.delivered = c.produced ↔ c.buffered = [] ∧ c.outgoing = [] := by
  rw [← h, eq_comm, List.append_right_eq_self, List.append_eq_nil_iff]

end Conduit

end Arsenal.Lib
