import Mathlib.Data.List.Nodup
import Mathlib.Data.List.Perm.Subperm
import Mathlib.Data.List.Range
import Mathlib.Logic.Relation

/-! A channel between a client and a server.  The client sends requests; the server receives them in
the order sent, completes them in any order, and the client takes the completions in the order in
which the server made them.  Requests are named by their number in the order sent. -/

namespace Arsenal.Lib

structure Channel (Req Cmp : Type*) where
  sent : List Req
  received : ℕ
  completed : List (ℕ × Cmp)
  delivered : ℕ

namespace Channel

variable {Req Cmp : Type*}

def empty : Channel Req Cmp := ⟨[], 0, [], 0⟩

inductive Step (c : Channel Req Cmp) : Channel Req Cmp → Prop
  | send (r : Req) : Step c { c with sent := c.sent ++ [r] }
  | receive (h : c.received < c.sent.length) : Step c { c with received := c.received + 1 }
  | complete (n : ℕ) (v : Cmp) (hn : n < c.received) (hnew : n ∉ c.completed.map Prod.fst) :
      Step c { c with completed := c.completed ++ [(n, v)] }
  | deliver (h : c.delivered < c.completed.length) :
      Step c { c with delivered := c.delivered + 1 }

/-- Requests are received, completed and delivered in that order, and completed once. -/
structure Ordered (c : Channel Req Cmp) : Prop where
  received_le : c.received ≤ c.sent.length
  nodup : (c.completed.map Prod.fst).Nodup
  lt : ∀ n ∈ c.completed.map Prod.fst, n < c.received
  delivered_le : c.delivered ≤ c.completed.length

theorem ordered_empty : (empty : Channel Req Cmp).Ordered :=
  ⟨le_rfl, by simp [empty], by simp [empty], le_rfl⟩

theorem Ordered.step {c c' : Channel Req Cmp} (h : c.Ordered) (hs : Step c c') : c'.Ordered := by
  cases hs with
  | send r =>
    exact ⟨by simpa using h.received_le.trans (Nat.le_succ _), h.nodup, h.lt, h.delivered_le⟩
  | receive hlt =>
    exact ⟨hlt, h.nodup, fun n hn => (h.lt n hn).trans (Nat.lt_succ_self _), h.delivered_le⟩
  | complete n v hn hnew =>
    refine ⟨h.received_le, ?_, ?_, ?_⟩
    · rw [List.map_append, List.nodup_append]
      refine ⟨h.nodup, by simp, ?_⟩
      rintro a ha b hb rfl
      simp only [List.map_cons, List.map_nil, List.mem_singleton] at hb
      exact hnew (hb ▸ ha)
    · intro m hm
      rw [List.map_append, List.mem_append] at hm
      rcases hm with hm | hm
      · exact h.lt m hm
      · simp only [List.map_cons, List.map_nil, List.mem_singleton] at hm
        exact hm ▸ hn
    · simpa using h.delivered_le.trans (Nat.le_succ _)
  | deliver hlt => exact ⟨h.received_le, h.nodup, h.lt, hlt⟩

/-- The numbers of the requests that have been delivered. -/
def done (c : Channel Req Cmp) : List ℕ := (c.completed.map Prod.fst).take c.delivered

/-- The numbers of the requests that have been sent and not delivered, in the order sent. -/
def inFlight (c : Channel Req Cmp) : List ℕ :=
  (List.range c.sent.length).filter fun n => n ∉ c.done

theorem mem_inFlight {c : Channel Req Cmp} {n : ℕ} :
    n ∈ c.inFlight ↔ n < c.sent.length ∧ n ∉ c.done := by
  simp [inFlight]

theorem nodup_inFlight (c : Channel Req Cmp) : c.inFlight.Nodup := List.nodup_range.filter _

section

variable {c : Channel Req Cmp} {n : ℕ} {v : Cmp}

theorem Ordered.done_subset (h : c.Ordered) (hn : n ∈ c.done) : n < c.received :=
  h.lt n (List.mem_of_mem_take hn)

theorem Ordered.nodup_done (h : c.Ordered) : c.done.Nodup :=
  h.nodup.sublist (List.take_sublist ..)

theorem Ordered.length_completed_le (h : c.Ordered) : c.completed.length ≤ c.received := by
  have hsub : c.completed.map Prod.fst ⊆ List.range c.received :=
    fun n hn => List.mem_range.mpr (h.lt n hn)
  simpa using (List.subperm_of_subset h.nodup hsub).length_le

theorem Ordered.length_completed_lt (h : c.Ordered) (hn : n < c.received)
    (hnew : n ∉ c.completed.map Prod.fst) : c.completed.length < c.received := by
  have hsub : n :: c.completed.map Prod.fst ⊆ List.range c.received :=
    List.cons_subset.mpr ⟨List.mem_range.mpr hn, fun m hm => List.mem_range.mpr (h.lt m hm)⟩
  have hle := (List.subperm_of_subset (List.nodup_cons.mpr ⟨hnew, h.nodup⟩) hsub).length_le
  simp only [List.length_cons, List.length_map, List.length_range] at hle
  omega

theorem Ordered.length_inFlight (h : c.Ordered) :
    c.inFlight.length + c.delivered = c.sent.length := by
  have hsplit : (c.inFlight ++ c.done).Perm (List.range c.sent.length) := by
    refine (List.perm_ext_iff_of_nodup ?_ List.nodup_range).mpr fun n => ?_
    · rw [List.nodup_append]
      refine ⟨c.nodup_inFlight, h.nodup_done, ?_⟩
      rintro a ha b hb rfl
      exact (mem_inFlight.mp ha).2 hb
    · rw [List.mem_append, mem_inFlight, List.mem_range]
      constructor
      · rintro (⟨hn, -⟩ | hn)
        · exact hn
        · exact (h.done_subset hn).trans_le h.received_le
      · intro hn
        by_cases hd : n ∈ c.done
        · exact Or.inr hd
        · exact Or.inl ⟨hn, hd⟩
  have hlen := hsplit.length_eq
  have := h.delivered_le
  simp only [List.length_append, done, List.length_take, List.length_map, List.length_range] at hlen
  omega

theorem inFlight_send (c : Channel Req Cmp) (h : c.Ordered) (r : Req) :
    ({ c with sent := c.sent ++ [r] } : Channel Req Cmp).inFlight =
      c.inFlight ++ [c.sent.length] := by
  have hnew : c.sent.length ∉ c.done := fun hd =>
    absurd (h.done_subset hd) (by have := h.received_le; omega)
  have hlast : [c.sent.length].filter (fun n => n ∉ c.done) = [c.sent.length] := by
    simp [hnew]
  simp only [inFlight, List.length_append, List.length_cons, List.length_nil, Nat.zero_add,
    List.range_succ, List.filter_append]
  exact congrArg _ hlast

theorem done_deliver (h : c.completed[c.delivered]? = some (n, v)) :
    ({ c with delivered := c.delivered + 1 } : Channel Req Cmp).done = c.done ++ [n] := by
  simp [done, List.take_add_one, h]

theorem inFlight_deliver (h : c.completed[c.delivered]? = some (n, v)) :
    ({ c with delivered := c.delivered + 1 } : Channel Req Cmp).inFlight = c.inFlight.erase n := by
  rw [List.Nodup.erase_eq_filter c.nodup_inFlight]
  simp only [inFlight, done_deliver h, List.filter_filter]
  refine List.filter_congr fun m _ => ?_
  by_cases hm : m = n <;> simp [hm]

/-- The completions that are not delivered are of requests in flight. -/
theorem Ordered.mem_inFlight_of_mem_drop (h : c.Ordered)
    (hv : (n, v) ∈ c.completed.drop c.delivered) : n ∈ c.inFlight := by
  have hmem : n ∈ (c.completed.map Prod.fst).drop c.delivered := by
    rw [← List.map_drop, List.mem_map]
    exact ⟨_, hv, rfl⟩
  have hlt := (h.lt n (List.mem_of_mem_drop hmem)).trans_le h.received_le
  refine mem_inFlight.mpr ⟨hlt, fun hd => ?_⟩
  have hnd := h.nodup
  rw [← List.take_append_drop c.delivered (c.completed.map Prod.fst), List.nodup_append] at hnd
  exact hnd.2.2 n hd n hmem rfl

theorem mem_drop_of_next (hv : c.completed[c.delivered]? = some (n, v)) :
    (n, v) ∈ c.completed.drop c.delivered := by
  rw [List.mem_iff_getElem?]
  exact ⟨0, by simp [hv]⟩

theorem Ordered.mem_inFlight_of_next (h : c.Ordered)
    (hv : c.completed[c.delivered]? = some (n, v)) : n ∈ c.inFlight :=
  h.mem_inFlight_of_mem_drop (mem_drop_of_next hv)

end

end Channel

end Arsenal.Lib
