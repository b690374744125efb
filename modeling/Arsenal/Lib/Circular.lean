import Mathlib.Data.List.Nodup
import Mathlib.Data.List.Rotate

/-! Circular doubly linked lists, as the values of two link functions.  A circle can be read from
any of its elements, so one rule for an element linked in after the first one and one for the first
element unlinked cover all places. -/

namespace Arsenal.Lib

variable {α : Type*}

/-- The successors of the elements of `c` are its elements from the second one on and then the
first one, and the predecessors of those are the elements of `c`. -/
structure Circle (next prev : α → Option α) (c : List α) : Prop where
  next : c.map next = (c.rotate 1).map some
  prev : (c.rotate 1).map prev = c.map some

namespace Circle

variable {next prev next' prev' : α → Option α} {a b p q x : α} {c : List α}

theorem rotate (h : Circle next prev c) (k : ℕ) : Circle next prev (c.rotate k) := by
  have hswap : (c.rotate k).rotate 1 = (c.rotate 1).rotate k := by
    rw [List.rotate_rotate, List.rotate_rotate, Nat.add_comm]
  constructor
  · rw [hswap, List.map_rotate, h.next, ← List.map_rotate]
  · rw [hswap, List.map_rotate, h.prev, ← List.map_rotate]

theorem isRotated {c' : List α} (h : Circle next prev c) (hc : c ~r c') : Circle next prev c' := by
  obtain ⟨k, rfl⟩ := hc
  exact h.rotate k

theorem congr (h : Circle next prev c) (hnext : ∀ a ∈ c, next' a = next a)
    (hprev : ∀ a ∈ c, prev' a = prev a) : Circle next' prev' c := by
  constructor
  · rw [← h.next]
    exact List.map_congr_left hnext
  · rw [← h.prev]
    exact List.map_congr_left fun a ha => hprev a (List.mem_rotate.mp ha)

theorem single (hnext : next a = some a) (hprev : prev a = some a) : Circle next prev [a] :=
  ⟨by simp [hnext], by simp [hprev]⟩

theorem cons_iff : Circle next prev (a :: c) ↔
    (a :: c).map next = (c ++ [a]).map some ∧ (c ++ [a]).map prev = (a :: c).map some := by
  have hrotate : (a :: c).rotate 1 = c ++ [a] := by simp
  rw [← hrotate]
  exact ⟨fun h => ⟨h.next, h.prev⟩, fun h => ⟨h.1, h.2⟩⟩

/-- The first element links to the second one, or to itself if it is the only one. -/
theorem next_head (h : Circle next prev (a :: c)) : next a = (c ++ [a]).head? := by
  have hnext := congrArg List.head? (cons_iff.mp h).1
  rw [List.head?_map, List.head?_map] at hnext
  cases c with
  | nil => simpa using hnext
  | cons b c => simpa using hnext

/-- The first element links back to the last one. -/
theorem prev_head (h : Circle next prev (a :: c)) : prev a = (a :: c).getLast? := by
  have hprev := congrArg List.getLast? (cons_iff.mp h).2
  rw [List.getLast?_map, List.getLast?_map, List.getLast?_append, List.getLast?_singleton] at hprev
  cases hlast : (a :: c).getLast? with
  | none => simp at hlast
  | some b => simpa [hlast] using hprev

/-- The first element of a circle that has others links to others. -/
theorem neighbours (h : Circle next prev (a :: c)) (hc : c ≠ []) :
    (∃ q ∈ c, next a = some q) ∧ ∃ p ∈ c, prev a = some p := by
  constructor
  · obtain ⟨q, t, rfl⟩ := List.exists_cons_of_ne_nil hc
    exact ⟨q, List.mem_cons_self .., by simpa using h.next_head⟩
  · obtain ⟨i, p, rfl⟩ := (List.eq_nil_or_concat' c).resolve_left hc
    refine ⟨p, by simp, ?_⟩
    rw [h.prev_head, ← List.cons_append]
    exact List.getLast?_concat

/-- The link from `a` and the link back to it join the same two elements. -/
theorem next_mem (h : Circle next prev c) (ha : a ∈ c) :
    ∃ b ∈ c, next a = some b ∧ prev b = some a := by
  obtain ⟨i, hi, rfl⟩ := List.getElem_of_mem ha
  have hi' : i < (c.rotate 1).length := by rwa [List.length_rotate]
  refine ⟨(c.rotate 1)[i], List.mem_rotate.mp (List.getElem_mem hi'), ?_, ?_⟩
  · have hnext := congrArg (fun l => l[i]?) h.next
    simpa [hi, hi'] using hnext
  · have hprev := congrArg (fun l => l[i]?) h.prev
    simpa [hi, hi'] using hprev

theorem prev_mem (h : Circle next prev c) (hb : b ∈ c) :
    ∃ a ∈ c, prev b = some a ∧ next a = some b := by
  obtain ⟨i, hi, rfl⟩ := List.getElem_of_mem (List.mem_rotate (n := 1) |>.mpr hb)
  have hi' : i < c.length := by rwa [List.length_rotate] at hi
  refine ⟨c.get ⟨i, hi'⟩, List.get_mem c ⟨i, hi'⟩, ?_, ?_⟩
  · have hprev := congrArg (fun l => l[i]?) h.prev
    simpa [hi, hi'] using hprev
  · have hnext := congrArg (fun l => l[i]?) h.next
    simpa [hi, hi'] using hnext

/-- Each of the two links undoes the other. -/
theorem next_iff_prev (h : Circle next prev c) (ha : a ∈ c) (hb : b ∈ c) :
    next a = some b ↔ prev b = some a := by
  constructor
  · intro hnext
    obtain ⟨b', -, hb', hprev⟩ := h.next_mem ha
    rw [hnext, Option.some_inj] at hb'
    exact hb' ▸ hprev
  · intro hprev
    obtain ⟨a', -, ha', hnext⟩ := h.prev_mem hb
    rw [hprev, Option.some_inj] at ha'
    exact ha' ▸ hnext

/-- `x` linked in after the first element. -/
theorem insert (h : Circle next prev (p :: c)) (hnodup : (p :: c).Nodup) (hq : next p = some q)
    (hp' : next' p = some x) (hx' : next' x = some q) (hnext : ∀ a ∈ c, next' a = next a)
    (hx : prev' x = some p) (hq' : prev' q = some x)
    (hprev : ∀ a ∈ p :: c, a ≠ q → prev' a = prev a) : Circle next' prev' (p :: x :: c) := by
  obtain ⟨hold, hback⟩ := cons_iff.mp h
  obtain ⟨t, ht⟩ : ∃ t, c ++ [p] = q :: t := by
    rw [← List.head?_eq_some_iff, ← h.next_head, hq]
  have htq : q ∉ t := by
    have : (c ++ [p]).Nodup := (List.perm_append_singleton p c).nodup_iff.mpr hnodup
    rw [ht] at this
    exact (List.nodup_cons.mp this).1
  have htc : ∀ a ∈ t, a ∈ p :: c := by
    intro a ha
    rw [← (List.perm_append_singleton p c).mem_iff, ht]
    exact List.mem_cons_of_mem _ ha
  rw [ht, List.map_cons, List.map_cons, List.cons.injEq] at hback
  rw [cons_iff]
  constructor
  · calc (p :: x :: c).map next' = some x :: next p :: c.map next := by
          rw [List.map_cons, List.map_cons, hp', hx', hq, List.map_congr_left hnext]
      _ = (x :: c ++ [p]).map some := by
          rw [← List.map_cons, hold]
          rfl
  · calc (x :: c ++ [p]).map prev' = some p :: some x :: t.map prev := by
          rw [List.cons_append, ht, List.map_cons, List.map_cons, hx, hq']
          congr 2
          exact List.map_congr_left fun a ha =>
            hprev a (htc a ha) fun heq => htq (heq ▸ ha)
      _ = (p :: x :: c).map some := by
          rw [hback.2]
          rfl

/-- The first element unlinked from a circle that has others. -/
theorem remove (h : Circle next prev (x :: c)) (hnodup : (x :: c).Nodup) (hc : c ≠ [])
    (hq : next x = some q) (hp : prev x = some p) (hp' : next' p = some q)
    (hnext : ∀ a ∈ c, a ≠ p → next' a = next a) (hq' : prev' q = some p)
    (hprev : ∀ a ∈ c, a ≠ q → prev' a = prev a) : Circle next' prev' c := by
  obtain ⟨hold, hback⟩ := cons_iff.mp h
  obtain ⟨t, rfl⟩ : ∃ t, c = q :: t := by
    have hhead := h.next_head
    rw [hq] at hhead
    cases c with
    | nil => exact absurd rfl hc
    | cons b t =>
      simp only [List.cons_append, List.head?_cons, Option.some_inj] at hhead
      exact ⟨t, by rw [hhead]⟩
  obtain ⟨i, hi⟩ : ∃ i, q :: t = i ++ [p] := by
    have hlast := h.prev_head
    rw [hp, List.getLast?_cons_cons] at hlast
    exact List.getLast?_eq_some_iff.mp hlast.symm
  have hnodup' := (List.nodup_cons.mp hnodup).2
  have hip : p ∉ i := by
    have : (i ++ [p]).Nodup := hi ▸ hnodup'
    rw [(List.perm_append_singleton p i).nodup_iff] at this
    exact (List.nodup_cons.mp this).1
  have htq := (List.nodup_cons.mp hnodup').1
  -- The links of the old circle, without those at `x`.
  have hforth : i.map next = t.map some := by
    have htail : (q :: t).map next = (t ++ [x]).map some := List.tail_eq_of_cons_eq hold
    rw [hi, List.map_append, List.map_append] at htail
    exact (List.append_inj' htail rfl).1
  have hback : t.map prev = i.map some := by
    have htail : (t ++ [x]).map prev = (q :: t).map some := List.tail_eq_of_cons_eq hback
    rw [hi, List.map_append, List.map_append] at htail
    exact (List.append_inj' htail rfl).1
  rw [cons_iff]
  constructor
  · calc (q :: t).map next' = i.map next ++ [some q] := by
          rw [hi, List.map_append, List.map_singleton, hp']
          congr 1
          refine List.map_congr_left fun a ha => hnext a ?_ fun heq => hip (heq ▸ ha)
          exact hi ▸ List.mem_append_left _ ha
      _ = (t ++ [q]).map some := by rw [hforth, List.map_append, List.map_singleton]
  · calc (t ++ [q]).map prev' = t.map prev ++ [some p] := by
          rw [List.map_append, List.map_singleton, hq']
          congr 1
          exact List.map_congr_left fun a ha =>
            hprev a (List.mem_cons_of_mem _ ha) fun heq => htq (heq ▸ ha)
      _ = (q :: t).map some := by rw [hback, hi, List.map_append, List.map_singleton]

end Circle

end Arsenal.Lib
