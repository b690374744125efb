import Mathlib.Algebra.Order.Group.Nat
import Mathlib.Data.List.Basic
import Mathlib.Data.Nat.ModEq
import Mathlib.Logic.Function.Basic

/-! Rings whose entries carry a cycle bit.  The producer fills the slots cyclically and flips the
bit with every wrap; the consumer takes an entry when its bit is the one of the lap it is in. -/

namespace Arsenal.Lib

/-- The cycle bit at position `k` of a ring of `n` slots: set in the first lap. -/
def lap (n k : ℕ) : Bool := k / n % 2 == 0

theorem lap_of_lt {n k : ℕ} (h : k < n) : lap n k = true := by
  rw [lap, Nat.div_eq_of_lt h]
  rfl

theorem lap_add_self {n : ℕ} (hn : 0 < n) (k : ℕ) : lap n (k + n) = !lap n k := by
  rw [lap, lap, Nat.add_div_right k hn]
  rcases Nat.mod_two_eq_zero_or_one (k / n) with h | h
  · rw [h, Nat.add_mod, h]
    rfl
  · rw [h, Nat.add_mod, h]
    rfl

/-- The next position is in the same lap unless it is the first of the next one. -/
theorem lap_succ {n : ℕ} (hn : 0 < n) (k : ℕ) :
    lap n (k + 1) = if k % n + 1 = n then !lap n k else lap n k := by
  have hk := Nat.div_add_mod k n
  have hlt := Nat.mod_lt k hn
  split
  · rename_i hwrap
    have hnext : k + 1 = k / n * n + n := by rw [Nat.mul_comm]; omega
    have hbase : lap n (k / n * n) = lap n k := by
      rw [lap, lap, Nat.mul_div_cancel _ hn]
    rw [hnext, lap_add_self hn, hbase]
  · rename_i hwrap
    have hdiv : (k + 1) / n = k / n := by
      refine Nat.div_eq_of_lt_le ?_ ?_
      · rw [Nat.mul_comm]; omega
      · rw [Nat.succ_mul, Nat.mul_comm]; omega
    rw [lap, lap, hdiv]

theorem succ_mod {n : ℕ} (hn : 0 < n) (k : ℕ) :
    (k + 1) % n = if k % n + 1 = n then 0 else k % n + 1 := by
  have hlt := Nat.mod_lt k hn
  rw [← Nat.mod_add_mod]
  split
  · rename_i hwrap
    rw [hwrap, Nat.mod_self]
  · exact Nat.mod_eq_of_lt (by omega)

/-- The bit of the next position, as one sees it from the next index. -/
theorem lap_next {n : ℕ} (hn : 0 < n) (k : ℕ) :
    (if (k % n + 1) % n = 0 then !lap n k else lap n k) = lap n (k + 1) := by
  have hlt := Nat.mod_lt k hn
  rw [lap_succ hn]
  by_cases hwrap : k % n + 1 = n
  · rw [if_pos hwrap, if_pos (by rw [hwrap, Nat.mod_self])]
  · rw [if_neg hwrap, if_neg (by rw [Nat.mod_eq_of_lt (by omega)]; omega)]

/-- All positions of a lap carry the bit of the lap. -/
theorem lap_mul_add {n r : ℕ} (hr : r < n) (q : ℕ) : lap n (n * q + r) = lap 1 q := by
  rw [lap, lap, Nat.mul_add_div (by omega), Nat.div_eq_of_lt hr, Nat.div_one, Nat.add_zero]

section

variable {α β : Type*}

/-- The first entries of a list and the next one are its first entries. -/
theorem concat_of_getElem? {l m : List α} {a : α} (h : l <+: m) (ha : m[l.length]? = some a) :
    l ++ [a] <+: m := by
  obtain ⟨rest, rfl⟩ := h
  rw [List.getElem?_append_right le_rfl, Nat.sub_self] at ha
  cases rest with
  | nil => cases ha
  | cons b rest =>
    obtain rfl := Option.some_inj.mp ha
    exact ⟨rest, by rw [List.append_assoc, List.singleton_append]⟩

/-- The slots hold the last `n` of the events, each stamped with the bit of its position; a slot
that was never filled has a clear bit. -/
structure Laid (n : ℕ) (stamp : Bool → α → β) (cycle : β → Bool) (slot : ℕ → β)
    (events : List α) : Prop where
  filled : ∀ k e, events[k]? = some e → events.length ≤ k + n →
    slot (k % n) = stamp (lap n k) e
  empty : ∀ i, events.length ≤ i → i < n → cycle (slot i) = false

variable {n : ℕ} {stamp : Bool → α → β} {cycle : β → Bool} {slot : ℕ → β} {events : List α}

/-- Only the slots of the ring matter. -/
theorem Laid.congr {slot' : ℕ → β} (h : Laid n stamp cycle slot events) (hn : 0 < n)
    (hslot : ∀ i < n, slot' i = slot i) : Laid n stamp cycle slot' events :=
  ⟨fun k e hk hwindow => (hslot _ (Nat.mod_lt k hn)).trans (h.filled k e hk hwindow),
    fun i hi hin => hslot i hin ▸ h.empty i hi hin⟩

theorem Laid.post (h : Laid n stamp cycle slot events) (e : α) :
    Laid n stamp cycle (Function.update slot (events.length % n)
      (stamp (lap n events.length) e)) (events ++ [e]) := by
  refine ⟨fun k a hk hwindow => ?_, fun i hi hin => ?_⟩
  · rw [List.length_append, List.length_singleton] at hwindow
    by_cases hlast : k = events.length
    · subst hlast
      rw [List.getElem?_concat_length, Option.some_inj] at hk
      rw [Function.update_self, hk]
    · have hlt : k < events.length := by
        have := (List.getElem?_eq_some_iff.mp hk).1
        rw [List.length_append, List.length_singleton] at this
        omega
      rw [List.getElem?_append_left hlt] at hk
      -- Less than a lap apart, the two positions are different slots.
      have hne : k % n ≠ events.length % n := by
        intro heq
        have hdvd : n ∣ events.length - k := (Nat.modEq_iff_dvd' hlt.le).mp heq
        have := Nat.le_of_dvd (by omega) hdvd
        omega
      rw [Function.update_of_ne hne]
      exact h.filled k a hk (by omega)
  · rw [List.length_append, List.length_singleton] at hi
    have hmod : events.length % n = events.length := Nat.mod_eq_of_lt (by omega)
    rw [hmod, Function.update_of_ne (by omega)]
    exact h.empty i (by omega) hin

/-- A consumer at most one lap behind finds its bit exactly when there is an event for it. -/
theorem Laid.cycle_eq_iff (h : Laid n stamp cycle slot events)
    (hstamp : ∀ b a, cycle (stamp b a) = b) (hn : 0 < n) {c : ℕ} (hc : c ≤ events.length)
    (hwindow : events.length ≤ c + n) :
    cycle (slot (c % n)) = lap n c ↔ c < events.length := by
  constructor
  · intro hcycle
    by_contra hge
    obtain rfl : c = events.length := by omega
    by_cases hfirst : events.length < n
    · rw [Nat.mod_eq_of_lt hfirst, h.empty _ le_rfl hfirst, lap_of_lt hfirst] at hcycle
      cases hcycle
    · obtain ⟨e, he⟩ : ∃ e, events[events.length - n]? = some e :=
        ⟨_, List.getElem?_eq_getElem (by omega)⟩
      have hslot := h.filled _ e he (by omega)
      have hback : events.length - n + n = events.length := by omega
      have hmod : (events.length - n) % n = events.length % n := by
        conv_rhs => rw [← hback, Nat.add_mod_right]
      rw [← hmod, hslot, hstamp] at hcycle
      have hflip := lap_add_self hn (events.length - n)
      rw [hback, ← hcycle] at hflip
      cases hl : lap n (events.length - n) <;> rw [hl] at hflip <;> cases hflip
  · intro hlt
    rw [h.filled c _ (List.getElem?_eq_getElem hlt) hwindow, hstamp]

/-- The slot of a position that was filled holds the last event that was posted there. -/
theorem Laid.exists_last (h : Laid n stamp cycle slot events) (hn : 0 < n) {k : ℕ}
    (hk : k < events.length) :
    ∃ m e, events[m]? = some e ∧ m % n = k % n ∧ m < events.length ∧ events.length ≤ m + n ∧
      slot (k % n) = stamp (lap n m) e := by
  -- Whole laps on from `k`, as long as there are events.
  let m := k + n * ((events.length - 1 - k) / n)
  have hdiv := Nat.div_add_mod (events.length - 1 - k) n
  have hrest := Nat.mod_lt (events.length - 1 - k) hn
  have hmod : m % n = k % n := Nat.add_mul_mod_self_left ..
  have hlt : m < events.length := by omega
  have hlast : events.length ≤ m + n := by omega
  refine ⟨m, events.get ⟨m, hlt⟩, List.getElem?_eq_getElem hlt, hmod, hlt, hlast, ?_⟩
  rw [← hmod]
  exact h.filled m _ (List.getElem?_eq_getElem hlt) hlast

end

end Arsenal.Lib
