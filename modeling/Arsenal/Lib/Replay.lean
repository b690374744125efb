import Mathlib.Data.List.Infix
import Mathlib.Data.List.Basic

/-! Memory behind a store buffer.  A single writer issues stores in program order; under total store
order another agent sees the memory after some prefix of them.  `replay` is that memory, and
`OnPrefixes` says that a property holds at every memory the other agent can see. -/

namespace Arsenal.Lib

variable {Mem Store : Type*} (apply : Mem → Store → Mem)

/-- The memory after the stores of `log`, in order, from `m`. -/
def replay (m : Mem) (log : List Store) : Mem := log.foldl apply m

@[simp] theorem replay_nil (m : Mem) : replay apply m [] = m := rfl

@[simp] theorem replay_append (m : Mem) (log log' : List Store) :
    replay apply m (log ++ log') = replay apply (replay apply m log) log' :=
  List.foldl_append ..

@[simp] theorem replay_cons (m : Mem) (s : Store) (log : List Store) :
    replay apply m (s :: log) = replay apply (apply m s) log := rfl

/-- `P` holds of every prefix of the issued stores and of the memory that it leaves. -/
def OnPrefixes (P : List Store → Mem → Prop) (m : Mem) (log : List Store) : Prop :=
  ∀ l, l <+: log → P l (replay apply m l)

variable {apply} {P Q : List Store → Mem → Prop} {m : Mem} {log : List Store}

theorem OnPrefixes.full (h : OnPrefixes apply P m log) : P log (replay apply m log) :=
  h log (List.prefix_refl log)

theorem OnPrefixes.take (h : OnPrefixes apply P m log) (n : ℕ) :
    P (log.take n) (replay apply m (log.take n)) :=
  h _ (List.take_prefix n log)

theorem OnPrefixes.mono (h : OnPrefixes apply P m log)
    (hPQ : ∀ l, l <+: log → P l (replay apply m l) → Q l (replay apply m l)) :
    OnPrefixes apply Q m log :=
  fun l hl => hPQ l hl (h l hl)

theorem onPrefixes_nil (h : P [] m) : OnPrefixes apply P m [] := by
  intro l hl
  rw [List.prefix_nil.mp hl]
  exact h

/-- Issuing one more store adds one more memory that can be seen. -/
theorem OnPrefixes.snoc (h : OnPrefixes apply P m log) {s : Store}
    (hs : P (log ++ [s]) (apply (replay apply m log) s)) :
    OnPrefixes apply P m (log ++ [s]) := by
  intro l hl
  rcases List.prefix_concat_iff.mp hl with rfl | hOld
  · simpa using hs
  · exact h l hOld

theorem OnPrefixes.append (h : OnPrefixes apply P m log) {stores : List Store}
    (hs : ∀ l s m', s ∈ stores → P l m' → P (l ++ [s]) (apply m' s)) :
    OnPrefixes apply P m (log ++ stores) := by
  induction stores generalizing log with
  | nil => simpa using h
  | cons s rest ih =>
    have hFirst := h.snoc (hs _ s _ (by simp) h.full)
    rw [show log ++ s :: rest = log ++ [s] ++ rest by simp]
    exact ih hFirst fun l s' m' hMem => hs l s' m' (List.mem_cons_of_mem _ hMem)

end Arsenal.Lib
