import Arsenal.Kbd.Ring

/-! The ring with one producer: what the shell pops are the bytes pushed, in their order and without
those that `DROPPED` counts. -/

namespace Arsenal.Kbd

open Relation

namespace State

variable {s s' : State} {p : Producer}

namespace Inv

theorem nodup (h : s.Inv) : (s.stored ++ (s.lost.map Prod.fst ++ s.opened)).Nodup :=
  h.places.nodup_iff.mpr List.nodup_range

/-- The calls that stored are those that are over and were not dropped. -/
theorem stored_eq (h : s.Inv) : s.stored = (List.range s.calls.length).filter fun n =>
    n ∉ s.lost.map Prod.fst ∧ n ∉ s.opened := by
  obtain ⟨hnodup, -, hapart⟩ := List.nodup_append.mp h.nodup
  have hsorted := (List.pairwise_lt_range (n := s.calls.length)).filter fun n =>
    decide (n ∉ s.lost.map Prod.fst ∧ n ∉ s.opened)
  refine List.Perm.eq_of_pairwise' h.sorted hsorted ?_
  refine (List.perm_ext_iff_of_nodup hnodup (List.nodup_range.filter _)).mpr fun n => ?_
  have hmem := h.places.mem_iff (a := n)
  simp only [List.mem_append, List.mem_filter, decide_eq_true_eq] at hmem ⊢
  constructor
  · intro hn
    refine ⟨hmem.mp (Or.inl hn), fun hl => ?_, fun ho => ?_⟩
    · exact hapart n hn n (List.mem_append_left _ hl) rfl
    · exact hapart n hn n (List.mem_append_right _ ho) rfl
  · rintro ⟨hn, hl, ho⟩
    exact ((hmem.mpr hn).resolve_right fun h => h.elim hl ho)

/-- The ring has the bytes that are stored and not popped. -/
theorem unread_eq (h : s.Inv) :
    s.ring.unread = (s.stored.drop s.popped.length).map s.byte := by
  have hcount : (s.ring.head + ringSize - s.ring.tail) % ringSize =
      s.stored.length - s.popped.length := by
    have hle := h.le
    have hroom := h.room
    rw [h.head, h.tail]
    simp only [ringSize] at hroom ⊢
    omega
  refine List.ext_getElem (by simp [KbdRing.unread, hcount]) fun k hk hk' => ?_
  simp only [KbdRing.unread, List.getElem_map, List.getElem_range, List.getElem_drop, h.tail,
    Nat.mod_add_mod]
  exact h.slots _ _ (Nat.le_add_right ..) (List.getElem?_eq_getElem _)

theorem popped_append_unread (h : s.Inv) : s.popped ++ s.ring.unread = s.kept := by
  have hkept : s.kept = s.stored.map s.byte := by rw [kept, ← h.stored_eq]
  rw [hkept, h.unread_eq, ← List.take_append_drop s.popped.length s.stored, List.map_append,
    List.take_append_drop]
  exact congrArg (· ++ _) h.popped

theorem length_unread_lt (h : s.Inv) : s.ring.unread.length < ringSize := by
  have := h.room
  have := h.le
  rw [h.unread_eq, List.length_map, List.length_drop]
  omega

theorem head_lt (h : s.Inv) : s.ring.head < ringSize := h.head ▸ Nat.mod_lt _ (by decide)

theorem tail_lt (h : s.Inv) : s.ring.tail < ringSize := h.tail ▸ Nat.mod_lt _ (by decide)

theorem unread_nil_iff (h : s.Inv) : s.ring.head = s.ring.tail ↔ s.ring.unread = [] := by
  have := h.le
  rw [h.head_eq_tail_iff, h.unread_eq, List.map_eq_nil_iff, List.drop_eq_nil_iff]
  omega

end Inv

end State

/-- A step of the shell or of the producer `p`. -/
def OnlyBy (p : Producer) (s s' : State) : Prop :=
  ∃ a : Act, (a.producer = none ∨ a.producer = some p) ∧ s.Enabled a ∧ s' = s.after a

namespace OnlyBy

variable {s s' : State} {p : Producer}

/-- With one producer, the other one stays out, and no call disturbs another. -/
theorem inv (hrun : ReflTransGen (OnlyBy p) State.init s) : s.Inv := by
  refine (Lib.invariant_of_step (fun s => s.Inv ∧ s.push p.other = .out)
    ⟨State.inv_init, rfl⟩ (fun s s' h hs => ?_) hrun).1
  obtain ⟨hinv, hother⟩ := h
  obtain ⟨a, hby, hen, rfl⟩ := hs
  have hq : a.producer ≠ some p.other := by
    rcases hby with hby | hby <;> rw [hby]
    · exact nofun
    · cases p <;> decide
  refine ⟨hinv.after hen ?_, (State.push_after hq).trans hother⟩
  rintro ⟨rfl, hwin, -⟩
  have hp : p = .handler := by
    rcases hby with hby | hby <;> cases hby
    rfl
  subst hp
  have hout : s.push .inject = .out := hother
  rw [hout] at hwin
  cases hwin

end OnlyBy

/-- In every interleaving of one producer and the shell, the bytes popped and those in the ring are
the bytes of the calls that are over and did not increment `DROPPED`, in the order of the calls.
The ring has at most 255 of them, and a call increments `DROPPED` only if it had that many when the
call loaded `tail`; a pop returns nothing only if there are none; and no slot is read while it is
written. -/
theorem single_producer {p : Producer} {s : State}
    (hrun : ReflTransGen (OnlyBy p) State.init s) :
    s.popped ++ s.ring.unread = s.kept ∧ s.ring.unread.length ≤ 255 ∧
      s.ring.head < 256 ∧ s.ring.tail < 256 ∧
      (∀ x ∈ s.lost, x.2 = 255) ∧ s.ring.dropped = UInt64.ofNat s.lost.length ∧
      (∀ tail, s.pop = .loadHead tail → (s.ring.head = tail ↔ s.ring.unread = [])) ∧
      (∀ n b head, s.push p = .write n b head → head < 256) ∧
      (∀ tail, s.pop = .read tail → tail < 256) ∧
      ∀ n b head tail, s.push p = .write n b head → s.pop = .read tail → head ≠ tail := by
  have h := OnlyBy.inv hrun
  have hwrite : ∀ n b head, s.push p = .write n b head → head = s.ring.head := by
    intro n b head hpc
    have hok := h.push p
    rw [hpc] at hok
    exact hok.1.1
  have hread : ∀ tail, s.pop = .read tail →
      tail = s.ring.tail ∧ s.popped.length < s.stored.length := by
    intro tail hpc
    have hok := h.pop
    rw [hpc] at hok
    exact hok
  refine ⟨h.popped_append_unread, Nat.le_of_lt_succ h.length_unread_lt, h.head_lt, h.tail_lt,
    h.full, h.dropped, ?_, ?_, ?_, ?_⟩
  · intro tail hpc
    have htail := h.pop
    rw [hpc] at htail
    rw [htail]
    exact h.unread_nil_iff
  · intro n b head hpc
    exact hwrite n b head hpc ▸ h.head_lt
  · intro tail hpc
    exact (hread tail hpc).1 ▸ h.tail_lt
  · intro n b head tail hpc hpop heq
    obtain ⟨htail, hlt⟩ := hread tail hpop
    rw [hwrite n b head hpc, htail, h.head_eq_tail_iff] at heq
    omega

/-- Two bytes are pushed, and one is popped. -/
theorem single_producer_two : ∃ s, ReflTransGen (OnlyBy .inject) State.init s ∧
    s.popped = [0x61] ∧ s.popped ++ s.ring.unread = s.kept ∧ s.kept = [0x61, 0x62] := by
  have step : ∀ {s s' : State}, ReflTransGen (OnlyBy .inject) State.init s → ∀ a : Act,
      (a.producer = none ∨ a.producer = some .inject) → s.Enabled a → s' = s.after a →
      ReflTransGen (OnlyBy .inject) State.init s' :=
    fun hrun a hby hen heq => hrun.tail ⟨a, hby, hen, heq⟩
  have h := step .refl (.call .inject 0x61) (by decide) (by decide) rfl
  have h := step h (.push .inject) (by decide) (by decide) rfl
  have h := step h (.push .inject) (by decide) (by decide) rfl
  have h := step h (.push .inject) (by decide) (by decide) rfl
  have h := step h (.call .inject 0x62) (by decide) (by decide) rfl
  have h := step h .pop (by decide) (by decide) rfl
  have h := step h (.push .inject) (by decide) (by decide) rfl
  have h := step h .pop (by decide) (by decide) rfl
  have h := step h (.push .inject) (by decide) (by decide) rfl
  have h := step h .pop (by decide) (by decide) rfl
  have h := step h (.push .inject) (by decide) (by decide) rfl
  have h := step h .pop (by decide) (by decide) rfl
  exact ⟨_, h, by decide, (single_producer h).1, by decide⟩

end Arsenal.Kbd
