import Arsenal.Kbd.Single
import Arsenal.Lib.Temporal

/-! The ring with the interrupt handler and the USB poller as its producers, in infinite runs.  A
handler that stores a byte after `inject` has loaded `head` has its byte overwritten; without that,
each byte is popped once or counted once. -/

namespace Arsenal.Kbd

open Lib

/-! ### What a step can do -/

namespace State

variable {s : State} {a : Act} {p : Producer} {n k : ℕ}

/-- The lists of what has happened only grow. -/
theorem grows (s : State) (a : Act) :
    s.calls <+: (s.after a).calls ∧ s.stored <+: (s.after a).stored ∧
      s.lost <+: (s.after a).lost ∧ s.popped <+: (s.after a).popped := by
  cases a with
  | call p b => exact ⟨List.prefix_append .., List.prefix_rfl, List.prefix_rfl, List.prefix_rfl⟩
  | push p =>
    cases hpc : s.push p <;> simp only [after, hpc, ringPush] <;> try split
    all_goals simp [goto]
  | pop =>
    cases hpc : s.pop <;> simp only [after, hpc, ringPop] <;> try split
    all_goals simp

/-- A call comes to its end by storing or by dropping its byte. -/
theorem settles (hen : s.Enabled a) (hopen : (s.push p).call = some n)
    (hclosed : ((s.after a).push p).call ≠ some n) :
    n ∈ (s.after a).stored ∨ n ∈ (s.after a).lost.map Prod.fst := by
  have hp : a.producer = some p := by
    by_contra hne
    rw [push_after hne] at hclosed
    exact hclosed hopen
  cases a with
  | pop => cases hp
  | call q b =>
    cases hp
    rw [hen.1] at hopen
    cases hopen
  | push q =>
    cases hp
    cases hpc : s.push p with
    | out => exact absurd hpc hen.1
    | loadTail m b head =>
      rw [hpc] at hopen
      refine absurd ?_ hclosed
      simp only [after, hpc, ringPush]
      split <;> simpa [goto, PushPc.call] using hopen
    | drop m unread =>
      rw [hpc] at hopen
      cases hopen
      right
      simp [after, hpc, ringPush, goto]
    | write m b head =>
      rw [hpc] at hopen
      refine absurd ?_ hclosed
      simpa [after, hpc, ringPush, goto, PushPc.call] using hopen
    | publish m head =>
      rw [hpc] at hopen
      cases hopen
      left
      simp [after, hpc, ringPush, goto]

theorem pop_after (h : a ≠ .pop) : (s.after a).pop = s.pop ∧ (s.after a).popped = s.popped := by
  cases a with
  | call p b => exact ⟨rfl, rfl⟩
  | push p =>
    cases hpc : s.push p <;> simp only [after, hpc, ringPush] <;> try split
    all_goals simp [goto]
  | pop => exact absurd rfl h

end State

/-- How many steps the shell is from the end of its `ring_pop`. -/
def PopPc.rank : PopPc → ℕ
  | .out => 3
  | .loadHead _ => 2
  | .read _ => 1
  | .publish _ _ => 0

namespace State

variable {s : State} {n k : ℕ}

/-- How many steps the shell is from the pop of the byte that was stored as number `k`. -/
def steps (s : State) (k : ℕ) : ℕ := 4 * (k + 1 - s.popped.length) + s.pop.rank

theorem Inv.steps_lt (h : s.Inv) (hk : s.popped.length ≤ k) (hlt : k < s.stored.length) :
    (s.after .pop).steps k < s.steps k := by
  cases hpc : s.pop with
  | out => simp [State.after, hpc, ringPop, steps, PopPc.rank]
  | loadHead tail =>
    -- There is a byte, so the pop does not return without one.
    have htail : s.PopOk (.loadHead tail) := hpc ▸ h.pop
    have hne : s.ring.head ≠ tail := by
      intro heq
      have := h.head_eq_tail_iff.mp (heq.trans htail)
      omega
    simp [State.after, hpc, ringPop, hne, steps, PopPc.rank]
  | read tail => simp [State.after, hpc, ringPop, steps, PopPc.rank]
  | publish b tail =>
    simp only [State.after, hpc, ringPop, steps, PopPc.rank, List.length_append,
      List.length_singleton]
    omega

/-- The calls whose byte has been popped or counted. -/
def settled (s : State) : List ℕ := s.taken ++ s.lost.map Prod.fst

theorem settled_mono {s' : State} (hstored : s.stored <+: s'.stored) (hlost : s.lost <+: s'.lost)
    (hpopped : s.popped <+: s'.popped) (hn : n ∈ s.settled) : n ∈ s'.settled := by
  rcases List.mem_append.mp hn with hn | hn
  · refine List.mem_append_left _ ?_
    obtain ⟨more, hmore⟩ := hstored
    rw [taken, ← hmore]
    have htake : s.taken <+: (s.stored ++ more).take s'.popped.length := by
      refine List.prefix_take_iff.mpr ⟨(List.take_prefix ..).trans (List.prefix_append ..), ?_⟩
      exact (List.length_take_le ..).trans hpopped.length_le
    exact htake.subset hn
  · exact List.mem_append_right _ ((hlost.map _).subset hn)

theorem Inv.settled_nodup (h : s.Inv) : s.settled.Nodup := by
  refine h.nodup.sublist ?_
  rw [settled, ← List.append_assoc]
  exact ((List.take_sublist ..).append (List.Sublist.refl _)).trans (List.sublist_append_left ..)

end State

/-! ### Runs -/

/-- An infinite run from the empty ring. -/
structure Run where
  state : ℕ → State
  act : ℕ → Act
  start : state 0 = .init
  enabled : ∀ t, (state t).Enabled (act t)
  next : ∀ t, state (t + 1) = (state t).after (act t)

namespace Run

variable {r : Run} {t n k : ℕ}

/-- The shell keeps popping, and every call of `ring_push` comes to its end. -/
structure Fair (r : Run) : Prop where
  pops : ∀ t, ∃ u, t ≤ u ∧ r.act u = .pop
  returns : ∀ t p, ∃ u, t ≤ u ∧ (r.state u).push p = .out

/-- The handler never finds room while a call of `inject` has loaded `head` and may still store
it. -/
def Undisturbed (r : Run) : Prop := ∀ t, ¬(r.state t).Disturbs (r.act t)

theorem inv (hgood : r.Undisturbed) (t : ℕ) : (r.state t).Inv := by
  induction t with
  | zero => exact r.start ▸ State.inv_init
  | succ t ih => exact r.next t ▸ ih.after (r.enabled t) (hgood t)

theorem grows (r : Run) {u : ℕ} (htu : t ≤ u) :
    (r.state t).calls <+: (r.state u).calls ∧ (r.state t).stored <+: (r.state u).stored ∧
      (r.state t).lost <+: (r.state u).lost ∧ (r.state t).popped <+: (r.state u).popped := by
  induction u, htu using Nat.le_induction with
  | base => exact ⟨List.prefix_rfl, List.prefix_rfl, List.prefix_rfl, List.prefix_rfl⟩
  | succ u _ ih =>
    obtain ⟨hcalls, hstored, hlost, hpopped⟩ := (r.state u).grows (r.act u)
    rw [r.next u]
    exact ⟨ih.1.trans hcalls, ih.2.1.trans hstored, ih.2.2.1.trans hlost,
      ih.2.2.2.trans hpopped⟩

/-- An open call stores or drops its byte. -/
theorem closes (hfair : r.Fair) {p : Producer} (hopen : ((r.state t).push p).call = some n) :
    ∃ u, t ≤ u ∧ (n ∈ (r.state u).stored ∨ n ∈ (r.state u).lost.map Prod.fst) := by
  obtain ⟨u, htu, hout⟩ := hfair.returns t p
  obtain ⟨v, htv, -, hv, hnext⟩ :=
    exists_exit (P := fun v => ((r.state v).push p).call = some n) htu hopen (by simp [hout])
  refine ⟨v + 1, by omega, ?_⟩
  rw [r.next v] at hnext ⊢
  exact State.settles (r.enabled v) hv hnext

/-- A byte that is stored is popped. -/
theorem pops (hfair : r.Fair) (hgood : r.Undisturbed) (hn : (r.state t).stored[k]? = some n) :
    ∃ u, t ≤ u ∧ n ∈ (r.state u).taken := by
  have hkeep : ∀ u, t ≤ u → (r.state u).stored[k]? = some n := by
    intro u htu
    obtain ⟨more, hmore⟩ := (r.grows htu).2.1
    rw [← hmore, List.getElem?_append_left (List.getElem?_eq_some_iff.mp hn).1, hn]
  have hgoal : ∃ u, t ≤ u ∧ t ≤ u ∧ k < (r.state u).popped.length := by
    refine leads_to_of_rank (P := fun u => t ≤ u) (fun u => (r.state u).steps k) (fun u hu => ?_)
      le_rfl
    -- Until its next step, the shell stays where it is.
    obtain ⟨v, huv, hact, hsame⟩ := holds_until
      (P := fun v => (r.state v).steps k = (r.state u).steps k) (E := fun v => r.act v = .pop)
      (fun v hv hne => by
        obtain ⟨hpop, hpopped⟩ := State.pop_after (s := r.state v) hne
        rw [r.next v, State.steps, hpop, hpopped]
        exact hv) rfl (hfair.pops u)
    by_cases hdone : k < (r.state v).popped.length
    · exact ⟨v, huv, Or.inl ⟨hu.trans huv, hdone⟩⟩
    · refine ⟨v + 1, by omega, Or.inr ⟨by omega, ?_⟩⟩
      have hlt := (List.getElem?_eq_some_iff.mp (hkeep v (hu.trans huv))).1
      rw [r.next v, hact, ← hsame]
      exact (inv hgood v).steps_lt (by omega) hlt
  obtain ⟨u, htu, -, hlt⟩ := hgoal
  refine ⟨u, htu, List.mem_of_getElem? (i := k) ?_⟩
  rw [State.taken, List.getElem?_take_of_lt hlt]
  exact hkeep u htu

/-- A call is settled in the end, and stays so. -/
theorem settles (hfair : r.Fair) (hgood : r.Undisturbed) (hn : n < (r.state t).calls.length) :
    ∃ u, ∀ v, u ≤ v → n ∈ (r.state v).settled := by
  have hmono : ∀ {u}, n ∈ (r.state u).settled → ∃ u, ∀ v, u ≤ v → n ∈ (r.state v).settled := by
    intro u hu
    refine ⟨u, fun v huv => ?_⟩
    obtain ⟨-, hstored, hlost, hpopped⟩ := r.grows huv
    exact State.settled_mono hstored hlost hpopped hu
  have hstored : ∀ {u}, n ∈ (r.state u).stored →
      ∃ u, ∀ v, u ≤ v → n ∈ (r.state v).settled := by
    intro u hu
    obtain ⟨k, hk⟩ := List.mem_iff_getElem?.mp hu
    obtain ⟨v, -, hv⟩ := pops hfair hgood hk
    exact hmono (List.mem_append_left _ hv)
  have hclosed : ∀ {u}, n ∈ (r.state u).stored ∨ n ∈ (r.state u).lost.map Prod.fst →
      ∃ u, ∀ v, u ≤ v → n ∈ (r.state v).settled := by
    rintro u (hu | hu)
    · exact hstored hu
    · exact hmono (List.mem_append_right _ hu)
  have hplace := (inv hgood t).places.mem_iff.mpr (List.mem_range.mpr hn)
  rw [List.mem_append, List.mem_append] at hplace
  rcases hplace with hplace | hplace | hplace
  · exact hstored hplace
  · exact hmono (List.mem_append_right _ hplace)
  · obtain ⟨p, hopen⟩ : ∃ p, ((r.state t).push p).call = some n := by
      rcases List.mem_append.mp hplace with hopen | hopen
      · exact ⟨.handler, Option.mem_toList.mp hopen⟩
      · exact ⟨.inject, Option.mem_toList.mp hopen⟩
    obtain ⟨u, -, hu⟩ := closes hfair hopen
    exact hclosed hu

/-! ### Runs of a script -/

/-- No call is open, and there is nothing to pop. -/
structure Quiet (s : State) : Prop where
  empty : s.ring.head = s.ring.tail
  pop : s.pop = .out ∨ s.pop = .loadHead s.ring.tail
  out : ∀ p, s.push p = .out

theorem Quiet.after {s : State} (h : Quiet s) :
    Quiet (s.after .pop) ∧ (s.after .pop).popped = s.popped ∧
      (s.after .pop).ring = s.ring := by
  obtain ⟨hempty, hpop | hpop, hout⟩ := h
  · have hafter : s.after .pop = { s with pop := .loadHead s.ring.tail } := by
      rw [State.after, hpop, State.ringPop]
    rw [hafter]
    exact ⟨⟨hempty, Or.inr rfl, hout⟩, rfl, rfl⟩
  · have hafter : s.after .pop = { s with pop := .out } := by
      rw [State.after, hpop, State.ringPop, if_pos hempty]
    rw [hafter]
    exact ⟨⟨hempty, Or.inl rfl, hout⟩, rfl, rfl⟩

/-- The run that follows the script, after which the shell polls an empty ring. -/
def ofScript (script : List Act)
    (hen : ∀ t < script.length,
      (scriptState State.after .init .pop script t).Enabled (script.getD t .pop)) : Run where
  state := scriptState State.after .init .pop script
  act := fun t => script.getD t .pop
  start := rfl
  enabled := fun t => by
    rcases Nat.lt_or_ge t script.length with ht | ht
    · exact hen t ht
    · rw [List.getD_eq_default _ _ ht]
      trivial
  next := fun _ => rfl

section

variable {script : List Act} {hen : ∀ t < script.length,
  (scriptState State.after .init .pop script t).Enabled (script.getD t .pop)}

theorem act_ofScript_of_ge (ht : script.length ≤ t) : (ofScript script hen).act t = .pop :=
  List.getD_eq_default _ _ ht

theorem fair_ofScript
    (hquiet : Quiet (scriptState State.after .init .pop script script.length)) :
    (ofScript script hen).Fair where
  pops := fun t => ⟨max t script.length, le_max_left .., act_ofScript_of_ge (le_max_right ..)⟩
  returns := fun t p => ⟨max t script.length, le_max_left ..,
    (scriptState_of_ge State.after .init .pop script (fun _ h => h.after.1) hquiet
      (le_max_right ..)).out p⟩

end

end Run

open Run

/-! ### Both producers -/

/-- In every run in which the handler never finds room while a call of `inject` has loaded `head`
and may still store it, each byte is in the end popped once or counted once in `DROPPED`, and not
both; the bytes are popped in the order of their calls, and so those of one producer in their
order. -/
theorem both_producers (r : Run) (hfair : r.Fair) (hgood : r.Undisturbed) :
    (∀ t n, n < (r.state t).calls.length → ∃ u, ∀ v, u ≤ v → (r.state v).settled.count n = 1) ∧
      ∀ t, (r.state t).popped = (r.state t).taken.map (r.state t).byte ∧
        (r.state t).taken.Pairwise (· < ·) ∧
        (r.state t).ring.dropped = UInt64.ofNat (r.state t).lost.length := by
  refine ⟨fun t n hn => ?_, fun t => ?_⟩
  · obtain ⟨u, hu⟩ := Run.settles hfair hgood hn
    exact ⟨u, fun v huv => List.count_eq_one_of_mem (inv hgood v).settled_nodup (hu v huv)⟩
  · have h := inv hgood t
    exact ⟨h.popped, h.sorted.sublist (List.take_sublist ..), h.dropped⟩

/-- The handler pushes a byte after a call of `inject`, while the shell pops. -/
def turnsScript : List Act :=
  [.call .inject 0x75, .push .inject, .push .inject, .push .inject, .pop, .call .handler 0x70,
    .push .handler, .push .handler, .push .handler, .pop, .pop, .pop, .pop, .pop, .pop, .pop]

def turnsRun : Run := ofScript turnsScript (by decide)

theorem both_producers_turns : ∃ u, ∀ v, u ≤ v → (turnsRun.state v).settled.count 1 = 1 := by
  have hquiet : Quiet (scriptState State.after .init .pop turnsScript turnsScript.length) :=
    ⟨by decide, by decide, fun p => by cases p <;> decide⟩
  have hgood : turnsRun.Undisturbed := by
    intro t
    rcases Nat.lt_or_ge t turnsScript.length with ht | ht
    · have hnone : ∀ t < turnsScript.length, ¬(scriptState State.after .init .pop turnsScript
          t).Disturbs (turnsScript.getD t .pop) := by decide
      exact hnone t ht
    · rintro ⟨hact, -⟩
      rw [turnsRun, act_ofScript_of_ge ht] at hact
      cases hact
  exact (both_producers turnsRun (fair_ofScript hquiet) hgood).1 9 1 (by decide)

/-- The interrupt comes after `inject` has loaded `head` and `tail`. -/
def raceScript : List Act :=
  [.call .inject 0x75, .push .inject, .call .handler 0x70, .push .handler, .push .handler,
    .push .handler, .push .inject, .push .inject, .pop, .pop, .pop, .pop]

def raceRun : Run := ofScript raceScript (by decide)

/-- The byte of the handler is overwritten: it is never popped, and `DROPPED` does not count it. -/
theorem interrupt_overwritten : raceRun.Fair ∧
    (raceRun.state 3).calls = [(.inject, 0x75), (.handler, 0x70)] ∧
      ∀ t, (raceRun.state t).popped <+: [0x75] ∧ (raceRun.state t).ring.dropped = 0 := by
  have hquiet : Quiet (scriptState State.after .init .pop raceScript raceScript.length) :=
    ⟨by decide, by decide, fun p => by cases p <;> decide⟩
  refine ⟨fair_ofScript hquiet, by decide, fun t => ?_⟩
  rcases Nat.lt_or_ge t raceScript.length with ht | ht
  · have hall : ∀ t < raceScript.length,
        (scriptState State.after .init .pop raceScript t).popped <+: [0x75] ∧
          (scriptState State.after .init .pop raceScript t).ring.dropped = 0 := by decide
    exact hall t ht
  · refine (scriptState_of_ge State.after .init .pop raceScript (Q := fun s => Quiet s ∧
      s.popped <+: [0x75] ∧ s.ring.dropped = 0) ?_ ⟨hquiet, by decide, by decide⟩ ht).2
    rintro s ⟨hq, hpopped, hdropped⟩
    obtain ⟨hq', hpopped', hring⟩ := hq.after
    exact ⟨hq', hpopped' ▸ hpopped, hring ▸ hdropped⟩

end Arsenal.Kbd
