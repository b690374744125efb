import Arsenal.Workqueue.Cancel

/-! `cancel_work_sync`, with no other call on the item open.  The call makes its compare-exchange,
removes the entry where that succeeded, waits in a loop while the item is running, and makes its
result from one more load.  The result tells whether the compare-exchange found the item pending,
and nothing about a body that the call waited for; and the loop waits for a body whose start is
marked, not for one that the runner has popped and not yet marked. -/

namespace Arsenal.Workqueue

open Arsenal.Lib

variable {Ctx Work Fn : Type*}

namespace Pc

/-- The item that the context's call is about. -/
def work : Pc Work → Option Work
  | .out => none
  | .queueCas w | .queuePush w | .cancelCas w _ | .cancelRetain w _ | .syncSpin w _
  | .syncReturn w _ => some w

/-- The next step of a context that is in a call. -/
def act (c : Ctx) : Pc Work → Option (Act Ctx Work)
  | .out => none
  | .queueCas w => some (.queueCas c w)
  | .queuePush w => some (.queuePush c w)
  | .cancelCas w sync => some (.cancelCas c w sync)
  | .cancelRetain w sync => some (.cancelRetain c w sync)
  | .syncSpin w b => some (.syncSpin c w b)
  | .syncReturn w b => some (.syncReturn c w b)

end Pc

namespace State

variable {s s' : State Ctx Work Fn} {a : Act Ctx Work} {c : Ctx} {w : Work} {hit : Bool}

/-- No context but `c` is in a call on `w`. -/
def Alone (s : State Ctx Work Fn) (c : Ctx) (w : Work) : Prop :=
  ∀ c', c' ≠ c → (s.pc c').work ≠ some w

/-- The item is neither in the deque nor with the runner. -/
def Gone (s : State Ctx Work Fn) (w : Work) : Prop :=
  w ∉ s.pending ∧ s.runner.entry ≠ some w

theorem act_eq (hen : s.Enabled a) (hctx : a.ctx = some c) {b : Act Ctx Work}
    (hb : (s.pc c).act c = some b) : a = b := by
  cases a with
  | callQueue c' work | callCancel c' work sync =>
    obtain rfl : c' = c := Option.some_inj.mp hctx
    rw [show s.pc c' = .out from hen] at hb
    cases hb
  | pop | setRunning | callFunc | bodyEnd | setIdle => cases hctx
  | _ c' =>
    obtain rfl : c' = c := Option.some_inj.mp hctx
    rw [show s.pc c' = _ from hen] at hb
    exact Option.some_inj.mp hb

theorem runner_entry_iff : s.runner.entry = some w ↔ s.runner = .popped w ∨ s.Busy w := by
  unfold Busy Executing
  cases s.runner <;> simp [Runner.entry]

theorem Alone.eq_of_work (h : s.Alone c w) {c' : Ctx} (hc' : (s.pc c').work = some w) :
    c' = c := by
  by_contra hne
  exact h c' hne hc'

/-- The other contexts leave the item alone. -/
theorem Alone.touches_ne (h : s.Alone c w) (hen : s.Enabled a) (hctx : a.ctx ≠ some c) {c' : Ctx}
    (hc' : a.ctx = some c') : s.touches a ≠ some w := by
  have hne : c' ≠ c := fun heq => hctx (heq ▸ hc')
  have hpc := h c' hne
  intro htouch
  cases a with
  | queueCas c'' w' | cancelCas c'' w' sync =>
    obtain rfl : c'' = c' := Option.some_inj.mp hc'
    rw [show s.pc c'' = _ from hen] at hpc
    simp only [State.touches, Option.ite_none_right_eq_some, Option.some_inj] at htouch
    exact hpc (htouch.2 ▸ rfl)
  | queuePush c'' w' | cancelRetain c'' w' sync =>
    obtain rfl : c'' = c' := Option.some_inj.mp hc'
    rw [show s.pc c'' = _ from hen] at hpc
    exact hpc htouch
  | callQueue | callCancel | syncSpin | syncReturn => cases htouch
  | _ => cases hc'

/-- A step that `c` does not make falls into no gap of the item, unless `c` is about to remove the
entry. -/
theorem Alone.undisturbed (h : s.Alone c w) (hretain : ¬s.Retaining c w) (hen : s.Enabled a)
    (hctx : a.ctx ≠ some c) (htouch : s.touches a = some w) : s.Undisturbed a := by
  cases hc' : a.ctx with
  | some c' => exact absurd htouch (h.touches_ne hen hctx hc')
  | none =>
    cases a with
    | pop =>
      intro w' hw' c' hc''
      obtain rfl : w' = w := Option.some_inj.mp (hw'.symm.trans htouch)
      have hwork : (s.pc c').work = some w' := by
        rcases hc'' with hc'' | hc'' <;> rw [hc''] <;> rfl
      exact hretain (h.eq_of_work hwork ▸ hc'')
    | setRunning | callFunc | bodyEnd | setIdle => trivial
    | _ => cases hc'

/-- Nothing but the call itself can touch an item that is gone. -/
theorem Gone.touches_ne (h : s.Gone w) (halone : s.Alone c w) (hen : s.Enabled a)
    (hctx : a.ctx ≠ some c) : s.touches a ≠ some w := by
  cases hc' : a.ctx with
  | some c' => exact halone.touches_ne hen hctx hc'
  | none =>
    intro htouch
    cases a with
    | pop => exact h.1 (List.mem_of_mem_head? htouch)
    | setRunning w' | callFunc w' | bodyEnd w' | setIdle w' =>
      refine h.2 ?_
      rw [show s.runner = _ from hen]
      exact htouch
    | _ => cases hc'

variable [DecidableEq Work]

theorem Entry.not_mem (h : s.Entry w) (hstate : s.state w ≠ .pending)
    (hretain : ∀ c, ¬s.Retaining c w) : w ∉ s.pending := by
  intro hw
  rcases h.queued hw with ⟨hpending, -⟩ | ⟨c, hc⟩
  · exact hstate hpending
  · exact hretain c hc

theorem Entry.gone (h : s.Entry w) (hidle : s.state w = .idle) (hnot : w ∉ s.pending) :
    s.Gone w := by
  refine ⟨hnot, fun hr => ?_⟩
  rcases runner_entry_iff.mp hr with hr | hr
  · simp [(h.popped hr).1] at hidle
  · simp [(h.busy hr).1] at hidle

theorem Untouched.gone (h : s.Untouched s' w) (hw : s.Gone w) : s'.Gone w := by
  refine ⟨fun hmem => hw.1 (h.mem_iff.mp hmem), fun hr => ?_⟩
  rcases h.runner with heq | ⟨-, hnew⟩
  · exact hw.2 (heq ▸ hr)
  · exact hnew hr

variable [DecidableEq Ctx]

theorem Entry.after_alone (h : s.Entry w) (halone : s.Alone c w) (hretain : ¬s.Retaining c w)
    (hen : s.Enabled a) (hctx : a.ctx ≠ some c) : (s.after a).Entry w := by
  by_cases htouch : s.touches a = some w
  · exact h.after hen (halone.undisturbed hretain hen hctx htouch)
  · exact h.untouched (untouched_after hen htouch)

theorem Alone.not_mem_after (h : s.Alone c w) (hpc : s.pc c ≠ .queuePush w) (hen : s.Enabled a)
    (hnot : w ∉ s.pending) : w ∉ (s.after a).pending := by
  intro hw
  rcases mem_pending_of_after hw with hw | ⟨c', rfl⟩
  · exact hnot hw
  · have hpc' : s.pc c' = .queuePush w := hen
    obtain rfl : c' = c := h.eq_of_work (by rw [hpc']; rfl)
    exact hpc hpc'

/-- The other steps change the state byte only where the runner stores to it. -/
theorem Alone.state_after (h : s.Alone c w) (hen : s.Enabled a) (hctx : a.ctx ≠ some c) :
    (s.after a).state w = s.state w ∨ (a = .setRunning w ∧ (s.after a).state w = .running) ∨
      (a = .setIdle w ∧ (s.after a).state w = .idle) := by
  by_cases htouch : s.touches a = some w
  · cases hc' : a.ctx with
    | some c' => exact absurd htouch (h.touches_ne hen hctx hc')
    | none =>
      cases a with
      | pop =>
        left
        simp only [after, pop]
        split <;> rfl
      | setRunning w' =>
        obtain rfl : w' = w := Option.some_inj.mp htouch
        exact Or.inr (Or.inl ⟨rfl, Function.update_self ..⟩)
      | setIdle w' =>
        obtain rfl : w' = w := Option.some_inj.mp htouch
        exact Or.inr (Or.inr ⟨rfl, Function.update_self ..⟩)
      | callFunc | bodyEnd => exact Or.inl rfl
      | _ => cases hc'
  · exact Or.inl (untouched_after hen htouch).state

/-- The byte says `STATE_RUNNING` exactly from the runner's first store to its second. -/
theorem busy_iff_after (h : s.Busy w ↔ s.state w = .running) (hen : s.Enabled a) :
    (s.after a).Busy w ↔ (s.after a).state w = .running := by
  by_cases htouch : s.touches a = some w
  · cases a with
    | queueCas c w' =>
      simp only [touches, Option.ite_none_right_eq_some, Option.some_inj] at htouch
      obtain ⟨hidle, rfl⟩ := htouch
      simp only [after, queueCas, if_pos hidle]
      simpa [Busy, Executing, goto, setState, hidle] using h
    | cancelCas c w' sync =>
      simp only [touches, Option.ite_none_right_eq_some, Option.some_inj] at htouch
      obtain ⟨hpending, rfl⟩ := htouch
      simp only [after, cancelCas, if_pos hpending]
      simpa [Busy, Executing, goto, setState, hpending] using h
    | queuePush c w' => exact h
    | cancelRetain c w' sync => cases sync <;> exact h
    | pop =>
      have hr : s.runner = .poll := hen
      simp only [after, pop]
      split
      · exact h
      · simpa [Busy, Executing, hr] using h
    | setRunning w' =>
      obtain rfl : w' = w := Option.some_inj.mp htouch
      simp [after, Busy, setState]
    | callFunc w' =>
      obtain rfl : w' = w := Option.some_inj.mp htouch
      have hstate := h.mp (Or.inl hen)
      simp only [after, Busy, Executing, hstate, iff_true]
      split <;> simp
    | bodyEnd w' =>
      obtain rfl : w' = w := Option.some_inj.mp htouch
      have hstate := h.mp (Or.inr (Or.inl hen))
      simp [after, Busy, Executing, hstate]
    | setIdle w' =>
      obtain rfl : w' = w := Option.some_inj.mp htouch
      simp [after, Busy, Executing, setState]
    | _ => cases htouch
  · have hs := untouched_after hen htouch
    rw [hs.busy_iff, hs.state, h]

/-! ### The phases of a call -/

/-- Where a call of `cancel_work_sync` is after its compare-exchange, and what it can rely on.
`hit` says that the compare-exchange found the item pending. -/
inductive Phase (s : State Ctx Work Fn) (c : Ctx) (w : Work) (hit : Bool) : Prop
  | retain (hpc : s.pc c = .cancelRetain w true) (hhit : hit = true)
  | spin (hpc : s.pc c = .syncSpin w hit) (hnot : w ∉ s.pending)
      (hclean : hit = false → s.Entry w ∧ s.state w ≠ .pending)
  | leave (hpc : s.pc c = .syncReturn w hit) (hnot : w ∉ s.pending)
      (hclean : hit = false → s.Entry w ∧ s.state w = .idle)

omit [DecidableEq Work] [DecidableEq Ctx] in
theorem Alone.not_retaining (h : s.Alone c w) (hpc : ∀ sync, s.pc c ≠ .cancelRetain w sync)
    (c' : Ctx) : ¬s.Retaining c' w := by
  intro hc'
  have hwork : (s.pc c').work = some w := by rcases hc' with hc' | hc' <;> rw [hc'] <;> rfl
  obtain rfl := h.eq_of_work hwork
  rcases hc' with hc' | hc'
  · exact hpc false hc'
  · exact hpc true hc'

/-- After its compare-exchange the call waits for a marked body, or removes the entry first. -/
theorem Entry.phase_cancelCas (h : s.Entry w) (halone : s.Alone c w)
    (hpc : s.pc c = .cancelCas w true) :
    (s.after (.cancelCas c w true)).Phase c w (decide (s.state w = .pending)) := by
  simp only [State.after, State.cancelCas]
  split
  · rename_i hstate
    exact .retain (Function.update_self ..) (by simp [hstate])
  · rename_i hstate
    have hnot := h.not_mem hstate (halone.not_retaining (by simp [hpc]))
    refine .spin ?_ hnot fun _ => ⟨?_, hstate⟩
    · rw [decide_eq_false hstate]
      exact Function.update_self ..
    · exact h.untouched (untouched_cancelled (by simp [hpc, Pc.entry]))

/-- The call's own step is the one of its phase. -/
theorem Phase.after_own (h : s.Phase c w hit) (hen : s.Enabled a)
    (hctx : a.ctx = some c) (hin : (s.after a).pc c ≠ .out) : (s.after a).Phase c w hit := by
  cases h with
  | retain hpc hhit =>
    obtain rfl := act_eq hen hctx (b := .cancelRetain c w true) (by rw [hpc]; rfl)
    subst hhit
    exact .spin (Function.update_self ..) (by simp [State.after, State.cancelRetain, cancelled,
      goto]) (by simp)
  | spin hpc hnot hclean =>
    obtain rfl := act_eq hen hctx (b := .syncSpin c w hit) (by rw [hpc]; rfl)
    simp only [State.after]
    split
    · exact .spin hpc hnot hclean
    · rename_i hstate
      refine .leave (Function.update_self ..) hnot fun hmiss => ?_
      obtain ⟨hentry, hne⟩ := hclean hmiss
      have hs : s.Untouched (s.goto c (.syncReturn w hit)) w :=
        untouched_goto (by simp [hpc, Pc.entry]) (by simp [Pc.entry])
      refine ⟨hentry.untouched hs, ?_⟩
      show s.state w = .idle
      cases hs : s.state w with
      | idle => rfl
      | pending => exact absurd hs hne
      | running => exact absurd hs hstate
  | leave hpc hnot hclean =>
    obtain rfl := act_eq hen hctx (b := .syncReturn c w hit) (by rw [hpc]; rfl)
    exact absurd (Function.update_self ..) hin

/-- The steps of the others leave the call in its phase. -/
theorem Phase.after_other (h : s.Phase c w hit) (halone : s.Alone c w)
    (hen : s.Enabled a) (hctx : a.ctx ≠ some c) : (s.after a).Phase c w hit := by
  have hsame := pc_after hctx (s := s)
  cases h with
  | retain hpc hhit => exact .retain (hsame.trans hpc) hhit
  | spin hpc hnot hclean =>
    have hnot' := halone.not_mem_after (by simp [hpc]) hen hnot
    refine .spin (hsame.trans hpc) hnot' fun hmiss => ?_
    obtain ⟨hentry, hne⟩ := hclean hmiss
    refine ⟨hentry.after_alone halone (halone.not_retaining (by simp [hpc]) c) hen hctx, ?_⟩
    rcases halone.state_after hen hctx with hs | ⟨-, hs⟩ | ⟨-, hs⟩ <;> rw [hs]
    · exact hne
    · simp
    · simp
  | leave hpc hnot hclean =>
    have hnot' := halone.not_mem_after (by simp [hpc]) hen hnot
    refine .leave (hsame.trans hpc) hnot' fun hmiss => ?_
    obtain ⟨hentry, hidle⟩ := hclean hmiss
    have hs := untouched_after hen ((hentry.gone hidle hnot).touches_ne halone hen hctx)
    exact ⟨hentry.untouched hs, hs.state.trans hidle⟩

theorem Phase.after (h : s.Phase c w hit) (halone : s.Alone c w) (hen : s.Enabled a)
    (hin : (s.after a).pc c ≠ .out) : (s.after a).Phase c w hit := by
  by_cases hctx : a.ctx = some c
  · exact h.after_own hen hctx hin
  · exact h.after_other halone hen hctx

end State

/-! ### Calls -/

namespace Run

open State

variable [DecidableEq Ctx] [DecidableEq Work] {r : Run Ctx Work Fn} {t k v u i : ℕ} {c : Ctx}
  {w : Work}

/-- Since its call at `t`, context `c` has not returned before time `i`. -/
def Open (r : Run Ctx Work Fn) (c : Ctx) (t i : ℕ) : Prop :=
  ∀ j, t < j → j ≤ i → (r.state j).pc c ≠ .out

/-- A call of `cancel_work_sync` at `t`: it makes its compare-exchange at `k`, leaves the loop at
`v`, and returns at `u`. -/
structure Syncs (r : Run Ctx Work Fn) (t k v u : ℕ) (c : Ctx) (w : Work) (hit : Bool) : Prop where
  call : r.act t = .callCancel c (some w) true
  first : r.Consecutive c t k
  cas : r.act k = .cancelCas c w true
  lt : k < v
  spin : r.act v = .syncSpin c w hit
  last : r.Consecutive c v u
  ret : r.act u = .syncReturn c w hit
  inside : r.Open c t u

theorem busy_iff_running (r : Run Ctx Work Fn) (t : ℕ) (w : Work) :
    (r.state t).Busy w ↔ (r.state t).state w = .running := by
  induction t with
  | zero =>
    obtain ⟨func, hstart⟩ := r.start
    simp [hstart, Busy, Executing, State.init]
  | succ t ih => exact r.next t ▸ busy_iff_after ih (r.enabled t)

/-- Only the steps on the item itself matter to its entries. -/
theorem entry_of_item (hquiet : ∀ i < t, (r.state i).touches (r.act i) = some w →
    (r.state i).Undisturbed (r.act i)) : (r.state t).Entry w := by
  induction t with
  | zero =>
    obtain ⟨func, hstart⟩ := r.start
    exact hstart ▸ entry_init func w
  | succ t ih =>
    have h := ih fun i hi => hquiet i (by omega)
    rw [r.next t]
    by_cases htouch : (r.state t).touches (r.act t) = some w
    · exact h.after (r.enabled t) (hquiet t (by omega) htouch)
    · exact h.untouched (untouched_after (r.enabled t) htouch)

theorem Consecutive.pc_eq (h : r.Consecutive c t u) (hi : t < i) (hiu : i ≤ u) :
    (r.state i).pc c = (r.state (t + 1)).pc c := by
  induction i, hi using Nat.le_induction with
  | base => rfl
  | succ i hle ih =>
    rw [r.next i, pc_after (h.none i hle (by omega))]
    exact ih (by omega)

/-- A context that keeps going makes a next step. -/
theorem exists_next
    (hsteps : ∀ i, t < i → (r.state i).pc c ≠ .out → ∃ j, i ≤ j ∧ (r.act j).ctx = some c)
    (htk : t ≤ k) (hpc : (r.state (k + 1)).pc c ≠ .out) :
    ∃ u, r.Consecutive c k u ∧ (r.act u).ctx = some c := by
  classical
  have hev := hsteps (k + 1) (by omega) hpc
  refine ⟨Nat.find hev, ⟨(Nat.find_spec hev).1, fun i hki hi => ?_⟩, (Nat.find_spec hev).2⟩
  exact fun hctx => Nat.find_min hev hi ⟨hki, hctx⟩

theorem open_of_lt (h : ∀ j < u + 1, t < j → (r.state j).pc c ≠ .out) : r.Open c t u :=
  fun j htj hju => h j (by omega) htj

theorem Open.append (h : r.Open c t k) (hlater : ∀ j, k < j → j ≤ u → (r.state j).pc c ≠ .out) :
    r.Open c t u := by
  intro j htj hju
  rcases Nat.lt_or_ge k j with hkj | hjk
  · exact hlater j hkj hju
  · exact h j htj hjk

theorem Open.succ (h : r.Open c t k) (hpc : (r.state (k + 1)).pc c ≠ .out) :
    r.Open c t (k + 1) :=
  h.append fun j hkj hjk => by rwa [Nat.le_antisymm hjk hkj]

theorem Open.extend (h : r.Open c t k) (hnext : r.Consecutive c k u)
    (hpc : (r.state (k + 1)).pc c ≠ .out) : r.Open c t u :=
  h.append fun j hkj hju => by rwa [hnext.pc_eq hkj hju]

theorem gone_next (hgone : (r.state i).Gone w) (halone : (r.state i).Alone c w)
    (hown : (r.act i).ctx = some c → (r.state i).touches (r.act i) ≠ some w) :
    (r.state (i + 1)).Gone w := by
  have htouch : (r.state i).touches (r.act i) ≠ some w := by
    by_cases hctx : (r.act i).ctx = some c
    · exact hown hctx
    · exact hgone.touches_ne halone (r.enabled i) hctx
  rw [r.next i]
  exact (untouched_after (r.enabled i) htouch).gone hgone

section Call

variable (hcall : r.act t = .callCancel c (some w) true) (hentry : (r.state t).Entry w)
  (halone : ∀ i, t ≤ i → r.Open c t i → (r.state i).Alone c w)

include hcall

theorem pc_call : (r.state (t + 1)).pc c = .cancelCas w true := by
  rw [r.next t, hcall]
  exact Function.update_self ..

theorem pc_before_cas (hfirst : r.Consecutive c t k) (hi : t < i) (hik : i ≤ k) :
    (r.state i).pc c = .cancelCas w true :=
  (hfirst.pc_eq hi hik).trans (pc_call hcall)

theorem open_before_cas (hfirst : r.Consecutive c t k) (hik : i ≤ k) : r.Open c t i := by
  intro j htj hji
  rw [pc_before_cas hcall hfirst htj (by omega)]
  simp

include hentry halone

theorem entry_before_cas (hfirst : r.Consecutive c t k) (hi : t < i) (hik : i ≤ k) :
    (r.state i).Entry w := by
  induction i, hi using Nat.le_induction with
  | base =>
    rw [r.next t]
    exact hentry.untouched (untouched_after (r.enabled t) (by simp [hcall, touches]))
  | succ i hle ih =>
    have hpc := pc_before_cas hcall hfirst hle (by omega)
    rw [r.next i]
    exact (ih (by omega)).after_alone
      (halone i (by omega) (open_before_cas hcall hfirst (by omega)))
      (by simp [Retaining, hpc]) (r.enabled i) (hfirst.none i hle (by omega))

theorem phase_of_open (hfirst : r.Consecutive c t k) (hcas : r.act k = .cancelCas c w true)
    (hki : k < i) (hopen : r.Open c t i) :
    (r.state i).Phase c w (decide ((r.state k).state w = .pending)) := by
  have htk := hfirst.lt
  induction i, hki using Nat.le_induction with
  | base =>
    rw [r.next k, hcas]
    exact (entry_before_cas hcall hentry halone hfirst htk le_rfl).phase_cancelCas
      (halone k (by omega) (open_before_cas hcall hfirst le_rfl)) (enabled_of_act hcas)
  | succ i hle ih =>
    have hbefore : r.Open c t i := fun j htj hji => hopen j htj (by omega)
    have hnow := hopen (i + 1) (by omega) le_rfl
    rw [r.next i] at hnow ⊢
    exact (ih hbefore).after (halone i (by omega) hbefore) (r.enabled i) hnow

omit hentry in
/-- Unless it is marked as running, the item is at the compare-exchange what it was at the call. -/
theorem state_before_cas (hfirst : r.Consecutive c t k)
    (hrunning : ∀ i, t ≤ i → i ≤ k → (r.state i).state w ≠ .running) :
    (r.state k).state w = (r.state t).state w := by
  have hall : ∀ i, t ≤ i → i ≤ k → (r.state i).state w = (r.state t).state w := by
    intro i hti
    induction i, hti using Nat.le_induction with
    | base => exact fun _ => rfl
    | succ i hle ih =>
      intro hik
      rw [← ih (by omega)]
      rcases Nat.eq_or_lt_of_le hle with rfl | hlt
      · rw [r.next t, hcall]
        rfl
      · have hnext := hrunning (i + 1) (by omega) hik
        rw [r.next i] at hnext ⊢
        rcases (halone i hle (open_before_cas hcall hfirst (by omega))).state_after (r.enabled i)
          (hfirst.none i hlt (by omega)) with hs | ⟨-, hs⟩ | ⟨hact, -⟩
        · exact hs
        · exact absurd hs hnext
        · have hleaving : (r.state i).runner = .leaving w := enabled_of_act hact
          exact absurd ((r.busy_iff_running i w).mp (Or.inr (Or.inr hleaving)))
            (hrunning i hle (by omega))
  exact hall k hfirst.lt.le le_rfl

omit hcall hentry halone in
theorem act_of_spin {hit : Bool} (hpc : (r.state i).pc c = .syncSpin w hit)
    (hctx : (r.act i).ctx = some c) : r.act i = .syncSpin c w hit :=
  act_eq (r.enabled i) hctx (by rw [hpc]; rfl)

omit hcall hentry in
/-- While the call is in the loop, an item that is gone stays so. -/
theorem gone_of_spin {p : ℕ} {hit : Bool} (htp : t < p) (hgone : (r.state p).Gone w)
    (hspin : ∀ i, p ≤ i → r.Open c t i ∧ (r.state i).pc c = .syncSpin w hit) (hpi : p ≤ i) :
    (r.state i).Gone w := by
  induction i, hpi using Nat.le_induction with
  | base => exact hgone
  | succ i hle ih =>
    obtain ⟨hopen, hpc⟩ := hspin i hle
    refine gone_next ih (halone i (by omega) hopen) fun hctx => ?_
    rw [act_of_spin hpc hctx]
    simp [touches]

omit hcall hentry in
/-- Once the runner polls again, nothing can mark the item as running, so the call does not stay in
the loop. -/
theorem not_spin_forever {p : ℕ} {hit : Bool} (hdrains : ∀ i, ∃ j, i ≤ j ∧ r.act j = .pop)
    (hsteps : ∀ i, t < i → (r.state i).pc c ≠ .out → ∃ j, i ≤ j ∧ (r.act j).ctx = some c)
    (htp : t < p) (hopen : r.Open c t p) (hnot : w ∉ (r.state p).pending) :
    ¬∀ i, p ≤ i → (r.state i).pc c = .syncSpin w hit := by
  intro hforever
  have hinside : ∀ i, p ≤ i → r.Open c t i := fun i hpi =>
    hopen.append fun j hpj hji => by simp [hforever j hpj.le]
  have hnever : ∀ i, p ≤ i → w ∉ (r.state i).pending := by
    intro i hpi
    induction i, hpi using Nat.le_induction with
    | base => exact hnot
    | succ i hle ih =>
      rw [r.next i]
      exact (halone i (by omega) (hinside i hle)).not_mem_after (by simp [hforever i hle])
        (r.enabled i) ih
  obtain ⟨q, hpq, hpop⟩ := hdrains p
  have hgone : (r.state q).Gone w := by
    refine ⟨hnever q hpq, ?_⟩
    rw [show (r.state q).runner = .poll from enabled_of_act hpop]
    simp [Runner.entry]
  obtain ⟨v, hqv, hctx⟩ := hsteps q (by omega) (by simp [hforever q hpq])
  have hgone' := gone_of_spin halone (by omega) hgone
    (fun i hqi => ⟨hinside i (by omega), hforever i (by omega)⟩) hqv
  have hidle : (r.state v).state w ≠ .running := fun hs =>
    hgone'.2 (runner_entry_iff.mpr (Or.inr ((r.busy_iff_running v w).mpr hs)))
  have hnext := hforever (v + 1) (by omega)
  rw [r.next v, act_of_spin (hforever v (by omega)) hctx] at hnext
  simp [State.after, hidle, goto] at hnext

omit hcall hentry in
/-- A loop in which the item has left the deque ends, and with a load that does not find the item
running. -/
theorem spin_ends {p : ℕ} {hit : Bool} (hdrains : ∀ i, ∃ j, i ≤ j ∧ r.act j = .pop)
    (hsteps : ∀ i, t < i → (r.state i).pc c ≠ .out → ∃ j, i ≤ j ∧ (r.act j).ctx = some c)
    (htp : t < p) (hopen : r.Open c t p) (hpc : (r.state p).pc c = .syncSpin w hit)
    (hnot : w ∉ (r.state p).pending) :
    ∃ v, p ≤ v ∧ r.act v = .syncSpin c w hit ∧ (r.state v).state w ≠ .running ∧
      r.Open c t v := by
  have hforever : ¬∀ i, p ≤ i → (r.state i).pc c = .syncSpin w hit :=
    not_spin_forever halone hdrains hsteps htp hopen hnot
  push Not at hforever
  obtain ⟨q, hpq, hq⟩ := hforever
  obtain ⟨v, hpv, -, hv, hexit⟩ :=
    exists_exit (P := fun j => ∀ i, p ≤ i → i ≤ j → (r.state i).pc c = .syncSpin w hit) hpq
      (fun i hpi hip => by rwa [Nat.le_antisymm hip hpi]) fun hall => hq (hall q hpq le_rfl)
  have hpv' := hv v hpv le_rfl
  have hnext : (r.state (v + 1)).pc c ≠ .syncSpin w hit := by
    intro hspin
    refine hexit fun i hpi hiv => ?_
    rcases Nat.lt_succ_iff_lt_or_eq.mp (Nat.lt_succ_of_le hiv) with hlt | rfl
    · exact hv i hpi (by omega)
    · exact hspin
  have hctx : (r.act v).ctx = some c := by
    by_contra hctx
    exact hnext (r.next v ▸ (pc_after hctx).trans hpv')
  refine ⟨v, hpv, act_of_spin hpv' hctx, fun hs => ?_, hopen.append fun j hpj hjv => ?_⟩
  · rw [r.next v, act_of_spin hpv' hctx] at hnext
    simp only [State.after, if_pos hs] at hnext
    exact hnext hpv'
  · simp [hv j hpj.le hjv]

/-- The loop starts after the compare-exchange, or after the removal of the entry. -/
theorem spin_starts (hfirst : r.Consecutive c t k) (hcas : r.act k = .cancelCas c w true)
    (hsteps : ∀ i, t < i → (r.state i).pc c ≠ .out → ∃ j, i ≤ j ∧ (r.act j).ctx = some c) :
    ∃ p, k < p ∧ r.Open c t p ∧
      (r.state p).pc c = .syncSpin w (decide ((r.state k).state w = .pending)) ∧
        w ∉ (r.state p).pending := by
  have htk := hfirst.lt
  have hopen := open_before_cas hcall hfirst (i := k) le_rfl
  have hnext := r.next k
  rw [hcas] at hnext
  by_cases hstate : (r.state k).state w = .pending
  · have hretain : (r.state (k + 1)).pc c = .cancelRetain w true := by
      rw [hnext]
      simp [State.after, State.cancelCas, hstate, goto]
    obtain ⟨m, hsecond, hctx⟩ := exists_next hsteps htk.le (by simp [hretain])
    have hkm := hsecond.lt
    have hact : r.act m = .cancelRetain c w true :=
      act_eq (r.enabled m) hctx (by rw [hsecond.pc_eq hkm le_rfl, hretain]; rfl)
    have hspin : (r.state (m + 1)).pc c = .syncSpin w true := by
      rw [r.next m, hact]
      exact Function.update_self ..
    refine ⟨m + 1, by omega, ?_, by rw [hspin, decide_eq_true hstate], ?_⟩
    · exact (hopen.extend hsecond (by simp [hretain])).succ (by simp [hspin])
    · rw [r.next m, hact]
      simp [State.after, State.cancelRetain, cancelled, goto]
  · have hspin : (r.state (k + 1)).pc c = .syncSpin w false := by
      rw [hnext]
      simp [State.after, State.cancelCas, hstate, cancelled, goto]
    refine ⟨k + 1, by omega, hopen.succ (by simp [hspin]),
      by rw [hspin, decide_eq_false hstate], ?_⟩
    have hpc := pc_before_cas hcall hfirst htk le_rfl
    have hnot := (entry_before_cas hcall hentry halone hfirst htk le_rfl).not_mem hstate
      ((halone k htk.le hopen).not_retaining (by simp [hpc]))
    exact hnext ▸ (halone k htk.le hopen).not_mem_after (by simp [hpc]) (enabled_of_act hcas) hnot

/-- The call returns, when the runner keeps calling `drain_one` and the caller keeps going. -/
theorem exists_syncs (hdrains : ∀ i, ∃ j, i ≤ j ∧ r.act j = .pop)
    (hsteps : ∀ i, t < i → (r.state i).pc c ≠ .out → ∃ j, i ≤ j ∧ (r.act j).ctx = some c) :
    ∃ k v u hit, r.Syncs t k v u c w hit := by
  obtain ⟨k, hfirst, hctx⟩ := exists_next hsteps le_rfl (by simp [pc_call hcall])
  have htk := hfirst.lt
  have hcas : r.act k = .cancelCas c w true :=
    act_eq (r.enabled k) hctx (by rw [pc_before_cas hcall hfirst htk le_rfl]; rfl)
  obtain ⟨p, hkp, hopenp, hspin, hnot⟩ := spin_starts hcall hentry halone hfirst hcas hsteps
  obtain ⟨v, hpv, hexit, hidle, hopenv⟩ :=
    spin_ends halone hdrains hsteps (by omega) hopenp hspin hnot
  have hleave : (r.state (v + 1)).pc c =
      .syncReturn w (decide ((r.state k).state w = .pending)) := by
    rw [r.next v, hexit]
    simp [State.after, hidle, goto]
  obtain ⟨u, hlast, hctx⟩ := exists_next hsteps (show t ≤ v by omega) (by simp [hleave])
  refine ⟨k, v, u, _, hcall, hfirst, hcas, by omega, hexit, hlast, ?_, ?_⟩
  · exact act_eq (r.enabled u) hctx (by rw [hlast.pc_eq hlast.lt le_rfl, hleave]; rfl)
  · exact hopenv.extend hlast (by simp [hleave])

end Call

namespace Syncs

variable {hit : Bool} (h : r.Syncs t k v u c w hit) (hentry : (r.state t).Entry w)
  (halone : ∀ i, t ≤ i → r.Open c t i → (r.state i).Alone c w)

include h

theorem inside_of_le (hiu : i ≤ u) : r.Open c t i := fun j htj hji => h.inside j htj (by omega)

theorem not_running : (r.state v).state w ≠ .running := by
  intro hs
  have hspin : (r.state v).pc c = .syncSpin w hit := enabled_of_act h.spin
  have hleave : (r.state u).pc c = .syncReturn w hit := enabled_of_act h.ret
  rw [h.last.pc_eq h.last.lt le_rfl, r.next v, h.spin] at hleave
  simp only [State.after, if_pos hs, hspin] at hleave
  cases hleave

include hentry halone

theorem phase (hki : k < i) (hiu : i ≤ u) :
    (r.state i).Phase c w (decide ((r.state k).state w = .pending)) :=
  phase_of_open h.call hentry halone h.first h.cas hki (h.inside_of_le hiu)

/-- The call returns what its compare-exchange found. -/
theorem ret_eq : (r.state (u + 1)).ret c = decide ((r.state k).state w = .pending) := by
  have hkv := h.lt
  have hvu := h.last.lt
  have hpc : (r.state u).pc c = .syncReturn w hit := enabled_of_act h.ret
  have hret : (r.state (u + 1)).ret c = (hit || decide ((r.state u).state w ≠ .idle)) := by
    rw [r.next u, h.ret]
    exact Function.update_self ..
  cases h.phase hentry halone (by omega) le_rfl with
  | retain hpc' | spin hpc' =>
    rw [hpc] at hpc'
    cases hpc'
  | leave hpc' _ hclean =>
    rw [hpc] at hpc'
    obtain rfl : hit = _ := (Pc.syncReturn.injEq .. ▸ hpc').2
    rw [hret]
    cases hhit : decide ((r.state k).state w = .pending) with
    | true => rfl
    | false => simp [(hclean hhit).2]

/-- The item is gone when the call returns, unless the runner had popped it and not marked it when
the loop ended. -/
theorem gone (hpopped : (r.state v).runner ≠ .popped w) : (r.state (u + 1)).Gone w := by
  have htk := h.first.lt
  have hkv := h.lt
  have hvu := h.last.lt
  have hspin : (r.state v).pc c = .syncSpin w hit := enabled_of_act h.spin
  have hexit : (r.state v).Gone w := by
    refine ⟨?_, fun hr => ?_⟩
    · cases h.phase hentry halone hkv hvu.le with
      | retain hpc =>
        rw [hspin] at hpc
        cases hpc
      | spin _ hnot | leave _ hnot => exact hnot
    · rcases runner_entry_iff.mp hr with hr | hr
      · exact hpopped hr
      · exact h.not_running ((r.busy_iff_running v w).mp hr)
  have hall : ∀ i, v ≤ i → i ≤ u + 1 → (r.state i).Gone w := by
    intro i hvi
    induction i, hvi using Nat.le_induction with
    | base => exact fun _ => hexit
    | succ i hle ih =>
      intro hiu
      have hi := halone i (by omega) (h.inside_of_le (by omega))
      refine gone_next (ih (by omega)) hi fun hctx => ?_
      -- From the loop's end on, the caller only returns.
      rcases Nat.eq_or_lt_of_le hle with rfl | hlt
      · simp [h.spin, touches]
      · rcases Nat.eq_or_lt_of_le (show i ≤ u by omega) with rfl | hiu'
        · simp [h.ret, touches]
        · exact absurd hctx (h.last.none i hlt hiu')
  exact hall (u + 1) (by omega) le_rfl

end Syncs

end Run

open Run

variable [DecidableEq Ctx] [DecidableEq Work]

/-! ### The contract -/

/-- A call of `cancel_work_sync`, while no other call on the item is open and after a history of
the item that left its byte and its entries in agreement.  If the item is not marked as running from
the call to the compare-exchange, the call returns `true` exactly when the item was pending or
running at the call.  If the runner is not between its pop of the item and its store when the loop
ends, the item is neither in the deque nor with the runner when the call returns.  And the call does
return, when the runner keeps calling `drain_one` and the caller keeps going. -/
theorem cancel_work_sync_contract (r : Run Ctx Work Fn) (t : ℕ) (c : Ctx) (w : Work)
    (hcall : r.act t = .callCancel c (some w) true)
    (hquiet : ∀ i < t, (r.state i).touches (r.act i) = some w →
      (r.state i).Undisturbed (r.act i))
    (halone : ∀ i, t ≤ i → r.Open c t i → (r.state i).Alone c w) :
    (∀ k v u hit, r.Syncs t k v u c w hit →
      ((∀ i, t ≤ i → i ≤ k → (r.state i).state w ≠ .running) →
        ((r.state (u + 1)).ret c = true ↔ (r.state t).state w ≠ .idle)) ∧
      ((r.state v).runner ≠ .popped w → (r.state (u + 1)).Gone w)) ∧
    ((∀ i, ∃ j, i ≤ j ∧ r.act j = .pop) →
      (∀ i, t < i → (r.state i).pc c ≠ .out → ∃ j, i ≤ j ∧ (r.act j).ctx = some c) →
        ∃ k v u hit, r.Syncs t k v u c w hit) := by
  have hentry := entry_of_item hquiet
  refine ⟨fun k v u hit h => ⟨fun hrunning => ?_, h.gone hentry halone⟩,
    exists_syncs hcall hentry halone⟩
  have hstate := state_before_cas hcall halone h.first hrunning
  have hnot := hrunning t le_rfl h.first.lt.le
  rw [h.ret_eq hentry halone, hstate, decide_eq_true_iff]
  cases hs : (r.state t).state w with
  | idle => simp
  | pending => simp
  | running => exact absurd hs hnot

/-- A pending item is cancelled, and nobody else calls. -/
def syncScript : List (Act Bool Unit) :=
  [.callQueue false (some ()), .queueCas false (), .queuePush false (),
    .callCancel true (some ()) true, .cancelCas true () true, .cancelRetain true () true,
    .syncSpin true () true, .syncReturn true () true]

def syncRun : Run Bool Unit Unit :=
  ofScript (fun _ => some ()) syncScript (by decide) ⟨rfl, rfl, by decide⟩

theorem cancel_work_sync_contract_pending : syncRun.Syncs 3 4 6 7 true () true ∧
    (syncRun.state 8).ret true = true ∧ (syncRun.state 8).Gone () ∧
      ∃ k v u hit, syncRun.Syncs 3 k v u true () hit := by
  have hsyncs : syncRun.Syncs 3 4 6 7 true () true :=
    ⟨rfl, ⟨by decide, fun i hi hi' => by omega⟩, rfl, by decide, rfl,
      ⟨by decide, fun i hi hi' => by omega⟩, rfl, open_of_lt (by decide)⟩
  have hquiet : ∀ i < 3, (syncRun.state i).touches (syncRun.act i) = some () →
      (syncRun.state i).Undisturbed (syncRun.act i) := by decide
  have hshort : ∀ i < 8, 3 ≤ i → (syncRun.state i).Alone true () := by
    unfold State.Alone
    decide
  have halone : ∀ i, 3 ≤ i → syncRun.Open true 3 i → (syncRun.state i).Alone true () := by
    intro i hi hopen
    rcases Nat.lt_or_ge i 8 with hlt | hge
    · exact hshort i hlt hi
    · exact absurd rfl (hopen 8 (by decide) hge)
  have hdrains : ∀ i, ∃ j, i ≤ j ∧ syncRun.act j = .pop := fun i =>
    ⟨max i 8, le_max_left .., act_ofScript_of_ge (le_max_right ..)⟩
  have hsteps : ∀ i, 3 < i → (syncRun.state i).pc true ≠ .out →
      ∃ j, i ≤ j ∧ (syncRun.act j).ctx = some true := by
    intro i _ hpc
    rcases Nat.lt_or_ge i 8 with hlt | hge
    · exact ⟨7, by omega, rfl⟩
    · exact absurd ((quiet_scriptState ⟨rfl, rfl, by decide⟩ hge).out true) hpc
  obtain ⟨hpart, hreturns⟩ := cancel_work_sync_contract syncRun 3 true () rfl hquiet halone
  obtain ⟨hret, hgone⟩ := hpart 4 6 7 true hsyncs
  refine ⟨hsyncs, (hret ?_).mpr (by decide), hgone (by decide), hreturns hdrains hsteps⟩
  intro i hi hi'
  have hall : ∀ i ≤ 4, (syncRun.state i).state () ≠ .running := by decide
  exact hall i hi'

/-- The call comes while the body runs, and waits for its end. -/
def waitedScript : List (Act Bool Unit) :=
  [.callQueue false (some ()), .queueCas false (), .queuePush false (), .pop, .setRunning (),
    .callFunc (), .callCancel true (some ()) true, .cancelCas true () true, .syncSpin true () false,
    .bodyEnd (), .setIdle (), .syncSpin true () false, .syncReturn true () false]

def waitedRun : Run Bool Unit Unit :=
  ofScript (fun _ => some ()) waitedScript (by decide) ⟨rfl, rfl, by decide⟩

/-- The call comes between the runner's pop and its store of `STATE_RUNNING`. -/
def poppedScript : List (Act Bool Unit) :=
  [.callQueue false (some ()), .queueCas false (), .queuePush false (), .pop,
    .callCancel true (some ()) true, .cancelCas true () true, .cancelRetain true () true,
    .syncSpin true () true, .syncReturn true () true, .setRunning (), .callFunc (), .bodyEnd (),
    .setIdle ()]

def poppedRun : Run Bool Unit Unit :=
  ofScript (fun _ => some ()) poppedScript (by decide) ⟨rfl, rfl, by decide⟩

/-- With no other call on the item open, the call returns `false` for an item that was running when
it started; and it returns `true` for one that the runner has popped, whose body starts after the
call has returned. -/
theorem cancel_work_sync_misses : (waitedRun.Syncs 6 7 11 12 true () false ∧
    (∀ i < 13, 6 ≤ i → (waitedRun.state i).Alone true ()) ∧
      (waitedRun.state 6).state () = .running ∧ (waitedRun.state 13).ret true = false) ∧
    poppedRun.Syncs 4 5 7 8 true () true ∧
      (∀ i < 9, 4 ≤ i → (poppedRun.state i).Alone true ()) ∧
        (poppedRun.state 9).ret true = true ∧ (poppedRun.state 9).runner = .popped () ∧
          poppedRun.Starts 10 () := by
  unfold State.Alone
  refine ⟨⟨⟨rfl, ⟨by decide, fun i hi hi' => by omega⟩, rfl, by decide, rfl,
    ⟨by decide, fun i hi hi' => by omega⟩, rfl, open_of_lt (by decide)⟩, by decide, rfl, rfl⟩,
    ⟨rfl, ⟨by decide, fun i hi hi' => by omega⟩, rfl, by decide, rfl,
      ⟨by decide, fun i hi hi' => by omega⟩, rfl, open_of_lt (by decide)⟩, by decide, rfl, rfl,
    rfl, rfl⟩

end Arsenal.Workqueue
