import Arsenal.Lib.Temporal
import Arsenal.Workqueue.Model
import Mathlib.Data.Fintype.Basic
import Mathlib.Data.List.GetD

/-! When a queued work item runs.  In a run without cancellation, in which the runner keeps calling
`drain_one` and every call comes to its end, a call of `queue_work` leads to a later start of the
body, unless its compare-exchange falls between a start of that body and the store of `STATE_IDLE`
that follows it: there it finds `STATE_RUNNING`, returns `false` and leaves nothing behind. -/

namespace Arsenal.Workqueue

open Arsenal.Lib

variable {Ctx Work Fn : Type*} [DecidableEq Ctx] [DecidableEq Work]

/-! ### What a pending item waits for -/

namespace State

variable {s : State Ctx Work Fn} {a : Act Ctx Work} {w : Work}

/-- The runner is in the body of `w`, or past it and before the store of `STATE_IDLE`. -/
def Executing (s : State Ctx Work Fn) (w : Work) : Prop :=
  s.runner = .inBody w ∨ s.runner = .leaving w

instance (s : State Ctx Work Fn) (w : Work) : Decidable (s.Executing w) :=
  inferInstanceAs (Decidable (_ ∨ _))

/-- The item is in the deque, on its way into it, or just out of it. -/
def Waiting (s : State Ctx Work Fn) (w : Work) : Prop :=
  w ∈ s.pending ∨ (∃ c, s.pc c = .queuePush w) ∨ s.runner = .popped w

/-- The state bytes agree with the deque, the contexts and the runner. -/
structure Inv (s : State Ctx Work Fn) : Prop where
  pending : ∀ w, s.state w = .pending → s.Waiting w
  running : ∀ w, s.state w = .running → s.runner = .marked w ∨ s.Executing w

omit [DecidableEq Ctx] [DecidableEq Work] in
theorem inv_init (func : Work → Option Fn) : (init func : State Ctx Work Fn).Inv :=
  ⟨by simp [init], by simp [init]⟩

theorem Waiting.after (h : s.Waiting w) (hen : s.Enabled a) (hcancel : a.isCancel = false) :
    (s.after a).Waiting w ∨ a = .setRunning w := by
  rcases h with h | ⟨c, hc⟩ | h
  · left
    rcases mem_pending_after hcancel h with h | h
    · exact Or.inl h
    · exact Or.inr (Or.inr h)
  · left
    by_cases hctx : a.ctx = some c
    · have hpush : a = .queuePush c w := by
        cases a <;> simp_all [Act.ctx, Enabled]
      subst hpush
      exact Or.inl (List.mem_append_right _ (List.mem_singleton.mpr rfl))
    · exact Or.inr (Or.inl ⟨c, (pc_after hctx).trans hc⟩)
  · cases hctx : a.ctx with
    | some c => exact Or.inl (Or.inr (Or.inr ((runner_after hctx).trans h)))
    | none =>
      right
      cases a <;> simp_all [Act.ctx, Enabled]

theorem running_after (h : s.runner = .marked w ∨ s.Executing w) (hen : s.Enabled a) :
    (s.after a).runner = .marked w ∨ (s.after a).Executing w ∨ a = .setIdle w := by
  cases hctx : a.ctx with
  | some c =>
    rw [Executing, runner_after hctx, ← or_assoc]
    exact Or.inl h
  | none =>
    rcases h with h | h | h <;> cases a <;> simp_all [Act.ctx, Enabled, State.after, Executing]
    exact Or.inr (em _).symm

theorem Inv.after (h : s.Inv) (hen : s.Enabled a) (hcancel : a.isCancel = false) :
    (s.after a).Inv := by
  refine ⟨fun w hw => ?_, fun w hw => ?_⟩
  · by_cases heq : (s.after a).state w = s.state w
    · rcases (h.pending w (heq ▸ hw)).after hen hcancel with hwait | rfl
      · exact hwait
      · simp [State.after, setState] at hw
    · rcases state_after hcancel heq with ⟨c, -, -, -, hpc⟩ | ⟨-, hrun⟩ | ⟨-, hidle⟩
      · exact Or.inr (Or.inl ⟨c, hpc⟩)
      · simp [hrun] at hw
      · simp [hidle] at hw
  · by_cases heq : (s.after a).state w = s.state w
    · rcases running_after (h.running w (heq ▸ hw)) hen with hmark | hexec | rfl
      · exact Or.inl hmark
      · exact Or.inr hexec
      · simp [State.after, setState] at hw
    · rcases state_after hcancel heq with ⟨c, -, -, hpend, -⟩ | ⟨rfl, -⟩ | ⟨-, hidle⟩
      · simp [hpend] at hw
      · exact Or.inl rfl
      · simp [hidle] at hw

end State

/-! ### Runs -/

/-- An infinite run from the state in which every work item has been initialised. -/
structure Run (Ctx Work Fn : Type*) [DecidableEq Ctx] [DecidableEq Work] where
  state : ℕ → State Ctx Work Fn
  act : ℕ → Act Ctx Work
  start : ∃ func, state 0 = State.init func
  enabled : ∀ t, (state t).Enabled (act t)
  next : ∀ t, state (t + 1) = (state t).after (act t)

namespace Run

variable {r : Run Ctx Work Fn} {t : ℕ} {w : Work}

/-- The runner keeps calling `drain_one`, and every context's call comes to its end. -/
structure Fair (r : Run Ctx Work Fn) : Prop where
  drains : ∀ t, ∃ u, t ≤ u ∧ r.act u = .pop
  returns : ∀ t c, ∃ u, t ≤ u ∧ (r.state u).pc c = .out

def NoCancel (r : Run Ctx Work Fn) : Prop := ∀ t, (r.act t).isCancel = false

/-- The body of `w` starts at time `t`. -/
def Starts (r : Run Ctx Work Fn) (t : ℕ) (w : Work) : Prop :=
  r.act t = .callFunc w ∧ ((r.state t).func w).isSome

theorem func_eq (r : Run Ctx Work Fn) (t u : ℕ) : (r.state t).func = (r.state u).func := by
  have hzero : ∀ t, (r.state t).func = (r.state 0).func := by
    intro t
    induction t with
    | zero => rfl
    | succ t ih => rw [r.next, State.func_after, ih]
  rw [hzero t, hzero u]

theorem inv (hcancel : r.NoCancel) (t : ℕ) : (r.state t).Inv := by
  induction t with
  | zero =>
    obtain ⟨func, hstart⟩ := r.start
    exact hstart ▸ State.inv_init func
  | succ t ih => exact r.next t ▸ ih.after (r.enabled t) (hcancel t)

/-- The runner leaves every place but the one from which it polls. -/
theorem runner_leaves (hfair : r.Fair) {p : Runner Work} (hp : p ≠ .poll)
    (ht : (r.state t).runner = p) :
    ∃ v, t ≤ v ∧ (r.state v).runner = p ∧ ((r.state v).after (r.act v)).runner ≠ p := by
  obtain ⟨u, htu, hpop⟩ := hfair.drains t
  have hu : ¬(r.state u).runner = p := by
    have hen := r.enabled u
    rw [hpop] at hen
    rw [show (r.state u).runner = .poll from hen]
    exact hp.symm
  obtain ⟨v, htv, -, hv, hnext⟩ := exists_exit (P := fun v => (r.state v).runner = p) htu ht hu
  exact ⟨v, htv, hv, r.next v ▸ hnext⟩

theorem marked_of_popped (hfair : r.Fair) (ht : (r.state t).runner = .popped w) :
    ∃ u, t ≤ u ∧ (r.state u).runner = .marked w := by
  obtain ⟨v, htv, hv, hnext⟩ := runner_leaves hfair (by simp) ht
  have hen := r.enabled v
  refine ⟨v + 1, by omega, ?_⟩
  rw [r.next v]
  cases hctx : (r.act v).ctx with
  | some c => exact absurd ((State.runner_after hctx).trans hv) hnext
  | none => cases ha : r.act v <;> simp_all [Act.ctx, State.Enabled, State.after]

theorem callFunc_of_marked (hfair : r.Fair) (ht : (r.state t).runner = .marked w) :
    ∃ u, t ≤ u ∧ r.act u = .callFunc w := by
  obtain ⟨v, htv, hv, hnext⟩ := runner_leaves hfair (by simp) ht
  have hen := r.enabled v
  refine ⟨v, htv, ?_⟩
  cases hctx : (r.act v).ctx with
  | some c => exact absurd ((State.runner_after hctx).trans hv) hnext
  | none => cases ha : r.act v <;> simp_all [Act.ctx, State.Enabled]

theorem starts_of_marked (hfair : r.Fair) (hfunc : ((r.state t).func w).isSome)
    (ht : (r.state t).runner = .marked w) : ∃ u, t ≤ u ∧ r.Starts u w := by
  obtain ⟨u, htu, hcall⟩ := callFunc_of_marked hfair ht
  exact ⟨u, htu, hcall, by rwa [r.func_eq u t]⟩

/-- The runner takes every item from the deque: each pop brings it one place nearer to the front. -/
theorem popped_of_mem (hfair : r.Fair) (hcancel : r.NoCancel) (ht : w ∈ (r.state t).pending) :
    ∃ u, t ≤ u ∧ (r.state u).runner = .popped w := by
  refine leads_to_of_rank (P := fun u => w ∈ (r.state u).pending)
    (fun u => (r.state u).pending.idxOf w) (fun t ht => ?_) ht
  -- Between two pops items are only added, behind `w`.
  have hkeep : ∀ u, (w ∈ (r.state u).pending ∧
      (r.state u).pending.idxOf w = (r.state t).pending.idxOf w) → r.act u ≠ .pop →
      w ∈ (r.state (u + 1)).pending ∧
        (r.state (u + 1)).pending.idxOf w = (r.state t).pending.idxOf w := by
    rintro u ⟨hmem, hidx⟩ hne
    rw [r.next u]
    obtain ⟨more, hmore⟩ := State.pending_after (hcancel u) hne
    rw [hmore, List.idxOf_append_of_mem hmem]
    exact ⟨List.mem_append_left _ hmem, hidx⟩
  obtain ⟨u, htu, hpop, hmem, hidx⟩ :=
    holds_until (E := fun u => r.act u = .pop) hkeep ⟨ht, rfl⟩ (hfair.drains t)
  refine ⟨u + 1, by omega, ?_⟩
  rw [r.next u, hpop]
  cases hp : (r.state u).pending with
  | nil => simp [hp] at hmem
  | cons w' rest =>
    simp only [State.after, State.pop, hp]
    rw [hp] at hmem hidx
    by_cases hw : w' = w
    · exact Or.inl (by rw [hw])
    · right
      rw [← hidx, List.idxOf_cons_ne _ hw]
      exact ⟨(List.mem_cons.mp hmem).resolve_left (Ne.symm hw), Nat.lt_succ_self _⟩

theorem mem_of_queuePush (hfair : r.Fair) {c : Ctx} (ht : (r.state t).pc c = .queuePush w) :
    ∃ u, t ≤ u ∧ w ∈ (r.state u).pending := by
  obtain ⟨u, htu, hout⟩ := hfair.returns t c
  obtain ⟨v, htv, -, hv, hnext⟩ :=
    exists_exit (P := fun v => (r.state v).pc c = .queuePush w) htu ht (by simp [hout])
  have hen := r.enabled v
  have hctx : (r.act v).ctx = some c := by
    by_contra hctx
    exact hnext (r.next v ▸ (State.pc_after hctx).trans hv)
  have hpush : r.act v = .queuePush c w := by
    cases ha : r.act v <;> simp_all [Act.ctx, State.Enabled]
  refine ⟨v + 1, by omega, ?_⟩
  rw [r.next v, hpush]
  exact List.mem_append_right _ (List.mem_singleton.mpr rfl)

theorem starts_of_waiting (hfair : r.Fair) (hcancel : r.NoCancel)
    (hfunc : ((r.state t).func w).isSome) (ht : (r.state t).Waiting w) :
    ∃ u, t ≤ u ∧ r.Starts u w := by
  have hpopped : ∀ {t}, (r.state t).runner = .popped w → ∃ u, t ≤ u ∧ r.Starts u w := by
    intro t' ht'
    obtain ⟨u, htu, hu⟩ := marked_of_popped hfair ht'
    obtain ⟨v, huv, hv⟩ := starts_of_marked hfair (by rwa [r.func_eq u t]) hu
    exact ⟨v, htu.trans huv, hv⟩
  have hdeque : ∀ {t}, w ∈ (r.state t).pending → ∃ u, t ≤ u ∧ r.Starts u w := by
    intro t' ht'
    obtain ⟨u, htu, hu⟩ := popped_of_mem hfair hcancel ht'
    obtain ⟨v, huv, hv⟩ := hpopped hu
    exact ⟨v, htu.trans huv, hv⟩
  rcases ht with ht | ⟨c, ht⟩ | ht
  · exact hdeque ht
  · obtain ⟨u, htu, hu⟩ := mem_of_queuePush hfair ht
    obtain ⟨v, huv, hv⟩ := hdeque hu
    exact ⟨v, htu.trans huv, hv⟩
  · exact hpopped ht

theorem starts_of_queueCas (hfair : r.Fair) (hcancel : r.NoCancel) {c : Ctx}
    (hact : r.act t = .queueCas c w) (hfunc : ((r.state t).func w).isSome)
    (hexec : ¬(r.state t).Executing w) : ∃ u, t < u ∧ r.Starts u w := by
  have hnext := r.next t
  have hinv := inv hcancel (r := r)
  rw [hact] at hnext
  have hfunc' : ((r.state (t + 1)).func w).isSome := by rwa [r.func_eq (t + 1) t]
  cases hstate : (r.state t).state w with
  | idle =>
    refine starts_of_waiting hfair hcancel hfunc' (Or.inr (Or.inl ⟨c, ?_⟩))
    rw [hnext]
    simp [State.after, State.queueCas, hstate, State.goto]
  | pending =>
    refine starts_of_waiting hfair hcancel hfunc' ((hinv (t + 1)).pending w ?_)
    rw [hnext]
    simp [State.after, State.queueCas, hstate, State.goto, State.leave]
  | running =>
    have hmark := ((hinv t).running w hstate).resolve_right hexec
    refine starts_of_marked hfair hfunc' ?_
    rw [hnext, State.runner_after (c := c) rfl]
    exact hmark

theorem queueCas_of_call (hfair : r.Fair) {c : Ctx} (hcall : r.act t = .callQueue c (some w)) :
    ∃ u, t < u ∧ r.act u = .queueCas c w := by
  have hpc : (r.state (t + 1)).pc c = .queueCas w := by
    rw [r.next t, hcall]
    exact Function.update_self ..
  obtain ⟨u, htu, hout⟩ := hfair.returns (t + 1) c
  obtain ⟨v, htv, -, hv, hnext⟩ :=
    exists_exit (P := fun v => (r.state v).pc c = .queueCas w) htu hpc (by simp [hout])
  have hen := r.enabled v
  have hctx : (r.act v).ctx = some c := by
    by_contra hctx
    exact hnext (r.next v ▸ (State.pc_after hctx).trans hv)
  refine ⟨v, htv, ?_⟩
  cases ha : r.act v <;> simp_all [Act.ctx, State.Enabled]

/-! ### Runs of a script -/

/-- The states of a run that follows a list of steps and then only polls. -/
def scriptState (func : Work → Option Fn) (script : List (Act Ctx Work)) :
    ℕ → State Ctx Work Fn
  | 0 => .init func
  | t + 1 => (scriptState func script t).after (script.getD t .pop)

/-- A script at whose end no call is open and nothing is pending. -/
structure Quiet (s : State Ctx Work Fn) : Prop where
  poll : s.runner = .poll
  empty : s.pending = []
  out : ∀ c, s.pc c = .out

omit [DecidableEq Ctx] [DecidableEq Work] in
theorem Quiet.pop {s : State Ctx Work Fn} (h : Quiet s) : Quiet s.pop := by
  simp only [State.pop, h.empty]
  exact ⟨h.poll, rfl, h.out⟩

theorem quiet_scriptState {func : Work → Option Fn} {script : List (Act Ctx Work)}
    (h : Quiet (scriptState func script script.length)) {t : ℕ} (ht : script.length ≤ t) :
    Quiet (scriptState func script t) := by
  induction t, ht using Nat.le_induction with
  | base => exact h
  | succ t hle ih =>
    rw [scriptState, List.getD_eq_default _ _ hle]
    exact ih.pop

/-- The run of a script. -/
def ofScript (func : Work → Option Fn) (script : List (Act Ctx Work))
    (hen : ∀ t < script.length, (scriptState func script t).Enabled (script.getD t .pop))
    (hquiet : Quiet (scriptState func script script.length)) : Run Ctx Work Fn where
  state := scriptState func script
  act := fun t => script.getD t .pop
  start := ⟨func, rfl⟩
  enabled := fun t => by
    rcases Nat.lt_or_ge t script.length with ht | ht
    · exact hen t ht
    · rw [List.getD_eq_default _ _ ht]
      exact (quiet_scriptState hquiet ht).poll
  next := fun _ => rfl

variable {func : Work → Option Fn} {script : List (Act Ctx Work)}
  {hen : ∀ t < script.length, (scriptState func script t).Enabled (script.getD t .pop)}
  {hquiet : Quiet (scriptState func script script.length)}

theorem act_ofScript_of_ge {t : ℕ} (ht : script.length ≤ t) :
    (ofScript func script hen hquiet).act t = .pop :=
  List.getD_eq_default _ _ ht

theorem noCancel_ofScript
    (h : ∀ t < script.length, (script.getD t .pop).isCancel = false) :
    (ofScript func script hen hquiet).NoCancel := by
  intro t
  rcases Nat.lt_or_ge t script.length with ht | ht
  · exact h t ht
  · rw [act_ofScript_of_ge ht]
    rfl

theorem fair_ofScript : (ofScript func script hen hquiet).Fair where
  drains := fun t => ⟨max t script.length, le_max_left ..,
    act_ofScript_of_ge (le_max_right ..)⟩
  returns := fun t c => ⟨max t script.length, le_max_left ..,
    (quiet_scriptState hquiet (le_max_right ..)).out c⟩

end Run

open Run

/-! ### No lost work -/

/-- In every run in which no compare-exchange of `queue_work` falls into the execution of its item's
body, each call of `queue_work` is followed by a start of the body, after its compare-exchange. -/
theorem queued_body_starts (r : Run Ctx Work Fn) (hfair : r.Fair) (hcancel : r.NoCancel)
    (houtside : ∀ t c w, r.act t = .queueCas c w → ¬(r.state t).Executing w) (t : ℕ) (c : Ctx)
    (w : Work) (hcall : r.act t = .callQueue c (some w)) (hfunc : ((r.state t).func w).isSome) :
    ∃ u v, t < u ∧ u < v ∧ r.act u = .queueCas c w ∧ r.Starts v w := by
  obtain ⟨u, htu, hcas⟩ := queueCas_of_call hfair hcall
  obtain ⟨v, huv, hv⟩ := starts_of_queueCas hfair hcancel hcas (by rwa [r.func_eq u t])
    (houtside u c w hcas)
  exact ⟨u, v, htu, huv, hcas, hv⟩

/-- One task queues the item once and the runner runs its body. -/
def onceScript : List (Act Bool Unit) :=
  [.callQueue false (some ()), .queueCas false (), .queuePush false (), .pop, .setRunning (),
    .callFunc (), .bodyEnd (), .setIdle ()]

def onceRun : Run Bool Unit Unit :=
  ofScript (fun _ => some ()) onceScript (by decide) ⟨rfl, rfl, by decide⟩

theorem queued_body_starts_once : ∃ u v, 0 < u ∧ u < v ∧ onceRun.act u = .queueCas false () ∧
    onceRun.Starts v () := by
  refine queued_body_starts onceRun fair_ofScript (noCancel_ofScript (by decide)) ?_ 0 false ()
    rfl rfl
  intro t c w hact
  rcases Nat.lt_or_ge t onceScript.length with ht | ht
  · have houtside : ∀ t < onceScript.length, ∀ c w, onceScript.getD t .pop = .queueCas c w →
        ¬(scriptState (fun _ => some ()) onceScript t : State Bool Unit Unit).Executing w := by
      decide
    exact houtside t ht c w hact
  · rw [onceRun, act_ofScript_of_ge ht] at hact
    cases hact

/-- The body queues its own item again, as `update_balloon_size_func` does while the balloon has not
reached its target. -/
def requeueScript : List (Act Bool Unit) :=
  [.callQueue false (some ()), .queueCas false (), .queuePush false (), .pop, .setRunning (),
    .callFunc (), .callQueue true (some ()), .queueCas true (), .bodyEnd (), .setIdle ()]

def requeueRun : Run Bool Unit Unit :=
  ofScript (fun _ => some ()) requeueScript (by decide) ⟨rfl, rfl, by decide⟩

/-- A call from inside the body is lost: the body does not start again. -/
theorem requeue_from_body_lost : requeueRun.Fair ∧ requeueRun.NoCancel ∧
    (requeueRun.state 6).runner = .inBody () ∧ ((requeueRun.state 6).func ()).isSome ∧
      requeueRun.act 6 = .callQueue true (some ()) ∧ ∀ u, 6 < u → ¬requeueRun.Starts u () := by
  refine ⟨fair_ofScript, noCancel_ofScript (by decide), rfl, rfl, rfl, fun u hu hstart => ?_⟩
  rcases Nat.lt_or_ge u requeueScript.length with ht | ht
  · have hnone : ∀ t < requeueScript.length, 6 < t →
        requeueScript.getD t .pop ≠ Act.callFunc () := by decide
    exact hnone u ht hu hstart.1
  · have hact := hstart.1
    rw [requeueRun, act_ofScript_of_ge ht] at hact
    cases hact

end Arsenal.Workqueue
