import Arsenal.Workqueue.Cancel

/-! Order of execution.  Without cancellation the deque is a first-in first-out queue of the calls
of `queue_work` that returned `true`: the items that the runner has come to, the one it has taken
and the ones in the deque are, in this order, the items that were pushed. -/

namespace Arsenal.Workqueue

open Arsenal.Lib

variable {Ctx Work Fn : Type*}

/-- The item that the step pushes.  With this step a call of `queue_work` returns `true`. -/
def Act.pushed : Act Ctx Work → Option Work
  | .queuePush _ w => some w
  | _ => none

/-- The item whose function the runner looks at, to call it if it is not null. -/
def Act.executed : Act Ctx Work → Option Work
  | .callFunc w => some w
  | _ => none

/-- The item whose body returns. -/
def Act.ended : Act Ctx Work → Option Work
  | .bodyEnd w => some w
  | _ => none

/-- The item that the runner has taken and not yet come to. -/
def Runner.taken : Runner Work → Option Work
  | .popped w | .marked w => some w
  | _ => none

/-- The item whose body is running. -/
def Runner.body : Runner Work → Option Work
  | .inBody w => some w
  | _ => none

namespace State

variable [DecidableEq Ctx] [DecidableEq Work] {s : State Ctx Work Fn} {a : Act Ctx Work}

def hasBody (s : State Ctx Work Fn) (w : Work) : Bool := (s.func w).isSome

/-- The item whose body starts. -/
def started (s : State Ctx Work Fn) : Act Ctx Work → Option Work
  | .callFunc w => if (s.func w).isSome then some w else none
  | _ => none

omit [DecidableEq Ctx] [DecidableEq Work] in
theorem started_eq (s : State Ctx Work Fn) (a : Act Ctx Work) :
    (s.started a).toList = a.executed.toList.filter s.hasBody := by
  cases a with
  | callFunc w => by_cases hw : (s.func w).isSome <;> simp [started, Act.executed, hasBody, hw]
  | _ => rfl

/-- What the runner has taken and the deque are a queue: a push enters it, and an execution leaves
it. -/
theorem taken_after (hen : s.Enabled a) (hcancel : a.isCancel = false) :
    a.executed.toList ++ ((s.after a).runner.taken.toList ++ (s.after a).pending) =
      s.runner.taken.toList ++ s.pending ++ a.pushed.toList := by
  cases a with
  | callQueue c work => cases work <;> simp [State.after, leave, goto, Act.executed, Act.pushed]
  | queueCas c w =>
    simp only [State.after, queueCas]
    split <;> simp [setState, leave, goto, Act.executed, Act.pushed]
  | queuePush c w => simp [State.after, leave, goto, Act.executed, Act.pushed]
  | pop =>
    have hr : s.runner = .poll := hen
    simp only [State.after, pop]
    split <;> simp_all [Runner.taken, Act.executed, Act.pushed]
  | setRunning w =>
    have hr : s.runner = .popped w := hen
    simp [State.after, setState, hr, Runner.taken, Act.executed, Act.pushed]
  | callFunc w =>
    have hr : s.runner = .marked w := hen
    simp only [State.after]
    split <;> simp [hr, Runner.taken, Act.executed, Act.pushed]
  | bodyEnd w =>
    have hr : s.runner = .inBody w := hen
    simp [State.after, hr, Runner.taken, Act.executed, Act.pushed]
  | setIdle w =>
    have hr : s.runner = .leaving w := hen
    simp [State.after, setState, hr, Runner.taken, Act.executed, Act.pushed]
  | _ => simp [Act.isCancel] at hcancel

/-- A body starts when no other is running, and runs until it returns. -/
theorem body_after (hen : s.Enabled a) :
    a.ended.toList ++ (s.after a).runner.body.toList =
      s.runner.body.toList ++ (s.started a).toList := by
  cases hctx : a.ctx with
  | some c =>
    rw [runner_after hctx]
    cases a <;> simp_all [Act.ctx, Act.ended, started]
  | none =>
    cases a with
    | pop =>
      have hr : s.runner = .poll := hen
      simp only [State.after, pop]
      split <;> simp [hr, Runner.body, Act.ended, started]
    | setRunning w =>
      have hr : s.runner = .popped w := hen
      simp [State.after, hr, Runner.body, Act.ended, started]
    | callFunc w =>
      have hr : s.runner = .marked w := hen
      simp only [State.after]
      split <;> simp_all [Runner.body, Act.ended, started]
    | bodyEnd w =>
      have hr : s.runner = .inBody w := hen
      simp [State.after, hr, Runner.body, Act.ended, started]
    | setIdle w =>
      have hr : s.runner = .leaving w := hen
      simp [State.after, hr, Runner.body, Act.ended, started]
    | _ => cases hctx

end State

/-! ### Logs of a run -/

namespace Run

variable [DecidableEq Ctx] [DecidableEq Work] {r : Run Ctx Work Fn} {t u : ℕ}

/-- The items of an event, from the steps before time `t`. -/
def log (r : Run Ctx Work Fn) (event : State Ctx Work Fn → Act Ctx Work → Option Work) :
    ℕ → List Work
  | 0 => []
  | t + 1 => r.log event t ++ (event (r.state t) (r.act t)).toList

/-- The calls of `queue_work` that returned `true`, in the order of their pushes. -/
def pushes (r : Run Ctx Work Fn) : ℕ → List Work := r.log fun _ a => a.pushed

/-- The items that the runner has come to. -/
def executions (r : Run Ctx Work Fn) : ℕ → List Work := r.log fun _ a => a.executed

/-- The items whose bodies have started. -/
def starts (r : Run Ctx Work Fn) : ℕ → List Work := r.log State.started

/-- The items whose bodies have returned. -/
def ends (r : Run Ctx Work Fn) : ℕ → List Work := r.log fun _ a => a.ended

theorem log_mono (event : State Ctx Work Fn → Act Ctx Work → Option Work) (htu : t ≤ u) :
    r.log event t <+: r.log event u := by
  induction u, htu using Nat.le_induction with
  | base => exact List.prefix_rfl
  | succ u hle ih => exact ih.trans (List.prefix_append ..)

theorem pushes_eq (hcancel : r.NoCancel) (t : ℕ) :
    r.pushes t =
      r.executions t ++ ((r.state t).runner.taken.toList ++ (r.state t).pending) := by
  induction t with
  | zero =>
    obtain ⟨func, hstart⟩ := r.start
    simp [pushes, executions, log, hstart, State.init, Runner.taken]
  | succ t ih =>
    have hstep := State.taken_after (r.enabled t) (hcancel t)
    calc r.pushes (t + 1) = r.pushes t ++ (r.act t).pushed.toList := rfl
      _ = r.executions t ++ ((r.state t).runner.taken.toList ++ (r.state t).pending ++
            (r.act t).pushed.toList) := by rw [ih, List.append_assoc]
      _ = r.executions (t + 1) ++ ((r.state (t + 1)).runner.taken.toList ++
            (r.state (t + 1)).pending) := by
        rw [← hstep, r.next t, ← List.append_assoc]
        rfl

theorem starts_eq_executions (r : Run Ctx Work Fn) (t : ℕ) :
    r.starts t = (r.executions t).filter (r.state 0).hasBody := by
  induction t with
  | zero => rfl
  | succ t ih =>
    have hbody : (r.state 0).hasBody = (r.state t).hasBody := by
      funext w
      rw [State.hasBody, State.hasBody, r.func_eq 0 t]
    calc r.starts (t + 1) = r.starts t ++ ((r.state t).started (r.act t)).toList := rfl
      _ = (r.executions t ++ (r.act t).executed.toList).filter (r.state 0).hasBody := by
        rw [ih, State.started_eq, hbody, List.filter_append]

theorem starts_eq_ends (r : Run Ctx Work Fn) (t : ℕ) :
    r.starts t = r.ends t ++ (r.state t).runner.body.toList := by
  induction t with
  | zero =>
    obtain ⟨func, hstart⟩ := r.start
    simp [starts, ends, log, hstart, State.init, Runner.body]
  | succ t ih =>
    have hstep := State.body_after (r.enabled t)
    calc r.starts (t + 1) = r.starts t ++ ((r.state t).started (r.act t)).toList := rfl
      _ = r.ends t ++ ((r.state t).runner.body.toList ++
            ((r.state t).started (r.act t)).toList) := by rw [ih, List.append_assoc]
      _ = r.ends (t + 1) ++ (r.state (t + 1)).runner.body.toList := by
        rw [← hstep, r.next t, ← List.append_assoc]
        rfl

/-! ### The empty deque -/

/-- When `drain_one` finds the deque empty, everything that was pushed has been executed. -/
theorem executions_of_drained (hcancel : r.NoCancel) (hpop : r.act t = .pop)
    (hempty : (r.state t).pending = []) :
    r.executions t = r.pushes t ∧ r.starts t = r.ends t := by
  have hpoll : (r.state t).runner = .poll := enabled_of_act hpop
  constructor
  · rw [pushes_eq hcancel, hempty, hpoll]
    simp [Runner.taken]
  · rw [starts_eq_ends, hpoll]
    simp [Runner.body]

/-! ### Everything that is pushed is executed -/

/-- While the deque is not empty, the runner comes to one more item. -/
theorem executions_grow (hfair : r.Fair) (hcancel : r.NoCancel)
    (ht : (r.executions t).length < (r.pushes t).length) :
    ∃ u, t ≤ u ∧ (r.executions t).length < (r.executions u).length := by
  obtain ⟨u, htu, hpop⟩ := hfair.drains t
  have hpoll : (r.state u).runner = .poll := enabled_of_act hpop
  have hmono := (log_mono (r := r) (fun _ a => a.executed) htu).length_le
  rcases Nat.lt_or_ge (r.executions t).length (r.executions u).length with hlt | hge
  · exact ⟨u, htu, hlt⟩
  · have hpushes := (log_mono (r := r) (fun _ a => a.pushed) htu).length_le
    have heq := congrArg List.length (pushes_eq hcancel u)
    cases hp : (r.state u).pending with
    | nil =>
      simp only [hp, hpoll, Runner.taken, Option.toList_none, List.append_nil] at heq
      simp only [pushes, executions] at *
      omega
    | cons w rest =>
      have hpopped : (r.state (u + 1)).runner = .popped w := by
        rw [r.next u, hpop]
        simp only [State.after, State.pop, hp]
      obtain ⟨v, huv, hmarked⟩ := marked_of_popped hfair hpopped
      obtain ⟨x, hvx, hcall⟩ := callFunc_of_marked hfair hmarked
      refine ⟨x + 1, by omega, ?_⟩
      have hlater := (log_mono (r := r) (fun _ a => a.executed) (show t ≤ x by omega)).length_le
      have hone : r.executions (x + 1) = r.executions x ++ [w] := by
        simp only [executions, log, hcall, Act.executed, Option.toList_some]
      rw [hone, List.length_append, List.length_singleton]
      exact Nat.lt_succ_of_le hlater

theorem executions_reach (hfair : r.Fair) (hcancel : r.NoCancel) (t : ℕ) :
    ∃ u, t ≤ u ∧ r.pushes t <+: r.executions u := by
  obtain ⟨u, htu, hle⟩ : ∃ u, t ≤ u ∧ (r.pushes t).length ≤ (r.executions u).length := by
    refine leads_to_of_rank (P := fun u => t ≤ u)
      (fun u => (r.pushes t).length - (r.executions u).length) (fun u htu => ?_) le_rfl
    rcases Nat.lt_or_ge (r.executions u).length (r.pushes t).length with hlt | hge
    · have hpushes : (r.pushes t).length ≤ (r.pushes u).length :=
        (log_mono (r := r) (fun _ a => a.pushed) htu).length_le
      obtain ⟨v, huv, hgrow⟩ := executions_grow hfair hcancel (hlt.trans_le hpushes)
      exact ⟨v, huv, Or.inr ⟨htu.trans huv, by omega⟩⟩
    · exact ⟨u, le_rfl, Or.inl hge⟩
  have hexecuted : r.executions u <+: r.pushes u := pushes_eq hcancel u ▸ List.prefix_append ..
  have hpushed : r.pushes t <+: r.pushes u := log_mono _ htu
  exact ⟨u, htu, List.prefix_of_prefix_length_le hpushed hexecuted hle⟩

theorem queues_of_push {c : Ctx} {w : Work} (hpush : r.act t = .queuePush c w) :
    ∃ q, r.Queues q t c w := by
  have hnone : ∀ c, (r.state 0).pc c ≠ .queuePush w := by
    obtain ⟨func, hstart⟩ := r.start
    simp [hstart, State.init]
  obtain ⟨q, -, hcall, hcas, hidle⟩ :=
    marked_of_queuePush hnone (Nat.zero_le t) (enabled_of_act hpush)
  exact ⟨q, hcall, hcas, hidle, hpush⟩

end Run

variable [DecidableEq Ctx] [DecidableEq Work]

open Run

/-- In every run without cancellation the runner executes the calls of `queue_work` that returned
`true` in the order of their pushes, each one once.  It starts the bodies in this order, leaving out
the items whose function is null, and a body starts only when the one before has returned.  If
`drain_one` returns `false`, what was pushed before has been executed, and the bodies have returned.
If the runner goes on, everything pushed is executed. -/
theorem executed_in_order (r : Run Ctx Work Fn) (hcancel : r.NoCancel) (t : ℕ) :
    r.executions t <+: r.pushes t ∧
      r.starts t = (r.executions t).filter (r.state 0).hasBody ∧
      ((∀ w ∈ r.pushes t, (r.state 0).hasBody w) → r.starts t <+: r.pushes t) ∧
      r.starts t = r.ends t ++ (r.state t).runner.body.toList ∧
      (∀ c w, r.act t = .queuePush c w → ∃ q, r.Queues q t c w) ∧
      (r.act t = .pop → (r.state t).pending = [] → r.executions t = r.pushes t ∧
        r.ends t = (r.pushes t).filter (r.state 0).hasBody) ∧
      (r.Fair → ∃ u, t ≤ u ∧ r.pushes t <+: r.executions u) := by
  have hexecuted : r.executions t <+: r.pushes t := pushes_eq hcancel t ▸ List.prefix_append ..
  refine ⟨hexecuted, starts_eq_executions r t, fun hbody => ?_, starts_eq_ends r t,
    fun c w => queues_of_push, fun hpop hempty => ?_, fun hfair => executions_reach hfair hcancel t⟩
  · rw [starts_eq_executions, List.filter_eq_self.mpr fun w hw => hbody w (hexecuted.subset hw)]
    exact hexecuted
  · obtain ⟨hall, hends⟩ := executions_of_drained hcancel hpop hempty
    exact ⟨hall, by rw [← hends, starts_eq_executions, hall]⟩

/-- Two contexts queue two items, and the one that marks its item later pushes it first. -/
def crossScript : List (Act Bool Bool) :=
  [.callQueue false (some false), .callQueue true (some true), .queueCas false false,
    .queueCas true true, .queuePush true true, .queuePush false false, .pop, .setRunning true,
    .callFunc true, .bodyEnd true, .setIdle true, .pop, .setRunning false, .callFunc false,
    .bodyEnd false, .setIdle false]

def crossRun : Run Bool Bool Unit :=
  ofScript (fun _ => some ()) crossScript (by decide) ⟨rfl, rfl, by decide⟩

theorem executed_in_order_cross : crossRun.pushes 16 = [true, false] ∧
    crossRun.executions 16 = [true, false] ∧ crossRun.ends 16 = [true, false] := by
  have hcancel : crossRun.NoCancel := noCancel_ofScript (by decide)
  have hpushes : crossRun.pushes 16 = [true, false] := by decide
  obtain ⟨-, -, -, -, -, hdrained, -⟩ := executed_in_order crossRun hcancel 16
  obtain ⟨hall, hends⟩ := hdrained rfl rfl
  exact ⟨hpushes, hall.trans hpushes, by rw [hends, hpushes]; rfl⟩

end Arsenal.Workqueue
