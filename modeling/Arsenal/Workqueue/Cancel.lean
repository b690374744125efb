import Arsenal.Workqueue.Progress

/-! Cancellation.  `queue_work` marks an item before it pushes its entry, `cancel_work` unmarks it
before it removes the entry, and the runner takes the entry before it marks the item as running.  So
a cancellation can find the mark without the entry: the entry comes later and outlives it, or the
runner already has it.  In every run in which no cancellation falls into these gaps, a cancelled
item does not run before it is queued again. -/

namespace Arsenal.Workqueue

variable {Ctx Work Fn : Type*} [DecidableEq Work]

/-- The item whose entry the context is about to push or to remove. -/
def Pc.entry : Pc Work → Option Work
  | .queuePush w | .cancelRetain w _ => some w
  | _ => none

/-- The item whose entry the runner has taken. -/
def Runner.entry : Runner Work → Option Work
  | .poll => none
  | .popped w | .marked w | .inBody w | .leaving w => some w

namespace State

variable {s s' : State Ctx Work Fn} {a : Act Ctx Work} {c : Ctx} {w : Work}

/-- The context is between the two steps of a cancellation of `w` that returns `true`. -/
def Retaining (s : State Ctx Work Fn) (c : Ctx) (w : Work) : Prop :=
  s.pc c = .cancelRetain w false ∨ s.pc c = .cancelRetain w true

instance (s : State Ctx Work Fn) (c : Ctx) (w : Work) : Decidable (s.Retaining c w) :=
  inferInstanceAs (Decidable (_ ∨ _))

omit [DecidableEq Work] in
theorem retaining_of_pc {sync : Bool} (hpc : s.pc c = .cancelRetain w sync) :
    s.Retaining c w := by
  cases sync with
  | false => exact Or.inl hpc
  | true => exact Or.inr hpc

/-- The step does not fall into a gap.  A compare-exchange of `cancel_work` that succeeds comes
neither between the two steps of a `queue_work` nor between the runner's pop and its store; and
until it has removed the entry, no entry of that item is pushed or popped. -/
def Undisturbed (s : State Ctx Work Fn) : Act Ctx Work → Prop
  | .cancelCas _ w _ =>
    s.state w = .pending → (∀ c, s.pc c ≠ .queuePush w) ∧ s.runner ≠ .popped w
  | .queuePush _ w => ∀ c, ¬s.Retaining c w
  | .pop => ∀ w ∈ s.pending.head?, ∀ c, ¬s.Retaining c w
  | _ => True

instance [Fintype Ctx] (s : State Ctx Work Fn) : DecidablePred s.Undisturbed
  | .cancelCas _ w _ => inferInstanceAs
      (Decidable (s.state w = .pending → (∀ c, s.pc c ≠ .queuePush w) ∧ s.runner ≠ .popped w))
  | .queuePush _ w => inferInstanceAs (Decidable (∀ c, ¬s.Retaining c w))
  | .pop => inferInstanceAs (Decidable (∀ w ∈ s.pending.head?, ∀ c, ¬s.Retaining c w))
  | .callQueue .. | .queueCas .. | .callCancel .. | .cancelRetain .. | .syncSpin ..
  | .syncReturn .. | .setRunning _ | .callFunc _ | .bodyEnd _ | .setIdle _ => isTrue trivial

/-! ### What a step does to one item -/

/-- The item whose mark or entry the step changes. -/
def touches (s : State Ctx Work Fn) : Act Ctx Work → Option Work
  | .queueCas _ w => if s.state w = .idle then some w else none
  | .cancelCas _ w _ => if s.state w = .pending then some w else none
  | .pop => s.pending.head?
  | .queuePush _ w | .cancelRetain _ w _ | .setRunning w | .callFunc w | .bodyEnd w
  | .setIdle w => some w
  | .callQueue .. | .callCancel .. | .syncSpin .. | .syncReturn .. => none

/-- `s'` has the mark and the entries of `w` that `s` has, in the same places. -/
structure Untouched (s s' : State Ctx Work Fn) (w : Work) : Prop where
  state : s'.state w = s.state w
  pending : s'.pending.count w = s.pending.count w
  pc : ∀ c, s'.pc c = s.pc c ∨ (s.pc c).entry ≠ some w ∧ (s'.pc c).entry ≠ some w
  runner : s'.runner = s.runner ∨ s.runner.entry ≠ some w ∧ s'.runner.entry ≠ some w

theorem untouched_runner {p : Runner Work} {drained : Bool} (hold : s.runner.entry ≠ some w)
    (hnew : p.entry ≠ some w) : s.Untouched { s with runner := p, drained } w :=
  ⟨rfl, rfl, fun _ => Or.inl rfl, Or.inr ⟨hold, hnew⟩⟩

theorem untouched_setState {w' : Work} {v : WorkState} (hw : w ≠ w') :
    s.Untouched (s.setState w' v) w :=
  ⟨Function.update_of_ne hw .., rfl, fun _ => Or.inl rfl, Or.inl rfl⟩

theorem untouched_pending {entries : List Work} (h : entries.count w = s.pending.count w) :
    s.Untouched { s with pending := entries } w :=
  ⟨rfl, h, fun _ => Or.inl rfl, Or.inl rfl⟩

theorem Untouched.trans {s₁ s₂ s₃ : State Ctx Work Fn} (h : s₁.Untouched s₂ w)
    (h' : s₂.Untouched s₃ w) : s₁.Untouched s₃ w := by
  refine ⟨h'.state.trans h.state, h'.pending.trans h.pending, fun c => ?_, ?_⟩
  · rcases h.pc c with heq | ⟨hold, hmid⟩
    · exact heq ▸ h'.pc c
    · rcases h'.pc c with heq' | ⟨-, hnew⟩
      · exact Or.inr ⟨hold, heq' ▸ hmid⟩
      · exact Or.inr ⟨hold, hnew⟩
  · rcases h.runner with heq | ⟨hold, hmid⟩
    · exact heq ▸ h'.runner
    · rcases h'.runner with heq' | ⟨-, hnew⟩
      · exact Or.inr ⟨hold, heq' ▸ hmid⟩
      · exact Or.inr ⟨hold, hnew⟩

/-! ### The entries of one item -/

/-- The runner is past its store of `STATE_RUNNING` to `w`. -/
def Busy (s : State Ctx Work Fn) (w : Work) : Prop :=
  s.runner = .marked w ∨ s.Executing w

/-- A marked item has its entry in one place: with the context that pushes it, in the deque, or with
the runner.  An entry in the deque whose item is not marked, or is marked for another one, is about
to be removed. -/
structure Entry (s : State Ctx Work Fn) (w : Work) : Prop where
  once : s.pending.count w ≤ 1
  pending : s.state w = .pending → s.Waiting w
  queued : w ∈ s.pending →
    (s.state w = .pending ∧ ∀ c, s.pc c ≠ .queuePush w) ∨ ∃ c, s.Retaining c w
  pushing : ∀ c, s.pc c = .queuePush w → s.state w = .pending
  pushing_unique : ∀ c c', s.pc c = .queuePush w → s.pc c' = .queuePush w → c = c'
  retaining : ∀ c, s.Retaining c w →
    w ∈ s.pending ∧ (s.state w = .pending → ∃ c', s.pc c' = .queuePush w)
  retaining_unique : ∀ c c', s.Retaining c w → s.Retaining c' w → c = c'
  popped : s.runner = .popped w →
    s.state w = .pending ∧ w ∉ s.pending ∧ ∀ c, s.pc c ≠ .queuePush w
  busy : s.Busy w → s.state w = .running ∧ w ∉ s.pending

theorem entry_init (func : Work → Option Fn) (w : Work) :
    (init func : State Ctx Work Fn).Entry w := by
  constructor <;> simp [init, Retaining, Busy, Executing]

theorem Untouched.queuePush_iff (h : s.Untouched s' w) (c : Ctx) :
    s'.pc c = .queuePush w ↔ s.pc c = .queuePush w := by
  rcases h.pc c with heq | ⟨hold, hnew⟩
  · rw [heq]
  · constructor
    · intro hc
      simp [hc, Pc.entry] at hnew
    · intro hc
      simp [hc, Pc.entry] at hold

theorem Untouched.retaining_iff (h : s.Untouched s' w) (c : Ctx) :
    s'.Retaining c w ↔ s.Retaining c w := by
  rcases h.pc c with heq | ⟨hold, hnew⟩
  · rw [Retaining, heq, Retaining]
  · constructor
    · rintro (hc | hc) <;> simp [hc, Pc.entry] at hnew
    · rintro (hc | hc) <;> simp [hc, Pc.entry] at hold

theorem Untouched.runner_iff (h : s.Untouched s' w) {p : Runner Work} (hp : p.entry = some w) :
    s'.runner = p ↔ s.runner = p := by
  rcases h.runner with heq | ⟨hold, hnew⟩
  · rw [heq]
  · constructor
    · rintro rfl
      exact absurd hp hnew
    · rintro rfl
      exact absurd hp hold

theorem Untouched.mem_iff (h : s.Untouched s' w) : w ∈ s'.pending ↔ w ∈ s.pending := by
  rw [← List.count_pos_iff, h.pending, List.count_pos_iff]

theorem Untouched.busy_iff (h : s.Untouched s' w) : s'.Busy w ↔ s.Busy w := by
  simp only [Busy, Executing]
  rw [h.runner_iff (p := .marked w) rfl, h.runner_iff (p := .inBody w) rfl,
    h.runner_iff (p := .leaving w) rfl]

theorem Entry.untouched (h : s.Entry w) (hs : s.Untouched s' w) : s'.Entry w := by
  have hpopped := hs.runner_iff (p := .popped w) rfl
  constructor <;> simp only [Waiting, ne_eq, hs.state, hs.pending, hs.mem_iff, hs.queuePush_iff,
    hs.retaining_iff, hpopped, hs.busy_iff]
  exacts [h.once, h.pending, h.queued, h.pushing, h.pushing_unique, h.retaining,
    h.retaining_unique, h.popped, h.busy]

/-- No context is about to push or to remove an entry of the item. -/
theorem entry_of_still (hfree : ∀ c, s.pc c ≠ .queuePush w) (hquiet : ∀ c, ¬s.Retaining c w)
    (honce : s.pending.count w ≤ 1)
    (hpending : s.state w = .pending ↔ w ∈ s.pending ∨ s.runner = .popped w)
    (hpopped : s.runner = .popped w → w ∉ s.pending)
    (hbusy : s.Busy w → s.state w = .running) : s.Entry w where
  once := honce
  pending hw := (hpending.mp hw).imp_right Or.inr
  queued hw := Or.inl ⟨hpending.mpr (Or.inl hw), hfree⟩
  pushing c hc := absurd hc (hfree c)
  pushing_unique c _ hc := absurd hc (hfree c)
  retaining c hc := absurd hc (hquiet c)
  retaining_unique c _ hc := absurd hc (hquiet c)
  popped hr := ⟨hpending.mpr (Or.inr hr), hpopped hr, hfree⟩
  busy hb := ⟨hbusy hb, fun hw => nomatch (hbusy hb).symm.trans (hpending.mpr (Or.inl hw))⟩

/-! ### The runner's steps -/

theorem Entry.pop {rest : List Work} (h : s.Entry w) (hp : s.pending = w :: rest)
    (hquiet : ∀ c', ¬s.Retaining c' w) :
    { s with pending := rest, runner := .popped w }.Entry w := by
  have hmem : w ∈ s.pending := by simp [hp]
  obtain ⟨hstate, hfree⟩ := (h.queued hmem).resolve_right fun ⟨c', hc'⟩ => hquiet c' hc'
  have honce := h.once
  rw [hp, List.count_cons_self] at honce
  have hcount : rest.count w = 0 := by omega
  have hnot : w ∉ rest := List.count_eq_zero.mp hcount
  refine entry_of_still hfree hquiet (hcount.trans_le (Nat.zero_le 1))
    (iff_of_true hstate (Or.inr rfl)) (fun _ => hnot) ?_
  rintro (hb | hb | hb) <;> cases hb

theorem Entry.setRunning (h : s.Entry w) (hr : s.runner = .popped w) :
    { s.setState w .running with runner := .marked w }.Entry w := by
  obtain ⟨-, hnot, hfree⟩ := h.popped hr
  have hrunning : (s.setState w .running).state w = .running := Function.update_self ..
  refine entry_of_still hfree (fun c hc => hnot (h.retaining c hc).1) h.once ?_ (fun _ => hnot)
    fun _ => hrunning
  exact iff_of_false (fun hw => nomatch hrunning.symm.trans hw) (not_or.mpr ⟨hnot, nofun⟩)

theorem Entry.runs {p : Runner Work} (h : s.Entry w) (hb : s.Busy w)
    (hp : p = .inBody w ∨ p = .leaving w) : { s with runner := p }.Entry w := by
  obtain ⟨hstate, hnot⟩ := h.busy hb
  refine { h with pending := fun hw => ?_, popped := fun hr => ?_, busy := fun _ => ⟨hstate, hnot⟩ }
  · exact absurd (hstate.symm.trans hw) (by simp)
  · rcases hp with rfl | rfl <;> cases hr

theorem Entry.setIdle (h : s.Entry w) (hr : s.runner = .leaving w) :
    { s.setState w .idle with runner := .poll, drained := true }.Entry w := by
  obtain ⟨hstate, hnot⟩ := h.busy (Or.inr (Or.inr hr))
  have hfree : ∀ c', s.pc c' ≠ .queuePush w := fun c' hc => by simp [h.pushing c' hc] at hstate
  have hidle : (s.setState w .idle).state w = .idle := Function.update_self ..
  refine entry_of_still hfree (fun c hc => hnot (h.retaining c hc).1) h.once ?_ (fun _ => hnot) ?_
  · exact iff_of_false (fun hw => nomatch hidle.symm.trans hw) (not_or.mpr ⟨hnot, nofun⟩)
  · rintro (hb | hb | hb) <;> cases hb

/-! ### The contexts' steps -/

variable [DecidableEq Ctx]

theorem untouched_goto {p : Pc Work} (hold : (s.pc c).entry ≠ some w) (hnew : p.entry ≠ some w) :
    s.Untouched (s.goto c p) w := by
  refine ⟨rfl, rfl, fun c' => ?_, Or.inl rfl⟩
  by_cases hc : c' = c
  · subst hc
    refine Or.inr ⟨hold, ?_⟩
    simpa only [goto, Function.update_self] using hnew
  · exact Or.inl (Function.update_of_ne hc ..)

theorem untouched_leave {b : Bool} (hold : (s.pc c).entry ≠ some w) :
    s.Untouched (s.leave c b) w :=
  { untouched_goto (p := .out) hold (by simp [Pc.entry]) with }

theorem untouched_cancelled {w' : Work} {b sync : Bool} (hold : (s.pc c).entry ≠ some w) :
    s.Untouched (s.cancelled c w' b sync) w := by
  cases sync with
  | false => exact untouched_leave hold
  | true => exact untouched_goto hold (by simp [Pc.entry])

/-- A step leaves the marks and entries of the other items alone. -/
theorem untouched_after (hen : s.Enabled a) (hw : s.touches a ≠ some w) :
    s.Untouched (s.after a) w := by
  have hpc : ∀ {c p}, s.pc c = p → p.entry ≠ some w → (s.pc c).entry ≠ some w :=
    fun h hp => h ▸ hp
  have hrun : ∀ {p}, s.runner = p → p.entry ≠ some w → s.runner.entry ≠ some w :=
    fun h hp => h ▸ hp
  cases a with
  | callQueue c work =>
    cases work with
    | none => exact untouched_leave (hpc hen (by simp [Pc.entry]))
    | some w' => exact untouched_goto (hpc hen (by simp [Pc.entry])) (by simp [Pc.entry])
  | queueCas c w' =>
    have hold := hpc hen (by simp [Pc.entry])
    simp only [after, queueCas]
    split
    · have hne : w' ≠ w := by simpa [touches, *] using hw
      exact (untouched_setState hne.symm).trans (untouched_goto hold (by simpa [Pc.entry]))
    · exact untouched_leave hold
  | queuePush c w' =>
    have hne : w' ≠ w := by simpa [touches] using hw
    refine (untouched_pending (by simp [hne])).trans (untouched_leave (hpc hen ?_))
    simpa [Pc.entry]
  | callCancel c work sync =>
    cases work with
    | none => exact untouched_leave (hpc hen (by simp [Pc.entry]))
    | some w' => exact untouched_goto (hpc hen (by simp [Pc.entry])) (by simp [Pc.entry])
  | cancelCas c w' sync =>
    have hold := hpc hen (by simp [Pc.entry])
    simp only [after, cancelCas]
    split
    · have hne : w' ≠ w := by simpa [touches, *] using hw
      exact (untouched_setState hne.symm).trans (untouched_goto hold (by simpa [Pc.entry]))
    · exact untouched_cancelled hold
  | cancelRetain c w' sync =>
    have hne : w' ≠ w := by simpa [touches] using hw
    exact (untouched_pending (List.count_filter (by simpa using hne.symm))).trans
      (untouched_cancelled (hpc hen (by simpa [Pc.entry])))
  | syncSpin c w' b =>
    simp only [after]
    split
    · exact untouched_pending rfl
    · exact untouched_goto (hpc hen (by simp [Pc.entry])) (by simp [Pc.entry])
  | syncReturn c w' b => exact untouched_leave (hpc hen (by simp [Pc.entry]))
  | pop =>
    have hold := hrun hen (by simp [Runner.entry])
    simp only [after, pop]
    split
    · exact ⟨rfl, rfl, fun _ => Or.inl rfl, Or.inl rfl⟩
    · rename_i w' rest hp
      have hne : w' ≠ w := by simpa [touches, hp] using hw
      exact ⟨rfl, by simp [hp, hne], fun _ => Or.inl rfl, Or.inr ⟨hold, by simpa [Runner.entry]⟩⟩
  | setRunning w' =>
    have hne : w' ≠ w := by simpa [touches] using hw
    exact (untouched_setState hne.symm).trans
      (untouched_runner (hrun hen (by simpa [Runner.entry])) (by simpa [Runner.entry]))
  | callFunc w' =>
    have hne : w' ≠ w := by simpa [touches] using hw
    refine untouched_runner (hrun hen (by simpa [Runner.entry])) ?_
    split <;> simpa [Runner.entry]
  | bodyEnd w' =>
    have hne : w' ≠ w := by simpa [touches] using hw
    exact untouched_runner (hrun hen (by simpa [Runner.entry])) (by simpa [Runner.entry])
  | setIdle w' =>
    have hne : w' ≠ w := by simpa [touches] using hw
    exact (untouched_setState hne.symm).trans
      (untouched_runner (hrun hen (by simpa [Runner.entry])) (by simp [Runner.entry]))

omit [DecidableEq Work] in
theorem pc_goto (p : Pc Work) (c' : Ctx) :
    (s.goto c p).pc c' = if c' = c then p else s.pc c' := Function.update_apply ..

omit [DecidableEq Work] in
/-- A context that does not come to a push leaves at most the pushes of others. -/
theorem pushing_of_goto {p : Pc Work} {c' : Ctx} (h : (s.goto c p).pc c' = .queuePush w)
    (hp : p ≠ .queuePush w) : c' ≠ c ∧ s.pc c' = .queuePush w := by
  rw [pc_goto] at h
  split at h
  · exact absurd h hp
  · exact ⟨‹_›, h⟩

omit [DecidableEq Work] in
theorem retaining_goto_iff {p : Pc Work} (hold : ∀ sync, s.pc c ≠ .cancelRetain w sync)
    (hnew : ∀ sync, p ≠ .cancelRetain w sync) (c' : Ctx) :
    (s.goto c p).Retaining c' w ↔ s.Retaining c' w := by
  simp only [Retaining, pc_goto]
  split
  · rename_i hc
    subst hc
    simp only [hold, hnew, or_self]
  · rfl

/-- `queue_work` marks an item that is nowhere, apart from an entry about to be removed. -/
theorem Entry.queueCas (h : s.Entry w) (hpc : s.pc c = .queueCas w) (hidle : s.state w = .idle) :
    ((s.setState w .pending).goto c (.queuePush w)).Entry w := by
  have hfree : ∀ c', s.pc c' ≠ .queuePush w := fun c' hc => by simp [h.pushing c' hc] at hidle
  have hpopped : s.runner ≠ .popped w := fun hr => by simp [(h.popped hr).1] at hidle
  have hbusy : ¬s.Busy w := fun hb => by simp [(h.busy hb).1] at hidle
  have hremoved : w ∈ s.pending → ∃ c', s.Retaining c' w := fun hw =>
    (h.queued hw).resolve_left fun ⟨hstate, _⟩ => by simp [hstate] at hidle
  have hmarked : (s.setState w .pending).state w = .pending := Function.update_self ..
  have hself := (s.setState w .pending).pc_goto (c := c) (.queuePush w)
  have hpushing : ∃ c', ((s.setState w .pending).goto c (.queuePush w)).pc c' = .queuePush w :=
    ⟨c, (hself c).trans (if_pos rfl)⟩
  have honly {c' : Ctx} (hc' : ((s.setState w .pending).goto c (.queuePush w)).pc c' =
      .queuePush w) : c' = c := by
    by_contra hne
    exact hfree c' ((if_neg hne).symm.trans ((hself c').symm.trans hc'))
  have hiff := (s.setState w .pending).retaining_goto_iff (c := c) (w := w) (p := .queuePush w)
    (fun sync hc => nomatch hpc.symm.trans hc) nofun
  exact {
    once := h.once
    pending := fun _ => Or.inr (Or.inl hpushing)
    queued := fun hw => Or.inr ((hremoved hw).imp fun c' => (hiff c').mpr)
    pushing := fun _ _ => hmarked
    pushing_unique := fun _ _ h₁ h₂ => (honly h₁).trans (honly h₂).symm
    retaining := fun c' hc' => ⟨(h.retaining c' ((hiff c').mp hc')).1, fun _ => hpushing⟩
    retaining_unique := fun _ _ h₁ h₂ =>
      h.retaining_unique _ _ ((hiff _).mp h₁) ((hiff _).mp h₂)
    popped := fun hr => absurd hr hpopped
    busy := fun hb => absurd hb hbusy }

theorem Entry.queuePush (h : s.Entry w) (hpc : s.pc c = .queuePush w)
    (hquiet : ∀ c', ¬s.Retaining c' w) :
    ({ s with pending := s.pending ++ [w] }.leave c true).Entry w := by
  have hstate := h.pushing c hpc
  have hnot : w ∉ s.pending := fun hw => by
    rcases h.queued hw with ⟨-, hfree⟩ | ⟨c', hc'⟩
    · exact hfree c hpc
    · exact hquiet c' hc'
  have hpopped : s.runner ≠ .popped w := fun hr => (h.popped hr).2.2 c hpc
  have hbusy : ¬s.Busy w := fun hb => by simp [(h.busy hb).1] at hstate
  have hiff := s.retaining_goto_iff (c := c) (w := w) (p := .out)
    (fun sync hc => nomatch hpc.symm.trans hc) nofun
  refine entry_of_still (fun c' hc' => ?_) (fun c' hc' => hquiet c' ((hiff c').mp hc')) ?_
    (iff_of_true hstate (Or.inl ?_)) (fun hr => absurd hr hpopped) fun hb => absurd hb hbusy
  · -- No other context was pushing.
    obtain ⟨hne, hc'⟩ := pushing_of_goto hc' nofun
    exact hne (h.pushing_unique c' c hc' hpc)
  · show (s.pending ++ [w]).count w ≤ 1
    rw [List.count_append, List.count_eq_zero.mpr hnot, List.count_singleton_self]
  · exact List.mem_append_right _ (List.mem_singleton_self w)

theorem Entry.cancelCas {sync : Bool} (h : s.Entry w)
    (hstate : s.state w = .pending) (hfree : ∀ c', s.pc c' ≠ .queuePush w)
    (hpopped : s.runner ≠ .popped w) :
    ((s.setState w .idle).goto c (.cancelRetain w sync)).Entry w := by
  have hmem : w ∈ s.pending := by
    rcases h.pending hstate with hmem | ⟨c', hc'⟩ | hr
    · exact hmem
    · exact absurd hc' (hfree c')
    · exact absurd hr hpopped
  have hquiet : ∀ c', ¬s.Retaining c' w := fun c' hc' => by
    obtain ⟨c'', hc''⟩ := (h.retaining c' hc').2 hstate
    exact hfree c'' hc''
  have hbusy : ¬s.Busy w := fun hb => by simp [(h.busy hb).1] at hstate
  have hidle : (s.setState w .idle).state w = .idle := Function.update_self ..
  have hself := (s.setState w .idle).pc_goto (c := c) (.cancelRetain w sync)
  have hfree' (c' : Ctx) :
      ((s.setState w .idle).goto c (.cancelRetain w sync)).pc c' ≠ .queuePush w := fun hc' =>
    hfree c' (pushing_of_goto hc' nofun).2
  have honly {c' : Ctx}
      (hc' : ((s.setState w .idle).goto c (.cancelRetain w sync)).Retaining c' w) : c' = c := by
    by_contra hne
    rw [Retaining, hself, if_neg hne] at hc'
    exact hquiet c' hc'
  exact {
    once := h.once
    pending := fun hw => nomatch hidle.symm.trans hw
    queued := fun _ => Or.inr ⟨c, retaining_of_pc ((hself c).trans (if_pos rfl))⟩
    pushing := fun c' hc' => absurd hc' (hfree' c')
    pushing_unique := fun c' _ hc' => absurd hc' (hfree' c')
    retaining := fun _ _ => ⟨hmem, fun hw => nomatch hidle.symm.trans hw⟩
    retaining_unique := fun _ _ h₁ h₂ => (honly h₁).trans (honly h₂).symm
    popped := fun hr => absurd hr hpopped
    busy := fun hb => absurd hb hbusy }

/-- `cancel_work` removes the entry.  If the item is marked again by now, its new entry is still to
be pushed. -/
theorem Entry.removed {p : Pc Work} (h : s.Entry w) (hc : s.Retaining c w)
    (hp : p.entry ≠ some w) :
    { s.goto c p with pending := s.pending.filter (· ≠ w) }.Entry w := by
  obtain ⟨hmem, hmarked⟩ := h.retaining c hc
  have hgone : w ∉ s.pending.filter (· ≠ w) := by simp
  have hpushing {c' : Ctx} (hc' : (s.goto c p).pc c' = .queuePush w) : s.pc c' = .queuePush w :=
    (pushing_of_goto hc' fun h => hp (h ▸ rfl)).2
  -- No other context was removing an entry.
  have hquiet (c' : Ctx) : ¬(s.goto c p).Retaining c' w := by
    simp only [Retaining, pc_goto]
    split
    · rintro (rfl | rfl) <;> exact hp rfl
    · rename_i hne
      exact fun hc' => hne (h.retaining_unique c' c hc' hc)
  exact {
    once := (List.count_eq_zero.mpr hgone).trans_le (Nat.zero_le 1)
    pending := fun hw => by
      obtain ⟨c', hc'⟩ := hmarked hw
      have hne : c' ≠ c := by
        rintro rfl
        rcases hc with hc | hc <;> cases hc.symm.trans hc'
      exact Or.inr (Or.inl ⟨c', (pc_goto p c').trans ((if_neg hne).trans hc')⟩)
    queued := fun hw => absurd hw hgone
    pushing := fun c' hc' => h.pushing c' (hpushing hc')
    pushing_unique := fun _ _ h₁ h₂ => h.pushing_unique _ _ (hpushing h₁) (hpushing h₂)
    retaining := fun c' hc' => absurd hc' (hquiet c')
    retaining_unique := fun c' _ hc' => absurd hc' (hquiet c')
    popped := fun hr => absurd hmem (h.popped hr).2.1
    busy := fun hb => absurd hmem (h.busy hb).2 }

theorem Entry.cancelRetain {sync : Bool} (h : s.Entry w) (hpc : s.pc c = .cancelRetain w sync) :
    (s.cancelRetain c w sync).Entry w := by
  have hc := retaining_of_pc hpc
  cases sync with
  | false => exact { h.removed (p := .out) hc nofun with }
  | true => exact h.removed (p := .syncSpin w true) hc nofun

theorem Entry.after (h : s.Entry w) (hen : s.Enabled a) (hquiet : s.Undisturbed a) :
    (s.after a).Entry w := by
  by_cases htouch : s.touches a = some w
  · cases a with
    | queueCas c w' =>
      simp only [touches, Option.ite_none_right_eq_some, Option.some_inj] at htouch
      obtain ⟨hidle, rfl⟩ := htouch
      simp only [State.after, State.queueCas, if_pos hidle]
      exact h.queueCas hen hidle
    | queuePush c w' =>
      obtain rfl : w' = w := Option.some_inj.mp htouch
      exact h.queuePush hen hquiet
    | cancelCas c w' sync =>
      simp only [touches, Option.ite_none_right_eq_some, Option.some_inj] at htouch
      obtain ⟨hstate, rfl⟩ := htouch
      obtain ⟨hfree, hpopped⟩ := hquiet hstate
      simp only [State.after, State.cancelCas, if_pos hstate]
      exact h.cancelCas hstate hfree hpopped
    | cancelRetain c w' sync =>
      obtain rfl : w' = w := Option.some_inj.mp htouch
      exact h.cancelRetain hen
    | pop =>
      simp only [State.after, State.pop]
      split
      · simp [touches, *] at htouch
      · rename_i w' rest hp
        obtain rfl : w' = w := by simpa [touches, hp] using htouch
        exact h.pop hp (hquiet _ (by simp [hp]))
    | setRunning w' =>
      obtain rfl : w' = w := Option.some_inj.mp htouch
      exact h.setRunning hen
    | callFunc w' =>
      obtain rfl : w' = w := Option.some_inj.mp htouch
      refine h.runs (Or.inl hen) ?_
      split
      · exact Or.inl rfl
      · exact Or.inr rfl
    | bodyEnd w' =>
      obtain rfl : w' = w := Option.some_inj.mp htouch
      exact h.runs (Or.inr (Or.inl hen)) (Or.inr rfl)
    | setIdle w' =>
      obtain rfl : w' = w := Option.some_inj.mp htouch
      exact h.setIdle hen
    | _ => cases htouch
  · exact h.untouched (untouched_after hen htouch)

/-! ### Where an entry comes from -/

theorem queuePush_after (hen : s.Enabled a) (hpc : (s.after a).pc c = .queuePush w) :
    (s.pc c = .queuePush w ∧ a.ctx ≠ some c) ∨ (a = .queueCas c w ∧ s.state w = .idle) := by
  by_cases hctx : a.ctx = some c
  · right
    cases a with
    | queueCas c' w' =>
      obtain rfl : c' = c := Option.some_inj.mp hctx
      simp only [State.after, State.queueCas] at hpc
      split at hpc
      · rename_i hidle
        simp only [goto, Function.update_self, Pc.queuePush.injEq] at hpc
        exact hpc ▸ ⟨rfl, hidle⟩
      · simp [leave, goto] at hpc
    | callQueue c' work | callCancel c' work =>
      obtain rfl : c' = c := Option.some_inj.mp hctx
      cases work <;> simp [State.after, leave, goto] at hpc
    | cancelCas c' w' sync =>
      obtain rfl : c' = c := Option.some_inj.mp hctx
      simp only [State.after, State.cancelCas] at hpc
      cases sync <;> split at hpc <;> simp [cancelled, leave, goto] at hpc
    | cancelRetain c' w' sync =>
      obtain rfl : c' = c := Option.some_inj.mp hctx
      cases sync <;> simp [State.after, State.cancelRetain, cancelled, leave, goto] at hpc
    | syncSpin c' w' b =>
      obtain rfl : c' = c := Option.some_inj.mp hctx
      simp only [State.after] at hpc
      split at hpc
      · exact absurd (Eq.trans hen.symm hpc) (by simp)
      · simp [goto] at hpc
    | queuePush c' w' | syncReturn c' w' b =>
      obtain rfl : c' = c := Option.some_inj.mp hctx
      simp [State.after, leave, goto] at hpc
    | _ => cases hctx
  · exact Or.inl ⟨(pc_after hctx).symm.trans hpc, hctx⟩

theorem mem_pending_of_after (hw : w ∈ (s.after a).pending) :
    w ∈ s.pending ∨ ∃ c, a = .queuePush c w := by
  cases a with
  | callQueue c work | callCancel c work => cases work <;> exact Or.inl hw
  | queueCas c w' => simp only [State.after, State.queueCas] at hw; split at hw <;> exact Or.inl hw
  | queuePush c w' =>
    rcases List.mem_append.mp hw with hw | hw
    · exact Or.inl hw
    · exact Or.inr ⟨c, by rw [List.mem_singleton.mp hw]⟩
  | cancelCas c w' sync =>
    simp only [State.after, State.cancelCas] at hw
    cases sync <;> split at hw <;> exact Or.inl hw
  | cancelRetain c w' sync => cases sync <;> exact Or.inl (List.mem_of_mem_filter hw)
  | syncSpin c w' b => simp only [State.after] at hw; split at hw <;> exact Or.inl hw
  | pop =>
    simp only [State.after, State.pop] at hw
    split at hw
    · exact Or.inl hw
    · rename_i hp
      exact Or.inl (hp ▸ List.mem_cons_of_mem _ hw)
  | _ => exact Or.inl hw

/-- The item is in the deque, or on its way from there to the start of its body. -/
def Queued (s : State Ctx Work Fn) (w : Work) : Prop :=
  w ∈ s.pending ∨ s.runner = .popped w ∨ s.runner = .marked w

theorem queued_of_after (hen : s.Enabled a) (hw : (s.after a).Queued w) :
    s.Queued w ∨ ∃ c, a = .queuePush c w := by
  rcases hw with hw | hr
  · rcases mem_pending_of_after hw with hw | hpush
    · exact Or.inl (Or.inl hw)
    · exact Or.inr hpush
  · left
    cases hctx : a.ctx with
    | some c => exact Or.inr (runner_after hctx ▸ hr)
    | none =>
      cases a with
      | pop =>
        simp only [State.after, State.pop] at hr
        split at hr
        · exact Or.inr hr
        · rename_i w' rest hp
          rcases hr with hr | hr
          · cases hr
            exact Or.inl (by simp [hp])
          · cases hr
      | setRunning w' =>
        rcases hr with hr | hr
        · cases hr
        · cases hr
          exact Or.inr (Or.inl hen)
      | callFunc w' =>
        simp only [State.after] at hr
        split at hr <;> rcases hr with hr | hr <;> cases hr
      | bodyEnd w' | setIdle w' => rcases hr with hr | hr <;> cases hr
      | _ => cases hctx

end State

/-! ### Histories -/

namespace Run

open State

variable [DecidableEq Ctx] {r : Run Ctx Work Fn} {t u v : ℕ} {c : Ctx} {w : Work}

/-- Context `c` makes its steps at `t` and at `u` and none between them. -/
structure Consecutive (r : Run Ctx Work Fn) (c : Ctx) (t u : ℕ) : Prop where
  lt : t < u
  none : ∀ i, t < i → i < u → (r.act i).ctx ≠ some c

/-- A call of `cancel_work` that returns `true`: its compare-exchange is at `t`, and at `u` it
removes the entry and returns. -/
structure Cancels (r : Run Ctx Work Fn) (t u : ℕ) (c : Ctx) (w : Work) (sync : Bool) : Prop where
  call : r.Consecutive c t u
  cas : r.act t = .cancelCas c w sync
  pending : (r.state t).state w = .pending
  retain : r.act u = .cancelRetain c w sync

/-- A call of `queue_work` that returns `true`: its compare-exchange is at `t`, and at `u` it pushes
the entry and returns. -/
structure Queues (r : Run Ctx Work Fn) (t u : ℕ) (c : Ctx) (w : Work) : Prop where
  call : r.Consecutive c t u
  cas : r.act t = .queueCas c w
  idle : (r.state t).state w = .idle
  push : r.act u = .queuePush c w

theorem enabled_of_act {a : Act Ctx Work} (h : r.act t = a) : (r.state t).Enabled a :=
  h ▸ r.enabled t

theorem entry (hquiet : ∀ i < v, (r.state i).Undisturbed (r.act i)) (w : Work) :
    (r.state v).Entry w := by
  induction v with
  | zero =>
    obtain ⟨func, hstart⟩ := r.start
    exact hstart ▸ entry_init func w
  | succ v ih =>
    have h := ih fun i hi => hquiet i (by omega)
    exact r.next v ▸ h.after (r.enabled v) (hquiet v (by omega))

/-- A context that is about to push an entry of `w` has marked the item, and not before `t` if none
was about to push one then. -/
theorem marked_of_queuePush (hnone : ∀ c, (r.state t).pc c ≠ .queuePush w) (htv : t ≤ v)
    (hpc : (r.state v).pc c = .queuePush w) :
    ∃ q, t ≤ q ∧ r.Consecutive c q v ∧ r.act q = .queueCas c w ∧
      (r.state q).state w = .idle := by
  induction v, htv using Nat.le_induction with
  | base => exact absurd hpc (hnone c)
  | succ v hle ih =>
    rw [r.next v] at hpc
    rcases queuePush_after (r.enabled v) hpc with ⟨hpc, hctx⟩ | ⟨hact, hidle⟩
    · obtain ⟨q, htq, hcall, hcas, hidle⟩ := ih hpc
      refine ⟨q, htq, ⟨by have := hcall.lt; omega, fun i hqi hiv => ?_⟩, hcas, hidle⟩
      rcases Nat.lt_succ_iff_lt_or_eq.mp hiv with hiv | rfl
      · exact hcall.none i hqi hiv
      · exact hctx
    · exact ⟨v, hle, ⟨by omega, fun i hvi hiv => by omega⟩, hact, hidle⟩

/-- After a cancellation the item has no entry, and each later one is of a call whose
compare-exchange came after that of the cancellation. -/
theorem requeued_of_queued {sync : Bool} (hquiet : ∀ i < v, (r.state i).Undisturbed (r.act i))
    (hcancel : r.Cancels t u c w sync) (huv : u + 1 ≤ v) (hw : (r.state v).Queued w) :
    ∃ q p c', t < q ∧ u < p ∧ p < v ∧ r.Queues q p c' w := by
  have htu := hcancel.call.lt
  have hnone : ∀ c', (r.state (t + 1)).pc c' ≠ .queuePush w := by
    have hundisturbed := hquiet t (by omega)
    rw [hcancel.cas] at hundisturbed
    intro c' hpc
    rw [r.next t, hcancel.cas] at hpc
    rcases queuePush_after (enabled_of_act hcancel.cas) hpc with ⟨hpc, -⟩ | ⟨hact, -⟩
    · exact (hundisturbed hcancel.pending).1 c' hpc
    · cases hact
  induction v, huv using Nat.le_induction with
  | base =>
    have hentry := entry (fun i hi => hquiet i (by omega)) w (v := u)
    have hretain : (r.state u).pc c = .cancelRetain w sync := enabled_of_act hcancel.retain
    have hmem : w ∈ (r.state u).pending := (hentry.retaining c (retaining_of_pc hretain)).1
    rw [r.next u, hcancel.retain] at hw
    rcases hw with hw | hr
    · cases sync <;> simp [State.after, State.cancelRetain, cancelled, leave, goto] at hw
    · rw [runner_after (c := c) rfl] at hr
      rcases hr with hr | hr
      · exact absurd hmem (hentry.popped hr).2.1
      · exact absurd hmem (hentry.busy (Or.inl hr)).2
  | succ v hle ih =>
    rw [r.next v] at hw
    rcases queued_of_after (r.enabled v) hw with hw | ⟨c', hpush⟩
    · obtain ⟨q, p, c', htq, hup, hpv, hqueues⟩ := ih (fun i hi => hquiet i (by omega)) hw
      exact ⟨q, p, c', htq, hup, by omega, hqueues⟩
    · have hpc : (r.state v).pc c' = .queuePush w := enabled_of_act hpush
      obtain ⟨q, htq, hcall, hcas, hidle⟩ := marked_of_queuePush hnone (by omega) hpc
      exact ⟨q, v, c', htq, by omega, by omega, hcall, hcas, hidle, hpush⟩

end Run

open Run

variable [DecidableEq Ctx]

/-! ### Cancelled until queued again -/

/-- In every run whose steps so far have not fallen into a gap, an item has at most one entry in the
deque.  After a call of `cancel_work` that returned `true`, neither an entry of the item is in the
deque nor does its body start, unless a call of `queue_work` that returned `true` has made its
compare-exchange since the cancellation made its own, and its push since the cancellation
returned. -/
theorem cancelled_until_requeued (r : Run Ctx Work Fn) (v : ℕ)
    (hquiet : ∀ i < v, (r.state i).Undisturbed (r.act i)) :
    (∀ w, (r.state v).pending.count w ≤ 1) ∧
      ∀ t u c w sync, r.Cancels t u c w sync → u < v →
        w ∈ (r.state v).pending ∨ r.Starts v w →
          ∃ q p c', t < q ∧ u < p ∧ p < v ∧ r.Queues q p c' w := by
  refine ⟨fun w => (entry hquiet w).once, fun t u c w sync hcancel huv hw => ?_⟩
  refine requeued_of_queued hquiet hcancel huv ?_
  rcases hw with hmem | hstart
  · exact Or.inl hmem
  · exact Or.inr (Or.inr (enabled_of_act hstart.1))

/-- An item is queued, cancelled, and queued again. -/
def againScript : List (Act Bool Unit) :=
  [.callQueue false (some ()), .queueCas false (), .queuePush false (),
    .callCancel true (some ()) false, .cancelCas true () false, .cancelRetain true () false,
    .callQueue false (some ()), .queueCas false (), .queuePush false (), .pop, .setRunning (),
    .callFunc (), .bodyEnd (), .setIdle ()]

def againRun : Run Bool Unit Unit :=
  ofScript (fun _ => some ()) againScript (by decide) ⟨rfl, rfl, by decide⟩

theorem cancelled_until_requeued_again : againRun.Cancels 4 5 true () false ∧
    againRun.Starts 11 () ∧ ∃ q p c, 4 < q ∧ 5 < p ∧ p < 11 ∧ againRun.Queues q p c () := by
  have hcancel : againRun.Cancels 4 5 true () false :=
    ⟨⟨by decide, fun i hi hi' => by omega⟩, rfl, rfl, rfl⟩
  have hstart : againRun.Starts 11 () := ⟨rfl, rfl⟩
  have hquiet : ∀ i < 11, (againRun.state i).Undisturbed (againRun.act i) := by decide
  exact ⟨hcancel, hstart,
    (cancelled_until_requeued againRun 11 hquiet).2 4 5 true () false hcancel (by decide)
      (Or.inr hstart)⟩

/-- Twice a cancellation falls between the two steps of `queue_work` in context `0`.  The second
time, context `2` queues the item before context `0` goes on. -/
def lateScript : List (Act (Fin 3) Unit) :=
  [.callQueue 0 (some ()), .queueCas 0 (), .callCancel 1 (some ()) false, .cancelCas 1 () false,
    .cancelRetain 1 () false, .queuePush 0 (), .pop, .setRunning (), .callFunc (), .bodyEnd (),
    .setIdle (), .callQueue 0 (some ()), .queueCas 0 (), .callCancel 1 (some ()) false,
    .cancelCas 1 () false, .cancelRetain 1 () false, .callQueue 2 (some ()), .queueCas 2 (),
    .queuePush 2 (), .queuePush 0 (), .pop, .setRunning (), .callFunc (), .bodyEnd (),
    .setIdle (), .pop, .setRunning (), .callFunc (), .bodyEnd (), .setIdle ()]

def lateRun : Run (Fin 3) Unit Unit :=
  ofScript (fun _ => some ()) lateScript (by decide) ⟨rfl, rfl, by decide⟩

/-- The entry that context `0` pushes outlives the cancellation and the body starts, though nobody
has queued the item since; and in the second round the deque holds the item twice. -/
theorem entry_outlives_cancel : lateRun.Cancels 3 4 1 () false ∧ (lateRun.state 5).ret 1 = true ∧
    () ∈ (lateRun.state 6).pending ∧ lateRun.Starts 8 () ∧
      (∀ q < 8, 3 < q → ∀ c, lateRun.act q ≠ .queueCas c ()) ∧
        (lateRun.state 20).pending = [(), ()] := by
  refine ⟨⟨⟨by decide, fun i hi hi' => by omega⟩, rfl, rfl, rfl⟩, rfl, by decide, ⟨rfl, rfl⟩,
    by decide, by decide⟩

end Arsenal.Workqueue
