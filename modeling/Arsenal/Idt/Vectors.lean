import Arsenal.Lib.Transition
import Mathlib.Data.List.Nodup
import Mathlib.Logic.Function.Basic

/-! The interrupt descriptor table of `idt.rs`.  Every processor calls `init`, and any task may call
`register_vector`; their steps interleave in any way. -/

namespace Arsenal.Idt

open Arsenal.Lib Relation

/-- `DYN_VECTOR_FIRST`. -/
def dynVectorFirst : UInt8 := 0x40

/-- `DYN_VECTOR_LAST`. -/
def dynVectorLast : UInt8 := 0xEE

/-- The handlers of `populate_static_entries`. -/
inductive StaticHandler where
  | divideByZero
  | invalidOpcode
  | breakpoint
  | generalProtection
  | pageFault
  | doubleFault
  | nonMaskable
  | machineCheck
  | spurious
  | timer
  | keyboard
  deriving DecidableEq, Repr

/-- The static entries, with the vectors of `apic.rs` for the last three. -/
def staticAt : UInt8 → Option StaticHandler
  | 0x00 => some .divideByZero
  | 0x06 => some .invalidOpcode
  | 0x03 => some .breakpoint
  | 0x0D => some .generalProtection
  | 0x0E => some .pageFault
  | 0x08 => some .doubleFault
  | 0x02 => some .nonMaskable
  | 0x12 => some .machineCheck
  | 0xFF => some .spurious
  | 0xEF => some .timer
  | 0x21 => some .keyboard
  | _ => none

/-- No static entry is in the range of `register_vector`. -/
theorem staticAt_dynamic {v : UInt8} (hfirst : dynVectorFirst ≤ v) (hlast : v ≤ dynVectorLast) :
    staticAt v = none := by
  unfold staticAt
  split
  all_goals first | rfl | exact absurd hfirst (by decide) | exact absurd hlast (by decide)

/-- An entry of the table. -/
inductive Entry (Handler : Type) where
  | static (h : StaticHandler)
  | dynamic (h : Handler)
  deriving DecidableEq, Repr

/-- Where a thread is in `idt.rs`. -/
inductive Pc (Handler : Type) where
  | idle
  | initLock
  | populate
  | load
  | initUnlock
  | fetch (h : Handler)
  | check (h : Handler) (v : UInt8)
  | lock (h : Handler) (v : UInt8)
  | set (h : Handler) (v : UInt8)
  | unlock (h : Handler) (v : UInt8)
  | panicked (v : UInt8)
  deriving DecidableEq, Repr

structure State (Thread Handler : Type) where
  /-- `IDT`. -/
  entries : UInt8 → Option (Entry Handler)
  lock : Option Thread
  /-- `IDT_POPULATED`. -/
  populated : Bool
  /-- `NEXT_DYN_VECTOR`. -/
  next : UInt8
  pcs : Thread → Pc Handler
  /-- The threads that have executed `lidt`. -/
  loaded : Thread → Bool
  /-- How often a vector was drawn, and the calls that have returned. -/
  calls : ℕ
  returned : List (UInt8 × Handler)

variable {Thread Handler : Type} [DecidableEq Thread]

/-- A call of `init`, or of `register_vector` with a handler. -/
inductive Call (Handler : Type) where
  | init
  | registerVector (h : Handler)
  deriving DecidableEq, Repr

namespace State

/-- The statics, as `spin::Mutex::new` and `AtomicU8::new` leave them. -/
def boot : State Thread Handler where
  entries _ := none
  lock := none
  populated := false
  next := dynVectorFirst
  pcs _ := .idle
  loaded _ := false
  calls := 0
  returned := []

variable (s : State Thread Handler) (t : Thread)

def goto (pc : Pc Handler) : State Thread Handler := { s with pcs := Function.update s.pcs t pc }

/-- A thread that is idle makes a call. -/
def call : Call Handler → State Thread Handler
  | .init => s.goto t .initLock
  | .registerVector h => s.goto t (.fetch h)

/-- `populate_static_entries`. -/
def populateStaticEntries (entries : UInt8 → Option (Entry Handler)) :
    UInt8 → Option (Entry Handler) :=
  fun v => match staticAt v with
    | some h => some (.static h)
    | none => entries v

/-- The next step of a thread in a call, unless it has to wait for the lock. -/
def run : Option (State Thread Handler) :=
  match s.pcs t with
  | .idle | .panicked _ => none
  | .initLock => if s.lock = none then some { s.goto t .populate with lock := some t } else none
  | .populate =>
    if s.populated then some (s.goto t .load)
    else some { s.goto t .load with
      populated := true
      entries := populateStaticEntries s.entries }
  | .load => some { s.goto t .initUnlock with loaded := Function.update s.loaded t true }
  | .initUnlock => some { s.goto t .idle with lock := none }
  | .fetch h => some { s.goto t (.check h s.next) with next := s.next + 1, calls := s.calls + 1 }
  | .check h v =>
    if v ≤ dynVectorLast then some (s.goto t (.lock h v)) else some (s.goto t (.panicked v))
  | .lock h v => if s.lock = none then some { s.goto t (.set h v) with lock := some t } else none
  | .set h v => some { s.goto t (.unlock h v) with
      entries := Function.update s.entries v (some (.dynamic h)) }
  | .unlock h v => some { s.goto t .idle with lock := none, returned := s.returned ++ [(v, h)] }

end State

/-- One step of any thread. -/
inductive Step (s : State Thread Handler) : State Thread Handler → Prop
  | call {t : Thread} (hidle : s.pcs t = .idle) (c : Call Handler) : Step s (s.call t c)
  | run {t : Thread} {s' : State Thread Handler} (h : s.run t = some s') : Step s s'

/-! ### The invariant -/

/-- The vector that a thread has drawn and not returned. -/
def Pc.vector : Pc Handler → Option UInt8
  | .check _ v | .lock _ v | .set _ v | .unlock _ v | .panicked v => some v
  | _ => none

/-- The thread is in `init`. -/
def Pc.InInit : Pc Handler → Prop
  | .initLock | .populate | .load | .initUnlock => True
  | _ => False

/-- The thread is in the critical section. -/
def Pc.Holds : Pc Handler → Prop
  | .populate | .load | .initUnlock | .set _ _ | .unlock _ _ => True
  | _ => False

/-- What is known where a thread stands. -/
def Pc.Knows (entries : UInt8 → Option (Entry Handler)) (populated : Bool) : Pc Handler → Prop
  | .load | .initUnlock => populated
  | .lock _ v | .set _ v => v ≤ dynVectorLast
  | .unlock h v => v ≤ dynVectorLast ∧ entries v = some (.dynamic h)
  | .panicked v => dynVectorLast < v
  | _ => True

/-- The lock is held by the thread in the critical section. -/
def Locked (lock : Option Thread) (pcs : Thread → Pc Handler) : Prop :=
  ∀ t, lock = some t ↔ (pcs t).Holds

/-- The static entries are there once the table is populated. -/
def Static (entries : UInt8 → Option (Entry Handler)) (populated : Bool) : Prop :=
  populated → ∀ v h, staticAt v = some h → entries v = some (.static h)

/-- The vectors in use, by the threads and by the calls that have returned, are all different. -/
structure Drawn (pcs : Thread → Pc Handler) (entries : UInt8 → Option (Entry Handler)) (calls : ℕ)
    (returned : List (UInt8 × Handler)) : Prop where
  drawn : ∀ t v, (pcs t).vector = some v →
    dynVectorFirst ≤ v ∧ v.toNat < dynVectorFirst.toNat + calls
  apart : ∀ t t' v, (pcs t).vector = some v → (pcs t').vector = some v → t = t'
  given : ∀ v h, (v, h) ∈ returned → dynVectorFirst ≤ v ∧ v ≤ dynVectorLast ∧
    v.toNat < dynVectorFirst.toNat + calls ∧ entries v = some (.dynamic h) ∧
    ∀ t, (pcs t).vector ≠ some v
  nodup : (returned.map Prod.fst).Nodup

structure Inv (s : State Thread Handler) : Prop where
  locked : Locked s.lock s.pcs
  knows : ∀ t, (s.pcs t).Knows s.entries s.populated
  loaded : ∀ t, s.loaded t → s.populated
  static : Static s.entries s.populated
  drawn : Drawn s.pcs s.entries s.calls s.returned

/-! ### A thread that moves -/

section

variable {lock : Option Thread} {pcs : Thread → Pc Handler}
  {entries entries' : UInt8 → Option (Entry Handler)} {populated populated' : Bool} {calls : ℕ}
  {returned : List (UInt8 × Handler)} {t : Thread} {pc : Pc Handler}

omit [DecidableEq Thread] in
/-- Two threads are never in the critical section. -/
theorem Locked.only (h : Locked lock pcs) {t' : Thread} (ht : (pcs t).Holds)
    (ht' : (pcs t').Holds) : t' = t := by
  have hlock := (h t).mpr ht
  rw [(h t').mpr ht'] at hlock
  exact Option.some_inj.mp hlock

theorem Locked.keep (h : Locked lock pcs) (hpc : pc.Holds ↔ (pcs t).Holds) :
    Locked lock (Function.update pcs t pc) := by
  intro t'
  rw [h t', Function.update_apply]
  split
  · rename_i heq
    rw [heq, hpc]
  · rfl

theorem Locked.acquire (h : Locked none pcs) (hpc : pc.Holds) :
    Locked (some t) (Function.update pcs t pc) := by
  intro t'
  rw [Function.update_apply, Option.some_inj]
  split
  · rename_i heq
    exact iff_of_true heq.symm hpc
  · rename_i hne
    have hfree : ¬(pcs t').Holds := fun ht' => Option.some_ne_none t' ((h t').mpr ht').symm
    exact iff_of_false (Ne.symm hne) hfree

theorem Locked.release (h : Locked lock pcs) (ht : (pcs t).Holds) (hpc : ¬pc.Holds) :
    Locked none (Function.update pcs t pc) := by
  intro t'
  rw [Function.update_apply]
  refine iff_of_false (Option.some_ne_none t').symm ?_
  split
  · exact hpc
  · rename_i hne
    exact fun ht' => hne (h.only ht ht')

/-- Where the other threads stand, nothing else is known, unless they are in the critical
section. -/
theorem knows_move (h : ∀ t, (pcs t).Knows entries populated) (hpc : pc.Knows entries' populated')
    (hpop : populated → populated')
    (hentries : ∀ t' h v, t' ≠ t → pcs t' = .unlock h v → entries' v = entries v) (t' : Thread) :
    (Function.update pcs t pc t').Knows entries' populated' := by
  rw [Function.update_apply]
  split
  · exact hpc
  · rename_i hne
    have hknows := h t'
    cases hpc' : pcs t' with
    | unlock h' v =>
      rw [hpc'] at hknows
      exact ⟨hknows.1, (hentries t' h' v hne hpc').trans hknows.2⟩
    | load =>
      rw [hpc'] at hknows
      exact hpop hknows
    | initUnlock =>
      rw [hpc'] at hknows
      exact hpop hknows
    | _ =>
      rw [hpc'] at hknows
      exact hknows

/-- A thread that keeps or drops its vector. -/
theorem Drawn.keep (h : Drawn pcs entries calls returned)
    (hpc : ∀ v, pc.vector = some v → (pcs t).vector = some v)
    (hentries : ∀ v h, (v, h) ∈ returned → entries' v = entries v) :
    Drawn (Function.update pcs t pc) entries' calls returned := by
  have hold : ∀ t' v, (Function.update pcs t pc t').vector = some v →
      (pcs t').vector = some v := by
    intro t' v
    rw [Function.update_apply]
    split
    · rename_i heq
      rw [heq]
      exact hpc v
    · exact id
  refine ⟨fun t' v hv => h.drawn t' v (hold t' v hv),
    fun t' t'' v hv hv' => h.apart t' t'' v (hold t' v hv) (hold t'' v hv'), fun v h' hmem => ?_,
    h.nodup⟩
  obtain ⟨hfirst, hlast, hlt, hentry, hfree⟩ := h.given v h' hmem
  exact ⟨hfirst, hlast, hlt, (hentries v h' hmem).trans hentry,
    fun t' hv => hfree t' (hold t' v hv)⟩

/-- A thread draws a vector, unless the counter has wrapped. -/
theorem Drawn.draw (h : Drawn pcs entries calls returned) {v : UInt8}
    (hv : v.toNat = dynVectorFirst.toNat + calls) (hpc : pc.vector = some v) :
    Drawn (Function.update pcs t pc) entries (calls + 1) returned := by
  have hnew : ∀ t', (pcs t').vector ≠ some v := by
    intro t' ht'
    have := (h.drawn t' v ht').2
    omega
  have hcases : ∀ t' v', (Function.update pcs t pc t').vector = some v' →
      (t' = t ∧ v' = v) ∨ (t' ≠ t ∧ (pcs t').vector = some v') := by
    intro t' v'
    rw [Function.update_apply]
    split
    · rename_i heq
      rw [hpc]
      exact fun hv' => Or.inl ⟨heq, (Option.some_inj.mp hv').symm⟩
    · rename_i hne
      exact fun hv' => Or.inr ⟨hne, hv'⟩
  refine ⟨fun t' v' hv' => ?_, fun t' t'' v' hv' hv'' => ?_, fun v' h' hmem => ?_, h.nodup⟩
  · rcases hcases t' v' hv' with ⟨-, rfl⟩ | ⟨-, hold⟩
    · refine ⟨UInt8.le_iff_toNat_le.mpr ?_, ?_⟩ <;> omega
    · obtain ⟨hfirst, hlt⟩ := h.drawn t' v' hold
      exact ⟨hfirst, by omega⟩
  · rcases hcases t' v' hv' with ⟨rfl, rfl⟩ | ⟨-, hold⟩
    · rcases hcases t'' v' hv'' with ⟨rfl, -⟩ | ⟨-, hold'⟩
      · rfl
      · exact absurd hold' (hnew t'')
    · rcases hcases t'' v' hv'' with ⟨rfl, rfl⟩ | ⟨-, hold'⟩
      · exact absurd hold (hnew t')
      · exact h.apart t' t'' v' hold hold'
  · obtain ⟨hfirst, hlast, hlt, hentry, hfree⟩ := h.given v' h' hmem
    refine ⟨hfirst, hlast, by omega, hentry, fun t' hv' => ?_⟩
    rcases hcases t' v' hv' with ⟨-, rfl⟩ | ⟨-, hold⟩
    · omega
    · exact hfree t' hold

/-- A call returns the vector of its thread. -/
theorem Drawn.give (h : Drawn pcs entries calls returned) {v : UInt8} {handler : Handler}
    (hv : (pcs t).vector = some v) (hlast : v ≤ dynVectorLast)
    (hentry : entries v = some (.dynamic handler)) (hpc : pc.vector = none) :
    Drawn (Function.update pcs t pc) entries calls (returned ++ [(v, handler)]) := by
  have hkeep : Drawn (Function.update pcs t pc) entries calls returned := by
    refine h.keep (fun v' hv' => ?_) fun _ _ _ => rfl
    rw [hpc] at hv'
    cases hv'
  have hfree : ∀ t', (Function.update pcs t pc t').vector ≠ some v := by
    intro t'
    rw [Function.update_apply]
    split
    · rw [hpc]
      exact (Option.some_ne_none v).symm
    · rename_i hne
      exact fun hv' => hne (h.apart t' t v hv' hv)
  refine ⟨hkeep.drawn, hkeep.apart, fun v' h' hmem => ?_, ?_⟩
  · rcases List.mem_append.mp hmem with hmem | hmem
    · exact hkeep.given v' h' hmem
    · cases List.mem_singleton.mp hmem
      obtain ⟨hfirst, hlt⟩ := h.drawn t v hv
      exact ⟨hfirst, hlast, hlt, hentry, hfree⟩
  · rw [List.map_append, List.nodup_append]
    refine ⟨h.nodup, List.nodup_singleton _, fun v' hmem v'' hmem' heq => ?_⟩
    obtain ⟨⟨v₁, h₁⟩, hgiven, rfl⟩ := List.mem_map.mp hmem
    obtain rfl : v₁ = v := heq.trans (List.mem_singleton.mp hmem')
    exact (h.given v₁ h₁ hgiven).2.2.2.2 t hv

end

/-! ### Steps and runs -/

/-- How often a vector can be drawn before the counter wraps. -/
def beforeWrap : ℕ := 192

/-- The counter is the number of calls, modulo 256. -/
def Counts (s : State Thread Handler) : Prop :=
  s.next.toNat = (dynVectorFirst.toNat + s.calls) % 256

variable {s s' : State Thread Handler} {t : Thread}

theorem Counts.step (h : Counts s) (hs : Step s s') : Counts s' ∧ s.calls ≤ s'.calls := by
  cases hs with
  | call hidle c => cases c <;> exact ⟨h, Nat.le_refl _⟩
  | @run t _ hr =>
    cases hpc : s.pcs t <;> simp only [State.run, hpc] at hr
    case idle | panicked => cases hr
    case initLock | lock =>
      obtain ⟨-, heq⟩ := Option.ite_none_right_eq_some.mp hr
      cases heq
      exact ⟨h, Nat.le_refl _⟩
    case populate | check =>
      split at hr <;> (cases hr; exact ⟨h, Nat.le_refl _⟩)
    case fetch =>
      cases hr
      refine ⟨?_, Nat.le_succ _⟩
      have hnext : s.next.toNat = (64 + s.calls) % 256 := h
      show (s.next + 1).toNat = (64 + (s.calls + 1)) % 256
      rw [UInt8.toNat_add, hnext]
      show ((64 + s.calls) % 256 + 1) % 256 = _
      omega
    all_goals
      cases hr
      exact ⟨h, Nat.le_refl _⟩

omit [DecidableEq Thread] in
theorem Counts.boot : Counts (State.boot : State Thread Handler) := rfl

omit [DecidableEq Thread] in
theorem Inv.boot : Inv (State.boot : State Thread Handler) where
  locked t := by simp [State.boot, Pc.Holds]
  knows t := trivial
  loaded t ht := by cases ht
  static hpop := by cases hpop
  drawn := by
    refine ⟨fun t v hv => ?_, fun t t' v hv _ => ?_, fun v h hmem => ?_, List.nodup_nil⟩
    · cases hv
    · cases hv
    · cases hmem

theorem Inv.call (h : Inv s) (hidle : s.pcs t = .idle) (c : Call Handler) : Inv (s.call t c) := by
  have hmove : ∀ pc : Pc Handler, ¬pc.Holds → pc.vector = none →
      pc.Knows s.entries s.populated → Inv (s.goto t pc) := by
    intro pc hholds hvector hknows
    refine ⟨h.locked.keep ?_, knows_move h.knows hknows id fun _ _ _ _ _ => rfl, h.loaded, h.static,
      h.drawn.keep (fun v hv => ?_) fun _ _ _ => rfl⟩
    · rw [hidle]
      exact iff_of_false hholds id
    · rw [hvector] at hv
      cases hv
  cases c with
  | init => exact hmove _ id rfl trivial
  | registerVector handler => exact hmove _ id rfl trivial

theorem Static.populate (entries : UInt8 → Option (Entry Handler)) :
    Static (State.populateStaticEntries entries) true := by
  intro _ v h hv
  simp only [State.populateStaticEntries, hv]

theorem populate_dynamic {entries : UInt8 → Option (Entry Handler)} {v : UInt8}
    (hfirst : dynVectorFirst ≤ v) (hlast : v ≤ dynVectorLast) :
    State.populateStaticEntries entries v = entries v := by
  simp only [State.populateStaticEntries, staticAt_dynamic hfirst hlast]

/-- The entry of a dynamic vector is set. -/
theorem Static.set {entries : UInt8 → Option (Entry Handler)} {populated : Bool}
    (h : Static entries populated) {v : UInt8} (hfirst : dynVectorFirst ≤ v)
    (hlast : v ≤ dynVectorLast) (entry : Option (Entry Handler)) :
    Static (Function.update entries v entry) populated := by
  intro hpop v' h' hv'
  rw [Function.update_apply, if_neg, h hpop v' h' hv']
  rintro rfl
  rw [staticAt_dynamic hfirst hlast] at hv'
  cases hv'

theorem Inv.run (h : Inv s) (hcounts : Counts s) (hr : s.run t = some s')
    (hcalls : s'.calls ≤ beforeWrap) : Inv s' := by
  have hknows := h.knows t
  -- A step that leaves the table as it is.
  have hsame : ∀ (t' : Thread) (h' : Handler) v, t' ≠ t → s.pcs t' = .unlock h' v →
      s.entries v = s.entries v := fun _ _ _ _ _ => rfl
  -- In the critical section no other thread is about to return its vector.
  have hothers : (s.pcs t).Holds → ∀ (t' : Thread) (h' : Handler) v, t' ≠ t →
      s.pcs t' ≠ .unlock h' v := by
    intro hholds t' h' v hne hpc
    refine hne (h.locked.only hholds ?_)
    rw [hpc]
    trivial
  cases hpc : s.pcs t <;> simp only [State.run, hpc] at hr <;> rw [hpc] at hknows hothers
  case idle | panicked => cases hr
  case initLock =>
    obtain ⟨hfree, heq⟩ := Option.ite_none_right_eq_some.mp hr
    cases heq
    refine ⟨(hfree ▸ h.locked).acquire trivial, knows_move h.knows trivial id hsame,
      h.loaded, h.static, h.drawn.keep (fun v hv => ?_) fun _ _ _ => rfl⟩
    cases hv
  case populate =>
    have hlocked : Locked s.lock (Function.update s.pcs t .load) :=
      h.locked.keep (by rw [hpc]; exact Iff.rfl)
    split at hr
    · rename_i hpop
      cases hr
      refine ⟨hlocked, knows_move h.knows hpop id hsame, h.loaded, h.static,
        h.drawn.keep (fun v hv => ?_) fun _ _ _ => rfl⟩
      cases hv
    · cases hr
      refine ⟨hlocked, knows_move h.knows rfl (fun _ => rfl)
          (fun t' h' v hne heq => absurd heq (hothers trivial t' h' v hne)), fun _ _ => rfl,
        .populate _, h.drawn.keep (fun v hv => ?_) fun v h' hmem => ?_⟩
      · cases hv
      · obtain ⟨hfirst, hlast, -⟩ := h.drawn.given v h' hmem
        exact populate_dynamic hfirst hlast
  case load =>
    cases hr
    refine ⟨h.locked.keep (by rw [hpc]; exact Iff.rfl), knows_move h.knows hknows id hsame,
      fun t' _ => hknows, h.static, h.drawn.keep (fun v hv => ?_) fun _ _ _ => rfl⟩
    cases hv
  case initUnlock =>
    cases hr
    refine ⟨h.locked.release (by rw [hpc]; trivial) id, knows_move h.knows trivial id hsame,
      h.loaded, h.static, h.drawn.keep (fun v hv => ?_) fun _ _ _ => rfl⟩
    cases hv
  case fetch handler =>
    cases hr
    have hnext : s.next.toNat = (64 + s.calls) % 256 := hcounts
    have hlt : s.calls + 1 ≤ 192 := hcalls
    refine ⟨h.locked.keep (by rw [hpc]; exact Iff.rfl), knows_move h.knows trivial id hsame,
      h.loaded, h.static, h.drawn.draw (show s.next.toNat = 64 + s.calls by omega) rfl⟩
  case check handler v =>
    split at hr
    · rename_i hlast
      cases hr
      exact ⟨h.locked.keep (by rw [hpc]; exact Iff.rfl), knows_move h.knows hlast id hsame,
        h.loaded, h.static, h.drawn.keep (by rw [hpc]; exact fun _ => id) fun _ _ _ => rfl⟩
    · rename_i hlast
      cases hr
      exact ⟨h.locked.keep (by rw [hpc]; exact Iff.rfl),
        knows_move h.knows (UInt8.not_le.mp hlast) id hsame, h.loaded, h.static,
        h.drawn.keep (by rw [hpc]; exact fun _ => id) fun _ _ _ => rfl⟩
  case lock handler v =>
    obtain ⟨hfree, heq⟩ := Option.ite_none_right_eq_some.mp hr
    cases heq
    exact ⟨(hfree ▸ h.locked).acquire trivial, knows_move h.knows hknows id hsame, h.loaded,
      h.static, h.drawn.keep (by rw [hpc]; exact fun _ => id) fun _ _ _ => rfl⟩
  case set handler v =>
    cases hr
    have hvector : (s.pcs t).vector = some v := by rw [hpc]; rfl
    refine ⟨h.locked.keep (by rw [hpc]; exact Iff.rfl),
      knows_move h.knows ⟨hknows, Function.update_self ..⟩ id
        (fun t' h' v hne heq => absurd heq (hothers trivial t' h' v hne)), h.loaded,
      h.static.set (h.drawn.drawn t v hvector).1 hknows _,
      h.drawn.keep (by rw [hpc]; exact fun _ => id) fun v' h' hmem => ?_⟩
    refine Function.update_of_ne ?_ _ _
    rintro rfl
    exact (h.drawn.given v' h' hmem).2.2.2.2 t hvector
  case unlock handler v =>
    cases hr
    exact ⟨h.locked.release (by rw [hpc]; trivial) id, knows_move h.knows trivial id hsame,
      h.loaded, h.static, h.drawn.give (by rw [hpc]; rfl) hknows.1 hknows.2 rfl⟩

/-- `init` on a table that is populated: it writes nothing but the lock, and returns after
`lidt`. -/
theorem State.run_init (hpc : (s.pcs t).InInit) (hpop : s.populated)
    (hlocked : Locked s.lock s.pcs) (hloaded : s.pcs t = .initUnlock → s.loaded t)
    (hr : s.run t = some s') :
    s'.entries = s.entries ∧ s'.populated ∧ Locked s'.lock s'.pcs ∧
      (∀ t', t' ≠ t → s'.pcs t' = s.pcs t' ∧ s'.loaded t' = s.loaded t') ∧
      (((s'.pcs t).InInit ∧ (s'.pcs t = .initUnlock → s'.loaded t)) ∨
        s'.pcs t = .idle ∧ s'.loaded t) := by
  have hothers : ∀ pc (t' : Thread), t' ≠ t → Function.update s.pcs t pc t' = s.pcs t' :=
    fun pc t' hne => Function.update_of_ne hne ..
  cases heq : s.pcs t <;> simp only [State.run, heq] at hr
  case initLock =>
    obtain ⟨hfree, hs⟩ := Option.ite_none_right_eq_some.mp hr
    cases hs
    refine ⟨rfl, hpop, (hfree ▸ hlocked).acquire trivial, fun t' hne => ⟨hothers _ t' hne, rfl⟩,
      Or.inl ?_⟩
    simp [State.goto, Pc.InInit]
  case populate =>
    rw [if_pos hpop] at hr
    cases hr
    refine ⟨rfl, hpop, hlocked.keep (by rw [heq]; exact Iff.rfl),
      fun t' hne => ⟨hothers _ t' hne, rfl⟩, Or.inl ?_⟩
    simp [State.goto, Pc.InInit]
  case load =>
    cases hr
    refine ⟨rfl, hpop, hlocked.keep (by rw [heq]; exact Iff.rfl),
      fun t' hne => ⟨hothers _ t' hne, Function.update_of_ne hne ..⟩, Or.inl ?_⟩
    simp [State.goto, Pc.InInit]
  case initUnlock =>
    cases hr
    refine ⟨rfl, hpop, hlocked.release (by rw [heq]; trivial) id,
      fun t' hne => ⟨hothers _ t' hne, rfl⟩, Or.inr ⟨?_, hloaded heq⟩⟩
    simp [State.goto]
  all_goals
    rw [heq] at hpc
    exact hpc.elim

theorem Inv.step (h : Inv s) (hcounts : Counts s) (hs : Step s s')
    (hcalls : s'.calls ≤ beforeWrap) : Inv s' := by
  cases hs with
  | call hidle c => exact h.call hidle c
  | run hr => exact h.run hcounts hr hcalls

theorem inv_of_run (hrun : ReflTransGen Step State.boot s) :
    Counts s ∧ (s.calls ≤ beforeWrap → Inv s) := by
  refine invariant_of_step (fun s => Counts s ∧ (s.calls ≤ beforeWrap → Inv s))
    ⟨Counts.boot, fun _ => Inv.boot⟩ (fun s s' h hs => ?_) hrun
  obtain ⟨hcounts, hmono⟩ := h.1.step hs
  exact ⟨hcounts, fun hcalls => (h.2 (Nat.le_trans hmono hcalls)).step h.1 hs hcalls⟩

/-- However `init` and `register_vector` interleave, as long as the counter has not wrapped: a call
of `register_vector` returns a vector of its own, from 0x40 to 0xEE, and the handler stays there;
the static entries stay where they are, and are there for every thread that has loaded the table; a
call panics only after 175 others.  The counter wraps, though, and the call after 192 others draws
vector 0, that of the divide error. -/
theorem vectors_registered (hrun : ReflTransGen Step State.boot s) :
    (s.calls ≤ beforeWrap →
      (∀ v h, (v, h) ∈ s.returned → dynVectorFirst ≤ v ∧ v ≤ dynVectorLast ∧
        s.entries v = some (.dynamic h)) ∧
      (s.returned.map Prod.fst).Nodup ∧
      (∀ t, s.loaded t → ∀ v h, staticAt v = some h → s.entries v = some (.static h)) ∧
      ∀ t v, s.pcs t = .panicked v → 175 < s.calls) ∧
    (s.calls = beforeWrap → s.next = 0) := by
  obtain ⟨hcounts, hinv⟩ := inv_of_run hrun
  have hnext : s.next.toNat = (64 + s.calls) % 256 := hcounts
  refine ⟨fun hcalls => ?_, fun hcalls => ?_⟩
  · have h := hinv hcalls
    refine ⟨fun v handler hmem => ?_, h.drawn.nodup, fun t ht => h.static (h.loaded t ht),
      fun t v hpc => ?_⟩
    · obtain ⟨hfirst, hlast, -, hentry, -⟩ := h.drawn.given v handler hmem
      exact ⟨hfirst, hlast, hentry⟩
    · have hlast : dynVectorLast < v := by
        have hknows := h.knows t
        rw [hpc] at hknows
        exact hknows
      have hlt := (h.drawn.drawn t v (by rw [hpc]; rfl)).2
      have : 238 < v.toNat := UInt8.lt_iff_toNat_lt.mp hlast
      have : v.toNat < 64 + s.calls := hlt
      omega
  · rw [hcalls] at hnext
    exact UInt8.toNat_inj.mp hnext

/-- The steps, as a function: a thread makes a call, or takes its next step. -/
def State.act (s : State Thread Handler) :
    Thread × Option (Call Handler) → Option (State Thread Handler)
  | (t, some c) =>
    match s.pcs t with
    | .idle => some (s.call t c)
    | _ => none
  | (t, none) => s.run t

theorem Step.of_act {act : Thread × Option (Call Handler)} (h : s.act act = some s') :
    Step s s' := by
  obtain ⟨t, c | c⟩ := act
  · exact .run h
  · simp only [State.act] at h
    split at h
    · rename_i hidle
      cases h
      exact .call hidle c
    · cases h

/-- Two tasks draw their vectors, and the second one returns first; then a processor loads the
table. -/
def twoTasks : List (ℕ × Option (Call Char)) :=
  [(1, some (.registerVector 'a')), (2, some (.registerVector 'b')), (1, none), (2, none)] ++
    List.replicate 4 (2, none) ++ List.replicate 4 (1, none) ++ [(0, some .init)] ++
    List.replicate 4 (0, none)

theorem vectors_registered_two : ∃ s : State ℕ Char, ReflTransGen Step State.boot s ∧
    s.returned = [(0x41, 'b'), (0x40, 'a')] ∧ s.entries 0x40 = some (.dynamic 'a') ∧
      s.entries 0x0E = some (.static .pageFault) := by
  obtain ⟨s, hacts, hs⟩ : ∃ s : State ℕ Char, twoTasks.foldlM State.act State.boot = some s ∧
      (s.returned, s.calls, s.loaded 0) = ([(0x41, 'b'), (0x40, 'a')], 2, true) :=
    Option.map_eq_some_iff.mp (by decide +kernel)
  have hrun := run_of_foldlM (fun _ _ _ => Step.of_act) hacts
  obtain ⟨hreturned, hcalls, hloaded⟩ := by simpa using hs
  obtain ⟨hgiven, -, hstatic, -⟩ := (vectors_registered hrun).1 (by rw [hcalls]; decide)
  refine ⟨s, hrun, hreturned, (hgiven 0x40 'a' ?_).2.2, hstatic 0 hloaded 0x0E .pageFault rfl⟩
  rw [hreturned]
  exact List.mem_cons_of_mem _ (List.mem_cons_self ..)

end Arsenal.Idt
