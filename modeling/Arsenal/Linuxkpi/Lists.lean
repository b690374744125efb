import Arsenal.Lib.Circular
import Mathlib.Data.Fintype.Basic
import Mathlib.Data.List.Nodup
import Mathlib.Logic.Function.Basic

/-! The intrusive lists of `list.rs`.  A list is a circle through its head and its nodes; the heap
with its links stands for a map from the heads to the sequences of their nodes.  A node that is on
no list and links to itself is the head of an empty list. -/

namespace Arsenal.Linuxkpi.Lists

open Lib

/-- `list_head`; `none` is the null pointer. -/
structure ListHead (Addr : Type*) where
  next : Option Addr
  prev : Option Addr
  deriving DecidableEq, Repr

/-- `list_head::new`. -/
def ListHead.new {Addr : Type*} : ListHead Addr := ⟨none, none⟩

/-- The list heads that are in live memory. -/
abbrev Heap (Addr : Type*) := Addr → Option (ListHead Addr)

variable {Addr : Type*} [DecidableEq Addr]

/-! ### The operations

`none` is an access through a null pointer or to memory that is not live. -/

namespace Heap

def load (h : Heap Addr) (p : Option Addr) : Option (ListHead Addr) := p.bind h

def setNext (h : Heap Addr) (p v : Option Addr) : Option (Heap Addr) := do
  let a ← p
  let node ← h a
  return Function.update h a (some { node with next := v })

def setPrev (h : Heap Addr) (p v : Option Addr) : Option (Heap Addr) := do
  let a ← p
  let node ← h a
  return Function.update h a (some { node with prev := v })

/-- `INIT_LIST_HEAD`. -/
def initListHead (h : Heap Addr) (list : Option Addr) : Option (Heap Addr) :=
  if list = none then some h
  else do
    let h ← h.setNext list list
    h.setPrev list list

/-- `__list_add`. -/
def listAddBetween (h : Heap Addr) (new prev next : Option Addr) : Option (Heap Addr) := do
  let h ← h.setPrev next new
  let h ← h.setNext new next
  let h ← h.setPrev new prev
  h.setNext prev new

def listAdd (h : Heap Addr) (new head : Option Addr) : Option (Heap Addr) :=
  if new = none ∨ head = none then some h
  else do
    let node ← h.load head
    h.listAddBetween new head node.next

def listAddTail (h : Heap Addr) (new head : Option Addr) : Option (Heap Addr) :=
  if new = none ∨ head = none then some h
  else do
    let node ← h.load head
    h.listAddBetween new node.prev head

def listDel (h : Heap Addr) (entry : Option Addr) : Option (Heap Addr) :=
  if entry = none then some h
  else do
    let node ← h.load entry
    let prev := node.prev
    let next := node.next
    let h ← h.setPrev next prev
    let h ← h.setNext prev next
    let h ← h.setNext entry entry
    h.setPrev entry entry

def listEmpty (h : Heap Addr) (head : Option Addr) : Option ℤ :=
  if head = none then some 1
  else (h.load head).map fun node => if node.next = head then 1 else 0

/-! ### Links -/

def nextOf (h : Heap Addr) (a : Addr) : Option Addr := (h a).bind (·.next)

def prevOf (h : Heap Addr) (a : Addr) : Option Addr := (h a).bind (·.prev)

/-- `h'` has the live memory of `h`, with these links. -/
structure Relinked (h h' : Heap Addr) (next prev : Addr → Option Addr) : Prop where
  next : h'.nextOf = next
  prev : h'.prevOf = prev
  live : ∀ a, (h' a).isSome = (h a).isSome

variable {h h' : Heap Addr} {a new prev next : Addr} {v : Option Addr}

theorem setNext_live (ha : (h a).isSome) : ∃ h', h.setNext (some a) v = some h' ∧
    h.Relinked h' (Function.update h.nextOf a v) h.prevOf := by
  obtain ⟨node, hnode⟩ := Option.isSome_iff_exists.mp ha
  refine ⟨Function.update h a (some { node with next := v }), by simp [setNext, hnode], ?_, ?_, ?_⟩
  · funext b
    by_cases hb : b = a <;> simp [nextOf, hb]
  · funext b
    by_cases hb : b = a <;> simp [prevOf, hb, hnode]
  · intro b
    by_cases hb : b = a <;> simp [hb, hnode]

theorem setPrev_live (ha : (h a).isSome) : ∃ h', h.setPrev (some a) v = some h' ∧
    h.Relinked h' h.nextOf (Function.update h.prevOf a v) := by
  obtain ⟨node, hnode⟩ := Option.isSome_iff_exists.mp ha
  refine ⟨Function.update h a (some { node with prev := v }), by simp [setPrev, hnode], ?_, ?_, ?_⟩
  · funext b
    by_cases hb : b = a <;> simp [nextOf, hb, hnode]
  · funext b
    by_cases hb : b = a <;> simp [prevOf, hb]
  · intro b
    by_cases hb : b = a <;> simp [hb, hnode]

theorem initListHead_live (ha : (h a).isSome) : ∃ h', h.initListHead (some a) = some h' ∧
    h.Relinked h' (Function.update h.nextOf a (some a)) (Function.update h.prevOf a (some a)) := by
  obtain ⟨h₁, heq₁, hnext₁, hprev₁, hlive₁⟩ := setNext_live (v := some a) ha
  obtain ⟨h₂, heq₂, hnext₂, hprev₂, hlive₂⟩ :=
    setPrev_live (h := h₁) (v := some a) (by rw [hlive₁, ha])
  refine ⟨h₂, by simp [initListHead, heq₁, heq₂], by rw [hnext₂, hnext₁], by rw [hprev₂, hprev₁],
    fun b => by rw [hlive₂, hlive₁]⟩

theorem listAddBetween_live (hnew : (h new).isSome) (hprev : (h prev).isSome)
    (hnext : (h next).isSome) :
    ∃ h', h.listAddBetween (some new) (some prev) (some next) = some h' ∧
      h.Relinked h' (Function.update (Function.update h.nextOf new (some next)) prev (some new))
        (Function.update (Function.update h.prevOf next (some new)) new (some prev)) := by
  obtain ⟨h₁, heq₁, hnext₁, hprev₁, hlive₁⟩ := setPrev_live (v := some new) hnext
  obtain ⟨h₂, heq₂, hnext₂, hprev₂, hlive₂⟩ :=
    setNext_live (h := h₁) (a := new) (v := some next) (by rw [hlive₁, hnew])
  obtain ⟨h₃, heq₃, hnext₃, hprev₃, hlive₃⟩ :=
    setPrev_live (h := h₂) (a := new) (v := some prev) (by rw [hlive₂, hlive₁, hnew])
  obtain ⟨h₄, heq₄, hnext₄, hprev₄, hlive₄⟩ :=
    setNext_live (h := h₃) (a := prev) (v := some new) (by rw [hlive₃, hlive₂, hlive₁, hprev])
  refine ⟨h₄, by simp [listAddBetween, heq₁, heq₂, heq₃, heq₄], ?_, ?_, fun b => ?_⟩
  · rw [hnext₄, hnext₃, hnext₂, hnext₁]
  · rw [hprev₄, hprev₃, hprev₂, hprev₁]
  · rw [hlive₄, hlive₃, hlive₂, hlive₁]

theorem listDel_live {entry : Addr} (hentry : (h entry).isSome) (hprev : h.prevOf entry = some prev)
    (hnext : h.nextOf entry = some next) (hprevLive : (h prev).isSome)
    (hnextLive : (h next).isSome) :
    ∃ h', h.listDel (some entry) = some h' ∧
      h.Relinked h'
        (Function.update (Function.update h.nextOf prev (some next)) entry (some entry))
        (Function.update (Function.update h.prevOf next (some prev)) entry (some entry)) := by
  obtain ⟨node, hnode⟩ := Option.isSome_iff_exists.mp hentry
  rw [prevOf, hnode] at hprev
  rw [nextOf, hnode] at hnext
  obtain ⟨h₁, heq₁, hnext₁, hprev₁, hlive₁⟩ := setPrev_live (v := some prev) hnextLive
  obtain ⟨h₂, heq₂, hnext₂, hprev₂, hlive₂⟩ :=
    setNext_live (h := h₁) (a := prev) (v := some next) (by rw [hlive₁, hprevLive])
  obtain ⟨h₃, heq₃, hnext₃, hprev₃, hlive₃⟩ :=
    setNext_live (h := h₂) (a := entry) (v := some entry) (by rw [hlive₂, hlive₁, hentry])
  obtain ⟨h₄, heq₄, hnext₄, hprev₄, hlive₄⟩ :=
    setPrev_live (h := h₃) (a := entry) (v := some entry) (by rw [hlive₃, hlive₂, hlive₁, hentry])
  refine ⟨h₄, ?_, ?_, ?_, fun b => ?_⟩
  · have hprev : node.prev = some prev := hprev
    have hnext : node.next = some next := hnext
    simp [listDel, load, hnode, hprev, hnext, heq₁, heq₂, heq₃, heq₄]
  · rw [hnext₄, hnext₃, hnext₂, hnext₁]
  · rw [hprev₄, hprev₃, hprev₂, hprev₁]
  · rw [hlive₄, hlive₃, hlive₂, hlive₁]

omit [DecidableEq Addr] in
theorem node_of_nextOf (hnext : h.nextOf a = some next) :
    ∃ node, h a = some node ∧ node.next = some next :=
  Option.bind_eq_some_iff.mp hnext

omit [DecidableEq Addr] in
theorem node_of_prevOf (hprev : h.prevOf a = some prev) :
    ∃ node, h a = some node ∧ node.prev = some prev :=
  Option.bind_eq_some_iff.mp hprev

end Heap

/-! ### The map that a heap stands for -/

/-- The sequences of nodes of the lists, by their heads. -/
abbrev Sequences (Addr : Type*) := Addr → Option (List Addr)

inductive Op (Addr : Type*) where
  | init (list : Addr)
  | add (new head : Addr)
  | addTail (new head : Addr)
  | del (entry : Addr)
  | empty (head : Addr)
  deriving DecidableEq, Repr

def Op.nodes : Op Addr → List Addr
  | .init list => [list]
  | .add new head | .addTail new head => [new, head]
  | .del entry => [entry]
  | .empty head => [head]

namespace Sequences

/-- There is no list yet. -/
def init : Sequences Addr := fun _ => none

def Linked (s : Sequences Addr) (node : Addr) : Prop :=
  ∃ head nodes, s head = some nodes ∧ node ∈ nodes

/-- The node is on no list, and if it is a head, its list is empty. -/
structure Detached (s : Sequences Addr) (node : Addr) : Prop where
  not_linked : ¬s.Linked node
  empty : ∀ nodes, s node = some nodes → nodes = []

/-- A node is initialised or added only when it is detached, and deleted only when it is linked;
what it is added to is the head of a list. -/
def Allowed (s : Sequences Addr) : Op Addr → Prop
  | .init list => s.Detached list
  | .add new head | .addTail new head => s.Detached new ∧ new ≠ head ∧ (s head).isSome
  | .del entry => s.Linked entry
  | .empty head => (s head).isSome ∨ s.Linked head

instance [Fintype Addr] (s : Sequences Addr) : DecidablePred s.Linked := fun node =>
  decidable_of_iff (∃ head, ∃ nodes ∈ s head, node ∈ nodes) Iff.rfl

instance [Fintype Addr] (s : Sequences Addr) : DecidablePred s.Detached := fun node =>
  decidable_of_iff (¬s.Linked node ∧ ∀ nodes ∈ s node, nodes = [])
    ⟨fun h => ⟨h.1, h.2⟩, fun h => ⟨h.not_linked, h.empty⟩⟩

instance [Fintype Addr] (s : Sequences Addr) : DecidablePred s.Allowed
  | .init list => inferInstanceAs (Decidable (s.Detached list))
  | .add new head | .addTail new head =>
    inferInstanceAs (Decidable (s.Detached new ∧ new ≠ head ∧ (s head).isSome))
  | .del entry => inferInstanceAs (Decidable (s.Linked entry))
  | .empty head => inferInstanceAs (Decidable ((s head).isSome ∨ s.Linked head))

/-- What the operations do to the sequences. -/
def after (s : Sequences Addr) : Op Addr → Sequences Addr
  | .init list => Function.update s list (some [])
  | .add new head =>
    Function.update (Function.update s head ((s head).map (new :: ·))) new none
  | .addTail new head =>
    Function.update (Function.update s head ((s head).map (· ++ [new]))) new none
  | .del entry => Function.update (fun head => (s head).map (·.erase entry)) entry (some [])
  | .empty _ => s

/-- What the operation returns, if it returns something. -/
def answer (s : Sequences Addr) : Op Addr → Option ℤ
  | .empty head => some (if s head = some [] then 1 else 0)
  | _ => none

end Sequences

/-- The heap stands for the sequences. -/
structure Represents (h : Heap Addr) (s : Sequences Addr) : Prop where
  circle : ∀ head nodes, s head = some nodes → Circle h.nextOf h.prevOf (head :: nodes)
  nodup : ∀ head nodes, s head = some nodes → (head :: nodes).Nodup
  disjoint : ∀ head head' nodes nodes', head ≠ head' → s head = some nodes →
    s head' = some nodes' → List.Disjoint (head :: nodes) (head' :: nodes')

section

omit [DecidableEq Addr]

variable {h h' : Heap Addr} {s s' : Sequences Addr} {head head' node new entry : Addr}
  {nodes nodes' : List Addr}

theorem represents_init (h : Heap Addr) : Represents h .init := by
  constructor
  · intro head nodes hs
    cases hs
  · intro head nodes hs
    cases hs
  · intro head head' nodes nodes' _ hs
    cases hs

theorem Sequences.Detached.not_mem (hnew : s.Detached new) (hs : s head = some nodes)
    (hne : head ≠ new) : new ∉ head :: nodes := by
  intro hmem
  rcases List.mem_cons.mp hmem with heq | hmem
  · exact hne heq.symm
  · exact hnew.not_linked ⟨head, nodes, hs, hmem⟩

namespace Represents

theorem live (hr : Represents h s) (hs : s head = some nodes) (hnode : node ∈ head :: nodes) :
    (h node).isSome := by
  obtain ⟨next, -, hnext, -⟩ := (hr.circle head nodes hs).next_mem hnode
  obtain ⟨cell, hcell, -⟩ := Heap.node_of_nextOf hnext
  simp [hcell]

/-- A node belongs to one list. -/
theorem head_unique (hr : Represents h s) (hs : s head = some nodes) (hs' : s head' = some nodes')
    (hnode : node ∈ head :: nodes) (hnode' : node ∈ head' :: nodes') : head = head' := by
  by_contra hne
  exact hr.disjoint head head' nodes nodes' hne hs hs' hnode hnode'

/-- Read from `entry`, its circle is `entry` and then the elements that stay. -/
theorem circle_of_entry (hr : Represents h s) {l₁ l₂ : List Addr}
    (hs : s head = some (l₁ ++ entry :: l₂)) :
    Circle h.nextOf h.prevOf (entry :: (l₂ ++ head :: l₁)) ∧
      (entry :: (l₂ ++ head :: l₁)).Nodup := by
  have hrotated : head :: (l₁ ++ entry :: l₂) ~r entry :: (l₂ ++ head :: l₁) :=
    List.isRotated_append (l := head :: l₁)
  exact ⟨(hr.circle _ _ hs).isRotated hrotated, hrotated.nodup_iff.mp (hr.nodup _ _ hs)⟩

/-- A linked node is not a head. -/
theorem eq_none_of_linked (hr : Represents h s) (hlinked : s.Linked entry) : s entry = none := by
  obtain ⟨head, nodes, hs, hentry⟩ := hlinked
  rw [Option.eq_none_iff_forall_ne_some]
  intro nodes' hs'
  obtain rfl := hr.head_unique hs hs' (List.mem_cons_of_mem _ hentry) (List.mem_cons_self ..)
  exact (List.nodup_cons.mp (hr.nodup _ _ hs)).1 hentry

/-- Links change only in a region that has no part of the lists that stay.  The other lists are new
and lie in the region. -/
theorem replace (region : Addr → Prop) (hr : Represents h s)
    (hnext : ∀ a, ¬region a → h'.nextOf a = h.nextOf a)
    (hprev : ∀ a, ¬region a → h'.prevOf a = h.prevOf a)
    (hs' : ∀ head nodes, s' head = some nodes →
      (s head = some nodes ∧ ∀ a ∈ head :: nodes, ¬region a) ∨
        (Circle h'.nextOf h'.prevOf (head :: nodes) ∧ (head :: nodes).Nodup ∧
          ∀ a ∈ head :: nodes, region a))
    (hnew : ∀ head head' nodes nodes', head ≠ head' → s' head = some nodes →
      s' head' = some nodes' → region head → region head' →
        List.Disjoint (head :: nodes) (head' :: nodes')) : Represents h' s' := by
  constructor
  · intro head nodes hs
    rcases hs' head nodes hs with ⟨hold, hout⟩ | ⟨hcircle, -⟩
    · exact (hr.circle head nodes hold).congr (fun a ha => hnext a (hout a ha))
        fun a ha => hprev a (hout a ha)
    · exact hcircle
  · intro head nodes hs
    rcases hs' head nodes hs with ⟨hold, -⟩ | ⟨-, hnodup, -⟩
    · exact hr.nodup head nodes hold
    · exact hnodup
  · intro head head' nodes nodes' hne h₁ h₂
    rcases hs' head nodes h₁ with ⟨hold, hout⟩ | ⟨-, -, hin⟩ <;>
      rcases hs' head' nodes' h₂ with ⟨hold', hout'⟩ | ⟨-, -, hin'⟩
    · exact hr.disjoint head head' nodes nodes' hne hold hold'
    · exact fun a ha ha' => hout a ha (hin' a ha')
    · exact fun a ha ha' => hout' a ha' (hin a ha)
    · exact hnew head head' nodes nodes' hne h₁ h₂ (hin head (List.mem_cons_self ..))
        (hin' head' (List.mem_cons_self ..))

end Represents

end

namespace Represents

variable {h h' : Heap Addr} {s : Sequences Addr} {head node new entry : Addr}
  {nodes nodes' : List Addr}

theorem initListHead (hr : Represents h s) (hnew : s.Detached new) (hlive : (h new).isSome) :
    ∃ h', h.initListHead (some new) = some h' ∧ Represents h' (s.after (.init new)) ∧
      ∀ a, (h' a).isSome = (h a).isSome := by
  obtain ⟨h', heq, hnext, hprev, hsame⟩ := Heap.initListHead_live hlive
  refine ⟨h', heq, hr.replace (· = new) ?_ ?_ ?_ ?_, hsame⟩
  · intro a ha
    rw [hnext, Function.update_of_ne ha]
  · intro a ha
    rw [hprev, Function.update_of_ne ha]
  · intro head nodes hs
    by_cases hhead : head = new
    · subst hhead
      obtain rfl : nodes = [] := by simpa [Sequences.after, eq_comm] using hs
      exact Or.inr ⟨Circle.single (by simp [hnext]) (by simp [hprev]), by simp, by simp⟩
    · have hold : s head = some nodes := by simpa [Sequences.after, hhead] using hs
      exact Or.inl ⟨hold, fun a ha heq => hnew.not_mem hold hhead (heq ▸ ha)⟩
  · rintro head head' nodes nodes' hne - - rfl rfl
    exact absurd rfl hne

/-- A detached node linked into a list. -/
theorem link (hr : Represents h s) (hnew : s.Detached new) (hne : new ≠ head)
    (hs : s head = some nodes) (hperm : nodes'.Perm (new :: nodes))
    (hcircle : Circle h'.nextOf h'.prevOf (head :: nodes'))
    (hnext : ∀ a, a ≠ new → a ∉ head :: nodes → h'.nextOf a = h.nextOf a)
    (hprev : ∀ a, a ≠ new → a ∉ head :: nodes → h'.prevOf a = h.prevOf a) :
    Represents h' (Function.update (Function.update s head (some nodes')) new none) := by
  have hmem : ∀ a, a ∈ head :: nodes' ↔ a = new ∨ a ∈ head :: nodes := by
    intro a
    simp only [List.mem_cons, hperm.mem_iff]
    tauto
  have hnodup : (head :: nodes').Nodup := by
    have hold := hr.nodup head nodes hs
    have hfresh := hnew.not_mem hs (Ne.symm hne)
    rw [(hperm.cons head).nodup_iff, List.Perm.nodup_iff (List.Perm.swap new head nodes)]
    exact List.nodup_cons.mpr ⟨hfresh, hold⟩
  refine hr.replace (fun a => a = new ∨ a ∈ head :: nodes) ?_ ?_ ?_ ?_
  · exact fun a ha => hnext a (fun heq => ha (Or.inl heq)) fun hin => ha (Or.inr hin)
  · exact fun a ha => hprev a (fun heq => ha (Or.inl heq)) fun hin => ha (Or.inr hin)
  · intro b m hb
    have hbnew : b ≠ new := by
      rintro rfl
      simp at hb
    by_cases hbhead : b = head
    · subst hbhead
      obtain rfl : nodes' = m := by simpa [hbnew] using hb
      exact Or.inr ⟨hcircle, hnodup, fun a ha => (hmem a).mp ha⟩
    · have hold : s b = some m := by simpa [hbnew, hbhead] using hb
      refine Or.inl ⟨hold, fun a ha hregion => ?_⟩
      rcases hregion with rfl | hin
      · exact hnew.not_mem hold hbnew ha
      · exact hbhead (hr.head_unique hold hs ha hin)
  · intro b b' m m' hbb hb hb' hregion hregion'
    have hhead : ∀ {b m}, Function.update (Function.update s head (some nodes')) new none b =
        some m → (b = new ∨ b ∈ head :: nodes) → b = head := by
      intro b m hb hregion
      have hbnew : b ≠ new := by
        rintro rfl
        simp at hb
      by_contra hbhead
      have hold : s b = some m := by simpa [hbnew, hbhead] using hb
      exact hbhead (hr.head_unique hold hs (List.mem_cons_self ..) (hregion.resolve_left hbnew))
    exact absurd ((hhead hb hregion).trans (hhead hb' hregion').symm) hbb

theorem listAdd (hr : Represents h s) (hnew : s.Detached new) (hne : new ≠ head)
    (hs : s head = some nodes) (hlive : (h new).isSome) :
    ∃ h', h.listAdd (some new) (some head) = some h' ∧ Represents h' (s.after (.add new head)) ∧
      ∀ a, (h' a).isSome = (h a).isSome := by
  have hcircle := hr.circle head nodes hs
  have hfresh := hnew.not_mem hs (Ne.symm hne)
  have hmem : head ∈ head :: nodes := List.mem_cons_self ..
  obtain ⟨q, hq, hnext, -⟩ := hcircle.next_mem hmem
  obtain ⟨cell, hcell, hcellNext⟩ := Heap.node_of_nextOf hnext
  obtain ⟨h', heq, hnext', hprev', hsame⟩ :=
    Heap.listAddBetween_live hlive (hr.live hs hmem) (hr.live hs hq)
  refine ⟨h', by simp [Heap.listAdd, Heap.load, hcell, hcellNext, heq], ?_, hsame⟩
  have hqnew : q ≠ new := fun h => hfresh (h ▸ hq)
  rw [Sequences.after, hs]
  refine hr.link hnew hne hs (List.Perm.refl _) ?_ ?_ ?_
  · have hnodup := hr.nodup head nodes hs
    refine hcircle.insert hnodup hnext ?_ ?_ ?_ ?_ ?_ ?_
    · simp [hnext']
    · simp [hnext', hne]
    · intro a ha
      have hahead : a ≠ head := fun h => (List.nodup_cons.mp hnodup).1 (h ▸ ha)
      have hanew : a ≠ new := fun h => hfresh (h ▸ List.mem_cons_of_mem _ ha)
      simp [hnext', hahead, hanew]
    · simp [hprev']
    · simp [hprev', hqnew]
    · intro a ha haq
      have hanew : a ≠ new := fun h => hfresh (h ▸ ha)
      simp [hprev', haq, hanew]
  · intro a ha hout
    have hahead : a ≠ head := fun h => hout (h ▸ hmem)
    simp [hnext', ha, hahead]
  · intro a ha hout
    have haq : a ≠ q := fun h => hout (h ▸ hq)
    simp [hprev', ha, haq]

/-- The same from the last element of the circle, of which the head is the next one. -/
theorem listAddTail (hr : Represents h s) (hnew : s.Detached new) (hne : new ≠ head)
    (hs : s head = some nodes) (hlive : (h new).isSome) :
    ∃ h', h.listAddTail (some new) (some head) = some h' ∧
      Represents h' (s.after (.addTail new head)) ∧ ∀ a, (h' a).isSome = (h a).isSome := by
  have hcircle := hr.circle head nodes hs
  have hfresh := hnew.not_mem hs (Ne.symm hne)
  have hmem : head ∈ head :: nodes := List.mem_cons_self ..
  obtain ⟨p, hp, hprev, hnext⟩ := hcircle.prev_mem hmem
  obtain ⟨i, hi⟩ : ∃ i, head :: nodes = i ++ [p] :=
    List.getLast?_eq_some_iff.mp (hcircle.prev_head.symm.trans hprev)
  have hrotated : head :: nodes ~r p :: i := hi ▸ List.isRotated_append
  obtain ⟨cell, hcell, hcellPrev⟩ := Heap.node_of_prevOf hprev
  obtain ⟨h', heq, hnext', hprev', hsame⟩ :=
    Heap.listAddBetween_live hlive (hr.live hs hp) (hr.live hs hmem)
  refine ⟨h', by simp [Heap.listAddTail, Heap.load, hcell, hcellPrev, heq], ?_, hsame⟩
  have hpnew : p ≠ new := fun h => hfresh (h ▸ hp)
  have hnodup : (p :: i).Nodup := hrotated.nodup_iff.mp (hr.nodup head nodes hs)
  rw [Sequences.after, hs]
  refine hr.link hnew hne hs (List.perm_append_singleton new nodes) ?_ ?_ ?_
  · have hins : Circle h'.nextOf h'.prevOf (p :: new :: i) := by
      refine (hcircle.isRotated hrotated).insert hnodup hnext ?_ ?_ ?_ ?_ ?_ ?_
      · simp [hnext']
      · simp [hnext', hpnew.symm]
      · intro a ha
        have hap : a ≠ p := fun h => (List.nodup_cons.mp hnodup).1 (h ▸ ha)
        have hanew : a ≠ new := by
          rintro rfl
          exact hfresh (hi ▸ List.mem_append_left _ ha)
        simp [hnext', hap, hanew]
      · simp [hprev']
      · simp [hprev', hne.symm]
      · intro a ha hahead
        have hanew : a ≠ new := by
          rintro rfl
          exact hfresh (hrotated.mem_iff.mpr ha)
        simp [hprev', hahead, hanew]
    have hback : p :: new :: i ~r head :: (nodes ++ [new]) := by
      have : i ++ [p, new] = head :: (nodes ++ [new]) := by
        rw [← List.cons_append, hi]
        simp
      rw [← this]
      exact List.isRotated_append (l := [p, new])
    exact hins.isRotated hback
  · intro a ha hout
    have hap : a ≠ p := fun h => hout (h ▸ hp)
    simp [hnext', ha, hap]
  · intro a ha hout
    have hahead : a ≠ head := fun h => hout (h ▸ hmem)
    simp [hprev', ha, hahead]

/-- Only the list of `head` loses a node. -/
theorem after_del (hr : Represents h s) {l₁ l₂ m : List Addr} {b : Addr}
    (hs : s head = some (l₁ ++ entry :: l₂)) (hb : s.after (.del entry) b = some m) :
    (b = entry ∧ m = []) ∨ (b = head ∧ m = l₁ ++ l₂) ∨ (s b = some m ∧ b ≠ head) := by
  by_cases hbentry : b = entry
  · subst hbentry
    exact Or.inl ⟨rfl, by simpa [Sequences.after, eq_comm] using hb⟩
  · right
    obtain ⟨m', hm', rfl⟩ : ∃ m', s b = some m' ∧ m'.erase entry = m := by
      simpa [Sequences.after, hbentry] using hb
    by_cases hbhead : b = head
    · subst hbhead
      rw [hs, Option.some_inj] at hm'
      have hl₁ : entry ∉ l₁ := by
        have hnodup := (hr.circle_of_entry hs).2
        simp only [List.nodup_cons, List.mem_append, List.mem_cons, not_or] at hnodup
        exact hnodup.1.2.2
      rw [← hm', List.erase_append_right _ hl₁, List.erase_cons_head]
      exact Or.inl ⟨rfl, rfl⟩
    · have hout : entry ∉ m' := fun hin =>
        hbhead (hr.head_unique hm' hs (List.mem_cons_of_mem _ hin) (by simp))
      rw [List.erase_of_not_mem hout]
      exact Or.inr ⟨hm', hbhead⟩

/-- Of the circle that `entry` was on, `entry` itself and what is left of the list are apart. -/
theorem disjoint_after_del (hr : Represents h s) {l₁ l₂ m m' : List Addr} {b b' : Addr}
    (hs : s head = some (l₁ ++ entry :: l₂)) (hbb : b ≠ b')
    (hb : s.after (.del entry) b = some m) (hb' : s.after (.del entry) b' = some m')
    (hin : b ∈ head :: (l₁ ++ entry :: l₂)) (hin' : b' ∈ head :: (l₁ ++ entry :: l₂)) :
    List.Disjoint (b :: m) (b' :: m') := by
  have hout : entry ∉ head :: (l₁ ++ l₂) := by
    have hnodup := (List.nodup_cons.mp (hr.circle_of_entry hs).2).1
    simp only [List.mem_append, List.mem_cons] at hnodup ⊢
    tauto
  have hplace : ∀ {b m}, s b = some m → b ∈ head :: (l₁ ++ entry :: l₂) → b = head :=
    fun hold hin => hr.head_unique hold hs (List.mem_cons_self ..) hin
  rcases hr.after_del hs hb with ⟨rfl, rfl⟩ | ⟨rfl, rfl⟩ | ⟨hold, hbhead⟩
  · rcases hr.after_del hs hb' with ⟨rfl, rfl⟩ | ⟨rfl, rfl⟩ | ⟨hold', hbhead'⟩
    · exact absurd rfl hbb
    · exact List.singleton_disjoint.mpr hout
    · exact absurd (hplace hold' hin') hbhead'
  · rcases hr.after_del hs hb' with ⟨rfl, rfl⟩ | ⟨rfl, rfl⟩ | ⟨hold', hbhead'⟩
    · exact List.disjoint_singleton.mpr hout
    · exact absurd rfl hbb
    · exact absurd (hplace hold' hin') hbhead'
  · exact absurd (hplace hold hin) hbhead

theorem listDel (hr : Represents h s) (hlinked : s.Linked entry) :
    ∃ h', h.listDel (some entry) = some h' ∧ Represents h' (s.after (.del entry)) ∧
      ∀ a, (h' a).isSome = (h a).isSome := by
  obtain ⟨head, nodes, hs, hentry⟩ := hlinked
  obtain ⟨l₁, l₂, rfl⟩ := List.append_of_mem hentry
  obtain ⟨hcircle, hnodup⟩ := hr.circle_of_entry hs
  obtain ⟨⟨q, hq, hnext⟩, p, hp, hprev⟩ := hcircle.neighbours (by simp)
  have hmem : ∀ {a}, a ∈ l₂ ++ head :: l₁ → a ∈ head :: (l₁ ++ entry :: l₂) := by
    intro a ha
    simp only [List.mem_append, List.mem_cons] at ha ⊢
    tauto
  have hentryMem : entry ∈ head :: (l₁ ++ entry :: l₂) := List.mem_cons_of_mem _ hentry
  have hstay : ∀ a ∈ l₂ ++ head :: l₁, a ≠ entry := fun a ha heq =>
    (List.nodup_cons.mp hnodup).1 (heq ▸ ha)
  have hrotated : l₂ ++ head :: l₁ ~r head :: (l₁ ++ l₂) := List.isRotated_append (l := l₂)
  obtain ⟨h', heq, hnext', hprev', hsame⟩ := Heap.listDel_live (hr.live hs hentryMem) hprev hnext
    (hr.live hs (hmem hp)) (hr.live hs (hmem hq))
  refine ⟨h', heq, ?_, hsame⟩
  have hcircle' : Circle h'.nextOf h'.prevOf (head :: (l₁ ++ l₂)) := by
    have hremove : Circle h'.nextOf h'.prevOf (l₂ ++ head :: l₁) := by
      refine hcircle.remove hnodup (by simp) hnext hprev ?_ ?_ ?_ ?_
      · simp [hnext', hstay p hp]
      · intro a ha hap
        simp [hnext', hap, hstay a ha]
      · simp [hprev', hstay q hq]
      · intro a ha haq
        simp [hprev', haq, hstay a ha]
    exact hremove.isRotated hrotated
  have hnodup' : (head :: (l₁ ++ l₂)).Nodup :=
    hrotated.nodup_iff.mp (List.nodup_cons.mp hnodup).2
  refine hr.replace (· ∈ head :: (l₁ ++ entry :: l₂)) ?_ ?_ ?_
    fun b b' m m' hbb hb hb' => hr.disjoint_after_del hs hbb hb hb'
  · intro a ha
    have hap : a ≠ p := fun h => ha (h ▸ hmem hp)
    have haentry : a ≠ entry := fun h => ha (h ▸ hentryMem)
    simp [hnext', hap, haentry]
  · intro a ha
    have haq : a ≠ q := fun h => ha (h ▸ hmem hq)
    have haentry : a ≠ entry := fun h => ha (h ▸ hentryMem)
    simp [hprev', haq, haentry]
  · intro b m hb
    rcases hr.after_del hs hb with ⟨rfl, rfl⟩ | ⟨rfl, rfl⟩ | ⟨hold, hbhead⟩
    · exact Or.inr ⟨Circle.single (by simp [hnext']) (by simp [hprev']), by simp, by simp⟩
    · refine Or.inr ⟨hcircle', hnodup', fun a ha => hmem ?_⟩
      simp only [List.mem_append, List.mem_cons] at ha ⊢
      tauto
    · exact Or.inl ⟨hold, fun a ha hin => hbhead (hr.head_unique hold hs ha hin)⟩

/-- `list_empty` on a head or on a linked node. -/
theorem listEmpty (hr : Represents h s) (hhead : (s head).isSome ∨ s.Linked head) :
    h.listEmpty (some head) = some (if s head = some [] then 1 else 0) := by
  have hanswer : ∀ {next}, h.nextOf head = some next →
      h.listEmpty (some head) = some (if next = head then 1 else 0) := by
    intro next hnext
    obtain ⟨cell, hcell, hcellNext⟩ := Heap.node_of_nextOf hnext
    simp [Heap.listEmpty, Heap.load, hcell, hcellNext]
  rcases hhead with hsome | hlinked
  · obtain ⟨nodes, hs⟩ := Option.isSome_iff_exists.mp hsome
    cases nodes with
    | nil =>
      rw [hanswer (hr.circle head [] hs).next_head, hs]
      simp
    | cons b nodes =>
      have hne : b ≠ head := fun h =>
        (List.nodup_cons.mp (hr.nodup _ _ hs)).1 (h ▸ List.mem_cons_self ..)
      rw [hanswer (hr.circle head (b :: nodes) hs).next_head, hs]
      simp [hne]
  · rw [hr.eq_none_of_linked hlinked]
    obtain ⟨head', nodes, hs, hentry⟩ := hlinked
    obtain ⟨l₁, l₂, rfl⟩ := List.append_of_mem hentry
    obtain ⟨hcircle, hnodup⟩ := hr.circle_of_entry hs
    obtain ⟨⟨q, hq, hnext⟩, -⟩ := hcircle.neighbours (by simp)
    have hne : q ≠ head := fun h => (List.nodup_cons.mp hnodup).1 (h ▸ hq)
    simp [hanswer hnext, hne]

omit [DecidableEq Addr] in
/-- The head of an empty list is detached. -/
theorem detached_of_empty (hr : Represents h s) (hs : s node = some []) : s.Detached node := by
  refine ⟨?_, fun nodes hnodes => ?_⟩
  · rintro ⟨head, nodes, hhead, hin⟩
    obtain rfl := hr.head_unique hhead hs (List.mem_cons_of_mem _ hin) (List.mem_cons_self ..)
    rw [hhead, Option.some_inj] at hs
    rw [hs] at hin
    cases hin
  · rw [hs, Option.some_inj] at hnodes
    exact hnodes.symm

/-- Memory that was not live comes to hold an empty list. -/
theorem addMemory (hr : Represents h s) (hdead : h node = none) :
    Represents (Function.update h node (some ⟨some node, some node⟩))
      (Function.update s node (some [])) := by
  have hout : ∀ {head nodes}, s head = some nodes → node ∉ head :: nodes := by
    intro head nodes hs hin
    have := hr.live hs hin
    rw [hdead] at this
    cases this
  refine hr.replace (· = node) ?_ ?_ ?_ ?_
  · intro a ha
    simp [Heap.nextOf, ha]
  · intro a ha
    simp [Heap.prevOf, ha]
  · intro head nodes hs
    by_cases hhead : head = node
    · subst hhead
      obtain rfl : nodes = [] := by simpa [eq_comm] using hs
      exact Or.inr ⟨Circle.single (by simp [Heap.nextOf]) (by simp [Heap.prevOf]), by simp, by simp⟩
    · rw [Function.update_of_ne hhead] at hs
      exact Or.inl ⟨hs, fun a ha heq => hout hs (heq ▸ ha)⟩
  · rintro head head' nodes nodes' hne - - rfl rfl
    exact absurd rfl hne

/-- Memory that holds an empty list is released. -/
theorem dropMemory (hr : Represents h s) (hs : s node = some []) :
    Represents (Function.update h node none) (Function.update s node none) := by
  refine hr.replace (· = node) ?_ ?_ ?_ ?_
  · intro a ha
    simp [Heap.nextOf, ha]
  · intro a ha
    simp [Heap.prevOf, ha]
  · intro head nodes hhead
    have hne : head ≠ node := by
      rintro rfl
      simp at hhead
    rw [Function.update_of_ne hne] at hhead
    refine Or.inl ⟨hhead, fun a ha heq => hne ?_⟩
    exact hr.head_unique hhead hs (heq ▸ ha) (List.mem_cons_self ..)
  · rintro head head' nodes nodes' hne - - rfl rfl
    exact absurd rfl hne

/-- A deleted node links to itself and can be added again. -/
theorem detached_after_del (hr : Represents h s) (hlinked : s.Linked entry) :
    (s.after (.del entry)).Detached entry := by
  obtain ⟨head, nodes, hs, hentry⟩ := hlinked
  obtain ⟨l₁, l₂, rfl⟩ := List.append_of_mem hentry
  have hnodup := (hr.circle_of_entry hs).2
  refine ⟨?_, fun nodes hnodes => ?_⟩
  · rintro ⟨b, m, hb, hin⟩
    rcases hr.after_del hs hb with ⟨-, rfl⟩ | ⟨-, rfl⟩ | ⟨hold, hbhead⟩
    · cases hin
    · refine (List.nodup_cons.mp hnodup).1 ?_
      simp only [List.mem_append, List.mem_cons] at hin ⊢
      tauto
    · exact hbhead (hr.head_unique hold hs (List.mem_cons_of_mem _ hin) (by simp))
  · simpa [Sequences.after, eq_comm] using hnodes

end Represents

/-! ### Runs -/

/-- An operation, with what it returns. -/
def Heap.exec (h : Heap Addr) : Op Addr → Option (Heap Addr × Option ℤ)
  | .init list => (h.initListHead (some list)).map (·, none)
  | .add new head => (h.listAdd (some new) (some head)).map (·, none)
  | .addTail new head => (h.listAddTail (some new) (some head)).map (·, none)
  | .del entry => (h.listDel (some entry)).map (·, none)
  | .empty head => (h.listEmpty (some head)).map fun answer => (h, some answer)

/-- A sequence of operations, with the answers of `list_empty`. -/
def Heap.run (h : Heap Addr) : List (Op Addr) → Option (Heap Addr × List ℤ)
  | [] => some (h, [])
  | op :: ops => do
    let (h, answer) ← h.exec op
    let (h, answers) ← Heap.run h ops
    return (h, answer.toList ++ answers)

namespace Sequences

def run (s : Sequences Addr) (ops : List (Op Addr)) : Sequences Addr := ops.foldl after s

def AllowedRun (s : Sequences Addr) : List (Op Addr) → Prop
  | [] => True
  | op :: ops => s.Allowed op ∧ (s.after op).AllowedRun ops

instance AllowedRun.decidable [Fintype Addr] (s : Sequences Addr) :
    (ops : List (Op Addr)) → Decidable (s.AllowedRun ops)
  | [] => isTrue trivial
  | op :: ops =>
    have := AllowedRun.decidable (s.after op) ops
    inferInstanceAs (Decidable (s.Allowed op ∧ (s.after op).AllowedRun ops))

def answers (s : Sequences Addr) : List (Op Addr) → List ℤ
  | [] => []
  | op :: ops => (s.answer op).toList ++ (s.after op).answers ops

end Sequences

variable {h : Heap Addr} {s : Sequences Addr}

theorem Represents.exec (hr : Represents h s) {op : Op Addr} (hallowed : s.Allowed op)
    (hlive : ∀ a ∈ op.nodes, (h a).isSome) :
    ∃ h', h.exec op = some (h', s.answer op) ∧ Represents h' (s.after op) ∧
      ∀ a, (h' a).isSome = (h a).isSome := by
  cases op with
  | init list =>
    obtain ⟨h', heq, hr', hsame⟩ := hr.initListHead hallowed (hlive list (by simp [Op.nodes]))
    exact ⟨h', by simp [Heap.exec, heq, Sequences.answer], hr', hsame⟩
  | add new head =>
    obtain ⟨hnew, hne, hsome⟩ := hallowed
    obtain ⟨nodes, hs⟩ := Option.isSome_iff_exists.mp hsome
    obtain ⟨h', heq, hr', hsame⟩ := hr.listAdd hnew hne hs (hlive new (by simp [Op.nodes]))
    exact ⟨h', by simp [Heap.exec, heq, Sequences.answer], hr', hsame⟩
  | addTail new head =>
    obtain ⟨hnew, hne, hsome⟩ := hallowed
    obtain ⟨nodes, hs⟩ := Option.isSome_iff_exists.mp hsome
    obtain ⟨h', heq, hr', hsame⟩ := hr.listAddTail hnew hne hs (hlive new (by simp [Op.nodes]))
    exact ⟨h', by simp [Heap.exec, heq, Sequences.answer], hr', hsame⟩
  | del entry =>
    obtain ⟨h', heq, hr', hsame⟩ := hr.listDel hallowed
    exact ⟨h', by simp [Heap.exec, heq, Sequences.answer], hr', hsame⟩
  | empty head =>
    exact ⟨h, by simp [Heap.exec, hr.listEmpty hallowed, Sequences.answer], hr, fun _ => rfl⟩

theorem Represents.run (hr : Represents h s) {ops : List (Op Addr)} (hallowed : s.AllowedRun ops)
    (hlive : ∀ op ∈ ops, ∀ a ∈ op.nodes, (h a).isSome) :
    ∃ h', h.run ops = some (h', s.answers ops) ∧ Represents h' (s.run ops) := by
  induction ops generalizing h s with
  | nil => exact ⟨h, rfl, hr⟩
  | cons op ops ih =>
    obtain ⟨h₁, heq₁, hr₁, hsame⟩ := hr.exec hallowed.1 (hlive op (by simp))
    obtain ⟨h₂, heq₂, hr₂⟩ := ih hr₁ hallowed.2 fun op hop a ha => by
      rw [hsame]
      exact hlive op (List.mem_cons_of_mem _ hop) a ha
    exact ⟨h₂, by simp [Heap.run, heq₁, heq₂, Sequences.answers], hr₂⟩

/-- After any allowed operations the heap stands for the sequences, no operation having touched
memory that is not live.  In each list the two links are inverse to each other, a node that is
deleted links to itself and is detached, and `list_empty` is 1 on the empty lists only. -/
theorem lists_refined (h : Heap Addr) (ops : List (Op Addr))
    (hallowed : Sequences.init.AllowedRun ops)
    (hlive : ∀ op ∈ ops, ∀ a ∈ op.nodes, (h a).isSome) :
    ∃ h', h.run ops = some (h', Sequences.init.answers ops) ∧
      Represents h' (Sequences.init.run ops) ∧
      (∀ head nodes, Sequences.init.run ops head = some nodes → ∀ a ∈ head :: nodes,
        ∀ b ∈ head :: nodes, h'.nextOf a = some b ↔ h'.prevOf b = some a) ∧
      (∀ entry, (Sequences.init.run ops).Linked entry →
        ∃ h'', h'.listDel (some entry) = some h'' ∧ h''.nextOf entry = some entry ∧
          h''.prevOf entry = some entry ∧ h''.listEmpty (some entry) = some 1 ∧
            ((Sequences.init.run ops).after (.del entry)).Detached entry) ∧
      ∀ head, ((Sequences.init.run ops) head).isSome ∨ (Sequences.init.run ops).Linked head →
        (h'.listEmpty (some head) = some 1 ↔ Sequences.init.run ops head = some []) := by
  obtain ⟨h', heq, hr⟩ := (represents_init h).run hallowed hlive
  refine ⟨h', heq, hr, ?_, ?_, ?_⟩
  · intro head nodes hs a ha b hb
    exact (hr.circle head nodes hs).next_iff_prev ha hb
  · intro entry hlinked
    obtain ⟨h'', heq', hr', -⟩ := hr.listDel hlinked
    have hempty : ((Sequences.init.run ops).after (.del entry)) entry = some [] := by
      simp [Sequences.after]
    have hcircle := hr'.circle entry [] hempty
    refine ⟨h'', heq', hcircle.next_head, hcircle.prev_head, ?_, hr.detached_after_del hlinked⟩
    rw [hr'.listEmpty (Or.inl (by simp [hempty])), if_pos hempty]
  · intro head hhead
    rw [hr.listEmpty hhead]
    split <;> simp [*]

/-- Two lists, and a node that goes from one to the other. -/
def moveScript : List (Op (Fin 4)) :=
  [.init 0, .init 1, .add 2 0, .addTail 3 0, .del 2, .addTail 2 1, .empty 1]

theorem lists_refined_move : ∃ h', Heap.run (fun _ => some .new) moveScript = some (h', [0]) ∧
    Represents h' (Sequences.init.run moveScript) := by
  obtain ⟨h', heq, hr, -⟩ := lists_refined (fun _ => some .new) moveScript (by decide) (by simp)
  exact ⟨h', heq, hr⟩

end Arsenal.Linuxkpi.Lists
