import Arsenal.Paging.Table

/-! `deep_clone_table` and `init` of `paging.rs`. -/

namespace Arsenal.Paging

open Arsenal.Frames

/-- Physical memory, which the HHDM maps, and the pool `FRAMES`. -/
structure State where
  mem : Memory
  frames : FrameAllocator

def State.write (s : State) (table : UInt64) (i : Fin 512) (entry : UInt64) : State :=
  { s with mem := Function.update s.mem table (Function.update (s.mem table) i entry) }

/-- The table is filled with zeros. -/
def State.zero (s : State) (table : UInt64) : State :=
  { s with mem := Function.update s.mem table fun _ => 0 }

theorem State.zero_self (s : State) (table : UInt64) (i : Fin 512) :
    (s.zero table).mem table i = 0 := by
  simp only [State.zero, Function.update_self]

theorem State.zero_of_ne (s : State) {table t : UInt64} (h : t ≠ table) :
    (s.zero table).mem t = s.mem t :=
  Function.update_of_ne h ..

/-- The body of the loop of `deep_clone_table`, with `level == 1` and the call for a child. -/
def cloneEntry (level1 : Bool) (cloneChild : UInt64 → State → Option (UInt64 × State))
    (src new : UInt64) (s : State) (i : Fin 512) : Option State :=
  if isUnused (s.mem src i) then some s
  else
    let isLeaf := level1 || hugePage (s.mem src i)
    if isLeaf then some (s.write new i (s.mem src i))
    else do
      let childPhys := addr (s.mem src i)
      let (newChild, s) ← cloneChild childPhys s
      return s.write new i (setAddr newChild (flags (s.mem src i)))

def cloneTable (level1 : Bool) (cloneChild : UInt64 → State → Option (UInt64 × State))
    (src : UInt64) (s : State) : Option (UInt64 × State) := do
  let (newFrame, frames) ← s.frames.allocFrame
  let new ← newFrame
  let s := State.zero { s with frames } new
  let s ← (List.finRange 512).foldlM (cloneEntry level1 cloneChild src new) s
  return (new, s)

/-- `deep_clone_table` at level `below + 1`; `none` is its panic when the pool is empty. -/
def deepCloneTable : ℕ → UInt64 → State → Option (UInt64 × State)
  | 0 => cloneTable true fun _ _ => none
  | below + 1 => cloneTable false (deepCloneTable below)

/-! ### Specification -/

/-- The tables form a tree, and an entry that is not zero is present. -/
structure IsTree (mem : Memory) (below : ℕ) (root : UInt64) : Prop where
  unshared : (tables mem below root).Nodup
  present : ∀ t ∈ tables mem below root, ∀ i, mem t i ≠ 0 → present (mem t i)

/-- A tree apart from the pool, which has a frame for each of its tables. -/
structure Cloneable (s : State) (below : ℕ) (root : UInt64) : Prop where
  tree : IsTree s.mem below root
  nodup : s.frames.free.Nodup
  frames : ∀ f ∈ s.frames.free, IsFrame f
  apart : ∀ t ∈ tables s.mem below root, t ∉ s.frames.free
  enough : (tables s.mem below root).length ≤ s.frames.free.length

/-- The tables under `new` are those that the clone has taken from the pool, nothing else has been
written, and an address leads to the same as under `src`. -/
structure IsClone (below : ℕ) (src new : UInt64) (s s' : State) : Prop where
  taken : s.frames.free = tables s'.mem below new ++ s'.frames.free
  count : (tables s'.mem below new).length = (tables s.mem below src).length
  frame : ∀ t, t ∉ tables s'.mem below new → s'.mem t = s.mem t
  walk : ∀ va, walk s'.mem va below new = walk s.mem va below src

section

variable {mem mem' : Memory} {below : ℕ} {root : UInt64} {i : Fin 512}

theorem IsTree.child (h : IsTree mem (below + 1) root) (hi : pointsToTable (mem root i)) :
    IsTree mem below (addr (mem root i)) where
  unshared := Lib.nodup_preorder_of_mem h.unshared (addr_mem_children hi)
  present := fun t ht => h.present t (tables_subset hi ht)

theorem IsTree.congr (h : IsTree mem below root)
    (hmem : ∀ t ∈ tables mem below root, mem' t = mem t) : IsTree mem' below root := by
  constructor
  · rw [tables_congr hmem]
    exact h.unshared
  · intro t ht i
    rw [tables_congr hmem] at ht
    rw [hmem t ht]
    exact h.present t ht i

end

/-! ### The entries of one table -/

section

variable (mem : Memory) (below : ℕ) (src new : UInt64)

/-- Those of some entries that refer to tables. -/
def pointers (is : List (Fin 512)) : List (Fin 512) :=
  is.filter fun i => pointsToTable (mem src i)

/-- The tables under some entries of the clone. -/
def cloned (is : List (Fin 512)) (mem' : Memory) : List UInt64 :=
  (pointers mem src is).flatMap fun i => tables mem' below (addr (mem' new i))

/-- The memory `mem'` has in `new` what `mem` has in `src`, up to the addresses of tables. -/
structure EntryClone (mem' : Memory) (i : Fin 512) : Prop where
  flags : flags (mem' new i) = flags (mem src i)
  leaf : pointsToTable (mem src i) = false → mem' new i = mem src i
  count : pointsToTable (mem src i) → (tables mem' below (addr (mem' new i))).length =
    (tables mem below (addr (mem src i))).length
  walk : pointsToTable (mem src i) → ∀ va,
    walk mem' va below (addr (mem' new i)) = walk mem va below (addr (mem src i))

/-- The loop is before the entries `is`; `mem` is the memory at its start. -/
structure Ready (is : List (Fin 512)) (s : State) : Prop where
  tree : IsTree mem (below + 1) src
  agree : ∀ t ∈ tables mem (below + 1) src, s.mem t = mem t
  nodup : (new :: s.frames.free).Nodup
  frames : ∀ f ∈ s.frames.free, IsFrame f
  apart : ∀ t ∈ tables mem (below + 1) src, t ∉ new :: s.frames.free
  enough : ((pointers mem src is).flatMap fun i => tables mem below (addr (mem src i))).length ≤
    s.frames.free.length
  blank : ∀ i ∈ is, s.mem new i = 0

/-- The loop has gone through the entries `is`. -/
structure Copied (is : List (Fin 512)) (s s' : State) : Prop where
  taken : s.frames.free = cloned mem below src new is s'.mem ++ s'.frames.free
  frame : ∀ t, t ≠ new → t ∉ cloned mem below src new is s'.mem → s'.mem t = s.mem t
  others : ∀ i, i ∉ is → s'.mem new i = s.mem new i
  entries : ∀ i ∈ is, EntryClone mem below src new s'.mem i

end

section

variable {mem : Memory} {below : ℕ} {src new : UInt64} {i : Fin 512} {is : List (Fin 512)}
  {s s' s₁ : State}

theorem pointers_cons_of_pos (hi : pointsToTable (mem src i)) :
    pointers mem src (i :: is) = i :: pointers mem src is := by
  simp [pointers, hi]

theorem pointers_cons_of_neg (hi : pointsToTable (mem src i) = false) :
    pointers mem src (i :: is) = pointers mem src is := by
  simp [pointers, hi]

theorem cloned_cons (mem' : Memory) : cloned mem below src new (i :: is) mem' =
    cloned mem below src new [i] mem' ++ cloned mem below src new is mem' := by
  rw [cloned, cloned, cloned, ← List.flatMap_append, pointers, pointers, pointers,
    ← List.filter_append, List.singleton_append]

theorem cloned_of_pos (hi : pointsToTable (mem src i)) (mem' : Memory) :
    cloned mem below src new [i] mem' = tables mem' below (addr (mem' new i)) := by
  rw [cloned, pointers_cons_of_pos hi]
  simp [pointers]

theorem cloned_of_neg (hi : pointsToTable (mem src i) = false) (mem' : Memory) :
    cloned mem below src new [i] mem' = [] := by
  rw [cloned, pointers_cons_of_neg hi]
  rfl

/-- The table of an entry of the source can be cloned in the loop. -/
theorem Ready.cloneable (h : Ready mem below src new (i :: is) s)
    (hi : pointsToTable (mem src i)) : Cloneable s below (addr (mem src i)) := by
  have hsub : tables mem below (addr (mem src i)) ⊆ tables mem (below + 1) src := tables_subset hi
  have hagree : ∀ t ∈ tables mem below (addr (mem src i)), s.mem t = mem t :=
    fun t ht => h.agree t (hsub ht)
  have htables := tables_congr hagree
  refine ⟨(h.tree.child hi).congr hagree, (List.nodup_cons.mp h.nodup).2, h.frames, ?_, ?_⟩
  · intro t ht hfree
    rw [htables] at ht
    exact h.apart t (hsub ht) (List.mem_cons_of_mem _ hfree)
  · have henough := h.enough
    rw [pointers_cons_of_pos hi, List.flatMap_cons, List.length_append] at henough
    rw [htables]
    omega

/-- An entry that refers to no table is copied, if it has a value at all. -/
theorem Copied.leaf (h : Ready mem below src new (i :: is) s) {e : Fin 512 → UInt64}
    (hi : pointsToTable (mem src i) = false)
    (hentry : e i = mem src i) (hothers : ∀ j ≠ i, e j = s.mem new j) :
    Copied mem below src new [i] s { s with mem := Function.update s.mem new e } := by
  refine ⟨?_, ?_, ?_, ?_⟩
  · rw [cloned_of_neg hi, List.nil_append]
  · intro t ht _
    exact Function.update_of_ne ht ..
  · intro j hj
    simp only [Function.update_self]
    exact hothers j (by simpa using hj)
  · intro j hj
    obtain rfl := List.mem_singleton.mp hj
    have hnew : Function.update s.mem new e new j = mem src j := by
      rw [Function.update_self, hentry]
    refine ⟨congrArg flags hnew, fun _ => hnew, ?_, ?_⟩ <;> simp [hi]

/-- An entry that refers to a table gets a clone of that table. -/
theorem Copied.table (h : Ready mem below src new (i :: is) s) {child : UInt64}
    (hi : pointsToTable (mem src i))
    (hclone : IsClone below (addr (mem src i)) child s s₁) :
    Copied mem below src new [i] s (s₁.write new i (setAddr child (flags (s₁.mem src i)))) := by
  have hfree : ∀ {t}, t ∈ tables s₁.mem below child → t ∈ s.frames.free := fun ht => by
    rw [hclone.taken]
    exact List.mem_append_left _ ht
  have hnew : ∀ {t}, t ∈ tables s₁.mem below child → t ≠ new := by
    rintro t ht rfl
    exact (List.nodup_cons.mp h.nodup).1 (hfree ht)
  have hsource : ∀ t ∈ tables mem (below + 1) src, s₁.mem t = mem t := fun t ht => by
    rw [hclone.frame t fun hin => h.apart t ht (List.mem_cons_of_mem _ (hfree hin)), h.agree t ht]
  have hframe : IsFrame child := h.frames child (hfree (mem_tables_self ..))
  rw [hsource src (mem_tables_self ..)]
  -- The write to `new` is outside the tables of the child.
  set entry := setAddr child (flags (mem src i)) with hentry
  have haddr : addr entry = child := addr_setAddr hframe _
  have hwrite : (s₁.write new i entry).mem new i = entry := by simp [State.write]
  have hkeep : ∀ t ∈ tables s₁.mem below child, (s₁.write new i entry).mem t = s₁.mem t :=
    fun t ht => Function.update_of_ne (hnew ht) ..
  have htables : tables (s₁.write new i entry).mem below child = tables s₁.mem below child :=
    tables_congr hkeep
  have hcloned : cloned mem below src new [i] (s₁.write new i entry).mem =
      tables s₁.mem below child := by
    rw [cloned_of_pos hi, hwrite, haddr, htables]
  refine ⟨?_, ?_, ?_, ?_⟩
  · rw [hcloned]
    exact hclone.taken
  · intro t ht hnot
    rw [hcloned] at hnot
    rw [← hclone.frame t hnot]
    exact Function.update_of_ne ht ..
  · intro j hj
    have hnot : new ∉ tables s₁.mem below child := fun hin => hnew hin rfl
    rw [← hclone.frame new hnot]
    simp [State.write, Function.update_of_ne (List.ne_and_not_mem_of_not_mem_cons hj).1]
  · intro j hj
    obtain rfl := List.mem_singleton.mp hj
    have hagree : ∀ t ∈ tables mem below (addr (mem src j)), s.mem t = mem t :=
      fun t ht => h.agree t (tables_subset hi ht)
    refine ⟨?_, ?_, ?_, ?_⟩
    · rw [hwrite]
      exact flags_setAddr hframe _
    · simp [hi]
    · rw [hwrite, haddr, htables, hclone.count, tables_congr hagree]
      exact fun _ => rfl
    · intro _ va
      rw [hwrite, haddr, walk_congr va hkeep, hclone.walk, walk_congr va hagree]

theorem Ready.step (h : Ready mem below src new (i :: is) s)
    {cloneChild : UInt64 → State → Option (UInt64 × State)}
    (hchild : ∀ src s, Cloneable s below src →
      ∃ new s', cloneChild src s = some (new, s') ∧ IsClone below src new s s') :
    ∃ s₁, cloneEntry false cloneChild src new s i = some s₁ ∧
      Copied mem below src new [i] s s₁ := by
  have hsrc : s.mem src = mem src := h.agree src (mem_tables_self ..)
  have hblank : s.mem new i = 0 := h.blank i (List.mem_cons_self ..)
  rw [cloneEntry, hsrc]
  by_cases hunused : mem src i = 0
  · refine ⟨s, by rw [isUnused, hunused, if_pos]; rfl, ?_⟩
    have hcopied := Copied.leaf h (e := s.mem new) (by rw [hunused]; rfl)
      (by rw [hblank, hunused]) (fun _ _ => rfl)
    rwa [Function.update_eq_self] at hcopied
  · rw [if_neg (by simpa [isUnused] using hunused)]
    have hpresent := h.tree.present src (mem_tables_self ..) i hunused
    cases hhuge : hugePage (mem src i) with
    | true =>
      refine ⟨_, rfl, ?_⟩
      apply Copied.leaf h
      · simp [pointsToTable, hhuge]
      · exact Function.update_self ..
      · exact fun j hj => Function.update_of_ne hj ..
    | false =>
      have hi : pointsToTable (mem src i) := by simp [pointsToTable, hpresent, hhuge]
      obtain ⟨child, s₁, hcall, hclone⟩ := hchild _ s (h.cloneable hi)
      refine ⟨_, ?_, Copied.table h hi hclone⟩
      simp [hcall]

/-- As many tables are taken as the entries of the source refer to. -/
theorem Copied.length_cloned (h : Copied mem below src new is s s') :
    (cloned mem below src new is s'.mem).length =
      ((pointers mem src is).flatMap fun i => tables mem below (addr (mem src i))).length := by
  rw [cloned, List.length_flatMap, List.length_flatMap]
  refine congrArg List.sum (List.map_congr_left fun i hi => ?_)
  obtain ⟨hmem, hpoints⟩ := List.mem_filter.mp hi
  exact (h.entries i hmem).count hpoints

theorem Ready.next (h : Ready mem below src new (i :: is) s) (hi : i ∉ is)
    (hstep : Copied mem below src new [i] s s₁) : Ready mem below src new is s₁ := by
  have htaken := hstep.taken
  have hsub : s₁.frames.free ⊆ s.frames.free := by
    rw [htaken]
    exact List.subset_append_right ..
  refine ⟨h.tree, ?_, ?_, fun f hf => h.frames f (hsub hf), ?_, ?_, ?_⟩
  · intro t ht
    have hapart := List.ne_and_not_mem_of_not_mem_cons (h.apart t ht)
    rw [hstep.frame t hapart.1, h.agree t ht]
    intro hin
    apply hapart.2
    rw [htaken]
    exact List.mem_append_left _ hin
  · have hnodup := h.nodup
    rw [htaken] at hnodup
    exact hnodup.sublist ((List.sublist_append_right ..).cons_cons new)
  · intro t ht hin
    exact h.apart t ht (List.cons_subset_cons new hsub hin)
  · have henough := h.enough
    have hlength := congrArg List.length htaken
    rw [List.length_append, hstep.length_cloned] at hlength
    rw [← List.singleton_append, pointers, List.filter_append, List.flatMap_append,
      List.length_append] at henough
    simp only [pointers] at hlength ⊢
    omega
  · intro j hj
    rw [hstep.others j (by rintro hin; exact hi (List.mem_singleton.mp hin ▸ hj))]
    exact h.blank j (List.mem_cons_of_mem _ hj)

theorem EntryClone.congr {mem' mem'' : Memory} (h : EntryClone mem below src new mem' i)
    (hnew : mem'' new i = mem' new i)
    (hmem : pointsToTable (mem src i) → ∀ t ∈ tables mem' below (addr (mem' new i)),
      mem'' t = mem' t) : EntryClone mem below src new mem'' i where
  flags := by rw [hnew, h.flags]
  leaf hi := by rw [hnew, h.leaf hi]
  count hi := by rw [hnew, tables_congr (hmem hi), h.count hi]
  walk hi va := by rw [hnew, walk_congr va (hmem hi), h.walk hi va]

theorem Copied.cons (h : Ready mem below src new (i :: is) s) (hi : i ∉ is)
    (hstep : Copied mem below src new [i] s s₁) (hrest : Copied mem below src new is s₁ s') :
    Copied mem below src new (i :: is) s s' := by
  have hnodup := h.nodup
  rw [hstep.taken, hrest.taken] at hnodup
  obtain ⟨hnew, hnodup⟩ := List.nodup_cons.mp hnodup
  -- What the first entry has taken is not written again.
  have hkeep : ∀ t ∈ cloned mem below src new [i] s₁.mem, s'.mem t = s₁.mem t := by
    intro t ht
    apply hrest.frame t
    · rintro rfl
      exact hnew (List.mem_append_left _ ht)
    · intro hin
      exact List.disjoint_of_nodup_append hnodup ht (List.mem_append_left _ hin)
  have hentry : s'.mem new i = s₁.mem new i := hrest.others i hi
  have hcloned : cloned mem below src new [i] s'.mem = cloned mem below src new [i] s₁.mem := by
    cases hpoints : pointsToTable (mem src i) with
    | false => rw [cloned_of_neg hpoints, cloned_of_neg hpoints]
    | true =>
      rw [cloned_of_pos hpoints] at hkeep
      rw [cloned_of_pos hpoints, cloned_of_pos hpoints, hentry, tables_congr hkeep]
  refine ⟨?_, ?_, ?_, ?_⟩
  · rw [cloned_cons s'.mem, hcloned, List.append_assoc, ← hrest.taken, ← hstep.taken]
  · intro t ht hnot
    rw [cloned_cons, List.mem_append, not_or, hcloned] at hnot
    rw [hrest.frame t ht hnot.2, hstep.frame t ht hnot.1]
  · intro j hj
    obtain ⟨hne, hj⟩ := List.ne_and_not_mem_of_not_mem_cons hj
    rw [hrest.others j hj, hstep.others j (by simpa using hne)]
  · intro j hj
    rcases List.mem_cons.mp hj with rfl | hj
    · apply (hstep.entries j (List.mem_singleton_self j)).congr hentry
      intro hpoints
      rwa [cloned_of_pos hpoints] at hkeep
    · exact hrest.entries j hj

/-- The loop clones the entries that it goes through. -/
theorem Ready.run (hnodup : is.Nodup) (h : Ready mem below src new is s)
    {cloneChild : UInt64 → State → Option (UInt64 × State)}
    (hchild : ∀ src s, Cloneable s below src →
      ∃ new s', cloneChild src s = some (new, s') ∧ IsClone below src new s s') :
    ∃ s', is.foldlM (cloneEntry false cloneChild src new) s = some s' ∧
      Copied mem below src new is s s' := by
  induction is generalizing s with
  | nil =>
    refine ⟨s, rfl, rfl, fun _ _ _ => rfl, fun _ _ => rfl, ?_⟩
    exact List.forall_mem_nil _
  | cons i is ih =>
    obtain ⟨hi, hnodup⟩ := List.nodup_cons.mp hnodup
    obtain ⟨s₁, hcall, hstep⟩ := h.step hchild
    obtain ⟨s', hcalls, hrest⟩ := ih hnodup (h.next hi hstep)
    refine ⟨s', ?_, Copied.cons h hi hstep hrest⟩
    rw [List.foldlM_cons, hcall]
    exact hcalls

/-- At level 1 the loop copies the entries. -/
theorem run_level1 (hnodup : is.Nodup) (hne : src ≠ new) (hblank : ∀ i ∈ is, s.mem new i = 0)
    (cloneChild : UInt64 → State → Option (UInt64 × State)) :
    ∃ s', is.foldlM (cloneEntry true cloneChild src new) s = some s' ∧ s'.frames = s.frames ∧
      (∀ t, t ≠ new → s'.mem t = s.mem t) ∧ (∀ i, i ∉ is → s'.mem new i = s.mem new i) ∧
        ∀ i ∈ is, s'.mem new i = s.mem src i := by
  induction is generalizing s with
  | nil => exact ⟨s, rfl, rfl, fun _ _ => rfl, fun _ _ => rfl, by simp⟩
  | cons i is ih =>
    obtain ⟨hi, hnodup⟩ := List.nodup_cons.mp hnodup
    have hcall : cloneEntry true cloneChild src new s i = some (s.write new i (s.mem src i)) := by
      rw [cloneEntry]
      split
      · rename_i hunused
        have hzero : s.mem src i = s.mem new i := by
          rw [hblank i (List.mem_cons_self ..)]
          simpa [isUnused] using hunused
        rw [State.write, hzero, Function.update_eq_self, Function.update_eq_self]
      · rfl
    have hwrite : ∀ j, j ≠ i → (s.write new i (s.mem src i)).mem new j = s.mem new j :=
      fun j hj => by simp [State.write, hj]
    have hsrc : ∀ t, t ≠ new → (s.write new i (s.mem src i)).mem t = s.mem t :=
      fun t ht => Function.update_of_ne ht ..
    obtain ⟨s', hcalls, hframes, hmem, hothers, hentries⟩ :=
      ih hnodup (s := s.write new i (s.mem src i)) fun j hj => by
        rw [hwrite j (by rintro rfl; exact hi hj)]
        exact hblank j (List.mem_cons_of_mem _ hj)
    refine ⟨s', ?_, hframes, ?_, ?_, ?_⟩
    · rw [List.foldlM_cons, hcall]
      exact hcalls
    · intro t ht
      rw [hmem t ht, hsrc t ht]
    · intro j hj
      obtain ⟨hne', hj⟩ := List.ne_and_not_mem_of_not_mem_cons hj
      rw [hothers j hj, hwrite j hne']
    · intro j hj
      rcases List.mem_cons.mp hj with rfl | hj
      · rw [hothers j hi]
        simp [State.write]
      · rw [hentries j hj, hsrc src hne]

end

/-! ### The tree -/

section

variable {below : ℕ} {src new : UInt64} {s s' s₁ : State}

/-- The pool has a frame for the first table. -/
theorem Cloneable.alloc (h : Cloneable s below src) :
    ∃ new rest, s.frames.free = new :: rest ∧ IsFrame new ∧
      s.frames.allocFrame = some (some new, { s.frames with free := rest }) := by
  cases hfree : s.frames.free with
  | nil =>
    have henough := h.enough
    have hpos := List.length_pos_of_mem (mem_tables_self s.mem below src)
    rw [hfree, List.length_nil] at henough
    omega
  | cons new rest =>
    have hframe : IsFrame new := h.frames new (hfree ▸ List.mem_cons_self ..)
    exact ⟨new, rest, rfl, hframe, hframe.allocFrame hfree⟩

theorem IsClone.of_copied (hnew : s.frames.free = new :: s₁.frames.free)
    (hmem : ∀ t ≠ new, s₁.mem t = s.mem t)
    (h : Copied s.mem below src new (List.finRange 512) s₁ s') :
    IsClone (below + 1) src new s s' := by
  have hentries : ∀ i, EntryClone s.mem below src new s'.mem i :=
    fun i => h.entries i (List.mem_finRange i)
  have hpoints : ∀ i, pointsToTable (s'.mem new i) = pointsToTable (s.mem src i) :=
    fun i => pointsToTable_congr (hentries i).flags
  have htables : tables s'.mem (below + 1) new =
      new :: cloned s.mem below src new (List.finRange 512) s'.mem := by
    rw [tables, Lib.preorder, children, List.flatMap_map, cloned, pointers]
    simp only [hpoints]
    rfl
  refine ⟨?_, ?_, ?_, ?_⟩
  · rw [hnew, htables, h.taken]
    rfl
  · rw [htables, List.length_cons, h.length_cloned, tables, Lib.preorder, children,
      List.flatMap_map]
    rfl
  · intro t ht
    rw [htables] at ht
    obtain ⟨hne, hnot⟩ := List.ne_and_not_mem_of_not_mem_cons ht
    rw [h.frame t hne hnot, hmem t hne]
  · intro va
    have hentry := hentries (index va (below + 1))
    cases hi : pointsToTable (s.mem src (index va (below + 1))) with
    | false => rw [walk_leaf hi, walk_leaf ((hpoints _).trans hi), hentry.leaf hi]
    | true =>
      rw [walk_table hi, walk_table ((hpoints _).trans hi), hentry.walk hi, hentry.flags]

theorem deepCloneTable_spec (h : Cloneable s below src) :
    ∃ new s', deepCloneTable below src s = some (new, s') ∧ IsClone below src new s s' := by
  induction below generalizing src s with
  | zero =>
    obtain ⟨new, rest, hfree, hframe, halloc⟩ := h.alloc
    have hne : src ≠ new := by
      rintro rfl
      exact h.apart src (mem_tables_self ..) (hfree ▸ List.mem_cons_self ..)
    set s₀ : State := { s with frames := { s.frames with free := rest } }
    obtain ⟨s', hcalls, hframes, hmem, -, hentries⟩ := run_level1 (s := s₀.zero new)
      (List.nodup_finRange 512) hne (fun i _ => s₀.zero_self new i) fun _ _ => none
    refine ⟨new, s', ?_, ?_, ?_, ?_, ?_⟩
    · simp [deepCloneTable, cloneTable, halloc, s₀, hcalls]
    · rw [tables_level1, hfree, hframes]
      rfl
    · rw [tables_level1, tables_level1, List.length_singleton, List.length_singleton]
    · intro t ht
      have hne : t ≠ new := List.ne_of_not_mem_cons ht
      rw [hmem t hne, s₀.zero_of_ne hne]
    · intro va
      rw [walk, walk, hentries _ (List.mem_finRange _), s₀.zero_of_ne hne]
  | succ below ih =>
    obtain ⟨new, rest, hfree, hframe, halloc⟩ := h.alloc
    have hnew : ∀ t ∈ tables s.mem (below + 1) src, t ∉ new :: rest := hfree ▸ h.apart
    set s₀ : State := { s with frames := { s.frames with free := rest } }
    have hready : Ready s.mem below src new (List.finRange 512) (s₀.zero new) := by
      refine ⟨h.tree, ?_, hfree ▸ h.nodup, ?_, hnew, ?_, fun i _ => s₀.zero_self new i⟩
      · intro t ht
        exact s₀.zero_of_ne (List.ne_of_not_mem_cons (hnew t ht))
      · exact fun f hf => h.frames f (hfree ▸ List.mem_cons_of_mem _ hf)
      · have henough := h.enough
        rw [hfree, tables, Lib.preorder, children, List.flatMap_map] at henough
        exact Nat.le_of_succ_le_succ henough
    obtain ⟨s', hcalls, hcopied⟩ :=
      hready.run (List.nodup_finRange 512) fun src s hsrc => ih hsrc
    refine ⟨new, s', ?_, IsClone.of_copied hfree (fun t ht => s₀.zero_of_ne ht) hcopied⟩
    simp [deepCloneTable, cloneTable, halloc, s₀, hcalls]

/-- The clone of a tree of four levels leads every virtual address to the same page with the same
flags.  Its tables are as many as those of the source and are taken from the pool, and nothing else
is written. -/
theorem deep_clone_preserves (s : State) (root : UInt64) (h : Cloneable s 3 root) :
    ∃ new s', deepCloneTable 3 root s = some (new, s') ∧
      (∀ va, walk s'.mem va 3 new = walk s.mem va 3 root) ∧
      (∀ t ∈ tables s.mem 3 root, s'.mem t = s.mem t) ∧
      (∀ t, t ∉ tables s'.mem 3 new → s'.mem t = s.mem t) ∧
      (tables s'.mem 3 new).Nodup ∧
      (∀ t ∈ tables s'.mem 3 new,
        t ∈ s.frames.free ∧ t ∉ s'.frames.free ∧ t ∉ tables s.mem 3 root) ∧
      s.frames.free = tables s'.mem 3 new ++ s'.frames.free ∧
      (tables s'.mem 3 new).length = (tables s.mem 3 root).length := by
  obtain ⟨new, s', hcall, hclone⟩ := deepCloneTable_spec h
  have hnodup := h.nodup
  rw [hclone.taken] at hnodup
  have hfree : ∀ t ∈ tables s'.mem 3 new, t ∈ s.frames.free := by
    intro t ht
    rw [hclone.taken]
    exact List.mem_append_left _ ht
  refine ⟨new, s', hcall, hclone.walk, ?_, hclone.frame, hnodup.of_append_left, ?_, hclone.taken,
    hclone.count⟩
  · exact fun t ht => hclone.frame t fun hin => h.apart t ht (hfree t hin)
  · intro t ht
    refine ⟨hfree t ht, ?_, fun hin => h.apart t hin (hfree t ht)⟩
    exact fun hin => List.disjoint_of_nodup_append hnodup ht hin

end

/-- A tree with one table at each level: it maps the page at 0x5000 to the frame 0xB8000, and
2 MiB from 0x200000 on with one entry. -/
def oneOfEach : State where
  mem table i :=
    if table = 0x1000 then if i = 0 then 0x2003 else 0
    else if table = 0x2000 then if i = 0 then 0x3003 else 0
    else if table = 0x3000 then if i = 0 then 0x4003 else if i = 1 then 0x200083 else 0
    else if table = 0x4000 then if i = 5 then 0xB801B else 0
    else 0
  frames := ⟨[0x9000, 0xA000, 0xB000, 0xC000, 0xD000], 5⟩

theorem oneOfEach_tables : tables oneOfEach.mem 3 0x1000 = [0x1000, 0x2000, 0x3000, 0x4000] := by
  decide +kernel

theorem oneOfEach_mem_tables {t : UInt64} (h : t ∈ tables oneOfEach.mem 3 0x1000) :
    t = 0x1000 ∨ t = 0x2000 ∨ t = 0x3000 ∨ t = 0x4000 := by
  rw [oneOfEach_tables] at h
  simpa only [List.mem_cons, List.not_mem_nil, or_false] using h

theorem oneOfEach_cloneable : Cloneable oneOfEach 3 0x1000 where
  tree := by
    refine ⟨by rw [oneOfEach_tables]; decide, fun t ht => ?_⟩
    obtain rfl | rfl | rfl | rfl := oneOfEach_mem_tables ht <;> decide +kernel
  nodup := by decide
  frames := isFrame_of_all (by decide)
  apart t ht := by
    obtain rfl | rfl | rfl | rfl := oneOfEach_mem_tables ht <;> decide
  enough := by rw [oneOfEach_tables]; decide

theorem deep_clone_preserves_four :
    ∃ new s', deepCloneTable 3 0x1000 oneOfEach = some (new, s') ∧
      walk s'.mem 0x5123 3 new = ⟨[3, 3, 3, 0x1B], some (0xB8123, 0x1000)⟩ ∧
        walk s'.mem 0x212345 3 new = ⟨[3, 3, 0x83], some (0x212345, 0x200000)⟩ := by
  obtain ⟨new, s', hcall, hwalk, -⟩ := deep_clone_preserves oneOfEach 0x1000 oneOfEach_cloneable
  refine ⟨new, s', hcall, ?_, ?_⟩
  · rw [hwalk]
    decide
  · rw [hwalk]
    decide

/-! ### `init` -/

/-- The state, `CR3` and the statics of `paging.rs`. -/
structure Kernel where
  state : State
  cr3 : UInt64
  hhdmOffset : UInt64
  kernelPml4Phys : UInt64

def init (k : Kernel) (hhdmOffset : UInt64) : Option Kernel := do
  let (newPml4, state) ← deepCloneTable 3 k.cr3 k.state
  return { state, cr3 := newPml4, hhdmOffset, kernelPml4Phys := newPml4 }

/-- The write to `CR3` changes no translation. -/
theorem init_translates {k : Kernel} (h : Cloneable k.state 3 k.cr3) (hhdmOffset : UInt64) :
    ∃ k', init k hhdmOffset = some k' ∧ k'.kernelPml4Phys = k'.cr3 ∧
      ∀ va, walk k'.state.mem va 3 k'.cr3 = walk k.state.mem va 3 k.cr3 := by
  obtain ⟨new, state, hcall, hclone⟩ := deepCloneTable_spec h
  refine ⟨⟨state, new, hhdmOffset, new⟩, ?_, rfl, hclone.walk⟩
  simp [init, hcall]

end Arsenal.Paging
