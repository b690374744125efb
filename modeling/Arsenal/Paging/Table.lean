import Arsenal.Frames.Alloc
import Arsenal.Lib.Preorder
import Mathlib.Data.List.FinRange

/-! Page tables of four levels in physical memory, with the entries of `PageTableEntry` in the
x86_64 crate, and how the processor walks them.  A table with `below` levels under it is one of
level `below + 1`. -/

namespace Arsenal.Paging

open Arsenal.Frames

/-! ### Entries -/

/-- The bits of an entry that are an address. -/
def addrMask : UInt64 := 0x000FFFFFFFFFF000

def isUnused (entry : UInt64) : Bool := entry == 0

def addr (entry : UInt64) : UInt64 := entry &&& addrMask

def flags (entry : UInt64) : UInt64 := entry &&& ~~~addrMask

/-- The entry after `set_addr`. -/
def setAddr (addr flags : UInt64) : UInt64 := addr ||| flags

/-- The flag `PRESENT`. -/
def present (entry : UInt64) : Bool := flags entry &&& 1 != 0

/-- The flag `HUGE_PAGE`. -/
def hugePage (entry : UInt64) : Bool := flags entry &&& 0x80 != 0

/-- Above level 1, whether the entry refers to a table. -/
def pointsToTable (entry : UInt64) : Bool := present entry && !hugePage entry

theorem pointsToTable_congr {entry entry' : UInt64} (h : flags entry' = flags entry) :
    pointsToTable entry' = pointsToTable entry := by
  rw [pointsToTable, pointsToTable, present, present, hugePage, hugePage, h]

theorem and_addrMask {frame : UInt64} (h : IsFrame frame) : frame &&& addrMask = frame := by
  have haligned : frame &&& ~~~4095 = frame := h.aligned
  have hmask : addrMask = ~~~4095 &&& 0x000FFFFFFFFFFFFF := by decide
  rw [hmask, ← UInt64.and_assoc, haligned]
  exact Lib.and_mask_of_lt (k := 52) rfl h.toNat_lt

theorem addr_setAddr {frame : UInt64} (h : IsFrame frame) (entry : UInt64) :
    addr (setAddr frame (flags entry)) = frame :=
  Lib.or_and_not_and (and_addrMask h) entry

theorem flags_setAddr {frame : UInt64} (h : IsFrame frame) (entry : UInt64) :
    flags (setAddr frame (flags entry)) = flags entry :=
  Lib.or_and_not_and_not (and_addrMask h) entry

/-! ### Tables -/

/-- The entries of the table in each frame of physical memory. -/
abbrev Memory := UInt64 → Fin 512 → UInt64

/-- The tables that the entries of a table above level 1 refer to. -/
def children (mem : Memory) (table : UInt64) : List UInt64 :=
  ((List.finRange 512).filter fun i => pointsToTable (mem table i)).map fun i => addr (mem table i)

/-- The tables that can be reached from a table. -/
def tables (mem : Memory) (below : ℕ) (table : UInt64) : List UInt64 :=
  Lib.preorder (children mem) below table

/-- What the processor finds at a virtual address. -/
structure Walk where
  /-- The flags of the entries that it reads, from the root down. -/
  flags : List UInt64
  /-- The physical address and the size of the page, unless there is a fault. -/
  page : Option (ℕ × ℕ)
  deriving DecidableEq

/-- The size of a page that an entry of level `below + 1` maps. -/
def pageSize (below : ℕ) : ℕ := 2 ^ (12 + 9 * below)

/-- So that an index of a table can be written as a number. -/
instance neZero_entries : NeZero 512 := ⟨by decide⟩

/-- The index of the entry for a virtual address in a table. -/
def index (va : UInt64) (below : ℕ) : Fin 512 := Fin.ofNat 512 (va.toNat / pageSize below)

/-- The walk ends at an entry, which maps a page if it is present.  At level 4, `HUGE_PAGE` is a
reserved bit. -/
def Walk.stop (va : UInt64) (below : ℕ) (entry : UInt64) : Walk where
  flags := [Paging.flags entry]
  page :=
    if present entry ∧ below < 3 then
      let size := pageSize below
      some ((addr entry).toNat / size * size + va.toNat % size, size)
    else none

def walk (mem : Memory) (va : UInt64) : ℕ → UInt64 → Walk
  | 0, table => .stop va 0 (mem table (index va 0))
  | below + 1, table =>
    let entry := mem table (index va (below + 1))
    if pointsToTable entry then
      let rest := walk mem va below (addr entry)
      ⟨flags entry :: rest.flags, rest.page⟩
    else .stop va (below + 1) entry

section

variable {mem mem' : Memory} {below : ℕ} {table : UInt64} {i : Fin 512}

theorem addr_mem_children (h : pointsToTable (mem table i)) :
    addr (mem table i) ∈ children mem table :=
  List.mem_map.mpr ⟨i, List.mem_filter.mpr ⟨List.mem_finRange i, h⟩, rfl⟩

theorem tables_level1 (mem : Memory) (table : UInt64) : tables mem 0 table = [table] := rfl

theorem mem_tables_self (mem : Memory) (below : ℕ) (table : UInt64) :
    table ∈ tables mem below table :=
  Lib.mem_preorder_self ..

theorem tables_subset (h : pointsToTable (mem table i)) :
    tables mem below (addr (mem table i)) ⊆ tables mem (below + 1) table :=
  Lib.preorder_subset (addr_mem_children h)

/-- Tables that are the same in two memories refer to the same tables. -/
theorem tables_congr (h : ∀ t ∈ tables mem below table, mem' t = mem t) :
    tables mem' below table = tables mem below table :=
  Lib.preorder_congr fun t ht => by rw [children, children, h t ht]

theorem walk_table {va : UInt64} (h : pointsToTable (mem table (index va (below + 1)))) :
    walk mem va (below + 1) table =
      ⟨flags (mem table (index va (below + 1))) ::
          (walk mem va below (addr (mem table (index va (below + 1))))).flags,
        (walk mem va below (addr (mem table (index va (below + 1))))).page⟩ :=
  if_pos h

theorem walk_leaf {va : UInt64} (h : pointsToTable (mem table (index va (below + 1))) = false) :
    walk mem va (below + 1) table = .stop va (below + 1) (mem table (index va (below + 1))) :=
  if_neg (by simp [h])

theorem walk_congr (va : UInt64) (h : ∀ t ∈ tables mem below table, mem' t = mem t) :
    walk mem' va below table = walk mem va below table := by
  induction below generalizing table with
  | zero => rw [walk, walk, h table (mem_tables_self ..)]
  | succ below ih =>
    have htable := h table (mem_tables_self ..)
    cases hentry : pointsToTable (mem table (index va (below + 1))) with
    | false => rw [walk_leaf hentry, walk_leaf (htable ▸ hentry), htable]
    | true =>
      rw [walk_table hentry, walk_table (htable ▸ hentry), htable,
        ih fun t ht => h t (tables_subset hentry ht)]

end

end Arsenal.Paging
