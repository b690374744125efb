import Mathlib.Data.BitVec
import Mathlib.Data.List.Basic
import Mathlib.Logic.Function.Basic

/-! A fragment of the x86-64 machine: byte-addressed memory, the general registers, the stack
instructions, and the delivery of an interrupt through a gate. -/

namespace Arsenal.Lib

abbrev Word := BitVec 64

/-! ### Memory -/

/-- Memory, byte by byte. -/
abbrev Mem := ℕ → BitVec 8

namespace Mem

/-- The little-endian word at `a`. -/
def read64 (m : Mem) (a : ℕ) : Word :=
  m (a + 7) ++ m (a + 6) ++ m (a + 5) ++ m (a + 4) ++ m (a + 3) ++ m (a + 2) ++ m (a + 1) ++ m a

def write64 (m : Mem) (a : ℕ) (v : Word) : Mem := fun i =>
  if a ≤ i ∧ i < a + 8 then v.extractLsb' (8 * (i - a)) 8 else m i

theorem write64_outside {m : Mem} {a i : ℕ} {v : Word} (h : i < a ∨ a + 8 ≤ i) :
    m.write64 a v i = m i := by
  rw [write64, if_neg (by omega)]

theorem write64_byte (m : Mem) (a : ℕ) (v : Word) {k : ℕ} (hk : k < 8) :
    m.write64 a v (a + k) = v.extractLsb' (8 * k) 8 := by
  rw [write64, if_pos (by omega), Nat.add_sub_cancel_left]

theorem read64_congr {m m' : Mem} {a : ℕ} (h : ∀ i, a ≤ i → i < a + 8 → m i = m' i) :
    m.read64 a = m'.read64 a := by
  unfold read64
  rw [h (a + 7) (by omega) (by omega), h (a + 6) (by omega) (by omega),
    h (a + 5) (by omega) (by omega), h (a + 4) (by omega) (by omega),
    h (a + 3) (by omega) (by omega), h (a + 2) (by omega) (by omega),
    h (a + 1) (by omega) (by omega), h a (by omega) (by omega)]

theorem extract_bytes (v : Word) :
    v.extractLsb' 56 8 ++ v.extractLsb' 48 8 ++ v.extractLsb' 40 8 ++ v.extractLsb' 32 8 ++
      v.extractLsb' 24 8 ++ v.extractLsb' 16 8 ++ v.extractLsb' 8 8 ++ v.extractLsb' 0 8 = v := by
  apply BitVec.eq_of_getLsbD_eq
  intro i hi
  simp only [BitVec.getLsbD_append, BitVec.getLsbD_extractLsb']
  grind

theorem read64_write64 (m : Mem) (a : ℕ) (v : Word) : (m.write64 a v).read64 a = v := by
  have h0 : m.write64 a v a = v.extractLsb' 0 8 := m.write64_byte a v (k := 0) (by omega)
  unfold read64
  simp only [m.write64_byte a v (k := 7) (by omega), m.write64_byte a v (k := 6) (by omega),
    m.write64_byte a v (k := 5) (by omega), m.write64_byte a v (k := 4) (by omega),
    m.write64_byte a v (k := 3) (by omega), m.write64_byte a v (k := 2) (by omega),
    m.write64_byte a v (k := 1) (by omega), h0]
  exact extract_bytes v

theorem read64_write64_of_disjoint {m : Mem} {a b : ℕ} {v : Word}
    (h : a + 8 ≤ b ∨ b + 8 ≤ a) : (m.write64 a v).read64 b = m.read64 b :=
  read64_congr fun _ _ _ => write64_outside (by omega)

/-- The words that lie at `a` and upwards. -/
def WordsAt (m : Mem) : ℕ → List Word → Prop
  | _, [] => True
  | a, w :: ws => m.read64 a = w ∧ m.WordsAt (a + 8) ws

theorem WordsAt.congr {m m' : Mem} {a : ℕ} {ws : List Word} (h : m.WordsAt a ws)
    (hm : ∀ i, a ≤ i → i < a + 8 * ws.length → m' i = m i) : m'.WordsAt a ws := by
  induction ws generalizing a with
  | nil => trivial
  | cons w ws ih =>
    rw [List.length_cons] at hm
    refine ⟨?_, ih h.2 fun i h₁ h₂ => hm i (by omega) (by omega)⟩
    rw [← h.1]
    exact read64_congr fun i h₁ h₂ => hm i h₁ (by omega)

theorem wordsAt_append {m : Mem} {a : ℕ} {ws vs : List Word} :
    m.WordsAt a (ws ++ vs) ↔ m.WordsAt a ws ∧ m.WordsAt (a + 8 * ws.length) vs := by
  induction ws generalizing a with
  | nil => simp [WordsAt]
  | cons w ws ih =>
    rw [List.cons_append, WordsAt, WordsAt, ih, List.length_cons,
      show a + 8 + 8 * ws.length = a + 8 * (ws.length + 1) by omega, and_assoc]

end Mem

/-! ### The machine -/

inductive Reg where
  | rax | rcx | rdx | rbx | rsi | rdi | rbp | r8 | r9 | r10 | r11 | r12 | r13 | r14 | r15 | rsp
  deriving DecidableEq, Repr

structure Machine where
  gpr : Reg → Word
  rip : Word
  rflags : Word
  cs : Word
  ss : Word
  mem : Mem

inductive Instr where
  | pushfq
  | popfq
  | push (r : Reg)
  | pop (r : Reg)
  | cli
  /-- `mov [a], r` -/
  | store (a r : Reg)
  | mov (d r : Reg)

/-- The encodings of `push` and `pop` carry an extra byte from `r8` on. -/
def Reg.high : Reg → Bool
  | .r8 | .r9 | .r10 | .r11 | .r12 | .r13 | .r14 | .r15 => true
  | _ => false

/-- The length of the encoding. -/
def Instr.size : Instr → Word
  | .pushfq | .popfq | .cli => 1
  | .push r | .pop r => if r.high then 2 else 1
  | .store _ _ | .mov _ _ => 3

/-- Bit 9 of `RFLAGS`. -/
def interruptFlag (rflags : Word) : Bool := rflags.getLsbD 9

def clearInterruptFlag (rflags : Word) : Word := rflags &&& ~~~0x200#64

@[simp] theorem interruptFlag_clear (rflags : Word) :
    interruptFlag (clearInterruptFlag rflags) = false := by
  simp [interruptFlag, clearInterruptFlag]

namespace Machine

def push (m : Machine) (v : Word) : Machine :=
  { m with
    gpr := Function.update m.gpr .rsp (m.gpr .rsp - 8#64)
    mem := m.mem.write64 (m.gpr .rsp - 8#64).toNat v }

/-- The word at the top of the stack. -/
def top (m : Machine) : Word := m.mem.read64 (m.gpr .rsp).toNat

/-- The stack without its top word. -/
def drop (m : Machine) : Machine :=
  { m with gpr := Function.update m.gpr .rsp (m.gpr .rsp + 8#64) }

def effect (m : Machine) : Instr → Machine
  | .pushfq => m.push m.rflags
  | .popfq => { m.drop with rflags := m.top }
  | .push r => m.push (m.gpr r)
  | .pop r => { m.drop with gpr := Function.update m.drop.gpr r m.top }
  | .cli => { m with rflags := clearInterruptFlag m.rflags }
  | .store a r => { m with mem := m.mem.write64 (m.gpr a).toNat (m.gpr r) }
  | .mov d r => { m with gpr := Function.update m.gpr d (m.gpr r) }

def exec (m : Machine) (i : Instr) : Machine := { m.effect i with rip := m.rip + i.size }

def execAll (m : Machine) (is : List Instr) : Machine := is.foldl exec m

theorem execAll_cons (m : Machine) (i : Instr) (is : List Instr) :
    m.execAll (i :: is) = (m.exec i).execAll is := rfl

theorem execAll_append (m : Machine) (is js : List Instr) :
    m.execAll (is ++ js) = (m.execAll is).execAll js := List.foldl_append ..

/-- A near call, of five bytes. -/
def call (m : Machine) (target : Word) : Machine := { m.push (m.rip + 5) with rip := target }

def ret (m : Machine) : Machine := { m.drop with rip := m.top }

/-- The stack pointer that an interrupt pushes its frame from. -/
def aligned (m : Machine) : Machine :=
  { m with gpr := Function.update m.gpr .rsp (m.gpr .rsp &&& ~~~15#64) }

/-- An interrupt through an interrupt gate, on the current stack. -/
def deliver (m : Machine) (handler : Word) : Machine :=
  { ((((m.aligned.push m.ss).push (m.gpr .rsp)).push m.rflags).push m.cs).push m.rip with
    rflags := clearInterruptFlag m.rflags
    rip := handler }

def iretq (m : Machine) : Machine :=
  let a := (m.gpr .rsp).toNat
  { m with
    rip := m.mem.read64 a
    cs := m.mem.read64 (a + 8)
    rflags := m.mem.read64 (a + 16)
    gpr := Function.update m.gpr .rsp (m.mem.read64 (a + 24))
    ss := m.mem.read64 (a + 32) }

/-! ### What pushes and pops do -/

@[simp] theorem mem_popfq (m : Machine) : (m.exec .popfq).mem = m.mem := rfl

/-- `m'` is `m` with the words `ws` pushed, the first of them last. -/
structure Pushed (m m' : Machine) (ws : List Word) : Prop where
  rsp : (m'.gpr .rsp).toNat + 8 * ws.length = (m.gpr .rsp).toNat
  words : m'.mem.WordsAt (m'.gpr .rsp).toNat ws
  mem : ∀ i, i < (m'.gpr .rsp).toNat ∨ (m.gpr .rsp).toNat ≤ i → m'.mem i = m.mem i
  gpr : ∀ r, r ≠ .rsp → m'.gpr r = m.gpr r

variable {m m' : Machine} {ws : List Word}

theorem pushed_nil (m : Machine) : Pushed m m [] :=
  ⟨rfl, trivial, fun _ _ => rfl, fun _ _ => rfl⟩

theorem Pushed.push (h : Pushed m m' ws) (v : Word) (hroom : 8 ≤ (m'.gpr .rsp).toNat) :
    Pushed m (m'.push v) (v :: ws) := by
  have hrsp : (m'.gpr .rsp - 8#64).toNat + 8 = (m'.gpr .rsp).toNat := by bv_omega
  have hnew : ((m'.push v).gpr .rsp).toNat + 8 = (m'.gpr .rsp).toNat := by
    simpa only [Machine.push, Function.update_self] using hrsp
  have hmem : (m'.push v).mem = m'.mem.write64 ((m'.push v).gpr .rsp).toNat v := by
    simp only [Machine.push, Function.update_self]
  have hold := h.rsp
  refine ⟨?_, ⟨?_, ?_⟩, fun i hi => ?_, fun r hr => ?_⟩
  · rw [List.length_cons]
    omega
  · rw [hmem, Mem.read64_write64]
  · rw [hnew, hmem]
    exact h.words.congr fun i _ _ => Mem.write64_outside (by omega)
  · rw [hmem, Mem.write64_outside (by omega)]
    exact h.mem i (by omega)
  · rw [← h.gpr r hr]
    exact Function.update_of_ne hr ..

theorem Pushed.congr {p : Machine} (h : Pushed m m' ws) (hgpr : p.gpr = m'.gpr)
    (hmem : p.mem = m'.mem) : Pushed m p ws := by
  obtain ⟨h₁, h₂, h₃, h₄⟩ := h
  constructor <;> simp only [hgpr, hmem] <;> assumption

theorem Pushed.pushRegs (h : Pushed m m' ws) (rs : List Reg) (hrs : Reg.rsp ∉ rs)
    (hroom : 8 * rs.length ≤ (m'.gpr .rsp).toNat) :
    Pushed m (m'.execAll (rs.map .push)) ((rs.map m.gpr).reverse ++ ws) := by
  induction rs generalizing m' ws with
  | nil => exact h
  | cons r rs ih =>
    rw [List.mem_cons, not_or] at hrs
    rw [List.length_cons] at hroom
    have hpush : Pushed m (m'.exec (.push r)) (m.gpr r :: ws) := by
      rw [← h.gpr r (Ne.symm hrs.1)]
      exact (h.push _ (by omega)).congr rfl rfl
    have hrsp := hpush.rsp
    have hold := h.rsp
    rw [List.length_cons] at hrsp
    have hrest := ih hpush hrs.2 (by omega)
    rw [List.map_cons (f := m.gpr), List.reverse_cons, List.append_assoc]
    exact hrest

theorem rflags_pushRegs (m : Machine) (rs : List Reg) :
    (m.execAll (rs.map .push)).rflags = m.rflags := by
  induction rs generalizing m with
  | nil => rfl
  | cons r rs ih => exact ih _

/-- `m'` is `m` after popping the registers `rs`, whose words are those of `f`. -/
structure Popped (m m' : Machine) (rs : List Reg) (f : Reg → Word) : Prop where
  rsp : (m'.gpr .rsp).toNat = (m.gpr .rsp).toNat + 8 * rs.length
  mem : m'.mem = m.mem
  gpr : ∀ r, r ≠ .rsp → m'.gpr r = if r ∈ rs then f r else m.gpr r

theorem popped {rs : List Reg} {f : Reg → Word} (hrs : Reg.rsp ∉ rs)
    (hwords : m.mem.WordsAt (m.gpr .rsp).toNat (rs.map f))
    (hfit : (m.gpr .rsp).toNat + 8 * rs.length < 2 ^ 64) :
    Popped m (m.execAll (rs.map .pop)) rs f := by
  induction rs generalizing m with
  | nil => exact ⟨rfl, rfl, fun r _ => by simp [execAll]⟩
  | cons r rs ih =>
    rw [List.mem_cons, not_or] at hrs
    rw [List.length_cons] at hfit
    have hne : r ≠ .rsp := Ne.symm hrs.1
    have hrsp : ((m.exec (.pop r)).gpr .rsp).toNat = (m.gpr .rsp).toNat + 8 := by
      simp only [exec, effect, drop, Function.update_of_ne hrs.1, Function.update_self]
      bv_omega
    have htop : m.top = f r := hwords.1
    obtain ⟨h₁, h₂, h₃⟩ := ih (m := m.exec (.pop r)) hrs.2 (by rw [hrsp]; exact hwords.2)
      (by omega)
    refine ⟨?_, h₂, fun q hq => ?_⟩
    · rw [List.length_cons]
      exact h₁.trans (by omega)
    · refine (h₃ q hq).trans ?_
      by_cases hmem : q ∈ rs
      · rw [if_pos hmem, if_pos (List.mem_cons_of_mem _ hmem)]
      · rw [if_neg hmem]
        by_cases hqr : q = r
        · subst hqr
          rw [if_pos List.mem_cons_self, ← htop]
          simp only [exec, effect, Function.update_self]
        · rw [if_neg (by simp [hqr, hmem])]
          simp only [exec, effect, drop, Function.update_of_ne hqr, Function.update_of_ne hq]

theorem toNat_rsp_aligned (m : Machine) :
    (m.aligned.gpr .rsp).toNat ≤ (m.gpr .rsp).toNat := by
  simp only [aligned, Function.update_self, BitVec.toNat_and]
  exact Nat.and_le_left

theorem gpr_aligned (m : Machine) {r : Reg} (hr : r ≠ .rsp) : m.aligned.gpr r = m.gpr r :=
  Function.update_of_ne hr ..

theorem pushed_deliver (m : Machine) (handler : Word) (hroom : 40 ≤ (m.aligned.gpr .rsp).toNat) :
    Pushed m.aligned (m.deliver handler) [m.rip, m.cs, m.rflags, m.gpr .rsp, m.ss] := by
  have h₁ := (pushed_nil m.aligned).push m.ss (by omega)
  have r₁ := h₁.rsp
  rw [List.length_singleton] at r₁
  have h₂ := h₁.push (m.gpr .rsp) (by omega)
  have r₂ := h₂.rsp
  rw [List.length_cons, List.length_singleton] at r₂
  have h₃ := h₂.push m.rflags (by omega)
  have r₃ := h₃.rsp
  simp only [List.length_cons, List.length_nil] at r₃
  have h₄ := h₃.push m.cs (by omega)
  have r₄ := h₄.rsp
  simp only [List.length_cons, List.length_nil] at r₄
  exact (h₄.push m.rip (by omega)).congr rfl rfl

end Machine

end Arsenal.Lib
