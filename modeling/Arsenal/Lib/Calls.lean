import Arsenal.Lib.Bytes
import Arsenal.Lib.Transition

/-! Programs that allocate memory, access it and call a device, which may access it too.  `Step`
says how they run if a call is one step, and `wp` what has to hold for them to run well. -/

namespace Arsenal.Lib

open Relation

/-- An allocated block of memory. -/
structure Block where
  start : ℕ
  len : ℕ
  deriving DecidableEq, Repr

namespace Block

def Apart (b c : Block) : Prop := b.start + b.len ≤ c.start ∨ c.start + c.len ≤ b.start

/-- The `n` bytes at `a` are in the block. -/
def Holds (b : Block) (a n : ℕ) : Prop := b.start ≤ a ∧ a + n ≤ b.start + b.len

theorem holds_mk {start len a n : ℕ} :
    (⟨start, len⟩ : Block).Holds a n ↔ start ≤ a ∧ a + n ≤ start + len := Iff.rfl

end Block

/-- What a program runs in, with a device in state `dev`. -/
@[ext]
structure World (σ Out : Type) where
  mem : ℕ → UInt8
  live : List Block
  dev : σ
  /-- What was printed. -/
  out : List Out

namespace World

variable {σ Out : Type} (w : World σ Out)

/-- A block that can be allocated. -/
def Fresh (b : Block) : Prop :=
  (∀ c ∈ w.live, b.Apart c) ∧ b.start < 2 ^ 64 ∧ b.start + b.len ≤ 2 ^ 64

/-- The `n` bytes at `a` are allocated. -/
def Owns (a n : ℕ) : Prop := ∃ b ∈ w.live, b.Holds a n

def print (line : Out) : World σ Out := { w with out := w.out ++ [line] }

def alloc (start : ℕ) (bytes : List UInt8) : World σ Out :=
  { w with mem := writeMem w.mem start bytes, live := ⟨start, bytes.length⟩ :: w.live }

def store (a : ℕ) (bytes : List UInt8) : World σ Out := { w with mem := writeMem w.mem a bytes }

def free (b : Block) : World σ Out := { w with live := w.live.erase b }

/-- The memory has the same bytes in the allocated blocks. -/
def Keeps (mem : ℕ → UInt8) : Prop :=
  ∀ b ∈ w.live, ∀ i, b.start ≤ i → i < b.start + b.len → mem i = w.mem i

variable {w}

theorem Keeps.readMem_eq {mem : ℕ → UInt8} (h : w.Keeps mem) {a n : ℕ} (howns : w.Owns a n) :
    readMem mem a n = readMem w.mem a n := by
  obtain ⟨b, hb, hlo, hhi⟩ := howns
  exact readMem_congr fun i _ _ => h b hb i (by omega) (by omega)

end World

/-- A program that returns an `α`, calls its device with requests of type `Req` and prints lines of
type `Out`. -/
inductive Prog (Req Out α : Type) where
  | pure (a : α)
  | panic (message : String)
  | print (line : Out) (k : Prog Req Out α)
  /-- A new block with these bytes, and its address. -/
  | alloc (bytes : List UInt8) (k : ℕ → Prog Req Out α)
  | store (a : ℕ) (bytes : List UInt8) (k : Prog Req Out α)
  | load (a n : ℕ) (k : List UInt8 → Prog Req Out α)
  | free (b : Block) (k : Prog Req Out α)
  /-- A call, with the message if it cannot be made and the message if it takes too long. -/
  | call (req : Req) (full slow : String) (k : Prog Req Out α)

namespace Prog

variable {Req Out σ α β : Type}

def bind (p : Prog Req Out α) (f : α → Prog Req Out β) : Prog Req Out β :=
  match p with
  | .pure a => f a
  | .panic message => .panic message
  | .print line k => .print line (k.bind f)
  | .alloc bytes k => .alloc bytes fun a => (k a).bind f
  | .store a bytes k => .store a bytes (k.bind f)
  | .load a n k => .load a n fun bytes => (k bytes).bind f
  | .free b k => .free b (k.bind f)
  | .call req full slow k => .call req full slow (k.bind f)

instance : Monad (Prog Req Out) where
  pure := .pure
  bind := .bind

/-- The message of a failed allocation of `n` bytes. -/
def outOfMemory (n : ℕ) : String := s!"memory allocation of {n} bytes failed"

/-- The steps that do not involve the device. -/
inductive Local : Prog Req Out α × World σ Out → Prog Req Out α × World σ Out → Prop
  | print {line k w} : Local (.print line k, w) (k, w.print line)
  | alloc {bytes k w start} (h : w.Fresh ⟨start, bytes.length⟩) :
      Local (.alloc bytes k, w) (k start, w.alloc start bytes)
  | outOfMemory {bytes k w} : Local (.alloc bytes k, w) (.panic (outOfMemory bytes.length), w)
  | store {a bytes k w} (h : w.Owns a bytes.length) :
      Local (.store a bytes k, w) (k, w.store a bytes)
  | load {a n k w} (h : w.Owns a n) : Local (.load a n k, w) (k (readMem w.mem a n), w)
  | free {b k w} : Local (.free b k, w) (k, w.free b)

/-- What a device does with a request: it changes the memory and its state. -/
abbrev Service (Req σ : Type) := Req → (ℕ → UInt8) × σ → (ℕ → UInt8) × σ → Prop

/-- The steps of a program whose calls are one step each. -/
inductive Step (Exec : Service Req σ) :
    Prog Req Out α × World σ Out → Prog Req Out α × World σ Out → Prop
  | step {c c'} (h : Local c c') : Step Exec c c'
  | call {req full slow k w mem dev} (h : Exec req (w.mem, w.dev) (mem, dev)) :
      Step Exec (.call req full slow k, w) (k, { w with mem, dev })
  | slow {req full slow k w} : Step Exec (.call req full slow k, w) (.panic slow, w)

/-! ### Programs of one operation -/

def say (line : Out) : Prog Req Out Unit := .print line (.pure ())

def new (bytes : List UInt8) : Prog Req Out ℕ := .alloc bytes .pure

def read (a n : ℕ) : Prog Req Out (List UInt8) := .load a n .pure

def drop (b : Block) : Prog Req Out Unit := .free b (.pure ())

def ask (req : Req) (full slow : String) : Prog Req Out Unit := .call req full slow (.pure ())

/-! ### Pre- and postconditions -/

/-- What a program may rely on and what it has to keep to: what the device does with a request, when
it may be called, which panics there may be, and when a line may be printed. -/
structure Contract (Req Out σ : Type) where
  Exec : Service Req σ
  Pre : Req → World σ Out → Prop
  Panics : String → Prop
  Prints : Out → World σ Out → Prop

/-- What has to hold for the program to access only memory that is allocated, to keep to the
contract and to end in `Q`. -/
def wp (C : Contract Req Out σ) : Prog Req Out α → (α → World σ Out → Prop) → World σ Out → Prop
  | .pure a, Q, w => Q a w
  | .panic message, _, _ => C.Panics message
  | .print line k, Q, w => C.Prints line w ∧ wp C k Q (w.print line)
  | .alloc bytes k, Q, w => C.Panics (outOfMemory bytes.length) ∧
    ∀ start, w.Fresh ⟨start, bytes.length⟩ → wp C (k start) Q (w.alloc start bytes)
  | .store a bytes k, Q, w => w.Owns a bytes.length ∧ wp C k Q (w.store a bytes)
  | .load a n k, Q, w => w.Owns a n ∧ wp C (k (readMem w.mem a n)) Q w
  | .free b k, Q, w => wp C k Q (w.free b)
  | .call req _ slow k, Q, w => C.Pre req w ∧ C.Panics slow ∧
    ∀ mem dev, C.Exec req (w.mem, w.dev) (mem, dev) → wp C k Q { w with mem, dev }

section

variable {C : Contract Req Out σ} {p : Prog Req Out α} {Q : α → World σ Out → Prop}
  {w : World σ Out} {c c' : Prog Req Out α × World σ Out}

/-- A step leads to where the postcondition will hold. -/
theorem wp_step (h : c.1.wp C Q c.2) (hs : Step C.Exec c c') : c'.1.wp C Q c'.2 := by
  cases hs with
  | step hl =>
    cases hl with
    | print => exact h.2
    | alloc hfresh => exact h.2 _ hfresh
    | outOfMemory => exact h.1
    | store => exact h.2
    | load => exact h.2
    | free => exact h
  | call hexec => exact h.2.2 _ _ hexec
  | slow => exact h.2.1

variable {Exec : Service Req σ}

end

/-! ### One operation, and what follows it -/

section

variable {C : Contract Req Out σ} {w : World σ Out} {f : Unit → Prog Req Out β}
  {Q : β → World σ Out → Prop}

theorem wp_say {line : Out} :
    (say line >>= f).wp C Q w ↔ C.Prints line w ∧ (f ()).wp C Q (w.print line) := Iff.rfl

theorem wp_new {bytes : List UInt8} {f : ℕ → Prog Req Out β} :
    (new bytes >>= f).wp C Q w ↔ C.Panics (outOfMemory bytes.length) ∧
      ∀ start, w.Fresh ⟨start, bytes.length⟩ → (f start).wp C Q (w.alloc start bytes) := Iff.rfl

theorem wp_read {a n : ℕ} {f : List UInt8 → Prog Req Out β} :
    (read a n >>= f).wp C Q w ↔ w.Owns a n ∧ (f (readMem w.mem a n)).wp C Q w := Iff.rfl

theorem wp_ask {req : Req} {full slow : String} :
    (ask req full slow >>= f).wp C Q w ↔ C.Pre req w ∧ C.Panics slow ∧
      ∀ mem dev, C.Exec req (w.mem, w.dev) (mem, dev) →
        (f ()).wp C Q { w with mem, dev } := Iff.rfl

variable {Exec : Service Req σ}

end

end Prog

end Arsenal.Lib
