import Arsenal.Xhci.Driver

/-! The walks over a configuration descriptor in `xhci.rs`: `first_interface`,
`find_interrupt_in_endpoint` and `find_bulk_endpoints`, with every index that they use.  They read
the same list of descriptors: the longest one that a prefix of the bytes is the concatenation of. -/

namespace Arsenal.Xhci.Descriptors

/-! ### The walks -/

/-- An index past the end of the slice, or a loop that has not ended. -/
inductive Fault where
  | outOfBounds
  | outOfFuel
  deriving DecidableEq, Repr

/-- How one turn of a loop ends: with a result of the function, or with the next turn. -/
inductive Flow (ρ σ : Type) where
  | ret (r : ρ)
  | next (s : σ)
  deriving DecidableEq, Repr

/-- `cfg[i]`. -/
def byteAt (cfg : List U8) (i : ℕ) : Except Fault U8 :=
  match cfg[i]? with
  | some b => .ok b
  | none => .error .outOfBounds

/-- The loop over the descriptors from offset `i` on; `body` gets the offset and the length of each
of them. -/
def walk {ρ σ : Type} (cfg : List U8) (body : ℕ → ℕ → σ → Except Fault (Flow ρ σ)) :
    ℕ → ℕ → σ → Except Fault (Flow ρ σ)
  | 0, _, _ => .error .outOfFuel
  | fuel + 1, i, s =>
    if i + 2 ≤ cfg.length then do
      let len := (← byteAt cfg i).toNat
      if len < 2 ∨ i + len > cfg.length then return .next s
      match ← body i len s with
      | .ret r => return .ret r
      | .next s => walk cfg body fuel (i + len) s
    else return .next s

/-- `USB_DESC_INTERFACE`. -/
def usbDescInterface : U8 := 4

/-- `USB_DESC_ENDPOINT`. -/
def usbDescEndpoint : U8 := 5

/-- `u16::from_le_bytes`. -/
def fromLeBytes (lo hi : U8) : BitVec 16 := hi ++ lo

/-- The turn of `first_interface` for the descriptor at `i`. -/
def interfaceTurn (cfg : List U8) (i len : ℕ) (_ : Unit) :
    Except Fault (Flow (U8 × U8 × U8 × U8) Unit) := do
  if (← byteAt cfg (i + 1)) = usbDescInterface ∧ len ≥ 9 then
    return .ret (← byteAt cfg (i + 5), ← byteAt cfg (i + 6), ← byteAt cfg (i + 7),
      ← byteAt cfg (i + 4))
  else return .next ()

/-- `first_interface`: class, subclass, protocol and number of endpoints. -/
def firstInterface (fuel : ℕ) (cfg : List U8) : Except Fault (U8 × U8 × U8 × U8) := do
  match ← walk cfg (interfaceTurn cfg) fuel 0 () with
  | .ret r => return r
  | .next () => return (0, 0, 0, 0)

/-- The turn of `find_interrupt_in_endpoint` for the descriptor at `i`. -/
def interruptTurn (cfg : List U8) (i len : ℕ) (_ : Unit) :
    Except Fault (Flow (U8 × BitVec 16 × U8) Unit) := do
  if (← byteAt cfg (i + 1)) = usbDescEndpoint ∧ len ≥ 7 then
    let addr ← byteAt cfg (i + 2)
    let attrs ← byteAt cfg (i + 3)
    let maxpkt := fromLeBytes (← byteAt cfg (i + 4)) (← byteAt cfg (i + 5))
    let interval ← byteAt cfg (i + 6)
    if attrs &&& 0x3 = 0x3 ∧ addr &&& 0x80 ≠ 0 then return .ret (addr, maxpkt, interval)
    else return .next ()
  else return .next ()

/-- `find_interrupt_in_endpoint`: address, maximum packet size and interval. -/
def findInterruptInEndpoint (fuel : ℕ) (cfg : List U8) :
    Except Fault (Option (U8 × BitVec 16 × U8)) := do
  match ← walk cfg (interruptTurn cfg) fuel 0 () with
  | .ret r => return some r
  | .next () => return none

/-- What `find_bulk_endpoints` has found: an IN and an OUT endpoint, each with its address and
maximum packet size. -/
abbrev BulkPair := Option (U8 × BitVec 16) × Option (U8 × BitVec 16)

/-- The turn of `find_bulk_endpoints` for the descriptor at `i`. -/
def bulkTurn (cfg : List U8) (i len : ℕ) (bulk : BulkPair) :
    Except Fault (Flow Empty BulkPair) := do
  if (← byteAt cfg (i + 1)) = usbDescEndpoint ∧ len ≥ 7 then
    let addr ← byteAt cfg (i + 2)
    let attrs ← byteAt cfg (i + 3)
    let maxpkt := fromLeBytes (← byteAt cfg (i + 4)) (← byteAt cfg (i + 5))
    if attrs &&& 0x3 = 0x2 then
      if addr &&& 0x80 ≠ 0 then return .next (bulk.1.or (some (addr, maxpkt)), bulk.2)
      else return .next (bulk.1, bulk.2.or (some (addr, maxpkt)))
    else return .next bulk
  else return .next bulk

/-- `find_bulk_endpoints`: addresses and maximum packet sizes, IN first. -/
def findBulkEndpoints (fuel : ℕ) (cfg : List U8) :
    Except Fault (Option (U8 × BitVec 16 × U8 × BitVec 16)) := do
  match ← walk cfg (bulkTurn cfg) fuel 0 (none, none) with
  | .ret r => nomatch r
  | .next (some (inAddr, inMaxpkt), some (outAddr, outMaxpkt)) =>
    return some (inAddr, inMaxpkt, outAddr, outMaxpkt)
  | .next _ => return none

/-! ### The list of descriptors -/

/-- A descriptor: its first byte is its length, which is at least 2. -/
def WellFormed (d : List U8) : Prop := 2 ≤ d.length ∧ (d.getD 0 0).toNat = d.length

instance (d : List U8) : Decidable (WellFormed d) := inferInstanceAs (Decidable (_ ∧ _))

/-- `ds` is the longest list of descriptors whose concatenation is a prefix of `cfg`. -/
structure MaximalParse (cfg : List U8) (ds : List (List U8)) : Prop where
  wellFormed : ∀ d ∈ ds, WellFormed d
  isPrefix : ds.flatten <+: cfg
  maximal : ∀ ds', (∀ d ∈ ds', WellFormed d) → ds'.flatten <+: cfg → ds' <+: ds

theorem descriptors_succ (fuel : ℕ) (len kind : U8) (rest : List U8) :
    descriptors (fuel + 1) (len :: kind :: rest) =
      if len.toNat < 2 ∨ rest.length + 2 < len.toNat then []
      else (len :: kind :: rest).take len.toNat ::
        descriptors fuel ((len :: kind :: rest).drop len.toNat) :=
  rfl

theorem descriptors_congr {fuel fuel' : ℕ} {cfg : List U8} (h : cfg.length ≤ fuel)
    (h' : cfg.length ≤ fuel') : descriptors fuel cfg = descriptors fuel' cfg := by
  induction fuel generalizing cfg fuel' with
  | zero =>
    obtain rfl : cfg = [] := List.length_eq_zero_iff.mp (by omega)
    cases fuel' <;> rfl
  | succ fuel ih =>
    cases fuel' with
    | zero =>
      obtain rfl : cfg = [] := List.length_eq_zero_iff.mp (by omega)
      rfl
    | succ fuel' =>
      match cfg with
      | [] | [_] => rfl
      | len :: kind :: rest =>
        simp only [List.length_cons] at h h'
        rw [descriptors_succ, descriptors_succ]
        split
        · rfl
        · rename_i hlen
          have hdrop : ((len :: kind :: rest).drop len.toNat).length ≤ rest.length := by
            simp only [List.length_drop, List.length_cons]
            omega
          rw [ih (hdrop.trans (by omega)) (hdrop.trans (show rest.length ≤ fuel' by omega))]

/-- Whether a slice starts with a descriptor. -/
def Starts (cfg : List U8) : Prop :=
  2 ≤ cfg.length ∧ 2 ≤ (cfg.getD 0 0).toNat ∧ (cfg.getD 0 0).toNat ≤ cfg.length

instance (cfg : List U8) : Decidable (Starts cfg) := inferInstanceAs (Decidable (_ ∧ _ ∧ _))

theorem descriptorsOf_of_not_starts {cfg : List U8} (h : ¬Starts cfg) : descriptorsOf cfg = [] := by
  match cfg with
  | [] | [_] => rfl
  | len :: kind :: rest =>
    have hlen : len.toNat < 2 ∨ rest.length + 2 < len.toNat := by
      by_contra hlen
      refine h ⟨?_, ?_, ?_⟩ <;> simp only [List.length_cons, List.getD_cons_zero] <;> omega
    exact (descriptors_succ ..).trans (if_pos hlen)

theorem descriptorsOf_of_starts {cfg : List U8} (h : Starts cfg) :
    descriptorsOf cfg =
      cfg.take (cfg.getD 0 0).toNat :: descriptorsOf (cfg.drop (cfg.getD 0 0).toNat) := by
  match cfg with
  | [] | [_] => exact absurd h.1 (by simp)
  | len :: kind :: rest =>
    obtain ⟨-, hmin, hmax⟩ := h
    simp only [List.length_cons, List.getD_cons_zero] at hmin hmax
    have hdrop : ((len :: kind :: rest).drop len.toNat).length ≤ rest.length + 1 := by
      simp only [List.length_drop, List.length_cons]
      omega
    refine (descriptors_succ ..).trans ((if_neg (by omega)).trans ?_)
    rw [List.getD_cons_zero, descriptorsOf]
    exact congrArg _ (descriptors_congr hdrop le_rfl)

/-- The descriptor at the start of a slice. -/
theorem wellFormed_take {cfg : List U8} (h : Starts cfg) :
    WellFormed (cfg.take (cfg.getD 0 0).toNat) := by
  obtain ⟨-, hmin, hmax⟩ := h
  have hlen : (cfg.take (cfg.getD 0 0).toNat).length = (cfg.getD 0 0).toNat := by
    rw [List.length_take, Nat.min_eq_left hmax]
  refine ⟨hlen.symm ▸ hmin, ?_⟩
  have hfirst : (cfg.take (cfg.getD 0 0).toNat)[0]? = cfg[0]? :=
    List.getElem?_take_of_lt (by omega)
  rw [hlen, List.getD_eq_getElem?_getD, hfirst, ← List.getD_eq_getElem?_getD]

/-- A slice whose prefix is a descriptor starts with it. -/
theorem starts_of_append {d rest : List U8} (h : WellFormed d) :
    Starts (d ++ rest) ∧ ((d ++ rest).getD 0 0).toNat = d.length := by
  have hfirst : (d ++ rest).getD 0 0 = d.getD 0 0 := by
    obtain ⟨len, d, rfl⟩ := List.exists_cons_of_length_pos (show 0 < d.length by have := h.1; omega)
    rfl
  refine ⟨⟨?_, ?_, ?_⟩, ?_⟩
  · rw [List.length_append]
    have := h.1
    omega
  · rw [hfirst, h.2]
    exact h.1
  · rw [hfirst, h.2, List.length_append]
    omega
  · rw [hfirst, h.2]

/-- The first descriptor of any parse is the one whose length the first byte gives. -/
theorem starts_of_parse {cfg d : List U8} {ds : List (List U8)} (hwf : WellFormed d)
    (hpre : (d :: ds).flatten <+: cfg) :
    Starts cfg ∧ cfg.take (cfg.getD 0 0).toNat = d ∧
      ds.flatten <+: cfg.drop (cfg.getD 0 0).toNat := by
  obtain ⟨tail, rfl⟩ := hpre
  rw [List.flatten_cons, List.append_assoc]
  have hlen : ((d ++ (ds.flatten ++ tail)).getD 0 0).toNat = d.length := (starts_of_append hwf).2
  refine ⟨(starts_of_append hwf).1, ?_, ?_⟩
  · rw [hlen, List.take_left]
  · rw [hlen, List.drop_left]
    exact List.prefix_append ..

theorem maximalParse_descriptorsOf (cfg : List U8) : MaximalParse cfg (descriptorsOf cfg) := by
  induction hn : cfg.length using Nat.strong_induction_on generalizing cfg with
  | _ n ih =>
  by_cases h : Starts cfg
  · have hmin := h.2.1
    have hrest := ih (cfg.drop (cfg.getD 0 0).toNat).length
      (by rw [List.length_drop]; have := h.1; omega) _ rfl
    rw [descriptorsOf_of_starts h]
    refine ⟨?_, ?_, ?_⟩
    · intro d hd
      rcases List.mem_cons.mp hd with rfl | hd
      · exact wellFormed_take h
      · exact hrest.wellFormed d hd
    · conv_rhs => rw [← List.take_append_drop (cfg.getD 0 0).toNat cfg]
      rw [List.flatten_cons]
      exact List.prefix_append_right_inj _ |>.mpr hrest.isPrefix
    · intro ds' hwf hpre
      cases ds' with
      | nil => exact List.nil_prefix
      | cons d ds' =>
        obtain ⟨-, htake, hdrop⟩ := starts_of_parse (hwf d List.mem_cons_self) hpre
        rw [htake]
        refine List.cons_prefix_cons.mpr ⟨rfl, hrest.maximal ds' ?_ hdrop⟩
        exact fun d' hd' => hwf d' (List.mem_cons_of_mem _ hd')
  · rw [descriptorsOf_of_not_starts h]
    refine ⟨by simp, List.nil_prefix, ?_⟩
    intro ds' hwf hpre
    cases ds' with
    | nil => exact List.prefix_rfl
    | cons d ds' => exact absurd (starts_of_parse (hwf d List.mem_cons_self) hpre).1 h

/-! ### A walk reads the list -/

/-- A walk over a list of descriptors. -/
def scan {ρ σ : Type} (step : List U8 → σ → Flow ρ σ) : List (List U8) → σ → Flow ρ σ
  | [], s => .next s
  | d :: ds, s =>
    match step d s with
    | .ret r => .ret r
    | .next s => scan step ds s

section

variable {cfg : List U8} {i len k : ℕ}

theorem byteAt_of_lt (h : i < cfg.length) : byteAt cfg i = .ok (cfg.getD i 0) := by
  simp [byteAt, List.getD_eq_getElem?_getD, h]

/-- A byte of the descriptor at `i`. -/
theorem byteAt_add (hlen : i + len ≤ cfg.length) (hk : k < len) :
    byteAt cfg (i + k) = .ok (((cfg.drop i).take len).getD k 0) := by
  rw [byteAt_of_lt (by omega)]
  simp [List.getD_eq_getElem?_getD, hk]

theorem length_descriptor (hlen : i + len ≤ cfg.length) : ((cfg.drop i).take len).length = len := by
  simp only [List.length_take, List.length_drop]
  omega

theorem starts_drop (i : ℕ) (cfg : List U8) :
    Starts (cfg.drop i) ↔
      i + 2 ≤ cfg.length ∧ ¬((cfg.getD i 0).toNat < 2 ∨ i + (cfg.getD i 0).toNat > cfg.length) := by
  have hfirst : (cfg.drop i).getD 0 0 = cfg.getD i 0 := by
    simp [List.getD_eq_getElem?_getD]
  rw [Starts, hfirst, List.length_drop]
  omega

theorem walk_eq {ρ σ : Type} {body : ℕ → ℕ → σ → Except Fault (Flow ρ σ)}
    {step : List U8 → σ → Flow ρ σ}
    (hbody : ∀ i len s, i + len ≤ cfg.length → 2 ≤ len →
      body i len s = .ok (step ((cfg.drop i).take len) s))
    {fuel : ℕ} (hi : i ≤ cfg.length) (hfuel : cfg.length < i + fuel) (s : σ) :
    walk cfg body fuel i s = .ok (scan step (descriptorsOf (cfg.drop i)) s) := by
  induction fuel generalizing i s with
  | zero => omega
  | succ fuel ih =>
    rw [walk]
    by_cases hstarts : Starts (cfg.drop i)
    · have hfirst : (cfg.drop i).getD 0 0 = cfg.getD i 0 := by
        simp [List.getD_eq_getElem?_getD]
      rw [descriptorsOf_of_starts hstarts, scan, hfirst, List.drop_drop]
      obtain ⟨htwo, hlen⟩ := (starts_drop i cfg).mp hstarts
      rw [if_pos htwo, byteAt_of_lt (by omega)]
      show (if _ then _ else _) = _
      rw [if_neg hlen, hbody i _ s (by omega) (by omega)]
      show (match step ((cfg.drop i).take (cfg.getD i 0).toNat) s with
        | .ret r => _
        | .next s => _) = _
      cases step ((cfg.drop i).take (cfg.getD i 0).toNat) s with
      | ret r => rfl
      | next s => exact ih (by omega) (by omega) s
    · rw [descriptorsOf_of_not_starts hstarts, scan]
      rw [starts_drop, not_and_or, not_not] at hstarts
      by_cases htwo : i + 2 ≤ cfg.length
      · rw [if_pos htwo, byteAt_of_lt (by omega)]
        show (if _ then _ else _) = _
        rw [if_pos (hstarts.resolve_left (not_not.mpr htwo))]
        rfl
      · rw [if_neg htwo]
        rfl

end

/-! ### What the walks return -/

/-- An interface descriptor. -/
def isInterface (d : List U8) : Bool := d.getD 1 0 == usbDescInterface && 9 ≤ d.length

/-- Class, subclass, protocol and number of endpoints of an interface. -/
def interfaceFields (d : List U8) : U8 × U8 × U8 × U8 :=
  (d.getD 5 0, d.getD 6 0, d.getD 7 0, d.getD 4 0)

def endpointAddr (d : List U8) : U8 := d.getD 2 0

def endpointMaxpkt (d : List U8) : BitVec 16 := fromLeBytes (d.getD 4 0) (d.getD 5 0)

def endpointInterval (d : List U8) : U8 := d.getD 6 0

/-- A walk that returns at the first descriptor of a kind. -/
def findStep {ρ : Type} (p : List U8 → Bool) (f : List U8 → ρ) (d : List U8) (_ : Unit) :
    Flow ρ Unit :=
  if p d then .ret (f d) else .next ()

theorem scan_findStep {ρ : Type} (p : List U8 → Bool) (f : List U8 → ρ) (ds : List (List U8)) :
    scan (findStep p f) ds () =
      match ds.find? p with
      | some d => .ret (f d)
      | none => .next () := by
  induction ds with
  | nil => rfl
  | cons d ds ih =>
    rw [scan, List.find?_cons, findStep]
    cases p d with
    | true => rfl
    | false => exact ih

/-- A walk that keeps the first bulk endpoint of each direction. -/
def bulkStep (d : List U8) (bulk : BulkPair) : Flow Empty BulkPair :=
  .next
    (bulk.1.or (if isEndpoint 2 true d then some (endpointAddr d, endpointMaxpkt d) else none),
      bulk.2.or (if isEndpoint 2 false d then some (endpointAddr d, endpointMaxpkt d) else none))

theorem scan_bulkStep (ds : List (List U8)) (bulk : BulkPair) :
    scan bulkStep ds bulk = .next
      (bulk.1.or ((ds.find? (isEndpoint 2 true)).map fun d => (endpointAddr d, endpointMaxpkt d)),
        bulk.2.or
          ((ds.find? (isEndpoint 2 false)).map fun d => (endpointAddr d, endpointMaxpkt d))) := by
  induction ds generalizing bulk with
  | nil => simp [scan]
  | cons d ds ih =>
    rw [scan, bulkStep]
    refine (ih _).trans ?_
    simp only [List.find?_cons, Option.or_assoc]
    cases isEndpoint 2 true d <;> cases isEndpoint 2 false d <;> simp

section

variable {cfg : List U8} {i len : ℕ}

theorem interfaceTurn_eq (i len : ℕ) (s : Unit) (hlen : i + len ≤ cfg.length) (htwo : 2 ≤ len) :
    interfaceTurn cfg i len s =
      .ok (findStep isInterface interfaceFields ((cfg.drop i).take len) s) := by
  have hkind : isInterface ((cfg.drop i).take len) =
      decide (((cfg.drop i).take len).getD 1 0 = usbDescInterface ∧ len ≥ 9) := by
    rw [isInterface, length_descriptor hlen, Bool.decide_and]
    rfl
  rw [interfaceTurn, byteAt_add hlen (show 1 < len by omega), findStep, hkind]
  show (if _ then _ else _) = _
  by_cases h : ((cfg.drop i).take len).getD 1 0 = usbDescInterface ∧ len ≥ 9
  · rw [if_pos h, if_pos (decide_eq_true h), byteAt_add hlen (show 5 < len by omega),
      byteAt_add hlen (show 6 < len by omega), byteAt_add hlen (show 7 < len by omega),
      byteAt_add hlen (show 4 < len by omega)]
    rfl
  · rw [if_neg h, if_neg (by simpa using h)]
    rfl

theorem isEndpoint_descriptor (hlen : i + len ≤ cfg.length) (kind : U8) (isIn : Bool) :
    isEndpoint kind isIn ((cfg.drop i).take len) =
      (decide (((cfg.drop i).take len).getD 1 0 = usbDescEndpoint ∧ len ≥ 7) &&
        decide (((cfg.drop i).take len).getD 3 0 &&& 0x3 = kind) &&
        (decide (((cfg.drop i).take len).getD 2 0 &&& 0x80 ≠ 0) == isIn)) := by
  rw [isEndpoint, length_descriptor hlen, Bool.decide_and, bne, decide_not]
  rfl

theorem interruptTurn_eq (i len : ℕ) (s : Unit) (hlen : i + len ≤ cfg.length) (htwo : 2 ≤ len) :
    interruptTurn cfg i len s =
      .ok (findStep (isEndpoint 3 true)
        (fun d => (endpointAddr d, endpointMaxpkt d, endpointInterval d))
        ((cfg.drop i).take len) s) := by
  rw [interruptTurn, byteAt_add hlen (show 1 < len by omega), findStep, isEndpoint_descriptor hlen]
  show (if _ then _ else _) = _
  by_cases h : ((cfg.drop i).take len).getD 1 0 = usbDescEndpoint ∧ len ≥ 7
  · rw [if_pos h, byteAt_add hlen (show 2 < len by omega), byteAt_add hlen (show 3 < len by omega),
      byteAt_add hlen (show 4 < len by omega), byteAt_add hlen (show 5 < len by omega),
      byteAt_add hlen (show 6 < len by omega), decide_eq_true h]
    show (if _ then _ else _) = _
    by_cases hkind : ((cfg.drop i).take len).getD 3 0 &&& 0x3 = 0x3 ∧
        ((cfg.drop i).take len).getD 2 0 &&& 0x80 ≠ 0
    · rw [if_pos hkind, decide_eq_true hkind.1, decide_eq_true hkind.2]
      rfl
    · rw [if_neg hkind, if_neg (by simpa using hkind)]
      rfl
  · rw [if_neg h, decide_eq_false h]
    rfl

theorem bulkTurn_eq (i len : ℕ) (bulk : BulkPair) (hlen : i + len ≤ cfg.length) (htwo : 2 ≤ len) :
    bulkTurn cfg i len bulk = .ok (bulkStep ((cfg.drop i).take len) bulk) := by
  rw [bulkTurn, byteAt_add hlen (show 1 < len by omega), bulkStep, isEndpoint_descriptor hlen,
    isEndpoint_descriptor hlen]
  show (if _ then _ else _) = _
  by_cases h : ((cfg.drop i).take len).getD 1 0 = usbDescEndpoint ∧ len ≥ 7
  · rw [if_pos h, byteAt_add hlen (show 2 < len by omega), byteAt_add hlen (show 3 < len by omega),
      byteAt_add hlen (show 4 < len by omega), byteAt_add hlen (show 5 < len by omega),
      decide_eq_true h]
    show (if _ then _ else _) = _
    by_cases hkind : ((cfg.drop i).take len).getD 3 0 &&& 0x3 = 0x2
    · rw [if_pos hkind, decide_eq_true hkind]
      by_cases hin : ((cfg.drop i).take len).getD 2 0 &&& 0x80 ≠ 0
      · rw [if_pos hin, decide_eq_true hin]
        simp [pure, Except.pure, endpointAddr, endpointMaxpkt]
      · rw [if_neg hin, decide_eq_false hin]
        simp [pure, Except.pure, endpointAddr, endpointMaxpkt]
    · rw [if_neg hkind, decide_eq_false hkind]
      simp [pure, Except.pure]
  · rw [if_neg h, decide_eq_false h]
    simp [pure, Except.pure]

theorem firstInterface_eq {fuel : ℕ} (hfuel : cfg.length < fuel) :
    firstInterface fuel cfg =
      .ok ((((descriptorsOf cfg).find? isInterface).map interfaceFields).getD (0, 0, 0, 0)) := by
  rw [firstInterface, walk_eq interfaceTurn_eq (Nat.zero_le _) (by omega), List.drop_zero,
    scan_findStep]
  cases (descriptorsOf cfg).find? isInterface <;> rfl

theorem findInterruptInEndpoint_eq {fuel : ℕ} (hfuel : cfg.length < fuel) :
    findInterruptInEndpoint fuel cfg =
      .ok (((descriptorsOf cfg).find? (isEndpoint 3 true)).map fun d =>
        (endpointAddr d, endpointMaxpkt d, endpointInterval d)) := by
  rw [findInterruptInEndpoint, walk_eq interruptTurn_eq (Nat.zero_le _) (by omega), List.drop_zero,
    scan_findStep]
  cases (descriptorsOf cfg).find? (isEndpoint 3 true) <;> rfl

theorem findBulkEndpoints_eq {fuel : ℕ} (hfuel : cfg.length < fuel) :
    findBulkEndpoints fuel cfg =
      .ok (do
        let bulkIn ← (descriptorsOf cfg).find? (isEndpoint 2 true)
        let bulkOut ← (descriptorsOf cfg).find? (isEndpoint 2 false)
        return (endpointAddr bulkIn, endpointMaxpkt bulkIn, endpointAddr bulkOut,
          endpointMaxpkt bulkOut)) := by
  rw [findBulkEndpoints, walk_eq bulkTurn_eq (Nat.zero_le _) (by omega), List.drop_zero,
    scan_bulkStep]
  cases (descriptorsOf cfg).find? (isEndpoint 2 true) <;>
    cases (descriptorsOf cfg).find? (isEndpoint 2 false) <;> rfl

/-- The walks as the enumeration uses them. -/
theorem enumeration_walks {fuel : ℕ} (hfuel : cfg.length < fuel) :
    ((firstInterface fuel cfg).map fun r => (r.1, r.2.1, r.2.2.1)) = .ok (Xhci.firstInterface cfg) ∧
      ((findInterruptInEndpoint fuel cfg).map fun r => r.map Prod.fst) =
        .ok (Xhci.findInterruptInEndpoint cfg) ∧
      ((findBulkEndpoints fuel cfg).map fun r => r.map fun r => (r.1, r.2.2.1)) =
        .ok (Xhci.findBulkEndpoints cfg) := by
  rw [firstInterface_eq hfuel, findInterruptInEndpoint_eq hfuel, findBulkEndpoints_eq hfuel]
  refine ⟨?_, ?_, ?_⟩
  · unfold Xhci.firstInterface
    rw [show (fun d : List U8 => d.getD 1 0 == 4 && 9 ≤ d.length) = isInterface from rfl]
    cases (descriptorsOf cfg).find? isInterface <;> rfl
  · unfold Xhci.findInterruptInEndpoint
    cases (descriptorsOf cfg).find? (isEndpoint 3 true) <;> rfl
  · unfold Xhci.findBulkEndpoints
    cases (descriptorsOf cfg).find? (isEndpoint 2 true) <;>
      cases (descriptorsOf cfg).find? (isEndpoint 2 false) <;> rfl

end

/-- For every slice, the three walks end without an index past its end, and what they return is read
from the longest list of descriptors whose concatenation is a prefix of the slice: the class triple
and the number of endpoints of the first interface, the first interrupt IN endpoint, and the first
bulk IN endpoint together with the first bulk OUT endpoint.  The enumeration sees what they return.
-/
theorem walks_parse (cfg : List U8) (more : ℕ) :
    MaximalParse cfg (descriptorsOf cfg) ∧
      firstInterface (cfg.length + 1 + more) cfg =
        .ok ((((descriptorsOf cfg).find? isInterface).map interfaceFields).getD (0, 0, 0, 0)) ∧
      findInterruptInEndpoint (cfg.length + 1 + more) cfg =
        .ok (((descriptorsOf cfg).find? (isEndpoint 3 true)).map fun d =>
          (endpointAddr d, endpointMaxpkt d, endpointInterval d)) ∧
      findBulkEndpoints (cfg.length + 1 + more) cfg =
        .ok (do
          let bulkIn ← (descriptorsOf cfg).find? (isEndpoint 2 true)
          let bulkOut ← (descriptorsOf cfg).find? (isEndpoint 2 false)
          return (endpointAddr bulkIn, endpointMaxpkt bulkIn, endpointAddr bulkOut,
            endpointMaxpkt bulkOut)) ∧
      ((firstInterface (cfg.length + 1 + more) cfg).map fun r => (r.1, r.2.1, r.2.2.1)) =
        .ok (Xhci.firstInterface cfg) ∧
      ((findInterruptInEndpoint (cfg.length + 1 + more) cfg).map fun r => r.map Prod.fst) =
        .ok (Xhci.findInterruptInEndpoint cfg) ∧
      ((findBulkEndpoints (cfg.length + 1 + more) cfg).map fun r =>
        r.map fun r => (r.1, r.2.2.1)) = .ok (Xhci.findBulkEndpoints cfg) := by
  have hfuel : cfg.length < cfg.length + 1 + more := by omega
  exact ⟨maximalParse_descriptorsOf cfg, firstInterface_eq hfuel,
    findInterruptInEndpoint_eq hfuel, findBulkEndpoints_eq hfuel, enumeration_walks hfuel⟩

/-- A boot keyboard's configuration and three stray bytes, the last of which claim a descriptor that
does not fit. -/
example : firstInterface 64 [9, 2, 34, 0, 1, 1, 0, 0xA0, 50, 9, 4, 0, 0, 1, 3, 1, 1, 0,
      9, 0x21, 0x11, 1, 0, 1, 0x22, 63, 0, 7, 5, 0x81, 3, 8, 0, 10, 7, 5, 0x82] =
    .ok (3, 1, 1, 1) ∧
    findInterruptInEndpoint 64 [9, 2, 34, 0, 1, 1, 0, 0xA0, 50, 9, 4, 0, 0, 1, 3, 1, 1, 0,
      9, 0x21, 0x11, 1, 0, 1, 0x22, 63, 0, 7, 5, 0x81, 3, 8, 0, 10, 7, 5, 0x82] =
    .ok (some (0x81, 8, 10)) := by
  decide

end Arsenal.Xhci.Descriptors
