import Arsenal.Xhci.Descriptors

/-! The endpoints that `enumerate_port` configures.  It chooses the keyboard or the mass storage
path by the first interface of the configuration, and the path looks for its endpoints in the whole
configuration.  What it finds goes into the endpoint contexts of the input context, at a place that
is computed from the endpoint number. -/

namespace Arsenal.Xhci.Endpoints

open Descriptors

/-! ### The input context -/

/-- The DCI of an IN endpoint. -/
def inDci (addr : U8) : U32 := (addr &&& 0x0F).setWidth 32 * 2 + 1

/-- The DCI of an OUT endpoint. -/
def outDci (addr : U8) : U32 := (addr &&& 0x0F).setWidth 32 * 2

/-- The interval of an interrupt endpoint, as the context encodes it. -/
def interval (speed : U32) (bInterval : U8) : ℕ :=
  min (if speed = 3 ∨ speed = 4 then bInterval.toNat - 1
    else Nat.log2 (max bInterval.toNat 1) + 3) 15

/-- An endpoint that goes into the input context: its address, its DCI, and the dwords that are
written for it, by their offsets in the frame. -/
structure Endpoint where
  addr : U8
  dci : U32
  writes : List (ℕ × U32)
  deriving DecidableEq, Repr

/-- Where the context of an endpoint lies; the contexts before it are the control context, the slot
and EP0, which has DCI 1. -/
def contextAt (ctxSize : ℕ) (dci : U32) : ℕ := (dci.toNat + 1) * ctxSize

/-- The endpoint context of `setup_hid_keyboard`: EP Type 7. -/
def interruptEndpoint (ctxSize : ℕ) (speed : U32) (ring : U64)
    (ep : U8 × BitVec 16 × U8) : Endpoint :=
  let dci := inDci ep.1
  let at0 := contextAt ctxSize dci
  { addr := ep.1
    dci
    writes := [(at0, BitVec.ofNat 32 (interval speed ep.2.2) <<< 16),
      (at0 + 4, (ep.2.1.setWidth 32 <<< 16) ||| (7 <<< 3) ||| (3 <<< 1)),
      (at0 + 8, low ring ||| 1), (at0 + 12, high ring),
      (at0 + 16, (ep.2.1.setWidth 32 <<< 16) ||| 8)] }

/-- The endpoint contexts of `setup_mass_storage`: EP Type 2 for OUT, 6 for IN. -/
def bulkEndpoint (ctxSize : ℕ) (epType dci : U32) (addr : U8) (maxpkt : BitVec 16) (ring : U64) :
    Endpoint :=
  let at0 := contextAt ctxSize dci
  { addr
    dci
    writes := [(at0 + 4, (maxpkt.setWidth 32 <<< 16) ||| (epType <<< 3) ||| (3 <<< 1)),
      (at0 + 8, low ring ||| 1), (at0 + 12, high ring), (at0 + 16, maxpkt.setWidth 32)] }

/-- The dwords of the control context and of the slot context: the Add Flags, the Context Entries
with the speed, and the port. -/
def slotWrites (ctxSize : ℕ) (speed : U32) (portNum : U8) (eps : List Endpoint) :
    List (ℕ × U32) :=
  [(4, eps.foldl (fun flags e => flags ||| (1 <<< e.dci.toNat)) 1),
    (ctxSize, ((eps.foldl (fun dci e => if dci < e.dci then e.dci else dci) 0) <<< 27) |||
      (speed <<< 20)),
    (ctxSize + 4, portNum.setWidth 32 <<< 16)]

/-- The whole input context of Configure Endpoint. -/
def inputContext (ctxSize : ℕ) (speed : U32) (portNum : U8) (eps : List Endpoint) :
    List (ℕ × U32) :=
  slotWrites ctxSize speed portNum eps ++ eps.flatMap Endpoint.writes

/-- The path that `enumerate_port` chooses for a class, subclass and protocol. -/
inductive Path where
  | keyboard
  | massStorage
  | other
  deriving DecidableEq, Repr

def Path.of (iface : U8 × U8 × U8 × U8) : Path :=
  if iface.1 = 3 ∧ iface.2.1 = 1 ∧ iface.2.2.1 = 1 then .keyboard
  else if iface.1 = 8 ∧ iface.2.1 = 6 ∧ iface.2.2.1 = 0x50 then .massStorage
  else .other

/-- The endpoints that `setup_hid_keyboard` or `setup_mass_storage` configures, where `rings` are
the frames that it allocates for the IN and the OUT ring. -/
def configured (fuel ctxSize : ℕ) (speed : U32) (rings : U64 × U64) (cfg : List U8) :
    Except Fault (List Endpoint) := do
  match Path.of (← Descriptors.firstInterface fuel cfg) with
  | .keyboard =>
    match ← Descriptors.findInterruptInEndpoint fuel cfg with
    | some ep => return [interruptEndpoint ctxSize speed rings.1 ep]
    | none => return []
  | .massStorage =>
    match ← Descriptors.findBulkEndpoints fuel cfg with
    | some (inAddr, inMaxpkt, outAddr, outMaxpkt) =>
      return [bulkEndpoint ctxSize 2 (outDci outAddr) outAddr outMaxpkt rings.2,
        bulkEndpoint ctxSize 6 (inDci inAddr) inAddr inMaxpkt rings.1]
    | none => return []
  | .other => return []

/-! ### The first interface -/

/-- The kinds of endpoints that a path looks for. -/
def Path.kinds : Path → List (U8 × Bool)
  | .keyboard => [(3, true)]
  | .massStorage => [(2, true), (2, false)]
  | .other => []

/-- The path that the first interface chooses. -/
def chosen (ds : List (List U8)) : Path :=
  Path.of (((ds.find? isInterface).map interfaceFields).getD (0, 0, 0, 0))

/-- The descriptors that the search for a kind of endpoint passes before it stops. -/
def passed (ds : List (List U8)) (k : U8 × Bool) : List (List U8) :=
  ds.takeWhile fun d => !isEndpoint k.1 k.2 d

/-- The search for a kind stops after the first interface and before the next one, at an endpoint
that does not have the number 0. -/
def Own (ds : List (List U8)) (k : U8 × Bool) : Prop :=
  ∀ d, ds.find? (isEndpoint k.1 k.2) = some d →
    (passed ds k).countP isInterface = 1 ∧ endpointAddr d &&& 0x0F ≠ 0

theorem Path.eq_of_mem_kinds {path : Path} {k k' : U8 × Bool} (hk : k ∈ path.kinds)
    (hk' : k' ∈ path.kinds) (h : k.2 = k'.2) : k = k' := by
  cases path with
  | keyboard => rw [List.mem_singleton.mp hk, List.mem_singleton.mp hk']
  | massStorage =>
    simp only [Path.kinds, List.mem_cons, List.not_mem_nil, or_false] at hk hk'
    rcases hk with rfl | rfl <;> rcases hk' with rfl | rfl <;> simp_all
  | other => exact absurd hk List.not_mem_nil

/-- The direction of an endpoint is in its address. -/
theorem direction_of_isEndpoint {kind : U8} {isIn : Bool} {d : List U8}
    (h : isEndpoint kind isIn d) : (endpointAddr d &&& 0x80 != 0) = isIn := by
  rw [isEndpoint, Bool.and_eq_true] at h
  exact beq_iff_eq.mp h.2

/-! ### Numbers and places -/

theorem toNat_and_0x0F_le (addr : U8) : (addr &&& 0x0F).toNat ≤ 15 := by
  rw [BitVec.toNat_and]
  exact Nat.and_le_right

theorem toNat_outDci (addr : U8) : (outDci addr).toNat = 2 * (addr &&& 0x0F).toNat := by
  have := toNat_and_0x0F_le addr
  simp only [outDci, BitVec.toNat_mul, BitVec.toNat_setWidth, BitVec.ofNat_eq_ofNat,
    BitVec.toNat_ofNat]
  omega

theorem toNat_inDci (addr : U8) : (inDci addr).toNat = 2 * (addr &&& 0x0F).toNat + 1 := by
  have := toNat_and_0x0F_le addr
  have hout := toNat_outDci addr
  rw [outDci] at hout
  rw [inDci, BitVec.toNat_add, hout]
  simp only [BitVec.ofNat_eq_ofNat, BitVec.toNat_ofNat]
  omega

/-- An endpoint as it should be configured: it comes from the descriptor that the search for its
kind has stopped at, which is one of the first interface, and its number and its DCI leave the slot
and EP0 alone. -/
structure Endpoint.Good (e : Endpoint) (ds : List (List U8)) (ctxSize : ℕ) : Prop where
  descriptor : ∃ k ∈ (chosen ds).kinds, ∃ d, ds.find? (isEndpoint k.1 k.2) = some d ∧
    endpointAddr d = e.addr ∧ (passed ds k).countP isInterface = 1
  number : 1 ≤ (e.addr &&& 0x0F).toNat ∧ (e.addr &&& 0x0F).toNat ≤ 15
  dci : 2 ≤ e.dci.toNat ∧ e.dci.toNat ≤ 31
  place : ∀ w ∈ e.writes, 3 * ctxSize ≤ w.1

theorem contextAt_le {ctxSize : ℕ} {dci : U32} (h : 2 ≤ dci.toNat) (k : ℕ) :
    3 * ctxSize ≤ contextAt ctxSize dci + k := by
  have hmul := Nat.mul_le_mul_right ctxSize (show 3 ≤ dci.toNat + 1 by omega)
  rw [contextAt]
  omega

/-- An endpoint from the descriptor that a search has stopped at. -/
theorem Endpoint.good_iff {e : Endpoint} {ds : List (List U8)} {k : U8 × Bool} {d : List U8}
    {ctxSize : ℕ} (hk : k ∈ (chosen ds).kinds) (hd : ds.find? (isEndpoint k.1 k.2) = some d)
    (haddr : e.addr = endpointAddr d) (hdci : e.dci = inDci e.addr ∨ e.dci = outDci e.addr)
    (hwrites : ∀ w ∈ e.writes, contextAt ctxSize e.dci ≤ w.1) :
    e.Good ds ctxSize ↔ Own ds k := by
  constructor
  · intro h d' hd'
    obtain rfl := Option.some_inj.mp (hd.symm.trans hd')
    obtain ⟨k', hk', d', hd', haddr', hpassed⟩ := h.descriptor
    obtain rfl : k' = k := by
      refine Path.eq_of_mem_kinds hk' hk ?_
      rw [← direction_of_isEndpoint (List.find?_some hd),
        ← direction_of_isEndpoint (List.find?_some hd'), haddr', haddr]
    refine ⟨hpassed, fun hzero => ?_⟩
    have hpos := h.number.1
    rw [haddr, hzero] at hpos
    exact absurd hpos (by decide)
  · intro h
    obtain ⟨hpassed, hnumber⟩ := h d hd
    have hne : (e.addr &&& 0x0F).toNat ≠ 0 := by
      rw [haddr]
      exact fun hzero => hnumber (BitVec.eq_of_toNat_eq hzero)
    have hle := toNat_and_0x0F_le e.addr
    have hbounds : 2 ≤ e.dci.toNat ∧ e.dci.toNat ≤ 31 := by
      rcases hdci with hdci | hdci
      · rw [hdci, toNat_inDci]
        omega
      · rw [hdci, toNat_outDci]
        omega
    exact ⟨⟨k, hk, d, hd, haddr.symm, hpassed⟩, ⟨by omega, hle⟩, hbounds,
      fun w hw => (contextAt_le hbounds.1 0).trans (hwrites w hw)⟩

theorem le_of_mem_interruptEndpoint {ctxSize : ℕ} {speed : U32} {ring : U64}
    {ep : U8 × BitVec 16 × U8} {w : ℕ × U32}
    (h : w ∈ (interruptEndpoint ctxSize speed ring ep).writes) :
    contextAt ctxSize (interruptEndpoint ctxSize speed ring ep).dci ≤ w.1 := by
  simp only [interruptEndpoint, List.mem_cons, List.not_mem_nil, or_false] at h ⊢
  rcases h with rfl | rfl | rfl | rfl | rfl <;> simp

theorem le_of_mem_bulkEndpoint {ctxSize : ℕ} {epType dci : U32} {addr : U8} {maxpkt : BitVec 16}
    {ring : U64} {w : ℕ × U32} (h : w ∈ (bulkEndpoint ctxSize epType dci addr maxpkt ring).writes) :
    contextAt ctxSize dci ≤ w.1 := by
  simp only [bulkEndpoint, List.mem_cons, List.not_mem_nil, or_false] at h
  rcases h with rfl | rfl | rfl | rfl <;> simp

/-- The endpoints that are configured are as they should be exactly if the searches stop where they
should, provided that they all find something. -/
theorem configured_good {cfg : List U8} {fuel : ℕ} (hfuel : cfg.length < fuel) (ctxSize : ℕ)
    (speed : U32) (rings : U64 × U64) :
    ∃ eps, configured fuel ctxSize speed rings cfg = .ok eps ∧
      ((∀ e ∈ eps, e.Good (descriptorsOf cfg) ctxSize) ↔
        ((∀ k ∈ (chosen (descriptorsOf cfg)).kinds,
            ((descriptorsOf cfg).find? (isEndpoint k.1 k.2)).isSome) →
          ∀ k ∈ (chosen (descriptorsOf cfg)).kinds, Own (descriptorsOf cfg) k)) := by
  rw [configured, firstInterface_eq hfuel]
  show ∃ eps, (match chosen (descriptorsOf cfg) with
    | .keyboard => _
    | .massStorage => _
    | .other => _) = Except.ok eps ∧ _
  cases hpath : chosen (descriptorsOf cfg) with
  | keyboard =>
    have hkey : (3, true) ∈ (chosen (descriptorsOf cfg)).kinds := by
      rw [hpath]
      decide
    simp only [Path.kinds, List.forall_mem_singleton]
    rw [findInterruptInEndpoint_eq hfuel]
    cases hfind : (descriptorsOf cfg).find? (isEndpoint 3 true) with
    | none => exact ⟨[], rfl, by simp⟩
    | some d =>
      refine ⟨_, rfl, ?_⟩
      rw [List.forall_mem_singleton, Endpoint.good_iff hkey hfind rfl (.inl rfl)
        fun w => le_of_mem_interruptEndpoint]
      simp
  | massStorage =>
    have hbulk : ∀ k ∈ [(2, true), (2, false)], k ∈ (chosen (descriptorsOf cfg)).kinds := by
      rw [hpath]
      exact fun k hk => hk
    simp only [Path.kinds, List.forall_mem_cons]
    rw [findBulkEndpoints_eq hfuel]
    cases hfindIn : (descriptorsOf cfg).find? (isEndpoint 2 true) with
    | none => exact ⟨[], rfl, by simp⟩
    | some dIn =>
      cases hfindOut : (descriptorsOf cfg).find? (isEndpoint 2 false) with
      | none => exact ⟨[], rfl, by simp⟩
      | some dOut =>
        refine ⟨_, rfl, ?_⟩
        rw [List.forall_mem_cons, List.forall_mem_singleton]
        refine (and_congr
          (Endpoint.good_iff (hbulk (2, false) (by decide)) hfindOut rfl (.inr rfl)
            fun w => le_of_mem_bulkEndpoint)
          (Endpoint.good_iff (hbulk (2, true) (by decide)) hfindIn rfl (.inl rfl)
            fun w => le_of_mem_bulkEndpoint)).trans ?_
        simp [and_comm]
  | other => exact ⟨[], rfl, by simp [Path.kinds]⟩

/-- For every configuration: each endpoint that is configured comes from a descriptor after the
first interface and before the next one, has a number from 1 to 15 and a DCI from 2 to 31, and the
control, slot and EP0 contexts hold only what is meant for them, exactly if the searches of the
chosen path stop there at endpoints whose number is not 0, or one of them finds nothing. -/
theorem configured_endpoints (cfg : List U8) (more ctxSize : ℕ) (speed : U32) (portNum : U8)
    (rings : U64 × U64) :
    ((∀ k ∈ (chosen (descriptorsOf cfg)).kinds,
        ((descriptorsOf cfg).find? (isEndpoint k.1 k.2)).isSome) →
      ∀ k ∈ (chosen (descriptorsOf cfg)).kinds, Own (descriptorsOf cfg) k) ↔
    ∃ eps, configured (cfg.length + 1 + more) ctxSize speed rings cfg = .ok eps ∧
      (∀ e ∈ eps, e.Good (descriptorsOf cfg) ctxSize) ∧
      ∀ w ∈ inputContext ctxSize speed portNum eps, w.1 < 3 * ctxSize →
        w ∈ slotWrites ctxSize speed portNum eps := by
  obtain ⟨eps, heps, hiff⟩ := configured_good (show cfg.length < cfg.length + 1 + more by omega)
    ctxSize speed rings
  rw [← hiff]
  constructor
  · refine fun hgood => ⟨eps, heps, hgood, fun w hw hlow => ?_⟩
    rcases List.mem_append.mp hw with hw | hw
    · exact hw
    · obtain ⟨e, he, hwe⟩ := List.mem_flatMap.mp hw
      exact absurd ((hgood e he).place w hwe) (by omega)
  · rintro ⟨eps', heps', hgood, -⟩
    obtain rfl := Except.ok.inj (heps.symm.trans heps')
    exact hgood

/-- The configuration of a boot keyboard, with the address of its interrupt IN endpoint. -/
def keyboardCfg (epAddr : U8) : List U8 :=
  [9, 2, 34, 0, 1, 1, 0, 0xA0, 50, 9, 4, 0, 0, 1, 3, 1, 1, 0,
    9, 0x21, 0x11, 1, 0, 1, 0x22, 63, 0, 7, 5, epAddr, 3, 8, 0, 10]

theorem configured_endpoints_keyboard :
    ∃ eps, configured 35 32 1 (0x5000, 0) (keyboardCfg 0x81) = .ok eps ∧
      (∀ e ∈ eps, e.Good (descriptorsOf (keyboardCfg 0x81)) 32) ∧
      ∀ w ∈ inputContext 32 1 5 eps, w.1 < 3 * 32 → w ∈ slotWrites 32 1 5 eps := by
  refine (configured_endpoints (keyboardCfg 0x81) 0 32 1 5 (0x5000, 0)).mp fun _ k hk d hd => ?_
  have hpath : chosen (descriptorsOf (keyboardCfg 0x81)) = .keyboard := by decide
  rw [hpath] at hk
  obtain rfl := List.mem_singleton.mp hk
  have hfind : (descriptorsOf (keyboardCfg 0x81)).find? (isEndpoint 3 true) =
      some [7, 5, 0x81, 3, 8, 0, 10] := by decide
  obtain rfl := Option.some_inj.mp (hfind.symm.trans hd)
  exact ⟨by decide, by decide⟩

/-- A boot keyboard without an endpoint of its own, followed by another interface with an interrupt
IN endpoint. -/
def compositeCfg : List U8 :=
  [9, 2, 34, 0, 2, 1, 0, 0xA0, 50, 9, 4, 0, 0, 0, 3, 1, 1, 0,
    9, 4, 1, 0, 1, 0xFF, 0, 0, 0, 7, 5, 0x82, 3, 8, 0, 10]

/-- A mass storage device whose bulk OUT endpoint has the number 0. -/
def storageCfg : List U8 :=
  [9, 2, 32, 0, 1, 1, 0, 0x80, 50, 9, 4, 0, 0, 2, 8, 6, 0x50, 0,
    7, 5, 0x81, 2, 0, 2, 0, 7, 5, 0x00, 2, 0, 2, 0]

/-- What is configured: addresses, DCIs and the offsets that are written for them. -/
def summary (eps : List Endpoint) : List (U8 × U32 × List ℕ) :=
  eps.map fun e => (e.addr, e.dci, e.writes.map Prod.fst)

/-- The endpoint of the second interface is configured for the keyboard; the number 0 gives an IN
endpoint the context of EP0, which starts at 64, and an OUT endpoint that of the slot, which starts
at 32. -/
theorem configured_endpoints_foreign :
    ((configured 64 32 1 (0x5000, 0) compositeCfg).map summary =
        .ok [(0x82, 5, [192, 196, 200, 204, 208])] ∧
          (passed (descriptorsOf compositeCfg) (3, true)).countP isInterface = 2) ∧
      (configured 64 32 1 (0x5000, 0) (keyboardCfg 0x80)).map summary =
        .ok [(0x80, 1, [64, 68, 72, 76, 80])] ∧
      (configured 64 32 3 (0x5000, 0x6000) storageCfg).map summary =
        .ok [(0x00, 0, [36, 40, 44, 48]), (0x81, 3, [132, 136, 140, 144])] :=
  ⟨⟨by decide, by decide⟩, by decide, by decide⟩

end Arsenal.Xhci.Endpoints
