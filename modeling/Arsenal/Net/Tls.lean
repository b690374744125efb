import Arsenal.Lib.Conduit
import Mathlib.Data.UInt

/-! The TLS handshake of `net.rs`: `drive_rustls` turns what rustls has to say into bytes,
`pump_tls` moves them into the send buffer of the TCP socket, and `poll_loop` lets smoltcp hand them
to the device.  smoltcp and rustls are taken as they come, with what they do to the bytes. -/

namespace Arsenal.Net.Tls

open Arsenal.Lib Relation

/-! ### smoltcp and rustls -/

/-- The sockets of a stack `S`, by their handles: which are in the set, the bytes of their send
buffers that have not been sent, and the bytes that have been handed to the device for them. -/
structure Sockets (S H : Type) where
  live : S → H → Prop
  unsent : S → H → List UInt8
  transmitted : S → H → List UInt8

/-- The sockets of `s` are there in `s'`, with the same bytes. -/
def Sockets.Keep {S H : Type} (sockets : Sockets S H) (s s' : S) : Prop :=
  ∀ h, sockets.live s h → sockets.live s' h ∧ sockets.unsent s' h = sockets.unsent s h ∧
    sockets.transmitted s' h = sockets.transmitted s h

/-- `DhcpAction`. -/
inductive DhcpAction where
  | configure (ip : UInt32) (router : Option UInt32)
  | deconfigure
  deriving DecidableEq, Repr

/-- The interface with its device and sockets.  `send_slice` appends to the send buffer of its
socket, `poll` hands bytes from the front of the buffers to the device, `remove` discards what a
socket has not sent, and nothing else touches these bytes. -/
structure Smoltcp (S H : Type) extends Sockets S H where
  poll : S → S
  established : S → H → Bool
  canRecv : S → H → Bool
  recv : S → H → Option (List UInt8) × S
  canSend : S → H → Bool
  sendSlice : S → H → List UInt8 → Option ℕ × S
  connect : S → UInt16 → Option (H × S)
  remove : S → H → S
  dhcpPoll : S → Option DhcpAction × S
  configure : S → UInt32 → Option UInt32 → S
  deconfigure : S → S
  poll_spec : ∀ s h, live s h → live (poll s) h ∧
    ∃ n, unsent (poll s) h = (unsent s h).drop n ∧
      transmitted (poll s) h = transmitted s h ++ (unsent s h).take n
  recv_keep : ∀ s h, toSockets.Keep s (recv s h).2
  send_spec : ∀ s h data, live s h →
    live (sendSlice s h data).2 h ∧
      unsent (sendSlice s h data).2 h =
        unsent s h ++ data.take ((sendSlice s h data).1.getD 0) ∧
          transmitted (sendSlice s h data).2 h = transmitted s h
  connect_spec : ∀ s port h s', connect s port = some (h, s') →
    ¬live s h ∧ live s' h ∧ unsent s' h = [] ∧ transmitted s' h = [] ∧ toSockets.Keep s s'
  remove_spec : ∀ s h, ¬live (remove s h) h ∧ transmitted (remove s h) h = transmitted s h
  dhcp_keep : ∀ s, toSockets.Keep s (dhcpPoll s).2
  configure_keep : ∀ s ip router, toSockets.Keep s (configure s ip router)
  deconfigure_keep : ∀ s, toSockets.Keep s (deconfigure s)

inductive ConnectionState where
  | encodeTlsData
  | transmitTlsData
  | blockedHandshake
  | writeTraffic
  | closed
  | peerClosed
  | readTraffic
  | readEarlyData
  /-- The variants that the enumeration may get. -/
  | other
  deriving DecidableEq, Repr

/-- The result of `encode`: the bytes that it has written to the front of the buffer, or why it has
written none. -/
inductive EncodeResult where
  | ok (bytes : List UInt8)
  | insufficientSize (requiredSize : ℕ)
  | error
  deriving DecidableEq, Repr

/-- `UnbufferedStatus`, with the connection and the buffer as the call leaves them; the state is
`none` for an error. -/
structure UnbufferedStatus (C : Type) where
  discard : ℕ
  state : Option ConnectionState
  conn : C
  incoming : List UInt8

/-- rustls, with connections `C`. -/
structure Rustls (C : Type) where
  new : Option C
  processTlsRecords : C → List UInt8 → UnbufferedStatus C
  /-- `encode` into a buffer of the given size. -/
  encode : C → ℕ → EncodeResult × C
  done : C → C

/-! ### The code -/

structure TlsState (C : Type) where
  conn : C
  incoming : List UInt8
  outgoing : List UInt8
  handshakeDone : Bool
  deriving DecidableEq

/-- `NetStack`, where `net` is the interface with the device and the sockets.  `encoded` is what
`drive_rustls` has encoded for the connection. -/
structure NetStack (S H C : Type) where
  net : S
  configured : Bool
  tcpHandle : Option H
  tcpOk : Bool
  tlsTcpHandle : Option H
  tls : Option (TlsState C)
  tlsOk : Bool
  encoded : List UInt8
  deriving DecidableEq

/-- `ARSENAL_TCP_OK` and `ARSENAL_TLS_OK` on the serial line. -/
inductive Sentinel where
  | tcpOk
  | tlsOk
  deriving DecidableEq, Repr

def tcpSmokePort : UInt16 := 12345

def tlsSmokePort : UInt16 := 12346

def tlsOutgoingInitial : ℕ := 4096

/-- `Vec::resize` with zeros. -/
def resize (v : List UInt8) (n : ℕ) : List UInt8 := v.take n ++ List.replicate (n - v.length) 0

/-- The vector with `bytes` written from `start` on. -/
def overwrite (v : List UInt8) (start : ℕ) (bytes : List UInt8) : List UInt8 :=
  v.take start ++ bytes ++ v.drop (start + bytes.length)

/-- `drain(..n)`, which panics if the vector is shorter. -/
def drain (v : List UInt8) (n : ℕ) : Option (List UInt8) :=
  if n ≤ v.length then some (v.drop n) else none

section

variable {S H C : Type} (net : Smoltcp S H) (rustls : Rustls C)

/-- The inner loop of `drive_rustls`: whether to stop, the connection, `outgoing` and what has been
encoded. -/
def encodeLoop (start : ℕ) :
    ℕ → C → List UInt8 → ℕ → Option (Bool × C × List UInt8 × List UInt8)
  | 0, _, _, _ => none
  | fuel + 1, conn, outgoing, trySize =>
    let outgoing := resize outgoing (start + trySize)
    match rustls.encode conn trySize with
    | (.ok bytes, conn) =>
      some (false, conn, (overwrite outgoing start bytes).take (start + bytes.length), bytes)
    | (.insufficientSize requiredSize, conn) => encodeLoop start fuel conn outgoing requiredSize
    | (.error, conn) => some (true, conn, outgoing.take start, [])

/-- The match of `drive_rustls`: whether to stop, and what has been encoded. -/
def handleState (fuel : ℕ) (tls : TlsState C) :
    ConnectionState → Option (Bool × TlsState C × List UInt8)
  | .encodeTlsData =>
    (encodeLoop rustls tls.outgoing.length fuel tls.conn tls.outgoing
      (max tlsOutgoingInitial 2048)).map
        fun (stop, conn, outgoing, bytes) => (stop, { tls with conn, outgoing }, bytes)
  | .transmitTlsData => some (false, { tls with conn := rustls.done tls.conn }, [])
  | .blockedHandshake => some (true, tls, [])
  | .writeTraffic => some (true, { tls with handshakeDone := true }, [])
  | .closed | .peerClosed => some (true, tls, [])
  | .readTraffic | .readEarlyData => some (false, tls, [])
  | .other => some (true, tls, [])

/-- `drive_rustls`: its result and what it has encoded.  It is `none` if a call panics or the fuel
is short. -/
def driveRustls : ℕ → TlsState C → Option (Bool × TlsState C × List UInt8)
  | 0, _ => none
  | fuel + 1, tls => do
    let status := rustls.processTlsRecords tls.conn tls.incoming
    let tls := { tls with conn := status.conn, incoming := status.incoming }
    match status.state with
    | none => return (false, tls, [])
    | some state =>
      let (stop, tls, bytes) ← handleState rustls fuel tls state
      let incoming ← drain tls.incoming status.discard
      let tls := { tls with incoming }
      if stop then return (tls.handshakeDone, tls, bytes)
      let (done, tls, more) ← driveRustls fuel tls
      return (done, tls, bytes ++ more)

/-- The loop that drains the socket into `incoming`. -/
def receive (h : H) : ℕ → S → List UInt8 → Option (S × List UInt8)
  | 0, _, _ => none
  | fuel + 1, s, incoming =>
    if net.canRecv s h then
      match net.recv s h with
      | (some (b :: chunk), s) => receive h fuel s (incoming ++ b :: chunk)
      | (some [], s) | (none, s) => some (s, incoming)
    else some (s, incoming)

/-- The loop that moves `outgoing` into the socket.  Each round takes a byte at least, so there are
no more rounds than bytes. -/
def flush (h : H) : ℕ → S → List UInt8 → Option (S × List UInt8)
  | 0, s, outgoing => some (s, outgoing)
  | rounds + 1, s, outgoing =>
    if ¬outgoing.isEmpty ∧ net.canSend s h then
      match net.sendSlice s h outgoing with
      | (result, s) =>
        let sent := result.getD 0
        if sent = 0 then some (s, outgoing)
        else (drain outgoing sent).bind (flush h rounds s)
    else some (s, outgoing)

/-- The three phases of `pump_tls`. -/
def exchange (fuel : ℕ) (s : S) (h : H) (tls : TlsState C) :
    Option (Bool × S × TlsState C × List UInt8) := do
  let (s, incoming) ← receive net h fuel s tls.incoming
  let (s, outgoing) ← flush net h tls.outgoing.length s tls.outgoing
  let (justDone, tls, bytes) ← driveRustls rustls fuel { tls with incoming, outgoing }
  let (s, outgoing) ← flush net h tls.outgoing.length s tls.outgoing
  return (justDone, s, { tls with outgoing }, bytes)

/-- The end of `pump_tls`. -/
def complete (stack : NetStack S H C) (h : H) (justDone : Bool) :
    List Sentinel × NetStack S H C :=
  if justDone ∧ ¬stack.tlsOk then
    ([.tlsOk], { stack with
      tlsOk := true, tlsTcpHandle := none, net := net.remove stack.net h, tls := none })
  else ([], stack)

/-- `pump_tls`: what it prints and what it leaves. -/
def pumpTls (fuel : ℕ) (stack : NetStack S H C) : Option (List Sentinel × NetStack S H C) :=
  match stack.tlsTcpHandle, stack.tls with
  | some h, some tls =>
    if tls.handshakeDone then some ([], stack)
    else if ¬net.established stack.net h then some ([], stack)
    else
      (exchange net rustls fuel stack.net h tls).map fun (justDone, s, tls, bytes) =>
        complete net
          { stack with net := s, tls := some tls, encoded := stack.encoded ++ bytes } h justDone
  | some _, none | none, _ => some ([], stack)

/-- `start_tcp_smoke`. -/
def startTcpSmoke (stack : NetStack S H C) : NetStack S H C :=
  match net.connect stack.net tcpSmokePort with
  | none => stack
  | some (handle, s) => { stack with net := s, tcpHandle := some handle }

/-- `start_tls_smoke`. -/
def startTlsSmoke (stack : NetStack S H C) : NetStack S H C :=
  match net.connect stack.net tlsSmokePort with
  | none => stack
  | some (handle, s) =>
    let stack := { stack with net := s, tlsTcpHandle := some handle }
    match rustls.new with
    | none => stack
    | some conn => { stack with tls := some ⟨conn, [], [], false⟩, encoded := [] }

/-- The probes that the first lease starts. -/
def startProbes (stack : NetStack S H C) : NetStack S H C :=
  let stack := if stack.tcpHandle.isNone then startTcpSmoke net stack else stack
  if stack.tlsTcpHandle.isNone then startTlsSmoke net rustls stack else stack

/-- The start of a round of `poll_loop`, up to `pump_tls`. -/
def watchTcp (stack : NetStack S H C) : List Sentinel × NetStack S H C :=
  let stack := { stack with net := net.poll stack.net }
  match stack.tcpHandle with
  | none => ([], stack)
  | some handle =>
    if ¬stack.tcpOk ∧ net.established stack.net handle then
      ([.tcpOk], { stack with tcpOk := true })
    else ([], stack)

/-- The end of a round of `poll_loop`, after `pump_tls`. -/
def applyDhcp (stack : NetStack S H C) : NetStack S H C :=
  match net.dhcpPoll stack.net with
  | (none, s) => { stack with net := s }
  | (some (.configure ip router), s) =>
    if ¬stack.configured then
      startProbes net rustls { stack with net := net.configure s ip router, configured := true }
    else { stack with net := net.configure s ip router }
  | (some .deconfigure, s) => { stack with net := net.deconfigure s, configured := false }

/-- A round of `poll_loop`. -/
def pollRound (fuel : ℕ) (stack : NetStack S H C) : Option (List Sentinel × NetStack S H C) := do
  let (lines, stack) := watchTcp net stack
  let (lines', stack) ← pumpTls net rustls fuel stack
  return (lines ++ lines', applyDhcp net rustls stack)

/-- `init`. -/
def init (s : S) : NetStack S H C := ⟨s, false, none, false, none, none, false, []⟩

/-- A round that ends. -/
def Round (stack stack' : NetStack S H C) : Prop :=
  ∃ fuel lines, pollRound net rustls fuel stack = some (lines, stack')

end

/-! ### What rustls encodes -/

section

variable {C : Type} (rustls : Rustls C)

/-- `encode` in buffers of the sizes that it asks for, the first of the given size. -/
inductive Rustls.EncodesOnce : C → ℕ → C → List UInt8 → Prop
  | ok {conn conn' : C} {size : ℕ} {bytes : List UInt8}
      (h : rustls.encode conn size = (.ok bytes, conn')) : EncodesOnce conn size conn' bytes
  | again {conn conn₁ conn' : C} {size requiredSize : ℕ} {bytes : List UInt8}
      (h : rustls.encode conn size = (.insufficientSize requiredSize, conn₁))
      (hrest : EncodesOnce conn₁ requiredSize conn' bytes) : EncodesOnce conn size conn' bytes

/-- What rustls encodes from a connection with these records on, until it reports `WriteTraffic`;
`more` is what it encodes after the status that it gives first. -/
inductive Rustls.Encodes : C → List UInt8 → List UInt8 → Prop
  | traffic {conn : C} {incoming : List UInt8}
      (h : (rustls.processTlsRecords conn incoming).state = some .writeTraffic) :
      Encodes conn incoming []
  | encode {conn conn' : C} {incoming bytes more : List UInt8} {status : UnbufferedStatus C}
      (hstatus : rustls.processTlsRecords conn incoming = status)
      (h : status.state = some .encodeTlsData)
      (hencode : rustls.EncodesOnce status.conn (max tlsOutgoingInitial 2048) conn' bytes)
      (hrest : Encodes conn' (status.incoming.drop status.discard) more) :
      Encodes conn incoming (bytes ++ more)
  | transmit {conn : C} {incoming more : List UInt8} {status : UnbufferedStatus C}
      (hstatus : rustls.processTlsRecords conn incoming = status)
      (h : status.state = some .transmitTlsData)
      (hrest : Encodes (rustls.done status.conn) (status.incoming.drop status.discard) more) :
      Encodes conn incoming more
  | read {conn : C} {incoming more : List UInt8} {status : UnbufferedStatus C}
      (hstatus : rustls.processTlsRecords conn incoming = status)
      (h : status.state = some .readTraffic ∨ status.state = some .readEarlyData)
      (hrest : Encodes status.conn (status.incoming.drop status.discard) more) :
      Encodes conn incoming more

end

/-! ### What is encoded is appended -/

theorem take_resize {v : List UInt8} {start : ℕ} (h : start ≤ v.length) (n : ℕ) :
    (resize v (start + n)).take start = v.take start := by
  have hlen : start ≤ (v.take (start + n)).length := by
    rw [List.length_take]
    omega
  rw [resize, List.take_append_of_le_length hlen, List.take_take, Nat.min_eq_left (by omega)]

theorem take_overwrite {v : List UInt8} {start : ℕ} (h : start ≤ v.length) (bytes : List UInt8) :
    (overwrite v start bytes).take (start + bytes.length) = v.take start ++ bytes := by
  have hlen : (v.take start ++ bytes).length = start + bytes.length := by
    rw [List.length_append, List.length_take, Nat.min_eq_left h]
  rw [overwrite, ← hlen, List.take_left]

section

variable {C : Type} {rustls : Rustls C} {tls tls' : TlsState C} {stop : Bool} {bytes : List UInt8}

/-- However often it tries, the loop leaves what was there before and appends what it encodes. -/
theorem encodeLoop_outgoing {start fuel trySize : ℕ} {conn conn' : C}
    {old outgoing outgoing' : List UInt8} (hold : outgoing.take start = old)
    (hlen : start ≤ outgoing.length)
    (h : encodeLoop rustls start fuel conn outgoing trySize =
      some (stop, conn', outgoing', bytes)) :
    outgoing' = old ++ bytes := by
  induction fuel generalizing conn outgoing trySize with
  | zero => cases h
  | succ fuel ih =>
    have hlen' : start ≤ (resize outgoing (start + trySize)).length := by
      simp only [resize, List.length_append, List.length_take, List.length_replicate]
      omega
    have hold' := (take_resize hlen trySize).trans hold
    simp only [encodeLoop] at h
    split at h
    · simp only [Option.some_inj, Prod.mk.injEq] at h
      obtain ⟨-, -, rfl, rfl⟩ := h
      rw [take_overwrite hlen', hold']
    · exact ih hold' hlen' h
    · simp only [Option.some_inj, Prod.mk.injEq] at h
      obtain ⟨-, -, rfl, rfl⟩ := h
      rw [hold', List.append_nil]

theorem handleState_outgoing {fuel : ℕ} {state : ConnectionState}
    (h : handleState rustls fuel tls state = some (stop, tls', bytes)) :
    tls'.outgoing = tls.outgoing ++ bytes := by
  cases state with
  | encodeTlsData =>
    obtain ⟨⟨stop, conn, outgoing, bytes⟩, hloop, heq⟩ := Option.map_eq_some_iff.mp h
    obtain ⟨-, rfl, rfl⟩ : _ ∧ _ ∧ _ := by simpa only [Prod.mk.injEq] using heq
    exact encodeLoop_outgoing List.take_length (Nat.le_refl _) hloop
  | transmitTlsData | blockedHandshake | writeTraffic | closed | peerClosed | readTraffic
  | readEarlyData | other =>
    simp only [handleState, Option.some_inj, Prod.mk.injEq] at h
    obtain ⟨-, rfl, rfl⟩ := h
    exact (List.append_nil _).symm

theorem driveRustls_outgoing {fuel : ℕ} {done : Bool}
    (h : driveRustls rustls fuel tls = some (done, tls', bytes)) :
    tls'.outgoing = tls.outgoing ++ bytes := by
  induction fuel generalizing tls bytes with
  | zero => cases h
  | succ fuel ih =>
    simp only [driveRustls] at h
    split at h
    · simp only [Option.pure_def, Option.some_inj, Prod.mk.injEq] at h
      obtain ⟨-, rfl, rfl⟩ := h
      exact (List.append_nil _).symm
    · simp only [Option.bind_eq_bind, Option.bind_eq_some_iff, Prod.exists] at h
      obtain ⟨stop, tls₁, bytes₁, hhandle, incoming, hdrain, hrest⟩ := h
      have hfirst := handleState_outgoing hhandle
      split at hrest
      · simp only [Option.pure_def, Option.some_inj, Prod.mk.injEq] at hrest
        obtain ⟨-, rfl, rfl⟩ := hrest
        exact hfirst
      · simp only [Option.bind_eq_some_iff, Prod.exists, Option.pure_def, Option.some_inj,
          Prod.mk.injEq] at hrest
        obtain ⟨_, _, more, hdrive, rfl, rfl, rfl⟩ := hrest
        rw [ih hdrive, ← List.append_assoc]
        exact congrArg (· ++ more) hfirst

theorem encodesOnce_of_encodeLoop {start fuel trySize : ℕ} {conn conn' : C}
    {outgoing outgoing' : List UInt8}
    (h : encodeLoop rustls start fuel conn outgoing trySize =
      some (false, conn', outgoing', bytes)) : rustls.EncodesOnce conn trySize conn' bytes := by
  induction fuel generalizing conn outgoing trySize with
  | zero => cases h
  | succ fuel ih =>
    simp only [encodeLoop] at h
    split at h
    · rename_i hencode
      simp only [Option.some_inj, Prod.mk.injEq, true_and] at h
      obtain ⟨rfl, -, rfl⟩ := h
      exact .ok hencode
    · exact .again ‹_› (ih h)
    · cases h

/-- A call of `drive_rustls` that ends the handshake has asked rustls up to `WriteTraffic`. -/
theorem encodes_of_driveRustls {fuel : ℕ} (hopen : tls.handshakeDone = false)
    (h : driveRustls rustls fuel tls = some (true, tls', bytes)) :
    rustls.Encodes tls.conn tls.incoming bytes := by
  induction fuel generalizing tls bytes with
  | zero => cases h
  | succ fuel ih =>
    simp only [driveRustls] at h
    split at h
    case h_1 => cases h
    case h_2 state hstate =>
    simp only [Option.bind_eq_bind, Option.bind_eq_some_iff, Prod.exists] at h
    obtain ⟨stop, tls₁, bytes₁, hhandle, incoming, hdrain, hend⟩ := h
    simp only [drain, Option.ite_none_right_eq_some, Option.some_inj] at hdrain
    obtain ⟨-, rfl⟩ := hdrain
    cases state with
    | encodeTlsData =>
      obtain ⟨⟨stop, conn, outgoing, bytes⟩, hloop, heq⟩ := Option.map_eq_some_iff.mp hhandle
      obtain ⟨rfl, rfl, rfl⟩ : _ ∧ _ ∧ _ := by simpa only [Prod.mk.injEq] using heq
      cases stop with
      | true => simp [hopen] at hend
      | false =>
        simp only [Bool.false_eq_true, if_false, Option.bind_eq_some_iff, Prod.exists,
          Option.pure_def, Option.some_inj, Prod.mk.injEq] at hend
        obtain ⟨_, _, more, hdrive, rfl, rfl, rfl⟩ := hend
        exact .encode rfl hstate (encodesOnce_of_encodeLoop hloop) (ih (by exact hopen) hdrive)
    | writeTraffic =>
      simp only [handleState, Option.some_inj, Prod.mk.injEq] at hhandle
      obtain ⟨rfl, rfl, rfl⟩ := hhandle
      simp only [if_true, Option.pure_def, Option.some_inj, Prod.mk.injEq] at hend
      obtain ⟨-, -, rfl⟩ := hend
      exact .traffic hstate
    | transmitTlsData =>
      simp only [handleState, Option.some_inj, Prod.mk.injEq] at hhandle
      obtain ⟨rfl, rfl, rfl⟩ := hhandle
      simp only [Bool.false_eq_true, if_false, Option.bind_eq_some_iff, Prod.exists,
        Option.pure_def, Option.some_inj, Prod.mk.injEq, List.nil_append] at hend
      obtain ⟨_, _, more, hdrive, rfl, rfl, rfl⟩ := hend
      exact .transmit rfl hstate (ih (by exact hopen) hdrive)
    | readTraffic | readEarlyData =>
      simp only [handleState, Option.some_inj, Prod.mk.injEq] at hhandle
      obtain ⟨rfl, rfl, rfl⟩ := hhandle
      simp only [Bool.false_eq_true, if_false, Option.bind_eq_some_iff, Prod.exists,
        Option.pure_def, Option.some_inj, Prod.mk.injEq, List.nil_append] at hend
      obtain ⟨_, _, more, hdrive, rfl, rfl, rfl⟩ := hend
      exact .read rfl (by simp [hstate]) (ih (by exact hopen) hdrive)
    | blockedHandshake | closed | peerClosed | other =>
      simp only [handleState, Option.some_inj, Prod.mk.injEq] at hhandle
      obtain ⟨rfl, rfl, rfl⟩ := hhandle
      simp [hopen] at hend

end

/-! ### The way of the bytes -/

section

variable {S H C : Type} {net : Smoltcp S H} {rustls : Rustls C} {s s' s'' : S} {h : H} {fuel : ℕ}
  {outgoing outgoing' encoded bytes : List UInt8} {tls tls' : TlsState C}

/-- The bytes of a connection: those that wait in `outgoing` and in the send buffer, and those that
are with the device. -/
def conduit (net : Smoltcp S H) (s : S) (h : H) (outgoing encoded : List UInt8) : Conduit UInt8 :=
  ⟨encoded, outgoing, net.unsent s h, net.transmitted s h⟩

theorem Sockets.Keep.refl {sockets : Sockets S H} (s : S) : sockets.Keep s s :=
  fun _ hlive => ⟨hlive, rfl, rfl⟩

theorem Sockets.Keep.trans {sockets : Sockets S H} (h₁ : sockets.Keep s s')
    (h₂ : sockets.Keep s' s'') : sockets.Keep s s'' := by
  intro h hlive
  obtain ⟨hlive', hunsent, htransmitted⟩ := h₁ h hlive
  obtain ⟨hlive'', hunsent', htransmitted'⟩ := h₂ h hlive'
  exact ⟨hlive'', hunsent'.trans hunsent, htransmitted'.trans htransmitted⟩

theorem conduit_keep (hkeep : net.Keep s s') (hlive : net.live s h) :
    conduit net s' h outgoing encoded = conduit net s h outgoing encoded := by
  obtain ⟨-, hunsent, htransmitted⟩ := hkeep h hlive
  rw [conduit, conduit, hunsent, htransmitted]

theorem receive_keep {incoming incoming' : List UInt8}
    (hrecv : receive net h fuel s incoming = some (s', incoming')) : net.Keep s s' := by
  induction fuel generalizing s incoming with
  | zero => cases hrecv
  | succ fuel ih =>
    have hkeep := net.recv_keep s h
    simp only [receive] at hrecv
    split at hrecv
    · split at hrecv
      · rename_i heq
        rw [heq] at hkeep
        exact hkeep.trans (ih hrecv)
      all_goals
        rename_i heq
        simp only [Option.some_inj, Prod.mk.injEq] at hrecv
        rw [heq, hrecv.1] at hkeep
        exact hkeep
    · simp only [Option.some_inj, Prod.mk.injEq] at hrecv
      rw [← hrecv.1]
      exact .refl s

/-- A call of `send_slice` and the `drain` after it pass bytes on. -/
theorem send_step (hlive : net.live s h) (outgoing encoded : List UInt8) :
    Conduit.Step (conduit net s h outgoing encoded)
      (conduit net (net.sendSlice s h outgoing).2 h
        (outgoing.drop ((net.sendSlice s h outgoing).1.getD 0)) encoded) := by
  obtain ⟨-, hunsent, htransmitted⟩ := net.send_spec s h outgoing hlive
  rw [conduit, conduit, hunsent, htransmitted]
  exact .pass (c := conduit net s h outgoing encoded) _

theorem flush_run {rounds : ℕ} (hlive : net.live s h)
    (hflush : flush net h rounds s outgoing = some (s', outgoing')) (encoded : List UInt8) :
    net.live s' h ∧ net.transmitted s' h = net.transmitted s h ∧
      ReflTransGen Conduit.Step (conduit net s h outgoing encoded)
        (conduit net s' h outgoing' encoded) := by
  induction rounds generalizing s outgoing with
  | zero =>
    simp only [flush, Option.some_inj, Prod.mk.injEq] at hflush
    obtain ⟨rfl, rfl⟩ := hflush
    exact ⟨hlive, rfl, .refl⟩
  | succ rounds ih =>
    simp only [flush] at hflush
    split at hflush
    · obtain ⟨hlive', -, hkept⟩ := net.send_spec s h outgoing hlive
      have hstep := send_step hlive outgoing encoded
      split at hflush
      · rename_i hzero
        simp only [Option.some_inj, Prod.mk.injEq] at hflush
        obtain ⟨rfl, rfl⟩ := hflush
        rw [hzero, List.drop_zero] at hstep
        exact ⟨hlive', hkept, .single hstep⟩
      · obtain ⟨rest, hdrain, hrest⟩ := Option.bind_eq_some_iff.mp hflush
        simp only [drain, Option.ite_none_right_eq_some, Option.some_inj] at hdrain
        obtain ⟨-, rfl⟩ := hdrain
        obtain ⟨hlive'', hkept', hrun⟩ := ih hlive' hrest
        exact ⟨hlive'', hkept'.trans hkept, hrun.head hstep⟩
    · simp only [Option.some_inj, Prod.mk.injEq] at hflush
      obtain ⟨rfl, rfl⟩ := hflush
      exact ⟨hlive, rfl, .refl⟩

/-- The phases of `pump_tls` only pass bytes on and produce what `drive_rustls` encodes; nothing
reaches the device. -/
theorem exchange_run {justDone : Bool} (hlive : net.live s h)
    (hex : exchange net rustls fuel s h tls = some (justDone, s', tls', bytes))
    (encoded : List UInt8) :
    net.live s' h ∧ net.transmitted s' h = net.transmitted s h ∧
      ReflTransGen Conduit.Step (conduit net s h tls.outgoing encoded)
        (conduit net s' h tls'.outgoing (encoded ++ bytes)) := by
  simp only [exchange, Option.bind_eq_bind, Option.bind_eq_some_iff, Prod.exists, Option.pure_def,
    Option.some_inj, Prod.mk.injEq] at hex
  obtain ⟨s₁, incoming, hrecv, s₂, outgoing, hflush, done, tls₃, bytes', hdrive, s₄, outgoing',
    hflush', rfl, rfl, rfl, rfl⟩ := hex
  have hkeep := receive_keep hrecv
  obtain ⟨hlive₁, -, hkept₁⟩ := hkeep h hlive
  obtain ⟨hlive₂, hkept₂, hrun₂⟩ := flush_run hlive₁ hflush encoded
  have hdriven := driveRustls_outgoing hdrive
  obtain ⟨hlive₄, hkept₄, hrun₄⟩ := flush_run hlive₂ hflush' (encoded ++ bytes')
  rw [conduit_keep hkeep hlive] at hrun₂
  refine ⟨hlive₄, hkept₄.trans (hkept₂.trans hkept₁), hrun₂.trans (.head ?_ hrun₄)⟩
  rw [hdriven]
  exact .produce (c := conduit net s₂ h outgoing encoded) bytes'

/-- The call that ends the handshake asks rustls with the records that have arrived. -/
theorem exchange_encodes (hopen : tls.handshakeDone = false)
    (hex : exchange net rustls fuel s h tls = some (true, s', tls', bytes)) :
    ∃ s₁ incoming, receive net h fuel s tls.incoming = some (s₁, incoming) ∧
      rustls.Encodes tls.conn incoming bytes := by
  simp only [exchange, Option.bind_eq_bind, Option.bind_eq_some_iff, Prod.exists, Option.pure_def,
    Option.some_inj, Prod.mk.injEq] at hex
  obtain ⟨s₁, incoming, hrecv, s₂, outgoing, -, done, tls₃, bytes', hdrive, s₄, outgoing', -, rfl,
    rfl, rfl, rfl⟩ := hex
  exact ⟨s₁, incoming, hrecv, encodes_of_driveRustls (by exact hopen) hdrive⟩

theorem poll_step (hlive : net.live s h) :
    Conduit.Step (conduit net s h outgoing encoded)
      (conduit net (net.poll s) h outgoing encoded) := by
  obtain ⟨-, n, hunsent, htransmitted⟩ := net.poll_spec s h hlive
  rw [conduit, conduit, hunsent, htransmitted]
  exact .deliver (c := conduit net s h outgoing encoded) n

/-! ### Whole runs -/

/-- The bytes of the connection are in order, and a stack without a TLS socket has none. -/
structure Inv (net : Smoltcp S H) (stack : NetStack S H C) : Prop where
  absent : stack.tlsTcpHandle = none → stack.tls = none
  live : ∀ h, stack.tlsTcpHandle = some h → net.live stack.net h
  inOrder : ∀ h tls, stack.tlsTcpHandle = some h → stack.tls = some tls →
    (conduit net stack.net h tls.outgoing stack.encoded).InOrder

variable {stack stack' : NetStack S H C} {lines : List Sentinel}

theorem Inv.keep (hinv : Inv net stack) (hkeep : net.Keep stack.net s) :
    Inv net { stack with net := s } where
  absent := hinv.absent
  live h hh := (hkeep h (hinv.live h hh)).1
  inOrder h tls hh htls := by
    rw [conduit_keep hkeep (hinv.live h hh)]
    exact hinv.inOrder h tls hh htls

theorem Inv.watchTcp (hinv : Inv net stack) : Inv net (watchTcp net stack).2 := by
  have hpolled : Inv net { stack with net := net.poll stack.net } := by
    refine ⟨hinv.absent, fun h hh => (net.poll_spec _ h (hinv.live h hh)).1, ?_⟩
    exact fun h tls hh htls => (hinv.inOrder h tls hh htls).step (poll_step (hinv.live h hh))
  simp only [Tls.watchTcp]
  split
  · exact hpolled
  · split
    · exact ⟨hpolled.absent, hpolled.live, hpolled.inOrder⟩
    · exact hpolled

/-- What the phases of `pump_tls` leave. -/
theorem Inv.exchange (hinv : Inv net stack) {justDone : Bool}
    (hh : stack.tlsTcpHandle = some h) (htls : stack.tls = some tls)
    (hex : exchange net rustls fuel stack.net h tls = some (justDone, s, tls', bytes)) :
    Inv net { stack with net := s, tls := some tls', encoded := stack.encoded ++ bytes } := by
  obtain ⟨hlive, -, hrun⟩ := exchange_run (hinv.live h hh) hex stack.encoded
  refine ⟨fun hnone => ?_, fun h' hh' => ?_, fun h' tls'' hh' htls'' => ?_⟩
  · rw [hh] at hnone
    cases hnone
  · obtain rfl := Option.some_inj.mp (hh.symm.trans hh')
    exact hlive
  · obtain rfl := Option.some_inj.mp (hh.symm.trans hh')
    obtain rfl := Option.some_inj.mp htls''
    exact (hinv.inOrder h tls hh htls).run hrun

/-- `pump_tls` does nothing, or it goes through its phases. -/
theorem pumpTls_cases (hpump : pumpTls net rustls fuel stack = some (lines, stack')) :
    (lines = [] ∧ stack' = stack) ∨
      ∃ h tls justDone s tls' bytes, stack.tlsTcpHandle = some h ∧ stack.tls = some tls ∧
        tls.handshakeDone = false ∧
        exchange net rustls fuel stack.net h tls = some (justDone, s, tls', bytes) ∧
          (lines, stack') = complete net
            { stack with net := s, tls := some tls', encoded := stack.encoded ++ bytes } h
              justDone := by
  simp only [pumpTls] at hpump
  split at hpump
  · rename_i h tls hh htls
    split_ifs at hpump with hdone hestablished
    · simp only [Option.some_inj, Prod.mk.injEq] at hpump
      exact Or.inl ⟨hpump.1.symm, hpump.2.symm⟩
    · obtain ⟨⟨justDone, s, tls', bytes⟩, hex, heq⟩ := Option.map_eq_some_iff.mp hpump
      exact Or.inr ⟨h, tls, justDone, s, tls', bytes, hh, htls, Bool.eq_false_of_not_eq_true hdone,
        hex, heq.symm⟩
    · simp only [Option.some_inj, Prod.mk.injEq] at hpump
      exact Or.inl ⟨hpump.1.symm, hpump.2.symm⟩
  all_goals
    simp only [Option.some_inj, Prod.mk.injEq] at hpump
    exact Or.inl ⟨hpump.1.symm, hpump.2.symm⟩

theorem Inv.pumpTls (hinv : Inv net stack)
    (hpump : pumpTls net rustls fuel stack = some (lines, stack')) : Inv net stack' := by
  rcases pumpTls_cases hpump with
    ⟨-, rfl⟩ | ⟨h, tls, justDone, s, tls', bytes, hh, htls, -, hex, heq⟩
  · exact hinv
  · have hnext := hinv.exchange hh htls hex
    unfold complete at heq
    split at heq
    · obtain ⟨-, rfl⟩ := Prod.mk.inj heq
      refine ⟨fun _ => rfl, fun h' hh' => ?_, fun h' tls'' hh' => ?_⟩
      · cases hh'
      · cases hh'
    · obtain ⟨-, rfl⟩ := Prod.mk.inj heq
      exact hnext

theorem Inv.startTcpSmoke (hinv : Inv net stack) : Inv net (startTcpSmoke net stack) := by
  unfold Tls.startTcpSmoke
  split
  · exact hinv
  · rename_i handle s hconnect
    have hkeep := (net.connect_spec _ _ _ _ hconnect).2.2.2.2
    have hnext := hinv.keep hkeep
    exact ⟨hnext.absent, hnext.live, hnext.inOrder⟩

theorem Inv.startTlsSmoke (hinv : Inv net stack) (hnone : stack.tlsTcpHandle = none) :
    Inv net (startTlsSmoke net rustls stack) := by
  unfold Tls.startTlsSmoke
  split
  · exact hinv
  · rename_i handle s hconnect
    obtain ⟨-, hlive, hunsent, htransmitted, -⟩ := net.connect_spec _ _ _ _ hconnect
    have hlive' : ∀ h, some handle = some h → net.live s h := by
      intro h hh
      rw [← Option.some_inj.mp hh]
      exact hlive
    split
    · refine ⟨nofun, hlive', fun h tls _ htls => ?_⟩
      have hnil := hinv.absent hnone
      rw [show stack.tls = some tls from htls] at hnil
      cases hnil
    · refine ⟨nofun, hlive', fun h tls hh htls => ?_⟩
      obtain rfl := Option.some_inj.mp hh
      obtain rfl := Option.some_inj.mp htls
      simp only [Conduit.InOrder, conduit, hunsent, htransmitted, List.append_nil]

theorem Inv.startProbes (hinv : Inv net stack) : Inv net (startProbes net rustls stack) := by
  have hprobed : Inv net
      (if stack.tcpHandle.isNone then Tls.startTcpSmoke net stack else stack) := by
    split
    · exact hinv.startTcpSmoke
    · exact hinv
  unfold Tls.startProbes
  generalize (if stack.tcpHandle.isNone then _ else _ : NetStack S H C) = probed at hprobed ⊢
  dsimp only
  split
  · exact hprobed.startTlsSmoke (Option.isNone_iff_eq_none.mp ‹_›)
  · exact hprobed

theorem Inv.applyDhcp (hinv : Inv net stack) : Inv net (applyDhcp net rustls stack) := by
  have hdhcp := net.dhcp_keep stack.net
  unfold Tls.applyDhcp
  split
  · rename_i heq
    rw [heq] at hdhcp
    exact hinv.keep hdhcp
  · rename_i ip router s heq
    rw [heq] at hdhcp
    have hnext := hinv.keep (hdhcp.trans (net.configure_keep s ip router))
    split
    · exact Inv.startProbes ⟨hnext.absent, hnext.live, hnext.inOrder⟩
    · exact hnext
  · rename_i s heq
    rw [heq] at hdhcp
    have hnext := hinv.keep (hdhcp.trans (net.deconfigure_keep s))
    exact ⟨hnext.absent, hnext.live, hnext.inOrder⟩

theorem inv_init (s : S) : Inv net (init s : NetStack S H C) := ⟨fun _ => rfl, nofun, nofun⟩

theorem Inv.round (hinv : Inv net stack) (hround : Round net rustls stack stack') :
    Inv net stack' := by
  obtain ⟨fuel, lines, hround⟩ := hround
  simp only [pollRound, Option.bind_eq_bind, Option.bind_eq_some_iff, Prod.exists,
    Option.pure_def, Option.some_inj, Prod.mk.injEq] at hround
  obtain ⟨lines', stack₁, hpump, -, rfl⟩ := hround
  exact (hinv.watchTcp.pumpTls hpump).applyDhcp

/-- When `ARSENAL_TLS_OK` is printed, the socket is removed and the device has what it had before
the call of `pump_tls`.  So it has all that was encoded just if before the call nothing waited in
the send buffer or in `outgoing`, and rustls encodes nothing more with the records that have
arrived. -/
theorem handshake_transmitted (net : Smoltcp S H) (rustls : Rustls C) (s₀ : S)
    (stack : NetStack S H C) (hrun : ReflTransGen (Round net rustls) (init s₀) stack) (fuel : ℕ)
    (lines : List Sentinel) (stack' : NetStack S H C)
    (hpump : pumpTls net rustls fuel (watchTcp net stack).2 = some (lines, stack'))
    (hprint : .tlsOk ∈ lines) :
    let before := (watchTcp net stack).2
    ∃ h tls s incoming bytes, before.tlsTcpHandle = some h ∧ before.tls = some tls ∧
      receive net h fuel before.net tls.incoming = some (s, incoming) ∧
      rustls.Encodes tls.conn incoming bytes ∧
      ¬net.live stack'.net h ∧ stack'.encoded = before.encoded ++ bytes ∧
      stack'.encoded =
        net.transmitted stack'.net h ++ (net.unsent before.net h ++ (tls.outgoing ++ bytes)) ∧
      (net.transmitted stack'.net h = stack'.encoded ↔
        net.unsent before.net h = [] ∧ tls.outgoing = [] ∧ bytes = []) := by
  intro before
  have hinv := (invariant_of_step (Inv net) (inv_init s₀) (fun _ _ => Inv.round) hrun).watchTcp
  rcases pumpTls_cases hpump with
    ⟨rfl, -⟩ | ⟨h, tls, justDone, s, tls', bytes, hh, htls, hopen, hex, heq⟩
  · cases hprint
  · -- What was encoded is in order, as if it had all been produced before the call.
    have horder : (conduit net before.net h (tls.outgoing ++ bytes)
        (before.encoded ++ bytes)).InOrder :=
      (hinv.inOrder h tls hh htls).step (.produce bytes)
    obtain ⟨-, hkept, -⟩ := exchange_run (hinv.live h hh) hex before.encoded
    unfold complete at heq
    split at heq
    · rename_i hdone
      obtain ⟨-, rfl⟩ := Prod.mk.inj heq
      rw [hdone.1] at hex
      obtain ⟨s₁, incoming, hrecv, hencodes⟩ := exchange_encodes hopen hex
      obtain ⟨hdead, hremoved⟩ := net.remove_spec s h
      refine ⟨h, tls, s₁, incoming, bytes, hh, htls, hrecv, hencodes, hdead, rfl, ?_, ?_⟩
      · rw [hremoved, hkept]
        exact horder.symm
      · rw [hremoved, hkept, ← List.append_eq_nil_iff]
        exact horder.complete_iff
    · obtain ⟨rfl, -⟩ := Prod.mk.inj heq
      cases hprint

end

/-- A stack with one socket, whose connection is up at once and whose buffer is empty after every
`poll`. -/
structure Line where
  lease : Bool
  up : Bool
  unsent : List UInt8
  sent : List UInt8
  deriving DecidableEq

def line : Smoltcp Line Unit where
  live s _ := s.up
  unsent s _ := s.unsent
  transmitted s _ := s.sent
  poll s := { s with unsent := [], sent := s.sent ++ s.unsent }
  established s _ := s.up
  canRecv _ _ := false
  recv s _ := (none, s)
  canSend _ _ := true
  sendSlice s _ data := (some data.length, { s with unsent := s.unsent ++ data })
  connect s port :=
    if s.up ∨ port ≠ tlsSmokePort then none
    else some ((), { s with up := true, unsent := [], sent := [] })
  remove s _ := { s with up := false, unsent := [] }
  dhcpPoll s :=
    (if s.lease then some (.configure 0x0A00020F none) else none, { s with lease := false })
  configure s _ _ := s
  deconfigure s := s
  poll_spec s _ hlive := ⟨hlive, s.unsent.length, by simp⟩
  recv_keep s _ := .refl s
  send_spec s _ data hlive := ⟨hlive, by simp⟩
  connect_spec := by
    intro s port h s' hconnect
    split at hconnect
    · cases hconnect
    · rename_i hclosed
      obtain ⟨-, rfl⟩ := Prod.mk.inj (Option.some_inj.mp hconnect)
      have hdown : ¬s.up = true := fun hup => hclosed (Or.inl hup)
      exact ⟨hdown, rfl, rfl, rfl, fun _ hup => absurd hup hdown⟩
  remove_spec _ _ := ⟨nofun, rfl⟩
  dhcp_keep _ _ hlive := ⟨hlive, rfl, rfl⟩
  configure_keep s _ _ := .refl s
  deconfigure_keep s := .refl s

/-- What a client does in a handshake. -/
inductive Action where
  | say (bytes : List UInt8)
  | transmit
  | wait
  | traffic
  deriving DecidableEq

/-- A client that goes through a list of actions. -/
def scripted (script : List Action) : Rustls (List Action) where
  new := some script
  processTlsRecords conn incoming :=
    match conn with
    | .say _ :: _ => ⟨0, some .encodeTlsData, conn, incoming⟩
    | .transmit :: _ => ⟨0, some .transmitTlsData, conn, incoming⟩
    | .wait :: rest => ⟨0, some .blockedHandshake, rest, incoming⟩
    | .traffic :: _ => ⟨0, some .writeTraffic, conn, incoming⟩
    | [] => ⟨0, some .closed, conn, incoming⟩
  encode conn size :=
    match conn with
    | .say bytes :: rest =>
      if bytes.length ≤ size then (.ok bytes, rest) else (.insufficientSize bytes.length, conn)
    | _ => (.error, conn)
  done := List.tail

/-- The stack between two rounds of a handshake. -/
def during (unsent sent encoded : List UInt8) (script : List Action) :
    NetStack Line Unit (List Action) :=
  ⟨⟨false, true, unsent, sent⟩, true, none, false, some (), some ⟨script, [], [], false⟩, false,
    encoded⟩

/-- The first lease starts the probes. -/
theorem started_round (script : List Action) :
    Round line (scripted script) (init ⟨true, false, [], []⟩) (during [] [] [] script) :=
  ⟨0, [], rfl⟩

/-- The stack after the last round of a handshake. -/
def ended (sent encoded : List UInt8) : NetStack Line Unit (List Action) :=
  ⟨⟨false, false, [], sent⟩, true, none, false, none, none, true, encoded⟩

/-- The server has the last word, as in TLS 1.2. -/
def serverLast : List Action :=
  [.say [1, 2], .transmit, .wait, .say [3], .transmit, .wait, .traffic]

theorem handshake_transmitted_serverLast :
    ∃ stack stack',
      ReflTransGen (Round line (scripted serverLast)) (init ⟨true, false, [], []⟩) stack ∧
        pumpTls line (scripted serverLast) 8 (watchTcp line stack).2 = some ([.tlsOk], stack') ∧
          stack'.encoded = [1, 2, 3] ∧ line.transmitted stack'.net () = stack'.encoded := by
  have h₁ : Round line (scripted serverLast) (during [] [] [] serverLast)
      (during [1, 2] [] [1, 2] [.say [3], .transmit, .wait, .traffic]) :=
    ⟨8, [], by decide +kernel⟩
  have h₂ : Round line (scripted serverLast)
      (during [1, 2] [] [1, 2] [.say [3], .transmit, .wait, .traffic])
      (during [3] [1, 2] [1, 2, 3] [.traffic]) :=
    ⟨8, [], by decide +kernel⟩
  have hrun := ((ReflTransGen.single (started_round serverLast)).tail h₁).tail h₂
  have hpump : pumpTls line (scripted serverLast) 8
      (watchTcp line (during [3] [1, 2] [1, 2, 3] [.traffic])).2 =
        some ([.tlsOk], ended [1, 2, 3] [1, 2, 3]) := by
    decide +kernel
  obtain ⟨_, _, _, _, bytes, -, htls, -, -, -, hencoded, -, hiff⟩ :=
    handshake_transmitted line _ _ _ hrun 8 _ _ hpump List.mem_cons_self
  obtain rfl := Option.some_inj.mp htls
  have hnone : bytes = [] := by
    simpa [during, watchTcp, ended] using hencoded
  exact ⟨_, _, hrun, hpump, rfl, hiff.mpr ⟨rfl, rfl, hnone⟩⟩

/-- The client has the last word, as in TLS 1.3. -/
def clientLast : List Action :=
  [.say [1, 2], .transmit, .wait, .say [3], .transmit, .traffic]

/-- `ARSENAL_TLS_OK` is printed with the last record of the client in the send buffer, and the
socket is removed. -/
theorem handshake_not_transmitted :
    ∃ stack stack',
      ReflTransGen (Round line (scripted clientLast)) (init ⟨true, false, [], []⟩) stack ∧
        pumpTls line (scripted clientLast) 8 (watchTcp line stack).2 = some ([.tlsOk], stack') ∧
          stack'.encoded = [1, 2, 3] ∧ line.transmitted stack'.net () = [1, 2] := by
  have h₁ : Round line (scripted clientLast) (during [] [] [] clientLast)
      (during [1, 2] [] [1, 2] [.say [3], .transmit, .traffic]) :=
    ⟨8, [], by decide +kernel⟩
  have hrun := (ReflTransGen.single (started_round clientLast)).tail h₁
  have hpump : pumpTls line (scripted clientLast) 8
      (watchTcp line (during [1, 2] [] [1, 2] [.say [3], .transmit, .traffic])).2 =
        some ([.tlsOk], ended [1, 2] [1, 2, 3]) := by
    decide +kernel
  exact ⟨_, _, hrun, hpump, rfl, rfl⟩

end Arsenal.Net.Tls
