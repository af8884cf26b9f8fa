import WebTos.Lib.Wire
import WebTos.Net.Record

/-!
The command stream between the guest's network broker and the page (`net.rs`, `HostBroker`,
and `worker.js`, `performNetwork`).

The broker performs nothing itself.  It keeps every operation of the guest as a command and
hands the commands over as bytes; the worker of the page decodes them in a loop and carries
each one out.

* `HostBroker`, `hostBroker`: the broker, and its calls as a `NetworkBroker`;
* `NetCommand.encode`, `HostBroker.takeCommands`: the bytes of the commands;
* `nextCommand`, `performNetwork`: one turn of the worker's loop, and the loop, for any way
  to carry a command out;
* `nextCommand_encode`: a command is decoded at the position it was written at, whatever
  stands before and after it;
* `performNetwork_encode`: the loop on the bytes of a command list carries out the list;
* `noting`: the loop with a note of the commands it decodes.
-/

namespace WebTos.Net

open Lib List

universe u

/-! ### The broker -/

/-- `NetCommand`: one operation for the host to carry out. -/
inductive NetCommand where
  | tcpConnect (handle : Handle) (addr : SocketAddrV4)
  | tcpSend (handle : Handle) (bytes : Bytes)
  | tcpShutdownWrite (handle : Handle)
  | udpOpen (handle : Handle)
  | udpSendTo (handle : Handle) (addr : SocketAddrV4) (bytes : Bytes)
  | close (handle : Handle)
  deriving DecidableEq, Repr

namespace NetCommand

/-- The endpoint the command is for. -/
def handle : NetCommand → Handle
  | .tcpConnect handle _ => handle
  | .tcpSend handle _ => handle
  | .tcpShutdownWrite handle => handle
  | .udpOpen handle => handle
  | .udpSendTo handle _ _ => handle
  | .close handle => handle

/-- The bytes the command carries. -/
def payload : NetCommand → Bytes
  | .tcpSend _ bytes => bytes
  | .udpSendTo _ _ bytes => bytes
  | _ => []

/-- The handle and the length of the payload fit the fields the stream has for them. -/
structure Fits (c : NetCommand) : Prop where
  handle : c.handle.toNat < 2 ^ 32
  payload : c.payload.length < 2 ^ 32

end NetCommand

open NetCommand

/-- `Endpoint`: what the host delivered for one handle and the guest has not read. -/
structure Endpoint where
  rx : Bytes := []
  datagrams : List (Bytes × SocketAddrV4) := []
  closed : Bool := false
  error : Option UInt64 := none
  localAddr : Option SocketAddrV4 := none

/-- `HostBroker`. -/
structure HostBroker where
  endpoints : Handle → Option Endpoint := fun _ => none
  commands : List NetCommand := []
  nextHandle : Handle := 1

/-- The errno of an operation on a handle that is not open. -/
def EBADF : UInt64 := 9

namespace HostBroker

/-- Records a command for the host. -/
def push (b : HostBroker) (c : NetCommand) : HostBroker := { b with commands := b.commands ++ [c] }

/-- Keeps an endpoint under a handle. -/
def setEndpoint (b : HostBroker) (handle : Handle) (endpoint : Endpoint) : HostBroker :=
  { b with endpoints := Function.update b.endpoints handle (some endpoint) }

/-- `endpoint`: the endpoint of a handle, a new one if there is none. -/
def endpoint (b : HostBroker) (handle : Handle) : Endpoint := (b.endpoints handle).getD {}

/-- `saturating_add(1)` of a handle. -/
def succHandle (handle : Handle) : Handle :=
  if handle.toNat + 1 < 2 ^ 64 then handle + 1 else handle

/-- A new endpoint under the next handle. -/
def allocate (b : HostBroker) : Handle × HostBroker :=
  (b.nextHandle, ({ b with nextHandle := succHandle b.nextHandle }).setEndpoint b.nextHandle {})

/-- `tcp_connect`: the handle is given out at once. -/
def tcpConnect (b : HostBroker) (addr : SocketAddrV4) : Except UInt64 Handle × HostBroker :=
  let (handle, b) := b.allocate
  (.ok handle, b.push (.tcpConnect handle addr))

/-- A send on a handle: the endpoint must be there and without an error. -/
def sendCommand (b : HostBroker) (handle : Handle) (c : NetCommand) (len : ℕ) :
    Except UInt64 ℕ × HostBroker :=
  match b.endpoints handle with
  | none => (.error EBADF, b)
  | some endpoint =>
    match endpoint.error with
    | some errno => (.error errno, b)
    | none => (.ok len, b.push c)

/-- `tcp_send`. -/
def tcpSend (b : HostBroker) (handle : Handle) (bytes : Bytes) : Except UInt64 ℕ × HostBroker :=
  b.sendCommand handle (.tcpSend handle bytes) bytes.length

/-- `tcp_recv`: buffered bytes first, then the error, then the end of the stream. -/
def tcpRecv (b : HostBroker) (handle : Handle) (max : ℕ) :
    Except UInt64 RecvOutcome × HostBroker :=
  match b.endpoints handle with
  | none => (.error EBADF, b)
  | some endpoint =>
    if endpoint.rx ≠ [] then
      let take := min (min max endpoint.rx.length) 0x100000
      (.ok (.data (endpoint.rx.take take)),
        b.setEndpoint handle { endpoint with rx := endpoint.rx.drop take })
    else
      match endpoint.error with
      | some errno => (.error errno, b)
      | none => (.ok (if endpoint.closed then .closed else .wouldBlock), b)

/-- `tcp_shutdown_write`. -/
def tcpShutdownWrite (b : HostBroker) (handle : Handle) : Except UInt64 Unit × HostBroker :=
  if (b.endpoints handle).isSome then (.ok (), b.push (.tcpShutdownWrite handle))
  else (.error EBADF, b)

/-- `udp_open`. -/
def udpOpen (b : HostBroker) : Except UInt64 Handle × HostBroker :=
  let (handle, b) := b.allocate
  (.ok handle, b.push (.udpOpen handle))

/-- `udp_send_to`. -/
def udpSendTo (b : HostBroker) (handle : Handle) (addr : SocketAddrV4) (bytes : Bytes) :
    Except UInt64 ℕ × HostBroker :=
  b.sendCommand handle (.udpSendTo handle addr bytes) bytes.length

/-- `udp_recv_from`: one datagram, cut to the room the guest gave. -/
def udpRecvFrom (b : HostBroker) (handle : Handle) (max : ℕ) :
    Except UInt64 (Option (Bytes × SocketAddrV4)) × HostBroker :=
  match b.endpoints handle with
  | none => (.error EBADF, b)
  | some endpoint =>
    match endpoint.datagrams with
    | (bytes, sender) :: rest =>
      (.ok (some (bytes.take (min max 0x10000), sender)),
        b.setEndpoint handle { endpoint with datagrams := rest })
    | [] =>
      match endpoint.error with
      | some errno => (.error errno, b)
      | none => (.ok none, b)

/-- `close`: only an open endpoint leaves a command. -/
def close (b : HostBroker) (handle : Handle) : HostBroker :=
  if (b.endpoints handle).isSome then
    ({ b with endpoints := Function.update b.endpoints handle none }).push (.close handle)
  else b

/-- `deliver_connected`. -/
def deliverConnected (b : HostBroker) (handle : Handle) (localAddr : Option SocketAddrV4) :
    HostBroker :=
  b.setEndpoint handle { b.endpoint handle with localAddr }

/-- `deliver_data`. -/
def deliverData (b : HostBroker) (handle : Handle) (bytes : Bytes) : HostBroker :=
  b.setEndpoint handle { b.endpoint handle with rx := (b.endpoint handle).rx ++ bytes }

/-- `deliver_datagram`. -/
def deliverDatagram (b : HostBroker) (handle : Handle) (sender : SocketAddrV4) (bytes : Bytes) :
    HostBroker :=
  b.setEndpoint handle
    { b.endpoint handle with datagrams := (b.endpoint handle).datagrams ++ [(bytes, sender)] }

/-- `deliver_closed`. -/
def deliverClosed (b : HostBroker) (handle : Handle) : HostBroker :=
  b.setEndpoint handle { b.endpoint handle with closed := true }

/-- `deliver_error`: the first error stays. -/
def deliverError (b : HostBroker) (handle : Handle) (errno : UInt64) : HostBroker :=
  b.setEndpoint handle { b.endpoint handle with error := (b.endpoint handle).error.or (some errno) }

end HostBroker

open HostBroker

/-- The calls a guest makes on a `HostBroker`. -/
def hostBroker : NetworkBroker HostBroker where
  tcpConnect := tcpConnect
  tcpSend := tcpSend
  tcpRecv := tcpRecv
  tcpShutdownWrite := tcpShutdownWrite
  udpOpen := udpOpen
  udpSendTo := udpSendTo
  udpRecvFrom := udpRecvFrom
  close := close

/-! ### The bytes of the commands -/

/-- `push_addr`: the octets of the address and the port, both highest byte first. -/
def encodeAddr (addr : SocketAddrV4) : Bytes :=
  beBytes 4 addr.ip.toNat ++ beBytes 2 addr.port.toNat

/-- `handle as u32` in little-endian bytes. -/
def encodeHandle (handle : Handle) : Bytes := leBytes 4 handle.toNat

/-- The length of a payload in four little-endian bytes, and the payload. -/
def encodePayload (bytes : Bytes) : Bytes := leBytes 4 bytes.length ++ bytes

/-- The bytes of one command: its opcode, its handle, and the fields of the operation. -/
def NetCommand.encode : NetCommand → Bytes
  | .tcpConnect handle addr => 1 :: encodeHandle handle ++ encodeAddr addr
  | .tcpSend handle bytes => 2 :: encodeHandle handle ++ encodePayload bytes
  | .tcpShutdownWrite handle => 3 :: encodeHandle handle
  | .udpOpen handle => 4 :: encodeHandle handle
  | .udpSendTo handle addr bytes =>
    5 :: encodeHandle handle ++ encodeAddr addr ++ encodePayload bytes
  | .close handle => 6 :: encodeHandle handle

/-- `take_commands`: the bytes of all the commands, which the broker then forgets. -/
def HostBroker.takeCommands (b : HostBroker) : Bytes × HostBroker :=
  (b.commands.flatMap encode, { b with commands := [] })

/-! ### The worker's loop -/

/-- What can stop the loop: a read past the end of the view, an opcode it does not know, a
`send` on a WebSocket that is still connecting. -/
inductive JsError where
  | rangeError
  | unknownOpcode (op : UInt8)
  | invalidState
  deriving DecidableEq, Repr

/-- One decoded command, with the address as the dotted text the worker makes of it. -/
inductive HostCommand where
  | tcpConnect (handle : ℕ) (ip : List Char) (port : ℕ)
  | tcpSend (handle : ℕ) (bytes : Bytes)
  | tcpShutdown (handle : ℕ)
  | udpOpen (handle : ℕ)
  | udpSendTo (handle : ℕ) (ip : List Char) (port : ℕ) (bytes : Bytes)
  | close (handle : ℕ)
  deriving DecidableEq, Repr

/-- The dotted text of the octets of an address. -/
def dotted (octets : Bytes) : List Char :=
  List.intercalate ['.'] (octets.map fun o => Nat.toDigits 10 o.toNat)

/-- `view.getUint32(i, true)`. -/
def u32 (stream : Bytes) (i : ℕ) : Except JsError ℕ :=
  if i + 4 ≤ stream.length then .ok (leValue ((stream.drop i).take 4)) else .error .rangeError

/-- `dest`: four octets and a port.  The read of the port throws when one of the six bytes
is missing. -/
def dest (stream : Bytes) (i : ℕ) : Except JsError (List Char × ℕ) :=
  if i + 6 ≤ stream.length then
    .ok (dotted ((stream.drop i).take 4), beValue ((stream.drop (i + 4)).take 2))
  else .error .rangeError

/-- `payload`: a length and that many bytes, fewer if the stream ends before; the position
moves by the length in any case. -/
def payload (stream : Bytes) (i : ℕ) : Except JsError (Bytes × ℕ) := do
  let len ← u32 stream i
  return ((stream.drop (i + 4)).take len, i + 4 + len)

/-- The `switch` over the opcode, with the position at the fields of the operation: the
command and the position after it. -/
def operation (stream : Bytes) (i : ℕ) (op : UInt8) (handle : ℕ) :
    Except JsError (HostCommand × ℕ) :=
  match op.toNat with
  | 1 => do
      let (ip, port) ← dest stream i
      return (.tcpConnect handle ip port, i + 6)
  | 2 => do
      let (bytes, j) ← payload stream i
      return (.tcpSend handle bytes, j)
  | 3 => return (.tcpShutdown handle, i)
  | 4 => return (.udpOpen handle, i)
  | 5 => do
      let (ip, port) ← dest stream i
      let (bytes, j) ← payload stream (i + 6)
      return (.udpSendTo handle ip port bytes, j)
  | 6 => return (.close handle, i)
  | _ => .error (.unknownOpcode op)

/-- One turn of the loop at a position before the end: the command there and the position
after it. -/
def nextCommand (stream : Bytes) (i : ℕ) : Except JsError (HostCommand × ℕ) := do
  let handle ← u32 stream (i + 1)
  operation stream (i + 5) (stream.getD i 0) handle

section Loop

variable {σ : Type u} (carry : σ → HostCommand → Option JsError × σ)

/-- The loop from a position on, for any way to carry a command out; it stops at the end of
the stream or at the first throw.  Every turn moves the position, so that the length of the
stream bounds the turns. -/
def performLoop (stream : Bytes) : ℕ → ℕ → σ → Option JsError × ℕ × σ
  | 0, i, s => (none, i, s)
  | turns + 1, i, s =>
    if i < stream.length then
      match nextCommand stream i with
      | .error e => (some e, i, s)
      | .ok (c, j) =>
        match carry s c with
        | (some e, s') => (some e, j, s')
        | (none, s') => performLoop stream turns j s'
    else (none, i, s)

/-- `performNetwork`: the error that stopped the loop, the last position, and the state the
commands left. -/
def performNetwork (stream : Bytes) (s : σ) : Option JsError × ℕ × σ :=
  performLoop carry stream stream.length 0 s

/-- Carries out a list of commands up to the first throw. -/
def carryAll : List HostCommand → σ → Option JsError × σ
  | [], s => (none, s)
  | c :: cs, s =>
    match carry s c with
    | (some e, s') => (some e, s')
    | (none, s') => carryAll cs s'

/-- A way to carry commands out, with a note of every command that is decoded. -/
def noting (s : List HostCommand × σ) (c : HostCommand) :
    Option JsError × List HostCommand × σ :=
  ((carry s.2 c).1, s.1 ++ [c], (carry s.2 c).2)

end Loop

/-! ### Reading a decoded command back -/

/-- The digit a character stands for. -/
def digit (c : Char) : Option ℕ := if c.isDigit then some (c.toNat - '0'.toNat) else none

/-- `Number(text)` of a decimal numeral; any other text is not a number. -/
def number (text : List Char) : Option ℕ :=
  (text.mapM digit).map fun ds => ds.foldl (fun n d => 10 * n + d) 0

/-- The octets a dotted text names: four numbers below 256. -/
def octetsOf (ip : List Char) : Option Bytes :=
  match (ip.splitOn '.').mapM number with
  | some [a, b, c, d] =>
    if a < 256 ∧ b < 256 ∧ c < 256 ∧ d < 256 then
      some [UInt8.ofNat a, UInt8.ofNat b, UInt8.ofNat c, UInt8.ofNat d]
    else none
  | _ => none

/-- The socket address of a dotted text and a port. -/
def addrOf (ip : List Char) (port : ℕ) : Option SocketAddrV4 :=
  (octetsOf ip).map fun octets => ⟨UInt32.ofNat (beValue octets), UInt16.ofNat port⟩

/-- The command a decoded command says: the same operation, handle, address, port and
payload. -/
def HostCommand.command : HostCommand → Option NetCommand
  | .tcpConnect handle ip port => (addrOf ip port).map (.tcpConnect (UInt64.ofNat handle))
  | .tcpSend handle bytes => some (.tcpSend (UInt64.ofNat handle) bytes)
  | .tcpShutdown handle => some (.tcpShutdownWrite (UInt64.ofNat handle))
  | .udpOpen handle => some (.udpOpen (UInt64.ofNat handle))
  | .udpSendTo handle ip port bytes =>
    (addrOf ip port).map fun addr => .udpSendTo (UInt64.ofNat handle) addr bytes
  | .close handle => some (.close (UInt64.ofNat handle))

/-- The command as the worker decodes it. -/
def NetCommand.host : NetCommand → HostCommand
  | .tcpConnect handle addr =>
    .tcpConnect handle.toNat (dotted (beBytes 4 addr.ip.toNat)) addr.port.toNat
  | .tcpSend handle bytes => .tcpSend handle.toNat bytes
  | .tcpShutdownWrite handle => .tcpShutdown handle.toNat
  | .udpOpen handle => .udpOpen handle.toNat
  | .udpSendTo handle addr bytes =>
    .udpSendTo handle.toNat (dotted (beBytes 4 addr.ip.toNat)) addr.port.toNat bytes
  | .close handle => .close handle.toNat

/-- The numeral of an octet has no dot in it and is read back. -/
lemma number_octet (o : UInt8) :
    '.' ∉ Nat.toDigits 10 o.toNat ∧ number (Nat.toDigits 10 o.toNat) = some o.toNat := by
  have hall : ∀ n : Fin 256, '.' ∉ Nat.toDigits 10 n.val ∧
      number (Nat.toDigits 10 n.val) = some n.val := by decide +kernel
  exact hall ⟨o.toNat, o.toNat_lt⟩

/-- The parts of a dotted text are the numerals of its octets. -/
lemma splitOn_dotted {octets : Bytes} (hne : octets ≠ []) :
    (dotted octets).splitOn '.' = octets.map fun o => Nat.toDigits 10 o.toNat := by
  refine splitOn_intercalate _ (fun text htext => ?_) (by simpa using hne)
  obtain ⟨o, -, rfl⟩ := List.mem_map.mp htext
  exact (number_octet o).1

lemma octetsOf_dotted (a b c d : UInt8) : octetsOf (dotted [a, b, c, d]) = some [a, b, c, d] := by
  have hnumbers : ([a, b, c, d].map fun o => Nat.toDigits 10 o.toNat).mapM number
      = some [a.toNat, b.toNat, c.toNat, d.toNat] := by
    simp [(number_octet a).2, (number_octet b).2, (number_octet c).2, (number_octet d).2]
  rw [octetsOf, splitOn_dotted (by simp), hnumbers]
  simp [a.toNat_lt, b.toNat_lt, c.toNat_lt, d.toNat_lt]

lemma addrOf_dotted (addr : SocketAddrV4) :
    addrOf (dotted (beBytes 4 addr.ip.toNat)) addr.port.toNat = some addr := by
  obtain ⟨a, b, c, d, hoctets⟩ : ∃ a b c d, beBytes 4 addr.ip.toNat = [a, b, c, d] :=
    ⟨_, _, _, _, rfl⟩
  have hip : beValue (beBytes 4 addr.ip.toNat) = addr.ip.toNat :=
    beValue_beBytes addr.ip.toNat_lt
  rw [addrOf, hoctets, octetsOf_dotted, Option.map_some, ← hoctets, hip]
  simp

/-- What the worker decodes says what the broker recorded. -/
lemma command_host (c : NetCommand) : c.host.command = some c := by
  cases c <;> simp [host, HostCommand.command, addrOf_dotted]

/-! ### Decoding what was written -/

section Positions

variable {stream : Bytes} (before after : Bytes)

/-- A field read at its position. -/
lemma take_at {field : Bytes} (h : stream = before ++ (field ++ after)) :
    (stream.drop before.length).take field.length = field := by
  rw [h, drop_left, take_left]

lemma u32_at (n : ℕ) (hn : n < 2 ^ 32) (h : stream = before ++ (leBytes 4 n ++ after)) :
    u32 stream before.length = .ok n := by
  have hlen : before.length + 4 ≤ stream.length := by simp [h]
  have hread := take_at before after h
  rw [length_leBytes] at hread
  rw [u32, if_pos hlen, hread, leValue_leBytes (by simpa using hn)]

lemma dest_at (addr : SocketAddrV4) (h : stream = before ++ (encodeAddr addr ++ after)) :
    dest stream before.length
      = .ok (dotted (beBytes 4 addr.ip.toNat), addr.port.toNat) := by
  have hlen : before.length + 6 ≤ stream.length := by
    simp only [h, encodeAddr, length_append, length_beBytes]
    omega
  have hoctets : (stream.drop before.length).take (beBytes 4 addr.ip.toNat).length
      = beBytes 4 addr.ip.toNat :=
    take_at before (beBytes 2 addr.port.toNat ++ after) (by simp [h, encodeAddr])
  have hport : (stream.drop (before ++ beBytes 4 addr.ip.toNat).length).take
      (beBytes 2 addr.port.toNat).length = beBytes 2 addr.port.toNat :=
    take_at _ after (by simp [h, encodeAddr])
  rw [length_beBytes] at hoctets
  rw [length_append, length_beBytes, length_beBytes] at hport
  rw [dest, if_pos hlen, hoctets, hport, beValue_beBytes addr.port.toNat_lt]

lemma payload_at (bytes : Bytes) (hbytes : bytes.length < 2 ^ 32)
    (h : stream = before ++ (encodePayload bytes ++ after)) :
    payload stream before.length = .ok (bytes, before.length + (encodePayload bytes).length) := by
  have hlen := u32_at before (bytes ++ after) bytes.length hbytes
    (h.trans (by simp [encodePayload]))
  have hread : (stream.drop (before ++ leBytes 4 bytes.length).length).take bytes.length = bytes :=
    take_at _ after (by simp [h, encodePayload])
  rw [length_append, length_leBytes] at hread
  have hend : before.length + (encodePayload bytes).length = before.length + 4 + bytes.length := by
    rw [encodePayload, length_append, length_leBytes, Nat.add_assoc]
  rw [payload, hlen, hend]
  exact congrArg (fun b => Except.ok (b, before.length + 4 + bytes.length)) hread

lemma nextCommand_at (op : UInt8) (handle : Handle) (hhandle : handle.toNat < 2 ^ 32)
    (h : stream = before ++ (op :: encodeHandle handle ++ after)) :
    nextCommand stream before.length
      = operation stream (before ++ op :: encodeHandle handle).length op handle.toNat := by
  have hop : stream.getD before.length 0 = op := by simp [h]
  have hread := u32_at (before ++ [op]) after handle.toNat hhandle
    (h.trans (by simp [encodeHandle]))
  rw [length_append, length_singleton] at hread
  have hfields : before.length + 5 = (before ++ op :: encodeHandle handle).length := by
    rw [length_append, length_cons, encodeHandle, length_leBytes]
  rw [nextCommand, hop, hread, hfields]
  rfl

end Positions

lemma length_encodeAddr (addr : SocketAddrV4) : (encodeAddr addr).length = 6 := by
  rw [encodeAddr, length_append, length_beBytes, length_beBytes]

/-- **A command is decoded where it was written**, whatever stands before and after it, and
the position after it is where its bytes end. -/
lemma nextCommand_encode {stream : Bytes} (before after : Bytes) {c : NetCommand} (hc : c.Fits)
    (h : stream = before ++ (c.encode ++ after)) :
    nextCommand stream before.length = .ok (c.host, (before ++ c.encode).length) := by
  obtain ⟨hhandle, hpayload⟩ := hc
  cases c with
  | tcpConnect handle addr =>
    -- the fields are read one after the other, each where the one before it ends
    have hdest := dest_at (before ++ 1 :: encodeHandle handle) after addr
      (h.trans (by simp [encode]))
    have hend : (before ++ (tcpConnect handle addr).encode).length
        = (before ++ 1 :: encodeHandle handle).length + 6 := by
      rw [encode, ← append_assoc, length_append, length_encodeAddr]
    rw [nextCommand_at before (encodeAddr addr ++ after) 1 handle hhandle
      (h.trans (by simp [encode])), hend, operation, hdest]
    rfl
  | tcpSend handle bytes =>
    have hbytes := payload_at (before ++ 2 :: encodeHandle handle) after bytes hpayload
      (h.trans (by simp [encode]))
    have hend : (before ++ (tcpSend handle bytes).encode).length
        = (before ++ 2 :: encodeHandle handle).length + (encodePayload bytes).length := by
      rw [encode, ← append_assoc, length_append]
    rw [nextCommand_at before (encodePayload bytes ++ after) 2 handle hhandle
      (h.trans (by simp [encode])), hend]
    exact congrArg (fun r => r >>= fun p => pure (HostCommand.tcpSend handle.toNat p.1, p.2))
      hbytes
  | tcpShutdownWrite handle =>
    rw [nextCommand_at before after 3 handle hhandle h]
    rfl
  | udpOpen handle =>
    rw [nextCommand_at before after 4 handle hhandle h]
    rfl
  | udpSendTo handle addr bytes =>
    have hdest := dest_at (before ++ 5 :: encodeHandle handle) (encodePayload bytes ++ after) addr
      (h.trans (by simp [encode]))
    have hbytes := payload_at (before ++ 5 :: encodeHandle handle ++ encodeAddr addr) after bytes
      hpayload (h.trans (by simp [encode]))
    have hend : (before ++ (udpSendTo handle addr bytes).encode).length
        = (before ++ 5 :: encodeHandle handle).length + 6 + (encodePayload bytes).length := by
      rw [encode, ← append_assoc, length_append, ← append_assoc,
        length_append, length_encodeAddr]
    rw [nextCommand_at before (encodeAddr addr ++ encodePayload bytes ++ after) 5 handle hhandle
      (h.trans (by simp [encode])), hend, operation, hdest]
    rw [length_append, length_encodeAddr] at hbytes
    exact congrArg (fun r => r >>= fun p => pure (HostCommand.udpSendTo handle.toNat
      (dotted (beBytes 4 addr.ip.toNat)) addr.port.toNat p.1, p.2)) hbytes
  | close handle =>
    rw [nextCommand_at before after 6 handle hhandle h]
    rfl

section Loop

variable {σ : Type u} (carry : σ → HostCommand → Option JsError × σ)

/-- The loop at the position of a list of commands carries them out; without a throw it ends
after the last of them. -/
lemma performLoop_encode {stream : Bytes} (cs : List NetCommand) :
    ∀ (before : Bytes) (turns : ℕ) (s : σ), (∀ c ∈ cs, c.Fits) →
      stream = before ++ cs.flatMap encode →
      (cs.flatMap encode).length ≤ turns →
      (performLoop carry stream turns before.length s).1
          = (carryAll carry (cs.map host) s).1 ∧
      (performLoop carry stream turns before.length s).2.2
          = (carryAll carry (cs.map host) s).2 ∧
      ((carryAll carry (cs.map host) s).1 = none →
        (performLoop carry stream turns before.length s).2.1 = stream.length) := by
  induction cs with
  | nil =>
    intro before turns s _ h _
    have hend : before.length = stream.length := by simp [h]
    cases turns with
    | zero => exact ⟨rfl, rfl, fun _ => hend⟩
    | succ turns =>
      rw [performLoop, if_neg (by omega)]
      exact ⟨rfl, rfl, fun _ => hend⟩
  | cons c cs ih =>
    intro before turns s hfits h hturns
    have hpos : 0 < c.encode.length := by cases c <;> simp [encode]
    rw [flatMap_cons] at h hturns
    rw [length_append] at hturns
    -- every command has a byte at least, so there is a turn for it
    obtain ⟨turns, rfl⟩ : ∃ t, turns = t + 1 := ⟨turns - 1, by omega⟩
    have hlt : before.length < stream.length := by
      rw [h, length_append, length_append]
      omega
    have hnext := nextCommand_encode before _ (hfits c mem_cons_self) h
    rw [performLoop, if_pos hlt, hnext, map_cons, carryAll]
    dsimp only
    rcases carry s c.host with ⟨_ | e, s'⟩
    · exact ih (before ++ c.encode) turns s' (fun d hd => hfits d (mem_cons_of_mem _ hd))
        (by rw [h, append_assoc]) (by omega)
    · exact ⟨rfl, rfl, fun hnone => by cases hnone⟩

/-- **The loop on the bytes of a command list carries out the list.** -/
theorem performNetwork_encode {cs : List NetCommand} (hfits : ∀ c ∈ cs, c.Fits) (s : σ) :
    (performNetwork carry (cs.flatMap encode) s).1
        = (carryAll carry (cs.map host) s).1 ∧
      (performNetwork carry (cs.flatMap encode) s).2.2
        = (carryAll carry (cs.map host) s).2 ∧
      ((carryAll carry (cs.map host) s).1 = none →
        (performNetwork carry (cs.flatMap encode) s).2.1
          = (cs.flatMap encode).length) :=
  performLoop_encode carry cs [] _ s hfits rfl le_rfl

/-- Notes leave the loop as it is. -/
lemma performLoop_noting (stream : Bytes) (turns : ℕ) :
    ∀ (i : ℕ) (noted : List HostCommand) (s : σ),
      performLoop carry stream turns i s =
        ((performLoop (noting carry) stream turns i (noted, s)).1,
          (performLoop (noting carry) stream turns i (noted, s)).2.1,
          (performLoop (noting carry) stream turns i (noted, s)).2.2.2) := by
  induction turns with
  | zero => exact fun _ _ _ => rfl
  | succ turns ih =>
    intro i noted s
    rw [performLoop, performLoop]
    split_ifs
    · rcases nextCommand stream i with e | ⟨c, j⟩
      · rfl
      dsimp only [noting]
      rcases carry s c with ⟨_ | e, s'⟩
      · exact ih j _ s'
      · rfl
    · rfl

/-- Without a throw all the commands are noted. -/
lemma carryAll_noting (cs : List HostCommand) :
    ∀ (noted : List HostCommand) (s : σ),
      (carryAll (noting carry) cs (noted, s)).1 = (carryAll carry cs s).1 ∧
        ((carryAll carry cs s).1 = none →
          (carryAll (noting carry) cs (noted, s)).2.1 = noted ++ cs) := by
  induction cs with
  | nil => exact fun noted _ => ⟨rfl, fun _ => (append_nil noted).symm⟩
  | cons c cs ih =>
    intro noted s
    rw [carryAll, carryAll]
    dsimp only [noting]
    rcases carry s c with ⟨_ | e, s'⟩
    · have hrest := ih (noted ++ [c]) s'
      rw [append_assoc, singleton_append] at hrest
      exact hrest
    · exact ⟨rfl, fun h => by cases h⟩

end Loop

end WebTos.Net
