import WebTos.Net.Commands

/-!
A TCP stream of the guest on its way to the upstream socket: the broker (`net.rs`), the
worker of the page (`worker.js`, `openTcp`, `sendOn`, `performNetwork`) and the gateway
(`webtos_gateway.mjs`, `relayTcp`).

Every endpoint of the guest has a WebSocket of its own, here a `Link`: the worker's entry, the
messages on the way, and the gateway's side.  The events are the guest's socket calls, the
worker's turns, and everything the two ends of a WebSocket, the rule check and the upstream
socket can report, in any order.  A WebSocket delivers messages in order; a message that
arrives while no listener is attached is dropped.

* `Link`, `World`, `Event`, `World.step`: the parties and the events;
* `World.Orderly`: the condition under which a stream keeps its bytes;
* `Link.delivered`, `Link.Sound`, `Link.Current`: the bytes a link stands for, and when
  they are all the guest's bytes but those in the broker;
* `Link.Follows`, `Link.arrive_follows`, `Link.onopen_follows`: what the events of one link
  keep;
* `Link.sendOn_sound`: what a payload of the worker does to a link.
-/

namespace WebTos.Net

open Lib List Function

/-! ### The parties -/

/-- A message from the page to the gateway. -/
inductive Message where
  | binary (bytes : Bytes)
  | shutdown
  deriving DecidableEq, Repr

/-- The payload bytes of a message. -/
def Message.bytes : Message → Bytes
  | .binary bytes => bytes
  | .shutdown => []

/-- A message from the gateway to the page. -/
inductive Reply where
  | opened
  | eof
  | data (bytes : Bytes)
  deriving DecidableEq, Repr

/-- `readyState` of the page's WebSocket. -/
inductive ReadyState where
  | connecting
  | opened
  | closing
  | closed
  deriving DecidableEq, Repr

/-- The upstream socket of a relay: what was written to it, and whether `end` or `destroy` was
called on it. -/
structure Upstream where
  written : Bytes := []
  ended : Bool := false
  destroyed : Bool := false
  deriving DecidableEq, Repr

/-- Where the gateway is with a WebSocket: before the upgrade, waiting for the rule check, with
the listeners of `relayTcp` attached, with none attached for good, or relaying datagrams. -/
inductive Relay where
  | upgrading
  | checking
  | relaying (up : Upstream)
  | unattended
  | datagrams
  deriving DecidableEq, Repr

/-- One WebSocket with the worker's entry for it (`queue`, `open`, `eof`), the messages on the
way in both directions, and the gateway's side.  A `target` makes it a `/tcp` socket. -/
structure Link where
  handle : ℕ
  target : Option (List Char × ℕ)
  queue : List Bytes := []
  opened : Bool := false
  eof : Bool := false
  ready : ReadyState := .connecting
  wire : List Message := []
  relay : Relay := .upgrading
  upgraded : Bool := false
  gatewayOpen : Bool := false
  back : List Reply := []
  deriving DecidableEq, Repr

/-- The guest's sockets and broker, the worker's map from handles to WebSockets, and the
WebSockets in the order they were made.  `running` says that the worker still pumps: a throw
in `performNetwork` ends the pump of the guest.  `accepted` is ghost: the bytes the sends on
each handle took. -/
structure World where
  gateway : Bool
  broker : HostBroker := {}
  guest : ℕ → Option NetSocket := fun _ => none
  guests : ℕ := 0
  sockets : ℕ → Option ℕ := fun _ => none
  links : ℕ → Option Link := fun _ => none
  made : ℕ := 0
  running : Bool := true
  accepted : ℕ → Bytes := fun _ => []

/-! ### The page's side of a WebSocket -/

/-- Errnos the worker reports. -/
def ENETUNREACH : UInt64 := 101

/-- A reset connection. -/
def ECONNRESET : UInt64 := 104

/-- Close codes of the gateway. -/
def CLOSE_BAD_REQUEST : ℕ := 4400

/-- The destination is not allowed. -/
def CLOSE_REFUSED : ℕ := 4403

/-- The destination did not answer. -/
def CLOSE_UNREACHABLE : ℕ := 4502

/-- `tcpCloseErrno`. -/
def tcpCloseErrno (l : Link) (code : ℕ) : Option UInt64 :=
  if code = CLOSE_REFUSED ∨ code = CLOSE_BAD_REQUEST then some ENETUNREACH
  else if code = CLOSE_UNREACHABLE then some ECONNREFUSED
  else if !l.opened then some ENETUNREACH
  else if l.eof then none
  else some ECONNRESET

/-- `socket.onclose` of `openUdp`. -/
def udpCloseErrno (l : Link) : UInt64 := if l.opened then ECONNRESET else ENETUNREACH

namespace Link

/-- `socket.send`: it throws before the WebSocket is open and discards the message after. -/
def send (m : Message) (l : Link) : Option JsError × Link :=
  match l.ready with
  | .connecting => (some .invalidState, l)
  | .opened => (none, { l with wire := l.wire ++ [m] })
  | .closing | .closed => (none, l)

/-- The part of `sendOn` for an entry. -/
def sendOn (payload : Bytes) (l : Link) : Option JsError × Link :=
  if l.opened then l.send (.binary payload) else (none, { l with queue := l.queue ++ [payload] })

/-- `socket.close()`, and the start of a closing handshake by the other side. -/
def startClose (l : Link) : Link :=
  match l.ready with
  | .connecting | .opened => { l with ready := .closing }
  | .closing | .closed => l

/-- `socket.onopen`, once the gateway took the upgrade: the queue is sent. -/
def onopen (l : Link) : Link :=
  if l.ready = .connecting ∧ l.upgraded then
    { l with ready := .opened, opened := true, wire := l.wire ++ l.queue.map .binary, queue := [] }
  else l

/-! ### The gateway's side of a WebSocket -/

/-- The upgrade request reaches the gateway, which refuses it (`ok = false`) or starts
`relayTcp` or `relayUdp`; a malformed destination is closed at once. -/
def upgrade (ok : Bool) (l : Link) : Link :=
  if l.relay ≠ .upgrading then l
  else if !ok then { l with relay := .unattended }
  else
    match l.target with
    | none => { l with relay := .datagrams, upgraded := true, gatewayOpen := true }
    | some (ip, port) =>
      if (octetsOf ip).isNone ∨ port < 1 ∨ 65535 < port then
        { l with relay := .unattended, upgraded := true }
      else { l with relay := .checking, upgraded := true, gatewayOpen := true }

/-- `permit` answers: the upstream socket is made and the listeners are attached, unless there
is no rule or the WebSocket is not open any more. -/
def ruled (allow : Bool) (l : Link) : Link :=
  if l.relay ≠ .checking then l
  else if !allow then { l with relay := .unattended, gatewayOpen := false }
  else if !l.gatewayOpen then { l with relay := .unattended }
  else { l with relay := .relaying {} }

/-- `shut`: the upstream socket is destroyed and the WebSocket closed. -/
def shut (l : Link) : Link :=
  match l.relay with
  | .relaying up =>
    { l with relay := .relaying { up with destroyed := true }, gatewayOpen := false }
  | _ => l

end Link

/-- What the upstream socket of a relay reports. -/
inductive UpstreamEvent where
  | connect
  | data (chunk : Bytes)
  | finish
  | error
  | close
  deriving DecidableEq, Repr

namespace Link

/-- Sends a reply, if the WebSocket is open at the gateway. -/
def reply (r : Reply) (l : Link) : Link :=
  if l.gatewayOpen then { l with back := l.back ++ [r] } else l

/-- The listeners on the upstream socket; a destroyed socket reports nothing. -/
def onUpstream (event : UpstreamEvent) (l : Link) : Link :=
  match l.relay with
  | .relaying up =>
    if up.destroyed then l
    else
      match event with
      | .connect => l.reply .opened
      | .data chunk => l.reply (.data chunk)
      | .finish => l.reply .eof
      | .error | .close => l.shut
  | _ => l

end Link

/-- The message listener of `relayTcp`.  `write` after `end` or `destroy` writes nothing. -/
def Upstream.onMessage (up : Upstream) : Message → Upstream
  | .shutdown => { up with ended := true }
  | .binary data =>
    if up.ended ∨ up.destroyed then up else { up with written := up.written ++ data }

namespace Link

/-- The next message arrives at the gateway: without a listener it is dropped.  Nothing
arrives before the upgrade. -/
def arrive (l : Link) : Link :=
  match l.relay, l.wire with
  | .upgrading, _ => l
  | _, [] => l
  | .relaying up, m :: rest => { l with wire := rest, relay := .relaying (up.onMessage m) }
  | _, _ :: rest => { l with wire := rest }

/-- The WebSocket is closed at the gateway. -/
def hangup (l : Link) : Link := { l.shut with gatewayOpen := false }

/-- A datagram for the page, from the socket of `relayUdp`. -/
def onDatagram (frame : Bytes) (l : Link) : Link :=
  if l.relay = .datagrams then l.reply (.data frame) else l

end Link

/-! ### The worker -/

namespace World

/-- Changes one link. -/
def onLink (w : World) (k : ℕ) (f : Link → Link) : World :=
  { w with links := update w.links k ((w.links k).map f) }

/-- `deliverError`. -/
def deliverError (w : World) (handle : ℕ) (errno : UInt64) : World :=
  { w with broker := w.broker.deliverError (UInt64.ofNat handle) errno }

/-- `openTcp` and `openUdp`: a new WebSocket under the handle. -/
def openLink (w : World) (handle : ℕ) (target : Option (List Char × ℕ)) : World :=
  { w with
    links := update w.links w.made (some { handle, target })
    sockets := update w.sockets handle (some w.made)
    made := w.made + 1 }

/-- `sockets.delete(handle)`. -/
def forget (w : World) (handle : ℕ) : World :=
  { w with sockets := update w.sockets handle none }

/-- Opens a link, or reports an unreachable network where no gateway was given. -/
def connectLink (w : World) (handle : ℕ) (target : Option (List Char × ℕ)) : World :=
  if w.gateway then w.openLink handle target else w.deliverError handle ENETUNREACH

/-- An operation on the WebSocket of a handle, if there is one. -/
def withSocket (w : World) (handle : ℕ) (f : Link → Option JsError × Link) :
    Option JsError × World :=
  match w.sockets handle with
  | none => (none, w)
  | some k =>
    match w.links k with
    | none => (none, w)
    | some l => ((f l).1, w.onLink k fun _ => (f l).2)

/-- `case 6`: the WebSocket is closed and forgotten. -/
def closeSocket (w : World) (handle : ℕ) : World :=
  (w.withSocket handle fun l => (none, l.startClose)).2.forget handle

end World

/-- The datagram frame of `case 5`: the octets of the dotted text, the port highest byte
first, and the payload. -/
def udpFrame (ip : List Char) (port : ℕ) (bytes : Bytes) : Bytes :=
  let slots := (ip.splitOn '.').zipIdx.foldl
    (fun frame part => frame.set part.2 (UInt8.ofNat ((number part.1).getD 0)))
    (List.replicate 6 (0 : UInt8))
  (slots.set 4 (UInt8.ofNat (port / 256))).set 5 (UInt8.ofNat port) ++ bytes

/-- The cases of `performNetwork`. -/
def World.carry (w : World) : HostCommand → Option JsError × World
  | .tcpConnect handle ip port => (none, w.connectLink handle (some (ip, port)))
  | .tcpSend handle bytes => w.withSocket handle (Link.sendOn bytes)
  | .tcpShutdown handle => w.withSocket handle (Link.send .shutdown)
  | .udpOpen handle => (none, w.connectLink handle none)
  | .udpSendTo handle ip port bytes => w.withSocket handle (Link.sendOn (udpFrame ip port bytes))
  | .close handle => (none, w.closeSocket handle)

namespace World

/-- One turn of `pumpNetwork`.  A throw ends the pump. -/
def pump (w : World) : World :=
  if !w.running then w
  else
    let (stream, broker) := w.broker.takeCommands
    let result := performNetwork World.carry stream { w with broker }
    { result.2.2 with running := result.1.isNone }

/-- `socket.onmessage`: a reply reaches the page while the WebSocket is open there. -/
def onReply (w : World) (k : ℕ) : World :=
  match w.links k with
  | none => w
  | some l =>
    match l.ready, l.back with
    | .opened, r :: rest =>
      let w := w.onLink k fun l => { l with back := rest }
      let handle := UInt64.ofNat l.handle
      match l.target, r with
      | some _, .opened => { w with broker := w.broker.deliverConnected handle none }
      | some _, .eof =>
        { w.onLink k fun l => { l with eof := true } with
          broker := w.broker.deliverClosed handle }
      | some _, .data bytes => { w with broker := w.broker.deliverData handle bytes }
      | none, .data frame =>
        let sender : SocketAddrV4 := ⟨UInt32.ofNat (beValue (frame.take 4)),
          UInt16.ofNat (beValue ((frame.drop 4).take 2))⟩
        { w with broker := w.broker.deliverDatagram handle sender (frame.drop 6) }
      | none, _ => w
    | _, _ => w

/-- The error a close gives the guest, if any. -/
def reportClose (w : World) (l : Link) (code : ℕ) : World :=
  match l.target, tcpCloseErrno l code with
  | none, _ => w.deliverError l.handle (udpCloseErrno l)
  | some _, none => w
  | some _, some errno => w.deliverError l.handle errno

/-- `socket.onclose`: an entry the guest has not closed is forgotten with an error. -/
def onClose (w : World) (k : ℕ) (code : ℕ) : World :=
  match w.links k with
  | none => w
  | some l =>
    if l.ready = .closed then w
    else
      let w := w.onLink k fun l => { l with ready := .closed }
      if w.sockets l.handle = some k then (w.forget l.handle).reportClose l code else w

end World

/-! ### The guest -/

/-- The socket calls of the guest.  `close` stands for the last descriptor of a socket. -/
inductive GuestCall where
  | socket (kind : SocketKind)
  | connect (s : ℕ) (target : SocketAddrV4)
  | write (s : ℕ) (buf : Bytes)
  | sendto (s : ℕ) (target : SocketAddrV4) (buf : Bytes)
  | read (s : ℕ) (max : ℕ)
  | shutdown (s : ℕ)
  | close (s : ℕ)
  deriving DecidableEq, Repr

namespace World

/-- Keeps a socket of the guest. -/
def setGuest (w : World) (s : ℕ) (sock : NetSocket) : World :=
  { w with guest := update w.guest s (some sock) }

/-- Gives a socket the endpoint that an operation of the broker opened. -/
def adopt (w : World) (s : ℕ) (sock : NetSocket) (opened : Except UInt64 Handle × HostBroker) :
    World :=
  match opened with
  | (.ok handle, broker) => { w with broker }.setGuest s { sock with handle := some handle }
  | (.error _, broker) => { w with broker }

/-- Notes the bytes a send on a handle took. -/
def accept (w : World) (handle : Handle) (bytes : Bytes) : World :=
  let h := handle.toNat
  { w with accepted := update w.accepted h (w.accepted h ++ bytes) }

/-- A stream send of the broker. -/
def sendTcp (w : World) (handle : Handle) (bytes : Bytes) : World :=
  match w.broker.tcpSend handle bytes with
  | (.ok n, broker) => { w with broker }.accept handle (bytes.take n)
  | (.error _, broker) => { w with broker }

/-- `sys_connect`. -/
def connect (w : World) (s : ℕ) (sock : NetSocket) (target : SocketAddrV4) : World :=
  match sock.kind with
  | .tcp => w.adopt s { sock with peer := some target } (w.broker.tcpConnect target)
  | .udp =>
    let sock' := { sock with peer := some target }
    if sock.handle.isNone then w.adopt s sock' w.broker.udpOpen else w.setGuest s sock'

/-- `outcome_write` on a socket: at most `0x400000` bytes at a time. -/
def write (w : World) (sock : NetSocket) (buf : Bytes) : World :=
  let bytes := buf.take 0x400000
  match sock.handle, sock.kind, sock.peer with
  | none, _, _ => w
  | some handle, .tcp, _ => w.sendTcp handle bytes
  | some handle, .udp, some peer => { w with broker := (w.broker.udpSendTo handle peer bytes).2 }
  | some _, .udp, none => w

/-- `sys_sendto` with an address, which only a datagram socket takes. -/
def sendto (w : World) (s : ℕ) (sock : NetSocket) (target : SocketAddrV4) (buf : Bytes) : World :=
  match sock.kind with
  | .tcp => w
  | .udp =>
    let w := if sock.handle.isNone then w.adopt s sock w.broker.udpOpen else w
    match (w.guest s).bind NetSocket.handle with
    | none => w
    | some handle =>
      { w with broker := (w.broker.udpSendTo handle target (buf.take 0x10000)).2 }

/-- `outcome_read` and `sys_recvfrom` on a socket. -/
def read (w : World) (sock : NetSocket) (max : ℕ) : World :=
  match sock.handle, sock.kind with
  | none, _ => w
  | some handle, .tcp => { w with broker := (w.broker.tcpRecv handle max).2 }
  | some handle, .udp => { w with broker := (w.broker.udpRecvFrom handle max).2 }

/-- `sys_shutdown` of the write side. -/
def shutdown (w : World) (sock : NetSocket) : World :=
  match sock.kind, sock.handle with
  | .tcp, some handle => { w with broker := (w.broker.tcpShutdownWrite handle).2 }
  | _, _ => w

/-- The last descriptor of a socket goes away, and with it the endpoint. -/
def closeGuest (w : World) (s : ℕ) (sock : NetSocket) : World :=
  let w := { w with guest := update w.guest s none }
  match sock.handle with
  | none => w
  | some handle => { w with broker := w.broker.close handle }

/-- What a socket call of the guest leaves; a call on no socket leaves everything. -/
def call (w : World) : GuestCall → World
  | .socket kind => { w.setGuest w.guests { kind } with guests := w.guests + 1 }
  | .connect s target => (w.guest s).elim w fun sock => w.connect s sock target
  | .write s buf => (w.guest s).elim w fun sock => w.write sock buf
  | .sendto s target buf => (w.guest s).elim w fun sock => w.sendto s sock target buf
  | .read s max => (w.guest s).elim w fun sock => w.read sock max
  | .shutdown s => (w.guest s).elim w w.shutdown
  | .close s => (w.guest s).elim w fun sock => w.closeGuest s sock

end World

/-! ### Events -/

/-- The events of the system.  A number names the WebSocket an event is about. -/
inductive Event where
  | guest (call : GuestCall)
  | pump
  | upgrade (k : ℕ) (ok : Bool)
  | opened (k : ℕ)
  | ruled (k : ℕ) (allow : Bool)
  | upstream (k : ℕ) (event : UpstreamEvent)
  | arrive (k : ℕ)
  | hangup (k : ℕ)
  | datagram (k : ℕ) (frame : Bytes)
  | reply (k : ℕ)
  | closing (k : ℕ)
  | closed (k : ℕ) (code : ℕ)
  deriving DecidableEq, Repr

/-- One event. -/
def World.step (w : World) : Event → World
  | .guest c => w.call c
  | .pump => w.pump
  | .upgrade k ok => w.onLink k (Link.upgrade ok)
  | .opened k => w.onLink k Link.onopen
  | .ruled k allow => w.onLink k (Link.ruled allow)
  | .upstream k event => w.onLink k (Link.onUpstream event)
  | .arrive k => w.onLink k Link.arrive
  | .hangup k => w.onLink k Link.hangup
  | .datagram k frame => w.onLink k (Link.onDatagram frame)
  | .reply k => w.onReply k
  | .closing k => w.onLink k Link.startClose
  | .closed k code => w.onClose k code

/-- The bytes the gateway has written to the upstream socket of a link. -/
def Link.written (l : Link) : Bytes :=
  match l.relay with
  | .relaying up => up.written
  | _ => []

/-- A payload arrives at a gateway that still waits for its rule check, so that no listener is
attached. -/
def Link.Early (l : Link) : Prop :=
  l.relay = .checking ∧ (l.wire.head?.map Message.bytes).getD [] ≠ []

/-- The condition on an event: no payload arrives early, and the guest opens no endpoint whose
handle does not fit the command stream. -/
def World.Orderly (w : World) : Event → Prop
  | .guest (.connect _ _) => w.broker.nextHandle.toNat < 2 ^ 32
  | .guest (.sendto _ _ _) => w.broker.nextHandle.toNat < 2 ^ 32
  | .arrive k => ∀ l, w.links k = some l → ¬ l.Early
  | _ => True

/-! ### The bytes a link stands for -/

namespace Link

/-- A payload that arrives at the gateway may yet be written. -/
def Alive (l : Link) : Prop :=
  match l.relay with
  | .upgrading | .checking => True
  | .relaying up => up.ended = false ∧ up.destroyed = false
  | .unattended | .datagrams => False

/-- The bytes that were written, those on the way and those in the queue, in order. -/
def delivered (l : Link) : Bytes :=
  l.written ++ l.wire.flatMap Message.bytes ++ l.queue.flatten

/-- A payload the worker is given for this link goes on towards the gateway. -/
def Current (l : Link) : Prop := l.Alive ∧ (l.opened = false ∨ l.ready = .opened)

/-- What holds of a link whose guest's sends took `acc`. -/
structure Sound (acc : Bytes) (l : Link) : Prop where
  kept : l.written <+: acc
  ahead : l.Alive → l.delivered <+: acc
  flushed : l.opened = true → l.queue = []
  ready : l.opened = true → l.ready ≠ .connecting

/-- `l'` is the same endpoint as `l`, stays sound, and where payloads go on it stands for the
same bytes. -/
structure Follows (l l' : Link) : Prop where
  handle : l'.handle = l.handle
  target : l'.target = l.target
  keeps : ∀ {acc : Bytes}, l.Sound acc →
    l'.Sound acc ∧ (l'.Current → l.Current ∧ l'.delivered = l.delivered)

/-- A step that leaves the worker's entry, and the bytes of a link on which payloads may yet be
written. -/
lemma Follows.of_entry {l l' : Link} (hhandle : l'.handle = l.handle)
    (htarget : l'.target = l.target) (hqueue : l'.queue = l.queue) (hopened : l'.opened = l.opened)
    (hready : l'.ready = l.ready) (hkept : ∀ {acc}, l.Sound acc → l'.written <+: acc)
    (hback : l'.Alive → l.Alive ∧ l'.delivered = l.delivered) : l.Follows l' := by
  refine ⟨hhandle, htarget, fun h => ⟨⟨hkept h, fun halive => ?_, ?_, ?_⟩, fun hcurrent => ?_⟩⟩
  · rw [(hback halive).2]
    exact h.ahead (hback halive).1
  · rw [hopened, hqueue]
    exact h.flushed
  · rw [hopened, hready]
    exact h.ready
  have hentry := hcurrent.2
  rw [hopened, hready] at hentry
  exact ⟨⟨(hback hcurrent.1).1, hentry⟩, (hback hcurrent.1).2⟩

/-- A step that leaves also the messages on the way, and what was written. -/
lemma Follows.of_relay {l l' : Link} (hhandle : l'.handle = l.handle)
    (htarget : l'.target = l.target) (hqueue : l'.queue = l.queue) (hopened : l'.opened = l.opened)
    (hready : l'.ready = l.ready) (hwire : l'.wire = l.wire) (hwritten : l'.written = l.written)
    (halive : l'.Alive → l.Alive) : l.Follows l' := by
  refine .of_entry hhandle htarget hqueue hopened hready (fun h => ?_) fun ha => ⟨halive ha, ?_⟩
  · rw [hwritten]
    exact h.kept
  · rw [delivered, delivered, hwritten, hwire, hqueue]

variable (l : Link)

lemma Follows.refl : l.Follows l := .of_relay rfl rfl rfl rfl rfl rfl rfl id

lemma Follows.trans {l l' l'' : Link} (h : l.Follows l') (h' : l'.Follows l'') : l.Follows l'' := by
  refine ⟨h'.handle.trans h.handle, h'.target.trans h.target, fun hs => ?_⟩
  obtain ⟨hs', hback⟩ := h.keeps hs
  obtain ⟨hs'', hback'⟩ := h'.keeps hs'
  refine ⟨hs'', fun hcurrent => ?_⟩
  obtain ⟨hcurrent', heq'⟩ := hback' hcurrent
  obtain ⟨hcurrent, heq⟩ := hback hcurrent'
  exact ⟨hcurrent, heq'.trans heq⟩

/-! ### What the events of a link keep -/

/-- The upgrade only ends the wait of a link on which nothing was written. -/
lemma upgrade_follows (ok : Bool) (l : Link) : l.Follows (l.upgrade ok) := by
  rw [upgrade]
  split_ifs with hrelay hok
  · exact .refl l
  · exact .of_relay rfl rfl rfl rfl rfl rfl (by simp_all [written]) (by simp [Alive])
  split
  · exact .of_relay rfl rfl rfl rfl rfl rfl (by simp_all [written]) (by simp [Alive])
  split_ifs with hbad
  all_goals exact .of_relay rfl rfl rfl rfl rfl rfl (by simp_all [written]) (by simp_all [Alive])

/-- The rule check attaches the listeners or gives the link up. -/
lemma ruled_follows (allow : Bool) (l : Link) : l.Follows (l.ruled allow) := by
  rw [ruled]
  split_ifs with hrelay hallow hopen
  · exact .refl l
  all_goals exact .of_relay rfl rfl rfl rfl rfl rfl (by simp_all [written]) (by simp_all [Alive])

lemma shut_follows : l.Follows l.shut := by
  rw [shut]
  split
  · rename_i up hrelay
    exact .of_relay rfl rfl rfl rfl rfl rfl (by simp [written, hrelay]) (by simp [Alive])
  · exact .refl l

lemma hangup_follows : l.Follows l.hangup :=
  l.shut_follows.trans (.of_relay rfl rfl rfl rfl rfl rfl rfl id)

lemma reply_follows (r : Reply) (l : Link) : l.Follows (l.reply r) := by
  rw [reply]
  split_ifs
  · exact .of_relay rfl rfl rfl rfl rfl rfl rfl id
  · exact .refl l

lemma onDatagram_follows (frame : Bytes) (l : Link) : l.Follows (l.onDatagram frame) := by
  rw [onDatagram]
  split_ifs
  · exact l.reply_follows _
  · exact .refl l

/-- What the upstream socket reports is sent back, or the relay is shut. -/
lemma onUpstream_follows (event : UpstreamEvent) (l : Link) : l.Follows (l.onUpstream event) := by
  unfold onUpstream
  split
  · split_ifs
    · exact .refl l
    cases event with
    | connect | data | finish => exact l.reply_follows _
    | error | close => exact l.shut_follows
  · exact .refl l

/-- A closing WebSocket discards what it is given, and what waits in the queue stays there. -/
lemma Follows.of_closed {l l' : Link} (hhandle : l'.handle = l.handle)
    (htarget : l'.target = l.target) (hqueue : l'.queue = l.queue) (hopened : l'.opened = l.opened)
    (hready : l'.ready = .closing ∨ l'.ready = .closed) (hwire : l'.wire = l.wire)
    (hrelay : l'.relay = l.relay) : l.Follows l' := by
  have hwritten : l'.written = l.written := by rw [written, written, hrelay]
  have halive : l'.Alive ↔ l.Alive := by rw [Alive, Alive, hrelay]
  have hdelivered : l'.delivered = l.delivered := by
    rw [delivered, delivered, hwritten, hwire, hqueue]
  refine ⟨hhandle, htarget, fun h => ⟨⟨?_, ?_, ?_, ?_⟩, fun hcurrent => ⟨⟨?_, ?_⟩, hdelivered⟩⟩⟩
  · rw [hwritten]
    exact h.kept
  · rw [halive, hdelivered]
    exact h.ahead
  · rw [hopened, hqueue]
    exact h.flushed
  · rcases hready with hready | hready <;> simp [hready]
  · exact halive.mp hcurrent.1
  rw [← hopened]
  refine .inl (hcurrent.2.resolve_right ?_)
  rcases hready with hready | hready <;> simp [hready]

/-- A close by either side. -/
lemma startClose_follows : l.Follows l.startClose := by
  rw [startClose]
  split
  · exact .of_closed rfl rfl rfl rfl (.inl rfl) rfl rfl
  · exact .of_closed rfl rfl rfl rfl (.inl rfl) rfl rfl
  · exact .refl l
  · exact .refl l

/-- Opening moves the queue behind the messages on the way. -/
lemma onopen_follows : l.Follows l.onopen := by
  rw [onopen]
  split_ifs with hready
  · refine ⟨rfl, rfl, fun h => ?_⟩
    have hclosed : l.opened = false := by
      by_contra hopened
      exact h.ready (by simpa using hopened) hready.1
    have hdelivered : ({ l with
        ready := .opened
        opened := true
        wire := l.wire ++ l.queue.map .binary
        queue := [] } : Link).delivered = l.delivered := by
      have hqueue : (l.queue.map Message.binary).flatMap Message.bytes = l.queue.flatten := by
        rw [flatMap_map]
        exact flatMap_id
      simp [delivered, written, hqueue]
    exact ⟨⟨h.kept, fun halive => hdelivered ▸ h.ahead halive, fun _ => rfl, fun _ => by simp⟩,
      fun hcurrent => ⟨⟨hcurrent.1, .inl hclosed⟩, hdelivered⟩⟩
  · exact .refl l

/-- **A message arrives** while it can be listened to: its bytes move from the wire to the upstream
socket. -/
lemma arrive_follows {l : Link} (hearly : ¬ l.Early) : l.Follows l.arrive := by
  rw [arrive]
  split
  · exact .refl l
  · exact .refl l
  · rename_i up m rest hrelay hwire
    cases m with
    | shutdown =>
      exact .of_entry rfl rfl rfl rfl rfl
        (fun h => by simpa [written, Upstream.onMessage, hrelay] using h.kept)
        (by simp [Alive, Upstream.onMessage])
    | binary data =>
      -- after `end` or `destroy` nothing is written, and the link is not alive
      by_cases hdone : up.ended ∨ up.destroyed
      · refine .of_entry rfl rfl rfl rfl rfl
          (fun h => by simpa [written, Upstream.onMessage, hdone, hrelay] using h.kept) ?_
        intro halive
        simp only [Alive, Upstream.onMessage, if_pos hdone] at halive
        simp [halive] at hdone
      have hopen : l.Alive := by
        simp only [Alive, hrelay]
        simpa using hdone
      have hwritten : ({ l with
          wire := rest
          relay := .relaying (up.onMessage (.binary data)) } : Link).written
            = l.written ++ data := by
        simp [written, Upstream.onMessage, hdone, hrelay]
      have hdelivered : ({ l with
          wire := rest
          relay := .relaying (up.onMessage (.binary data)) } : Link).delivered
            = l.delivered := by
        rw [delivered, delivered, hwritten, hwire]
        simp [Message.bytes]
      refine .of_entry rfl rfl rfl rfl rfl (fun h => ?_) fun _ => ⟨hopen, hdelivered⟩
      refine List.IsPrefix.trans ?_ (h.ahead hopen)
      rw [hwritten, delivered, hwire, flatMap_cons, Message.bytes]
      exact ⟨rest.flatMap Message.bytes ++ l.queue.flatten, by simp⟩
  -- no listener: only a link whose rule check is pending may yet write
  rename_i m rest hwire hupgrading hrelaying
  have hwritten : ({ l with wire := rest } : Link).written = l.written := rfl
  refine .of_entry rfl rfl rfl rfl rfl (fun h => h.kept) fun halive => ⟨halive, ?_⟩
  have hchecking : l.relay = .checking := by
    cases hrelay : l.relay with
    | upgrading => exact absurd hrelay hupgrading
    | checking => rfl
    | relaying up => exact (hrelaying up hrelay).elim
    | unattended | datagrams => simp [Alive, hrelay] at halive
  have hempty : m.bytes = [] := by
    by_contra hne
    exact hearly ⟨hchecking, by simpa [hwire] using hne⟩
  rw [delivered, delivered, hwritten, hwire, flatMap_cons, hempty, nil_append]

end Link

/-- A payload on an entry: what the link stands for grows by it, where payloads go on. -/
lemma Link.sendOn_sound {l : Link} {acc : Bytes} (payload : Bytes) (h : l.Sound acc)
    (hroom : l.Current → l.delivered ++ payload <+: acc) :
    (l.sendOn payload).2.Sound acc ∧
      ((l.sendOn payload).2.Current →
        l.Current ∧ (l.sendOn payload).2.delivered = l.delivered ++ payload) := by
  by_cases hopened : l.opened
  · have hqueue := h.flushed hopened
    rw [sendOn, if_pos hopened, send]
    split
    · rename_i hready
      exact absurd hready (h.ready hopened)
    · rename_i hready
      have hdelivered : ({ l with wire := l.wire ++ [.binary payload] } : Link).delivered
          = l.delivered ++ payload := by
        simp [delivered, written, hqueue, Message.bytes]
      refine ⟨⟨h.kept, fun halive => ?_, h.flushed, h.ready⟩,
        fun hcurrent => ⟨hcurrent, hdelivered⟩⟩
      rw [hdelivered]
      exact hroom ⟨halive, .inr hready⟩
    · rename_i hready
      exact ⟨h, fun hcurrent => absurd hcurrent.2 (by simp [hopened, hready])⟩
    · rename_i hready
      exact ⟨h, fun hcurrent => absurd hcurrent.2 (by simp [hopened, hready])⟩
  have hclosed : l.opened = false := by simpa using hopened
  rw [sendOn, if_neg hopened]
  have hdelivered : ({ l with queue := l.queue ++ [payload] } : Link).delivered
      = l.delivered ++ payload := by
    simp [delivered, written]
  refine ⟨⟨h.kept, fun halive => ?_, fun ho => absurd ho hopened, h.ready⟩,
    fun hcurrent => ⟨hcurrent, hdelivered⟩⟩
  rw [hdelivered]
  exact hroom ⟨halive, .inl hclosed⟩

/-- A `shutdown` carries no bytes. -/
lemma Link.send_shutdown_follows (l : Link) : l.Follows (l.send .shutdown).2 := by
  rw [send]
  split
  · exact .refl l
  · exact .of_entry rfl rfl rfl rfl rfl (fun h => h.kept)
      fun halive => ⟨halive, by simp [delivered, written, Message.bytes]⟩
  · exact .refl l
  · exact .refl l

@[simp] lemma Link.sendOn_handle (payload : Bytes) (l : Link) :
    (l.sendOn payload).2.handle = l.handle ∧ (l.sendOn payload).2.target = l.target := by
  rw [sendOn]
  split_ifs
  · rw [send]
    split <;> exact ⟨rfl, rfl⟩
  · exact ⟨rfl, rfl⟩

end WebTos.Net
