import WebTos.Net.Link

/-!
The gateway with all its connections (`webtos_gateway.mjs`): upgrade requests, rule checks,
which may wait for the resolver, frames and closes, in any order.

The upgrade handler looks at the count of relayed sockets, and `relayTcp` adds to it when its
rule check has ended.  A frame of `relayUdp` is sent when its own check has ended, with no look
at the relay.

* `Conn.on`, `Gateway.step`: the handlers of one connection, and the gateway;
* `open_sockets_capped`, `overlapping_checks_exceed`: the cap holds while there is room for the
  checks that wait, and a run without room;
* `shut_relay_sends_nothing`, `late_answer_ends_gateway`: no socket is used after its close
  while no relay with waiting frames is shut, and a run in which one is.
-/

namespace WebTos.Net

open Lib List

/-- One `host:port` rule. -/
structure Rule where
  host : List Char
  port : ℕ

/-- `permit`: the first rule for the port whose host is the address or resolves to it, with
the answers of `addressesFor`. -/
def permit (rules : List Rule) (addressesFor : List Char → List (List Char)) (ip : List Char)
    (port : ℕ) : Option Rule :=
  rules.find? fun rule => rule.port == port &&
    if (octetsOf rule.host).isSome then rule.host == ip else (addressesFor rule.host).contains ip

/-- What an upgrade request asks for.  A port that is no integer is 0 here. -/
inductive Request where
  | tcp (host : List Char) (port : ℕ)
  | udp
  | other

/-- The handler of a connection: `relayTcp` in its rule check, or without a relay after it; a
relay that was started, or one that was shut. -/
inductive Stage where
  | checking (host : List Char) (port : ℕ)
  | refused
  | relaying
  | shut
  deriving DecidableEq

/-- A connection: `readyState` of its WebSocket, and the frames of `relayUdp` in their rule
check. -/
structure Conn where
  udp : Bool
  stage : Stage
  ready : ReadyState := .opened
  waiting : List Bytes := []

/-- What a connection meets: the end of the rule check of `relayTcp`, a message, the end of
the check of a frame, its WebSocket closing and closed, an error or the close of its relayed
socket. -/
inductive ConnEvent where
  | ruled (addressesFor : List Char → List (List Char))
  | message (isBinary : Bool) (data : Bytes)
  | checked (i : ℕ) (addressesFor : List Char → List (List Char))
  | closing
  | closed
  | failed

/-- What a handler does: the connection after it, the change of `openSockets`, and whether it
throws. -/
structure Turn where
  conn : Conn
  delta : ℤ := 0
  throws : Bool := false

/-- The `connection` handler; `none` where the WebSocket is closed at once. -/
def Request.turn : Request → Option Turn
  | .tcp host port =>
    if (octetsOf host).isNone ∨ port < 1 ∨ 65535 < port then none
    else some { conn := { udp := false, stage := .checking host port } }
  | .udp => some { conn := { udp := true, stage := .relaying }, delta := 1 }
  | .other => none

namespace Conn

/-- `ws.close`. -/
def close (c : Conn) : Conn :=
  { c with ready := if c.ready = .opened then .closing else c.ready }

/-- `shut`, which both ends call and which counts once. -/
def shut (c : Conn) : Turn :=
  if c.stage = .relaying then { conn := { c.close with stage := .shut }, delta := -1 }
  else { conn := c }

/-- The handlers of a connection.  A send on a closed datagram socket throws. -/
def on (rules : List Rule) (c : Conn) : ConnEvent → Turn
  | .ruled addressesFor =>
    match c.stage with
    | .checking host port =>
      if (permit rules addressesFor host port).isNone then
        { conn := { c.close with stage := .refused } }
      else if c.ready ≠ .opened then { conn := { c with stage := .refused } }
      else { conn := { c with stage := .relaying }, delta := 1 }
    | _ => { conn := c }
  | .message isBinary data =>
    if c.udp ∧ c.ready ≠ .closed ∧ isBinary ∧ 6 ≤ data.length then
      { conn := { c with waiting := c.waiting ++ [data] } }
    else { conn := c }
  | .checked i addressesFor =>
    match c.waiting[i]? with
    | none => { conn := c }
    | some frame =>
      let rule := permit rules addressesFor (dotted (frame.take 4))
        (beValue ((frame.drop 4).take 2))
      { conn := { c with waiting := c.waiting.eraseIdx i }
        throws := rule.isSome ∧ c.stage = .shut }
  | .closing => { conn := c.close }
  | .closed => { c with ready := .closed }.shut
  | .failed => c.shut

/-- The relay was started and not shut. -/
def live (c : Conn) : Bool := c.stage = .relaying

/-- The relay is live, or its rule check has not ended. -/
def engaged (c : Conn) : Bool := c.stage ≠ .refused ∧ c.stage ≠ .shut

lemma shut_counts (c : Conn) :
    c.shut.conn.live.toNat = c.shut.delta + c.live.toNat ∧ (c.shut.conn.engaged → c.engaged) := by
  unfold shut
  split_ifs with h <;> simp [live, engaged, h]

/-- The count moves with the relays, and nothing is engaged that was not. -/
lemma on_counts (rules : List Rule) (c : Conn) (e : ConnEvent) :
    (c.on rules e).conn.live.toNat = (c.on rules e).delta + c.live.toNat ∧
      ((c.on rules e).conn.engaged → c.engaged) := by
  cases e with
  | ruled =>
    dsimp only [on]
    split
    case h_1 h => split_ifs <;> simp [live, engaged, h]
    case h_2 => simp
  | message =>
    dsimp only [on]
    split_ifs <;> exact ⟨(zero_add _).symm, id⟩
  | checked =>
    dsimp only [on]
    split <;> exact ⟨(zero_add _).symm, id⟩
  | closing => exact ⟨(zero_add _).symm, id⟩
  | closed => exact shut_counts { c with ready := .closed }
  | failed => exact c.shut_counts

end Conn

lemma Request.turn_counts {request : Request} {turn : Turn} (h : request.turn = some turn) :
    turn.conn.live.toNat = turn.delta ∧ turn.conn.waiting = [] := by
  cases request with
  | tcp =>
    dsimp only [Request.turn] at h
    split_ifs at h
    obtain rfl := Option.some.inj h
    exact ⟨rfl, rfl⟩
  | udp =>
    obtain rfl := Option.some.inj h
    exact ⟨rfl, rfl⟩
  | other => cases h

/-- The count of a list with one entry replaced. -/
lemma countP_set_add {α : Type*} {l : List α} {k : ℕ} {a b : α} (h : l[k]? = some b)
    (p : α → Bool) : (l.set k a).countP p + (p b).toNat = l.countP p + (p a).toNat := by
  obtain ⟨hk, rfl⟩ := List.getElem?_eq_some_iff.1 h
  have hpos : p l[k] → 0 < l.countP p := fun hp => countP_pos_iff.2 ⟨_, getElem_mem hk, hp⟩
  rw [countP_set hk]
  cases hb : p l[k] <;> cases p a <;> simp_all

/-- The options of the gateway.  `maxSockets` is `none` where the option is no number. -/
structure Options where
  rules : List Rule
  maxSockets : Option ℚ

/-- The state of the gateway; `ended` says that an unhandled rejection ended the process. -/
structure Gateway where
  openSockets : ℤ := 0
  conns : List Conn := []
  ended : Bool := false

/-- An upgrade request, with the answer of `originAllowed`, or an event of a connection. -/
inductive GatewayEvent where
  | upgrade (allowed : Bool) (request : Request)
  | conn (k : ℕ) (e : ConnEvent)

namespace Gateway

variable (options : Options) (g : Gateway)

/-- `openSockets >= options.maxSockets`, which is false where the option is no number. -/
def full : Bool := options.maxSockets.any fun max => max ≤ (g.openSockets : ℚ)

/-- One event. -/
def step : GatewayEvent → Gateway
  | .upgrade allowed request =>
    match request.turn with
    | none => g
    | some turn =>
      if g.ended ∨ !allowed ∨ g.full options then g
      else
        { g with openSockets := g.openSockets + turn.delta, conns := g.conns ++ [turn.conn] }
  | .conn k e =>
    match g.conns[k]? with
    | none => g
    | some c =>
      if g.ended then g
      else
        let turn := c.on options.rules e
        { openSockets := g.openSockets + turn.delta
          conns := g.conns.set k turn.conn
          ended := turn.throws }

/-- What an event can do. -/
inductive Steps : GatewayEvent → Gateway → Prop
  | stay (e : GatewayEvent) : Steps e g
  | accept {request : Request} {turn : Turn} (taken : request.turn = some turn)
      (room : ¬ g.full options) : Steps (.upgrade true request)
        { g with openSockets := g.openSockets + turn.delta, conns := g.conns ++ [turn.conn] }
  | handle {k : ℕ} {c : Conn} (e : ConnEvent) (found : g.conns[k]? = some c) : Steps (.conn k e)
      ⟨g.openSockets + (c.on options.rules e).delta, g.conns.set k (c.on options.rules e).conn,
        (c.on options.rules e).throws⟩

lemma step_steps (e : GatewayEvent) : Steps options g e (g.step options e) := by
  cases e with
  | upgrade allowed =>
    dsimp only [step]
    split
    case h_1 => exact .stay _
    case h_2 hturn =>
    split_ifs with hrefused
    · exact .stay _
    cases allowed with
    | false => exact absurd (.inr (.inl rfl)) hrefused
    | true => exact .accept hturn fun hfull => hrefused (.inr (.inr hfull))
  | conn k e =>
    dsimp only [step]
    split
    case h_1 => exact .stay _
    case h_2 hc =>
    split_ifs
    exacts [.stay _, .handle e hc]

/-- An upgrade that is taken finds room for one more beside the relays and the rule checks that
wait. -/
def Roomy : GatewayEvent → Prop
  | .upgrade allowed request => allowed → request.turn.isSome → ¬ g.full options →
    ∀ max ∈ options.maxSockets, (g.conns.countP Conn.engaged + 1 : ℚ) ≤ max
  | .conn _ _ => True

/-- `openSockets` is the number of relays that were started and not shut. -/
def Counted : Prop := g.openSockets = g.conns.countP Conn.live

variable {options g} {g' : Gateway} {e : GatewayEvent}

lemma Counted.steps (h : g.Counted) (hstep : Steps options g e g') : g'.Counted := by
  cases hstep with
  | stay => exact h
  | @accept _ turn taken =>
    have hdelta := (Request.turn_counts taken).1
    simp only [Counted, countP_append, countP_singleton] at h ⊢
    cases hlive : turn.conn.live <;> simp_all
  | @handle _ c e found =>
    have hcount := countP_set_add found Conn.live (a := (c.on options.rules e).conn)
    have hdelta := (c.on_counts options.rules e).1
    dsimp only [Counted] at h ⊢
    omega

/-- The relays and checks stay within the cap. -/
lemma engaged_steps {max : ℚ} (hmax : options.maxSockets = some max)
    (h : (g.conns.countP Conn.engaged : ℚ) ≤ max) (he : g.Roomy options e)
    (hstep : Steps options g e g') : (g'.conns.countP Conn.engaged : ℚ) ≤ max := by
  cases hstep with
  | stay => exact h
  | @accept _ turn taken room =>
    refine le_trans ?_ (he rfl (by simp [taken]) room max hmax)
    rw [countP_append]
    exact_mod_cast Nat.add_le_add_left (countP_le_length (l := [turn.conn])) _
  | @handle _ c e found =>
    refine le_trans (Nat.cast_le.2 ?_) h
    have hcount := countP_set_add found Conn.engaged (a := (c.on options.rules e).conn)
    have hle := Bool.toNat_le_toNat (c.on_counts options.rules e).2
    dsimp only
    omega

/-- **The cap on relayed sockets**: in every run the count is the number of relays that were
started and not shut, and it is within the cap if every upgrade that is taken finds room for
the checks that wait. -/
theorem open_sockets_capped (options : Options) (es : List GatewayEvent) :
    let g := run (step options) {} es
    g.openSockets = g.conns.countP Conn.live ∧ 0 ≤ g.openSockets ∧
      (Guarded (step options) (Roomy options) {} es →
        ∀ max ∈ options.maxSockets, 0 ≤ max → (g.openSockets : ℚ) ≤ max) := by
  intro g
  have hcounted : g.Counted :=
    run_invariant Counted (fun g e h => h.steps (g.step_steps _ e)) es rfl
  refine ⟨hcounted, hcounted ▸ Int.natCast_nonneg _, fun hes max hmax hpos => ?_⟩
  have hengaged : (g.conns.countP Conn.engaged : ℚ) ≤ max :=
    @Guarded.invariant _ _ _ _ (fun g : Gateway => (g.conns.countP Conn.engaged : ℚ) ≤ max)
      (fun g e h he => engaged_steps hmax h he (g.step_steps _ e)) _ es (by simpa using hpos) hes
  have hle : g.conns.countP Conn.live ≤ g.conns.countP Conn.engaged :=
    countP_mono_left fun c _ hc => by simp_all [Conn.live, Conn.engaged]
  rw [hcounted]
  exact le_trans (mod_cast hle) hengaged

/-- One socket, and one rule for a name. -/
def named : Options := ⟨[⟨"example.com".toList, 80⟩], some 1⟩

/-- The answers of the resolver. -/
def answers (_ : List Char) : List (List Char) := ["1.2.3.4".toList]

/-- With two sockets, an upgrade is taken while the rule check of another waits. -/
theorem open_sockets_capped_waiting :
    let es := [.upgrade true (.tcp "1.2.3.4".toList 80), .upgrade true .udp,
      .conn 0 (.ruled answers)]
    let g := run (step ⟨named.rules, some 2⟩) {} es
    g.conns.countP Conn.live = 2 ∧ (g.openSockets : ℚ) ≤ 2 := by
  intro es g
  have hroomy : Guarded (step ⟨named.rules, some 2⟩) (Roomy ⟨named.rules, some 2⟩) {} es :=
    ⟨fun _ _ _ _ h => by cases h; decide +kernel, fun _ _ _ _ h => by cases h; decide +kernel,
      trivial, trivial⟩
  exact ⟨by decide +kernel, (open_sockets_capped _ es).2.2 hroomy 2 rfl zero_le_two⟩

/-- Two checks that wait at once. -/
theorem overlapping_checks_exceed :
    (run (step named) {} [.upgrade true (.tcp "1.2.3.4".toList 80),
      .upgrade true (.tcp "1.2.3.4".toList 80), .conn 0 (.ruled answers),
      .conn 1 (.ruled answers)]).openSockets = 2 := by
  decide +kernel

/-! ### Frames in their rule check -/

/-- No frame waits for its rule check when its relay is shut, and none arrives after that. -/
def Settled (g : Gateway) : GatewayEvent → Prop
  | .conn k e => ∀ c ∈ g.conns[k]?,
    match e with
    | .closed | .failed => c.waiting = []
    | .message _ _ => c.stage ≠ .shut
    | _ => True
  | .upgrade _ _ => True

/-- No relay that was shut has a frame in its rule check, and nothing was thrown. -/
def Idle (g : Gateway) : Prop :=
  (∀ c ∈ g.conns, c.stage = .shut → c.waiting = []) ∧ g.ended = false

/-- **One event** leaves no check waiting on a connection that is shut. -/
lemma Idle.steps (h : g.Idle) (he : g.Settled e) (hstep : Steps options g e g') : g'.Idle := by
  cases hstep with
  | stay => exact h
  | accept taken =>
    refine ⟨forall_mem_append.2 ⟨h.1, ?_⟩, h.2⟩
    simp [(Request.turn_counts taken).2]
  | @handle _ c e found =>
    have hidle := h.1 c (mem_of_getElem? found)
    have hturn : ((c.on options.rules e).conn.stage = .shut →
        (c.on options.rules e).conn.waiting = []) ∧ (c.on options.rules e).throws = false := by
      have hc := he c found
      cases e with
      | ruled =>
        dsimp only [Conn.on]
        split
        · split_ifs <;> simp
        · exact ⟨hidle, rfl⟩
      | message =>
        dsimp only [Conn.on]
        split_ifs
        exacts [⟨fun hs => absurd hs hc, rfl⟩, ⟨hidle, rfl⟩]
      -- a check that ends was waiting, so the connection is not shut
      | checked i =>
        dsimp only [Conn.on]
        split
        case h_1 => exact ⟨hidle, rfl⟩
        case h_2 frame hi =>
        have hs : c.stage ≠ .shut := fun hs => by simp [hidle hs] at hi
        exact ⟨fun h => absurd h hs, by simp [hs]⟩
      | closing => exact ⟨hidle, rfl⟩
      | closed | failed =>
        dsimp only [Conn.on, Conn.shut]
        split_ifs <;> exact ⟨fun _ => hc, rfl⟩
    refine ⟨fun d hd => ?_, hturn.2⟩
    obtain hd | rfl := mem_or_eq_of_mem_set hd
    exacts [h.1 d hd, hturn.1]

/-- **No use after close**: if no relay is shut while a frame of it waits, and no frame comes
after that, no frame is sent on a closed socket, which would end the process. -/
theorem shut_relay_sends_nothing (options : Options) (es : List GatewayEvent)
    (hes : Guarded (step options) Settled {} es) : (run (step options) {} es).ended = false := by
  have hidle : Idle (run (step options) {} es) :=
    Guarded.invariant (fun g e h he => h.steps he (g.step_steps options e)) ⟨by simp, rfl⟩ hes
  exact hidle.2

/-- A datagram to the address of the name arrives. -/
def arrives : GatewayEvent := .conn 0 (.message true [1, 2, 3, 4, 0, 80, 97])

theorem shut_relay_sends_nothing_once :
    (run (step named) {} [.upgrade true .udp, arrives, .conn 0 (.checked 0 answers),
      .conn 0 .closed]).ended = false :=
  shut_relay_sends_nothing named [.upgrade true .udp, arrives, .conn 0 (.checked 0 answers),
    .conn 0 .closed] ⟨trivial, fun _ h => by cases h; decide, fun _ _ => trivial,
      fun _ h => by cases h; rfl, trivial⟩

/-- The WebSocket is closed before the resolver answers. -/
theorem late_answer_ends_gateway :
    (run (step named) {} [.upgrade true .udp, arrives, .conn 0 .closed,
      .conn 0 (.checked 0 answers)]).ended = true := by
  decide +kernel

end Gateway

end WebTos.Net
