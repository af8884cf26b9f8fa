import WebTos.Fd.Objects
import WebTos.Net.Link

/-!
Who owns the endpoints of the broker: descriptor tables over the guest's sockets.

* `Owners`, `Owners.step`: the tables of the processes, the sockets behind them, and the calls
  that make, share and drop descriptors;
* `Owners.sweep`: a socket whose last descriptor is gone is dropped, and its endpoint is closed;
* `Owners.Owned`: a handle that was given out is stored in a live socket or was closed once;
* `handles_owned`: every run in which no stream socket is connected again keeps that;
* `second_connect_leaks`: a run in which one is.
-/

namespace WebTos.Net

open Lib List Option Function World HostBroker

/-- The descriptor tables, and the guest's sockets behind them.  A socket has one description,
made by `sys_socket`, under the socket's number; those of other kinds have numbers of their
own.  A table that is gone is empty.  `closes` is ghost: the handles that `close` of the broker
was called with. -/
structure Owners where
  net : World
  tables : List Fd.FdTable
  closes : List Handle := []

/-- The calls that make, use, share and drop descriptors of the table `t`.  No `target` stands
for an address that does not parse or that the broker refuses, `other` for a descriptor of
another kind, and `exit` for the last task of the table. -/
inductive FdCall where
  | socket (t : ℕ) (kind : SocketKind) (cloexec : Bool)
  | other (t : ℕ) (cloexec : Bool)
  | connect (t fd : ℕ) (target : Option SocketAddrV4)
  | sendto (t fd : ℕ) (target : Option SocketAddrV4) (buf : Bytes)
  | dup (t fd min : ℕ) (cloexec : Bool)
  | dup2 (t fd newfd : ℕ) (cloexec : Bool)
  | fork (t : ℕ)
  | close (t fd : ℕ)
  | execve (t : ℕ)
  | exit (t : ℕ)
  deriving DecidableEq, Repr

/-- The handle that the command tells the worker to open. -/
def NetCommand.opening : NetCommand → Option Handle
  | .tcpConnect handle _ | .udpOpen handle => some handle
  | _ => none

/-- The broker has more than the last handle left, where its counter stays. -/
def HostBroker.HasRoom (b : HostBroker) : Prop := b.nextHandle.toNat + 1 < 2 ^ 64

instance (b : HostBroker) : Decidable b.HasRoom := Nat.decLt ..

namespace World

/-- The handles the broker gave out. -/
def given (w : World) : List Handle := w.broker.commands.filterMap NetCommand.opening

/-- The handle stored in a socket. -/
def handleOf (w : World) (s : ℕ) : Option Handle := (w.guest s).bind NetSocket.handle

end World

namespace Owners

/-- The table of a process. -/
def table (o : Owners) (t : ℕ) : Fd.FdTable := o.tables.getD t ⟨[]⟩

/-- Replaces a table. -/
def setTable (o : Owners) (t : ℕ) (table : Fd.FdTable) : Owners :=
  { o with tables := o.tables.set t table }

/-- Some table names the description. -/
def Named (o : Owners) (s : ℕ) : Prop := ∃ table ∈ o.tables, s ∈ table.descs

instance (o : Owners) (s : ℕ) : Decidable (o.Named s) :=
  inferInstanceAs (Decidable (∃ table ∈ o.tables, s ∈ table.descs))

/-- `Drop for Description`, for a socket that no table names any more. -/
def drop (o : Owners) (s : ℕ) : Owners :=
  match o.net.guest s with
  | none => o
  | some sock =>
    if o.Named s then o
    else { o with net := o.net.closeGuest s sock, closes := o.closes ++ sock.handle.toList }

/-- Every socket that no table names is dropped. -/
def sweep (o : Owners) : Owners := (List.range o.net.guests).foldl drop o

/-- `net_of`: the socket behind a descriptor. -/
def netOf (o : Owners) (t fd : ℕ) : Option ℕ :=
  match (o.table t).get fd with
  | .ok entry => if (o.net.guest entry.desc).isSome then some entry.desc else none
  | .error _ => none

/-- `install_fd`: a descriptor of the description with the number `s`. -/
def install (o : Owners) (t s : ℕ) (cloexec : Bool) : Owners :=
  o.setTable t ((o.table t).insert ⟨s, cloexec⟩).2

/-- A call of the guest on one of its sockets. -/
def onSocket (o : Owners) (t fd : ℕ) (target : Option SocketAddrV4)
    (call : ℕ → SocketAddrV4 → GuestCall) : Owners :=
  match o.netOf t fd, target with
  | some s, some target => { o with net := o.net.call (call s target) }
  | _, _ => o

/-- What a call does before descriptions are dropped. -/
def call (o : Owners) : FdCall → Owners
  | .socket t kind cloexec =>
    { o with net := o.net.call (.socket kind) }.install t o.net.guests cloexec
  | .other t cloexec =>
    { o with net := { o.net with guests := o.net.guests + 1 } }.install t o.net.guests cloexec
  | .connect t fd target => o.onSocket t fd target .connect
  | .sendto t fd target buf => o.onSocket t fd target fun s target => .sendto s target buf
  | .dup t fd min cloexec =>
    match (o.table t).get fd with
    | .ok entry => o.setTable t ((o.table t).insertFrom min ⟨entry.desc, cloexec⟩).2
    | .error _ => o
  | .dup2 t fd newfd cloexec =>
    match (o.table t).get fd with
    | .ok entry =>
      if newfd = fd then o
      else o.setTable t ((o.table t).insertAt newfd ⟨entry.desc, cloexec⟩).2
    | .error _ => o
  | .fork t => { o with tables := o.tables ++ [o.table t] }
  | .close t fd => o.setTable t ((o.table t).close fd).2
  | .execve t => o.setTable t (o.table t).closeCloexec
  | .exit t => o.setTable t ⟨[]⟩

/-- A call, and the descriptions it drops. -/
def step (o : Owners) (c : FdCall) : Owners := (o.call c).sweep

/-- The start: one process, with its three standard streams. -/
def start (gateway : Bool) : Owners where
  net := { gateway, guests := 3 }
  tables := [⟨[some ⟨0, false⟩, some ⟨1, false⟩, some ⟨2, false⟩]⟩]

/-- A live socket stores the handle. -/
def Holds (o : Owners) (h : Handle) : Prop := ∃ s, o.net.handleOf s = some h ∧ o.Named s

/-- **Handles are owned by sockets**: those given out and not closed are the ones that live
sockets store, and each of the others was closed once. -/
structure Owned (o : Owners) : Prop where
  held : ∀ h, (h ∈ o.net.given ∧ h ∉ o.closes) ↔ o.Holds h
  closed : ∀ h, h ∈ o.net.given → ¬ o.Holds h → o.closes.count h = 1
  unused : ∀ h, h ∉ o.net.given → h ∉ o.closes

/-- **The condition**: `connect` on a stream socket only before it has a handle, and a handle
left at the broker where one is given out. -/
def Careful (o : Owners) : FdCall → Prop
  | .connect t fd (some _) => ∀ s ∈ o.netOf t fd, ∀ sock ∈ o.net.guest s,
      (sock.kind = .tcp → sock.handle = none) ∧ (sock.handle = none → o.net.broker.HasRoom)
  | .sendto t fd (some _) _ => ∀ s ∈ o.netOf t fd, ∀ sock ∈ o.net.guest s,
      sock.kind = .udp → sock.handle = none → o.net.broker.HasRoom
  | _ => True

end Owners

/-! ### The invariant -/

/-- The handles, whatever the tables say: one socket stores each of those that are open. -/
structure Kept (w : World) (closes : List Handle) : Prop where
  below : ∀ h ∈ w.given, h.toNat < w.broker.nextHandle.toNat
  numbered : ∀ s, (w.guest s).isSome = true → s < w.guests
  held : ∀ h, (h ∈ w.given ∧ h ∉ closes) ↔ ∃ s, w.handleOf s = some h
  single : ∀ {s s' h}, w.handleOf s = some h → w.handleOf s' = some h → s = s'
  closed : ∀ h ∈ closes, h ∈ w.given
  once : closes.Nodup

/-- No handle is given out, and none is lost. -/
structure KeepsHandles (w w' : World) : Prop where
  given : w'.given = w.given
  next : w'.broker.nextHandle = w.broker.nextHandle
  handles : w'.handleOf = w.handleOf
  numbered : ∀ s, (w'.guest s).isSome = true → (w.guest s).isSome = true ∨ s < w'.guests
  guests : w.guests ≤ w'.guests

/-- The next handle is given to the socket `s`. -/
structure Grants (s : ℕ) (w w' : World) : Prop where
  given : w'.given = w.given ++ [w.broker.nextHandle]
  next : w'.broker.nextHandle = succHandle w.broker.nextHandle
  handles : ∀ s', w'.handleOf s' = if s' = s then some w.broker.nextHandle else w.handleOf s'
  numbered : ∀ s', (w'.guest s').isSome = true → (w.guest s').isSome = true
  guests : w'.guests = w.guests

section Worlds

variable {w w' : World} {closes : List Handle} {s : ℕ} {sock : NetSocket}

/-- A step that gives out nothing and loses nothing. -/
lemma Kept.of_keeps (h : Kept w closes) (hk : KeepsHandles w w') : Kept w' closes where
  below := by
    rw [hk.given, hk.next]
    exact h.below
  numbered := fun s hs => by
    rcases hk.numbered s hs with hold | hlt
    · exact (h.numbered s hold).trans_le hk.guests
    · exact hlt
  held := by
    rw [hk.given, hk.handles]
    exact h.held
  single := by
    rw [hk.handles]
    exact h.single
  closed := by
    rw [hk.given]
    exact h.closed
  once := h.once

/-- **A handle is given to a socket without one.** -/
lemma Kept.of_grants (h : Kept w closes) (hg : Grants s w w') (hnone : w.handleOf s = none)
    (hroom : w.broker.HasRoom) : Kept w' closes := by
  have hsucc : w'.broker.nextHandle.toNat = w.broker.nextHandle.toNat + 1 := by
    have hlt : w.broker.nextHandle.toNat + 1 < 2 ^ 64 := hroom
    rw [hg.next, succHandle, if_pos hlt, UInt64.toNat_add]
    exact Nat.mod_eq_of_lt hlt
  have hnew : w.broker.nextHandle ∉ w.given := fun hmem => lt_irrefl _ (h.below _ hmem)
  have hgiven : ∀ h', h' ∈ w'.given ↔ h' ∈ w.given ∨ h' = w.broker.nextHandle := by
    simp [hg.given]
  -- the next handle was never given out, so no socket has it
  have hfree : ∀ s', w.handleOf s' ≠ some w.broker.nextHandle := fun s' hs' =>
    hnew ((h.held _).mpr ⟨s', hs'⟩).1
  refine ⟨fun h' hh' => ?_, fun s' hs' => hg.guests ▸ h.numbered s' (hg.numbered s' hs'),
    fun h' => ?_, fun hs₁ hs₂ => ?_, fun h' hh' => (hgiven h').mpr (.inl (h.closed h' hh')), h.once⟩
  · rw [hsucc]
    rcases (hgiven h').mp hh' with hold | rfl
    · exact (h.below h' hold).trans (Nat.lt_succ_self _)
    · exact Nat.lt_succ_self _
  · rw [hgiven]
    by_cases heq : h' = w.broker.nextHandle
    · subst heq
      exact iff_of_true ⟨.inr rfl, fun hc => hnew (h.closed _ hc)⟩
        ⟨s, (hg.handles s).trans (if_pos rfl)⟩
    rw [or_iff_left heq, h.held]
    refine exists_congr fun s' => ?_
    rw [hg.handles]
    split_ifs with hs
    · rw [hs, hnone]
      simp [Ne.symm heq]
    · rfl
  · -- two sockets that share a handle share an old one
    rw [hg.handles] at hs₁ hs₂
    split_ifs at hs₁ hs₂ with h₁ h₂ h₂
    · exact h₁.trans h₂.symm
    · exact absurd (hs₂.trans hs₁.symm) (hfree _)
    · exact absurd (hs₁.trans hs₂.symm) (hfree _)
    · exact h.single hs₁ hs₂

lemma World.handleOf_setGuest (w : World) (s : ℕ) (sock : NetSocket) (s' : ℕ) :
    (w.setGuest s sock).handleOf s' = if s' = s then sock.handle else w.handleOf s' := by
  dsimp only [handleOf, setGuest]
  rw [update_apply]
  split_ifs <;> rfl

lemma World.isSome_setGuest (hsock : w.guest s = some sock) {sock' : NetSocket} {s' : ℕ}
    (h : ((w.setGuest s sock').guest s').isSome) : (w.guest s').isSome := by
  dsimp only [setGuest] at h
  rw [update_apply] at h
  split_ifs at h with hs
  · rw [hs, hsock]
    rfl
  · exact h

lemma KeepsHandles.setGuest (hsock : w.guest s = some sock) {sock' : NetSocket}
    (hhandle : sock'.handle = sock.handle) : KeepsHandles w (w.setGuest s sock') where
  given := rfl
  next := rfl
  handles := funext fun s' => by
    rw [handleOf_setGuest, hhandle]
    split_ifs with hs
    · rw [hs, handleOf, hsock]
      rfl
    · rfl
  numbered := fun s' hs' => .inl (isSome_setGuest hsock hs')
  guests := le_rfl

lemma KeepsHandles.withBroker {broker : HostBroker}
    (hgiven : broker.commands.filterMap NetCommand.opening = w.given)
    (hnext : broker.nextHandle = w.broker.nextHandle) : KeepsHandles w { w with broker } :=
  ⟨hgiven, hnext, rfl, fun _ hs => .inl hs, le_rfl⟩

lemma KeepsHandles.udpSendTo (w : World) (handle : Handle) (addr : SocketAddrV4) (bytes : Bytes) :
    KeepsHandles w { w with broker := (w.broker.udpSendTo handle addr bytes).2 } := by
  rw [HostBroker.udpSendTo, HostBroker.sendCommand]
  split
  · exact .withBroker rfl rfl
  · split
    · exact .withBroker rfl rfl
    · refine .withBroker ?_ rfl
      simp [push, NetCommand.opening, World.given]

/-- `adopt` stores the handle of the command that was pushed for it. -/
lemma Grants.adopt (hsock : w.guest s = some sock) {c : NetCommand}
    (hc : c.opening = some w.broker.nextHandle) (sock' : NetSocket) :
    Grants s w (w.adopt s sock' (.ok w.broker.nextHandle, w.broker.allocate.2.push c)) where
  given := by
    simp [World.adopt, World.given, World.setGuest, push, allocate,
      setEndpoint, hc]
  next := rfl
  handles := handleOf_setGuest _ s _
  numbered := fun s' hs' => isSome_setGuest hsock hs'
  guests := rfl

/-- `connect` opens an endpoint for a socket without one, or only notes the peer. -/
lemma Kept.connect (h : Kept w closes) (hsock : w.guest s = some sock)
    (htcp : sock.kind = .tcp → sock.handle = none)
    (hroom : sock.handle = none → w.broker.HasRoom) (target : SocketAddrV4) :
    Kept (w.connect s sock target) closes := by
  have hopen : ∀ {c : NetCommand}, c.opening = some w.broker.nextHandle → sock.handle = none →
      ∀ sock', Kept (w.adopt s sock' (.ok w.broker.nextHandle, w.broker.allocate.2.push c))
        closes := fun hc hnone sock' =>
    h.of_grants (.adopt hsock hc sock') (by rw [World.handleOf, hsock]; exact hnone) (hroom hnone)
  rw [World.connect]
  split
  · rename_i hkind
    exact hopen (c := .tcpConnect w.broker.nextHandle target) rfl (htcp hkind) _
  · dsimp only
    split_ifs with hnone
    · exact hopen (c := .udpOpen w.broker.nextHandle) rfl (isNone_iff_eq_none.mp hnone) _
    · exact h.of_keeps (.setGuest hsock rfl)

/-- `sendto` opens an endpoint where the socket has none yet. -/
lemma Kept.sendto (h : Kept w closes) (hsock : w.guest s = some sock)
    (hroom : sock.kind = .udp → sock.handle = none → w.broker.HasRoom) (target : SocketAddrV4)
    (buf : Bytes) : Kept (w.sendto s sock target buf) closes := by
  rw [World.sendto]
  split
  · exact h
  next hkind =>
    have hopened : Kept (if sock.handle.isNone then w.adopt s sock w.broker.udpOpen else w)
        closes := by
      split_ifs with hnone
      · have hnone' := isNone_iff_eq_none.mp hnone
        exact h.of_grants (.adopt (c := .udpOpen w.broker.nextHandle) hsock rfl sock)
          (by rw [handleOf, hsock]; exact hnone') (hroom hkind hnone')
      · exact h
    dsimp only
    split
    · exact hopened
    · exact hopened.of_keeps (.udpSendTo ..)

/-- A socket that is dropped, and what stays. -/
lemma World.closeGuest_frame (w : World) (s : ℕ) (sock : NetSocket) :
    (w.closeGuest s sock).given = w.given ∧
      (w.closeGuest s sock).broker.nextHandle = w.broker.nextHandle ∧
      (w.closeGuest s sock).guest = Function.update w.guest s none ∧
      (w.closeGuest s sock).guests = w.guests := by
  rw [closeGuest]
  cases sock.handle with
  | none => exact ⟨rfl, rfl, rfl, rfl⟩
  | some =>
    refine ⟨?_, ?_, rfl, rfl⟩ <;> dsimp only [given] <;> rw [close] <;> split_ifs <;>
      simp [push, NetCommand.opening]

/-- **A socket is dropped**, and its handle is closed. -/
lemma Kept.closeGuest (h : Kept w closes) (hsock : w.guest s = some sock) :
    Kept (w.closeGuest s sock) (closes ++ sock.handle.toList) := by
  obtain ⟨hgiven, hnext, hguest, hguests⟩ := w.closeGuest_frame s sock
  have hold : w.handleOf s = sock.handle := by
    rw [handleOf, hsock]
    rfl
  have hhandle : ∀ s', (w.closeGuest s sock).handleOf s' =
      if s' = s then none else w.handleOf s' := fun s' => by
    rw [handleOf, hguest, update_apply]
    split_ifs <;> rfl
  have hmem : ∀ h', h' ∈ closes ++ sock.handle.toList ↔
      h' ∈ closes ∨ w.handleOf s = some h' := by
    simp [hold]
  refine ⟨?_, fun s' hs' => ?_, fun h' => ?_, fun hs₁ hs₂ => ?_, fun h' hh' => ?_, ?_⟩
  · rw [hgiven, hnext]
    exact h.below
  · rw [hguest, update_apply] at hs'
    split_ifs at hs'
    · cases hs'
    · exact hguests ▸ h.numbered s' hs'
  · -- what stays open is what the other sockets store
    rw [hgiven, hmem, not_or, ← and_assoc, h.held]
    constructor
    · rintro ⟨⟨s', hs'⟩, hne⟩
      refine ⟨s', (hhandle s').trans ((if_neg ?_).trans hs')⟩
      rintro rfl
      exact hne hs'
    · rintro ⟨s', hs'⟩
      rw [hhandle] at hs'
      split_ifs at hs' with hs
      exact ⟨⟨s', hs'⟩, fun hm => hs (h.single hs' hm)⟩
  · rw [hhandle] at hs₁ hs₂
    split_ifs at hs₁ hs₂
    exact h.single hs₁ hs₂
  · rw [hgiven]
    rcases (hmem h').mp hh' with hc | hs
    · exact h.closed h' hc
    · exact ((h.held h').mpr ⟨s, hs⟩).1
  · -- the handle was open, so this is its first close
    refine h.once.append (by cases sock.handle <;> simp) fun h' hc hm => ?_
    rw [mem_toList, ← hold] at hm
    exact ((h.held h').mpr ⟨s, hm⟩).2 hc

end Worlds

/-! ### Runs -/

namespace Owners

variable {o : Owners} {s : ℕ}

lemma drop_tables (o : Owners) (s : ℕ) : (o.drop s).tables = o.tables := by
  rw [drop]
  split
  · rfl
  · split_ifs <;> rfl

/-- Dropping a socket changes no other, and leaves it only if some table names it. -/
lemma guest_of_drop {s' : ℕ} (h : ((o.drop s).net.guest s').isSome) :
    (o.net.guest s').isSome ∧ (s' = s → o.Named s) := by
  rw [drop] at h
  split at h
  · rename_i hnone
    refine ⟨h, fun hs => ?_⟩
    rw [hs, hnone] at h
    cases h
  · rename_i sock hsock
    split_ifs at h with hnamed
    · exact ⟨h, fun _ => hnamed⟩
    dsimp only at h
    rw [(o.net.closeGuest_frame s sock).2.2.1, update_apply] at h
    split_ifs at h with hs
    · cases h
    · exact ⟨h, fun heq => absurd heq hs⟩

lemma kept_drop (h : Kept o.net o.closes) (s : ℕ) : Kept (o.drop s).net (o.drop s).closes := by
  rw [drop]
  split
  · exact h
  · rename_i sock hsock
    split_ifs
    · exact h
    · exact h.closeGuest hsock

/-- What a sweep over some sockets leaves. -/
lemma foldl_drop (l : List ℕ) : ∀ {o : Owners}, Kept o.net o.closes →
    Kept (l.foldl drop o).net (l.foldl drop o).closes ∧ (l.foldl drop o).tables = o.tables ∧
      ∀ s, ((l.foldl drop o).net.guest s).isSome →
        (o.net.guest s).isSome ∧ (s ∈ l → o.Named s) := by
  induction l with
  | nil => exact fun h => ⟨h, rfl, fun _ hs => ⟨hs, fun hmem => absurd hmem not_mem_nil⟩⟩
  | cons s l ih =>
    intro o h
    obtain ⟨hkept, htables, hguest⟩ := ih (kept_drop h s)
    refine ⟨hkept, htables.trans (o.drop_tables s), fun s' hs' => ?_⟩
    obtain ⟨hold, hnamed⟩ := hguest s' hs'
    obtain ⟨hsome, hself⟩ := guest_of_drop hold
    refine ⟨hsome, fun hmem => ?_⟩
    -- the socket looked at now, or one looked at later
    rcases mem_cons.mp hmem with rfl | hmem
    · exact hself rfl
    · have hnamed' := hnamed hmem
      rwa [Named, o.drop_tables s] at hnamed'

section

variable (h : Kept o.net o.closes)
include h

/-- **After a sweep** every socket is live. -/
lemma sweep_spec : Kept o.sweep.net o.sweep.closes ∧
    ∀ s, (o.sweep.net.guest s).isSome → o.sweep.Named s := by
  obtain ⟨hkept, htables, hguest⟩ := foldl_drop (List.range o.net.guests) h
  refine ⟨hkept, fun s hs => ?_⟩
  obtain ⟨hsome, hnamed⟩ := hguest s hs
  have := hnamed (mem_range.mpr (h.numbered s hsome))
  rwa [Named, sweep, htables]

/-- Where every socket is live, the stored handles are those that live sockets store. -/
lemma owned_of_kept (hlive : ∀ s, (o.net.guest s).isSome → o.Named s) : o.Owned := by
  have hholds : ∀ h', o.Holds h' ↔ ∃ s, o.net.handleOf s = some h' := by
    refine fun h' => exists_congr fun s => and_iff_left_of_imp fun hs => hlive s ?_
    obtain ⟨sock, hsock, -⟩ := bind_eq_some_iff.mp hs
    rw [hsock]
    rfl
  refine ⟨fun h' => (h.held h').trans (hholds h').symm, fun h' hgiven hnot => ?_,
    fun h' hnot hclosed => hnot (h.closed h' hclosed)⟩
  refine count_eq_one_of_mem h.once ?_
  by_contra hopen
  exact hnot ((hholds h').mpr ((h.held h').mp ⟨hgiven, hopen⟩))

/-- A call on a descriptor that is no socket does nothing. -/
lemma kept_onSocket (t fd : ℕ) (target : Option SocketAddrV4) (call : ℕ → SocketAddrV4 → GuestCall)
    (hcall : ∀ s sock addr, target = some addr → o.netOf t fd = some s →
      o.net.guest s = some sock → Kept (o.net.call (call s addr)) o.closes) :
    Kept (o.onSocket t fd target call).net (o.onSocket t fd target call).closes := by
  unfold onSocket
  split
  · rename_i s addr hs
    cases hsock : o.net.guest s with
    | none =>
      rw [netOf] at hs
      split at hs
      · split_ifs at hs with hsome
        rw [some.inj hs, hsock] at hsome
        cases hsome
      · cases hs
    | some sock => exact hcall s sock addr rfl hs hsock
  · exact h

/-- **Every careful call keeps the handles owned.** -/
lemma kept_call {c : FdCall} (hc : o.Careful c) :
    Kept (o.call c).net (o.call c).closes := by
  cases c with
  | socket _ kind =>
    -- a new socket has a number no socket had
    have hnone : o.net.guest o.net.guests = none := by
      by_contra hsome
      exact lt_irrefl _ (h.numbered o.net.guests (isSome_iff_ne_none.mpr hsome))
    refine h.of_keeps ⟨rfl, rfl, funext fun s => ?_, fun s hs => ?_, Nat.le_succ _⟩
    · refine (handleOf_setGuest o.net _ _ s).trans ?_
      split_ifs with heq
      · rw [heq, handleOf, hnone]
        rfl
      · rfl
    · have hs' : (Function.update o.net.guest o.net.guests (some { kind }) s).isSome := hs
      rw [update_apply] at hs'
      split_ifs at hs' with heq
      · exact .inr (heq ▸ Nat.lt_succ_self _)
      · exact .inl hs'
  | other => exact h.of_keeps ⟨rfl, rfl, rfl, fun _ hs => .inl hs, Nat.le_succ _⟩
  | connect t fd target =>
    refine kept_onSocket h t fd target _ fun s sock addr htarget hs hsock => ?_
    subst htarget
    obtain ⟨htcp, hroom⟩ := hc s hs sock hsock
    rw [World.call, hsock]
    exact h.connect hsock htcp hroom addr
  | sendto t fd target buf =>
    refine kept_onSocket h t fd target _ fun s sock addr htarget hs hsock => ?_
    subst htarget
    rw [World.call, hsock]
    exact h.sendto hsock (hc s hs sock hsock) addr buf
  | dup =>
    rw [call]
    split <;> exact h
  | dup2 =>
    rw [call]
    split
    · split_ifs <;> exact h
    · exact h
  | fork | close | execve | exit => exact h

end

lemma kept_start (gateway : Bool) : Kept (start gateway).net (start gateway).closes where
  below := fun _ hmem => absurd hmem not_mem_nil
  numbered := fun _ hs => by cases hs
  held := fun _ => iff_of_false (fun hmem => absurd hmem.1 not_mem_nil) fun ⟨_, hs⟩ => by
    cases hs
  single := fun hs => by cases hs
  closed := fun _ hmem => absurd hmem not_mem_nil
  once := nodup_nil

/-- **Broker handles are owned by sockets**, in every run in which no stream socket that has a
handle is connected again and the broker has handles left. -/
theorem handles_owned (gateway : Bool) (cs : List FdCall)
    (hcs : Guarded step Careful (start gateway) cs) : (run step (start gateway) cs).Owned := by
  have hinv := @Guarded.invariant _ _ _ _
    (fun o => Kept o.net o.closes ∧ ∀ s, (o.net.guest s).isSome = true → o.Named s)
    (fun o c h hc => sweep_spec (kept_call h.1 hc)) _ cs
    ⟨kept_start gateway, fun s hs => by cases hs⟩ hcs
  exact owned_of_kept hinv.1 hinv.2

/-- A stream socket is connected, duplicated into a child, and closed by both. -/
def sharedSocket : List FdCall :=
  [.socket 0 .tcp false, .connect 0 3 (some ⟨0x7f000001, 80⟩), .fork 0, .close 0 3, .exit 1]

/-- The handle is closed once, with the last of the two descriptors. -/
theorem handles_owned_shared : (run step (start true) sharedSocket).closes = [1] ∧
    (run step (start true) sharedSocket).Owned := by
  refine ⟨by decide +kernel, handles_owned true sharedSocket ?_⟩
  refine ⟨trivial, ?_, trivial, trivial, trivial, trivial⟩
  simp only [Careful]
  decide +kernel

/-- A stream socket is connected twice. -/
def connectedTwice : List FdCall :=
  [.socket 0 .tcp false, .connect 0 3 (some ⟨0x7f000001, 80⟩),
    .connect 0 3 (some ⟨0x7f000001, 80⟩), .close 0 3]

/-- **The first handle is lost**: it was given out, no socket stores it, and it is never
closed. -/
theorem second_connect_leaks : (run step (start true) connectedTwice).net.given = [1, 2] ∧
    (run step (start true) connectedTwice).closes = [2] ∧
    ¬ (run step (start true) connectedTwice).Owned := by
  have hcloses : (run step (start true) connectedTwice).closes = [2] := by decide +kernel
  have hgiven : (run step (start true) connectedTwice).net.given = [1, 2] := by decide +kernel
  refine ⟨hgiven, hcloses, fun h => ?_⟩
  obtain ⟨s, hs, t, ht, hmem⟩ := (h.held 1).mp ⟨by rw [hgiven]; decide, by rw [hcloses]; decide⟩
  have hnone : ∀ t ∈ (run step (start true) connectedTwice).tables, ∀ s ∈ t.descs,
      (run step (start true) connectedTwice).net.handleOf s = none := by decide +kernel
  rw [hnone t ht s hmem] at hs
  cases hs

end Owners

end WebTos.Net
