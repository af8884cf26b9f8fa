import WebTos.Files.Calls

/-!
What calls read of mounted secrets.

Two environments whose handles show the selected principal the same answer every call
alike, and their handles still do afterwards.

* `Vault`: the handles with the selected principal; `Vault.seen`: what that principal sees
  of a handle;
* `Heap.hostSecretForNode_withVault`: `host_secret_for_node` depends on what is seen, and
  every call reads handles through it: one lemma for each function;
* `Call.body_withVault`, `Call.exec_alike`: so for every call.
-/

namespace WebTos.Files

open Fd

/-- The handles, with the selected principal. -/
structure Vault where
  handles : Std.TreeMap ℕ HostSecretHandle
  principal : Option String

namespace Vault

/-- What the selected principal sees of a handle. -/
def seen (s : Vault) (handle : ℕ) : Option Bytes :=
  match s.handles[handle]? with
  | none => none
  | some secret => if s.principal = some secret.principal then some secret.value else none

/-- A handle is dropped. -/
def erase (s : Vault) (handle : ℕ) : Vault := { s with handles := s.handles.erase handle }

/-- A dropped handle shows nothing, and the others what they did. -/
lemma seen_erase (s : Vault) (handle k : ℕ) :
    (s.erase handle).seen k = if handle = k then none else s.seen k := by
  simp only [seen, erase, Std.TreeMap.getElem?_erase, compare_eq_iff_eq]
  by_cases hk : handle = k
  · rw [if_pos hk, if_pos hk]
  · rw [if_neg hk, if_neg hk]
    rfl

/-- The same principal is selected, and it sees the same. -/
structure Alike (s s' : Vault) : Prop where
  principal : s'.principal = s.principal
  seen : ∀ k, s'.seen k = s.seen k

lemma Alike.refl (s : Vault) : s.Alike s := ⟨rfl, fun _ => rfl⟩

lemma Alike.erase {s s' : Vault} (h : s.Alike s') (handle : ℕ) :
    (s.erase handle).Alike (s'.erase handle) :=
  ⟨h.principal, fun k => by rw [seen_erase, seen_erase, h.seen]⟩

end Vault

end WebTos.Files

namespace WebTos.Fd.Heap

open Files

variable {h : Heap} {s : Vault}

/-- The handles of the heap. -/
def vault (h : Heap) : Vault := ⟨h.hostSecretHandles, h.agentPrincipal⟩

/-- The heap with other handles. -/
def withVault (h : Heap) (s : Vault) : Heap :=
  { h with hostSecretHandles := s.handles, agentPrincipal := s.principal }

/-- A secret node shows what the principal sees of its handle. -/
lemma hostSecretForNode_eq (h : Heap) (node : ℕ) :
    h.hostSecretForNode node = h.hostSecretNodes[node]?.bind h.vault.seen := by
  rw [hostSecretForNode]
  cases h.hostSecretNodes[node]? <;> rfl

/-- What the selected principal reads depends on what it sees of the handles. -/
lemma hostSecretForNode_withVault (hs : h.vault.Alike s) (node : ℕ) :
    (h.withVault s).hostSecretForNode node = h.hostSecretForNode node := by
  have hseen : (h.withVault s).vault.seen = h.vault.seen := funext hs.seen
  rw [hostSecretForNode_eq, hostSecretForNode_eq, hseen]
  rfl

lemma sweep_withVault (live : List ℕ) :
    (h.withVault s).sweep live = (h.sweep live).withVault s := by
  refine List.foldl_hom (withVault · s) fun h d => ?_
  rw [dropDescription, dropDescription]
  dsimp only [withVault]
  split <;> rfl

/-- A secret that is forgotten is forgotten behind both sets of handles. -/
lemma forgetSecret_withVault (hs : h.vault.Alike s) (node : ℕ) :
    ∃ s', (h.withVault s).forgetSecret node = (h.forgetSecret node).withVault s' ∧
      (h.forgetSecret node).vault.Alike s' := by
  rw [forgetSecret, forgetSecret]
  dsimp only [withVault]
  split
  · next handle _ => exact ⟨s.erase handle, rfl, hs.erase handle⟩
  · exact ⟨s, rfl, hs⟩

/-- So for a list of nodes, one after the other. -/
lemma forgetAll_withVault : ∀ (nodes : List ℕ) {h : Heap} {s : Vault}, h.vault.Alike s →
    ∃ s', nodes.foldl forgetSecret (h.withVault s) = (nodes.foldl forgetSecret h).withVault s' ∧
      (nodes.foldl forgetSecret h).vault.Alike s'
  | [], _, s, hs => ⟨s, rfl, hs⟩
  | node :: nodes, h, s, hs => by
      obtain ⟨s₁, heq, hs₁⟩ := forgetSecret_withVault hs node
      rw [List.foldl_cons, List.foldl_cons, heq]
      exact forgetAll_withVault nodes hs₁

end WebTos.Fd.Heap

namespace WebTos.Files

open Fd

/-- The environment with other handles. -/
def Env.withVault (e : Env) (s : Vault) : Env := { e with heap := e.heap.withVault s }

/-- The handles `s` show the selected principal what those of the environment do. -/
def Env.Hides (e : Env) (s : Vault) : Prop := e.heap.vault.Alike s

/-- A call up to its answer, with the handles of its environment replaced. -/
def Done.withVault (d : Done) (s : Vault) : Done := { d with env := d.env.withVault s }

namespace Env

variable {e : Env} {s : Vault}

lemma Hides.openNode (hs : e.Hides s) (resolved : Resolved) (flags mode : ℕ) :
    (e.openNode resolved flags mode).2.Hides s := by
  rw [Env.openNode]
  repeat' split
  all_goals exact hs

/-- A result, with the handles of its environment replaced. -/
def liftVault {α : Type} (s : Vault) (r : α × Env) : α × Env := (r.1, r.2.withVault s)

lemma sweep_withVault : (e.withVault s).sweep = e.sweep.withVault s := by
  have hheap : (e.withVault s).heap.sweep (e.withVault s).tables
      = (e.heap.sweep e.tables).withVault s := Heap.sweep_withVault _
  simp only [sweep, hheap]
  rfl

@[simp] lemma vfs_withVault : (e.withVault s).heap.vfs = e.heap.vfs := rfl

@[simp] lemma next_withVault : (e.withVault s).heap.next = e.heap.next := rfl

@[simp] lemma table_withVault : (e.withVault s).table = e.table := rfl

@[simp] lemma isHostSecretNode_withVault (node : ℕ) :
    (e.withVault s).heap.isHostSecretNode node = e.heap.isHostSecretNode node := rfl

variable (fd : ℕ)

@[simp] lemma descOf_withVault : (e.withVault s).descOf fd = e.descOf fd := rfl

variable (dirfd : Option ℕ)

@[simp] lemma dirOf_withVault : (e.withVault s).dirOf dirfd = e.dirOf dirfd := by
  cases dirfd <;> rfl

@[simp] lemma resolveAt_withVault (path : Bytes) (follow : Bool) :
    (e.withVault s).resolveAt dirfd path follow = e.resolveAt dirfd path follow := by
  rw [resolveAt, resolveAt, dirOf_withVault, vfs_withVault]

lemma hostSecretForNode_withVault (hs : e.Hides s) (node : ℕ) :
    (e.withVault s).heap.hostSecretForNode node = e.heap.hostSecretForNode node :=
  Heap.hostSecretForNode_withVault hs node

/-! ### Opening -/

/-- A new descriptor does not depend on the handles. -/
lemma installDesc_withVault {e' : Env} (he : e' = e.withVault s) (desc : Description)
    (cloexec : Bool) : e'.installDesc desc cloexec = liftVault s (e.installDesc desc cloexec) := by
  have hnew : (e.withVault s).newDesc desc = (e.newDesc desc).withVault s := rfl
  rw [he, installDesc, installDesc, hnew, table_withVault, next_withVault]
  generalize FdTable.insert (table _) _ = inserted
  obtain ⟨_ | fd, t⟩ := inserted
  · exact congrArg (Prod.mk _) (sweep_withVault (e := (e.newDesc desc).setTable t))
  · rfl

lemma openSlave_withVault (pty : ℕ) (viaPts : Bool) (flags : ℕ) :
    (e.withVault s).openSlave pty viaPts flags = liftVault s (e.openSlave pty viaPts flags) := by
  rw [openSlave, openSlave]
  exact installDesc_withVault (by rfl) _ _

lemma openNode_withVault (resolved : Resolved) (flags mode : ℕ) :
    (e.withVault s).openNode resolved flags mode
      = liftVault s (e.openNode resolved flags mode) := by
  rw [openNode, openNode]
  cases resolved.node with
  | some | none => dsimp only; split <;> rfl

/-- Whether a secret opens depends on what its principal sees. -/
lemma openBacking_withVault (hs : e.Hides s) (node flags : ℕ) :
    (e.withVault s).openBacking node flags = liftVault s (e.openBacking node flags) := by
  rw [openBacking, openBacking]
  simp only [vfs_withVault, isHostSecretNode_withVault, hostSecretForNode_withVault hs]
  cases (e.heap.vfs.node node).kind with
  | dir =>
    dsimp only
    split
    · rfl
    · exact installDesc_withVault (by rfl) _ _
  | symlink => rfl
  | charDev dev =>
    cases dev with
    | ptmx => exact installDesc_withVault (by rfl) _ _
    | _ => exact installDesc_withVault rfl _ _
  -- a secret opens only if its principal sees the value
  | file data | chunkedFile file =>
    dsimp only
    split
    · rfl
    split
    · rfl
    split <;> exact installDesc_withVault (by rfl) _ _

/-- `openat` reads handles only when it opens a secret. -/
lemma sysOpenat_withVault (hs : e.Hides s) (dirfd : Option ℕ) (path : Bytes) (flags mode : ℕ) :
    (e.withVault s).sysOpenat dirfd path flags mode
      = liftVault s (e.sysOpenat dirfd path flags mode) := by
  rw [sysOpenat, sysOpenat, resolveAt_withVault]
  cases e.resolveAt dirfd path (!has flags O_NOFOLLOW) with
  | error errno => rfl
  | ok resolved =>
    have htty : (e.withVault s).controllingTty resolved = e.controllingTty resolved := rfl
    have hpts : (e.withVault s).ptsSlave resolved = e.ptsSlave resolved := rfl
    dsimp only
    rw [htty, hpts, openNode_withVault]
    cases e.controllingTty resolved with
    | some pty => exact openSlave_withVault _ _ _
    | none =>
      match e.ptsSlave resolved with
      | some (some pty) => exact openSlave_withVault _ _ _
      | some none => rfl
      | none =>
        -- the node may be new: the handles are those from before
        have hsame : (e.openNode resolved flags mode).2.Hides s := hs.openNode _ _ _
        generalize e.openNode resolved flags mode = opened at hsame ⊢
        obtain ⟨_ | node, e'⟩ := opened
        · rfl
        · exact openBacking_withVault hsame node flags

/-! ### Reading and writing -/

lemma randomBytes_withVault (len : ℕ) :
    (e.withVault s).randomBytes len = liftVault s (e.randomBytes len) := by
  rw [randomBytes, randomBytes]
  exact @List.foldl_hom _ _ _ (liftVault s) _ _ _ ([], e) fun _ _ => rfl

/-- A file's bytes: a secret's are those its principal sees. -/
lemma readFileAt_withVault (hs : e.Hides s) (node offset len : ℕ) :
    (e.withVault s).readFileAt node offset len = e.readFileAt node offset len := by
  rw [readFileAt, readFileAt, isHostSecretNode_withVault, hostSecretForNode_withVault hs,
    vfs_withVault]

/-- Reading: only a file can be a secret. -/
lemma readBacking_withVault (hs : e.Hides s) (desc : Description) (len : ℕ) :
    (e.withVault s).readBacking desc len = liftVault s (e.readBacking desc len) := by
  rw [readBacking, readBacking]
  simp only [readFileAt_withVault hs, randomBytes_withVault]
  cases desc.backing with
  | std stream => cases stream <;> rfl
  | dev dev => cases dev <;> rfl
  | file node =>
    dsimp only
    cases e.readFileAt node desc.offset len <;> rfl
  | inotify inner =>
    have hinner : (e.withVault s).heap.inotifys = e.heap.inotifys := rfl
    dsimp only
    rw [hinner]
    cases ((e.heap.inotifys inner).readInotify len).1 <;> rfl
  | _ => rfl

/-- What a read returns of a secret is what its principal sees. -/
lemma sysRead_withVault (hs : e.Hides s) (fd count : ℕ) :
    (e.withVault s).sysRead fd count = liftVault s (e.sysRead fd count) := by
  rw [sysRead, sysRead, descOf_withVault]
  cases e.descOf fd with
  | error => rfl
  | ok =>
    dsimp only
    split
    · rfl
    rw [readBacking_withVault hs]
    generalize e.readBacking _ _ = r
    obtain ⟨_ | read, e'⟩ := r <;> rfl

lemma sysPread_withVault (hs : e.Hides s) (fd count pos : ℕ) :
    (e.withVault s).sysPread fd count pos = liftVault s (e.sysPread fd count pos) := by
  rw [sysPread, sysPread, descOf_withVault]
  cases e.descOf fd with
  | error => rfl
  | ok found =>
    dsimp only
    rw [readBacking_withVault hs]
    generalize e.readBacking _ _ = r
    cases found.2.backing with
    | file => obtain ⟨_ | read, e'⟩ := r <;> rfl
    | _ => rfl

/-- A secret is not written to, whatever its value. -/
lemma writeFileAt_withVault (node offset : ℕ) (append : Bool) (bytes : Bytes) :
    (e.withVault s).writeFileAt node offset append bytes
      = liftVault s (e.writeFileAt node offset append bytes) := by
  have husize : ∀ v : Vfs, ((e.withVault s).setVfs v).usize = (e.setVfs v).usize := fun _ => rfl
  rw [writeFileAt, writeFileAt, isHostSecretNode_withVault, vfs_withVault]
  split
  · rfl
  cases e.heap.vfs.materializeFile node with
  | error => rfl
  | ok r =>
    dsimp only
    rw [husize]
    generalize (if append = true then r.1.length else offset) = start
    split
    · rfl
    cases Vfs.reserve _ _ <;> rfl

lemma writeBacking_withVault (desc : Description) (bytes : Bytes) :
    (e.withVault s).writeBacking desc bytes = liftVault s (e.writeBacking desc bytes) := by
  rw [writeBacking, writeBacking]
  split
  · rfl
  cases desc.backing with
  | std stream => cases stream <;> rfl
  | dev dev => cases dev <;> rfl
  | file => exact writeFileAt_withVault _ _ _ _
  | _ => rfl

@[simp] lemma writeStop_withVault (desc : Description) :
    (e.withVault s).writeStop desc = e.writeStop desc := rfl

@[simp] lemma waitToMaterialize_withVault (node : ℕ) :
    (e.withVault s).waitToMaterialize node = e.waitToMaterialize node := rfl

/-- Writes do not look at the handles. -/
lemma sysWrite_withVault (bytes : SysResult Bytes) :
    (e.withVault s).sysWrite fd bytes = liftVault s (e.sysWrite fd bytes) := by
  rw [sysWrite, sysWrite, descOf_withVault]
  cases e.descOf fd with
  | error => rfl
  | ok found =>
    dsimp only
    rw [writeStop_withVault]
    cases e.writeStop found.2 with
    | some => rfl
    | none =>
      cases bytes with
      | error => rfl
      | ok =>
        dsimp only
        rw [writeBacking_withVault]
        rfl

lemma sysPwrite_withVault (bytes : SysResult Bytes) (pos : ℕ) :
    (e.withVault s).sysPwrite fd bytes pos = liftVault s (e.sysPwrite fd bytes pos) := by
  rw [sysPwrite, sysPwrite, descOf_withVault]
  cases e.descOf fd with
  | error => rfl
  | ok found =>
    dsimp only
    cases found.2.backing with
    | file node =>
      dsimp only
      rw [waitToMaterialize_withVault]
      cases e.waitToMaterialize node with
      | some => rfl
      | none =>
        cases bytes with
        | error => rfl
        | ok =>
          dsimp only
          rw [writeBacking_withVault]
          rfl
    | _ => rfl

/-- A secret has a fixed length; whether a node is one does not depend on the handles. -/
lemma sysFtruncate_withVault (fd length : ℕ) :
    (e.withVault s).sysFtruncate fd length = liftVault s (e.sysFtruncate fd length) := by
  rw [sysFtruncate, sysFtruncate, descOf_withVault]
  split
  · rfl
  cases e.descOf fd with
  | error => rfl
  | ok found =>
    dsimp only
    cases writes found.2.flags with
    | false => rfl
    | true =>
      cases found.2.backing with
      | file node =>
        dsimp only
        rw [isHostSecretNode_withVault, waitToMaterialize_withVault, vfs_withVault]
        split
        · rfl
        cases e.waitToMaterialize node with
        | some => rfl
        | none =>
          cases e.heap.vfs.materializeFile node with
          | error => rfl
          | ok r =>
            dsimp only
            cases Vfs.reserve _ _ <;> rfl
      | _ => rfl

/-- The end of a file: a secret's is that of what its principal sees. -/
lemma seekSize_withVault (hs : e.Hides s) (backing : Fd.Backing) :
    (e.withVault s).seekSize backing = e.seekSize backing := by
  cases backing with
  | file =>
    simp only [seekSize, isHostSecretNode_withVault, hostSecretForNode_withVault hs,
      vfs_withVault]
  | _ => rfl

/-- The end of a secret is the length of what its principal sees. -/
lemma sysLseek_withVault (hs : e.Hides s) (fd offset whence : ℕ) :
    (e.withVault s).sysLseek fd offset whence = liftVault s (e.sysLseek fd offset whence) := by
  rw [sysLseek, sysLseek, descOf_withVault]
  cases e.descOf fd with
  | error => rfl
  | ok =>
    simp only [seekSize_withVault hs]
    split
    · split <;> rfl
    cases e.seekSize _ with
    | error => rfl
    | ok =>
      dsimp only
      split
      · rfl
      · split <;> rfl

/-! ### Looking -/

/-- The size `stat` shows: a secret's is that of what its principal sees. -/
lemma statOfNode_withVault (hs : e.Hides s) (node : ℕ) :
    (e.withVault s).statOfNode node = e.statOfNode node := by
  rw [statOfNode, statOfNode, hostSecretForNode_withVault hs, vfs_withVault]

/-- A directory listing shows no handle. -/
lemma sysGetdents64_withVault (fd count : ℕ) :
    (e.withVault s).sysGetdents64 fd count = liftVault s (e.sysGetdents64 fd count) := by
  rw [sysGetdents64, sysGetdents64, descOf_withVault, vfs_withVault]
  cases e.descOf fd with
  | error => rfl
  | ok found =>
    dsimp only
    cases found.2.backing with
    | dir node cookie =>
      dsimp only
      cases list e.heap.vfs node with
      | error => rfl
      | ok entries =>
        dsimp only
        cases direntsFrom e.heap.vfs count [] cookie (entries.drop cookie) <;> rfl
    | _ => rfl

/-! ### `sendfile` and mappings -/

/-- The target of a `sendfile` is written to, so its handle is not looked at. -/
lemma sendChunk_withVault (outFd : ℕ) (chunk : Bytes) :
    (e.withVault s).sendChunk outFd chunk = liftVault s (e.sendChunk outFd chunk) := by
  rw [sendChunk, sendChunk, descOf_withVault]
  cases e.descOf outFd with
  | error => rfl
  | ok found =>
    have hwrite := writeBacking_withVault (e := e) (s := s) found.2 chunk
    dsimp only
    split
    · rfl
    split
    · have hpipes : (e.withVault s).heap.pipes = e.heap.pipes := rfl
      rw [hpipes]
      split
      · rfl
      · split <;> rfl
    rw [hwrite]
    generalize e.writeBacking _ _ = w
    obtain ⟨⟨_ | n, offset⟩, e'⟩ := w <;> rfl

/-- `sendfile` reads as `read` does. -/
lemma sysSendfile_withVault (hs : e.Hides s) (outFd inFd : ℕ) (offset : Option (SysResult ℕ))
    (count : ℕ) : (e.withVault s).sysSendfile outFd inFd offset count
      = liftVault s (e.sysSendfile outFd inFd offset count) := by
  simp only [sysSendfile, descOf_withVault, readFileAt_withVault hs, sendChunk_withVault]
  cases e.descOf inFd with
  | error => rfl
  | ok found =>
    dsimp only
    split
    · rfl
    · next offset' _ _ =>
        cases e.readFileAt _ offset' (min count SENDFILE_LIMIT) with
        | error err => rfl
        | ok chunk =>
          cases chunk with
          | nil => rfl
          | cons b chunk =>
            dsimp only
            generalize e.sendChunk outFd (b :: chunk) = sent
            obtain ⟨_ | written, e'⟩ := sent
            · rfl
            · dsimp only [liftVault]
              split <;> rfl
    · rfl

lemma syncSharedRange_withVault (node offset : ℕ) (bytes : Bytes) :
    (e.withVault s).syncSharedRange node offset bytes
      = (e.syncSharedRange node offset bytes).withVault s := by
  rw [syncSharedRange, syncSharedRange, vfs_withVault]
  split <;> rfl

/-! ### Names -/

/-- Operations on the tree below a directory descriptor. -/
lemma atDir_withVault {α : Type} (f : ℕ → SysResult α × Vfs) :
    (e.withVault s).atDir dirfd f = liftVault s (e.atDir dirfd f) := by
  rw [atDir, atDir, dirOf_withVault]
  cases e.dirOf dirfd with
  | error => rfl
  | ok base =>
    dsimp only
    generalize f base = r
    obtain ⟨_ | a, v⟩ := r <;> rfl

lemma sysLinkat_withVault (oldDirfd : Option ℕ) (oldPath : Bytes) (newDirfd : Option ℕ)
    (newPath : Bytes) : (e.withVault s).sysLinkat oldDirfd oldPath newDirfd newPath
      = liftVault s (e.sysLinkat oldDirfd oldPath newDirfd newPath) := by
  rw [sysLinkat, sysLinkat, dirOf_withVault]
  cases e.dirOf oldDirfd with
  | error => rfl
  | ok => exact atDir_withVault _ _

lemma touchAt_withVault (path : Bytes) (follow : Bool) (mode : ℕ → ℕ)
    (mtime : ℤ → ℤ) : (e.withVault s).touchAt dirfd path follow mode mtime
      = liftVault s (e.touchAt dirfd path follow mode mtime) := by
  rw [touchAt, touchAt, resolveAt_withVault]
  cases e.resolveAt dirfd path follow with
  | error => rfl
  | ok resolved => dsimp only; cases resolved.node <;> rfl

lemma touchFd_withVault (mode : ℕ → ℕ) (mtime : ℤ → ℤ) :
    (e.withVault s).touchFd fd mode mtime = liftVault s (e.touchFd fd mode mtime) := by
  rw [touchFd, touchFd, descOf_withVault]
  cases e.descOf fd with
  | error => rfl
  | ok found => dsimp only; cases found.2.backing.node? <;> rfl

lemma sysChdir_withVault (path : Bytes) :
    (e.withVault s).sysChdir path = liftVault s (e.sysChdir path) := by
  rw [sysChdir, sysChdir, resolveAt_withVault, vfs_withVault]
  cases e.resolveAt none path true with
  | error => rfl
  | ok resolved =>
    dsimp only
    cases resolved.node with
    | none => rfl
    | some => dsimp only; split <;> rfl

lemma sysFchdir_withVault :
    (e.withVault s).sysFchdir fd = liftVault s (e.sysFchdir fd) := by
  rw [sysFchdir, sysFchdir, dirOf_withVault]
  cases e.dirOf (some fd) <;> rfl

/-! ### Tasks -/

lemma refreshProcfs_withVault (path content : Bytes) (vouched : Bool) :
    (e.withVault s).refreshProcfs path content vouched
      = (e.refreshProcfs path content vouched).withVault s := by
  rw [refreshProcfs, refreshProcfs, vfs_withVault]
  generalize e.heap.vfs.takeFileContents path = taken
  obtain ⟨_ | data, v⟩ := taken
  · dsimp only
    split <;> rfl
  · rfl

lemma sysClose_withVault : (e.withVault s).sysClose fd = (e.sysClose fd).withVault s := by
  rw [sysClose, sysClose, table_withVault]
  generalize e.table.close fd = closed
  obtain ⟨_ | ⟨⟩, t⟩ := closed
  · rfl
  · exact congrArg (Done.mk _ · _) (sweep_withVault (e := e.setTable t))

lemma sysUnlinkat_withVault (path : Bytes) (rmdir : Bool) :
    (e.withVault s).sysUnlinkat dirfd path rmdir =
      (e.sysUnlinkat dirfd path rmdir).withVault s := by
  rw [sysUnlinkat, sysUnlinkat, resolveAt_withVault, vfs_withVault]
  cases e.resolveAt dirfd path false with
  | error => rfl
  | ok =>
    dsimp only
    generalize e.heap.vfs.unlink _ _ _ = r
    obtain ⟨_ | ⟨⟩, v⟩ := r <;> rfl

/-- A rename may displace a node, which is then swept in both environments. -/
lemma sysRenameat_withVault (oldDirfd : Option ℕ) (oldPath : Bytes) (newDirfd : Option ℕ)
    (newPath : Bytes) : (e.withVault s).sysRenameat oldDirfd oldPath newDirfd newPath
      = (e.sysRenameat oldDirfd oldPath newDirfd newPath).withVault s := by
  simp only [sysRenameat, resolveAt_withVault, vfs_withVault]
  cases e.resolveAt oldDirfd oldPath false with
  | error => rfl
  | ok old =>
    cases e.resolveAt newDirfd newPath false with
    | error => rfl
    | ok new =>
      dsimp only
      generalize e.heap.vfs.rename _ _ _ _ = r
      obtain ⟨_ | ⟨⟩, v⟩ := r <;> rfl

/-- The handles belong to the machine, not to a task. -/
lemma switch_withVault (index : ℕ) :
    (e.withVault s).switch index = (e.switch index).withVault s := by
  have hparked : (e.withVault s).parked = e.parked := rfl
  rw [switch, switch, hparked]
  cases e.parked[index]? with
  | none => rfl
  | some t =>
    exact sweep_withVault (e := { e with
      cur := t
      alive := true
      parked := e.parked.eraseIdx index ++ if e.alive then [e.cur] else [] })

/-- Forgetting the secrets of reclaimed files forgets the same ones. -/
lemma reclaimUnlinked_withVault (hs : e.Hides s) :
    ∃ s', (e.withVault s).reclaimUnlinked = e.reclaimUnlinked.withVault s' ∧
      e.reclaimUnlinked.Hides s' := by
  rw [reclaimUnlinked, reclaimUnlinked, vfs_withVault]
  split
  · exact ⟨s, rfl, hs⟩
  · next hwaiting =>
      obtain ⟨s', heq, hs'⟩ := Heap.forgetAll_withVault
        (e.heap.hostSecretNodes.keys.filter fun node =>
          (e.heap.vfs.node node).nlink = 0 ∧ node ∉ e.heap.openNodes e.tables)
        (h := (e.setVfs (e.heap.vfs.releaseUnreferenced (e.heap.openNodes e.tables))).heap) hs
      exact ⟨s', congrArg (fun h => { e with heap := h }) heq, hs'⟩

end Env

open Env

/-- Every call gives the same answer and the same environment but for the handles. -/
lemma Call.body_withVault {e : Env} {s : Vault} (hs : e.Hides s) (call : Call) :
    call.body (e.withVault s) = (call.body e).withVault s := by
  cases call with
  | openat =>
    rw [body, body, sysOpenat_withVault hs]
    rfl
  | procfs path content vouched => exact refreshProcfs_withVault path content vouched
  | close fd => exact sysClose_withVault fd
  | closeRange =>
    rw [body, body, sysCloseRange, sysCloseRange, table_withVault]
    split
    · rfl
    · exact congrArg (Done.mk _ · _) (sweep_withVault (e := e.setTable _))
  | dup fd =>
    rw [body, body, sysDup, sysDup, table_withVault]
    cases e.table.get fd <;> rfl
  | dup2 fd =>
    rw [body, body, sysDup2, sysDup2, table_withVault]
    cases e.table.get fd with
    | error => rfl
    | ok =>
      dsimp only
      split
      · rfl
      · exact congrArg (Done.mk _ · _) (sweep_withVault (e := e.setTable _))
  | setCloexec fd =>
    rw [body, body, Env.setCloexec, Env.setCloexec, Env.table_withVault]
    cases e.table.get fd <;> rfl
  | setStatusFlags fd arg =>
    rw [body, body, Env.setStatusFlags, Env.setStatusFlags, Env.descOf_withVault]
    cases e.descOf fd <;> rfl
  | read fd count => exact congrArg Done.of (sysRead_withVault hs fd count)
  | pread fd count pos => exact congrArg Done.of (sysPread_withVault hs fd count pos)
  | write fd bytes => exact congrArg Done.of (sysWrite_withVault fd bytes)
  | pwrite fd bytes pos => exact congrArg Done.of (sysPwrite_withVault fd bytes pos)
  | ftruncate fd length => exact congrArg Done.of (sysFtruncate_withVault fd length)
  | lseek fd offset whence => exact congrArg Done.of (sysLseek_withVault hs fd offset whence)
  -- what only looks answers from the same node and leaves the environment alone
  | fstat fd =>
    refine congrArg (fun a => Done.of (a, _)) ?_
    simp only [sysFstat, statOfFd, descOf_withVault, statOfNode_withVault hs]
    rfl
  | stat dirfd path follow =>
    refine congrArg (fun a => Done.of (a, _)) ?_
    simp only [sysStatpath, resolveAt_withVault, statOfNode_withVault hs]
    rfl
  | access dirfd path =>
    refine congrArg (fun a => Done.of (a, _)) ?_
    simp only [sysFaccessat, resolveAt_withVault]
    rfl
  | readlink dirfd path size =>
    refine congrArg (fun a => Done.of (a, _)) ?_
    simp only [sysReadlinkat, resolveAt_withVault, vfs_withVault]
    rfl
  | getdents fd count => exact congrArg Done.of (sysGetdents64_withVault fd count)
  | sendfile outFd inFd offset count =>
    exact congrArg Done.of (sysSendfile_withVault hs outFd inFd offset count)
  | mmap | fork | thread => rfl
  | sync node offset bytes =>
    exact congrArg (fun e => Done.of (_, e)) (syncSharedRange_withVault node offset bytes)
  | mkdir dirfd => exact congrArg Done.of (atDir_withVault dirfd _)
  | symlink _ dirfd => exact congrArg Done.of (atDir_withVault dirfd _)
  | link oldDirfd oldPath newDirfd newPath =>
    exact congrArg Done.of (sysLinkat_withVault oldDirfd oldPath newDirfd newPath)
  | unlink dirfd path rmdir => exact sysUnlinkat_withVault dirfd path rmdir
  | rename oldDirfd oldPath newDirfd newPath =>
    exact sysRenameat_withVault oldDirfd oldPath newDirfd newPath
  | touchAt dirfd path follow mode mtime =>
    exact congrArg Done.of (touchAt_withVault dirfd path follow mode mtime)
  | touchFd fd mode mtime => exact congrArg Done.of (touchFd_withVault fd mode mtime)
  | chdir path => exact congrArg Done.of (sysChdir_withVault path)
  | fchdir fd => exact congrArg Done.of (sysFchdir_withVault fd)
  | object =>
    rw [body, body, installDesc_withVault rfl]
    split <;> rfl
  -- the calls on tasks drop descriptions
  | execve =>
    exact congrArg (fun e => Done.of (_, e)) (sweep_withVault (e := e.setTable _))
  | exit siblings =>
    exact congrArg (fun e => Done.of (_, e)) (sweep_withVault (e := { e with
      alive := false, parked := survivors e.parked siblings }))
  | kill victims =>
    exact congrArg (fun e => Done.of (_, e)) (sweep_withVault (e := { e with
      parked := survivors e.parked victims }))
  | switch index => exact congrArg (fun e => Done.of (_, e)) (switch_withVault index)
  | other =>
    -- the rest of the kernel is given the environment without the handles
    have hblind : (e.withVault s).blinded = e.blinded := by
      change { e.blinded with agentPrincipal := s.principal } = e.blinded
      rw [hs.principal]
      rfl
    rw [body, body, Env.other, Env.other, hblind]
    rfl

/-- A guest call changes no handle. -/
lemma Call.vault_body (e : Env) (call : Call) : (call.body e).env.heap.vault = e.heap.vault := by
  have hown : call.body e = (call.body e).withVault e.heap.vault :=
    body_withVault (e := e) (Vault.Alike.refl _) call
  rw [hown]
  rfl

/-- **A call answers alike** under handles that show the selected principal the same. -/
lemma Call.exec_alike {e : Env} {s : Vault} (hs : e.Hides s) (call : Call) :
    ∃ s', call.exec (e.withVault s) = ((call.exec e).1, (call.exec e).2.withVault s') ∧
      (call.exec e).2.Hides s' := by
  have hbody : (call.body e).env.Hides s := by
    rw [Env.Hides, call.vault_body]
    exact hs
  rw [exec, exec, body_withVault hs]
  generalize call.body e = d at hbody ⊢
  obtain ⟨answer, env, _ | _⟩ := d
  · exact ⟨s, rfl, hbody⟩
  · obtain ⟨s', heq, hs'⟩ := reclaimUnlinked_withVault hbody
    exact ⟨s', congrArg (Prod.mk _) heq, hs'⟩

end WebTos.Files
