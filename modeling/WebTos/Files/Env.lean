import WebTos.Fd.Objects

/-!
The environment as files see it: the filesystem, the descriptor tables of the tasks, and
the secrets the host mounted (`lib.rs`).

* `Env`: the heap and the tasks; of a task only what file calls read;
* `Env.openNodes`: the nodes some descriptor refers to;
* `Env.hostSecretForNode`, `Env.isHostSecretNode`, `Env.mountSecretHandle`: files whose
  bytes stay with the host;
* `Env.reclaimUnlinked`: frees the contents of files that have no name and are open
  nowhere, and forgets the secrets mounted on them.

One field of `Env` has no counterpart in the source and is read by no function:
`mounted`, the nodes that `mount_secret_handle` created in the filesystem now installed.
-/

namespace WebTos.Fd

/-- The node a backing refers to. -/
def Backing.node? : Backing → Option ℕ
  | .file node | .dir node _ => some node
  | _ => none

namespace Heap

/-- The nodes the descriptors of some tables refer to. -/
def openNodes (h : Heap) (live : List ℕ) : List ℕ :=
  (h.named live).filterMap fun d => (h.descs d).backing.node?

/-- `is_host_secret_node`. -/
def isHostSecretNode (h : Heap) (node : ℕ) : Bool := h.hostSecretNodes.contains node

/-- `host_secret_for_node`: the value, for the selected principal only. -/
def hostSecretForNode (h : Heap) (node : ℕ) : Option Bytes :=
  match h.hostSecretNodes[node]? with
  | none => none
  | some handle =>
    match h.hostSecretHandles[handle]? with
    | none => none
    | some secret => if h.agentPrincipal = some secret.principal then some secret.value else none

/-- The secret of a node is forgotten, with the handle behind it. -/
def forgetSecret (h : Heap) (node : ℕ) : Heap :=
  match h.hostSecretNodes[node]? with
  | some handle =>
    { h with
      hostSecretNodes := h.hostSecretNodes.erase node
      hostSecretHandles := h.hostSecretHandles.erase handle }
  | none => h

end Heap

end WebTos.Fd

namespace WebTos.Files

open Fd

/-- What file calls read of a task. -/
structure Task where
  fds : ℕ
  cwd : ℕ
  umask : ℕ
  pgid : ℕ
  deriving DecidableEq, Repr

/-- The environment. -/
structure Env where
  heap : Heap
  /-- The task in `env.proc`. -/
  cur : Task
  /-- That task is alive.  A dead one stays in `env.proc` until another is put there. -/
  alive : Bool
  parked : List Task
  stdioPty : Option ℕ
  /-- The pseudoterminals by their id. -/
  ptys : Std.TreeMap ℕ ℕ
  nextPtyId : ℕ
  rngState : UInt64
  /-- The bound of a `usize` of the host. -/
  usize : ℕ
  mounted : List ℕ

namespace Env

/-- The tables `reclaim_unlinked` looks at: the one of `env.proc` and those of the parked
tasks. -/
def tables (e : Env) : List ℕ := e.cur.fds :: e.parked.map Task.fds

/-- The table of the task on the CPU. -/
def table (e : Env) : FdTable := e.heap.tables e.cur.fds

/-- The environment with another filesystem. -/
def setVfs (e : Env) (v : Vfs) : Env := { e with heap := { e.heap with vfs := v } }

/-- The environment with another table for the task on the CPU. -/
def setTable (e : Env) (t : FdTable) : Env :=
  { e with heap := { e.heap with tables := Function.update e.heap.tables e.cur.fds t } }

/-- The environment with a description changed. -/
def setDesc (e : Env) (d : ℕ) (desc : Description) : Env :=
  { e with heap := { e.heap with descs := Function.update e.heap.descs d desc } }

/-- The descriptions that lost their last name are dropped. -/
def sweep (e : Env) : Env := { e with heap := e.heap.sweep e.tables }

/-- `reclaim_unlinked`.  A secret node out of range panics in the source. -/
def reclaimUnlinked (e : Env) : Env :=
  if e.heap.vfs.unlinked.isEmpty then e
  else
    let referenced := e.heap.openNodes e.tables
    let released := e.heap.hostSecretNodes.keys.filter fun node =>
      (e.heap.vfs.node node).nlink = 0 ∧ node ∉ referenced
    let e := e.setVfs (e.heap.vfs.releaseUnreferenced referenced)
    { e with heap := released.foldl Heap.forgetSecret e.heap }

/-- The refusals of `mount_secret_handle`, one for each text of the source. -/
inductive MountError where
  /-- "secret handle needs a non-empty agent principal" -/
  | needsPrincipal
  /-- "secret handle id space exhausted" -/
  | exhausted
  /-- "cannot mount secret at {path}: errno {errno}" -/
  | cannotMount (path : Bytes) (errno : Errno)
  deriving DecidableEq, Repr

/-- The entries of a mounted secret in the two maps. -/
def addSecret (e : Env) (node handle : ℕ) (secret : HostSecretHandle) : Env :=
  { e with
    heap := { e.heap with
      hostSecretHandles := e.heap.hostSecretHandles.insert handle secret
      hostSecretNodes := e.heap.hostSecretNodes.insert node handle }
    mounted := node :: e.mounted }

/-- `mount_secret_handle` before the final `reclaim_unlinked`, which is reached on
success: the handle, and the environment.  The number of a handle is used up even if the
marker cannot be added. -/
def mountSecretHandle (e : Env) (name : String) (value path : Bytes) (principal : String) :
    Except MountError ℕ × Env :=
  if principal.isEmpty then (.error .needsPrincipal, e)
  else
    let handle := e.heap.nextHostSecretHandle
    if 2 ^ 64 ≤ handle + 1 then (.error .exhausted, e)
    else
      let e := { e with heap := { e.heap with nextHostSecretHandle := handle + 1 } }
      match e.heap.vfs.addNode path (.file []) 0o400 with
      | (.error errno, v) => (.error (.cannotMount path errno), e.setVfs v)
      | (.ok node, v) => (.ok handle, (e.setVfs v).addSecret node handle ⟨name, value, principal⟩)

end Env

end WebTos.Files
