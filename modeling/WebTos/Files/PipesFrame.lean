import WebTos.Files.Pipes

/-!
What calls on files, descriptors and tasks leave alone: the buffers of pipes, and which nodes are
mounted secrets.

* `SameBuffers`, `Framed`: no buffer is changed, and no secret either;
* `Framed.sweep`: dropping the last name of a description changes the counts of a pipe, and
  not its bytes;
* `Framed.body`: the frame of every call that moves no bytes of a pipe;
* `SameBuffers.step`: the frame of a whole event of `Files.Env`.
-/

namespace WebTos.Files.Env

open Fd

/-- The secret nodes, and the nodes mounted in the filesystem now installed. -/
def secrets (e : Env) : Std.TreeMap ℕ ℕ × List ℕ := (e.heap.hostSecretNodes, e.mounted)

/-- Dropping descriptions forgets no secret. -/
lemma secrets_sweep {e : Env} : e.sweep.secrets = e.secrets := by
  have hfold (ds : List ℕ) (h : Heap) :
      (ds.foldl Heap.dropDescription h).hostSecretNodes = h.hostSecretNodes := by
    refine List.foldlRecOn (motive := fun h' : Heap => h'.hostSecretNodes = h.hostSecretNodes) ds _
      rfl fun h' ih d _ => ?_
    rw [Heap.dropDescription]
    split <;> exact ih
  simp only [secrets, sweep, Heap.sweep, hfold]

end WebTos.Files.Env

namespace WebTos.Pipes

open Files Fd

/-- No buffer is changed. -/
def SameBuffers (e e' : Env) : Prop := ∀ i, (e'.heap.pipes i).data = (e.heap.pipes i).data

namespace SameBuffers

variable {e e' e'' : Env}

lemma refl (e : Env) : SameBuffers e e := fun _ => rfl

lemma trans (h : SameBuffers e e') (h' : SameBuffers e' e'') : SameBuffers e e'' :=
  fun i => (h' i).trans (h i)

lemma of_pipes (h : e'.heap.pipes = e.heap.pipes) : SameBuffers e e' := fun i => by rw [h]

end SameBuffers

/-- No buffer is changed, and the same nodes are mounted secrets. -/
structure Framed (e e' : Env) : Prop where
  secrets : e'.secrets = e.secrets
  buffers : SameBuffers e e'

/-- A pipe that loses an end keeps its bytes. -/
lemma data_modifyPipe {h : Heap} {i : ℕ} {f : PipeInner → PipeInner}
    (hf : ∀ p, (f p).data = p.data) (j : ℕ) :
    ((h.modifyPipe i f).pipes j).data = (h.pipes j).data := by
  rw [Heap.modifyPipe]
  by_cases hj : j = i
  · rw [hj]
    dsimp only
    rw [Function.update_self]
    exact hf _
  · dsimp only
    rw [Function.update_of_ne hj]

/-- The last name of a pipe's end takes the end, not the bytes. -/
lemma data_dropDescription (h : Heap) (d i : ℕ) :
    ((h.dropDescription d).pipes i).data = (h.pipes i).data := by
  rw [Heap.dropDescription]
  split
  · refine data_modifyPipe ?_ i
    exact fun _ => rfl
  · refine data_modifyPipe ?_ i
    exact fun _ => rfl
  · refine (data_modifyPipe ?_ i).trans (data_modifyPipe ?_ i)
    · exact fun _ => rfl
    · exact fun _ => rfl
  · rfl
  · rfl
  · rfl

/-- So for any number of descriptions, whichever of them are ends of a pipe. -/
lemma data_foldl_drop (ds : List ℕ) (i : ℕ) (h : Heap) :
    ((ds.foldl Heap.dropDescription h).pipes i).data = (h.pipes i).data :=
  List.foldlRecOn (motive := fun h' : Heap => (h'.pipes i).data = (h.pipes i).data) ds _ rfl
    fun _ ih _ _ => (data_dropDescription ..).trans ih

namespace Framed

variable {e e' e'' : Env}

lemma refl (e : Env) : Framed e e := ⟨rfl, .refl e⟩

lemma trans (h : Framed e e') (h' : Framed e' e'') : Framed e e'' :=
  ⟨h'.secrets.trans h.secrets, h.buffers.trans h'.buffers⟩

/-- A first change that leaves both alone. -/
lemma after (h : Framed e' e'') (hs : e'.secrets = e.secrets) (hp : e'.heap.pipes = e.heap.pipes) :
    Framed e e'' :=
  ⟨h.secrets.trans hs, (SameBuffers.of_pipes hp).trans h.buffers⟩

lemma of_eq (hs : e'.secrets = e.secrets) (hp : e'.heap.pipes = e.heap.pipes) : Framed e e' :=
  ⟨hs, .of_pipes hp⟩

variable (e)

/-- **Dropping descriptions changes no buffer.** -/
lemma sweep : Framed e e.sweep :=
  ⟨Env.secrets_sweep, fun i => data_foldl_drop _ i e.heap⟩

/-- A full table drops the new description again. -/
lemma installDesc (desc : Description) (cloexec : Bool) :
    Framed e (e.installDesc desc cloexec).2 := by
  rw [Env.installDesc]
  split
  · exact of_eq rfl rfl
  · exact (sweep _).after rfl rfl

lemma setTable_sweep (t : FdTable) : Framed e (e.setTable t).sweep :=
  (sweep _).after rfl rfl

lemma openSlave (pty : ℕ) (viaPts : Bool) (flags : ℕ) :
    Framed e (e.openSlave pty viaPts flags).2 :=
  (installDesc _ _ _).after rfl rfl

lemma openPtmx (flags : ℕ) : Framed e (e.openPtmx flags).2 :=
  (installDesc _ _ _).after rfl rfl

lemma openNode (resolved : Resolved) (flags mode : ℕ) :
    Framed e (e.openNode resolved flags mode).2 := by
  rw [Env.openNode]
  split
  · split_ifs <;> exact refl e
  split_ifs
  · exact refl e
  · exact of_eq rfl rfl

/-- Opening a terminal or an ordinary file installs a description and touches no pipe. -/
lemma openBacking (node flags : ℕ) : Framed e (e.openBacking node flags).2 := by
  rw [Env.openBacking]
  split
  · split_ifs
    · exact refl e
    · exact installDesc _ _ _
  · split_ifs
    · exact refl e
    · exact refl e
    · exact (installDesc _ _ _).after rfl rfl
    · exact installDesc _ _ _
  · split_ifs
    · exact refl e
    · exact refl e
    · exact (installDesc _ _ _).after rfl rfl
    · exact installDesc _ _ _
  · exact openPtmx e flags
  · exact installDesc _ _ _
  · exact refl e

/-- `openat` may make a node, and opens one description. -/
lemma sysOpenat (dirfd : Option ℕ) (path : Bytes) (flags mode : ℕ) :
    Framed e (e.sysOpenat dirfd path flags mode).2 := by
  rw [Env.sysOpenat]
  cases e.resolveAt dirfd path (!has flags O_NOFOLLOW) with
  | error => exact refl e
  | ok resolved =>
    have hnode := openNode e resolved flags mode
    dsimp only
    split
    · exact openSlave e _ _ _
    split
    · exact openSlave e _ _ _
    · exact refl e
    split
    · rename_i he
      rwa [he] at hnode
    rename_i node e' he
    rw [he] at hnode
    exact hnode.trans (openBacking e' node flags)

/-- Reads other than those of a pipe move an offset, the random stream or a queue. -/
lemma readBacking (desc : Description) (len : ℕ) :
    Framed e (e.readBacking desc len).2 := by
  rw [Env.readBacking]
  split
  · exact refl e
  · exact refl e
  · dsimp only
    split <;> exact of_eq rfl rfl
  · split <;> exact refl e
  · exact refl e
  · exact refl e
  · exact List.foldlRecOn (motive := fun acc : Bytes × Env => Framed e acc.2) _ _ (refl e)
      fun _ h _ _ => h.trans (of_eq rfl rfl)
  · exact refl e
  · exact refl e

/-- A write to a file, within the storage budget or not. -/
lemma writeFileAt (node offset : ℕ) (append : Bool) (bytes : Bytes) :
    Framed e (e.writeFileAt node offset append bytes).2 := by
  rw [Env.writeFileAt]
  by_cases hsecret : e.heap.isHostSecretNode node
  · rw [if_pos hsecret]
    exact refl e
  rw [if_neg hsecret]
  cases e.heap.vfs.materializeFile node with
  | error => exact refl e
  | ok found =>
    dsimp only
    generalize (if append = true then found.1.length else offset) = start
    split
    · exact of_eq rfl rfl
    · split <;> exact of_eq rfl rfl

/-- Writes other than those of a pipe change a node or a terminal. -/
lemma writeBacking (desc : Description) (bytes : Bytes) :
    Framed e (e.writeBacking desc bytes).2 := by
  rw [Env.writeBacking]
  split_ifs
  · exact refl e
  split
  · exact refl e
  · exact refl e
  · exact of_eq rfl rfl
  · exact of_eq rfl rfl
  · exact refl e
  · exact writeFileAt e _ _ _ bytes
  · exact refl e
  · exact refl e

lemma sysRead (fd count : ℕ) : Framed e (e.sysRead fd count).2 := by
  rw [Env.sysRead]
  split
  · exact refl e
  split_ifs
  · exact refl e
  rename_i d desc _ _
  have hread := readBacking e desc (min count IO_LIMIT)
  split
  · rename_i he
    rwa [he] at hread
  rename_i he
  rw [he] at hread
  exact hread.trans (of_eq rfl rfl)

lemma sysPread (fd count pos : ℕ) : Framed e (e.sysPread fd count pos).2 := by
  rw [Env.sysPread]
  cases e.descOf fd with
  | error => exact refl e
  | ok found =>
    have hread := readBacking e { found.2 with offset := pos } (min count IO_LIMIT)
    dsimp only
    split
    · split
      · rename_i he
        rwa [he] at hread
      · rename_i he
        rwa [he] at hread
    · exact refl e

lemma sysWrite (fd : ℕ) (bytes : SysResult Bytes) :
    Framed e (e.sysWrite fd bytes).2 := by
  rw [Env.sysWrite]
  split
  · exact refl e
  split
  · exact refl e
  · exact refl e
  · exact (writeBacking e _ _).trans (of_eq rfl rfl)

lemma sysPwrite (fd : ℕ) (bytes : SysResult Bytes) (pos : ℕ) :
    Framed e (e.sysPwrite fd bytes pos).2 := by
  rw [Env.sysPwrite]
  split
  · exact refl e
  split
  · split
    · exact refl e
    · exact refl e
    · exact writeBacking e _ _
  · exact refl e

lemma sysFtruncate (fd length : ℕ) : Framed e (e.sysFtruncate fd length).2 := by
  rw [Env.sysFtruncate]
  split_ifs
  · exact refl e
  split
  · exact refl e
  split
  · split_ifs
    · exact refl e
    split
    · exact refl e
    · exact refl e
    · split <;> exact of_eq rfl rfl
  · exact refl e

lemma atDir {α : Type} (dirfd : Option ℕ) (f : ℕ → SysResult α × Vfs) :
    Framed e (e.atDir dirfd f).2 := by
  rw [Env.atDir]
  split
  · exact refl e
  · split <;> exact of_eq rfl rfl

lemma touch (e : Env) (dirfd : Option ℕ) (path : Bytes) (follow : Bool) (mode : ℕ → ℕ)
    (mtime : ℤ → ℤ) : Framed e (e.touchAt dirfd path follow mode mtime).2 := by
  rw [Env.touchAt]
  split
  · exact refl e
  · split <;> exact of_eq rfl rfl

lemma sysLseek (fd offset whence : ℕ) :
    Framed e (e.sysLseek fd offset whence).2 := by
  rw [Env.sysLseek]
  split
  · exact refl e
  split
  · split <;> exact of_eq rfl rfl
  split
  · exact refl e
  generalize (if whence = 0 then some (0 : ℤ) else _) = base
  cases base with
  | none => exact refl e
  | some =>
    dsimp only
    split_ifs <;> exact of_eq rfl rfl

/-- Another task runs: the buffers are those of the machine. -/
lemma switch (index : ℕ) : Framed e (e.switch index) := by
  rw [Env.switch]
  split
  · exact refl e
  · exact (sweep _).after rfl rfl

/-- **The calls on files and descriptors**, and what happens to tasks. -/
lemma body (call : Call) (h : World.movesNothing (.guest call)) :
    Framed e (call.body e).env := by
  cases call with
  -- the two calls that move bytes of a pipe are apart
  | sendfile => cases h
  | other => cases h
  | openat dirfd path flags mode => exact sysOpenat e dirfd path flags mode
  | read fd count => exact sysRead e fd count
  | pread fd count pos => exact sysPread e fd count pos
  | write fd bytes => exact sysWrite e fd bytes
  | pwrite fd bytes pos => exact sysPwrite e fd bytes pos
  | ftruncate fd length => exact sysFtruncate e fd length
  | touchAt dirfd path follow mode mtime => exact touch e dirfd path follow mode mtime
  -- what happens to tasks leaves the heap but for the tables they drop
  | thread | fork => exact of_eq rfl rfl
  | fstat | stat | access | readlink | mmap => exact refl e
  | execve => exact setTable_sweep e _
  | exit | kill => exact (sweep _).after rfl rfl
  | procfs =>
    rw [Call.body, Env.refreshProcfs]
    split
    · exact of_eq rfl rfl
    · split <;> exact of_eq rfl rfl
  -- a table that changes may drop the last reference to a description
  | close fd =>
    rw [Call.body, Env.sysClose]
    split
    · exact refl e
    · exact setTable_sweep e _
  | closeRange =>
    rw [Call.body, Env.sysCloseRange]
    split
    · exact refl e
    · exact setTable_sweep e _
  | dup =>
    rw [Call.body, Env.sysDup]
    split <;> exact of_eq rfl rfl
  | dup2 =>
    rw [Call.body, Env.sysDup2]
    split
    · exact refl e
    split_ifs
    · exact refl e
    · exact setTable_sweep e _
  | setCloexec =>
    rw [Call.body, Env.setCloexec]
    split <;> exact of_eq rfl rfl
  | setStatusFlags =>
    rw [Call.body, Env.setStatusFlags]
    split <;> exact of_eq rfl rfl
  | lseek fd offset whence => exact sysLseek e fd offset whence
  | getdents =>
    rw [Call.body, Env.sysGetdents64]
    repeat' split
    all_goals exact of_eq rfl rfl
  | sync =>
    rw [Call.body, Env.syncSharedRange]
    split <;> exact of_eq rfl rfl
  -- calls on the tree do not look at pipes
  | mkdir dirfd => exact atDir e dirfd _
  | symlink _ dirfd => exact atDir e dirfd _
  | link _ _ newDirfd =>
    rw [Call.body, Env.sysLinkat]
    split
    · exact refl e
    · exact atDir e newDirfd _
  | unlink =>
    rw [Call.body, Env.sysUnlinkat]
    split
    · exact refl e
    · split <;> exact of_eq rfl rfl
  | rename =>
    rw [Call.body, Env.sysRenameat]
    repeat' split
    all_goals exact of_eq rfl rfl
  | touchFd =>
    rw [Call.body, Env.touchFd]
    repeat' split
    all_goals exact of_eq rfl rfl
  | chdir =>
    rw [Call.body, Env.sysChdir]
    repeat' split
    all_goals exact of_eq rfl rfl
  | fchdir fd =>
    rw [Call.body, Env.sysFchdir]
    split <;> exact of_eq rfl rfl
  | object _ _ cloexec =>
    rw [Call.body]
    split
    · exact refl e
    · exact installDesc e _ cloexec
  | switch index => exact switch e index

variable {e}

end Framed

namespace SameBuffers

/-- Reclaiming files forgets secrets only. -/
lemma reclaimUnlinked (e : Env) : SameBuffers e e.reclaimUnlinked := by
  have hfold (nodes : List ℕ) (h : Heap) :
      (nodes.foldl Heap.forgetSecret h).pipes = h.pipes := by
    refine List.foldlRecOn (motive := fun h' : Heap => h'.pipes = h.pipes) nodes _ rfl
      fun h' ih i _ => ?_
    rw [← ih, Heap.forgetSecret]
    split <;> rfl
  rw [Env.reclaimUnlinked]
  split_ifs
  · exact refl e
  · exact of_pipes (hfold _ _)

/-- The host's calls change files and secrets. -/
lemma hostBody (e : Env) (call : HostCall) : SameBuffers e (call.body e).2 := by
  cases call with
  | addFile | addChunkedFile | setAgentPrincipal =>
    rw [HostCall.body]
    split <;> exact of_pipes rfl
  | createFile | addSymlink | mkdirP => exact of_pipes rfl
  | appendFile =>
    rw [HostCall.body, Env.appendFile]
    repeat' split
    all_goals exact of_pipes rfl
  | mountSecretHandle =>
    rw [HostCall.body, Env.mountSecretHandle]
    dsimp only
    repeat' split
    all_goals exact of_pipes rfl
  | importFs =>
    rw [HostCall.body, Env.importFs]
    split <;> exact of_pipes rfl
  | load => exact (of_pipes rfl : SameBuffers e _).trans (Framed.sweep _).buffers

/-- **No event on files, descriptors and tasks changes a buffer.** -/
lemma step (e : Env) (event : Files.Event) (h : World.movesNothing event) :
    SameBuffers e (e.step event) := by
  have hbody : SameBuffers e (event.body e).2 := by
    cases event with
    | host call => exact hostBody e call
    | guest call =>
      rw [Files.Event.body.eq_def]
      split
      · exact (Framed.switch e _).buffers
      · rename_i he
        obtain rfl := Files.Event.guest.inj he
        split_ifs
        · exact (Framed.body e call h).buffers
        · exact refl e
      · rename_i he
        cases he
  rw [Env.step]
  dsimp only
  split_ifs
  · exact hbody.trans (reclaimUnlinked _)
  · exact hbody

end SameBuffers

end WebTos.Pipes
