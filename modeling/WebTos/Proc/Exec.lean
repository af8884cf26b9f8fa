import WebTos.Proc.Deaths
import WebTos.Vfs.TreeRun
import WebTos.Mem.Tickets

/-!
`execve`, with the parts of a task that only its image knows (`syscall.rs`, `lib.rs`).

`Kernel.sysExecve` is the call as the scheduler sees it.  Here the rest of a task stands
beside it: its address-space id, its signal frames and alternate stack, its arguments.
Reading the three strings of the call from guest memory, and mapping an ELF file, are
outside the model (`Loader`).

* `TaskImage`, `Env`: the rest of the running task and of the parked ones;
* `Env.preflight`, `Env.startImage`, `Env.sysExecve`: the call from the checks before the
  point of no return to the new image;
* `Env.Replaced`: what a replaced process looks like;
* `Env.Bare`: the caller is the only task of its group, and has no handler running, no
  alternate stack and no tid to clear;
* `Env.replaced_iff_bare`: execve replaces the process exactly when the caller was bare.
-/

namespace WebTos.Proc


/-- What the scheduler does not read of a `Process`.  Threads share the cell `space`. -/
structure TaskImage (S : Type) where
  /-- The cell of `brk_end` and `mmap_next`. -/
  space : ℕ
  /-- The registers to restore when the handlers now running return, innermost last. -/
  signalSaved : List S
  altstack : Option (ℕ × ℕ)
  altstackDepth : ℕ
  altstackFrames : List Bool
  exePath : Bytes
  argv : List Bytes
  envp : List Bytes
  asid : ℕ
  deriving DecidableEq, Repr

namespace TaskImage

variable {S : Type}

/-- The fields of `Process::initial`. -/
def initial (space : ℕ) : TaskImage S := ⟨space, [], none, 0, [], [], [], [], 0⟩

/-- The fields of `fork_child`, with a copy of the space's cell and a new id. -/
def forkChild (t : TaskImage S) (space asid : ℕ) : TaskImage S :=
  { t with space, asid, signalSaved := [], altstackDepth := 0, altstackFrames := [] }

/-- The fields of `thread_sibling`. -/
def threadSibling (t : TaskImage S) : TaskImage S :=
  { t with signalSaved := [], altstack := none, altstackDepth := 0, altstackFrames := [] }

end TaskImage

/-- One file of a loaded program. -/
structure ElfPart where
  basePtr : ℕ
  length : ℕ
  entryPtr : ℕ
  deriving DecidableEq, Repr

/-- `LoadedElf`. -/
structure LoadedElf where
  binary : ElfPart
  interpreter : Option ElfPart
  deriving DecidableEq, Repr

/-- Where the image ends: the interpreter counts as part of it. -/
def LoadedElf.imageEnd (elf : LoadedElf) : ℕ :=
  let binary := elf.binary.basePtr + elf.binary.length
  match elf.interpreter with
  | none => binary
  | some interp => max binary (interp.basePtr + interp.length)

/-- The mapping of ELF files. -/
structure Loader (M : Type) where
  /-- `lazy_elf::prepare`: what it says of a file, and whether it waits for a chunk. -/
  prepare : Vfs → ℕ → Bytes → Except String Unit × Bool
  /-- `lazy_elf::load` for a chunked file and `load_elf` for a resident one, into a fresh
  address space. -/
  load : Bool → Vfs → ℕ → Bytes → Except String (M × LoadedElf)
  /-- `setup_stack`. -/
  setupStack : M → LoadedElf → List Bytes → List Bytes → Except String M

/-- The environment at an `execve`. -/
structure Env (M S : Type) where
  kernel : Kernel M
  /-- The rest of the running task. -/
  image : TaskImage S
  /-- The rest of the parked tasks, in the order of the queue. -/
  images : List (TaskImage S)
  /-- The cells of `brk_end` and `mmap_next`. -/
  spaces : ℕ → ℕ × ℕ
  pager : Pager
  /-- `NEXT_ASID`. -/
  nextAsid : ℕ

/-- How an `execve` ends. -/
inductive Execve (M S : Type) where
  /-- The call returns to the old image. -/
  | refused (errno : Errno)
  /-- A chunk is missing: the call is made again once it is there. -/
  | waits
  /-- The new image is entered. -/
  | replaced (env : Env M S)
  /-- The old image is gone and the new one failed: the task exits. -/
  | died (outcome : Outcome) (kernel : Kernel M)

namespace Env

variable {M S : Type}

/-- The first bytes of an ELF file. -/
def elfMagic : Bytes := [0x7f, 69, 76, 70]

/-- What the checks before the point of no return say. -/
inductive Preflight where
  /-- The file may be mapped; whether it is chunked. -/
  | run (chunked : Bool)
  | refuse (errno : Errno)
  | wait
  deriving DecidableEq, Repr

/-- `lazy_elf::prepare` on a chunked file. -/
def prepareLazy (L : Loader M) (v : Vfs) (cwd : ℕ) (path : Bytes) : Preflight :=
  match L.prepare v cwd path with
  | (.ok (), _) => .run true
  | (.error _, true) => .wait
  | (.error why, false) => .refuse (if why.startsWith "refused:" then .EACCES else .ENOEXEC)

/-- The checks before the point of no return. -/
def preflight (L : Loader M) (v : Vfs) (cwd : ℕ) (path : Bytes) : Preflight :=
  match v.resolve cwd path true with
  | .error errno => .refuse errno
  | .ok resolved =>
    match resolved.node with
    | none => .refuse .ENOENT
    | some node =>
      match (v.node node).kind with
      | .file data => if data.take 4 = elfMagic then .run false else .refuse .ENOEXEC
      | .chunkedFile file =>
        match v.readChunkedRange file 0 4 with
        | .ready bytes =>
          if bytes = elfMagic then prepareLazy L v cwd path else .refuse .ENOEXEC
        | .missing _ => .wait
        | .invalid _ => .refuse Errno.EIO
      | .dir _ => .refuse .EISDIR
      | .symlink _ | .charDev _ => .refuse .EACCES

/-- The name of the image: a relative path is put under the working directory. -/
def exePathOf (v : Vfs) (climbs cwd : ℕ) (path : Bytes) : Bytes :=
  if path.head? = some slash then path
  else
    let base := (v.absPathOf climbs cwd).getD [slash]
    (if base = [slash] then base else base ++ [slash]) ++ path

/-- `MMAP_BASE`. -/
def MMAP_BASE : ℕ := 0x1000000000

/-- `start_image`, past the emptying of the old address space: the memory of the new image
and what it changes of the task. -/
def startImage (L : Loader M) (e : Env M S) (climbs : ℕ) (chunked : Bool) (path : Bytes) :
    Except String (M × Env M S) :=
  let v := e.kernel.heap.vfs
  match L.load chunked v e.kernel.proc.cwd path with
  | .error why => .error why
  | .ok (memory, elf) =>
    let argv := if e.image.argv.isEmpty then [path] else e.image.argv
    match L.setupStack memory elf argv e.image.envp with
    | .error why => .error why
    | .ok memory =>
      .ok (memory, { e with
        image := { e.image with
          exePath := exePathOf v climbs e.kernel.proc.cwd path
          argv }
        spaces := Function.update e.spaces e.image.space
          (alignUp elf.imageEnd PAGE_SIZE + 0x100000, MMAP_BASE) })

/-- The point of no return: the new arguments, a new address-space id, and the lazy
mappings of the old one dropped. -/
def commit (e : Env M S) (argv envp : List Bytes) : Env M S :=
  { e with
    image := { e.image with argv, envp, asid := e.nextAsid }
    nextAsid := e.nextAsid + 1
    pager := e.pager.dropSpace e.image.asid }

/-- `sys_execve` with its strings read.  What happens to the running task and the queue is
`Kernel.sysExecve`. -/
def sysExecve [GuestMem M] (L : Loader M) (e : Env M S) (climbs : ℕ) (path : Bytes)
    (argv envp : List Bytes) : Execve M S :=
  match preflight L e.kernel.heap.vfs e.kernel.proc.cwd path with
  | .refuse errno => .refused errno
  | .wait => .waits
  | .run chunked =>
    match (e.commit argv envp).startImage L climbs chunked path with
    | .ok (memory, e') => .replaced { e' with kernel := (e.kernel.sysExecve memory true).2 }
    | .error _ =>
      let (outcome, kernel) := e.kernel.sysExecve GuestMem.empty false
      .died outcome kernel

/-! ### What is left of the old process -/

/-- The running task is all there is of its process, at the start of an image: it is alone
in its thread group and leads it, no parked task uses the address space `asid`, and of
an earlier image there are no signal frames, no alternate stack and no tid to clear. -/
structure Replaced (e : Env M S) (asid : ℕ) : Prop where
  single : ∀ t ∈ e.kernel.sched.parked, t.proc.tgid ≠ e.kernel.proc.tgid
  leader : e.kernel.proc.pid = e.kernel.proc.tgid
  space : ∀ t ∈ e.images, t.asid ≠ asid
  frames : e.image.signalSaved = [] ∧ e.kernel.proc.signalSavedMask = []
  altstack : e.image.altstack = none
  tid : e.kernel.proc.clearChildTid = 0

/-- The caller of `execve` has no sibling, parked or leading the group in its place, and
nobody else in its address space; it runs no signal handler, registered no alternate
stack and no tid to clear. -/
structure Bare (e : Env M S) : Prop where
  alone : e.kernel.sched.groupHasParked e.kernel.proc.tgid = false
  leads : e.kernel.proc.pid = e.kernel.proc.tgid
  unshared : e.images.all (fun t => t.asid != e.image.asid) = true
  noHandler : e.image.signalSaved = [] ∧ e.kernel.proc.signalSavedMask = []
  noStack : e.image.altstack = none
  noTid : e.kernel.proc.clearChildTid = 0

variable {path : Bytes} {climbs : ℕ} {L : Loader M} {e e' : Env M S}

/-- What a successful `execve` leaves of the environment. -/
lemma sysExecve_frame [GuestMem M] {argv envp : List Bytes}
    (h : e.sysExecve L climbs path argv envp = .replaced e') :
    e'.kernel.sched.parked = e.kernel.sched.parked ∧
      e'.kernel.proc = { e.kernel.proc with vforkDone := none } ∧
      e'.images = e.images ∧ e'.image.signalSaved = e.image.signalSaved ∧
      e'.image.altstack = e.image.altstack := by
  rw [sysExecve] at h
  split at h
  · cases h
  · cases h
  split at h
  · next memory e₁ hstart =>
      cases h
      rw [startImage] at hstart
      dsimp only at hstart
      split at hstart
      · cases hstart
      split at hstart
      · cases hstart
      obtain ⟨-, rfl⟩ := Prod.mk.inj (Except.ok.inj hstart)
      rw [Kernel.sysExecve, if_pos rfl, Kernel.releaseParent]
      -- of the caller all is left but the flag of a vfork parent
      cases e.kernel.proc.vforkDone <;> exact ⟨rfl, rfl, rfl, rfl, rfl⟩
  · cases h

/-- **A successful `execve` replaces the process exactly when its caller was bare**: it
ends no other thread and discards nothing of the caller's signal state. -/
theorem replaced_iff_bare [GuestMem M] (L : Loader M) (e e' : Env M S) (climbs : ℕ)
    (path : Bytes) (argv envp : List Bytes)
    (h : e.sysExecve L climbs path argv envp = .replaced e') :
    e'.Replaced e.image.asid ↔ e.Bare := by
  obtain ⟨hparked, hproc, himages, hsaved, hstack⟩ := sysExecve_frame h
  have halone : e.kernel.sched.groupHasParked e.kernel.proc.tgid = false ↔
      ∀ t ∈ e.kernel.sched.parked, t.proc.tgid ≠ e.kernel.proc.tgid := by
    simp [Scheduler.groupHasParked]
  have hspace : e.images.all (fun t => t.asid != e.image.asid) = true ↔
      ∀ t ∈ e.images, t.asid ≠ e.image.asid := by
    simp
  constructor
  · rintro ⟨single, leader, space, frames, altstack, tid⟩
    rw [hparked, hproc] at single
    rw [hproc] at leader frames tid
    rw [himages] at space
    rw [hsaved] at frames
    rw [hstack] at altstack
    exact ⟨halone.mpr single, leader, hspace.mpr space, frames, altstack, tid⟩
  · rintro ⟨alone, leads, unshared, noHandler, noStack, noTid⟩
    refine ⟨?_, ?_, ?_, ?_, ?_, ?_⟩
    · rw [hparked, hproc]
      exact halone.mp alone
    · rw [hproc]
      exact leads
    · rw [himages]
      exact hspace.mp unshared
    · rw [hsaved, hproc]
      exact noHandler
    · rw [hstack]
      exact noStack
    · rw [hproc]
      exact noTid

/-! One ELF file, and a loader that maps nothing. -/

/-- The loader for a memory that is never looked at. -/
def unitLoader : Loader Unit where
  prepare _ _ _ := (.ok (), false)
  load _ _ _ _ := .ok ((), ⟨⟨0x400000, 0x1000, 0x400000⟩, none⟩)
  setupStack _ _ _ _ := .ok ()

/-- The root process of a filesystem that holds the program `/p`, after some events. -/
def booted (es : List (Event Unit)) (images : List (TaskImage Unit)) : Env Unit Unit where
  kernel :=
    let k := (Kernel.new ()).load ()
    let v := (k.heap.vfs.addNode (ascii "/p") (.file elfMagic) 0o755).2
    Lib.run Kernel.step { k with heap := { k.heap with vfs := v } } es
  image := .initial 0
  images := images
  spaces _ := (0, MMAP_BASE)
  pager := .empty
  nextAsid := 1

/-- The root process as it was loaded. -/
def bootedRoot : Env Unit Unit := booted [] []

/-- The root process and the thread 1001 it started. -/
def bootedThread : Env Unit Unit :=
  booted [.syscall (.clone Kernel.threadSpec)] [(TaskImage.initial 0).threadSibling]

/-- With this loader a program that passes the checks is entered. -/
lemma sysExecve_unitLoader (e : Env Unit S) (path : Bytes) (argv envp : List Bytes)
    (h : preflight unitLoader e.kernel.heap.vfs e.kernel.proc.cwd path = .run false) :
    ∃ e', e.sysExecve unitLoader 0 path argv envp = .replaced e' ∧
      e'.kernel = (e.kernel.sysExecve () true).2 ∧ e'.images = e.images ∧
      e'.image.asid = e.nextAsid := by
  rw [sysExecve, h]
  exact ⟨_, rfl, rfl, rfl, rfl⟩

/-- A root process of one task is replaced. -/
theorem replaced_root :
    ∃ e', bootedRoot.sysExecve unitLoader 0 (ascii "/p") [ascii "/p"] [] = .replaced e' ∧
      e'.Replaced bootedRoot.image.asid := by
  obtain ⟨e', he', -⟩ :=
    sysExecve_unitLoader bootedRoot (ascii "/p") [ascii "/p"] [] (by decide +kernel)
  refine ⟨e', he', (replaced_iff_bare unitLoader bootedRoot e' 0 (ascii "/p") [ascii "/p"] []
    he').mpr ⟨?_, ?_, ?_, ⟨?_, ?_⟩, ?_, ?_⟩⟩
  all_goals decide +kernel

/-- The root process starts the thread 1001 and calls `execve`: the thread is still parked
in the group afterwards, under the old address-space id. -/
theorem thread_survives_execve :
    ∃ e', bootedThread.sysExecve unitLoader 0 (ascii "/p") [ascii "/p"] [] = .replaced e' ∧
      e'.kernel.proc.tgid = 1000 ∧
      e'.kernel.sched.parked.map (fun t => (t.proc.pid, t.proc.tgid)) = [(1001, 1000)] ∧
      bootedThread.image.asid = 0 ∧ e'.image.asid = 1 ∧
      e'.images.map TaskImage.asid = [0] := by
  obtain ⟨e', he', hkernel, himages, hasid⟩ :=
    sysExecve_unitLoader bootedThread (ascii "/p") [ascii "/p"] [] (by decide +kernel)
  refine ⟨e', he', ?_, ?_, rfl, ?_, ?_⟩
  · rw [hkernel]
    decide +kernel
  · rw [hkernel]
    decide +kernel
  · rw [hasid]
    rfl
  · rw [himages]
    rfl

end Env

end WebTos.Proc
