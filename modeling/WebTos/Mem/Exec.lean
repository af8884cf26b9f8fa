import WebTos.Mem.Calls

/-!
New address spaces: `fork` in `sys_clone_impl`, and `execve` with the lazy ELF
loader of `lazy_elf.rs`.

The loader is modelled from the parsed program headers on; reading them from the
file, the search for the interpreter and the contents of the initial stack are
left out.  An image that is not a chunked file is loaded eagerly by the engine's
own loader, which is a parameter: it leaves some memory, or fails.

* `ElfImage.layout`: the address range an image asks for;
* `Kernel.loadImage`: reserves the range and registers every segment with the pager;
* `Kernel.sysExecve`, `Kernel.sysFork`: the two calls.
-/

namespace WebTos

open Function

/-! ### Lazy images -/

/-- A program header (`Segment`). -/
structure Segment where
  kind : ℕ
  flags : ℕ
  offset : ℕ
  vaddr : ℕ
  filesz : ℕ
  memsz : ℕ
  align : ℕ

namespace Segment

/-- `segment.kind == PT_LOAD && segment.memsz != 0`. -/
def isLoad (s : Segment) : Bool := s.kind == 1 && s.memsz != 0

/-- `segment_perm`. -/
def perm (s : Segment) : UInt8 :=
  Perm.INIT ||| (if s.flags &&& 4 ≠ 0 then Perm.READ else 0) |||
    (if s.flags &&& 2 ≠ 0 then Perm.WRITE else 0) ||| (if s.flags &&& 1 ≠ 0 then Perm.EXEC else 0)

/-- The pages a segment spans, as a length from its first page: `page_align` of
its memory size and the offset in the page, unless that overflows. -/
def span (s : Segment) : Option ℕ :=
  let size := s.memsz + s.vaddr % PAGE_SIZE
  let rounded := (size + (PAGE_SIZE - 1)) / PAGE_SIZE * PAGE_SIZE
  if size < 2 ^ 64 ∧ rounded < 2 ^ 64 then some rounded else none

/-- The alignment a segment asks for. -/
def alignment (s : Segment) : Option ℕ :=
  if s.align ≤ 1 then some 1
  else if s.align.isPowerOfTwo ∧ s.align ≤ 2 ^ 30 then some s.align
  else none

end Segment

/-- A parsed executable (`Image`, before its layout). -/
structure ElfImage where
  file : ChunkedFile
  entry : ℕ
  phoff : ℕ
  segments : List Segment

/-- The address range an image asks for. -/
structure Layout where
  requestedBase : ℕ
  imageEnd : ℕ
  imageAlign : ℕ
  loadable : ℕ

namespace ElfImage

/-- One turn of the layout loop of `inspect`. -/
def addSegment (file : ChunkedFile) (l : Layout) (s : Segment) : Option Layout := do
  if s.memsz < s.filesz ∨ 2 ^ 64 ≤ s.offset + s.filesz ∨ file.size < s.offset + s.filesz then none
  else
    let align ← s.alignment
    let size ← s.span
    let stop := pageOf s.vaddr + size
    if 2 ^ 64 ≤ stop then none
    else
      some ⟨min l.requestedBase (pageOf s.vaddr), max l.imageEnd stop, max l.imageAlign align,
        l.loadable + 1⟩

/-- The layout part of `inspect`. -/
def layout (i : ElfImage) : Option Layout := do
  let l ← (i.segments.filter Segment.isLoad).foldlM (addSegment i.file)
    ⟨2 ^ 64 - 1, 0, PAGE_SIZE, 0⟩
  if l.loadable = 0 then none else some l

/-- The pager's mapping of a loadable segment. -/
def segmentMapping (file : ChunkedFile) (relocation : ℕ) (s : Segment) : Option FileMapping := do
  let size ← s.span
  let start := pageOf s.vaddr + relocation
  if h : start + size < 2 ^ 64 then
    if 2 ^ 64 ≤ s.vaddr + relocation then none
    else
      (FileMapping.new start (start + size) (s.vaddr + relocation) s.offset s.filesz s.perm 0xaa
        file h).toOption
  else none

/-- The addresses the loader hands out all fit: the entry point, and the program
headers, which a `PT_PHDR` header names or which follow the base. -/
def pointersFit (i : ElfImage) (base relocation : ℕ) : Bool :=
  decide (i.entry + relocation < 2 ^ 64) &&
    (i.segments.filter fun s => s.kind == 6).all (fun s =>
      decide (s.vaddr + relocation < 2 ^ 64)) &&
    (i.segments.any (fun s => s.kind == 6) || decide (base + i.phoff < 2 ^ 64))

end ElfImage

namespace Kernel

/-- A byte of a lazily loaded image: mapped, initialized, inaccessible. -/
def coldCell : Cell := ⟨Perm.INIT, 0, .cold⟩

/-- Registers the loadable segments with the pager, in order, until one fails. -/
def mapSegments (file : ChunkedFile) (relocation asid : ℕ) : Pager → List Segment → Pager × Bool
  | g, [] => (g, true)
  | g, s :: rest =>
    match ElfImage.segmentMapping file relocation s with
    | none => (g, false)
    | some mapping => mapSegments file relocation asid (g.map asid mapping) rest

/-- `lazy_elf::load` for one image: the memory, the pager, and the end of the
image unless the load failed.  The result of the mapping is not looked at. -/
def loadImage (host : Host) (asid : ℕ) (mem : Mem) (g : Pager) (i : ElfImage) :
    Mem × Pager × Option ℕ :=
  match i.layout with
  | none => (mem, g, none)
  | some l =>
    let size := l.imageEnd - l.requestedBase
    match host.findFree mem l.requestedBase size l.imageAlign with
    | none => (mem, g, none)
    | some base =>
      let mem := (mem.mapMemoryLen base size coldCell).1
      if base < l.requestedBase then (mem, g, none)
      else
        let relocation := base - l.requestedBase
        let r := mapSegments i.file relocation asid g (i.segments.filter Segment.isLoad)
        if r.2 && i.pointersFit base relocation then (mem, r.1, some (base + size))
        else (mem, r.1, none)

/-! ### Starting an image -/

/-- What `execve` starts: an image the engine's loader maps eagerly, leaving some
memory with some end of the image or failing, or a chunked one with the chunked
interpreter it names. -/
inductive ExecImage where
  | eager (loaded : Option (Mem × ℕ))
  | chunked (binary : ElfImage) (interpreter : Option ElfImage)

/-- The reset memory: nothing but the inaccessible page at zero. -/
def resetMem : Mem := (Mem.empty.mapMemoryLen 0 PAGE_SIZE ⟨Perm.NONE, 0, .eager⟩).1

/-- The bounds of the initial stack. -/
def STACK_TOP : ℕ := 0x7fffff000000
/-- The size of the initial stack. -/
def STACK_SIZE : ℕ := 0x1000000
/-- Where the search for free ranges begins. -/
def MMAP_BASE : ℕ := 0x1000000000

/-- Loads the interpreter on top of what loading the image left. -/
def loadInterpreter (host : Host) (asid : ℕ) (r : Mem × Pager × Option ℕ) (i : ElfImage) :
    Mem × Pager × Option ℕ :=
  match r.2.2 with
  | none => r
  | some imageEnd =>
    let r' := loadImage host asid r.1 r.2.1 i
    (r'.1, r'.2.1, r'.2.2.map (max imageEnd))

/-- Loads the image and its interpreter. -/
def loadImages (host : Host) (asid : ℕ) (g : Pager) : ExecImage → Mem × Pager × Option ℕ
  | .eager none => (resetMem, g, none)
  | .eager (some (mem, imageEnd)) => (mem, g, some imageEnd)
  | .chunked binary none => loadImage host asid resetMem g binary
  | .chunked binary (some i) => loadInterpreter host asid (loadImage host asid resetMem g binary) i

/-- `sys_execve` past its checks, with `start_image`: a new address space, the
images and the stack.  A failure ends the process. -/
def sysExecve (host : Host) (k : Kernel) (image : ExecImage) : Kernel :=
  let asid := k.nextAsid
  let r := loadImages host asid (k.pager.dropSpace k.asid) image
  let k := { k with asid, nextAsid := asid + 1, mem := r.1, pager := r.2.1 }
  match r.2.2 with
  | none => { k with running := false }
  | some imageEnd =>
    let stacked := k.mem.mapMemoryLen (STACK_TOP - STACK_SIZE) STACK_SIZE eagerCell
    { k with
      mem := stacked.1
      brkEnd := wrapAdd (alignUp imageEnd PAGE_SIZE) 0x100000
      mmapNext := MMAP_BASE
      running := stacked.2 }

/-! ### Forking and switching -/

/-- `u32::to_le_bytes`. -/
def leBytes32 (n : ℕ) : Bytes :=
  [n.toUInt8, (n / 2 ^ 8).toUInt8, (n / 2 ^ 16).toUInt8, (n / 2 ^ 24).toUInt8]

/-- The parking spot of the running process. -/
def park (k : Kernel) : Parked := ⟨k.mem, k.brkEnd, k.mmapNext⟩

/-- The end of a fork: the child is parked.  Its thread id is written through
the child's memory, but with the parent's address-space id. -/
def finishFork (read : ChunkReader) (k : Kernel) (pid child : ℕ) : Option ℕ → Kernel
  | none => { k with parked := update k.parked child (some k.park) }
  | some tid =>
    let r := (k.writeMem read tid (leBytes32 pid)).1
    { r with
      mem := k.mem
      parked := update k.parked child (some { k.park with mem := r.mem }) }

/-- `sys_clone_impl` for a new process, with the addresses at which
`CLONE_PARENT_SETTID` and `CLONE_CHILD_SETTID` ask for the child's id. -/
def sysFork (read : ChunkReader) (k : Kernel) (pid : ℕ) (parentTid childTid : Option ℕ) :
    Kernel × CallResult ℕ :=
  let wrote : Kernel × CallResult Unit := match parentTid with
    | none => (k, .ok ())
    | some tid => k.writeMem read tid (leBytes32 pid)
  match wrote with
  | (k, .error _) => (k, .error Errno.EFAULT)
  | (k, .ok _) =>
    let child := k.nextAsid
    let k := { k with
      nextAsid := child + 1
      pager := k.pager.forkSpace k.asid child }
    (k.finishFork read pid child childTid, .ok pid)

/-- Switches to a parked process; a running one is parked in exchange. -/
def switchTo (k : Kernel) (asid : ℕ) : Kernel :=
  match k.parked asid with
  | none => k
  | some p =>
    let parked := update k.parked asid none
    { k with
      asid
      mem := p.mem
      brkEnd := p.brkEnd
      mmapNext := p.mmapNext
      parked := if k.running then update parked k.asid (some k.park) else parked
      running := true }

/-- A machine that has started nothing yet. -/
def boot : Kernel :=
  { asid := 0, mem := Mem.empty, brkEnd := 0, mmapNext := MMAP_BASE, pager := .empty
    parked := fun _ => none, nextAsid := 1, running := true, clobbered := [] }

end Kernel

/-! ### Steps -/

/-- What can happen to the memory of the machine; system calls take their
arguments from 64-bit registers. -/
inductive MemStep where
  | mmap (read : ChunkReader) (args : Kernel.MmapArgs)
  | munmap (addr len : UInt64)
  | mprotect (addr len prot : UInt64)
  | mremap (read : ChunkReader) (oldAddr oldSize newSize flags : UInt64)
  | brk (addr : UInt64)
  | fork (read : ChunkReader) (pid : ℕ) (parentTid childTid : Option ℕ)
  | execve (image : Kernel.ExecImage)
  | fault (read : ChunkReader) (addr : ℕ) (access : AccessKind)
  | hostTouch (read : ChunkReader) (addr len : ℕ) (access : AccessKind)
  | switch (asid : ℕ)

/-- What a step of the running process does. -/
def MemStep.call (host : Host) (k : Kernel) : MemStep → Kernel
  | .mmap read args => (k.sysMmap host read args).1
  | .munmap addr len => (k.sysMunmap addr.toNat len.toNat).1
  | .mprotect addr len prot => (k.sysMprotect addr.toNat len.toNat prot.toNat).1
  | .mremap read oldAddr oldSize newSize flags =>
    (k.sysMremap host read oldAddr.toNat oldSize.toNat newSize.toNat flags.toNat).1
  | .brk addr => (k.sysBrk addr.toNat).1
  | .fork read pid parentTid childTid => (k.sysFork read pid parentTid childTid).1
  | .execve image => k.sysExecve host image
  | .fault read addr access => k.guestFault read addr access
  | .hostTouch read addr len access => (k.hostTouch read addr len access).1
  | .switch asid => k.switchTo asid

/-- The effect of a step.  Only a running process makes calls. -/
def MemStep.exec (host : Host) (k : Kernel) (step : MemStep) : Kernel :=
  if k.running then step.call host k
  else
    match step with
    | .switch asid => k.switchTo asid
    | _ => k

end WebTos
