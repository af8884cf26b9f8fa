import WebTos.Mem.Pager

/-!
The memory system calls of `syscall.rs`, over the MMU and the pager together.

The kernel runs one process at a time: its memory is in the MMU, the others'
are parked by address-space id.  Threads, which share an address space, add
nothing to the calls below and are left out, as are the write-back of shared
file mappings and the flags that wake the host after a miss.

* `Kernel.pageIn`: what a resolved fault does to the page;
* `Kernel.hostTouch`, `Kernel.writeMem`: copies by the kernel into guest memory;
* `Kernel.guestFault`: a faulting guest access;
* `Kernel.sysMmap`, `Kernel.sysMunmap`, `Kernel.sysMprotect`, `Kernel.sysMremap`,
  `Kernel.sysBrk`: the calls.

`clobbered` is not in the source.  It collects the pages a page-in wrote although
some byte of them was not backed by a lazy mapping still to be filled.
-/

namespace WebTos

open Lib

/-- What comes back through the errno channel: an error number, or the sentinel
`PAGE_IN_RESTART` that suspends the call until a chunk arrives. -/
inductive Failure where
  | errno (e : Errno)
  | pageInRestart
  deriving DecidableEq, Repr

/-- The result of a system call that may suspend. -/
abbrev CallResult (α : Type) := Except Failure α

instance : Coe Errno Failure := ⟨.errno⟩

/-- What the kernel uses of its host: the width of `usize`, and the MMU's search
for a free range with what it promises about the range it returns. -/
structure Host where
  usizeBits : ℕ
  /-- `find_free_memory`, from the hint, the size and the alignment. -/
  findFree : Mem → ℕ → ℕ → ℕ → Option ℕ
  aligned : ∀ {m hint size align a}, findFree m hint size align = some a → align ∣ a
  inSpace : ∀ {m hint size align a}, findFree m hint size align = some a →
    a + alignUp size align ≤ 2 ^ 64
  isFree : ∀ {m hint size align a}, findFree m hint size align = some a →
    ∀ b, a ≤ b → b < a + alignUp size align → m b = none

/-- A process that is not running. -/
structure Parked where
  mem : Mem
  brkEnd : ℕ
  mmapNext : ℕ

/-- The part of the machine that the memory calls read and write. -/
structure Kernel where
  asid : ℕ
  mem : Mem
  brkEnd : ℕ
  mmapNext : ℕ
  pager : Pager
  parked : ℕ → Option Parked
  nextAsid : ℕ
  /-- Whether a process is running. -/
  running : Bool
  clobbered : List ℕ

namespace Kernel

/-! ### Page-in -/

/-- Writes a resolved page, sets its final permission and marks it resident. -/
def pageIn (k : Kernel) (page : ℕ) (bytes : Bytes) (perm : UInt8) : Kernel × Bool :=
  let clobbered := if k.mem.coldBytes page then k.clobbered else page :: k.clobbered
  let written := k.mem.writeBytes page bytes
  let updated := written.1.updatePerm page PAGE_SIZE perm
  if !written.2 then ({ k with mem := written.1, clobbered }, false)
  else if !updated.2 then ({ k with mem := updated.1, clobbered }, false)
  else
    ({ k with
        mem := editOn updated.1 page PAGE_SIZE (Option.map fun c => { c with backing := .filled })
        pager := k.pager.markResident k.asid page
        clobbered }, true)

/-- The loop of `host_touch` over the pages of a range. -/
def touchPages (read : ChunkReader) (access : AccessKind) :
    Kernel → List ℕ → Kernel × CallResult Unit
  | k, [] => (k, .ok ())
  | k, page :: rest =>
    match k.pager.pageState k.asid page with
    | none => touchPages read access k rest
    | some (resident, finalPerm) =>
      if finalPerm &&& access.required == 0 then (k, .error Errno.EFAULT)
      else if resident then touchPages read access k rest
      else
        match k.pager.resolve read k.asid page access with
        | (.ready resolved bytes perm, pager) =>
          match pageIn { k with pager } resolved bytes perm with
          | (k, true) => touchPages read access k rest
          | (k, false) => (k, .error Errno.EFAULT)
        | (.missing _, pager) => ({ k with pager }, .error .pageInRestart)
        | (.invalid _, pager) => ({ k with pager }, .error Errno.EIO)
        | (.notLazy, pager) => touchPages read access { k with pager } rest

/-- `host_touch`: makes a range safe for a copy by the kernel. -/
def hostTouch (read : ChunkReader) (k : Kernel) (addr len : ℕ) (access : AccessKind) :
    Kernel × CallResult Unit :=
  if len = 0 ∨ k.pager.isEmpty then (k, .ok ())
  else if 2 ^ 64 ≤ addr + len then (k, .error Errno.EFAULT)
  else touchPages read access k (pagesOf addr (addr + len))

/-- `write_mem`. -/
def writeMem (read : ChunkReader) (k : Kernel) (addr : ℕ) (bytes : Bytes) :
    Kernel × CallResult Unit :=
  match k.hostTouch read addr bytes.length .write with
  | (k, .error e) => (k, .error e)
  | (k, .ok _) =>
    let written := k.mem.writeBytes addr bytes
    ({ k with mem := written.1 }, if written.2 then .ok () else .error Errno.EFAULT)

/-- The page-in part of `handle_exception`: a guest access that faulted. -/
def guestFault (read : ChunkReader) (k : Kernel) (addr : ℕ) (access : AccessKind) : Kernel :=
  match k.pager.resolve read k.asid addr access with
  | (.ready page bytes perm, pager) => (pageIn { k with pager } page bytes perm).1
  | (_, pager) => { k with pager }

/-! ### Unmapping and protection -/

/-- `prot_to_perm`. -/
def protToPerm (prot : ℕ) : UInt8 :=
  Perm.INIT ||| (if prot &&& 1 ≠ 0 then Perm.READ else 0) |||
    (if prot &&& 2 ≠ 0 then Perm.WRITE else 0) ||| (if prot &&& 4 ≠ 0 then Perm.EXEC else 0)

/-- The `SYS_MUNMAP` arm of the dispatch. -/
def sysMunmap (k : Kernel) (addr len : ℕ) : Kernel × CallResult ℕ :=
  let r := k.mem.unmapMemoryLen addr len
  if r.2 then
    ({ k with mem := r.1, pager := k.pager.unmap k.asid addr (alignUp len PAGE_SIZE) }, .ok 0)
  else ({ k with mem := r.1 }, .error Errno.EINVAL)

/-- Takes the access away from pages. -/
def hidePages (mem : Mem) (pages : List ℕ) : Mem :=
  pages.foldl (fun m page => (m.updatePerm page PAGE_SIZE Perm.INIT).1) mem

/-- `sys_mprotect`. -/
def sysMprotect (k : Kernel) (addr len prot : ℕ) : Kernel × CallResult ℕ :=
  let len := alignUp len PAGE_SIZE
  let perm := protToPerm prot
  let r := k.mem.updatePerm addr len perm
  if r.2 then
    let pager := k.pager.protect k.asid addr len perm
    ({ k with mem := hidePages r.1 (pager.nonresidentPages k.asid addr len), pager }, .ok 0)
  else ({ k with mem := r.1 }, .error Errno.ENOMEM)

/-- A byte of a readable and writable mapping. -/
def eagerCell : Cell := ⟨Perm.READ ||| Perm.WRITE ||| Perm.INIT, 0, .eager⟩

/-- `sys_brk`. -/
def sysBrk (k : Kernel) (addr : ℕ) : Kernel × CallResult ℕ :=
  if addr = 0 ∨ addr ≤ k.brkEnd then (k, .ok k.brkEnd)
  else
    let newEnd := alignUp addr PAGE_SIZE
    let curEnd := alignUp k.brkEnd PAGE_SIZE
    if curEnd < newEnd then
      let r := k.mem.mapMemoryLen curEnd (newEnd - curEnd) eagerCell
      if r.2 then ({ k with mem := r.1, brkEnd := addr }, .ok addr) else (k, .ok k.brkEnd)
    else ({ k with brkEnd := addr }, .ok addr)

/-! ### Mapping -/

/-- What the descriptor of an `mmap` call refers to. -/
inductive MapSource where
  | badFd
  | notFile
  | hostSecret
  | node (kind : NodeKind)

/-- The arguments of `mmap`, with the file its descriptor names. -/
structure MmapArgs where
  addr : ℕ
  len : ℕ
  prot : ℕ
  flags : ℕ
  offset : ℕ
  source : MapSource

namespace MmapArgs

/-- `MAP_SHARED`. -/
def isShared (a : MmapArgs) : Bool := a.flags &&& 1 != 0
/-- `MAP_FIXED`. -/
def isFixed (a : MmapArgs) : Bool := a.flags &&& 0x10 != 0
/-- `MAP_ANONYMOUS`. -/
def isAnonymous (a : MmapArgs) : Bool := a.flags &&& 0x20 != 0

end MmapArgs

/-- What a mapping shows: zeros, bytes copied at once, or a chunked file. -/
inductive MapContents where
  | anonymous
  | bytes (data : Bytes)
  | chunked (file : ChunkedFile) (fileLen : ℕ)

/-- The file part of `sys_mmap`. -/
def mmapContents (host : Host) (a : MmapArgs) (len : ℕ) : CallResult MapContents :=
  if a.isAnonymous then .ok .anonymous
  else
    match a.source with
    | .badFd => .error Errno.EBADF
    | .notFile => .error Errno.EBADF
    | .hostSecret => .error Errno.ENODEV
    | .node (.file data) =>
      let start := min a.offset data.length
      if len < 2 ^ host.usizeBits then
        .ok (.bytes ((data.drop start).take (min (start + len) data.length - start)))
      else .error Errno.EFBIG
    | .node (.chunkedFile file) =>
      if a.isShared then .error Errno.ENODEV
      else .ok (.chunked file (min (file.size - a.offset) len))
    | .node _ => if a.isShared then .error Errno.ENODEV else .error Errno.EBADF

/-- The target part of `sys_mmap`: a fixed range is unmapped, a free hint is
honoured, and otherwise a free range is searched for. -/
def mmapTarget (host : Host) (k : Kernel) (a : MmapArgs) (len : ℕ) : Kernel × Option ℕ :=
  if a.isFixed && a.addr != 0 then
    let target := pageOf a.addr
    ({ k with
        mem := (k.mem.unmapMemoryLen target len).1
        pager := k.pager.unmap k.asid target len }, some target)
  else if a.addr ≠ 0 ∧ a.addr % PAGE_SIZE = 0 ∧
      host.findFree k.mem a.addr len PAGE_SIZE = some a.addr then (k, some a.addr)
  else
    match host.findFree k.mem k.mmapNext len 0x10000 with
    | none => (k, none)
    | some target => ({ k with mmapNext := wrapAdd (target + len) PAGE_SIZE }, some target)

/-- The cell a new mapping is made of.  A mapping of a chunked file grants nothing. -/
def MapContents.cell : MapContents → Cell
  | .anonymous => eagerCell
  | .bytes _ => eagerCell
  | .chunked _ fileLen => ⟨Perm.INIT, 0, if 0 < fileLen then .cold else .eager⟩

/-- The end of `sys_mmap` for a mapping that is resident. -/
def finishMmap (k : Kernel) (target len : ℕ) (perm : UInt8) : Kernel × CallResult ℕ :=
  let r := k.mem.updatePerm target len perm
  ({ k with mem := r.1 }, if r.2 then .ok target else .error Errno.ENOMEM)

/-- The part of `sys_mmap` after the range has been mapped. -/
def fillMmap (read : ChunkReader) (k : Kernel) (a : MmapArgs) (target len : ℕ) :
    MapContents → Kernel × CallResult ℕ
  | .anonymous => k.finishMmap target len (protToPerm a.prot)
  | .bytes data =>
    match k.writeMem read target data with
    | (k, .error e) => (k, .error e)
    | (k, .ok _) => k.finishMmap target len (protToPerm a.prot)
  | .chunked file fileLen =>
    if 0 < fileLen then
      match FileMapping.new target (wrapAdd target len) target a.offset fileLen
          (protToPerm a.prot) 0 file (wrapAdd_lt _ _) with
      | .error _ => (k, .error Errno.EINVAL)
      | .ok mapping => ({ k with pager := k.pager.map k.asid mapping }, .ok target)
    else k.finishMmap target len (protToPerm a.prot)

/-- `sys_mmap`. -/
def sysMmap (host : Host) (read : ChunkReader) (k : Kernel) (a : MmapArgs) :
    Kernel × CallResult ℕ :=
  if a.len = 0 then (k, .error Errno.EINVAL)
  else if !a.isAnonymous && a.offset % PAGE_SIZE != 0 then (k, .error Errno.EINVAL)
  else
    let len := alignUp a.len PAGE_SIZE
    match k.mmapTarget host a len with
    | (k, none) => (k, .error Errno.ENOMEM)
    | (k, some target) =>
      match mmapContents host a len with
      | .error e => (k, .error e)
      | .ok contents =>
        let r := k.mem.mapMemoryLen target len contents.cell
        if r.2 then fillMmap read { k with mem := r.1 } a target len contents
        else (k, .error Errno.ENOMEM)

/-! ### Remapping -/

/-- Where the bytes of a grown mapping come from: the moved ones keep their
backing, the grown ones are cold if the pager now maps them lazily. -/
def carryBacking (old : Mem) (g : Pager) (asid oldAddr oldSize target newSize : ℕ) (m : Mem) :
    Mem := fun b =>
  if target ≤ b ∧ b < target + newSize then
    (m b).map fun c =>
      { c with backing :=
          if b < target + oldSize then
            ((old (wrapAdd oldAddr (b - target))).map Cell.backing).getD .eager
          else if ((g.pageState asid b).map Prod.fst) = some false then .cold
          else .eager }
  else m b

/-- The last loop of `sys_mremap`: the pages of lazy mappings get their final
permission if they are resident and none if they are not. -/
def settlePages (g : Pager) (asid : ℕ) (m : Mem) (pages : List ℕ) : Mem :=
  pages.foldl (fun m page =>
    match g.pageState asid page with
    | some (resident, perm) =>
      (m.updatePerm page PAGE_SIZE (if resident then perm else Perm.INIT)).1
    | none => m) m

/-- The move at the end of `sys_mremap`. -/
def moveMapping (k : Kernel) (oldAddr oldSize target newSize : ℕ) : Kernel :=
  let g := k.pager.remap k.asid oldAddr oldSize target newSize
  let unmapped := (k.mem.unmapMemoryLen oldAddr oldSize).1
  let carried := carryBacking k.mem g k.asid oldAddr oldSize target newSize unmapped
  { k with
    mem := settlePages g k.asid carried (pagesOf target (wrapAdd target newSize))
    pager := g
    mmapNext := wrapAdd (target + newSize) PAGE_SIZE }

/-- The growing part of `sys_mremap`. -/
def growMapping (host : Host) (read : ChunkReader) (k : Kernel) (oldAddr oldSize newSize : ℕ) :
    Kernel × CallResult ℕ :=
  match host.findFree k.mem k.mmapNext newSize PAGE_SIZE with
  | none => (k, .error Errno.ENOMEM)
  | some target =>
    let r := k.mem.mapMemoryLen target newSize eagerCell
    if !r.2 then (k, .error Errno.ENOMEM)
    else
      let k := { k with mem := r.1 }
      if 2 ^ host.usizeBits ≤ oldSize then (k, .error Errno.ENOMEM)
      else
        match k.mem.readBytes oldAddr oldSize with
        | none => (k, .error Errno.EFAULT)
        | some buf =>
          match k.writeMem read target buf with
          | (k, .error e) => (k, .error e)
          | (k, .ok _) => (k.moveMapping oldAddr oldSize target newSize, .ok target)

/-- `sys_mremap`. -/
def sysMremap (host : Host) (read : ChunkReader) (k : Kernel)
    (oldAddr oldSize newSize flags : ℕ) : Kernel × CallResult ℕ :=
  if oldAddr % PAGE_SIZE ≠ 0 ∨ newSize = 0 ∨ oldSize = 0 then (k, .error Errno.EINVAL)
  else if flags &&& 2 ≠ 0 then (k, .error Errno.EINVAL)
  else
    let oldSize := alignUp oldSize PAGE_SIZE
    let newSize := alignUp newSize PAGE_SIZE
    if newSize < oldSize then
      let start := wrapAdd oldAddr newSize
      ({ k with
          mem := (k.mem.unmapMemoryLen start (oldSize - newSize)).1
          pager := k.pager.unmap k.asid start (oldSize - newSize) }, .ok oldAddr)
    else if newSize = oldSize then (k, .ok oldAddr)
    else if flags &&& 1 = 0 then (k, .error Errno.ENOMEM)
    else k.growMapping host read oldAddr oldSize newSize

end Kernel

end WebTos
