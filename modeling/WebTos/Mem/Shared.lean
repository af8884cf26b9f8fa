import WebTos.Mem.Exec

/-!
The write-back of shared file mappings (`MAP_SHARED`).

The pages of a shared mapping are filled when it is made, and a list of the live mappings says
what to write back to which file at `msync` and `munmap`.  Here the list stands beside the memory
calls, with the contents of the files and a map the source does not have: what is mapped
`MAP_SHARED` at each address of each address space.

* `SharedMap`, `World`: the list, the files and the map;
* `World.syncSharedRange`: what a write-back stores, byte by byte;
* `World.step`: the memory calls, with what they write back;
* `World.Sound`: a step writes back exactly what is mapped, and nothing stops being mapped before
  the file has it.
-/

namespace WebTos.Shared


/-- `SharedMap`: one live shared mapping of a file. -/
structure SharedMap where
  asid : ℕ
  addr : ℕ
  len : ℕ
  node : ℕ
  offset : ℕ
  deriving DecidableEq, Repr

/-- One byte written back: from an address, to an offset of a file. -/
structure Store where
  addr : ℕ
  node : ℕ
  offset : ℕ
  value : UInt8
  deriving DecidableEq, Repr

/-- The memory calls' part of the machine, with the shared mappings. -/
structure World where
  kernel : Kernel
  /-- `shared_maps`. -/
  maps : List SharedMap
  /-- The contents of the nodes that are plain files. -/
  files : ℕ → Option Bytes
  /-- What is mapped `MAP_SHARED` at an address: the file, and the offset in it. -/
  mapped : ℕ → ℕ → Option (ℕ × ℕ)

/-! ### Write-back -/

/-- The mapping overlaps the range, as `sync_shared_range` and the `munmap` arm test it. -/
def SharedMap.touches (m : SharedMap) (asid addr len : ℕ) : Bool :=
  m.asid == asid && decide (m.addr < satAdd addr len) && decide (addr < satAdd m.addr m.len)

/-- The bytes put at a place of a file. -/
def overwrite (data : Bytes) (start : ℕ) (bytes : Bytes) : Bytes :=
  data.take start ++ bytes ++ data.drop (start + bytes.length)

/-- One turn of the loop of `sync_shared_range`: the whole mapping is written back, as far as the
file reaches, unless it has a hole.  `len as usize` and `offset as usize` lose the bits a `usize`
does not have. -/
def syncMap (bits : ℕ) (mem : Mem) (files : ℕ → Option Bytes) (m : SharedMap) :
    List Store × (ℕ → Option Bytes) :=
  match mem.readBytes m.addr (m.len % 2 ^ bits), files m.node with
  | some bytes, some data =>
    let start := min (m.offset % 2 ^ bits) data.length
    let written := bytes.take (data.length - start)
    (written.mapIdx fun i v => ⟨wrapAdd m.addr i, m.node, start + i, v⟩,
      Function.update files m.node (some (overwrite data start written)))
  | _, _ => ([], files)

/-- The loop of `sync_shared_range`. -/
def syncMaps (bits : ℕ) (mem : Mem) :
    List SharedMap → (ℕ → Option Bytes) → List Store × (ℕ → Option Bytes)
  | [], files => ([], files)
  | m :: ms, files =>
    let r := syncMap bits mem files m
    let rest := syncMaps bits mem ms r.2
    (r.1 ++ rest.1, rest.2)

namespace World

variable (host : Host)

/-- `sync_shared_range`, with what it stores. -/
def syncSharedRange (w : World) (addr len : ℕ) : List Store × World :=
  let r := syncMaps host.usizeBits w.kernel.mem
    (w.maps.filter (·.touches w.kernel.asid addr len)) w.files
  (r.1, { w with files := r.2 })

/-- Nothing is mapped shared any more where `gone` holds, in the running process. -/
def clear (w : World) (gone : ℕ → Bool) : World :=
  { w with mapped := fun a b => if a = w.kernel.asid ∧ gone b then none else w.mapped a b }

/-- The bytes of a range that `unmap_memory_len` unmaps: none of a range that is empty or leaves
the address space. -/
def unmaps (start len b : ℕ) : Bool :=
  decide (start + len ≤ 2 ^ 64) && decide (start ≤ b) && decide (b < start + len)

/-! ### The calls -/

/-- The arguments of an `mmap` call whose descriptor is a plain file, given by its node, or
something else. -/
def mmapArgs (w : World) (a : Kernel.MmapArgs) : Option ℕ → Kernel.MmapArgs
  | some node =>
    match w.files node with
    | some data => { a with source := .node (.file data) }
    | none => { a with source := .notFile }
  | none =>
    match a.source with
    | .node (.file _) => { a with source := .notFile }
    | _ => a

/-- The bytes `MAP_FIXED` unmaps. -/
def replaced (a : Kernel.MmapArgs) (b : ℕ) : Bool :=
  a.isFixed && a.addr != 0 && unmaps (pageOf a.addr) (alignUp a.len PAGE_SIZE) b

/-- The call gets past its first checks, and so to the place where `MAP_FIXED` unmaps. -/
def mmapStarts (a : Kernel.MmapArgs) : Bool :=
  a.len != 0 && (a.isAnonymous || a.offset % PAGE_SIZE == 0)

/-- The address at which `sys_mmap` enters a shared mapping in the list, if it gets that far. -/
def sharedTarget (k : Kernel) (read : ChunkReader) (a : Kernel.MmapArgs) : Option ℕ :=
  if !mmapStarts a || !a.isShared then none
  else
    match k.mmapTarget host a (alignUp a.len PAGE_SIZE) with
    | (_, none) => none
    | (k, some target) =>
      match Kernel.mmapContents host a (alignUp a.len PAGE_SIZE) with
      | .ok (.bytes data) =>
        let r := k.mem.mapMemoryLen target (alignUp a.len PAGE_SIZE) Kernel.eagerCell
        match r.2, (Kernel.writeMem read { k with mem := r.1 } target data).2 with
        | true, .ok _ => some target
        | _, _ => none
      | _ => none

/-- `sys_mmap`. -/
def sysMmap (w : World) (read : ChunkReader) (a : Kernel.MmapArgs) (node : Option ℕ) : World :=
  let a := w.mmapArgs a node
  let len := alignUp a.len PAGE_SIZE
  let after := { w.clear (fun b => mmapStarts a && replaced a b) with
    kernel := (w.kernel.sysMmap host read a).1 }
  match sharedTarget host w.kernel read a, node with
  | some target, some node =>
    { after with
      maps := w.maps ++ [⟨w.kernel.asid, target, len, node, a.offset⟩]
      mapped := fun x b =>
        if x = w.kernel.asid ∧ target ≤ b ∧ b < target + len then
          some (node, a.offset + (b - target))
        else after.mapped x b }
  | _, _ => after

/-- The `SYS_MUNMAP` arm of the dispatch, with its write-back. -/
def sysMunmap (w : World) (addr len : ℕ) : List Store × World :=
  let r := w.syncSharedRange host addr (alignUp len PAGE_SIZE)
  (r.1, { r.2.clear (unmaps addr len) with
    maps := w.maps.filter fun m => !m.touches w.kernel.asid addr (alignUp len PAGE_SIZE)
    kernel := (w.kernel.sysMunmap addr len).1 })

/-- The bytes a shrinking `mremap` unmaps. -/
def shrunk (oldAddr oldSize newSize b : ℕ) : Bool :=
  unmaps (wrapAdd oldAddr newSize) (oldSize - newSize) b

/-- The bytes `mremap` takes away: the tail it cuts off, or the place it moves from. -/
def remapped (oldAddr oldSize newSize flags b : ℕ) : Bool :=
  let oldLen := alignUp oldSize PAGE_SIZE
  let newLen := alignUp newSize PAGE_SIZE
  if oldAddr % PAGE_SIZE ≠ 0 ∨ newSize = 0 ∨ oldSize = 0 ∨ flags &&& 2 ≠ 0 then false
  else if newLen < oldLen then shrunk oldAddr oldLen newLen b
  else if newLen = oldLen ∨ flags &&& 1 = 0 then false
  else unmaps oldAddr oldLen b

/-- `sys_mremap`.  It does not look at the shared mappings.  The bytes of a mapping that moves are
mapped at the new place as they were at the old. -/
def sysMremap (w : World) (read : ChunkReader) (oldAddr oldSize newSize flags : ℕ) : World :=
  let oldLen := alignUp oldSize PAGE_SIZE
  let newLen := alignUp newSize PAGE_SIZE
  match w.kernel.sysMremap host read oldAddr oldSize newSize flags with
  | (k, .error _) => { w with kernel := k }
  | (k, .ok target) =>
    if newLen < oldLen then { w.clear (shrunk oldAddr oldLen newLen) with kernel := k }
    else if newLen = oldLen then { w with kernel := k }
    else
      let after := w.clear (unmaps oldAddr oldLen)
      { after with
        kernel := k
        mapped := fun x b =>
          if x = w.kernel.asid ∧ target ≤ b ∧ b < target + oldLen then
            w.mapped x (oldAddr + (b - target))
          else after.mapped x b }

/-- `fork`: the child maps what its parent maps, and the list does not know it. -/
def sysFork (w : World) (read : ChunkReader) (pid : ℕ) (parentTid childTid : Option ℕ) : World :=
  match w.kernel.sysFork read pid parentTid childTid with
  | (k, .error _) => { w with kernel := k }
  | (k, .ok _) =>
    { w with
      kernel := k
      mapped := fun a b =>
        if a = w.kernel.nextAsid then w.mapped w.kernel.asid b else w.mapped a b }

/-- `execve`: the old address space is gone, its mappings stay in the list. -/
def sysExecve (w : World) (image : Kernel.ExecImage) : World :=
  { w.clear (fun _ => true) with kernel := w.kernel.sysExecve host image }

/-- The process ends. -/
def exit (w : World) : World :=
  { w.clear (fun _ => true) with kernel := { w.kernel with running := false } }

/-! ### Steps -/

/-- What can happen. -/
inductive Event where
  | mmap (read : ChunkReader) (args : Kernel.MmapArgs) (node : Option ℕ)
  | munmap (addr len : UInt64)
  | msync (addr len : UInt64)
  | mremap (read : ChunkReader) (oldAddr oldSize newSize flags : UInt64)
  | fork (read : ChunkReader) (pid : ℕ) (parentTid childTid : Option ℕ)
  | execve (image : Kernel.ExecImage)
  | exit
  | mprotect (addr len prot : UInt64)
  | brk (addr : UInt64)
  | fault (read : ChunkReader) (addr : ℕ) (access : AccessKind)
  | hostTouch (read : ChunkReader) (addr len : ℕ) (access : AccessKind)
  /-- Guest code or a copy by the kernel changes bytes. -/
  | poke (f : ℕ → UInt8 → UInt8)

/-- A step of the running process, with what it writes back. -/
def call (w : World) : Event → List Store × World
  | .mmap read args node => ([], w.sysMmap host read args node)
  | .munmap addr len => w.sysMunmap host addr.toNat len.toNat
  | .msync addr len => w.syncSharedRange host addr.toNat (alignUp len.toNat PAGE_SIZE)
  | .mremap read oldAddr oldSize newSize flags =>
    ([], w.sysMremap host read oldAddr.toNat oldSize.toNat newSize.toNat flags.toNat)
  | .fork read pid parentTid childTid => ([], w.sysFork read pid parentTid childTid)
  | .execve image => ([], w.sysExecve host image)
  | .exit => ([], w.exit)
  | .mprotect addr len prot =>
    ([], { w with kernel := (w.kernel.sysMprotect addr.toNat len.toNat prot.toNat).1 })
  | .brk addr => ([], { w with kernel := (w.kernel.sysBrk addr.toNat).1 })
  | .fault read addr access => ([], { w with kernel := w.kernel.guestFault read addr access })
  | .hostTouch read addr len access =>
    ([], { w with kernel := (w.kernel.hostTouch read addr len access).1 })
  | .poke f =>
    ([], { w with kernel := { w.kernel with
      mem := fun b => (w.kernel.mem b).map fun c => { c with value := f b c.value } } })

/-- One input of a run: a step of the running process, a switch to another, or a change of the
files by other calls. -/
inductive Input where
  | call (event : Event)
  | switch (asid : ℕ)
  | files (files : ℕ → Option Bytes)

/-- One step of a run.  Only a running process makes calls. -/
def exec (w : World) : Input → List Store × World
  | .call event => if w.kernel.running then w.call host event else ([], w)
  | .switch asid => ([], { w with kernel := w.kernel.switchTo asid })
  | .files files => ([], { w with files })

/-- The state after a step. -/
def step (w : World) (input : Input) : World := (w.exec host input).2

/-- A machine that has started nothing yet, with its files. -/
def start (files : ℕ → Option Bytes) : World := ⟨.boot, [], files, fun _ _ => none⟩

/-- **What a step has to do with shared mappings**: what it stores comes from where the file is
mapped, and what it unmaps the file has. -/
structure Sound (w : World) (input : Input) : Prop where
  /-- Bytes written back are the bytes at an address at which the file is mapped. -/
  from_mapped : ∀ s ∈ (w.exec host input).1,
    w.mapped w.kernel.asid s.addr = some (s.node, s.offset) ∧
      (w.kernel.mem s.addr).map Cell.value = some s.value
  /-- A byte that stops being mapped has been stored, or the file had it; past its end the file has
  nothing. -/
  written : ∀ b node offset c data, w.mapped w.kernel.asid b = some (node, offset) →
    (w.step host input).mapped w.kernel.asid b ≠ some (node, offset) →
    w.kernel.mem b = some c → w.files node = some data → offset < data.length →
    ⟨b, node, offset, c.value⟩ ∈ (w.exec host input).1 ∨ data[offset]? = some c.value

end World

end WebTos.Shared
