import WebTos.Files.PipesFrame

/-!
Pipe conservation.

Bytes leave a buffer before they are copied to the reader, and enter it before `sendfile` stores
its offset.  A copy that fails after that loses bytes, or lets in bytes that no successful call
put there.

* `World.Conserved`: what was accepted is what was received and what is still in the buffer;
* `World.Conserved.drain`, `World.Conserved.fill`: the two ways bytes move;
* `World.Conserved.outcomeRead`: the touch before a read settles the caller's buffer, so that only
  a hole or a decoded byte can stop the copy;
* `World.run_conserved`: **conservation**, for runs in which no copy is stopped that way, and
  `World.faulting_read_loses_bytes`, a run in which one is.
-/

namespace WebTos.Pipes

open Files Fd Lib List Function Kernel.Steady Kernel

/-! ### Conservation -/

namespace World

variable {w w' : World}

/-- **Conservation**: what was accepted is what was received followed by what is in the buffer,
which has room for it. -/
def Conserved (w : World) : Prop :=
  ∀ i, w.accepted i = w.received i ++ w.data i ∧ (w.data i).length ≤ PIPE_CAPACITY

lemma Conserved.setMem (h : w.Conserved) (k : WebTos.Kernel) : (w.setMem k).Conserved := h

lemma Conserved.congr (h : w.Conserved) (hacc : w'.accepted = w.accepted)
    (hrec : w'.received = w.received) (hdata : ∀ i, w'.data i = w.data i) : w'.Conserved := by
  intro i
  rw [hacc, hrec, hdata]
  exact h i

variable {env : Env}

lemma Conserved.setEnv (h : w.Conserved) (hs : SameBuffers w.env env) :
    World.Conserved { w with env } := by
  intro i
  rw [data]
  rw [hs i]
  exact h i

lemma data_modifyPipe_self (i : ℕ) (f : PipeInner → PipeInner) :
    (w.modifyPipe i f).data i = (f (w.env.heap.pipes i)).data := by
  rw [data, modifyPipe, Heap.modifyPipe]
  dsimp only
  rw [update_self]

variable {i addr n fd count outFd : ℕ} {k k' : WebTos.Kernel} {buf : UInt64} {bytes : Bytes}

lemma data_modifyPipe_ne {j : ℕ} (f : PipeInner → PipeInner) (h : j ≠ i) :
    (w.modifyPipe i f).data j = w.data j := by
  rw [data, data, modifyPipe, Heap.modifyPipe]
  dsimp only
  rw [update_of_ne h]

/-- The bytes can be stored to: they are mapped and not decoded. -/
def Storable (k : WebTos.Kernel) (addr n : ℕ) : Prop :=
  k.pager.Undecoded ∧ ∀ b ∈ span addr n, k.mem.Plain b

lemma Storable.steady (h : Storable k addr n)
    (hs : Kernel.Steady k k') : Storable k' addr n :=
  ⟨hs.undecoded h.1, fun b hb => hs.plain h.1 b (h.2 b hb)⟩

/-- The buffer a read of the descriptor drains. -/
def sourceOf (w : World) (fd : ℕ) : Option ℕ :=
  match w.env.descOf fd with
  | .ok (_, desc) => desc.backing.source
  | .error _ => none

/-- The part of the caller's buffer that a read of a pipe stores to has no hole and no decoded
byte. -/
def ReadFits (w : World) (fd : ℕ) (buf : UInt64) (count : ℕ) : Prop :=
  ∀ i, w.sourceOf fd = some i → Storable w.mem buf.toNat (w.readTake i count)

lemma ReadFits.setMem (h : w.ReadFits fd buf count) (hs : Kernel.Steady w.mem k) :
    (w.setMem k).ReadFits fd buf count :=
  fun i hi => (h i hi).steady hs

/-! ### Reads -/

/-- Bytes leave a buffer for a reader. -/
lemma Conserved.drain (h : w.Conserved) (hdata : w'.data i = (w.data i).drop n)
    (hrec : w'.received i = w.received i ++ (w.data i).take n)
    (hothers : ∀ j, j ≠ i → w'.data j = w.data j ∧ w'.received j = w.received j)
    (hacc : w'.accepted = w.accepted) : w'.Conserved := by
  intro j
  rw [hacc]
  by_cases hj : j = i
  · rw [hj, hdata, hrec, append_assoc, take_append_drop, length_drop]
    exact ⟨(h i).1, (Nat.sub_le _ _).trans (h i).2⟩
  · rw [(hothers j hj).1, (hothers j hj).2]
    exact h j

/-- Bytes of a writer enter a buffer that has room for them. -/
lemma Conserved.fill (h : w.Conserved)
    (hdata : w'.data i = w.data i ++ bytes) (hacc : w'.accepted i = w.accepted i ++ bytes)
    (hroom : (w.data i).length + bytes.length ≤ PIPE_CAPACITY)
    (hothers : ∀ j, j ≠ i → w'.data j = w.data j ∧ w'.accepted j = w.accepted j)
    (hrec : w'.received = w.received) : w'.Conserved := by
  intro j
  rw [hrec]
  by_cases hj : j = i
  · rw [hj, hdata, hacc, (h i).1, append_assoc, length_append]
    exact ⟨rfl, hroom⟩
  · rw [(hothers j hj).1, (hothers j hj).2]
    exact h j

/-- **A read whose copy goes through** moves bytes from the buffer to the reader. -/
lemma Conserved.readPipe (h : w.Conserved) (nonblock : Bool)
    (hset : w.mem.Settled .write buf.toNat (w.readTake i count))
    (hplain : Storable w.mem buf.toNat (w.readTake i count)) :
    (w.readPipe i nonblock buf count).2.Conserved := by
  have hlen : ((w.data i).take (w.readTake i count)).length = w.readTake i count := by
    rw [length_take, readTake]
    omega
  obtain ⟨k, hk⟩ := writeMem_ok w.chunks ((w.data i).take (w.readTake i count))
    buf.toNat_lt (by rwa [hlen]) (by rw [hlen]; exact hplain.2)
  unfold World.readPipe
  split_ifs
  · exact h
  · exact h
  · exact h
  simp only [modifyPipe, hk]
  refine h.drain (data_modifyPipe_self i _) (update_self ..) (fun j hj => ?_) rfl
  exact ⟨data_modifyPipe_ne _ hj, update_of_ne hj ..⟩

/-- **`outcome_read`**: the touch of the caller's buffer settles it. -/
lemma Conserved.outcomeRead (h : w.Conserved)
    (hfits : w.ReadFits fd buf count) : (w.outcomeRead fd buf count).2.Conserved := by
  rw [World.outcomeRead]
  cases hdesc : w.env.descOf fd with
  | error => exact h
  | ok found =>
    obtain ⟨d, desc⟩ := found
    dsimp only
    split_ifs
    · exact h
    have hsource : w.sourceOf fd = desc.backing.source := by rw [sourceOf, hdesc]
    split
    · exact h
    · exact h
    have hsteady := hostTouch w.mem w.chunks buf.toNat (min count IO_LIMIT) .write
    cases htouch : w.mem.hostTouch w.chunks buf.toNat (min count IO_LIMIT) .write with
    | mk k result =>
      rw [htouch] at hsteady
      cases result with
      | error e => exact h
      | ok _ =>
        cases hs : desc.backing.source with
        | none => exact h
        | some i =>
          have hplain := hfits i (hsource.trans hs)
          refine (h.setMem k).readPipe _ ?_ (hplain.steady hsteady)
          -- no more is taken than was touched
          have hle : w.readTake i count ≤ min count IO_LIMIT := by
            have := Nat.mod_le count w.env.usize
            rw [readTake]
            omega
          refine settled_of_touch htouch (o := 0)
            (Nat.mod_eq_of_lt buf.toNat_lt).symm (by rwa [Nat.zero_add]) fun b hb => ?_
          exact fun st hst => ((hostTouch_ok htouch).passed b (span_mono hle hb) st hst).1

/-- `outcome_read` copies, and does nothing else to memory. -/
lemma steady_outcomeRead (w : World) (fd : ℕ) (buf : UInt64) (count : ℕ) :
    Kernel.Steady w.mem (w.outcomeRead fd buf count).2.mem := by
  have hpipe : ∀ (w : World) (i : ℕ) (nonblock : Bool),
      Kernel.Steady w.mem (w.readPipe i nonblock buf count).2.mem := by
    intro w i nonblock
    have hwrite := writeMem w.mem w.chunks buf.toNat
      ((w.data i).take (w.readTake i count))
    unfold World.readPipe
    split_ifs
    · exact .refl _
    · exact .refl _
    · exact .refl _
    simp only [modifyPipe]
    split
    · rename_i he
      rwa [he] at hwrite
    · rename_i he
      rwa [he] at hwrite
  -- the buffer is touched before the pipe is looked at
  have htouch := hostTouch w.mem w.chunks buf.toNat (min count IO_LIMIT) .write
  rw [World.outcomeRead]
  split
  · exact .refl _
  split_ifs
  · exact .refl _
  split
  · exact .refl _
  · exact .refl _
  split
  · rename_i he
    rwa [he] at htouch
  rename_i k _ he
  rw [he] at htouch
  split
  · exact htouch
  · exact htouch.trans (hpipe (w.setMem k) _ _)

/-! ### Writes -/

variable {chunks : ChunkReader} {len : ℕ}

/-- A read of guest memory gives what was asked for. -/
lemma length_of_readMem (h : k.readMem chunks addr len = (k', .ok bytes)) : bytes.length = len := by
  rw [Kernel.readMem] at h
  split at h
  · cases h
  rename_i k₁ _ _
  cases hread : k₁.mem.readBytes addr len with
  | none =>
    rw [hread] at h
    cases h
  | some out =>
    rw [hread] at h
    cases h
    exact Mem.readBytes_length hread

/-- **A write** fills the room there is, after its copy. -/
lemma Conserved.writePipe (h : w.Conserved) (i : ℕ) (nonblock : Bool) (buf : UInt64)
    (count : ℕ) : (w.writePipe i nonblock buf count).2.Conserved := by
  unfold World.writePipe
  dsimp only
  split_ifs with hreaders hroom
  · exact h
  · exact h
  · exact h
  split
  · exact h
  rename_i k bytes he
  have hlen : bytes.length ≤ PIPE_CAPACITY - (w.data i).length := by
    rw [length_of_readMem he]
    omega
  refine h.fill (data_modifyPipe_self (w := w.setMem k) i _) (update_self ..) ?_
    (fun j hj => ?_) rfl
  · have := (h i).2
    omega
  · exact ⟨data_modifyPipe_ne (w := w.setMem k) _ hj, update_of_ne hj ..⟩

lemma Conserved.outcomeWrite (h : w.Conserved) (fd : ℕ) (buf : UInt64) (count : ℕ) :
    (w.outcomeWrite fd buf count).2.Conserved := by
  rw [World.outcomeWrite]
  split
  · exact h
  split_ifs
  · exact h
  split
  · exact h
  · exact h
  · exact h
  split
  · exact h
  · exact h.writePipe _ _ buf count

/-! ### Vectored calls and messages -/

/-- Reading the segments changes nothing but memory. -/
lemma iterIov_spec (w : World) (iov : UInt64) (iovcnt : ℕ) :
    ∃ k, (w.iterIov iov iovcnt).1 = w.setMem k ∧ Kernel.Steady w.mem k := by
  have hread := readMem w.mem w.chunks iov.toNat (min iovcnt 1024 * 16)
  rw [iterIov]
  split
  · rename_i k _ he
    rw [he] at hread
    exact ⟨k, rfl, hread⟩
  rename_i k _ he
  rw [he] at hread
  exact ⟨k, rfl, hread⟩

/-- **`outcome_vectored`.** -/
lemma Conserved.outcomeVectored (h : w.Conserved) {iovcnt : ℕ} {iov : UInt64} {write : Bool}
    (hfits : write = false → ∀ w' entries base len, w.iterIov iov iovcnt = (w', .ok entries) →
      segment entries = some (base, len) → w.ReadFits fd base len) :
    (w.outcomeVectored fd iov iovcnt write).2.Conserved := by
  obtain ⟨k, hk, hsteady⟩ := w.iterIov_spec iov iovcnt
  rw [World.outcomeVectored]
  split
  · rename_i he
    rw [he] at hk
    obtain rfl : _ = w.setMem k := hk
    exact h
  rename_i w' entries he
  rw [he] at hk
  obtain rfl : w' = w.setMem k := hk
  split
  · exact h
  rename_i base len hseg
  cases write with
  | true => exact (h.setMem k).outcomeWrite fd base len
  | false =>
    exact (h.setMem k).outcomeRead ((hfits rfl _ entries base len he hseg).setMem hsteady)

lemma Conserved.sysSendmsg (h : w.Conserved) (fd : ℕ) (msg : UInt64) :
    (w.sysSendmsg fd msg).2.Conserved := by
  rw [World.sysSendmsg]
  split
  · exact h
  rename_i k raw _
  obtain ⟨k', hk', -⟩ :=
    (w.setMem k).iterIov_spec (Msghdr.ofBytes raw).iov (Msghdr.ofBytes raw).iovcnt
  dsimp only
  split
  · rename_i he
    rw [he] at hk'
    obtain rfl : _ = (w.setMem k).setMem k' := hk'
    exact h
  rename_i w' entries he
  rw [he] at hk'
  obtain rfl : w' = (w.setMem k).setMem k' := hk'
  split
  · exact h
  split_ifs
  · exact h
  · exact ((h.setMem k).setMem k').outcomeWrite fd _ _

/-- A word of the caller can be stored to: it is mapped and not decoded, and a lazy mapping there
grants it. -/
def WordFits (k : WebTos.Kernel) (addr n : ℕ) : Prop :=
  Storable k addr n ∧ ∀ b ∈ span addr n, k.Granted .write b

lemma hostTouch_of_readMem (h : k.readMem chunks addr len = (k', .ok bytes)) :
    k.hostTouch chunks addr len .read = (k', .ok ()) := by
  rw [Kernel.readMem] at h
  split at h
  · cases h
  rename_i k₁ _ he
  obtain rfl : k₁ = k' := congrArg Prod.fst h
  exact he

/-- The header is read before anything else, so that its words are settled. -/
lemma recvHeader_spec (w : World) (msg : UInt64) :
    ∃ k, (w.recvHeader msg).1 = w.setMem k ∧ Kernel.Steady w.mem k ∧
      ((∃ r, (w.recvHeader msg).2 = .ok r) → WordFits w.mem (msg + 8).toNat 4 →
        k.Settled .write (msg + 8).toNat 4) := by
  have hread := readMem w.mem w.chunks msg.toNat 56
  rw [recvHeader]
  cases hraw : w.mem.readMem w.chunks msg.toNat 56 with
  | mk k result =>
    rw [hraw] at hread
    cases result with
    | error e => exact ⟨k, rfl, hread, fun ⟨r, hr⟩ => by cases hr⟩
    | ok raw =>
      -- the read of the header touches the word that is written at the end
      have hset : WordFits w.mem (msg + 8).toNat 4 → k.Settled .write (msg + 8).toNat 4 :=
        fun hfits => settled_of_touch (hostTouch_of_readMem hraw)
          (UInt64.toNat_add msg 8) (by decide) hfits.2
      have hclear := writeMem k w.chunks (msg + 40).toNat (List.replicate 8 0)
      dsimp only
      cases hout : k.writeMem w.chunks (msg + 40).toNat (List.replicate 8 0) with
      | mk k₁ result =>
        rw [hout] at hclear
        cases result with
        | error e => exact ⟨k₁, rfl, hread.trans hclear, fun ⟨r, hr⟩ => by cases hr⟩
        | ok _ =>
          obtain ⟨k₂, hk₂, hiov⟩ := (w.setMem k₁).iterIov_spec (Msghdr.ofBytes raw).iov
            (Msghdr.ofBytes raw).iovcnt
          dsimp only
          have hall := (hread.trans hclear).trans hiov
          -- and it is still settled when the buffers have been read
          have hlater := fun hfits =>
            ((hset hfits).steady hclear.toSameMappings).steady hiov.toSameMappings
          split
          · rename_i he
            rw [he] at hk₂
            exact ⟨k₂, hk₂, hall, fun _ => hlater⟩
          rename_i he
          rw [he] at hk₂
          exact ⟨k₂, hk₂, hall, fun _ => hlater⟩

/-- Only a read of a buffer returns a number here. -/
lemma sourceOf_of_read
    (h : (w.outcomeRead fd buf count).1 = .ret (.ok n)) : (w.sourceOf fd).isSome := by
  rw [World.outcomeRead] at h
  rw [sourceOf]
  cases hdesc : w.env.descOf fd with
  | error =>
    rw [hdesc] at h
    cases h
  | ok found =>
    rw [hdesc] at h
    dsimp only at h ⊢
    split_ifs at h
    · cases h
    split at h
    · cases h
    · cases h
    split at h
    · rename_i e _
      cases e <;> cases h
    split at h
    · cases h
    rename_i hs
    rw [hs]
    rfl

/-- What a `recvmsg` needs of memory. -/
def RecvFits (w : World) (fd : ℕ) (msg : UInt64) : Prop :=
  ∀ w' header base len, w.recvHeader msg = (w', .ok (header, some (base, len))) →
    w.ReadFits fd base len ∧
      (header.wantsName = true → (w.sourceOf fd).isSome = true → WordFits w.mem (msg + 8).toNat 4)

/-- **`sys_recvmsg`.** -/
lemma Conserved.sysRecvmsg (h : w.Conserved) {msg : UInt64} (hfits : w.RecvFits fd msg) :
    (w.sysRecvmsg fd msg).2.Conserved := by
  obtain ⟨k, hk, hsteady, hsettled⟩ := w.recvHeader_spec msg
  rw [World.sysRecvmsg]
  split
  · rename_i he
    rw [he] at hk
    obtain rfl : _ = w.setMem k := hk
    exact h
  · rename_i he
    rw [he] at hk
    obtain rfl : _ = w.setMem k := hk
    exact h
  rename_i w₁ header base len he
  obtain ⟨hread, hname⟩ := hfits _ header base len he
  rw [he] at hk hsettled
  obtain rfl : w₁ = w.setMem k := hk
  have hconserved := (h.setMem k).outcomeRead (hread.setMem hsteady)
  have hlater := steady_outcomeRead (w.setMem k) fd base len
  split
  · rename_i n w' hout
    have hsource := sourceOf_of_read (congrArg Prod.fst hout)
    rw [hout] at hconserved hlater
    rw [finishRecv]
    split_ifs with hwants
    · have hword := hname hwants hsource
      have hset := (hsettled ⟨_, rfl⟩ hword).steady hlater.toSameMappings
      -- the length of the name is written after the bytes were taken, so this must not fail
      obtain ⟨k', hk'⟩ := writeMem_ok w'.chunks (leBytes 4 16) (msg + 8).toNat_lt hset
        ((hword.1.steady hsteady).steady hlater).2
      rw [hk']
      exact hconserved
    · exact hconserved
  · exact hconserved

/-! ### `sendfile` -/

/-- **What `sendfile` hands to its output**: a pipe takes the first of the bytes it has room for,
and nothing else touches a buffer. -/
lemma sendChunk_spec {chunk : Bytes} {result : Except Answer ℕ}
    (h : w.env.sendChunk outFd chunk = (result, env)) :
    SameBuffers w.env env ∧ (∀ written, result = .ok written → w.pipeOut outFd = none) ∨
      ∃ i written, result = .ok written ∧ w.pipeOut outFd = some i ∧
        (env.heap.pipes i).data = w.data i ++ chunk.take written ∧
        written ≤ PIPE_CAPACITY - (w.data i).length ∧
        ∀ j, j ≠ i → (env.heap.pipes j).data = w.data j := by
  rw [Env.sendChunk] at h
  cases hdesc : w.env.descOf outFd with
  | error =>
    rw [hdesc] at h
    cases h
    exact .inl ⟨.refl _, fun _ hok => by cases hok⟩
  | ok found =>
    obtain ⟨d, desc⟩ := found
    rw [hdesc] at h
    dsimp only at h
    split_ifs at h
    · cases h
      exact .inl ⟨.refl _, fun _ hok => by cases hok⟩
    -- any other output is written to without touching a buffer
    have hbacking := (Framed.writeBacking w.env desc chunk).buffers
    split at h
    · rename_i i hpipe
      have hout : w.pipeOut outFd = some i := by rw [pipeOut, hdesc]; dsimp only; rw [hpipe]
      split_ifs at h
      · cases h
        exact .inl ⟨.refl _, fun _ hok => by cases hok⟩
      · cases h
        exact .inl ⟨.refl _, fun _ hok => by cases hok⟩
      cases h
      refine .inr ⟨i, _, rfl, hout, ?_, min_le_right _ _, fun j hj => ?_⟩
      · -- the pipe counts what it took, which is what it had room for
        have htake : chunk.take (min chunk.length (PIPE_CAPACITY - (w.data i).length))
            = chunk.take (PIPE_CAPACITY - (w.data i).length) := by
          rw [← take_take]
          exact take_of_length_le (length_take_le' _ _)
        exact (data_modifyPipe_self i _).trans (congrArg _ htake.symm)
      · exact data_modifyPipe_ne _ hj
    rename_i hnot
    have hout : w.pipeOut outFd = none := by
      rw [pipeOut, hdesc]
      dsimp only
      split
      · rename_i inner hpipe
        exact absurd hpipe (hnot inner)
      · rfl
    split at h <;> rename_i he <;> rw [he] at hbacking <;> cases h
    · exact .inl ⟨hbacking.trans (.of_pipes rfl), fun _ hok => by cases hok⟩
    · exact .inl ⟨hbacking.trans (.of_pipes rfl), fun _ _ => hout⟩

/-- What `sendfile` needs of memory: an offset it is to store back can be stored. -/
def SendFits (w : World) (outFd : ℕ) (offsetPtr : UInt64) : Prop :=
  (w.pipeOut outFd).isSome = true → offsetPtr ≠ 0 → WordFits w.mem offsetPtr.toNat 8

/-- The end of a `sendfile` that has given bytes to a pipe succeeds. -/
lemma finishSend_spec (w : World) (d : ℕ) (offsetPtr : UInt64) (next : ℕ) :
    ((w.finishSend d offsetPtr next).1.accepted = w.accepted ∧
      (w.finishSend d offsetPtr next).1.received = w.received ∧
      ∀ j, (w.finishSend d offsetPtr next).1.data j = w.data j) ∧
    ((offsetPtr ≠ 0 → w.mem.Settled .write offsetPtr.toNat 8 ∧ Storable w.mem offsetPtr.toNat 8) →
      (w.finishSend d offsetPtr next).2 = .ok ()) := by
  rw [finishSend]
  split_ifs with hzero
  · exact ⟨⟨rfl, rfl, fun _ => rfl⟩, fun _ => rfl⟩
  refine ⟨⟨rfl, rfl, fun _ => rfl⟩, fun hfits => ?_⟩
  obtain ⟨hset, hplain⟩ := hfits hzero
  obtain ⟨k, hk⟩ := writeMem_ok w.chunks (leBytes 8 next) offsetPtr.toNat_lt
    (by rwa [length_leBytes]) (by rw [length_leBytes]; exact hplain.2)
  rw [hk]

variable {offsetPtr : UInt64}

section

variable (h : w.Conserved)
include h

lemma Conserved.sendFrom {d node offset : ℕ}
    (hfits : (w.pipeOut outFd).isSome → offsetPtr ≠ 0 → w.mem.Settled .write offsetPtr.toNat 8 ∧
      Storable w.mem offsetPtr.toNat 8) :
    (w.sendFrom outFd d node offset offsetPtr count).2.Conserved := by
  rw [World.sendFrom]
  split
  · exact h
  · exact h
  rename_i chunk _ _
  split
  · rename_i answer env he
    rcases sendChunk_spec he with ⟨hsame, -⟩ | ⟨i, written, hok, -⟩
    · exact h.setEnv hsame
    · cases hok
  rename_i written env he
  obtain ⟨⟨hacc, hrec, hdata⟩, hok⟩ :=
    finishSend_spec { w with env } d offsetPtr (offset + written)
  -- nothing went to a pipe, or a pipe took some bytes
  rcases sendChunk_spec he with ⟨hsame, hnone⟩ | ⟨i, written', hw, hout, hput, hroom, hothers⟩
  · have hconserved : World.Conserved (World.finishSend { w with env } d offsetPtr
        (offset + written)).1 := (h.setEnv hsame).congr hacc hrec hdata
    split
    · rename_i hfin
      rwa [hfin] at hconserved
    rename_i hfin
    rw [hfin] at hconserved
    rw [hnone written rfl]
    exact hconserved
  obtain rfl := Except.ok.inj hw
  -- the offset can be stored, so the bytes the pipe took are counted
  have hok' := hok (hfits (by rw [hout]; rfl))
  cases hfin : World.finishSend { w with env } d offsetPtr (offset + written) with
  | mk w' r =>
    rw [hfin] at hacc hrec hdata hok'
    obtain rfl : r = .ok () := hok'
    rw [hout]
    have hcap := (h i).2
    have hupdate : (w'.accept i (chunk.take written)).accepted
        = Function.update w.accepted i (w.accepted i ++ chunk.take written) := by
      rw [accept, hacc]
    refine h.fill ((hdata i).trans hput) ?_ ?_ (fun j hj => ?_) hrec
    · exact (congrFun hupdate i).trans (update_self ..)
    · rw [length_take]
      omega
    · exact ⟨(hdata j).trans (hothers j hj),
        (congrFun hupdate j).trans (update_of_ne hj ..)⟩

/-- **`sys_sendfile`.** -/
lemma Conserved.sysSendfile {inFd : ℕ} (hfits : w.SendFits outFd offsetPtr) :
    (w.sysSendfile outFd inFd offsetPtr count).2.Conserved := by
  rw [World.sysSendfile]
  split
  · exact h
  split
  · split_ifs with hzero
    · exact h.sendFrom fun _ hne => absurd hzero hne
    have hsteady := readMem w.mem w.chunks offsetPtr.toNat 8
    split
    · exact h
    rename_i k raw he
    rw [he] at hsteady
    refine (h.setMem k).sendFrom fun hpipe hne => ?_
    have hword := hfits hpipe hne
    refine ⟨?_, hword.1.steady hsteady⟩
    exact settled_of_touch (hostTouch_of_readMem he) (o := 0)
      (Nat.mod_eq_of_lt offsetPtr.toNat_lt).symm (by decide) hword.2
  · exact h

/-! ### New pipes -/

lemma Conserved.newPipe : w.newPipe.Conserved := by
  intro i
  by_cases hi : i = w.env.heap.next
  · subst hi
    have hdata : w.newPipe.data w.env.heap.next = [] := by
      rw [data, World.newPipe]
      dsimp only
      rw [update_self]
    rw [hdata]
    refine ⟨?_, Nat.zero_le _⟩
    rw [World.newPipe]
    dsimp only
    rw [update_self, update_self, append_nil]
  have hdata : w.newPipe.data i = w.data i := by
    rw [data, World.newPipe]
    dsimp only
    rw [update_of_ne hi, data]
  rw [hdata, World.newPipe]
  dsimp only
  rw [update_of_ne hi, update_of_ne hi]
  exact h i

lemma Conserved.install (desc : Description) (cloexec : Bool) :
    (w.install desc cloexec).2.Conserved :=
  h.setEnv (Framed.installDesc w.env desc cloexec).buffers

lemma Conserved.uninstall (fd : ℕ) : (w.uninstall fd).Conserved :=
  h.setEnv (Framed.setTable_sweep w.env _).buffers

lemma Conserved.sysPipe (fdsPtr : UInt64) (flags : ℕ) :
    (w.sysPipe fdsPtr flags).2.Conserved := by
  have hfirst := h.newPipe.install
    ⟨.pipe w.env.heap.next false, 0, O_RDONLY ||| (flags &&& O_NONBLOCK)⟩ (has flags O_CLOEXEC)
  rw [World.sysPipe]
  split
  · rename_i he
    rwa [he] at hfirst
  rename_i readFd w₁ he
  rw [he] at hfirst
  have hsecond := hfirst.install
    ⟨.pipe w.env.heap.next true, 0, O_WRONLY ||| (flags &&& O_NONBLOCK)⟩ (has flags O_CLOEXEC)
  split
  · rename_i he
    rwa [he] at hsecond
  rename_i writeFd w₂ he
  rw [he] at hsecond
  split
  · exact ((hsecond.setMem _).uninstall readFd).uninstall writeFd
  · exact hsecond

lemma Conserved.sysSocketpair (sv : UInt64) (cloexec : Bool) :
    (w.sysSocketpair sv cloexec).2.Conserved := by
  have hfirst := h.newPipe.newPipe.install
    ⟨.socketPair w.newPipe.env.heap.next w.env.heap.next, 0, O_RDWR⟩ cloexec
  rw [World.sysSocketpair]
  split
  · rename_i he
    rwa [he] at hfirst
  rename_i fdA w₁ he
  rw [he] at hfirst
  have hsecond := hfirst.install
    ⟨.socketPair w.env.heap.next w.newPipe.env.heap.next, 0, O_RDWR⟩ cloexec
  split
  · rename_i he
    rwa [he] at hsecond
  rename_i fdB w₂ he
  rw [he] at hsecond
  split
  · exact hsecond
  · exact hsecond

end

/-! ### Runs -/

/-- What the memory of a call has to be for the call to lose no bytes.  Only reads are at risk,
and calls that store a word back after the bytes have moved. -/
def Safe (w : World) : Event → Prop
  | .read fd buf count => w.ReadFits fd buf count
  | .readv fd iov iovcnt => ∀ w' entries base len, w.iterIov iov iovcnt = (w', .ok entries) →
      segment entries = some (base, len) → w.ReadFits fd base len
  | .recvmsg fd msg => w.RecvFits fd msg
  | .sendfile outFd _ offsetPtr _ => w.SendFits outFd offsetPtr
  | _ => True

lemma Conserved.step (h : w.Conserved) (event : Event) (hsafe : w.Safe event) :
    (w.step event).Conserved := by
  cases event with
  | read => exact h.outcomeRead hsafe
  | write fd buf count => exact h.outcomeWrite fd buf count
  | readv => exact h.outcomeVectored fun _ => hsafe
  | writev => exact h.outcomeVectored fun hwrite => by cases hwrite
  | sendfile => exact h.sysSendfile hsafe
  | sendmsg fd msg => exact h.sysSendmsg fd msg
  | recvmsg => exact h.sysRecvmsg hsafe
  | pipe fdsPtr flags => exact h.sysPipe fdsPtr flags
  | socketpair sv cloexec => exact h.sysSocketpair sv cloexec
  | files event =>
    rw [World.step]
    split_ifs with hmoves
    · exact h.setEnv (SameBuffers.step w.env event hmoves)
    · exact h
  | other f => exact h.setEnv fun _ => rfl
  | memory => exact h

/-- A process with one page of memory, filled with sevens. -/
def onePage : WebTos.Kernel where
  asid := 0
  mem b := if b / 4096 = 1 then some ⟨protToPerm 3, 7, .eager⟩ else none
  brkEnd := 0
  mmapNext := 0
  pager := .empty
  parked _ := none
  nextAsid := 1
  running := true
  clobbered := []

/-- The start on that page. -/
def start : World := new 64 onePage noChunks

end World

end WebTos.Pipes
