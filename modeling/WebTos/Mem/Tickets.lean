import WebTos.Lib.Run
import WebTos.Vfs.Ops
import WebTos.Mem.Pager

/-!
Page-in tickets: a chunk the pager asks for, and its delivery (`pager.rs`, `chunk.rs`).

A request carries the generation of its address space.  Every edit of the space's mappings
starts a new generation, and `complete` compares the two numbers.

* `Vfs.putChunk`, `Pager.complete`: the delivery of a chunk to the chunk store;
* `Paging`, `Paging.Op`, `Paging.step`: a pager with its store, and its operations;
* `Pager.AtLeast`: a lower bound on the generation of an address space, which an
  operation that counts keeps and an edit raises (`Paging.atLeast_step`);
* `Paging.Counts`: the edits that do count;
* `Paging.complete_fresh`: a completed request was overtaken by no edit, over every run
  whose operations count; and a refused completion leaves the store as it was.
-/

namespace WebTos

open Lib

/-! ### The chunk store -/

namespace Vfs

/-- `put_chunk`, with the digest function.  A chunk that is resident is not replaced. -/
def putChunk (sha256 : Bytes → Hash) (v : Vfs) (expected : Hash) (bytes : Bytes) :
    Except String Vfs :=
  match if v.chunks.contains expected then .ok () else v.reserve bytes.length with
  | .error _ => .error "chunk exceeds the storage budget"
  | .ok () =>
    if sha256 bytes ≠ expected then .error "chunk digest mismatch"
    else .ok { v with chunks := v.chunks.insertIfNew expected bytes }

end Vfs

/-! ### The pager's operations, one after the other -/

/-- The request is of the space's generation, and its page is still mapped. -/
def Pager.current (g : Pager) (request : PageRequest) : Bool :=
  match g.spaces[request.asid]? with
  | none => false
  | some space =>
    decide (space.generation = request.generation) &&
      space.mappings.any (·.covers request.page)

/-- `complete`. -/
def Pager.complete (sha256 : Bytes → Hash) (g : Pager) (v : Vfs) (ticket : ℕ) (bytes : Bytes) :
    Except String Unit × Pager × Vfs :=
  match g.pending with
  | none => (.error "no page-in is pending", g, v)
  | some request =>
    if request.ticket ≠ ticket then
      (.error "page-in ticket does not match the pending request", g, v)
    else if !g.current request then
      (.error "stale page-in ticket", { g with pending := none }, v)
    else
      match v.putChunk sha256 request.hash bytes with
      | .error why => (.error why, g, v)
      | .ok v => (.ok (), { g with pending := none }, v)

/-- A pager and the filesystem with its chunk store. -/
structure Paging where
  pager : Pager
  vfs : Vfs

namespace Paging

/-- An operation of the pager. -/
inductive Op where
  | map (asid : ℕ) (mapping : FileMapping)
  | unmap (asid start len : ℕ)
  | protect (asid start len : ℕ) (newPerm : UInt8)
  | remap (asid oldStart oldLen newStart newLen : ℕ)
  | forkSpace (parent child : ℕ)
  | dropSpace (asid : ℕ)
  | resolve (asid address : ℕ) (access : AccessKind)
  | markResident (asid page : ℕ)
  | complete (ticket : ℕ) (bytes : Bytes)

/-- The address space whose mappings an operation is to change. -/
def Op.edits : Op → Option ℕ
  | .map asid _ | .unmap asid _ _ | .protect asid _ _ _ | .remap asid _ _ _ _
  | .dropSpace asid => some asid
  | .forkSpace _ _ | .resolve _ _ _ | .markResident _ _ | .complete _ _ => none

variable (sha256 : Bytes → Hash)

/-- The pager after an operation. -/
def step (s : Paging) : Op → Paging
  | .map asid mapping => { s with pager := s.pager.map asid mapping }
  | .unmap asid start len => { s with pager := s.pager.unmap asid start len }
  | .protect asid start len newPerm => { s with pager := s.pager.protect asid start len newPerm }
  | .remap asid oldStart oldLen newStart newLen =>
    { s with pager := s.pager.remap asid oldStart oldLen newStart newLen }
  | .forkSpace parent child => { s with pager := s.pager.forkSpace parent child }
  | .dropSpace asid => { s with pager := s.pager.dropSpace asid }
  | .resolve asid address access =>
    { s with pager := (s.pager.resolve s.vfs.readChunkedRange asid address access).2 }
  | .markResident asid page => { s with pager := s.pager.markResident asid page }
  | .complete ticket bytes =>
    let (_, pager, vfs) := s.pager.complete sha256 s.vfs ticket bytes
    ⟨pager, vfs⟩

/-- What `complete` returns. -/
def completion (s : Paging) (ticket : ℕ) (bytes : Bytes) : Except String Unit :=
  (s.pager.complete sha256 s.vfs ticket bytes).1

end Paging

/-! ### The generation of an address space -/

variable {ms : List FileMapping} {perm : UInt8}

namespace Pager

variable {g : Pager} {n asid a : ℕ}

/-- The address space, if there is one, is of generation `n` or of a later one. -/
def AtLeast (g : Pager) (asid n : ℕ) : Prop :=
  ∀ space, g.spaces[asid]? = some space → n ≤ space.generation

/-- The generations of the address space have not come to the end of a `u64`. -/
def Room (g : Pager) (asid : ℕ) : Prop :=
  ∀ space, g.spaces[asid]? = some space → space.generation + 1 < 2 ^ 64

lemma nextGeneration_of_lt (h : n + 1 < 2 ^ 64) : nextGeneration n = n + 1 := by
  rw [nextGeneration, wrapAdd, Nat.mod_eq_of_lt h]
  exact max_eq_left (by omega)

lemma AtLeast.of_none (h : g.spaces[asid]? = none) : g.AtLeast asid n := by
  intro space hs
  rw [h] at hs
  cases hs

lemma AtLeast.of_spaces {g' : Pager} (h : g.AtLeast asid n) (hs : g'.spaces = g.spaces) :
    g'.AtLeast asid n := by
  rwa [AtLeast, hs]

variable {r : Finset (ℕ × ℕ)} {q : Option PageRequest} {space : AddressSpace} {t : ℕ}

/-- An address space is replaced by one of a later generation, or another one is. -/
lemma AtLeast.insert (h : a ≠ asid → g.AtLeast asid n) (hs : a = asid → n ≤ space.generation) :
    AtLeast ⟨g.spaces.insert a space, r, q, t⟩ asid n := by
  intro space' hs'
  rw [Std.TreeMap.getElem?_insert] at hs'
  simp only [Nat.compare_eq_eq] at hs'
  split_ifs at hs' with ha
  · rw [← Option.some.inj hs']
    exact hs ha
  · exact h ha space' hs'

/-- By how much an edit of the space `a` raises the generation of `asid`. -/
def raise (a asid : ℕ) : ℕ := if a = asid then 1 else 0

/-- **An edit** raises the generation of its space and leaves the others. -/
lemma AtLeast.edited (h : g.AtLeast asid n) (hs : g.spaces[a]? = some space)
    (hroom : a = asid → g.Room asid) :
    AtLeast ⟨g.spaces.insert a ⟨nextGeneration space.generation, ms⟩, r, q, t⟩ asid
      (n + raise a asid) := by
  refine AtLeast.insert (fun ha => ?_) fun ha => ?_
  · rwa [raise, if_neg ha]
  subst ha
  rw [raise, if_pos rfl, nextGeneration_of_lt (hroom rfl space hs)]
  exact Nat.succ_le_succ (h space hs)

lemma AtLeast.map {m : FileMapping} (h : g.AtLeast asid n)
    (hroom : a = asid → (∃ space, g.spaces[asid]? = some space) ∧ g.Room asid) :
    (g.map a m).AtLeast asid (n + raise a asid) := by
  rw [Pager.map]
  cases hs : g.spaces[a]? with
  | some => exact h.edited hs fun ha => (hroom ha).2
  | none =>
    -- The space is created, so it is not the one the bound speaks about.
    have ha : a ≠ asid := by
      rintro rfl
      obtain ⟨⟨space, hs'⟩, -⟩ := hroom rfl
      rw [hs] at hs'
      cases hs'
    rw [raise, if_neg ha]
    exact AtLeast.insert (fun _ => h) fun ha' => absurd ha' ha

lemma AtLeast.dropSpace (h : g.AtLeast asid n) :
    (g.dropSpace a).AtLeast asid (n + raise a asid) := by
  intro space hs
  rw [Pager.dropSpace, Std.TreeMap.getElem?_erase] at hs
  simp only [Nat.compare_eq_eq] at hs
  split_ifs at hs with ha
  rw [raise, if_neg ha]
  exact h space hs

lemma AtLeast.of_absent (h : g.AtLeast asid n) (hs : g.spaces[a]? = none) :
    g.AtLeast asid (n + raise a asid) := by
  rw [raise]
  split_ifs with ha
  · exact .of_none (ha ▸ hs)
  · exact h

variable {len start : ℕ}

lemma AtLeast.unmap (h : g.AtLeast asid n) (hroom : a = asid → start + len < 2 ^ 64 → g.Room asid) :
    (g.unmap a start len).AtLeast asid (n + raise a asid) := by
  rw [Pager.unmap]
  split_ifs with hover
  · -- a range up to the end of the address space drops the space
    exact h.dropSpace
  cases hs : g.spaces[a]? with
  | none => exact h.of_absent hs
  | some space => exact h.edited hs fun ha => hroom ha (by omega)

/-- A range that wraps around is not counted, so it must not be one of the space. -/
lemma AtLeast.protect (h : g.AtLeast asid n)
    (hroom : a = asid → (∃ space, g.spaces[asid]? = some space) → start + len < 2 ^ 64 ∧
      g.Room asid) :
    (g.protect a start len perm).AtLeast asid (n + raise a asid) := by
  rw [Pager.protect]
  cases hs : g.spaces[a]? with
  | none => simpa using h.of_absent hs
  | some space =>
    split_ifs with hover
    · have ha : a ≠ asid := by
        rintro rfl
        exact absurd (hroom rfl ⟨space, hs⟩).1 (by omega)
      rwa [raise, if_neg ha]
    · exact h.edited hs fun ha => (hroom ha ⟨space, ha ▸ hs⟩).2

lemma AtLeast.remap {oldStart oldLen newStart newLen : ℕ} (h : g.AtLeast asid n)
    (hroom : a = asid → g.Room asid) :
    (g.remap a oldStart oldLen newStart newLen).AtLeast asid (n + raise a asid) := by
  rw [Pager.remap]
  cases hs : g.spaces[a]? with
  | none => exact h.of_absent hs
  | some => exact h.edited hs hroom

/-- A fork begins the generations of the child anew. -/
lemma AtLeast.forkSpace {parent child : ℕ} (h : g.AtLeast asid n)
    (hchild : child = asid → g.spaces[parent]? = none) :
    (g.forkSpace parent child).AtLeast asid n := by
  rw [Pager.forkSpace]
  cases hs : g.spaces[parent]? with
  | none => exact h
  | some =>
    refine AtLeast.insert (fun _ => h) fun ha => ?_
    rw [hchild ha] at hs
    cases hs

lemma complete_spaces (sha256 : Bytes → Hash) (g : Pager) (v : Vfs) (ticket : ℕ) (bytes : Bytes) :
    (g.complete sha256 v ticket bytes).2.1.spaces = g.spaces := by
  rw [complete]
  repeat' split
  all_goals rfl

end Pager

namespace Paging

variable {sha256 : Bytes → Hash} {s : Paging} {asid n : ℕ}

/-- The operation, if it edits the address space, is counted in its generations: the
space is not created anew or replaced by a copy, the range does not wrap around, and the
next generation is a `u64`. -/
def CountsFor (g : Pager) (asid : ℕ) : Op → Prop
  | .map a _ => a = asid → (∃ space, g.spaces[asid]? = some space) ∧ g.Room asid
  | .unmap a start len => a = asid → start + len < 2 ^ 64 → g.Room asid
  | .protect a start len _ =>
    a = asid → (∃ space, g.spaces[asid]? = some space) → start + len < 2 ^ 64 ∧ g.Room asid
  | .remap a _ _ _ _ => a = asid → g.Room asid
  | .forkSpace parent child => child = asid → g.spaces[parent]? = none
  | _ => True

/-- While a request is pending, operations on its address space count. -/
def Counts (s : Paging) (op : Op) : Prop :=
  ∀ request, s.pager.pending = some request → CountsFor s.pager request.asid op

/-- By how much an operation raises the generation of an address space. -/
def Op.raise (op : Op) (asid : ℕ) : ℕ := op.edits.elim 0 (Pager.raise · asid)

/-- **One operation**: an edit that counts raises the bound on the generation of its
space by one, and every other operation keeps it. -/
lemma atLeast_step {op : Op} (h : s.pager.AtLeast asid n) (hop : CountsFor s.pager asid op) :
    (s.step sha256 op).pager.AtLeast asid (n + op.raise asid) := by
  cases op with
  | map a m => exact h.map hop
  | unmap => exact h.unmap hop
  | protect => exact h.protect hop
  | remap => exact h.remap hop
  | dropSpace a => exact h.dropSpace
  | forkSpace => exact h.forkSpace hop
  | resolve => exact h.of_spaces (Pager.resolve_table ..).1
  | markResident => exact h
  | complete => exact h.of_spaces (Pager.complete_spaces ..)

/-- Operations that count, with one request pending all along, raise the bound on the
generation of its space by the number of edits among them. -/
lemma atLeast_run {request : PageRequest} (ops : List Op)
    (hpend : Guarded (step sha256) (fun s _ => s.pager.pending = some request) s ops)
    (hcount : Guarded (step sha256) Counts s ops) (h : s.pager.AtLeast request.asid n) :
    (run (step sha256) s ops).pager.AtLeast request.asid
      (n + (ops.map (Op.raise · request.asid)).sum) := by
  induction ops generalizing s n with
  | nil => exact h
  | cons op ops ih =>
    have hrun := ih hpend.2 hcount.2 (atLeast_step h (hcount.1 request hpend.1))
    rwa [List.map_cons, List.sum_cons, ← Nat.add_assoc]

end Paging

namespace Pager

variable {g : Pager} {read : ChunkReader} {asid generation page : ℕ} {access : AccessKind}
  {request : PageRequest} {bytes : Bytes}

variable {address : ℕ}

/-- A request that `resolve` makes names the space and its generation. -/
lemma request_of_resolve (hnone : g.pending = none)
    (h : (g.resolve read asid address access).2.pending = some request) :
    request.asid = asid ∧
      request.generation = (g.spaces[asid]?.map AddressSpace.generation).getD 0 := by
  have hbuilds := g.resolve_builds (P := fun _ => True) read asid address access
    (fun _ _ => trivial) trivial
  generalize g.resolve read asid address access = out at h hbuilds
  rcases hbuilds with rfl | ⟨page, hbuilds⟩
  · cases hnone.symm.trans h
  cases hbuilds with
  | ask _ hasid hgeneration =>
    obtain rfl := Option.some.inj h
    exact ⟨hasid, hgeneration⟩
  | ready | invalid | again => cases hnone.symm.trans h

/-- At the moment it is made, a request is of its space's generation. -/
lemma atLeast_of_resolve (hnone : g.pending = none)
    (h : (g.resolve read asid address access).2.pending = some request) :
    (g.resolve read asid address access).2.AtLeast request.asid request.generation := by
  obtain ⟨hasid, hgen⟩ := request_of_resolve hnone h
  intro space hs
  rw [(resolve_table g read asid address access).1, hasid] at hs
  rw [hgen, hs]
  exact le_refl _

/-- A completion asks for the generation the request was made in. -/
lemma generation_of_complete {sha256 : Bytes → Hash} {v : Vfs} {ticket : ℕ}
    (hpend : g.pending = some request) (h : (g.complete sha256 v ticket bytes).1 = .ok ()) :
    ∃ space, g.spaces[request.asid]? = some space ∧ space.generation = request.generation := by
  rw [complete, hpend] at h
  dsimp only at h
  split_ifs at h with hticket hcurrent
  rw [Bool.not_eq_true', Bool.not_eq_false] at hcurrent
  rw [current] at hcurrent
  split at hcurrent
  · cases hcurrent
  · next space hs =>
      rw [Bool.and_eq_true, decide_eq_true_eq] at hcurrent
      exact ⟨space, hs, hcurrent.1⟩

/-- A completion succeeds, or leaves the filesystem and its store as they were. -/
lemma complete_or_vfs (sha256 : Bytes → Hash) (g : Pager) (v : Vfs) (ticket : ℕ) (bytes : Bytes) :
    (g.complete sha256 v ticket bytes).1 = .ok () ∨
      (g.complete sha256 v ticket bytes).2.2 = v := by
  rw [complete]
  cases g.pending with
  | none => exact .inr rfl
  | some request =>
    dsimp only
    split_ifs
    · exact .inr rfl
    · exact .inr rfl
    cases v.putChunk sha256 request.hash bytes with
    | error why => exact .inr rfl
    | ok v' => exact .inl rfl

end Pager

namespace Paging

/-- **A ticket that completes is fresh**: of the operations between the `resolve` that put
its request there and the completion, none edits the request's address space, if they all
count.  And a completion that is refused leaves the chunk store unchanged. -/
theorem complete_fresh (sha256 : Bytes → Hash) (v : Vfs) :
    (∀ (before between : List Op) (asid address : ℕ) (access : AccessKind)
        (request : PageRequest) (ticket : ℕ) (bytes : Bytes),
      let s₀ := run (step sha256) ⟨.empty, v⟩ before
      let s₁ := s₀.step sha256 (.resolve asid address access)
      let s₂ := run (step sha256) s₁ between
      s₀.pager.pending = none → s₁.pager.pending = some request →
      Guarded (step sha256) (fun s _ => s.pager.pending = some request) s₁ between →
      s₂.pager.pending = some request → s₂.completion sha256 ticket bytes = .ok () →
      Guarded (step sha256) Counts s₁ between →
      ∀ op ∈ between, op.edits ≠ some request.asid) ∧
    (∀ (ops : List Op) (ticket : ℕ) (bytes : Bytes) (why : String),
      let s := run (step sha256) ⟨.empty, v⟩ ops
      s.completion sha256 ticket bytes = .error why →
      (s.step sha256 (.complete ticket bytes)).vfs.chunks = s.vfs.chunks) := by
  refine ⟨?_, ?_⟩
  · intro before between asid address access request ticket bytes s₀ s₁ s₂ hnone hissue hpend
      hpend' hok hcount op hop hedit
    have hbound := atLeast_run between hpend hcount (Pager.atLeast_of_resolve hnone hissue)
    obtain ⟨space, hs, hgen⟩ := Pager.generation_of_complete hpend' hok
    -- The space is of the request's generation, and yet at least one edit later.
    have hle := hbound space hs
    have hmem : op.raise request.asid ∈ between.map (Op.raise · request.asid) :=
      List.mem_map_of_mem hop
    have hone : op.raise request.asid = 1 := by
      rw [Op.raise, hedit]
      exact if_pos rfl
    have hsum := List.single_le_sum (fun _ _ => Nat.zero_le _) _ hmem
    omega
  intro ops ticket bytes why s hwhy
  rcases Pager.complete_or_vfs sha256 s.pager s.vfs ticket bytes with hok | hvfs
  · rw [completion, hok] at hwhy
    cases hwhy
  · exact congrArg Vfs.chunks hvfs

/-! A file of one byte, mapped at one page, with the byte for its own digest. -/

/-- The mapping of the page at `4096`. -/
def oneByte : FileMapping :=
  ⟨4096, 8192, 4096, 0, 1, Perm.READ, 0, ⟨1, 4096, [[7]]⟩, by decide⟩

/-- A filesystem without nodes or chunks. -/
def bareVfs : Vfs := ⟨[], ∅, none, none, []⟩

/-- The pager once the page is mapped in space `7`, and once it has been asked for. -/
def asked : Paging :=
  run (step id) ⟨.empty, bareVfs⟩ [.map 7 oneByte, .resolve 7 4096 .read]

/-- The request that is pending then. -/
def askedFor : PageRequest := ⟨1, [7], 7, 1, 4096, .read⟩

/-- An edit of another space comes between, and the ticket is fresh. -/
theorem complete_fresh_other_space :
    (run (step id) asked [.map 8 oneByte]).completion id 1 [7] = .ok () ∧
      ∀ op ∈ [Op.map 8 oneByte], op.edits ≠ some askedFor.asid := by
  refine ⟨by decide +kernel, ?_⟩
  refine (complete_fresh id bareVfs).1 [.map 7 oneByte] [.map 8 oneByte] 7 4096 .read askedFor 1
    [7] (by decide +kernel) (by decide +kernel) ⟨by decide +kernel, trivial⟩ (by decide +kernel)
    (by decide +kernel) ⟨?_, trivial⟩
  intro request hrequest hasid
  obtain rfl : askedFor = request :=
    Option.some.inj ((by decide +kernel : asked.pager.pending = some askedFor).symm.trans hrequest)
  cases hasid

/-- The space is dropped and made again, so its generations begin anew: the ticket of the
space before completes, and its chunk enters the store. -/
theorem old_ticket_completes :
    let between : List Op := [.dropSpace 7, .map 7 oneByte]
    let s := run (step id) asked between
    asked.pager.pending = some askedFor ∧
      Guarded (step id) (fun s _ => s.pager.pending = some askedFor) asked between ∧
      s.pager.pending = some askedFor ∧
      s.completion id askedFor.ticket [7] = .ok () ∧
      (s.step id (.complete askedFor.ticket [7])).vfs.chunks[askedFor.hash]? = some [7] ∧
      ∀ op ∈ between, op.edits = some askedFor.asid := by
  refine ⟨by decide +kernel, ⟨by decide +kernel, by decide +kernel, trivial⟩, by decide +kernel,
    by decide +kernel, by decide +kernel, by decide +kernel⟩

end Paging

end WebTos
