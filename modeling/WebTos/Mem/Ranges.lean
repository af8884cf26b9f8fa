import WebTos.Mem.Tickets
import WebTos.Vfs.Codec

/-!
What `read_range` gives of a chunked file.

* `Vfs.Stocked`: the chunks were put into the store one after the other, each under its digest;
* `ChunkedFile.Laid`: the chunks of a file, those in front of a range with the layout's lengths;
* `Vfs.readChunks_spec`: the loop, from a chunk on;
* `Vfs.readChunkedRange_slice`: a range that is given is one of the file, and one that is not
  names the first chunk that is not there, or one of the wrong length;
* `Vfs.readChunkedRange_shifted`: chunks of other lengths, put together, are another file.
-/

namespace WebTos

open List Function Std Nat

namespace ChunkedFile

variable {file : ChunkedFile} {sha256 : Bytes → Hash}

/-- The length of a chunk by the layout. -/
def spanLen (file : ChunkedFile) (i : ℕ) : ℕ :=
  min (i * file.chunkSize + file.chunkSize) file.size - i * file.chunkSize

/-- The chunks have the digests of the layout, and the first `n` of them its lengths. -/
def Laid (sha256 : Bytes → Hash) (file : ChunkedFile) (n : ℕ) (content : List Bytes) : Prop :=
  content.map sha256 = file.chunks ∧ ∀ i < n, ∀ c, content[i]? = some c → c.length = file.spanLen i

lemma Built.size_le (h : file.Built) :
    0 < file.chunkSize ∧ file.size ≤ file.chunks.length * file.chunkSize := by
  obtain ⟨-, hpos, hcount⟩ := ChunkedFile.new_ok h
  rw [hcount, mul_comm, ← smul_eq_mul]
  exact ⟨hpos, le_smul_ceilDiv hpos⟩

end ChunkedFile

namespace Vfs

variable {sha256 : Bytes → Hash} {file : ChunkedFile} {store : TreeMap Hash Bytes}
  {offset stop : ℕ}

/-- `ChunkStore::insert`. -/
def insertChunk (sha256 : Bytes → Hash) (store : TreeMap Hash Bytes) (expected : Hash)
    (bytes : Bytes) : Except String (TreeMap Hash Bytes) :=
  if sha256 bytes ≠ expected then .error "chunk digest mismatch"
  else .ok (store.insertIfNew expected bytes)

/-- The store was filled by `insert`; a chunk that is refused changes nothing. -/
def Stocked (sha256 : Bytes → Hash) (store : TreeMap Hash Bytes) : Prop :=
  ∃ puts : List (Hash × Bytes), store = puts.foldl (fun store put =>
    ((insertChunk sha256 store put.1 put.2).toOption).getD store) ∅

lemma Stocked.digest (h : Stocked sha256 store) {hash : Hash} {chunk : Bytes}
    (hc : store[hash]? = some chunk) : sha256 chunk = hash := by
  obtain ⟨puts, rfl⟩ := h
  induction puts using List.reverseRecOn generalizing hash chunk with
  | nil => simp at hc
  | append_singleton _ _ ih =>
    rw [foldl_append, foldl_cons, foldl_nil, insertChunk] at hc
    split_ifs at hc with hne
    · exact ih hc
    · simp only [Except.toOption, Option.getD_some, TreeMap.getElem?_insertIfNew] at hc
      split_ifs at hc with hnew
      · obtain rfl := Option.some.inj hc
        exact (not_not.mp hne).trans (LawfulEqCmp.eq_of_compare hnew.1)
      · exact ih hc

/-- The refusal of a chunk. -/
def wrongLength (index held expected : ℕ) : String :=
  s!"verified chunk {index} has {held} bytes; manifest layout requires {expected}"

/-- The chunk is in the store. -/
def Held (store : TreeMap Hash Bytes) (file : ChunkedFile) (i : ℕ) (chunk : Bytes) : Prop :=
  ∃ hash, file.chunks[i]? = some hash ∧ store[hash]? = some chunk

/-- What is said of a range: its bytes, the first chunk of it that is not there, or a chunk of the
wrong length. -/
def Says (store : TreeMap Hash Bytes) (file : ChunkedFile) (offset stop : ℕ)
    (slice : Bytes → Prop) : ReadRange → Prop
  | .ready bytes => slice bytes
  | .missing hash => ∃ i, file.chunks[i]? = some hash ∧ store[hash]? = none ∧
      i * file.chunkSize < stop ∧ offset < i * file.chunkSize + file.chunkSize ∧
      ∀ j < i, offset < j * file.chunkSize + file.chunkSize → ∃ chunk, Held store file j chunk
  | .invalid why => ∃ i chunk, Held store file i chunk ∧ chunk.length ≠ file.spanLen i ∧
      why = wrongLength i chunk.length (file.spanLen i)

lemma Says.imp {P Q : Bytes → Prop} (h : ∀ bytes, P bytes → Q bytes) {r : ReadRange}
    (htold : Says store file offset stop P r) : Says store file offset stop Q r := by
  cases r with
  | ready bytes => exact h bytes htold
  | missing | invalid => exact htold

/-- **The loop of `read_range`**, from a chunk on; `rest` are the chunks from there. -/
lemma readChunks_spec (hsize : stop ≤ file.size)
    (hcount : file.size ≤ file.chunks.length * file.chunkSize) (hashes : List Hash) :
    ∀ {index cursor : ℕ} {out : Bytes}, file.chunks.drop index = hashes → offset ≤ cursor →
      stop ≤ cursor ∨ index * file.chunkSize ≤ cursor ∧
        cursor < index * file.chunkSize + file.chunkSize →
      (∀ j < index, offset < j * file.chunkSize + file.chunkSize →
        ∃ chunk, Held store file j chunk) →
      Says store file offset stop (fun bytes => ∀ rest : List Bytes,
          Forall₂ (fun hash chunk => ∀ held, store[hash]? = some held → held = chunk) hashes rest →
          bytes = out ++ (rest.flatten.drop (cursor - index * file.chunkSize)).take (stop - cursor))
        (readChunks store file stop hashes index cursor out) := by
  induction hashes with
  | nil =>
    intro index cursor out hdrop _ hin _
    have hindex := mul_le_mul_right file.chunkSize (drop_eq_nil_iff.mp hdrop)
    rw [readChunks, if_pos (by omega)]
    intro rest hrest
    cases hrest
    simp
  | cons hash hashes ih =>
    intro index cursor out hdrop hle hin hseen
    by_cases hdone : stop ≤ cursor
    · rw [readChunks, if_pos hdone]
      intro rest _
      rw [Nat.sub_eq_zero_of_le hdone, take_zero, append_nil]
    obtain ⟨hfirst, hlast⟩ := hin.resolve_left hdone
    have hget : file.chunks[index]? = some hash := by
      rw [← add_zero index, ← getElem?_drop, hdrop]
      rfl
    rw [readChunks, if_neg hdone]
    cases hstore : store[hash]? with
    | none => exact ⟨index, hget, hstore, by omega, by omega, hseen⟩
    | some chunk =>
      dsimp only
      split_ifs with hlen
      · exact ⟨index, chunk, ⟨hash, hget, hstore⟩, hlen, rfl⟩
      -- the part that is taken reaches the end of the range, or of the chunk
      generalize hpart : (chunk.drop (cursor - index * file.chunkSize)).take (stop - cursor) = part
      have hreach : part.length =
          min (stop - cursor) (chunk.length - (cursor - index * file.chunkSize)) := by
        rw [← hpart, length_take, length_drop]
      have hnext : (index + 1) * file.chunkSize = index * file.chunkSize + file.chunkSize :=
        succ_mul _ _
      have hdrop' : file.chunks.drop (index + 1) = hashes := by
        simpa using congrArg List.tail hdrop
      refine Says.imp (fun bytes hbytes rest hrest => ?_) (ih hdrop'
        (hle.trans (le_add_right cursor part.length)) (by omega) fun j hj hoffset => ?_)
      · cases hrest with
        | @cons _ chunk' _ rest hhead hrest =>
          obtain rfl := hhead chunk hstore
          rw [hbytes rest hrest, append_assoc, flatten_cons, drop_append_of_le_length (by omega),
            take_append, hpart, length_drop]
          congr 2
          by_cases hend : stop ≤ cursor + part.length
          · rw [Nat.sub_eq_zero_of_le hend, Nat.sub_eq_zero_of_le (by omega : stop - cursor ≤ _),
              take_zero, take_zero]
          · rw [Nat.sub_eq_zero_of_le (by omega : cursor + part.length ≤ _), drop_zero,
              Nat.sub_add_eq, hreach, min_eq_right (by omega)]
      · rcases Nat.lt_succ_iff_lt_or_eq.mp hj with hj | rfl
        · exact hseen j hj hoffset
        · exact ⟨chunk, hash, hget, hstore⟩

/-- Whole chunks are left out one by one. -/
lemma drop_flatten {size : ℕ} : ∀ {n : ℕ} {content : List Bytes}, n ≤ content.length →
    (∀ i < n, ∀ c, content[i]? = some c → c.length = size) →
    content.flatten.drop (n * size) = (content.drop n).flatten := by
  intro n
  induction n with
  | zero => simp
  | succ n ih =>
    intro content hn h
    cases content with
    | nil => cases hn
    | cons c =>
      have hc := h 0 n.succ_pos c rfl
      rw [flatten_cons, drop_succ_cons, succ_mul, add_comm, ← drop_drop, ← hc, drop_left,
        hc]
      exact ih (le_of_succ_le_succ hn) fun i hi => h (i + 1) (succ_lt_succ hi)

/-- **What `read_range` says of a range** is right, with a digest function without collisions.  Only
the chunks in front of the range have to have the lengths of the layout. -/
theorem readChunkedRange_slice (hsha : Injective sha256) {v : Vfs}
    (hstocked : Stocked sha256 v.chunks) (hbuilt : file.Built) (hsize : file.size < 2 ^ 64)
    (offset len : ℕ) :
    Says v.chunks file offset (min (offset + len) file.size)
      (fun bytes => ∀ content, file.Laid sha256 (offset / file.chunkSize) content → bytes =
        (content.flatten.drop offset).take (min (offset + len) file.size - offset))
      (v.readChunkedRange file offset len) := by
  have hstop : min (satAdd offset len) file.size = min (offset + len) file.size := by
    rw [satAdd]
    omega
  obtain ⟨hpos, hcount⟩ := hbuilt.size_le
  rw [readChunkedRange, hstop]
  generalize hend : min (offset + len) file.size = stop
  dsimp only
  split_ifs with hempty
  · intro content _
    rw [Nat.sub_eq_zero_of_le hempty, take_zero]
  have hfirst := Nat.div_mul_le_self offset file.chunkSize
  -- the chunks in front of the range lie wholly in front of it
  have hbefore : ∀ j < offset / file.chunkSize, j * file.chunkSize + file.chunkSize ≤ offset := by
    intro j hj
    rw [← succ_mul]
    exact (le_div_iff_mul_le hpos).mp hj
  refine Says.imp (fun bytes hbytes content hlaid => ?_) (readChunks_spec (by omega) hcount _ rfl
    le_rfl (.inr ⟨hfirst, lt_div_mul_add hpos⟩) fun j hj hoffset => ?_)
  · have hlength : content.length = file.chunks.length := by
      rw [← hlaid.1, length_map]
    rw [hbytes (content.drop (offset / file.chunkSize)), nil_append, ← drop_flatten, drop_drop,
      Nat.add_sub_cancel' hfirst]
    · rw [hlength]
      exact Nat.div_le_of_le_mul (by rw [Nat.mul_comm]; omega)
    · -- only for these the layout says how long they are
      intro i hi c hc
      rw [hlaid.2 i hi c hc, ChunkedFile.spanLen]
      have := hbefore i hi
      omega
    · rw [← hlaid.1, ← map_drop, forall₂_map_left_iff, forall₂_same]
      exact fun chunk _ held hheld => hsha (hstocked.digest hheld)
  · exact absurd hoffset (hbefore j hj).not_gt

/-- The store with these chunks, each under its digest. -/
@[irreducible] def holding (chunks : List Bytes) : Vfs :=
  { Paging.bareVfs with
    chunks := chunks.foldl (fun store chunk => store.insertIfNew chunk chunk) ∅ }

lemma stocked_holding (chunks : List Bytes) : Stocked id (holding chunks).chunks := by
  refine ⟨chunks.map fun chunk => (chunk, chunk), ?_⟩
  rw [foldl_map, holding]
  simp [insertChunk, Except.toOption]

/-- The layout of two whole chunks and a short one. -/
def threeChunks : ChunkedFile := ⟨8194, 4096, [replicate 4096 5, replicate 4096 7, [1, 2]]⟩

/-- A range over the end of the second chunk and the third, with the first one not in the store. -/
theorem readChunkedRange_slice_across :
    (holding [replicate 4096 7, [1, 2]]).readChunkedRange threeChunks 8191 9 = .ready [7, 1, 2] ∧
      ∀ content, threeChunks.Laid id 1 content →
        [7, 1, 2] = (content.flatten.drop 8191).take 3 := by
  have hready : (holding [replicate 4096 7, [1, 2]]).readChunkedRange threeChunks 8191 9 =
      .ready [7, 1, 2] := by
    decide +kernel
  have hbuilt : threeChunks.Built := rfl
  have hsize : threeChunks.size < 2 ^ 64 := by decide
  have htold := readChunkedRange_slice injective_id
    (stocked_holding [replicate 4096 7, [1, 2]]) hbuilt hsize 8191 9
  rw [hready] at htold
  exact ⟨hready, htold⟩

/-- The first chunk of a file of two has one byte in the place of 4096.  The second is read where
the layout has it, and not where it stands in what the two make together. -/
theorem readChunkedRange_shifted :
    ChunkedFile.Built ⟨4097, 4096, [[7], [1]]⟩ ∧ Stocked id (holding [[1]]).chunks ∧
      (holding [[1]]).readChunkedRange ⟨4097, 4096, [[7], [1]]⟩ 4096 1 = .ready [1] ∧
      ((([[7], [1]] : List Bytes).flatten.drop 4096).take 1) ≠ [1] :=
  ⟨rfl, stocked_holding _, by decide +kernel, by decide⟩

end Vfs

end WebTos
