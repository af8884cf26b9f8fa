import WebTos.Vfs.Codec

/-!
Images of the filesystem are read back as they were written.

* `codec_readNode`: the node reader and the node writer belong together, put together
  field by field from the readers of the integers, names and tables;
* `readImage_write`, `write_of_readImage`: the same for a whole image, which no bytes
  may follow;
* `Vfs.InTypes`: what the integer and buffer types of the source promise on a host;
  `Vfs.Imageable`: what an image can carry;
* `roundTrip_iff`: the image of such a filesystem is read back as the filesystem if and
  only if no directory has 2³² entries or more, whose number does not fit the four
  bytes it is given; and the bytes of an image in which the entries stand in order are
  the image of what is read from them;
* `crowded_directory_is_refused`: a directory with 2³² entries.
-/

namespace WebTos

open Lib List Codec WireNode

/-! ### Readers and writers of the parts -/

variable {n : ℕ} {b : Bytes}

section Codecs

variable {w : ℕ}

lemma codec_readBytes (n : ℕ) : Codec (readBytes n) id (fun b => b.length = n) :=
  take truncated n

lemma codec_readUint (k : ℕ) : Codec (readUint k) (leBytes k) (fun n => n < 256 ^ k) :=
  uint truncated k

lemma codec_readIndex (hw : w ≤ 64) : Codec (readIndex w) (leBytes 8) (fun n => n < 2 ^ w) := by
  have hle : 2 ^ w ≤ 256 ^ 8 := (Nat.pow_le_pow_right (by norm_num) hw).trans (by norm_num)
  refine ((codec_readUint 8).bind id (fun value _ => Codec.ensure fun _ => pure value)
    fun _ h => h.2).congr (fun n => ?_) fun n _ => (append_nil _).symm
  simp only [id, and_true]
  exact ⟨fun h => ⟨h.trans_le hle, h⟩, fun h => h.2⟩

lemma i64OfBits_i64Bits {z : ℤ} (h : -2 ^ 63 ≤ z ∧ z < 2 ^ 63) : i64OfBits (i64Bits z) = z := by
  rw [i64OfBits, i64Bits]
  split_ifs <;> omega

lemma i64Bits_i64OfBits (h : n < 2 ^ 64) : i64Bits (i64OfBits n) = n := by
  rw [i64OfBits, i64Bits]
  split_ifs <;> omega

lemma codec_readI64 :
    Codec readI64 (fun z => leBytes 8 (i64Bits z)) (fun z => -2 ^ 63 ≤ z ∧ z < 2 ^ 63) := by
  refine ((codec_readUint 8).bind i64Bits (fun bits _ => pure (i64OfBits bits))
    fun {bits z} hbits hz => ?_).congr (fun z => ?_) fun z _ => (append_nil _).symm
  · rw [hz]
    exact i64Bits_i64OfBits (hbits.trans_eq (by norm_num))
  constructor
  · intro hz
    refine ⟨?_, (i64OfBits_i64Bits hz).symm⟩
    rw [i64Bits]
    omega
  · rintro ⟨hbits, hz⟩
    rw [hz, i64OfBits]
    split_ifs <;> omega

variable {β : Type} {version : ℕ}

/-- A length of `k` bytes and as many bytes. -/
lemma codec_counted {readLen : ImageReader ℕ} {k : ℕ} {ok : ℕ → Prop}
    (hlen : Codec readLen (leBytes k) ok) (make : Bytes → β) (contents : β → Bytes)
    (hmake : ∀ b, contents (make b) = b) :
    Codec (do
        let len ← readLen
        let b ← readBytes len
        return make b)
      (fun x => leBytes k (contents x).length ++ contents x)
      (fun x => x = make (contents x) ∧ ok (contents x).length) := by
  refine (hlen.bind (fun x => (contents x).length) (fun len _ =>
    (codec_readBytes len).bind contents (fun b _ => pure (make b))
      fun {b x} _ hx => ?_) fun {len x} _ hx => hx.1).congr (fun x => ?_) fun x _ => ?_
  · rw [hx, hmake]
  · simp only [true_and]
    exact and_comm
  · simp only [id, append_nil]

/-- An entry that an image of `count` nodes can carry. -/
def OkEntry (w count : ℕ) (e : Bytes × ℕ) : Prop := e.1.length < 2 ^ 16 ∧ e.2 < 2 ^ w ∧ e.2 < count

lemma codec_readEntry (hw : w ≤ 64) (count : ℕ) :
    Codec (readEntry w count) writeEntry (OkEntry w count) := by
  refine ((codec_readUint 2).bind (fun e : Bytes × ℕ => e.1.length) (fun len _ =>
    (codec_readBytes len).bind Prod.fst (fun name _ =>
      (codec_readIndex hw).bind Prod.snd (fun child _ =>
        Codec.ensure fun _ => pure (name, child))
      fun _ h => by rw [h.2]) fun _ h => ?_) fun _ h => h.1).congr (fun e => ?_) fun e _ => ?_
  · rw [h.2.2]
  · simp only [OkEntry, Prod.eta, true_and, and_true]
    norm_num
  · simp only [writeEntry, id, append_nil, append_assoc]

variable {hs : List Hash}

lemma length_flatten_of_hashes (h : ∀ x ∈ hs, x.length = 32) :
    hs.flatten.length = hs.length * 32 := by
  induction hs with
  | nil => rfl
  | cons x hs ih =>
    have hx := h x mem_cons_self
    have hrest := ih fun y hy => h y (mem_cons_of_mem _ hy)
    rw [flatten_cons, length_append, length_cons, hx, hrest]
    omega

/-- A table of hashes is cut where they were joined. -/
lemma hashesOf_flatten (h : ∀ x ∈ hs, x.length = 32) :
    hashesOf hs.length hs.flatten = hs := by
  induction hs with
  | nil => rfl
  | cons x hs ih =>
    have hx := h x mem_cons_self
    rw [length_cons, flatten_cons, hashesOf, take_left' hx, drop_left' hx,
      ih fun y hy => h y (mem_cons_of_mem _ hy)]

/-- And joined where they were cut. -/
lemma hashesOf_spec (h : b.length = n * 32) :
    (hashesOf n b).flatten = b ∧ (hashesOf n b).length = n ∧ ∀ x ∈ hashesOf n b, x.length = 32 := by
  induction n generalizing b with
  | zero =>
    have hb : b = [] := length_eq_zero_iff.mp (by omega)
    simp [hashesOf, hb]
  | succ n ih =>
    obtain ⟨hflat, hlen, hall⟩ := @ih (b.drop 32) (by rw [length_drop]; omega)
    rw [hashesOf]
    refine ⟨by rw [flatten_cons, hflat, take_append_drop], by rw [length_cons, hlen],
      fun x hx => ?_⟩
    rcases mem_cons.mp hx with rfl | hx
    · rw [length_take]
      omega
    · exact hall x hx

lemma codec_readHashes (n : ℕ) :
    Codec (readHashes n) flatten (fun hs => hs.length = n ∧ ∀ x ∈ hs, x.length = 32) := by
  refine ((codec_readBytes (n * 32)).bind flatten (fun b _ => pure (hashesOf n b))
    fun {b hs} hb hhs => ?_).congr (fun hs => ?_) fun hs _ => (append_nil _).symm
  · rw [hhs]
    exact (hashesOf_spec hb).1
  constructor
  · rintro ⟨rfl, hall⟩
    exact ⟨length_flatten_of_hashes hall, (hashesOf_flatten hall).symm⟩
  · rintro ⟨hlen, hhs⟩
    obtain ⟨-, hn, hall⟩ := hashesOf_spec hlen
    rw [hhs]
    exact ⟨hn, hall⟩

/-- A layout that an image can carry. -/
def OkLayout (w : ℕ) (layout : ChunkedFile) : Prop :=
  layout.size < 2 ^ 64 ∧ layout.chunkSize < 2 ^ 32 ∧ layout.chunks.length * 32 < 2 ^ w ∧
    (∀ x ∈ layout.chunks, x.length = 32) ∧ layout.Built

lemma codec_new (size chunkSize : ℕ) (chunks : List Hash) :
    Codec (match ChunkedFile.new size chunkSize chunks with
        | .ok file => (Pure.pure file : ImageReader ChunkedFile)
        | .error e => Reader.fail e) (fun _ => [])
      (fun layout => layout = ⟨size, chunkSize, chunks⟩ ∧ layout.Built) := by
  cases hnew : ChunkedFile.new size chunkSize chunks with
  | ok file =>
    have hfile : file = ⟨size, chunkSize, chunks⟩ := by
      simp only [ChunkedFile.new] at hnew
      split_ifs at hnew <;> cases hnew <;> rfl
    refine (pure file).congr (fun layout => ?_) fun _ _ => rfl
    constructor
    · exact fun h => h.1.trans hfile.symm
    rintro rfl
    refine ⟨hfile, ?_⟩
    rw [ChunkedFile.Built, hfile, ← hfile]
    rw [hfile] at hnew ⊢
    exact hnew
  | error e =>
    refine (fail e fun _ => []).congr (fun layout => ?_) fun _ _ => rfl
    constructor
    · rintro ⟨rfl, hbuilt⟩
      rw [ChunkedFile.Built, hnew] at hbuilt
      cases hbuilt
    · exact False.elim

lemma codec_readChunked (hw : w ≤ 64) : Codec (readChunked w) ChunkedFile.write (OkLayout w) := by
  refine ((codec_readUint 8).bind ChunkedFile.size (fun size _ =>
    (codec_readUint 4).bind ChunkedFile.chunkSize (fun chunkSize _ =>
      (codec_readIndex hw).bind (fun l => l.chunks.length) (fun count _ =>
        Codec.ensure fun _ => (codec_readHashes count).bind ChunkedFile.chunks (fun chunks _ =>
          codec_new size chunkSize chunks) fun _ h => ?_) fun _ h => ?_) fun _ h => ?_)
      fun _ h => ?_).congr (fun l => ?_) fun l _ => ?_
  · rw [h.1]
  · exact h.2.1.1
  · rw [h.2.2.2.1]
  · rw [h.2.2.2.2.1]
  · simp only [OkLayout, true_and]
    norm_num
    intro _ _ hn _ _
    omega
  · simp only [ChunkedFile.write, append_nil, append_assoc]

lemma codec_devOfTag (tag : ℕ) :
    Codec (devOfTag tag) (fun _ => []) (fun dev : Dev => dev.tag = tag) := by
  have hpure (d : Dev) : Codec (Pure.pure d : ImageReader Dev) (fun _ => [])
      (fun dev : Dev => dev.tag = d.tag) :=
    (pure d).congr (fun dev => by cases dev <;> cases d <;> simp [Dev.tag]) fun _ _ => rfl
  rw [devOfTag.eq_def]
  split
  · exact hpure .null
  · exact hpure .zero
  · exact hpure .tty
  · exact hpure .random
  · exact hpure .ptmx
  · refine (fail _ fun _ => []).congr (fun dev => ?_) fun _ _ => rfl
    cases dev <;> simp only [Dev.tag, iff_false] <;> rintro rfl <;> contradiction

lemma codec_readDev : Codec readDev (fun dev => leBytes 1 dev.tag) (fun _ => True) := by
  refine ((codec_readUint 1).bind Dev.tag (fun tag _ => codec_devOfTag tag) fun _ h => h).congr
    (fun dev => ?_) fun dev _ => (append_nil _).symm
  cases dev <;> simp [Dev.tag]

/-- The entries of a directory. -/
@[simp] def WireKind.entries : WireKind → List (Bytes × ℕ)
  | .dir entries => entries
  | _ => []

/-- The bytes of a file or of a link. -/
@[simp] def WireKind.contents : WireKind → Bytes
  | .file data => data
  | .symlink target => target
  | _ => []

/-- The device of a device node. -/
@[simp] def WireKind.dev : WireKind → Dev
  | .charDev dev => dev
  | _ => .null

/-- The layout of a chunked file. -/
@[simp] def WireKind.layout : WireKind → ChunkedFile
  | .chunkedFile layout => layout
  | _ => ⟨0, 0, []⟩

/-- A kind that an image of `count` nodes can carry. -/
def OkKind (w count : ℕ) : WireKind → Prop
  | .dir entries => entries.length < 2 ^ 32 ∧ ∀ e ∈ entries, OkEntry w count e
  | .file data => data.length < 2 ^ w
  | .symlink target => target.length < 2 ^ 16
  | .charDev _ => True
  | .chunkedFile layout => OkLayout w layout

/-- The body behind each tag: the reader of the tag accepts the kinds with that tag. -/
lemma codec_readBody (hw : w ≤ 64) (hversion : 2 ≤ version) (count tag : ℕ) :
    Codec (readBody w version count tag) WireKind.writeBody
      (fun kind => kind.tag = tag ∧ OkKind w count kind) := by
  rw [readBody]
  split_ifs with h₁ h₂ h₃ h₄ h₅
  · -- a directory: the number of its entries and the entries
    subst h₁
    refine ((codec_readUint 4).bind (fun kind : WireKind => kind.entries.length) (fun n _ =>
      ((codec_readEntry hw count).times n).bind WireKind.entries (fun entries _ =>
        pure (WireKind.dir entries)) fun _ h => ?_) fun _ h => ?_).congr
      (fun kind => ?_) fun kind h => ?_
    · simp [h]
    · exact h.1.1
    · cases kind <;> simp [WireKind.tag, OkKind]
    · rw [h.2.2]
      simp [WireKind.writeBody]
  · -- a file and a link: a length and the bytes
    subst h₂
    refine (codec_counted (codec_readIndex hw) WireKind.file WireKind.contents
      fun _ => rfl).congr (fun kind => ?_) fun kind h => ?_
    · cases kind <;> simp [WireKind.tag, OkKind]
    · rw [h.1]
      rfl
  · subst h₃
    refine (codec_counted (codec_readUint 2) WireKind.symlink WireKind.contents
      fun _ => rfl).congr (fun kind => ?_) fun kind h => ?_
    · cases kind <;> simp [WireKind.tag, OkKind]
    · rw [h.1]
      rfl
  · subst h₄
    refine (codec_readDev.bind WireKind.dev (fun dev _ => pure (WireKind.charDev dev))
      fun _ h => ?_).congr (fun kind => ?_) fun kind h => ?_
    · simp [h]
    · cases kind <;> simp [WireKind.tag, OkKind]
    · rw [h.2]
      simp [WireKind.writeBody]
  · -- a chunked file, which only the later versions have
    obtain ⟨rfl, -⟩ := h₅
    refine ((codec_readChunked hw).bind WireKind.layout (fun layout _ =>
      pure (WireKind.chunkedFile layout)) fun _ h => ?_).congr (fun kind => ?_)
        fun kind h => ?_
    · simp [h]
    · cases kind <;> simp [WireKind.tag, OkKind]
    · rw [h.2]
      simp [WireKind.writeBody]
  · refine (fail _ _).congr (fun kind => ?_) fun _ _ => rfl
    cases kind <;> simp only [WireKind.tag, iff_false, not_and] <;> rintro rfl <;> simp_all

lemma codec_readKind (hw : w ≤ 64) (hversion : 2 ≤ version) (count : ℕ) :
    Codec (readKind w version count) WireKind.write (OkKind w count) := by
  refine ((codec_readUint 1).bind WireKind.tag (fun tag _ => codec_readBody hw hversion count tag)
    fun _ h => h.1).congr (fun kind => ?_) fun _ _ => rfl
  simp only [true_and]
  refine ⟨fun h => ⟨?_, h⟩, fun h => h.2⟩
  cases kind <;> simp [WireKind.tag]

/-- A node that an image of `count` nodes can carry. -/
structure OkNode (w count : ℕ) (n : WireNode) : Prop where
  parent_host : n.parent < 2 ^ w
  mode : n.mode < 2 ^ 32
  nlink : n.nlink < 2 ^ 64
  mtime : -2 ^ 63 ≤ n.mtimeSec ∧ n.mtimeSec < 2 ^ 63
  kind : OkKind w count n.kind
  parent : n.parent < count

/-- **The codec of a node.** -/
lemma codec_readNode (hw : w ≤ 64) (hversion : 2 ≤ version) (count : ℕ) :
    Codec (readNode w version count) write (OkNode w count) := by
  refine ((codec_readIndex hw).bind parent (fun parent _ =>
    (codec_readUint 4).bind mode (fun mode _ =>
      (codec_readUint 8).bind nlink (fun nlink _ =>
        codec_readI64.bind mtimeSec (fun mtimeSec _ =>
          (codec_readKind hw hversion count).bind kind (fun kind _ =>
            Codec.ensure fun _ => pure (mk parent mode nlink mtimeSec kind))
          fun _ h => ?_) fun _ h => ?_) fun _ h => ?_) fun _ h => ?_) fun _ h => ?_).congr
      (fun n => ?_) fun n _ => ?_
  · rw [h.2]
  · rw [h.2.2]
  · rw [h.2.2.2]
  · rw [h.2.2.2.2]
  · rw [h.2.2.2.2.2]
  · constructor
    · intro h
      exact ⟨h.parent_host, h.mode.trans_eq (by norm_num), h.nlink.trans_eq (by norm_num), h.mtime,
        h.kind, h.parent, rfl⟩
    · rintro ⟨hhost, hmode, hnlink, hmtime, hkind, hparent, -⟩
      exact ⟨hhost, hmode.trans_eq (by norm_num), hnlink.trans_eq (by norm_num), hmtime, hkind,
        hparent⟩
  · simp only [write, append_nil, append_assoc]

/-- The manifest root as an image of the version has it. -/
def writeRootOf (version : ℕ) (root : Option Hash) : Bytes :=
  if 3 ≤ version then writeManifestRoot root else []

/-- A manifest root that an image of the version can carry. -/
def OkRoot (version : ℕ) : Option Hash → Prop
  | some root => 3 ≤ version ∧ root.length = 32
  | none => True

/-- The tag in front of a manifest root. -/
def rootTag (root : Option Hash) : ℕ := if root.isSome then 1 else 0

lemma codec_rootOfTag (hversion : 3 ≤ version) (tag : ℕ) :
    Codec (rootOfTag tag) (fun root => root.getD []) (fun root => rootTag root = tag ∧
      OkRoot version root) := by
  rw [rootOfTag]
  split_ifs with h₀ h₁
  · refine (pure none).congr (fun root => ?_) fun root h => by simp [h]
    cases root <;> simp [h₀, OkRoot, rootTag]
  · refine ((codec_readBytes 32).bind (fun root : Option Hash => root.getD [])
      (fun root _ => pure (some root)) fun _ h => by simp [h]).congr
      (fun root => ?_) fun root _ => by simp
    cases root <;> simp [h₁, OkRoot, hversion, rootTag]
  · refine (fail _ _).congr (fun root => ?_) fun _ _ => rfl
    cases root <;> simp [rootTag] <;> omega

lemma codec_readManifestRoot (version : ℕ) :
    Codec (readManifestRoot version) (writeRootOf version) (OkRoot version) := by
  rw [readManifestRoot]
  split_ifs with hversion
  · refine ((codec_readUint 1).bind rootTag (fun tag _ => codec_rootOfTag hversion tag)
      fun _ h => h.1).congr (fun root => ?_) fun root _ => ?_
    · cases root <;> simp [OkRoot, rootTag]
    · cases root <;> simp [writeRootOf, writeManifestRoot, hversion, rootTag]
  · refine (pure none).congr (fun root => ?_) fun root h => by simp [writeRootOf, hversion]
    cases root <;> simp [OkRoot, hversion]

/-- What `readHeader` reads, as it stands in the image. -/
def writeHeader (h : ℕ × Option Hash × ℕ) : Bytes :=
  snapshotMagic ++ leBytes 4 h.1 ++ writeRootOf h.1 h.2.1 ++ leBytes 4 h.2.2

/-- A header that an image can have. -/
structure OkHeader (h : ℕ × Option Hash × ℕ) : Prop where
  version : 1 ≤ h.1 ∧ h.1 ≤ snapshotVersion
  root : OkRoot h.1 h.2.1
  count : h.2.2 ≠ 0 ∧ h.2.2 ≤ 4000000

lemma codec_readHeader : Codec readHeader writeHeader OkHeader := by
  refine ((codec_readBytes 4).bind (fun _ => snapshotMagic) (fun magic _ =>
    Codec.ensure fun _ => (codec_readUint 4).bind (fun h : ℕ × Option Hash × ℕ => h.1)
      (fun version _ => Codec.ensure fun _ =>
        (codec_readManifestRoot version).bind (fun h => h.2.1) (fun root _ =>
          (codec_readUint 4).bind (fun h => h.2.2) (fun count _ =>
            Codec.ensure fun _ => pure (version, root, count))
          fun _ h => ?_) fun _ h => ?_) fun _ h => ?_) fun _ h => ?_).congr (fun h => ?_)
            fun h _ => ?_
  · rw [h.2]
  · rw [h.2.2]
  · rw [h.2.2.2.2]
  · exact h.1.symm
  · constructor
    · rintro ⟨hversion, hroot, hcount⟩
      rw [snapshotVersion] at hversion
      exact ⟨rfl, rfl, by omega, hversion, hroot, by omega, hcount, rfl⟩
    · rintro ⟨-, -, -, hversion, hroot, -, hcount, -⟩
      exact ⟨hversion, hroot, hcount⟩
  · simp only [writeHeader, id, append_nil, append_assoc]

/-! ### The whole image -/

/-- An image that can be read on a host of width `w`. -/
structure OkImage (w : ℕ) (image : WireImage) : Prop where
  root : OkRoot snapshotVersion image.manifestRoot
  count : image.nodes.length ≠ 0 ∧ image.nodes.length ≤ 4000000
  nodes : ∀ n ∈ image.nodes, OkNode w image.nodes.length n
  chunked : ¬ (image.manifestRoot = none ∧ image.nodes.any fun n => n.kind.isChunked)

lemma get_bind (f : Bytes → ImageReader β) (s : Bytes) :
    ((get : ImageReader Bytes) >>= f) s = f s s := rfl

lemma ensure_bind (p : Prop) [Decidable p] (e : String) (x : ImageReader β) (s : Bytes) :
    ((Reader.ensure p e >>= fun _ => x : ImageReader β)) s = if p then x s else .error e := by
  rw [Reader.bind_apply, Reader.ensure]
  split_ifs <;> rfl

/-- Every node takes up the bytes that are demanded for it. -/
lemma minNodeBytes_le (n : WireNode) : minNodeBytes ≤ n.write.length := by
  simp only [write, WireKind.write, length_append, length_leBytes, minNodeBytes]
  omega

lemma length_nodes_le (nodes : List WireNode) :
    nodes.length * minNodeBytes ≤ (nodes.flatMap write).length := by
  induction nodes with
  | nil => simp
  | cons n nodes ih =>
    have hn := minNodeBytes_le n
    rw [flatMap_cons, length_append, length_cons, Nat.succ_mul]
    omega

lemma write_eq (image : WireImage) :
    image.write = writeHeader (snapshotVersion, image.manifestRoot, image.nodes.length) ++
      image.nodes.flatMap write := by
  simp [WireImage.write, writeHeader, writeRootOf, snapshotVersion]

variable {image : WireImage}

/-- **What was written is read**, to the last byte. -/
lemma readImage_write (hw : w ≤ 64) (h : OkImage w image) :
    readImage w image.write = .ok (image, []) := by
  have hheader : OkHeader (snapshotVersion, image.manifestRoot, image.nodes.length) :=
    ⟨⟨Nat.one_le_ofNat, le_rfl⟩, h.root, h.count⟩
  have hfits : min (image.nodes.length * minNodeBytes) (2 ^ w - 1)
      ≤ (image.nodes.flatMap write).length :=
    (min_le_left _ _).trans (length_nodes_le image.nodes)
  have hnodes := ((codec_readNode hw (by decide : 2 ≤ snapshotVersion) image.nodes.length).times
    image.nodes.length).reads (a := image.nodes) ⟨rfl, h.nodes⟩ []
  rw [append_nil] at hnodes
  rw [readImage, Reader.bind_apply, write_eq, codec_readHeader.reads hheader]
  dsimp only
  rw [get_bind, ensure_bind, if_pos hfits, Reader.bind_apply, hnodes]
  dsimp only
  rw [get_bind, ensure_bind, if_pos rfl, ensure_bind, if_pos h.chunked]
  rfl

/-- The bytes are an image of version 3. -/
def IsVersion3 (b : Bytes) : Prop := (b.drop 4).take 4 = leBytes 4 3

/-- **What is read was written**, and nothing is left of it. -/
lemma write_of_readImage (hw : w ≤ 64) {rest : Bytes} (hread : readImage w b = .ok (image, rest))
    (hb : IsVersion3 b) :
    OkImage w image ∧ b = image.write := by
  rw [readImage] at hread
  obtain ⟨⟨version, root, count⟩, s, hheader, hs⟩ := Reader.bind_ok hread
  obtain ⟨hok, rfl⟩ := codec_readHeader.writes hheader
  -- the version that was read is the one the bytes say
  have hversion : version = snapshotVersion := by
    have hle := hok.version.2
    have hfour : (leBytes 4 version) = leBytes 4 3 := by
      rw [IsVersion3, writeHeader, append_assoc, append_assoc, append_assoc,
        drop_left' (by decide), take_left' (length_leBytes 4 _)] at hb
      exact hb
    have hlt : version < 256 ^ 4 := lt_of_le_of_lt hle (by decide)
    rw [← leValue_leBytes hlt, hfour]
    rfl
  subst hversion
  dsimp only at hs
  -- the two checks between the parts: room for the nodes, and nothing behind them
  rw [get_bind, ensure_bind] at hs
  split_ifs at hs
  obtain ⟨nodes, s', hnodes, hs'⟩ := Reader.bind_ok hs
  obtain ⟨⟨hlen, hall⟩, rfl⟩ :=
    ((codec_readNode hw (by decide : 2 ≤ snapshotVersion) count).times count).writes hnodes
  subst hlen
  rw [get_bind, ensure_bind] at hs'
  split_ifs at hs' with hempty
  subst hempty
  rw [ensure_bind] at hs'
  split_ifs at hs' with hchunked
  cases hs'
  exact ⟨⟨hok.root, hok.count, hall, hchunked⟩, by rw [write_eq, append_nil]⟩

end Codecs

/-! ### Directories as maps and as lists -/

/-- Entries in strictly increasing order of their names. -/
def EntriesSorted (entries : List (Bytes × ℕ)) : Prop :=
  entries.Pairwise fun e f => compare e.1 f.1 = .lt

variable {entries : List (Bytes × ℕ)}

/-- A map made from entries with different names holds those entries. -/
lemma perm_toList_ofList (h : entries.Pairwise fun e f => ¬ compare e.1 f.1 = .eq) :
    entries.Perm (Std.TreeMap.ofList entries).toList := by
  have hnodup : entries.Nodup := by
    refine h.imp ?_
    rintro e f hne rfl
    exact hne Std.ReflCmp.compare_self
  have hsub : entries ⊆ (Std.TreeMap.ofList entries).toList := by
    intro e he
    rw [← Prod.eta e, Std.TreeMap.mem_toList_iff_getElem?_eq_some]
    exact Std.TreeMap.getElem?_ofList_of_mem Std.ReflCmp.compare_self h he
  refine (subperm_of_subset hnodup hsub).perm_of_length_le ?_
  rw [Std.TreeMap.length_toList]
  exact Std.TreeMap.size_ofList_le

/-- A map made from entries in order gives them back in order. -/
lemma toList_of_sorted (h : EntriesSorted entries) :
    (entries.foldl (fun map e => map.insert e.1 e.2) (∅ : Std.TreeMap Bytes ℕ)).toList
      = entries := by
  have hdistinct : entries.Pairwise fun e f => ¬ compare e.1 f.1 = .eq :=
    h.imp fun hlt heq => by rw [hlt] at heq; cases heq
  rw [← Std.TreeMap.ofList_equiv_foldl.toList_eq]
  refine ((perm_toList_ofList hdistinct).eq_of_pairwise (fun e f _ _ hef hfe => ?_) h
    Std.TreeMap.ordered_keys_toList).symm
  exact absurd (Std.OrientedCmp.gt_of_lt hef) (by rw [hfe]; simp)

/-- The same kind, directories compared entry by entry. -/
def NodeKind.Same : NodeKind → NodeKind → Prop
  | .dir entries, .dir entries' => entries.Equiv entries'
  | .file data, .file data' => data = data'
  | .chunkedFile layout, .chunkedFile layout' => layout = layout'
  | .symlink target, .symlink target' => target = target'
  | .charDev dev, .charDev dev' => dev = dev'
  | _, _ => False

/-- The same node. -/
structure Node.Same (n n' : Node) : Prop where
  kind : n.kind.Same n'.kind
  mode : n.mode = n'.mode
  nlink : n.nlink = n'.nlink
  mtimeSec : n.mtimeSec = n'.mtimeSec
  parent : n.parent = n'.parent

lemma NodeKind.same_kind_wire (kind : NodeKind) : kind.wire.kind.Same kind := by
  cases kind with
  | dir =>
    exact Std.TreeMap.equiv_iff_toList_eq.mpr (toList_of_sorted Std.TreeMap.ordered_keys_toList)
  | file _ | chunkedFile _ | symlink _ | charDev _ => rfl

/-- A kind whose entries are in order is the same on the wire again. -/
lemma WireKind.wire_kind {kind : WireKind}
    (h : ∀ entries, kind = .dir entries → EntriesSorted entries) :
    kind.kind.wire = kind := by
  cases kind with
  | dir entries => exact congrArg WireKind.dir (toList_of_sorted (h entries rfl))
  | file _ | chunkedFile _ | symlink _ | charDev _ => rfl

/-! ### Filesystems and their images -/

/-- What the types of the source promise about a kind: the lengths of buffers and
tables are those of memory the host can address. -/
def NodeKind.InTypes (w : ℕ) : NodeKind → Prop
  | .dir _ | .symlink _ | .charDev _ => True
  | .file data => data.length < 2 ^ w
  | .chunkedFile layout =>
    layout.size < 2 ^ 64 ∧ layout.chunkSize < 2 ^ 32 ∧ layout.chunks.length * 32 < 2 ^ w ∧
      ∀ x ∈ layout.chunks, x.length = 32

/-- What the types of the source promise about a filesystem, on a host whose `usize` has
`w` bits. -/
structure Vfs.InTypes (w : ℕ) (v : Vfs) : Prop where
  root : ∀ root, v.manifestRoot = some root → root.length = 32
  mode : ∀ n ∈ v.nodes, n.mode < 2 ^ 32
  nlink : ∀ n ∈ v.nodes, n.nlink < 2 ^ 64
  mtime : ∀ n ∈ v.nodes, -2 ^ 63 ≤ n.mtimeSec ∧ n.mtimeSec < 2 ^ 63
  kind : ∀ n ∈ v.nodes, n.kind.InTypes w

/-- What an image carries of a kind in a filesystem of `count` nodes. -/
def NodeKind.Imageable (count : ℕ) : NodeKind → Prop
  | .dir entries => ∀ e ∈ entries.toList, e.1.length < 65536 ∧ e.2 < count
  | .symlink target => target.length < 65536
  | .chunkedFile layout => layout.Built
  | .file _ | .charDev _ => True

/-- A filesystem an image is meant to carry: names and link targets are short, indices
are in range, layouts are built by `ChunkedFile::new`, and there is a manifest root if
there is a chunked file. -/
structure Vfs.Imageable (v : Vfs) : Prop where
  count : 1 ≤ v.nodes.length ∧ v.nodes.length ≤ 4000000
  parent : ∀ n ∈ v.nodes, n.parent < v.nodes.length
  kind : ∀ n ∈ v.nodes, n.kind.Imageable v.nodes.length
  root : ∀ n ∈ v.nodes, ∀ layout, n.kind = .chunkedFile layout → v.manifestRoot ≠ none

/-- Every directory's entries can be counted in four bytes. -/
def Vfs.EntriesCounted (v : Vfs) : Prop :=
  ∀ n ∈ v.nodes, ∀ entries, n.kind = .dir entries → entries.size < 2 ^ 32

/-- The image of the filesystem is read back as the filesystem. -/
def Vfs.RoundTrips (w : ℕ) (v : Vfs) : Prop :=
  ∃ u, Vfs.deserialize w v.serialize = .ok u ∧ Forall₂ Node.Same u.nodes v.nodes ∧
    u.manifestRoot = v.manifestRoot

/-- What can be read of bytes has its entries in order of their names. -/
def ImageSorted (w : ℕ) (b : Bytes) : Prop :=
  ∀ image, wireImage w b = .ok image →
    ∀ n ∈ image.nodes, ∀ entries, n.kind = .dir entries → EntriesSorted entries

section RoundTrip

variable {w : ℕ} {v : Vfs}

lemma okKind_wire {count : ℕ} {kind : NodeKind} (hw : 32 ≤ w) (hcount : count ≤ 4000000)
    (htypes : kind.InTypes w) (himage : kind.Imageable count)
    (hcounted : ∀ entries, kind = .dir entries → entries.size < 2 ^ 32) :
    OkKind w count kind.wire := by
  cases kind with
  | dir entries =>
    refine ⟨by rw [Std.TreeMap.length_toList]; exact hcounted entries rfl, fun e he => ?_⟩
    obtain ⟨hname, hchild⟩ := himage e he
    refine ⟨hname, ?_, hchild⟩
    calc e.2 < 2 ^ 32 := by omega
      _ ≤ 2 ^ w := Nat.pow_le_pow_right (by norm_num) hw
  | file => exact htypes
  | chunkedFile =>
    obtain ⟨hsize, hchunk, hlen, hall⟩ := htypes
    exact ⟨hsize, hchunk, hlen, hall, himage⟩
  | symlink => exact himage
  | charDev dev => trivial

/-- What a filesystem writes is within the bounds of the format. -/
lemma okImage_wire (hw : 32 ≤ w) (htypes : v.InTypes w) (himage : v.Imageable)
    (hcounted : v.EntriesCounted) : OkImage w v.wire where
  root := by
    cases hroot : v.manifestRoot with
    | none => simp [Vfs.wire, hroot, OkRoot]
    | some root =>
      simp only [Vfs.wire, hroot, OkRoot]
      exact ⟨le_refl 3, htypes.root root hroot⟩
  count := by
    have := himage.count
    simp only [Vfs.wire, length_map]
    omega
  nodes := fun n hn => by
    obtain ⟨node, hnode, rfl⟩ := mem_map.mp hn
    have hparent := himage.parent node hnode
    simp only [Vfs.wire, length_map]
    refine ⟨?_, htypes.mode node hnode, htypes.nlink node hnode, htypes.mtime node hnode,
      okKind_wire hw himage.count.2 (htypes.kind node hnode) (himage.kind node hnode)
        (hcounted node hnode), hparent⟩
    calc node.parent < 2 ^ 32 := by have := himage.count.2; omega
      _ ≤ 2 ^ w := Nat.pow_le_pow_right (by norm_num) hw
  chunked := by
    rintro ⟨hnone, hany⟩
    obtain ⟨n, hn, hchunked⟩ := any_eq_true.mp hany
    obtain ⟨node, hnode, rfl⟩ := mem_map.mp hn
    cases hk : node.kind with
    | chunkedFile layout => exact himage.root node hnode layout hk hnone
    | dir _ | file _ | symlink _ | charDev _ =>
      simp [Node.wire, NodeKind.wire, hk, WireKind.isChunked] at hchunked

/-- Reading an image back gives the nodes that were written. -/
lemma roundTrips_of_okImage (hw : w ≤ 64) (h : OkImage w v.wire) : v.RoundTrips w := by
  refine ⟨v.wire.vfs, ?_, ?_, rfl⟩
  · rw [Vfs.deserialize, wireImage, Vfs.serialize, readImage_write hw h]
  simp only [WireImage.vfs, Vfs.wire, map_map]
  rw [forall₂_map_left_iff, forall₂_same]
  exact fun n _ => ⟨n.kind.same_kind_wire, rfl, rfl, rfl, rfl⟩

lemma isVersion3_serialize : IsVersion3 v.serialize := by
  rw [IsVersion3, Vfs.serialize, WireImage.write, append_assoc, append_assoc,
    append_assoc, drop_left' (by decide), take_left' (length_leBytes 4 _)]
  rfl

/-- A filesystem that was read back has no directory whose entries were not counted. -/
lemma entriesCounted_of_roundTrips (hw : w ≤ 64) (h : v.RoundTrips w) : v.EntriesCounted := by
  obtain ⟨u, hread, hsame, -⟩ := h
  rw [Vfs.deserialize, wireImage] at hread
  cases himage : readImage w v.serialize with
  | error e => rw [himage] at hread; cases hread
  | ok p =>
    obtain ⟨image, rest⟩ := p
    rw [himage] at hread
    cases hread
    obtain ⟨hok, -⟩ := write_of_readImage hw himage isVersion3_serialize
    intro n hn entries hk
    obtain ⟨i, rfl⟩ := mem_iff_get.mp hn
    have hi : i.1 < image.vfs.nodes.length := by
      rw [hsame.length_eq]
      exact i.2
    obtain ⟨wn, hwn, hnode⟩ := mem_map.mp (getElem_mem hi)
    have hkind := (hsame.get hi i.2).kind
    have hok := (hok.nodes wn hwn).kind
    rw [get_eq_getElem, ← hnode] at hkind
    rw [hk] at hkind
    cases hwk : wn.kind with
    -- what was read has at most as many names as the count says
    | dir es =>
      rw [node, hwk] at hkind
      rw [hwk] at hok
      rw [← Std.TreeMap.Equiv.size_eq hkind, ← Std.TreeMap.ofList_equiv_foldl.size_eq]
      exact Std.TreeMap.size_ofList_le.trans_lt hok.1
    | file _ | symlink _ | charDev _ | chunkedFile _ =>
      rw [node, hwk] at hkind
      exact hkind.elim

/-- What is read of an image in order is written as that image. -/
lemma serialize_of_deserialize (hw : w ≤ 64) {u : Vfs} (hread : Vfs.deserialize w b = .ok u)
    (hb : IsVersion3 b) (hsorted : ImageSorted w b) :
    u.serialize = b := by
  rw [Vfs.deserialize] at hread
  cases himage : wireImage w b with
  | error e => rw [himage] at hread; cases hread
  | ok image =>
    rw [himage] at hread
    cases hread
    have hnodes := hsorted image himage
    rw [wireImage] at himage
    cases hr : readImage w b with
    | error e => rw [hr] at himage; cases himage
    | ok p =>
      obtain ⟨image', rest⟩ := p
      rw [hr] at himage
      cases himage
      obtain ⟨-, hwrite⟩ := write_of_readImage hw hr hb
      rw [Vfs.serialize, hwrite]
      congr 1
      have hwire : image.nodes.map (Node.wire ∘ node) = image.nodes := by
        refine (map_congr_left fun n hn => ?_).trans (map_id _)
        have := WireKind.wire_kind (hnodes n hn)
        simp only [Function.comp, Node.wire, node, this, id]
      simp only [Vfs.wire, WireImage.vfs, map_map, hwire]

/-- **The round trip**: a filesystem that an image is meant to carry is read back as it
was if and only if each directory has fewer than 2³² entries; and bytes of version 3
that are accepted and have their entries in order are written again as they were. -/
theorem roundTrip_iff (hw : w = 32 ∨ w = 64) :
    (∀ v : Vfs, v.InTypes w → v.Imageable → (v.RoundTrips w ↔ v.EntriesCounted)) ∧
      ∀ (b : Bytes) (u : Vfs), Vfs.deserialize w b = .ok u → IsVersion3 b → ImageSorted w b →
        u.serialize = b := by
  have hle : 32 ≤ w ∧ w ≤ 64 := by omega
  refine ⟨fun v htypes himage => ⟨entriesCounted_of_roundTrips hle.2, fun hcounted => ?_⟩,
    fun b u => serialize_of_deserialize hle.2⟩
  exact roundTrips_of_okImage hle.2 (okImage_wire hle.1 htypes himage hcounted)

end RoundTrip

/-! ### Two filesystems -/

/-- The root directory with one file. -/
def oneFile : Vfs :=
  ⟨[⟨.dir ((∅ : Std.TreeMap Bytes ℕ).insert (ascii "a") 1), 0o755, 2, 0, ROOT⟩,
    ⟨.file (ascii "hi"), 0o644, 1, 0, ROOT⟩], ∅, none, none, []⟩

/-- A directory with one file is read back, and its image is written again. -/
theorem roundTrip_oneFile :
    oneFile.InTypes 32 ∧ oneFile.Imageable ∧ oneFile.RoundTrips 32 ∧
      ∃ u, Vfs.deserialize 32 oneFile.serialize = .ok u ∧ u.serialize = oneFile.serialize := by
  have htypes : oneFile.InTypes 32 :=
    ⟨by simp [oneFile], by simp [oneFile], by simp [oneFile], by simp [oneFile],
      by simp [oneFile, NodeKind.InTypes, ascii]⟩
  have hentries : ∀ e ∈ ((∅ : Std.TreeMap Bytes ℕ).insert (ascii "a") 1).toList,
      e.1.length < 65536 ∧ e.2 < 2 := by decide
  have himage : oneFile.Imageable := by
    refine ⟨by simp [oneFile], by simp [oneFile, ROOT], fun n hn => ?_, by simp [oneFile]⟩
    simp only [oneFile, mem_cons, not_mem_nil, or_false] at hn
    rcases hn with rfl | rfl
    · exact hentries
    · trivial
  have hcounted : oneFile.EntriesCounted := by
    intro n hn entries hk
    simp only [oneFile, mem_cons, not_mem_nil, or_false] at hn
    rcases hn with rfl | rfl
    · cases hk
      decide
    · cases hk
  have htrips := ((roundTrip_iff (.inl rfl)).1 oneFile htypes himage).mpr hcounted
  obtain ⟨u, hu, -⟩ := id htrips
  refine ⟨htypes, himage, htrips, u, hu,
    (roundTrip_iff (.inl rfl)).2 _ u hu isVersion3_serialize ?_⟩
  intro image hread n hn entries hk
  have hwire : wireImage 32 oneFile.serialize = .ok oneFile.wire := by
    rw [wireImage, Vfs.serialize, readImage_write (by norm_num)
      (okImage_wire le_rfl htypes himage hcounted)]
  rw [hwire] at hread
  cases hread
  simp only [oneFile, Vfs.wire, map_cons, map_nil, mem_cons, not_mem_nil,
    or_false] at hn
  rcases hn with rfl | rfl
  · cases hk
    exact Std.TreeMap.ordered_keys_toList
  · cases hk

/-- A root directory with `n` entries. -/
def crowded (n : ℕ) : Vfs :=
  ⟨[⟨.dir (Std.TreeMap.ofList ((range n).map fun i => (leBytes 4 i, ROOT))), 0o755, 2, 0,
    ROOT⟩], ∅, none, none, []⟩

/-- Names of four bytes: there are 2³² of them. -/
lemma distinct_crowded (h : n ≤ 2 ^ 32) :
    ((range n).map fun i => (leBytes 4 i, ROOT)).Pairwise
      fun e f => ¬ compare e.1 f.1 = .eq := by
  rw [pairwise_map]
  refine List.Pairwise.imp_of_mem ?_ nodup_range
  intro i j hi hj hne heq
  rw [mem_range] at hi hj
  have hnames : leBytes 4 i = leBytes 4 j := Std.LawfulEqCmp.eq_of_compare heq
  refine hne ?_
  rw [← leValue_leBytes (show i < 256 ^ 4 by omega), hnames, leValue_leBytes (by omega)]

/-- **A directory with 2³² entries** is written with a count of zero, and its image is
not read back. -/
theorem crowded_directory_is_refused :
    (crowded (2 ^ 32)).InTypes 64 ∧ (crowded (2 ^ 32)).Imageable ∧
      ¬ (crowded (2 ^ 32)).RoundTrips 64 := by
  refine ⟨⟨by simp [crowded], by simp [crowded], by simp [crowded], by simp [crowded],
    by simp [crowded, NodeKind.InTypes]⟩, ⟨by simp [crowded], by simp [crowded, ROOT], ?_,
    by simp [crowded]⟩, fun h => ?_⟩
  · intro n hn
    rw [crowded, mem_singleton] at hn
    subst hn
    intro e he
    obtain ⟨i, -, rfl⟩ :=
      mem_map.mp ((perm_toList_ofList (distinct_crowded le_rfl)).mem_iff.mpr he)
    simp [ROOT, crowded]
  have hsize := entriesCounted_of_roundTrips (by norm_num) h _ mem_cons_self _ rfl
  rw [Std.TreeMap.size_ofList (distinct_crowded le_rfl), length_map, length_range] at hsize
  exact lt_irrefl _ hsize

end WebTos
