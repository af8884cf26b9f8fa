import WebTos.Lib.Replace
import WebTos.Lib.Run
import WebTos.Vfs.Tree

/-!
Snapshots of the filesystem (`export_fs_excluding` of `lib.rs`, and the contents
operations of `vfs.rs` below it), and what they keep secret.

A secret is registered under a name; its value stands in the guest's files where
the host wrote the placeholder `${name}`.  A snapshot puts the placeholders back
first, empties the excluded files, writes the arena out and then undoes both.

* `rewriteBytes`, `Vfs.rewriteResidentFiles`, `Vfs.takeFileContents`,
  `Vfs.putFileContents`, `secretRedactions`, `restoreResidentSecrets`,
  `exportFsExcluding`: the functions of the source, the last with the filesystem
  it serializes and the one it leaves behind;
* `Vfs.SameTree`: two filesystems that differ in file contents only, on which
  every path resolves alike (`SameTree.resolve`);
* `Vfs.Rekinded`: the nodes of another filesystem, but for their kinds;
* `kind_exported`: what each node of the serialized filesystem is.
-/

namespace WebTos

open Lib NodeKind

/-! ### Text and its redaction -/

/-- A continuation byte within the bounds the lead byte sets. -/
def isCont (lo hi b : UInt8) : Bool := lo ≤ b && b ≤ hi

/-- A byte that begins no character. -/
def isTail (b : UInt8) : Bool := isCont 0x80 0xBF b

/-- `std::str::from_utf8` succeeds: well-formed UTF-8, with no overlong form, no
surrogate and nothing past U+10FFFF. -/
def utf8Valid : Bytes → Bool
  | [] => true
  | b :: bs =>
    if b < 0x80 then utf8Valid bs
    else
      match bs with
      | [] => false
      | b₁ :: bs =>
        if 0xC2 ≤ b ∧ b ≤ 0xDF then isCont 0x80 0xBF b₁ && utf8Valid bs
        else
          match bs with
          | [] => false
          | b₂ :: bs =>
            if 0xE0 ≤ b ∧ b ≤ 0xEF then
              isCont (if b = 0xE0 then 0xA0 else 0x80) (if b = 0xED then 0x9F else 0xBF) b₁
                && isCont 0x80 0xBF b₂ && utf8Valid bs
            else
              match bs with
              | [] => false
              | b₃ :: bs =>
                0xF0 ≤ b && b ≤ 0xF4 &&
                  isCont (if b = 0xF0 then 0x90 else 0x80)
                    (if b = 0xF4 then 0x8F else 0xBF) b₁ &&
                  isCont 0x80 0xBF b₂ && isCont 0x80 0xBF b₃ && utf8Valid bs

/-- `str::replace`.  A match of a `str` in a `str` starts and ends at character
boundaries, so it is a match of the bytes; the empty one matches at every boundary,
both ends of the text included. -/
def strReplace (word new text : Bytes) : Bytes :=
  if word = [] then (text.flatMap fun b => if isTail b then [b] else new ++ [b]) ++ new
  else replaceAll word new text

/-- The body of the loop of `rewrite_bytes`. -/
def rewriteStep (text : Bytes) (sub : Bytes × Bytes) : Bytes :=
  if sub.1 <:+: text then strReplace sub.1 sub.2 text else text

/-- `rewrite_bytes`: bytes that are not UTF-8 are left alone. -/
def rewriteBytes (subs : List (Bytes × Bytes)) (data : Bytes) : Bytes :=
  if utf8Valid data then subs.foldl rewriteStep data else data

-- an empty word between the characters, of which the second has two bytes
example : rewriteBytes [([], ascii "-")] [0x61, 0xC3, 0xA9]
    = [0x2D, 0x61, 0x2D, 0xC3, 0xA9, 0x2D] := by
  decide

/-- Words that are not empty are replaced in turn. -/
lemma rewriteBytes_eq {subs : List (Bytes × Bytes)} (hne : ∀ sub ∈ subs, sub.1 ≠ [])
    {data : Bytes} (hdata : utf8Valid data) : rewriteBytes subs data = replaceEach subs data := by
  rw [rewriteBytes, if_pos hdata, replaceEach]
  refine List.foldl_ext _ _ _ fun text sub hsub => ?_
  rw [rewriteStep, strReplace, if_neg (hne sub hsub), replaceStep]

/-- A registered secret (`Secret`): its value and the files it is scoped to (none: it
may stand anywhere). -/
structure Secret where
  value : Bytes
  paths : List Bytes

/-- The registered secrets by name; a `BTreeMap`, so in the order of the names. -/
abbrev Secrets := Std.TreeMap Bytes Secret

/-- `${name}`. -/
def placeholder (name : Bytes) : Bytes := ascii "$\x7b" ++ name ++ ascii "\x7d"

/-- `secret_redactions`: every value back to its placeholder. -/
def secretRedactions (secrets : Secrets) : List (Bytes × Bytes) :=
  secrets.toList.map fun entry => (entry.2.value, placeholder entry.1)

/-! ### File contents -/

/-- The kind with a regular file's contents taken out (`mem::take`). -/
def NodeKind.hollow : NodeKind → NodeKind
  | .file _ => .file []
  | kind => kind

/-- The kind with a resident file's contents rewritten. -/
def NodeKind.rewrite (subs : List (Bytes × Bytes)) : NodeKind → NodeKind
  | .file data => .file (rewriteBytes subs data)
  | kind => kind

namespace Vfs

/-- `rewrite_resident_files`: every node that is a regular file, also one that no
name leads to any more; the layout of a chunked file holds no text. -/
def rewriteResidentFiles (v : Vfs) (subs : List (Bytes × Bytes)) : Vfs :=
  { v with nodes := v.nodes.map fun n => { n with kind := n.kind.rewrite subs } }

/-- `take_file_contents`. -/
def takeFileContents (v : Vfs) (path : Bytes) : Option Bytes × Vfs :=
  match v.hostNode path with
  | none => (none, v)
  | some node =>
    match (v.node node).kind with
    | .file data => (some data, v.setKind node (.file []))
    | _ => (none, v)

/-- `put_file_contents`. -/
def putFileContents (v : Vfs) (path data : Bytes) : Vfs :=
  match v.hostNode path with
  | none => v
  | some node =>
    match (v.node node).kind with
    | .file _ => v.setKind node (.file data)
    | _ => v

/-- `rewrite_file` on a file that `read_file` has just found resident. -/
def rewriteResidentFile (v : Vfs) (path : Bytes) (subs : List (Bytes × Bytes)) : Vfs :=
  match v.hostNode path with
  | none => v
  | some node => v.setKind node ((v.node node).kind.rewrite subs)

/-- The loop of `export_fs_excluding` that moves the named contents out; `held`
collects what is to be put back. -/
def takeAll (v : Vfs) (held : List (Bytes × Bytes)) : List Bytes → List (Bytes × Bytes) × Vfs
  | [] => (held, v)
  | path :: paths =>
    match v.takeFileContents path with
    | (some data, w) => w.takeAll (held ++ [(path, data)]) paths
    | (none, w) => w.takeAll held paths

end Vfs

/-- `restore_resident_secrets`: a secret with a scope is restored there only. -/
def restoreResidentSecrets (secrets : Secrets) (v : Vfs) : Vfs :=
  secrets.toList.foldl (fun v entry =>
    let sub := (placeholder entry.1, entry.2.value)
    if entry.2.paths.isEmpty then v.rewriteResidentFiles [sub]
    else
      entry.2.paths.foldl (fun v path =>
        if (v.readFile path).isSome then v.rewriteResidentFile path [sub] else v) v) v

/-- What `export_fs_excluding` gives to `serialize`, and the filesystem after it. -/
structure Export where
  image : Vfs
  after : Vfs

/-- `export_fs_excluding`. -/
def exportFsExcluding (secrets : Secrets) (v : Vfs) (paths : List Bytes) : Export :=
  let redactions := secretRedactions secrets
  let redacted := if redactions.isEmpty then v else v.rewriteResidentFiles redactions
  let taken := redacted.takeAll [] paths
  let putBack := taken.1.foldl (fun v entry => v.putFileContents entry.1 entry.2) taken.2
  { image := taken.2, after := restoreResidentSecrets secrets putBack }

/-! ### Filesystems that differ in file contents only -/

/-- Emptying a file's contents forgets a rewriting of them. -/
@[simp] lemma NodeKind.hollow_rewrite (subs : List (Bytes × Bytes)) (kind : NodeKind) :
    (kind.rewrite subs).hollow = kind.hollow := by
  cases kind <;> rfl

@[simp] lemma NodeKind.hollow_hollow (kind : NodeKind) : kind.hollow.hollow = kind.hollow := by
  cases kind <;> rfl

namespace Vfs

/-- The two filesystems have the same nodes, but for the contents of files. -/
structure SameTree (v w : Vfs) : Prop where
  parent : ∀ i, (w.node i).parent = (v.node i).parent
  hollow : ∀ i, (w.node i).kind.hollow = (v.node i).kind.hollow

namespace SameTree

variable {v w x : Vfs}

lemma refl (v : Vfs) : SameTree v v := ⟨fun _ => rfl, fun _ => rfl⟩

variable (h : SameTree v w)
include h

lemma trans (h' : SameTree w x) : SameTree v x :=
  ⟨fun i => (h'.parent i).trans (h.parent i), fun i => (h'.hollow i).trans (h.hollow i)⟩

lemma isDir (i : ℕ) : w.isDir i = v.isDir i := by
  have hi := h.hollow i
  simp only [Vfs.isDir]
  cases hw : (w.node i).kind <;> cases hv : (v.node i).kind <;>
    simp_all [NodeKind.hollow, NodeKind.isDir]

/-- And so are their entries. -/
lemma entry (i : ℕ) (name : Bytes) : w.entry i name = v.entry i name := by
  have hi := h.hollow i
  simp only [Vfs.entry]
  cases hw : (w.node i).kind <;> cases hv : (v.node i).kind <;> simp_all [NodeKind.hollow]

lemma resolvedSelf (i : ℕ) : w.resolvedSelf i = v.resolvedSelf i := by
  simp only [Vfs.resolvedSelf, h.parent]

/-- A walk reads parents, entries and link targets only. -/
lemma walk {follow : ℕ → Bytes → SysResult Resolved} (last : Bool) (start : ℕ) (cs : List Bytes) :
    w.walk follow last start cs = v.walk follow last start cs := by
  induction cs generalizing start with
  | nil => simp only [Vfs.walk, h.resolvedSelf]
  | cons c cs ih =>
    cases cs with
    | nil =>
      simp only [Vfs.walk, h.parent, h.resolvedSelf, h.isDir, h.entry]
      split_ifs <;> try rfl
      cases he : v.entry start c with
      | none => rfl
      | some next =>
        have hn := h.hollow next
        cases last <;> cases hw : (w.node next).kind <;> cases hv : (v.node next).kind <;>
          simp_all [NodeKind.hollow]
    | cons c' cs =>
      simp only [Vfs.walk, h.parent, h.isDir, h.entry, ih]
      split_ifs <;> try rfl
      cases he : v.entry start c with
      | none => rfl
      | some next =>
        have hn := h.hollow next
        cases hw : (w.node next).kind <;> cases hv : (v.node next).kind <;>
          simp_all [NodeKind.hollow]

lemma resolveDepth (levels start : ℕ) (path : Bytes) (last : Bool) :
    w.resolveDepth levels start path last = v.resolveDepth levels start path last := by
  induction levels generalizing start path last with
  | zero => rfl
  | succ _ ih => simp only [Vfs.resolveDepth, h.walk, ih]

lemma resolve (start : ℕ) (path : Bytes) (last : Bool) :
    w.resolve start path last = v.resolve start path last := by
  simp only [Vfs.resolve, h.resolveDepth]

lemma hostNode (path : Bytes) : w.hostNode path = v.hostNode path := by
  simp only [Vfs.hostNode, h.resolve]

end SameTree

/-! ### The serialized filesystem, node by node -/

variable {v : Vfs}

/-- Some path of the list leads to the node. -/
def Excluded (v : Vfs) (paths : List Bytes) (i : ℕ) : Prop :=
  ∃ path ∈ paths, v.hostNode path = some i

instance (paths : List Bytes) (i : ℕ) : Decidable (v.Excluded paths i) :=
  inferInstanceAs (Decidable (∃ path ∈ paths, v.hostNode path = some i))

/-- What a snapshot keeps of a node before anything is redacted: an excluded file
is empty. -/
def kept (v : Vfs) (paths : List Bytes) (i : ℕ) : NodeKind :=
  if v.Excluded paths i then (v.node i).kind.hollow else (v.node i).kind

variable {i : ℕ}

lemma node_rewriteResidentFiles (subs : List (Bytes × Bytes)) (hi : i < v.nodes.length) :
    (v.rewriteResidentFiles subs).node i
      = { v.node i with kind := (v.node i).kind.rewrite subs } := by
  simp [node, rewriteResidentFiles, hi]

lemma sameTree_rewriteResidentFiles (subs : List (Bytes × Bytes)) :
    SameTree v (v.rewriteResidentFiles subs) := by
  have hnode : ∀ i, v.nodes.length ≤ i → (v.rewriteResidentFiles subs).node i = v.node i := by
    intro i hi
    simp [node, rewriteResidentFiles, hi]
  refine ⟨fun i => ?_, fun i => ?_⟩
  · rcases Nat.lt_or_ge i v.nodes.length with hi | hi
    · rw [node_rewriteResidentFiles subs hi]
    · rw [hnode i hi]
  rcases Nat.lt_or_ge i v.nodes.length with hi | hi
  · rw [node_rewriteResidentFiles subs hi, hollow_rewrite]
  · rw [hnode i hi]

/-- `w` has the nodes of `v` with the kinds `f`. -/
structure Rekinded (v w : Vfs) (f : ℕ → NodeKind) : Prop where
  length : w.nodes.length = v.nodes.length
  node : ∀ i < v.nodes.length, w.node i = { v.node i with kind := f i }
  sameTree : SameTree v w

namespace Rekinded

variable {u v w : Vfs} {f g : ℕ → NodeKind}

lemma refl (v : Vfs) : Rekinded v v fun i => (v.node i).kind :=
  ⟨rfl, fun _ _ => rfl, .refl v⟩

lemma congr (h : Rekinded v w f) (hfg : ∀ i < v.nodes.length, f i = g i) : Rekinded v w g :=
  ⟨h.length, fun i hi => by rw [h.node i hi, hfg i hi], h.sameTree⟩

lemma kind (h : Rekinded v w f) (hi : i < v.nodes.length) : (w.node i).kind = f i := by
  rw [h.node i hi]

lemma across (h : Rekinded v w f) (h' : Rekinded v u g) : Rekinded w u g where
  length := h'.length.trans h.length.symm
  node := fun i hi => by
    rw [h.length] at hi
    rw [h'.node i hi, h.node i hi]
  sameTree := ⟨fun i => (h'.sameTree.parent i).trans (h.sameTree.parent i).symm,
    fun i => (h'.sameTree.hollow i).trans (h.sameTree.hollow i).symm⟩

lemma comp (h : Rekinded v w f) (h' : Rekinded w u g) : Rekinded v u g where
  length := h'.length.trans h.length
  node := fun i hi => by rw [h'.node i (h.length ▸ hi), h.node i hi]
  sameTree := h.sameTree.trans h'.sameTree

lemma trans {F : ℕ → NodeKind → NodeKind} (h : Rekinded u v f)
    (h' : Rekinded v w fun i => F i (v.node i).kind) : Rekinded u w fun i => F i (f i) := by
  refine ⟨h'.length.trans h.length, fun i hi => ?_, h.sameTree.trans h'.sameTree⟩
  rw [h'.node i (h.length ▸ hi), h.node i hi]

lemma rewriteResidentFiles (v : Vfs) (subs : List (Bytes × Bytes)) :
    Rekinded v (v.rewriteResidentFiles subs) fun i => (v.node i).kind.rewrite subs :=
  ⟨by simp [Vfs.rewriteResidentFiles], fun _ hi => node_rewriteResidentFiles subs hi,
    sameTree_rewriteResidentFiles subs⟩

/-- The contents of one node are replaced. -/
lemma setKind {n : ℕ} {kind : NodeKind} (h : kind.hollow = (v.node n).kind.hollow) :
    Rekinded v (v.setKind n kind) fun i => if n = i then kind else (v.node i).kind := by
  refine ⟨by simp [Vfs.setKind], fun i hi => ?_, fun j => ?_, fun j => ?_⟩
  · rw [node_setKind]
    by_cases hn : n = i
    · subst hn
      rw [if_pos ⟨rfl, hi⟩, if_pos rfl]
    · rw [if_neg fun hc => hn hc.1, if_neg hn]
  · rw [node_setKind]
    split_ifs <;> rfl
  · rw [node_setKind]
    split_ifs with hj
    · rw [← hj.1]
      exact h
    · rfl

/-- Two filesystems with the same nodes. -/
lemma nodes_eq (h : Rekinded v w f) (hf : ∀ i < v.nodes.length, f i = (v.node i).kind) :
    w.nodes = v.nodes := by
  refine List.ext_getElem h.length fun i hi hi' => ?_
  have hnode := h.node i hi'
  rw [hf i hi', Vfs.node, Vfs.node, List.getElem?_eq_getElem hi,
    List.getElem?_eq_getElem hi'] at hnode
  exact hnode

end Rekinded

/-- Taking the contents at a path empties the file it leads to, and nothing else. -/
lemma takeFileContents_spec (v : Vfs) (path : Bytes) :
    Rekinded v (v.takeFileContents path).2 (v.kept [path]) := by
  have hkept : ∀ i, v.kept [path] i
      = if v.hostNode path = some i then (v.node i).kind.hollow else (v.node i).kind := by
    intro i
    simp [kept, Excluded]
  unfold takeFileContents
  cases hn : v.hostNode path with
  | none =>
    refine (Rekinded.refl v).congr fun i _ => ?_
    rw [hkept, hn, if_neg (by simp)]
  | some n =>
    dsimp only
    cases hk : (v.node n).kind with
    -- only an ordinary file has contents to take
    | file =>
      refine (Rekinded.setKind (by rw [hk]; rfl)).congr fun i _ => ?_
      rw [hkept, hn]
      by_cases hni : n = i
      · subst hni
        simp [hk, hollow]
      · simp [hni]
    | dir _ | chunkedFile _ | symlink _ | charDev _ =>
      refine (Rekinded.refl v).congr fun i _ => ?_
      rw [hkept, hn]
      split_ifs with hi
      · cases hi
        rw [hk]
        rfl
      · rfl

/-- Trees that agree exclude the same nodes. -/
lemma SameTree.excluded {w : Vfs} (h : SameTree v w) (paths : List Bytes) (i : ℕ) :
    w.Excluded paths i ↔ v.Excluded paths i := by
  simp only [Excluded, h.hostNode]

/-- **The loop over the excluded paths** empties the files they lead to in the
filesystem it starts from. -/
lemma takeAll_spec (v : Vfs) (held : List (Bytes × Bytes)) (paths : List Bytes) :
    Rekinded v (v.takeAll held paths).2 (v.kept paths) := by
  induction paths generalizing v held with
  | nil => exact (Rekinded.refl v).congr fun i _ => by simp [kept, Excluded]
  | cons path paths ih =>
    have hone := takeFileContents_spec v path
    have hrest : ∃ held', v.takeAll held (path :: paths)
        = (v.takeFileContents path).2.takeAll held' paths := by
      rw [takeAll]
      rcases hto : v.takeFileContents path with ⟨_ | data, w⟩ <;> exact ⟨_, rfl⟩
    obtain ⟨held', hrest⟩ := hrest
    rw [hrest]
    refine (hone.comp (ih (v.takeFileContents path).2 held')).congr fun i hi => ?_
    -- a second emptying changes nothing, so the order of the paths does not matter
    have hcons : v.Excluded (path :: paths) i ↔ v.Excluded [path] i ∨ v.Excluded paths i := by
      simp [Excluded]
    rw [kept, hone.kind hi]
    simp only [kept, hone.sameTree.excluded, hcons]
    split_ifs <;> simp_all

end Vfs

/-- Rewriting with no substitutions changes nothing. -/
lemma NodeKind.rewrite_nil (kind : NodeKind) : kind.rewrite [] = kind := by
  cases kind <;> simp [rewrite, rewriteBytes]

/-- Only an empty word is found in an emptied file. -/
lemma NodeKind.rewrite_hollow {subs : List (Bytes × Bytes)} (hne : ∀ sub ∈ subs, sub.1 ≠ [])
    (kind : NodeKind) : kind.hollow.rewrite subs = kind.hollow := by
  cases kind with
  | file _ => rw [hollow, rewrite, rewriteBytes_eq hne rfl, replaceEach_nil_text]
  | dir _ | chunkedFile _ | symlink _ | charDev _ => rfl

/-- The filesystem a snapshot starts from, after the redaction: skipping it when nothing
is registered is the redaction with no substitutions. -/
lemma redacted_spec (secrets : Secrets) (v : Vfs) (paths : List Bytes) : ∃ w : Vfs,
    (exportFsExcluding secrets v paths).image = (w.takeAll [] paths).2 ∧
      (exportFsExcluding secrets v paths).after = restoreResidentSecrets secrets
        ((w.takeAll [] paths).1.foldl (fun v entry => v.putFileContents entry.1 entry.2)
          (w.takeAll [] paths).2) ∧
      Vfs.Rekinded v w fun i => (v.node i).kind.rewrite (secretRedactions secrets) := by
  by_cases hnone : (secretRedactions secrets).isEmpty
  · refine ⟨v, ?_, ?_, (Vfs.Rekinded.refl v).congr fun i _ => ?_⟩
    · simp only [exportFsExcluding, if_pos hnone]
    · simp only [exportFsExcluding, if_pos hnone]
    · rw [List.isEmpty_iff.mp hnone, rewrite_nil]
  refine ⟨v.rewriteResidentFiles (secretRedactions secrets), ?_, ?_,
    Vfs.Rekinded.rewriteResidentFiles v _⟩
  · simp only [exportFsExcluding, if_neg hnone]
  · simp only [exportFsExcluding, if_neg hnone]

/-! ### What a snapshot keeps secret -/

/-- The word occurs in the node: in a file's contents, a link's target or a name of
an entry. -/
def NodeKind.Holds (word : Bytes) : NodeKind → Prop
  | .file data => word <:+: data
  | .symlink target => word <:+: target
  | .dir entries => ∃ name ∈ entries.keys, word <:+: name
  | .chunkedFile _ | .charDev _ => False

instance (word : Bytes) : (kind : NodeKind) → Decidable (kind.Holds word)
  | .file data => inferInstanceAs (Decidable (word <:+: data))
  | .symlink target => inferInstanceAs (Decidable (word <:+: target))
  | .dir entries => inferInstanceAs (Decidable (∃ name ∈ entries.keys, word <:+: name))
  | .chunkedFile _ | .charDev _ => inferInstanceAs (Decidable False)

/-- The node is a file whose contents a redaction reads. -/
def NodeKind.isText : NodeKind → Bool
  | .file data => utf8Valid data
  | _ => false

/-- The value of a registered secret. -/
def Registered (secrets : Secrets) (value : Bytes) : Prop :=
  ∃ (name : Bytes) (secret : Secret), secrets[name]? = some secret ∧ secret.value = value

/-- No registered value occurs in any node of the filesystem. -/
def KeepsSecrets (secrets : Secrets) (v : Vfs) : Prop :=
  ∀ value, Registered secrets value → ∀ i < v.nodes.length, ¬ (v.node i).kind.Holds value

/-- No value occurs where a snapshot keeps something that no redaction reads: the
entry names, the link targets and the files that are not UTF-8. -/
def BareOutsideText (secrets : Secrets) (v : Vfs) (paths : List Bytes) : Prop :=
  ∀ value, Registered secrets value → ∀ i < v.nodes.length, (v.kept paths i).isText = false →
    ¬ (v.kept paths i).Holds value

/-- The placeholder of every value that occurs in a text the snapshot keeps shares
no part with any registered value. -/
def PlaceholdersApart (secrets : Secrets) (v : Vfs) (paths : List Bytes) : Prop :=
  ∀ (name : Bytes) (secret : Secret), secrets[name]? = some secret → ∀ i < v.nodes.length,
    (v.kept paths i).isText = true → (v.kept paths i).Holds secret.value →
      ∀ value, Registered secrets value → Apart (placeholder name) value

variable {secrets : Secrets} {value : Bytes}

lemma mem_secretRedactions {sub : Bytes × Bytes} :
    sub ∈ secretRedactions secrets ↔ ∃ (name : Bytes) (secret : Secret),
      secrets[name]? = some secret ∧ sub = (secret.value, placeholder name) := by
  simp only [secretRedactions, List.mem_map, Prod.exists,
    Std.TreeMap.mem_toList_iff_getElem?_eq_some]
  constructor
  · rintro ⟨name, secret, hmem, rfl⟩
    exact ⟨name, secret, hmem, rfl⟩
  · rintro ⟨name, secret, hmem, rfl⟩
    exact ⟨name, secret, hmem, rfl⟩

/-- What is not text is serialized as it is kept. -/
lemma NodeKind.rewrite_of_not_text {kind : NodeKind} (h : kind.isText = false)
    (subs : List (Bytes × Bytes)) : kind.rewrite subs = kind := by
  cases kind with
  | file data =>
    have hdata : utf8Valid data = false := h
    simp [rewrite, rewriteBytes, hdata]
  | dir _ | chunkedFile _ | symlink _ | charDev _ => rfl

/-- **What is serialized**: each node as the snapshot keeps it, with the values in its
text put back to their placeholders.  An empty value would be written into an excluded
file before that is emptied. -/
lemma kind_exported (secrets : Secrets) (v : Vfs) (paths : List Bytes) :
    (exportFsExcluding secrets v paths).image.nodes.length = v.nodes.length ∧
      ∀ i < v.nodes.length,
        ((v.kept paths i).isText = true → ∀ sub ∈ secretRedactions secrets, sub.1 ≠ []) →
        ((exportFsExcluding secrets v paths).image.node i).kind
          = (v.kept paths i).rewrite (secretRedactions secrets) := by
  obtain ⟨w, himage, -, hw⟩ := redacted_spec secrets v paths
  have htaken := hw.comp (w.takeAll_spec [] paths)
  rw [himage]
  refine ⟨htaken.length, fun i hi hne => ?_⟩
  rw [htaken.kind hi]
  simp only [Vfs.kept, hw.sameTree.excluded, hw.kind hi] at hne ⊢
  split_ifs at hne ⊢
  · rw [hollow_rewrite]
    cases htext : (v.node i).kind.hollow.isText with
    | false => rw [rewrite_of_not_text htext]
    | true => rw [rewrite_hollow (hne htext)]
  · rfl

section Redacted

variable {data : Bytes}
  (hapart : ∀ (name : Bytes) (secret : Secret), secrets[name]? = some secret →
    secret.value <:+: data → ∀ value, Registered secrets value → Apart (placeholder name) value)

include hapart

/-- An empty value occurs in every text, and in its own placeholder. -/
lemma Registered.ne_nil (hvalue : Registered secrets value) : value ≠ [] := by
  rintro rfl
  obtain ⟨name, secret, hsecret, hnil⟩ := hvalue
  have hocc : secret.value <:+: data := hnil ▸ List.nil_infix
  exact (hapart name secret hsecret hocc [] ⟨name, secret, hsecret, hnil⟩).ne_nil rfl

lemma secretRedactions_ne_nil : ∀ sub ∈ secretRedactions secrets, sub.1 ≠ [] := by
  intro sub hsub
  obtain ⟨name, secret, hsecret, rfl⟩ := mem_secretRedactions.mp hsub
  exact Registered.ne_nil hapart ⟨name, secret, hsecret, rfl⟩

/-- A text whose redactions put in nothing that shares a part with a value holds no
value once it is redacted. -/
lemma not_infix_redacted (hvalue : Registered secrets value) :
    ¬ value <:+: replaceEach (secretRedactions secrets) data := by
  obtain ⟨name, secret, hsecret, rfl⟩ := hvalue
  have hwords : ∀ w ∈ (secretRedactions secrets).map Prod.fst, Registered secrets w := by
    intro w hw
    obtain ⟨sub, hsub, rfl⟩ := List.mem_map.mp hw
    obtain ⟨name, secret, hsecret, rfl⟩ := mem_secretRedactions.mp hsub
    exact ⟨name, secret, hsecret, rfl⟩
  refine not_infix_replaceEach (secretRedactions secrets) ((secretRedactions secrets).map Prod.fst)
    (fun w hw => Registered.ne_nil hapart (hwords w hw))
      (fun sub hsub => List.mem_map_of_mem hsub) (fun sub hsub hocc w hw => ?_) _
    (mem_secretRedactions.mpr ⟨name, secret, hsecret, rfl⟩)
  obtain ⟨name, secret, hsecret, rfl⟩ := mem_secretRedactions.mp hsub
  exact hapart name secret hsecret hocc w (hwords w hw)

end Redacted

/-- **Snapshot secrecy**: a snapshot carries no registered value when none occurs
outside the text it keeps and no placeholder it puts into a text shares a part
with a value; and it carries one whenever one occurs outside the text. -/
theorem keepsSecrets_export (secrets : Secrets) (v : Vfs) (paths : List Bytes) :
    (BareOutsideText secrets v paths ∧ PlaceholdersApart secrets v paths →
        KeepsSecrets secrets (exportFsExcluding secrets v paths).image) ∧
      (KeepsSecrets secrets (exportFsExcluding secrets v paths).image →
        BareOutsideText secrets v paths) := by
  obtain ⟨hlen, hkind⟩ := kind_exported secrets v paths
  constructor
  · rintro ⟨hbare, hapart⟩ value hvalue i hi
    rw [hlen] at hi
    -- what is not text is written as it is, and text is redacted
    cases htext : (v.kept paths i).isText with
    | false =>
      rw [hkind i hi (by simp [htext]), rewrite_of_not_text htext]
      exact hbare value hvalue i hi htext
    | true =>
      have hapart' := fun name secret hsecret => hapart name secret hsecret i hi htext
      cases hkept : v.kept paths i with
      | file data =>
        rw [hkept] at htext hapart'
        have hdata : utf8Valid data := htext
        have hne := secretRedactions_ne_nil hapart'
        rw [hkind i hi fun _ => hne, hkept, rewrite, rewriteBytes_eq hne hdata]
        exact not_infix_redacted hapart' hvalue
      | dir _ | chunkedFile _ | symlink _ | charDev _ => simp [hkept, NodeKind.isText] at htext
  intro hkeeps value hvalue i hi htext
  have := hkeeps value hvalue i (hlen ▸ hi)
  rwa [hkind i hi (by simp [htext]), rewrite_of_not_text htext] at this

/-- One unscoped secret. -/
def oneSecret (name : Bytes) (secret : Secret) : Secrets := (∅ : Secrets).insert name secret

lemma getElem?_oneSecret {name key : Bytes} {secret found : Secret} :
    (oneSecret name secret)[key]? = some found ↔ key = name ∧ found = secret := by
  rw [oneSecret, Std.TreeMap.getElem?_insert]
  simp only [Std.LawfulEqCmp.compare_eq_iff_eq, Std.TreeMap.getElem?_emptyc]
  split_ifs with h <;> simp [h, eq_comm]

/-- The secret `pw` with the value `hunter2`. -/
def password : Secrets := oneSecret (ascii "pw") ⟨ascii "hunter2", []⟩

/-- `hunter2` is the only registered value. -/
lemma registered_password :
    Registered password value ↔ value = ascii "hunter2" := by
  constructor
  · rintro ⟨name, secret, hsecret, rfl⟩
    rw [(getElem?_oneSecret.mp hsecret).2]
  · rintro rfl
    exact ⟨ascii "pw", _, getElem?_oneSecret.mpr ⟨rfl, rfl⟩, rfl⟩

/-- The guest makes a link whose target is the value: the snapshot carries it. -/
theorem export_leaks_link_target :
    let v := run FsCall.exec Vfs.new [.symlink (ascii "hunter2") ROOT (ascii "/tmp/l")]
    ¬ KeepsSecrets password (exportFsExcluding password v []).image := by
  intro v hkeeps
  exact hkeeps _ (registered_password.mpr rfl) 15 (by decide +kernel) (by decide +kernel)

-- a file that is not UTF-8 is not redacted
example : ((exportFsExcluding password (FsCall.exec Vfs.new
    (.addNode (ascii "/f") (.file (0xFF :: ascii "hunter2")) 0o644)) []).image.node 15).kind.Holds
      (ascii "hunter2") := by
  decide +kernel

-- and a value that occurs in its own placeholder stays in the redacted text
example : rewriteBytes [(ascii "pw", placeholder (ascii "pw"))] (ascii "key=pw")
    = ascii "key=$\x7bpw\x7d" := by
  decide +kernel

/-- A file with the password in it is redacted. -/
theorem keepsSecrets_export_config :
    let v := run FsCall.exec Vfs.new
      [.addNode (ascii "/etc/app.conf") (.file (ascii "key=hunter2")) 0o644]
    BareOutsideText password v [] ∧ PlaceholdersApart password v [] ∧
      KeepsSecrets password (exportFsExcluding password v []).image := by
  intro v
  have hbare : BareOutsideText password v [] := by
    intro value hreg
    rw [registered_password.mp hreg]
    have hall : ∀ i < v.nodes.length, (v.kept [] i).isText = false →
        ¬ (v.kept [] i).Holds (ascii "hunter2") := by decide +kernel
    exact hall
  have hapart : PlaceholdersApart password v [] := by
    intro name secret hsecret i _ _ _ value hreg
    rw [registered_password.mp hreg, (getElem?_oneSecret.mp hsecret).1]
    exact Apart.of_ends (m := ascii "\x7bpw") (by decide) (by decide) (by decide)
  exact ⟨hbare, hapart, (keepsSecrets_export password v []).1 ⟨hbare, hapart⟩⟩

end WebTos
