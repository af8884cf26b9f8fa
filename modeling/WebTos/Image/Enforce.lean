import WebTos.Image.Verify

/-!
Manifest enforcement: whatever the host delivers and the guest does to the
filesystem, a started image is one the installed manifest commits to.

The check and the use are two lookups.  Under a plain manifest the check of a
streamed image trusts the digest taken at delivery; under a chunk manifest it
asks for the node's own absolute path.  Enforcement is exactly as good as these
two readings of the filesystem:

* `LinuxEnv.Committed`: the image handed over is one the manifest commits to for
  the file the started path resolves to;
* `LinuxEnv.StreamAgrees`, `LinuxEnv.NamedBack`: what the two checks take for
  granted, `ImageStep.Safe` the starts at which it is so;
* `openImage_committed`: one image; `loadImages_committed`: an image and its
  interpreter;
* `images_committed_of_safe_run`: every start of every safe run.
-/

namespace WebTos

open Lib Option Std ImageStep

namespace LinuxEnv

variable (sha256 : Bytes → Hash) (climbs : ℕ) (reader : ElfReader)

/-! ### What is enforced -/

/-- A manifest is installed. -/
def Enforced (e : LinuxEnv) : Prop := e.manifest.isSome ∨ e.chunkManifest.isSome

/-- The content is that of a chunk layout. -/
def Content.Fits (layout : ChunkedFile) : Content → Prop
  | .bytes data => residentMatchesChunkLayout sha256 data layout = true
  | .layout file => file = layout

/-- The content has the digest and the size of an entry. -/
def Content.Meets (entry : Commitment) : Content → Prop
  | .bytes data => entry.size = data.length ∧ entry.digest = sha256 data
  | .layout _ => False

/-- The installed manifest commits to the content under the path `key`; a chunk
manifest takes the place of a plain one. -/
def CommittedUnder (e : LinuxEnv) (key : Bytes) (content : Content) : Prop :=
  match e.chunkManifest, e.manifest with
  | some m, _ => ∃ layout, m.file key = some layout ∧ content.Fits sha256 layout
  | none, some m => ∃ entry, m.entries[key]? = some entry ∧ content.Meets sha256 entry
  | none, none => False

/-- The image is that of the file its path resolves to, and the manifest commits to
it under a path that leads to this file. -/
def Committed (e : LinuxEnv) (image : Handed) : Prop :=
  (∃ r, e.vfs.resolve image.cwd image.path true = .ok r ∧ r.node = some image.node) ∧
    ∃ key, e.vfs.hostNode key = some image.node ∧ e.CommittedUnder sha256 key image.content

/-! ### What the checks take for granted -/

/-- A digest taken while the file was streamed is still the digest of the file. -/
def StreamAgrees (e : LinuxEnv) (path : Bytes) : Prop :=
  ∀ fed, e.inFlight[path]? = some fed → e.vfs.readFile path = some fed

/-- The absolute path of the file that `path` leads to from `cwd` leads to it. -/
def NamedBack (e : LinuxEnv) (cwd : ℕ) (path : Bytes) : Prop :=
  ∀ r node key, e.vfs.resolve cwd path true = .ok r → r.node = some node →
    e.vfs.absPathOf climbs node = some key → e.vfs.hostNode key = some node

/-- The reading of the filesystem that the check of the image rests on is right. -/
def ImageSafe (e : LinuxEnv) (cwd : ℕ) (path : Bytes) : Prop :=
  if e.chunkManifest.isSome then e.NamedBack climbs cwd path else e.StreamAgrees path

/-- The interpreter named by the image that `path` leads to from `cwd`. -/
def interpreterOf (e : LinuxEnv) (cwd : ℕ) (path : Bytes) : Option Bytes :=
  match e.vfs.resolve cwd path true with
  | .ok ⟨_, _, some node⟩ =>
    match (e.vfs.node node).kind with
    | .file data => (reader e.vfs.chunks (.bytes data)).join
    | .chunkedFile file => (reader e.vfs.chunks (.layout file)).join
    | _ => none
  | _ => none

/-! ### The environment after a check -/

/-- The environment is the same but for digests that a check has used up. -/
structure Shrinks (e e' : LinuxEnv) : Prop where
  vfs : e'.vfs = e.vfs
  cwd : e'.cwd = e.cwd
  manifest : e'.manifest = e.manifest
  chunkManifest : e'.chunkManifest = e.chunkManifest
  inFlight : ∀ path fed : Bytes, e'.inFlight[path]? = some fed → e.inFlight[path]? = some fed

namespace Shrinks

variable {e e' e'' : LinuxEnv}

lemma refl (e : LinuxEnv) : Shrinks e e := ⟨rfl, rfl, rfl, rfl, fun _ _ h => h⟩

lemma trans (h : Shrinks e e') (h' : Shrinks e' e'') : Shrinks e e'' :=
  ⟨h'.vfs.trans h.vfs, h'.cwd.trans h.cwd, h'.manifest.trans h.manifest,
    h'.chunkManifest.trans h.chunkManifest,
    fun path fed hfed => h.inFlight path fed (h'.inFlight path fed hfed)⟩

lemma erase (e : LinuxEnv) (path : Bytes) :
    Shrinks e { e with inFlight := e.inFlight.erase path } := by
  refine ⟨rfl, rfl, rfl, rfl, fun q fed hfed => ?_⟩
  rw [TreeMap.getElem?_erase] at hfed
  split_ifs at hfed
  exact hfed

variable (h : Shrinks e e')
include h

lemma manifests :
    e'.manifest = e.manifest ∧ e'.chunkManifest = e.chunkManifest :=
  ⟨h.manifest, h.chunkManifest⟩

lemma enforced (he : e.Enforced) : e'.Enforced := by
  rw [Enforced, h.manifest, h.chunkManifest]
  exact he

lemma imageSafe {climbs : ℕ} {cwd : ℕ} {path : Bytes} (hsafe : e.ImageSafe climbs cwd path)
    : e'.ImageSafe climbs cwd path := by
  rw [ImageSafe, h.chunkManifest]
  rw [ImageSafe] at hsafe
  split_ifs with hchunk
  · rw [if_pos hchunk] at hsafe
    intro r node key hr hnode hkey
    rw [h.vfs] at hr hkey ⊢
    exact hsafe r node key hr hnode hkey
  rw [if_neg hchunk] at hsafe
  intro fed hfed
  rw [h.vfs]
  exact hsafe fed (h.inFlight path fed hfed)

lemma interpreterOf (reader : ElfReader) (cwd : ℕ) (path : Bytes) :
    e'.interpreterOf reader cwd path = e.interpreterOf reader cwd path := by
  simp only [LinuxEnv.interpreterOf, h.vfs]

lemma committed {sha256 : Bytes → Hash} {image : Handed} (himage : e'.Committed sha256 image)
    : e.Committed sha256 image := by
  rw [Committed, h.vfs] at himage
  obtain ⟨hres, key, hkey, hcommitted⟩ := himage
  refine ⟨hres, key, hkey, ?_⟩
  rw [CommittedUnder, h.chunkManifest, h.manifest] at hcommitted
  exact hcommitted

end Shrinks

variable {sha256 climbs reader} {e : LinuxEnv} {path : Bytes}

lemma Shrinks.verifyImage (sha256 : Bytes → Hash) (climbs : ℕ) (e : LinuxEnv) (path : Bytes) :
    Shrinks e (e.verifyImage sha256 climbs path).2 := by
  unfold LinuxEnv.verifyImage verifyPlain
  repeat' split
  all_goals first | exact .refl e | exact .erase e path

/-! ### What a passed check says -/

lemma resolve_absolute (v : Vfs) (start : ℕ) (h : path.head? = some slash) (followLast : Bool)
    : v.resolve start path followLast = v.resolve ROOT path followLast := by
  have hstart : Vfs.walkStart start path = Vfs.walkStart ROOT path := by
    simp only [Vfs.walkStart, if_pos h]
  rw [Vfs.resolve, Vfs.resolve, Vfs.resolveDepth, Vfs.resolveDepth, hstart]

variable {m : Manifest}

/-- A passed check of a plain manifest finds an entry with the digest and the size. -/
lemma check_ok {digest : Hash} {size : ℕ} (h : m.check path digest size = .ok ()) :
    ∃ entry, m.entries[path]? = some entry ∧ entry.size = size ∧ entry.digest = digest := by
  unfold Manifest.check at h
  cases hentry : m.entries[path]? with
  | none => simp [hentry] at h
  | some entry =>
    simp only [hentry] at h
    split_ifs at h with hsize hdigest
    exact ⟨entry, rfl, not_not.mp hsize, not_not.mp hdigest⟩

variable {node : ℕ}

/-- A passed check of a chunk manifest finds the layout of the node under its
absolute path. -/
lemma verifyChunked_ok {v : Vfs} {m : ChunkText.ChunkManifest}
    (h : verifyChunked sha256 v climbs m path node = .ok ()) :
    ∃ key layout, v.absPathOf climbs node = some key ∧ m.file key = some layout ∧
      (∀ data, (v.node node).kind = .file data →
        residentMatchesChunkLayout sha256 data layout) ∧
      ∀ file, (v.node node).kind = .chunkedFile file → file = layout := by
  unfold verifyChunked at h
  split_ifs at h with hroot
  cases hkey : v.absPathOf climbs node with
  | none => simp [hkey] at h
  | some key =>
    cases hfile : m.file key with
    | none => simp [hkey, hfile] at h
    | some layout =>
      refine ⟨key, layout, rfl, hfile, fun data hk => ?_, fun file hk => ?_⟩
      · simp only [hkey, hfile, hk] at h
        split_ifs at h with hfits
        exact hfits
      simp only [hkey, hfile, hk] at h
      split_ifs at h with heq
      exact heq

variable {e' : LinuxEnv} {chunked : Bool} {image : Handed}

/-- A passed check of the plain manifest uses the streamed digest if there is one,
and else the file, and leaves no digest behind. -/
lemma verifyPlain_ok (h : e.verifyPlain sha256 m path = (.ok (), e')) :
    e'.inFlight[path]? = none ∧ ∃ bytes, m.check path (sha256 bytes) bytes.length = .ok () ∧
      (e.inFlight[path]? = some bytes ∨
        e.inFlight[path]? = none ∧ e.vfs.readFile path = some bytes) := by
  unfold verifyPlain at h
  cases hfed : e.inFlight[path]? with
  | some fed =>
    simp only [hfed, Prod.mk.injEq] at h
    refine ⟨?_, fed, h.1, .inl rfl⟩
    rw [← h.2]
    simp
  | none =>
    cases hread : e.vfs.readFile path with
    | none => simp [hfed, hread] at h
    | some bytes =>
      simp only [hfed, hread, Prod.mk.injEq] at h
      refine ⟨?_, bytes, h.1, .inr ⟨rfl, rfl⟩⟩
      rw [← h.2, hfed]

/-- A passed `verify_image` rests on the chunk manifest if there is one, and else
on the plain one. -/
lemma verifyImage_ok (h : e.verifyImage sha256 climbs path = (.ok (), e')) (he : e.Enforced)
    {r : Resolved} (hr : e.vfs.resolve e.cwd path true = .ok r) (hnode : r.node = some node) :
    (∃ m, e.chunkManifest = some m ∧ verifyChunked sha256 e.vfs climbs m path node = .ok ()) ∨
      e.chunkManifest = none ∧ (∀ file, (e.vfs.node node).kind ≠ .chunkedFile file) ∧
        ∃ m, e.manifest = some m ∧ e.verifyPlain sha256 m path = (.ok (), e') := by
  unfold verifyImage at h
  simp only [hr, hnode] at h
  cases hchunk : e.chunkManifest with
  | some m =>
    simp only [hchunk, Prod.mk.injEq] at h
    exact .inl ⟨m, rfl, h.1⟩
  | none =>
    obtain ⟨m, hm⟩ : ∃ m, e.manifest = some m := by
      simpa [Enforced, hchunk, isSome_iff_exists] using he
    simp only [hchunk, hm] at h
    refine .inr ⟨rfl, ?_⟩
    cases hk : (e.vfs.node node).kind with
    | chunkedFile => simp [hk] at h
    | dir _ | file _ | symlink _ | charDev _ =>
      simp only [hk] at h
      exact ⟨nofun, m, hm, h⟩

/-- An image handed over is what stands at the node its path leads to, after a
passed check. -/
lemma openImage_ok (h : e.openImage sha256 climbs chunked path = (.ok image, e')) :
    e.verifyImage sha256 climbs path = (.ok (), e') ∧ image.cwd = e.cwd ∧ image.path = path ∧
      (∃ r, e.vfs.resolve e.cwd path true = .ok r ∧ r.node = some image.node) ∧
      ((∃ data, (e.vfs.node image.node).kind = .file data ∧ image.content = .bytes data) ∨
        ∃ file, (e.vfs.node image.node).kind = .chunkedFile file ∧
          image.content = .layout file) := by
  have hshrinks := Shrinks.verifyImage sha256 climbs e path
  unfold openImage at h
  rcases hverify : e.verifyImage sha256 climbs path with ⟨_ | _, e₁⟩
  · simp [hverify] at h
  simp only [hverify] at h hshrinks
  cases hr : e₁.vfs.resolve e₁.cwd path true with
  | error => simp [hr] at h
  | ok r =>
    cases hnode : r.node with
    | none => simp [hr, hnode] at h
    | some node =>
      have hr' : e.vfs.resolve e.cwd path true = .ok r := by
        rw [← hshrinks.vfs, ← hshrinks.cwd, hr]
      simp only [hr, hnode] at h
      -- of the kinds of a node only two are handed over
      cases chunked <;> cases hk : (e₁.vfs.node node).kind <;>
        simp only [hk, Prod.mk.injEq, reduceCtorEq, false_and, Except.ok.injEq] at h
      all_goals
        obtain ⟨rfl, rfl⟩ := h
        rw [hshrinks.vfs] at hk
      · exact ⟨rfl, hshrinks.cwd, rfl, ⟨r, hr', hnode⟩, .inl ⟨_, hk, rfl⟩⟩
      · exact ⟨rfl, hshrinks.cwd, rfl, ⟨r, hr', hnode⟩, .inr ⟨_, hk, rfl⟩⟩

/-! ### One image, and an image with its interpreter -/

/-- **One image**: what is handed over is committed to, if the reading its check
rests on is right. -/
lemma openImage_committed (he : e.Enforced)
    (hsafe : e.ImageSafe climbs e.cwd path)
    (h : e.openImage sha256 climbs chunked path = (.ok image, e')) :
    e.Committed sha256 image := by
  obtain ⟨hverify, hcwd, hpath, ⟨r, hr, hnode⟩, hcontent⟩ := openImage_ok h
  refine ⟨⟨r, by rw [hcwd, hpath, hr], hnode⟩, ?_⟩
  rcases verifyImage_ok hverify he hr hnode with ⟨m, hm, hchunk⟩ | ⟨hnone, hplain, m, hm, hpassed⟩
  · -- the chunk manifest commits to the node under its absolute path
    obtain ⟨key, layout, hkey, hfile, hbytes, hlayout⟩ := verifyChunked_ok hchunk
    rw [ImageSafe, hm, isSome_some, if_pos rfl] at hsafe
    refine ⟨key, hsafe r image.node key hr hnode hkey, ?_⟩
    rw [CommittedUnder, hm]
    refine ⟨layout, hfile, ?_⟩
    rcases hcontent with ⟨data, hk, hc⟩ | ⟨file, hk, hc⟩
    · rw [hc]
      exact hbytes data hk
    · rw [hc]
      exact hlayout file hk
  -- the plain one commits to the path, which is absolute and so leads to the node
  obtain ⟨-, bytes, hcheck, hbytes⟩ := verifyPlain_ok hpassed
  obtain ⟨entry, hentry, hsize, hdigest⟩ := check_ok hcheck
  have habs : path.head? = some slash :=
    m.absolute path (TreeMap.mem_iff_isSome_getElem?.mpr (by rw [hentry]; rfl))
  have hhost : e.vfs.hostNode path = some image.node := by
    rw [resolve_absolute e.vfs e.cwd habs] at hr
    rw [Vfs.hostNode, hr]
    exact hnode
  rcases hcontent with ⟨data, hk, hc⟩ | ⟨file, hk, -⟩
  · have hread : e.vfs.readFile path = some data := by
      simp only [Vfs.readFile, hhost, hk]
    rw [ImageSafe, hnone, isSome_none, if_neg (by simp)] at hsafe
    have hsame : some bytes = some data := by
      rcases hbytes with hfed | ⟨-, hfile⟩
      · exact (hsafe bytes hfed).symm.trans hread
      · exact hfile.symm.trans hread
    obtain rfl := some.inj hsame
    refine ⟨path, hhost, ?_⟩
    rw [CommittedUnder, hnone, hm]
    exact ⟨entry, hentry, by rw [hc]; exact ⟨hsize, hdigest⟩⟩
  · exact absurd hk (hplain file)

lemma Shrinks.openImage (sha256 : Bytes → Hash) (climbs : ℕ) (chunked : Bool) (e : LinuxEnv)
    (path : Bytes) : Shrinks e (e.openImage sha256 climbs chunked path).2 := by
  have hverify := Shrinks.verifyImage sha256 climbs e path
  have henv : (e.openImage sha256 climbs chunked path).2
      = (e.verifyImage sha256 climbs path).2 := by
    unfold LinuxEnv.openImage
    rcases e.verifyImage sha256 climbs path with ⟨_ | _, e'⟩
    · rfl
    dsimp only
    repeat' split
    all_goals rfl
  rw [henv]
  exact hverify

/-- The interpreter the loader follows is the one the file at the path names. -/
lemma interpreterOf_openImage (reader : ElfReader)
    (h : e.openImage sha256 climbs chunked path = (.ok image, e')) :
    e.interpreterOf reader e.cwd path = (reader e'.vfs.chunks image.content).join := by
  obtain ⟨-, -, -, ⟨⟨_, _, node⟩, hr, hnode⟩, hcontent⟩ := openImage_ok h
  have hshrinks := Shrinks.openImage sha256 climbs chunked e path
  rw [h] at hshrinks
  dsimp only at hnode
  subst hnode
  rw [hshrinks.vfs, interpreterOf, hr]
  dsimp only
  rcases hcontent with ⟨data, hk, hc⟩ | ⟨file, hk, hc⟩ <;> rw [hk, hc]

lemma Shrinks.loadImages (sha256 : Bytes → Hash) (climbs : ℕ) (reader : ElfReader)
    (chunked : Bool) (e : LinuxEnv) (path : Bytes) :
    Shrinks e (e.loadImages sha256 climbs reader chunked path).env := by
  have hfirst := Shrinks.openImage sha256 climbs chunked e path
  unfold LinuxEnv.loadImages
  rcases hopen : e.openImage sha256 climbs chunked path with ⟨_ | image, e₁⟩
  · rwa [hopen] at hfirst
  rw [hopen] at hfirst
  dsimp only
  rcases reader e₁.vfs.chunks image.content with _ | _ | p
  · exact hfirst
  · exact hfirst
  have hsecond := Shrinks.openImage sha256 climbs chunked e₁ p
  dsimp only
  rcases hopen₂ : e₁.openImage sha256 climbs chunked p with ⟨_ | image₂, e₂⟩ <;>
    rw [hopen₂] at hsecond <;> exact hfirst.trans hsecond

/-- **An image and its interpreter**: all that is handed over is committed to. -/
lemma loadImages_committed (he : e.Enforced)
    (hsafe : e.ImageSafe climbs e.cwd path)
    (hinterp : ∀ p, e.interpreterOf reader e.cwd path = some p → e.ImageSafe climbs e.cwd p) :
    ∀ image ∈ (e.loadImages sha256 climbs reader chunked path).handed,
      e.Committed sha256 image := by
  have hshrinks := Shrinks.openImage sha256 climbs chunked e path
  unfold loadImages
  rcases hopen : e.openImage sha256 climbs chunked path with ⟨_ | image, e₁⟩
  · simp
  have himage := openImage_committed he hsafe hopen
  have hreader := interpreterOf_openImage reader hopen
  rw [hopen] at hshrinks
  dsimp only
  rcases hread : reader e₁.vfs.chunks image.content with _ | _ | p
  · simpa using himage
  · simpa using himage
  -- the image names an interpreter, which is checked after it
  rw [hread, join_some] at hreader
  have hsafe₂ : e₁.ImageSafe climbs e₁.cwd p := by
    rw [hshrinks.cwd]
    exact hshrinks.imageSafe (hinterp p hreader)
  dsimp only
  rcases hopen₂ : e₁.openImage sha256 climbs chunked p with ⟨_ | image₂, e₂⟩
  · simpa using himage
  have himage₂ := openImage_committed (hshrinks.enforced he) hsafe₂ hopen₂
  simp only [List.mem_cons, List.not_mem_nil, or_false, forall_eq_or_imp, forall_eq]
  exact ⟨himage, hshrinks.committed himage₂⟩

/-- `start_image`, whichever loader it picks. -/
lemma startImage_committed (he : e.Enforced) (hsafe : e.ImageSafe climbs e.cwd path)
    (hinterp : ∀ p, e.interpreterOf reader e.cwd path = some p → e.ImageSafe climbs e.cwd p) :
    ∀ image ∈ (e.startImage sha256 climbs reader path).handed, e.Committed sha256 image :=
  loadImages_committed he hsafe hinterp

/-! ### The two starts -/

/-- `Machine::load` checks the image twice, so that no streamed digest of it is left
when its bytes are read. -/
lemma load_committed (he : e.Enforced)
    (hnamed : e.chunkManifest.isSome → e.NamedBack climbs ROOT path)
    (hinterp : ∀ p, e.interpreterOf reader ROOT path = some p → p ≠ path →
      e.ImageSafe climbs ROOT p) :
    ∀ image ∈ (e.load sha256 climbs reader path).handed, e.Committed sha256 image := by
  have hshrinks := Shrinks.verifyImage sha256 climbs e path
  unfold load
  rcases hverify : e.verifyImage sha256 climbs path with ⟨_ | _, e₁⟩
  · simp
  rw [hverify] at hshrinks
  -- the process starts at the root, with the files and manifests as they were
  have hroot : Shrinks { e with cwd := ROOT } { e₁ with cwd := ROOT } :=
    ⟨hshrinks.vfs, rfl, hshrinks.manifest, hshrinks.chunkManifest, hshrinks.inFlight⟩
  have hown : { e₁ with cwd := ROOT }.ImageSafe climbs ROOT path := by
    by_cases hchunk : e.chunkManifest.isSome
    · refine hroot.imageSafe ?_
      rw [ImageSafe, if_pos hchunk]
      exact hnamed hchunk
    have hused : e₁.inFlight[path]? = none := by
      obtain ⟨r, node, hr, hnode⟩ : ∃ r node, e.vfs.resolve e.cwd path true = .ok r ∧
          r.node = some node := by
        unfold verifyImage at hverify
        cases hr : e.vfs.resolve e.cwd path true with
        | error => simp [hr] at hverify
        | ok r =>
          cases hnode : r.node with
          | none => simp [hr, hnode] at hverify
          | some node => exact ⟨r, node, rfl, hnode⟩
      rcases verifyImage_ok hverify he hr hnode with ⟨m, hm, -⟩ | ⟨-, -, m, -, hpassed⟩
      · simp [hm] at hchunk
      · exact (verifyPlain_ok hpassed).1
    rw [ImageSafe, hroot.chunkManifest, if_neg hchunk]
    intro fed hfed
    exact absurd (hused.symm.trans hfed) (by simp)
  refine fun image himage => hshrinks.committed ?_
  refine startImage_committed (hroot.enforced he) hown ?_ image himage
  intro p hp
  by_cases hpath : p = path
  · rw [hpath]
    exact hown
  have hp' : e.interpreterOf reader ROOT path = some p :=
    (hshrinks.interpreterOf reader ROOT path).symm.trans hp
  exact hroot.imageSafe (hinterp p hp' hpath)

/-- `sys_execve` checks an image that is not chunked once. -/
lemma execve_committed (he : e.Enforced) (hsafe : e.ImageSafe climbs e.cwd path)
    (hinterp : ∀ p, e.interpreterOf reader e.cwd path = some p → e.ImageSafe climbs e.cwd p) :
    ∀ image ∈ (e.execve sha256 climbs reader path).handed, e.Committed sha256 image := by
  unfold execve
  split
  · split
    · split
      · exact startImage_committed he hsafe hinterp
      · simp
    · have hshrinks := Shrinks.loadImages sha256 climbs reader true e path
      dsimp only
      split
      · intro image himage
        refine hshrinks.committed (startImage_committed (hshrinks.enforced he) ?_ ?_ image himage)
        · rw [hshrinks.cwd]
          exact hshrinks.imageSafe hsafe
        intro p hp
        rw [hshrinks.cwd, hshrinks.interpreterOf] at hp
        rw [hshrinks.cwd]
        exact hshrinks.imageSafe (hinterp p hp)
      · simp
    · simp
  · simp

end LinuxEnv

/-! ### Runs -/

namespace ImageStep

variable (climbs : ℕ) (reader : ElfReader)

/-- A start at which the readings its checks rest on are right; every other step
is safe.  `Machine::load` leaves its own image no stale digest to rest on. -/
def Safe (e : LinuxEnv) : ImageStep → Prop
  | .load path =>
    (e.chunkManifest.isSome → e.NamedBack climbs ROOT path) ∧
      ∀ p, e.interpreterOf reader ROOT path = some p → p ≠ path → e.ImageSafe climbs ROOT p
  | .execve path =>
    e.ImageSafe climbs e.cwd path ∧
      ∀ p, e.interpreterOf reader e.cwd path = some p → e.ImageSafe climbs e.cwd p
  | _ => True

open LinuxEnv (Shrinks)

variable {climbs reader} {sha256 : Bytes → Hash} {e : LinuxEnv} {step : ImageStep}

/-- **One step**: a safe step hands over committed images only. -/
lemma Safe.committed (hsafe : step.Safe climbs reader e) (he : e.Enforced) :
    ∀ image ∈ step.handed sha256 climbs reader e, e.Committed sha256 image := by
  cases step with
  | load => exact LinuxEnv.load_committed he hsafe.1 hsafe.2
  | execve => exact LinuxEnv.execve_committed he hsafe.1 hsafe.2
  | _ => simp [handed, start]

/-- No step changes a manifest once it is installed. -/
lemma manifests_exec (sha256 : Bytes → Hash) (climbs : ℕ) (reader : ElfReader) (e : LinuxEnv)
    (step : ImageStep) :
    (step.exec sha256 climbs reader e).manifest = e.manifest ∧
      (step.exec sha256 climbs reader e).chunkManifest = e.chunkManifest := by
  cases step with
  | addFile =>
    unfold exec LinuxEnv.addFile
    dsimp only
    split <;> exact ⟨rfl, rfl⟩
  | chdir =>
    unfold exec chdirTo
    dsimp only
    split
    · split_ifs <;> exact ⟨rfl, rfl⟩
    · exact ⟨rfl, rfl⟩
  | load path =>
    have hverify := (Shrinks.verifyImage sha256 climbs e path).manifests
    unfold exec LinuxEnv.load
    dsimp only
    rcases hopen : e.verifyImage sha256 climbs path with ⟨_ | _, e₁⟩ <;> rw [hopen] at hverify
    · exact hverify
    have hload := (Shrinks.loadImages sha256 climbs reader
      ({ e₁ with cwd := ROOT }.isChunked path) { e₁ with cwd := ROOT } path).manifests
    exact ⟨hload.1.trans hverify.1, hload.2.trans hverify.2⟩
  -- an ordinary file is loaded once, a chunked one is prepared by a first load
  | execve path =>
    unfold exec LinuxEnv.execve
    dsimp only
    split
    · split
      · split_ifs
        · exact (Shrinks.loadImages sha256 climbs reader _ e path).manifests
        · exact ⟨rfl, rfl⟩
      · have hprepared := Shrinks.loadImages sha256 climbs reader true e path
        split_ifs
        · exact (hprepared.trans (Shrinks.loadImages sha256 climbs reader _ _ path)).manifests
        · exact hprepared.manifests
      · exact ⟨rfl, rfl⟩
    · exact ⟨rfl, rfl⟩
  | createFile _ _ _ | appendFile _ _ | fs _ | write _ _ _ | ftruncate _ _ | switch _ =>
    exact ⟨rfl, rfl⟩

lemma manifests_run (sha256 : Bytes → Hash) (climbs : ℕ) (reader : ElfReader) (e : LinuxEnv)
    (steps : List ImageStep) :
    (run (exec sha256 climbs reader) e steps).manifest = e.manifest ∧
      (run (exec sha256 climbs reader) e steps).chunkManifest = e.chunkManifest := by
  induction steps generalizing e with
  | nil => exact ⟨rfl, rfl⟩
  | cons step steps ih =>
    obtain ⟨hm, hc⟩ := manifests_exec sha256 climbs reader e step
    obtain ⟨hm', hc'⟩ := ih (step.exec sha256 climbs reader e)
    exact ⟨hm'.trans hm, hc'.trans hc⟩

end ImageStep

/-- **Manifest enforcement**: in every run from an environment with a manifest
installed, whatever the host delivers and the guest does in it, each start at
which the checks read the filesystem rightly hands over committed images only. -/
theorem images_committed_of_safe_run (sha256 : Bytes → Hash) (climbs : ℕ) (reader : ElfReader)
    (e₀ : LinuxEnv) (he : e₀.Enforced) (steps : List ImageStep)
    (hsafe : Guarded (exec sha256 climbs reader)
      (fun e step => step.Safe climbs reader e) e₀ steps) :
    ∀ before step after, steps = before ++ step :: after →
      let e := run (exec sha256 climbs reader) e₀ before
      ∀ image ∈ step.handed sha256 climbs reader e, e.Committed sha256 image := by
  intro before step after hsteps e
  rw [hsteps] at hsafe
  obtain ⟨-, hrest⟩ := hsafe.of_append
  have hinv : LinuxEnv.Enforced e := by
    obtain ⟨hm, hc⟩ := manifests_run sha256 climbs reader e₀ before
    rw [LinuxEnv.Enforced, hm, hc]
    exact he
  exact ImageStep.Safe.committed hrest.1 hinv

/-! ### A streamed image that the guest rewrites -/

/-- An executable, as far as its first bytes tell. -/
def genuineImage : Bytes := LinuxEnv.elfMagic ++ ascii "good"

/-- A manifest that commits to `bytes` under one absolute path, by a digest that is
the bytes themselves. -/
def oneImage (path bytes : Bytes) (h : path.head? = some slash) : Manifest where
  entries := (∅ : TreeMap Bytes Commitment).insert path ⟨bytes, bytes.length⟩
  absolute := by
    intro q hq
    simp only [TreeMap.mem_insert, LawfulEqCmp.compare_eq_iff_eq,
      TreeMap.not_mem_emptyc, or_false] at hq
    exact hq ▸ h

/-- A fresh machine whose manifest names `/bin/a`. -/
def guardedMachine : LinuxEnv where
  vfs := Vfs.new
  cwd := ROOT
  manifest := some (oneImage (ascii "/bin/a") genuineImage rfl)
  chunkManifest := none
  inFlight := ∅

/-- The host streams `/bin/a`. -/
def delivery : List ImageStep :=
  [.createFile (ascii "/bin/a") 0o755 [], .appendFile (ascii "/bin/a") genuineImage]

/-- An ELF parser that finds no interpreter. -/
def noInterpreter : ElfReader := fun _ _ => some none

/-- The one thing the manifest of `guardedMachine` commits to. -/
lemma committed_guardedMachine {e : LinuxEnv} {image : LinuxEnv.Handed} {data : Bytes}
    (hm : e.manifest = guardedMachine.manifest)
    (hc : e.chunkManifest = guardedMachine.chunkManifest)
    (himage : image.content = .bytes data) (h : e.Committed id image) : data = genuineImage := by
  obtain ⟨-, key, -, h⟩ := h
  rw [LinuxEnv.CommittedUnder, hc, hm, himage] at h
  obtain ⟨entry, hentry, -, hdigest⟩ := h
  change ((∅ : TreeMap Bytes Commitment).insert (ascii "/bin/a")
    ⟨genuineImage, genuineImage.length⟩)[key]? = some entry at hentry
  rw [TreeMap.getElem?_insert] at hentry
  split_ifs at hentry
  · rw [← some.inj hentry] at hdigest
    exact hdigest.symm
  · simp at hentry

/-- The guest writes over the delivered file and starts it: the digest of the
stream passes the check, and the bytes handed over are the guest's. -/
theorem rewritten_stream_is_started :
    let e := run (exec id 0 noInterpreter) guardedMachine
      (delivery ++ [.write 15 4 (ascii "evil")])
    ¬ ∀ image ∈ (execve (ascii "/bin/a")).handed id 0 noInterpreter e,
      e.Committed id image := by
  intro e hall
  have hmem : ⟨ROOT, ascii "/bin/a", 15, .bytes (LinuxEnv.elfMagic ++ ascii "evil")⟩
      ∈ (execve (ascii "/bin/a")).handed id 0 noInterpreter e := by
    decide +kernel
  obtain ⟨hm, hc⟩ := manifests_run id 0 noInterpreter guardedMachine
    (delivery ++ [.write 15 4 (ascii "evil")])
  have hdata := committed_guardedMachine hm hc rfl (hall _ hmem)
  exact absurd hdata (by decide)

/-- After the delivery the streamed digest is that of the file. -/
lemma streamAgrees_delivery :
    (run (exec id 0 noInterpreter) guardedMachine delivery).ImageSafe 0
      (run (exec id 0 noInterpreter) guardedMachine delivery).cwd (ascii "/bin/a") := by
  rw [LinuxEnv.ImageSafe, (manifests_run id 0 noInterpreter guardedMachine delivery).2,
    if_neg (by simp [guardedMachine])]
  intro fed hfed
  have hstream : (run (exec id 0 noInterpreter) guardedMachine delivery).inFlight[
      ascii "/bin/a"]? = some genuineImage := by decide +kernel
  have hfile : (run (exec id 0 noInterpreter) guardedMachine delivery).vfs.readFile
      (ascii "/bin/a") = some genuineImage := by decide +kernel
  rw [hfile, ← hstream, hfed]

/-- Streamed and started untouched, the image is committed to. -/
theorem images_committed_of_safe_run_stream :
    let steps := delivery ++ [.execve (ascii "/bin/a")]
    Guarded (exec id 0 noInterpreter)
      (fun e step => step.Safe 0 noInterpreter e) guardedMachine steps ∧
    ∀ before step after, steps = before ++ step :: after →
      let e := run (exec id 0 noInterpreter) guardedMachine before
      ∀ image ∈ step.handed id 0 noInterpreter e, e.Committed id image := by
  intro steps
  have hnone : (run (exec id 0 noInterpreter) guardedMachine delivery).interpreterOf
      noInterpreter (run (exec id 0 noInterpreter) guardedMachine delivery).cwd
      (ascii "/bin/a") = none := by decide +kernel
  have hsafe : Guarded (exec id 0 noInterpreter)
      (fun e step => step.Safe 0 noInterpreter e) guardedMachine steps :=
    ⟨trivial, trivial, ⟨streamAgrees_delivery, fun p hp => absurd (hnone.symm.trans hp) (by simp)⟩,
      trivial⟩
  exact ⟨hsafe,
    images_committed_of_safe_run id 0 noInterpreter guardedMachine (.inl rfl) steps hsafe⟩

end WebTos
