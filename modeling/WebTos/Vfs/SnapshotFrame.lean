import WebTos.Vfs.Text

/-!
What a snapshot leaves behind: `export_fs_excluding` redacts, moves contents out,
writes, moves them back and expands again, all in the live filesystem.

* `kind_putBack`: an excluded file gets its contents back, or loses them if the list
  of paths leads to it twice;
* `restoreSteps`, `kind_restore`: the placeholders that are expanded in one file;
* `Literal`, `Distinct`: the texts a snapshot gives back, and `snapshot_unchanged`: when a
  snapshot changes nothing.
-/

namespace WebTos

open Lib List Function NodeKind

namespace Vfs

/-! ### Contents moved out and back -/

variable {v : Vfs}

/-- How many paths of the list lead to the node. -/
def leads (v : Vfs) (paths : List Bytes) (i : ℕ) : ℕ :=
  paths.countP fun path => v.hostNode path = some i

variable {n : ℕ}

/-- What `put_file_contents` finds: a file's contents are replaced. -/
lemma putFileContents_spec (v : Vfs) (path data : Bytes) (hn : v.hostNode path = some n)
    (hk : ∃ old, (v.node n).kind = .file old) :
    Rekinded v (v.putFileContents path data) fun i =>
      if n = i then .file data else (v.node i).kind := by
  obtain ⟨old, hold⟩ := hk
  rw [putFileContents, hn]
  simp only [hold]
  exact Rekinded.setKind (by rw [hold]; rfl)

lemma takeAll_held (v : Vfs) (held : List (Bytes × Bytes)) (paths : List Bytes) :
    v.takeAll held paths = (held ++ (v.takeAll [] paths).1, (v.takeAll [] paths).2) := by
  induction paths generalizing v held with
  | nil => simp [takeAll]
  | cons path paths ih =>
    rw [takeAll, takeAll]
    rcases v.takeFileContents path with ⟨_ | data, w⟩
    · exact ih w held
    dsimp only
    rw [ih w, ih w ([] ++ _)]
    simp

variable {data path : Bytes}

lemma takeFileContents_other
    (h : ∀ n data, v.hostNode path = some n → (v.node n).kind ≠ .file data) :
    v.takeFileContents path = (none, v) := by
  rw [takeFileContents]
  split
  · rfl
  · next n hn =>
      split
      · next data hk => exact absurd hk (h n data hn)
      · rfl

/-- What an excluded node is after everything is put back over a filesystem with the
kinds `g`: a second path to a file finds it empty, and that is put back last. -/
def settled (v : Vfs) (paths : List Bytes) (g : ℕ → NodeKind) (i : ℕ) : NodeKind :=
  if v.leads paths i = 0 then g i
  else if v.leads paths i = 1 then (v.node i).kind else (v.node i).kind.hollow

variable {u : Vfs}

lemma SameTree.kind_eq (h : SameTree v u) (hk : ∀ data, (v.node n).kind ≠ .file data)
    : (u.node n).kind = (v.node n).kind := by
  have hn := h.hollow n
  cases hu : (u.node n).kind <;> cases hv : (v.node n).kind <;> simp_all [NodeKind.hollow]

lemma SameTree.file (h : SameTree v u) (hk : (v.node n).kind = .file data)
    : ∃ old, (u.node n).kind = .file old := by
  have hn := h.hollow n
  cases hu : (u.node n).kind <;> simp_all [NodeKind.hollow]

/-- **Moving contents out and back**, over any filesystem `u` with the same tree. -/
lemma kind_putBack (paths : List Bytes) {g : ℕ → NodeKind} (hu : Rekinded v u g) :
    Rekinded v ((v.takeAll [] paths).1.foldl (fun u entry => u.putFileContents entry.1 entry.2) u)
      (v.settled paths g) := by
  induction paths generalizing v u g with
  | nil => exact hu.congr fun i _ => by simp [settled, leads]
  | cons path paths ih =>
    have hcount : ∀ i, v.leads (path :: paths) i
        = v.leads paths i + if v.hostNode path = some i then 1 else 0 := by
      intro i
      simp [leads, countP_cons]
    by_cases hfile : ∃ n data, v.hostNode path = some n ∧ (v.node n).kind = .file data
    · obtain ⟨n, data, hn, hk⟩ := hfile
      have hempty : Rekinded v (v.setKind n (.file []))
          fun i => if n = i then .file [] else (v.node i).kind := .setKind (by rw [hk]; rfl)
      have hput : Rekinded v (u.putFileContents path data)
          fun i => if n = i then .file data else g i := by
        have hspec := putFileContents_spec u path data (by rw [hu.sameTree.hostNode]; exact hn)
          (hu.sameTree.file hk)
        exact hu.trans (F := fun i kind => if n = i then .file data else kind) hspec
      have hrest := ih (hempty.across hput)
      simp only [takeAll, takeFileContents, hn, hk]
      rw [takeAll_held, nil_append, singleton_append, foldl_cons]
      refine (hempty.comp hrest).congr fun i hi => ?_
      -- the file is empty for every further path that leads to it
      rw [settled, settled, hcount, hn]
      have hleads : (v.setKind n (.file [])).leads paths i = v.leads paths i := by
        simp only [leads, hempty.sameTree.hostNode]
      rw [hleads, hempty.kind hi]
      by_cases hni : n = i
      · subst hni
        rcases v.leads paths n with _ | _ | k <;> simp [hk, hollow]
      · simp [hni]
    have hother : ∀ n data, v.hostNode path = some n → (v.node n).kind ≠ .file data :=
      fun n data hn hk => hfile ⟨n, data, hn, hk⟩
    rw [takeAll, takeFileContents_other hother]
    refine (ih hu).congr fun i hi => ?_
    rw [settled, settled, hcount]
    by_cases hpath : v.hostNode path = some i
    · -- what is not a file is the same in every filesystem with this tree
      have hk : ∀ data, (v.node i).kind ≠ .file data := fun data => hother i data hpath
      have hhollow : (v.node i).kind.hollow = (v.node i).kind := by
        cases hv : (v.node i).kind <;> simp_all [hollow]
      have hg : g i = (v.node i).kind := by rw [← hu.kind hi, hu.sameTree.kind_eq hk]
      rw [hhollow, hg]
      split_ifs <;> rfl
    · simp [hpath]

end Vfs

/-! ### Placeholders expanded again -/

/-- The secrets whose placeholder is expanded in the file `i`, in turn: an unscoped one
once, a scoped one for each of its paths that leads there. -/
def restoreSteps (secrets : Secrets) (v : Vfs) (i : ℕ) : List (Bytes × Secret) :=
  secrets.toList.flatMap fun entry =>
    if entry.2.paths.isEmpty then [entry]
    else (entry.2.paths.filter fun path => v.hostNode path = some i).map fun _ => entry

/-- The placeholder of the secret is expanded in the file `i`. -/
def RestoredAt (v : Vfs) (secret : Secret) (i : ℕ) : Prop :=
  secret.paths = [] ∨ ∃ path ∈ secret.paths, v.hostNode path = some i

lemma mem_restoreSteps {secrets : Secrets} {v : Vfs} {i : ℕ} {entry : Bytes × Secret} :
    entry ∈ restoreSteps secrets v i ↔
      secrets[entry.1]? = some entry.2 ∧ RestoredAt v entry.2 i := by
  rw [restoreSteps, mem_flatMap]
  constructor
  · rintro ⟨e, he, hmem⟩
    split_ifs at hmem with hpaths
    · obtain rfl : entry = e := by simpa using hmem
      exact ⟨Std.TreeMap.mem_toList_iff_getElem?_eq_some.mp he, .inl (isEmpty_iff.mp hpaths)⟩
    obtain ⟨path, hpath, rfl⟩ := mem_map.mp hmem
    obtain ⟨hin, hleads⟩ := mem_filter.mp hpath
    exact ⟨Std.TreeMap.mem_toList_iff_getElem?_eq_some.mp he,
      .inr ⟨path, hin, by simpa using hleads⟩⟩
  · rintro ⟨hreg, hat⟩
    refine ⟨entry, Std.TreeMap.mem_toList_iff_getElem?_eq_some.mpr hreg, ?_⟩
    split_ifs with hpaths
    · simp
    rcases hat with hnone | ⟨path, hin, hleads⟩
    · exact absurd (isEmpty_iff.mpr hnone) hpaths
    · exact mem_map.mpr ⟨path, mem_filter.mpr ⟨hin, by simpa using hleads⟩, rfl⟩

/-- The substitution that expands a placeholder. -/
def expansion (entry : Bytes × Secret) : Bytes × Bytes := (placeholder entry.1, entry.2.value)

/-- A kind with the placeholders of some secrets expanded in turn. -/
def NodeKind.expand (kind : NodeKind) (entries : List (Bytes × Secret)) : NodeKind :=
  entries.foldl (fun kind entry => kind.rewrite [expansion entry]) kind

lemma NodeKind.expand_cons (kind : NodeKind) (x : Bytes × Secret) (xs : List (Bytes × Secret)) :
    kind.expand (x :: xs) = (kind.rewrite [expansion x]).expand xs := rfl

namespace Vfs

lemma rewriteScoped (v : Vfs) (path : Bytes) (entry : Bytes × Secret) :
    Rekinded v (if (v.readFile path).isSome then v.rewriteResidentFile path [expansion entry]
      else v)
      fun i => if v.hostNode path = some i then (v.node i).kind.rewrite [expansion entry]
        else (v.node i).kind := by
  split_ifs with hread
  · rw [rewriteResidentFile]
    cases hn : v.hostNode path with
    | none => exact (Rekinded.refl v).congr fun i _ => by simp
    | some n =>
      refine (Rekinded.setKind (hollow_rewrite _ _)).congr fun i _ => ?_
      by_cases hni : n = i
      · subst hni
        simp
      · simp [hni]
  refine (Rekinded.refl v).congr fun i _ => ?_
  split_ifs with hpath
  · -- no resident file is there
    rw [readFile, hpath] at hread
    dsimp only at hread
    cases hk : (v.node i).kind <;> simp_all [rewrite]
  · rfl

/-- A pass over some items, each of which expands some placeholders in every file. -/
lemma Rekinded.foldl {α : Type} {step : Vfs → α → Vfs}
    (entries : Vfs → ℕ → α → List (Bytes × Secret))
    (hstep : ∀ v x, Rekinded v (step v x) fun i => (v.node i).kind.expand (entries v i x))
    (hsame : ∀ {v w : Vfs}, (∀ path, w.hostNode path = v.hostNode path) → entries w = entries v)
    (xs : List α) (v : Vfs) :
    Rekinded v (xs.foldl step v) fun i => (v.node i).kind.expand (xs.flatMap (entries v i)) := by
  induction xs generalizing v with
  | nil => exact Rekinded.refl v
  | cons x xs ih =>
    have hone := hstep v x
    refine (hone.comp (ih _)).congr fun i hi => ?_
    rw [hone.kind hi, hsame hone.sameTree.hostNode, flatMap_cons]
    simp [expand]

lemma kind_scoped (entry : Bytes × Secret) (paths : List Bytes) (v : Vfs) :
    Rekinded v (paths.foldl (fun v path => if (v.readFile path).isSome
        then v.rewriteResidentFile path [expansion entry] else v) v)
      fun i => (v.node i).kind.expand
        ((paths.filter fun path => v.hostNode path = some i).map fun _ => entry) := by
  have hfold := Rekinded.foldl (fun v i path => if v.hostNode path = some i then [entry] else [])
    (fun v path => (rewriteScoped v path entry).congr fun i _ => by split_ifs <;> rfl)
    (fun h => by simp only [h]) paths v
  refine hfold.congr fun i _ => congrArg _ ?_
  clear hfold
  induction paths with
  | nil => rfl
  | cons path paths ih =>
    rw [flatMap_cons, ih, filter_cons]
    by_cases hpath : v.hostNode path = some i
    · rw [if_pos hpath, if_pos (decide_eq_true hpath)]
      rfl
    · rw [if_neg hpath, if_neg (by simpa using hpath)]
      rfl

/-- **The expansion after a snapshot**, file by file. -/
lemma kind_restore (secrets : Secrets) (v : Vfs) :
    Rekinded v (restoreResidentSecrets secrets v)
      fun i => (v.node i).kind.expand (restoreSteps secrets v i) := by
  refine Rekinded.foldl (fun v i entry => if entry.2.paths.isEmpty then [entry]
    else (entry.2.paths.filter fun path => v.hostNode path = some i).map fun _ => entry)
    (fun v entry => ?_) (fun h => by simp only [h]) secrets.toList v
  by_cases hpaths : entry.2.paths.isEmpty
  · simp only [if_pos hpaths]
    exact Rekinded.rewriteResidentFiles v _
  · simp only [if_neg hpaths]
    exact kind_scoped entry entry.2.paths v

end Vfs

/-! ### The filesystem after a snapshot -/

lemma NodeKind.expand_file (data : Bytes) (entries : List (Bytes × Secret)) :
    (file data).expand entries
      = .file ((entries.map expansion).foldl (fun t sub => rewriteBytes [sub] t) data) := by
  induction entries generalizing data with
  | nil => rfl
  | cons _ _ ih =>
    rw [expand_cons, rewrite, ih]
    rfl

lemma placeholder_ne_nil (name : Bytes) : placeholder name ≠ [] := by
  simp [placeholder, ascii]

/-- A placeholder is not empty: none is found in an emptied file. -/
lemma NodeKind.expand_hollow (kind : NodeKind) (entries : List (Bytes × Secret)) :
    kind.hollow.expand entries = kind.hollow := by
  induction entries with
  | nil => rfl
  | cons entry _ ih =>
    have hne : ∀ sub ∈ [expansion entry], sub.1 ≠ [] := by
      simpa [expansion] using placeholder_ne_nil entry.1
    rw [expand_cons, rewrite_hollow hne, ih]

/-- **What a snapshot leaves of each node**: redacted, emptied if the excluded paths lead
to it more than once, and expanded again. -/
lemma kind_after (secrets : Secrets) (v : Vfs) (paths : List Bytes) :
    Vfs.Rekinded v (exportFsExcluding secrets v paths).after fun i =>
      (if v.leads paths i ≤ 1 then (v.node i).kind.rewrite (secretRedactions secrets)
        else (v.node i).kind.hollow).expand (restoreSteps secrets v i) := by
  obtain ⟨w, -, hafter, hw⟩ := redacted_spec secrets v paths
  have hput := Vfs.kind_putBack paths (w.takeAll_spec [] paths)
  rw [hafter]
  generalize (w.takeAll [] paths).1.foldl (fun v entry => v.putFileContents entry.1 entry.2)
    (w.takeAll [] paths).2 = u at hput ⊢
  refine ((hw.comp hput).comp (Vfs.kind_restore secrets u)).congr fun i hi => ?_
  have hsame := hw.sameTree.trans hput.sameTree
  have hsteps : restoreSteps secrets u i = restoreSteps secrets v i := by
    simp only [restoreSteps, hsame.hostNode]
  have hleads : w.leads paths i = v.leads paths i := by
    simp only [Vfs.leads, hw.sameTree.hostNode]
  rw [hsteps, hput.kind (hw.length ▸ hi), Vfs.settled, Vfs.kept, hleads, hw.kind hi,
    hollow_rewrite]
  -- a path that leads to no node excludes none
  have hexcl : v.leads paths i = 0 → ¬ w.Excluded paths i := by
    rintro hzero ⟨path, hmem, hpath⟩
    rw [hw.sameTree.hostNode] at hpath
    exact absurd (countP_eq_zero.mp hzero path hmem) (by simp [hpath])
  rcases hl : v.leads paths i with _ | _ | k
  · simp [hexcl hl]
  · simp
  · simp

/-- The nodes of a filesystem as they were. -/
def Unchanged (v w : Vfs) : Prop := w.nodes = v.nodes

/-- At most one of the excluded paths leads to a file with contents. -/
def NoRepeat (v : Vfs) (paths : List Bytes) : Prop :=
  ∀ i < v.nodes.length, (v.node i).kind.hollow ≠ (v.node i).kind → v.leads paths i ≤ 1

/-- Names and values are text, as the types of the source promise. -/
def SecretsText (secrets : Secrets) : Prop :=
  ∀ (name : Bytes) secret, secrets[name]? = some secret →
    utf8Valid name = true ∧ utf8Valid secret.value = true

/-- No placeholder that is expanded in the file occurs in the text, and every value that
occurs in it is one whose placeholder is. -/
structure Literal (secrets : Secrets) (v : Vfs) (i : ℕ) (data : Bytes) : Prop where
  no_placeholder : ∀ (name : Bytes) secret, secrets[name]? = some secret → RestoredAt v secret i →
    ¬ placeholder name <:+: data
  restored : ∀ (name : Bytes) secret, secrets[name]? = some secret → secret.value <:+: data →
    RestoredAt v secret i

/-- The placeholders of the values that occur in the text share no part with any value,
with themselves or with another placeholder that is expanded in the file. -/
structure Distinct (secrets : Secrets) (v : Vfs) (i : ℕ) (data : Bytes) : Prop where
  values : ∀ (name : Bytes) secret, secrets[name]? = some secret → secret.value <:+: data →
    ∀ value, Registered secrets value → Apart (placeholder name) value
  unbordered : ∀ (name : Bytes) secret, secrets[name]? = some secret → secret.value <:+: data →
    Unbordered (placeholder name)
  placeholders : ∀ (name : Bytes) secret, secrets[name]? = some secret → secret.value <:+: data →
    ∀ (name' : Bytes) secret', secrets[name']? = some secret' → RestoredAt v secret' i →
      name ≠ name' →
    Apart (placeholder name) (placeholder name')

/-- No two words among the registered values and placeholders share a part, and no
placeholder shares one with itself. -/
structure SecretsApart (secrets : Secrets) : Prop where
  values : ∀ (name : Bytes) secret, secrets[name]? = some secret →
    ∀ value, Registered secrets value → Apart (placeholder name) value
  unbordered : ∀ (name : Bytes) secret, secrets[name]? = some secret →
    Unbordered (placeholder name)
  others : ∀ (name : Bytes) secret, secrets[name]? = some secret →
    ∀ (name' : Bytes) secret', secrets[name']? = some secret' → name ≠ name' →
    Apart (placeholder name) (placeholder name') ∧ Apart secret.value secret'.value

/-- What holds of every text of the filesystem. -/
def EachText (v : Vfs) (P : ℕ → Bytes → Prop) : Prop :=
  ∀ i < v.nodes.length, ∀ data, (v.node i).kind = .file data → utf8Valid data = true → P i data

lemma utf8Valid_placeholder {name : Bytes} (h : utf8Valid name) :
    utf8Valid (placeholder name) := by
  have hopen : utf8Valid (ascii "$\x7b") := by decide
  rw [placeholder, append_assoc, utf8Valid_append hopen, utf8Valid_append h]
  decide

section Texts

variable {secrets : Secrets} (htext : SecretsText secrets) {v : Vfs} {i : ℕ} {data : Bytes}

include htext

lemma expand_text (hne : ∀ sub ∈ secretRedactions secrets, sub.1 ≠ [])
    (hdata : utf8Valid data) :
    ((file data).rewrite (secretRedactions secrets)).expand (restoreSteps secrets v i)
      = .file (replaceEach ((restoreSteps secrets v i).map expansion)
          (replaceEach (secretRedactions secrets) data)) := by
  have hred : TextSubs (secretRedactions secrets) := by
    intro sub hsub
    refine ⟨hne sub hsub, ?_⟩
    obtain ⟨name, secret, hreg, rfl⟩ := mem_secretRedactions.mp hsub
    obtain ⟨hname, hvalue⟩ := htext name secret hreg
    exact ⟨hvalue, utf8Valid_placeholder hname⟩
  have hexp : TextSubs ((restoreSteps secrets v i).map expansion) := by
    intro sub hsub
    obtain ⟨entry, hentry, rfl⟩ := mem_map.mp hsub
    obtain ⟨hname, hvalue⟩ := htext entry.1 entry.2 (mem_restoreSteps.mp hentry).1
    exact ⟨placeholder_ne_nil _, utf8Valid_placeholder hname, hvalue⟩
  rw [rewrite, rewriteBytes_eq hne hdata, expand_file,
    rewrites_eq hexp (utf8Valid_replaceEach hred hdata)]

/-- A text that can be recovered is. -/
lemma expand_of_literal (hdata : utf8Valid data) (hlit : Literal secrets v i data)
    (hdist : Distinct secrets v i data) :
    ((file data).rewrite (secretRedactions secrets)).expand (restoreSteps secrets v i)
      = .file data := by
  classical
  rw [expand_text htext (secretRedactions_ne_nil hdist.values) hdata]
  have hreg : ∀ {entry : Bytes × Secret}, entry ∈ secrets.toList →
    secrets[entry.1]? = some entry.2 :=
    fun hmem => Std.TreeMap.mem_toList_iff_getElem?_eq_some.mp hmem
  -- the text is recovered if words and marks can be told apart
  refine congrArg file (restore_redact (fun entry : Bytes × Secret => entry.2.value)
    (fun entry => placeholder entry.1) secrets.toList (restoreSteps secrets v i)
    (fun entry => placeholder_ne_nil _) (fun entry hentry =>
      Registered.ne_nil hdist.values ⟨entry.1, entry.2, hreg hentry, rfl⟩) ?_ ?_ ?_ ?_)
  · intro entry hentry
    obtain ⟨hmem, hat⟩ := mem_restoreSteps.mp hentry
    exact hlit.no_placeholder entry.1 entry.2 hmem hat
  · intro entry hentry hocc
    exact mem_restoreSteps.mpr ⟨hreg hentry, hlit.restored entry.1 entry.2 (hreg hentry) hocc⟩
  · intro entry hentry hocc other hother
    exact hdist.values entry.1 entry.2 (hreg hentry) hocc _ ⟨other.1, other.2, hreg hother, rfl⟩
  intro entry hentry hocc
  refine ⟨hdist.unbordered entry.1 entry.2 (hreg hentry) hocc, fun other hother hne => ?_⟩
  obtain ⟨hmem, hat⟩ := mem_restoreSteps.mp hother
  refine hdist.placeholders entry.1 entry.2 (hreg hentry) hocc other.1 other.2 hmem hat
    fun hname => ?_
  refine hne (Prod.ext hname ?_)
  have := hreg hentry
  rw [hname, hmem] at this
  exact (Option.some.inj this).symm

omit htext in
/-- With words that share no part, no placeholder that is expanded is left, and no value
that is not put back. -/
lemma literal_of_expand (hapart : SecretsApart secrets)
    (h : replaceEach ((restoreSteps secrets v i).map expansion)
      (replaceEach (secretRedactions secrets) data) = data) : Literal secrets v i data where
  no_placeholder := by
    intro name secret hreg hat hocc
    have hmem : (name, secret) ∈ restoreSteps secrets v i := mem_restoreSteps.mpr ⟨hreg, hat⟩
    rw [← h] at hocc
    refine not_infix_replaceEach ((restoreSteps secrets v i).map expansion)
      (((restoreSteps secrets v i).map expansion).map Prod.fst) ?_ ?_ ?_ _
      (mem_map_of_mem hmem) hocc
    · rintro w hw
      simp only [map_map, mem_map, comp_apply, expansion] at hw
      obtain ⟨entry, -, rfl⟩ := hw
      exact placeholder_ne_nil _
    · exact fun sub hsub => mem_map_of_mem hsub
    intro sub hsub _ w hw
    simp only [map_map, mem_map, comp_apply, expansion] at hw hsub
    obtain ⟨entry, hentry, rfl⟩ := hw
    obtain ⟨other, hother, rfl⟩ := hsub
    exact (hapart.values entry.1 entry.2 (mem_restoreSteps.mp hentry).1 _
      ⟨other.1, other.2, (mem_restoreSteps.mp hother).1, rfl⟩).symm
  restored := by
    intro name secret hreg hocc
    by_contra hnot
    -- the value is gone after the redaction, and the expansion brings back other values
    have hgone : ¬ secret.value <:+: replaceEach (secretRedactions secrets) data :=
      not_infix_redacted (fun name secret hreg _ => hapart.values name secret hreg)
        ⟨name, secret, hreg, rfl⟩
    rw [← h] at hocc
    refine hgone (infix_of_replaceEach ((restoreSteps secrets v i).map expansion)
      (secret.value :: ((restoreSteps secrets v i).map expansion).map Prod.fst)
      ?_ (fun sub hsub => mem_cons_of_mem _ (mem_map_of_mem hsub)) ?_ _ mem_cons_self
      hocc)
    · rintro w hw
      rcases mem_cons.mp hw with rfl | hw
      · exact (hapart.values name secret hreg _ ⟨name, secret, hreg, rfl⟩).ne_nil
      simp only [map_map, mem_map, comp_apply, expansion] at hw
      obtain ⟨entry, -, rfl⟩ := hw
      exact placeholder_ne_nil _
    rintro sub hsub - w hw
    obtain ⟨other, hother, rfl⟩ := mem_map.mp hsub
    obtain ⟨hother, hat⟩ := mem_restoreSteps.mp hother
    rcases mem_cons.mp hw with rfl | hw
    · refine (hapart.others other.1 other.2 hother name secret hreg fun hname => hnot ?_).2
      rw [hname, hreg] at hother
      rw [Option.some.inj hother]
      exact hat
    simp only [map_map, mem_map, comp_apply, expansion] at hw
    obtain ⟨entry, hentry, rfl⟩ := hw
    exact (hapart.values entry.1 entry.2 (mem_restoreSteps.mp hentry).1 _
      ⟨other.1, other.2, hother, rfl⟩).symm

end Texts

/-- **When a snapshot changes nothing**: if no two excluded paths lead to one file with
contents, and in every text no placeholder that is expanded there occurs, every value that
occurs is one that is put back there, and the placeholders put in for them are distinct
from all the other words.  The first is necessary; so is the second when no two registered
words share a part. -/
theorem snapshot_unchanged (secrets : Secrets) (htext : SecretsText secrets) (v : Vfs)
    (paths : List Bytes) :
    (NoRepeat v paths ∧ EachText v (fun i data => Literal secrets v i data ∧
      Distinct secrets v i data) →
        Unchanged v (exportFsExcluding secrets v paths).after) ∧
      (Unchanged v (exportFsExcluding secrets v paths).after →
        NoRepeat v paths ∧ (SecretsApart secrets → EachText v (Literal secrets v))) := by
  have hafter := kind_after secrets v paths
  constructor
  · rintro ⟨hrepeat, hlit⟩
    refine hafter.nodes_eq fun i hi => ?_
    cases hk : (v.node i).kind with
    | file data =>
      have hback : ((file data).rewrite (secretRedactions secrets)).expand
          (restoreSteps secrets v i) = file data := by
        cases hdata : utf8Valid data with
        | true =>
          obtain ⟨hl, hd⟩ := hlit i hi data hk hdata
          exact expand_of_literal htext hdata hl hd
        | false =>
          have hnot : (file data).isText = false := hdata
          rw [rewrite_of_not_text hnot, expand_file, rewrites_of_not_text _ hdata]
      split_ifs with honce
      · exact hback
      -- a file that two paths lead to is empty already
      have hempty : (file data).hollow = file data := by
        by_contra hfull
        exact honce (hrepeat i hi (by rwa [hk]))
      rw [expand_hollow, hempty]
    | dir _ | chunkedFile _ | symlink _ | charDev _ =>
      -- nothing to redact, to move or to expand
      have hbare : (v.node i).kind.hollow = (v.node i).kind := by rw [hk]; rfl
      rw [← hk, ← hbare, rewrite_of_not_text (by rw [hbare, hk]; rfl), hollow_hollow, ite_self,
        expand_hollow]
  intro hsame
  have hkind : ∀ i < v.nodes.length,
      (if v.leads paths i ≤ 1 then (v.node i).kind.rewrite (secretRedactions secrets)
        else (v.node i).kind.hollow).expand (restoreSteps secrets v i) = (v.node i).kind := by
    intro i hi
    rw [← hafter.kind hi, Vfs.node, hsame, Vfs.node]
  have hrepeat : NoRepeat v paths := by
    intro i hi hfull
    by_contra hmany
    have hempty := hkind i hi
    rw [if_neg hmany, expand_hollow] at hempty
    exact hfull hempty
  refine ⟨hrepeat, fun hapart i hi data hk hdata => literal_of_expand hapart ?_⟩
  rcases eq_or_ne data [] with rfl | hne
  · simp
  have honce := hrepeat i hi (by rw [hk]; simpa [hollow] using hne.symm)
  have hback := hkind i hi
  have hfull := secretRedactions_ne_nil
    fun name secret hreg (_ : secret.value <:+: data) => hapart.values name secret hreg
  rw [if_pos honce, hk, expand_text htext hfull hdata] at hback
  exact file.inj hback

/-- A file with contents, excluded twice, is empty after the snapshot. -/
theorem snapshot_empties_repeated_path :
    let v := run FsCall.exec Vfs.new [.addNode (ascii "/f") (.file (ascii "data")) 0o644]
    ¬ Unchanged v (exportFsExcluding ∅ v [ascii "/f", ascii "/f"]).after := by
  intro v hsame
  have hbefore : (v.node 15).kind.dataLen = 4 := by decide +kernel
  have hafter : ((exportFsExcluding ∅ v [ascii "/f", ascii "/f"]).after.node 15).kind.dataLen
    = 0 := by
    decide +kernel
  rw [Vfs.node, hsame] at hafter
  rw [Vfs.node, hafter] at hbefore
  exact absurd hbefore (by decide)

-- a file that names a placeholder gets the value
example : (exportFsExcluding password (FsCall.exec Vfs.new
    (.addNode (ascii "/f") (.file (placeholder (ascii "pw"))) 0o644)) []).after.readFile
      (ascii "/f")
      = some (ascii "hunter2") := by
  decide +kernel

lemma secretsText_password : SecretsText password := by
  intro name secret hreg
  obtain ⟨rfl, rfl⟩ := getElem?_oneSecret.mp hreg
  exact ⟨by decide +kernel, by decide +kernel⟩

/-- A file with the password in it is as it was, and so is an excluded one. -/
theorem snapshot_unchanged_config :
    let v := run FsCall.exec Vfs.new
      [.addNode (ascii "/etc/app.conf") (.file (ascii "key=hunter2")) 0o644,
        .addNode (ascii "/etc/blob") (.file (0xFF :: ascii "hunter2")) 0o644]
    let paths := [ascii "/etc/blob"]
    SecretsText password ∧ NoRepeat v paths ∧
      EachText v (fun i data => Literal password v i data ∧ Distinct password v i data) ∧
      Unchanged v (exportFsExcluding password v paths).after := by
  intro v paths
  have hrepeat : NoRepeat v paths := fun i _ _ => countP_le_length
  have hfiles : ∀ i < v.nodes.length, i ≠ 15 → (v.node i).kind.isText = false := by decide +kernel
  have hread : v.readFile (ascii "/etc/app.conf") = some (ascii "key=hunter2") := by decide +kernel
  have hhost : v.hostNode (ascii "/etc/app.conf") = some 15 := by decide +kernel
  have hconf : ∀ data, (v.node 15).kind = .file data → data = ascii "key=hunter2" := by
    intro data hk
    rw [Vfs.readFile, hhost] at hread
    simpa [hk] using hread
  -- the configuration is the only text, and the password is in it
  have htexts : EachText v (fun i data => Literal password v i data ∧
    Distinct password v i data) := by
    intro i hi data hk hdata
    obtain rfl : i = 15 := by
      by_contra hne
      have hnot := hfiles i hi hne
      rw [hk, isText, hdata] at hnot
      exact absurd hnot (by simp)
    obtain rfl := hconf data hk
    refine ⟨⟨?_, ?_⟩, ⟨?_, ?_, ?_⟩⟩
    · intro name secret hreg _
      rw [(getElem?_oneSecret.mp hreg).1]
      decide
    · intro name secret hreg _
      rw [(getElem?_oneSecret.mp hreg).2]
      exact .inl rfl
    · intro name secret hreg _ value hvalue
      rw [registered_password.mp hvalue, (getElem?_oneSecret.mp hreg).1]
      exact Apart.of_ends (m := ascii "\x7bpw") (by decide) (by decide) (by decide)
    · intro name secret hreg _ s hs hne hsuf
      rw [(getElem?_oneSecret.mp hreg).1] at hne hsuf ⊢
      have hall : ∀ s ∈ (placeholder (ascii "pw")).tails, s ≠ [] → s ≠ placeholder (ascii "pw") →
          ¬ s <+: placeholder (ascii "pw") := by decide
      exact hall s ((mem_tails _ _).mpr hsuf) hs hne
    · intro name secret hreg _ name' secret' hreg' _ hne
      exact absurd ((getElem?_oneSecret.mp hreg).1.trans (getElem?_oneSecret.mp hreg').1.symm) hne
  exact ⟨secretsText_password, hrepeat, htexts,
    (snapshot_unchanged password secretsText_password v paths).1 ⟨hrepeat, htexts⟩⟩

end WebTos
