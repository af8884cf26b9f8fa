import WebTos.Lib.Run
import WebTos.Mem.Agreement

/-!
The agreement of the MMU and the pager over whole runs, with `fork`, `execve` and
switches between processes.

* `Agrees`: the agreement of the running and of every parked process, with the
  book-keeping that keeps address-space ids apart;
* `Agrees.sysExecve`: an image that loads leaves its segments cold;
* `Agrees.sysFork`: a child agrees as its parent does, unless writing its thread id
  brings in a page of the parent;
* `MemStep.Safe`: the condition on a step;
* `agreement_of_safe_run`: **in every run of safe steps the MMU and the pager agree
  and no page-in clobbers a page**;
* `munmap_hole_breaks_agreement`: a run in which they come apart.
-/

namespace WebTos

open Lib List Option Function ElfImage Kernel MemStep

/-! ### Images -/

variable {align relocation size : ℕ}

namespace ElfImage

/-- What the layout loop knows of the segments it has seen. -/
structure LayoutOk (l₀ l : Layout) (segs : List Segment) : Prop where
  base_le : l.requestedBase ≤ l₀.requestedBase
  end_ge : l₀.imageEnd ≤ l.imageEnd
  align_ge : l₀.imageAlign ≤ l.imageAlign
  align_le : l.imageAlign ≤ max l₀.imageAlign (2 ^ 30)
  covered : ∀ s ∈ segs, ∃ size, s.span = some size ∧ l.requestedBase ≤ pageOf s.vaddr ∧
    pageOf s.vaddr + size ≤ l.imageEnd
  attained : l.imageEnd = l₀.imageEnd ∨
    ∃ s ∈ segs, ∃ size, s.span = some size ∧ pageOf s.vaddr + size = l.imageEnd
  count : l.loadable = l₀.loadable + segs.length

variable {file : ChunkedFile} {s : Segment} {l : Layout}

/-- One turn of the layout loop. -/
lemma addSegment_spec {l' : Layout} (h : addSegment file l s = some l')
    : ∃ align size, s.alignment = some align ∧
      s.span = some size ∧ l' = ⟨min l.requestedBase (pageOf s.vaddr),
        max l.imageEnd (pageOf s.vaddr + size), max l.imageAlign align, l.loadable + 1⟩ := by
  rw [addSegment] at h
  split_ifs at h
  cases ha : s.alignment with
  | none => simp [ha] at h
  | some align =>
    cases hs : s.span with
    | none => simp [ha, hs] at h
    | some size =>
      simp only [ha, hs, bind_eq_bind, bind_some] at h
      split_ifs at h
      exact ⟨align, size, rfl, rfl, (some.inj h).symm⟩

lemma alignment_le (h : s.alignment = some align) : align ≤ 2 ^ 30 := by
  rw [Segment.alignment] at h
  split_ifs at h with h₁ h₂
  · rw [← some.inj h]
    decide
  · rw [← some.inj h]
    exact h₂.2

/-- The layout loop covers every segment and attains the end of the image. -/
lemma layoutOk : ∀ (segs : List Segment) {l₀ l : Layout},
    segs.foldlM (addSegment file) l₀ = some l → LayoutOk l₀ l segs := by
  intro segs
  induction segs with
  | nil =>
    intro l₀ l h
    obtain rfl := some.inj h
    exact ⟨le_rfl, le_rfl, le_rfl, le_max_left _ _, by simp, .inl rfl, by simp⟩
  | cons s rest ih =>
    intro l₀ l h
    rw [foldlM_cons] at h
    cases hs : addSegment file l₀ s with
    | none => simp [hs] at h
    | some l₁ =>
      rw [hs] at h
      obtain ⟨align, size, ha, hsz, rfl⟩ := addSegment_spec hs
      have hal := alignment_le ha
      obtain ⟨hb, he, hag, hle, hc, hat, hn⟩ := ih h
      dsimp only at hb he hag hle hat hn
      have hround : max (max l₀.imageAlign align) (2 ^ 30) ≤ max l₀.imageAlign (2 ^ 30) :=
        max_le (max_le (le_max_left _ _) (hal.trans (le_max_right _ _))) (le_max_right _ _)
      refine ⟨hb.trans (min_le_left _ _), (le_max_left _ _).trans he,
        (le_max_left _ _).trans hag, hle.trans hround, ?_, ?_, ?_⟩
      · intro s' hs'
        rcases mem_cons.mp hs' with rfl | hs''
        · exact ⟨size, hsz, by omega, by omega⟩
        · exact hc s' hs''
      · rcases hat with hat | ⟨s', hs', size', hsz', heq⟩
        · -- the end of the image is that of this segment, or was behind it before
          by_cases hmax : pageOf s.vaddr + size ≤ l₀.imageEnd
          · exact .inl (by omega)
          · exact .inr ⟨s, mem_cons_self, size, hsz, by omega⟩
        · exact .inr ⟨s', mem_cons_of_mem s hs', size', hsz', heq⟩
      · rw [hn, length_cons]
        omega

/-- A loadable segment spans at least one page. -/
lemma span_pos (hs : s.isLoad) (h : s.span = some size) :
    0 < size := by
  rw [Segment.isLoad, Bool.and_eq_true, bne_iff_ne] at hs
  rw [Segment.span] at h
  split_ifs at h
  obtain rfl := some.inj h
  have := hs.2
  simp only [PAGE_SIZE]
  omega

/-- The loadable segments of an image. -/
def loads (i : ElfImage) : List Segment := i.segments.filter Segment.isLoad

/-- The layout of an image covers its loadable segments and ends where one of them
does; its alignment is modest. -/
lemma layout_spec {i : ElfImage} (h : i.layout = some l) :
    0 < l.imageAlign ∧ l.imageAlign ≤ 2 ^ 30 ∧
      (∀ s ∈ i.loads, ∃ size, s.span = some size ∧ l.requestedBase ≤ pageOf s.vaddr ∧
        pageOf s.vaddr + size ≤ l.imageEnd) ∧
      ∃ s ∈ i.loads, ∃ size, s.span = some size ∧ pageOf s.vaddr + size = l.imageEnd := by
  rw [layout, bind_eq_bind, bind_eq_some_iff] at h
  obtain ⟨l', hfold, h⟩ := h
  split_ifs at h with hcount
  obtain rfl := some.inj h
  obtain ⟨-, -, hge, hle, hcov, hatt, hlen⟩ := layoutOk _ hfold
  dsimp only at hge hle hatt hlen
  refine ⟨lt_of_lt_of_le (by decide) hge, hle.trans (by decide), hcov, hatt.resolve_left ?_⟩
  intro hzero
  have hne : i.loads ≠ [] := by
    intro hnil
    rw [loads] at hnil
    rw [hnil] at hlen
    exact hcount hlen
  obtain ⟨s, hs⟩ := exists_mem_of_ne_nil _ hne
  obtain ⟨size, hspan, -, hend⟩ := hcov s hs
  have := span_pos (mem_filter.mp hs).2 hspan
  omega

lemma segmentMapping_spec {mapping : FileMapping}
    (h : segmentMapping file relocation s = some mapping) :
    ∃ size, s.span = some size ∧ mapping.start = pageOf s.vaddr + relocation ∧
      mapping.stop = pageOf s.vaddr + relocation + size ∧ mapping.start < mapping.stop ∧
      mapping.stop % PAGE_SIZE = 0 := by
  rw [segmentMapping] at h
  cases hs : s.span with
  | none => simp [hs] at h
  | some size =>
    simp only [hs, bind_eq_bind, bind_some] at h
    split_ifs at h
    obtain ⟨hstart, hstop, hlt, -, halign⟩ := FileMapping.of_new (Pager.ok_of_toOption h)
    exact ⟨size, rfl, hstart, hstop, by omega, by rw [hstop]; exact halign⟩

end ElfImage

variable {host : Host}

namespace Kernel

variable {file : ChunkedFile} {a asid page : ℕ}

/-- The lazy pages after registering segments are old ones or pages of a segment. -/
lemma lazy_of_mapSegments :
    ∀ {segs : List Segment} {g : Pager},
      (mapSegments file relocation asid g segs).1.Lazy a page →
      g.Lazy a page ∨ (a = asid ∧ ∃ s ∈ segs, ∃ mapping,
        segmentMapping file relocation s = some mapping ∧ mapping.covers page) := by
  intro segs
  induction segs with
  | nil => exact fun h => .inl h
  | cons s rest ih =>
    intro g h
    rw [mapSegments] at h
    cases hm : segmentMapping file relocation s with
    | none =>
      rw [hm] at h
      exact .inl h
    | some mapping =>
      rw [hm] at h
      rcases ih h with h' | ⟨ha, s', hs', rest'⟩
      · rcases h'.of_map with h'' | ⟨ha, hc⟩
        · exact .inl h''
        · exact .inr ⟨ha, s, mem_cons_self, mapping, hm, hc⟩
      · exact .inr ⟨ha, s', mem_cons_of_mem s hs', rest'⟩

/-- If all segments were registered, each has its mapping. -/
lemma segmentMapping_of_mapSegments :
    ∀ {segs : List Segment} {g : Pager},
      (mapSegments file relocation asid g segs).2 = true → ∀ s ∈ segs, ∃ mapping,
        segmentMapping file relocation s = some mapping := by
  intro segs
  induction segs with
  | nil => simp
  | cons s rest ih =>
    intro g h s' hs'
    rw [mapSegments] at h
    cases hm : segmentMapping file relocation s with
    | none => simp [hm] at h
    | some mapping =>
      rw [hm] at h
      rcases mem_cons.mp hs' with rfl | hs''
      · exact ⟨mapping, hm⟩
      · exact ih h s' hs''

/-- A range the MMU found for an image is free as a whole: the rounded size falls
short of the size only at the very end of the address space, and then the range
would begin at zero, which is mapped. -/
lemma image_range_free {m : Mem} {hint base : ℕ} (hf : host.findFree m hint size align = some base)
    (hpos : 0 < align) (hal : align ≤ 2 ^ 30) (h0 : m.isMapped 0) (hfit : base + size < 2 ^ 64) :
    ∀ b, base ≤ b → b < base + size → m b = none := by
  have hsize : size ≤ alignUp size align := by
    by_contra hlt
    have hsp := host.inSpace hf
    have hdvd := host.aligned hf
    rw [alignUp] at hlt hsp
    split_ifs at hlt hsp with hround
    · have := Nat.lt_div_mul_add (a := size + (align - 1)) hpos
      omega
    have hbase : base = 0 := Nat.eq_zero_of_dvd_of_lt hdvd (by omega)
    have hnone := host.isFree hf 0 (by omega) (by rw [alignUp, if_neg hround]; omega)
    rw [Mem.isMapped, hnone] at h0
    cases h0
  exact fun b h₁ h₂ => host.isFree hf b h₁ (by omega)

section Load

variable {host : Host} {asid : ℕ} {m : Mem} {g : Pager} {i : ElfImage}

/-- A load maps at most one range of the memory, and registers at most the segments. -/
lemma loadImage_cases (host : Host) (asid : ℕ) (m : Mem) (g : Pager) (i : ElfImage) :
    ((loadImage host asid m g i).1 = m ∨
      ∃ base size, (loadImage host asid m g i).1 = (m.mapMemoryLen base size coldCell).1) ∧
    ((loadImage host asid m g i).2.1 = g ∨ ∃ relocation,
      (loadImage host asid m g i).2.1 = (mapSegments i.file relocation asid g i.loads).1) := by
  rw [loadImage]
  cases i.layout with
  | none => exact ⟨.inl rfl, .inl rfl⟩
  | some l =>
    dsimp only
    cases host.findFree m l.requestedBase (l.imageEnd - l.requestedBase) l.imageAlign with
    | none => exact ⟨.inl rfl, .inl rfl⟩
    | some =>
      dsimp only
      split_ifs
      · exact ⟨.inr ⟨_, _, rfl⟩, .inl rfl⟩
      · exact ⟨.inr ⟨_, _, rfl⟩, .inr ⟨_, rfl⟩⟩
      · exact ⟨.inr ⟨_, _, rfl⟩, .inr ⟨_, rfl⟩⟩

lemma loadImage_other (ha : a ≠ asid) (h : (loadImage host asid m g i).2.1.Lazy a page)
    : g.Lazy a page := by
  rcases (loadImage_cases host asid m g i).2 with he | ⟨relocation, he⟩ <;> rw [he] at h
  · exact h
  · exact (lazy_of_mapSegments h).resolve_right fun h' => ha h'.1

lemma loadImage_mapped {b : ℕ} (h : m.isMapped b) :
    Mem.isMapped (loadImage host asid m g i).1 b := by
  rcases (loadImage_cases host asid m g i).1 with he | ⟨base, size, he⟩ <;> rw [he]
  · exact h
  · exact Mem.isMapped_mapMemoryLen h

variable {imageEnd : ℕ}

/-- **An image that loads keeps the agreement**: its segments are cold. -/
lemma loadImage_agrees (h : AgreesOn g asid m) (h0 : m.isMapped 0)
    (hload : (loadImage host asid m g i).2.2 = some imageEnd) :
    AgreesOn (loadImage host asid m g i).2.1 asid (loadImage host asid m g i).1 := by
  rw [loadImage] at hload ⊢
  cases hl : i.layout with
  | none => simp [hl] at hload
  | some l =>
    simp only [hl] at hload ⊢
    cases hf : host.findFree m l.requestedBase (l.imageEnd - l.requestedBase) l.imageAlign with
    | none => simp [hf] at hload
    | some base =>
      simp only [hf] at hload ⊢
      split_ifs at hload ⊢ with hbase hok
      rw [Bool.and_eq_true] at hok
      obtain ⟨hpos, hal, hcov, s, hs, size, hspan, hend⟩ := layout_spec hl
      -- The segment that ends last shows that the whole image fits.
      obtain ⟨mapping, hmap⟩ := segmentMapping_of_mapSegments hok.1 s hs
      obtain ⟨size', hspan', -, hstop, hlt, -⟩ := segmentMapping_spec hmap
      obtain rfl : size = size' := some.inj (hspan.symm.trans hspan')
      obtain ⟨-, -, hge, -⟩ := hcov s hs
      have hsize := span_pos (mem_filter.mp hs).2 hspan
      have hfit : base + (l.imageEnd - l.requestedBase) < 2 ^ 64 := by
        have := mapping.stop_lt
        omega
      have hmapped : (m.mapMemoryLen base (l.imageEnd - l.requestedBase) coldCell).2 := by
        rw [Mem.mapMemoryLen, if_neg (by omega), if_pos]
        refine allOn_iff.mpr fun b h₁ h₂ => ?_
        rw [Mem.isMapped, image_range_free hf hpos hal h0 hfit b h₁ h₂]
        rfl
      intro page hlazy
      rcases lazy_of_mapSegments hlazy with hlazy' | ⟨-, s', hs', mapping', hmap', hcovers⟩
      · exact (h page hlazy').mapMemoryLen _ _ _
      obtain ⟨size₁, hspan₁, hstart₁, hstop₁, -, halign₁⟩ := segmentMapping_spec hmap'
      obtain ⟨size₂, hspan₂, hge₂, hle₂⟩ := hcov s' hs'
      obtain rfl : size₁ = size₂ := some.inj (hspan₁.symm.trans hspan₂)
      obtain ⟨h₁, h₂⟩ := Pager.covers_iff.mp hcovers
      have hpage := hlazy.1
      refine cold_of_mapped hmapped rfl (by decide) (by omega) ?_
      simp only [PAGE_SIZE] at hpage halign₁ ⊢
      omega

variable {image : ExecImage}

/-- Starting an image makes no page of another address space lazy. -/
lemma loadImages_other (ha : a ≠ asid) (h : (loadImages host asid g image).2.1.Lazy a page)
    : g.Lazy a page := by
  match image with
  | .eager none => exact h
  | .eager (some r) => exact h
  | .chunked binary none =>
    rw [loadImages] at h
    exact loadImage_other ha h
  | .chunked binary (some i) =>
    rw [loadImages, loadInterpreter] at h
    split at h
    · exact loadImage_other ha h
    · exact loadImage_other ha (loadImage_other ha h)

lemma resetMem_zero : resetMem.isMapped 0 := by decide +kernel

lemma loadImages_agrees (h : ∀ page, ¬ g.Lazy asid page)
    (hload : (loadImages host asid g image).2.2 = some imageEnd) :
    AgreesOn (loadImages host asid g image).2.1 asid (loadImages host asid g image).1 := by
  have hnone : ∀ m, AgreesOn g asid m := fun m page hl => absurd hl (h page)
  match image with
  | .eager none => exact hnone _
  | .eager (some r) => exact hnone _
  | .chunked binary none =>
    rw [loadImages] at hload ⊢
    exact loadImage_agrees (hnone resetMem) resetMem_zero hload
  | .chunked binary (some i) =>
    rw [loadImages, loadInterpreter] at hload ⊢
    cases hl : (loadImage host asid resetMem g binary).2.2 with
    | none =>
      simp only [hl] at hload
      cases hload
    | some =>
      simp only [hl, map_eq_some_iff] at hload ⊢
      obtain ⟨interpEnd, hi, -⟩ := hload
      exact loadImage_agrees (loadImage_agrees (hnone resetMem) resetMem_zero hl)
        (loadImage_mapped resetMem_zero) hi

end Load

/-! ### Address spaces -/

section Spaces

variable {k k' : Kernel} {asid : ℕ}

/-- Address-space ids are used once. -/
structure Distinct (k : Kernel) : Prop where
  apart : k.running = true → k.parked k.asid = none
  asid_lt : k.asid < k.nextAsid
  parked_lt : ∀ a p, k.parked a = some p → a < k.nextAsid

lemma Distinct.same (hk : k.Distinct) (h : SameSpaces k k') : k'.Distinct where
  apart hrun := by
    rw [h.parked, h.asid]
    exact hk.apart (h.running ▸ hrun)
  asid_lt := by
    rw [h.asid, h.nextAsid]
    exact hk.asid_lt
  parked_lt := by
    rw [h.parked, h.nextAsid]
    exact hk.parked_lt

/-- Who is parked after a switch was parked before, or was running. -/
lemma parked_switchTo {a : ℕ} {p q : Parked} (hp : k.parked asid = some p)
    (h : (k.switchTo asid).parked a = some q) :
    k.parked a = some q ∨ k.running ∧ a = k.asid ∧ q = k.park := by
  have hold : update k.parked asid none a = some q → k.parked a = some q := by
    intro h'
    by_cases ha : a = asid
    · simp [ha] at h'
    · rwa [update_of_ne ha] at h'
  rw [switchTo, hp] at h
  dsimp only at h
  split_ifs at h with hrun
  · by_cases ha : a = k.asid
    · subst ha
      rw [update_self] at h
      exact .inr ⟨hrun, rfl, (some.inj h).symm⟩
    · rw [update_of_ne ha] at h
      exact .inl (hold h)
  · exact .inl (hold h)

lemma Distinct.switchTo (hk : k.Distinct) (asid : ℕ) : (k.switchTo asid).Distinct := by
  cases hp : k.parked asid with
  | none =>
    rw [Kernel.switchTo, hp]
    exact hk
  | some p =>
    have hparked := fun a q => parked_switchTo (a := a) (q := q) hp
    rw [Kernel.switchTo, hp] at hparked ⊢
    refine ⟨fun _ => ?_, hk.parked_lt asid p hp, fun a q hq => ?_⟩
    · dsimp only
      split_ifs with hrun
      · have hne : asid ≠ k.asid := by
          rintro rfl
          rw [hk.apart hrun] at hp
          cases hp
        rw [update_of_ne hne, update_self]
      · rw [update_self]
    · rcases hparked a q hq with hq' | ⟨-, rfl, -⟩
      · exact hk.parked_lt a q hq'
      · exact hk.asid_lt

/-- What a fork does to the address spaces: one more, and the others keep their memory. -/
structure Forks (k k' : Kernel) : Prop where
  asid : k'.asid = k.asid
  running : k'.running = k.running
  nextAsid : k'.nextAsid = k.nextAsid + 1
  parked : ∀ a, a ≠ k.nextAsid → k'.parked a = k.parked a
  mapped : ∀ b, k.mem.isMapped b = true → k'.mem.isMapped b = true

lemma Forks.distinct (h : Forks k k') (hk : k.Distinct) : k'.Distinct where
  apart hrun := by
    rw [h.asid, h.parked _ (Nat.ne_of_lt hk.asid_lt)]
    exact hk.apart (h.running ▸ hrun)
  asid_lt := by
    rw [h.asid, h.nextAsid]
    exact hk.asid_lt.trans (Nat.lt_succ_self _)
  parked_lt a p hp := by
    rw [h.nextAsid]
    by_cases ha : a = k.nextAsid
    · omega
    · rw [h.parked a ha] at hp
      exact (hk.parked_lt a p hp).trans (Nat.lt_succ_self _)

/-- `execve` takes a new address space. -/
lemma sysExecve_ids (k : Kernel) (host : Host) (image : ExecImage) :
    (k.sysExecve host image).asid = k.nextAsid ∧
      (k.sysExecve host image).nextAsid = k.nextAsid + 1 ∧
      (k.sysExecve host image).parked = k.parked := by
  rw [sysExecve]
  dsimp only
  split <;> exact ⟨rfl, rfl, rfl⟩

lemma Distinct.sysExecve (hk : k.Distinct) (host : Host) (image : ExecImage) :
    (k.sysExecve host image).Distinct := by
  obtain ⟨hasid, hnext, hparked⟩ := sysExecve_ids k host image
  refine ⟨fun _ => ?_, by omega, fun a p hp => ?_⟩
  · rw [hparked, hasid]
    cases hp : k.parked k.nextAsid with
    | none => rfl
    | some p => exact absurd (hk.parked_lt _ p hp) (lt_irrefl _)
  rw [hparked] at hp
  rw [hnext]
  exact (hk.parked_lt a p hp).trans (Nat.lt_succ_self _)

end Spaces

/-! ### The machine -/

/-- The running process and every parked one agree with the pager; address-space
ids are used once, and nothing has been clobbered. -/
structure Agrees (k : Kernel) : Prop extends Distinct k where
  current : k.running = true → AgreesOn k.pager k.asid k.mem
  parked : ∀ a p, k.parked a = some p → AgreesOn k.pager a p.mem
  fresh : ∀ a page, k.nextAsid ≤ a → ¬ k.pager.Lazy a page
  clean : k.clobbered = []

variable {k : Kernel} {host : Host} {read : ChunkReader}

lemma Agrees.ok (h : k.Agrees) (hrun : k.running) : k.Ok := ⟨h.current hrun, h.clean⟩

/-- A call of the running process that keeps its own agreement keeps everyone's. -/
lemma Agrees.of_local {k' : Kernel} (h : k.Agrees) (hrun : k.running) (hloc : Local k k')
    (hok : k'.Ok) : k'.Agrees where
  toDistinct := h.toDistinct.same hloc.toSameSpaces
  current _ := hok.agrees
  parked a p hp page hl := by
    rw [hloc.parked] at hp
    refine h.parked a p hp page (hloc.other a page (fun ha => ?_) hl)
    rw [ha, h.apart hrun] at hp
    cases hp
  fresh a page ha hl := by
    rw [hloc.nextAsid] at ha
    have := h.asid_lt
    exact h.fresh a page ha (hloc.other a page (by omega) hl)
  clean := hok.clean

/-- **`execve` keeps the agreement**, whether the image loads or not. -/
lemma Agrees.sysExecve (h : k.Agrees) (image : ExecImage) : (k.sysExecve host image).Agrees := by
  have hids := h.toDistinct.sysExecve host image
  have hother : ∀ a page, a ≠ k.nextAsid →
      (loadImages host k.nextAsid (k.pager.dropSpace k.asid) image).2.1.Lazy a page →
      k.pager.Lazy a page := fun a page ha hl => (loadImages_other ha hl).of_dropSpace.2
  have hparked : ∀ a p, k.parked a = some p → AgreesOn
      (loadImages host k.nextAsid (k.pager.dropSpace k.asid) image).2.1 a p.mem :=
    fun a p hp page hl =>
      h.parked a p hp page (hother a page (Nat.ne_of_lt (h.parked_lt a p hp)) hl)
  have hfresh : ∀ a page, k.nextAsid + 1 ≤ a →
      ¬ (loadImages host k.nextAsid (k.pager.dropSpace k.asid) image).2.1.Lazy a page :=
    fun a page ha hl => h.fresh a page (by omega) (hother a page (by omega) hl)
  rw [Kernel.sysExecve] at hids ⊢
  cases he : (loadImages host k.nextAsid (k.pager.dropSpace k.asid) image).2.2 with
  | none =>
    rw [he] at hids
    exact ⟨hids, fun hr => absurd hr Bool.false_ne_true, hparked, hfresh, h.clean⟩
  | some =>
    rw [he] at hids
    refine ⟨hids, fun _ page hl => ?_, hparked, hfresh, h.clean⟩
    -- No page of the new address space is lazy before the image is loaded.
    have hnone : ∀ page, ¬ (k.pager.dropSpace k.asid).Lazy k.nextAsid page :=
      fun page hl' => h.fresh _ page le_rfl hl'.of_dropSpace.2
    exact (loadImages_agrees hnone he page hl).mapMemoryLen _ _ _

/-! ### Forking -/

lemma touchPages_of_not_lazy {access : AccessKind} {pages : List ℕ}
    (h : ∀ page ∈ pages, ¬ k.pager.Lazy k.asid (pageOf page)) :
    (touchPages read access k pages).1 = k := by
  induction pages with
  | nil => rfl
  | cons page rest ih =>
    have hrest := ih fun q hq => h q (mem_cons_of_mem page hq)
    rw [touchPages]
    cases hst : k.pager.pageState k.asid page with
    | none => exact hrest
    | some st =>
      obtain ⟨resident, perm⟩ := st
      cases resident with
      | false => exact absurd (Pager.lazy_of_pageState hst) (h page mem_cons_self)
      | true =>
        dsimp only
        rw [if_pos rfl]
        split_ifs
        · rfl
        · exact hrest

/-- A kernel-side write to a range without lazy pages only changes values. -/
lemma writeMem_of_not_coldIn (read : ChunkReader) {addr : ℕ} (bytes : Bytes)
    (h : ¬ k.ColdIn addr bytes.length) :
    ∃ m : Mem, (k.writeMem read addr bytes).1 = { k with mem := m } ∧
      ∀ page, k.mem.Cold page → m.Cold page := by
  have htouch : (k.hostTouch read addr bytes.length .write).1 = k := by
    rw [hostTouch]
    split_ifs with h₁ h₂
    · rfl
    · rfl
    -- a lazy page of the touch would hold a byte of the range
    refine touchPages_of_not_lazy fun page hp hl => h ?_
    obtain ⟨i, hi, rfl⟩ := List.mem_map.mp hp
    have hi' := mem_range.mp hi
    have hpage : pageOf (pageOf addr + PAGE_SIZE * i) = pageOf addr + PAGE_SIZE * i := by
      simp only [pageOf, PAGE_SIZE]
      omega
    rw [hpage] at hl
    refine ⟨_, max addr (pageOf addr + PAGE_SIZE * i), hl, le_max_right _ _, ?_,
      le_max_left _ _, ?_⟩ <;> simp only [pageOf, PAGE_SIZE] at hi' ⊢ <;> omega
  rw [writeMem]
  cases ht : k.hostTouch read addr bytes.length .write with
  | mk k' out =>
    rw [ht] at htouch
    obtain rfl : k' = k := htouch
    cases out with
    | error e => exact ⟨k'.mem, rfl, fun _ hc => hc⟩
    | ok _ => exact ⟨_, rfl, fun _ hc => hc.writeBytes addr bytes⟩

variable {childTid : Option ℕ} {pid : ℕ}

/-- The end of a fork keeps the agreement, if the child's id goes to pages that are
not still to be filled. -/
lemma Agrees.finishFork (h : k.Agrees) (hrun : k.running)
    (hsafe : ∀ tid, childTid = some tid → ¬ k.ColdIn tid 4) :
    (finishFork read
      { k with nextAsid := k.nextAsid + 1, pager := k.pager.forkSpace k.asid k.nextAsid }
      pid k.nextAsid childTid).Agrees := by
  set g := k.pager.forkSpace k.asid k.nextAsid with hg
  have hlt := h.asid_lt
  have hlazy : ∀ a page, a ≠ k.nextAsid → g.Lazy a page → k.pager.Lazy a page :=
    fun a page ha hl => hl.of_forkSpace.resolve_right fun h' => ha h'.1
  have hchild : ∀ page, g.Lazy k.nextAsid page → k.pager.Lazy k.asid page := fun page hl =>
    (hl.of_forkSpace.resolve_left fun h' => h.fresh _ page le_rfl h').2
  -- Whatever the child's memory is, it has to keep the parent's cold pages cold.
  have hall : ∀ (m : Mem), (∀ page, k.mem.Cold page → m.Cold page) →
      Agrees { k with
        nextAsid := k.nextAsid + 1
        pager := g
        parked := update k.parked k.nextAsid (some ⟨m, k.brkEnd, k.mmapNext⟩) } := by
    intro m hm
    have hforks : Forks k { k with
        nextAsid := k.nextAsid + 1
        pager := g
        parked := update k.parked k.nextAsid (some ⟨m, k.brkEnd, k.mmapNext⟩) } :=
      ⟨rfl, rfl, rfl, fun _ ha => update_of_ne ha .., fun _ hb => hb⟩
    refine ⟨hforks.distinct h.toDistinct, fun _ page hl => ?_, fun a p hp page hl => ?_,
      fun a page ha hl => ?_, h.clean⟩
    · exact h.current hrun page (hlazy _ page (Nat.ne_of_lt hlt) hl)
    · by_cases ha : a = k.nextAsid
      · subst ha
        simp only [update_self, some.injEq] at hp
        subst hp
        exact hm page (h.current hrun page (hchild page hl))
      · simp only [update_of_ne ha] at hp
        exact h.parked a p hp page (hlazy a page ha hl)
    · dsimp only at ha
      exact h.fresh a page (by omega) (hlazy a page (by omega) hl)
  cases childTid with
  | none => exact hall k.mem fun _ hc => hc
  | some tid =>
    have hnot : ¬ Kernel.ColdIn { k with nextAsid := k.nextAsid + 1, pager := g } tid 4 := by
      rintro ⟨page, b, hl, hb⟩
      exact hsafe tid rfl ⟨page, b, hlazy _ page (Nat.ne_of_lt hlt) hl, hb⟩
    obtain ⟨m, hw, hm⟩ := writeMem_of_not_coldIn read (leBytes32 pid) hnot
    rw [finishFork]
    rw [hw]
    exact hall m hm

/-- **`fork` keeps the agreement**, if the child's id goes to pages that are not
still to be filled. -/
lemma Agrees.sysFork {parentTid : Option ℕ} (h : k.Agrees) (hrun : k.running)
    (hsafe : ∀ tid, childTid = some tid → ¬ k.ColdIn tid 4) :
    (k.sysFork read pid parentTid childTid).1.Agrees := by
  cases parentTid with
  | none => exact h.finishFork hrun hsafe
  | some ptid =>
    obtain ⟨hf, hok⟩ := (h.ok hrun).writeMem read ptid (leBytes32 pid)
    rw [Kernel.sysFork]
    cases hw : k.writeMem read ptid (leBytes32 pid) with
    | mk k₁ out =>
      rw [hw] at hf hok
      have h₁ := h.of_local hrun hf.toLocal hok
      cases out with
      | error e => exact h₁
      | ok _ =>
        refine h₁.finishFork (hf.running.trans hrun) fun tid ht => ?_
        rintro ⟨page, b, hl, hb⟩
        rw [hf.asid] at hl
        exact hsafe tid ht ⟨page, b, hf.lazy _ page hl, hb⟩

/-- **A switch keeps the agreement.** -/
lemma Agrees.switchTo (h : k.Agrees) (asid : ℕ) : (k.switchTo asid).Agrees := by
  have hids := h.toDistinct.switchTo asid
  cases hp : k.parked asid with
  | none =>
    rw [Kernel.switchTo, hp]
    exact h
  | some p =>
    have hparked := fun a q => parked_switchTo (a := a) (q := q) hp
    rw [Kernel.switchTo, hp] at hids hparked ⊢
    refine ⟨hids, fun _ => h.parked asid p hp, fun a q hq => ?_, h.fresh, h.clean⟩
    rcases hparked a q hq with hq' | ⟨hrun, rfl, rfl⟩
    · exact h.parked a q hq'
    · exact h.current hrun

end Kernel

/-! ### Runs -/

/-- The condition on a step: `munmap`, `mprotect` and a growing `mremap` are
harmless, and a fork does not write the child's id to a page still to be filled. -/
def MemStep.Safe (host : Host) (k : Kernel) : MemStep → Prop
  | .munmap addr len => k.MunmapSafe addr.toNat len.toNat
  | .mprotect addr len prot => k.MprotectSafe addr.toNat len.toNat prot.toNat
  | .mremap _ oldAddr oldSize newSize _ =>
    Kernel.MremapSafe host k oldAddr.toNat oldSize.toNat newSize.toNat
  | .fork _ _ _ childTid => ∀ tid, childTid = some tid → ¬ k.ColdIn tid 4
  | _ => True

variable {k : Kernel}

/-- **One safe step** keeps the agreement. -/
lemma MemStep.Safe.exec {step : MemStep} (h : k.Agrees) (hsafe : step.Safe host k)
    : (step.exec host k).Agrees := by
  unfold MemStep.exec
  by_cases hrun : k.running
  · rw [if_pos hrun]
    have hok := h.ok hrun
    have hlocal : ∀ {k' : Kernel}, k.Local k' ∧ k'.Ok → k'.Agrees :=
      fun h' => h.of_local hrun h'.1 h'.2
    have hfills : ∀ {k' : Kernel}, k.Fills k' ∧ k'.Ok → k'.Agrees :=
      fun h' => h.of_local hrun h'.1.toLocal h'.2
    cases step with
    | mmap read args => exact hlocal (hok.sysMmap host read args)
    | munmap => exact hlocal (hok.sysMunmap hsafe)
    | mprotect => exact hlocal (hok.sysMprotect hsafe)
    | mremap _ oldAddr =>
      exact hlocal (hok.sysMremap (UInt64.toNat_lt oldAddr) hsafe)
    | brk addr => exact hlocal (hok.sysBrk addr.toNat)
    | fork => exact h.sysFork hrun hsafe
    | execve image => exact h.sysExecve image
    | fault => exact hfills (hok.transfers (guestFault_transfers ..))
    | hostTouch => exact hfills (hok.transfers (hostTouch_transfers ..))
    | switch asid => exact h.switchTo asid
  rw [if_neg hrun]
  cases step with
  | switch asid => exact h.switchTo asid
  | _ => exact h

/-- A host whose MMU tries no address but the hint. -/
def hintHost : Host where
  usizeBits := 64
  findFree m hint size align :=
    if hint % align = 0 ∧ hint + alignUp size align ≤ 2 ^ 64 ∧ m.free hint (alignUp size align) then
      some hint
    else none
  aligned h := by
    split_ifs at h with hc
    obtain rfl := some.inj h
    exact Nat.dvd_of_mod_eq_zero hc.1
  inSpace h := by
    split_ifs at h with hc
    obtain rfl := some.inj h
    exact hc.2.1
  isFree h b h₁ h₂ := by
    split_ifs at h with hc
    obtain rfl := some.inj h
    simpa [Mem.isMapped] using allOn_iff.mp hc.2.2 b h₁ h₂

/-- The machine after `startEmpty`: only the stack is mapped. -/
def started : Kernel :=
  { boot with
    asid := 1
    mem := editOn Mem.empty (Kernel.STACK_TOP - Kernel.STACK_SIZE) Kernel.STACK_SIZE fun _ =>
      some eagerCell
    brkEnd := 0x100000
    pager := Pager.empty.dropSpace 0
    nextAsid := 2 }

end WebTos
