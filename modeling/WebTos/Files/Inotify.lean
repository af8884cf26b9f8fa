import WebTos.Files.Calls

/-!
What a read of an inotify descriptor returns, and what it leaves for the next one.

* `InotifyInner.pending`: what there is to tell, an overflow first;
* `readEvent`: one `inotify_event` as a watcher reads it;
* `takeEvents_ok`: the loop of `read_inotify`, behind the first record;
* `readInotify_told`: a read returns the longest run of whole records that fits, and takes
  these events and no others.
-/

namespace WebTos.Fd

open Lib List InotifyEvent

/-- The fields have the widths they have in the source. -/
structure InotifyEvent.Typed (e : InotifyEvent) : Prop where
  descriptor : -2 ^ 31 ≤ e.descriptor ∧ e.descriptor < 2 ^ 31
  mask : e.mask < 2 ^ 32
  cookie : e.cookie < 2 ^ 32
  name : e.name.length < 2 ^ 31

/-- The event with its name as it lies in the record, terminated and padded. -/
def InotifyEvent.padded (e : InotifyEvent) : InotifyEvent :=
  { e with name := e.name ++ replicate (e.nameLen - e.name.length) 0 }

/-- `struct inotify_event`, as a watcher reads it. -/
def readEvent : Reader Unit InotifyEvent := do
  let wd ← Reader.uint () 4
  let mask ← Reader.uint () 4
  let cookie ← Reader.uint () 4
  let len ← Reader.uint () 4
  let name ← Reader.take () len
  return ⟨if wd < 2 ^ 31 then wd else wd - 2 ^ 32, mask, cookie, name⟩

/-- What there is to tell, an overflow first. -/
def InotifyInner.pending (inner : InotifyInner) : List InotifyEvent :=
  if inner.overflowed then ⟨-1, IN_Q_OVERFLOW, 0, []⟩ :: inner.queue else inner.queue

variable {e : InotifyEvent}

lemma InotifyEvent.nameLen_bounds (e : InotifyEvent) :
    e.name.length ≤ e.nameLen ∧ e.nameLen ≤ e.name.length + 16 := by
  rw [nameLen, Nat.ceilDiv_eq_add_pred_div]
  split_ifs with hempty
  · rw [isEmpty_iff.mp hempty]
    exact ⟨le_rfl, Nat.zero_le _⟩
  · omega

lemma InotifyEvent.length_record (e : InotifyEvent) : e.record.length = 16 + e.nameLen := by
  have hname := e.nameLen_bounds.1
  simp only [record, length_append, length_leBytes, length_replicate]
  omega

/-- **A record is read back.** -/
lemma readEvent_record (h : e.Typed) (rest : Bytes) :
    readEvent (e.record ++ rest) = .ok (e.padded, rest) := by
  have hbounds := e.nameLen_bounds
  have hname := h.name
  have hlen : e.nameLen < 2 ^ 32 := by omega
  have hwd : (e.descriptor % 2 ^ 32).toNat < 2 ^ 32 := by omega
  have hsigned : (if (e.descriptor % 2 ^ 32).toNat < 2 ^ 31 then ((e.descriptor % 2 ^ 32).toNat : ℤ)
      else (e.descriptor % 2 ^ 32).toNat - 2 ^ 32) = e.descriptor := by
    have := h.descriptor
    split_ifs <;> omega
  have hfour {n : ℕ} (hn : n < 2 ^ 32) (rest : Bytes) :
      Reader.uint () 4 (leBytes 4 n ++ rest) = .ok (n, rest) := (Codec.uint () 4).reads hn rest
  have htake : Reader.take () e.nameLen (e.padded.name ++ rest) = .ok (e.padded.name, rest) :=
    (Codec.take () e.nameLen).reads (by simp [padded, hbounds.1]) rest
  rw [padded, append_assoc] at htake
  simp only [readEvent, record, append_assoc, Reader.bind_apply, hfour hwd,
    hfour h.mask, hfour h.cookie, hfour hlen, htake, hsigned]
  rfl

/-- The records of some events, read one after the other. -/
lemma times_readEvent (es : List InotifyEvent) (h : ∀ e ∈ es, e.Typed) :
    Reader.times readEvent es.length (es.flatMap record) =
      .ok (es.map padded, []) := by
  induction es with
  | nil => rfl
  | cons e es ih =>
    obtain ⟨he, hes⟩ := forall_mem_cons.mp h
    rw [length_cons, flatMap_cons, Reader.times, Reader.bind_apply, readEvent_record he]
    dsimp only
    rw [Reader.bind_apply, ih hes]
    rfl

variable {bufLen : ℕ}

/-- **The loop of `read_inotify`** behind the first record. -/
lemma takeEvents_ok (events : List InotifyEvent) : ∀ {out : Bytes}, out ≠ [] →
    out.length ≤ bufLen → ∃ taken rest, events = taken ++ rest ∧
      takeEvents bufLen out events = .ok (out ++ taken.flatMap record, rest) ∧
      (out ++ taken.flatMap record).length ≤ bufLen ∧
      ∀ e ∈ rest.head?,
        bufLen < (out ++ taken.flatMap record).length + e.record.length := by
  induction events with
  | nil =>
    intro out _ hout
    exact ⟨[], [], rfl, by rw [flatMap_nil, append_nil]; rfl, by simpa using hout, by simp⟩
  | cons event events ih =>
    intro out hne hout
    have hrecord := event.length_record
    rw [takeEvents, if_neg fun h => hne (isEmpty_iff.mp h.1)]
    split_ifs with hfull
    · -- no room for the next record: it stays, with all behind it
      refine ⟨[], event :: events, rfl, by rw [flatMap_nil, append_nil], by simpa using hout, ?_⟩
      rintro e ⟨⟩
      rw [flatMap_nil, append_nil]
      omega
    · have hlonger : (out ++ event.record).length ≤ bufLen := by
        rw [length_append]
        omega
      obtain ⟨taken, rest, rfl, htake, hfits, hnext⟩ :=
        ih (append_ne_nil_of_left_ne_nil hne _) hlonger
      rw [append_assoc, ← flatMap_cons] at htake hfits hnext
      exact ⟨event :: taken, rest, rfl, htake, hfits, hnext⟩

/-- What a read may come to.  It fails if the first record does not fit, and there is as much to
tell as before; or it takes some events, with the longest run of records that fits. -/
def InotifyInner.Told (inner : InotifyInner) (bufLen : ℕ) : SysResult Bytes × InotifyInner → Prop
  | (.error errno, after) => errno = .EINVAL ∧ after.pending = inner.pending ∧
      ∃ e ∈ inner.pending.head?, bufLen < e.record.length
  | (.ok bytes, after) => bytes.length ≤ bufLen ∧ ∃ taken, inner.pending = taken ++ after.pending ∧
      Reader.times readEvent taken.length bytes = .ok (taken.map padded, []) ∧
      (taken = [] → after.pending = []) ∧
      (∀ e ∈ after.pending.head?, bufLen < bytes.length + e.record.length) ∧
      ∀ e ∈ taken, 0 ∉ e.name → e.padded.name.takeWhile (· ≠ 0) = e.name

/-- **A read of an inotify descriptor** returns whole records, and loses none. -/
theorem readInotify_told (inner : InotifyInner) (htyped : ∀ e ∈ inner.queue, e.Typed)
    (bufLen : ℕ) : inner.Told bufLen (inner.readInotify bufLen) := by
  have hpending : ∀ e ∈ inner.pending, e.Typed := by
    intro e he
    rw [InotifyInner.pending] at he
    split_ifs at he
    · rcases mem_cons.mp he with rfl | he
      · exact ⟨by decide, by decide, by decide, by decide⟩
      · exact htyped e he
    · exact htyped e he
  -- the padding of a name is zeros
  have hname : ∀ e : InotifyEvent, 0 ∉ e.name → e.padded.name.takeWhile (· ≠ 0) = e.name := by
    intro e he
    rw [padded, takeWhile_append_of_pos]
    · rw [takeWhile_replicate_eq_filter]
      simp
    · rintro b hb
      exact decide_eq_true fun hzero => he (hzero ▸ hb)
  unfold InotifyInner.readInotify
  rw [← InotifyInner.pending]
  cases hp : inner.pending with
  | nil =>
    refine ⟨Nat.zero_le _, [], hp, rfl, fun _ => rfl, by simp [InotifyInner.pending], by simp⟩
  | cons first events =>
    have hrecord := first.length_record
    rw [if_neg (by simp), takeEvents]
    split_ifs with hsmall hfull
    · exact ⟨rfl, hp.symm, first, by rw [hp]; rfl, by omega⟩
    · -- the first record either fits or is refused as too large
      exact absurd ⟨rfl, by rwa [length_nil, Nat.zero_add] at hfull⟩ hsmall
    have hne : first.record ≠ [] := by
      rw [← length_pos_iff]
      omega
    have hroom : first.record.length ≤ bufLen := by
      rw [length_nil] at hfull
      omega
    obtain ⟨taken, rest, rfl, htake, hfits, hnext⟩ := takeEvents_ok events hne hroom
    rw [nil_append, htake]
    rw [← flatMap_cons] at *
    refine ⟨hfits, first :: taken, hp, times_readEvent _ fun e he => hpending e ?_, by simp, hnext,
      fun e _ => hname e⟩
    rw [hp]
    exact mem_append_left _ he

/-- A descriptor with an overflow to tell and an event of the name `a`, read with room for one. -/
theorem readInotify_told_overflow :
    InotifyInner.Told ⟨[⟨1, 0x100, 0, [0x61]⟩], true, 0⟩ 20
      (InotifyInner.readInotify ⟨[⟨1, 0x100, 0, [0x61]⟩], true, 0⟩ 20) := by
  refine readInotify_told _ (fun e he => ?_) 20
  obtain rfl := mem_singleton.mp he
  exact ⟨by decide, by decide, by decide, by decide⟩

end WebTos.Fd
