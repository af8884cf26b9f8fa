import Mathlib

/-!
Reading and writing byte strings: readers that take what they read from the front of
the bytes, the little-endian integers, and what it means that a reader and a writer
belong together.

* `leBytes`, `leValue`: an integer as a given number of bytes, lowest first;
* `beBytes`, `beValue`: the same, highest first;
* `Reader`, `Reader.take`, `Reader.uint`: readers, which refuse bytes with an error;
* `Codec read write ok`: on the values that satisfy `ok`, `read` takes back what
  `write` wrote, and it accepts nothing else;
* `Codec.bind`, `Codec.pure`, `Codec.ensure`, `Codec.times`: the codec of a record
  field by field, of a checked value, and of a counted sequence.
-/

namespace WebTos.Lib

open List

universe u

/-! ### Little-endian integers -/

/-- The `k` low bytes of `n`, lowest first. -/
def leBytes : ℕ → ℕ → List UInt8
  | 0, _ => []
  | k + 1, n => UInt8.ofNat n :: leBytes k (n / 256)

/-- The integer the bytes write, lowest first. -/
def leValue : List UInt8 → ℕ
  | [] => 0
  | b :: bs => b.toNat + 256 * leValue bs

@[simp] lemma length_leBytes (k n : ℕ) : (leBytes k n).length = k := by
  induction k generalizing n with
  | zero => rfl
  | succ k ih => rw [leBytes, length_cons, ih]

lemma leValue_lt (bs : List UInt8) : leValue bs < 256 ^ bs.length := by
  induction bs with
  | nil => simp [leValue]
  | cons b bs ih =>
    have hb : b.toNat < 256 := b.toNat_lt
    rw [leValue, length_cons, pow_succ]
    omega

/-- An integer that fits is read back. -/
lemma leValue_leBytes {k n : ℕ} (h : n < 256 ^ k) : leValue (leBytes k n) = n := by
  induction k generalizing n with
  | zero =>
    rw [pow_zero] at h
    rw [leBytes, leValue]
    omega
  | succ k ih =>
    have hdiv : n / 256 < 256 ^ k := by
      rw [pow_succ] at h
      omega
    have hlow : (UInt8.ofNat n).toNat = n % 256 := by simp
    rw [leBytes, leValue, ih hdiv, hlow]
    omega

/-- Bytes are written back. -/
lemma leBytes_leValue (bs : List UInt8) : leBytes bs.length (leValue bs) = bs := by
  induction bs with
  | nil => rfl
  | cons b bs ih =>
    have hb : b.toNat < 256 := b.toNat_lt
    have hdiv : (b.toNat + 256 * leValue bs) / 256 = leValue bs := by omega
    have hlow : UInt8.ofNat (b.toNat + 256 * leValue bs) = b := by
      apply UInt8.toNat_inj.mp
      rw [UInt8.toNat_ofNat']
      omega
    rw [leValue, length_cons, leBytes, hdiv, ih, hlow]

/-! ### Big-endian integers -/

/-- The `k` low bytes of `n`, highest first. -/
def beBytes (k n : ℕ) : List UInt8 := (leBytes k n).reverse

/-- The integer the bytes write, highest first. -/
def beValue (bs : List UInt8) : ℕ := leValue bs.reverse

@[simp] lemma length_beBytes (k n : ℕ) : (beBytes k n).length = k := by
  rw [beBytes, length_reverse, length_leBytes]

/-- An integer that fits is read back. -/
lemma beValue_beBytes {k n : ℕ} (h : n < 256 ^ k) : beValue (beBytes k n) = n := by
  rw [beValue, beBytes, reverse_reverse, leValue_leBytes h]

/-! ### Readers -/

/-- A reader: takes a value from the front of the bytes, or refuses them. -/
abbrev Reader (ε α : Type) : Type := StateT (List UInt8) (Except ε) α

namespace Reader

variable {ε α β : Type}

/-- The next `n` bytes; `short` refuses bytes that end before. -/
def take (short : ε) (n : ℕ) : Reader ε (List UInt8) := fun bytes =>
  if bytes.length < n then .error short else .ok (bytes.take n, bytes.drop n)

/-- An integer of `k` bytes. -/
def uint (short : ε) (k : ℕ) : Reader ε ℕ := do
  let bytes ← take short k
  return leValue bytes

/-- Refuses the bytes. -/
def fail (e : ε) : Reader ε α := fun _ => .error e

/-- Goes on only if the condition holds. -/
def ensure (p : Prop) [Decidable p] (e : ε) : Reader ε Unit := if p then pure () else fail e

/-- The reader, `n` times. -/
def times (read : Reader ε α) : ℕ → Reader ε (List α)
  | 0 => pure []
  | n + 1 => do
      let a ← read
      let as ← times read n
      return a :: as

lemma bind_apply (x : Reader ε α) (f : α → Reader ε β) (s : List UInt8) :
    (x >>= f) s = match x s with
      | .error e => .error e
      | .ok (a, rest) => f a rest := by
  change (x s >>= fun p => f p.1 p.2) = _
  rcases x s with _ | ⟨a, rest⟩ <;> rfl

/-- What a sequence of two readers accepts. -/
lemma bind_ok {x : Reader ε α} {f : α → Reader ε β} {s rest : List UInt8} {b : β}
    (h : (x >>= f) s = .ok (b, rest)) :
    ∃ a s', x s = .ok (a, s') ∧ f a s' = .ok (b, rest) := by
  rw [bind_apply] at h
  rcases hx : x s with _ | ⟨a, s'⟩
  · rw [hx] at h
    cases h
  · rw [hx] at h
    exact ⟨a, s', rfl, h⟩

end Reader

/-! ### Readers and writers that belong together -/

/-- On the values that satisfy `ok` the reader takes back what was written, whatever
follows, and what it accepts was written from such a value. -/
structure Codec {ε α : Type} (read : Reader ε α) (write : α → List UInt8) (ok : α → Prop) :
    Prop where
  reads : ∀ {a}, ok a → ∀ rest, read (write a ++ rest) = .ok (a, rest)
  writes : ∀ {s a rest}, read s = .ok (a, rest) → ok a ∧ s = write a ++ rest

namespace Codec

variable {ε α β : Type}

variable {write : α → List UInt8} {ok : α → Prop}

/-- The same codec, with its writer and its condition put in another way. -/
lemma congr {read : Reader ε α} {write' : α → List UInt8} {ok' : α → Prop}
    (h : Codec read write ok) (hok : ∀ a, ok' a ↔ ok a) (hwrite : ∀ a, ok a → write' a = write a) :
    Codec read write' ok' where
  reads := fun ha rest => by
    have ha' := (hok _).mp ha
    rw [hwrite _ ha']
    exact h.reads ha' rest
  writes := fun hs => by
    obtain ⟨ha, rfl⟩ := h.writes hs
    exact ⟨(hok _).mpr ha, by rw [hwrite _ ha]⟩

/-- A fixed value, written as nothing. -/
lemma pure (b : β) : Codec (Pure.pure b : Reader ε β) (fun _ => []) (· = b) where
  reads := fun h rest => by
    rw [h]
    rfl
  writes := fun h => by
    cases h
    exact ⟨rfl, rfl⟩

/-- **One reader after another.**  `g` gives back the first value from the last one. -/
lemma bind {x : Reader ε α} {f : α → Reader ε β}
    {write' : α → β → List UInt8} {ok' : α → β → Prop} (hx : Codec x write ok) (g : β → α)
    (hf : ∀ a, ok a → Codec (f a) (write' a) (ok' a))
    (hg : ∀ {a b}, ok a → ok' a b → g b = a) :
    Codec (x >>= f) (fun b => write (g b) ++ write' (g b) b)
      (fun b => ok (g b) ∧ ok' (g b) b) where
  reads := fun {b} hb rest => by
    rw [Reader.bind_apply, append_assoc, hx.reads hb.1]
    exact (hf _ hb.1).reads hb.2 rest
  writes := fun {s b rest} hs => by
    obtain ⟨a, s', hxs, hfs⟩ := Reader.bind_ok hs
    obtain ⟨ha, rfl⟩ := hx.writes hxs
    obtain ⟨hb, rfl⟩ := (hf a ha).writes hfs
    obtain rfl := hg ha hb
    exact ⟨⟨ha, hb⟩, by rw [append_assoc]⟩

/-- A check between two readers writes nothing. -/
lemma ensure {p : Prop} [Decidable p] {e : ε} {x : Reader ε α}
    (hx : p → Codec x write ok) :
    Codec (Reader.ensure p e >>= fun _ => x) write (fun a => p ∧ ok a) where
  reads := fun {a} ha rest => by
    rw [Reader.bind_apply, Reader.ensure, if_pos ha.1]
    exact (hx ha.1).reads ha.2 rest
  writes := fun {s a rest} hs => by
    obtain ⟨u, s', hensure, hxs⟩ := Reader.bind_ok hs
    rw [Reader.ensure] at hensure
    split_ifs at hensure with hp
    · cases hensure
      obtain ⟨ha, rfl⟩ := (hx hp).writes hxs
      exact ⟨⟨hp, ha⟩, rfl⟩
    · cases hensure

/-- A reader that refuses everything writes nothing. -/
lemma fail (e : ε) (write : α → List UInt8) :
    Codec (Reader.fail e : Reader ε α) write (fun _ => False) where
  reads := fun h => h.elim
  writes := fun h => by cases h

lemma take (short : ε) (n : ℕ) : Codec (Reader.take short n) id (fun b => b.length = n) where
  reads := fun {b} hb rest => by
    have hlen : ¬ (b ++ rest).length < n := by
      rw [length_append]
      omega
    rw [Reader.take, id, if_neg hlen, take_left' hb, drop_left' hb]
  writes := fun {s b rest} hs => by
    rw [Reader.take] at hs
    split_ifs at hs with hlen
    cases hs
    refine ⟨?_, (take_append_drop n s).symm⟩
    rw [length_take]
    omega

lemma uint (short : ε) (k : ℕ) :
    Codec (Reader.uint short k) (leBytes k) (fun n => n < 256 ^ k) where
  reads := fun {n} hn rest => by
    rw [Reader.uint, Reader.bind_apply]
    have hread := (take short k).reads (length_leBytes k n) rest
    rw [id] at hread
    rw [hread]
    simp only [leValue_leBytes hn]
    rfl
  writes := fun {s n rest} hs => by
    obtain ⟨b, s', htake, hpure⟩ := Reader.bind_ok hs
    obtain ⟨rfl, rfl⟩ := (take short k).writes htake
    cases hpure
    exact ⟨leValue_lt b, by rw [leBytes_leValue]; rfl⟩

/-- A sequence of given length. -/
lemma times {read : Reader ε α}
    (h : Codec read write ok) (n : ℕ) :
    Codec (Reader.times read n) (fun as => as.flatMap write)
      (fun as => as.length = n ∧ ∀ a ∈ as, ok a) := by
  induction n with
  | zero =>
    refine (Codec.pure []).congr (fun as => ?_) fun as has => by simp [has]
    constructor
    · exact fun has => length_eq_zero_iff.mp has.1
    · rintro rfl
      simp
  | succ n ih =>
    refine ⟨fun {as} has rest => ?_, fun {s as rest} hs => ?_⟩
    · rcases as with _ | ⟨a, as⟩
      · simp at has
      obtain ⟨hlen, hall⟩ := has
      have hrest := ih.reads (a := as) ⟨by simpa using hlen,
        fun b hb => hall b (mem_cons_of_mem _ hb)⟩ rest
      rw [Reader.times, Reader.bind_apply, flatMap_cons, append_assoc,
        h.reads (hall a mem_cons_self)]
      simp only
      rw [Reader.bind_apply, hrest]
      rfl
    -- reading gave a first one and the rest, which were each written
    obtain ⟨a, s₁, ha, hs₁⟩ := Reader.bind_ok hs
    obtain ⟨as', s₂, has, hpure⟩ := Reader.bind_ok hs₁
    obtain ⟨hok, rfl⟩ := h.writes ha
    obtain ⟨⟨hlen, hall⟩, rfl⟩ := ih.writes has
    clear hs hs₁ has ha
    cases hpure
    refine ⟨⟨by simp [hlen], fun b hb => ?_⟩, by rw [flatMap_cons, append_assoc]⟩
    rcases mem_cons.mp hb with rfl | hb
    · exact hok
    · exact hall b hb

end Codec

end WebTos.Lib
