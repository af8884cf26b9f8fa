import WebTos.Lib.Spelling
import WebTos.Vfs.Codec
import WebTos.Vfs.Snapshot

/-!
The text of a chunk manifest (`chunk_manifest.rs`): one line for each path of an
immutable image.  The image's identity is the digest of the bytes, so a value must have
one spelling.

* `parse`: the parser, with its errors;
* `render`: the spelling of a list of entries;
* `parseOctal_spelled`, `decodeHex_spelled`, `parseFnv_spelled`: each field has one spelling;
* `parseLine_ok`, `parse_ok`: what parses is the spelling of its entries;
* `parse_canonical`: `parse` is injective on what it accepts, and what it accepts is
  strictly sorted, names parents, and has a hash for each chunk.
-/

namespace WebTos.ChunkText

open Lib Vfs List Option

/-- What a chunk manifest says of a path (`EntryKind`). -/
inductive EntryKind where
  | dir
  | symlink (target : Bytes)
  | file (file : ChunkedFile) (legacyFnv : ℕ)

/-- A path of an image (`Entry` of `chunk_manifest.rs`). -/
structure Entry where
  path : Bytes
  mode : ℕ
  mtimeSec : ℤ
  kind : EntryKind

/-- The authority for a chunk-backed image (`ChunkManifest`): its digest, and its entries. -/
structure ChunkManifest where
  root : Hash
  entries : List Entry

/-- `HEADER`. -/
def HEADER : Bytes := ascii "webtos-chunk-manifest 1"

def newline : UInt8 := 10

def space : UInt8 := 32

def comma : UInt8 := 44

/-! ### Numbers -/

/-- `char::to_digit`. -/
def digitValue (radix : ℕ) (c : UInt8) : Option ℕ :=
  let value :=
    if 48 ≤ c ∧ c ≤ 57 then some (c.toNat - 48)
    else if 97 ≤ c ∧ c ≤ 122 then some (c.toNat - 97 + 10)
    else if 65 ≤ c ∧ c ≤ 90 then some (c.toNat - 65 + 10)
    else none
  value.filter (· < radix)

/-- The digits of a number, and that there are some. -/
def parseDigits (radix : ℕ) (text : Bytes) : Option ℕ :=
  if text.isEmpty then none else (text.mapM (digitValue radix)).map (numeral radix)

/-- `from_str_radix` of an unsigned type with values below `bound`. -/
def fromStrRadix (radix bound : ℕ) (text : Bytes) : Option ℕ :=
  (parseDigits radix (if text.head? = some 43 then text.tail else text)).filter (· < bound)

/-- `str::parse::<i64>`. -/
def parseI64 (text : Bytes) : Option ℤ :=
  if text.head? = some 45 then
    ((parseDigits 10 text.tail).filter (· ≤ 2 ^ 63)).map fun n => -(n : ℤ)
  else (fromStrRadix 10 (2 ^ 63) text).map fun n => (n : ℤ)

/-- The digits of a number as `format!` writes them. -/
def formatRadix (radix n : ℕ) : Bytes := (Nat.toDigits radix n).map fun c => c.toNat.toUInt8

/-- `i64::to_string`. -/
def formatI64 (n : ℤ) : Bytes :=
  if n < 0 then 45 :: formatRadix 10 n.natAbs else formatRadix 10 n.natAbs

/-- `parse_octal`. -/
def parseOctal (text : Bytes) (line : ℕ) (name : String) : Except String ℕ :=
  match fromStrRadix 8 (2 ^ 32) text with
  | none => .error s!"chunk manifest line {line} has an invalid {name}"
  | some value => do
      ensure (value ≤ 0o7777) s!"chunk manifest line {line} has an invalid {name}"
      ensure (formatRadix 8 value = text) s!"chunk manifest line {line} has a noncanonical {name}"
      pure value

/-! ### Hexadecimal -/

/-- A digit of `decode_hex`. -/
def hexDigit (c : UInt8) : Option UInt8 :=
  if 48 ≤ c ∧ c ≤ 57 then some (c - 48)
  else if 97 ≤ c ∧ c ≤ 102 then some (c - 97 + 10)
  else none

/-- The pairs of `decode_hex`. -/
def decodePairs : Bytes → Except String Bytes
  | hi :: lo :: rest =>
    match hexDigit hi, hexDigit lo with
    | some h, some l => do
        let bytes ← decodePairs rest
        pure ((h <<< 4 ||| l) :: bytes)
    | _, _ => .error "hex must be lowercase"
  | _ => .ok []

/-- `decode_hex`. -/
def decodeHex (text : Bytes) : Except String Bytes := do
  ensure (text.length % 2 = 0) "hex has odd length"
  decodePairs text

/-- The error of a field behind the line's number. -/
def within {α : Type} (line : ℕ) (what : String) (x : Except String α) : Except String α :=
  x.mapError fun why => s!"chunk manifest line {line} {what}: {why}"

/-! ### Lines -/

/-- `field`. -/
def field (line : ℕ) (fields : List Bytes) (i : ℕ) : Except String Bytes :=
  match fields[i]? with
  | some text => .ok text
  | none => .error s!"chunk manifest line {line} is truncated"

/-- The modification time. -/
def parseMtime (line : ℕ) (text : Bytes) : Except String ℤ :=
  match parseI64 text with
  | none => .error s!"chunk manifest line {line} has an invalid mtime"
  | some mtime => do
      ensure (formatI64 mtime = text) s!"chunk manifest line {line} mtime is not canonical"
      pure mtime

/-- One byte of `escape_ascii`. -/
def escapeByte (b : UInt8) : String :=
  if b = 9 then "\\t" else if b = 13 then "\\r" else if b = 10 then "\\n"
  else if b = 39 then "\\'" else if b = 34 then "\\\"" else if b = 92 then "\\\\"
  else if 32 ≤ b ∧ b ≤ 126 then String.singleton (Char.ofNat b.toNat)
  else "\\x" ++ String.ofList ((fixed 16 2 b.toNat).map Nat.digitChar)

/-- `escape_ascii`. -/
def escapeAscii (bytes : Bytes) : String := String.join (bytes.map escapeByte)

/-- Some byte of the path is followed by the same byte. -/
def hasDouble (b : UInt8) : Bytes → Bool
  | x :: y :: rest => (x = b && y = b) || hasDouble b (y :: rest)
  | _ => false

/-- `noncanonical`. -/
def noncanonical (path : Bytes) : Bool :=
  (1 < path.length && path.getLast? = some slash) || hasDouble slash path ||
    (path.splitOn slash).any fun part => part = dot || part = dotdot

/-- The path of a line, after the paths of the lines before it. -/
def parsePath (line : ℕ) (previous : Option Bytes) (paths : List Bytes) (text : Bytes) :
    Except String Bytes := do
  let path ← within line "path" (decodeHex text)
  ensure (path.head? = some slash ∧ 0 ∉ path)
    s!"chunk manifest line {line} path must be absolute and NUL-free"
  ensure (noncanonical path = false) s!"chunk manifest line {line} path is not canonical"
  ensure (previous.all fun before => before < path)
    s!"chunk manifest line {line} paths are not strictly sorted"
  let shown := escapeAscii path
  ensure (path ∉ paths) s!"chunk manifest line {line} names {shown} twice"
  pure path

/-- `legacy_fnv`: sixteen lowercase digits. -/
def parseFnv (line : ℕ) (text : Bytes) : Except String ℕ :=
  match fromStrRadix 16 (2 ^ 64) text with
  | none => .error s!"chunk manifest line {line} has an invalid legacy FNV"
  | some fnv => do
      ensure (text.length = 16) s!"chunk manifest line {line} legacy FNV must be 16 hex digits"
      ensure (∀ c ∈ text, (hexDigit c).isSome = true)
        s!"chunk manifest line {line} legacy FNV must be lowercase hex"
      pure fnv

/-- One chunk hash. -/
def parseHash (line : ℕ) (text : Bytes) : Except String Hash := do
  let raw ← within line "hash" (decodeHex text)
  ensure (raw.length = 32) s!"chunk manifest line {line} chunk hash is not SHA-256"
  pure raw

/-- The chunk hashes, with commas between them. -/
def parseHashes (line : ℕ) (text : Bytes) : Except String (List Hash) :=
  if text.isEmpty then .ok [] else (text.splitOn comma).mapM (parseHash line)

/-- The fields of a file. -/
def parseFile (line : ℕ) (sizeText chunkSizeText fnvText hashText : Bytes) :
    Except String EntryKind :=
  match fromStrRadix 10 (2 ^ 64) sizeText with
  | none => .error s!"chunk manifest line {line} has an invalid size"
  | some size =>
    match fromStrRadix 10 (2 ^ 32) chunkSizeText with
    | none => .error s!"chunk manifest line {line} has an invalid chunk size"
    | some chunkSize => do
        ensure (formatRadix 10 size = sizeText ∧ formatRadix 10 chunkSize = chunkSizeText)
          s!"chunk manifest line {line} file layout is not canonical"
        let fnv ← parseFnv line fnvText
        let hashes ← parseHashes line hashText
        let file ← ChunkedFile.new size chunkSize hashes
        pure (.file file fnv)

/-- The target of a symbolic link. -/
def parseTarget (line : ℕ) (text : Bytes) : Except String EntryKind := do
  let target ← within line "target" (decodeHex text)
  ensure (target ≠ [] ∧ 0 ∉ target)
    s!"chunk manifest line {line} symlink target is empty or contains NUL"
  pure (.symlink target)

/-- The kind of an entry, by its tag and the number of its fields. -/
def parseKind (line : ℕ) (tag : Bytes) (fields : List Bytes) : Except String EntryKind :=
  let unknown := .error s!"chunk manifest line {line} has an unknown tag or field count"
  match fields with
  | [_, _, _, _] => if tag = ascii "d" then .ok .dir else unknown
  | [_, _, _, _, target] => if tag = ascii "l" then parseTarget line target else unknown
  | [_, _, _, _, size, chunkSize, fnv, hashes] =>
    if tag = ascii "f" then parseFile line size chunkSize fnv hashes else unknown
  | _ => unknown

/-- A line, after the paths of the lines before it. -/
def parseLine (line : ℕ) (previous : Option Bytes) (paths : List Bytes) (text : Bytes) :
    Except String Entry := do
  ensure (text ≠ []) s!"chunk manifest line {line} is unexpectedly empty"
  ensure (utf8Valid text = true) s!"chunk manifest line {line} is not UTF-8"
  let fields := text.splitOn space
  let tag ← field line fields 0
  let mode ← parseOctal (← field line fields 1) line "mode"
  let mtimeSec ← parseMtime line (← field line fields 2)
  let path ← parsePath line previous paths (← field line fields 3)
  let kind ← parseKind line tag fields
  pure ⟨path, mode, mtimeSec, kind⟩

/-- The loop over the lines: `previous` is the path of the line before, and `paths` has
all of them. -/
def parseLines : ℕ → Option Bytes → List Bytes → List Bytes → Except String (List Entry)
  | _, _, _, [] => .ok []
  | line, previous, paths, text :: rest => do
      let entry ← parseLine line previous paths text
      let entries ← parseLines (line + 1) (some entry.path) (entry.path :: paths) rest
      pure (entry :: entries)

/-! ### The manifest -/

/-- The path of the directory an entry is in. -/
def parentOf (path : Bytes) : Bytes :=
  if (parentPath path).isEmpty then [slash] else parentPath path

/-- The paths of the directories. -/
def directories (entries : List Entry) : List Bytes :=
  entries.filterMap fun entry =>
    match entry.kind with
    | .dir => some entry.path
    | _ => none

/-- The check of one entry's parent. -/
def checkParent (named : List Bytes) (path : Bytes) : Except String Unit :=
  let parent := escapeAscii (parentOf path)
  let shown := escapeAscii path
  ensure (path = [slash] ∨ parentOf path = [slash] ∨ parentOf path ∈ named)
    s!"chunk manifest does not name parent directory {parent} for {shown}"

/-- `ChunkManifest::parse`. -/
def parse (sha256 : Bytes → Hash) (bytes : Bytes) : Except String ChunkManifest := do
  ensure (bytes.getLast? = some newline) "chunk manifest must end with a newline"
  let lines := bytes.dropLast.splitOn newline
  ensure (lines.head? = some HEADER) "chunk manifest must start with 'webtos-chunk-manifest 1'"
  let entries ← parseLines 2 none [] lines.tail
  ensure (entries ≠ []) "chunk manifest names nothing"
  entries.forM fun entry => checkParent (directories entries) entry.path
  pure ⟨sha256 bytes, entries⟩

/-! ### The spelling of a manifest -/

/-- The lowercase digit of a value. -/
def hexChar (d : ℕ) : UInt8 := if d < 10 then (48 + d).toUInt8 else (87 + d).toUInt8

/-- The spelling of bytes. -/
def encodeHex (bytes : Bytes) : Bytes :=
  bytes.flatMap fun b => [hexChar (b.toNat / 16), hexChar (b.toNat % 16)]

/-- The spelling of a legacy FNV. -/
def encodeFnv (fnv : ℕ) : Bytes := (fixed 16 16 fnv).map hexChar

/-- The spelling of the hashes. -/
def encodeHashes (hashes : List Hash) : Bytes := [comma].intercalate (hashes.map encodeHex)

/-- The tag of a kind. -/
def EntryKind.tag : EntryKind → Bytes
  | .dir => ascii "d"
  | .symlink _ => ascii "l"
  | .file _ _ => ascii "f"

/-- The fields of a kind, behind the first four. -/
def EntryKind.fields : EntryKind → List Bytes
  | .dir => []
  | .symlink target => [encodeHex target]
  | .file layout fnv =>
    [formatRadix 10 layout.size, formatRadix 10 layout.chunkSize, encodeFnv fnv,
      encodeHashes layout.chunks]

/-- The line of an entry. -/
def renderLine (e : Entry) : Bytes :=
  [space].intercalate
    (e.kind.tag :: formatRadix 8 e.mode :: formatI64 e.mtimeSec :: encodeHex e.path ::
      e.kind.fields)

/-- The bytes of a manifest. -/
def render (entries : List Entry) : Bytes :=
  [newline].intercalate (HEADER :: entries.map renderLine) ++ [newline]

/-! ### Digits -/

/-- What holds of the 256 bytes. -/
lemma forall_byte {P : UInt8 → Prop} (h : ∀ n < 256, P n.toUInt8) (c : UInt8) : P c := by
  have hc := h c.toNat c.toNat_lt
  rwa [show c.toNat.toUInt8 = c from UInt8.ofNat_toNat] at hc

/-- A digit is read back from the character it is written as. -/
lemma hexDigit_spec {c d : UInt8} (h : hexDigit c = some d) :
    d.toNat < 16 ∧ hexChar d.toNat = c := by
  have hall : ∀ n < 256, ((hexDigit n.toUInt8).all fun d =>
      d.toNat < 16 ∧ hexChar d.toNat = n.toUInt8) = true := by
    decide +kernel
  have hc := forall_byte (P := fun c => ((hexDigit c).all fun d =>
    d.toNat < 16 ∧ hexChar d.toNat = c) = true) hall c
  rwa [h, all_some, decide_eq_true_eq] at hc

lemma toNat_pair {h l : UInt8} (hh : h.toNat < 16) (hl : l.toNat < 16) :
    (h <<< 4 ||| l).toNat = h.toNat * 16 + l.toNat := by
  have hall : ∀ a < 16, ∀ b < 16,
      ((a.toUInt8 <<< (4 : UInt8)) ||| b.toUInt8 : UInt8).toNat = a * 16 + b := by
    decide +kernel
  have hpair := hall h.toNat hh l.toNat hl
  rwa [show h.toNat.toUInt8 = h from UInt8.ofNat_toNat,
    show l.toNat.toUInt8 = l from UInt8.ofNat_toNat] at hpair

/-- A lowercase digit means the same to both parsers. -/
lemma hexChar_digitValue {c : UInt8} {d : ℕ} (hc : (hexDigit c).isSome)
    (h : digitValue 16 c = some d) : d < 16 ∧ hexChar d = c := by
  have hall : ∀ n < 256, (hexDigit n.toUInt8).isSome → ((digitValue 16 n.toUInt8).all fun d =>
      d < 16 ∧ hexChar d = n.toUInt8) = true := by
    decide +kernel
  have hc' := forall_byte
    (P := fun c => (hexDigit c).isSome = true → ((digitValue 16 c).all fun d =>
    d < 16 ∧ hexChar d = c) = true) hall c hc
  rwa [h, all_some, decide_eq_true_eq] at hc'

/-! ### Fields -/

variable {line : ℕ} {fields : List Bytes} {text : Bytes}

lemma within_ok {α : Type} {what : String} {x : Except String α} {a : α} :
    within line what x = .ok a ↔ x = .ok a := by
  cases x with
  | error e => exact ⟨fun h => (by cases h), fun h => (by cases h)⟩
  | ok b => exact Iff.rfl

lemma field_ok {i : ℕ} :
    field line fields i = .ok text ↔ fields[i]? = some text := by
  rw [field]
  cases fields[i]? with
  | none => exact ⟨fun h => (by cases h), fun h => (by cases h)⟩
  | some t => exact ⟨fun h => (by cases h; rfl), fun h => (by cases h; rfl)⟩

variable (line)

/-- The check against the spelling is what rules out leading zeros. -/
lemma parseOctal_spelled (name : String) :
    Spelled (fun text => parseOctal text line name) (formatRadix 8) := by
  intro text value h
  dsimp only [parseOctal] at h
  split at h
  · cases h
  simp only [bind_ok, ensure_ok, pure_ok] at h
  obtain ⟨-, -, -, htext, rfl⟩ := h
  exact htext

lemma parseMtime_spelled : Spelled (parseMtime line) formatI64 := by
  intro text value h
  rw [parseMtime] at h
  split at h
  · cases h
  simp only [bind_ok, ensure_ok, pure_ok] at h
  obtain ⟨-, htext, rfl⟩ := h
  exact htext

/-- Two digits at a time; an odd one at the end was refused before. -/
lemma decodePairs_spelled : ∀ {text bytes : Bytes}, text.length % 2 = 0 →
    decodePairs text = .ok bytes → encodeHex bytes = text
  | [], bytes, _, h => by
      cases h
      rfl
  | [_], _, heven, _ => by cases heven
  | hi :: lo :: rest, bytes, heven, h => by
      rw [decodePairs] at h
      split at h
      · next d e hd he =>
          obtain ⟨tail, htail, hbytes⟩ := bind_ok.mp h
          obtain rfl := pure_ok.mp hbytes
          obtain ⟨hd₁, hd₂⟩ := hexDigit_spec hd
          obtain ⟨he₁, he₂⟩ := hexDigit_spec he
          have hrest : encodeHex tail = rest :=
            decodePairs_spelled (by rw [length_cons, length_cons] at heven; omega) htail
          have hhi : (d.toNat * 16 + e.toNat) / 16 = d.toNat := by omega
          have hlo : (d.toNat * 16 + e.toNat) % 16 = e.toNat := by omega
          rw [encodeHex, flatMap_cons, toNat_pair hd₁ he₁, hhi, hlo, hd₂, he₂, ← encodeHex, hrest]
          rfl
      · cases h

lemma decodeHex_spelled : Spelled decodeHex encodeHex := by
  intro text bytes h
  rw [decodeHex, bind_ok] at h
  obtain ⟨_, heven, h⟩ := h
  exact decodePairs_spelled (ensure_ok.mp heven) h

lemma parseDigits_some {radix v : ℕ} (h : parseDigits radix text = some v) :
    ∃ ds, text.mapM (digitValue radix) = some ds ∧ numeral radix ds = v := by
  rw [parseDigits] at h
  split_ifs at h
  exact map_eq_some_iff.mp h

/-- Digits read one by one, spelled again. -/
lemma mapM_digitValue : ∀ {text : Bytes} {ds : List ℕ}, (∀ c ∈ text, (hexDigit c).isSome) →
    text.mapM (digitValue 16) = some ds → (∀ d ∈ ds, d < 16) ∧ ds.map hexChar = text
  | [], ds, _, h => by
      rw [mapM_nil] at h
      cases h
      exact ⟨by simp, rfl⟩
  | c :: text, ds, hlower, h => by
      rw [mapM_cons] at h
      obtain ⟨d, hd, h⟩ := bind_eq_some_iff.mp h
      obtain ⟨ds', hds', h⟩ := bind_eq_some_iff.mp h
      cases h
      obtain ⟨hlt, hchar⟩ := hexChar_digitValue (hlower c mem_cons_self) hd
      obtain ⟨hall, hmap⟩ := mapM_digitValue (fun c' hc' => hlower c' (mem_cons_of_mem _ hc')) hds'
      exact ⟨forall_mem_cons.mpr ⟨hlt, hall⟩, by rw [map_cons, hchar, hmap]⟩

/-- Sixteen lowercase digits spell their value. -/
lemma parseFnv_spelled : Spelled (parseFnv line) encodeFnv := by
  intro text fnv h
  rw [parseFnv] at h
  split at h
  · cases h
  · next v hv =>
      simp only [bind_ok, ensure_ok, pure_ok] at h
      obtain ⟨-, hlen, -, hlower, rfl⟩ := h
      -- a sign is not a lowercase digit
      have hsign : text.head? ≠ some 43 := by
        intro hhead
        have := hlower 43 (List.mem_of_mem_head? hhead)
        cases this
      rw [fromStrRadix, if_neg hsign, filter_eq_some_iff] at hv
      obtain ⟨ds, hds, rfl⟩ := parseDigits_some hv.1
      obtain ⟨hlt, hmap⟩ := mapM_digitValue hlower hds
      have hlength : ds.length = 16 := by rw [← hlen, ← hmap, length_map]
      have hfixed := fixed_numeral hlt
      rw [hlength] at hfixed
      rw [encodeFnv, hfixed, hmap]

lemma parseHash_spelled : Spelled (parseHash line) encodeHex := by
  intro text hash h
  simp only [parseHash, bind_ok, within_ok, ensure_ok, pure_ok] at h
  obtain ⟨raw, hraw, -, -, rfl⟩ := h
  exact decodeHex_spelled text raw hraw

lemma parseHashes_spelled : Spelled (parseHashes line) encodeHashes := by
  intro text hashes h
  rw [parseHashes] at h
  split_ifs at h with hempty
  · cases h
    exact (List.isEmpty_iff.mp hempty).symm
  · exact (parseHash_spelled line).joined comma text hashes h

variable {line}

/-- The fields of a file are the spelling of its layout, with a hash for each chunk. -/
lemma parseFile_ok {size chunkSize fnv hashes : Bytes} {kind : EntryKind}
    (h : parseFile line size chunkSize fnv hashes = .ok kind) :
    kind.tag = ascii "f" ∧ kind.fields = [size, chunkSize, fnv, hashes] ∧
      ∀ layout v, kind = .file layout v →
        layout.chunks.length = layout.size ⌈/⌉ layout.chunkSize := by
  rw [parseFile] at h
  split at h
  · cases h
  split at h
  · cases h
  simp only [bind_ok, ensure_ok, pure_ok] at h
  obtain ⟨-, ⟨hsize, hchunk⟩, v, hfnv, hs, hhashes, layout, hlayout, rfl⟩ := h
  obtain ⟨rfl, -, hlen⟩ := ChunkedFile.new_ok hlayout
  refine ⟨rfl, ?_, fun layout v hkind => ?_⟩
  · rw [EntryKind.fields, hsize, hchunk, parseFnv_spelled line _ _ hfnv,
      parseHashes_spelled line _ _ hhashes]
  · cases hkind
    exact hlen

/-- What the tag and the fields behind the first four say. -/
lemma parseKind_ok {tag : Bytes} {kind : EntryKind}
    (h : parseKind line tag fields = .ok kind) :
    tag = kind.tag ∧ fields.drop 4 = kind.fields ∧ ∀ layout v, kind = .file layout v →
      layout.chunks.length = layout.size ⌈/⌉ layout.chunkSize := by
  unfold parseKind at h
  split at h
  · split_ifs at h with htag
    cases h
    exact ⟨htag, rfl, fun layout v hkind => by cases hkind⟩
  · split_ifs at h with htag
    simp only [parseTarget, bind_ok, within_ok, ensure_ok, pure_ok] at h
    obtain ⟨target, htarget, -, -, rfl⟩ := h
    refine ⟨htag, ?_, fun layout v hkind => by cases hkind⟩
    rw [EntryKind.fields, decodeHex_spelled _ _ htarget]
    rfl
  · split_ifs at h with htag
    obtain ⟨htag', hfields, hlen⟩ := parseFile_ok h
    exact ⟨htag.trans htag'.symm, hfields.symm, hlen⟩
  · cases h

/-! ### Lines and the manifest -/

/-- What a line's checks leave. -/
structure Entry.Ok (e : Entry) : Prop where
  absolute : e.path.head? = some slash
  canonical : noncanonical e.path = false
  hashes : ∀ layout fnv, e.kind = .file layout fnv →
    layout.chunks.length = layout.size ⌈/⌉ layout.chunkSize

/-- The first four fields. -/
lemma eq_cons_drop {a b c d : Bytes} (ha : fields[0]? = some a)
    (hb : fields[1]? = some b) (hc : fields[2]? = some c) (hd : fields[3]? = some d) :
    a :: b :: c :: d :: fields.drop 4 = fields := by
  rcases fields with _ | ⟨a', _ | ⟨b', _ | ⟨c', _ | ⟨d', rest⟩⟩⟩⟩ <;> simp_all

/-- What an accepted line says. -/
lemma parseLine_ok {previous : Option Bytes} {paths : List Bytes}
    {e : Entry} (h : parseLine line previous paths text = .ok e) :
    renderLine e = text ∧ e.Ok ∧ ∀ before ∈ previous, before < e.path := by
  simp only [parseLine, bind_ok, ensure_ok, field_ok, pure_ok] at h
  obtain ⟨-, -, -, -, tag, htag, modeText, hmode, mode, hoctal, mtimeText, hmtime, mtime, hread,
    pathText, hpath, path, hparse, kind, hkind, rfl⟩ := h
  simp only [parsePath, bind_ok, within_ok, ensure_ok, pure_ok] at hparse
  obtain ⟨path', hhex, -, ⟨habs, -⟩, -, hcanon, -, hsorted, -, -, rfl⟩ := hparse
  obtain ⟨rfl, hfields, hlen⟩ := parseKind_ok hkind
  refine ⟨?_, ⟨habs, hcanon, hlen⟩, ?_⟩
  · -- every field is the spelling of what was read from it
    have hspelled : kind.tag :: formatRadix 8 mode :: formatI64 mtime :: encodeHex path' ::
        kind.fields = text.splitOn space := by
      rw [parseOctal_spelled line "mode" _ _ hoctal, parseMtime_spelled line _ _ hread,
        decodeHex_spelled _ _ hhex, ← hfields]
      exact eq_cons_drop htag hmode hmtime hpath
    rw [renderLine, hspelled, intercalate_splitOn]
  intro before hbefore
  obtain rfl := mem_def.mp hbefore
  simpa using hsorted

/-- **The lines** spell the entries, which are sorted behind what came before. -/
lemma parseLines_ok : ∀ {texts : List Bytes} {line : ℕ} {previous : Option Bytes}
    {paths : List Bytes} {entries : List Entry},
    parseLines line previous paths texts = .ok entries →
      entries.map renderLine = texts ∧ (∀ e ∈ entries, e.Ok) ∧
      List.IsChain (· < ·) (previous.toList ++ entries.map Entry.path)
  | [], _, previous, _, entries, h => by
      cases h
      refine ⟨rfl, by simp, ?_⟩
      cases previous <;> simp
  | text :: texts, line, previous, paths, entries, h => by
      rw [parseLines, bind_ok] at h
      obtain ⟨e, he, h⟩ := h
      obtain ⟨rest, hrest, hpure⟩ := bind_ok.mp h
      obtain rfl := pure_ok.mp hpure
      obtain ⟨hline, hok, hbefore⟩ := parseLine_ok he
      obtain ⟨hlines, hoks, hchain⟩ := parseLines_ok hrest
      refine ⟨by rw [map_cons, hline, hlines], forall_mem_cons.mpr ⟨hok, hoks⟩, ?_⟩
      cases previous with
      | none => exact hchain
      | some before => exact List.IsChain.cons_cons (hbefore before rfl) hchain

/-- What a manifest's checks leave. -/
structure ChunkManifest.Ok (m : ChunkManifest) : Prop where
  entry : ∀ e ∈ m.entries, e.Ok
  sorted : (m.entries.map Entry.path).Pairwise (· < ·)
  parent : ∀ e ∈ m.entries, parentOf e.path ≠ [slash] → parentOf e.path ∈ directories m.entries

/-- What parses is the spelling of its entries, and has passed the checks. -/
lemma parse_ok {sha256 : Bytes → Hash} {bytes : Bytes} {m : ChunkManifest}
    (h : parse sha256 bytes = .ok m) :
    render m.entries = bytes ∧ m.root = sha256 bytes ∧ m.Ok := by
  simp only [parse, bind_ok, ensure_ok, forM_ok, pure_ok] at h
  obtain ⟨-, hlast, -, hhead, entries, hentries, -, -, -, hparents, rfl⟩ := h
  obtain ⟨hlines, hok, hchain⟩ := parseLines_ok hentries
  refine ⟨?_, rfl, hok, isChain_iff_pairwise.mp hchain, ?_⟩
  · -- the text is its lines again, with the newline at the end
    have hsplit : HEADER :: entries.map renderLine = bytes.dropLast.splitOn newline := by
      rw [hlines]
      exact List.cons_head?_tail hhead
    rw [render, hsplit, intercalate_splitOn]
    exact dropLast_append_getLast? newline hlast
  intro e he hne
  have hparent := hparents e he
  rw [checkParent, ensure_ok] at hparent
  rcases hparent with hroot | hparent | hnamed
  · refine absurd ?_ hne
    rw [hroot]
    decide
  · exact absurd hparent hne
  · exact hnamed

/-- **Manifests are canonical**: two texts that parse to the same entries are the same, and
the entries are strictly sorted by path, none twice, with the directory of each, and with a
hash for each chunk of a file. -/
theorem parse_canonical (sha256 : Bytes → Hash) :
    (∀ (b₁ b₂ : Bytes) (m₁ m₂ : ChunkManifest), parse sha256 b₁ = .ok m₁ →
      parse sha256 b₂ = .ok m₂ → m₁.entries = m₂.entries → b₁ = b₂) ∧
    ∀ (b : Bytes) (m : ChunkManifest), parse sha256 b = .ok m →
      (m.entries.map Entry.path).Pairwise (· < ·) ∧ (m.entries.map Entry.path).Nodup ∧
      (∀ e ∈ m.entries, parentOf e.path ≠ [slash] →
        ∃ d ∈ m.entries, d.path = parentOf e.path ∧ d.kind = .dir) ∧
      ∀ e ∈ m.entries, ∀ (layout : ChunkedFile) (fnv : ℕ), e.kind = .file layout fnv →
        layout.chunks.length = layout.size ⌈/⌉ layout.chunkSize := by
  refine ⟨fun b₁ b₂ m₁ m₂ h₁ h₂ heq => ?_, fun b m h => ?_⟩
  · calc b₁ = render m₁.entries := (parse_ok h₁).1.symm
      _ = render m₂.entries := by rw [heq]
      _ = b₂ := (parse_ok h₂).1
  obtain ⟨-, -, hok⟩ := parse_ok h
  refine ⟨hok.sorted, hok.sorted.imp fun hlt heq => ?_, fun e he hne => ?_,
    fun e he layout fnv hkind => ?_⟩
  · rw [heq] at hlt
    exact List.lt_irrefl _ hlt
  · obtain ⟨d, hd, hdir⟩ := mem_filterMap.mp (hok.parent e he hne)
    refine ⟨d, hd, ?_⟩
    split at hdir
    · next hkind => exact ⟨some.inj hdir, hkind⟩
    · cases hdir
  · exact (hok.entry e he).hashes layout fnv hkind

/-- The text of an image with one file of one chunk. -/
def sampleText : Bytes :=
  ascii "webtos-chunk-manifest 1\nd 755 0 2f62696e\nf 755 1 2f62696e2f78 1 4096 cbf29ce484222325 "
    ++ List.replicate 64 48 ++ [newline]

/-- The sample parses, and its two paths differ. -/
theorem parse_canonical_sample : ∃ m, parse (fun _ => []) sampleText = .ok m ∧
    m.entries.length = 2 ∧ (m.entries.map Entry.path).Nodup := by
  have hlength : ((parse (fun _ => []) sampleText).toOption.map fun m => m.entries.length)
      = some 2 := by
    decide +kernel
  cases hparse : parse (fun _ => []) sampleText with
  | error e =>
    rw [hparse] at hlength
    cases hlength
  | ok m =>
    rw [hparse] at hlength
    exact ⟨m, rfl, some.inj hlength, ((parse_canonical fun _ => []).2 _ m hparse).2.1⟩

end WebTos.ChunkText
