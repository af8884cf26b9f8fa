import WebTos.Files.Vault

/-!
What a guest can learn of a secret that is mounted for another principal.

A machine takes turns: its guest makes a call, or the host delivers a chunk the guest waits
for (`deliver_page`).  How the guest, the kernel outside file calls and the host choose is
arbitrary, but they do not see the handles.

* `World.turn`, `World.run`: the turns of a machine;
* `World.turn_alike`: machines whose handles show the selected principal the same stay so,
  unless the memory budget lets a chunk in beside one value and not beside the other;
* `World.run_hides`: the answers, the memory, the output and the exported filesystem do not
  depend on a hidden value then; `budget_shows_length` is a run in which they do.
-/

namespace WebTos.Files

open Fd

/-- `put_chunk`: a chunk of the right digest enters the store, within the storage budget. -/
def putChunk (sha256 : Bytes → Hash) (v : Vfs) (expected : Hash) (bytes : Bytes) : Option Vfs :=
  match if v.chunks.contains expected then .ok () else v.reserve bytes.length with
  | .error _ => none
  | .ok () =>
    if sha256 bytes ≠ expected then none
    else some { v with chunks := v.chunks.insertIfNew expected bytes }

/-- The environment without its handles. -/
def Env.blind (e : Env) : Env := { e with heap := e.blinded }

/-- What happens next on a machine: a call of the guest, or `deliver_page` for a chunk.
`current` says that the request the host answers is pending and not stale. -/
inductive Action where
  | call (call : Call)
  | deliverPage (hash : Hash) (bytes : Bytes) (current : Bool)

/-- What comes of it. -/
inductive Report where
  | answer (answer : Answer)
  | delivered (accepted : Bool)
  deriving DecidableEq, Repr

/-- A machine: its environment, the guest's memory with all the rest of its state, and
`memory_budget`. -/
structure Machine (M : Type) where
  env : Env
  mem : M
  memoryBudget : Option ℕ

/-- How the rest of the machine behaves: the guest program, the kernel outside file calls and
the host that delivers chunks.  It sees the environment, but not the handles. -/
structure World (M : Type) where
  sha256 : Bytes → Hash
  /-- The bytes of the guest's pages and of the lifted code. -/
  resident : M → ℕ
  next : M → Env → M × Action
  hear : M → Report → M

namespace World

variable {M : Type} (w : World M)

/-- `footprint().host_bytes`; a value has no capacity to spare. -/
def hostBytes (e : Env) : ℕ := (e.heap.hostSecretHandles.values.map fun s => s.value.length).sum

/-- `footprint().total_bytes`. -/
def footprint (m : Machine M) : ℕ := w.resident m.mem + m.env.heap.vfs.bytes + hostBytes m.env

/-- `check_budget` lets `adding` bytes in. -/
def checkBudget (m : Machine M) (adding : ℕ) : Bool :=
  m.memoryBudget.all fun budget => w.footprint m + adding ≤ budget

/-- `deliver_page`: the memory budget is checked first, unless the chunk is resident. -/
def deliverPage (m : Machine M) (hash : Hash) (bytes : Bytes) (current : Bool) : Bool × Env :=
  if !m.env.heap.vfs.chunks.contains hash && !w.checkBudget m bytes.length then (false, m.env)
  else if !current then (false, m.env)
  else
    match putChunk w.sha256 m.env.heap.vfs hash bytes with
    | none => (false, m.env)
    | some v => (true, m.env.setVfs v)

/-- The action is carried out. -/
def perform (m : Machine M) : Action → Report × Env
  | .call call => (.answer (call.exec m.env).1, (call.exec m.env).2)
  | .deliverPage hash bytes current =>
    (.delivered (w.deliverPage m hash bytes current).1, (w.deliverPage m hash bytes current).2)

/-- The next action of a machine, with the memory at that point. -/
def pending (m : Machine M) : M × Action := w.next m.mem m.env.blind

/-- One turn of a machine. -/
def turn (m : Machine M) : Report × Machine M :=
  let (mem, action) := w.pending m
  let (report, env) := w.perform { m with mem } action
  (report, { m with env, mem := w.hear mem report })

/-- So many turns, with what came of each. -/
def run : ℕ → Machine M → List Report × Machine M
  | 0, m => ([], m)
  | n + 1, m => ((w.turn m).1 :: (run n (w.turn m).2).1, (run n (w.turn m).2).2)

/-- A chunk the host is about to deliver fits the memory budget on both machines or on
neither. -/
def FitsAlike (a b : Machine M) : Prop :=
  ∀ hash bytes current, (w.pending a).2 = .deliverPage hash bytes current →
    a.env.heap.vfs.chunks.contains hash = false → ∀ budget ∈ a.memoryBudget,
      (w.footprint { a with mem := (w.pending a).1 } + bytes.length ≤ budget ↔
        w.footprint { b with mem := (w.pending b).1 } + bytes.length ≤ budget)

/-- That holds in each of so many turns. -/
def FitsAlong : ℕ → Machine M → Machine M → Prop
  | 0, _, _ => True
  | n + 1, a, b => w.FitsAlike a b ∧ FitsAlong n (w.turn a).2 (w.turn b).2

end World

/-- The machine with other handles. -/
def Machine.withVault {M : Type} (m : Machine M) (s : Vault) : Machine M :=
  { m with env := m.env.withVault s }

namespace World

variable {M : Type} {w : World M} {m : Machine M} {s : Vault}

lemma blind_withVault {e : Env} (hs : e.Hides s) : (e.withVault s).blind = e.blind := by
  change { e.blind with heap := { e.blinded with agentPrincipal := s.principal } } = e.blind
  rw [hs.principal]
  rfl

lemma pending_withVault (hs : m.env.Hides s) : w.pending (m.withVault s) = w.pending m :=
  congrArg (w.next m.mem) (blind_withVault hs)

/-- The budget decides alike when both footprints lie on the same side of it. -/
lemma checkBudget_withVault {adding : ℕ} (hfits : ∀ budget ∈ m.memoryBudget,
      (w.footprint m + adding ≤ budget ↔ w.footprint (m.withVault s) + adding ≤ budget)) :
    w.checkBudget (m.withVault s) adding = w.checkBudget m adding := by
  have hsame : (m.withVault s).memoryBudget = m.memoryBudget := rfl
  rw [checkBudget, checkBudget, hsame]
  cases hbudget : m.memoryBudget with
  | none => rfl
  | some budget => exact decide_eq_decide.mpr (hfits budget hbudget).symm

/-- A delivery that fits beside both values or beside neither. -/
lemma deliverPage_withVault {hash : Hash} {bytes : Bytes} (current : Bool)
    (hfits : m.env.heap.vfs.chunks.contains hash = false →
      w.checkBudget (m.withVault s) bytes.length = w.checkBudget m bytes.length) :
    w.deliverPage (m.withVault s) hash bytes current
      = Env.liftVault s (w.deliverPage m hash bytes current) := by
  have hvfs : (m.withVault s).env.heap.vfs = m.env.heap.vfs := rfl
  rw [deliverPage, deliverPage, hvfs]
  cases hresident : m.env.heap.vfs.chunks.contains hash with
  | true =>
    cases current with
    | true => cases putChunk w.sha256 m.env.heap.vfs hash bytes <;> rfl
    | false => rfl
  | false =>
    rw [hfits hresident]
    cases w.checkBudget m bytes.length with
    | false => rfl
    | true =>
      cases current with
      | true => cases putChunk w.sha256 m.env.heap.vfs hash bytes <;> rfl
      | false => rfl

lemma hides_deliverPage (hs : m.env.Hides s) (hash : Hash) (bytes : Bytes) (current : Bool) :
    (w.deliverPage m hash bytes current).2.Hides s := by
  rw [deliverPage]
  repeat' split
  all_goals exact hs

/-- **One turn** tells the two machines the same, and leaves them alike. -/
lemma turn_alike (hs : m.env.Hides s) (hfits : w.FitsAlike m (m.withVault s)) :
    (w.turn (m.withVault s)).1 = (w.turn m).1 ∧
      ∃ s', (w.turn m).2.env.Hides s' ∧ (w.turn (m.withVault s)).2 = (w.turn m).2.withVault s' := by
  rw [FitsAlike, pending_withVault hs] at hfits
  rw [turn, turn, pending_withVault hs]
  generalize w.pending m = p at hfits ⊢
  obtain ⟨mem, action⟩ := p
  cases action with
  | call call =>
    obtain ⟨s', heq, hs'⟩ := call.exec_alike hs
    have henv : (m.withVault s).env = m.env.withVault s := rfl
    simp only [perform, henv, heq]
    exact ⟨trivial, s', hs', rfl⟩
  | deliverPage hash bytes current =>
    have hdeliver := deliverPage_withVault (m := { m with mem := mem }) current fun hmissing =>
      checkBudget_withVault (hfits hash bytes current rfl hmissing)
    have hsame := hides_deliverPage (w := w) (m := { m with mem := mem }) hs hash bytes current
    have hmachine : ({ m.withVault s with mem := mem } : Machine M)
        = ({ m with mem := mem } : Machine M).withVault s := rfl
    simp only [perform, hmachine, hdeliver]
    exact ⟨rfl, s, hsame, rfl⟩

/-- Whole runs: what is told is the same, and the machines stay alike. -/
lemma run_alike : ∀ (n : ℕ) {m : Machine M} {s : Vault}, m.env.Hides s →
    w.FitsAlong n m (m.withVault s) →
    (w.run n (m.withVault s)).1 = (w.run n m).1 ∧
      ∃ s', (w.run n (m.withVault s)).2 = (w.run n m).2.withVault s'
  | 0, _, s, _, _ => ⟨rfl, s, rfl⟩
  | n + 1, m, s, hs, hfits => by
      obtain ⟨hreport, s₁, hs₁, hturn⟩ := turn_alike hs hfits.1
      have hrest := hfits.2
      rw [hturn] at hrest
      obtain ⟨hreports, s', hrun⟩ := run_alike n hs₁ hrest
      rw [run, run, hturn]
      exact ⟨by rw [hreport, hreports], s', hrun⟩

end World

/-- The handles with another value behind one of them. -/
def Vault.withValue (s : Vault) (handle : ℕ) (value : Bytes) : Vault :=
  { s with handles := s.handles.modify handle fun secret => { secret with value } }

/-- A hidden value may be replaced. -/
lemma Vault.alike_withValue {s : Vault} {handle : ℕ} {secret : HostSecretHandle}
    (hsecret : s.handles[handle]? = some secret) (hother : s.principal ≠ some secret.principal)
    (value : Bytes) : s.Alike (s.withValue handle value) := by
  refine ⟨rfl, fun k => ?_⟩
  simp only [seen, withValue, Std.TreeMap.getElem?_modify, compare_eq_iff_eq]
  by_cases hk : handle = k
  · subst hk
    simp [hsecret, hother]
  · rw [if_neg hk]
    rfl

namespace World

lemma FitsAlong.of_noBudget {M : Type} {w : World M} : ∀ (n : ℕ) {a b : Machine M},
    a.memoryBudget = none → w.FitsAlong n a b
  | 0, _, _, _ => trivial
  | n + 1, a, b, hnone => by
      refine ⟨fun hash bytes current _ _ budget hbudget => ?_, of_noBudget n hnone⟩
      rw [hnone] at hbudget
      exact absurd hbudget (by simp)

/-- **Secrets of other principals stay hidden**: replacing the value behind a handle that the
selected principal may not see changes nothing a guest can observe, if every chunk delivered
fits the memory budget beside both values or beside neither. -/
theorem run_hides {M : Type} (w : World M) (m : Machine M) (handle : ℕ) (secret : HostSecretHandle)
    (hsecret : m.env.heap.hostSecretHandles[handle]? = some secret)
    (hother : m.env.heap.agentPrincipal ≠ some secret.principal) (value : Bytes) (n : ℕ)
    (hfits : w.FitsAlong n m (m.withVault (m.env.heap.vault.withValue handle value))) :
    let a := w.run n m
    let b := w.run n (m.withVault (m.env.heap.vault.withValue handle value))
    b.1 = a.1 ∧ b.2.mem = a.2.mem ∧ b.2.env.heap.output = a.2.env.heap.output ∧
      ∀ secrets paths, (exportFsExcluding secrets b.2.env.heap.vfs paths).image.serialize
        = (exportFsExcluding secrets a.2.env.heap.vfs paths).image.serialize := by
  intro a b
  have hides : m.env.Hides (m.env.heap.vault.withValue handle value) :=
    Vault.alike_withValue hsecret hother value
  obtain ⟨hreports, s, hrun⟩ := run_alike n hides hfits
  have hmachine : b.2 = a.2.withVault s := hrun
  rw [hmachine]
  exact ⟨hreports, rfl, rfl, fun _ _ => rfl⟩

/-- A guest that opens a chunked file and reads it until the host has delivered its chunk. -/
def reader : World ℕ where
  sha256 _ := [1]
  resident _ := 0
  next turn _ := (turn + 1,
    match turn with
    | 0 => .call (.openat none (ascii "/f") 0 0)
    | 2 => .deliverPage [1] (ascii "data") true
    | _ => .call (.read 3 100))
  hear mem _ := mem

/-- The environment of that guest, with a secret for another principal. -/
def readerEnv : Env :=
  Lib.run Env.step (Env.new 64) [.host (.setAgentPrincipal "agent"),
    .host (.mountSecretHandle "key" (ascii "x") (ascii "/s") "other"),
    .host (.addChunkedFile (ascii "/f") ⟨4, 4096, [[1]]⟩ 0o644 true), .host .load]

/-- Without a memory budget the reader gets its chunk, whatever the secret is. -/
theorem run_hides_reader :
    (reader.run 4 (Machine.withVault ⟨readerEnv, 0, none⟩
        (readerEnv.heap.vault.withValue 1 (ascii "hunter2")))).1
      = [.answer (.ret (.ok 3)), .answer (.wait [1]), .delivered true,
        .answer (.data (ascii "data"))] := by
  have h := run_hides reader ⟨readerEnv, 0, none⟩ 1 ⟨"key", ascii "x", "other"⟩
    (by decide +kernel) (by decide +kernel) (ascii "hunter2") 4 (FitsAlong.of_noBudget 4 rfl)
  exact h.1.trans (by decide +kernel)

/-- **The memory budget shows a secret's length**: the room left for the chunk is what the
hidden value leaves, and with a longer one the chunk is refused and the read never ends. -/
theorem budget_shows_length :
    let m : Machine ℕ := ⟨readerEnv, 0, some (reader.footprint ⟨readerEnv, 0, none⟩ + 4)⟩
    m.env.heap.hostSecretHandles[1]? = some ⟨"key", ascii "x", "other"⟩ ∧
      m.env.heap.agentPrincipal = some "agent" ∧
      (reader.run 4 m).1 = [.answer (.ret (.ok 3)), .answer (.wait [1]), .delivered true,
        .answer (.data (ascii "data"))] ∧
      (reader.run 4 (m.withVault (m.env.heap.vault.withValue 1 (ascii "xx")))).1
        = [.answer (.ret (.ok 3)), .answer (.wait [1]), .delivered false, .answer (.wait [1])] := by
  decide +kernel

end World

end WebTos.Files
