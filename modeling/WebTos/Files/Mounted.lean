import WebTos.Files.PipesFrame

/-!
Which nodes are treated as mounted secrets.

The map from nodes to handles lives beside the filesystem, and `import_fs` replaces the
filesystem alone.

* `Call.secrets_body`: no guest call adds to it; `Env.reclaimUnlinked` only forgets;
* `Env.run_secretsMounted`: along every run whose imports find no secret mounted, what is
  treated as a secret was mounted in the filesystem now installed;
  `import_keeps_stale_secret` is a run with another import.
-/

namespace WebTos.Files

open Fd Lib Env

namespace Env

variable {e : Env}

/-- The target of `sendfile` is a pipe or what `write_backing` takes; neither mounts a secret. -/
lemma secrets_sendChunk (outFd : ℕ) (chunk : Bytes) :
    (e.sendChunk outFd chunk).2.secrets = e.secrets := by
  rw [sendChunk]
  split
  · rfl
  next d desc _ =>
  split
  · rfl
  split
  · dsimp only
    repeat' split
    all_goals rfl
  have hwrite := (Pipes.Framed.writeBacking e desc chunk).secrets
  generalize e.writeBacking desc chunk = w at hwrite ⊢
  obtain ⟨⟨_ | n, offset⟩, e'⟩ := w <;> exact hwrite

/-- A `sendfile` that stops early has changed no more than one that goes through. -/
lemma secrets_sysSendfile (outFd inFd : ℕ) (offset : Option (SysResult ℕ)) (count : ℕ) :
    (e.sysSendfile outFd inFd offset count).2.secrets = e.secrets := by
  rw [sysSendfile]
  split
  · rfl
  split
  · rfl
  · split
    · rfl
    · rfl
    next chunk _ _ =>
    have hsend : (e.sendChunk outFd chunk).2.secrets = e.secrets := secrets_sendChunk outFd chunk
    generalize e.sendChunk outFd chunk = sent at hsend ⊢
    obtain ⟨_ | written, e'⟩ := sent
    · exact hsend
    · dsimp only
      split <;> exact hsend
  · rfl

end Env

/-- **No guest call mounts a secret.** -/
lemma Call.secrets_body (e : Env) (call : Call) : (call.body e).env.secrets = e.secrets := by
  -- the frame of the calls that move no pipe bytes; only `sendfile` moves some
  cases hmoves : Pipes.World.movesNothing (.guest call) with
  | true => exact (Pipes.Framed.body e call hmoves).secrets
  | false =>
    cases call with
    | sendfile outFd inFd offset count => exact secrets_sysSendfile outFd inFd offset count
    | other => rfl
    | _ => cases hmoves

namespace Env

variable {e : Env}

/-- **What is treated as a secret was mounted in the filesystem now installed.** -/
def SecretsMounted (e : Env) : Prop :=
  ∀ node, e.heap.isHostSecretNode node = true → node ∈ e.mounted

lemma SecretsMounted.congr {e' : Env} (h : e.SecretsMounted) (hs : e'.secrets = e.secrets) :
    e'.SecretsMounted := by
  have hnodes : e'.heap.hostSecretNodes = e.heap.hostSecretNodes := congrArg Prod.fst hs
  have hmounted : e'.mounted = e.mounted := congrArg Prod.snd hs
  intro node hnode
  rw [Heap.isHostSecretNode, hnodes] at hnode
  rw [hmounted]
  exact h node hnode

/-- What is a secret after one was forgotten was a secret before. -/
lemma isHostSecretNode_of_forgetSecret {h : Heap} {node i : ℕ}
    (hi : (h.forgetSecret node).isHostSecretNode i) : h.isHostSecretNode i := by
  rw [Heap.forgetSecret] at hi
  split at hi
  · simp only [Heap.isHostSecretNode, Std.TreeMap.contains_erase, Bool.and_eq_true] at hi
    exact hi.2
  · exact hi

lemma isHostSecretNode_of_forgetAll {i : ℕ} : ∀ {nodes : List ℕ} {h : Heap},
    (nodes.foldl Heap.forgetSecret h).isHostSecretNode i = true → h.isHostSecretNode i
  | [], _, hi => hi
  | _ :: _, _, hi => isHostSecretNode_of_forgetSecret (isHostSecretNode_of_forgetAll hi)

/-- Reclaiming nodes forgets secrets and mounts none. -/
lemma SecretsMounted.reclaimUnlinked (h : e.SecretsMounted) : e.reclaimUnlinked.SecretsMounted := by
  rw [Env.reclaimUnlinked]
  split
  · exact h
  intro node hnode
  change (List.foldl Heap.forgetSecret _ _).isHostSecretNode node = true at hnode
  have hold := isHostSecretNode_of_forgetAll hnode
  exact h node hold

lemma SecretsMounted.addSecret (h : e.SecretsMounted) (node handle : ℕ)
    (secret : HostSecretHandle) : (e.addSecret node handle secret).SecretsMounted := by
  intro i hi
  simp only [Env.addSecret, Heap.isHostSecretNode, Std.TreeMap.contains_insert, Bool.or_eq_true,
    compare_eq_iff_eq, beq_iff_eq] at hi
  rcases hi with rfl | hi
  · exact List.mem_cons_self
  · exact List.mem_cons_of_mem _ (h i hi)

/-- A mount that is refused leaves the map as it is; any other adds the new node on both sides. -/
lemma SecretsMounted.mountSecretHandle (h : e.SecretsMounted) (name : String) (value path : Bytes)
    (principal : String) : (e.mountSecretHandle name value path principal).2.SecretsMounted := by
  rw [Env.mountSecretHandle]
  split
  · exact h
  dsimp only
  split
  · exact h
  split
  · exact h.congr rfl
  · refine SecretsMounted.addSecret ?_ _ _ _
    exact h.congr rfl

end Env

/-- An import of an accepted image finds no secret mounted. -/
def Event.ImportsBare (e : Env) : Event → Prop
  | .host (.importFs bytes) =>
    (Vfs.deserialize (Nat.log 2 e.usize) bytes).isOk = true →
      ∀ node, e.heap.isHostSecretNode node = false
  | _ => True

namespace Env

variable {e : Env}

/-- An import empties the list of mounted nodes and keeps the map, so the map must be empty. -/
lemma SecretsMounted.importFs (h : e.SecretsMounted) {bytes : Bytes}
    (hbare : Event.ImportsBare e (.host (.importFs bytes))) :
      (e.importFs bytes).SecretsMounted := by
  rw [Env.importFs]
  split
  · exact h
  · next restored hread =>
      intro node hnode
      change e.heap.isHostSecretNode node = true at hnode
      rw [hbare (by rw [hread]; rfl) node] at hnode
      exact absurd hnode (by simp)

/-- **Calls of the host**: mounts add to both sides, imports are covered by the condition. -/
lemma SecretsMounted.hostCall (h : e.SecretsMounted) {call : HostCall}
    (hbare : Event.ImportsBare e (.host call)) : (call.body e).2.SecretsMounted := by
  cases call with
  | addFile | addChunkedFile =>
    rw [HostCall.body]
    split
    · exact h.congr rfl
    · exact h
  | createFile | addSymlink | mkdirP => exact h.congr rfl
  | appendFile =>
    refine h.congr ?_
    rw [HostCall.body, appendFile]
    repeat' split
    all_goals rfl
  | mountSecretHandle name value path principal =>
    exact h.mountSecretHandle name value path principal
  | setAgentPrincipal =>
    rw [HostCall.body]
    split
    · exact h
    · exact h.congr rfl
  | importFs => exact h.importFs hbare
  | load => exact h.congr secrets_sweep

/-- **One event** keeps what is treated as a secret among the mounted nodes. -/
lemma SecretsMounted.step (h : e.SecretsMounted) {event : Event} (hbare : event.ImportsBare e) :
    (e.step event).SecretsMounted := by
  have hbody : (event.body e).2.SecretsMounted := by
    cases event with
    | guest call =>
      have hcall : ((call.body e).env).SecretsMounted := h.congr (call.secrets_body e)
      rw [Event.body.eq_def]
      split
      · exact h.congr (Pipes.Framed.switch e _).secrets
      · next hguest =>
          cases hguest
          split
          · exact hcall
          · exact h
      · next hhost => cases hhost
    | host => exact h.hostCall hbare
  -- after the call itself unlinked nodes may be reclaimed
  rw [Env.step]
  generalize event.body e = m at hbody ⊢
  obtain ⟨reclaims, e'⟩ := m
  cases reclaims with
  | true => exact hbody.reclaimUnlinked
  | false => exact hbody

/-- **Secrets follow their mount** along every run whose imports find none mounted. -/
theorem run_secretsMounted (w : ℕ) (events : List Event)
    (hguard : Guarded step (fun e event => event.ImportsBare e) (new w) events) :
    (run step (new w) events).SecretsMounted := by
  have hnew : (new w).SecretsMounted := by
    intro node hnode
    change (∅ : Std.TreeMap ℕ ℕ).contains node = true at hnode
    simp at hnode
  have hstep : ∀ (e : Env) (event : Event), e.SecretsMounted → event.ImportsBare e →
      (e.step event).SecretsMounted := fun _ _ h hbare => h.step hbare
  exact Guarded.invariant hstep hnew hguard

/-- The image of a filesystem with the root directory alone. -/
def rootImage : Bytes := Vfs.bare.serialize

/-- The image of a filesystem with one ordinary file. -/
def fileImage : Bytes := (Vfs.bare.addNode (ascii "/f") (.file (ascii "data")) 0o644).2.serialize

/-- The host mounts a secret for the selected agent. -/
def mountRun : List Event :=
  [.host (.setAgentPrincipal "agent"), .host (.importFs rootImage),
    .host (.mountSecretHandle "key" (ascii "hunter2") (ascii "/s") "agent")]

/-- The import of the root alone finds no secret, and the mounted marker is one. -/
theorem run_secretsMounted_marker :
    (run step (new 64) mountRun).heap.isHostSecretNode 1 = true ∧
      (run step (new 64) mountRun).SecretsMounted := by
  refine ⟨by decide +kernel, run_secretsMounted 64 mountRun ⟨trivial, ?_, trivial, trivial⟩⟩
  intro _ node
  change (∅ : Std.TreeMap ℕ ℕ).contains node = false
  simp

/-- **An import keeps a stale secret**: node 1 of the restored filesystem is the file `/f`,
which nobody mounted, and reading it gives the secret. -/
theorem import_keeps_stale_secret :
    let e := run step (new 64) (mountRun ++
      [.host (.importFs fileImage), .host .load, .guest (.openat none (ascii "/f") 0 0)])
    ¬ e.SecretsMounted ∧ e.heap.vfs.readFile (ascii "/f") = some (ascii "data") ∧
      ((Call.read 3 100).exec e).1 = .data (ascii "hunter2") := by
  refine ⟨fun h => ?_, by decide +kernel, by decide +kernel⟩
  have hmem := h 1 (by decide +kernel)
  revert hmem
  decide +kernel

end Env

end WebTos.Files
