import Fulcrum.Controller.Headers

/-!
# Fulcrum.Controller.UpToDate

`startup()` defers listening for clients: the `SrvMgr` is made and started on the first
`upToDate` the controller emits.  `upToDate` is emitted by the `success` handler of a
chain-info task, when the reply's height equals `old = int(headers().size()) - 1`, as the
state machine enters `End` with `ht` set to that height.

Every other handler leaves the signals alone but for `synchronizing` and `synchFailure`
(`process_signals`, `handle_signals`).  So in every run, a step that emits `upToDate`
handles a chain-info task's `success`, and leaves the controller in `End` at the height
that task reported, holding exactly that height plus one headers
(`upToDate_only_when_synced`): the `int` arithmetic of `old` is exact because the storage
never holds more than `2^31` headers (`HeadersInv.length_le`).
-/

namespace Fulcrum

namespace Controller

variable {V : Type} {cfg : Config V}

section

variable (c : Controller V) {ppb : PreProcessedBlock} {task : Nat} {p : PreProcessedBlock}
  {t : TaskRec}

/-! ## Handlers that emit nothing -/

theorem verifyAndAddBlock_signals : (verifyAndAddBlock cfg c ppb).1.signals = c.signals := by
  unfold verifyAndAddBlock
  dsimp only
  split_ifs <;> rfl

theorem popFront_signals (sm : StateMachine) : (c.popFront sm ppb).signals = c.signals := by
  unfold popFront
  split <;> rfl

theorem drain_signals (fuel : Nat) : ∀ c : Controller V, (drain cfg fuel c).1.signals = c.signals := by
  induction fuel with
  | zero => exact fun _ => rfl
  | succ fuel ih =>
    intro c
    unfold drain
    split
    · rfl
    · split
      · rfl
      · split
        · dsimp only
          split
          · exact (verifyAndAddBlock_signals _).trans (popFront_signals _ _)
          · exact (ih _).trans ((verifyAndAddBlock_signals _).trans (popFront_signals _ _))
        · rfl

theorem processDownloadingBlocks_signals :
    (processDownloadingBlocks cfg c).signals = c.signals := by
  unfold processDownloadingBlocks
  dsimp only
  split
  · exact drain_signals _ c
  · split
    · split
      · exact drain_signals _ c
      · exact drain_signals _ c
    · exact drain_signals _ c

theorem foldl_addDLHeaderTask_signals (args : List (Nat × Nat × Nat)) :
    (args.foldl addDLHeaderTask c).signals = c.signals := by
  induction args generalizing c with
  | nil => rfl
  | cons a args ih => exact (ih _).trans (by simp only [addDLHeaderTask]; split <;> rfl)

theorem setState_signals (s : State) : (c.setState s).signals = c.signals := rfl

theorem getBlocks_signals (sm : StateMachine) : (getBlocks cfg c sm).signals = c.signals := by
  simp only [getBlocks, setState_signals, foldl_addDLHeaderTask_signals]
  split_ifs <;> rfl

/-- `process()` emits nothing but `synchFailure`, after a failure or in IBD. -/
theorem process_signals (b : Bool) : (process cfg b c).signals = c.signals ∨
    (process cfg b c).signals = c.signals ++ [.synchFailure] := by
  unfold process
  dsimp only
  split
  · exact .inl rfl
  · exact .inl (getBlocks_signals _ _)
  · exact .inl (processDownloadingBlocks_signals _)
  · exact .inl rfl
  · exact .inr rfl
  · exact .inl rfl
  · exact .inr rfl

theorem genericTaskErrored_signals : c.genericTaskErrored.signals = c.signals := by
  unfold genericTaskErrored
  split
  · split <;> rfl
  · rfl

/-- The handlers of every message but `process` and a chain-info task's `success`. -/
theorem handle_signals {m : Msg} (hp : ∀ b, m ≠ .process b)
    (hs : ∀ task r b, m = .success task → c.procs[task]? = some r → r.kind ≠ .getChainInfo b) :
    (handle cfg c m).signals = c.signals := by
  cases m with
  | process b => exact absurd rfl (hp b)
  | success task =>
    simp only [Controller.handle]
    split
    · rename_i r hr
      split
      · simp only [onDownloadSuccess]
        repeat' split
        all_goals rfl
      · next b hk => exact absurd hk (hs task r b rfl hr)
    · rfl
  | _ =>
    simp only [Controller.handle, onPutBlock, onDownloadErrored]
    repeat' split
    all_goals first | rfl | exact genericTaskErrored_signals _

end

/-! ## The step that emits `upToDate` -/

/-- A step from `c` to `c'` emits `upToDate` exactly when it appends it to the signals. -/
theorem not_emits_of_other {c c' : Controller V} {s : Signal} (hs : s ≠ .upToDate)
    (h : c'.signals = c.signals ++ [s]) : c'.signals ≠ c.signals ++ [.upToDate] := fun hu => by
  rw [h] at hu
  exact absurd (List.append_cancel_left hu) (by simpa using hs)

theorem not_emits_of_eq {c c' : Controller V} (h : c'.signals = c.signals) :
    c'.signals ≠ c.signals ++ [.upToDate] := fun hu => by
  rw [h] at hu
  simp at hu

theorem process_not_emits (b : Bool) (c : Controller V) :
    (process cfg b c).signals ≠ c.signals ++ [.upToDate] := by
  rcases @process_signals _ cfg c b with h | h
  · exact not_emits_of_eq h
  · exact not_emits_of_other (by decide) h

/-- If the step from `c` to `c'` emits `upToDate`, then `c'` has not hit `Fatal()` and is in
`End` at height `ht`, with `ht + 1` headers stored. -/
def EmitsSynced (c c' : Controller V) (ht : Int) : Prop :=
  c'.signals = c.signals ++ [.upToDate] → c'.fatal = false ∧
    ∃ sm, c'.sm = some sm ∧ sm.state = .«end» ∧ sm.ht = ht ∧
      (c'.storage.headers.length : Int) = ht + 1

section

variable {c c' : Controller V} {sm : StateMachine} {ht : Int}

theorem EmitsSynced.of_eq (h : c'.signals = c.signals) : EmitsSynced c c' ht :=
  fun hu => absurd hu (not_emits_of_eq h)

/-- Steps from controllers with the same signals. -/
theorem EmitsSynced.of_signals_eq {c₀ : Controller V} (h' : EmitsSynced c₀ c' ht)
    (h : c₀.signals = c.signals) : EmitsSynced c c' ht :=
  fun hu => h' (h ▸ hu)

/-- A reply's height equal to the stored one: `End` at that height, with `upToDate` unless
silent.  `old` is `size() - 1` exactly, as `size()` stays at most `2^31`. -/
theorem EmitsSynced.onChainInfoHeight (hf : c.fatal = false) (hsm : c.sm = some sm)
    (hlen : c.storage.headers.length ≤ 2 ^ 31) (info : ChainInfo) (b : Bool) :
    EmitsSynced c (c.onChainInfoHeight info b) info.blocks := by
  unfold Controller.onChainInfoHeight
  dsimp only
  split
  · rename_i h1
    intro _
    refine ⟨by split <;> exact hf, { sm with ht := info.blocks, state := .«end» }, ?_, rfl, rfl, ?_⟩
    · split <;> simp [hsm]
    · have : (c.storage.headers.length : Int) = info.blocks + 1 := by
        unfold asInt at h1
        omega
      split <;> exact this
  · split
    · exact .of_eq rfl
    · exact fun hu => absurd hu (not_emits_of_other (by decide) rfl)

theorem EmitsSynced.onChainInfoSuccess (hf : c.fatal = false)
    (hlen : c.storage.headers.length ≤ 2 ^ 31) {task : Nat} {info : ChainInfo} {b : Bool} :
    EmitsSynced c (c.onChainInfoSuccess task info b) info.blocks := by
  unfold Controller.onChainInfoSuccess
  dsimp only
  split
  · exact .of_eq rfl
  · rename_i sm hsm
    split
    · exact .of_eq rfl
    · split
      · exact .of_eq rfl
      · split
        · split
          · exact .of_signals_eq (EmitsSynced.onChainInfoHeight
              (c := { c with storage := { c.storage with chain := info.chain } }) hf hsm hlen info b) rfl
          · exact .onChainInfoHeight hf hsm hlen info b
        · exact .of_eq rfl

/-- Every event: only the handling of a chain-info task's `success` can emit `upToDate`,
and it does so at the height of the `ChainInfo` the task succeeded with. -/
theorem EmitsSynced.step (hh : HeadersInv cfg c) {e : Event} (h : step cfg c e = some c')
    (hu : c'.signals = c.signals ++ [.upToDate]) :
    ∃ i t r b, e = .handle i ∧ c.queue[i]? = some (.success t) ∧ c.procs[t]? = some r ∧
      r.kind = .getChainInfo b ∧ EmitsSynced c c' r.info.blocks := by
  cases step_spec h with
  | @handle i m hf hm =>
    by_cases hs : ∃ task r b, m = .success task ∧ c.procs[task]? = some r ∧ r.kind = .getChainInfo b
    · obtain ⟨task, r, b, rfl, hr, hk⟩ := hs
      refine ⟨i, task, r, b, rfl, hm, hr, hk, ?_⟩
      simp only [Controller.handle, dequeue_procs, hr, hk]
      exact EmitsSynced.onChainInfoSuccess (c := c.dequeue i) hf hh.length_le
    · exfalso
      cases m with
      | process b => exact process_not_emits b (c.dequeue i) hu
      | _ =>
        exact not_emits_of_eq (handle_signals (c.dequeue i) (fun _ h => by cases h)
          fun task r b he hr hk => hs ⟨task, r, b, he, hr, hk⟩) hu
  | pollTimer =>
    exfalso
    split at hu
    · exact process_not_emits true _ hu
    · exact not_emits_of_eq rfl hu
  | callProcessTimer => exact absurd hu (process_not_emits false _)
  | _ => exact absurd hu (not_emits_of_eq rfl)

/-- In every run, a step that emits `upToDate`, the signal on whose first emission
`startup()` starts the `SrvMgr`, is the handling of a chain-info task's `success`.  It
leaves the controller with no `Fatal()`, in `End` at the height bitcoind reported (that of
the `ChainInfo` the task succeeded with), holding exactly that height plus one headers:
those of heights `0` to the reported one. -/
theorem upToDate_only_when_synced {ok : Controller V → Event → Prop} {e : Event}
    (h : Reachable cfg ok c) (hs : step cfg c e = some c')
    (hu : c'.signals = c.signals ++ [.upToDate]) :
    ∃ i t r b, e = .handle i ∧ c.queue[i]? = some (.success t) ∧ c.procs[t]? = some r ∧
      r.kind = .getChainInfo b ∧ c'.fatal = false ∧
      ∃ sm, c'.sm = some sm ∧ sm.state = .«end» ∧ sm.ht = r.info.blocks ∧
        (c'.storage.headers.length : Int) = r.info.blocks + 1 := by
  obtain ⟨i, t, r, b, he, hq, hr, hk, hsync⟩ := EmitsSynced.step (reachable_headersInv h) hs hu
  exact ⟨i, t, r, b, he, hq, hr, hk, hsync hu⟩

/-- One stored header, the genesis block's, on `main`. -/
def genesisStorage : Storage Bytes := ⟨[List.replicate 80 0], [0], List.replicate 80 0, "main", 0⟩

theorem loaded_genesisStorage : Loaded sampleConfig genesisStorage := ⟨rfl, by decide, rfl⟩

/-- From the genesis header, bitcoind at height `0`: handling the chain-info task's
`success` emits `upToDate`, and the controller is in `End` at `ht = 0` with one header. -/
theorem upToDate_only_when_synced_at_genesis :
    ∃ c c', exec sampleConfig (init genesisStorage)
        [.firstGoodConnection, .callProcessTimer, .handle 0, .succeed 0 ⟨"main", 0, false⟩] =
        some c ∧
      step sampleConfig c (.handle 0) = some c' ∧ c'.signals = c.signals ++ [.upToDate] ∧
      ∃ i t r b, Event.handle 0 = .handle i ∧ c.queue[i]? = some (.success t) ∧
        c.procs[t]? = some r ∧ r.kind = .getChainInfo b ∧ c'.fatal = false ∧
        ∃ sm, c'.sm = some sm ∧ sm.state = .«end» ∧ sm.ht = r.info.blocks ∧
          (c'.storage.headers.length : Int) = r.info.blocks + 1 :=
  ⟨_, _, rfl, rfl, rfl, upToDate_only_when_synced (e := .handle 0)
    ((Reachable.init loaded_genesisStorage : Reachable sampleConfig (fun _ _ => True) _).exec
      (rfl : exec sampleConfig (init genesisStorage)
        [.firstGoodConnection, .callProcessTimer, .handle 0, .succeed 0 ⟨"main", 0, false⟩] =
        some _) fun _ _ _ => trivial) rfl rfl⟩

end

end Controller

end Fulcrum
