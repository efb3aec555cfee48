import Fulcrum.Controller.Reassembly

/-!
# Fulcrum.Controller.Diagram

`Controller::StateMachine` has no transition table: its `state` is set in `process()`, in
the `success` handler `process` connects to a `GetChainInfoTask`, in
`process_DownloadingBlocks`, in `process_VerifyAndAddBlock` and in `genericTaskErrored`, and
`sm.reset()` drops the machine.  `diagram` is the table those places add up to, over the
controller's `phase` (the machine's state, `none` with no machine):

* `none → Begin` (`process()` makes a machine);
* `Begin → IBD | End | GetBlocks` (the chain-info reply);
* `GetBlocks → DownloadingBlocks`, `DownloadingBlocks → FinishedDL`;
* any state but `Failure` `→ Failure` (a task's `errored`, a rejected header);
* `FinishedDL | Failure | End | IBD → none` (`sm.reset()`).

Every event of the system with no stale callback keeps the phase or takes one edge
(`state_machine_follows_diagram`): the code's model refines the diagram, with stuttering.
A stale chain-info reply does not: in the run of `stale_reply_stalls_download`, the reply
of the first round's task, handled in `DownloadingBlocks`, moves the machine back to
`GetBlocks` (`stale_reply_leaves_diagram`).
-/

namespace Fulcrum

/-- The edges of the state machine's diagram, between phases (`none`: no machine). -/
def diagram : Option State → Option State → Bool
  | none, some .begin => true
  | some .begin, some .ibd => true
  | some .begin, some .«end» => true
  | some .begin, some .getBlocks => true
  | some .getBlocks, some .downloadingBlocks => true
  | some .downloadingBlocks, some .finishedDL => true
  | some s, some .failure => s != .failure
  | some .finishedDL, none => true
  | some .failure, none => true
  | some .«end», none => true
  | some .ibd, none => true
  | _, _ => false

@[simp] theorem diagram_to_failure (s : State) : diagram (some s) (some .failure) = (s != .failure) := by
  cases s <;> rfl

namespace Controller

variable {V : Type} {cfg : Config V}

/-- The controller's phase: its state machine's state, `none` when it has none. -/
def phase (c : Controller V) : Option State := c.sm.map (·.state)

/-- A step of the controller keeps its phase or takes one edge of the diagram. -/
def Moves (c c' : Controller V) : Prop := phase c' = phase c ∨ diagram (phase c) (phase c') = true

section

variable {c c' c'' : Controller V} {sm : StateMachine}

theorem Moves.of_phase (h : phase c' = phase c) : Moves c c' := .inl h

theorem Moves.of_sm (h : c'.sm = c.sm) : Moves c c' := .of_phase (by simp only [phase, h])

/-- Stuttering after a move. -/
theorem Moves.phase_trans (h : Moves c c') (h' : phase c'' = phase c') : Moves c c'' := by
  rw [Moves, h']
  exact h

/-- Stuttering before a move. -/
theorem Moves.trans_phase (h : phase c' = phase c) (h' : Moves c' c'') : Moves c c'' := by
  rw [Moves, ← h]
  exact h'

/-- `sm->state = s` on the machine `c` has. -/
theorem Moves.setState (hsm : c.sm = some sm) {s : State}
    (h : s = sm.state ∨ diagram (some sm.state) (some s) = true) : Moves c (c.setState s) := by
  simp only [Moves, phase, setState_sm, hsm, Option.map_some', Option.some.injEq]
  exact h

theorem phase_again : phase c.again = phase c := rfl

theorem phase_halt : phase c.halt = phase c := rfl

/-- `genericTaskErrored()`: any state but `Failure` goes to `Failure`. -/
theorem Moves.genericTaskErrored (c : Controller V) : Moves c c.genericTaskErrored := by
  unfold Controller.genericTaskErrored
  split
  · rename_i sm hsm
    split
    · exact (Moves.setState hsm (.inr (by simpa using ‹_›))).phase_trans phase_again
    · exact .of_sm rfl
  · exact .of_sm rfl

theorem Moves.onPutBlock {task : Nat} {p : PreProcessedBlock} : Moves c (c.onPutBlock task p) := by
  unfold Controller.onPutBlock
  split
  · exact .of_sm rfl
  · rename_i sm hsm
    split
    · exact .of_sm rfl
    · split
      · exact .of_sm rfl
      · exact .of_phase (by simp [phase, again, hsm])

theorem Moves.onDownloadSuccess {task : Nat} {t : TaskRec} : Moves c (c.onDownloadSuccess task t) := by
  unfold Controller.onDownloadSuccess
  split
  · exact .of_sm rfl
  · split
    · exact .of_sm rfl
    · exact .of_phase (by simp [phase, *])

theorem Moves.onDownloadErrored {task : Nat} : Moves c (c.onDownloadErrored task) := by
  unfold Controller.onDownloadErrored
  split
  · exact .of_sm rfl
  · split
    · exact .of_sm rfl
    · split
      · exact .of_sm rfl
      · exact .genericTaskErrored c

/-- The chain-info reply's height, in `Begin`: `End`, `Fatal()`, or `GetBlocks`. -/
theorem Moves.onChainInfoHeight (hb : phase c = some .begin) {info : ChainInfo} {b : Bool} :
    Moves c (c.onChainInfoHeight info b) := by
  obtain ⟨sm, hsm, hs⟩ := Option.map_eq_some'.1 hb
  -- `ht := blocks` keeps the state
  have h0 : phase (c.modifySm ({ · with ht := info.blocks })) = phase c := by
    simp [phase, hsm]
  unfold Controller.onChainInfoHeight
  dsimp only
  generalize asInt (asInt c.storage.headers.length - 1) = old
  have hsm' : (c.modifySm ({ · with ht := info.blocks })).sm = some { sm with ht := info.blocks } := by
    simp [hsm]
  split
  · refine Moves.trans_phase h0 (Moves.phase_trans ?_ phase_again)
    split
    · exact .setState hsm' (.inr (by rw [hs]; rfl))
    · exact .setState (c := { c.modifySm _ with signals := _ }) hsm' (.inr (by rw [hs]; rfl))
  · split
    · exact .of_phase (h0.trans rfl)
    · exact Moves.trans_phase h0 ((Moves.setState (c := { c.modifySm _ with signals := _ }) hsm'
        (.inr (by rw [hs]; rfl))).phase_trans phase_again)

/-- The `success` handler `process` connects to a chain-info task, handled in `Begin`: `IBD`,
or the height comparison, or `Fatal()`. -/
theorem Moves.onChainInfoSuccess (hb : ∀ sm, c.sm = some sm → sm.state = .begin) {task : Nat}
    {info : ChainInfo} {b : Bool} : Moves c (c.onChainInfoSuccess task info b) := by
  unfold Controller.onChainInfoSuccess
  dsimp only
  split
  · exact .of_sm rfl
  · rename_i sm hsm
    have hs := hb sm hsm
    have hp : phase c = some .begin := by simp [phase, hsm, hs]
    split
    · exact .of_sm rfl
    · split
      · exact (Moves.setState hsm (.inr (by rw [hs]; rfl))).phase_trans phase_again
      · split
        · split
          · exact Moves.onChainInfoHeight
              (c := { c with storage := { c.storage with chain := info.chain } }) hp
          · exact .onChainInfoHeight hp
        · exact .of_phase phase_halt

/-- The drain loop keeps the phase, or stops with `false` on a rejected header, in
`Failure`. -/
theorem drain_phase (fuel : Nat) : ∀ c : Controller V,
    (drain cfg fuel c).2 = true ∧ phase (drain cfg fuel c).1 = phase c ∨
      (drain cfg fuel c).2 = false ∧ phase (drain cfg fuel c).1 = some .failure := by
  induction fuel with
  | zero => exact fun c => .inl ⟨rfl, rfl⟩
  | succ fuel ih =>
    intro c
    by_cases hround : ∃ sm k ppb, c.sm = some sm ∧ sm.ppBlocks.front? = some (k, ppb) ∧
        k = sm.ppBlkHtNext
    · obtain ⟨sm, k, ppb, hsm, hf, rfl⟩ := hround
      rw [drain_succ_of_front cfg hsm hf rfl]
      cases hv : (cfg.verifier.verify (c.popFront sm ppb).storage.verifier ppb.header).1
      · rw [verifyAndAddBlock_of_reject cfg hv]
        exact .inr ⟨rfl, by simp [phase]⟩
      · obtain ⟨hok, -, -, -, -, hsm', -⟩ := verifyAndAddBlock_of_accept cfg hv
        simp only [hok, Bool.true_eq_false, if_false]
        have hp : phase (verifyAndAddBlock cfg (c.popFront sm ppb) ppb).1 = phase c := by
          simp [phase, hsm', hsm]
        rcases ih (verifyAndAddBlock cfg (c.popFront sm ppb) ppb).1 with ⟨h1, h2⟩ | h
        · exact .inl ⟨h1, h2.trans hp⟩
        · exact .inr h
    · rw [drain_succ_of_not_front cfg fun sm hsm k ppb hf hk => hround ⟨sm, k, ppb, hsm, hf, hk⟩]
      exact .inl ⟨rfl, rfl⟩

/-- `process_DownloadingBlocks()`: `Failure` on a rejected header, `FinishedDL` once every
height is in. -/
theorem Moves.processDownloadingBlocks (hdl : phase c = some .downloadingBlocks) :
    Moves c (processDownloadingBlocks cfg c) := by
  unfold Controller.processDownloadingBlocks
  dsimp only
  rcases drain_phase (c.sm.elim 0 (·.ppBlocks.size)) c with ⟨h1, h2⟩ | ⟨h1, h2⟩
  · rw [if_neg (by rw [h1]; decide)]
    split
    · rename_i sm hsm
      have hs : sm.state = .downloadingBlocks := by
        simpa [phase, hsm] using h2.trans hdl
      split
      · exact Moves.trans_phase h2 ((Moves.setState hsm (.inr (by rw [hs]; rfl))).phase_trans
          phase_again)
      · exact .of_phase h2
    · exact .of_phase h2
  · rw [if_pos h1]
    exact .inr (by rw [h2, hdl]; rfl)

/-- `process()`: a machine made in `Begin`, or one step of the machine's state. -/
theorem Moves.process (b : Bool) : Moves c (process cfg b c) := by
  cases hsm : c.sm with
  | none =>
    have h : phase (Controller.process cfg b c) = some .begin := by
      simp [Controller.process, hsm, phase, StateMachine.init]
    exact .inr (by rw [h, phase, hsm]; rfl)
  | some sm =>
    have hp : phase c = some sm.state := by simp [phase, hsm]
    by_cases hgb : sm.state = .getBlocks
    · rw [process_getBlocks cfg hsm hgb b]
      obtain ⟨-, h, -⟩ := getBlocks_spec cfg { c with pollTimer := none } sm hsm
      exact .inr (by rw [hp, hgb, phase, h]; rfl)
    unfold Controller.process
    simp only [hsm, Option.getD_some, Option.isNone_some, Bool.false_eq_true, if_false]
    split
    · exact .of_sm (by simp [hsm])
    · contradiction
    · exact Moves.trans_phase (by rw [hp]; rfl) (.processDownloadingBlocks (by simp [phase, *]))
    all_goals exact .inr (by rw [hp, ‹sm.state = _›]; rfl)

/-- The handlers of the controller's thread, a chain-info task's `success` handled in
`Begin`. -/
theorem Moves.handle {m : Msg}
    (hs : ∀ t r b, m = .success t → c.procs[t]? = some r → r.kind = .getChainInfo b →
      ∀ sm, c.sm = some sm → sm.state = .begin) : Moves c (handle cfg c m) := by
  cases m with
  | process b => exact .process b
  | putBlock t p => exact .onPutBlock
  | success t =>
    simp only [Controller.handle]
    split
    · rename_i r hr
      split
      · exact .onDownloadSuccess
      · exact .onChainInfoSuccess (hs t r _ rfl hr ‹_›)
    · exact .of_sm rfl
  | errored t =>
    simp only [Controller.handle]
    split
    · split
      · exact .onDownloadErrored
      · exact .genericTaskErrored c
    · exact .of_sm rfl
  | start t =>
    simp only [Controller.handle]
    split <;> exact .of_sm rfl
  | stop t =>
    simp only [Controller.handle]
    split
    · split <;> exact .of_sm rfl
    · exact .of_sm rfl
  | progress t | finished t => exact .of_sm rfl

/-- Every event with no stale callback. -/
theorem Moves.step {e : Event} (hns : noStale c e = true) (h : step cfg c e = some c') :
    Moves c c' := by
  cases step_spec h with
  | @handle i m _ hm =>
    have hst : stale c m = false := by simpa [noStale, hm] using hns
    exact Moves.trans_phase rfl (Moves.handle fun t r b he hr hk => by
      subst he
      exact begin_of_not_stale hr hk hst)
  | pollTimer =>
    split
    · exact Moves.trans_phase rfl (.process true)
    · exact .of_sm rfl
  | callProcessTimer => exact Moves.trans_phase rfl (.process false)
  | _ => exact .of_sm rfl

/-- Every event of the system, from any state, when the controller's thread does not run a
stale callback: the state machine keeps its state, or moves along one edge of `diagram`.
The code's model refines the diagram. -/
theorem state_machine_follows_diagram {c c' : Controller V} {e : Event} (hns : noStale c e = true)
    (h : step cfg c e = some c') : phase c' = phase c ∨ diagram (phase c) (phase c') = true :=
  Moves.step hns h

/-- The chain-info reply of the first round, behind by three blocks: `Begin → GetBlocks`. -/
theorem state_machine_follows_diagram_on_reply :
    ∃ c c', exec sampleConfig (init emptyStorage)
        [.firstGoodConnection, .callProcessTimer, .handle 0, .succeed 0 ⟨"main", 2, false⟩] =
        some c ∧
      noStale c (.handle 0) = true ∧ step sampleConfig c (.handle 0) = some c' ∧
      phase c = some .begin ∧ phase c' = some .getBlocks ∧
      (phase c' = phase c ∨ diagram (phase c) (phase c') = true) :=
  ⟨_, _, rfl, rfl, rfl, rfl, rfl, state_machine_follows_diagram (e := .handle 0) rfl rfl⟩

/-- The hypothesis is needed: the stale reply of `stale_reply_stalls_download`'s run takes
`DownloadingBlocks` to `GetBlocks`, no edge of the diagram. -/
theorem stale_reply_leaves_diagram :
    ∃ c c', exec sampleConfig (init emptyStorage) (staleReplyRun.take 17) = some c ∧
      noStale c (.handle 0) = false ∧ step sampleConfig c (.handle 0) = some c' ∧
      phase c = some .downloadingBlocks ∧ phase c' = some .getBlocks ∧
      diagram (phase c) (phase c') = false :=
  ⟨_, _, rfl, rfl, rfl, rfl, rfl, rfl⟩

end

end Controller

end Fulcrum
