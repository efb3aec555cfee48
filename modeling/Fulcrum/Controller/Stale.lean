import Fulcrum.Controller.Headers
import Fulcrum.Controller.TaskMap

/-!
# Fulcrum.Controller.Stale

Callbacks from tasks that outlive their state machine.  Every handler of a task's signal
first checks `!sm || isTaskDeleted(task)`, and the download task's `errored` handler also
`sm->state == Failure`; none checks under which state machine the task was made.  A task
leaves the task map only once it has finished (`task_map_exact`), so a download task still
running when its state machine is reset (after `FinishedDL` or `Failure`) keeps calling into
the next one, and a second `GetChainInfoTask` made in the same `Begin` (the reconnect path
calls `process()` again) has its reply handled in whatever state the machine is in by then.

`task_callback_effects` is what holds of every callback the controller's thread takes, stale
or not, in every run: it leaves the stored headers and the round's window (`ppBlkHtNext`,
`startheight`, `endHeight`) alone; it raises `Fatal()` only as a chain-info task's `success`
reporting another chain than the stored one or a height below the stored tip; and once its
task has stopped and its `finished` has run, it changes nothing, except the `errored` of a
chain-info task, which goes to `genericTaskErrored` with no check of its own.  Stale
callbacks do move the state machine: `stale_callbacks_fail_or_halt` gives a run in which a
download task of the first round fails once the second round has begun and puts it into
`Failure`, and one in which a second chain-info task's reply, handled while downloading,
raises `Fatal()`.

`stale` names the callbacks of tasks made under an earlier state machine, and the
chain-info replies handled once the state machine has left `Begin`; `noStale` keeps the
runs in which the controller handles none of them, over which
`Fulcrum.Controller.Reassembly` proves the order of `ppBlocks`.
-/

namespace Fulcrum

/-- The task whose signal, or block, a message carries. -/
def Msg.task? : Msg → Option Nat
  | .putBlock t _ | .success t | .errored t | .progress t => some t
  | _ => none

/-- The window of a round: the next height to store, and the heights it starts and ends
at. -/
def StateMachine.window (sm : StateMachine) : Nat × Nat × Nat :=
  (sm.ppBlkHtNext, sm.startheight, sm.endHeight)

namespace Controller

variable {V : Type} (cfg : Config V)

/-- Whether a message is a callback of a task made under an earlier state machine, or a
chain-info reply once the state machine has left `Begin`. -/
def stale (c : Controller V) (m : Msg) : Bool :=
  match m.task?.bind fun t => c.procs[t]? with
  | none => false
  | some r =>
    r.epoch != c.epoch ||
      match m, r.kind with
      | .success _, .getChainInfo _ => c.sm.any (·.state != .begin)
      | _, _ => false

/-- The controller's thread does not run a stale callback. -/
def noStale (c : Controller V) : Event → Bool
  | .handle i => !(c.queue[i]?.any (stale c))
  | _ => true

/-! ## What a task's callback changes -/

/-- With no state machine, or once the task is removed from the task map, a task's
callback changes nothing; the one exception is a chain-info task's `errored`, connected
to `genericTaskErrored` directly. -/
theorem handle_of_deleted (c : Controller V) (m : Msg) (t : Nat)
    (hm : m.task? = some t)
    (hgone : c.sm = none ∨ (c.isTaskDeleted t = true ∧
      ∀ r b, c.procs[t]? = some r → r.kind = .getChainInfo b → m ≠ .errored t)) :
    handle cfg c m = c := by
  cases m with
  | putBlock t' p =>
    cases hm
    simp only [handle, onPutBlock]
    rcases hgone with h | ⟨h, -⟩
    · simp [h]
    · split <;> simp [h]
  | success t' =>
    cases hm
    simp only [handle]
    split
    · split
      · simp only [onDownloadSuccess]
        rcases hgone with h | ⟨h, -⟩
        · simp [h]
        · split <;> simp [h]
      · simp only [onChainInfoSuccess]
        rcases hgone with h | ⟨h, -⟩
        · simp [h]
        · split <;> simp [h]
    · rfl
  | errored t' =>
    cases hm
    simp only [handle]
    split
    · rename_i r hr
      split
      · simp only [onDownloadErrored]
        rcases hgone with h | ⟨h, -⟩
        · simp [h]
        · split <;> simp [h]
      · rename_i b hk
        rcases hgone with h | ⟨-, h⟩
        · simp [genericTaskErrored, h]
        · exact absurd rfl (h r b hr hk)
    · rfl
  | progress t' => rfl
  | process | start | stop | finished => cases hm

section

variable {cfg} {c : Controller V} {task : Nat} {info : ChainInfo} {b : Bool}

theorem window_modifySm {f : StateMachine → StateMachine} (hf : ∀ sm, (f sm).window = sm.window) :
    (c.modifySm f).sm.map StateMachine.window = c.sm.map StateMachine.window := by
  rw [modifySm_sm, Option.map_map]
  exact congrArg (Option.map · c.sm) (funext hf)

theorem window_genericTaskErrored :
    c.genericTaskErrored.sm.map StateMachine.window = c.sm.map StateMachine.window := by
  unfold genericTaskErrored
  split
  · split
    · exact window_modifySm fun _ => rfl
    · rfl
  · rfl

theorem window_onChainInfoHeight :
    (c.onChainInfoHeight info b).sm.map StateMachine.window = c.sm.map StateMachine.window := by
  simp only [onChainInfoHeight, apply_ite Controller.sm, apply_ite (Option.map StateMachine.window),
    again_sm, setState_sm, halt_sm, modifySm_sm, Option.map_map, Function.comp_def,
    StateMachine.window, ite_self]
  rfl

theorem window_onChainInfoSuccess :
    (c.onChainInfoSuccess task info b).sm.map StateMachine.window =
      c.sm.map StateMachine.window := by
  simp only [onChainInfoSuccess]
  split
  · rfl
  · split_ifs
    · rfl
    · exact window_modifySm fun _ => rfl
    · exact window_onChainInfoHeight (c := { c with storage := { c.storage with chain := info.chain } })
    · exact window_onChainInfoHeight
    · rfl

theorem window_onPutBlock {p : PreProcessedBlock} :
    (c.onPutBlock task p).sm.map StateMachine.window = c.sm.map StateMachine.window := by
  unfold onPutBlock; split <;> (try split_ifs) <;> simp_all [StateMachine.window]

theorem window_onDownloadSuccess {r : TaskRec} :
    (c.onDownloadSuccess task r).sm.map StateMachine.window = c.sm.map StateMachine.window := by
  unfold onDownloadSuccess; split <;> (try split) <;> simp_all [StateMachine.window]

theorem window_onDownloadErrored :
    (c.onDownloadErrored task).sm.map StateMachine.window = c.sm.map StateMachine.window := by
  unfold onDownloadErrored; split <;> (try split_ifs) <;> first | rfl | exact window_genericTaskErrored

/-- A task's callback leaves the round's window alone. -/
theorem window_handle {m : Msg} {t : Nat} (hm : m.task? = some t) :
    (handle cfg c m).sm.map StateMachine.window = c.sm.map StateMachine.window := by
  cases m with
  | putBlock => exact window_onPutBlock
  | success =>
    simp only [handle]
    split
    · split
      · exact window_onDownloadSuccess
      · exact window_onChainInfoSuccess
    · rfl
  | errored =>
    simp only [handle]
    split
    · split
      · exact window_onDownloadErrored
      · exact window_genericTaskErrored
    · rfl
  | progress => rfl
  | process | start | stop | finished => cases hm

/-- The height comparison raises `Fatal()` only when bitcoind reports a height below the
stored tip: `old` is `size() - 1` exactly while `size()` is at most `2^31`. -/
theorem onChainInfoHeight_fatal (hf : c.fatal = false) (hlen : c.storage.headers.length ≤ 2 ^ 31)
    (h : (c.onChainInfoHeight info b).fatal = true) :
    info.blocks + 1 < c.storage.headers.length := by
  simp only [onChainInfoHeight, apply_ite Controller.fatal, again_fatal, setState_fatal, halt_fatal,
    modifySm_fatal, hf, ite_self] at h
  split_ifs at h with h1 h2
  · unfold asInt at h1 h2
    omega

/-- The chain-info `success` handler raises `Fatal()` only on another chain than a stored
one, or on a height below the stored tip. -/
theorem onChainInfoSuccess_fatal (hf : c.fatal = false) (hlen : c.storage.headers.length ≤ 2 ^ 31)
    (h : (c.onChainInfoSuccess task info b).fatal = true) :
    c.storage.chain ≠ "" ∧ info.chain ≠ c.storage.chain ∨
      info.blocks + 1 < c.storage.headers.length := by
  simp only [onChainInfoSuccess] at h
  split at h
  · simp [hf] at h
  · split_ifs at h with h1 h2 h3 h4
    · simp [hf] at h
    · simp [hf] at h
    · exact .inr (onChainInfoHeight_fatal (c := { c with storage := { c.storage with
        chain := info.chain } }) hf hlen h)
    · exact .inr (onChainInfoHeight_fatal hf hlen h)
    · -- `Fatal()`: neither a first chain nor the stored one
      refine .inl ⟨fun e => ?_, fun e => h3 (.inr e.symm)⟩
      by_cases hc : info.chain = ""
      · exact h3 (.inr (e.trans hc.symm))
      · exact h3 (.inl ⟨e, hc⟩)

/-- Of the tasks' callbacks, only a chain-info task's `success` raises `Fatal()`. -/
theorem fatal_handle (hf : c.fatal = false) (hlen : c.storage.headers.length ≤ 2 ^ 31) {m : Msg}
    {t : Nat} (hm : m.task? = some t) (h : (handle cfg c m).fatal = true) :
    ∃ r b, m = .success t ∧ c.procs[t]? = some r ∧ r.kind = .getChainInfo b ∧
      (c.storage.chain ≠ "" ∧ r.info.chain ≠ c.storage.chain ∨
        r.info.blocks + 1 < c.storage.headers.length) := by
  cases m with
  | success t' =>
    cases hm
    simp only [handle] at h
    split at h
    · rename_i r hr
      split at h
      · simp [hf] at h
      · rename_i b hk
        exact ⟨r, b, rfl, hr, hk, onChainInfoSuccess_fatal hf hlen h⟩
    · simp [hf] at h
  | putBlock | progress => simp [handle, hf] at h
  | errored t' =>
    simp only [handle] at h
    split at h
    · split at h <;> simp [hf] at h
    · simp [hf] at h
  | process | start | stop | finished => cases hm

end

/-- In every run, in whatever order the controller's thread takes its messages: when it
takes a task's callback (`putBlock`, `success`, `errored` or `progress`), stale or not, the
stored headers and the round's window (`ppBlkHtNext`, `startheight`, `endHeight`) are left
alone.  `Fatal()` follows only from a chain-info task's `success` whose chain is not the
stored one, or whose height is below the stored tip.  Once the task has stopped and its
`finished` has run, the callback changes nothing, unless it is a chain-info task's
`errored`. -/
theorem task_callback_effects {cfg : Config V} {ok : Controller V → Event → Prop} {c c' : Controller V}
    (h : Reachable cfg ok c) {i t : Nat} {m : Msg} (hm : c.queue[i]? = some m)
    (ht : m.task? = some t) (hs : step cfg c (.handle i) = some c') :
    c'.storage.headers = c.storage.headers ∧
    c'.sm.map StateMachine.window = c.sm.map StateMachine.window ∧
    (c'.fatal = true → ∃ r b, m = .success t ∧ c.procs[t]? = some r ∧ r.kind = .getChainInfo b ∧
      (c.storage.chain ≠ "" ∧ r.info.chain ≠ c.storage.chain ∨
        r.info.blocks + 1 < c.storage.headers.length)) ∧
    (∀ r, c.procs[t]? = some r → r.stopped = true → Msg.finished t ∉ c.queue →
      (∀ b, r.kind = .getChainInfo b → m ≠ .errored t) → c' = c.dequeue i) := by
  obtain ⟨hf, rfl⟩ : c.fatal = false ∧ c' = handle cfg (c.dequeue i) m := by
    cases step_spec hs with
    | handle hf hm' =>
      rw [hm] at hm'
      cases hm'
      exact ⟨hf, rfl⟩
  have hmi := reachable_mapInv h
  refine ⟨congrArg Prod.fst (chainOf_handle (c := c.dequeue i) fun b e => by subst e; cases ht),
    window_handle ht, fatal_handle (c := c.dequeue i) hf (reachable_headersInv h).length_le ht,
    fun r hr hst hfin hk => handle_of_deleted cfg (c.dequeue i) m t ht (.inr ⟨?_, ?_⟩)⟩
  · -- a stopped task whose `finished` has run is out of the map
    simpa [isTaskDeleted] using fun hmem =>
      hfin (hmi.stopped_finishing t hmem (by simp [stoppedFlags, hr, hst]))
  · intro r' b hr' hk'
    rw [dequeue_procs, hr] at hr'
    cases hr'
    exact hk b hk'

/-- A download task of the first round of `earlyFinishRun`, failing once the second round
has begun; the thread takes its `stop` and `finished` first, out of order, and then its
`errored`, which changes nothing. -/
theorem task_callback_effects_after_removal :
    ∃ c c' r, exec sampleConfig (init emptyStorage)
        (earlyFinishRun ++ [.handle 0, .handle 0, .fail 1, .handle 0, .handle 1, .handle 1]) =
        some c ∧
      c.queue[0]? = some (.errored 1) ∧ stale c (.errored 1) = true ∧
      step sampleConfig c (.handle 0) = some c' ∧ c.procs[1]? = some r ∧ r.stopped = true ∧
      Msg.finished 1 ∉ c.queue ∧ c' = c.dequeue 0 ∧ c'.storage.headers = c.storage.headers ∧
      c'.sm.map StateMachine.window = c.sm.map StateMachine.window := by
  refine ⟨_, _, _, rfl, rfl, by decide, rfl, rfl, rfl, by decide, ?_⟩
  have h := task_callback_effects ((Reachable.init loaded_emptyStorage :
      Reachable sampleConfig (fun _ _ => True) _).exec
    (rfl : exec sampleConfig (init emptyStorage)
      (earlyFinishRun ++ [.handle 0, .handle 0, .fail 1, .handle 0, .handle 1, .handle 1]) = some _)
    fun _ _ _ => trivial) (i := 0) (m := .errored 1) rfl rfl rfl
  exact ⟨h.2.2.2 _ rfl rfl (by decide) (fun _ e => by cases e), h.1, h.2.1⟩

/-- Two chain-info tasks in one `Begin` (a reconnect runs `process()` again), the second
replying once the first round downloads; every message runs in the order it was posted.
Block `0` is appended, the stale reply runs `GetBlocks` again from height `1`, and the
first round's task, still registered, and the new one both deliver block `1`.  The new
`ppBlkHtNext` is `2`, but key `1` stays in `ppBlocks`, in front of block `2`, and nothing
is left in the queue. -/
def staleReplyRun : List Event :=
  [.firstGoodConnection, .callProcessTimer, .connectionsLost, .firstGoodConnection,
    .callProcessTimer, .handle 0, .handle 0, .succeed 0 ⟨"main", 3, false⟩, .handle 0, .handle 0,
    .handle 0, .handle 0, .handle 0, .deliver 2 (zeroBlock 0), .handle 0, .handle 0,
    .succeed 1 ⟨"main", 3, false⟩, .handle 0, .handle 0, .handle 0, .handle 0, .handle 0,
    .deliver 2 (zeroBlock 1), .handle 0, .handle 0, .deliver 3 (zeroBlock 1), .handle 0, .handle 0,
    .deliver 3 (zeroBlock 2), .handle 0, .handle 0]

/-- Two runs, every message run in the order it was posted.  `earlyFinishRun` goes on: the
first round ends, the next `process()` makes a new state machine and its chain-info task,
and the first round's download task, still registered, fails; its stale `errored` puts the
new state machine, still in `Begin`, into `Failure`.  And `staleReplyRun` up to the second
chain-info task's reply, which reports the chain `test`: handled while downloading `main`,
it raises `Fatal()`. -/
theorem stale_callbacks_fail_or_halt :
    (∃ c c', Reachable sampleConfig (fun _ e => e.inOrder = true) c ∧
      c.queue[0]? = some (.errored 1) ∧ stale c (.errored 1) = true ∧
      c.sm.map (·.state) = some .begin ∧ step sampleConfig c (.handle 0) = some c' ∧
      c'.sm.map (·.state) = some .failure) ∧
    ∃ c c', Reachable sampleConfig (fun _ e => e.inOrder = true) c ∧
      c.queue[0]? = some (.success 1) ∧ stale c (.success 1) = true ∧ c.fatal = false ∧
      step sampleConfig c (.handle 0) = some c' ∧ c'.fatal = true :=
  ⟨⟨_, _, (Reachable.init loaded_emptyStorage).exec_inOrder
      (rfl : exec sampleConfig (init emptyStorage)
        (earlyFinishRun ++ [.handle 0, .handle 0, .fail 1, .handle 0]) = some _) rfl,
      by decide, by decide, by decide, rfl, by decide⟩,
    ⟨_, _, (Reachable.init loaded_emptyStorage).exec_inOrder
      (rfl : exec sampleConfig (init emptyStorage)
        (staleReplyRun.take 16 ++ [.succeed 1 ⟨"test", 3, false⟩]) = some _) rfl,
      by decide, by decide, rfl, rfl, rfl⟩⟩

end Controller

end Fulcrum
