import Fulcrum.Controller.System

/-!
# Fulcrum.Controller.TaskMap

The controller keeps its tasks in the map `tasks`: `newTask` registers a task, and the
`finished` hook that `CtlTask::on_started` connects calls `rmTask`.  `finished` is posted by
`stop()`, the first time the `success` or `errored` hook calls it.  So in every run,
in whatever order the controller's thread takes its messages, the map holds exactly the
tasks whose thread has not stopped and the stopped ones whose `finished` is still queued
(`task_map_exact`): a running task is never dropped, a stopped one is never kept past its
`finished`, and `rmTask` always finds the task its `finished` names, so its "not found"
error is never logged.

`MapInv` is the run invariant.  Its step lemmas rest on `QuietStep`, the steps that keep
every task's `stopped` flag and the map and post neither a block nor a task's end: every
handler but `process`, `stop()` and `rmTask`.
-/

namespace Fulcrum

/-- A message that brings a block or ends a task: the two whose order matters. -/
def Msg.isBlockOrEnd : Msg → Bool
  | .putBlock .. | .finished _ => true
  | _ => false

namespace Controller

variable {V : Type} {cfg : Config V}

/-! ## Lists of task objects and messages -/

/-- Changing one list entry in a way `f` does not see. -/
theorem map_modify_of_comp {α β : Type} {f : α → β} {g : α → α} (hg : ∀ a, f (g a) = f a) :
    ∀ (l : List α) (k : Nat), (l.modify g k).map f = l.map f
  | [], k => by cases k <;> rfl
  | a :: l, 0 => by simp [hg]
  | a :: l, k + 1 => by simp [map_modify_of_comp hg l k]

section

variable (c : Controller V) (t s : Nat) (g : TaskRec → TaskRec)

theorem getElem?_modifyProc :
    (c.modifyProc t g).procs[s]? = if t = s then c.procs[s]?.map g else c.procs[s]? := by
  by_cases h : t = s <;> simp [h, List.getElem?_modify]

theorem length_modifyProc : (c.modifyProc t g).procs.length = c.procs.length :=
  List.length_modify _ _ _

end

section

variable {c c' : Controller V}

theorem getElem?_modifyProc_of {t s : Nat} {g : TaskRec → TaskRec} {r : TaskRec}
    (h : c.procs[s]? = some r) : (c.modifyProc t g).procs[s]? = some (if t = s then g r else r) := by
  rw [getElem?_modifyProc, h]
  split <;> rfl

/-- What a task object is after one of them changed. -/
theorem getElem?_modifyProc_eq_some {t s : Nat} {g : TaskRec → TaskRec} {r : TaskRec}
    (h : (c.modifyProc t g).procs[s]? = some r) :
    (s = t ∧ ∃ r₀, c.procs[s]? = some r₀ ∧ r = g r₀) ∨ (s ≠ t ∧ c.procs[s]? = some r) := by
  rw [getElem?_modifyProc] at h
  by_cases he : t = s
  · rw [if_pos he] at h
    obtain ⟨r₀, h₀, rfl⟩ := Option.map_eq_some'.1 h
    exact .inl ⟨he.symm, r₀, h₀, rfl⟩
  · rw [if_neg he] at h
    exact .inr ⟨Ne.symm he, h⟩

/-- A message other than the one taken off stays queued. -/
theorem mem_eraseIdx_of_ne {q : List Msg} {i : Nat} {m x : Msg} (hm : q[i]? = some m)
    (hx : x ∈ q) (hne : x ≠ m) : x ∈ q.eraseIdx i := by
  obtain ⟨j, hj⟩ := List.mem_iff_getElem?.1 hx
  refine List.mem_eraseIdx_iff_getElem?.2 ⟨j, fun e => hne ?_, hj⟩
  rw [e, hm] at hj
  exact (Option.some.inj hj).symm

/-- A message taken off the queue at `i`: the rest, with it in front, is the queue
reordered. -/
theorem perm_eraseIdx {α : Type} {q : List α} {i : Nat} {m : α} (h : q[i]? = some m) :
    q.Perm (m :: q.eraseIdx i) := by
  induction q generalizing i with
  | nil => cases h
  | cons a q ih =>
    cases i with
    | zero =>
      rw [List.getElem?_cons_zero, Option.some_inj] at h
      subst h
      exact .refl _
    | succ k =>
      rw [List.getElem?_cons_succ] at h
      exact ((ih h).cons a).trans (.swap m a _)

theorem count_eraseIdx {q : List Msg} {i : Nat} {m : Msg} (h : q[i]? = some m) (x : Msg) :
    q.count x = (q.eraseIdx i).count x + if (m == x) = true then 1 else 0 := by
  rw [(perm_eraseIdx h).count_eq, List.count_cons]

end

/-! ## Steps that keep the tasks' flags and the map -/

/-- Whether each task object has been stopped. -/
def stoppedFlags (c : Controller V) : List Bool := c.procs.map (·.stopped)

/-- A step that keeps the tasks' flags and the task map, and posts neither a block nor a
task's end. -/
structure QuietStep (c c' : Controller V) : Prop where
  flags_eq : stoppedFlags c' = stoppedFlags c
  tasks_eq : c'.tasks = c.tasks
  queue_eq : ∃ l, c'.queue = c.queue ++ l ∧ ∀ m ∈ l, m.isBlockOrEnd = false

section

variable {c c' : Controller V} {sm : StateMachine}

theorem QuietStep.refl (c : Controller V) : QuietStep c c := ⟨rfl, rfl, [], by simp, by simp⟩

theorem QuietStep.trans {c'' : Controller V} (h : QuietStep c c') (h' : QuietStep c' c'') :
    QuietStep c c'' where
  flags_eq := h'.flags_eq.trans h.flags_eq
  tasks_eq := h'.tasks_eq.trans h.tasks_eq
  queue_eq := by
    obtain ⟨l, hq, hl⟩ := h.queue_eq
    obtain ⟨l', hq', hl'⟩ := h'.queue_eq
    exact ⟨l ++ l', by rw [hq', hq, List.append_assoc],
      fun m hm => (List.mem_append.1 hm).elim (hl m) (hl' m)⟩

/-- A change to what the order does not read, and maybe an `AGAIN()`. -/
theorem QuietStep.of_eq (hp : c'.procs = c.procs) (ht : c'.tasks = c.tasks)
    (hq : c'.queue = c.queue ∨ c'.queue = c.queue ++ [.process false]) : QuietStep c c' := by
  refine ⟨by rw [stoppedFlags, hp]; rfl, ht, ?_⟩
  rcases hq with hq | hq
  · exact ⟨[], by simp [hq], by simp⟩
  · exact ⟨_, hq, by simp [Msg.isBlockOrEnd]⟩

theorem QuietStep.post {m : Msg} (hm : m.isBlockOrEnd = false) : QuietStep c (c.post m) :=
  ⟨rfl, rfl, [m], rfl, by simpa using hm⟩

/-- Changing a task's flags other than `stopped`, its counters or its reply. -/
theorem QuietStep.modifyProc {k : Nat} {g : TaskRec → TaskRec}
    (hg : ∀ t, (g t).stopped = t.stopped) : QuietStep c (c.modifyProc k g) :=
  ⟨map_modify_of_comp hg _ _, rfl, [], by simp, by simp⟩

/-- The drain loop posts only `AGAIN()`s, and `FinishedDL` one more. -/
theorem QuietStep.processDownloadingBlocks : QuietStep c (processDownloadingBlocks cfg c) := by
  obtain ⟨hp, ht, -, ⟨l, hq, hl⟩, -⟩ := drain_frame cfg (c.sm.elim 0 (·.ppBlocks.size)) c
  have hr : QuietStep c (drain cfg (c.sm.elim 0 (·.ppBlocks.size)) c).1 :=
    ⟨by rw [stoppedFlags, stoppedFlags, hp], ht, l, hq, fun m hm => by rw [hl m hm]; rfl⟩
  unfold Controller.processDownloadingBlocks
  dsimp only
  split
  · exact hr
  · split
    · split
      · exact hr.trans (.of_eq rfl rfl (.inr rfl))
      · exact hr
    · exact hr

/-! The handlers of the tasks' signals change the state machine only, and post at most an
`AGAIN()`. -/

theorem QuietStep.genericTaskErrored (c : Controller V) : QuietStep c c.genericTaskErrored := by
  unfold Controller.genericTaskErrored
  split
  · split
    · exact .of_eq rfl rfl (.inr rfl)
    · exact .refl c
  · exact .refl c

theorem QuietStep.onPutBlock {task : Nat} {p : PreProcessedBlock} :
    QuietStep c (c.onPutBlock task p) := by
  unfold Controller.onPutBlock
  split
  · exact .refl c
  · split
    · exact .refl c
    · split
      · exact .refl c
      · exact .of_eq rfl rfl (.inr rfl)

theorem QuietStep.onDownloadSuccess {task : Nat} {t : TaskRec} :
    QuietStep c (c.onDownloadSuccess task t) := by
  unfold Controller.onDownloadSuccess
  split
  · exact .refl c
  · split
    · exact .refl c
    · exact .of_eq rfl rfl (.inl rfl)

theorem QuietStep.onDownloadErrored {task : Nat} : QuietStep c (c.onDownloadErrored task) := by
  unfold Controller.onDownloadErrored
  split
  · exact .refl c
  · split
    · exact .refl c
    · split
      · exact .refl c
      · exact .genericTaskErrored c

theorem QuietStep.onChainInfoHeight {info : ChainInfo} {b : Bool} :
    QuietStep c (c.onChainInfoHeight info b) := by
  unfold Controller.onChainInfoHeight
  dsimp only
  split
  · split <;> exact .of_eq rfl rfl (.inr rfl)
  · split
    · exact .of_eq rfl rfl (.inl rfl)
    · exact .of_eq rfl rfl (.inr rfl)

theorem QuietStep.onChainInfoSuccess {task : Nat} {info : ChainInfo} {b : Bool} :
    QuietStep c (c.onChainInfoSuccess task info b) := by
  unfold Controller.onChainInfoSuccess
  dsimp only
  split
  · exact .refl c
  · split
    · exact .refl c
    · split
      · exact .of_eq rfl rfl (.inr rfl)
      · split
        · refine QuietStep.trans ?_ .onChainInfoHeight
          split
          · exact .of_eq rfl rfl (.inl rfl)
          · exact .refl c
        · exact .of_eq rfl rfl (.inl rfl)

/-- The handlers other than `process`, `stop()` and `rmTask` keep the tasks' flags and the
task map, and post at most an `AGAIN()`. -/
theorem QuietStep.handle {m : Msg} (hp : ∀ b, m ≠ .process b) (hs : ∀ t, m ≠ .stop t)
    (hf : ∀ t, m ≠ .finished t) : QuietStep c (handle cfg c m) := by
  cases m with
  | process b => exact absurd rfl (hp b)
  | stop t => exact absurd rfl (hs t)
  | finished t => exact absurd rfl (hf t)
  | putBlock t p => exact .onPutBlock
  | progress task => exact .refl c
  | start task =>
    simp only [Controller.handle]
    split
    · exact .refl c
    · exact .modifyProc fun _ => rfl
  | success task =>
    simp only [Controller.handle]
    split
    · split
      · exact .onDownloadSuccess
      · exact .onChainInfoSuccess
    · exact .refl c
  | errored task =>
    simp only [Controller.handle]
    split
    · split
      · exact .onDownloadErrored
      · exact .genericTaskErrored c
    · exact .refl c

end

/-! ## The task map -/

/-- The task map: no task twice, only tasks made; a task not stopped is in it, and a stopped
one until its `finished`, queued once, runs. -/
structure MapInv (c : Controller V) : Prop where
  nodup : c.tasks.Nodup
  lt : ∀ t ∈ c.tasks, t < c.procs.length
  finished_once : ∀ t, c.queue.count (.finished t) ≤ 1
  finished_stopped : ∀ t, Msg.finished t ∈ c.queue → (stoppedFlags c)[t]? = some true
  finished_live : ∀ t, Msg.finished t ∈ c.queue → t ∈ c.tasks
  running_live : ∀ t, (stoppedFlags c)[t]? = some false → t ∈ c.tasks
  stopped_finishing : ∀ t ∈ c.tasks, (stoppedFlags c)[t]? = some true → Msg.finished t ∈ c.queue

section

variable {c c' : Controller V} {sm : StateMachine}

/-- A task not stopped is registered. -/
theorem MapInv.mem_tasks (hi : MapInv c) {t : Nat} {r : TaskRec} (hr : c.procs[t]? = some r)
    (hs : r.stopped = false) : t ∈ c.tasks :=
  hi.running_live t (by simp [stoppedFlags, hr, hs])

/-- Fresh tasks, not stopped and registered, and messages posted but no `finished`. -/
theorem MapInv.extend (hi : MapInv c) (k : Nat)
    (hp : stoppedFlags c' = stoppedFlags c ++ List.replicate k false)
    (ht : c'.tasks = c.tasks ++ List.range' c.procs.length k)
    (hq : ∃ l, c'.queue = c.queue ++ l ∧ ∀ t, Msg.finished t ∉ l) : MapInv c' := by
  obtain ⟨l, hq, hl⟩ := hq
  have hlen : (stoppedFlags c).length = c.procs.length := List.length_map _ _
  have hlen' : c'.procs.length = c.procs.length + k := by
    simpa [stoppedFlags] using congrArg List.length hp
  refine ⟨?_, fun t h => ?_, fun t => ?_, fun t h => ?_, fun t h => ?_, fun t h => ?_,
    fun t h hs => ?_⟩
  · rw [ht]
    exact hi.nodup.append (List.nodup_range' _ _) fun t h h' => by
      have := hi.lt t h
      have := (List.mem_range'_1.1 h').1
      omega
  · rw [ht] at h
    rcases List.mem_append.1 h with h | h
    · have := hi.lt t h
      omega
    · have := List.mem_range'_1.1 h
      omega
  · rw [hq, List.count_append, List.count_eq_zero.2 (hl t)]
    exact hi.finished_once t
  · rw [hq] at h
    rcases List.mem_append.1 h with h | h
    · have h' := hi.finished_stopped t h
      rwa [hp, List.getElem?_append_left (List.getElem?_eq_some_iff.1 h').1]
    · exact absurd h (hl t)
  · rw [hq] at h
    rw [ht]
    rcases List.mem_append.1 h with h | h
    · exact List.mem_append_left _ (hi.finished_live t h)
    · exact absurd h (hl t)
  · rw [ht]
    rw [hp] at h
    rcases Nat.lt_or_ge t (stoppedFlags c).length with h' | h'
    · rw [List.getElem?_append_left h'] at h
      exact List.mem_append_left _ (hi.running_live t h)
    · rw [List.getElem?_append_right h', List.getElem?_replicate] at h
      split at h
      · exact List.mem_append_right _ (List.mem_range'_1.2 ⟨by omega, by omega⟩)
      · cases h
  · rw [ht] at h
    rw [hq]
    rw [hp] at hs
    rcases List.mem_append.1 h with h | h
    · have hlt := hi.lt t h
      rw [List.getElem?_append_left (by omega)] at hs
      exact List.mem_append_left _ (hi.stopped_finishing t h hs)
    · -- a fresh task's flag is `false`
      have := (List.mem_range'_1.1 h).1
      rw [List.getElem?_append_right (by omega), List.getElem?_replicate] at hs
      split at hs <;> cases hs

/-- A step that keeps the flags and the map, posting no `finished`. -/
theorem MapInv.of_frame (hi : MapInv c) (hp : stoppedFlags c' = stoppedFlags c)
    (ht : c'.tasks = c.tasks) (hq : ∃ l, c'.queue = c.queue ++ l ∧ ∀ t, Msg.finished t ∉ l) :
    MapInv c' :=
  hi.extend 0 (by rw [hp, List.replicate_zero, List.append_nil])
    (by rw [ht, List.range'_zero, List.append_nil]) hq

theorem MapInv.of_quiet (hi : MapInv c) (h : QuietStep c c') : MapInv c' := by
  obtain ⟨l, hq, hl⟩ := h.queue_eq
  exact hi.of_frame h.flags_eq h.tasks_eq ⟨l, hq, fun t ht => by cases hl _ ht⟩

/-- A message other than a `finished` taken off the queue. -/
theorem MapInv.dequeue (hi : MapInv c) {i : Nat} {m : Msg} (hm : c.queue[i]? = some m)
    (hf : ∀ t, m ≠ .finished t) : MapInv (c.dequeue i) where
  nodup := hi.nodup
  lt := hi.lt
  finished_once t := by
    have := count_eraseIdx hm (.finished t)
    have := hi.finished_once t
    rw [dequeue_queue]
    omega
  finished_stopped t h := hi.finished_stopped t (List.mem_of_mem_eraseIdx h)
  finished_live t h := hi.finished_live t (List.mem_of_mem_eraseIdx h)
  running_live := hi.running_live
  stopped_finishing t h hs :=
    mem_eraseIdx_of_ne hm (hi.stopped_finishing t h hs) fun e => hf t e.symm

/-- The `finished` hook: `rmTask` of a stopped task, whose only `finished` is taken off. -/
theorem MapInv.finished (hi : MapInv c) {i t : Nat} (hm : c.queue[i]? = some (.finished t)) :
    MapInv (handle cfg (c.dequeue i) (.finished t)) := by
  have hc := count_eraseIdx hm (.finished t)
  have hrest : Msg.finished t ∉ c.queue.eraseIdx i := fun h => by
    have := List.count_pos_iff.2 h
    have := hi.finished_once t
    simp only [beq_self_eq_true, if_true] at hc
    omega
  refine ⟨hi.nodup.erase t, fun s h => hi.lt s (List.mem_of_mem_erase h), fun s => ?_,
    fun s h => hi.finished_stopped s (List.mem_of_mem_eraseIdx h), fun s h => ?_, fun s h => ?_,
    fun s h hs => ?_⟩
  · have := count_eraseIdx hm (.finished s)
    have := hi.finished_once s
    show (c.queue.eraseIdx i).count _ ≤ 1
    omega
  · exact (hi.nodup.mem_erase_iff).2 ⟨fun e => hrest (e ▸ h),
      hi.finished_live s (List.mem_of_mem_eraseIdx h)⟩
  · refine (hi.nodup.mem_erase_iff).2 ⟨fun e => ?_, hi.running_live s h⟩
    subst e
    have := (hi.finished_stopped s (List.getElem?_mem hm)).symm.trans h
    cases this
  · obtain ⟨hne, h⟩ := (hi.nodup.mem_erase_iff).1 h
    exact mem_eraseIdx_of_ne hm (hi.stopped_finishing s h hs) (by simpa using hne)

/-- The `stop()` hook: a task not yet stopped is stopped and its `finished` posted. -/
theorem MapInv.stop (hi : MapInv c) {task : Nat} : MapInv (handle cfg c (.stop task)) := by
  simp only [Controller.handle]
  split
  · rename_i r hr
    split
    · exact hi
    · rename_i hs
      have hflag : (stoppedFlags c)[task]? = some false := by simp [stoppedFlags, hr, hs]
      -- the flags after: `task`'s is `true`, every other is as before
      have hp : ∀ s, (stoppedFlags { c.modifyProc task ({ · with stopped := true }) with
          queue := c.queue ++ [.finished task] })[s]? =
          if task = s then some true else (stoppedFlags c)[s]? := fun s => by
        simp only [stoppedFlags, List.getElem?_map, getElem?_modifyProc]
        split
        · subst_vars
          simp [hr]
        · rfl
      refine ⟨hi.nodup, fun s h => (length_modifyProc c task _).symm ▸ hi.lt s h,
        fun s => ?_, fun s h => ?_, fun s h => ?_, fun s h => ?_, fun s h h' => ?_⟩
      · -- `task` had no `finished` queued: it was not stopped
        rw [List.count_append, List.count_singleton]
        split
        · rename_i he
          obtain rfl : task = s := by simpa using he
          rw [List.count_eq_zero.2 fun h => by
            have := (hi.finished_stopped task h).symm.trans hflag
            cases this]
        · simpa using hi.finished_once s
      · rw [hp]
        split
        · rfl
        · rcases List.mem_append.1 h with h | h
          · exact hi.finished_stopped s h
          · cases List.mem_singleton.1 h
            contradiction
      · rcases List.mem_append.1 h with h | h
        · exact hi.finished_live s h
        · cases List.mem_singleton.1 h
          exact hi.running_live task hflag
      · rw [hp] at h
        split at h
        · cases h
        · exact hi.running_live s h
      · rw [hp] at h'
        split at h'
        · subst_vars
          exact List.mem_append_right _ (.head _)
        · exact List.mem_append_left _ (hi.stopped_finishing s h h')
  · exact hi

/-- `GetBlocks` adds its tasks, not stopped and registered, and posts their starts. -/
theorem MapInv.getBlocks (hi : MapInv c) (hsm : c.sm = some sm) : MapInv (getBlocks cfg c sm) := by
  obtain ⟨-, -, hp, -, hq, -⟩ := getBlocks_spec cfg c sm hsm
  refine hi.extend _ (by simp [stoppedFlags, hp, TaskRec.make, Function.comp_def, List.map_const'])
    (getBlocks_tasks _ _ _) ⟨_, hq, fun t h => ?_⟩
  obtain ⟨_, -, h⟩ := List.mem_map.1 h
  cases h

/-- `process()` adds tasks, not stopped and registered, and posts their starts. -/
theorem MapInv.process (hi : MapInv c) (b : Bool) : MapInv (process cfg b c) := by
  unfold Controller.process
  dsimp only
  have h0 : MapInv { c with pollTimer := none, sm := some (c.sm.getD .init)
                            epoch := if c.sm.isNone then c.epoch + 1 else c.epoch } :=
    hi.of_quiet (.of_eq rfl rfl (.inl rfl))
  split
  · exact h0.extend 1 (by simp [stoppedFlags, TaskRec.make]) (by simp) ⟨_, rfl, by simp⟩
  · exact h0.getBlocks rfl
  · exact h0.of_quiet .processDownloadingBlocks
  all_goals first
    | exact h0.of_quiet (.of_eq rfl rfl (.inl rfl))
    | exact h0.of_quiet (.of_eq rfl rfl (.inr rfl))

/-- The controller's thread runs any message of the queue. -/
theorem MapInv.handle (hi : MapInv c) {i : Nat} {m : Msg} (hm : c.queue[i]? = some m) :
    MapInv (handle cfg (c.dequeue i) m) := by
  cases m with
  | finished t => exact hi.finished hm
  | process b => exact (hi.dequeue hm nofun).process b
  | stop t => exact (hi.dequeue hm nofun).stop
  | _ =>
    exact (hi.dequeue hm nofun).of_quiet (.handle (fun _ h => by cases h)
      (fun _ h => by cases h) fun _ h => by cases h)

theorem MapInv.init {st : Storage V} : MapInv (init st) :=
  ⟨List.nodup_nil, nofun, fun _ => by simp [Controller.init], fun _ h => (by cases h),
    fun _ h => (by cases h), fun _ h => (by cases h), nofun⟩

/-- Every event keeps `MapInv`, in whatever order the messages run. -/
theorem MapInv.step (hi : MapInv c) {e : Event} (h : step cfg c e = some c') : MapInv c' := by
  cases step_spec h with
  | handle _ hm => exact hi.handle hm
  | @deliver task _ ppb =>
    exact hi.of_frame (map_modify_of_comp (f := TaskRec.stopped) (g := (TaskRec.handOver · ppb))
      (fun _ => rfl) _ _) rfl
      ⟨_, rfl, by simp⟩
  | @progress task => exact hi.of_quiet (.post (m := .progress task) rfl)
  | @succeed task _ info =>
    exact hi.of_quiet (((QuietStep.modifyProc (k := task)
      (g := fun t => { t with succeeded := true, info }) fun _ => rfl).trans
      (.post (m := .success task) rfl)).trans (.post (m := .stop task) rfl))
  | @fail task =>
    exact hi.of_quiet ((QuietStep.post (m := .errored task) rfl).trans
      (.post (m := .stop task) rfl))
  | pollTimer =>
    have h1 : MapInv { c with pollTimer := none } := hi.of_quiet (.of_eq rfl rfl (.inl rfl))
    split
    · exact h1.process true
    · exact h1
  | callProcessTimer =>
    exact (hi.of_quiet (.of_eq rfl rfl (.inl rfl)) : MapInv { c with callProcessTimer := false }).process
      false
  | connectionsLost | firstGoodConnection => exact hi.of_quiet (.of_eq rfl rfl (.inl rfl))

/-- `MapInv` holds in every run. -/
theorem reachable_mapInv {ok : Controller V → Event → Prop} (h : Reachable cfg ok c) :
    MapInv c := by
  induction h with
  | init _ => exact .init
  | step e _ _ hs ih => exact ih.step hs

/-- In every run, in whatever order the controller's thread takes its messages: the task map
holds a task exactly when the task was made and either its thread has not stopped or its
`finished` is still queued.  `rmTask` never drops a running task, and no stopped task stays
in the map once its `finished` has run. -/
theorem task_map_exact {ok : Controller V → Event → Prop} (h : Reachable cfg ok c) (t : Nat) :
    t ∈ c.tasks ↔ ∃ r : TaskRec, c.procs[t]? = some r ∧
      (r.stopped = false ∨ Msg.finished t ∈ c.queue) := by
  have hi := reachable_mapInv h
  have hflag : ∀ r : TaskRec, c.procs[t]? = some r → (stoppedFlags c)[t]? = some r.stopped :=
    fun r hr => by simp [stoppedFlags, hr]
  constructor
  · intro ht
    obtain ⟨r, hr⟩ : ∃ r, c.procs[t]? = some r := ⟨_, List.getElem?_eq_getElem (hi.lt t ht)⟩
    refine ⟨r, hr, ?_⟩
    cases hs : r.stopped
    · exact .inl rfl
    · exact .inr (hi.stopped_finishing t ht (hs ▸ hflag r hr))
  · rintro ⟨r, hr, hs | hf⟩
    · exact hi.running_live t (hs ▸ hflag r hr)
    · exact hi.finished_live t hf

/-- `inOrderRun` up to the `process()` that splits the round: the chain-info task has
stopped with its `finished` still queued, and both download tasks are registered. -/
theorem task_map_exact_in_order :
    ∃ c, exec threeCoreConfig (init emptyStorage) (inOrderRun.take 7) = some c ∧
      c.tasks = [0, 1, 2] ∧ Msg.finished 0 ∈ c.queue ∧
      ∀ t, t ∈ c.tasks ↔ ∃ r : TaskRec, c.procs[t]? = some r ∧
        (r.stopped = false ∨ Msg.finished t ∈ c.queue) :=
  ⟨_, rfl, rfl, by decide, task_map_exact ((Reachable.init loaded_emptyStorage_threeCore :
      Reachable threeCoreConfig (fun _ _ => True) _).exec
    (rfl : exec threeCoreConfig (init emptyStorage) (inOrderRun.take 7) = some _)
    fun _ _ _ => trivial)⟩

end

end Controller

end Fulcrum
