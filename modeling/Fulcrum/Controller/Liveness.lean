import Fulcrum.Controller.Progress

/-!
# Fulcrum.Controller.Liveness

The controller never waits on nothing.  Between its events it waits on one of: a message
queued to its thread, the poll or call-process timer, the hook `waitForBitcoinD` armed for
the first good connection, or a task's thread.  In the runs of
`round_heights_conserved` (the thread runs its messages in the order they were posted and
no stale callback), until a `Fatal()`: with nothing queued and no timer or hook armed, the
state machine is in `Begin` and a chain-info task of its round is running and has not yet
succeeded, or it is in `DownloadingBlocks` and a download task of its round is running and
holds the block at `ppBlkHtNext`.  Either task can act: the reply is accepted, the block
is handed over (`controller_never_stalls`).

The proof is a token argument.  Every state but `Begin` and `DownloadingBlocks` is entered
with `AGAIN()`, and with no state machine a `process` is queued or a timer or the hook is
armed (`IdleInv`).  A task neither started nor stopped has its start queued (`TaskInv`).
A task is stopped only by the `stop()` hook its `success` or `errored` signal posts, right
behind the signal; in order, the signal runs first, and in `Begin` (a chain-info task's
`success` or `errored`) or `DownloadingBlocks` (a download task's `errored`) it moves the
state machine on.  So while the machine stays in one of these two states the tasks it
waits on are not stopped (`BeginInv`, `WaitInv`).
-/

namespace Fulcrum

/-- The states in which the controller waits on its tasks rather than on a queued
`process`. -/
def State.waits : State → Bool
  | .begin | .downloadingBlocks => true
  | _ => false

theorem State.eq_of_waits {s : State} (h : s.waits = true) : s = .begin ∨ s = .downloadingBlocks := by
  cases s <;> first | exact .inl rfl | exact .inr rfl | cases h

theorem TaskKind.eq_getChainInfo {k : TaskKind} (h : k.isDownload = false) :
    ∃ b, k = .getChainInfo b := by
  cases k with
  | downloadBlocks => cases h
  | getChainInfo b => exact ⟨b, rfl⟩

theorem TaskKind.eq_downloadBlocks {k : TaskKind} (h : k.isDownload = true) :
    ∃ f u s, k = .downloadBlocks f u s := by
  cases k with
  | downloadBlocks f u s => exact ⟨f, u, s, rfl⟩
  | getChainInfo => cases h

namespace Controller

variable {V : Type} {cfg : Config V}

/-! ## A `stop` behind its signal -/

/-- Every `stop t` in the queue stands behind a message `p` accepts: the signal whose
`stop()` hook posted it. -/
def Escorted (q : List Msg) (t : Nat) (p : Msg → Prop) : Prop :=
  ∀ i : Nat, q[i]? = some (.stop t) → ∃ j < i, ∃ m, q[j]? = some m ∧ p m

section

variable {q l : List Msg} {t : Nat} {p : Msg → Prop}

/-- A queue with no `stop t` in it. -/
theorem Escorted.of_not_mem (h : Msg.stop t ∉ q) : Escorted q t p :=
  fun _ hi => absurd (List.getElem?_mem hi) h

/-- Messages posted after, none of them a `stop t`. -/
theorem Escorted.append (h : Escorted q t p) (hl : Msg.stop t ∉ l) : Escorted (q ++ l) t p := by
  intro i hi
  rcases Nat.lt_or_ge i q.length with hlt | hge
  · rw [List.getElem?_append_left hlt] at hi
    obtain ⟨j, hj, m, hm, hp⟩ := h i hi
    exact ⟨j, hj, m, by rwa [List.getElem?_append_left (by omega)], hp⟩
  · rw [List.getElem?_append_right hge] at hi
    exact absurd (List.getElem?_mem hi) hl

/-- A signal and the `stop` its hook posts. -/
theorem Escorted.append_pair (h : Escorted q t p) {m : Msg} (hm : m ≠ .stop t) {s : Nat}
    (hp : s = t → p m) : Escorted (q ++ [m, .stop s]) t p := by
  intro i hi
  rcases Nat.lt_or_ge i q.length with hlt | hge
  · rw [List.getElem?_append_left hlt] at hi
    obtain ⟨j, hj, m', hm', hp'⟩ := h i hi
    exact ⟨j, hj, m', by rwa [List.getElem?_append_left (by omega)], hp'⟩
  · rw [List.getElem?_append_right hge] at hi
    rcases hk : i - q.length with _ | _ | k
    · rw [hk] at hi
      exact absurd (Option.some.inj hi) hm
    · rw [hk] at hi
      cases hi
      exact ⟨q.length, by omega, m, by rw [List.getElem?_append_right (Nat.le_refl _), Nat.sub_self]; rfl, hp rfl⟩
    · rw [hk] at hi
      simp at hi

/-- The oldest message taken off the queue, when it is not one that escorts. -/
theorem Escorted.dequeue (h : Escorted q t p) {m : Msg} (h0 : q[0]? = some m) (hm : ¬p m) :
    Escorted (q.eraseIdx 0) t p := by
  cases q with
  | nil => cases h0
  | cons x q =>
    simp only [List.getElem?_cons_zero, Option.some.injEq] at h0
    subst h0
    intro i hi
    obtain ⟨j, hj, m', hm', hp⟩ := h (i + 1) (by simpa using hi)
    cases j with
    | zero =>
      simp only [List.getElem?_cons_zero, Option.some.injEq] at hm'
      exact absurd (hm' ▸ hp) hm
    | succ j => exact ⟨j, by omega, m', by simpa using hm', hp⟩

/-- The oldest message is no `stop t`. -/
theorem Escorted.head (h : Escorted q t p) : q[0]? ≠ some (.stop t) := fun h0 => by
  obtain ⟨j, hj, -⟩ := h 0 h0
  exact Nat.not_lt_zero _ hj

end

/-! ## Steps that leave the tasks alone -/

/-- A step that leaves the task objects and the epoch alone, and posts only `AGAIN()`s. -/
structure PlainStep (c c' : Controller V) : Prop where
  procs_eq : c'.procs = c.procs
  epoch_eq : c'.epoch = c.epoch
  queue_eq : ∃ l, c'.queue = c.queue ++ l ∧ ∀ m ∈ l, m = .process false

section

variable {c c' : Controller V}

theorem PlainStep.refl (c : Controller V) : PlainStep c c := ⟨rfl, rfl, [], by simp, by simp⟩

theorem PlainStep.trans {c'' : Controller V} (h : PlainStep c c') (h' : PlainStep c' c'') :
    PlainStep c c'' where
  procs_eq := h'.procs_eq.trans h.procs_eq
  epoch_eq := h'.epoch_eq.trans h.epoch_eq
  queue_eq := by
    obtain ⟨l, hq, hl⟩ := h.queue_eq
    obtain ⟨l', hq', hl'⟩ := h'.queue_eq
    exact ⟨l ++ l', by rw [hq', hq, List.append_assoc],
      fun m hm => (List.mem_append.1 hm).elim (hl m) (hl' m)⟩

/-- A change to the state machine, the storage or the signals, and maybe an `AGAIN()`. -/
theorem PlainStep.of_eq (hp : c'.procs = c.procs) (he : c'.epoch = c.epoch)
    (hq : c'.queue = c.queue ∨ c'.queue = c.queue ++ [.process false]) : PlainStep c c' := by
  refine ⟨hp, he, ?_⟩
  rcases hq with hq | hq
  · exact ⟨[], by simp [hq], by simp⟩
  · exact ⟨_, hq, fun m hm => List.mem_singleton.1 hm⟩

theorem PlainStep.genericTaskErrored (c : Controller V) : PlainStep c c.genericTaskErrored := by
  unfold Controller.genericTaskErrored
  split
  · split
    · exact .of_eq rfl rfl (.inr rfl)
    · exact .refl c
  · exact .refl c

theorem PlainStep.onPutBlock {task : Nat} {p : PreProcessedBlock} :
    PlainStep c (c.onPutBlock task p) := by
  unfold Controller.onPutBlock
  split
  · exact .refl c
  · split
    · exact .refl c
    · split
      · exact .refl c
      · exact .of_eq rfl rfl (.inr rfl)

theorem PlainStep.onDownloadSuccess {task : Nat} {t : TaskRec} :
    PlainStep c (c.onDownloadSuccess task t) := by
  unfold Controller.onDownloadSuccess
  split
  · exact .refl c
  · split
    · exact .refl c
    · exact .of_eq rfl rfl (.inl rfl)

theorem PlainStep.onDownloadErrored {task : Nat} : PlainStep c (c.onDownloadErrored task) := by
  unfold Controller.onDownloadErrored
  split
  · exact .refl c
  · split
    · exact .refl c
    · split
      · exact .refl c
      · exact .genericTaskErrored c

theorem PlainStep.onChainInfoHeight {info : ChainInfo} {b : Bool} :
    PlainStep c (c.onChainInfoHeight info b) := by
  unfold Controller.onChainInfoHeight
  dsimp only
  split
  · split <;> exact .of_eq rfl rfl (.inr rfl)
  · split
    · exact .of_eq rfl rfl (.inl rfl)
    · exact .of_eq rfl rfl (.inr rfl)

theorem PlainStep.onChainInfoSuccess {task : Nat} {info : ChainInfo} {b : Bool} :
    PlainStep c (c.onChainInfoSuccess task info b) := by
  unfold Controller.onChainInfoSuccess
  dsimp only
  split
  · exact .refl c
  · split
    · exact .refl c
    · split
      · exact .of_eq rfl rfl (.inr rfl)
      · split
        · refine PlainStep.trans ?_ .onChainInfoHeight
          split
          · exact .of_eq rfl rfl (.inl rfl)
          · exact .refl c
        · exact .of_eq rfl rfl (.inl rfl)

/-- The drain loop posts only `AGAIN()`s, and `FinishedDL` one more. -/
theorem PlainStep.processDownloadingBlocks : PlainStep c (processDownloadingBlocks cfg c) := by
  obtain ⟨hp, -, he, ⟨l, hq, hl⟩, -⟩ := drain_frame cfg (c.sm.elim 0 (·.ppBlocks.size)) c
  have hr : PlainStep c (drain cfg (c.sm.elim 0 (·.ppBlocks.size)) c).1 := ⟨hp, he, l, hq, hl⟩
  unfold Controller.processDownloadingBlocks
  dsimp only
  split
  · exact hr
  · split
    · split
      · exact hr.trans (.of_eq rfl rfl (.inr rfl))
      · exact hr
    · exact hr

/-- The handlers of a block, a task's signals and its end. -/
theorem PlainStep.handle {m : Msg} (hp : ∀ b, m ≠ .process b) (hs : ∀ t, m ≠ .start t)
    (ht : ∀ t, m ≠ .stop t) : PlainStep c (handle cfg c m) := by
  cases m with
  | process b => exact absurd rfl (hp b)
  | start t => exact absurd rfl (hs t)
  | stop t => exact absurd rfl (ht t)
  | putBlock t p => exact .onPutBlock
  | progress task => exact .refl c
  | finished task => exact .of_eq rfl rfl (.inl rfl)
  | success task =>
    simp only [Controller.handle]
    split
    · split
      · exact .onDownloadSuccess
      · exact .onChainInfoSuccess
    · exact .refl c
  | errored task =>
    simp only [Controller.handle]
    split
    · split
      · exact .onDownloadErrored
      · exact .genericTaskErrored c
    · exact .refl c

end

/-! ## Tasks and their starts -/

/-- What the task objects and the queue say of each other: a task neither started nor
stopped has its start queued; a task that succeeded, and a chain-info task, holds no
height; a queued `stop` is of a task made. -/
structure TaskInv (c : Controller V) : Prop where
  start_queued : ∀ (t : Nat) (r : TaskRec), c.procs[t]? = some r → r.started = false →
    r.stopped = false → Msg.start t ∈ c.queue
  idle_pending : ∀ (t : Nat) (r : TaskRec), c.procs[t]? = some r → (r.succeeded = true ∨ r.kind.isDownload = false) →
    r.pending = []
  stop_lt : ∀ t : Nat, Msg.stop t ∈ c.queue → t < c.procs.length

section

variable {c c' : Controller V}

/-- Fresh tasks that have not succeeded, their starts posted, and nothing stopped. -/
theorem TaskInv.extend (hi : TaskInv c) (new : List TaskRec) (hp : c'.procs = c.procs ++ new)
    (hnew : ∀ r ∈ new, r.succeeded = false ∧ (r.kind.isDownload = false → r.pending = []))
    {l : List Msg} (hq : c'.queue = c.queue ++ l) (hl : ∀ t, Msg.stop t ∉ l)
    (hs : ∀ k < new.length, Msg.start (c.procs.length + k) ∈ l) : TaskInv c' where
  start_queued t r h h1 h2 := by
    rw [hq]
    rw [hp] at h
    rcases Nat.lt_or_ge t c.procs.length with ht | ht
    · rw [List.getElem?_append_left ht] at h
      exact List.mem_append_left _ (hi.start_queued t r h h1 h2)
    · have hlt := (List.getElem?_eq_some_iff.1 h).1
      rw [List.length_append] at hlt
      have := hs (t - c.procs.length) (by omega)
      rw [Nat.add_sub_cancel' ht] at this
      exact List.mem_append_right _ this
  idle_pending t r h h' := by
    rw [hp] at h
    rcases Nat.lt_or_ge t c.procs.length with ht | ht
    · rw [List.getElem?_append_left ht] at h
      exact hi.idle_pending t r h h'
    · rw [List.getElem?_append_right ht] at h
      obtain ⟨hs, hd⟩ := hnew r (List.getElem?_mem h)
      rcases h' with h' | h'
      · rw [hs] at h'
        cases h'
      · exact hd h'
  stop_lt t h := by
    rw [hq] at h
    rw [hp, List.length_append]
    rcases List.mem_append.1 h with h | h
    · have := hi.stop_lt t h
      omega
    · exact absurd h (hl t)

theorem TaskInv.of_plain (hi : TaskInv c) (h : PlainStep c c') : TaskInv c' := by
  obtain ⟨l, hq, hl⟩ := h.queue_eq
  exact hi.extend [] (by rw [h.procs_eq, List.append_nil]) (by simp) hq
    (fun t ht => by cases hl _ ht) (by simp)

/-- `TaskInv` reads only the task objects and the queue. -/
theorem TaskInv.congr (hi : TaskInv c) (hp : c'.procs = c.procs) (hq : c'.queue = c.queue) :
    TaskInv c' :=
  hi.extend [] (by rw [hp, List.append_nil]) (by simp) (by rw [hq, List.append_nil])
    (fun _ h => by cases h) (by simp)

/-- A message posted that stops only a task made. -/
theorem TaskInv.post (hi : TaskInv c) {m : Msg} (hm : ∀ t, m = .stop t → t < c.procs.length) :
    TaskInv (c.post m) where
  start_queued t r h h1 h2 := List.mem_append_left _ (hi.start_queued t r h h1 h2)
  idle_pending := hi.idle_pending
  stop_lt t h := (List.mem_append.1 h).elim (hi.stop_lt t) fun h => hm t (List.mem_singleton.1 h).symm

/-- A new task and its posted start. -/
theorem TaskInv.newTask (hi : TaskInv c) (kind : TaskKind) : TaskInv (c.newTask kind) :=
  hi.extend [TaskRec.make kind c.epoch] rfl
    (fun r hr => by
      cases List.mem_singleton.1 hr
      refine ⟨rfl, fun h => ?_⟩
      cases kind with
      | downloadBlocks => cases h
      | getChainInfo => rfl)
    rfl (by simp) (by simp)

/-- `GetBlocks`: its tasks and their posted starts. -/
theorem TaskInv.getBlocks (hi : TaskInv c) {sm : StateMachine} (hsm : c.sm = some sm) :
    TaskInv (getBlocks cfg c sm) := by
  obtain ⟨-, -, hp, -, hq, -⟩ := getBlocks_spec cfg c sm hsm
  refine hi.extend _ hp (fun r hr => ?_) hq (fun t ht => ?_) fun k hk => ?_
  · obtain ⟨a, -, rfl⟩ := List.mem_map.1 hr
    exact ⟨rfl, fun h => by cases h⟩
  · obtain ⟨_, -, h⟩ := List.mem_map.1 ht
    cases h
  · rw [List.length_map] at hk
    exact List.mem_map.2 ⟨_, List.mem_range'_1.2 ⟨Nat.le_add_right _ _, by omega⟩, rfl⟩

end

variable {c c' : Controller V}

/-- A message other than a start taken off the queue. -/
theorem TaskInv.dequeue (hi : TaskInv c) {i : Nat} {m : Msg} (hm : c.queue[i]? = some m)
    (hs : ∀ t, m ≠ .start t) : TaskInv (c.dequeue i) where
  start_queued t r h h1 h2 := mem_eraseIdx_of_ne hm (hi.start_queued t r h h1 h2) (hs t).symm
  idle_pending := hi.idle_pending
  stop_lt t h := hi.stop_lt t (List.mem_of_mem_eraseIdx h)

/-- A task object changed in neither flag read, whose heights are gone if it succeeds. -/
theorem TaskInv.modify (hi : TaskInv c) {t : Nat} {g : TaskRec → TaskRec}
    (hg : ∀ r, (g r).started = r.started ∧ (g r).stopped = r.stopped)
    (hp : ∀ r, c.procs[t]? = some r → ((g r).succeeded = true ∨ (g r).kind.isDownload = false) →
      (g r).pending = []) : TaskInv (c.modifyProc t g) where
  start_queued s r h h1 h2 := by
    rcases getElem?_modifyProc_eq_some h with ⟨rfl, r₀, h₀, rfl⟩ | ⟨-, h₀⟩
    · rw [(hg r₀).1] at h1
      rw [(hg r₀).2] at h2
      exact hi.start_queued s r₀ h₀ h1 h2
    · exact hi.start_queued s r h₀ h1 h2
  idle_pending s r h h' := by
    rcases getElem?_modifyProc_eq_some h with ⟨rfl, r₀, h₀, rfl⟩ | ⟨-, h₀⟩
    · exact hp r₀ h₀ h'
    · exact hi.idle_pending s r h₀ h'
  stop_lt s h := by
    rw [length_modifyProc]
    exact hi.stop_lt s h

/-- `process()`: a chain-info task in `Begin`, the download tasks of `GetBlocks`, and
otherwise at most an `AGAIN()`. -/
theorem TaskInv.process (hi : TaskInv c) (b : Bool) : TaskInv (process cfg b c) := by
  unfold Controller.process
  dsimp only
  have h0 : TaskInv { c with pollTimer := none, sm := some (c.sm.getD .init)
                             epoch := if c.sm.isNone then c.epoch + 1 else c.epoch } :=
    hi.congr rfl rfl
  split
  · exact h0.newTask _
  · exact h0.getBlocks rfl
  · exact h0.of_plain .processDownloadingBlocks
  all_goals first
    | exact h0.of_plain (.of_eq rfl rfl (.inl rfl))
    | exact h0.of_plain (.of_eq rfl rfl (.inr rfl))

/-- The start of a task: it is started, unless it was removed, which only a stopped task
is. -/
theorem TaskInv.start (hi : TaskInv c) (hmi : MapInv c) {i t : Nat}
    (hm : c.queue[i]? = some (.start t)) : TaskInv (handle cfg (c.dequeue i) (.start t)) := by
  have hd : ∀ s, s ≠ t → Msg.start s ∈ c.queue → Msg.start s ∈ (c.dequeue i).queue :=
    fun s hs h => mem_eraseIdx_of_ne hm h fun e => hs (Msg.start.inj e)
  have hstop : ∀ s, Msg.stop s ∈ (c.dequeue i).queue → s < c.procs.length :=
    fun s h => hi.stop_lt s (List.mem_of_mem_eraseIdx h)
  simp only [Controller.handle]
  split
  · rename_i hdel
    refine ⟨fun s r h h1 h2 => hd s (fun e => ?_) (hi.start_queued s r h h1 h2),
      hi.idle_pending, hstop⟩
    subst e
    simp [isTaskDeleted, hmi.mem_tasks h h2] at hdel
  · refine ⟨fun s r h h1 h2 => ?_, fun s r h h' => ?_, fun s h => ?_⟩
    · rcases getElem?_modifyProc_eq_some h with ⟨-, r₀, -, rfl⟩ | ⟨hs, h⟩
      · cases h1
      · exact hd s hs (hi.start_queued s r h h1 h2)
    · rcases getElem?_modifyProc_eq_some h with ⟨-, r₀, h₀, rfl⟩ | ⟨-, h₀⟩
      · exact hi.idle_pending s r₀ h₀ h'
      · exact hi.idle_pending s r h₀ h'
    · rw [length_modifyProc]
      exact hstop s h

/-- The `stop()` hook: the task is stopped, and its `finished` posted. -/
theorem TaskInv.stop (hi : TaskInv c) {i t : Nat} (hm : c.queue[i]? = some (.stop t)) :
    TaskInv (handle cfg (c.dequeue i) (.stop t)) := by
  have hd : TaskInv (c.dequeue i) := hi.dequeue hm fun _ h => by cases h
  simp only [Controller.handle]
  split
  · split
    · exact hd
    · refine ⟨fun s r h h1 h2 => ?_, fun s r h h' => ?_, fun s h => ?_⟩
      · rcases getElem?_modifyProc_eq_some h with ⟨-, r₀, -, rfl⟩ | ⟨-, h⟩
        · cases h2
        · exact List.mem_append_left _ (hd.start_queued s r h h1 h2)
      · rcases getElem?_modifyProc_eq_some h with ⟨-, r₀, h₀, rfl⟩ | ⟨-, h₀⟩
        · exact hd.idle_pending s r₀ h₀ h'
        · exact hd.idle_pending s r h₀ h'
      · rw [length_modifyProc]
        rcases List.mem_append.1 h with h | h
        · exact hd.stop_lt s h
        · cases List.mem_singleton.1 h
  · exact hd


/-- The controller's thread runs a message; a start only of a task not stopped, or
removed. -/
theorem TaskInv.handle (hi : TaskInv c) (hmi : MapInv c) {i : Nat} {m : Msg}
    (hm : c.queue[i]? = some m) : TaskInv (handle cfg (c.dequeue i) m) := by
  cases m with
  | process b => exact (hi.dequeue hm fun _ h => by cases h).process b
  | start t => exact hi.start hmi hm
  | stop t => exact hi.stop hm
  | _ =>
    exact (hi.dequeue hm fun _ h => by cases h).of_plain
      (.handle (fun _ h => by cases h) (fun _ h => by cases h) fun _ h => by cases h)

theorem TaskInv.init {st : Storage V} : TaskInv (init st) :=
  ⟨fun _ _ h => (by cases h), fun _ _ h => (by cases h), fun _ h => (by cases h)⟩

/-- A task that can succeed holds nothing: a download task has handed everything over, a
chain-info task never held anything. -/
theorem TaskInv.pending_of_canSucceed (hi : TaskInv c) {t : Nat} {r : TaskRec} {info : ChainInfo}
    (hr : c.procs[t]? = some r) (hs : r.CanSucceed info) : r.pending = [] := by
  simp only [TaskRec.CanSucceed] at hs
  split at hs
  · exact hs.2.2
  · exact hi.idle_pending t r hr (.inr (by simp [TaskKind.isDownload, *]))

/-- Every event keeps `TaskInv`, given `MapInv`. -/
theorem TaskInv.step (hi : TaskInv c) (hmi : MapInv c) {e : Event} (h : step cfg c e = some c') :
    TaskInv c' := by
  cases step_spec h with
  | handle _ hm => exact hi.handle hmi hm
  | @deliver task _ ppb _ ht hd =>
    refine (hi.modify (t := task) (g := (TaskRec.handOver · ppb)) (fun _ => ⟨rfl, rfl⟩)
      fun r hr h' => ?_).post (m := .putBlock task ppb)
      fun _ h => by cases h
    simp only [TaskRec.handOver] at h' ⊢
    rw [hi.idle_pending task r hr h']
    rfl
  | @progress task => exact hi.post (m := .progress task) fun _ h => by cases h
  | @succeed task t info _ ht hs =>
    have hlt : task < c.procs.length := (List.getElem?_eq_some_iff.1 ht).1
    refine ((hi.modify (t := task) (g := fun t => { t with succeeded := true, info })
      (fun _ => ⟨rfl, rfl⟩) fun r hr _ => ?_).post (m := .success task)
      fun _ h => by cases h).post fun _ h => ?_
    · cases ht.symm.trans hr
      exact (hi.pending_of_canSucceed ht hs : t.pending = [])
    · cases h
      simpa [length_modifyProc] using hlt
  | @fail task _ _ ht _ =>
    have hlt : task < c.procs.length := (List.getElem?_eq_some_iff.1 ht).1
    exact (hi.post (m := .errored task) fun _ h => by cases h).post fun _ h => by
      cases h
      simpa using hlt
  | pollTimer =>
    split
    · exact (hi.congr rfl rfl).process true
    · exact hi.congr rfl rfl
  | callProcessTimer =>
    exact (hi.congr rfl rfl : TaskInv { c with callProcessTimer := false }).process false
  | connectionsLost | firstGoodConnection => exact hi.congr rfl rfl

/-- `TaskInv` holds in every run. -/
theorem reachable_taskInv {ok : Controller V → Event → Prop} (h : Reachable cfg ok c) :
    TaskInv c := by
  induction h with
  | init _ => exact .init
  | step e hr hok hs ih => exact ih.step (reachable_mapInv hr) hs

/-- A task that still holds heights is a download task. -/
theorem TaskInv.isDownload_of_pending (ht : TaskInv c) {t : Nat} {r : TaskRec}
    (hr : c.procs[t]? = some r) (hp : r.pending ≠ []) : r.kind.isDownload = true := by
  cases hk : r.kind.isDownload
  · exact absurd (ht.idle_pending t r hr (.inr hk)) hp
  · rfl

/-! ## Every state but `Begin` and `DownloadingBlocks` has a `process` queued -/

/-- A step that keeps the queue, the timers and the hook, and enters a state other than
`Begin` and `DownloadingBlocks` only with an `AGAIN()`. -/
structure IdleStep (c c' : Controller V) : Prop where
  queue_sub : c.queue ⊆ c'.queue
  pollTimer_eq : c'.pollTimer = c.pollTimer
  callProcessTimer_eq : c'.callProcessTimer = c.callProcessTimer
  connectionHook_eq : c'.connectionHook = c.connectionHook
  fatal_of : c'.fatal = false → c.fatal = false
  sm_none : c'.fatal = false → c'.sm = none → c.sm = none
  enters : c'.fatal = false → ∀ sm', c'.sm = some sm' → sm'.state.waits = false →
    Msg.process false ∈ c'.queue ∨ ∃ sm, c.sm = some sm ∧ sm.state.waits = false
  waits_of : c'.fatal = false → ∀ sm', c'.sm = some sm' → sm'.state.waits = true →
    ∃ sm, c.sm = some sm ∧ sm.state = sm'.state

section

variable {c c' : Controller V}

theorem IdleStep.refl (c : Controller V) : IdleStep c c :=
  ⟨fun _ h => h, rfl, rfl, rfl, id, fun _ => id, fun _ sm h hs => .inr ⟨sm, h, hs⟩,
    fun _ sm h _ => ⟨sm, h, rfl⟩⟩

theorem IdleStep.trans {c'' : Controller V} (h : IdleStep c c') (h' : IdleStep c' c'') :
    IdleStep c c'' where
  queue_sub := fun _ hm => h'.queue_sub (h.queue_sub hm)
  pollTimer_eq := h'.pollTimer_eq.trans h.pollTimer_eq
  callProcessTimer_eq := h'.callProcessTimer_eq.trans h.callProcessTimer_eq
  connectionHook_eq := h'.connectionHook_eq.trans h.connectionHook_eq
  fatal_of := h.fatal_of ∘ h'.fatal_of
  sm_none := fun hf hn => h.sm_none (h'.fatal_of hf) (h'.sm_none hf hn)
  enters := fun hf sm'' hsm hs => by
    rcases h'.enters hf sm'' hsm hs with hp | ⟨sm', hsm', hs'⟩
    · exact .inl hp
    · rcases h.enters (h'.fatal_of hf) sm' hsm' hs' with hp | hold
      · exact .inl (h'.queue_sub hp)
      · exact .inr hold
  waits_of := fun hf sm'' hsm hw => by
    obtain ⟨sm', hsm', he⟩ := h'.waits_of hf sm'' hsm hw
    obtain ⟨sm, hsm, he'⟩ := h.waits_of (h'.fatal_of hf) sm' hsm' (he ▸ hw)
    exact ⟨sm, hsm, he'.trans he⟩

/-- A step that keeps the state, the timers and the hook, and maybe posts. -/
theorem IdleStep.of_state (hq : c.queue ⊆ c'.queue) (hp : c'.pollTimer = c.pollTimer)
    (hc : c'.callProcessTimer = c.callProcessTimer) (hh : c'.connectionHook = c.connectionHook)
    (hf : c'.fatal = false → c.fatal = false) (hs : c'.sm.map (·.state) = c.sm.map (·.state)) :
    IdleStep c c' := by
  refine ⟨hq, hp, hc, hh, hf, fun _ hn => ?_, fun _ sm' hsm hw => .inr ?_, fun _ sm' hsm _ => ?_⟩
  · rw [hn] at hs
    exact Option.map_eq_none'.1 hs.symm
  · rw [hsm] at hs
    obtain ⟨sm, h, he⟩ := Option.map_eq_some'.1 hs.symm
    exact ⟨sm, h, he ▸ hw⟩
  · rw [hsm] at hs
    obtain ⟨sm, h, he⟩ := Option.map_eq_some'.1 hs.symm
    exact ⟨sm, h, he⟩

theorem IdleStep.again (c : Controller V) : IdleStep c c.again :=
  .of_state (fun _ h => List.mem_append_left _ h) rfl rfl rfl id rfl

theorem IdleStep.halt (c : Controller V) : IdleStep c c.halt :=
  .of_state (fun _ h => h) rfl rfl rfl (fun h => by cases h) rfl

theorem IdleStep.post (c : Controller V) (m : Msg) : IdleStep c (c.post m) :=
  .of_state (fun _ h => List.mem_append_left _ h) rfl rfl rfl id rfl

theorem IdleStep.modifyProc (c : Controller V) (t : Nat) (g : TaskRec → TaskRec) :
    IdleStep c (c.modifyProc t g) :=
  .of_state (fun _ h => h) rfl rfl rfl id rfl

/-- A change to a state that waits on no task, with its `AGAIN()`. -/
theorem IdleStep.setState_again (c : Controller V) {s : State} (hs : s.waits = false) :
    IdleStep c (c.setState s).again := by
  refine ⟨fun _ h => List.mem_append_left _ h, rfl, rfl, rfl, id, fun _ hn => ?_,
    fun _ _ _ _ => .inl (List.mem_append_right _ (.head _)), fun _ sm' h hw => ?_⟩
  · simpa [setState] using hn
  · obtain ⟨_, -, rfl⟩ := Option.map_eq_some'.1 h
    rw [hs] at hw
    cases hw

/-- The state machine changed in what keeps its state. -/
theorem IdleStep.modifySm (c : Controller V) {f : StateMachine → StateMachine}
    (hf : ∀ sm, (f sm).state = sm.state) : IdleStep c (c.modifySm f) :=
  .of_state (fun _ h => h) rfl rfl rfl id (by simp [modifySm, Option.map_map, Function.comp_def, hf])

theorem IdleStep.genericTaskErrored (c : Controller V) : IdleStep c c.genericTaskErrored := by
  unfold Controller.genericTaskErrored
  split
  · split
    · exact .setState_again c rfl
    · exact .refl c
  · exact .refl c

theorem IdleStep.onPutBlock {task : Nat} {p : PreProcessedBlock} :
    IdleStep c (c.onPutBlock task p) := by
  unfold Controller.onPutBlock
  split
  · exact .refl c
  · rename_i sm hsm
    split
    · exact .refl c
    · split
      · exact .refl c
      · refine IdleStep.trans ?_ (.again _)
        exact .of_state (fun _ h => h) rfl rfl rfl id (by simp [hsm])

theorem IdleStep.onDownloadSuccess {task : Nat} {t : TaskRec} :
    IdleStep c (c.onDownloadSuccess task t) := by
  unfold Controller.onDownloadSuccess
  split
  · exact .refl c
  · rename_i sm hsm
    split
    · exact .refl c
    · exact .of_state (fun _ h => h) rfl rfl rfl id (by simp [hsm])

theorem IdleStep.onDownloadErrored {task : Nat} : IdleStep c (c.onDownloadErrored task) := by
  unfold Controller.onDownloadErrored
  split
  · exact .refl c
  · split
    · exact .refl c
    · split
      · exact .refl c
      · exact .genericTaskErrored c

theorem IdleStep.onChainInfoHeight {info : ChainInfo} {b : Bool} :
    IdleStep c (c.onChainInfoHeight info b) := by
  have hm := IdleStep.modifySm c (f := ({ · with ht := info.blocks })) fun _ => rfl
  unfold Controller.onChainInfoHeight
  dsimp only
  have hs : ∀ c₀ : Controller V, IdleStep c₀ { c₀ with signals := c₀.signals ++ [.upToDate] } ∧
      IdleStep c₀ { c₀ with signals := c₀.signals ++ [.synchronizing] } :=
    fun _ => ⟨.of_state (fun _ h => h) rfl rfl rfl id rfl, .of_state (fun _ h => h) rfl rfl rfl id rfl⟩
  split
  · split
    · exact hm.trans (.setState_again _ rfl)
    · exact (hm.trans (hs _).1).trans (.setState_again _ rfl)
  · split
    · exact hm.trans (.halt _)
    · exact (hm.trans (hs _).2).trans (.setState_again _ rfl)

theorem IdleStep.onChainInfoSuccess {task : Nat} {info : ChainInfo} {b : Bool} :
    IdleStep c (c.onChainInfoSuccess task info b) := by
  unfold Controller.onChainInfoSuccess
  dsimp only
  split
  · exact .refl c
  · split
    · exact .refl c
    · split
      · exact .setState_again c rfl
      · split
        · refine IdleStep.trans ?_ .onChainInfoHeight
          split
          · exact .of_state (fun _ h => h) rfl rfl rfl id rfl
          · exact .refl c
        · exact .halt c

/-- One block verified and appended: the state is kept, or it is `Failure` with an
`AGAIN()`. -/
theorem IdleStep.verifyAndAddBlock {ppb : PreProcessedBlock} :
    IdleStep c (verifyAndAddBlock cfg c ppb).1 := by
  cases hv : (cfg.verifier.verify c.storage.verifier ppb.header).1
  · rw [verifyAndAddBlock_of_reject cfg hv]
    exact .setState_again c rfl
  · simp only [Controller.verifyAndAddBlock, hv, Bool.true_eq_false, if_false]
    split <;> split <;>
      exact .of_state (fun _ h => h) rfl rfl rfl (by simp [halt]) rfl

theorem IdleStep.popFront {sm : StateMachine} {ppb : PreProcessedBlock} (hsm : c.sm = some sm) :
    IdleStep c (c.popFront sm ppb) := by
  unfold Controller.popFront
  split
  · exact .of_state (fun _ h => h) rfl rfl rfl id (by simp [hsm])
  · exact (IdleStep.halt c).trans (.of_state (fun _ h => h) rfl rfl rfl id (by simp [hsm]))

theorem IdleStep.drain (fuel : Nat) : ∀ c : Controller V, IdleStep c (drain cfg fuel c).1 := by
  induction fuel with
  | zero => exact .refl
  | succ fuel ih =>
    intro c
    unfold Controller.drain
    split
    · exact .refl c
    · rename_i sm hsm
      split
      · exact .refl c
      · rename_i k ppb hf
        split
        · dsimp only
          have hr : IdleStep c (Controller.verifyAndAddBlock cfg (c.popFront sm ppb) ppb).1 :=
            (IdleStep.popFront hsm).trans .verifyAndAddBlock
          split
          · exact hr
          · exact hr.trans (ih _)
        · exact .refl c

theorem IdleStep.processDownloadingBlocks : IdleStep c (processDownloadingBlocks cfg c) := by
  have hr : IdleStep c (Controller.drain cfg (c.sm.elim 0 (·.ppBlocks.size)) c).1 :=
    IdleStep.drain _ c
  unfold Controller.processDownloadingBlocks
  dsimp only
  split
  · exact hr
  · split
    · split
      · exact hr.trans (.setState_again _ rfl)
      · exact hr
    · exact hr

end

/-- With no state machine, a `process` is queued, or a timer or the connection hook is
armed; in every state but `Begin` and `DownloadingBlocks`, a `process` is queued. -/
def IdleInv (c : Controller V) : Prop :=
  c.fatal = false →
    (c.sm = none → Msg.process false ∈ c.queue ∨ c.pollTimer.isSome = true ∨
      c.callProcessTimer = true ∨ c.connectionHook = true) ∧
    ∀ sm, c.sm = some sm → sm.state.waits = false → Msg.process false ∈ c.queue

section

variable {c c' : Controller V}

theorem IdleInv.of_step (hi : IdleInv c) (h : IdleStep c c') : IdleInv c' := by
  intro hf
  obtain ⟨hn, hs⟩ := hi (h.fatal_of hf)
  refine ⟨fun hn' => ?_, fun sm' hsm' hw => ?_⟩
  · rw [h.pollTimer_eq, h.callProcessTimer_eq, h.connectionHook_eq]
    exact (hn (h.sm_none hf hn')).imp_left fun hp => h.queue_sub hp
  · rcases h.enters hf sm' hsm' hw with hp | ⟨sm, hsm, hw'⟩
    · exact hp
    · exact h.queue_sub (hs sm hsm hw')

/-- `GetBlocks` leaves the state machine downloading. -/
theorem IdleInv.getBlocks {sm : StateMachine} (hsm : c.sm = some sm) :
    IdleInv (getBlocks cfg c sm) := fun _ => by
  obtain ⟨-, h, -⟩ := getBlocks_spec cfg c sm hsm
  rw [h]
  exact ⟨nofun, fun _ h' hw => by cases h'; cases hw⟩

/-- `process_DownloadingBlocks` on a state machine downloading: it goes on downloading, or
leaves with an `AGAIN()`. -/
theorem IdleInv.processDownloadingBlocks {sm : StateMachine} (hsm : c.sm = some sm)
    (hs : sm.state = .downloadingBlocks) : IdleInv (processDownloadingBlocks cfg c) := by
  intro hf
  have h : IdleStep c (Controller.processDownloadingBlocks cfg c) := .processDownloadingBlocks
  refine ⟨fun hn => (by rw [h.sm_none hf hn] at hsm; cases hsm), fun sm' hsm' hw => ?_⟩
  rcases h.enters hf sm' hsm' hw with hp | ⟨sm₀, hsm₀, hw'⟩
  · exact hp
  · rw [hsm] at hsm₀
    cases hsm₀
    rw [hs] at hw'
    cases hw'

/-- `process()` leaves a state machine that waits on its tasks, or none with its poll timer
armed or a `process` queued, whatever came before. -/
theorem IdleInv.process (c : Controller V) (b : Bool) : IdleInv (process cfg b c) := by
  unfold Controller.process
  dsimp only
  split
  · exact fun _ => ⟨nofun, fun sm h hw => by cases h; simp_all [State.waits]⟩
  · exact .getBlocks rfl
  · exact .processDownloadingBlocks rfl ‹_›
  · exact fun _ => ⟨fun _ => .inl (List.mem_append_right _ (.head _)), fun _ h => by cases h⟩
  all_goals exact fun _ => ⟨fun _ => .inr (.inl rfl), fun _ h => by cases h⟩

/-- A message other than a `process` taken off the queue. -/
theorem IdleInv.dequeue (hi : IdleInv c) {i : Nat} {m : Msg} (hm : c.queue[i]? = some m)
    (hp : ∀ b, m ≠ .process b) : IdleInv (c.dequeue i) := fun hf => by
  obtain ⟨hn, hs⟩ := hi hf
  have hq : Msg.process false ∈ c.queue → Msg.process false ∈ (c.dequeue i).queue :=
    fun h => mem_eraseIdx_of_ne hm h (hp false).symm
  exact ⟨fun h => (hn h).imp_left hq, fun sm h hw => hq (hs sm h hw)⟩

theorem IdleStep.handle {m : Msg} (hp : ∀ b, m ≠ .process b) : IdleStep c (handle cfg c m) := by
  cases m with
  | process b => exact absurd rfl (hp b)
  | putBlock t p => exact .onPutBlock
  | progress task => exact .refl c
  | finished task => exact .of_state (fun _ h => h) rfl rfl rfl id rfl
  | start task =>
    simp only [Controller.handle]
    split
    · exact .refl c
    · exact .modifyProc c _ _
  | stop task =>
    simp only [Controller.handle]
    split
    · split
      · exact .refl c
      · exact (IdleStep.modifyProc c _ _).trans (.post _ _)
    · exact .refl c
  | success task =>
    simp only [Controller.handle]
    split
    · split
      · exact .onDownloadSuccess
      · exact .onChainInfoSuccess
    · exact .refl c
  | errored task =>
    simp only [Controller.handle]
    split
    · split
      · exact .onDownloadErrored
      · exact .genericTaskErrored c
    · exact .refl c

theorem IdleInv.init {st : Storage V} : IdleInv (init st) :=
  fun _ => ⟨fun _ => .inr (.inr (.inr rfl)), fun _ h => by cases h⟩

/-- Every event keeps `IdleInv`, in any order and with stale callbacks. -/
theorem IdleInv.step (hi : IdleInv c) {e : Event} (h : step cfg c e = some c') : IdleInv c' := by
  cases step_spec h with
  | @handle i m _ hm =>
    cases m with
    | process b => exact .process _ b
    | _ => exact (hi.dequeue hm fun _ h => by cases h).of_step (.handle fun _ h => by cases h)
  | deliver => exact hi.of_step ((IdleStep.modifyProc c _ _).trans (.post _ _))
  | progress => exact hi.of_step (.post c _)
  | succeed => exact hi.of_step (((IdleStep.modifyProc c _ _).trans (.post _ _)).trans (.post _ _))
  | fail => exact hi.of_step ((IdleStep.post c _).trans (.post _ _))
  | pollTimer =>
    split
    · exact .process _ true
    · rename_i hn
      intro hf
      obtain ⟨-, hs⟩ := hi hf
      exact ⟨fun h => absurd (by simpa using h) hn, hs⟩
  | callProcessTimer => exact .process _ false
  | connectionsLost =>
    intro hf
    exact ⟨fun _ => .inr (.inr (.inr rfl)), (hi hf).2⟩
  | firstGoodConnection =>
    intro hf
    exact ⟨fun _ => .inr (.inr (.inl rfl)), (hi hf).2⟩

/-- `IdleInv` holds in every run. -/
theorem reachable_idleInv {ok : Controller V → Event → Prop} (h : Reachable cfg ok c) :
    IdleInv c := by
  induction h with
  | init _ => exact .init
  | step e _ _ hs ih => exact ih.step hs

end

/-! ## A failed task moves the state machine on -/

section

variable {c : Controller V} {sm : StateMachine}

theorem genericTaskErrored_sm (hsm : c.sm = some sm) (hs : sm.state ≠ .failure) :
    c.genericTaskErrored.sm = some { sm with state := .failure } := by
  simp [genericTaskErrored, hsm, hs, setState]

/-- The `errored` handler of a registered download task, before `Failure`. -/
theorem onDownloadErrored_sm (hsm : c.sm = some sm) (hs : sm.state ≠ .failure) {task : Nat}
    (ht : task ∈ c.tasks) : (c.onDownloadErrored task).sm = some { sm with state := .failure } := by
  have hd : c.isTaskDeleted task = false := by simp [isTaskDeleted, ht]
  simp only [onDownloadErrored, hsm, hd, Bool.false_eq_true, if_false, hs]
  exact genericTaskErrored_sm hsm hs

/-- The end of a chain-info task's `success` handler: `End`, `GetBlocks` or a `Fatal()`. -/
theorem onChainInfoHeight_not_begin {info : ChainInfo} {b : Bool}
    (hf : (c.onChainInfoHeight info b).fatal = false) {sm' : StateMachine}
    (h : (c.onChainInfoHeight info b).sm = some sm') : sm'.state ≠ .begin := by
  unfold onChainInfoHeight at hf h
  dsimp only at hf h
  generalize asInt (asInt c.storage.headers.length - 1) = old at hf h
  by_cases h1 : old = info.blocks
  · rw [if_pos h1] at h
    obtain ⟨_, -, rfl⟩ := Option.map_eq_some'.1 h
    exact nofun
  · rw [if_neg h1] at hf h
    by_cases h2 : info.blocks < old
    · rw [if_pos h2] at hf
      simp [halt] at hf
    · rw [if_neg h2] at h
      obtain ⟨_, -, rfl⟩ := Option.map_eq_some'.1 h
      exact nofun

/-- The `success` handler of a registered chain-info task: `IBD`, `End`, `GetBlocks` or a
`Fatal()`. -/
theorem onChainInfoSuccess_not_begin (hsm : c.sm = some sm) {task : Nat} (ht : task ∈ c.tasks)
    {info : ChainInfo} {b : Bool} (hf : (c.onChainInfoSuccess task info b).fatal = false)
    {sm' : StateMachine} (h : (c.onChainInfoSuccess task info b).sm = some sm') :
    sm'.state ≠ .begin := by
  have hd : c.isTaskDeleted task = false := by simp [isTaskDeleted, ht]
  simp only [onChainInfoSuccess, hsm, hd, Bool.false_eq_true, if_false] at hf h
  split_ifs at hf h
  · obtain ⟨_, -, rfl⟩ := Option.map_eq_some'.1 h
    exact nofun
  · exact onChainInfoHeight_not_begin hf h
  · exact onChainInfoHeight_not_begin hf h
  · cases hf

end

/-! ## The download tasks a round waits on are running -/

/-- While downloading, a task of the round that still holds heights was never stopped, and
each of its `stop`s queued stands behind its `errored`. -/
def WaitInv (c : Controller V) : Prop :=
  c.fatal = false → ∀ sm, c.sm = some sm → sm.state = .downloadingBlocks →
    ∀ (t : Nat) (r : TaskRec), c.procs[t]? = some r → r.epoch = c.epoch → r.pending ≠ [] →
      r.stopped = false ∧ Escorted c.queue t (· = .errored t)

section

variable {c c' : Controller V}

/-- `WaitInv` from what a step keeps: it stays downloading only if it was, a task of the
round holding heights after held some before, under the same flag, and the `stop`s of
such a task keep their `errored`. -/
theorem WaitInv.mono (hi : WaitInv c)
    (hdl : c'.fatal = false → ∀ sm', c'.sm = some sm' → sm'.state = .downloadingBlocks →
      c.fatal = false ∧ ∃ sm, c.sm = some sm ∧ sm.state = .downloadingBlocks)
    (htask : ∀ (t : Nat) (r' : TaskRec), c'.procs[t]? = some r' → r'.epoch = c'.epoch →
      r'.pending ≠ [] →
      ∃ r : TaskRec, c.procs[t]? = some r ∧ r.epoch = c.epoch ∧ r.pending ≠ [] ∧ r'.stopped = r.stopped)
    (hq : ∀ (t : Nat) (r : TaskRec), c.procs[t]? = some r → r.epoch = c.epoch → r.pending ≠ [] →
      Escorted c.queue t (· = .errored t) → Escorted c'.queue t (· = .errored t)) : WaitInv c' := by
  intro hf sm' hsm' hs' t r' hr' he' hp'
  obtain ⟨hf0, sm, hsm, hs⟩ := hdl hf sm' hsm' hs'
  obtain ⟨r, hr, he, hp, hst⟩ := htask t r' hr' he' hp'
  obtain ⟨h1, h2⟩ := hi hf0 sm hsm hs t r hr he hp
  exact ⟨hst.trans h1, hq t r hr he hp h2⟩

/-- A step of the handlers that keep the task objects: the queue only grows by
`AGAIN()`s. -/
theorem WaitInv.of_plain (hi : WaitInv c) (hp : PlainStep c c') (hs : IdleStep c c') :
    WaitInv c' := by
  obtain ⟨l, hq, hl⟩ := hp.queue_eq
  refine hi.mono (fun hf sm' hsm' hdl => ?_) (fun t r' hr' he' hp' => ?_)
    fun _ _ _ _ _ h => ?_
  · obtain ⟨sm, hsm, he⟩ := hs.waits_of hf sm' hsm' (by rw [hdl]; rfl)
    exact ⟨hs.fatal_of hf, sm, hsm, he.trans hdl⟩
  · rw [hp.procs_eq] at hr'
    exact ⟨r', hr', hp.epoch_eq ▸ he', hp', rfl⟩
  · rw [hq]
    exact h.append fun h' => by cases hl _ h'

/-- The head of the queue taken off, unless it is the `errored` of a task the round waits
on. -/
theorem WaitInv.dequeue (hi : WaitInv c) {m : Msg} (hm : c.queue[0]? = some m)
    (he : ∀ t r, m = .errored t → c.fatal = false →
      (∃ sm, c.sm = some sm ∧ sm.state = .downloadingBlocks) → c.procs[t]? = some r →
      r.epoch = c.epoch → r.pending = []) : WaitInv (c.dequeue 0) := by
  intro hf sm hsm hs t r hr he' hp
  obtain ⟨h1, h2⟩ := hi hf sm hsm hs t r hr he' hp
  exact ⟨h1, h2.dequeue hm fun e => hp (he t r e hf ⟨sm, hsm, hs⟩ hr he')⟩

theorem WaitInv.of_not_downloading
    (h : c.fatal = false → ∀ sm, c.sm = some sm → sm.state ≠ .downloadingBlocks) : WaitInv c :=
  fun hf sm hsm hs => absurd hs (h hf sm hsm)

/-- `GetBlocks` makes fresh tasks, not stopped and with nothing queued to stop them, and the
round has none with heights before. -/
theorem WaitInv.getBlocks (hr : ReassemblyInv c) (ht : TaskInv c) {sm : StateMachine}
    (hsm : c.sm = some sm) (hgb : sm.state = .getBlocks) : WaitInv (getBlocks cfg c sm) := by
  intro hf _ _ _ t r hrt he hp
  obtain ⟨-, -, hp', he', hq', hf'⟩ := getBlocks_spec cfg c sm hsm
  rw [hp'] at hrt
  rw [he'] at he
  rcases Nat.lt_or_ge t c.procs.length with hlt | hge
  · -- the round's tasks before `GetBlocks` hold nothing
    rw [List.getElem?_append_left hlt] at hrt
    have hq0 := (hr.round_ok (hf'.1 hf).1 sm hsm).quiet (.inr hgb)
    simp only [tokens, inFlight, List.append_eq_nil] at hq0
    have := List.flatMap_eq_nil_iff.1 hq0.2.2 r (List.getElem?_mem hrt)
    rw [if_pos he] at this
    exact absurd this hp
  · -- a fresh task: not stopped, and no `stop` of it queued
    rw [List.getElem?_append_right hge] at hrt
    obtain ⟨a, -, rfl⟩ := List.mem_map.1 (List.getElem?_mem hrt)
    refine ⟨rfl, .of_not_mem fun h => ?_⟩
    rw [hq'] at h
    rcases List.mem_append.1 h with h | h
    · have := ht.stop_lt t h
      omega
    · obtain ⟨_, -, h⟩ := List.mem_map.1 h
      cases h

/-- `WaitInv` reads `fatal`, the state machine, the task objects, the queue and the
epoch. -/
theorem WaitInv.congr (hi : WaitInv c) (hf : c'.fatal = c.fatal) (hsm : c'.sm = c.sm)
    (hp : c'.procs = c.procs) (hq : c'.queue = c.queue) (he : c'.epoch = c.epoch) : WaitInv c' :=
  hi.mono (fun h sm h' hs => ⟨hf ▸ h, sm, hsm ▸ h', hs⟩)
    (fun _ r h h' hp' => ⟨r, hp ▸ h, he ▸ h', hp', rfl⟩) fun _ _ _ _ _ h => hq ▸ h

/-- The start of `process()` on a state machine: nothing `WaitInv` reads changes. -/
theorem WaitInv.refresh (hi : WaitInv c) {sm : StateMachine} (hsm : c.sm = some sm) :
    WaitInv { c with pollTimer := none, sm := some (c.sm.getD .init)
                     epoch := if c.sm.isNone then c.epoch + 1 else c.epoch } :=
  hi.congr rfl (by simp [hsm]) rfl rfl (by simp [hsm])

/-- `process()`: a round waits on download tasks only once `GetBlocks` has made them. -/
theorem WaitInv.process (hi : WaitInv c) (hr : ReassemblyInv c) (ht : TaskInv c) (b : Bool) :
    WaitInv (process cfg b c) := by
  unfold Controller.process
  dsimp only
  split
  · rename_i hb
    intro _ sm h hs
    cases h
    rw [hb] at hs
    cases hs
  · exact .getBlocks hr.refresh (ht.congr rfl rfl) rfl ‹_›
  · rename_i hdl
    obtain ⟨sm, hsm⟩ : ∃ sm, c.sm = some sm := by
      cases h : c.sm with
      | none => simp [h, StateMachine.init] at hdl
      | some sm => exact ⟨sm, rfl⟩
    exact (hi.refresh hsm).of_plain .processDownloadingBlocks .processDownloadingBlocks
  all_goals exact fun _ _ h => by cases h


/-- The controller's thread runs the oldest message.  The `errored` of a task the round
waits on puts the machine into `Failure`; the `stop` of such a task is never first. -/
theorem WaitInv.handle_head (hi : WaitInv c) (hmi : MapInv c) (hr : ReassemblyInv c)
    (ht : TaskInv c) {m : Msg} (hm : c.queue[0]? = some m) :
    WaitInv (handle cfg (c.dequeue 0) m) := by
  cases m with
  | process b =>
    exact (hi.dequeue hm fun _ _ => nofun).process (hr.dequeue 0)
      (ht.dequeue hm fun _ h => by cases h) b
  | errored t =>
    by_cases hin : c.fatal = false ∧ (∃ sm, c.sm = some sm ∧ sm.state = .downloadingBlocks) ∧
        ∃ r, c.procs[t]? = some r ∧ r.epoch = c.epoch ∧ r.pending ≠ []
    · -- a task the round waits on failed: `Failure`
      obtain ⟨hf, ⟨sm, hsm, hs⟩, r, hrt, he, hp⟩ := hin
      have hmem := hmi.mem_tasks hrt (hi hf sm hsm hs t r hrt he hp).1
      obtain ⟨f, u, s, hk⟩ := TaskKind.eq_downloadBlocks (ht.isDownload_of_pending hrt hp)
      simp only [Controller.handle, dequeue_procs, hrt, hk]
      refine .of_not_downloading fun _ sm' h => ?_
      rw [onDownloadErrored_sm (c := c.dequeue 0) hsm (by rw [hs]; exact nofun) hmem] at h
      cases h
      exact nofun
    · refine (hi.dequeue hm fun t' r e hf hdl hrt he => ?_).of_plain
        (.handle (fun _ h => by cases h) (fun _ h => by cases h) fun _ h => by cases h)
        (.handle fun _ h => by cases h)
      cases e
      by_contra hp
      exact hin ⟨hf, hdl, r, hrt, he, hp⟩
  | stop t =>
    simp only [Controller.handle]
    split
    · split
      · exact hi.dequeue hm fun _ _ => nofun
      · intro hf sm hsm hs t' r' hr' he' hp'
        rcases getElem?_modifyProc_eq_some hr' with ⟨rfl, r₀, h₀, rfl⟩ | ⟨hne, h₀⟩
        · exact absurd hm (hi hf sm hsm hs t' r₀ h₀ he' hp').2.head
        · obtain ⟨h1, h2⟩ := hi hf sm hsm hs t' r' h₀ he' hp'
          exact ⟨h1, (h2.dequeue hm nofun).append (by simp [hne])⟩
    · exact hi.dequeue hm fun _ _ => nofun
  | start t =>
    simp only [Controller.handle]
    split
    · exact hi.dequeue hm fun _ _ => nofun
    · refine (hi.dequeue hm fun _ _ => nofun).mono (fun hf sm h hs => ⟨hf, sm, h, hs⟩)
        (fun t' r' hr' he' hp' => ?_) fun _ _ _ _ _ h => h
      rcases getElem?_modifyProc_eq_some hr' with ⟨rfl, r₀, h₀, rfl⟩ | ⟨-, h₀⟩
      · exact ⟨r₀, h₀, he', hp', rfl⟩
      · exact ⟨r', h₀, he', hp', rfl⟩
  | _ =>
    exact (hi.dequeue hm fun _ _ => nofun).of_plain
      (.handle (fun _ h => by cases h) (fun _ h => by cases h) fun _ h => by cases h)
      (.handle fun _ h => by cases h)


theorem WaitInv.init {st : Storage V} : WaitInv (init st) := fun _ _ h => by cases h

/-- Every event in order keeps `WaitInv`, given the invariants of such runs. -/
theorem WaitInv.step (hi : WaitInv c) (hmi : MapInv c) (hr : ReassemblyInv c) (ht : TaskInv c)
    {e : Event} (he : e.inOrder = true) (h : step cfg c e = some c') : WaitInv c' := by
  cases step_spec h with
  | @handle i m _ hm =>
    obtain rfl : i = 0 := by simpa [Event.inOrder] using he
    exact hi.handle_head hmi hr ht hm
  | @deliver task _ ppb _ hrt _ =>
    refine hi.mono (fun h sm h' hs => ⟨h, sm, h', hs⟩) (fun t r' hr' he' hp' => ?_)
      fun t _ _ _ _ h => h.append (by simp)
    rcases getElem?_modifyProc_eq_some hr' with ⟨rfl, r₀, h₀, rfl⟩ | ⟨-, h₀⟩
    · refine ⟨r₀, h₀, he', fun h => hp' ?_, rfl⟩
      simp [TaskRec.handOver, h]
    · exact ⟨r', h₀, he', hp', rfl⟩
  | progress =>
    exact hi.mono (fun h sm h' hs => ⟨h, sm, h', hs⟩) (fun t r h h' hp => ⟨r, h, h', hp, rfl⟩)
      fun _ _ _ _ _ h => h.append (by simp)
  | @succeed task r info _ hrt hs =>
    -- a task that succeeds holds nothing, so the round does not wait on it
    have hnil : r.pending = [] := ht.pending_of_canSucceed hrt hs
    refine hi.mono (fun h sm h' hs => ⟨h, sm, h', hs⟩) (fun t r' hr' he' hp' => ?_)
      fun t r₁ hr₁ _ hp h => ?_
    · rcases getElem?_modifyProc_eq_some hr' with ⟨rfl, r₀, h₀, rfl⟩ | ⟨-, h₀⟩
      · exact ⟨r₀, h₀, he', hp', rfl⟩
      · exact ⟨r', h₀, he', hp', rfl⟩
    · have hne : t ≠ task := by
        rintro rfl
        rw [hrt] at hr₁
        cases hr₁
        exact hp hnil
      exact (h.append (l := [.success task]) (by simp)).append (l := [.stop task]) (by simp [hne])
  | @fail task =>
    refine hi.mono (fun h sm h' hs => ⟨h, sm, h', hs⟩) (fun t r h h' hp => ⟨r, h, h', hp, rfl⟩)
      fun t _ _ _ _ h => ?_
    have := h.append_pair (m := .errored task) (by simp) (s := task) fun e => by rw [e]
    simpa using this
  | pollTimer =>
    have h1 : WaitInv { c with pollTimer := none } := hi.congr rfl rfl rfl rfl rfl
    split
    · exact h1.process (hr.of_frame (.congr rfl rfl rfl rfl rfl)) (ht.congr rfl rfl) true
    · exact h1
  | callProcessTimer =>
    exact (hi.congr rfl rfl rfl rfl rfl : WaitInv { c with callProcessTimer := false }).process
      (hr.of_frame (.congr rfl rfl rfl rfl rfl)) (ht.congr rfl rfl) false
  | connectionsLost | firstGoodConnection => exact hi.congr rfl rfl rfl rfl rfl

/-- `WaitInv` holds in every run in which the controller's thread runs its messages in the
order they were posted and handles no stale callback. -/
theorem reachable_waitInv (h : Reachable cfg (fun c e => (e.inOrder && noStale c e) = true) c) :
    WaitInv c := by
  have hin : ∀ (c : Controller V) e, (e.inOrder && noStale c e) = true → e.inOrder = true :=
    fun _ _ h => (Bool.and_eq_true_iff.1 h).1
  induction h with
  | init _ => exact .init
  | step e hr hok hs ih =>
    exact ih.step (reachable_mapInv hr)
      (reachable_reassemblyInv (hr.mono fun _ _ h => (Bool.and_eq_true_iff.1 h).2))
      (reachable_taskInv hr) (hin _ e hok) hs

end

/-! ## The chain-info tasks `Begin` waits on are running -/

/-- What `Begin` asks of the round's tasks: each is a chain-info task, not stopped, whose
`success`, if it succeeded, is queued, and each of whose `stop`s queued stands behind its
`success` or `errored`. -/
def BeginTasks (c : Controller V) : Prop :=
  ∀ (t : Nat) (r : TaskRec), c.procs[t]? = some r → r.epoch = c.epoch →
    r.kind.isDownload = false ∧ r.stopped = false ∧
    (r.succeeded = true → Msg.success t ∈ c.queue) ∧
    Escorted c.queue t (fun m => m = .success t ∨ m = .errored t)

/-- In `Begin`, the round has a task, and its tasks are as `BeginTasks` says. -/
def BeginInv (c : Controller V) : Prop :=
  c.fatal = false → ∀ sm, c.sm = some sm → sm.state = .begin →
    (∃ (t : Nat) (r : TaskRec), c.procs[t]? = some r ∧ r.epoch = c.epoch) ∧ BeginTasks c

section

variable {c c' : Controller V}

theorem BeginInv.of_not_begin (h : c.fatal = false → ∀ sm, c.sm = some sm → sm.state ≠ .begin) :
    BeginInv c :=
  fun hf sm hsm hs => absurd hs (h hf sm hsm)

/-- A step of the handlers that keep the task objects: the queue only grows by
`AGAIN()`s. -/
theorem BeginInv.of_plain (hi : BeginInv c) (hp : PlainStep c c') (hs : IdleStep c c') :
    BeginInv c' := by
  obtain ⟨l, hq, hl⟩ := hp.queue_eq
  intro hf sm' hsm' hb
  obtain ⟨sm, hsm, he⟩ := hs.waits_of hf sm' hsm' (by rw [hb]; rfl)
  obtain ⟨⟨t, r, hr, hre⟩, hall⟩ := hi (hs.fatal_of hf) sm hsm (he.trans hb)
  refine ⟨⟨t, r, hp.procs_eq ▸ hr, hp.epoch_eq ▸ hre⟩, fun t r hr hre => ?_⟩
  rw [hp.procs_eq] at hr
  rw [hp.epoch_eq] at hre
  obtain ⟨h1, h2, h3, h4⟩ := hall t r hr hre
  rw [hq]
  exact ⟨h1, h2, fun h => List.mem_append_left _ (h3 h), h4.append fun h => by cases hl _ h⟩

/-- The head of the queue taken off, when it is no `success` or `errored` of a task of the
round. -/
theorem BeginInv.dequeue (hi : BeginInv c) {m : Msg} (hm : c.queue[0]? = some m)
    (hne : ∀ t r, c.procs[t]? = some r → r.epoch = c.epoch → m ≠ .success t ∧ m ≠ .errored t) :
    BeginInv (c.dequeue 0) := by
  intro hf sm hsm hb
  obtain ⟨hex, hall⟩ := hi hf sm hsm hb
  refine ⟨hex, fun t r hr hre => ?_⟩
  obtain ⟨h1, h2, h3, h4⟩ := hall t r hr hre
  obtain ⟨hs, he⟩ := hne t r hr hre
  exact ⟨h1, h2, fun h => mem_eraseIdx_of_ne hm (h3 h) (Ne.symm hs),
    h4.dequeue hm fun h => h.elim hs he⟩

/-- A new chain-info task in `Begin`: not stopped, nothing queued to stop it. -/
theorem BeginTasks.newTask (hi : BeginTasks c) (ht : TaskInv c) (b : Bool) :
    BeginTasks (c.newTask (.getChainInfo b)) := by
  intro t r hr hre
  rw [newTask_procs] at hr
  rw [newTask_epoch] at hre
  rw [newTask_queue]
  rcases Nat.lt_or_ge t c.procs.length with hlt | hge
  · rw [List.getElem?_append_left hlt] at hr
    obtain ⟨h1, h2, h3, h4⟩ := hi t r hr hre
    exact ⟨h1, h2, fun h => List.mem_append_left _ (h3 h), h4.append (by simp)⟩
  · -- the new task
    rw [List.getElem?_append_right hge] at hr
    rcases hk : t - c.procs.length with _ | k
    · rw [hk] at hr
      cases hr
      refine ⟨rfl, rfl, nofun, .of_not_mem fun h => ?_⟩
      rcases List.mem_append.1 h with h | h
      · have := ht.stop_lt t h
        omega
      · cases List.mem_singleton.1 h
    · rw [hk] at hr
      cases hr

/-- A new chain-info task: the round has one. -/
theorem BeginInv.newTask (hi : c.fatal = false → ∀ sm, c.sm = some sm → sm.state = .begin →
    BeginTasks c) (ht : TaskInv c) (b : Bool) : BeginInv (c.newTask (.getChainInfo b)) :=
  fun hf sm hsm hb => ⟨⟨c.procs.length, TaskRec.make (.getChainInfo b) c.epoch,
    by simp, rfl⟩, (hi hf sm hsm hb).newTask ht b⟩

/-- The start of `process()` in `Begin`: a new state machine begins a round with none of the
tasks made before. -/
theorem BeginTasks.refresh (hi : BeginInv c) (hr : ReassemblyInv c) (hf : c.fatal = false)
    (hb : (c.sm.getD .init).state = .begin) :
    BeginTasks { c with pollTimer := none, sm := some (c.sm.getD .init)
                        epoch := if c.sm.isNone then c.epoch + 1 else c.epoch } := by
  cases h : c.sm with
  | none =>
    intro t r hr' hre
    have := hr.epoch_le r (List.getElem?_mem hr')
    simp only [h, Option.isNone_none, if_true] at hre
    omega
  | some sm =>
    simp only [h, Option.getD_some] at hb
    have := (hi hf sm h hb).2
    simpa [BeginTasks, h] using this

/-- `GetBlocks` leaves the state machine downloading. -/
theorem BeginInv.getBlocks {sm : StateMachine} (hsm : c.sm = some sm) :
    BeginInv (getBlocks cfg c sm) := by
  obtain ⟨-, h, -⟩ := getBlocks_spec cfg c sm hsm
  exact .of_not_begin fun _ _ h' => by rw [h] at h'; cases h'; exact nofun

/-- `process()`: in `Begin`, one more chain-info task. -/
theorem BeginInv.process (hi : BeginInv c) (hr : ReassemblyInv c) (ht : TaskInv c) (b : Bool) :
    BeginInv (process cfg b c) := by
  unfold Controller.process
  dsimp only
  split
  · apply BeginInv.newTask
    · exact fun hf _ _ _ => BeginTasks.refresh hi hr hf ‹_›
    · exact ht.congr rfl rfl
  · exact .getBlocks rfl
  · rename_i hdl
    exact .of_not_begin fun hf sm h hb => by
      obtain ⟨sm₀, h₀, he⟩ := (IdleStep.processDownloadingBlocks :
        IdleStep _ (processDownloadingBlocks cfg _)).waits_of hf sm h
        (by rw [hb]; rfl)
      cases h₀
      rw [he, hb] at hdl
      cases hdl
  all_goals exact .of_not_begin fun _ _ h => by cases h


/-- `BeginInv` reads `fatal`, the state machine, the task objects, the queue and the
epoch. -/
theorem BeginInv.congr (hi : BeginInv c) (hf : c'.fatal = c.fatal) (hsm : c'.sm = c.sm)
    (hp : c'.procs = c.procs) (hq : c'.queue = c.queue) (he : c'.epoch = c.epoch) :
    BeginInv c' := by
  intro h sm h' hb
  rw [hf] at h
  rw [hsm] at h'
  have := hi h sm h' hb
  simpa only [BeginTasks, hp, hq, he] using this

/-- A step that does not start in `Begin` does not end in it. -/
theorem BeginInv.of_idle (h : IdleStep c c')
    (hn : ¬(c.fatal = false ∧ ∃ sm, c.sm = some sm ∧ sm.state = .begin)) : BeginInv c' :=
  .of_not_begin fun hf sm' hsm' hb => by
    obtain ⟨sm, hsm, he⟩ := h.waits_of hf sm' hsm' (by rw [hb]; rfl)
    exact hn ⟨h.fatal_of hf, sm, hsm, he.trans hb⟩

/-- Messages posted after: a task of the round whose `stop` is posted, with its signal just
before it, has the signal posted too; a `success` posted is of a task that succeeded. -/
theorem BeginTasks.post (hi : BeginTasks c) {l : List Msg}
    (hl : ∀ t, Escorted c.queue t (fun m => m = .success t ∨ m = .errored t) →
      Escorted (c.queue ++ l) t (fun m => m = .success t ∨ m = .errored t)) :
    BeginTasks { c with queue := c.queue ++ l } := fun t r hr hre => by
  obtain ⟨h1, h2, h3, h4⟩ := hi t r hr hre
  exact ⟨h1, h2, fun h => List.mem_append_left _ (h3 h), hl t h4⟩

/-- A task that is not of the round changed, keeping its epoch, and a message other than a
`stop` posted. -/
theorem BeginTasks.modify_other (hi : BeginTasks c) {t : Nat} {g : TaskRec → TaskRec}
    (hg : ∀ r, (g r).epoch = r.epoch) (hne : ∀ r, c.procs[t]? = some r → r.epoch = c.epoch → False)
    {m : Msg} (hm : ∀ s, m ≠ .stop s) : BeginTasks ((c.modifyProc t g).post m) := by
  intro t' r' hr' he'
  rcases getElem?_modifyProc_eq_some hr' with ⟨rfl, r₁, h₁, rfl⟩ | ⟨-, h₁⟩
  · exact (hne r₁ h₁ ((hg r₁).symm.trans he')).elim
  · obtain ⟨h1, h2, h3, h4⟩ := hi t' r' h₁ he'
    exact ⟨h1, h2, fun h => List.mem_append_left _ (h3 h),
      h4.append fun h => hm t' (List.mem_singleton.1 h).symm⟩

/-- The controller's thread runs the oldest message, not a stale one.  In `Begin`, the
`success` or `errored` of a task of the round moves the state machine on; the `stop` of
such a task is never first. -/
theorem BeginInv.handle_head (hi : BeginInv c) (hmi : MapInv c) (hr : ReassemblyInv c)
    (ht : TaskInv c) {m : Msg} (hm : c.queue[0]? = some m) (hs : stale c m = false) :
    BeginInv (handle cfg (c.dequeue 0) m) := by
  cases m with
  | process b =>
    exact (hi.dequeue hm fun _ _ _ _ => ⟨nofun, nofun⟩).process (hr.dequeue 0)
      (ht.dequeue hm fun _ h => by cases h) b
  | success t =>
    by_cases hb : c.fatal = false ∧ ∃ sm, c.sm = some sm ∧ sm.state = .begin
    · obtain ⟨hf, sm, hsm, hbeg⟩ := hb
      cases hrt : c.procs[t]? with
      | none =>
        simp only [Controller.handle, dequeue_procs, hrt]
        refine hi.dequeue hm fun t' r h _ => ⟨fun e => ?_, nofun⟩
        cases e
        rw [hrt] at h
        cases h
      | some r =>
        have he := epoch_eq_of_not_stale (m := .success t) rfl hrt hs
        obtain ⟨hk, hst, -, -⟩ := (hi hf sm hsm hbeg).2 t r hrt he
        obtain ⟨b, hk⟩ := TaskKind.eq_getChainInfo hk
        simp only [Controller.handle, dequeue_procs, hrt, hk]
        exact .of_not_begin fun hf' sm' h =>
          onChainInfoSuccess_not_begin (c := c.dequeue 0) hsm (hmi.mem_tasks hrt hst) hf' h
    · exact .of_idle (.handle nofun) hb
  | errored t =>
    by_cases hb : c.fatal = false ∧ ∃ sm, c.sm = some sm ∧ sm.state = .begin
    · obtain ⟨hf, sm, hsm, hbeg⟩ := hb
      cases hrt : c.procs[t]? with
      | none =>
        simp only [Controller.handle, dequeue_procs, hrt]
        refine hi.dequeue hm fun t' r h _ => ⟨nofun, fun e => ?_⟩
        cases e
        rw [hrt] at h
        cases h
      | some r =>
        have he := epoch_eq_of_not_stale (m := .errored t) rfl hrt hs
        obtain ⟨hk, -, -, -⟩ := (hi hf sm hsm hbeg).2 t r hrt he
        obtain ⟨b, hk⟩ := TaskKind.eq_getChainInfo hk
        simp only [Controller.handle, dequeue_procs, hrt, hk]
        refine .of_not_begin fun _ sm' h => ?_
        rw [genericTaskErrored_sm (c := c.dequeue 0) hsm (by rw [hbeg]; exact nofun)] at h
        cases h
        exact nofun
    · exact .of_idle (.handle nofun) hb
  | stop t =>
    have hd := hi.dequeue hm fun _ _ _ _ => ⟨nofun, nofun⟩
    simp only [Controller.handle]
    split
    · rename_i r hrt
      rw [dequeue_procs] at hrt
      split
      · exact hd
      · intro hf sm hsm hb
        obtain ⟨⟨t₀, r₀, h₀, he₀⟩, hall⟩ := hd hf sm hsm hb
        refine ⟨⟨t₀, _, getElem?_modifyProc_of h₀, by split <;> exact he₀⟩,
          hall.modify_other (fun _ => by rfl) (fun r' h he => ?_) (m := .finished t) nofun⟩
        -- the `stop` of a task of the round is never first
        rw [dequeue_procs, hrt] at h
        cases h
        exact ((hi hf sm hsm hb).2 t r hrt he).2.2.2.head hm
    · exact hd
  | start t =>
    have hd := hi.dequeue hm fun _ _ _ _ => ⟨nofun, nofun⟩
    simp only [Controller.handle]
    split
    · exact hd
    · intro hf sm hsm hb
      obtain ⟨⟨t₀, r₀, h₀, he₀⟩, hall⟩ := hd hf sm hsm hb
      refine ⟨⟨t₀, _, getElem?_modifyProc_of h₀, by split <;> exact he₀⟩, fun t' r' hr' he' => ?_⟩
      rcases getElem?_modifyProc_eq_some hr' with ⟨rfl, r₁, h₁, rfl⟩ | ⟨-, h₁⟩
      · exact hall t' r₁ h₁ he'
      · exact hall t' r' h₁ he'
  | _ =>
    exact (hi.dequeue hm fun _ _ _ _ => ⟨nofun, nofun⟩).of_plain
      (.handle (fun _ h => by cases h) (fun _ h => by cases h) fun _ h => by cases h)
      (.handle fun _ h => by cases h)


theorem BeginInv.init {st : Storage V} : BeginInv (init st) := fun _ _ h => by cases h

/-- Every event in order that runs no stale callback keeps `BeginInv`, given the invariants
of such runs. -/
theorem BeginInv.step (hi : BeginInv c) (hmi : MapInv c) (hr : ReassemblyInv c) (ht : TaskInv c)
    {e : Event} (he : e.inOrder = true) (hns : noStale c e = true) (h : step cfg c e = some c') :
    BeginInv c' := by
  cases step_spec h with
  | @handle i m _ hm =>
    obtain rfl : i = 0 := by simpa [Event.inOrder] using he
    exact hi.handle_head hmi hr ht hm (by simpa [noStale, hm] using hns)
  | @deliver task r ppb _ hrt hd =>
    intro hf sm hsm hb
    obtain ⟨⟨t₀, r₀, h₀, he₀⟩, hall⟩ := hi hf sm hsm hb
    refine ⟨⟨t₀, _, getElem?_modifyProc_of h₀, by split <;> exact he₀⟩,
      hall.modify_other (fun _ => by rfl) (fun r' h he => ?_) nofun⟩
    -- a download task is of no round that is in `Begin`
    rw [hrt] at h
    cases h
    have := (hall task r hrt he).1
    rw [hd.2.1] at this
    cases this
  | @progress task =>
    intro hf sm hsm hb
    obtain ⟨hex, hall⟩ := hi hf sm hsm hb
    exact ⟨hex, hall.post fun _ h => h.append (by simp)⟩
  | @succeed task r info _ hrt _ =>
    intro hf sm hsm hb
    obtain ⟨⟨t₀, r₀, h₀, he₀⟩, hall⟩ := hi hf sm hsm hb
    refine ⟨⟨t₀, _, getElem?_modifyProc_of h₀, by split <;> exact he₀⟩, fun t' r' hr' he' => ?_⟩
    simp only [post_queue, modifyProc_queue, List.append_assoc, List.singleton_append]
    rcases getElem?_modifyProc_eq_some hr' with ⟨rfl, r₁, h₁, rfl⟩ | ⟨hne', h₁⟩
    · obtain ⟨h1, h2, -, h4⟩ := hall t' r₁ h₁ he'
      exact ⟨h1, h2, fun _ => List.mem_append_right _ (.head _),
        h4.append_pair (m := .success t') nofun fun _ => .inl rfl⟩
    · obtain ⟨h1, h2, h3, h4⟩ := hall t' r' h₁ he'
      exact ⟨h1, h2, fun h => List.mem_append_left _ (h3 h),
        h4.append_pair (m := .success task) nofun fun e => absurd e.symm hne'⟩
  | @fail task =>
    intro hf sm hsm hb
    obtain ⟨hex, hall⟩ := hi hf sm hsm hb
    refine ⟨hex, fun t' r' hr' he' => ?_⟩
    obtain ⟨h1, h2, h3, h4⟩ := hall t' r' hr' he'
    simp only [post_queue, List.append_assoc, List.singleton_append]
    exact ⟨h1, h2, fun h => List.mem_append_left _ (h3 h),
      h4.append_pair (m := .errored task) nofun fun e => .inr (by rw [e])⟩
  | pollTimer =>
    have h1 : BeginInv { c with pollTimer := none } := hi.congr rfl rfl rfl rfl rfl
    split
    · exact h1.process (hr.of_frame (.congr rfl rfl rfl rfl rfl)) (ht.congr rfl rfl) true
    · exact h1
  | callProcessTimer =>
    exact (hi.congr rfl rfl rfl rfl rfl : BeginInv { c with callProcessTimer := false }).process
      (hr.of_frame (.congr rfl rfl rfl rfl rfl)) (ht.congr rfl rfl) false
  | connectionsLost | firstGoodConnection => exact hi.congr rfl rfl rfl rfl rfl

/-- `BeginInv` holds in every run in which the controller's thread runs its messages in the
order they were posted and handles no stale callback. -/
theorem reachable_beginInv (h : Reachable cfg (fun c e => (e.inOrder && noStale c e) = true) c) :
    BeginInv c := by
  have hin : ∀ (c : Controller V) e, (e.inOrder && noStale c e) = true → e.inOrder = true :=
    fun _ _ h => (Bool.and_eq_true_iff.1 h).1
  induction h with
  | init _ => exact .init
  | step e hr hok hs ih =>
    exact ih.step (reachable_mapInv hr)
      (reachable_reassemblyInv (hr.mono fun _ _ h => (Bool.and_eq_true_iff.1 h).2))
      (reachable_taskInv hr) (hin _ e hok) (Bool.and_eq_true_iff.1 hok).2 hs

end


/-! ## The controller never waits on nothing -/

section

variable {c : Controller V}

/-- With nothing queued, a task that is not stopped has started: its `start` is not
pending. -/
theorem TaskInv.running_of_quiet (ht : TaskInv c) (hq : c.queue = []) {t : Nat} {r : TaskRec}
    (hr : c.procs[t]? = some r) (hs : r.stopped = false) : r.running = true := by
  cases hst : r.started
  · have := ht.start_queued t r hr hst hs
    rw [hq] at this
    cases this
  · simp [TaskRec.running, hs, hst]

theorem step_succeed_isSome {t : Nat} {r : TaskRec} {info : ChainInfo} (hf : c.fatal = false)
    (hr : c.procs[t]? = some r) (h : r.CanSucceed info) :
    (step cfg c (.succeed t info)).isSome = true := by
  simp [step, hr, hf, h]

theorem step_deliver_isSome {t : Nat} {r : TaskRec} {ppb : PreProcessedBlock}
    (hf : c.fatal = false) (hr : c.procs[t]? = some r) (h : r.CanDeliver cfg.headerSize ppb) :
    (step cfg c (.deliver t ppb)).isSome = true := by
  simp [step, hr, hf, h]

/-- In every run in which the controller's thread runs its messages in the order they were
posted and handles no stale callback, until a `Fatal()`: with no message queued, no timer
armed and the hook for the first good connection not armed, a task of the current round
can act.  In `Begin` it is a chain-info task whose reply the handler accepts; in
`DownloadingBlocks` it is a download task that holds `ppBlkHtNext` and can hand it over. -/
theorem controller_never_stalls (c : Controller V)
    (h : Reachable cfg (fun c e => (e.inOrder && noStale c e) = true) c) (hf : c.fatal = false)
    (hq : c.queue = []) (hp : c.pollTimer = none) (hc : c.callProcessTimer = false)
    (hh : c.connectionHook = false) :
    ∃ sm, c.sm = some sm ∧ ∃ (t : Nat) (r : TaskRec), c.procs[t]? = some r ∧ r.epoch = c.epoch ∧
      ((sm.state = .begin ∧
          ∀ info : ChainInfo, info.Valid → (step cfg c (.succeed t info)).isSome = true) ∨
        (sm.state = .downloadingBlocks ∧ sm.ppBlkHtNext ∈ r.pending ∧
          ∀ ppb : PreProcessedBlock, ppb.height = sm.ppBlkHtNext →
            ppb.header.length = cfg.headerSize → (step cfg c (.deliver t ppb)).isSome = true)) := by
  have hns := h.mono fun _ _ h => (Bool.and_eq_true_iff.1 h).2
  have ht := reachable_taskInv h
  obtain ⟨hnone, hwait⟩ := reachable_idleInv h hf
  -- no `process` is queued and nothing else is armed: there is a state machine, and it waits
  obtain ⟨sm, hsm⟩ : ∃ sm, c.sm = some sm := by
    cases hs : c.sm with
    | none => rcases hnone hs with h' | h' | h' | h' <;> simp [hq, hp, hc, hh] at h'
    | some sm => exact ⟨sm, rfl⟩
  have hw : sm.state.waits = true := by
    cases hw : sm.state.waits
    · have := hwait sm hsm hw
      rw [hq] at this
      cases this
    · rfl
  refine ⟨sm, hsm, ?_⟩
  rcases State.eq_of_waits hw with hs | hs
  · -- `Begin`: a chain-info task of the round, neither stopped nor succeeded
    obtain ⟨⟨t, r, hr, he⟩, hall⟩ := reachable_beginInv h hf sm hsm hs
    obtain ⟨hk, hst, hsu, -⟩ := hall t r hr he
    have hsu' : r.succeeded = false := by
      cases hx : r.succeeded
      · rfl
      · have := hsu hx
        rw [hq] at this
        cases this
    obtain ⟨b, hkd⟩ := TaskKind.eq_getChainInfo hk
    refine ⟨t, r, hr, he, .inl ⟨hs, fun info hv => step_succeed_isSome hf hr
      ⟨ht.running_of_quiet hq hr hst, hsu', by rw [hkd]; exact hv⟩⟩⟩
  · -- `DownloadingBlocks`: the task that holds `ppBlkHtNext` has not succeeded, so it runs
    obtain ⟨t, r, hr, he, hx⟩ := held_next_of_quiet (reachable_drainInv hns)
      (reachable_reassemblyInv hns) (reachable_coverInv h) hf hsm hs hq
    have hne : r.pending ≠ [] := List.ne_nil_of_mem hx
    have hst := (reachable_waitInv h hf sm hsm hs t r hr he hne).1
    exact ⟨t, r, hr, he, .inr ⟨hs, hx, fun ppb hh hl => step_deliver_isSome hf hr
      ⟨ht.running_of_quiet hq hr hst, ht.isDownload_of_pending hr hne, hh ▸ hx, hl⟩⟩⟩

/-- `inOrderRun` once block `1` is buffered and the `process()` after it has run: nothing
queued or armed, and the first task can hand over the block at `ppBlkHtNext = 0`. -/
theorem controller_never_stalls_in_order :
    ∃ c, execIf threeCoreConfig (fun c e => e.inOrder && noStale c e) (init emptyStorage)
        (inOrderRun.take 13) = some c ∧
      c.fatal = false ∧ c.queue = [] ∧ c.pollTimer = none ∧ c.callProcessTimer = false ∧
      c.connectionHook = false ∧
      ∃ sm, c.sm = some sm ∧ ∃ (t : Nat) (r : TaskRec), c.procs[t]? = some r ∧
        r.epoch = c.epoch ∧
        ((sm.state = .begin ∧ ∀ info : ChainInfo, info.Valid →
            (step threeCoreConfig c (.succeed t info)).isSome = true) ∨
          (sm.state = .downloadingBlocks ∧ sm.ppBlkHtNext ∈ r.pending ∧
            ∀ ppb : PreProcessedBlock, ppb.height = sm.ppBlkHtNext →
              ppb.header.length = threeCoreConfig.headerSize →
              (step threeCoreConfig c (.deliver t ppb)).isSome = true)) :=
  ⟨_, rfl, rfl, rfl, rfl, rfl, rfl, controller_never_stalls _
    ((Reachable.init loaded_emptyStorage_threeCore).execIf
      (rfl : execIf threeCoreConfig (fun c e => e.inOrder && noStale c e) (init emptyStorage)
        (inOrderRun.take 13) = some _)) rfl rfl rfl rfl rfl⟩

end

end Controller

end Fulcrum
