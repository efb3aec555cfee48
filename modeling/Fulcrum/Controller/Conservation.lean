import Fulcrum.Controller.Reassembly

/-!
# Fulcrum.Controller.Conservation

No height of a round is lost.  Qt runs the events posted to the controller's thread in the
order they were posted (`Event.inOrder`).  A task hands its blocks over while it runs, and
its `finished` is posted only by the `stop()` hook, after the task is stopped; so in such
runs a task's blocks reach the thread before its `finished`.  `rmTask` never takes out a
task whose block is still queued, and the `putBlock` lambda never finds its task deleted
(`OrderOk`, with `MapInv` for the tasks that have not stopped).

With no stale callback either, every height of `[ppBlkHtNext, endHeight]` is, while
downloading, buffered in `ppBlocks`, posted in a `putBlock`, or held by a task
(`CoverInv`); with `ReassemblyInv`, each exactly once: `round_heights_conserved`.
-/

namespace Fulcrum

namespace Controller

variable {V : Type} {cfg : Config V}

/-- The order of a task's messages in the queue: a queued block is from a registered task,
and stands before that task's `finished`. -/
structure OrderOk (c : Controller V) : Prop where
  posted_live : ∀ t p, Msg.putBlock t p ∈ c.queue → t ∈ c.tasks
  finished_last : ∀ (i j t : Nat) (p : PreProcessedBlock), c.queue[i]? = some (.finished t) →
    c.queue[j]? = some (.putBlock t p) → j < i

section

variable {c c' : Controller V} {sm : StateMachine}

/-! ## Positions in the queue -/

/-- Appending messages that neither bring a block nor end a task keeps the position of
every message that does. -/
theorem getElem?_of_append_quiet {q l : List Msg} (hl : ∀ m ∈ l, m.isBlockOrEnd = false)
    {i : Nat} {m : Msg} (hm : m.isBlockOrEnd = true) (h : (q ++ l)[i]? = some m) :
    q[i]? = some m := by
  rcases Nat.lt_or_ge i q.length with hi | hi
  · rwa [List.getElem?_append_left hi] at h
  · rw [List.getElem?_append_right hi] at h
    have := hl m (List.getElem?_mem h)
    rw [hm] at this
    cases this

/-- The positions in a queue with one more message at its end. -/
theorem getElem?_append_singleton {q : List Msg} {x m : Msg} {i : Nat}
    (h : (q ++ [x])[i]? = some m) : q[i]? = some m ∨ i = q.length ∧ m = x := by
  rcases Nat.lt_or_ge i q.length with hi | hi
  · rw [List.getElem?_append_left hi] at h
    exact .inl h
  · rw [List.getElem?_append_right hi] at h
    rcases hk : i - q.length with _ | k
    · rw [hk] at h
      exact .inr ⟨by omega, (Option.some.inj h).symm⟩
    · rw [hk] at h
      simp at h

/-! ## Steps that keep the order -/

/-- A step that keeps every task registered, and posts neither a block nor a task's end. -/
theorem OrderOk.extend (hi : OrderOk c) (ht : ∀ t ∈ c.tasks, t ∈ c'.tasks)
    (hq : ∃ l, c'.queue = c.queue ++ l ∧ ∀ m ∈ l, m.isBlockOrEnd = false) : OrderOk c' := by
  obtain ⟨l, hq, hl⟩ := hq
  refine ⟨fun t p hm => ht t ?_, fun i j t p hi' hj => ?_⟩
  · rw [hq] at hm
    rcases List.mem_append.1 hm with hm | hm
    · exact hi.posted_live t p hm
    · exact absurd (hl _ hm) (by simp [Msg.isBlockOrEnd])
  · rw [hq] at hi' hj
    exact hi.finished_last i j t p (getElem?_of_append_quiet hl rfl hi')
      (getElem?_of_append_quiet hl rfl hj)

theorem OrderOk.of_quiet (hi : OrderOk c) (h : QuietStep c c') : OrderOk c' :=
  hi.extend (fun _ ht => h.tasks_eq ▸ ht) h.queue_eq

/-- `rmTask` of a task none of whose blocks is queued. -/
theorem OrderOk.rmTask (hi : OrderOk c) {t : Nat} (hno : ∀ p, Msg.putBlock t p ∉ c.queue) :
    OrderOk (c.rmTask t) where
  posted_live := fun s p hm =>
    (List.mem_erase_of_ne fun h => hno p (by subst h; exact hm)).2 (hi.posted_live s p hm)
  finished_last := hi.finished_last

/-- The `stop()` hook: at most a `finished`, after everything queued. -/
theorem OrderOk.stop (hi : OrderOk c) {task : Nat} : OrderOk (handle cfg c (.stop task)) := by
  simp only [Controller.handle]
  split
  · split
    · exact hi
    · refine ⟨fun s p hm => ?_, fun i j s p hi' hj => ?_⟩
      · rcases List.mem_append.1 hm with hm | hm
        · exact hi.posted_live s p hm
        · cases List.mem_singleton.1 hm
      · rcases getElem?_append_singleton hj with hj | ⟨-, hj⟩
        · rcases getElem?_append_singleton hi' with hi' | ⟨rfl, -⟩
          · exact hi.finished_last i j s p hi' hj
          · exact (List.getElem?_eq_some_iff.1 hj).1
        · cases hj
  · exact hi

/-- The controller's thread takes the oldest message off the queue. -/
theorem OrderOk.dequeue_head (hi : OrderOk c) : OrderOk (c.dequeue 0) := by
  obtain ⟨_, _, _, _, _, _, _, _, q, _, _⟩ := c
  cases q with
  | nil => exact hi
  | cons m q =>
    refine ⟨fun t p h => hi.posted_live t p (.tail _ h), fun i j t p h h' => ?_⟩
    have := hi.finished_last (i + 1) (j + 1) t p (by simpa using h) (by simpa using h')
    omega

/-- A running task posts a block: the task is registered, and, as it has not stopped, its
`finished` is not queued (`MapInv`). -/
theorem OrderOk.deliver (hi : OrderOk c) (hm : MapInv c) {task : Nat} {t : TaskRec}
    {ppb : PreProcessedBlock} (ht : c.procs[task]? = some t) (hr : t.running = true) :
    OrderOk ((c.modifyProc task (TaskRec.handOver · ppb)).post (.putBlock task ppb)) := by
  have hrun : t.stopped = false := by
    simp only [TaskRec.running, Bool.and_eq_true, Bool.not_eq_true'] at hr
    exact hr.2
  refine ⟨fun s p hm' => ?_, fun i j s p hi' hj => ?_⟩
  · rcases List.mem_append.1 hm' with hm' | hm'
    · exact hi.posted_live s p hm'
    · cases List.mem_singleton.1 hm'
      exact hm.mem_tasks ht hrun
  · rcases getElem?_append_singleton hi' with hi' | ⟨-, hx⟩
    · rcases getElem?_append_singleton hj with hj | ⟨-, hx⟩
      · exact hi.finished_last i j s p hi' hj
      · -- the new block's task is not stopped, so its `finished` is not queued
        cases hx
        have := hm.finished_stopped task (List.getElem?_mem hi')
        simp [stoppedFlags, ht, hrun] at this
    · cases hx

/-- `GetBlocks` adds its tasks, registered, and posts their starts. -/
theorem OrderOk.getBlocks (hi : OrderOk c) (hsm : c.sm = some sm) :
    OrderOk (getBlocks cfg c sm) := by
  obtain ⟨-, -, -, -, hq, -⟩ := getBlocks_spec cfg c sm hsm
  refine hi.extend (fun t ht => ?_) ⟨_, hq, fun m hm => ?_⟩
  · rw [getBlocks_tasks]
    exact List.mem_append_left _ ht
  · obtain ⟨_, -, rfl⟩ := List.mem_map.1 hm
    rfl

/-- `process()` adds tasks, registered, and posts their starts. -/
theorem OrderOk.process (hi : OrderOk c) (b : Bool) : OrderOk (process cfg b c) := by
  unfold Controller.process
  dsimp only
  have h0 : OrderOk { c with pollTimer := none, sm := some (c.sm.getD .init)
                             epoch := if c.sm.isNone then c.epoch + 1 else c.epoch } :=
    hi.of_quiet (.of_eq rfl rfl (.inl rfl))
  split
  · exact h0.extend (fun t ht => List.mem_append_left _ ht) ⟨_, rfl, by simp [Msg.isBlockOrEnd]⟩
  · exact h0.getBlocks rfl
  · exact h0.of_quiet .processDownloadingBlocks
  all_goals first
    | exact h0.of_quiet (.of_eq rfl rfl (.inl rfl))
    | exact h0.of_quiet (.of_eq rfl rfl (.inr rfl))

/-- The controller's thread runs the oldest message. -/
theorem OrderOk.handle_head (hi : OrderOk c) {m : Msg} (hm : c.queue[0]? = some m) :
    OrderOk (handle cfg (c.dequeue 0) m) := by
  have hd := hi.dequeue_head
  cases m with
  | process b => exact hd.process b
  | stop t => exact hd.stop
  | finished t =>
    -- a block of the task would stand before its `finished`, which is first
    refine hd.rmTask fun p hp => ?_
    obtain ⟨j, hj⟩ := List.mem_iff_getElem?.1 (List.mem_of_mem_eraseIdx hp)
    exact absurd (hi.finished_last 0 j t p hm hj) (Nat.not_lt_zero _)
  | _ =>
    exact hd.of_quiet (.handle (fun _ h => by cases h) (fun _ h => by cases h)
      (fun _ h => by cases h))

theorem OrderOk.init {st : Storage V} : OrderOk (init st) :=
  ⟨fun _ _ h => (by cases h), fun _ _ _ _ h => (by cases h)⟩

/-- Every event in order keeps `OrderOk`. -/
theorem OrderOk.step (hi : OrderOk c) (hm : MapInv c) {e : Event} (he : e.inOrder = true)
    (h : step cfg c e = some c') : OrderOk c' := by
  cases step_spec h with
  | @handle i m _ hq =>
    obtain rfl : i = 0 := by simpa [Event.inOrder] using he
    exact hi.handle_head hq
  | deliver _ ht hd => exact hi.deliver hm ht hd.1
  | @progress task => exact hi.of_quiet (.post (m := .progress task) rfl)
  | @succeed task _ info =>
    exact hi.of_quiet (((QuietStep.modifyProc (k := task)
      (g := fun t => { t with succeeded := true, info }) fun _ => rfl).trans
      (.post (m := .success task) rfl)).trans (.post (m := .stop task) rfl))
  | @fail task =>
    exact hi.of_quiet ((QuietStep.post (m := .errored task) rfl).trans
      (.post (m := .stop task) rfl))
  | pollTimer =>
    have h1 : OrderOk { c with pollTimer := none } := hi.of_quiet (.of_eq rfl rfl (.inl rfl))
    split
    · exact h1.process true
    · exact h1
  | callProcessTimer =>
    have h1 : OrderOk { c with callProcessTimer := false } :=
      hi.of_quiet (.of_eq rfl rfl (.inl rfl))
    exact h1.process false
  | connectionsLost | firstGoodConnection => exact hi.of_quiet (.of_eq rfl rfl (.inl rfl))

/-- `OrderOk` holds in every run in which the controller's thread runs its messages in the
order they were posted. -/
theorem reachable_orderOk {ok : Controller V → Event → Prop} (h : Reachable cfg ok c)
    (hin : ∀ c e, ok c e → e.inOrder = true) : OrderOk c := by
  induction h with
  | init _ => exact .init
  | step e hr hok hs ih => exact ih.step (reachable_mapInv hr) (hin _ e hok) hs

/-! ## No height is missing -/

/-- Every height of `[ppBlkHtNext, endHeight]` is on its way: buffered, posted or held. -/
def Covers (c : Controller V) (sm : StateMachine) : Prop :=
  ∀ x, sm.ppBlkHtNext ≤ x → x ≤ sm.endHeight → x ∈ tokens c sm

/-- Until a `Fatal()`, while downloading, no height of the round is missing. -/
def CoverInv (c : Controller V) : Prop :=
  c.fatal = false → ∀ sm, c.sm = some sm → sm.state = .downloadingBlocks → Covers c sm

theorem CoverInv.of_frame (hi : CoverInv c) (h : RoundFrame c c') : CoverInv c' := by
  intro hf sm' hsm' hs' x h1 h2
  obtain ⟨hf0, hfo⟩ := h.follows hf
  obtain ⟨sm, hsm, hfol⟩ := hfo sm' hsm'
  obtain ⟨hs, hn, he⟩ := hfol.window hs'
  rw [tokens, hfol.keys_eq, inFlight_frame h.shape_eq h.epoch_eq h.queue_eq]
  exact hi hf0 sm hsm hs x (hn ▸ h1) (he ▸ h2)

/-- A step that leaves the state machine and `fatal` alone, and keeps every height in
flight. -/
theorem CoverInv.of_inFlight (hi : CoverInv c) (hsm : c'.sm = c.sm) (hf : c'.fatal = c.fatal)
    (hin : ∀ x ∈ inFlight c, x ∈ inFlight c') : CoverInv c' := by
  intro hf' sm h hs x h1 h2
  rw [hsm] at h
  rcases List.mem_append.1 (hi (hf ▸ hf') sm h hs x h1 h2) with hx | hx
  · exact List.mem_append_left _ hx
  · exact List.mem_append_right _ (hin x hx)

theorem CoverInv.deliver (hi : CoverInv c) {task : Nat} {t : TaskRec} {ppb : PreProcessedBlock}
    (ht : c.procs[task]? = some t) (hh : ppb.height ∈ t.pending) :
    CoverInv ((c.modifyProc task (TaskRec.handOver · ppb)).post (.putBlock task ppb)) :=
  hi.of_inFlight rfl rfl fun _ hx => (inFlight_deliver_perm ht hh).subset hx

/-- Taking a message that brings no height of the round off the queue. -/
theorem CoverInv.dequeue (hi : CoverInv c) {i : Nat} {m : Msg} (hm : c.queue[i]? = some m)
    (hn : heightOf c m = none) : CoverInv (c.dequeue i) :=
  hi.of_inFlight rfl rfl fun _ hx => by simpa [hn] using (inFlight_dequeue hm).subset hx

/-- The oldest message brings a block of the round: its task is still registered, so the
lambda moves the height from the queue into `ppBlocks`. -/
theorem CoverInv.putBlock_head (hi : CoverInv c) (ho : OrderOk c) {t : Nat}
    {p : PreProcessedBlock} (hm : c.queue[0]? = some (.putBlock t p))
    (hx : heightOf c (.putBlock t p) = some p.height) :
    CoverInv ((c.dequeue 0).onPutBlock t p) := by
  have hin : ∀ x ∈ inFlight c, x = p.height ∨ x ∈ inFlight (c.dequeue 0) := fun x h => by
    simpa [hx] using (inFlight_dequeue hm).subset h
  have hlive : (c.dequeue 0).isTaskDeleted t = false := by
    simpa [isTaskDeleted] using ho.posted_live t p (List.getElem?_mem hm)
  unfold Controller.onPutBlock
  split
  · intro _ _ h
    simp_all
  · rename_i sm hsm
    split
    · rename_i hcond
      intro _ _ h hs
      rw [hsm] at h
      cases h
      simp [hlive, hs] at hcond
    · split
      · rename_i hne
        intro _ _ h hs
        rw [hsm] at h
        cases h
        exact absurd hs hne
      · rename_i hdl
        refine CoverInv.of_frame (fun hf _ h _ x h1 h2 => ?_) (.again _)
        cases h
        have hs : sm.state = .downloadingBlocks := by simpa using hdl
        show x ∈ (sm.ppBlocks.insert p.height p).keys ++ inFlight (c.dequeue 0)
        rcases List.mem_append.1 (hi hf sm hsm hs x h1 h2) with hk | hf'
        · exact List.mem_append_left _ (HeightMap.mem_keys_insert.2 (.inr hk))
        · rcases hin x hf' with rfl | hd
          · exact List.mem_append_left _ (HeightMap.mem_keys_insert.2 (.inl rfl))
          · exact List.mem_append_right _ hd

/-- `GetBlocks` puts every height of `[base, ht]` in the new tasks. -/
theorem CoverInv.getBlocks (hr : ReassemblyInv c) (hsm : c.sm = some sm)
    (hs : sm.state = .getBlocks) (hok : SmOk c.storage.headers.length c.fatal sm) :
    CoverInv (getBlocks cfg c sm) := fun hf _ hsm' _ x h1 h2 =>
  (tokens_getBlocks hr hsm hs hok hf hsm').2.2.2.symm.subset (List.mem_range'_1.2 ⟨h1, by omega⟩)

/-- The drain loop takes out only `ppBlkHtNext`, and moves past it. -/
theorem CoverInv.processDownloadingBlocks (hi : CoverInv c)
    (hok : SmOk c.storage.headers.length c.fatal sm) (hsm : c.sm = some sm)
    (hs : sm.state = .downloadingBlocks) : CoverInv (processDownloadingBlocks cfg c) := by
  obtain ⟨hp, -, he, ⟨l, hq, hl⟩, hf⟩ := drain_frame cfg (c.sm.elim 0 (·.ppBlocks.size)) c
  set r := drain cfg (c.sm.elim 0 (·.ppBlocks.size)) c
  have hfl : inFlight r.1 = inFlight c :=
    inFlight_frame (by rw [hp]) he ⟨l, hq, fun m hm t p e => by rw [hl m hm] at e; cases e⟩
  -- what each round keeps: the keys are `int` heights, and the window is covered
  let P : StateMachine → Prop := fun sm => (∀ k ∈ sm.ppBlocks.keys, k < 2 ^ 31) ∧
    ∀ x, sm.ppBlkHtNext ≤ x → x ≤ sm.endHeight → x ∈ sm.ppBlocks.keys ++ inFlight c
  have hP : ∀ sm ppb, P sm → sm.state = .downloadingBlocks →
      sm.ppBlocks.front? = some (sm.ppBlkHtNext, ppb) →
      P { sm with ppBlkHtNext := asUnsigned ((sm.ppBlkHtNext : Int) + 1)
                  ppBlocks := sm.ppBlocks.eraseFront } := by
    intro sm ppb ⟨hlt, hcov⟩ _ hfr
    rw [HeightMap.keys_eraseFront_of_front hfr] at hlt hcov
    have hn := hlt _ (List.mem_cons_self _ _)
    refine ⟨fun k hk => hlt k (List.mem_cons_of_mem _ hk), fun x h1 h2 => ?_⟩
    simp only [asUnsigned] at h1
    rcases List.mem_cons.1 (hcov x (by omega) h2) with rfl | hx
    · omega
    · exact hx
  have hr : CoverInv r.1 := fun hf' sm' hsm' hs' x h1 h2 => by
    have hkeys : ∀ k ∈ sm.ppBlocks.keys, k < 2 ^ 31 := fun k hk => by
      obtain ⟨v, hv⟩ := HeightMap.mem_keys.1 hk
      exact (hok.entries_ok _ hv).2
    rcases drain_preserves P hP _ c (fun sm'' h => by
        rw [hsm] at h
        cases h
        exact ⟨hs, hkeys, hi (hf hf') sm hsm hs⟩) sm' hsm' with ⟨-, -, hcov⟩ | hfail
    · rw [tokens, hfl]
      exact hcov x h1 h2
    · rw [hs'] at hfail
      cases hfail
  unfold Controller.processDownloadingBlocks
  dsimp only
  split
  · exact hr
  · split
    · split
      · exact hr.of_frame ((RoundFrame.setState (by decide)).trans (.again _))
      · exact hr
    · exact hr

/-- `process()`: a chain-info task in `Begin`, `GetBlocks`, the drain loop, or no state
machine. -/
theorem CoverInv.process (hi : CoverInv c) (hr : ReassemblyInv c)
    (hok : ∀ sm, c.sm = some sm → SmOk c.storage.headers.length c.fatal sm) (b : Bool) :
    CoverInv (process cfg b c) := by
  unfold Controller.process
  dsimp only
  -- a state machine made by `process` is in `Begin`, so nothing is asked of it
  have h0 : CoverInv { c with pollTimer := none, sm := some (c.sm.getD .init)
                              epoch := if c.sm.isNone then c.epoch + 1 else c.epoch } := by
    cases h : c.sm with
    | none => exact fun _ _ hsm hs => by cases hsm; cases hs
    | some sm =>
      refine hi.of_frame (.of_sm rfl (by simp) rfl fun hf => ⟨hf, fun _ h' => ?_⟩)
      cases h'
      exact ⟨sm, h, .refl sm⟩
  split
  · next hb =>
    intro _ _ h hs
    cases h
    rw [hb] at hs
    cases hs
  · exact CoverInv.getBlocks hr.refresh rfl ‹_› (smOk_getD (c := c) hok)
  · exact h0.processDownloadingBlocks (smOk_getD (c := c) hok) rfl ‹_›
  all_goals exact fun _ _ h => by cases h

/-- The controller's thread runs the oldest message, which is not a stale callback. -/
theorem CoverInv.handle_head (hi : CoverInv c) (ho : OrderOk c) (hr : ReassemblyInv c)
    (hh : HeadersInv cfg c) {m : Msg} (hm : c.queue[0]? = some m) (hs : stale c m = false) :
    CoverInv (handle cfg (c.dequeue 0) m) := by
  cases m with
  | putBlock t p =>
    have hlt := hr.msgs_task_lt t p (List.getElem?_mem hm)
    have hpr : c.procs[t]? = some c.procs[t] := List.getElem?_eq_getElem hlt
    exact hi.putBlock_head ho hm
      (by simp [heightOf, hpr, epoch_eq_of_not_stale (m := .putBlock t p) rfl hpr hs])
  | process b => exact (hi.dequeue hm rfl).process (hr.dequeue 0) hh.sm_ok b
  | _ =>
    exact (hi.dequeue hm rfl).of_frame (.handle (fun _ h => by cases h)
      (fun _ _ h => by cases h) fun t r b he hr' hk => by
        cases he <;> exact begin_of_not_stale hr' hk hs)

theorem CoverInv.init {st : Storage V} : CoverInv (init st) := fun _ _ h => by cases h

/-- Every event in order, whose message, if any, is not a stale callback, keeps
`CoverInv`. -/
theorem CoverInv.step (hi : CoverInv c) (ho : OrderOk c) (hr : ReassemblyInv c)
    (hh : HeadersInv cfg c) {e : Event} (he : (e.inOrder && noStale c e) = true)
    (h : step cfg c e = some c') : CoverInv c' := by
  cases step_spec h with
  | @handle i m _ hm =>
    obtain ⟨hi0, hns⟩ := Bool.and_eq_true_iff.1 he
    obtain rfl : i = 0 := by simpa [Event.inOrder] using hi0
    exact hi.handle_head ho hr hh hm (by simpa [noStale, hm] using hns)
  | deliver _ ht hd => exact hi.deliver ht hd.2.2.1
  | @progress task => exact hi.of_frame (.post (m := .progress task) fun _ _ h => by cases h)
  | @succeed task _ info => exact hi.of_frame (.succeed task info)
  | @fail task => exact hi.of_frame (.fail task)
  | pollTimer =>
    have h1 : CoverInv { c with pollTimer := none } := hi.of_frame (.congr rfl rfl rfl rfl rfl)
    split
    · exact h1.process (hr.of_frame (.congr rfl rfl rfl rfl rfl)) hh.sm_ok true
    · exact h1
  | callProcessTimer =>
    have h1 : CoverInv { c with callProcessTimer := false } :=
      hi.of_frame (.congr rfl rfl rfl rfl rfl)
    exact h1.process (hr.of_frame (.congr rfl rfl rfl rfl rfl)) hh.sm_ok false
  | connectionsLost | firstGoodConnection => exact hi.of_frame (.congr rfl rfl rfl rfl rfl)

/-- `CoverInv` holds in every run in which the controller's thread runs its messages in the
order they were posted and handles no stale callback. -/
theorem reachable_coverInv
    (h : Reachable cfg (fun c e => (e.inOrder && noStale c e) = true) c) : CoverInv c := by
  induction h with
  | init _ => exact .init
  | step e hr hok hs ih =>
    exact ih.step (reachable_orderOk hr fun _ _ h => (Bool.and_eq_true_iff.1 h).1)
      (reachable_reassemblyInv (hr.mono fun _ _ h => (Bool.and_eq_true_iff.1 h).2))
      (reachable_headersInv hr) hok hs

/-! ## The round's heights -/

/-- In every run in which the controller's thread runs its messages in the order they were
posted and handles no stale callback, until a `Fatal()`: while downloading, the heights of
the round not yet stored, buffered in `ppBlocks`, posted in a `putBlock` or held by a task,
are exactly `[ppBlkHtNext, endHeight]`, each once.  No height is lost, and none is on its
way twice. -/
theorem round_heights_conserved (c : Controller V)
    (h : Reachable cfg (fun c e => (e.inOrder && noStale c e) = true) c) (hf : c.fatal = false)
    (sm : StateMachine) (hsm : c.sm = some sm) (hs : sm.state = .downloadingBlocks) :
    (sm.ppBlocks.keys ++ posted c ++ held c).Perm
      (List.range' sm.ppBlkHtNext (sm.endHeight + 1 - sm.ppBlkHtNext)) := by
  obtain ⟨hnd, hb⟩ := ((reachable_reassemblyInv
    (h.mono fun _ _ h => (Bool.and_eq_true_iff.1 h).2)).round_ok hf sm hsm).window hs
  have hcov := reachable_coverInv h hf sm hsm hs
  rw [List.append_assoc]
  refine (List.perm_ext_iff_of_nodup hnd (List.nodup_range' _ _)).2 fun x =>
    ⟨fun hx => ?_, fun hx => ?_⟩
  · have := hb x hx
    exact List.mem_range'_1.2 ⟨this.1, by omega⟩
  · have := List.mem_range'_1.1 hx
    exact hcov x this.1 (by omega)

/-- `inOrderRun`: block `1` buffered, block `0` posted, block `2` held by the first task. -/
theorem round_heights_conserved_in_order :
    ∃ c sm, execIf threeCoreConfig (fun c e => e.inOrder && noStale c e) (init emptyStorage)
        inOrderRun = some c ∧
      c.sm = some sm ∧ sm.ppBlocks.keys = [1] ∧ posted c = [0] ∧ held c = [2] ∧
      (sm.ppBlocks.keys ++ posted c ++ held c).Perm
        (List.range' sm.ppBlkHtNext (sm.endHeight + 1 - sm.ppBlkHtNext)) :=
  ⟨_, _, rfl, rfl, rfl, rfl, rfl, round_heights_conserved _
    ((Reachable.init loaded_emptyStorage_threeCore).execIf
      (rfl : execIf threeCoreConfig (fun c e => e.inOrder && noStale c e) (init emptyStorage)
        inOrderRun = some _)) rfl _ rfl rfl⟩

end

end Controller

end Fulcrum
