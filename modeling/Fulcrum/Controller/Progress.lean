import Fulcrum.Controller.Conservation

/-!
# Fulcrum.Controller.Progress

The download never waits on nothing.  `process_DownloadingBlocks` takes blocks out of
`ppBlocks` while the first one is at `ppBlkHtNext`; given a round for each entry, it stops
only at a gap or on a rejected block (`drain_exhausts`).  So a block buffered at
`ppBlkHtNext` always has a `process` queued to take it out, and `ppBlkHtNext` stays in the
window (`DrainInv`, in every run without stale callbacks).

With `CoverInv` and `ReassemblyInv`, in the runs of `round_heights_conserved`: while
downloading with nothing queued, `ppBlkHtNext` is held by a task of the current round
(`download_waits_on_task`).  A stale reply breaks this (`stale_reply_stalls_download`).
-/

namespace Fulcrum

namespace Controller

variable {V : Type} {cfg : Config V}

section

variable {c c' : Controller V} {sm : StateMachine}

/-! ## The drain loop runs to the end -/

/-- With a round for each entry of `ppBlocks`, the loop ends in `Failure`, or, without a
rejected block, with no entry at `ppBlkHtNext` first. -/
theorem drain_exhausts (fuel : Nat) : ∀ c : Controller V,
    (∀ sm, c.sm = some sm → sm.ppBlocks.size ≤ fuel) →
    ∀ sm, (drain cfg fuel c).1.sm = some sm → sm.state = .failure ∨
      ((drain cfg fuel c).2 = true ∧ sm.ppBlocks.keys.head? ≠ some sm.ppBlkHtNext) := by
  induction fuel with
  | zero =>
    intro c h sm hsm
    have h0 : sm.ppBlocks.keys = [] :=
      HeightMap.front?_eq_none.1 (List.head?_eq_none_iff.2 (List.eq_nil_of_length_eq_zero
        (Nat.le_zero.1 (h sm hsm))))
    exact .inr ⟨rfl, by rw [h0]; exact Option.noConfusion⟩
  | succ fuel ih =>
    intro c h
    by_cases hround : ∃ sm k ppb, c.sm = some sm ∧ sm.ppBlocks.front? = some (k, ppb) ∧
        k = sm.ppBlkHtNext
    · obtain ⟨sm, k, ppb, hsm, hf, rfl⟩ := hround
      rw [drain_succ_of_front cfg hsm hf rfl]
      cases hv : (cfg.verifier.verify (c.popFront sm ppb).storage.verifier ppb.header).1
      · rw [verifyAndAddBlock_of_reject cfg hv]
        intro sm' h'
        simp only [again_sm, setState_sm, popFront_sm, Option.map_some', Option.some.injEq] at h'
        cases h'
        exact .inl rfl
      · obtain ⟨hok, -, -, -, -, hsm', -⟩ := verifyAndAddBlock_of_accept cfg hv
        simp only [hok, Bool.true_eq_false, if_false]
        refine ih _ fun sm' h' => ?_
        rw [hsm', popFront_sm] at h'
        cases h'
        have := h sm hsm
        rw [HeightMap.size_eraseFront_of_front hf] at this
        exact Nat.le_of_succ_le_succ this
    · rw [drain_succ_of_not_front cfg fun sm hsm k ppb hf hk => hround ⟨sm, k, ppb, hsm, hf, hk⟩]
      refine fun sm hsm => .inr ⟨rfl, fun hk => hround ?_⟩
      rw [HeightMap.keys_head?] at hk
      obtain ⟨⟨k, v⟩, hf, hk⟩ := Option.map_eq_some'.1 hk
      exact ⟨sm, k, v, hsm, hf, hk⟩

/-! ## A buffered block at `ppBlkHtNext` is always taken out -/

/-- `ppBlkHtNext` is in the window, and a block buffered at it has a `process` queued. -/
def Drains (c : Controller V) (sm : StateMachine) : Prop :=
  sm.ppBlkHtNext ≤ sm.endHeight ∧
    (sm.ppBlocks.keys.head? = some sm.ppBlkHtNext → ∃ b, Msg.process b ∈ c.queue)

/-- Until a `Fatal()`, while downloading, the loop is never left with work it could do. -/
def DrainInv (c : Controller V) : Prop :=
  c.fatal = false → ∀ sm, c.sm = some sm → sm.state = .downloadingBlocks → Drains c sm

theorem DrainInv.of_not_downloading
    (h : ∀ sm, c.sm = some sm → sm.state ≠ .downloadingBlocks) : DrainInv c :=
  fun _ sm hsm hs => absurd hs (h sm hsm)

theorem DrainInv.of_frame (hi : DrainInv c) (h : RoundFrame c c') : DrainInv c' := by
  intro hf sm' hsm' hs'
  obtain ⟨hf0, hfo⟩ := h.follows hf
  obtain ⟨sm, hsm, hfol⟩ := hfo sm' hsm'
  obtain ⟨hs, hn, he⟩ := hfol.window hs'
  obtain ⟨hle, hq⟩ := hi hf0 sm hsm hs
  obtain ⟨l, hql, -⟩ := h.queue_eq
  refine ⟨hn ▸ he ▸ hle, fun hk => ?_⟩
  obtain ⟨b, hb⟩ := hq (by rwa [← hfol.keys_eq, ← hn])
  exact ⟨b, hql ▸ List.mem_append_left _ hb⟩

/-- A step that leaves the state machine and `fatal` alone, and takes no `process` off the
queue. -/
theorem DrainInv.of_queue (hi : DrainInv c) (hsm : c'.sm = c.sm) (hf : c'.fatal = c.fatal)
    (hq : ∀ b, Msg.process b ∈ c.queue → Msg.process b ∈ c'.queue) : DrainInv c' := by
  intro hf' sm h hs
  rw [hsm] at h
  obtain ⟨hle, hp⟩ := hi (hf ▸ hf') sm h hs
  exact ⟨hle, fun hk => (hp hk).imp hq⟩

/-- Taking any other message off the queue. -/
theorem DrainInv.dequeue (hi : DrainInv c) {i : Nat} {m : Msg} (hm : c.queue[i]? = some m)
    (hp : ∀ b, m ≠ .process b) : DrainInv (c.dequeue i) :=
  hi.of_queue rfl rfl fun b hb => by
    obtain ⟨j, hj⟩ := List.mem_iff_getElem?.1 hb
    refine List.mem_eraseIdx_iff_getElem?.2 ⟨j, fun e => hp b ?_, hj⟩
    rw [← e, hj] at hm
    exact (Option.some.inj hm).symm

/-- The `putBlock` lambda queues a `process` whenever it buffers a block. -/
theorem DrainInv.onPutBlock (hi : DrainInv c) {t : Nat} {p : PreProcessedBlock} :
    DrainInv (c.onPutBlock t p) := by
  unfold Controller.onPutBlock
  split
  · exact hi
  · rename_i sm hsm
    split
    · exact hi
    · split
      · exact hi
      · intro hf _ h hs
        cases h
        exact ⟨(hi hf sm hsm hs).1, fun _ => ⟨false, List.mem_append_right _ (.head _)⟩⟩

/-- `process_DownloadingBlocks`, from any controller: the loop runs to the end, and
`FinishedDL` is entered once `ppBlkHtNext` reaches `endHeight`. -/
theorem DrainInv.processDownloadingBlocks (c : Controller V) :
    DrainInv (processDownloadingBlocks cfg c) := by
  have hx := @drain_exhausts _ cfg (c.sm.elim 0 (·.ppBlocks.size)) c fun sm hsm => by
    rw [hsm]
    exact Nat.le_refl _
  unfold Controller.processDownloadingBlocks
  dsimp only
  split
  · rename_i h2
    intro _ sm hsm hs
    rcases hx sm hsm with hf | ⟨ht, -⟩
    · rw [hs] at hf
      cases hf
    · rw [ht] at h2
      cases h2
  · split
    · rename_i sm hsm
      split
      · refine .of_not_downloading fun sm' h => ?_
        simp only [again_sm, setState_sm, hsm, Option.map_some', Option.some.injEq] at h
        subst h
        exact fun h => by cases h
      · rename_i hlt
        intro _ sm' hsm' hs'
        rw [hsm] at hsm'
        cases hsm'
        rcases hx sm hsm with hf | ⟨-, hk⟩
        · rw [hs'] at hf
          cases hf
        · exact ⟨by omega, fun h => absurd h hk⟩
    · rename_i hsm
      exact .of_not_downloading fun _ h => by rw [hsm] at h; cases h

/-- `process()` makes `DrainInv` hold whatever came before: a chain-info task in `Begin`,
`GetBlocks` with nothing buffered, the drain loop, or no state machine. -/
theorem DrainInv.process (hr : ReassemblyInv c)
    (hok : ∀ sm, c.sm = some sm → SmOk c.storage.headers.length c.fatal sm) (b : Bool) :
    DrainInv (process cfg b c) := by
  unfold Controller.process
  dsimp only
  split
  · rename_i hb
    refine .of_not_downloading fun _ h => ?_
    cases h
    rw [hb]
    exact fun h => by cases h
  · intro hf sm' hsm' _
    obtain ⟨-, hk, hle, -⟩ :=
      tokens_getBlocks hr.refresh rfl ‹_› (smOk_getD (c := c) hok) hf hsm'
    exact ⟨hle, fun h => by rw [hk] at h; cases h⟩
  · exact .processDownloadingBlocks _
  all_goals exact .of_not_downloading fun _ h => by cases h

theorem DrainInv.init {st : Storage V} : DrainInv (init st) := fun _ _ h => by cases h

/-- Every event whose message, if any, is not a stale callback keeps `DrainInv`, in any
order. -/
theorem DrainInv.step (hi : DrainInv c) (hr : ReassemblyInv c) (hh : HeadersInv cfg c)
    {e : Event} (he : noStale c e = true) (h : step cfg c e = some c') : DrainInv c' := by
  cases step_spec h with
  | @handle i m _ hm =>
    have hs : stale c m = false := by simpa [noStale, hm] using he
    cases m with
    | process b => exact .process (hr.dequeue i) hh.sm_ok b
    | putBlock t p => exact (hi.dequeue hm fun _ h => by cases h).onPutBlock
    | _ =>
      exact (hi.dequeue hm fun _ h => by cases h).of_frame (.handle (fun _ h => by cases h)
        (fun _ _ h => by cases h) fun t r b he hr' hk => by
          cases he <;> exact begin_of_not_stale hr' hk hs)
  | deliver => exact hi.of_queue rfl rfl fun _ hb => List.mem_append_left _ hb
  | @progress task => exact hi.of_frame (.post (m := .progress task) fun _ _ h => by cases h)
  | @succeed task _ info => exact hi.of_frame (.succeed task info)
  | @fail task => exact hi.of_frame (.fail task)
  | pollTimer =>
    split
    · exact .process (hr.of_frame (.congr rfl rfl rfl rfl rfl)) hh.sm_ok true
    · exact hi.of_frame (.congr rfl rfl rfl rfl rfl)
  | callProcessTimer =>
    exact .process (c := { c with callProcessTimer := false })
      (hr.of_frame (.congr rfl rfl rfl rfl rfl)) hh.sm_ok false
  | connectionsLost | firstGoodConnection => exact hi.of_frame (.congr rfl rfl rfl rfl rfl)

/-- `DrainInv` holds in every run in which the controller's thread handles no stale
callback. -/
theorem reachable_drainInv (h : Reachable cfg (fun c e => noStale c e = true) c) :
    DrainInv c := by
  induction h with
  | init _ => exact .init
  | step e hr hok hs ih =>
    exact ih.step (reachable_reassemblyInv hr) (reachable_headersInv hr) hok hs

/-! ## What the download waits on -/

/-- While downloading with nothing queued, `ppBlkHtNext` is not buffered (its `process`
would be queued) and not posted, so a task of the round holds it. -/
theorem held_next_of_quiet (hd : DrainInv c) (hr : ReassemblyInv c) (hc : CoverInv c)
    (hf : c.fatal = false) (hsm : c.sm = some sm) (hs : sm.state = .downloadingBlocks)
    (hq : c.queue = []) :
    ∃ (t : Nat) (r : TaskRec), c.procs[t]? = some r ∧ r.epoch = c.epoch ∧
      sm.ppBlkHtNext ∈ r.pending := by
  obtain ⟨hle, hqd⟩ := hd hf sm hsm hs
  obtain ⟨-, hb⟩ := (hr.round_ok hf sm hsm).window hs
  rcases List.mem_append.1 (hc hf sm hsm hs _ (Nat.le_refl _) hle) with hk | hx
  · -- buffered first in `ppBlocks`: the `process` that would take it out is not queued
    obtain ⟨_, hp⟩ := hqd (HeightMap.keys_head?_of_le hk fun k hk' =>
      (hb k (List.mem_append_left _ hk')).1)
    rw [hq] at hp
    cases hp
  · -- nothing is posted, so a task holds it
    simp only [inFlight, posted, hq, List.filterMap_nil, List.nil_append, held,
      List.mem_flatMap] at hx
    obtain ⟨r, hr, hx⟩ := hx
    obtain ⟨t, ht⟩ := List.mem_iff_getElem?.1 hr
    by_cases he : r.epoch = c.epoch
    · exact ⟨t, r, ht, he, by simpa [he] using hx⟩
    · simp [he] at hx

/-- In every run in which the controller's thread runs its messages in the order they were
posted and handles no stale callback, until a `Fatal()`: while downloading with nothing
queued, `ppBlkHtNext` is held by a task of the current round.  The controller never waits
on a block that no task will hand over. -/
theorem download_waits_on_task (c : Controller V)
    (h : Reachable cfg (fun c e => (e.inOrder && noStale c e) = true) c) (hf : c.fatal = false)
    (sm : StateMachine) (hsm : c.sm = some sm) (hs : sm.state = .downloadingBlocks)
    (hq : c.queue = []) :
    ∃ (t : Nat) (r : TaskRec), c.procs[t]? = some r ∧ r.epoch = c.epoch ∧
      sm.ppBlkHtNext ∈ r.pending := by
  have hns := h.mono fun _ _ h => (Bool.and_eq_true_iff.1 h).2
  exact held_next_of_quiet (reachable_drainInv hns) (reachable_reassemblyInv hns)
    (reachable_coverInv h) hf hsm hs hq

/-- `inOrderRun` once block `1` is buffered and the `process()` after it has run: nothing
is queued, and the first task holds `ppBlkHtNext = 0`. -/
theorem download_waits_on_task_in_order :
    ∃ c sm, execIf threeCoreConfig (fun c e => e.inOrder && noStale c e) (init emptyStorage)
        (inOrderRun.take 13) = some c ∧
      c.fatal = false ∧ c.sm = some sm ∧ sm.state = .downloadingBlocks ∧ c.queue = [] ∧
      sm.ppBlocks.keys = [1] ∧
      ∃ (t : Nat) (r : TaskRec), c.procs[t]? = some r ∧ r.epoch = c.epoch ∧
      sm.ppBlkHtNext ∈ r.pending :=
  ⟨_, _, rfl, rfl, rfl, rfl, rfl, rfl, download_waits_on_task _
    ((Reachable.init loaded_emptyStorage_threeCore).execIf
      (rfl : execIf threeCoreConfig (fun c e => e.inOrder && noStale c e) (init emptyStorage)
        (inOrderRun.take 13) = some _)) rfl _ rfl rfl rfl⟩

end

end Controller

end Fulcrum
