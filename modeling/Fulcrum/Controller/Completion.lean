import Mathlib.Algebra.BigOperators.Group.List
import Fulcrum.Controller.Diagram
import Fulcrum.Controller.Liveness

/-!
# Fulcrum.Controller.Completion

A download round always ends when the tasks do their part.  Take any reachable state in
`DownloadingBlocks`, in a run whose messages run in order with no stale callback, and with
no stale message queued.  Let the controller's thread run its queue in order, and only
when the queue is empty let the task that holds `ppBlkHtNext` hand that block over: the
schedule `roundSchedule`.  Whatever the blocks are, this run is finite, and it ends the
round (`download_round_ends`) in
`FinishedDL`, in `Failure` on a rejected header, or in `Fatal()`.  No timer, no reply, and
no other task's signal is needed.

The proof is a measure argument.  `roundMeasure` counts three per height a task still
holds, plus the weight of the queue (`Msg.weight`): two for a block or a `stop`, whose
handlers post one message, and one for anything else.  While the round lasts, every
handler posts less than the message it takes off weighs (`Posts`, `Posts.handle`).  A
hand-over takes a height from a task and posts one block (`roundMeasure_deliver`).  When
the queue is empty, `controller_never_stalls`'s invariants give the task that can hand
the block over.

The model's runs with no stale callback never handle a stale message, so one at the head
of the queue would block the thread; the hypothesis `Fresh` rules that out, and the run
keeps it.
-/

namespace Fulcrum

/-- What a queued message weighs in the measure of a download round: a block and a `stop`
two, as their handlers post one message each (`AGAIN()`, `finished`), anything else one. -/
def Msg.weight : Msg → Nat
  | .putBlock .. | .stop _ => 2
  | _ => 1

theorem Msg.one_le_weight (m : Msg) : 1 ≤ m.weight := by
  cases m <;> simp [Msg.weight]

namespace Controller

variable {V : Type} {cfg : Config V}

/-- The heights the tasks still hold. -/
def pendingCount (c : Controller V) : Nat := (c.procs.map (·.pending.length)).sum

/-- The weight of the queue. -/
def queueWeight (c : Controller V) : Nat := (c.queue.map Msg.weight).sum

/-- Three per height a task still holds, and the weight of the queue. -/
def roundMeasure (c : Controller V) : Nat := 3 * pendingCount c + queueWeight c

/-- No queued message is stale. -/
def Fresh (c : Controller V) : Prop := ∀ m ∈ c.queue, stale c m = false

instance (c : Controller V) : Decidable (Fresh c) :=
  inferInstanceAs (Decidable (∀ m ∈ c.queue, stale c m = false))

/-- The round is over: `Fatal()`, or the state machine has left `DownloadingBlocks`. -/
def RoundOver (c : Controller V) : Prop := c.fatal = true ∨ phase c ≠ some .downloadingBlocks

/-- A handler's work inside the round: the tasks keep their epochs, kinds and heights, the
epoch and the phase stay, and it posts messages of no task, weighing at most `w`. -/
structure Posts (c c' : Controller V) (w : Nat) : Prop where
  procs_eq : c'.procs.map (fun r => (r.epoch, r.kind, r.pending)) =
    c.procs.map (fun r => (r.epoch, r.kind, r.pending))
  epoch_eq : c'.epoch = c.epoch
  phase_eq : phase c' = phase c
  queue_eq : ∃ l, c'.queue = c.queue ++ l ∧ (l.map Msg.weight).sum ≤ w ∧ ∀ x ∈ l, x.task? = none

/-! ## The measure -/

theorem sum_map_modify {α : Type} (f : α → Nat) (g : α → α) :
    ∀ (l : List α) (k : Nat) (a : α), l[k]? = some a →
      ((l.modify g k).map f).sum + f a = (l.map f).sum + f (g a)
  | [], _, _, h => by cases h
  | b :: l, 0, a, h => by
    rw [List.getElem?_cons_zero, Option.some_inj] at h
    subst h
    simp only [List.modify_zero_cons, List.map_cons, List.sum_cons]
    omega
  | b :: l, k + 1, a, h => by
    rw [List.getElem?_cons_succ] at h
    have := sum_map_modify f g l k a h
    simp only [List.modify_succ_cons, List.map_cons, List.sum_cons]
    omega

theorem queueWeight_dequeue {c : Controller V} {m : Msg} (hm : c.queue[0]? = some m) :
    queueWeight (c.dequeue 0) + m.weight = queueWeight c := by
  have := ((perm_eraseIdx hm).map Msg.weight).sum_eq
  simp only [List.map_cons, List.sum_cons] at this
  simp only [queueWeight, dequeue_queue]
  omega

/-- A hand-over takes a height from a task and posts one block. -/
theorem roundMeasure_deliver {c : Controller V} {t : Nat} {r : TaskRec} {ppb : PreProcessedBlock}
    (hr : c.procs[t]? = some r) (hh : ppb.height ∈ r.pending) :
    roundMeasure ((c.modifyProc t (TaskRec.handOver · ppb)).post (.putBlock t ppb)) + 1 =
      roundMeasure c := by
  have hs := sum_map_modify (·.pending.length) (TaskRec.handOver · ppb) c.procs t r hr
  have hl : (r.handOver ppb).pending.length + 1 = r.pending.length := by
    rw [TaskRec.handOver, List.length_erase_of_mem hh]
    exact Nat.sub_add_cancel (List.length_pos_of_mem hh)
  simp only at hs
  simp only [roundMeasure, pendingCount, queueWeight, post_queue, post_procs, modifyProc_queue,
    modifyProc_procs,
    List.map_append, List.sum_append, List.map_cons, List.map_nil, List.sum_cons, List.sum_nil,
    Msg.weight]
  omega

/-! ## Steps inside the round -/

section

variable {c c' c'' : Controller V} {w w' : Nat}

theorem Posts.refl (c : Controller V) : Posts c c 0 := ⟨rfl, rfl, rfl, [], by simp, by simp, by simp⟩

theorem Posts.trans (h : Posts c c' w) (h' : Posts c' c'' w') : Posts c c'' (w + w') := by
  obtain ⟨l, hq, hw, hl⟩ := h.queue_eq
  obtain ⟨l', hq', hw', hl'⟩ := h'.queue_eq
  refine ⟨h'.procs_eq.trans h.procs_eq, h'.epoch_eq.trans h.epoch_eq, h'.phase_eq.trans h.phase_eq,
    l ++ l', by rw [hq', hq, List.append_assoc], ?_, fun x hx => ?_⟩
  · rw [List.map_append, List.sum_append]
    omega
  · rcases List.mem_append.1 hx with hx | hx
    · exact hl x hx
    · exact hl' x hx

theorem Posts.mono (h : Posts c c' w) (hw : w ≤ w') : Posts c c' w' := by
  obtain ⟨l, hq, hl, hx⟩ := h.queue_eq
  exact ⟨h.procs_eq, h.epoch_eq, h.phase_eq, l, hq, hl.trans hw, hx⟩

theorem Posts.of_eq (hp : c'.procs = c.procs) (he : c'.epoch = c.epoch) (hph : phase c' = phase c)
    (hq : c'.queue = c.queue) : Posts c c' 0 :=
  ⟨by rw [hp], he, hph, [], by rw [hq, List.append_nil], by simp, by simp⟩

theorem Posts.again (c : Controller V) : Posts c c.again 1 :=
  ⟨rfl, rfl, rfl, [.process false], rfl, by simp [Msg.weight], by simp [Msg.task?]⟩

theorem Posts.modifyProc {t : Nat} {g : TaskRec → TaskRec}
    (hg : ∀ r, (g r).epoch = r.epoch ∧ (g r).kind = r.kind ∧ (g r).pending = r.pending) :
    Posts c (c.modifyProc t g) 0 :=
  ⟨map_modify_of_comp (fun r => by rw [(hg r).1, (hg r).2.1, (hg r).2.2]) _ _, rfl, rfl,
    [], by simp, by simp, by simp⟩

theorem Posts.pendingCount_eq (h : Posts c c' w) : pendingCount c' = pendingCount c := by
  have := congrArg (List.map fun k : Nat × TaskKind × List Nat => k.2.2.length) h.procs_eq
  simp only [List.map_map] at this
  exact congrArg List.sum this

theorem Posts.queueWeight_le (h : Posts c c' w) : queueWeight c' ≤ queueWeight c + w := by
  obtain ⟨l, hq, hw, -⟩ := h.queue_eq
  simp only [queueWeight, hq, List.map_append, List.sum_append]
  omega

/-- `stale` reads the tasks' epochs and kinds, the epoch and the phase. -/
theorem stale_congr (hp : c'.procs.map (fun r => (r.epoch, r.kind)) =
    c.procs.map (fun r => (r.epoch, r.kind))) (he : c'.epoch = c.epoch)
    (hph : phase c' = phase c) (m : Msg) : stale c' m = stale c m := by
  have hk : ∀ t, Option.map (fun r : TaskRec => (r.epoch, r.kind)) c'.procs[t]? =
      Option.map (fun r : TaskRec => (r.epoch, r.kind)) c.procs[t]? := fun t => by
    rw [← List.getElem?_map, ← List.getElem?_map, hp]
  have hany : ∀ c₀ : Controller V, c₀.sm.any (·.state != .begin) = (phase c₀).any (· != .begin) :=
    fun c₀ => by simp only [phase]; cases c₀.sm <;> rfl
  unfold stale
  cases ht : m.task? with
  | none => rfl
  | some t =>
    simp only [Option.some_bind]
    have := hk t
    cases h' : c'.procs[t]? with
    | none =>
      cases h : c.procs[t]? with
      | none => rfl
      | some r =>
        rw [h', h] at this
        cases this
    | some r' =>
      cases h : c.procs[t]? with
      | none =>
        rw [h', h] at this
        cases this
      | some r =>
        rw [h', h] at this
        obtain ⟨he', hk'⟩ := Prod.mk.inj (Option.some.inj this)
        simp only [he', hk', he, hany c', hany c, hph]

theorem Fresh.posts (hf : Fresh c) (h : Posts c c' w) : Fresh c' := by
  have hs : ∀ m, stale c' m = stale c m := stale_congr (by
    have := congrArg (List.map fun k : Nat × TaskKind × List Nat => (k.1, k.2.1)) h.procs_eq
    simpa only [List.map_map] using this) h.epoch_eq h.phase_eq
  obtain ⟨l, hq, -, hl⟩ := h.queue_eq
  intro m hm
  rw [hq] at hm
  rcases List.mem_append.1 hm with hm | hm
  · rw [hs]
    exact hf m hm
  · simp [stale, hl m hm]

theorem Fresh.dequeue (hf : Fresh c) (i : Nat) : Fresh (c.dequeue i) :=
  fun m hm => hf m (List.mem_of_mem_eraseIdx hm)


/-! ## The handlers, while downloading -/

/-- The drain loop posts nothing unless a header is rejected. -/
theorem drain_queue (fuel : Nat) : ∀ c : Controller V,
    (drain cfg fuel c).2 = true → (drain cfg fuel c).1.queue = c.queue := by
  induction fuel with
  | zero => exact fun _ _ => rfl
  | succ fuel ih =>
    intro c h
    by_cases hround : ∃ sm k ppb, c.sm = some sm ∧ sm.ppBlocks.front? = some (k, ppb) ∧
        k = sm.ppBlkHtNext
    · obtain ⟨sm, k, ppb, hsm, hf, rfl⟩ := hround
      rw [drain_succ_of_front cfg hsm hf rfl] at h ⊢
      cases hv : (cfg.verifier.verify (c.popFront sm ppb).storage.verifier ppb.header).1
      · rw [verifyAndAddBlock_of_reject cfg hv] at h
        cases h
      · obtain ⟨hok, -, -, -, -, -, -, -, hq, -⟩ := verifyAndAddBlock_of_accept cfg hv
        simp only [hok, Bool.true_eq_false, if_false] at h ⊢
        rw [ih _ h, hq, popFront_queue]
    · rw [drain_succ_of_not_front cfg fun sm hsm k ppb hf hk => hround ⟨sm, k, ppb, hsm, hf, hk⟩]

variable (cfg) in
/-- `process_DownloadingBlocks()`: unless the round ends, it posts nothing. -/
theorem Posts.processDownloadingBlocks (c : Controller V) :
    RoundOver (processDownloadingBlocks cfg c) ∨ Posts c (processDownloadingBlocks cfg c) 0 := by
  obtain ⟨hp, -, he, -⟩ := drain_frame cfg (c.sm.elim 0 (·.ppBlocks.size)) c
  unfold Controller.processDownloadingBlocks
  dsimp only
  rcases drain_phase (c.sm.elim 0 (·.ppBlocks.size)) c with ⟨h1, h2⟩ | ⟨h1, h2⟩
  · have hd : Posts c (drain cfg (c.sm.elim 0 (·.ppBlocks.size)) c).1 0 :=
      .of_eq hp he h2 (drain_queue _ c h1)
    rw [if_neg (by rw [h1]; decide)]
    split
    · rename_i sm hsm
      split
      · exact .inl (.inr (by simp only [phase, again_sm, setState_sm, hsm, Option.map_some']; decide))
      · exact .inr hd
    · exact .inr hd
  · rw [if_pos h1]
    exact .inl (.inr (by rw [h2]; decide))

variable (cfg) in
/-- `process` on a machine in `DownloadingBlocks` stops the poll timer and drains. -/
theorem process_downloading {c : Controller V} {sm : StateMachine} (hsm : c.sm = some sm)
    (hs : sm.state = .downloadingBlocks) (b : Bool) :
    process cfg b c = processDownloadingBlocks cfg { c with pollTimer := none } := by
  obtain ⟨⟩ := c
  subst hsm
  simp only [process, Option.getD_some, Option.isNone_some, hs]
  rfl

theorem Posts.process {c : Controller V} (hdl : phase c = some .downloadingBlocks) (b : Bool) :
    RoundOver (process cfg b c) ∨ Posts c (process cfg b c) 0 := by
  obtain ⟨sm, hsm, hs⟩ := Option.map_eq_some'.1 hdl
  rw [process_downloading cfg hsm hs b]
  rcases Posts.processDownloadingBlocks cfg { c with pollTimer := none } with h | h
  · exact .inl h
  · exact .inr ((Posts.of_eq rfl rfl rfl rfl : Posts c { c with pollTimer := none } 0).trans h)

theorem roundOver_genericTaskErrored {c : Controller V} (hdl : phase c = some .downloadingBlocks) :
    RoundOver c.genericTaskErrored := by
  obtain ⟨sm, hsm, hs⟩ := Option.map_eq_some'.1 hdl
  exact .inr (by simp [Controller.genericTaskErrored, hsm, hs, phase])

/-- The handlers, in `DownloadingBlocks`: unless the round ends, each posts less than the
message it runs weighs.  A chain-info reply would be stale here. -/
theorem Posts.handle {c : Controller V} (hdl : phase c = some .downloadingBlocks) {m : Msg}
    (hs : stale c m = false) :
    RoundOver (handle cfg c m) ∨ Posts c (handle cfg c m) (m.weight - 1) := by
  obtain ⟨sm, hsm, hst⟩ := Option.map_eq_some'.1 hdl
  have h0 : Posts c c (m.weight - 1) := (Posts.refl c).mono (Nat.zero_le _)
  cases m with
  | process b => exact Posts.process hdl b
  | putBlock t p =>
    refine .inr ?_
    simp only [Controller.handle, Controller.onPutBlock, hsm]
    split_ifs
    · exact h0
    · exact h0
    · have h1 : Posts c { c with sm := some { sm with ppBlocks := sm.ppBlocks.insert p.height p } } 0 :=
        .of_eq rfl rfl (by simp [phase, hsm]) rfl
      exact h1.trans (Posts.again _)
  | success t =>
    simp only [Controller.handle]
    split
    · rename_i r hr
      split
      · refine .inr ?_
        simp only [Controller.onDownloadSuccess, hsm]
        split
        · exact h0
        · exact .of_eq rfl rfl (by simp [phase, hsm]) rfl
      · -- a chain-info reply, handled out of `Begin`, is stale
        rename_i b hk
        simp [stale, Msg.task?, hr, hk, hsm, hst] at hs
    · exact .inr h0
  | errored t =>
    simp only [Controller.handle]
    split
    · split
      · simp only [Controller.onDownloadErrored, hsm]
        split_ifs
        · exact .inr h0
        · exact .inr h0
        · exact .inl (roundOver_genericTaskErrored hdl)
      · exact .inl (roundOver_genericTaskErrored hdl)
    · exact .inr h0
  | stop t =>
    refine .inr ?_
    simp only [Controller.handle]
    split
    · split
      · exact h0
      · have h1 : Posts c (c.modifyProc t ({ · with stopped := true })) 0 :=
          Posts.modifyProc fun _ => ⟨rfl, rfl, rfl⟩
        exact ⟨h1.procs_eq, rfl, rfl, [.finished t], rfl,
          by simp [Msg.weight], by simp [Msg.task?]⟩
    · exact h0
  | start t =>
    refine .inr ?_
    simp only [Controller.handle]
    split
    · exact h0
    · exact Posts.modifyProc fun _ => ⟨rfl, rfl, rfl⟩
  | progress t => exact .inr h0
  | finished t => exact .inr (Posts.of_eq rfl rfl rfl rfl)

end

/-! ## The round ends -/

theorem diagram_from_downloading {p : Option State}
    (h : diagram (some .downloadingBlocks) p = true) : p = some .finishedDL ∨ p = some .failure := by
  rcases p with _ | s
  · cases h
  · cases s <;> first | exact .inl rfl | exact .inr rfl | cases h

theorem execIf_cons {ok : Controller V → Event → Bool} {c c₁ : Controller V} {e : Event}
    {es : List Event} (hok : ok c e = true) (hs : step cfg c e = some c₁) :
    execIf cfg ok c (e :: es) = execIf cfg ok c₁ es := by
  simp [execIf, hok, hs]

/-- The cooperative schedule of a download round, as a predicate on the next event: the
controller's thread runs the head of its queue, unless it is stale, and only when the queue
is empty does the task that holds `ppBlkHtNext` hand that block, `blk ppBlkHtNext`, over. -/
def roundSchedule (blk : Nat → PreProcessedBlock) (c : Controller V) : Event → Bool
  | .handle i => i == 0 && noStale c (.handle i)
  | .deliver t ppb => c.queue.isEmpty && c.sm.any fun sm =>
      decide (ppb = blk sm.ppBlkHtNext) && c.procs[t]?.any (·.pending.contains sm.ppBlkHtNext)
  | _ => false

theorem roundSchedule_inOrder {blk : Nat → PreProcessedBlock} {c : Controller V} {e : Event}
    (h : roundSchedule blk c e = true) : (e.inOrder && noStale c e) = true := by
  cases e with
  | handle i => exact h
  | deliver => rfl
  | _ => cases h

/-- One event of the cooperative schedule.  Either the round is over, or the measure drops
and the state is again fresh and in `DownloadingBlocks`. -/
theorem round_step (blk : Nat → PreProcessedBlock) (hblk : ∀ h, (blk h).height = h)
    (hhdr : ∀ h, (blk h).header.length = cfg.headerSize) {c : Controller V}
    (hr : Reachable cfg (fun c e => (e.inOrder && noStale c e) = true) c)
    (hdl : phase c = some .downloadingBlocks) (hfr : Fresh c) (hf : c.fatal = false) :
    ∃ e c₁, roundSchedule blk c e = true ∧ step cfg c e = some c₁ ∧
      (RoundOver c₁ ∨
        roundMeasure c₁ < roundMeasure c ∧ phase c₁ = some .downloadingBlocks ∧ Fresh c₁) := by
  cases hq : c.queue with
  | cons m q =>
    -- the thread runs the head of the queue
    have hm : c.queue[0]? = some m := by simp [hq]
    have hs : stale c m = false := hfr m (by rw [hq]; exact .head _)
    refine ⟨.handle 0, handle cfg (c.dequeue 0) m, by simp [roundSchedule, noStale, hm, hs],
      by simp [step, hf, hm], ?_⟩
    rcases Posts.handle (c := c.dequeue 0) hdl hs with h | h
    · exact .inl h
    · refine .inr ⟨?_, h.phase_eq.trans hdl, (hfr.dequeue 0).posts h⟩
      have h1 : pendingCount (handle cfg (c.dequeue 0) m) = pendingCount c := h.pendingCount_eq
      have h2 := h.queueWeight_le
      have h3 := queueWeight_dequeue hm
      have h4 := m.one_le_weight
      simp only [roundMeasure]
      omega
  | nil =>
    -- the queue is empty: the task that holds `ppBlkHtNext` hands it over
    obtain ⟨sm, hsm, hs⟩ := Option.map_eq_some'.1 hdl
    have hns := hr.mono fun _ _ h => (Bool.and_eq_true_iff.1 h).2
    have ht := reachable_taskInv hr
    obtain ⟨t, r, hrt, he, hx⟩ := held_next_of_quiet (reachable_drainInv hns)
      (reachable_reassemblyInv hns) (reachable_coverInv hr) hf hsm hs hq
    have hne : r.pending ≠ [] := List.ne_nil_of_mem hx
    have hst := (reachable_waitInv hr hf sm hsm hs t r hrt he hne).1
    have hh : (blk sm.ppBlkHtNext).height ∈ r.pending := by rw [hblk]; exact hx
    have hcan : r.CanDeliver cfg.headerSize (blk sm.ppBlkHtNext) :=
      ⟨ht.running_of_quiet hq hrt hst, ht.isDownload_of_pending hrt hne, hh, hhdr _⟩
    refine ⟨.deliver t (blk sm.ppBlkHtNext), _, by simp [roundSchedule, hq, hsm, hrt, hx],
      by simp [step, hrt, hf, hcan],
      .inr ⟨Nat.lt_of_lt_of_eq (Nat.lt_succ_self _) (roundMeasure_deliver hrt hh), hdl, ?_⟩⟩
    intro m' hm'
    simp only [post_queue, modifyProc_queue, hq, List.nil_append, List.mem_singleton] at hm'
    subst hm'
    simp [stale, Msg.task?, hrt, he, TaskRec.handOver]

/-- The cooperative run, by induction on a bound of the measure. -/
theorem round_ends_of_measure (blk : Nat → PreProcessedBlock) (hblk : ∀ h, (blk h).height = h)
    (hhdr : ∀ h, (blk h).header.length = cfg.headerSize) (n : Nat) :
    ∀ c : Controller V, roundMeasure c < n →
      Reachable cfg (fun c e => (e.inOrder && noStale c e) = true) c →
      phase c = some .downloadingBlocks → Fresh c →
      ∃ es c', execIf cfg (roundSchedule blk) c es = some c' ∧
        (c'.fatal = true ∨ phase c' = some .finishedDL ∨ phase c' = some .failure) := by
  induction n with
  | zero => exact fun c h => absurd h (Nat.not_lt_zero _)
  | succ n ih =>
    intro c hn hr hdl hfr
    cases hf : c.fatal
    case true => exact ⟨[], c, rfl, .inl hf⟩
    obtain ⟨e, c₁, hok, hs, h⟩ := round_step blk hblk hhdr hr hdl hfr hf
    have hok' := roundSchedule_inOrder hok
    have h1 : execIf cfg (roundSchedule blk) c [e] = some c₁ := by
      rw [execIf_cons hok hs]
      rfl
    rcases h with (hf₁ | hph) | ⟨hn₁, hdl₁, hfr₁⟩
    · exact ⟨[e], c₁, h1, .inl hf₁⟩
    · -- out of `DownloadingBlocks`, along an edge of the diagram
      rcases Moves.step (Bool.and_eq_true_iff.1 hok').2 hs with h | h
      · exact absurd (h.trans hdl) hph
      · rw [hdl] at h
        exact ⟨[e], c₁, h1, .inr (diagram_from_downloading h)⟩
    · obtain ⟨es, c', hx, hend⟩ := ih c₁ (by omega) (hr.step e hok' hs) hdl₁ hfr₁
      exact ⟨e :: es, c', by rw [execIf_cons hok hs]; exact hx, hend⟩

/-- In every run in which the controller's thread runs its messages in the order they were
posted and handles no stale callback: from a state in `DownloadingBlocks` with no stale
message queued, whatever blocks the tasks hand over, the cooperative schedule
(`roundSchedule`: the thread runs its queue in order and, only when the queue is empty, the
task holding `ppBlkHtNext` hands that block over) ends the round after finitely many
events, in `FinishedDL`, in `Failure` (a rejected header) or in `Fatal()`. -/
theorem download_round_ends (blk : Nat → PreProcessedBlock) (hblk : ∀ h, (blk h).height = h)
    (hhdr : ∀ h, (blk h).header.length = cfg.headerSize) {c : Controller V}
    (h : Reachable cfg (fun c e => (e.inOrder && noStale c e) = true) c)
    (hdl : phase c = some .downloadingBlocks) (hfr : Fresh c) :
    ∃ es c', execIf cfg (roundSchedule blk) c es = some c' ∧
      (c'.fatal = true ∨ phase c' = some .finishedDL ∨ phase c' = some .failure) :=
  round_ends_of_measure blk hblk hhdr _ c (Nat.lt_succ_self _) h hdl hfr

/-- `inOrderRun`, with block `0` posted and block `1` buffered: under the cooperative
schedule the thread stores both, the first task hands block `2` over, and the round ends. -/
theorem download_round_ends_in_order :
    ∃ c, execIf threeCoreConfig (fun c e => e.inOrder && noStale c e) (init emptyStorage)
        inOrderRun = some c ∧ phase c = some .downloadingBlocks ∧ Fresh c ∧
      ∃ es c', execIf threeCoreConfig (roundSchedule zeroBlock) c es = some c' ∧
        (c'.fatal = true ∨ phase c' = some .finishedDL ∨ phase c' = some .failure) :=
  ⟨_, rfl, rfl, by decide, download_round_ends zeroBlock (fun _ => rfl) (fun _ => rfl)
    ((Reachable.init loaded_emptyStorage_threeCore).execIf
      (rfl : execIf threeCoreConfig (fun c e => e.inOrder && noStale c e) (init emptyStorage)
        inOrderRun = some _)) rfl (by decide)⟩

end Controller

end Fulcrum
