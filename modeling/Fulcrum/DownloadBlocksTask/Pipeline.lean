import Fulcrum.DownloadBlocksTask.Invariant

/-!
# Fulcrum.DownloadBlocksTask.Pipeline

The request pipeline of a download task whose replies are all valid.  `q_ct` counts the
work the task has in progress — requests in flight and queued `process()` re-entries that
will submit one — and `do_get` tops it up to `max_q` after every block:

* before the first block `q_ct` is one less than that work (the first `process()` is not
  counted), which the saturating decrement absorbs;
* from the first block until the last, `q_ct` is exactly that work, and
  `goodCt + q_ct ≤ expectedCt`, so the work never exceeds `max_q` and never runs out;
* after the last block the only work left is the final re-entry `maybeDone` queued, which
  `q_ct` does not count; it emits `success`, and nothing is left.

`Pipeline` states this; `reachable_pipeline` proves it for every valid run, and
`download_delivers_each_height_once` draws the delivery guarantee from it.
-/

namespace Fulcrum

namespace DownloadBlocksTask

/-- The pipeline bookkeeping of a valid run, against `E = expectedCt`. -/
structure Pipeline (nClients E : Nat) (r : Run) : Prop where
  expected_pos : 0 < E
  good_add_q : r.task.goodCt + r.task.qCt ≤ E
  q_le : r.task.qCt ≤ maxQ nClients
  q_zero : r.task.goodCt = 0 → r.task.qCt = 0
  q_pos : 0 < r.task.goodCt → r.task.goodCt < E → 0 < r.task.qCt
  full : E ≤ r.task.goodCt → r.task.maybeDone = true
  pending_first : r.task.maybeDone = false → r.task.goodCt = 0 →
    r.inflight.length + r.queued = r.task.qCt + 1
  pending : r.task.maybeDone = false → 0 < r.task.goodCt →
    r.inflight.length + r.queued = r.task.qCt
  done : r.task.maybeDone = true → r.task.qCt = 0 ∧ r.inflight = [] ∧
    (r.queued = 1 ∧ Effect.success ∉ r.log ∨
      r.queued = 0 ∧ ∃ pre, r.log = pre ++ [.success] ∧ Effect.success ∉ pre)
  issued : r.requested.length = r.task.goodCt + r.inflight.length
  no_errored : Effect.errored ∉ r.log

section

variable {btc : Btc} {nClients f t s E : Nat} {r : Run}

theorem Pipeline.start (hft : f ≤ t) (hs : 0 < s) (hts : t + s < 2 ^ 32)
    {tk : DownloadBlocksTask} (h : make f t s = some tk) :
    Pipeline nClients (nToDL f t s) (.start tk) := by
  have hE : 0 < nToDL f t s := (lt_nToDL_iff hft hs hts 0).1 (by omega)
  unfold make at h
  split at h
  · cases h
    exact { expected_pos := hE, good_add_q := Nat.zero_le _, q_le := Nat.zero_le _, q_zero := fun _ => rfl
            q_pos := fun h => absurd h (Nat.lt_irrefl 0)
            full := fun h => absurd h (by simp only [Run.start]; omega)
            pending_first := fun _ _ => rfl, pending := fun _ h => absurd h (Nat.lt_irrefl 0)
            done := fun h => absurd h Bool.false_ne_true, issued := rfl
            no_errored := by simp [Run.start] }
  · cases h

/-- A queued `process()` keeps `Pipeline`: before `maybeDone` it always finds a height to
request, and after it, it emits the one `success`. -/
theorem Pipeline.process (hft : f ≤ t) (hs : 0 < s) (hts : t + s < 2 ^ 32)
    (hi : Inv btc f t s r) (hp : Pipeline nClients (nToDL f t s) r) (hq : 0 < r.queued) :
    Pipeline nClients (nToDL f t s) (r.dequeue.apply r.task.process) := by
  have hE := hi.expectedCt_eq
  cases hmd : r.task.maybeDone
  · -- some queued work is left, so `next` is still in range
    have hwork : r.requested.length + r.queued ≤ nToDL f t s := by
      have := hp.issued; have := hp.good_add_q
      have : 0 < nToDL f t s := (lt_nToDL_iff hft hs hts 0).1 (by omega)
      rcases Nat.eq_zero_or_pos r.task.goodCt with hg | hg
      · have := hp.pending_first hmd hg; have := hp.q_zero hg; omega
      · have := hp.pending hmd hg; omega
    have hn : r.task.next ≤ r.task.«to» := by
      rw [hi.next_eq, hi.to_eq]
      exact (lt_nToDL_iff hft hs hts r.requested.length).2 (by omega)
    rcases process_cases r.task with ⟨-, hpr⟩ | ⟨hn', -⟩ | ⟨hn', -⟩ | ⟨hn', -⟩ <;>
      try exact absurd hn (Nat.not_le.2 hn')
    rw [hpr]
    have hc : [Effect.getblockhash r.task.next].count .again = 0 := rfl
    exact { expected_pos := hp.expected_pos, good_add_q := hp.good_add_q, q_le := hp.q_le, q_zero := hp.q_zero
            q_pos := hp.q_pos, full := hp.full
            pending_first := fun h1 h2 => by
              have := hp.pending_first h1 h2
              simp only [Run.apply_inflight, Run.apply_queued, Run.dequeue_inflight,
                Run.dequeue_queued, hc] at *
              simp [requestOf]; omega
            pending := fun h1 h2 => by
              have := hp.pending h1 h2
              simp only [Run.apply_inflight, Run.apply_queued, Run.dequeue_inflight,
                Run.dequeue_queued, hc] at *
              simp [requestOf]; omega
            done := fun h => absurd h (by simp [hmd])
            issued := by have := hp.issued; simp [requestOf, Effect.hashHeight?]; omega
            no_errored := by simpa using hp.no_errored }
  · -- the final re-entry
    obtain ⟨hq0, hin, ⟨hq1, hsucc⟩ | ⟨hq1, -⟩⟩ := hp.done hmd
    · have hg : nToDL f t s ≤ r.task.goodCt := hi.maybeDone_le hmd
      have hn : r.task.«to» < r.task.next := by
        have h1 := hp.issued; have := hi.issued_le
        rw [hin, List.length_nil, Nat.add_zero] at h1
        rw [hi.next_eq, hi.to_eq]
        exact Nat.lt_of_not_le fun h' =>
          absurd ((lt_nToDL_iff hft hs hts r.requested.length).1 h') (by omega)
      rcases process_cases r.task with ⟨hn', -⟩ | ⟨-, hd, -⟩ | ⟨-, -, -, hpr⟩ | ⟨-, -, hg', -⟩
      · exact absurd hn (Nat.not_lt.2 hn')
      · exact absurd hd (by simp [hmd])
      · rw [hpr]
        exact { expected_pos := hp.expected_pos, good_add_q := hp.good_add_q, q_le := hp.q_le, q_zero := hp.q_zero
                q_pos := hp.q_pos, full := hp.full
                pending_first := fun h => by simp [hmd] at h
                pending := fun h => by simp [hmd] at h
                done := fun _ => ⟨hq0, by simpa [requestOf] using hin,
                  .inr ⟨by simp [hq1], r.log, rfl, hsucc⟩⟩
                issued := by simpa [Effect.hashHeight?, requestOf] using hp.issued
                no_errored := by simpa using hp.no_errored }
      · exact absurd hg (by rw [← hE]; omega)
    · omega

/-- A valid `getblockhash` reply keeps `Pipeline`: the request in flight becomes a
`getblock` for the same height. -/
theorem Pipeline.getblock (hp : Pipeline nClients E r) {h : Nat} {hash : Bytes}
    (hin : Request.getblockhash h ∈ r.inflight) :
    Pipeline nClients E ((r.answer (.getblockhash h)).apply (r.task, [.getblock h hash])) := by
  have hl : ((r.answer (.getblockhash h)).apply (r.task, [.getblock h hash])).inflight.length =
      r.inflight.length := by
    simp [requestOf, List.length_erase_of_mem hin]
    have := List.length_pos_of_mem hin; omega
  have hmd : r.task.maybeDone = false := by
    cases hd : r.task.maybeDone
    · rfl
    · simp [(hp.done hd).2.1] at hin
  exact { expected_pos := hp.expected_pos, good_add_q := hp.good_add_q, q_le := hp.q_le, q_zero := hp.q_zero
          q_pos := hp.q_pos, full := hp.full
          pending_first := fun h1 h2 => by rw [hl]; exact hp.pending_first h1 h2
          pending := fun h1 h2 => by rw [hl]; exact hp.pending h1 h2
          done := fun h => absurd h (by simp [hmd])
          issued := by rw [hl]; simpa [Effect.hashHeight?] using hp.issued
          no_errored := by simpa using hp.no_errored }

/-- A valid `getblock` reply keeps `Pipeline`.  The last block sets `maybeDone` and queues
the final re-entry, with nothing else left; any other block tops the work up to
`min (expectedCt - goodCt) max_q`. -/
theorem Pipeline.deliver (hi : Inv btc f t s r) (hp : Pipeline nClients (nToDL f t s) r)
    {h : Nat} {hash raw : Bytes} (hin : Request.getblock h hash ∈ r.inflight) :
    Pipeline nClients (nToDL f t s)
      ((r.answer (.getblock h hash)).apply (r.task.deliver btc nClients h raw)) := by
  have hE := hi.expectedCt_eq
  obtain ⟨-, -, -, hE', -, hg, -, -⟩ := deliver_spec btc nClients r.task h raw
  obtain ⟨eq, -, -, er, ee, -⟩ := deliver_projections btc nClients r.task h raw
  have hpos := List.length_pos_of_mem hin
  have hl := List.length_erase_of_mem hin
  have hmd : r.task.maybeDone = false := by
    cases hd : r.task.maybeDone
    · rfl
    · simp [(hp.done hd).2.1] at hin
  -- the work in flight before the block: `q_ct`, or one more before the first block
  have hw : r.task.goodCt = 0 ∧ r.task.qCt = 0 ∧ r.inflight.length + r.queued = 1 ∨
      0 < r.task.goodCt ∧ r.inflight.length + r.queued = r.task.qCt := by
    rcases Nat.eq_zero_or_pos r.task.goodCt with hg0 | hg0
    · have := hp.pending_first hmd hg0
      exact .inl ⟨hg0, hp.q_zero hg0, by rw [this, hp.q_zero hg0]⟩
    · exact .inr ⟨hg0, hp.pending hmd hg0⟩
  have hga := hp.good_add_q
  have hissued : r.requested.length = r.task.goodCt + r.inflight.length := hp.issued
  have hil := hi.issued_le
  rcases Nat.lt_or_ge (r.task.goodCt + 1) r.task.expectedCt with hmore | hlast
  · -- more blocks to come
    obtain ⟨hq, hmd', hc⟩ := @deliver_of_more btc nClients r.task h raw
      hmore (by omega) (by rw [hE]; exact nToDL_lt f t s)
    exact { expected_pos := hp.expected_pos
            good_add_q := by simp only [Run.apply_task, hq, hg]; omega
            q_le := by have := hp.q_le; simp only [Run.apply_task, hq]; omega
            q_zero := by simp [hg]
            q_pos := by simp only [Run.apply_task, hq, maxQ]; omega
            full := by simp only [Run.apply_task, hg]; omega
            pending_first := by simp [hg]
            pending := fun _ _ => by
              simp only [Run.apply_task, Run.apply_queued, Run.answer_queued, Run.apply_inflight,
                Run.answer_inflight, List.length_append, er, List.length_nil, hl, hq, hc]
              omega
            done := fun h' => absurd (by simpa [hmd'] using h') (by simp [hmd])
            issued := by simp [hg, hl, eq, er]; omega
            no_errored := by simp [ee, hp.no_errored] }
  · -- the last block
    obtain ⟨hq, hmd', hc⟩ := @deliver_of_last btc nClients r.task h raw
      hlast
    have h1 : r.inflight.length = 1 ∧ r.queued = 0 ∧ r.task.qCt ≤ 1 := by
      have := hp.q_pos; omega
    obtain ⟨req, hreq⟩ := List.length_eq_one.1 h1.1
    have hsucc : Effect.success ∉ r.log := fun hs => by simp [hi.success_done hs] at hmd
    exact { expected_pos := hp.expected_pos
            good_add_q := by simp only [Run.apply_task, hq, hg]; omega
            q_le := by have := hp.q_le; simp only [Run.apply_task, hq]; omega
            q_zero := by simp [hg]
            q_pos := by simp only [Run.apply_task, hg]; omega
            full := fun _ => hmd'
            pending_first := by simp [hmd']
            pending := by simp [hmd']
            done := fun _ => ⟨by simp only [Run.apply_task, hq]; omega,
              List.eq_nil_of_length_eq_zero (by simp [er, hl]; omega),
              .inl ⟨by simp only [Run.apply_queued, Run.answer_queued, hc]; omega,
                by simp [hsucc, (deliver_projections btc nClients r.task h raw).2.2.2.2.2]⟩⟩
            issued := by simp [hg, hl, eq, er]; omega
            no_errored := by simp [ee, hp.no_errored] }

/-- Every valid event keeps `Pipeline`. -/
theorem Pipeline.step (hft : f ≤ t) (hs : 0 < s) (hts : t + s < 2 ^ 32)
    (hi : Inv btc f t s r) (hp : Pipeline nClients (nToDL f t s) r) {e : Event}
    (hv : e.Valid btc) {r' : Run} (h : step btc nClients r e = some r') :
    Pipeline nClients (nToDL f t s) r' := by
  cases e with
  | process =>
    simp only [DownloadBlocksTask.step] at h
    split at h <;> cases h
    exact hp.process hft hs hts hi ‹_›
  | hashReply h hash =>
    simp only [DownloadBlocksTask.step] at h
    split at h <;> cases h
    rw [onBlockHash, if_pos (show hash.length = uint256Width from hv)]
    exact hp.getblock ‹_›
  | blockReply h hash raw =>
    simp only [DownloadBlocksTask.step] at h
    split at h <;> cases h
    simp only [Event.Valid] at hv
    rw [onBlock, if_pos hv]
    exact hp.deliver hi ‹_›
  | rpcError => exact hv.elim

/-- `Pipeline` holds in every run whose replies are all valid. -/
theorem reachable_pipeline (hft : f ≤ t) (hs : 0 < s) (hts : t + s < 2 ^ 32)
    (h : Reachable btc nClients f t s (Event.Valid btc) r) :
    Pipeline nClients (nToDL f t s) r := by
  induction h with
  | start h0 => exact Pipeline.start hft hs hts h0
  | step e hr hv hst ih => exact ih.step hft hs hts (reachable_inv hft hs hts hr) hv hst

/-! ## What a valid run has done -/

theorem Pipeline.maybeDone_iff (hi : Inv btc f t s r) (hp : Pipeline nClients (nToDL f t s) r) :
    r.task.maybeDone = true ↔ nToDL f t s ≤ r.task.goodCt :=
  ⟨hi.maybeDone_le, hp.full⟩

/-- The work in progress, by phase: one unit more than `q_ct` before the first block,
`q_ct` while blocks are missing, and at most the final re-entry once all are counted. -/
theorem Pipeline.work (hi : Inv btc f t s r) (hp : Pipeline nClients (nToDL f t s) r) :
    (r.task.goodCt = 0 → r.inflight.length + r.queued = r.task.qCt + 1 ∧ r.task.qCt = 0) ∧
    (0 < r.task.goodCt → r.task.goodCt < nToDL f t s →
      r.inflight.length + r.queued = r.task.qCt ∧ 0 < r.task.qCt) ∧
    (nToDL f t s ≤ r.task.goodCt → r.task.qCt = 0 ∧ r.inflight.length + r.queued ≤ 1) := by
  have hmd := hp.maybeDone_iff hi
  refine ⟨fun hg => ?_, fun hg hlt => ?_, fun hle => ?_⟩
  · have hE := hp.expected_pos
    have hf : r.task.maybeDone = false := Bool.eq_false_iff.2 fun h => by have := hmd.1 h; omega
    exact ⟨hp.pending_first hf hg, hp.q_zero hg⟩
  · have hf : r.task.maybeDone = false := Bool.eq_false_iff.2 fun h => by have := hmd.1 h; omega
    exact ⟨hp.pending hf hg, hp.q_pos hg hlt⟩
  · obtain ⟨hq, hin, ⟨hq1, -⟩ | ⟨hq1, -⟩⟩ := hp.done (hmd.2 hle) <;>
      simp only [hin, List.length_nil] <;> omega

end

/-! ## The download task, end to end -/

/-- The work a download task has in progress — requests in flight plus queued
`process()` re-entries — in every valid run: it never exceeds `max_q`, it never runs out
while blocks are missing, and `q_ct` tracks it: one less before the first block, equal
while blocks are missing, and `0` once all are counted, when the one unit left is the
final re-entry `maybeDone` queued. -/
theorem pending_work_tracked_by_qCt {f t s : Nat} (hft : f ≤ t) (hs : 0 < s)
    (hts : t + s < 2 ^ 32) (btc : Btc) (nClients : Nat) (r : Run)
    (h : Reachable btc nClients f t s (Event.Valid btc) r) :
    r.inflight.length + r.queued ≤ maxQ nClients ∧
    (r.task.goodCt < r.task.expectedCt → 0 < r.inflight.length + r.queued) ∧
    (r.task.goodCt = 0 → r.inflight.length + r.queued = r.task.qCt + 1) ∧
    (0 < r.task.goodCt → r.task.goodCt < r.task.expectedCt →
      r.inflight.length + r.queued = r.task.qCt) ∧
    (r.task.expectedCt ≤ r.task.goodCt → r.task.qCt = 0 ∧ r.inflight.length + r.queued ≤ 1) ∧
    r.task.goodCt + r.task.qCt ≤ r.task.expectedCt := by
  have hi := reachable_inv hft hs hts h
  have hp := reachable_pipeline hft hs hts h
  obtain ⟨h0, h1, h2⟩ := hp.work hi
  have hq := hp.q_le
  rw [hi.expectedCt_eq]
  refine ⟨?_, fun hlt => ?_, fun hg => (h0 hg).1, fun hg hlt => (h1 hg hlt).1, h2, hp.good_add_q⟩
  · rcases Nat.eq_zero_or_pos r.task.goodCt with hg | hg
    · have := h0 hg; simp only [maxQ]; omega
    · rcases Nat.lt_or_ge r.task.goodCt (nToDL f t s) with hlt | hle
      · have := h1 hg hlt; omega
      · have := h2 hle; simp only [maxQ]; omega
  · rcases Nat.eq_zero_or_pos r.task.goodCt with hg | hg
    · have := h0 hg; omega
    · have := h1 hg hlt; omega

/-- `elevenRun` up to block `8`, answered before block `5`: one request in flight and one
re-entry queued, which `q_ct` counts. -/
theorem pending_work_tracked_by_qCt_out_of_order :
    2 ≤ 11 ∧ 0 < 3 ∧ 11 + 3 < 2 ^ 32 ∧
      ∃ r, exec sampleBtc 1 (.start ⟨2, 11, 3, 4, 2, 0, false, 0, 0, 0, 0, 0, ""⟩) (elevenRun.take 7)
        = some r ∧ r.task.goodCt = 2 ∧ r.task.qCt = 2 ∧ r.inflight.length + r.queued = r.task.qCt :=
  ⟨by decide, by decide, by decide, _, rfl, rfl, rfl,
    (pending_work_tracked_by_qCt (f := 2) (t := 11) (s := 3) (by decide) (by decide) (by decide)
      sampleBtc 1 _ ((Reachable.start (rfl : make 2 11 3 = some _)).exec (rfl : exec sampleBtc 1
        (.start ⟨2, 11, 3, 4, 2, 0, false, 0, 0, 0, 0, 0, ""⟩) (elevenRun.take 7) = some _)
        (by decide))).2.2.2.1 (by decide) (by decide)⟩

/-- Two runs that leave the bookkeeping above.  The smallest task, `(0, 0, 1)`, after its
one block: the final re-entry is queued and `q_ct` is `0`.  The task
`(2^32 - 2, 2^32 - 1, 2)`, whose `to + stride` is past `2^32`: `expectedCt` is `1`, `next`
wraps to `0` after the first request, and the final re-entry requests height `0`, so after
its block `goodCt + q_ct` is `2`. -/
theorem qCt_misses_final_reentry_and_wraps :
    (∃ r, Reachable sampleBtc 1 0 0 1 (Event.Valid sampleBtc) r ∧
      0 < r.task.goodCt ∧ r.task.qCt ≠ r.inflight.length + r.queued) ∧
    ∃ r, Reachable sampleBtc 1 4294967294 4294967295 2 (Event.Valid sampleBtc) r ∧
      r.task.expectedCt < r.task.goodCt + r.task.qCt := by
  constructor
  · refine ⟨_, (Reachable.start (rfl : make 0 0 1 = some _)).exec (rfl : exec sampleBtc 1
      (.start ⟨0, 0, 1, 1, 0, 0, false, 0, 0, 0, 0, 0, ""⟩) [.process, .hashReply 0 (List.replicate 32 0),
        .blockReply 0 (List.replicate 32 0) (List.replicate 80 0)] = some _) (by decide), by decide⟩
  · refine ⟨_, (Reachable.start (rfl : make 4294967294 4294967295 2 = some _)).exec
      (rfl : exec sampleBtc 1 (.start ⟨4294967294, 4294967295, 2, 1, 4294967294, 0, false, 0, 0, 0, 0, 0, ""⟩)
        [.process, .hashReply 4294967294 (List.replicate 32 0),
          .blockReply 4294967294 (List.replicate 32 0) (List.replicate 80 0), .process,
          .hashReply 0 (List.replicate 32 0), .blockReply 0 (List.replicate 32 0) (List.replicate 80 0)]
        = some _) (by decide), by decide⟩

end DownloadBlocksTask

end Fulcrum
