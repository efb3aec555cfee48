import Fulcrum.Controller.System
import Fulcrum.DownloadBlocksTask.Invariant
import Mathlib.Algebra.BigOperators.Group.List

/-!
# Fulcrum.Controller.Tasks

The controller sees a download task from outside (`Fulcrum.Controller.System`): its record
holds the heights the task has yet to hand over and the counters its `success` handler
reads; a running task may hand over a height it still holds, with a header of
`HEADER_SIZE` bytes, and may succeed once it holds none.  The task as modelled from its own
code (`Fulcrum.DownloadBlocksTask`) keeps to this in every run, whatever the replies:

* `reachable_countersOk` — the task's `nTx`, `nIns` and `nOuts` add up those of the
  blocks it handed to `ctl->putBlock`;
* `download_task_refines_record` — replaying those blocks on the record
  `add_DLHeaderTask` made, each is a `deliver` the system allows, the record ends with
  the heights not handed over yet and the task's own counters, and once the task has
  emitted `success` it holds no height, so that `succeed` is allowed too.
-/

namespace Fulcrum

namespace DownloadBlocksTask

/-! ## The task's counters -/

/-- A handler adds to the counters exactly what the blocks it hands over count. -/
def Counted (t : DownloadBlocksTask) (res : DownloadBlocksTask × List Effect) : Prop :=
  res.1.nTx = t.nTx + ((res.2.filterMap Effect.block?).map (·.nTx)).sum ∧
  res.1.nIns = t.nIns + ((res.2.filterMap Effect.block?).map (·.nIns)).sum ∧
  res.1.nOuts = t.nOuts + ((res.2.filterMap Effect.block?).map (·.nOuts)).sum

/-- A handler that hands nothing over and leaves the counters alone. -/
theorem counted_of_none {t : DownloadBlocksTask} {res : DownloadBlocksTask × List Effect}
    (hx : res.1.nTx = t.nTx) (hi : res.1.nIns = t.nIns) (ho : res.1.nOuts = t.nOuts)
    (hb : res.2.filterMap Effect.block? = []) : Counted t res := by
  simp only [Counted, hb, List.map_nil, List.sum_nil, Nat.add_zero]
  exact ⟨hx, hi, ho⟩

theorem counted_process (t : DownloadBlocksTask) : Counted t t.process := by
  rcases process_cases t with ⟨-, h⟩ | ⟨-, -, h⟩ | ⟨-, -, -, h⟩ | ⟨-, -, -, code, msg, h⟩ <;>
    exact counted_of_none (by rw [h]) (by rw [h]) (by rw [h]) (by rw [h]; rfl)

/-- A failure records its code and message and emits `errored` (`fail`, `onRpcError`). -/
theorem counted_error (t : DownloadBlocksTask) (code : Int) (msg : String) :
    Counted t ({ t with errorCode := code, errorMessage := msg }, [.errored]) :=
  counted_of_none rfl rfl rfl rfl

theorem block?_progress (p : Prop) [Decidable p] (i : Nat) :
    (if p then [Effect.progress i] else []).filterMap Effect.block? = [] := by
  split <;> rfl

theorem block?_replicate_again (k : Nat) :
    (List.replicate k Effect.again).filterMap Effect.block? = [] :=
  List.filterMap_eq_nil_iff.2 fun _ h => by rw [List.eq_of_mem_replicate h]; rfl

theorem counted_onBlockHash (t : DownloadBlocksTask) (bnum : Nat) (hash : Bytes) :
    Counted t (t.onBlockHash bnum hash) := by
  rcases onBlockHash_cases t bnum hash with ⟨-, h⟩ | ⟨msg, h⟩ <;> rw [h]
  · exact counted_of_none rfl rfl rfl rfl
  · exact counted_error t _ _

/-- `deliver` counts the one block it hands over; `queueMore` only queues re-entries. -/
theorem counted_deliver (btc : Btc) (n : Nat) (t : DownloadBlocksTask) (bnum : Nat)
    (raw : Bytes) : Counted t (t.deliver btc n bnum raw) := by
  unfold deliver
  dsimp only
  split
  · simp [Counted, Effect.block?, block?_progress]
  · obtain ⟨q, k, h⟩ := queueMore_eq (maxQ n) (maxQ n)
      { t with nTx := t.nTx + (btc.txCounts raw).1, nOuts := t.nOuts + (btc.txCounts raw).2.2,
               nIns := t.nIns + (btc.txCounts raw).2.1, goodCt := t.goodCt + 1, qCt := t.qCt - 1 }
    simp only [PreProcessedBlock.makeShared] at h ⊢
    rw [h]
    simp [Counted, Effect.block?, block?_progress, block?_replicate_again]

theorem counted_onBlock (btc : Btc) (n : Nat) (t : DownloadBlocksTask) (bnum : Nat)
    (hash raw : Bytes) : Counted t (t.onBlock btc n bnum hash raw) := by
  rcases onBlock_cases btc n t bnum hash raw with ⟨-, -, h⟩ | ⟨msg, h⟩ <;> rw [h]
  · exact counted_deliver btc n t bnum raw
  · exact counted_error t _ _

/-- The task's counters add up its blocks'. -/
structure CountersOk (r : Run) : Prop where
  nTx_eq : r.task.nTx = (r.blocks.map (·.nTx)).sum
  nIns_eq : r.task.nIns = (r.blocks.map (·.nIns)).sum
  nOuts_eq : r.task.nOuts = (r.blocks.map (·.nOuts)).sum

/-- Taking a counted handler's result from a run with the same blocks. -/
theorem CountersOk.apply {r r' : Run} (h : CountersOk r) (hb : r'.blocks = r.blocks) {res : DownloadBlocksTask × List Effect}
    (hc : Counted r.task res) : CountersOk (r'.apply res) := by
  obtain ⟨hx, hi, ho⟩ := hc
  have := h.nTx_eq; have := h.nIns_eq; have := h.nOuts_eq
  refine ⟨?_, ?_, ?_⟩ <;>
    simp only [Run.apply_task, Run.blocks_apply, hb, List.map_append, List.sum_append] <;>
    omega

theorem CountersOk.step {btc : Btc} {n : Nat} {r r' : Run} (h : CountersOk r) {e : Event}
    (hs : step btc n r e = some r') : CountersOk r' := by
  cases e with
  | process =>
    simp only [DownloadBlocksTask.step] at hs
    split at hs
    · cases hs; exact h.apply (by rfl) (counted_process _)
    · cases hs
  | hashReply hh hash =>
    simp only [DownloadBlocksTask.step] at hs
    split at hs
    · cases hs; exact h.apply (by rfl) (counted_onBlockHash _ _ _)
    · cases hs
  | blockReply hh hash raw =>
    simp only [DownloadBlocksTask.step] at hs
    split at hs
    · cases hs; exact h.apply (by rfl) (counted_onBlock _ _ _ _ _ _)
    · cases hs
  | rpcError req code msg =>
    simp only [DownloadBlocksTask.step] at hs
    split at hs
    · cases hs; exact h.apply (by rfl) (counted_error _ _ _)
    · cases hs

/-- In every run, whatever the replies, the task's counters add up its blocks'. -/
theorem reachable_countersOk {btc : Btc} {n f t s : Nat} {ok : Event → Prop} {r : Run}
    (h : Reachable btc n f t s ok r) : CountersOk r := by
  induction h with
  | start h0 =>
    unfold make at h0
    split at h0
    · cases h0; exact ⟨rfl, rfl, rfl⟩
    · cases h0
  | step _ _ _ hs ih => exact ih.step hs

end DownloadBlocksTask

namespace Controller

/-! ## The controller's record of a download task -/

/-- The record of the task `add_DLHeaderTask(from, to, stride)` makes, once its start has
run. -/
def startedRecord (f t s epoch : Nat) : TaskRec :=
  { TaskRec.make (.downloadBlocks f t s) epoch with started := true }

/-- Hand blocks over to the controller's record of a task, one `deliver` each; `none` once
one is not a `deliver` the system allows. -/
def replay (headerSize : Nat) : TaskRec → List PreProcessedBlock → Option TaskRec
  | rec, [] => some rec
  | rec, b :: bs =>
    if rec.CanDeliver headerSize b then replay headerSize (rec.handOver b) bs else none

/-- `rec'` is `rec` once the blocks `bs` are handed over. -/
structure HandedOver (rec : TaskRec) (bs : List PreProcessedBlock) (rec' : TaskRec) : Prop where
  pending_perm : (rec'.pending ++ bs.map (·.height)).Perm rec.pending
  nTx_eq : rec'.nTx = rec.nTx + (bs.map (·.nTx)).sum
  nIns_eq : rec'.nIns = rec.nIns + (bs.map (·.nIns)).sum
  nOuts_eq : rec'.nOuts = rec.nOuts + (bs.map (·.nOuts)).sum
  kind_eq : rec'.kind = rec.kind
  running_eq : rec'.running = rec.running
  succeeded_eq : rec'.succeeded = rec.succeeded

theorem HandedOver.nil (rec : TaskRec) : HandedOver rec [] rec :=
  ⟨by simp, by simp, by simp, by simp, rfl, rfl, rfl⟩

theorem HandedOver.cons {rec rec' : TaskRec} {b : PreProcessedBlock} {bs : List PreProcessedBlock}
    (hb : b.height ∈ rec.pending) (h : HandedOver (rec.handOver b) bs rec') :
    HandedOver rec (b :: bs) rec' where
  pending_perm := by
    have := h.pending_perm.cons b.height
    exact List.perm_middle.trans (this.trans (List.perm_cons_erase hb).symm)
  nTx_eq := by rw [h.nTx_eq]; simp [TaskRec.handOver, Nat.add_assoc]
  nIns_eq := by rw [h.nIns_eq]; simp [TaskRec.handOver, Nat.add_assoc]
  nOuts_eq := by rw [h.nOuts_eq]; simp [TaskRec.handOver, Nat.add_assoc]
  kind_eq := h.kind_eq
  running_eq := h.running_eq
  succeeded_eq := h.succeeded_eq

/-- A running download task's record takes every block of distinct heights it still holds,
with a header of `headerSize` bytes. -/
theorem replay_spec {n : Nat} (bs : List PreProcessedBlock) :
    ∀ rec : TaskRec, rec.running = true → rec.kind.isDownload = true →
      (∀ b ∈ bs, b.header.length = n) → (bs.map (·.height)).Nodup →
      (∀ b ∈ bs, b.height ∈ rec.pending) →
      ∃ rec', replay n rec bs = some rec' ∧ HandedOver rec bs rec' := by
  induction bs with
  | nil => exact fun rec _ _ _ _ _ => ⟨rec, rfl, .nil rec⟩
  | cons b bs ih =>
    intro rec hr hk hn hnd hmem
    have hb := hmem b (.head _)
    obtain ⟨hnot, hnd'⟩ := List.nodup_cons.1 hnd
    -- the other heights are distinct from this one, so handing it over keeps them
    have hmem' : ∀ b' ∈ bs, b'.height ∈ (rec.handOver b).pending := fun b' hb' =>
      (List.mem_erase_of_ne fun he => hnot (List.mem_map.2 ⟨b', hb', he⟩)).2
        (hmem b' (.tail _ hb'))
    obtain ⟨rec', hrep, hh⟩ := ih (rec.handOver b) hr hk (fun b' hb' => hn b' (.tail _ hb')) hnd'
      hmem'
    refine ⟨rec', ?_, hh.cons hb⟩
    rw [replay, if_pos ⟨hr, hk, hb, hn b (.head _)⟩, hrep]

/-! ## The task against its record -/

/-- In every run of a download task `(from, to, stride)`, whatever the replies, the blocks
it hands to `ctl->putBlock`, replayed on the record `add_DLHeaderTask` made, are each a
`deliver` the system allows.  The record then holds the heights not handed over yet and
the task's own counters, and once the task has emitted `success` it holds no height, so
that `succeed` is one the system allows. -/
theorem download_task_refines_record {f t s : Nat} (hft : f ≤ t) (hs : 0 < s)
    (hts : t + s < 2 ^ 32) (btc : Btc) (nClients : Nat) (r : DownloadBlocksTask.Run)
    (h : DownloadBlocksTask.Reachable btc nClients f t s (fun _ => True) r) (epoch : Nat) :
    ∃ rec, replay btc.headerSize (startedRecord f t s epoch) r.blocks = some rec ∧
      (rec.pending ++ r.blocks.map (·.height)).Perm (progression (f, t, s)) ∧
      rec.nTx = r.task.nTx ∧ rec.nIns = r.task.nIns ∧ rec.nOuts = r.task.nOuts ∧
      (Effect.success ∈ r.log → ∀ info, rec.CanSucceed info) := by
  have hi := DownloadBlocksTask.reachable_inv hft hs hts h
  have hc := DownloadBlocksTask.reachable_countersOk h
  have hpend : (startedRecord f t s epoch).pending = progression (f, t, s) := by
    simp [startedRecord, TaskRec.make, hft, hs]
  -- the blocks' heights are distinct heights of the progression
  have hsub : (r.blocks.map (·.height)).Subperm (progression (f, t, s)) :=
    ((List.sublist_append_left _ _).subperm.trans hi.accounted_sub).trans
      hi.requested_prefix.sublist.subperm
  have hnd := DownloadBlocksTask.nodup_of_subperm hsub (List.nodup_range' _ _ s hs)
  obtain ⟨rec, hrep, hh⟩ := replay_spec r.blocks (startedRecord f t s epoch) rfl rfl
    (fun b hb => (hi.blocks_ok b hb).1) hnd
    (fun b hb => hpend ▸ hsub.subset (List.mem_map_of_mem _ hb))
  have hperm := hpend ▸ hh.pending_perm
  refine ⟨rec, hrep, hperm, by rw [hh.nTx_eq, hc.nTx_eq]; simp [startedRecord, TaskRec.make],
    by rw [hh.nIns_eq, hc.nIns_eq]; simp [startedRecord, TaskRec.make],
    by rw [hh.nOuts_eq, hc.nOuts_eq]; simp [startedRecord, TaskRec.make], fun hsucc info => ?_⟩
  -- `success` comes after `maybeDone`, which comes once every height is counted
  have hle := hi.maybeDone_le (hi.success_done hsucc)
  have hlen := hperm.length_eq
  simp only [List.length_append, List.length_map, progression, List.length_range'] at hlen
  have hnil : rec.pending = [] := List.eq_nil_of_length_eq_zero (by rw [← hi.goodCt_eq] at hlen; omega)
  refine ⟨hh.running_eq, hh.succeeded_eq, ?_⟩
  simp only [hh.kind_eq, startedRecord, TaskRec.make, hnil]

/-- `elevenRun`, whose blocks come as `2, 8, 5, 11`: each hand-over finds its height still
held by the record, and after the task's `success` the record may succeed. -/
theorem download_task_refines_record_out_of_order :
    ∃ r rec, DownloadBlocksTask.exec DownloadBlocksTask.sampleBtc 1
        (.start ⟨2, 11, 3, 4, 2, 0, false, 0, 0, 0, 0, 0, ""⟩) DownloadBlocksTask.elevenRun = some r ∧
      r.blocks.map (·.height) = [2, 8, 5, 11] ∧ Effect.success ∈ r.log ∧
      replay 80 (startedRecord 2 11 3 0) r.blocks = some rec ∧ rec.nTx = 4 ∧
      rec.CanSucceed ⟨"main", 11, false⟩ := by
  obtain ⟨rd, h1, -, h3, -, -, h6⟩ := download_task_refines_record (by decide) (by decide)
    (by decide) DownloadBlocksTask.sampleBtc 1 _ ((DownloadBlocksTask.Reachable.start
      (rfl : DownloadBlocksTask.make 2 11 3 = some _)).exec
      (rfl : DownloadBlocksTask.exec DownloadBlocksTask.sampleBtc 1
        (.start ⟨2, 11, 3, 4, 2, 0, false, 0, 0, 0, 0, 0, ""⟩) DownloadBlocksTask.elevenRun = some _)
      fun _ _ => trivial) 0
  exact ⟨_, rd, rfl, rfl, by decide, h1, by rw [h3]; rfl, h6 (by decide) _⟩

end Controller

end Fulcrum
