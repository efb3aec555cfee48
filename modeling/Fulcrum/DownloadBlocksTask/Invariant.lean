import Fulcrum.DownloadBlocksTask.Run
import Mathlib.Data.List.Perm.Subperm

/-!
# Fulcrum.DownloadBlocksTask.Invariant

What holds in every run of a download task, whatever the replies: `Inv`.

* the cursor: the task has requested `from, from + stride, …` in order, `next` is the
  following height, computed without wrapping, and it never requests more than
  `expectedCt` heights (`requested_eq`, `next_eq`, `issued_le`);
* the heights: the delivered blocks and the requests in flight are, up to order, part of
  the requested heights, each at most once (`accounted_sub`), and `goodCt` counts the
  deliveries;
* termination: `maybeDone` only once `expectedCt` blocks are counted, `success` only
  after `maybeDone`, and an `errored` means a requested height was lost for good.

`reachable_inv` proves it for every run, from one preservation lemma per kind of
transition.
-/

namespace Fulcrum

/-- The height an effect adds to the heights a task accounts for: a delivered block or
a new request. -/
def Effect.accounted? : Effect → Option Nat
  | .putBlock b => some b.height
  | .getblockhash h => some h
  | .getblock h _ => some h
  | _ => none

namespace DownloadBlocksTask

/-! ## The observables of a run, step by step -/

/-- The heights a run accounts for: delivered blocks, then requests in flight. -/
def Run.accounted (r : Run) : List Nat :=
  r.blocks.map PreProcessedBlock.height ++ r.inflight.map Request.height

section

variable (r : Run) (req : Request) (res : DownloadBlocksTask × List Effect)

@[simp] theorem Run.dequeue_task : r.dequeue.task = r.task := rfl
@[simp] theorem Run.dequeue_queued : r.dequeue.queued = r.queued - 1 := rfl
@[simp] theorem Run.dequeue_inflight : r.dequeue.inflight = r.inflight := rfl
@[simp] theorem Run.dequeue_log : r.dequeue.log = r.log := rfl
@[simp] theorem Run.answer_task : (r.answer req).task = r.task := rfl
@[simp] theorem Run.answer_queued : (r.answer req).queued = r.queued := rfl
@[simp] theorem Run.answer_inflight : (r.answer req).inflight = r.inflight.erase req := rfl
@[simp] theorem Run.answer_log : (r.answer req).log = r.log := rfl
@[simp] theorem Run.apply_task : (r.apply res).task = res.1 := rfl
@[simp] theorem Run.apply_queued : (r.apply res).queued = r.queued + res.2.count .again := rfl
@[simp] theorem Run.apply_inflight :
    (r.apply res).inflight = r.inflight ++ res.2.filterMap requestOf := rfl
@[simp] theorem Run.apply_log : (r.apply res).log = r.log ++ res.2 := rfl

@[simp] theorem Run.requested_apply :
    (r.apply res).requested = r.requested ++ res.2.filterMap Effect.hashHeight? :=
  List.filterMap_append ..

@[simp] theorem Run.blocks_apply : (r.apply res).blocks = r.blocks ++ res.2.filterMap Effect.block? :=
  List.filterMap_append ..

@[simp] theorem Run.requested_dequeue : r.dequeue.requested = r.requested := rfl
@[simp] theorem Run.blocks_dequeue : r.dequeue.blocks = r.blocks := rfl
@[simp] theorem Run.accounted_dequeue : r.dequeue.accounted = r.accounted := rfl
@[simp] theorem Run.requested_answer : (r.answer req).requested = r.requested := rfl
@[simp] theorem Run.blocks_answer : (r.answer req).blocks = r.blocks := rfl

end

/-- The heights a list of effects adds, by kind, are those `Effect.accounted?` gives. -/
theorem filterMap_accounted_perm (es : List Effect) :
    ((es.filterMap Effect.block?).map PreProcessedBlock.height ++
      (es.filterMap requestOf).map Request.height).Perm (es.filterMap Effect.accounted?) := by
  induction es with
  | nil => simp
  | cons e es ih =>
    cases e <;> simp only [List.filterMap_cons, Effect.block?, requestOf, Effect.accounted?,
      List.map_cons, Request.height, List.cons_append] <;>
      first | exact ih | exact ih.cons _ | exact List.perm_middle.trans (ih.cons _)

theorem Run.accounted_apply (r : Run) (res : DownloadBlocksTask × List Effect) :
    (r.apply res).accounted.Perm (r.accounted ++ res.2.filterMap Effect.accounted?) := by
  simp only [Run.accounted, Run.blocks_apply, Run.apply_inflight, List.map_append,
    List.append_assoc]
  refine List.Perm.append_left _ ?_
  rw [← List.append_assoc]
  refine (List.perm_append_comm.append_right _).trans ?_
  rw [List.append_assoc]
  exact (filterMap_accounted_perm _).append_left _

/-- Answering a request in flight removes its height from the accounted heights. -/
theorem Run.accounted_answer {r : Run} {req : Request} (h : req ∈ r.inflight) :
    r.accounted.Perm (req.height :: (r.answer req).accounted) := by
  have := (List.perm_cons_erase h).map Request.height
  simp only [List.map_cons] at this
  exact (this.append_left _).trans List.perm_middle

theorem nodup_of_subperm {l₁ l₂ : List Nat} (h : l₁.Subperm l₂) (hn : l₂.Nodup) : l₁.Nodup := by
  obtain ⟨l, hp, hs⟩ := h
  exact hp.nodup_iff.1 (hn.sublist hs)

/-! ## The invariant -/

/-- What holds in every run of the task constructed from `(f, t, s)`. -/
structure Inv (btc : Btc) (f t s : Nat) (r : Run) : Prop where
  from_eq : r.task.«from» = f
  to_eq : r.task.«to» = t
  stride_eq : r.task.stride = s
  expectedCt_eq : r.task.expectedCt = nToDL f t s
  requested_eq : r.requested = List.range' f r.requested.length s
  next_eq : r.task.next = f + r.requested.length * s
  issued_le : r.requested.length ≤ nToDL f t s
  accounted_sub : r.accounted.Subperm r.requested
  goodCt_eq : r.task.goodCt = r.blocks.length
  lost : Effect.errored ∈ r.log → r.accounted.length < r.requested.length
  maybeDone_le : r.task.maybeDone = true → nToDL f t s ≤ r.task.goodCt
  success_done : Effect.success ∈ r.log → r.task.maybeDone = true
  blocks_ok : ∀ b ∈ r.blocks,
    b.header.length = btc.headerSize ∧ Effect.getblock b.height (btc.hashRev b.header) ∈ r.log
  getblock_logged : ∀ h hash, Request.getblock h hash ∈ r.inflight → Effect.getblock h hash ∈ r.log

section

variable {btc : Btc} {nClients f t s : Nat} {r : Run}

theorem Inv.start {tk : DownloadBlocksTask} (h : make f t s = some tk) :
    Inv btc f t s (.start tk) := by
  unfold make at h
  split at h
  · cases h
    exact { from_eq := rfl, to_eq := rfl, stride_eq := rfl
            expectedCt_eq := asUnsigned_natCast_of_lt (nToDL_lt f t s)
            requested_eq := rfl, next_eq := by simp [Run.start, Run.requested]
            issued_le := by simp [Run.start, Run.requested]
            accounted_sub := by simp [Run.start, Run.accounted, Run.blocks]
            goodCt_eq := rfl, lost := by simp [Run.start]
            maybeDone_le := by simp [Run.start], success_done := by simp [Run.start]
            blocks_ok := by simp [Run.start, Run.blocks]
            getblock_logged := by simp [Run.start] }
  · cases h

theorem Inv.accounted_le (hi : Inv btc f t s r) : r.accounted.length ≤ r.requested.length :=
  hi.accounted_sub.length_le

/-- `process` requesting `next` keeps `Inv`: the request is the next height of the
progression, and `next` moves on without wrapping. -/
theorem Inv.request (hft : f ≤ t) (hs : 0 < s) (hts : t + s < 2 ^ 32) (hi : Inv btc f t s r)
    (hn : r.task.next ≤ r.task.«to») :
    Inv btc f t s (r.dequeue.apply
      ({ r.task with next := asUnsigned (r.task.next + r.task.stride) },
        [.getblockhash r.task.next])) := by
  have hlt : r.requested.length < nToDL f t s :=
    (lt_nToDL_iff hft hs hts _).1 (by rw [← hi.next_eq, ← hi.to_eq]; exact hn)
  have hw : asUnsigned (r.task.next + r.task.stride) = f + (r.requested.length + 1) * s := by
    have := hi.to_eq; have := hi.stride_eq; have := hi.next_eq
    rw [Nat.succ_mul]; unfold asUnsigned; omega
  have hacc := Run.accounted_apply r.dequeue
    ({ r.task with next := asUnsigned (r.task.next + r.task.stride) }, [.getblockhash r.task.next])
  simp only [Run.accounted_dequeue, List.filterMap_cons, Effect.accounted?,
    List.filterMap_nil] at hacc
  refine { from_eq := hi.from_eq, to_eq := hi.to_eq, stride_eq := hi.stride_eq
           expectedCt_eq := hi.expectedCt_eq, requested_eq := ?_, next_eq := ?_, issued_le := ?_
           accounted_sub := ?_, goodCt_eq := ?_, lost := ?_, maybeDone_le := hi.maybeDone_le
           success_done := ?_, blocks_ok := ?_, getblock_logged := ?_ } <;>
    simp only [Run.requested_apply, Run.requested_dequeue, Run.blocks_apply, Run.blocks_dequeue,
      Run.apply_task, Run.apply_log, Run.dequeue_log, Run.apply_inflight, Run.dequeue_inflight,
      List.filterMap_cons, List.filterMap_nil, Effect.hashHeight?, Effect.block?,
      requestOf, List.length_append, List.length_singleton, List.append_nil, List.mem_append,
      List.mem_singleton, reduceCtorEq, or_false]
  · rw [hi.requested_eq, List.range'_concat, List.length_range', hi.next_eq, Nat.mul_comm]
  · exact hw
  · omega
  · refine hacc.subperm_right.2 ?_
    rw [List.subperm_append_right]; exact hi.accounted_sub
  · exact hi.goodCt_eq
  · intro h; rw [hacc.length_eq, List.length_append, List.length_singleton]
    have := hi.lost h; omega
  · exact hi.success_done
  · exact hi.blocks_ok
  · exact hi.getblock_logged

/-- A queued `process()` with nothing to request keeps `Inv`: it does nothing, or emits
`success` with `maybeDone` set. -/
theorem Inv.idle (hi : Inv btc f t s r) {es : List Effect}
    (hes : es = [] ∨ (es = [.success] ∧ r.task.maybeDone = true)) :
    Inv btc f t s (r.dequeue.apply (r.task, es)) := by
  have hacc := Run.accounted_apply r.dequeue (r.task, es)
  rcases hes with rfl | ⟨rfl, hd⟩ <;>
    simp only [List.filterMap_nil, List.filterMap_cons, Effect.accounted?, List.append_nil,
      Run.accounted_dequeue] at hacc <;>
    exact { from_eq := hi.from_eq, to_eq := hi.to_eq, stride_eq := hi.stride_eq
            expectedCt_eq := hi.expectedCt_eq
            requested_eq := by simpa [Effect.hashHeight?] using hi.requested_eq
            next_eq := by simpa [Effect.hashHeight?] using hi.next_eq
            issued_le := by simpa [Effect.hashHeight?] using hi.issued_le
            accounted_sub := by simpa [Effect.hashHeight?, hacc.subperm_right] using hi.accounted_sub
            goodCt_eq := by simpa [Effect.block?] using hi.goodCt_eq
            lost := by simpa [hacc.length_eq, Effect.hashHeight?] using hi.lost
            maybeDone_le := hi.maybeDone_le
            success_done := by first | simpa using hi.success_done | exact fun _ => hd
            blocks_ok := by simpa [Effect.block?] using hi.blocks_ok
            getblock_logged := by simpa [requestOf] using hi.getblock_logged }

/-- A reply or an RPC error keeps `Inv` when its handler leaves the cursor alone,
requests nothing new by height, and either keeps the answered height (as a `getblock`
request or a delivered block) or drops it with `errored`. -/
theorem Inv.answer (hi : Inv btc f t s r) {req : Request} (hin : req ∈ r.inflight)
    {t' : DownloadBlocksTask} {es : List Effect}
    (hc : t'.«from» = r.task.«from» ∧ t'.«to» = r.task.«to» ∧ t'.stride = r.task.stride ∧
      t'.expectedCt = r.task.expectedCt ∧ t'.next = r.task.next)
    (hq : es.filterMap Effect.hashHeight? = [])
    (ha : (es.filterMap Effect.accounted? = [req.height] ∧ Effect.errored ∉ es) ∨
      es.filterMap Effect.accounted? = [])
    (hg : t'.goodCt = r.task.goodCt + (es.filterMap Effect.block?).length)
    (hm : t'.maybeDone = true → r.task.maybeDone = true ∨ r.task.expectedCt ≤ t'.goodCt)
    (hmd : r.task.maybeDone = true → t'.maybeDone = true) (hs : Effect.success ∉ es)
    (hb : ∀ b ∈ es.filterMap Effect.block?,
      b.header.length = btc.headerSize ∧ Effect.getblock b.height (btc.hashRev b.header) ∈ r.log)
    (hr : ∀ h hash, Request.getblock h hash ∈ es.filterMap requestOf → Effect.getblock h hash ∈ es) :
    Inv btc f t s ((r.answer req).apply (t', es)) := by
  have hacc := Run.accounted_apply (r.answer req) (t', es)
  have hans := Run.accounted_answer hin
  -- the accounted heights: the same as before, or one fewer when the height is dropped
  have hsub : ((r.answer req).apply (t', es)).accounted.Subperm r.accounted ∧
      (Effect.errored ∈ es → ((r.answer req).apply (t', es)).accounted.length < r.accounted.length) ∧
      ((r.answer req).apply (t', es)).accounted.length ≤ r.accounted.length := by
    rcases ha with ⟨ha, he⟩ | ha <;> rw [ha] at hacc
    · have hp := hacc.trans ((List.perm_append_singleton _ _).trans hans.symm)
      exact ⟨hp.subperm, fun h => absurd h he, hp.length_eq.le⟩
    · rw [List.append_nil] at hacc
      have hl := hans.length_eq
      simp only [List.length_cons] at hl
      exact ⟨(hacc.subperm.trans ((List.sublist_cons_self _ _).subperm)).trans hans.symm.subperm,
        fun _ => by rw [hacc.length_eq]; omega, by rw [hacc.length_eq]; omega⟩
  obtain ⟨hf, hto, hst, hE, hn⟩ := hc
  refine { from_eq := by simpa [hf] using hi.from_eq, to_eq := by simpa [hto] using hi.to_eq
           stride_eq := by simpa [hst] using hi.stride_eq
           expectedCt_eq := by simpa [hE] using hi.expectedCt_eq
           requested_eq := by simpa [hq] using hi.requested_eq
           next_eq := by simpa [hq, hn] using hi.next_eq
           issued_le := by simpa [hq] using hi.issued_le
           accounted_sub := ?_, goodCt_eq := ?_, lost := ?_, maybeDone_le := ?_
           success_done := ?_, blocks_ok := ?_, getblock_logged := ?_ }
  · simpa [hq] using hsub.1.trans hi.accounted_sub
  · simp [hg, hi.goodCt_eq]
  · simp only [Run.apply_log, Run.answer_log, List.mem_append, Run.requested_apply,
      Run.requested_answer, hq, List.append_nil]
    rintro (h | h)
    · exact Nat.lt_of_le_of_lt hsub.2.2 (hi.lost h)
    · exact Nat.lt_of_lt_of_le (hsub.2.1 h) hi.accounted_le
  · intro h
    rcases hm h with h | h
    · have := hi.maybeDone_le h; simp only [Run.apply_task] at *; omega
    · simpa [hi.expectedCt_eq] using h
  · intro h
    simp only [Run.apply_log, Run.answer_log, List.mem_append, hs, or_false] at h
    exact hmd (hi.success_done h)
  · simp only [Run.blocks_apply, Run.blocks_answer, List.mem_append, Run.apply_log, Run.answer_log]
    rintro b (hb' | hb')
    · exact ⟨(hi.blocks_ok b hb').1, .inl (hi.blocks_ok b hb').2⟩
    · exact ⟨(hb b hb').1, .inl (hb b hb').2⟩
  · simp only [Run.apply_inflight, Run.answer_inflight, List.mem_append, Run.apply_log,
      Run.answer_log]
    rintro h hash (h' | h')
    · exact .inl (hi.getblock_logged h hash (List.mem_of_mem_erase h'))
    · exact .inr (hr h hash h')

/-- A failed reply or an RPC error keeps `Inv`: it drops the answered height. -/
theorem Inv.fail (hi : Inv btc f t s r) {req : Request} (hin : req ∈ r.inflight) (c : Int)
    (m : String) :
    Inv btc f t s ((r.answer req).apply ({ r.task with errorCode := c, errorMessage := m },
      [.errored])) :=
  hi.answer hin ⟨rfl, rfl, rfl, rfl, rfl⟩ rfl (.inr rfl) rfl .inl id (by simp)
    (by simp [Effect.block?]) (by simp [requestOf])

/-- A valid `getblockhash` reply keeps `Inv`: the height stays in flight as `getblock`. -/
theorem Inv.getblock (hi : Inv btc f t s r) {h : Nat} {hash : Bytes}
    (hin : Request.getblockhash h ∈ r.inflight) :
    Inv btc f t s ((r.answer (.getblockhash h)).apply (r.task, [.getblock h hash])) :=
  hi.answer hin ⟨rfl, rfl, rfl, rfl, rfl⟩ rfl (.inl ⟨rfl, by simp⟩) rfl .inl id (by simp)
    (by simp [Effect.block?]) (by simp [requestOf])

/-- The effects of `deliver`, projected: one block, its height, nothing else. -/
theorem deliver_effects {pre : List Effect} (hpre : pre = [] ∨ ∃ i, pre = [Effect.progress i])
    (b : PreProcessedBlock) (k : Nat) :
    let es := pre ++ [Effect.putBlock b] ++ List.replicate k Effect.again
    es.filterMap Effect.hashHeight? = [] ∧ es.filterMap Effect.accounted? = [b.height] ∧
    es.filterMap Effect.block? = [b] ∧ es.filterMap requestOf = [] ∧
    Effect.errored ∉ es ∧ Effect.success ∉ es := by
  rcases hpre with rfl | ⟨i, rfl⟩ <;>
    simp [List.filterMap_replicate, Effect.hashHeight?, Effect.accounted?, Effect.block?,
      requestOf, List.mem_replicate]

/-- The effects of `deliver`, projected. -/
theorem deliver_projections (btc : Btc) (n : Nat) (tk : DownloadBlocksTask) (bnum : Nat)
    (raw : Bytes) :
    let es := (tk.deliver btc n bnum raw).2
    es.filterMap Effect.hashHeight? = [] ∧ es.filterMap Effect.accounted? = [bnum] ∧
    es.filterMap Effect.block? = [PreProcessedBlock.makeShared btc bnum raw.length raw] ∧
    es.filterMap requestOf = [] ∧ Effect.errored ∉ es ∧ Effect.success ∉ es := by
  obtain ⟨-, -, -, -, -, -, -, k, hes⟩ := deliver_spec btc n tk bnum raw
  rw [hes]
  refine deliver_effects ?_ _ k
  split
  · exact .inr ⟨_, rfl⟩
  · exact .inl rfl

/-- A valid `getblock` reply keeps `Inv`: the height moves from in flight to delivered. -/
theorem Inv.deliver (hi : Inv btc f t s r) {h : Nat} {hash raw : Bytes}
    (hin : Request.getblock h hash ∈ r.inflight)
    (hsize : (raw.take btc.headerSize).length = btc.headerSize)
    (hhash : btc.hashRev (raw.take btc.headerSize) = hash) :
    Inv btc f t s ((r.answer (.getblock h hash)).apply (r.task.deliver btc nClients h raw)) := by
  obtain ⟨hf, hto, hst, hE, hn, hg, hm, -⟩ := deliver_spec btc nClients r.task h raw
  obtain ⟨eq, ea, eb, er, ee, es⟩ := deliver_projections btc nClients r.task h raw
  rcases hdl : r.task.deliver btc nClients h raw with ⟨t', es'⟩
  simp only [hdl] at hf hto hst hE hn hg hm eq ea eb er ee es
  refine hi.answer hin ⟨hf, hto, hst, hE, hn⟩ eq (.inl ⟨ea, ee⟩) (by rw [hg, eb]; rfl)
    (fun hd => (hm.1 hd).imp id (by rw [hg]; exact id)) (fun hd => hm.2 (.inl hd)) es ?_
    (fun _ _ hr => by rw [er] at hr; cases hr)
  rw [eb]
  simp only [List.mem_singleton, forall_eq, PreProcessedBlock.makeShared_header,
    PreProcessedBlock.makeShared_height, hhash]
  exact ⟨hsize, hi.getblock_logged h hash hin⟩

/-- Every event keeps `Inv`. -/
theorem Inv.step (hft : f ≤ t) (hs : 0 < s) (hts : t + s < 2 ^ 32) (hi : Inv btc f t s r)
    {e : Event} {r' : Run} (h : step btc nClients r e = some r') : Inv btc f t s r' := by
  cases e with
  | process =>
    simp only [DownloadBlocksTask.step] at h
    split at h <;> cases h
    rcases process_cases r.task with ⟨hn, hp⟩ | ⟨-, -, hp⟩ | ⟨-, hd, -, hp⟩ | ⟨-, hd, hg, -, -, -⟩
    · rw [hp]; exact hi.request hft hs hts hn
    · rw [hp]; exact hi.idle (.inl rfl)
    · rw [hp]; exact hi.idle (.inr ⟨rfl, hd⟩)
    · exact absurd (hi.maybeDone_le hd) (by rw [← hi.expectedCt_eq]; omega)
  | hashReply h hash =>
    simp only [DownloadBlocksTask.step] at h
    split at h <;> cases h
    rcases onBlockHash_cases r.task h hash with ⟨-, hp⟩ | ⟨msg, hp⟩ <;> rw [hp]
    · exact hi.getblock ‹_›
    · exact hi.fail ‹_› _ _
  | blockReply h hash raw =>
    simp only [DownloadBlocksTask.step] at h
    split at h <;> cases h
    rcases onBlock_cases btc nClients r.task h hash raw with ⟨hsz, hh, hp⟩ | ⟨msg, hp⟩ <;> rw [hp]
    · exact hi.deliver ‹_› hsz hh
    · exact hi.fail ‹_› _ _
  | rpcError req code msg =>
    simp only [DownloadBlocksTask.step] at h
    split at h <;> cases h
    exact hi.fail ‹_› _ _

/-- `Inv` holds in every run of the task, whatever its events. -/
theorem reachable_inv {ok : Event → Prop} (hft : f ≤ t) (hs : 0 < s) (hts : t + s < 2 ^ 32)
    (h : Reachable btc nClients f t s ok r) : Inv btc f t s r := by
  induction h with
  | start h0 => exact Inv.start h0
  | step e _ _ hst ih => exact ih.step hft hs hts hst

/-- A task requests heights of its progression only: its requests are always the first
heights of `from, from + stride, …`, of which there are `expectedCt`. -/
theorem Inv.requested_prefix (hi : Inv btc f t s r) :
    r.requested <+: List.range' f (nToDL f t s) s := by
  rw [hi.requested_eq]
  have h := List.range'_append f r.requested.length (nToDL f t s - r.requested.length) s
  rw [Nat.sub_add_cancel hi.issued_le] at h
  exact ⟨_, h⟩

end

/-- `nToDL` counts the progression `from, from + stride, … ≤ to`, and in every run of the
task the cursor walks it without wrapping: after `n` requests, `next = from + n·stride`
and the requests are the first `n` heights; there are never more than `expectedCt`, and
`next > to` exactly once all `expectedCt` are made. -/
theorem nToDL_counts_progression {f t s : Nat} (hft : f ≤ t) (hs : 0 < s)
    (hts : t + s < 2 ^ 32) :
    nToDL f t s = (t - f + s) / s ∧ (∀ k, f + k * s ≤ t ↔ k < nToDL f t s) ∧
    ∀ btc nClients r, Reachable btc nClients f t s (fun _ => True) r →
      r.task.expectedCt = nToDL f t s ∧ r.task.next = f + r.requested.length * s ∧
      r.requested = List.range' f r.requested.length s ∧
      r.requested.length ≤ r.task.expectedCt ∧
      (t < r.task.next ↔ r.requested.length = r.task.expectedCt) := by
  refine ⟨nToDL_eq hft hs hts, lt_nToDL_iff hft hs hts, fun btc nClients r hr => ?_⟩
  have hi := reachable_inv hft hs hts hr
  have hk := lt_nToDL_iff hft hs hts r.requested.length
  refine ⟨hi.expectedCt_eq, hi.next_eq, hi.requested_eq, hi.expectedCt_eq ▸ hi.issued_le, ?_⟩
  rw [hi.next_eq, hi.expectedCt_eq]
  have := hi.issued_le
  constructor
  · intro h; exact Nat.le_antisymm this (Nat.not_lt.1 fun h' => absurd (hk.2 h') (by omega))
  · intro h; exact Nat.lt_of_not_le fun h' => absurd (hk.1 h') (by omega)

/-- A task `(2, 2^32 - 4, 3)` at the top of the `unsigned` range, where `to + stride` is
`2^32 - 1`: `nToDL` still counts its progression. -/
theorem nToDL_counts_progression_at_top :
    2 ≤ 2 ^ 32 - 4 ∧ 0 < 3 ∧ 2 ^ 32 - 4 + 3 < 2 ^ 32 ∧
      nToDL 2 (2 ^ 32 - 4) 3 = (2 ^ 32 - 4 - 2 + 3) / 3 :=
  ⟨by decide, by decide, by decide,
    (nToDL_counts_progression (by decide) (by decide) (by decide)).1⟩

end DownloadBlocksTask

end Fulcrum
