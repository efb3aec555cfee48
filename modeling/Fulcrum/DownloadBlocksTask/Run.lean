import Fulcrum.DownloadBlocksTask

/-!
# Fulcrum.DownloadBlocksTask.Run

One download task together with what happens around it: the `process()` calls queued
on its thread, the requests it has in flight at bitcoind, and the log of everything it
has done.  An `Event` is whatever the task's thread runs next — a queued `process()`,
the reply to one of its requests, or an RPC error for one of them — in any order.

`Reachable ok` are the runs from the constructed task whose every event satisfies `ok`:
`fun _ => True` for all runs, `Event.Valid btc` for runs in which every reply is valid.
The first `process()`, the one `CtlTask::on_started` makes, counts as queued.
-/

namespace Fulcrum

/-- The height a `getblockhash` effect asks for. -/
def Effect.hashHeight? : Effect → Option Nat
  | .getblockhash h => some h
  | _ => none

/-- The block a `putBlock` effect hands over. -/
def Effect.block? : Effect → Option PreProcessedBlock
  | .putBlock ppb => some ppb
  | _ => none

namespace DownloadBlocksTask

/-- A request the task submitted and whose reply it has not handled yet. -/
inductive Request where
  | getblockhash (height : Nat)
  | getblock (height : Nat) (hash : Bytes)
  deriving DecidableEq, Repr

/-- The height a request is for. -/
def Request.height : Request → Nat
  | .getblockhash h => h
  | .getblock h _ => h

/-- The request an effect submits. -/
def requestOf : Effect → Option Request
  | .getblockhash h => some (.getblockhash h)
  | .getblock h hash => some (.getblock h hash)
  | _ => none

/-- The task seen from its thread: its fields, the `process()` calls queued on the
thread, the requests in flight, and every effect so far, oldest first. -/
structure Run where
  task : DownloadBlocksTask
  queued : Nat
  inflight : List Request
  log : List Effect
  deriving DecidableEq, Repr

/-- What the task's thread runs next. -/
inductive Event where
  | process
  | hashReply (height : Nat) (hash : Bytes)
  | blockReply (height : Nat) (hash : Bytes) (rawblock : Bytes)
  | rpcError (request : Request) (code : Int) (msg : String)
  deriving DecidableEq, Repr

/-- A valid reply: the hash decodes to 32 bytes, and the block's header has the header
size and hashes to the hash asked for.  RPC errors are not valid. -/
def Event.Valid (btc : Btc) : Event → Prop
  | .process => True
  | .hashReply _ hash => hash.length = uint256Width
  | .blockReply _ hash raw =>
    (raw.take btc.headerSize).length = btc.headerSize ∧ btc.hashRev (raw.take btc.headerSize) = hash
  | .rpcError .. => False

instance (btc : Btc) : DecidablePred (Event.Valid btc)
  | .process => inferInstanceAs (Decidable True)
  | .hashReply _ hash => inferInstanceAs (Decidable (hash.length = uint256Width))
  | .blockReply _ hash raw => inferInstanceAs (Decidable
    ((raw.take btc.headerSize).length = btc.headerSize ∧ btc.hashRev (raw.take btc.headerSize) = hash))
  | .rpcError .. => inferInstanceAs (Decidable False)

/-- The requests the task has submitted, by height. -/
def Run.requested (r : Run) : List Nat := r.log.filterMap Effect.hashHeight?

/-- The blocks the task has handed to the controller. -/
def Run.blocks (r : Run) : List PreProcessedBlock := r.log.filterMap Effect.block?

/-- Take a handler's result: new fields, the re-entries it queued, the requests it
submitted, and its effects logged. -/
def Run.apply (r : Run) (res : DownloadBlocksTask × List Effect) : Run :=
  { task := res.1
    queued := r.queued + res.2.count .again
    inflight := r.inflight ++ res.2.filterMap requestOf
    log := r.log ++ res.2 }

/-- `CtlTask::on_error` / `on_failure`: record the RPC layer's code and message, and
emit `errored`. -/
def onRpcError (t : DownloadBlocksTask) (code : Int) (msg : String) :
    DownloadBlocksTask × List Effect :=
  ({ t with errorCode := code, errorMessage := msg }, [.errored])

/-- The queued `process()` that runs now leaves the queue. -/
def Run.dequeue (r : Run) : Run := { r with queued := r.queued - 1 }

/-- The request whose reply is handled now leaves the requests in flight. -/
def Run.answer (r : Run) (req : Request) : Run := { r with inflight := r.inflight.erase req }

/-- One event on the task's thread; `none` when it is not possible (nothing queued, or
no such request in flight). -/
def step (btc : Btc) (nClients : Nat) (r : Run) : Event → Option Run
  | .process => if 0 < r.queued then some (r.dequeue.apply r.task.process) else none
  | .hashReply h hash =>
    if Request.getblockhash h ∈ r.inflight then
      some ((r.answer (.getblockhash h)).apply (r.task.onBlockHash h hash))
    else none
  | .blockReply h hash raw =>
    if Request.getblock h hash ∈ r.inflight then
      some ((r.answer (.getblock h hash)).apply (r.task.onBlock btc nClients h hash raw))
    else none
  | .rpcError req code msg =>
    if req ∈ r.inflight then some ((r.answer req).apply (onRpcError r.task code msg)) else none

/-- A sequence of events on the task's thread, one after another. -/
def exec (btc : Btc) (nClients : Nat) (r : Run) : List Event → Option Run
  | [] => some r
  | e :: es => (step btc nClients r e).bind (exec btc nClients · es)

/-- The task as constructed, with the first `process()` queued. -/
def Run.start (t : DownloadBlocksTask) : Run := ⟨t, 1, [], []⟩

/-- The runs of the task constructed from `(from, to, stride)` whose events satisfy `ok`. -/
inductive Reachable (btc : Btc) (nClients f t s : Nat) (ok : Event → Prop) : Run → Prop
  | start {t0 : DownloadBlocksTask} : make f t s = some t0 → Reachable btc nClients f t s ok (.start t0)
  | step {r r' : Run} (e : Event) : Reachable btc nClients f t s ok r → ok e →
      step btc nClients r e = some r' → Reachable btc nClients f t s ok r'

/-- Running events that satisfy `ok` from a reachable run reaches a run. -/
theorem Reachable.exec {btc : Btc} {nClients f t s : Nat} {ok : Event → Prop} {r r' : Run}
    {es : List Event} (hr : Reachable btc nClients f t s ok r) (hx : exec btc nClients r es = some r')
    (hok : ∀ e ∈ es, ok e) : Reachable btc nClients f t s ok r' := by
  induction es generalizing r with
  | nil => cases hx; exact hr
  | cons e es ih =>
    simp only [DownloadBlocksTask.exec, Option.bind_eq_some] at hx
    obtain ⟨r1, h1, h2⟩ := hx
    exact ih (.step e hr (hok e (.head _)) h1) h2 fun e' he' => hok e' (.tail _ he')

/-- Headers of 80 bytes, every hash all zeros, and one transaction, input and output in
every block. -/
def sampleBtc : Btc := ⟨80, fun _ => List.replicate 32 0, fun _ => rfl, fun _ => (1, 1, 1)⟩

/-- A run of the task `(2, 11, 3)` with one client (`max_q = 2`): block `2` queues two
re-entries, the requests for `5` and `8` are answered in the other order, and the final
re-entry emits `success`. -/
def elevenRun : List Event :=
  [.process, .hashReply 2 (List.replicate 32 0),
    .blockReply 2 (List.replicate 32 0) (List.replicate 80 0), .process, .process,
    .hashReply 8 (List.replicate 32 0), .blockReply 8 (List.replicate 32 0) (List.replicate 80 0),
    .hashReply 5 (List.replicate 32 0), .blockReply 5 (List.replicate 32 0) (List.replicate 80 0),
    .process, .hashReply 11 (List.replicate 32 0),
    .blockReply 11 (List.replicate 32 0) (List.replicate 80 0), .process]

example : ∃ r, exec sampleBtc 1 (.start ⟨2, 11, 3, 4, 2, 0, false, 0, 0, 0, 0, 0, ""⟩) elevenRun =
    some r ∧ r.blocks.map (·.height) = [2, 8, 5, 11] ∧ r.log.getLast? = some .success :=
  ⟨_, rfl, rfl, rfl⟩

end DownloadBlocksTask

end Fulcrum
