import Fulcrum.Controller

/-!
# Fulcrum.Controller.System

The controller together with everything that posts to its thread, as one transition
system.  An `Event` is any of:

* the controller's thread runs one queued message, whichever.  Qt runs the events posted
  to one thread in the order they were posted (`inOrder`), but `Reachable` allows any
  order, so that what it proves of every run holds whatever the scheduling; the runs shown
  to go wrong are in order;
* a task's thread hands a block over (`putBlock`), reports progress, succeeds or fails.
  A running download task hands over each height it still holds, with a header of
  `HEADER_SIZE` bytes, at most once, and succeeds only once it has none left; a
  chain-info task succeeds with a reply `GetChainInfoTask` accepts.  These are what the
  task models prove of the tasks (`Fulcrum.DownloadBlocksTask.Pipeline`);
* the poll timer or the call-process timer fires, or bitcoind's connections are lost or
  the first one comes back.

`Reachable cfg ok` are the runs from `startup()` whose every event satisfies `ok`; after a
`Fatal()` nothing happens.
-/

namespace Fulcrum

/-- A `getblockchaininfo` reply `GetChainInfoTask` accepts: `blocks` is a non-negative
`int` and `chain` is not empty. -/
def ChainInfo.Valid (info : ChainInfo) : Prop :=
  0 ≤ info.blocks ∧ info.blocks < 2 ^ 31 ∧ info.chain ≠ ""

instance (info : ChainInfo) : Decidable info.Valid := inferInstanceAs (Decidable (_ ∧ _ ∧ _))

/-- Whether a task is a download task. -/
def TaskKind.isDownload : TaskKind → Bool
  | .downloadBlocks .. => true
  | .getChainInfo _ => false

/-- A task's thread can act: it was started and not stopped. -/
def TaskRec.running (t : TaskRec) : Bool := t.started && !t.stopped

/-- What a task may do when it succeeds: a download task once it has handed over every
height, a chain-info task with a reply it accepts. -/
def TaskRec.CanSucceed (t : TaskRec) (info : ChainInfo) : Prop :=
  t.running = true ∧ t.succeeded = false ∧
    match t.kind with
    | .downloadBlocks .. => t.pending = []
    | .getChainInfo _ => info.Valid

instance (t : TaskRec) (info : ChainInfo) : Decidable (t.CanSucceed info) := by
  unfold TaskRec.CanSucceed; split <;> infer_instance

/-- What a download task may hand over: a height it still holds, with a header of
`HEADER_SIZE` bytes. -/
def TaskRec.CanDeliver (t : TaskRec) (headerSize : Nat) (ppb : PreProcessedBlock) : Prop :=
  t.running = true ∧ t.kind.isDownload = true ∧ ppb.height ∈ t.pending ∧
    ppb.header.length = headerSize

instance (t : TaskRec) (n : Nat) (ppb : PreProcessedBlock) : Decidable (t.CanDeliver n ppb) :=
  inferInstanceAs (Decidable (_ ∧ _ ∧ _ ∧ _))

/-- A download task hands `ppb` over: its height is no longer pending, and the task's
counters take the block's. -/
def TaskRec.handOver (t : TaskRec) (ppb : PreProcessedBlock) : TaskRec :=
  { t with pending := t.pending.erase ppb.height, nTx := t.nTx + ppb.nTx
           nIns := t.nIns + ppb.nIns, nOuts := t.nOuts + ppb.nOuts }

namespace Controller

variable {V : Type} (cfg : Config V)

/-- What happens next. -/
inductive Event where
  /-- The controller's thread runs the `i`-th queued message. -/
  | handle (i : Nat)
  /-- A download task calls `ctl->putBlock`. -/
  | deliver (task : Nat) (ppb : PreProcessedBlock)
  /-- A download task emits `progress`. -/
  | progress (task : Nat)
  /-- A task emits `success`. -/
  | succeed (task : Nat) (info : ChainInfo)
  /-- A task emits `errored`. -/
  | fail (task : Nat)
  /-- The poll timer fires: `if (!sm) process(true)`. -/
  | pollTimer
  /-- The call-process timer fires: `process()`. -/
  | callProcessTimer
  /-- `allConnectionsLost`: `waitForBitcoinD` stops both timers and arms the hook. -/
  | connectionsLost
  /-- `gotFirstGoodConnection`: the armed hook arms the call-process timer. -/
  | firstGoodConnection
  deriving DecidableEq, Repr

/-- Post a message to the controller's thread. -/
def post (c : Controller V) (m : Msg) : Controller V := { c with queue := c.queue ++ [m] }

/-- The controller's thread takes the `i`-th message off its queue. -/
def dequeue (c : Controller V) (i : Nat) : Controller V := { c with queue := c.queue.eraseIdx i }

section

variable (c : Controller V) {m : Msg} {i : Nat}

@[simp] theorem post_sm : (c.post m).sm = c.sm := rfl
@[simp] theorem post_storage : (c.post m).storage = c.storage := rfl
@[simp] theorem post_procs : (c.post m).procs = c.procs := rfl
@[simp] theorem post_tasks : (c.post m).tasks = c.tasks := rfl
@[simp] theorem post_queue : (c.post m).queue = c.queue ++ [m] := rfl
@[simp] theorem post_epoch : (c.post m).epoch = c.epoch := rfl
@[simp] theorem post_fatal : (c.post m).fatal = c.fatal := rfl
@[simp] theorem dequeue_sm : (c.dequeue i).sm = c.sm := rfl
@[simp] theorem dequeue_storage : (c.dequeue i).storage = c.storage := rfl
@[simp] theorem dequeue_procs : (c.dequeue i).procs = c.procs := rfl
@[simp] theorem dequeue_tasks : (c.dequeue i).tasks = c.tasks := rfl
@[simp] theorem dequeue_queue : (c.dequeue i).queue = c.queue.eraseIdx i := rfl
@[simp] theorem dequeue_epoch : (c.dequeue i).epoch = c.epoch := rfl
@[simp] theorem dequeue_fatal : (c.dequeue i).fatal = c.fatal := rfl

end

/-- One event; `none` when it cannot happen. -/
def step (c : Controller V) : Event → Option (Controller V)
  | .handle i =>
    if c.fatal then none else (c.queue[i]?).map fun m => handle cfg (c.dequeue i) m
  | .deliver task ppb =>
    match c.procs[task]? with
    | some t =>
      if c.fatal = false ∧ t.CanDeliver cfg.headerSize ppb then
        some ((c.modifyProc task (TaskRec.handOver · ppb)).post (.putBlock task ppb))
      else none
    | none => none
  | .progress task =>
    match c.procs[task]? with
    | some t =>
      if c.fatal = false ∧ t.running = true ∧ t.kind.isDownload = true then
        some (c.post (.progress task))
      else none
    | none => none
  | .succeed task info =>
    match c.procs[task]? with
    | some t =>
      if c.fatal = false ∧ t.CanSucceed info then
        some (((c.modifyProc task fun t => { t with succeeded := true, info }).post
          (.success task)).post (.stop task))
      else none
    | none => none
  | .fail task =>
    match c.procs[task]? with
    | some t =>
      if c.fatal = false ∧ t.running = true then some ((c.post (.errored task)).post (.stop task))
      else none
    | none => none
  | .pollTimer =>
    if c.fatal = false ∧ c.pollTimer.isSome then
      let c := { c with pollTimer := none }
      some (if c.sm.isNone then process cfg true c else c)
    else none
  | .callProcessTimer =>
    if c.fatal = false ∧ c.callProcessTimer then
      some (process cfg false { c with callProcessTimer := false })
    else none
  | .connectionsLost =>
    if c.fatal then none
    else some { c with pollTimer := none, callProcessTimer := false, connectionHook := true }
  | .firstGoodConnection =>
    if c.fatal = false ∧ c.connectionHook then
      some { c with connectionHook := false, callProcessTimer := true }
    else none

/-- What one event does, when it can happen: `step`, one constructor per event, with its
guards. -/
inductive StepSpec (c : Controller V) : Event → Controller V → Prop
  | handle {i : Nat} {m : Msg} : c.fatal = false → c.queue[i]? = some m →
      StepSpec c (.handle i) (handle cfg (c.dequeue i) m)
  | deliver {task : Nat} {t : TaskRec} {ppb : PreProcessedBlock} : c.fatal = false →
      c.procs[task]? = some t → t.CanDeliver cfg.headerSize ppb →
      StepSpec c (.deliver task ppb)
        ((c.modifyProc task (TaskRec.handOver · ppb)).post (.putBlock task ppb))
  | progress {task : Nat} {t : TaskRec} : c.fatal = false → c.procs[task]? = some t →
      t.running = true → t.kind.isDownload = true →
      StepSpec c (.progress task) (c.post (.progress task))
  | succeed {task : Nat} {t : TaskRec} {info : ChainInfo} : c.fatal = false →
      c.procs[task]? = some t → t.CanSucceed info →
      StepSpec c (.succeed task info)
        (((c.modifyProc task fun t => { t with succeeded := true, info }).post
          (.success task)).post (.stop task))
  | fail {task : Nat} {t : TaskRec} : c.fatal = false → c.procs[task]? = some t →
      t.running = true → StepSpec c (.fail task) ((c.post (.errored task)).post (.stop task))
  | pollTimer : c.fatal = false → c.pollTimer.isSome = true →
      StepSpec c .pollTimer
        (if c.sm.isNone then process cfg true { c with pollTimer := none }
         else { c with pollTimer := none })
  | callProcessTimer : c.fatal = false → c.callProcessTimer = true →
      StepSpec c .callProcessTimer (process cfg false { c with callProcessTimer := false })
  | connectionsLost : c.fatal = false →
      StepSpec c .connectionsLost
        { c with pollTimer := none, callProcessTimer := false, connectionHook := true }
  | firstGoodConnection : c.fatal = false → c.connectionHook = true →
      StepSpec c .firstGoodConnection { c with connectionHook := false, callProcessTimer := true }

variable {cfg} in
theorem step_spec {c c' : Controller V} {e : Event} (h : step cfg c e = some c') :
    StepSpec cfg c e c' := by
  cases e <;> simp only [step] at h
  case handle i =>
    split at h
    next => cases h
    next hf =>
      obtain ⟨m, hm, rfl⟩ := Option.map_eq_some'.1 h
      exact .handle (by simpa using hf) hm
  case deliver task ppb =>
    split at h
    next t ht =>
      split at h
      next hg => cases h; exact .deliver hg.1 ht hg.2
      next => cases h
    next => cases h
  case progress task =>
    split at h
    next t ht =>
      split at h
      next hg => cases h; exact .progress hg.1 ht hg.2.1 hg.2.2
      next => cases h
    next => cases h
  case succeed task info =>
    split at h
    next t ht =>
      split at h
      next hg => cases h; exact .succeed hg.1 ht hg.2
      next => cases h
    next => cases h
  case fail task =>
    split at h
    next t ht =>
      split at h
      next hg => cases h; exact .fail hg.1 ht hg.2
      next => cases h
    next => cases h
  case pollTimer =>
    split at h
    next hg => cases h; exact .pollTimer hg.1 hg.2
    next => cases h
  case callProcessTimer =>
    split at h
    next hg => cases h; exact .callProcessTimer hg.1 hg.2
    next => cases h
  case connectionsLost =>
    split at h
    next => cases h
    next hf => cases h; exact .connectionsLost (by simpa using hf)
  case firstGoodConnection =>
    split at h
    next hg => cases h; exact .firstGoodConnection hg.1 hg.2
    next => cases h

/-- The controller once `startup()` has run: the storage as loaded, no state machine, no
task, no timer, and the first-connection hook armed. -/
def init (storage : Storage V) : Controller V :=
  ⟨none, [], storage, none, false, true, [], [], [], 0, false⟩

/-- Storage as this program leaves it: the headers of heights `0, 1, …, n - 1`, each an
`int` height, and the verifier at the last of them. -/
structure Loaded (st : Storage V) : Prop where
  heights_eq : st.heights = List.range st.headers.length
  length_le : st.headers.length ≤ 2 ^ 31
  verifier_last : cfg.verifier.lastHeaderProcessed st.verifier = st.headers.getLast?.getD []

/-- The runs from a loaded storage whose events satisfy `ok`. -/
inductive Reachable (ok : Controller V → Event → Prop) : Controller V → Prop
  | init {st : Storage V} : Loaded cfg st → Reachable ok (init st)
  | step {c c' : Controller V} (e : Event) : Reachable ok c → ok c e → step cfg c e = some c' →
      Reachable ok c'

/-- A sequence of events, one after another. -/
def exec (c : Controller V) : List Event → Option (Controller V)
  | [] => some c
  | e :: es => (step cfg c e).bind (exec · es)

variable {cfg} in
theorem Reachable.exec {ok : Controller V → Event → Prop} {c c' : Controller V}
    {es : List Event} (hr : Reachable cfg ok c) (hx : Controller.exec cfg c es = some c')
    (hok : ∀ e ∈ es, ∀ d, ok d e) : Reachable cfg ok c' := by
  induction es generalizing c with
  | nil => cases hx; exact hr
  | cons e es ih =>
    simp only [Controller.exec, Option.bind_eq_some] at hx
    obtain ⟨c1, h1, h2⟩ := hx
    exact ih (.step e hr (hok e (.head _) c) h1) h2 fun e' he' => hok e' (.tail _ he')

variable {cfg} in
theorem Reachable.mono {ok ok' : Controller V → Event → Prop} {c : Controller V}
    (h : Reachable cfg ok c) (hok : ∀ c e, ok c e → ok' c e) : Reachable cfg ok' c := by
  induction h with
  | init hl => exact .init hl
  | step e _ he hs ih => exact .step e ih (hok _ e he) hs

/-- The controller's thread runs the oldest queued message, as Qt's event loop runs the
events posted to one thread. -/
def Event.inOrder : Event → Bool
  | .handle i => i == 0
  | _ => true

variable {cfg} in
theorem Reachable.exec_inOrder {c c' : Controller V} {es : List Event}
    (hr : Reachable cfg (fun _ e => e.inOrder = true) c) (hx : Controller.exec cfg c es = some c')
    (hes : es.all Event.inOrder = true) : Reachable cfg (fun _ e => e.inOrder = true) c' :=
  hr.exec hx fun e he _ => List.all_eq_true.1 hes e he

/-- A sequence of events, each of which `ok` must allow in the state it happens in. -/
def execIf (ok : Controller V → Event → Bool) (c : Controller V) : List Event → Option (Controller V)
  | [] => some c
  | e :: es => if ok c e then (step cfg c e).bind (execIf ok · es) else none

variable {cfg} in
theorem Reachable.execIf {ok : Controller V → Event → Bool} {c c' : Controller V}
    {es : List Event} (hr : Reachable cfg (fun c e => ok c e = true) c)
    (hx : Controller.execIf cfg ok c es = some c') : Reachable cfg (fun c e => ok c e = true) c' := by
  induction es generalizing c with
  | nil => cases hx; exact hr
  | cons e es ih =>
    simp only [Controller.execIf] at hx
    split at hx
    · obtain ⟨c1, h1, h2⟩ := Option.bind_eq_some.1 hx
      exact ih (.step e hr ‹_› h1) h2
    · cases hx

/-! ## A configuration to run the controller on -/

/-- The verifier that accepts every header; its state is the last header. -/
def acceptAll : HeaderVerifier Bytes := ⟨fun _ h => (true, h), id, fun _ _ _ => rfl⟩

/-- Headers of 80 bytes, every one accepted, two processors (so `DL_CONCURRENCY = 1`), and
a poll every two seconds. -/
def sampleConfig : Config Bytes := ⟨acceptAll, 80, 2, 2000⟩

/-- Empty storage on a new datadir. -/
def emptyStorage : Storage Bytes := ⟨[], [], [], "", 0⟩

theorem loaded_emptyStorage : Loaded sampleConfig emptyStorage := ⟨rfl, by decide, rfl⟩

/-- As `sampleConfig`, with three processors: `DL_CONCURRENCY = 2`, so a round is split over
two download tasks. -/
def threeCoreConfig : Config Bytes := ⟨acceptAll, 80, 3, 2000⟩

theorem loaded_emptyStorage_threeCore : Loaded threeCoreConfig emptyStorage :=
  ⟨rfl, by decide, rfl⟩

/-- A block of 80 zero bytes at height `h`. -/
def zeroBlock (h : Nat) : PreProcessedBlock := ⟨h, 80, List.replicate 80 0, 1, 1, 1⟩

/-- A run of `threeCoreConfig` on empty storage with target height `2`, every message run in
the order it was posted: the round is split into the tasks `(0, 2, 2)` and `(1, 2, 2)`.  The
second hands block `1` over, which waits in `ppBlocks`; then the first hands block `0` over,
whose `putBlock` is still queued, and still holds block `2`. -/
def inOrderRun : List Event :=
  [.firstGoodConnection, .callProcessTimer, .handle 0, .succeed 0 ⟨"main", 2, false⟩, .handle 0,
    .handle 0, .handle 0, .handle 0, .handle 0, .handle 0, .deliver 2 (zeroBlock 1), .handle 0,
    .handle 0, .deliver 1 (zeroBlock 0)]

/-- A run of `threeCoreConfig` on empty storage with target height `2` in which the
controller's thread takes its messages out of order: it starts the second task first, whose
block `1` arrives and waits in `ppBlocks` while the first task, not started yet, holds
`0` and `2`. -/
def outOfOrderRun : List Event :=
  [.firstGoodConnection, .callProcessTimer, .handle 0, .succeed 0 ⟨"main", 2, false⟩, .handle 0,
    .handle 0, .handle 0, .handle 2, .deliver 2 (zeroBlock 1), .handle 2]

end Controller

end Fulcrum
