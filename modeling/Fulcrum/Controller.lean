import Fulcrum.StateMachine

/-!
# Fulcrum.Controller

The controller (`Controller.cpp`) as the state of its thread: the state machine `sm`, the
task map `tasks`, the storage it appends headers to, its timers and connection hooks, and
the messages posted to its thread.  Each handler of the source is a function from that
state to the next one:

* `process` with every branch of the state machine, among them the `GetBlocks` step and
  `process_DownloadingBlocks` with its loop (`drain`) over `process_VerifyAndAddBlock`;
* `putBlock`'s posted lambda (`onPutBlock`), the handlers `add_DLHeaderTask` and `process`
  connect to each task's signals, and `genericTaskErrored`;
* `rmTask`, `newTask`'s posted start, `CtlTask::on_started`'s `stop()` hook, the poll and
  call-process timers and the bitcoind connection hooks of `startup`.

The tasks themselves run on their own threads and are seen here from outside, by what
they can post (`Fulcrum.Controller.System`).  Three ghost fields, which the source does not
have, record what the proofs talk about: `epoch` counts the state machines made so far and
each task records the one it was made under; `heights` records, for every stored header,
the height of the block it was appended for.

`Fatal()` ends the program: a handler that calls it sets `fatal`, and no event follows.
`FatalAssert` logs the same way but its handler runs on, as in the source.
-/

namespace Fulcrum

/-- The fields of `ChainInfo` the controller reads. -/
structure ChainInfo where
  chain : String
  blocks : Int
  initialBlockDownload : Bool
  deriving DecidableEq, Repr

/-- Modelled from the spec: `Storage::headerVerifier()`, the shared verifier (not under
`src/`).  `verify` is `verif(header, &err)`, with the verifier it leaves, and
`lastHeaderProcessed` is `lastHeaderProcessed().second`.  Its contract: after accepting a
header, the last header it processed is that header. -/
structure HeaderVerifier (V : Type) where
  verify : V → Bytes → Bool × V
  lastHeaderProcessed : V → Bytes
  lastHeaderProcessed_verify :
    ∀ v h, (verify v h).1 = true → lastHeaderProcessed (verify v h).2 = h

/-- What the controller uses of `Storage`: the headers (`headers().first`), the verifier,
the chain name, and how many `save(SaveItem::Hdrs)` it has asked for.  `heights` is ghost. -/
structure Storage (V : Type) where
  headers : List Bytes
  heights : List Nat
  verifier : V
  chain : String
  saves : Nat

/-- What a task is: its class and what the controller made it with. -/
inductive TaskKind where
  /-- A `DownloadBlocksTask(from, to, stride)`. -/
  | downloadBlocks («from» «to» stride : Nat)
  /-- A `GetChainInfoTask`; its success handler captured `beSilentIfUpToDate`. -/
  | getChainInfo (beSilentIfUpToDate : Bool)
  deriving DecidableEq, Repr

/-- A task object seen from the controller: what it was made as, whether its thread
started and stopped, and what its handlers read of it (`nTx`, `nIns`, `nOuts` of a
download task, `info` of a chain-info task).  `pending` are the heights a download task has
yet to hand over; `epoch` is ghost. -/
structure TaskRec where
  kind : TaskKind
  epoch : Nat
  started : Bool
  stopped : Bool
  succeeded : Bool
  pending : List Nat
  nTx : Nat
  nIns : Nat
  nOuts : Nat
  info : ChainInfo

/-- A task as `newTask` makes it.  A download task will hand over the heights of its
progression; one whose constructor's `FatalAssert(to >= from && stride > 0)` fired never
requests anything (its `process()` finds `next > to` at once). -/
def TaskRec.make (kind : TaskKind) (epoch : Nat) : TaskRec :=
  { kind, epoch, started := false, stopped := false, succeeded := false
    pending := match kind with
      | .downloadBlocks f t s => if f ≤ t ∧ 0 < s then progression (f, t, s) else []
      | .getChainInfo _ => []
    nTx := 0, nIns := 0, nOuts := 0, info := ⟨"", 0, false⟩ }

/-- A message posted to the controller's thread. -/
inductive Msg where
  /-- `AGAIN()`: `process()` later. -/
  | process (beSilentIfUpToDate : Bool)
  /-- `newTask`'s `QTimer::singleShot(0, …)`: start the task unless it is deleted. -/
  | start (task : Nat)
  /-- `putBlock`'s `Util::AsyncOnObject` lambda. -/
  | putBlock (task : Nat) (ppb : PreProcessedBlock)
  /-- A task's `success`, `errored` and `progress` signals, to the handlers connected. -/
  | success (task : Nat)
  | errored (task : Nat)
  | progress (task : Nat)
  /-- `on_started`'s `success`/`errored` → `stop()` hook. -/
  | stop (task : Nat)
  /-- `on_started`'s `finished` → `rmTask` hook. -/
  | finished (task : Nat)
  deriving DecidableEq, Repr

/-- The signals the controller emits for its observers. -/
inductive Signal where
  | synchronizing
  | upToDate
  | synchFailure
  deriving DecidableEq, Repr

/-- The controller's thread. -/
structure Controller (V : Type) where
  sm : Option StateMachine
  tasks : List Nat
  storage : Storage V
  pollTimer : Option Nat
  callProcessTimer : Bool
  connectionHook : Bool
  signals : List Signal
  procs : List TaskRec
  queue : List Msg
  epoch : Nat
  fatal : Bool

/-- What the controller is configured with: the verifier, `BTC::GetBlockHeaderSize()`,
`Util::getNPhysicalProcessors()` (for `DL_CONCURRENCY`) and `polltime_ms`. -/
structure Config (V : Type) where
  verifier : HeaderVerifier V
  headerSize : Nat
  nPhysicalProcessors : Nat
  polltimeMs : Nat

namespace Controller

variable {V : Type} (cfg : Config V)

/-! ## Plumbing -/

/-- `AGAIN()`. -/
def again (c : Controller V) : Controller V := { c with queue := c.queue ++ [.process false] }

/-- `Fatal()`. -/
def halt (c : Controller V) : Controller V := { c with fatal := true }

/-- Change the state machine, if there is one. -/
def modifySm (c : Controller V) (f : StateMachine → StateMachine) : Controller V :=
  { c with sm := c.sm.map f }

/-- `sm->state = s`. -/
def setState (c : Controller V) (s : State) : Controller V := c.modifySm ({ · with state := s })

/-- Change the task object `task`. -/
def modifyProc (c : Controller V) (task : Nat) (f : TaskRec → TaskRec) : Controller V :=
  { c with procs := c.procs.modify f task }

/-- `isTaskDeleted(t)`. -/
def isTaskDeleted (c : Controller V) (task : Nat) : Bool := task ∉ c.tasks

/-- `newTask<T>(…)`: make the task, register it, and post its start. -/
def newTask (c : Controller V) (kind : TaskKind) : Controller V :=
  { c with procs := c.procs ++ [TaskRec.make kind c.epoch], tasks := c.tasks ++ [c.procs.length]
           queue := c.queue ++ [.start c.procs.length] }

/-- `add_DLHeaderTask(from, to, nTasks)`, as `(from, to, unsigned(nTasks))` reach the
task's constructor and its `FatalAssert`. -/
def addDLHeaderTask (c : Controller V) (a : Nat × Nat × Nat) : Controller V :=
  let c := if a.1 ≤ a.2.1 ∧ 0 < a.2.2 then c else c.halt
  c.newTask (.downloadBlocks a.1 a.2.1 a.2.2)

/-- `rmTask(t)`: erase it from the task map (an unknown task is only logged). -/
def rmTask (c : Controller V) (task : Nat) : Controller V := { c with tasks := c.tasks.erase task }

/-- `genericTaskErrored()`. -/
def genericTaskErrored (c : Controller V) : Controller V :=
  match c.sm with
  | some sm => if sm.state ≠ .failure then (c.setState .failure).again else c
  | none => c

section

variable (c : Controller V) {s : State} {f : StateMachine → StateMachine} {task : Nat}
  {g : TaskRec → TaskRec} {kind : TaskKind}

@[simp] theorem again_sm : c.again.sm = c.sm := rfl
@[simp] theorem again_storage : c.again.storage = c.storage := rfl
@[simp] theorem again_procs : c.again.procs = c.procs := rfl
@[simp] theorem again_tasks : c.again.tasks = c.tasks := rfl
@[simp] theorem again_queue : c.again.queue = c.queue ++ [.process false] := rfl
@[simp] theorem again_epoch : c.again.epoch = c.epoch := rfl
@[simp] theorem again_fatal : c.again.fatal = c.fatal := rfl
@[simp] theorem halt_sm : c.halt.sm = c.sm := rfl
@[simp] theorem halt_storage : c.halt.storage = c.storage := rfl
@[simp] theorem halt_procs : c.halt.procs = c.procs := rfl
@[simp] theorem halt_tasks : c.halt.tasks = c.tasks := rfl
@[simp] theorem halt_queue : c.halt.queue = c.queue := rfl
@[simp] theorem halt_epoch : c.halt.epoch = c.epoch := rfl
@[simp] theorem halt_fatal : c.halt.fatal = true := rfl
@[simp] theorem modifySm_sm : (c.modifySm f).sm = c.sm.map f := rfl
@[simp] theorem modifySm_storage : (c.modifySm f).storage = c.storage := rfl
@[simp] theorem modifySm_procs : (c.modifySm f).procs = c.procs := rfl
@[simp] theorem modifySm_tasks : (c.modifySm f).tasks = c.tasks := rfl
@[simp] theorem modifySm_queue : (c.modifySm f).queue = c.queue := rfl
@[simp] theorem modifySm_epoch : (c.modifySm f).epoch = c.epoch := rfl
@[simp] theorem modifySm_fatal : (c.modifySm f).fatal = c.fatal := rfl
@[simp] theorem setState_sm : (c.setState s).sm = c.sm.map ({ · with state := s }) := rfl
@[simp] theorem setState_storage : (c.setState s).storage = c.storage := rfl
@[simp] theorem setState_procs : (c.setState s).procs = c.procs := rfl
@[simp] theorem setState_tasks : (c.setState s).tasks = c.tasks := rfl
@[simp] theorem setState_queue : (c.setState s).queue = c.queue := rfl
@[simp] theorem setState_epoch : (c.setState s).epoch = c.epoch := rfl
@[simp] theorem setState_fatal : (c.setState s).fatal = c.fatal := rfl
@[simp] theorem modifyProc_sm : (c.modifyProc task g).sm = c.sm := rfl
@[simp] theorem modifyProc_storage : (c.modifyProc task g).storage = c.storage := rfl
@[simp] theorem modifyProc_procs : (c.modifyProc task g).procs = c.procs.modify g task := rfl
@[simp] theorem modifyProc_tasks : (c.modifyProc task g).tasks = c.tasks := rfl
@[simp] theorem modifyProc_queue : (c.modifyProc task g).queue = c.queue := rfl
@[simp] theorem modifyProc_epoch : (c.modifyProc task g).epoch = c.epoch := rfl
@[simp] theorem modifyProc_fatal : (c.modifyProc task g).fatal = c.fatal := rfl
@[simp] theorem newTask_sm : (c.newTask kind).sm = c.sm := rfl
@[simp] theorem newTask_storage : (c.newTask kind).storage = c.storage := rfl
@[simp] theorem newTask_procs : (c.newTask kind).procs = c.procs ++ [TaskRec.make kind c.epoch] := rfl
@[simp] theorem newTask_tasks : (c.newTask kind).tasks = c.tasks ++ [c.procs.length] := rfl
@[simp] theorem newTask_queue : (c.newTask kind).queue = c.queue ++ [.start c.procs.length] := rfl
@[simp] theorem newTask_epoch : (c.newTask kind).epoch = c.epoch := rfl
@[simp] theorem newTask_fatal : (c.newTask kind).fatal = c.fatal := rfl
@[simp] theorem rmTask_sm : (c.rmTask task).sm = c.sm := rfl
@[simp] theorem rmTask_storage : (c.rmTask task).storage = c.storage := rfl
@[simp] theorem rmTask_procs : (c.rmTask task).procs = c.procs := rfl
@[simp] theorem rmTask_tasks : (c.rmTask task).tasks = c.tasks.erase task := rfl
@[simp] theorem rmTask_queue : (c.rmTask task).queue = c.queue := rfl
@[simp] theorem rmTask_epoch : (c.rmTask task).epoch = c.epoch := rfl
@[simp] theorem rmTask_fatal : (c.rmTask task).fatal = c.fatal := rfl

end

/-! ## Reassembly -/

/-- `process_VerifyAndAddBlock(ppb)`: verify the header with the shared verifier, undoing
it on failure, and append the header the verifier processed; `false` on failure. -/
def verifyAndAddBlock (c : Controller V) (ppb : PreProcessedBlock) : Controller V × Bool :=
  let verifUndo := c.storage.verifier
  let r := cfg.verifier.verify verifUndo ppb.header
  let c := { c with storage := { c.storage with verifier := r.2 } }
  if r.1 = false then
    (({ c with storage := { c.storage with verifier := verifUndo } }.setState .failure).again, false)
  else
    let rawHeader := cfg.verifier.lastHeaderProcessed r.2
    let c := if rawHeader.length = cfg.headerSize then c else c.halt
    let nLeft := match c.sm with
      | some sm => asUnsigned ((sm.endHeight : Int) - asUnsigned ((sm.ppBlkHtNext : Int) - 1))
      | none => 0
    let c := { c with storage := { c.storage with headers := c.storage.headers ++ [rawHeader]
                                                  heights := c.storage.heights ++ [ppb.height] } }
    let c := if nLeft % 10000 = 0 ∧ nLeft ≠ 0 then
      { c with storage := { c.storage with saves := c.storage.saves + 1 } } else c
    (c, true)

/-- One round of the loop of `process_DownloadingBlocks` takes the first entry out:
`FatalAssert(ppb->height == sm->ppBlkHtNext)`, `++sm->ppBlkHtNext`, `ppBlocks.erase(it)`. -/
def popFront (c : Controller V) (sm : StateMachine) (ppb : PreProcessedBlock) : Controller V :=
  let c := if ppb.height = sm.ppBlkHtNext then c else c.halt
  { c with sm := some { sm with ppBlkHtNext := asUnsigned ((sm.ppBlkHtNext : Int) + 1)
                                ppBlocks := sm.ppBlocks.eraseFront } }

/-- The loop of `process_DownloadingBlocks`, for at most `fuel` rounds: while the first
entry of `ppBlocks` has key `ppBlkHtNext`, take it out and verify and append the block;
`false` when a block failed. -/
def drain : Nat → Controller V → Controller V × Bool
  | 0, c => (c, true)
  | fuel + 1, c =>
    match c.sm with
    | none => (c, true)
    | some sm =>
      match sm.ppBlocks.front? with
      | none => (c, true)
      | some (k, ppb) =>
        if k = sm.ppBlkHtNext then
          let r := verifyAndAddBlock cfg (c.popFront sm ppb) ppb
          if r.2 = false then r else drain fuel r.1
        else (c, true)

/-- `process_DownloadingBlocks()`: drain, and once `ppBlkHtNext >= endHeight`, go to
`FinishedDL`.  Every round takes an entry out, so `size()` rounds drain the map. -/
def processDownloadingBlocks (c : Controller V) : Controller V :=
  let r := drain cfg (c.sm.elim 0 (·.ppBlocks.size)) c
  if r.2 = false then r.1
  else
    match r.1.sm with
    | some sm => if sm.endHeight ≤ sm.ppBlkHtNext then (r.1.setState .finishedDL).again else r.1
    | none => r.1

section

variable {c : Controller V} {ppb : PreProcessedBlock} {sm : StateMachine} {fuel : Nat}

/-- A rejected header: the verifier is back to its copy, the state is `Failure`, and
`process` is queued again. -/
theorem verifyAndAddBlock_of_reject (h : (cfg.verifier.verify c.storage.verifier ppb.header).1 = false) :
    verifyAndAddBlock cfg c ppb = ((c.setState .failure).again, false) := by
  simp only [verifyAndAddBlock, h]
  rfl

/-- An accepted header: it is appended, for the block's height, and the verifier is the
one that accepted it; nothing else changes but `fatal` (the header-size `FatalAssert`)
and the saves asked for. -/
theorem verifyAndAddBlock_of_accept (h : (cfg.verifier.verify c.storage.verifier ppb.header).1 = true) :
    (verifyAndAddBlock cfg c ppb).2 = true ∧
    (verifyAndAddBlock cfg c ppb).1.storage.headers = c.storage.headers ++ [ppb.header] ∧
    (verifyAndAddBlock cfg c ppb).1.storage.heights = c.storage.heights ++ [ppb.height] ∧
    (verifyAndAddBlock cfg c ppb).1.storage.verifier = (cfg.verifier.verify c.storage.verifier ppb.header).2 ∧
    (verifyAndAddBlock cfg c ppb).1.storage.chain = c.storage.chain ∧
    (verifyAndAddBlock cfg c ppb).1.sm = c.sm ∧ (verifyAndAddBlock cfg c ppb).1.procs = c.procs ∧
    (verifyAndAddBlock cfg c ppb).1.tasks = c.tasks ∧ (verifyAndAddBlock cfg c ppb).1.queue = c.queue ∧
    (verifyAndAddBlock cfg c ppb).1.epoch = c.epoch := by
  have hl := cfg.verifier.lastHeaderProcessed_verify _ _ h
  simp only [verifyAndAddBlock, h, Bool.true_eq_false, if_false]
  split <;> split <;> simp_all

/-- `process_VerifyAndAddBlock` never clears `fatal`. -/
theorem fatal_of_verifyAndAddBlock (h : (verifyAndAddBlock cfg c ppb).1.fatal = false) :
    c.fatal = false := by
  cases hv : (cfg.verifier.verify c.storage.verifier ppb.header).1
  · rwa [verifyAndAddBlock_of_reject cfg hv] at h
  · revert h
    simp only [verifyAndAddBlock, hv, Bool.true_eq_false, if_false, apply_ite Controller.fatal,
      ite_self]
    split <;> simp [halt]

@[simp] theorem popFront_sm : (c.popFront sm ppb).sm = some { sm with
    ppBlkHtNext := asUnsigned ((sm.ppBlkHtNext : Int) + 1), ppBlocks := sm.ppBlocks.eraseFront } := by
  unfold popFront; split <;> rfl

@[simp] theorem popFront_storage : (c.popFront sm ppb).storage = c.storage := by
  unfold popFront; split <;> rfl

@[simp] theorem popFront_procs : (c.popFront sm ppb).procs = c.procs := by
  unfold popFront; split <;> rfl

@[simp] theorem popFront_tasks : (c.popFront sm ppb).tasks = c.tasks := by
  unfold popFront; split <;> rfl

@[simp] theorem popFront_queue : (c.popFront sm ppb).queue = c.queue := by
  unfold popFront; split <;> rfl

@[simp] theorem popFront_epoch : (c.popFront sm ppb).epoch = c.epoch := by
  unfold popFront; split <;> rfl

theorem popFront_fatal (h : ppb.height = sm.ppBlkHtNext) : (c.popFront sm ppb).fatal = c.fatal := by
  simp [popFront, h]

/-- The loop stops unless the first entry has key `ppBlkHtNext`. -/
theorem drain_succ_of_not_front (h : ∀ sm, c.sm = some sm → ∀ k ppb,
    sm.ppBlocks.front? = some (k, ppb) → k ≠ sm.ppBlkHtNext) :
    drain cfg (fuel + 1) c = (c, true) := by
  unfold drain
  split
  · rfl
  · rename_i sm hsm
    split
    · rfl
    · rename_i k ppb hf
      rw [if_neg (h sm hsm k ppb hf)]

/-- A round of the loop. -/
theorem drain_succ_of_front (hsm : c.sm = some sm) {k : Nat}
    (hf : sm.ppBlocks.front? = some (k, ppb)) (hk : k = sm.ppBlkHtNext) :
    drain cfg (fuel + 1) c =
      if (verifyAndAddBlock cfg (c.popFront sm ppb) ppb).2 = false then
        verifyAndAddBlock cfg (c.popFront sm ppb) ppb
      else drain cfg fuel (verifyAndAddBlock cfg (c.popFront sm ppb) ppb).1 := by
  conv_lhs => unfold drain
  simp only [hsm, hf, if_pos hk]

/-- One round of the loop leaves the tasks and the epoch alone, posts nothing but
`process`, and never clears `fatal`. -/
theorem verifyAndAddBlock_popFront_frame (c : Controller V) (sm : StateMachine)
    (ppb : PreProcessedBlock) :
    (verifyAndAddBlock cfg (c.popFront sm ppb) ppb).1.procs = c.procs ∧
    (verifyAndAddBlock cfg (c.popFront sm ppb) ppb).1.tasks = c.tasks ∧
    (verifyAndAddBlock cfg (c.popFront sm ppb) ppb).1.epoch = c.epoch ∧
    (∃ l, (verifyAndAddBlock cfg (c.popFront sm ppb) ppb).1.queue = c.queue ++ l ∧
      ∀ m ∈ l, m = .process false) ∧
    ((verifyAndAddBlock cfg (c.popFront sm ppb) ppb).1.fatal = false → c.fatal = false) := by
  have hpf : (c.popFront sm ppb).fatal = false → c.fatal = false := by
    unfold popFront; split <;> simp
  cases hv : (cfg.verifier.verify (c.popFront sm ppb).storage.verifier ppb.header).1
  · rw [verifyAndAddBlock_of_reject cfg hv]
    exact ⟨by simp, by simp, by simp, ⟨_, by simp, fun m hm => List.mem_singleton.1 hm⟩,
      fun h => hpf (by simpa using h)⟩
  · obtain ⟨-, -, -, -, -, -, hp, ht, hq, he⟩ := verifyAndAddBlock_of_accept cfg hv
    exact ⟨by simp [hp], by simp [ht], by simp [he], ⟨[], by simp [hq], by simp⟩,
      fun h => hpf (fatal_of_verifyAndAddBlock cfg h)⟩

/-- The loop of `process_DownloadingBlocks` leaves the tasks and the epoch alone, posts
nothing but `process`, and never clears `fatal`. -/
theorem drain_frame (fuel : Nat) : ∀ c : Controller V,
    (drain cfg fuel c).1.procs = c.procs ∧ (drain cfg fuel c).1.tasks = c.tasks ∧
    (drain cfg fuel c).1.epoch = c.epoch ∧
    (∃ l, (drain cfg fuel c).1.queue = c.queue ++ l ∧ ∀ m ∈ l, m = .process false) ∧
    ((drain cfg fuel c).1.fatal = false → c.fatal = false) := by
  induction fuel with
  | zero => exact fun c => ⟨rfl, rfl, rfl, ⟨[], (List.append_nil _).symm, by simp⟩, id⟩
  | succ fuel ih =>
    intro c
    by_cases hround : ∃ sm k ppb, c.sm = some sm ∧ sm.ppBlocks.front? = some (k, ppb) ∧
        k = sm.ppBlkHtNext
    · obtain ⟨sm, k, ppb, hsm, hf, hk⟩ := hround
      rw [drain_succ_of_front cfg hsm hf hk]
      obtain ⟨hp, ht, he, hq, hfa⟩ := verifyAndAddBlock_popFront_frame cfg c sm ppb
      split
      · exact ⟨hp, ht, he, hq, hfa⟩
      · obtain ⟨hp', ht', he', ⟨l', hq', hl'⟩, hfa'⟩ :=
          ih (verifyAndAddBlock cfg (c.popFront sm ppb) ppb).1
        obtain ⟨l, hq, hl⟩ := hq
        refine ⟨hp'.trans hp, ht'.trans ht, he'.trans he, ⟨l ++ l', by simp [hq', hq], fun m hm => ?_⟩,
          hfa ∘ hfa'⟩
        rcases List.mem_append.1 hm with h | h
        · exact hl m h
        · exact hl' m h
    · rw [drain_succ_of_not_front cfg fun sm hsm k ppb hf hk => hround ⟨sm, k, ppb, hsm, hf, hk⟩]
      exact ⟨rfl, rfl, rfl, ⟨[], by simp, by simp⟩, id⟩

end

/-! ## `process` -/

/-- The `GetBlocks` branch of `process`: size the download, make the tasks, and go to
`DownloadingBlocks`. -/
def getBlocks (c : Controller V) (sm : StateMachine) : Controller V :=
  let c := if 0 ≤ sm.ht then c else c.halt
  let base := c.storage.headers.length
  let c := if 0 < getBlocksNum sm.ht base then c else c.halt
  let c := c.modifySm fun sm => { sm with ppBlkHtNext := asUnsigned base, startheight := asUnsigned base
                                          endHeight := getBlocksEndHeight sm.ht base }
  let c := (getBlocksTaskArgs sm.ht base (dlConcurrency cfg.nPhysicalProcessors)).foldl
    addDLHeaderTask c
  c.setState .downloadingBlocks

section

variable (p : Prop) [Decidable p] (c : Controller V)

/-! A `FatalAssert(p)` changes only `fatal`. -/

@[simp] theorem ite_halt_sm : (if p then c else c.halt).sm = c.sm := by split <;> rfl
@[simp] theorem ite_halt_storage : (if p then c else c.halt).storage = c.storage := by split <;> rfl
@[simp] theorem ite_halt_procs : (if p then c else c.halt).procs = c.procs := by split <;> rfl
@[simp] theorem ite_halt_tasks : (if p then c else c.halt).tasks = c.tasks := by split <;> rfl
@[simp] theorem ite_halt_queue : (if p then c else c.halt).queue = c.queue := by split <;> rfl
@[simp] theorem ite_halt_epoch : (if p then c else c.halt).epoch = c.epoch := by split <;> rfl
@[simp] theorem ite_halt_fatal : (if p then c else c.halt).fatal = (c.fatal || !decide p) := by
  by_cases hp : p <;> simp [hp]

end

section

variable (c : Controller V) (a : Nat × Nat × Nat)

@[simp] theorem addDLHeaderTask_sm : (c.addDLHeaderTask a).sm = c.sm := by simp [addDLHeaderTask]
@[simp] theorem addDLHeaderTask_storage : (c.addDLHeaderTask a).storage = c.storage := by
  simp [addDLHeaderTask]
@[simp] theorem addDLHeaderTask_epoch : (c.addDLHeaderTask a).epoch = c.epoch := by
  simp [addDLHeaderTask]
@[simp] theorem addDLHeaderTask_procs : (c.addDLHeaderTask a).procs =
    c.procs ++ [TaskRec.make (.downloadBlocks a.1 a.2.1 a.2.2) c.epoch] := by simp [addDLHeaderTask]
@[simp] theorem addDLHeaderTask_tasks :
    (c.addDLHeaderTask a).tasks = c.tasks ++ [c.procs.length] := by simp [addDLHeaderTask]
@[simp] theorem addDLHeaderTask_queue :
    (c.addDLHeaderTask a).queue = c.queue ++ [.start c.procs.length] := by simp [addDLHeaderTask]
@[simp] theorem addDLHeaderTask_fatal :
    (c.addDLHeaderTask a).fatal = (c.fatal || !decide (a.1 ≤ a.2.1 ∧ 0 < a.2.2)) := by
  simp [addDLHeaderTask]

end

/-- The loop of `add_DLHeaderTask` calls: one task per argument, registered and with its
start posted, under the current epoch; `fatal` once a constructor's `FatalAssert` fails. -/
theorem foldl_addDLHeaderTask (args : List (Nat × Nat × Nat)) (c : Controller V) :
    (args.foldl addDLHeaderTask c).sm = c.sm ∧ (args.foldl addDLHeaderTask c).storage = c.storage ∧
    (args.foldl addDLHeaderTask c).epoch = c.epoch ∧
    (args.foldl addDLHeaderTask c).procs =
      c.procs ++ args.map (fun a => TaskRec.make (.downloadBlocks a.1 a.2.1 a.2.2) c.epoch) ∧
    (args.foldl addDLHeaderTask c).tasks = c.tasks ++ List.range' c.procs.length args.length ∧
    (args.foldl addDLHeaderTask c).queue =
      c.queue ++ (List.range' c.procs.length args.length).map Msg.start ∧
    ((args.foldl addDLHeaderTask c).fatal = false ↔
      c.fatal = false ∧ ∀ a ∈ args, a.1 ≤ a.2.1 ∧ 0 < a.2.2) := by
  induction args generalizing c with
  | nil => simp
  | cons a args ih =>
    obtain ⟨h1, h2, h3, h4, h5, h6, h7⟩ := ih (addDLHeaderTask c a)
    simp only [List.foldl_cons, addDLHeaderTask_sm, addDLHeaderTask_storage,
      addDLHeaderTask_epoch, addDLHeaderTask_procs, addDLHeaderTask_tasks,
      addDLHeaderTask_queue, addDLHeaderTask_fatal, List.length_append,
      List.length_singleton] at h1 h2 h3 h4 h5 h6 h7 ⊢
    refine ⟨h1, h2, h3, by simp [h4], by simp [h5, List.range'_succ],
      by simp [h6, List.range'_succ], ?_⟩
    rw [h7]
    simp [and_assoc]

/-- The `GetBlocks` step: the range `[base, ht]` is set, one task per argument is made,
and the state is `DownloadingBlocks`; `fatal` once one of its `FatalAssert`s fails. -/
theorem getBlocks_spec (c : Controller V) (sm : StateMachine) (hsm : c.sm = some sm) :
    (getBlocks cfg c sm).storage = c.storage ∧
    (getBlocks cfg c sm).sm = some { sm with
      ppBlkHtNext := asUnsigned c.storage.headers.length,
      startheight := asUnsigned c.storage.headers.length,
      endHeight := getBlocksEndHeight sm.ht c.storage.headers.length,
      state := .downloadingBlocks } ∧
    (getBlocks cfg c sm).procs = c.procs ++
      (getBlocksTaskArgs sm.ht c.storage.headers.length (dlConcurrency cfg.nPhysicalProcessors)).map
        (fun a => TaskRec.make (.downloadBlocks a.1 a.2.1 a.2.2) c.epoch) ∧
    (getBlocks cfg c sm).epoch = c.epoch ∧
    (getBlocks cfg c sm).queue = c.queue ++ (List.range' c.procs.length
      (getBlocksTaskArgs sm.ht c.storage.headers.length (dlConcurrency cfg.nPhysicalProcessors)).length).map
        Msg.start ∧
    ((getBlocks cfg c sm).fatal = false ↔ c.fatal = false ∧ 0 ≤ sm.ht ∧
      0 < getBlocksNum sm.ht c.storage.headers.length ∧
      ∀ a ∈ getBlocksTaskArgs sm.ht c.storage.headers.length (dlConcurrency cfg.nPhysicalProcessors),
        a.1 ≤ a.2.1 ∧ 0 < a.2.2) := by
  simp only [getBlocks]
  refine ⟨by simp [foldl_addDLHeaderTask], by simp [foldl_addDLHeaderTask, hsm],
    by simp [foldl_addDLHeaderTask], by simp [foldl_addDLHeaderTask],
    by simp [foldl_addDLHeaderTask], by simp [foldl_addDLHeaderTask, and_assoc]⟩

/-- `GetBlocks` registers its tasks under the next indices. -/
theorem getBlocks_tasks (c : Controller V) (sm : StateMachine) :
    (getBlocks cfg c sm).tasks = c.tasks ++ List.range' c.procs.length
      (getBlocksTaskArgs sm.ht c.storage.headers.length (dlConcurrency cfg.nPhysicalProcessors)).length := by
  simp only [getBlocks]
  simp [foldl_addDLHeaderTask]

/-- `callOnTimerSoonNoRepeat(polltimeout, pollTimerName, …)` at the end of `process`. -/
def enablePollTimer (c : Controller V) (polltimeout : Nat) : Controller V :=
  { c with pollTimer := some polltimeout }

/-- `Controller::process(beSilentIfUpToDate)`. -/
def process (beSilentIfUpToDate : Bool) (c : Controller V) : Controller V :=
  let sm := c.sm.getD .init
  let c := { c with pollTimer := none, sm := some sm
                    epoch := if c.sm.isNone then c.epoch + 1 else c.epoch }
  match sm.state with
  | .begin => c.newTask (.getChainInfo beSilentIfUpToDate)
  | .getBlocks => getBlocks cfg c sm
  | .downloadingBlocks => processDownloadingBlocks cfg c
  | .finishedDL =>
    let c := { c with sm := none }.again
    { c with storage := { c.storage with saves := c.storage.saves + 1 } }
  | .failure =>
    enablePollTimer { c with sm := none, signals := c.signals ++ [.synchFailure] } cfg.polltimeMs
  | .«end» => enablePollTimer { c with sm := none } cfg.polltimeMs
  | .ibd => enablePollTimer { c with sm := none, signals := c.signals ++ [.synchFailure] } 60000

/-- `process` on a machine in `GetBlocks` stops the poll timer and runs `GetBlocks`. -/
theorem process_getBlocks {c : Controller V} {sm : StateMachine} (hsm : c.sm = some sm)
    (hs : sm.state = .getBlocks) (b : Bool) :
    process cfg b c = getBlocks cfg { c with pollTimer := none } sm := by
  obtain ⟨⟩ := c
  subst hsm
  simp only [process, Option.getD_some, Option.isNone_some, hs]
  rfl

/-! ## Handlers of the tasks' signals -/

/-- `putBlock(task, p)`'s posted lambda. -/
def onPutBlock (c : Controller V) (task : Nat) (p : PreProcessedBlock) : Controller V :=
  match c.sm with
  | none => c
  | some sm =>
    if c.isTaskDeleted task ∨ sm.state = .failure then c
    else if sm.state ≠ .downloadingBlocks then c
    else { c with sm := some { sm with ppBlocks := sm.ppBlocks.insert p.height p } }.again

/-- The `success` handler of a download task (`add_DLHeaderTask`). -/
def onDownloadSuccess (c : Controller V) (task : Nat) (t : TaskRec) : Controller V :=
  match c.sm with
  | none => c
  | some sm =>
    if c.isTaskDeleted task then c
    else { c with sm := some { sm with nTx := sm.nTx + t.nTx, nIns := sm.nIns + t.nIns,
                                       nOuts := sm.nOuts + t.nOuts } }

/-- The `errored` handler of a download task (`add_DLHeaderTask`). -/
def onDownloadErrored (c : Controller V) (task : Nat) : Controller V :=
  match c.sm with
  | none => c
  | some sm =>
    if c.isTaskDeleted task then c
    else if sm.state = .failure then c
    else c.genericTaskErrored

/-- The end of the `success` handler of a `GetChainInfoTask`, once the chain is settled:
compare the stored height `old` with bitcoind's, and go to `End`, `Fatal()` or
`GetBlocks`. -/
def onChainInfoHeight (c : Controller V) (info : ChainInfo) (beSilentIfUpToDate : Bool) :
    Controller V :=
  let old := asInt (asInt c.storage.headers.length - 1)
  let c := c.modifySm ({ · with ht := info.blocks })
  if old = info.blocks then
    let c := if beSilentIfUpToDate then c else { c with signals := c.signals ++ [.upToDate] }
    (c.setState State.«end»).again
  else if info.blocks < old then c.halt
  else (setState { c with signals := c.signals ++ [Signal.synchronizing] } .getBlocks).again

/-- The `success` handler `process` connects to a `GetChainInfoTask` in `Begin`. -/
def onChainInfoSuccess (c : Controller V) (task : Nat) (info : ChainInfo)
    (beSilentIfUpToDate : Bool) : Controller V :=
  match c.sm with
  | none => c
  | some _ =>
    if c.isTaskDeleted task then c
    else if info.initialBlockDownload then (c.setState .ibd).again
    else
      let dbchain := c.storage.chain
      if dbchain = "" ∧ info.chain ≠ "" ∨ dbchain = info.chain then
        let c := if dbchain = "" ∧ info.chain ≠ "" then
          { c with storage := { c.storage with chain := info.chain } } else c
        c.onChainInfoHeight info beSilentIfUpToDate
      else c.halt

/-- What the controller's thread does with a message. -/
def handle (c : Controller V) : Msg → Controller V
  | .process b => process cfg b c
  | .start task => if c.isTaskDeleted task then c else c.modifyProc task ({ · with started := true })
  | .putBlock task p => c.onPutBlock task p
  | .success task =>
    match c.procs[task]? with
    | some t =>
      match t.kind with
      | .downloadBlocks .. => c.onDownloadSuccess task t
      | .getChainInfo b => c.onChainInfoSuccess task t.info b
    | none => c
  | .errored task =>
    match c.procs[task]? with
    | some t =>
      match t.kind with
      | .downloadBlocks .. => c.onDownloadErrored task
      | .getChainInfo _ => c.genericTaskErrored
    | none => c
  | .progress _ => c
  | .stop task =>
    match c.procs[task]? with
    | some t =>
      if t.stopped then c
      else { c.modifyProc task ({ · with stopped := true }) with queue := c.queue ++ [.finished task] }
    | none => c
  | .finished task => c.rmTask task

section

variable {c : Controller V} {task : Nat} {p : PreProcessedBlock} {t : TaskRec} {info : ChainInfo}
  {b : Bool}

/-! Only `process` and the chain-info handler touch the storage, and the latter only the
chain name; of the tasks' handlers, only the chain-info one raises `Fatal()`. -/

@[simp] theorem genericTaskErrored_storage : c.genericTaskErrored.storage = c.storage := by
  unfold genericTaskErrored; split <;> (try split) <;> rfl

@[simp] theorem onPutBlock_storage : (c.onPutBlock task p).storage = c.storage := by
  unfold onPutBlock; split <;> (try split_ifs) <;> rfl

@[simp] theorem onDownloadSuccess_storage : (c.onDownloadSuccess task t).storage = c.storage := by
  unfold onDownloadSuccess; split <;> (try split) <;> rfl

@[simp] theorem onDownloadErrored_storage : (c.onDownloadErrored task).storage = c.storage := by
  unfold onDownloadErrored; split <;> (try split_ifs) <;> simp

@[simp] theorem onChainInfoHeight_storage : (c.onChainInfoHeight info b).storage = c.storage := by
  simp only [onChainInfoHeight, apply_ite Controller.storage, again_storage, setState_storage,
    halt_storage, modifySm_storage, ite_self]

@[simp] theorem genericTaskErrored_fatal : c.genericTaskErrored.fatal = c.fatal := by
  unfold genericTaskErrored; split <;> (try split) <;> rfl

@[simp] theorem onPutBlock_fatal : (c.onPutBlock task p).fatal = c.fatal := by
  unfold onPutBlock; split <;> (try split_ifs) <;> rfl

@[simp] theorem onDownloadSuccess_fatal : (c.onDownloadSuccess task t).fatal = c.fatal := by
  unfold onDownloadSuccess; split <;> (try split) <;> rfl

@[simp] theorem onDownloadErrored_fatal : (c.onDownloadErrored task).fatal = c.fatal := by
  unfold onDownloadErrored; split <;> (try split_ifs) <;> simp

theorem onChainInfoSuccess_storage :
    (c.onChainInfoSuccess task info b).storage = c.storage ∨
    (c.onChainInfoSuccess task info b).storage = { c.storage with chain := info.chain } := by
  unfold onChainInfoSuccess
  dsimp only
  split
  · exact .inl rfl
  · split_ifs <;> simp

end

end Controller

end Fulcrum
