import Fulcrum.Controller.Stale

/-!
# Fulcrum.Controller.Reassembly

The order in which `process_DownloadingBlocks` meets the blocks of a round.  The heights a
round downloads are `[startheight, endHeight]`, split between the round's download tasks
by `GetBlocks`; from there each height moves, one step at a time, from a task's pending
list to a posted `putBlock`, to `ppBlocks`, to the stored headers.  `tokens` are the
heights of the round not yet stored, wherever they are.  They only move or drop out, so
they stay distinct and within `[ppBlkHtNext, endHeight]`: a key of `ppBlocks` is never a
height already taken out, and the block for `ppBlkHtNext` is always the front.

This holds when the controller handles no stale callback (`noStale`):
`ppBlocks_keys_in_window`.  It fails otherwise: in `stale_reply_stalls_download` a second
chain-info reply, handled while downloading, starts a second `GetBlocks` whose task hands
over a height the first task's block already filled, and the drain loop stops behind it
for good.
-/

namespace Fulcrum

/-- What the round's heights read of a task: under which state machine it was made, and
what it still holds. -/
def TaskRec.shape (t : TaskRec) : Nat × List Nat := (t.epoch, t.pending)

namespace Controller

variable {V : Type} {cfg : Config V}

/-! ## The heights of the current round -/

/-- The height a message brings to the current round: a block from a task made under the
current state machine. -/
def heightOf (c : Controller V) : Msg → Option Nat
  | .putBlock t p => if (c.procs[t]?.map (·.epoch)) = some c.epoch then some p.height else none
  | _ => none

/-- The heights the current round's tasks have posted to the controller. -/
def posted (c : Controller V) : List Nat := c.queue.filterMap (heightOf c)

/-- The heights the current round's tasks still hold. -/
def held (c : Controller V) : List Nat :=
  c.procs.flatMap fun t => if t.epoch = c.epoch then t.pending else []

/-- The heights of the current round on their way to `ppBlocks`. -/
def inFlight (c : Controller V) : List Nat := posted c ++ held c

/-- The heights of the current round not yet stored: buffered in `ppBlocks`, posted, or
held by a task. -/
def tokens (c : Controller V) (sm : StateMachine) : List Nat := sm.ppBlocks.keys ++ inFlight c

/-- Each height once, and all of them in `[ppBlkHtNext, endHeight]`. -/
def InWindow (sm : StateMachine) (l : List Nat) : Prop :=
  l.Nodup ∧ ∀ x ∈ l, sm.ppBlkHtNext ≤ x ∧ x ≤ sm.endHeight

/-- What a round's heights satisfy in each state: there are none before `GetBlocks` has
run, and all of them are in the window while downloading. -/
structure RoundOk (c : Controller V) (sm : StateMachine) : Prop where
  quiet : sm.state = .begin ∨ sm.state = .getBlocks → tokens c sm = []
  window : sm.state = .downloadingBlocks → InWindow sm (tokens c sm)

/-- `sm'` asks no more of the round's heights than `sm` did: the same keys, no heights
unless `sm` had none, and the window only where `sm` had the same one. -/
structure Follows (sm sm' : StateMachine) : Prop where
  keys_eq : sm'.ppBlocks.keys = sm.ppBlocks.keys
  quiet : sm'.state = .begin ∨ sm'.state = .getBlocks → sm.state = .begin ∨ sm.state = .getBlocks
  window : sm'.state = .downloadingBlocks → sm.state = .downloadingBlocks ∧
    sm'.ppBlkHtNext = sm.ppBlkHtNext ∧ sm'.endHeight = sm.endHeight

/-- What holds in every run without stale callbacks, until a `Fatal()`. -/
structure ReassemblyInv (c : Controller V) : Prop where
  epoch_le : ∀ t ∈ c.procs, t.epoch ≤ c.epoch
  msgs_task_lt : ∀ t p, Msg.putBlock t p ∈ c.queue → t < c.procs.length
  round_ok : c.fatal = false → ∀ sm, c.sm = some sm → RoundOk c sm

/-- A list of messages with no block among them. -/
def NoBlock (l : List Msg) : Prop := ∀ m ∈ l, ∀ t p, m ≠ .putBlock t p

section

variable {c c' : Controller V} {sm sm' : StateMachine}

theorem Follows.refl (sm : StateMachine) : Follows sm sm := ⟨rfl, id, fun h => ⟨h, rfl, rfl⟩⟩

/-- Leaving for a state past downloading. -/
theorem Follows.past {s : State} (hs : s ≠ .begin ∧ s ≠ .getBlocks ∧ s ≠ .downloadingBlocks)
    (h : sm'.ppBlocks.keys = sm.ppBlocks.keys) (hs' : sm'.state = s) : Follows sm sm' :=
  ⟨h, fun h' => (h'.elim (hs.1 ∘ hs'.symm.trans) (hs.2.1 ∘ hs'.symm.trans)).elim,
    fun h' => (hs.2.2 (hs'.symm.trans h')).elim⟩

/-- From `Begin`, anywhere but `DownloadingBlocks`. -/
theorem Follows.of_begin (hs : sm.state = .begin) (h : sm'.ppBlocks.keys = sm.ppBlocks.keys)
    (hs' : sm'.state ≠ .downloadingBlocks) : Follows sm sm' :=
  ⟨h, fun _ => .inl hs, fun h' => (hs' h').elim⟩

/-- Heights that did not change keep what the state asks of them. -/
theorem RoundOk.follows (h : RoundOk c sm) (hf : Follows sm sm') (hr : inFlight c' = inFlight c) :
    RoundOk c' sm' := by
  have ht : tokens c' sm' = tokens c sm := by rw [tokens, tokens, hf.keys_eq, hr]
  refine ⟨fun h' => ht ▸ h.quiet (hf.quiet h'), fun h' => ?_⟩
  obtain ⟨hs, hn, he⟩ := hf.window h'
  rw [ht, InWindow, hn, he]
  exact h.window hs

/-- Heights that only dropped out keep what the state asks of them. -/
theorem RoundOk.of_subperm (h : RoundOk c sm) (hr : (inFlight c').Subperm (inFlight c)) :
    RoundOk c' sm := by
  have ht : (tokens c' sm).Subperm (tokens c sm) := (List.subperm_append_left _).2 hr
  refine ⟨fun h' => List.subperm_nil.1 (h.quiet h' ▸ ht), fun h' => ?_⟩
  obtain ⟨hnd, hb⟩ := h.window h'
  obtain ⟨l, hp, hs⟩ := ht
  exact ⟨hp.nodup_iff.1 (hnd.sublist hs), fun x hx => hb x (hs.subset (hp.symm.subset hx))⟩

/-- While downloading, the window is all a state asks. -/
theorem RoundOk.of_window (hs : sm.state = .downloadingBlocks) (hw : InWindow sm (tokens c sm)) :
    RoundOk c sm :=
  ⟨(fun h => by rcases h with h | h <;> rw [hs] at h <;> cases h), fun _ => hw⟩

/-- A state past downloading asks nothing. -/
theorem RoundOk.of_past (hs : sm.state ≠ .begin ∧ sm.state ≠ .getBlocks ∧
    sm.state ≠ .downloadingBlocks) : RoundOk c sm :=
  ⟨fun h => (h.elim hs.1 hs.2.1).elim, fun h => (hs.2.2 h).elim⟩

/-- `heightOf` reads only the tasks' epochs and the current epoch. -/
theorem heightOf_congr (hp : c'.procs.map (·.epoch) = c.procs.map (·.epoch))
    (he : c'.epoch = c.epoch) : heightOf c' = heightOf c := by
  funext m
  cases m with
  | putBlock t p =>
    have : c'.procs[t]?.map (·.epoch) = c.procs[t]?.map (·.epoch) := by
      rw [← List.getElem?_map, ← List.getElem?_map, hp]
    simp only [heightOf, this, he]
  | _ => rfl

/-- `held` reads only the tasks' shapes and the current epoch. -/
theorem held_congr (hp : c'.procs.map TaskRec.shape = c.procs.map TaskRec.shape)
    (he : c'.epoch = c.epoch) : held c' = held c := by
  have : ∀ d : Controller V, held d =
      (d.procs.map TaskRec.shape).flatMap fun s => if s.1 = d.epoch then s.2 else [] := fun d => by
    rw [held, List.flatMap_map]; rfl
  rw [this, this, hp, he]

theorem filterMap_heightOf_noBlock {l : List Msg} (hl : NoBlock l) : l.filterMap (heightOf c) = [] :=
  List.filterMap_eq_nil_iff.2 fun m hm => by
    cases m with
    | putBlock t p => exact absurd rfl (hl _ hm t p)
    | _ => rfl

/-- A step that keeps the tasks' shapes and the epoch, and posts no block, keeps the
heights in flight. -/
theorem inFlight_frame (hp : c'.procs.map TaskRec.shape = c.procs.map TaskRec.shape)
    (he : c'.epoch = c.epoch) (hq : ∃ l, c'.queue = c.queue ++ l ∧ NoBlock l) :
    inFlight c' = inFlight c := by
  have hep : c'.procs.map (·.epoch) = c.procs.map (·.epoch) := by
    simpa [List.map_map, Function.comp_def, TaskRec.shape] using congrArg (List.map Prod.fst) hp
  obtain ⟨l, hq, hl⟩ := hq
  simp only [inFlight, posted, held_congr hp he, heightOf_congr hep he, hq, List.filterMap_append,
    filterMap_heightOf_noBlock hl, List.append_nil]

theorem Follows.trans {sm'' : StateMachine} (h : Follows sm sm') (h' : Follows sm' sm'') :
    Follows sm sm'' :=
  ⟨h'.keys_eq.trans h.keys_eq, h.quiet ∘ h'.quiet, fun hs => by
    obtain ⟨hs', hn', he'⟩ := h'.window hs
    obtain ⟨hs, hn, he⟩ := h.window hs'
    exact ⟨hs, hn'.trans hn, he'.trans he⟩⟩

/-! ## Steps that leave the round alone -/

/-- A step that keeps the tasks' shapes and the epoch, posts no block, and whose state
machine, until a `Fatal()`, follows the old one. -/
structure RoundFrame (c c' : Controller V) : Prop where
  shape_eq : c'.procs.map TaskRec.shape = c.procs.map TaskRec.shape
  epoch_eq : c'.epoch = c.epoch
  queue_eq : ∃ l, c'.queue = c.queue ++ l ∧ NoBlock l
  follows : c'.fatal = false → c.fatal = false ∧
    ∀ sm', c'.sm = some sm' → ∃ sm, c.sm = some sm ∧ Follows sm sm'

theorem RoundFrame.refl (c : Controller V) : RoundFrame c c :=
  ⟨rfl, rfl, ⟨[], by simp, by simp [NoBlock]⟩, fun hf => ⟨hf, fun sm h => ⟨sm, h, .refl sm⟩⟩⟩

theorem RoundFrame.trans {c'' : Controller V} (h : RoundFrame c c') (h' : RoundFrame c' c'') :
    RoundFrame c c'' where
  shape_eq := h'.shape_eq.trans h.shape_eq
  epoch_eq := h'.epoch_eq.trans h.epoch_eq
  queue_eq := by
    obtain ⟨l, hq, hl⟩ := h.queue_eq
    obtain ⟨l', hq', hl'⟩ := h'.queue_eq
    exact ⟨l ++ l', by rw [hq', hq, List.append_assoc],
      fun m hm => (List.mem_append.1 hm).elim (hl m) (hl' m)⟩
  follows := fun hf => by
    obtain ⟨hf', h2⟩ := h'.follows hf
    obtain ⟨hf, h1⟩ := h.follows hf'
    refine ⟨hf, fun sm'' hsm'' => ?_⟩
    obtain ⟨sm', hsm', hfo'⟩ := h2 sm'' hsm''
    obtain ⟨sm, hsm, hfo⟩ := h1 sm' hsm'
    exact ⟨sm, hsm, hfo.trans hfo'⟩

/-- A change to the state machine and `fatal` only, after which the state machine
follows. -/
theorem RoundFrame.of_sm (hp : c'.procs = c.procs) (he : c'.epoch = c.epoch)
    (hq : c'.queue = c.queue) (hsm : c'.fatal = false → c.fatal = false ∧
      ∀ sm', c'.sm = some sm' → ∃ sm, c.sm = some sm ∧ Follows sm sm') : RoundFrame c c' :=
  ⟨by rw [hp], he, ⟨[], by simp [hq], by simp [NoBlock]⟩, hsm⟩

/-- A change to what the round does not read. -/
theorem RoundFrame.congr (hp : c'.procs = c.procs) (he : c'.epoch = c.epoch)
    (hq : c'.queue = c.queue) (hs : c'.sm = c.sm) (hf : c'.fatal = c.fatal) : RoundFrame c c' :=
  .of_sm hp he hq fun h => ⟨hf ▸ h, fun sm h' => ⟨sm, hs ▸ h', .refl sm⟩⟩

/-- A `Fatal()` after changes to the state machine only. -/
theorem RoundFrame.halt_of (hp : c'.procs = c.procs) (he : c'.epoch = c.epoch)
    (hq : c'.queue = c.queue) (hf : c'.fatal = true) : RoundFrame c c' :=
  .of_sm hp he hq fun h => by simp [hf] at h

theorem RoundFrame.post {m : Msg} (hm : ∀ t p, m ≠ .putBlock t p) : RoundFrame c (c.post m) :=
  ⟨rfl, rfl, ⟨[m], rfl, fun _ h => List.mem_singleton.1 h ▸ hm⟩,
    fun hf => ⟨hf, fun sm h => ⟨sm, h, .refl sm⟩⟩⟩

theorem RoundFrame.again (c : Controller V) : RoundFrame c c.again :=
  .post (m := .process false) fun _ _ h => by cases h

/-- Changing a task's flags, counters or reply. -/
theorem RoundFrame.modifyProc {k : Nat} {g : TaskRec → TaskRec} (hg : ∀ t, (g t).shape = t.shape) :
    RoundFrame c (c.modifyProc k g) :=
  ⟨map_modify_of_comp hg _ _, rfl, ⟨[], by simp, by simp [NoBlock]⟩,
    fun hf => ⟨hf, fun sm h => ⟨sm, h, .refl sm⟩⟩⟩

/-- Leaving for a state past downloading. -/
theorem RoundFrame.setState {s : State} (hs : s ≠ .begin ∧ s ≠ .getBlocks ∧ s ≠ .downloadingBlocks) :
    RoundFrame c (c.setState s) :=
  .of_sm rfl rfl rfl fun hf => ⟨hf, fun sm' h => by
    obtain ⟨sm, hsm, rfl⟩ := Option.map_eq_some'.1 h
    exact ⟨sm, hsm, .past hs rfl rfl⟩⟩

theorem RoundFrame.genericTaskErrored (c : Controller V) : RoundFrame c c.genericTaskErrored := by
  unfold Controller.genericTaskErrored
  split
  · split
    · exact (RoundFrame.setState (by decide)).trans (.again _)
    · exact .refl c
  · exact .refl c

/-- Dropping the state machine. -/
theorem RoundFrame.reset (hp : c'.procs = c.procs) (he : c'.epoch = c.epoch)
    (hq : ∃ l, c'.queue = c.queue ++ l ∧ NoBlock l) (hsm : c'.sm = none)
    (hf : c'.fatal = c.fatal) : RoundFrame c c' :=
  ⟨by rw [hp], he, hq, fun h => ⟨hf ▸ h, fun _ h' => by rw [hsm] at h'; cases h'⟩⟩

/-- A step that leaves the round alone keeps `ReassemblyInv`. -/
theorem ReassemblyInv.of_frame (hi : ReassemblyInv c) (h : RoundFrame c c') :
    ReassemblyInv c' where
  epoch_le := fun t ht => by
    obtain ⟨t0, ht0, hs⟩ := List.mem_map.1 (h.shape_eq ▸ List.mem_map_of_mem TaskRec.shape ht)
    have : t0.epoch = t.epoch := congrArg Prod.fst hs
    rw [h.epoch_eq, ← this]
    exact hi.epoch_le t0 ht0
  msgs_task_lt := fun t p hm => by
    obtain ⟨l, hq, hl⟩ := h.queue_eq
    have hlen : c'.procs.length = c.procs.length := by simpa using congrArg List.length h.shape_eq
    rw [hq] at hm
    rcases List.mem_append.1 hm with hm | hm
    · exact hlen ▸ hi.msgs_task_lt t p hm
    · exact absurd rfl (hl _ hm t p)
  round_ok := fun hf sm' hsm' => by
    obtain ⟨hf0, hs⟩ := h.follows hf
    obtain ⟨sm, hsm, hfol⟩ := hs sm' hsm'
    exact (hi.round_ok hf0 sm hsm).follows hfol (inFlight_frame h.shape_eq h.epoch_eq h.queue_eq)

/-! ## Steps that move a height -/

theorem InWindow.perm {l l' : List Nat} (h : InWindow sm l) (hp : l'.Perm l) : InWindow sm l' :=
  ⟨hp.nodup_iff.2 h.1, fun x hx => h.2 x (hp.subset hx)⟩

/-- Taking the `i`-th message off the queue takes its height, if it brings one, out of
flight. -/
theorem inFlight_dequeue {i : Nat} {m : Msg} (hm : c.queue[i]? = some m) :
    (inFlight c).Perm ((heightOf c m).toList ++ inFlight (c.dequeue i)) := by
  obtain ⟨hlt, rfl⟩ := List.getElem?_eq_some_iff.1 hm
  have hq : c.queue = c.queue.take i ++ c.queue[i] :: c.queue.drop (i + 1) := by
    rw [← List.drop_eq_getElem_cons hlt, List.take_append_drop]
  have hd : (c.dequeue i).queue = c.queue.take i ++ c.queue.drop (i + 1) :=
    List.eraseIdx_eq_take_drop_succ _ _
  have hh : heightOf (c.dequeue i) = heightOf c := rfl
  rw [inFlight, inFlight, posted, posted, hh, hd, show held (c.dequeue i) = held c from rfl]
  conv_lhs => rw [hq]
  rw [List.filterMap_append, List.filterMap_cons]
  cases heightOf c c.queue[i] with
  | none => simp [List.filterMap_append]
  | some x =>
    simp only [Option.toList_some, List.singleton_append, List.filterMap_append, List.cons_append]
    exact List.perm_middle.append_right _

theorem ReassemblyInv.dequeue (hi : ReassemblyInv c) (i : Nat) : ReassemblyInv (c.dequeue i) where
  epoch_le := hi.epoch_le
  msgs_task_lt := fun t p hm => hi.msgs_task_lt t p (List.mem_of_mem_eraseIdx hm)
  round_ok := fun hf sm hsm => (hi.round_ok hf sm hsm).of_subperm
    (((List.eraseIdx_sublist _ _).filterMap _).append_right _).subperm

/-- Changing the `k`-th entry `t` of a list moves `x` out of what `F` collects. -/
theorem flatMap_modify_perm {α β : Type} (F : α → List β) (g : α → α) (x : List β) :
    ∀ (l : List α) (k : Nat) (t : α), l[k]? = some t → (F t).Perm (x ++ F (g t)) →
      (l.flatMap F).Perm (x ++ (l.modify g k).flatMap F)
  | [], _, _, h, _ => by simp at h
  | a :: l, 0, t, h, hp => by
    obtain rfl : a = t := by simpa using h
    simpa [← List.append_assoc] using hp.append_right (l.flatMap F)
  | a :: l, k + 1, t, h, hp => by
    simp only [List.flatMap_cons, List.modify_succ_cons]
    refine ((flatMap_modify_perm F g x l k t (by simpa using h) hp).append_left (F a)).trans ?_
    rw [← List.append_assoc, ← List.append_assoc]
    exact List.perm_append_comm.append_right _

/-- A task hands a block over: its height moves from the task to a posted `putBlock` when
the task belongs to the current round, and is not counted otherwise. -/
theorem inFlight_deliver_perm {task : Nat} {t : TaskRec} {ppb : PreProcessedBlock}
    (ht : c.procs[task]? = some t) (hh : ppb.height ∈ t.pending) :
    (inFlight c).Perm
      (inFlight ((c.modifyProc task (TaskRec.handOver · ppb)).post (.putBlock task ppb))) := by
  set c' := (c.modifyProc task (TaskRec.handOver · ppb)).post (.putBlock task ppb)
  have hep : c'.procs.map (·.epoch) = c.procs.map (·.epoch) :=
    map_modify_of_comp (f := TaskRec.epoch) (g := (TaskRec.handOver · ppb)) (fun _ => rfl) c.procs task
  let F : TaskRec → List Nat := fun t => if t.epoch = c.epoch then t.pending else []
  have hposted : posted c' = posted c ++ (heightOf c (.putBlock task ppb)).toList := by
    simp only [posted, heightOf_congr hep rfl, c', post_queue, modifyProc_queue,
      List.filterMap_append, List.filterMap_cons, List.filterMap_nil]
    cases heightOf c (.putBlock task ppb) <;> rfl
  have hF : (F t).Perm ((heightOf c (.putBlock task ppb)).toList ++ F (t.handOver ppb)) := by
    simp only [F, heightOf, ht, Option.map_some', Option.some.injEq, TaskRec.handOver]
    split
    · exact List.perm_cons_erase hh
    · simp
  have hheld : (held c).Perm ((heightOf c (.putBlock task ppb)).toList ++ held c') :=
    flatMap_modify_perm F (TaskRec.handOver · ppb) _ c.procs task t ht hF
  rw [inFlight, inFlight, hposted, List.append_assoc]
  exact hheld.append_left _

theorem ReassemblyInv.deliver (hi : ReassemblyInv c) {task : Nat} {t : TaskRec}
    {ppb : PreProcessedBlock} (ht : c.procs[task]? = some t) (hh : ppb.height ∈ t.pending) :
    ReassemblyInv ((c.modifyProc task (TaskRec.handOver · ppb)).post (.putBlock task ppb)) := by
  set c' := (c.modifyProc task (TaskRec.handOver · ppb)).post (.putBlock task ppb)
  have hep : c'.procs.map (·.epoch) = c.procs.map (·.epoch) :=
    map_modify_of_comp (f := TaskRec.epoch) (g := (TaskRec.handOver · ppb)) (fun _ => rfl) c.procs task
  have hlen : c'.procs.length = c.procs.length := by simpa using congrArg List.length hep
  refine ⟨fun t' ht' => ?_, fun t' p hm => ?_, fun hf sm hsm =>
    (hi.round_ok hf sm hsm).of_subperm (inFlight_deliver_perm ht hh).symm.subperm⟩
  · obtain ⟨t0, ht0, hs⟩ := List.mem_map.1 (hep ▸ List.mem_map_of_mem TaskRec.epoch ht')
    exact hs ▸ hi.epoch_le t0 ht0
  · rcases List.mem_append.1 hm with hm | hm
    · exact hlen ▸ hi.msgs_task_lt t' p hm
    · cases List.mem_singleton.1 hm
      exact hlen ▸ (List.getElem?_eq_some_iff.1 ht).1

/-- `ppBlocks[p->height] = p` in `DownloadingBlocks`: the height moves from flight into
`ppBlocks`, where it was not yet. -/
theorem ReassemblyInv.onPutBlock (hi : ReassemblyInv c) {task : Nat} {p : PreProcessedBlock}
    (hw : c.fatal = false → ∀ sm, c.sm = some sm → sm.state = .downloadingBlocks →
      InWindow sm (p.height :: tokens c sm)) :
    ReassemblyInv (c.onPutBlock task p) := by
  unfold Controller.onPutBlock
  split
  · exact hi
  · rename_i sm hsm
    split
    · exact hi
    · split
      · exact hi
      · rename_i hs
        have hins : ReassemblyInv
            { c with sm := some { sm with ppBlocks := sm.ppBlocks.insert p.height p } } := by
          refine ⟨hi.epoch_le, hi.msgs_task_lt, fun hf _ h => ?_⟩
          cases h
          have hdl : sm.state = .downloadingBlocks := by simpa using hs
          have h := hw hf sm hsm hdl
          have hnew : p.height ∉ sm.ppBlocks.keys := fun hk =>
            (List.nodup_cons.1 h.1).1 (List.mem_append_left _ hk)
          refine ⟨fun h' => by rcases h' with h' | h' <;> simp [hdl] at h', fun _ => h.perm ?_⟩
          exact (HeightMap.keys_insert_perm hnew).append_right _
        exact hins.of_frame (.again _)

/-! ## The drain loop -/

/-- Taking the front entry, keyed `ppBlkHtNext`, out of `ppBlocks` leaves the other heights
in the window that starts one higher. -/
theorem InWindow.popFront {rest : List Nat} {e : Nat × PreProcessedBlock}
    (h : InWindow sm (sm.ppBlocks.keys ++ rest)) (hf : sm.ppBlocks.front? = some e)
    (hk : e.1 = sm.ppBlkHtNext) :
    InWindow { sm with ppBlkHtNext := asUnsigned ((sm.ppBlkHtNext : Int) + 1)
                       ppBlocks := sm.ppBlocks.eraseFront } (sm.ppBlocks.eraseFront.keys ++ rest) := by
  rw [HeightMap.keys_eraseFront_of_front hf, List.cons_append] at h
  obtain ⟨hnd, hb⟩ := h
  obtain ⟨hnot, hnd'⟩ := List.nodup_cons.1 hnd
  refine ⟨hnd', fun x hx => ⟨?_, (hb x (List.mem_cons_of_mem _ hx)).2⟩⟩
  have hne : x ≠ e.1 := fun h => hnot (h ▸ hx)
  have := (hb x (List.mem_cons_of_mem _ hx)).1
  dsimp only
  simp only [asUnsigned]
  omega

/-- The loop keeps what each of its rounds keeps of the state machine: each round takes
`ppBlkHtNext` out and moves past it; a rejected block ends in `Failure`. -/
theorem drain_preserves (P : StateMachine → Prop)
    (hP : ∀ sm ppb, P sm → sm.state = .downloadingBlocks →
      sm.ppBlocks.front? = some (sm.ppBlkHtNext, ppb) →
      P { sm with ppBlkHtNext := asUnsigned ((sm.ppBlkHtNext : Int) + 1)
                  ppBlocks := sm.ppBlocks.eraseFront })
    (fuel : Nat) : ∀ c : Controller V,
    (∀ sm, c.sm = some sm → sm.state = .downloadingBlocks ∧ P sm) →
    ∀ sm, (drain cfg fuel c).1.sm = some sm →
      (sm.state = .downloadingBlocks ∧ P sm) ∨ sm.state = .failure := by
  induction fuel with
  | zero => exact fun c h sm hsm => .inl (h sm hsm)
  | succ fuel ih =>
    intro c h
    by_cases hround : ∃ sm k ppb, c.sm = some sm ∧ sm.ppBlocks.front? = some (k, ppb) ∧
        k = sm.ppBlkHtNext
    · obtain ⟨sm, k, ppb, hsm, hf, rfl⟩ := hround
      rw [drain_succ_of_front cfg hsm hf rfl]
      obtain ⟨hs, hw⟩ := h sm hsm
      cases hv : (cfg.verifier.verify (c.popFront sm ppb).storage.verifier ppb.header).1
      · rw [verifyAndAddBlock_of_reject cfg hv]
        intro sm' h'
        simp only [again_sm, setState_sm, popFront_sm, Option.map_some', Option.some.injEq] at h'
        cases h'
        exact .inr rfl
      · obtain ⟨hok, -, -, -, -, hsm', -⟩ := verifyAndAddBlock_of_accept cfg hv
        simp only [hok, Bool.true_eq_false, if_false]
        exact ih _ fun sm' h' => by
          rw [hsm', popFront_sm] at h'
          cases h'
          exact ⟨hs, hP sm ppb hw hs hf⟩
    · rw [drain_succ_of_not_front cfg fun sm hsm k ppb hf hk => hround ⟨sm, k, ppb, hsm, hf, hk⟩]
      exact fun sm hsm => .inl (h sm hsm)

/-- `process_DownloadingBlocks` keeps `ReassemblyInv`. -/
theorem ReassemblyInv.processDownloadingBlocks (hi : ReassemblyInv c) (hsm : c.sm = some sm)
    (hs : sm.state = .downloadingBlocks) : ReassemblyInv (processDownloadingBlocks cfg c) := by
  obtain ⟨hp, -, he, ⟨l, hq, hl⟩, hf⟩ := drain_frame cfg (c.sm.elim 0 (·.ppBlocks.size)) c
  set r := drain cfg (c.sm.elim 0 (·.ppBlocks.size)) c
  have hnb : NoBlock l := fun m hm t p e => by rw [hl m hm] at e; cases e
  have hr : ReassemblyInv r.1 := by
    refine ⟨fun t ht => he ▸ hi.epoch_le t (hp ▸ ht), fun t p hm => ?_, fun hf' sm' hsm' => ?_⟩
    · rw [hq] at hm
      rcases List.mem_append.1 hm with hm | hm
      · exact hp ▸ hi.msgs_task_lt t p hm
      · exact absurd rfl (hnb _ hm t p)
    · have hw := (hi.round_ok (hf hf') sm hsm).window hs
      have hfl : inFlight r.1 = inFlight c := inFlight_frame (by rw [hp]) he ⟨l, hq, hnb⟩
      rcases drain_preserves (fun sm => InWindow sm (sm.ppBlocks.keys ++ inFlight c))
        (fun _ _ h _ hf => h.popFront hf rfl) _ c
        (fun sm'' h => by rw [hsm] at h; cases h; exact ⟨hs, hw⟩) sm' hsm' with ⟨hs', hw'⟩ | hs'
      · exact RoundOk.of_window hs' (by rw [tokens, hfl]; exact hw')
      · exact RoundOk.of_past (by rw [hs']; decide)
  unfold Controller.processDownloadingBlocks
  dsimp only
  split
  · exact hr
  · split
    · split
      · exact hr.of_frame ((RoundFrame.setState (by decide)).trans (.again _))
      · exact hr
    · exact hr

/-! ## `process` -/

/-- The heights in flight once tasks are added. -/
theorem posted_append_procs {new : List TaskRec}
    (hlt : ∀ t p, Msg.putBlock t p ∈ c.queue → t < c.procs.length)
    (hp : c'.procs = c.procs ++ new) (he : c'.epoch = c.epoch)
    (hq : ∃ l, c'.queue = c.queue ++ l ∧ NoBlock l) : posted c' = posted c := by
  obtain ⟨l, hq, hl⟩ := hq
  rw [posted, posted, hq, List.filterMap_append, filterMap_heightOf_noBlock hl, List.append_nil]
  refine List.filterMap_congr fun m hm => ?_
  cases m with
  | putBlock t p => simp only [heightOf, hp, he, List.getElem?_append_left (hlt t p hm)]
  | _ => rfl

theorem held_append_procs {new : List TaskRec} (hp : c'.procs = c.procs ++ new)
    (he : c'.epoch = c.epoch) :
    held c' = held c ++ new.flatMap fun t => if t.epoch = c.epoch then t.pending else [] := by
  rw [held, held, hp, he, List.flatMap_append]

/-- `newTask` of a task with nothing to hand over. -/
theorem ReassemblyInv.newTask {kind : TaskKind} (hi : ReassemblyInv c)
    (hk : (TaskRec.make kind c.epoch).pending = []) : ReassemblyInv (c.newTask kind) := by
  have hq : ∃ l, (c.newTask kind).queue = c.queue ++ l ∧ NoBlock l :=
    ⟨_, rfl, fun _ h _ _ e => by cases List.mem_singleton.1 h; cases e⟩
  have hfl : inFlight (c.newTask kind) = inFlight c := by
    have hp : (c.newTask kind).procs = c.procs ++ [TaskRec.make kind c.epoch] := rfl
    rw [inFlight, inFlight, posted_append_procs hi.msgs_task_lt hp rfl hq, held_append_procs hp rfl]
    simp [hk]
  refine ⟨fun t ht => ?_, fun t p hm => ?_, fun hf sm h => (hi.round_ok hf sm h).follows (.refl sm) hfl⟩
  · rcases List.mem_append.1 ht with ht | ht
    · exact hi.epoch_le t ht
    · cases List.mem_singleton.1 ht; exact le_refl _
  · rcases List.mem_append.1 hm with hm | hm
    · exact Nat.lt_of_lt_of_le (hi.msgs_task_lt t p hm) (by simp)
    · cases List.mem_singleton.1 hm

/-- The `GetBlocks` step: the round had no heights, and now has `[base, ht]`, split between
the new tasks, with `ppBlkHtNext = base ≤ ht = endHeight` and nothing buffered. -/
theorem tokens_getBlocks (hi : ReassemblyInv c) (hsm : c.sm = some sm) (hs : sm.state = .getBlocks)
    (hok : SmOk c.storage.headers.length c.fatal sm) (hf : (getBlocks cfg c sm).fatal = false)
    (hsm' : (getBlocks cfg c sm).sm = some sm') :
    sm'.state = .downloadingBlocks ∧ sm'.ppBlocks.keys = [] ∧ sm'.ppBlkHtNext ≤ sm'.endHeight ∧
      (tokens (getBlocks cfg c sm) sm').Perm
        (List.range' sm'.ppBlkHtNext (sm'.endHeight + 1 - sm'.ppBlkHtNext)) := by
  obtain ⟨-, e2, e3, e4, e5, e6⟩ := getBlocks_spec cfg c sm hsm
  set args := getBlocksTaskArgs sm.ht c.storage.headers.length (dlConcurrency cfg.nPhysicalProcessors)
  have hq : ∃ l, (Controller.getBlocks cfg c sm).queue = c.queue ++ l ∧ NoBlock l :=
    ⟨_, e5, fun m hm t p h => by
      obtain ⟨_, -, he⟩ := List.mem_map.1 hm
      rw [← he] at h
      cases h⟩
  rw [e2] at hsm'
  cases hsm'
  obtain ⟨hf0, -, -, hargs⟩ := e6.1 hf
  -- before `GetBlocks` the round has no heights
  obtain ⟨hkeys, hfl0⟩ := List.append_eq_nil.1 ((hi.round_ok hf0 sm hsm).quiet (.inr hs))
  obtain ⟨hp0, hh0⟩ := List.append_eq_nil.1 hfl0
  have hfl : inFlight (Controller.getBlocks cfg c sm) = args.flatMap progression := by
    rw [inFlight, posted_append_procs hi.msgs_task_lt e3 e4 hq, held_append_procs e3 e4, hp0, hh0,
      List.nil_append, List.nil_append, List.flatMap_map]
    refine List.flatMap_congr fun a ha => ?_
    simp only [TaskRec.make, if_true, if_pos (hargs a ha)]
  obtain ⟨-, -, hbase, hend, -, hperm, -⟩ := getBlocks_partition (hok.ht_ge hf0 hs) hok.ht_lt
    (dlConcurrency_pos _) (dlConcurrency_lt _) hargs
  refine ⟨rfl, hkeys, ?_, ?_⟩
  · dsimp only
    have := hok.ht_ge hf0 hs
    rw [hbase, hend]
    omega
  rw [tokens, hfl]
  show List.Perm (sm.ppBlocks.keys ++ _) _
  dsimp only
  rw [hkeys, List.nil_append, hbase, hend]
  exact hperm

theorem ReassemblyInv.getBlocks (hi : ReassemblyInv c) (hsm : c.sm = some sm)
    (hs : sm.state = .getBlocks) (hok : SmOk c.storage.headers.length c.fatal sm) :
    ReassemblyInv (getBlocks cfg c sm) := by
  obtain ⟨-, -, e3, e4, e5, -⟩ := getBlocks_spec cfg c sm hsm
  refine ⟨fun t ht => ?_, fun t p hm => ?_, fun hf sm' hsm' => ?_⟩
  · rw [e3] at ht
    rw [e4]
    rcases List.mem_append.1 ht with ht | ht
    · exact hi.epoch_le t ht
    · obtain ⟨a, -, rfl⟩ := List.mem_map.1 ht
      exact le_refl _
  · rw [e5] at hm
    rw [e3, List.length_append]
    rcases List.mem_append.1 hm with hm | hm
    · exact Nat.lt_of_lt_of_le (hi.msgs_task_lt t p hm) (Nat.le_add_right _ _)
    · obtain ⟨_, -, h⟩ := List.mem_map.1 hm
      cases h
  · obtain ⟨hdl, -, -, hperm⟩ := tokens_getBlocks hi hsm hs hok hf hsm'
    refine RoundOk.of_window hdl ⟨hperm.nodup_iff.2 (List.nodup_range' _ _), fun x hx => ?_⟩
    have := List.mem_range'_1.1 (hperm.subset hx)
    omega

/-- A new state machine: the epoch moves on, so nothing of an earlier round counts. -/
theorem ReassemblyInv.newRound (hi : ReassemblyInv c) :
    ReassemblyInv { c with pollTimer := none, sm := some .init, epoch := c.epoch + 1 } := by
  -- every task, and so every block posted, is of an earlier round
  have hm : ∀ m, heightOf { c with pollTimer := none, sm := some .init, epoch := c.epoch + 1 } m =
      none := by
    intro m
    cases m with
    | putBlock t p =>
      refine if_neg fun h => ?_
      obtain ⟨r, hr, he⟩ := Option.map_eq_some'.1 h
      have := hi.epoch_le r (List.getElem?_mem hr)
      simp only [Option.some.injEq] at he
      omega
    | _ => rfl
  have hfl : inFlight { c with pollTimer := none, sm := some .init, epoch := c.epoch + 1 } = [] :=
    List.append_eq_nil.2 ⟨List.filterMap_eq_nil_iff.2 fun m _ => hm m,
      List.flatMap_eq_nil_iff.2 fun t ht =>
        if_neg (show t.epoch ≠ c.epoch + 1 by have := hi.epoch_le t ht; omega)⟩
  refine ⟨fun t ht => Nat.le_succ_of_le (hi.epoch_le t ht), hi.msgs_task_lt, fun _ _ h => ?_⟩
  cases h
  exact ⟨fun _ => by rw [tokens, hfl]; rfl, fun h => by cases h⟩

/-- The start of `process()`: a state machine is made if there is none, and the epoch
moves on with it. -/
theorem ReassemblyInv.refresh (hi : ReassemblyInv c) :
    ReassemblyInv { c with pollTimer := none, sm := some (c.sm.getD .init)
                           epoch := if c.sm.isNone then c.epoch + 1 else c.epoch } := by
  cases h : c.sm with
  | none => exact hi.newRound
  | some sm =>
    refine hi.of_frame (.of_sm rfl (by simp) rfl fun hf => ⟨hf, fun _ h' => ?_⟩)
    cases h'
    exact ⟨sm, h, .refl sm⟩

/-- The state machine `process()` works on satisfies `SmOk`. -/
theorem smOk_getD (hok : ∀ sm, c.sm = some sm → SmOk c.storage.headers.length c.fatal sm) :
    SmOk c.storage.headers.length c.fatal (c.sm.getD .init) := by
  cases h : c.sm with
  | none => exact SmOk.init _ _
  | some sm => exact hok sm h

/-- `process()` keeps `ReassemblyInv`. -/
theorem ReassemblyInv.process (hi : ReassemblyInv c)
    (hok : ∀ sm, c.sm = some sm → SmOk c.storage.headers.length c.fatal sm) (b : Bool) :
    ReassemblyInv (process cfg b c) := by
  unfold Controller.process
  dsimp only
  split
  · exact hi.refresh.newTask rfl
  · exact hi.refresh.getBlocks rfl ‹_› (smOk_getD (c := c) hok)
  · exact hi.refresh.processDownloadingBlocks rfl ‹_›
  all_goals
    refine hi.refresh.of_frame (.reset rfl rfl ?_ rfl rfl)
    first
    | exact ⟨[.process false], rfl, fun _ h _ _ e => by cases List.mem_singleton.1 h; cases e⟩
    | exact ⟨[], by simp [enablePollTimer], by simp [NoBlock]⟩

/-! ## The handlers of the tasks' signals -/

theorem RoundFrame.onDownloadSuccess {task : Nat} {t : TaskRec} :
    RoundFrame c (c.onDownloadSuccess task t) := by
  unfold Controller.onDownloadSuccess
  split
  · exact .refl c
  · rename_i sm hsm
    split
    · exact .refl c
    · exact .of_sm rfl rfl rfl fun hf =>
        ⟨hf, fun _ h => by cases h; exact ⟨sm, hsm, rfl, id, fun h => ⟨h, rfl, rfl⟩⟩⟩

theorem RoundFrame.onDownloadErrored {task : Nat} : RoundFrame c (c.onDownloadErrored task) := by
  unfold Controller.onDownloadErrored
  split
  · exact .refl c
  · split
    · exact .refl c
    · split
      · exact .refl c
      · exact .genericTaskErrored c

/-- A new target height, and a state other than `DownloadingBlocks`, from `Begin`. -/
theorem RoundFrame.retarget (hb : ∀ sm, c.sm = some sm → sm.state = .begin) {ht : Int}
    {s : State} (hs : s ≠ .downloadingBlocks) :
    RoundFrame c ((c.modifySm ({ · with ht := ht })).setState s) :=
  .of_sm rfl rfl rfl fun hf => ⟨hf, fun sm' h => by
    simp only [setState_sm, modifySm_sm, Option.map_map] at h
    obtain ⟨sm, hsm, rfl⟩ := Option.map_eq_some'.1 h
    exact ⟨sm, hsm, .of_begin (hb sm hsm) rfl hs⟩⟩

/-- A chain-info reply handled in `Begin` starts a round, or ends the machine, with no
heights. -/
theorem RoundFrame.onChainInfoHeight (hb : ∀ sm, c.sm = some sm → sm.state = .begin)
    {info : ChainInfo} {b : Bool} : RoundFrame c (c.onChainInfoHeight info b) := by
  unfold Controller.onChainInfoHeight
  dsimp only
  split
  · have h : RoundFrame c ((c.modifySm ({ · with ht := info.blocks })).setState .«end») :=
      .retarget hb (by decide)
    refine RoundFrame.trans ?_ (.again _)
    split
    · exact h
    · exact h.trans (.congr rfl rfl rfl rfl rfl)
  · split
    · exact .halt_of rfl rfl rfl rfl
    · have h : RoundFrame c { c with signals := c.signals ++ [.synchronizing] } :=
        .congr rfl rfl rfl rfl rfl
      have h' : RoundFrame { c with signals := c.signals ++ [.synchronizing] }
          ((Controller.modifySm { c with signals := c.signals ++ [.synchronizing] }
            ({ · with ht := info.blocks })).setState .getBlocks) := by
        refine .retarget ?_ (by decide)
        exact hb
      exact (h.trans h').trans (.again _)

theorem RoundFrame.onChainInfoSuccess (hb : ∀ sm, c.sm = some sm → sm.state = .begin)
    {task : Nat} {info : ChainInfo} {b : Bool} :
    RoundFrame c (c.onChainInfoSuccess task info b) := by
  unfold Controller.onChainInfoSuccess
  dsimp only
  split
  · exact .refl c
  · split
    · exact .refl c
    · split
      · exact (RoundFrame.setState (by decide)).trans (.again _)
      · split
        · refine RoundFrame.trans ?_ (.onChainInfoHeight ?_)
          · split
            · exact .congr rfl rfl rfl rfl rfl
            · exact .refl c
          · split <;> exact hb
        · exact .halt_of rfl rfl rfl rfl

/-- The controller's thread handling a message other than `process` and a block leaves
the round alone, given that a chain-info reply comes in `Begin`. -/
theorem RoundFrame.handle {m : Msg} (hp : ∀ b, m ≠ .process b) (hb : ∀ t p, m ≠ .putBlock t p)
    (hbegin : ∀ t r b, m = .success t → c.procs[t]? = some r → r.kind = .getChainInfo b →
      ∀ sm, c.sm = some sm → sm.state = .begin) :
    RoundFrame c (handle cfg c m) := by
  cases m with
  | process b => exact absurd rfl (hp b)
  | putBlock t p => exact absurd rfl (hb t p)
  | start task =>
    simp only [Controller.handle]
    split
    · exact .refl c
    · exact .modifyProc fun _ => rfl
  | success task =>
    simp only [Controller.handle]
    split
    · rename_i r hr
      split
      · exact .onDownloadSuccess
      · rename_i b hk
        exact .onChainInfoSuccess (hbegin task r b rfl hr hk)
    · exact .refl c
  | errored task =>
    simp only [Controller.handle]
    split
    · split
      · exact .onDownloadErrored
      · exact .genericTaskErrored c
    · exact .refl c
  | progress task => exact .refl c
  | stop task =>
    simp only [Controller.handle]
    split
    · split
      · exact .refl c
      · show RoundFrame c ((c.modifyProc task ({ · with stopped := true })).post (.finished task))
        exact (RoundFrame.modifyProc (k := task) (g := ({ · with stopped := true })) fun _ => rfl).trans
          (.post (m := .finished task) fun _ _ h => by cases h)
    · exact .refl c
  | finished task => exact .congr rfl rfl rfl rfl rfl

/-- A task's `success`: the flag and the reply, then the handler and the `stop()` hook. -/
theorem RoundFrame.succeed (task : Nat) (info : ChainInfo) :
    RoundFrame c (((c.modifyProc task fun t => { t with succeeded := true, info }).post
      (.success task)).post (.stop task)) :=
  ((RoundFrame.modifyProc (k := task) (g := fun t => { t with succeeded := true, info })
    fun _ => rfl).trans (.post (m := .success task) fun _ _ h => by cases h)).trans
    (.post (m := .stop task) fun _ _ h => by cases h)

/-- A task's `errored`: the handler, then the `stop()` hook. -/
theorem RoundFrame.fail (task : Nat) : RoundFrame c ((c.post (.errored task)).post (.stop task)) :=
  (RoundFrame.post (m := .errored task) fun _ _ h => by cases h).trans
    (.post (m := .stop task) fun _ _ h => by cases h)

/-! ## One step -/

/-- A callback that is not stale comes from a task of the current round. -/
theorem epoch_eq_of_not_stale {m : Msg} {t : Nat} {r : TaskRec} (hm : m.task? = some t)
    (ht : c.procs[t]? = some r) (hs : stale c m = false) : r.epoch = c.epoch := by
  simp only [stale, hm, Option.some_bind, ht, Bool.or_eq_false_iff, bne_eq_false_iff_eq] at hs
  exact hs.1

/-- A chain-info reply that is not stale is handled in `Begin`. -/
theorem begin_of_not_stale {t : Nat} {r : TaskRec} {b : Bool} (ht : c.procs[t]? = some r)
    (hk : r.kind = .getChainInfo b) (hs : stale c (.success t) = false) :
    ∀ sm, c.sm = some sm → sm.state = .begin := by
  intro sm hsm
  simp only [stale, Msg.task?, Option.some_bind, ht, hk, hsm, Option.any_some,
    Bool.or_eq_false_iff, bne_eq_false_iff_eq] at hs
  exact hs.2

/-- The controller's thread handling one message keeps `ReassemblyInv`, given that a
chain-info reply comes in `Begin` and a block brings a height of the round. -/
theorem ReassemblyInv.handle (hi : ReassemblyInv c)
    (hok : ∀ sm, c.sm = some sm → SmOk c.storage.headers.length c.fatal sm) {m : Msg}
    (hbegin : ∀ t r b, m = .success t → c.procs[t]? = some r → r.kind = .getChainInfo b →
      ∀ sm, c.sm = some sm → sm.state = .begin)
    (hput : ∀ t p, m = .putBlock t p → c.fatal = false → ∀ sm, c.sm = some sm →
      sm.state = .downloadingBlocks → InWindow sm (p.height :: tokens c sm)) :
    ReassemblyInv (handle cfg c m) := by
  cases m with
  | process b => exact hi.process hok b
  | putBlock t p => exact hi.onPutBlock (hput t p rfl)
  | _ => exact hi.of_frame (.handle (fun _ h => by cases h) (fun _ _ h => by cases h) hbegin)

theorem ReassemblyInv.init {st : Storage V} : ReassemblyInv (init st) :=
  ⟨(fun _ h => by cases h), (fun _ _ h => by cases h), (fun _ _ h => by cases h)⟩

/-- Every event whose message, if any, is not a stale callback keeps `ReassemblyInv`. -/
theorem ReassemblyInv.step (hi : ReassemblyInv c) (hh : HeadersInv cfg c) {e : Event}
    (hns : noStale c e = true) (h : step cfg c e = some c') : ReassemblyInv c' := by
  cases step_spec h with
  | @handle i m _ hm =>
    have hs : stale c m = false := by simpa [noStale, hm] using hns
    refine (hi.dequeue i).handle hh.sm_ok (fun t r b he hr hk => ?_)
      (fun t p he hf sm hsm hdl => ?_)
    · subst he
      exact begin_of_not_stale hr hk hs
    · subst he
      -- the block comes from a task of the round, so its height was in flight
      have hlt := hi.msgs_task_lt t p (List.getElem?_mem hm)
      have hr : c.procs[t]? = some c.procs[t] := List.getElem?_eq_getElem hlt
      have hx : heightOf c (.putBlock t p) = some p.height := by
        simp [heightOf, hr, epoch_eq_of_not_stale (m := .putBlock t p) rfl hr hs]
      have hperm : (p.height :: inFlight (c.dequeue i)).Perm (inFlight c) := by
        simpa [hx] using (inFlight_dequeue hm).symm
      exact ((hi.round_ok hf sm hsm).window hdl).perm
        (List.perm_middle.symm.trans (hperm.append_left _))
  | deliver _ ht hd => exact hi.deliver ht hd.2.2.1
  | @progress task =>
    exact hi.of_frame (.post (m := .progress task) fun _ _ h => by cases h)
  | @succeed task _ info => exact hi.of_frame (.succeed task info)
  | @fail task => exact hi.of_frame (.fail task)
  | pollTimer =>
    have h1 : ReassemblyInv { c with pollTimer := none } := hi.of_frame (.congr rfl rfl rfl rfl rfl)
    split
    · exact h1.process hh.sm_ok true
    · exact h1
  | callProcessTimer =>
    have h1 : ReassemblyInv { c with callProcessTimer := false } :=
      hi.of_frame (.congr rfl rfl rfl rfl rfl)
    exact h1.process hh.sm_ok false
  | connectionsLost | firstGoodConnection => exact hi.of_frame (.congr rfl rfl rfl rfl rfl)

/-- `ReassemblyInv` holds in every run in which the controller handles no stale
callback. -/
theorem reachable_reassemblyInv (h : Reachable cfg (fun c e => noStale c e = true) c) :
    ReassemblyInv c := by
  induction h with
  | init _ => exact ReassemblyInv.init
  | step e hr hok hs ih => exact ih.step (reachable_headersInv hr) hok hs

/-! ## The order of `ppBlocks` -/

/-- In every run in which the controller handles no stale callback, until a `Fatal()`:
while the state machine is downloading, every key of `ppBlocks` lies in
`[ppBlkHtNext, endHeight]`, so the block for `ppBlkHtNext`, once buffered, is the front
of `ppBlocks`. -/
theorem ppBlocks_keys_in_window (c : Controller V)
    (h : Reachable cfg (fun c e => noStale c e = true) c) (hf : c.fatal = false)
    (sm : StateMachine) (hsm : c.sm = some sm) (hs : sm.state = .downloadingBlocks) :
    (∀ k ∈ sm.ppBlocks.keys, sm.ppBlkHtNext ≤ k ∧ k ≤ sm.endHeight) ∧
    ∀ p, (sm.ppBlkHtNext, p) ∈ sm.ppBlocks.entries →
      sm.ppBlocks.front? = some (sm.ppBlkHtNext, p) := by
  have hw := ((reachable_reassemblyInv h).round_ok hf sm hsm).window hs
  have hkeys : ∀ k ∈ sm.ppBlocks.keys, sm.ppBlkHtNext ≤ k ∧ k ≤ sm.endHeight :=
    fun k hk => hw.2 k (List.mem_append_left _ hk)
  refine ⟨hkeys, fun p hp => ?_⟩
  have hmem : sm.ppBlkHtNext ∈ sm.ppBlocks.keys := HeightMap.mem_keys.2 ⟨p, hp⟩
  obtain ⟨⟨k, v⟩, he⟩ := Option.ne_none_iff_exists'.1 fun h =>
    List.not_mem_nil _ (HeightMap.front?_eq_none.1 h ▸ hmem)
  -- the front holds the least key, and no key is below `ppBlkHtNext`
  have hle : k ≤ sm.ppBlkHtNext := HeightMap.front_le he hmem
  have hge := (hkeys k (HeightMap.mem_keys.2 ⟨v, HeightMap.mem_of_front he⟩)).1
  rw [he, eq_of_key_eq_of_sorted sm.ppBlocks.sorted (HeightMap.mem_of_front he) hp
    (Nat.le_antisymm hle hge)]

/-- `outOfOrderRun`: block `1`, from the second task, waits in `ppBlocks` for block `0`. -/
theorem ppBlocks_keys_in_window_out_of_order :
    ∃ c sm, execIf threeCoreConfig noStale (init emptyStorage) outOfOrderRun = some c ∧
      c.sm = some sm ∧ sm.ppBlocks.keys = [1] ∧ sm.ppBlkHtNext = 0 ∧
      ((∀ k ∈ sm.ppBlocks.keys, sm.ppBlkHtNext ≤ k ∧ k ≤ sm.endHeight) ∧
        ∀ p, (sm.ppBlkHtNext, p) ∈ sm.ppBlocks.entries →
          sm.ppBlocks.front? = some (sm.ppBlkHtNext, p)) :=
  ⟨_, _, rfl, rfl, rfl, rfl, ppBlocks_keys_in_window _
    ((Reachable.init loaded_emptyStorage_threeCore).execIf
      (rfl : execIf threeCoreConfig noStale (init emptyStorage) outOfOrderRun = some _)) rfl _ rfl rfl⟩

/-- In every run in which the controller handles no stale callback, until a `Fatal()`:
while downloading, no height of the round is in two places, or twice in one (buffered in
`ppBlocks`, posted in a `putBlock` not yet run, or still held by a task), and every height
on its way is in `[ppBlkHtNext, endHeight]`. -/
theorem round_heights_distinct (c : Controller V)
    (h : Reachable cfg (fun c e => noStale c e = true) c) (hf : c.fatal = false)
    (sm : StateMachine) (hsm : c.sm = some sm) (hs : sm.state = .downloadingBlocks) :
    (sm.ppBlocks.keys ++ posted c ++ held c).Nodup ∧
    ∀ x ∈ posted c ++ held c, sm.ppBlkHtNext ≤ x ∧ x ≤ sm.endHeight := by
  obtain ⟨hnd, hb⟩ := ((reachable_reassemblyInv h).round_ok hf sm hsm).window hs
  rw [List.append_assoc]
  exact ⟨hnd, fun x hx => hb x (List.mem_append_right _ hx)⟩

/-- `outOfOrderRun`: block `1` buffered, and `0` and `2` held by the first task. -/
theorem round_heights_distinct_out_of_order :
    ∃ c sm, execIf threeCoreConfig noStale (init emptyStorage) outOfOrderRun = some c ∧
      c.sm = some sm ∧ sm.ppBlocks.keys = [1] ∧ posted c = [] ∧ held c = [0, 2] ∧
      (sm.ppBlocks.keys ++ posted c ++ held c).Nodup :=
  ⟨_, _, rfl, rfl, rfl, rfl, rfl, (round_heights_distinct _
    ((Reachable.init loaded_emptyStorage_threeCore).execIf
      (rfl : execIf threeCoreConfig noStale (init emptyStorage) outOfOrderRun = some _)) rfl _ rfl
    rfl).1⟩

/-- `staleReplyRun`: the new round's `ppBlkHtNext` is `2`, but key `1` stays in
`ppBlocks`. -/
theorem stale_reply_stalls_download :
    ∃ c sm, Reachable sampleConfig (fun _ e => e.inOrder = true) c ∧ c.fatal = false ∧
      c.sm = some sm ∧ sm.state = .downloadingBlocks ∧ sm.ppBlkHtNext = 2 ∧ sm.endHeight = 3 ∧
      sm.ppBlocks.keys = [1, 2] ∧ c.storage.headers.length = 2 ∧ c.queue = [] :=
  ⟨_, _, (Reachable.init loaded_emptyStorage).exec_inOrder
    (rfl : exec sampleConfig (init emptyStorage) staleReplyRun = some _) rfl,
    rfl, rfl, by decide⟩

end

end Controller

end Fulcrum
