import Fulcrum.Controller.System

/-!
# Fulcrum.Controller.Headers

What the controller does to the stored headers, in every run, whatever the tasks post and
in whatever order: `process_VerifyAndAddBlock` appends a header only after the shared
verifier accepted it, from the state whose last processed header is the last stored one,
and only for the block whose height is the number of headers stored before it; a
rejection puts the verifier back and appends nothing (`Appends`).  So the stored headers
are those of heights `0, 1, …, n - 1`, in order, and the verifier stays at the last one.

`HeadersInv` is the invariant that carries this from step to step: besides the heights of
the stored headers and the verifier's last header, `ppBlkHtNext` is the number of stored
headers while downloading, every entry of `ppBlocks` is keyed by its block's height, and
every height anything may deliver is an `int` height, so that `++ppBlkHtNext` never
wraps.  `reachable_headersInv` proves it of
every run; `stored_headers_verified_in_order` states what it gives.
-/

namespace Fulcrum

/-- The part of `Storage` the verifier chain is about: the headers, their heights, and
the verifier. -/
def Storage.chainOf {V : Type} (st : Storage V) : List Bytes × List Nat × V :=
  (st.headers, st.heights, st.verifier)

/-- `s'` extends `s` by headers the verifier accepted one after the other: each from the
verifier left by the one before, whose last processed header is the last stored header,
and each for the height equal to the number of headers stored before it. -/
inductive Appends {V : Type} (ver : HeaderVerifier V) :
    List Bytes × List Nat × V → List Bytes × List Nat × V → Prop
  | refl (s) : Appends ver s s
  | append {hs : List Bytes} {ns : List Nat} {v v' : V} {h : Bytes} {s'} :
      ver.lastHeaderProcessed v = hs.getLast?.getD [] → ver.verify v h = (true, v') →
      Appends ver (hs ++ [h], ns ++ [hs.length], v') s' → Appends ver (hs, ns, v) s'

/-- An element of a list with one entry changed is an old element or the changed one. -/
theorem mem_modify_imp {α : Type} {f : α → α} {n : Nat} {l : List α} {x : α}
    (h : x ∈ l.modify f n) : x ∈ l ∨ ∃ a, l[n]? = some a ∧ x = f a := by
  induction l generalizing n with
  | nil => simp at h
  | cons a l ih =>
    cases n with
    | zero =>
      rcases List.mem_cons.1 (by simpa using h) with rfl | h
      · exact .inr ⟨a, by simp, rfl⟩
      · exact .inl (List.mem_cons_of_mem _ h)
    | succ n =>
      rcases List.mem_cons.1 (by simpa using h) with rfl | h
      · exact .inl (List.mem_cons_self _ _)
      · rcases ih h with h | ⟨b, hb, rfl⟩
        · exact .inl (List.mem_cons_of_mem _ h)
        · exact .inr ⟨b, by simpa using hb, rfl⟩

namespace Controller

variable {V : Type} {cfg : Config V}

/-- What `HeadersInv` asks of the state machine while `n` headers are stored: while
downloading, `ppBlkHtNext` is `n`; every entry of `ppBlocks` is keyed by its block's
height, an `int` height; `ht` is an `int`, and, unless the controller has stopped, at
least `n` when the next step is `GetBlocks`; in `FinishedDL`, every height below
`endHeight` is stored. -/
structure SmOk (n : Nat) (fatal : Bool) (sm : StateMachine) : Prop where
  next_eq : sm.state = .downloadingBlocks → sm.ppBlkHtNext = n
  entries_ok : ∀ e ∈ sm.ppBlocks.entries, e.2.height = e.1 ∧ e.1 < 2 ^ 31
  ht_lt : sm.ht < 2 ^ 31
  ht_ge : fatal = false → sm.state = .getBlocks → (n : Int) ≤ sm.ht
  fin_le : sm.state = .finishedDL → sm.endHeight ≤ n

/-- What `HeadersInv` asks of a task object: the heights it may still hand over are `int`
heights, and so is the height in a chain-info task's reply. -/
structure TaskOk (t : TaskRec) : Prop where
  pending_lt : ∀ h ∈ t.pending, h < 2 ^ 31
  info_lt : t.kind.isDownload = false → t.info.blocks < 2 ^ 31

/-- What holds in every run. -/
structure HeadersInv (cfg : Config V) (c : Controller V) : Prop where
  heights_eq : c.storage.heights = List.range c.storage.headers.length
  verifier_last :
    cfg.verifier.lastHeaderProcessed c.storage.verifier = c.storage.headers.getLast?.getD []
  length_le : c.storage.headers.length ≤ 2 ^ 31
  sm_ok : ∀ sm, c.sm = some sm → SmOk c.storage.headers.length c.fatal sm
  msgs_lt : ∀ t p, Msg.putBlock t p ∈ c.queue → p.height < 2 ^ 31
  procs_ok : c.fatal = false → ∀ t ∈ c.procs, TaskOk t

section

variable {n : Nat} {f : Bool} {sm : StateMachine} {s : State}

theorem SmOk.init (n : Nat) (f : Bool) : SmOk n f .init where
  next_eq := fun h => by cases h
  entries_ok := fun _ h => by cases h
  ht_lt := by decide
  ht_ge := fun _ h => by cases h
  fin_le := fun h => by cases h

/-- Once the controller has stopped, `GetBlocks` is never run. -/
theorem SmOk.halt (h : SmOk n f sm) : SmOk n true sm :=
  { h with ht_ge := fun h => by cases h }

/-- Leaving for a state other than `DownloadingBlocks` and `GetBlocks`, and for
`FinishedDL` only once every height below `endHeight` is stored. -/
theorem SmOk.setState (h : SmOk n f sm) (hs : s ≠ .downloadingBlocks) (hs' : s ≠ .getBlocks)
    (hfin : s = .finishedDL → sm.endHeight ≤ n) : SmOk n f { sm with state := s } :=
  { h with next_eq := fun h' => absurd h' hs, ht_ge := fun _ h' => absurd h' hs', fin_le := hfin }

/-- Taking the front entry out of `ppBlocks` once its block is stored as the `n`-th
header. -/
theorem SmOk.popFront (h : SmOk n f sm) (hs : sm.state = .downloadingBlocks) (hn : n < 2 ^ 31)
    (f' : Bool) : SmOk (n + 1) f' { sm with ppBlocks := sm.ppBlocks.eraseFront
                                            ppBlkHtNext := asUnsigned ((sm.ppBlkHtNext : Int) + 1) } where
  next_eq := fun _ => by rw [h.next_eq hs]; simp only [asUnsigned]; omega
  entries_ok := fun e he => h.entries_ok e (sm.ppBlocks.mem_of_mem_eraseFront he)
  ht_lt := h.ht_lt
  ht_ge := fun _ h' => by rw [hs] at h'; cases h'
  fin_le := fun h' => by rw [hs] at h'; cases h'

/-- A new target height `ht`, and a state other than `DownloadingBlocks` and `FinishedDL`. -/
theorem SmOk.retarget (h : SmOk n f sm) {ht : Int} (hb : ht < 2 ^ 31) (hs : s ≠ .downloadingBlocks)
    (hs' : s ≠ .finishedDL) (hg : f = false → s = .getBlocks → (n : Int) ≤ ht) :
    SmOk n f { sm with ht := ht, state := s } where
  next_eq := fun h' => absurd h' hs
  entries_ok := h.entries_ok
  ht_lt := hb
  ht_ge := hg
  fin_le := fun h' => absurd h' hs'

theorem TaskOk.make_getChainInfo (b : Bool) (e : Nat) : TaskOk (TaskRec.make (.getChainInfo b) e) where
  pending_lt := fun _ h => by cases h
  info_lt := fun _ => by simp [TaskRec.make]

/-- Handing a block over only removes a pending height. -/
theorem TaskOk.handOver {t : TaskRec} (h : TaskOk t) (ppb : PreProcessedBlock) :
    TaskOk (t.handOver ppb) :=
  ⟨fun x hx => h.pending_lt x (List.mem_of_mem_erase hx), h.info_lt⟩

/-- A task succeeds only with a reply `GetChainInfoTask` accepts. -/
theorem TaskOk.succeed {t : TaskRec} {info : ChainInfo} (h : TaskOk t) (hc : t.CanSucceed info) :
    TaskOk { t with succeeded := true, info } where
  pending_lt := h.pending_lt
  info_lt := fun hk => by
    obtain ⟨-, -, hv⟩ := hc
    split at hv
    · rename_i hkind
      simp only [hkind] at hk
      cases hk
    · exact hv.2.1

/-- Changing one task object, in a way that keeps it `TaskOk`. -/
theorem procs_ok_modify {procs : List TaskRec} {g : TaskRec → TaskRec} {k : Nat}
    (h : ∀ t ∈ procs, TaskOk t) (hg : ∀ t, procs[k]? = some t → TaskOk (g t)) :
    ∀ t ∈ procs.modify g k, TaskOk t := fun t ht => by
  rcases mem_modify_imp ht with ht | ⟨a, ha, rfl⟩
  · exact h t ht
  · exact hg a ha

end

section

variable {c c' : Controller V}

theorem HeadersInv.init {st : Storage V} (h : Loaded cfg st) : HeadersInv cfg (init st) where
  heights_eq := h.heights_eq
  verifier_last := h.verifier_last
  length_le := h.length_le
  sm_ok := fun _ h => by cases h
  msgs_lt := fun _ _ h => by cases h
  procs_ok := fun _ _ h => by cases h

/-- The storage facts carry over to a step that leaves the stored headers alone. -/
theorem HeadersInv.of_chainOf (hi : HeadersInv cfg c) (hst : c'.storage.chainOf = c.storage.chainOf)
    (hsm : ∀ sm, c'.sm = some sm → SmOk c.storage.headers.length c'.fatal sm)
    (hq : ∀ t p, Msg.putBlock t p ∈ c'.queue → p.height < 2 ^ 31)
    (hp : c'.fatal = false → ∀ t ∈ c'.procs, TaskOk t) : HeadersInv cfg c' := by
  have e1 : c'.storage.headers = c.storage.headers := congrArg (·.1) hst
  have e2 : c'.storage.heights = c.storage.heights := congrArg (·.2.1) hst
  have e3 : c'.storage.verifier = c.storage.verifier := congrArg (·.2.2) hst
  exact ⟨by rw [e1, e2]; exact hi.heights_eq, by rw [e1, e3]; exact hi.verifier_last,
    e1 ▸ hi.length_le, e1 ▸ hsm, hq, hp⟩

theorem HeadersInv.again (hi : HeadersInv cfg c) : HeadersInv cfg c.again :=
  hi.of_chainOf rfl hi.sm_ok (by simpa using hi.msgs_lt) hi.procs_ok

theorem HeadersInv.halt (hi : HeadersInv cfg c) : HeadersInv cfg c.halt :=
  hi.of_chainOf rfl (fun sm h => (hi.sm_ok sm h).halt) hi.msgs_lt fun h => by cases h

theorem HeadersInv.setState {s : State} (hi : HeadersInv cfg c) (hs : s ≠ .downloadingBlocks)
    (hs' : s ≠ .getBlocks)
    (hfin : ∀ sm, c.sm = some sm → s = .finishedDL → sm.endHeight ≤ c.storage.headers.length) :
    HeadersInv cfg (c.setState s) :=
  hi.of_chainOf rfl (fun sm' h => by
    obtain ⟨sm, hsm, rfl⟩ := Option.map_eq_some'.1 h
    exact (hi.sm_ok sm hsm).setState hs hs' (hfin sm hsm)) hi.msgs_lt hi.procs_ok

/-- Posting anything but a block. -/
theorem HeadersInv.post {m : Msg} (hi : HeadersInv cfg c) (hm : ∀ t p, m ≠ .putBlock t p) :
    HeadersInv cfg (c.post m) :=
  hi.of_chainOf rfl hi.sm_ok (fun t p h => by
    rcases List.mem_append.1 h with h | h
    · exact hi.msgs_lt t p h
    · exact absurd (List.mem_singleton.1 h).symm (hm t p)) hi.procs_ok

theorem HeadersInv.modifyProc {k : Nat} {g : TaskRec → TaskRec} (hi : HeadersInv cfg c)
    (hg : c.fatal = false → ∀ t, c.procs[k]? = some t → TaskOk (g t)) :
    HeadersInv cfg (c.modifyProc k g) :=
  hi.of_chainOf rfl hi.sm_ok hi.msgs_lt fun hf =>
    procs_ok_modify (hi.procs_ok hf) (hg hf)

/-- Changing a task's flags keeps it `TaskOk`. -/
theorem HeadersInv.modifyProc_flags {k : Nat} {g : TaskRec → TaskRec} (hi : HeadersInv cfg c)
    (hg : ∀ t, (g t).pending = t.pending ∧ (g t).kind = t.kind ∧ (g t).info = t.info) :
    HeadersInv cfg (c.modifyProc k g) :=
  hi.modifyProc fun hf t ht => by
    obtain ⟨h1, h2, h3⟩ := hg t
    have hok := hi.procs_ok hf t (List.getElem?_mem ht)
    exact ⟨h1 ▸ hok.pending_lt, h2 ▸ h3 ▸ hok.info_lt⟩

/-- `HeadersInv` does not look at the signals. -/
theorem HeadersInv.signals (hi : HeadersInv cfg c) (l : List Signal) :
    HeadersInv cfg { c with signals := l } :=
  ⟨hi.heights_eq, hi.verifier_last, hi.length_le, hi.sm_ok, hi.msgs_lt, hi.procs_ok⟩

/-- A new target height, and a state other than `DownloadingBlocks`. -/
theorem HeadersInv.retarget (hi : HeadersInv cfg c) {ht : Int} {s : State} (hb : ht < 2 ^ 31)
    (hs : s ≠ .downloadingBlocks) (hs' : s ≠ .finishedDL)
    (hg : c.fatal = false → s = .getBlocks → (c.storage.headers.length : Int) ≤ ht) :
    HeadersInv cfg ((c.modifySm ({ · with ht := ht })).setState s) :=
  hi.of_chainOf rfl (fun sm' h => by
    simp only [setState_sm, modifySm_sm, Option.map_map] at h
    obtain ⟨sm, hsm, rfl⟩ := Option.map_eq_some'.1 h
    exact (hi.sm_ok sm hsm).retarget hb hs hs' hg) hi.msgs_lt hi.procs_ok

theorem HeadersInv.genericTaskErrored (hi : HeadersInv cfg c) :
    HeadersInv cfg c.genericTaskErrored := by
  unfold Controller.genericTaskErrored
  split
  · split
    · exact (hi.setState (by decide) (by decide) fun _ _ h => by cases h).again
    · exact hi
  · exact hi

/-- One round of the loop keeps `HeadersInv` when it rejects the block: the storage is
as it was and the state is `Failure`. -/
theorem HeadersInv.reject (hi : HeadersInv cfg c) {sm : StateMachine} {ppb : PreProcessedBlock}
    (hsm : c.sm = some sm) (hpf : (c.popFront sm ppb).fatal = c.fatal) :
    HeadersInv cfg ((c.popFront sm ppb).setState .failure).again := by
  have h := hi.sm_ok sm hsm
  refine hi.of_chainOf (by simp [Storage.chainOf]) ?_ (by simpa using hi.msgs_lt)
    (by simpa [hpf] using hi.procs_ok)
  simp only [again_sm, setState_sm, popFront_sm, Option.map_some', again_fatal, setState_fatal, hpf]
  intro _ h'; cases h'
  exact { next_eq := fun h' => by cases h'
          entries_ok := fun e he => h.entries_ok e (sm.ppBlocks.mem_of_mem_eraseFront he)
          ht_lt := h.ht_lt
          ht_ge := fun _ h' => by cases h'
          fin_le := fun h' => by cases h' }

/-- The loop of `process_DownloadingBlocks` keeps `HeadersInv`, and only appends headers
as `Appends` says; the state is still `DownloadingBlocks` unless a block failed. -/
theorem HeadersInv.drain (fuel : Nat) : ∀ c : Controller V, HeadersInv cfg c →
    (∀ sm, c.sm = some sm → sm.state = .downloadingBlocks) →
    HeadersInv cfg (drain cfg fuel c).1 ∧
    Appends cfg.verifier c.storage.chainOf (drain cfg fuel c).1.storage.chainOf ∧
    ((drain cfg fuel c).2 = true → ∀ sm, (drain cfg fuel c).1.sm = some sm →
      sm.state = .downloadingBlocks) := by
  induction fuel with
  | zero => exact fun c hi hdl => ⟨hi, .refl _, fun _ => hdl⟩
  | succ fuel ih =>
    intro c hi hdl
    by_cases hround : ∃ sm k ppb, c.sm = some sm ∧ sm.ppBlocks.front? = some (k, ppb) ∧
        k = sm.ppBlkHtNext
    · obtain ⟨sm, k, ppb, hsm, hf, hk⟩ := hround
      rw [drain_succ_of_front cfg hsm hf hk]
      have hmem := sm.ppBlocks.mem_of_front hf
      have hsmok := hi.sm_ok sm hsm
      obtain ⟨hh, hlt⟩ := hsmok.entries_ok _ hmem
      have hnext := hsmok.next_eq (hdl sm hsm)
      simp only at hh hlt
      have hpf : (c.popFront sm ppb).fatal = c.fatal := popFront_fatal (hh.trans hk)
      cases hv : (cfg.verifier.verify c.storage.verifier ppb.header).1 with
      | false =>
        -- a rejection: the storage is untouched
        rw [verifyAndAddBlock_of_reject cfg (by simpa using hv)]
        exact ⟨hi.reject hsm hpf, by simpa using .refl _, by simp⟩
      | true =>
        obtain ⟨hok, hhd, hht, hvf, -, hsm', hpr, hta, hq, hep⟩ :=
          verifyAndAddBlock_of_accept cfg (c := c.popFront sm ppb) (by simpa using hv)
        simp only [hok, Bool.true_eq_false, if_false]
        set r := verifyAndAddBlock cfg (c.popFront sm ppb) ppb
        simp only [popFront_storage, popFront_sm, popFront_procs, popFront_tasks, popFront_queue,
          popFront_epoch] at hhd hht hvf hsm' hpr hta hq hep
        have hlen : c.storage.headers.length = k := by omega
        -- the block appended is the one for the next height
        have hr : HeadersInv cfg r.1 := {
          heights_eq := by rw [hht, hhd, hi.heights_eq, hh, List.length_append, List.length_singleton,
            List.range_succ, hlen]
          verifier_last := by
            rw [hvf, hhd, cfg.verifier.lastHeaderProcessed_verify _ _ (by simpa using hv)]
            simp
          length_le := by rw [hhd, List.length_append, List.length_singleton]; omega
          sm_ok := by
            rw [hsm', hhd, List.length_append, List.length_singleton]
            intro _ h; cases h
            exact hsmok.popFront (hdl sm hsm) (by omega) _
          msgs_lt := by rw [hq]; exact hi.msgs_lt
          procs_ok := fun hfr => by
            rw [hpr]
            exact hi.procs_ok (hpf ▸ fatal_of_verifyAndAddBlock cfg hfr) }
        obtain ⟨hi', happ, hdl'⟩ := ih r.1 hr (by
          rw [hsm']; intro _ h; cases h; exact hdl sm hsm)
        refine ⟨hi', .append hi.verifier_last (Prod.ext hv rfl) ?_, hdl'⟩
        have : r.1.storage.chainOf = (c.storage.headers ++ [ppb.header],
            c.storage.heights ++ [c.storage.headers.length],
            (cfg.verifier.verify c.storage.verifier ppb.header).2) := by
          simp only [Storage.chainOf, hhd, hht, hvf, hh, hlen]
        rw [← this]; exact happ
    · have hstop : ∀ sm, c.sm = some sm → ∀ k ppb, sm.ppBlocks.front? = some (k, ppb) →
          k ≠ sm.ppBlkHtNext := fun sm hsm k ppb hf hk => hround ⟨sm, k, ppb, hsm, hf, hk⟩
      rw [drain_succ_of_not_front cfg hstop]
      exact ⟨hi, .refl _, fun _ => hdl⟩

/-! ### `process` -/

/-- `process_DownloadingBlocks` keeps `HeadersInv`, and only appends headers as `Appends`
says. -/
theorem HeadersInv.processDownloadingBlocks (hi : HeadersInv cfg c) {sm : StateMachine}
    (hsm : c.sm = some sm) (hs : sm.state = .downloadingBlocks) :
    HeadersInv cfg (processDownloadingBlocks cfg c) ∧
    Appends cfg.verifier c.storage.chainOf (processDownloadingBlocks cfg c).storage.chainOf := by
  obtain ⟨hi', happ, hdl⟩ := hi.drain (c.sm.elim 0 (·.ppBlocks.size)) c
    fun sm' h => by rw [hsm] at h; cases h; exact hs
  unfold Controller.processDownloadingBlocks
  dsimp only
  split
  · exact ⟨hi', happ⟩
  · rename_i hok
    split
    · rename_i sm' hsm'
      split
      · -- `FinishedDL` once `ppBlkHtNext`, the number of stored headers, reaches `endHeight`
        rename_i hle
        refine ⟨(hi'.setState (by decide) (by decide) fun sm'' h _ => ?_).again, happ⟩
        rw [hsm'] at h; cases h
        rwa [← (hi'.sm_ok sm' hsm').next_eq (hdl (by simpa using hok) sm' hsm')]
      · exact ⟨hi', happ⟩
    · exact ⟨hi', happ⟩

/-- The `GetBlocks` step keeps `HeadersInv`: it starts at the stored height, and the tasks
it makes hold heights up to `ht`. -/
theorem HeadersInv.getBlocks (hi : HeadersInv cfg c) {sm : StateMachine} (hsm : c.sm = some sm)
    (hs : sm.state = .getBlocks) : HeadersInv cfg (getBlocks cfg c sm) := by
  obtain ⟨e1, e2, e3, -, e5, e6⟩ := getBlocks_spec cfg c sm hsm
  have hok := hi.sm_ok sm hsm
  refine hi.of_chainOf (by rw [Storage.chainOf, Storage.chainOf, e1]) ?_ ?_ ?_
  · rw [e2]
    intro _ h; cases h
    exact { next_eq := fun _ => asUnsigned_natCast_of_lt (by have := hi.length_le; omega)
            entries_ok := hok.entries_ok
            ht_lt := hok.ht_lt
            ht_ge := fun _ h => by cases h
            fin_le := fun h => by cases h }
  · intro t p hm
    rw [e5] at hm
    rcases List.mem_append.1 hm with h | h
    · exact hi.msgs_lt t p h
    · obtain ⟨_, -, h⟩ := List.mem_map.1 h
      cases h
  · intro hf
    obtain ⟨hf0, -, -, hargs⟩ := e6.1 hf
    obtain ⟨-, -, -, -, -, hperm, -⟩ := getBlocks_partition (hok.ht_ge hf0 hs) hok.ht_lt
      (dlConcurrency_pos _) (dlConcurrency_lt _) hargs
    have hge := hok.ht_ge hf0 hs
    have hlt := hok.ht_lt
    rw [e3]
    intro t ht
    rcases List.mem_append.1 ht with ht | ht
    · exact hi.procs_ok hf0 t ht
    · obtain ⟨a, ha, rfl⟩ := List.mem_map.1 ht
      refine ⟨fun h hh => ?_, fun h => by cases h⟩
      simp only [TaskRec.make, if_pos (hargs a ha)] at hh
      have := List.mem_range'_1.1 (hperm.subset (List.mem_flatMap.2 ⟨a, ha, hh⟩))
      omega

/-- `process()` keeps `HeadersInv`, and only appends headers as `Appends` says. -/
theorem HeadersInv.process (hi : HeadersInv cfg c) (b : Bool) :
    HeadersInv cfg (process cfg b c) ∧
    Appends cfg.verifier c.storage.chainOf (process cfg b c).storage.chainOf := by
  unfold Controller.process
  generalize hsm : c.sm.getD .init = sm
  -- a state machine is made if there is none
  have hok : SmOk c.storage.headers.length c.fatal sm := by
    rw [← hsm]
    cases h : c.sm with
    | none => exact SmOk.init _ _
    | some sm => exact hi.sm_ok sm h
  dsimp only
  set c0 : Controller V :=
    { c with pollTimer := none, sm := some sm, epoch := if c.sm.isNone then c.epoch + 1 else c.epoch }
  have h0 : HeadersInv cfg c0 :=
    hi.of_chainOf rfl (fun _ h => by cases h; exact hok) hi.msgs_lt hi.procs_ok
  split
  · -- `Begin`: a chain-info task
    refine ⟨h0.of_chainOf rfl h0.sm_ok (by simpa using h0.msgs_lt) fun hf => ?_, .refl _⟩
    simp only [newTask_procs, List.mem_append, List.mem_singleton]
    rintro t (ht | rfl)
    · exact h0.procs_ok hf t ht
    · exact TaskOk.make_getChainInfo _ _
  · rename_i hs
    exact ⟨h0.getBlocks rfl hs, by rw [Storage.chainOf, (getBlocks_spec cfg c0 sm rfl).1]; exact .refl _⟩
  · rename_i hs
    exact h0.processDownloadingBlocks rfl hs
  all_goals
    refine ⟨h0.of_chainOf rfl (fun _ h => by cases h) ?_ h0.procs_ok, .refl _⟩
    simpa [enablePollTimer] using h0.msgs_lt

/-! ### The handlers of the tasks' signals -/

theorem HeadersInv.onPutBlock (hi : HeadersInv cfg c) {task : Nat} {p : PreProcessedBlock}
    (hp : p.height < 2 ^ 31) : HeadersInv cfg (c.onPutBlock task p) := by
  unfold Controller.onPutBlock
  split
  · exact hi
  · rename_i sm hsm
    split
    · exact hi
    · split
      · exact hi
      · -- the block is buffered under its own height
        have hok := hi.sm_ok sm hsm
        refine HeadersInv.again (hi.of_chainOf rfl ?_ hi.msgs_lt hi.procs_ok)
        intro _ h; cases h
        refine { hok with entries_ok := fun e he => ?_ }
        rcases HeightMap.mem_insert.1 he with rfl | ⟨he, -⟩
        · exact ⟨rfl, hp⟩
        · exact hok.entries_ok e he

theorem HeadersInv.onDownloadSuccess (hi : HeadersInv cfg c) {task : Nat} {t : TaskRec} :
    HeadersInv cfg (c.onDownloadSuccess task t) := by
  unfold Controller.onDownloadSuccess
  split
  · exact hi
  · rename_i sm hsm
    split
    · exact hi
    · have h := hi.sm_ok sm hsm
      exact hi.of_chainOf rfl (fun _ e => by cases e; exact ⟨h.next_eq, h.entries_ok, h.ht_lt, h.ht_ge, h.fin_le⟩)
        hi.msgs_lt hi.procs_ok

theorem HeadersInv.onDownloadErrored (hi : HeadersInv cfg c) {task : Nat} :
    HeadersInv cfg (c.onDownloadErrored task) := by
  unfold Controller.onDownloadErrored
  split
  · exact hi
  · split
    · exact hi
    · split
      · exact hi
      · exact hi.genericTaskErrored

/-- A reply's height goes into `ht`: `End` when it is the stored one, `GetBlocks` only
when it is above it (`old` is `size() - 1`, which stays below `2^31`). -/
theorem HeadersInv.onChainInfoHeight (hi : HeadersInv cfg c) {info : ChainInfo} {b : Bool}
    (hb : info.blocks < 2 ^ 31) : HeadersInv cfg (c.onChainInfoHeight info b) := by
  unfold Controller.onChainInfoHeight
  dsimp only
  have hlen := hi.length_le
  by_cases h1 : asInt (asInt c.storage.headers.length - 1) = info.blocks
  · -- up to date: `End`
    rw [if_pos h1]
    have h := hi.retarget hb (s := .«end») (by decide) (by decide) fun _ h => by cases h
    split
    · exact h.again
    · exact (h.signals _).again
  · rw [if_neg h1]
    split
    · -- bitcoind is behind: `Fatal()`, with `ht` set
      refine hi.of_chainOf rfl (fun sm' h => ?_) hi.msgs_lt fun h => by cases h
      obtain ⟨sm, hsm, rfl⟩ := Option.map_eq_some'.1 h
      have h := hi.sm_ok sm hsm
      exact ⟨h.next_eq, h.entries_ok, hb, (fun h => by cases h), h.fin_le⟩
    · -- bitcoind is ahead: `GetBlocks` from the stored height
      rename_i h2
      refine ((hi.signals (c.signals ++ [.synchronizing])).retarget hb (s := .getBlocks) (by decide) (by decide)
        fun _ _ => ?_).again
      show (c.storage.headers.length : Int) ≤ info.blocks
      unfold asInt at h1 h2
      omega

theorem HeadersInv.onChainInfoSuccess (hi : HeadersInv cfg c) {task : Nat} {info : ChainInfo}
    {b : Bool} (hb : info.blocks < 2 ^ 31) : HeadersInv cfg (c.onChainInfoSuccess task info b) := by
  unfold Controller.onChainInfoSuccess
  dsimp only
  split
  · exact hi
  · split
    · exact hi
    · split
      · exact (hi.setState (by decide) (by decide) fun _ _ h => by cases h).again
      · split
        · refine HeadersInv.onChainInfoHeight ?_ hb
          split
          · exact hi.of_chainOf rfl hi.sm_ok hi.msgs_lt hi.procs_ok
          · exact hi
        · exact hi.halt

/-- Only `process` appends headers. -/
theorem chainOf_handle {m : Msg} (hm : ∀ b, m ≠ .process b) :
    (handle cfg c m).storage.chainOf = c.storage.chainOf := by
  cases m with
  | process b => exact absurd rfl (hm b)
  | start task => simp only [Controller.handle]; split <;> rfl
  | putBlock task p => simp [Controller.handle]
  | success task =>
    simp only [Controller.handle]
    split
    · split
      · simp
      · rcases onChainInfoSuccess_storage (c := c) with h | h
        · rw [h]
        · rw [h]; rfl
    · rfl
  | errored task =>
    simp only [Controller.handle]
    split
    · split <;> simp
    · rfl
  | progress task => rfl
  | stop task =>
    simp only [Controller.handle]
    split
    · split <;> rfl
    · rfl
  | finished task => rfl

/-! ### One step -/

/-- The controller's thread handling one message keeps `HeadersInv`; a block it takes
was posted with an `int` height. -/
theorem HeadersInv.handle (hi : HeadersInv cfg c) (hf : c.fatal = false) {m : Msg}
    (hm : ∀ t p, m = .putBlock t p → p.height < 2 ^ 31) :
    HeadersInv cfg (handle cfg c m) ∧
    Appends cfg.verifier c.storage.chainOf (handle cfg c m).storage.chainOf := by
  by_cases hp : ∃ b, m = .process b
  · obtain ⟨b, rfl⟩ := hp
    exact hi.process b
  refine ⟨?_, chainOf_handle (fun b h => hp ⟨b, h⟩) ▸ .refl _⟩
  cases m with
  | process b => exact absurd ⟨b, rfl⟩ hp
  | start task =>
    simp only [Controller.handle]
    split
    · exact hi
    · exact hi.modifyProc_flags fun _ => ⟨rfl, rfl, rfl⟩
  | putBlock t p => exact hi.onPutBlock (hm t p rfl)
  | success task =>
    simp only [Controller.handle]
    split
    · rename_i t ht
      split
      · exact hi.onDownloadSuccess
      · rename_i hk
        exact hi.onChainInfoSuccess ((hi.procs_ok hf t (List.getElem?_mem ht)).info_lt (by rw [hk]; rfl))
    · exact hi
  | errored task =>
    simp only [Controller.handle]
    split
    · split
      · exact hi.onDownloadErrored
      · exact hi.genericTaskErrored
    · exact hi
  | progress task => exact hi
  | stop task =>
    simp only [Controller.handle]
    split
    · split
      · exact hi
      · exact (hi.modifyProc_flags (k := task) (g := ({ · with stopped := true }))
          fun _ => ⟨rfl, rfl, rfl⟩).post (m := .finished task) fun _ _ h => by cases h
    · exact hi
  | finished task => exact hi.of_chainOf rfl hi.sm_ok hi.msgs_lt hi.procs_ok

/-- Every event keeps `HeadersInv`, and only appends headers as `Appends` says. -/
theorem HeadersInv.step (hi : HeadersInv cfg c) {e : Event} (h : step cfg c e = some c') :
    HeadersInv cfg c' ∧ Appends cfg.verifier c.storage.chainOf c'.storage.chainOf := by
  cases e with
  | handle i =>
    simp only [Controller.step] at h
    split at h
    · cases h
    · rename_i hf
      obtain ⟨m, hm, rfl⟩ := Option.map_eq_some'.1 h
      have hd : HeadersInv cfg (c.dequeue i) :=
        hi.of_chainOf rfl hi.sm_ok (fun t p h => hi.msgs_lt t p (List.mem_of_mem_eraseIdx h))
          hi.procs_ok
      exact hd.handle (by simpa using hf) fun t p he => hi.msgs_lt t p (he ▸ List.getElem?_mem hm)
  | deliver task ppb =>
    simp only [Controller.step] at h
    split at h
    · rename_i t ht
      split at h
      · obtain ⟨hf, -, -, hmem, -⟩ := ‹c.fatal = false ∧ t.CanDeliver cfg.headerSize ppb›
        cases h
        -- the block posted is one the task still held
        have hok := hi.procs_ok hf t (List.getElem?_mem ht)
        refine ⟨hi.of_chainOf rfl hi.sm_ok (fun t' p h' => ?_) fun hf' => ?_, .refl _⟩
        · rcases List.mem_append.1 h' with h' | h'
          · exact hi.msgs_lt t' p h'
          · cases List.mem_singleton.1 h'
            exact hok.pending_lt _ hmem
        · exact procs_ok_modify (hi.procs_ok hf) fun t' ht' =>
            (hi.procs_ok hf t' (List.getElem?_mem ht')).handOver ppb
      · cases h
    · cases h
  | progress task =>
    simp only [Controller.step] at h
    split at h
    · split at h
      · cases h
        exact ⟨hi.post (fun _ _ h => by cases h), .refl _⟩
      · cases h
    · cases h
  | succeed task info =>
    simp only [Controller.step] at h
    split at h
    · rename_i t ht
      split at h
      · obtain ⟨hf, hc⟩ := ‹c.fatal = false ∧ t.CanSucceed info›
        cases h
        refine ⟨((hi.modifyProc fun _ t' ht' => ?_).post fun _ _ h => by cases h).post
          (fun _ _ h => by cases h), .refl _⟩
        rw [ht] at ht'
        cases ht'
        exact (hi.procs_ok hf t (List.getElem?_mem ht)).succeed hc
      · cases h
    · cases h
  | fail task =>
    simp only [Controller.step] at h
    split at h
    · split at h
      · cases h
        exact ⟨((hi.post fun _ _ h => by cases h).post fun _ _ h => by cases h), .refl _⟩
      · cases h
    · cases h
  | pollTimer =>
    simp only [Controller.step] at h
    split at h
    · cases h
      have h1 : HeadersInv cfg { c with pollTimer := none } :=
        hi.of_chainOf rfl hi.sm_ok hi.msgs_lt hi.procs_ok
      split
      · exact h1.process true
      · exact ⟨h1, .refl _⟩
    · cases h
  | callProcessTimer =>
    simp only [Controller.step] at h
    split at h
    · cases h
      have h1 : HeadersInv cfg { c with callProcessTimer := false } :=
        hi.of_chainOf rfl hi.sm_ok hi.msgs_lt hi.procs_ok
      exact h1.process false
    · cases h
  | connectionsLost =>
    simp only [Controller.step] at h
    split at h
    · cases h
    · cases h
      exact ⟨hi.of_chainOf rfl hi.sm_ok hi.msgs_lt hi.procs_ok, .refl _⟩
  | firstGoodConnection =>
    simp only [Controller.step] at h
    split at h
    · cases h
      exact ⟨hi.of_chainOf rfl hi.sm_ok hi.msgs_lt hi.procs_ok, .refl _⟩
    · cases h

/-- `HeadersInv` holds in every run, whatever the events. -/
theorem reachable_headersInv {ok : Controller V → Event → Prop} (h : Reachable cfg ok c) :
    HeadersInv cfg c := by
  induction h with
  | init hl => exact HeadersInv.init hl
  | step _ _ _ hs ih => exact (ih.step hs).1

end

/-- In every run, under any interleaving of the tasks' messages, the timers and the
reconnects: the stored headers are those of heights `0, 1, …, n - 1`, in order, the
verifier's last processed header is the last stored one, and whatever happens next only
appends headers the verifier accepted, each for the height equal to the number stored
before it, and puts the verifier back after a rejection. -/
theorem stored_headers_verified_in_order (c : Controller V)
    (h : Reachable cfg (fun _ _ => True) c) :
    c.storage.heights = List.range c.storage.headers.length ∧
    cfg.verifier.lastHeaderProcessed c.storage.verifier = c.storage.headers.getLast?.getD [] ∧
    ∀ e c', step cfg c e = some c' → Appends cfg.verifier c.storage.chainOf c'.storage.chainOf :=
  have hi := reachable_headersInv h
  ⟨hi.heights_eq, hi.verifier_last, fun _ _ hs => (hi.step hs).2⟩

/-- A download of heights `0` and `1` on empty storage, every message run in the order it
was posted: the chain-info task reports height `1`, the one download task hands block `0`
over, and the controller runs `process` on it. -/
def earlyFinishRun : List Event :=
  [.firstGoodConnection, .callProcessTimer, .handle 0, .succeed 0 ⟨"main", 1, false⟩, .handle 0,
    .handle 0, .handle 0, .handle 0, .handle 0, .deliver 1 ⟨0, 80, List.replicate 80 0, 1, 1, 1⟩,
    .handle 0, .handle 0]

/-- In `earlyFinishRun`, the `process()` after block `0` was handed over appends its header
to empty storage. -/
theorem stored_headers_verified_in_order_early :
    ∃ c c', exec sampleConfig (init emptyStorage) (earlyFinishRun.take 11) = some c ∧
      step sampleConfig c (.handle 0) = some c' ∧ c.storage.headers = [] ∧
      c'.storage.headers = [List.replicate 80 0] ∧
      Appends acceptAll c.storage.chainOf c'.storage.chainOf :=
  ⟨_, _, rfl, rfl, rfl, rfl, (stored_headers_verified_in_order _ ((Reachable.init
    loaded_emptyStorage).exec (rfl : exec sampleConfig (init emptyStorage) (earlyFinishRun.take 11)
      = some _) fun _ _ _ => trivial)).2.2 (.handle 0) _ rfl⟩

/-! ### `FinishedDL` -/

/-- In every run, a state machine in `FinishedDL` has every height below `endHeight`
stored: `0, 1, …, endHeight - 1` are the first stored heights. -/
theorem finishedDL_stores_below_endHeight (c : Controller V)
    (h : Reachable cfg (fun _ _ => True) c) (sm : StateMachine) (hsm : c.sm = some sm)
    (hs : sm.state = .finishedDL) : List.range sm.endHeight <+: c.storage.heights := by
  have hi := reachable_headersInv h
  rw [hi.heights_eq, ← Nat.add_sub_of_le ((hi.sm_ok sm hsm).fin_le hs), List.range_add]
  exact List.prefix_append _ _

theorem finishedDL_stores_below_endHeight_early :
    ∃ c sm, exec sampleConfig (init emptyStorage) earlyFinishRun = some c ∧ c.sm = some sm ∧
      sm.state = .finishedDL ∧ List.range sm.endHeight <+: c.storage.heights :=
  ⟨_, _, rfl, rfl, rfl, finishedDL_stores_below_endHeight _ ((Reachable.init loaded_emptyStorage).exec
    (rfl : exec sampleConfig (init emptyStorage) earlyFinishRun = some _) fun _ _ _ => trivial)
    _ rfl rfl⟩

/-- `process_DownloadingBlocks` goes to `FinishedDL` once `ppBlkHtNext >= endHeight`,
that is right after appending height `endHeight - 1`: in `earlyFinishRun`, where block
`1` is still on its way, the state is `FinishedDL` for the range `[0, 1]` with one header
stored, not `endHeight + 1 = 2`. -/
theorem finishedDL_before_endHeight_stored :
    ∃ c sm, Reachable sampleConfig (fun _ e => e.inOrder = true) c ∧ c.sm = some sm ∧
      sm.state = .finishedDL ∧ sm.startheight = 0 ∧ sm.endHeight = 1 ∧ sm.ht = 1 ∧
      c.storage.headers.length = 1 :=
  ⟨_, _, (Reachable.init loaded_emptyStorage).exec_inOrder
    (rfl : exec sampleConfig (init emptyStorage) earlyFinishRun = some _) rfl, rfl, by decide⟩

/-! ### `GetBlocks` -/

/-- In every run, the `process()` that finds the machine in `GetBlocks`, unless the target
is the largest `int`, raises no `Fatal()`, downloads from the number of stored headers
`base` to the target `ht`, and makes `min (ht + 1 - base) DL_CONCURRENCY` download tasks
whose heights are `base, base + 1, …, ht`, each once. -/
theorem getBlocks_downloads_missing_heights (c : Controller V)
    (h : Reachable cfg (fun _ _ => True) c) (hf : c.fatal = false) (sm : StateMachine)
    (hsm : c.sm = some sm) (hs : sm.state = .getBlocks) (ht : sm.ht + 1 < 2 ^ 31) (b : Bool) :
    (process cfg b c).fatal = false ∧
    (∃ sm', (process cfg b c).sm = some sm' ∧ sm'.state = .downloadingBlocks ∧
      sm'.startheight = c.storage.headers.length ∧ sm'.ppBlkHtNext = c.storage.headers.length ∧
      sm'.endHeight = sm.ht.toNat) ∧
    ((process cfg b c).procs.drop c.procs.length).length =
      min (sm.ht.toNat + 1 - c.storage.headers.length) (dlConcurrency cfg.nPhysicalProcessors) ∧
    (((process cfg b c).procs.drop c.procs.length).flatMap TaskRec.pending).Perm
      (List.range' c.storage.headers.length (sm.ht.toNat + 1 - c.storage.headers.length)) := by
  have hok := (reachable_headersInv h).sm_ok sm hsm
  have hb := hok.ht_ge hf hs
  have htasks := getBlocks_tasks_ok hb ht (dlConcurrency_pos cfg.nPhysicalProcessors)
  obtain ⟨hnum, hnt, hbase, hend, hargs, hperm, -⟩ := getBlocks_partition hb hok.ht_lt
    (dlConcurrency_pos _) (dlConcurrency_lt _) htasks
  obtain ⟨-, hsm', hprocs, -, -, hfatal⟩ := getBlocks_spec cfg { c with pollTimer := none } sm hsm
  rw [process_getBlocks cfg hsm hs]
  refine ⟨hfatal.2 ⟨hf, by omega, hnum, htasks⟩, ⟨_, hsm', rfl, hbase, hbase, hend⟩, ?_, ?_⟩
  · rw [hprocs, List.drop_left, List.length_map, hargs, List.length_map, List.length_range, hnt]
  · rw [hprocs, List.drop_left, List.flatMap_map]
    -- every task's arguments pass its constructor's checks, so it holds its progression
    refine List.Perm.trans (List.Perm.of_eq (List.flatMap_congr fun a ha => ?_)) hperm
    simp only [Function.comp_apply, TaskRec.make, if_pos (htasks a ha)]

/-- `inOrderRun` once the chain-info reply put the machine in `GetBlocks` for height `2`:
with three processors the round is split into the tasks holding `0, 2` and `1`. -/
theorem getBlocks_downloads_missing_heights_split :
    ∃ c sm, exec threeCoreConfig (init emptyStorage) (inOrderRun.take 5) = some c ∧
      c.fatal = false ∧ c.sm = some sm ∧ sm.state = .getBlocks ∧ sm.ht + 1 < 2 ^ 31 ∧
      ((process threeCoreConfig false c).procs.drop c.procs.length).map TaskRec.pending =
        [[0, 2], [1]] ∧
      ((process threeCoreConfig false c).procs.drop c.procs.length).length =
        min (sm.ht.toNat + 1 - c.storage.headers.length)
          (dlConcurrency threeCoreConfig.nPhysicalProcessors) ∧
      (((process threeCoreConfig false c).procs.drop c.procs.length).flatMap TaskRec.pending).Perm
        (List.range' c.storage.headers.length (sm.ht.toNat + 1 - c.storage.headers.length)) :=
  ⟨_, _, rfl, rfl, rfl, rfl, by decide, rfl, (getBlocks_downloads_missing_heights _
    ((Reachable.init loaded_emptyStorage_threeCore).exec
      (rfl : exec threeCoreConfig (init emptyStorage) (inOrderRun.take 5) = some _)
      fun _ _ _ => trivial) rfl _ rfl rfl (by decide) false).2.2⟩

end Controller

end Fulcrum
