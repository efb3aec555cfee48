import Fulcrum.HeightMap
import Fulcrum.DownloadBlocksTask
import Mathlib.Data.List.Nodup

/-!
# Fulcrum.StateMachine

`Controller::StateMachine`, the state of one synchronization round, and the arithmetic of
its `GetBlocks` step: from the target height `ht` (an `int`) and the number of stored
headers `base` (a `size_t`) it computes `num`, the number of tasks `nTasks`, the range
`[startheight, endHeight]` and the arguments of every `add_DLHeaderTask`.

`getBlocks_partition` proves that, whenever no task constructor's `FatalAssert` fires, the
tasks' progressions `base + i, base + i + nTasks, …` partition `[base, ht]`, with
`nTasks = min (ht + 1 - base) DL_CONCURRENCY`.  Below `ht = 2^31 - 1` no constructor fails
(`getBlocks_tasks_ok`); at `ht = 2^31 - 1` the `int` sum `ht + 1` wraps, `num` is huge, and
a download of a single block spawns a second task whose constructor fails
(`getBlocks_overflow_at_int_max`).
-/

namespace Fulcrum

/-- `Controller::StateMachine::State`. -/
inductive State where
  | begin
  | getBlocks
  | downloadingBlocks
  | finishedDL
  | «end»
  | failure
  | ibd
  deriving DecidableEq, Repr

/-- `Controller::StateMachine`.  `DL_CONCURRENCY` is a constant of the machine (see
`dlConcurrency`), and `stateStr()` only names the state for the log. -/
structure StateMachine where
  state : State
  ht : Int
  ppBlocks : HeightMap PreProcessedBlock
  ppBlkHtNext : Nat
  startheight : Nat
  endHeight : Nat
  nTx : Nat
  nIns : Nat
  nOuts : Nat

namespace StateMachine

/-- A new state machine: `Begin`, `ht = -1`, everything else empty. -/
def init : StateMachine := ⟨.begin, -1, .empty, 0, 0, 0, 0, 0, 0⟩

end StateMachine

/-- `DL_CONCURRENCY = qMax(Util::getNPhysicalProcessors()-1, 1U)`, in `unsigned`. -/
def dlConcurrency (nPhysicalProcessors : Nat) : Nat :=
  max (asUnsigned ((nPhysicalProcessors : Int) - 1)) 1

theorem dlConcurrency_pos (n : Nat) : 0 < dlConcurrency n :=
  Nat.lt_of_lt_of_le Nat.one_pos (le_max_right _ _)

theorem dlConcurrency_lt (n : Nat) : dlConcurrency n < 2 ^ 32 :=
  max_lt (asUnsigned_lt _) (by decide)

/-! ## The `GetBlocks` step -/

/-- `num = size_t(sm->ht+1) - base`, with `sm->ht+1` an `int` sum. -/
def getBlocksNum (ht : Int) (base : Nat) : Nat :=
  asSizeT ((asSizeT (asInt (ht + 1)) : Int) - base)

/-- `nTasks = qMin(num, sm->DL_CONCURRENCY)`. -/
def getBlocksNTasks (ht : Int) (base dl : Nat) : Nat := min (getBlocksNum ht base) dl

/-- `sm->endHeight = unsigned(base + num) - 1`. -/
def getBlocksEndHeight (ht : Int) (base : Nat) : Nat :=
  asUnsigned ((asUnsigned (asSizeT (base + getBlocksNum ht base)) : Int) - 1)

/-- The `(from, to, stride)` each `add_DLHeaderTask(unsigned(base + i), unsigned(sm->ht),
nTasks)` hands to the task's constructor (which takes `unsigned(nTasks)`), `i < nTasks`. -/
def getBlocksTaskArgs (ht : Int) (base dl : Nat) : List (Nat × Nat × Nat) :=
  (List.range (getBlocksNTasks ht base dl)).map fun (i : Nat) =>
    (asUnsigned ((base + i : Nat) : Int), asUnsigned ht, asUnsigned (getBlocksNTasks ht base dl : Nat))

/-- The heights the task constructed from `(from, to, stride)` downloads. -/
def progression (a : Nat × Nat × Nat) : List Nat := List.range' a.1 (DownloadBlocksTask.nToDL a.1 a.2.1 a.2.2) a.2.2

section

open DownloadBlocksTask

/-- The residue classes `base + i` modulo `n`, for `i < n`, partition `[base, ht]`. -/
theorem progressions_perm {base ht n : Nat} (hn : 0 < n) (hbn : base + n ≤ ht + 1)
    (hts : ht + n < 2 ^ 32) :
    ((List.range n).flatMap fun i => List.range' (base + i) (nToDL (base + i) ht n) n).Perm
      (List.range' base (ht + 1 - base)) := by
  -- a height of the `i`-th progression is `i` past `base` modulo `n`
  have hmem : ∀ i < n, ∀ x, x ∈ List.range' (base + i) (nToDL (base + i) ht n) n ↔
      ∃ k, base + i + n * k ≤ ht ∧ x = base + i + n * k := fun i hi x => by
    rw [List.mem_range']
    refine exists_congr fun k => and_congr_left fun _ => ?_
    rw [Nat.mul_comm]
    exact (lt_nToDL_iff (by omega) hn (by omega) k).symm
  have hres : ∀ i < n, ∀ k, (base + i + n * k - base) % n = i := fun i hi k => by
    rw [Nat.add_assoc, Nat.add_sub_cancel_left, Nat.add_mul_mod_self_left, Nat.mod_eq_of_lt hi]
  refine (List.perm_ext_iff_of_nodup ?_ (List.nodup_range' _ _)).2 fun x => ?_
  · refine List.nodup_flatMap.2 ⟨fun i _ => List.nodup_range' _ _ n hn, ?_⟩
    refine (List.nodup_range n).pairwise_of_forall_ne fun i hi j hj hij y hy hy' => hij ?_
    obtain ⟨k, -, rfl⟩ := (hmem i (List.mem_range.1 hi) y).1 hy
    obtain ⟨l, -, he⟩ := (hmem j (List.mem_range.1 hj) _).1 hy'
    rw [← hres i (List.mem_range.1 hi) k, ← hres j (List.mem_range.1 hj) l, he]
  · simp only [List.mem_flatMap, List.mem_range, List.mem_range'_1]
    constructor
    · rintro ⟨i, hi, hx⟩
      obtain ⟨k, hk, rfl⟩ := (hmem i hi x).1 hx
      omega
    · intro hx
      refine ⟨(x - base) % n, Nat.mod_lt _ hn, (hmem _ (Nat.mod_lt _ hn) x).2
        ⟨(x - base) / n, ?_, ?_⟩⟩
      · have := Nat.mod_add_div (x - base) n; omega
      · have := Nat.mod_add_div (x - base) n; omega

/-- The number of blocks is `ht + 1 - base` below `int` overflow, and at least that, and
`≥ 2^64 - 2^32`, when `ht + 1` wraps. -/
theorem getBlocksNum_cases {ht : Int} {base : Nat} (hb : base ≤ ht) (ht' : ht < 2 ^ 31) :
    (ht + 1 < 2 ^ 31 ∧ (getBlocksNum ht base : Int) = ht + 1 - base) ∨
    (ht = 2 ^ 31 - 1 ∧ (getBlocksNum ht base : Int) = 2 ^ 64 - 2 ^ 31 - base) := by
  unfold getBlocksNum asSizeT asInt
  omega

/-- `endHeight` is `ht`, also when `ht + 1` wraps: `base + num` is then `2^64 - 2^31`,
whose `unsigned` is `2^31`. -/
theorem getBlocksEndHeight_eq {ht : Int} {base : Nat} (hb : base ≤ ht) (ht' : ht < 2 ^ 31) :
    getBlocksEndHeight ht base = ht.toNat := by
  have := getBlocksNum_cases hb ht'
  unfold getBlocksEndHeight asUnsigned asSizeT
  omega

/-- When no constructor fails, the `GetBlocks` step is exactly right: `nTasks` is
`min (ht + 1 - base) DL_CONCURRENCY`, the range is `[base, ht]`, and the tasks'
progressions partition it, so their `expectedCt` add up to `ht + 1 - base`. -/
theorem getBlocks_partition {ht : Int} {base dl : Nat} (hb : base ≤ ht) (ht' : ht < 2 ^ 31)
    (hdl : 0 < dl) (hdl' : dl < 2 ^ 32)
    (hok : ∀ a ∈ getBlocksTaskArgs ht base dl, a.1 ≤ a.2.1 ∧ 0 < a.2.2) :
    0 < getBlocksNum ht base ∧
    getBlocksNTasks ht base dl = min (ht.toNat + 1 - base) dl ∧
    asUnsigned base = base ∧ getBlocksEndHeight ht base = ht.toNat ∧
    getBlocksTaskArgs ht base dl =
      (List.range (getBlocksNTasks ht base dl)).map (fun i => (base + i, ht.toNat, getBlocksNTasks ht base dl)) ∧
    ((getBlocksTaskArgs ht base dl).flatMap progression).Perm (List.range' base (ht.toNat + 1 - base)) ∧
    ((getBlocksTaskArgs ht base dl).map fun a => nToDL a.1 a.2.1 a.2.2).sum = ht.toNat + 1 - base := by
  have hnum := getBlocksNum_cases hb ht'
  set n := getBlocksNTasks ht base dl with hn
  have hnmin : n = min (getBlocksNum ht base) dl := rfl
  -- a task past `ht + 1 - base` would start above `ht`, so there is none
  have hle : n ≤ ht.toNat + 1 - base := by
    refine Nat.not_lt.1 fun hlt => ?_
    have hin : (asUnsigned ((base + (ht.toNat + 1 - base) : Nat) : Int), asUnsigned ht,
        asUnsigned (n : Nat)) ∈
        getBlocksTaskArgs ht base dl := List.mem_map.2 ⟨_, List.mem_range.2 hlt, rfl⟩
    have := (hok _ hin).1
    simp only [asUnsigned] at this
    omega
  have hnt : n = min (ht.toNat + 1 - base) dl := by omega
  have hpos : 0 < n := by omega
  have hargs : getBlocksTaskArgs ht base dl =
      (List.range n).map (fun i => (base + i, ht.toNat, n)) := by
    simp only [getBlocksTaskArgs, ← hn]
    refine List.map_congr_left fun i hi => ?_
    have := List.mem_range.1 hi
    simp only [asUnsigned, Prod.mk.injEq]
    omega
  have hperm : ((getBlocksTaskArgs ht base dl).flatMap progression).Perm
      (List.range' base (ht.toNat + 1 - base)) := by
    rw [hargs, List.flatMap_map]
    exact @progressions_perm base ht.toNat n hpos (by omega) (by omega)
  refine ⟨by omega, hnt, asUnsigned_natCast_of_lt (by omega), getBlocksEndHeight_eq hb ht', hargs,
    hperm, ?_⟩
  have := hperm.length_eq
  rw [List.length_range'] at this
  rw [← this, List.flatMap, List.length_flatten, List.map_map]
  simp only [Function.comp_def, progression, List.length_range']

/-- Below `int` overflow every task's constructor precondition holds. -/
theorem getBlocks_tasks_ok {ht : Int} {base dl : Nat} (hb : base ≤ ht) (ht' : ht + 1 < 2 ^ 31)
    (hdl : 0 < dl) : ∀ a ∈ getBlocksTaskArgs ht base dl, a.1 ≤ a.2.1 ∧ 0 < a.2.2 := by
  have hnum := getBlocksNum_cases hb (by omega)
  intro a ha
  simp only [getBlocksTaskArgs, List.mem_map, List.mem_range] at ha
  obtain ⟨i, hi, rfl⟩ := ha
  simp only [getBlocksNTasks, asUnsigned] at *
  omega

/-- A single block at the top of the `int` range, `base = ht = 2^31 - 1`, with
`DL_CONCURRENCY = 2`: `ht + 1` wraps, so `num` is `2^64 - 2^32 + 1` instead of `1`, two
tasks are made instead of one, and the second one, `(2^31, 2^31 - 1, 2)`, fails its
constructor's `FatalAssert(to >= from)`. -/
theorem getBlocks_overflow_at_int_max :
    min ((2 ^ 31 - 1 : Int).toNat + 1 - (2 ^ 31 - 1)) 2 = 1 ∧
    getBlocksNum (2 ^ 31 - 1) (2 ^ 31 - 1) = 2 ^ 64 - 2 ^ 32 + 1 ∧
    getBlocksNTasks (2 ^ 31 - 1) (2 ^ 31 - 1) 2 = 2 ∧
    getBlocksTaskArgs (2 ^ 31 - 1) (2 ^ 31 - 1) 2 =
      [(2 ^ 31 - 1, 2 ^ 31 - 1, 2), (2 ^ 31, 2 ^ 31 - 1, 2)] ∧
    make (2 ^ 31) (2 ^ 31 - 1) 2 = none := by
  refine ⟨by decide, by decide, by decide, by decide, ?_⟩
  simp [make]

end

end Fulcrum
