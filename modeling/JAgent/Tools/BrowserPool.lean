import JAgent.Lib.System
import JAgent.Lib.Tasks

/-! # Browser leases

`BrowserPool` in persistent mode.  A lease is a browser process that works on the profile directory of
its workspace; Chrome admits one process per profile, and the pools of all server processes keep to it
by a lock file in the directory.  `acquire` holds the `_guard` of its pool while it waits until there
is no lock file and while it spawns the browser; `release` takes the `_guard` to remove the lease and
deletes the lock file when the browser is closed.

The check for the file and its creation are two operations on the file system, between which another
process may do the same, and waiting happens under the `_guard`.  `profile_exclusion`: as long as no
run asks for a profile that a run of its own pool has, and no two processes are between the check and
the creation, there is one lease per profile, with its lock file, and no task waits under the `_guard`
for the file of a lease of its pool.

A spawn may fail or be cancelled at any time, a wait may run into its deadline or be cancelled. -/

namespace JAgent
open Lib

/-- `BrowserLease`, in the `_leases` of a pool. -/
structure BrowserLease where
  pool : ℕ
  runId : String
  profile : String
deriving DecidableEq

/-- Where a task of a pool is. -/
inductive LeasePc where
  /-- `acquire`: waits for the `_guard`. -/
  | entering (runId profile : String)
  /-- `_wait_profile_lock`. -/
  | polling (runId profile : String)
  /-- `_spawn_lease` before the lock file is written. -/
  | writing (runId profile : String)
  /-- `_spawn_lease` after it. -/
  | spawning (runId profile : String)
  /-- `release`: waits for the `_guard`. -/
  | popping (runId : String)
  /-- `BrowserLease.close`. -/
  | closing (profile : String)
  | ended
deriving DecidableEq

/-- A task of a pool; each server process has one pool. -/
structure LeaseTask where
  pool : ℕ
  pc : LeasePc
deriving DecidableEq

/-- The pools, and the profiles with a lock file. -/
structure Pools where
  leases : List BrowserLease := []
  tasks : List LeaseTask := []
  locks : List String := []

inductive PoolMove where
  | acquire (pool : ℕ) (runId profile : String)
  | release (pool : ℕ) (runId : String)
  /-- A task goes on. -/
  | advance (i : ℕ)
  /-- A spawn fails, a wait runs into its deadline, or a task is cancelled. -/
  | fail (i : ℕ)

/-- The task has the `_guard` of its pool. -/
def LeasePc.guarded : LeasePc → Bool
  | .polling .. | .writing .. | .spawning .. => true
  | _ => false

namespace Pools
variable (s : Pools)

/-- Nobody has the `_guard` of the pool. -/
def guardFree (pool : ℕ) : Bool := s.tasks.all fun task => task.pool ≠ pool || !task.pc.guarded

/-- `_leases.get(run_id)`. -/
def lease? (pool : ℕ) (runId : String) : Option BrowserLease :=
  s.leases.find? fun lease => lease.pool = pool && lease.runId = runId

/-- `lock_file.exists()`. -/
def locked (profile : String) : Bool := s.locks.contains profile

/-- `lock_file.write_text(…)`. -/
def lock (profile : String) : Pools := { s with locks := profile :: s.locks.filter (· ≠ profile) }

/-- `lock_file.unlink(missing_ok=True)`. -/
def unlink (profile : String) : Pools := { s with locks := s.locks.filter (· ≠ profile) }

/-- The next step of a task; `none` while it waits. -/
def advance (pool : ℕ) : LeasePc → Option (Pools × LeasePc)
  | .entering r d =>
    if !s.guardFree pool then none
    else if (s.lease? pool r).isSome then some (s, .ended)
    else some (s, .polling r d)
  | .polling r d => if s.locked d then none else some (s, .writing r d)
  | .writing r d => some (s.lock d, .spawning r d)
  | .spawning r d => some ({ s with leases := s.leases ++ [⟨pool, r, d⟩] }, .ended)
  | .popping r =>
    if !s.guardFree pool then none
    else match s.lease? pool r with
      | none => some (s, .ended)
      | some lease => some ({ s with leases := s.leases.erase lease }, .closing lease.profile)
  | .closing d => some (s.unlink d, .ended)
  | .ended => none

/-- A task fails or is cancelled.  `acquire` then removes the lock file, if it has got as far as
`_spawn_lease`; `close` goes on whatever happens. -/
def fail : LeasePc → Option (Pools × LeasePc)
  | .entering .. | .polling .. | .popping _ => some (s, .ended)
  | .writing _ d | .spawning _ d => some (s.unlink d, .ended)
  | .closing _ | .ended => none

/-- Replace a task. -/
def setTask (i pool : ℕ) (out : Pools × LeasePc) : Pools :=
  { out.1 with tasks := out.1.tasks.set i ⟨pool, out.2⟩ }

end Pools

/-- One step. -/
def poolStep (s : Pools) : PoolMove → Option Pools
  | .acquire pool r d => some { s with tasks := s.tasks ++ [⟨pool, .entering r d⟩] }
  | .release pool r => some { s with tasks := s.tasks ++ [⟨pool, .popping r⟩] }
  | .advance i => match s.tasks[i]? with
    | none => none
    | some task => (s.advance task.pool task.pc).map (Pools.setTask i task.pool)
  | .fail i => match s.tasks[i]? with
    | none => none
    | some task => (s.fail task.pc).map (Pools.setTask i task.pool)

/-! ### Exclusion -/

/-- The task is between the check for the lock file and its creation. -/
def LeasePc.writes (profile : String) : LeasePc → Bool
  | .writing _ d => d = profile
  | _ => false

/-- The task has a lock file, but no lease in its pool. -/
def LeasePc.keeps (profile : String) : LeasePc → Bool
  | .spawning _ d | .closing d => d = profile
  | _ => false

section pc
variable (r d d' : String)

@[simp] theorem LeasePc.keeps_polling : (LeasePc.polling r d).keeps d' = false := rfl
@[simp] theorem LeasePc.keeps_writing : (LeasePc.writing r d).keeps d' = false := rfl
@[simp] theorem LeasePc.keeps_spawning : (LeasePc.spawning r d).keeps d' = decide (d = d') := rfl
@[simp] theorem LeasePc.keeps_popping : (LeasePc.popping r).keeps d' = false := rfl
@[simp] theorem LeasePc.keeps_closing : (LeasePc.closing d).keeps d' = decide (d = d') := rfl
@[simp] theorem LeasePc.keeps_ended : LeasePc.ended.keeps d' = false := rfl
@[simp] theorem LeasePc.writes_polling : (LeasePc.polling r d).writes d' = false := rfl
@[simp] theorem LeasePc.writes_writing : (LeasePc.writing r d).writes d' = decide (d = d') := rfl
@[simp] theorem LeasePc.writes_spawning : (LeasePc.spawning r d).writes d' = false := rfl
@[simp] theorem LeasePc.writes_popping : (LeasePc.popping r).writes d' = false := rfl
@[simp] theorem LeasePc.writes_closing : (LeasePc.closing d).writes d' = false := rfl
@[simp] theorem LeasePc.writes_ended : LeasePc.ended.writes d' = false := rfl

end pc

namespace Pools
variable (s : Pools)

/-- No lease of the pool has the profile. -/
def unleased (pool : ℕ) (profile : String) : Bool :=
  s.leases.all fun lease => lease.pool ≠ pool || lease.profile ≠ profile

/-- The step starts no wait for a lease of its own pool, and does not pass the check for the lock file
while another task is about to write it. -/
def exclusive : PoolMove → Bool
  | .advance i => match s.tasks[i]? with
    | some ⟨pool, .entering r d⟩ => (s.lease? pool r).isSome || s.unleased pool d
    | some ⟨_, .polling _ d⟩ => s.locked d || s.tasks.all fun task => !task.pc.writes d
    | _ => true
  | _ => true

/-- The leases on a profile: those of the pools, and those that are being closed. -/
def live (profile : String) : ℕ :=
  s.leases.countP (·.profile = profile) + s.tasks.countP (·.pc = .closing profile)


/-! ### The invariant -/

/-- The task has the `_guard` of this pool. -/
def hasGuard (pool : ℕ) (task : LeaseTask) : Bool := task.pool = pool && task.pc.guarded

/-- A lease on the profile. -/
def leased (profile : String) (lease : BrowserLease) : Bool := lease.profile = profile

/-- One task per `_guard`; one lease, or task on the way to one or back, per profile; the lock file of a
profile is there with them; and nobody waits for the own pool. -/
structure Exclusive (s : Pools) : Prop where
  guard : ∀ pool, s.tasks.countP (hasGuard pool) ≤ 1
  slot : ∀ d, s.leases.countP (leased d) + s.tasks.countP (·.pc.keeps d) + s.tasks.countP (·.pc.writes d) ≤ 1
  file : ∀ d, s.locked d = true ↔ 1 ≤ s.leases.countP (leased d) + s.tasks.countP (·.pc.keeps d)
  waits : ∀ task ∈ s.tasks, ∀ r d, task.pc = .polling r d → s.unleased task.pool d = true

variable {s} {s' : Pools}

@[simp] theorem locked_lock (d d' : String) : (s.lock d).locked d' = (decide (d' = d) || s.locked d') := by
  unfold locked lock
  rw [Bool.eq_iff_iff]
  by_cases h : d' = d <;> simp [h]

@[simp] theorem locked_unlink (d d' : String) : (s.unlink d).locked d' = (!decide (d' = d) && s.locked d') := by
  unfold locked unlink
  rw [Bool.eq_iff_iff]
  by_cases h : d' = d <;> simp [h]

theorem countP_hasGuard_of_guardFree {pool : ℕ} (h : s.guardFree pool = true) :
    s.tasks.countP (hasGuard pool) = 0 := by
  rw [List.countP_eq_zero]
  intro task htask hg
  have hfree := List.all_eq_true.mp h task htask
  simp only [hasGuard, Bool.and_eq_true, decide_eq_true_eq] at hg
  simp [hg.1, hg.2] at hfree

/-- **A step of a task.** -/
theorem Exclusive.of_task (h : Exclusive s) {i pool : ℕ} {pc pc' : LeasePc}
    (hi : s.tasks[i]? = some ⟨pool, pc⟩) (htasks : s'.tasks = s.tasks)
    (hguard : pc'.guarded = true → pc.guarded = true ∨ s.guardFree pool = true)
    (hslot : ∀ d, s'.leases.countP (leased d) + s.tasks.countP (·.pc.keeps d) + (pc'.keeps d).toNat +
      s.tasks.countP (·.pc.writes d) + (pc'.writes d).toNat ≤ 1 + (pc.keeps d).toNat + (pc.writes d).toNat)
    (hfile : ∀ d, s'.locked d = true ↔ 1 + (pc.keeps d).toNat ≤
      s'.leases.countP (leased d) + s.tasks.countP (·.pc.keeps d) + (pc'.keeps d).toNat)
    (hold : ∀ task ∈ s.tasks, ∀ r d, task.pc = .polling r d → s'.unleased task.pool d = true)
    (hnew : ∀ r d, pc' = .polling r d → s'.unleased pool d = true) :
    Exclusive (setTask i pool (s', pc')) := by
  have hcount : ∀ q : LeaseTask → Bool, (s.tasks.set i ⟨pool, pc'⟩).countP q + (q ⟨pool, pc⟩).toNat =
      s.tasks.countP q + (q ⟨pool, pc'⟩).toNat := fun q => countP_set_toNat q hi
  refine ⟨?_, ?_, ?_, ?_⟩
  · intro pool'
    have hone := h.guard pool'
    have hc := hcount (hasGuard pool')
    simp only [setTask, htasks]
    by_cases hpool : pool = pool'
    · subst hpool
      have hself : ∀ pc, hasGuard pool ⟨pool, pc⟩ = pc.guarded := by simp [hasGuard]
      rw [hself, hself] at hc
      cases hg' : pc'.guarded with
      | false =>
          rw [hg', Bool.toNat_false] at hc
          omega
      | true =>
          rcases hguard hg' with hg | hfree
          · rw [hg, hg'] at hc
            omega
          · have hzero := countP_hasGuard_of_guardFree hfree
            rw [hg', Bool.toNat_true] at hc
            omega
    · have hother : ∀ pc, hasGuard pool' ⟨pool, pc⟩ = false := by simp [hasGuard, hpool]
      rw [hother, hother] at hc
      omega
  · intro d
    have hs := hslot d
    have hk := hcount (·.pc.keeps d)
    have hw := hcount (·.pc.writes d)
    simp only [setTask, htasks] at hk hw ⊢
    omega
  · intro d
    have hk := hcount (·.pc.keeps d)
    have hlocked : (setTask i pool (s', pc')).locked d = s'.locked d := rfl
    rw [hlocked, hfile d]
    simp only [setTask, htasks] at hk ⊢
    omega
  · intro task htask r d hpc
    simp only [setTask, htasks] at htask
    rcases List.mem_or_eq_of_mem_set htask with hin | rfl
    · exact hold task hin r d hpc
    · exact hnew r d hpc

/-- A task that keeps its locks goes on. -/
theorem Exclusive.goto (h : Exclusive s) {i pool : ℕ} {pc pc' : LeasePc}
    (hi : s.tasks[i]? = some ⟨pool, pc⟩)
    (hguard : pc'.guarded = true → pc.guarded = true ∨ s.guardFree pool = true)
    (hkeeps : ∀ d, pc'.keeps d = pc.keeps d) (hwrites : ∀ d, pc'.writes d = pc.writes d)
    (hnew : ∀ r d, pc' = .polling r d → s.unleased pool d = true) :
    Exclusive (setTask i pool (s, pc')) := by
  refine h.of_task hi rfl hguard ?_ ?_ h.waits hnew
  · intro d
    have hs := h.slot d
    rw [hkeeps, hwrites]
    omega
  · intro d
    rw [h.file d, hkeeps]
    omega

/-- A task gives up a profile, with its lock file. -/
theorem Exclusive.unlinked (h : Exclusive s) {i pool : ℕ} {pc : LeasePc} {d : String}
    (hi : s.tasks[i]? = some ⟨pool, pc⟩) (hone : (pc.keeps d).toNat + (pc.writes d).toNat = 1)
    (hother : ∀ d', d' ≠ d → pc.keeps d' = false ∧ pc.writes d' = false) :
    Exclusive (setTask i pool (s.unlink d, .ended)) := by
  have hmem := List.mem_of_getElem? hi
  refine h.of_task hi rfl (by simp [LeasePc.guarded]) ?_ ?_ h.waits (by simp)
  · intro d'
    have hs := h.slot d'
    simp only [unlink, LeasePc.keeps_ended, LeasePc.writes_ended, Bool.toNat_false]
    omega
  · intro d'
    have hs := h.slot d'
    have hf := h.file d'
    rw [locked_unlink]
    simp only [unlink, LeasePc.keeps_ended, Bool.toNat_false]
    by_cases hd : d' = d
    · subst hd
      -- the task was the only one on the profile
      have hcounted : (pc.keeps d').toNat ≤ s.tasks.countP (·.pc.keeps d') ∧
          (pc.writes d').toNat ≤ s.tasks.countP (·.pc.writes d') := by
        refine ⟨?_, ?_⟩
        · cases hk : pc.keeps d' with
          | false => exact Nat.zero_le _
          | true => exact one_le_countP _ hmem hk
        · cases hw : pc.writes d' with
          | false => exact Nat.zero_le _
          | true => exact one_le_countP _ hmem hw
      simp only [decide_true, Bool.not_true, Bool.false_and, Bool.false_eq_true, false_iff]
      omega
    · obtain ⟨hk, hw⟩ := hother d' hd
      rw [hk]
      simp only [hd, decide_false, Bool.not_false, Bool.true_and, Bool.toNat_false]
      rw [hf]
      omega

theorem unleased_iff {pool : ℕ} {d : String} :
    s.unleased pool d = true ↔ ∀ lease ∈ s.leases, lease.pool = pool → lease.profile ≠ d := by
  unfold unleased
  rw [List.all_eq_true]
  refine forall₂_congr fun lease _ => ?_
  rw [Bool.or_eq_true, decide_eq_true_eq, decide_eq_true_eq, ne_eq, imp_iff_not_or]

/-- A task passes the check for the lock file while no other is about to write it. -/
theorem Exclusive.passed (h : Exclusive s) {i pool : ℕ} {r d : String}
    (hi : s.tasks[i]? = some ⟨pool, .polling r d⟩) (hlocked : ¬s.locked d = true)
    (hfree : ∀ task ∈ s.tasks, task.pc.writes d = false) :
    Exclusive (setTask i pool (s, .writing r d)) := by
  refine h.of_task hi rfl (fun _ => .inl rfl) ?_ ?_ h.waits (by simp)
  · intro d'
    have hslot := h.slot d'
    simp only [LeasePc.keeps_polling, LeasePc.keeps_writing, LeasePc.writes_polling,
      LeasePc.writes_writing, Bool.toNat_false]
    by_cases hd : d = d'
    · subst hd
      have hnone : s.tasks.countP (·.pc.writes d) = 0 := by
        rw [List.countP_eq_zero]
        intro task htask hw
        rw [hfree task htask] at hw
        cases hw
      have hfile := (h.file d).not.mp hlocked
      simp only [decide_true, Bool.toNat_true]
      omega
    · simp only [hd, decide_false, Bool.toNat_false]
      omega
  · intro d'
    rw [h.file d']
    simp

/-- The lock file is written. -/
theorem Exclusive.written (h : Exclusive s) {i pool : ℕ} {r d : String}
    (hi : s.tasks[i]? = some ⟨pool, .writing r d⟩) : Exclusive (setTask i pool (s.lock d, .spawning r d)) := by
  refine h.of_task hi rfl (fun _ => .inl rfl) ?_ ?_ h.waits (by simp)
  · intro d'
    have hslot := h.slot d'
    simp only [lock, LeasePc.keeps_writing, LeasePc.keeps_spawning, LeasePc.writes_writing,
      LeasePc.writes_spawning, Bool.toNat_false]
    omega
  · intro d'
    rw [locked_lock]
    simp only [lock, LeasePc.keeps_writing, LeasePc.keeps_spawning, Bool.toNat_false]
    by_cases hd : d = d'
    · subst hd
      simp
    · have hd' : ¬d' = d := fun heq => hd heq.symm
      simp only [hd, hd', decide_false, Bool.false_or, Bool.toNat_false]
      rw [h.file d']
      omega

/-- The lease is recorded; a task that waits in this pool would have the `_guard`, too. -/
theorem Exclusive.recorded (h : Exclusive s) {i pool : ℕ} {r d : String}
    (hi : s.tasks[i]? = some ⟨pool, .spawning r d⟩) :
    Exclusive (setTask i pool ({ s with leases := s.leases ++ [⟨pool, r, d⟩] }, .ended)) := by
  have hcount : ∀ d', (s.leases ++ [BrowserLease.mk pool r d]).countP (leased d') =
      s.leases.countP (leased d') + (decide (d = d')).toNat := by
    intro d'
    rw [countP_concat_toNat]
    rfl
  refine h.of_task hi rfl (by simp [LeasePc.guarded]) ?_ ?_ ?_ (by simp)
  · intro d'
    have hslot := h.slot d'
    simp only [hcount, LeasePc.keeps_spawning, LeasePc.keeps_ended, LeasePc.writes_spawning,
      LeasePc.writes_ended, Bool.toNat_false]
    omega
  · intro d'
    have hfile : locked { s with leases := s.leases ++ [⟨pool, r, d⟩] } d' = s.locked d' := rfl
    rw [hfile, h.file d']
    simp only [hcount, LeasePc.keeps_spawning, LeasePc.keeps_ended, Bool.toNat_false]
    omega
  · intro task htask r' d' hpc
    rw [unleased_iff]
    intro lease hlease hpool
    rcases List.mem_append.mp hlease with hin | hnew
    · exact unleased_iff.mp (h.waits task htask r' d' hpc) lease hin hpool
    · rw [List.mem_singleton.mp hnew] at hpool
      obtain ⟨j, hj⟩ := List.mem_iff_getElem?.mp htask
      have hij : i = j := eq_of_countP_le_one _ (h.guard pool) hi hj (by simp [hasGuard, LeasePc.guarded])
        (by simp [hasGuard, LeasePc.guarded, hpc, ← hpool])
      subst hij
      rw [hi] at hj
      obtain rfl := Option.some.inj hj
      cases hpc

/-- A lease is taken out of its pool to be closed. -/
theorem Exclusive.popped (h : Exclusive s) {i pool : ℕ} {r : String} {lease : BrowserLease}
    (hi : s.tasks[i]? = some ⟨pool, .popping r⟩) (hin : lease ∈ s.leases) :
    Exclusive (setTask i pool ({ s with leases := s.leases.erase lease }, .closing lease.profile)) := by
  have hcount : ∀ d', (s.leases.erase lease).countP (leased d') + (decide (lease.profile = d')).toNat =
      s.leases.countP (leased d') := by
    intro d'
    rw [(List.perm_cons_erase hin).countP_eq, List.countP_cons]
    cases hp : leased d' lease <;> simp_all [leased]
  refine h.of_task hi rfl (by simp [LeasePc.guarded]) ?_ ?_ ?_ (by simp)
  · intro d'
    have hslot := h.slot d'
    have hc := hcount d'
    simp only [LeasePc.keeps_popping, LeasePc.keeps_closing, LeasePc.writes_popping,
      LeasePc.writes_closing, Bool.toNat_false]
    omega
  · intro d'
    have hc := hcount d'
    have hfile : locked { s with leases := s.leases.erase lease } d' = s.locked d' := rfl
    rw [hfile, h.file d']
    simp only [LeasePc.keeps_popping, LeasePc.keeps_closing, Bool.toNat_false]
    omega
  · intro task htask r' d' hpc
    rw [unleased_iff]
    intro lease' hlease' hpool
    exact unleased_iff.mp (h.waits task htask r' d' hpc) lease' (List.mem_of_mem_erase hlease') hpool

/-- **A step that respects the condition keeps the invariant.** -/
theorem Exclusive.advance (h : Exclusive s) {i pool : ℕ} {pc pc' : LeasePc}
    (hi : s.tasks[i]? = some ⟨pool, pc⟩) (hok : s.exclusive (.advance i) = true)
    (hs : s.advance pool pc = some (s', pc')) : Exclusive (setTask i pool (s', pc')) := by
  simp only [exclusive, hi] at hok
  cases pc with
  | entering r d =>
      simp only [Pools.advance] at hs
      split_ifs at hs with hguard hlease
      · obtain ⟨rfl, rfl⟩ := Prod.mk.inj (Option.some.inj hs)
        exact h.goto hi (by simp [LeasePc.guarded]) (fun _ => rfl) (fun _ => rfl) (by simp)
      · obtain ⟨rfl, rfl⟩ := Prod.mk.inj (Option.some.inj hs)
        refine h.goto hi (fun _ => .inr (by simpa using hguard)) (fun _ => rfl) (fun _ => rfl) ?_
        intro r' d' heq
        obtain ⟨rfl, rfl⟩ := LeasePc.polling.inj heq
        simpa [hlease] using hok
  | polling r d =>
      simp only [Pools.advance] at hs
      split_ifs at hs with hlocked
      obtain ⟨rfl, rfl⟩ := Prod.mk.inj (Option.some.inj hs)
      exact h.passed hi hlocked (by simpa [hlocked] using hok)
  | writing r d =>
      obtain ⟨rfl, rfl⟩ := Prod.mk.inj (Option.some.inj hs)
      exact h.written hi
  | spawning r d =>
      obtain ⟨rfl, rfl⟩ := Prod.mk.inj (Option.some.inj hs)
      exact h.recorded hi
  | popping r =>
      simp only [Pools.advance] at hs
      split_ifs at hs
      split at hs
      · obtain ⟨rfl, rfl⟩ := Prod.mk.inj (Option.some.inj hs)
        exact h.goto hi (by simp [LeasePc.guarded]) (fun _ => rfl) (fun _ => rfl) (by simp)
      next lease hlease =>
        obtain ⟨rfl, rfl⟩ := Prod.mk.inj (Option.some.inj hs)
        exact h.popped hi (List.mem_of_find?_eq_some hlease)
  | closing d =>
      obtain ⟨rfl, rfl⟩ := Prod.mk.inj (Option.some.inj hs)
      refine h.unlinked hi (by simp) ?_
      intro d' hd
      exact ⟨by simp [Ne.symm hd], rfl⟩
  | ended => cases hs

/-- **A failed or cancelled task keeps the invariant.** -/
theorem Exclusive.fail (h : Exclusive s) {i pool : ℕ} {pc pc' : LeasePc}
    (hi : s.tasks[i]? = some ⟨pool, pc⟩) (hs : s.fail pc = some (s', pc')) :
    Exclusive (setTask i pool (s', pc')) := by
  cases pc with
  | entering r d | polling r d | popping r =>
      obtain ⟨rfl, rfl⟩ := Prod.mk.inj (Option.some.inj hs)
      exact h.goto hi (by simp [LeasePc.guarded]) (fun _ => rfl) (fun _ => rfl) (by simp)
  | writing r d =>
      obtain ⟨rfl, rfl⟩ := Prod.mk.inj (Option.some.inj hs)
      refine h.unlinked hi (by simp) ?_
      intro d' hd
      exact ⟨rfl, by simp [Ne.symm hd]⟩
  | spawning r d =>
      obtain ⟨rfl, rfl⟩ := Prod.mk.inj (Option.some.inj hs)
      refine h.unlinked hi (by simp) ?_
      intro d' hd
      exact ⟨by simp [Ne.symm hd], rfl⟩
  | closing d => cases hs
  | ended => cases hs

/-- A new task has nothing. -/
theorem Exclusive.spawn (h : Exclusive s) {task : LeaseTask} (hg : task.pc.guarded = false)
    (hk : ∀ d, task.pc.keeps d = false) (hw : ∀ d, task.pc.writes d = false) :
    Exclusive { s with tasks := s.tasks ++ [task] } := by
  refine ⟨?_, ?_, ?_, ?_⟩
  · intro pool
    have hone := h.guard pool
    have hnone : hasGuard pool task = false := by simp [hasGuard, hg]
    simp only [countP_concat_toNat, hnone, Bool.toNat_false]
    omega
  · intro d
    have hslot := h.slot d
    simp only [countP_concat_toNat, hk, hw, Bool.toNat_false]
    omega
  · intro d
    simp only [countP_concat_toNat, hk, Bool.toNat_false]
    exact h.file d
  · intro task' htask r d hpc
    rcases List.mem_append.mp htask with hin | hnew
    · exact h.waits task' hin r d hpc
    · rw [List.mem_singleton.mp hnew] at hpc
      rw [hpc] at hg
      cases hg

theorem Exclusive.step (h : Exclusive s) {m : PoolMove} (hok : s.exclusive m = true)
    (hs : poolStep s m = some s') : Exclusive s' := by
  cases m with
  | acquire pool r d =>
      obtain rfl := Option.some.inj hs
      exact h.spawn rfl (fun _ => rfl) (fun _ => rfl)
  | release pool r =>
      obtain rfl := Option.some.inj hs
      exact h.spawn rfl (fun _ => rfl) (fun _ => rfl)
  | advance i =>
      simp only [poolStep] at hs
      split at hs
      · cases hs
      next task hi =>
        obtain ⟨out, hout, rfl⟩ := Option.map_eq_some_iff.mp hs
        exact h.advance hi hok hout
  | fail i =>
      simp only [poolStep] at hs
      split at hs
      · cases hs
      next task hi =>
        obtain ⟨out, hout, rfl⟩ := Option.map_eq_some_iff.mp hs
        exact h.fail hi hout

/-- A task waits, with the `_guard` of its pool, for the lock file of a lease of the pool. -/
def blocksItself (s : Pools) : Prop :=
  ∃ task ∈ s.tasks, ∃ r d, task.pc = .polling r d ∧ s.locked d = true ∧
    ∃ lease ∈ s.leases, lease.pool = task.pool ∧ lease.profile = d

/-- What the lock files are for: one lease per profile, its lock file is there, and no task blocks the
release it waits for. -/
structure ProfilesExclusive (s : Pools) : Prop where
  one : ∀ d, s.live d ≤ 1
  locked : ∀ d, 0 < s.live d → s.locked d = true
  unblocked : ¬s.blocksItself

/-- **One lease per profile, without self-blocking.**  If no run waits for a profile that a run of its
own pool has, and no task passes the check for a lock file while another is about to write it, then
the profiles are exclusive in every state. -/
theorem profile_exclusion
    (h : ReachesVia poolStep (fun s m => s.exclusive m = true) {} s) : s.ProfilesExclusive := by
  have hinv : Exclusive s := by
    refine h.invariant ⟨?_, ?_, ?_, ?_⟩ fun _ _ _ _ hok hi hs => hi.step hok hs
    all_goals simp [Pools.locked]
  have hlive : ∀ d, s.live d ≤ s.leases.countP (leased d) + s.tasks.countP (·.pc.keeps d) := by
    intro d
    have hclosing : s.tasks.countP (·.pc = .closing d) ≤ s.tasks.countP (·.pc.keeps d) := by
      refine List.countP_mono_left fun task _ hpc => ?_
      rw [of_decide_eq_true hpc]
      simp
    exact Nat.add_le_add_left hclosing _
  refine ⟨?_, ?_, ?_⟩
  · intro d
    have hslot := hinv.slot d
    have hle := hlive d
    omega
  · intro d hpos
    have hle := hlive d
    rw [hinv.file d]
    omega
  · rintro ⟨task, htask, r, d, hpc, -, lease, hlease, hpool, hprofile⟩
    exact unleased_iff.mp (hinv.waits task htask r d hpc) lease hlease hpool hprofile

end Pools

/-! ### Two runs of one workspace -/

/-- A run acquires a lease, from start to end. -/
def leaseFor (pool : ℕ) (runId : String) (i : ℕ) : List PoolMove :=
  .acquire pool runId "t/w" :: List.replicate 4 (.advance i)

/-- The second task waits under the `_guard` for the lease of the first run, whose release waits for
the `_guard`. -/
def stuckRelease (s : Pools) : Bool :=
  s.tasks = [⟨0, .ended⟩, ⟨0, .polling "b" "t/w"⟩, ⟨0, .popping "a"⟩] && s.locked "t/w" &&
    s.leases = [⟨0, "a", "t/w"⟩]

/-- Two runs of one workspace: the second one waits for a release that it keeps from happening. -/
theorem second_run_blocks_release :
    ∃ s, Lib.Reaches poolStep {} s ∧ poolStep s (.advance 2) = none ∧ ¬s.ProfilesExclusive := by
  obtain ⟨s, hs, hp⟩ := Lib.exists_reaches_of_run poolStep
    (leaseFor 0 "a" 0 ++ [.acquire 0 "b" "t/w", .advance 1, .release 0 "a"]) {} stuckRelease
    (by decide +kernel)
  simp only [stuckRelease, Bool.and_eq_true, decide_eq_true_eq] at hp
  obtain ⟨⟨htasks, hlocked⟩, hleases⟩ := hp
  refine ⟨s, hs, ?_, fun h => h.unblocked ?_⟩
  · simp [poolStep, htasks, Pools.advance, Pools.guardFree, LeasePc.guarded]
  · refine ⟨⟨0, .polling "b" "t/w"⟩, ?_, "b", "t/w", rfl, hlocked, ⟨0, "a", "t/w"⟩, ?_, rfl, rfl⟩
    · rw [htasks]
      simp
    · rw [hleases]
      simp

/-- The lease of the second process. -/
def handedOver (s : Pools) : Bool := s.leases = [⟨1, "b", "t/w"⟩]

/-- Two processes, one after the other: the second waits until the first has released the profile. -/
theorem profile_handed_over : ∃ s,
    Lib.ReachesVia poolStep (fun s m => s.exclusive m = true) {} s ∧ s.leases = [⟨1, "b", "t/w"⟩] ∧
      s.ProfilesExclusive := by
  obtain ⟨s, hs, hp⟩ := Lib.exists_reachesVia_of_run poolStep Pools.exclusive
    (leaseFor 0 "a" 0 ++ [.acquire 1 "b" "t/w", .advance 1, .release 0 "a", .advance 2, .advance 2] ++
      List.replicate 3 (.advance 1)) {} handedOver (by decide +kernel)
  exact ⟨s, hs, of_decide_eq_true hp, Pools.profile_exclusion hs⟩

end JAgent
