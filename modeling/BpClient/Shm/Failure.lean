import Mathlib.Data.List.TakeWhile
import BpClient.Shm.Resources

/-!
A client whose open or reconnect has failed: when the API calls on it keep away
from what it does not have, and return the errors of the SDK.
-/

namespace BpClient.Shm

open BpClient.Lib
open BpClient.Slot (Sdk pendingErrorBits)

/-- One of `shm_open`, `mmap` and the `sem_open`s fails. -/
def OpenEnv.Fails (env : OpenEnv) : Prop :=
  env.fd = none ∨ env.mmap = false ∨ env.missing.isSome

/-- The open comes as far as the semaphores of slot `i`, and one of them fails. -/
def OpenEnv.StopsAt (env : OpenEnv) (i : Fin slotCount) : Prop :=
  env.fd.isSome ∧ env.mmap = true ∧ (env.missing = some (.req i) ∨ env.missing = some (.resp i))

/-- The open stops at a slot after the one that a call gets, if it gets one. -/
def OpenEnv.StopsAfter (env : OpenEnv) (call : CallEnv) : Prop :=
  ∃ i, env.StopsAt i ∧ (call.wait = true → ∀ j ∈ call.firstFree, j < i)

/-- What an open must not meet: in C, at the failure of a semaphore of slot `i`,
a first free slot from `i` on; in Go, a failing `sem_open` when the file
descriptor is 0. -/
def SafeOpen (env : OpenEnv) (session : CallEnv) : Sdk → Prop
  | .c => ∀ i, env.StopsAt i → session.wait = true → ∀ j ∈ session.firstFree, j < i
  | .go => env.fd = some 0 → env.mmap = true → env.missing = none
  | .python => True

/-- What an API call must not meet. After a failed reconnect a call in Python
never has what it needs. A call in C or Go has it if the reconnect stopped at a
slot after the one that the call gets, and then must not get an answer without
an errorcode. -/
def Safe (sdk : Sdk) (s : State) : Label → Prop
  | .open env session => s.phase ≠ .up → SafeOpen env session sdk
  | .call env => ∀ met ∈ s.phase.failed, sdk ≠ .python ∧ met.StopsAfter env ∧
      (env.wait = true → env.firstFree.isSome → env.post = true → env.errorcode ≠ 0)
  | .close pools session => ∀ met ∈ s.phase.failed, sdk = .python ∨
      ∀ env ∈ pools ++ [session], met.StopsAfter env
  | .reconnect pools _ => ∀ met ∈ s.phase.failed, sdk = .python ∨
      ∀ env ∈ pools, met.StopsAfter env

instance (env : OpenEnv) (i : Fin slotCount) : Decidable (env.StopsAt i) :=
  inferInstanceAs (Decidable (_ ∧ _ ∧ _))

instance (env : OpenEnv) (call : CallEnv) : Decidable (env.StopsAfter call) :=
  inferInstanceAs (Decidable (∃ i, env.StopsAt i ∧ (_ → ∀ j ∈ call.firstFree, j < i)))

instance (env : OpenEnv) (session : CallEnv) : (sdk : Sdk) → Decidable (SafeOpen env session sdk)
  | .c => inferInstanceAs (Decidable (∀ i, _ → _ → ∀ j ∈ session.firstFree, j < i))
  | .go => inferInstanceAs (Decidable (_ → _ → _))
  | .python => inferInstanceAs (Decidable True)

instance (sdk : Sdk) (s : State) : (l : Label) → Decidable (Safe sdk s l)
  | .open env session => inferInstanceAs (Decidable (_ → SafeOpen env session sdk))
  | .call env =>
      inferInstanceAs (Decidable (∀ met ∈ s.phase.failed, _ ∧ met.StopsAfter env ∧ (_ → _ → _ → _)))
  | .close pools session => inferInstanceAs
      (Decidable (∀ met ∈ s.phase.failed, _ ∨ ∀ env ∈ pools ++ [session], met.StopsAfter env))
  | .reconnect pools _ =>
      inferInstanceAs (Decidable (∀ met ∈ s.phase.failed, _ ∨ ∀ env ∈ pools, met.StopsAfter env))

/-- The semaphores that an IPC call comes to are there: the lock, and those of
the first free slot if it gets so far. -/
def Ipc.Serves (ipc : Ipc) (env : CallEnv) : Prop :=
  ipc.sems .lock = true ∧
    (env.wait = true → ∀ i ∈ env.firstFree, ipc.sems (.req i) = true ∧ ipc.sems (.resp i) = true)

section Ipc

variable {sdk : Sdk} {ipc : Ipc} {missing : Option SemId} {id : SemId} {env : CallEnv}

theorem openSems_fields (missing : Option SemId) (ids : List SemId) (ipc : Ipc) :
    (openSems missing ids ipc).1.fd = ipc.fd ∧ (openSems missing ids ipc).1.shm = ipc.shm := by
  induction ids generalizing ipc with
  | nil => exact ⟨rfl, rfl⟩
  | cons x ids ih =>
      unfold openSems
      split
      · exact ⟨rfl, rfl⟩
      · exact ih _

/-- The semaphores before the one that fails are there. -/
theorem openSems_sems (missing : Option SemId) (ids : List SemId) (ipc : Ipc) (id : SemId) :
    (openSems missing ids ipc).1.sems id = true ↔
      ipc.sems id = true ∨ id ∈ ids.takeWhile fun x => missing ≠ some x := by
  induction ids generalizing ipc with
  | nil => simp [openSems]
  | cons x ids ih =>
      unfold openSems
      split
      · next heq => simp [heq]
      · next hne =>
          rw [ih, List.takeWhile_cons_of_pos (by simpa using hne), List.mem_cons]
          simp only [Ipc.add, Function.update_apply]
          split
          · next heq => simp [heq]
          · next hid => simp [hid]

theorem openSems_snd (missing : Option SemId) (ids : List SemId) (ipc : Ipc) :
    (openSems missing ids ipc).2 = true ↔ ∀ x ∈ ids, missing ≠ some x := by
  induction ids generalizing ipc with
  | nil => simp [openSems]
  | cons x ids ih =>
      unfold openSems
      split
      · next heq => simp [heq]
      · next hne => simp [ih, hne]

theorem mem_slotSems (hid : id ≠ .lock) : id ∈ slotSems := by
  cases id with
  | lock => exact absurd rfl hid
  | req i => exact List.mem_flatMap.mpr ⟨i, List.mem_finRange i, by simp⟩
  | resp i => exact List.mem_flatMap.mpr ⟨i, List.mem_finRange i, by simp⟩

theorem lock_not_mem_slotSems : SemId.lock ∉ slotSems := by decide

/-- When a semaphore of slot `i` fails, the slots before `i` have both. -/
theorem before_missing (i j : Fin slotCount)
    (hm : missing = some (.req i) ∨ missing = some (.resp i)) :
    (SemId.req j ∈ slotSems.takeWhile (fun x => missing ≠ some x) ∧
      SemId.resp j ∈ slotSems.takeWhile (fun x => missing ≠ some x)) ↔ j < i := by
  rcases hm with rfl | rfl
  · revert i j
    decide +kernel
  · revert i j
    decide +kernel

/-- The semaphores of a client for which all have been opened. -/
theorem openSems_all (hlock : missing ≠ some .lock)
    (hopened : (openSems missing slotSems (ipc.add .lock)).2 = true) :
    missing = none ∧ ∀ id, (openSems missing slotSems (ipc.add .lock)).1.sems id = true := by
  rw [openSems_snd] at hopened
  have hnone : missing = none := by
    cases hm : missing with
    | none => rfl
    | some id =>
        have hid : id ≠ .lock := fun h => hlock (by rw [hm, h])
        exact absurd hm (hopened id (mem_slotSems hid))
  refine ⟨hnone, fun id => ?_⟩
  rw [openSems_sems]
  by_cases hid : id = .lock
  · exact .inl (by simp [Ipc.add, hid])
  · have hwhole : slotSems.takeWhile (fun x => missing ≠ some x) = slotSems :=
      List.takeWhile_eq_self_iff.mpr (by simp [hnone])
    rw [hwhole]
    exact .inr (mem_slotSems hid)

/-- The semaphores of a client for which one of slot `i` could not be opened. -/
theorem openSems_slot (hopened : (openSems missing slotSems (ipc.add .lock)).2 = false)
    (hnone : ipc.sems = Ipc.none.sems) :
    ∃ i, (missing = some (.req i) ∨ missing = some (.resp i)) ∧
      (openSems missing slotSems (ipc.add .lock)).1.sems .lock = true ∧
      ∀ j, ((openSems missing slotSems (ipc.add .lock)).1.sems (.req j) = true ∧
        (openSems missing slotSems (ipc.add .lock)).1.sems (.resp j) = true) ↔ j < i := by
  have hslot : ∃ i, missing = some (.req i) ∨ missing = some (.resp i) := by
    have hfails : ¬∀ x ∈ slotSems, missing ≠ some x := by
      rw [← openSems_snd missing slotSems (ipc.add .lock), hopened]
      simp
    push Not at hfails
    obtain ⟨x, hx, hm⟩ := hfails
    cases x with
    | lock => exact absurd hx lock_not_mem_slotSems
    | req i => exact ⟨i, .inl hm⟩
    | resp i => exact ⟨i, .inr hm⟩
  obtain ⟨i, hm⟩ := hslot
  refine ⟨i, hm, ?_, fun j => ?_⟩
  · rw [openSems_sems]
    exact .inl (by simp [Ipc.add])
  · rw [openSems_sems, openSems_sems, ← before_missing i j hm]
    simp [Ipc.add, hnone, Ipc.none]

theorem openIpc_mapped {env : OpenEnv} {fd : Nat} (hfd : env.fd = some fd)
    (hmap : env.mmap = true) : openIpc env =
      if env.missing = some .lock then .noLock ⟨some fd, true, Ipc.none.sems⟩
      else
        let mapped : Ipc := ⟨some fd, true, Ipc.none.sems⟩
        let opened := openSems env.missing slotSems (mapped.add .lock)
        if opened.2 then .all opened.1 else .noSlot opened.1 := by
  unfold openIpc
  rw [hfd, hmap]
  rfl

theorem OpenEnv.StopsAt.unique {env : OpenEnv} {i j : Fin slotCount} (hi : env.StopsAt i)
    (hj : env.StopsAt j) : i = j := by
  obtain ⟨-, -, hi⟩ := hi
  obtain ⟨-, -, hj⟩ := hj
  rcases hi with hi | hi
  · simpa [hi, eq_comm] using hj
  · simpa [hi, eq_comm] using hj

/-- What a client holds whose open has stopped at the semaphores of slot `i`. -/
theorem serves_iff_stopsAfter {met : OpenEnv} {i : Fin slotCount} (hstop : met.StopsAt i)
    (hlock : ipc.sems .lock = true)
    (hslots : ∀ j, (ipc.sems (.req j) = true ∧ ipc.sems (.resp j) = true) ↔ j < i) :
    ipc.Serves env ↔ met.StopsAfter env := by
  simp only [Ipc.Serves, hlock, hslots, true_and]
  constructor
  · intro h
    exact ⟨i, hstop, h⟩
  · rintro ⟨k, hk, h⟩
    rwa [hstop.unique hk]

/-- A client without the lock is none whose open has come to the slots. -/
theorem serves_iff_of_no_lock {met : OpenEnv} (hstop : ∀ i, ¬met.StopsAt i)
    (hlock : ipc.sems .lock = false) : ipc.Serves env ↔ met.StopsAfter env := by
  simp [Ipc.Serves, OpenEnv.StopsAfter, hlock, hstop]

theorem not_stopsAt_of_nothing {env : OpenEnv} (h : env.fd = none ∨ env.mmap = false)
    (i : Fin slotCount) : ¬env.StopsAt i := by
  rintro ⟨hfd, hmap, -⟩
  rcases h with h | h
  · simp [h] at hfd
  · simp [h] at hmap

/-- How an open ends, by what has failed. -/
theorem openIpc_cases (env : OpenEnv) :
    (openIpc env = .nothing ∧ (env.fd = none ∨ env.mmap = false)) ∨
      ∃ fd, env.fd = some fd ∧ env.mmap = true ∧
        ((∃ ipc, openIpc env = .noLock ipc ∧ env.missing = some .lock ∧ ipc.fd = some fd ∧
            ipc.sems .lock = false) ∨
          (∃ ipc i, openIpc env = .noSlot ipc ∧ env.StopsAt i ∧ ipc.fd = some fd ∧
            ipc.shm = true ∧ ipc.sems .lock = true ∧
            ∀ j, (ipc.sems (.req j) = true ∧ ipc.sems (.resp j) = true) ↔ j < i) ∨
          ∃ ipc, openIpc env = .all ipc ∧ env.missing = none ∧ ipc.shm = true ∧
            ∀ id, ipc.sems id = true) := by
  cases hfd : env.fd with
  | none => exact .inl ⟨by rw [openIpc, hfd], .inl rfl⟩
  | some fd =>
      cases hmap : env.mmap with
      | false => exact .inl ⟨by simp [openIpc, hfd, hmap], .inr rfl⟩
      | true =>
          refine .inr ⟨fd, rfl, rfl, ?_⟩
          have hopen := openIpc_mapped hfd hmap
          by_cases hlock : env.missing = some .lock
          · rw [if_pos hlock] at hopen
            exact .inl ⟨_, hopen, hlock, rfl, rfl⟩
          · rw [if_neg hlock] at hopen
            obtain ⟨hkeepFd, hkeepShm⟩ := openSems_fields env.missing slotSems
              ((⟨some fd, true, Ipc.none.sems⟩ : Ipc).add .lock)
            cases hopened : (openSems env.missing slotSems
              ((⟨some fd, true, Ipc.none.sems⟩ : Ipc).add .lock)).2 with
            | true =>
                obtain ⟨hnone, hsems⟩ := openSems_all hlock hopened
                rw [if_pos hopened] at hopen
                exact .inr (.inr ⟨_, hopen, hnone, hkeepShm, hsems⟩)
            | false =>
                obtain ⟨i, hm, hkeepLock, hsems⟩ := openSems_slot hopened rfl
                rw [if_neg (by simp [hopened])] at hopen
                exact .inr (.inl ⟨_, i, hopen, ⟨by simp [hfd], hmap, hm⟩, hkeepFd, hkeepShm,
                  hkeepLock, hsems⟩)

end Ipc

/-- What a client holds in each phase. -/
structure Inv (sdk : Sdk) (s : State) : Prop where
  up : s.phase = .up → s.ipc.shm = true ∧ ∀ id, s.ipc.sems id = true
  mapped : s.ipc.sems .lock = true → s.ipc.shm = true
  python : sdk = .python → s.phase ≠ .up → s.phase ≠ .dead → s.ipc = .none
  serves : sdk ≠ .python → ∀ met ∈ s.phase.failed, ∀ env, s.ipc.Serves env ↔ met.StopsAfter env

section Steps

variable {sdk : Sdk} {s s' : State} {l : Label}

@[simp] theorem release_none (hsdk : sdk ≠ .go) (ipc : Ipc) : ipc.release sdk = .none := by
  simp [Ipc.release, hsdk, Ipc.none]

theorem Inv.die (hinv : Inv sdk s) (f : Fault) : Inv sdk (s.die f) where
  up := fun hup => by cases hup
  mapped := hinv.mapped
  python := fun _ _ hdead => absurd rfl hdead
  serves := fun _ met hmet => by cases hmet

theorem Inv.returns {phase : Phase} (hinv : Inv sdk s) (hphase : s.phase = phase) (r : Outcome) :
    Inv sdk ⟨s.ipc, phase, r⟩ := by
  subst hphase
  exact ⟨hinv.up, hinv.mapped, hinv.python, hinv.serves⟩

/-- A client all of whose resources have been released. -/
theorem Inv.released (ipc : Ipc) {phase : Phase} (hphase : phase ≠ .up)
    (hstop : sdk ≠ .python → ∀ met ∈ phase.failed, ∀ i, ¬met.StopsAt i) (r : Outcome) :
    Inv sdk ⟨ipc.release sdk, phase, r⟩ where
  up := fun hup => absurd hup hphase
  mapped := fun hlock => by simp [Ipc.release, Ipc.none] at hlock
  python := fun hsdk _ _ => release_none (by simp [hsdk]) ipc
  serves := fun hsdk met hmet _ => serves_iff_of_no_lock (hstop hsdk met hmet) rfl

theorem Inv.opened {ipc : Ipc} (hshm : ipc.shm = true) (hall : ∀ id, ipc.sems id = true)
    (r : Outcome) : Inv sdk ⟨ipc, .up, r⟩ where
  up := fun _ => ⟨hshm, hall⟩
  mapped := fun _ => hshm
  python := fun _ hup => absurd rfl hup
  serves := fun _ met hmet => by cases hmet

/-- Only Python opens a client again whose reconnect has failed. -/
theorem Inv.openClient (hinv : Inv sdk s) (hphase : s.phase ≠ .up)
    (hdown : sdk ≠ .python → s.phase.failed = none) (env : OpenEnv) (session : CallEnv) :
    Inv sdk (openClient sdk s env session) := by
  have hstop : sdk ≠ .python → ∀ met ∈ s.phase.failed, ∀ i, ¬met.StopsAt i := by
    intro hsdk met hmet
    rw [hdown hsdk] at hmet
    cases hmet
  unfold BpClient.Shm.openClient
  rcases openIpc_cases env with ⟨hopen, -⟩ | ⟨fd, -, -,
    ⟨ipc, hopen, -⟩ | ⟨ipc, i, hopen, -⟩ | ⟨ipc, hopen, -, hshm, hall⟩⟩
  all_goals simp only [hopen]
  · exact ⟨fun hup => absurd hup hphase, fun hlock => by simp [Ipc.none] at hlock,
      fun _ _ _ => rfl, fun hsdk met hmet _ => serves_iff_of_no_lock (hstop hsdk met hmet) rfl⟩
  · exact .released ipc hphase hstop _
  · split
    · exact hinv.die _
    · exact .released ipc hphase hstop _
  · exact .opened hshm hall _

theorem Inv.closeClient (hinv : Inv sdk s) (pools : List CallEnv) (session : CallEnv) :
    Inv sdk (closeClient sdk s pools session) := by
  unfold BpClient.Shm.closeClient
  split
  · exact hinv.die _
  · exact .released _ (by simp) (by simp) _

/-- A failed reconnect leaves C and Go with what it has got, the mapping first. -/
theorem Inv.reconnectClient (hinv : Inv sdk s) (pools : List CallEnv) (env : OpenEnv) :
    Inv sdk (reconnectClient sdk s pools env) := by
  unfold BpClient.Shm.reconnectClient
  split
  · exact hinv.die _
  · rcases openIpc_cases env with ⟨hopen, hfails⟩ | ⟨fd, -, -,
      ⟨ipc, hopen, hm, -, hlock⟩ | ⟨ipc, i, hopen, hstop, -, hshm, hlock, hslots⟩ |
        ⟨ipc, hopen, -, hshm, hall⟩⟩
    all_goals simp only [hopen]
    · exact .released _ (by simp) (by simpa using fun _ => not_stopsAt_of_nothing hfails) _
    · have hnone : ∀ i, ¬env.StopsAt i := by simp [OpenEnv.StopsAt, hm]
      split
      · exact .released ipc (by simp) (by simpa using fun _ => hnone) _
      · next hsdk =>
          refine ⟨by simp, fun h => by simp [hlock] at h, fun h => absurd h hsdk, ?_⟩
          rintro - met ⟨⟩ call
          exact serves_iff_of_no_lock hnone hlock
    · split
      · next hsdk => exact .released ipc (by simp) (by simp [hsdk]) _
      · next hsdk =>
          refine ⟨by simp, fun _ => hshm, fun h => absurd h hsdk, ?_⟩
          rintro - met ⟨⟩ call
          exact serves_iff_stopsAfter hstop hlock hslots
    · exact .opened hshm hall _

/-- Every API call keeps what a client holds in its phase. -/
theorem Inv.step (hinv : Inv sdk s) (hstep : step sdk s l = some s') : Inv sdk s' := by
  cases l with
  | «open» env session =>
      cases hphase : s.phase <;> simp only [BpClient.Shm.step, hphase, Option.ite_none_right_eq_some,
        Option.some_inj, reduceCtorEq] at hstep
      · exact hstep ▸ hinv.openClient (by simp [hphase]) (by simp [hphase]) env session
      · exact hstep.2 ▸ hinv.returns hphase _
      · exact hstep.2 ▸ hinv.openClient (by simp [hphase]) (absurd hstep.1) env session
  | call env =>
      cases hphase : s.phase <;> simp only [BpClient.Shm.step, hphase, Option.some_inj,
        reduceCtorEq] at hstep
      · exact hstep ▸ hinv.returns rfl _
      all_goals
        subst hstep
        split
        · exact hinv.die _
        · exact hinv.returns hphase _
  | close pools session =>
      cases hphase : s.phase <;> simp only [BpClient.Shm.step, hphase, Option.some_inj,
        reduceCtorEq] at hstep
      · exact hstep ▸ hinv.returns hphase _
      all_goals exact hstep ▸ hinv.closeClient pools session
  | reconnect pools env =>
      cases hphase : s.phase <;> simp only [BpClient.Shm.step, hphase, Option.some_inj,
        reduceCtorEq] at hstep
      · split at hstep
        · exact Option.some_inj.mp hstep ▸ hinv.reconnectClient pools env
        · exact Option.some_inj.mp hstep ▸ hinv.returns rfl _
      all_goals exact hstep ▸ hinv.reconnectClient pools env

end Steps

end BpClient.Shm
