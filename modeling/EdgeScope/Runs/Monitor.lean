import Mathlib.Data.List.Basic
import Mathlib.Tactic.Common

/-!
# Monitors

A lock, a condition variable, and any number of threads that each go through a section of code
under the lock. A section begins with a wait for a condition on the shared data, and may end with
a call that wakes all threads that wait. A wait may also end without such a call. The data change
in steps, and every order of the steps of the threads that the lock allows is a run.
-/

namespace EdgeScope.Runs

variable {σ ρ : Type*}

/-- What a thread does with the shared data and a result of its own. The wait is for `ready`, and
one that is `timed` can also end after a time. -/
structure Section (σ ρ : Type*) where
  ready : σ → Bool
  timed : Bool
  body : List (σ × ρ → σ × ρ)
  notifies : Bool

def finish (steps : List (σ × ρ → σ × ρ)) (data : σ × ρ) : σ × ρ :=
  steps.foldl (fun data f => f data) data

def Section.atomic (c : Section σ ρ) (data : σ × ρ) : σ × ρ := finish c.body data

/-- Where a thread is: about to take the lock, holding it and about to test the condition, waiting,
in the body with the steps that are left, having released the lock and about to notify, and done.
`expired` says that the time of the wait is over. -/
inductive Phase (σ ρ : Type*)
  | locking (c : Section σ ρ) (result : ρ) (expired : Bool)
  | testing (c : Section σ ρ) (result : ρ) (expired : Bool)
  | asleep (c : Section σ ρ) (result : ρ)
  | running (c : Section σ ρ) (rest : List (σ × ρ → σ × ρ)) (result : ρ)
  | notifying (result : ρ)
  | returned (result : ρ)

structure Monitor (σ ρ : Type*) where
  shared : σ
  owner : Option ℕ
  threads : List (Phase σ ρ)

/-- One step of a thread. Only the last kind of step is not its own. -/
inductive Move
  | lock (i : ℕ)
  | test (i : ℕ)
  | advance (i : ℕ)
  | notify (i : ℕ)
  | wake (i : ℕ) (expired : Bool)
  deriving DecidableEq, Repr

def Move.isWake : Move → Bool
  | .wake _ _ => true
  | _ => false

def Phase.notified : Phase σ ρ → Phase σ ρ
  | .asleep c result => .locking c result false
  | p => p

namespace Monitor

def put (m : Monitor σ ρ) (shared : σ) (owner : Option ℕ) (i : ℕ) (p : Phase σ ρ) :
    Monitor σ ρ :=
  ⟨shared, owner, m.threads.set i p⟩

def wakeAll (m : Monitor σ ρ) : Monitor σ ρ :=
  { m with threads := m.threads.map Phase.notified }

/-- A wait that is not timed does not expire, but may end without a notification. -/
def step (move : Move) (m : Monitor σ ρ) : Option (Monitor σ ρ) :=
  match move with
  | .lock i =>
    match m.threads[i]?, m.owner with
    | some (.locking c result expired), none =>
      some (m.put m.shared (some i) i (.testing c result expired))
    | _, _ => none
  | .test i =>
    match m.threads[i]? with
    | some (.testing c result expired) =>
      if c.ready m.shared || expired then
        some (m.put m.shared m.owner i (.running c c.body result))
      else some (m.put m.shared none i (.asleep c result))
    | _ => none
  | .advance i =>
    match m.threads[i]? with
    | some (.running c (f :: rest) result) =>
      let (shared, result) := f (m.shared, result)
      some (m.put shared m.owner i (.running c rest result))
    | some (.running c [] result) =>
      some (m.put m.shared none i (if c.notifies then .notifying result else .returned result))
    | _ => none
  | .notify i =>
    match m.threads[i]? with
    | some (.notifying result) =>
      some (m.wakeAll.put m.shared m.owner i (.returned result))
    | _ => none
  | .wake i expired =>
    match m.threads[i]? with
    | some (.asleep c result) =>
      if expired && !c.timed then none
      else some (m.put m.shared m.owner i (.locking c result expired))
    | _ => none

def enter (m : Monitor σ ρ) (c : Section σ ρ) (result : ρ) : Monitor σ ρ :=
  { m with threads := m.threads ++ [.locking c result false] }

def again (m : Monitor σ ρ) (i : ℕ) (c : Section σ ρ) (result : ρ) : Monitor σ ρ :=
  m.put m.shared m.owner i (.locking c result false)

inductive Steps (m : Monitor σ ρ) : Move → Monitor σ ρ → Prop
  | lock {i c result expired} (h : m.threads[i]? = some (.locking c result expired))
      (howner : m.owner = none) :
      Steps m (.lock i) (m.put m.shared (some i) i (.testing c result expired))
  | pass {i c result expired} (h : m.threads[i]? = some (.testing c result expired))
      (hready : c.ready m.shared = true ∨ expired = true) :
      Steps m (.test i) (m.put m.shared m.owner i (.running c c.body result))
  | sleep {i c result} (h : m.threads[i]? = some (.testing c result false))
      (hready : c.ready m.shared = false) :
      Steps m (.test i) (m.put m.shared none i (.asleep c result))
  | write {i c f rest result} (h : m.threads[i]? = some (.running c (f :: rest) result)) :
      Steps m (.advance i)
        (m.put (f (m.shared, result)).1 m.owner i (.running c rest (f (m.shared, result)).2))
  | unlock {i c result} (h : m.threads[i]? = some (.running c [] result)) :
      Steps m (.advance i)
        (m.put m.shared none i (if c.notifies then .notifying result else .returned result))
  | notify {i result} (h : m.threads[i]? = some (.notifying result)) :
      Steps m (.notify i) (m.wakeAll.put m.shared m.owner i (.returned result))
  | wake {i c result expired} (h : m.threads[i]? = some (.asleep c result))
      (htimed : expired = true → c.timed = true) :
      Steps m (.wake i expired) (m.put m.shared m.owner i (.locking c result expired))

theorem step_eq_some_iff {m m' : Monitor σ ρ} {move : Move} :
    m.step move = some m' ↔ Steps m move m' := by
  constructor
  · intro h
    cases move with
    | lock i =>
      simp only [step] at h
      split at h
      · cases h
        exact .lock ‹_› ‹_›
      · cases h
    | test i =>
      simp only [step] at h
      split at h
      · rename_i c result expired hi
        split_ifs at h with hready
        · cases h
          exact .pass hi (by simpa using hready)
        · cases h
          obtain ⟨hnot, rfl⟩ : c.ready m.shared = false ∧ expired = false := by
            simpa using hready
          exact .sleep hi hnot
      · cases h
    | advance i =>
      simp only [step] at h
      split at h
      · cases h
        exact .write ‹_›
      · cases h
        exact .unlock ‹_›
      · cases h
    | notify i =>
      simp only [step] at h
      split at h
      · cases h
        exact .notify ‹_›
      · cases h
    | wake i expired =>
      simp only [step] at h
      split at h
      · split_ifs at h with htimed
        cases h
        exact .wake ‹_› (by simpa using htimed)
      · cases h
  · intro h
    cases h with
    | lock hi howner => simp only [step, hi, howner]
    | pass hi hready => simp [step, hi, hready]
    | sleep hi hready => simp [step, hi, hready]
    | write hi => simp only [step, hi]
    | unlock hi => simp only [step, hi]
    | notify hi => simp only [step, hi]
    | wake hi htimed => simpa [step, hi] using htimed

section Put

variable {m : Monitor σ ρ} {shared : σ} {owner : Option ℕ} {i j : ℕ} {p q : Phase σ ρ}

theorem put_self (h : m.threads[i]? = some q) :
    (m.put shared owner i p).threads[i]? = some p := by
  obtain ⟨hi, -⟩ := List.getElem?_eq_some_iff.mp h
  exact List.getElem?_set_self hi

theorem put_of_ne (h : i ≠ j) : (m.put shared owner i p).threads[j]? = m.threads[j]? :=
  List.getElem?_set_ne h

theorem getElem?_wakeAll : m.wakeAll.threads[j]? = m.threads[j]?.map Phase.notified :=
  List.getElem?_map

theorem wakeAll_of_notifying {result : ρ} (h : m.threads[i]? = some (.notifying result)) :
    m.wakeAll.threads[i]? = some (.notifying result) := by
  rw [getElem?_wakeAll, h]
  rfl

end Put

theorem length_steps {m m' : Monitor σ ρ} {move : Move} (h : Steps m move m') :
    m'.threads.length = m.threads.length := by
  cases h <;> simp [put, wakeAll]

end Monitor

def Phase.holds : Phase σ ρ → Bool
  | .testing _ _ _ | .running _ _ _ => true
  | _ => false

theorem Phase.holds_notified (p : Phase σ ρ) : p.notified.holds = p.holds := by
  cases p <;> rfl

theorem Phase.notified_of_holds {p : Phase σ ρ} (h : p.holds = true) : p.notified = p := by
  cases p with
  | asleep => cases h
  | _ => rfl

namespace Monitor

/-- The lock is with the one thread that is behind it. -/
def Exclusive (m : Monitor σ ρ) : Prop :=
  ∀ i, m.owner = some i ↔ ∃ p, m.threads[i]? = some p ∧ p.holds = true

namespace Exclusive

variable {m m' : Monitor σ ρ} {i j : ℕ} {p q : Phase σ ρ}

theorem owner_eq (h : m.Exclusive) (hi : m.threads[i]? = some p) (hp : p.holds = true) :
    m.owner = some i :=
  (h i).mpr ⟨p, hi, hp⟩

theorem owner_iff (h : m.Exclusive) (hi : m.threads[i]? = some p) :
    m.owner = some i ↔ p.holds = true := by
  rw [h i, hi]
  simp

theorem put (h : m.Exclusive) (hi : m.threads[i]? = some q) {owner : Option ℕ}
    (hself : owner = some i ↔ p.holds = true)
    (hothers : ∀ j, j ≠ i → (owner = some j ↔ m.owner = some j)) (shared : σ) :
    (m.put shared owner i p).Exclusive := by
  intro j
  by_cases hj : j = i
  · subst hj
    rw [put_self hi]
    exact hself.trans (by simp)
  · rw [put_of_ne (Ne.symm hj), ← h j]
    exact hothers j hj

theorem put_keeps (h : m.Exclusive) (hi : m.threads[i]? = some q) (hholds : p.holds = q.holds)
    (shared : σ) : (m.put shared m.owner i p).Exclusive :=
  h.put hi (by rw [hholds, h.owner_iff hi]) (fun _ _ => Iff.rfl) shared

theorem put_releases (h : m.Exclusive) (hi : m.threads[i]? = some q) (hq : q.holds = true)
    (hp : p.holds = false) : (m.put m.shared none i p).Exclusive := by
  refine h.put hi (by simp [hp]) (fun j hj => ?_) m.shared
  rw [h.owner_eq hi hq]
  simp [Ne.symm hj]

theorem wakeAll (h : m.Exclusive) : m.wakeAll.Exclusive := by
  intro j
  rw [getElem?_wakeAll]
  refine (h j).trans ?_
  simp only [Option.map_eq_some_iff]
  constructor
  · rintro ⟨p, hp, hholds⟩
    exact ⟨_, ⟨p, hp, rfl⟩, p.holds_notified.trans hholds⟩
  · rintro ⟨_, ⟨p, hp, rfl⟩, hholds⟩
    exact ⟨p, hp, p.holds_notified.symm.trans hholds⟩

theorem steps {move : Move} (h : m.Exclusive) (hstep : Steps m move m') : m'.Exclusive := by
  cases hstep with
  | lock hi howner =>
    refine h.put hi (by simp [Phase.holds]) (fun j hj => ?_) m.shared
    rw [howner]
    simp [Ne.symm hj]
  | pass hi => exact h.put_keeps hi (by rfl) m.shared
  | sleep hi => exact h.put_releases hi rfl rfl
  | write hi => exact h.put_keeps hi (by rfl) _
  | unlock hi =>
    refine h.put_releases hi rfl ?_
    split <;> rfl
  | @notify i result hi =>
    have hi' := wakeAll_of_notifying hi
    exact h.wakeAll.put_keeps hi' (by rfl) m.shared
  | wake hi => exact h.put_keeps hi (by rfl) m.shared

end Exclusive

/-- What the data are when the thread that has the lock is done with them. -/
def settled (m : Monitor σ ρ) : σ :=
  match m.owner.bind (m.threads[·]?) with
  | some (.running _ rest result) => (finish rest (m.shared, result)).1
  | _ => m.shared

end Monitor

/-- A section that a thread has yet to go through, or what has come of it for the thread. -/
def Phase.status (shared : σ) : Phase σ ρ → (Section σ ρ × ρ) ⊕ ρ
  | .locking c result _ | .testing c result _ | .asleep c result => .inl (c, result)
  | .running _ rest result => .inr (finish rest (shared, result)).2
  | .notifying result | .returned result => .inr result

theorem Phase.status_of_not_holds {p : Phase σ ρ} (h : p.holds = false) (s s' : σ) :
    p.status s = p.status s' := by
  cases p with
  | running => cases h
  | _ => rfl

theorem Phase.status_notified (p : Phase σ ρ) (s : σ) : p.notified.status s = p.status s := by
  cases p <;> rfl

namespace Monitor

def status (m : Monitor σ ρ) (i : ℕ) : Option ((Section σ ρ × ρ) ⊕ ρ) :=
  m.threads[i]?.map (Phase.status m.shared)

section Settled

variable {m : Monitor σ ρ} {i : ℕ}

theorem settled_of_unowned (h : m.owner = none) : m.settled = m.shared := by
  simp [settled, h]

theorem settled_of_testing (h : m.owner = some i) {c : Section σ ρ} {result : ρ} {expired : Bool}
    (hi : m.threads[i]? = some (.testing c result expired)) : m.settled = m.shared := by
  simp [settled, h, hi]

theorem settled_of_running (h : m.owner = some i) {c : Section σ ρ}
    {rest : List (σ × ρ → σ × ρ)} {result : ρ}
    (hi : m.threads[i]? = some (.running c rest result)) :
    m.settled = (finish rest (m.shared, result)).1 := by
  simp [settled, h, hi]

theorem settled_congr {m' : Monitor σ ρ} (hshared : m'.shared = m.shared)
    (howner : m'.owner = m.owner)
    (hthreads : ∀ j, m.owner = some j → m'.threads[j]? = m.threads[j]?) :
    m'.settled = m.settled := by
  unfold settled
  rw [howner, hshared]
  cases hcases : m.owner with
  | none => rfl
  | some j => rw [Option.bind_some, Option.bind_some, hthreads j hcases]

end Settled

/-- A thread goes through its section at once, when the wait is over. -/
structure Commits (m : Monitor σ ρ) (i : ℕ) (c : Section σ ρ) (result : ρ) (m' : Monitor σ ρ) :
    Prop where
  pending : m.status i = some (.inl (c, result))
  settled_eq : m'.settled = (c.atomic (m.settled, result)).1
  done : m'.status i = some (.inr (c.atomic (m.settled, result)).2)
  others : ∀ j, j ≠ i → m'.status j = m.status j

section Status

variable {m m' : Monitor σ ρ} {i j : ℕ} {p q : Phase σ ρ} {shared : σ}

theorem Exclusive.status_put (h : m.Exclusive) (hj : j ≠ i)
    (hshared : shared = m.shared ∨ m.owner = some i) (owner : Option ℕ) (p : Phase σ ρ) :
    (m.put shared owner i p).status j = m.status j := by
  unfold status
  rw [put_of_ne hj.symm]
  cases hq : m.threads[j]? with
  | none => rfl
  | some q =>
    obtain rfl | howner := hshared
    · rfl
    · have hholds : q.holds = false := by
        rw [← Bool.not_eq_true, ← h.owner_iff hq, howner]
        simpa using hj.symm
      exact congrArg some (Phase.status_of_not_holds hholds _ _)

theorem Exclusive.status_eq (h : m.Exclusive) (hi : m.threads[i]? = some q)
    (hshared : shared = m.shared ∨ m.owner = some i) {owner : Option ℕ}
    (hstatus : p.status shared = q.status m.shared) (j : ℕ) :
    (m.put shared owner i p).status j = m.status j := by
  by_cases hj : j = i
  · subst hj
    rw [status, status, put_self hi, hi]
    exact congrArg some hstatus
  · exact h.status_put hj hshared owner p

theorem status_wakeAll (m : Monitor σ ρ) (j : ℕ) : m.wakeAll.status j = m.status j := by
  rw [status, status, getElem?_wakeAll, Option.map_map]
  congr 1
  funext p
  exact p.status_notified _

/-- Where the lock is elsewhere, the data will be what they would have been. -/
theorem Exclusive.settled_put (h : m.Exclusive) (hi : m.threads[i]? = some q)
    (hq : q.holds = false) : (m.put m.shared m.owner i p).settled = m.settled := by
  refine settled_congr rfl rfl fun j hj => put_of_ne fun hij => ?_
  rw [← hij, h.owner_iff hi, hq] at hj
  cases hj

theorem Exclusive.settled_wakeAll (h : m.Exclusive) : m.wakeAll.settled = m.settled := by
  refine settled_congr rfl rfl fun j hj => ?_
  obtain ⟨p, hp, hholds⟩ := (h j).mp hj
  rw [getElem?_wakeAll, hp, Option.map_some, Phase.notified_of_holds hholds]

theorem getElem?_enter (c : Section σ ρ) (result : ρ) {j : ℕ} (hj : j < m.threads.length) :
    (m.enter c result).threads[j]? = m.threads[j]? :=
  List.getElem?_append_left hj

theorem getElem?_enter_length (c : Section σ ρ) (result : ρ) :
    (m.enter c result).threads[m.threads.length]? = some (.locking c result false) :=
  List.getElem?_concat_length

theorem getElem?_enter_of_gt (c : Section σ ρ) (result : ρ) {j : ℕ}
    (hj : m.threads.length < j) : (m.enter c result).threads[j]? = none := by
  rw [List.getElem?_eq_none_iff, Monitor.enter, List.length_append, List.length_singleton]
  omega

theorem Exclusive.lt_length (h : m.Exclusive) (howner : m.owner = some i) :
    i < m.threads.length := by
  obtain ⟨p, hp, -⟩ := (h i).mp howner
  exact (List.getElem?_eq_some_iff.mp hp).1

theorem exclusive_enter (h : m.Exclusive) (c : Section σ ρ) (result : ρ) :
    (m.enter c result).Exclusive := by
  intro j
  obtain hj | rfl | hj := Nat.lt_trichotomy j m.threads.length
  · rw [getElem?_enter c result hj]
    exact h j
  · rw [getElem?_enter_length]
    refine iff_of_false (fun howner => Nat.lt_irrefl _ (h.lt_length howner)) ?_
    simp [Phase.holds]
  · refine iff_of_false (fun howner => Nat.lt_asymm hj (h.lt_length howner)) ?_
    simp [getElem?_enter_of_gt c result hj]

theorem settled_enter (h : m.Exclusive) (c : Section σ ρ) (result : ρ) :
    (m.enter c result).settled = m.settled :=
  settled_congr rfl rfl fun _ hj => getElem?_enter c result (h.lt_length hj)

theorem status_enter_of_lt (c : Section σ ρ) (result : ρ) {j : ℕ} (hj : j < m.threads.length) :
    (m.enter c result).status j = m.status j := by
  rw [status, getElem?_enter c result hj]
  rfl

theorem status_enter_eq_some_iff (c : Section σ ρ) (result : ρ) {j : ℕ}
    {st : (Section σ ρ × ρ) ⊕ ρ} : (m.enter c result).status j = some st ↔
      m.status j = some st ∨ j = m.threads.length ∧ st = .inl (c, result) := by
  have hbound {k : ℕ} (hk : m.threads.length ≤ k) : m.status k = none := by
    rw [status, List.getElem?_eq_none hk, Option.map_none]
  obtain hj | rfl | hj := Nat.lt_trichotomy j m.threads.length
  · rw [status_enter_of_lt c result hj]
    exact (or_iff_left fun hlength => Nat.ne_of_lt hj hlength.1).symm
  · rw [status, getElem?_enter_length, hbound (Nat.le_refl _)]
    simp [Phase.status, eq_comm]
  · rw [status, getElem?_enter_of_gt c result hj, hbound (Nat.le_of_lt hj)]
    simp [Nat.ne_of_gt hj]

theorem status_of_returned {result : ρ} (h : m.threads[i]? = some (.returned result)) :
    m.status i = some (.inr result) := by
  rw [status, h]
  rfl

theorem lt_of_status {j : ℕ} {st : (Section σ ρ × ρ) ⊕ ρ} (h : m.status j = some st) :
    j < m.threads.length := by
  obtain ⟨p, hp, -⟩ := Option.map_eq_some_iff.mp h
  exact (List.getElem?_eq_some_iff.mp hp).1

theorem length_le_enter (m : Monitor σ ρ) (c : Section σ ρ) (result : ρ) :
    m.threads.length ≤ (m.enter c result).threads.length := by
  simp [Monitor.enter]

theorem Exclusive.status_again (h : m.Exclusive) {result' : ρ}
    (hi : m.threads[i]? = some (.returned result')) (c : Section σ ρ) (result : ρ) (j : ℕ) :
    (m.again i c result).status j =
      if j = i then some (.inl (c, result)) else m.status j := by
  split_ifs with hj
  · rw [hj, status, again, put_self hi]
    rfl
  · exact h.status_put hj (.inl rfl) _ _

theorem Exclusive.settled_again (h : m.Exclusive) {result' : ρ}
    (hi : m.threads[i]? = some (.returned result')) (c : Section σ ρ) (result : ρ) :
    (m.again i c result).settled = m.settled :=
  h.settled_put hi rfl

section Equations

variable {c : Section σ ρ} {result : ρ} {expired : Bool}

theorem settled_lock (howner : m.owner = none)
    (hi : m.threads[i]? = some (.locking c result expired)) :
    (m.put m.shared (some i) i (.testing c result expired)).settled = m.settled := by
  rw [settled_of_unowned howner]
  exact settled_of_testing rfl (put_self hi)

theorem Exclusive.settled_pass (h : m.Exclusive)
    (hi : m.threads[i]? = some (.testing c result expired)) :
    (m.put m.shared m.owner i (.running c c.body result)).settled =
      (c.atomic (m.settled, result)).1 := by
  have howner := h.owner_eq hi rfl
  rw [settled_of_testing howner hi]
  exact settled_of_running (m := m.put _ _ i _) howner (put_self hi)

theorem Exclusive.settled_sleep (h : m.Exclusive)
    (hi : m.threads[i]? = some (.testing c result expired)) :
    (m.put m.shared none i p).settled = m.settled := by
  rw [settled_of_testing (h.owner_eq hi rfl) hi]
  exact settled_of_unowned rfl

theorem Exclusive.settled_write (h : m.Exclusive) {f : σ × ρ → σ × ρ}
    {rest : List (σ × ρ → σ × ρ)}
    (hi : m.threads[i]? = some (.running c (f :: rest) result)) :
    (m.put (f (m.shared, result)).1 m.owner i
      (.running c rest (f (m.shared, result)).2)).settled = m.settled := by
  have howner := h.owner_eq hi rfl
  rw [settled_of_running howner hi]
  exact settled_of_running (m := m.put _ _ i _) howner (put_self hi)

theorem Exclusive.settled_unlock (h : m.Exclusive)
    (hi : m.threads[i]? = some (.running c [] result)) :
    (m.put m.shared none i p).settled = m.settled := by
  rw [settled_of_running (h.owner_eq hi rfl) hi]
  exact settled_of_unowned rfl

end Equations

/-- A step of the lock is no step of the sections, but for the one that ends a wait. -/
theorem Exclusive.settles {move : Move} (h : m.Exclusive) (hstep : Steps m move m') :
    (m'.settled = m.settled ∧ ∀ j, m'.status j = m.status j) ∨
      ∃ i c result expired, m.threads[i]? = some (.testing c result expired) ∧
        (c.ready m.settled = true ∨ expired = true) ∧ m.Commits i c result m' := by
  cases hstep with
  | lock hi howner => exact .inl ⟨settled_lock howner hi, h.status_eq hi (.inl rfl) (by rfl)⟩
  | @pass i c result expired hi hready =>
    have hsettled := settled_of_testing (h.owner_eq hi rfl) hi
    rw [← hsettled] at hready
    refine .inr ⟨i, c, result, expired, hi, hready, ?_, h.settled_pass hi, ?_, ?_⟩
    · rw [status, hi]
      rfl
    · rw [status, put_self hi, hsettled]
      rfl
    · exact fun j hj => h.status_put hj (.inl rfl) _ _
  | sleep hi => exact .inl ⟨h.settled_sleep hi, h.status_eq hi (.inl rfl) (by rfl)⟩
  | write hi =>
    exact .inl ⟨h.settled_write hi, h.status_eq hi (.inr (h.owner_eq hi rfl)) (by rfl)⟩
  | unlock hi =>
    refine .inl ⟨h.settled_unlock hi, h.status_eq hi (.inl rfl) ?_⟩
    split <;> rfl
  | @notify i result hi =>
    have hi' := wakeAll_of_notifying hi
    refine .inl ⟨(h.wakeAll.settled_put hi' rfl).trans h.settled_wakeAll, fun j => ?_⟩
    exact (h.wakeAll.status_eq hi' (.inl rfl) (by rfl) j).trans (m.status_wakeAll j)
  | wake hi => exact .inl ⟨h.settled_put hi rfl, h.status_eq hi (.inl rfl) (by rfl)⟩

end Status

end Monitor
end EdgeScope.Runs
