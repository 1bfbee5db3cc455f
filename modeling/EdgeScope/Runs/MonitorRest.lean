import EdgeScope.Runs.Monitor
import Mathlib.Algebra.Ring.Nat

/-!
# Monitors at rest

Where a section that changes the data ends with a call that wakes the threads that wait, no thread
waits for a condition that holds, unless it is about to be woken. The threads then come to rest
after so many steps of their own, and a thread at rest is done or waits for what is not the case.
-/

namespace EdgeScope.Runs

variable {σ ρ : Type*}

/-- A section that changes the data tells the threads that wait. -/
def Section.Announces (c : Section σ ρ) : Prop :=
  c.notifies = false → ∀ data, (c.atomic data).1 = data.1

namespace Phase

def within : Phase σ ρ → Option (Section σ ρ)
  | .locking c _ _ | .testing c _ _ | .asleep c _ | .running c _ _ => some c
  | .notifying _ | .returned _ => none

/-- A wait that has expired is a timed one. -/
def Timely : Phase σ ρ → Prop
  | .locking c _ expired | .testing c _ expired => expired = true → c.timed = true
  | _ => True

/-- Whether the thread is going to notify, having changed the data. -/
def rings : Phase σ ρ → Bool
  | .running c _ _ => c.notifies
  | .notifying _ => true
  | _ => false

/-- Whether the thread waits although the condition holds. -/
def Oversleeps (s : σ) : Phase σ ρ → Prop
  | .asleep c _ => c.ready s = true
  | _ => False

theorem within_notified (p : Phase σ ρ) : p.notified.within = p.within := by
  cases p <;> rfl

theorem Timely.notified {p : Phase σ ρ} (h : p.Timely) : p.notified.Timely := by
  cases p with
  | asleep => exact nofun
  | _ => exact h

theorem not_oversleeps_notified (p : Phase σ ρ) (s : σ) : ¬ p.notified.Oversleeps s := by
  cases p <;> exact id

end Phase

namespace Monitor

structure Sound (m : Monitor σ ρ) : Prop where
  exclusive : m.Exclusive
  timely : ∀ p ∈ m.threads, p.Timely
  announces : ∀ p ∈ m.threads, ∀ c, p.within = some c → c.Announces
  woken : (∃ p ∈ m.threads, p.Oversleeps m.settled) → ∃ p ∈ m.threads, p.rings = true

theorem mem_put {m : Monitor σ ρ} {shared : σ} {owner : Option ℕ} {i : ℕ} {p q : Phase σ ρ}
    (h : q ∈ (m.put shared owner i p).threads) : q = p ∨ q ∈ m.threads :=
  (List.mem_or_eq_of_mem_set h).symm

namespace Sound

variable {m m' : Monitor σ ρ} {i : ℕ} {p q : Phase σ ρ}

theorem put (h : m.Sound) (hi : m.threads[i]? = some q) {shared : σ} {owner : Option ℕ}
    (hexclusive : (m.put shared owner i p).Exclusive) (htimely : p.Timely)
    (hannounces : ∀ c, p.within = some c → c.Announces)
    (hwoken : p.rings = true ∨ (m.put shared owner i p).settled = m.settled ∧
      ¬ p.Oversleeps m.settled ∧ (q.rings = false ∨ ∀ r ∈ m.threads, ¬ r.Oversleeps m.settled)) :
    (m.put shared owner i p).Sound where
  exclusive := hexclusive
  timely r hr := by
    obtain rfl | hr := mem_put hr
    · exact htimely
    · exact h.timely r hr
  announces r hr c hc := by
    obtain rfl | hr := mem_put hr
    · exact hannounces c hc
    · exact h.announces r hr c hc
  woken := by
    obtain hrings | ⟨hsettled, hp, hquiet⟩ := hwoken
    · exact fun _ => ⟨p, List.mem_of_getElem? (put_self hi), hrings⟩
    · rintro ⟨r, hr, hoversleeps⟩
      rw [hsettled] at hoversleeps
      have hr' : r ∈ m.threads := (mem_put hr).resolve_left fun hrp => hp (hrp ▸ hoversleeps)
      have hq := hquiet.resolve_right fun hnone => hnone r hr' hoversleeps
      obtain ⟨s, hs, hrings⟩ := h.woken ⟨r, hr', hoversleeps⟩
      obtain ⟨j, hj⟩ := List.mem_iff_getElem?.mp hs
      have hij : i ≠ j := by
        rintro rfl
        rw [hi, Option.some_inj] at hj
        rw [hj, hrings] at hq
        cases hq
      exact ⟨s, List.mem_of_getElem? ((put_of_ne hij).trans hj), hrings⟩

theorem wakeAll (h : m.Sound) : m.wakeAll.Sound where
  exclusive := h.exclusive.wakeAll
  timely r hr := by
    obtain ⟨p, hp, rfl⟩ := List.mem_map.mp hr
    exact (h.timely p hp).notified
  announces r hr c hc := by
    obtain ⟨p, hp, rfl⟩ := List.mem_map.mp hr
    exact h.announces p hp c (p.within_notified ▸ hc)
  woken := by
    rintro ⟨r, hr, hoversleeps⟩
    obtain ⟨p, -, rfl⟩ := List.mem_map.mp hr
    exact absurd hoversleeps (p.not_oversleeps_notified _)

theorem steps {move : Move} (h : m.Sound) (hstep : Steps m move m') : m'.Sound := by
  have hexclusive := h.exclusive.steps hstep
  cases hstep with
  | lock hi howner =>
    have htimely := h.timely _ (List.mem_of_getElem? hi)
    have hannounces := h.announces _ (List.mem_of_getElem? hi)
    exact h.put hi hexclusive htimely hannounces (.inr ⟨settled_lock howner hi, id, .inl rfl⟩)
  | @pass i c result expired hi =>
    have hannounces := h.announces _ (List.mem_of_getElem? hi)
    refine h.put hi hexclusive trivial hannounces ?_
    cases hnotifies : c.notifies with
    | true => exact .inl hnotifies
    | false =>
      have hsettled := (h.exclusive.settled_pass hi).trans (hannounces c rfl hnotifies _)
      exact .inr ⟨hsettled, id, .inl rfl⟩
  | @sleep i c result hi hready =>
    have hannounces := h.announces _ (List.mem_of_getElem? hi)
    refine h.put hi hexclusive trivial hannounces
      (.inr ⟨h.exclusive.settled_sleep hi, ?_, .inl rfl⟩)
    rw [settled_of_testing (h.exclusive.owner_eq hi rfl) hi, Phase.Oversleeps, hready]
    exact Bool.false_ne_true
  | @write i c f rest result hi =>
    have hannounces := h.announces _ (List.mem_of_getElem? hi)
    refine h.put hi hexclusive trivial hannounces ?_
    cases hnotifies : c.notifies with
    | true => exact .inl hnotifies
    | false => exact .inr ⟨h.exclusive.settled_write hi, id, .inl hnotifies⟩
  | @unlock i c result hi =>
    cases hnotifies : c.notifies with
    | true =>
      rw [hnotifies] at hexclusive
      exact h.put hi hexclusive trivial nofun (.inl rfl)
    | false =>
      rw [hnotifies] at hexclusive
      exact h.put hi hexclusive trivial nofun
        (.inr ⟨h.exclusive.settled_unlock hi, id, .inl hnotifies⟩)
  | @notify i result hi =>
    have hi' := wakeAll_of_notifying hi
    refine h.wakeAll.put hi' hexclusive trivial nofun
      (.inr ⟨h.wakeAll.exclusive.settled_put hi' rfl, id, .inr fun r hr => ?_⟩)
    obtain ⟨p, -, rfl⟩ := List.mem_map.mp hr
    exact p.not_oversleeps_notified _
  | wake hi htimed =>
    have hannounces := h.announces _ (List.mem_of_getElem? hi)
    exact h.put hi hexclusive htimed hannounces
      (.inr ⟨h.exclusive.settled_put hi rfl, id, .inl rfl⟩)

theorem empty (shared : σ) : Sound (⟨shared, none, []⟩ : Monitor σ ρ) where
  exclusive i := by simp
  timely := by simp
  announces := by simp
  woken := by simp

theorem again (h : m.Sound) {result' : ρ} (hi : m.threads[i]? = some (.returned result'))
    {c : Section σ ρ} (hannounces : c.Announces) (result : ρ) : (m.again i c result).Sound := by
  refine h.put hi (h.exclusive.put_keeps hi (by rfl) _) nofun ?_
    (.inr ⟨h.exclusive.settled_put hi rfl, id, .inl rfl⟩)
  rintro _ ⟨⟩
  exact hannounces

theorem enter (h : m.Sound) {c : Section σ ρ} (hannounces : c.Announces) (result : ρ) :
    (m.enter c result).Sound := by
  have hmem {r : Phase σ ρ} (hr : r ∈ (m.enter c result).threads) :
      r ∈ m.threads ∨ r = .locking c result false := by
    simpa [Monitor.enter] using hr
  constructor
  · exact exclusive_enter h.exclusive c result
  · intro r hr
    obtain hr | rfl := hmem hr
    · exact h.timely r hr
    · intro hexpired
      cases hexpired
  · intro r hr c' hc'
    obtain hr | rfl := hmem hr
    · exact h.announces r hr c' hc'
    · cases hc'
      exact hannounces
  · rintro ⟨r, hr, hoversleeps⟩
    rw [settled_enter h.exclusive] at hoversleeps
    obtain hr | rfl := hmem hr
    · obtain ⟨q, hq, hrings⟩ := h.woken ⟨r, hr, hoversleeps⟩
      exact ⟨q, List.mem_append_left _ hq, hrings⟩
    · exact absurd hoversleeps id

end Sound

end Monitor

/-- A thread that is done, or waits for what is not the case. -/
def Phase.Rests (s : σ) : Phase σ ρ → Prop
  | .returned _ => True
  | .asleep c _ => c.ready s = false
  | _ => False

namespace Monitor

theorem Exclusive.unowned_of_rests {m : Monitor σ ρ} (h : m.Exclusive)
    (hrests : ∀ p ∈ m.threads, p.Rests m.shared) : m.owner = none := by
  refine Option.eq_none_iff_forall_ne_some.mpr fun i hi => ?_
  obtain ⟨p, hp, hholds⟩ := (h i).mp hi
  have hrest := hrests p (List.mem_of_getElem? hp)
  cases p with
  | testing => exact hrest
  | running => exact hrest
  | _ => cases hholds

/-- Every thread rests, or one of them can take a step of its own. -/
theorem Sound.rests_or_steps {m : Monitor σ ρ} (h : m.Sound) :
    (∀ p ∈ m.threads, p.Rests m.shared) ∨
      ∃ move m', move.isWake = false ∧ m.step move = some m' := by
  simp only [step_eq_some_iff]
  cases howner : m.owner with
  | some i =>
    obtain ⟨p, hi, hholds⟩ := (h.exclusive i).mp howner
    cases p with
    | testing c result expired =>
      by_cases hready : c.ready m.shared = true ∨ expired = true
      · exact .inr ⟨_, _, rfl, .pass hi hready⟩
      · simp only [not_or, Bool.not_eq_true] at hready
        obtain ⟨hready, rfl⟩ := hready
        exact .inr ⟨_, _, rfl, .sleep hi hready⟩
    | running c rest result =>
      cases rest with
      | nil => exact .inr ⟨_, _, rfl, .unlock hi⟩
      | cons f rest => exact .inr ⟨_, _, rfl, .write hi⟩
    | _ => cases hholds
  | none =>
    have hunowned {i : ℕ} {p : Phase σ ρ} (hi : m.threads[i]? = some p) : p.holds = false := by
      rw [← Bool.not_eq_true, ← h.exclusive.owner_iff hi, howner]
      exact nofun
    by_cases hrest : ∀ p ∈ m.threads, p.Rests m.shared
    · exact .inl hrest
    · push Not at hrest
      obtain ⟨p, hp, hrest⟩ := hrest
      obtain ⟨i, hi⟩ := List.mem_iff_getElem?.mp hp
      cases p with
      | locking c result expired => exact .inr ⟨_, _, rfl, .lock hi howner⟩
      | testing => cases hunowned hi
      | running => cases hunowned hi
      | notifying result => exact .inr ⟨_, _, rfl, .notify hi⟩
      | returned => exact absurd trivial hrest
      | asleep c result =>
        -- the thread that is going to notify is not behind the lock
        have hoversleeps : Phase.Oversleeps m.settled (.asleep c result) := by
          rw [settled_of_unowned howner]
          exact eq_true_of_ne_false hrest
        obtain ⟨q, hq, hrings⟩ := h.woken ⟨_, hp, hoversleeps⟩
        obtain ⟨j, hj⟩ := List.mem_iff_getElem?.mp hq
        cases q with
        | notifying result => exact .inr ⟨_, _, rfl, .notify hj⟩
        | running => cases hunowned hj
        | _ => cases hrings

end Monitor

/-- The steps a thread needs to get through a section. -/
def Section.cost (c : Section σ ρ) : ℕ := c.body.length + 4

namespace Phase

def own : Phase σ ρ → ℕ
  | .locking c _ _ => c.cost
  | .testing c _ _ => c.body.length + 3
  | .running _ rest _ => rest.length + 2
  | .notifying _ => 1
  | .asleep _ _ | .returned _ => 0

/-- The steps a notification may add. -/
def more : Phase σ ρ → ℕ
  | .locking c _ _ | .testing c _ _ | .asleep c _ => c.cost
  | .running _ _ _ | .notifying _ | .returned _ => 0

/-- The notifications that are to come. -/
def bells : Phase σ ρ → ℕ
  | .locking c _ _ | .testing c _ _ | .asleep c _ | .running c _ _ => c.notifies.toNat
  | .notifying _ => 1
  | .returned _ => 0

theorem bells_notified (p : Phase σ ρ) : p.notified.bells = p.bells := by
  cases p <;> rfl

theorem more_notified (p : Phase σ ρ) : p.notified.more = p.more := by
  cases p <;> rfl

theorem own_notified_le (p : Phase σ ρ) : p.notified.own ≤ p.own + p.more := by
  cases p with
  | asleep => exact Nat.le_add_left _ _
  | _ => exact Nat.le_add_right _ _

end Phase

namespace Monitor

def total (f : Phase σ ρ → ℕ) (m : Monitor σ ρ) : ℕ := (m.threads.map f).sum

/-- What is left to do, beside some notifications and steps that are announced. -/
def work (bells more : ℕ) (m : Monitor σ ρ) : ℕ :=
  (m.total Phase.bells + bells) * (1 + m.total Phase.more + more) + m.total Phase.own

theorem sum_map_set {α : Type*} (f : α → ℕ) {l : List α} {i : ℕ} {a : α} (h : l[i]? = some a)
    (b : α) : ((l.set i b).map f).sum + f a = (l.map f).sum + f b := by
  induction l generalizing i with
  | nil => cases h
  | cons x l ih =>
    cases i with
    | zero =>
      obtain rfl := Option.some.inj h
      simp only [List.set_cons_zero, List.map_cons, List.sum_cons]
      omega
    | succ i =>
      have htail := ih (i := i) h
      simp only [List.set_cons_succ, List.map_cons, List.sum_cons]
      omega

theorem total_put {m : Monitor σ ρ} {i : ℕ} {q : Phase σ ρ} (hi : m.threads[i]? = some q)
    (f : Phase σ ρ → ℕ) (shared : σ) (owner : Option ℕ) (p : Phase σ ρ) :
    (m.put shared owner i p).total f + f q = m.total f + f p :=
  sum_map_set f hi p

theorem total_wakeAll_of_eq {f : Phase σ ρ → ℕ} (h : ∀ p : Phase σ ρ, f p.notified = f p)
    (m : Monitor σ ρ) : m.wakeAll.total f = m.total f := by
  rw [total, wakeAll, List.map_map]
  exact congrArg List.sum (List.map_congr_left fun p _ => h p)

theorem total_own_wakeAll_le (m : Monitor σ ρ) :
    m.wakeAll.total Phase.own ≤ m.total Phase.own + m.total Phase.more := by
  show ((m.threads.map Phase.notified).map Phase.own).sum ≤
    (m.threads.map Phase.own).sum + (m.threads.map Phase.more).sum
  induction m.threads with
  | nil => exact Nat.zero_le _
  | cons p threads ih =>
    have hfirst := p.own_notified_le
    simp only [List.map_cons, List.sum_cons]
    omega

theorem work_put_lt {m : Monitor σ ρ} {i : ℕ} {p q : Phase σ ρ} (hi : m.threads[i]? = some q)
    (hbells : p.bells ≤ q.bells) (hmore : p.more ≤ q.more) (hown : p.own < q.own)
    (shared : σ) (owner : Option ℕ) (bells more : ℕ) :
    (m.put shared owner i p).work bells more < m.work bells more := by
  have hbells' := total_put hi Phase.bells shared owner p
  have hmore' := total_put hi Phase.more shared owner p
  have hown' := total_put hi Phase.own shared owner p
  exact Nat.add_lt_add_of_le_of_lt (Nat.mul_le_mul (by omega) (by omega)) (by omega)

/-- A step of its own brings a thread on, or takes a notification off those that are to come. -/
theorem work_lt {m m' : Monitor σ ρ} {move : Move} (hmove : move.isWake = false)
    (hstep : Steps m move m') (bells more : ℕ) : m'.work bells more < m.work bells more := by
  cases hstep with
  | lock hi =>
    apply work_put_lt hi
    · exact Nat.le_refl _
    · exact Nat.le_refl _
    · exact Nat.lt_succ_self _
  | pass hi =>
    apply work_put_lt hi
    · exact Nat.le_refl _
    · exact Nat.zero_le _
    · exact Nat.lt_succ_self _
  | sleep hi =>
    apply work_put_lt hi
    · exact Nat.le_refl _
    · exact Nat.le_refl _
    · exact Nat.succ_pos _
  | write hi =>
    apply work_put_lt hi
    · exact Nat.le_refl _
    · exact Nat.le_refl _
    · exact Nat.lt_succ_self _
  | @unlock i c result hi =>
    apply work_put_lt hi
    · cases hnotifies : c.notifies <;> simp [Phase.bells, hnotifies]
    · split <;> exact Nat.le_refl 0
    · split <;> simp [Phase.own]
  | @notify i result hi =>
    have hi' := wakeAll_of_notifying hi
    have hbells := total_put hi' Phase.bells m.shared m.owner (.returned result)
    have hmore := total_put hi' Phase.more m.shared m.owner (.returned result)
    have hown := total_put hi' Phase.own m.shared m.owner (.returned result)
    rw [total_wakeAll_of_eq Phase.bells_notified] at hbells
    rw [total_wakeAll_of_eq Phase.more_notified] at hmore
    have hwoken := m.total_own_wakeAll_le
    simp only [Phase.bells, Phase.more, Phase.own, Nat.add_zero] at hbells hmore hown
    rw [work, work, ← hbells, ← hmore, Nat.add_right_comm _ 1 bells, Nat.add_mul _ 1, Nat.one_mul]
    omega
  | wake => cases hmove

theorem work_le_work {m : Monitor σ ρ} {bells bells' more more' : ℕ} (hbells : bells ≤ bells')
    (hmore : more ≤ more') : m.work bells more ≤ m.work bells' more' := by
  apply Nat.add_le_add_right
  exact Nat.mul_le_mul (by omega) (by omega)

theorem work_again {m : Monitor σ ρ} {i : ℕ} {result' : ρ}
    (hi : m.threads[i]? = some (.returned result')) (c : Section σ ρ) (result : ρ)
    (bells more : ℕ) : (m.again i c result).work bells more =
      m.work (c.notifies.toNat + bells) (c.cost + more) + c.cost := by
  have hbells := total_put hi Phase.bells m.shared m.owner (.locking c result false)
  have hmore := total_put hi Phase.more m.shared m.owner (.locking c result false)
  have hown := total_put hi Phase.own m.shared m.owner (.locking c result false)
  simp only [Phase.bells, Phase.more, Phase.own, Nat.add_zero] at hbells hmore hown
  rw [again, work, work, hbells, hmore, hown]
  simp only [Nat.add_assoc]

end Monitor
end EdgeScope.Runs
