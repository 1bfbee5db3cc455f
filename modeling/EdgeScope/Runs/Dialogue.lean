import Mathlib.Data.List.Basic
import Mathlib.Data.Set.Basic
import Mathlib.Tactic.Common

/-!
# Programs that ask questions

A program asks one question after another, and goes on with the answers, whatever they are. A
talk is the questions with the answers they were given. `Asks P` says that every question
satisfies `P`, and `FailsFast` that the program gives up at the first answer that is a failure.
-/

namespace EdgeScope.Runs

/-- `A q` is the type of the answers to `q`. -/
inductive Dialogue (Q : Type*) (A : Q → Type*) (R : Type*)
  | done (result : R)
  | ask (question : Q) (next : A question → Dialogue Q A R)

namespace Dialogue

variable {Q R : Type*} {A : Q → Type*}

abbrev Exchange (A : Q → Type*) := (question : Q) × A question

/-- The talks a program can have, and the result of each. -/
inductive Talks : Dialogue Q A R → List (Exchange A) → R → Prop
  | done (result : R) : Talks (.done result) [] result
  | ask (question : Q) {next : A question → Dialogue Q A R} (answer : A question)
      {talk : List (Exchange A)} {result : R} (h : Talks (next answer) talk result) :
      Talks (.ask question next) (⟨question, answer⟩ :: talk) result

@[simp] theorem talks_done_iff {r result : R} {talk : List (Exchange A)} :
    (done r : Dialogue Q A R).Talks talk result ↔ talk = [] ∧ result = r := by
  constructor
  · rintro ⟨⟩
    exact ⟨rfl, rfl⟩
  · rintro ⟨rfl, rfl⟩
    exact .done _

theorem talks_ask_iff {question : Q} {next : A question → Dialogue Q A R}
    {talk : List (Exchange A)} {result : R} :
    (ask question next).Talks talk result ↔
      ∃ answer rest, talk = ⟨question, answer⟩ :: rest ∧ (next answer).Talks rest result := by
  constructor
  · rintro (_ | ⟨_, answer, h⟩)
    exact ⟨answer, _, rfl, h⟩
  · rintro ⟨answer, rest, rfl, h⟩
    exact .ask question answer h

def Asks (P : Q → Prop) : Dialogue Q A R → Prop
  | .done _ => True
  | .ask question next => P question ∧ ∀ answer, (next answer).Asks P

theorem Asks.of_talks {P : Q → Prop} {d : Dialogue Q A R} {talk : List (Exchange A)} {result : R}
    (h : d.Asks P) (ht : d.Talks talk result) : ∀ e ∈ talk, P e.1 := by
  induction ht with
  | done result => simp
  | ask question answer _ ih => exact List.forall_mem_cons.mpr ⟨h.1, ih (h.2 answer)⟩

section FailsFast

variable (failed : List (Exchange A) → Prop) (failure success : R → Prop)

/-- From the talk `past` on, the program ends in failure right after a talk that has failed, and
in success otherwise. -/
def FailsFast : List (Exchange A) → Dialogue Q A R → Prop
  | _, .done result => success result
  | past, .ask question next => ∀ answer,
    (failed (past ++ [⟨question, answer⟩]) ∧
      ∃ result, next answer = .done result ∧ failure result) ∨
    (¬ failed (past ++ [⟨question, answer⟩]) ∧
      FailsFast (past ++ [⟨question, answer⟩]) (next answer))

variable {failed failure success}

/-- Such a program fails exactly when its talk has, and no shorter talk had failed. -/
theorem FailsFast.of_talks {past talk : List (Exchange A)} {d : Dialogue Q A R} {result : R}
    (h : d.FailsFast failed failure success past) (ht : d.Talks talk result)
    (hpast : ¬ failed past) :
    (failed (past ++ talk) ∧ failure result ∨ ¬ failed (past ++ talk) ∧ success result) ∧
      ∀ front, front <+: talk → front ≠ talk → ¬ failed (past ++ front) := by
  induction ht generalizing past with
  | done result =>
    refine ⟨.inr ⟨?_, h⟩, fun front hfront hne => absurd (List.prefix_nil.mp hfront) hne⟩
    rwa [List.append_nil]
  | ask question answer ht ih =>
    -- a shorter talk is empty or begins with the same exchange
    have hfronts {rest : List (Exchange A)}
        (hrest : ∀ front, front <+: rest → front ≠ rest →
          ¬ failed (past ++ [⟨question, answer⟩] ++ front)) :
        ∀ front, front <+: ⟨question, answer⟩ :: rest → front ≠ ⟨question, answer⟩ :: rest →
          ¬ failed (past ++ front) := by
      intro front hfront hne
      cases front with
      | nil => rwa [List.append_nil]
      | cons e front =>
        obtain ⟨rfl, hfront'⟩ := List.cons_prefix_cons.mp hfront
        have hgoes := hrest front hfront' fun heq => hne (heq ▸ rfl)
        rwa [List.append_assoc, List.singleton_append] at hgoes
    obtain ⟨hfailed, last, hlast, hfailure⟩ | ⟨hgoes, hnext⟩ := h answer
    · -- the talk is over
      rw [hlast, talks_done_iff] at ht
      obtain ⟨rfl, rfl⟩ := ht
      refine ⟨.inl ⟨hfailed, hfailure⟩, hfronts fun front hfront hne => ?_⟩
      exact absurd (List.prefix_nil.mp hfront) hne
    · obtain ⟨hresult, hrest⟩ := ih hnext hgoes
      rw [List.append_assoc, List.singleton_append] at hresult
      exact ⟨hresult, hfronts hrest⟩

end FailsFast

end Dialogue
end EdgeScope.Runs
