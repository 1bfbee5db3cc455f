import Mathlib.Data.List.Basic
import Mathlib.Data.List.TakeDrop
import Mathlib.Tactic.Common

/-!
# Buffered output streams

A stream on a file that was opened empty. A call hands data over, and the stream may keep it
for later; how much of it reaches the file at once, and whether the call succeeds, is up to
the environment. Closing the stream hands over what is left, and may fail as well.
-/

namespace EdgeScope

/-- What becomes of one call: so many of the waiting elements reach the file, and the call
succeeds or not. -/
structure CallOutcome where
  flushed : ℕ
  succeeds : Bool
  deriving DecidableEq

/-- A call that succeeds, and leaves its data in the buffer. -/
def CallOutcome.kept : CallOutcome := ⟨0, true⟩

structure OutputStream (α : Type*) where
  file : List α
  buffered : List α
  failed : Bool
  deriving DecidableEq

namespace OutputStream

variable {α : Type*}

def opened : OutputStream α := ⟨[], [], false⟩

/-- A stream that has failed takes nothing more. -/
def write (data : List α) (outcome : CallOutcome) (s : OutputStream α) : OutputStream α :=
  if s.failed then s
  else
    { file := s.file ++ (s.buffered ++ data).take outcome.flushed
      buffered := (s.buffered ++ data).drop outcome.flushed
      failed := !outcome.succeeds }

/-- The flush of what is left. It is tried on a failed stream, too. -/
def close (outcome : CallOutcome) (s : OutputStream α) : OutputStream α :=
  if outcome.succeeds then ⟨s.file ++ s.buffered, [], s.failed⟩
  else ⟨s.file ++ s.buffered.take outcome.flushed, s.buffered.drop outcome.flushed, true⟩

def writeAll (calls : List (List α × CallOutcome)) (s : OutputStream α) : OutputStream α :=
  calls.foldl (fun s call => s.write call.1 call.2) s

def taken (s : OutputStream α) : List α := s.file ++ s.buffered

/-- Closing brings all of the buffer to the file. -/
def ClosesInFull (s : OutputStream α) (outcome : CallOutcome) : Prop :=
  outcome.succeeds = true ∨ s.buffered.length ≤ outcome.flushed

instance (s : OutputStream α) (outcome : CallOutcome) : Decidable (s.ClosesInFull outcome) :=
  inferInstanceAs (Decidable (_ ∨ _))

@[simp] theorem opened_failed : (opened : OutputStream α).failed = false := rfl

@[simp] theorem opened_taken : (opened : OutputStream α).taken = [] := rfl

theorem write_failed {s : OutputStream α} (h : s.failed = false) (data : List α)
    (outcome : CallOutcome) : (s.write data outcome).failed = !outcome.succeeds := by
  simp [write, h]

theorem write_taken {s : OutputStream α} (h : s.failed = false) (data : List α)
    (outcome : CallOutcome) : (s.write data outcome).taken = s.taken ++ data := by
  simp only [write, h, taken, Bool.false_eq_true, if_false, List.append_assoc,
    List.take_append_drop]

/-- Calls that all succeed are taken one after another. -/
theorem writeAll_spec {calls : List (List α × CallOutcome)} {s : OutputStream α}
    (h : s.failed = false) (hcalls : ∀ call ∈ calls, call.2.succeeds = true) :
    (s.writeAll calls).failed = false ∧
      (s.writeAll calls).taken = s.taken ++ calls.flatMap Prod.fst := by
  induction calls generalizing s with
  | nil => exact ⟨h, by simp [writeAll]⟩
  | cons call calls ih =>
    have hfirst : (s.write call.1 call.2).failed = false := by
      rw [write_failed h, hcalls call List.mem_cons_self]
      rfl
    obtain ⟨hfailed, htaken⟩ := ih hfirst fun c hc => hcalls c (List.mem_cons_of_mem _ hc)
    refine ⟨hfailed, ?_⟩
    calc (s.writeAll (call :: calls)).taken
        = (s.write call.1 call.2).taken ++ calls.flatMap Prod.fst := htaken
      _ = s.taken ++ (call :: calls).flatMap Prod.fst := by
        rw [write_taken h, List.flatMap_cons, List.append_assoc]

/-- A closed file holds nothing the stream has not taken. -/
theorem length_close_le (s : OutputStream α) (outcome : CallOutcome) :
    (s.close outcome).file.length ≤ s.taken.length := by
  unfold close taken
  split
  · exact Nat.le_refl _
  · simp only [List.length_append]
    exact Nat.add_le_add_left (List.length_take_le' _ _) _

/-- A closed file is complete exactly when the last flush was. -/
theorem close_file_eq_taken_iff (s : OutputStream α) (outcome : CallOutcome) :
    (s.close outcome).file = s.taken ↔ s.ClosesInFull outcome := by
  unfold close ClosesInFull taken
  cases outcome.succeeds
  · simp only [Bool.false_eq_true, if_false, false_or, List.append_cancel_left_eq,
      List.take_eq_self_iff]
  · simp

end OutputStream
end EdgeScope
