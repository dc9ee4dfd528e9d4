import Mathlib.Data.List.Basic
import Mathlib.Tactic.Common

/-!
# Lines put together of pieces

A line is its pieces one behind the other. The span of a piece that has a group is where it stands
in the line, in bytes.
-/

namespace Lib.Pieces
variable {γ : Type}

structure Span (γ : Type) where
  start : ℕ
  stop : ℕ
  group : γ
  deriving DecidableEq

def text : List (String × Option γ) → String
  | [] => ""
  | p :: ps => p.1 ++ text ps

def spans : ℕ → List (String × Option γ) → List (Span γ)
  | _, [] => []
  | n, (w, none) :: ps => spans (n + w.utf8ByteSize) ps
  | n, (w, some g) :: ps => ⟨n, n + w.utf8ByteSize, g⟩ :: spans (n + w.utf8ByteSize) ps

def coloured (ps : List (String × Option γ)) : List (String × γ) :=
  ps.filterMap fun p => p.2.map (p.1, ·)

/-- The span is where the piece stands in the line. -/
def Cuts (line : String) (s : Span γ) (c : String × γ) : Prop :=
  s.group = c.2 ∧ ∃ before after, line = before ++ c.1 ++ after ∧ s.start = before.utf8ByteSize ∧
    s.stop = (before ++ c.1).utf8ByteSize

variable {ps qs : List (String × Option γ)}

@[simp] theorem text_append : text (ps ++ qs) = text ps ++ text qs := by
  induction ps with
  | nil => simp [text]
  | cons p ps ih => simp [text, ih, String.append_assoc]

theorem spans_cut_behind (pre : String) (ps : List (String × Option γ)) :
    List.Forall₂ (Cuts (pre ++ text ps)) (spans pre.utf8ByteSize ps) (coloured ps) := by
  induction ps generalizing pre with
  | nil => exact .nil
  | cons p ps ih =>
    obtain ⟨w, g⟩ := p
    have htail := ih (pre ++ w)
    rw [String.append_assoc, String.utf8ByteSize_append] at htail
    cases g with
    | none => exact htail
    | some g =>
      refine .cons ⟨rfl, pre, text ps, ?_, rfl, ?_⟩ htail
      · exact (String.append_assoc ..).symm
      · exact (String.utf8ByteSize_append ..).symm

/-- The spans of a line are where its pieces stand, one after the other. -/
theorem spans_cut (ps : List (String × Option γ)) :
    List.Forall₂ (Cuts (text ps)) (spans 0 ps) (coloured ps) := by
  have h := spans_cut_behind "" ps
  rwa [String.empty_append] at h

theorem start_spans {n : ℕ} {s : Span γ} (hs : s ∈ spans n ps) : n ≤ s.start := by
  induction ps generalizing n with
  | nil => cases hs
  | cons p ps ih =>
    obtain ⟨w, g⟩ := p
    cases g with
    | none => exact Nat.le_trans (Nat.le_add_right ..) (ih hs)
    | some g =>
      rcases List.mem_cons.mp hs with rfl | hs
      · exact Nat.le_refl _
      · exact Nat.le_trans (Nat.le_add_right ..) (ih hs)

theorem spans_apart (n : ℕ) (ps : List (String × Option γ)) :
    (spans n ps).Pairwise fun s t => s.stop ≤ t.start := by
  induction ps generalizing n with
  | nil => exact .nil
  | cons p ps ih =>
    obtain ⟨w, g⟩ := p
    cases g with
    | none => exact ih _
    | some g => exact .cons (fun t ht => start_spans ht) (ih _)

end Lib.Pieces
