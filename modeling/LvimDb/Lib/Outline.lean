import Mathlib.Data.List.Basic
import Mathlib.Tactic.Common

/-!
# Outlines

A forest is listed node by node, what is below a node right behind it. A closed node hides what is
below it.
-/

namespace Lib

/-- A first node with what is below it, and the nodes after it. -/
inductive Outline (α : Type) : Type
  | nil
  | node (label : α) (below after : Outline α)

namespace Outline
variable {α β γ : Type}

def append : Outline α → Outline α → Outline α
  | nil, o => o
  | node a b r, o => node a b (r.append o)

/-- The trees of the elements of a list, one after the other. -/
def forest (f : γ → Outline α) : List γ → Outline α
  | [] => nil
  | c :: cs => (f c).append (forest f cs)

def labels : Outline α → List α
  | nil => []
  | node a b r => a :: (b.labels ++ r.labels)

/-- The nodes that are listed, with their depths. -/
def shown (isOpen : α → Bool) : ℕ → Outline α → List (ℕ × α)
  | _, nil => []
  | d, node a b r =>
    (d, a) :: ((if isOpen a then b.shown isOpen (d + 1) else []) ++ r.shown isOpen d)

variable {p q : α → Bool} {d : ℕ} {o o' : Outline α}

@[simp] theorem labels_append : (o.append o').labels = o.labels ++ o'.labels := by
  induction o with
  | nil => rfl
  | node a b r _ ih => simp [append, labels, ih]

theorem shown_append : (o.append o').shown p d = o.shown p d ++ o'.shown p d := by
  induction o generalizing d with
  | nil => rfl
  | node a b r _ ih => simp [append, shown, ih]

theorem labels_forest (f : γ → Outline α) (cs : List γ) :
    (forest f cs).labels = cs.flatMap fun c => (f c).labels := by
  induction cs with
  | nil => rfl
  | cons c cs ih => simp [forest, ih]

theorem mem_labels {x : ℕ × α} (hx : x ∈ o.shown p d) : x.2 ∈ o.labels ∧ d ≤ x.1 := by
  induction o generalizing d with
  | nil => cases hx
  | node a b r ihb ihr =>
    simp only [shown, List.mem_cons, List.mem_append] at hx
    simp only [labels, List.mem_cons, List.mem_append]
    rcases hx with rfl | hx | hx
    · exact ⟨.inl rfl, Nat.le_refl _⟩
    · split at hx
      · obtain ⟨hb, hd⟩ := ihb hx
        exact ⟨.inr (.inl hb), by omega⟩
      · cases hx
    · obtain ⟨hr, hd⟩ := ihr hx
      exact ⟨.inr (.inr hr), hd⟩

theorem shown_sublist : ((o.shown p d).map Prod.snd).Sublist o.labels := by
  induction o generalizing d with
  | nil => exact .slnil
  | node a b r ihb ihr =>
    rw [shown, labels, List.map_cons, List.map_append]
    refine .cons_cons a (.append ?_ ihr)
    split
    · exact ihb
    · exact List.nil_sublist _

/-- Of the nodes at most one of which is hit, all others that are listed are not. -/
theorem shown_others {hit : α → Bool} (hone : o.labels.countP hit ≤ 1) {x : ℕ × α}
    (hhit : hit x.2 = true) {before after : List (ℕ × α)}
    (hshown : o.shown p d = before ++ x :: after) : ∀ y ∈ before ++ after, hit y.2 = false := by
  have hle : ((o.shown p d).map Prod.snd).countP hit ≤ 1 :=
    Nat.le_trans shown_sublist.countP_le hone
  rw [hshown, List.map_append, List.map_cons, List.countP_append, List.countP_cons_of_pos hhit,
    ← Nat.add_assoc, ← List.countP_append, ← List.map_append] at hle
  intro y hy
  have hzero : ((before ++ after).map Prod.snd).countP hit = 0 := by omega
  simpa using List.countP_eq_zero.mp hzero y.2 (List.mem_map_of_mem hy)

theorem shown_congr (h : ∀ a ∈ o.labels, p a = q a) : o.shown p d = o.shown q d := by
  induction o generalizing d with
  | nil => rfl
  | node a b r ihb ihr =>
    simp only [labels, List.mem_cons, List.mem_append] at h
    simp only [shown, h a (.inl rfl), ihb fun x hx => h x (.inr (.inl hx)),
      ihr fun x hx => h x (.inr (.inr hx))]

/-- The first node that is listed is not below another. -/
theorem head_shown {x : ℕ × α} (hx : x ∈ (o.shown p d).head?) : x.1 = d := by
  cases o with
  | nil => cases hx
  | node a b r =>
    simp only [shown, List.head?_cons, Option.mem_some_iff] at hx
    rw [← hx]

/-- Two listings that differ by what one row has below it: a run of deeper rows that ends where
the next row is not deeper. -/
structure Differ (x : ℕ × α) (p q : α → Bool) (rows rows' : List (ℕ × α)) : Prop where
  split : ∃ before below below' after, rows = before ++ x :: (below ++ after) ∧
    rows' = before ++ x :: (below' ++ after) ∧
    (∀ y ∈ below ++ below', x.1 < y.1) ∧ (∀ y ∈ after.head?, y.1 ≤ x.1) ∧
    (p x.2 = false → below = []) ∧ (q x.2 = false → below' = [])

theorem Differ.inside {x : ℕ × α} {rows rows' post : List (ℕ × α)}
    (h : Differ x p q rows rows') (pre : List (ℕ × α))
    (hpost : ∀ y ∈ post.head?, y.1 ≤ x.1) :
    Differ x p q (pre ++ (rows ++ post)) (pre ++ (rows' ++ post)) := by
  obtain ⟨before, below, below', after, hrows, hrows', hdeep, hnext, hp, hq⟩ := h.split
  refine ⟨pre ++ before, below, below', after ++ post, ?_, ?_, hdeep, ?_, hp, hq⟩
  · rw [hrows]
    simp
  · rw [hrows']
    simp
  · intro y hy
    rw [List.head?_append] at hy
    cases hafter : after.head? with
    | some z =>
      rw [hafter, Option.some_or] at hy
      exact hnext y (hafter ▸ hy)
    | none =>
      rw [hafter, Option.none_or] at hy
      exact hpost y hy

theorem shown_same {hit : α → Bool} (hsame : ∀ a, hit a = false → p a = q a)
    (hnone : o.labels.countP hit = 0) : o.shown p d = o.shown q d :=
  shown_congr fun a ha => hsame a (by simpa using List.countP_eq_zero.mp hnone a ha)

/-- One node changes, and is listed: only the run of rows below it changes. -/
theorem shown_change {hit : α → Bool} (hone : o.labels.countP hit ≤ 1)
    (hsame : ∀ a, hit a = false → p a = q a) {x : ℕ × α} (hx : x ∈ o.shown p d)
    (hhit : hit x.2 = true) : Differ x p q (o.shown p d) (o.shown q d) := by
  induction o generalizing d with
  | nil => cases hx
  | node a b r ihb ihr =>
    simp only [labels, List.countP_cons, List.countP_append] at hone
    have hcount {o : Outline α} {d : ℕ} (hx : x ∈ o.shown p d) : 0 < o.labels.countP hit :=
      List.countP_pos_iff.mpr ⟨x.2, (mem_labels hx).1, hhit⟩
    rw [shown, shown]
    rcases List.mem_cons.mp hx with rfl | hx
    · -- the node itself: below it and after it there is none
      rw [if_pos hhit] at hone
      have hr : r.shown p d = r.shown q d := shown_same hsame (by omega)
      refine ⟨[], if p a then b.shown p (d + 1) else [], if q a then b.shown q (d + 1) else [],
        r.shown p d, rfl, ?_, ?_, fun y hy => Nat.le_of_eq (head_shown hy), ?_, ?_⟩
      · rw [hr]
        rfl
      · intro y hy
        rcases List.mem_append.mp hy with hy | hy
        · split at hy
          · exact (mem_labels hy).2
          · cases hy
        · split at hy
          · exact (mem_labels hy).2
          · cases hy
      · intro hpa
        exact if_neg (ne_true_of_eq_false hpa)
      · intro hqa
        exact if_neg (ne_true_of_eq_false hqa)
    · have hpq : hit a = false := by
        by_contra hita
        rw [if_pos (by simpa using hita)] at hone
        rcases List.mem_append.mp hx with hx | hx
        · split at hx
          · have := hcount hx
            omega
          · cases hx
        · have := hcount hx
          omega
      rw [← hsame a hpq]
      rcases List.mem_append.mp hx with hx | hx
      · split at hx
        · next hpa =>
          have hd : d < x.1 := (mem_labels hx).2
          have hb := hcount hx
          have hr : r.shown p d = r.shown q d := shown_same hsame (by omega)
          rw [if_pos hpa, if_pos hpa, ← hr]
          exact (ihb (by omega) hx).inside [(d, a)] fun y hy => head_shown hy ▸ Nat.le_of_lt hd
        · cases hx
      · have hr := hcount hx
        have hb : b.shown p (d + 1) = b.shown q (d + 1) := shown_same hsame (by omega)
        have hin := (ihr (by omega) hx).inside ((d, a) :: if p a then b.shown p (d + 1) else [])
          fun y (hy : y ∈ ([] : List (ℕ × α)).head?) => (by cases hy)
        simp only [List.append_nil] at hin
        rw [← hb]
        exact hin

end Outline

end Lib
