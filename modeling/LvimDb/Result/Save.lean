import LvimDb.Cell.Edit
import LvimDb.Result.Frame

/-!
# What a save sends

The changed fields of a locked row are kept apart from the row; a save hands them to `row_write` with
the key the row was locked by.
-/

namespace LvimDb.Result
open Daemon (Json)
open Engine (Column)

/-- What `row_write` is handed for a value; nil is the JSON null. The request is encoded after that:
`vim.json.encode` rounds the numbers and refuses those that are infinite. -/
def sent (v : Option Json) : Json := v.getD .null

/-- `row_pairs` (2580-2586). -/
def rowPairs (list : List (String × Option Json)) : List (String × Json) :=
  list.map fun f => (f.1, sent f.2)

/-- The plan as `row_write` is handed it, before it is encoded. -/
structure RowWrite where
  obj : Source
  key : List (String × Json)
  set : List (String × Json)
  delete : Bool
  insert : Bool

def Plan.rowWrite (p : Plan (Option Json)) : RowWrite :=
  ⟨p.obj, rowPairs p.key, rowPairs p.set, p.delete, p.insert⟩

/-- `v` is what the last edit of the field put there. -/
def LastAt {V : Type} (edits : List (ℕ × V)) (ci : ℕ) (v : V) : Prop :=
  ∃ before after, edits = before ++ (ci, v) :: after ∧ ∀ e ∈ after, e.1 ≠ ci

/-- The columns that were edited, in order, each with its last value. -/
def Carries (cols : List Column) (edits : List (ℕ × Option Json)) (set : List (String × Json)) :
    Prop :=
  ∃ cis : List ℕ, cis.Pairwise (· < ·) ∧
    (∀ ci, ci ∈ cis ↔ ci < cols.length ∧ ∃ v, (ci, v) ∈ edits) ∧
    List.Forall₂ (fun ci p => ∃ col v, cols[ci]? = some col ∧ LastAt edits ci v ∧
      p = (col.name, sent v)) cis set

theorem lookup_reverse_iff {V : Type} {edits : List (ℕ × V)} {ci : ℕ} {v : V} :
    edits.reverse.lookup ci = some v ↔ LastAt edits ci v := by
  rw [List.lookup_eq_some_iff]
  constructor
  · rintro ⟨after, before, heq, hne⟩
    refine ⟨before.reverse, after.reverse, ?_, fun e he => ?_⟩
    · rw [← List.reverse_reverse edits, heq]
      simp
    · have := hne e (List.mem_reverse.mp he)
      exact fun h => by simp [h] at this
  · rintro ⟨before, after, rfl, hne⟩
    refine ⟨after.reverse, before.reverse, by simp, fun e he => ?_⟩
    have hci : e.1 ≠ ci := hne e (List.mem_reverse.mp he)
    simpa using Ne.symm hci

theorem edited_iff {V : Type} {edits : List (ℕ × V)} {ci : ℕ} :
    (edits.reverse.lookup ci).isSome = true ↔ ∃ v, (ci, v) ∈ edits := by
  rw [List.lookup_isSome_iff]
  constructor
  · rintro ⟨⟨i, v⟩, hmem, heq⟩
    obtain rfl : ci = i := eq_of_beq heq
    exact ⟨v, List.mem_reverse.mp hmem⟩
  · rintro ⟨v, hmem⟩
    exact ⟨(ci, v), List.mem_reverse.mpr hmem, beq_self_eq_true ci⟩

theorem forall₂_filterMap {α β γ : Type} {R : γ → β → Prop} {f : α → Option β} {g : α → γ}
    {l : List α} (h : ∀ a ∈ l, ∀ b, f a = some b → R (g a) b) :
    List.Forall₂ R ((l.filter fun a => (f a).isSome).map g) (l.filterMap f) := by
  induction l with
  | nil => exact .nil
  | cons a l ih =>
    have ih := ih fun x hx => h x (List.mem_cons_of_mem a hx)
    cases hf : f a with
    | none => simpa [hf] using ih
    | some b =>
      have hb : R (g a) b := h a List.mem_cons_self b hf
      simpa [hf] using And.intro hb ih

/-- What `save_edit` collects. -/
def changed {V : Type} (cols : List Column) (pending : List (ℕ × V)) : List (String × V) :=
  cols.zipIdx.filterMap fun c => (pending.lookup c.2).map (c.1.name, ·)

theorem carries_changed (cols : List Column) (edits : List (ℕ × Option Json)) :
    Carries cols edits (rowPairs (changed cols edits.reverse)) := by
  refine ⟨(cols.zipIdx.filter fun c => (edits.reverse.lookup c.2).isSome).map Prod.snd, ?_,
    fun ci => ?_, ?_⟩
  · have hrange : (cols.zipIdx.map Prod.snd).Pairwise (· < ·) := by
      rw [List.zipIdx_map_snd]
      exact List.pairwise_lt_range'
    exact hrange.sublist (List.filter_sublist.map Prod.snd)
  · simp only [List.mem_map, List.mem_filter, Prod.exists, exists_eq_right,
      List.mem_zipIdx_iff_getElem?, edited_iff, exists_and_right]
    refine and_congr_left fun _ => ⟨?_, fun hlt => ⟨cols[ci], List.getElem?_eq_getElem hlt⟩⟩
    rintro ⟨col, hcol⟩
    exact (List.getElem?_eq_some_iff.mp hcol).1
  · unfold rowPairs changed
    rw [List.map_filterMap]
    have hsome : (fun c : Column × ℕ => (edits.reverse.lookup c.2).isSome) =
        fun c => (((edits.reverse.lookup c.2).map (c.1.name, ·)).map
          fun f : String × Option Json => (f.1, sent f.2)).isSome := by
      funext c
      simp
    rw [hsome]
    refine forall₂_filterMap fun c hc p hp => ?_
    simp only [Option.map_map, Option.map_eq_some_iff, Function.comp_apply] at hp
    obtain ⟨v, hv, rfl⟩ := hp
    exact ⟨c.1, v, List.mem_zipIdx_iff_getElem?.mp hc, lookup_reverse_iff.mp hv, rfl⟩

namespace Dock
variable {V : Type}

section
variable (env : Env V) (s : Dock V)

/-- Nothing but the cursor, the fields of the locked row and what is typed into them. -/
def Editing : Input V → Prop
  | .move .. | .insertCell => True
  | .enter => s.face.view = .result
  | .answer n (.typed _) | .answer n .closed =>
    ∃ id f ci col, s.waiting[n]? = some (.cellInput id f ci col)
  | _ => False

/-- The field of the locked row that an input changes, and its new value. -/
def accepts : Input V → Option (ℕ × V)
  | .answer n (.typed text) =>
    match s.face.edit, s.waiting[n]? with
    | some e, some (.cellInput id f ci col) =>
      if e.id = id then
        (env.coerce text (cellAt env.null f.row ci) s.driver col).toOption.map (ci, ·)
      else none
    | _, _ => none
  | _ => none

end

/-- The accepted edits of a run, in their order. -/
def accepted (env : Env V) : Dock V → List (Input V) → List (ℕ × V)
  | _, [] => []
  | s, i :: is =>
    (s.accepts env i).toList ++ ((s.step env i).map fun t => accepted env t is).getD []

/-- From `s` to `t` the lock is held, and `edits` are added to it. -/
structure Typed (s t : Dock V) (edits : List (ℕ × V)) : Prop where
  edit : t.face.edit = s.face.edit.map fun e => { e with pending := edits.reverse ++ e.pending }
  isOpen : t.face.isOpen = s.face.isOpen
  grid : t.face.grid = s.face.grid
  conn : t.conn = s.conn
  origin : t.origin = s.origin

variable {env : Env V} {s t u : Dock V} {edits edits' : List (ℕ × V)}

theorem Typed.refl (s : Dock V) : Typed s s [] where
  edit := by simp
  isOpen := rfl
  grid := rfl
  conn := rfl
  origin := rfl

theorem Typed.trans (h : Typed s t edits) (h' : Typed t u edits') : Typed s u (edits ++ edits') where
  edit := by
    rw [h'.edit, h.edit, Option.map_map]
    simp [Function.comp_def]
  isOpen := h'.isOpen.trans h.isOpen
  grid := h'.grid.trans h.grid
  conn := h'.conn.trans h.conn
  origin := h'.origin.trans h.origin

theorem typed_wait (s : Dock V) (c : Cont V) : Typed s (s.wait c) [] :=
  { Typed.refl s with }

theorem typed_drop {n : ℕ} (h : Typed (s.drop n) t edits) : Typed s t edits :=
  { h with }

theorem editCell_typed (s : Dock V) : Typed s (s.editCell env) [] := by
  unfold Dock.editCell
  split
  · split
    · dsimp only
      split
      · exact .refl s
      · split
        · split
          · exact typed_wait s _
          · exact .refl s
        · split
          · exact typed_wait s _
          · exact .refl s
    · exact .refl s
  · exact .refl s

theorem applyCell_typed {s : Dock V} {e : Edit V} (he : s.face.edit = some e) (id : ℕ) (f : Focus V)
    (ci : ℕ) (col : Column) (text : String) :
    Typed s (s.applyCell env id f ci col text)
      (if e.id = id then
        (env.coerce text (cellAt env.null f.row ci) s.driver col).toOption.map (ci, ·)
      else none).toList := by
  unfold Dock.applyCell
  rw [he]
  dsimp only
  cases env.coerce text (cellAt env.null f.row ci) s.driver col with
  | error why =>
    have hnone : (if e.id = id then (Except.toOption (.error why)).map (ci, ·) else none) =
        (none : Option (ℕ × V)) := ite_self _
    rw [hnone]
    exact .refl s
  | ok v =>
    dsimp only
    by_cases hid : e.id = id
    · rw [if_pos hid, if_pos hid]
      refine ⟨?_, rfl, rfl, rfl, rfl⟩
      rw [he]
      rfl
    · rw [if_neg hid, if_neg hid]
      exact .refl s

/-- One input while a row is edited. -/
theorem editing_step {i : Input V} (he : s.face.edit.isSome = true) (hi : s.Editing i)
    (hst : s.step env i = some t) : Typed s t (s.accepts env i).toList := by
  cases i with
  | move line col =>
    cases hst
    exact { Typed.refl s with }
  | insertCell =>
    cases hst
    rw [Dock.insertCell, if_pos he]
    exact editCell_typed s
  | enter =>
    cases hst
    have hview : s.face.view = .result := hi
    rw [Dock.enter, if_pos hview, if_pos he]
    exact editCell_typed s
  | answer n r =>
    cases r with
    | typed text =>
      obtain ⟨id, f, ci, col, hw⟩ := hi
      obtain ⟨e, he⟩ := Option.isSome_iff_exists.mp he
      have ht : (s.drop n).applyCell env id f ci col text = t := by
        simp only [Dock.step, hw, Dock.resume, Option.some.injEq] at hst
        exact hst
      have hacc : s.accepts env (.answer n (.typed text)) = if e.id = id then
          (env.coerce text (cellAt env.null f.row ci) s.driver col).toOption.map (ci, ·)
          else none := by
        simp only [accepts, he, hw]
      rw [hacc, ← ht]
      have hdrop : (s.drop n).face.edit = some e := he
      exact typed_drop (applyCell_typed hdrop id f ci col text)
    | closed =>
      obtain ⟨id, f, ci, col, hw⟩ := hi
      have ht : s.drop n = t := by
        simp only [Dock.step, hw, Dock.resume, Option.some.injEq] at hst
        exact hst
      rw [← ht]
      exact typed_drop (.refl _)
    | _ => exact hi.elim
  | _ => exact hi.elim

/-- A run of edits. -/
theorem editing_run {is : List (Input V)} (he : s.face.edit.isSome = true)
    (h : (machine env).Run Editing s is t) : Typed s t (accepted env s is) := by
  induction h with
  | nil s => exact .refl s
  | @cons s s' t i is hi hst _ ih =>
    have hstep : Typed s s' (s.accepts env i).toList := editing_step he hi hst
    have he' : s'.face.edit.isSome = true := by rw [hstep.edit, Option.isSome_map, he]
    have hacc : accepted env s (i :: is) =
        (s.accepts env i).toList ++ accepted env s' is := by
      have hst' : s.step env i = some s' := hst
      simp [accepted, hst']
    rw [hacc]
    exact hstep.trans (ih he')

theorem saveEdit_eq {e : Edit V} {g : Grid} {o : Origin} {c : Conn} (he : s.face.edit = some e)
    (hg : s.face.grid = some g) (ho : s.origin = some o) (hc : s.conn = some c)
    (hopen : s.face.isOpen = true) :
    s.saveEdit = if (changed g.cols e.pending).isEmpty then s.cancelEdit
      else s.cancelEdit.writeRow (changed g.cols e.pending) e.where_ false false (.row e.focus) := by
  unfold Dock.saveEdit
  rw [he, hg, ho, hc]
  dsimp only
  rw [if_pos hopen]
  rfl

theorem cancelEdit_rest (s : Dock V) : ∃ f, s.cancelEdit = { s with face := f } := by
  unfold Dock.cancelEdit
  split
  · exact ⟨_, rfl⟩
  · exact ⟨s.face, rfl⟩

/-- From the lock of a row, through any edits of it, to what the save sends. -/
theorem save_sends_edits (env : Env (Option Json)) {s t : Dock (Option Json)}
    {f : Focus (Option Json)} {key : List String} {g : Grid} {w : List (String × Option Json)}
    {c : Conn} {o : Origin} {is : List (Input (Option Json))} (hopen : s.face.isOpen = true)
    (hg : s.face.grid = some g) (hf : f.ri < g.height)
    (hw : addressOf env.null g.cols f.row key = some w) (hc : s.conn = some c)
    (ho : s.origin = some o) (h : (machine env).Run Editing (s.startEdit env f key) is t) :
    ∃ set, Carries g.cols (accepted env (s.startEdit env f key) is) set ∧
      (set = [] → t.saveEdit.hist = t.hist) ∧
      (set ≠ [] → ∃ plan, t.saveEdit.hist = .previewed t.next c.id plan (.row f) :: t.hist ∧
        plan.rowWrite = ⟨o.source, rowPairs w, set, false, false⟩) := by
  have hlock : s.startEdit env f key =
      { s with face := { s.face with edit := some ⟨s.next, f, w, []⟩ }, next := s.next + 1 } := by
    simp only [Dock.startEdit, hg, if_pos hf, hw]
  have hrun := editing_run (by rw [hlock]; rfl) h
  generalize accepted env (s.startEdit env f key) is = edits at hrun ⊢
  rw [hlock] at hrun
  have he : t.face.edit = some ⟨s.next, f, w, edits.reverse⟩ := by
    rw [hrun.edit]
    simp
  have hsave := saveEdit_eq he (hrun.grid.trans hg) (hrun.origin.trans ho) (hrun.conn.trans hc)
    (hrun.isOpen.trans hopen)
  obtain ⟨f', hcancel⟩ := cancelEdit_rest t
  refine ⟨_, carries_changed g.cols edits, fun hnil => ?_, fun hne => ?_⟩
  · have hempty : changed g.cols edits.reverse = [] := List.map_eq_nil_iff.mp hnil
    rw [hsave]
    dsimp only
    rw [hempty, hcancel]
    rfl
  · have hsome : (changed g.cols edits.reverse).isEmpty = false := by
      rw [List.isEmpty_eq_false_iff]
      exact fun hnil => hne (List.map_eq_nil_iff.mpr hnil)
    refine ⟨⟨o.source, w, changed g.cols edits.reverse, false, false⟩, ?_, rfl⟩
    rw [hsave]
    dsimp only
    rw [hsome, hcancel, if_neg Bool.false_ne_true]
    have hconn : t.conn = some c := hrun.conn.trans hc
    have horigin : t.origin = some o := hrun.origin.trans ho
    simp only [Dock.writeRow, hconn, horigin]
    rfl

/-- Texts and truth values. -/
def textEnv : Env (Option Json) where
  null := none
  proto := 30
  edits := fun _ => true
  count := fun _ _ => none
  confirmDestructive := false
  isDestructive := fun _ => false
  verdict := fun _ _ => false
  cache := some 50
  pageSize := 1
  cellDisplay := fun _ => ""
  coerce := fun text orig _ _ =>
    if text = "NULL" then .ok none
    else
      match orig with
      | some (.bool _) => .ok (some (if text = "false" then .bool false else .str text))
      | _ => .ok (some (.str text))
  fieldEditable := fun _ _ _ => true
  parseCell := fun text _ => some (.str text)
  replaceDocument := fun _ _ _ => none

def textCols : List Column := [⟨"id", "text"⟩, ⟨"v", "text"⟩, ⟨"b", "bool"⟩]

def textRow : Focus (Option Json) where
  shown :=
    ⟨1, ⟨textCols, [[some (.str "k"), some (.str "x"), some (.bool true)]], 0, false, none, none⟩⟩
  ri := 0
  row := [some (.str "k"), some (.str "x"), some (.bool true)]
  held := rfl

/-- The row is on screen. -/
def textDock : Dock (Option Json) :=
  { new with
    face := ⟨true, .result, some ⟨textCols, 1⟩, none, (0, 0), []⟩
    conn := some connA
    origin := some (.new 0 ⟨none, "t"⟩)
    next := 1 }

/-- The key is changed, one field twice and one to false. -/
def typing : List (Input (Option Json)) :=
  [.insertCell, .answer 0 (.typed "l"), .move 0 1, .insertCell, .answer 0 (.typed "y"),
    .move 0 2, .enter, .answer 0 (.typed "false"), .move 0 1, .enter, .answer 0 (.typed "NULL")]

/-- A test of the condition. -/
def edited (s : Dock V) : Input V → Bool
  | .move .. | .insertCell => true
  | .enter => s.face.view = .result
  | .answer n (.typed _) =>
    match s.waiting[n]? with
    | some (.cellInput ..) => true
    | _ => false
  | _ => false

theorem editing_of_edited (s : Dock V) (i : Input V) (h : s.edited i = true) : s.Editing i := by
  cases i with
  | move | insertCell => trivial
  | enter =>
    have hview : s.face.view = .result := of_decide_eq_true h
    exact hview
  | answer n r =>
    cases r with
    | typed text =>
      unfold edited at h
      dsimp only at h
      split at h
      · rename_i id f ci col hw
        exact ⟨id, f, ci, col, hw⟩
      · cases h
    | _ => cases h
  | _ => cases h

theorem save_sends_edits_typed : ∃ t set,
    (machine textEnv).Run Editing (textDock.startEdit textEnv textRow ["id"]) typing t ∧
      Carries textCols
        [(0, some (.str "l")), (1, some (.str "y")), (2, some (.bool false)), (1, none)] set ∧
      (set = [] → t.saveEdit.hist = t.hist) ∧
      (set ≠ [] → ∃ plan, t.saveEdit.hist = .previewed t.next 1 plan (.row textRow) :: t.hist ∧
        plan.rowWrite = ⟨⟨none, "t"⟩, [("id", .str "k")], set, false, false⟩) := by
  have hexec : ((machine textEnv).execWith edited (textDock.startEdit textEnv textRow ["id"])
      typing).isSome = true := rfl
  obtain ⟨t, ht⟩ := Option.isSome_iff_exists.mp hexec
  have hrun : (machine textEnv).Run Editing (textDock.startEdit textEnv textRow ["id"]) typing t :=
    Lib.Machine.run_of_execWith editing_of_edited ht
  obtain ⟨set, hset, hnone, hsome⟩ := save_sends_edits textEnv rfl rfl (by decide) rfl rfl rfl hrun
  exact ⟨t, set, hrun, hset, hnone, hsome⟩

end Dock
end LvimDb.Result
