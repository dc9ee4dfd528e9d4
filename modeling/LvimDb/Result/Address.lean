import LvimDb.Result.Coherence

/-!
# Which row a write addresses

The key of a row write is captured when the row is locked or its popup opens, the object
is read when the write is sent.
-/

namespace LvimDb.Result
open Engine (ConnId CallId CallStatus PageReply Column)

variable {V : Type}

/-- Every pair of the key is a column of the row's result and the row's value there. -/
def KeyOf (env : Env V) (f : Focus V) (key : List (String × V)) : Prop :=
  ∀ p ∈ key, ∃ (ci : ℕ) (col : Column), f.shown.page.columns[ci]? = some col ∧ col.name = p.1 ∧
    p.2 = cellAt env.null f.row ci

theorem indexOf_some {cols : List Column} {name : String} {ci : ℕ}
    (h : indexOf cols name = some ci) : ∃ col, cols[ci]? = some col ∧ col.name = name := by
  obtain ⟨⟨col, i⟩, hfind, rfl⟩ := Option.map_eq_some_iff.mp h
  have hname := List.find?_some hfind
  have hmem := List.mem_reverse.mp (List.mem_of_find?_eq_some hfind)
  refine ⟨col, ?_, of_decide_eq_true hname⟩
  exact List.mem_zipIdx_iff_getElem?.mp hmem

theorem addressOf_key {env : Env V} {f : Focus V} {key : List String} {w : List (String × V)}
    (h : addressOf env.null f.shown.page.columns f.row key = some w) : KeyOf env f w := by
  induction key generalizing w with
  | nil =>
    cases h
    exact fun p hp => by cases hp
  | cons name key ih =>
    simp only [addressOf, List.mapM_cons, Option.bind_eq_bind, Option.pure_def,
      Option.bind_eq_some_iff, Option.map_eq_some_iff, Option.some.injEq] at h
    obtain ⟨p, ⟨ci, hci, rfl⟩, w', hw', rfl⟩ := h
    intro p hp
    rcases List.mem_cons.mp hp with rfl | hp
    · obtain ⟨col, hcol, hname⟩ := indexOf_some hci
      exact ⟨ci, col, hcol, hname, rfl⟩
    · exact ih hw' p hp

namespace Dock
variable (env : Env V) (s : Dock V)

/-- The object is the origin of the run the row is from, and the key is the row's. -/
def Addresses (plan : Plan V) (f : Focus V) : Prop :=
  (∃ q, s.creator f.shown.call = some q ∧ q.origin = some plan.obj) ∧ KeyOf env f plan.key

/-- A preview that is about a row addresses it, and one for a new row has no key. -/
def Addressed : Prop :=
  ∀ n on plan, (∀ f, .previewed n on plan (.row f) ∈ s.hist → s.Addresses env plan f) ∧
    ∀ m, .previewed n on plan (.fresh m) ∈ s.hist → plan.key = []

/-- The page on screen is of the row's call. -/
def Holds (f : Focus V) : Prop := s.page.map Shown.call = some f.shown.call

/-- The grid on screen has the columns of the row's result. -/
def Lays (f : Focus V) : Prop := s.face.grid.map Grid.cols = some f.shown.page.columns

instance (f : Focus V) : Decidable (s.Holds f) := inferInstanceAs (Decidable (_ = _))
instance (f : Focus V) : Decidable (s.Lays f) := inferInstanceAs (Decidable (_ = _))

/-- What the dock shows when the key of a row operation is there. -/
def Ready : Op V → Prop
  | .lock f _ => s.Lays f
  | .popup f => s.Lays f
  | .delete f => s.Lays f ∧ s.Holds f
  | .insert _ => True

instance (op : Op V) : Decidable (s.Ready op) := by
  cases op <;> unfold Ready <;> infer_instance

/-- Whenever a row operation goes on, the dock still shows the row's result. -/
def StillShown (i : Input V) : Prop :=
  match i with
  | .editRow | .insertCell | .editPopup | .deleteRow => ∀ f ∈ s.focusedRow, s.Lays f
  | .saveEdit => ∀ e ∈ s.face.edit, s.Holds e.focus
  | .answer n r =>
    match s.waiting[n]?, r with
    | some (.columns _ op), .columns _ => s.Ready op
    | some (.popup f _ _ _), .saved _ => s.Holds f
    | _, _ => True
  | _ => True

instance (i : Input V) : Decidable (s.StillShown i) := by
  unfold StillShown
  rcases i with _ | _ <;> (try dsimp only) <;> try infer_instance
  rename_i n r
  rcases s.waiting[n]? with _ | c
  · infer_instance
  · rcases c with _ | _ <;> rcases r with _ | _ <;> infer_instance

/-- The steps that keep row addresses right. -/
def SteadyRows (i : Input V) : Prop := s.Steady env i ∧ s.StillShown i

/-- What holds of locked rows, row popups and previews as long as every step is such. -/
structure Pinned : Prop where
  sent : s.Addressed env
  locked : ∀ e, s.face.edit = some e → KeyOf env e.focus e.where_
  popups : ∀ f w cols origin, .popup f w cols origin ∈ s.waiting → KeyOf env f w

variable {env s}

theorem pinned_new : (new : Dock V).Pinned env where
  sent := fun _ _ _ => ⟨fun _ h => (List.not_mem_nil h).elim, fun _ h => (List.not_mem_nil h).elim⟩
  locked := fun _ h => by cases h
  popups := fun _ _ _ _ h => by cases h

theorem Addresses.issue {plan : Plan V} {f : Focus V} {cid : CallId} {x : Option Query}
    (hu : s.unissued cid = true) (h : s.Addresses env plan f) :
    (s.issue cid x).Addresses env plan f := by
  obtain ⟨⟨q, hq, ho⟩, hk⟩ := h
  exact ⟨⟨q, creator_issue hu hq, ho⟩, hk⟩

/-- All but row popups and row writes. -/
def aside : List Part :=
  [.plain, .data, .pages, .runs, .starts, .counts, .edits, .inserts, .docs]

theorem keeps_pinned (env : Env V) : Keeps aside (Pinned env) where
  plain := by decide
  face := fun hf h => by
    refine ⟨h.sent, fun e he => ?_, h.popups⟩
    rcases hf with (hf | hf) | hf
    · exact h.locked e (hf ▸ he)
    · have hnone : none = some e := hf.symm.trans he
      cases hnone
    · exact absurd hf (by decide)
  pend := fun {s e pending} he h => by
    have hk : KeyOf env e.focus e.where_ := h.locked e he
    refine ⟨h.sent, fun e' he' => ?_, h.popups⟩
    cases he'
    exact hk
  tell := fun {s e} he h => by
    refine ⟨fun n on plan => ⟨fun f hm => ?_, fun m hm => ?_⟩, h.locked, h.popups⟩
    · rcases List.mem_cons.mp hm with rfl | hm
      · exact absurd (show Part.writes ∈ aside from he) (by decide)
      · exact (h.sent n on plan).1 f hm
    · rcases List.mem_cons.mp hm with rfl | hm
      · exact absurd (show Part.writes ∈ aside from he) (by decide)
      · exact (h.sent n on plan).2 m hm
  wait := fun {s c} hc h => by
    refine ⟨h.sent, h.locked, fun f w cols origin hm => ?_⟩
    rcases List.mem_append.mp hm with hm | hm
    · exact h.popups f w cols origin hm
    · obtain rfl := List.mem_singleton.mp hm
      exact absurd (show Part.locks ∈ aside from hc) (by decide)
  later := fun _ h => ⟨h.sent, h.locked, h.popups⟩
  next := fun _ h => ⟨h.sent, h.locked, h.popups⟩
  source := fun _ h => ⟨h.sent, h.locked, h.popups⟩
  amend := fun _ h => ⟨h.sent, h.locked, h.popups⟩
  addEntry := fun h => ⟨h.sent, h.locked, h.popups⟩
  data := fun _ h => ⟨h.sent, h.locked, h.popups⟩
  page := fun _ h => ⟨h.sent, h.locked, h.popups⟩
  count := fun _ hu h =>
    ⟨fun n on plan => ⟨fun f hm => ((h.sent n on plan).1 f hm).issue hu, (h.sent n on plan).2⟩,
      h.locked, h.popups⟩
  register := fun _ hu h =>
    ⟨fun n on plan => ⟨fun f hm => ((h.sent n on plan).1 f hm).issue hu, (h.sent n on plan).2⟩,
      h.locked, h.popups⟩
  bind := fun _ h => ⟨h.sent, h.locked, h.popups⟩

theorem Pinned.dropped (h : s.Pinned env) (n : ℕ) : (s.drop n).Pinned env :=
  ⟨h.sent, h.locked,
    fun f w cols origin hm => h.popups f w cols origin (List.mem_of_mem_eraseIdx hm)⟩

/-- The origin is that of the run the row is from. -/
theorem Tracked.origin_of_row (ht : s.Tracked) {f : Focus V} {o : Origin} (hf : s.Holds f)
    (ho : s.origin = some o) : ∃ q, s.creator f.shown.call = some q ∧ q.origin = some o.source := by
  obtain ⟨p, hp, hcall⟩ := Option.map_eq_some_iff.mp hf
  obtain ⟨q, hq, _, _, horigin⟩ := ht.shown p.call (ht.page p hp)
  rw [hcall] at hq
  rw [ho] at horigin
  exact ⟨q, hq, horigin.symm⟩

theorem Pinned.writeRow (h : s.Pinned env) (ht : s.Tracked) {f : Focus V} {key : List (String × V)}
    (hk : KeyOf env f key) (hf : s.Holds f) (set : List (String × V)) (delete insert : Bool) :
    (s.writeRow set key delete insert (.row f)).Pinned env := by
  unfold Dock.writeRow
  split
  · rename_i c o hc ho
    refine ⟨fun n on plan => ⟨fun f' hm => ?_, fun m hm => ?_⟩, h.locked,
      fun f' w cols origin hm => ?_⟩
    · rcases List.mem_cons.mp hm with heq | hm
      · cases heq
        exact ⟨ht.origin_of_row hf ho, hk⟩
      · exact (h.sent n on plan).1 f' hm
    · rcases List.mem_cons.mp hm with heq | hm
      · cases heq
      · exact (h.sent n on plan).2 m hm
    · rcases List.mem_append.mp hm with hm | hm
      · exact h.popups f' w cols origin hm
      · cases List.mem_singleton.mp hm
  · exact h

theorem Pinned.insertRow (h : s.Pinned env) (set : List (String × V)) (n : ℕ) :
    (s.writeRow set [] false true (.fresh n)).Pinned env := by
  unfold Dock.writeRow
  split
  · refine ⟨fun n on plan => ⟨fun f' hm => ?_, fun m hm => ?_⟩, h.locked,
      fun f' w cols origin hm => ?_⟩
    · rcases List.mem_cons.mp hm with heq | hm
      · cases heq
      · exact (h.sent n on plan).1 f' hm
    · rcases List.mem_cons.mp hm with heq | hm
      · cases heq
        rfl
      · exact (h.sent n on plan).2 m hm
    · rcases List.mem_append.mp hm with hm | hm
      · exact h.popups f' w cols origin hm
      · cases List.mem_singleton.mp hm
  · exact h

theorem laid {g : Grid} {f : Focus V} (hg : s.face.grid = some g) (hl : s.Lays f) :
    g.cols = f.shown.page.columns := by
  unfold Lays at hl
  rw [hg] at hl
  exact Option.some.inj hl

theorem Pinned.startEdit (h : s.Pinned env) {f : Focus V} (hl : s.Lays f) (key : List String) :
    (s.startEdit env f key).Pinned env := by
  unfold Dock.startEdit
  split
  · rename_i g hg
    split
    · split
      · rename_i w hw
        rw [laid hg hl] at hw
        refine ⟨h.sent, fun e he => ?_, h.popups⟩
        cases he
        exact addressOf_key hw
      · exact h
    · exact h
  · exact h

theorem Pinned.openRowPopup (h : s.Pinned env) {f : Focus V} (hl : s.Lays f) (key : List String) :
    (s.openRowPopup env f key).Pinned env := by
  unfold Dock.openRowPopup
  split
  · rename_i g hg
    split
    · rename_i w hw
      rw [laid hg hl] at hw
      refine ⟨h.sent, h.locked, fun f' w' cols origin hm => ?_⟩
      rcases List.mem_append.mp hm with hm | hm
      · exact h.popups f' w' cols origin hm
      · cases List.mem_singleton.mp hm
        exact addressOf_key hw
    · exact h
  · exact h

theorem Pinned.removeRow (h : s.Pinned env) (ht : s.Tracked) {f : Focus V} (hl : s.Lays f)
    (hf : s.Holds f) (key : List String) : (s.removeRow env f key).Pinned env := by
  unfold Dock.removeRow
  split
  · rename_i g hg
    split
    · rename_i w hw
      rw [laid hg hl] at hw
      exact h.writeRow ht (addressOf_key hw) hf _ _ _
    · exact h
  · exact h

theorem Pinned.keyed (h : s.Pinned env) (ht : s.Tracked) {op : Op V} (hr : s.Ready op)
    (key : List String) : (s.keyed env op key).Pinned env := by
  cases op with
  | lock f after =>
    have hs : (s.startEdit env f key).Pinned env := h.startEdit hr key
    unfold Dock.keyed
    dsimp only
    split
    · exact (keeps_pinned env).editCell (by decide) hs
    · exact hs
  | popup f => exact h.openRowPopup hr key
  | delete f => exact h.removeRow ht hr.1 hr.2 key
  | insert n => exact h

theorem Pinned.goes (h : s.Pinned env) (ht : s.Tracked) {op : Op V} (hr : s.Ready op) :
    Goes env (Pinned env) s op := by
  intro o key ho
  have hp : ({ s with origin := o } : Dock V).Pinned env := (keeps_pinned env).source ho h
  exact hp.keyed ((keeps_tracked V).source ho ht) hr key

theorem Pinned.saveEdit (h : s.Pinned env) (ht : s.Tracked)
    (hs : ∀ e ∈ s.face.edit, s.Holds e.focus) : s.saveEdit.Pinned env := by
  have hc : s.cancelEdit.Pinned env := (keeps_pinned env).cancelEdit h
  have hpage : s.cancelEdit.page = s.page := by
    unfold cancelEdit
    split <;> rfl
  unfold Dock.saveEdit
  split
  · rename_i e g _ _ he _ _ _
    split
    · dsimp only
      split
      · exact hc
      · refine hc.writeRow ((keeps_tracked V).cancelEdit ht) (h.locked e he) ?_ _ _ _
        unfold Holds
        rw [hpage]
        exact hs e he
    · exact h
  · exact h

theorem Pinned.savePopup (h : s.Pinned env) (ht : s.Tracked) {f : Focus V}
    {w : List (String × V)} (hk : KeyOf env f w) (hf : s.Holds f) (cols : List Column)
    (origin : Option Source) (texts : List String) :
    (s.savePopup env f w cols origin texts).Pinned env := by
  have hstays : (s.wait (.popup f w cols origin)).Pinned env := by
    refine ⟨h.sent, h.locked, fun f' w' cols' origin' hm => ?_⟩
    rcases List.mem_append.mp hm with hm | hm
    · exact h.popups f' w' cols' origin' hm
    · cases List.mem_singleton.mp hm
      exact hk
  unfold Dock.savePopup
  dsimp only
  split
  · exact hstays
  · split
    · exact h
    · exact h.writeRow ht hk hf _ _ _
    · exact hstays

theorem focused_holds {f : Focus V} (h : s.focusedRow = some f) : s.Holds f := by
  unfold focusedRow at h
  split at h
  · rename_i p g hp hg
    split at h
    · unfold Shown.focus at h
      split at h
      · cases h
        unfold Holds
        rw [hp]
        rfl
      · cases h
    · cases h
  · cases h

theorem Pinned.perform (h : s.Pinned env) (k : Task V) : (s.perform env k).Pinned env := by
  have hr : Part.runs ∈ aside := by decide
  have hb : Part.starts ∈ aside := by decide
  have hd : Part.data ∈ aside := by decide
  have hg : Part.pages ∈ aside := by decide
  have hc : Part.counts ∈ aside := by decide
  cases k with
  | render => exact (keeps_pinned env).render h
  | failed done => exact (keeps_pinned env).finish hr h done false
  | landed offset done => exact (keeps_pinned env).land hr h offset done
  | guarded q t => exact (keeps_pinned env).run hr hb hd hg hc h _ _ _ _
  | askRun q t => exact (keeps_pinned env).wait hr h
  | askWrite n on plan statement target =>
    refine ⟨h.sent, h.locked, fun f w cols origin hm => ?_⟩
    rcases List.mem_append.mp hm with hm | hm
    · exact h.popups f w cols origin hm
    · cases List.mem_singleton.mp hm
  | refresh on target => exact (keeps_pinned env).refresh hr hb hd hg hc h on target

theorem Pinned.tells {e : Event V} (h : s.Pinned env)
    (he : ∀ n on plan target, e ≠ .previewed n on plan target) : (s.tell e).Pinned env := by
  refine ⟨fun n on plan => ⟨fun f hm => ?_, fun m hm => ?_⟩, h.locked, h.popups⟩
  · rcases List.mem_cons.mp hm with heq | hm
    · exact absurd heq.symm (he _ _ _ _)
    · exact (h.sent n on plan).1 f hm
  · rcases List.mem_cons.mp hm with heq | hm
    · exact absurd heq.symm (he _ _ _ _)
    · exact (h.sent n on plan).2 m hm

theorem Pinned.waits {c : Cont V} (h : s.Pinned env)
    (hc : ∀ f w cols origin, c ≠ .popup f w cols origin) : (s.wait c).Pinned env := by
  refine ⟨h.sent, h.locked, fun f w cols origin hm => ?_⟩
  rcases List.mem_append.mp hm with hm | hm
  · exact h.popups f w cols origin hm
  · exact absurd (List.mem_singleton.mp hm).symm (hc _ _ _ _)

theorem Pinned.applyRow (h : s.Pinned env) (plan : Plan V) (statement : String)
    (target : Target V) : (s.applyRow plan statement target).Pinned env := by
  unfold Dock.applyRow
  split
  · rename_i c hc
    have ht : ((s.addEntry ⟨c, statement, none⟩).tell (.applied c.id plan)).Pinned env :=
      ((keeps_pinned env).addEntry h).tells nofun
    exact ht.waits nofun
  · exact h

theorem Pinned.resumed {n : ℕ} {c : Cont V} {r : Reply V} {t : Dock V} (h : s.Pinned env)
    (ht : s.Tracked) (hg : s.StillShown (.answer n r)) (hc : s.waiting[n]? = some c)
    (hr : Resumed env (s.drop n) c r t) : t.Pinned env := by
  have hd : (s.drop n).Pinned env := h.dropped n
  have hdt : (s.drop n).Tracked := ht.dropped n
  have hruns : Part.runs ∈ aside := by decide
  have hmem : c ∈ s.waiting := List.mem_of_getElem? hc
  by_cases hdoc : c.part = .docs
  · exact (keeps_pinned env).answeredDoc (by decide) (by decide) hr hdoc hd
  by_cases hcount : c.part = .counts
  · exact (keeps_pinned env).answeredCount (by decide) hr hcount hd
  simp only [StillShown, hc] at hg
  cases hr with
  | described ref op fields =>
    have hset : ((s.drop n).setOrigin ref fun o =>
        { o with metaColumns := some fields }).Pinned env := (keeps_pinned env).setOrigin hd ref fun _ => rfl
    have hsett : ((s.drop n).setOrigin ref fun o =>
        { o with metaColumns := some fields }).Tracked := (keeps_tracked V).setOrigin hdt ref fun _ => rfl
    exact (keeps_pinned env).described (by decide) hset (hset.goes hsett hg) ref fields
  | popup f w cols origin texts =>
    exact hd.savePopup hdt (h.popups f w cols origin hmem) hg cols origin texts
  | insertForm fields m texts =>
    unfold Dock.saveInsert
    dsimp only
    split
    · exact hd.waits fun _ _ _ _ heq => by cases heq
    · exact hd.insertRow _ m
  | cellInput id f ci col text => exact (keeps_pinned env).applyCell hd id f ci col text
  | docInput f object text => exact (keeps_pinned env).replaceDoc (by decide) hd f object text
  | returned m on plan target text =>
    have htell : ((s.drop n).tell (.returned m text)).Pinned env :=
      hd.tells fun _ _ _ _ heq => by cases heq
    exact ⟨htell.sent, htell.locked, htell.popups⟩
  | accepted m on plan statement target =>
    have htell : ((s.drop n).tell (.accepted m statement)).Pinned env :=
      hd.tells fun _ _ _ _ heq => by cases heq
    exact htell.applyRow plan statement target
  | turned cid offset p => exact (keeps_pinned env).turn (by decide) hd cid p
  | registered k q offset done cid hu =>
    exact (keeps_pinned env).enroll hruns (by decide) (by decide) hd hu k q offset done
  | settled k offset done st hst => exact (keeps_pinned env).settle hruns hd k hst offset done
  | judged => exact (keeps_pinned env).judged hruns hd _ _ _
  | confirmed q t =>
    have htell : ((s.drop n).tell (.confirmed t.n)).Pinned env :=
      hd.tells fun _ _ _ _ heq => by cases heq
    exact (keeps_pinned env).run hruns (by decide) (by decide) (by decide) (by decide) htell _ _ _ _
  | declined => exact (keeps_pinned env).finish hruns hd _ _
  | refused | gone => exact hd
  | _ => first | exact absurd rfl hdoc | exact absurd rfl hcount

/-- A row operation that begins or is saved. -/
theorem Pinned.edited {i : Input V} {t : Dock V} (h : s.Pinned env) (ht : s.Tracked)
    (hg : s.StillShown i) (hed : i.edits = true) (hst : s.step env i = some t) : t.Pinned env := by
  have hedits : Part.edits ∈ aside := by decide
  cases i <;> first | (exact absurd hed Bool.false_ne_true) | (cases hst)
  case editRow => exact (keeps_pinned env).editRow hedits h false fun f hf => h.goes ht (hg f hf)
  case insertCell => exact (keeps_pinned env).insertCell hedits h fun f hf => h.goes ht (hg f hf)
  case editPopup => exact (keeps_pinned env).editPopup hedits h fun f hf => h.goes ht (hg f hf)
  case deleteRow =>
    exact (keeps_pinned env).deleteRow hedits h fun f hf => h.goes ht ⟨hg f hf, focused_holds hf⟩
  case newRow => exact (keeps_pinned env).newRow hedits (by decide) h
  case saveEdit => exact h.saveEdit ht hg

theorem Pinned.step {i : Input V} {t : Dock V} (h : s.Pinned env) (ht : s.Tracked)
    (hg : s.StillShown i) (hst : s.step env i = some t) : t.Pinned env := by
  have hruns : Part.runs ∈ aside := by decide
  have hdata : Part.data ∈ aside := by decide
  have hcounts : Part.counts ∈ aside := by decide
  refine (keeps_pinned env).step (by decide) h ?_ ?_ ?_ ?_ ?_ ?_ hst
  · intro q notify _
    exact (keeps_pinned env).runGuarded hruns h q notify
  · intro k _
    exact (keeps_pinned env).openCached hdata hcounts h k
  · intro _
    exact (keeps_pinned env).rerunCall hruns (by decide) hdata (by decide) hcounts h
  · intro hed
    exact h.edited ht hg hed hst
  · intro k ks _ _
    have hks : ({ s with queue := ks } : Dock V).Pinned env := ⟨h.sent, h.locked, h.popups⟩
    exact hks.perform k
  · rintro n r c rfl hc hr
    exact h.resumed ht hg hc hr

theorem rows_addressed {is : List (Input V)}
    (h : (machine env).Run (SteadyRows env) new is s) : s.Addressed env := by
  have hp : s.Pinned env := h.invariant_with Tracked (Pinned env)
    (fun _ _ _ hg hk hst => hk.step hg.1 hst)
    (fun _ _ _ hg hk hi hst => hi.step hk hg.2 hst) tracked_new pinned_new
  exact hp.sent

instance (i : Input V) : Decidable (s.SteadyRows env i) := inferInstanceAs (Decidable (_ ∧ _))

/-- The row of the key and the object of the last preview. -/
def lastPreview (s : Dock V) : Option (String × List (String × V) × Option CallId) :=
  match s.hist with
  | .previewed _ _ plan (.row f) :: _ => some (plan.obj.object, plan.key, some f.shown.call)
  | .previewed _ _ plan (.fresh _) :: _ => some (plan.obj.object, plan.key, none)
  | _ => none

/-- A table is browsed and its row removed. -/
def removing : List (Input ℕ) :=
  .ensureOpen :: browsing (browseOn connA "t") 1 [[7, 8]] ++
    [.deleteRow, .answer 0 (.columns [⟨"id", "integer", true⟩])]

theorem rows_addressed_one_delete :
    ∃ s, (machine tableEnv).Run (SteadyRows tableEnv) new removing s ∧
      s.lastPreview = some ("t", [("id", 7)], some 1) ∧ s.Addressed tableEnv := by
  let check := fun (s : Dock ℕ) (i : Input ℕ) => decide (s.SteadyRows tableEnv i)
  have hsome : ((machine tableEnv).execWith check new removing).map lastPreview =
      some (some ("t", [("id", 7)], some 1)) := by decide
  obtain ⟨s, hs, hlast⟩ := Option.map_eq_some_iff.mp hsome
  have hrun : (machine tableEnv).Run (SteadyRows tableEnv) new removing s :=
    Lib.Machine.run_of_execWith (fun _ _ => of_decide_eq_true) hs
  exact ⟨s, hrun, hlast, rows_addressed hrun⟩

/-- A row of `t` is locked and changed, the logged browse of `u` is reopened, and the lock is
saved. -/
def keptLock : List (Input ℕ) :=
  .ensureOpen :: browsing (browseOn connA "u") 1 [[7, 8]] ++
    browsing (browseOn connA "t") 2 [[7, 9]] ++
    [.editRow, .answer 0 (.columns [⟨"id", "integer", true⟩]), .move 0 1, .insertCell,
      .answer 0 (.typed "x"), .showLog, .move 1 0, .openLog, .saveEdit]

theorem kept_lock_writes_other_object :
    ∃ s, (machine tableEnv).exec new keptLock = some s ∧
      s.lastPreview = some ("u", [("id", 7)], some 2) ∧
      s.creator 2 = some (browseOn connA "t") ∧ ¬ s.Addressed tableEnv := by
  obtain ⟨s, hs, _⟩ := (machine tableEnv).exists_run new keptLock (by decide)
  have hview : ((machine tableEnv).exec new keptLock).map (fun s => (s.lastPreview, s.creator 2)) =
      some (some ("u", [("id", 7)], some 2), some (browseOn connA "t")) := rfl
  rw [hs] at hview
  simp only [Option.map_some, Option.some.injEq, Prod.mk.injEq] at hview
  obtain ⟨hlast, hcreator⟩ := hview
  refine ⟨s, hs, hlast, hcreator, fun h => ?_⟩
  unfold lastPreview at hlast
  split at hlast
  · rename_i n on plan f rest hhist
    simp only [Option.some.injEq, Prod.mk.injEq] at hlast
    obtain ⟨hobj, _, hcall⟩ := hlast
    obtain ⟨⟨q, hq, ho⟩, _⟩ := (h n on plan).1 f (hhist ▸ List.mem_cons_self ..)
    rw [hcall, hcreator] at hq
    cases hq
    rw [← Option.some.inj ho] at hobj
    exact absurd hobj (by decide)
  · simp at hlast
  · cases hlast

end Dock
end LvimDb.Result
