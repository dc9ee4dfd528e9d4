import LvimDb.Result.Frame

/-!
# The call ids the log accounts for

`M.run`, `M.write` and `fetch_total` as the calls another part of the plugin makes, in any
order, with the answers and the closures between them. Each gets a call id of the engine
and with it a buffer that lives until the id is released.
-/

namespace LvimDb.Result
open Engine (ConnId CallId CallStatus PageReply)

variable {V : Type}

inductive Order (V : Type)
  | run (why : Why) (q : Query) (offset : ℕ) (done : Option ℕ)
  | write (statement : String) (target : Target V)
  | count (src : Source)
  | tick
  | answer (n : ℕ) (r : Reply V)

/-- The callbacks of `M.run`, `M.write` and `fetch_total`. -/
def Cont.executes : Cont V → Bool
  | .run .. | .watch .. | .count | .countWatch .. | .countPage .. => true
  | .write .. | .writeWatch .. => true
  | _ => false

/-- The entry a run waits to register its call in. -/
def Cont.start : Cont V → Option ℕ
  | .run k _ _ _ => some k
  | _ => none

/-- The call of a count that is not over. -/
def Cont.counting : Cont V → Option CallId
  | .countWatch cid | .countPage cid => some cid
  | _ => none

def Event.freed : Event V → Option CallId
  | .released cid => some cid
  | _ => none

namespace Dock
variable (env : Env V) (s : Dock V)

def order : Order V → Option (Dock V)
  | .run why q offset done => some (s.run env why q offset done)
  | .write statement target => some (s.write statement target)
  | .count src => some (s.fetchTotal env src)
  | .tick => s.step env .tick
  | .answer n r =>
    match s.waiting[n]? with
    | some (.page ..) => s.step env (.answer n r)
    | some c => if c.executes then s.step env (.answer n r) else none
    | none => none

/-- The call ids the engine issued. -/
def ids : List CallId := s.issued.map Prod.fst

def freed : List CallId := s.hist.filterMap Event.freed

/-- The call id of an entry. -/
def callOf (k : ℕ) : Option CallId := s.heap[k]?.bind Entry.callId

/-- An entry of the log holds the call. -/
def Held (cid : CallId) : Prop := ∃ k ∈ s.calls, s.callOf k = some cid

instance (cid : CallId) : Decidable (s.Held cid) :=
  inferInstanceAs (Decidable (∃ k ∈ s.calls, s.callOf k = some cid))

/-- Every run, write and count was answered. -/
def Over : Prop := ∀ c ∈ s.waiting, c.executes = false

instance : Decidable s.Over := inferInstanceAs (Decidable (∀ c ∈ s.waiting, c.executes = false))

/-- The calls whose buffers are alive. -/
def unreleased : List CallId := s.ids.filter fun cid => cid ∉ s.freed

/-- No buffer is lost: one that is alive is held by the log, which holds `size` at most. -/
def Balanced (size : ℕ) : Prop :=
  (∀ cid ∈ s.unreleased, s.Held cid) ∧ s.unreleased.length ≤ size

instance (size : ℕ) : Decidable (s.Balanced size) :=
  inferInstanceAs (Decidable ((∀ cid ∈ s.unreleased, s.Held cid) ∧ s.unreleased.length ≤ size))

/-- The order appends an entry to the log. -/
def appends : Order V → Bool
  | .run .. => true
  | .write .. => s.conn.isSome
  | .tick =>
    match s.queue with
    | .refresh .. :: _ => s.statement.isSome
    | .guarded .. :: _ => true
    | _ => false
  | _ => false

/-- The entry that an append drops holds no call. -/
def Room : Prop := 200 ≤ s.calls.length → ∀ k ∈ s.calls.head?, s.callOf k = none

instance : Decidable s.Room :=
  inferInstanceAs (Decidable (200 ≤ s.calls.length → ∀ k ∈ s.calls.head?, s.callOf k = none))

/-- The answer leaves its call to somebody: no write gets a call id, a run gets one while its
entry is in the log, and a count is done. -/
def Keeping (n : ℕ) (r : Reply V) : Prop :=
  match s.waiting[n]?, r with
  | some (.write ..), .called _ => False
  | some (.run k _ _ _), .called _ => k ∈ s.calls
  | some (.countWatch _), .state st => st = .done
  | _, _ => True

instance (n : ℕ) (r : Reply V) : Decidable (s.Keeping n r) := by
  unfold Keeping
  rcases s.waiting[n]? with _ | c
  · infer_instance
  · rcases c with _ | _ <;> rcases r with _ | _ <;> infer_instance

/-- The order loses no call id. -/
def Frugal (o : Order V) : Prop :=
  (s.appends o = true → s.Room) ∧
    match o with
    | .answer n r => s.Keeping n r
    | _ => True

instance (o : Order V) : Decidable (s.Frugal o) := by
  unfold Frugal
  cases o <;> infer_instance

/-! ### What leaves the accounts alone -/

def starts : List ℕ := s.waiting.filterMap Cont.start
def counts : List CallId := s.waiting.filterMap Cont.counting

/-- The same calls are issued, held and waited for, and none is forgotten that was released. -/
structure Same (s t : Dock V) : Prop where
  issued : t.issued = s.issued
  calls : t.calls = s.calls
  heap : t.heap.map Entry.callId = s.heap.map Entry.callId
  freed : s.freed ⊆ t.freed
  starts : t.starts.Perm s.starts
  counts : s.counts ⊆ t.counts

variable {env s} {t u : Dock V}

theorem Same.refl (s : Dock V) : Same s s :=
  ⟨rfl, rfl, rfl, List.Subset.refl _, List.Perm.refl _, List.Subset.refl _⟩

theorem Same.trans (h : Same s t) (h' : Same t u) : Same s u where
  issued := h'.issued.trans h.issued
  calls := h'.calls.trans h.calls
  heap := h'.heap.trans h.heap
  freed := List.Subset.trans h.freed h'.freed
  starts := h'.starts.trans h.starts
  counts := List.Subset.trans h.counts h'.counts

theorem same_face (f : Face V) : Same s { s with face := f } :=
  ⟨rfl, rfl, rfl, List.Subset.refl _, List.Perm.refl _, List.Subset.refl _⟩

theorem same_later (k : Task V) : Same s (s.later k) :=
  ⟨rfl, rfl, rfl, List.Subset.refl _, List.Perm.refl _, List.Subset.refl _⟩

theorem same_page (offset : ℕ) (p : Option (Shown V)) :
    Same s { s with offset := offset, page := p } :=
  ⟨rfl, rfl, rfl, List.Subset.refl _, List.Perm.refl _, List.Subset.refl _⟩

theorem same_retarget (q : Query) (callId : Option CallId) (offset : ℕ) :
    Same s (s.retarget q callId offset) :=
  ⟨rfl, rfl, rfl, List.Subset.refl _, List.Perm.refl _, List.Subset.refl _⟩

theorem same_tell (e : Event V) : Same s (s.tell e) := by
  refine ⟨rfl, rfl, rfl, ?_, List.Perm.refl _, List.Subset.refl _⟩
  intro cid hcid
  obtain ⟨a, ha, hcid⟩ := List.mem_filterMap.mp hcid
  exact List.mem_filterMap.mpr ⟨a, List.mem_cons_of_mem e ha, hcid⟩

theorem filterMap_wait {α : Type} (f : Cont V → Option α) (c : Cont V) :
    (s.wait c).waiting.filterMap f = s.waiting.filterMap f ++ (f c).toList := by
  unfold wait
  dsimp only
  rw [List.filterMap_append]
  cases hc : f c with
  | none => simp [hc]
  | some a => simp [hc]

theorem starts_wait (c : Cont V) : (s.wait c).starts = s.starts ++ c.start.toList :=
  filterMap_wait Cont.start c

theorem counts_wait (c : Cont V) : (s.wait c).counts = s.counts ++ c.counting.toList :=
  filterMap_wait Cont.counting c

theorem same_wait {c : Cont V} (hc : c.start = none) : Same s (s.wait c) := by
  refine ⟨rfl, rfl, rfl, List.Subset.refl _, ?_, ?_⟩
  · rw [starts_wait, hc, Option.toList_none, List.append_nil]
  · rw [counts_wait]
    exact List.subset_append_left _ _

theorem same_send {e : Event V} {c : Cont V} (hc : c.start = none) : Same s (s.send e c) :=
  (same_tell e).trans (same_wait hc)

theorem same_amend (k : ℕ) (f : Entry → Entry) (hf : ∀ e, (f e).callId = e.callId) :
    Same s (s.amend k f) := by
  refine ⟨rfl, rfl, ?_, List.Subset.refl _, List.Perm.refl _, List.Subset.refl _⟩
  apply List.ext_getElem?
  intro j
  simp only [amend, List.getElem?_map, List.getElem?_modify, Option.map_eq_map, Option.map_map]
  congr 1
  funext e
  simp only [Function.comp_apply]
  split
  · exact hf e
  · rfl

theorem same_render : Same s s.render := same_face _

theorem same_cancelEdit : Same s s.cancelEdit := by
  unfold cancelEdit
  split
  · exact (same_face _).trans same_render
  · exact Same.refl s

theorem same_relog : Same s s.relog := by
  unfold relog
  split
  · exact same_later _
  · exact Same.refl s

theorem same_openDock : Same s s.openDock := by
  unfold openDock
  split
  · exact same_render
  · exact same_face _

theorem same_finish (done : Option ℕ) (ok : Bool) : Same s (s.finish done ok) := by
  cases done with
  | none => exact Same.refl s
  | some n => exact same_tell _

theorem same_gotoPage (offset : ℕ) : Same s (s.gotoPage env offset) := by
  unfold gotoPage
  split
  · exact same_send rfl
  · exact Same.refl s

theorem same_turn (cid : CallId) (p : PageReply V) : Same s (s.turn cid p) := by
  have hpage : Same s { s with offset := p.from_, page := some ⟨cid, p⟩ } := same_page _ _
  unfold turn
  dsimp only
  split
  · rename_i k _
    have hoffset := same_amend (s := { s with offset := p.from_, page := some ⟨cid, p⟩ }) k
      (fun e => { e with offset := p.from_ }) fun _ => rfl
    exact hpage.trans (hoffset.trans (same_later _))
  · exact hpage.trans (same_later _)

theorem same_fetchTotal (src : Source) : Same s (s.fetchTotal env src) := by
  unfold fetchTotal
  split
  · split
    · exact same_send rfl
    · exact Same.refl s
  · exact Same.refl s

theorem same_countRows (q : Query) : Same s (s.countRows env q) := by
  unfold countRows
  split
  · exact same_fetchTotal _
  · exact Same.refl s

theorem same_settle (k : ℕ) (st : CallStatus) (offset : ℕ) (done : Option ℕ) :
    Same s (s.settle k st offset done) := by
  have hrelog : Same s (s.amend k fun e => { e with state := st }).relog :=
    (same_amend k (fun e => { e with state := st }) fun _ => rfl).trans same_relog
  unfold settle
  dsimp only
  split
  · exact hrelog.trans (same_later _)
  · exact hrelog.trans (same_later _)

theorem same_land (offset : ℕ) (done : Option ℕ) : Same s (s.land env offset done) := by
  have hopen : Same s (openDock { s with face := { s.face with view := .result } }) :=
    (same_face _).trans same_openDock
  unfold land
  dsimp only
  split
  · exact hopen
  · exact hopen.trans ((same_gotoPage offset).trans (same_finish done true))

/-- A number that is not given to a call yet. -/
theorem unissued_iff {cid : CallId} : s.unissued cid = true ↔ cid ∉ s.ids := by
  unfold unissued ids
  rw [Option.isNone_iff_eq_none, List.lookup_eq_none_iff, List.mem_map]
  constructor
  · rintro h ⟨p, hp, rfl⟩
    have hne := h p hp
    simp at hne
  · intro h p hp
    simp only [ne_eq, bne_iff_ne]
    rintro rfl
    exact h ⟨p, hp, rfl⟩

/-- What a run does before its entry is appended. -/
theorem same_shown (env : Env V) (q : Query) :
    Same s (countRows env { s.cancelEdit.retarget q none 0 with page := none } q) :=
  same_cancelEdit.trans ((same_retarget q none 0).trans
    ((same_page 0 none).trans (same_countRows q)))

end Dock

/-- The orders as a machine. -/
def ledger (env : Env V) : Lib.Machine (Dock V) (Order V) where
  init := .new
  step := Dock.order env

end LvimDb.Result
