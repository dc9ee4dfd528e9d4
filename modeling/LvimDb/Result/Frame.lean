import LvimDb.Result.Inputs

/-!
# What the dock's operations leave alone

An invariant of the dock reads few of its fields. It is enough to know which kinds of
events, callbacks and closures it is indifferent to, and whether it reads what the dock
shows: every operation that adds only such things keeps it.
-/

namespace LvimDb.Result
open Engine (ConnId CallId CallStatus)

inductive Part
  | plain
  | data
  | pages
  | runs
  | starts
  | counts
  | edits
  | locks
  | inserts
  | writes
  | docs
  deriving DecidableEq

variable {V : Type}

def Event.part : Event V → Part
  | .paged .. | .released .. | .cancelled .. | .classified .. | .described .. => .plain
  | .asked .. | .confirmed .. | .ran .. | .raised .. | .finished .. => .runs
  | .counted .. => .counts
  | .began .. => .inserts
  | .previewed .. | .returned .. | .accepted .. | .applied .. => .writes
  | .wrote .. => .docs

def Cont.part : Cont V → Part
  | .page .. => .plain
  | .run .. => .starts
  | .watch .. | .classify .. | .guardDialog .. => .runs
  | .count | .countWatch .. | .countPage .. => .counts
  | .columns .. | .insertForm .. | .cellInput .. | .docInput .. => .edits
  | .popup .. => .locks
  | .preview .. | .writeDialog .. => .writes
  | .apply .. | .write .. | .writeWatch .. => .docs

def Task.part : Task V → Part
  | .render => .plain
  | .failed .. | .landed .. | .guarded .. | .askRun .. => .runs
  | .askWrite .. => .writes
  | .refresh .. => .docs

/-- An entry's run stays, its call stays or is given up, and it does not run again. -/
structure Mild (f : Entry → Entry) : Prop where
  query : ∀ e, (f e).query = e.query
  callId : ∀ e, (f e).callId = e.callId ∨ (f e).callId = none
  state : ∀ e, e.state ≠ .running → (f e).state ≠ .running

structure Keeps (parts : List Part) (P : Dock V → Prop) : Prop where
  plain : .plain ∈ parts
  face : ∀ {s f}, (f.edit = s.face.edit ∨ f.edit = none) ∨ .locks ∈ parts →
    P s → P { s with face := f }
  pend : ∀ {s e pending}, s.face.edit = some e → P s →
    P { s with face := { s.face with edit := some { e with pending := pending } } }
  tell : ∀ {s e}, e.part ∈ parts → P s → P (s.tell e)
  wait : ∀ {s c}, c.part ∈ parts → P s → P (s.wait c)
  later : ∀ {s t}, t.part ∈ parts → P s → P (s.later t)
  next : ∀ {s n}, s.next ≤ n → P s → P { s with next := n }
  source : ∀ {s o}, o.map Origin.source = s.origin.map Origin.source →
    P s → P { s with origin := o }
  amend : ∀ {s k f}, Mild f → P s → P (s.amend k f)
  addEntry : ∀ {s q}, P s → P (s.addEntry q)
  data : ∀ {s conn statement origin callId offset}, .data ∈ parts → P s →
    P { s with
      conn := conn, statement := statement, origin := origin, callId := callId
      offset := offset }
  page : ∀ {s page offset}, .pages ∈ parts → P s → P { s with page := page, offset := offset }
  count : ∀ {s cid}, .counts ∈ parts → s.unissued cid = true → P s → P (s.issue cid none)
  register : ∀ {s cid q}, .starts ∈ parts → s.unissued cid = true → P s → P (s.issue cid (some q))
  bind : ∀ {s k cid}, .starts ∈ parts → P s → P (s.amend k fun e => { e with callId := some cid })

theorem mild_offset (n : ℕ) : Mild fun e => { e with offset := n } :=
  ⟨fun _ => rfl, fun _ => .inl rfl, fun _ h => h⟩

theorem mild_release : Mild fun e => { e with callId := none } :=
  ⟨fun _ => rfl, fun _ => .inr rfl, fun _ h => h⟩

theorem mild_state {st : CallStatus} (h : st ≠ .running) : Mild fun e => { e with state := st } :=
  ⟨fun _ => rfl, fun _ => .inl rfl, fun _ _ => h⟩

/-- Whatever is known of the origin by then, going on with `op` once the key is there keeps
`P`. -/
def Goes (env : Env V) (P : Dock V → Prop) (s : Dock V) (op : Op V) : Prop :=
  ∀ (o : Option Origin) (key : List String), o.map Origin.source = s.origin.map Origin.source →
    P ({ s with origin := o }.keyed env op key)

theorem setOrigin_source {s : Dock V} (ref : ℕ) {f : Origin → Origin}
    (hf : ∀ o, (f o).source = o.source) :
    (s.setOrigin ref f).origin.map Origin.source = s.origin.map Origin.source := by
  unfold Dock.setOrigin
  cases s.origin with
  | none => rfl
  | some o =>
    simp only [Option.map_some, Option.some.injEq]
    split
    · exact hf o
    · rfl

namespace Keeps
open Dock
variable {parts : List Part} {P : Dock V → Prop} {env : Env V} {s : Dock V}

theorem send {e : Event V} {c : Cont V} (h : Keeps parts P) (he : e.part ∈ parts)
    (hc : c.part ∈ parts) (hs : P s) : P (s.send e c) :=
  h.wait hc (h.tell he hs)

/-! ### Showing -/

theorem rendered_edit : s.rendered.edit = s.face.edit := by
  unfold rendered
  split
  · split
    · rfl
    · rfl
  · rfl

theorem render (h : Keeps parts P) (hs : P s) : P s.render :=
  h.face (.inl (.inl rendered_edit)) hs

theorem cancelEdit (h : Keeps parts P) (hs : P s) : P s.cancelEdit := by
  unfold Dock.cancelEdit
  split
  · exact h.render (h.face (.inl (.inr rfl)) hs)
  · exact hs

theorem setView (h : Keeps parts P) (hs : P s) (v : View) : P (s.setView v) :=
  h.render (h.face (.inl (.inl rfl)) hs)

theorem openDock (h : Keeps parts P) (hs : P s) : P s.openDock := by
  unfold Dock.openDock
  split
  · exact h.render hs
  · exact h.face (.inl (.inl rfl)) hs

theorem close (h : Keeps parts P) (hs : P s) : P s.close := h.face (.inl (.inr rfl)) hs

theorem reopen (h : Keeps parts P) (hs : P s) : P s.reopen := by
  unfold Dock.reopen
  split
  · exact hs
  · exact h.render (h.openDock hs)

theorem ensureOpen (h : Keeps parts P) (hs : P s) : P s.ensureOpen := by
  unfold Dock.ensureOpen
  split
  · exact h.render hs
  · exact h.render (h.openDock hs)

theorem showLog (h : Keeps parts P) (hs : P s) : P s.showLog := by
  unfold Dock.showLog
  split
  · exact h.openDock hs
  · exact h.setView (h.openDock hs) .log

theorem relog (h : Keeps parts P) (hs : P s) : P s.relog := by
  unfold Dock.relog
  split
  · exact h.later h.plain hs
  · exact hs

theorem finish (h : Keeps parts P) (hr : .runs ∈ parts) (hs : P s) (done : Option ℕ) (ok : Bool) :
    P (s.finish done ok) := by
  cases done with
  | none => exact hs
  | some n => exact h.tell hr hs

/-! ### Paging -/

theorem gotoPage (h : Keeps parts P) (hs : P s) (offset : ℕ) : P (s.gotoPage env offset) := by
  unfold Dock.gotoPage
  split
  · exact h.send h.plain h.plain hs
  · exact hs

theorem nextPage (h : Keeps parts P) (hs : P s) : P (s.nextPage env) := by
  unfold Dock.nextPage
  split
  · split
    · exact h.gotoPage hs _
    · exact hs
  · exact hs

theorem prevPage (h : Keeps parts P) (hs : P s) : P (s.prevPage env) := h.gotoPage hs _

theorem turned (h : Keeps parts P) {cid : CallId} {p : Engine.PageReply V}
    (hs : P { s with offset := p.from_, page := some ⟨cid, p⟩ }) : P (s.turn cid p) := by
  unfold Dock.turn
  dsimp only
  split
  · exact h.later h.plain (h.amend (mild_offset _) hs)
  · exact h.later h.plain hs

theorem turn (h : Keeps parts P) (hg : .pages ∈ parts) (hs : P s) (cid : CallId)
    (p : Engine.PageReply V) : P (s.turn cid p) :=
  h.turned (h.page hg hs)

theorem cancelCall (h : Keeps parts P) (hs : P s) : P s.cancelCall := by
  unfold Dock.cancelCall
  split
  · split
    · split
      · exact h.tell h.plain hs
      · exact hs
    · exact hs
  · exact hs

/-! ### Running -/

theorem countRows (h : Keeps parts P) (hc : .counts ∈ parts) (hs : P s) (q : Query) :
    P (s.countRows env q) := by
  unfold Dock.countRows
  split
  · unfold fetchTotal
    split
    · split
      · exact h.send hc hc hs
      · exact hs
    · exact hs
  · exact hs

theorem retarget (h : Keeps parts P) (hd : .data ∈ parts) (hs : P s) (q : Query)
    (callId : Option CallId) (offset : ℕ) : P (s.retarget q callId offset) := by
  have hn : P { s with next := s.next + 1 } := h.next (Nat.le_succ _) hs
  exact h.data hd hn

theorem release (h : Keeps parts P) (hs : P s) (k : ℕ) : P (s.release k) := by
  unfold Dock.release
  split
  · exact h.amend mild_release (h.tell h.plain hs)
  · exact hs

theorem releases (h : Keeps parts P) (hs : P s) (ks : List ℕ) : P (ks.foldl Dock.release s) := by
  induction ks generalizing s with
  | nil => exact hs
  | cons k ks ih => exact ih (h.release hs k)

theorem evict (h : Keeps parts P) (hs : P s) (prev : Option CallId) (cid : CallId) :
    P (s.evict env prev cid) := by
  unfold Dock.evict
  split
  · exact h.releases hs _
  · split
    · split
      · exact hs
      · exact h.tell h.plain hs
    · exact hs

theorem cleared (h : Keeps parts P) (hc : .counts ∈ parts) {q : Query}
    (hs : P { s.cancelEdit.retarget q none 0 with page := none }) : P (s.clear env q) :=
  h.relog (h.addEntry (h.countRows hc hs q))

theorem clear (h : Keeps parts P) (hd : .data ∈ parts) (hg : .pages ∈ parts)
    (hc : .counts ∈ parts) (hs : P s) (q : Query) : P (s.clear env q) :=
  h.cleared hc (h.page hg (h.retarget hd (h.cancelEdit hs) q none 0))

theorem settled (h : Keeps parts P) (hs : P s) (k : ℕ) {st : CallStatus} (hst : st ≠ .running) :
    P (s.amend k fun e => { e with state := st }).relog :=
  h.relog (h.amend (mild_state hst) hs)

/-! ### Runs as a whole, for what is indifferent to them -/

section Runs
variable (hr : .runs ∈ parts) (hb : .starts ∈ parts) (hd : .data ∈ parts)
  (hg : .pages ∈ parts) (hc : .counts ∈ parts)
include hr

theorem want (h : Keeps parts P) (hs : P s) (q : Query) : P (s.want q) :=
  h.next (Nat.le_succ _) (h.tell hr hs)

theorem judged (h : Keeps parts P) (hs : P s) (q : Query) (t : Ticket) (dangerous : Bool) :
    P (s.judged q t dangerous) := by
  unfold Dock.judged
  split
  · exact h.later hr hs
  · exact h.later hr hs

theorem runGuarded (h : Keeps parts P) (hs : P s) (q : Query) (notify : Bool) :
    P (s.runGuarded env q notify) := by
  unfold Dock.runGuarded
  dsimp only
  split
  · split
    · exact h.judged hr (h.want hr hs q) q _ _
    · exact h.send h.plain hr (h.want hr hs q)
  · exact h.judged hr (h.want hr hs q) q _ _

theorem settle (h : Keeps parts P) (hs : P s) (k : ℕ) {st : CallStatus} (hst : st ≠ .running)
    (offset : ℕ) (done : Option ℕ) : P (s.settle k st offset done) := by
  unfold Dock.settle
  dsimp only
  split
  · exact h.later hr (h.settled hs k hst)
  · exact h.later hr (h.settled hs k hst)

theorem land (h : Keeps parts P) (hs : P s) (offset : ℕ) (done : Option ℕ) :
    P (s.land env offset done) := by
  have ho : P (Dock.openDock { s with face := { s.face with view := .result } }) :=
    h.openDock (h.face (.inl (.inl rfl)) hs)
  unfold Dock.land
  dsimp only
  split
  · exact ho
  · exact h.finish hr (h.gotoPage ho offset) done true

include hb hd

theorem enroll (h : Keeps parts P) (hs : P s) {cid : CallId} (hu : s.unissued cid = true)
    (k : ℕ) (q : Query) (offset : ℕ) (done : Option ℕ) :
    P (s.register env k q offset done cid) := by
  have hi : P (s.issue cid (some q)) := h.register hb hu hs
  have hw : P ((s.issue cid (some q)).wait (.watch k offset done)) := h.wait hr hi
  exact h.evict (h.data hd (h.bind hb hw)) _ _

include hg hc

theorem run (h : Keeps parts P) (hs : P s) (why : Why) (q : Query) (offset : ℕ)
    (done : Option ℕ) : P (s.run env why q offset done) := by
  unfold Dock.run
  split
  · exact h.tell hr (h.cancelEdit hs)
  · exact h.send hr hb (h.clear hd hg hc hs q)

theorem again (h : Keeps parts P) (hs : P s) (q : Query) : P (s.again env q) :=
  h.run hr hb hd hg hc (h.want hr hs q) _ _ _ _

theorem refresh (h : Keeps parts P) (hs : P s) (on : Conn) (target : Target V) :
    P (s.refresh env on target) := by
  unfold Dock.refresh
  split
  · exact h.run hr hb hd hg hc hs _ _ _ _
  · exact hs

theorem rerunCall (h : Keeps parts P) (hs : P s) : P (s.rerunCall env) := by
  unfold Dock.rerunCall
  split
  · exact h.again hr hb hd hg hc hs _
  · exact hs

end Runs

theorem opened (h : Keeps parts P) (hc : .counts ∈ parts) (hs : P s) (k : ℕ)
    (hr : ∀ e cid, s.heap[k]? = some e → e.callId = some cid →
      P (s.retarget e.query (some cid) e.offset)) : P (s.openCached env k) := by
  unfold Dock.openCached
  split
  · rename_i e he
    split
    · rename_i cid hcid
      have hv : P (((s.retarget e.query (some cid) e.offset).countRows env e.query).setView
          .result) := h.setView (h.countRows hc (hr e cid he hcid) e.query) .result
      dsimp only
      split
      · exact hv
      · exact h.gotoPage hv _
    · exact hs
  · exact hs

theorem openCached (h : Keeps parts P) (hd : .data ∈ parts) (hc : .counts ∈ parts) (hs : P s)
    (k : ℕ) : P (s.openCached env k) :=
  h.opened hc hs k fun e cid _ _ => h.retarget hd hs e.query (some cid) e.offset

/-! ### Row operations, with what they do once the key is known -/

theorem setOrigin (h : Keeps parts P) (hs : P s) (ref : ℕ) {f : Origin → Origin}
    (hf : ∀ o, (f o).source = o.source) : P (s.setOrigin ref f) :=
  h.source (setOrigin_source ref hf) hs

theorem applyCell (h : Keeps parts P) (hs : P s) (id : ℕ) (f : Focus V) (ci : ℕ)
    (col : Engine.Column) (text : String) : P (s.applyCell env id f ci col text) := by
  unfold Dock.applyCell
  split
  · rename_i e he
    split
    · split
      · exact h.pend he hs
      · exact hs
    · exact hs
  · exact hs

section Edits
variable (he : .edits ∈ parts)
include he

theorem editCell (h : Keeps parts P) (hs : P s) : P (s.editCell env) := by
  unfold Dock.editCell
  split
  · split
    · dsimp only
      split
      · exact hs
      · split
        · split
          · exact h.wait he hs
          · exact hs
        · split
          · exact h.wait he hs
          · exact hs
    · exact hs
  · exact hs

theorem openInsertForm (h : Keeps parts P) (hs : P s) (fields : List Field) (n : ℕ) :
    P (s.openInsertForm fields n) := by
  unfold Dock.openInsertForm
  split
  · exact h.wait he hs
  · exact hs

theorem described (h : Keeps parts P) (hs : P s) {op : Op V} (hk : Goes env P s op) (ref : ℕ)
    (fields : List Field) : P (s.described env ref op fields) := by
  have hset : ∀ key, P (s.setOrigin ref fun o => { o with key := some key }) :=
    fun key => h.setOrigin hs ref fun _ => rfl
  cases op with
  | insert n =>
    unfold Dock.described
    dsimp only
    split
    · exact hs
    · exact h.openInsertForm he hs _ _
  | _ =>
    unfold Dock.described
    dsimp only
    split
    · exact hset _
    · exact hk _ _ (setOrigin_source ref fun _ => rfl)

theorem resolveColumns (h : Keeps parts P) (hs : P s) {op : Op V} (hk : Goes env P s op) :
    P (s.resolveColumns env op) := by
  unfold Dock.resolveColumns
  split
  · split
    · exact h.described he hs hk _ _
    · exact h.send h.plain he hs
  · exact hs

theorem resolveKey (h : Keeps parts P) (hs : P s) {op : Op V} (hk : Goes env P s op) :
    P (s.resolveKey env op) := by
  unfold Dock.resolveKey
  split
  · rename_i o ho
    split
    · split
      · exact hs
      · exact hk s.origin _ rfl
    · exact h.resolveColumns he hs hk
  · exact hs

theorem editRow (h : Keeps parts P) (hs : P s) (after : Bool)
    (hk : ∀ f, s.focusedRow = some f → Goes env P s (.lock f after)) : P (s.editRow env after) := by
  unfold Dock.editRow
  split
  · split
    · rename_i f hf
      exact h.resolveKey he hs (hk f hf)
    · exact hs
  · exact hs

theorem insertCell (h : Keeps parts P) (hs : P s)
    (hk : ∀ f, s.focusedRow = some f → Goes env P s (.lock f true)) : P (s.insertCell env) := by
  unfold Dock.insertCell
  split
  · exact h.editCell he hs
  · exact h.editRow he hs true hk

theorem editPopup (h : Keeps parts P) (hs : P s)
    (hk : ∀ f, s.focusedRow = some f → Goes env P s (.popup f)) : P (s.editPopup env) := by
  unfold Dock.editPopup
  split
  · split
    · rename_i f hf
      exact h.resolveKey he hs (hk f hf)
    · exact hs
  · exact hs

theorem deleteRow (h : Keeps parts P) (hs : P s)
    (hk : ∀ f, s.focusedRow = some f → Goes env P s (.delete f)) : P (s.deleteRow env) := by
  unfold Dock.deleteRow
  split
  · split
    · rename_i f hf
      exact h.resolveKey he hs (hk f hf)
    · exact hs
  · exact hs

theorem newRow (h : Keeps parts P) (hi : .inserts ∈ parts) (hs : P s) : P (s.newRow env) := by
  unfold Dock.newRow
  split
  · have ht : P (s.tell (.began s.next s.browse)) := h.tell hi hs
    have hn : P { s.tell (.began s.next s.browse) with next := s.next + 1 } :=
      h.next (Nat.le_succ _) ht
    exact h.resolveColumns he hn fun _ _ ho => h.source ho hn
  · exact hs

end Edits

/-! ### The key is known -/

theorem startEdit (h : Keeps parts P) (hl : .locks ∈ parts) (hs : P s) (f : Focus V)
    (key : List String) : P (s.startEdit env f key) := by
  unfold Dock.startEdit
  split
  · split
    · split
      · have hn : P { s with next := s.next + 1 } := h.next (Nat.le_succ _) hs
        exact h.face (.inr hl) hn
      · exact hs
    · exact hs
  · exact hs

theorem openRowPopup (h : Keeps parts P) (hl : .locks ∈ parts) (hs : P s) (f : Focus V)
    (key : List String) : P (s.openRowPopup env f key) := by
  unfold Dock.openRowPopup
  split
  · split
    · exact h.wait hl hs
    · exact hs
  · exact hs

theorem writeRow (h : Keeps parts P) (hw : .writes ∈ parts) (hs : P s) (set key : List (String × V))
    (delete insert : Bool) (target : Target V) : P (s.writeRow set key delete insert target) := by
  unfold Dock.writeRow
  split
  · exact h.next (Nat.le_succ _) (h.send hw hw hs)
  · exact hs

theorem applyRow (h : Keeps parts P) (hw : .writes ∈ parts) (hd : .docs ∈ parts) (hs : P s)
    (plan : Plan V) (statement : String) (target : Target V) :
    P (s.applyRow plan statement target) := by
  unfold Dock.applyRow
  split
  · exact h.send hw hd (h.addEntry hs)
  · exact hs

/-! ### Row writes as a whole, for what keeps their first step -/

section Writes
variable (hwr : ∀ {s : Dock V} (set key : List (String × V)) (delete insert : Bool)
  (target : Target V), P s → P (s.writeRow set key delete insert target))
include hwr

theorem removeRow (hs : P s) (f : Focus V) (key : List String) : P (s.removeRow env f key) := by
  unfold Dock.removeRow
  split
  · split
    · exact hwr _ _ _ _ _ hs
    · exact hs
  · exact hs

theorem saveEdit (h : Keeps parts P) (hs : P s) : P s.saveEdit := by
  unfold Dock.saveEdit
  split
  · split
    · dsimp only
      split
      · exact h.cancelEdit hs
      · exact hwr _ _ _ _ _ (h.cancelEdit hs)
    · exact hs
  · exact hs

theorem saveInsert (h : Keeps parts P) (he : .edits ∈ parts) (hs : P s) (fields : List Field)
    (n : ℕ) (texts : List String) : P (s.saveInsert env fields n texts) := by
  unfold Dock.saveInsert
  dsimp only
  split
  · exact h.wait he hs
  · exact hwr _ _ _ _ _ hs

theorem savePopup (h : Keeps parts P) (hl : .locks ∈ parts) (hs : P s) (f : Focus V)
    (where_ : List (String × V)) (cols : List Engine.Column) (origin : Option Source)
    (texts : List String) : P (s.savePopup env f where_ cols origin texts) := by
  unfold Dock.savePopup
  dsimp only
  split
  · exact h.wait hl hs
  · split
    · exact hs
    · exact hwr _ _ _ _ _ hs
    · exact h.wait hl hs

theorem keyed (h : Keeps parts P) (he : .edits ∈ parts) (hl : .locks ∈ parts) (hs : P s)
    (op : Op V) (key : List String) : P (s.keyed env op key) := by
  cases op with
  | lock f after =>
    unfold Dock.keyed
    dsimp only
    split
    · exact h.editCell he (h.startEdit hl hs f key)
    · exact h.startEdit hl hs f key
  | popup f => exact h.openRowPopup hl hs f key
  | delete f => exact removeRow hwr hs f key
  | insert n => exact hs

theorem goes (h : Keeps parts P) (he : .edits ∈ parts) (hl : .locks ∈ parts) (hs : P s)
    (op : Op V) : Goes env P s op :=
  fun _ key ho => keyed hwr h he hl (h.source ho hs) op key

end Writes

theorem write (h : Keeps parts P) (hd : .docs ∈ parts) (hs : P s) (statement : String)
    (target : Target V) : P (s.write statement target) := by
  unfold Dock.write
  split
  · exact h.send hd hd (h.addEntry hs)
  · exact hs

theorem replaceDoc (h : Keeps parts P) (hd : .docs ∈ parts) (hs : P s) (f : Focus V)
    (object text : String) : P (s.replaceDoc env f object text) := by
  unfold Dock.replaceDoc
  split
  · split
    · split
      · exact h.cancelEdit hs
      · exact h.write hd (h.cancelEdit hs) _ _
    · exact hs
  · exact hs

end Keeps

/-! ### One input -/

open Dock

variable {parts : List Part} {P : Dock V → Prop} {env : Env V} {s t : Dock V}

/-- The inputs that show, page or cancel. -/
def Input.shows : Input V → Bool
  | .move .. | .view .. | .update | .reopen | .ensureOpen | .showLog | .close | .cancel | .next
  | .prev | .cancelEdit => true
  | _ => false

theorem Keeps.shown (h : Keeps parts P) {i : Input V} (hi : i.shows = true) (hs : P s)
    (hst : s.step env i = some t) : P t := by
  cases i <;> first | (exact absurd hi Bool.false_ne_true) | (cases hst)
  case move => exact h.face (.inl (.inl rfl)) hs
  case view v => exact h.setView hs v
  case update => exact h.render hs
  case reopen => exact h.reopen hs
  case ensureOpen => exact h.ensureOpen hs
  case showLog => exact h.showLog hs
  case close => exact h.close hs
  case cancel => exact h.cancelCall hs
  case next => exact h.nextPage hs
  case prev => exact h.prevPage hs
  case cancelEdit => exact h.cancelEdit hs

/-- The inputs that begin or end a row operation. -/
def Input.edits : Input V → Bool
  | .editRow | .insertCell | .editPopup | .deleteRow | .newRow | .saveEdit => true
  | _ => false

theorem Keeps.edited (h : Keeps parts P) (he : .edits ∈ parts) (hl : .locks ∈ parts)
    (hi : .inserts ∈ parts)
    (hwr : ∀ {s : Dock V} (set key : List (String × V)) (delete insert : Bool)
      (target : Target V), P s → P (s.writeRow set key delete insert target))
    {i : Input V} (hed : i.edits = true) (hs : P s) (hst : s.step env i = some t) : P t := by
  have hk : ∀ op, Goes env P s op := fun op => Keeps.goes hwr h he hl hs op
  cases i <;> first | (exact absurd hed Bool.false_ne_true) | (cases hst)
  case editRow => exact h.editRow he hs false fun f _ => hk _
  case insertCell => exact h.insertCell he hs fun f _ => hk _
  case editPopup => exact h.editPopup he hs fun f _ => hk _
  case deleteRow => exact h.deleteRow he hs fun f _ => hk _
  case newRow => exact h.newRow he hi hs
  case saveEdit => exact Keeps.saveEdit hwr h hs

/-! ### One answer -/

/-- What the answer to a callback does. -/
inductive Resumed (env : Env V) (s : Dock V) : Cont V → Reply V → Dock V → Prop
  | turned (cid : CallId) (offset : ℕ) (p : Engine.PageReply V) :
      Resumed env s (.page cid offset) (.page (.ready p)) (s.turn cid p)
  | refused (k : ℕ) (q : Query) (offset : ℕ) (done : Option ℕ) :
      Resumed env s (.run k q offset done) .failed s
  | registered (k : ℕ) (q : Query) (offset : ℕ) (done : Option ℕ) (cid : CallId) :
      s.unissued cid = true →
      Resumed env s (.run k q offset done) (.called cid) (s.register env k q offset done cid)
  | settled (k offset : ℕ) (done : Option ℕ) (st : CallStatus) : st ≠ .running →
      Resumed env s (.watch k offset done) (.state st) (s.settle k st offset done)
  | counting (cid : CallId) : s.unissued cid = true →
      Resumed env s .count (.called cid) ((s.issue cid none).wait (.countWatch cid))
  | totalling (cid : CallId) :
      Resumed env s (.countWatch cid) (.state .done) (s.send (.paged cid 0 1) (.countPage cid))
  | counted (cid : CallId) (r : Reply V) :
      Resumed env s (.countPage cid) r (s.tell (.released cid))
  | judged (q : Query) (t : Ticket) (r : Reply V) (b : Bool) :
      (r = .verdict b ∧ b = env.verdict q.conn.driver q.statement) ∨
        (r = .failed ∧ b = env.isDestructive q.statement) →
      Resumed env s (.classify q t) r (s.judged q t b)
  | confirmed (q : Query) (t : Ticket) :
      Resumed env s (.guardDialog q t) (.answer true)
        ((s.tell (.confirmed t.n)).run env (.user t.n (some true)) q 0 t.done)
  | declined (q : Query) (t : Ticket) :
      Resumed env s (.guardDialog q t) (.answer false) (s.finish t.done false)
  | described (ref : ℕ) (op : Op V) (fields : List Field) :
      Resumed env s (.columns ref op) (.columns fields)
        ((s.setOrigin ref fun o => { o with metaColumns := some fields }).described env ref op
          fields)
  | returned (n : ℕ) (on : ConnId) (plan : Plan V) (target : Target V) (text : String) :
      Resumed env s (.preview n on plan target) (.statement text)
        ((s.tell (.returned n text)).later (.askWrite n on plan text target))
  | accepted (n : ℕ) (on : ConnId) (plan : Plan V) (statement : String) (target : Target V) :
      Resumed env s (.writeDialog n on plan statement target) (.answer true)
        ((s.tell (.accepted n statement)).applyRow plan statement target)
  | written (k : ℕ) (on : Conn) (target : Target V) :
      Resumed env s (.apply k on target) .written
        ((s.amend k fun e => { e with state := .done }).later (.refresh on target))
  | unwritten (k : ℕ) (on : Conn) (target : Target V) :
      Resumed env s (.apply k on target) .failed (s.amend k fun e => { e with state := .failed })
  | writing (k : ℕ) (on : Conn) (target : Target V) (cid : CallId) : s.unissued cid = true →
      Resumed env s (.write k on target) (.called cid)
        ((s.issue cid none).wait (.writeWatch k on target))
  | wrote (k : ℕ) (on : Conn) (target : Target V) (st : CallStatus) : st ≠ .running →
      Resumed env s (.writeWatch k on target) (.state st)
        (if st = .done then
          (s.amend k fun e => { e with state := st }).later (.refresh on target)
        else s.amend k fun e => { e with state := st })
  | popup (f : Focus V) (where_ : List (String × V)) (cols : List Engine.Column)
      (origin : Option Source) (texts : List String) :
      Resumed env s (.popup f where_ cols origin) (.saved texts)
        (s.savePopup env f where_ cols origin texts)
  | insertForm (fields : List Field) (n : ℕ) (texts : List String) :
      Resumed env s (.insertForm fields n) (.saved texts) (s.saveInsert env fields n texts)
  | cellInput (id : ℕ) (f : Focus V) (ci : ℕ) (col : Engine.Column) (text : String) :
      Resumed env s (.cellInput id f ci col) (.typed text) (s.applyCell env id f ci col text)
  | docInput (f : Focus V) (object text : String) :
      Resumed env s (.docInput f object) (.typed text) (s.replaceDoc env f object text)
  | gone (c : Cont V) (r : Reply V) : c.part ≠ .runs → c.part ≠ .starts → Resumed env s c r s

theorem resumed {c : Cont V} {r : Reply V} (h : s.resume env c r = some t) :
    Resumed env s c r t := by
  cases c with
  | page cid offset =>
    cases r with
    | page p =>
      cases p with
      | notReady =>
        cases h
        exact .gone _ _ nofun nofun
      | ready p =>
        cases h
        exact .turned cid offset p
    | failed =>
      cases h
      exact .gone _ _ nofun nofun
    | _ => cases h
  | run k q offset done =>
    cases r with
    | called cid =>
      obtain ⟨hu, heq⟩ := Option.ite_none_right_eq_some.mp h
      cases heq
      exact .registered k q offset done cid hu
    | failed =>
      cases h
      exact .refused k q offset done
    | _ => cases h
  | watch k offset done =>
    cases r with
    | state st =>
      obtain ⟨hst, heq⟩ := Option.ite_none_left_eq_some.mp h
      cases heq
      exact .settled k offset done st hst
    | _ => cases h
  | count =>
    cases r with
    | called cid =>
      obtain ⟨hu, heq⟩ := Option.ite_none_right_eq_some.mp h
      cases heq
      exact .counting cid hu
    | failed =>
      cases h
      exact .gone _ _ nofun nofun
    | _ => cases h
  | countWatch cid =>
    cases r with
    | state st =>
      obtain ⟨hst, heq⟩ := Option.ite_none_left_eq_some.mp h
      by_cases hd : st = .done
      · subst hd
        cases heq
        exact .totalling cid
      · rw [if_neg hd] at heq
        cases heq
        exact .gone _ _ nofun nofun
    | _ => cases h
  | countPage cid =>
    cases r with
    | page p =>
      cases h
      exact .counted cid _
    | failed =>
      cases h
      exact .counted cid _
    | _ => cases h
  | classify q t =>
    cases r with
    | verdict b =>
      obtain ⟨hb, heq⟩ := Option.ite_none_right_eq_some.mp h
      cases heq
      exact .judged q t _ b (.inl ⟨rfl, hb⟩)
    | failed =>
      cases h
      exact .judged q t _ _ (.inr ⟨rfl, rfl⟩)
    | _ => cases h
  | guardDialog q t =>
    cases r with
    | answer yes =>
      cases yes with
      | true =>
        cases h
        exact .confirmed q t
      | false =>
        cases h
        exact .declined q t
    | _ => cases h
  | columns ref op =>
    cases r with
    | columns fields =>
      cases h
      exact .described ref op fields
    | failed =>
      cases h
      exact .gone _ _ nofun nofun
    | _ => cases h
  | preview n on plan target =>
    cases r with
    | statement text =>
      cases h
      exact .returned n on plan target text
    | failed =>
      cases h
      exact .gone _ _ nofun nofun
    | _ => cases h
  | writeDialog n on plan statement target =>
    cases r with
    | answer yes =>
      cases yes with
      | true =>
        cases h
        exact .accepted n on plan statement target
      | false =>
        cases h
        exact .gone _ _ nofun nofun
    | _ => cases h
  | apply k on target =>
    cases r with
    | written =>
      cases h
      exact .written k on target
    | failed =>
      cases h
      exact .unwritten k on target
    | _ => cases h
  | write k on target =>
    cases r with
    | called cid =>
      obtain ⟨hu, heq⟩ := Option.ite_none_right_eq_some.mp h
      cases heq
      exact .writing k on target cid hu
    | failed =>
      cases h
      exact .gone _ _ nofun nofun
    | _ => cases h
  | writeWatch k on target =>
    cases r with
    | state st =>
      obtain ⟨hst, heq⟩ := Option.ite_none_left_eq_some.mp h
      cases heq
      exact .wrote k on target st hst
    | _ => cases h
  | popup f where_ cols origin =>
    cases r with
    | saved texts =>
      cases h
      exact .popup f where_ cols origin texts
    | closed =>
      cases h
      exact .gone _ _ nofun nofun
    | _ => cases h
  | insertForm fields n =>
    cases r with
    | saved texts =>
      cases h
      exact .insertForm fields n texts
    | closed =>
      cases h
      exact .gone _ _ nofun nofun
    | _ => cases h
  | cellInput id f ci col =>
    cases r with
    | typed text =>
      cases h
      exact .cellInput id f ci col text
    | closed =>
      cases h
      exact .gone _ _ nofun nofun
    | _ => cases h
  | docInput f object =>
    cases r with
    | typed text =>
      cases h
      exact .docInput f object text
    | closed =>
      cases h
      exact .gone _ _ nofun nofun
    | _ => cases h

namespace Keeps
variable {c : Cont V} {r : Reply V}

theorem answeredCount (h : Keeps parts P) (hn : .counts ∈ parts) (hr : Resumed env s c r t)
    (hc : c.part = .counts) (hs : P s) : P t := by
  cases hr <;> first | (exact hs) | (cases hc)
  case counting hu => exact h.wait hn (h.count hn hu hs)
  case totalling => exact h.send h.plain hn hs
  case counted => exact h.tell h.plain hs

theorem answeredWrite (h : Keeps parts P) (hw : .writes ∈ parts)
    (ha : ∀ n plan statement target,
      P ((s.tell (.accepted n statement)).applyRow plan statement target))
    (hr : Resumed env s c r t) (hc : c.part = .writes) (hs : P s) : P t := by
  cases hr <;> first | (exact hs) | (cases hc)
  case returned n _ _ _ text =>
    have ht : P (s.tell (.returned n text)) := h.tell hw hs
    exact h.later hw ht
  case accepted n _ plan statement target => exact ha n plan statement target

theorem answeredDoc (h : Keeps parts P) (hd : .docs ∈ parts) (hn : .counts ∈ parts)
    (hr : Resumed env s c r t) (hc : c.part = .docs) (hs : P s) : P t := by
  have hm : ∀ k st, st ≠ CallStatus.running → P (s.amend k fun e => { e with state := st }) :=
    fun k st hst => h.amend (mild_state hst) hs
  cases hr <;> first | (exact hs) | (cases hc)
  case written => exact h.later hd (hm _ _ nofun)
  case unwritten => exact hm _ _ nofun
  case writing hu => exact h.wait hd (h.count hn hu hs)
  case wrote k _ _ st hst =>
    split
    · exact h.later hd (hm k st hst)
    · exact hm k st hst

theorem answeredEdit (h : Keeps parts P) (he : .edits ∈ parts) (hl : .locks ∈ parts)
    (hd : ∀ f object text, P (s.replaceDoc env f object text))
    (hwr : ∀ {s : Dock V} (set key : List (String × V)) (delete insert : Bool)
      (target : Target V), P s → P (s.writeRow set key delete insert target))
    (hr : Resumed env s c r t) (hc : c.part = .edits ∨ c.part = .locks) (hs : P s) : P t := by
  cases hr <;> try first | (exact hs) | (rcases hc with hc | hc <;> cases hc <;> done)
  case described ref op fields =>
    have hset : P (s.setOrigin ref fun o => { o with metaColumns := some fields }) :=
      h.setOrigin hs ref fun _ => rfl
    exact h.described he hset (goes hwr h he hl hset op) _ _
  case popup => exact savePopup hwr h hl hs _ _ _ _ _
  case insertForm => exact saveInsert hwr h he hs _ _ _
  case cellInput => exact h.applyCell hs _ _ _ _ _
  case docInput => exact hd _ _ _

/-- The callbacks that neither run, page nor register. -/
def rest : List Part := [.counts, .edits, .locks, .writes, .docs]

theorem answeredRest (h : Keeps parts P) (hp : rest ⊆ parts) (hr : Resumed env s c r t)
    (hc : c.part ∈ rest) (hs : P s) : P t := by
  have hn : .counts ∈ parts := hp (by decide)
  have he : .edits ∈ parts := hp (by decide)
  have hl : .locks ∈ parts := hp (by decide)
  have hw : .writes ∈ parts := hp (by decide)
  have hd : .docs ∈ parts := hp (by decide)
  have htell : ∀ n {statement}, P (s.tell (.accepted n statement)) := fun n {_} => h.tell hw hs
  simp only [rest, List.mem_cons, List.not_mem_nil, or_false] at hc
  rcases hc with hc | hc | hc | hc | hc
  · exact h.answeredCount hn hr hc hs
  · exact h.answeredEdit he hl (h.replaceDoc hd hs) (fun _ _ _ _ _ h' => h.writeRow hw h' _ _ _ _ _)
      hr (.inl hc) hs
  · exact h.answeredEdit he hl (h.replaceDoc hd hs) (fun _ _ _ _ _ h' => h.writeRow hw h' _ _ _ _ _)
      hr (.inr hc) hs
  · exact h.answeredWrite hw (fun n _ _ _ => h.applyRow hw hd (htell n) _ _ _) hr hc hs
  · exact h.answeredDoc hd hn hr hc hs

end Keeps

/-- An answered callback no longer waits. -/
def Dock.drop (s : Dock V) (n : ℕ) : Dock V := { s with waiting := s.waiting.eraseIdx n }

theorem answered {n : ℕ} {r : Reply V} (h : s.step env (.answer n r) = some t) :
    ∃ c, s.waiting[n]? = some c ∧ Resumed env (s.drop n) c r t := by
  unfold Dock.step at h
  dsimp only at h
  split at h
  · rename_i c hc
    exact ⟨c, hc, resumed h⟩
  · cases h

theorem ticked (h : s.step env .tick = some t) :
    ∃ k ks, s.queue = k :: ks ∧ t = perform env { s with queue := ks } k := by
  unfold Dock.step at h
  dsimp only at h
  split at h
  · rename_i k ks hq
    cases h
    exact ⟨k, ks, hq, rfl⟩
  · cases h

/-- One input, when the operations that are not known to keep `P` do. -/
theorem Keeps.step (h : Keeps parts P) (he : .edits ∈ parts) {i : Input V} (hs : P s)
    (hrun : ∀ q notify, i = .run q notify → P (s.runGuarded env q notify))
    (hopen : ∀ k ∈ s.reopens env i, P (s.openCached env k))
    (hagain : i = .rerun ∨ (i = .enter ∧ s.face.view ≠ .result ∧ s.reopens env .enter = none) →
      P (s.rerunCall env))
    (hedit : i.edits = true → P t)
    (htick : ∀ k ks, i = .tick → s.queue = k :: ks → P (perform env { s with queue := ks } k))
    (hans : ∀ n r c, i = .answer n r → s.waiting[n]? = some c → Resumed env (s.drop n) c r t → P t)
    (hst : s.step env i = some t) : P t := by
  by_cases hshow : i.shows = true
  · exact h.shown hshow hs hst
  by_cases hed : i.edits = true
  · exact hedit hed
  cases i with
  | run q notify =>
    cases hst
    exact hrun q notify rfl
  | enter =>
    cases hst
    unfold Dock.enter
    split
    · split
      · exact h.editCell he hs
      · exact hs
    · split
      · rename_i k hk
        exact hopen k hk
      · rename_i hnone
        exact hagain (.inr ⟨rfl, ‹_›, hnone⟩)
  | openLog =>
    simp only [Dock.step] at hst
    split at hst
    · rename_i k hk
      cases hst
      exact hopen k hk
    · cases hst
      exact hs
  | rerun =>
    cases hst
    exact hagain (.inl rfl)
  | tick =>
    obtain ⟨k, ks, hq, rfl⟩ := ticked hst
    exact htick k ks rfl hq
  | answer n r =>
    obtain ⟨c, hc, hr⟩ := answered hst
    exact hans n r c rfl hc hr
  | _ => first | exact absurd rfl hshow | exact absurd rfl hed

/-- A closure, when the runs it starts keep `P`. -/
theorem Keeps.perform (h : Keeps parts P) (hs : P s) {k : Task V}
    (hfail : ∀ done, k = .failed done → P (s.finish done false))
    (hland : ∀ offset done, k = .landed offset done → P (s.land env offset done))
    (hrun : ∀ q t, k = .guarded q t → P (s.run env (.user t.n (some false)) q 0 t.done))
    (hask : ∀ q t, k = .askRun q t → P (s.wait (.guardDialog q t)))
    (hwrite : ∀ n on plan statement target, k = .askWrite n on plan statement target →
      P (s.wait (.writeDialog n on plan statement target)))
    (hread : ∀ on target, k = .refresh on target → P (s.refresh env on target)) :
    P (s.perform env k) := by
  cases k with
  | render => exact h.render hs
  | failed done => exact hfail done rfl
  | landed offset done => exact hland offset done rfl
  | guarded q t => exact hrun q t rfl
  | askRun q t => exact hask q t rfl
  | askWrite n on plan statement target => exact hwrite n on plan statement target rfl
  | refresh on target => exact hread on target rfl

/-- One answer, when what is not known to keep `P` does. -/
theorem Resumed.keeps {c : Cont V} {r : Reply V} (hr : Resumed env s c r t)
    (hrest : c.part ∈ Keeps.rest → P t)
    (hturn : ∀ cid offset p, c = .page cid offset → P (s.turn cid p))
    (hrefuse : ∀ k q offset done, c = .run k q offset done → r = .failed → P s)
    (hreg : ∀ k q offset done cid, c = .run k q offset done → s.unissued cid = true →
      P (s.register env k q offset done cid))
    (hsettle : ∀ k offset done st, c = .watch k offset done → st ≠ .running →
      P (s.settle k st offset done))
    (hjudge : ∀ q t b, c = .classify q t →
      (r = .verdict b ∧ b = env.verdict q.conn.driver q.statement) ∨
        (r = .failed ∧ b = env.isDestructive q.statement) → P (s.judged q t b))
    (hconfirm : ∀ q t, c = .guardDialog q t → r = .answer true →
      P ((s.tell (.confirmed t.n)).run env (.user t.n (some true)) q 0 t.done))
    (hdecline : ∀ q t, c = .guardDialog q t → P (s.finish t.done false))
    (hpage : ∀ cid offset, c = .page cid offset → P s) : P t := by
  by_cases hp : c.part ∈ Keeps.rest
  · exact hrest hp
  cases hr with
  | turned cid offset p => exact hturn cid offset p rfl
  | refused k q offset done => exact hrefuse k q offset done rfl rfl
  | registered k q offset done cid hu => exact hreg k q offset done cid rfl hu
  | settled k offset done st hst => exact hsettle k offset done st rfl hst
  | judged q t r b hb => exact hjudge q t b rfl hb
  | confirmed q t => exact hconfirm q t rfl rfl
  | declined q t => exact hdecline q t rfl
  | gone c r h1 h2 =>
    cases c with
    | page cid offset => exact hpage cid offset rfl
    | run => exact absurd rfl h2
    | watch | classify | guardDialog => exact absurd rfl h1
    | _ => simp [Cont.part, Keeps.rest] at hp
  | _ => simp [Cont.part, Keeps.rest] at hp

def every : List Part :=
  [.plain, .data, .pages, .runs, .starts, .counts, .edits, .locks, .inserts, .writes, .docs]

/-- What every part leaves alone and neither the callbacks nor the closures matter to is never
lost. -/
theorem Keeps.always (h : Keeps every P)
    (hpop : ∀ {s : Dock V} {ks : List (Task V)}, P s → P { s with queue := ks })
    (hdrop : ∀ {s : Dock V} (n : ℕ), P s → P (s.drop n)) {i : Input V} (hs : P s)
    (hst : s.step env i = some t) : P t := by
  have hruns : Part.runs ∈ every := by decide
  have hstarts : Part.starts ∈ every := by decide
  have hdata : Part.data ∈ every := by decide
  have hpages : Part.pages ∈ every := by decide
  have hcounts : Part.counts ∈ every := by decide
  have hwrites : Part.writes ∈ every := by decide
  refine h.step (by decide) hs (fun q notify _ => h.runGuarded hruns hs q notify)
    (fun j _ => h.openCached hdata hcounts hs j)
    (fun _ => h.rerunCall hruns hstarts hdata hpages hcounts hs)
    (fun hed => h.edited (by decide) (by decide) (by decide)
      (fun _ _ _ _ _ h' => h.writeRow hwrites h' _ _ _ _ _) hed hs hst)
    (fun j ks _ hq => ?_) (fun n r c _ hc hr => ?_) hst
  · have hp : P { s with queue := ks } := hpop hs
    exact h.perform hp (fun done _ => h.finish hruns hp done false)
      (fun offset done _ => h.land hruns hp offset done)
      (fun q t _ => h.run hruns hstarts hdata hpages hcounts hp _ _ _ _)
      (fun q t _ => h.wait hruns hp) (fun n on plan statement target _ => h.wait hwrites hp)
      (fun on target _ => h.refresh hruns hstarts hdata hpages hcounts hp on target)
  · have hd : P (s.drop n) := hdrop n hs
    have hp : Keeps.rest ⊆ every := by decide
    refine hr.keeps (fun hc => h.answeredRest hp hr hc hd) (fun cid _ p _ => h.turn hpages hd cid p)
      (fun _ _ _ _ _ _ => hd)
      (fun j q offset done cid _ hu => h.enroll hruns hstarts hdata hd hu j q offset done)
      (fun j offset done st _ hne => h.settle hruns hd j hne offset done)
      (fun q t b _ _ => h.judged hruns hd q t b) (fun q t _ _ => ?_)
      (fun q t _ => h.finish hruns hd t.done false) (fun _ _ _ => hd)
    have ht : P ((s.drop n).tell (.confirmed t.n)) := h.tell hruns hd
    exact h.run hruns hstarts hdata hpages hcounts ht _ _ _ _

end LvimDb.Result
