import LvimDb.Lib.History
import LvimDb.Lib.Machine
import LvimDb.Editor.RunAll

/-!
# Saving and loading queries

`save_query`, `load_query`, `load_text` and `new_query` of ui/editor.lua, with the prompts they
open. Other clients change the saved queries at any time. The store is waited for, and meanwhile
anything may happen: a name is entered, then its query is looked up, then the text is written, and
only then the name is the buffer's. A look-up or a write may fail.
-/

namespace LvimDb.Editor
open Lib (Justified)

/-- A prompt for a name: the connection and the text it was opened with, and `default`. -/
structure Naming where
  conn : String
  sql : String
  default : Option String
  deriving DecidableEq, Repr

/-- A text under the name that was entered: looked up, or asked whether to overwrite. -/
structure Saving where
  conn : String
  name : String
  sql : String
  deriving DecidableEq, Repr

/-- What `get_query` gave where a text is saved: it was not asked, or not answered, it found nothing,
or it found the query and this was to be overwritten. -/
inductive Lookup
  | skipped
  | unread
  | absent
  | found
  deriving DecidableEq, Repr

/-- A `do_save` that is under way. -/
structure Writing extends Saving where
  seen : Lookup
  deriving DecidableEq, Repr

/-- What happened: a query was loaded into the editor, a prompt was opened, a save was made, its text
was written with what that replaced, or another client changed the queries. -/
inductive Note
  | loaded (conn name : String)
  | naming (conn sql : String)
  | overwriting (conn name sql : String)
  | saving (conn name sql : String) (seen : Lookup)
  | written (conn name sql : String) (old : Option String)
  | others
  deriving DecidableEq, Repr

/-- The query that the editor has under this name. -/
def Note.query : Note → Option (String × String)
  | .loaded conn name => some (conn, name)
  | .saving conn name _ _ => some (conn, name)
  | _ => none

/-- The query may be another one than before. -/
def Note.changes (conn name : String) : Note → Bool
  | .written conn' name' _ _ => conn' == conn && name' == name
  | .others => true
  | _ => false

/-- `qname` is the variable `QNAME` of the buffer, `lines` its lines. -/
structure Desk where
  queries : String × String → Option String
  active : Option String
  lines : List (List Char)
  qname : Option String
  naming : List Naming
  looking : List Saving
  overwriting : List Saving
  writing : List Writing
  binding : List Writing
  notes : List Note

/-- `entered` and `answered` are the callbacks of the prompts, `looked` and `written` what the store
does for them, `bound` the end of a `do_save`; `reads` and `writes` say whether the store can be read
and written. What a query is loaded from is `found`. -/
inductive Desk.Input
  | edit (lines : List (List Char))
  | others (queries : String × String → Option String)
  | setActive (conn : Option String)
  | loadQuery (conn name : String) (found : Option String)
  | loadText (conn text : String)
  | newQuery
  | saveQuery
  | entered (n : ℕ) (name : Option String)
  | looked (n : ℕ) (reads : Bool)
  | answered (n : ℕ) (yes : Bool)
  | written (n : ℕ) (writes : Bool)
  | bound (n : ℕ)

namespace Desk
variable (s : Desk)

def new : Desk := ⟨fun _ => none, none, [[]], none, [], [], [], [], [], []⟩

/-- The text of the buffer. -/
def text : String := String.ofList (['\n'].intercalate s.lines)

def note (e : Note) : Desk := { s with notes := e :: s.notes }

/-- `M.load_query` (637-651), once `get_query` has answered. -/
def loadQuery (conn name : String) (found : Option String) : Desk :=
  match found with
  | none => s
  | some sql =>
    { s.note (.loaded conn name) with
      lines := sql.toList.splitOn '\n'
      qname := some name
      active := some conn }

/-- `M.load_text` (660-667). -/
def loadText (conn text : String) : Desk :=
  { s with lines := text.toList.splitOn '\n', qname := none, active := some conn }

/-- `M.new_query` (672-678). -/
def newQuery : Desk := { s with lines := [[]], qname := none }

/-- `M.save_query` (583-604), up to the prompt. -/
def saveQuery : Desk :=
  if trim s.text = "" then s
  else
    match s.active with
    | none => s
    | some conn =>
      { s.note (.naming conn s.text) with naming := s.naming ++ [⟨conn, s.text, s.qname⟩] }

/-- `do_save` (611-616), up to the write that it waits for. -/
def doSave (p : Saving) (seen : Lookup) : Desk :=
  { s.note (.saving p.conn p.name p.sql seen) with
    writing := s.writing ++ [⟨p, seen⟩]
    binding := s.binding ++ [⟨p, seen⟩] }

/-- The callback of the prompt for a name (605-616), up to the look-up. -/
def entered (p : Naming) (name : Option String) : Desk :=
  match name with
  | none => s
  | some name =>
    let name := trim name
    if name = "" then s
    else if some name ≠ p.default then
      { s with looking := s.looking ++ [⟨p.conn, name, p.sql⟩] }
    else s.doSave ⟨p.conn, name, p.sql⟩ .skipped

/-- What becomes of the look-up (616-632); nothing is found where the store cannot be read. -/
def looked (p : Saving) (reads : Bool) : Desk :=
  if reads then
    match s.queries (p.conn, p.name) with
    | some _ =>
      { s.note (.overwriting p.conn p.name p.sql) with overwriting := s.overwriting ++ [p] }
    | none => s.doSave p .absent
  else s.doSave p .unread

def written (p : Saving) (writes : Bool) : Desk :=
  if writes then
    { s.note (.written p.conn p.name p.sql (s.queries (p.conn, p.name))) with
      queries := Function.update s.queries (p.conn, p.name) (some p.sql) }
  else s

def step : Input → Option Desk
  | .edit lines => some { s with lines := lines }
  | .others queries => some { s.note .others with queries := queries }
  | .setActive conn => some { s with active := conn }
  | .loadQuery conn name found => some (s.loadQuery conn name found)
  | .loadText conn text => some (s.loadText conn text)
  | .newQuery => some s.newQuery
  | .saveQuery => some s.saveQuery
  | .entered n name =>
    (s.naming[n]?).map fun p => { s with naming := s.naming.eraseIdx n }.entered p name
  | .looked n reads =>
    (s.looking[n]?).map fun p => { s with looking := s.looking.eraseIdx n }.looked p reads
  | .answered n yes =>
    (s.overwriting[n]?).map fun p =>
      let s := { s with overwriting := s.overwriting.eraseIdx n }
      if yes then s.doSave p .found else s
  | .written n writes =>
    (s.writing[n]?).map fun p =>
      { s with writing := s.writing.eraseIdx n }.written p.toSaving writes
  | .bound n =>
    (s.binding[n]?).map fun p =>
      { s with binding := s.binding.eraseIdx n, qname := some p.name }

end Desk

def desk : Lib.Machine Desk Desk.Input where
  init := .new
  step := Desk.step

/-! ### Saves -/

/-- A query that was loaded into the editor or saved from it. -/
def Known (notes : List Note) (conn name : String) : Prop :=
  ∃ e ∈ notes, e.query = some (conn, name)

/-- Why a save may replace a query, by what was seen before it and what has happened after: the editor
has had one of this name, where `own` of this connection; the overwriting was confirmed for this query;
the query has come since the look-up; or the look-up was not answered. -/
def Cleared (own : Prop) (after before : List Note) (conn name sql : String) : Lookup → Prop
  | .skipped => ∃ conn', Known before conn' name ∧ (own → conn' = conn)
  | .found => .overwriting conn name sql ∈ before
  | .absent => ∃ e ∈ after, e.changes conn name = true
  | .unread => True

/-- A text that is written is of a save, which was of a text that a prompt was opened with for its
connection. -/
def Fair (own : Prop) (pre : List Note) : Note → Prop
  | .saving conn name sql seen =>
    .naming conn sql ∈ pre ∧ (seen ≠ .absent → Cleared own [] pre conn name sql seen)
  | .written conn name sql old =>
    ∃ after before seen, pre = after ++ .saving conn name sql seen :: before ∧
      (seen = .absent → old.isSome = true → Cleared own after before conn name sql .absent)
  | _ => True

namespace Desk

/-- Where `own`, the connection stays while a name is bound, and a save ends with the connection it is
for. -/
def Steady (own : Prop) (s : Desk) : Input → Prop
  | .setActive conn => own → s.qname = none ∨ conn = s.active
  | .bound n => own → ∀ p, s.binding[n]? = some p → s.active = some p.conn
  | _ => True

/-- The bound name, the prompts and the saves are of what the notes tell. -/
structure Noted (own : Prop) (s : Desk) : Prop where
  bound : ∀ name, s.qname = some name →
    ∃ conn, Known s.notes conn name ∧ (own → s.active = some conn)
  naming : ∀ p ∈ s.naming, .naming p.conn p.sql ∈ s.notes ∧
    ∀ name, p.default = some name → ∃ conn, Known s.notes conn name ∧ (own → conn = p.conn)
  looking : ∀ p ∈ s.looking, .naming p.conn p.sql ∈ s.notes
  overwriting : ∀ p ∈ s.overwriting, .naming p.conn p.sql ∈ s.notes ∧
    .overwriting p.conn p.name p.sql ∈ s.notes
  writing : ∀ p ∈ s.writing, ∃ after before,
    s.notes = after ++ .saving p.conn p.name p.sql p.seen :: before ∧
      (p.seen = .absent → (s.queries (p.conn, p.name)).isSome = true →
        ∃ e ∈ after, e.changes p.conn p.name = true)
  binding : ∀ p ∈ s.binding, .saving p.conn p.name p.sql p.seen ∈ s.notes
  fair : Justified (Fair own) s.notes

variable {s t : Desk} {own : Prop} {conn name sql : String} {e : Note}

theorem noted_new : Noted own new where
  bound name h := by cases h
  naming p hp := by cases hp
  looking p hp := by cases hp
  overwriting p hp := by cases hp
  writing p hp := by cases hp
  binding p hp := by cases hp
  fair := Lib.justified_nil

theorem Known.later {notes : List Note} (h : Known notes conn name) (e : Note) :
    Known (e :: notes) conn name := by
  obtain ⟨e', he', hquery⟩ := h
  exact ⟨e', List.mem_cons_of_mem e he', hquery⟩

/-- One more note. -/
theorem Noted.note (h : s.Noted own) (he : Fair own s.notes e) : (s.note e).Noted own where
  bound name hname := by
    obtain ⟨conn, hknown, hactive⟩ := h.bound name hname
    exact ⟨conn, Known.later hknown e, hactive⟩
  naming p hp := by
    obtain ⟨hprompt, hdefault⟩ := h.naming p hp
    constructor
    · exact List.mem_cons_of_mem e hprompt
    · intro name hname
      obtain ⟨conn, hknown, hown⟩ := hdefault name hname
      exact ⟨conn, Known.later hknown e, hown⟩
  looking p hp := List.mem_cons_of_mem e (h.looking p hp)
  overwriting p hp := by
    obtain ⟨hprompt, hasked⟩ := h.overwriting p hp
    exact ⟨List.mem_cons_of_mem e hprompt, List.mem_cons_of_mem e hasked⟩
  writing p hp := by
    obtain ⟨after, before, hnotes, hsince⟩ := h.writing p hp
    refine ⟨e :: after, before, congrArg (e :: ·) hnotes, fun hseen hthere => ?_⟩
    obtain ⟨e', he', hchanges⟩ := hsince hseen hthere
    exact ⟨e', List.mem_cons_of_mem e he', hchanges⟩
  binding p hp := List.mem_cons_of_mem e (h.binding p hp)
  fair := h.fair.cons he

/-- The queries change, which the last note tells of those that are being saved. -/
theorem Noted.replace (h : s.Noted own) (queries : String × String → Option String)
    (hlast : s.notes.head? = some e) (hchanges : ∀ p ∈ s.writing,
      queries (p.conn, p.name) = s.queries (p.conn, p.name) ∨ e.changes p.conn p.name = true)
    (hnew : ∀ p ∈ s.writing, e ≠ .saving p.conn p.name p.sql p.seen) :
    Noted own { s with queries := queries } where
  bound := h.bound
  naming := h.naming
  looking := h.looking
  overwriting := h.overwriting
  writing p hp := by
    obtain ⟨after, before, hnotes, hsince⟩ := h.writing p hp
    refine ⟨after, before, hnotes, fun hseen hthere => ?_⟩
    rcases hchanges p hp with hsame | hchanged
    · rw [← hsame] at hsince
      exact hsince hseen hthere
    · cases after with
      | nil =>
        rw [hnotes] at hlast
        exact absurd (Option.some.inj hlast).symm (hnew p hp)
      | cons e' after =>
        rw [hnotes] at hlast
        obtain rfl := Option.some.inj hlast
        exact ⟨e', List.mem_cons_self .., hchanged⟩
  binding := h.binding
  fair := h.fair

theorem Noted.loadQuery (h : s.Noted own) (conn name : String) (found : Option String) :
    (s.loadQuery conn name found).Noted own := by
  unfold Desk.loadQuery
  split
  · exact h
  · have hnote := h.note (e := .loaded conn name) trivial
    refine { hnote with bound := fun name' hname => ?_ }
    obtain rfl := Option.some.inj hname
    exact ⟨conn, ⟨.loaded conn name, List.mem_cons_self .., rfl⟩, fun _ => rfl⟩

theorem Noted.saveQuery (h : s.Noted own) : s.saveQuery.Noted own := by
  unfold Desk.saveQuery
  split
  · exact h
  · split
    · exact h
    · next conn hactive =>
      have hnote := h.note (e := .naming conn s.text) trivial
      refine { hnote with naming := fun p hp => ?_ }
      rcases List.mem_append.mp hp with hp | hp
      · exact hnote.naming p hp
      · obtain rfl := List.mem_singleton.mp hp
        refine ⟨List.mem_cons_self .., fun name hname => ?_⟩
        obtain ⟨conn', hknown, hown⟩ := h.bound name hname
        refine ⟨conn', Known.later hknown _, fun h => ?_⟩
        exact Option.some.inj ((hown h).symm.trans hactive)

theorem Noted.doSave (h : s.Noted own) {p : Saving} {seen : Lookup}
    (hprompt : .naming p.conn p.sql ∈ s.notes)
    (hcleared : seen ≠ .absent → Cleared own [] s.notes p.conn p.name p.sql seen)
    (hnone : seen = .absent → s.queries (p.conn, p.name) = none) : (s.doSave p seen).Noted own := by
  have hnote := h.note (e := .saving p.conn p.name p.sql seen) ⟨hprompt, hcleared⟩
  refine { hnote with writing := fun q hq => ?_, binding := fun q hq => ?_ }
  · rcases List.mem_append.mp hq with hq | hq
    · exact hnote.writing q hq
    · obtain rfl := List.mem_singleton.mp hq
      refine ⟨[], s.notes, rfl, fun hseen hthere => ?_⟩
      have hnone : s.queries (p.conn, p.name) = none := hnone hseen
      have hthere : (s.queries (p.conn, p.name)).isSome = true := hthere
      rw [hnone] at hthere
      cases hthere
  · rcases List.mem_append.mp hq with hq | hq
    · exact hnote.binding q hq
    · obtain rfl := List.mem_singleton.mp hq
      exact List.mem_cons_self ..

theorem Noted.entered (h : s.Noted own) {p : Naming} (hprompt : .naming p.conn p.sql ∈ s.notes)
    (hdefault : ∀ name, p.default = some name →
      ∃ conn, Known s.notes conn name ∧ (own → conn = p.conn))
    (name : Option String) : (s.entered p name).Noted own := by
  unfold Desk.entered
  split
  · exact h
  · next name =>
    simp only
    split
    · exact h
    · split
      · refine { h with looking := fun q hq => ?_ }
        rcases List.mem_append.mp hq with hq | hq
        · exact h.looking q hq
        · obtain rfl := List.mem_singleton.mp hq
          exact hprompt
      · next hsame =>
        exact h.doSave hprompt (fun _ => hdefault _ (not_not.mp hsame).symm) nofun

theorem Noted.looked (h : s.Noted own) {p : Saving} (hprompt : .naming p.conn p.sql ∈ s.notes)
    (reads : Bool) : (s.looked p reads).Noted own := by
  unfold Desk.looked
  split
  · split
    · have hnote := h.note (e := .overwriting p.conn p.name p.sql) trivial
      refine { hnote with overwriting := fun q hq => ?_ }
      rcases List.mem_append.mp hq with hq | hq
      · exact hnote.overwriting q hq
      · obtain rfl := List.mem_singleton.mp hq
        exact ⟨List.mem_cons_of_mem _ hprompt, List.mem_cons_self ..⟩
    · next hnone => exact h.doSave hprompt (fun hne => absurd rfl hne) fun _ => hnone
  · exact h.doSave hprompt (fun _ => trivial) nofun

theorem Noted.written (h : s.Noted own) {p : Writing}
    (hp : ∃ after before, s.notes = after ++ .saving p.conn p.name p.sql p.seen :: before ∧
      (p.seen = .absent → (s.queries (p.conn, p.name)).isSome = true →
        ∃ e ∈ after, e.changes p.conn p.name = true))
    (writes : Bool) : (s.written p.toSaving writes).Noted own := by
  unfold Desk.written
  split
  · obtain ⟨after, before, hnotes, hsince⟩ := hp
    have hfair : Fair own s.notes
        (.written p.conn p.name p.sql (s.queries (p.conn, p.name))) :=
      ⟨after, before, p.seen, hnotes, hsince⟩
    refine (h.note hfair).replace _ rfl (fun q _ => ?_) nofun
    by_cases heq : (q.conn, q.name) = (p.conn, p.name)
    · obtain ⟨hconn, hname⟩ := Prod.mk.inj heq
      exact .inr (by simp [Note.changes, hconn, hname])
    · exact .inl (Function.update_of_ne heq _ _)
  · exact h

theorem Noted.step (h : s.Noted own) {i : Input} (hsteady : s.Steady own i)
    (hst : s.step i = some t) : t.Noted own := by
  cases i with
  | edit lines =>
    cases hst
    exact { h with }
  | others queries =>
    cases hst
    have hnote := h.note (e := .others) trivial
    exact hnote.replace queries rfl (fun _ _ => .inr rfl) nofun
  | setActive conn =>
    cases hst
    refine { h with bound := fun name hname => ?_ }
    obtain ⟨conn', hknown, hown⟩ := h.bound name hname
    refine ⟨conn', hknown, fun how => ?_⟩
    rcases hsteady how with hnone | rfl
    · rw [hnone] at hname
      cases hname
    · exact hown how
  | loadQuery conn name found =>
    cases hst
    exact h.loadQuery conn name found
  | loadText conn text =>
    cases hst
    exact { h with bound := nofun }
  | newQuery =>
    cases hst
    exact { h with bound := nofun }
  | saveQuery =>
    obtain rfl : s.saveQuery = t := Option.some.inj hst
    exact h.saveQuery
  | entered n name =>
    obtain ⟨p, hp, rfl⟩ := Option.map_eq_some_iff.mp hst
    obtain ⟨hprompt, hdefault⟩ := h.naming p (List.mem_of_getElem? hp)
    have hclose : Noted own { s with naming := s.naming.eraseIdx n } :=
      { h with naming := fun q hq => h.naming q (List.mem_of_mem_eraseIdx hq) }
    exact hclose.entered hprompt hdefault name
  | looked n reads =>
    obtain ⟨p, hp, rfl⟩ := Option.map_eq_some_iff.mp hst
    have hclose : Noted own { s with looking := s.looking.eraseIdx n } :=
      { h with looking := fun q hq => h.looking q (List.mem_of_mem_eraseIdx hq) }
    exact hclose.looked (h.looking p (List.mem_of_getElem? hp)) reads
  | answered n yes =>
    obtain ⟨p, hp, rfl⟩ := Option.map_eq_some_iff.mp hst
    obtain ⟨hprompt, hasked⟩ := h.overwriting p (List.mem_of_getElem? hp)
    have hclose : Noted own { s with overwriting := s.overwriting.eraseIdx n } :=
      { h with overwriting := fun q hq => h.overwriting q (List.mem_of_mem_eraseIdx hq) }
    simp only
    split
    · exact hclose.doSave hprompt (fun _ => hasked) nofun
    · exact hclose
  | written n writes =>
    obtain ⟨p, hp, rfl⟩ := Option.map_eq_some_iff.mp hst
    have hclose : Noted own { s with writing := s.writing.eraseIdx n } :=
      { h with writing := fun q hq => h.writing q (List.mem_of_mem_eraseIdx hq) }
    exact hclose.written (h.writing p (List.mem_of_getElem? hp)) writes
  | bound n =>
    obtain ⟨p, hp, rfl⟩ := Option.map_eq_some_iff.mp hst
    refine { h with
      bound := fun name hname => ?_
      binding := fun q hq => h.binding q (List.mem_of_mem_eraseIdx hq) }
    obtain rfl := Option.some.inj hname
    exact ⟨p.conn, ⟨_, h.binding p (List.mem_of_getElem? hp), rfl⟩, fun how => hsteady how p hp⟩

/-- A query of another client is loaded, edited and saved under its own name. -/
def savedTop : List Input :=
  [.others (Function.update (fun _ => none) ("shop", "top") (some "SELECT 1")),
    .loadQuery "shop" "top" (some "SELECT 1"), .edit ["SELECT 2".toList], .saveQuery,
    .entered 0 (some " top "), .written 0 true, .bound 0]

/-- With another connection taken in between, a query of that one is replaced unasked. -/
example : (desk.exec .new [
      .others (Function.update (fun _ => none) ("live", "top") (some "SELECT 1")),
      .loadText "shop" "SELECT 2", .saveQuery, .entered 0 (some "top"), .looked 0 true,
      .written 0 true, .bound 0, .setActive (some "live"), .saveQuery, .entered 0 (some "top"),
      .written 0 true]).map (fun s => s.notes.head?) =
    some (some (.written "live" "top" "SELECT 2" (some "SELECT 1"))) := by decide

end Desk

end LvimDb.Editor
