import LvimDb.Result.Coherence
import LvimDb.Result.Confirm
import LvimDb.Result.Tickets

/-!
# What `M.run` executes

Either what the user asked for, once, or the browse whose row was just written. The
refresh keeps the connection the write was sent on and reads the statement again.
-/

namespace LvimDb.Result
open Engine (ConnId CallId CallStatus)
open Lib (Justified)

variable {V : Type}

/-- Every run executes what was asked on that connection: a run of the user's once for each
time it was asked for, a refresh only the browse of the row, where it was written. Every
question has a number of its own. -/
def RunsAsked (pre : List (Event V)) : Event V → Prop
  | .asked n _ => ∀ a, .asked n a ∉ pre
  | .ran why _ q _ => (∃ n, .asked n q.ask ∈ pre) ∧
      match why with
      | .user n _ => .asked n q.ask ∈ pre ∧ ∀ e ∈ pre, e.serves ≠ some n
      | .refresh browse on => browse = some q.ask ∧ q.conn.id = on
  | _ => True

/-- The connection a write was sent on, and what it is about. -/
def Cont.aim : Cont V → Option (Conn × Target V)
  | .apply _ on target | .write _ on target | .writeWatch _ on target => some (on, target)
  | _ => none

def Task.aim : Task V → Option (Conn × Target V)
  | .refresh on target => some (on, target)
  | _ => none

namespace Dock
variable (env : Env V) (s : Dock V)

def AskedFor (a : Ask) : Prop := ∃ n, .asked n a ∈ s.hist

/-- The connection is that of the browse the row is from. -/
def ConnOf (on : Conn) (target : Target V) : Prop :=
  (s.browseOf target).map Prod.fst = some on.id

instance (on : Conn) (target : Target V) : Decidable (s.ConnOf on target) :=
  inferInstanceAs (Decidable (_ = _))

/-- A write is confirmed while the dock is on the connection of the browse the row is from,
and the refresh comes while the dock's statement is that browse's. -/
def BrowseShown : Input V → Prop
  | .answer n r =>
    match s.waiting[n]?, r with
    | some (.writeDialog _ _ _ _ target), .answer true => ∀ c ∈ s.conn, s.ConnOf c target
    | some (.docInput f _), .typed _ => ∀ c ∈ s.conn, s.ConnOf c (.row f)
    | _, _ => True
  | .tick =>
    match s.queue with
    | .refresh _ target :: _ =>
      ∀ statement ∈ s.statement, (s.browseOf target).map Prod.snd = some statement
    | _ => True
  | _ => True

instance (i : Input V) : Decidable (s.BrowseShown i) := by
  unfold BrowseShown
  rcases i with _ | _ <;> (try dsimp only) <;> try infer_instance
  · rcases s.queue with _ | ⟨k, ks⟩
    · infer_instance
    · rcases k with _ | _ <;> infer_instance
  · rename_i n r
    rcases s.waiting[n]? with _ | c
    · infer_instance
    · rcases c with _ | _ <;> rcases r with _ | _ <;> (try dsimp only) <;> try infer_instance
      rename_i yes
      rcases yes with _ | _ <;> infer_instance

/-- The dock, its log and its calls know only statements that were asked for. -/
structure Sourced : Prop where
  shown : ∀ a, s.browse = some a → s.AskedFor a
  created : ∀ cid q, s.creator cid = some q → s.AskedFor q.ask
  entries : ∀ (k : ℕ) e cid, s.heap[k]? = some e → e.callId = some cid → s.AskedFor e.query.ask
  started : ∀ k q offset done, .run k q offset done ∈ s.waiting →
    s.AskedFor q.ask ∧ ∃ e, s.heap[k]? = some e ∧ e.query = q

/-- A form for a new row is about a browse that was asked for, and a write on its way was
sent on the connection of the browse it is about. -/
structure Aimed : Prop where
  began : ∀ n b, .began n b ∈ s.hist → n < s.next ∧ ∀ a, b = some a → s.AskedFor a
  waiting : ∀ c ∈ s.waiting, ∀ on target, c.aim = some (on, target) → s.ConnOf on target
  queued : ∀ k ∈ s.queue, ∀ on target, k.aim = some (on, target) → s.ConnOf on target

variable {env s}

theorem AskedFor.tell {a : Ask} (h : s.AskedFor a) (e : Event V) : (s.tell e).AskedFor a :=
  h.imp fun _ hm => List.mem_cons_of_mem _ hm

theorem sourced_new : (new : Dock V).Sourced where
  shown := fun _ h => by cases h
  created := fun _ _ h => by cases h
  entries := fun _ _ _ h => by cases h
  started := fun _ _ _ _ h => (List.not_mem_nil h).elim

theorem aimed_new : (new : Dock V).Aimed where
  began := fun _ _ h => (List.not_mem_nil h).elim
  waiting := fun _ h => (List.not_mem_nil h).elim
  queued := fun _ h => (List.not_mem_nil h).elim

/-! ### Statements that were asked for -/

/-- All but another run's data and the start of a run. -/
def undirected : List Part :=
  [.plain, .pages, .runs, .counts, .edits, .locks, .inserts, .writes, .docs]

theorem creator_issue_cases {cid c : CallId} {x : Option Query} {q : Query}
    (h : (s.issue cid x).creator c = some q) : x = some q ∨ s.creator c = some q := by
  unfold creator issue at h
  rw [List.lookup_cons] at h
  split at h
  · exact .inl h
  · exact .inr h

theorem Sourced.issue (h : s.Sourced) (cid : CallId) {x : Option Query}
    (hx : ∀ q, x = some q → s.AskedFor q.ask) : (s.issue cid x).Sourced := by
  refine ⟨h.shown, fun c q hc => ?_, h.entries, h.started⟩
  rcases creator_issue_cases hc with hc | hc
  · exact hx q hc
  · exact h.created c q hc

theorem keeps_sourced (V : Type) : Keeps undirected (Sourced : Dock V → Prop) where
  plain := by decide
  face := fun _ h => ⟨h.shown, h.created, h.entries, h.started⟩
  pend := fun _ h => ⟨h.shown, h.created, h.entries, h.started⟩
  tell := fun {s e} _ h =>
    ⟨fun a ha => (h.shown a ha).tell e, fun cid q hq => (h.created cid q hq).tell e,
      fun k e' cid he hc => (h.entries k e' cid he hc).tell e,
      fun k q offset done hm => (h.started k q offset done hm).imp_left (AskedFor.tell · e)⟩
  wait := fun {s c} hc h => by
    refine ⟨h.shown, h.created, h.entries, fun k q offset done hm => ?_⟩
    rcases List.mem_append.mp hm with hm | hm
    · exact h.started k q offset done hm
    · obtain rfl := List.mem_singleton.mp hm
      exact absurd (show Part.starts ∈ undirected from hc) (by decide)
  later := fun _ h => ⟨h.shown, h.created, h.entries, h.started⟩
  next := fun _ h => ⟨h.shown, h.created, h.entries, h.started⟩
  source := fun _ h => ⟨h.shown, h.created, h.entries, h.started⟩
  amend := fun {s k f} hf h => by
    refine ⟨h.shown, h.created, fun j e cid he hcid => ?_, fun j q offset done hm => ?_⟩
    · obtain ⟨e₀, he₀, rfl⟩ := heap_amend he
      split at hcid
      · rename_i hkj
        rw [if_pos hkj, hf.query]
        rcases hf.callId e₀ with heq | heq
        · exact h.entries j e₀ cid he₀ (heq ▸ hcid)
        · rw [heq] at hcid
          cases hcid
      · rename_i hkj
        rw [if_neg hkj]
        exact h.entries j e₀ cid he₀ hcid
    · obtain ⟨ha, e, he, hq⟩ := h.started j q offset done hm
      refine ⟨ha, _, heap_amended he, ?_⟩
      split
      · exact (hf.query e).trans hq
      · exact hq
  addEntry := fun {s q} h => by
    refine ⟨h.shown, h.created, fun k e cid he hcid => ?_, fun k q' offset done hm => ?_⟩
    · rcases heap_addEntry he with he | rfl
      · exact h.entries k e cid he hcid
      · cases hcid
    · obtain ⟨ha, e, he, hq⟩ := h.started k q' offset done hm
      exact ⟨ha, e, heap_added he, hq⟩
  data := fun hd => absurd hd (by decide)
  page := fun _ h => ⟨h.shown, h.created, h.entries, h.started⟩
  count := fun _ _ h => h.issue _ fun _ hx => by cases hx
  register := fun hd => absurd hd (by decide)
  bind := fun hd => absurd hd (by decide)

theorem Sourced.dropped (h : s.Sourced) (n : ℕ) : (s.drop n).Sourced :=
  ⟨h.shown, h.created, h.entries,
    fun k q offset done hm => h.started k q offset done (List.mem_of_mem_eraseIdx hm)⟩

theorem Sourced.current (h : s.Sourced) (callId : Option CallId) :
    ({ s with callId := callId } : Dock V).Sourced :=
  ⟨h.shown, h.created, h.entries, h.started⟩

theorem Sourced.retarget (h : s.Sourced) {q : Query} (ha : s.AskedFor q.ask)
    (callId : Option CallId) (offset : ℕ) : (s.retarget q callId offset).Sourced := by
  refine ⟨fun a hb => ?_, h.created, h.entries, h.started⟩
  cases hb
  exact ha

theorem cancelEdit_face : ∃ f, s.cancelEdit = { s with face := f } := by
  unfold cancelEdit
  split
  · exact ⟨_, rfl⟩
  · exact ⟨s.face, rfl⟩

theorem Sourced.run (h : s.Sourced) {q : Query} (ha : s.AskedFor q.ask) (why : Why) (offset : ℕ)
    (done : Option ℕ) : (s.run env why q offset done).Sourced := by
  have hruns : Part.runs ∈ undirected := by decide
  unfold Dock.run
  split
  · exact (keeps_sourced V).tell hruns ((keeps_sourced V).cancelEdit h)
  have hc : s.cancelEdit.AskedFor q.ask := by
    obtain ⟨f, heq⟩ := cancelEdit_face (s := s)
    rw [heq]
    exact ha
  have hclear : (s.clear env q).Sourced := by
    refine (keeps_sourced V).cleared (by decide) ?_
    exact (keeps_sourced V).page (by decide) (((keeps_sourced V).cancelEdit h).retarget hc none 0)
  have htell : ((s.clear env q).tell
      (.ran why ((s.clear env q).heap.length - 1) q done)).Sourced := (keeps_sourced V).tell hruns hclear
  have hgrows : ∃ es, (s.clear env q).hist = es ++ s.hist := clear_hist q
  obtain ⟨es, hes⟩ := hgrows
  refine ⟨htell.shown, htell.created, htell.entries, fun k q' offset' done' hm => ?_⟩
  rcases List.mem_append.mp hm with hm | hm
  · exact htell.started k q' offset' done' hm
  · cases List.mem_singleton.mp hm
    refine ⟨ha.imp fun n hn => ?_, _, clear_heap q, rfl⟩
    show _ ∈ _ :: (s.clear env q).hist
    rw [hes]
    exact List.mem_cons_of_mem _ (List.mem_append_right _ hn)

theorem Sourced.register (h : s.Sourced) {k : ℕ} {q : Query} (ha : s.AskedFor q.ask)
    (hk : ∃ e, s.heap[k]? = some e ∧ e.query = q) (offset : ℕ) (done : Option ℕ) (cid : CallId) :
    (s.register env k q offset done cid).Sourced := by
  have hi : (s.issue cid (some q)).Sourced := h.issue cid fun q' hq => by
    cases hq
    exact ha
  have hw : ((s.issue cid (some q)).wait (.watch k offset done)).Sourced :=
    (keeps_sourced V).wait (show Part.runs ∈ undirected by decide) hi
  have hb : (((s.issue cid (some q)).wait (.watch k offset done)).amend k
      fun e => { e with callId := some cid }).Sourced := by
    refine ⟨hw.shown, hw.created, fun j e c he hc => ?_, fun j q' offset' done' hm => ?_⟩
    · obtain ⟨e₀, he₀, rfl⟩ := heap_amend he
      split at hc
      · rename_i hkj
        subst hkj
        obtain ⟨e, he, hq⟩ := hk
        have he₀ : s.heap[k]? = some e₀ := he₀
        cases he₀.symm.trans he
        rw [if_pos rfl, hq]
        exact ha
      · rename_i hkj
        rw [if_neg hkj]
        exact h.entries j e₀ c he₀ hc
    · obtain ⟨ha', e, he, hq⟩ := hw.started j q' offset' done' hm
      refine ⟨ha', _, heap_amended he, ?_⟩
      split
      · exact hq
      · exact hq
  exact (keeps_sourced V).evict (hb.current (some cid)) _ _

theorem Sourced.again (h : s.Sourced) (q : Query) : (s.again env q).Sourced := by
  have ha : (s.want q).AskedFor ({ q with origin := none } : Query).ask :=
    ⟨s.next, List.mem_cons_self ..⟩
  exact ((keeps_sourced V).want (by decide) h q).run ha _ _ _

theorem Sourced.openCached (h : s.Sourced) (k : ℕ) : (s.openCached env k).Sourced :=
  (keeps_sourced V).opened (by decide) h k fun e cid he hc => h.retarget (h.entries k e cid he hc) _ _

/-- A refresh executes a statement that was asked for. -/
theorem Sourced.browse_asked (h : s.Sourced) (ha : s.Aimed) {target : Target V} {a : Ask}
    (hb : s.browseOf target = some a) : s.AskedFor a := by
  cases target with
  | row f =>
    obtain ⟨q, hq, rfl⟩ := Option.map_eq_some_iff.mp hb
    exact h.created _ q hq
  | fresh n =>
    unfold browseOf begun at hb
    obtain ⟨e, hm, he⟩ := List.exists_of_findSome?_eq_some hb
    cases e with
    | began m b =>
      dsimp only at he
      split at he
      · exact (ha.began m b hm).2 a he
      · cases he
    | _ => cases he

/-- The refresh of a write finds the browse of its row. -/
theorem refresh_browse {on : Conn} {target : Target V} {statement : String}
    (hc : s.ConnOf on target) (hs : (s.browseOf target).map Prod.snd = some statement) :
    s.browseOf target = some (on.id, statement) := by
  unfold ConnOf at hc
  cases hb : s.browseOf target with
  | none =>
    rw [hb] at hc
    cases hc
  | some a =>
    rw [hb] at hc hs
    rw [← Option.some.inj hc, ← Option.some.inj hs]

/-! ### Where a write was sent -/

/-- All but forms for a new row and writes that are on their way. -/
def unsent : List Part :=
  [.plain, .data, .pages, .runs, .starts, .counts, .edits, .locks, .writes]

theorem begun_tell {e : Event V} (he : ∀ m b, e ≠ .began m b) (hist : List (Event V)) (n : ℕ) :
    begun (e :: hist) n = begun hist n := by
  cases e with
  | began m b => exact absurd rfl (he m b)
  | _ => rfl

theorem ConnOf.tell {on : Conn} {target : Target V} {e : Event V} (h : s.ConnOf on target)
    (he : ∀ m b, e ≠ .began m b) : (s.tell e).ConnOf on target := by
  cases target with
  | row f => exact h
  | fresh n =>
    show (begun (e :: s.hist) n).map Prod.fst = some on.id
    rw [begun_tell he]
    exact h

theorem ConnOf.issue {on : Conn} {target : Target V} {cid : CallId} {x : Option Query}
    (hu : s.unissued cid = true) (h : s.ConnOf on target) : (s.issue cid x).ConnOf on target := by
  cases target with
  | fresh n => exact h
  | row f =>
    obtain ⟨a, ha, hid⟩ := Option.map_eq_some_iff.mp h
    obtain ⟨q, hq, rfl⟩ := Option.map_eq_some_iff.mp ha
    refine Option.map_eq_some_iff.mpr ⟨q.ask, Option.map_eq_some_iff.mpr ⟨q, ?_, rfl⟩, hid⟩
    exact creator_issue hu hq

theorem Aimed.tell {e : Event V} (h : s.Aimed) (he : ∀ m b, e ≠ .began m b) : (s.tell e).Aimed where
  began := fun n b hm => by
    rcases List.mem_cons.mp hm with heq | hm
    · exact absurd heq.symm (he n b)
    · exact ⟨(h.began n b hm).1, fun a ha => ((h.began n b hm).2 a ha).tell e⟩
  waiting := fun c hc on target ha => (h.waiting c hc on target ha).tell he
  queued := fun k hk on target ha => (h.queued k hk on target ha).tell he

theorem Aimed.wait {c : Cont V} (h : s.Aimed)
    (hc : ∀ on target, c.aim = some (on, target) → s.ConnOf on target) : (s.wait c).Aimed where
  began := h.began
  waiting := fun c' hm on target ha => by
    rcases List.mem_append.mp hm with hm | hm
    · exact h.waiting c' hm on target ha
    · cases List.mem_singleton.mp hm
      exact hc on target ha
  queued := h.queued

theorem Aimed.later {k : Task V} (h : s.Aimed)
    (hk : ∀ on target, k.aim = some (on, target) → s.ConnOf on target) : (s.later k).Aimed where
  began := h.began
  waiting := h.waiting
  queued := fun k' hm on target ha => by
    rcases List.mem_append.mp hm with hm | hm
    · exact h.queued k' hm on target ha
    · cases List.mem_singleton.mp hm
      exact hk on target ha

theorem Aimed.issue (h : s.Aimed) {cid : CallId} (hu : s.unissued cid = true) (x : Option Query) :
    (s.issue cid x).Aimed :=
  ⟨h.began, fun c hc on target ha => (h.waiting c hc on target ha).issue hu,
    fun k hk on target ha => (h.queued k hk on target ha).issue hu⟩

theorem cont_no_aim {c : Cont V} (h : c.part ∈ unsent) : c.aim = none := by
  cases c with
  | apply k on target => exact absurd (show Part.docs ∈ unsent from h) (by decide)
  | write k on target => exact absurd (show Part.docs ∈ unsent from h) (by decide)
  | writeWatch k on target => exact absurd (show Part.docs ∈ unsent from h) (by decide)
  | _ => rfl

theorem task_no_aim {k : Task V} (h : k.part ∈ unsent) : k.aim = none := by
  cases k with
  | refresh on target => exact absurd (show Part.docs ∈ unsent from h) (by decide)
  | _ => rfl

theorem keeps_aimed (V : Type) : Keeps unsent (Aimed : Dock V → Prop) where
  plain := by decide
  face := fun _ h => ⟨h.began, h.waiting, h.queued⟩
  pend := fun _ h => ⟨h.began, h.waiting, h.queued⟩
  tell := fun he h => h.tell fun m b heq => by
    subst heq
    exact absurd (show Part.inserts ∈ unsent from he) (by decide)
  wait := fun hc h => h.wait fun on target ha => by
    rw [cont_no_aim hc] at ha
    cases ha
  later := fun hk h => h.later fun on target ha => by
    rw [task_no_aim hk] at ha
    cases ha
  next := fun hn h =>
    ⟨fun n b hm => ⟨(h.began n b hm).1.trans_le hn, (h.began n b hm).2⟩, h.waiting, h.queued⟩
  source := fun _ h => ⟨h.began, h.waiting, h.queued⟩
  amend := fun _ h => ⟨h.began, h.waiting, h.queued⟩
  addEntry := fun h => ⟨h.began, h.waiting, h.queued⟩
  data := fun _ h => ⟨h.began, h.waiting, h.queued⟩
  page := fun _ h => ⟨h.began, h.waiting, h.queued⟩
  count := fun _ hu h => h.issue hu none
  register := fun _ hu h => h.issue hu _
  bind := fun _ h => ⟨h.began, h.waiting, h.queued⟩

theorem Aimed.dropped (h : s.Aimed) (n : ℕ) : (s.drop n).Aimed :=
  ⟨h.began, fun c hm => h.waiting c (List.mem_of_mem_eraseIdx hm), h.queued⟩

theorem Aimed.popped (h : s.Aimed) {k : Task V} {ks : List (Task V)} (hq : s.queue = k :: ks) :
    ({ s with queue := ks } : Dock V).Aimed :=
  ⟨h.began, h.waiting, fun k' hm => h.queued k' (hq ▸ List.mem_cons_of_mem _ hm)⟩

/-- A form that is asked for has a number of its own. -/
theorem ConnOf.began {on : Conn} {target : Target V} {b : Option Ask} (h : s.ConnOf on target)
    (ha : s.Aimed) : (s.tell (.began s.next b)).ConnOf on target := by
  cases target with
  | row f => exact h
  | fresh n =>
    obtain ⟨a, hb, hid⟩ := Option.map_eq_some_iff.mp h
    refine Option.map_eq_some_iff.mpr ⟨a, ?_, hid⟩
    have hne : s.next ≠ n := by
      obtain ⟨e, hm, he⟩ := List.exists_of_findSome?_eq_some hb
      cases e with
      | began m b' =>
        dsimp only at he
        split at he
        · rename_i hmn
          have hlt := (ha.began m b' hm).1
          omega
        · cases he
      | _ => cases he
    show begun (.began s.next b :: s.hist) n = some a
    unfold begun
    rw [List.findSome?_cons]
    dsimp only
    rw [if_neg hne]
    exact hb

theorem Aimed.newRow (h : s.Aimed) (hs : s.Sourced) : (s.newRow env).Aimed := by
  unfold Dock.newRow
  split
  · have ht : ({ s.tell (.began s.next s.browse) with next := s.next + 1 } : Dock V).Aimed := by
      refine ⟨fun n b hm => ?_, fun c hc on target ha => (h.waiting c hc on target ha).began h,
        fun k hk on target ha => (h.queued k hk on target ha).began h⟩
      rcases List.mem_cons.mp hm with heq | hm
      · cases heq
        exact ⟨Nat.lt_succ_self _, fun a ha => (hs.shown a ha).tell _⟩
      · obtain ⟨hlt, hb⟩ := h.began n b hm
        exact ⟨Nat.lt_succ_of_lt hlt, fun a ha => (hb a ha).tell _⟩
    exact (keeps_aimed V).resolveColumns (by decide) ht fun _ _ ho => (keeps_aimed V).source ho ht
  · exact h

theorem Aimed.applyRow (h : s.Aimed) {target : Target V} (hc : ∀ c ∈ s.conn, s.ConnOf c target)
    (plan : Plan V) (statement : String) : (s.applyRow plan statement target).Aimed := by
  unfold Dock.applyRow
  split
  · rename_i c hconn
    have ht : ((s.addEntry ⟨c, statement, none⟩).tell (.applied c.id plan)).Aimed :=
      ((keeps_aimed V).addEntry h).tell nofun
    refine ht.wait fun on target' ha => ?_
    cases ha
    have hon : (s.addEntry ⟨c, statement, none⟩).ConnOf c target := hc c hconn
    exact hon.tell nofun
  · exact h

theorem Aimed.write (h : s.Aimed) {target : Target V} (hc : ∀ c ∈ s.conn, s.ConnOf c target)
    (statement : String) : (s.write statement target).Aimed := by
  unfold Dock.write
  split
  · rename_i c hconn
    have ht : ((s.addEntry ⟨c, statement, none⟩).tell (.wrote c statement)).Aimed :=
      ((keeps_aimed V).addEntry h).tell nofun
    refine ht.wait fun on target' ha => ?_
    cases ha
    have hon : (s.addEntry ⟨c, statement, none⟩).ConnOf c target := hc c hconn
    exact hon.tell nofun
  · exact h

theorem Aimed.replaceDoc (h : s.Aimed) {f : Focus V} (hc : ∀ c ∈ s.conn, s.ConnOf c (.row f))
    (object text : String) : (s.replaceDoc env f object text).Aimed := by
  unfold Dock.replaceDoc
  split
  · split
    · obtain ⟨face, heq⟩ := cancelEdit_face (s := s)
      have hcancel : s.cancelEdit.Aimed := (keeps_aimed V).cancelEdit h
      split
      · exact hcancel
      refine hcancel.write (fun c hm => ?_) _
      rw [heq] at hm ⊢
      exact hc c hm
    · exact h
  · exact h

theorem Aimed.written (h : s.Aimed) {k : ℕ} {on : Conn} {target : Target V} {st : CallStatus}
    (hst : st ≠ .running) (hc : s.ConnOf on target) :
    ((s.amend k fun e => { e with state := st }).later (.refresh on target)).Aimed := by
  have hm : (s.amend k fun e => { e with state := st }).Aimed := (keeps_aimed V).amend (mild_state hst) h
  refine hm.later fun on' target' ha => ?_
  cases ha
  exact hc

/-- An answer to a write. -/
theorem Aimed.answeredDoc {n : ℕ} {c : Cont V} {r : Reply V} {t : Dock V} (h : s.Aimed)
    (hc : s.waiting[n]? = some c) (hd : c.part = .docs) (hr : Resumed env (s.drop n) c r t) :
    t.Aimed := by
  have hdrop : (s.drop n).Aimed := h.dropped n
  have hon : ∀ on target, c.aim = some (on, target) → (s.drop n).ConnOf on target :=
    h.waiting c (List.mem_of_getElem? hc)
  cases hr with
  | written k on target => exact hdrop.written nofun (hon on target rfl)
  | unwritten k on target => exact (keeps_aimed V).amend (mild_state nofun) hdrop
  | writing k on target cid hu =>
    refine (hdrop.issue hu none).wait fun on' target' ha => ?_
    cases ha
    exact (hon on target rfl).issue hu
  | wrote k on target st hst =>
    split
    · exact hdrop.written hst (hon on target rfl)
    · exact (keeps_aimed V).amend (mild_state hst) hdrop
  | gone c r h1 h2 => exact hdrop
  | _ => cases hd

/-! ### One input -/

theorem Sourced.refresh (h : s.Sourced) (ha : s.Aimed) {on : Conn} {target : Target V}
    (hc : s.ConnOf on target)
    (hs : ∀ statement ∈ s.statement, (s.browseOf target).map Prod.snd = some statement) :
    (s.refresh env on target).Sourced := by
  unfold Dock.refresh
  split
  · rename_i statement hst
    exact h.run (h.browse_asked ha (refresh_browse hc (hs statement hst))) _ _ _
  · exact h

theorem Sourced.step {i : Input V} {t : Dock V} (h : s.Sourced) (ha : s.Aimed) (ht : s.Ticketed)
    (hg : s.BrowseShown i) (hst : s.step env i = some t) : t.Sourced := by
  have hruns : Part.runs ∈ undirected := by decide
  have hwrite : Part.writes ∈ undirected := by decide
  refine (keeps_sourced V).step (by decide) h (fun q notify _ => (keeps_sourced V).runGuarded hruns h q notify)
    (fun k _ => h.openCached k) (fun _ => ?_)
    (fun hed => (keeps_sourced V).edited (by decide) (by decide) (by decide)
      (fun _ _ _ _ _ h' => (keeps_sourced V).writeRow hwrite h' _ _ _ _ _) hed h hst)
    (fun k ks hi hq => ?_) (fun n r c _ hc hr => ?_) hst
  · unfold Dock.rerunCall
    split
    · exact h.again _
    · exact h
  · subst hi
    have hp : ({ s with queue := ks } : Dock V).Sourced :=
      ⟨h.shown, h.created, h.entries, h.started⟩
    refine (keeps_sourced V).perform hp (fun done _ => (keeps_sourced V).finish hruns hp done false)
      (fun offset done _ => (keeps_sourced V).land hruns hp offset done) (fun q t heq => ?_)
      (fun q t _ => (keeps_sourced V).wait hruns hp)
      (fun n on plan statement target _ => (keeps_sourced V).wait hwrite hp) (fun on target heq => ?_)
    · subst heq
      have hasked := ht.queued (.guarded q t) (hq ▸ List.mem_cons_self ..) q t rfl
      exact hp.run ⟨t.n, hasked⟩ _ _ _
    · subst heq
      simp only [BrowseShown, hq] at hg
      have hon : s.ConnOf on target := ha.queued _ (hq ▸ List.mem_cons_self ..) on target rfl
      exact hp.refresh (ha.popped hq) hon hg
  · have hd : (s.drop n).Sourced := h.dropped n
    refine hr.keeps (fun hp => (keeps_sourced V).answeredRest (by decide) hr hp hd)
      (fun cid _ p _ => (keeps_sourced V).turn (by decide) hd cid p) (fun _ _ _ _ _ _ => hd)
      (fun k q offset done cid heq hu => ?_)
      (fun k offset done st _ hst => (keeps_sourced V).settle hruns hd k hst offset done)
      (fun q t b _ _ => (keeps_sourced V).judged hruns hd q t b) (fun q t heq _ => ?_)
      (fun q t _ => (keeps_sourced V).finish hruns hd t.done false) (fun _ _ _ => hd)
    · subst heq
      obtain ⟨hasked, hentry⟩ := h.started k q offset done (List.mem_of_getElem? hc)
      exact hd.register hasked hentry offset done cid
    · subst heq
      have hasked := ht.waiting (.guardDialog q t) (List.mem_of_getElem? hc) q t rfl
      have htell : ((s.drop n).tell (.confirmed t.n)).Sourced := (keeps_sourced V).tell hruns hd
      exact htell.run ⟨t.n, List.mem_cons_of_mem _ hasked⟩ _ _ _

theorem Aimed.step {i : Input V} {t : Dock V} (h : s.Aimed) (hs : s.Sourced)
    (hg : s.BrowseShown i) (hst : s.step env i = some t) : t.Aimed := by
  have hruns : Part.runs ∈ unsent := by decide
  have hedits : Part.edits ∈ unsent := by decide
  have hlocks : Part.locks ∈ unsent := by decide
  have hwr : ∀ {s : Dock V} (set key : List (String × V)) (delete insert : Bool)
      (target : Target V), s.Aimed → (s.writeRow set key delete insert target).Aimed :=
    fun _ _ _ _ _ h' => (keeps_aimed V).writeRow (by decide) h' _ _ _ _ _
  refine (keeps_aimed V).step hedits h (fun q notify _ => (keeps_aimed V).runGuarded hruns h q notify)
    (fun k _ => (keeps_aimed V).openCached (by decide) (by decide) h k)
    (fun _ => (keeps_aimed V).rerunCall hruns (by decide) (by decide) (by decide) (by decide) h)
    (fun hed => ?_) (fun k ks _ hq => ?_) (fun n r c hi hc hr => ?_) hst
  · have hk : ∀ op, Goes env Aimed s op := fun op => Keeps.goes hwr (keeps_aimed V) hedits hlocks h op
    cases i with
    | editRow =>
      cases hst
      exact (keeps_aimed V).editRow hedits h false fun f _ => hk _
    | insertCell =>
      cases hst
      exact (keeps_aimed V).insertCell hedits h fun f _ => hk _
    | editPopup =>
      cases hst
      exact (keeps_aimed V).editPopup hedits h fun f _ => hk _
    | deleteRow =>
      cases hst
      exact (keeps_aimed V).deleteRow hedits h fun f _ => hk _
    | newRow =>
      cases hst
      exact h.newRow hs
    | saveEdit =>
      cases hst
      exact Keeps.saveEdit hwr (keeps_aimed V) h
    | _ => exact absurd hed Bool.false_ne_true
  · have hp : ({ s with queue := ks } : Dock V).Aimed := h.popped hq
    have hrun : ∀ why q offset done, (({ s with queue := ks } : Dock V).run env why q offset done).Aimed :=
      fun _ _ _ _ => (keeps_aimed V).run hruns (by decide) (by decide) (by decide) (by decide) hp _ _ _ _
    exact (keeps_aimed V).perform hp (fun done _ => (keeps_aimed V).finish hruns hp done false)
      (fun offset done _ => (keeps_aimed V).land hruns hp offset done) (fun q t _ => hrun _ _ _ _)
      (fun q t _ => (keeps_aimed V).wait hruns hp)
      (fun n on plan statement target _ => (keeps_aimed V).wait (show Part.writes ∈ unsent by decide) hp)
      (fun on target _ =>
        (keeps_aimed V).refresh hruns (by decide) (by decide) (by decide) (by decide) hp on target)
  · subst hi
    have hd : (s.drop n).Aimed := h.dropped n
    have hwrites : Part.writes ∈ unsent := by decide
    refine hr.keeps (fun hp => ?_) (fun cid _ p _ => (keeps_aimed V).turn (by decide) hd cid p)
      (fun _ _ _ _ _ _ => hd)
      (fun k q offset done cid _ hu => (keeps_aimed V).enroll hruns (by decide) (by decide) hd hu k q
        offset done)
      (fun k offset done st _ hst => (keeps_aimed V).settle hruns hd k hst offset done)
      (fun q t b _ _ => (keeps_aimed V).judged hruns hd q t b) (fun q t _ _ => ?_)
      (fun q t _ => (keeps_aimed V).finish hruns hd t.done false) (fun _ _ _ => hd)
    · simp only [Keeps.rest, List.mem_cons, List.not_mem_nil, or_false] at hp
      rcases hp with hp | hp | hp | hp | hp
      · exact (keeps_aimed V).answeredCount (by decide) hr hp hd
      · cases hr <;> try first | (exact hd) | (cases hp; done)
        case described ref op fields =>
          have hset : ((s.drop n).setOrigin ref fun o => { o with metaColumns := some fields }).Aimed :=
            (keeps_aimed V).setOrigin hd ref fun _ => rfl
          exact (keeps_aimed V).described hedits hset
            (Keeps.goes hwr (keeps_aimed V) hedits hlocks hset op) _ _
        case insertForm => exact Keeps.saveInsert hwr (keeps_aimed V) hedits hd _ _ _
        case cellInput => exact (keeps_aimed V).applyCell hd _ _ _ _ _
        case docInput f object text =>
          simp only [BrowseShown, hc] at hg
          exact hd.replaceDoc hg object text
      · cases hr <;> try first | (exact hd) | (cases hp; done)
        case popup => exact Keeps.savePopup hwr (keeps_aimed V) hlocks hd _ _ _ _ _
      · cases hr <;> try first | (exact hd) | (cases hp; done)
        case returned m on plan target text =>
          have ht : ((s.drop n).tell (.returned m text)).Aimed := hd.tell fun _ _ heq => by cases heq
          exact (keeps_aimed V).later hwrites ht
        case accepted m on plan statement target =>
          simp only [BrowseShown, hc] at hg
          have ht : ((s.drop n).tell (.accepted m statement)).Aimed := hd.tell fun _ _ heq => by cases heq
          refine ht.applyRow (fun c' hc' => ?_) plan statement
          have hon : (s.drop n).ConnOf c' target := hg c' hc'
          exact hon.tell fun _ _ heq => by cases heq
      · exact h.answeredDoc hc hp hr
    · have ht : ((s.drop n).tell (.confirmed t.n)).Aimed := hd.tell fun _ _ heq => by cases heq
      exact (keeps_aimed V).run hruns (by decide) (by decide) (by decide) (by decide) ht _ _ _ _

/-! ### The history -/

/-- What `M.run` may be called for. -/
def Warranted (s : Dock V) (why : Why) (q : Query) : Prop :=
  s.AskedFor q.ask ∧ s.Due why q ∧
    match why with
    | .user _ _ => True
    | .refresh browse on => browse = some q.ask ∧ q.conn.id = on

/-- All but what is asked for and run. -/
def unlogged : List Part :=
  [.plain, .data, .pages, .starts, .counts, .edits, .locks, .inserts, .writes, .docs]

theorem keeps_asked (V : Type) : Keeps unlogged fun s : Dock V => Justified RunsAsked s.hist where
  plain := by decide
  face := fun _ h => h
  pend := fun _ h => h
  tell := fun {s e} he h => by
    refine h.cons ?_
    cases e with
    | asked n a => exact absurd (show Part.runs ∈ unlogged from he) (by decide)
    | ran why k q done => exact absurd (show Part.runs ∈ unlogged from he) (by decide)
    | _ => trivial
  wait := fun _ h => h
  later := fun _ h => h
  next := fun _ h => h
  source := fun _ h => h
  amend := fun _ h => h
  addEntry := fun h => h
  data := fun _ h => h
  page := fun _ h => h
  count := fun _ _ h => h
  register := fun _ _ h => h
  bind := fun _ h => h

theorem asked_want (ht : s.Ticketed) (h : Justified RunsAsked s.hist) (q : Query) :
    Justified RunsAsked (s.want q).hist :=
  h.cons fun a hm => absurd (ht.asked _ a hm) (Nat.lt_irrefl _)

theorem asked_run (h : Justified RunsAsked s.hist) {why : Why} {q : Query}
    (hw : s.Warranted why q) (offset : ℕ) (done : Option ℕ) :
    Justified RunsAsked (s.run env why q offset done).hist := by
  unfold Dock.run
  split
  · exact Justified.cons ((keeps_asked V).cancelEdit h) trivial
  have hclear : Justified RunsAsked (s.clear env q).hist :=
    (keeps_asked V).clear (by decide) (by decide) (by decide) h q
  have hgrows : ∃ es, (s.clear env q).hist = es ++ s.hist := clear_hist q
  obtain ⟨es, hes⟩ := hgrows
  obtain ⟨⟨n, hn⟩, hdue, hwhy⟩ := hw
  refine hclear.cons ⟨⟨n, hes ▸ List.mem_append_right _ hn⟩, ?_⟩
  cases why with
  | refresh browse on => exact hwhy
  | user m judged =>
    exact ⟨hes ▸ List.mem_append_right _ hdue.1, clear_unserved hdue.2 q⟩

theorem asked_finish (h : Justified RunsAsked s.hist) (done : Option ℕ) (ok : Bool) :
    Justified RunsAsked (s.finish done ok).hist := by
  cases done with
  | none => exact h
  | some n => exact h.cons trivial

theorem asked_land (h : Justified RunsAsked s.hist) (offset : ℕ) (done : Option ℕ) :
    Justified RunsAsked (s.land env offset done).hist := by
  have ho : Justified RunsAsked
      (Dock.openDock { s with face := { s.face with view := .result } }).hist :=
    (keeps_asked V).openDock ((keeps_asked V).face (.inl (.inl rfl)) h)
  unfold Dock.land
  dsimp only
  split
  · exact ho
  · exact asked_finish ((keeps_asked V).gotoPage ho offset) done true

theorem asked_judged (h : Justified RunsAsked s.hist) (q : Query) (t : Ticket) (dangerous : Bool) :
    Justified RunsAsked (s.judged q t dangerous).hist := by
  unfold Dock.judged
  split
  · exact h
  · exact h

theorem asked_guarded (ht : s.Ticketed) (h : Justified RunsAsked s.hist) (q : Query)
    (notify : Bool) : Justified RunsAsked (s.runGuarded env q notify).hist := by
  have hw := asked_want ht h q
  unfold Dock.runGuarded
  dsimp only
  split
  · split
    · exact asked_judged hw q _ _
    · exact hw.cons trivial
  · exact asked_judged hw q _ _

theorem asked_settle (h : Justified RunsAsked s.hist) (k : ℕ) {st : CallStatus}
    (hst : st ≠ .running) (offset : ℕ) (done : Option ℕ) :
    Justified RunsAsked (s.settle k st offset done).hist := by
  have hset := (keeps_asked V).settled h k hst
  unfold Dock.settle
  dsimp only
  split
  · exact hset
  · exact hset

theorem asked_register (h : Justified RunsAsked s.hist) (k : ℕ) (q : Query) (offset : ℕ)
    (done : Option ℕ) (cid : CallId) :
    Justified RunsAsked (s.register env k q offset done cid).hist := by
  unfold Dock.register
  refine (keeps_asked V).evict ?_ _ _
  exact h

theorem asked_again (ht : s.Ticketed) (h : Justified RunsAsked s.hist) (q : Query) :
    Justified RunsAsked (s.again env q).hist := by
  obtain ⟨-, hdue⟩ := ht.want q
  have hw : (s.want q).Warranted (.user s.next none) { q with origin := none } :=
    ⟨⟨s.next, hdue.1⟩, hdue, trivial⟩
  exact asked_run (asked_want ht h q) hw _ _

structure Traced (s : Dock V) : Prop where
  tickets : s.Ticketed
  sourced : s.Sourced
  aimed : s.Aimed
  hist : Justified RunsAsked s.hist

theorem asked_step {i : Input V} {t : Dock V} (h : s.Traced) (hg : s.BrowseShown i)
    (hst : s.step env i = some t) : Justified RunsAsked t.hist := by
  refine (keeps_asked V).step (by decide) h.hist (fun q notify _ => asked_guarded h.tickets h.hist q notify)
    (fun k _ => (keeps_asked V).openCached (by decide) (by decide) h.hist k) (fun _ => ?_)
    (fun hed => (keeps_asked V).edited (by decide) (by decide) (by decide)
      (fun _ _ _ _ _ h' => (keeps_asked V).writeRow (by decide) h' _ _ _ _ _) hed h.hist hst)
    (fun k ks hi hq => ?_) (fun n r c _ hc hr => ?_) hst
  · unfold Dock.rerunCall
    split
    · exact asked_again h.tickets h.hist _
    · exact h.hist
  · subst hi
    have hp : Justified RunsAsked ({ s with queue := ks } : Dock V).hist := h.hist
    obtain ⟨-, hfree⟩ := h.tickets.popped hq
    refine (keeps_asked V).perform hp (fun done _ => asked_finish hp done false)
      (fun offset done _ => asked_land hp offset done) (fun q t heq => ?_) (fun q t _ => hp)
      (fun n on plan statement target _ => hp) (fun on target heq => ?_)
    · subst heq
      have hdue := hfree q t rfl
      have hw : ({ s with queue := ks } : Dock V).Warranted (.user t.n (some false)) q :=
        ⟨⟨t.n, hdue.1⟩, hdue, trivial⟩
      exact asked_run hp hw _ _
    · subst heq
      simp only [BrowseShown, hq] at hg
      have hon : s.ConnOf on target := h.aimed.queued _ (hq ▸ List.mem_cons_self ..) on target rfl
      unfold Dock.refresh
      split
      · rename_i statement hstate
        have hb : s.browseOf target = some (on.id, statement) :=
          refresh_browse hon (hg statement hstate)
        have hw : ({ s with queue := ks } : Dock V).Warranted
            (.refresh (s.browseOf target) on.id) ⟨on, statement, s.origin.map Origin.source⟩ :=
          ⟨h.sourced.browse_asked h.aimed hb, trivial, hb, rfl⟩
        exact asked_run hp hw _ _
      · exact hp
  · have hd : Justified RunsAsked (s.drop n).hist := h.hist
    obtain ⟨-, hfree⟩ := h.tickets.dropped hc
    refine hr.keeps (P := fun s : Dock V => Justified RunsAsked s.hist)
      (fun hp => (keeps_asked V).answeredRest (by decide) hr hp hd)
      (fun cid _ p _ => (keeps_asked V).turn (by decide) hd cid p) (fun _ _ _ _ _ _ => hd)
      (fun k q offset done cid _ _ => asked_register hd k q offset done cid)
      (fun k offset done st _ hst => asked_settle hd k hst offset done)
      (fun q t b _ _ => asked_judged hd q t b) (fun q t heq _ => ?_)
      (fun q t _ => asked_finish hd t.done false) (fun _ _ _ => hd)
    subst heq
    obtain ⟨ha, hz⟩ := hfree q t rfl
    have htell : Justified RunsAsked ((s.drop n).tell (.confirmed t.n)).hist := hd.cons trivial
    have hasked : .asked t.n q.ask ∈ ((s.drop n).tell (.confirmed t.n)).hist :=
      List.mem_cons_of_mem _ ha
    have hw : ((s.drop n).tell (.confirmed t.n)).Warranted (.user t.n (some true)) q :=
      ⟨⟨t.n, hasked⟩, ⟨hasked, by rw [tally_tell, hz]; rfl⟩, trivial⟩
    exact asked_run htell hw _ _

theorem Traced.step {i : Input V} {t : Dock V} (h : s.Traced) (hg : s.BrowseShown i)
    (hst : s.step env i = some t) : t.Traced where
  tickets := h.tickets.step hst
  sourced := h.sourced.step h.aimed h.tickets hg hst
  aimed := h.aimed.step h.sourced hg hst
  hist := asked_step h hg hst

theorem traced_new : (new : Dock V).Traced :=
  ⟨ticketed_new, sourced_new, aimed_new, Lib.justified_nil⟩

/-- What was last run, and why. -/
def lastRun (s : Dock V) : Option (Why × Ask) :=
  match s.hist with
  | .ran why _ q _ :: _ => some (why, q.ask)
  | _ => none

/-- A row is removed and the page read again. -/
def removed : List (Input ℕ) :=
  removal ++ [.answer 0 (.answer true), .answer 0 .written, .tick]

/-- Another statement is run before the write is answered. -/
def overrun : List (Input ℕ) :=
  removal ++ [.answer 0 (.answer true), .run ⟨connA, "insert", none⟩ false, .tick,
    .answer 0 .written, .tick]

end Dock
end LvimDb.Result
