import LvimDb.Lib.Table
import LvimDb.Store.Migration
import Mathlib.Data.String.Basic

/-!
# The legacy store

The three tables of the old file and what `legacy` of store.lua does with them. What the file
answers to a query, and whether a write succeeds, is an input.
-/

namespace LvimDb.Store
open Lib.Table (Answer Checks Represents Sorts)

/-- `vim.json.encode` and `vim.json.decode` of a spec, and the spec that is `{}`. -/
structure Codec (Spec : Type) where
  encode : Spec → String
  decode : String → Option Spec
  empty : Spec

structure ConnRow where
  id : ℕ
  name : String
  driver : String
  spec : String
  created : ℕ
  deriving DecidableEq, Repr

structure QueryRow where
  id : ℕ
  conn : String
  name : String
  sql : String
  updatedAt : ℕ
  deriving DecidableEq, Repr

/-- What `record` is given. -/
structure Entry where
  conn : Option String
  driver : Option String
  statement : String
  state : Option String
  ms : Option ℕ
  rows : Option ℕ
  deriving DecidableEq, Repr

structure HistRow where
  id : ℕ
  entry : Entry
  ts : ℕ
  deriving DecidableEq, Repr

structure Connection (Spec : Type) where
  id : ℕ
  name : String
  driver : String
  spec : Spec
  created : ℕ
  deriving DecidableEq, Repr

/-- The key of a saved query. -/
def QueryRow.key (r : QueryRow) : String × String := (r.conn, r.name)

structure Legacy where
  connections : List ConnRow
  queries : List QueryRow
  history : List HistRow
  deriving DecidableEq, Repr

/-- A write: `found` is what the query before it was answered, `wrote` the number of the new row,
and `none` stands for a failure. -/
inductive Legacy.Input (Spec : Type)
  | saveConnection (name driver : String) (spec : Spec) (now : ℕ) (found : Option (List ConnRow))
    (wrote : Option ℕ)
  | removeConnection (name : String) (removed : Bool)
  | saveQuery (conn name sql : String) (now : ℕ) (found : Option (List QueryRow))
    (wrote : Option ℕ)
  | deleteQuery (conn name : String) (removed : Bool)
  | record (entry : Entry) (now : ℕ) (wrote : Option ℕ)

namespace Legacy
variable {Spec : Type} (codec : Codec Spec) (s : Legacy)

def new : Legacy := ⟨[], [], []⟩

/-! ### Reads -/

/-- `decode_conn` (128-137). -/
def decodeConn (row : ConnRow) : Connection Spec where
  id := row.id
  name := row.name
  driver := row.driver
  spec := (codec.decode row.spec).getD codec.empty
  created := row.created

/-- `legacy.list_connections` (146-163), before the sort. -/
def listConnections (found : Option (List ConnRow)) : List (Connection Spec) :=
  (found.getD []).map (decodeConn codec)

/-- `legacy.get_connection` (165-175). -/
def getConnection (found : Option (List ConnRow)) : Option (Connection Spec) :=
  (found.getD []).head?.map (decodeConn codec)

/-- `legacy.get_query` (215-225). -/
def getQuery (found : Option (List QueryRow)) : Option QueryRow := (found.getD []).head?

/-- `legacy.history` (263-280), after the sort. -/
def historyOf (limit : Option ℤ) (rows : List HistRow) : List HistRow :=
  rows.take (limit.getD 200).toNat

/-! ### Writes -/

/-- `legacy.save_connection` (177-190). -/
def saveConnection (name driver : String) (spec : Spec) (now : ℕ) (found : Option (List ConnRow))
    (wrote : Option ℕ) : Option Legacy :=
  (Lib.Table.upsert ConnRow.name ConnRow.id true name
    (fun r => { r with driver := driver, spec := codec.encode spec })
    (fun id => ⟨id, name, driver, codec.encode spec, now⟩) found wrote s.connections).map
    fun rows => { s with connections := rows }

/-- `legacy.remove_connection` (192-198). -/
def removeConnection (name : String) (removed : Bool) : Legacy :=
  if removed then { s with connections := Lib.Table.drop ConnRow.name name s.connections } else s

/-- `legacy.save_query` (227-237). -/
def saveQuery (conn name sql : String) (now : ℕ) (found : Option (List QueryRow))
    (wrote : Option ℕ) : Option Legacy :=
  (Lib.Table.upsert QueryRow.key QueryRow.id false (conn, name)
    (fun r => { r with sql := sql, updatedAt := now })
    (fun id => ⟨id, conn, name, sql, now⟩) found wrote s.queries).map
    fun rows => { s with queries := rows }

/-- `legacy.delete_query` (239-245). -/
def deleteQuery (conn name : String) (removed : Bool) : Legacy :=
  if removed then { s with queries := Lib.Table.drop QueryRow.key (conn, name) s.queries } else s

/-- `legacy.record` (247-261). -/
def record (entry : Entry) (now : ℕ) (wrote : Option ℕ) : Option Legacy :=
  match wrote with
  | none => some s
  | some id =>
    if id ∈ s.history.map HistRow.id then none
    else some { s with history := ⟨id, entry, now⟩ :: s.history }

def step : Input Spec → Option Legacy
  | .saveConnection name driver spec now found wrote =>
    s.saveConnection codec name driver spec now found wrote
  | .removeConnection name removed => some (s.removeConnection name removed)
  | .saveQuery conn name sql now found wrote => s.saveQuery conn name sql now found wrote
  | .deleteQuery conn name removed => some (s.deleteQuery conn name removed)
  | .record entry now wrote => s.record entry now wrote

end Legacy

def legacy {Spec : Type} (codec : Codec Spec) : Lib.Machine Legacy (Legacy.Input Spec) where
  init := .new
  step := Legacy.step codec

/-! ### What was saved -/

/-- What is saved under a name: the driver, the spec and the time it was first saved. -/
def Connection.payload {Spec : Type} (c : Connection Spec) : String × Spec × ℕ :=
  (c.driver, c.spec, c.created)

def QueryRow.payload (r : QueryRow) : String × ℕ := (r.sql, r.updatedAt)

def HistRow.payload (r : HistRow) : Entry × ℕ := (r.entry, r.ts)

structure Book (Spec : Type) where
  connections : String → Option (String × Spec × ℕ)
  queries : String × String → Option (String × ℕ)
  history : List (Entry × ℕ)

namespace Book
variable {Spec : Type}

def new : Book Spec := ⟨fun _ => none, fun _ => none, []⟩

/-- A write that was acknowledged counts. -/
def after (b : Book Spec) : Legacy.Input Spec → Book Spec
  | .saveConnection name driver spec now _ wrote =>
    let saved := (b.connections name).elim (driver, spec, now) fun p => (driver, spec, p.2.2)
    if wrote.isSome then { b with connections := Function.update b.connections name (some saved) }
    else b
  | .removeConnection name removed =>
    if removed then { b with connections := Function.update b.connections name none } else b
  | .saveQuery conn name sql now _ wrote =>
    if wrote.isSome then
      { b with queries := Function.update b.queries (conn, name) (some (sql, now)) }
    else b
  | .deleteQuery conn name removed =>
    if removed then { b with queries := Function.update b.queries (conn, name) none } else b
  | .record entry now wrote =>
    if wrote.isSome then { b with history := (entry, now) :: b.history } else b

def replay (is : List (Legacy.Input Spec)) : Book Spec := is.foldl after new

end Book

namespace Legacy
variable {Spec : Type} {codec : Codec Spec} {s t : Legacy} {b : Book Spec}

/-- The connections and the history are what was saved. -/
structure Kept (codec : Codec Spec) (s : Legacy) (b : Book Spec) : Prop where
  connections : Represents ConnRow.name (fun r => (decodeConn codec r).payload) s.connections
    b.connections
  history : s.history.map HistRow.payload = b.history

theorem kept_new : Kept codec new .new := ⟨Lib.Table.represents_nil, rfl⟩

theorem Kept.step (hcodec : ∀ spec, codec.decode (codec.encode spec) = some spec)
    (h : Kept codec s b) {i : Legacy.Input Spec} (hst : s.step codec i = some t) :
    Kept codec t (b.after i) := by
  cases i with
  | saveConnection name driver spec now found wrote =>
    obtain ⟨rows, hrows, rfl⟩ := Option.map_eq_some_iff.mp hst
    have hedit : ∀ r : ConnRow,
        (decodeConn codec { r with driver := driver, spec := codec.encode spec }).payload =
          (driver, spec, (decodeConn codec r).payload.2.2) := by
      intro r
      simp [decodeConn, Connection.payload, hcodec]
    have hmake : ∀ id : ℕ,
        (decodeConn codec ⟨id, name, driver, codec.encode spec, now⟩).payload =
          (driver, spec, now) := by
      intro id
      simp [decodeConn, Connection.payload, hcodec]
    have hnew := h.connections.upsert hrows (g := fun p => (driver, spec, p.2.2)) (.inl rfl)
      (fun _ => rfl) (fun _ => rfl) hedit hmake
    cases wrote with
    | none => exact ⟨hnew, h.history⟩
    | some n => exact ⟨hnew, h.history⟩
  | removeConnection name removed =>
    cases hst
    cases removed with
    | false => exact h
    | true => exact ⟨h.connections.drop name, h.history⟩
  | saveQuery conn name sql now found wrote =>
    obtain ⟨rows, -, rfl⟩ := Option.map_eq_some_iff.mp hst
    cases wrote with
    | none => exact ⟨h.connections, h.history⟩
    | some n => exact ⟨h.connections, h.history⟩
  | deleteQuery conn name removed =>
    cases hst
    cases removed with
    | false => exact h
    | true => exact ⟨h.connections, h.history⟩
  | record entry now wrote =>
    cases wrote with
    | none =>
      cases hst
      exact h
    | some n =>
      have hst : (if n ∈ s.history.map HistRow.id then none
        else some { s with history := ⟨n, entry, now⟩ :: s.history }) = some t := hst
      rw [Option.ite_none_left_eq_some] at hst
      obtain ⟨-, heq⟩ := hst
      rw [← Option.some.inj heq]
      exact ⟨h.connections, congrArg _ h.history⟩

theorem Kept.run (hcodec : ∀ spec, codec.decode (codec.encode spec) = some spec)
    {is : List (Legacy.Input Spec)} (hrun : (legacy codec).Run Lib.Machine.free s is t)
    (h : Kept codec s b) : Kept codec t (is.foldl Book.after b) := by
  induction hrun generalizing b with
  | nil => exact h
  | cons _ hst _ ih => exact ih (h.step hcodec hst)

theorem Kept.get (h : Kept codec s b) {name : String} {found : List ConnRow}
    (hf : Answer s.connections (fun r => r.name = name) found) :
    (getConnection codec (some found)).map Connection.payload = b.connections name := by
  rw [← h.connections.answer hf]
  cases found <;> rfl

theorem Kept.list (h : Kept codec s b) {found : List ConnRow} {out : List (Connection Spec)}
    (hf : found.Perm s.connections)
    (hout : out.Perm (listConnections codec (some found))) :
    (out.map Connection.name).Nodup ∧
      ∀ name p, b.connections name = some p ↔ ∃ c ∈ out, c.name = name ∧ c.payload = p := by
  have hfound := h.connections.perm hf
  constructor
  · have hnames : ((listConnections codec (some found)).map Connection.name) =
        found.map ConnRow.name := List.map_map
    rw [(hout.map Connection.name).nodup_iff, hnames]
    exact hfound.nodup
  · intro name p
    rw [hfound.value]
    constructor
    · rintro ⟨r, hr, hname, hp⟩
      exact ⟨decodeConn codec r, hout.mem_iff.mpr (List.mem_map_of_mem hr), hname, hp⟩
    · rintro ⟨c, hc, hname, hp⟩
      obtain ⟨r, hr, rfl⟩ := List.mem_map.mp (hout.mem_iff.mp hc)
      exact ⟨r, hr, hname, hp⟩

theorem Kept.cut (h : Kept codec s b) {found out : List HistRow} (limit : Option ℤ)
    (hf : found.Perm s.history) (hout : Sorts (fun a b => decide (b.ts < a.ts)) found out) :
    (historyOf limit out).Pairwise (fun a b => b.ts ≤ a.ts) ∧
      (historyOf limit out).length = min (limit.getD 200).toNat b.history.length ∧
      ∃ rest, b.history.Perm ((historyOf limit out).map HistRow.payload ++ rest) ∧
        ∀ e ∈ historyOf limit out, ∀ x ∈ rest, x.2 ≤ e.ts := by
  obtain ⟨hsorted, rest, hperm, hlast⟩ := hout.take (limit.getD 200).toNat
  have hle : ∀ a c : HistRow, decide (a.ts < c.ts) = false → c.ts ≤ a.ts := by
    intro a c hac
    exact Nat.le_of_not_lt (of_decide_eq_false hac)
  have hlen : out.length = b.history.length := by
    rw [← h.history, List.length_map, hout.1.length_eq, hf.length_eq]
  refine ⟨hsorted.imp fun hab => Nat.le_of_not_lt (of_decide_eq_false hab), ?_,
    rest.map HistRow.payload, ?_, ?_⟩
  · rw [historyOf, List.length_take, hlen]
  · rw [← h.history, historyOf, ← List.map_append]
    exact (hf.symm.trans hperm).map _
  · intro e he x hx
    obtain ⟨r, hr, rfl⟩ := List.mem_map.mp hx
    exact Nat.le_of_not_lt (of_decide_eq_false (hlast e he r hr))

/-- In every run of the file the connections are those whose saves were acknowledged, each with
the driver and the spec last saved and the time it was first saved; what is read of the history
are the newest entries of all that were recorded. -/
theorem legacy_kept (hcodec : ∀ spec, codec.decode (codec.encode spec) = some spec)
    {is : List (Legacy.Input Spec)} (h : (legacy codec).Run Lib.Machine.free new is s) :
    (∀ name found, Answer s.connections (fun r => r.name = name) found →
      (getConnection codec (some found)).map Connection.payload =
        (Book.replay is).connections name) ∧
    (∀ found out, found.Perm s.connections →
      Sorts (fun a b => decide (b.created < a.created)) (listConnections codec (some found)) out →
        (out.map Connection.name).Nodup ∧ ∀ name p, (Book.replay is).connections name = some p ↔
          ∃ c ∈ out, c.name = name ∧ c.payload = p) ∧
    ∀ limit found out, found.Perm s.history →
      Sorts (fun a b => decide (b.ts < a.ts)) found out →
        (historyOf limit out).Pairwise (fun a b => b.ts ≤ a.ts) ∧
        (historyOf limit out).length =
          min (limit.getD 200).toNat (Book.replay is).history.length ∧
        ∃ rest, (Book.replay is).history.Perm ((historyOf limit out).map HistRow.payload ++ rest) ∧
          ∀ e ∈ historyOf limit out, ∀ x ∈ rest, x.2 ≤ e.ts := by
  have hkept : Kept codec s (Book.replay is) := kept_new.run hcodec h
  refine ⟨fun name found hf => hkept.get hf, fun found out hf hout => hkept.list hf hout.1,
    fun limit found out hf hout => hkept.cut limit hf hout⟩

/-- A connection is saved twice, the file away between. -/
def savedTwice : List (Legacy.Input String) :=
  [.saveConnection "shop" "mysql" "{}" 1 (some []) (some 1),
    .saveConnection "shop" "mysql" "{}" 2 none none,
    .saveConnection "shop" "postgres" "{}" 3 (some [⟨1, "shop", "mysql", "{}", 1⟩]) (some 1),
    .record ⟨none, none, "SELECT 1", none, none, none⟩ 4 (some 1)]

def textCodec : Codec String := ⟨id, some, ""⟩

theorem legacy_kept_shop : ∃ s, (legacy textCodec).Run Lib.Machine.free new savedTwice s ∧
    s.connections = [⟨1, "shop", "postgres", "{}", 1⟩] ∧
    (getConnection textCodec (some s.connections)).map Connection.payload =
      (Book.replay savedTwice).connections "shop" := by
  obtain ⟨s, hs, hrun⟩ := Lib.Machine.exists_run (legacy textCodec) new savedTwice (by decide)
  have hrows : s.connections = [⟨1, "shop", "postgres", "{}", 1⟩] := by
    have hend : ((legacy textCodec).exec new savedTwice).map connections =
        some [⟨1, "shop", "postgres", "{}", 1⟩] := by decide
    rw [hs] at hend
    exact Option.some.inj hend
  refine ⟨s, hrun, hrows, ?_⟩
  exact (legacy_kept (fun _ => rfl) hrun).1 "shop" s.connections (by rw [hrows]; decide)

/-! ### Saved queries -/

/-- The query before an insert has told that there is no such row. -/
def Checked (s : Legacy) : Legacy.Input Spec → Prop
  | .saveQuery conn name _ _ found wrote => Checks QueryRow.key s.queries (conn, name) found wrote
  | _ => True

def OneEach (s : Legacy) : Prop := (s.queries.map QueryRow.key).Nodup

theorem record_others {entry : Entry} {now : ℕ} {wrote : Option ℕ}
    (hst : s.record entry now wrote = some t) :
    t.queries = s.queries ∧ t.connections = s.connections := by
  unfold record at hst
  split at hst
  · cases hst
    exact ⟨rfl, rfl⟩
  · split at hst
    · cases hst
    · cases hst
      exact ⟨rfl, rfl⟩

/-- A step keeps the queries apart exactly where it is `Checked`. -/
theorem oneEach_step (h : s.OneEach) {i : Legacy.Input Spec} (hst : s.step codec i = some t) :
    t.OneEach ↔ Checked s i := by
  cases i with
  | saveConnection name driver spec now found wrote =>
    obtain ⟨rows, -, rfl⟩ := Option.map_eq_some_iff.mp hst
    exact iff_of_true h trivial
  | removeConnection name removed =>
    cases hst
    cases removed <;> exact iff_of_true h trivial
  | saveQuery conn name sql now found wrote =>
    obtain ⟨rows, hrows, rfl⟩ := Option.map_eq_some_iff.mp hst
    exact Lib.Table.nodup_upsert_iff h hrows (fun _ => rfl) fun _ => rfl
  | deleteQuery conn name removed =>
    cases hst
    cases removed with
    | false => exact iff_of_true h trivial
    | true => exact iff_of_true (h.sublist (List.filter_sublist.map _)) trivial
  | record entry now wrote =>
    rw [OneEach, (record_others hst).1]
    exact iff_of_true h trivial

/-- The queries are what was saved. -/
def Same (s : Legacy) (b : Book Spec) : Prop :=
  Represents QueryRow.key QueryRow.payload s.queries b.queries

theorem Same.step (h : s.Same b) {i : Legacy.Input Spec} (hc : Checked s i)
    (hst : s.step codec i = some t) : t.Same (b.after i) := by
  cases i with
  | saveConnection name driver spec now found wrote =>
    obtain ⟨rows, -, rfl⟩ := Option.map_eq_some_iff.mp hst
    cases wrote <;> exact h
  | removeConnection name removed =>
    cases hst
    cases removed <;> exact h
  | saveQuery conn name sql now found wrote =>
    obtain ⟨rows, hrows, rfl⟩ := Option.map_eq_some_iff.mp hst
    have hnew := Represents.upsert (v := (sql, now)) h hrows (g := fun _ => (sql, now)) (.inr hc)
      (fun _ => rfl) (fun _ => rfl) (fun _ => rfl) fun _ => rfl
    cases wrote with
    | none => exact hnew
    | some n =>
      have hput : (b.queries (conn, name)).elim (sql, now) (fun _ => (sql, now)) = (sql, now) := by
        cases b.queries (conn, name) <;> rfl
      rw [hput] at hnew
      exact hnew
  | deleteQuery conn name removed =>
    cases hst
    cases removed with
    | false => exact h
    | true => exact Represents.drop h (conn, name)
  | record entry now wrote =>
    have hsame : (b.after (.record entry now wrote)).queries = b.queries := by
      cases wrote <;> rfl
    rw [Same, (record_others hst).1, hsame]
    exact h

theorem Same.run {is : List (Legacy.Input Spec)} (hrun : (legacy codec).Run Checked s is t)
    (h : s.Same b) : t.Same (is.foldl Book.after b) := by
  induction hrun generalizing b with
  | nil => exact h
  | cons hc hst _ ih => exact ih (h.step hc hst)

theorem Same.list (h : s.Same b) {conn : String} {found out : List QueryRow}
    (hf : Answer s.queries (fun r => r.conn = conn) found)
    (hout : Sorts (fun a b => decide (a.name < b.name)) found out) :
    out.Pairwise (fun a b => a.name < b.name) ∧
      ∀ name p, b.queries (conn, name) = some p ↔ ∃ q ∈ out, q.name = name ∧ q.payload = p := by
  have hperm : out.Perm (s.queries.filter fun r => r.conn = conn) := hout.1.trans hf
  have hmem : ∀ q, q ∈ out ↔ q ∈ s.queries ∧ q.conn = conn := by
    intro q
    rw [hperm.mem_iff, List.mem_filter, decide_eq_true_eq]
  constructor
  · have hkeys : (out.map QueryRow.key).Nodup :=
      (hperm.map QueryRow.key).nodup_iff.mpr (h.nodup.sublist (List.filter_sublist.map _))
    have hboth := hout.2.and (List.pairwise_map.mp hkeys)
    refine hboth.imp_of_mem ?_
    intro q q' hq hq' hqq'
    have hle : ¬ q'.name < q.name := of_decide_eq_false hqq'.1
    have hconn : q.conn = q'.conn := ((hmem q).mp hq).2.trans ((hmem q').mp hq').2.symm
    have hname : q.name ≠ q'.name := fun heq => hqq'.2 (Prod.ext hconn heq)
    exact lt_of_le_of_ne (not_lt.mp hle) hname
  · intro name p
    rw [h.value]
    constructor
    · rintro ⟨q, hq, hkey, hp⟩
      exact ⟨q, (hmem q).mpr ⟨hq, congrArg Prod.fst hkey⟩, congrArg Prod.snd hkey, hp⟩
    · rintro ⟨q, hq, rfl, hp⟩
      obtain ⟨hq, rfl⟩ := (hmem q).mp hq
      exact ⟨q, hq, rfl, hp⟩

/-- The file has one query for each connection and name throughout a run exactly when no query
is inserted over one that the check before has failed to find; then what is read are the queries
last saved. -/
theorem queries_kept {is : List (Legacy.Input Spec)}
    (h : (legacy codec).Run Lib.Machine.free new is s) :
    ((legacy codec).Throughout new is OneEach ↔ (legacy codec).Run Checked new is s) ∧
    ((legacy codec).Run Checked new is s →
      (∀ conn name found, Answer s.queries (fun r => r.key = (conn, name)) found →
        (getQuery (some found)).map QueryRow.payload = (Book.replay is).queries (conn, name)) ∧
      ∀ conn found out, Answer s.queries (fun r => r.conn = conn) found →
        Sorts (fun a b => decide (a.name < b.name)) found out →
          out.Pairwise (fun a b => a.name < b.name) ∧
          ∀ name p, (Book.replay is).queries (conn, name) = some p ↔
            ∃ q ∈ out, q.name = name ∧ q.payload = p) := by
  constructor
  · exact h.throughout_iff (fun _ => True) OneEach (fun _ _ _ _ _ => trivial)
      (fun _ _ _ _ hone hst => oneEach_step hone hst) trivial List.nodup_nil
  · intro hrun
    have hsame : s.Same (Book.replay is) := Same.run hrun Lib.Table.represents_nil
    exact ⟨fun conn name found hf => hsame.answer hf,
      fun conn found out hf hout => hsame.list hf hout⟩

def queryTwice : List (Legacy.Input String) :=
  [.saveQuery "shop" "top" "SELECT 1" 1 (some []) (some 1),
    .saveQuery "shop" "top" "SELECT 2" 2 (some [⟨1, "shop", "top", "SELECT 1", 1⟩]) (some 1)]

theorem queries_kept_top : ∃ s, (legacy textCodec).Run Lib.Machine.free new queryTwice s ∧
    (legacy textCodec).Throughout new queryTwice OneEach ∧
    (getQuery (some s.queries)).map QueryRow.payload =
      (Book.replay queryTwice).queries ("shop", "top") := by
  have hrun : (legacy textCodec).Run Checked new queryTwice
      ⟨[], [⟨1, "shop", "top", "SELECT 2", 2⟩], []⟩ :=
    .cons (t := ⟨[], [⟨1, "shop", "top", "SELECT 1", 1⟩], []⟩) (fun h => by cases h) (by decide)
      (.cons (fun h => by cases h) (by decide) (.nil _))
  have hfree : (legacy textCodec).Run Lib.Machine.free new queryTwice _ :=
    hrun.weaken fun _ _ _ => trivial
  obtain ⟨hone, hread⟩ := queries_kept hfree
  exact ⟨_, hfree, hone.mpr hrun, (hread hrun).1 "shop" "top" _ (by decide)⟩

/-! ### The rows are the file of the migration -/

/-- What the machine of the sessions makes of a write. -/
def act : Legacy.Input Spec → Option (Act (String × Spec))
  | .saveConnection name driver spec _ _ wrote =>
    some (.op (.save name (driver, spec) (if wrote.isSome then .done else .failed false)))
  | .removeConnection name removed =>
    some (.op (.remove name (if removed then .done else .failed false)))
  | _ => none

def stored (codec : Codec Spec) (r : ConnRow) : String × Spec :=
  (r.driver, (decodeConn codec r).spec)

/-- A session with the legacy backend whose file has these rows. -/
structure Files (codec : Codec Spec) (s : Legacy) (d : Disk (String × Spec)) : Prop where
  mode : d.mode = some .legacy
  rows : Represents ConnRow.name (stored codec) s.connections d.file

variable {d : Disk (String × Spec)}

theorem resolved (hm : d.mode = some .legacy) : d.resolve = d := by
  unfold Disk.resolve
  rw [hm]

theorem file_put (hm : d.mode = some .legacy) (name : String) (row : Option (String × Spec)) :
    (d.put name row).mode = some .legacy ∧
      (d.put name row).file = Function.update d.file name row := by
  refine ⟨Disk.put_mode.trans hm, ?_⟩
  unfold Disk.put
  rw [hm]
  rfl

theorem stores_legacy (hm : d.mode = some .legacy) : d.stores = true := by
  unfold Disk.stores
  rw [hm]

/-- A save of the session, where the write is made. -/
theorem file_save (hm : d.mode = some .legacy) (name : String) (p : String × Spec) :
    ∃ e, d.step (.op (.save name p .done)) = some e ∧
    e.mode = some .legacy ∧ e.file = Function.update d.file name (some p) := by
  obtain ⟨hmode, hfile⟩ := file_put hm name (some p)
  refine ⟨_, rfl, ?_⟩
  rw [resolved hm, Disk.perform, Disk.save, stores_legacy hm]
  exact ⟨hmode, hfile⟩

theorem file_remove (hm : d.mode = some .legacy) (name : String) :
    ∃ e, d.step (.op (.remove name .done)) = some e ∧
    e.mode = some .legacy ∧ e.file = Function.update d.file name none := by
  obtain ⟨hmode, hfile⟩ := file_put hm name none
  refine ⟨_, rfl, ?_⟩
  rw [resolved hm, Disk.perform, Disk.remove, stores_legacy hm]
  exact ⟨hmode, hfile⟩

/-- A write that fails leaves the session as it is. -/
theorem file_fails (hm : d.mode = some .legacy) (name : String) (p : String × Spec) :
    d.step (.op (.save name p (.failed false))) = some d ∧
      d.step (.op (.remove name (.failed false))) = some d := by
  constructor
  · show some (d.resolve.save name p (.failed false)) = some d
    rw [resolved hm, Disk.save, stores_legacy hm]
    rfl
  · show some (d.resolve.remove name (.failed false)) = some d
    rw [resolved hm, Disk.remove, stores_legacy hm]
    rfl

/-- A write to the rows is what the session does of it, or nothing to the connections. -/
theorem Files.step (hcodec : ∀ spec, codec.decode (codec.encode spec) = some spec)
    (h : Files codec s d) {i : Legacy.Input Spec} (hst : s.step codec i = some t) :
    ∃ e, (disks (String × Spec)).Run Lib.Machine.free d (act i).toList e ∧ Files codec t e := by
  cases i with
  | saveConnection name driver spec now found wrote =>
    obtain ⟨rows, hrows, rfl⟩ := Option.map_eq_some_iff.mp hst
    have hedit : ∀ r : ConnRow,
        stored codec { r with driver := driver, spec := codec.encode spec } = (driver, spec) := by
      intro r
      simp [stored, decodeConn, hcodec]
    have hmake : ∀ id : ℕ,
        stored codec ⟨id, name, driver, codec.encode spec, now⟩ = (driver, spec) := by
      intro id
      simp [stored, decodeConn, hcodec]
    have hnew := h.rows.upsert hrows (g := fun _ => (driver, spec)) (.inl rfl)
      (fun _ => rfl) (fun _ => rfl) hedit hmake
    cases wrote with
    | none =>
      exact ⟨d, .cons trivial (file_fails h.mode name (driver, spec)).1 (.nil d), h.mode, hnew⟩
    | some n =>
      obtain ⟨e, he, hmode, hfile⟩ := file_save h.mode name (driver, spec)
      refine ⟨e, .cons trivial he (.nil e), hmode, ?_⟩
      have hput : (d.file name).elim (driver, spec) (fun _ => (driver, spec)) = (driver, spec) := by
        cases d.file name <;> rfl
      rw [hput] at hnew
      rw [hfile]
      exact hnew
  | removeConnection name removed =>
    cases hst
    cases removed with
    | false => exact ⟨d, .cons trivial (file_fails h.mode name ("", codec.empty)).2 (.nil d), h⟩
    | true =>
      obtain ⟨e, he, hmode, hfile⟩ := file_remove h.mode name
      refine ⟨e, .cons trivial he (.nil e), hmode, ?_⟩
      rw [hfile]
      exact h.rows.drop name
  | saveQuery conn name sql now found wrote =>
    obtain ⟨rows, -, rfl⟩ := Option.map_eq_some_iff.mp hst
    exact ⟨d, .nil d, h.mode, h.rows⟩
  | deleteQuery conn name removed =>
    cases hst
    cases removed <;> exact ⟨d, .nil d, h.mode, h.rows⟩
  | record entry now wrote =>
    have hsame : t.connections = s.connections := (record_others hst).2
    refine ⟨d, .nil d, h.mode, ?_⟩
    rw [hsame]
    exact h.rows

/-- A session with the legacy backend, row by row, is a run of the machine of the sessions, whose
file is the map of the rows. -/
theorem file_refines (hcodec : ∀ spec, codec.decode (codec.encode spec) = some spec)
    {is : List (Legacy.Input Spec)} (h : (legacy codec).Run Lib.Machine.free s is t)
    (hd : Files codec s d) :
    ∃ e, (disks (String × Spec)).Run Lib.Machine.free d (is.filterMap act) e ∧
      Files codec t e := by
  induction h generalizing d with
  | nil => exact ⟨d, .nil d, hd⟩
  | @cons s u t i is _ hst _ ih =>
    obtain ⟨e, hrun, he⟩ := hd.step hcodec hst
    obtain ⟨e', hrun', he'⟩ := ih he
    refine ⟨e', ?_, he'⟩
    have hacts : (i :: is).filterMap act = (act i).toList ++ is.filterMap act := by
      cases hi : act i <;> simp [hi]
    rw [hacts]
    exact hrun.append hrun'

/-- A session that finds no engine, and saves one connection. -/
theorem file_refines_shop : ∃ s e, (legacy textCodec).Run Lib.Machine.free new savedTwice s ∧
    (disks (String × String)).Run Lib.Machine.free
      { Disk.new with mode := some .legacy, legacy := some fun _ => none }
      (savedTwice.filterMap act) e ∧ Files textCodec s e ∧
    e.file "shop" = some ("postgres", "{}") := by
  obtain ⟨s, hs, hrun⟩ := Lib.Machine.exists_run (legacy textCodec) new savedTwice (by decide)
  obtain ⟨e, hrun', he⟩ := file_refines (d :=
    { Disk.new with mode := some .legacy, legacy := some fun _ => none }) (fun _ => rfl) hrun
    ⟨rfl, Lib.Table.represents_nil⟩
  refine ⟨s, e, hrun, hrun', he, ?_⟩
  have hend : ((legacy textCodec).exec new savedTwice).map connections =
      some [⟨1, "shop", "postgres", "{}", 1⟩] := by decide
  rw [hs] at hend
  rw [he.rows.value, Option.some.inj hend]
  exact ⟨_, List.mem_singleton_self _, rfl, rfl⟩

end Legacy

end LvimDb.Store
