import Mathlib.Data.List.Forall2
import LvimDb.Engine.Call

/-!
# Paging

Both streams are sources; the pull loop of `query.page` refills the call's buffer
from its stream, so whatever pages are asked for the buffer is a prefix of the
result and a page is the window of the result it was asked for.
-/

namespace LvimDb.Engine
variable {V B : Type} [BsonCells V B]

/-! ### The streams as sources -/

namespace ResultStream

/-- What a stream has still to hand out, a cursor's errors left out. -/
def rest : ResultStream V B → List (List V)
  | .buffered s => s.rows.drop s.pos
  | .cursor s => (s.first.toList ++ s.cursor.filterMap (·.toOption)).map (docToRow s.keys)

def Sound : ResultStream V B → Prop
  | .buffered s => s.pos ≤ s.rows.length
  | .cursor s => ∃ docs, s.cursor = docs.map .ok ∧ (s.done = true → docs = [])

/-- `next_page` in unbounded arithmetic. -/
def pull : ResultStream V B → ℕ → Option (List (List V)) × ResultStream V B
  | .buffered s, n =>
    if s.rows.length ≤ s.pos then (none, .buffered s)
    else
      (some ((s.rows.take (min (s.pos + n) s.rows.length)).drop s.pos),
        .buffered { s with pos := min (s.pos + n) s.rows.length })
  | .cursor s, n =>
    match s.nextPage n with
    | (.ok page, s) => (page, .cursor s)
    | (_, s) => (none, .cursor s)

end ResultStream

namespace MongoCursorStream

theorem drain_ok (keys : List String) (n : ℕ) (docs : List (Document B)) (rows : List (List V)) :
    drain keys n (docs.map .ok) rows =
      (.ok (rows ++ (docs.take (n - rows.length)).map (docToRow keys)),
        (docs.drop (n - rows.length)).map .ok, decide (rows.length + docs.length < n)) := by
  induction docs generalizing rows with
  | nil => simp [drain]
  | cons doc docs ih =>
    simp only [List.map_cons, drain]
    split
    · rename_i hlt
      obtain ⟨k, hk⟩ : ∃ k, n - rows.length = k + 1 := ⟨n - rows.length - 1, by omega⟩
      have hk' : n - (rows ++ [docToRow (V := V) keys doc]).length = k := by
        rw [List.length_append, List.length_singleton]
        omega
      rw [ih, hk, hk']
      simp only [List.take_succ_cons, List.drop_succ_cons, List.map_cons, List.append_assoc,
        List.singleton_append, List.length_append, List.length_cons, List.length_nil]
      congr 3
      exact propext ⟨fun h => by omega, fun h => by omega⟩
    · rename_i hge
      have h0 : n - rows.length = 0 := by omega
      simp only [h0, List.take_zero, List.drop_zero, List.map_nil, List.append_nil, List.map_cons,
        Prod.mk.injEq, true_and, List.length_cons]
      exact (decide_eq_false (by omega)).symm

/-- `next_page` on a cursor without errors takes a first part of the documents left. -/
theorem nextPage_ok (s : MongoCursorStream B) (docs : List (Document B)) (n : ℕ)
    (hc : s.cursor = docs.map .ok) (hd : s.done = true → docs = []) (hn : 0 < n) :
    ∃ taken left, s.first.toList ++ docs = taken ++ left ∧ taken.length ≤ n ∧
      (taken = [] → left = []) ∧ ∃ s', s'.first = none ∧ s'.keys = s.keys ∧
        s'.cursor = left.map .ok ∧ (s'.done = true → left = []) ∧
        s.nextPage n =
          (.ok (if taken = [] then none else some (taken.map (docToRow (V := V) s.keys))), s') := by
  have hfirst : s.first.toList.length ≤ 1 := by cases s.first <;> simp
  by_cases hend : s.done = true
  · have hnil := hd hend
    subst hnil
    refine ⟨s.first.toList, [], rfl, by omega, fun _ => rfl, { s with first := none },
      rfl, rfl, hc, fun _ => rfl, ?_⟩
    obtain ⟨cursor, keys, columns, first, done, total⟩ := s
    cases first <;> simp_all [nextPage]
  · have hnot : s.done = false := Bool.eq_false_iff.mpr hend
    refine ⟨s.first.toList ++ docs.take (n - s.first.toList.length),
      docs.drop (n - s.first.toList.length), ?_, ?_, ?_,
      { s with
        first := none
        cursor := (docs.drop (n - s.first.toList.length)).map .ok
        done := decide (s.first.toList.length + docs.length < n) },
      rfl, rfl, rfl, ?_, ?_⟩
    · rw [List.append_assoc, List.take_append_drop]
    · rw [List.length_append, List.length_take]
      omega
    · intro hnil
      obtain ⟨hf, ht⟩ := List.append_eq_nil_iff.mp hnil
      rw [hf, List.length_nil, Nat.sub_zero] at ht ⊢
      have hlen := congrArg List.length ht
      rw [List.length_take, List.length_nil] at hlen
      exact List.drop_eq_nil_of_le (by omega)
    · intro hlt
      exact List.drop_eq_nil_of_le (by have := of_decide_eq_true hlt; omega)
    · simp only [nextPage, hnot, Bool.false_and, Bool.false_eq_true, if_false, hc, drain_ok,
        List.length_map, ← List.map_append, List.isEmpty_map]
      congr 2
      cases s.first.toList ++ docs.take (n - s.first.toList.length) <;> simp

end MongoCursorStream

namespace ResultStream

theorem rest_cursor (s : MongoCursorStream B) (docs : List (Document B))
    (hc : s.cursor = docs.map .ok) :
    rest (V := V) (.cursor s) = (s.first.toList ++ docs).map (docToRow s.keys) := by
  have hok : ∀ ds : List (Document B),
      (ds.map (Except.ok (ε := String))).filterMap (·.toOption) = ds := by
    intro ds
    induction ds with
    | nil => rfl
    | cons d ds ih => exact congrArg (d :: ·) ih
  simp only [rest, hc, hok]

/-- What a pull hands out is the first part of what is left, and something if anything is. -/
theorem pull_spec (s : ResultStream V B) (n : ℕ) (hs : s.Sound) (hn : 0 < n) :
    (s.pull n).2.Sound ∧ ∃ taken, s.rest = taken ++ (s.pull n).2.rest ∧ taken.length ≤ n ∧
      (taken = [] → (s.pull n).2.rest = []) ∧
      (s.pull n).1 = if taken = [] then none else some taken := by
  cases s with
  | buffered s =>
    have hpos : s.pos ≤ s.rows.length := hs
    by_cases hend : s.rows.length ≤ s.pos
    · have hnil : s.rows.drop s.pos = [] := List.drop_eq_nil_of_le hend
      simp only [pull, hend, if_true]
      exact ⟨hs, [], rfl, Nat.zero_le n, fun _ => hnil, rfl⟩
    · have hlen : ((s.rows.take (min (s.pos + n) s.rows.length)).drop s.pos).length =
          min (s.pos + n) s.rows.length - s.pos := by
        rw [List.length_drop, List.length_take]
        omega
      have hne : (s.rows.take (min (s.pos + n) s.rows.length)).drop s.pos ≠ [] := by
        intro hnil
        rw [hnil, List.length_nil] at hlen
        omega
      simp only [pull, hend, if_false]
      refine ⟨Nat.min_le_right _ _, _, ?_, ?_, fun hnil => absurd hnil hne, ?_⟩
      · have hcut : s.rows.drop s.pos =
            (s.rows.take (min (s.pos + n) s.rows.length) ++
              s.rows.drop (min (s.pos + n) s.rows.length)).drop s.pos := by
          rw [List.take_append_drop]
        simp only [rest]
        rw [hcut, List.drop_append_of_le_length (by rw [List.length_take]; omega)]
      · rw [hlen]
        omega
      · rw [if_neg hne]
  | cursor s =>
    obtain ⟨docs, hc, hd⟩ := hs
    obtain ⟨taken, left, hsplit, hlen, hnil, s', hf, hk, hc', hd', hpage⟩ :=
      s.nextPage_ok (V := V) docs n hc hd hn
    simp only [pull, hpage]
    refine ⟨⟨left, hc', hd'⟩, taken.map (docToRow s.keys), ?_, ?_, ?_, ?_⟩
    · rw [rest_cursor s docs hc, rest_cursor s' left hc', hsplit, hf, hk, List.map_append]
      rfl
    · rwa [List.length_map]
    · intro h
      rw [rest_cursor s' left hc', hf, hnil (List.map_eq_nil_iff.mp h)]
      rfl
    · simp only [List.map_eq_nil_iff]

/-- A result stream is a source of rows. -/
def source : Lib.Source (ResultStream V B) (List V) where
  Inv := Sound
  pull := pull
  rest := rest
  pull_inv s n hs hn := (pull_spec s n hs hn).1
  pull_some s n xs hs hn hx := by
    obtain ⟨-, taken, hrest, hlen, -, hpull⟩ := pull_spec s n hs hn
    rw [hx] at hpull
    split at hpull
    · cases hpull
    · cases hpull
      exact ⟨‹_›, hlen, hrest⟩
  pull_none s n hs hn hx := by
    obtain ⟨-, taken, hrest, -, hnil, hpull⟩ := pull_spec s n hs hn
    rw [hx] at hpull
    split at hpull
    · next ht => exact ⟨by rw [hrest, hnil ht, ht]; rfl, hnil ht⟩
    · cases hpull

/-- The rows a buffered stream holds are the whole result, from its first page to its last. -/
def Whole (R : List (List V)) : ResultStream V B → Prop
  | .buffered s => s.rows = R
  | .cursor _ => True

theorem pull_whole {R : List (List V)} {s : ResultStream V B} (n : ℕ) (h : s.Whole R) :
    (s.pull n).2.Whole R := by
  cases s with
  | buffered s =>
    simp only [pull]
    split <;> exact h
  | cursor s =>
    simp only [pull]
    split <;> trivial

/-- Where no sum overflows, the code pulls what unbounded arithmetic pulls. -/
theorem nextPage_eq_pull (bld : Build) {s : ResultStream V B} {n : ℕ} (hs : s.Sound) (hn : 0 < n)
    (hfit : ∀ b, s = .buffered b → b.pos + n < usizeSize) :
    s.nextPage bld n = (.ok (s.pull n).1, (s.pull n).2) := by
  cases s with
  | buffered s =>
    have hpos : s.pos ≤ s.rows.length := hs
    simp only [nextPage, BufferedStream.nextPage, pull]
    split
    · rfl
    · rw [bld.add_small (hfit s rfl)]
      simp only
      rw [slice_of_le (by omega) (Nat.min_le_right _ _)]
  | cursor s =>
    obtain ⟨docs, hc, hd⟩ := hs
    obtain ⟨taken, left, -, -, -, s', -, -, -, -, hpage⟩ := s.nextPage_ok (V := V) docs n hc hd hn
    simp only [nextPage, pull, hpage]

/-- A stream as `execute` returns it, and the whole result it stands for. -/
inductive Opened : ResultStream V B → List (List V) → Prop
  | buffered (columns : List Column) (rows : List (List V)) (affected : Option ℕ) :
      Opened (.buffered (BufferedStream.new columns rows affected)) rows
  | cursor (docs : List (Document B)) (total : Option ℕ) (s : MongoCursorStream B) :
      MongoCursorStream.openCursor (docs.map .ok) total = .ok s →
        Opened (.cursor s) (docs.map (docToRow s.keys))

theorem Opened.whole {R : List (List V)} {s : ResultStream V B} (h : Opened s R) : s.Whole R := by
  cases h with
  | buffered => rfl
  | cursor => trivial

/-- An empty buffer before a stream just opened serves the whole result. -/
theorem Opened.serves {R : List (List V)} {s : ResultStream V B} (h : Opened s R) :
    source.Serves R ⟨[], false, s⟩ := by
  cases h with
  | buffered columns rows affected =>
    exact ⟨Nat.zero_le _, rfl, fun hd => absurd hd Bool.false_ne_true⟩
  | cursor docs total s hopen =>
    cases docs with
    | nil =>
      cases hopen
      exact ⟨⟨[], rfl, fun _ => rfl⟩, rfl, fun hd => absurd hd Bool.false_ne_true⟩
    | cons doc docs =>
      cases hopen
      refine ⟨⟨docs, rfl, fun hd => absurd hd Bool.false_ne_true⟩, ?_,
        fun hd => absurd hd Bool.false_ne_true⟩
      exact rest_cursor _ docs rfl

end ResultStream

/-! ### The pull loop fills the buffer -/

namespace Call
variable {R : List (List V)} {c : Call V B} {need : ℕ} {bld : Build}
  {b : Lib.Buffer (ResultStream V B) (List V)}

def load (c : Call V B) (b : Lib.Buffer (ResultStream V B) (List V)) : Call V B :=
  { c with buffer := b.items, exhausted := b.done, stream := some b.src }

/-- The pull loop's buffer and stream make up the result `R`. -/
structure Paged (R : List (List V)) (b : Lib.Buffer (ResultStream V B) (List V)) : Prop where
  serves : ResultStream.source.Serves R b
  whole : b.src.Whole R

/-- A buffered stream stands where the call's buffer ends. -/
theorem Paged.pos_eq (h : Paged R b) {s : BufferedStream V} (hs : b.src = .buffered s) :
    s.pos = b.items.length := by
  have hpos : s.pos ≤ s.rows.length := by
    have hi := h.serves.inv
    rw [hs] at hi
    exact hi
  have hrows : s.rows = R := by
    have hw := h.whole
    rw [hs] at hw
    exact hw
  have hlen := congrArg List.length h.serves.whole
  rw [hs, List.length_append, ← hrows] at hlen
  have hrest : (ResultStream.source.rest (.buffered (B := B) s)).length = s.rows.length - s.pos :=
    List.length_drop ..
  omega

theorem Paged.refill (h : Paged R b) (hn : b.filled need = false) :
    Paged R (ResultStream.source.refill need b) := by
  refine ⟨(Lib.Source.refill_serves h.serves hn).1, ?_⟩
  have hw := ResultStream.pull_whole (need - b.items.length) h.whole
  cases hp : b.src.pull (need - b.items.length) with
  | mk o s =>
    rw [hp] at hw
    cases o <;> simpa only [Lib.Source.refill, ResultStream.source, hp] using hw

theorem Paged.refills (h : Paged R b) (need k : ℕ) :
    Paged R (ResultStream.source.refills need k b) := by
  induction k generalizing b with
  | zero => exact h
  | succ k ih =>
    simp only [Lib.Source.refills]
    split
    · exact h
    · next hn => exact ih (h.refill (Bool.eq_false_iff.mpr hn))

/-- One turn of the loop is one refill. -/
theorem pulls_succ (k : ℕ) (h : Paged R b) (hneed : need < usizeSize) :
    (c.load b).pulls bld need (k + 1) =
      if b.filled need then (.left, c.load b)
      else (c.load (ResultStream.source.refill need b)).pulls bld need k := by
  by_cases hf : b.filled need = true
  · rw [if_pos hf]
    exact if_pos hf
  · have hn := Bool.eq_false_iff.mpr hf
    obtain ⟨-, hlt⟩ := Lib.Source.not_filled hn
    have hpull := ResultStream.nextPage_eq_pull (n := need - b.items.length) bld h.serves.inv
      (by omega) (fun s hs => by rw [h.pos_eq hs]; omega)
    rw [if_neg hf]
    have hcond : ((c.load b).exhausted || decide (need ≤ (c.load b).buffer.length)) = false := hn
    simp only [pulls, hcond, Bool.false_eq_true, if_false]
    simp only [load, hpull]
    cases hp : b.src.pull (need - b.items.length) with
    | mk o s => cases o <;> simp only [Lib.Source.refill, ResultStream.source, hp]

theorem pulls_load (k : ℕ) (h : Paged R b) (hneed : need < usizeSize) :
    ((c.load b).pulls bld need k).2 = c.load (ResultStream.source.refills need k b) := by
  induction k generalizing b with
  | zero => rfl
  | succ k ih =>
    rw [pulls_succ k h hneed]
    simp only [Lib.Source.refills]
    split
    · rfl
    · next hn => exact ih (h.refill (Bool.eq_false_iff.mpr hn))

/-- The loop is left at the first look at its condition after the buffer is filled. -/
theorem pulls_left (k : ℕ) (h : Paged R b) (hneed : need < usizeSize)
    (hf : (ResultStream.source.refills need k b).filled need = true) {j : ℕ} (hj : k < j) :
    (c.load b).pulls bld need j = (.left, c.load (ResultStream.source.refills need k b)) := by
  obtain ⟨j, rfl⟩ : ∃ i, j = i + 1 := ⟨j - 1, by omega⟩
  induction k generalizing b j with
  | zero =>
    rw [pulls_succ j h hneed]
    exact if_pos hf
  | succ k ih =>
    rw [pulls_succ j h hneed]
    simp only [Lib.Source.refills] at hf ⊢
    split
    · rfl
    · next hn =>
      rw [if_neg hn] at hf
      obtain ⟨j, rfl⟩ : ∃ i, j = i + 1 := ⟨j - 1, by omega⟩
      exact ih (h.refill (Bool.eq_false_iff.mpr hn)) hf j (by omega)

/-! ### Pages are windows -/

/-- `R[min(from, |R|) .. min(need, |R|)]`. -/
def window (R : List (List V)) (from_ need : ℕ) : List (List V) :=
  (R.take (min need R.length)).drop (min from_ R.length)

/-- A page answer that shows its window of `R`. -/
def Shows (R : List (List V)) (from_ n : ℕ) (answer : Outcome (PageAnswer V)) : Prop :=
  ∃ p, answer = .ok (.ready p) ∧ p.rows = window R from_ (from_ + n) ∧
    p.from_ = min from_ R.length

theorem reply_shows (from_ n : ℕ) (h : Paged R b) (hf : b.filled (from_ + n) = true) :
    Shows R from_ n ((c.load b).reply from_ (from_ + n)) := by
  obtain ⟨hstart, hrows⟩ := h.serves.window hf from_ (Nat.le_add_right ..)
  have hslice : slice b.items (min from_ b.items.length) (min (from_ + n) b.items.length) =
      some (window R from_ (from_ + n)) := by
    rw [slice_of_le (by omega) (Nat.min_le_right ..), hrows]
    rfl
  simp only [reply, load, hslice]
  exact ⟨_, rfl, rfl, hstart⟩

/-- A page of a finished call: enough looks at the loop's condition, and its answer. -/
theorem page_shows (bld : Build) (from_ n : ℕ) (hc : c.status = .done) (h : Paged R b)
    (hfit : from_ + n < usizeSize) :
    ∃ answer b', (∀ fuel, R.length + 2 ≤ fuel →
        (c.load b).page bld fuel from_ n = some (answer, c.load b')) ∧
      Shows R from_ n answer ∧ Paged R b' := by
  have hf := Lib.Source.refills_filled (from_ + n) (R.length + 1) h.serves h.serves.left_le
  have hb := h.refills (from_ + n) (R.length + 1)
  refine ⟨_, _, fun fuel hfuel => ?_, reply_shows (c := c) from_ n hb hf, hb⟩
  have hstatus : (c.load b).status = .done := hc
  simp only [page, hstatus, bld.add_small hfit, pulls_left _ h hfit hf (show _ < fuel by omega)]

/-- Page requests answered one after the other. -/
def pages (bld : Build) (fuel : ℕ) :
    List (ℕ × ℕ) → Call V B → Option (List (Outcome (PageAnswer V)) × Call V B)
  | [], c => some ([], c)
  | r :: rs, c =>
    (c.page bld fuel r.1 r.2).bind fun (answer, c) =>
      (pages bld fuel rs c).map fun (answers, c) => (answer :: answers, c)

theorem pages_show (bld : Build) (reqs : List (ℕ × ℕ)) (hc : c.status = .done) (h : Paged R b)
    (hfit : ∀ r ∈ reqs, r.1 + r.2 < usizeSize) :
    ∃ answers b', (∀ fuel, R.length + 2 ≤ fuel →
        (c.load b).pages bld fuel reqs = some (answers, c.load b')) ∧
      List.Forall₂ (fun r => Shows R r.1 r.2) reqs answers ∧ Paged R b' := by
  induction reqs generalizing b with
  | nil => exact ⟨[], b, fun _ _ => rfl, .nil, h⟩
  | cons r rs ih =>
    obtain ⟨answer, b₁, hpage, hshow, h₁⟩ :=
      page_shows bld r.1 r.2 hc h (hfit r List.mem_cons_self)
    obtain ⟨answers, b₂, hpages, hshows, h₂⟩ :=
      ih h₁ (fun r' hr => hfit r' (List.mem_cons_of_mem _ hr))
    refine ⟨answer :: answers, b₂, fun fuel hfuel => ?_, .cons hshow hshows, h₂⟩
    simp only [pages, hpage fuel hfuel, hpages fuel hfuel, Option.bind_some, Option.map_some]

/-- Any pages, in any order: every loop ends, every answer is its window of the result, and
the buffer is a prefix of the result before, during and after every loop. -/
theorem pages_serve_windows (bld : Build) (handle : Option CancelHandle) (ms : ℕ)
    (stream : ResultStream V B) (R : List (List V)) (reqs : List (ℕ × ℕ))
    (hopen : ResultStream.Opened stream R) (hfit : ∀ r ∈ reqs, r.1 + r.2 < usizeSize) :
    ∃ answers last,
      (∀ fuel, R.length + 2 ≤ fuel →
        (({ Call.new with cancel := handle } : Call V B).finish ms (.ok stream)).1.pages bld fuel
          reqs = some (answers, last)) ∧
      List.Forall₂ (fun r => Shows R r.1 r.2) reqs answers ∧
      ∀ from_ n k, from_ + n < usizeSize →
        last.buffer <+: (last.pulls bld (from_ + n) k).2.buffer ∧
          (last.pulls bld (from_ + n) k).2.buffer <+: R := by
  have h : Paged R ⟨[], false, stream⟩ := ⟨hopen.serves, hopen.whole⟩
  obtain ⟨answers, b, hpages, hshows, hb⟩ := pages_show
    (c := (({ Call.new with cancel := handle } : Call V B).finish ms (.ok stream)).1)
    bld reqs rfl h hfit
  refine ⟨answers, _, hpages, hshows, fun from_ n k hfit' => ?_⟩
  rw [pulls_load k hb hfit']
  exact ⟨Lib.Source.refills_prefix k hb.serves, (hb.refills _ k).serves.items_prefix⟩

/-- Three documents: a page past the end, one back at the start, one across the middle. -/
theorem pages_serve_windows_documents :
    ∃ answers last,
      (∀ fuel, 5 ≤ fuel →
        (({ Call.new with cancel := none } : Call ℕ ℕ).finish 7
          (.ok (.cursor ⟨[.ok [("a", 5)], .ok [("_id", 6)]], ["_id"], columnsFor ["_id"],
            some [("_id", 4)], false, none⟩))).1.pages .checked fuel [(2, 9), (0, 1), (1, 1)] =
              some (answers, last)) ∧
      List.Forall₂ (fun r => Shows [[4, 1], [0, 1], [6, 1]] r.1 r.2)
        [(2, 9), (0, 1), (1, 1)] answers ∧
      ∀ from_ n k, from_ + n < usizeSize →
        last.buffer <+: (last.pulls .checked (from_ + n) k).2.buffer ∧
          (last.pulls .checked (from_ + n) k).2.buffer <+: [[4, 1], [0, 1], [6, 1]] :=
  pages_serve_windows .checked none 7 _ _ _
    (.cursor [[("_id", 4)], [("a", 5)], [("_id", 6)]] none _ rfl) (by decide)

end Call
end LvimDb.Engine
