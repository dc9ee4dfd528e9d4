import LvimDb.Lib.Machine
import LvimDb.Engine.Paging
import LvimDb.Engine.Range

/-!
# Documents of a batch that breaks

`MongoCursorStream::next_page` collects a batch in a vector of its own and returns early on
the cursor's error (mongodb.rs:521-528), and `query.page` appends whole batches only. The
documents pulled before the error are then in neither.
-/

namespace LvimDb.Engine
variable {V B : Type} [BsonCells V B]

namespace MongoCursorStream

/-- What the stream is still to read, the document it opened with included. -/
def ahead (s : MongoCursorStream B) : List (Except String (Document B)) :=
  s.first.toList.map .ok ++ s.cursor

/-- A batch of `n` meets an error, and not at its first document. -/
def Breaks (s : MongoCursorStream B) (n : ℕ) : Prop :=
  ∃ (docs : List (Document B)) (e : String) (rest : List (Except String (Document B))),
    s.ahead = docs.map .ok ++ .error e :: rest ∧ docs ≠ [] ∧ docs.length < n

/-- Either the batch is filled or the cursor at its end, or an error ends it. -/
theorem drain_cases (keys : List String) (n : ℕ) (cursor : List (Except String (Document B)))
    (rows : List (List V)) (hle : rows.length ≤ n) :
    (∃ (docs : List (Document B)) (rest : List (Except String (Document B))) (ended : Bool),
        cursor = docs.map .ok ++ rest ∧
        (rows.length + docs.length = n ∨ rest = []) ∧ (ended = true → rest = []) ∧
        drain keys n cursor rows = (.ok (rows ++ docs.map (docToRow keys)), rest, ended)) ∨
      ∃ (docs : List (Document B)) (e : String) (rest : List (Except String (Document B))),
        cursor = docs.map .ok ++ .error e :: rest ∧ rows.length + docs.length < n ∧
        drain keys n cursor rows = (.err e, rest, false) := by
  induction cursor generalizing rows with
  | nil =>
    refine .inl ⟨[], [], decide (rows.length < n), rfl, .inr rfl, fun _ => rfl, ?_⟩
    simp only [drain, List.map_nil, List.append_nil]
  | cons item cursor ih =>
    by_cases hlt : rows.length < n
    · cases item with
      | error e => exact .inr ⟨[], e, cursor, rfl, hlt, by simp only [drain, if_pos hlt]⟩
      | ok doc =>
        have hlen : (rows ++ [docToRow (V := V) keys doc]).length = rows.length + 1 := by
          rw [List.length_append, List.length_singleton]
        have hnext := ih (rows ++ [docToRow keys doc]) (by omega)
        rw [hlen] at hnext
        simp only [drain, if_pos hlt]
        rcases hnext with ⟨docs, rest, ended, hc, hfull, hend, hdrain⟩ | ⟨docs, e, rest, hc, hn, hdrain⟩
        · refine .inl ⟨doc :: docs, rest, ended, by rw [hc]; rfl, ?_, hend, ?_⟩
          · rw [List.length_cons]
            exact hfull.imp_left fun h => by omega
          · rw [hdrain, List.append_assoc]
            rfl
        · refine .inr ⟨doc :: docs, e, rest, by rw [hc]; rfl, ?_, hdrain⟩
          rw [List.length_cons]
          omega
    · refine .inl ⟨[], item :: cursor, false, rfl, .inl ?_,
        fun hd => absurd hd Bool.false_ne_true, ?_⟩
      · rw [List.length_nil]
        omega
      · cases item <;> simp only [drain, if_neg hlt, List.map_nil, List.append_nil]

/-- What one batch takes off the stream. -/
inductive Batch (s : MongoCursorStream B) (n : ℕ) (V : Type) [BsonCells V B] : Prop
  | taken (docs : List (Document B)) (s' : MongoCursorStream B) :
      s.ahead = docs.map .ok ++ s'.ahead → (docs.length = n ∨ s'.ahead = []) →
      s'.keys = s.keys → (s'.done = true → s'.cursor = []) →
      s.nextPage n =
        (.ok (if docs = [] then none else some (docs.map (docToRow (V := V) s.keys))), s') →
      Batch s n V
  | broken (docs : List (Document B)) (e : String) (s' : MongoCursorStream B) :
      s.ahead = docs.map .ok ++ .error e :: s'.ahead → docs.length < n → s'.keys = s.keys →
      (s'.done = true → s'.cursor = []) → s.nextPage (V := V) n = (.err e, s') → Batch s n V

theorem batch (s : MongoCursorStream B) {n : ℕ} (hn : 0 < n) (hdone : s.done = true → s.cursor = []) :
    Batch s n V := by
  by_cases hend : s.done = true
  · have hnil := hdone hend
    obtain ⟨cursor, keys, columns, first, done, total⟩ := s
    simp only at hend hnil
    subst hend hnil
    cases first with
    | none =>
      exact .taken [] _ rfl (.inr rfl) rfl (fun _ => rfl) (by simp [nextPage])
    | some doc =>
      exact .taken [doc] ⟨[], keys, columns, none, true, total⟩ rfl (.inr rfl) rfl (fun _ => rfl)
        (by simp [nextPage])
  · have hone : s.first.toList.length ≤ 1 := by cases s.first <;> simp
    have hrows : (s.first.toList.map (docToRow (V := V) s.keys)).length = s.first.toList.length :=
      List.length_map _
    have hover : (s.done && s.first.isNone) = false := by
      rw [Bool.eq_false_iff.mpr hend]
      rfl
    rcases drain_cases (V := V) s.keys n s.cursor (s.first.toList.map (docToRow s.keys))
      (by omega) with ⟨docs, rest, ended, hc, hfull, hended, hdrain⟩ | ⟨docs, e, rest, hc, hlt, hdrain⟩
    · refine .taken (s.first.toList ++ docs) { s with cursor := rest, first := none, done := ended }
        ?_ ?_ rfl hended ?_
      · simp only [ahead, hc, List.map_append, List.append_assoc, Option.toList_none, List.map_nil,
          List.nil_append]
      · rw [List.length_append]
        exact hfull.imp (fun h => by omega) id
      · simp only [nextPage, hover, Bool.false_eq_true, if_false, if_neg hend, hdrain]
        rw [← List.map_append]
        congr 2
        cases s.first.toList ++ docs <;> simp
    · refine .broken (s.first.toList ++ docs) e { s with cursor := rest, first := none, done := false }
        ?_ ?_ rfl (fun hd => absurd hd Bool.false_ne_true) ?_
      · simp only [ahead, hc, List.map_append, List.append_assoc, Option.toList_none, List.map_nil,
          List.nil_append]
      · rw [List.length_append]
        omega
      · simp only [nextPage, hover, Bool.false_eq_true, if_false, if_neg hend, hdrain]

omit [BsonCells V B] in
/-- A batch that is filled, or comes to the end, has met no error. -/
theorem not_breaks {s : MongoCursorStream B} {n : ℕ} {docs : List (Document B)}
    {rest : List (Except String (Document B))} (h : s.ahead = docs.map .ok ++ rest)
    (hfull : docs.length = n ∨ rest = []) : ¬ s.Breaks n := by
  rintro ⟨docs', e, rest', h', -, hlt⟩
  rw [h] at h'
  have hget : (docs.map .ok ++ rest)[docs'.length]? = some (.error e) := by
    rw [h', List.getElem?_append_right (by rw [List.length_map]), List.length_map, Nat.sub_self,
      List.getElem?_cons_zero]
  have hok : docs'.length < docs.length := by
    rcases hfull with hlen | hnil
    · omega
    · have hlen := congrArg List.length h'
      rw [hnil, List.append_nil, List.length_map, List.length_append, List.length_map,
        List.length_cons] at hlen
      omega
  rw [List.getElem?_append_left (by rw [List.length_map]; exact hok), List.getElem?_map,
    List.getElem?_eq_getElem hok] at hget
  cases hget

omit [BsonCells V B] in
theorem ahead_nil_not_breaks {s : MongoCursorStream B} (h : s.ahead = []) (n : ℕ) :
    ¬ s.Breaks n := by
  have hnone : s.ahead = ([] : List (Document B)).map .ok ++ [] := h
  exact not_breaks hnone (.inr rfl)

end MongoCursorStream

namespace Call
variable {R : List (List V)} {c c' : Call V B} {bld : Build} {need : ℕ}

/-- The rows a call has not buffered: what its stream holds or will be given, in order. -/
def ahead (c : Call V B) : List (List V) := (c.stream.map ResultStream.rest).getD []

/-- No row is lost: what is buffered and what is to come are the whole result, and while some
is to come the next request is not told that there is none. -/
structure Complete (R : List (List V)) (c : Call V B) : Prop where
  whole : c.buffer ++ c.ahead = R
  spent : c.exhausted = true → c.ahead = []

/-- A pull up to `need` rows meets an error after some documents of its batch. -/
def Drops (need : ℕ) (c : Call V B) : Prop :=
  c.exhausted = false ∧
    ∃ s, c.stream = some (.cursor s) ∧ s.Breaks (need - c.buffer.length)

/-- The request's first batch drops documents. -/
def Loses (bld : Build) (c : Call V B) (r : ℕ × ℕ) : Prop :=
  ∃ need, bld.add r.1 r.2 = some need ∧ c.Drops need

/-- A finished call that pages a cursor. -/
structure Reads (c : Call V B) : Prop where
  done : c.status = .done
  fed : c.Fed
  spent : c.exhausted = true → c.ahead = []
  cursor : ∃ s, c.stream = some (.cursor s) ∧ (s.done = true → s.cursor = [])

omit [BsonCells V B] in
theorem filterMap_ok (docs : List (Document B)) (rest : List (Except String (Document B))) :
    (docs.map (Except.ok (ε := String)) ++ rest).filterMap (·.toOption) =
      docs ++ rest.filterMap (·.toOption) := by
  induction docs with
  | nil => rfl
  | cons d docs ih => exact congrArg (d :: ·) ih

theorem rest_eq (s : MongoCursorStream B) :
    ResultStream.rest (V := V) (.cursor s) =
      (s.ahead.filterMap (·.toOption)).map (docToRow s.keys) := by
  rw [MongoCursorStream.ahead, filterMap_ok]
  rfl

theorem ahead_cursor {s : MongoCursorStream B} (hs : c.stream = some (.cursor s)) :
    c.ahead = (s.ahead.filterMap (·.toOption)).map (docToRow s.keys) := by
  rw [ahead, hs, ← rest_eq]
  rfl

omit [BsonCells V B] in
/-- Where nothing is wanted any more, nothing is dropped. -/
theorem not_drops_filled (h : (c.exhausted || decide (need ≤ c.buffer.length)) = true) :
    ¬ c.Drops need := by
  rintro ⟨hex, s, -, docs, e, rest, -, -, hlt⟩
  rw [hex, Bool.false_or, decide_eq_true_eq] at h
  omega

/-- The loop keeps every row unless its first batch drops some. -/
theorem pulls_keep (k : ℕ) {s : MongoCursorStream B} (hs : c.stream = some (.cursor s))
    (hd : s.done = true → s.cursor = []) (hsp : c.exhausted = true → c.ahead = [])
    (hend : (c.pulls bld need k).1 ≠ .turning) :
    ((c.pulls bld need k).2.buffer ++ (c.pulls bld need k).2.ahead = c.buffer ++ c.ahead ↔
        ¬ c.Drops need) ∧
      ((c.pulls bld need k).2.exhausted = true → (c.pulls bld need k).2.ahead = []) ∧
      ∃ s', (c.pulls bld need k).2.stream = some (.cursor s') ∧ (s'.done = true → s'.cursor = []) := by
  induction k generalizing c s with
  | zero => exact absurd rfl hend
  | succ k ih =>
    by_cases hfilled : (c.exhausted || decide (need ≤ c.buffer.length)) = true
    · simp only [pulls, if_pos hfilled]
      exact ⟨⟨fun _ => not_drops_filled hfilled, fun _ => trivial⟩, hsp, s, hs, hd⟩
    · have hnot : c.exhausted = false ∧ c.buffer.length < need := by simpa using hfilled
      obtain ⟨hex, hlt⟩ := hnot
      have hrows := ahead_cursor hs
      simp only [pulls, if_neg hfilled, hs, ResultStream.nextPage] at hend ⊢
      cases s.batch (V := V) (n := need - c.buffer.length) (by omega) hd with
      | taken docs s' hahead hfull hkeys hd' hpage =>
        have hdrops : ¬ c.Drops need := by
          rintro ⟨-, s₁, hs₁, hbreaks⟩
          rw [hs] at hs₁
          cases hs₁
          exact MongoCursorStream.not_breaks hahead hfull hbreaks
        have hrest : c.ahead = docs.map (docToRow s.keys) ++
            (s'.ahead.filterMap (·.toOption)).map (docToRow s'.keys) := by
          rw [hrows, hahead, filterMap_ok, List.map_append, hkeys]
        by_cases hnil : docs = []
        · -- the cursor is at its end
          have hover : s'.ahead = [] := hfull.resolve_left (by rw [hnil, List.length_nil]; omega)
          have hahead' := ahead_cursor
            (c := { c with stream := some (.cursor s'), exhausted := true }) rfl
          rw [hnil, hover] at hrest
          rw [hover] at hahead'
          simp only [hpage, if_pos hnil] at hend ⊢
          obtain ⟨hiff, hrem⟩ := ih rfl hd' (fun _ => hahead') hend
          refine ⟨?_, hrem⟩
          rw [hahead'] at hiff
          rw [hrest]
          exact hiff.trans ⟨fun _ => hdrops, fun _ => not_drops_filled rfl⟩
        · have hahead' := ahead_cursor (c := { c with
            stream := some (.cursor s'), buffer := c.buffer ++ docs.map (docToRow s.keys) }) rfl
          simp only [hpage, if_neg hnil] at hend ⊢
          obtain ⟨hiff, hrem⟩ := ih (c := { c with
            stream := some (.cursor s'), buffer := c.buffer ++ docs.map (docToRow s.keys) })
            rfl hd' (fun h => absurd (hex.symm.trans h) Bool.false_ne_true) hend
          refine ⟨?_, hrem⟩
          rw [hahead', List.append_assoc, ← hrest] at hiff
          refine hiff.trans ⟨fun _ => hdrops, fun _ => ?_⟩
          -- a second batch wants nothing, or finds the cursor at its end
          rintro ⟨-, s₁, hs₁, hbreaks⟩
          cases hs₁
          rcases hfull with hlen | hover
          · obtain ⟨docs', e, rest, -, -, hless⟩ := hbreaks
            rw [List.length_append, List.length_map] at hless
            omega
          · exact MongoCursorStream.ahead_nil_not_breaks hover _ hbreaks
      | broken docs e s' hahead hless hkeys hd' hpage =>
        simp only [hpage]
        have hrest : c.ahead = docs.map (docToRow s.keys) ++
            (s'.ahead.filterMap (·.toOption)).map (docToRow s'.keys) := by
          rw [hrows, hahead, filterMap_ok, List.map_append, hkeys]
          rfl
        have hrest' := ahead_cursor (c := { c with stream := some (.cursor s') }) rfl
        refine ⟨?_, fun h => absurd (hex.symm.trans h) Bool.false_ne_true, s', rfl, hd'⟩
        rw [hrest', hrest]
        constructor
        · rintro heq ⟨-, s₁, hs₁, docs', e', rest', hahead', hne, -⟩
          rw [hs] at hs₁
          cases hs₁
          have hlen := congrArg List.length (List.append_cancel_left heq)
          simp only [List.length_append, List.length_map] at hlen
          have hzero : docs = [] := List.length_eq_zero_iff.mp (by omega)
          rw [hzero, hahead'] at hahead
          obtain ⟨d, ds, hds⟩ := List.exists_cons_of_ne_nil hne
          rw [hds] at hahead
          cases hahead
        · intro hdrops
          have hzero : docs = [] := by
            by_contra hne
            exact hdrops ⟨hex, s, hs, docs, e, s'.ahead, hahead, hne, hless⟩
          rw [hzero]
          rfl

/-! ### Any requests -/

/-- Page requests of one call, the loop of each watched for as long as it turns. -/
def pager (bld : Build) : Lib.Machine (Call V B) (ℕ × ℕ) where
  init := new
  step c r := (c.page bld c.looks r.1 r.2).map Prod.snd

theorem Reads.page (bld : Build) (h : c.Reads) (r : ℕ × ℕ) :
    ∃ c', (pager bld).step c r = some c' := by
  obtain ⟨x, hx⟩ := page_answers bld h.fed r.1 r.2
  exact ⟨x.2, by simp only [pager, hx, Option.map_some]⟩

/-- A request leaves the call as it was, or with the state the loop ends in. -/
theorem page_step {r : ℕ × ℕ} (h : c.Reads) (hst : (pager bld).step c r = some c') :
    c'.Fed ∧ (bld.add r.1 r.2 = none ∧ c' = c ∨ ∃ need, bld.add r.1 r.2 = some need ∧
      (c.pulls bld need c.looks).1 ≠ .turning ∧ c' = (c.pulls bld need c.looks).2) := by
  obtain ⟨⟨answer, c₁⟩, hp, rfl⟩ := Option.map_eq_some_iff.mp hst
  refine ⟨page_fed h.fed hp, ?_⟩
  simp only [page, h.done] at hp
  cases hadd : bld.add r.1 r.2 with
  | none =>
    rw [hadd] at hp
    cases hp
    exact .inl ⟨rfl, rfl⟩
  | some need =>
    rw [hadd] at hp
    refine .inr ⟨need, rfl, ?_⟩
    simp only at hp
    split at hp
    · cases hp
    · next hl =>
      cases hp
      rw [hl]
      exact ⟨(by rintro ⟨⟩), rfl⟩
    · next hl =>
      cases hp
      rw [hl]
      exact ⟨(by rintro ⟨⟩), rfl⟩
    · next hl =>
      cases hp
      rw [hl]
      exact ⟨(by rintro ⟨⟩), rfl⟩

theorem pulls_status (k : ℕ) (c : Call V B) : (c.pulls bld need k).2.status = c.status := by
  induction k generalizing c with
  | zero => rfl
  | succ k ih =>
    simp only [pulls]
    split
    · rfl
    · split
      · rfl
      · split
        · rfl
        · rfl
        · rw [ih]
        · rw [ih]

theorem Reads.step {r : ℕ × ℕ} (h : c.Reads) (hst : (pager bld).step c r = some c') : c'.Reads := by
  obtain ⟨s, hs, hd⟩ := h.cursor
  obtain ⟨hfed, ⟨-, rfl⟩ | ⟨need, -, hend, rfl⟩⟩ := page_step h hst
  · exact h
  · obtain ⟨-, hsp, hcur⟩ := pulls_keep c.looks hs hd h.spent hend
    exact ⟨(pulls_status _ _).trans h.done, hfed, hsp, hcur⟩

/-- One request keeps every row exactly when it loses none. -/
theorem Reads.complete_iff {r : ℕ × ℕ} (h : c.Reads) (hc : Complete R c)
    (hst : (pager bld).step c r = some c') : Complete R c' ↔ ¬ c.Loses bld r := by
  obtain ⟨s, hs, hd⟩ := h.cursor
  obtain ⟨-, ⟨hadd, rfl⟩ | ⟨need, hadd, hend, rfl⟩⟩ := page_step h hst
  · refine ⟨fun _ => ?_, fun _ => hc⟩
    rintro ⟨need, hneed, -⟩
    rw [hadd] at hneed
    cases hneed
  · have hloses : c.Loses bld r ↔ c.Drops need := by
      simp only [Loses, hadd, Option.some.injEq, exists_eq_left']
    obtain ⟨hiff, hsp, -⟩ := pulls_keep c.looks hs hd h.spent hend
    rw [hloses, ← hiff, hc.whole]
    exact ⟨Complete.whole, fun hw => ⟨hw, hsp⟩⟩

/-- A cursor that was opened, before its first page. -/
theorem reads_opened {docs : List (Except String (Document B))} {total : Option ℕ}
    {s : MongoCursorStream B} (hopen : MongoCursorStream.openCursor docs total = .ok s)
    (handle : Option CancelHandle) (ms : ℕ) :
    (({ new with cancel := handle } : Call V B).finish ms (.ok (.cursor s))).1.Reads ∧
      Complete ((docs.filterMap (·.toOption)).map (docToRow s.keys))
        (({ new with cancel := handle } : Call V B).finish ms (.ok (.cursor s))).1 := by
  have hahead : s.ahead = docs ∧ s.done = false := by
    cases docs with
    | nil =>
      cases hopen
      exact ⟨rfl, rfl⟩
    | cons item docs =>
      cases item with
      | error e => cases hopen
      | ok doc =>
        cases hopen
        exact ⟨rfl, rfl⟩
  obtain ⟨hahead, hdone⟩ := hahead
  have hfed := (fed_new (V := V) (B := B)).armed handle
  refine ⟨⟨rfl, ?_, nofun, s, rfl, fun h => absurd (hdone.symm.trans h) nofun⟩, ?_, nofun⟩
  · refine hfed.finish (.inl rfl) ms fun stream hstream => ?_
    cases hstream
    trivial
  · rw [← hahead]
    exact ahead_cursor (c := (({ new with cancel := handle } : Call V B).finish ms
      (.ok (.cursor s))).1) rfl

/-- Any page requests over any cursor: no document is lost, in any state on the way, exactly
when no request meets an error after it has pulled documents in the same batch. -/
theorem documents_kept_iff (bld : Build) (handle : Option CancelHandle) (ms : ℕ)
    (docs : List (Except String (Document B))) (total : Option ℕ) (s : MongoCursorStream B)
    (reqs : List (ℕ × ℕ)) (hopen : MongoCursorStream.openCursor docs total = .ok s) :
    ∃ last,
      (pager bld).exec (({ new with cancel := handle } : Call V B).finish ms
        (.ok (.cursor s))).1 reqs = some last ∧
      ((pager bld).Throughout (({ new with cancel := handle } : Call V B).finish ms
          (.ok (.cursor s))).1 reqs
          (Complete ((docs.filterMap (·.toOption)).map (docToRow s.keys))) ↔
        (pager bld).Run (fun c r => ¬ c.Loses bld r) (({ new with cancel := handle } :
          Call V B).finish ms (.ok (.cursor s))).1 reqs last) := by
  obtain ⟨hreads, hcomplete⟩ := reads_opened (V := V) hopen handle ms
  have hexec : ∀ c : Call V B, c.Reads → ∃ last, (pager bld).exec c reqs = some last := by
    induction reqs with
    | nil => exact fun c _ => ⟨c, rfl⟩
    | cons r reqs ih =>
      intro c h
      obtain ⟨c', hst⟩ := h.page bld r
      obtain ⟨last, hlast⟩ := ih c' (h.step hst)
      exact ⟨last, by rw [Lib.Machine.exec, hst]; exact hlast⟩
  obtain ⟨last, hlast⟩ := hexec _ hreads
  refine ⟨last, hlast, Lib.Machine.Run.throughout_iff Reads _ (fun c r c' h hst => h.step hst)
    (fun c r c' h hc hst => h.complete_iff hc hst) (Lib.Machine.run_of_exec hlast) hreads hcomplete⟩

/-- An error between two documents, met by a request of its own. -/
theorem documents_kept_iff_alone :
    ∃ last,
      (pager .checked).exec (({ new with cancel := none } : Call ℕ ℕ).finish 0
        (.ok (.cursor ⟨[.error "lost", .ok [("a", 5)]], ["_id"], columnsFor ["_id"],
          some [("_id", 4)], false, none⟩))).1 [(0, 1), (1, 1), (1, 1)] = some last ∧
      ((pager .checked).Throughout (({ new with cancel := none } : Call ℕ ℕ).finish 0
          (.ok (.cursor ⟨[.error "lost", .ok [("a", 5)]], ["_id"], columnsFor ["_id"],
            some [("_id", 4)], false, none⟩))).1 [(0, 1), (1, 1), (1, 1)]
          (Complete [[4, 1], [0, 1]]) ↔
        (pager .checked).Run (fun c r => ¬ c.Loses .checked r)
          (({ new with cancel := none } : Call ℕ ℕ).finish 0
            (.ok (.cursor ⟨[.error "lost", .ok [("a", 5)]], ["_id"], columnsFor ["_id"],
              some [("_id", 4)], false, none⟩))).1 [(0, 1), (1, 1), (1, 1)] last) :=
  documents_kept_iff .checked none 0 [.ok [("_id", 4)], .error "lost", .ok [("a", 5)]] none _
    [(0, 1), (1, 1), (1, 1)] rfl

/-- Two documents before an error, asked for in one page: the next request finds the cursor at
its end, with nothing buffered. -/
theorem broken_batch_lost :
    ∃ last,
      (pager .checked).exec (({ new with cancel := none } : Call ℕ ℕ).finish 0
        (.ok (.cursor ⟨[.ok [("a", 5)], .error "lost"], ["_id"], columnsFor ["_id"],
          some [("_id", 4)], false, none⟩))).1 [(0, 5), (0, 5)] = some last ∧
      last.buffer = [] ∧ last.exhausted = true ∧
      ¬ (pager .checked).Throughout (({ new with cancel := none } : Call ℕ ℕ).finish 0
        (.ok (.cursor ⟨[.ok [("a", 5)], .error "lost"], ["_id"], columnsFor ["_id"],
          some [("_id", 4)], false, none⟩))).1 [(0, 5), (0, 5)] (Complete [[4, 1], [0, 1]]) := by
  refine ⟨_, rfl, rfl, rfl, fun h => ?_⟩
  have hlast := (h _ _ (List.prefix_refl _) rfl).whole
  exact absurd (congrArg List.length hlast) (by decide)

end Call
end LvimDb.Engine
