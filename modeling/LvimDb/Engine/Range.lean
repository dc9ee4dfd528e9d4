import LvimDb.Engine.Call

/-!
# When a page panics

`query.page` adds `from` and `n` unchecked (server.rs:574) and slices the buffer with the
sum. Everything else in it is in range, whatever the buffer and the stream have come to:
a materialised result stands where the buffer ends, and a page is never longer than what
was asked for. The pull loop turns once for every page with rows, and once more.
-/

namespace LvimDb.Engine
variable {V B : Type}

/-- `from + n` is a number of the build, and where it wrapped it is not below the rows that are
buffered. -/
def Build.InRange (bld : Build) (from_ n len : ℕ) : Prop :=
  ∃ need, bld.add from_ n = some need ∧ (from_ ≤ need ∨ len ≤ need)

theorem Build.add_lt {bld : Build} {a b need : ℕ} (h : bld.add a b = some need) :
    need < usizeSize := by
  cases bld with
  | checked =>
    simp only [add, Option.ite_none_right_eq_some, Option.some.injEq] at h
    omega
  | wrapping =>
    simp only [add, Option.some.injEq] at h
    rw [← h]
    exact Nat.mod_lt _ (Nat.two_pow_pos 64)

/-! ### Pages of a stream -/

variable [BsonCells V B]

theorem MongoCursorStream.drain_length (keys : List String) (n : ℕ)
    (cursor : List (Except String (Document B))) (rows : List (List V)) (hle : rows.length ≤ n) :
    ∃ left ended, (∃ rows', drain keys n cursor rows = (.ok rows', left, ended) ∧
        rows'.length + left.length = rows.length + cursor.length ∧ left.length ≤ cursor.length ∧
        rows'.length ≤ n) ∨
      ∃ e, drain keys n cursor rows = (.err e, left, ended) := by
  induction cursor generalizing rows with
  | nil => exact ⟨_, _, .inl ⟨rows, rfl, rfl, Nat.le_refl _, hle⟩⟩
  | cons item cursor ih =>
    by_cases hlt : rows.length < n
    · cases item with
      | error e => exact ⟨cursor, false, .inr ⟨e, by simp only [drain, if_pos hlt]⟩⟩
      | ok doc =>
        have hnext : (rows ++ [docToRow (V := V) keys doc]).length = rows.length + 1 := by
          rw [List.length_append, List.length_singleton]
        obtain ⟨left, ended, hdrain⟩ := ih (rows ++ [docToRow keys doc]) (by omega)
        rw [hnext] at hdrain
        refine ⟨left, ended, ?_⟩
        simp only [drain, if_pos hlt, List.length_cons]
        refine hdrain.imp (fun ⟨rows', hd, hsum, hleft, hrows⟩ => ?_) id
        exact ⟨rows', hd, by omega, by omega, hrows⟩
    · refine ⟨item :: cursor, false, .inl ⟨rows, ?_, rfl, Nat.le_refl _, hle⟩⟩
      cases item <;> simp only [drain, if_neg hlt]

namespace ResultStream

/-- A materialised result has handed out its first `m` rows. -/
def At (m : ℕ) : ResultStream V B → Prop
  | .buffered b => b.pos = m ∧ m ≤ b.rows.length
  | .cursor _ => True

/-- How many more pages with rows a stream can have. -/
def remaining : ResultStream V B → ℕ
  | .buffered b => b.rows.length - b.pos
  | .cursor s => s.first.toList.length + s.cursor.length

/-- A page as the pull loop takes it: the end, some rows, or the driver's error. -/
inductive Page (bld : Build) (s : ResultStream V B) (m n : ℕ) (s' : ResultStream V B) : Prop
  | ended : s.nextPage bld n = (.ok none, s') → s'.At m → Page bld s m n s'
  | rows (rows : List (List V)) : s.nextPage bld n = (.ok (some rows), s') → rows.length ≤ n →
      s'.At (m + rows.length) → s'.remaining < s.remaining → Page bld s m n s'
  | broke (e : String) : s.nextPage bld n = (.err e, s') → s'.At m → Page bld s m n s'

theorem buffered_page (bld : Build) (b : BufferedStream V) {m n : ℕ}
    (h : (buffered (B := B) b).At m) (hn : 0 < n) (hfit : m + n < usizeSize) :
    ∃ s', Page bld (buffered (B := B) b) m n s' := by
  obtain ⟨rfl, hm⟩ := h
  by_cases hend : b.rows.length ≤ b.pos
  · refine ⟨.buffered b, .ended ?_ ⟨rfl, hm⟩⟩
    simp only [nextPage, BufferedStream.nextPage, if_pos hend]
  · have hstop : b.pos ≤ min (b.pos + n) b.rows.length := by omega
    have hlen : ((b.rows.take (min (b.pos + n) b.rows.length)).drop b.pos).length =
        min (b.pos + n) b.rows.length - b.pos := by
      rw [List.length_drop, List.length_take]
      omega
    refine ⟨.buffered { b with pos := min (b.pos + n) b.rows.length },
      .rows ((b.rows.take (min (b.pos + n) b.rows.length)).drop b.pos) ?_ ?_ ?_ ?_⟩
    · simp only [nextPage, BufferedStream.nextPage, if_neg hend, bld.add_small hfit,
        slice_of_le hstop (Nat.min_le_right _ _)]
    · omega
    · rw [hlen, Nat.add_sub_cancel' hstop]
      exact ⟨rfl, Nat.min_le_right _ _⟩
    · simp only [remaining]
      omega

omit [BsonCells V B] in
theorem isEmpty_cases (rows : List (List V)) :
    (rows.length = 0 ∧ (if rows.isEmpty then none else some rows) = none) ∨
      0 < rows.length ∧ (if rows.isEmpty then none else some rows) = some rows := by
  cases rows with
  | nil => exact .inl ⟨rfl, rfl⟩
  | cons row rows => exact .inr ⟨Nat.succ_pos _, rfl⟩

theorem cursor_page (bld : Build) (c : MongoCursorStream B) {m n : ℕ} (hn : 0 < n) :
    ∃ s', Page (V := V) bld (cursor c) m n s' := by
  have hfirst : (c.first.toList.map (docToRow (V := V) c.keys)).length = c.first.toList.length :=
    List.length_map _
  have hone : c.first.toList.length ≤ 1 := by cases c.first <;> simp
  by_cases hover : (c.done && c.first.isNone) = true
  · refine ⟨.cursor c, .ended ?_ trivial⟩
    simp only [nextPage, MongoCursorStream.nextPage, if_pos hover]
  · by_cases hdone : c.done = true
    · obtain ⟨doc, hdoc⟩ : ∃ doc, c.first = some doc := by
        rw [hdone, Bool.true_and, Option.isNone_iff_eq_none] at hover
        exact Option.ne_none_iff_exists'.mp hover
      refine ⟨.cursor { c with first := none, done := true },
        .rows [docToRow c.keys doc] ?_ hn trivial ?_⟩
      · simp [nextPage, MongoCursorStream.nextPage, hdone, hdoc]
      · simp only [remaining, hdoc, Option.toList_none, Option.toList_some, List.length_nil,
          List.length_singleton]
        omega
    · have hgot : ∀ rows left ended,
          MongoCursorStream.drain c.keys n c.cursor
            (c.first.toList.map (docToRow (V := V) c.keys)) = (.ok rows, left, ended) →
          c.nextPage n = (.ok (if rows.isEmpty then none else some rows),
            { c with cursor := left, first := none, done := ended }) := by
        intro rows left ended hdrain
        simp only [MongoCursorStream.nextPage, if_neg hover, if_neg hdone, hdrain]
      have hbroke : ∀ e left ended,
          MongoCursorStream.drain c.keys n c.cursor
            (c.first.toList.map (docToRow (V := V) c.keys)) = (.err e, left, ended) →
          c.nextPage (V := V) n =
            (.err e, { c with cursor := left, first := none, done := ended }) := by
        intro e left ended hdrain
        simp only [MongoCursorStream.nextPage, if_neg hover, if_neg hdone, hdrain]
      obtain ⟨left, ended, ⟨rows, hdrain, hsum, -, hrows⟩ | ⟨e, hdrain⟩⟩ :=
        MongoCursorStream.drain_length (V := V) c.keys n c.cursor
          (c.first.toList.map (docToRow c.keys)) (by omega)
      · refine ⟨.cursor { c with cursor := left, first := none, done := ended }, ?_⟩
        rcases isEmpty_cases rows with ⟨-, hrow⟩ | ⟨hpos, hrow⟩
        · refine .ended ?_ trivial
          simp only [nextPage, hgot _ _ _ hdrain, hrow]
        · refine .rows rows ?_ hrows trivial ?_
          · simp only [nextPage, hgot _ _ _ hdrain, hrow]
          · simp only [remaining, Option.toList_none, List.length_nil]
            omega
      · refine ⟨.cursor { c with cursor := left, first := none, done := ended }, .broke e ?_ trivial⟩
        simp only [nextPage, hbroke _ _ _ hdrain]

theorem page (bld : Build) (s : ResultStream V B) {m n : ℕ} (h : s.At m) (hn : 0 < n)
    (hfit : m + n < usizeSize) : ∃ s', s.Page bld m n s' := by
  cases s with
  | buffered b => exact buffered_page bld b h hn hfit
  | cursor c => exact cursor_page bld c hn

end ResultStream

/-! ### The pull loop -/

namespace Call

/-- A call's stream stands where its buffer ends, and there is none before the call is done. -/
structure Fed (c : Call V B) : Prop where
  idle : c.status ≠ .done → c.stream = none
  empty : c.stream = none → c.buffer = []
  feeds : ∀ s, c.stream = some s → s.At c.buffer.length

/-- What bounds the looks at the pull loop's condition. -/
def looks (c : Call V B) : ℕ :=
  if c.exhausted then 1 else (c.stream.elim 0 ResultStream.remaining) + 2

variable {bld : Build} {c c' : Call V B} {need : ℕ}

/-- A turn of the loop: a look that leaves it, a page, or the driver's error. -/
theorem pulls_turn (bld : Build) (h : c.Fed) (hneed : need < usizeSize) :
    (∀ k, c.pulls bld need (k + 1) = (.left, c)) ∨
      c.buffer.length < need ∧ ((∃ c' : Call V B, c'.Fed ∧ c'.looks < c.looks ∧ c'.buffer.length ≤ need ∧
          ∀ k, c.pulls bld need (k + 1) = c'.pulls bld need k) ∨
        ∃ (e : String) (c' : Call V B), c'.Fed ∧ c'.buffer = c.buffer ∧
          ∀ k, c.pulls bld need (k + 1) = (.failed e, c')) := by
  by_cases hfilled : (c.exhausted || decide (need ≤ c.buffer.length)) = true
  · exact .inl fun k => by simp only [pulls, if_pos hfilled]
  · have hnot : c.exhausted = false ∧ c.buffer.length < need := by
      simpa using hfilled
    obtain ⟨hex, hlt⟩ := hnot
    cases hs : c.stream with
    | none => exact .inl fun k => by simp only [pulls, if_neg hfilled, hs]
    | some s =>
      have hat := h.feeds s hs
      have hdone : c.status = .done := by
        by_contra hstatus
        rw [h.idle hstatus] at hs
        cases hs
      have hlooks : c.looks = s.remaining + 2 := by
        simp only [looks, hex, Bool.false_eq_true, if_false, hs, Option.elim_some]
      obtain ⟨s', hpage⟩ := s.page bld hat (n := need - c.buffer.length) (by omega) (by omega)
      refine .inr ⟨hlt, ?_⟩
      cases hpage with
      | ended hpage hat' =>
        refine .inl ⟨{ c with stream := some s', exhausted := true }, ⟨?_, nofun, ?_⟩, ?_,
          Nat.le_of_lt hlt, fun k => ?_⟩
        · exact fun hstatus => absurd hdone hstatus
        · intro s₁ hs₁
          cases hs₁
          exact hat'
        · rw [hlooks]
          simp only [looks, if_true]
          omega
        · simp only [pulls, if_neg hfilled, hs, hpage]
      | rows rows hpage hrows hat' hless =>
        refine .inl ⟨{ c with stream := some s', buffer := c.buffer ++ rows }, ⟨?_, nofun, ?_⟩, ?_,
          ?_, fun k => ?_⟩
        · exact fun hstatus => absurd hdone hstatus
        · intro s₁ hs₁
          cases hs₁
          rw [List.length_append]
          exact hat'
        · rw [hlooks]
          simp only [looks, hex, Bool.false_eq_true, if_false, Option.elim_some]
          omega
        · rw [List.length_append]
          omega
        · simp only [pulls, if_neg hfilled, hs, hpage]
      | broke e hpage hat' =>
        refine .inr ⟨e, { c with stream := some s' }, ⟨?_, nofun, ?_⟩, rfl, fun k => ?_⟩
        · exact fun hstatus => absurd hdone hstatus
        · intro s₁ hs₁
          cases hs₁
          exact hat'
        · simp only [pulls, if_neg hfilled, hs, hpage]

theorem pulls_fed (bld : Build) (k : ℕ) (h : c.Fed) (hneed : need < usizeSize) :
    (c.pulls bld need k).1 ≠ .panicked ∧ (c.pulls bld need k).2.Fed ∧
      (c.pulls bld need k).2.buffer.length ≤ max need c.buffer.length ∧
      (need ≤ c.buffer.length →
        c.pulls bld need k = (.turning, c) ∨ c.pulls bld need k = (.left, c)) := by
  induction k generalizing c with
  | zero => exact ⟨nofun, h, Nat.le_max_right _ _, fun _ => .inl rfl⟩
  | succ k ih =>
    rcases pulls_turn bld h hneed with
      hleft | ⟨hlt, ⟨c', hf, -, hlen, heq⟩ | ⟨e, c', hf, hb, heq⟩⟩
    · rw [hleft]
      exact ⟨nofun, h, Nat.le_max_right _ _, fun _ => .inr rfl⟩
    · obtain ⟨hne, hfed, hmax, -⟩ := ih hf
      rw [heq]
      exact ⟨hne, hfed, by omega, fun hle => absurd hlt (Nat.not_lt.mpr hle)⟩
    · rw [heq]
      exact ⟨nofun, hf, hb ▸ Nat.le_max_right _ _, fun hle => absurd hlt (Nat.not_lt.mpr hle)⟩

/-- Enough looks leave the loop. -/
theorem pulls_end (bld : Build) (k : ℕ) (h : c.Fed) (hneed : need < usizeSize) (hk : c.looks ≤ k) :
    (c.pulls bld need k).1 ≠ .turning := by
  induction k generalizing c with
  | zero =>
    have hpos : 0 < c.looks := by
      simp only [looks]
      split <;> omega
    omega
  | succ k ih =>
    rcases pulls_turn bld h hneed with
      hleft | ⟨-, ⟨c', hf, hless, -, heq⟩ | ⟨e, c', -, -, heq⟩⟩
    · rw [hleft]
      exact nofun
    · rw [heq]
      exact ih hf (by omega)
    · rw [heq]
      exact nofun

/-! ### The handler -/

theorem reply_panics_iff {from_ : ℕ} (c : Call V B) :
    c.reply from_ need = .panic ↔ need < from_ ∧ need < c.buffer.length := by
  have hslice : slice c.buffer (min from_ c.buffer.length) (min need c.buffer.length) = none ↔
      need < from_ ∧ need < c.buffer.length := by
    simp only [slice, ite_eq_right_iff, Option.some_ne_none, imp_false]
    omega
  rw [← hslice]
  simp only [reply]
  split
  · next hnone => exact ⟨fun _ => hnone, fun _ => rfl⟩
  · next rows hrows => exact ⟨nofun, fun hnone => by rw [hrows] at hnone; cases hnone⟩

/-- A page panics exactly where it finds its call done and its sum out of range. -/
theorem page_panics_iff (h : c.Fed) {fuel from_ n : ℕ} {answer : Outcome (PageAnswer V)}
    (hp : c.page bld fuel from_ n = some (answer, c')) :
    answer = .panic ↔ c.status = .done ∧ ¬ bld.InRange from_ n c.buffer.length := by
  simp only [page] at hp
  cases hs : c.status with
  | running | failed | cancelled =>
    rw [hs] at hp
    cases hp
    exact ⟨nofun, nofun⟩
  | done =>
    rw [hs] at hp
    simp only [true_and]
    cases hadd : bld.add from_ n with
    | none =>
      rw [hadd] at hp
      cases hp
      refine ⟨fun _ ⟨need, hneed, _⟩ => ?_, fun _ => rfl⟩
      rw [hadd] at hneed
      cases hneed
    | some need =>
      have hrange : bld.InRange from_ n c.buffer.length ↔ from_ ≤ need ∨ c.buffer.length ≤ need := by
        constructor
        · rintro ⟨need', hneed', hor⟩
          rw [hadd] at hneed'
          cases hneed'
          exact hor
        · exact fun hor => ⟨need, hadd, hor⟩
      obtain ⟨hne, -, hmax, hsame⟩ := pulls_fed bld fuel h (Build.add_lt hadd)
      rw [hadd] at hp
      simp only at hp
      rw [hrange]
      split at hp
      · cases hp
      · next hl =>
        cases hp
        refine ⟨nofun, fun hout => ?_⟩
        rcases hsame (by omega) with heq | heq
        · rw [heq] at hl
          cases hl
        · rw [heq] at hl
          cases hl
      · next hl =>
        rw [hl] at hne
        exact absurd rfl hne
      · next hl =>
        cases hp
        rw [reply_panics_iff]
        have hlen : c'.buffer.length ≤ max need c.buffer.length := by rwa [hl] at hmax
        constructor
        · rintro ⟨hfrom, hbuffered⟩
          omega
        · intro hout
          rcases hsame (by omega) with heq | heq
          · rw [heq] at hl
            cases hl
          · rw [heq] at hl
            cases hl
            omega

theorem page_fed (h : c.Fed) {fuel from_ n : ℕ} {answer : Outcome (PageAnswer V)}
    (hp : c.page bld fuel from_ n = some (answer, c')) : c'.Fed := by
  simp only [page] at hp
  split at hp
  · cases hp
    exact h
  · cases hp
    exact h
  · cases hp
    exact h
  · split at hp
    · cases hp
      exact h
    · next need hadd =>
      have hfed := (pulls_fed bld fuel h (Build.add_lt hadd)).2.1
      split at hp
      · cases hp
      · next hl =>
        cases hp
        rwa [hl] at hfed
      · next hl =>
        cases hp
        rwa [hl] at hfed
      · next hl =>
        cases hp
        rwa [hl] at hfed

/-- The handler gets through its loop. -/
theorem page_answers (bld : Build) (h : c.Fed) (from_ n : ℕ) :
    ∃ r, c.page bld c.looks from_ n = some r := by
  simp only [page]
  split
  · exact ⟨_, rfl⟩
  · exact ⟨_, rfl⟩
  · exact ⟨_, rfl⟩
  · split
    · exact ⟨_, rfl⟩
    · next need hadd =>
      have hend := pulls_end bld c.looks h (Build.add_lt hadd) (Nat.le_refl _)
      split
      · next hl =>
        rw [hl] at hend
        exact absurd rfl hend
      · exact ⟨_, rfl⟩
      · exact ⟨_, rfl⟩
      · exact ⟨_, rfl⟩

/-! ### What else happens to a call -/

omit [BsonCells V B] in
theorem fed_new : (new : Call V B).Fed := ⟨fun _ => rfl, fun _ => rfl, nofun⟩

omit [BsonCells V B] in
theorem Fed.armed (h : c.Fed) (handle : Option CancelHandle) : Fed { c with cancel := handle } :=
  ⟨h.idle, h.empty, h.feeds⟩

omit [BsonCells V B] in
theorem Fed.cancelTake (h : c.Fed) : c.cancelTake.2.Fed := by
  refine ⟨fun hstatus => h.idle fun hdone => hstatus ?_, h.empty, h.feeds⟩
  simp [Call.cancelTake, hdone]

omit [BsonCells V B] in
theorem opened_at {fetched : Except String (Fetched V B)} {stream : ResultStream V B}
    (h : fetched.bind (·.openStream) = .ok stream) : stream.At 0 := by
  cases fetched with
  | error e => cases h
  | ok f =>
    cases f with
    | buffered columns rows affected =>
      cases h
      exact ⟨rfl, Nat.zero_le _⟩
    | cursor docs total =>
      cases stream with
      | buffered b =>
        change (MongoCursorStream.openCursor docs total).map ResultStream.cursor = _ at h
        cases ho : MongoCursorStream.openCursor docs total with
        | error e => rw [ho] at h; cases h
        | ok s => rw [ho] at h; cases h
      | cursor s => trivial

/-- The end of the worker of a call that has no stream yet. -/
theorem Fed.finish (h : c.Fed) (hs : c.status = .running ∨ c.status = .cancelled) (ms : ℕ)
    {outcome : Except String (ResultStream V B)}
    (ho : ∀ stream, outcome = .ok stream → stream.At 0) : (c.finish ms outcome).1.Fed := by
  have hidle : c.stream = none := h.idle (by rcases hs with hs | hs <;> rw [hs] <;> nofun)
  have hempty := h.empty hidle
  simp only [Call.finish]
  split
  · exact ⟨h.idle, h.empty, h.feeds⟩
  · cases outcome with
    | error e => exact ⟨fun _ => hidle, h.empty, h.feeds⟩
    | ok stream =>
      refine ⟨fun hstatus => absurd rfl hstatus, nofun, fun s₁ hs₁ => ?_⟩
      cases hs₁
      rw [hempty]
      exact ho stream rfl

end Call
end LvimDb.Engine
