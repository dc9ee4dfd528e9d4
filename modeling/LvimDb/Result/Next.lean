import LvimDb.Engine.More
import LvimDb.Result.Panel

/-!
# The next page

The dock offers `next` where the page it shows says that there is more (result.lua:2002-2010).
With the answers of the engine this is right for every page but one: the page that ends at
the last row of a result that has not been asked for more.
-/

namespace LvimDb.Result
open Engine (Build BsonCells Call ResultStream CancelHandle PageReply PageAnswer Outcome CallId
  PastEnd usizeSize)

namespace Dock
variable {V : Type} {env : Env V} {s : Dock V} {cid : CallId} {p : PageReply V}

/-- `next` on a page that has just come. -/
theorem nextPage_turn (hcid : s.callId = some cid) :
    (s.turn cid p).nextPage env =
      if p.hasMore then
        (s.turn cid p).send (.paged cid (p.from_ + env.pageSize) env.pageSize)
          (.page cid (p.from_ + env.pageSize))
      else s.turn cid p := by
  have hpage : (s.turn cid p).page = some ⟨cid, p⟩ ∧ (s.turn cid p).offset = p.from_ ∧
      (s.turn cid p).callId = some cid := by
    unfold turn
    dsimp only
    split
    · exact ⟨rfl, rfl, hcid⟩
    · exact ⟨rfl, rfl, hcid⟩
  obtain ⟨hshown, hoffset, hcall⟩ := hpage
  simp only [nextPage, hshown, gotoPage, hcall, hoffset]

theorem send_ne (e : Event V) (c : Cont V) : s.send e c ≠ s := by
  intro h
  have hlen := congrArg (fun d : Dock V => d.hist.length) h
  simp [send, tell, wait] at hlen

end Dock

/-- What the answer `p` to the page at `from_` of `n` rows of `R` has to say of what follows,
and what `next` comes to in a dock with pages of `n` rows that shows it: it is not refused
while rows are left, and does not land on an empty page of a result that has rows. `c` is the
call after the answer. -/
structure MoreExact {V B : Type} [BsonCells V B] (bld : Build) (R : List (List V)) (c : Call V B)
    (from_ n : ℕ) (p : PageReply V) : Prop where
  hasMore : p.hasMore = true ↔ from_ + n < R.length
  refused : ∀ (env : Env V) (s : Dock V) (cid : CallId), env.pageSize = n → s.callId = some cid →
    (s.turn cid p).nextPage env = s.turn cid p → R.length ≤ from_ + n
  lands : ∀ (env : Env V) (s : Dock V) (cid : CallId) (offset : ℕ), env.pageSize = n → 0 < n →
    s.callId = some cid → R ≠ [] →
    (s.turn cid p).nextPage env = (s.turn cid p).send (.paged cid offset n) (.page cid offset) →
    ∀ fuel p' c', R.length + 2 ≤ fuel → c.page bld fuel offset n = some (.ok (.ready p'), c') →
      p'.rows ≠ []

variable {V B : Type} [BsonCells V B] {bld : Build} {R : List (List V)} {c : Call V B}
  {b : Lib.Buffer (ResultStream V B) (List V)} {from_ n : ℕ} {p : PageReply V}

/-- The rows a page is sliced from reach past its start. -/
theorem rows_ne_nil {need : ℕ} (hp : (c.load b).reply from_ need = .ok (.ready p))
    (hneed : from_ < need) (hlen : from_ < b.items.length) : p.rows ≠ [] := by
  obtain ⟨-, -, hrows⟩ := Call.reply_ready hp
  simp only [Engine.slice, Option.ite_none_right_eq_some, Option.some.injEq] at hrows
  intro hnil
  have hzero := congrArg List.length (hrows.2.trans hnil)
  rw [List.length_drop, List.length_take, List.length_nil] at hzero
  omega

/-- Where `has_more` is right, `next` is. -/
theorem moreExact_of_hasMore {need : ℕ} (hc : c.status = .done) (h : Call.Paged R b)
    (hf : b.filled need = true) (hadd : bld.add from_ n = some need) (hR : R.length < usizeSize)
    (hfrom : from_ < usizeSize) (hn : n < usizeSize)
    (hp : (c.load b).reply from_ need = .ok (.ready p))
    (hmore : p.hasMore = true ↔ from_ + n < R.length) :
    MoreExact bld R (c.load b) from_ n p := by
  refine ⟨hmore, ?_, ?_⟩
  · intro env s cid _ hcid hstay
    rw [Dock.nextPage_turn hcid] at hstay
    by_contra hlt
    rw [if_pos (hmore.mpr (by omega))] at hstay
    exact Dock.send_ne _ _ hstay
  · intro env s cid offset hsize hpos hcid _ hnext fuel p' c' hfuel hpage
    rw [Dock.nextPage_turn hcid, hsize] at hnext
    by_cases hm : p.hasMore = true
    · have hlt := hmore.mp hm
      have hneed : need = from_ + n := by
        rcases Build.add_sum hadd hfrom hn with heq | ⟨hge, -⟩ <;> omega
      have hbuf : from_ + n ≤ b.items.length := by
        simp only [Lib.Buffer.filled, Bool.or_eq_true, decide_eq_true_eq] at hf
        rcases hf with hd | hle
        · have hwhole := congrArg List.length h.serves.whole
          rw [h.serves.spent hd, List.append_nil] at hwhole
          omega
        · omega
      obtain ⟨hstart, -, -⟩ := Call.reply_ready hp
      rw [if_pos hm] at hnext
      have hoffset : offset = from_ + n := by
        have hhist := congrArg (fun d : Dock V => d.hist.head?) hnext
        simp only [Dock.send, Dock.tell, Dock.wait, List.head?_cons, Option.some.injEq,
          Event.paged.injEq] at hhist
        omega
      subst hoffset
      cases hadd' : bld.add (from_ + n) n with
      | none =>
        have hstatus : (c.load b).status = .done := hc
        simp only [Call.page, hstatus, hadd'] at hpage
        cases hpage
      | some need' =>
        obtain ⟨b₂, h₂, hf₂, -, hgrow, hload⟩ :=
          Call.page_load (c := c) hc h hadd' (Engine.Build.add_lt hadd')
        rw [hload fuel hfuel] at hpage
        have hp' : (c.load b₂).reply (from_ + n) need' = .ok (.ready p') :=
          congrArg Prod.fst (Option.some.inj hpage)
        have hsum : need' = from_ + n + n := by
          rcases Build.add_sum hadd' (by omega) hn with heq | ⟨-, hless⟩
          · exact heq
          · have := Call.reply_wrapped hp' hless
            omega
        have hlong : from_ + n < b₂.items.length := by
          simp only [Lib.Buffer.filled, Bool.or_eq_true, decide_eq_true_eq] at hf₂
          rcases hf₂ with hd | hle
          · have hwhole := congrArg List.length h₂.serves.whole
            rw [h₂.serves.spent hd, List.append_nil] at hwhole
            omega
          · omega
        exact rows_ne_nil hp' (by omega) hlong
    · rw [if_neg hm] at hnext
      exact absurd hnext.symm (Dock.send_ne _ _)

/-- Any pages of a finished call, and one more: its answer is right about what follows exactly
when rows do follow, or it or an earlier page asked for a row past the last one. -/
theorem more_exact_iff (bld : Build) (handle : Option CancelHandle) (ms : ℕ)
    (stream : ResultStream V B) (R : List (List V)) (reqs : List (ℕ × ℕ)) (from_ n : ℕ)
    (hopen : ResultStream.Opened stream R) (hR : R.length < usizeSize) (hfrom : from_ < usizeSize)
    (hn : n < usizeSize) :
    ∃ answers before answer last,
      (∀ fuel, R.length + 2 ≤ fuel →
        (({ Call.new with cancel := handle } : Call V B).finish ms (.ok stream)).1.pages bld fuel
          reqs = some (answers, before) ∧ before.page bld fuel from_ n = some (answer, last)) ∧
      ∀ p, answer = .ok (.ready p) → (MoreExact bld R last from_ n p ↔
        from_ + n < R.length ∨ PastEnd bld R (reqs ++ [(from_, n)])) := by
  have h : Call.Paged R ⟨[], false, stream⟩ := ⟨hopen.serves, hopen.whole⟩
  let c := (({ Call.new with cancel := handle } : Call V B).finish ms (.ok stream)).1
  obtain ⟨answers, b, hpages, hb, hdone⟩ := Call.pages_done (c := c) bld reqs rfl h
  have hstatus : (c.load b).status = .done := rfl
  cases hadd : bld.add from_ n with
  | none =>
    refine ⟨answers, c.load b, .panic, c.load b, fun fuel hfuel => ⟨hpages fuel hfuel, ?_⟩, nofun⟩
    simp only [Call.page, hstatus, hadd]
  | some need =>
    obtain ⟨b', hb', hf, hdone', -, hpage⟩ :=
      Call.page_load (c := c) rfl hb hadd (Build.add_lt hadd)
    refine ⟨answers, c.load b, (c.load b').reply from_ need, c.load b',
      fun fuel hfuel => ⟨hpages fuel hfuel, hpage fuel hfuel⟩, fun p hp => ?_⟩
    -- the flag is set exactly when some request so far asked for too much
    have hpast : PastEnd bld R (reqs ++ [(from_, n)]) ↔ b'.done = true := by
      rw [Engine.pastEnd_append, Engine.pastEnd_single, hdone', hdone, hadd]
      simp only [Option.some.injEq, exists_eq_left', Bool.false_eq_true, false_or]
    have hmore := Call.reply_hasMore hb' hadd hR hfrom hn hp
    rw [hpast, ← hmore]
    constructor
    · exact MoreExact.hasMore
    · exact moreExact_of_hasMore rfl hb' hf hadd hR hfrom hn hp

/-- Two rows in pages of two: a page past the end first, and the first page is then right. -/
theorem more_exact_iff_asked :
    ∃ answers before answer last,
      (∀ fuel, 4 ≤ fuel →
        (({ Call.new with cancel := none } : Call ℕ ℕ).finish 0
          (.ok (.buffered (.new [] [[4], [5]] none)))).1.pages .checked fuel
          [(1, 2)] = some (answers, before) ∧ before.page .checked fuel 0 2 = some (answer, last)) ∧
      ∀ p, answer = .ok (.ready p) → (MoreExact .checked [[4], [5]] last 0 2 p ↔
        0 + 2 < 2 ∨ PastEnd .checked [[4], [5]] [(1, 2), (0, 2)]) :=
  more_exact_iff .checked none 0 _ [[4], [5]] [(1, 2)] 0 2 (.buffered [] _ none) (by decide)
    (by decide) (by decide)

/-- One row in pages of one: the first page says that there is more, and the next is empty. -/
theorem more_not_exact :
    ∃ p last, (({ Call.new with cancel := none } : Call ℕ ℕ).finish 0
        (.ok (.buffered (.new [] [[4]] none)))).1.page .checked 3 0 1 =
          some (.ok (.ready p), last) ∧
      p.hasMore = true ∧ ¬ MoreExact .checked [[4]] last 0 1 p ∧
      ∃ p' last', last.page .checked 3 1 1 = some (.ok (.ready p'), last') ∧ p'.rows = [] := by
  refine ⟨_, _, rfl, rfl, fun h => ?_, _, _, rfl, rfl⟩
  exact absurd (h.hasMore.mp rfl) (by decide)

end LvimDb.Result
