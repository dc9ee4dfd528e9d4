import LvimDb.Engine.More

/-!
# The total of a result

What `query.page` says of how many rows there are (server.rs:583-590): what the stream said when it
was opened, or the length of the buffer once the stream has been read to its end.
-/

namespace LvimDb.Engine
variable {V B : Type} [BsonCells V B] {R : List (List V)} {bld : Build} {t : Option ℕ}

/-- No page moves the total of a stream. -/
theorem pull_total (s : ResultStream V B) (n : ℕ) : (s.pull n).2.total = s.total := by
  cases s with
  | buffered s =>
    simp only [ResultStream.pull]
    split <;> rfl
  | cursor s =>
    have hnext : (s.nextPage (V := V) n).2.total = s.total := by
      unfold MongoCursorStream.nextPage
      split
      · rfl
      · simp only
        split <;> rfl
    simp only [ResultStream.pull]
    split
    · next heq =>
      rw [heq] at hnext
      exact hnext
    · next heq =>
      rw [heq] at hnext
      exact hnext

theorem refills_total (need k : ℕ) (b : Lib.Buffer (ResultStream V B) (List V)) :
    (ResultStream.source.refills need k b).src.total = b.src.total := by
  induction k generalizing b with
  | zero => rfl
  | succ k ih =>
    rw [Lib.Source.refills]
    split
    · rfl
    · rw [ih]
      have hpull := pull_total b.src (need - b.items.length)
      have hsource : ResultStream.source.pull b.src (need - b.items.length) =
        b.src.pull (need - b.items.length) := rfl
      unfold Lib.Source.refill
      rw [hsource]
      cases hp : b.src.pull (need - b.items.length) with
      | mk o s =>
        rw [hp] at hpull
        cases o <;> exact hpull

namespace Call
variable {c : Call V B} {b : Lib.Buffer (ResultStream V B) (List V)}

/-- The total is what the stream said, or the number of the rows where it said nothing. -/
def Tells (t : Option ℕ) (R : List (List V)) (answer : Outcome (PageAnswer V)) : Prop :=
  ∀ p, answer = .ok (.ready p) → p.total = t ∨ (t = none ∧ p.total = some R.length)

theorem reply_tells (from_ need : ℕ) (h : Paged R b) :
    Tells b.src.total R ((c.load b).reply from_ need) := by
  intro p hp
  unfold reply at hp
  simp only at hp
  split at hp
  · cases hp
  · cases hp
    show (b.src.total).or (if b.done then some b.items.length else none) = b.src.total ∨ _
    cases hsaid : b.src.total with
    | some n => exact .inl rfl
    | none =>
      cases hdone : b.done with
      | false => exact .inl rfl
      | true =>
        have hall := h.serves.whole
        rw [h.serves.spent hdone, List.append_nil] at hall
        have hsay : ((c.load b).stream.bind fun s => s.total) = none := hsaid
        have hend : (c.load b).exhausted = true := hdone
        refine .inr ⟨rfl, ?_⟩
        simp only [hsay, hend, Option.none_or, if_true]
        exact congrArg some (congrArg List.length hall)

theorem page_tells (bld : Build) (from_ n : ℕ) (hc : c.status = .done) (h : Paged R b) :
    ∃ answer b', (∀ fuel, R.length + 2 ≤ fuel →
        (c.load b).page bld fuel from_ n = some (answer, c.load b')) ∧
      Paged R b' ∧ b'.src.total = b.src.total ∧ Tells b.src.total R answer := by
  have hstatus : (c.load b).status = .done := hc
  cases hadd : bld.add from_ n with
  | none =>
    refine ⟨.panic, b, fun fuel _ => ?_, h, rfl, fun p hp => by cases hp⟩
    simp only [page, hstatus, hadd]
  | some need =>
    have hf := Lib.Source.refills_filled need (R.length + 1) h.serves h.serves.left_le
    have hb := h.refills need (R.length + 1)
    have htotal := refills_total need (R.length + 1) b
    have htells := reply_tells (c := c) from_ need hb
    rw [htotal] at htells
    refine ⟨_, _, fun fuel hfuel => ?_, hb, htotal, htells⟩
    simp only [page, hstatus, hadd, pulls_left _ h (Build.add_lt hadd) hf
      (show _ < fuel by omega)]

/-- Whatever pages are asked for, in whatever order, each tells the same. -/
theorem pages_tell (bld : Build) (reqs : List (ℕ × ℕ)) (hc : c.status = .done) (h : Paged R b) :
    ∃ answers b', (∀ fuel, R.length + 2 ≤ fuel →
        (c.load b).pages bld fuel reqs = some (answers, c.load b')) ∧
      ∀ a ∈ answers, Tells b.src.total R a := by
  induction reqs generalizing b with
  | nil => exact ⟨[], b, fun _ _ => rfl, fun a ha => by cases ha⟩
  | cons r rs ih =>
    obtain ⟨answer, b₁, hpage, hb₁, htotal, htells⟩ := page_tells bld r.1 r.2 hc h
    obtain ⟨answers, b₂, hpages, hall⟩ := ih hb₁
    rw [htotal] at hall
    refine ⟨answer :: answers, b₂, fun fuel hfuel => ?_, List.forall_mem_cons.mpr ⟨htells, hall⟩⟩
    simp only [pages, hpage fuel hfuel, hpages fuel hfuel, Option.bind_some, Option.map_some]

/-- What all pages of a call tell that was finished with a stream. -/
theorem totals_told (bld : Build) (handle : Option CancelHandle) (ms : ℕ)
    (stream : ResultStream V B) (reqs : List (ℕ × ℕ)) (hopen : ResultStream.Opened stream R) :
    ∃ answers last, (∀ fuel, R.length + 2 ≤ fuel →
        (({ Call.new with cancel := handle } : Call V B).finish ms (.ok stream)).1.pages bld fuel
          reqs = some (answers, last)) ∧
      ∀ a ∈ answers, Tells stream.total R a := by
  obtain ⟨answers, b, hpages, htells⟩ := pages_tell bld
    (c := (({ Call.new with cancel := handle } : Call V B).finish ms (.ok stream)).1)
    reqs rfl (⟨hopen.serves, hopen.whole⟩ : Paged R ⟨[], false, stream⟩)
  exact ⟨answers, _, hpages, htells⟩

end Call
end LvimDb.Engine
