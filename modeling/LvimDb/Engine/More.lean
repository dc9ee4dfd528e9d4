import LvimDb.Engine.Paging
import LvimDb.Engine.Range

/-!
# When a result is known to be over

`query.page` computes `has_more` from the exhausted flag (server.rs:592), and the flag is set
only when the stream is asked for a row past its last one. So the answer depends on every
page asked for so far, and a page that ends at the last row leaves the flag as it was.
-/

namespace LvimDb.Engine
variable {V B : Type} {R : List (List V)} {bld : Build}

/-- Some request of a history asked for a row past the last one. -/
def PastEnd (bld : Build) (R : List (List V)) (reqs : List (ℕ × ℕ)) : Prop :=
  ∃ r ∈ reqs, ∃ need, bld.add r.1 r.2 = some need ∧ R.length < need

theorem pastEnd_nil : ¬ PastEnd bld R [] := by
  rintro ⟨r, hr, -⟩
  cases hr

theorem pastEnd_append {reqs reqs' : List (ℕ × ℕ)} :
    PastEnd bld R (reqs ++ reqs') ↔ PastEnd bld R reqs ∨ PastEnd bld R reqs' := by
  simp only [PastEnd, List.mem_append, or_and_right, exists_or]

theorem pastEnd_single {r : ℕ × ℕ} :
    PastEnd bld R [r] ↔ ∃ need, bld.add r.1 r.2 = some need ∧ R.length < need := by
  simp only [PastEnd, List.mem_singleton, exists_eq_left]

/-- A sum that is a number of the build is the true one, or it wrapped below both terms. -/
theorem Build.add_sum {a b need : ℕ} (h : bld.add a b = some need) (ha : a < usizeSize)
    (hb : b < usizeSize) : need = a + b ∨ usizeSize ≤ a + b ∧ need < a := by
  cases bld with
  | checked =>
    simp only [add, Option.ite_none_right_eq_some, Option.some.injEq] at h
    omega
  | wrapping =>
    simp only [add, Option.some.injEq] at h
    subst h
    by_cases hfit : a + b < usizeSize
    · exact .inl (Nat.mod_eq_of_lt hfit)
    · have hge : usizeSize ≤ a + b := Nat.le_of_not_lt hfit
      right
      rw [Nat.mod_eq_sub_mod hge, Nat.mod_eq_of_lt (by omega)]
      omega

variable [BsonCells V B]

namespace Call
variable {c : Call V B} {b : Lib.Buffer (ResultStream V B) (List V)}

/-- A page of a finished call refills its buffer and reads the answer off it. -/
theorem page_load {from_ n need : ℕ} (hc : c.status = .done) (h : Paged R b)
    (hadd : bld.add from_ n = some need) (hneed : need < usizeSize) :
    ∃ b', Paged R b' ∧ b'.filled need = true ∧
      (b'.done = true ↔ b.done = true ∨ R.length < need) ∧ b.items.length ≤ b'.items.length ∧
      ∀ fuel, R.length + 2 ≤ fuel → (c.load b).page bld fuel from_ n =
        some ((c.load b').reply from_ need, c.load b') := by
  have hleft := h.serves.left_le
  have hf := Lib.Source.refills_filled need (R.length + 1) h.serves hleft
  have hp : b.items <+: (ResultStream.source.refills need (R.length + 1) b).items :=
    Lib.Source.refills_prefix (R.length + 1) h.serves
  refine ⟨ResultStream.source.refills need (R.length + 1) b, h.refills need (R.length + 1), hf,
    Lib.Source.refills_done need (R.length + 1) h.serves hleft, hp.length_le, ?_⟩
  intro fuel hfuel
  have hstatus : (c.load b).status = .done := hc
  simp only [page, hstatus, hadd, pulls_left _ h hneed hf (show _ < fuel by omega)]

/-- What an answer says of the buffer it is read off. -/
theorem reply_ready {from_ need : ℕ} {p : PageReply V}
    (hp : (c.load b).reply from_ need = .ok (.ready p)) :
    p.from_ = min from_ b.items.length ∧
      p.hasMore = (!b.done || decide (min need b.items.length < b.items.length)) ∧
      slice b.items (min from_ b.items.length) (min need b.items.length) = some p.rows := by
  simp only [reply, load] at hp
  split at hp
  · cases hp
  · next rows hrows =>
    cases hp
    exact ⟨rfl, rfl, hrows⟩

/-- A page that is sliced where the sum wrapped ends where the buffer does. -/
theorem reply_wrapped {from_ need : ℕ} {p : PageReply V}
    (hp : (c.load b).reply from_ need = .ok (.ready p)) (hlt : need < from_) :
    b.items.length ≤ need := by
  obtain ⟨-, -, hrows⟩ := reply_ready hp
  simp only [slice, Option.ite_none_right_eq_some] at hrows
  omega

/-- The answer to a page is right about what follows unless the page ends at the last row and
the stream has not been asked for more. -/
theorem reply_hasMore {from_ n need : ℕ} {p : PageReply V} (h : Paged R b)
    (hadd : bld.add from_ n = some need) (hR : R.length < usizeSize) (hfrom : from_ < usizeSize)
    (hn : n < usizeSize)
    (hp : (c.load b).reply from_ need = .ok (.ready p)) :
    (p.hasMore = true ↔ from_ + n < R.length) ↔ from_ + n < R.length ∨ b.done = true := by
  obtain ⟨-, hmore, -⟩ := reply_ready hp
  have hle := h.serves.items_prefix.length_le
  have hwhole := congrArg List.length h.serves.whole
  rw [List.length_append] at hwhole
  rw [hmore, Bool.or_eq_true, Bool.not_eq_true', decide_eq_true_eq]
  cases hd : b.done with
  | false =>
    simp only [true_or, true_iff, Bool.false_eq_true, or_false]
  | true =>
    have hnil := h.serves.spent hd
    rw [hnil, List.length_nil] at hwhole
    have hsum := Build.add_sum hadd hfrom hn
    simp only [Bool.true_eq_false, false_or, or_true, iff_true]
    rcases hsum with heq | ⟨hge, hlt⟩
    · omega
    · have hlen := reply_wrapped hp hlt
      omega

/-- After any pages the buffer still pages the result, and it is known to be over exactly when
one of them asked for a row past its end. -/
theorem pages_done (bld : Build) (reqs : List (ℕ × ℕ)) (hc : c.status = .done) (h : Paged R b) :
    ∃ answers b', (∀ fuel, R.length + 2 ≤ fuel →
        (c.load b).pages bld fuel reqs = some (answers, c.load b')) ∧ Paged R b' ∧
      (b'.done = true ↔ b.done = true ∨ PastEnd bld R reqs) := by
  induction reqs generalizing b with
  | nil =>
    refine ⟨[], b, fun _ _ => rfl, h, ?_⟩
    simp only [pastEnd_nil, or_false]
  | cons r rs ih =>
    have hone : PastEnd bld R [r] ↔ ∃ need, bld.add r.1 r.2 = some need ∧ R.length < need :=
      pastEnd_single
    have hcons : PastEnd bld R ([r] ++ rs) ↔ PastEnd bld R [r] ∨ PastEnd bld R rs :=
      pastEnd_append
    rw [List.singleton_append] at hcons
    cases hadd : bld.add r.1 r.2 with
    | none =>
      obtain ⟨answers, b', hpages, hb, hdone⟩ := ih h
      refine ⟨.panic :: answers, b', fun fuel hfuel => ?_, hb, ?_⟩
      · have hpage : (c.load b).page bld fuel r.1 r.2 = some (.panic, c.load b) := by
          have hstatus : (c.load b).status = .done := hc
          simp only [page, hstatus, hadd]
        simp only [pages, hpage, hpages fuel hfuel, Option.bind_some, Option.map_some]
      · have hno : ¬ PastEnd bld R [r] := by
          rw [hone, hadd]
          rintro ⟨need, hneed, -⟩
          cases hneed
        rw [hdone, hcons]
        simp only [hno, false_or]
    | some need =>
      obtain ⟨b₁, hb₁, -, hdone₁, -, hpage⟩ := page_load hc h hadd (Build.add_lt hadd)
      obtain ⟨answers, b', hpages, hb, hdone⟩ := ih hb₁
      refine ⟨(c.load b₁).reply r.1 need :: answers, b', fun fuel hfuel => ?_, hb, ?_⟩
      · simp only [pages, hpage fuel hfuel, hpages fuel hfuel, Option.bind_some, Option.map_some]
      · rw [hdone, hdone₁, hcons, hone, hadd]
        simp only [Option.some.injEq, exists_eq_left', or_assoc]

end Call
end LvimDb.Engine
