import LvimDb.Result.Desk

/-!
# Whose rows a logged result reopens

The call id of a log entry belongs to the process that gave it. Opened while that process
runs, an entry shows its own rows; the next process gives the same number to another call.
-/

namespace LvimDb.Result
open Engine (ConnId CallId CallStatus PageReply)

namespace Desk
variable {V : Type} {env : Env V} {s t : Desk V}

/-- The call made for a callback is for its entry, and a page asked for by `open_cached` is of
the call that was made for the entry. -/
structure Asked (made : List Made) (c : Cont V) (tag : Tag) : Prop where
  call : ∀ cid, tag.call = some cid →
    ∃ entry, c.executed = some entry ∧ ⟨tag.process, cid, entry⟩ ∈ made
  opened : ∀ k g cid offset, tag.opened = some (k, g) → c = .page cid offset →
    ⟨g, cid, some k⟩ ∈ made

theorem Asked.mono {made made' : List Made} {c : Cont V} {tag : Tag} (h : Asked made c tag)
    (hsub : made ⊆ made') : Asked made' c tag where
  call := by
    intro cid hcid
    obtain ⟨entry, hentry, hmem⟩ := h.call cid hcid
    exact ⟨entry, hentry, hsub hmem⟩
  opened := by
    intro k g cid offset hk hc
    exact hsub (h.opened k g cid offset hk hc)

/-- No process gives one number to two calls. -/
structure Numbered (s : Desk V) : Prop where
  bound : ∀ m ∈ s.made,
    m.process < s.process ∨ (m.process = s.process ∧ m.call < s.nextCall)
  unique : ∀ m ∈ s.made, ∀ m' ∈ s.made, m.process = m'.process → m.call = m'.call → m = m'

/-- What is known of the log and of what waits. -/
structure Logged (s : Desk V) : Prop where
  tags : s.tags.length = s.dock.waiting.length
  asked : ∀ (n : ℕ) c tag, s.dock.waiting[n]? = some c → s.tags[n]? = some tag → Asked s.made c tag
  entries : ∀ k cid, s.dock.callOf k = some cid → ⟨s.home k cid, cid, some k⟩ ∈ s.made

theorem numbered_new : (new : Desk V).Numbered where
  bound := fun _ hm => by cases hm
  unique := fun _ hm => by cases hm

theorem logged_new : (new : Desk V).Logged where
  tags := rfl
  asked := fun _ _ _ hc => by cases hc
  entries := fun _ _ hcid => by cases hcid

/-! ### The numbers -/

theorem Numbered.cons (h : s.Numbered) (entry : Option ℕ) {s' : Desk V}
    (hprocess : s'.process = s.process) (hnext : s'.nextCall = s.nextCall + 1)
    (hmade : s'.made = ⟨s.process, s.nextCall, entry⟩ :: s.made) : s'.Numbered := by
  have hfresh : ∀ m ∈ s.made, m.process = s.process → m.call ≠ s.nextCall := by
    intro m hm hp hc
    rcases h.bound m hm with hlt | ⟨-, hlt⟩
    · exact absurd hp (Nat.ne_of_lt hlt)
    · exact absurd hc (Nat.ne_of_lt hlt)
  refine ⟨?_, ?_⟩
  · intro m hm
    rw [hmade] at hm
    rw [hprocess, hnext]
    rcases List.mem_cons.mp hm with rfl | hm
    · exact .inr ⟨rfl, Nat.lt_succ_self _⟩
    · rcases h.bound m hm with hlt | ⟨heq, hlt⟩
      · exact .inl hlt
      · exact .inr ⟨heq, Nat.lt_succ_of_lt hlt⟩
  · intro m hm m' hm' hp hc
    rw [hmade] at hm hm'
    rcases List.mem_cons.mp hm with rfl | hm
    · rcases List.mem_cons.mp hm' with rfl | hm'
      · rfl
      · exact absurd hc.symm (hfresh m' hm' hp.symm)
    · rcases List.mem_cons.mp hm' with rfl | hm'
      · exact absurd hc (hfresh m hm hp)
      · exact h.unique m hm m' hm' hp hc

theorem Numbered.exit (h : s.Numbered) :
    Numbered { s with process := s.process + 1, nextCall := 1 } where
  bound := by
    intro m hm
    rcases h.bound m hm with hlt | ⟨heq, -⟩
    · exact .inl (Nat.lt_succ_of_lt hlt)
    · exact .inl (heq ▸ Nat.lt_succ_self _)
  unique := h.unique

/-- The running process knows a call by its number. -/
theorem Numbered.maker (h : s.Numbered) {cid : CallId} {entry : Option ℕ}
    (hmem : ⟨s.process, cid, entry⟩ ∈ s.made) : s.maker cid = some ⟨s.process, cid, entry⟩ := by
  have hsome : (s.maker cid).isSome := by
    apply List.find?_isSome.mpr
    exact ⟨_, hmem, by simp⟩
  obtain ⟨m, hm⟩ := Option.isSome_iff_exists.mp hsome
  have hkey := List.find?_some hm
  simp only [decide_eq_true_eq] at hkey
  have heq := h.unique m (List.mem_of_find?_eq_some hm) _ hmem hkey.1 hkey.2
  rw [hm, heq]

/-! ### The steps -/

theorem executed_iff {n : ℕ} (hst : s.execute n = some t) :
    ∃ c entry tag, s.dock.waiting[n]? = some c ∧ c.executed = some entry ∧
      s.tags[n]? = some tag ∧ tag.process = s.process ∧
      t = { s with
        nextCall := s.nextCall + 1
        made := ⟨s.process, s.nextCall, entry⟩ :: s.made
        tags := s.tags.set n { tag with call := some s.nextCall } } := by
  unfold execute at hst
  split at hst
  · rename_i entry tag hentry htag
    obtain ⟨⟨hp, -⟩, heq⟩ := Option.ite_none_right_eq_some.mp hst
    obtain ⟨c, hc, hex⟩ := Option.bind_eq_some_iff.mp hentry
    exact ⟨c, entry, tag, hc, hex, htag, hp, (Option.some.inj heq).symm⟩
  · cases hst

theorem Logged.execute (h : s.Logged) {n : ℕ} (hst : s.execute n = some t) : t.Logged := by
  obtain ⟨c, entry, tag, hc, hex, htag, hp, rfl⟩ := executed_iff hst
  have hsub : s.made ⊆ ⟨s.process, s.nextCall, entry⟩ :: s.made := List.subset_cons_self _ _
  refine ⟨?_, ?_, fun k cid hcid => hsub (h.entries k cid hcid)⟩
  · rw [List.length_set]
    exact h.tags
  · intro j c' tag' hc' htag'
    by_cases hj : n = j
    · subst hj
      obtain ⟨hlt, -⟩ := List.getElem?_eq_some_iff.mp htag
      obtain rfl := Option.some.inj (hc.symm.trans hc')
      have hset : some { tag with call := some s.nextCall } = some tag' := by
        rw [← htag', List.getElem?_set_self hlt]
      obtain rfl := Option.some.inj hset
      refine ⟨fun cid hcid => ⟨entry, hex, ?_⟩, fun k g cid offset hk heq => ?_⟩
      · obtain rfl := Option.some.inj hcid
        show (⟨tag.process, s.nextCall, entry⟩ : Made) ∈ _
        rw [hp]
        exact List.mem_cons_self ..
      · exact hsub ((h.asked n c tag hc htag).opened k g cid offset hk heq)
    · have hget : s.tags[j]? = some tag' := by
        rw [← htag', List.getElem?_set_ne hj]
      exact (h.asked j c' tag' hc' hget).mono hsub

/-- The callbacks an input leaves keep their tags. -/
theorem Logged.left (h : s.Logged) (i : Input V) :
    (s.rest i).length = (s.dock.left i).length ∧
      ∀ (j : ℕ) c tag, (s.dock.left i)[j]? = some c → (s.rest i)[j]? = some tag →
        Asked s.made c tag := by
  cases i with
  | answer n r =>
    refine ⟨?_, fun j c tag hc htag => ?_⟩
    · show (s.tags.eraseIdx n).length = (s.dock.waiting.eraseIdx n).length
      rw [List.length_eraseIdx, List.length_eraseIdx, h.tags]
    · have hc : (s.dock.waiting.eraseIdx n)[j]? = some c := hc
      have htag : (s.tags.eraseIdx n)[j]? = some tag := htag
      rw [List.getElem?_eraseIdx] at hc htag
      split at hc
      · rename_i hlt
        rw [if_pos hlt] at htag
        exact h.asked j c tag hc htag
      · rename_i hlt
        rw [if_neg hlt] at htag
        exact h.asked (j + 1) c tag hc htag
  | _ => exact ⟨h.tags, h.asked⟩

/-- A new page request that is tagged is the one of `open_cached`. -/
theorem asked_tag (h : s.Logged) {i : Input V} {d : Dock V} {added : List (Cont V)}
    (hst : Dock.step env { s.dock with issued := [] } i = some d)
    (hadd : d.waiting = s.dock.left i ++ added) {c : Cont V} (hc : c ∈ added) :
    Asked s.made c (s.tag env i) := by
  refine ⟨fun cid hcid => (by cases hcid), fun k g cid offset hk heq => ?_⟩
  subst heq
  obtain ⟨j, hj, hopen⟩ := Option.bind_eq_some_iff.mp hk
  obtain ⟨cid', hcid', hpair⟩ := Option.map_eq_some_iff.mp hopen
  obtain ⟨rfl, rfl⟩ := Prod.mk.inj hpair
  have hstep : d = Dock.openCached env { s.dock with issued := [] } j := Dock.reopens_step hj hst
  obtain ⟨added', hwait, hpage⟩ :=
    Dock.openCached_waiting (s := { s.dock with issued := [] }) env j
  have hleft : s.dock.left i = s.dock.waiting := by
    cases i with
    | answer n r => cases hj
    | _ => rfl
  rw [← hstep, hadd, hleft] at hwait
  have hsame : added = added' := List.append_cancel_left hwait
  have hcall : s.dock.callOf j = some cid := hpage cid offset (hsame ▸ hc)
  obtain rfl : cid' = cid := Option.some.inj (hcid'.symm.trans hcall)
  exact h.entries j cid' hcall

/-- The number a run is answered with is that of the call made for its entry. -/
theorem registered (h : s.Logged) {n : ℕ} {cid : CallId} {k : ℕ} {q : Query} {offset : ℕ}
    {done : Option ℕ} (hi : s.admits (.answer n (.called cid)) = true)
    (hc : s.dock.waiting[n]? = some (.run k q offset done)) :
    ⟨s.process, cid, some k⟩ ∈ s.made := by
  simp only [admits, hc] at hi
  cases htag : s.tags[n]? with
  | none =>
    rw [htag] at hi
    cases hi
  | some tag =>
    rw [htag] at hi
    obtain ⟨hp, hcall⟩ := of_decide_eq_true hi
    obtain ⟨entry, hentry, hmem⟩ := (h.asked n _ tag hc htag).call cid hcall
    cases hentry
    exact hp ▸ hmem

theorem registers_iff {i : Input V} {k : ℕ} {cid : CallId} :
    s.registers i k cid = true ↔ ∃ n q offset done, i = .answer n (.called cid) ∧
      s.dock.waiting[n]? = some (.run k q offset done) := by
  constructor
  · intro h
    unfold registers at h
    split at h
    · rename_i n c
      split at h
      · rename_i j q offset done hc
        obtain ⟨rfl, rfl⟩ := of_decide_eq_true h
        exact ⟨n, q, offset, done, rfl, hc⟩
      · cases h
    · cases h
  · rintro ⟨n, q, offset, done, rfl, hc⟩
    simp only [registers, hc, and_self, decide_true]

/-- An entry has the call id of the process that gave it. -/
theorem Logged.homes (h : s.Logged) {i : Input V} (hi : s.admits i = true) {d : Dock V}
    (hst : Dock.step env { s.dock with issued := [] } i = some d) :
    Dock.Grown (s.dock.left i) (fun k cid => ⟨s.homes i k cid, cid, some k⟩ ∈ s.made) d := by
  have hleft : Dock.left { s.dock with issued := [] } i = s.dock.left i := by
    cases i <;> rfl
  rw [← hleft]
  refine Dock.step_grown hst (fun k cid hcid => ?_) (fun n k q offset done cid heq hc => ?_)
  · unfold Desk.homes
    split
    · rename_i hreg
      obtain ⟨n, q, offset, done, rfl, hc⟩ := registers_iff.mp hreg
      exact registered h hi hc
    · exact h.entries k cid hcid
  · have hreg : s.registers i k cid = true := registers_iff.mpr ⟨n, q, offset, done, heq, hc⟩
    subst heq
    unfold Desk.homes
    rw [if_pos hreg]
    exact registered h hi hc

theorem Logged.follow (h : s.Logged) {i : Input V} (hi : s.admits i = true) {d : Dock V}
    (hst : Dock.step env { s.dock with issued := [] } i = some d) : (s.follow env i d).Logged := by
  have hgrown := h.homes hi hst
  obtain ⟨added, hadd⟩ := hgrown.waiting
  obtain ⟨hlen, hleft⟩ := h.left i
  have hcount : d.waiting.length = (s.rest i).length + added.length := by
    rw [← hadd, List.length_append, hlen]
  refine ⟨?_, fun j c tag hc htag => ?_, hgrown.held⟩
  · show (s.rest i ++ List.replicate (d.waiting.length - (s.rest i).length) (s.tag env i)).length =
      d.waiting.length
    rw [List.length_append, List.length_replicate]
    omega
  · have hc : d.waiting[j]? = some c := hc
    have htag : (s.rest i ++ List.replicate (d.waiting.length - (s.rest i).length)
        (s.tag env i))[j]? = some tag := htag
    rw [← hadd] at hc
    by_cases hj : j < (s.rest i).length
    · rw [List.getElem?_append_left hj] at htag
      rw [List.getElem?_append_left (hlen ▸ hj)] at hc
      exact hleft j c tag hc htag
    · rw [List.getElem?_append_right (Nat.le_of_not_lt hj)] at htag
      rw [List.getElem?_append_right (hlen ▸ Nat.le_of_not_lt hj)] at hc
      obtain rfl := List.eq_of_mem_replicate (List.mem_of_getElem? htag)
      exact asked_tag h hst hadd.symm (List.mem_of_getElem? hc)

/-- Rows that come for an entry while its process runs are its own. -/
theorem shows_own (hn : s.Numbered) (h : s.Logged) {i : Input V} (hc : s.Current (.dock i))
    {k : ℕ} {owner : Option ℕ} (hmem : (k, owner) ∈ s.shows i) : owner = some k := by
  unfold shows at hmem
  split at hmem
  · rename_i n p
    split at hmem
    · rename_i cid offset j g hwait htag
      obtain ⟨rfl, rfl⟩ := Prod.mk.inj (List.mem_singleton.mp hmem)
      have hg : g = s.process := hc (k, g) htag
      obtain ⟨tag, htag, hopened⟩ := Option.bind_eq_some_iff.mp htag
      have hmade := (h.asked n _ tag hwait htag).opened k g cid offset hopened rfl
      rw [hg] at hmade
      rw [hn.maker hmade]
      rfl
    · cases hmem
  · cases hmem

/-- The invariant of the runs. -/
structure Kept (s : Desk V) : Prop where
  numbers : s.Numbered
  log : s.Logged
  own : s.Own

theorem Kept.step (h : s.Kept) {i : Turn V} (hc : s.Current i) (hst : s.step env i = some t) :
    t.Kept := by
  cases i with
  | dock i =>
    obtain ⟨hi, hst⟩ := Option.ite_none_right_eq_some.mp hst
    obtain ⟨d, hd, rfl⟩ := Option.map_eq_some_iff.mp hst
    refine ⟨⟨h.numbers.bound, h.numbers.unique⟩, h.log.follow hi hd, fun k owner hmem => ?_⟩
    rcases List.mem_append.mp hmem with hmem | hmem
    · exact shows_own h.numbers h.log hc hmem
    · exact h.own k owner hmem
  | execute n =>
    obtain ⟨c, entry, tag, -, -, -, -, heq⟩ := executed_iff hst
    refine ⟨?_, h.log.execute hst, ?_⟩
    · subst heq
      exact h.numbers.cons entry rfl rfl rfl
    · subst heq
      exact h.own
  | exit =>
    cases hst
    exact ⟨h.numbers.exit, ⟨h.log.tags, h.log.asked, h.log.entries⟩, h.own⟩

theorem kept_new : (new : Desk V).Kept :=
  ⟨numbered_new, logged_new, fun _ _ hmem => by cases hmem⟩

theorem reopened_own {is : List (Turn V)} (h : (desk env).Run Current new is s) : s.Own :=
  (h.invariant Kept (fun _ _ _ hc hk hst => hk.step hc hst) kept_new).own

/-- A browse whose call is the first of its process, with its rows on screen. -/
def browsed (object : String) (rows : List (List ℕ)) : List (Turn ℕ) :=
  [.dock (.run (browseOn connA object) false), .dock .tick, .execute 0,
    .dock (.answer 0 (.called 1)), .dock (.answer 0 (.state .done)), .dock .tick,
    .dock (.answer 0 (.page (.ready (tablePage rows)))), .dock .tick]

/-- A log entry is opened, and rows come. -/
def reopening (line : ℕ) (rows : List (List ℕ)) : List (Turn ℕ) :=
  [.dock .showLog, .dock (.move line 0), .dock .openLog,
    .dock (.answer 0 (.page (.ready (tablePage rows))))]

def sameProcess : List (Turn ℕ) :=
  .dock .ensureOpen :: browsed "t" [[7]] ++ reopening 0 [[7]]

theorem reopened_own_one_process :
    ∃ s, (desk tableEnv).Run Current new sameProcess s ∧ s.shown = [(0, some 0)] ∧ s.Own := by
  let check := fun (s : Desk ℕ) (i : Turn ℕ) => decide (s.Current i)
  have hsome : ((desk tableEnv).execWith check new sameProcess).map (fun s => s.shown) =
      some [(0, some 0)] := by decide
  obtain ⟨s, hs, hshown⟩ := Option.map_eq_some_iff.mp hsome
  have hrun : (desk tableEnv).Run Current new sameProcess s :=
    Lib.Machine.run_of_execWith (fun _ _ => of_decide_eq_true) hs
  exact ⟨s, hrun, hshown, reopened_own hrun⟩

/-- The engine exits after a browse, another table is browsed, and the first is reopened. -/
def respawned : List (Turn ℕ) :=
  .dock .ensureOpen :: browsed "t" [[7]] ++ .exit :: browsed "u" [[9]] ++ reopening 1 [[9]]

theorem respawned_shows_another :
    ∃ s, (desk tableEnv).exec new respawned = some s ∧ s.shown = [(0, some 1)] ∧ ¬ s.Own := by
  obtain ⟨s, hs, -⟩ := (desk tableEnv).exists_run new respawned (by decide)
  have hview : ((desk tableEnv).exec new respawned).map (fun s => s.shown) =
      some [(0, some 1)] := by decide
  rw [hs] at hview
  have hshown : s.shown = [(0, some 1)] := Option.some.inj hview
  refine ⟨s, hs, hshown, fun h => ?_⟩
  have howner := h 0 (some 1) (by rw [hshown]; exact List.mem_singleton_self _)
  cases howner

end Desk
end LvimDb.Result
