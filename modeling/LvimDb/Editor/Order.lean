import LvimDb.Editor.RunAll
import LvimDb.Lib.Taken
import LvimDb.Result.Reports

/-!
# A list of statements is sent in order

A list goes on when the `on_done` of its last statement is called with true, and nothing else
of it is waiting then. So the numbers it has given out are done but for the last one.
-/

namespace LvimDb.Editor
open Engine (ConnId)
open Result (Ask Conn Dock Env Event Query Reports)
open Lib (Justified)

variable {V : Type}

/-- A list with the history and the statement of it that waits for a connection. -/
structure Tracks (hist : List (Event V)) (r : RunAll) (p : List String) : Prop where
  asked : ∀ x ∈ r.handed, .asked x.1 x.2 ∈ hist
  nodup : r.numbers.Nodup
  chain : ∀ (i : ℕ) (x y : ℕ × Ask), r.handed[i]? = some x → r.handed[i + 1]? = some y →
    ∀ pre, (.asked y.1 y.2 :: pre) <:+ hist → .finished x.1 true ∈ pre
  alone : p ≠ [] → ∀ n ∈ r.numbers, .finished n true ∈ hist
  few : p.length ≤ 1
  sofar : r.handed.map (·.2.2) ++ p <+: clean r.stmts
  whole : (p ≠ [] ∨ ∃ n ∈ r.numbers, .finished n true ∉ hist) →
    r.handed.map (·.2.2) ++ p ++ clean r.rest = clean r.stmts

variable {hist hist' : List (Event V)} {r : RunAll} {p p' : List String}

theorem Tracks.extend (h : Tracks hist r p) (hs : hist <:+ hist') (hj : Justified Reports hist') :
    Tracks hist' r p where
  asked := fun x hx => hs.subset (h.asked x hx)
  nodup := h.nodup
  chain := fun i x y hx hy pre hpre => by
    rcases List.suffix_or_suffix_of_suffix hpre hs with hle | hle
    · exact h.chain i x y hx hy pre hle
    · have hmem := h.asked y (List.mem_of_getElem? hy)
      rcases List.suffix_cons_iff.mp hle with heq | hle
      · exact h.chain i x y hx hy pre (heq ▸ List.suffix_refl _)
      · -- the number would have been given out twice
        exact absurd (hle.subset hmem) (hj pre _ hpre y.2)
  alone := fun hp n hn => hs.subset (h.alone hp n hn)
  few := h.few
  sofar := h.sofar
  whole := fun hw => h.whole (hw.imp_right fun ⟨n, hn, hf⟩ => ⟨n, hn, fun hm => hf (hs.subset hm)⟩)

/-- Of what waits the order does not matter: it is one statement at most. -/
theorem Tracks.perm (h : Tracks hist r p) (hp : p'.Perm p) : Tracks hist r p' := by
  have heq : p' = p := by
    have hfew := h.few
    match p, hfew with
    | [], _ => exact List.perm_nil.mp hp
    | [st], _ => exact List.perm_singleton.mp hp
  exact heq ▸ h

/-- The statement in hand is lost, and with it the rest of the list. -/
theorem Tracks.lose (h : Tracks hist r (p ++ p')) : Tracks hist r p := by
  cases p' with
  | nil => exact (List.append_nil p) ▸ h
  | cons st rest =>
    have hfew := h.few
    rw [List.length_append, List.length_cons] at hfew
    have hnil : p = [] := List.eq_nil_of_length_eq_zero (by omega)
    subst hnil
    refine ⟨h.asked, h.nodup, h.chain, fun hp => absurd rfl hp, Nat.zero_le _, ?_, ?_⟩
    · rw [List.append_nil]
      exact (List.prefix_append _ _).trans h.sofar
    · rintro (hp | ⟨n, hn, hf⟩)
      · exact absurd rfl hp
      · exact absurd (h.alone (List.cons_ne_nil st rest) n hn) hf

/-- The statement in hand is given to `run_guarded` under a new number. -/
theorem Tracks.hand {n : ℕ} {a : Ask} (h : Tracks hist r [a.2])
    (hj : Justified Reports (.asked n a :: hist)) (hn : n ∉ r.numbers) :
    Tracks (.asked n a :: hist) { r with handed := r.handed ++ [(n, a)] } [] where
  asked := fun x hx => by
    rcases List.mem_append.mp hx with hx | hx
    · exact List.mem_cons_of_mem _ (h.asked x hx)
    · rw [List.mem_singleton.mp hx]
      exact List.mem_cons_self ..
  nodup := by
    show ((r.handed ++ [(n, a)]).map Prod.fst).Nodup
    rw [List.map_append]
    refine List.nodup_append.mpr ⟨h.nodup, List.nodup_singleton n, fun m hm k hk heq => ?_⟩
    have hkn : k = n := List.mem_singleton.mp hk
    exact hn (hkn ▸ heq ▸ hm)
  chain := fun i x y hx hy pre hpre => by
    have hfresh := hj hist _ (List.suffix_refl _)
    by_cases hi : i + 1 < r.handed.length
    · rw [List.getElem?_append_left (by omega)] at hx
      rw [List.getElem?_append_left hi] at hy
      rcases List.suffix_cons_iff.mp hpre with heq | hle
      · obtain ⟨heq, -⟩ := List.cons.inj heq
        cases heq
        exact absurd (h.asked _ (List.mem_of_getElem? hy)) (hfresh _)
      · exact h.chain i x y hx hy pre hle
    · have hy' := hy
      rw [List.getElem?_append_right (by omega)] at hy'
      have hzero : i + 1 - r.handed.length = 0 := by
        by_contra hne
        rw [List.getElem?_eq_none (by simpa using Nat.one_le_iff_ne_zero.mpr hne)] at hy'
        cases hy'
      rw [hzero] at hy'
      cases hy'
      rw [List.getElem?_append_left (by omega)] at hx
      have hdone : .finished x.1 true ∈ hist :=
        h.alone (List.cons_ne_nil _ _) x.1 (List.mem_map_of_mem (List.mem_of_getElem? hx))
      rcases List.suffix_cons_iff.mp hpre with heq | hle
      · obtain ⟨-, rfl⟩ := List.cons.inj heq
        exact hdone
      · exact absurd (hle.subset (List.mem_cons_self ..)) (hfresh _)
  alone := fun hp => absurd rfl hp
  few := Nat.zero_le _
  sofar := by
    rw [List.append_nil, List.map_append]
    exact h.sofar
  whole := fun _ => by
    rw [List.append_nil, List.map_append]
    exact h.whole (.inl (List.cons_ne_nil _ _))

/-- All but the last statement of a list are done. -/
theorem Tracks.done (h : Tracks hist r p) {i : ℕ} {x : ℕ × Ask} (hx : r.handed[i]? = some x)
    (hi : i + 1 < r.handed.length) : .finished x.1 true ∈ hist := by
  have hy : r.handed[i + 1]? = some r.handed[i + 1] := List.getElem?_eq_getElem hi
  obtain ⟨pre, hpre⟩ := Lib.suffix_of_mem (h.asked _ (List.mem_of_getElem? hy))
  exact hpre.subset (List.mem_cons_of_mem _ (h.chain i x _ hx hy pre hpre))

/-- When the last statement of a list is reported done, nothing of the list waits and all of
it is done. -/
theorem Tracks.reported {n : ℕ} (h : Tracks hist r p) (hn : n ∈ r.numbers)
    (hold : .finished n true ∉ hist) :
    p = [] ∧ (∀ m ∈ r.numbers, m ≠ n → .finished m true ∈ hist) ∧
      r.handed.map (·.2.2) ++ clean r.rest = clean r.stmts := by
  have hp : p = [] := by
    by_contra hne
    exact hold (h.alone hne n hn)
  refine ⟨hp, fun m hm hne => ?_, ?_⟩
  · obtain ⟨x, hx, rfl⟩ := List.mem_map.mp hm
    obtain ⟨y, hy, rfl⟩ := List.mem_map.mp hn
    obtain ⟨i, hi⟩ := List.getElem?_of_mem hx
    obtain ⟨j, hj⟩ := List.getElem?_of_mem hy
    obtain ⟨hilen, -⟩ := List.getElem?_eq_some_iff.mp hi
    obtain ⟨hjlen, -⟩ := List.getElem?_eq_some_iff.mp hj
    by_cases hlast : i + 1 < r.handed.length
    · exact h.done hi hlast
    · have hjlast : ¬ j + 1 < r.handed.length := fun hlt => hold (h.done hj hlt)
      have hij : i = j := by omega
      subst hij
      rw [Option.some.inj (hi.symm.trans hj)] at hne
      exact absurd rfl hne
  · have hw := h.whole (.inr ⟨n, hn, hold⟩)
    rw [hp, List.append_nil] at hw
    exact hw

namespace Workspace
variable (env : Env V) (s : Workspace V)

/-- The statements of a list that wait for a connection. -/
def pending (l : ℕ) : List String :=
  s.opening.filterMap (fun x => if x.2.2 = some l then some x.2.1 else none) ++
    s.picking.filterMap fun x => if x.2 = some l then some x.1 else none

/-- The statement of a list that is being handed on. -/
def inHand (held : Option ℕ) (statement : String) (l : ℕ) : List String :=
  if held = some l then [statement] else []

/-- `statement` of the list `held` is being handed on. -/
structure Ordered (held : Option ℕ) (statement : String) : Prop where
  dock : s.dock.Reporting
  lists : ∀ (l : ℕ) r, s.lists[l]? = some r →
    Tracks s.dock.hist r (s.pending l ++ inHand held statement l)
  known : ∀ l, s.pending l ++ inHand held statement l ≠ [] → l < s.lists.length
  apart : ∀ (l l' : ℕ) r r' n, s.lists[l]? = some r → s.lists[l']? = some r' →
    n ∈ r.numbers → n ∈ r'.numbers → l = l'

variable {env s} {held : Option ℕ} {statement : String}

theorem ordered_new : (new : Workspace V).Ordered none statement where
  dock := Dock.reporting_new
  lists := fun _ _ h => by cases h
  known := fun _ h => absurd rfl h
  apart := fun _ _ _ _ _ h => by cases h

theorem inHand_none (l : ℕ) : inHand none statement l = [] := rfl

/-- Other actions of the dock. -/
theorem Ordered.docked (h : s.Ordered held statement) {d : Dock V} (hd : d.Reporting)
    (hs : s.dock.hist <:+ d.hist) : ({ s with dock := d } : Workspace V).Ordered held statement where
  dock := hd
  lists := fun l r hr => (h.lists l r hr).extend hs hd.hist
  known := h.known
  apart := h.apart

/-- What changes is who waits for which connection. -/
theorem Ordered.moved {t : Workspace V} {held' : Option ℕ} {statement' : String}
    (h : s.Ordered held statement) (hdock : t.dock = s.dock) (hlists : t.lists = s.lists)
    (hp : ∀ l, (t.pending l ++ inHand held' statement' l).Perm
      (s.pending l ++ inHand held statement l)) : t.Ordered held' statement' where
  dock := hdock ▸ h.dock
  lists := fun l r hr => by
    rw [hdock]
    exact (h.lists l r (hlists ▸ hr)).perm (hp l)
  known := fun l hne => by
    rw [hlists]
    refine h.known l fun hnil => hne ?_
    have hperm := hp l
    rw [hnil] at hperm
    exact List.perm_nil.mp hperm
  apart := by
    rw [hlists]
    exact h.apart

theorem Ordered.lose {statement' : String} (h : s.Ordered held statement) :
    s.Ordered none statement' where
  dock := h.dock
  lists := fun l r hr => by
    rw [inHand_none, List.append_nil]
    exact (h.lists l r hr).lose
  known := fun l hne => h.known l fun hnil => by
    rw [inHand_none, List.append_nil] at hne
    exact hne (List.append_eq_nil_iff.mp hnil).1
  apart := h.apart

theorem Ordered.setRows (h : s.Ordered held statement) (rows : String → Option Row) :
    ({ s with rows := rows } : Workspace V).Ordered held statement :=
  h.moved rfl rfl fun _ => List.Perm.refl _

theorem Ordered.setActive (h : s.Ordered held statement) (name : Option String) :
    ({ s with active := name } : Workspace V).Ordered held statement :=
  h.moved rfl rfl fun _ => List.Perm.refl _

theorem Ordered.adopt (h : s.Ordered held statement) (name : String) (id : ConnId) :
    (s.adopt name id).Ordered held statement := by
  unfold Workspace.adopt
  split
  · exact h.setRows _
  · exact h

theorem modify_some {f : RunAll → RunAll} {l j : ℕ} {r : RunAll}
    (h : (s.lists.modify l f)[j]? = some r) :
    ∃ r₀, s.lists[j]? = some r₀ ∧ r = if l = j then f r₀ else r₀ := by
  rw [List.getElem?_modify] at h
  obtain ⟨r₀, hr₀, rfl⟩ := Option.map_eq_some_iff.mp h
  refine ⟨r₀, hr₀, ?_⟩
  split
  · rfl
  · rfl

/-- What `run_guarded` does at once: the statement is asked for under a number of its own. -/
theorem asks (env : Env V) (d : Dock V) (q : Query) (notify : Bool) :
    ∃ es, (d.runGuarded env q notify).hist = es ++ .asked d.next q.ask :: d.hist := by
  have hj : ∀ (d : Dock V) t dangerous, (d.judged q t dangerous).hist = d.hist := fun d t b => by
    unfold Dock.judged
    split <;> rfl
  unfold Dock.runGuarded
  dsimp only
  split
  · split
    · exact ⟨[], by rw [hj]; rfl⟩
    · exact ⟨[_], rfl⟩
  · exact ⟨[], by rw [hj]; rfl⟩

theorem reporting_guarded (env : Env V) {d : Dock V} (h : d.Reporting) (q : Query) (notify : Bool) :
    (d.runGuarded env q notify).Reporting where
  tickets := h.tickets.runGuarded q notify
  owed := h.owed.runGuarded q notify
  started := h.started.runGuarded q notify
  hist := Dock.Reported.runGuarded h.hist h.tickets q notify

theorem Ordered.numbers_lt (h : s.Ordered held statement) {l : ℕ} {r : RunAll}
    (hr : s.lists[l]? = some r) : ∀ n ∈ r.numbers, n < s.dock.next := by
  intro n hn
  obtain ⟨x, hx, rfl⟩ := List.mem_map.mp hn
  exact h.dock.tickets.asked _ _ ((h.lists l r hr).asked x hx)

theorem Ordered.guarded (h : s.Ordered held statement) {q : Query} (hq : q.statement = statement) :
    (s.guarded env q held).Ordered none statement := by
  have hd := reporting_guarded env h.dock q held.isSome
  obtain ⟨es, hes⟩ := asks env s.dock q held.isSome
  have hasks : (.asked s.dock.next q.ask :: s.dock.hist) <:+
      (s.dock.runGuarded env q held.isSome).hist := ⟨es, hes.symm⟩
  have hs : s.dock.hist <:+ (s.dock.runGuarded env q held.isSome).hist :=
    (List.suffix_cons _ _).trans hasks
  cases held with
  | none => exact h.docked hd hs
  | some j =>
    refine ⟨hd, fun l r hr => ?_, fun l hne => ?_, fun l l' r r' n hr hr' hn hn' => ?_⟩
    · obtain ⟨r₀, hr₀, rfl⟩ := modify_some hr
      have ht := h.lists l r₀ hr₀
      rw [inHand_none, List.append_nil]
      split
      · rename_i hjl
        subst hjl
        rw [inHand, if_pos rfl] at ht
        have hfew := ht.few
        rw [List.length_append, List.length_singleton] at hfew
        have hnil : s.pending j = [] := List.eq_nil_of_length_eq_zero (by omega)
        rw [hnil, List.nil_append, ← hq] at ht
        have hj : Justified Reports (.asked s.dock.next q.ask :: s.dock.hist) :=
          fun pre e hsub => hd.hist pre e (hsub.trans hasks)
        have hfresh : s.dock.next ∉ r₀.numbers := fun hm =>
          absurd (h.numbers_lt hr₀ _ hm) (Nat.lt_irrefl _)
        have hhand := (Tracks.hand (a := q.ask) ht hj hfresh).extend hasks hd.hist
        show Tracks _ _ (s.pending j)
        rw [hnil]
        exact hhand
      · rename_i hjl
        rw [inHand, if_neg (fun heq => hjl (Option.some.inj heq)), List.append_nil] at ht
        exact ht.extend hs hd.hist
    · show l < (s.lists.modify j _).length
      rw [List.length_modify]
      refine h.known l fun hnil => hne ?_
      rw [inHand_none, List.append_nil]
      exact (List.append_eq_nil_iff.mp hnil).1
    · obtain ⟨r₀, hr₀, rfl⟩ := modify_some hr
      obtain ⟨r₁, hr₁, rfl⟩ := modify_some hr'
      have hlt₀ := h.numbers_lt hr₀
      have hlt₁ := h.numbers_lt hr₁
      have hmem : ∀ (r : RunAll) (c : Prop) [Decidable c], n ∈ (if c then
          { r with handed := r.handed ++ [(s.dock.next, q.ask)] } else r).numbers →
          n ∈ r.numbers ∨ (c ∧ n = s.dock.next) := by
        intro r c _ hm
        split at hm
        · rename_i hc
          unfold RunAll.numbers at hm ⊢
          rw [List.map_append] at hm
          rcases List.mem_append.mp hm with hm | hm
          · exact .inl hm
          · exact .inr ⟨hc, List.mem_singleton.mp hm⟩
        · exact .inl hm
      rcases hmem r₀ _ hn with hn | ⟨hl, hn⟩
      · rcases hmem r₁ _ hn' with hn' | ⟨-, hn'⟩
        · exact h.apart l l' r₀ r₁ n hr₀ hr₁ hn hn'
        · exact absurd (hlt₀ n hn) (by omega)
      · rcases hmem r₁ _ hn' with hn' | ⟨hl', -⟩
        · exact absurd (hlt₁ n hn') (by omega)
        · exact hl.symm.trans hl'

/-- The statement in hand waits for its connection to be opened. -/
theorem Ordered.opens (h : s.Ordered held statement) (name : String) :
    ({ s with opening := s.opening ++ [(name, statement, held)] } : Workspace V).Ordered none
      statement := by
  refine h.moved rfl rfl fun l => ?_
  rw [inHand_none, List.append_nil]
  unfold pending inHand
  rw [List.filterMap_append, List.perm_iff_count]
  intro st
  by_cases hl : held = some l
  · simp only [hl, List.count_append, List.filterMap_cons, List.filterMap_nil, if_true]
    omega
  · simp [hl]

theorem Ordered.picks (h : s.Ordered held statement) :
    ({ s with picking := s.picking ++ [(statement, held)] } : Workspace V).Ordered none
      statement := by
  refine h.moved rfl rfl fun l => ?_
  unfold pending inHand
  rw [List.filterMap_append, List.perm_iff_count]
  intro st
  by_cases hl : held = some l
  · simp [hl, List.count_append]
  · simp [hl]

/-- A statement that waited for its connection is taken in hand. -/
theorem Ordered.opened (h : s.Ordered none statement) {n : ℕ} {name st : String} {l : Option ℕ}
    (hx : s.opening[n]? = some (name, st, l)) :
    ({ s with opening := s.opening.eraseIdx n } : Workspace V).Ordered l st := by
  refine h.moved rfl rfl fun j => ?_
  rw [inHand_none, List.append_nil]
  unfold pending
  have hperm := Lib.filterMap_eraseIdx (fun x : String × String × Option ℕ =>
    if x.2.2 = some j then some x.2.1 else none) hx
  refine List.Perm.trans ?_ (hperm.append_right _).symm
  unfold inHand
  by_cases hl : l = some j
  · simp only [hl, if_true, Option.toList_some]
    exact List.perm_append_comm.trans (by rw [List.append_assoc])
  · simp [hl]

theorem Ordered.picked (h : s.Ordered none statement) {n : ℕ} {st : String} {l : Option ℕ}
    (hx : s.picking[n]? = some (st, l)) :
    ({ s with picking := s.picking.eraseIdx n } : Workspace V).Ordered l st := by
  refine h.moved rfl rfl fun j => ?_
  rw [inHand_none, List.append_nil]
  unfold pending
  have hperm := Lib.filterMap_eraseIdx (fun x : String × Option ℕ =>
    if x.2 = some j then some x.1 else none) hx
  rw [List.append_assoc]
  refine List.Perm.append_left _ (List.Perm.trans ?_ hperm.symm)
  unfold inHand
  by_cases hl : l = some j
  · simp only [hl, if_true, Option.toList_some]
    exact List.perm_append_comm
  · simp [hl]

theorem Ordered.withConn (h : s.Ordered held statement) (name : String) :
    (s.withConn env name statement held).Ordered none statement := by
  unfold Workspace.withConn
  split
  · exact h.guarded rfl
  · exact h.opens name

theorem Ordered.start (h : s.Ordered held statement) :
    (s.start env statement held).Ordered none statement := by
  unfold Workspace.start
  split
  · exact h.withConn _
  · split
    · exact h.lose
    · exact h.picks

/-- Nothing of a list waits, all it has given out is done, and `left` is what is left of it. -/
structure Free (s : Workspace V) (l : ℕ) (left : List String) : Prop where
  pending : s.pending l = []
  lt : l < s.lists.length
  done : ∀ r, s.lists[l]? = some r → ∀ n ∈ r.numbers, .finished n true ∈ s.dock.hist
  whole : ∀ r, s.lists[l]? = some r → r.handed.map (·.2.2) ++ left = clean r.stmts

theorem clean_blank {st : String} (h : trim st = "") (rest : List String) :
    clean (st :: rest) = clean rest := by
  unfold clean
  rw [List.map_cons, List.filter_cons_of_neg (by simp [h])]

theorem clean_cons {st : String} (h : trim st ≠ "") (rest : List String) :
    clean (st :: rest) = trim st :: clean rest := by
  unfold clean
  rw [List.map_cons, List.filter_cons_of_pos (by simp [h])]

/-- The statements left of a list are noted; the one before them, if there is one, is taken in
hand. -/
theorem Ordered.taken (h : s.Ordered none statement) {l : ℕ} (st : List String) {rest : List String}
    (hf : s.Free l (st ++ clean rest)) (hone : st.length ≤ 1) {held' : Option ℕ}
    {statement' : String} (hin : ∀ j, inHand held' statement' j = if j = l then st else []) :
    ({ s with lists := s.lists.modify l fun r => { r with rest := rest } } : Workspace V).Ordered
      held' statement' where
  dock := h.dock
  lists := fun j r hr => by
    obtain ⟨r₀, hr₀, rfl⟩ := modify_some hr
    have ht := h.lists j r₀ hr₀
    rw [hin]
    by_cases hj : j = l
    · subst hj
      have hwhole : r₀.handed.map (·.2.2) ++ st ++ clean rest = clean r₀.stmts := by
        rw [List.append_assoc]
        exact hf.whole r₀ hr₀
      rw [if_pos rfl, if_pos rfl]
      show Tracks _ _ (s.pending j ++ st)
      rw [hf.pending, List.nil_append]
      exact ⟨ht.asked, ht.nodup, ht.chain, fun _ => hf.done r₀ hr₀, hone, ⟨_, hwhole⟩,
        fun _ => hwhole⟩
    · rw [if_neg (Ne.symm hj), if_neg hj]
      exact ht
  known := fun j hne => by
    show j < (s.lists.modify l _).length
    rw [List.length_modify]
    rw [hin] at hne
    split at hne
    · rename_i hj
      exact hj ▸ hf.lt
    · exact h.known j hne
  apart := fun j j' r r' n hr hr' hn hn' => by
    have hsame : ∀ (r : RunAll) (c : Prop) [Decidable c],
        (if c then { r with rest := rest } else r).numbers = r.numbers := by
      intro r c _
      split <;> rfl
    obtain ⟨r₀, hr₀, rfl⟩ := modify_some hr
    obtain ⟨r₁, hr₁, rfl⟩ := modify_some hr'
    rw [hsame] at hn hn'
    exact h.apart j j' r₀ r₁ n hr₀ hr₁ hn hn'

theorem Ordered.advance (rest : List String) (h : s.Ordered none statement) {l : ℕ}
    (hf : s.Free l (clean rest)) : (s.advance env l rest).Ordered none "" := by
  induction rest with
  | nil =>
    refine h.taken [] hf (Nat.zero_le _) fun j => ?_
    rw [inHand_none, ite_self]
  | cons st rest ih =>
    unfold Workspace.advance
    split
    · rename_i hblank
      exact ih (clean_blank hblank rest ▸ hf)
    · rename_i hst
      have hfree : s.Free l ([trim st] ++ clean rest) := by
        rw [clean_cons hst] at hf
        exact hf
      have ht : ({ s with lists := s.lists.modify l fun r => { r with rest := rest } } :
          Workspace V).Ordered (some l) (trim st) := by
        refine h.taken [trim st] hfree le_rfl fun j => ?_
        unfold inHand
        simp only [Option.some.injEq, eq_comm]
      exact ht.start.lose

theorem owner_some {n l : ℕ} (h : s.owner n = some l) :
    ∃ r, s.lists[l]? = some r ∧ n ∈ r.numbers := by
  obtain ⟨hl, hn, -⟩ := List.findIdx?_eq_some_iff_getElem.mp h
  exact ⟨s.lists[l], List.getElem?_eq_getElem hl, of_decide_eq_true hn⟩

/-- An `on_done` that was called with true, and what had happened before. -/
theorem Ordered.fresh {es old : List (Event V)} {n : ℕ} (h : s.Ordered none statement)
    (hes : s.dock.hist = es ++ old) (hn : .finished n true ∈ es) : .finished n true ∉ old := by
  obtain ⟨pre, a, hpre⟩ := Lib.suffix_of_mem hn
  have hsuffix : (.finished n true :: (pre ++ old)) <:+ s.dock.hist := by
    rw [hes, ← hpre]
    exact ⟨a, by rw [List.append_assoc, List.cons_append]⟩
  obtain ⟨-, hfirst, -⟩ := h.dock.hist _ _ hsuffix
  exact fun hm => hfirst true (List.mem_append_right _ hm)

theorem findSome?_done {es : List (Event V)} {n : ℕ}
    (h : (es.findSome? fun | .finished n true => some n | _ => none) = some n) :
    .finished n true ∈ es := by
  obtain ⟨e, hm, he⟩ := List.exists_of_findSome?_eq_some h
  split at he
  · cases he
    exact hm
  · cases he

theorem Ordered.report {es old : List (Event V)} (h : s.Ordered none statement)
    (hes : s.dock.hist = es ++ old)
    (hold : ∀ (l : ℕ) r, s.lists[l]? = some r → Tracks old r (s.pending l)) :
    (s.report env es).Ordered none "" := by
  unfold Workspace.report
  split
  · rename_i n hfind
    have hm : .finished n true ∈ es := findSome?_done hfind
    split
    · rename_i l howner
      obtain ⟨r, hr, hn⟩ := owner_some howner
      obtain ⟨hp, hothers, hwhole⟩ := (hold l r hr).reported hn (h.fresh hes hm)
      have hsub : old ⊆ s.dock.hist := fun e he => hes ▸ List.mem_append_right _ he
      unfold Workspace.proceed
      rw [hr]
      refine h.advance r.rest ⟨hp, (List.getElem?_eq_some_iff.mp hr).1, fun r' hr' m hm' => ?_,
        fun r' hr' => ?_⟩
      · cases hr.symm.trans hr'
        by_cases hmn : m = n
        · rw [hmn, hes]
          exact List.mem_append_left _ hm
        · exact hsub (hothers m hm' hmn)
      · cases hr.symm.trans hr'
        exact hwhole
    · exact h.lose
  · exact h.lose

theorem begun_some {l : ℕ} {r new : RunAll} (h : (s.lists ++ [new])[l]? = some r) :
    s.lists[l]? = some r ∨ (l = s.lists.length ∧ r = new) := by
  by_cases hl : l < s.lists.length
  · rw [List.getElem?_append_left hl] at h
    exact .inl h
  · obtain ⟨hlen, hget⟩ := List.getElem?_eq_some_iff.mp h
    rw [List.length_append, List.length_singleton] at hlen
    obtain rfl : l = s.lists.length := by omega
    refine .inr ⟨rfl, ?_⟩
    rw [← hget]
    simp

theorem Ordered.begin (h : s.Ordered none statement) (stmts : List String) :
    ({ s with lists := s.lists ++ [⟨stmts, stmts, []⟩] } : Workspace V).Ordered none statement := by
  refine ⟨h.dock, fun l r hr => ?_, fun l hne => ?_, fun l l' r r' n hr hr' hn hn' => ?_⟩
  · rcases begun_some hr with hr | ⟨rfl, rfl⟩
    · exact h.lists l r hr
    · have hnil : s.pending s.lists.length ++ inHand none statement s.lists.length = [] := by
        by_contra hne
        exact absurd (h.known _ hne) (Nat.lt_irrefl _)
      show Tracks _ _ (s.pending s.lists.length ++ inHand none statement s.lists.length)
      rw [hnil]
      exact ⟨nofun, List.nodup_nil, nofun, nofun, Nat.zero_le _, List.nil_prefix, fun _ => rfl⟩
  · have hlt := h.known l hne
    show l < (s.lists ++ _).length
    rw [List.length_append]
    omega
  · rcases begun_some hr with hr | ⟨rfl, rfl⟩
    · rcases begun_some hr' with hr' | ⟨rfl, rfl⟩
      · exact h.apart l l' r r' n hr hr' hn hn'
      · cases hn'
    · cases hn

theorem Ordered.runAll (h : s.Ordered none statement) (stmts : List String) :
    (proceed env { s with lists := s.lists ++ [⟨stmts, stmts, []⟩] } s.lists.length).Ordered none
      "" := by
  have hlast : (s.lists ++ [(⟨stmts, stmts, []⟩ : RunAll)])[s.lists.length]? =
      some ⟨stmts, stmts, []⟩ := by simp
  unfold Workspace.proceed
  dsimp only
  rw [hlast]
  refine (h.begin stmts).advance stmts ⟨?_, ?_, fun r hr n hn => ?_, fun r hr => ?_⟩
  · by_contra hne
    have hlt := h.known s.lists.length (by rw [inHand_none, List.append_nil]; exact hne)
    exact absurd hlt (Nat.lt_irrefl _)
  · show s.lists.length < (s.lists ++ _).length
    rw [List.length_append]
    exact Nat.lt_succ_self _
  · cases hlast.symm.trans hr
    cases hn
  · cases hlast.symm.trans hr
    rfl

theorem Ordered.step {i : Input V} {t : Workspace V} (h : s.Ordered none "")
    (hst : s.step env i = some t) : t.Ordered none "" := by
  cases i with
  | dock i =>
    obtain ⟨d, hd, rfl⟩ := Option.map_eq_some_iff.mp hst
    have hs : s.dock.hist <:+ d.hist := Dock.step_extends hd
    have hdock : ({ s with dock := d } : Workspace V).Ordered none "" := h.docked (h.dock.step hd) hs
    have hes : d.hist = d.hist.take (d.hist.length - s.dock.hist.length) ++ s.dock.hist := by
      obtain ⟨es, hes⟩ := hs
      rw [← hes]
      simp
    refine hdock.report hes fun l r hr => ?_
    · have ht := h.lists l r hr
      rw [inHand_none, List.append_nil] at ht
      exact ht
  | setActive name =>
    cases hst
    exact h.setActive name
  | setRow name row =>
    cases hst
    exact h.setRows _
  | store saved =>
    cases hst
    exact h.moved rfl rfl fun _ => List.Perm.refl _
  | run statement =>
    cases hst
    split
    · exact h
    · have hn : s.Ordered none (trim statement) := h.lose
      exact hn.start.lose
  | runAll stmts =>
    cases hst
    exact h.runAll stmts
  | connected n id =>
    simp only [Workspace.step] at hst
    split at hst
    · rename_i name st l hx
      have ho := h.opened hx
      cases id with
      | none =>
        cases hst
        exact ho.lose
      | some id =>
        cases hst
        exact ((ho.adopt name id).guarded rfl).lose
    · cases hst
  | picked n name =>
    simp only [Workspace.step] at hst
    split at hst
    · rename_i st l hx
      have hp := h.picked hx
      cases name with
      | none =>
        cases hst
        exact hp.lose
      | some name =>
        cases hst
        exact ((hp.setActive (some name)).withConn name).lose
    · cases hst

end Workspace
end LvimDb.Editor
