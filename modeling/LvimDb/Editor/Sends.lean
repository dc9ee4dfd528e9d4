import LvimDb.Editor.Order

/-!
# What a list of statements sends

The connection of every statement is looked up again when the list comes to it.
-/

namespace LvimDb.Editor
open Engine (ConnId)
open Result (Ask Conn Dock Env Event Query Reports tableEnv)
open Lib (Justified)

variable {V : Type}

/-- What is sent of a list is sent when all that was sent of it before was reported done, and
nothing of it was reported otherwise. -/
def Succeeds (numbers : List ℕ) (pre : List (Event V)) (e : Event V) : Prop :=
  ∀ n ∈ numbers, e.runs = some n → ∀ m ∈ numbers,
    .finished m false ∉ pre ∧ ((∃ e' ∈ pre, e'.runs = some m) → .finished m true ∈ pre)

/-- The statement of a list an event sends, with its number. -/
def sent (numbers : List ℕ) : Event V → Option (ℕ × Ask)
  | .ran _ _ q (some n) => if n ∈ numbers then some (n, q.ask) else none
  | _ => none

namespace Workspace
variable (env : Env V) (s : Workspace V)

/-- What was sent of a list, in the order it was sent. -/
def sends (r : RunAll) : List Ask :=
  (s.dock.hist.reverse.filterMap (sent r.numbers)).map Prod.snd

/-- What was given out of a list before has the connection `id`. -/
def Stays (l : ℕ) (id : ConnId) : Prop := ∀ r ∈ s.lists[l]?, ∀ x ∈ r.handed, x.2.1 = id

/-- If `name` is open in the drawer, it is open as the list's connection. -/
def Lands (l : ℕ) (name : String) : Prop := ∀ x ∈ s.liveConn name, s.Stays l x.1

instance (l : ℕ) (id : ConnId) : Decidable (s.Stays l id) :=
  inferInstanceAs (Decidable (∀ r ∈ s.lists[l]?, ∀ x ∈ r.handed, x.2.1 = id))

instance (l : ℕ) (name : String) : Decidable (s.Lands l name) :=
  inferInstanceAs (Decidable (∀ x ∈ s.liveConn name, s.Stays l x.1))

/-- When a list goes on, the connection it finds is the one its first statement was sent on:
the active one, the one that was opened for it, or the one that was picked. -/
def Bound : Input V → Prop
  | .dock .tick =>
    match s.dock.queue with
    | .landed _ (some n) :: _ => ∀ l ∈ s.owner n, ∀ r ∈ s.lists[l]?, clean r.rest ≠ [] →
        ∀ name ∈ s.active, s.Lands l name
    | _ => True
  | .connected n (some id) =>
    match s.opening[n]? with
    | some (_, _, some l) => s.Stays l id
    | _ => True
  | .picked n (some name) =>
    match s.picking[n]? with
    | some (_, some l) => s.Lands l name
    | _ => True
  | _ => True

instance (i : Input V) : Decidable (s.Bound i) := by
  unfold Bound
  split
  · split <;> infer_instance
  · split <;> infer_instance
  · split <;> infer_instance
  · infer_instance

/-- Every list has one connection. -/
def Anchored : Prop :=
  ∀ (l : ℕ) r, s.lists[l]? = some r → ∀ x ∈ r.handed, ∀ y ∈ r.handed, x.2.1 = y.2.1

variable {env s}

theorem anchored_new : (new : Workspace V).Anchored := fun _ _ h => by cases h

theorem Anchored.guarded (h : s.Anchored) {q : Query} {l : Option ℕ}
    (hl : ∀ j, l = some j → s.Stays j q.conn.id) : (s.guarded env q l).Anchored := by
  cases l with
  | none => exact h
  | some j =>
    intro l r hr x hx y hy
    obtain ⟨r₀, hr₀, rfl⟩ := modify_some hr
    split at hx
    · rename_i hjl
      subst hjl
      rw [if_pos rfl] at hy
      have hstay : ∀ z ∈ r₀.handed ++ [(s.dock.next, q.ask)], z.2.1 = q.conn.id := by
        intro z hz
        rcases List.mem_append.mp hz with hz | hz
        · exact hl j rfl r₀ hr₀ z hz
        · rw [List.mem_singleton.mp hz]
          rfl
      rw [hstay x hx, hstay y hy]
    · rename_i hjl
      rw [if_neg hjl] at hy
      exact h l r₀ hr₀ x hx y hy

theorem Anchored.withConn (h : s.Anchored) {name statement : String} {l : Option ℕ}
    (hl : ∀ j, l = some j → s.Lands j name) : (s.withConn env name statement l).Anchored := by
  unfold Workspace.withConn
  split
  · rename_i id driver hlive
    exact h.guarded fun j hj => hl j hj (id, driver) hlive
  · exact h

theorem Anchored.start (h : s.Anchored) {statement : String} {l : Option ℕ}
    (hl : ∀ j, l = some j → ∀ name ∈ s.active, s.Lands j name) :
    (s.start env statement l).Anchored := by
  unfold Workspace.start
  split
  · rename_i name hname
    exact h.withConn fun j hj => hl j hj name hname
  · split
    · exact h
    · exact h

/-- The handed part of the lists stays. -/
theorem Anchored.rest (h : s.Anchored) (l : ℕ) (rest : List String) :
    ({ s with lists := s.lists.modify l fun r => { r with rest := rest } } : Workspace V).Anchored := by
  intro j r hr x hx y hy
  obtain ⟨r₀, hr₀, rfl⟩ := modify_some hr
  refine h j r₀ hr₀ x ?_ y ?_
  · split at hx <;> exact hx
  · split at hy <;> exact hy

theorem Stays.rest {l : ℕ} {id : ConnId} (h : s.Stays l id) (rest : List String) :
    ({ s with lists := s.lists.modify l fun r => { r with rest := rest } } : Workspace V).Stays l
      id := by
  intro r hr x hx
  obtain ⟨r₀, hr₀, rfl⟩ := modify_some hr
  refine h r₀ hr₀ x ?_
  split at hx <;> exact hx

theorem Anchored.advance (rest : List String) (h : s.Anchored) {l : ℕ}
    (hl : clean rest ≠ [] → ∀ name ∈ s.active, s.Lands l name) :
    (s.advance env l rest).Anchored := by
  induction rest with
  | nil => exact h.rest l []
  | cons st rest ih =>
    unfold Workspace.advance
    split
    · rename_i hblank
      exact ih fun hne => hl (clean_blank hblank rest ▸ hne)
    · rename_i hst
      refine (h.rest l rest).start fun j hj name hname x hx => ?_
      cases hj
      refine Stays.rest ?_ rest
      exact hl (by rw [clean_cons hst]; exact List.cons_ne_nil _ _) name hname x hx

theorem Anchored.step {i : Input V} {t : Workspace V} (h : s.Anchored) (ho : s.Ordered none "")
    (hg : s.Bound i) (hst : s.step env i = some t) : t.Anchored := by
  cases i with
  | dock i =>
    obtain ⟨d, hd, rfl⟩ := Option.map_eq_some_iff.mp hst
    unfold Workspace.report
    split
    · rename_i n hfind
      have hm := findSome?_done hfind
      split
      · rename_i l howner
        -- it was the closure of a done run that reported
        obtain ⟨es, hes⟩ := Dock.step_extends hd
        have hdock : ({ s with dock := d } : Workspace V).Ordered none "" :=
          ho.docked (ho.dock.step hd) ⟨es, hes⟩
        have htake : d.hist.take (d.hist.length - s.dock.hist.length) = es := by
          rw [← hes]
          simp
        rw [htake] at hm
        have hold : s.dock.Unreported n := hdock.fresh hes.symm hm
        have hnew : .finished n true ∈ d.hist := hes ▸ List.mem_append_left _ hm
        obtain ⟨rfl, offset, ks, hq⟩ := Dock.step_reports hd hold hnew
        simp only [Bound, hq] at hg
        unfold Workspace.proceed
        split
        · rename_i r hr
          have hd : ({ s with dock := d } : Workspace V).Anchored := h
          refine hd.advance r.rest fun hne name hname => ?_
          exact hg l howner r hr hne name hname
        · exact h
      · exact h
    · exact h
  | setActive name =>
    cases hst
    exact h
  | setRow name row =>
    cases hst
    exact h
  | store saved =>
    cases hst
    exact h
  | run statement =>
    cases hst
    split
    · exact h
    · exact h.start nofun
  | runAll stmts =>
    cases hst
    have hbegin : ({ s with lists := s.lists ++ [⟨stmts, stmts, []⟩] } : Workspace V).Anchored := by
      intro l r hr x hx
      rcases begun_some hr with hr | ⟨-, rfl⟩
      · exact h l r hr x hx
      · cases hx
    unfold Workspace.proceed
    split
    · refine hbegin.advance _ fun _ name _ x _ r hr y hy => ?_
      rcases begun_some hr with hr | ⟨-, rfl⟩
      · exact absurd (List.getElem?_eq_some_iff.mp hr).1 (Nat.lt_irrefl _)
      · cases hy
    · exact hbegin
  | connected n id =>
    simp only [Workspace.step] at hst
    split at hst
    · rename_i name st l hx
      cases id with
      | none =>
        cases hst
        exact h
      | some id =>
        cases hst
        simp only [Bound, hx] at hg
        have ha : (adopt { s with opening := s.opening.eraseIdx n } name id).Anchored := by
          unfold Workspace.adopt
          split <;> exact h
        refine ha.guarded fun j hj => ?_
        subst hj
        unfold Workspace.adopt
        split <;> exact hg
    · cases hst
  | picked n name =>
    simp only [Workspace.step] at hst
    split at hst
    · rename_i st l hx
      cases name with
      | none =>
        cases hst
        exact h
      | some name =>
        cases hst
        simp only [Bound, hx] at hg
        have hp : ({ s with picking := s.picking.eraseIdx n, active := some name } :
            Workspace V).Anchored := h
        refine hp.withConn fun j hj => ?_
        subst hj
        exact hg
    · cases hst

/-! ### What was sent -/

theorem ran_of_sent {numbers : List ℕ} {e : Event V} {x : ℕ × Ask}
    (h : sent numbers e = some x) :
    ∃ why k q, e = .ran why k q (some x.1) ∧ x.1 ∈ numbers ∧ q.ask = x.2 := by
  cases e with
  | ran why k q done =>
    cases done with
    | none => cases h
    | some n =>
      simp only [sent] at h
      split at h
      · cases h
        exact ⟨why, k, q, rfl, ‹_›, rfl⟩
      · cases h
  | _ => cases h

theorem runs_eq_some {e : Event V} {n : ℕ} (h : e.runs = some n) :
    ∃ why k q, e = .ran why k q (some n) := by
  cases e with
  | ran why k q done =>
    cases h
    exact ⟨why, k, q, rfl⟩
  | _ => cases h

end Workspace

/-! ### The order of a list -/

section
variable {hist : List (Event V)} {r : RunAll} {p : List String} {pre : List (Event V)}

theorem asked_unique (hj : Justified Reports hist) {n : ℕ} {a b : Ask} (ha : .asked n a ∈ hist)
    (hb : .asked n b ∈ hist) : a = b := by
  obtain ⟨pre, hpre⟩ := Lib.suffix_of_mem ha
  obtain ⟨pre', hpre'⟩ := Lib.suffix_of_mem hb
  rcases Lib.suffix_cases hpre hpre' with ⟨heq, -⟩ | hm | hm
  · cases heq
    rfl
  · exact absurd hm (hj pre' _ hpre' a)
  · exact absurd hm (hj pre _ hpre b)

/-- An `on_done` is called with true or with false. -/
theorem finished_unique (hj : Justified Reports hist) {n : ℕ} {ok ok' : Bool}
    (h : .finished n ok ∈ hist) (h' : .finished n ok' ∈ hist) : ok = ok' := by
  obtain ⟨pre, hpre⟩ := Lib.suffix_of_mem h
  obtain ⟨pre', hpre'⟩ := Lib.suffix_of_mem h'
  rcases Lib.suffix_cases hpre hpre' with ⟨heq, -⟩ | hm | hm
  · cases heq
    rfl
  · exact absurd hm ((hj pre' _ hpre').2.1 ok)
  · exact absurd hm ((hj pre _ hpre).2.1 ok')

/-- When a statement of a list is asked for, all before it are done. -/
theorem Tracks.earlier (h : Tracks hist r p) (hj : Justified Reports hist) {i j : ℕ} {x y : ℕ × Ask}
    (hx : r.handed[i]? = some x) (hy : r.handed[j]? = some y) (hij : i < j)
    (hpre : (.asked y.1 y.2 :: pre) <:+ hist) : .finished x.1 true ∈ pre := by
  induction j generalizing y pre with
  | zero => exact absurd hij (Nat.not_lt_zero i)
  | succ j ih =>
    obtain ⟨hlen, -⟩ := List.getElem?_eq_some_iff.mp hy
    have hz : r.handed[j]? = some r.handed[j] := List.getElem?_eq_getElem (by omega)
    have hdone := h.chain j r.handed[j] y hz hy pre hpre
    by_cases heq : i = j
    · subst heq
      rw [Option.some.inj (hx.symm.trans hz)]
      exact hdone
    · -- the one before was asked for earlier still
      have hle : pre <:+ hist := (List.suffix_cons _ _).trans hpre
      obtain ⟨pre', hpre'⟩ := Lib.suffix_of_mem hdone
      obtain ⟨⟨a, ha⟩, -⟩ := hj pre' _ (hpre'.trans hle)
      have hle' : pre' <:+ pre := (List.suffix_cons _ _).trans hpre'
      have hask : a = r.handed[j].2 :=
        asked_unique hj (hle.subset (hle'.subset ha)) (h.asked _ (List.mem_of_getElem? hz))
      obtain ⟨pre'', hpre''⟩ := Lib.suffix_of_mem ha
      have hm := ih hz (by omega) (hask ▸ (hpre''.trans (hle'.trans hle)))
      exact hle'.subset (((List.suffix_cons _ _).trans hpre'').subset hm)

/-- When a statement of a list is sent, it is as it was asked for, and all before it are done. -/
theorem Tracks.sending (h : Tracks hist r p) (hj : Justified Reports hist) {e : Event V} {n : ℕ}
    (hpre : (e :: pre) <:+ hist) (hn : n ∈ r.numbers) (he : e.runs = some n) :
    ∃ why k q j, e = .ran why k q (some n) ∧ r.handed[j]? = some (n, q.ask) ∧
      ∀ (i : ℕ) x, i < j → r.handed[i]? = some x → .finished x.1 true ∈ pre := by
  obtain ⟨why, k, q, rfl⟩ := Workspace.runs_eq_some he
  obtain ⟨-, hask, -⟩ := hj pre _ hpre
  have hle : pre <:+ hist := (List.suffix_cons _ _).trans hpre
  obtain ⟨y, hy, rfl⟩ := List.mem_map.mp hn
  obtain ⟨j, hj'⟩ := List.getElem?_of_mem hy
  have heq : q.ask = y.2 := asked_unique hj (hle.subset hask) (h.asked y hy)
  refine ⟨why, k, q, j, rfl, heq ▸ hj', fun i x hij hx => ?_⟩
  obtain ⟨pre', hpre'⟩ := Lib.suffix_of_mem hask
  have hm := h.earlier hj hx hj' hij (heq ▸ (hpre'.trans hle))
  exact ((List.suffix_cons _ _).trans hpre').subset hm

/-- What is done was sent before. -/
theorem ran_before (hj : Justified Reports hist) (hle : pre <:+ hist) {n : ℕ}
    (hm : .finished n true ∈ pre) : ∃ e ∈ pre, e.runs = some n := by
  obtain ⟨pre', hpre'⟩ := Lib.suffix_of_mem hm
  obtain ⟨-, -, hran⟩ := hj pre' _ (hpre'.trans hle)
  obtain ⟨e, he, hruns⟩ := hran rfl
  exact ⟨e, ((List.suffix_cons _ _).trans hpre').subset he, hruns⟩

theorem Tracks.in_turn (h : Tracks hist r p) (hj : Justified Reports hist) :
    Justified (Lib.InTurn (sent r.numbers) r.handed) hist := by
  intro pre e hpre x hx
  obtain ⟨why, k, q, rfl, hn, hq⟩ := Workspace.ran_of_sent hx
  have hle : pre <:+ hist := (List.suffix_cons _ _).trans hpre
  obtain ⟨-, -, hfirst, -⟩ := hj pre _ hpre
  refine ⟨fun e' he' hsent => ?_, ?_⟩
  · obtain ⟨why', k', q', rfl, -, -⟩ := Workspace.ran_of_sent hsent
    obtain ⟨pre', hpre'⟩ := Lib.suffix_of_mem he'
    obtain ⟨⟨judged, rfl⟩, -⟩ := hj pre' _ (hpre'.trans hle)
    exact hfirst _ he' rfl
  · obtain ⟨_, _, _, j, heq, hj', hdone⟩ := h.sending hj hpre hn rfl
    cases heq
    refine ⟨j, by rw [hj', hq], fun i y hij hy => ?_⟩
    obtain ⟨e', he', hruns⟩ := ran_before hj hle (hdone i y hij hy)
    obtain ⟨pre', hpre'⟩ := Lib.suffix_of_mem he'
    have hy' : y.1 ∈ r.numbers := List.mem_map_of_mem (List.mem_of_getElem? hy)
    obtain ⟨why', k', q', i', rfl, hi', -⟩ := h.sending hj (hpre'.trans hle) hy' hruns
    have hask : q'.ask = y.2 := asked_unique hj (h.asked _ (List.mem_of_getElem? hi'))
      (h.asked y (List.mem_of_getElem? hy))
    refine ⟨_, he', ?_⟩
    simp only [sent, if_pos hy', hask]

theorem Tracks.succeeds (h : Tracks hist r p) (hj : Justified Reports hist) :
    Justified (Succeeds r.numbers) hist := by
  intro pre e hpre n hn he m hm
  have hle : pre <:+ hist := (List.suffix_cons _ _).trans hpre
  obtain ⟨why, k, q, j, rfl, hj', hdone⟩ := h.sending hj hpre hn he
  obtain ⟨-, -, hfirst, hopen⟩ := hj pre _ hpre
  obtain ⟨x, hx, rfl⟩ := List.mem_map.mp hm
  obtain ⟨i, hi⟩ := List.getElem?_of_mem hx
  -- a statement that comes after cannot have been asked for
  have hlater : ∀ a, j < i → .asked x.1 a ∉ pre := by
    intro a hji ha
    have hask : a = x.2 := asked_unique hj (hle.subset ha) (h.asked x hx)
    obtain ⟨pre', hpre'⟩ := Lib.suffix_of_mem ha
    have hfin := h.earlier hj hj' hi hji (hask ▸ (hpre'.trans hle))
    exact hopen true (((List.suffix_cons _ _).trans hpre').subset hfin)
  refine ⟨fun hfalse => ?_, fun ⟨e', he', hruns⟩ => ?_⟩
  · obtain ⟨pre', hpre'⟩ := Lib.suffix_of_mem hfalse
    obtain ⟨⟨a, ha⟩, -⟩ := hj pre' _ (hpre'.trans hle)
    rcases Nat.lt_trichotomy i j with hlt | rfl | hgt
    · exact absurd (finished_unique hj (hle.subset (hdone i x hlt hi)) (hle.subset hfalse)) nofun
    · cases hi.symm.trans hj'
      exact hopen false hfalse
    · exact hlater a hgt (((List.suffix_cons _ _).trans hpre').subset ha)
  · obtain ⟨why', k', q', rfl⟩ := Workspace.runs_eq_some hruns
    obtain ⟨pre', hpre'⟩ := Lib.suffix_of_mem he'
    obtain ⟨⟨judged, rfl⟩, ha, -⟩ := hj pre' _ (hpre'.trans hle)
    rcases Nat.lt_trichotomy i j with hlt | rfl | hgt
    · exact hdone i x hlt hi
    · cases hi.symm.trans hj'
      exact absurd rfl (hfirst _ he')
    · exact absurd (((List.suffix_cons _ _).trans hpre').subset ha) (hlater _ hgt)

end

namespace Workspace
variable {env : Env V} {s : Workspace V}

/-- What was sent of a list is a prefix of what it gave to `run_guarded`. -/
theorem Ordered.sends_prefix (h : s.Ordered none "") {l : ℕ} {r : RunAll}
    (hr : s.lists[l]? = some r) : s.sends r <+: r.handed.map Prod.snd := by
  have ht := h.lists l r hr
  have hnodup : r.handed.Nodup := ht.nodup.of_map _
  obtain ⟨j, hj⟩ := (ht.in_turn h.dock.hist).in_turn hnodup
  unfold sends
  rw [hj, List.map_take]
  exact List.take_prefix _ _

theorem run_all_in_order {is : List (Input V)} (h : (machine env).Run Bound new is s) :
    ∀ (l : ℕ) r, s.lists[l]? = some r →
      (s.sends r).map Prod.snd <+: clean r.stmts ∧
      (∀ a ∈ s.sends r, ∀ b ∈ s.sends r, a.1 = b.1) ∧
      Justified (Succeeds r.numbers) s.dock.hist := by
  have hinv : s.Ordered none "" ∧ s.Anchored := by
    refine h.invariant (fun s => s.Ordered none "" ∧ s.Anchored) ?_ ⟨ordered_new, anchored_new⟩
    intro s i t hg hi hst
    exact ⟨hi.1.step hst, hi.2.step hi.1 hg hst⟩
  obtain ⟨ho, ha⟩ := hinv
  intro l r hr
  have ht := ho.lists l r hr
  have hsends := ho.sends_prefix hr
  refine ⟨?_, fun a hm b hm' => ?_, ht.succeeds ho.dock.hist⟩
  · have hmap := hsends.map Prod.snd
    rw [List.map_map] at hmap
    exact hmap.trans ((List.prefix_append _ _).trans ht.sofar)
  · obtain ⟨x, hx, rfl⟩ := List.mem_map.mp (hsends.subset hm)
    obtain ⟨y, hy, rfl⟩ := List.mem_map.mp (hsends.subset hm')
    exact ha l r hr x hx y hy

/-- A list is started on `a`, and its first statement is done. -/
def listOnA : List (Input ℕ) :=
  [.setRow "a" (some ⟨"sqlite", some 1⟩), .setRow "b" (some ⟨"sqlite", some 2⟩),
    .setActive (some "a"), .runAll ["x", " ", " y "], .dock .tick, .dock (.answer 0 (.called 1)),
    .dock (.answer 0 (.state .done))]

/-- What was sent of the first list. -/
def firstList (s : Workspace V) : Option (List Ask) := (s.lists[0]?).map s.sends

theorem run_all_in_order_two_statements :
    ∃ s, (machine tableEnv).Run Bound new (listOnA ++ [.dock .tick, .dock .tick]) s ∧
      s.firstList = some [(1, "x"), (1, "y")] ∧
      ∀ (l : ℕ) r, s.lists[l]? = some r →
        (s.sends r).map Prod.snd <+: clean r.stmts ∧
        (∀ a ∈ s.sends r, ∀ b ∈ s.sends r, a.1 = b.1) ∧
        Justified (Succeeds r.numbers) s.dock.hist := by
  let check := fun (s : Workspace ℕ) (i : Input ℕ) => decide (s.Bound i)
  have hsome : ((machine tableEnv).execWith check new (listOnA ++ [.dock .tick, .dock .tick])).map
      firstList = some (some [(1, "x"), (1, "y")]) := by decide
  obtain ⟨s, hs, hlist⟩ := Option.map_eq_some_iff.mp hsome
  have hrun : (machine tableEnv).Run Bound new (listOnA ++ [.dock .tick, .dock .tick]) s :=
    Lib.Machine.run_of_execWith (fun _ _ => of_decide_eq_true) hs
  exact ⟨s, hrun, hlist, run_all_in_order hrun⟩

/-- The drawer makes another connection active before the first statement reports. -/
theorem run_all_changes_connection :
    ∃ s, (machine tableEnv).exec new
        (listOnA ++ [.setActive (some "b"), .dock .tick, .dock .tick]) = some s ∧
      s.firstList = some [(1, "x"), (2, "y")] ∧
      ¬ ∀ (l : ℕ) r, s.lists[l]? = some r → ∀ a ∈ s.sends r, ∀ b ∈ s.sends r, a.1 = b.1 := by
  have hsome : ((machine tableEnv).exec new
      (listOnA ++ [.setActive (some "b"), .dock .tick, .dock .tick])).map firstList =
      some (some [(1, "x"), (2, "y")]) := by decide
  obtain ⟨s, hs, hlist⟩ := Option.map_eq_some_iff.mp hsome
  refine ⟨s, hs, hlist, fun h => ?_⟩
  obtain ⟨r, hr, hsends⟩ := Option.map_eq_some_iff.mp hlist
  have hx : (1, "x") ∈ s.sends r := by rw [hsends]; decide
  have hy : (2, "y") ∈ s.sends r := by rw [hsends]; decide
  exact absurd (h 0 r hr _ hx _ hy) (by decide)

end Workspace
end LvimDb.Editor
