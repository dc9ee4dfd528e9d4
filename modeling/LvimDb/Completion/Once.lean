import LvimDb.Completion.Get
import LvimDb.Lib.Places

/-!
# Every callback is called once

The callbacks are tickets in places: called, scheduled, or parked on a fetch. Every step of the
source moves them; only an invalidation loses some.
-/

namespace LvimDb.Completion
open Engine (ConnId)
open Lib (Held)

namespace Cmp

/-- The fetch that parked callbacks are of. -/
def Awaited (s : Cmp) : Fetch → Prop
  | .nodes k => ∃ e parked, s.cache k = some e ∧ e.nodes = .pending parked
  | .columns k key => ∃ e parked, s.cache k = some e ∧ e.cols key = some (.pending parked)

/-- The state while the callbacks in `hand` are served and the fetches in `but` are made or
answered. Where `whole`, no step has been unsound. -/
structure Inv (whole : Prop) (hand : List ℕ) (but : Fetch → Prop) (s : Cmp) : Prop where
  held : Held whole s.given hand s.at_
  flying : ∀ f, s.Awaited f → but f ∨ s.Flying f
  low : ∀ x ∈ s.flights, x.1 < s.asked
  single : (s.flights.map Prod.fst).Nodup
  spent : ∀ x ∈ s.trees, x.1 < s.asked ∧ x.1 ∉ s.flights.map Prod.fst
  nodes : whole → ∀ k e nodes n, s.cache k = some e → e.nodes = .fetched nodes n →
    (n, nodes) ∈ s.trees
  columns : ∀ k e key cols n, s.cache k = some e → e.cols key = some (.fetched cols n) →
    (n, cols) ∈ s.columns

/-- No fetch is on the way. -/
def steady : Fetch → Prop := fun _ => False

variable {s t : Cmp} {whole : Prop} {hand ids : List ℕ} {but : Fetch → Prop} {k : ConnId}
  {e : Slot} {key : String} {id n : ℕ}

/-! ### Places -/

theorem at_callBack (s : Cmp) (id : ℕ) (items : List Item) :
    (s.callBack id items).at_ = Function.update s.at_ .called (s.at_ .called ++ [id]) := by
  funext p
  cases p <;> simp [at_, callBack]

theorem at_open (he : s.cache k = none) (g : Waiting) :
    (s.setSlot k (some ⟨.pending [g], fun _ => none⟩)).at_ =
      Function.update s.at_ (.nodes k) (s.at_ (.nodes k) ++ [g.id]) := by
  funext p
  cases p with
  | called => rfl
  | scheduled => rfl
  | nodes k' =>
    by_cases hk : k' = k
    · subst hk
      simp [at_, setSlot, he, Nodes.ids]
    · simp [at_, setSlot, hk]
  | columns k' key =>
    by_cases hk : k' = k
    · subst hk
      simp [at_, setSlot, he]
    · simp [at_, setSlot, hk]

theorem at_setNodes (he : s.cache k = some e) (x : Nodes) :
    (s.setSlot k (some { e with nodes := x })).at_ = Function.update s.at_ (.nodes k) x.ids := by
  funext p
  cases p with
  | called => rfl
  | scheduled => rfl
  | nodes k' =>
    by_cases hk : k' = k
    · subst hk
      simp [at_, setSlot]
    · simp [at_, setSlot, hk]
  | columns k' key =>
    by_cases hk : k' = k
    · subst hk
      simp [at_, setSlot, he]
    · simp [at_, setSlot, hk]

theorem at_setCols (he : s.cache k = some e) (key : String) (c : Option Cols) :
    (s.setCols k e key c).at_ = Function.update s.at_ (.columns k key) (c.elim [] Cols.ids) := by
  funext p
  cases p with
  | called => rfl
  | scheduled => rfl
  | nodes k' =>
    by_cases hk : k' = k
    · subst hk
      simp [at_, setCols, setSlot, he]
    · simp [at_, setCols, setSlot, hk]
  | columns k' key' =>
    by_cases hk : k' = k
    · subst hk
      by_cases hkey : key' = key
      · subst hkey
        simp [at_, setCols, setSlot]
      · simp [at_, setCols, setSlot, he, hkey]
    · simp [at_, setCols, setSlot, hk]

theorem at_invalidate (s : Cmp) (k : ConnId) (p : Spot) :
    (s.setSlot k none).at_ p = s.at_ p ∨ (s.setSlot k none).at_ p = [] ∧
      (p = .nodes k ∨ ∃ key, p = .columns k key) := by
  cases p with
  | called => exact .inl rfl
  | scheduled => exact .inl rfl
  | nodes k' =>
    by_cases hk : k' = k
    · subst hk
      exact .inr ⟨by simp [at_, setSlot], .inl rfl⟩
    · exact .inl (by simp [at_, setSlot, hk])
  | columns k' key =>
    by_cases hk : k' = k
    · subst hk
      exact .inr ⟨by simp [at_, setSlot], .inr ⟨key, rfl⟩⟩
    · exact .inl (by simp [at_, setSlot, hk])

/-! ### Primitive steps -/

theorem Inv.callBack (h : Inv whole (id :: hand) but s) (items : List Item) :
    Inv whole hand but (s.callBack id items) where
  held := by
    rw [at_callBack]
    exact h.held.put .called
  flying := h.flying
  low := h.low
  single := h.single
  spent := h.spent
  nodes := h.nodes
  columns := h.columns

theorem Inv.callBacks (items : List Item) (h : Inv whole (ids ++ hand) but s) :
    Inv whole hand but (ids.foldl (fun s id => s.callBack id items) s) := by
  induction ids generalizing s with
  | nil => exact h
  | cons id ids ih => exact ih (h.callBack items)

theorem Inv.flight {f : Fetch} (h : Inv whole hand (· = f) s) :
    Inv whole hand steady (s.flight f) where
  held := h.held
  flying := by
    intro g hg
    right
    rcases h.flying g hg with rfl | ⟨n, hn⟩
    · exact ⟨s.asked, List.mem_append_right _ (List.mem_singleton_self _)⟩
    · exact ⟨n, List.mem_append_left _ hn⟩
  low := by
    intro x hx
    rcases List.mem_append.mp hx with hx | hx
    · exact Nat.lt_succ_of_lt (h.low x hx)
    · rw [List.mem_singleton.mp hx]
      exact Nat.lt_succ_self _
  single := by
    show ((s.flights ++ [(s.asked, f)]).map Prod.fst).Nodup
    rw [List.map_append]
    refine List.Nodup.append h.single (List.nodup_singleton _)
      (List.disjoint_singleton.mpr fun hn => ?_)
    obtain ⟨x, hx, hxn⟩ := List.mem_map.mp hn
    have hlt := h.low x hx
    rw [hxn] at hlt
    exact Nat.lt_irrefl _ hlt
  spent := by
    intro x hx
    obtain ⟨hlt, hnot⟩ := h.spent x hx
    refine ⟨Nat.lt_succ_of_lt hlt, fun hn => ?_⟩
    rw [show (s.flight f).flights = s.flights ++ [(s.asked, f)] from rfl, List.map_append] at hn
    rcases List.mem_append.mp hn with hn | hn
    · exact hnot hn
    · rw [List.mem_singleton.mp hn] at hlt
      exact Nat.lt_irrefl _ hlt
  nodes := h.nodes
  columns := h.columns

theorem Inv.grounded (h : Inv whole hand but s) : Inv whole hand but s.grounded where
  held := h.held
  flying := h.flying
  low := fun x hx => Nat.lt_succ_of_lt (h.low x hx)
  single := h.single
  spent := fun x hx => (h.spent x hx).imp_left Nat.lt_succ_of_lt
  nodes := h.nodes
  columns := h.columns

/-! ### Entries -/

theorem update_some {A B : Type} [DecidableEq A] {f : A → Option B} {a b : A} {x : Option B}
    {y : B} (h : Function.update f a x b = some y) :
    b = a ∧ x = some y ∨ b ≠ a ∧ f b = some y := by
  by_cases hb : b = a
  · subst hb
    rw [Function.update_self] at h
    exact .inl ⟨rfl, h⟩
  · rw [Function.update_of_ne hb] at h
    exact .inr ⟨hb, h⟩

theorem awaited_setCols (he : s.cache k = some e) {c : Option Cols} {f : Fetch}
    (hf : (s.setCols k e key c).Awaited f) :
    f = .columns k key ∧ (∃ parked, c = some (.pending parked)) ∨
      f ≠ .columns k key ∧ s.Awaited f := by
  cases f with
  | nodes k' =>
    obtain ⟨e', parked, he', hn⟩ := hf
    refine .inr ⟨nofun, ?_⟩
    rcases update_some he' with ⟨rfl, heq⟩ | ⟨_, he'⟩
    · obtain rfl := Option.some.inj heq
      exact ⟨e, parked, he, hn⟩
    · exact ⟨e', parked, he', hn⟩
  | columns k' key' =>
    obtain ⟨e', parked, he', hn⟩ := hf
    rcases update_some he' with ⟨rfl, heq⟩ | ⟨hk, he'⟩
    · obtain rfl := Option.some.inj heq
      rcases update_some hn with ⟨rfl, hc⟩ | ⟨hkey, hn⟩
      · exact .inl ⟨rfl, parked, hc⟩
      · exact .inr ⟨by simpa using hkey, e, parked, he, hn⟩
    · exact .inr ⟨by simp [hk], e', parked, he', hn⟩

theorem awaited_setNodes (he : s.cache k = some e) {x : Nodes} {f : Fetch}
    (hf : (s.setSlot k (some { e with nodes := x })).Awaited f) :
    f = .nodes k ∧ (∃ parked, x = .pending parked) ∨ f ≠ .nodes k ∧ s.Awaited f := by
  cases f with
  | nodes k' =>
    obtain ⟨e', parked, he', hn⟩ := hf
    rcases update_some he' with ⟨rfl, heq⟩ | ⟨hk, he'⟩
    · obtain rfl := Option.some.inj heq
      exact .inl ⟨rfl, parked, hn⟩
    · exact .inr ⟨by simpa using hk, e', parked, he', hn⟩
  | columns k' key' =>
    obtain ⟨e', parked, he', hn⟩ := hf
    refine .inr ⟨nofun, ?_⟩
    rcases update_some he' with ⟨rfl, heq⟩ | ⟨_, he'⟩
    · obtain rfl := Option.some.inj heq
      exact ⟨e, parked, he, hn⟩
    · exact ⟨e', parked, he', hn⟩

variable {hand' : List ℕ} {but' : Fetch → Prop}

theorem Inv.setCols (h : Inv whole hand but s) (he : s.cache k = some e) (c : Option Cols)
    (hheld : Held whole s.given hand'
      (Function.update s.at_ (.columns k key) (c.elim [] Cols.ids)))
    (hpending : ∀ parked, c = some (.pending parked) →
      but' (.columns k key) ∨ s.Flying (.columns k key))
    (hbut : ∀ f, but f → f = .columns k key ∨ but' f)
    (hcols : ∀ cols n, c = some (.fetched cols n) → (n, cols) ∈ s.columns) :
    Inv whole hand' but' (s.setCols k e key c) where
  held := by
    rw [at_setCols he]
    exact hheld
  flying := by
    intro f hf
    rcases awaited_setCols he hf with ⟨rfl, parked, hc⟩ | ⟨hne, hf⟩
    · exact hpending parked hc
    · exact (h.flying f hf).imp_left fun hb => (hbut f hb).resolve_left hne
  low := h.low
  single := h.single
  spent := h.spent
  nodes := by
    intro hw k' e' nodes n he' hn
    rcases update_some he' with ⟨rfl, heq⟩ | ⟨_, he'⟩
    · obtain rfl := Option.some.inj heq
      exact h.nodes hw k' e nodes n he hn
    · exact h.nodes hw k' e' nodes n he' hn
  columns := by
    intro k' e' key' cols n he' hn
    rcases update_some he' with ⟨rfl, heq⟩ | ⟨_, he'⟩
    · obtain rfl := Option.some.inj heq
      rcases update_some hn with ⟨rfl, hc⟩ | ⟨_, hn⟩
      · exact hcols cols n hc
      · exact h.columns k' e key' cols n he hn
    · exact h.columns k' e' key' cols n he' hn

theorem Inv.setNodes (h : Inv whole hand but s) (he : s.cache k = some e) (x : Nodes)
    (hheld : Held whole s.given hand' (Function.update s.at_ (.nodes k) x.ids))
    (hpending : ∀ parked, x = .pending parked → but' (.nodes k) ∨ s.Flying (.nodes k))
    (hbut : ∀ f, but f → f = .nodes k ∨ but' f)
    (hnodes : whole → ∀ nodes n, x = .fetched nodes n → (n, nodes) ∈ s.trees) :
    Inv whole hand' but' (s.setSlot k (some { e with nodes := x })) where
  held := by
    rw [at_setNodes he]
    exact hheld
  flying := by
    intro f hf
    rcases awaited_setNodes he hf with ⟨rfl, parked, hx⟩ | ⟨hne, hf⟩
    · exact hpending parked hx
    · exact (h.flying f hf).imp_left fun hb => (hbut f hb).resolve_left hne
  low := h.low
  single := h.single
  spent := h.spent
  nodes := by
    intro hw k' e' nodes n he' hn
    rcases update_some he' with ⟨rfl, heq⟩ | ⟨_, he'⟩
    · obtain rfl := Option.some.inj heq
      exact hnodes hw nodes n hn
    · exact h.nodes hw k' e' nodes n he' hn
  columns := by
    intro k' e' key' cols n he' hn
    rcases update_some he' with ⟨rfl, heq⟩ | ⟨_, he'⟩
    · obtain rfl := Option.some.inj heq
      exact h.columns k' e key' cols n he hn
    · exact h.columns k' e' key' cols n he' hn

theorem Inv.openSlot {g : Waiting} (h : Inv whole (g.id :: hand) steady s)
    (he : s.cache k = none) :
    Inv whole hand (· = .nodes k) (s.setSlot k (some ⟨.pending [g], fun _ => none⟩)) where
  held := by
    rw [at_open he]
    exact h.held.put _
  flying := by
    intro f hf
    cases f with
    | nodes k' =>
      obtain ⟨e', parked, he', hn⟩ := hf
      rcases update_some he' with ⟨rfl, _⟩ | ⟨_, he'⟩
      · exact .inl rfl
      · exact (h.flying (.nodes k') ⟨e', parked, he', hn⟩).imp_left False.elim
    | columns k' key' =>
      obtain ⟨e', parked, he', hn⟩ := hf
      rcases update_some he' with ⟨rfl, heq⟩ | ⟨_, he'⟩
      · obtain rfl := Option.some.inj heq
        exact absurd hn nofun
      · exact (h.flying (.columns k' key') ⟨e', parked, he', hn⟩).imp_left False.elim
  low := h.low
  single := h.single
  spent := h.spent
  nodes := by
    intro hw k' e' nodes n he' hn
    rcases update_some he' with ⟨rfl, heq⟩ | ⟨_, he'⟩
    · obtain rfl := Option.some.inj heq
      exact absurd hn nofun
    · exact h.nodes hw k' e' nodes n he' hn
  columns := by
    intro k' e' key' cols n he' hn
    rcases update_some he' with ⟨rfl, heq⟩ | ⟨_, he'⟩
    · obtain rfl := Option.some.inj heq
      exact absurd hn nofun
    · exact h.columns k' e' key' cols n he' hn

/-! ### Answers and requests -/

theorem Inv.gotColumns {rows : Option (List Column)} (h : Inv whole hand (· = .columns k key) s)
    (hrows : ∀ cols, rows = some cols → (n, cols) ∈ s.columns) :
    Inv whole hand steady (s.gotColumns k key n rows) := by
  unfold Cmp.gotColumns
  cases he : s.cache k with
  | none =>
    refine { h with flying := fun f hf => .inr ?_ }
    rcases h.flying f hf with rfl | hfly
    · obtain ⟨e, parked, he', _⟩ := hf
      rw [he] at he'
      cases he'
    · exact hfly
  | some e =>
    have hids : (rows.map (Cols.fetched · n)).elim [] Cols.ids = [] := by
      cases rows with
      | none => rfl
      | some cols => rfl
    refine Inv.callBacks (columnItems (rows.getD [])) (h.setCols he _ ?_ ?_ ?_ ?_)
    · rw [hids]
      refine h.held.take (?_ : s.at_ (.columns k key) = _ ++ [])
      rw [List.append_nil, at_, he, Option.bind_some]
      rcases e.cols key with _ | _ | _
      · rfl
      · rfl
      · rfl
    · intro parked hp
      cases rows with
      | none => cases hp
      | some cols => cases hp
    · exact fun f hf => .inl hf
    · intro cols m hc
      obtain ⟨cols', hrow, heq⟩ := Option.map_eq_some_iff.mp hc
      obtain ⟨rfl, rfl⟩ := Cols.fetched.inj heq
      exact hrows cols' hrow

theorem Inv.askColumns (h : Inv whole hand (· = .columns k key) s) :
    Inv whole hand steady (s.askColumns k key) := by
  unfold Cmp.askColumns
  split
  · exact h.grounded.gotColumns nofun
  · exact h.flight

theorem Inv.withColumns (h : Inv whole (id :: hand) steady s) (schema obj : String) :
    Inv whole hand steady (s.withColumns k schema obj id) := by
  unfold Cmp.withColumns
  cases he : s.cache k with
  | none => exact h.callBack _
  | some e =>
    have hput := h.held.put (.columns k (schema ++ "." ++ obj))
    rw [at_, he, Option.bind_some] at hput
    dsimp only
    cases hc : e.cols (schema ++ "." ++ obj) with
    | none =>
      rw [hc] at hput
      refine Inv.askColumns (h.setCols he (some (.pending [id])) hput (fun _ _ => .inl rfl)
        (fun _ hf => False.elim hf) nofun)
    | some c =>
      cases c with
      | fetched cols n => exact h.callBack _
      | pending parked =>
        rw [hc] at hput
        have hfly := (h.flying (.columns k (schema ++ "." ++ obj)) ⟨e, parked, he, hc⟩).resolve_left
          False.elim
        exact h.setCols he _ hput (fun _ _ => .inr hfly) (fun _ hf => False.elim hf) nofun

theorem Inv.giveTree {g : Waiting} (h : Inv whole (g.id :: hand) steady s)
    (nodes : List Schema) : Inv whole hand steady (s.giveTree k nodes g) := by
  unfold Cmp.giveTree
  split
  · exact h.callBack _
  · split
    · exact h.callBack _
    · exact h.withColumns _ _

theorem Inv.giveTrees {parked : List Waiting} (nodes : List Schema)
    (h : Inv whole (parked.map Waiting.id ++ hand) steady s) :
    Inv whole hand steady (parked.foldl (fun s g => s.giveTree k nodes g) s) := by
  induction parked generalizing s with
  | nil => exact h
  | cons g parked ih => exact ih (h.giveTree nodes)

theorem Inv.gotNodes {rows : Option (List Schema)} (h : Inv whole hand (· = .nodes k) s)
    (hrows : whole → s.cache k ≠ none → (n, rows.getD []) ∈ s.trees) :
    Inv whole hand steady (s.gotNodes k n rows) := by
  unfold Cmp.gotNodes
  cases he : s.cache k with
  | none =>
    refine { h with flying := fun f hf => .inr ?_ }
    rcases h.flying f hf with rfl | hfly
    · obtain ⟨e, parked, he', _⟩ := hf
      rw [he] at he'
      cases he'
    · exact hfly
  | some e =>
    refine Inv.giveTrees (rows.getD []) (h.setNodes he _ ?_
      (fun _ hx => by cases hx) (fun f hf => .inl hf) ?_)
    · refine h.held.take (?_ : s.at_ (.nodes k) = _ ++ [])
      rw [List.append_nil, at_, he]
      rcases hn : e.nodes with _ | _
      · simp [hn, Nodes.ids]
      · simp [hn, Nodes.ids]
    · intro hw nodes m hx
      obtain ⟨rfl, rfl⟩ := Nodes.fetched.inj hx
      exact hrows hw (by rw [he]; exact Option.some_ne_none e)

theorem Inv.askNodes (h : Inv whole hand (· = .nodes k) s) (hw : whole → s.down = false) :
    Inv whole hand steady (s.askNodes k) := by
  unfold Cmp.askNodes
  split
  · next hdown =>
    refine h.grounded.gotNodes fun hwhole => ?_
    rw [hw hwhole] at hdown
    exact absurd hdown nofun
  · exact h.flight

theorem Inv.withStructure {g : Waiting} (h : Inv whole (g.id :: hand) steady s)
    (hw : whole → s.down = true → s.cache k ≠ none) :
    Inv whole hand steady (s.withStructure k g) := by
  unfold Cmp.withStructure
  cases he : s.cache k with
  | none =>
    refine (h.openSlot he).askNodes fun hwhole => ?_
    cases hdown : s.down with
    | false => exact hdown
    | true => exact absurd he (hw hwhole hdown)
  | some e =>
    dsimp only
    cases hn : e.nodes with
    | fetched nodes n => exact h.giveTree nodes
    | pending parked =>
      have hput := h.held.put (.nodes k)
      rw [at_, he] at hput
      simp only [Option.elim_some, hn, Nodes.ids] at hput
      have hfly := (h.flying (.nodes k) ⟨e, parked, he, hn⟩).resolve_left False.elim
      refine h.setNodes he _ ?_ (fun _ _ => .inr hfly) (fun _ hf => False.elim hf) fun _ => nofun
      rw [Nodes.ids, List.map_append]
      exact hput

theorem Inv.issue (h : Inv whole hand but s) : Inv whole (s.given :: hand) but s.issue where
  held := h.held.issue
  flying := h.flying
  low := h.low
  single := h.single
  spent := h.spent
  nodes := h.nodes
  columns := h.columns

theorem Inv.invalidate (h : Inv whole hand but s) (conn : Option ConnId)
    (hw : whole → s.Sound (.invalidate conn)) : Inv whole hand but (s.invalidate conn) := by
  cases conn with
  | none => exact h
  | some k =>
    refine ⟨h.held.lose (fun p => (at_invalidate s k p).imp_right And.left) fun hwhole p => ?_,
      fun f hf => ?_, h.low, h.single, h.spent, fun hwhole k' e nodes n he => ?_,
      fun k' e key cols n he => ?_⟩
    · obtain ⟨hnodes, hcols⟩ := hw hwhole
      rcases at_invalidate s k p with hp | ⟨hp, rfl | ⟨key, rfl⟩⟩
      · exact hp
      · exact hp.trans hnodes.symm
      · exact hp.trans (hcols key).symm
    · cases f with
      | nodes k' =>
        obtain ⟨e, parked, he, hn⟩ := hf
        rcases update_some he with ⟨_, heq⟩ | ⟨_, he⟩
        · exact absurd heq nofun
        · exact h.flying (.nodes k') ⟨e, parked, he, hn⟩
      | columns k' key =>
        obtain ⟨e, parked, he, hn⟩ := hf
        rcases update_some he with ⟨_, heq⟩ | ⟨_, he⟩
        · exact absurd heq nofun
        · exact h.flying (.columns k' key) ⟨e, parked, he, hn⟩
    · rcases update_some he with ⟨_, heq⟩ | ⟨_, he⟩
      · exact absurd heq nofun
      · exact h.nodes hwhole k' e nodes n he
    · rcases update_some he with ⟨_, heq⟩ | ⟨_, he⟩
      · exact absurd heq nofun
      · exact h.columns k' e key cols n he

theorem landed_number (h : Inv whole hand but s) {f : Fetch} (hn : (n, f) ∈ s.flights) :
    n ∉ (s.landed n f).flights.map Prod.fst := by
  intro hmem
  obtain ⟨⟨m, g⟩, hg, rfl⟩ := List.mem_map.mp hmem
  have heq : (m, g) = (m, f) :=
    List.inj_on_of_nodup_map h.single (List.mem_of_mem_erase hg) hn rfl
  rw [heq] at hg
  exact h.single.of_map.not_mem_erase hg

theorem Inv.landed {f : Fetch} (h : Inv whole hand steady s) (n : ℕ) :
    Inv whole hand (· = f) (s.landed n f) where
  held := h.held
  flying := by
    intro g hg
    obtain ⟨m, hm⟩ := (h.flying g hg).resolve_left False.elim
    by_cases hf : g = f
    · exact .inl hf
    · refine .inr ⟨m, (List.mem_erase_of_ne fun heq => hf ?_).mpr hm⟩
      exact (Prod.mk.inj heq).2
  low := fun x hx => h.low x (List.mem_of_mem_erase hx)
  single := h.single.sublist (List.erase_sublist.map _)
  spent := fun x hx => (h.spent x hx).imp_right fun hnot hmem =>
    hnot ((List.erase_sublist.map _).subset hmem)
  nodes := h.nodes
  columns := h.columns

theorem Inv.addTrees (h : Inv whole hand but s) (trees : List (ℕ × List Schema))
    (hx : ∀ x ∈ trees, x.1 < s.asked ∧ x.1 ∉ s.flights.map Prod.fst) :
    Inv whole hand but { s with trees := s.trees ++ trees } where
  held := h.held
  flying := h.flying
  low := h.low
  single := h.single
  spent := fun x hmem => (List.mem_append.mp hmem).elim (h.spent x) (hx x)
  nodes := fun hw k e nodes n he hn => List.mem_append_left _ (h.nodes hw k e nodes n he hn)
  columns := h.columns

theorem Inv.addColumns (h : Inv whole hand but s) (columns : List (ℕ × List Column)) :
    Inv whole hand but { s with columns := s.columns ++ columns } where
  held := h.held
  flying := h.flying
  low := h.low
  single := h.single
  spent := h.spent
  nodes := h.nodes
  columns := fun k e key cols n he hn => List.mem_append_left _ (h.columns k e key cols n he hn)

/-! ### Steps -/

theorem at_schedule (s : Cmp) (l : List ℕ) :
    ({ s with scheduled := l } : Cmp).at_ = Function.update s.at_ .scheduled l := by
  funext p
  cases p <;> simp [at_]

theorem Inv.schedule (l : List ℕ) (h : Inv whole hand but s)
    (hheld : Held whole s.given hand' (Function.update s.at_ .scheduled l)) :
    Inv whole hand' but { s with scheduled := l } where
  held := by
    rw [at_schedule]
    exact hheld
  flying := h.flying
  low := h.low
  single := h.single
  spent := h.spent
  nodes := h.nodes
  columns := h.columns

theorem inv_new : Inv whole [] steady new where
  held := by
    have hat : new.at_ = fun _ => [] := by
      funext p
      cases p <;> rfl
    rw [hat]
    exact .nothing
  flying := by
    intro f hf
    cases f with
    | nodes k => exact absurd hf.choose_spec.choose_spec.1 nofun
    | columns k key => exact absurd hf.choose_spec.choose_spec.1 nofun
  low := nofun
  single := List.nodup_nil
  spent := nofun
  nodes := fun _ _ _ _ _ he => absurd he nofun
  columns := fun _ _ _ _ _ he => absurd he nofun

theorem inv_step (h : Inv whole [] steady s) {i : Event} (hw : whole → s.Sound i)
    (hst : s.step i = some t) : Inv whole [] steady t := by
  cases i with
  | get conn dotted =>
    obtain rfl := Option.some.inj hst
    cases conn with
    | none => exact h.issue.schedule _ (h.issue.held.put .scheduled)
    | some k => exact h.issue.withStructure hw
  | scheduled =>
    unfold step at hst
    cases hq : s.scheduled with
    | nil =>
      rw [hq] at hst
      exact absurd hst nofun
    | cons id rest =>
      rw [hq] at hst
      obtain rfl := Option.some.inj hst
      have htake : Held whole s.given ([id] ++ []) (Function.update s.at_ .scheduled rest) :=
        h.held.take hq
      exact (h.schedule rest htake).callBack []
  | nodes n k rows =>
    obtain ⟨hn, heq⟩ := Option.ite_none_right_eq_some.mp hst
    obtain rfl := Option.some.inj heq
    have hland : Inv whole [] (· = .nodes k) (s.landed n (.nodes k)) := h.landed n
    refine (hland.addTrees _ fun x hx => ?_).gotNodes fun hwhole he => ?_
    · obtain ⟨nodes, _, rfl⟩ := Option.map_eq_some_iff.mp (Option.mem_toList.mp hx)
      exact ⟨h.low _ hn, landed_number h hn⟩
    · cases rows with
      | none => exact absurd (hw hwhole) he
      | some nodes => exact List.mem_append_right _ (List.mem_singleton_self _)
  | columns n k key rows =>
    obtain ⟨hn, heq⟩ := Option.ite_none_right_eq_some.mp hst
    obtain rfl := Option.some.inj heq
    have hland : Inv whole [] (· = .columns k key) (s.landed n (.columns k key)) := h.landed n
    refine (hland.addColumns _).gotColumns fun cols hrows => ?_
    rw [hrows]
    exact List.mem_append_right _ (List.mem_singleton_self _)
  | invalidate conn =>
    obtain rfl := Option.some.inj hst
    exact h.invalidate conn hw
  | engine down =>
    obtain rfl := Option.some.inj hst
    exact { h with }

/-! ### Promises -/

theorem awaited_of_mem_nodes (h : id ∈ s.at_ (.nodes k)) : s.Awaited (.nodes k) := by
  rw [at_] at h
  cases he : s.cache k with
  | none =>
    rw [he] at h
    exact absurd h List.not_mem_nil
  | some e =>
    rw [he, Option.elim_some] at h
    cases hn : e.nodes with
    | pending parked => exact ⟨e, parked, he, hn⟩
    | fetched nodes n =>
      rw [hn] at h
      exact absurd h List.not_mem_nil

theorem awaited_of_mem_columns (h : id ∈ s.at_ (.columns k key)) :
    s.Awaited (.columns k key) := by
  rw [at_] at h
  cases he : s.cache k with
  | none =>
    rw [he] at h
    exact absurd h List.not_mem_nil
  | some e =>
    rw [he, Option.bind_some] at h
    cases hn : e.cols key with
    | none =>
      rw [hn] at h
      exact absurd h List.not_mem_nil
    | some c =>
      cases c with
      | pending parked => exact ⟨e, parked, he, hn⟩
      | fetched cols n =>
        rw [hn] at h
        exact absurd h List.not_mem_nil

theorem flying_flight (s : Cmp) (f : Fetch) : (s.flight f).Flying f :=
  ⟨s.asked, List.mem_append_right _ (List.mem_singleton_self _)⟩

theorem fetches_of {e : Slot} {nodes : List Schema} {dotted : Option String}
    (he : s.cache k = some e) (hn : e.nodes = .fetched nodes n)
    (hcols : ∀ d schema obj, dotted = some d → firstObject nodes d = some (schema, obj) →
      s.Flying (.columns k (schema ++ "." ++ obj)) ∨
        ∃ cols n, e.cols (schema ++ "." ++ obj) = some (.fetched cols n)) :
    s.Fetches k dotted := .inr ⟨e, nodes, n, he, hn, hcols⟩

theorem fetches_giveTree {nodes : List Schema} {g : Waiting} (h : Inv whole hand steady s)
    (hdown : s.down = false) (he : s.cache k = some e) (hn : e.nodes = .fetched nodes n) :
    (s.giveTree k nodes g).Fetches k g.dotted := by
  unfold giveTree
  split
  · next hd => exact fetches_of he hn fun d _ _ hdot => absurd (hd.symm.trans hdot) nofun
  · next dotted hd =>
    rw [hd]
    split
    · next hobj =>
      refine fetches_of he hn fun d schema obj hdot hfirst => ?_
      obtain rfl := Option.some.inj hdot
      exact absurd (hobj.symm.trans hfirst) nofun
    · next schema obj hobj =>
      have hsame : ∀ {d schema' obj'}, some dotted = some d →
          firstObject nodes d = some (schema', obj') → schema' = schema ∧ obj' = obj := by
        intro d schema' obj' hdot hfirst
        obtain rfl := Option.some.inj hdot
        exact Prod.mk.inj (Option.some.inj (hfirst.symm.trans hobj))
      unfold withColumns
      rw [he]
      dsimp only
      cases hc : e.cols (schema ++ "." ++ obj) with
      | none =>
        dsimp only
        unfold askColumns
        rw [show (s.setCols k e (schema ++ "." ++ obj) (some (.pending [g.id]))).down = false
          from hdown]
        refine fetches_of (Function.update_self ..) hn fun d schema' obj' hdot hfirst => ?_
        obtain ⟨rfl, rfl⟩ := hsame hdot hfirst
        exact .inl (flying_flight _ _)
      | some c =>
        cases c with
        | pending parked =>
          refine fetches_of (Function.update_self ..) hn fun d schema' obj' hdot hfirst => ?_
          obtain ⟨rfl, rfl⟩ := hsame hdot hfirst
          exact .inl ((h.flying (.columns k (schema' ++ "." ++ obj'))
            ⟨e, parked, he, hc⟩).resolve_left False.elim)
        | fetched cols m =>
          refine fetches_of he hn fun d schema' obj' hdot hfirst => ?_
          obtain ⟨rfl, rfl⟩ := hsame hdot hfirst
          exact .inr ⟨cols, m, hc⟩

theorem fetches_get (h : Inv whole [] steady s) (hdown : s.down = false) (k : ConnId)
    (dotted : Option String) : (s.get (some k) dotted).Fetches k dotted := by
  unfold get withStructure
  dsimp only
  cases he : s.cache k with
  | none =>
    refine .inl ?_
    rw [show s.issue.cache k = none from he]
    dsimp only
    unfold askNodes
    rw [show (s.issue.setSlot k (some ⟨.pending [⟨s.given, dotted⟩], fun _ => none⟩)).down = false
      from hdown]
    exact flying_flight _ _
  | some e =>
    rw [show s.issue.cache k = some e from he]
    dsimp only
    cases hn : e.nodes with
    | pending parked =>
      exact .inl ((h.flying (.nodes k) ⟨e, parked, he, hn⟩).resolve_left False.elim)
    | fetched nodes n => exact fetches_giveTree h.issue hdown he hn

theorem Inv.answers (h : Inv True [] steady s) : s.Answers where
  once := by
    intro id hid
    obtain ⟨p, hp⟩ := (h.held.all trivial id hid).resolve_left List.not_mem_nil
    by_cases hcalled : p = .called
    · subst hcalled
      exact .inl (h.held.count_one hp)
    · refine .inr ⟨List.count_eq_zero.mpr fun hc => hcalled (h.held.unique _ _ id hp hc), ?_⟩
      cases p with
      | called => exact absurd rfl hcalled
      | scheduled => exact .inl hp
      | nodes k =>
        exact .inr (.inl ⟨k, hp, (h.flying _ (awaited_of_mem_nodes hp)).resolve_left False.elim⟩)
      | columns k key =>
        exact .inr (.inr ⟨k, key, hp,
          (h.flying _ (awaited_of_mem_columns hp)).resolve_left False.elim⟩)
  nodes := h.nodes trivial
  columns := h.columns
  again := fun hdown k dotted => fetches_get h hdown k dotted

/-- Where the promises hold no step has been unsound. -/
theorem Answers.inv (ha : s.Answers) (h : Inv False [] steady s) : Inv True [] steady s :=
  { h with
    held := { h.held with
      all := by
        intro _ id hid
        right
        rcases ha.once id hid with hone | ⟨_, hp | ⟨k, hp, _⟩ | ⟨k, key, hp, _⟩⟩
        · exact ⟨.called, List.count_pos_iff.mp (by omega)⟩
        · exact ⟨.scheduled, hp⟩
        · exact ⟨.nodes k, hp⟩
        · exact ⟨.columns k key, hp⟩ }
    nodes := fun _ => ha.nodes }

theorem giveTree_nothing (s : Cmp) (k : ConnId) (g : Waiting) :
    s.giveTree k [] g = s.callBack g.id [] := by
  unfold giveTree
  split
  · rfl
  · rfl

/-- A failure calls back what is parked on it, and is remembered. -/
theorem giveTrees_nothing (s : Cmp) (k : ConnId) (parked : List Waiting) :
    (parked.foldl (fun s g => s.giveTree k [] g) s).cache = s.cache ∧
      (parked.foldl (fun s g => s.giveTree k [] g) s).trees = s.trees := by
  induction parked generalizing s with
  | nil => exact ⟨rfl, rfl⟩
  | cons g parked ih =>
    rw [List.foldl_cons, giveTree_nothing]
    exact ih _

theorem gotNodes_failed (he : s.cache k = some e) (n : ℕ) :
    (∃ e', (s.gotNodes k n none).cache k = some e' ∧ e'.nodes = .fetched [] n) ∧
      (s.gotNodes k n none).trees = s.trees := by
  unfold gotNodes
  rw [he]
  obtain ⟨hcache, htrees⟩ := giveTrees_nothing
    (s.setSlot k (some { e with nodes := .fetched [] n })) k _
  exact ⟨⟨{ e with nodes := .fetched [] n }, (congrFun hcache k).trans (Function.update_self ..),
    rfl⟩, htrees⟩

/-- The callbacks that an invalidation drops are nowhere. -/
theorem dropped (h : Inv whole [] steady s) (ha : (s.setSlot k none).Answers) {p : Spot}
    (hp : (s.setSlot k none).at_ p = []) : s.at_ p = [] := by
  refine List.eq_nil_iff_forall_not_mem.mpr fun id hid => ?_
  have hlost : ∀ q, id ∉ (s.setSlot k none).at_ q := by
    intro q hq
    rcases at_invalidate s k q with heq | ⟨heq, _⟩
    · have hmem : id ∈ s.at_ q := heq ▸ hq
      obtain rfl := h.held.unique p q id hid hmem
      rw [hp] at hq
      exact List.not_mem_nil hq
    · rw [heq] at hq
      exact List.not_mem_nil hq
  rcases ha.once id (h.held.within p id hid) with hone | ⟨_, hw | ⟨_, hw, _⟩ | ⟨_, _, hw, _⟩⟩
  · exact hlost .called (List.count_pos_iff.mp (by omega))
  · exact hlost _ hw
  · exact hlost _ hw
  · exact hlost _ hw

theorem get_failed (hdown : s.down = true) (he : s.cache k = none) (dotted : Option String) :
    (∃ e, (s.get (some k) dotted).cache k = some e ∧ e.nodes = .fetched [] s.asked) ∧
      (s.get (some k) dotted).trees = s.trees := by
  have hget : s.get (some k) dotted = (s.issue.setSlot k
      (some ⟨.pending [⟨s.given, dotted⟩], fun _ => none⟩)).grounded.gotNodes k s.asked none := by
    unfold get withStructure
    dsimp only
    rw [show s.issue.cache k = none from he]
    dsimp only
    unfold askNodes
    rw [show (s.issue.setSlot k (some ⟨.pending [⟨s.given, dotted⟩], fun _ => none⟩)).down = true
      from hdown]
    rfl
  rw [hget]
  exact gotNodes_failed (Function.update_self ..) s.asked

/-- An unsound step breaks a promise. -/
theorem Answers.sound (ha : t.Answers) (h : Inv whole [] steady s) {i : Event}
    (hst : s.step i = some t) : s.Sound i := by
  cases i with
  | get conn dotted =>
    cases conn with
    | none => trivial
    | some k =>
      intro hdown he
      obtain rfl := Option.some.inj hst
      obtain ⟨⟨e, he', hn⟩, htrees⟩ := get_failed hdown he dotted
      have hmem := ha.nodes k e [] s.asked he' hn
      rw [htrees] at hmem
      exact Nat.lt_irrefl _ (h.spent _ hmem).1
  | nodes n k rows =>
    cases rows with
    | some nodes => trivial
    | none =>
      obtain ⟨hn, heq⟩ := Option.ite_none_right_eq_some.mp hst
      obtain rfl := Option.some.inj heq
      refine Option.eq_none_iff_forall_ne_some.mpr fun e he => ?_
      obtain ⟨⟨e', he', hn'⟩, htrees⟩ := gotNodes_failed (s := { s.landed n (.nodes k) with
        trees := s.trees ++ ((none : Option (List Schema)).map (n, ·)).toList }) he n
      have hmem := ha.nodes k e' [] n he' hn'
      rw [htrees] at hmem
      have hold : (n, []) ∈ s.trees := by simpa using hmem
      exact (h.spent _ hold).2 (List.mem_map_of_mem hn)
  | invalidate conn =>
    cases conn with
    | none => trivial
    | some k =>
      obtain rfl := Option.some.inj hst
      refine ⟨dropped h ha ?_, fun key => dropped h ha ?_⟩
      · simp [at_, setSlot]
      · simp [at_, setSlot]
  | scheduled => trivial
  | columns n k key rows => trivial
  | engine down => trivial

end Cmp

open Cmp

/-- Every callback is called once and nothing is remembered that no fetch has brought, in all
states of a run, exactly when each step of the run is sound. -/
theorem callbacks_answered_iff {is : List Event} {s : Cmp}
    (h : cmpMachine.Run Lib.Machine.free Cmp.new is s) :
    cmpMachine.Throughout Cmp.new is Answers ↔ cmpMachine.Run Sound Cmp.new is s := by
  refine h.throughout_iff_with (Inv False [] steady) Answers (fun s i t _ hk _ hst => ?_)
    (fun s i t hk ha hst => ⟨fun ht => ht.sound hk hst, fun hg => ?_⟩) inv_new
    (inv_new : Inv True [] steady new).answers
  · exact inv_step hk False.elim hst
  · exact (inv_step (ha.inv hk) (fun _ => hg) hst).answers

/-- Two requests that wait for the same nodes, and a third that finds them. -/
def threeRequests : List Event :=
  [.get (some 0) none, .get (some 0) (some "users"), .nodes 0 0 (some [⟨none, []⟩]),
    .get (some 0) none]

theorem callbacks_answered_iff_three : ∃ s, cmpMachine.exec .new threeRequests = some s ∧
    cmpMachine.Throughout .new threeRequests Answers := by
  obtain ⟨s, hs, hrun⟩ := Lib.Machine.exists_run cmpMachine .new threeRequests rfl
  refine ⟨s, hs, (callbacks_answered_iff hrun).mpr ?_⟩
  obtain rfl := Option.some.inj hs
  exact .cons nofun rfl (.cons nofun rfl (.cons trivial rfl (.cons nofun rfl (.nil _))))

/-- The nodes of a connection cannot be read. -/
def failedNodes : List Event := [.get (some 0) none, .nodes 0 0 none]

/-- A connection is closed while its nodes are on the way. -/
def closedEarly : List Event :=
  [.get (some 0) none, .invalidate (some 0), .nodes 0 0 (some [])]

/-- After a failure nothing is fetched again; what is parked when a connection is closed is never
called. -/
theorem failure_kept_callback_lost :
    (∃ s, cmpMachine.exec .new failedNodes = some s ∧ s.trees = [] ∧ s.flights = [] ∧
      (s.get (some 0) none).flights = [] ∧ ¬ s.Answers) ∧
    ∃ s, cmpMachine.exec .new closedEarly = some s ∧ s.given = 1 ∧ s.flights = [] ∧
      s.scheduled = [] ∧ s.calls = [] ∧ ¬ s.Answers := by
  refine ⟨⟨_, rfl, rfl, rfl, rfl, fun h => ?_⟩, _, rfl, rfl, rfl, rfl, rfl, fun h => ?_⟩
  · exact absurd (h.nodes 0 _ [] 0 rfl rfl) List.not_mem_nil
  · rcases h.once 0 (by decide) with hone | ⟨_, hw | ⟨_, _, _, hf⟩ | ⟨_, _, _, _, hf⟩⟩
    · exact absurd hone nofun
    · exact List.not_mem_nil hw
    · exact List.not_mem_nil hf
    · exact List.not_mem_nil hf

end LvimDb.Completion
