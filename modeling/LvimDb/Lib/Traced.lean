import LvimDb.Lib.Replace

/-!
# Where the elements of a text are from

An element of a marked text carries its place in the text the replacements began with; what was
written over a hole carries none.
-/

namespace Lib
variable {α γ : Type*}

/-! ### Places -/

/-- The text with the place of each of its elements. -/
def marked (t : List γ) : List (γ × Option ℕ) := t.zipIdx.map fun c => (c.1, some c.2)

/-- A text that is written over a hole. -/
def unmarked (v : List γ) : List (γ × Option ℕ) := v.map fun c => (c, none)

def places (s : List (γ × Option ℕ)) : List ℕ := s.filterMap Prod.snd

/-- What is written has no place. -/
def Unplaced (σ : List (List γ × List (γ × Option ℕ))) : Prop := ∀ h ∈ σ, places h.2 = []

theorem marked_fst (t : List γ) : (marked t).map Prod.fst = t := by
  simp [marked, Function.comp_def]

theorem unmarked_fst (v : List γ) : (unmarked v).map Prod.fst = v := by
  simp [unmarked, Function.comp_def]

theorem places_marked (t : List γ) : places (marked t) = List.range t.length := by
  have hsnd : (Prod.snd ∘ fun c : γ × ℕ => (c.1, some c.2)) = some ∘ Prod.snd := rfl
  rw [places, marked, List.filterMap_map, hsnd, List.filterMap_eq_map, List.zipIdx_map_snd,
    List.range_eq_range']

theorem places_unmarked (v : List γ) : places (unmarked v) = [] := by
  simp [places, unmarked]

theorem places_append (s s' : List (γ × Option ℕ)) : places (s ++ s') = places s ++ places s' :=
  List.filterMap_append

theorem mem_places {s : List (γ × Option ℕ)} {g : γ × Option ℕ} {i : ℕ} (hmem : g ∈ s)
    (hg : g.2 = some i) : i ∈ places s :=
  List.mem_filterMap.mpr ⟨g, hmem, hg⟩

/-- A list of holes with the texts that are written over them. -/
def unplaced (hs : List (List γ × List γ)) : List (List γ × List (γ × Option ℕ)) :=
  hs.map fun h => (h.1, unmarked h.2)

theorem unplaced_unplaced (hs : List (List γ × List γ)) : Unplaced (unplaced hs) := by
  intro h hh
  obtain ⟨h, _, rfl⟩ := List.mem_map.mp hh
  exact places_unmarked h.2

theorem unplaced_fst (hs : List (List γ × List γ)) :
    ((unplaced hs).map fun h => (h.1, h.2.map Prod.fst)) = hs := by
  simp [unplaced, Function.comp_def, unmarked_fst]

theorem unplaced_proper {hs : List (List γ × List γ)} (h' : Proper hs) : Proper (unplaced hs) := by
  intro h hh
  obtain ⟨h, hmem, rfl⟩ := List.mem_map.mp hh
  exact h' h hmem

/-- An element with a place stands in a text once. -/
theorem append_unique {pre pre' post post' : List (γ × Option ℕ)} {g : γ × Option ℕ} {i : ℕ}
    (hg : g.2 = some i) (hnd : (places (pre ++ g :: post)).Nodup)
    (heq : pre ++ g :: post = pre' ++ g :: post') : pre = pre' := by
  have hone : ∀ {x y z : List (γ × Option ℕ)}, (places (x ++ g :: y ++ g :: z)).Nodup → False := by
    intro x y z hnd
    rw [places_append, List.nodup_append] at hnd
    exact hnd.2.2 i (mem_places (by simp) hg) i (mem_places List.mem_cons_self hg) rfl
  rcases List.append_eq_append_iff.mp heq with ⟨x, rfl, hx⟩ | ⟨x, rfl, hx⟩
  · cases x with
    | nil => simp
    | cons d x =>
      obtain ⟨rfl, _⟩ := List.cons.inj hx
      rw [heq] at hnd
      exact (hone hnd).elim
  · cases x with
    | nil => simp
    | cons d x =>
      obtain ⟨rfl, _⟩ := List.cons.inj hx
      exact (hone hnd).elim

/-! ### The occurrences -/

section
variable [DecidableEq γ] (f : α → γ)

def readsFrom (needle : List γ) : ℕ → List α → List (List α)
  | _, [] => []
  | k + 1, _ :: s => readsFrom needle k s
  | 0, c :: s =>
    if needle <+: (c :: s).map f then
      (c :: s).take needle.length :: readsFrom needle (needle.length - 1) s
    else readsFrom needle 0 s

/-- The occurrences that are replaced, in their order. -/
def reads (needle : List γ) (s : List α) : List (List α) := readsFrom f needle 0 s

/-- Those of one replacement after the other. -/
def allReads : List (List γ × List α) → List α → List (List α)
  | [], _ => []
  | h :: hs, s => reads f h.1 s ++ allReads hs (replace f h.1 h.2 s)

end

variable [DecidableEq γ] {f : α → γ} {σ : List (List γ × List α)} {needle t : List γ} {o s : List α} {c : α}

theorem readsFrom_drop (k : ℕ) (s : List α) :
    readsFrom f needle k s = reads f needle (s.drop k) := by
  induction k generalizing s with
  | zero => rfl
  | succ k ih =>
    cases s with
    | nil => rfl
    | cons c s => exact ih s

theorem reads_miss (hp : ¬ needle <+: (c :: s).map f) :
    reads f needle (c :: s) = reads f needle s := by
  rw [reads, readsFrom, if_neg hp]
  rfl

theorem reads_hit (hne : needle ≠ []) (ho : o.map f = needle) (s : List α) :
    reads f needle (o ++ s) = o :: reads f needle s := by
  have hlen : o.length = needle.length := by rw [← ho, List.length_map]
  have hp : needle <+: (o ++ s).map f := by
    rw [List.map_append, ho]
    exact List.prefix_append _ _
  cases o with
  | nil => exact absurd ho.symm hne
  | cons c o =>
    rw [List.cons_append] at hp ⊢
    rw [reads, readsFrom, if_pos hp, readsFrom_drop, ← hlen, List.length_cons, Nat.add_sub_cancel,
      List.drop_left, ← List.cons_append, ← List.length_cons, List.take_left]

/-- Every occurrence of a bracketed needle is replaced. -/
theorem mem_reads {l r : γ} (hlr : l ≠ r) (hb : Bracketed l r needle) :
    o ∈ reads f needle s ↔ ∃ pre post, s = pre ++ o ++ post ∧ o.map f = needle := by
  have hne : needle ≠ [] := hb.ne_nil
  have hσ : Proper [(needle, ([] : List α))] := fun h hh => by rwa [List.mem_singleton.mp hh]
  induction s using fill_induction (f := f) hσ with
  | nil =>
    refine iff_of_false List.not_mem_nil ?_
    rintro ⟨pre, post, heq, ho⟩
    have hnil : o = [] := by
      have := congrArg List.length heq
      simp only [List.length_nil, List.length_append] at this
      exact List.eq_nil_of_length_eq_zero (by omega)
    rw [hnil] at ho
    exact hne ho.symm
  | hit h p s h' hp ih =>
    obtain rfl : h = (needle, []) := List.mem_singleton.mp (first_starts h').1
    have hs : o ∈ reads f needle s ↔ ∃ pre post, s = pre ++ o ++ post ∧ o.map f = needle := ih
    rw [reads_hit hne hp, List.mem_cons, hs]
    constructor
    · rintro (rfl | ⟨pre, post, rfl, ho⟩)
      · exact ⟨[], s, rfl, hp⟩
      · exact ⟨p ++ pre, post, by simp only [List.append_assoc], ho⟩
    · rintro ⟨pre, post, heq, ho⟩
      have hp : p.map f = needle := hp
      have hmap : [] ++ needle ++ s.map f = pre.map f ++ needle ++ post.map f := by
        have := congrArg (List.map f) heq
        simpa only [List.map_append, hp, ho, List.nil_append] using this
      have hpos : 0 < needle.length := List.length_pos_of_ne_nil hne
      have hlp : p.length = needle.length := by rw [← hp, List.length_map]
      have hlo : o.length = needle.length := by rw [← ho, List.length_map]
      rcases hb.overlap hlr hb hmap with h | h | ⟨h, _⟩
      · simp only [List.length_nil, List.length_map] at h
        have hpre : p <+: pre := by
          refine List.prefix_of_prefix_length_le ⟨s, heq⟩ ?_ (by omega)
          rw [List.append_assoc]
          exact List.prefix_append _ _
        obtain ⟨pre', rfl⟩ := hpre
        refine .inr ⟨pre', post, ?_, ho⟩
        simpa only [List.append_assoc, List.append_cancel_left_eq] using heq
      · simp only [List.length_nil, List.length_map] at h
        omega
      · have hnil : pre = [] := by
          rw [List.length_nil, List.length_map] at h
          exact List.eq_nil_of_length_eq_zero h.symm
        rw [hnil, List.nil_append] at heq
        exact .inl (List.append_inj heq (by omega)).1.symm
  | miss c s h' ih =>
    have hmiss : ¬ needle <+: (c :: s).map f :=
      first_none.mp h' (needle, []) (List.mem_singleton_self _)
    have hs : o ∈ reads f needle s ↔ ∃ pre post, s = pre ++ o ++ post ∧ o.map f = needle := ih
    rw [reads_miss hmiss, hs]
    constructor
    · rintro ⟨pre, post, rfl, ho⟩
      exact ⟨c :: pre, post, rfl, ho⟩
    · rintro ⟨pre, post, heq, ho⟩
      cases pre with
      | nil =>
        refine absurd ?_ hmiss
        rw [heq, List.nil_append, List.map_append, ho]
        exact List.prefix_append _ _
      | cons d pre => exact ⟨pre, post, (List.cons.inj heq).2, ho⟩

/-! ### The places of a filled text -/

section
variable {σ : List (List γ × List (γ × Option ℕ))} {s o : List (γ × Option ℕ)} {g : γ × Option ℕ}

theorem places_fill (hσ : Proper σ) (hv : Unplaced σ) (s : List (γ × Option ℕ)) :
    (places (fill Prod.fst σ s)).Sublist (places s) := by
  induction s using fill_induction (f := Prod.fst) hσ with
  | nil => exact List.Sublist.refl _
  | hit h o s h' ho ih =>
    have hmem := (first_starts h').1
    rw [fill_hit (hσ h hmem) h' ho, places_append, places_append, hv h hmem, List.nil_append]
    exact ih.trans (List.sublist_append_right _ _)
  | miss c s h' ih =>
    have hcons : ∀ x, places (c :: x) = places [c] ++ places x := fun x => places_append [c] x
    rw [fill_miss h', hcons, hcons s]
    exact ih.append_left (places [c])

/-- Where every occurrence is made of neighbours in the text, it is one of the text's own. -/
theorem clean_of_infix (hσ : Proper σ) (hv : Unplaced σ) (hne : needle ≠ [])
    (hap : ApartFrom Prod.fst σ needle (marked t))
    (hin : ∀ pre o post, fill Prod.fst σ (marked t) = pre ++ o ++ post → o.map Prod.fst = needle →
      o <:+: marked t) : Clean Prod.fst σ needle (marked t) := by
  intro pre o post hpre ho
  obtain ⟨a, b, hs⟩ := hin pre o post hpre ho
  have hnd : (places (fill Prod.fst σ (marked t))).Nodup := by
    refine (places_fill hσ hv _).nodup ?_
    rw [places_marked]
    exact List.nodup_range
  rw [← hs] at hap
  have hsplit := fill_split hσ hne ho hap
  rw [hs] at hsplit
  cases o with
  | nil => exact absurd ho.symm hne
  | cons g o =>
    obtain ⟨i, hi⟩ : ∃ i, g.2 = some i := by
      have hmem : g ∈ marked t := by
        rw [← hs]
        simp
      obtain ⟨c, _, rfl⟩ := List.mem_map.mp hmem
      exact ⟨c.2, rfl⟩
    rw [hpre] at hsplit hnd
    simp only [List.append_assoc, List.cons_append] at hsplit hnd
    obtain rfl : pre = fill Prod.fst σ a := append_unique hi hnd hsplit
    rw [List.append_cancel_left_eq, List.cons.injEq, List.append_cancel_left_eq] at hsplit
    exact ⟨a, b, hs.symm, rfl, hsplit.2.symm⟩

omit [DecidableEq γ] in
theorem apart_marked {hs : List (List γ × List γ)} (h' : ApartFrom id hs needle t) :
    ApartFrom Prod.fst (unplaced hs) needle (marked t) := by
  intro h hh
  obtain ⟨h, hmem, rfl⟩ := List.mem_map.mp hh
  have hap := h' h hmem
  rw [List.map_id] at hap
  dsimp only
  rw [marked_fst]
  exact hap

/-- The places do not matter to what a text has. -/
theorem clean_marked_iff {hs : List (List γ × List γ)} (hσ : Proper hs) (hne : needle ≠ [])
    (hap : ApartFrom id hs needle t) :
    Clean Prod.fst (unplaced hs) needle (marked t) ↔ Clean id hs needle t := by
  have hmap := clean_map_iff (f := id) Prod.fst (unplaced_proper hσ) hne (apart_marked hap)
  rw [unplaced_fst, marked_fst] at hmap
  exact hmap.symm

/-! ### One replacement after the other -/

variable {l r : γ}

/-- The holes of a list can be told apart. -/
structure Holes (l r : γ) (hs : List (List γ × List γ)) : Prop where
  bracketed : ∀ h ∈ hs, Bracketed l r h.1
  distinct : (hs.map Prod.fst).Nodup

omit [DecidableEq γ] in
theorem Holes.proper {hs : List (List γ × List γ)} (h' : Holes l r hs) : Proper hs :=
  fun h hh => (h'.bracketed h hh).ne_nil

omit [DecidableEq γ] in
theorem Holes.apart {τ rest : List (List γ × List γ)} {h : List γ × List γ} (hlr : l ≠ r)
    (h' : Holes l r (τ ++ h :: rest)) : ApartFrom id τ h.1 t := by
  intro k hk
  have hk' : k ∈ τ ++ h :: rest := List.mem_append_left _ hk
  have hh' : h ∈ τ ++ h :: rest := List.mem_append_right _ List.mem_cons_self
  refine (h'.bracketed k hk').apart hlr (h'.bracketed h hh') fun heq => ?_
  have hnd := h'.distinct
  rw [List.map_append, List.nodup_append] at hnd
  exact hnd.2.2 k.1 (List.mem_map_of_mem hk) h.1 (List.mem_map_of_mem List.mem_cons_self) heq

omit [DecidableEq γ] in
theorem Holes.left {τ rest : List (List γ × List γ)} (h' : Holes l r (τ ++ rest)) : Holes l r τ where
  bracketed := fun h hh => h'.bracketed h (List.mem_append_left _ hh)
  distinct := by
    have hnd := h'.distinct
    rw [List.map_append, List.nodup_append] at hnd
    exact hnd.1

/-- What one hole takes out of the filled text is the text's own when the filled text has the hole
only where the text has it. -/
theorem reads_own_iff {τ rest : List (List γ × List γ)} {h : List γ × List γ} (hlr : l ≠ r)
    (h' : Holes l r (τ ++ h :: rest)) :
    (∀ o ∈ reads Prod.fst h.1 (fill Prod.fst (unplaced τ) (marked t)), o <:+: marked t) ↔
      Clean Prod.fst (unplaced τ) h.1 (marked t) := by
  have hb : Bracketed l r h.1 :=
    h'.bracketed h (List.mem_append_right _ List.mem_cons_self)
  have hproper : Proper (unplaced τ) := unplaced_proper h'.left.proper
  constructor
  · intro hin
    refine clean_of_infix hproper (unplaced_unplaced τ) hb.ne_nil (apart_marked (h'.apart hlr)) ?_
    intro pre o post hpre ho
    exact hin o ((mem_reads hlr hb).mpr ⟨pre, post, hpre, ho⟩)
  · intro hc o ho
    obtain ⟨pre, post, hpre, ho⟩ := (mem_reads hlr hb).mp ho
    obtain ⟨a, b, hs, _⟩ := hc pre o post hpre ho
    exact ⟨a, b, hs.symm⟩

theorem allReads_from (hlr : l ≠ r) (rest : List (List γ × List γ)) :
    ∀ {τ : List (List γ × List γ)}, Holes l r (τ ++ rest) →
      fills Prod.fst (unplaced τ) (marked t) = fill Prod.fst (unplaced τ) (marked t) →
      ((∀ o ∈ allReads Prod.fst (unplaced rest) (fills Prod.fst (unplaced τ) (marked t)),
          o <:+: marked t) ↔
        ∀ τ' h rest', rest = τ' ++ h :: rest' →
          Clean Prod.fst (unplaced (τ ++ τ')) h.1 (marked t)) := by
  induction rest with
  | nil =>
    intro τ _ _
    refine iff_of_true (fun o ho => (List.not_mem_nil ho).elim) fun τ' h rest' heq => ?_
    exact absurd heq.symm (by simp)
  | cons h rest ih =>
    intro τ h' hfill
    have hb : Bracketed l r h.1 := h'.bracketed h (List.mem_append_right _ List.mem_cons_self)
    have hown := reads_own_iff (t := t) hlr h'
    have hsnoc : unplaced (τ ++ [h]) = unplaced τ ++ [(h.1, unmarked h.2)] := by
      simp [unplaced]
    have hnext : fills Prod.fst (unplaced (τ ++ [h])) (marked t) =
        replace Prod.fst h.1 (unmarked h.2) (fills Prod.fst (unplaced τ) (marked t)) := by
      rw [hsnoc, fills_snoc]
    have hall : allReads Prod.fst (unplaced (h :: rest)) (fills Prod.fst (unplaced τ) (marked t)) =
        reads Prod.fst h.1 (fill Prod.fst (unplaced τ) (marked t)) ++
          allReads Prod.fst (unplaced rest) (fills Prod.fst (unplaced (τ ++ [h])) (marked t)) := by
      rw [hnext, ← hfill]
      rfl
    have h'' : Holes l r (τ ++ [h] ++ rest) := by rwa [List.append_assoc]
    have hih : Clean Prod.fst (unplaced τ) h.1 (marked t) → _ := fun hc =>
      ih h'' (by
        rw [hnext, hfill, hsnoc]
        exact replace_fill (unplaced_proper h'.left.proper) hb.ne_nil _ (apart_marked (h'.apart hlr)) hc)
    rw [hall]
    simp only [List.forall_mem_append]
    constructor
    · rintro ⟨hreads, hrest⟩ τ' k rest' heq
      have hc := hown.mp hreads
      cases τ' with
      | nil =>
        obtain ⟨rfl, _⟩ := List.cons.inj heq
        rwa [List.append_nil]
      | cons x τ' =>
        obtain ⟨rfl, htail⟩ := List.cons.inj heq
        have hk := (hih hc).mp hrest τ' k rest' htail
        rwa [List.append_assoc] at hk
    · intro hclean
      have hc : Clean Prod.fst (unplaced τ) h.1 (marked t) := by
        have hh := hclean [] h rest rfl
        rwa [List.append_nil] at hh
      refine ⟨hown.mpr hc, (hih hc).mpr fun τ' k rest' heq => ?_⟩
      have hk := hclean (h :: τ') k rest' (by rw [heq]; rfl)
      rwa [List.append_assoc]

/-- Every hole that is read is one that the text has, exactly when no filled text has a hole but
where the text has it. -/
theorem allReads_own_iff {hs : List (List γ × List γ)} (hlr : l ≠ r) (h' : Holes l r hs) :
    (∀ o ∈ allReads Prod.fst (unplaced hs) (marked t), o <:+: marked t) ↔
      ∀ τ h rest, hs = τ ++ h :: rest → Clean id τ h.1 t := by
  have hfrom := allReads_from (t := t) hlr hs (τ := []) h' (fill_none (marked t)).symm
  refine hfrom.trans (forall_congr' fun τ => forall_congr' fun h => forall_congr' fun rest =>
    forall_congr' fun heq => ?_)
  subst heq
  exact clean_marked_iff h'.left.proper
    (h'.bracketed h (List.mem_append_right _ List.mem_cons_self)).ne_nil (h'.apart hlr)

/-! ### What a replacement takes out -/

/-- Every element is from the text. -/
def Placed (o : List (γ × Option ℕ)) : Prop := ∀ g ∈ o, g.2 ≠ none

omit [DecidableEq γ] in
theorem not_mem_unplaced {v : List (γ × Option ℕ)} (hv : places v = []) (hg : g.2 ≠ none) : g ∉ v := by
  intro hmem
  obtain ⟨i, hi⟩ := Option.ne_none_iff_exists'.mp hg
  have := mem_places hmem hi
  rw [hv] at this
  cases this

omit [DecidableEq γ] in
theorem not_mem_rest {a b : List (γ × Option ℕ)} (hnd : (places (a ++ b)).Nodup) (ha : g ∈ a)
    (hg : g.2 ≠ none) : g ∉ b := by
  intro hb
  obtain ⟨i, hi⟩ := Option.ne_none_iff_exists'.mp hg
  rw [places_append, List.nodup_append] at hnd
  exact hnd.2.2 i (mem_places ha hi) i (mem_places hb hi) rfl

section
variable {v post : List (γ × Option ℕ)}

/-- What has a place and is still there was there before. -/
theorem mem_replace (hne : needle ≠ []) (hv : places v = []) (hg : g.2 ≠ none)
    (hmem : g ∈ replace Prod.fst needle v s) : g ∈ s := by
  rw [replace_eq_fill] at hmem
  have hσ : Proper [(needle, v)] := fun h hh => by rwa [List.mem_singleton.mp hh]
  rcases mem_fill hσ hmem with hs | ⟨h, hh, hw⟩
  · exact hs
  · obtain rfl := List.mem_singleton.mp hh
    exact absurd hw (not_mem_unplaced hv hg)

/-- Nothing that a replacement takes out is still there. -/
theorem not_mem_replace (hne : needle ≠ []) (hv : places v = []) (ho : o.map Prod.fst = needle)
    (hnd : (places (o ++ s)).Nodup) (hmem : g ∈ o) (hg : g.2 ≠ none) :
    g ∉ replace Prod.fst needle v (o ++ s) := by
  rw [replace_hit hne ho]
  intro hin
  rcases List.mem_append.mp hin with hin | hin
  · exact not_mem_unplaced hv hg hin
  · exact not_mem_rest hnd hmem hg (mem_replace hne hv hg hin)

theorem replace_head (hne : needle ≠ []) (hv : places v = []) (hp : Placed o)
    (hnd : (places (o ++ post)).Nodup)
    (hall : ∀ g ∈ o, g ∈ replace Prod.fst needle v (o ++ post)) :
    replace Prod.fst needle v (o ++ post) = o ++ replace Prod.fst needle v post := by
  induction o with
  | nil => rfl
  | cons c o ih =>
    have hmiss : ¬ needle <+: ((c :: o) ++ post).map Prod.fst := by
      rintro ⟨rest, hrest⟩
      obtain ⟨x, y, hsplit, hx, _⟩ := List.append_eq_map_iff.mp hrest
      cases x with
      | nil => exact hne hx.symm
      | cons d x =>
        have hc : c = d := by
          rw [List.cons_append, List.cons_append] at hsplit
          exact (List.cons.inj hsplit).1
        have hin := hall c List.mem_cons_self
        rw [hsplit] at hin hnd
        exact not_mem_replace hne hv hx hnd (hc ▸ List.mem_cons_self) (hp c List.mem_cons_self) hin
    rw [List.cons_append] at hmiss hall ⊢
    rw [replace_miss hmiss] at hall ⊢
    have hnd' : (places (o ++ post)).Nodup := by
      have hcons : places (c :: (o ++ post)) = places [c] ++ places (o ++ post) := places_append [c] _
      rw [List.cons_append, hcons, List.nodup_append] at hnd
      exact hnd.2.1
    rw [ih (fun g hg => hp g (List.mem_cons_of_mem c hg)) hnd' fun g hg => ?_]
    · rfl
    · rcases List.mem_cons.mp (hall g (List.mem_cons_of_mem c hg)) with rfl | hin
      · have hnot := not_mem_rest (a := [g]) (b := o ++ post) hnd List.mem_cons_self
          (hp g List.mem_cons_self)
        exact absurd (List.mem_append_left post hg) hnot
      · exact hin

/-- Neighbours that are all still there are neighbours still, and were not what is replaced. -/
theorem replace_intact (hne : needle ≠ []) (hv : places v = []) (ho : o ≠ []) (hp : Placed o)
    (hnd : (places s).Nodup) (hin : o <:+: s) (hall : ∀ g ∈ o, g ∈ replace Prod.fst needle v s) :
    o <:+: replace Prod.fst needle v s ∧ o.map Prod.fst ≠ needle := by
  have hσ : Proper [(needle, v)] := fun h hh => by rwa [List.mem_singleton.mp hh]
  obtain ⟨pre, post, rfl⟩ := hin
  generalize hs : pre ++ o ++ post = s at hnd hall ⊢
  induction s using fill_induction (f := Prod.fst) hσ generalizing pre with
  | nil =>
    have hlen := congrArg List.length hs
    simp only [List.length_append, List.length_nil] at hlen
    exact absurd (List.eq_nil_of_length_eq_zero (by omega)) ho
  | hit h p s h' hpn ih =>
    obtain rfl : h = (needle, v) := List.mem_singleton.mp (first_starts h').1
    obtain ⟨g, o', rfl⟩ := List.exists_cons_of_ne_nil ho
    have hg : g.2 ≠ none := hp g List.mem_cons_self
    have hgp : g ∉ p := fun hmem =>
      not_mem_replace hne hv hpn hnd hmem hg (hall g List.mem_cons_self)
    have hpre : p <+: pre := by
      rw [List.append_assoc] at hs
      rcases List.append_eq_append_iff.mp hs with ⟨x, rfl, hx⟩ | ⟨x, rfl, _⟩
      · cases x with
        | nil => simp
        | cons d x =>
          obtain ⟨rfl, _⟩ := List.cons.inj hx
          exact absurd (List.mem_append_right pre List.mem_cons_self) hgp
      · exact List.prefix_append _ _
    obtain ⟨pre', rfl⟩ := hpre
    simp only [List.append_assoc, List.append_cancel_left_eq] at hs
    rw [replace_hit hne hpn] at hall ⊢
    have hnd' : (places s).Nodup := by
      rw [places_append, List.nodup_append] at hnd
      exact hnd.2.1
    have htail := ih pre' (by rw [List.append_assoc]; exact hs) hnd' fun x hx => by
      rcases List.mem_append.mp (hall x hx) with hw | hw
      · exact absurd hw (not_mem_unplaced hv (hp x hx))
      · exact hw
    exact ⟨htail.1.trans (List.suffix_append _ _).isInfix, htail.2⟩
  | miss c s h' ih =>
    have hmiss : ¬ needle <+: (c :: s).map Prod.fst :=
      first_none.mp h' (needle, v) (List.mem_singleton_self _)
    cases pre with
    | nil =>
      rw [List.nil_append] at hs
      rw [← hs] at hnd hall hmiss ⊢
      refine ⟨?_, fun heq => hmiss ?_⟩
      · rw [replace_head hne hv hp hnd hall]
        exact (List.prefix_append _ _).isInfix
      · rw [List.map_append, heq]
        exact List.prefix_append _ _
    | cons d pre =>
      obtain ⟨rfl, hrest⟩ := List.cons.inj hs
      have hrest : pre ++ o ++ post = s := hrest
      rw [replace_miss hmiss] at hall ⊢
      have hnd' : (places s).Nodup := by
        have hcons : places (d :: s) = places [d] ++ places s := places_append [d] s
        rw [hcons, List.nodup_append] at hnd
        exact hnd.2.1
      have htail := ih pre hrest hnd' fun x hx => by
        rcases List.mem_cons.mp (hall x hx) with rfl | hw
        · have hmem : x ∈ s := by
            rw [← hrest]
            exact List.mem_append_left _ (List.mem_append_right _ hx)
          exact absurd hmem (not_mem_rest (a := [x]) hnd List.mem_cons_self (hp x hx))
        · exact hw
      exact ⟨htail.1.trans (List.suffix_cons _ _).isInfix, htail.2⟩

theorem mem_fills {hs : List (List γ × List (γ × Option ℕ))} (hσ : Proper hs) (hv : Unplaced hs)
    (hg : g.2 ≠ none) (hmem : g ∈ fills Prod.fst hs s) : g ∈ s := by
  induction hs generalizing s with
  | nil => exact hmem
  | cons h hs ih =>
    have hnext : g ∈ replace Prod.fst h.1 h.2 s :=
      ih (fun x hx => hσ x (List.mem_cons_of_mem h hx)) (fun x hx => hv x (List.mem_cons_of_mem h hx))
        hmem
    exact mem_replace (hσ h List.mem_cons_self) (hv h List.mem_cons_self) hg hnext

/-- After one replacement for each of the holes, an occurrence of one of them has lost some of its
elements. -/
theorem lost_of_mem {hs : List (List γ × List (γ × Option ℕ))} (hσ : Proper hs) (hv : Unplaced hs)
    (ho : o ≠ []) (hp : Placed o) (hnd : (places s).Nodup) (hin : o <:+: s)
    (hmem : ∃ h ∈ hs, h.1 = o.map Prod.fst) : ∃ g ∈ o, g ∉ fills Prod.fst hs s := by
  by_contra hall
  push Not at hall
  obtain ⟨h, hh, heq⟩ := hmem
  induction hs generalizing s with
  | nil => cases hh
  | cons k hs ih =>
    have hσ' : Proper hs := fun x hx => hσ x (List.mem_cons_of_mem k hx)
    have hv' : Unplaced hs := fun x hx => hv x (List.mem_cons_of_mem k hx)
    have hk : places k.2 = [] := hv k List.mem_cons_self
    have hkept : ∀ g ∈ o, g ∈ replace Prod.fst k.1 k.2 s := fun g hg =>
      mem_fills hσ' hv' (hp g hg) (hall g hg)
    have hstep := replace_intact (hσ k List.mem_cons_self) hk ho hp hnd hin hkept
    rcases List.mem_cons.mp hh with rfl | hh
    · exact hstep.2 heq.symm
    · have hnd' : (places (replace Prod.fst k.1 k.2 s)).Nodup := by
        rw [replace_eq_fill]
        have hsub := places_fill (σ := [(k.1, k.2)])
          (fun x hx => by rw [List.mem_singleton.mp hx]; exact hσ k List.mem_cons_self)
          (fun x hx => by rw [List.mem_singleton.mp hx]; exact hk) s
        exact hsub.nodup hnd
      exact ih hσ' hv' hnd' hstep.1 hall hh

end

end

end Lib
