import Mathlib.Data.List.Permutation
import LvimDb.Template.Hygiene

/-!
# The order of the values

`pairs` gives the values of a table in no order, and each is written into a text that has the
earlier ones.
-/

namespace LvimDb.Template
open Editor (trim)

/-- The holes of the keys. -/
def valueHoles (values : List (String × String)) : List (String × String) :=
  values.map fun kv => (hole kv.1, kv.2)

/-- Two keys have no overlapping holes in the text, and whichever values are written first, the
filled text has the hole of another key only where the text has it. -/
structure Tame (base : String) (values : List (String × String)) : Prop where
  apart : ∀ a ∈ values, ∀ b ∈ values, a ≠ b →
    Lib.Apart (hole a.1).toList (hole b.1).toList base.toList
  unspelled : ∀ before b, (before ++ [b]).Subperm values →
    Lib.Clean id (chars (valueHoles before)) (hole b.1).toList base.toList

theorem hole_ne_nil (key : String) : (hole key).toList ≠ [] := by
  simp [hole]

theorem proper_values (values : List (String × String)) : Lib.Proper (chars (valueHoles values)) := by
  refine proper_chars fun x hx => ?_
  obtain ⟨kv, _, rfl⟩ := List.mem_map.mp hx
  exact hole_ne_nil kv.1

theorem plainAll_eq (base : String) (values : List (String × String)) :
    plainAll base values = (valueHoles values).foldl (fun out h => plain out h.1 h.2) base := by
  rw [valueHoles, List.foldl_map]
  rfl

theorem Tame.perm {base : String} {values values' : List (String × String)} (h : Tame base values)
    (hp : values.Perm values') : Tame base values' where
  apart := fun a ha b hb => h.apart a (hp.mem_iff.mpr ha) b (hp.mem_iff.mpr hb)
  unspelled := fun before b hsub => h.unspelled before b (hsub.trans hp.symm.subperm)

/-- The values are written as if at once. -/
theorem Tame.written {base : String} {values : List (String × String)} (h : Tame base values)
    (hnd : values.Nodup) : plainAll base values = fillOnce (valueHoles values) base := by
  refine String.toList_inj.mp ?_
  rw [plainAll_eq, foldl_plain_toList, fillOnce, String.toList_ofList]
  have hparts : ∀ τ x rest, chars (valueHoles values) = τ ++ x :: rest →
      ∃ before b after, values = before ++ b :: after ∧ τ = chars (valueHoles before) ∧
        x.1 = (hole b.1).toList := by
    intro τ x rest heq
    simp only [chars, valueHoles, List.map_map] at heq
    obtain ⟨before, rest', rfl, rfl, hrest⟩ := List.map_eq_append_iff.mp heq
    obtain ⟨b, after, rfl, rfl, _⟩ := List.map_eq_cons_iff.mp hrest
    exact ⟨before, b, after, rfl, by simp [chars, valueHoles], rfl⟩
  refine Lib.fills_eq_fill (proper_values values) (fun τ x rest heq => ?_) (fun τ x rest heq => ?_)
  · obtain ⟨before, b, after, rfl, rfl, hx⟩ := hparts τ x rest heq
    intro y hy
    simp only [chars, valueHoles, List.map_map] at hy
    obtain ⟨a, ha, rfl⟩ := List.mem_map.mp hy
    have hne : a ≠ b := by
      rintro rfl
      rw [List.nodup_append] at hnd
      exact hnd.2.2 a ha a List.mem_cons_self rfl
    rw [List.map_id, hx]
    exact h.apart a (List.mem_append_left _ ha) b (List.mem_append_right _ List.mem_cons_self) hne
  · obtain ⟨before, b, after, rfl, rfl, hx⟩ := hparts τ x rest heq
    rw [hx]
    refine h.unspelled before b (List.Sublist.subperm ?_)
    exact (List.Sublist.cons_cons b (List.nil_sublist after)).append_left before

theorem Tame.once {base : String} {values values' : List (String × String)} (h : Tame base values)
    (hp : values.Perm values') : fillOnce (valueHoles values) base = fillOnce (valueHoles values') base := by
  rw [fillOnce, fillOnce]
  refine congrArg String.ofList (Lib.fill_perm ?_ (proper_values values) fun x hx y hy hne => ?_)
  · exact (hp.map _).map _
  · simp only [chars, valueHoles, List.map_map] at hx hy
    obtain ⟨a, ha, rfl⟩ := List.mem_map.mp hx
    obtain ⟨b, hb, rfl⟩ := List.mem_map.mp hy
    rw [List.map_id]
    exact h.apart a ha b hb fun heq => hne (by rw [heq])

/-- The values of a tame table are written in any order with one result. -/
theorem Tame.order {base : String} {values values' : List (String × String)} (h : Tame base values)
    (hnd : values.Nodup) (hp : values.Perm values') : plainAll base values' = plainAll base values := by
  rw [h.written hnd, (h.perm hp).written (hp.nodup_iff.mp hnd), h.once hp]

/-- A table has a key once. -/
theorem lookup_perm {values values' : List (String × String)} (hk : (values.map Prod.fst).Nodup)
    (hp : values.Perm values') (key : String) : values'.lookup key = values.lookup key := by
  have hmem : ∀ {l : List (String × String)}, (l.map Prod.fst).Nodup → ∀ v : String,
      l.lookup key = some v ↔ (key, v) ∈ l := by
    intro l hl v
    induction l with
    | nil => simp
    | cons kv l ih =>
      obtain ⟨k, w⟩ := kv
      rw [List.map_cons, List.nodup_cons] at hl
      rw [List.lookup_cons, List.mem_cons, Prod.mk.injEq]
      by_cases heq : key = k
      · subst heq
        have hnot : (key, v) ∉ l := fun hmem => hl.1 (List.mem_map.mpr ⟨(key, v), hmem, rfl⟩)
        simp only [beq_self_eq_true, Option.some.injEq, hnot, or_false, true_and]
        exact eq_comm
      · have hbeq : (key == k) = false := beq_eq_false_iff_ne.mpr heq
        simp only [hbeq, heq, false_and, false_or]
        exact ih hl.2
  have hk' : (values'.map Prod.fst).Nodup := (hp.map Prod.fst).nodup_iff.mp hk
  refine Option.ext fun v => ?_
  rw [hmem hk', hmem hk, hp.mem_iff]

theorem nodup_of_keys {values : List (String × String)} (hk : (values.map Prod.fst).Nodup) :
    values.Nodup := List.Nodup.of_map Prod.fst hk

theorem objectText_perm {values values' : List (String × String)}
    (hk : (values.map Prod.fst).Nodup) (hp : values.Perm values') (spec : DdlOp) (name : String)
    (schema : Option String) :
    objectText spec name schema values' = objectText spec name schema values := by
  rw [objectText, objectText, lookup_perm hk hp]

theorem renderDdl_perm {values values' : List (String × String)}
    (hk : (values.map Prod.fst).Nodup) (hp : values.Perm values') {m : DriverMeta} {op name : String}
    {schema : Option String}
    (htame : ∀ spec, m.op op = some spec → Tame (objectText spec name schema values) values) :
    renderDdl m op name schema values' = renderDdl m op name schema values := by
  refine Option.map_congr fun spec hop => ?_
  have hwritten : plainAll (objectText spec name schema values) values' =
      plainAll (objectText spec name schema values) values :=
    (htame spec hop).order (nodup_of_keys hk) hp
  rw [objectText_perm hk hp, hwritten]

theorem renderDdlRow_perm {values values' : List (String × String)}
    (hk : (values.map Prod.fst).Nodup) (hp : values.Perm values') {row : DdlRow}
    (htame : Tame (row.template.getD "") values) :
    renderDdlRow row values' = renderDdlRow row values := by
  have hwritten : plainAll (row.template.getD "") values' = plainAll (row.template.getD "") values :=
    htame.order (nodup_of_keys hk) hp
  unfold renderDdlRow
  rw [lookup_perm hk hp, hwritten]

/-- The statement of a schema change and the text of a row are the same for every order of the
values, when those are tame for the text they are written into. -/
theorem ddl_order_free {values values' : List (String × String)}
    (hk : (values.map Prod.fst).Nodup) (hp : values.Perm values') :
    (∀ (m : DriverMeta) op name schema,
      (∀ spec, m.op op = some spec → Tame (objectText spec name schema values) values) →
        renderDdl m op name schema values' = renderDdl m op name schema values) ∧
    ∀ row : DdlRow, Tame (row.template.getD "") values →
      renderDdlRow row values' = renderDdlRow row values :=
  ⟨fun _ _ _ _ htame => renderDdl_perm hk hp htame, fun _ htame => renderDdlRow_perm hk hp htame⟩

/-! ### What a tame table is -/

theorem holes_values {values : List (String × String)} (hk : (values.map Prod.fst).Nodup)
    (hb : ∀ kv ∈ values, '\x7b' ∉ kv.1.toList ∧ '\x7d' ∉ kv.1.toList) :
    Lib.Holes '\x7b' '\x7d' (chars (valueHoles values)) where
  bracketed := fun h hmem => by
    simp only [chars, valueHoles, List.map_map] at hmem
    obtain ⟨kv, hkv, rfl⟩ := List.mem_map.mp hmem
    refine ⟨kv.1.toList, ?_, (hb kv hkv).1, (hb kv hkv).2⟩
    simp [hole]
  distinct := by
    have hinj : Function.Injective fun key => (hole key).toList := by
      intro a b heq
      have hlists : (hole a).toList = (hole b).toList := heq
      simp only [hole, String.toList_append] at hlists
      exact String.toList_inj.mp (List.append_cancel_left (List.append_cancel_right hlists))
    have hmap : (chars (valueHoles values)).map Prod.fst =
        (values.map Prod.fst).map fun key => (hole key).toList := by
      simp [chars, valueHoles]
    rw [hmap]
    exact hk.map hinj

/-- Keys without braces are tame where, in every order, no text but the base is read. -/
theorem tame_iff_reads {values : List (String × String)} (hk : (values.map Prod.fst).Nodup)
    (hb : ∀ kv ∈ values, '\x7b' ∉ kv.1.toList ∧ '\x7d' ∉ kv.1.toList) (base : String) :
    Tame base values ↔ ∀ values', values.Perm values' → ReadsOwn (valueHoles values') base := by
  have hholes : ∀ {values'}, values.Perm values' →
      Lib.Holes '\x7b' '\x7d' (chars (valueHoles values')) := fun hp =>
    holes_values ((hp.map Prod.fst).nodup_iff.mp hk) fun kv hkv => hb kv (hp.mem_iff.mpr hkv)
  constructor
  · intro h values' hp
    rw [readsOwn_iff (hholes hp)]
    intro before x after heq
    obtain ⟨τ, rest, rfl, rfl, hrest⟩ := List.map_eq_append_iff.mp heq
    obtain ⟨b, rest', rfl, rfl, _⟩ := List.map_eq_cons_iff.mp hrest
    refine h.unspelled τ b (List.Subperm.trans (List.Sublist.subperm ?_) hp.symm.subperm)
    exact (List.Sublist.cons_cons b (List.nil_sublist rest')).append_left τ
  · intro h
    refine ⟨fun a ha b hb' hne => ?_, fun before b hsub => ?_⟩
    · obtain ⟨s, t, rfl⟩ := List.append_of_mem hb'
      have hmem : a ∈ s ++ t := by
        rcases List.mem_append.mp ha with ha | ha
        · exact List.mem_append_left _ ha
        · rcases List.mem_cons.mp ha with rfl | ha
          · exact absurd rfl hne
          · exact List.mem_append_right _ ha
      have hp : (s ++ b :: t).Perm (s ++ t ++ b :: []) :=
        List.perm_middle.trans (List.perm_append_singleton b (s ++ t)).symm
      have hall := hholes hp
      rw [valueHoles, List.map_append, chars_append] at hall
      have hap := hall.apart (t := base.toList) (by decide)
        ((hole a.1).toList, a.2.toList) (List.mem_map.mpr ⟨(hole a.1, a.2), List.mem_map.mpr ⟨a, hmem, rfl⟩, rfl⟩)
      rw [List.map_id] at hap
      exact hap
    · obtain ⟨l, hl, hsubl⟩ := hsub
      obtain ⟨rest, hrest⟩ := hsubl.exists_perm_append
      have hp : values.Perm (before ++ b :: rest) := by
        refine hrest.trans ((hl.append_right rest).trans ?_)
        rw [List.append_assoc]
        exact List.Perm.refl _
      refine (readsOwn_iff (hholes hp) base).mp (h _ hp) (valueHoles before) (hole b.1, b.2)
        (valueHoles rest) ?_
      simp [valueHoles]

instance (holes : List (String × String)) (template : String) :
    Decidable (ReadsOwn holes template) :=
  inferInstanceAs (Decidable (∀ o ∈ _, o <:+: _))

def pairRow : DdlRow := ⟨some "{name} {type}", none⟩

theorem ddl_order_free_pair : Tame (pairRow.template.getD "") [("name", "a"), ("type", "int")] ∧
    renderDdlRow pairRow [("type", "int"), ("name", "a")] =
      renderDdlRow pairRow [("name", "a"), ("type", "int")] := by
  have hk : ([("name", "a"), ("type", "int")].map Prod.fst : List String).Nodup := by decide
  have hp : [("name", "a"), ("type", "int")].Perm [("type", "int"), ("name", "a")] := .swap _ _ _
  have htame : Tame (pairRow.template.getD "") [("name", "a"), ("type", "int")] := by
    have hall : ∀ v ∈ [("name", "a"), ("type", "int")].permutations',
        ReadsOwn (valueHoles v) (pairRow.template.getD "") := by decide +kernel
    rw [tame_iff_reads hk (by decide)]
    exact fun v hv => hall v (List.mem_permutations'.mpr hv.symm)
  exact ⟨htame, (ddl_order_free hk hp).2 pairRow htame⟩

/-- The type is written into the name in one order and not in the other. -/
theorem ddl_order_matters :
    renderDdlRow pairRow [("name", "{type}"), ("type", "int")] = some "int int" ∧
      renderDdlRow pairRow [("type", "int"), ("name", "{type}")] = some "{type} int" := by
  constructor
  · decide +kernel
  · decide +kernel

end LvimDb.Template
