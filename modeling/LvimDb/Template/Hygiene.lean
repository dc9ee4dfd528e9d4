import LvimDb.Lib.Traced
import LvimDb.Template.Spec

/-!
# Which holes are read

The replacements of a template against the simultaneous one. On the marked template, where every
character of the template carries its place, the same replacements show what they read.
-/

namespace LvimDb.Template
open Lib (Bracketed Holes marked unplaced)

/-- Every hole written in the template is filled at once. -/
def fillOnce (holes : List (String × String)) (template : String) : String :=
  String.ofList (Lib.fill id (chars holes) template.toList)

/-- What the replacements read are holes written in the template. -/
def ReadsOwn (holes : List (String × String)) (template : String) : Prop :=
  ∀ o ∈ Lib.allReads Prod.fst (unplaced (chars holes)) (marked template.toList),
    o <:+: marked template.toList

/-- The template with the holes before one of them filled at once has that one only where the
template has it. -/
def Unspelled (holes : List (String × String)) (template : String) : Prop :=
  ∀ before h after, holes = before ++ h :: after →
    Lib.Clean id (chars before) h.1.toList template.toList

theorem proper_chars {holes : List (String × String)} (h : ∀ x ∈ holes, x.1.toList ≠ []) :
    Lib.Proper (chars holes) := by
  intro x hx
  obtain ⟨x, hmem, rfl⟩ := List.mem_map.mp hx
  exact h x hmem

/-- The marks do not matter to the text. -/
theorem marked_run (holes : List (String × String)) (h : ∀ x ∈ holes, x.1.toList ≠ [])
    (template : String) :
    (Lib.fills Prod.fst (unplaced (chars holes)) (marked template.toList)).map Prod.fst =
      (holes.foldl (fun out h => plain out h.1 h.2) template).toList := by
  rw [foldl_plain_toList]
  have hmap := Lib.fills_map (f := id) Prod.fst (Lib.unplaced_proper (proper_chars h))
    (marked template.toList)
  rw [Lib.unplaced_fst, Lib.marked_fst] at hmap
  exact hmap

theorem unspelled_iff {holes : List (String × String)} {template : String} :
    Unspelled holes template ↔ ∀ τ h rest, chars holes = τ ++ h :: rest →
      Lib.Clean id τ h.1 template.toList := by
  constructor
  · intro hun τ h rest heq
    obtain ⟨before, rest', rfl, rfl, hrest⟩ := List.map_eq_append_iff.mp heq
    obtain ⟨x, after, rfl, rfl, _⟩ := List.map_eq_cons_iff.mp hrest
    exact hun before x after rfl
  · intro hun before h after heq
    refine hun (chars before) (h.1.toList, h.2.toList) (chars after) ?_
    rw [heq, chars_append]
    rfl

/-- One replacement after the other, when the holes can be told apart. -/
theorem readsOwn_iff {holes : List (String × String)} (hh : Holes '\x7b' '\x7d' (chars holes))
    (template : String) : ReadsOwn holes template ↔ Unspelled holes template := by
  rw [unspelled_iff]
  exact Lib.allReads_own_iff (by decide) hh

theorem foldl_eq_fillOnce {holes : List (String × String)}
    (hh : Holes '\x7b' '\x7d' (chars holes)) {template : String} (hun : Unspelled holes template) :
    holes.foldl (fun out h => plain out h.1 h.2) template = fillOnce holes template := by
  refine String.toList_inj.mp ?_
  rw [foldl_plain_toList, fillOnce, String.toList_ofList]
  refine Lib.fills_eq_fill hh.proper (fun τ h rest heq => ?_) (unspelled_iff.mp hun)
  rw [heq] at hh
  exact hh.apart (by decide)

/-- The holes of `render_full`. -/
def fullNames : List (List Char) :=
  ["{columns}", "{clauses}", "{qualified}", "{name}", "{schema}", "{limit}", "{fragments}"].map
    String.toList

theorem holes_names (o : RenderOpts) : (chars o.holes).map Prod.fst = fullNames := by
  simp [chars, RenderOpts.holes, fullNames]

theorem fullNames_bracketed {n : List Char} (h : n ∈ fullNames) : Bracketed '\x7b' '\x7d' n := by
  simp only [fullNames, List.map_cons, List.map_nil, List.mem_cons, List.not_mem_nil, or_false] at h
  rcases h with rfl | rfl | rfl | rfl | rfl | rfl | rfl
  · exact ⟨"columns".toList, by decide, by decide, by decide⟩
  · exact ⟨"clauses".toList, by decide, by decide, by decide⟩
  · exact ⟨"qualified".toList, by decide, by decide, by decide⟩
  · exact ⟨"name".toList, by decide, by decide, by decide⟩
  · exact ⟨"schema".toList, by decide, by decide, by decide⟩
  · exact ⟨"limit".toList, by decide, by decide, by decide⟩
  · exact ⟨"fragments".toList, by decide, by decide, by decide⟩

theorem holes_apart (o : RenderOpts) : Holes '\x7b' '\x7d' (chars o.holes) where
  bracketed := fun h hmem => by
    refine fullNames_bracketed ?_
    rw [← holes_names o]
    exact List.mem_map_of_mem hmem
  distinct := by
    rw [holes_names]
    decide

/-! ### The three renderers -/

/-- What `render_full` would be if it filled the template at once. -/
def onceFull (template : String) (o : RenderOpts) : String :=
  collapseSpaces (fillOnce o.holes template)

/-- `{value}` filled at once. -/
def onceFragment (fragment v : String) : String := fillOnce [("{value}", v)] fragment

/-- What `render_browse` fills the template with. -/
def browseOpts (m : DriverMeta) (values : List (String × String)) (name : String)
    (schema : Option String) (limit : Option ℚ) : RenderOpts where
  name := some name
  schema := schema
  limit := limit
  clauses := additions onceFragment m.browseForm values

/-- What `render_query` fills the template with. -/
def queryOpts (m : DriverMeta) (values : List (String × String)) (name : String)
    (schema : Option String) (limit : Option ℚ) : RenderOpts where
  name := some name
  schema := schema
  limit := limit
  fragments := additions onceFragment m.queryForm values

theorem fragmentOf_eq : fragmentOf = onceFragment := by
  funext fragment v
  refine String.toList_inj.mp ?_
  simp only [fragmentOf, onceFragment, fillOnce, plain_toList, String.toList_ofList,
    Lib.replace_eq_fill, chars, List.map_cons, List.map_nil]

theorem full_hygienic_iff (template : String) (o : RenderOpts) :
    renderFull template o = onceFull template o ∧ ReadsOwn o.holes template ↔
      Unspelled o.holes template := by
  rw [readsOwn_iff (holes_apart o)]
  refine ⟨And.right, fun hun => ⟨?_, hun⟩⟩
  rw [renderFull_eq, foldl_eq_fillOnce (holes_apart o) hun]
  rfl

theorem renderBrowse_eq (m : DriverMeta) (kind : Option String) (values : List (String × String))
    (name : String) (schema : Option String) (limit : Option ℚ) (h : m.browseFor kind ≠ "") :
    renderBrowse m kind values name schema limit =
      renderFull (m.browseFor kind) (browseOpts m values name schema limit) := by
  rw [renderBrowse, if_neg h, fragmentOf_eq]
  rfl

theorem renderQuery_eq (m : DriverMeta) (values : List (String × String)) (name : String)
    (schema : Option String) (limit : Option ℚ) (h : m.isStructured = true) :
    renderQuery m name schema limit values =
      renderFull (m.queryTemplate.getD "") (queryOpts m values name schema limit) := by
  rw [renderQuery, if_pos h, fragmentOf_eq]
  rfl

/-- A template is filled as if at once, and reads no hole that it does not have, exactly when its
values and the text around them spell none of the holes that are still to be filled. -/
theorem template_hygiene (template : String) (o : RenderOpts) (m : DriverMeta)
    (kind : Option String) (values : List (String × String)) (name : String)
    (schema : Option String) (limit : Option ℚ) :
    (renderFull template o = onceFull template o ∧ ReadsOwn o.holes template ↔
      Unspelled o.holes template) ∧
    ((m.browseFor kind ≠ "" →
        renderBrowse m kind values name schema limit =
            onceFull (m.browseFor kind) (browseOpts m values name schema limit) ∧
          ReadsOwn (browseOpts m values name schema limit).holes (m.browseFor kind)) ↔
      (m.browseFor kind = "" ∨
        Unspelled (browseOpts m values name schema limit).holes (m.browseFor kind))) ∧
    ((m.isStructured = true →
        renderQuery m name schema limit values =
            onceFull (m.queryTemplate.getD "") (queryOpts m values name schema limit) ∧
          ReadsOwn (queryOpts m values name schema limit).holes (m.queryTemplate.getD "")) ↔
      (m.isStructured = false ∨
        Unspelled (queryOpts m values name schema limit).holes (m.queryTemplate.getD ""))) := by
  refine ⟨full_hygienic_iff template o, ?_, ?_⟩
  · by_cases hb : m.browseFor kind = ""
    · exact iff_of_true (fun h => absurd hb h) (.inl hb)
    · rw [renderBrowse_eq m kind values name schema limit hb, full_hygienic_iff]
      simp only [ne_eq, hb, not_false_eq_true, true_implies, false_or]
  · cases hs : m.isStructured with
    | false => exact iff_of_true (fun h => absurd h Bool.false_ne_true) (.inl rfl)
    | true =>
      rw [renderQuery_eq m values name schema limit hs, full_hygienic_iff]
      simp only [true_implies, Bool.true_eq_false, false_or]

/-- A driver whose browse takes a condition. -/
def narrowed : DriverMeta where
  browse := some "SELECT * FROM {name} {clauses};"
  browseByKind := []
  browseForm := [⟨"where", some "WHERE {value}"⟩]
  queryForm := []
  queryTemplate := none
  ddlOps := []

/-- The name of the object is written into the text that was typed. -/
theorem typed_hole_filled :
    renderBrowse narrowed none [("where", "note = '{name}'")] "t" none none =
        "SELECT * FROM t WHERE note = 't';" ∧
      onceFull (narrowed.browseFor none)
          (browseOpts narrowed [("where", "note = '{name}'")] "t" none none) =
        "SELECT * FROM t WHERE note = '{name}';" := by
  constructor
  · decide +kernel
  · decide +kernel

end LvimDb.Template
