import LvimDb.Lib.Json
import LvimDb.Editor.Split

/-!
# JSON documents of a text

`split_json_docs` of ui/editor.lua, on texts of objects with blanks around and between them.
-/

namespace LvimDb.Editor
open Lib (isSpace)
open Lib.Json (IsBody Spaced Token depth)

/-- The loop of `split_json_docs` (182-206), with `instr`, `esc` and `depth`. -/
def splitJsonFrom : Bool → Bool → ℤ → Segment → List Char → List Statement
  | _, _, _, g, [] => g.flush
  | instr, esc, depth, g, c :: s =>
    if instr then
      if esc then splitJsonFrom true false depth (g.push c) s
      else if c = '\\' then splitJsonFrom true true depth (g.push c) s
      else if c = '"' then splitJsonFrom false false depth (g.push c) s
      else splitJsonFrom true false depth (g.push c) s
    else if c = '"' then splitJsonFrom true esc depth (g.push c) s
    else if c = '{' then splitJsonFrom false esc (depth + 1) (g.push c) s
    else if c = '}' then
      if depth - 1 = 0 then
        (g.push c).flush ++ splitJsonFrom false esc (depth - 1) (g.push c).next s
      else splitJsonFrom false esc (depth - 1) (g.push c) s
    else splitJsonFrom false esc depth (g.push c) s

/-- `split_json_docs` (165-209). -/
def splitJsonDocs (text : String) : List Statement :=
  splitJsonFrom false false 0 ⟨[], none, 1⟩ text.toList

/-- The text of an object, from its brace to its brace. -/
inductive IsObjectText : List Char → Prop
  | empty {s : List Char} (rest : Spaced [] s) : IsObjectText ('{' :: (s ++ ['}']))
  | members {s : List Char} (ms : Lib.Json.Tree .members)
    (rest : Spaced (ms.tokens.map Token.text) s) : IsObjectText ('{' :: (s ++ ['}']))

structure Blanks where
  text : List Char
  blank : ∀ c ∈ text, isSpace c = true

/-- An object, with the blanks before it. -/
structure Document where
  pad : Blanks
  text : List Char
  object : IsObjectText text

/-- The statements the objects are, when `before` is the text before them: each with the lines of
its first and of its last character. -/
def documentsOf : List Char → List Document → List Statement
  | _, [] => []
  | before, d :: ds =>
    ⟨String.ofList d.text, lineAt (before ++ d.pad.text),
      lineAt (before ++ d.pad.text ++ d.text.dropLast)⟩ ::
      documentsOf (before ++ d.pad.text ++ d.text) ds

def joined (ds : List Document) (last : Blanks) : List Char :=
  ds.flatMap (fun d => d.pad.text ++ d.text) ++ last.text

variable {c : Char} {s w : List Char} {ts : List Token} {d d' : ℕ} {g : Segment}

/-- A character outside strings that is no quote and no brace. -/
theorem splitJson_plain (hq : c ≠ '"') (ho : c ≠ '{') (hc : c ≠ '}') (depth : ℤ) (g : Segment)
    (s : List Char) :
    splitJsonFrom false false depth g (c :: s) =
      splitJsonFrom false false depth (g.push c) s := by
  rw [splitJsonFrom, if_neg Bool.false_ne_true, if_neg hq, if_neg ho, if_neg hc]

theorem splitJson_plains (h : ∀ c ∈ w, c ≠ '"' ∧ c ≠ '{' ∧ c ≠ '}') (depth : ℤ) (g : Segment)
    (s : List Char) :
    splitJsonFrom false false depth g (w ++ s) =
      splitJsonFrom false false depth (w.foldl Segment.push g) s := by
  induction w generalizing g with
  | nil => rfl
  | cons c w ih =>
    obtain ⟨⟨hq, ho, hc⟩, hw⟩ := List.forall_mem_cons.mp h
    rw [List.cons_append, splitJson_plain hq ho hc, ih hw]
    rfl

theorem splitJson_inside (hq : c ≠ '"') (hb : c ≠ '\\') (depth : ℤ) (g : Segment)
    (s : List Char) :
    splitJsonFrom true false depth g (c :: s) = splitJsonFrom true false depth (g.push c) s := by
  rw [splitJsonFrom, if_pos rfl, if_neg Bool.false_ne_true, if_neg hb, if_neg hq]

theorem splitJson_escape (c : Char) (depth : ℤ) (g : Segment) (s : List Char) :
    splitJsonFrom true false depth g ('\\' :: c :: s) =
      splitJsonFrom true false depth ((g.push '\\').push c) s := by
  rw [splitJsonFrom, if_pos rfl, if_neg Bool.false_ne_true, if_pos rfl, splitJsonFrom, if_pos rfl,
    if_pos rfl]

theorem splitJson_body (h : IsBody w) (depth : ℤ) (g : Segment) (s : List Char) :
    splitJsonFrom true false depth g (w ++ '"' :: s) =
      splitJsonFrom false false depth ((w.foldl Segment.push g).push '"') s := by
  induction h generalizing g with
  | nil => rfl
  | @char c w plain _ ih =>
    rw [List.cons_append, splitJson_inside plain.1 plain.2.1, ih]
    rfl
  | @escape c w _ _ ih =>
    rw [List.cons_append, List.cons_append, splitJson_escape, ih]
    rfl
  | @unicode a b c d w hex _ ih =>
    have hplain : ∀ x ∈ [a, b, c, d], x ≠ '"' ∧ x ≠ '\\' := fun x hx => (hex x hx).plain
    simp only [List.forall_mem_cons] at hplain
    obtain ⟨ha, hb, hc, hd, -⟩ := hplain
    simp only [List.cons_append]
    rw [splitJson_escape, splitJson_inside ha.1 ha.2, splitJson_inside hb.1 hb.2,
      splitJson_inside hc.1 hc.2, splitJson_inside hd.1 hd.2, ih]
    rfl

theorem plain_of_wordChar (h : Lib.Json.IsWordChar c) : c ≠ '"' ∧ c ≠ '{' ∧ c ≠ '}' := by
  refine ⟨?_, ?_, ?_⟩ <;> rintro rfl <;> simp [Lib.Json.IsWordChar] at h

theorem plain_of_blank (h : Lib.Json.IsBlank c) : c ≠ '"' ∧ c ≠ '{' ∧ c ≠ '}' := by
  rcases h with rfl | rfl | rfl | rfl <;> decide

theorem plain_of_space (h : isSpace c = true) : c ≠ '"' ∧ c ≠ '{' ∧ c ≠ '}' := by
  refine ⟨?_, ?_, ?_⟩ <;> rintro rfl <;> exact absurd h (by decide)

theorem splitJson_tokens (h : Spaced (ts.map Token.text) s) (hd : depth d ts = some d')
    (g : Segment) (r : List Char) :
    splitJsonFrom false false (d + 1 : ℕ) g (s ++ r) =
      splitJsonFrom false false (d' + 1 : ℕ) (s.foldl Segment.push g) r := by
  induction ts generalizing s d g with
  | nil =>
    cases h with
    | nil blank =>
      cases hd
      exact splitJson_plains (fun c hc => plain_of_blank (blank c hc)) _ g r
  | cons t ts ih =>
    cases h with
    | @cons pad _ s _ blank rest =>
      rw [List.append_assoc, List.append_assoc, List.foldl_append, List.foldl_append,
        splitJson_plains fun c hc => plain_of_blank (blank c hc)]
      generalize pad.foldl Segment.push g = g
      cases t with
      | word w =>
        have hrest : depth d ts = some d' := hd
        show splitJsonFrom false false _ g (w.text ++ (s ++ r)) = _
        rw [splitJson_plains fun c hc => plain_of_wordChar (w.wordChar c hc)]
        exact ih rest hrest _
      | str b =>
        have hrest : depth d ts = some d' := hd
        show splitJsonFrom false false _ g ('"' :: (b.body ++ ['"'] ++ (s ++ r))) = _
        rw [splitJsonFrom, if_neg Bool.false_ne_true, if_pos rfl, List.append_assoc]
        show splitJsonFrom true false _ _ (b.body ++ '"' :: (s ++ r)) = _
        rw [splitJson_body b.valid, ih rest hrest]
        simp [Token.text, Lib.Json.Str.text]
      | mark m =>
        cases m with
        | openObj =>
          have hrest : depth (d + 1) ts = some d' := hd
          exact ih rest hrest _
        | closeObj =>
          cases d with
          | zero => cases hd
          | succ d =>
            have hrest : depth d ts = some d' := hd
            have hpred : ((d + 1 + 1 : ℕ) : ℤ) - 1 = (d + 1 : ℕ) := by omega
            have hne : ((d + 1 : ℕ) : ℤ) ≠ 0 := by omega
            show splitJsonFrom false false _ g ('}' :: (s ++ r)) = _
            rw [splitJsonFrom, if_neg Bool.false_ne_true, if_neg (by decide), if_neg (by decide),
              if_pos rfl, hpred, if_neg hne]
            exact ih rest hrest _
        | _ =>
          have hrest : depth d ts = some d' := hd
          exact (splitJson_plain (by decide) (by decide) (by decide) _ g _).trans (ih rest hrest _)

/-- An object is a statement of its own. -/
theorem splitJson_object (h : IsObjectText w) (g : Segment) (r : List Char) :
    splitJsonFrom false false 0 g (w ++ r) =
      (w.foldl Segment.push g).flush ++
        splitJsonFrom false false 0 (w.foldl Segment.push g).next r := by
  have hinner : ∃ ts s, Spaced (ts.map Token.text) s ∧ depth 0 ts = some 0 ∧
      w = '{' :: (s ++ ['}']) := by
    cases h with
    | empty rest => exact ⟨[], _, rest, rfl, rfl⟩
    | members ms rest =>
      have hdepth := ms.depth_tokens 0 []
      rw [List.append_nil] at hdepth
      exact ⟨ms.tokens, _, rest, hdepth, rfl⟩
  obtain ⟨ts, s, hs, hdepth, rfl⟩ := hinner
  have hopen : splitJsonFrom false false 0 g ('{' :: (s ++ ['}'] ++ r)) =
      splitJsonFrom false false (0 + 1 : ℕ) (g.push '{') (s ++ '}' :: r) := by
    rw [List.append_assoc]
    rfl
  rw [List.cons_append, hopen, splitJson_tokens hs hdepth, List.foldl_cons, List.foldl_append]
  rfl

/-! ### The statements are the objects -/

theorem IsObjectText.parts (h : IsObjectText w) : ∃ inner, w = '{' :: (inner ++ ['}']) := by
  cases h with
  | empty rest => exact ⟨_, rfl⟩
  | members ms rest => exact ⟨_, rfl⟩

/-- The segment is the object, its lines those of its ends. -/
theorem statementAt_document (before : List Char) (d : Document) :
    statementAt before (d.pad.text ++ d.text) =
      [⟨String.ofList d.text, lineAt (before ++ d.pad.text),
        lineAt (before ++ d.pad.text ++ d.text.dropLast)⟩] := by
  obtain ⟨⟨pad, blank⟩, text, object⟩ := d
  obtain ⟨inner, rfl⟩ := object.parts
  have hlast : ('{' :: (inner ++ ['}'])).getLast? = some '}' := by
    rw [← List.cons_append, List.getLast?_concat]
  have hstrip : Lib.strip isSpace (pad ++ '{' :: (inner ++ ['}'])) = '{' :: (inner ++ ['}']) := by
    have hnone : ∀ c ∈ ([] : List Char), isSpace c = true := fun c hc => absurd hc List.not_mem_nil
    have hbetween : Lib.strip isSpace (pad ++ '{' :: (inner ++ ['}']) ++ []) =
        '{' :: (inner ++ ['}']) := by
      refine Lib.strip_between blank hnone (fun c hc => ?_) fun c hc => ?_
      · cases hc
        decide
      · rw [hlast] at hc
        cases hc
        decide
    rwa [List.append_nil] at hbetween
  have htrim : trim (String.ofList (pad ++ '{' :: (inner ++ ['}']))) =
      String.ofList ('{' :: (inner ++ ['}'])) := by
    rw [trim, String.toList_ofList, hstrip]
  have hne : String.ofList ('{' :: (inner ++ ['}'])) ≠ "" := by
    intro h
    have htoList := congrArg String.toList h
    rw [String.toList_ofList] at htoList
    cases htoList
  have hstart : (pad ++ '{' :: (inner ++ ['}'])).takeWhile isSpace = pad := by
    rw [List.takeWhile_append_of_pos blank, List.takeWhile_cons_of_neg (by decide), List.append_nil]
  have hend : lineAt (before ++ (pad ++ '{' :: (inner ++ ['}']))) =
      lineAt (before ++ pad ++ ('{' :: (inner ++ ['}'])).dropLast) := by
    have hcut : before ++ (pad ++ '{' :: (inner ++ ['}'])) =
        before ++ pad ++ ('{' :: (inner ++ ['}'])).dropLast ++ ['}'] := by
      rw [← List.cons_append, List.dropLast_concat]
      simp
    rw [hcut, lineAt_concat, if_neg (by decide)]
  unfold statementAt
  simp only [htrim, if_neg hne, hstart, hend]

theorem splitJson_documents (ds : List Document) (last : Blanks) (before : List Char) :
    splitJsonFrom false false 0 (Segment.of before []) (joined ds last) =
      documentsOf before ds := by
  induction ds generalizing before with
  | nil =>
    have hplain : ∀ c ∈ last.text, c ≠ '"' ∧ c ≠ '{' ∧ c ≠ '}' := fun c hc =>
      plain_of_space (last.blank c hc)
    have hread := splitJson_plains hplain 0 (Segment.of before []) []
    rw [List.append_nil, Segment.of_pushes, List.nil_append, splitJsonFrom, Segment.of_flush,
      statementAt_blank last.blank] at hread
    exact hread
  | cons d ds ih =>
    have hcut : joined (d :: ds) last = d.pad.text ++ (d.text ++ joined ds last) := by
      simp [joined]
    rw [hcut, splitJson_plains fun c hc => plain_of_space (d.pad.blank c hc),
      splitJson_object d.object, Segment.of_pushes, Segment.of_pushes, Segment.of_flush,
      Segment.of_next, List.nil_append, statementAt_document, ← List.append_assoc, ih]
    rfl

/-- The objects of a text are its statements, whatever the blanks around them. -/
theorem split_json_docs_objects (ds : List Document) (last : Blanks) :
    splitJsonDocs (String.ofList (joined ds last)) = documentsOf [] ds := by
  rw [splitJsonDocs, String.toList_ofList]
  exact splitJson_documents ds last []

end LvimDb.Editor
