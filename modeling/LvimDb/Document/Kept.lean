import LvimDb.Document.Carry

/-!
# The BSON values that come back

Which values the engine reads again, with their types, of what the client gives out.
-/

namespace LvimDb.Document
open Cell (Serde)

variable {Typed : Type} (order : List String → List String) (k : ℕ)

/-! ### Typed values -/

mutual

/-- No number but integers below `2 ^ 32`. -/
def Small : Serde → Prop
  | .int i => i.natAbs < 2 ^ 32
  | .float _ => False
  | .arr xs => SmallList xs
  | .obj fields => SmallFields fields
  | _ => True

def SmallList : List Serde → Prop
  | [] => True
  | x :: xs => Small x ∧ SmallList xs

def SmallFields : List (String × Serde) → Prop
  | [] => True
  | (_, x) :: fields => Small x ∧ SmallFields fields

end

mutual

/-- The same value with the fields of its objects in another order. -/
def reordered : Serde → Serde
  | .arr xs => .arr (reorderedList xs)
  | .obj fields => .obj (arranged order (reorderedFields fields))
  | v => v

def reorderedList : List Serde → List Serde
  | [] => []
  | x :: xs => reordered x :: reorderedList xs

def reorderedFields : List (String × Serde) → List (String × Serde)
  | [] => []
  | (name, x) :: fields => (name, reordered x) :: reorderedFields fields

end

/-- Extended JSON: a tagged form has a reserved key and no `$scope`, its numbers are small (a
timestamp's, and the 1 of `$minKey` and `$maxKey`), it is read in any order of its fields, and no
object with a reserved key is read as a document. -/
structure Tags.Spec (tags : Tags Typed) : Prop where
  reserved : ∀ t, ∃ key ∈ reserved, key ∈ names (tags.tagged t)
  scope : ∀ t, "$scope" ∉ names (tags.tagged t)
  small : ∀ t, SmallFields (tags.tagged t)
  untag : ∀ t fields, reordered order (reordered order (.obj (tags.tagged t))) = .obj fields →
    tags.untag fields = some (.typed t)
  not_doc : ∀ fields fields', tags.untag fields ≠ some (.doc fields')

/-! ### What comes back -/

mutual

/-- The numbers of `b` survive, no document has a reserved key, and Lua enumerates the fields of
every document in their order. -/
def Survives : Bson Typed → Prop
  | .int64 i => ¬ (-2 ^ 31 ≤ i.toInt ∧ i.toInt < 2 ^ 31) ∧ Lib.toDouble i.toInt = i.toInt ∧
      i.toInt.natAbs < 10 ^ (k + 1)
  | .double q => Lib.carried k q = q ∧
      ¬ ∃ i : ℤ, q = i ∧ i.natAbs < 10 ^ (k + 1) ∧ -2 ^ 63 ≤ i ∧ i < 2 ^ 63
  | .code _ scope => order (order (names scope)) = names scope ∧ SurvivesFields scope
  | .arr xs => SurvivesList xs
  | .doc fields => (∀ key ∈ reserved, key ∉ names fields) ∧
      order (order (names fields)) = names fields ∧ SurvivesFields fields
  | _ => True

def SurvivesList : List (Bson Typed) → Prop
  | [] => True
  | x :: xs => Survives x ∧ SurvivesList xs

def SurvivesFields : List (String × Bson Typed) → Prop
  | [] => True
  | (_, x) :: fields => Survives x ∧ SurvivesFields fields

end

variable {order k}

mutual

theorem carry_small (hk : 9 ≤ k) : ∀ v, Small v → carry order k v = reordered order v
  | .null, _ => rfl
  | .bool _, _ => rfl
  | .str _, _ => rfl
  | .float _, h => h.elim
  | .int i, h => by
    have hi : i.natAbs < 2 ^ 32 := h
    have hpow : 10 ^ (9 + 1) ≤ 10 ^ (k + 1) := Nat.pow_le_pow_right (by decide) (by omega)
    have hd : Lib.toDouble (i : ℚ) = i := Lib.toDouble_int (by omega)
    have hlt : i.natAbs < 10 ^ (k + 1) := by omega
    unfold carry
    rw [Serde.decode, hd, written, spelled_int hlt]
    rfl
  | .arr xs, h => by
    rw [carry_arr, reordered, carryList_small hk xs h]
  | .obj fields, h => by
    rw [carry_obj, reordered, carryFields_small hk fields h]

theorem carryList_small (hk : 9 ≤ k) :
    ∀ xs, SmallList xs → xs.map (carry order k) = reorderedList order xs
  | [], _ => rfl
  | x :: xs, h => by
    rw [List.map_cons, reorderedList, carry_small hk x h.1, carryList_small hk xs h.2]

theorem carryFields_small (hk : 9 ≤ k) : ∀ fields, SmallFields fields →
    (fields.map fun field => (field.1, carry order k field.2)) = reorderedFields order fields
  | [], _ => rfl
  | (name, x) :: fields, h => by
    rw [List.map_cons, reorderedFields, carry_small hk x h.1, carryFields_small hk fields h.2]

end

theorem smallFields_iff {fields : List (String × Serde)} :
    SmallFields fields ↔ ∀ field ∈ fields, Small field.2 := by
  induction fields with
  | nil => simp [SmallFields]
  | cons field fields ih =>
    obtain ⟨name, v⟩ := field
    simp [SmallFields, ih]

theorem smallFields_pick {order : List String} {fields : List (String × Serde)}
    (h : SmallFields fields) : SmallFields (pick order fields) := by
  rw [smallFields_iff] at h ⊢
  exact fun field hfield => h field (mem_of_pick hfield)

mutual

theorem small_reordered : ∀ v, Small v → Small (reordered order v)
  | .null, _ => trivial
  | .bool _, _ => trivial
  | .str _, _ => trivial
  | .float _, h => h.elim
  | .int _, h => h
  | .arr xs, h => by
    rw [reordered]
    exact smallList_reordered xs h
  | .obj fields, h => by
    rw [reordered]
    exact smallFields_pick (smallFields_reordered fields h)

theorem smallList_reordered : ∀ xs, SmallList xs → SmallList (reorderedList order xs)
  | [], _ => trivial
  | x :: xs, h => by
    rw [reorderedList]
    exact ⟨small_reordered x h.1, smallList_reordered xs h.2⟩

theorem smallFields_reordered :
    ∀ fields, SmallFields fields → SmallFields (reorderedFields order fields)
  | [], _ => trivial
  | (_, x) :: fields, h => by
    rw [reorderedFields]
    exact ⟨small_reordered x h.1, smallFields_reordered fields h.2⟩

end

theorem twice_small (hk : 9 ≤ k) {v : Serde} (h : Small v) :
    twice order k v = reordered order (reordered order v) := by
  unfold twice
  rw [carry_small hk v h, carry_small hk _ (small_reordered v h)]

/-! ### The values of a document -/

variable {tags : Tags Typed}

theorem relaxedList_eq (xs : List (Bson Typed)) :
    relaxedList tags xs = xs.map (relaxed tags) := by
  induction xs with
  | nil => rfl
  | cons x xs ih => rw [relaxedList, ih, List.map_cons]

theorem relaxedFields_eq (fields : List (String × Bson Typed)) :
    relaxedFields tags fields = fields.map fun field => (field.1, relaxed tags field.2) := by
  induction fields with
  | nil => rfl
  | cons field fields ih =>
    obtain ⟨name, v⟩ := field
    rw [relaxedFields, ih, List.map_cons]

theorem readFields_names {fields : List (String × Serde)} {bs : List (String × Bson Typed)}
    (h : readFields tags fields = some bs) : names bs = names fields := by
  induction fields generalizing bs with
  | nil =>
    cases h
    rfl
  | cons field fields ih =>
    obtain ⟨name, v⟩ := field
    simp only [readFields, Option.bind_eq_bind, Option.bind_eq_some_iff, Option.some.injEq] at h
    obtain ⟨b, -, bs, hbs, rfl⟩ := h
    simpa [names] using ih hbs

/-- The form in which a value is sent that is not edited. -/
def sent (order : List String → List String) (k : ℕ) (tags : Tags Typed) (b : Bson Typed) :
    Serde :=
  twice order k (relaxed tags b)

def sentFields (order : List String → List String) (k : ℕ) (tags : Tags Typed)
    (fields : List (String × Bson Typed)) : List (String × Serde) :=
  pick (order (order (names fields))) (fields.map fun field => (field.1, sent order k tags field.2))

theorem twice_relaxedFields (henum : Enumerates order) (fields : List (String × Bson Typed)) :
    twice order k (.obj (relaxedFields tags fields)) = .obj (sentFields order k tags fields) := by
  rw [twice_obj henum, relaxedFields_eq, names_map, List.map_map]
  rfl

theorem sentFields_names (henum : Enumerates order) (fields : List (String × Bson Typed)) :
    names (sentFields order k tags fields) = order (order (names fields)) := by
  apply pick_names
  intro x hx
  rw [names_map]
  exact (henum.mem _ x).mp ((henum.mem _ x).mp hx)

/-- Fields that are enumerated in their order are sent in it. -/
theorem sentFields_ordered (henum : Enumerates order) {fields : List (String × Bson Typed)}
    (h : order (order (names fields)) = names fields) : sentFields order k tags fields =
      fields.map fun field => (field.1, sent order k tags field.2) := by
  have hnodup : (names fields).Nodup := h ▸ henum.nodup _
  unfold sentFields
  rw [h, ← names_map (sent order k tags) fields]
  apply pick_self
  rw [names_map]
  exact hnodup

theorem readScope_lookup {fields scope : List (String × Serde)}
    (h : fields.lookup "$scope" = some (.obj scope)) :
    readScope tags fields = readFields tags scope := by
  induction fields with
  | nil => cases h
  | cons field fields ih =>
    obtain ⟨name, v⟩ := field
    by_cases hname : name = "$scope"
    · subst hname
      rw [List.lookup_cons_self] at h
      obtain rfl := Option.some.inj h
      rw [readScope, if_pos rfl]
    · rw [List.lookup_cons, beq_false_of_ne (Ne.symm hname)] at h
      cases v with
      | obj scope' => rw [readScope, if_neg hname, ih h]
      | _ => exact ih h

/-- The keys that are enumerated twice are the keys. -/
theorem enumerates_perm (henum : Enumerates order) {keys : List String} (h : keys.Nodup) :
    (order (order keys)).Perm keys := by
  rw [List.perm_ext_iff_of_nodup (henum.nodup _) h]
  intro x
  rw [henum.mem, henum.mem]

theorem read_code (henum : Enumerates order) (source : String)
    (scope : List (String × Bson Typed)) :
    read tags (sent order k tags (.code source scope)) =
      (readFields tags (sentFields order k tags scope)).map (.code source) := by
  have hkeys : ["$code", "$scope"].Nodup := by decide
  have hperm := enumerates_perm henum hkeys
  set order' := order (order ["$code", "$scope"]) with horder'
  have hsent : sent order k tags (.code source scope) = .obj (pick order'
      [("$code", .str source), ("$scope", .obj (sentFields order k tags scope))]) := by
    unfold sent
    rw [relaxed, twice_obj henum, List.map_cons, List.map_cons, twice_relaxedFields henum]
    rfl
  have hnames : names (pick order'
      [("$code", Serde.str source), ("$scope", .obj (sentFields order k tags scope))]) = order' :=
    pick_names fun x hx => hperm.subset hx
  have hcode : "$code" ∈ order' := hperm.mem_iff.mpr (by decide)
  have hscope : "$scope" ∈ order' := hperm.mem_iff.mpr (by decide)
  have hlength := congrArg List.length hnames
  rw [hperm.length_eq, List.length_map] at hlength
  rw [hsent, read, if_pos ⟨"$code", by decide, by rw [hnames]; exact hcode⟩,
    if_pos (by rw [hnames]; exact hscope), lookup_pick, if_pos hcode,
    readScope_lookup (by rw [lookup_pick, if_pos hscope]; rfl)]
  cases readFields tags (sentFields order k tags scope) with
  | none => rfl
  | some scope' => simp [hlength]

theorem read_typed (henum : Enumerates order) (hspec : tags.Spec order) (hk : 9 ≤ k)
    (t : Typed) : read tags (sent order k tags (.typed t)) = some (.typed t) := by
  have hsent : sent order k tags (.typed t) =
      reordered order (reordered order (.obj (tags.tagged t))) :=
    twice_small hk (hspec.small t)
  obtain ⟨fields, hfields, hnames⟩ : ∃ fields,
      reordered order (reordered order (.obj (tags.tagged t))) = .obj fields ∧
        ∀ x, x ∈ names fields ↔ x ∈ names (tags.tagged t) := by
    rw [← hsent]
    unfold sent
    rw [relaxed, twice_obj henum]
    refine ⟨_, rfl, fun x => ?_⟩
    rw [pick_names, henum.mem, henum.mem]
    intro y hy
    rw [names_map]
    exact (henum.mem _ y).mp ((henum.mem _ y).mp hy)
  obtain ⟨key, hkey, hmem⟩ := hspec.reserved t
  rw [hsent, hfields, read, if_pos ⟨key, hkey, (hnames key).mpr hmem⟩,
    if_neg fun h => hspec.scope t ((hnames _).mp h), hspec.untag t fields hfields]

/-- An object with a reserved key is not read as a document. -/
theorem read_reserved (hspec : tags.Spec order) {fields : List (String × Serde)}
    (h : ∃ key ∈ reserved, key ∈ names fields) (bs : List (String × Bson Typed)) :
    read tags (.obj fields) ≠ some (.doc bs) := by
  rw [read, if_pos h]
  by_cases hscope : "$scope" ∈ names fields
  · rw [if_pos hscope]
    split
    · split <;> simp
    · simp
  · rw [if_neg hscope]
    exact hspec.not_doc fields bs

/-- The fields of a document come back if each does and their order is kept. -/
theorem readFields_sent (henum : Enumerates order) {fields : List (String × Bson Typed)}
    (hfields : readFields tags (fields.map fun field => (field.1, sent order k tags field.2)) =
      some fields ↔ SurvivesFields order k fields) :
    readFields tags (sentFields order k tags fields) = some fields ↔
      order (order (names fields)) = names fields ∧ SurvivesFields order k fields := by
  constructor
  · intro h
    have hnames : names (sentFields order k tags fields) = order (order (names fields)) :=
      sentFields_names henum fields
    have hordered : order (order (names fields)) = names fields := by
      rw [← hnames, readFields_names h]
    rw [sentFields_ordered henum hordered] at h
    exact ⟨hordered, hfields.mp h⟩
  · rintro ⟨hordered, hsurvive⟩
    rw [sentFields_ordered henum hordered]
    exact hfields.mpr hsurvive

mutual

/-- What is sent is read as the value that was stored exactly for the values that survive. -/
theorem read_sent (henum : Enumerates order) (hspec : tags.Spec order) (hk : 9 ≤ k) :
    ∀ b, read tags (sent order k tags b) = some b ↔ Survives order k b
  | .null => iff_of_true rfl trivial
  | .bool _ => iff_of_true rfl trivial
  | .string _ => iff_of_true rfl trivial
  | .int32 i => by
    refine iff_of_true ?_ trivial
    unfold sent
    rw [relaxed, twice_num_int]
    exact read_int32 hk i
  | .int64 i => by
    unfold sent
    rw [relaxed, twice_num_int]
    exact read_int64 i
  | .double q => by
    unfold sent
    rw [relaxed, twice_num_float]
    exact read_double q
  | .typed t => iff_of_true (read_typed henum hspec hk t) trivial
  | .code source scope => by
    rw [read_code henum, Survives, ← readFields_sent henum (readFields_each henum hspec hk scope)]
    simp
  | .arr xs => by
    have hsent : sent order k tags (.arr xs) = .arr (xs.map (sent order k tags)) := by
      unfold sent
      rw [relaxed, twice_arr, relaxedList_eq, List.map_map]
      rfl
    rw [hsent, read, Survives, ← readList_each henum hspec hk xs]
    simp
  | .doc fields => by
    have hsent : sent order k tags (.doc fields) = .obj (sentFields order k tags fields) := by
      unfold sent
      rw [relaxed, twice_relaxedFields henum]
    have hkeys : ∀ key, key ∈ names (sentFields order k tags fields) ↔ key ∈ names fields := by
      intro key
      rw [sentFields_names henum, henum.mem, henum.mem]
    rw [hsent, Survives, ← readFields_sent henum (readFields_each henum hspec hk fields)]
    by_cases hreserved : ∃ key ∈ reserved, key ∈ names fields
    · obtain ⟨key, hkey, hmem⟩ := hreserved
      exact iff_of_false (read_reserved hspec ⟨key, hkey, (hkeys key).mpr hmem⟩ fields)
        fun h => h.1 key hkey hmem
    · have hnot : ¬ ∃ key ∈ reserved, key ∈ names (sentFields order k tags fields) := by
        simpa only [hkeys] using hreserved
      have hall : ∀ key ∈ reserved, key ∉ names fields := fun key hkey hmem =>
        hreserved ⟨key, hkey, hmem⟩
      rw [read, if_neg hnot, and_iff_right hall]
      simp

theorem readList_each (henum : Enumerates order) (hspec : tags.Spec order) (hk : 9 ≤ k) :
    ∀ xs, readList tags (xs.map (sent order k tags)) = some xs ↔ SurvivesList order k xs
  | [] => iff_of_true rfl trivial
  | x :: xs => by
    rw [List.map_cons, readList, SurvivesList, ← read_sent henum hspec hk x,
      ← readList_each henum hspec hk xs]
    simp only [Option.bind_eq_bind, Option.bind_eq_some_iff, Option.some.injEq, List.cons.injEq]
    constructor
    · rintro ⟨b, hb, bs, hbs, rfl, rfl⟩
      exact ⟨hb, hbs⟩
    · rintro ⟨hb, hbs⟩
      exact ⟨x, hb, xs, hbs, rfl, rfl⟩

theorem readFields_each (henum : Enumerates order) (hspec : tags.Spec order) (hk : 9 ≤ k) :
    ∀ fields, readFields tags (fields.map fun field => (field.1, sent order k tags field.2)) =
      some fields ↔ SurvivesFields order k fields
  | [] => iff_of_true rfl trivial
  | (name, x) :: fields => by
    rw [List.map_cons, readFields, SurvivesFields, ← read_sent henum hspec hk x,
      ← readFields_each henum hspec hk fields]
    simp only [Option.bind_eq_bind, Option.bind_eq_some_iff, Option.some.injEq, List.cons.injEq,
      Prod.mk.injEq, true_and]
    constructor
    · rintro ⟨b, hb, bs, hbs, rfl, rfl⟩
      exact ⟨hb, hbs⟩
    · rintro ⟨hb, hbs⟩
      exact ⟨x, hb, fields, hbs, rfl, rfl⟩

end

end LvimDb.Document
