import LvimDb.Document.Bson

/-!
# Values that the client takes in and gives out

A number of JSON text becomes a double and is written with `k + 1` significant digits; the
fields of a table come in the order in which Lua enumerates them.
-/

namespace LvimDb.Document
open Cell (Serde)
open Daemon (Json)

variable {Typed : Type}

/-! ### Numbers -/

/-- The number a JSON reader finds in what `vim.json.encode` writes of a double. -/
def spelled (k : ℕ) (q : ℚ) : Serde :=
  match (Lib.general k q).literal with
  | some i => .int i
  | none => .float (Lib.toDouble (Lib.general k q).value)

variable {k : ℕ}

theorem decode_spelled (q : ℚ) : (spelled k q).decode = .num (Lib.carried k q) := by
  unfold spelled Lib.carried
  rw [← Lib.general_value]
  split
  · next i hi =>
    rw [Serde.decode, Lib.Numeral.value_of_literal hi]
  · rfl

theorem spelled_int {i : ℤ} (h : i.natAbs < 10 ^ (k + 1)) : spelled k (i : ℚ) = .int i := by
  unfold spelled
  rw [Lib.literal_general h]

theorem natAbs_lt {i : ℤ} {n : ℕ} : |(i : ℚ)| < 10 ^ n ↔ i.natAbs < 10 ^ n := by
  rw [← Int.cast_abs, Int.abs_eq_natAbs, Int.cast_natCast]
  exact_mod_cast Iff.rfl

/-- A double that has the text of an integer is that integer. -/
theorem eq_of_literal {q : ℚ} {i j : ℤ} (hq : q = j) (h : (Lib.general k q).literal = some i) :
    i = j ∧ j.natAbs < 10 ^ (k + 1) := by
  obtain ⟨hsig, habs⟩ := Lib.general_literal h
  rw [hq] at hsig habs
  have hj := natAbs_lt.mp habs
  rw [Lib.significant_int hj] at hsig
  exact ⟨(Int.cast_injective hsig).symm, hj⟩

theorem carried_int {i : ℤ} (h : i.natAbs < 10 ^ (k + 1)) (hd : Lib.toDouble i = i) :
    Lib.carried k (i : ℚ) = i := by
  unfold Lib.carried
  rw [Lib.significant_int h, hd]

variable {tags : Tags Typed}

theorem read_int32 (hk : 9 ≤ k) (i : Int32) :
    read tags (spelled k (Lib.carried k (Lib.toDouble i.toInt))) = some (.int32 i) := by
  have hlo := i.le_toInt
  have hhi := i.toInt_lt
  have hd : Lib.toDouble (i.toInt : ℚ) = i.toInt := Lib.toDouble_int (by omega)
  have hlt : i.toInt.natAbs < 10 ^ (k + 1) := by
    have hpow : 10 ^ (9 + 1) ≤ 10 ^ (k + 1) := Nat.pow_le_pow_right (by decide) (by omega)
    omega
  rw [hd, carried_int hlt hd, spelled_int hlt, read, readInt, if_pos ⟨hlo, hhi⟩,
    Int32.ofInt_toInt]

/-- A 64-bit integer comes back as one if it is outside of the 32 bits, is a double, and has at
most `k + 1` digits. -/
theorem read_int64 (i : Int64) :
    read tags (spelled k (Lib.carried k (Lib.toDouble i.toInt))) = some (.int64 i) ↔
      ¬ (-2 ^ 31 ≤ i.toInt ∧ i.toInt < 2 ^ 31) ∧ Lib.toDouble i.toInt = i.toInt ∧
        i.toInt.natAbs < 10 ^ (k + 1) := by
  constructor
  · intro h
    unfold spelled at h
    split at h
    · next j hj =>
      rw [read, Option.some.injEq] at h
      unfold readInt at h
      split at h
      · cases h
      · next hnarrow =>
        split at h
        · next hwide =>
          obtain rfl := Bson.int64.inj h
          rw [Int64.toInt_ofInt_of_le hwide.1 hwide.2] at hj ⊢
          have htwice : Lib.carried k (Lib.carried k (Lib.toDouble (j : ℚ))) =
              Lib.toDouble (j : ℚ) := by
            rw [Lib.carried, (Lib.general_literal hj).1]
          rw [Lib.carried_twice htwice] at hj
          obtain ⟨m, hm⟩ := Lib.toDouble_integral j
          obtain ⟨rfl, hlt⟩ := eq_of_literal hm hj
          exact ⟨hnarrow, hm, hlt⟩
        · cases h
    · cases h
  · rintro ⟨hnarrow, hd, hlt⟩
    rw [hd, carried_int hlt hd, spelled_int hlt, read, readInt, if_neg hnarrow,
      if_pos ⟨i.le_toInt, i.toInt_lt⟩, Int64.ofInt_toInt]

/-- A double comes back as one if `k + 1` digits say it, and if these are not the text of an
integer of 64 bits. -/
theorem read_double (q : ℚ) :
    read tags (spelled k (Lib.carried k q)) = some (.double q) ↔
      Lib.carried k q = q ∧
        ¬ ∃ i : ℤ, q = i ∧ i.natAbs < 10 ^ (k + 1) ∧ -2 ^ 63 ≤ i ∧ i < 2 ^ 63 := by
  have hinteger : ∀ i : ℤ, Lib.carried k q = q → (Lib.general k q).literal = some i → q = i := by
    intro i hq hi
    obtain ⟨m, hm⟩ := Lib.toDouble_integral i
    have hqm : q = m := by
      rw [← hq, Lib.carried, (Lib.general_literal hi).1, hm]
    obtain ⟨rfl, -⟩ := eq_of_literal hqm hi
    exact hqm
  constructor
  · intro h
    have htwice : Lib.carried k (Lib.carried k q) = q := by
      have hdecode := decode_spelled (k := k) (Lib.carried k q)
      revert h hdecode
      cases spelled k (Lib.carried k q) with
      | int i =>
        intro h hdecode
        rw [Serde.decode, Json.num.injEq] at hdecode
        rw [read, Option.some.injEq] at h
        unfold readInt at h
        split_ifs at h
        rw [← hdecode]
        exact Bson.double.inj h
      | float x =>
        intro h hdecode
        rw [Serde.decode, Json.num.injEq] at hdecode
        rw [read, Option.some.injEq] at h
        rw [← hdecode]
        exact Bson.double.inj h
      | _ =>
        intro h hdecode
        cases hdecode
    have hq := Lib.carried_twice htwice
    refine ⟨hq, ?_⟩
    rintro ⟨i, hi, hlt, hwide⟩
    rw [hq, hi, spelled_int hlt, read, readInt, Option.some.injEq] at h
    split_ifs at h
  · rintro ⟨hq, hnot⟩
    rw [hq]
    unfold spelled
    split
    · next i hi =>
      have hqi := hinteger i hq hi
      obtain ⟨-, hlt⟩ := eq_of_literal hqi hi
      have hwide : ¬ (-2 ^ 63 ≤ i ∧ i < 2 ^ 63) := fun hw => hnot ⟨i, hqi, hlt, hw⟩
      have hnarrow : ¬ (-2 ^ 31 ≤ i ∧ i < 2 ^ 31) := by omega
      rw [read, readInt, if_neg hnarrow, if_neg hwide, ← hqi]
      congr 2
      unfold Lib.carried at hq
      rw [(Lib.general_literal hi).1, ← hqi] at hq
      exact hq
    · rw [read, Lib.general_value]
      congr 2

/-! ### Tables -/

section Fields
variable {α β : Type}

/-- The fields of these names, in their order. -/
def pick (order : List String) (fields : List (String × α)) : List (String × α) :=
  order.filterMap fun name => (fields.lookup name).map (name, ·)

/-- The fields of a table in the order in which they are enumerated. -/
def arranged (order : List String → List String) (fields : List (String × α)) :
    List (String × α) :=
  pick (order (names fields)) fields

/-- Lua enumerates every key of a table once. -/
structure Enumerates (order : List String → List String) : Prop where
  nodup : ∀ keys, (order keys).Nodup
  mem : ∀ keys x, x ∈ order keys ↔ x ∈ keys

theorem lookup_isSome {fields : List (String × α)} {name : String} :
    (fields.lookup name).isSome ↔ name ∈ names fields := by
  rw [List.lookup_isSome_iff]
  simp [names]

theorem pick_names {order : List String} {fields : List (String × α)}
    (h : ∀ x ∈ order, x ∈ names fields) : names (pick order fields) = order := by
  induction order with
  | nil => rfl
  | cons name order ih =>
    obtain ⟨v, hv⟩ := Option.isSome_iff_exists.mp
      (lookup_isSome.mpr (h name (List.mem_cons_self ..)))
    have hrest := ih fun x hx => h x (List.mem_cons_of_mem _ hx)
    unfold pick names at hrest ⊢
    rw [List.filterMap_cons, hv]
    exact congrArg (name :: ·) hrest

theorem lookup_pick {order : List String} {fields : List (String × α)} {name : String} :
    (pick order fields).lookup name = if name ∈ order then fields.lookup name else none := by
  induction order with
  | nil => rfl
  | cons key order ih =>
    unfold pick at ih ⊢
    rw [List.filterMap_cons]
    by_cases hname : name = key
    · subst hname
      cases hlookup : fields.lookup name with
      | none =>
        simp only [Option.map_none, List.mem_cons, true_or, if_true]
        rw [ih, hlookup, ite_self]
      | some v => simp
    · cases hlookup : fields.lookup key with
      | none => simpa [hname] using ih
      | some v =>
        simp only [Option.map_some, List.lookup_cons, beq_false_of_ne hname]
        simpa [hname] using ih

theorem mem_of_pick {order : List String} {fields : List (String × α)} {field : String × α}
    (h : field ∈ pick order fields) : field ∈ fields := by
  obtain ⟨name, -, hname⟩ := List.mem_filterMap.mp h
  obtain ⟨v, hv, rfl⟩ := Option.map_eq_some_iff.mp hname
  obtain ⟨before, after, rfl, -⟩ := List.lookup_eq_some_iff.mp hv
  simp

theorem lookup_map (f : α → β) (fields : List (String × α)) (name : String) :
    (fields.map fun field => (field.1, f field.2)).lookup name = (fields.lookup name).map f := by
  induction fields with
  | nil => rfl
  | cons field fields ih =>
    obtain ⟨key, v⟩ := field
    simp only [List.map_cons, List.lookup_cons]
    split
    · rfl
    · exact ih

theorem pick_map (f : α → β) (order : List String) (fields : List (String × α)) :
    pick order (fields.map fun field => (field.1, f field.2)) =
      (pick order fields).map fun field => (field.1, f field.2) := by
  unfold pick
  rw [List.map_filterMap]
  congr 1
  funext name
  rw [lookup_map, Option.map_map, Option.map_map]
  rfl

theorem pick_pick {order order' : List String} {fields : List (String × α)}
    (h : ∀ x ∈ order, x ∈ order') : pick order (pick order' fields) = pick order fields := by
  apply List.filterMap_congr
  intro name hname
  rw [lookup_pick, if_pos (h name hname)]

theorem pick_self {fields : List (String × α)} (h : (names fields).Nodup) :
    pick (names fields) fields = fields := by
  induction fields with
  | nil => rfl
  | cons field fields ih =>
    obtain ⟨key, v⟩ := field
    obtain ⟨hkey, hnodup⟩ := List.nodup_cons.mp h
    have hrest : pick (names fields) ((key, v) :: fields) = pick (names fields) fields := by
      apply List.filterMap_congr
      intro name hname
      have hne : name ≠ key := fun heq => hkey (heq ▸ hname)
      rw [List.lookup_cons, beq_false_of_ne hne]
    have hcons : pick (key :: names fields) ((key, v) :: fields) =
        (key, v) :: pick (names fields) ((key, v) :: fields) := by
      simp [pick]
    change pick (key :: names fields) ((key, v) :: fields) = (key, v) :: fields
    rw [hcons, hrest, ih hnodup]

end Fields

/-! ### Values -/

variable (order : List String → List String) (k : ℕ)

mutual

/-- What a JSON reader finds in what `vim.json.encode` writes of a value. -/
def written : Json → Serde
  | .null => .null
  | .bool b => .bool b
  | .num q => spelled k q
  | .str s => .str s
  | .arr xs => .arr (writtenList xs)
  | .obj fields => .obj (arranged order (writtenFields fields))

def writtenList : List Json → List Serde
  | [] => []
  | x :: xs => written x :: writtenList xs

def writtenFields : List (String × Json) → List (String × Serde)
  | [] => []
  | (name, x) :: fields => (name, written x) :: writtenFields fields

end

/-- A value that the client takes in and gives out. -/
def carry (v : Serde) : Serde := written order k v.decode

/-- What is received, opened as a text, read from it, and sent. -/
def twice (v : Serde) : Serde := carry order k (carry order k v)

variable {order k}

theorem decodeList_eq (xs : List Serde) : Cell.decodeList xs = xs.map Serde.decode := by
  induction xs with
  | nil => rfl
  | cons x xs ih => rw [Cell.decodeList, ih, List.map_cons]

theorem decodeFields_eq (fields : List (String × Serde)) :
    Cell.decodeFields fields = fields.map fun field => (field.1, field.2.decode) := by
  induction fields with
  | nil => rfl
  | cons field fields ih =>
    obtain ⟨name, v⟩ := field
    rw [Cell.decodeFields, ih, List.map_cons]

theorem writtenList_eq (xs : List Json) : writtenList order k xs = xs.map (written order k) := by
  induction xs with
  | nil => rfl
  | cons x xs ih => rw [writtenList, ih, List.map_cons]

theorem writtenFields_eq (fields : List (String × Json)) :
    writtenFields order k fields = fields.map fun field => (field.1, written order k field.2) := by
  induction fields with
  | nil => rfl
  | cons field fields ih =>
    obtain ⟨name, v⟩ := field
    rw [writtenFields, ih, List.map_cons]

theorem carry_arr (xs : List Serde) : carry order k (.arr xs) = .arr (xs.map (carry order k)) := by
  unfold carry
  rw [Serde.decode, written, decodeList_eq, writtenList_eq, List.map_map]
  rfl

theorem carry_obj (fields : List (String × Serde)) :
    carry order k (.obj fields) =
      .obj (arranged order (fields.map fun field => (field.1, carry order k field.2))) := by
  unfold carry
  rw [Serde.decode, written, decodeFields_eq, writtenFields_eq, List.map_map]
  rfl

theorem twice_arr (xs : List Serde) : twice order k (.arr xs) = .arr (xs.map (twice order k)) := by
  unfold twice
  rw [carry_arr, carry_arr, List.map_map]
  rfl

theorem names_map {α β : Type} (f : α → β) (fields : List (String × α)) :
    names (fields.map fun field => (field.1, f field.2)) = names fields := by
  unfold names
  rw [List.map_map]
  rfl

theorem twice_obj (henum : Enumerates order) (fields : List (String × Serde)) :
    twice order k (.obj fields) = .obj (pick (order (order (names fields)))
      (fields.map fun field => (field.1, twice order k field.2))) := by
  have hnames : names (pick (order (names fields))
      (fields.map fun field => (field.1, carry order k field.2))) = order (names fields) := by
    apply pick_names
    intro x hx
    rw [names_map]
    exact (henum.mem _ x).mp hx
  unfold twice
  rw [carry_obj, carry_obj]
  simp only [arranged, names_map, hnames]
  rw [← pick_map, List.map_map, pick_pick fun x => (henum.mem _ x).mp]
  rfl

theorem twice_num_int (i : ℤ) :
    twice order k (.int i) = spelled k (Lib.carried k (Lib.toDouble i)) := by
  unfold twice carry
  rw [Serde.decode, written, decode_spelled, written]

theorem twice_num_float (q : ℚ) :
    twice order k (.float q) = spelled k (Lib.carried k q) := by
  unfold twice carry
  rw [Serde.decode, written, decode_spelled, written]

end LvimDb.Document
