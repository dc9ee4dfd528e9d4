import Mathlib.Data.List.Basic

/-!
# Percent encoding and the parts of a URI

Bytes are written as themselves where that is safe and else as `%` and two digits. A URI with an
authority is put together of its parts, and cut into them again.
-/

namespace Lib.Uri

/-! ### Percent encoding -/

def hexDigit (n : ℕ) : Char := n.digitChar.toUpper

def hexValue (c : Char) : Option ℕ :=
  if '0' ≤ c ∧ c ≤ '9' then some (c.toNat - '0'.toNat)
  else if 'A' ≤ c ∧ c ≤ 'F' then some (c.toNat - 'A'.toNat + 10)
  else if 'a' ≤ c ∧ c ≤ 'f' then some (c.toNat - 'a'.toNat + 10)
  else none

def escape (safe : Char → Bool) (b : UInt8) : List Char :=
  let c := Char.ofNat b.toNat
  if safe c then [c] else ['%', hexDigit (b.toNat / 16), hexDigit (b.toNat % 16)]

/-- The byte of an escape at the beginning of a text, and the text behind it. -/
def readEscape : List Char → Option (UInt8 × List Char)
  | '%' :: h :: l :: s =>
    match hexValue h, hexValue l with
    | some x, some y => some (UInt8.ofNat (16 * x + y), s)
    | _, _ => none
  | _ => none

def decodeFrom : ℕ → List Char → List UInt8
  | 0, _ => []
  | _, [] => []
  | n + 1, c :: s =>
    match readEscape (c :: s) with
    | some (b, rest) => b :: decodeFrom n rest
    | none => String.utf8EncodeChar c ++ decodeFrom n s

/-- Every escape is read as its byte. -/
def decode (s : List Char) : List UInt8 := decodeFrom s.length s

/-- Safe characters are ASCII, and `%` is none of them. -/
def Sound (safe : Char → Bool) : Prop := ∀ c, safe c = true → c.toNat < 128 ∧ c ≠ '%'

variable {safe : Char → Bool} {b : UInt8} {s : List Char} {n : ℕ}

theorem hexValue_hexDigit (h : n < 16) : hexValue (hexDigit n) = some n := by
  have hall : ∀ n : Fin 16, hexValue (hexDigit n) = some n.val := by decide
  exact hall ⟨n, h⟩

theorem readEscape_escape (hsafe : safe (Char.ofNat b.toNat) = false) (s : List Char) :
    readEscape (escape safe b ++ s) = some (b, s) := by
  have hb : b.toNat < 256 := b.toNat_lt
  have hhigh : b.toNat / 16 < 16 := by omega
  have hlow : b.toNat % 16 < 16 := by omega
  have hjoin : 16 * (b.toNat / 16) + b.toNat % 16 = b.toNat := by omega
  simp only [escape, hsafe, Bool.false_eq_true, if_false, List.cons_append, List.nil_append,
    readEscape, hexValue_hexDigit hhigh, hexValue_hexDigit hlow, hjoin]
  simp

theorem toNat_ofNat {n : ℕ} (h : n < 256) : (Char.ofNat n).toNat = n := by
  have hvalid : n.isValidChar := .inl (by omega)
  have hof : Char.ofNat n = Char.ofNatAux n hvalid := dif_pos hvalid
  rw [hof]
  rfl

theorem utf8EncodeChar_ascii {c : Char} (h : c.toNat < 128) :
    String.utf8EncodeChar c = [UInt8.ofNat c.toNat] := if_pos (Nat.le_of_lt_succ h)

/-- With enough fuel a byte is read back from what it was written as. -/
theorem decodeFrom_escape (h : Sound safe) (b : UInt8) (s : List Char) (n : ℕ) :
    decodeFrom (n + 1) (escape safe b ++ s) = b :: decodeFrom n s := by
  cases hsafe : safe (Char.ofNat b.toNat) with
  | true =>
    obtain ⟨hascii, hne⟩ := h _ hsafe
    have hb : (Char.ofNat b.toNat).toNat = b.toNat := toNat_ofNat b.toNat_lt
    have hread : readEscape (Char.ofNat b.toNat :: s) = none := by
      unfold readEscape
      split
      · next heq => exact absurd (List.cons.inj heq).1 hne
      · rfl
    have hone : escape safe b ++ s = Char.ofNat b.toNat :: s := by simp [escape, hsafe]
    rw [hone, decodeFrom, hread]
    simp only [utf8EncodeChar_ascii hascii, hb, List.singleton_append]
    simp
  | false =>
    have hread := readEscape_escape hsafe s
    cases htext : escape safe b ++ s with
    | nil =>
      rw [htext] at hread
      cases hread
    | cons c rest =>
      rw [htext] at hread
      rw [decodeFrom, hread]

theorem decodeFrom_escapes (h : Sound safe) (bs : List UInt8) (hn : bs.length ≤ n) :
    decodeFrom n (bs.flatMap (escape safe)) = bs := by
  induction bs generalizing n with
  | nil => cases n <;> rfl
  | cons b bs ih =>
    obtain ⟨n, rfl⟩ := Nat.exists_eq_succ_of_ne_zero (n := n) (by
      rw [List.length_cons] at hn
      omega)
    rw [List.flatMap_cons, decodeFrom_escape h, ih (by simpa using hn)]

theorem length_escapes (safe : Char → Bool) (bs : List UInt8) :
    bs.length ≤ (bs.flatMap (escape safe)).length := by
  induction bs with
  | nil => exact Nat.le_refl _
  | cons b bs ih =>
    have hone : 1 ≤ (escape safe b).length := by
      unfold escape
      dsimp only
      split
      · exact Nat.le_refl 1
      · exact Nat.le_of_ble_eq_true rfl
    rw [List.flatMap_cons, List.length_append, List.length_cons]
    omega

/-- What was written is read back. -/
theorem decode_escapes (h : Sound safe) (bs : List UInt8) :
    decode (bs.flatMap (escape safe)) = bs := decodeFrom_escapes h bs (length_escapes safe bs)

theorem mem_escape {c : Char} (h : c ∈ escape safe b) :
    safe c = true ∨ c = '%' ∨ ∃ n < 16, c = hexDigit n := by
  have hb : b.toNat < 256 := b.toNat_lt
  unfold escape at h
  dsimp only at h
  split at h
  · next hsafe =>
    rw [List.mem_singleton.mp h]
    exact .inl hsafe
  · simp only [List.mem_cons, List.not_mem_nil, or_false] at h
    rcases h with rfl | rfl | rfl
    · exact .inr (.inl rfl)
    · exact .inr (.inr ⟨_, by omega, rfl⟩)
    · exact .inr (.inr ⟨_, by omega, rfl⟩)

/-- A character that is written as an escape stands in no text of escapes. -/
theorem notMem_escapes {c : Char} (hsafe : safe c = false) (hpct : c ≠ '%')
    (hhex : hexValue c = none) (bs : List UInt8) : c ∉ bs.flatMap (escape safe) := by
  intro hmem
  obtain ⟨b, -, hc⟩ := List.mem_flatMap.mp hmem
  rcases mem_escape hc with h | rfl | ⟨n, hn, rfl⟩
  · rw [hsafe] at h
    cases h
  · exact hpct rfl
  · rw [hexValue_hexDigit hn] at hhex
    cases hhex

/-! ### The parts -/

structure Parts where
  scheme : List Char
  userinfo : Option (List Char)
  host : List Char
  port : List Char
  path : List Char
  fragment : Option (List Char)
  deriving DecidableEq

/-- The text before the first `c`, and the one behind it. -/
def cut (c : Char) (s : List Char) : Option (List Char × List Char) :=
  if c ∈ s then some (s.takeWhile (· ≠ c), (s.dropWhile (· ≠ c)).drop 1) else none

/-- The authority ends before one of these. -/
def endsAuthority (c : Char) : Bool := c = '/' || c = '?' || c = '#'

def parse (s : List Char) : Option Parts := do
  let (scheme, rest) ← cut ':' s
  if rest.take 2 ≠ ['/', '/'] then none
  else do
    let authority := (rest.drop 2).takeWhile fun c => !endsAuthority c
    let tail := (rest.drop 2).dropWhile fun c => !endsAuthority c
    let server := (cut '@' authority).elim authority Prod.snd
    let (port, host) ← cut ':' server.reverse
    some ⟨scheme, (cut '@' authority).map Prod.fst, host.reverse, port.reverse,
      tail.takeWhile fun c => c ≠ '?' && c ≠ '#', (cut '#' tail).map Prod.snd⟩

def Parts.compose (u : Parts) : List Char :=
  u.scheme ++ ':' :: '/' :: '/' :: (u.userinfo.elim [] (· ++ ['@']) ++
    (u.host ++ ':' :: u.port) ++ u.path ++ u.fragment.elim [] ('#' :: ·))

/-- Parts in which nothing stands that would end them. -/
structure Parts.Proper (u : Parts) : Prop where
  scheme : ':' ∉ u.scheme
  userinfo : ∀ s, u.userinfo = some s → '@' ∉ s ∧ ∀ c ∈ s, endsAuthority c = false
  host : '@' ∉ u.host ∧ ∀ c ∈ u.host, endsAuthority c = false
  port : '@' ∉ u.port ∧ ':' ∉ u.port ∧ ∀ c ∈ u.port, endsAuthority c = false
  path : ∃ rest, u.path = '/' :: rest ∧ ∀ c ∈ rest, c ≠ '?' ∧ c ≠ '#'

theorem cut_append {c : Char} {a : List Char} (h : c ∉ a) (b : List Char) :
    cut c (a ++ c :: b) = some (a, b) := by
  have hall : ∀ d ∈ a, decide (d ≠ c) = true := by
    intro d hd
    apply decide_eq_true
    rintro rfl
    exact h hd
  rw [cut, if_pos (List.mem_append_right a List.mem_cons_self), List.takeWhile_append_of_pos hall,
    List.dropWhile_append_of_pos hall]
  simp

theorem cut_none {c : Char} (h : c ∉ s) : cut c s = none := if_neg h

/-- A composed URI is cut into the parts that it was made of. -/
theorem parse_compose {u : Parts} (h : u.Proper) : parse u.compose = some u := by
  obtain ⟨rest, hpath, hrest⟩ := h.path
  let userinfo := u.userinfo.elim [] (· ++ ['@'])
  let authority := userinfo ++ (u.host ++ ':' :: u.port)
  let tail := u.path ++ u.fragment.elim [] ('#' :: ·)
  have hcompose : u.compose = u.scheme ++ ':' :: '/' :: '/' :: (authority ++ tail) := by
    simp only [Parts.compose, authority, tail, userinfo, List.append_assoc]
  have hplain : ∀ c ∈ authority, (!endsAuthority c) = true := by
    intro c hc
    rw [Bool.not_eq_true']
    rcases List.mem_append.mp hc with hc | hc
    · cases hinfo : u.userinfo with
      | none =>
        simp only [userinfo, hinfo] at hc
        cases hc
      | some s =>
        simp only [userinfo, hinfo, Option.elim_some] at hc
        rcases List.mem_append.mp hc with hc | hc
        · exact (h.userinfo s hinfo).2 c hc
        · rw [List.mem_singleton.mp hc]
          rfl
    · rcases List.mem_append.mp hc with hc | hc
      · exact h.host.2 c hc
      · rcases List.mem_cons.mp hc with rfl | hc
        · rfl
        · exact h.port.2.2 c hc
  have htail : tail = '/' :: (rest ++ u.fragment.elim [] ('#' :: ·)) := by
    simp only [tail, hpath, List.cons_append]
  have htake : (authority ++ tail).takeWhile (fun c => !endsAuthority c) = authority := by
    rw [List.takeWhile_append_of_pos hplain, htail, List.takeWhile_cons_of_neg (by decide),
      List.append_nil]
  have hdrop : (authority ++ tail).dropWhile (fun c => !endsAuthority c) = tail := by
    rw [List.dropWhile_append_of_pos hplain, htail, List.dropWhile_cons_of_neg (by decide)]
  have hserver : '@' ∉ u.host ++ ':' :: u.port := by
    intro hmem
    rcases List.mem_append.mp hmem with hc | hc
    · exact h.host.1 hc
    · rcases List.mem_cons.mp hc with hc | hc
      · cases hc
      · exact h.port.1 hc
  have hinfo : (cut '@' authority).map Prod.fst = u.userinfo ∧
      (cut '@' authority).elim authority Prod.snd = u.host ++ ':' :: u.port := by
    cases hsome : u.userinfo with
    | none =>
      have heq : authority = u.host ++ ':' :: u.port := by
        simp only [authority, userinfo, hsome]
        rfl
      rw [heq, cut_none hserver]
      exact ⟨rfl, rfl⟩
    | some s =>
      have heq : authority = s ++ '@' :: (u.host ++ ':' :: u.port) := by
        simp only [authority, userinfo, hsome, Option.elim_some, List.append_assoc]
        rfl
      rw [heq, cut_append (h.userinfo s hsome).1]
      exact ⟨rfl, rfl⟩
  have hport : cut ':' (u.host ++ ':' :: u.port).reverse = some (u.port.reverse, u.host.reverse) := by
    have hrev : (u.host ++ ':' :: u.port).reverse = u.port.reverse ++ ':' :: u.host.reverse := by
      simp
    rw [hrev]
    exact cut_append (fun hc => h.port.2.1 (List.mem_reverse.mp hc)) _
  have hgood : ∀ c ∈ u.path, (c ≠ '?' && c ≠ '#') = true := by
    intro c hc
    rw [hpath] at hc
    rcases List.mem_cons.mp hc with rfl | hc
    · decide
    · simp [hrest c hc]
  have hnosharp : '#' ∉ u.path := by
    intro hc
    simpa using hgood '#' hc
  have hpathtake : tail.takeWhile (fun c => c ≠ '?' && c ≠ '#') = u.path := by
    rw [List.takeWhile_append_of_pos hgood]
    cases u.fragment with
    | none => simp
    | some f => simp
  have hfragment : (cut '#' tail).map Prod.snd = u.fragment := by
    cases hsome : u.fragment with
    | none =>
      have heq : tail = u.path := by simp only [tail, hsome, Option.elim_none, List.append_nil]
      rw [heq, cut_none hnosharp]
      rfl
    | some f =>
      have heq : tail = u.path ++ '#' :: f := by simp only [tail, hsome, Option.elim_some]
      rw [heq, cut_append hnosharp]
      rfl
  have hslashes : ('/' :: '/' :: (authority ++ tail)).take 2 = ['/', '/'] := rfl
  rw [hcompose, parse, cut_append h.scheme]
  simp only [Option.bind_eq_bind, Option.bind_some, hslashes, ne_eq, not_true_eq_false, if_false,
    List.drop_succ_cons, List.drop_zero, htake, hdrop, hinfo.1, hinfo.2, hport, List.reverse_reverse]
  simp only [hpathtake, hfragment]

end Lib.Uri
