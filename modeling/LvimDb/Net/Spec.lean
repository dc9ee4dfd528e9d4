import Mathlib.Data.List.DropRight
import Mathlib.Data.Nat.Digits.Defs
import LvimDb.Lib.Numeral
import LvimDb.Secret.Template

/-!
# Connection specs

`ConnSpec` of spec.rs as `conn.connect` receives it, and the addresses that are made of it.
-/

namespace LvimDb.Net
open Lib (isDigit_toDigits)
open Secret (Text)

/-! ### TLS -/

/-- `TlsMode`. -/
inductive TlsMode
  | disable
  | prefer
  | require
  | verifyCa
  | verifyFull
  deriving DecidableEq

structure TlsSpec where
  mode : TlsMode
  ca : Option Text
  clientCert : Option Text
  clientKey : Option Text

namespace TlsSpec

/-- A server without TLS is rejected. -/
def required (tls : TlsSpec) : Bool :=
  match tls.mode with
  | .require | .verifyCa | .verifyFull => true
  | .disable | .prefer => false

def wanted (tls : TlsSpec) : Bool :=
  match tls.mode with
  | .disable => false
  | .prefer | .require | .verifyCa | .verifyFull => true

def verifiesCert (tls : TlsSpec) : Bool :=
  match tls.mode with
  | .verifyCa | .verifyFull => true
  | .disable | .prefer | .require => false

def verifiesHostname (tls : TlsSpec) : Bool :=
  match tls.mode with
  | .verifyFull => true
  | .disable | .prefer | .require | .verifyCa => false

theorem wanted_of_required {tls : TlsSpec} (h : tls.required = true) : tls.wanted = true := by
  unfold required at h
  unfold wanted
  split at h
  · next hmode => rw [hmode]
  · next hmode => rw [hmode]
  · next hmode => rw [hmode]
  · cases h
  · cases h

end TlsSpec

/-! ### The spec -/

inductive AuthSpec
  | none
  | password (user password : Text)
  | clientCert (cert key keyPassword user : Text)
  | provider (provider token user : Text)
  | kerberos (principal : Option Text)

inductive TunnelAuth
  | agent
  | key (path passphrase : Text)
  | password (password : Text)

structure TunnelSpec where
  host : Text
  port : UInt16
  user : Text
  auth : TunnelAuth

structure ConnSpec where
  driver : Text
  params : Text → Option Text
  auth : AuthSpec
  tls : TlsSpec
  tunnel : Option TunnelSpec

/-- `parse::<u16>`: digits, with a plus sign before them or not. -/
def parseU16 (s : Text) : Option Nat :=
  let digits := if '+' :: s.drop 1 = s then s.drop 1 else s
  if digits ≠ [] ∧ digits.all Char.isDigit ∧ Nat.ofDigitChars 10 digits 0 < 65536 then
    some (Nat.ofDigitChars 10 digits 0)
  else none

namespace ConnSpec
variable (spec : ConnSpec)

def paramOpt (key : String) : Option Text := (spec.params key.toList).filter (!·.isEmpty)

def param (key : String) : Except String Text :=
  match spec.paramOpt key with
  | some v => .ok v
  | none => .error ("missing required parameter '" ++ key ++ "'")

def port (default : Nat) : Nat := ((spec.paramOpt "port").bind parseU16).getD default

end ConnSpec

/-! ### Addresses -/

/-- `format!("{host}:{port}")`. -/
def address (host : Text) (port : Nat) : Text := host ++ ':' :: Nat.toDigits 10 port

/-- `addr.rsplit_once(':')`. -/
def rsplitOnce (s : Text) : Option (Text × Text) :=
  if ':' ∈ s then some ((s.rdropWhile (· ≠ ':')).dropLast, s.rtakeWhile (· ≠ ':')) else none

theorem rsplitOnce_append {a b : Text} (hb : ':' ∉ b) :
    rsplitOnce (a ++ ':' :: b) = some (a, b) := by
  have hmem : ':' ∈ a ++ ':' :: b := List.mem_append_right a List.mem_cons_self
  have hrev : (a ++ ':' :: b).reverse = b.reverse ++ ':' :: a.reverse := by
    rw [List.reverse_append, List.reverse_cons, List.append_assoc]
    rfl
  have hall : ∀ c ∈ b.reverse, decide (c ≠ ':') = true := by
    intro c hc
    apply decide_eq_true
    rintro rfl
    exact hb (List.mem_reverse.mp hc)
  have hdrop : (a ++ ':' :: b).rdropWhile (· ≠ ':') = a ++ [':'] := by
    rw [List.rdropWhile, hrev, List.dropWhile_append_of_pos hall]
    simp
  have htake : (a ++ ':' :: b).rtakeWhile (· ≠ ':') = b := by
    rw [List.rtakeWhile, hrev, List.takeWhile_append_of_pos hall]
    simp
  rw [rsplitOnce, if_pos hmem, hdrop, htake, List.dropLast_concat]

/-- An address is split into the parts it was made of. -/
theorem rsplitOnce_address (host : Text) (port : Nat) :
    rsplitOnce (address host port) = some (host, Nat.toDigits 10 port) := by
  apply rsplitOnce_append
  intro hmem
  exact absurd (isDigit_toDigits hmem) (by decide)

theorem parseU16_toDigits {port : Nat} (h : port < 65536) :
    parseU16 (Nat.toDigits 10 port) = some port := by
  have hplus : ¬ '+' :: (Nat.toDigits 10 port).drop 1 = Nat.toDigits 10 port := by
    intro heq
    have hmem : '+' ∈ Nat.toDigits 10 port := by
      rw [← heq]
      exact List.mem_cons_self
    exact absurd (isDigit_toDigits hmem) (by decide)
  have hval : Nat.ofDigitChars 10 (Nat.toDigits 10 port) 0 = port :=
    Nat.ofDigitChars_toDigits (by decide) (by decide)
  have hall : (Nat.toDigits 10 port).all Char.isDigit = true :=
    List.all_eq_true.mpr fun c hc => isDigit_toDigits hc
  have hcond : Nat.toDigits 10 port ≠ [] ∧ (Nat.toDigits 10 port).all Char.isDigit ∧
      Nat.ofDigitChars 10 (Nat.toDigits 10 port) 0 < 65536 := by
    rw [hval]
    exact ⟨Nat.toDigits_ne_nil, hall, h⟩
  simp only [parseU16, if_neg hplus]
  rw [if_pos hcond, hval]

end LvimDb.Net
