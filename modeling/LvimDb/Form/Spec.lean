import LvimDb.Cell.Value

/-!
# The connection form

form.lua. A stored spec is a table of arbitrary fields. The form spreads what it has a row for
over the rows of its tabs, and a save makes a spec of the row values and of the stored one.
-/

namespace LvimDb.Form
open Daemon (Json)
open Cell (Env tostring)

/-- A Lua table with text keys. -/
abbrev Fields := List (String × Json)

/-- `t[name] = v`. -/
def set (t : Fields) (name : String) (v : Option Json) : Fields :=
  let rest := t.filter fun field => field.1 ≠ name
  v.elim rest fun v => (name, v) :: rest

/-- `v or w`. -/
def either (v w : Option Json) : Option Json := if Json.truthy v then v else w

/-- `v == s`. -/
def isText (v : Option Json) (s : String) : Bool := Daemon.textOf v = some s

/-- `v and v.name`, which raises where `v` cannot be indexed; a text has no such field. -/
def dig (v : Option Json) (name : String) : Option (Option Json) :=
  if Json.truthy v then
    match v with
    | some (.obj fields) => some (fields.lookup name)
    | some (.arr _) | some (.str _) => some none
    | _ => none
  else some v

structure Param where
  key : String
  default : Option String

structure DriverMeta where
  kind : String
  params : List Param
  auth : Option (List String)

/-- A file engine has neither an encryption nor a tunnel tab. -/
def DriverMeta.network (driver : DriverMeta) : Bool :=
  ¬ (driver.kind = "sqlite" ∨ driver.kind = "duckdb")

def noProfiles : String := "(no saved tunnels)"

structure Row where
  name : String
  value : Option Json

variable (env : Env)

/-- `str` (34-39). -/
def str : Option Json → String
  | none | some .null => ""
  | v => tostring env v

/-- `srow` (46-48), its name and its value. -/
def srow (name : String) (value : Option Json) : Row := ⟨name, some (.str (str env value))⟩

/-- The passphrase of a tunnel, or the password where there is none (59). -/
def secretShown (passphrase password : Option Json) : Option Json :=
  match passphrase with
  | none | some .null => password
  | _ => either passphrase password

/-- `tunnel_secret` (54-60). -/
def tunnelSecret (tun : Option Json) : Option String := do
  let a ← dig tun "auth"
  if Json.truthy a then
    let passphrase ← dig a "passphrase"
    let password ← dig a "password"
    some (str env (secretShown passphrase password))
  else some ""

/-! ### The rows -/

/-- The rows of the connection tab (155-159). -/
def connRows (name : String) (driver : DriverMeta) (seed : Fields) : Option (List Row) := do
  let params ← driver.params.mapM fun p => do
    let stored ← dig (seed.lookup "params") p.key
    some (srow env ("p_" ++ p.key) (either stored (either (p.default.map .str) (some (.str "")))))
  some (srow env "__name" (some (.str name)) :: params)

/-- The rows of the auth tab (163-182). -/
def authRows (driver : DriverMeta) (seed : Fields) : Option (List Row) := do
  let sa := either (seed.lookup "auth") (some (.obj []))
  let methods := driver.auth.getD ["none"]
  let kind ← dig sa "kind"
  let user ← dig sa "user"
  let password ← dig sa "password"
  let cert ← dig sa "cert"
  let key ← dig sa "key"
  let provider ← dig sa "provider"
  let token ← dig sa "token"
  some
    [⟨"a_kind", either kind (methods.head?.map .str)⟩, srow env "a_user" user,
      srow env "a_password" password, srow env "a_cert" cert, srow env "a_key" key,
      srow env "a_provider" provider, srow env "a_token" token]

/-- The rows of the encryption tab (193-203). -/
def tlsRows (seed : Fields) : Option (List Row) := do
  let stls := either (seed.lookup "tls") (some (.obj []))
  let mode ← dig stls "mode"
  let ca ← dig stls "ca"
  let cert ← dig stls "client_cert"
  let key ← dig stls "client_key"
  some
    [⟨"t_mode", either mode (some (.str "prefer"))⟩, srow env "t_ca" ca, srow env "t_cc" cert,
      srow env "t_ck" key]

/-- The rows of the tunnel tab (210-244), where `profiles` are the names of the saved tunnels. -/
def tunnelRows (profiles : List String) (seed : Fields) : Option (List Row) := do
  let stun := seed.lookup "tunnel"
  let profile := seed.lookup "tunnel_profile"
  let a ← dig stun "auth"
  let kind ← dig a "kind"
  let host ← dig stun "host"
  let port ← dig stun "port"
  let user ← dig stun "user"
  let path ← dig a "path"
  let secret ← tunnelSecret env stun
  let first := ((profiles.mergeSort fun a b => decide (a ≤ b)).head?).getD noProfiles
  some
    [⟨"k_mode", if Json.truthy profile then some (.str "profile")
        else either kind (some (.str "none"))⟩,
      ⟨"k_profile", some (.str (if str env profile ≠ "" then str env profile else first))⟩,
      srow env "k_host" host,
      srow env "k_port" (some (.str (if Json.truthy port then tostring env port else "22"))),
      srow env "k_user" user, srow env "k_path" path, srow env "k_secret" (some (.str secret))]

/-- `open_tabs` (149-245), the rows of all tabs. -/
def openTabs (profiles : List String) (name : String) (driver : DriverMeta) (seed : Fields) :
    Option (List Row) := do
  let conn ← connRows env name driver seed
  let auth ← authRows env driver seed
  if driver.network then
    let tls ← tlsRows env seed
    let tunnel ← tunnelRows env profiles seed
    some (conn ++ auth ++ tls ++ tunnel)
  else some (conn ++ auth)

/-- `values` (252-262). -/
def values (rows : List Row) : String → Option Json :=
  rows.foldl (fun v r => Function.update v r.name r.value) fun _ => none

/-! ### The spec of the values -/

variable (result : String → Option Json)

/-- `result[name] or ""`. -/
def text (name : String) : Option Json := either (result name) (some (.str ""))

/-- What is there and is not "". -/
def filled (name : String) : Option Json :=
  if Json.truthy (result name) ∧ ¬ isText (result name) "" then result name else none

/-- `params` of `spec_of` (79-85). -/
def paramsOf (params : List Param) : Fields :=
  params.foldl
    (fun t p => (filled result ("p_" ++ p.key)).elim t fun v => set t p.key (some v)) []

/-- `auth` of `spec_of` (88-98). -/
def authOf : Fields :=
  let kind := either (result "a_kind") (some (.str "none"))
  let auth := set [] "kind" kind
  if isText kind "password" then
    set (set auth "user" (text result "a_user")) "password" (text result "a_password")
  else if isText kind "client_cert" then
    set (set (set auth "cert" (text result "a_cert")) "key" (text result "a_key")) "user"
      (text result "a_user")
  else if isText kind "provider" then
    set (set (set auth "provider" (text result "a_provider")) "token" (text result "a_token"))
      "user" (text result "a_user")
  else if isText kind "kerberos" then set auth "principal" (filled result "a_user")
  else auth

/-- `tls` of `spec_of` (104-114). -/
def tlsOf : Fields :=
  let tls := set [] "mode" (either (result "t_mode") (some (.str "prefer")))
  set (set (set tls "ca" (filled result "t_ca")) "client_cert" (filled result "t_cc"))
    "client_key" (filled result "t_ck")

/-- `tauth` of `spec_of` (127-133). -/
def tunnelAuthOf (mode : Option Json) : Fields :=
  let auth := set [] "kind" mode
  if isText mode "key" then
    set (set auth "path" (text result "k_path")) "passphrase" (text result "k_secret")
  else set auth "password" (text result "k_secret")

/-- `spec.tunnel` of `spec_of` (134-139). -/
def tunnelOf (mode : Option Json) : Fields :=
  let port := (Cell.number env (result "k_port")).getD 22
  set (set (set (set [] "host" (text result "k_host")) "port" (some (.num port))) "user"
    (text result "k_user")) "auth" (some (.obj (tunnelAuthOf result mode)))

/-- `M.spec_of` (78-144). -/
def specOf (driver : DriverMeta) (network : Bool) (seed : Fields) : Fields :=
  let spec := set seed "params" (some (.obj (paramsOf result driver.params)))
  let spec := set spec "auth" (some (.obj (authOf result)))
  if network then
    let spec := set spec "tls" (some (.obj (tlsOf result)))
    let mode := either (result "k_mode") (some (.str "none"))
    let spec := set (set spec "tunnel" none) "tunnel_profile" none
    if isText mode "profile" then
      let chosen := str env (result "k_profile")
      if chosen ≠ "" ∧ chosen ≠ noProfiles then set spec "tunnel_profile" (some (.str chosen))
      else spec
    else if isText mode "none" then spec
    else set spec "tunnel" (some (.obj (tunnelOf env result mode)))
  else spec

/-- `save` (290-305) of a form that was opened and not edited: the spec it hands to the store. -/
def save (profiles : List String) (name : String) (driver : DriverMeta) (seed : Fields) :
    Option Fields := do
  let rows ← openTabs env profiles name driver seed
  let result := values rows
  if Editor.trim (str env (result "__name")) = "" then none
  else
    let spec := specOf env result driver driver.network seed
    if isText (either (result "k_mode") (some (.str "none"))) "profile" ∧
        ¬ Json.truthy (spec.lookup "tunnel_profile") then none
    else some spec

/-! ### Tables -/

theorem lookup_filter_ne (t : Fields) (name x : String) :
    (t.filter fun field => field.1 ≠ name).lookup x = if x = name then none else t.lookup x := by
  induction t with
  | nil => simp
  | cons field t ih =>
    obtain ⟨key, v⟩ := field
    by_cases hkey : key = name
    · subst hkey
      rw [List.filter_cons_of_neg (by simp), ih]
      split
      · rfl
      · next hne => rw [List.lookup_cons, beq_false_of_ne hne]
    · rw [List.filter_cons_of_pos (by simpa using hkey), List.lookup_cons, List.lookup_cons, ih]
      by_cases hx : x = key
      · subst hx
        simp [hkey]
      · rw [beq_false_of_ne hx]

@[simp] theorem lookup_set (t : Fields) (name x : String) (v : Option Json) :
    (set t name v).lookup x = if x = name then v else t.lookup x := by
  cases v with
  | none => exact lookup_filter_ne t name x
  | some v =>
    simp only [set, Option.elim_some, List.lookup_cons, lookup_filter_ne]
    by_cases hx : x = name
    · simp [hx]
    · rw [beq_false_of_ne hx]
      simp [hx]

@[simp] theorem either_text (s : String) (w : Option Json) :
    either (some (.str s)) w = some (.str s) := rfl

/-- What is no table has no field to show. -/
theorem dig_obj (t : Fields) (name : String) : dig (some (.obj t)) name = some (t.lookup name) := rfl

@[simp] theorem str_text (s : String) : str env (some (.str s)) = s := rfl

@[simp] theorem isText_text (s t : String) : isText (some (.str s)) t = decide (s = t) := by
  simp [isText, Daemon.textOf]

/-! ### Row values -/

theorem foldl_values (rows : List Row) (v : String → Option Json) (name : String) :
    rows.foldl (fun v r => Function.update v r.name r.value) v name =
      ((rows.reverse.find? (·.name = name)).map (·.value)).getD (v name) := by
  induction rows generalizing v with
  | nil => rfl
  | cons r rows ih =>
    rw [List.foldl_cons, ih, List.reverse_cons, List.find?_append]
    cases rows.reverse.find? (·.name = name) with
    | some _ => rfl
    | none =>
      by_cases hname : name = r.name
      · simp [hname]
      · simp [hname, Ne.symm hname]

theorem values_append (rows later : List Row) (name : String) :
    values (rows ++ later) name =
      ((later.reverse.find? (·.name = name)).map (·.value)).getD (values rows name) := by
  unfold values
  rw [List.foldl_append, foldl_values]

/-- A parameter's row is none of the others. -/
theorem param_name_ne (key : String) {name : String} (h : name.toList.head? ≠ some 'p') :
    "p_" ++ key ≠ name := by
  rintro rfl
  simp [String.toList_append] at h

theorem param_name_inj {key key' : String} : "p_" ++ key = "p_" ++ key' ↔ key = key' := by
  simp [← String.toList_inj, String.toList_append]

end LvimDb.Form
