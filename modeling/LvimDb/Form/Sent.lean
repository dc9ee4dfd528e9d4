import LvimDb.Form.Panel
import LvimDb.Net.Received

/-!
# What the engine reads of the form

form.lua makes a spec of the rows, Neovim writes it, and serde reads it by the types of spec.rs.
`meant` is what the rows of a network engine ask for.
-/

namespace LvimDb.Form
open Daemon (Json textOf)
open Cell (Env)
open Secret (Text)
open Net (ConnSpec TlsSpec TlsMode AuthSpec TunnelSpec TunnelAuth)
open Net.Deserialize

/-- How values of Lua are written: a table without fields as an array or as an object, and a number
by so many digits. -/
structure Encoder where
  empty : Json
  number : ℚ → ℚ
  isEmpty : empty = .arr [] ∨ empty = .obj []

/-- `vim.json.encode`. -/
def Encoder.write (e : Encoder) : Json → Json
  | .num q => .num (e.number q)
  | .arr xs => if xs.isEmpty then e.empty else .arr (xs.map fun x => e.write x)
  | .obj t => if t.isEmpty then e.empty else .obj (t.map fun field => (field.1, e.write field.2))
  | j => j
decreasing_by
  · have hsize := List.sizeOf_lt_of_mem (by assumption)
    simp
    omega
  · obtain ⟨name, v⟩ := field
    have hsize := List.sizeOf_lt_of_mem (by assumption)
    simp at hsize ⊢
    omega

/-- The spec of `test` (273-276). -/
def tested (driver : DriverMeta) (spec : Fields) : Fields :=
  set spec "driver" (some (.str driver.kind))

/-- The spec of `connect_saved` (init.lua, 159-171). -/
def saved (name : String) (driver : DriverMeta) (spec : Fields) : Fields :=
  set (set spec "name" (some (.str name))) "driver" (some (.str driver.kind))

/-! ### What the rows ask for -/

section
variable (env : Env) (e : Encoder) (driver : DriverMeta) (result : String → Option Json)

def row (name : String) : Text := (str env (result name)).toList

/-- A row that may stay empty. -/
def given (name : String) : Option Text :=
  if row env result name = [] then none else some (row env result name)

def meantParams (key : Text) : Option Text :=
  if String.ofList key ∈ driver.params.map (·.key) then
    given env result ("p_" ++ String.ofList key)
  else none

def meantAuth : Option AuthSpec :=
  let kind := textOf (either (result "a_kind") (some (.str "none")))
  if kind = some "none" then some .none
  else if kind = some "password" then
    some (.password (row env result "a_user") (row env result "a_password"))
  else if kind = some "client_cert" then
    some (.clientCert (row env result "a_cert") (row env result "a_key") []
      (row env result "a_user"))
  else if kind = some "provider" then
    some (.provider (row env result "a_provider") (row env result "a_token")
      (row env result "a_user"))
  else if kind = some "kerberos" then some (.kerberos (given env result "a_user"))
  else none

def meantTls : Option TlsSpec := do
  let mode ← (either (result "t_mode") (some (.str "prefer"))).bind TlsMode.deserialize
  some ⟨mode, given env result "t_ca", given env result "t_cc", given env result "t_ck"⟩

def meantPort : Option UInt16 :=
  u16 (.num (e.number ((Cell.number env (result "k_port")).getD 22)))

/-- The engine knows nothing of a saved profile, and dials the server itself. -/
def meantTunnel : Option (Option TunnelSpec) :=
  let mode := textOf (either (result "k_mode") (some (.str "none")))
  let link (auth : TunnelAuth) := (meantPort env e result).map fun port =>
    some ⟨row env result "k_host", port, row env result "k_user", auth⟩
  if mode = some "none" ∨ mode = some "profile" then some none
  else if mode = some "agent" then link .agent
  else if mode = some "key" then
    link (.key (row env result "k_path") (row env result "k_secret"))
  else if mode = some "password" then link (.password (row env result "k_secret"))
  else none

def meant : Option ConnSpec := do
  let auth ← meantAuth env result
  let tls ← meantTls env result
  let tunnel ← meantTunnel env e result
  some ⟨driver.kind.toList, meantParams env driver result, auth, tls, tunnel⟩

/-- A spec without any parameter is refused where a table without fields is an array. -/
def Sendable : Prop := (∃ key, meantParams env driver result key ≠ none) ∨ e.empty = .obj []

end

variable {env : Env} {e : Encoder} {driver : DriverMeta} {seed : Fields}
  {result : String → Option Json}

/-! ### What is written is read -/

namespace Encoder

theorem write_text (s : String) : e.write (.str s) = .str s := by
  rw [write]
  all_goals simp

theorem write_table {t : Fields} (h : t ≠ []) :
    e.write (.obj t) = .obj (t.map fun field => (field.1, e.write field.2)) := by
  rw [write, if_neg (by simpa using h)]

theorem write_empty : e.write (.obj []) = e.empty := by
  rw [write, List.isEmpty_nil, if_pos rfl]

theorem lookup_write (t : Fields) (name : String) :
    (t.map fun field => (field.1, e.write field.2)).lookup name =
      (t.lookup name).map e.write := by
  induction t with
  | nil => rfl
  | cons field t ih =>
    rw [List.map_cons, List.lookup_cons, List.lookup_cons]
    cases name == field.1 with
    | true => rfl
    | false => exact ih

/-- What is no text is not written as one. -/
theorem string_write (j : Json) : string (e.write j) = string j := by
  have hempty : string e.empty = none := by
    rcases e.isEmpty with h | h <;> rw [h, string]
    all_goals simp
  unfold write
  split
  · simp [string]
  · split
    · rw [hempty]
      simp [string]
    · simp [string]
  · split
    · rw [hempty]
      simp [string]
    · simp [string]
  · rfl

theorem bind_write (v : Option Json) : (v.map e.write).bind string = v.bind string := by
  cases v with
  | none => rfl
  | some j => exact string_write j

theorem textOf_string (v : Option Json) : textOf v = (v.bind string).map String.ofList := by
  cases v with
  | none => rfl
  | some j => cases j <;> simp [textOf, string]

theorem textOf_write (v : Option Json) : textOf (v.map e.write) = textOf v := by
  rw [textOf_string, textOf_string, bind_write]

theorem write_null {j : Json} : e.write j = .null ↔ j = .null := by
  have hempty : e.empty ≠ .null := by
    rcases e.isEmpty with h | h <;> rw [h] <;> simp
  unfold write
  split
  · simp
  · split <;> simp [hempty]
  · split <;> simp [hempty]
  · rfl

theorem mode_table {t : Fields} (h : ∀ s, t ≠ [(s, .null)]) :
    TlsMode.deserialize (.obj t) = none := by
  unfold TlsMode.deserialize
  split
  · next hj => cases hj
  · next s hj => exact absurd (Json.obj.inj hj) (h s)
  · rfl

/-- The name of a mode may also be the only field of a table. -/
theorem mode_write (j : Json) : TlsMode.deserialize (e.write j) = TlsMode.deserialize j := by
  have hempty : TlsMode.deserialize e.empty = none := by
    rcases e.isEmpty with h | h <;> rw [h]
    · rfl
    · exact mode_table (by simp)
  cases j with
  | obj t =>
    cases t with
    | nil =>
      rw [write_empty, hempty]
      rfl
    | cons field t =>
      rw [write_table (by simp)]
      by_cases hnull : ∃ s, field :: t = [(s, .null)]
      · obtain ⟨s, hs⟩ := hnull
        rw [hs, List.map_singleton, write_null.mpr rfl]
      · rw [not_exists] at hnull
        rw [mode_table hnull, mode_table]
        intro s hs
        obtain ⟨hfield, ht⟩ := List.cons.inj hs
        obtain ⟨hname, hv⟩ := Prod.mk.inj hfield
        apply hnull s
        rw [List.map_eq_nil_iff.mp ht, ← hname, ← write_null.mp hv]
  | arr xs =>
    rw [write]
    split
    · rw [hempty]
      rfl
    · rfl
  | num q =>
    rw [write]
    rfl
  | null | bool | str =>
    rw [write]
    all_goals simp

end Encoder

/-! ### Rows of texts -/

theorem text_row (env : Env) (h : Texts result) {name : String} (hname : name ∉ selects) :
    text result name = some (.str (str env (result name))) := by
  rcases h name hname with hnone | ⟨s, hs⟩
  · rw [text, hnone]
    rfl
  · rw [text_value hs, hs, str_text]

theorem filled_given (env : Env) (h : Texts result) {name : String} (hname : name ∉ selects) :
    filled result name = (given env result name).map fun s => .str (String.ofList s) := by
  unfold given row
  rcases h name hname with hnone | ⟨s, hs⟩
  · rw [filled, hnone]
    simp [Json.truthy, str]
  · rw [filled_text hs, hs, str_text]
    by_cases hempty : s = ""
    · simp [hempty]
    · simp [hempty]

/-- The text of a row is written as it is. -/
theorem write_row (h : Texts result) {name : String} (hname : name ∉ selects) :
    (text result name).map e.write = some (.str (str env (result name))) := by
  rw [text_row env h hname, Option.map_some, e.write_text]

theorem read_given (env : Env) (e : Encoder) (h : Texts result) (name : String)
    (hname : name ∉ selects) :
    ((filled result name).map e.write).elim (some none) (nullable string) =
      some (given env result name) := by
  rw [filled_given env h hname]
  cases given env result name with
  | none => rfl
  | some s =>
    rw [Option.map_some, Option.map_some, Encoder.write_text]
    simp [nullable, string]

theorem table_ne_nil {t : Fields} (name : String) (h : t.lookup name ≠ none) : t ≠ [] := by
  rintro rfl
  exact h rfl

theorem either_ne_none (v : Option Json) {s : String} : either v (some (.str s)) ≠ none := by
  intro hnone
  have htruthy := either_default v (s := s)
  rw [hnone] at htruthy
  cases htruthy

theorem isText_iff {v : Option Json} {s : String} : isText v s = true ↔ textOf v = some s := by
  simp [isText]

/-! ### The parts of a spec -/

theorem auth_read (env : Env) (h : Texts result) :
    AuthSpec.deserialize (e.write (.obj (authOf result))) = meantAuth env result := by
  have hkind : (authOf result).lookup "kind" = _ := authOf_kind
  have hne : authOf result ≠ [] := by
    apply table_ne_nil "kind"
    rw [hkind]
    exact either_ne_none _
  have hrow : ∀ name ∉ selects,
      (text result name).map e.write = some (.str (str env (result name))) :=
    fun name hname => write_row h hname
  have hprincipal := read_given env e h "a_user" (by decide)
  rw [e.write_table hne]
  unfold AuthSpec.deserialize meantAuth
  simp only [required, defaulted, e.lookup_write, e.textOf_write, hkind]
  split_ifs with hnone hpassword hcert hprovider hkerberos
  · rfl
  · simp [authOf, isText, hpassword, hrow "a_user" (by decide), hrow "a_password" (by decide),
      string, row]
  · simp [authOf, isText, hcert, hrow "a_user" (by decide), hrow "a_cert" (by decide),
      hrow "a_key" (by decide), string, row]
  · simp [authOf, isText, hprovider, hrow "a_user" (by decide), hrow "a_provider" (by decide),
      hrow "a_token" (by decide), string, row]
  · simp [authOf, isText, hkerberos, hprincipal]
  · rfl

theorem tls_read (env : Env) (h : Texts result) :
    TlsSpec.deserialize (e.write (.obj (tlsOf result))) = meantTls env result := by
  have hmode : (tlsOf result).lookup "mode" = either (result "t_mode") (some (.str "prefer")) := by
    simp [tlsOf]
  obtain ⟨mode, hsome⟩ := Option.ne_none_iff_exists'.mp
    (either_ne_none (result "t_mode") (s := "prefer"))
  have hca := read_given env e h "t_ca" (by decide)
  have hcert := read_given env e h "t_cc" (by decide)
  have hkey := read_given env e h "t_ck" (by decide)
  rw [e.write_table (table_ne_nil "mode" (by rw [hmode, hsome]; simp))]
  unfold TlsSpec.deserialize meantTls
  simp only [defaulted, e.lookup_write]
  rw [hmode, hsome, Option.map_some, Option.elim_some, e.mode_write, Option.bind_some]
  simp [tlsOf, hca, hcert, hkey]

theorem nullable_table {α : Type} (read : Json → Option α) (t : Fields) :
    nullable read (.obj t) = (read (.obj t)).map some := by
  rw [nullable]
  simp

theorem tunnelAuthOf_kind (result : String → Option Json) (mode : Option Json) :
    (tunnelAuthOf result mode).lookup "kind" = mode := by
  unfold tunnelAuthOf
  simp only
  split_ifs <;> simp

/-- The methods of a tunnel; what is none of them has a password in the form. -/
theorem tunnelAuth_read (env : Env) (h : Texts result) {mode : Option Json} (hmode : mode ≠ none) :
    TunnelAuth.deserialize (e.write (.obj (tunnelAuthOf result mode))) =
      if textOf mode = some "agent" then some .agent
      else if textOf mode = some "key" then
        some (.key (row env result "k_path") (row env result "k_secret"))
      else if textOf mode = some "password" then some (.password (row env result "k_secret"))
      else none := by
  have hkind := tunnelAuthOf_kind result mode
  have hpath : (text result "k_path").map e.write = some (.str (str env (result "k_path"))) :=
    write_row h (by decide)
  have hsecret : (text result "k_secret").map e.write =
      some (.str (str env (result "k_secret"))) := write_row h (by decide)
  rw [e.write_table (table_ne_nil "kind" (by rwa [hkind]))]
  unfold TunnelAuth.deserialize
  simp only [required, defaulted, e.lookup_write, e.textOf_write, hkind]
  split_ifs with hagent hkey hpassword
  · rfl
  · simp [tunnelAuthOf, isText, hkey, hpath, hsecret, string, row]
  · simp [tunnelAuthOf, isText, hpassword, hsecret, string, row]
  · rfl

theorem tunnel_read (h : Texts result) :
    ((linkOf env result).1.map e.write).elim (some none) (nullable TunnelSpec.deserialize) =
      meantTunnel env e result := by
  unfold linkOf meantTunnel
  simp only [isText_iff]
  generalize hmode : either (result "k_mode") (some (.str "none")) = mode
  by_cases hprofile : textOf mode = some "profile"
  · simp [hprofile]
  · by_cases hnone : textOf mode = some "none"
    · simp [hnone]
    · have hsome : mode ≠ none := by
        rw [← hmode]
        exact either_ne_none _
      have hhost : (text result "k_host").map e.write =
          some (.str (str env (result "k_host"))) := write_row h (by decide)
      have huser : (text result "k_user").map e.write =
          some (.str (str env (result "k_user"))) := write_row h (by decide)
      have hport : e.write (.num ((Cell.number env (result "k_port")).getD 22)) =
          .num (e.number ((Cell.number env (result "k_port")).getD 22)) := by
        rw [Encoder.write]
      have hfields : tunnelOf env result mode ≠ [] :=
        table_ne_nil "auth" (by simp [tunnelOf])
      rw [if_neg hprofile, if_neg hnone, if_neg (by simp [hprofile, hnone])]
      simp only [Option.map_some, Option.elim_some]
      rw [e.write_table hfields, nullable_table]
      unfold TunnelSpec.deserialize
      simp only [required, defaulted, e.lookup_write]
      simp only [tunnelOf, lookup_set, List.lookup_nil, String.reduceEq, if_true, if_false,
        Option.map_some, Option.bind_some, Option.elim_some, hport, hhost, huser,
        tunnelAuth_read env h hsome]
      unfold meantPort
      cases u16 (.num (e.number ((Cell.number env (result "k_port")).getD 22))) with
      | none => split_ifs <;> simp [string]
      | some port => split_ifs <;> simp [string, row]

/-! ### The parameters -/

theorem params_given (env : Env) (driver : DriverMeta) (h : Texts result) (key : String) :
    (paramsOf result driver.params).lookup key =
      (meantParams env driver result key.toList).map fun s => .str (String.ofList s) := by
  unfold meantParams
  rw [paramsOf_lookup, String.ofList_toList]
  split
  · exact filled_given env h (param_textual key)
  · rfl

theorem params_empty (env : Env) (driver : DriverMeta) (h : Texts result) :
    paramsOf result driver.params = [] ↔ ∀ key, meantParams env driver result key = none := by
  constructor
  · intro hempty key
    have hgiven := params_given env driver h (String.ofList key)
    rw [hempty, String.toList_ofList] at hgiven
    exact Option.map_eq_none_iff.mp hgiven.symm
  · intro hnone
    cases hparams : paramsOf result driver.params with
    | nil => rfl
    | cons field t =>
      have hgiven := params_given env driver h field.1
      rw [hparams, hnone, List.lookup_cons_self] at hgiven
      cases hgiven

/-- A table whose every name is found with a text is read. -/
theorem stringMap_table {t : Fields} {texts : Text → Option Text}
    (hread : ∀ key, (t.lookup (String.ofList key)).bind string = texts key)
    (hall : ∀ field ∈ t, texts field.1.toList ≠ none) : stringMap (.obj t) = some texts := by
  have hfound : (t.all fun field => ((t.lookup field.1).bind string).isSome) = true := by
    rw [List.all_eq_true]
    intro field hfield
    rw [← String.ofList_toList (s := field.1), hread]
    exact Option.isSome_iff_ne_none.mpr (hall field hfield)
  rw [stringMap, if_pos hfound, Option.some.injEq]
  exact funext hread

theorem params_table (env : Env) (e : Encoder) (driver : DriverMeta) (h : Texts result) :
    stringMap (.obj ((paramsOf result driver.params).map fun field =>
      (field.1, e.write field.2))) = some (meantParams env driver result) := by
  apply stringMap_table
  · intro key
    rw [e.lookup_write, e.bind_write, params_given env driver h, String.toList_ofList]
    cases meantParams env driver result key with
    | none => rfl
    | some s => simp [string]
  · intro field hfield hnone
    obtain ⟨old, hold, rfl⟩ := List.mem_map.mp hfield
    have hgiven := params_given env driver h old.1
    rw [hnone, Option.map_none, List.lookup_eq_none_iff] at hgiven
    have hne := hgiven old hold
    simp at hne

/-- Texts under names are read back, but for a table without fields where that is an array. -/
theorem params_read (env : Env) (h : Texts result) {params : Text → Option Text} :
    stringMap (e.write (.obj (paramsOf result driver.params))) = some params ↔
      Sendable env e driver result ∧ meantParams env driver result = params := by
  have hnone := params_empty env driver h
  by_cases hempty : paramsOf result driver.params = []
  · have hmeant : meantParams env driver result = fun _ => none := funext (hnone.mp hempty)
    have hsend : Sendable env e driver result ↔ e.empty = .obj [] := by
      simp [Sendable, hmeant]
    rw [hempty, e.write_empty, hsend, hmeant]
    rcases e.isEmpty with harr | hobj
    · simp [harr, stringMap]
    · simp [hobj, stringMap]
  · have hsend : Sendable env e driver result := by
      rw [hnone, not_forall] at hempty
      exact .inl hempty
    rw [e.write_table hempty, params_table env e driver h, and_iff_right hsend, Option.some.injEq]

/-! ### The whole spec -/

/-- A table whose fields are those of the form is read as the rows ask for. -/
theorem spec_read (h : Texts result) {t : Fields} {spec : ConnSpec}
    (hdriver : t.lookup "driver" = some (.str driver.kind))
    (hparams : t.lookup "params" = some (.obj (paramsOf result driver.params)))
    (hauth : t.lookup "auth" = some (.obj (authOf result)))
    (htls : t.lookup "tls" = some (.obj (tlsOf result)))
    (htunnel : t.lookup "tunnel" = (linkOf env result).1) :
    ConnSpec.deserialize (e.write (.obj t)) = some spec ↔
      Sendable env e driver result ∧ meant env e driver result = some spec := by
  rw [e.write_table (table_ne_nil "driver" (by rw [hdriver]; simp))]
  unfold ConnSpec.deserialize meant
  simp only [required, defaulted, e.lookup_write, hdriver, hparams, hauth, htls, htunnel,
    tunnel_read h, Option.map_some, Option.elim_some, Option.bind_some, e.write_text, string,
    auth_read env h, tls_read env h, Option.bind_eq_bind, Option.bind_eq_some_iff,
    params_read env h]
  constructor
  · rintro ⟨params, ⟨hsend, rfl⟩, hmeant⟩
    exact ⟨hsend, hmeant⟩
  · rintro ⟨hsend, hmeant⟩
    exact ⟨_, ⟨hsend, rfl⟩, hmeant⟩

namespace Panel
variable {profiles : List String} {name : String} {rows : List Row} {wallet : Secret.Wallet}
  {s : Panel}

theorem textual_run {is : List Input} (hopen : openTabs env profiles name driver seed = some rows)
    (h : (panel env driver seed rows wallet).Run Lib.Machine.free (.opened rows wallet) is s) :
    s.Textual :=
  h.invariant Textual (fun _ _ _ _ htexts hst => htexts.step hst) (openTabs_textual hopen)

def compact : Encoder := ⟨.arr [], id, .inl rfl⟩

end Panel

end LvimDb.Form
