import LvimDb.Cell.Accept
import LvimDb.Form.Spec

/-!
# What the rows show

`Shown` says which stored specs the rows show whole. Each part of a spec that a save writes
anew of its rows is the same part exactly if it is shown.
-/

namespace LvimDb.Form
open Daemon (Json)
open Cell (Env tostring)

/-! ### The same value -/

mutual

/-- The same fields with the same values, in any order. -/
inductive Same : Json → Json → Prop
  | refl (j : Json) : Same j j
  | obj {t u : Fields} (h : ∀ name, SameField (t.lookup name) (u.lookup name)) :
      Same (.obj t) (.obj u)

inductive SameField : Option Json → Option Json → Prop
  | none : SameField none none
  | some {j k : Json} (h : Same j k) : SameField (some j) (some k)

end

theorem SameField.rfl {v : Option Json} : SameField v v := by
  cases v with
  | none => exact .none
  | some j => exact .some (.refl j)

@[simp] theorem sameField_none {v : Option Json} : SameField v none ↔ v = none := by
  constructor
  · rintro ⟨⟩
    rfl
  · rintro ⟨⟩
    exact .none

@[simp] theorem sameField_text {v : Option Json} {s : String} :
    SameField v (some (.str s)) ↔ v = some (.str s) := by
  constructor
  · rintro (_ | ⟨⟨⟩⟩)
    rfl
  · rintro ⟨⟩
    exact .rfl

@[simp] theorem sameField_num {v : Option Json} {q : ℚ} :
    SameField v (some (.num q)) ↔ v = some (.num q) := by
  constructor
  · rintro (_ | ⟨⟨⟩⟩)
    rfl
  · rintro ⟨⟩
    exact .rfl

theorem sameField_obj {v : Option Json} {u : Fields} :
    SameField v (some (.obj u)) ↔
      ∃ t : Fields, v = some (.obj t) ∧ ∀ name, SameField (t.lookup name) (u.lookup name) := by
  constructor
  · rintro (_ | ⟨h⟩)
    cases h with
    | refl => exact ⟨u, rfl, fun _ => .rfl⟩
    | obj h => exact ⟨_, rfl, h⟩
  · rintro ⟨t, rfl, h⟩
    exact .some (.obj h)

/-! ### What is kept -/

/-- The parameters of a stored spec; no table is an empty one. -/
def paramTable : Option Json → Option Fields
  | none => some []
  | some (.obj t) => some t
  | _ => none

structure ParamsKept (params : List Param) (old new : Fields) : Prop where
  kept : ∀ key v, old.lookup key = some v → new.lookup key = some v
  gained : ∀ key v, old.lookup key = none → new.lookup key = some v →
    ∃ p ∈ params, p.key = key ∧ p.default.map Json.str = some v

/-- `out` has the fields of `seed` with their values, and defaults of declared parameters. -/
structure Kept (driver : DriverMeta) (seed out : Fields) : Prop where
  params : ∃ old new, paramTable (seed.lookup "params") = some old ∧
    out.lookup "params" = some (.obj new) ∧ ParamsKept driver.params old new
  rest : ∀ name, name ≠ "params" → SameField (seed.lookup name) (out.lookup name)

/-! ### What is shown -/

/-- Besides the `others`, the fields of `t` are the `names`, and they are texts. -/
def OnlyTexts (t : Fields) (names others : List String) : Prop :=
  ∀ name, name ∉ others →
    if name ∈ names then ∃ s, t.lookup name = some (.str s) else t.lookup name = none

/-- The fields of an auth method that have a row and are written back to the same name. -/
def authTexts (kind : Option Json) : List String :=
  if isText kind "password" then ["user", "password"]
  else if isText kind "client_cert" then ["cert", "key", "user"]
  else if isText kind "provider" then ["provider", "token", "user"]
  else []

structure ParamsShown (params : List Param) (old : Fields) : Prop where
  declared : ∀ key v, old.lookup key = some v → key ∈ params.map (·.key)
  text : ∀ key v, old.lookup key = some v → ∃ s, v = .str s ∧ s ≠ ""

structure AuthShown (sa : Fields) : Prop where
  kind : Json.truthy (sa.lookup "kind") = true
  texts : OnlyTexts sa (authTexts (sa.lookup "kind")) ["kind"]

structure TlsShown (stls : Fields) : Prop where
  mode : Json.truthy (stls.lookup "mode") = true
  paths : ∀ name, name ≠ "mode" → stls.lookup name = none ∨
    name ∈ ["ca", "client_cert", "client_key"] ∧ ∃ s, stls.lookup name = some (.str s) ∧ s ≠ ""

/-- `kind` is "key", "password" or a method that has the fields of "password". -/
structure TunnelAuthShown (a : Fields) : Prop where
  kind : Json.truthy (a.lookup "kind") = true
  mode : ¬ isText (a.lookup "kind") "none" ∧ ¬ isText (a.lookup "kind") "profile"
  texts : OnlyTexts a
    (if isText (a.lookup "kind") "key" then ["path", "passphrase"] else ["password"]) ["kind"]

structure TunnelShown (t : Fields) : Prop where
  auth : ∃ a, t.lookup "auth" = some (.obj a) ∧ TunnelAuthShown a
  port : ∃ q, t.lookup "port" = some (.num q) ∧ Lib.toDouble (Lib.significant 13 q) = q
  texts : OnlyTexts t ["host", "user"] ["port", "auth"]

/-- The tunnel tab shows one of three answers. -/
inductive LinkShown (seed : Fields) : Prop
  | direct (ht : seed.lookup "tunnel" = none) (hp : seed.lookup "tunnel_profile" = none)
  | inline {t : Fields} (ht : seed.lookup "tunnel" = some (.obj t))
      (hp : seed.lookup "tunnel_profile" = none) (h : TunnelShown t)
  | profile {s : String} (ht : seed.lookup "tunnel" = none)
      (hp : seed.lookup "tunnel_profile" = some (.str s)) (hs : s ≠ "") (hno : s ≠ noProfiles)

/-- The rows show all of `seed`: every field that a save writes anew has a row, and a value that
its row and the save write back. -/
structure Shown (driver : DriverMeta) (seed : Fields) : Prop where
  params : ∃ old, paramTable (seed.lookup "params") = some old ∧ ParamsShown driver.params old
  auth : ∃ sa, seed.lookup "auth" = some (.obj sa) ∧ AuthShown sa
  tls : driver.network → ∃ stls, seed.lookup "tls" = some (.obj stls) ∧ TlsShown stls
  link : driver.network → LinkShown seed

variable {env : Env} {result : String → Option Json}

/-! ### Parameters -/

theorem filled_text {name s : String} (h : result name = some (.str s)) :
    filled result name = if s = "" then none else some (.str s) := by
  unfold filled
  rw [h]
  by_cases hs : s = ""
  · simp [hs]
  · simp [hs, Json.truthy]

theorem paramsOf_from (params : List Param) (t : Fields) (key : String) :
    (params.foldl (fun t p => (filled result ("p_" ++ p.key)).elim t
        fun v => set t p.key (some v)) t).lookup key =
      if key ∈ params.map (·.key) then (filled result ("p_" ++ key)).or (t.lookup key)
      else t.lookup key := by
  induction params generalizing t with
  | nil => rfl
  | cons p params ih =>
    have hstep : ((filled result ("p_" ++ p.key)).elim t
        fun v => set t p.key (some v)).lookup key =
          if key = p.key then (filled result ("p_" ++ key)).or (t.lookup key)
          else t.lookup key := by
      by_cases hkey : key = p.key
      · subst hkey
        cases hfilled : filled result ("p_" ++ p.key) <;> simp
      · cases hfilled : filled result ("p_" ++ p.key) <;> simp [hkey]
    rw [List.foldl_cons, ih, hstep]
    by_cases hkey : key = p.key
    · subst hkey
      cases hfilled : filled result ("p_" ++ p.key) <;> simp
    · simp [hkey]

theorem paramsOf_lookup (params : List Param) (key : String) :
    (paramsOf result params).lookup key =
      if key ∈ params.map (·.key) then filled result ("p_" ++ key) else none := by
  rw [paramsOf, paramsOf_from]
  simp

/-- What a parameter's row shows. -/
def paramShown (env : Env) (old : Fields) (p : Param) : String :=
  str env (either (old.lookup p.key) (either (p.default.map .str) (some (.str ""))))

/-- The row of a parameter is that of the last one declared with its key. -/
def ParamValues (env : Env) (params : List Param) (old : Fields)
    (result : String → Option Json) : Prop :=
  ∀ key ∈ params.map (·.key), ∃ p ∈ params, p.key = key ∧
    result ("p_" ++ key) = some (.str (paramShown env old p))

theorem params_kept {params : List Param} {old : Fields}
    (hvalues : ParamValues env params old result) :
    ParamsKept params old (paramsOf result params) ↔ ParamsShown params old := by
  constructor
  · intro h
    have hshown : ∀ key v, old.lookup key = some v →
        key ∈ params.map (·.key) ∧ ∃ s, v = .str s ∧ s ≠ "" := by
      intro key v hold
      have hnew := h.kept key v hold
      rw [paramsOf_lookup] at hnew
      split at hnew
      · next hkey =>
        obtain ⟨p, -, -, hrow⟩ := hvalues key hkey
        rw [filled_text hrow] at hnew
        split at hnew
        · simp at hnew
        · next hs => exact ⟨hkey, _, (Option.some.inj hnew).symm, hs⟩
      · simp at hnew
    exact ⟨fun key v hold => (hshown key v hold).1, fun key v hold => (hshown key v hold).2⟩
  · intro h
    constructor
    · intro key v hold
      obtain ⟨s, rfl, hs⟩ := h.text key v hold
      have hkey := h.declared key _ hold
      obtain ⟨p, -, rfl, hrow⟩ := hvalues key hkey
      rw [paramsOf_lookup, if_pos hkey, filled_text hrow]
      simp [paramShown, hold, hs]
    · intro key v hold hnew
      rw [paramsOf_lookup] at hnew
      split at hnew
      · next hkey =>
        obtain ⟨p, hp, rfl, hrow⟩ := hvalues key hkey
        rw [filled_text hrow] at hnew
        refine ⟨p, hp, rfl, ?_⟩
        cases hdefault : p.default with
        | none => simp [paramShown, hold, hdefault, either, Json.truthy] at hnew
        | some d =>
          have hd : paramShown env old p = d := by
            simp [paramShown, hold, hdefault, either, Json.truthy]
          rw [hd] at hnew
          split at hnew
          · simp at hnew
          · exact hnew
      · simp at hnew

/-! ### Tables of texts -/

/-- A table that was written anew from its own texts is the same if it has only these. -/
theorem texts_same (env : Env) {t u : Fields} {names : List String} {k : Option Json}
    (hkind : "kind" ∉ names)
    (hu : ∀ name, u.lookup name = if name ∈ names then some (.str (str env (t.lookup name)))
      else if name = "kind" then k else none) :
    (∀ name, SameField (t.lookup name) (u.lookup name)) ↔
      SameField (t.lookup "kind") k ∧ OnlyTexts t names ["kind"] := by
  constructor
  · intro h
    have hk := h "kind"
    rw [hu, if_neg hkind, if_pos rfl] at hk
    refine ⟨hk, fun name hother => ?_⟩
    have hname := h name
    rw [hu] at hname
    split at hname
    · next hmem =>
      rw [if_pos hmem]
      exact ⟨_, sameField_text.mp hname⟩
    · next hmem =>
      rw [if_neg (by simpa using hother)] at hname
      rw [if_neg hmem]
      exact sameField_none.mp hname
  · rintro ⟨hk, htexts⟩ name
    rw [hu]
    by_cases hname : name = "kind"
    · subst hname
      rw [if_neg hkind, if_pos rfl]
      exact hk
    · have htext := htexts name (by simpa using hname)
      split
      · next hmem =>
        rw [if_pos hmem] at htext
        obtain ⟨s, hs⟩ := htext
        rw [hs]
        exact .rfl
      · next hmem =>
        rw [if_neg hmem] at htext
        rw [htext]
        exact .none

theorem either_truthy {v w : Option Json} (h : Json.truthy v = true) : either v w = v := if_pos h

theorem either_falsy {v w : Option Json} (h : ¬ Json.truthy v = true) : either v w = w := if_neg h

/-- The row of a select with a default has a value. -/
theorem either_either {v w : Option Json} {s : String} :
    either (either v (some (.str s))) w = either v (some (.str s)) := by
  by_cases htruthy : Json.truthy v = true
  · rw [either_truthy htruthy, either_truthy htruthy]
  · rw [either_falsy htruthy, either_text]

/-- A select row shows what is there; a default is put where there is nothing. -/
theorem sameField_either {v : Option Json} {s : String} :
    SameField v (either v (some (.str s))) ↔ Json.truthy v = true := by
  by_cases htruthy : Json.truthy v = true
  · rw [either_truthy htruthy]
    exact iff_of_true .rfl htruthy
  · rw [either_falsy htruthy, sameField_text]
    constructor
    · rintro rfl
      exact absurd rfl htruthy
    · intro h
      exact absurd h htruthy

/-! ### The auth method -/

structure AuthValues (env : Env) (driver : DriverMeta) (sa : Fields)
    (result : String → Option Json) : Prop where
  kind : result "a_kind" =
    either (sa.lookup "kind") ((driver.auth.getD ["none"]).head?.map .str)
  user : result "a_user" = some (.str (str env (sa.lookup "user")))
  password : result "a_password" = some (.str (str env (sa.lookup "password")))
  cert : result "a_cert" = some (.str (str env (sa.lookup "cert")))
  key : result "a_key" = some (.str (str env (sa.lookup "key")))
  provider : result "a_provider" = some (.str (str env (sa.lookup "provider")))
  token : result "a_token" = some (.str (str env (sa.lookup "token")))

theorem text_value {name s : String} (h : result name = some (.str s)) :
    text result name = some (.str s) := by
  rw [text, h, either_text]

theorem authOf_kind :
    (authOf result).lookup "kind" = either (result "a_kind") (some (.str "none")) := by
  unfold authOf
  dsimp only
  split_ifs <;> simp

/-- A principal is written of the user and never read. -/
theorem kerberos_same {sa : Fields} {k : Option Json}
    (huser : result "a_user" = some (.str (str env (sa.lookup "user")))) :
    (∀ name, SameField (sa.lookup name)
        ((set (set [] "kind" k) "principal" (filled result "a_user")).lookup name)) ↔
      SameField (sa.lookup "kind") k ∧ OnlyTexts sa [] ["kind"] := by
  by_cases hnone : sa.lookup "user" = none
  · apply texts_same env (by decide)
    intro name
    rw [filled_text huser, hnone]
    simp [str]
    grind
  · refine iff_of_false (fun h => hnone ?_) fun h => hnone ?_
    · simpa using h "user"
    · simpa using h.2 "user" (by decide)

theorem auth_same {driver : DriverMeta} {sa : Fields}
    (hvalues : AuthValues env driver sa result) :
    (∀ name, SameField (sa.lookup name) ((authOf result).lookup name)) ↔ AuthShown sa := by
  by_cases htruthy : Json.truthy (sa.lookup "kind") = true
  · have hrow : either (result "a_kind") (some (.str "none")) = sa.lookup "kind" := by
      simp [hvalues.kind, either, htruthy]
    have htexts : (∀ name, SameField (sa.lookup name) ((authOf result).lookup name)) ↔
        SameField (sa.lookup "kind") (sa.lookup "kind") ∧
          OnlyTexts sa (authTexts (sa.lookup "kind")) ["kind"] := by
      unfold authOf authTexts
      dsimp only
      rw [hrow, text_value hvalues.user, text_value hvalues.password, text_value hvalues.cert,
        text_value hvalues.key, text_value hvalues.provider, text_value hvalues.token]
      split_ifs with hpassword hcert hprovider hkerberos
      · apply texts_same env (by decide)
        intro name
        simp only [lookup_set, List.lookup_nil, List.mem_cons, List.not_mem_nil, or_false]
        grind
      · apply texts_same env (by decide)
        intro name
        simp only [lookup_set, List.lookup_nil, List.mem_cons, List.not_mem_nil, or_false]
        grind
      · apply texts_same env (by decide)
        intro name
        simp only [lookup_set, List.lookup_nil, List.mem_cons, List.not_mem_nil, or_false]
        grind
      · exact kerberos_same hvalues.user
      · apply texts_same env (by decide)
        intro name
        simp
    rw [htexts]
    exact ⟨fun h => ⟨htruthy, h.2⟩, fun h => ⟨.rfl, h.texts⟩⟩
  · refine iff_of_false (fun h => htruthy ?_) fun h => htruthy h.kind
    have hkind := h "kind"
    rw [authOf_kind, hvalues.kind] at hkind
    rw [either_falsy htruthy] at hkind
    have hdefault : either ((driver.auth.getD ["none"]).head?.map .str) (some (.str "none")) =
        some (.str (((driver.auth.getD ["none"]).head?).getD "none")) := by
      cases (driver.auth.getD ["none"]).head? <;> rfl
    rw [hdefault, sameField_text] at hkind
    rw [hkind]
    rfl

/-! ### The encryption -/

structure TlsValues (env : Env) (stls : Fields) (result : String → Option Json) : Prop where
  mode : result "t_mode" = either (stls.lookup "mode") (some (.str "prefer"))
  ca : result "t_ca" = some (.str (str env (stls.lookup "ca")))
  cert : result "t_cc" = some (.str (str env (stls.lookup "client_cert")))
  key : result "t_ck" = some (.str (str env (stls.lookup "client_key")))

/-- A path is written back unless it is "". -/
theorem sameField_filled {name : String} {v : Option Json}
    (hrow : result name = some (.str (str env v))) :
    SameField v (filled result name) ↔ v = none ∨ ∃ s, v = some (.str s) ∧ s ≠ "" := by
  rw [filled_text hrow]
  constructor
  · intro h
    split at h
    · exact .inl (sameField_none.mp h)
    · next hs => exact .inr ⟨_, sameField_text.mp h, hs⟩
  · rintro (rfl | ⟨s, rfl, hs⟩)
    · exact .none
    · rw [str_text, if_neg hs]
      exact .rfl

theorem tls_same {stls : Fields} (hvalues : TlsValues env stls result) :
    (∀ name, SameField (stls.lookup name) ((tlsOf result).lookup name)) ↔ TlsShown stls := by
  have hlookup : ∀ name, (tlsOf result).lookup name =
      if name = "client_key" then filled result "t_ck"
      else if name = "client_cert" then filled result "t_cc"
      else if name = "ca" then filled result "t_ca"
      else if name = "mode" then either (stls.lookup "mode") (some (.str "prefer")) else none := by
    intro name
    simp only [tlsOf, hvalues.mode, either_either, lookup_set, List.lookup_nil]
  constructor
  · intro h
    constructor
    · have hmode := h "mode"
      rw [hlookup] at hmode
      exact sameField_either.mp hmode
    · intro name hname
      have hfield := h name
      rw [hlookup] at hfield
      split_ifs at hfield with hkey hcert hca
      · subst hkey
        exact ((sameField_filled hvalues.key).mp hfield).imp_right fun hs => ⟨by decide, hs⟩
      · subst hcert
        exact ((sameField_filled hvalues.cert).mp hfield).imp_right fun hs => ⟨by decide, hs⟩
      · subst hca
        exact ((sameField_filled hvalues.ca).mp hfield).imp_right fun hs => ⟨by decide, hs⟩
      · exact .inl (sameField_none.mp hfield)
  · intro h name
    have hpath : name ≠ "mode" →
        stls.lookup name = none ∨ ∃ s, stls.lookup name = some (.str s) ∧ s ≠ "" :=
      fun hname => (h.paths name hname).imp_right fun hs => hs.2
    rw [hlookup]
    split_ifs with hkey hcert hca hmode
    · subst hkey
      exact (sameField_filled hvalues.key).mpr (hpath (by decide))
    · subst hcert
      exact (sameField_filled hvalues.cert).mpr (hpath (by decide))
    · subst hca
      exact (sameField_filled hvalues.ca).mpr (hpath (by decide))
    · subst hmode
      exact sameField_either.mpr h.mode
    · rcases h.paths name hmode with hnone | ⟨hmem, -⟩
      · exact sameField_none.mpr hnone
      · simp [hkey, hcert, hca] at hmem

/-! ### The tunnel -/

structure TunnelValues (env : Env) (t a : Fields) (result : String → Option Json) : Prop where
  host : result "k_host" = some (.str (str env (t.lookup "host")))
  port : result "k_port" = some (.str
    (if Json.truthy (t.lookup "port") then tostring env (t.lookup "port") else "22"))
  user : result "k_user" = some (.str (str env (t.lookup "user")))
  path : result "k_path" = some (.str (str env (a.lookup "path")))
  secret : result "k_secret" = some (.str (str env (secretShown (a.lookup "passphrase") (a.lookup "password"))))

theorem tunnelAuth_same {t a : Fields} (hvalues : TunnelValues env t a result) :
    (∀ name, SameField (a.lookup name)
        ((tunnelAuthOf result (a.lookup "kind")).lookup name)) ↔
      OnlyTexts a
        (if isText (a.lookup "kind") "key" then ["path", "passphrase"] else ["password"])
        ["kind"] := by
  have hsame : ∀ {u : Fields} {names : List String}, "kind" ∉ names →
      (∀ name, u.lookup name = if name ∈ names then some (.str (str env (a.lookup name)))
        else if name = "kind" then a.lookup "kind" else none) →
      ((∀ name, SameField (a.lookup name) (u.lookup name)) ↔ OnlyTexts a names ["kind"]) := by
    intro u names hkind hu
    rw [texts_same env hkind hu]
    exact and_iff_right .rfl
  unfold tunnelAuthOf
  dsimp only
  rw [text_value hvalues.path, text_value hvalues.secret]
  split_ifs with hkey
  · by_cases htext : ∃ s, a.lookup "passphrase" = some (.str s)
    · obtain ⟨s, hs⟩ := htext
      apply hsame (by decide)
      intro name
      have hsecret : secretShown (a.lookup "passphrase") (a.lookup "password") =
          a.lookup "passphrase" := by
        rw [hs]
        rfl
      rw [hsecret]
      simp only [lookup_set, List.lookup_nil, List.mem_cons, List.not_mem_nil, or_false]
      grind
    · refine iff_of_false (fun h => htext ?_) fun h => htext ?_
      · have hfield := h "passphrase"
        simp only [lookup_set, if_true, sameField_text] at hfield
        exact ⟨_, hfield⟩
      · simpa using h "passphrase" (by decide)
  · by_cases hnone : a.lookup "passphrase" = none
    · apply hsame (by decide)
      intro name
      rw [hnone]
      simp only [lookup_set, List.lookup_nil, List.mem_cons, List.not_mem_nil, or_false,
        secretShown]
      grind
    · refine iff_of_false (fun h => hnone ?_) fun h => hnone ?_
      · simpa using h "passphrase"
      · simpa using h "passphrase" (by decide)

/-- A port is written back if it is a number that its row shows whole. -/
theorem port_same {t a : Fields} (hvalues : TunnelValues env t a result) :
    SameField (t.lookup "port") (some (.num ((Cell.number env (result "k_port")).getD 22))) ↔
      ∃ q, t.lookup "port" = some (.num q) ∧ Lib.toDouble (Lib.significant 13 q) = q := by
  have hread : ∀ q, t.lookup "port" = some (.num q) →
      (Cell.number env (result "k_port")).getD 22 = Lib.toDouble (Lib.significant 13 q) := by
    intro q hq
    rw [hvalues.port, hq]
    change (Cell.tonumber env (Cell.numberText q)).getD 22 = _
    rw [Cell.tonumber_numberText]
    rfl
  rw [sameField_num]
  constructor
  · intro h
    exact ⟨_, h, (hread _ h).symm⟩
  · rintro ⟨q, hq, hwhole⟩
    rw [hread q hq, hwhole, hq]

theorem tunnel_same {t a : Fields} (ha : t.lookup "auth" = some (.obj a))
    (hkind : Json.truthy (a.lookup "kind") = true)
    (hmode : ¬ isText (a.lookup "kind") "none" ∧ ¬ isText (a.lookup "kind") "profile")
    (hvalues : TunnelValues env t a result) :
    (∀ name, SameField (t.lookup name)
        ((tunnelOf env result (a.lookup "kind")).lookup name)) ↔ TunnelShown t := by
  have hlookup : ∀ name, (tunnelOf env result (a.lookup "kind")).lookup name =
      if name = "auth" then some (.obj (tunnelAuthOf result (a.lookup "kind")))
      else if name = "user" then some (.str (str env (t.lookup "user")))
      else if name = "port" then some (.num ((Cell.number env (result "k_port")).getD 22))
      else if name = "host" then some (.str (str env (t.lookup "host"))) else none := by
    intro name
    simp only [tunnelOf, text_value hvalues.host, text_value hvalues.user, lookup_set,
      List.lookup_nil]
  have htext : ∀ {name}, SameField (t.lookup name) (some (.str (str env (t.lookup name)))) ↔
      ∃ s, t.lookup name = some (.str s) := by
    intro name
    rw [sameField_text]
    constructor
    · intro h
      exact ⟨_, h⟩
    · rintro ⟨s, hs⟩
      rw [hs]
      rfl
  constructor
  · intro h
    refine ⟨⟨a, ha, hkind, hmode, ?_⟩, ?_, ?_⟩
    · have hauth := h "auth"
      rw [hlookup, if_pos rfl, ha, sameField_obj] at hauth
      obtain ⟨_, ⟨⟩, hauth⟩ := hauth
      exact (tunnelAuth_same hvalues).mp hauth
    · have hport := h "port"
      rw [hlookup] at hport
      exact (port_same hvalues).mp hport
    · intro name hother
      have hfield := h name
      rw [hlookup] at hfield
      simp only [List.mem_cons, List.not_mem_nil, or_false, not_or] at hother
      rw [if_neg hother.2] at hfield
      split_ifs at hfield with huser hport hhost
      · subst huser
        exact htext.mp hfield
      · exact absurd hport hother.1
      · subst hhost
        exact htext.mp hfield
      · rw [if_neg (by simp [huser, hhost])]
        exact sameField_none.mp hfield
  · rintro ⟨⟨a', ha', hshown⟩, hport, htexts⟩ name
    obtain rfl : a = a' := by simpa [ha] using ha'
    rw [hlookup]
    split_ifs with hauth huser hname hhost
    · rw [hauth, ha]
      exact .some (.obj ((tunnelAuth_same hvalues).mpr hshown.texts))
    · subst huser
      exact htext.mpr (htexts "user" (by decide))
    · subst hname
      exact (port_same hvalues).mpr hport
    · subst hhost
      exact htext.mpr (htexts "host" (by decide))
    · have hnone := htexts name (by simp [hname, hauth])
      rw [if_neg (by simp [huser, hhost])] at hnone
      exact sameField_none.mpr hnone

end LvimDb.Form
