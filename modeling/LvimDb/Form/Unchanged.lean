import LvimDb.Form.Shown

/-!
# A form that is saved as it was opened
-/

namespace LvimDb.Form
open Daemon (Json)
open Cell (Env tostring)

variable {env : Env} {result : String → Option Json} {driver : DriverMeta} {seed : Fields}
  {profiles : List String} {name : String}

/-! ### The opened form -/

theorem values_after {rows later : List Row} (h : ∀ r ∈ later, r.name ≠ name) :
    values (rows ++ later) name = values rows name := by
  rw [values_append, List.find?_eq_none.mpr (by simpa using h)]
  rfl

theorem dig_params {old : Fields} (h : paramTable (seed.lookup "params") = some old)
    (key : String) : dig (seed.lookup "params") key = some (old.lookup key) := by
  unfold paramTable at h
  split at h
  · next hnone =>
    cases h
    rw [hnone]
    rfl
  · next t hobj =>
    cases h
    rw [hobj]
    rfl
  · simp at h

/-- The rows of the tabs, where what they index is a table. -/
def connShown (env : Env) (name : String) (driver : DriverMeta) (old : Fields) : List Row :=
  srow env "__name" (some (.str name)) ::
    driver.params.map fun p => ⟨"p_" ++ p.key, some (.str (paramShown env old p))⟩

def authShown (env : Env) (driver : DriverMeta) (sa : Fields) : List Row :=
  [⟨"a_kind", either (sa.lookup "kind") ((driver.auth.getD ["none"]).head?.map .str)⟩,
    srow env "a_user" (sa.lookup "user"), srow env "a_password" (sa.lookup "password"),
    srow env "a_cert" (sa.lookup "cert"), srow env "a_key" (sa.lookup "key"),
    srow env "a_provider" (sa.lookup "provider"), srow env "a_token" (sa.lookup "token")]

def tlsShown (env : Env) (stls : Fields) : List Row :=
  [⟨"t_mode", either (stls.lookup "mode") (some (.str "prefer"))⟩,
    srow env "t_ca" (stls.lookup "ca"), srow env "t_cc" (stls.lookup "client_cert"),
    srow env "t_ck" (stls.lookup "client_key")]

theorem connRows_eq {old : Fields} (h : paramTable (seed.lookup "params") = some old) :
    connRows env name driver seed = some (connShown env name driver old) := by
  unfold connRows
  simp only [dig_params h]
  have hparams : (driver.params.mapM fun p => some (srow env ("p_" ++ p.key)
      (either (old.lookup p.key) (either (p.default.map .str) (some (.str "")))))) =
      some (driver.params.map fun p => ⟨"p_" ++ p.key, some (.str (paramShown env old p))⟩) :=
    List.mapM_pure
  simp only [Option.bind_eq_bind, Option.bind_some, hparams]
  rfl

theorem authRows_eq {sa : Fields} (h : seed.lookup "auth" = some (.obj sa)) :
    authRows env driver seed = some (authShown env driver sa) := by
  unfold authRows
  rw [h]
  rfl

theorem tlsRows_eq {stls : Fields} (h : seed.lookup "tls" = some (.obj stls)) :
    tlsRows env seed = some (tlsShown env stls) := by
  unfold tlsRows
  rw [h]
  rfl

/-- What the first two tabs hold. -/
structure Values (env : Env) (name : String) (driver : DriverMeta) (old sa : Fields)
    (result : String → Option Json) : Prop where
  name : result "__name" = some (.str name)
  params : ParamValues env driver.params old result
  auth : AuthValues env driver sa result

theorem values_conn (env : Env) (name : String) (driver : DriverMeta) (old sa : Fields) :
    Values env name driver old sa
      (values (connShown env name driver old ++ authShown env driver sa)) := by
  refine ⟨?_, ?_, ?_⟩
  · rw [values_after (by simp [authShown, srow]), connShown, ← List.singleton_append, values_after]
    · simp [values, srow]
    · intro r hr
      obtain ⟨p, -, rfl⟩ := List.mem_map.mp hr
      exact param_name_ne p.key (by decide)
  · intro key hkey
    obtain ⟨p, hp, rfl⟩ := List.mem_map.mp hkey
    have hauth : ∀ r ∈ authShown env driver sa, r.name ≠ "p_" ++ p.key := by
      intro r hr
      have hname : r.name ∈ (authShown env driver sa).map (·.name) := List.mem_map_of_mem hr
      have hheads : ∀ x ∈ (authShown env driver sa).map (·.name), x.toList.head? ≠ some 'p' := by
        simp only [authShown, srow, List.map_cons, List.map_nil]
        decide
      exact (param_name_ne p.key (hheads _ hname)).symm
    rw [values_after hauth, connShown, ← List.singleton_append, values_append]
    set rows := driver.params.map fun p =>
      (⟨"p_" ++ p.key, some (.str (paramShown env old p))⟩ : Row) with hrows
    have hmem : (⟨"p_" ++ p.key, some (.str (paramShown env old p))⟩ : Row) ∈ rows.reverse :=
      List.mem_reverse.mpr (List.mem_map.mpr ⟨p, hp, rfl⟩)
    obtain ⟨r, hr⟩ := Option.isSome_iff_exists.mp
      (List.find?_isSome (p := fun r : Row => decide (r.name = "p_" ++ p.key)).mpr
        ⟨_, hmem, by simp⟩)
    obtain ⟨p', hp', rfl⟩ := List.mem_map.mp (List.mem_reverse.mp (List.mem_of_find?_eq_some hr))
    have hname := List.find?_some hr
    simp only [decide_eq_true_eq] at hname
    exact ⟨p', hp', param_name_inj.mp hname, by rw [hr]; rfl⟩
  · constructor <;> simp [values_append, authShown, srow]

theorem values_later {rows later : List Row} {old sa : Fields}
    (h : Values env name driver old sa (values rows))
    (hlater : ∀ r ∈ later, r.name.toList.head? = some 't' ∨ r.name.toList.head? = some 'k') :
    Values env name driver old sa (values (rows ++ later)) := by
  have hafter : ∀ x : String, x.toList.head? ≠ some 't' → x.toList.head? ≠ some 'k' →
      values (rows ++ later) x = values rows x := by
    intro x ht hk
    apply values_after
    rintro r hr rfl
    exact (hlater r hr).elim ht hk
  refine ⟨?_, ?_, ?_⟩
  · rw [hafter _ (by decide) (by decide)]
    exact h.name
  · intro key hkey
    rw [hafter _ (by simp [String.toList_append]) (by simp [String.toList_append])]
    exact h.params key hkey
  · constructor <;> rw [hafter _ (by decide) (by decide)]
    · exact h.auth.kind
    · exact h.auth.user
    · exact h.auth.password
    · exact h.auth.cert
    · exact h.auth.key
    · exact h.auth.provider
    · exact h.auth.token

/-- What the tunnel tab holds. -/
structure LinkValues (env : Env) (seed : Fields) (result : String → Option Json) : Prop where
  mode : ∃ kind, result "k_mode" = (if Json.truthy (seed.lookup "tunnel_profile")
      then some (.str "profile") else either kind (some (.str "none"))) ∧
    (seed.lookup "tunnel" = none → kind = none) ∧
    ∀ t a, seed.lookup "tunnel" = some (.obj t) → t.lookup "auth" = some (.obj a) →
      kind = a.lookup "kind"
  profile : ∃ first, result "k_profile" = some (.str
    (if str env (seed.lookup "tunnel_profile") ≠ "" then str env (seed.lookup "tunnel_profile")
      else first))
  inline : ∀ t a, seed.lookup "tunnel" = some (.obj t) → t.lookup "auth" = some (.obj a) →
    TunnelValues env t a result

theorem tunnelRows_names {tunnel : List Row} (h : tunnelRows env profiles seed = some tunnel) :
    tunnel.map (·.name) =
      ["k_mode", "k_profile", "k_host", "k_port", "k_user", "k_path", "k_secret"] := by
  simp only [tunnelRows, Option.bind_eq_bind, Option.bind_eq_some_iff, Option.some.injEq] at h
  obtain ⟨a, -, kind, -, host, -, port, -, user, -, path, -, secret, -, rfl⟩ := h
  rfl

theorem linkValues {rows tunnel : List Row} (h : tunnelRows env profiles seed = some tunnel) :
    LinkValues env seed (values (rows ++ tunnel)) := by
  simp only [tunnelRows, Option.bind_eq_bind, Option.bind_eq_some_iff, Option.some.injEq] at h
  obtain ⟨a, ha, kind, hkind, host, hhost, port, hport, user, huser, path, hpath, secret, hsecret,
    rfl⟩ := h
  refine ⟨⟨kind, by simp [values_append, srow], ?_, ?_⟩, ⟨_, by simp [values_append, srow]; rfl⟩, ?_⟩
  · intro hnone
    rw [hnone] at ha
    cases ha
    cases hkind
    rfl
  · intro t a' ht ha'
    rw [ht, dig_obj, ha'] at ha
    cases ha
    cases hkind
    rfl
  · intro t a' ht ha'
    rw [ht, dig_obj, ha'] at ha
    cases ha
    rw [ht] at hhost hport huser hsecret
    cases hhost
    cases hport
    cases huser
    cases hpath
    have hsecret : str env (secretShown (a'.lookup "passphrase") (a'.lookup "password")) =
        secret := by
      simpa [tunnelSecret, dig_obj, ha', Json.truthy] using hsecret
    subst hsecret
    constructor <;> simp [values_append, srow]

/-! ### The spec of the save -/

/-- What a save of a network engine makes of the tunnel: the inline one and the profile. -/
def linkOf (env : Env) (result : String → Option Json) : Option Json × Option Json :=
  let mode := either (result "k_mode") (some (.str "none"))
  if isText mode "profile" then
    let chosen := str env (result "k_profile")
    (none, if chosen ≠ "" ∧ chosen ≠ noProfiles then some (.str chosen) else none)
  else if isText mode "none" then (none, none)
  else (some (.obj (tunnelOf env result mode)), none)

theorem specOf_network (x : String) :
    (specOf env result driver true seed).lookup x =
      if x = "tunnel" then (linkOf env result).1
      else if x = "tunnel_profile" then (linkOf env result).2
      else if x = "tls" then some (.obj (tlsOf result))
      else if x = "auth" then some (.obj (authOf result))
      else if x = "params" then some (.obj (paramsOf result driver.params))
      else seed.lookup x := by
  unfold specOf linkOf
  dsimp only
  rw [if_pos rfl]
  split_ifs <;> simp_all

theorem specOf_file (x : String) :
    (specOf env result driver false seed).lookup x =
      if x = "auth" then some (.obj (authOf result))
      else if x = "params" then some (.obj (paramsOf result driver.params))
      else seed.lookup x := by
  simp [specOf]

/-- A save that keeps the tunnel and is not refused. -/
theorem link_same (hvalues : LinkValues env seed result) :
    (SameField (seed.lookup "tunnel") (linkOf env result).1 ∧
      SameField (seed.lookup "tunnel_profile") (linkOf env result).2 ∧
      ¬ (isText (either (result "k_mode") (some (.str "none"))) "profile" = true ∧
        ¬ Json.truthy (linkOf env result).2 = true)) ↔ LinkShown seed := by
  obtain ⟨⟨kind, hmode, hnone, hkind⟩, ⟨first, hprofile⟩, hinline⟩ := hvalues
  constructor
  · rintro ⟨htunnel, hsame, hsaved⟩
    unfold linkOf at htunnel hsame hsaved
    dsimp only at htunnel hsame hsaved
    split_ifs at htunnel hsame hsaved with hp hchosen hn
    · exact .profile (sameField_none.mp htunnel) (sameField_text.mp hsame) hchosen.1 hchosen.2
    · exact absurd ⟨hp, by simp [Json.truthy]⟩ hsaved
    · exact .direct (sameField_none.mp htunnel) (sameField_none.mp hsame)
    · have hempty := sameField_none.mp hsame
      obtain ⟨t, ht, hfields⟩ := sameField_obj.mp htunnel
      have hauth := hfields "auth"
      simp only [tunnelOf, lookup_set, if_true] at hauth
      obtain ⟨a, ha, -⟩ := sameField_obj.mp hauth
      rw [hempty, if_neg (by simp [Json.truthy])] at hmode
      rw [hmode, either_either, hkind t a ht ha] at hp hn hfields
      have htruthy : Json.truthy (a.lookup "kind") = true := by
        by_contra hfalsy
        rw [either_falsy hfalsy] at hn
        simp at hn
      rw [either_truthy htruthy] at hp hn hfields
      exact .inline ht hempty
        ((tunnel_same ha htruthy ⟨hn, hp⟩ (hinline t a ht ha)).mp hfields)
  · rintro (⟨ht, hp⟩ | ⟨ht, hp, h⟩ | ⟨ht, hp, hs, hno⟩)
    · have hdirect : either (result "k_mode") (some (.str "none")) = some (.str "none") := by
        rw [hmode, hp, hnone ht]
        rfl
      simp [linkOf, hdirect, ht, hp]
    · obtain ⟨⟨a, ha, hshown⟩, -, -⟩ := id h
      have hinlined : either (result "k_mode") (some (.str "none")) = a.lookup "kind" := by
        rw [hmode, hp, hkind _ _ ht ha, if_neg (by simp [Json.truthy]), either_either,
          either_truthy hshown.kind]
      have hlink : linkOf env result = (some (.obj (tunnelOf env result (a.lookup "kind"))), none) := by
        simp [linkOf, hinlined, hshown.mode.1, hshown.mode.2]
      rw [hlink, hinlined, ht, hp]
      refine ⟨.some (.obj ?_), .rfl, fun hrefused => hshown.mode.2 hrefused.1⟩
      exact (tunnel_same ha hshown.kind hshown.mode (hinline _ _ ht ha)).mpr h
    · have hmode : either (result "k_mode") (some (.str "none")) = some (.str "profile") := by
        rw [hmode, hp]
        rfl
      have hchosen : str env (result "k_profile") = _ := congrArg (str env) hprofile
      simp only [hp, str_text, ne_eq, hs, not_false_eq_true, if_true] at hchosen
      simp [linkOf, hmode, hchosen, hs, hno, ht, hp, Json.truthy]

theorem tunnelRows_shown (env : Env) (profiles : List String) (h : LinkShown seed) :
    ∃ tunnel, tunnelRows env profiles seed = some tunnel := by
  obtain ⟨ht, -⟩ | ⟨ht, -, ⟨a, ha, -⟩, -, -⟩ | ⟨ht, -⟩ := h
  · unfold tunnelRows
    rw [ht]
    exact ⟨_, rfl⟩
  · unfold tunnelRows tunnelSecret
    simp only [ht, dig_obj, ha, Option.bind_eq_bind, Option.bind_some, Json.truthy, if_true]
    exact ⟨_, rfl⟩
  · unfold tunnelRows
    rw [ht]
    exact ⟨_, rfl⟩

theorem save_iff {out : Fields} : save env profiles name driver seed = some out ↔
    ∃ rows, openTabs env profiles name driver seed = some rows ∧
      Editor.trim (str env (values rows "__name")) ≠ "" ∧
      ¬ (isText (either (values rows "k_mode") (some (.str "none"))) "profile" = true ∧
        ¬ Json.truthy ((specOf env (values rows) driver driver.network seed).lookup
          "tunnel_profile") = true) ∧
      specOf env (values rows) driver driver.network seed = out := by
  unfold save
  simp only [Option.bind_eq_bind, Option.bind_eq_some_iff, Option.ite_none_left_eq_some,
    Option.some.injEq]

/-- A spec that a save of these values hands to the store is kept if its parts are. -/
theorem kept_iff {out : Fields} {old sa : Fields}
    (hold : paramTable (seed.lookup "params") = some old)
    (hsa : seed.lookup "auth" = some (.obj sa)) (hvalues : Values env name driver old sa result)
    (hparams : out.lookup "params" = some (.obj (paramsOf result driver.params)))
    (hauth : out.lookup "auth" = some (.obj (authOf result))) :
    Kept driver seed out ↔ ParamsShown driver.params old ∧ AuthShown sa ∧
      ∀ x, x ≠ "params" → x ≠ "auth" → SameField (seed.lookup x) (out.lookup x) := by
  rw [← params_kept hvalues.params, ← auth_same hvalues.auth]
  constructor
  · rintro ⟨⟨old', new, hold', hnew, hkept⟩, hrest⟩
    obtain rfl : old = old' := by simpa [hold] using hold'
    obtain rfl : paramsOf result driver.params = new := by simpa [hparams] using hnew
    refine ⟨hkept, ?_, fun x hx _ => hrest x hx⟩
    have hsame := hrest "auth" (by decide)
    rw [hauth, hsa, sameField_obj] at hsame
    obtain ⟨_, ⟨⟩, hsame⟩ := hsame
    exact hsame
  · rintro ⟨hkept, hsame, hrest⟩
    refine ⟨⟨old, _, hold, hparams, hkept⟩, fun x hx => ?_⟩
    by_cases hx' : x = "auth"
    · rw [hx', hauth, hsa]
      exact .some (.obj hsame)
    · exact hrest x hx hx'

/-- What is kept of the parameters and of the auth method was a table. -/
theorem Kept.tables {out auth : Fields} (h : Kept driver seed out)
    (hauth : out.lookup "auth" = some (.obj auth)) :
    ∃ old sa, paramTable (seed.lookup "params") = some old ∧
      seed.lookup "auth" = some (.obj sa) := by
  obtain ⟨old, -, hold, -⟩ := h.params
  have hsame := h.rest "auth" (by decide)
  rw [hauth] at hsame
  obtain ⟨sa, hsa, -⟩ := sameField_obj.mp hsame
  exact ⟨old, sa, hold, hsa⟩

theorem values_untouched {old sa : Fields} :
    values (connShown env name driver old ++ authShown env driver sa) "k_mode" = none := by
  rw [values_after (by simp [authShown, srow]), connShown, ← List.singleton_append, values_after]
  · simp [values, srow]
  · intro r hr
    obtain ⟨p, -, rfl⟩ := List.mem_map.mp hr
    exact param_name_ne p.key (by decide)

theorem file_unchanged (hnetwork : driver.network = false) :
    (∃ out, save env profiles name driver seed = some out ∧ Kept driver seed out) ↔
      Editor.trim name ≠ "" ∧ Shown driver seed := by
  have hopen : ∀ {old sa}, paramTable (seed.lookup "params") = some old →
      seed.lookup "auth" = some (.obj sa) → openTabs env profiles name driver seed =
        some (connShown env name driver old ++ authShown env driver sa) := by
    intro old sa hold hsa
    simp [openTabs, connRows_eq hold, authRows_eq hsa, hnetwork]
  have hkept : ∀ {old sa}, paramTable (seed.lookup "params") = some old →
      seed.lookup "auth" = some (.obj sa) →
      (Kept driver seed (specOf env (values (connShown env name driver old ++
        authShown env driver sa)) driver false seed) ↔ ParamsShown driver.params old ∧
          AuthShown sa) := by
    intro old sa hold hsa
    rw [kept_iff hold hsa (values_conn env name driver old sa) (by simp [specOf_file])
      (by simp [specOf_file])]
    refine and_congr_right fun _ => and_iff_left fun x hparams hauth => ?_
    rw [specOf_file, if_neg hauth, if_neg hparams]
    exact .rfl
  constructor
  · rintro ⟨out, hsave, hout⟩
    obtain ⟨rows, hrows, hname, -, rfl⟩ := save_iff.mp hsave
    rw [hnetwork] at hout
    obtain ⟨old, sa, hold, hsa⟩ := hout.tables (by rw [specOf_file, if_pos rfl])
    rw [hopen hold hsa] at hrows
    cases hrows
    rw [(values_conn env name driver old sa).name, str_text] at hname
    obtain ⟨hparams, hauth⟩ := (hkept hold hsa).mp hout
    exact ⟨hname, ⟨old, hold, hparams⟩, ⟨sa, hsa, hauth⟩, by simp [hnetwork], by simp [hnetwork]⟩
  · rintro ⟨hname, ⟨⟨old, hold, hparams⟩, ⟨sa, hsa, hauth⟩, -, -⟩⟩
    refine ⟨_, save_iff.mpr ⟨_, hopen hold hsa, ?_, ?_, rfl⟩, ?_⟩
    · rw [(values_conn env name driver old sa).name, str_text]
      exact hname
    · rw [values_untouched]
      simp [either, Json.truthy]
    · rw [hnetwork]
      exact (hkept hold hsa).mpr ⟨hparams, hauth⟩

/-- The rows of a network engine. -/
def networkShown (env : Env) (name : String) (driver : DriverMeta) (old sa stls : Fields)
    (tunnel : List Row) : List Row :=
  connShown env name driver old ++ authShown env driver sa ++ tlsShown env stls ++ tunnel

theorem tunnel_head {tunnel : List Row} (h : tunnelRows env profiles seed = some tunnel) :
    ∀ r ∈ tunnel, r.name.toList.head? = some 'k' := by
  intro r hr
  have hname : r.name ∈ tunnel.map (·.name) := List.mem_map_of_mem hr
  rw [tunnelRows_names h] at hname
  exact (by decide : ∀ x ∈ ["k_mode", "k_profile", "k_host", "k_port", "k_user", "k_path",
    "k_secret"], x.toList.head? = some 'k') _ hname

theorem values_network (name : String) (driver : DriverMeta) (old sa stls : Fields)
    {tunnel : List Row} (h : tunnelRows env profiles seed = some tunnel) :
    Values env name driver old sa (values (networkShown env name driver old sa stls tunnel)) ∧
      TlsValues env stls (values (networkShown env name driver old sa stls tunnel)) := by
  have hhead := tunnel_head h
  constructor
  · refine values_later (values_later (values_conn env name driver old sa) ?_) fun r hr =>
      .inr (hhead r hr)
    intro r hr
    have hname : r.name ∈ (tlsShown env stls).map (·.name) := List.mem_map_of_mem hr
    have hheads : ∀ x ∈ (tlsShown env stls).map (·.name), x.toList.head? = some 't' := by
      simp only [tlsShown, srow, List.map_cons, List.map_nil]
      decide
    exact .inl (hheads _ hname)
  · have hafter : ∀ x : String, x.toList.head? = some 't' →
        values (networkShown env name driver old sa stls tunnel) x =
          values (connShown env name driver old ++ authShown env driver sa ++
            tlsShown env stls) x := by
      intro x hx
      apply values_after
      rintro r hr rfl
      rw [hhead r hr] at hx
      exact absurd hx (by decide)
    constructor <;> rw [hafter _ (by decide)] <;> simp [values_append, tlsShown, srow]

theorem network_kept {old sa stls : Fields} (hold : paramTable (seed.lookup "params") = some old)
    (hsa : seed.lookup "auth" = some (.obj sa)) (hstls : seed.lookup "tls" = some (.obj stls))
    (hvalues : Values env name driver old sa result) (htls : TlsValues env stls result) :
    Kept driver seed (specOf env result driver true seed) ↔
      ParamsShown driver.params old ∧ AuthShown sa ∧ TlsShown stls ∧
        SameField (seed.lookup "tunnel") (linkOf env result).1 ∧
        SameField (seed.lookup "tunnel_profile") (linkOf env result).2 := by
  rw [kept_iff hold hsa hvalues (by simp [specOf_network]) (by simp [specOf_network])]
  refine and_congr_right fun _ => and_congr_right fun _ => ?_
  rw [← tls_same htls]
  constructor
  · intro h
    have hsame := h "tls" (by decide) (by decide)
    have htunnel := h "tunnel" (by decide) (by decide)
    have hprofile := h "tunnel_profile" (by decide) (by decide)
    rw [specOf_network] at hsame htunnel hprofile
    simp only [hstls, String.reduceEq, if_false, if_true, sameField_obj] at hsame
    obtain ⟨_, ⟨⟩, hsame⟩ := hsame
    exact ⟨hsame, htunnel, hprofile⟩
  · rintro ⟨hsame, htunnel, hprofile⟩ x hparams hauth
    rw [specOf_network]
    split_ifs with h1 h2 h3
    · rw [h1]
      exact htunnel
    · rw [h2]
      exact hprofile
    · rw [h3, hstls]
      exact .some (.obj hsame)
    · exact .rfl

theorem openTabs_network (hnetwork : driver.network = true) {old sa stls : Fields}
    {tunnel : List Row} (hold : paramTable (seed.lookup "params") = some old)
    (hsa : seed.lookup "auth" = some (.obj sa)) (hstls : seed.lookup "tls" = some (.obj stls))
    (htunnel : tunnelRows env profiles seed = some tunnel) :
    openTabs env profiles name driver seed =
      some (networkShown env name driver old sa stls tunnel) := by
  simp [openTabs, networkShown, connRows_eq hold, authRows_eq hsa, tlsRows_eq hstls, htunnel,
    hnetwork]

theorem specOf_profile : (specOf env result driver true seed).lookup "tunnel_profile" =
    (linkOf env result).2 := by
  rw [specOf_network]
  rfl

/-- Where the tunnel is shown, the save goes through. -/
theorem network_saved (env : Env) (profiles : List String) (hnetwork : driver.network = true)
    {old sa stls : Fields} (hold : paramTable (seed.lookup "params") = some old)
    (hsa : seed.lookup "auth" = some (.obj sa)) (hstls : seed.lookup "tls" = some (.obj stls))
    (hname : Editor.trim name ≠ "") (hlink : LinkShown seed) :
    ∃ result, save env profiles name driver seed = some (specOf env result driver true seed) ∧
      Values env name driver old sa result ∧ TlsValues env stls result ∧
      LinkValues env seed result := by
  obtain ⟨tunnel, htunnel⟩ := tunnelRows_shown env profiles hlink
  obtain ⟨hvalues, htls⟩ := values_network name driver old sa stls htunnel
  have hlinked : LinkValues env seed (values (networkShown env name driver old sa stls tunnel)) :=
    linkValues htunnel
  refine ⟨_, save_iff.mpr ⟨_, openTabs_network hnetwork hold hsa hstls htunnel, ?_, ?_, ?_⟩,
    hvalues, htls, hlinked⟩
  · rw [hvalues.name, str_text]
    exact hname
  · rw [hnetwork, specOf_profile]
    exact ((link_same hlinked).mpr hlink).2.2
  · rw [hnetwork]

theorem network_unchanged (hnetwork : driver.network = true) :
    (∃ out, save env profiles name driver seed = some out ∧ Kept driver seed out) ↔
      Editor.trim name ≠ "" ∧ Shown driver seed := by
  constructor
  · rintro ⟨out, hsave, hout⟩
    obtain ⟨rows, hrows, hname, hsaved, rfl⟩ := save_iff.mp hsave
    rw [hnetwork] at hout hsaved
    obtain ⟨old, sa, hold, hsa⟩ := hout.tables (by rw [specOf_network]; rfl)
    obtain ⟨stls, hstls, -⟩ : ∃ stls, seed.lookup "tls" = some (.obj stls) ∧ _ := by
      have hsame := hout.rest "tls" (by decide)
      rw [specOf_network] at hsame
      simpa only [String.reduceEq, if_false, if_true, sameField_obj] using hsame
    obtain ⟨tunnel, htunnel⟩ : ∃ tunnel, tunnelRows env profiles seed = some tunnel := by
      simp only [openTabs, connRows_eq hold, authRows_eq hsa, tlsRows_eq hstls, hnetwork,
        Option.bind_eq_bind, Option.bind_some, if_true, Option.bind_eq_some_iff] at hrows
      obtain ⟨tunnel, htunnel, -⟩ := hrows
      exact ⟨tunnel, htunnel⟩
    rw [openTabs_network hnetwork hold hsa hstls htunnel] at hrows
    cases hrows
    obtain ⟨hvalues, htls⟩ := values_network name driver old sa stls htunnel
    rw [hvalues.name, str_text] at hname
    rw [specOf_profile] at hsaved
    obtain ⟨hparams, hauth, hmode, hlink⟩ := (network_kept hold hsa hstls hvalues htls).mp hout
    have hlink := (link_same (linkValues htunnel)).mp ⟨hlink.1, hlink.2, hsaved⟩
    exact ⟨hname, ⟨old, hold, hparams⟩, ⟨sa, hsa, hauth⟩, fun _ => ⟨stls, hstls, hmode⟩,
      fun _ => hlink⟩
  · rintro ⟨hname, ⟨⟨old, hold, hparams⟩, ⟨sa, hsa, hauth⟩, htls, hlink⟩⟩
    obtain ⟨stls, hstls, hmode⟩ := htls hnetwork
    obtain ⟨result, hsave, hvalues, htls, hlinked⟩ :=
      network_saved env profiles hnetwork hold hsa hstls hname (hlink hnetwork)
    obtain ⟨htunnel, hprofile, -⟩ := (link_same hlinked).mpr (hlink hnetwork)
    exact ⟨_, hsave, (network_kept hold hsa hstls hvalues htls).mpr
      ⟨hparams, hauth, hmode, htunnel, hprofile⟩⟩

/-- A form that is saved as it was opened hands the stored spec to the store, but for defaults of
declared parameters, exactly if its rows show all of the spec. -/
theorem form_unchanged (env : Env) (profiles : List String) (name : String)
    (driver : DriverMeta) (seed : Fields) :
    (∃ out, save env profiles name driver seed = some out ∧ Kept driver seed out) ↔
      Editor.trim name ≠ "" ∧ Shown driver seed := by
  cases hnetwork : driver.network with
  | false => exact file_unchanged hnetwork
  | true => exact network_unchanged hnetwork

/-- A driver with client certificates, and a stored spec whose key has a password. -/
def certDriver : DriverMeta :=
  ⟨"mongodb", [⟨"host", some "127.0.0.1"⟩], some ["none", "password", "client_cert"]⟩

def certParams : Fields := [("host", .str "db")]

def certAuth : Fields :=
  [("kind", .str "client_cert"), ("cert", .str "/c.pem"), ("key", .str "/k.pem"),
    ("key_password", .str "secret"), ("user", .str "ann")]

def certTls : Fields := [("mode", .str "require")]

def certSeed : Fields :=
  [("params", .obj certParams), ("auth", .obj certAuth), ("tls", .obj certTls),
    ("policy", .str "confirm")]

/-- The password of the key has no row, and the save writes the method without it. -/
theorem key_password_lost : ∃ out auth,
    save Cell.bareEnv [] "db" certDriver certSeed = some out ∧
      out.lookup "auth" = some (.obj auth) ∧ auth.lookup "key_password" = none ∧
      ¬ Kept certDriver certSeed out := by
  obtain ⟨result, hsave, hvalues, htls, -⟩ : ∃ result,
      save Cell.bareEnv [] "db" certDriver certSeed =
        some (specOf Cell.bareEnv result certDriver true certSeed) ∧
      Values Cell.bareEnv "db" certDriver certParams certAuth result ∧
      TlsValues Cell.bareEnv certTls result ∧ LinkValues Cell.bareEnv certSeed result :=
    network_saved Cell.bareEnv [] rfl rfl rfl rfl (by decide) (.direct rfl rfl)
  refine ⟨_, authOf result, hsave, by rw [specOf_network]; rfl, ?_, fun hkept => ?_⟩
  · have hkind : result "a_kind" = some (.str "client_cert") := hvalues.auth.kind
    simp [authOf, hkind]
  · obtain ⟨-, hauth, -⟩ := (network_kept rfl rfl rfl hvalues htls).mp hkept
    have hpassword := hauth.texts "key_password" (by decide)
    simp [certAuth, authTexts] at hpassword

end LvimDb.Form
