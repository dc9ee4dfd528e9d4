import LvimDb.Form.Unchanged
import LvimDb.Lib.Machine
import LvimDb.Secret.Preserved

/-!
# The open form

What is done on the panel of form.lua from when it is opened: rows are filled, the spec is saved,
and a secret is moved to the wallet. The wallet answers later, and others write to it too.
-/

namespace LvimDb.Form
open Daemon (Json)
open Cell (Env)
open Secret (Wallet World vaultTemplate)

/-- A secret on its way to the wallet: the entry it is for, and the row it is from. -/
structure Stash where
  entry : Secret.Text
  field : String
  secret : String
  deriving DecidableEq

def Stash.template (x : Stash) : String := String.ofList (vaultTemplate x.entry)

/-- `handed` is what was handed to the store, newest first. `moved` tells of a field which template
it has from the wallet's answer, until something else is entered; `lost` are texts that were
neither the secret nor its template when the template was put in their place. -/
structure Panel where
  rows : List Row
  closed : Bool
  unlocking : List Stash
  storing : List Stash
  wallet : Wallet
  handed : List (String × Fields)
  moved : String → Option Stash
  lost : List String

/-- `enter` types into a row, or picks one of its options. -/
inductive Panel.Input
  | enter (i : ℕ) (text : String)
  | save (writes : Bool)
  | storeInKeyring
  | unlocked (n : ℕ) (ok : Bool)
  | stored (n : ℕ) (ok : Bool)
  | others (wallet : Wallet)

namespace Panel

def opened (rows : List Row) (wallet : Wallet) : Panel :=
  ⟨rows, false, [], [], wallet, [], fun _ => none, []⟩

variable (env : Env) (driver : DriverMeta) (seed : Fields) (s : Panel)

/-- `build_spec` (265-267). -/
def buildSpec : Fields := specOf env (values s.rows) driver driver.network seed

/-- `str(v[name])`. -/
def shown (name : String) : String := str env (values s.rows name)

def enter (i : ℕ) (r : Row) (text : String) : Panel :=
  { s with
    rows := s.rows.set i { r with value := some (.str text) }
    moved := Function.update s.moved r.name none }

/-- `save` (290-333); a save that is acknowledged closes the panel. -/
def save (writes : Bool) : Panel :=
  let name := Editor.trim (s.shown env "__name")
  let spec := s.buildSpec env driver seed
  if name = "" then s
  else if isText (either (values s.rows "k_mode") (some (.str "none"))) "profile" ∧
      ¬ Json.truthy (spec.lookup "tunnel_profile") then s
  else { s with handed := (name, spec) :: s.handed, closed := writes }

/-- The row that the wallet is offered. -/
def secretField : String :=
  if isText (values s.rows "a_kind") "provider" then "a_token" else "a_password"

/-- `store_in_keyring` (346-369), up to the wallet. -/
def storeInKeyring : Panel :=
  let name := Editor.trim (s.shown env "__name")
  let secret := s.shown env s.secretField
  if name = "" ∨ secret = "" ∨ Secret.opens secret.toList then s
  else
    { s with unlocking := s.unlocking ++ [⟨"db/".toList ++ name.toList, s.secretField, secret⟩] }

/-- The field is rewritten to the template (381-389). -/
def rewrite (x : Stash) : Panel :=
  let text := s.shown env x.field
  { s with
    rows := s.rows.map fun r =>
      if r.name = x.field then { r with value := some (.str x.template) } else r
    wallet := Function.update s.wallet x.entry (some x.secret.toList)
    moved := Function.update s.moved x.field (some x)
    lost := if text = x.secret ∨ text = x.template then s.lost else text :: s.lost }

def step : Input → Option Panel
  | .enter i text => if s.closed then none else (s.rows[i]?).map fun r => s.enter i r text
  | .save writes => if s.closed then none else some (s.save env driver seed writes)
  | .storeInKeyring => if s.closed then none else some (s.storeInKeyring env)
  | .unlocked n ok =>
    (s.unlocking[n]?).map fun x =>
      let s := { s with unlocking := s.unlocking.eraseIdx n }
      if ok then { s with storing := s.storing ++ [x] } else s
  | .stored n ok =>
    (s.storing[n]?).map fun x =>
      let s := { s with storing := s.storing.eraseIdx n }
      if ok then s.rewrite env x else s
  | .others wallet => some { s with wallet := wallet }

end Panel

def panel (env : Env) (driver : DriverMeta) (seed : Fields) (rows : List Row) (wallet : Wallet) :
    Lib.Machine Panel Panel.Input where
  init := .opened rows wallet
  step := Panel.step env driver seed

/-! ### The rows stay texts -/

/-- The rows that may have what is no text: they show what was stored. -/
def selects : List String := ["a_kind", "t_mode", "k_mode"]

def Row.Textual (r : Row) : Prop := r.name ∉ selects → ∃ s, r.value = some (.str s)

variable {env : Env} {driver : DriverMeta} {seed : Fields} {profiles : List String} {name : String}
  {rows : List Row} {result : String → Option Json} {wallet : Wallet} {s t : Panel}

theorem srow_textual (name : String) (v : Option Json) : (srow env name v).Textual := by
  intro _
  exact ⟨_, rfl⟩

theorem connRows_textual (h : connRows env name driver seed = some rows) :
    ∀ r ∈ rows, r.Textual := by
  simp only [connRows, Option.bind_eq_bind, Option.bind_eq_some_iff, Option.some.injEq] at h
  obtain ⟨params, hparams, rfl⟩ := h
  have hall : ∀ (ps : List Param) (params : List Row),
      (ps.mapM fun p => (dig (seed.lookup "params") p.key).bind fun stored =>
        some (srow env ("p_" ++ p.key)
          (either stored (either (p.default.map .str) (some (.str "")))))) = some params →
      ∀ r ∈ params, r.Textual := by
    intro ps
    induction ps with
    | nil =>
      intro params hparams r hr
      cases hparams
      cases hr
    | cons p ps ih =>
      intro params hparams
      simp only [List.mapM_cons, Option.bind_eq_bind, Option.bind_eq_some_iff, Option.pure_def,
        Option.some.injEq] at hparams
      obtain ⟨r, ⟨stored, -, rfl⟩, params, hparams, rfl⟩ := hparams
      exact List.forall_mem_cons.mpr ⟨srow_textual _ _, ih params hparams⟩
  exact List.forall_mem_cons.mpr ⟨srow_textual _ _, hall driver.params params hparams⟩

theorem authRows_textual (h : authRows env driver seed = some rows) : ∀ r ∈ rows, r.Textual := by
  simp only [authRows, Option.bind_eq_bind, Option.bind_eq_some_iff, Option.some.injEq] at h
  obtain ⟨kind, -, user, -, password, -, cert, -, key, -, provider, -, token, -, rfl⟩ := h
  simp [Row.Textual, selects, srow]

theorem tlsRows_textual (h : tlsRows env seed = some rows) : ∀ r ∈ rows, r.Textual := by
  simp only [tlsRows, Option.bind_eq_bind, Option.bind_eq_some_iff, Option.some.injEq] at h
  obtain ⟨mode, -, ca, -, cert, -, key, -, rfl⟩ := h
  simp [Row.Textual, selects, srow]

theorem tunnelRows_textual (h : tunnelRows env profiles seed = some rows) :
    ∀ r ∈ rows, r.Textual := by
  simp only [tunnelRows, Option.bind_eq_bind, Option.bind_eq_some_iff, Option.some.injEq] at h
  obtain ⟨a, -, kind, -, host, -, port, -, user, -, path, -, secret, -, rfl⟩ := h
  simp [Row.Textual, selects, srow]

theorem openTabs_textual (h : openTabs env profiles name driver seed = some rows) :
    ∀ r ∈ rows, r.Textual := by
  simp only [openTabs, Option.bind_eq_bind, Option.bind_eq_some_iff] at h
  obtain ⟨conn, hconn, auth, hauth, h⟩ := h
  have hfirst : ∀ r ∈ conn ++ auth, r.Textual :=
    List.forall_mem_append.mpr ⟨connRows_textual hconn, authRows_textual hauth⟩
  split at h
  · simp only [Option.bind_eq_some_iff, Option.some.injEq] at h
    obtain ⟨tls, htls, tunnel, htunnel, rfl⟩ := h
    exact List.forall_mem_append.mpr
      ⟨List.forall_mem_append.mpr ⟨hfirst, tlsRows_textual htls⟩, tunnelRows_textual htunnel⟩
  · cases h
    exact hfirst

namespace Panel

def Textual (s : Panel) : Prop := ∀ r ∈ s.rows, r.Textual

theorem Textual.rewrite (h : s.Textual) (x : Stash) : (s.rewrite env x).Textual := by
  intro r hr
  obtain ⟨r, hmem, rfl⟩ := List.mem_map.mp hr
  split
  · exact fun _ => ⟨_, rfl⟩
  · exact h r hmem

theorem save_rows (writes : Bool) : (s.save env driver seed writes).rows = s.rows := by
  unfold Panel.save
  simp only
  split_ifs <;> rfl

theorem storeInKeyring_rows : (s.storeInKeyring env).rows = s.rows := by
  unfold Panel.storeInKeyring
  simp only
  split_ifs <;> rfl

theorem Textual.step {i : Input} (h : s.Textual) (hst : s.step env driver seed i = some t) :
    t.Textual := by
  cases i with
  | enter i text =>
    obtain ⟨-, hst⟩ := Option.ite_none_left_eq_some.mp hst
    obtain ⟨r, hr, rfl⟩ := Option.map_eq_some_iff.mp hst
    intro r' hr'
    rcases List.mem_or_eq_of_mem_set hr' with hr' | rfl
    · exact h r' hr'
    · exact fun _ => ⟨_, rfl⟩
  | save writes =>
    obtain ⟨-, hst⟩ := Option.ite_none_left_eq_some.mp hst
    obtain rfl := Option.some.inj hst
    unfold Textual
    rw [save_rows]
    exact h
  | storeInKeyring =>
    obtain ⟨-, hst⟩ := Option.ite_none_left_eq_some.mp hst
    obtain rfl := Option.some.inj hst
    unfold Textual
    rw [storeInKeyring_rows]
    exact h
  | unlocked n ok =>
    obtain ⟨x, -, rfl⟩ := Option.map_eq_some_iff.mp hst
    cases ok <;> exact h
  | stored n ok =>
    obtain ⟨x, -, rfl⟩ := Option.map_eq_some_iff.mp hst
    cases ok with
    | false => exact h
    | true => exact Textual.rewrite (s := { s with storing := s.storing.eraseIdx n }) h x
  | others wallet =>
    cases hst
    exact h

end Panel

/-! ### A spec of the form is shown -/

def Texts (result : String → Option Json) : Prop :=
  ∀ name, name ∉ selects → result name = none ∨ ∃ s, result name = some (.str s)

theorem values_texts (h : ∀ r ∈ rows, r.Textual) : Texts (values rows) := by
  intro name hname
  unfold values
  rw [foldl_values]
  cases hfind : rows.reverse.find? (·.name = name) with
  | none => exact .inl rfl
  | some r =>
    have hr : r.name = name := by simpa using List.find?_some hfind
    have hmem : r ∈ rows := List.mem_reverse.mp (List.mem_of_find?_eq_some hfind)
    exact .inr (h r hmem (hr ▸ hname))

theorem Texts.text (h : Texts result) (name : String) (hname : name ∉ selects) :
    ∃ s, text result name = some (.str s) := by
  unfold Form.text
  rcases h name hname with hnone | ⟨s, hs⟩
  · rw [hnone]
    exact ⟨"", rfl⟩
  · rw [hs]
    exact ⟨s, rfl⟩

theorem Texts.filled (h : Texts result) (name : String) (hname : name ∉ selects) :
    filled result name = none ∨ ∃ s, filled result name = some (.str s) ∧ s ≠ "" := by
  rcases h name hname with hnone | ⟨s, hs⟩
  · refine .inl ?_
    rw [Form.filled, hnone, ite_self]
  · rw [filled_text hs]
    by_cases hempty : s = ""
    · exact .inl (if_pos hempty)
    · exact .inr ⟨s, if_neg hempty, hempty⟩

theorem param_textual (key : String) : "p_" ++ key ∉ selects := by
  intro h
  have hheads : ∀ x ∈ selects, x.toList.head? ≠ some 'p' := by decide
  exact param_name_ne key (hheads _ h) rfl

theorem paramsOf_shown (h : Texts result) (params : List Param) :
    ParamsShown params (paramsOf result params) := by
  constructor
  · intro key v hv
    rw [paramsOf_lookup, Option.ite_none_right_eq_some] at hv
    exact hv.1
  · intro key v hv
    rw [paramsOf_lookup, Option.ite_none_right_eq_some] at hv
    rcases h.filled _ (param_textual key) with hnone | ⟨s, hs, hne⟩
    · cases hnone.symm.trans hv.2
    · cases hs.symm.trans hv.2
      exact ⟨s, rfl, hne⟩

theorem either_default (v : Option Json) {s : String} :
    Json.truthy (either v (some (.str s))) = true := by
  by_cases h : Json.truthy v = true
  · rw [either_truthy h]
    exact h
  · rw [either_falsy h]
    rfl

/-- A principal is the one field of an auth method that has no row to show it. -/
theorem authOf_shown (h : Texts result) :
    AuthShown (authOf result) ↔ (authOf result).lookup "principal" = none := by
  constructor
  · intro hshown
    have hfield := hshown.texts "principal" (by decide)
    have hrow : "principal" ∉ authTexts ((authOf result).lookup "kind") := by
      unfold authTexts
      split_ifs <;> decide
    rwa [if_neg hrow] at hfield
  · intro hnone
    refine ⟨?_, fun name hname => ?_⟩
    · rw [authOf_kind]
      exact either_default _
    · obtain ⟨user, huser⟩ := h.text "a_user" (by decide)
      obtain ⟨password, hpassword⟩ := h.text "a_password" (by decide)
      obtain ⟨cert, hcert⟩ := h.text "a_cert" (by decide)
      obtain ⟨key, hkey⟩ := h.text "a_key" (by decide)
      obtain ⟨provider, hprovider⟩ := h.text "a_provider" (by decide)
      obtain ⟨token, htoken⟩ := h.text "a_token" (by decide)
      rw [authOf_kind]
      unfold authOf at hnone ⊢
      unfold authTexts
      simp only [huser, hpassword, hcert, hkey, hprovider, htoken] at hnone ⊢
      have hkind : name ≠ "kind" := fun heq => hname (List.mem_singleton.mpr heq)
      split_ifs at hnone ⊢ <;> simp_all <;> grind

theorem tlsOf_shown (h : Texts result) : TlsShown (tlsOf result) := by
  constructor
  · simp only [tlsOf, lookup_set, List.lookup_nil]
    exact either_default _
  · intro name hname
    have hpath : ∀ row ∉ selects, name ∈ ["ca", "client_cert", "client_key"] →
        filled result row = none ∨ name ∈ ["ca", "client_cert", "client_key"] ∧
          ∃ s, filled result row = some (.str s) ∧ s ≠ "" :=
      fun row hrow hmem => (h.filled row hrow).imp_right fun hs => ⟨hmem, hs⟩
    simp only [tlsOf, lookup_set, List.lookup_nil]
    split_ifs with hkey hcert hca
    · exact hpath "t_ck" (by decide) (by simp [hkey])
    · exact hpath "t_cc" (by decide) (by simp [hcert])
    · exact hpath "t_ca" (by decide) (by simp [hca])
    · exact .inl rfl

/-- The port of a tunnel is a number that its row shows whole. -/
def PortShown (tunnel : Option Json) : Prop :=
  ∀ t q, tunnel = some (.obj t) → t.lookup "port" = some (.num q) →
    Lib.toDouble (Lib.significant 13 q) = q

theorem tunnelOf_shown (h : Texts result) {mode : Option Json} (htruthy : Json.truthy mode = true)
    (hmode : ¬ isText mode "none" ∧ ¬ isText mode "profile") :
    TunnelShown (tunnelOf env result mode) ↔
      PortShown (some (.obj (tunnelOf env result mode))) := by
  have hport : (tunnelOf env result mode).lookup "port" =
      some (.num ((Cell.number env (result "k_port")).getD 22)) := by
    simp [tunnelOf]
  constructor
  · intro hshown t q ht hq
    cases ht
    obtain ⟨q', hq', hwhole⟩ := hshown.port
    cases hq.symm.trans hq'
    exact hwhole
  · intro hwhole
    obtain ⟨host, hhost⟩ := h.text "k_host" (by decide)
    obtain ⟨user, huser⟩ := h.text "k_user" (by decide)
    obtain ⟨path, hpath⟩ := h.text "k_path" (by decide)
    obtain ⟨secret, hsecret⟩ := h.text "k_secret" (by decide)
    refine ⟨⟨tunnelAuthOf result mode, by simp [tunnelOf], ?_⟩,
      ⟨_, hport, hwhole _ _ rfl hport⟩, ?_⟩
    · have hkind : (tunnelAuthOf result mode).lookup "kind" = mode := by
        unfold tunnelAuthOf
        simp only
        split_ifs <;> simp
      refine ⟨by rwa [hkind], by rwa [hkind], fun name hname => ?_⟩
      have hne : name ≠ "kind" := fun heq => hname (List.mem_singleton.mpr heq)
      rw [hkind]
      unfold tunnelAuthOf
      simp only [hpath, hsecret]
      split_ifs with hkey hmem hmem
      · rcases List.mem_pair.mp hmem with rfl | rfl
        · exact ⟨path, by simp⟩
        · exact ⟨secret, by simp⟩
      · simp only [List.mem_cons, List.not_mem_nil, or_false, not_or] at hmem
        simp [hmem, hne]
      · rw [List.mem_singleton] at hmem
        exact ⟨secret, by simp [hmem]⟩
      · rw [List.mem_singleton] at hmem
        simp [hmem, hne]
    · intro name hname
      simp only [tunnelOf, hhost, huser, lookup_set, List.lookup_nil]
      simp only [List.mem_cons, List.not_mem_nil, or_false, not_or] at hname
      split_ifs <;> simp_all

theorem link_shown {spec : Fields} (h : Texts result)
    (ht : spec.lookup "tunnel" = (linkOf env result).1)
    (hp : spec.lookup "tunnel_profile" = (linkOf env result).2)
    (hsaved : ¬ (isText (either (result "k_mode") (some (.str "none"))) "profile" = true ∧
      ¬ Json.truthy (linkOf env result).2 = true)) :
    LinkShown spec ↔ PortShown (spec.lookup "tunnel") := by
  have htruthy := either_default (result "k_mode") (s := "none")
  unfold linkOf at ht hp hsaved
  simp only at ht hp hsaved
  split_ifs at ht hp hsaved with hprofile hchosen hnone
  · exact iff_of_true (.profile ht hp hchosen.1 hchosen.2) fun t q htunnel => by
      cases ht.symm.trans htunnel
  · exact absurd ⟨hprofile, Bool.false_ne_true⟩ hsaved
  · exact iff_of_true (.direct ht hp) fun t q htunnel => by cases ht.symm.trans htunnel
  · rw [ht, ← tunnelOf_shown h htruthy ⟨hnone, hprofile⟩]
    constructor
    · rintro (⟨ht', -⟩ | ⟨ht', -, hshown⟩ | ⟨ht', -⟩)
      · cases ht.symm.trans ht'
      · cases ht.symm.trans ht'
        exact hshown
      · cases ht.symm.trans ht'
    · exact .inline ht hp

/-- The fields of a spec that are not the form's own. -/
def Foreign (driver : DriverMeta) (name : String) : Prop :=
  name ∉ ["params", "auth"] ∧ (driver.network = true → name ∉ ["tls", "tunnel", "tunnel_profile"])

theorem specOf_foreign (h : Foreign driver name) :
    (specOf env result driver driver.network seed).lookup name = seed.lookup name := by
  obtain ⟨hown, hlink⟩ := h
  simp only [List.mem_cons, List.not_mem_nil, or_false, not_or] at hown hlink
  cases hnetwork : driver.network with
  | false => simp [specOf_file, hown]
  | true => simp [specOf_network, hown, hlink hnetwork]

theorem specOf_params : (specOf env result driver driver.network seed).lookup "params" =
    some (.obj (paramsOf result driver.params)) := by
  cases hnetwork : driver.network with
  | false => simp [specOf_file]
  | true => simp [specOf_network]

theorem specOf_auth : (specOf env result driver driver.network seed).lookup "auth" =
    some (.obj (authOf result)) := by
  cases hnetwork : driver.network with
  | false => simp [specOf_file]
  | true => simp [specOf_network]

/-- A spec that the form can show again: there is no principal, and its port is shown whole. -/
structure Reread (driver : DriverMeta) (spec : Fields) : Prop where
  principal : ∀ auth, spec.lookup "auth" = some (.obj auth) → auth.lookup "principal" = none
  port : driver.network = true → PortShown (spec.lookup "tunnel")

theorem specOf_link (h : Texts result)
    (hsaved : ¬ (isText (either (result "k_mode") (some (.str "none"))) "profile" = true ∧
      ¬ Json.truthy ((specOf env result driver true seed).lookup "tunnel_profile") = true)) :
    LinkShown (specOf env result driver true seed) ↔
      PortShown ((specOf env result driver true seed).lookup "tunnel") := by
  have hprofile : (specOf env result driver true seed).lookup "tunnel_profile" =
      (linkOf env result).2 := by
    simp [specOf_network]
  rw [hprofile] at hsaved
  exact link_shown h (by simp [specOf_network]) hprofile hsaved

theorem specOf_shown (h : Texts result)
    (hsaved : ¬ (isText (either (result "k_mode") (some (.str "none"))) "profile" = true ∧
      ¬ Json.truthy ((specOf env result driver driver.network seed).lookup "tunnel_profile") =
        true)) :
    Shown driver (specOf env result driver driver.network seed) ↔
      Reread driver (specOf env result driver driver.network seed) := by
  have hauth : (specOf env result driver driver.network seed).lookup "auth" =
      some (.obj (authOf result)) := specOf_auth
  constructor
  · rintro ⟨-, ⟨sa, hsa, hshown⟩, -, hlink⟩
    cases hauth.symm.trans hsa
    refine ⟨fun auth hfield => ?_, fun hnetwork => ?_⟩
    · cases hauth.symm.trans hfield
      exact (authOf_shown h).mp hshown
    · have hlink := hlink hnetwork
      rw [hnetwork] at hsaved hlink ⊢
      exact (specOf_link h hsaved).mp hlink
  · rintro ⟨hprincipal, hport⟩
    refine ⟨⟨_, by rw [specOf_params]; rfl, paramsOf_shown h driver.params⟩,
      ⟨_, hauth, (authOf_shown h).mpr (hprincipal _ hauth)⟩, fun hnetwork => ?_,
      fun hnetwork => ?_⟩
    · refine ⟨tlsOf result, ?_, tlsOf_shown h⟩
      rw [hnetwork]
      simp [specOf_network]
    · have hport := hport hnetwork
      rw [hnetwork] at hsaved hport ⊢
      exact (specOf_link h hsaved).mpr hport

namespace Panel

/-- What is handed to the store is made of texts, and was not refused. -/
structure Made (env : Env) (driver : DriverMeta) (seed : Fields) (x : String × Fields) :
    Prop where
  named : x.1 ≠ ""
  spec : ∃ result, Texts result ∧
    ¬ (isText (either (result "k_mode") (some (.str "none"))) "profile" = true ∧
      ¬ Json.truthy (x.2.lookup "tunnel_profile") = true) ∧
    x.2 = specOf env result driver driver.network seed

theorem made_step {i : Input} (htexts : s.Textual) (h : ∀ x ∈ s.handed, Made env driver seed x)
    (hst : s.step env driver seed i = some t) : ∀ x ∈ t.handed, Made env driver seed x := by
  cases i with
  | enter i text =>
    obtain ⟨-, hst⟩ := Option.ite_none_left_eq_some.mp hst
    obtain ⟨r, -, rfl⟩ := Option.map_eq_some_iff.mp hst
    exact h
  | save writes =>
    obtain ⟨-, hst⟩ := Option.ite_none_left_eq_some.mp hst
    obtain rfl := Option.some.inj hst
    unfold Panel.save
    simp only
    split_ifs with hname hrefused
    · exact h
    · exact h
    · exact List.forall_mem_cons.mpr ⟨⟨hname, _, values_texts htexts, hrefused, rfl⟩, h⟩
  | storeInKeyring =>
    obtain ⟨-, hst⟩ := Option.ite_none_left_eq_some.mp hst
    obtain rfl := Option.some.inj hst
    unfold Panel.storeInKeyring
    simp only
    split_ifs <;> exact h
  | unlocked n ok =>
    obtain ⟨x, -, rfl⟩ := Option.map_eq_some_iff.mp hst
    cases ok <;> exact h
  | stored n ok =>
    obtain ⟨x, -, rfl⟩ := Option.map_eq_some_iff.mp hst
    cases ok <;> exact h
  | others wallet =>
    cases hst
    exact h

/-- Whatever is entered into a form, whatever the wallet answers and however often it is saved: a
spec that is handed to the store has every field of the stored one that is not the form's own.
Opened again and saved as it is, it is kept, but for defaults of declared parameters, exactly if it
has no principal and the port of its tunnel has no more digits than the row shows. -/
theorem saved_reopens {is : List Input} (hopen : openTabs env profiles name driver seed = some rows)
    (h : (panel env driver seed rows wallet).Run Lib.Machine.free (.opened rows wallet) is s) :
    ∀ x ∈ s.handed, x.1 ≠ "" ∧
      (∀ field, Foreign driver field → x.2.lookup field = seed.lookup field) ∧
      ∀ profiles' name', Editor.trim name' ≠ "" →
        ((∃ out, Form.save env profiles' name' driver x.2 = some out ∧ Kept driver x.2 out) ↔
          Reread driver x.2) := by
  have hmade : ∀ x ∈ s.handed, Made env driver seed x := by
    refine h.invariant_with Textual (fun s => ∀ x ∈ s.handed, Made env driver seed x)
      (fun _ _ _ _ htexts hst => htexts.step hst)
      (fun _ _ _ _ htexts hmade hst => made_step htexts hmade hst) (openTabs_textual hopen) ?_
    intro x hx
    cases hx
  intro x hx
  obtain ⟨hname, result, htexts, hsaved, hspec⟩ := hmade x hx
  rw [hspec] at hsaved ⊢
  refine ⟨hname, fun field hfield => specOf_foreign hfield, fun profiles' name' hname' => ?_⟩
  have hkept : (∃ out, Form.save env profiles' name' driver
        (specOf env result driver driver.network seed) = some out ∧
        Kept driver (specOf env result driver driver.network seed) out) ↔
      Editor.trim name' ≠ "" ∧ Shown driver (specOf env result driver driver.network seed) := by
    cases hnetwork : driver.network with
    | false => exact file_unchanged hnetwork
    | true => exact network_unchanged hnetwork
  rw [hkept, and_iff_right hname', specOf_shown htexts hsaved]

def shopDriver : DriverMeta := ⟨"postgresql", [⟨"host", some "127.0.0.1"⟩], some ["password"]⟩

def shopSeed : Fields :=
  [("params", .obj [("host", .str "db")]),
    ("auth", .obj [("kind", .str "password"), ("user", .str "ann"), ("password", .str "pw")]),
    ("tls", .obj [("mode", .str "require")]), ("policy", .str "confirm")]

/-- The user is another one. -/
def renamed : List Input := [.enter 3 "bob", .save true]

theorem saved_reopens_shop : ∃ rows s x,
    openTabs Cell.bareEnv [] "shop" shopDriver shopSeed = some rows ∧
    (panel Cell.bareEnv shopDriver shopSeed rows fun _ => none).Run Lib.Machine.free
      (opened rows fun _ => none) renamed s ∧ x ∈ s.handed ∧
    x.2.lookup "policy" = some (.str "confirm") ∧
    ∃ out, Form.save Cell.bareEnv [] "shop" shopDriver x.2 = some out ∧
      Kept shopDriver x.2 out := by
  obtain ⟨rows, hopen⟩ : ∃ rows, openTabs Cell.bareEnv [] "shop" shopDriver shopSeed = some rows :=
    ⟨_, rfl⟩
  obtain ⟨s, hexec, hrun⟩ := Lib.Machine.exists_run
    (panel Cell.bareEnv shopDriver shopSeed rows fun _ => none) (opened rows fun _ => none) renamed
    (by cases hopen; rfl)
  obtain ⟨x, hx, hread⟩ : ∃ x ∈ s.handed, Reread shopDriver x.2 := by
    cases hopen
    cases hexec
    refine ⟨_, List.mem_cons_self .., ?_, ?_⟩
    · intro auth hauth
      cases hauth
      rfl
    · intro _ t q ht
      cases ht
  obtain ⟨-, hkept, hreopen⟩ := saved_reopens hopen hrun x hx
  exact ⟨rows, s, x, hopen, hrun, hx, (hkept "policy" ⟨by decide, fun _ => by decide⟩).trans rfl,
    (hreopen [] "shop" (by decide)).mpr hread⟩

/-! ### Secrets -/

/-- Nothing that was entered is lost, and a field with the template that the wallet's answer has put
there resolves in the engine to the secret it was put for. -/
structure Moved (k : World) (s : Panel) : Prop where
  lost : s.lost = []
  resolves : ∀ field x, s.moved field = some x →
    values s.rows field = some (.str x.template) ∧
      Secret.resolve (k.sources s.wallet) x.template.toList = .ok x.secret.toList

/-- An answer of the wallet comes to a field that still has the secret, or its template already,
and no other field has been moved to the same entry with another secret. Others leave the
entries alone. -/
def Careful (env : Env) (s : Panel) : Input → Prop
  | .stored n true => ∀ x, s.storing[n]? = some x →
    (s.shown env x.field = x.secret ∨ s.shown env x.field = x.template) ∧
      ∀ field y, field ≠ x.field → s.moved field = some y → y.entry = x.entry →
        y.secret = x.secret
  | .others wallet => ∀ field x, s.moved field = some x → wallet x.entry = s.wallet x.entry
  | _ => True

/-- A moved field shows its template, and what is on its way has a row. -/
structure Tracked (s : Panel) : Prop where
  shows : ∀ field x, s.moved field = some x → values s.rows field = some (.str x.template)
  unlocking : ∀ x ∈ s.unlocking, x.field ∈ s.rows.map (·.name)
  storing : ∀ x ∈ s.storing, x.field ∈ s.rows.map (·.name)

/-- A row in the middle is given another value. -/
theorem set_cut {i : ℕ} {r : Row} (hr : rows[i]? = some r) (v : Option Json) :
    ∃ pre post, rows = pre ++ r :: post ∧
      rows.set i { r with value := v } = pre ++ { r with value := v } :: post := by
  obtain ⟨hi, rfl⟩ := List.getElem?_eq_some_iff.mp hr
  obtain ⟨pre, post, hrows, -, hset⟩ := List.exists_of_set hi
  exact ⟨pre, post, hrows, hset⟩

theorem values_set {i : ℕ} {r : Row} (hr : rows[i]? = some r) {name : String} (hne : name ≠ r.name)
    (v : Option Json) : values (rows.set i { r with value := v }) name = values rows name := by
  obtain ⟨pre, post, hrows, hset⟩ := set_cut hr v
  unfold values
  rw [hset, hrows, foldl_values, foldl_values]
  simp [List.reverse_append, List.find?_append, Ne.symm hne]

theorem names_set {i : ℕ} {r : Row} (hr : rows[i]? = some r) (v : Option Json) :
    (rows.set i { r with value := v }).map (·.name) = rows.map (·.name) := by
  obtain ⟨pre, post, hrows, hset⟩ := set_cut hr v
  rw [hset, hrows]
  simp

theorem rewrite_names (x : Stash) :
    (s.rewrite env x).rows.map (·.name) = s.rows.map (·.name) := by
  simp only [rewrite, List.map_map]
  apply List.map_congr_left
  intro r _
  simp only [Function.comp_apply]
  split_ifs <;> rfl

/-- What a row shows after the rewrite. -/
theorem rewrite_values {x : Stash} (hx : x.field ∈ s.rows.map (·.name)) (name : String) :
    values (s.rewrite env x).rows name =
      if name = x.field then some (.str x.template) else values s.rows name := by
  have hnames : ((fun r : Row => decide (r.name = name)) ∘ fun r =>
      if r.name = x.field then { r with value := some (.str x.template) } else r) =
      fun r => decide (r.name = name) := by
    funext r
    simp only [Function.comp_apply]
    split_ifs <;> rfl
  simp only [values, foldl_values, rewrite, ← List.map_reverse, List.find?_map, hnames]
  split
  · next hname =>
    subst hname
    obtain ⟨r, hr, hfield⟩ := List.mem_map.mp hx
    have hfound : (s.rows.reverse.find? (·.name = x.field)).isSome = true := by
      rw [List.find?_isSome]
      exact ⟨r, List.mem_reverse.mpr hr, by simpa using hfield⟩
    obtain ⟨r', hr'⟩ := Option.isSome_iff_exists.mp hfound
    have hname : r'.name = x.field := by simpa using List.find?_some hr'
    simp [hr', hname]
  · next hname =>
    cases hfind : s.rows.reverse.find? (·.name = name) with
    | none => rfl
    | some r =>
      have hr : r.name = name := by simpa using List.find?_some hfind
      simp [hr, hname]

theorem tracked_opened : Tracked (opened rows wallet) where
  shows field x h := by cases h
  unlocking x hx := by cases hx
  storing x hx := by cases hx

theorem secretField_named (h : s.shown env s.secretField ≠ "") :
    s.secretField ∈ s.rows.map (·.name) := by
  by_contra hno
  apply h
  have hnone : values s.rows s.secretField = none := by
    unfold values
    rw [foldl_values, List.find?_eq_none.mpr]
    · rfl
    · intro r hr hname
      exact hno (List.mem_map.mpr ⟨r, List.mem_reverse.mp hr, by simpa using hname⟩)
  rw [shown, hnone]
  rfl

theorem Tracked.rewrite (h : s.Tracked) {x : Stash} (hx : x.field ∈ s.rows.map (·.name)) :
    (s.rewrite env x).Tracked := by
  refine ⟨fun field y hy => ?_, fun y hy => ?_, fun y hy => ?_⟩
  · rw [rewrite_values hx]
    by_cases hfield : field = x.field
    · subst hfield
      obtain rfl : x = y := by simpa [Panel.rewrite] using hy
      exact if_pos rfl
    · rw [if_neg hfield]
      exact h.shows field y (by simpa [Panel.rewrite, hfield] using hy)
  · rw [rewrite_names]
    exact h.unlocking y hy
  · rw [rewrite_names]
    exact h.storing y hy

theorem Tracked.step {i : Input} (h : s.Tracked) (hst : s.step env driver seed i = some t) :
    t.Tracked := by
  cases i with
  | enter i text =>
    obtain ⟨-, hst⟩ := Option.ite_none_left_eq_some.mp hst
    obtain ⟨r, hr, rfl⟩ := Option.map_eq_some_iff.mp hst
    refine ⟨fun field x hx => ?_, fun x hx => ?_, fun x hx => ?_⟩
    · have hne : field ≠ r.name := by
        rintro rfl
        simp [enter] at hx
      rw [enter, values_set hr hne]
      exact h.shows field x (by simpa [enter, hne] using hx)
    · rw [enter, names_set hr]
      exact h.unlocking x hx
    · rw [enter, names_set hr]
      exact h.storing x hx
  | save writes =>
    obtain ⟨-, hst⟩ := Option.ite_none_left_eq_some.mp hst
    obtain rfl := Option.some.inj hst
    unfold Panel.save
    simp only
    split_ifs
    · exact h
    · exact h
    · exact ⟨h.shows, h.unlocking, h.storing⟩
  | storeInKeyring =>
    obtain ⟨-, hst⟩ := Option.ite_none_left_eq_some.mp hst
    obtain rfl := Option.some.inj hst
    unfold Panel.storeInKeyring
    simp only
    split_ifs with hrefused
    · exact h
    · simp only [not_or] at hrefused
      refine ⟨h.shows, fun x hx => ?_, h.storing⟩
      rcases List.mem_append.mp hx with hx | hx
      · exact h.unlocking x hx
      · obtain rfl := List.mem_singleton.mp hx
        exact secretField_named hrefused.2.1
  | unlocked n ok =>
    obtain ⟨x, hx, rfl⟩ := Option.map_eq_some_iff.mp hst
    have hrest : ∀ y ∈ s.unlocking.eraseIdx n, y.field ∈ s.rows.map (·.name) :=
      fun y hy => h.unlocking y (List.mem_of_mem_eraseIdx hy)
    cases ok with
    | false => exact ⟨h.shows, hrest, h.storing⟩
    | true =>
      refine ⟨h.shows, hrest, fun y hy => ?_⟩
      rcases List.mem_append.mp hy with hy | hy
      · exact h.storing y hy
      · obtain rfl := List.mem_singleton.mp hy
        exact h.unlocking y (List.mem_of_getElem? hx)
  | stored n ok =>
    obtain ⟨x, hx, rfl⟩ := Option.map_eq_some_iff.mp hst
    have hrest : Tracked { s with storing := s.storing.eraseIdx n } :=
      ⟨h.shows, h.unlocking, fun y hy => h.storing y (List.mem_of_mem_eraseIdx hy)⟩
    cases ok with
    | false => exact hrest
    | true => exact hrest.rewrite (h.storing x (List.mem_of_getElem? hx))
  | others wallet =>
    cases hst
    exact ⟨h.shows, h.unlocking, h.storing⟩

variable {k : World}

/-- A field with a template resolves to its secret where the wallet has it. -/
theorem Tracked.moved_iff (h : s.Tracked) : Moved k s ↔
    s.lost = [] ∧ ∀ field x, s.moved field = some x → s.wallet x.entry = some x.secret.toList := by
  have hread : ∀ x : Stash, Secret.resolve (k.sources s.wallet) x.template.toList =
      .ok x.secret.toList ↔ s.wallet x.entry = some x.secret.toList := by
    intro x
    rw [Stash.template, String.toList_ofList]
    exact Secret.resolve_template
  constructor
  · rintro ⟨hlost, hresolves⟩
    exact ⟨hlost, fun field x hx => (hread x).mp (hresolves field x hx).2⟩
  · rintro ⟨hlost, hwallet⟩
    exact ⟨hlost, fun field x hx => ⟨h.shows field x hx, (hread x).mpr (hwallet field x hx)⟩⟩

/-- What is moved does not depend on the rest of the panel. -/
theorem Tracked.moved_same (h : s.Tracked) (h' : t.Tracked) (hlost : t.lost = s.lost)
    (hwallet : t.wallet = s.wallet) (hmoved : t.moved = s.moved) (hs : Moved k s) : Moved k t := by
  rw [h'.moved_iff, hlost, hwallet, hmoved]
  exact h.moved_iff.mp hs

theorem moved_rewrite (h : s.Tracked) {x : Stash} (hx : x.field ∈ s.rows.map (·.name))
    (hs : Moved k s) : Moved k (s.rewrite env x) ↔
      (s.shown env x.field = x.secret ∨ s.shown env x.field = x.template) ∧
        ∀ field y, field ≠ x.field → s.moved field = some y → y.entry = x.entry →
          y.secret = x.secret := by
  obtain ⟨hlost, hwallet⟩ := h.moved_iff.mp hs
  rw [(h.rewrite hx).moved_iff]
  apply and_congr
  · simp only [Panel.rewrite, hlost]
    split_ifs with hkept
    · exact iff_of_true rfl hkept
    · exact iff_of_false not_false hkept
  · constructor
    · intro hall field y hfield hy hentry
      have hput := hall field y (by simpa [Panel.rewrite, hfield] using hy)
      rw [hentry] at hput
      have hsame : x.secret.toList = y.secret.toList := by simpa [Panel.rewrite] using hput
      exact (String.toList_injective hsame).symm
    · intro hall field y hy
      by_cases hfield : field = x.field
      · subst hfield
        obtain rfl : x = y := by simpa [Panel.rewrite] using hy
        simp [Panel.rewrite]
      · have hy : s.moved field = some y := by simpa [Panel.rewrite, hfield] using hy
        by_cases hentry : y.entry = x.entry
        · simp [Panel.rewrite, hentry, hall field y hfield hy hentry]
        · simp [Panel.rewrite, hentry, hwallet field y hy]

theorem moved_step {i : Input} (h : s.Tracked) (hs : Moved k s)
    (hst : s.step env driver seed i = some t) : Moved k t ↔ Careful env s i := by
  have ht : t.Tracked := h.step hst
  cases i with
  | enter i text =>
    obtain ⟨-, hst⟩ := Option.ite_none_left_eq_some.mp hst
    obtain ⟨r, hr, rfl⟩ := Option.map_eq_some_iff.mp hst
    refine iff_of_true (ht.moved_iff.mpr ?_) trivial
    obtain ⟨hlost, hwallet⟩ := h.moved_iff.mp hs
    refine ⟨hlost, fun field x hx => hwallet field x ?_⟩
    by_cases hne : field = r.name
    · subst hne
      simp [enter] at hx
    · simpa [enter, hne] using hx
  | save writes =>
    obtain ⟨-, hst⟩ := Option.ite_none_left_eq_some.mp hst
    obtain rfl := Option.some.inj hst
    refine iff_of_true (h.moved_same ht ?_ ?_ ?_ hs) trivial <;>
    · unfold Panel.save
      simp only
      split_ifs <;> rfl
  | storeInKeyring =>
    obtain ⟨-, hst⟩ := Option.ite_none_left_eq_some.mp hst
    obtain rfl := Option.some.inj hst
    refine iff_of_true (h.moved_same ht ?_ ?_ ?_ hs) trivial <;>
    · unfold Panel.storeInKeyring
      simp only
      split_ifs <;> rfl
  | unlocked n ok =>
    obtain ⟨x, -, rfl⟩ := Option.map_eq_some_iff.mp hst
    cases ok <;> exact iff_of_true (h.moved_same ht rfl rfl rfl hs) trivial
  | stored n ok =>
    obtain ⟨x, hx, rfl⟩ := Option.map_eq_some_iff.mp hst
    have hrest : Tracked { s with storing := s.storing.eraseIdx n } :=
      ⟨h.shows, h.unlocking, fun y hy => h.storing y (List.mem_of_mem_eraseIdx hy)⟩
    have hmoved := h.moved_same hrest rfl rfl rfl hs
    cases ok with
    | false => exact iff_of_true hmoved trivial
    | true =>
      have hfield : x.field ∈ s.rows.map (·.name) := h.storing x (List.mem_of_getElem? hx)
      refine (moved_rewrite hrest hfield hmoved).trans ⟨fun hcare y hy => ?_, fun hcare => ?_⟩
      · cases hx.symm.trans hy
        exact hcare
      · exact hcare x hx
  | others wallet =>
    cases hst
    obtain ⟨hlost, hwallet⟩ := h.moved_iff.mp hs
    rw [ht.moved_iff]
    constructor
    · rintro ⟨-, hall⟩ field x hx
      exact (hall field x hx).trans (hwallet field x hx).symm
    · intro hcare
      exact ⟨hlost, fun field x hx => (hcare field x hx).trans (hwallet field x hx)⟩

/-- The password is moved, and the connection saved. -/
def stashed : List Input :=
  [.enter 4 "s3cret", .storeInKeyring, .unlocked 0 true, .stored 0 true, .save true]

end Panel

end LvimDb.Form
