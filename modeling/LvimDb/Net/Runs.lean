import LvimDb.Net.Account

/-!
# What the drivers open

Every driver that asks the context keeps the account, the ones that have TLS of their own with
`native`. Snowflake and the file drivers do not ask it.
-/

namespace LvimDb.Net
open Secret (Text Sources)
open Lib (Dialogue)
open Lib.Dialogue (After)

variable {src : Sources} {spec : ConnSpec} {w : Profile} {o : List UInt16} {log : Log}
variable {net : NetContext} {α β : Type}

/-! ### With TLS of their own -/

/-- An attempt with TLS has a configuration of it. -/
def Configured (_ : List UInt16) (b : Bool) (tls : Option TlsConfig) : Prop :=
  b = true → ∃ c, tls = some c

theorem allowed_withTls {d : Dial} {client : Client} {b : Bool} {tls : Option TlsConfig}
    (hclient : d.client = client) (hleads : Leads spec o d.addr)
    (hsec : d.security = withTls tls) (htls : Configured o b tls)
    (hb : spec.tls.required = true → b = true) : Allowed spec ⟨client, true⟩ o d where
  leads := hleads
  secured _ hreq := by
    obtain ⟨c, rfl⟩ := htls (hb hreq)
    exact ⟨c, hsec⟩
  plain := nofun
  client := hclient

/-- The plain attempt tells its error with a prefix. -/
theorem attempt_kept {d : Dial} (h : Account spec w o log) (hd : Allowed spec w o d)
    (encrypted : Bool) (told : String → String) :
    After (Kept spec w o linked) log
      (if encrypted then dialling d true else (dialling d false).mapError told) := by
  split
  · exact dialling_kept h hd true
  · exact kept_mapError (dialling_kept h hd false)

theorem clientConfig_kept (tls : TlsSpec) (h : Account spec w o log) :
    After (Kept spec w o fun _ _ => True) log (Postgres.clientConfig tls) := by
  unfold Postgres.clientConfig
  apply kept_bind (loadAll_kept _ h)
  intro log _ h _
  dsimp only
  split
  · exact kept_bind (loadAll_kept _ h) fun log _ h _ => kept_pure h trivial
  · exact kept_pure h trivial
  · exact ⟨h, fun _ hok => by cases hok⟩

theorem Postgres.connect_ends (h : Account spec ⟨.tokioPostgres, true⟩ o log) (hfits : Fits spec net o) :
    After (Ends spec ⟨.tokioPostgres, true⟩) log (Postgres.connect src spec net) := by
  unfold Postgres.connect Postgres.buildConfig
  simp only [bind_assoc, pure_bind]
  apply ends_ofExcept h
  intro host _
  apply ends_ofExcept h
  intro db _
  apply ends_ofExcept h
  intro login _
  apply resolve_ends h hfits
  intro o log addr net h hfits hleads
  apply ends_ofExcept h
  intro parts hsplit
  apply negotiate_ends (fun o => Leads spec o _) Configured h hfits
    (hleads.address hsplit (spec.port 5432))
  · intro b net o log f h hfits hinv hf
    cases b with
    | true =>
      simp only [if_true, bind_assoc, pure_bind]
      apply ends_bind (clientConfig_kept spec.tls h)
      intro log tls h _
      exact hf o log _ net h hfits hinv fun _ => ⟨tls, rfl⟩
    | false => exact hf o log _ net h hfits hinv nofun
  · intro b tls o log h hinv hgood hb
    exact attempt_kept h (allowed_withTls rfl hinv rfl hgood hb) b _

theorem Mysql.connect_ends (h : Account spec ⟨.mysqlAsync, true⟩ o log) (hfits : Fits spec net o) :
    After (Ends spec ⟨.mysqlAsync, true⟩) log (Mysql.connect src spec net) := by
  apply negotiate_ends (fun _ => True)
    (fun o b d => Leads spec o d.addr ∧ d.client = .mysqlAsync ∧
      ∃ tls, d.security = withTls tls ∧ Configured o b tls)
    h hfits trivial
  · intro b net o log f h hfits _ hf
    unfold Mysql.buildOpts
    simp only [bind_assoc, pure_bind]
    apply ends_ofExcept h
    intro host _
    apply ends_ofExcept h
    intro login _
    apply resolve_ends h hfits
    intro o log addr net h hfits hleads
    apply ends_ofExcept h
    intro parts hsplit
    apply hf o log _ net h hfits trivial
    exact ⟨hleads.address hsplit (spec.port 3306), rfl, _, rfl, fun hb => ⟨_, if_pos hb⟩⟩
  · rintro b d o log h - ⟨hleads, hclient, tls, hsec, htls⟩ hb
    exact attempt_kept h (allowed_withTls hclient hleads hsec htls hb) b _

/-- A configuration that is there when the attempt is one with TLS. -/
theorem configured_if (o : List UInt16) (b : Bool) (c : TlsConfig) :
    Configured o b (if b then some c else none) := fun hb => ⟨c, if_pos hb⟩

theorem Mongo.connect_ends (h : Account spec ⟨.mongodb, true⟩ o log) (hfits : Fits spec net o) :
    After (Ends spec ⟨.mongodb, true⟩) log (Mongo.connect src spec net) := by
  unfold Mongo.connect
  apply ends_ofExcept h
  intro host _
  apply ends_ofExcept h
  intro db _
  apply resolve_ends h hfits
  intro o log addr net h hfits hleads
  apply ends_ofExcept h
  intro parts hsplit
  apply ends_ofExcept h
  intro login _
  apply negotiate_ends (fun o => Leads spec o _) Configured h hfits (hleads.address hsplit 27017)
  · intro b net o log f h hfits hinv hf
    exact hf o log _ net h hfits hinv (configured_if o b _)
  · intro b tls o log h hinv hgood hb
    exact dialling_kept h (allowed_withTls rfl hinv rfl hgood hb) b

theorem openCon_kept {d : Dial} (h : Account spec w o log) (hd : Allowed spec w o d)
    (url : Text) (encrypted : Bool) :
    After (Kept spec w o linked) log (Redis.openCon url d encrypted) := by
  apply kept_bind (kept_mapError (kept_quiet h (fun _ => rfl) (fun _ => rfl) fun _ => rfl))
  intro log _ h _
  exact kept_mapError (dialling_kept h hd encrypted)

theorem Redis.connect_ends (h : Account spec ⟨.redis, true⟩ o log) (hfits : Fits spec net o) :
    After (Ends spec ⟨.redis, true⟩) log (Redis.connect src spec net) := by
  unfold Redis.connect Redis.attempts
  apply ends_ofExcept h
  intro host _
  apply resolve_ends h hfits
  intro o log addr net h hfits hleads
  apply ends_ofExcept h
  intro parts hsplit
  apply ends_ofExcept h
  intro login _
  apply negotiate_ends (fun o => Leads spec o _) Configured h hfits (hleads.joined hsplit)
  · intro b net o log f h hfits hinv hf
    exact hf o log _ net h hfits hinv (configured_if o b _)
  · intro b tls o log h hinv hgood hb
    exact openCon_kept h (allowed_withTls rfl hinv rfl hgood hb) _ b

theorem build_kept (b : Bool) (h : Account spec w o log) :
    After (Kept spec w o fun _ a => a.2 = net ∧ Configured o b a.1) log
      (Clickhouse.build spec b net) := by
  apply kept_bind (loadAll_kept _ h)
  intro log _ h _
  apply kept_bind (kept_mapError (kept_quiet h (fun _ => rfl) (fun _ => rfl) fun _ => rfl))
  intro log _ h _
  exact kept_pure h ⟨rfl, configured_if o b _⟩

theorem Clickhouse.connect_ends (h : Account spec ⟨.reqwest, true⟩ o log) (hfits : Fits spec net o) :
    After (Ends spec ⟨.reqwest, true⟩) log (Clickhouse.connect src spec net) := by
  unfold Clickhouse.connect
  apply ends_ofExcept h
  intro host _
  apply resolve_ends h hfits
  intro o log addr net h hfits hleads
  apply ends_ofExcept h
  intro login _
  apply negotiate_ends (fun o => Leads spec o _) Configured h hfits hleads
  · intro b net o log f h hfits hinv hf
    apply ends_bind (build_kept b h)
    rintro log ⟨tls, net'⟩ h ⟨rfl, htls⟩
    exact hf o log tls net' h hfits hinv htls
  · intro b tls o log h hinv hgood hb
    exact dialling_kept h (allowed_withTls rfl hinv rfl hgood hb) b

theorem encryption_required {tls : TlsSpec} (h : tls.required = true) :
    ∃ c, Mssql.encryption tls = .required c := by
  unfold TlsSpec.required at h
  unfold Mssql.encryption
  split at h
  · next hmode => exact ⟨_, by rw [hmode]⟩
  · next hmode => exact ⟨_, by rw [hmode]⟩
  · next hmode => exact ⟨_, by rw [hmode]⟩
  · cases h
  · cases h

theorem Mssql.connect_ends (h : Account spec ⟨.tiberius, true⟩ o log) (hfits : Fits spec net o) :
    After (Ends spec ⟨.tiberius, true⟩) log (Mssql.connect src spec net) := by
  unfold Mssql.connect
  apply ends_ofExcept h
  intro host _
  apply resolve_ends h hfits
  intro o log addr net h hfits hleads
  apply ends_ofExcept h
  intro parts hsplit
  apply ends_ofExcept h
  intro login _
  have hleads' := hleads.address hsplit (spec.port 1433)
  have htcp : After (Kept spec ⟨.tiberius, true⟩ o fun _ _ => True) log
      (Dialogue.call (Ask.tcp (address parts.1 ((parseU16 parts.2).getD (spec.port 1433)))) :
        M Unit) :=
    fun r => ⟨h.tcp hleads' r, fun _ _ => trivial⟩
  apply ends_bind (kept_mapError htcp)
  intro log _ h _
  apply ends_of_kept
  apply kept_mapError
  exact dialling_kept h ⟨hleads', fun _ hreq => encryption_required hreq, nofun, rfl⟩ _

/-! ### Without TLS -/

theorem Cql.connect_ends (h : Account spec ⟨.scylla, false⟩ o log) (hfits : Fits spec net o) :
    After (Ends spec ⟨.scylla, false⟩) log (Cql.connect src spec net) := by
  unfold Cql.connect
  split
  · exact ends_throw h _
  · apply ends_ofExcept h
    intro host _
    apply resolve_ends h hfits
    intro o log addr net h _ hleads
    apply ends_ofExcept h
    intro login _
    apply ends_of_kept
    apply kept_mapError
    exact dialling_kept h ⟨hleads, nofun, fun _ => rfl, rfl⟩ false

theorem endpoint_leads {addr : Text} (h : Leads spec o addr) (host : Text) (port : Nat) :
    Leads spec o (Firebird.endpoint addr host port) := by
  intro ht
  obtain ⟨p, ho, rfl⟩ := h ht
  refine ⟨p, ho, ?_⟩
  rw [Firebird.endpoint, localAddr, rsplitOnce_address]
  exact address_local p port

theorem Firebird.connect_ends (h : Account spec ⟨.rsfbclient, false⟩ o log) (hfits : Fits spec net o) :
    After (Ends spec ⟨.rsfbclient, false⟩) log (Firebird.connect src spec net) := by
  unfold Firebird.connect
  apply ends_ofExcept h
  intro host _
  apply ends_ofExcept h
  intro db _
  apply resolve_ends h hfits
  intro o log addr net h _ hleads
  apply ends_ofExcept h
  intro login _
  apply ends_of_kept
  apply kept_mapError
  exact dialling_kept h ⟨endpoint_leads hleads host _, nofun, fun _ => rfl, rfl⟩ false

/-! ### All of them -/

/-- The drivers that ask the context. -/
def Kind.profile : Kind → Option Profile
  | .postgres | .cockroachdb => some ⟨.tokioPostgres, true⟩
  | .mariadb | .mysql => some ⟨.mysqlAsync, true⟩
  | .mongodb => some ⟨.mongodb, true⟩
  | .redis => some ⟨.redis, true⟩
  | .clickhouse => some ⟨.reqwest, true⟩
  | .sqlserver => some ⟨.tiberius, true⟩
  | .cassandra | .scylla => some ⟨.scylla, false⟩
  | .firebird => some ⟨.rsfbclient, false⟩
  | .sqlite | .duckdb | .snowflake => none

theorem connect_ends {kind : Kind} (hprofile : kind.profile = some w) :
    After (Ends spec w) [] (kind.connect src spec (NetContext.new spec.tunnel)) := by
  cases kind with
  | postgres | cockroachdb =>
    cases hprofile
    exact Postgres.connect_ends (account_nil spec _) (fits_new spec)
  | mariadb | mysql =>
    cases hprofile
    exact Mysql.connect_ends (account_nil spec _) (fits_new spec)
  | mongodb =>
    cases hprofile
    exact Mongo.connect_ends (account_nil spec _) (fits_new spec)
  | redis =>
    cases hprofile
    exact Redis.connect_ends (account_nil spec _) (fits_new spec)
  | clickhouse =>
    cases hprofile
    exact Clickhouse.connect_ends (account_nil spec _) (fits_new spec)
  | sqlserver =>
    cases hprofile
    exact Mssql.connect_ends (account_nil spec _) (fits_new spec)
  | cassandra | scylla =>
    cases hprofile
    exact Cql.connect_ends (account_nil spec _) (fits_new spec)
  | firebird =>
    cases hprofile
    exact Firebird.connect_ends (account_nil spec _) (fits_new spec)
  | sqlite | duckdb | snowflake => cases hprofile

end LvimDb.Net
