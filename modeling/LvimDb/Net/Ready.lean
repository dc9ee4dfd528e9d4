import LvimDb.Net.Runs

/-!
# Specs a driver can connect with

What a driver needs of the spec. Where something is missing it fails before it dials; where
nothing is and all goes well it connects, with a tunnel through the forward.
-/

namespace LvimDb.Net
open Secret (Text Sources)
open Lib (Dialogue)
open Lib.Dialogue (After play)

variable {src : Sources} {spec : ConnSpec} {log : Log} {p : UInt16} {net : NetContext}
variable {α β : Type}

/-! ### What is needed -/

def Succeeds (x : Except String α) : Prop := ∃ a, x = .ok a

/-- A client certificate is given with its key or not at all. -/
def TlsSpec.Paired (tls : TlsSpec) : Prop := tls.clientCert.isSome = tls.clientKey.isSome

def tokenReady (src : Sources) : AuthSpec → Prop
  | .clientCert .. => True
  | .provider _ token _ => Succeeds (Secret.resolve src token)
  | .none | .password .. | .kerberos _ => False

/-- The parameters, the credentials and the certificates that a driver needs are there. -/
def Kind.Ready (src : Sources) (spec : ConnSpec) : Kind → Prop
  | .postgres | .cockroachdb =>
    Succeeds (spec.param "host") ∧ Succeeds (spec.param "database") ∧
      Succeeds (Postgres.credentials src spec) ∧ (spec.tls.wanted = true → spec.tls.Paired)
  | .mariadb | .mysql => Succeeds (spec.param "host") ∧ Succeeds (Mysql.credentials src spec)
  | .mongodb =>
    Succeeds (spec.param "host") ∧ Succeeds (spec.param "database") ∧
      Succeeds (Mongo.credential src spec)
  | .redis => Succeeds (spec.param "host") ∧ Succeeds (Redis.auth src spec)
  | .clickhouse => Succeeds (spec.param "host") ∧ Succeeds (Clickhouse.credentials src spec)
  | .sqlserver => Succeeds (spec.param "host") ∧ Succeeds (Mssql.credentials src spec)
  | .cassandra | .scylla =>
    ¬ (spec.tls.required = true ∧ spec.tunnel = none) ∧ Succeeds (spec.param "host") ∧
      Succeeds (Cql.login src spec)
  | .firebird =>
    Succeeds (spec.param "host") ∧ Succeeds (spec.param "database") ∧
      Succeeds (Firebird.credentials src spec)
  | .snowflake =>
    Succeeds (spec.param "account") ∧ Succeeds (spec.param "user") ∧ tokenReady src spec.auth
  | .sqlite | .duckdb => Succeeds (spec.param "file")

/-! ### Where something is missing -/

/-- The driver fails and has dialled nothing. -/
def Quits (log : Log) (prog : M α) : Prop :=
  After (fun log r => dials log = [] ∧ ∃ e, r = .error e) log prog

theorem quits_throw (h : dials log = []) (e : String) : Quits log (throw e : M α) :=
  ⟨h, e, rfl⟩

theorem quits_ofExcept {x : Except String α} {f : α → M β} (h : dials log = [])
    (hf : ∀ a, x = .ok a → Quits log (f a)) : Quits log (ofExcept x >>= f) := by
  cases x with
  | ok a => exact hf a rfl
  | error e => exact ⟨h, e, rfl⟩

theorem quits_missing {x : Except String α} {f : α → M β} (h : dials log = [])
    (hx : ¬ Succeeds x) : Quits log (ofExcept x >>= f) :=
  quits_ofExcept h fun a ha => absurd ⟨a, ha⟩ hx

/-- A program that dials nothing, before one that quits. -/
theorem quits_bind {prog : M α} {f : α → M β}
    (hp : After (fun log _ => dials log = []) log prog)
    (hf : ∀ log a, dials log = [] → Quits log (f a)) : Quits log (prog >>= f) := by
  apply hp.bind
  · intro log a h
    exact hf log a h
  · intro log e h
    exact ⟨h, e, rfl⟩

/-- What fails cannot go on. -/
theorem Quits.bind {prog : M α} {f : α → M β} (h : Quits log prog) : Quits log (prog >>= f) := by
  apply After.bind h
  · rintro log a ⟨-, e, he⟩
    cases he
  · rintro log e ⟨hd, -⟩
    exact ⟨hd, e, rfl⟩

/-- A question that dials nothing. -/
theorem silent_call {q : Ask} (h : dials log = []) (hquiet : ∀ r, dials [⟨q, r⟩] = []) :
    After (fun log _ => dials log = []) log (Dialogue.call q : M (Reply q)) := by
  intro r
  change dials (log ++ [⟨q, r⟩]) = []
  rw [dials_append, h, hquiet r, List.append_nil]

theorem silent_mapError {prog : M α} {f : String → String}
    (h : After (fun log _ => dials log = []) log prog) :
    After (fun log _ => dials log = []) log (prog.mapError f) :=
  Dialogue.after_mapError.mpr h

theorem silent_bind {prog : M α} {f : α → M β}
    (hp : After (fun log _ => dials log = []) log prog)
    (hf : ∀ log a, dials log = [] → After (fun log _ => dials log = []) log (f a)) :
    After (fun log _ => dials log = []) log (prog >>= f) :=
  hp.bind hf fun _ _ h => h

theorem silent_resolve (h : dials log = []) (host : Text) (port : Nat) :
    After (fun log _ => dials log = []) log (net.resolve host port) := by
  unfold NetContext.resolve
  split
  · exact h
  · exact h
  · exact silent_bind (silent_call h fun _ => rfl) fun _ _ h => h

theorem silent_loadAll (h : dials log = []) (paths : List Text) :
    After (fun log _ => dials log = []) log (loadAll paths) := by
  induction paths generalizing log with
  | nil => exact h
  | cons path paths ih =>
    have hone : After (fun log _ => dials log = []) log
        (do
          let _ ← Dialogue.call (Ask.load path)
          pure () : M Unit) :=
      silent_bind (silent_call h fun _ => rfl) fun _ _ h => h
    exact silent_bind hone fun _ _ h => ih h

/-- Only one of the certificate and its key is given. -/
theorem clientConfig_quits {tls : TlsSpec} (h : dials log = []) (hpair : ¬ tls.Paired) :
    Quits log (Postgres.clientConfig tls) := by
  unfold Postgres.clientConfig
  apply quits_bind (silent_loadAll h _)
  intro log _ h
  dsimp only
  unfold TlsSpec.Paired at hpair
  split
  · next hcert hkey =>
    rw [hcert, hkey] at hpair
    exact absurd rfl hpair
  · next hcert hkey =>
    rw [hcert, hkey] at hpair
    exact absurd rfl hpair
  · exact ⟨h, _, rfl⟩

theorem Postgres.quits (hready : ¬ Kind.postgres.Ready src spec) :
    Quits [] (Postgres.connect src spec net) := by
  unfold Postgres.connect Postgres.buildConfig
  simp only [bind_assoc, pure_bind]
  apply quits_ofExcept rfl
  intro host hhost
  apply quits_ofExcept rfl
  intro db hdb
  apply quits_ofExcept rfl
  intro login hlogin
  apply quits_bind (silent_resolve rfl _ _)
  intro log address h
  apply quits_ofExcept h
  intro parts _
  have htls : spec.tls.wanted = true ∧ ¬ spec.tls.Paired := by
    by_contra hcon
    exact hready ⟨⟨host, hhost⟩, ⟨db, hdb⟩, ⟨login, hlogin⟩,
      fun hw => by_contra fun hp => hcon ⟨hw, hp⟩⟩
  unfold Postgres.openLink negotiate
  rw [if_pos htls.1]
  apply Quits.bind
  exact (clientConfig_quits h htls.2).bind

theorem buildOpts_quits (hready : ¬ Kind.mysql.Ready src spec) (b : Bool) (h : dials log = []) :
    Quits log (Mysql.buildOpts src spec b net) := by
  unfold Mysql.buildOpts
  apply quits_ofExcept h
  intro host hhost
  apply quits_missing h
  exact fun hlogin => hready ⟨⟨host, hhost⟩, hlogin⟩

theorem Mysql.quits (hready : ¬ Kind.mysql.Ready src spec) :
    Quits [] (Mysql.connect src spec net) := by
  unfold Mysql.connect negotiate
  split
  · exact (buildOpts_quits hready true rfl).bind
  · exact (buildOpts_quits hready false rfl).bind

theorem Mongo.quits (hready : ¬ Kind.mongodb.Ready src spec) :
    Quits [] (Mongo.connect src spec net) := by
  unfold Mongo.connect
  apply quits_ofExcept rfl
  intro host hhost
  apply quits_ofExcept rfl
  intro db hdb
  apply quits_bind (silent_resolve rfl _ _)
  intro log address h
  apply quits_ofExcept h
  intro parts _
  apply quits_missing h
  exact fun hlogin => hready ⟨⟨host, hhost⟩, ⟨db, hdb⟩, hlogin⟩

theorem Redis.quits (hready : ¬ Kind.redis.Ready src spec) :
    Quits [] (Redis.connect src spec net) := by
  unfold Redis.connect
  apply quits_ofExcept rfl
  intro host hhost
  apply quits_bind (silent_resolve rfl _ _)
  intro log address h
  apply quits_ofExcept h
  intro parts _
  apply quits_missing h
  exact fun hlogin => hready ⟨⟨host, hhost⟩, hlogin⟩

theorem Clickhouse.quits (hready : ¬ Kind.clickhouse.Ready src spec) :
    Quits [] (Clickhouse.connect src spec net) := by
  unfold Clickhouse.connect
  apply quits_ofExcept rfl
  intro host hhost
  apply quits_bind (silent_resolve rfl _ _)
  intro log address h
  apply quits_missing h
  exact fun hlogin => hready ⟨⟨host, hhost⟩, hlogin⟩

theorem Mssql.quits (hready : ¬ Kind.sqlserver.Ready src spec) :
    Quits [] (Mssql.connect src spec net) := by
  unfold Mssql.connect
  apply quits_ofExcept rfl
  intro host hhost
  apply quits_bind (silent_resolve rfl _ _)
  intro log address h
  apply quits_ofExcept h
  intro parts _
  apply quits_missing h
  exact fun hlogin => hready ⟨⟨host, hhost⟩, hlogin⟩

theorem Cql.quits (hnet : net.tunnel = spec.tunnel) (hready : ¬ Kind.scylla.Ready src spec) :
    Quits [] (Cql.connect src spec net) := by
  unfold Cql.connect
  split
  · exact quits_throw rfl _
  · next hcond =>
    apply quits_ofExcept rfl
    intro host hhost
    apply quits_bind (silent_resolve rfl _ _)
    intro log address h
    apply quits_missing h
    intro hlogin
    apply hready
    refine ⟨?_, ⟨host, hhost⟩, hlogin⟩
    rintro ⟨hreq, hnone⟩
    apply hcond
    rw [NetContext.tunneled, hnet, hnone, hreq]
    rfl

theorem Firebird.quits (hready : ¬ Kind.firebird.Ready src spec) :
    Quits [] (Firebird.connect src spec net) := by
  unfold Firebird.connect
  apply quits_ofExcept rfl
  intro host hhost
  apply quits_ofExcept rfl
  intro db hdb
  apply quits_bind (silent_resolve rfl _ _)
  intro log address h
  apply quits_missing h
  exact fun hlogin => hready ⟨⟨host, hhost⟩, ⟨db, hdb⟩, hlogin⟩

theorem Snowflake.quits (hready : ¬ Kind.snowflake.Ready src spec) :
    Quits [] (Snowflake.connect src spec) := by
  unfold Snowflake.connect
  apply quits_ofExcept rfl
  intro account haccount
  apply quits_ofExcept rfl
  intro user huser
  have htoken : ¬ tokenReady src spec.auth := fun ht =>
    hready ⟨⟨account, haccount⟩, ⟨user, huser⟩, ht⟩
  apply Quits.bind
  unfold Snowflake.token
  unfold tokenReady at htoken
  split
  · next hauth =>
    rw [hauth] at htoken
    exact absurd trivial htoken
  · next hauth =>
    rw [hauth] at htoken
    cases hx : Secret.resolve src _ with
    | ok a => exact absurd ⟨a, hx⟩ htoken
    | error e => exact ⟨rfl, e, rfl⟩
  · exact ⟨rfl, _, rfl⟩

theorem File.quits {failed : String} (hready : ¬ Kind.sqlite.Ready src spec) :
    Quits [] (File.connect src spec failed) := by
  unfold File.connect
  exact quits_missing rfl hready

/-- A driver that lacks something fails before it dials. -/
theorem connect_quits (kind : Kind) (hnet : net.tunnel = spec.tunnel)
    (hready : ¬ kind.Ready src spec) : Quits [] (kind.connect src spec net) := by
  cases kind with
  | postgres | cockroachdb => exact Postgres.quits hready
  | mariadb | mysql => exact Mysql.quits hready
  | mongodb => exact Mongo.quits hready
  | sqlite | duckdb => exact File.quits hready
  | redis => exact Redis.quits hready
  | clickhouse => exact Clickhouse.quits hready
  | sqlserver => exact Mssql.quits hready
  | cassandra | scylla => exact Cql.quits hnet hready
  | firebird => exact Firebird.quits hready
  | snowflake => exact Snowflake.quits hready

/-! ### Past the context -/

theorem silent_token (account user : Text) :
    After (fun log _ => dials log = []) [] (Snowflake.token src spec account user) := by
  unfold Snowflake.token
  split
  · apply silent_bind (silent_mapError (silent_call rfl fun _ => rfl))
    intro log _ h
    exact silent_mapError (silent_call h fun _ => rfl)
  · exact rfl
  · exact rfl

/-- Every link is told to be TLS. -/
def Covered (log : Log) (_ : Except String Conn) : Prop :=
  ∀ d ∈ dials log, ∃ c, d.security = .required c

theorem covered_nil {r : Except String Conn} (h : dials log = []) : Covered log r := by
  intro d hd
  rw [h] at hd
  cases hd

theorem covered_dialling {d : Dial} (h : dials log = []) (hsec : ∃ c, d.security = .required c)
    (encrypted : Bool) : After Covered log (dialling d encrypted) := by
  intro r
  have hdials : dials (log ++ [⟨.dial d, r⟩]) = [d] := by
    rw [dials_append, h]
    rfl
  have hcovered : ∀ out, Covered (log ++ [⟨.dial d, r⟩]) out := by
    intro out d' hd'
    rw [hdials] at hd'
    rw [List.mem_singleton.mp hd']
    exact hsec
  cases r with
  | ok b => exact hcovered _
  | error e => exact hcovered _

theorem Snowflake.covered : After Covered [] (Snowflake.connect src spec) := by
  unfold Snowflake.connect
  cases spec.param "account" with
  | error e => exact covered_nil rfl
  | ok account =>
    cases spec.param "user" with
    | error e => exact covered_nil rfl
    | ok user =>
      apply (silent_token account user).bind
      · exact fun log token h => covered_dialling h ⟨_, rfl⟩ true
      · exact fun log e h => covered_nil h

theorem File.covered {failed : String} : After Covered [] (File.connect src spec failed) := by
  unfold File.connect
  cases spec.param "file" with
  | error e => exact covered_nil rfl
  | ok file =>
    apply (silent_mapError (silent_call rfl fun _ => rfl)).bind
    · exact fun log _ h => covered_nil h
    · exact fun log e h => covered_nil h

theorem connect_covered {kind : Kind} (hprofile : kind.profile = none) :
    After Covered [] (kind.connect src spec net) := by
  cases kind with
  | snowflake => exact Snowflake.covered
  | sqlite | duckdb => exact File.covered
  | postgres | cockroachdb | mariadb | mysql | mongodb | redis | clickhouse | sqlserver
  | cassandra | scylla | firebird => cases hprofile

end LvimDb.Net
