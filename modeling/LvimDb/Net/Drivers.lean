import LvimDb.Net.Context

/-!
# The drivers' connect

`Driver::connect` of every driver, up to the link it opens and what the connection reports of
its encryption. `src` is what the secret templates of the spec are resolved with.
-/

namespace LvimDb.Net
open Secret (Text Sources)
open Lib (Dialogue)

variable (src : Sources) (spec : ConnSpec)

def loadAll (paths : List Text) : M Unit :=
  paths.forM fun path => do
    let _ ← Dialogue.call (Ask.load path)

/-- A client certificate and its key, where both are given. -/
def TlsSpec.identity (tls : TlsSpec) : Option (Text × Text) :=
  match tls.clientCert, tls.clientKey with
  | some cert, some key => some (cert, key)
  | _, _ => none

/-- TLS as it is configured, or none. -/
def withTls (tls : Option TlsConfig) : Security :=
  match tls with
  | some c => .required c
  | none => .off

/-! ### Postgres and CockroachDB -/

namespace Postgres

structure Config where
  addr : Text
  user : Text
  database : Text
  password : Option Text

def userOf (user : Text) : Text :=
  if user.isEmpty then (spec.paramOpt "user").getD "postgres".toList else user

def credentials : Except String (Text × Text) :=
  match spec.auth with
  | .password user password => do
    let password ← Secret.resolve src password
    .ok (userOf spec user, password)
  | .clientCert _ _ _ user => .ok (userOf spec user, [])
  | _ => .ok ((spec.paramOpt "user").getD "postgres".toList, [])

def buildConfig (net : NetContext) : M (Config × NetContext) := do
  let host ← ofExcept (spec.param "host")
  let db ← ofExcept (spec.param "database")
  let (user, password) ← ofExcept (credentials src spec)
  let (addr, net) ← net.resolve host (spec.port 5432)
  let (rhost, rport) ← ofExcept (splitAddr addr)
  let password := if password.isEmpty then none else some password
  pure (⟨address rhost ((parseU16 rport).getD (spec.port 5432)), user, db, password⟩, net)

/-- `client_config` of tls.rs. -/
def clientConfig (tls : TlsSpec) : M TlsConfig := do
  loadAll (if tls.verifiesCert then tls.ca.toList else [])
  match tls.clientCert, tls.clientKey with
  | some cert, some key => loadAll [cert, key]
  | none, none => pure ()
  | _, _ => throw "TLS client cert and key must be provided together"
  pure ⟨!tls.verifiesCert, !tls.verifiesCert, if tls.verifiesCert then tls.ca else none,
    tls.identity⟩

def dial (config : Config) (security : Security) : Dial :=
  ⟨.tokioPostgres, config.addr, some config.database, security,
    some ⟨some config.user, config.password⟩⟩

/-- `PgConnection::open`. -/
def openLink (config : Config) (net : NetContext) : M Conn :=
  negotiate spec.tls net
    (fun encrypted net =>
      if encrypted then do
        let tls ← clientConfig spec.tls
        pure (some tls, net)
      else pure (none, net))
    (fun encrypted tls =>
      if encrypted then dialling (dial config (withTls tls)) true
      else (dialling (dial config (withTls tls)) false).mapError ("postgres connect failed: " ++ ·))
    ("postgres: TLS is required but the server did not accept it: " ++ ·)

def connect (net : NetContext) : M Conn := do
  let (config, net) ← buildConfig src spec net
  openLink spec config net

end Postgres

/-! ### MySQL and MariaDB -/

namespace Mysql

def credentials : Except String (Text × Option Text) :=
  match spec.auth with
  | .password user password => do
    let password ← Secret.resolve src password
    .ok (user, some password)
  | .clientCert _ _ _ user => .ok (user, none)
  | _ => .ok ((spec.paramOpt "user").getD "root".toList, none)

def sslOpts (tls : TlsSpec) : TlsConfig :=
  ⟨!tls.verifiesCert, !tls.verifiesHostname, tls.ca, tls.identity⟩

def buildOpts (encrypted : Bool) (net : NetContext) : M (Dial × NetContext) := do
  let host ← ofExcept (spec.param "host")
  let (user, password) ← ofExcept (credentials src spec)
  let (addr, net) ← net.resolve host (spec.port 3306)
  let (rhost, rport) ← ofExcept (splitAddr addr)
  let user := if user.isEmpty then none else some user
  pure (⟨.mysqlAsync, address rhost ((parseU16 rport).getD (spec.port 3306)),
    spec.paramOpt "database", withTls (if encrypted then some (sslOpts spec.tls) else none),
    some ⟨user, password⟩⟩, net)

def connect (net : NetContext) : M Conn :=
  negotiate spec.tls net (buildOpts src spec)
    (fun encrypted dial =>
      if encrypted then dialling dial true
      else (dialling dial false).mapError ("mysql connect failed: " ++ ·))
    ("mysql: TLS is required but the server did not accept it: " ++ ·)

end Mysql

/-! ### MongoDB -/

namespace Mongo

def credential : Except String (Option Login) :=
  match spec.auth with
  | .password user password => do
    let password ← Secret.resolve src password
    .ok (some ⟨some user, some password⟩)
  | _ => .ok none

/-- The client certificate is one file with its key. -/
def tlsOptions (tls : TlsSpec) : TlsConfig :=
  ⟨!tls.verifiesCert, false, tls.ca, tls.clientCert.map fun cert => (cert, cert)⟩

def connect (net : NetContext) : M Conn := do
  let host ← ofExcept (spec.param "host")
  let db ← ofExcept (spec.param "database")
  let (addr, net) ← net.resolve host (spec.port 27017)
  let (rhost, rport) ← ofExcept (splitAddr addr)
  let login ← ofExcept (credential src spec)
  negotiate spec.tls net
    (fun encrypted net => pure (if encrypted then some (tlsOptions spec.tls) else none, net))
    (fun encrypted tls => dialling
      ⟨.mongodb, address rhost ((parseU16 rport).getD 27017), some db, withTls tls, login⟩ encrypted)
    ("mongodb: TLS is required but the connection failed: " ++ ·)

end Mongo

/-! ### Redis -/

namespace Redis

/-- `pct` of a byte. -/
def pctByte (b : UInt8) : Text :=
  let c := Char.ofNat b.toNat
  if c.isAlphanum || c ∈ ['-', '_', '.', '~'] then [c]
  else ['%', (b.toNat / 16).digitChar.toUpper, (b.toNat % 16).digitChar.toUpper]

/-- `pct`. -/
def pct (s : Text) : Text := (String.ofList s).toUTF8.toList.flatMap pctByte

/-- The credentials, and how the URL has them. -/
def auth : Except String (Option Login × Text) :=
  match spec.auth with
  | .password user password => do
    let password ← Secret.resolve src password
    if user.isEmpty then
      .ok (some ⟨none, some password⟩, ':' :: pct password ++ ['@'])
    else
      .ok (some ⟨some user, some password⟩, pct user ++ ':' :: pct password ++ ['@'])
  | _ => .ok (none, [])

def insecure (tls : TlsSpec) : TlsConfig := ⟨!tls.verifiesCert, !tls.verifiesCert, none, none⟩

/-- `open_con`: the client is made of the URL, the connection goes where it says. -/
def openCon (url : Text) (dial : Dial) (encrypted : Bool) : M Conn := do
  (Dialogue.call (Ask.url url)).mapError ("redis url invalid: " ++ ·)
  (dialling dial encrypted).mapError ("redis connect failed: " ++ ·)

def url (tls : TlsSpec) (encrypted : Bool) (auth rhost rport db : Text) : Text :=
  let place := auth ++ rhost ++ ':' :: rport ++ '/' :: db
  if encrypted then
    "rediss://".toList ++ place ++ (if tls.verifiesCert then [] else "#insecure".toList)
  else "redis://".toList ++ place

/-- The attempts once the address and the credentials are known, with and without TLS. -/
def attempts (net : NetContext) (login : Option Login) (auth rhost rport db : Text) : M Conn :=
  negotiate spec.tls net
    (fun encrypted net => pure (if encrypted then some (insecure spec.tls) else none, net))
    (fun encrypted tls => openCon (url spec.tls encrypted auth rhost rport db)
      ⟨.redis, rhost ++ ':' :: rport, some db, withTls tls, login⟩ encrypted)
    ("redis: TLS is required but the connection failed: " ++ ·)

def connect (net : NetContext) : M Conn := do
  let host ← ofExcept (spec.param "host")
  let db := (spec.paramOpt "db").getD "0".toList
  let (addr, net) ← net.resolve host (spec.port 6379)
  let (rhost, rport) ← ofExcept (splitAddr addr)
  let (login, auth) ← ofExcept (auth src spec)
  attempts spec net login auth rhost rport db

end Redis

/-! ### ClickHouse -/

namespace Clickhouse

def credentials : Except String (Text × Text) :=
  match spec.auth with
  | .password user password => do
    let password ← Secret.resolve src password
    .ok (user, password)
  | _ => .ok ([], [])

def httpsConfig (tls : TlsSpec) : TlsConfig :=
  ⟨!tls.verifiesCert, !tls.verifiesHostname, tls.ca, tls.identity⟩

def identityFiles (tls : TlsSpec) : List Text :=
  match tls.identity with
  | some (cert, key) => [cert, key]
  | none => []

/-- `build`. -/
def build (encrypted : Bool) (net : NetContext) : M (Option TlsConfig × NetContext) := do
  let tls := if encrypted then some (httpsConfig spec.tls) else none
  loadAll (if encrypted then spec.tls.ca.toList ++ identityFiles spec.tls else [])
  (Dialogue.call (Ask.httpClient tls)).mapError ("http client: " ++ ·)
  pure (tls, net)

def connect (net : NetContext) : M Conn := do
  let host ← ofExcept (spec.param "host")
  let (addr, net) ← net.resolve host (spec.port 8123)
  let (user, password) ← ofExcept (credentials src spec)
  let database := (spec.paramOpt "database").getD "default".toList
  negotiate spec.tls net (build spec)
    (fun encrypted tls => dialling
      ⟨.reqwest, addr, some database, withTls tls, some ⟨some user, some password⟩⟩ encrypted)
    ("clickhouse: TLS is required but the connection failed: " ++ ·)

end Clickhouse

/-! ### SQL Server -/

namespace Mssql

def credentials : Except String (Text × Text) :=
  match spec.auth with
  | .password user password => do
    let password ← Secret.resolve src password
    .ok (user, password)
  | _ => .error "SQL Server requires password authentication"

def trust (tls : TlsSpec) : TlsConfig :=
  if tls.verifiesCert then ⟨false, false, tls.ca, none⟩ else ⟨true, true, none, none⟩

/-- `EncryptionLevel`; `On` takes a link that is not encrypted too. -/
def encryption (tls : TlsSpec) : Security :=
  match tls.mode with
  | .disable => .off
  | .prefer => .preferred (trust tls)
  | .require | .verifyCa | .verifyFull => .required (trust tls)

/-- What is reported: the levels that fail where the link is not encrypted. -/
def encrypted (tls : TlsSpec) : Bool :=
  match tls.mode with
  | .disable | .prefer => false
  | .require | .verifyCa | .verifyFull => true

def connect (net : NetContext) : M Conn := do
  let host ← ofExcept (spec.param "host")
  let (addr, _) ← net.resolve host (spec.port 1433)
  let (rhost, rport) ← ofExcept (splitAddr addr)
  let (user, password) ← ofExcept (credentials src spec)
  let addr := address rhost ((parseU16 rport).getD (spec.port 1433))
  (Dialogue.call (Ask.tcp addr)).mapError ("sqlserver tcp connect failed: " ++ ·)
  (dialling ⟨.tiberius, addr, spec.paramOpt "database", encryption spec.tls,
    some ⟨some user, some password⟩⟩ (encrypted spec.tls)).mapError
      ("sqlserver connect failed: " ++ ·)

end Mssql

/-! ### Cassandra and ScyllaDB -/

namespace Cql

def login : Except String (Option Login) :=
  match spec.auth with
  | .password user password => do
    let password ← Secret.resolve src password
    .ok (some ⟨some user, some password⟩)
  | _ => .ok none

def refusal : String :=
  "CQL native TLS is not implemented in this build; use an SSH tunnel for encryption, " ++
    "or set tls.mode=disable to connect in the clear explicitly"

def connect (net : NetContext) : M Conn := do
  if spec.tls.required && !net.tunneled then throw refusal
  else do
    let host ← ofExcept (spec.param "host")
    let (addr, _) ← net.resolve host (spec.port 9042)
    let login ← ofExcept (login src spec)
    (dialling ⟨.scylla, addr, spec.paramOpt "keyspace", .off, login⟩ false).mapError
      ("cql connect failed: " ++ ·)

end Cql

/-! ### Firebird -/

namespace Firebird

def credentials : Except String (Text × Text) :=
  match spec.auth with
  | .password user password => do
    let password ← Secret.resolve src password
    .ok (if user.isEmpty then "SYSDBA".toList else user, password)
  | _ => .ok ("SYSDBA".toList, [])

/-- Where the address cannot be cut, the driver goes to the server itself. -/
def endpoint (addr host : Text) (port : Nat) : Text :=
  match rsplitOnce addr with
  | some (rhost, rport) => address rhost ((parseU16 rport).getD port)
  | none => address host port

def connect (net : NetContext) : M Conn := do
  let host ← ofExcept (spec.param "host")
  let db ← ofExcept (spec.param "database")
  let (addr, _) ← net.resolve host (spec.port 3050)
  let (user, password) ← ofExcept (credentials src spec)
  (dialling ⟨.rsfbclient, endpoint addr host (spec.port 3050), some db, .off,
    some ⟨some user, some password⟩⟩ false).mapError ("firebird connect failed: " ++ ·)

end Firebird

/-! ### Snowflake -/

namespace Snowflake

/-- The bearer token. -/
def token (account user : Text) : M Text :=
  match spec.auth with
  | .clientCert _ key _ _ => do
    let pem ← (Dialogue.call (Ask.load key)).mapError
      (("snowflake: cannot read key file '" ++ String.ofList key ++ "': ") ++ ·)
    (Dialogue.call (Ask.sign pem account user)).mapError ("snowflake: JWT generation failed: " ++ ·)
  | .provider _ token _ => ofExcept (Secret.resolve src token)
  | _ => throw "Snowflake requires key-pair (JWT) or OAuth auth"

/-- The server of an account, which speaks HTTPS only. -/
def server (account : Text) : Text := address (account ++ ".snowflakecomputing.com".toList) 443

def connect : M Conn := do
  let account ← ofExcept (spec.param "account")
  let user ← ofExcept (spec.param "user")
  let token ← token src spec account user
  dialling ⟨.reqwest, server account, spec.paramOpt "database",
    .required ⟨false, false, none, none⟩, some ⟨none, some token⟩⟩ true

end Snowflake

/-! ### SQLite and DuckDB -/

namespace File

/-- `expand_tilde`. -/
def expandTilde (path : Text) : Text :=
  match path with
  | '~' :: rest =>
    if rest.isEmpty || ['/'].isPrefixOf rest then
      match src.env "HOME".toList with
      | some home => home ++ rest
      | none => path
    else path
  | _ => path

def connect (failed : String) : M Conn := do
  let file ← ofExcept (spec.param "file")
  (Dialogue.call (Ask.openFile (expandTilde src file))).mapError (failed ++ ·)
  pure ⟨none, false⟩

end File

/-! ### The registry and the server -/

inductive Kind
  | postgres
  | cockroachdb
  | mariadb
  | mysql
  | mongodb
  | sqlite
  | duckdb
  | redis
  | clickhouse
  | sqlserver
  | cassandra
  | scylla
  | firebird
  | snowflake
  deriving DecidableEq

def Kind.name : Kind → String
  | .postgres => "postgres"
  | .cockroachdb => "cockroachdb"
  | .mariadb => "mariadb"
  | .mysql => "mysql"
  | .mongodb => "mongodb"
  | .sqlite => "sqlite"
  | .duckdb => "duckdb"
  | .redis => "redis"
  | .clickhouse => "clickhouse"
  | .sqlserver => "sqlserver"
  | .cassandra => "cassandra"
  | .scylla => "scylla"
  | .firebird => "firebird"
  | .snowflake => "snowflake"

def registry : List Kind :=
  [.postgres, .cockroachdb, .mariadb, .mysql, .mongodb, .sqlite, .duckdb, .redis, .clickhouse,
    .sqlserver, .cassandra, .scylla, .firebird, .snowflake]

/-- `Registry::get`. -/
def kindOf (driver : Text) : Except String Kind :=
  match registry.find? (·.name.toList = driver) with
  | some kind => .ok kind
  | none => .error ("unknown or not-compiled driver kind '" ++ String.ofList driver ++ "'")

def Kind.connect (kind : Kind) (net : NetContext) : M Conn :=
  match kind with
  | .postgres | .cockroachdb => Postgres.connect src spec net
  | .mariadb | .mysql => Mysql.connect src spec net
  | .mongodb => Mongo.connect src spec net
  | .sqlite => File.connect src spec "sqlite open failed: "
  | .duckdb => File.connect src spec "duckdb open failed: "
  | .redis => Redis.connect src spec net
  | .clickhouse => Clickhouse.connect src spec net
  | .sqlserver => Mssql.connect src spec net
  | .cassandra | .scylla => Cql.connect src spec net
  | .firebird => Firebird.connect src spec net
  | .snowflake => Snowflake.connect src spec

/-- What `conn.connect` answers, with the connection that is kept. -/
structure Opened where
  conn : Conn
  connId : Nat
  encrypted : Bool
  tunneled : Bool

/-- The warning about a link that is not encrypted. -/
def Opened.warning (o : Opened) : Option String :=
  if o.encrypted then none
  else some ("connection " ++ toString o.connId ++ " to driver '" ++ String.ofList spec.driver ++
    "' is NOT encrypted (no TLS negotiated and no SSH tunnel)")

/-- `Server::connect`, where `id` is the next connection's. -/
def connect (id : Nat) : M Opened := do
  let kind ← ofExcept (kindOf spec.driver)
  let net := NetContext.new spec.tunnel
  let conn ← kind.connect src spec net
  pure ⟨conn, id, conn.encrypted || net.tunneled, net.tunneled⟩

end LvimDb.Net
