import LvimDb.Net.Posture

/-!
# Testing a connection

`Server::test`, which the form's buttons call: one stage of a spec is tried, and nothing is kept.
The endpoint stage takes the port that a driver declares, the driver the one it has in its
`connect`.
-/

namespace LvimDb.Net
open Secret (Text Sources)
open Lib (Dialogue)
open Lib.Dialogue (Asks Runs asks_call)

/-- `DriverMeta::default_port`. -/
def Kind.defaultPort : Kind → Option ℕ
  | .postgres => some 5432
  | .cockroachdb => some 26257
  | .mariadb | .mysql => some 3306
  | .mongodb => some 27017
  | .redis => some 6379
  | .clickhouse => some 8123
  | .sqlserver => some 1433
  | .cassandra | .scylla => some 9042
  | .firebird => some 3050
  | .sqlite | .duckdb | .snowflake => none

/-- The driver's parameter of type `File`. -/
def Kind.fileParam : Kind → Option String
  | .sqlite | .duckdb => some "file"
  | _ => none

/-- `std::fs::metadata`: whether a file is a regular one, and its size. -/
abbrev Metadata := Text → Except String (Bool × ℕ)

variable (src : Sources) (files : Metadata) (spec : ConnSpec)

def probeFile (key : String) : M String := do
  let raw ← ofExcept (spec.param key)
  let path := File.expandTilde src raw
  let shown := String.ofList path
  let md ← ofExcept ((files path).mapError (("cannot stat '" ++ shown ++ "': ") ++ ·))
  if !md.1 then throw ("'" ++ shown ++ "' is not a regular file")
  else do
    (Dialogue.call (Ask.openFile path)).mapError (("cannot open '" ++ shown ++ "' for reading: ") ++ ·)
    pure (shown ++ " — readable, " ++ toString md.2 ++ " bytes")

/-- The port to dial, or none. -/
def portOf (kind : Kind) : Except String ℕ :=
  let port := spec.port (kind.defaultPort.getD 0)
  if port = 0 then .error ("no port set and '" ++ kind.name ++ "' declares no default") else .ok port

def probeHost (kind : Kind) (host : Text) : M String := do
  let port ← ofExcept (portOf spec kind)
  let net := NetContext.new spec.tunnel
  let (addr, _) ← net.resolve host port
  let shown := String.ofList (address host port)
  (Dialogue.call (Ask.tcp addr)).mapError (("cannot reach " ++ shown ++ ": ") ++ ·)
  pure (if net.tunneled then
      shown ++ " reachable through the SSH tunnel (local " ++ String.ofList addr ++ ")"
    else shown ++ " reachable (plain TCP)")

/-- `test_endpoint` (252-285). -/
def testEndpoint (kind : Kind) : M String :=
  match kind.fileParam, spec.paramOpt "host" with
  | some key, _ => probeFile src files spec key
  | none, some host => probeHost spec kind host
  | none, none => throw ("'" ++ kind.name ++
      "' has no TCP endpoint to probe — use the Auth tab's test (a full connect)")

/-- `test_tunnel` (291-310). -/
def testTunnel (kind : Kind) : M String :=
  match spec.tunnel, spec.paramOpt "host" with
  | none, _ => throw "no SSH tunnel configured on this connection"
  | some _, none =>
    throw "a tunnel needs a host to forward to — fill the Connection tab first"
  | some t, some host => do
    let port ← ofExcept (portOf spec kind)
    let (addr, _) ← (NetContext.new (some t)).resolve host port
    pure ("ssh " ++ String.ofList t.user ++ "@" ++ String.ofList (address t.host t.port.toNat) ++
      " authenticated — forwarding " ++ String.ofList addr ++ " → " ++
      String.ofList (address host port))

/-- Whom the server took the client for. -/
def AuthSpec.who : AuthSpec → String
  | .none => "no credentials (anonymous)"
  | .password user _ => "password auth accepted for '" ++ String.ofList user ++ "'"
  | .clientCert _ _ _ user =>
    if user.isEmpty then "client-certificate auth accepted"
    else "client-certificate auth accepted for '" ++ String.ofList user ++ "'"
  | .provider name _ user =>
    if user.isEmpty then String.ofList name ++ " token accepted"
    else String.ofList name ++ " token accepted for '" ++ String.ofList user ++ "'"
  | .kerberos (.some p) => "kerberos accepted for '" ++ String.ofList p ++ "'"
  | .kerberos .none => "kerberos accepted"

/-- What the two last stages say of a connection. -/
def verdict (stage : String) (native tunneled : Bool) : Except String String :=
  if stage = "tls" then
    match native, tunneled with
    | true, true => .ok "encrypted — native TLS negotiated, and the link also rides the SSH tunnel"
    | true, false => .ok "encrypted — native TLS negotiated"
    | false, true => .ok "encrypted — no native TLS, but the link rides the SSH tunnel"
    | false, false =>
      .error "connected but the link is PLAINTEXT — no TLS negotiated and no SSH tunnel"
  else
    .ok ("connected — " ++ spec.auth.who ++ "; link " ++
      if native || tunneled then "encrypted" else "PLAINTEXT")

/-- `test_connect` (316-355); the connection is closed again, whatever comes of that. -/
def testConnect (stage : String) : M String := do
  let kind ← ofExcept (kindOf spec.driver)
  let net := NetContext.new spec.tunnel
  let conn ← kind.connect src spec net
  ofExcept (verdict spec stage conn.encrypted net.tunneled)

/-- `Server::test` (217-244), what it says where it does not fail. -/
def test (stage : String) : M String :=
  match registry.find? (·.name.toList = spec.driver) with
  | none => throw ("unknown driver '" ++ String.ofList spec.driver ++ "'")
  | some kind =>
    if stage = "endpoint" then testEndpoint src files spec kind
    else if stage = "tunnel" then testTunnel spec kind
    else if stage = "tls" ∨ stage = "auth" then testConnect src spec stage
    else throw ("unknown test stage '" ++ stage ++ "'")

variable {src : Sources} {files : Metadata} {spec : ConnSpec} {kind : Kind} {log : Log}
variable {t : Text} {net : NetContext} {α β : Type}

/-! ### Where a program goes -/

/-- Where a question leads: to the end of a forward or, where there is no tunnel, to an address. -/
def target (spec : ConnSpec) : Ask → Option Text
  | .openTunnel _ host port => some (address host port)
  | .tcp addr => if spec.tunnel.isSome then none else some addr
  | .dial d => if spec.tunnel.isSome then none else some d.addr
  | _ => none

def targets (spec : ConnSpec) (log : Log) : List Text := log.filterMap fun e => target spec e.q

/-- The question leads to `t`, if anywhere. -/
def Aims (spec : ConnSpec) (t : Text) (q : Ask) : Prop := ∀ a, target spec q = some a → a = t

theorem aims_quiet {q : Ask} (h : target spec q = none) : Aims spec t q := by
  intro a ha
  rw [h] at ha
  cases ha

/-- An address that leads to `t`: itself, where there is no tunnel. -/
def Toward (spec : ConnSpec) (t addr : Text) : Prop := spec.tunnel = none → addr = t

theorem aims_tcp {addr : Text} (h : Toward spec t addr) : Aims spec t (.tcp addr) := by
  intro a ha
  rw [target] at ha
  split at ha
  · cases ha
  · next hnone =>
    cases ha
    exact h (by simpa using hnone)

theorem aims_dial {d : Dial} (h : Toward spec t d.addr) : Aims spec t (.dial d) := by
  intro a ha
  rw [target] at ha
  split at ha
  · cases ha
  · next hnone =>
    cases ha
    exact h (by simpa using hnone)

theorem asks_ofExcept {good : β → Prop} {x : Except String α} {f : α → M β}
    (hf : ∀ a, x = .ok a → Asks (Aims spec t) good (f a)) :
    Asks (Aims spec t) good (ofExcept x >>= f) := by
  cases x with
  | ok a => exact hf a rfl
  | error e => trivial

theorem asks_resolve {good : β → Prop} {host : Text} {port : ℕ} {f : Text × NetContext → M β}
    (hnet : net.tunnel = spec.tunnel) (ht : address host port = t)
    (hf : ∀ addr net', net'.tunnel = spec.tunnel → Toward spec t addr →
      Asks (Aims spec t) good (f (addr, net'))) :
    Asks (Aims spec t) good (net.resolve host port >>= f) := by
  unfold NetContext.resolve
  split
  · exact hf _ _ hnet fun _ => ht
  · next u p hsome hport =>
    refine hf _ _ hnet fun hnone => ?_
    rw [← hnet, hsome] at hnone
    cases hnone
  · next u hsome hport =>
    refine ⟨fun a ha => ?_, fun r => ?_⟩
    · cases ha
      exact ht
    · cases r with
      | error e => trivial
      | ok p =>
        refine hf _ _ hnet fun hnone => ?_
        rw [← hnet, hsome] at hnone
        cases hnone

/-- The two parts of an address are put together again. -/
theorem Toward.parts {host addr rhost rport : Text} {port : ℕ} (default : ℕ)
    (hp : port < 65536) (h : Toward spec (address host port) addr)
    (hsplit : splitAddr addr = .ok (rhost, rport)) :
    Toward spec (address host port) (address rhost ((parseU16 rport).getD default)) ∧
      Toward spec (address host port) (rhost ++ ':' :: rport) := by
  have heq : spec.tunnel = none → rhost = host ∧ rport = Nat.toDigits 10 port := by
    intro hnone
    rw [h hnone, splitAddr, rsplitOnce_address] at hsplit
    cases hsplit
    exact ⟨rfl, rfl⟩
  constructor
  · intro hnone
    obtain ⟨rfl, rfl⟩ := heq hnone
    rw [parseU16_toDigits hp, Option.getD_some]
  · intro hnone
    obtain ⟨rfl, rfl⟩ := heq hnone
    rfl

theorem port_lt {d : ℕ} (hd : d < 65536) : spec.port d < 65536 := by
  unfold ConnSpec.port
  cases hport : (spec.paramOpt "port").bind parseU16 with
  | none => exact hd
  | some n =>
    obtain ⟨s, -, hn⟩ := Option.bind_eq_some_iff.mp hport
    simp only [parseU16, Option.ite_none_right_eq_some, Option.some.injEq] at hn
    obtain ⟨⟨-, -, hlt⟩, heq⟩ := hn
    rw [Option.getD_some, ← heq]
    exact hlt

/-! ### Where the drivers go -/

theorem asks_dialling {d : Dial} (h : Toward spec t d.addr) (encrypted : Bool) :
    Asks (Aims spec t) (fun _ => True) (dialling d encrypted) :=
  (asks_call (aims_dial h)).bind fun _ _ => trivial

theorem asks_negotiate {tls : TlsSpec} {prepare : Bool → NetContext → M (α × NetContext)}
    {attempt : Bool → α → M Conn} {refused : String → String} (good : α → Prop)
    (hnet : net.tunnel = spec.tunnel)
    (hprepare : ∀ b net, net.tunnel = spec.tunnel →
      Asks (Aims spec t) (fun p => good p.1 ∧ p.2.tunnel = spec.tunnel) (prepare b net))
    (hattempt : ∀ b a, good a → Asks (Aims spec t) (fun _ => True) (attempt b a)) :
    Asks (Aims spec t) (fun _ => True) (negotiate tls net prepare attempt refused) := by
  unfold negotiate
  split
  · refine (hprepare true net hnet).bind fun p hp => (hattempt true p.1 hp.1).recover fun e => ?_
    split
    · trivial
    · exact (hprepare false p.2 hp.2).bind fun p hp => hattempt false p.1 hp.1
  · exact (hprepare false net hnet).bind fun p hp => hattempt false p.1 hp.1

theorem asks_loadAll (paths : List Text) :
    Asks (Aims spec t) (fun _ => True) (loadAll paths) := by
  induction paths with
  | nil => trivial
  | cons path paths ih =>
    have hone : Asks (Aims spec t) (fun _ => True)
        (do
          let _ ← Dialogue.call (Ask.load path)
          pure () : M Unit) := (asks_call (aims_quiet rfl)).bind fun _ _ => trivial
    exact hone.bind fun _ _ => ih

/-- Where a spec with a driver's port leads. -/
def Home (spec : ConnSpec) (port : ℕ) (t : Text) : Prop :=
  ∀ host, spec.param "host" = .ok host → address host (spec.port port) = t

theorem Postgres.connect_aims (ht : Home spec 5432 t) (hnet : net.tunnel = spec.tunnel) :
    Asks (Aims spec t) (fun _ => True) (Postgres.connect src spec net) := by
  unfold Postgres.connect Postgres.buildConfig
  simp only [bind_assoc, pure_bind]
  refine asks_ofExcept fun host hhost => asks_ofExcept fun db _ => asks_ofExcept fun login _ => ?_
  obtain rfl := ht host hhost
  refine asks_resolve hnet rfl fun addr net hnet htoward => asks_ofExcept fun parts hparts => ?_
  have haddr := (htoward.parts (spec.port 5432) (port_lt (by decide)) hparts).1
  refine asks_negotiate (fun _ => True) hnet (fun b net hnet => ?_) fun b tls _ => ?_
  · split
    · unfold Postgres.clientConfig
      simp only [bind_assoc]
      refine (asks_loadAll _).bind fun _ _ => ?_
      split
      · simp only [bind_assoc, pure_bind]
        exact (asks_loadAll _).bind fun _ _ => ⟨trivial, hnet⟩
      · exact ⟨trivial, hnet⟩
      · trivial
    · exact ⟨trivial, hnet⟩
  · split
    · exact asks_dialling haddr true
    · exact (asks_dialling haddr false).mapError

theorem Mysql.connect_aims (ht : Home spec 3306 t) (hnet : net.tunnel = spec.tunnel) :
    Asks (Aims spec t) (fun _ => True) (Mysql.connect src spec net) := by
  refine asks_negotiate (fun d : Dial => Toward spec t d.addr) hnet (fun b net hnet => ?_)
    fun b d hd => ?_
  · unfold Mysql.buildOpts
    refine asks_ofExcept fun host hhost => asks_ofExcept fun login _ => ?_
    obtain rfl := ht host hhost
    refine asks_resolve hnet rfl fun addr net hnet htoward => asks_ofExcept fun parts hparts => ?_
    exact ⟨(htoward.parts _ (port_lt (by decide)) hparts).1, hnet⟩
  · split
    · exact asks_dialling hd true
    · exact (asks_dialling hd false).mapError

theorem Mongo.connect_aims (ht : Home spec 27017 t) (hnet : net.tunnel = spec.tunnel) :
    Asks (Aims spec t) (fun _ => True) (Mongo.connect src spec net) := by
  unfold Mongo.connect
  refine asks_ofExcept fun host hhost => asks_ofExcept fun db _ => ?_
  obtain rfl := ht host hhost
  refine asks_resolve hnet rfl fun addr net hnet htoward => asks_ofExcept fun parts hparts =>
    asks_ofExcept fun login _ => ?_
  have haddr := (htoward.parts 27017 (port_lt (by decide)) hparts).1
  exact asks_negotiate (fun _ => True) hnet (fun b net hnet => ⟨trivial, hnet⟩)
    fun b tls _ => asks_dialling haddr b

theorem Redis.connect_aims (ht : Home spec 6379 t) (hnet : net.tunnel = spec.tunnel) :
    Asks (Aims spec t) (fun _ => True) (Redis.connect src spec net) := by
  unfold Redis.connect Redis.attempts
  refine asks_ofExcept fun host hhost => ?_
  obtain rfl := ht host hhost
  refine asks_resolve hnet rfl fun addr net hnet htoward => asks_ofExcept fun parts hparts =>
    asks_ofExcept fun login _ => ?_
  have haddr := (htoward.parts 0 (port_lt (by decide)) hparts).2
  refine asks_negotiate (fun _ => True) hnet (fun b net hnet => ⟨trivial, hnet⟩)
    fun b tls _ => ?_
  exact (asks_call (aims_quiet rfl)).mapError.bind fun _ _ => (asks_dialling haddr b).mapError

theorem Clickhouse.connect_aims (ht : Home spec 8123 t) (hnet : net.tunnel = spec.tunnel) :
    Asks (Aims spec t) (fun _ => True) (Clickhouse.connect src spec net) := by
  unfold Clickhouse.connect
  refine asks_ofExcept fun host hhost => ?_
  obtain rfl := ht host hhost
  refine asks_resolve hnet rfl fun addr net hnet htoward => asks_ofExcept fun login _ => ?_
  refine asks_negotiate (fun _ => True) hnet (fun b net hnet => ?_)
    fun b tls _ => asks_dialling htoward b
  refine (asks_loadAll _).bind fun _ _ => ?_
  exact (asks_call (aims_quiet rfl)).mapError.bind fun _ _ => ⟨trivial, hnet⟩

theorem Mssql.connect_aims (ht : Home spec 1433 t) (hnet : net.tunnel = spec.tunnel) :
    Asks (Aims spec t) (fun _ => True) (Mssql.connect src spec net) := by
  unfold Mssql.connect
  refine asks_ofExcept fun host hhost => ?_
  obtain rfl := ht host hhost
  refine asks_resolve hnet rfl fun addr net hnet htoward => asks_ofExcept fun parts hparts =>
    asks_ofExcept fun login _ => ?_
  have haddr := (htoward.parts (spec.port 1433) (port_lt (by decide)) hparts).1
  exact (asks_call (aims_tcp haddr)).mapError.bind fun _ _ => (asks_dialling haddr _).mapError

theorem Cql.connect_aims (ht : Home spec 9042 t) (hnet : net.tunnel = spec.tunnel) :
    Asks (Aims spec t) (fun _ => True) (Cql.connect src spec net) := by
  unfold Cql.connect
  split
  · trivial
  · refine asks_ofExcept fun host hhost => ?_
    obtain rfl := ht host hhost
    refine asks_resolve hnet rfl fun addr net hnet htoward => asks_ofExcept fun login _ => ?_
    exact (asks_dialling htoward false).mapError

theorem Firebird.connect_aims (ht : Home spec 3050 t) (hnet : net.tunnel = spec.tunnel) :
    Asks (Aims spec t) (fun _ => True) (Firebird.connect src spec net) := by
  unfold Firebird.connect
  refine asks_ofExcept fun host hhost => asks_ofExcept fun db _ => ?_
  obtain rfl := ht host hhost
  refine asks_resolve hnet rfl fun addr net hnet htoward => asks_ofExcept fun login _ => ?_
  refine (asks_dialling (fun hnone => ?_) false).mapError
  have hparts : splitAddr addr = .ok (host, Nat.toDigits 10 (spec.port 3050)) := by
    rw [htoward hnone, splitAddr, rsplitOnce_address]
  have haddr := (htoward.parts (spec.port 3050) (port_lt (by decide)) hparts).1 hnone
  rw [Firebird.endpoint, htoward hnone, rsplitOnce_address]
  exact haddr

/-- The port of the driver's `connect`, where the spec has none. -/
def Kind.ownPort : Kind → ℕ
  | .postgres | .cockroachdb => 5432
  | .mariadb | .mysql => 3306
  | .mongodb => 27017
  | .redis => 6379
  | .clickhouse => 8123
  | .sqlserver => 1433
  | .cassandra | .scylla => 9042
  | .firebird => 3050
  | .sqlite | .duckdb | .snowflake => 0

/-- A file is opened, and nothing else is asked. -/
theorem File.connect_asks {failed : String} {ok : Ask → Prop} (hok : ∀ path, ok (.openFile path)) :
    Asks ok (fun _ => True) (File.connect src spec failed) := by
  unfold File.connect
  cases spec.param "file" with
  | error e => trivial
  | ok file => exact (asks_call (hok _)).mapError.bind fun _ _ => trivial

/-- The drivers that take a host go to their server and nowhere else. -/
theorem connect_aims (hne : kind ≠ .snowflake) (ht : Home spec kind.ownPort t) :
    Asks (Aims spec t) (fun _ => True) (kind.connect src spec (NetContext.new spec.tunnel)) := by
  cases kind with
  | postgres | cockroachdb => exact Postgres.connect_aims ht rfl
  | mariadb | mysql => exact Mysql.connect_aims ht rfl
  | mongodb => exact Mongo.connect_aims ht rfl
  | redis => exact Redis.connect_aims ht rfl
  | clickhouse => exact Clickhouse.connect_aims ht rfl
  | sqlserver => exact Mssql.connect_aims ht rfl
  | cassandra | scylla => exact Cql.connect_aims ht rfl
  | firebird => exact Firebird.connect_aims ht rfl
  | sqlite | duckdb => exact File.connect_asks fun _ => aims_quiet rfl
  | snowflake => exact absurd rfl hne

/-! ### The endpoint stage -/

/-- A stage that has asked anything has gone to the server of the spec with the port that the driver
declares. -/
theorem testEndpoint_targets {host : Text} (hfile : kind.fileParam = none)
    (hhost : spec.paramOpt "host" = some host) :
    Dialogue.After (fun log _ => log ≠ [] →
        targets spec log = [address host (spec.port (kind.defaultPort.getD 0))]) []
      (testEndpoint src files spec kind) := by
  unfold testEndpoint
  rw [hfile, hhost]
  dsimp only [probeHost]
  cases hport : portOf spec kind with
  | error e => exact fun h => absurd rfl h
  | ok port =>
    have heq : spec.port (kind.defaultPort.getD 0) = port := by
      unfold portOf at hport
      dsimp only at hport
      split at hport
      · cases hport
      · exact Except.ok.inj hport
    rw [heq]
    unfold NetContext.new NetContext.resolve
    cases htunnel : spec.tunnel with
    | none =>
      rintro (e | _) -
      · simp [targets, target, htunnel]
      · simp [targets, target, htunnel]
    | some u =>
      rintro (e | p)
      · intro h
        simp [targets, target]
      · rintro (e | _) -
        · simp [targets, target, htunnel]
        · simp [targets, target, htunnel]

/-- A port is given that can be read. -/
def PortGiven (spec : ConnSpec) : Prop := ((spec.paramOpt "port").bind parseU16).isSome = true

theorem port_eq_iff {d d' : ℕ} : spec.port d = spec.port d' ↔ d = d' ∨ PortGiven spec := by
  unfold ConnSpec.port PortGiven
  cases (spec.paramOpt "port").bind parseU16 with
  | none => simp
  | some n => simp

theorem address_inj {host : Text} {n m : ℕ} (h : address host n = address host m) : n = m := by
  have hdigits : Nat.toDigits 10 n = Nat.toDigits 10 m :=
    (List.cons.inj (List.append_cancel_left h)).2
  have hread := congrArg (fun ds => Nat.ofDigitChars 10 ds 0) hdigits
  simpa [Nat.ofDigitChars_toDigits] using hread

theorem ports_eq_iff : kind.ownPort = kind.defaultPort.getD 0 ↔ kind ≠ .cockroachdb := by
  cases kind <;> simp [Kind.ownPort, Kind.defaultPort]

/-- Where a connect goes, of which something is known for each question. -/
theorem targets_connect {id : ℕ} {r : Except String Opened} {ok : Ask → Prop} {a : Text}
    (hkind : kindOf spec.driver = .ok kind)
    (hasks : Asks ok (fun _ => True) (kind.connect src spec (NetContext.new spec.tunnel)))
    (hconn : Runs [] (connect src spec id) log r) (ha : a ∈ targets spec log) :
    ∃ q, ok q ∧ target spec q = some a := by
  have hall : Asks ok (fun _ => True) (connect src spec id) := by
    unfold connect
    rw [hkind]
    exact hasks.bind fun _ _ => trivial
  obtain ⟨⟨more, hlog, hmore⟩, -⟩ := hall.runs hconn
  rw [hlog, List.nil_append] at ha
  obtain ⟨e, he, hsome⟩ := List.mem_filterMap.mp ha
  exact ⟨e.q, hmore e he, hsome⟩

/-- A spec of CockroachDB with a port, and the probe of its endpoint. -/
def roach : ConnSpec where
  driver := "cockroachdb".toList
  params key :=
    if key = "host".toList then some "db".toList
    else if key = "database".toList then some "main".toList
    else if key = "port".toList then some "26257".toList
    else none
  auth := .none
  tls := ⟨.disable, none, none, none⟩
  tunnel := none

def noFiles : Metadata := fun _ => .error "no such file"

theorem runs_ofExcept {x : Except String α} {log log' : Log} {r : Except String α} :
    Runs log (ofExcept x) log' r ↔ log' = log ∧ r = x := by
  constructor
  · intro h
    cases h
    exact ⟨rfl, rfl⟩
  · rintro ⟨rfl, rfl⟩
    exact .done _ _

theorem runs_pure {a : α} {log log' : Log} {r : Except String α} :
    Runs log (pure a : M α) log' r ↔ log' = log ∧ r = .ok a := runs_ofExcept

/-- What a connect comes to, where the driver is known. -/
theorem runs_connect {id : ℕ} {log : Log} {done : Opened} (hkind : kindOf spec.driver = .ok kind) :
    Runs [] (connect src spec id) log (.ok done) ↔
      ∃ conn, Runs [] (kind.connect src spec (NetContext.new spec.tunnel)) log (.ok conn) ∧
        done = ⟨conn, id, conn.encrypted || spec.tunnel.isSome, spec.tunnel.isSome⟩ := by
  have hconnect : connect src spec id = (kind.connect src spec (NetContext.new spec.tunnel) >>=
      fun conn => pure ⟨conn, id, conn.encrypted || spec.tunnel.isSome, spec.tunnel.isSome⟩) := by
    unfold connect
    rw [hkind]
    rfl
  rw [hconnect, Dialogue.runs_bind]
  constructor
  · rintro (⟨mid, conn, hconn, hpure⟩ | ⟨e, -, h⟩)
    · obtain ⟨rfl, hdone⟩ := runs_pure.mp hpure
      exact ⟨conn, hconn, Except.ok.inj hdone⟩
    · cases h
  · rintro ⟨conn, hconn, rfl⟩
    exact .inl ⟨log, conn, hconn, runs_pure.mpr ⟨rfl, rfl⟩⟩

theorem runs_testConnect {stage : String} {log : Log} {detail : String}
    (hkind : kindOf spec.driver = .ok kind) :
    Runs [] (testConnect src spec stage) log (.ok detail) ↔
      ∃ conn, Runs [] (kind.connect src spec (NetContext.new spec.tunnel)) log (.ok conn) ∧
        verdict spec stage conn.encrypted spec.tunnel.isSome = .ok detail := by
  have htest : testConnect src spec stage =
      (kind.connect src spec (NetContext.new spec.tunnel) >>=
        fun conn => ofExcept (verdict spec stage conn.encrypted spec.tunnel.isSome)) := by
    unfold testConnect
    rw [hkind]
    rfl
  rw [htest, Dialogue.runs_bind]
  constructor
  · rintro (⟨mid, conn, hconn, hsaid⟩ | ⟨e, -, h⟩)
    · obtain ⟨rfl, hval⟩ := runs_ofExcept.mp hsaid
      exact ⟨conn, hconn, hval.symm⟩
    · cases h
  · rintro ⟨conn, hconn, hsaid⟩
    exact .inl ⟨log, conn, hconn, runs_ofExcept.mpr ⟨rfl, hsaid.symm⟩⟩

theorem verdict_tls {native tunneled : Bool} :
    (∃ detail, verdict spec "tls" native tunneled = .ok detail) ↔ (native || tunneled) = true := by
  cases native <;> cases tunneled <;> simp [verdict]

/-- The last two stages are the connect itself: with the same answers the stage for the login
succeeds when a connect does, and the one for TLS when the connect says that its link is encrypted
and warns of nothing. -/
theorem test_verdict (src : Sources) (files : Metadata) (spec : ConnSpec) (id : ℕ) (log : Log) :
    ((∃ detail, Runs [] (test src files spec "tls") log (.ok detail)) ↔
        ∃ done, Runs [] (connect src spec id) log (.ok done) ∧ done.encrypted = true ∧
          done.warning spec = none) ∧
      ∀ detail, Runs [] (test src files spec "auth") log (.ok detail) ↔
        ∃ done, Runs [] (connect src spec id) log (.ok done) ∧
          detail = "connected — " ++ spec.auth.who ++ "; link " ++
            if done.encrypted then "encrypted" else "PLAINTEXT" := by
  cases hfind : registry.find? (·.name.toList = spec.driver) with
  | none =>
    have hkind : ∃ e, kindOf spec.driver = .error e := by
      unfold kindOf
      rw [hfind]
      exact ⟨_, rfl⟩
    obtain ⟨e, hkind⟩ := hkind
    have hconnect : ∀ done, ¬ Runs [] (connect src spec id) log (.ok done) := by
      intro done h
      unfold connect at h
      rw [hkind] at h
      cases h
    have htest : ∀ stage detail, ¬ Runs [] (test src files spec stage) log (.ok detail) := by
      intro stage detail h
      unfold test at h
      rw [hfind] at h
      cases h
    constructor
    · constructor
      · rintro ⟨detail, h⟩
        exact absurd h (htest _ detail)
      · rintro ⟨done, h, -⟩
        exact absurd h (hconnect done)
    · intro detail
      constructor
      · intro h
        exact absurd h (htest _ detail)
      · rintro ⟨done, h, -⟩
        exact absurd h (hconnect done)
  | some kind =>
    have hkind : kindOf spec.driver = .ok kind := by
      unfold kindOf
      rw [hfind]
    have htls : test src files spec "tls" = testConnect src spec "tls" := by
      unfold test
      rw [hfind]
      rfl
    have hauth : test src files spec "auth" = testConnect src spec "auth" := by
      unfold test
      rw [hfind]
      rfl
    rw [htls, hauth]
    constructor
    · constructor
      · rintro ⟨detail, h⟩
        obtain ⟨conn, hconn, hsaid⟩ := (runs_testConnect hkind).mp h
        have henc := verdict_tls.mp ⟨detail, hsaid⟩
        exact ⟨_, (runs_connect hkind).mpr ⟨conn, hconn, rfl⟩, henc, if_pos henc⟩
      · rintro ⟨done, h, henc, -⟩
        obtain ⟨conn, hconn, rfl⟩ := (runs_connect hkind).mp h
        obtain ⟨detail, hsaid⟩ := verdict_tls.mpr henc
        exact ⟨detail, (runs_testConnect hkind).mpr ⟨conn, hconn, hsaid⟩⟩
    · intro detail
      constructor
      · intro h
        obtain ⟨conn, hconn, hsaid⟩ := (runs_testConnect hkind).mp h
        exact ⟨_, (runs_connect hkind).mpr ⟨conn, hconn, rfl⟩, (Except.ok.inj hsaid).symm⟩
      · rintro ⟨done, h, rfl⟩
        obtain ⟨conn, hconn, rfl⟩ := (runs_connect hkind).mp h
        exact (runs_testConnect hkind).mpr ⟨conn, hconn, rfl⟩

end LvimDb.Net
