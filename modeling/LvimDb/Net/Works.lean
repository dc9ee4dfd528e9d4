import LvimDb.Net.Ready

/-!
# A connect that goes well

The run where every question is answered, the forward's port with `p`. A driver that has what
it needs connects, and with a tunnel it does so through the forward's local address.
-/

namespace LvimDb.Net
open Secret (Text Sources)
open Lib (Dialogue)
open Lib.Dialogue (play)

variable {src : Sources} {spec : ConnSpec} {log : Log} {p : UInt16} {t : TunnelSpec}
variable {net : NetContext} {α β : Type}

/-! ### The run -/

def goesWell (p : UInt16) : ∀ q, Except String (Reply q)
  | .openTunnel .. => .ok p
  | .tcp _ => .ok ()
  | .dial _ => .ok false
  | .load _ => .ok []
  | .openFile _ => .ok ()
  | .url _ => .ok ()
  | .httpClient _ => .ok ()
  | .sign .. => .ok []

/-- The program succeeds in that run, with `post` at its end. -/
def Works (p : UInt16) (log : Log) (prog : M α) (post : Log → α → Prop) : Prop :=
  ∃ log' a, play (goesWell p) log prog = (log', .ok a) ∧ post log' a

theorem works_bind {prog : M α} {f : α → M β} {mid : Log → α → Prop} {post : Log → β → Prop}
    (hp : Works p log prog mid) (hf : ∀ log a, mid log a → Works p log (f a) post) :
    Works p log (prog >>= f) post := by
  obtain ⟨log', a, hplay, hmid⟩ := hp
  obtain ⟨log'', b, hplay', hpost⟩ := hf log' a hmid
  refine ⟨log'', b, ?_, hpost⟩
  rw [Dialogue.play_bind, hplay]
  exact hplay'

theorem works_ofExcept {x : Except String α} {f : α → M β} {post : Log → β → Prop}
    (hx : Succeeds x) (hf : ∀ a, x = .ok a → Works p log (f a) post) :
    Works p log (ofExcept x >>= f) post := by
  obtain ⟨a, rfl⟩ := hx
  exact hf a rfl

theorem works_recover {prog : M α} {h : String → M α} {post : Log → α → Prop}
    (hp : Works p log prog post) : Works p log (prog.recover h) post := by
  obtain ⟨log', a, hplay, hpost⟩ := hp
  exact ⟨log', a, by rw [Dialogue.play_recover, hplay], hpost⟩

theorem works_pure {a : α} {post : Log → α → Prop} (h : post log a) :
    Works p log (pure a) post := ⟨log, a, rfl, h⟩

/-- A question that opens no forward. -/
theorem works_call {q : Ask} {a : Reply q} (hanswer : goesWell p q = .ok a)
    (hquiet : opened [⟨q, .ok a⟩] = []) (ports : List UInt16) (h : opened log = ports) :
    Works p log (Dialogue.call q : M (Reply q)) fun log _ => opened log = ports := by
  refine ⟨log ++ [⟨q, .ok a⟩], a, ?_, ?_⟩
  · rw [Dialogue.play_call, hanswer]
  · dsimp only
    rw [opened_append, hquiet, List.append_nil, h]

theorem works_loadAll (paths : List Text) (ports : List UInt16) (h : opened log = ports) :
    Works p log (loadAll paths) fun log _ => opened log = ports := by
  induction paths generalizing log with
  | nil => exact works_pure h
  | cons path paths ih =>
    have hone : Works p log
        (do
          let _ ← Dialogue.call (Ask.load path)
          pure () : M Unit) fun log _ => opened log = ports :=
      works_bind (works_call rfl rfl ports h) fun _ _ h => works_pure h
    exact works_bind hone fun log _ h => ih h

/-- What holds after every run holds after this one. -/
theorem Works.and_after {prog : M α} {post : Log → α → Prop}
    {every : Log → Except String α → Prop} (h : Works p log prog post)
    (hevery : Dialogue.After every log prog) :
    Works p log prog fun log a => post log a ∧ every log (.ok a) := by
  obtain ⟨log', a, hplay, hpost⟩ := h
  refine ⟨log', a, hplay, hpost, ?_⟩
  have hrun := Dialogue.runs_play (goesWell p) log prog
  rw [hplay] at hrun
  exact Dialogue.after_iff.mp hevery log' (.ok a) hrun

theorem Works.runs {prog : M α} {post : Log → α → Prop} (h : Works p log prog post) :
    ∃ log' a, Dialogue.Runs log prog log' (.ok a) ∧ post log' a := by
  obtain ⟨log', a, hplay, hpost⟩ := h
  have hrun := Dialogue.runs_play (goesWell p) log prog
  rw [hplay] at hrun
  exact ⟨log', a, hrun, hpost⟩

/-! ### Through the forward -/

/-- The forward stands, and the library was told to go to it. -/
def Through (p : UInt16) (client : Client) (log : Log) (_ : Conn) : Prop :=
  opened log = [p] ∧ ∃ l ∈ links log, l.1.client = client ∧ l.1.addr = localAddr p

theorem works_dialling {d : Dial} (hopen : opened log = [p]) (haddr : d.addr = localAddr p)
    (encrypted : Bool) : Works p log (dialling d encrypted) (Through p d.client) := by
  refine ⟨log ++ [⟨.dial d, .ok false⟩], ⟨some (d, false), encrypted⟩, rfl, ?_, (d, false),
    ?_, rfl, haddr⟩
  · rw [opened_append, hopen]
    rfl
  · rw [links_append]
    exact List.mem_append_right _ List.mem_cons_self

theorem works_resolve (host : Text) (port : Nat) :
    Works p [] ((NetContext.new (some t)).resolve host port) fun log a =>
      opened log = [p] ∧ a = (localAddr p, ⟨some t, some p⟩) :=
  ⟨[⟨.openTunnel t host port, .ok p⟩], (localAddr p, ⟨some t, some p⟩), rfl, rfl, rfl⟩

theorem works_split {f : Text × Text → M β} {post : Log → β → Prop}
    (hf : Works p log (f (loopback, Nat.toDigits 10 p.toNat)) post) :
    Works p log (ofExcept (splitAddr (localAddr p)) >>= f) post := by
  rw [splitAddr_local]
  exact hf

theorem works_negotiate {prepare : Bool → NetContext → M (α × NetContext)}
    {attempt : Bool → α → M Conn} {refused : String → String} {post : Log → Conn → Prop}
    (good : Log → Bool → α → Prop)
    (hprepare : ∀ b, (b = true → spec.tls.wanted = true) →
      Works p log (prepare b net) fun log a => good log b a.1)
    (hattempt : ∀ log b a, good log b a → Works p log (attempt b a) post) :
    Works p log (negotiate spec.tls net prepare attempt refused) post := by
  unfold negotiate
  split
  · next hwanted =>
    apply works_bind (hprepare true fun _ => hwanted)
    intro log a h
    exact works_recover (hattempt log true a.1 h)
  · apply works_bind (hprepare false nofun)
    intro log a h
    exact hattempt log false a.1 h

theorem works_attempt {d : Dial} {b : Bool} {told : String → String} (hopen : opened log = [p])
    (haddr : d.addr = localAddr p) :
    Works p log (if b then dialling d true else (dialling d false).mapError told)
      (Through p d.client) := by
  split
  · exact works_dialling hopen haddr true
  · exact works_recover (works_dialling hopen haddr false)

theorem clientConfig_works {tls : TlsSpec} (hpair : tls.Paired) (ports : List UInt16)
    (h : opened log = ports) :
    Works p log (Postgres.clientConfig tls) fun log _ => opened log = ports := by
  unfold Postgres.clientConfig
  apply works_bind (works_loadAll _ ports h)
  intro log _ h
  dsimp only
  unfold TlsSpec.Paired at hpair
  split
  · exact works_bind (works_loadAll _ ports h) fun _ _ h => works_pure h
  · exact works_pure h
  · next hone htwo =>
    cases hcert : tls.clientCert with
    | none =>
      cases hkey : tls.clientKey with
      | none => exact absurd hkey (htwo hcert)
      | some key =>
        rw [hcert, hkey] at hpair
        cases hpair
    | some cert =>
      cases hkey : tls.clientKey with
      | none =>
        rw [hcert, hkey] at hpair
        cases hpair
      | some key => exact absurd hkey (hone cert key hcert)

theorem Postgres.works (hready : Kind.postgres.Ready src spec) :
    Works p [] (Postgres.connect src spec (NetContext.new (some t)))
      (Through p .tokioPostgres) := by
  obtain ⟨hhost, hdb, hlogin, hpair⟩ := hready
  unfold Postgres.connect Postgres.buildConfig
  simp only [bind_assoc, pure_bind]
  apply works_ofExcept hhost
  intro host _
  apply works_ofExcept hdb
  intro db _
  apply works_ofExcept hlogin
  intro login _
  apply works_bind (works_resolve _ _)
  rintro log _ ⟨hopen, rfl⟩
  apply works_split
  apply works_negotiate fun log _ _ => opened log = [p]
  · intro b hwanted
    dsimp only
    split
    · next hb =>
      apply works_bind (clientConfig_works (hpair (hwanted hb)) [p] hopen)
      intro log tls h
      exact works_pure h
    · exact works_pure hopen
  · intro log b tls h
    exact works_attempt h (address_local p _)

theorem Mysql.works (hready : Kind.mysql.Ready src spec) :
    Works p [] (Mysql.connect src spec (NetContext.new (some t))) (Through p .mysqlAsync) := by
  obtain ⟨hhost, hlogin⟩ := hready
  apply works_negotiate fun log _ d =>
    opened log = [p] ∧ d.client = .mysqlAsync ∧ d.addr = localAddr p
  · intro b _
    unfold Mysql.buildOpts
    apply works_ofExcept hhost
    intro host _
    apply works_ofExcept hlogin
    intro login _
    apply works_bind (works_resolve _ _)
    rintro log _ ⟨hopen, rfl⟩
    apply works_split
    exact works_pure ⟨hopen, rfl, address_local p _⟩
  · rintro log b d ⟨hopen, hclient, haddr⟩
    rw [← hclient]
    exact works_attempt hopen haddr

theorem Mongo.works (hready : Kind.mongodb.Ready src spec) :
    Works p [] (Mongo.connect src spec (NetContext.new (some t))) (Through p .mongodb) := by
  obtain ⟨hhost, hdb, hlogin⟩ := hready
  unfold Mongo.connect
  apply works_ofExcept hhost
  intro host _
  apply works_ofExcept hdb
  intro db _
  apply works_bind (works_resolve _ _)
  rintro log _ ⟨hopen, rfl⟩
  apply works_split
  apply works_ofExcept hlogin
  intro login _
  apply works_negotiate fun log _ _ => opened log = [p]
  · exact fun b _ => works_pure hopen
  · intro log b tls h
    exact works_dialling h (address_local p _) b

theorem Redis.works (hready : Kind.redis.Ready src spec) :
    Works p [] (Redis.connect src spec (NetContext.new (some t))) (Through p .redis) := by
  obtain ⟨hhost, hlogin⟩ := hready
  unfold Redis.connect Redis.attempts
  apply works_ofExcept hhost
  intro host _
  apply works_bind (works_resolve _ _)
  rintro log _ ⟨hopen, rfl⟩
  apply works_split
  apply works_ofExcept hlogin
  intro login _
  apply works_negotiate fun log _ _ => opened log = [p]
  · exact fun b _ => works_pure hopen
  · intro log b tls h
    unfold Redis.openCon
    apply works_bind (works_recover (works_call rfl rfl [p] h))
    intro log _ h
    exact works_recover (works_dialling h rfl b)

theorem Clickhouse.works (hready : Kind.clickhouse.Ready src spec) :
    Works p [] (Clickhouse.connect src spec (NetContext.new (some t))) (Through p .reqwest) := by
  obtain ⟨hhost, hlogin⟩ := hready
  unfold Clickhouse.connect
  apply works_ofExcept hhost
  intro host _
  apply works_bind (works_resolve _ _)
  rintro log _ ⟨hopen, rfl⟩
  apply works_ofExcept hlogin
  intro login _
  apply works_negotiate fun log _ _ => opened log = [p]
  · intro b _
    unfold Clickhouse.build
    apply works_bind (works_loadAll _ [p] hopen)
    intro log _ h
    apply works_bind (works_recover (works_call rfl rfl [p] h))
    intro log _ h
    exact works_pure h
  · intro log b tls h
    exact works_dialling h rfl b

theorem Mssql.works (hready : Kind.sqlserver.Ready src spec) :
    Works p [] (Mssql.connect src spec (NetContext.new (some t))) (Through p .tiberius) := by
  obtain ⟨hhost, hlogin⟩ := hready
  unfold Mssql.connect
  apply works_ofExcept hhost
  intro host _
  apply works_bind (works_resolve _ _)
  rintro log _ ⟨hopen, rfl⟩
  apply works_split
  apply works_ofExcept hlogin
  intro login _
  apply works_bind (works_recover (works_call rfl rfl [p] hopen))
  intro log _ h
  exact works_recover (works_dialling h (address_local p _) _)

theorem Cql.works (hready : Kind.scylla.Ready src spec) :
    Works p [] (Cql.connect src spec (NetContext.new (some t))) (Through p .scylla) := by
  obtain ⟨-, hhost, hlogin⟩ := hready
  have hcond : ¬ (spec.tls.required && !(NetContext.new (some t)).tunneled) = true := by
    rw [show (NetContext.new (some t)).tunneled = true from rfl, Bool.not_true, Bool.and_false]
    exact Bool.false_ne_true
  unfold Cql.connect
  rw [if_neg hcond]
  apply works_ofExcept hhost
  intro host _
  apply works_bind (works_resolve _ _)
  rintro log _ ⟨hopen, rfl⟩
  apply works_ofExcept hlogin
  intro login _
  exact works_recover (works_dialling hopen rfl false)

theorem Firebird.works (hready : Kind.firebird.Ready src spec) :
    Works p [] (Firebird.connect src spec (NetContext.new (some t)))
      (Through p .rsfbclient) := by
  obtain ⟨hhost, hdb, hlogin⟩ := hready
  unfold Firebird.connect
  apply works_ofExcept hhost
  intro host _
  apply works_ofExcept hdb
  intro db _
  apply works_bind (works_resolve _ _)
  rintro log _ ⟨hopen, rfl⟩
  apply works_ofExcept hlogin
  intro login _
  have haddr : Firebird.endpoint (localAddr p) host (spec.port 3050) = localAddr p := by
    rw [Firebird.endpoint, localAddr, rsplitOnce_address]
    exact address_local p _
  exact works_recover (works_dialling hopen haddr false)

/-- A driver that asks the context and has what it needs connects through the forward. -/
theorem connect_works {kind : Kind} {w : Profile} (hprofile : kind.profile = some w)
    (hready : kind.Ready src spec) :
    Works p [] (kind.connect src spec (NetContext.new (some t))) (Through p w.client) := by
  cases kind with
  | postgres | cockroachdb =>
    cases hprofile
    exact Postgres.works hready
  | mariadb | mysql =>
    cases hprofile
    exact Mysql.works hready
  | mongodb =>
    cases hprofile
    exact Mongo.works hready
  | redis =>
    cases hprofile
    exact Redis.works hready
  | clickhouse =>
    cases hprofile
    exact Clickhouse.works hready
  | sqlserver =>
    cases hprofile
    exact Mssql.works hready
  | cassandra | scylla =>
    cases hprofile
    exact Cql.works hready
  | firebird =>
    cases hprofile
    exact Firebird.works hready
  | sqlite | duckdb | snowflake => cases hprofile

/-! ### Past the context -/

theorem Snowflake.works (hready : Kind.snowflake.Ready src spec) :
    Works p [] (Snowflake.connect src spec) fun log _ => opened log = [] := by
  obtain ⟨haccount, huser, htoken⟩ := hready
  unfold Snowflake.connect
  apply works_ofExcept haccount
  intro account _
  apply works_ofExcept huser
  intro user _
  have hsigned : Works p [] (Snowflake.token src spec account user)
      fun log _ => opened log = [] := by
    unfold Snowflake.token
    unfold tokenReady at htoken
    split
    · apply works_bind (works_recover (works_call rfl rfl [] rfl))
      intro log _ h
      exact works_recover (works_call rfl rfl [] h)
    · next hauth =>
      rw [hauth] at htoken
      obtain ⟨a, ha⟩ := htoken
      rw [ha]
      exact ⟨[], a, rfl, rfl⟩
    · next hno hno' =>
      cases hauth : spec.auth with
      | clientCert => exact absurd hauth (hno _ _ _ _)
      | provider => exact absurd hauth (hno' _ _ _)
      | none | password | kerberos =>
        rw [hauth] at htoken
        exact htoken.elim
  apply works_bind hsigned
  intro log token h
  refine ⟨_, _, rfl, ?_⟩
  dsimp only
  rw [opened_append, h]
  rfl

theorem File.works {failed : String} (hready : Kind.sqlite.Ready src spec) :
    Works p [] (File.connect src spec failed) fun log _ => opened log = [] := by
  unfold File.connect
  apply works_ofExcept hready
  intro file _
  apply works_bind (works_recover (works_call rfl rfl [] rfl))
  intro log _ h
  exact works_pure h

/-- A driver that does not ask the context connects, and there is no forward. -/
theorem connect_passes {kind : Kind} (hprofile : kind.profile = none)
    (hready : kind.Ready src spec) :
    Works p [] (kind.connect src spec net) fun log _ => opened log = [] := by
  cases kind with
  | snowflake => exact Snowflake.works hready
  | sqlite | duckdb => exact File.works hready
  | postgres | cockroachdb | mariadb | mysql | mongodb | redis | clickhouse | sqlserver
  | cassandra | scylla | firebird => cases hprofile

/-- Firebird without a tunnel. -/
theorem Firebird.works_direct (hready : Kind.firebird.Ready src spec) :
    Works p [] (Firebird.connect src spec (NetContext.new none)) fun log _ =>
      opened log = [] ∧ links log ≠ [] := by
  obtain ⟨hhost, hdb, hlogin⟩ := hready
  unfold Firebird.connect
  apply works_ofExcept hhost
  intro host _
  apply works_ofExcept hdb
  intro db _
  rw [show (NetContext.new none).resolve host (spec.port 3050) =
    pure (address host (spec.port 3050), NetContext.new none) from rfl, pure_bind]
  apply works_ofExcept hlogin
  intro login _
  exact works_recover ⟨_, _, rfl, rfl, List.cons_ne_nil _ _⟩

/-! ### The server -/

/-- What the server answers. -/
def told (spec : ConnSpec) (id : Nat) (conn : Conn) : Opened :=
  ⟨conn, id, conn.encrypted || (NetContext.new spec.tunnel).tunneled,
    (NetContext.new spec.tunnel).tunneled⟩

theorem after_connect {post : Log → Except String Opened → Prop} (id : Nat)
    (hkind : ∀ kind, kindOf spec.driver = .ok kind →
      Dialogue.After (fun log r => post log (r.map (told spec id))) []
        (kind.connect src spec (NetContext.new spec.tunnel)))
    (hunknown : ∀ e, post [] (.error e)) : Dialogue.After post [] (connect src spec id) := by
  unfold connect
  cases h : kindOf spec.driver with
  | error e => exact hunknown e
  | ok kind =>
    apply (hkind kind h).bind
    · exact fun log conn hpost => hpost
    · exact fun log e hpost => hpost

theorem works_connect {kind : Kind} (post : Log → Opened → Prop) (id : Nat)
    (hkind : kindOf spec.driver = .ok kind)
    (h : Works p [] (kind.connect src spec (NetContext.new spec.tunnel)) fun log conn =>
      post log (told spec id conn)) : Works p [] (connect src spec id) post := by
  unfold connect
  rw [hkind]
  apply works_bind h
  exact fun log conn hpost => works_pure hpost

end LvimDb.Net
