import LvimDb.Lib.Uri
import LvimDb.Net.Test

/-!
# The URL of a Redis connection

The driver of Redis hands its library a URL. What a reader of URLs finds in it are the credentials,
the server and the database of the link that is meant, whatever characters a password has.
-/

namespace LvimDb.Net
open Secret (Text Sources)
open Lib (Dialogue)
open Lib.Dialogue (Asks Runs asks_call)
open Lib.Uri (cut decode parse escape Sound endsAuthority)

/-- What a URL says, as its reader understands it. -/
structure Said where
  tls : Bool
  login : Option (List UInt8 × List UInt8)
  host : Text
  port : Text
  db : Text
  insecure : Bool

def said (url : Text) : Option Said := (parse url).map fun u =>
  ⟨u.scheme = "rediss".toList,
    u.userinfo.map fun s => (cut ':' s).elim (decode s, []) fun p => (decode p.1, decode p.2),
    u.host, u.port, u.path.drop 1, u.fragment = some "insecure".toList⟩

def bytes (s : Text) : List UInt8 := (String.ofList s).toUTF8.toList

/-- The URL leads to the link, with its credentials. -/
structure Describes (s : Said) (d : Dial) : Prop where
  login : s.login = d.login.map fun l => (bytes (l.user.getD []), bytes (l.secret.getD []))
  addr : d.addr = s.host ++ ':' :: s.port
  database : d.database = some s.db

def urls (log : Log) : List Text :=
  log.filterMap fun e =>
    match e.q with
    | .url text => some text
    | _ => none

/-- A text that does not end the authority. -/
def Plain (s : Text) : Prop := '@' ∉ s ∧ ∀ c ∈ s, endsAuthority c = false

theorem plain_of_all {s : Text} (hat : '@' ∉ s) (hall : (s.all fun c => !endsAuthority c) = true) :
    Plain s :=
  ⟨hat, fun c hc => by simpa using List.all_eq_true.mp hall c hc⟩

/-! ### The escapes -/

def unreserved (c : Char) : Bool := c.isAlphanum || c ∈ ['-', '_', '.', '~']

theorem isAlphanum_lt {c : Char} (h : c.isAlphanum = true) : c.toNat < 128 := by
  delta Char.isAlphanum Char.isAlpha Char.isUpper Char.isLower Char.isDigit at h
  simp only [Bool.or_eq_true, Bool.and_eq_true, decide_eq_true_eq] at h
  have hval : c.toNat = c.val.toNat := rfl
  rw [hval]
  rcases h with (⟨-, h⟩ | ⟨-, h⟩) | ⟨-, h⟩
  · exact Nat.lt_of_le_of_lt (UInt32.le_iff_toNat_le.mp h) (by decide)
  · exact Nat.lt_of_le_of_lt (UInt32.le_iff_toNat_le.mp h) (by decide)
  · exact Nat.lt_of_le_of_lt (UInt32.le_iff_toNat_le.mp h) (by decide)

theorem sound_unreserved : Sound unreserved := by
  intro c h
  rcases Bool.or_eq_true_iff.mp h with h | h
  · refine ⟨isAlphanum_lt h, ?_⟩
    rintro rfl
    exact absurd h (by decide)
  · simp only [List.mem_cons, List.not_mem_nil, or_false, decide_eq_true_eq] at h
    rcases h with rfl | rfl | rfl | rfl <;> decide

theorem decode_pct (s : Text) : decode (Redis.pct s) = bytes s :=
  Lib.Uri.decode_escapes sound_unreserved (bytes s)

/-- A character that is written as an escape. -/
theorem notMem_pct {c : Char} (hc : unreserved c = false) (hpct : c ≠ '%')
    (hhex : Lib.Uri.hexValue c = none) (s : Text) : c ∉ Redis.pct s :=
  Lib.Uri.notMem_escapes hc hpct hhex (bytes s)

theorem pct_plain (s : Text) : ':' ∉ Redis.pct s ∧ '@' ∉ Redis.pct s ∧
    ∀ c ∈ Redis.pct s, endsAuthority c = false := by
  refine ⟨notMem_pct (by decide) (by decide) (by decide) s,
    notMem_pct (by decide) (by decide) (by decide) s, fun c hc => ?_⟩
  by_contra hends
  simp only [endsAuthority, Bool.not_eq_false, Bool.or_eq_true, decide_eq_true_eq] at hends
  rcases hends with (rfl | rfl) | rfl
  · exact notMem_pct (by decide) (by decide) (by decide) s hc
  · exact notMem_pct (by decide) (by decide) (by decide) s hc
  · exact notMem_pct (by decide) (by decide) (by decide) s hc

/-! ### The URL -/

variable {src : Sources} {spec : ConnSpec} {login : Option Login} {auth rhost rport db : Text}

/-- The credentials stand before the server, and are read back. -/
theorem auth_userinfo (h : Redis.auth src spec = .ok (login, auth)) :
    ∃ info : Option Text, auth = info.elim [] (· ++ ['@']) ∧
      (∀ s, info = some s → '@' ∉ s ∧ ∀ c ∈ s, endsAuthority c = false) ∧
      (info.map fun s => (cut ':' s).elim (decode s, []) fun p => (decode p.1, decode p.2)) =
        login.map fun l => (bytes (l.user.getD []), bytes (l.secret.getD [])) := by
  unfold Redis.auth at h
  split at h
  · next user password _ =>
    cases hpw : Secret.resolve src password with
    | error e =>
      rw [hpw] at h
      cases h
    | ok pw =>
      have hinfo : ∀ u : Text, (u = [] ∨ ∃ v, u = Redis.pct v) →
          '@' ∉ u ++ ':' :: Redis.pct pw ∧ ∀ c ∈ u ++ ':' :: Redis.pct pw,
            endsAuthority c = false := by
        intro u hu
        have hplain : '@' ∉ u ∧ ∀ c ∈ u, endsAuthority c = false := by
          rcases hu with rfl | ⟨v, rfl⟩
          · exact ⟨List.not_mem_nil, fun c hc => by cases hc⟩
          · exact (pct_plain v).2
        constructor
        · intro hc
          rcases List.mem_append.mp hc with hc | hc
          · exact hplain.1 hc
          · rcases List.mem_cons.mp hc with hc | hc
            · cases hc
            · exact (pct_plain pw).2.1 hc
        · intro c hc
          rcases List.mem_append.mp hc with hc | hc
          · exact hplain.2 c hc
          · rcases List.mem_cons.mp hc with rfl | hc
            · rfl
            · exact (pct_plain pw).2.2 c hc
      rw [hpw] at h
      dsimp only [bind, Except.bind] at h
      split at h
      · next hempty =>
        cases h
        refine ⟨some (':' :: Redis.pct pw), rfl, fun s hs => ?_, ?_⟩
        · cases hs
          exact hinfo [] (.inl rfl)
        · have hcut : cut ':' (':' :: Redis.pct pw) = some ([], Redis.pct pw) :=
            Lib.Uri.cut_append (a := []) List.not_mem_nil _
          have hnil : decode [] = bytes [] := by
            simp [bytes, decode, Lib.Uri.decodeFrom]
          simp only [Option.map_some, hcut, Option.elim_some, decode_pct, Option.getD_none,
            Option.getD_some, hnil]
      · cases h
        refine ⟨some (Redis.pct user ++ ':' :: Redis.pct pw), ?_, fun s hs => ?_, ?_⟩
        · simp
        · cases hs
          exact hinfo _ (.inr ⟨user, rfl⟩)
        · simp only [Option.map_some, Lib.Uri.cut_append (pct_plain user).1, Option.elim_some,
            decode_pct, Option.getD_some]
  · cases h
    refine ⟨none, rfl, fun s hs => ?_, rfl⟩
    cases hs

/-- The URL says what it was made of. -/
theorem said_url {encrypted : Bool} (h : Redis.auth src spec = .ok (login, auth))
    (hhost : Plain rhost) (hport : '@' ∉ rport ∧ ':' ∉ rport ∧ ∀ c ∈ rport, endsAuthority c = false)
    (hdb : ∀ c ∈ db, c ≠ '?' ∧ c ≠ '#') :
    said (Redis.url spec.tls encrypted auth rhost rport db) = some
      ⟨encrypted, login.map fun l => (bytes (l.user.getD []), bytes (l.secret.getD [])), rhost, rport,
        db, encrypted && !spec.tls.verifiesCert⟩ := by
  obtain ⟨info, rfl, hinfo, hlogin⟩ := auth_userinfo h
  let u : Lib.Uri.Parts := {
    scheme := if encrypted then "rediss".toList else "redis".toList
    userinfo := info
    host := rhost
    port := rport
    path := '/' :: db
    fragment := if encrypted && !spec.tls.verifiesCert then some "insecure".toList else none }
  have hproper : u.Proper := by
    refine ⟨?_, hinfo, hhost, hport, db, rfl, hdb⟩
    show ':' ∉ if encrypted then "rediss".toList else "redis".toList
    cases encrypted <;> decide
  have hurl : Redis.url spec.tls encrypted (info.elim [] (· ++ ['@'])) rhost rport db =
      u.compose := by
    unfold Redis.url Lib.Uri.Parts.compose
    cases encrypted with
    | true =>
      cases hv : spec.tls.verifiesCert with
      | true => simp [u, hv]
      | false => simp [u, hv]
    | false => simp [u]
  rw [hurl, said, Lib.Uri.parse_compose hproper, Option.map_some, hlogin]
  cases encrypted with
  | true =>
    cases hv : spec.tls.verifiesCert with
    | true => simp [u, hv]
    | false => simp [u, hv]
  | false => simp [u]

/-! ### Every run -/

/-- A question of the driver once it has its address. -/
def Meant (spec : ConnSpec) (login : Option Login) (rhost rport db : Text) : Ask → Prop
  | .url text => ∃ encrypted, said text = some
      ⟨encrypted, login.map fun l => (bytes (l.user.getD []), bytes (l.secret.getD [])), rhost, rport,
        db, encrypted && !spec.tls.verifiesCert⟩
  | .dial d => d.login = login ∧ d.addr = rhost ++ ':' :: rport ∧ d.database = some db
  | _ => False

theorem asks_openCon {text : Text} {d : Dial}
    (htext : Meant spec login rhost rport db (.url text))
    (hd : Meant spec login rhost rport db (.dial d)) (encrypted : Bool) :
    Asks (Meant spec login rhost rport db) (fun _ => True) (Redis.openCon text d encrypted) := by
  have hdial : Asks (Meant spec login rhost rport db) (fun _ => True) (dialling d encrypted) :=
    (asks_call hd).bind fun _ _ => trivial
  exact (asks_call htext).mapError.bind fun _ _ => hdial.mapError

theorem asks_attempts {net : NetContext} (h : Redis.auth src spec = .ok (login, auth))
    (hhost : Plain rhost) (hport : '@' ∉ rport ∧ ':' ∉ rport ∧ ∀ c ∈ rport, endsAuthority c = false)
    (hdb : ∀ c ∈ db, c ≠ '?' ∧ c ≠ '#') :
    Asks (Meant spec login rhost rport db) (fun _ => True)
      (Redis.attempts spec net login auth rhost rport db) := by
  have hone : ∀ (encrypted : Bool) (tls : Option TlsConfig),
      Asks (Meant spec login rhost rport db) (fun _ => True)
        (Redis.openCon (Redis.url spec.tls encrypted auth rhost rport db)
          ⟨.redis, rhost ++ ':' :: rport, some db, withTls tls, login⟩ encrypted) :=
    fun encrypted tls =>
      asks_openCon ⟨encrypted, said_url h hhost hport hdb⟩ ⟨rfl, rfl, rfl⟩ encrypted
  unfold Redis.attempts negotiate
  split
  · refine (hone true _).recover fun e => ?_
    split
    · trivial
    · exact hone false _
  · exact hone false _

theorem plain_digits (port : ℕ) : '@' ∉ Nat.toDigits 10 port ∧ ':' ∉ Nat.toDigits 10 port ∧
    ∀ c ∈ Nat.toDigits 10 port, endsAuthority c = false := by
  refine ⟨fun h => ?_, fun h => ?_, fun c h => ?_⟩
  · exact absurd (Lib.isDigit_toDigits h) (by decide)
  · exact absurd (Lib.isDigit_toDigits h) (by decide)
  · by_contra hends
    have hdigit := Lib.isDigit_toDigits h
    simp only [endsAuthority, Bool.not_eq_false, Bool.or_eq_true, decide_eq_true_eq] at hends
    rcases hends with (rfl | rfl) | rfl <;> exact absurd hdigit (by decide)

theorem urls_append (log log' : Log) : urls (log ++ log') = urls log ++ urls log' :=
  List.filterMap_append

/-- The address is known, and nothing has been dialled. -/
def Resolved (host : Text) (port : ℕ) (log : Log) (r : Except String (Text × NetContext)) : Prop :=
  (urls log = [] ∧ dials log = []) ∧ ∀ addr net, r = .ok (addr, net) →
    addr = address host port ∨ ∃ p, addr = localAddr p

theorem resolve_resolved (spec : ConnSpec) (host : Text) (port : ℕ) :
    Dialogue.After (Resolved host port) [] ((NetContext.new spec.tunnel).resolve host port) := by
  unfold NetContext.new NetContext.resolve
  cases spec.tunnel with
  | none =>
    refine ⟨⟨rfl, rfl⟩, fun addr net h => ?_⟩
    cases h
    exact .inl rfl
  | some t =>
    rintro (e | p)
    · refine ⟨⟨rfl, rfl⟩, fun addr net h => ?_⟩
      cases h
    · refine ⟨⟨rfl, rfl⟩, fun addr net h => ?_⟩
      cases h
      exact .inr ⟨p, rfl⟩

/-- A text made of one that is split. -/
theorem split_plain {host addr : Text} {port : ℕ} (hhost : Plain host)
    (haddr : addr = address host port ∨ ∃ p, addr = localAddr p)
    (hsplit : splitAddr addr = .ok (rhost, rport)) : Plain rhost ∧
      '@' ∉ rport ∧ ':' ∉ rport ∧ ∀ c ∈ rport, endsAuthority c = false := by
  rcases haddr with rfl | ⟨p, rfl⟩
  · rw [splitAddr, rsplitOnce_address] at hsplit
    cases hsplit
    exact ⟨hhost, plain_digits port⟩
  · rw [splitAddr_local] at hsplit
    cases hsplit
    exact ⟨plain_of_all (by decide) (by decide), plain_digits p.toNat⟩

theorem runs_ofExcept_bind {α β : Type} {x : Except String α} {f : α → M β} {log log' : Log}
    {r : Except String β} (h : Runs log (ofExcept x >>= f) log' r) :
    (∃ e, x = .error e ∧ log' = log) ∨ ∃ a, x = .ok a ∧ Runs log (f a) log' r := by
  cases x with
  | ok a => exact .inr ⟨a, rfl, h⟩
  | error e =>
    cases h
    exact .inl ⟨e, rfl, rfl⟩

/-- In every run of a Redis connect the URLs that the library is handed lead to the links that are
meant, and carry their credentials. -/
theorem urls_describe_dials {id : ℕ} {log : Log} {r : Except String Opened} {url : Text} {d : Dial}
    (hdriver : spec.driver = "redis".toList)
    (hhost : ∀ host, spec.paramOpt "host" = some host → Plain host)
    (hdb : ∀ db, spec.paramOpt "db" = some db → ∀ c ∈ db, c ≠ '?' ∧ c ≠ '#')
    (hrun : Runs [] (connect src spec id) log r) (hurl : url ∈ urls log) (hd : d ∈ dials log) :
    ∃ s, said url = some s ∧ Describes s d := by
  have hkind : kindOf spec.driver = .ok .redis := by
    rw [hdriver]
    rfl
  have hconn : ∃ r, Runs [] (Redis.connect src spec (NetContext.new spec.tunnel)) log r := by
    have hconnect : connect src spec id =
        (Redis.connect src spec (NetContext.new spec.tunnel) >>= fun conn =>
          pure ⟨conn, id, conn.encrypted || spec.tunnel.isSome, spec.tunnel.isSome⟩) := by
      unfold connect
      rw [hkind]
      rfl
    rw [hconnect] at hrun
    rcases Dialogue.runs_bind.mp hrun with ⟨mid, conn, hconn, hpure⟩ | ⟨e, hconn, -⟩
    · obtain ⟨rfl, -⟩ := runs_pure.mp hpure
      exact ⟨_, hconn⟩
    · exact ⟨_, hconn⟩
  obtain ⟨r, hconn⟩ := hconn
  unfold Redis.connect at hconn
  rcases runs_ofExcept_bind hconn with ⟨e, -, rfl⟩ | ⟨host, hparam, hconn⟩
  · cases hurl
  have hplain : Plain host := by
    apply hhost host
    unfold ConnSpec.param at hparam
    split at hparam
    · next v hv =>
      cases hparam
      exact hv
    · cases hparam
  have hdb' : ∀ c ∈ (spec.paramOpt "db").getD "0".toList, c ≠ '?' ∧ c ≠ '#' := by
    cases hsome : spec.paramOpt "db" with
    | none =>
      intro c hc
      obtain rfl := List.mem_singleton.mp hc
      decide
    | some db => exact hdb db hsome
  have hafter := Dialogue.after_iff.mp (resolve_resolved spec host (spec.port 6379))
  rcases Dialogue.runs_bind.mp hconn with ⟨mid, ⟨addr, net⟩, hresolve, hconn⟩ | ⟨e, hresolve, -⟩
  · obtain ⟨⟨hnourl, hnodial⟩, haddr⟩ := hafter mid _ hresolve
    have haddr := haddr addr net rfl
    rcases runs_ofExcept_bind hconn with ⟨e, -, rfl⟩ | ⟨⟨rhost, rport⟩, hsplit, hconn⟩
    · rw [hnourl] at hurl
      cases hurl
    rcases runs_ofExcept_bind hconn with ⟨e, -, rfl⟩ | ⟨⟨login, auth⟩, hauth, hconn⟩
    · rw [hnourl] at hurl
      cases hurl
    obtain ⟨hrhost, hrport⟩ := split_plain hplain haddr hsplit
    obtain ⟨⟨more, rfl, hmore⟩, -⟩ := (asks_attempts hauth hrhost hrport hdb').runs hconn
    rw [urls_append, hnourl, List.nil_append] at hurl
    rw [dials_append, hnodial, List.nil_append] at hd
    obtain ⟨e, he, hsome⟩ := List.mem_filterMap.mp hurl
    obtain ⟨⟨q, answer⟩, he', hsome'⟩ := List.mem_filterMap.mp hd
    have hmeant := hmore e he
    have hmeant' := hmore _ he'
    cases hq : e.q with
    | url text =>
      rw [hq] at hsome hmeant
      cases hsome
      obtain ⟨encrypted, hsaid⟩ := hmeant
      cases q with
      | dial d' =>
        cases hsome'
        obtain ⟨hlogin, hto, hbase⟩ := hmeant'
        refine ⟨_, hsaid, ?_, hto, hbase⟩
        rw [hlogin]
      | _ => cases hsome'
    | _ =>
      rw [hq] at hsome
      cases hsome
  · obtain ⟨⟨hnourl, -⟩, -⟩ := hafter log _ hresolve
    rw [hnourl] at hurl
    cases hurl

/-- A password with the characters that would end the parts of a URL. -/
def vault : ConnSpec where
  driver := "redis".toList
  params key := if key = "host".toList then some "db".toList else none
  auth := .password [] "p@s/w:#%".toList
  tls := ⟨.disable, none, none, none⟩
  tunnel := none

def vaultUrl : Text :=
  Redis.url vault.tls false (':' :: Redis.pct "p@s/w:#%".toList ++ ['@']) "db".toList
    "6379".toList "0".toList

def vaultDial : Dial :=
  ⟨.redis, "db:6379".toList, some "0".toList, .off, some ⟨none, some "p@s/w:#%".toList⟩⟩

theorem vault_run : Runs [] (connect noSources vault 1)
    [⟨.url vaultUrl, .ok ()⟩, ⟨.dial vaultDial, .ok false⟩]
    (.ok ⟨⟨some (vaultDial, false), false⟩, 1, false, false⟩) :=
  Dialogue.runs_play (goesWell 0) [] (connect noSources vault 1)

theorem urls_describe_dials_vault : ∃ s, said vaultUrl = some s ∧ Describes s vaultDial := by
  refine urls_describe_dials rfl ?_ ?_ vault_run ?_ ?_
  · intro host hhost
    cases hhost
    exact plain_of_all (by decide) (by decide)
  · intro db hdb
    cases hdb
  · exact List.mem_cons_self
  · exact List.mem_cons_self

end LvimDb.Net
