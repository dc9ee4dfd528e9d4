import LvimDb.Lib.Dialogue
import LvimDb.Net.Spec

/-!
# The seam a driver dials through

`NetContext` of net.rs, and what a driver's `connect` asks its surroundings for: the SSH
forward, the links its client library opens, the files of certificates and of databases.
-/

namespace LvimDb.Net
open Secret (Text)
open Lib (Dialogue)

/-! ### Links -/

/-- The client libraries. -/
inductive Client
  | tokioPostgres
  | mysqlAsync
  | mongodb
  | redis
  | reqwest
  | tiberius
  | scylla
  | rsfbclient
  deriving DecidableEq

/-- What a client library is told about certificates. -/
structure TlsConfig where
  anyCert : Bool
  anyHostname : Bool
  ca : Option Text
  identity : Option (Text × Text)

/-- What a client library is told about TLS; with `preferred` the link may be plain. -/
inductive Security
  | off
  | preferred (tls : TlsConfig)
  | required (tls : TlsConfig)

/-- The credentials it is given. -/
structure Login where
  user : Option Text
  secret : Option Text

/-- A link that a client library is told to open. -/
structure Dial where
  client : Client
  addr : Text
  database : Option Text
  security : Security
  login : Option Login

/-- The link is TLS; the library says `negotiated` of one that may be plain. -/
def Dial.secured (d : Dial) (negotiated : Bool) : Bool :=
  match d.security with
  | .off => false
  | .preferred _ => negotiated
  | .required _ => true

/-! ### Questions -/

inductive Ask
  | openTunnel (spec : TunnelSpec) (host : Text) (port : Nat)
  | tcp (addr : Text)
  | dial (d : Dial)
  | load (path : Text)
  | openFile (path : Text)
  | url (text : Text)
  | httpClient (tls : Option TlsConfig)
  | sign (pem account user : Text)

/-- A forward has the local port it listens on, a link whether TLS was negotiated. -/
def Reply : Ask → Type
  | .openTunnel .. => UInt16
  | .tcp _ => Unit
  | .dial _ => Bool
  | .load _ => Text
  | .openFile _ => Unit
  | .url _ => Unit
  | .httpClient _ => Unit
  | .sign .. => Text

abbrev M := Dialogue Ask Reply String

abbrev Event := Dialogue.Event Ask Reply String

abbrev Log := List Event

def ofExcept {α : Type} (x : Except String α) : M α := .done x

/-- The local ports of the forwards that stand. -/
def opened (log : Log) : List UInt16 :=
  log.filterMap fun e =>
    match e with
    | ⟨.openTunnel .., .ok p⟩ => some p
    | _ => none

def dials (log : Log) : List Dial :=
  log.filterMap fun e =>
    match e with
    | ⟨.dial d, _⟩ => some d
    | _ => none

/-- The links that stand. -/
def links (log : Log) : List (Dial × Bool) :=
  log.filterMap fun e =>
    match e with
    | ⟨.dial d, .ok b⟩ => some (d, b)
    | _ => none

/-- Where a driver or its library went. -/
def addresses (log : Log) : List Text :=
  log.filterMap fun e =>
    match e with
    | ⟨.tcp addr, _⟩ => some addr
    | ⟨.dial d, _⟩ => some d.addr
    | _ => none

section append
variable (log log' : Log)

@[simp] theorem opened_append : opened (log ++ log') = opened log ++ opened log' :=
  List.filterMap_append

@[simp] theorem dials_append : dials (log ++ log') = dials log ++ dials log' :=
  List.filterMap_append

@[simp] theorem links_append : links (log ++ log') = links log ++ links log' :=
  List.filterMap_append

@[simp] theorem addresses_append : addresses (log ++ log') = addresses log ++ addresses log' :=
  List.filterMap_append

end append

/-! ### What the libraries do besides -/

/-- Where a client library goes by itself, once it is connected to an address: to the other nodes
of a cluster, or to a socket the server named. It takes the settings of the first link. -/
structure Library where
  further : Client → Text → List Text

namespace Library
variable (lib : Library)

def fan (l : Dial × Bool) : List (Dial × Bool) :=
  l :: (lib.further l.1.client l.1.addr).map fun addr => ({ l.1 with addr }, l.2)

/-- All the links that stand. -/
def links (log : Log) : List (Dial × Bool) := (Net.links log).flatMap lib.fan

/-- All that was dialled. -/
def dialled (log : Log) : List Dial := dials log ++ (lib.links log).map Prod.fst

/-- Where all the connections went. -/
def reached (log : Log) : List Text := addresses log ++ (lib.links log).map (·.1.addr)

end Library

theorem dials_of_links {log : Log} {l : Dial × Bool} (h : l ∈ links log) : l.1 ∈ dials log := by
  obtain ⟨e, he, hsome⟩ := List.mem_filterMap.mp h
  refine List.mem_filterMap.mpr ⟨e, he, ?_⟩
  split at hsome
  · cases hsome
    rfl
  · cases hsome

theorem addresses_of_dials {log : Log} {d : Dial} (h : d ∈ dials log) :
    d.addr ∈ addresses log := by
  obtain ⟨e, he, hsome⟩ := List.mem_filterMap.mp h
  refine List.mem_filterMap.mpr ⟨e, he, ?_⟩
  split at hsome
  · cases hsome
    rfl
  · cases hsome

/-- A further link has the settings of the one it comes from. -/
theorem Library.of_links {lib : Library} {log : Log} {l : Dial × Bool} (h : l ∈ lib.links log) :
    ∃ first ∈ Net.links log, l.1.security = first.1.security ∧ l.2 = first.2 ∧
      (l.1.addr = first.1.addr ∨ l.1.addr ∈ lib.further first.1.client first.1.addr) := by
  obtain ⟨first, hfirst, hl⟩ := List.mem_flatMap.mp h
  refine ⟨first, hfirst, ?_⟩
  rcases List.mem_cons.mp hl with rfl | hl
  · exact ⟨rfl, rfl, .inl rfl⟩
  · obtain ⟨addr, haddr, rfl⟩ := List.mem_map.mp hl
    exact ⟨rfl, rfl, .inr haddr⟩

theorem Library.mem_links {lib : Library} {log : Log} {l : Dial × Bool} (h : l ∈ Net.links log) :
    l ∈ lib.links log := List.mem_flatMap.mpr ⟨l, h, List.mem_cons_self⟩

theorem Library.further_links {lib : Library} {log : Log} {l : Dial × Bool} {addr : Text}
    (h : l ∈ Net.links log) (haddr : addr ∈ lib.further l.1.client l.1.addr) :
    ({ l.1 with addr }, l.2) ∈ lib.links log :=
  List.mem_flatMap.mpr
    ⟨l, h, List.mem_cons_of_mem l (List.mem_map.mpr ⟨addr, haddr, rfl⟩)⟩

/-! ### The context -/

structure NetContext where
  tunnel : Option TunnelSpec
  established : Option UInt16

namespace NetContext

def new (tunnel : Option TunnelSpec) : NetContext := ⟨tunnel, none⟩

def tunneled (net : NetContext) : Bool := net.tunnel.isSome

end NetContext

def loopback : Text := "127.0.0.1".toList

/-- `TunnelGuard::local_addr`. -/
def localAddr (p : UInt16) : Text := address loopback p.toNat

/-- `NetContext::resolve`. The forward is opened when the address is first asked for. -/
def NetContext.resolve (net : NetContext) (host : Text) (port : Nat) : M (Text × NetContext) :=
  match net.tunnel, net.established with
  | none, _ => pure (address host port, net)
  | some _, some p => pure (localAddr p, net)
  | some spec, none => do
    let p ← Dialogue.call (Ask.openTunnel spec host port)
    pure (localAddr p, { net with established := some p })

/-- The address cut in two, as most drivers do. -/
def splitAddr (addr : Text) : Except String (Text × Text) :=
  match rsplitOnce addr with
  | some parts => .ok parts
  | none => .error "net resolved a malformed address"

theorem splitAddr_local (p : UInt16) :
    splitAddr (localAddr p) = .ok (loopback, Nat.toDigits 10 p.toNat) := by
  rw [splitAddr, localAddr, rsplitOnce_address]

/-- A driver that cuts the forward's address dials the forward. -/
theorem address_local (p : UInt16) (default : Nat) :
    address loopback ((parseU16 (Nat.toDigits 10 p.toNat)).getD default) = localAddr p := by
  rw [parseU16_toDigits p.toNat_lt, Option.getD_some, localAddr]

/-! ### What a driver returns -/

/-- A file has no link. -/
structure Conn where
  link : Option (Dial × Bool)
  encrypted : Bool

/-- A link, and what the connection says of its encryption. -/
def dialling (d : Dial) (encrypted : Bool) : M Conn := do
  let negotiated ← Dialogue.call (Ask.dial d)
  pure ⟨some (d, negotiated), encrypted⟩

/-- The order of attempts of most drivers: with TLS where it is wanted, and without where it is
not or where it failed and is not required. `prepare` is done before each attempt and its
failure is final. -/
def negotiate {α : Type} (tls : TlsSpec) (net : NetContext)
    (prepare : Bool → NetContext → M (α × NetContext)) (attempt : Bool → α → M Conn)
    (refused : String → String) : M Conn :=
  if tls.wanted then do
    let (a, net) ← prepare true net
    (attempt true a).recover fun e =>
      if tls.required then throw (refused e)
      else do
        let (a, _) ← prepare false net
        attempt false a
  else do
    let (a, _) ← prepare false net
    attempt false a

end LvimDb.Net
