import LvimDb.Daemon.Client
import LvimDb.Net.Spec

/-!
# The spec of a request

What the engine makes of the parameters of `conn.connect` and of the spec in those of `conn.test`,
by the types of spec.rs. The client writes tables with named fields, so a struct that is given by
position is left out.
-/

namespace LvimDb.Net
open Secret (Text)
open Daemon (Json textOf)

namespace Deserialize
variable {α : Type} (t : List (String × Json)) (name : String) (read : Json → Option α)

def required : Option α := (t.lookup name).bind read

/-- A field with `#[serde(default)]`. -/
def defaulted (d : α) : Option α := (t.lookup name).elim (some d) read

def nullable : Json → Option (Option α)
  | .null => some none
  | j => (read j).map some

def string : Json → Option Text
  | .str s => some s.toList
  | _ => none

/-- The sign of a zero is not modelled: `-0`, which is no `u16`, is taken for `0`. -/
def u16 : Json → Option UInt16
  | .num q =>
    if q.den = 1 ∧ 0 ≤ q.num ∧ q.num < 65536 then some (UInt16.ofNat q.num.toNat) else none
  | _ => none

/-- `BTreeMap<String, String>`. -/
def stringMap : Json → Option (Text → Option Text)
  | .obj t =>
    if t.all fun field => ((t.lookup field.1).bind string).isSome then
      some fun key => (t.lookup (String.ofList key)).bind string
    else none
  | _ => none

end Deserialize

open Deserialize

def TlsMode.ofName (s : String) : Option TlsMode :=
  if s = "disable" then some .disable
  else if s = "prefer" then some .prefer
  else if s = "require" then some .require
  else if s = "verify_ca" then some .verifyCa
  else if s = "verify_full" then some .verifyFull
  else none

def TlsMode.deserialize : Json → Option TlsMode
  | .str s | .obj [(s, .null)] => TlsMode.ofName s
  | _ => none

def TlsSpec.deserialize : Json → Option TlsSpec
  | .obj t => do
    let mode ← defaulted t "mode" TlsMode.deserialize .prefer
    let ca ← defaulted t "ca" (nullable string) .none
    let clientCert ← defaulted t "client_cert" (nullable string) .none
    let clientKey ← defaulted t "client_key" (nullable string) .none
    some ⟨mode, ca, clientCert, clientKey⟩
  | _ => none

def AuthSpec.deserialize : Json → Option AuthSpec
  | .obj t =>
    let kind := textOf (t.lookup "kind")
    if kind = some "none" then some .none
    else if kind = some "password" then do
      let user ← defaulted t "user" string []
      let password ← defaulted t "password" string []
      some (.password user password)
    else if kind = some "client_cert" then do
      let cert ← required t "cert" string
      let key ← required t "key" string
      let keyPassword ← defaulted t "key_password" string []
      let user ← defaulted t "user" string []
      some (.clientCert cert key keyPassword user)
    else if kind = some "provider" then do
      let provider ← required t "provider" string
      let token ← defaulted t "token" string []
      let user ← defaulted t "user" string []
      some (.provider provider token user)
    else if kind = some "kerberos" then do
      let principal ← defaulted t "principal" (nullable string) .none
      some (.kerberos principal)
    else .none
  | _ => .none

def TunnelAuth.deserialize : Json → Option TunnelAuth
  | .obj t =>
    let kind := textOf (t.lookup "kind")
    if kind = some "agent" then some .agent
    else if kind = some "key" then do
      let path ← required t "path" string
      let passphrase ← defaulted t "passphrase" string []
      some (.key path passphrase)
    else if kind = some "password" then do
      let password ← defaulted t "password" string []
      some (.password password)
    else none
  | _ => none

def TunnelSpec.deserialize : Json → Option TunnelSpec
  | .obj t => do
    let host ← required t "host" string
    let port ← defaulted t "port" u16 22
    let user ← required t "user" string
    let auth ← required t "auth" TunnelAuth.deserialize
    some ⟨host, port, user, auth⟩
  | _ => none

def ConnSpec.deserialize : Json → Option ConnSpec
  | .obj t => do
    let driver ← required t "driver" string
    let params ← defaulted t "params" stringMap fun _ => none
    let auth ← defaulted t "auth" AuthSpec.deserialize .none
    let tls ← defaulted t "tls" TlsSpec.deserialize ⟨.prefer, none, none, none⟩
    let tunnel ← defaulted t "tunnel" (nullable TunnelSpec.deserialize) .none
    some ⟨driver, params, auth, tls, tunnel⟩
  | _ => none

end LvimDb.Net
