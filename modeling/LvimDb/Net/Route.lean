import LvimDb.Net.Posture

/-!
# A configured tunnel

A spec with a tunnel: a connect succeeds only where the forward stands and everything the driver
opened went to its local address, and `tunneled` is reported only then. It is so of the drivers
that ask the context; the flag is computed of the spec for all of them.
-/

namespace LvimDb.Net
open Secret (Text Sources)
open Lib (Dialogue)
open Lib.Dialogue (After Runs)

variable {src : Sources} {spec : ConnSpec} {w : Profile} {o : List UInt16} {log : Log}
variable {lib : Library}

/-! ### What must hold -/

/-- The forward stands, and every connection went to its local address. -/
structure Tunnelled (lib : Library) (log : Log) : Prop where
  established : opened log ≠ []
  all : ∀ a ∈ lib.reached log, Rides log a

structure Unbypassed (lib : Library) (log : Log) (done : Opened) : Prop where
  succeeds : Tunnelled lib log
  tunneled : done.tunneled = true → Tunnelled lib log
  encrypted : done.encrypted = true → done.conn.encrypted = true ∨ Tunnelled lib log

/-- A driver that can connect does not ask the context, or its library does not keep to it. -/
def Bypasses (lib : Library) (src : Sources) (spec : ConnSpec) : Prop :=
  ∃ kind, kindOf spec.driver = .ok kind ∧ kind.Ready src spec ∧
    ∀ w, kind.profile = some w → Strays lib w.client

theorem unbypassed {done : Opened} (h : Tunnelled lib log) : Unbypassed lib log done :=
  ⟨h, fun _ => h, fun _ => .inr h⟩

/-! ### The drivers that ask -/

theorem tunnelled_of_ends {conn : Conn} (ht : spec.tunnel.isSome = true)
    (hstray : ¬ Strays lib w.client) (h : Ends spec w log (.ok conn)) : Tunnelled lib log := by
  obtain ⟨⟨o, hacc⟩, hlink⟩ := h
  obtain ⟨l, hl, -⟩ := hlink conn rfl
  obtain ⟨p, ho, -⟩ := hacc.routed ht _ (addresses_of_dials (dials_of_links hl))
  refine ⟨?_, rides_of_account hacc ht hstray⟩
  rw [hacc.forward, ho]
  exact List.cons_ne_nil p []

theorem tunnelled_of_not_bypasses (ht : spec.tunnel.isSome = true)
    (hby : ¬ Bypasses lib src spec) (id : Nat) :
    After (fun log r => ∀ done, r = .ok done → Unbypassed lib log done) []
      (connect src spec id) := by
  apply after_connect id
  · intro kind hkind
    by_cases hready : kind.Ready src spec
    · have hasks : ∃ w, kind.profile = some w ∧ ¬ Strays lib w.client := by
        by_contra hcon
        exact hby ⟨kind, hkind, hready, fun w hw => by_contra fun hs => hcon ⟨w, hw, hs⟩⟩
      obtain ⟨w, hprofile, hstray⟩ := hasks
      apply (connect_ends hprofile).mono
      intro log r h done hdone
      cases r with
      | ok conn => exact unbypassed (tunnelled_of_ends ht hstray h)
      | error e => cases hdone
    · apply (connect_quits kind rfl hready).mono
      rintro log r ⟨-, e, rfl⟩ done hdone
      cases hdone
  · intro e done hdone
    cases hdone

/-! ### The others -/

theorem bypassed (ht : spec.tunnel.isSome = true) (hby : Bypasses lib src spec) (id : Nat) :
    ∃ log done, Runs [] (connect src spec id) log (.ok done) ∧ ¬ Unbypassed lib log done := by
  obtain ⟨t, ht⟩ := Option.isSome_iff_exists.mp ht
  obtain ⟨kind, hkind, hready, hwhy⟩ := hby
  cases hprofile : kind.profile with
  | none =>
    obtain ⟨log, done, hrun, hopen⟩ :=
      (works_connect (fun log _ => opened log = []) (p := 0) id hkind
        (connect_passes hprofile hready)).runs
    exact ⟨log, done, hrun, fun h => h.succeeds.established hopen⟩
  | some w =>
    obtain ⟨p, a, ha, hne⟩ := hwhy w hprofile
    have hworks : Works p [] (kind.connect src spec (NetContext.new spec.tunnel))
        (Through p w.client) := by
      rw [ht]
      exact connect_works hprofile hready
    obtain ⟨log, done, hrun, hopen, l, hl, hclient, haddr⟩ :=
      (works_connect (fun log done => Through p w.client log done.conn) id hkind hworks).runs
    refine ⟨log, done, hrun, fun h => ?_⟩
    have hfar : a ∈ lib.reached log := by
      apply List.mem_append_right
      rw [← haddr, ← hclient] at ha
      exact List.mem_map.mpr ⟨_, Library.further_links hl ha, rfl⟩
    obtain ⟨p', hp', hride⟩ := h.succeeds.all a hfar
    rw [hopen] at hp'
    rw [List.mem_singleton.mp hp'] at hride
    exact hne hride

def jump : TunnelSpec := ⟨"jump".toList, 22, "me".toList, .agent⟩

/-- A spec with a tunnel, of a driver that dials HTTPS by itself. -/
def cloud : ConnSpec where
  driver := "snowflake".toList
  params key :=
    if key = "account".toList then some "acme".toList
    else if key = "user".toList then some "app".toList
    else none
  auth := .provider "oauth".toList "token".toList []
  tls := ⟨.prefer, none, none, none⟩
  tunnel := some jump

def cloudDial : Dial :=
  ⟨.reqwest, "acme.snowflakecomputing.com:443".toList, none,
    .required ⟨false, false, none, none⟩, some ⟨none, some "token".toList⟩⟩

end LvimDb.Net
