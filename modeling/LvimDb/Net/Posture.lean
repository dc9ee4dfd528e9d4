import LvimDb.Net.Works

/-!
# Required TLS

A spec that requires TLS: a connect fails, or every link it opened is TLS or goes to the SSH
forward, and credentials are given to such links only. The drivers without TLS of their own
decide it: one of them refuses to go without a tunnel, the other does not look.
-/

namespace LvimDb.Net
open Secret (Text Sources)
open Lib (Dialogue)
open Lib.Dialogue (After Runs)

variable {src : Sources} {spec : ConnSpec} {w : Profile} {o : List UInt16} {log : Log}
variable {lib : Library}

/-! ### What must hold -/

/-- The link's other end is a forward that stands. -/
def Rides (log : Log) (addr : Text) : Prop := ∃ p ∈ opened log, addr = localAddr p

structure Honoured (lib : Library) (log : Log) (r : Except String Opened) : Prop where
  link : ∀ done, r = .ok done → ∀ l ∈ lib.links log,
    l.1.secured l.2 = true ∨ Rides log l.1.addr
  login : ∀ d ∈ lib.dialled log, d.login.isSome = true →
    (∃ c, d.security = .required c) ∨ Rides log d.addr

/-- The library goes somewhere else than to the forward it was told to go to. -/
def Strays (lib : Library) (client : Client) : Prop :=
  ∃ p, ∃ a ∈ lib.further client (localAddr p), a ≠ localAddr p

/-- A driver without TLS of its own can connect, and there is no tunnel or its library does not
keep to it. -/
def Exposed (lib : Library) (src : Sources) (spec : ConnSpec) : Prop :=
  ∃ kind w, kindOf spec.driver = .ok kind ∧ kind.profile = some w ∧ w.native = false ∧
    kind.Ready src spec ∧ (spec.tunnel = none ∨ Strays lib w.client)

/-! ### Links that are covered -/

theorem honoured_of_required {r : Except String Opened}
    (h : ∀ d ∈ dials log, ∃ c, d.security = .required c) : Honoured lib log r := by
  have hlinks : ∀ l ∈ lib.links log, ∃ c, l.1.security = .required c := by
    intro l hl
    obtain ⟨first, hfirst, hsec, -⟩ := Library.of_links hl
    rw [hsec]
    exact h first.1 (dials_of_links hfirst)
  constructor
  · intro done _ l hl
    obtain ⟨c, hc⟩ := hlinks l hl
    left
    rw [Dial.secured, hc]
  · intro d hd _
    left
    rcases List.mem_append.mp hd with hd | hd
    · exact h d hd
    · obtain ⟨l, hl, rfl⟩ := List.mem_map.mp hd
      exact hlinks l hl

theorem honoured_of_rides {r : Except String Opened} (h : ∀ a ∈ lib.reached log, Rides log a) :
    Honoured lib log r := by
  have hlinks : ∀ l ∈ lib.links log, Rides log l.1.addr := fun l hl =>
    h _ (List.mem_append_right _ (List.mem_map.mpr ⟨l, hl, rfl⟩))
  constructor
  · exact fun done _ l hl => .inr (hlinks l hl)
  · intro d hd _
    right
    rcases List.mem_append.mp hd with hd | hd
    · exact h _ (List.mem_append_left _ (addresses_of_dials hd))
    · obtain ⟨l, hl, rfl⟩ := List.mem_map.mp hd
      exact hlinks l hl

/-- With a tunnel, and a library that keeps to it, every connection goes to the forward. -/
theorem rides_of_account (h : Account spec w o log) (ht : spec.tunnel.isSome = true)
    (hstray : ¬ Strays lib w.client) : ∀ a ∈ lib.reached log, Rides log a := by
  have hdirect : ∀ a ∈ addresses log, Rides log a := by
    intro a ha
    obtain ⟨p, ho, rfl⟩ := h.routed ht a ha
    refine ⟨p, ?_, rfl⟩
    rw [h.forward, ho]
    exact List.mem_singleton_self p
  intro a ha
  rcases List.mem_append.mp ha with ha | ha
  · exact hdirect a ha
  · obtain ⟨l, hl, rfl⟩ := List.mem_map.mp ha
    obtain ⟨first, hfirst, -, -, haddr⟩ := Library.of_links hl
    have hd := dials_of_links hfirst
    rcases haddr with haddr | haddr
    · rw [haddr]
      exact hdirect _ (addresses_of_dials hd)
    · obtain ⟨p, ho, hp⟩ := h.routed ht _ (addresses_of_dials hd)
      rw [h.client _ hd, hp] at haddr
      refine ⟨p, ?_, ?_⟩
      · rw [h.forward, ho]
        exact List.mem_singleton_self p
      · by_contra hne
        exact hstray ⟨p, _, haddr, hne⟩

/-! ### The promise -/

theorem honoured_of_not_exposed (hreq : spec.tls.required = true)
    (hexp : ¬ Exposed lib src spec) (id : Nat) :
    After (Honoured lib) [] (connect src spec id) := by
  apply after_connect id
  · intro kind hkind
    cases hprofile : kind.profile with
    | none => exact (connect_covered hprofile).mono fun _ _ h => honoured_of_required h
    | some w =>
      by_cases hready : kind.Ready src spec
      · apply (connect_ends hprofile).mono
        rintro log r ⟨⟨o, h⟩, -⟩
        cases hnative : w.native with
        | true => exact honoured_of_required (h.secured hnative hreq)
        | false =>
          have hno : ¬ (spec.tunnel = none ∨ Strays lib w.client) := fun hcon =>
            hexp ⟨kind, w, hkind, hprofile, hnative, hready, hcon⟩
          have ht : spec.tunnel.isSome = true := by
            rw [Option.isSome_iff_ne_none]
            exact fun hcon => hno (.inl hcon)
          exact honoured_of_rides (rides_of_account h ht fun hcon => hno (.inr hcon))
      · apply (connect_quits kind rfl hready).mono
        rintro log r ⟨hdials, -⟩
        apply honoured_of_required
        intro d hd
        rw [hdials] at hd
        cases hd
  · intro e
    apply honoured_of_required
    intro d hd
    cases hd

/-- A plain link that does not go to the forward breaks the promise. -/
theorem broken_link {done : Opened} {l : Dial × Bool} (hl : l ∈ lib.links log)
    (hoff : l.1.security = .off) (hride : ¬ Rides log l.1.addr) :
    ¬ Honoured lib log (.ok done) := by
  intro h
  rcases h.link done rfl l hl with hsec | hride'
  · rw [Dial.secured, hoff] at hsec
    cases hsec
  · exact hride hride'

theorem broken_of_exposed (hreq : spec.tls.required = true) (hexp : Exposed lib src spec)
    (id : Nat) :
    ∃ log done, Runs [] (connect src spec id) log (.ok done) ∧
      ¬ Honoured lib log (.ok done) := by
  obtain ⟨kind, w, hkind, hprofile, hnative, hready, hwhy⟩ := hexp
  have hends : After (Ends spec w) [] (kind.connect src spec (NetContext.new spec.tunnel)) :=
    connect_ends hprofile
  cases ht : spec.tunnel with
  | none =>
    -- only Firebird goes on without a tunnel
    have hfirebird : kind = .firebird := by
      cases kind with
      | firebird => rfl
      | cassandra | scylla => exact absurd ⟨hreq, ht⟩ hready.1
      | postgres | cockroachdb | mariadb | mysql | mongodb | redis | clickhouse | sqlserver =>
        cases hprofile
        cases hnative
      | sqlite | duckdb | snowflake => cases hprofile
    subst hfirebird
    have hworks : Works 0 [] (Kind.firebird.connect src spec (NetContext.new spec.tunnel))
        fun log _ => opened log = [] ∧ links log ≠ [] := by
      rw [ht]
      exact Firebird.works_direct hready
    obtain ⟨log, done, hrun, ⟨hopen, hlinks⟩, ⟨o, h⟩, -⟩ :=
      (works_connect (fun log done => (opened log = [] ∧ links log ≠ []) ∧
        Ends spec w log (.ok done.conn)) id hkind (hworks.and_after hends)).runs
    obtain ⟨l, hl⟩ := List.exists_mem_of_ne_nil _ hlinks
    refine ⟨log, done, hrun, broken_link (Library.mem_links hl) ?_ ?_⟩
    · exact h.plain hnative _ (dials_of_links hl)
    · rintro ⟨p, hp, -⟩
      rw [hopen] at hp
      cases hp
  | some t =>
    have hstray : Strays lib w.client := by
      rcases hwhy with hnone | hstray
      · rw [ht] at hnone
        cases hnone
      · exact hstray
    obtain ⟨p, a, ha, hne⟩ := hstray
    have hworks : Works p [] (kind.connect src spec (NetContext.new spec.tunnel))
        (Through p w.client) := by
      rw [ht]
      exact connect_works hprofile hready
    obtain ⟨log, done, hrun, ⟨hopen, l, hl, hclient, haddr⟩, ⟨o, h⟩, -⟩ :=
      (works_connect (fun log done => Through p w.client log done.conn ∧
        Ends spec w log (.ok done.conn)) id hkind (hworks.and_after hends)).runs
    have hfar : ({ l.1 with addr := a }, l.2) ∈ lib.links log := by
      apply Library.further_links hl
      rw [hclient, haddr]
      exact ha
    refine ⟨log, done, hrun, broken_link hfar ?_ ?_⟩
    · exact h.plain hnative l.1 (dials_of_links hl)
    · rintro ⟨p', hp', hride⟩
      rw [hopen] at hp'
      rw [List.mem_singleton.mp hp'] at hride
      exact hne hride

/-- A spec that requires TLS, of a driver that has none. -/
def bare : ConnSpec where
  driver := "firebird".toList
  params key :=
    if key = "host".toList then some "db".toList
    else if key = "database".toList then some "main".toList
    else none
  auth := .password "app".toList "pw".toList
  tls := ⟨.verifyFull, none, none, none⟩
  tunnel := none

def noSources : Sources where
  env _ := none
  cmd _ := .error "no shell"
  vault _ := .error "no agent"

/-- A library that goes nowhere else. -/
def plainLibrary : Library := ⟨fun _ _ => []⟩

def bareDial : Dial :=
  ⟨.rsfbclient, "db:3050".toList, some "main".toList, .off,
    some ⟨some "app".toList, some "pw".toList⟩⟩

end LvimDb.Net
