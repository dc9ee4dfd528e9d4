import LvimDb.Net.Drivers

/-!
# What a connect has opened

An account of a driver's run: at most one forward, and only where a tunnel is configured; with
a tunnel every dial is to the forward's local address; and where TLS is required a driver that
has it configures every dial so.
-/

namespace LvimDb.Net
open Secret (Text Sources)
open Lib (Dialogue)
open Lib.Dialogue (After)

variable {src : Sources} {spec : ConnSpec} {w : Profile} {o : List UInt16} {log : Log}
variable {α β : Type}

/-! ### The account -/

/-- A driver that asks the context: its client library, and whether it has TLS of its own. -/
structure Profile where
  client : Client
  native : Bool

/-- `o` are the ports of the forwards. -/
structure Account (spec : ConnSpec) (w : Profile) (o : List UInt16) (log : Log) : Prop where
  forward : opened log = o
  direct : spec.tunnel = none → o = []
  routed : spec.tunnel.isSome = true → ∀ a ∈ addresses log, ∃ p, o = [p] ∧ a = localAddr p
  secured : w.native = true → spec.tls.required = true →
    ∀ d ∈ dials log, ∃ c, d.security = .required c
  plain : w.native = false → ∀ d ∈ dials log, d.security = .off
  client : ∀ d ∈ dials log, d.client = w.client

/-- The context is about the spec's tunnel, and knows the forward. -/
structure Fits (spec : ConnSpec) (net : NetContext) (o : List UInt16) : Prop where
  tunnel : net.tunnel = spec.tunnel
  established : o = net.established.toList

/-- An address that a driver may dial. -/
def Leads (spec : ConnSpec) (o : List UInt16) (addr : Text) : Prop :=
  spec.tunnel.isSome = true → ∃ p, o = [p] ∧ addr = localAddr p

/-- A dial that a driver may make. -/
structure Allowed (spec : ConnSpec) (w : Profile) (o : List UInt16) (d : Dial) : Prop where
  leads : Leads spec o d.addr
  secured : w.native = true → spec.tls.required = true → ∃ c, d.security = .required c
  plain : w.native = false → d.security = .off
  client : d.client = w.client

theorem account_nil (spec : ConnSpec) (w : Profile) : Account spec w [] [] where
  forward := rfl
  direct _ := rfl
  routed _ a ha := by cases ha
  secured _ _ d hd := by cases hd
  plain _ d hd := by cases hd
  client d hd := by cases hd

theorem fits_new (spec : ConnSpec) : Fits spec (NetContext.new spec.tunnel) [] := ⟨rfl, rfl⟩

/-- A question that opens nothing. -/
theorem Account.quiet {e : Event} (h : Account spec w o log) (hopen : opened [e] = [])
    (hdial : dials [e] = []) (haddr : addresses [e] = []) :
    Account spec w o (log ++ [e]) where
  forward := by rw [opened_append, hopen, List.append_nil, h.forward]
  direct := h.direct
  routed ht a ha := by
    rw [addresses_append, haddr, List.append_nil] at ha
    exact h.routed ht a ha
  secured hn hr d hd := by
    rw [dials_append, hdial, List.append_nil] at hd
    exact h.secured hn hr d hd
  plain hn d hd := by
    rw [dials_append, hdial, List.append_nil] at hd
    exact h.plain hn d hd
  client d hd := by
    rw [dials_append, hdial, List.append_nil] at hd
    exact h.client d hd

theorem Account.tcp (h : Account spec w o log) {addr : Text} (hleads : Leads spec o addr)
    (r : Except String Unit) : Account spec w o (log ++ [⟨.tcp addr, r⟩]) where
  forward := by
    rw [opened_append, h.forward]
    exact List.append_nil o
  direct := h.direct
  routed ht a ha := by
    rw [addresses_append, List.mem_append] at ha
    rcases ha with ha | ha
    · exact h.routed ht a ha
    · obtain rfl := List.mem_singleton.mp ha
      exact hleads ht
  secured hn hr d hd := by
    have hnone : dials [⟨.tcp addr, r⟩] = [] := rfl
    rw [dials_append, hnone, List.append_nil] at hd
    exact h.secured hn hr d hd
  plain hn d hd := by
    have hnone : dials [⟨.tcp addr, r⟩] = [] := rfl
    rw [dials_append, hnone, List.append_nil] at hd
    exact h.plain hn d hd
  client d hd := by
    have hnone : dials [⟨.tcp addr, r⟩] = [] := rfl
    rw [dials_append, hnone, List.append_nil] at hd
    exact h.client d hd

theorem Account.dial (h : Account spec w o log) {d : Dial} (hd : Allowed spec w o d)
    (r : Except String Bool) : Account spec w o (log ++ [⟨.dial d, r⟩]) where
  forward := by
    rw [opened_append, h.forward]
    exact List.append_nil o
  direct := h.direct
  routed ht a ha := by
    rw [addresses_append, List.mem_append] at ha
    rcases ha with ha | ha
    · exact h.routed ht a ha
    · obtain rfl := List.mem_singleton.mp ha
      exact hd.leads ht
  secured hn hr d' hd' := by
    rw [dials_append, List.mem_append] at hd'
    rcases hd' with hd' | hd'
    · exact h.secured hn hr d' hd'
    · obtain rfl := List.mem_singleton.mp hd'
      exact hd.secured hn hr
  plain hn d' hd' := by
    rw [dials_append, List.mem_append] at hd'
    rcases hd' with hd' | hd'
    · exact h.plain hn d' hd'
    · obtain rfl := List.mem_singleton.mp hd'
      exact hd.plain hn
  client d' hd' := by
    rw [dials_append, List.mem_append] at hd'
    rcases hd' with hd' | hd'
    · exact h.client d' hd'
    · obtain rfl := List.mem_singleton.mp hd'
      exact hd.client

/-! ### Rules -/

/-- The account is kept, and what is returned is as `more` says. -/
def Kept (spec : ConnSpec) (w : Profile) (o : List UInt16) (more : Log → α → Prop) (log : Log)
    (r : Except String α) : Prop :=
  Account spec w o log ∧ ∀ a, r = .ok a → more log a

/-- A driver is done: the link it returns is one that was opened. -/
def Ends (spec : ConnSpec) (w : Profile) (log : Log) (r : Except String Conn) : Prop :=
  (∃ o, Account spec w o log) ∧
    ∀ conn, r = .ok conn → ∃ l ∈ links log, conn.link = some l

def linked (log : Log) (conn : Conn) : Prop := ∃ l ∈ links log, conn.link = some l

theorem ends_of_kept {p : M Conn} (h : After (Kept spec w o linked) log p) :
    After (Ends spec w) log p :=
  h.mono fun _ _ hk => ⟨⟨o, hk.1⟩, hk.2⟩

theorem ends_throw (h : Account spec w o log) (e : String) :
    After (Ends spec w) log (throw e : M Conn) :=
  ⟨⟨o, h⟩, fun _ hok => by cases hok⟩

/-- A calculation, before the rest of a driver. -/
theorem ends_ofExcept {x : Except String α} {f : α → M Conn} (h : Account spec w o log)
    (hf : ∀ a, x = .ok a → After (Ends spec w) log (f a)) :
    After (Ends spec w) log (ofExcept x >>= f) := by
  cases x with
  | ok a => exact hf a rfl
  | error e => exact ends_throw h e

theorem ends_bind {p : M α} {f : α → M Conn} {more : Log → α → Prop}
    (hp : After (Kept spec w o more) log p)
    (hf : ∀ log a, Account spec w o log → more log a → After (Ends spec w) log (f a)) :
    After (Ends spec w) log (p >>= f) := by
  apply hp.bind
  · intro log a hk
    exact hf log a hk.1 (hk.2 a rfl)
  · intro log e hk
    exact ⟨⟨o, hk.1⟩, fun _ hok => by cases hok⟩

theorem kept_bind {p : M α} {f : α → M β} {mid : Log → α → Prop} {more : Log → β → Prop}
    (hp : After (Kept spec w o mid) log p)
    (hf : ∀ log a, Account spec w o log → mid log a →
      After (Kept spec w o more) log (f a)) :
    After (Kept spec w o more) log (p >>= f) := by
  apply hp.bind
  · intro log a hk
    exact hf log a hk.1 (hk.2 a rfl)
  · intro log e hk
    exact ⟨hk.1, fun _ hok => by cases hok⟩

theorem kept_mapError {p : M α} {more : Log → α → Prop} {f : String → String}
    (hp : After (Kept spec w o more) log p) :
    After (Kept spec w o more) log (p.mapError f) := by
  rw [Dialogue.after_mapError]
  apply hp.mono
  intro log r hk
  refine ⟨hk.1, fun a ha => ?_⟩
  cases r with
  | ok b => exact hk.2 a ha
  | error e => cases ha

theorem kept_pure {a : α} {more : Log → α → Prop} (h : Account spec w o log)
    (hmore : more log a) : After (Kept spec w o more) log (pure a) :=
  ⟨h, fun b hb => by
    cases hb
    exact hmore⟩

/-- A question that opens nothing, whatever it comes to. -/
theorem kept_quiet {q : Ask} (h : Account spec w o log)
    (hopen : ∀ r, opened [⟨q, r⟩] = []) (hdial : ∀ r, dials [⟨q, r⟩] = [])
    (haddr : ∀ r, addresses [⟨q, r⟩] = []) :
    After (Kept spec w o fun _ _ => True) log (Dialogue.call q : M (Reply q)) :=
  fun r => ⟨h.quiet (hopen r) (hdial r) (haddr r), fun _ _ => trivial⟩

theorem loadAll_kept (paths : List Text) (h : Account spec w o log) :
    After (Kept spec w o fun _ _ => True) log (loadAll paths) := by
  induction paths generalizing log with
  | nil => exact kept_pure h trivial
  | cons path paths ih =>
    have hone : After (Kept spec w o fun _ _ => True) log
        (do
          let _ ← Dialogue.call (Ask.load path)
          pure () : M Unit) :=
      kept_bind (kept_quiet h (fun _ => rfl) (fun _ => rfl) fun _ => rfl) fun _ _ h _ =>
        kept_pure h trivial
    exact kept_bind hone fun log _ h _ => ih h

theorem dialling_kept {d : Dial} (h : Account spec w o log) (hd : Allowed spec w o d)
    (encrypted : Bool) : After (Kept spec w o linked) log (dialling d encrypted) := by
  intro r
  have hacc := h.dial hd r
  cases r with
  | error e => exact ⟨hacc, fun _ hok => by cases hok⟩
  | ok b =>
    refine ⟨hacc, fun conn hconn => ?_⟩
    cases hconn
    refine ⟨(d, b), ?_, rfl⟩
    rw [links_append]
    exact List.mem_append_right _ List.mem_cons_self

/-! ### The address -/

theorem resolve_ends {net : NetContext} {host : Text} {port : Nat}
    {f : Text × NetContext → M Conn} (h : Account spec w o log) (hfits : Fits spec net o)
    (hf : ∀ o log addr net', Account spec w o log → Fits spec net' o → Leads spec o addr →
      After (Ends spec w) log (f (addr, net'))) :
    After (Ends spec w) log (net.resolve host port >>= f) := by
  unfold NetContext.resolve
  split
  · next hnone =>
    refine hf o log _ net h hfits fun ht => ?_
    rw [← hfits.tunnel, hnone] at ht
    cases ht
  · next t p htunnel hest =>
    refine hf o log _ net h hfits fun _ => ⟨p, ?_, rfl⟩
    rw [hfits.established, hest]
    rfl
  · next t htunnel hest =>
    have hnil : o = [] := by rw [hfits.established, hest]; rfl
    have hsome : spec.tunnel = some t := by rw [← hfits.tunnel, htunnel]
    have hnone : addresses log = [] := by
      apply List.eq_nil_iff_forall_not_mem.mpr
      intro a ha
      obtain ⟨p, hp, -⟩ := h.routed (by rw [hsome]; rfl) a ha
      rw [hnil] at hp
      cases hp
    intro r
    cases r with
    | error e =>
      exact ⟨⟨o, h.quiet rfl rfl rfl⟩, fun _ hok => by cases hok⟩
    | ok p =>
      apply hf [p]
      · have hdials : dials (log ++ [⟨.openTunnel t host port, .ok p⟩]) = dials log := by
          rw [dials_append]
          exact List.append_nil _
        refine ⟨?_, fun hcon => ?_, fun _ a ha => ?_, ?_, ?_, ?_⟩
        · rw [opened_append, h.forward, hnil]
          rfl
        · rw [hsome] at hcon
          cases hcon
        · rw [addresses_append, hnone] at ha
          cases ha
        · rw [hdials]
          exact h.secured
        · rw [hdials]
          exact h.plain
        · rw [hdials]
          exact h.client
      · exact ⟨hfits.tunnel, rfl⟩
      · exact fun _ => ⟨p, rfl, rfl⟩

/-- The address that is made of the parts of one that leads to the forward leads there. -/
theorem Leads.address {addr rhost rport : Text} (h : Leads spec o addr)
    (hsplit : splitAddr addr = .ok (rhost, rport)) (default : Nat) :
    Leads spec o (address rhost ((parseU16 rport).getD default)) := by
  intro ht
  obtain ⟨p, ho, rfl⟩ := h ht
  rw [splitAddr_local] at hsplit
  cases hsplit
  exact ⟨p, ho, address_local p default⟩

theorem Leads.joined {addr rhost rport : Text} (h : Leads spec o addr)
    (hsplit : splitAddr addr = .ok (rhost, rport)) : Leads spec o (rhost ++ ':' :: rport) := by
  intro ht
  obtain ⟨p, ho, rfl⟩ := h ht
  rw [splitAddr_local] at hsplit
  cases hsplit
  exact ⟨p, ho, rfl⟩

/-! ### The attempts -/

/-- Where TLS is required the only attempt is the one with TLS. `inv` is what is known of the
forwards, `good` what `prepare` promises of what it makes. -/
theorem negotiate_ends {net : NetContext} {prepare : Bool → NetContext → M (α × NetContext)}
    {attempt : Bool → α → M Conn} {refused : String → String}
    (inv : List UInt16 → Prop) (good : List UInt16 → Bool → α → Prop)
    (h : Account spec w o log) (hfits : Fits spec net o) (hinv : inv o)
    (hprepare : ∀ b net o log (f : α × NetContext → M Conn), Account spec w o log →
      Fits spec net o → inv o →
      (∀ o log a net', Account spec w o log → Fits spec net' o → inv o → good o b a →
        After (Ends spec w) log (f (a, net'))) →
      After (Ends spec w) log (prepare b net >>= f))
    (hattempt : ∀ b a o log, Account spec w o log → inv o → good o b a →
      (spec.tls.required = true → b = true) →
      After (Kept spec w o linked) log (attempt b a)) :
    After (Ends spec w) log (negotiate spec.tls net prepare attempt refused) := by
  have hplain : ∀ net o log, Account spec w o log → Fits spec net o → inv o →
      spec.tls.required = false →
      After (Ends spec w) log (prepare false net >>= fun p => attempt false p.1) := by
    intro net o log h hfits hinv hreq
    apply hprepare false net o log _ h hfits hinv
    intro o log a net' h _ hinv hgood
    apply ends_of_kept
    apply hattempt false a o log h hinv hgood
    intro hcon
    rw [hreq] at hcon
    cases hcon
  unfold negotiate
  split
  · apply hprepare true net o log _ h hfits hinv
    intro o log a net' h hfits hinv hgood
    apply (hattempt true a o log h hinv hgood fun _ => rfl).recover
    · intro log conn hk
      exact ⟨⟨o, hk.1⟩, hk.2⟩
    · intro log e hk
      split
      · exact ends_throw hk.1 _
      · next hreq => exact hplain net' o log hk.1 hfits hinv (by simpa using hreq)
  · next hwanted =>
    apply hplain net o log h hfits hinv
    by_contra hreq
    rw [Bool.not_eq_false] at hreq
    exact hwanted (TlsSpec.wanted_of_required hreq)

end LvimDb.Net
