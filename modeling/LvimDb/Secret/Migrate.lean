import Mathlib.Data.List.Nodup
import Mathlib.Logic.Function.Basic
import LvimDb.Secret.Grammar

/-!
# Moving secrets to the wallet

`M.scan` and `M.migrate` of keyring.lua: the saved connections are searched for secrets in the
clear, the wallet's plugin is handed them, and every field whose name it reports as stored or
as skipped is replaced by a template that asks the wallet for that name.
-/

namespace LvimDb.Secret

/-! ### Saved connections -/

/-- A credential field, by its path inside the spec. -/
inductive Field
  | password
  | token
  | keyPassword
  | tunnelPassphrase
  | tunnelPassword
  deriving DecidableEq

/-- The last part of the path. -/
def Field.key : Field → Text
  | .password | .tunnelPassword => "password".toList
  | .token => "token".toList
  | .keyPassword => "key_password".toList
  | .tunnelPassphrase => "passphrase".toList

/-- `spec` has the fields that are strings. -/
structure Saved where
  name : Text
  driver : Text
  spec : Field → Option Text

/-- The store keeps one connection under a name. -/
structure Book where
  conns : List Saved
  distinct : (conns.map Saved.name).Nodup

/-! ### The scan -/

/-- `LvimDbSecretHit`. -/
structure Hit where
  conn : Text
  driver : Text
  field : Field
  value : Text
  vaultName : Text
  deriving DecidableEq

/-- `"db/" .. c.name`. -/
def base (c : Saved) : Text := "db/".toList ++ c.name

/-- The wallet's name for an auth field: the first has the connection's, the others a suffix. -/
def authName (c : Saved) (primaryTaken : Bool) (f : Field) : Text :=
  if primaryTaken then
    base c ++ ['-'] ++ f.key.map fun ch => if ch = '_' then '-' else ch
  else base c

/-- A field that is a secret in the clear. -/
def clear (c : Saved) (f : Field) : Option Text := (c.spec f).filter (isPlaintext ·)

/-- The loop over the auth fields. -/
def scanAuth (c : Saved) : Bool → List Field → List Hit
  | _, [] => []
  | taken, f :: fs =>
    match clear c f with
    | some v => ⟨c.name, c.driver, f, v, authName c taken f⟩ :: scanAuth c true fs
    | none => scanAuth c taken fs

/-- The loop over the tunnel's fields. -/
def scanTunnel (c : Saved) : List Field → List Hit
  | [] => []
  | f :: fs =>
    match clear c f with
    | some v => ⟨c.name, c.driver, f, v, base c ++ "-tunnel".toList⟩ :: scanTunnel c fs
    | none => scanTunnel c fs

def authFields : List Field := [.password, .token, .keyPassword]

def tunnelFields : List Field := [.tunnelPassphrase, .tunnelPassword]

def scanOf (c : Saved) : List Hit :=
  scanAuth c false authFields ++ scanTunnel c tunnelFields

/-- `M.scan`. -/
def scan (conns : List Saved) : List Hit := conns.flatMap scanOf

/-! ### The plugin and the wallet -/

/-- What lvim-keyring's `migrate` reports, by the names of the candidates. -/
structure Outcome where
  stored : List Text
  skipped : List Text
  failed : List Text

abbrev Wallet := Text → Option Text

/-- The wallet after the plugin is done: a candidate that was stored is under its name. There is
no outcome where the user cancelled. -/
def Wallet.after (w : Wallet) (hits : List Hit) (o : Option Outcome) : Wallet := fun n =>
  match o with
  | none => w n
  | some x =>
    if n ∈ x.stored then
      match hits.find? (·.vaultName = n) with
      | some h => some h.value
      | none => w n
    else w n

/-- What does not change while secrets are moved; `missing` is the agent's error for a name the
wallet does not have. -/
structure World where
  env : Text → Option Text
  cmd : Text → Except String Text
  missing : Text → String

/-- `vault::fetch` gives the value as the wallet has it. -/
def World.sources (k : World) (w : Wallet) : Sources where
  env := k.env
  cmd := k.cmd
  vault n :=
    match w n with
    | some v => .ok v
    | none => .error (k.missing n)

/-! ### The rewrite -/

def Outcome.landed (x : Outcome) (n : Text) : Bool := n ∈ x.stored || n ∈ x.skipped

/-- The template that asks the wallet for a name. -/
def vaultTemplate (n : Text) : Text := opening ++ " vault \"".toList ++ n ++ "\" ".toList ++ closing

def setField (c : Saved) (f : Field) (v : Text) : Saved :=
  { c with spec := Function.update c.spec f (some v) }

/-- The hits of a connection that landed, written into its spec. -/
def rewrite (x : Outcome) (hits : List Hit) (c : Saved) : Saved :=
  hits.foldl (fun c h =>
    if h.conn = c.name ∧ x.landed h.vaultName = true then
      setField c h.field (vaultTemplate h.vaultName)
    else c) c

/-- `M.migrate` on what the store has; `saves` says of which connections the spec is saved. -/
def migrated (saves : Text → Bool) (o : Option Outcome) (conns : List Saved) : List Saved :=
  match o with
  | none => conns
  | some x => conns.map fun c => if saves c.name then rewrite x (scan conns) c else c

theorem rewrite_name (x : Outcome) (hits : List Hit) (c : Saved) :
    (rewrite x hits c).name = c.name := by
  induction hits generalizing c with
  | nil => rfl
  | cons h hits ih =>
    rw [rewrite, List.foldl_cons]
    split
    · exact ih _
    · exact ih _

def migrate (saves : Text → Bool) (o : Option Outcome) (b : Book) : Book where
  conns := migrated saves o b.conns
  distinct := by
    have hnames : (migrated saves o b.conns).map Saved.name = b.conns.map Saved.name := by
      unfold migrated
      split
      · rfl
      · rw [List.map_map]
        refine List.map_congr_left fun c _ => ?_
        dsimp only [Function.comp]
        split
        · exact rewrite_name _ _ _
        · rfl
    rw [hnames]
    exact b.distinct

/-! ### What the scan finds -/

/-- The hits of the auth fields go through the fields in order. -/
theorem scanAuth_fields (c : Saved) (taken : Bool) (fs : List Field) :
    List.Sublist ((scanAuth c taken fs).map Hit.field) fs := by
  induction fs generalizing taken with
  | nil => exact List.Sublist.refl _
  | cons f fs ih =>
    rw [scanAuth]
    split
    · exact (ih true).cons_cons f
    · exact (ih taken).cons f

theorem scanTunnel_fields (c : Saved) (fs : List Field) :
    List.Sublist ((scanTunnel c fs).map Hit.field) fs := by
  induction fs with
  | nil => exact List.Sublist.refl _
  | cons f fs ih =>
    rw [scanTunnel]
    split
    · exact ih.cons_cons f
    · exact ih.cons f

theorem scanOf_nodup (c : Saved) : ((scanOf c).map Hit.field).Nodup := by
  rw [scanOf, List.map_append]
  have hall : (authFields ++ tunnelFields).Nodup := by decide
  exact hall.sublist ((scanAuth_fields c false _).append (scanTunnel_fields c _))

/-- A hit is about a field of the connection, and has its text. -/
theorem scanAuth_hit {c : Saved} {taken : Bool} {fs : List Field} {h : Hit}
    (hmem : h ∈ scanAuth c taken fs) : h.conn = c.name ∧ clear c h.field = some h.value := by
  induction fs generalizing taken with
  | nil => cases hmem
  | cons f fs ih =>
    rw [scanAuth] at hmem
    split at hmem
    · next v hv =>
      rcases List.mem_cons.mp hmem with rfl | hrest
      · exact ⟨rfl, hv⟩
      · exact ih hrest
    · exact ih hmem

theorem scanTunnel_hit {c : Saved} {fs : List Field} {h : Hit}
    (hmem : h ∈ scanTunnel c fs) : h.conn = c.name ∧ clear c h.field = some h.value := by
  induction fs with
  | nil => cases hmem
  | cons f fs ih =>
    rw [scanTunnel] at hmem
    split at hmem
    · next v hv =>
      rcases List.mem_cons.mp hmem with rfl | hrest
      · exact ⟨rfl, hv⟩
      · exact ih hrest
    · exact ih hmem

theorem scanOf_hit {c : Saved} {h : Hit} (hmem : h ∈ scanOf c) :
    h.conn = c.name ∧ c.spec h.field = some h.value := by
  have hhit : h.conn = c.name ∧ clear c h.field = some h.value := by
    rcases List.mem_append.mp hmem with hauth | htunnel
    · exact scanAuth_hit hauth
    · exact scanTunnel_hit htunnel
  exact ⟨hhit.1, (Option.filter_eq_some_iff.mp hhit.2).1⟩

theorem scan_hit {conns : List Saved} {h : Hit} (hmem : h ∈ scan conns) :
    ∃ c ∈ conns, h.conn = c.name ∧ c.spec h.field = some h.value := by
  obtain ⟨c, hc, hof⟩ := List.mem_flatMap.mp hmem
  exact ⟨c, hc, scanOf_hit hof⟩

/-- Two saved connections of one name are the same. -/
theorem Book.eq_of_name {b : Book} {c c' : Saved} (hc : c ∈ b.conns) (hc' : c' ∈ b.conns)
    (h : c.name = c'.name) : c = c' :=
  List.inj_on_of_nodup_map b.distinct hc hc' h

/-- A field of a connection is found once. -/
theorem Book.eq_of_field {b : Book} {h h' : Hit} (hmem : h ∈ scan b.conns)
    (hmem' : h' ∈ scan b.conns) (hconn : h.conn = h'.conn) (hfield : h.field = h'.field) :
    h = h' := by
  obtain ⟨c, hc, hof⟩ := List.mem_flatMap.mp hmem
  obtain ⟨c', hc', hof'⟩ := List.mem_flatMap.mp hmem'
  have hsame : c = c' := by
    apply b.eq_of_name hc hc'
    rw [← (scanOf_hit hof).1, ← (scanOf_hit hof').1, hconn]
  subst hsame
  exact List.inj_on_of_nodup_map (scanOf_nodup c) hof hof' hfield

/-! ### What the rewrite leaves -/

/-- The hit is written into the spec: its name landed. -/
def Hit.Lands (x : Outcome) (h : Hit) (c : Saved) (f : Field) : Prop :=
  h.conn = c.name ∧ h.field = f ∧ x.landed h.vaultName = true

theorem rewrite_cons (x : Outcome) (h : Hit) (hits : List Hit) (c : Saved) :
    rewrite x (h :: hits) c =
      rewrite x hits (if h.conn = c.name ∧ x.landed h.vaultName = true then
        setField c h.field (vaultTemplate h.vaultName) else c) := rfl

/-- A field for which no hit landed keeps its text. -/
theorem rewrite_other {x : Outcome} {hits : List Hit} {c : Saved} {f : Field}
    (hno : ∀ h ∈ hits, ¬ h.Lands x c f) : (rewrite x hits c).spec f = c.spec f := by
  induction hits generalizing c with
  | nil => rfl
  | cons h hits ih =>
    have hhead := hno h List.mem_cons_self
    have hrest : ∀ h' ∈ hits, ¬ h'.Lands x c f := fun h' hmem =>
      hno h' (List.mem_cons_of_mem h hmem)
    rw [rewrite_cons]
    split
    · next hcond =>
      have hfield : f ≠ h.field := fun heq => hhead ⟨hcond.1, heq.symm, hcond.2⟩
      have hkeep := ih (c := setField c h.field (vaultTemplate h.vaultName)) hrest
      rw [hkeep]
      exact Function.update_of_ne hfield _ _
    · exact ih hrest

/-- A field for which just one hit landed has the template of its name. -/
theorem rewrite_landed {x : Outcome} {hits : List Hit} {c : Saved} {f : Field} {h : Hit}
    (hmem : h ∈ hits) (hlands : h.Lands x c f) (honly : ∀ h' ∈ hits, h'.Lands x c f → h' = h) :
    (rewrite x hits c).spec f = some (vaultTemplate h.vaultName) := by
  induction hits generalizing c with
  | nil => cases hmem
  | cons h₀ hits ih =>
    rw [rewrite_cons]
    by_cases hagain : h ∈ hits
    · have honly' : ∀ h' ∈ hits, h'.Lands x c f → h' = h := fun h' hm =>
        honly h' (List.mem_cons_of_mem h₀ hm)
      split
      · exact ih hagain hlands honly'
      · exact ih hagain hlands honly'
    · have hfirst : h = h₀ := (List.mem_cons.mp hmem).resolve_right hagain
      subst hfirst
      have hno : ∀ h' ∈ hits, ¬ h'.Lands x c f := by
        intro h' hm hl
        rw [honly h' (List.mem_cons_of_mem h hm) hl] at hm
        exact hagain hm
      rw [if_pos ⟨hlands.1, hlands.2.2⟩]
      obtain ⟨-, hfield, -⟩ := hlands
      subst hfield
      have hkeep := rewrite_other (c := setField c h.field (vaultTemplate h.vaultName)) hno
      rw [hkeep]
      exact Function.update_self _ _ _

theorem migrate_mem {saves : Text → Bool} {x : Outcome} {b : Book} {c : Saved}
    (hc : c ∈ b.conns) :
    (if saves c.name then rewrite x (scan b.conns) c else c) ∈
      (migrate saves (some x) b).conns :=
  List.mem_map.mpr ⟨c, hc, rfl⟩

/-- The connection of a name is what the rewrite made of the one that had it. -/
theorem migrate_of_name {saves : Text → Bool} {x : Outcome} {b : Book} {c c' : Saved}
    (hc : c ∈ b.conns) (hc' : c' ∈ (migrate saves (some x) b).conns) (h : c'.name = c.name) :
    c' = if saves c.name then rewrite x (scan b.conns) c else c := by
  have hname : (if saves c.name then rewrite x (scan b.conns) c else c).name = c.name := by
    split
    · exact rewrite_name _ _ _
    · rfl
  exact Book.eq_of_name hc' (migrate_mem hc) (h.trans hname.symm)

/-! ### What the wallet is asked for -/

/-- The name a text asks the wallet for. -/
def fetches (v : Text) : Option Text :=
  match read v with
  | .template inner =>
    match splitVerb inner with
    | .ok (verb, arg) => if verb = "vault".toList then some arg else none
    | .error _ => none
  | .empty => none
  | .literal _ => none

theorem resolve_fetches {v n : Text} (h : fetches v = some n) (src : Sources) :
    resolve src v = src.vault n := by
  unfold fetches at h
  split at h
  · next inner hread =>
    split at h
    · next verb arg hsplit =>
      split at h
      · next hverb =>
        cases h
        have henv : verb ≠ "env".toList := by
          rw [hverb]
          decide
        have hcmd : verb ≠ "cmd".toList := by
          rw [hverb]
          decide
        simp only [resolve, hread, hsplit, if_neg henv, if_neg hcmd, if_pos hverb]
      · cases h
    · cases h
  · cases h
  · cases h

/-- A text that does not ask the wallet resolves the same whatever the wallet has. -/
theorem resolve_wallet {v : Text} (h : fetches v = none) (k : World) (w w' : Wallet) :
    resolve (k.sources w) v = resolve (k.sources w') v := by
  unfold fetches at h
  unfold resolve
  split at h
  · next inner hread =>
    rw [hread]
    split at h
    · next verb arg hsplit =>
      split at h
      · cases h
      · next hverb =>
        simp only [hsplit, if_neg hverb, World.sources]
    · next e hsplit => simp only [hsplit]
  · next hread => rw [hread]
  · next raw hread => rw [hread]

/-! ### The template is read back -/

def nothing : Pad := ⟨[], List.forall_mem_nil _⟩

def oneSpace : Pad := ⟨[' '], List.forall_mem_singleton.mpr (by decide)⟩

/-- One space between the parts. -/
def vaultLayout : Layout where
  before := nothing
  left := oneSpace
  gap := oneSpace
  apart := List.cons_ne_nil _ _
  right := oneSpace
  after := nothing

def vaultVerb : Verb where
  text := "vault".toList
  ne := by decide
  solid c hc := by
    have hsub : "vault".toList ⊆ ['v', 'a', 'u', 'l', 't'] := by decide
    have hletter := hsub hc
    simp only [List.mem_cons, List.not_mem_nil, or_false] at hletter
    rcases hletter with rfl | rfl | rfl | rfl | rfl <;> decide

theorem vaultTemplate_eq (n : Text) : vaultTemplate n = vaultLayout.write vaultVerb n := by
  simp [vaultTemplate, Layout.write, vaultLayout, vaultVerb, nothing, oneSpace, quote]

theorem fetches_vaultTemplate (n : Text) : fetches (vaultTemplate n) = some n := by
  obtain ⟨inner, hread, hsplit⟩ := (dispatched_write vaultLayout vaultVerb n).split
  rw [vaultTemplate_eq, fetches, hread]
  simp only [hsplit, vaultVerb, if_true]

end LvimDb.Secret
