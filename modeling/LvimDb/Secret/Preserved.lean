import LvimDb.Secret.Migrate

/-!
# Moving secrets keeps them

When the values that were stored resolve to themselves, the names that were skipped hold what
the fields resolved to, and no other field asks for a name that got another value, then every
field resolves as before; and only then.
-/

namespace LvimDb.Secret

variable {k : World} {w : Wallet} {o : Option Outcome} {saves : Text → Bool} {b : Book}

/-- Every credential field of every saved connection resolves to the value it held before. -/
def Preserved (k : World) (w : Wallet) (o : Option Outcome) (saves : Text → Bool) (b : Book) :
    Prop :=
  ∀ c ∈ b.conns, ∀ c' ∈ (migrate saves o b).conns, c'.name = c.name →
    ∀ f v u, c.spec f = some v → resolve (k.sources w) v = .ok u →
      ∃ v', c'.spec f = some v' ∧
        resolve (k.sources (w.after (scan b.conns) o)) v' = .ok u

/-- The field has the template of a name that landed. -/
def Rewritten (x : Outcome) (saves : Text → Bool) (b : Book) (c : Saved) (f : Field) : Prop :=
  saves c.name = true ∧ ∃ h ∈ scan b.conns, h.Lands x c f

/-- What the wallet has for the names that landed is what the fields held. -/
structure Matches (k : World) (w : Wallet) (o : Option Outcome) (saves : Text → Bool)
    (b : Book) : Prop where
  stored : ∀ x ∈ o, ∀ h ∈ scan b.conns, h.vaultName ∈ x.stored → saves h.conn = true →
    ∀ u, resolve (k.sources w) h.value = .ok u → u = h.value
  skipped : ∀ x ∈ o, ∀ h ∈ scan b.conns, h.vaultName ∉ x.stored → h.vaultName ∈ x.skipped →
    saves h.conn = true → ∀ u, resolve (k.sources w) h.value = .ok u → w h.vaultName = some u
  others : ∀ x ∈ o, ∀ c ∈ b.conns, ∀ f v, c.spec f = some v → ¬ Rewritten x saves b c f →
    ∀ h ∈ scan b.conns, h.vaultName ∈ x.stored → fetches v = some h.vaultName →
      ∀ u, w h.vaultName = some u → u = h.value

/-! ### The wallet after the plugin is done -/

theorem after_stored {x : Outcome} {hits : List Hit} {h : Hit}
    (hnames : (hits.map Hit.vaultName).Nodup) (hmem : h ∈ hits)
    (hst : h.vaultName ∈ x.stored) : w.after hits (some x) h.vaultName = some h.value := by
  have hfind : hits.find? (·.vaultName = h.vaultName) = some h := by
    cases hf : hits.find? (·.vaultName = h.vaultName) with
    | none =>
      have hno := List.find?_eq_none.mp hf h hmem
      simp at hno
    | some h' =>
      have hname : h'.vaultName = h.vaultName := by simpa using List.find?_some hf
      rw [List.inj_on_of_nodup_map hnames (List.mem_of_find?_eq_some hf) hmem hname]
  simp only [Wallet.after, if_pos hst, hfind]

theorem after_other {x : Outcome} {hits : List Hit} {n : Text}
    (h : ∀ h ∈ hits, h.vaultName = n → n ∉ x.stored) : w.after hits (some x) n = w n := by
  unfold Wallet.after
  dsimp only
  split
  · next hst =>
    have hfind : hits.find? (·.vaultName = n) = none := by
      apply List.find?_eq_none.mpr
      intro h' hmem
      have hne : h'.vaultName ≠ n := fun heq => h h' hmem heq hst
      simpa using hne
    rw [hfind]
  · rfl

theorem vault_ok {n u : Text} (h : w n = some u) : (k.sources w).vault n = .ok u := by
  simp only [World.sources, h]

theorem ok_vault {n u : Text} (h : (k.sources w).vault n = .ok u) : w n = some u := by
  simp only [World.sources] at h
  split at h
  · next v hv =>
    cases h
    exact hv
  · cases h

/-! ### The fields after the rewrite -/

/-- A rewritten field has the template of the hit that was about it. -/
theorem spec_rewritten {x : Outcome} {c : Saved} {h : Hit} (hsave : saves c.name = true)
    (hmem : h ∈ scan b.conns) (hconn : h.conn = c.name)
    (hland : x.landed h.vaultName = true) :
    (if saves c.name then rewrite x (scan b.conns) c else c).spec h.field =
      some (vaultTemplate h.vaultName) := by
  rw [if_pos hsave]
  apply rewrite_landed hmem ⟨hconn, rfl, hland⟩
  intro h' hmem' hlands
  exact Book.eq_of_field hmem' hmem (hlands.1.trans hconn.symm) hlands.2.1

theorem spec_kept {x : Outcome} {c : Saved} {f : Field} (hno : ¬ Rewritten x saves b c f) :
    (if saves c.name then rewrite x (scan b.conns) c else c).spec f = c.spec f := by
  split
  · next hsave =>
    apply rewrite_other
    intro h hmem hlands
    exact hno ⟨hsave, h, hmem, hlands⟩
  · rfl

/-- A template resolves to what the wallet has. -/
theorem resolve_template {n u : Text} :
    resolve (k.sources w) (vaultTemplate n) = .ok u ↔ w n = some u := by
  rw [resolve_fetches (fetches_vaultTemplate n)]
  exact ⟨ok_vault, vault_ok⟩

/-- A text resolves as before when the name it asks for was not stored, or was with the value
the wallet had. -/
theorem resolve_kept {x : Outcome} {v u : Text}
    (hnames : ((scan b.conns).map Hit.vaultName).Nodup)
    (hsame : ∀ h ∈ scan b.conns, h.vaultName ∈ x.stored → fetches v = some h.vaultName →
      ∀ u, w h.vaultName = some u → u = h.value)
    (hu : resolve (k.sources w) v = .ok u) :
    resolve (k.sources (w.after (scan b.conns) (some x))) v = .ok u := by
  cases hf : fetches v with
  | none => rw [resolve_wallet hf k _ w, hu]
  | some n =>
    rw [resolve_fetches hf] at hu ⊢
    have hw : w n = some u := ok_vault hu
    apply vault_ok
    by_cases hst : ∃ h ∈ scan b.conns, h.vaultName = n ∧ n ∈ x.stored
    · obtain ⟨h, hmem, rfl, hst⟩ := hst
      rw [after_stored hnames hmem hst, hsame h hmem hst hf u hw]
    · rw [after_other (fun h hmem heq hin => hst ⟨h, hmem, heq, hin⟩), hw]

theorem landed_cases {x : Outcome} {n : Text} (h : x.landed n = true) :
    n ∈ x.stored ∨ (n ∉ x.stored ∧ n ∈ x.skipped) := by
  by_cases hst : n ∈ x.stored
  · exact .inl hst
  · have hskip : n ∈ x.skipped := by simpa [Outcome.landed, hst] using h
    exact .inr ⟨hst, hskip⟩

theorem landed_stored {x : Outcome} {n : Text} (h : n ∈ x.stored) : x.landed n = true := by
  simp [Outcome.landed, h]

theorem landed_skipped {x : Outcome} {n : Text} (h : n ∈ x.skipped) : x.landed n = true := by
  simp [Outcome.landed, h]

theorem preserved_of_matches (hnames : ((scan b.conns).map Hit.vaultName).Nodup)
    (h : Matches k w o saves b) : Preserved k w o saves b := by
  intro c hc c' hc' hname f v u hv hu
  cases o with
  | none =>
    have hsame : c' = c := Book.eq_of_name hc' hc hname
    subst hsame
    exact ⟨v, hv, hu⟩
  | some x =>
    rw [migrate_of_name hc hc' hname]
    by_cases hre : Rewritten x saves b c f
    · obtain ⟨hsave, hit, hmem, hconn, rfl, hland⟩ := hre
      refine ⟨_, spec_rewritten hsave hmem hconn hland, ?_⟩
      -- the text of the hit is the field's
      have hval : v = hit.value := by
        obtain ⟨d, hd, hdname, hdval⟩ := scan_hit hmem
        have hsame : c = d := Book.eq_of_name hc hd (hconn.symm.trans hdname)
        rw [hsame, hdval] at hv
        exact (Option.some.inj hv).symm
      subst hval
      rw [← hconn] at hsave
      rw [resolve_template]
      rcases landed_cases hland with hst | ⟨hst, hskip⟩
      · rw [after_stored hnames hmem hst, h.stored x rfl hit hmem hst hsave u hu]
      · have hw := h.skipped x rfl hit hmem hst hskip hsave u hu
        rw [← hw]
        exact after_other fun _ _ _ => hst
    · refine ⟨v, ?_, ?_⟩
      · rw [spec_kept hre, hv]
      · exact resolve_kept hnames (h.others x rfl c hc f v hv hre) hu

theorem matches_of_preserved (hnames : ((scan b.conns).map Hit.vaultName).Nodup)
    (h : Preserved k w o saves b) : Matches k w o saves b := by
  -- what a rewritten field resolves to is what the wallet has under the hit's name
  have hrewritten : ∀ x ∈ o, ∀ hit ∈ scan b.conns, x.landed hit.vaultName = true →
      saves hit.conn = true → ∀ u, resolve (k.sources w) hit.value = .ok u →
        w.after (scan b.conns) o hit.vaultName = some u := by
    intro x hx hit hmem hland hsave u hu
    cases hx
    obtain ⟨c, hc, hconn, hval⟩ := scan_hit hmem
    rw [hconn] at hsave
    have hname : (if saves c.name then rewrite x (scan b.conns) c else c).name = c.name := by
      rw [if_pos hsave]
      exact rewrite_name _ _ _
    obtain ⟨v', hv', hu'⟩ := h c hc _ (migrate_mem hc) hname hit.field hit.value u hval hu
    rw [spec_rewritten hsave hmem hconn hland] at hv'
    cases hv'
    exact resolve_template.mp hu'
  constructor
  · intro x hx hit hmem hst hsave u hu
    have hw := hrewritten x hx hit hmem (landed_stored hst) hsave u hu
    cases hx
    rw [after_stored hnames hmem hst] at hw
    exact (Option.some.inj hw).symm
  · intro x hx hit hmem hst hskip hsave u hu
    have hw := hrewritten x hx hit hmem (landed_skipped hskip) hsave u hu
    cases hx
    rw [after_other fun _ _ _ => hst] at hw
    exact hw
  · intro x hx c hc f v hv hno hit hmem hst hf u hw
    cases hx
    have hname : (if saves c.name then rewrite x (scan b.conns) c else c).name = c.name := by
      split
      · exact rewrite_name _ _ _
      · rfl
    have hu : resolve (k.sources w) v = .ok u := by
      rw [resolve_fetches hf]
      exact vault_ok hw
    obtain ⟨v', hv', hu'⟩ := h c hc _ (migrate_mem hc) hname f v u hv hu
    rw [spec_kept hno, hv] at hv'
    cases hv'
    rw [resolve_fetches hf] at hu'
    have hafter := ok_vault hu'
    rw [after_stored hnames hmem hst] at hafter
    exact (Option.some.inj hafter).symm

/-- The secrets are preserved exactly when the wallet's values match the fields'. -/
theorem preserved_iff (k : World) (w : Wallet) (o : Option Outcome) (saves : Text → Bool)
    (b : Book) (hnames : ((scan b.conns).map Hit.vaultName).Nodup) :
    Preserved k w o saves b ↔ Matches k w o saves b :=
  ⟨matches_of_preserved hnames, preserved_of_matches hnames⟩

/-! ### A wallet that has the name with another value -/

/-- One connection, with its password in the clear. -/
def spare : Book where
  conns := [⟨"a".toList, "postgres".toList,
    fun f => if f = .password then some "new".toList else none⟩]
  distinct := by decide

/-- An earlier secret of a connection of that name. -/
def earlier : Wallet := fun n => if n = "db/a".toList then some "old".toList else none

def quiet : World where
  env _ := none
  cmd _ := .error "no shell"
  missing _ := "unknown secret"

/-- The plugin leaves the name alone and reports it as skipped. -/
def leftAlone : Outcome := ⟨[], ["db/a".toList], []⟩

theorem preserved_iff_spare :
    Preserved quiet earlier (some leftAlone) (fun _ => true) spare ↔
      Matches quiet earlier (some leftAlone) (fun _ => true) spare :=
  preserved_iff quiet earlier (some leftAlone) (fun _ => true) spare (by decide)

/-- A skipped name replaces the password by what the wallet had under it. -/
theorem skipped_replaces_password :
    (earlier "db/a".toList).isSome = true ∧
      resolve (quiet.sources earlier) "new".toList = .ok "new".toList ∧
      (migrate (fun _ => true) (some leftAlone) spare).conns.map (·.spec .password) =
        [some (vaultTemplate "db/a".toList)] ∧
      resolve (quiet.sources (earlier.after (scan spare.conns) (some leftAlone)))
        (vaultTemplate "db/a".toList) = .ok "old".toList ∧
      ¬ Preserved quiet earlier (some leftAlone) (fun _ => true) spare := by
  have hold : earlier "db/a".toList = some "old".toList := by decide
  have hnew : resolve (quiet.sources earlier) "new".toList = .ok "new".toList := rfl
  have hafter : earlier.after (scan spare.conns) (some leftAlone) "db/a".toList =
      some "old".toList := by
    rw [after_other fun _ _ _ => List.not_mem_nil]
    exact hold
  refine ⟨by rw [hold]; rfl, hnew, by decide, resolve_template.mpr hafter, fun h => ?_⟩
  have hmatch := matches_of_preserved (by decide) h
  have hw := hmatch.skipped leftAlone rfl
    ⟨"a".toList, "postgres".toList, .password, "new".toList, "db/a".toList⟩ (by decide)
    List.not_mem_nil (by decide) rfl "new".toList hnew
  rw [hold] at hw
  exact absurd hw (by decide)

end LvimDb.Secret
