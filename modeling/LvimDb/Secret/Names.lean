import Mathlib.Data.List.Pairwise
import LvimDb.Secret.Migrate

/-!
# The names of the wallet

`M.scan` names a secret after its connection, with a suffix for all but the first auth field. A
connection's name is free text, and may end in a suffix itself.
-/

namespace LvimDb.Secret

/-- The field is a secret in the clear. -/
def plain (c : Saved) (f : Field) : Bool := (clear c f).isSome

def tokenTail : Text := "-token".toList
def keyTail : Text := "-key-password".toList
def tunnelTail : Text := "-tunnel".toList

/-- What the secrets of a connection have after its name: the first auth field nothing. -/
def authTails (c : Saved) : List Text :=
  (if plain c .password || plain c .token || plain c .keyPassword then [[]] else []) ++
    (if plain c .password && plain c .token then [tokenTail] else []) ++
    (if (plain c .password || plain c .token) && plain c .keyPassword then [keyTail] else [])

def tunnelTails (c : Saved) : List Text :=
  (if plain c .tunnelPassphrase then [tunnelTail] else []) ++
    (if plain c .tunnelPassword then [tunnelTail] else [])

def tails (c : Saved) : List Text := authTails c ++ tunnelTails c

/-- No tunnel has both its secrets in the clear, and no connection with an auth secret is called
as another one with a suffix that a secret of that one has. -/
structure Unambiguous (conns : List Saved) : Prop where
  tunnel : ∀ c ∈ conns, ¬ (plain c .tunnelPassphrase = true ∧ plain c .tunnelPassword = true)
  name : ∀ c ∈ conns, ∀ c' ∈ conns, ∀ t ∈ tails c, t ≠ [] → [] ∈ tails c' → c'.name ≠ c.name ++ t

/-! ### The names of one connection -/

theorem authName_first (c : Saved) (f : Field) : authName c false f = base c := rfl

theorem authName_token (c : Saved) : authName c true .token = base c ++ tokenTail := by
  have htail : ['-'] ++ (Field.key .token).map (fun ch => if ch = '_' then '-' else ch) =
      tokenTail := by decide
  rw [authName, if_pos rfl, List.append_assoc, htail]

theorem authName_key (c : Saved) : authName c true .keyPassword = base c ++ keyTail := by
  have htail : ['-'] ++ (Field.key .keyPassword).map (fun ch => if ch = '_' then '-' else ch) =
      keyTail := by decide
  rw [authName, if_pos rfl, List.append_assoc, htail]

theorem names_found {c : Saved} {f : Field} (h : plain c f = true) (taken : Bool) (fs : List Field) :
    (scanAuth c taken (f :: fs)).map Hit.vaultName =
      authName c taken f :: (scanAuth c true fs).map Hit.vaultName := by
  obtain ⟨v, hv⟩ := Option.isSome_iff_exists.mp h
  rw [scanAuth, hv]
  rfl

theorem names_skipped {c : Saved} {f : Field} (h : plain c f = false) (taken : Bool)
    (fs : List Field) :
    (scanAuth c taken (f :: fs)).map Hit.vaultName = (scanAuth c taken fs).map Hit.vaultName := by
  have hnone : clear c f = none := Option.isNone_iff_eq_none.mp (Option.isSome_eq_false_iff.mp h)
  rw [scanAuth, hnone]

theorem scanAuth_names (c : Saved) :
    (scanAuth c false authFields).map Hit.vaultName = (authTails c).map (base c ++ ·) := by
  have hnil : ∀ taken, (scanAuth c taken []).map Hit.vaultName = [] := fun _ => rfl
  unfold authFields authTails
  cases hp : plain c .password with
  | true =>
    rw [names_found hp, authName_first]
    cases ht : plain c .token with
    | true =>
      rw [names_found ht, authName_token]
      cases hk : plain c .keyPassword with
      | true =>
        rw [names_found hk, authName_key, hnil]
        simp
      | false =>
        rw [names_skipped hk, hnil]
        simp
    | false =>
      rw [names_skipped ht]
      cases hk : plain c .keyPassword with
      | true =>
        rw [names_found hk, authName_key, hnil]
        simp
      | false =>
        rw [names_skipped hk, hnil]
        simp
  | false =>
    rw [names_skipped hp]
    cases ht : plain c .token with
    | true =>
      rw [names_found ht, authName_first]
      cases hk : plain c .keyPassword with
      | true =>
        rw [names_found hk, authName_key, hnil]
        simp
      | false =>
        rw [names_skipped hk, hnil]
        simp
    | false =>
      rw [names_skipped ht]
      cases hk : plain c .keyPassword with
      | true =>
        rw [names_found hk, authName_first, hnil]
        simp
      | false =>
        rw [names_skipped hk, hnil]
        simp

theorem scanTunnel_found {c : Saved} {f : Field} (h : plain c f = true) (fs : List Field) :
    (scanTunnel c (f :: fs)).map Hit.vaultName =
      (base c ++ tunnelTail) :: (scanTunnel c fs).map Hit.vaultName := by
  obtain ⟨v, hv⟩ := Option.isSome_iff_exists.mp h
  rw [scanTunnel, hv]
  rfl

theorem scanTunnel_skipped {c : Saved} {f : Field} (h : plain c f = false) (fs : List Field) :
    (scanTunnel c (f :: fs)).map Hit.vaultName = (scanTunnel c fs).map Hit.vaultName := by
  have hnone : clear c f = none := Option.isNone_iff_eq_none.mp (Option.isSome_eq_false_iff.mp h)
  rw [scanTunnel, hnone]

theorem scanTunnel_names (c : Saved) :
    (scanTunnel c tunnelFields).map Hit.vaultName = (tunnelTails c).map (base c ++ ·) := by
  have hnil : (scanTunnel c []).map Hit.vaultName = [] := rfl
  unfold tunnelFields tunnelTails
  cases hp : plain c .tunnelPassphrase with
  | true =>
    rw [scanTunnel_found hp]
    cases hw : plain c .tunnelPassword with
    | true =>
      rw [scanTunnel_found hw, hnil]
      simp
    | false =>
      rw [scanTunnel_skipped hw, hnil]
      simp
  | false =>
    rw [scanTunnel_skipped hp]
    cases hw : plain c .tunnelPassword with
    | true =>
      rw [scanTunnel_found hw, hnil]
      simp
    | false =>
      rw [scanTunnel_skipped hw, hnil]
      simp

theorem scanOf_names (c : Saved) :
    (scanOf c).map Hit.vaultName = (tails c).map (base c ++ ·) := by
  rw [scanOf, List.map_append, scanAuth_names, scanTunnel_names, tails, List.map_append]

theorem mem_authTails {c : Saved} {t : Text} (h : t ∈ authTails c) :
    t = [] ∨ t = tokenTail ∨ t = keyTail := by
  rw [authTails, List.mem_append, List.mem_append] at h
  rcases h with (h | h) | h
  · split at h
    · exact .inl (List.mem_singleton.mp h)
    · cases h
  · split at h
    · exact .inr (.inl (List.mem_singleton.mp h))
    · cases h
  · split at h
    · exact .inr (.inr (List.mem_singleton.mp h))
    · cases h

theorem mem_tunnelTails {c : Saved} {t : Text} (h : t ∈ tunnelTails c) : t = tunnelTail := by
  rw [tunnelTails, List.mem_append] at h
  rcases h with h | h
  · split at h
    · exact List.mem_singleton.mp h
    · cases h
  · split at h
    · exact List.mem_singleton.mp h
    · cases h

theorem mem_tails {c : Saved} {t : Text} (h : t ∈ tails c) :
    t = [] ∨ t = tokenTail ∨ t = keyTail ∨ t = tunnelTail := by
  rcases List.mem_append.mp h with hauth | htunnel
  · rcases mem_authTails hauth with rfl | rfl | rfl
    · exact .inl rfl
    · exact .inr (.inl rfl)
    · exact .inr (.inr (.inl rfl))
  · exact .inr (.inr (.inr (mem_tunnelTails htunnel)))

theorem authTails_nodup (c : Saved) : (authTails c).Nodup := by
  have hall : ([[]] ++ [tokenTail] ++ [keyTail] : List Text).Nodup := by decide
  have hone : ∀ (b : Bool) (t : Text), List.Sublist (if b then [t] else []) [t] := by
    intro b t
    split
    · exact List.Sublist.refl _
    · exact List.nil_sublist _
  exact hall.sublist (((hone _ _).append (hone _ _)).append (hone _ _))

/-- The names of one connection repeat only for its tunnel. -/
theorem tails_nodup (c : Saved) :
    (tails c).Nodup ↔ ¬ (plain c .tunnelPassphrase = true ∧ plain c .tunnelPassword = true) := by
  have hapart : ∀ t ∈ authTails c, ∀ t' ∈ tunnelTails c, t ≠ t' := by
    intro t ht t' ht'
    rw [mem_tunnelTails ht']
    rcases mem_authTails ht with rfl | rfl | rfl
    · decide
    · decide
    · decide
  rw [tails, List.nodup_append]
  constructor
  · rintro ⟨-, hnodup, -⟩ ⟨hp, hw⟩
    rw [tunnelTails, if_pos hp, if_pos hw] at hnodup
    simp at hnodup
  · intro h
    refine ⟨authTails_nodup c, ?_, hapart⟩
    rw [tunnelTails]
    by_cases hp : plain c .tunnelPassphrase = true
    · rw [if_neg fun hw => h ⟨hp, hw⟩, List.append_nil, if_pos hp]
      exact List.nodup_singleton _
    · rw [if_neg hp, List.nil_append]
      split
      · exact List.nodup_singleton _
      · exact List.nodup_nil

/-! ### Two connections -/

/-- Two suffixes end alike only when they are the same. -/
theorem tail_eq {a a' t t' : Text} (ht : t = [] ∨ t = tokenTail ∨ t = keyTail ∨ t = tunnelTail)
    (ht' : t' = [] ∨ t' = tokenTail ∨ t' = keyTail ∨ t' = tunnelTail) (hne : t ≠ []) (hne' : t' ≠ [])
    (h : a ++ t = a' ++ t') : t = t' := by
  have hlast : t.getLast? = t'.getLast? := by
    have := congrArg List.getLast? h
    rwa [List.getLast?_append_of_ne_nil _ hne, List.getLast?_append_of_ne_nil _ hne'] at this
  rcases ht with rfl | rfl | rfl | rfl
  · exact absurd rfl hne
  all_goals
    rcases ht' with rfl | rfl | rfl | rfl
    · exact absurd rfl hne'
    all_goals first | rfl | (revert hlast; decide)

theorem base_inj {c c' : Saved} {t t' : Text} :
    base c ++ t = base c' ++ t' ↔ c.name ++ t = c'.name ++ t' := by
  rw [base, base, List.append_assoc, List.append_assoc]
  exact List.append_right_inj _

/-- Two connections have a name in common only where one is called as the other with a suffix. -/
theorem common_name {c c' : Saved} (hne : c.name ≠ c'.name) {t t' : Text} (ht : t ∈ tails c)
    (ht' : t' ∈ tails c') (h : base c ++ t = base c' ++ t') :
    t = [] ∧ t' ≠ [] ∧ c.name = c'.name ++ t' ∨ t' = [] ∧ t ≠ [] ∧ c'.name = c.name ++ t := by
  rw [base_inj] at h
  by_cases hnil : t = []
  · subst hnil
    rw [List.append_nil] at h
    refine .inl ⟨rfl, ?_, h⟩
    rintro rfl
    exact hne (h.trans (List.append_nil _))
  · by_cases hnil' : t' = []
    · subst hnil'
      rw [List.append_nil] at h
      exact .inr ⟨rfl, hnil, h.symm⟩
    · have heq := tail_eq (mem_tails ht) (mem_tails ht') hnil hnil' h
      subst heq
      exact absurd (List.append_cancel_right h) hne

/-- The scan gives every secret a name of its own exactly when nothing is ambiguous. -/
theorem vault_names_distinct (b : Book) :
    ((scan b.conns).map Hit.vaultName).Nodup ↔ Unambiguous b.conns := by
  have hnames : (scan b.conns).map Hit.vaultName =
      b.conns.flatMap fun c => (tails c).map (base c ++ ·) := by
    rw [scan, List.map_flatMap]
    exact congrArg (b.conns.flatMap ·) (funext scanOf_names)
  have hone : ∀ c, ((tails c).map (base c ++ ·)).Nodup ↔ (tails c).Nodup := fun c =>
    List.nodup_map_iff fun _ _ => List.append_cancel_left
  rw [hnames, List.nodup_flatMap]
  constructor
  · rintro ⟨hnodup, hdisjoint⟩
    refine ⟨fun c hc => (tails_nodup c).mp ((hone c).mp (hnodup c hc)), ?_⟩
    intro c hc c' hc' t ht hne hnil heq
    have hother : c ≠ c' := by
      rintro rfl
      exact hne (List.append_cancel_left (heq.symm.trans (List.append_nil _).symm))
    have hsymm : Std.Symm (Function.onFun List.Disjoint fun c => (tails c).map (base c ++ ·)) :=
      ⟨fun _ _ h => List.disjoint_left.mpr fun _ ha hb => h hb ha⟩
    have hnil' : base c ++ t ∈ (tails c').map (base c' ++ ·) := by
      refine List.mem_map.mpr ⟨[], hnil, ?_⟩
      rw [base_inj, List.append_nil]
      exact heq
    exact hdisjoint.forall hc hc' hother (List.mem_map_of_mem ht) hnil'
  · intro h
    refine ⟨fun c hc => (hone c).mpr ((tails_nodup c).mpr (h.tunnel c hc)), ?_⟩
    have hdistinct : b.conns.Pairwise fun c c' => c.name ≠ c'.name := List.pairwise_map.mp b.distinct
    refine hdistinct.imp_of_mem fun {c c'} hc hc' hne n hn hn' => ?_
    obtain ⟨t, ht, rfl⟩ := List.mem_map.mp hn
    obtain ⟨t', ht', heq⟩ := List.mem_map.mp hn'
    rcases common_name hne ht ht' heq.symm with ⟨hnil, hne', hname⟩ | ⟨hnil, hne', hname⟩
    · exact h.name c' hc' c hc t' ht' hne' (hnil ▸ ht) hname
    · exact h.name c hc c' hc' t ht hne' (hnil ▸ ht') hname

/-- A tunnel with a passphrase and a password. -/
def twoSecrets : Book where
  conns := [⟨"prod".toList, "postgres".toList, fun
    | .tunnelPassphrase => some "p".toList
    | .tunnelPassword => some "w".toList
    | _ => none⟩]
  distinct := by decide

/-- Both secrets of a tunnel have one name. -/
theorem vault_name_twice :
    (scan twoSecrets.conns).map Hit.vaultName = ["db/prod-tunnel".toList, "db/prod-tunnel".toList] ∧
      ¬ ((scan twoSecrets.conns).map Hit.vaultName).Nodup := by
  have hnames : (scan twoSecrets.conns).map Hit.vaultName =
      ["db/prod-tunnel".toList, "db/prod-tunnel".toList] := by decide
  refine ⟨hnames, ?_⟩
  rw [hnames]
  decide

end LvimDb.Secret
