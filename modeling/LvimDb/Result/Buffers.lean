import Mathlib.Data.List.Nodup
import Mathlib.Data.List.Perm.Basic
import LvimDb.Result.Ledger
import LvimDb.Result.Coherence

/-!
# No buffer is lost

When no order loses a call id, every buffer that is alive is held by an entry of the log or
belongs to a count on its way, and the log holds no more of them than the cache allows.
-/

namespace LvimDb.Result
open Engine (ConnId CallId CallStatus PageReply)

namespace Dock
variable {V : Type} {env : Env V} {s t : Dock V} {size N : ℕ}

/-- What holds of the accounts as long as nothing is lost. -/
structure Accounts (size : ℕ) (s : Dock V) : Prop where
  nodup : s.ids.Nodup
  kept : ∀ cid ∈ s.ids, cid ∈ s.freed ∨ s.Held cid ∨ cid ∈ s.counts
  live : s.live.length ≤ size
  starts : s.starts.Nodup
  fresh : ∀ k ∈ s.starts, k < s.heap.length ∧ s.callOf k = none

theorem accounts_new : Accounts size (new : Dock V) where
  nodup := List.nodup_nil
  kept := fun _ h => by cases h
  live := Nat.zero_le _
  starts := List.nodup_nil
  fresh := fun _ h => by cases h

/-! ### The frame -/

theorem Same.callOf (h : Same s t) (k : ℕ) : t.callOf k = s.callOf k := by
  have hget : (t.heap.map Entry.callId)[k]? = (s.heap.map Entry.callId)[k]? := by rw [h.heap]
  rw [List.getElem?_map, List.getElem?_map] at hget
  have hjoin : ∀ o : Option Entry, o.bind Entry.callId = (o.map Entry.callId).join := by
    intro o
    cases o with
    | none => rfl
    | some e => rfl
  unfold Dock.callOf
  rw [hjoin, hjoin, hget]

theorem Same.length (h : Same s t) : t.heap.length = s.heap.length := by
  have hlen := congrArg List.length h.heap
  rwa [List.length_map, List.length_map] at hlen

theorem live_eq (s : Dock V) : s.live = s.calls.filter fun k => (s.callOf k).isSome := rfl

theorem Same.live (h : Same s t) : t.live = s.live := by
  rw [live_eq, live_eq, h.calls]
  simp only [h.callOf]

theorem Same.held (h : Same s t) {cid : CallId} (hc : s.Held cid) : t.Held cid := by
  obtain ⟨k, hk, hcall⟩ := hc
  refine ⟨k, ?_, ?_⟩
  · rw [h.calls]
    exact hk
  · rw [h.callOf]
    exact hcall

theorem Accounts.same (h : Accounts size s) (hs : Same s t) : Accounts size t where
  nodup := by
    unfold ids
    rw [hs.issued]
    exact h.nodup
  kept := by
    intro cid hcid
    unfold ids at hcid
    rw [hs.issued] at hcid
    rcases h.kept cid hcid with hfreed | hheld | hcount
    · exact .inl (hs.freed hfreed)
    · exact .inr (.inl (hs.held hheld))
    · exact .inr (.inr (hs.counts hcount))
  live := by
    rw [hs.live]
    exact h.live
  starts := hs.starts.nodup_iff.mpr h.starts
  fresh := by
    intro k hk
    rw [hs.length, hs.callOf]
    exact h.fresh k (hs.starts.mem_iff.mp hk)

/-! ### A new entry -/

theorem callOf_addEntry (q : Query) (k : ℕ) : (s.addEntry q).callOf k = s.callOf k := by
  unfold callOf addEntry
  dsimp only
  rcases Nat.lt_trichotomy k s.heap.length with hlt | rfl | hgt
  · rw [List.getElem?_append_left hlt]
  · rw [List.getElem?_concat_length, List.getElem?_eq_none (Nat.le_refl _)]
    rfl
  · rw [List.getElem?_eq_none (by simp only [List.length_append, List.length_singleton]; omega),
      List.getElem?_eq_none (Nat.le_of_lt hgt)]

theorem callOf_length : s.callOf s.heap.length = none := by
  unfold callOf
  rw [List.getElem?_eq_none (Nat.le_refl _)]
  rfl

/-- The log after an append: the oldest entry may be gone. -/
theorem calls_addEntry (q : Query) :
    (s.addEntry q).calls = s.calls ++ [s.heap.length] ∨
      (200 ≤ s.calls.length ∧ (s.addEntry q).calls = s.calls.tail ++ [s.heap.length]) := by
  unfold addEntry
  dsimp only
  split
  · exact .inl rfl
  · exact .inr ⟨by omega, rfl⟩

theorem live_addEntry (q : Query) : (s.addEntry q).live.length ≤ s.live.length := by
  have hcall : (s.addEntry q).callOf = s.callOf := funext (callOf_addEntry q)
  have hnew : [s.heap.length].filter (fun k => (s.callOf k).isSome) = [] := by
    rw [List.filter_singleton, callOf_length]
    rfl
  rw [live_eq, live_eq, hcall]
  rcases calls_addEntry q with heq | ⟨-, heq⟩
  · rw [heq, List.filter_append, hnew, List.append_nil]
  · rw [heq, List.filter_append, hnew, List.append_nil]
    exact ((List.tail_sublist _).filter _).length_le

theorem held_addEntry (hroom : s.Room) (q : Query) {cid : CallId} (h : s.Held cid) :
    (s.addEntry q).Held cid := by
  obtain ⟨k, hk, hcall⟩ := h
  refine ⟨k, ?_, ?_⟩
  · rcases calls_addEntry q with heq | ⟨hlen, heq⟩
    · rw [heq]
      exact List.mem_append_left _ hk
    · rw [heq]
      apply List.mem_append_left
      cases hcalls : s.calls with
      | nil =>
        rw [hcalls] at hk
        cases hk
      | cons j js =>
        rw [hcalls] at hk
        rcases List.mem_cons.mp hk with rfl | hk
        · have hnone := hroom hlen k (by rw [hcalls]; rfl)
          rw [hnone] at hcall
          cases hcall
        · exact hk
  · rw [callOf_addEntry]
    exact hcall

theorem Accounts.addEntry (h : Accounts size s) (hroom : s.Room) (q : Query) :
    Accounts size (s.addEntry q) where
  nodup := h.nodup
  kept := by
    intro cid hcid
    rcases h.kept cid hcid with hfreed | hheld | hcount
    · exact .inl hfreed
    · exact .inr (.inl (held_addEntry hroom q hheld))
    · exact .inr (.inr hcount)
  live := (live_addEntry q).trans h.live
  starts := h.starts
  fresh := by
    intro k hk
    obtain ⟨hlt, hnone⟩ := h.fresh k hk
    rw [callOf_addEntry]
    refine ⟨?_, hnone⟩
    simp only [Dock.addEntry, List.length_append, List.length_singleton]
    omega

theorem Same.room (h : Same s t) (hr : s.Room) : t.Room := by
  intro hlen k hk
  rw [h.calls] at hlen hk
  rw [h.callOf]
  exact hr hlen k hk

theorem Accounts.clear (h : Accounts size s) (hr : s.Room) (q : Query) :
    Accounts size (s.clear env q) := by
  have hshown := same_shown (s := s) env q
  exact ((h.same hshown).addEntry (hshown.room hr) q).same same_relog

/-- No run waits for the entry that a run appends. -/
theorem clear_fresh (h : Accounts size s) (q : Query) :
    (s.clear env q).heap.length - 1 ∉ (s.clear env q).starts := by
  have hshown := same_shown (s := s) env q
  have hadd : (s.clear env q).starts.Perm s.starts := same_relog.starts.trans hshown.starts
  have hlen : (s.clear env q).heap.length = s.heap.length + 1 := by
    rw [Dock.clear, same_relog.length, ← hshown.length]
    exact List.length_append
  intro hmem
  rw [hlen] at hmem
  have hlt := (h.fresh _ (hadd.mem_iff.mp hmem)).1
  omega

theorem Accounts.run (h : Accounts size s) (hr : s.Room) (why : Why) (q : Query) (offset : ℕ)
    (done : Option ℕ) : Accounts size (s.run env why q offset done) := by
  unfold Dock.run send
  split
  · exact h.same (same_cancelEdit.trans (same_tell _))
  have hclear : Accounts size (s.clear env q) := h.clear hr q
  have htell : Accounts size ((s.clear env q).tell
      (.ran why ((s.clear env q).heap.length - 1) q done)) := hclear.same (same_tell _)
  have hlast : (s.clear env q).callOf ((s.clear env q).heap.length - 1) = none := by
    unfold callOf
    rw [clear_heap]
    rfl
  have hpos : 0 < (s.clear env q).heap.length := by
    have hlast : (s.clear env q).heap[(s.clear env q).heap.length - 1]? =
        some ⟨q, none, .running, 0⟩ := clear_heap q
    obtain ⟨hlt, -⟩ := List.getElem?_eq_some_iff.mp hlast
    omega
  refine ⟨htell.nodup, ?_, htell.live, ?_, ?_⟩
  · intro cid hcid
    rcases htell.kept cid hcid with hfreed | hheld | hcount
    · exact .inl hfreed
    · exact .inr (.inl hheld)
    · rw [counts_wait]
      exact .inr (.inr (List.mem_append_left _ hcount))
  · rw [starts_wait]
    apply List.nodup_append.mpr
    refine ⟨htell.starts, List.nodup_singleton _, ?_⟩
    intro k hk j hj heq
    obtain rfl := List.mem_singleton.mp hj
    subst heq
    exact clear_fresh h q hk
  · intro k hk
    rw [starts_wait] at hk
    rcases List.mem_append.mp hk with hk | hk
    · exact htell.fresh k hk
    · obtain rfl := List.mem_singleton.mp hk
      exact ⟨Nat.sub_lt hpos Nat.one_pos, hlast⟩

theorem Accounts.write (h : Accounts size s) (hr : s.conn.isSome = true → s.Room)
    (statement : String) (target : Target V) : Accounts size (s.write statement target) := by
  unfold Dock.write
  split
  · rename_i c hc
    have hroom : s.Room := hr (by rw [hc]; rfl)
    exact (h.addEntry hroom _).same (same_send rfl)
  · exact h

/-! ### Registration -/

theorem callOf_amend {k : ℕ} (hk : k < s.heap.length) (c : Option CallId) (j : ℕ) :
    (s.amend k fun e => { e with callId := c }).callOf j = if j = k then c else s.callOf j := by
  unfold callOf amend
  dsimp only
  by_cases hjk : j = k
  · subst hjk
    rw [if_pos rfl, List.getElem?_modify_eq, List.getElem?_eq_getElem hk]
    rfl
  · have hkj : k ≠ j := fun h => hjk h.symm
    rw [if_neg hjk, List.getElem?_modify_ne _ _ hkj]

theorem lt_of_callOf {k : ℕ} {cid : CallId} (h : s.callOf k = some cid) : k < s.heap.length := by
  obtain ⟨e, he, -⟩ := Option.bind_eq_some_iff.mp h
  exact (List.getElem?_eq_some_iff.mp he).1

theorem callOf_release (k j : ℕ) :
    (s.release k).callOf j = if j = k then none else s.callOf j := by
  unfold release
  split
  · rename_i cid hcid
    have hlt : k < s.heap.length := lt_of_callOf hcid
    exact callOf_amend (s := s.tell (.released cid)) hlt none j
  · rename_i hnone
    by_cases hjk : j = k
    · subst hjk
      rw [if_pos rfl]
      exact hnone
    · rw [if_neg hjk]

theorem release_frame (k : ℕ) :
    (s.release k).ids = s.ids ∧ (s.release k).calls = s.calls ∧ (s.release k).starts = s.starts ∧
      (s.release k).counts = s.counts ∧ (s.release k).heap.length = s.heap.length := by
  unfold release
  split
  · refine ⟨rfl, rfl, rfl, rfl, ?_⟩
    exact List.length_modify _ _ _
  · exact ⟨rfl, rfl, rfl, rfl, rfl⟩

theorem release_freed (k : ℕ) {cid : CallId} (h : cid ∈ s.freed ∨ s.callOf k = some cid) :
    cid ∈ (s.release k).freed := by
  unfold release
  split
  · rename_i c hc
    show cid ∈ c :: s.freed
    rcases h with h | h
    · exact List.mem_cons_of_mem c h
    · obtain rfl := Option.some.inj (hc.symm.trans h)
      exact List.mem_cons_self ..
  · rename_i hnone
    rcases h with h | h
    · exact h
    · have hc : s.callOf k = none := hnone
      rw [hc] at h
      cases h

/-- A released call may be on its way out only. -/
theorem Accounts.release (h : Accounts N s) (k : ℕ) : Accounts N (s.release k) := by
  obtain ⟨hids, hcalls, hstarts, hcounts, hlen⟩ := release_frame (s := s) k
  refine ⟨?_, ?_, ?_, ?_, ?_⟩
  · rw [hids]
    exact h.nodup
  · intro cid hcid
    rw [hids] at hcid
    rcases h.kept cid hcid with hfreed | ⟨j, hj, hcall⟩ | hcount
    · exact .inl (release_freed k (.inl hfreed))
    · by_cases hjk : j = k
      · subst hjk
        exact .inl (release_freed j (.inr hcall))
      · refine .inr (.inl ⟨j, ?_, ?_⟩)
        · rw [hcalls]
          exact hj
        · rw [callOf_release, if_neg hjk]
          exact hcall
    · rw [hcounts]
      exact .inr (.inr hcount)
  · refine Nat.le_trans ?_ h.live
    rw [live_eq, live_eq, hcalls]
    apply List.Sublist.length_le
    apply List.monotone_filter_right
    intro j hj
    rw [callOf_release] at hj
    split at hj
    · cases hj
    · exact hj
  · rw [hstarts]
    exact h.starts
  · intro j hj
    rw [hstarts] at hj
    obtain ⟨hlt, hnone⟩ := h.fresh j hj
    rw [hlen, callOf_release, hnone, ite_self]
    exact ⟨hlt, rfl⟩

theorem Accounts.releases (h : Accounts N s) (ks : List ℕ) :
    Accounts N (ks.foldl Dock.release s) := by
  induction ks generalizing s with
  | nil => exact h
  | cons k ks ih => exact ih (h.release k)

theorem live_releases (ks : List ℕ) :
    (ks.foldl Dock.release s).live = s.live.filter fun k => k ∉ ks := by
  induction ks generalizing s with
  | nil => simp
  | cons k ks ih =>
    rw [List.foldl_cons, ih, live_eq, live_eq, (release_frame k).2.1, List.filter_filter,
      List.filter_filter]
    apply List.filter_congr
    intro j _
    rw [callOf_release]
    by_cases hjk : j = k
    · simp [hjk]
    · simp [hjk]

/-- Without its oldest, a list is as short as it may be. -/
theorem length_filter_take {l : List ℕ} :
    (l.filter fun k => k ∉ l.take (l.length - size)).length ≤ size := by
  have hsplit : l.filter (fun k => k ∉ l.take (l.length - size)) =
      (l.drop (l.length - size)).filter fun k => k ∉ l.take (l.length - size) := by
    conv_lhs => rw [← List.take_append_drop (l.length - size) l, List.filter_append]
    rw [List.take_append_drop]
    have htake : (l.take (l.length - size)).filter
        (fun k => k ∉ l.take (l.length - size)) = [] := by
      apply List.filter_eq_nil_iff.mpr
      intro k hk
      simp [hk]
    rw [htake, List.nil_append]
  rw [hsplit]
  refine (List.length_filter_le _ _).trans ?_
  rw [List.length_drop]
  omega

theorem Accounts.evict (h : Accounts N s) (hcache : env.cache = some size)
    (prev : Option CallId) (cid : CallId) : Accounts size (s.evict env prev cid) := by
  unfold Dock.evict
  rw [hcache]
  dsimp only
  have hr := h.releases (s.live.take (s.live.length - size))
  refine ⟨hr.nodup, hr.kept, ?_, hr.starts, hr.fresh⟩
  rw [live_releases]
  exact length_filter_take

theorem Accounts.register (h : Accounts N s) (hcache : env.cache = some size) {k : ℕ}
    {cid : CallId} (hu : s.unissued cid = true) (hk : k ∈ s.calls) (hlt : k < s.heap.length)
    (hnone : s.callOf k = none) (hstart : k ∉ s.starts) (q : Query) (offset : ℕ)
    (done : Option ℕ) : Accounts size (s.register env k q offset done cid) := by
  let bound : Dock V := ((s.issue cid (some q)).wait (.watch k offset done)).amend k
    fun e => { e with callId := some cid }
  have hcall : ∀ j, bound.callOf j = if j = k then some cid else s.callOf j :=
    callOf_amend (s := (s.issue cid (some q)).wait (.watch k offset done)) hlt (some cid)
  have hstarts : bound.starts = s.starts :=
    (starts_wait (s := s.issue cid (some q)) (.watch k offset done)).trans (List.append_nil _)
  have hcounts : bound.counts = s.counts :=
    (counts_wait (s := s.issue cid (some q)) (.watch k offset done)).trans (List.append_nil _)
  have hbound : Accounts bound.live.length bound := by
    refine ⟨?_, ?_, Nat.le_refl _, ?_, ?_⟩
    · exact List.nodup_cons.mpr ⟨unissued_iff.mp hu, h.nodup⟩
    · intro c hc
      rcases List.mem_cons.mp hc with rfl | hc
      · refine .inr (.inl ⟨k, hk, ?_⟩)
        rw [hcall, if_pos rfl]
      · rcases h.kept c hc with hfreed | ⟨j, hj, hheld⟩ | hcount
        · exact .inl hfreed
        · refine .inr (.inl ⟨j, hj, ?_⟩)
          rw [hcall, if_neg]
          · exact hheld
          · rintro rfl
            rw [hnone] at hheld
            cases hheld
        · rw [hcounts]
          exact .inr (.inr hcount)
    · rw [hstarts]
      exact h.starts
    · intro j hj
      rw [hstarts] at hj
      obtain ⟨hjlt, hjnone⟩ := h.fresh j hj
      refine ⟨?_, ?_⟩
      · rw [show bound.heap.length = s.heap.length from List.length_modify _ _ _]
        exact hjlt
      · rw [hcall, if_neg]
        · exact hjnone
        · rintro rfl
          exact hstart hj
  have hcalled : Accounts bound.live.length { bound with callId := some cid } :=
    ⟨hbound.nodup, hbound.kept, Nat.le_refl _, hbound.starts, hbound.fresh⟩
  exact hcalled.evict hcache s.callId cid

/-! ### Answers -/

/-- What an answered callback counts for is counted once less. -/
theorem filterMap_drop {α : Type} (f : Cont V → Option α) {n : ℕ} {c : Cont V}
    (hc : s.waiting[n]? = some c) :
    ((f c).toList ++ (s.drop n).waiting.filterMap f).Perm (s.waiting.filterMap f) := by
  obtain ⟨hn, rfl⟩ := List.getElem?_eq_some_iff.mp hc
  have hperm := (List.getElem_cons_eraseIdx_perm hn).filterMap f
  rw [List.filterMap_cons] at hperm
  cases hk : f s.waiting[n] with
  | none =>
    rw [hk] at hperm
    exact hperm
  | some a =>
    rw [hk] at hperm
    exact hperm

theorem starts_drop {n : ℕ} {c : Cont V} (hc : s.waiting[n]? = some c) :
    (c.start.toList ++ (s.drop n).starts).Perm s.starts :=
  filterMap_drop Cont.start hc

theorem counts_drop {n : ℕ} {c : Cont V} (hc : s.waiting[n]? = some c) :
    (c.counting.toList ++ (s.drop n).counts).Perm s.counts :=
  filterMap_drop Cont.counting hc

/-- An answered run no longer waits for its entry. -/
theorem Accounts.drop (h : Accounts size s) {n : ℕ} {c : Cont V} (hc : s.waiting[n]? = some c)
    (hcount : c.counting = none) :
    Accounts size (s.drop n) ∧
      ∀ k ∈ c.start, k ∉ (s.drop n).starts ∧ k < s.heap.length ∧ s.callOf k = none := by
  have hstarts := starts_drop hc
  have hcounts := counts_drop hc
  rw [hcount] at hcounts
  have hnodup : (c.start.toList ++ (s.drop n).starts).Nodup := hstarts.nodup_iff.mpr h.starts
  refine ⟨⟨h.nodup, ?_, h.live, (List.nodup_append.mp hnodup).2.1, ?_⟩, ?_⟩
  · intro cid hcid
    rcases h.kept cid hcid with hfreed | hheld | hmem
    · exact .inl hfreed
    · exact .inr (.inl hheld)
    · exact .inr (.inr (hcounts.mem_iff.mpr hmem))
  · intro k hk
    exact h.fresh k (hstarts.mem_iff.mp (List.mem_append_right _ hk))
  · intro k hk
    have hmem : k ∈ c.start.toList := Option.mem_toList.mpr hk
    refine ⟨fun hin => ?_, h.fresh k (hstarts.mem_iff.mp (List.mem_append_left _ hmem))⟩
    exact (List.nodup_append.mp hnodup).2.2 k hmem k hin rfl

/-- The callback of a count is answered and its call is passed on. -/
theorem same_totalling {n : ℕ} {cid : CallId} (hc : s.waiting[n]? = some (.countWatch cid)) :
    Same s ((s.drop n).send (.paged cid 0 1) (.countPage cid)) := by
  refine ⟨rfl, rfl, rfl, List.Subset.refl _, ?_, ?_⟩
  · unfold send
    rw [starts_wait]
    show ((s.drop n).starts ++ []).Perm s.starts
    rw [List.append_nil]
    exact starts_drop hc
  · unfold send
    rw [counts_wait]
    intro c hmem
    have hperm := (counts_drop hc).mem_iff.mpr hmem
    rcases List.mem_append.mp hperm with hin | hin
    · exact List.mem_append_right _ hin
    · exact List.mem_append_left _ hin

/-- The call of a count is released when its page has come or failed. -/
theorem Accounts.counted (h : Accounts size s) {n : ℕ} {cid : CallId}
    (hc : s.waiting[n]? = some (.countPage cid)) :
    Accounts size ((s.drop n).tell (.released cid)) := by
  have hstarts : (s.drop n).starts.Perm s.starts := starts_drop hc
  refine ⟨h.nodup, ?_, h.live, hstarts.nodup_iff.mpr h.starts, ?_⟩
  · intro c hmem
    rcases h.kept c hmem with hfreed | hheld | hcount
    · exact .inl (List.mem_cons_of_mem cid hfreed)
    · exact .inr (.inl hheld)
    · rcases List.mem_append.mp ((counts_drop hc).mem_iff.mpr hcount) with hin | hin
      · obtain rfl := List.mem_singleton.mp hin
        exact .inl (List.mem_cons_self ..)
      · exact .inr (.inr hin)
  · intro k hk
    exact h.fresh k (hstarts.mem_iff.mp hk)

/-- The engine numbers the call of a count. -/
theorem Accounts.counting (h : Accounts size s) {cid : CallId} (hu : s.unissued cid = true) :
    Accounts size ((s.issue cid none).wait (.countWatch cid)) := by
  have hcounts : ((s.issue cid none).wait (.countWatch cid)).counts = s.counts ++ [cid] :=
    counts_wait (s := s.issue cid none) (.countWatch cid)
  have hstarts : ((s.issue cid none).wait (.countWatch cid)).starts = s.starts :=
    (starts_wait (s := s.issue cid none) (.countWatch cid)).trans (List.append_nil _)
  refine ⟨List.nodup_cons.mpr ⟨unissued_iff.mp hu, h.nodup⟩, ?_, h.live, ?_, ?_⟩
  · intro c hmem
    rw [hcounts]
    rcases List.mem_cons.mp hmem with rfl | hmem
    · exact .inr (.inr (List.mem_append_right _ (List.mem_singleton_self _)))
    · rcases h.kept c hmem with hfreed | hheld | hcount
      · exact .inl hfreed
      · exact .inr (.inl hheld)
      · exact .inr (.inr (List.mem_append_left _ hcount))
  · rw [hstarts]
    exact h.starts
  · intro k hk
    rw [hstarts] at hk
    exact h.fresh k hk

/-- One answer that leaves its call to somebody. -/
theorem Accounts.resumed (h : Accounts size s) (hcache : env.cache = some size) {n : ℕ}
    {c : Cont V} {r : Reply V} (hc : s.waiting[n]? = some c) (hkeep : s.Keeping n r)
    (hex : c.executes = true ∨ ∃ cid offset, c = .page cid offset)
    (hst : (s.drop n).resume env c r = some t) : Accounts size t := by
  unfold Keeping at hkeep
  rw [hc] at hkeep
  cases c with
  | page cid offset =>
    have hd := (h.drop hc rfl).1
    cases r with
    | page p =>
      cases p with
      | notReady =>
        cases hst
        exact hd
      | ready p =>
        cases hst
        exact hd.same (same_turn cid p)
    | failed =>
      cases hst
      exact hd
    | _ => cases hst
  | run k q offset done =>
    obtain ⟨hd, hk⟩ := h.drop hc rfl
    cases r with
    | called cid =>
      obtain ⟨hu, heq⟩ := Option.ite_none_right_eq_some.mp hst
      cases heq
      obtain ⟨hstart, hlt, hnone⟩ := hk k rfl
      exact hd.register hcache hu hkeep hlt hnone hstart q offset done
    | failed =>
      cases hst
      exact hd
    | _ => cases hst
  | watch k offset done =>
    have hd := (h.drop hc rfl).1
    cases r with
    | state st =>
      obtain ⟨-, heq⟩ := Option.ite_none_left_eq_some.mp hst
      cases heq
      exact hd.same (same_settle k st offset done)
    | _ => cases hst
  | count =>
    have hd := (h.drop hc rfl).1
    cases r with
    | called cid =>
      obtain ⟨hu, heq⟩ := Option.ite_none_right_eq_some.mp hst
      cases heq
      exact hd.counting hu
    | failed =>
      cases hst
      exact hd
    | _ => cases hst
  | countWatch cid =>
    cases r with
    | state st =>
      obtain rfl : st = .done := hkeep
      cases hst
      exact h.same (same_totalling hc)
    | _ => cases hst
  | countPage cid =>
    cases r with
    | page p =>
      cases hst
      exact h.counted hc
    | failed =>
      cases hst
      exact h.counted hc
    | _ => cases hst
  | write k on target =>
    have hd := (h.drop hc rfl).1
    cases r with
    | called cid => exact hkeep.elim
    | failed =>
      cases hst
      exact hd
    | _ => cases hst
  | writeWatch k on target =>
    have hd := (h.drop hc rfl).1
    cases r with
    | state st =>
      obtain ⟨-, heq⟩ := Option.ite_none_left_eq_some.mp hst
      have hstate : Same (s.drop n) ((s.drop n).amend k fun e => { e with state := st }) :=
        same_amend k (fun e => { e with state := st }) fun _ => rfl
      cases heq
      split
      · exact hd.same (hstate.trans (same_later _))
      · exact hd.same hstate
    | _ => cases hst
  | _ =>
    rcases hex with hex | ⟨cid, offset, heq⟩
    · cases hex
    · cases heq

/-! ### Runs -/

theorem Accounts.perform (h : Accounts size s) (k : Task V)
    (hroom : s.appends (.tick : Order V) = true → s.Room) {ks : List (Task V)}
    (hq : s.queue = k :: ks) : Accounts size (perform env { s with queue := ks } k) := by
  have hpop : Same s { s with queue := ks } :=
    ⟨rfl, rfl, rfl, List.Subset.refl _, List.Perm.refl _, List.Subset.refl _⟩
  have hp : Accounts size { s with queue := ks } := h.same hpop
  unfold appends at hroom
  rw [hq] at hroom
  cases k with
  | render => exact hp.same same_render
  | failed done => exact hp.same (same_finish done false)
  | landed offset done => exact hp.same (same_land offset done)
  | guarded q t => exact hp.run (hpop.room (hroom rfl)) _ q 0 t.done
  | askRun q t => exact hp.same (same_wait rfl)
  | askWrite n on plan statement target => exact hp.same (same_wait rfl)
  | refresh on target =>
    unfold Dock.perform Dock.refresh
    dsimp only
    split
    · rename_i statement hsome
      have hstatement : s.statement = some statement := hsome
      have hr : s.Room := hroom (by rw [hstatement]; rfl)
      exact hp.run (hpop.room hr) _ _ _ none
    · exact hp

theorem Accounts.order (h : Accounts size s) (hcache : env.cache = some size) {o : Order V}
    (hf : s.Frugal o) (hst : s.order env o = some t) : Accounts size t := by
  obtain ⟨hroom, hkeep⟩ := hf
  cases o with
  | run why q offset done =>
    cases hst
    exact h.run (hroom rfl) why q offset done
  | write statement target =>
    cases hst
    exact h.write hroom statement target
  | count src =>
    cases hst
    exact h.same (same_fetchTotal src)
  | tick =>
    obtain ⟨k, ks, hq, rfl⟩ := ticked hst
    exact h.perform k hroom hq
  | answer n r =>
    unfold Dock.order at hst
    dsimp only at hst
    split at hst
    · rename_i cid offset hc
      simp only [Dock.step, hc] at hst
      exact h.resumed hcache hc hkeep (.inr ⟨cid, offset, rfl⟩) hst
    · rename_i c hpage hc
      obtain ⟨hex, hst⟩ := Option.ite_none_right_eq_some.mp hst
      simp only [Dock.step, hc] at hst
      exact h.resumed hcache hc hkeep (.inl hex) hst
    · cases hst

theorem run_accounts (hcache : env.cache = some size) {os : List (Order V)}
    (h : (ledger env).Run Frugal new os s) : Accounts size s :=
  h.invariant (Accounts size) (fun _ _ _ hf ha hst => ha.order hcache hf hst) accounts_new

/-- A call that no count waits for is released or held. -/
theorem Accounts.balanced (h : Accounts size s) (hcounts : s.counts = []) : s.Balanced size := by
  have hheld : ∀ cid ∈ s.unreleased, s.Held cid := by
    intro cid hcid
    obtain ⟨hmem, hfreed⟩ := List.mem_filter.mp hcid
    rcases h.kept cid hmem with hin | hheld | hcount
    · exact absurd hin (of_decide_eq_true hfreed)
    · exact hheld
    · rw [hcounts] at hcount
      cases hcount
  refine ⟨hheld, ?_⟩
  have hnodup : s.unreleased.Nodup := h.nodup.filter _
  have hsub : s.unreleased ⊆ s.live.filterMap s.callOf := by
    intro cid hcid
    obtain ⟨k, hk, hcall⟩ := hheld cid hcid
    refine List.mem_filterMap.mpr ⟨k, ?_, hcall⟩
    rw [live_eq]
    refine List.mem_filter.mpr ⟨hk, ?_⟩
    rw [hcall]
    rfl
  calc s.unreleased.length ≤ (s.live.filterMap s.callOf).length :=
        (List.subperm_of_subset hnodup hsub).length_le
    _ ≤ s.live.length := List.length_filterMap_le _ _
    _ ≤ size := h.live

theorem Over.counts (h : s.Over) : s.counts = [] := by
  unfold Dock.counts
  apply List.filterMap_eq_nil_iff.mpr
  intro c hc
  have hex := h c hc
  cases c <;> first | rfl | cases hex

theorem buffers_balanced (hcache : env.cache = some size) {os : List (Order V)}
    (h : (ledger env).Run Frugal new os s) (hover : s.Over) : s.Balanced size :=
  (run_accounts hcache h).balanced hover.counts

/-- A table with a count, and a cache of one call. -/
def countEnv : Env ℕ := { tableEnv with count := fun _ _ => some "count", cache := some 1 }

def rerun : Why := .refresh none connA.id

/-- The same object is browsed twice, and each count is done. -/
def browses : List (Order ℕ) :=
  [.run rerun (browseOn connA "t") 0 none, .answer 0 (.called 1), .answer 0 (.called 2),
    .answer 0 (.state .done), .answer 1 (.page .notReady), .answer 0 (.state .done),
    .run rerun (browseOn connA "t") 0 none, .answer 1 (.called 3), .answer 0 .failed,
    .answer 0 (.state .failed)]

theorem buffers_balanced_browses :
    ∃ s, (ledger countEnv).Run Frugal new browses s ∧ s.Over ∧ s.unreleased = [3] ∧
      s.Balanced 1 := by
  let check := fun (s : Dock ℕ) (o : Order ℕ) => decide (s.Frugal o)
  have hsome : ((ledger countEnv).execWith check new browses).map
      (fun s => (decide s.Over, s.unreleased)) = some (true, [3]) := by decide
  obtain ⟨s, hs, hview⟩ := Option.map_eq_some_iff.mp hsome
  obtain ⟨hover, hids⟩ := Prod.mk.inj hview
  have hrun : (ledger countEnv).Run Frugal new browses s :=
    Lib.Machine.run_of_execWith (fun _ _ => of_decide_eq_true) hs
  have hover : s.Over := of_decide_eq_true hover
  exact ⟨s, hrun, hover, hids, buffers_balanced rfl hrun hover⟩

/-- A browse whose count fails, and a write. -/
def failedCount : List (Order ℕ) :=
  [.run rerun (browseOn connA "t") 0 none, .answer 0 (.called 1), .answer 0 (.called 2),
    .answer 0 (.state .failed), .answer 0 (.state .done), .write "update" (.fresh 0),
    .answer 0 (.called 3), .answer 0 (.state .failed)]

theorem failed_count_and_write_lost :
    ∃ s, (ledger countEnv).exec new failedCount = some s ∧ s.Over ∧ s.unreleased = [3, 2, 1] ∧
      ¬ s.Held 1 ∧ ¬ s.Held 3 ∧ ¬ s.Balanced 1 := by
  obtain ⟨s, hs, -⟩ := (ledger countEnv).exists_run new failedCount (by decide)
  have hview : ((ledger countEnv).exec new failedCount).map (fun s =>
      (decide s.Over, s.unreleased, decide (s.Held 1), decide (s.Held 3))) =
        some (true, [3, 2, 1], false, false) := by decide
  rw [hs] at hview
  simp only [Option.map_some, Option.some.injEq, Prod.mk.injEq, decide_eq_true_eq,
    decide_eq_false_iff_not] at hview
  obtain ⟨hover, hids, h1, h3⟩ := hview
  refine ⟨s, hs, hover, hids, h1, h3, fun h => h1 (h.1 1 ?_)⟩
  rw [hids]
  decide

end Dock
end LvimDb.Result
