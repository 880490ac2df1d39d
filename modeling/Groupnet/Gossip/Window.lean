import Groupnet.Gossip.Shelf
import Groupnet.Lib.Ring

/-!
# What one digest lists

A delta digest lists the gossipable members that changed past the cursor of the peer's
record.  A full digest leads with up to half a window of them and fills up from the
rolling walk.  The lead comes from two views of the index, own news first, and no member
is in both parts.  So a digest lists no member twice, and the walk of a full one is at
least the other half of the window.
-/

namespace Groupnet

namespace GroupEngine

variable {e : GroupEngine} {x : NodeId} {m : Member} {now : Time} {cursor cap : Nat}

/-! ## The members in id order -/

theorem mem_gossipable :
    x ∈ e.gossipable now ↔ ∃ m, e.record x = some m ∧ e.shouldGossip m now = true := by
  unfold gossipable record
  simp only [List.mem_map, List.mem_filter, Prod.exists,
    Std.TreeMap.mem_toList_iff_getElem?_eq_some]
  constructor
  · rintro ⟨y, m, h, rfl⟩
    exact ⟨m, h⟩
  · rintro ⟨m, h⟩
    exact ⟨x, m, h, rfl⟩

theorem gossipable_sorted (e : GroupEngine) (now : Time) : (e.gossipable now).Pairwise (· < ·) := by
  unfold gossipable
  refine List.Pairwise.map Prod.fst (fun _ _ h => h) ?_
  exact (e.members.ordered_keys_toList.imp fun h => compare_lt_iff_lt.mp h).filter _

/-! ## The members changed past a cursor -/

theorem Exact.mem_changedAfter (he : e.Exact) :
    (x, m) ∈ e.changedAfter cursor ↔ e.record x = some m ∧ cursor < m.changedAt := by
  unfold changedAfter
  simp only [List.mem_filterMap, List.mem_reverse, List.mem_filter, decide_eq_true_eq, Prod.exists,
    Std.TreeMap.mem_toList_iff_getElem?_eq_some, Option.map_eq_some_iff, Prod.mk.injEq]
  constructor
  · rintro ⟨stamp, y, ⟨hfiled, hlt⟩, m', hm', rfl, rfl⟩
    obtain ⟨m'', hm'', rfl⟩ := he.changed_iff.mp hfiled
    cases hm''.symm.trans hm'
    exact ⟨hm', hlt⟩
  · rintro ⟨hm, hlt⟩
    exact ⟨m.changedAt, x, ⟨he.changed_iff.mpr ⟨m, hm, rfl⟩, hlt⟩, m, hm, rfl, rfl⟩

/-- Reading the members up drops those that are not there. -/
theorem fst_readUp_sublist (e : GroupEngine) (row : List (Nat × NodeId)) :
    ((row.filterMap fun p => e.members[p.2]?.map fun m => (p.2, m)).map Prod.fst).Sublist
      (row.map Prod.snd) := by
  induction row with
  | nil => exact List.Sublist.slnil
  | cons p row ih =>
    rw [List.filterMap_cons, List.map_cons]
    cases e.members[p.2]? with
    | none => exact ih.cons _
    | some m => exact ih.cons_cons _

/-- The index has one stamp for each member. -/
theorem Exact.nodup_changedAfter (he : e.Exact) : ((e.changedAfter cursor).map Prod.fst).Nodup := by
  have hstamps : (e.index.changed.toList.map Prod.snd).Nodup := by
    refine List.Nodup.map_on ?_ ?_
    · rintro ⟨stamp, y⟩ hp ⟨stamp', y'⟩ hq heq
      obtain ⟨m, hm, rfl⟩ := he.changed_iff.mp (Std.TreeMap.mem_toList_iff_getElem?_eq_some.mp hp)
      obtain ⟨m', hm', rfl⟩ := he.changed_iff.mp (Std.TreeMap.mem_toList_iff_getElem?_eq_some.mp hq)
      cases heq
      cases hm.symm.trans hm'
      rfl
    · refine e.index.changed.distinct_keys_toList.imp fun hne heq => hne ?_
      rw [heq]
      exact compare_eq_iff_eq.mpr rfl
  refine (e.fst_readUp_sublist _).nodup ?_
  rw [List.map_reverse, List.nodup_reverse]
  exact (List.filter_sublist.map _).nodup hstamps

def newsNodes (e : GroupEngine) : List NodeId :=
  e.index.news.toList.reverse.map fun p => (ofLex (ofLex p).2).2

/-- The index has one piece of news for each member. -/
theorem Exact.nodup_newsNodes (he : e.Exact) : e.newsNodes.Nodup := by
  unfold newsNodes
  rw [List.map_reverse, List.nodup_reverse]
  refine List.Nodup.map_on ?_ ?_
  · intro k hk k' hk' heq
    obtain ⟨y, m, hm, hkey⟩ := (he.indexed.news k).mp (Std.TreeSet.mem_toList.mp hk)
    obtain ⟨y', m', hm', hkey'⟩ := (he.indexed.news k').mp (Std.TreeSet.mem_toList.mp hk')
    obtain ⟨_, rfl⟩ := newsOf_eq_some.mp hkey
    obtain ⟨_, rfl⟩ := newsOf_eq_some.mp hkey'
    have heq : y = y' := heq
    subst heq
    cases hm.symm.trans hm'
    rfl
  · refine e.index.news.distinct_toList.imp fun hne heq => hne ?_
    rw [heq]
    exact Std.ReflCmp.compare_self

/-! ## The lead -/

structure Leads (e : GroupEngine) (now : Time) (cursor : Nat) (x : NodeId) (m : Member) : Prop where
  record : e.record x = some m
  changed : cursor < m.changedAt
  gossips : e.shouldGossip m now = true

theorem leadNews_spec (e : GroupEngine) (now : Time) (cursor cap : Nat)
    (listed news : List NodeId) :
    ∃ more, e.leadNews now cursor cap listed news = listed ++ more ∧ more.Sublist news ∧
      (listed.length ≤ cap → (listed ++ more).length ≤ cap) ∧
      ∀ x ∈ more, x ≠ e.localId ∧ ∃ m, e.Leads now cursor x m ∧ e.hot now m = true := by
  induction news generalizing listed with
  | nil => exact ⟨[], (List.append_nil _).symm, .slnil, by simp, by simp⟩
  | cons y news ih =>
    have hskip : ∃ more, e.leadNews now cursor cap listed news = listed ++ more ∧
        more.Sublist (y :: news) ∧ (listed.length ≤ cap → (listed ++ more).length ≤ cap) ∧
        ∀ x ∈ more, x ≠ e.localId ∧ ∃ m, e.Leads now cursor x m ∧ e.hot now m = true := by
      obtain ⟨more, heq, hsub, hcap, hmore⟩ := ih listed
      exact ⟨more, heq, hsub.cons _, hcap, hmore⟩
    unfold leadNews
    split
    · exact hskip
    next m hm =>
      split
      · exact ⟨[], (List.append_nil _).symm, List.nil_sublist _, by simp, by simp⟩
      next hroom =>
        split
        next hfresh =>
          simp only [Bool.or_eq_true, decide_eq_true_eq, not_or, not_le, Bool.not_eq_true',
            Bool.not_eq_false] at hroom
          simp only [Bool.and_eq_true, decide_eq_true_eq] at hfresh
          obtain ⟨more, heq, hsub, hcap, hmore⟩ := ih (listed ++ [y])
          refine ⟨y :: more, by rw [heq, List.append_assoc]; rfl, hsub.cons_cons _, fun _ => ?_, ?_⟩
          · have hlen := hcap (by rw [List.length_append]; exact hroom.1)
            rwa [List.append_assoc] at hlen
          rintro z (_ | ⟨_, hz⟩)
          · exact ⟨hfresh.1, m, ⟨hm, hfresh.2.1, hfresh.2.2⟩, hroom.2⟩
          · exact hmore z hz
        next => exact hskip

theorem leadChanged_spec (e : GroupEngine) (now : Time) (cap : Nat) (listed : List NodeId)
    (row : List (NodeId × Member)) :
    ∃ more, e.leadChanged now cap listed row = listed ++ more ∧ more.Sublist (row.map Prod.fst) ∧
      (listed.length ≤ cap → (listed ++ more).length ≤ cap) ∧
      ∀ x ∈ more, x ≠ e.localId ∧
        ∃ m, (x, m) ∈ row ∧ e.shouldGossip m now = true ∧ e.hot now m = false := by
  induction row generalizing listed with
  | nil => exact ⟨[], (List.append_nil _).symm, .slnil, by simp, by simp⟩
  | cons p row ih =>
    obtain ⟨y, m⟩ := p
    unfold leadChanged
    split
    · exact ⟨[], (List.append_nil _).symm, List.nil_sublist _, by simp, by simp⟩
    next hroom =>
      split
      next hfresh =>
        simp only [Bool.and_eq_true, decide_eq_true_eq, Bool.not_eq_true'] at hfresh
        obtain ⟨more, heq, hsub, hcap, hmore⟩ := ih (listed ++ [y])
        refine ⟨y :: more, by rw [heq, List.append_assoc]; rfl, hsub.cons_cons _, fun _ => ?_, ?_⟩
        · have hlen := hcap (by rw [List.length_append]; exact not_le.mp hroom)
          rwa [List.append_assoc] at hlen
        rintro z (_ | ⟨_, hz⟩)
        · exact ⟨hfresh.1, m, List.mem_cons_self, hfresh.2.2, hfresh.2.1⟩
        · obtain ⟨hlocal, m', hin, hm'⟩ := hmore z hz
          exact ⟨hlocal, m', List.mem_cons_of_mem _ hin, hm'⟩
      next =>
        obtain ⟨more, heq, hsub, hcap, hmore⟩ := ih listed
        refine ⟨more, heq, hsub.cons _, hcap, fun z hz => ?_⟩
        obtain ⟨hlocal, m', hin, hm'⟩ := hmore z hz
        exact ⟨hlocal, m', List.mem_cons_of_mem _ hin, hm'⟩

/-- The own member leads if it changed. -/
def ownLead (e : GroupEngine) (now : Time) (cursor : Nat) : List NodeId :=
  if (e.record e.localId).any fun m => decide (cursor < m.changedAt) && e.shouldGossip m now then
    [e.localId]
  else []

theorem digestLead_eq (e : GroupEngine) (now : Time) (cursor : Nat) (hcap : cap ≠ 0) :
    e.digestLead now cursor cap = e.leadChanged now cap
      (e.leadNews now cursor cap (e.ownLead now cursor) e.newsNodes) (e.changedAfter cursor) := by
  unfold digestLead ownLead record newsNodes
  rw [if_neg hcap]
  dsimp only
  cases e.members[e.localId]? with
  | none => rfl
  | some m => rfl

theorem ownLead_spec (e : GroupEngine) (now : Time) (cursor : Nat) :
    (e.ownLead now cursor).Nodup ∧ (e.ownLead now cursor).length ≤ 1 ∧
      ∀ x ∈ e.ownLead now cursor, x = e.localId ∧ ∃ m, e.Leads now cursor x m := by
  unfold ownLead
  split
  next hfresh =>
    obtain ⟨m, hm, hfresh⟩ := (Option.any_eq_true _ _).mp hfresh
    simp only [Bool.and_eq_true, decide_eq_true_eq] at hfresh
    refine ⟨List.nodup_singleton _, Nat.le_refl _, fun x hx => ?_⟩
    rw [List.mem_singleton.mp hx]
    exact ⟨rfl, m, hm, hfresh.1, hfresh.2⟩
  next => exact ⟨List.nodup_nil, Nat.zero_le _, by simp⟩

/-- The lead lists no member twice, at most `cap`, and only members that changed. -/
theorem Exact.digestLead_spec (he : e.Exact) (now : Time) (cursor cap : Nat) :
    (e.digestLead now cursor cap).Nodup ∧ (e.digestLead now cursor cap).length ≤ cap ∧
      ∀ x ∈ e.digestLead now cursor cap, ∃ m, e.Leads now cursor x m := by
  by_cases hcap : cap = 0
  · unfold digestLead
    rw [if_pos hcap]
    exact ⟨List.nodup_nil, Nat.zero_le _, by simp⟩
  rw [e.digestLead_eq now cursor hcap]
  obtain ⟨hown, honce, hself⟩ := e.ownLead_spec now cursor
  obtain ⟨news, hnews, hsub, hfits, hhot⟩ :=
    e.leadNews_spec now cursor cap (e.ownLead now cursor) e.newsNodes
  rw [hnews]
  obtain ⟨rest, hrest, hsub', hfits', hcool⟩ :=
    e.leadChanged_spec now cap (e.ownLead now cursor ++ news) (e.changedAfter cursor)
  rw [hrest]
  refine ⟨?_, hfits' (hfits (honce.trans (Nat.one_le_iff_ne_zero.mpr hcap))), ?_⟩
  · refine List.Nodup.append (List.Nodup.append hown (hsub.nodup he.nodup_newsNodes) ?_)
      (hsub'.nodup he.nodup_changedAfter) ?_
    · intro x hx hx'
      exact (hhot x hx').1 (hself x hx).1
    -- The rest is not the own member, and is not hot as the news is.
    intro x hx hx'
    obtain ⟨hlocal, m, hin, _, hcold⟩ := hcool x hx'
    rcases List.mem_append.mp hx with hx | hx
    · exact hlocal (hself x hx).1
    obtain ⟨_, m', hleads, hwarm⟩ := hhot x hx
    cases hleads.record.symm.trans (he.mem_changedAfter.mp hin).1
    cases hwarm.symm.trans hcold
  · intro x hx
    rcases List.mem_append.mp hx with hx | hx
    · rcases List.mem_append.mp hx with hx | hx
      · exact (hself x hx).2
      · obtain ⟨_, m, hleads, _⟩ := hhot x hx
        exact ⟨m, hleads⟩
    · obtain ⟨_, m, hin, hgossips, _⟩ := hcool x hx
      obtain ⟨hm, hlt⟩ := he.mem_changedAfter.mp hin
      exact ⟨m, hm, hlt, hgossips⟩

theorem Leads.mem_gossipable (h : e.Leads now cursor x m) : x ∈ e.gossipable now :=
  GroupEngine.mem_gossipable.mpr ⟨m, h.record, h.gossips⟩

/-! ## The walk -/

/-- The fill takes the walk up to some place, the leading members skipped, and stops there
only when the window is full. -/
theorem fillWindow_spec (leading : List NodeId) (window : Nat) (listed : List NodeId)
    (resume : Option NodeId) (walk : List NodeId) :
    ∃ n ≤ walk.length,
      fillWindow leading window listed resume walk =
        (listed ++ (walk.take n).filter (· ∉ leading), if n = 0 then resume else walk[n - 1]?) ∧
      (n < walk.length → window ≤ listed.length + n) ∧
      (listed.length ≤ window →
        (listed ++ (walk.take n).filter (· ∉ leading)).length ≤ window) := by
  induction walk generalizing listed resume with
  | nil => exact ⟨0, Nat.le_refl _, by simp [fillWindow], by simp, by simp⟩
  | cons y walk ih =>
    have hlast : ∀ n, (if n = 0 then some y else walk[n - 1]?) = (y :: walk)[n]? := by
      intro n
      cases n <;> rfl
    unfold fillWindow
    split
    next hfull => exact ⟨0, Nat.zero_le _, by simp, fun _ => hfull, by simp⟩
    next hroom =>
      split
      next hleads =>
        obtain ⟨n, hn, heq, hstop, hfits⟩ := ih listed (some y)
        refine ⟨n + 1, Nat.succ_le_succ hn, ?_, fun hlt => ?_, fun hle => ?_⟩
        · rw [heq, hlast, List.take_succ_cons, List.filter_cons_of_neg (by simpa using hleads)]
          rfl
        · have := hstop (Nat.lt_of_succ_lt_succ hlt)
          omega
        · rw [List.take_succ_cons, List.filter_cons_of_neg (by simpa using hleads)]
          exact hfits hle
      next hnew =>
        obtain ⟨n, hn, heq, hstop, hfits⟩ := ih (listed ++ [y]) (some y)
        have hsame : listed ++ [y] ++ (walk.take n).filter (· ∉ leading) =
            listed ++ ((y :: walk).take (n + 1)).filter (· ∉ leading) := by
          rw [List.take_succ_cons, List.filter_cons_of_pos (by simpa using hnew), List.append_assoc]
          rfl
        refine ⟨n + 1, Nat.succ_le_succ hn, ?_, fun hlt => ?_, fun hle => ?_⟩
        · rw [heq, hlast, hsame]
          rfl
        · have := hstop (Nat.lt_of_succ_lt_succ hlt)
          rw [List.length_append, List.length_singleton] at this
          omega
        · rw [← hsame]
          exact hfits (by rw [List.length_append]; exact not_le.mp hroom)

/-- The rolling walk is the ring of the gossipable members, from some place. -/
theorem digestWalk_isRotation (e : GroupEngine) (dest : NodeId) (now : Time)
    (resume : Option NodeId) :
    ∃ s, e.digestWalk dest now resume = (e.gossipable now).rotate s := by
  unfold digestWalk
  cases resume with
  | some last => exact Ring.past_isRotation (e.gossipable_sorted now) last
  | none =>
    dsimp only
    split
    next hnil => exact ⟨0, by rw [List.eq_nil_of_length_eq_zero hnil]; rfl⟩
    next hsome =>
      refine ⟨_, (List.rotate_eq_drop_append_take (Nat.le_of_lt ?_)).symm⟩
      exact Nat.mod_lt _ (Nat.pos_of_ne_zero hsome)

/-- It is read off the node, the peer and the ring. -/
theorem digestWalk_congr {e' : GroupEngine} {now' : Time} (hlocal : e'.localId = e.localId)
    (hring : e'.gossipable now' = e.gossipable now) (dest : NodeId) (resume : Option NodeId) :
    e'.digestWalk dest now' resume = e.digestWalk dest now resume := by
  unfold digestWalk
  rw [hring, hlocal]

/-! ## The two digests -/

/-- Where the walk of the next full digest to `dest` resumes. -/
def peerResume (e : GroupEngine) (dest : NodeId) : Option NodeId :=
  e.digestPeers[dest]?.bind PeerDigest.resume

/-- The cursor the next digest to `dest` starts from. -/
def peerCursor (e : GroupEngine) (dest : NodeId) : Nat :=
  (e.digestPeers[dest]?.map PeerDigest.cursor).getD 0

/-- The gossipable members that changed past the cursor, newest first. -/
def fresh (e : GroupEngine) (dest : NodeId) (now : Time) : List (NodeId × Member) :=
  (e.changedAfter (e.peerCursor dest)).filter fun p => e.shouldGossip p.2 now

/-- A digest is a delta, over a record of an earlier one and with every change in the
window, or it is full. -/
theorem digestFor_cases (e : GroupEngine) (dest : NodeId) (now : Time) :
    (∃ prev, e.digestPeers[dest]? = some prev ∧ prev.visits ≠ 0 ∧
      (e.fresh dest now).length ≤ e.config.digestWindow.val ∧
      e.digestFor dest now = (((e.fresh dest now).map Prod.fst).insertionSort (· ≤ ·), false,
        ⟨prev.visits + 1, e.changeClock, prev.resume⟩)) ∨
    ∃ visits, e.digestFor dest now =
      let window := e.config.digestWindow.val
      let lead := e.digestLead now (e.peerCursor dest) (window / 2)
      let filled := fillWindow lead window lead (e.peerResume dest)
        (e.digestWalk dest now (e.peerResume dest))
      (filled.1, true, ⟨visits, e.changeClock, filled.2⟩) := by
  unfold digestFor
  dsimp only
  split
  next hdelta =>
    simp only [Bool.and_eq_true, decide_eq_true_eq] at hdelta
    obtain ⟨hturn, hfits⟩ := hdelta
    refine Or.inl ?_
    cases hprev : e.digestPeers[dest]? with
    | none =>
      rw [hprev] at hturn
      exact absurd (Nat.zero_mod _) hturn
    | some prev =>
      -- At most a window of the first window and one are all there are.
      have htake : (e.fresh dest now).take (e.config.digestWindow.val + 1) = e.fresh dest now := by
        refine List.take_of_length_le (not_lt.mp fun hlt => ?_)
        have hlen : ((e.fresh dest now).take (e.config.digestWindow.val + 1)).length ≤ _ := hfits
        rw [List.length_take_of_le (Nat.le_of_lt hlt)] at hlen
        omega
      refine ⟨prev, rfl, fun hzero => ?_, ?_, ?_⟩
      · refine hturn ?_
        rw [hprev]
        show prev.visits % _ = 0
        rw [hzero, Nat.zero_mod]
      · rw [← htake]
        exact hfits
      · have hcursor : e.peerCursor dest = prev.cursor := by rw [peerCursor, hprev]; rfl
        unfold fresh at htake ⊢
        rw [hcursor] at htake ⊢
        exact congrArg (fun row : List (NodeId × Member) =>
          ((row.map Prod.fst).insertionSort (· ≤ ·),
          false, (⟨prev.visits + 1, e.changeClock, prev.resume⟩ : PeerDigest))) htake
  next => exact Or.inr ⟨_, rfl⟩

/-- A delta digest lists exactly the gossipable members that changed past the cursor the
record holds, each once, and leaves the walk where it was. -/
theorem Exact.digestFor_delta (he : e.Exact) {dest : NodeId}
    (h : (e.digestFor dest now).2.1 = false) :
    ∃ prev, e.digestPeers[dest]? = some prev ∧ prev.visits ≠ 0 ∧
      (e.digestFor dest now).2.2.resume = prev.resume ∧ (e.digestFor dest now).1.Nodup ∧
      (e.digestFor dest now).1.length ≤ e.config.digestWindow.val ∧
      ∀ x, x ∈ (e.digestFor dest now).1 ↔
        ∃ m, e.record x = some m ∧ prev.cursor < m.changedAt ∧ e.shouldGossip m now = true := by
  rcases e.digestFor_cases dest now with ⟨prev, hprev, hvisits, hfits, heq⟩ | ⟨visits, heq⟩
  · have hcursor : e.peerCursor dest = prev.cursor := by rw [peerCursor, hprev]; rfl
    rw [heq]
    dsimp only
    refine ⟨prev, hprev, hvisits, rfl, ?_, ?_, fun x => ?_⟩
    · rw [(List.perm_insertionSort _ _).nodup_iff]
      exact (List.filter_sublist.map _).nodup he.nodup_changedAfter
    · rwa [List.length_insertionSort, List.length_map]
    simp only [List.mem_insertionSort, List.mem_map, fresh, List.mem_filter, Prod.exists,
      he.mem_changedAfter, hcursor, and_assoc]
    constructor
    · rintro ⟨y, m, hm, hlt, hgossips, rfl⟩
      exact ⟨m, hm, hlt, hgossips⟩
    · rintro ⟨m, hm, hlt, hgossips⟩
      exact ⟨x, m, hm, hlt, hgossips, rfl⟩
  · rw [heq] at h
    cases h

/-- A full digest lists, no member twice and within the window, what its walk goes past.
The walk goes past half a window or all there is. -/
theorem Exact.digestFor_full (he : e.Exact) {dest : NodeId}
    (h : (e.digestFor dest now).2.1 = true) :
    (e.digestFor dest now).1.Nodup ∧
      (e.digestFor dest now).1.length ≤ e.config.digestWindow.val ∧
      (∀ x ∈ (e.digestFor dest now).1, x ∈ e.gossipable now) ∧
      ∃ n ≤ (e.gossipable now).length,
        min (e.config.digestWindow.val - e.config.digestWindow.val / 2)
          (e.gossipable now).length ≤ n ∧
        (∀ x ∈ (e.digestWalk dest now (e.peerResume dest)).take n, x ∈ (e.digestFor dest now).1) ∧
        (e.digestFor dest now).2.2.resume =
          if n = 0 then e.peerResume dest
          else (e.digestWalk dest now (e.peerResume dest))[n - 1]? := by
  rcases e.digestFor_cases dest now with ⟨_, _, _, _, heq⟩ | ⟨visits, heq⟩
  · rw [heq] at h
    cases h
  rw [heq]
  dsimp only
  obtain ⟨hnodup, hcap, hleads⟩ :=
    he.digestLead_spec now (e.peerCursor dest) (e.config.digestWindow.val / 2)
  obtain ⟨s, hwalk⟩ := e.digestWalk_isRotation dest now (e.peerResume dest)
  generalize e.digestLead now (e.peerCursor dest) (e.config.digestWindow.val / 2) =
    lead at hnodup hcap hleads ⊢
  obtain ⟨n, hn, hfill, hstop, hfits⟩ := fillWindow_spec lead e.config.digestWindow.val lead
    (e.peerResume dest) (e.digestWalk dest now (e.peerResume dest))
  rw [hfill]
  have hlen : (e.digestWalk dest now (e.peerResume dest)).length = (e.gossipable now).length := by
    rw [hwalk, List.length_rotate]
  have hsorted : (e.gossipable now).Nodup := (e.gossipable_sorted now).imp ne_of_lt
  refine ⟨?_, hfits (hcap.trans (Nat.div_le_self _ _)), fun x hx => ?_, n, hlen ▸ hn, ?_,
    fun x hx => ?_, rfl⟩
  · refine hnodup.append ?_ fun x hx hx' => ?_
    · rw [hwalk]
      exact (List.filter_sublist.trans (List.take_sublist _ _)).nodup
        (List.nodup_rotate.mpr hsorted)
    · simp only [List.mem_filter, decide_eq_true_eq] at hx'
      exact hx'.2 hx
  · rcases List.mem_append.mp hx with hx | hx
    · obtain ⟨m, hm⟩ := hleads x hx
      exact hm.mem_gossipable
    have hin := List.mem_of_mem_take (List.mem_filter.mp hx).1
    rw [hwalk] at hin
    exact List.mem_rotate.mp hin
  · rcases Nat.lt_or_ge n (e.gossipable now).length with hlt | hge
    · have := hstop (hlen ▸ hlt)
      omega
    · omega
  · by_cases hin : x ∈ lead
    · exact List.mem_append_left _ hin
    · exact List.mem_append_right _ (List.mem_filter.mpr ⟨hx, by simpa using hin⟩)

end GroupEngine

end Groupnet
