import Groupnet.Lib.Run
import Groupnet.Network.Table

/-!
# The index of reachable destinations

The index is kept one destination at a time, and is at every instant what a look at the whole table
would give.  For each destination it holds the latest lapse among the admitted candidates, or
nothing when every one of them has lapsed.  An advert whose link admits it need not look at the
other candidates, since none of them is fresher.
-/

namespace Groupnet.Network

namespace Table

variable {t : Table} {r : Routing} {now last : Nat}

/-! ## Candidates -/

/-- The candidate of a destination over one link and neighbour. -/
def choice (t : Table) (target : NodeId) (key : TransportId ×ₗ NodeId) : Option Candidate :=
  t.candidates[target]?.bind fun choices => choices[key]?

theorem mem_candidatesOf {target : NodeId} {c : Candidate} :
    c ∈ t.candidatesOf target ↔ ∃ key, t.choice target key = some c := by
  unfold candidatesOf choice
  cases t.candidates[target]? with
  | none => simp
  | some choices =>
    simp only [Option.bind_some, List.mem_map, Prod.exists, exists_eq_right,
      Std.TreeMap.mem_toList_iff_getElem?_eq_some]

theorem choice_retain (keep : NodeId → TransportId ×ₗ NodeId → Candidate → Bool) (target : NodeId)
    (key : TransportId ×ₗ NodeId) :
    (t.retain keep).choice target key = (t.choice target key).filter (keep target key) := by
  unfold choice retain
  simp only [Std.TreeMap.getElem?_filterMap']
  cases t.candidates[target]? with
  | none => rfl
  | some choices =>
    have hfilter : (choices.filter (keep target))[key]? = choices[key]?.filter (keep target key) :=
      Std.TreeMap.getElem?_filter'
    simp only [Option.bind_some]
    split
    · rename_i hempty
      rw [Option.bind_none, ← hfilter]
      exact (Std.TreeMap.getElem?_of_isEmpty hempty).symm
    · exact hfilter

theorem choice_put (c : Candidate) (target : NodeId) (key : TransportId ×ₗ NodeId) :
    (t.put c).choice target key =
      if c.route.destination = target ∧ toLex (c.route.transport, c.route.nextHop) = key then some c
      else t.choice target key := by
  unfold choice put
  simp only [Std.TreeMap.getElem?_insert, compare_eq_iff_eq]
  by_cases htarget : c.route.destination = target
  · rw [if_pos htarget, Option.bind_some, Std.TreeMap.getElem?_insert]
    simp only [compare_eq_iff_eq, htarget, true_and]
    cases t.candidates[target]? with
    | none => simp
    | some choices => rfl
  · rw [if_neg htarget, if_neg fun h => htarget h.1]

/-! ## Lapses -/

theorem lapseOf_mono (r : Routing) {a b : Nat} (h : a ≤ b) : lapseOf r a ≤ lapseOf r b := by
  unfold lapseOf
  split
  · split
    · exact Lapse.instant_le_instant.mpr (by omega)
    · exact Lapse.le_never _
  · rw [if_neg (by omega)]

/-- A candidate has not lapsed while it was refreshed less than a time to live ago. -/
theorem isAfter_lapseOf {updated : Nat} (hupdated : updated ≤ now) (hnow : now ≤ r.clockEnd) :
    (lapseOf r updated).isAfter now ↔ now - updated < r.routeTtl := by
  unfold lapseOf
  split
  · simp only [Lapse.isAfter, decide_eq_true_eq]
    omega
  · simp only [Lapse.isAfter, true_iff]
    omega

theorem isAfter_of_le {l : Lapse} (h : last ≤ now) (hl : l.isAfter now) : l.isAfter last := by
  cases l with
  | never => rfl
  | instant t =>
    simp only [Lapse.isAfter, decide_eq_true_eq] at hl ⊢
    omega

/-- A lapse that has passed is not later than one that has not. -/
theorem le_of_isAfter {l l' : Lapse} (h : ¬ l.isAfter now) (h' : l'.isAfter now) : l ≤ l' := by
  rcases le_total l l' with hle | hle
  · exact hle
  · exact absurd (Lapse.isAfter_mono hle h') h

/-! ## What the index holds -/

/-- The lapse that is held is the latest of the candidates', or else all of them have lapsed. -/
structure Covers (r : Routing) (now : Nat) (cs : List Candidate) (held : Option Lapse) : Prop where
  attained : ∀ u, held = some u → ∃ c ∈ cs, lapseOf r c.updated = u
  latest : ∀ u, held = some u → ∀ c ∈ cs, lapseOf r c.updated ≤ u
  lapsed : held = none → ∀ c ∈ cs, ¬ (lapseOf r c.updated).isAfter now

namespace Covers

variable {cs : List Candidate} {held : Option Lapse}

theorem nil : Covers r now [] none := ⟨nofun, nofun, nofun⟩

section

variable (h : Covers r last cs held) (hle : last ≤ now)

include h hle

theorem mono : Covers r now cs held where
  __ := h
  lapsed hnone c hc hafter := h.lapsed hnone c hc (isAfter_of_le hle hafter)

theorem expire : Covers r now cs (held.filter (Lapse.isAfter now)) := by
  cases held with
  | none => exact h.mono hle
  | some u =>
    rw [Option.filter_some]
    split
    · exact h.mono hle
    rename_i hlapsed
    refine ⟨nofun, nofun, fun _ c hc hafter => hlapsed ?_⟩
    exact Lapse.isAfter_mono (h.latest u rfl c hc) hafter

/-- Something is held past an instant just when a candidate is. -/
theorem isSome_filter_iff :
    (held.filter (Lapse.isAfter now)).isSome ↔ ∃ c ∈ cs, (lapseOf r c.updated).isAfter now := by
  constructor
  · intro hsome
    obtain ⟨u, hu⟩ := Option.isSome_iff_exists.mp hsome
    obtain ⟨hheld, hafter⟩ := Option.filter_eq_some_iff.mp hu
    obtain ⟨c, hc, rfl⟩ := h.attained u hheld
    exact ⟨c, hc, hafter⟩
  · rintro ⟨c, hc, hafter⟩
    cases hheld : held with
    | none => exact absurd (isAfter_of_le hle hafter) (h.lapsed hheld c hc)
    | some u =>
      have hu := Lapse.isAfter_mono (h.latest u hheld c hc) hafter
      simp [Option.filter_some, hu]

end

end Covers

def admittedOf (t : Table) (target : NodeId) : List Candidate :=
  (t.candidatesOf target).filter t.admitted

theorem covers_liveUntil (t : Table) (r : Routing) (target : NodeId) (now : Nat) :
    Covers r now (t.admittedOf target) (t.liveUntil r target now) := by
  have hlive : ∀ c, c ∈ (t.candidatesOf target).filter (t.live r now) ↔
      c ∈ t.admittedOf target ∧ (lapseOf r c.updated).isAfter now := by
    intro c
    simp only [admittedOf, live, List.mem_filter, Bool.and_eq_true]
    tauto
  refine ⟨fun u hu => ?_, fun u hu c hc => ?_, fun hnone c hc hafter => ?_⟩
  · obtain ⟨c, hc, hlapse⟩ := List.mem_map.mp (List.max?_mem hu)
    exact ⟨c, ((hlive c).mp hc).1, hlapse⟩
  · obtain ⟨c', hc', rfl⟩ := List.mem_map.mp (List.max?_mem hu)
    by_cases hafter : (lapseOf r c.updated).isAfter now
    · exact (List.max?_eq_some_iff.mp hu).2 _
        (List.mem_map_of_mem ((hlive c).mpr ⟨hc, hafter⟩))
    · exact le_of_isAfter hafter ((hlive c').mp hc').2
  · rw [liveUntil, List.max?_eq_none_iff, List.map_eq_nil_iff] at hnone
    exact List.not_mem_nil (hnone ▸ (hlive c).mpr ⟨hc, hafter⟩)

/-! ## Updates of the index -/

@[simp] theorem liveUntil_reach (t : Table) (reach : Reach) (target : NodeId) (now : Nat) :
    { t with reach := reach }.liveUntil r target now = t.liveUntil r target now := rfl

/-- Refreshing some destinations changes the index for these alone. -/
theorem foldl_reachRefresh (targets : List NodeId) (t : Table) (r : Routing) (now : Nat) :
    ∃ reach, targets.foldl (fun t target => t.reachRefresh r target now) t =
      { t with reach := reach } ∧ (t.reach.index.Paired → reach.index.Paired) ∧
      ∀ target, reach.index.held[target]? =
        if target ∈ targets then t.liveUntil r target now else t.reach.index.held[target]? := by
  induction targets generalizing t with
  | nil => exact ⟨t.reach, rfl, id, fun _ => by simp⟩
  | cons first targets ih =>
    obtain ⟨reach, hfold, hpaired, hheld⟩ := ih (t.reachRefresh r first now)
    refine ⟨reach, hfold, fun h => hpaired (h.update _ _), fun target => ?_⟩
    rw [hheld]
    simp only [reachRefresh, liveUntil_reach, Expiry.held_update, List.mem_cons]
    by_cases hfirst : first = target
    · subst hfirst
      simp
    · simp [hfirst, Ne.symm hfirst]

/-- The index that is built from the whole table covers it. -/
theorem reachRebuild_spec (t : Table) (r : Routing) (now : Nat) :
    ∃ reach, t.reachRebuild r now = { t with reach := reach } ∧ reach.index.Paired ∧
      ∀ target, Covers r now (t.admittedOf target) reach.index.held[target]? := by
  obtain ⟨reach, hfold, hpaired, hheld⟩ :=
    foldl_reachRefresh t.candidates.keys { t with reach := ⟨.empty, false⟩ } r now
  refine ⟨{ reach with
    changed := t.reach.changed || reach.index.held.keys != t.reach.index.held.keys }, ?_,
    hpaired Expiry.paired_empty, fun target => ?_⟩
  · unfold reachRebuild
    rw [hfold]
  change Covers r now (t.admittedOf target) reach.index.held[target]?
  rw [hheld]
  split
  · exact covers_liveUntil t r target now
  rename_i hkey
  have hnone : t.candidates[target]? = none := by
    rw [Std.TreeMap.mem_keys] at hkey
    exact Std.TreeMap.getElem?_eq_none hkey
  have hempty : t.admittedOf target = [] := by
    simp [admittedOf, candidatesOf, hnone]
  rw [hempty]
  simpa [Expiry.empty] using Covers.nil

/-! ## The table -/

/-- A route starts here, goes on to its neighbour, ends at its destination, repeats no node and is
not too long. -/
structure Routed (r : Routing) (target : NodeId) (key : TransportId ×ₗ NodeId) (c : Candidate) :
    Prop where
  destination : c.route.destination = target
  key : toLex (c.route.transport, c.route.nextHop) = key
  first : c.route.path.head? = some r.localId
  second : c.route.path[1]? = some c.route.nextHop
  last : c.route.path.getLast? = some target
  nodup : c.route.path.Nodup
  length : c.route.path.length ≤ r.maxHops

/-- Every candidate is a route over a link that was registered, and was refreshed by now. -/
def Sound (r : Routing) (t : Table) (now : Nat) : Prop :=
  ∀ target key c, t.choice target key = some c →
    Routed r target key c ∧ c.updated ≤ now ∧ c.route.transport < t.nextLink

/-- The index is what a look at the whole table would give. -/
structure Indexed (r : Routing) (t : Table) (now : Nat) : Prop where
  sound : Sound r t now
  paired : t.reach.index.Paired
  covers : ∀ target, Covers r now (t.admittedOf target) t.reach.index.held[target]?

theorem Sound.mono (h : Sound r t last) (hle : last ≤ now) : Sound r t now := by
  intro target key c hc
  obtain ⟨hrouted, hupdated, hlink⟩ := h target key c hc
  exact ⟨hrouted, hupdated.trans hle, hlink⟩

theorem Sound.retain (h : Sound r t now)
    (keep : NodeId → TransportId ×ₗ NodeId → Candidate → Bool) : Sound r (t.retain keep) now := by
  intro target key c hc
  rw [choice_retain] at hc
  exact h target key c (Option.filter_eq_some_iff.mp hc).1

theorem Indexed.mono (h : Indexed r t last) (hle : last ≤ now) : Indexed r t now :=
  ⟨h.sound.mono hle, h.paired, fun target => (h.covers target).mono hle⟩

theorem Indexed.expire (h : Indexed r t last) (hle : last ≤ now) :
    Indexed r (t.reachExpire now) now where
  sound := h.sound.mono hle
  paired := h.paired.expire now
  covers target := by
    have hheld : (t.reachExpire now).reach.index.held[target]? =
        t.reach.index.held[target]?.filter (Lapse.isAfter now) := h.paired.held_expire now target
    rw [hheld]
    exact (h.covers target).expire hle

theorem indexed_rebuild (h : Sound r t now) : Indexed r (t.reachRebuild r now) now := by
  obtain ⟨reach, hrebuild, hpaired, hcovers⟩ := reachRebuild_spec t r now
  rw [hrebuild]
  exact ⟨h, hpaired, hcovers⟩

section

variable (h : Indexed r t last) (hle : last ≤ now)

include h hle

theorem Indexed.announce (seen : NodeId → TransportId ×ₗ NodeId → Nat) :
    Indexed r (t.announce r seen now) now :=
  indexed_rebuild ((h.sound.mono hle).retain _)

theorem Indexed.remove (id : TransportId) : Indexed r (t.remove r id now) now := by
  have hsound : Sound r { t with links := t.links.erase id } now := h.sound.mono hle
  exact indexed_rebuild (hsound.retain _)

theorem Indexed.neighbors (id : TransportId)
    (registries : TransportId → Std.TreeMap NodeId SessionId) :
    Indexed r ((RouterState.withRegistries t registries).neighborsChanged r id now) now := by
  have hsound : Sound r (RouterState.withRegistries t registries) now := h.sound.mono hle
  exact indexed_rebuild (hsound.retain _)

/-- A new link admits nothing that is already in the table. -/
theorem Indexed.attach (link : Link) : Indexed r (t.attachLink r link) now := by
  unfold attachLink
  split
  · exact h.mono hle
  split
  · exact h.mono hle
  rename_i next hnext
  obtain ⟨-, rfl⟩ := checkedAdd_eq_some hnext
  refine ⟨fun target key c hc => ?_, h.paired, fun target => ?_⟩
  · obtain ⟨hrouted, hupdated, hlink⟩ := h.sound target key c hc
    exact ⟨hrouted, hupdated.trans hle, Nat.lt_succ_of_lt hlink⟩
  have hsame : Table.admittedOf { t with
      links := t.links.insert t.nextLink link
      nextLink := t.nextLink + 1 } target = t.admittedOf target := by
    refine List.filter_congr fun c hc => ?_
    obtain ⟨key, hkey⟩ := mem_candidatesOf.mp hc
    have hlink := (h.sound target key c hkey).2.2
    simp only [admitted, Std.TreeMap.getElem?_insert, compare_eq_iff_eq, hlink.ne', if_false]
  rw [hsame]
  exact (h.covers target).mono hle

end

/-! ## Adverts -/

/-- After an advert that its link admits, its destination is held until the advert lapses. -/
theorem reachAdvert_spec (t : Table) (r : Routing) (target : NodeId) (now : Nat)
    (hold : ∀ u, t.reach.index.held[target]? = some u → u ≤ lapseOf r now) :
    ∃ reach, t.reachAdvert r target true now = { t with reach := reach } ∧
      (t.reach.index.Paired → reach.index.Paired) ∧
      ∀ target', reach.index.held[target']? =
        if target = target' then some (lapseOf r now) else t.reach.index.held[target']? := by
  have hnext : t.reach.index.held[target]?.elim (lapseOf r now) (max · (lapseOf r now)) =
      lapseOf r now := by
    cases hheld : t.reach.index.held[target]? with
    | none => rfl
    | some u => exact max_eq_right (hold u hheld)
  simp only [reachAdvert, hnext, Bool.not_true, Bool.false_eq_true, if_false]
  split
  · rename_i hsame
    refine ⟨t.reach, rfl, id, fun target' => ?_⟩
    split
    · rename_i htarget
      rw [← htarget, hsame]
    · rfl
  · refine ⟨_, rfl, fun h => h.update _ _, fun target' => ?_⟩
    by_cases htarget : target = target' <;> simp [Expiry.held_update, htarget]

theorem candidatesOf_put {c : Candidate} {target : NodeId} (h : c.route.destination ≠ target) :
    (t.put c).candidatesOf target = t.candidatesOf target := by
  unfold candidatesOf put
  simp only [Std.TreeMap.getElem?_insert, compare_eq_iff_eq, h, if_false]

theorem Sound.put {c : Candidate} (h : Sound r t now)
    (hrouted : Routed r c.route.destination (toLex (c.route.transport, c.route.nextHop)) c)
    (hupdated : c.updated ≤ now) (hlink : c.route.transport < t.nextLink) :
    Sound r (t.put c) now := by
  intro target key c' hc'
  rw [choice_put] at hc'
  split at hc'
  · rename_i hplace
    obtain ⟨rfl, rfl⟩ := hplace
    cases hc'
    exact ⟨hrouted, hupdated, hlink⟩
  · exact h target key c' hc'

/-- The table after an advert, with what has lapsed taken out. -/
theorem Indexed.put {c : Candidate} (h : Indexed r t last) (hle : last ≤ now)
    (hrouted : Routed r c.route.destination (toLex (c.route.transport, c.route.nextHop)) c)
    (hupdated : c.updated = now) (hlink : c.route.transport < t.nextLink) :
    Indexed r
      (((t.put c).reachExpire now).reachAdvert r c.route.destination ((t.put c).admitted c) now)
      now := by
  have hsound : Sound r (t.put c) now := (h.sound.mono hle).put hrouted hupdated.le hlink
  have hexpired := h.expire hle
  have hpaired : ((t.put c).reachExpire now).reach.index.Paired := hexpired.paired
  have hothers : ∀ target, c.route.destination ≠ target →
      Covers r now ((t.put c).admittedOf target)
        ((t.put c).reachExpire now).reach.index.held[target]? := by
    intro target htarget
    have hsame : (t.put c).admittedOf target = t.admittedOf target :=
      congrArg (List.filter t.admitted) (candidatesOf_put htarget)
    rw [hsame]
    exact hexpired.covers target
  cases hadmitted : (t.put c).admitted c with
  | false =>
    refine ⟨hsound, hpaired.update _ _, fun target => ?_⟩
    have hheld := Expiry.held_update ((t.put c).reachExpire now).reach.index c.route.destination
      target (((t.put c).reachExpire now).liveUntil r c.route.destination now)
    change Covers r now ((t.put c).admittedOf target)
      (Expiry.update _ _
        (((t.put c).reachExpire now).liveUntil r c.route.destination now)).held[target]?
    rw [hheld]
    split
    · rename_i htarget
      subst htarget
      exact covers_liveUntil (t.put c) r _ now
    · exact hothers target ‹_›
  | true =>
    -- what the index held was the lapse of a candidate that was refreshed earlier
    have hold : ∀ u, ((t.put c).reachExpire now).reach.index.held[c.route.destination]? = some u →
        u ≤ lapseOf r now := by
      intro u hu
      obtain ⟨c', hc', rfl⟩ := (hexpired.covers c.route.destination).attained u hu
      obtain ⟨key, hkey⟩ := mem_candidatesOf.mp (List.mem_of_mem_filter hc')
      exact lapseOf_mono r (hexpired.sound _ key c' hkey).2.1
    obtain ⟨reach, hreach, hkeeps, hheld⟩ :=
      reachAdvert_spec ((t.put c).reachExpire now) r c.route.destination now hold
    rw [hreach]
    refine ⟨hsound, hkeeps hpaired, fun target => ?_⟩
    change Covers r now ((t.put c).admittedOf target) reach.index.held[target]?
    rw [hheld]
    split
    · rename_i htarget
      subst htarget
      have hmem : c ∈ (t.put c).admittedOf c.route.destination := by
        refine List.mem_filter.mpr ⟨mem_candidatesOf.mpr
          ⟨toLex (c.route.transport, c.route.nextHop), ?_⟩, hadmitted⟩
        rw [choice_put, if_pos ⟨rfl, rfl⟩]
      refine ⟨fun u hu => ⟨c, hmem, ?_⟩, fun u hu c' hc' => ?_, nofun⟩
      · rw [hupdated]
        exact Option.some.inj hu
      obtain ⟨key, hkey⟩ := mem_candidatesOf.mp (List.mem_of_mem_filter hc')
      rw [← Option.some.inj hu]
      exact lapseOf_mono r (hsound _ key c' hkey).2.1
    · exact hothers target ‹_›

theorem routed_learned {link : TransportId} {neighbor destination : NodeId}
    {session : Option SessionId} {cost : Nat} {path : List NodeId}
    (hneighbor : path.head? = some neighbor) (hlocal : r.localId ∉ path)
    (hlength : path.length < r.maxHops) (hlast : path.getLast? = some destination)
    (hnodup : path.Nodup) :
    Routed r destination (toLex (link, neighbor))
      (learned r link neighbor session cost path destination now) where
  destination := rfl
  key := rfl
  first := rfl
  second := by
    rw [List.head?_eq_getElem?] at hneighbor
    exact hneighbor
  last := by
    simp only [learned, List.getLast?_cons, hlast, Option.getD_some]
  nodup := List.nodup_cons.mpr ⟨hlocal, hnodup⟩
  length := hlength

theorem Indexed.learn (h : Indexed r t last) (hle : last ≤ now) {link : TransportId}
    (hlink : link < t.nextLink) (neighbor : NodeId) (session : Option SessionId)
    (cost advertised : Nat) {path : List NodeId} (hnodup : path.Nodup) :
    Indexed r (t.learn r link neighbor session cost advertised path now) now := by
  unfold Table.learn
  split
  · exact h.mono hle
  rename_i hpath
  push Not at hpath
  obtain ⟨hneighbor, hlocal, hlength⟩ := hpath
  split
  · rename_i hlast
    split
    · exact h.mono hle
    · exact h.put hle (routed_learned hneighbor hlocal hlength hlast hnodup) rfl hlink
  · exact h.mono hle

end Table

/-! ## Every run -/

namespace RouterState

variable {r : Routing} {s s' : RouterState}

@[simp] theorem publish_now (s : RouterState) : s.publish.now = s.now := by
  unfold publish
  split <;> rfl

theorem indexed_publish {now : Nat} (h : Table.Indexed r s.table now) :
    Table.Indexed r s.publish.table now := by
  unfold publish
  split
  · exact ⟨h.sound, h.paired, h.covers⟩
  · exact h

/-- Every event keeps the index. -/
theorem indexed_step (h : Table.Indexed r s.table s.now) (hstep : Step r s s') :
    Table.Indexed r s'.table s'.now := by
  obtain ⟨now, e, ⟨hle, -, he⟩, rfl⟩ := hstep
  cases e with
  | frame link neighbor session cost bytes =>
    simp only [handle]
    split
    · rename_i id advertised path hdecode
      rw [publish_now]
      exact indexed_publish (h.learn hle he neighbor session cost advertised
        (decodeBounded_loopFree hdecode))
    · exact h.mono hle
  | expire => exact h.expire hle
  | announce seen =>
    simp only [handle, publish_now]
    exact indexed_publish (h.announce hle seen)
  | attach link => exact h.attach hle link
  | remove id => exact h.remove hle id
  | neighbors id registries => exact h.neighbors hle id registries

theorem indexed_start (h : start s) : Table.Indexed r s.table s.now := by
  rw [h]
  refine ⟨fun target key c hc => ?_, Expiry.paired_empty, fun target => ?_⟩
  · simp [Table.choice, Table.empty] at hc
  · simpa [Table.admittedOf, Table.candidatesOf, Table.empty, Expiry.empty] using Table.Covers.nil

/-! ### The index and the table -/

/-- After any events, the destinations that the index holds once the lapses up to now are applied
are those with a candidate that was refreshed less than a time to live ago and whose link admits
its next hop.  The lapse set has one entry for each destination whose lapse is an instant, and no
other.  Every route of the table starts at the local node, has its neighbour second and its
destination last, repeats no node and has at most so many nodes as there may be hops. -/
theorem reach_eq_recomputed (hs : Reachable start (Step r) s) {now : Nat} (hle : s.now ≤ now)
    (hend : now ≤ r.clockEnd) :
    (∀ target, target ∈ (s.table.reachExpire now).reachable ↔
      ∃ key c link, s.table.choice target key = some c ∧ now - c.updated < r.routeTtl ∧
        s.table.links[c.route.transport]? = some link ∧ link.admits c.route.nextHop c.session) ∧
    (∀ entry, entry ∈ s.table.reach.index.lapses ↔
      s.table.reach.index.held[(ofLex entry).2]? = some (.instant (ofLex entry).1)) ∧
    ∀ target key c, s.table.choice target key = some c →
      c.route.path.head? = some r.localId ∧ c.route.path[1]? = some (ofLex key).2 ∧
      c.route.path.getLast? = some target ∧ c.route.path.Nodup ∧
      c.route.path.length ≤ r.maxHops := by
  have h : Table.Indexed r s.table s.now :=
    hs.invariant (fun _ => indexed_start) fun _ _ h hstep => indexed_step h hstep
  refine ⟨fun target => ?_, h.paired, fun target key c hc => ?_⟩
  · have hheld : (s.table.reachExpire now).reach.index.held[target]? =
        s.table.reach.index.held[target]?.filter (Lapse.isAfter now) :=
      h.paired.held_expire now target
    rw [Table.reachable, Std.TreeMap.mem_keys, Std.TreeMap.mem_iff_isSome_getElem?, hheld,
      (h.covers target).isSome_filter_iff hle]
    constructor
    · rintro ⟨c, hc, hafter⟩
      obtain ⟨hc, hadmitted⟩ := List.mem_filter.mp hc
      obtain ⟨key, hkey⟩ := Table.mem_candidatesOf.mp hc
      obtain ⟨link, hlink, hadmits⟩ := (Option.any_eq_true _ _).mp hadmitted
      have hupdated := (h.sound target key c hkey).2.1.trans hle
      exact ⟨key, c, link, hkey, (Table.isAfter_lapseOf hupdated hend).mp hafter, hlink, hadmits⟩
    · rintro ⟨key, c, link, hkey, hfresh, hlink, hadmits⟩
      have hupdated := (h.sound target key c hkey).2.1.trans hle
      refine ⟨c, List.mem_filter.mpr ⟨Table.mem_candidatesOf.mpr ⟨key, hkey⟩, ?_⟩,
        (Table.isAfter_lapseOf hupdated hend).mpr hfresh⟩
      simp [Table.admitted, hlink, hadmits]
  · have hrouted := (h.sound target key c hc).1
    refine ⟨hrouted.first, ?_, hrouted.last, hrouted.nodup, hrouted.length⟩
    rw [← hrouted.key]
    exact hrouted.second

def aRouting : Routing :=
  ⟨.ofChar 'a', Nat.succPNat 7, Nat.succPNat 1, Nat.succPNat 3, Nat.succPNat 63, 6, openMagic, 1000⟩

/-- The advert of a node named `b` for itself. -/
def bAdvert : List UInt8 :=
  openMagic ++ [0] ++ List.replicate 24 0 ++ [0, 0, 0, 0] ++ [1] ++ [1, 98]

def linked : RouterState :=
  RouterState.handle ⟨.empty, [], 0⟩ aRouting 0 (.attach ⟨[.ofChar 'b'], none⟩)

def heard : RouterState := linked.handle aRouting 1 (.frame 0 (.ofChar 'b') none 1 bAdvert)

theorem reachable_heard : Reachable start (Step aRouting) heard := by
  have hstart : Reachable start (Step aRouting) ⟨.empty, [], 0⟩ := .start rfl
  have hlinked : Reachable start (Step aRouting) linked :=
    hstart.next ⟨0, _, ⟨le_rfl, Nat.zero_le _, trivial⟩, rfl⟩
  exact hlinked.next ⟨1, _, ⟨Nat.zero_le _, by decide, by decide +kernel⟩, rfl⟩

theorem reach_eq_recomputed_heard :
    NodeId.ofChar 'b' ∈ (heard.table.reachExpire 3).reachable ∧
      ∃ key c link, heard.table.choice (.ofChar 'b') key = some c ∧
        3 - c.updated < aRouting.routeTtl ∧ heard.table.links[c.route.transport]? = some link ∧
        link.admits c.route.nextHop c.session := by
  have hmem : NodeId.ofChar 'b' ∈ (heard.table.reachExpire 3).reachable := by decide +kernel
  exact ⟨hmem, ((reach_eq_recomputed reachable_heard (by decide +kernel) (by decide)).1 _).mp hmem⟩

end RouterState

end Groupnet.Network
