import Groupnet.Gossip.Author

/-!
# The cached content hash

A record may keep the hash of its advertised entries, with the first instant at which one of
them is no longer advertised.  An entry that is not advertised never is again, so the hash
holds until then, and every edit that changes the entries drops it.
-/

namespace Groupnet

namespace GroupEngine

variable {e e' : GroupEngine} {m m' : Member} {now t : Time}

/-! ## The hash over time -/

theorem shouldGossipEntry_iff (en : StateEntry) :
    e.shouldGossipEntry en now = true ↔ now < e.advertisedUntil en := by
  unfold shouldGossipEntry advertisedUntil StateEntry.expired
  cases en.tombstone <;> simp

/-- One step of a fold over what has not ended, with the first end. -/
def foldUntil {α : Type} (f : Nat → α → Nat) (ends : α → Time) (now : Time) (acc : Nat × Time)
    (a : α) : Nat × Time :=
  if now < ends a then (f acc.1 a, min acc.2 (ends a)) else acc

/-- The fold holds until the first end. -/
theorem foldl_foldUntil {α : Type} (f : Nat → α → Nat) (ends : α → Time) (hle : now ≤ t)
    (l : List α) {acc acc' : Nat × Time} (hacc : acc'.1 = acc.1) :
    (l.foldl (foldUntil f ends now) acc).2 ≤ acc.2 ∧
      (t < (l.foldl (foldUntil f ends now) acc).2 →
        (l.foldl (foldUntil f ends t) acc').1 = (l.foldl (foldUntil f ends now) acc).1) := by
  induction l generalizing acc acc' with
  | nil => exact ⟨le_rfl, fun _ => hacc⟩
  | cons a l ih =>
    rw [List.foldl_cons, List.foldl_cons]
    by_cases hnow : now < ends a
    · have hstep : foldUntil f ends now acc a = (f acc.1 a, min acc.2 (ends a)) := if_pos hnow
      rw [hstep]
      have hbound := (@ih (f acc.1 a, min acc.2 (ends a)) _ rfl).1
      refine ⟨hbound.trans (min_le_left _ _), fun ht => ?_⟩
      have hthen : foldUntil f ends t acc' a = (f acc'.1 a, min acc'.2 (ends a)) :=
        if_pos ((ht.trans_le hbound).trans_le (min_le_right _ _))
      rw [hthen]
      exact (ih (congrArg (f · a) hacc)).2 ht
    · have hthen : ¬ t < ends a := fun h => hnow (hle.trans_lt h)
      rw [show foldUntil f ends now acc a = acc from if_neg hnow,
        show foldUntil f ends t acc' a = acc' from if_neg hthen]
      exact ih hacc

def hashEntry (h : Nat) (p : String × StateEntry) : Nat :=
  hashBytes (hashBytes (hashBytes (hashBytes h (Placement.bytes p.1)) (Codec.putU64 p.2.version))
    (Wire.putBool p.2.tombstone)) p.2.value

theorem computeContentHash_eq (e : GroupEngine) (m : Member) (now : Time) :
    e.computeContentHash m now =
    m.entries.toList.foldl (foldUntil hashEntry (fun p => e.advertisedUntil p.2) now)
      (0, Time.max) := by
  unfold computeContentHash
  simp only [shouldGossipEntry_iff]
  rfl

theorem computeContentHash_until (hle : now ≤ t) (ht : t < (e.computeContentHash m now).2) :
    (e.computeContentHash m t).1 = (e.computeContentHash m now).1 := by
  rw [computeContentHash_eq] at ht
  rw [computeContentHash_eq, computeContentHash_eq]
  exact (foldl_foldUntil _ _ hle _ rfl).2 ht

theorem computeContentHash_congr (hconfig : e'.config = e.config)
    (hentries : m'.entries = m.entries) (now : Time) :
    e'.computeContentHash m' now = e.computeContentHash m now := by
  rw [computeContentHash_eq, computeContentHash_eq, hentries]
  simp only [advertisedUntil, hconfig]

end GroupEngine

open GroupEngine

variable {p : Powers} {now t : Time} {c : Cause} {e e' : GroupEngine} {x : NodeId} {m m' : Member}
  {old new : Option Member} {owed : List (NodeId × String)} {said : List Effect}

/-! ## What an edit leaves of the hash -/

/-- The hash is dropped, or it is the one before or a fresh one, for the entries before. -/
def Rehashed (now : Time) (e : GroupEngine) (old : Option Member) (m' : Member) : Prop :=
  m'.hashCache = none ∨ ∃ m ∈ old, m'.entries = m.entries ∧
    (m'.hashCache = m.hashCache ∨ m'.hashCache = some (e.computeContentHash m now))

theorem Rehashed.of_holding (h : m'.holding = m.holding) : Rehashed now e (some m) m' :=
  .inr ⟨m, rfl, congrArg (·.1) h, .inl (congrArg (·.2.2.2) h)⟩

theorem Rehashed.hearClaim (old : Option Member) (incarnation : Nat) (status : Status) :
    Rehashed now e old (e.hearClaim old incarnation status now) := by
  cases old with
  | none => exact .inl (congrArg (·.2.2.2) (e.holding_hearClaim_none incarnation status now))
  | some m => exact .of_holding (holding_hearClaim ..)

theorem Member.removeEntries_of_nil {keys : List String} {entries : Std.TreeMap String StateEntry}
    (h : (removeEntries keys entries).2 = []) : (removeEntries keys entries).1 = entries := by
  induction keys with
  | nil => rfl
  | cons key keys ih =>
    unfold removeEntries at h ⊢
    split at h
    · cases h
    · exact ih h

theorem Rehashed.takeDueEntries (m : Member) :
    Rehashed now e (some m) (m.takeDueEntries now).1 := by
  unfold Member.takeDueEntries
  dsimp only
  split
  next hempty =>
    exact .inr ⟨m, rfl, Member.removeEntries_of_nil (List.isEmpty_iff.mp hempty), .inl rfl⟩
  · exact .inl rfl

theorem Edit.rehashed {keys : List String} (h : Edit now c e x old keys new) (m' : Member)
    (hm' : m' ∈ new) :
    Rehashed now e old m' := by
  cases h with
  | kept => exact .inr ⟨m', hm', rfl, .inl rfl⟩
  | hashed m =>
    cases hm'
    exact .inr ⟨m, rfl, rfl, .inr rfl⟩
  | forgotten => cases hm'
  | met | outversioned | echoed | authored =>
    cases hm'
    exact .inl rfl
  | heard =>
    cases hm'
    exact .hearClaim ..
  | merged _ f d status =>
    cases hm'
    have hheard : Rehashed now e old
        (e.hearEntries old.isSome (e.hearClaim old d.incarnation status now) d.entries now).1 :=
      hearEntries_keeps (P := Rehashed now e old) _ _ _ (fun _ _ h => h) (fun _ _ _ _ => .inl rfl)
        (.hearClaim ..)
    exact hheard
  | confirmed m | accused m =>
    cases hm'
    exact .of_holding rfl
  | refuted m | suspected m | buried m | left m =>
    cases hm'
    exact .of_holding (Member.holding_adoptStatus _ _ _)
  | reaped m =>
    cases hm'
    exact .takeDueEntries m

/-! ## Runs -/

/-- From `t` on, a hash that still holds is that of the entries. -/
def GroupEngine.Fresh (t : Time) (e : GroupEngine) : Prop :=
  ∀ (x : NodeId) (m : Member), e.members[x]? = some m → ∀ hash ends,
    m.hashCache = some (hash, ends) →
    ∀ now, t ≤ now → now < ends → (e.computeContentHash m now).1 = hash

theorem Touch.fresh (h : Touch p now c e owed said e') (hnow : now ≤ t) (he : e.Fresh t) :
    e'.Fresh t := by
  intro x m' hm' hash ends hcache then_ hle hlt
  have hconfig : e'.config = e.config := congrArg Identity.config h.identity_eq
  obtain ⟨keys, new, hedit, hbare, _⟩ := h.edits x
  rw [bare_of_some hm'] at hbare
  obtain ⟨m₁, hm₁, hmb⟩ := Option.map_eq_some_iff.mp hbare.symm
  have hsame : m₁.bare.holding = m'.bare.holding := congrArg Member.holding hmb
  have hentries : m'.entries = m₁.entries := Member.entries_of_holding hsame.symm
  have hcache₁ : m₁.hashCache = some (hash, ends) := (congrArg (·.2.2.2) hsame).trans hcache
  rw [computeContentHash_congr hconfig hentries]
  rcases hedit.rehashed m₁ hm₁ with hnone | ⟨m, hm, hentries₁, hkept | hfresh⟩
  · cases hnone.symm.trans hcache₁
  · rw [computeContentHash_congr rfl hentries₁]
    exact he x m hm hash ends (hkept.symm.trans hcache₁) then_ hle hlt
  · rw [computeContentHash_congr rfl hentries₁]
    have hfilled : e.computeContentHash m now = (hash, ends) :=
      Option.some.inj (hfresh.symm.trans hcache₁)
    rw [computeContentHash_until (hnow.trans hle) (hfilled ▸ hlt), hfilled]

namespace GroupEngine

variable {group : GroupId} {n : NodeId} {config : Config}

theorem Made.fresh (h : Made group n config e) : e.Fresh t := by
  intro x m hm hash ends hcache
  have hbare := h.bare_eq x
  rw [bare_of_some hm] at hbare
  split at hbare
  · have hsame : m.bare.holding = (Member.new 0 .alive 0).bare.holding :=
      congrArg Member.holding (Option.some.inj hbare)
    cases ((congrArg (·.2.2.2) hsame).symm.trans hcache : none = some _)
  · cases hbare

theorem Fresh.run {evs : List Event} (he : e.Fresh t) (hevs : ∀ ev ∈ evs, ev.instant ≤ t) :
    (e.run evs).Fresh t := by
  induction evs generalizing e with
  | nil => exact he
  | cons ev evs ih =>
    obtain ⟨hev, hevs⟩ := List.forall_mem_cons.mp hevs
    exact ih (handle_keeps (fun htouch he => htouch.fresh hev he) he) hevs

/-- After any row of events, the content hash of a member at an instant not before any of
theirs is the hash computed afresh. -/
theorem content_hash_fresh {e₀ : GroupEngine} (hmade : Made group n config e₀) (evs : List Event)
    {now : Time} (hnow : ∀ ev ∈ evs, ev.instant ≤ now) {x : NodeId} {m : Member}
    (hm : (e₀.run evs).members[x]? = some m) :
    (e₀.run evs).contentHash m now = ((e₀.run evs).computeContentHash m now).1 := by
  unfold contentHash
  split
  next hash ends hcache =>
    split
    next hlt => exact (hmade.fresh.run hnow x m hm hash ends hcache now le_rfl hlt).symm
    · rfl
  · rfl

/-- An engine that starts a round with a seed keeps a hash of its own record. -/
theorem content_hash_fresh_round :
    ∃ e m, Made soleGroup soleSelf .default e ∧
      (e.run [.command (.setLocalEntry "k" [1] (some 90)), .start 5]).members[soleSelf]? = some m ∧
      m.hashCache.isSome = true ∧
      (e.run [.command (.setLocalEntry "k" [1] (some 90)), .start 5]).contentHash m 8 =
        ((e.run [.command (.setLocalEntry "k" [1] (some 90)), .start 5]).computeContentHash m
          8).1 := by
  have hnew : new soleGroup soleSelf [.ofChar 'a'] .default =
      .ok (blank soleGroup soleSelf [.ofChar 'a'] .default).filed := rfl
  have hround : (((blank soleGroup soleSelf [.ofChar 'a'] .default).filed.run
      [.command (.setLocalEntry "k" [1] (some 90)), .start 5]).members[soleSelf]?.bind
        Member.hashCache).isSome = true := by
    decide +kernel
  obtain ⟨hash, hsome⟩ := Option.isSome_iff_exists.mp hround
  obtain ⟨m, hm, hcache⟩ := Option.bind_eq_some_iff.mp hsome
  exact ⟨_, m, .new hnew, hm, hcache ▸ rfl, content_hash_fresh (.new hnew) _ (by decide) hm⟩

end GroupEngine

end Groupnet
