import Groupnet.Gossip.Entries

/-!
# The sole author of a key

A process is the only author of its node's entries.  Once it has written or deleted a key
since boot, an echo of the key never changes what it holds.  An echo that would win among
the peers is out-versioned instead.  The version after an echo's saturates, so an echo at
the last version is matched and not exceeded, and then the tombstone and the value decide.
-/

namespace Groupnet

open Wire (EntryDelta)

def StateEntry.unversioned (en : StateEntry) : StateEntry := { en with version := 0 }

/-- The order entries merge by: version, then tombstone, then value. -/
structure EntryRank where
  version : Nat
  tombstone : Bool
  value : List UInt8
deriving DecidableEq

def EntryRank.Exceeds (a b : EntryRank) : Prop :=
  b.version < a.version ∨ b.version = a.version ∧
    ((b.tombstone = false ∧ a.tombstone = true) ∨ b.tombstone = a.tombstone ∧ b.value < a.value)

theorem EntryRank.Exceeds.asymm {a b : EntryRank} (h : a.Exceeds b) : ¬ b.Exceeds a := by
  rcases h with hv | ⟨hv, ⟨hb, ha⟩ | ⟨ht, hvalue⟩⟩
  · rintro (hv' | ⟨hv', _⟩) <;> omega
  · rintro (hv' | ⟨_, ⟨ha', _⟩ | ⟨ht, _⟩⟩)
    · omega
    · cases ha.symm.trans ha'
    · cases ha.symm.trans (ht.trans hb)
  · rintro (hv' | ⟨_, ⟨ha', hb'⟩ | ⟨_, hvalue'⟩⟩)
    · omega
    · cases ha'.symm.trans (ht.symm.trans hb')
    · exact List.lt_asymm hvalue hvalue'

def StateEntry.rank (en : StateEntry) : EntryRank := ⟨en.version, en.tombstone, en.value⟩

def Wire.EntryDelta.rank (entry : EntryDelta) : EntryRank :=
  ⟨entry.version, entry.tombstone, entry.value⟩

namespace GroupEngine

variable {e : GroupEngine} {key : String} {en : StateEntry} {entry : EntryDelta} {now : Time}

theorem entryWins_iff (held : StateEntry) (entry : EntryDelta) :
    entryWins (some held) entry = true ↔ entry.rank.Exceeds held.rank := by
  simp [entryWins, EntryRank.Exceeds, StateEntry.rank, Wire.EntryDelta.rank]

def ownEntry (e : GroupEngine) (key : String) : Option StateEntry :=
  e.members[e.localId]?.bind fun m => m.entries[key]?

theorem ownEntry_eq_bare (e : GroupEngine) (key : String) :
    e.ownEntry key = (e.bare e.localId).bind fun m => m.entries[key]? := by
  unfold ownEntry bare
  cases e.members[e.localId]? <;> rfl

/-- This node's own record put in place and filed. -/
theorem ownEntry_put {e' e₁ : GroupEngine} {m : Member}
    (hfile : e'.bare e.localId = e₁.bare e.localId)
    (hput : e₁.members = e.members.insert e.localId m) (hid : e'.localId = e.localId) :
    e'.ownEntry key = m.entries[key]? := by
  rw [ownEntry_eq_bare, hid, hfile, bare_insert hput, if_pos rfl]
  rfl

end GroupEngine

open GroupEngine

variable {p : Powers} {now : Time} {c : Cause} {e e' : GroupEngine} {owed : List (NodeId × String)}
  {said : List Effect} {key : String}

def GroupEngine.Present (e : GroupEngine) : Prop := ∃ m, e.members[e.localId]? = some m

theorem Edit.present {m : Member} {new : Option Member} {keys : List String}
    (h : Edit now c e e.localId (some m) keys new) : ∃ m', new = some m' := by
  cases h with
  | forgotten _ hc hx => exact absurd rfl hx
  | _ => exact ⟨_, rfl⟩

theorem Touch.present (h : Touch p now c e owed said e') (he : e.Present) : e'.Present := by
  obtain ⟨m, hm⟩ := he
  obtain ⟨keys, new, hedit, hbare, _⟩ := h.edits e.localId
  rw [hm] at hedit
  obtain ⟨m', rfl⟩ := hedit.present
  obtain ⟨m'', hm'', _⟩ := Option.map_eq_some_iff.mp hbare
  have hid : e'.localId = e.localId := congrArg Identity.localId h.identity_eq
  exact ⟨m'', hid.symm ▸ hm''⟩

theorem Touch.authored_mono (h : Touch p now c e owed said e')
    (hkey : e.authored.contains key = true) :
    e'.authored.contains key = true := by
  cases hdoings : e'.doings with
  | mk incarnation leaving metadata authored =>
  have hauthored : e'.authored = authored := congrArg Doings.authored hdoings
  have hdoing := h.doing
  rw [hdoings] at hdoing
  rw [hauthored]
  cases hdoing with
  | none | refuted | registered | wrote | left => exact hkey
  | authored cmd w hc hw => rw [Std.TreeSet.contains_insert, hkey, Bool.or_true]

/-- An edit keeps an authored entry but for its version, unless it writes the key or the
entry's deadline has come. -/
theorem Edit.own {m : Member} {new : Option Member} {keys : List String}
    (h : Edit now c e e.localId (some m) keys new) (hdued : m.Dued e.reapAfter)
    (hauthored : e.authored.contains key = true)
    (hwrite : ∀ cmd w, c = .command cmd → cmd.write = some w → w.key ≠ key) :
    ∃ m', new = some m' ∧
      (m'.entries[key]?.map StateEntry.unversioned = m.entries[key]?.map StateEntry.unversioned ∨
        c = .clock ∧ m'.entries[key]? = none ∧
          ∃ en, m.entries[key]? = some en ∧ en.reapDue e.reapAfter ≤ now) := by
  have hkept : ∀ {m' : Member}, m'.holding = m.holding →
      m'.entries[key]?.map StateEntry.unversioned = m.entries[key]?.map StateEntry.unversioned :=
    fun h => by rw [Member.entries_of_holding h]
  cases h with
  | kept => exact ⟨m, rfl, .inl rfl⟩
  | heard _ f incarnation status hc hx | merged _ f d status hc hkind hd hnode hx
  | buried _ hc hx | forgotten _ hc hx => exact absurd rfl hx
  | outversioned _ f d entry en hc hkind hd hx hentry hown hheld =>
    refine ⟨_, rfl, .inl ?_⟩
    show (m.entries.insert entry.key _)[key]?.map _ = _
    rw [Std.TreeMap.getElem?_insert]
    by_cases hk : entry.key = key
    · subst hk
      rw [if_pos (by simp), hheld]
      rfl
    · rw [if_neg (by simpa using hk)]
  | echoed _ f d entry hc hkind hd hx hentry hown =>
    refine ⟨_, rfl, .inl ?_⟩
    rw [Member.entries_putEntry, if_neg]
    · rfl
    rintro rfl
    rw [hauthored] at hown
    cases hown
  | refuted _ f incarnation hc hnamed hle hx =>
    exact ⟨_, rfl, .inl (hkept (Member.holding_adoptStatus _ _ _))⟩
  | suspected _ hc hstatus | left _ hc hx =>
    exact ⟨_, rfl, .inl (hkept (Member.holding_adoptStatus _ _ _))⟩
  | hashed _ | confirmed _ hc hstatus | accused _ hc => exact ⟨_, rfl, .inl rfl⟩
  | reaped _ hc =>
    refine ⟨_, rfl, ?_⟩
    rw [Member.entries_takeDueEntries]
    split
    next hdue =>
      obtain ⟨en, hen, _, hle⟩ := hdued.mem_dueKeys_iff.mp hdue
      exact .inr ⟨hc, rfl, en, hen, hle⟩
    next => exact .inl rfl
  | authored _ cmd w hc hw hx =>
    refine ⟨_, rfl, .inl ?_⟩
    rw [Member.entries_putEntry, if_neg (Ne.symm (hwrite cmd w hc hw))]

/-- The engine still holds what it wrote as `u`, but for the version, unless it is `gone`. -/
structure Authored (u : StateEntry) (key : String) (gone : Prop) (e : GroupEngine) : Prop where
  authored : e.authored.contains key = true
  dued : e.Dued
  present : e.Present
  held : (e.ownEntry key = none ∧ gone) ∨
    ∃ en, e.ownEntry key = some en ∧ en.unversioned = u.unversioned

theorem Authored.mono {u : StateEntry} {gone gone' : Prop} (he : Authored u key gone e)
    (h : gone → gone') : Authored u key gone' e :=
  { he with held := he.held.imp_left (And.imp_right h) }

theorem StateEntry.reapDue_of_unversioned {en u : StateEntry} (h : en.unversioned = u.unversioned)
    (reapAfter : Nat) : en.reapDue reapAfter = u.reapDue reapAfter := by
  show en.unversioned.reapDue reapAfter = u.unversioned.reapDue reapAfter
  rw [h]

theorem Touch.keeps_authored {u : StateEntry} {gone : Prop} (h : Touch p now c e owed said e')
    (hwrite : ∀ cmd w, c = .command cmd → cmd.write = some w → w.key ≠ key)
    (hgone : c = .clock → u.reapDue e.reapAfter ≤ now → gone) (he : Authored u key gone e) :
    Authored u key gone e' := by
  obtain ⟨m, hm⟩ := he.present
  obtain ⟨keys, new, hedit, hbare, _⟩ := h.edits e.localId
  rw [hm] at hedit
  obtain ⟨m', rfl, hown⟩ := hedit.own (he.dued _ m hm) he.authored hwrite
  have hid : e'.localId = e.localId := congrArg Identity.localId h.identity_eq
  have hold : e.ownEntry key = m.entries[key]? := by simp [ownEntry, hm]
  have hnew : e'.ownEntry key = m'.entries[key]? := by
    rw [ownEntry_eq_bare, hid, hbare]
    rfl
  refine ⟨h.authored_mono he.authored, h.dued he.dued, h.present he.present, ?_⟩
  rw [hnew]
  have hheld := he.held
  rw [hold] at hheld
  rcases hown with hsame | ⟨hc, hnone, en, hen, hle⟩
  · rcases hheld with ⟨hnone, hgone⟩ | ⟨en, hen, hu⟩
    · rw [hnone] at hsame
      exact .inl ⟨Option.map_eq_none_iff.mp hsame, hgone⟩
    rw [hen] at hsame
    obtain ⟨en', hen', hu'⟩ := Option.map_eq_some_iff.mp hsame
    exact .inr ⟨en', hen', hu'.trans hu⟩
  · rcases hheld with ⟨hnone', _⟩ | ⟨en', hen', hu⟩
    · cases hnone'.symm.trans hen
    cases hen.symm.trans hen'
    rw [StateEntry.reapDue_of_unversioned hu] at hle
    exact .inl ⟨hnone, hgone hc hle⟩

/-! ## Echoes -/

namespace GroupEngine

variable {en : StateEntry} {entry : EntryDelta}

/-- An echo of an authored key leaves the entry as it was written, at a version above the
echo's where there is one. -/
theorem ownEntry_mergeOwnEcho (now : Time) (hauthored : e.authored.contains entry.key = true)
    (hheld : e.ownEntry entry.key = some en) :
    (e.mergeOwnEcho entry now).1.ownEntry entry.key =
      some (if entry.version < en.version ∨ entry.rank = en.rank then en
        else { en with version := satAdd entry.version 1 }) := by
  obtain ⟨m, hm, hen⟩ := Option.bind_eq_some_iff.mp hheld
  have hdominated : echoDominated (some en) entry = true ↔
      entry.version < en.version ∨ entry.rank = en.rank := by
    simp only [echoDominated, StateEntry.rank, Wire.EntryDelta.rank, EntryRank.mk.injEq,
      Bool.or_eq_true, Bool.and_eq_true, decide_eq_true_eq]
    tauto
  unfold mergeOwnEcho
  rw [hm]
  dsimp only
  rw [hen]
  by_cases hdom : entry.version < en.version ∨ entry.rank = en.rank
  · rw [if_pos (hdominated.mpr hdom), if_pos hdom]
    exact hheld
  rw [if_neg (fun h => hdom (hdominated.mp h)), if_pos hauthored, if_neg hdom]
  refine Eq.trans (ownEntry_put (e := e) (bare_stamp _ e.localId _) rfl ?_) ?_
  · exact congrArg Still.localId (still_stampSelf _)
  simp [Member.observeVersion, Member.entriesChanged]

/-- The entry held after an echo exceeds it exactly when the echo differs from the one held
in the order entries merge by, and is below the last version of it. -/
theorem exceeds_mergeOwnEcho_iff (en : StateEntry) (entry : EntryDelta) :
    (if entry.version < en.version ∨ entry.rank = en.rank then en
      else { en with version := satAdd entry.version 1 }).rank.Exceeds entry.rank ↔
      entry.rank ≠ en.rank ∧ (entry.version < en.version ∨
        (EntryRank.mk u64Max en.tombstone en.value).Exceeds entry.rank) := by
  by_cases hlow : entry.version < en.version
  · rw [if_pos (.inl hlow)]
    refine iff_of_true (.inl hlow) ⟨?_, .inl hlow⟩
    intro heq
    exact absurd (congrArg EntryRank.version heq) hlow.ne
  · by_cases hsame : entry.rank = en.rank
    · rw [if_pos (.inr hsame), hsame]
      refine iff_of_false ?_ fun h => h.1 rfl
      rintro (h | ⟨_, ⟨h₁, h₂⟩ | ⟨_, h⟩⟩)
      · exact Nat.lt_irrefl _ h
      · cases h₁.symm.trans h₂
      · exact List.lt_irrefl _ h
    · rw [if_neg (not_or.mpr ⟨hlow, hsame⟩)]
      have hsat : satAdd entry.version 1 = min (entry.version + 1) u64Max := rfl
      rw [and_iff_right hsame, or_iff_right hlow]
      simp only [EntryRank.Exceeds, StateEntry.rank, Wire.EntryDelta.rank, hsat]
      rcases Nat.lt_trichotomy entry.version u64Max with hlt | heq | hgt
      · have hmin : min (entry.version + 1) u64Max = entry.version + 1 := Nat.min_eq_left hlt
        rw [hmin]
        exact iff_of_true (.inl (Nat.lt_succ_self _)) (.inl hlt)
      · rw [heq, Nat.min_eq_right (Nat.le_succ _)]
      · rw [Nat.min_eq_right (by omega)]

/-- A peer that merges an entry and one it exceeds keeps it, in either order. -/
theorem keeps_of_exceeds (now : Time) (h : en.rank.Exceeds entry.rank) :
    entryWins (some en) entry = false ∧
      entryWins (some (adoptEntry entry now)) (entryDelta key en) = true := by
  refine ⟨?_, (entryWins_iff (adoptEntry entry now) (entryDelta key en)).mpr h⟩
  rw [Bool.eq_false_iff, Ne, entryWins_iff]
  exact h.asymm

end GroupEngine

/-! ## Runs -/

def GroupEngine.run (e : GroupEngine) (evs : List Event) : GroupEngine :=
  evs.foldl (fun e ev => (e.handle ev).1) e

/-- Whether an event is a local command that writes or deletes `key`. -/
def Event.Writes (key : String) : Event → Prop
  | .command cmd => ∃ w, cmd.write = some w ∧ w.key = key
  | _ => False

theorem Touch.reapAfter_eq (h : Touch p now c e owed said e') : e'.reapAfter = e.reapAfter :=
  congrArg (fun i : Identity => satMul i.config.deadTimeoutMs 2) h.identity_eq

/-- A call that does not write the key keeps the entry, until its deadline. -/
theorem Authored.handle {u : StateEntry} {gone : Prop} {reapAfter : Nat} {ev : Event}
    (he : Authored u key gone e) (hreap : e.reapAfter = reapAfter) (hwrite : ¬ ev.Writes key)
    (hgone : ev = .start ev.instant ∨ ev = .tick ev.instant → u.reapDue reapAfter ≤ ev.instant →
      gone) :
    Authored u key gone (e.handle ev).1 ∧ (e.handle ev).1.reapAfter = reapAfter := by
  rcases e.touched_handle ev with ⟨c, hc, owed, htouches, _⟩ | hquiet
  · refine htouches.keeps (P := fun e => Authored u key gone e ∧ e.reapAfter = reapAfter) ?_
      ⟨he, hreap⟩
    rintro e owed said e' ht ⟨he, hreap⟩
    refine ⟨ht.keeps_authored ?_ ?_ he, ht.reapAfter_eq.trans hreap⟩
    · rintro cmd w rfl hw rfl
      refine hwrite ?_
      cases ev with
      | command cmd' =>
        cases hc
        exact ⟨w, hw, rfl⟩
      | message source bytes now =>
        obtain ⟨f, _, hf⟩ := Option.map_eq_some_iff.mp hc
        cases hf
      | start now | tick now => cases hc
    · rintro rfl hle
      rw [hreap] at hle
      refine hgone ?_ hle
      cases ev with
      | start now => exact .inl rfl
      | tick now => exact .inr rfl
      | command cmd => cases hc
      | message source bytes now =>
        obtain ⟨f, _, hf⟩ := Option.map_eq_some_iff.mp hc
        cases hf
  · rw [hquiet]
    exact ⟨{ he with }, hreap⟩

theorem Authored.run {u : StateEntry} {gone : Prop} {reapAfter : Nat} {evs : List Event}
    (he : Authored u key gone e) (hreap : e.reapAfter = reapAfter)
    (hwrite : ∀ ev ∈ evs, ¬ ev.Writes key)
    (hgone : ∀ now, .start now ∈ evs ∨ .tick now ∈ evs → u.reapDue reapAfter ≤ now → gone) :
    Authored u key gone (e.run evs) := by
  induction evs generalizing e with
  | nil => exact he
  | cons ev evs ih =>
    obtain ⟨hnext, hreap'⟩ := he.handle hreap (hwrite ev (List.mem_cons_self ..)) fun hclock hle =>
      hgone _ (hclock.imp (fun h => h ▸ List.mem_cons_self ..) fun h =>
        h ▸ List.mem_cons_self ..) hle
    refine ih hnext hreap' (fun ev hev => hwrite ev (List.mem_cons_of_mem _ hev)) ?_
    exact fun now hin => hgone now (hin.imp (List.mem_cons_of_mem _) (List.mem_cons_of_mem _))

namespace GroupEngine

theorem run_keeps {P : GroupEngine → Prop} {evs : List Event}
    (htouch : ∀ {now : Time} {c : Cause} {e e' : GroupEngine} {owed : List (NodeId × String)}
      {said : List Effect}, Touch .all now c e owed said e' → P e → P e')
    (he : P e) : P (e.run evs) := by
  induction evs generalizing e with
  | nil => exact he
  | cons ev evs ih => exact ih (handle_keeps htouch he)

theorem Made.present {group : GroupId} {n : NodeId} {config : Config} (h : Made group n config e) :
    e.Present := by
  have hid : e.localId = n := congrArg Identity.localId h.identity_eq
  have hbare := h.bare_eq n
  rw [if_pos rfl] at hbare
  obtain ⟨m, hm, _⟩ := Option.map_eq_some_iff.mp hbare
  exact ⟨m, hid ▸ hm⟩

theorem apply_write {cmd : Command} {w : EntryWrite} {m : Member} (hw : cmd.write = some w)
    (hm : e.members[e.localId]? = some m) :
    e.apply cmd = (e.author m w.key (StateEntry.adopted (satAdd m.maxStateVersion 1) w.value w.ttlMs
      w.tombstone e.nowHint)).announceEntry w.key := by
  cases cmd with
  | setLocalState state =>
    cases hw
    simp only [apply, setLocalEntry, hm]
    rfl
  | setLocalEntry key value ttlMs =>
    cases hw
    simp only [apply, setLocalEntry, hm]
  | deleteLocalEntry key =>
    cases hw
    simp only [apply, deleteLocalEntry, hm]
  | _ => cases hw

theorem authored_apply {cmd : Command} {w : EntryWrite} (he : e.Dued) (hpresent : e.Present)
    (hw : cmd.write = some w) : ∃ version, Authored (StateEntry.adopted version w.value w.ttlMs
      w.tombstone e.nowHint) w.key False (e.apply cmd).1 := by
  obtain ⟨m, hm⟩ := hpresent
  refine ⟨satAdd m.maxStateVersion 1, ?_⟩
  have htouch : Touch .all 0 (.command cmd) e _ [] _ := .authored cmd w m rfl hw hm
  have hwritten : Authored (StateEntry.adopted (satAdd m.maxStateVersion 1) w.value w.ttlMs
      w.tombstone e.nowHint) w.key False (e.author m w.key (StateEntry.adopted
        (satAdd m.maxStateVersion 1) w.value w.ttlMs w.tombstone e.nowHint)) := by
    refine ⟨?_, htouch.dued he, htouch.present ⟨m, hm⟩, .inr ⟨_, ?_, rfl⟩⟩
    · rw [show (e.author m w.key _).authored = e.authored.insert w.key from
        congrArg Still.authored (still_stampSelf _)]
      simp
    refine Eq.trans (ownEntry_put (e := e) (bare_stamp _ e.localId _) rfl ?_) ?_
    · exact congrArg Still.localId (still_stampSelf _)
    · rw [Member.entries_putEntry, if_pos rfl]
  rw [apply_write hw hm]
  -- The push that follows is no write of its own.
  have hpushed : Touched .all 0 (.command .leave) (e.author m w.key _) (eagerPush _) :=
    touched_eagerPush (e.author m w.key (StateEntry.adopted (satAdd m.maxStateVersion 1) w.value
      w.ttlMs w.tombstone e.nowHint))
  obtain ⟨owed, hpush, _⟩ := hpushed
  refine hpush.keeps ?_ hwritten
  intro e owed said e' ht he
  refine ht.keeps_authored ?_ ?_ he
  · rintro cmd w' hcmd hw'
    cases hcmd
    cases hw'
  · intro hc
    cases hc

/-- No run of events but local writes of the key changes what the engine holds for a key it
wrote, until the entry's own deadline.  An echo leaves it out-versioned exactly when it
differs from it and is below its last version, and then every peer that merges both keeps
it. -/
theorem sole_author {group : GroupId} {n : NodeId} {config : Config} {e₀ : GroupEngine}
    (hmade : Made group n config e₀) (before after : List Event) {cmd : Command} {w : EntryWrite}
    (hw : cmd.write = some w) (hafter : ∀ ev ∈ after, ¬ ev.Writes w.key) :
    (∀ en, (((e₀.run before).apply cmd).1.run after).ownEntry w.key = some en →
      en.value = w.value ∧ en.ttlMs = w.ttlMs ∧ en.tombstone = w.tombstone) ∧
    ((((e₀.run before).apply cmd).1.run after).ownEntry w.key = none →
      ∃ now, (.start now ∈ after ∨ .tick now ∈ after) ∧
        (StateEntry.adopted 0 w.value w.ttlMs w.tombstone (e₀.run before).nowHint).reapDue
          (satMul config.deadTimeoutMs 2) ≤ now) ∧
    ((((e₀.run before).apply cmd).1.run after).authored.contains w.key = true) ∧
    ∀ (e : GroupEngine) (entry : EntryDelta) (en : StateEntry) (now : Time),
      e.authored.contains entry.key = true → e.ownEntry entry.key = some en →
      ∃ en', (e.mergeOwnEcho entry now).1.ownEntry entry.key = some en' ∧
        en'.unversioned = en.unversioned ∧
        (en'.rank.Exceeds entry.rank ↔ entry.rank ≠ en.rank ∧ (entry.version < en.version ∨
          (EntryRank.mk u64Max en.tombstone en.value).Exceeds entry.rank)) ∧
        (en'.rank.Exceeds entry.rank → entryWins (some en') entry = false ∧
          entryWins (some (adoptEntry entry now)) (entryDelta entry.key en') = true) := by
  have hdued : (e₀.run before).Dued := run_keeps (fun h => h.dued) hmade.dued
  have hpresent : (e₀.run before).Present := run_keeps (fun h => h.present) hmade.present
  have hreap : (e₀.run before).reapAfter = satMul config.deadTimeoutMs 2 := by
    refine run_keeps (P := fun e => e.reapAfter = satMul config.deadTimeoutMs 2)
      (fun h he => h.reapAfter_eq.trans he) ?_
    exact congrArg (fun i : Identity => satMul i.config.deadTimeoutMs 2) hmade.identity_eq
  obtain ⟨version, hwritten⟩ := authored_apply hdued hpresent hw
  have hreap' : ((e₀.run before).run [.command cmd]).reapAfter = satMul config.deadTimeoutMs 2 :=
    run_keeps (P := fun e => e.reapAfter = satMul config.deadTimeoutMs 2)
      (fun h he => h.reapAfter_eq.trans he) hreap
  have hrun : Authored
    (StateEntry.adopted version w.value w.ttlMs w.tombstone (e₀.run before).nowHint)
      w.key (∃ now, (.start now ∈ after ∨ .tick now ∈ after) ∧ (StateEntry.adopted 0 w.value w.ttlMs
        w.tombstone (e₀.run before).nowHint).reapDue (satMul config.deadTimeoutMs 2) ≤ now)
      (((e₀.run before).apply cmd).1.run after) :=
    (hwritten.mono fun h => h.elim).run hreap' hafter fun now hin hle => ⟨now, hin, hle⟩
  refine ⟨?_, ?_, hrun.authored, ?_⟩
  · intro en hen
    rcases hrun.held with ⟨hnone, _⟩ | ⟨en', hen', hu⟩
    · cases hnone.symm.trans hen
    · cases hen.symm.trans hen'
      exact ⟨congrArg StateEntry.value hu, congrArg StateEntry.ttlMs hu,
        congrArg StateEntry.tombstone hu⟩
  · intro hnone
    rcases hrun.held with ⟨_, hgone⟩ | ⟨en', hen', _⟩
    · exact hgone
    · cases hnone.symm.trans hen'
  · intro e entry en now hauthored hheld
    refine ⟨_, ownEntry_mergeOwnEcho now hauthored hheld, ?_, exceeds_mergeOwnEcho_iff en entry, ?_⟩
    · split <;> rfl
    · exact keeps_of_exceeds now

def soleGroup : GroupId := .ofChar 'g'

def soleSelf : NodeId := .ofChar 'x'

def soleEcho (version : Nat) : EntryDelta := ⟨"k", version, 0, false, [2]⟩

/-- The echo as a peer ships it. -/
def soleDelta (version : Nat) : Event :=
  .message (.ofChar 'a') (Wire.encode { Wire.Frame.bare .delta soleGroup none with
    members := [⟨soleSelf, 0, Status.alive.toWire, version, [soleEcho version]⟩] }) 0

/-- What is seen of a new engine. -/
def sole {α : Type} (config : Config) (see : GroupEngine → α) : Option α :=
  (new soleGroup soleSelf [] config).toOption.map see

theorem new_of_sole {α : Type} {config : Config} {see : GroupEngine → α} {a : α}
    (h : sole config see = some a) : ∃ e, new soleGroup soleSelf [] config = .ok e ∧ see e = a := by
  obtain ⟨e, he, hsee⟩ := Option.map_eq_some_iff.mp h
  refine ⟨e, ?_, hsee⟩
  cases hnew : new soleGroup soleSelf [] config with
  | error err => rw [hnew] at he; cases he
  | ok e' => rw [hnew] at he; cases he; rfl

/-- What an engine that writes `k` holds of it after a row of events. -/
def soleHeld (after : List Event) : Option (Option StateEntry) :=
  sole .default fun e => ((e.apply (.setLocalEntry "k" [1] none)).1.run after).ownEntry "k"

/-- An echo at the last version is matched and not exceeded: a peer that merges both keeps
the echo. -/
theorem sole_author_matched :
    ∃ e en, Made soleGroup soleSelf .default e ∧
      ((e.apply (.setLocalEntry "k" [1] none)).1.run [soleDelta u64Max]).ownEntry "k" = some en ∧
      ¬ en.rank.Exceeds (soleEcho u64Max).rank ∧ entryWins (some en) (soleEcho u64Max) = true := by
  have hheld : soleHeld [soleDelta u64Max] = some (some ⟨u64Max, [1], 0, Time.max, false, 0⟩) := by
    decide +kernel
  obtain ⟨e, hnew, hen⟩ := new_of_sole hheld
  have hwins : entryWins (some ⟨u64Max, [1], 0, Time.max, false, 0⟩) (soleEcho u64Max) = true := by
    decide
  exact ⟨e, _, .new hnew, hen, ((entryWins_iff _ _).mp hwins).asymm, hwins⟩

theorem sole_author_echoed :
    ∃ e, Made soleGroup soleSelf .default e ∧
      (∃ en, ((e.apply (.setLocalEntry "k" [1] none)).1.run [soleDelta 5]).ownEntry "k" = some en ∧
        en.version = 6 ∧ en.value = [1] ∧ en.ttlMs = 0 ∧ en.tombstone = false) ∧
      ∃ en, ((e.apply (.setLocalEntry "k" [1] none)).1.mergeOwnEcho (soleEcho 5) 0).1.ownEntry "k" =
        some en ∧ en.rank.Exceeds (soleEcho 5).rank := by
  have hwritten : soleHeld [] = some (some ⟨1, [1], 0, Time.max, false, 0⟩) := by decide +kernel
  have hheld : soleHeld [soleDelta 5] = some (some ⟨6, [1], 0, Time.max, false, 0⟩) := by
    decide +kernel
  obtain ⟨e, hnew, hen⟩ := new_of_sole hheld
  obtain ⟨e', hnew', hen'⟩ := new_of_sole hwritten
  cases hnew.symm.trans hnew'
  have hwrite : (Command.setLocalEntry "k" [1] none).write = some ⟨"k", [1], 0, false⟩ := rfl
  have hquiet : ∀ ev ∈ [soleDelta 5], ¬ ev.Writes "k" := by simp [soleDelta, Event.Writes]
  obtain ⟨hkept, _, _, _⟩ := sole_author (.new hnew) [] [soleDelta 5] hwrite hquiet
  obtain ⟨_, _, hauthored, hecho⟩ := sole_author (.new hnew) [] [] hwrite (fun _ h => nomatch h)
  obtain ⟨en, hafter, _, hexceeds, _⟩ := hecho _ (soleEcho 5) _ 0 hauthored hen'
  refine ⟨e, .new hnew, ⟨_, hen, rfl, hkept _ hen⟩, en, hafter,
    hexceeds.mpr ⟨by decide, .inr (.inl ?_)⟩⟩
  decide

/-- Whatever an engine is told and whatever lapses, it stays who it is and holds a record of
its own node, which the merge of an echo takes for granted. -/
theorem knows_itself {group : GroupId} {n : NodeId} {config : Config} {e : GroupEngine}
    (h : Made group n config e) (evs : List Event) :
    (e.run evs).identity = ⟨group, n, config⟩ ∧ ∃ m, (e.run evs).members[n]? = some m := by
  have hid : (e.run evs).identity = ⟨group, n, config⟩ :=
    run_keeps (P := fun e => e.identity = ⟨group, n, config⟩) (fun h he => h.identity_eq.trans he)
      h.identity_eq
  have hpresent : (e.run evs).Present := run_keeps (fun h => h.present) h.present
  rw [Present, show (e.run evs).localId = n from congrArg Identity.localId hid] at hpresent
  exact ⟨hid, hpresent⟩

theorem knows_itself_echoed :
    ∃ e m, Made soleGroup soleSelf .default e ∧
      (e.run [soleDelta 5]).members[soleSelf]? = some m := by
  have hheld : soleHeld [] = some (some ⟨1, [1], 0, Time.max, false, 0⟩) := by decide +kernel
  obtain ⟨e, hnew, _⟩ := new_of_sole hheld
  obtain ⟨_, m, hm⟩ := knows_itself (.new hnew) [soleDelta 5]
  exact ⟨e, m, .new hnew, hm⟩

end GroupEngine

end Groupnet
