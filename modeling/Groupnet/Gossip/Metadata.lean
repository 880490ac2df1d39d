import Mathlib.Order.WithBot
import Groupnet.Gossip.Mesh

/-!
# The metadata registers

Metadata is a map of registers, each with the version and the writer of its value.  A
register yields to a higher version, and at one version to a higher writer.  Two engines
that merged each other's registers hold one version and one writer for every key.  They
hold one value when a version and a writer name one value.

A writer takes the version after the one it holds.  A node that restarts holds nothing,
so it may write a version again that it wrote before, with another value.
-/

namespace Groupnet

open Wire (Frame MetaDelta)

/-! ## Registers -/

/-- The order registers merge by. -/
abbrev MetaRank := Nat ×ₗ NodeId

def VersionedValue.rank (v : VersionedValue) : MetaRank := toLex (v.version, v.writer)

/-- The rank of a register on the wire. -/
def metaRank (d : MetaDelta) : MetaRank := toLex (d.version, d.writer)

namespace GroupEngine

variable {e other : GroupEngine} {key : String} {d : MetaDelta}

def metaRank (e : GroupEngine) (key : String) : WithBot MetaRank :=
  (e.metadata[key]?.map VersionedValue.rank).elim ⊥ fun r => r

def register (e : GroupEngine) (key : String) : Option MetaDelta :=
  e.metadata[key]?.map fun v => ⟨key, v.version, v.writer, v.value⟩

def metaValue (e : GroupEngine) (key : String) : Option String :=
  e.metadata[key]?.map VersionedValue.value

theorem key_of_register (h : e.register key = some d) : d.key = key := by
  obtain ⟨v, _, rfl⟩ := Option.map_eq_some_iff.mp h
  rfl

theorem metaValue_eq (e : GroupEngine) (key : String) :
    e.metaValue key = (e.register key).map MetaDelta.value := by
  unfold metaValue register
  rw [Option.map_map]
  rfl

theorem mem_metadataDeltas : d ∈ e.metadataDeltas ↔ e.register d.key = some d := by
  unfold metadataDeltas register
  rw [List.mem_map]
  constructor
  · rintro ⟨⟨key, v⟩, hv, rfl⟩
    rw [Std.TreeMap.mem_toList_iff_getElem?_eq_some] at hv
    rw [hv]
    rfl
  · intro h
    obtain ⟨v, hv, hd⟩ := Option.map_eq_some_iff.mp h
    exact ⟨(d.key, v), Std.TreeMap.mem_toList_iff_getElem?_eq_some.mpr hv, hd⟩

/-- Whether a register on the wire beats the one held. -/
theorem mergeMeta_eq (e : GroupEngine) (d : MetaDelta) :
    (e.mergeMeta d).1.metadata =
      if e.metaRank d.key < Groupnet.metaRank d then
        e.metadata.insert d.key ⟨d.value, d.version, d.writer⟩
      else e.metadata := by
  unfold mergeMeta metaRank
  cases hheld : e.metadata[d.key]? with
  | none => simp
  | some held =>
    have hlt : ((held.rank : WithBot MetaRank) < Groupnet.metaRank d) ↔
        (held.version < d.version ∨ held.version = d.version ∧ held.writer < d.writer) := by
      rw [WithBot.coe_lt_coe]
      exact Prod.Lex.toLex_lt_toLex
    simp only [Option.map_some, Option.elim_some, hlt, Bool.or_eq_true, Bool.and_eq_true,
      decide_eq_true_eq]
    split <;> rfl

theorem register_mergeMeta (e : GroupEngine) (d : MetaDelta) (key : String) :
    (e.mergeMeta d).1.register key =
      if d.key = key ∧ e.metaRank key < Groupnet.metaRank d then some d else e.register key := by
  unfold register
  rw [mergeMeta_eq]
  by_cases hkey : d.key = key
  · subst hkey
    split
    next hlt => simp [hlt]
    next hlt => simp [hlt]
  · split
    · rw [Std.TreeMap.getElem?_insert, if_neg (by simpa using hkey), if_neg (by simp [hkey])]
    · rw [if_neg (by simp [hkey])]

theorem metaRank_eq (e : GroupEngine) (key : String) :
    e.metaRank key = ((e.register key).map Groupnet.metaRank).elim ⊥ fun r =>
      (r : WithBot MetaRank) := by
  unfold metaRank register
  cases e.metadata[key]? <;> rfl

theorem metaRank_mergeMeta (e : GroupEngine) (d : MetaDelta) (key : String) :
    (e.mergeMeta d).1.metaRank key =
      if d.key = key then max (e.metaRank key) (Groupnet.metaRank d) else e.metaRank key := by
  rw [metaRank_eq, register_mergeMeta]
  by_cases hkey : d.key = key
  · by_cases hlt : e.metaRank key < Groupnet.metaRank d
    · rw [if_pos ⟨hkey, hlt⟩, if_pos hkey, max_eq_right hlt.le]
      rfl
    · rw [if_neg (fun h => hlt h.2), if_pos hkey, max_eq_left (not_lt.mp hlt), ← metaRank_eq]
  · rw [if_neg (fun h => hkey h.1), if_neg hkey, ← metaRank_eq]

/-- Merging registers never lowers a rank. -/
theorem le_metaRank_mergeMetadata (e : GroupEngine) (incoming : List MetaDelta) (key : String) :
    e.metaRank key ≤ (e.mergeMetadata incoming).1.metaRank key := by
  refine Emit.each_inv (P := fun e' : GroupEngine => e.metaRank key ≤ e'.metaRank key) ?_ le_rfl
  intro e' d _ hle
  rw [metaRank_mergeMeta]
  split
  · exact le_max_of_le_left hle
  · exact hle

/-- And raises each to the incoming one at least. -/
theorem metaRank_le_mergeMetadata {incoming : List MetaDelta} (hd : d ∈ incoming) :
    (Groupnet.metaRank d : WithBot MetaRank) ≤ (e.mergeMetadata incoming).1.metaRank d.key := by
  induction incoming generalizing e with
  | nil => cases hd
  | cons first rest ih =>
    rcases List.mem_cons.mp hd with rfl | hd
    · refine le_trans ?_ (le_metaRank_mergeMetadata (e.mergeMeta d).1 rest d.key)
      rw [metaRank_mergeMeta, if_pos rfl]
      exact le_max_right _ _
    · exact ih hd

/-- Whether an engine has merged everything another holds: merging it changes nothing. -/
def HasMerged (e other : GroupEngine) : Prop :=
  ∀ key, (e.mergeMetadata other.metadataDeltas).1.register key = e.register key

theorem HasMerged.metaRank_le (h : e.HasMerged other) (key : String) :
    other.metaRank key ≤ e.metaRank key := by
  rw [metaRank_eq other]
  cases hheld : other.register key with
  | none => exact bot_le
  | some d =>
    obtain rfl := key_of_register hheld
    have hle := metaRank_le_mergeMetadata (e := e) (mem_metadataDeltas.mpr hheld)
    rw [metaRank_eq, h, ← metaRank_eq] at hle
    exact hle

/-! ## What calls do to the registers -/

def RegistersIn (known : List MetaDelta) (e : GroupEngine) : Prop :=
  ∀ key d, e.register key = some d → d ∈ known

variable {known : List MetaDelta} {p : Powers} {now : Time} {c : Cause}

theorem RegistersIn.congr {e' : GroupEngine} (h : e.RegistersIn known)
    (heq : e'.metadata = e.metadata) : e'.RegistersIn known := by
  intro key d hd
  refine h key d ?_
  rw [← hd, register, register, heq]

theorem RegistersIn.mergeMeta (h : e.RegistersIn known) (hd : d ∈ known) :
    (e.mergeMeta d).1.RegistersIn known := by
  intro key d' hd'
  rw [register_mergeMeta] at hd'
  split at hd'
  · cases hd'
    exact hd
  · exact h key d' hd'

end GroupEngine

open GroupEngine

variable {p : Powers} {now : Time} {c : Cause} {e e' : GroupEngine} {owed : List (NodeId × String)}
  {said : List Effect} {known : List MetaDelta}

/-- A touch that writes no register keeps them known, when those of its frame are. -/
theorem Touch.registersIn (h : Touch p now c e owed said e')
    (hframe : ∀ f, c = .frame f → ∀ d ∈ f.metadata, d ∈ known)
    (hwrite : ∀ key value, c ≠ .command (.updateMetadata key value)) (he : e.RegistersIn known) :
    e'.RegistersIn known := by
  have hkept : e'.metadata = e.metadata → e'.RegistersIn known := he.congr
  cases hdoings : e'.doings with
  | mk incarnation leaving metadata authored =>
  have hmeta : e'.metadata = metadata := congrArg Doings.metadata hdoings
  have hdoing := h.doing
  rw [hdoings] at hdoing
  cases hdoing with
  | none | refuted | authored | left => exact hkept hmeta
  | registered f d hc hd => exact (he.mergeMeta (hframe f hc d hd)).congr hmeta
  | wrote key value hc => exact absurd hc (hwrite key value)

/-- A frame an engine says holds none of its registers, or all of them. -/
theorem GroupEngine.Utters.metadata {dest : NodeId} {f : Frame} (h : e.Utters p c (.send dest f)) :
    f.metadata = [] ∨ f.metadata = e.metadataDeltas := by
  cases h with
  | lines _ _ _ _ _ hmetadata _ _ => exact hmetadata.imp_right fun h => h.2.1
  | delta _ _ _ _ hbuilt =>
    unfold buildDeltaFrame at hbuilt
    dsimp only at hbuilt
    split at hbuilt
    · cases hbuilt
    · cases hbuilt
      exact .inl rfl

/-- What a call that writes no register leaves and sends is known, when what it reads is. -/
theorem GroupEngine.registersIn_handle {ev : Event}
    (hframe : ∀ f, ev.cause e.group = some (.frame f) → ∀ d ∈ f.metadata, d ∈ known)
    (hwrite : ∀ key value, ev ≠ .command (.updateMetadata key value)) (he : e.RegistersIn known) :
    (e.handle ev).1.RegistersIn known ∧
      ∀ dest f, Effect.send dest f ∈ (e.handle ev).2 → ∀ d ∈ f.metadata, d ∈ known := by
  rcases e.touched_handle ev with ⟨c, hc, owed, htouches, _⟩ | hquiet
  · have hkeeps : ∀ {e owed said e'}, Touch .all ev.instant c e owed said e' → e.RegistersIn known →
        e'.RegistersIn known := by
      intro e owed said e' ht
      refine ht.registersIn ?_ ?_
      · exact fun f hf => hframe f (hf ▸ hc)
      rintro key value rfl
      cases ev with
      | command cmd =>
        cases hc
        exact hwrite key value rfl
      | message source bytes now =>
        obtain ⟨f, _, hf⟩ := Option.map_eq_some_iff.mp hc
        cases hf
      | start now => cases hc
      | tick now => cases hc
    refine ⟨htouches.keeps hkeeps he, ?_⟩
    intro dest f hf d hd
    obtain ⟨t, _, _, _, ht, hstep, hmem⟩ :=
      htouches.step_of_said (P := RegistersIn known) hkeeps he hf
    cases hstep with
    | said h =>
      cases List.mem_singleton.mp hmem
      rcases h.metadata with hnone | hall
      · rw [hnone] at hd
        exact absurd hd List.not_mem_nil
      · rw [hall] at hd
        exact ht d.key d (mem_metadataDeltas.mp hd)
    | _ => cases hmem
  · rw [hquiet]
    exact ⟨he, fun _ _ hf => absurd hf List.not_mem_nil⟩

/-! ## Runs -/

/-- The version an engine holds for a key, zero when it holds none. -/
def GroupEngine.metaVersion (e : GroupEngine) (key : String) : Nat :=
  (e.metadata[key]?.map VersionedValue.version).getD 0

namespace Mesh

def written (e : GroupEngine) (ev : Event) (log : List MetaDelta) : List MetaDelta :=
  match ev with
  | .command (.updateMetadata key value) =>
    ((e.updateMetadata key value).1.register key).toList ++ log
  | _ => log

/-- A node writes a key only while it holds a version of it as high as any it ever wrote,
and below the last. -/
def Abreast (w : Mesh (List MetaDelta)) (e : GroupEngine) : Event → Prop
  | .command (.updateMetadata key _) => e.metaVersion key < u64Max ∧
      ∀ d ∈ w.log, d.key = key → d.writer = e.localId → d.version ≤ e.metaVersion key
  | _ => True

def abreast? (w : Mesh (List MetaDelta)) (e : GroupEngine) : Event → Bool
  | .command (.updateMetadata key _) => decide (e.metaVersion key < u64Max) &&
      w.log.all fun d => !(d.key == key && decide (d.writer = e.localId)) ||
        decide (d.version ≤ e.metaVersion key)
  | _ => true

theorem abreast_of_abreast? {w : Mesh (List MetaDelta)} {ev : Event} (h : w.abreast? e ev = true) :
    w.Abreast e ev := by
  unfold abreast? at h
  unfold Abreast
  split
  · simp only [Bool.and_eq_true, decide_eq_true_eq, List.all_eq_true] at h
    refine ⟨h.1, fun d hd hkey hwriter => ?_⟩
    have hle := h.2 d hd
    simpa [hkey, hwriter] using hle
  · trivial

/-- A key, a version and a writer name one value. -/
def Named (log : List MetaDelta) : Prop :=
  ∀ d ∈ log, ∀ d' ∈ log, d.key = d'.key → d.version = d'.version → d.writer = d'.writer → d = d'

/-- Every register held or sent was written, and writing names one value. -/
structure Sound (w : Mesh (List MetaDelta)) : Prop where
  within : w.Within (fun log _ e => e.RegistersIn log) fun log f => ∀ d ∈ f.metadata, d ∈ log
  named : Named w.log

theorem register_updateMetadata (e : GroupEngine) (key value k : String) :
    (e.updateMetadata key value).1.register k =
      if key = k then some ⟨key, (e.metadata[key]?.map fun v => wrapAdd v.version 1).getD 1,
        e.localId, value⟩
      else e.register k := by
  show (e.metadata.insert key _)[k]?.map _ = _
  rw [Std.TreeMap.getElem?_insert]
  by_cases hkey : key = k
  · subst hkey
    simp
  · rw [if_neg (by simpa using hkey), if_neg hkey]
    rfl

/-- Below the last version a writer takes the one after the version it holds. -/
theorem version_updateMetadata {key : String} (h : e.metaVersion key < u64Max) :
    (e.metadata[key]?.map fun v => wrapAdd v.version 1).getD 1 = e.metaVersion key + 1 := by
  unfold metaVersion at h ⊢
  cases hheld : e.metadata[key]? with
  | none => rfl
  | some v =>
    rw [hheld] at h
    exact Nat.mod_eq_of_lt (by simpa [u64Max] using Nat.succ_lt_succ h)

variable {group : GroupId} {w w' : Mesh (List MetaDelta)}

theorem Named.cons {log : List MetaDelta} {d : MetaDelta} (h : Named log)
    (hnew : ∀ d' ∈ log, d'.key = d.key → d'.writer = d.writer → d'.version < d.version) :
    Named (d :: log) := by
  intro a ha b hb hkey hversion hwriter
  rcases List.mem_cons.mp ha with rfl | hina
  · rcases List.mem_cons.mp hb with rfl | hinb
    · rfl
    · exact absurd hversion.symm (hnew b hinb hkey.symm hwriter.symm).ne
  rcases List.mem_cons.mp hb with rfl | hinb
  · exact absurd hversion (hnew a hina hkey hwriter).ne
  · exact h a hina b hinb hkey hversion hwriter

theorem Sound.write (hw : Sound w) {n : NodeId} {key value : String} (hup : w.engine n = some e)
    (habreast : w.Abreast e (.command (.updateMetadata key value))) :
    Sound (w.call written n e (.command (.updateMetadata key value))) := by
  obtain ⟨hlast, hold⟩ := habreast
  have hlog : written e (.command (.updateMetadata key value)) w.log =
      ⟨key, e.metaVersion key + 1, e.localId, value⟩ :: w.log := by
    simp only [written]
    rw [register_updateMetadata, if_pos rfl, version_updateMetadata hlast]
    rfl
  have hmono : ∀ d ∈ w.log, d ∈ written e (.command (.updateMetadata key value)) w.log := by
    intro d hd
    rw [hlog]
    exact List.mem_cons_of_mem _ hd
  refine ⟨hw.within.call ?_ ?_ ?_ ?_, ?_⟩
  · exact fun _ _ h k d hd => hmono d (h k d hd)
  · exact fun _ h d hd => hmono d (h d hd)
  · intro k d hd
    rw [handle, apply, register_updateMetadata] at hd
    split at hd
    · rw [version_updateMetadata hlast] at hd
      cases hd
      rw [hlog]
      exact List.mem_cons_self ..
    · exact hmono d (hw.within.engines n e hup k d hd)
  · intro dest f hf
    cases List.mem_singleton.mp hf
  · show Named (written e (.command (.updateMetadata key value)) w.log)
    rw [hlog]
    refine hw.named.cons fun d hd hkey hwriter => ?_
    exact Nat.lt_succ_of_le (hold d hd hkey hwriter)

theorem Sound.other (hw : Sound w) {n : NodeId} {ev : Event} (hup : w.engine n = some e)
    (hev : w.Delivers ev) (hother : ∀ key value, ev ≠ .command (.updateMetadata key value)) :
    Sound (w.call written n e ev) := by
  have hlog : written e ev w.log = w.log := by
    cases ev with
    | command cmd =>
      cases cmd with
      | updateMetadata key value => exact absurd rfl (hother key value)
      | _ => rfl
    | start now | tick now | message source bytes now => rfl
  have hcause : ∀ f, ev.cause e.group = some (.frame f) → ∀ d ∈ f.metadata, d ∈ w.log :=
    fun f hf => hw.within.sent f (mem_sent_of_cause hev hf)
  obtain ⟨hleft, hsent⟩ := registersIn_handle hcause hother (hw.within.engines n e hup)
  refine ⟨hw.within.call ?_ ?_ ?_ ?_, ?_⟩
  · rw [hlog]
    exact fun _ _ h => h
  · rw [hlog]
    exact fun _ h => h
  · rw [hlog]
    exact hleft
  · rw [hlog]
    exact hsent
  show Named (written e ev w.log)
  rw [hlog]
  exact hw.named

theorem Sound.step (hw : Sound w) (h : Step group written Abreast w w') : Sound w' := by
  cases h with
  | boot hmade =>
    refine ⟨hw.within.boot ?_, hw.named⟩
    intro key d hd
    rw [register, hmade.metadata_eq] at hd
    simp at hd
  | call hup hev hok =>
    rename_i n e ev
    by_cases hwrite : ∃ key value, ev = .command (.updateMetadata key value)
    · obtain ⟨key, value, rfl⟩ := hwrite
      exact hw.write hup hok
    · exact hw.other hup hev fun key value heq => hwrite ⟨key, value, heq⟩

theorem sound_of_reachable (hw : Reachable (· = empty []) (Step group written Abreast) w) :
    Sound w := by
  refine hw.invariant ?_ fun _ _ hs hstep => hs.step hstep
  rintro _ rfl
  exact ⟨⟨fun _ _ h => (nomatch h), fun _ h => absurd h List.not_mem_nil⟩,
    fun _ h => absurd h List.not_mem_nil⟩

/-- Two engines that have merged each other's registers hold one value for every key, when
every write is abreast of what its node wrote before. -/
theorem registers_converge (hw : Reachable (· = empty []) (Step group written Abreast) w)
    {a b : NodeId} {ea eb : GroupEngine} (ha : w.engine a = some ea) (hb : w.engine b = some eb)
    (hab : ea.HasMerged eb) (hba : eb.HasMerged ea) (key : String) :
    ea.metaValue key = eb.metaValue key := by
  have hsound := sound_of_reachable hw
  have hrank : ea.metaRank key = eb.metaRank key :=
    le_antisymm (hba.metaRank_le key) (hab.metaRank_le key)
  rw [metaRank_eq, metaRank_eq] at hrank
  rw [metaValue_eq, metaValue_eq]
  cases hda : ea.register key with
  | none =>
    cases hdb : eb.register key with
    | none => rfl
    | some db =>
      rw [hda, hdb] at hrank
      exact absurd hrank.symm WithBot.coe_ne_bot
  | some da =>
    cases hdb : eb.register key with
    | none =>
      rw [hda, hdb] at hrank
      exact absurd hrank WithBot.coe_ne_bot
    | some db =>
      rw [hda, hdb] at hrank
      have hpair : Groupnet.metaRank da = Groupnet.metaRank db := WithBot.coe_injective hrank
      obtain ⟨hversion, hwriter⟩ := Prod.mk.inj (toLex.injective hpair)
      have hkey : da.key = db.key := (key_of_register hda).trans (key_of_register hdb).symm
      rw [hsound.named da (hsound.within.engines a ea ha key da hda) db
        (hsound.within.engines b eb hb key db hdb) hkey hversion hwriter]

/-! ### A writer that restarts -/

def metaGroup : GroupId := .ofChar 'g'

def metaA : NodeId := .ofChar 'a'

def metaB : NodeId := .ofChar 'b'

def metaX : NodeId := .ofChar 'x'

/-- A digest of live nodes with one register of `x`. -/
def metaDigest (nodes : List NodeId) (version : Nat) (value : String) : Frame :=
  { Frame.bare .digest metaGroup none with
    digest := nodes.map fun n => ⟨n, 0, Status.alive.toWire, 0, 0⟩
    metadata := [⟨"k", version, metaX, value⟩] }

/-- `x` writes `k`, and `a` hears of it. -/
def metaFirst : List MeshAct :=
  [.boot metaA [metaB], .boot metaB [metaA], .boot metaX [metaA, metaB],
    .call metaX (.command (.updateMetadata "k" "one")), .call metaX (.tick 0),
    .deliver metaA metaX (metaDigest [metaX] 1 "one") 0]

/-- `x` restarts and writes `k` again, `b` hears of that, and `a` and `b` exchange their
registers. -/
def metaSplit : List MeshAct := metaFirst ++
  [.boot metaX [metaA, metaB], .call metaX (.command (.updateMetadata "k" "two")),
    .call metaX (.tick 0), .deliver metaB metaX (metaDigest [metaX] 1 "two") 0,
    .call metaA (.tick 0), .call metaB (.tick 0),
    .deliver metaB metaA (metaDigest [metaA, metaX] 1 "one") 0,
    .deliver metaA metaB (metaDigest [metaB, metaX] 1 "two") 0]

/-- `x` restarts, hears of `k` from `a` and then writes it again, and both hear of that. -/
def metaJoined : List MeshAct := metaFirst ++
  [.boot metaX [metaA, metaB], .call metaA (.tick 0),
    .deliver metaX metaA (metaDigest [metaA, metaX] 1 "one") 0,
    .call metaX (.command (.updateMetadata "k" "two")), .call metaX (.tick 0),
    .deliver metaA metaX (metaDigest [metaX, metaA] 2 "two") 0,
    .deliver metaB metaX (metaDigest [metaX, metaA] 2 "two") 0]

/-- A merge that announces nothing changes nothing. -/
theorem mergeMetadata_of_quiet {incoming : List MetaDelta} (h : (e.mergeMetadata incoming).2 = []) :
    (e.mergeMetadata incoming).1 = e := by
  induction incoming generalizing e with
  | nil => rfl
  | cons d rest ih =>
    obtain ⟨hfirst, hrest⟩ := List.append_eq_nil_iff.mp h
    have hkept : (e.mergeMeta d).1 = e := by
      have hcases : (e.mergeMeta d).2 ≠ [] ∨ (e.mergeMeta d).1 = e := by
        unfold mergeMeta
        dsimp only
        split <;> split <;> simp
      exact hcases.resolve_left fun hne => hne hfirst
    exact (ih (hkept ▸ hrest)).trans hkept

/-- Whether two engines have merged each other's registers, and their values of a key. -/
def exchanged (w : Mesh (List MetaDelta)) (a b : NodeId) (key : String) (va vb : Option String) :
    Bool :=
  match w.engine a, w.engine b with
  | some ea, some eb =>
    (ea.mergeMetadata eb.metadataDeltas).2.isEmpty &&
      (eb.mergeMetadata ea.metadataDeltas).2.isEmpty &&
      decide (ea.metaValue key = va) && decide (eb.metaValue key = vb)
  | _, _ => false

theorem of_exchanged {a b : NodeId} {key : String} {va vb : Option String}
    (h : w.exchanged a b key va vb = true) :
    ∃ ea eb, w.engine a = some ea ∧ w.engine b = some eb ∧ ea.HasMerged eb ∧ eb.HasMerged ea ∧
      ea.metaValue key = va ∧ eb.metaValue key = vb := by
  unfold exchanged at h
  split at h
  next ea eb ha hb =>
    simp only [Bool.and_eq_true, decide_eq_true_eq, List.isEmpty_iff] at h
    obtain ⟨⟨⟨hab, hba⟩, hva⟩, hvb⟩ := h
    refine ⟨ea, eb, ha, hb, ?_, ?_, hva, hvb⟩
    · exact fun k => by rw [mergeMetadata_of_quiet hab]
    · exact fun k => by rw [mergeMetadata_of_quiet hba]
  next => cases h

/-- A writer that restarts makes two engines keep two values for good. -/
theorem registers_diverge :
    ∃ w, Reachable (· = empty []) (Step metaGroup written fun _ _ _ => True) w ∧
      ∃ ea eb, w.engine metaA = some ea ∧ w.engine metaB = some eb ∧ ea.HasMerged eb ∧
        eb.HasMerged ea ∧ ea.metaValue "k" = some "one" ∧ eb.metaValue "k" = some "two" := by
  have hrun : (metaSplit.foldlM (perform metaGroup .default written fun _ _ _ => true)
      (empty [])).any (fun w => w.exchanged metaA metaB "k" (some "one") (some "two")) = true := by
    decide +kernel
  obtain ⟨w, hw, hex⟩ := (Option.any_eq_true _ _).mp hrun
  exact ⟨w, reachable_of_perform (fun _ _ _ _ => trivial) hw, of_exchanged hex⟩

theorem registers_converge_rejoined :
    ∃ w, Reachable (· = empty []) (Step metaGroup written Abreast) w ∧
      ∃ ea eb, w.engine metaA = some ea ∧ w.engine metaB = some eb ∧ ea.HasMerged eb ∧
        eb.HasMerged ea ∧ ea.metaValue "k" = some "two" ∧
        ∀ key, ea.metaValue key = eb.metaValue key := by
  have hrun : (metaJoined.foldlM (perform metaGroup .default written abreast?) (empty [])).any
      (fun w => w.exchanged metaA metaB "k" (some "two") (some "two")) = true := by
    decide +kernel
  obtain ⟨w, hw, hex⟩ := (Option.any_eq_true _ _).mp hrun
  have hreach : Reachable (· = empty []) (Step metaGroup written Abreast) w :=
    reachable_of_perform (fun _ _ _ h => abreast_of_abreast? h) hw
  obtain ⟨ea, eb, ha, hb, hab, hba, hva, _⟩ := of_exchanged hex
  exact ⟨w, hreach, ea, eb, ha, hb, hab, hba, hva, registers_converge hreach ha hb hab hba⟩

end Mesh

end Groupnet
