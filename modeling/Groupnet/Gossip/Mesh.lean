import Groupnet.Gossip.Calls
import Groupnet.Gossip.Members
import Groupnet.Lib.Run

/-!
# The engines of one group

The engines of one group over a network that loses, duplicates, delays and reorders
frames at will: what was once sent may reach any engine any number of times, at any
later point, or never.  A node may restart at any point with an engine made anew.  Each
call brings its own instant.

A mesh carries a log of what its calls did.  What is logged of a call, and which calls a
run makes, are parameters, so that each property keeps the history it needs.
-/

namespace Groupnet

open Wire (Frame)

/-! ## New engines -/

namespace GroupEngine

variable {group : GroupId} {n : NodeId} {seeds : List NodeId} {config : Config} {e : GroupEngine}

theorem eq_filed_of_new (h : new group n seeds config = .ok e) :
    e = (blank group n seeds config).filed := by
  unfold new at h
  split at h
  · cases h
  · exact (Except.ok.inj h).symm

/-- Filing the local member moves the coordinator only. -/
theorem still_filed (e : GroupEngine) :
    e.filed.still = { e.still with coordinator := e.filed.coordinator } := by
  have hindex : ((e.restamp e.localId 1).reindex e.localId).still = e.still :=
    (still_reindex _ _).trans (still_restamp _ _ _)
  rw [← hindex]
  rfl

theorem still_new (h : new group n seeds config = .ok e) :
    e.still = { (blank group n seeds config).still with coordinator := e.coordinator } := by
  rw [eq_filed_of_new h]
  exact still_filed _

theorem identity_new (h : new group n seeds config = .ok e) : e.identity = ⟨group, n, config⟩ :=
  congrArg (fun s : Still => (⟨s.group, s.localId, s.config⟩ : Identity)) (still_new h)

/-- A new engine knows its own node alone. -/
theorem bare_new (h : new group n seeds config = .ok e) (x : NodeId) :
    e.bare x = if x = n then some (Member.new 0 .alive 0).bare else none := by
  have hbare : e.bare x = (blank group n seeds config).bare x := by
    rw [eq_filed_of_new h]
    exact (bare_reindex _ _ x).trans (bare_restamp _ _ _ x)
  rw [hbare]
  show ((∅ : Std.TreeMap NodeId Member).insert n (Member.new 0 .alive 0))[x]?.map Member.bare = _
  rw [Std.TreeMap.getElem?_insert]
  by_cases hx : x = n
  · subst hx
    simp
  · rw [if_neg (by simpa using Ne.symm hx), if_neg hx]
    simp

/-- An engine as it is made: new, or restored from what its storage holds. -/
inductive Made (group : GroupId) (n : NodeId) (config : Config) : GroupEngine → Prop
  | new {seeds : List NodeId} {e : GroupEngine} (h : GroupEngine.new group n seeds config = .ok e) :
      Made group n config e
  | restored {seeds : List NodeId} {e : GroupEngine} (recovered : RecoveredGrant)
      (h : recovering group n seeds config = .ok e) : Made group n config (e.restore recovered)

/-- What storage holds is the election's alone. -/
theorem Made.bearing_eq (h : Made group n config e) :
    ∃ seeds e₀, GroupEngine.new group n seeds config = .ok e₀ ∧ e.bearing = e₀.bearing := by
  cases h with
  | new h | restored recovered h => exact ⟨_, _, h, rfl⟩

theorem Made.identity_eq (h : Made group n config e) : e.identity = ⟨group, n, config⟩ := by
  obtain ⟨seeds, e₀, hnew, hbearing⟩ := h.bearing_eq
  exact (congrArg (fun b : Bearing => (⟨b.group, b.localId, b.config⟩ : Identity)) hbearing).trans
    (identity_new hnew)

theorem Made.bare_eq (h : Made group n config e) (x : NodeId) :
    e.bare x = if x = n then some (Member.new 0 .alive 0).bare else none := by
  obtain ⟨seeds, e₀, hnew, hbearing⟩ := h.bearing_eq
  rw [← bare_new hnew x]
  exact congrArg (fun b : Bearing => b.members[x]?.map Member.bare) hbearing

theorem Made.metadata_eq (h : Made group n config e) : e.metadata = ∅ := by
  obtain ⟨seeds, e₀, hnew, hbearing⟩ := h.bearing_eq
  exact (congrArg Bearing.metadata hbearing).trans (congrArg Still.metadata (still_new hnew))

end GroupEngine

/-! ## The mesh -/

def sends (fx : List Effect) : List Frame :=
  fx.filterMap fun
    | .send _ frame => some frame
    | _ => none

theorem mem_sends {fx : List Effect} {f : Frame} :
    f ∈ sends fx ↔ ∃ dest, Effect.send dest f ∈ fx := by
  unfold sends
  rw [List.mem_filterMap]
  constructor
  · rintro ⟨x, hx, hf⟩
    cases x with
    | send dest frame =>
      cases hf
      exact ⟨dest, hx⟩
    | _ => cases hf
  · rintro ⟨dest, h⟩
    exact ⟨_, h, rfl⟩

/-- Whether an event comes off the network. -/
def Event.isMessage : Event → Bool
  | .message .. => true
  | _ => false

/-- The engines of a group, every frame they ever sent, and a log of their calls. -/
structure Mesh (γ : Type) where
  engine : NodeId → Option GroupEngine
  sent : List Frame
  log : γ

namespace Mesh

variable {γ : Type}

/-- No engine yet. -/
def empty (log : γ) : Mesh γ := ⟨fun _ => none, [], log⟩

/-- Puts an engine in place. -/
def boot (w : Mesh γ) (n : NodeId) (e : GroupEngine) : Mesh γ :=
  { w with engine := Function.update w.engine n (some e) }

def call (note : GroupEngine → Event → γ → γ) (w : Mesh γ) (n : NodeId) (e : GroupEngine)
    (ev : Event) : Mesh γ where
  engine := Function.update w.engine n (some (e.handle ev).1)
  sent := w.sent ++ sends (e.handle ev).2
  log := note e ev w.log

/-- A frame that is delivered was sent. -/
def Delivers (w : Mesh γ) : Event → Prop
  | .message _ bytes _ => ∀ frame, Wire.decode bytes = some frame → frame ∈ w.sent
  | .start _ | .tick _ | .command _ => True

/-- What can happen to the engines of a group, among the calls `ok` lets through. -/
inductive Step (group : GroupId) (note : GroupEngine → Event → γ → γ)
    (ok : Mesh γ → GroupEngine → Event → Prop) : Mesh γ → Mesh γ → Prop
  /-- A node joins, or restarts. -/
  | boot {w : Mesh γ} {n : NodeId} {config : Config} {e : GroupEngine}
      (hmade : GroupEngine.Made group n config e) : Step group note ok w (w.boot n e)
  | call {w : Mesh γ} {n : NodeId} {e : GroupEngine} {ev : Event} (hup : w.engine n = some e)
      (hev : w.Delivers ev) (hok : ok w e ev) : Step group note ok w (w.call note n e ev)

/-! ## Schedules -/

inductive MeshAct where
  | boot (n : NodeId) (seeds : List NodeId)
  | call (n : NodeId) (ev : Event)
  | deliver (n source : NodeId) (frame : Frame) (now : Time)

/-- Carries out one act, when it can happen. -/
def perform (group : GroupId) (config : Config) (note : GroupEngine → Event → γ → γ)
    (ok : Mesh γ → GroupEngine → Event → Bool) (w : Mesh γ) : MeshAct → Option (Mesh γ)
  | .boot n seeds =>
    match GroupEngine.new group n seeds config with
    | .ok e => some (w.boot n e)
    | .error _ => none
  | .call n ev =>
    match w.engine n with
    | some e => if !ev.isMessage ∧ ok w e ev then some (w.call note n e ev) else none
    | none => none
  | .deliver n source frame now =>
    match w.engine n with
    | some e =>
      let ev := Event.message source (Wire.encode frame) now
      if frame ∈ w.sent ∧ Wire.decode (Wire.encode frame) = some frame ∧ ok w e ev then
        some (w.call note n e ev)
      else none
    | none => none

theorem step_of_perform {group : GroupId} {config : Config} {note : GroupEngine → Event → γ → γ}
    {okb : Mesh γ → GroupEngine → Event → Bool} {ok : Mesh γ → GroupEngine → Event → Prop}
    (hok : ∀ w e ev, okb w e ev = true → ok w e ev) {w w' : Mesh γ} {act : MeshAct}
    (h : w.perform group config note okb act = some w') : Step group note ok w w' := by
  cases act with
  | boot n seeds =>
    simp only [perform] at h
    split at h
    next e hnew =>
      cases h
      exact .boot (.new hnew)
    next => cases h
  | call n ev =>
    simp only [perform] at h
    split at h
    next e hup =>
      split at h
      next hb =>
        cases h
        refine .call hup ?_ (hok _ _ _ hb.2)
        cases ev with
        | message source bytes now => exact absurd hb.1 (by simp [Event.isMessage])
        | start now | tick now | command cmd => trivial
      next => cases h
    next => cases h
  | deliver n source frame now =>
    simp only [perform] at h
    split at h
    next e hup =>
      split at h
      next hb =>
        obtain ⟨hsent, hcodec, hb⟩ := hb
        cases h
        refine .call hup ?_ (hok _ _ _ hb)
        intro f hf
        cases hcodec.symm.trans hf
        exact hsent
      next => cases h
    next => cases h

theorem reachable_of_perform {group : GroupId} {config : Config}
    {note : GroupEngine → Event → γ → γ} {okb : Mesh γ → GroupEngine → Event → Bool}
    {ok : Mesh γ → GroupEngine → Event → Prop} (hok : ∀ w e ev, okb w e ev = true → ok w e ev)
    {log : γ} {acts : List MeshAct} {w : Mesh γ}
    (h : acts.foldlM (perform group config note okb) (empty log) = some w) :
    Reachable (· = empty log) (Step group note ok) w := by
  refine Reachable.of_foldlM ?_ (Reachable.start rfl) h
  exact fun h => step_of_perform hok h

/-! ## Invariants -/

/-- What holds of every engine put in place and of every frame sent, in terms of the log:
`holds` of an engine and `ships` of a frame. -/
structure Within (holds : γ → NodeId → GroupEngine → Prop) (ships : γ → Frame → Prop) (w : Mesh γ) :
    Prop where
  engines : ∀ n e, w.engine n = some e → holds w.log n e
  sent : ∀ f ∈ w.sent, ships w.log f

namespace Within

variable {holds : γ → NodeId → GroupEngine → Prop} {ships : γ → Frame → Prop} {w : Mesh γ}

theorem boot (hw : w.Within holds ships) {n : NodeId} {e : GroupEngine} (he : holds w.log n e) :
    (w.boot n e).Within holds ships where
  engines m e' hm := by
    by_cases hmn : m = n
    · subst hmn
      cases (Function.update_self ..).symm.trans hm
      exact he
    · exact hw.engines m e' ((Function.update_of_ne hmn ..).symm.trans hm)
  sent := hw.sent

/-- A call keeps what holds when the log it leaves still covers everything before it, and
covers the engine and the frames it leaves. -/
theorem call (hw : w.Within holds ships) {note : GroupEngine → Event → γ → γ} {n : NodeId}
    {e : GroupEngine} {ev : Event} (hlog : ∀ m e', holds w.log m e' → holds (note e ev w.log) m e')
    (hlog' : ∀ f, ships w.log f → ships (note e ev w.log) f)
    (he : holds (note e ev w.log) n (e.handle ev).1)
    (hf : ∀ dest f, Effect.send dest f ∈ (e.handle ev).2 → ships (note e ev w.log) f) :
    (w.call note n e ev).Within holds ships where
  engines m e' hm := by
    by_cases hmn : m = n
    · subst hmn
      cases (Function.update_self ..).symm.trans hm
      exact he
    · exact hlog m e' (hw.engines m e' ((Function.update_of_ne hmn ..).symm.trans hm))
  sent f hsent := by
    rcases List.mem_append.mp hsent with hsent | hsent
    · exact hlog' f (hw.sent f hsent)
    · obtain ⟨dest, hsent⟩ := mem_sends.mp hsent
      exact hf dest f hsent

end Within

theorem mem_sent_of_cause {w : Mesh γ} {ev : Event} (hev : w.Delivers ev) {group : GroupId}
    {f : Frame} (hc : ev.cause group = some (.frame f)) : f ∈ w.sent := by
  cases ev with
  | message source bytes now =>
    obtain ⟨g, hg, hgf⟩ := Option.map_eq_some_iff.mp hc
    cases hgf
    exact hev f (Option.filter_eq_some_iff.mp hg).1
  | start now => cases hc
  | tick now => cases hc
  | command cmd => cases hc

end Mesh

end Groupnet
