import Groupnet.Gossip.Roster
import Groupnet.Gossip.Window

/-!
# The digests of a run

A peer's digests are chosen one after the other, in the rounds of a run.  Between two of
them the engine keeps what the first recorded: nothing but a new contact resets its visits
and its cursor, and nothing but the peer being forgotten, or dropped as a contact, loses
it.  So the walks of the full digests to a peer join up as long as its record is kept, and
together they list every member.
-/

namespace Groupnet

/-- A digest for a peer at the point it is chosen. -/
structure Choice where
  engine : GroupEngine
  now : Time

namespace Choice

variable (c : Choice) (dest : NodeId)

def listed : List NodeId := (c.engine.digestFor dest c.now).1

def full : Bool := (c.engine.digestFor dest c.now).2.1

def leaves : PeerDigest := (c.engine.digestFor dest c.now).2.2

/-- The record it is built over, if there is one. -/
def found : Option PeerDigest := c.engine.digestPeers[dest]?

def ring : List NodeId := c.engine.gossipable c.now

end Choice

/-! ## Rows that resume -/

/-- Each walk of a row of digests resumes where the one before it stopped. -/
def Resumes (dest : NodeId) : Option NodeId → List Choice → Prop
  | _, [] => True
  | resume, c :: cs => c.engine.peerResume dest = resume ∧ Resumes dest (c.leaves dest).resume cs

/-- The walks of a row of digests over one ring sweep it. -/
theorem Resumes.sweeps {dest : NodeId} {ring : List NodeId} {window : Nat} {cs : List Choice}
    (hexact : ∀ c ∈ cs, c.engine.Exact) (hring : ∀ c ∈ cs, c.ring = ring)
    (hwindow : ∀ c ∈ cs, c.engine.config.digestWindow.val = window) {resume : Option NodeId}
    {s : Nat} (hwalk : ∀ c ∈ cs, c.engine.digestWalk dest c.now resume = ring.rotate s)
    (h : Resumes dest resume cs) :
    Ring.Sweeps ring (window - window / 2) s ((cs.filter (·.full dest)).map (·.listed dest)) := by
  induction cs generalizing resume s with
  | nil => exact .nil
  | cons c cs ih =>
    obtain ⟨rfl, hrest⟩ := h
    have htail := fun {P : Choice → Prop} (hall : ∀ c' ∈ c :: cs, P c') c' (hc' : c' ∈ cs) =>
      hall c' (List.mem_cons_of_mem _ hc')
    have hone := hexact c List.mem_cons_self
    have ih := fun {resume s} => @ih (htail hexact) (htail hring) (htail hwindow) resume s
    cases hfull : c.full dest with
    | false =>
      -- A delta digest leaves the walk where it was.
      rw [List.filter_cons_of_neg (by simp [hfull])]
      obtain ⟨prev, hprev, _, hresume, _⟩ := hone.digestFor_delta hfull
      have hkept : (c.leaves dest).resume = c.engine.peerResume dest := by
        rw [GroupEngine.peerResume, hprev]
        exact hresume
      exact ih (htail hwalk) (hkept ▸ hrest)
    | true =>
      rw [List.filter_cons_of_pos (by exact hfull), List.map_cons]
      obtain ⟨_, _, _, n, hle, hn, hlisted, hresume⟩ := hone.digestFor_full hfull
      have hgossipable : c.engine.gossipable c.now = ring := hring c List.mem_cons_self
      rw [hwalk c List.mem_cons_self] at hlisted hresume
      rw [hgossipable] at hle
      rw [hgossipable, hwindow c List.mem_cons_self] at hn
      refine .visit hn hlisted (@ih (c.leaves dest).resume (s + n) ?_ hrest)
      intro c' hc'
      have hsame : (c.leaves dest).resume =
          if n = 0 then c.engine.peerResume dest else (ring.rotate s)[n - 1]? := hresume
      rw [hsame]
      split
      next hzero =>
        rw [hzero, Nat.add_zero]
        exact htail hwalk c' hc'
      next hpos =>
        have hlt : n - 1 < (ring.rotate s).length := by
          rw [List.length_rotate]
          omega
        have hplace : c'.engine.gossipable c'.now = ring := htail hring c' hc'
        rw [List.getElem?_eq_getElem hlt]
        show Ring.past (c'.engine.gossipable c'.now) _ = _
        rw [hplace, Ring.past_getElem_rotate (hplace ▸ c'.engine.gossipable_sorted c'.now)
          (List.getElem?_eq_getElem hlt), Nat.sub_add_cancel (Nat.pos_of_ne_zero hpos)]

/-! ## The digests of a call -/

namespace GroupEngine

/-- The digests for `dest` among those a round chooses for its targets. -/
def choices (dest : NodeId) (now : Time) : GroupEngine → List NodeId → List Choice
  | _, [] => []
  | e, t :: ts => (if t = dest then [⟨e, now⟩] else []) ++ choices dest now (digestTo now e t).1 ts

def roundChoices (e : GroupEngine) (dest : NodeId) (now : Time) : List Choice :=
  let picked := { e with lastRound := now }.selectFanoutTargets
  choices dest now picked.1 picked.2

/-- The digests for `dest` in a round if one is due. -/
def dueChoices (e : GroupEngine) (dest : NodeId) (now : Time) : List Choice :=
  if now < e.nextAntiEntropy then []
  else { e with nextAntiEntropy := satAdd now e.config.gossipIntervalMs }.roundChoices dest now

/-- The digests for `dest` in a call. -/
def chosen (e : GroupEngine) (dest : NodeId) : Event → List Choice
  | .start now =>
    let e := e.observeNow now
    let e := { e with
      nextAntiEntropy := satAdd now e.config.gossipIntervalMs
      nextProbe := satAdd now e.config.probeIntervalMs }
    (e.electionStart now).roundChoices dest now
  | .tick now => ((e.observeNow now).tickLiveness now).1.dueChoices dest now
  | .message _ _ _ | .command _ => []

/-- The digests for `dest` in a run. -/
def allChosen (e : GroupEngine) (dest : NodeId) : List Event → List Choice
  | [] => []
  | ev :: evs => e.chosen dest ev ++ (e.handle ev).1.allChosen dest evs

end GroupEngine

/-! ## Records are remembered -/

/-- An engine holds a peer's record as it was left, or with its visits and its cursor
reset, or no longer. -/
def Remembers (dest : NodeId) (p : PeerDigest) (e : GroupEngine) : Prop :=
  e.digestPeers[dest]? = some p ∨ e.digestPeers[dest]? = some { p with visits := 0, cursor := 0 } ∨
    e.digestPeers[dest]? = none

/-- An engine remembers what the last digest left, when there was one. -/
def Recalls (dest : NodeId) (last : Option PeerDigest) (e : GroupEngine) : Prop :=
  match last with
  | some p => Remembers dest p e
  | none => e.digestPeers[dest]? = none

namespace Recalls

variable {dest : NodeId} {last : Option PeerDigest} {e e' : GroupEngine}

theorem keep (h : Recalls dest last e)
    (hkeep : e'.digestPeers[dest]? = e.digestPeers[dest]? ∨ e'.digestPeers[dest]? = none) :
    Recalls dest last e' := by
  rcases hkeep with heq | hnone
  · unfold Recalls Remembers at *
    rwa [heq]
  cases last with
  | some p => exact Or.inr (Or.inr hnone)
  | none => exact hnone

end Recalls

/-- Each digest of a row is built over what the one before it left. -/
def Linked (dest : NodeId) : Option PeerDigest → List Choice → Prop
  | _, [] => True
  | last, c :: cs => Recalls dest last c.engine ∧ Linked dest (some (c.leaves dest)) cs

/-- What the last digest of a row left, or what was left before it. -/
def lastLeft (dest : NodeId) (last : Option PeerDigest) (cs : List Choice) : Option PeerDigest :=
  cs.foldl (fun _ c => some (c.leaves dest)) last

theorem Linked.append {dest : NodeId} {last : Option PeerDigest} {cs cs' : List Choice}
    (h : Linked dest last cs) (h' : Linked dest (lastLeft dest last cs) cs') :
    Linked dest last (cs ++ cs') := by
  induction cs generalizing last with
  | nil => exact h'
  | cons c cs ih => exact ⟨h.1, ih h.2 h'⟩

/-- What holds of the digests of a call: each is built over what the one before it left,
from a kept state, and the engine recalls the last. -/
structure Chosen (dest : NodeId) (last : Option PeerDigest) (e : GroupEngine) (cs : List Choice)
    (e' : GroupEngine) : Prop where
  linked : Linked dest last cs
  recalls : Recalls dest (lastLeft dest last cs) e'
  kept : ∀ c ∈ cs, c.engine.Kept ∧ c.engine.identity = e.identity

namespace GroupEngine

variable {dest : NodeId} {last : Option PeerDigest} {e e' : GroupEngine} {now : Time}

theorem peers_digestTo (now : Time) (e : GroupEngine) (t : NodeId) :
    (digestTo now e t).1.digestPeers = e.digestPeers.insert t (e.digestFor t now).2.2 := by
  have hhashed : ∀ (l : List NodeId) (e : GroupEngine),
      (l.foldl (fun e node => e.refreshContentHash node now) e).digestPeers = e.digestPeers := by
    intro l
    induction l with
    | nil => exact fun _ => rfl
    | cons node l ih =>
      exact fun e => (ih _).trans (congrArg Still.digestPeers (still_refreshContentHash e node now))
  exact hhashed _ _

end GroupEngine

open GroupEngine

variable {p : Powers} {now : Time} {c : Cause} {e e' : GroupEngine} {owed : List (NodeId × String)}
  {said : List Effect}

theorem Touches.kept (h : Touches p now c e owed said e') (he : e.Kept) : e'.Kept :=
  h.keeps (fun htouch hkept => hkept.touch htouch) he

/-- No digest record is written but in a round or by new contacts, though some may be gone. -/
theorem Touches.drops (h : Touches p now c e owed said e') (hdigests : ¬(c = .clock ∧ p.digests))
    (hcontacts : ∀ contacts, c ≠ .command (.setBootstrapContacts contacts)) (dest : NodeId) :
    e'.digestPeers[dest]? = e.digestPeers[dest]? ∨ e'.digestPeers[dest]? = none := by
  refine h.relates (R := fun a b => b.digestPeers[dest]? = a.digestPeers[dest]? ∨
    b.digestPeers[dest]? = none) (fun _ => .inl rfl) ?_ fun ht => ?_
  · rintro a b c hab (hbc | hbc)
    · exact hbc ▸ hab
    · exact .inr hbc
  rcases ht.rest.peers with heq | ⟨hc, hd | ⟨x, heq⟩⟩ | ⟨contacts, hc⟩
  · exact .inl (by rw [heq])
  · exact absurd ⟨hc, hd⟩ hdigests
  · rw [heq, Std.TreeMap.getElem?_erase]
    split
    · exact .inr rfl
    · exact .inl rfl
  · exact absurd hc (hcontacts contacts)

theorem Touched.kept {o : Outcome} (h : Touched p now c e o) (he : e.Kept) : o.1.Kept := by
  obtain ⟨_, htouches, _⟩ := h
  exact htouches.kept he

theorem Touched.identity_eq {o : Outcome} (h : Touched p now c e o) :
    o.1.identity = e.identity := by
  obtain ⟨_, htouches, _⟩ := h
  exact htouches.identity_eq

namespace Chosen

variable {dest : NodeId} {last : Option PeerDigest} {e e' : GroupEngine} {cs : List Choice}
  {now : Time}

/-- The state moves on before the digests. -/
theorem after (h : Chosen dest last e' cs e) {e₀ : GroupEngine} (hid : e'.identity = e₀.identity) :
    Chosen dest last e₀ cs e :=
  ⟨h.linked, h.recalls, fun c hc => ⟨(h.kept c hc).1, (h.kept c hc).2.trans hid⟩⟩

/-- It moves on after them. -/
theorem before (h : Chosen dest last e cs e') {e'' : GroupEngine}
    (hdrops : e''.digestPeers[dest]? = e'.digestPeers[dest]? ∨ e''.digestPeers[dest]? = none) :
    Chosen dest last e cs e'' :=
  ⟨h.linked, h.recalls.keep hdrops, h.kept⟩

theorem none (h : Recalls dest last e') : Chosen dest last e [] e' := ⟨trivial, h, by simp⟩

theorem targets (he : e.Kept) (h : Recalls dest last e) (ts : List NodeId) :
    Chosen dest last e (choices dest now e ts) (Emit.each (digestTo now) e ts).1 := by
  induction ts generalizing e last with
  | nil => exact .none h
  | cons t ts ih =>
    have htouched : Touched .all now .clock e (digestTo now e t) := touched_digestTo e trivial t
    have hpeers := peers_digestTo now e t
    unfold choices
    by_cases ht : t = dest
    · subst ht
      have hleft : Recalls t (some (Choice.leaves ⟨e, now⟩ t)) (digestTo now e t).1 := by
        refine Or.inl ?_
        rw [hpeers, Std.TreeMap.getElem?_insert_self]
        rfl
      have hrest := (ih (htouched.kept he) hleft).after htouched.identity_eq
      rw [if_pos rfl]
      refine ⟨⟨h, hrest.linked⟩, hrest.recalls, ?_⟩
      rintro c (_ | ⟨_, hc⟩)
      · exact ⟨he, rfl⟩
      · exact hrest.kept c hc
    · have hother : Recalls dest last (digestTo now e t).1 := by
        refine h.keep (Or.inl ?_)
        rw [hpeers, Std.TreeMap.getElem?_insert, if_neg (by simpa using ht)]
      rw [if_neg ht]
      exact (ih (htouched.kept he) hother).after htouched.identity_eq

theorem round (he : e.Kept) (h : Recalls dest last e) :
    Chosen dest last e (e.roundChoices dest now) (e.disseminateDigest now).1 := by
  have hpicked : Touches .all now .clock e [] []
      { e with lastRound := now }.selectFanoutTargets.1 :=
    touches_targets rfl (.inr rfl)
  exact (targets (hpicked.kept he) (h.keep (Or.inl rfl)) _).after hpicked.identity_eq

/-- The election moves no digest record. -/
theorem election (h : Chosen dest last e cs e') (antiEntropyDue : Bool) :
    Chosen dest last e cs (e'.electionTick now antiEntropyDue).1 := by
  have htouched : Touched .all now (.command .leave) e' (e'.electionTick now antiEntropyDue) :=
    touched_electionTick e' now antiEntropyDue
  obtain ⟨_, htouches, _⟩ := htouched
  refine h.before (htouches.drops ?_ ?_ dest)
  · rintro ⟨⟨⟩, -⟩
  · rintro contacts ⟨⟩

section

variable (he : e.Kept) (h : Recalls dest last e)

include he h

/-- The pacing moves before the round. -/
theorem paced (hbearing : e'.bearing = e.bearing) :
    Chosen dest last e (e'.roundChoices dest now) (e'.disseminateDigest now).1 := by
  have hpaced : Touches .all now .clock e [] [] e' := .aside hbearing (.inl trivial)
  have hpeers : e'.digestPeers = e.digestPeers := congrArg Bearing.digestPeers hbearing
  exact (round (hpaced.kept he) (h.keep (Or.inl (by rw [hpeers])))).after hpaced.identity_eq

theorem due : Chosen dest last e (e.dueChoices dest now) (e.roundIfDue now).1 := by
  unfold dueChoices roundIfDue
  split
  · exact .none h
  · exact paced he h rfl

theorem start : Chosen dest last e (e.chosen dest (.start now)) (e.start now).1 := by
  have hobserved : Touches .all now .clock e [] [] (e.observeNow now) := .single .observed
  refine Chosen.after (paced (hobserved.kept he) (h.keep (Or.inl rfl)) ?_) hobserved.identity_eq
  rfl

theorem tick : Chosen dest last e (e.chosen dest (.tick now)) (e.onTick now).1 := by
  have hlive : Touched .none now .clock e ((e.observeNow now).tickLiveness now) :=
    (touched_tickLiveness _).of (.single .observed)
  have hrecalls : Recalls dest last ((e.observeNow now).tickLiveness now).1 := by
    obtain ⟨_, htouches, _⟩ := hlive
    exact h.keep (htouches.drops And.right (fun _ hc => nomatch hc) dest)
  unfold chosen onTick
  dsimp only
  generalize (e.observeNow now).tickLiveness now = out at hlive hrecalls ⊢
  exact ((due (hlive.kept he) hrecalls).after hlive.identity_eq).election _

end

end Chosen

/-! ## The other calls -/

namespace Recalls

variable {dest : NodeId} {last : Option PeerDigest} {e : GroupEngine}

theorem erase (h : Recalls dest last e) (n : NodeId) :
    Recalls dest last { e with digestPeers := e.digestPeers.erase n } := by
  refine h.keep ?_
  show (e.digestPeers.erase n)[dest]? = _ ∨ (e.digestPeers.erase n)[dest]? = none
  rw [Std.TreeMap.getElem?_erase]
  split
  · exact Or.inr rfl
  · exact Or.inl rfl

/-- A record met again starts over, but for its place in the walk. -/
theorem reset (h : Recalls dest last e) {n : NodeId} {p : PeerDigest}
    (hp : e.digestPeers[n]? = some p) :
    Recalls dest last
      { e with digestPeers := e.digestPeers.insert n { p with visits := 0, cursor := 0 } } := by
  by_cases hn : n = dest
  · subst hn
    have hnew : (e.digestPeers.insert n { p with visits := 0, cursor := 0 })[n]? =
        some { p with visits := 0, cursor := 0 } := Std.TreeMap.getElem?_insert_self
    cases last with
    | none => cases h.symm.trans hp
    | some q =>
      rcases h with heq | heq | heq
      · cases heq.symm.trans hp
        exact Or.inr (Or.inl hnew)
      · cases heq.symm.trans hp
        exact Or.inr (Or.inl hnew)
      · cases heq.symm.trans hp
  · refine h.keep (Or.inl ?_)
    show (e.digestPeers.insert n _)[dest]? = _
    rw [Std.TreeMap.getElem?_insert, if_neg (by simpa using hn)]

theorem contacts (h : Recalls dest last e) (contacts : List NodeId) :
    Recalls dest last (e.setBootstrapContacts contacts) := by
  unfold setBootstrapContacts
  split
  · exact h
  dsimp only
  split
  · exact h
  -- Those who left are dropped first, then those who came start over.
  refine List.foldlRecOn (motive := fun peers => Recalls dest last { e with digestPeers := peers })
    _ _ ?_ ?_
  · exact List.foldlRecOn (motive := fun peers => Recalls dest last { e with digestPeers := peers })
      _ _ h fun peers hpeers n _ => hpeers.erase n
  · intro peers hpeers n _
    split
    next p hp => exact hpeers.reset hp
    next => exact hpeers

/-- A call that chooses no digest. -/
theorem touches (h : Recalls dest last e) (ht : Touches p now c e owed said e')
    (hclock : c ≠ .clock) (hcontacts : ∀ contacts, c ≠ .command (.setBootstrapContacts contacts)) :
    Recalls dest last e' :=
  h.keep (ht.drops (fun hc => hclock hc.1) hcontacts dest)

end Recalls

variable {dest : NodeId} {last : Option PeerDigest} {e : GroupEngine} {p : PeerDigest}

/-- The digests of a call are built over what the one before each left. -/
theorem Chosen.handle (he : e.Kept) (h : Recalls dest last e) (ev : Event) :
    Chosen dest last e (e.chosen dest ev) (e.handle ev).1 := by
  cases ev with
  | start now => exact .start he h
  | tick now => exact .tick he h
  | message source bytes now =>
    refine .none ?_
    rcases e.touched_handle (.message source bytes now) with ⟨c, hc, _, htouches, _⟩ | hquiet
    · obtain ⟨f, _, rfl⟩ := Option.map_eq_some_iff.mp hc
      exact h.touches htouches (fun hc => nomatch hc) (fun _ hc => nomatch hc)
    · rw [hquiet]
      exact h.keep (Or.inl rfl)
  | command cmd =>
    refine .none ?_
    by_cases hcontacts : ∃ contacts, cmd = .setBootstrapContacts contacts
    · obtain ⟨contacts, rfl⟩ := hcontacts
      exact h.contacts contacts
    have htouched : Touched .all 0 (.command cmd) e (e.apply cmd) := touched_apply e cmd (.inl rfl)
    obtain ⟨_, htouches, _⟩ := htouched
    refine h.touches htouches (fun hc => nomatch hc) fun contacts hc => hcontacts ⟨contacts, ?_⟩
    exact Cause.command.inj hc

/-- The digests of a run are built over what the one before each left. -/
theorem Chosen.run (he : e.Kept) (h : Recalls dest last e) (evs : List Event) :
    Linked dest last (e.allChosen dest evs) ∧
      ∀ c ∈ e.allChosen dest evs, c.engine.Kept ∧ c.engine.identity = e.identity := by
  induction evs generalizing e last with
  | nil => exact ⟨trivial, by simp [allChosen]⟩
  | cons ev evs ih =>
    have hfirst := Chosen.handle he h ev
    have hkept : (e.handle ev).1.Kept := handle_keeps (fun htouch hkept => hkept.touch htouch) he
    have hid : (e.handle ev).1.identity = e.identity :=
      handle_keeps (P := fun e' => e'.identity = e.identity)
        (fun htouch hid => htouch.identity_eq.trans hid) rfl
    obtain ⟨hlinked, hrest⟩ := ih hkept hfirst.recalls
    refine ⟨hfirst.linked.append hlinked, fun c hc => ?_⟩
    rcases List.mem_append.mp hc with hc | hc
    · exact hfirst.kept c hc
    · exact ⟨(hrest c hc).1, (hrest c hc).2.trans hid⟩

/-! ## Coverage -/

theorem lastLeft_append (dest : NodeId) (last : Option PeerDigest) (cs cs' : List Choice) :
    lastLeft dest last (cs ++ cs') = lastLeft dest (lastLeft dest last cs) cs' := List.foldl_append

theorem Linked.of_append {cs cs' : List Choice} (h : Linked dest last (cs ++ cs')) :
    Linked dest last cs ∧ Linked dest (lastLeft dest last cs) cs' := by
  induction cs generalizing last with
  | nil => exact ⟨trivial, h⟩
  | cons c cs ih =>
    obtain ⟨hfirst, hrest⟩ := ih h.2
    exact ⟨⟨h.1, hfirst⟩, hrest⟩

/-- A record that is still there has the place the walk stopped at. -/
theorem Remembers.resume (h : Remembers dest p e) (hfound : e.digestPeers[dest]?.isSome) :
    e.peerResume dest = p.resume := by
  unfold peerResume
  rcases h with heq | heq | heq <;> rw [heq] at hfound ⊢
  · rfl
  · rfl
  · cases hfound

/-- Walks join up as long as the record is kept. -/
theorem Linked.resumes {cs : List Choice} (h : Linked dest (some p) cs)
    (hfound : ∀ c ∈ cs, (c.found dest).isSome) : Resumes dest p.resume cs := by
  induction cs generalizing p with
  | nil => trivial
  | cons c cs ih =>
    refine ⟨Remembers.resume h.1 (hfound c List.mem_cons_self), ih h.2 fun c' hc' => ?_⟩
    exact hfound c' (List.mem_cons_of_mem _ hc')

/-- A new engine has no record. -/
theorem GroupEngine.Made.recalls {group : GroupId} {n : NodeId} {config : Config}
    (h : Made group n config e) (dest : NodeId) : Recalls dest none e := by
  obtain ⟨seeds, e₀, hnew, hbearing⟩ := h.bearing_eq
  rw [eq_filed_of_new hnew] at hbearing
  have hpeers : e.digestPeers = ∅ := (congrArg Bearing.digestPeers hbearing).trans
    (congrArg Still.digestPeers ((still_reindex _ n).trans (still_restamp _ n 1)))
  show e.digestPeers[dest]? = none
  rw [hpeers]
  rfl

/-- A delta digest is built over the record the digest before it left. -/
theorem Linked.found {before after : List Choice} {c : Choice}
    (h : Linked dest none (before ++ c :: after)) (hfound : c.found dest = some p)
    (hvisits : p.visits ≠ 0) :
    ∃ prev, before.getLast? = some prev ∧ prev.leaves dest = p := by
  obtain ⟨hrecalls, _⟩ := h.of_append.2
  rcases List.eq_nil_or_concat before with rfl | ⟨before, prev, rfl⟩
  · cases hrecalls.symm.trans hfound
  refine ⟨prev, by simp, ?_⟩
  rw [List.concat_eq_append, lastLeft_append] at hrecalls
  rcases hrecalls with heq | heq | heq
  · exact Option.some.inj (heq.symm.trans hfound)
  · cases heq.symm.trans hfound
    exact absurd rfl hvisits
  · cases heq.symm.trans hfound

/-- Digests over one ring that join up cover it, once there are enough full ones. -/
theorem Linked.covers {row : List Choice} {ring : List NodeId} {window : Nat} {n : NodeId}
    (h : Linked dest last row) (hexact : ∀ c ∈ row, c.engine.Exact)
    (hlocal : ∀ c ∈ row, c.engine.localId = n)
    (hwindow : ∀ c ∈ row, c.engine.config.digestWindow.val = window)
    (hring : ∀ c ∈ row, c.ring = ring) (hfound : ∀ c ∈ row.tail, (c.found dest).isSome)
    (hfull : ring.length ≤ (row.filter (·.full dest)).length * (window - window / 2)) :
    ∀ x ∈ ring, ∃ c ∈ row, c.full dest = true ∧ x ∈ c.listed dest := by
  intro x hx
  cases row with
  | nil =>
    simp only [List.filter_nil, List.length_nil, Nat.zero_mul, Nat.le_zero] at hfull
    rw [List.eq_nil_of_length_eq_zero hfull] at hx
    cases hx
  | cons c row =>
    obtain ⟨s, hs⟩ := c.engine.digestWalk_isRotation dest c.now (c.engine.peerResume dest)
    have hplace : c.engine.gossipable c.now = ring := hring c List.mem_cons_self
    have hwalk : ∀ c' ∈ c :: row,
        c'.engine.digestWalk dest c'.now (c.engine.peerResume dest) = ring.rotate s := by
      intro c' hc'
      rw [← hplace, ← hs]
      refine digestWalk_congr ?_ ((hring c' hc').trans hplace.symm) dest _
      rw [hlocal c' hc', hlocal c List.mem_cons_self]
    have hresumes : Resumes dest (c.engine.peerResume dest) (c :: row) :=
      ⟨rfl, Linked.resumes h.2 hfound⟩
    have hsweeps := hresumes.sweeps hexact hring hwindow hwalk
    obtain ⟨listed, hin, hxin⟩ := hsweeps.covers (by rwa [List.length_map]) x hx
    obtain ⟨c', hc', rfl⟩ := List.mem_map.mp hin
    obtain ⟨hc', hisfull⟩ := List.mem_filter.mp hc'
    exact ⟨c', hc', hisfull, hxin⟩

/-- In every run, no digest for a peer lists a member twice or more than the window.  A
delta digest lists the gossipable members whose stamp is past the cursor the digest before
it recorded.  And digests over one ring of members, among them enough full ones and none
but the first without a record of the one before, list the whole ring. -/
theorem rolling_digests {group : GroupId} {n : NodeId} {config : Config} {e : GroupEngine}
    (h : Made group n config e) (dest : NodeId) (evs : List Event) :
    let window := config.digestWindow.val
    let half := (window + 1) / 2
    (∀ c ∈ e.allChosen dest evs, (c.listed dest).Nodup ∧ (c.listed dest).length ≤ window) ∧
    (∀ before c after, e.allChosen dest evs = before ++ c :: after → c.full dest = false →
      ∃ prev, before.getLast? = some prev ∧ ∀ x, x ∈ c.listed dest ↔
        x ∈ c.ring ∧ ∃ m, c.engine.record x = some m ∧ (prev.leaves dest).cursor < m.changedAt) ∧
    ∀ before row after ring, e.allChosen dest evs = before ++ row ++ after →
      (∀ c ∈ row, c.ring = ring) → (∀ c ∈ row.tail, (c.found dest).isSome) →
      (ring.length + half - 1) / half ≤ (row.filter (·.full dest)).length →
      ∀ x ∈ ring, ∃ c ∈ row, c.full dest = true ∧ x ∈ c.listed dest := by
  intro window half
  obtain ⟨hlinked, hkept⟩ := Chosen.run h.kept (h.recalls dest) evs
  have hexact : ∀ c ∈ e.allChosen dest evs, c.engine.Exact := fun c hc => (hkept c hc).1.exact
  have hid : ∀ c ∈ e.allChosen dest evs, c.engine.identity = ⟨group, n, config⟩ := fun c hc =>
    (hkept c hc).2.trans h.identity_eq
  have hwindow : ∀ c ∈ e.allChosen dest evs, c.engine.config.digestWindow.val = window :=
    fun c hc =>
    congrArg (fun i : Identity => i.config.digestWindow.val) (hid c hc)
  refine ⟨fun c hc => ?_, fun before c after heq hdelta => ?_,
    fun before row after ring heq hring hfound hfull => ?_⟩
  · rw [← hwindow c hc]
    cases hfull : c.full dest with
    | false =>
      obtain ⟨_, _, _, _, hnodup, hlen, _⟩ := (hexact c hc).digestFor_delta hfull
      exact ⟨hnodup, hlen⟩
    | true =>
      obtain ⟨hnodup, hlen, _⟩ := (hexact c hc).digestFor_full hfull
      exact ⟨hnodup, hlen⟩
  · have hc : c ∈ e.allChosen dest evs := heq ▸ List.mem_append_right _ List.mem_cons_self
    obtain ⟨p, hp, hvisits, _, _, _, hlisted⟩ := (hexact c hc).digestFor_delta hdelta
    obtain ⟨prev, hprev, rfl⟩ := Linked.found (heq ▸ hlinked) hp hvisits
    refine ⟨prev, hprev, fun x => (hlisted x).trans ⟨?_, ?_⟩⟩
    · rintro ⟨m, hm, hlt, hgossips⟩
      exact ⟨mem_gossipable.mpr ⟨m, hm, hgossips⟩, m, hm, hlt⟩
    rintro ⟨hin, m, hm, hlt⟩
    obtain ⟨m', hm', hgossips⟩ := mem_gossipable.mp hin
    cases hm.symm.trans hm'
    exact ⟨m, hm, hlt, hgossips⟩
  · have hrow : ∀ c ∈ row, c ∈ e.allChosen dest evs := fun c hc =>
      heq ▸ List.mem_append_left _ (List.mem_append_right _ hc)
    have hpart :=
      ((heq ▸ hlinked : Linked dest none (before ++ row ++ after)).of_append.1).of_append.2
    refine hpart.covers (fun c hc => hexact c (hrow c hc))
      (fun c hc => congrArg Identity.localId (hid c (hrow c hc)))
      (fun c hc => hwindow c (hrow c hc)) hring hfound ?_
    have hpos : 0 < config.digestWindow.val := config.digestWindow.property
    have hhalf : window - window / 2 = half := by
      show config.digestWindow.val - config.digestWindow.val / 2 = (config.digestWindow.val + 1) / 2
      omega
    rw [hhalf]
    have hhalfpos : 0 < half := by
      show 0 < (config.digestWindow.val + 1) / 2
      omega
    have hlt := (Nat.div_lt_iff_lt_mul hhalfpos).mp (Nat.lt_succ_of_le hfull)
    rw [Nat.succ_mul] at hlt
    omega

/-! ## A contact that comes and goes -/

/-- The smallest window, every digest full, and a round of every tick. -/
def narrow : Config :=
  { Config.default with
    gossipIntervalMs := 1, gossipFanout := ⟨8, Nat.succ_pos 7⟩, fullDigestEvery := ⟨1, Nat.one_pos⟩,
    digestWindow := ⟨2, Nat.two_pos⟩ }

/-- A contact that is neither a seed nor a member. -/
def passer : NodeId := .ofChar 'z'

/-- The contact is met, a round runs, and the contact is gone. -/
def visit (now : Time) : List Event :=
  [.command (.setBootstrapContacts [passer]), .tick now, .command (.setBootstrapContacts [])]

/-- Two members are met, then the contact comes and goes three times. -/
def visits : List Event :=
  [.command (.addPeer (.ofChar 'a')), .command (.addPeer (.ofChar 'b'))] ++
    visit 0 ++ visit 1 ++ visit 2

/-- A digest as a run shows it: whether it is full and has a record, and what it lists of
which members. -/
def Choice.shown (c : Choice) : Bool × Bool × List NodeId × List NodeId :=
  (c.full passer, (c.found passer).isSome, c.ring, c.listed passer)

/-- The digests of a lone engine for the contact. -/
def passing (evs : List Event) : Option (List (Bool × Bool × List NodeId × List NodeId)) :=
  sole narrow fun e => (e.allChosen passer evs).map Choice.shown

/-- The members of the example. -/
def passed : List NodeId := [.ofChar 'a', .ofChar 'b', soleSelf]

/-- A contact that comes and goes is shown the same slice each time: its record goes with
it.  As many full digests as should list every member leave one out. -/
theorem rolling_digests_restarted :
    ∃ e, Made soleGroup soleSelf narrow e ∧
      (∀ c ∈ e.allChosen passer visits, c.full passer = true ∧ c.ring = passed) ∧
      (e.allChosen passer visits).length = (passed.length + 1 - 1) / 1 ∧
      ∀ c ∈ e.allChosen passer visits, .ofChar 'a' ∉ c.listed passer := by
  have hpassing : passing visits = some (List.replicate 3
      (true, false, passed, [soleSelf, .ofChar 'b'])) := by decide +kernel
  obtain ⟨e, hnew, hshown⟩ := new_of_sole hpassing
  have hmade : Made soleGroup soleSelf narrow e := .new hnew
  have hall : ∀ c ∈ e.allChosen passer visits,
      c.shown = (true, false, passed, [soleSelf, .ofChar 'b']) := fun c hc =>
    List.eq_of_mem_replicate (hshown ▸ List.mem_map_of_mem hc)
  refine ⟨e, hmade, fun c hc => ?_, ?_, fun c hc => ?_⟩
  · obtain ⟨hfull, hrest⟩ := Prod.mk.inj (hall c hc)
    exact ⟨hfull, (Prod.mk.inj (Prod.mk.inj hrest).2).1⟩
  · rw [← List.length_map Choice.shown, hshown]
    rfl
  have hlisted : c.listed passer = [soleSelf, .ofChar 'b'] :=
    (Prod.mk.inj (Prod.mk.inj (Prod.mk.inj (hall c hc)).2).2).2
  rw [hlisted]
  decide

/-- The contact stays for three rounds. -/
def stay : List Event :=
  [.command (.addPeer (.ofChar 'a')), .command (.addPeer (.ofChar 'b')),
    .command (.setBootstrapContacts [passer]), .tick 0, .tick 1, .tick 2]

/-- A contact that stays is shown every member. -/
theorem rolling_digests_stayed :
    ∃ e, Made soleGroup soleSelf narrow e ∧
      ∃ c ∈ e.allChosen passer stay, c.full passer = true ∧ .ofChar 'a' ∈ c.listed passer := by
  have hpassing : passing stay = some [(true, false, passed, [soleSelf, .ofChar 'b']),
      (true, true, passed, [soleSelf, .ofChar 'a']),
        (true, true, passed, [.ofChar 'b', soleSelf])] := by
    decide +kernel
  obtain ⟨e, hnew, hshown⟩ := new_of_sole hpassing
  have hmade : Made soleGroup soleSelf narrow e := .new hnew
  generalize hrow : e.allChosen passer stay = row at hshown
  obtain ⟨c₀, c₁, c₂, rfl⟩ : ∃ c₀ c₁ c₂, row = [c₀, c₁, c₂] :=
    List.length_eq_three.mp
      ((List.length_map Choice.shown).symm.trans (congrArg List.length hshown))
  simp only [List.map_cons, List.map_nil, List.cons.injEq, and_true, Choice.shown,
    Prod.mk.injEq] at hshown
  obtain ⟨⟨hf₀, _, hr₀, _⟩, ⟨hf₁, hs₁, hr₁, _⟩, hf₂, hs₂, hr₂, _⟩ := hshown
  obtain ⟨_, _, hcovers⟩ := rolling_digests hmade passer stay
  refine ⟨e, hmade, ?_⟩
  rw [hrow]
  refine hcovers [] [c₀, c₁, c₂] [] passed (by simpa using hrow) (by simp [hr₀, hr₁, hr₂])
    (by simp [hs₁, hs₂]) (by simp [hf₀, hf₁, hf₂]; decide) (.ofChar 'a') (by decide)

end Groupnet
